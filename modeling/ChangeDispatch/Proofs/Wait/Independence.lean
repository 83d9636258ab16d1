import ChangeDispatch.Proofs.Settlement.Steps
import ChangeDispatch.Proofs.Wait.Confirmed

/-!
# The order of acknowledgments

An acknowledgment with an identifier resolves the key of its request and leaves everything
under the other keys as it is. So acknowledgments of different requests can be processed in
any order: the entries that are left, what is in the slots and the numbers of acks and nacks
are the same. Identifiers that nobody waits for are no exception, nor are waits for the same
workspace, since an acknowledgment with an identifier does not look at the workspace.

The order of the journal and the moments at which what was handed back is offered again are
not compared.
-/
namespace ChangeDispatch

namespace Waiter

variable {k l : WaitKey} {w : Waiter}

/-- A waiter is pending under one key at most. -/
theorem resolve_comm (ne : k ≠ l) (s t : Slot) (w : Waiter) :
    (w.resolve k s).resolve l t = (w.resolve l t).resolve k s := by
  by_cases hk : w.key = k
  · have other : ∀ slot, w.resolve l slot = w :=
      resolve_of_not fun here => ne (hk.symm.trans here.1)
    rw [other t]
    refine resolve_of_not (fun here => ?_) t
    rw [resolve_key] at here
    exact ne (hk.symm.trans here.1)
  · have kept : ∀ slot, w.resolve k slot = w := resolve_of_not fun here => hk here.1
    rw [kept s]
    refine (resolve_of_not (fun here => ?_) s).symm
    rw [resolve_key] at here
    exact hk here.1

end Waiter

namespace WaitRegistry

variable {r s : WaitRegistry} {ack other : AckEvent} {acks more : List AckEvent} {id : RequestId}

theorem resolve_comm {k l : WaitKey} (ne : k ≠ l) (s t : Slot) (r : WaitRegistry) :
    (r.resolve k s).resolve l t = (r.resolve l t).resolve k s := by
  unfold resolve PendingTable.remove
  dsimp only
  rw [List.filter_filter, List.filter_filter, List.map_map, List.map_map]
  congr 1
  · congr 1
    exact List.filter_congr fun e _ => Bool.and_comm _ _
  · exact List.map_congr_left fun w _ => Waiter.resolve_comm ne s t w

/-- To resolve a key under which nobody is pending does nothing. -/
theorem WellFormed.resolve_free (wf : r.WellFormed) {key : WaitKey}
    (free : ∀ w ∈ r.waiters, w.isPending → w.key ≠ key) (slot : Slot) :
    r.resolve key slot = r := by
  have entries : r.table.entries.filter (fun e => e.key != key) = r.table.entries := by
    refine List.filter_eq_self.mpr fun e he => ?_
    obtain ⟨w, hw, pending, rfl⟩ := wf.mem_entries.mp he
    exact bne_iff_ne.mpr (free w hw pending)
  have waiters : r.waiters.map (·.resolve key slot) = r.waiters :=
    (List.map_congr_left fun w hw =>
      Waiter.resolve_of_not (fun here => free w hw here.2 here.1) slot).trans (List.map_id _)
  unfold WaitRegistry.resolve PendingTable.remove
  rw [waiters]
  dsimp only
  rw [entries]

/-! ## What acknowledgments with identifiers make of a registry -/

/-- Resolve the key of an acknowledgment, if it has an identifier. -/
def answer (r : WaitRegistry) (ack : AckEvent) : WaitRegistry :=
  ack.event.requestId.elim r fun id => r.resolve (.request id) (.filled ack)

/-- What acknowledgments, the latest first, make of a registry. -/
def answers (r : WaitRegistry) (acks : List AckEvent) : WaitRegistry :=
  acks.foldr (fun ack r => r.answer ack) r

/-- Somebody is pending under the identifier of an acknowledgment. -/
def awaits (r : WaitRegistry) (ack : AckEvent) : Bool :=
  r.waiters.any fun w =>
    w.isPending && ack.event.requestId.any fun id => w.key == .request id

theorem awaits_iff (request : ack.event.requestId = some id) :
    r.awaits ack ↔ ∃ w ∈ r.waiters, w.isPending ∧ w.key = .request id := by
  unfold awaits
  rw [request, List.any_eq_true]
  simp

theorem answer_comm (ne : ack.event.requestId ≠ other.event.requestId) (r : WaitRegistry) :
    (r.answer ack).answer other = (r.answer other).answer ack := by
  unfold answer
  cases request : ack.event.requestId with
  | none => rfl
  | some id =>
    cases request' : other.event.requestId with
    | none => rfl
    | some id' =>
      refine resolve_comm (fun same => ne ?_) _ _ r
      rw [request, request', WaitKey.request.inj same]

/-- The order of acknowledgments of different requests makes no difference. -/
theorem answers_perm (distinct : (acks.map fun ack => ack.event.requestId).Nodup)
    (reordered : more.Perm acks) (r : WaitRegistry) : r.answers more = r.answers acks := by
  refine (reordered.symm.foldr_eq' (fun a ha b hb r => ?_) r).symm
  by_cases same : a.event.requestId = b.event.requestId
  · rw [List.inj_on_of_nodup_map distinct ha hb same]
  · exact answer_comm same r

/-- Whether somebody waits for a request depends on the acknowledgments of that request only. -/
theorem awaits_answer (ne : ack.event.requestId ≠ other.event.requestId) (r : WaitRegistry) :
    (r.answer other).awaits ack = r.awaits ack := by
  unfold answer awaits
  cases request : other.event.requestId with
  | none => rfl
  | some id =>
    rw [Option.elim_some]
    unfold resolve
    rw [List.any_map]
    refine List.any_congr rfl fun w => ?_
    dsimp only [Function.comp]
    rw [Waiter.isPending_resolve (by simp), Waiter.resolve_key]
    cases request' : ack.event.requestId with
    | none => simp
    | some id' =>
      have apart : id' ≠ id := fun same => ne (by rw [request, request', same])
      by_cases here : w.key = .request id'
      · simp [here, apart]
      · have elsewhere : (w.key == .request id') = false := by simpa using here
        simp [elsewhere]

theorem awaits_answers (fresh : ack.event.requestId ∉ acks.map fun b => b.event.requestId)
    (r : WaitRegistry) : (r.answers acks).awaits ack = r.awaits ack := by
  induction acks with
  | nil => rfl
  | cons b acks ih =>
    rw [List.map_cons, List.mem_cons, not_or] at fresh
    exact (awaits_answer fresh.1 _).trans (ih fresh.2)

theorem WellFormed.answer (wf : r.WellFormed) (ack : AckEvent) : (r.answer ack).WellFormed := by
  unfold WaitRegistry.answer
  cases ack.event.requestId with
  | none => exact wf
  | some id => exact wf.resolve _ (by simp)

theorem WellFormed.answers (wf : r.WellFormed) (acks : List AckEvent) :
    (r.answers acks).WellFormed := by
  induction acks with
  | nil => exact wf
  | cons ack acks ih => exact ih.answer ack

/-- What is offered goes into a slot if somebody waits for it; the registry becomes the same
either way. -/
theorem WellFormed.offer_answer (wf : r.WellFormed) (request : ack.event.requestId = some id) :
    (∃ entry, r.awaits ack = true ∧ r.offer ack = (.taken entry, r.answer ack)) ∨
      r.awaits ack = false ∧ r.offer ack = (.unmatched, r) ∧ r.answer ack = r := by
  have resolves : r.answer ack = r.resolve (.request id) (.filled ack) := by
    unfold WaitRegistry.answer
    rw [request]
    rfl
  rw [resolves]
  by_cases waited : r.awaits ack
  · obtain ⟨w, hw, pending, key⟩ := (awaits_iff request).mp waited
    have taken := wf.offer_pending request hw pending key
    rw [key] at taken
    exact .inl ⟨w.entry, waited, taken⟩
  · have free : ∀ w ∈ r.waiters, w.isPending → w.key ≠ .request id := fun w hw pending key =>
      waited ((awaits_iff request).mpr ⟨w, hw, pending, key⟩)
    exact .inr ⟨by simpa using waited, wf.offer_free request free, wf.resolve_free free _⟩

end WaitRegistry

/-! ## What a listener makes of them -/

namespace Host

variable (h : Host) (i : Nat) (d : Delivery)

@[simp] theorem faults_ack : (h.ack i d).2.faults = h.faults := by
  unfold Host.ack settle
  split <;> rfl

@[simp] theorem faults_nack (delay : Duration) : (h.nack i d delay).2.faults = h.faults := by
  unfold Host.nack settle
  dsimp only [setTimer]
  split <;> split <;> rfl

end Host

/-- The message is read as an acknowledgment. -/
def Delivery.Carries (d : Delivery) (ack : AckEvent) : Prop :=
  AckEvent.ofPayload d.payload = .ok ack

theorem Delivery.carries_of_map {ds : List Delivery} {acks : List AckEvent}
    (read : ds.map (fun d => AckEvent.ofPayload d.payload) = acks.map .ok) :
    List.Forall₂ Delivery.Carries ds acks := by
  induction ds generalizing acks with
  | nil =>
    cases acks with
    | nil => exact .nil
    | cons => cases read
  | cons d ds ih =>
    cases acks with
    | nil => cases read
    | cons ack acks =>
      obtain ⟨first, rest⟩ := List.cons.inj read
      exact .cons first (ih rest)

namespace Correlator

variable {c : Correlator} {r : WaitRegistry} {h k : Host} {d : Delivery} {ack : AckEvent}
  {acks : List AckEvent}

@[simp] theorem faults_handBack (h : Host) (c : Correlator) (d : Delivery) :
    (handBack h c d).faults = h.faults := by
  simp [handBack]

theorem nacked_handBack_of_works (works : h.faults.failNack = false) (c : Correlator)
    (d : Delivery) : (handBack h c d).broker.nacked = h.broker.nacked + 1 := by
  have counts := Host.counts_nack h c.subscription d works c.unmatchedDelay .nacked
  simpa [handBack, Broker.tally] using counts

theorem faults_process_taken (decoded : d.Carries ack) {entry : PendingEntry}
    (taken : c.registry.offer ack = (.taken entry, r)) : (process h c d).1.faults = h.faults := by
  unfold process
  rw [show AckEvent.ofPayload d.payload = .ok ack from decoded]
  dsimp only
  rw [taken]
  simp

/-- Settle deliveries, the latest of which stands first. -/
def processAll (h : Host) (c : Correlator) : List Delivery → Host × Correlator
  | [] => (h, c)
  | d :: earlier => process (processAll h c earlier).1 (processAll h c earlier).2 d

/-- What acknowledgments, the latest first, have made of a registry and of the counters:
those that somebody waited for were acked, the others were nacked, unless the connection
failed. -/
structure Settled (r : WaitRegistry) (h : Host) (acks : List AckEvent) (s : WaitRegistry)
    (k : Host) : Prop where
  registry : s = r.answers acks
  acked : k.broker.acked =
    h.broker.acked + if h.faults.failAck then 0 else acks.countP r.awaits
  nacked : k.broker.nacked =
    h.broker.nacked + if h.faults.failNack then 0 else acks.countP fun ack => !r.awaits ack
  faults : k.faults = h.faults

theorem Settled.refl (r : WaitRegistry) (h : Host) : Settled r h [] r h :=
  ⟨rfl, by simp, by simp, rfl⟩

/-- A step that keeps the registry, the counters and the faults. -/
theorem Settled.keep {s : WaitRegistry} {l : Host} (settled : Settled r h acks s k)
    (acked : l.broker.acked = k.broker.acked) (nacked : l.broker.nacked = k.broker.nacked)
    (faults : l.faults = k.faults) : Settled r h acks s l :=
  ⟨settled.registry, acked.trans settled.acked, nacked.trans settled.nacked,
    faults.trans settled.faults⟩

/-- One more acknowledgment, of a request that none of the earlier ones was for. -/
theorem Settled.next (wf : r.WellFormed) (settled : Settled r h acks c.registry k)
    (requests : ack.event.requestId.isSome)
    (fresh : ack.event.requestId ∉ acks.map fun b => b.event.requestId)
    (decoded : d.Carries ack) :
    Settled r h (ack :: acks) (process k c d).2.registry (process k c d).1 := by
  obtain ⟨id, request⟩ := Option.isSome_iff_exists.mp requests
  obtain ⟨registry, acked, nacked, faults⟩ := settled
  have wf' : c.registry.WellFormed := registry ▸ wf.answers acks
  have same : c.registry.awaits ack = r.awaits ack := by
    rw [registry]
    exact WaitRegistry.awaits_answers fresh r
  have answers : r.answers (ack :: acks) = c.registry.answer ack := by
    rw [registry]
    rfl
  rcases wf'.offer_answer request with ⟨entry, waited, taken⟩ | ⟨free, unmatched, unchanged⟩
  · obtain ⟨part, nackedAfter, ackedAfter⟩ := process_taken k decoded taken
    refine ⟨?_, ?_, ?_, (faults_process_taken decoded taken).trans faults⟩
    · rw [part, answers]
    · rw [List.countP_cons_of_pos (same ▸ waited)]
      cases fails : h.faults.failAck with
      | true =>
        rw [acked_process_of_fails (faults ▸ fails) decoded taken, acked, fails]
        rfl
      | false =>
        rw [ackedAfter (faults ▸ fails), acked, fails]
        simp only [Bool.false_eq_true, if_false]
        omega
    · rw [List.countP_cons_of_neg (by simp [← same, waited]), nackedAfter, nacked]
  · rw [process_unmatched decoded (h := k) (c := c) unmatched]
    refine ⟨?_, ?_, ?_, (faults_handBack k c d).trans faults⟩
    · rw [answers, unchanged]
    · rw [List.countP_cons_of_neg (by simp [← same, free]), acked_handBack, acked]
    · rw [List.countP_cons_of_pos (by simp [← same, free])]
      cases fails : h.faults.failNack with
      | true =>
        rw [nacked_handBack (faults ▸ fails), nacked, fails]
        rfl
      | false =>
        rw [nacked_handBack_of_works (faults ▸ fails), nacked, fails]
        simp only [Bool.false_eq_true, if_false]
        omega

/-- What is processed one after the other is settled. -/
theorem settled_processAll (wf : c.registry.WellFormed) (h : Host) {ds : List Delivery}
    (carry : List.Forall₂ Delivery.Carries ds acks)
    (requests : ∀ ack ∈ acks, ack.event.requestId.isSome)
    (distinct : (acks.map fun ack => ack.event.requestId).Nodup) :
    Settled c.registry h acks (processAll h c ds).2.registry (processAll h c ds).1 := by
  induction carry with
  | nil => exact Settled.refl c.registry h
  | cons decoded _ ih =>
    obtain ⟨request, requests⟩ := List.forall_mem_cons.mp requests
    obtain ⟨fresh, distinct⟩ := List.nodup_cons.mp distinct
    exact (ih requests distinct).next wf request fresh decoded

/-- A step of a listener settles what it takes. Without a delivery it keeps its registry and
the counters. -/
theorem Settled.step {k' : Host} {c' : Correlator} (wf : r.WellFormed)
    (settled : Settled r h acks c.registry k) (hs : c.step? k = some (k', c')) :
    (c.taking? k = none ∧ Settled r h acks c'.registry k') ∨
      ∃ d, c.taking? k = some d ∧ ∀ ack, d.Carries ack → ack.event.requestId.isSome →
        (ack.event.requestId ∉ acks.map fun b => b.event.requestId) →
        Settled r h (ack :: acks) c'.registry k' := by
  have begun : k.beginReceive.2.faults = k.faults := rfl
  have counts := k.counts_beginReceive
  cases turn_of_step? hs with
  | stopping _ told => exact .inl ⟨taking?_eq_none (.inr told), settled.keep rfl rfl rfl⟩
  | asking ready _ asked =>
    rw [asked] at begun counts
    exact .inl ⟨taking?_eq_none (.inl (by simp [ready])),
      settled.keep (counts .acked) (counts .nacked) begun⟩
  | pausing ready _ refused =>
    rw [refused] at begun counts
    exact .inl ⟨taking?_eq_none (.inl (by simp [ready])),
      settled.keep (counts .acked) (counts .nacked) begun⟩
  | @taking d l waiting going taken =>
    obtain ⟨counts, faults⟩ := Host.counts_take? taken
    have received := settled.keep (counts .acked) (counts .nacked) faults
    refine .inr ⟨d, by rw [taking?_eq waiting going, taken]; rfl,
      fun ack decoded request fresh => ?_⟩
    exact received.next wf request fresh decoded
  | ending waiting going nothing _ =>
    exact .inl ⟨by rw [taking?_eq waiting going, nothing]; rfl, settled.keep rfl rfl rfl⟩
  | resuming pausing _ _ =>
    exact .inl ⟨taking?_eq_none (.inl (by simp [pausing])), settled⟩

end Correlator

namespace Script

open Correlator (Settled)

variable {ts since : List Transition} {x y : Session} {c : Nat} {r : WaitRegistry}
  {acks : List AckEvent}

/-- The listener of the correlator makes a step, or something happens that keeps what waits
for acknowledgments, the numbers of acks and nacks and the faults of the connection, such as
the arrival of a message. -/
def Transition.LeavesToListener (t : Transition) (c : Nat) : Prop :=
  t.action.agent? = some (.listener c) ∨
    t.after.registry? c = t.before.registry? c ∧
      t.after.system.host.broker.acked = t.before.system.host.broker.acked ∧
      t.after.system.host.broker.nacked = t.before.system.host.broker.nacked ∧
      t.after.system.host.faults = t.before.system.host.faults

instance Transition.decidableLeavesToListener (t : Transition) (c : Nat) :
    Decidable (t.LeavesToListener c) :=
  inferInstanceAs (Decidable (_ ∨ _ ∧ _ ∧ _ ∧ _))

/-- A transition settles what the listener takes in it. -/
theorem Transition.LeavesToListener.settles {a : Action} {s : WaitRegistry} {h : Host}
    (left : (⟨x, a, y⟩ : Transition).LeavesToListener c) (happens : x.after? a = some y)
    (wf : r.WellFormed) (hs : x.registry? c = some s)
    (settled : Settled r h acks s x.system.host) :
    ((⟨x, a, y⟩ : Transition).taken? (.listener c) = none ∧
      ∃ s', y.registry? c = some s' ∧ Settled r h acks s' y.system.host) ∨
    ∃ d, (⟨x, a, y⟩ : Transition).taken? (.listener c) = some d ∧
      ∀ ack, d.Carries ack → ack.event.requestId.isSome →
        (ack.event.requestId ∉ acks.map fun b => b.event.requestId) →
        ∃ s', y.registry? c = some s' ∧ Settled r h (ack :: acks) s' y.system.host := by
  by_cases listens : a.agent? = some (.listener c)
  · obtain rfl : a = .agent (.listener c) := by
      cases a <;> cases listens
      rfl
    obtain ⟨system, ht, rfl⟩ := Option.map_eq_some_iff.mp happens
    obtain ⟨co, host, co', hc, step, rfl⟩ := Agent.step?_listener ht
    obtain rfl := Option.some.inj ((System.getElem?_registries hc).symm.trans hs)
    have after : Session.registry?
        { x with system := { x.system with host }.adjustCorrelator c fun _ => co' } c =
          some co'.registry :=
      System.getElem?_registries (by simp [System.adjustCorrelator, hc])
    rw [Transition.taken?_self, System.taking?_listener hc]
    rcases settled.step wf step with ⟨nothing, kept⟩ | ⟨d, taking, next⟩
    · exact .inl ⟨nothing, co'.registry, after, kept⟩
    · refine .inr ⟨d, taking, fun ack decoded request fresh => ?_⟩
      exact ⟨co'.registry, after, next ack decoded request fresh⟩
  · obtain ⟨registry, acked, nacked, faults⟩ := left.resolve_left listens
    exact .inl ⟨if_neg listens, s, registry.trans hs, settled.keep acked nacked faults⟩

/-- What the listener has received since a session, the latest first, is settled. -/
theorem Runs.settled_takings (run : Runs (since ++ ts) y) (earlier : Runs ts x)
    (hr : x.registry? c = some r) (left : ∀ u ∈ since, u.LeavesToListener c)
    (carry : List.Forall₂ Delivery.Carries (takings since (.listener c)) acks)
    (requests : ∀ ack ∈ acks, ack.event.requestId.isSome)
    (distinct : (acks.map fun ack => ack.event.requestId).Nodup) :
    ∃ s, y.registry? c = some s ∧ Settled r x.system.host acks s y.system.host := by
  induction since generalizing y acks with
  | nil =>
    obtain rfl := run.unique earlier
    cases carry
    exact ⟨r, hr, .refl r _⟩
  | cons t since ih =>
    obtain ⟨here, before⟩ := List.forall_mem_cons.mp left
    rw [takings_cons] at carry
    cases run with
    | @next _ z _ a run h =>
      have wf := earlier.wellFormed hr
      cases taken : (⟨z, a, y⟩ : Transition).taken? (.listener c) with
      | none =>
        rw [taken] at carry
        obtain ⟨s, hs, settled⟩ := ih run before carry requests distinct
        rcases here.settles h wf hs settled with ⟨-, kept⟩ | ⟨d, taken', -⟩
        · exact kept
        · cases taken.symm.trans taken'
      | some d =>
        rw [taken] at carry
        cases carry with
        | cons decoded carry =>
          obtain ⟨request, requests⟩ := List.forall_mem_cons.mp requests
          obtain ⟨fresh, distinct⟩ := List.nodup_cons.mp distinct
          obtain ⟨s, hs, settled⟩ := ih run before carry requests distinct
          rcases here.settles h wf hs settled with ⟨nothing, -⟩ | ⟨d', taken', next⟩
          · cases taken.symm.trans nothing
          · obtain rfl := Option.some.inj (taken.symm.trans taken')
            exact next _ decoded request fresh

/-! ## Any order -/

/-- The same waits are pending, the same acknowledgments are in the same slots, and the same
numbers of acks and nacks have been counted. -/
structure SettledAlike (r s : WaitRegistry) (h k : Host) : Prop where
  table : s.table = r.table
  waiters : s.waiters = r.waiters
  acked : k.broker.acked = h.broker.acked
  nacked : k.broker.nacked = h.broker.nacked

theorem SettledAlike.of_settled {s t : WaitRegistry} {h k l : Host} {more : List AckEvent}
    (distinct : (acks.map fun ack => ack.event.requestId).Nodup) (reordered : more.Perm acks)
    (one : Settled r h acks s k) (other : Settled r h more t l) : SettledAlike s t k l := by
  have registry : t = s := by
    rw [one.registry, other.registry]
    exact WaitRegistry.answers_perm distinct reordered r
  refine ⟨congrArg _ registry, congrArg _ registry, ?_, ?_⟩
  · rw [one.acked, other.acked, reordered.countP_eq]
  · rw [one.nacked, other.nacked, reordered.countP_eq]

/-- Acknowledgments that all carry identifiers, pairwise distinct, can be processed in any
order: if a listener settles one list of them and another in a different order, or if in two
continuations of one run it receives the one and the other, then the pending table, the slots
and the counters of acks and nacks are the same afterwards. Lists have the latest first. -/
theorem Runs.order_of_acks_free (run : Runs ts x) {co : Correlator}
    (hc : x.system.correlators[c]? = some co) {acks more : List AckEvent}
    (requests : ∀ ack ∈ acks, ack.event.requestId.isSome)
    (distinct : (acks.map fun ack => ack.event.requestId).Nodup) (reordered : more.Perm acks) :
    (∀ ds es, List.Forall₂ Delivery.Carries ds acks → List.Forall₂ Delivery.Carries es more →
      SettledAlike (co.processAll x.system.host ds).2.registry
        (co.processAll x.system.host es).2.registry (co.processAll x.system.host ds).1
        (co.processAll x.system.host es).1) ∧
    ∀ since since' y y', Runs (since ++ ts) y → Runs (since' ++ ts) y' →
      (∀ u ∈ since, u.LeavesToListener c) → (∀ u ∈ since', u.LeavesToListener c) →
      List.Forall₂ Delivery.Carries (takings since (.listener c)) acks →
      List.Forall₂ Delivery.Carries (takings since' (.listener c)) more →
      ∃ r r', y.registry? c = some r ∧ y'.registry? c = some r' ∧
        SettledAlike r r' y.system.host y'.system.host := by
  have found : x.registry? c = some co.registry := System.getElem?_registries hc
  have requests' : ∀ ack ∈ more, ack.event.requestId.isSome := fun ack hack =>
    requests ack (reordered.mem_iff.mp hack)
  have distinct' : (more.map fun ack => ack.event.requestId).Nodup :=
    (reordered.map _).nodup_iff.mpr distinct
  constructor
  · intro ds es carry carry'
    have wf := run.wellFormed found
    exact .of_settled distinct reordered
      (Correlator.settled_processAll wf x.system.host carry requests distinct)
      (Correlator.settled_processAll wf x.system.host carry' requests' distinct')
  · intro since since' y y' one other left left' carry carry'
    obtain ⟨r, hr, settled⟩ := one.settled_takings run found left carry requests distinct
    obtain ⟨r', hr', settled'⟩ := other.settled_takings run found left' carry' requests' distinct'
    exact ⟨r, r', hr, hr', .of_settled distinct reordered settled settled'⟩

/-- Two waits for one workspace. -/
def twoRequests : List Action :=
  [.agent (.listener 0), .perform (.register "p" (creation (some (.ofNat 2))) "second"),
   .perform (.register "p" (creation (some (.ofNat 1))) "first"),
   .perform (.openPublisher "p" {})]

def answerTo (n : Nat) : AckEvent :=
  { event := creation (some (.ofNat n)), status := .created }

/-- Acknowledgments come one after the other, and the listener receives each at once; the
latest first. -/
def arrivals (ns : List Nat) : List Action :=
  ns.flatMap fun n =>
    [.agent (.listener 0), .agent (.listener 0),
     .perform (.inject Topic.defaultAck (AckEvent.write (answerTo n)))]

set_option maxRecDepth 100000 in
theorem heard_arrivals : ∀ ns ∈ [[3, 2, 1], [1, 3, 2]],
    ∃ since, Runs (since ++ (play twoRequests).1) (play (arrivals ns ++ twoRequests)).2 ∧
      (∀ u ∈ since, u.LeavesToListener 0) ∧
      List.Forall₂ Delivery.Carries (takings since (.listener 0)) (ns.map answerTo) := by
  have facts : ∀ ns ∈ [[3, 2, 1], [1, 3, 2]],
      (play (arrivals ns ++ twoRequests)).1.length - (play twoRequests).1.length = 9 ∧
      (∀ u ∈ (play (arrivals ns ++ twoRequests)).1.take 9, u.LeavesToListener 0) ∧
      (takings ((play (arrivals ns ++ twoRequests)).1.take 9) (.listener 0)).map
        (fun d => AckEvent.ofPayload d.payload) = (ns.map answerTo).map .ok := by
    decide +kernel
  intro ns hns
  obtain ⟨length, left, read⟩ := facts ns hns
  have split := List.suffix_iff_eq_append.mp (play_suffix (arrivals ns) twoRequests)
  rw [length] at split
  refine ⟨_, split.symm ▸ play_runs _, left, ?_⟩
  exact Delivery.carries_of_map read

set_option maxRecDepth 100000 in
/-- Nobody waits for the third request. -/
theorem three_acks_in_two_orders :
    ∃ r r', Session.registry? (play (arrivals [3, 2, 1] ++ twoRequests)).2 0 = some r ∧
      Session.registry? (play (arrivals [1, 3, 2] ++ twoRequests)).2 0 = some r' ∧
      SettledAlike r r' (play (arrivals [3, 2, 1] ++ twoRequests)).2.system.host
        (play (arrivals [1, 3, 2] ++ twoRequests)).2.system.host ∧
      r.table.entries = [] ∧
      r.waiters.map Waiter.slot = [.filled (answerTo 1), .filled (answerTo 2)] := by
  have facts : ((play twoRequests).2.system.correlators[0]?).isSome ∧
      (Session.registry? (play (arrivals [3, 2, 1] ++ twoRequests)).2 0).map
        (fun r => (r.table.entries, r.waiters.map Waiter.slot)) =
          some ([], [.filled (answerTo 1), .filled (answerTo 2)]) := by
    decide +kernel
  obtain ⟨listening, emptied⟩ := facts
  obtain ⟨co, hc⟩ := Option.isSome_iff_exists.mp listening
  obtain ⟨since, run, left, carry⟩ := heard_arrivals [3, 2, 1] (by decide)
  obtain ⟨since', run', left', carry'⟩ := heard_arrivals [1, 3, 2] (by decide)
  obtain ⟨r, r', hr, hr', alike⟩ :=
    ((play_runs twoRequests).order_of_acks_free hc (by decide) (by decide) (by decide)).2
      since since' _ _ run run' left left' carry carry'
  refine ⟨r, r', hr, hr', alike, ?_⟩
  rw [hr, Option.map_some] at emptied
  exact Prod.mk.inj (Option.some.inj emptied)

end Script

end ChangeDispatch
