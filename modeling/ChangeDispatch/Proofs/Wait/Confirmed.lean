import ChangeDispatch.Proofs.Settlement.Steps
import ChangeDispatch.Proofs.Wait.Waiting

/-!
# Acknowledgments that were confirmed

A slot that is filled stays as it is until its waiter is let go of, and a wait looks at the
slot first. So a wait returns what was handed to its waiter, whatever else has happened by
then. The listener acks what it hands out in the same step; where the connection fails to, the
acknowledgment is returned all the same.
-/
namespace ChangeDispatch

/-! ## Slots that are set -/

namespace WaitRegistry.WellFormed

variable {arriving : AckEvent → Prop} {r s : WaitRegistry} {v w : Waiter}

theorem release_settled (h : r.WellFormed) {serial : Nat} (hv : v ∈ r.waiters)
    (settled : v.isPending = false) (hw : w ∈ (r.release serial).waiters)
    (same : w.serial = v.serial) : w = v := by
  rcases h.release_cases serial with ⟨-, ho⟩ | ⟨u, -, -, ho⟩
  · rw [ho] at hw
    exact h.eq_of_serial hw hv same
  · rw [ho] at hw
    obtain ⟨v', hv', rfl⟩ := mem_resolve.mp (List.mem_of_mem_filter hw)
    rw [Waiter.resolve_serial] at same
    obtain rfl := h.eq_of_serial hv' hv same
    exact Waiter.resolve_of_not (by simp [settled]) _

/-- A waiter whose slot is set is kept as it is, if it is kept. -/
theorem settled (h : r.WellFormed) (step : Step arriving r s) (hv : v ∈ r.waiters)
    (settled : v.isPending = false) (hw : w ∈ s.waiters) (same : w.serial = v.serial) :
    w = v := by
  cases step with
  | kept => exact h.eq_of_serial hw hv same
  | registered hr => exact (h.register hr).eq_of_serial hw (register_stay hr hv) same
  | released serial => exact h.release_settled hv settled hw same
  | replaced hr _ => exact (h.register hr).release_settled (register_stay hr hv) settled hw same
  | @offered ack _ =>
    rcases h.offer_cases ack with ho | ⟨u, -, -, -, ho⟩
    · rw [ho] at hw
      exact h.eq_of_serial hw hv same
    · rw [ho] at hw
      obtain ⟨v', hv', rfl⟩ := mem_resolve.mp hw
      rw [Waiter.resolve_serial] at same
      obtain rfl := h.eq_of_serial hv' hv same
      exact Waiter.resolve_of_not (by simp [settled]) _
  | closed =>
    rw [h.close_eq] at hw
    obtain ⟨v', hv', rfl⟩ := List.mem_map.mp hw
    have serial : v'.serial = v.serial := by
      split at same <;> exact same
    obtain rfl := h.eq_of_serial hv' hv serial
    rw [settled]
    rfl

end WaitRegistry.WellFormed

namespace Host

variable (h : Host) (i : Nat) (d : Delivery)

theorem acked_ack_of_fails (fails : h.faults.failAck) :
    (h.ack i d).2.broker.acked = h.broker.acked := by
  have counts := h.counts_ack_cases i d
  rw [if_pos fails] at counts
  exact counts .acked

end Host

theorem Correlator.acked_process_of_fails {c : Correlator} {d : Delivery} {ack : AckEvent}
    {h : Host} (fails : h.faults.failAck) (decoded : AckEvent.ofPayload d.payload = .ok ack)
    {entry : PendingEntry} {r : WaitRegistry} (taken : c.registry.offer ack = (.taken entry, r)) :
    (process h c d).1.broker.acked = h.broker.acked := by
  unfold process
  rw [decoded]
  dsimp only
  rw [taken]
  simp [Host.acked_ack_of_fails, fails]

namespace System

variable {s : System} {n : Nat} {handle : WaitHandle} {token : Option Nat}

theorem phase?_endWaitCall {φ : Call.Phase} (hφ : s.phase? n = some φ) (handle : WaitHandle)
    (result : Call.Result) :
    (s.endWaitCall n (some handle) result).phase? n = some (.ended s.host.now result) :=
  phase?_endCall (s := s.releaseWaiter handle) hφ result

/-- A wait that has a result ends with it. -/
theorem stepCall?_of_waitResult
    (waits : s.phase? n = some (.awaiting handle token) ∨
      ∃ timer, s.phase? n = some (.waiting handle token timer))
    {result : Call.Result} (returns : s.waitResult? handle token = some result) :
    s.stepCall? n = some (s.endWaitCall n (some handle) result) := by
  unfold stepCall?
  rcases waits with hφ | ⟨timer, hφ⟩
  · rw [stepCall?_of_phase hφ]
    show some (s.stepAwaiting n handle token) = _
    unfold stepAwaiting
    rw [returns]
  · rw [stepCall?_of_phase hφ]
    show (s.waitResult? handle token).map _ = _
    rw [returns]
    rfl

end System

namespace Script

variable {ts since before : List Transition} {x y z : Session} {a : Action} {t u : Transition}
  {c n : Nat} {v w : Waiter} {d : Delivery} {ack : AckEvent} {r : WaitRegistry}
  {handle : WaitHandle} {result : Call.Result} {token : Option Nat}

/-! ## Waits that have ended -/

/-- A call that ends lets go of the waiter that it holds. -/
theorem released_of_ended {φ : Call.Phase} {moment : Nat}
    (h : x.after? (.agent (.call n)) = some y) (hφ : x.system.phase? n = some φ)
    (holds : φ.handle? = some handle) (ended : y.system.phase? n = some (.ended moment result)) :
    y.system.registries =
      x.system.registries.modify handle.correlator (·.release handle.serial) := by
  obtain ⟨s, hs, rfl⟩ := Option.map_eq_some_iff.mp h
  obtain ⟨φ', hφ', v, ψ, step, quiet⟩ := System.callSteps_of_stepCall? hs
  obtain rfl := Option.some.inj (hφ.symm.trans hφ')
  have finished : ψ.handle? = none := by
    have reached := quiet.phase? n
    rw [System.phase?_setPhase (step.phase?_eq ▸ hφ), ended] at reached
    rw [← Option.some.inj reached]
    rfl
  dsimp only
  rw [quiet.registries]
  rcases step.waits_cases with ⟨kept, -⟩ | ⟨other, own, -, released⟩ |
    ⟨_, _, _, _, _, none, -⟩ | ⟨_, none, -, -⟩
  · cases holds.symm.trans (kept.symm.trans finished)
  · obtain rfl := Option.some.inj (holds.symm.trans own)
    exact released
  · cases holds.symm.trans none
  · cases holds.symm.trans none

/-- A wait that ends lets go of its waiter. -/
theorem Transition.Returns.released (ret : (⟨x, a, y⟩ : Transition).Returns handle result)
    (h : x.after? a = some y) :
    y.system.registries =
      x.system.registries.modify handle.correlator (·.release handle.serial) := by
  obtain ⟨n, φ, token, moment, action, hφ, waits, ended⟩ := ret
  dsimp only at action hφ ended
  subst action
  refine released_of_ended h hφ ?_ ended
  rcases waits with rfl | ⟨timer, rfl⟩ <;> rfl

/-- A waiter that was let go of is not in use again. -/
theorem Runs.unused_of_released (run : Runs (since ++ ⟨x, a, y⟩ :: before) z)
    (held : handle ∈ x.handles)
    (released : y.system.registries =
      x.system.registries.modify handle.correlator (·.release handle.serial))
    (hr : z.registry? handle.correlator = some r) (hw : w ∈ r.waiters) :
    w.serial ≠ handle.serial := by
  obtain ⟨earlier, happens⟩ := run.of_suffix (List.suffix_append since (⟨x, a, y⟩ :: before))
  dsimp only at happens earlier
  obtain ⟨q, hq, v, hv, serial⟩ := earlier.owned.exists_waiter held
  have wf := earlier.wellFormed hq
  have after : y.registry? handle.correlator = some (q.release handle.serial) := by
    unfold Session.registry?
    rw [released, List.getElem?_modify_eq]
    exact congrArg (Option.map _) hq
  have known : handle.serial < (q.release handle.serial).table.nextSerial :=
    Nat.lt_of_lt_of_le (serial ▸ wf.fresh v hv) (wf.descends_release handle.serial).nextSerial
  obtain ⟨s, hs, descends⟩ := run.registry_since (.next earlier happens) after
  obtain rfl := Option.some.inj (hr.symm.trans hs)
  intro same
  rcases descends.waiters w hw with ⟨v', hv', registered, -⟩ | new
  · have left : v'.serial ∈ (q.release handle.serial).serials :=
      WaitRegistry.mem_serials.mpr ⟨v', hv', rfl⟩
    rw [wf.serials_release, (Waiter.of_registered registered).1, same] at left
    simp at left
  · omega

/-- The waiter of a wait that has ended is not in use again. -/
theorem Runs.unused_of_returns (run : Runs (since ++ t :: before) z) (ret : t.Returns handle result)
    (hr : z.registry? handle.correlator = some r) (hw : w ∈ r.waiters) :
    w.serial ≠ handle.serial := by
  obtain ⟨x, a, y⟩ := t
  obtain ⟨earlier, happens⟩ := run.of_suffix (List.suffix_append since (⟨x, a, y⟩ :: before))
  have held : handle ∈ x.handles := by
    obtain ⟨n, φ, token, moment, -, hφ, waits, -⟩ := ret
    refine Session.mem_handles hφ ?_
    rcases waits with rfl | ⟨timer, rfl⟩ <;> rfl
  exact run.unused_of_released held (ret.released happens) hr hw

/-! ## Slots that were filled -/

/-- What was handed to a waiter stays in its slot. -/
theorem Runs.slot_of_hands (run : Runs ts z) (hu : u ∈ ts) (hands : u.Hands c v d ack)
    (hr : z.registry? c = some r) (hw : w ∈ r.waiters) (same : w.serial = v.serial) :
    w.slot = .filled ack := by
  induction run generalizing r w with
  | start => cases hu
  | @next ts x y a run h ih =>
    rcases List.mem_cons.mp hu with rfl | hu
    · obtain ⟨-, -, s, v', -, hs, -, -, hv', serial, filled⟩ := hands
      obtain rfl := Option.some.inj (hr.symm.trans hs)
      have one := (Runs.next run h).wellFormed hr
      obtain rfl := one.eq_of_serial hw hv' (same.trans serial.symm)
      exact filled
    · obtain ⟨q, hq, known, -⟩ := run.filled.spent u hu c v d ack hands
      obtain ⟨s, hs, step⟩ := (Session.waitChange_of_after? h).step run.owned hq
      obtain rfl := Option.some.inj (hr.symm.trans hs)
      have wf := run.wellFormed hq
      rcases (wf.descends step).waiters w hw with ⟨v', hv', registered, -⟩ | new
      · have serial := (Waiter.of_registered registered).1
        have filled := ih hu hq hv' (serial.trans same)
        have settled : v'.isPending = false := by simp [Waiter.isPending, filled]
        rw [wf.settled step hv' settled hw serial.symm]
        exact filled
      · omega

/-- The wait on a handle that is held returns what was handed to its waiter. -/
theorem Runs.waitResult?_of_hands (run : Runs ts z) (hu : u ∈ ts) (hands : u.Hands c w d ack)
    (held : ⟨c, w.serial⟩ ∈ z.handles) (token : Option Nat) :
    z.system.waitResult? ⟨c, w.serial⟩ token = some (.acknowledged ack) := by
  obtain ⟨r, hr, v, hv, serial⟩ := run.owned.exists_waiter held
  have filled := run.slot_of_hands hu hands hr hv serial
  rw [← show v.serial = w.serial from serial]
  exact run.waitResult?_of_filled hr hv filled token

/-- Every wait that ends on a waiter that was handed an acknowledgment, at any time, returns
that. -/
theorem Runs.returns_handed (run : Runs ts z) (hu : u ∈ ts) (hands : u.Hands c w d ack)
    (ht : t ∈ ts) (ret : t.Returns ⟨c, w.serial⟩ result) : result = .acknowledged ack := by
  obtain ⟨later, earlier, rfl⟩ := List.append_of_mem ht
  rcases List.mem_append.mp hu with hu | hu
  · -- a wait that ended before has let go of the waiter
    obtain ⟨m, mid, rfl⟩ := List.append_of_mem hu
    rw [List.append_assoc] at run
    obtain ⟨past, happens⟩ := run.of_suffix (List.suffix_append m _)
    obtain ⟨r, hr, hw, -⟩ := hands.belongs past happens
    exact absurd rfl (past.unused_of_returns ret hr hw)
  · obtain ⟨past, happens⟩ := run.of_suffix (List.suffix_append later (t :: earlier))
    rcases List.mem_cons.mp hu with rfl | hu
    · obtain ⟨n, φ, token, moment, call, -⟩ := ret
      cases call.symm.trans hands.1.1
    · obtain ⟨held, token, returns⟩ := ret.waitResult happens
      rw [past.waitResult?_of_hands hu hands held token] at returns
      exact (Option.some.inj returns).symm

/-- A call that waits on such a waiter can go on at once, and then ends with it. -/
theorem Runs.waiting_of_handed (run : Runs ts z) (hu : u ∈ ts) (hands : u.Hands c w d ack)
    (waiting : z.Waiting n ⟨c, w.serial⟩ token) :
    ¬z.system.isQuiescent ∧ ∃ y, z.after? (.agent (.call n)) = some y ∧
      y.system.phase? n = some (.ended z.system.host.now (.acknowledged ack)) := by
  have returns := run.waitResult?_of_hands hu hands waiting.mem_handles token
  refine ⟨fun quiescent => ?_, ?_⟩
  · cases (waiting.waitResult?_eq_none run quiescent).symm.trans returns
  · have step := System.stepCall?_of_waitResult waiting returns
    refine ⟨_, congrArg (Option.map _) step, ?_⟩
    rcases waiting with hφ | ⟨timer, hφ⟩
    · exact System.phase?_endWaitCall hφ _ _
    · exact System.phase?_endWaitCall hφ _ _

/-- What is handed to a waiter is acked in the same step, unless the connection fails to. -/
theorem Transition.Hands.acks_iff (run : Runs ts x) (h : x.after? a = some y)
    (hands : (⟨x, a, y⟩ : Transition).Hands c w d ack) :
    (⟨x, a, y⟩ : Transition).Acks c d ack ↔ x.system.host.faults.failAck = false := by
  obtain ⟨co, k, hc, received, decoded, host, -⟩ := hands.1.processed h
  obtain ⟨entry, r, taken⟩ := (hands_iff_taken run h hc hands.1).mpr ⟨w, ack, hands⟩
  obtain ⟨faults, -, -, before, -⟩ := Host.take?_counters received
  constructor
  · rintro ⟨-, acked⟩
    cases fails : x.system.host.faults.failAck with
    | false => rfl
    | true =>
      have same := Correlator.acked_process_of_fails (faults ▸ fails) decoded taken
      dsimp only at acked
      rw [host, same, before] at acked
      omega
  · intro works
    refine ⟨hands.1, ?_⟩
    dsimp only
    rw [host, (Correlator.process_taken k decoded taken).2.2 (faults ▸ works), before]

/-! ## The result -/

/-- What is acked was handed to a waiter. Every wait on that waiter that ends, at whatever time
it was begun and whatever has happened to its token, its deadline and the correlator, returns
what was handed to the waiter; and one that is still going on can end at once. A wait returns an
acknowledgment only if one delivery that carries it, and no other, was handed to its waiter. That
delivery is acked in the same step and the message only once, unless the connection fails to. -/
theorem handed_wait_returns (run : Runs ts z) :
    (∀ u ∈ ts, ∀ c d ack, u.Acks c d ack → ∃ w, u.Hands c w d ack) ∧
    (∀ u ∈ ts, ∀ c w d ack, u.Hands c w d ack →
      (∀ t ∈ ts, ∀ result, t.Returns ⟨c, w.serial⟩ result → result = .acknowledged ack) ∧
      ∀ n token, z.Waiting n ⟨c, w.serial⟩ token → ¬z.system.isQuiescent ∧
        ∃ y, z.after? (.agent (.call n)) = some y ∧
          y.system.phase? n = some (.ended z.system.host.now (.acknowledged ack))) ∧
    ∀ t us, t :: us <:+ ts → ∀ handle ack, t.Returns handle (.acknowledged ack) →
      ∃ later u earlier w d, us = later ++ u :: earlier ∧
        u.Hands handle.correlator w d ack ∧ w.serial = handle.serial ∧
        (∀ v ∈ later ++ earlier, ∀ w' e other, v.Hands handle.correlator w' e other →
          w'.serial ≠ handle.serial) ∧
        (u.Acks handle.correlator d ack ↔ u.before.system.host.faults.failAck = false) ∧
        (u.before.system.host.faults.failAck = false →
          AckedOnce ts handle.correlator d.message ack) := by
  refine ⟨fun u hu c d ack acks => ?_, fun u hu c w d ack hands => ⟨?_, ?_⟩,
    fun t us hs handle ack ret => ?_⟩
  · obtain ⟨past, earlier, happens⟩ := run.made hu
    exact acks.hands earlier happens
  · exact fun t ht result ret => run.returns_handed hu hands ht ret
  · exact fun n token waiting => run.waiting_of_handed hu hands waiting
  · obtain ⟨earlier, happens⟩ := run.of_suffix hs
    obtain ⟨live, token, returns⟩ := ret.waitResult happens
    obtain ⟨r, w, hr, hw, serial, -, slot⟩ := slot_of_waitResult earlier.owned live returns
    obtain ⟨u, hu, v, d, hands, same⟩ :=
      earlier.filled.source _ r hr w hw ack ((slot ack).mp rfl)
    obtain ⟨later, past, rfl⟩ := List.append_of_mem hu
    obtain ⟨before, made⟩ := earlier.of_suffix (List.suffix_append later (u :: past))
    obtain ⟨-, apart, across⟩ := List.pairwise_append.mp earlier.hands_apart
    have confirmed := hands.acks_iff before made
    refine ⟨later, u, past, v, d, rfl, hands, same.trans serial, ?_, confirmed, fun works => ?_⟩
    · intro t' ht' w' e other hands' again
      have one : w'.serial = v.serial := again.trans (same.trans serial).symm
      rcases List.mem_append.mp ht' with ht' | ht'
      · exact (across t' ht' u List.mem_cons_self _ w' e other v d ack hands' hands).1 one
      · exact ((List.pairwise_cons.mp apart).1 t' ht' _ v d ack w' e other hands hands').1 one.symm
    · have member : u ∈ ts := hs.subset (List.mem_cons_of_mem t hu)
      exact run.ackedOnce member (confirmed.mpr works)

/-- An acknowledgment is handed to a waiter, but the connection fails to ack it; the latest
action first. -/
def answeredUnacked : List Action :=
  [.agent (.call 0), .perform (.wait "w" none), .agent (.listener 0),
   .perform (.inject "acks" (AckEvent.write secondAnswer)),
   .perform (.setFaults { failAck := true }), .agent (.listener 0),
   .perform (.register "c" secondAnswer.event "w"),
   .perform (.startCorrelator "c" ⟨"acks", "listener", some 3⟩ (.ofMillis 30000) (.ofMillis 15000))]

set_option maxRecDepth 100000 in
/-- The wait returned an acknowledgment of which no delivery was acked. -/
theorem returned_unacked :
    ∃ t us, (play answeredUnacked).1 = t :: us ∧ t.Returns ⟨0, 0⟩ (.acknowledged secondAnswer) ∧
      ∀ u ∈ t :: us, ∀ c d ack, ¬u.Acks c d ack := by
  let x := (play answeredUnacked.tail).2
  let t : Transition := ⟨x, .agent (.call 0), (play answeredUnacked).2⟩
  have split : (play answeredUnacked).1 = t :: (play answeredUnacked.tail).1 := by rfl
  have returns : t.Returns ⟨0, 0⟩ (.acknowledged secondAnswer) :=
    ⟨0, .awaiting ⟨0, 0⟩ none, none, 0, rfl, by rfl, .inl rfl, by rfl⟩
  refine ⟨t, _, split, returns, fun u hu c d ack => ?_⟩
  have none : ((play answeredUnacked).1.all fun u =>
      u.after.system.host.broker.acked == 0) = true := by rfl
  rintro ⟨-, acked⟩
  have zero := eq_of_beq (List.all_eq_true.mp none u (split ▸ hu))
  omega

/-- An acknowledgment is handed to a waiter. Then its correlator is shut down and its deadline
passes, and it is waited on with a token that has fired; the latest action first. -/
def waitedLate : List Action :=
  [.perform (.wait "w" (some "k")), .tick 60000, .perform (.cancel "k"), .perform (.makeToken "k"),
   .agent (.call 0), .agent (.listener 0), .agent (.call 0), .perform (.close "c"),
   .agent (.listener 0), .perform (.inject "acks" (AckEvent.write secondAnswer)),
   .agent (.listener 0), .perform (.register "c" secondAnswer.event "w"),
   .perform (.startCorrelator "c" ⟨"acks", "listener", some 3⟩ (.ofMillis 30000) (.ofMillis 15000))]

set_option maxRecDepth 100000 in
/-- The wait returns the acknowledgment. -/
theorem waitedLate_returns :
    (play waitedLate).2.system.tokenFired (some 0) ∧
      (Session.registry? (play waitedLate).2 0).any (·.table.closed) ∧
      ∃ y, (play waitedLate).2.after? (.agent (.call 1)) = some y ∧
        y.system.phase? 1 = some (.ended 60000 (.acknowledged secondAnswer)) := by
  have run := play_runs waitedLate
  have waiting : (play waitedLate).2.Waiting 1 ⟨0, 0⟩ (some 0) := .inl (by rfl)
  have slots : (Session.registry? (play waitedLate).2 0).map (fun r =>
      r.waiters.map fun w => (w.serial, w.slot)) = some [(0, .filled secondAnswer)] := by rfl
  obtain ⟨r, hr, slots⟩ := Option.map_eq_some_iff.mp slots
  obtain ⟨w, rest, waiters⟩ : ∃ w rest, r.waiters = w :: rest :=
    List.exists_cons_of_ne_nil fun none => by simp [none] at slots
  rw [waiters, List.map_cons] at slots
  obtain ⟨serial, slot⟩ := Prod.mk.inj (List.cons.inj slots).1
  obtain ⟨u, hu, v, d, hands, same⟩ :=
    run.filled.source 0 r hr w (waiters ▸ List.mem_cons_self) secondAnswer slot
  obtain ⟨-, returned, -⟩ := handed_wait_returns run
  have handle : v.serial = 0 := same.trans serial
  have ends := (returned u hu 0 v d secondAnswer hands).2 1 (some 0) (handle ▸ waiting)
  exact ⟨by rfl, by rfl, ends.2⟩

end Script

end ChangeDispatch
