import ChangeDispatch.Proofs.Wait.Redelivery

/-!
# Calls that wait

While a waiter is pending, an offer of an acknowledgment for its request stays to come. A call
waits on it until its slot is filled, its token fires or its deadline has come; where nothing
can go on, none of these is so. An acknowledgment that is acked is acked once.
-/
namespace ChangeDispatch

/-! ## Waiters that stay pending -/

theorem Waiter.registered_of_pending {w : Waiter} (pending : w.isPending) : w.registered = w := by
  rw [Waiter.registered, ← Waiter.isPending_iff.mp pending]

namespace WaitRegistry

variable {r s : WaitRegistry} {w : Waiter}

/-- A waiter that is still pending was so before. -/
theorem Descends.mem_of_pending (h : r.Descends s) (hw : w ∈ s.waiters) (pending : w.isPending)
    (old : w.serial < r.table.nextSerial) : w ∈ r.waiters := by
  rcases h.waiters w hw with ⟨v, hv, same, before⟩ | new
  · rw [Waiter.registered_of_pending (before pending), Waiter.registered_of_pending pending] at same
    exact same ▸ hv
  · omega

theorem span_register {event : ChangeEvent} {now : Nat} {timeout : Duration}
    (h : r.register event now timeout = .ok (w, s)) :
    w.timeout = timeout ∧ w.deadline = now + timeout.ticks := by
  unfold register at h
  cases hi : r.table.insert event.requestId event.name with
  | error e => rw [hi] at h; cases h
  | ok v =>
    rw [hi] at h
    obtain ⟨rfl, -⟩ := Prod.mk.inj (Except.ok.inj h)
    exact ⟨rfl, rfl⟩

theorem deadline_register {event : ChangeEvent} {now : Nat} {timeout : Duration}
    (h : r.register event now timeout = .ok (w, s)) : w.deadline = now + timeout.ticks :=
  (span_register h).2

end WaitRegistry

namespace Script

variable {ts since before : List Transition} {x y z : Session} {a : Action} {t u : Transition}
  {c n : Nat} {w : Waiter} {d e : Delivery} {ack : AckEvent} {id : RequestId} {due : Nat}
  {token : Option Nat} {handle : WaitHandle}

/-- Waiter `w` is in use at correlator `c`, in this state. -/
def Session.Awaits (x : Session) (c : Nat) (w : Waiter) : Prop :=
  ∃ r, x.registry? c = some r ∧ w ∈ r.waiters

theorem Runs.registry_next (run : Runs ts x) (h : x.after? a = some y) {r : WaitRegistry}
    (hr : x.registry? c = some r) : ∃ s, y.registry? c = some s ∧ r.Descends s := by
  obtain ⟨s, hs, step⟩ := (Session.waitChange_of_after? h).step run.owned hr
  exact ⟨s, hs, (run.wellFormed hr).descends step⟩

/-- What a registry becomes later in the run. -/
theorem Runs.registry_since (run : Runs (since ++ ts) z) (base : Runs ts x) {r : WaitRegistry}
    (hr : x.registry? c = some r) : ∃ s, z.registry? c = some s ∧ r.Descends s := by
  induction since generalizing z with
  | nil =>
    obtain rfl := base.unique run
    exact ⟨r, hr, .refl r⟩
  | cons v since ih =>
    cases run with
    | next run h =>
      obtain ⟨s, hs, descends⟩ := ih run
      obtain ⟨s', hs', step⟩ := run.registry_next h hs
      exact ⟨s', hs', descends.trans step⟩

/-- A waiter that is in use is the one that had its serial number before, up to what it has got
since then. -/
theorem Runs.registered_since (run : Runs (since ++ ts) z) (base : Runs ts x) {v w : Waiter}
    (before : x.Awaits c v) (awaits : z.Awaits c w) (same : w.serial = v.serial) :
    w.registered = v.registered := by
  obtain ⟨r, hr, hv⟩ := before
  obtain ⟨s, hs, hw⟩ := awaits
  obtain ⟨s', hs', descends⟩ := run.registry_since base hr
  obtain rfl := Option.some.inj (hs.symm.trans hs')
  have known := (base.wellFormed hr).fresh v hv
  rcases descends.waiters w hw with ⟨u, hu, registered, -⟩ | new
  · have serial : u.serial = v.serial := (Waiter.of_registered registered).1.trans same
    obtain rfl := (base.wellFormed hr).eq_of_serial hu hv serial
    exact registered.symm
  · omega

/-- While the waiter of its request is pending, an offer is still to come. -/
theorem Runs.scheduled_of_awaits (run : Runs (since ++ ts) z) (base : Runs ts x)
    (undisturbed : ∀ v ∈ since, v.Undisturbed c) (decoded : AckEvent.ofPayload d.payload = .ok ack)
    (request : ack.event.requestId = some id) (scheduled : x.Scheduled c d due)
    (awaits : x.Awaits c w) (pending : w.isPending) (key : w.key = .request id)
    (still : z.Awaits c w) : z.Scheduled c d due := by
  induction since generalizing z with
  | nil =>
    obtain rfl := base.unique run
    exact scheduled
  | cons v since ih =>
    cases run with
    | @next _ y _ a run h =>
      obtain ⟨r, hr, hw⟩ := awaits
      obtain ⟨s, hs, descends⟩ := run.registry_since base hr
      obtain ⟨s', hs', step⟩ := run.registry_next h hs
      obtain ⟨q, hq, hwq⟩ := still
      obtain rfl := Option.some.inj (hs'.symm.trans hq)
      have old : w.serial < s.table.nextSerial :=
        Nat.lt_of_lt_of_le ((base.wellFormed hr).fresh w hw) descends.nextSerial
      have member : w ∈ s.waiters := step.mem_of_pending hwq pending old
      have earlier := ih run (fun v hv => undisturbed v (List.mem_cons_of_mem _ hv))
        ⟨s, hs, member⟩
      rcases earlier.next run h (undisturbed _ List.mem_cons_self) decoded with
        scheduled | ⟨delivers, -⟩
      · exact scheduled
      · -- the offer would have filled the slot
        obtain ⟨⟨-, r₁, r₂, v, -, hr₂, -, -, hv, serial, filled⟩, -⟩ :=
          delivers.hands run h request hs member pending key
        obtain rfl := Option.some.inj (hs'.symm.trans hr₂)
        obtain rfl := ((Runs.next run h).wellFormed hs').eq_of_serial hv hwq serial
        cases (Waiter.isPending_iff.mp pending).symm.trans filled

/-! ## Calls that wait -/

/-- A call that was given up stays so. -/
theorem aborted_of_after? (h : x.after? a = some y) (hφ : x.system.phase? n = some .aborted) :
    y.system.phase? n = some .aborted := by
  by_cases own : a = .agent (.call n)
  · subst own
    obtain ⟨s, hs, -⟩ := Option.map_eq_some_iff.mp h
    change x.system.stepCall? n = some s at hs
    unfold System.stepCall? at hs
    rw [System.stepCall?_of_phase hφ] at hs
    cases hs
  · exact (phase?_of_others h own hφ).elim (fun same => same) fun same => same

/-- Call `n` waits on a handle. -/
def Session.Waiting (x : Session) (n : Nat) (handle : WaitHandle) (token : Option Nat) : Prop :=
  x.system.phase? n = some (.awaiting handle token) ∨
    ∃ timer, x.system.phase? n = some (.waiting handle token timer)

namespace Session.Waiting

theorem mem_handles (waiting : x.Waiting n handle token) : handle ∈ x.handles := by
  rcases waiting with hφ | ⟨timer, hφ⟩
  · exact Session.mem_handles hφ rfl
  · exact Session.mem_handles hφ rfl

/-- A call goes on waiting, is given up, or ends with the result of the wait. -/
theorem next (h : x.after? a = some y) (waiting : x.Waiting n handle token) :
    y.Waiting n handle token ∨ y.system.phase? n = some .aborted ∨
      ∃ result, x.system.waitResult? handle token = some result ∧
        y.system.phase? n = some (.ended x.system.host.now result) := by
  by_cases own : a = .agent (.call n)
  · subst own
    obtain ⟨t, ht, rfl⟩ := Option.map_eq_some_iff.mp h
    obtain ⟨φ, hφ, v, ψ, step, quiet⟩ := System.callSteps_of_stepCall? ht
    have waits : φ = .awaiting handle token ∨ ∃ timer, φ = .waiting handle token timer := by
      rcases waiting with same | ⟨timer, same⟩
      · exact .inl (Option.some.inj (hφ.symm.trans same))
      · exact .inr ⟨timer, Option.some.inj (hφ.symm.trans same)⟩
    have after : t.phase? n = some ψ :=
      (quiet.phase? n).trans (System.phase?_setPhase (step.phase?_eq ▸ hφ) ψ)
    rcases step.of_wait waits with ⟨result, hr, rfl⟩ | ⟨timer, rfl⟩
    · exact .inr (.inr ⟨result, hr, after⟩)
    · exact .inl (.inr ⟨timer, after⟩)
  · rcases waiting with hφ | ⟨timer, hφ⟩
    · exact (phase?_of_others h own hφ).elim (fun same => .inl (.inl same))
        fun gone => .inr (.inl gone)
    · exact (phase?_of_others h own hφ).elim (fun same => .inl (.inr ⟨timer, same⟩))
        fun gone => .inr (.inl gone)

/-- Where nothing can go on, the wait has no result yet. -/
theorem waitResult?_eq_none (run : Runs ts x) (quiescent : x.system.isQuiescent)
    (waiting : x.Waiting n handle token) : x.system.waitResult? handle token = none := by
  have still : ∀ φ, x.system.phase? n = some φ → x.system.stepCall? n = none := by
    intro φ hφ
    obtain ⟨call, hcall, -⟩ := Option.map_eq_some_iff.mp hφ
    exact System.step?_of_quiescent quiescent (run.covers n (List.getElem?_eq_some_iff.mp hcall).1)
  rcases waiting with hφ | ⟨timer, hφ⟩
  · have none := still _ hφ
    unfold System.stepCall? at none
    rw [System.stepCall?_of_phase hφ] at none
    cases none
  · have none := still _ hφ
    unfold System.stepCall? at none
    rw [System.stepCall?_of_phase hφ] at none
    exact Option.map_eq_none_iff.mp none

end Session.Waiting

/-- The wait on a slot that is filled returns the acknowledgment. -/
theorem Runs.waitResult?_of_filled (run : Runs ts x) {r : WaitRegistry}
    (hr : x.registry? c = some r) (hw : w ∈ r.waiters) {other : AckEvent}
    (slot : w.slot = .filled other) (token : Option Nat) :
    x.system.waitResult? ⟨c, w.serial⟩ token = some (.acknowledged other) := by
  unfold System.waitResult?
  rw [waiter?_eq run.owned hr hw]
  dsimp only
  rw [slot]

/-- The wait on an empty slot goes on until the token fires or the deadline has come. -/
theorem Runs.waitResult?_of_pending (run : Runs ts x) {r : WaitRegistry}
    (hr : x.registry? c = some r) (hw : w ∈ r.waiters) (pending : w.isPending)
    (uncancelled : x.system.tokenFired token = false) (left : x.system.host.now < w.deadline) :
    x.system.waitResult? ⟨c, w.serial⟩ token = none := by
  unfold System.waitResult?
  rw [waiter?_eq run.owned hr hw]
  dsimp only
  rw [Waiter.isPending_iff.mp pending]
  dsimp only
  rw [uncancelled, if_neg (by decide), if_neg (Nat.not_le_of_lt left)]

/-! ## Acked once -/

/-- Correlator `c` acks a message in one transition, read as `ack`, and in no other. -/
def AckedOnce (ts : List Transition) (c message : Nat) (ack : AckEvent) : Prop :=
  ∃ later u earlier, ts = later ++ u :: earlier ∧
    (∃ e : Delivery, e.message = message ∧ u.Acks c e ack) ∧
    ∀ v ∈ later ++ earlier, ∀ (e : Delivery) other, v.Acks c e other → e.message ≠ message

/-- No message is acked again. -/
theorem Runs.ackedOnce (run : Runs ts z) (hu : u ∈ ts) (acks : u.Acks c e ack) :
    AckedOnce ts c e.message ack := by
  have hands : ∀ {v : Transition} {e : Delivery} {other : AckEvent}, v ∈ ts → v.Acks c e other →
      ∃ w, v.Hands c w e other := by
    intro v e other hv acks
    obtain ⟨us, earlier, happens⟩ := run.made hv
    exact acks.hands earlier happens
  obtain ⟨w, handed⟩ := hands hu acks
  obtain ⟨later, earlier, rfl⟩ := List.append_of_mem hu
  obtain ⟨-, apart, across⟩ := List.pairwise_append.mp run.hands_apart
  refine ⟨later, u, earlier, rfl, ⟨e, rfl, acks⟩, fun v hv e' other acks' => ?_⟩
  rcases List.mem_append.mp hv with hv | hv
  · obtain ⟨w', handed'⟩ := hands (List.mem_append_left _ hv) acks'
    exact (across v hv u List.mem_cons_self c w' e' other w e ack handed' handed).2
  · obtain ⟨w', handed'⟩ := hands (List.mem_append_right _ (List.mem_cons_of_mem _ hv)) acks'
    exact ((List.pairwise_cons.mp apart).1 v hv c w e ack w' e' other handed handed').2.symm

end Script

end ChangeDispatch
