import ChangeDispatch.Proofs.Wait.Changes

/-!
# Waiters that are displaced

Letting go of a waiter removes what is under its key, and this need not be its own entry:
when its acknowledgment has come, the identifier of its request is free and can be
registered again. The later waiter is displaced when the earlier one goes. In a run, this
is the only way in which a waiter of an open registry loses its entry without an
acknowledgment, and the only way in which its wait ends as closed.
-/
namespace ChangeDispatch.Script

open WaitRegistry (WellFormed)

def Session.registry? (x : Session) (c : Nat) : Option WaitRegistry := x.system.registries[c]?

/-- A wait on a handle ends with a result. -/
def Transition.Returns (t : Transition) (handle : WaitHandle) (result : Call.Result) : Prop :=
  ∃ n φ token moment, t.action = .agent (.call n) ∧ t.before.system.phase? n = some φ ∧
    (φ = .awaiting handle token ∨ ∃ timer, φ = .waiting handle token timer) ∧
    t.after.system.phase? n = some (.ended moment result)

/-- Another waiter under the key of this one is let go of, while this one has no
acknowledgment. -/
def Transition.Displaces (t : Transition) (handle : WaitHandle) : Prop :=
  ∃ r s w, t.before.registry? handle.correlator = some r ∧
    t.after.registry? handle.correlator = some s ∧ w ∈ s.waiters ∧ w.serial = handle.serial ∧
    r.Displaces s w

theorem Runs.owned {ts : List Transition} {z : Session} (run : Runs ts z) :
    Owned z.system.registries z.handles := by
  refine run.invariant (P := fun x => Owned x.system.registries x.handles)
    ⟨by simp [System.registries], by simp [Session.handles, System.held],
      by simp [Session.handles, System.held]⟩ fun x a y owned h => ?_
  exact owned.change (Session.waitChange_of_after? h)

theorem Runs.wellFormed {ts : List Transition} {z : Session} (run : Runs ts z) {c : Nat}
    {r : WaitRegistry} (hr : z.registry? c = some r) : r.WellFormed :=
  run.owned.wellFormed_at hr

/-- The slots of an open registry that are closed are those of displaced waiters. -/
structure Recorded (ts : List Transition) (z : Session) : Prop where
  closed : ∀ c r, z.registry? c = some r → r.table.closed = false → ∀ w ∈ r.waiters,
    w.slot = .closed ↔ ∃ u ∈ ts, u.Displaces ⟨c, w.serial⟩
  known : ∀ u ∈ ts, ∀ handle, u.Displaces handle →
    ∃ r, z.registry? handle.correlator = some r ∧ handle.serial < r.table.nextSerial

theorem Recorded.next {ts : List Transition} {x y : Session} {a : Action}
    (rec : Recorded ts x) (run : Runs ts x) (h : x.after? a = some y) :
    Recorded (⟨x, a, y⟩ :: ts) y := by
  have change := Session.waitChange_of_after? h
  have run' := Runs.next run h
  have known : ∀ u ∈ (⟨x, a, y⟩ : Transition) :: ts, ∀ handle, u.Displaces handle →
      ∃ r, y.registry? handle.correlator = some r ∧ handle.serial < r.table.nextSerial := by
    intro u hu handle hd
    rcases List.mem_cons.mp hu with rfl | hu
    · obtain ⟨r, s, w, -, hs, hw, hserial, -⟩ := hd
      exact ⟨s, hs, hserial ▸ (run'.wellFormed hs).fresh w hw⟩
    · obtain ⟨r, hr, hlt⟩ := rec.known u hu handle hd
      obtain ⟨s, hs, step⟩ := change.step run.owned hr
      exact ⟨s, hs, Nat.lt_of_lt_of_le hlt ((run.wellFormed hr).descends step).nextSerial⟩
  refine ⟨fun c s hs hopen w hw => ?_, known⟩
  cases hr : x.registry? c with
  | none =>
    -- a registry that is new has no waiters
    rcases change.empty_of_new hs with hlt | rfl
    · have := List.getElem?_eq_none_iff.mp hr
      omega
    · cases hw
  | some r =>
    have wf := run.wellFormed hr
    obtain ⟨s', hs', step⟩ := change.step run.owned hr
    obtain rfl : s' = s := Option.some.inj (hs'.symm.trans hs)
    have descends := wf.descends step
    have hopen' : r.table.closed = false := by
      cases hc : r.table.closed with
      | false => rfl
      | true => exact (descends.closed hc).symm.trans hopen
    rw [wf.closed_iff step hopen hw]
    constructor
    · rintro (⟨v, hv, hserial, hclosed⟩ | hd)
      · obtain ⟨u, hu, hd⟩ := (rec.closed c r hr hopen' v hv).mp hclosed
        exact ⟨u, List.mem_cons_of_mem _ hu, hserial ▸ hd⟩
      · exact ⟨_, List.mem_cons_self, r, s', w, hr, hs, hw, rfl, hd⟩
    · rintro ⟨u, hu, hd⟩
      rcases List.mem_cons.mp hu with rfl | hu
      · obtain ⟨q, q', w', hq, hq', hw', hserial, hd⟩ := hd
        obtain rfl := Option.some.inj (hr.symm.trans hq)
        obtain rfl := Option.some.inj (hs.symm.trans hq')
        obtain rfl := (run'.wellFormed hs).eq_of_serial hw' hw hserial
        exact .inr hd
      · -- a waiter that was displaced before is not a new one
        obtain ⟨q, hq, hlt⟩ := rec.known u hu _ hd
        obtain rfl := Option.some.inj (hr.symm.trans hq)
        rcases descends.waiters w hw with ⟨v, hv, same, -⟩ | hnew
        · have hserial := (Waiter.of_registered same).1
          refine .inl ⟨v, hv, hserial, (rec.closed c r hr hopen' v hv).mpr ⟨u, hu, ?_⟩⟩
          rwa [hserial]
        · dsimp only at hlt
          omega

theorem Runs.recorded {ts : List Transition} {z : Session} (run : Runs ts z) : Recorded ts z := by
  induction run with
  | start => exact ⟨fun c r hr => (nomatch hr), fun u hu => (nomatch hu)⟩
  | next run h ih => exact ih.next run h

/-! ## How a wait ends -/

theorem Session.mem_handles {x : Session} {n : Nat} {φ : Call.Phase} {handle : WaitHandle}
    (hφ : x.system.phase? n = some φ) (holds : φ.handle? = some handle) : handle ∈ x.handles := by
  obtain ⟨c, hc, rfl⟩ := Option.map_eq_some_iff.mp hφ
  exact List.mem_append_right _ (List.mem_filterMap.mpr ⟨c, List.mem_of_getElem? hc, holds⟩)

/-- A wait that ends looks at its slot, its token and its deadline. -/
theorem Transition.Returns.waitResult {t : Transition} {handle : WaitHandle} {result : Call.Result}
    (ret : t.Returns handle result) (h : t.before.after? t.action = some t.after) :
    handle ∈ t.before.handles ∧
      ∃ token, t.before.system.waitResult? handle token = some result := by
  obtain ⟨n, φ, token, moment, ha, hφ, hwait, hend⟩ := ret
  have holds : φ.handle? = some handle := by
    rcases hwait with rfl | ⟨timer, rfl⟩ <;> rfl
  constructor
  · exact Session.mem_handles hφ holds
  · rw [ha] at h
    obtain ⟨s, hs, hafter⟩ := Option.map_eq_some_iff.mp h
    obtain ⟨φ', hφ', u, ψ, step, quiet⟩ := System.callSteps_of_stepCall? hs
    obtain rfl := Option.some.inj (hφ.symm.trans hφ')
    have hψ : ψ = .ended moment result := by
      have reached := quiet.phase? n
      rw [System.phase?_setPhase (step.phase?_eq ▸ hφ)] at reached
      rw [← hafter] at hend
      exact Option.some.inj (reached.symm.trans hend)
    refine ⟨token, ?_⟩
    rcases step.of_wait hwait with ⟨result', hr, he⟩ | ⟨timer, he⟩
    · obtain ⟨-, rfl⟩ := Call.Phase.ended.inj (he.symm.trans hψ)
      exact hr
    · cases he.symm.trans hψ

theorem waiter?_eq {x : Session} (owned : Owned x.system.registries x.handles) {c : Nat}
    {r : WaitRegistry} (hr : x.registry? c = some r) {w : Waiter} (hw : w ∈ r.waiters) :
    x.system.waiter? ⟨c, w.serial⟩ = some w := by
  obtain ⟨co, hc, rfl⟩ := Option.map_eq_some_iff.mp (List.getElem?_map.symm.trans hr)
  unfold System.waiter?
  rw [hc]
  exact (owned.wellFormed_at hr).waiter?_eq_some.mpr ⟨hw, rfl⟩

/-- The wait on a handle that is held ends as its slot tells, if that is not empty. -/
theorem slot_of_waitResult {x : Session} {handle : WaitHandle} {token : Option Nat}
    {result : Call.Result} (owned : Owned x.system.registries x.handles)
    (live : handle ∈ x.handles) (h : x.system.waitResult? handle token = some result) :
    ∃ r w, x.registry? handle.correlator = some r ∧ w ∈ r.waiters ∧ w.serial = handle.serial ∧
      (result = .failed .closed ↔ w.slot = .closed) ∧
      ∀ ack, result = .acknowledged ack ↔ w.slot = .filled ack := by
  obtain ⟨r, hr, w, hw, hserial⟩ := owned.exists_waiter live
  refine ⟨r, w, hr, hw, hserial, ?_⟩
  have found := waiter?_eq owned hr hw
  rw [hserial] at found
  unfold System.waitResult? at h
  rw [found] at h
  dsimp only at h
  cases hslot : w.slot with
  | filled ack =>
    rw [hslot] at h
    obtain rfl := Option.some.inj h
    simp
  | closed =>
    rw [hslot] at h
    obtain rfl := Option.some.inj h
    simp
  | empty =>
    rw [hslot] at h
    dsimp only at h
    split at h
    · obtain rfl := Option.some.inj h
      simp
    · split at h
      · obtain rfl := Option.some.inj h
        simp
      · cases h

/-- While a correlator is not shut down, a live waiter without an acknowledgment keeps its
entry exactly if it was not displaced, and a wait ends as closed exactly if its waiter was
displaced before. -/
theorem entry_kept_iff_not_displaced {ts : List Transition} {z : Session} (run : Runs ts z) :
    (∀ c r, z.registry? c = some r → r.table.closed = false →
      ∀ w ∈ r.waiters, (∀ ack, w.slot ≠ .filled ack) →
        (w.entry ∈ r.table.entries ↔ ¬∃ u ∈ ts, u.Displaces ⟨c, w.serial⟩)) ∧
    (∀ t us, t :: us <:+ ts → ∀ handle result, t.Returns handle result →
      ∀ r, t.before.registry? handle.correlator = some r → r.table.closed = false →
        (result = .failed .closed ↔ ∃ u ∈ us, u.Displaces handle)) := by
  constructor
  · intro c r hr hopen w hw hslot
    rw [← run.recorded.closed c r hr hopen w hw]
    constructor
    · intro he hclosed
      obtain ⟨v, hv, pv, hentry⟩ := (run.wellFormed hr).mem_entries.mp he
      obtain rfl := (run.wellFormed hr).eq_of_serial hv hw (congrArg PendingEntry.serial hentry)
      cases (Waiter.isPending_iff.mp pv).symm.trans hclosed
    · intro hclosed
      refine (run.wellFormed hr).mem_entries.mpr ⟨w, hw, Waiter.isPending_iff.mpr ?_, rfl⟩
      cases hs : w.slot with
      | empty => rfl
      | filled ack => exact absurd hs (hslot ack)
      | closed => exact absurd hs hclosed
  · intro t us hs handle result ret r hr hopen
    obtain ⟨earlier, h⟩ := run.of_suffix hs
    obtain ⟨live, token, hres⟩ := ret.waitResult h
    obtain ⟨r', w, hr', hw, hserial, hiff, -⟩ := slot_of_waitResult earlier.owned live hres
    obtain rfl := Option.some.inj (hr.symm.trans hr')
    rw [hiff, earlier.recorded.closed _ r hr hopen w hw, hserial]

/-- A request that is registered again when its acknowledgment has come. -/
def repeated : ChangeEvent := creation (some (.ofNat 1))

/-- The first waiter is dropped while the second is waiting; the latest action first. -/
def repeatedRequest : List Action :=
  [.agent (.call 0), .perform (.wait "second" none), .perform (.drop .waiter "first"),
   .perform (.register "c" repeated "second"), .agent (.listener 0),
   .perform (.inject "acks" (AckEvent.write { event := repeated, status := .created })),
   .agent (.listener 0), .perform (.register "c" repeated "first"),
   .perform (.startCorrelator "c" ⟨"acks", "listener", some 3⟩ (.ofMillis 30000) (.ofMillis 15000))]

set_option maxRecDepth 100000 in
/-- The second wait ends as closed, although nothing was shut down. -/
theorem second_waiter_displaced :
    ∃ t us r, (play repeatedRequest).1 = t :: us ∧ t.Returns ⟨0, 1⟩ (.failed .closed) ∧
      t.before.registry? 0 = some r ∧ r.table.closed = false ∧ ∃ u ∈ us, u.Displaces ⟨0, 1⟩ := by
  let x := (play repeatedRequest.tail).2
  let t : Transition := ⟨x, .agent (.call 0), (play repeatedRequest).2⟩
  have split : (play repeatedRequest).1 = t :: (play repeatedRequest.tail).1 := by rfl
  have returns : t.Returns ⟨0, 1⟩ (.failed .closed) :=
    ⟨0, .awaiting ⟨0, 1⟩ none, none, 0, rfl, by rfl, .inl rfl, by rfl⟩
  have isOpen : (t.before.registry? 0).map (·.table.closed) = some false := by rfl
  obtain ⟨r, hr, hopen⟩ := Option.map_eq_some_iff.mp isOpen
  refine ⟨t, _, r, split, returns, hr, hopen, ?_⟩
  have kept := (entry_kept_iff_not_displaced (play_runs repeatedRequest)).2
  exact (kept t _ (split ▸ List.suffix_refl _) ⟨0, 1⟩ _ returns r hr hopen).mp rfl

end ChangeDispatch.Script
