import ChangeDispatch.Proofs.Shutdown.Stages
import ChangeDispatch.Proofs.Wait.Custody

/-!
# No entry outlives its wait

The entries of a pending table are those of the handles that are held and that have got
nothing yet, one for each. A registration that is refused changes no table. The table of a
correlator that was shut down is empty, and it refuses every registration from then on.
-/
namespace ChangeDispatch

/-! ## Registrations that are refused -/

/-- A closed table refuses every entry, and an open one those for a request that it has. -/
theorem PendingTable.insert_error {t : PendingTable} {requestId : Option RequestId}
    {workspace : String} {e : DispatchError} (h : t.insert requestId workspace = .error e) :
    t.closed ∧ e = .closed ∨
      t.closed = false ∧ ∃ id, requestId = some id ∧ (∃ f ∈ t.entries, f.key = .request id) ∧
        e = .invalidEvent
          ("an acknowledgment wait is already registered for request " ++ id.written) := by
  unfold insert at h
  split at h
  next closed => exact .inl ⟨closed, (Except.error.inj h).symm⟩
  next isOpen =>
    refine .inr ⟨by simpa using isOpen, ?_⟩
    dsimp only at h
    split at h
    next id f found => exact ⟨id, rfl, ⟨f, mem_of_find? found⟩, (Except.error.inj h).symm⟩
    next => cases h

namespace WaitRegistry

variable {r : WaitRegistry} {event : ChangeEvent} {now : Nat} {timeout : Duration}

theorem register_error {e : DispatchError} (h : r.register event now timeout = .error e) :
    r.table.insert event.requestId event.name = .error e := by
  unfold register at h
  cases hi : r.table.insert event.requestId event.name with
  | error e' => rw [hi] at h; exact congrArg Except.error (Except.error.inj h)
  | ok v => rw [hi] at h; cases h

theorem register_closed (closed : r.table.closed) :
    r.register event now timeout = .error .closed := by
  unfold register PendingTable.insert
  rw [if_pos closed]
  rfl

end WaitRegistry

namespace System

/-- A registration that is refused leaves the system as it is. -/
theorem register_error {s t : System} {c : Nat} {event : ChangeEvent} {e : DispatchError}
    (h : s.register c event = (.error e, t)) :
    t = s ∧ ∀ r, s.registries[c]? = some r →
      r.table.insert event.requestId event.name = .error e := by
  unfold register at h
  cases hc : s.correlators[c]? with
  | none =>
    rw [hc] at h
    refine ⟨(Prod.mk.inj h).2.symm, fun r hr => ?_⟩
    rw [registries, List.getElem?_map, hc] at hr
    cases hr
  | some co =>
    rw [hc] at h
    dsimp only at h
    split at h
    next e' refused =>
      obtain ⟨he, rfl⟩ := Prod.mk.inj h
      refine ⟨rfl, fun r hr => ?_⟩
      obtain rfl := Option.some.inj ((getElem?_registries hc).symm.trans hr)
      exact Except.error.inj he ▸ WaitRegistry.register_error refused
    next => cases (Prod.mk.inj h).1

theorem calls_register (s : System) (c : Nat) (event : ChangeEvent) :
    (s.register c event).2.calls = s.calls := by
  unfold register
  split
  · rfl
  · split <;> rfl

theorem register_closed {s : System} {c : Nat}
    (closed : ∀ r, s.registries[c]? = some r → r.table.closed) (event : ChangeEvent) :
    s.register c event = (.error .closed, s) := by
  unfold register
  cases hc : s.correlators[c]? with
  | none => rfl
  | some co =>
    dsimp only
    rw [WaitRegistry.register_closed (closed _ (getElem?_registries hc))]

end System

namespace Script

/-- A registration at correlator `c` is refused, of the caller or of a call. -/
inductive Transition.Refuses (t : Transition) (c : Nat) (event : ChangeEvent) (e : DispatchError) :
    Prop where
  | caller (target waiter : String) (owner : Owner) :
      t.action = .perform (.register target event waiter) →
      t.before.correlatorOf? target = some (owner, c) →
      (t.before.perform (.register target event waiter)).1 = .failed e → Refuses t c event e
  | call (n : Nat) (φ : Call.Phase) (moment : Nat) :
      t.action = .agent (.call n) → t.before.system.phase? n = some φ →
      ((∃ queue, φ = .submitting c queue event) ∨ ∃ token, φ = .registering c event token) →
      t.after.system.phase? n = some (.ended moment (.failed e)) → Refuses t c event e

/-- A call that shuts correlator `c` down returns, by itself or for a publisher that closes. -/
def Transition.ShutsDown (t : Transition) (c : Nat) : Prop :=
  ∃ n φ next moment, t.action = .agent (.call n) ∧ t.before.system.phase? n = some φ ∧
    (φ = .stopping c next ∨ φ = .joining c next) ∧ (t.before.registry? c).isSome ∧
    t.after.system.phase? n = some (.ended moment .done)

/-- The handles of correlator `c` that are held and have got nothing yet. -/
def Session.unresolved (x : Session) (c : Nat) : List WaitHandle :=
  x.handles.filter fun handle =>
    handle.correlator == c && (x.system.waiter? handle).any Waiter.isPending

/-- The entries of the table of correlator `c` are those of waits that are still held and have
got nothing yet. -/
structure Session.Tracks (x : Session) (c : Nat) (r : WaitRegistry) : Prop where
  keys : (r.table.entries.map PendingEntry.key).Nodup
  alive : ∀ e ∈ r.table.entries, ∃ w ∈ r.waiters, w.entry = e ∧ w.slot = .empty ∧
    (⟨c, w.serial⟩ : WaitHandle) ∈ x.handles
  counted : r.pendingCount = (x.unresolved c).length

variable {ts : List Transition} {x y z : Session} {a : Action} {t : Transition} {c : Nat}
  {r : WaitRegistry} {event : ChangeEvent} {e : DispatchError}

/-! ## Entries -/

theorem Session.mem_unresolved (owned : Owned x.system.registries x.handles)
    (hr : x.registry? c = some r) {handle : WaitHandle} :
    handle ∈ x.unresolved c ↔
      handle ∈ x.handles ∧ ∃ w ∈ r.waiters, w.isPending ∧ handle = ⟨c, w.serial⟩ := by
  unfold unresolved
  rw [List.mem_filter, Bool.and_eq_true, beq_iff_eq]
  refine and_congr_right fun _ => ⟨?_, ?_⟩
  · rintro ⟨rfl, pending⟩
    obtain ⟨w, found, pw⟩ := (Option.any_eq_true _ _).mp pending
    obtain ⟨co, hc, found⟩ := Option.bind_eq_some_iff.mp found
    obtain rfl := Option.some.inj ((System.getElem?_registries hc).symm.trans hr)
    obtain ⟨hw, serial⟩ := (owned.wellFormed_at hr).waiter?_eq_some.mp found
    exact ⟨w, hw, pw, by rw [serial]⟩
  · rintro ⟨w, hw, pending, rfl⟩
    exact ⟨rfl, by rw [waiter?_eq owned hr hw]; exact pending⟩

/-- Each entry is that of one handle that is held, and each such handle has its entry. -/
theorem Runs.tracks (run : Runs ts z) (hr : z.registry? c = some r) : z.Tracks c r := by
  have wf := run.wellFormed hr
  have held : ∀ w ∈ r.waiters, (⟨c, w.serial⟩ : WaitHandle) ∈ z.handles := fun w hw =>
    run.held (Session.inUse_of_mem hr hw)
  refine ⟨wf.keys, fun e he => ?_, ?_⟩
  · obtain ⟨w, hw, pending, same⟩ := wf.mem_entries.mp he
    exact ⟨w, hw, same, Waiter.isPending_iff.mp pending, held w hw⟩
  · have entries : (r.table.entries.map fun e => (⟨c, e.serial⟩ : WaitHandle)).Perm
        (z.unresolved c) := by
      have apart : (z.unresolved c).Nodup := run.owned.nodup.filter _
      refine (List.perm_ext_iff_of_nodup ?_ apart).mpr fun handle => ?_
      · rw [wf.entries, List.map_map]
        refine List.pairwise_map.mpr ((wf.ordered.filter _).imp fun lt same => ?_)
        exact Nat.ne_of_lt lt (congrArg WaitHandle.serial same)
      · rw [Session.mem_unresolved run.owned hr, List.mem_map]
        constructor
        · rintro ⟨e, he, rfl⟩
          obtain ⟨w, hw, pending, rfl⟩ := wf.mem_entries.mp he
          exact ⟨held w hw, w, hw, pending, rfl⟩
        · rintro ⟨-, w, hw, pending, rfl⟩
          exact ⟨w.entry, wf.mem_entries.mpr ⟨w, hw, pending, rfl⟩, rfl⟩
    have := entries.length_eq
    rwa [List.length_map] at this

/-! ## Refusals -/

theorem Transition.Refuses.kept (h : x.after? a = some y)
    (refuses : (⟨x, a, y⟩ : Transition).Refuses c event e) :
    y.system.registries = x.system.registries ∧ ∀ r, x.registry? c = some r →
      r.table.insert event.requestId event.name = .error e := by
  cases refuses with
  | caller target waiter owner action found failed =>
    dsimp only at action found failed
    subst action
    have after : some (x.register target event waiter).2 = some y := h
    obtain rfl := Option.some.inj after
    change (x.register target event waiter).1 = _ at failed
    unfold Session.register at failed ⊢
    rw [found] at failed ⊢
    dsimp only at failed ⊢
    cases hr : x.system.register c event with
    | mk result s =>
      rw [hr] at failed
      cases result with
      | ok handle => cases failed
      | error e' =>
        obtain rfl := Reply.failed.inj failed
        obtain ⟨rfl, refused⟩ := System.register_error hr
        exact ⟨rfl, refused⟩
  | call n φ moment action hφ registers ended =>
    dsimp only at action hφ ended
    subst action
    obtain ⟨s, hs, rfl⟩ := Option.map_eq_some_iff.mp h
    change x.system.stepCall? n = some s at hs
    cases hr : x.system.register c event with
    | mk result u =>
      cases result with
      | ok handle =>
        -- the call would have gone on to its queue or to its wait
        have goes : ∃ ψ, s = u.setPhase n ψ ∧ ψ.handle? = some handle := by
          unfold System.stepCall? at hs
          rw [System.stepCall?_of_phase hφ] at hs
          rcases registers with ⟨queue, rfl⟩ | ⟨token, rfl⟩ <;> dsimp only at hs <;> rw [hr] at hs
          · exact ⟨.enqueuing queue event (some handle), (Option.some.inj hs).symm, rfl⟩
          · exact ⟨.awaiting handle token, (Option.some.inj hs).symm, rfl⟩
        obtain ⟨ψ, rfl, holds⟩ := goes
        have before : u.phase? n = some φ := by
          have calls : u.calls = x.system.calls := by
            have same := x.system.calls_register c event
            rwa [hr] at same
          unfold System.phase? at hφ ⊢
          rwa [calls]
        obtain rfl := Option.some.inj ((System.phase?_setPhase before ψ).symm.trans ended)
        cases holds
      | error e' =>
        obtain ⟨rfl, refused⟩ := System.register_error hr
        have failed : x.system.endCall n (.failed e') = s := by
          unfold System.stepCall? at hs
          rw [System.stepCall?_of_phase hφ] at hs
          rcases registers with ⟨queue, rfl⟩ | ⟨token, rfl⟩ <;> dsimp only at hs <;> rw [hr] at hs
          · exact Option.some.inj hs
          · exact Option.some.inj hs
        subst failed
        obtain ⟨-, same⟩ := Call.Phase.ended.inj (Option.some.inj
          ((System.phase?_endCall hφ _).symm.trans ended))
        obtain rfl := Call.Result.failed.inj same
        exact ⟨(x.system.quiet_endCall n _).registries, refused⟩

/-! ## Shutdown -/

/-- A call that shuts a correlator down returns when the table is closed. -/
theorem Transition.ShutsDown.tableClosed (h : x.after? a = some y)
    (down : (⟨x, a, y⟩ : Transition).ShutsDown c) : y.system.tableClosed c := by
  obtain ⟨n, φ, next, moment, action, hφ, stops, known, ended⟩ := down
  dsimp only at action hφ known ended
  subst action
  obtain ⟨s, hs, rfl⟩ := Option.map_eq_some_iff.mp h
  change x.system.stepCall? n = some s at hs
  obtain ⟨r, hr⟩ := Option.isSome_iff_exists.mp known
  obtain ⟨co, hc, rfl⟩ := Option.map_eq_some_iff.mp (List.getElem?_map.symm.trans hr)
  have closed : ∀ {u : System} {co : Correlator}, u.correlators[c]? = some co →
      (u.finishStopping n c next).tableClosed c := fun {u _} hc =>
    (u.onward_closedTable n c next).tableClosed (System.tableClosed_closeTable hc)
  unfold System.stepCall? at hs
  rw [System.stepCall?_of_phase hφ] at hs
  rcases stops with rfl | rfl
  · obtain rfl := Option.some.inj hs
    have told : (x.system.stopListener c).correlators[c]? = some { co with stopping := true } := by
      simp [System.stopListener, System.adjustCorrelator, hc]
    unfold System.stepStopping at ended ⊢
    dsimp only at ended ⊢
    split at ended
    · -- the listener has not ended yet, so the call goes on to wait for that
      have goes := System.phase?_setPhase
        (s := (x.system.stopListener c).adjustCorrelator c fun co => { co with joinable := false })
        hφ (.joining c next)
      cases goes.symm.trans ended
    next joined =>
      rw [if_neg joined]
      exact closed told
  · dsimp only at hs
    split at hs
    · exact Option.some.inj hs ▸ closed hc
    · cases hs

/-- What is left of a correlator that was shut down. -/
structure Session.Drained (x : Session) (c : Nat) : Prop where
  empty : ∃ r, x.registry? c = some r ∧ r.table.closed ∧ r.table.entries = [] ∧ r.pendingCount = 0
  refuses : ∀ event, x.system.register c event = (.error .closed, x.system)

/-- The table stays empty. -/
theorem Runs.drained (run : Runs ts z) (ht : t ∈ ts) (down : t.ShutsDown c) : z.Drained c := by
  obtain ⟨us, -, happens⟩ := run.made ht
  have closed := (run.onward ht).tableClosed (down.tableClosed happens)
  unfold System.tableClosed at closed
  obtain ⟨co, hc, shut⟩ := (Option.any_eq_true _ _).mp closed
  have hr : z.registry? c = some co.registry := System.getElem?_registries hc
  have emptied := (run.wellFormed hr).emptied shut
  refine ⟨⟨_, hr, shut, emptied, by simp [WaitRegistry.pendingCount, emptied]⟩, fun event => ?_⟩
  refine System.register_closed (fun r hr' => ?_) event
  obtain rfl := Option.some.inj (hr.symm.trans hr')
  exact shut

/-! ## The table of a correlator -/

/-- In every state of every run the entries of a table are those of the waits that are still held
and have got nothing yet; a registration that is refused, because the table is closed or because
the request has an entry, leaves all tables as they are; and after a shutdown has returned the
table is empty and refuses every registration. -/
theorem entries_of_held_waits (run : Runs ts z) :
    (∀ c r, z.registry? c = some r → z.Tracks c r) ∧
    (∀ t ∈ ts, ∀ c event e, t.Refuses c event e →
      t.after.system.registries = t.before.system.registries ∧
      ∀ r, t.before.registry? c = some r →
        r.table.closed ∧ e = .closed ∨
        r.table.closed = false ∧ ∃ id, event.requestId = some id ∧
          (∃ f ∈ r.table.entries, f.key = .request id) ∧
          e = .invalidEvent
            ("an acknowledgment wait is already registered for request " ++ id.written)) ∧
    ∀ t ∈ ts, ∀ c, t.ShutsDown c → z.Drained c := by
  refine ⟨fun c r hr => run.tracks hr, fun t ht c event e refuses => ?_,
    fun t ht c down => run.drained ht down⟩
  obtain ⟨us, -, happens⟩ := run.made ht
  obtain ⟨kept, refused⟩ := refuses.kept happens
  exact ⟨kept, fun r hr => PendingTable.insert_error (refused r hr)⟩

/-- Two waits are registered; the latest action first. -/
def twoWaits : List Action :=
  [.perform (.register "c" (creation none) "second"), .perform (.register "c" repeated "first"),
   .perform (.startCorrelator "c" ⟨"acks", "listener", some 3⟩ (.ofMillis 30000) (.ofMillis 15000))]

/-- The shutdown is called, and the listener ends. -/
def shuttingDown : List Action :=
  [.agent (.listener 0), .agent (.call 0), .perform (.close "c"),
   .perform (.register "c" repeated "third")]

set_option maxRecDepth 100000 in
/-- A third wait for the request of the first is refused, and after the shutdown nothing is
left. -/
theorem refused_then_drained :
    let ts := (play (.agent (.call 0) :: (shuttingDown ++ twoWaits))).1
    let z := (play (.agent (.call 0) :: (shuttingDown ++ twoWaits))).2
    (∃ t ∈ ts, ∃ e, t.Refuses 0 repeated e ∧ e ≠ .closed ∧
      t.after.system.registries = t.before.system.registries) ∧
    (∃ t ∈ ts, t.ShutsDown 0) ∧ z.Drained 0 := by
  intro ts z
  obtain ⟨-, refusals, shutdowns⟩ :=
    entries_of_held_waits (play_runs (.agent (.call 0) :: (shuttingDown ++ twoWaits)))
  let refusal := happening (.perform (.register "c" repeated "third")) twoWaits
  let shutdown := happening (.agent (.call 0)) (shuttingDown ++ twoWaits)
  have early : refusal ∈ ts := happening_mem
    [.agent (.call 0), .agent (.listener 0), .agent (.call 0), .perform (.close "c")] (by rfl)
  have last : shutdown ∈ ts := happening_mem [] (by rfl)
  let e : DispatchError := .invalidEvent
    ("an acknowledgment wait is already registered for request " ++ (RequestId.ofNat 1).written)
  have refuses : refusal.Refuses 0 repeated e :=
    .caller "c" "third" (.correlator 0) rfl (by rfl) (by rfl)
  have down : shutdown.ShutsDown 0 :=
    ⟨0, .joining 0 none, none, 0, rfl, by rfl, .inr rfl, by rfl, by rfl⟩
  exact ⟨⟨refusal, early, e, refuses, by simp [e], (refusals refusal early 0 _ e refuses).1⟩,
    ⟨shutdown, last, down⟩, shutdowns shutdown last 0 down⟩

end Script

end ChangeDispatch
