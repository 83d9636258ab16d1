import ChangeDispatch.Proofs.Run.Agents
import ChangeDispatch.Proofs.Wait.Handles
import ChangeDispatch.Proofs.Wait.Listener

/-!
# How a run changes the registries

Every action is one of the changes of registries and handles. An acknowledgment arrives
at a correlator only in a step of its listener, which has received it from the
subscription of the correlator.
-/
namespace ChangeDispatch

/-- To change an entry of a list changes what is picked from it by what is picked from the
entry. -/
theorem filterMap_modify {α β : Type} {g : α → Option β} {l : List α} {i : Nat} {a : α}
    (h : l[i]? = some a) (f : α → α) :
    ∃ rest, (l.filterMap g).Perm ((g a).toList ++ rest) ∧
      ((l.modify i f).filterMap g).Perm ((g (f a)).toList ++ rest) := by
  obtain ⟨l₁, b, l₂, rfl, rfl, hm⟩ :=
    List.exists_of_modify f (List.getElem?_eq_some_iff.mp h).1
  obtain rfl : b = a := by simpa using h
  have picked : ∀ c, (l₁ ++ c :: l₂).filterMap g =
      l₁.filterMap g ++ ((g c).toList ++ l₂.filterMap g) := by
    intro c
    rw [List.filterMap_append, List.filterMap_cons]
    cases g c <;> rfl
  rw [hm, picked, picked]
  exact ⟨_, List.perm_append_comm_assoc _ _ _, List.perm_append_comm_assoc _ _ _⟩

theorem modify_const_eq {α : Type} {l : List α} {i : Nat} {a : α} (h : l[i]? = some a)
    (f : α → α) : l.modify i (fun _ => f a) = l.modify i f := by
  apply List.ext_getElem?
  intro j
  rw [List.getElem?_modify, List.getElem?_modify]
  by_cases hj : i = j
  · rw [← hj, h]
    rfl
  · simp [hj]

namespace System

def registries (s : System) : List WaitRegistry := s.correlators.map Correlator.registry

theorem getElem?_registries {s : System} {c : Nat} {co : Correlator}
    (hc : s.correlators[c]? = some co) : s.registries[c]? = some co.registry := by
  unfold registries
  rw [List.getElem?_map, hc]
  rfl

/-- The handles that calls hold. -/
def held (s : System) : List WaitHandle := s.calls.filterMap fun c => c.phase.handle?

theorem registries_adjust (s : System) (i : Nat) (f : WaitRegistry → WaitRegistry) :
    (s.adjustCorrelator i fun c => { c with registry := f c.registry }).registries =
      s.registries.modify i f :=
  map_modify (f := fun c : Correlator => { c with registry := f c.registry })
    (g := Correlator.registry) (fun _ => rfl) s.correlators i

theorem registries_put {s : System} {i : Nat} (r : WaitRegistry) :
    (s.adjustCorrelator i fun c => { c with registry := r }).registries =
      s.registries.set i r := by
  rw [List.set_eq_modify]
  exact registries_adjust s i fun _ => r

theorem registries_letGo (s : System) (handle : Option WaitHandle) :
    (s.letGo handle).registries =
      handle.elim s.registries fun h => s.registries.modify h.correlator (·.release h.serial) := by
  cases handle with
  | none => rfl
  | some h => exact registries_adjust s h.correlator fun r => r.release h.serial

namespace Quiet

variable {s t : System}

theorem registries (h : Quiet s t) : t.registries = s.registries := by
  have same := congrArg (List.map Correlator.registry) h.correlators
  rwa [List.map_map, List.map_map] at same

theorem held (h : Quiet s t) : t.held = s.held := by
  unfold System.held
  rw [h.calls]

end Quiet

/-- A call that goes on lets go of the handle of its old phase, and holds that of its new
one. -/
theorem held_setPhase {s : System} {n : Nat} {φ : Call.Phase} (h : s.phase? n = some φ)
    (ψ : Call.Phase) :
    ∃ rest, s.held.Perm (φ.handle?.toList ++ rest) ∧
      (s.setPhase n ψ).held.Perm (ψ.handle?.toList ++ rest) := by
  obtain ⟨c, hc, rfl⟩ := Option.map_eq_some_iff.mp h
  exact filterMap_modify hc _

theorem handle?_of_isBare {φ : Call.Phase} (h : φ.isBare) : φ.handle? = none := by
  cases φ <;> first | rfl | cases h

theorem handle?_afterQueued (now : Nat) (next : Option WaitHandle) :
    (Call.Phase.afterQueued now next).handle? = next := by
  cases next <;> rfl

/-- What the steps of a call do to the registries: nothing, or they let go of the handle of
the call, register a wait, or close a registry. -/
theorem CallStep.waits_cases {s u : System} {n : Nat} {φ ψ : Call.Phase}
    (step : CallStep s n φ u ψ) :
    (ψ.handle? = φ.handle? ∧ u.registries = s.registries) ∨
    (∃ h, φ.handle? = some h ∧ ψ.handle? = none ∧
      u.registries = s.registries.modify h.correlator (·.release h.serial)) ∨
    (∃ c co event w r, φ.handle? = none ∧ ψ.handle? = some ⟨c, w.serial⟩ ∧
      s.correlators[c]? = some co ∧
      co.registry.register event s.host.now co.timeout = .ok (w, r) ∧
      u.registries = s.registries.set c r) ∨
    ∃ c, φ.handle? = none ∧ ψ.handle? = none ∧
      u.registries = s.registries.modify c fun r => r.close.2 := by
  have letGo : ∀ (t : System) (handle : Option WaitHandle), t.registries = s.registries →
      φ.handle? = handle → ψ.handle? = none →
      (ψ.handle? = φ.handle? ∧ (t.letGo handle).registries = s.registries) ∨
      ∃ h, φ.handle? = some h ∧ ψ.handle? = none ∧
        (t.letGo handle).registries = s.registries.modify h.correlator (·.release h.serial) := by
    intro t handle ht hφ hψ
    rw [registries_letGo, ht]
    cases handle with
    | none => exact .inl ⟨hψ.trans hφ.symm, rfl⟩
    | some h => exact .inr ⟨h, hφ, hψ, rfl⟩
  cases step with
  | moved hφ hψ =>
    refine .inl ⟨?_, rfl⟩
    rw [handle?_of_isBare hφ]
    rcases hψ with hψ | ⟨result, rfl⟩
    · exact handle?_of_isBare hψ
    · rfl
  | sent hφ _ => rcases hφ with rfl | ⟨timer, rfl⟩ <;> exact .inl ⟨rfl, rfl⟩
  | @stopped _ c next hφ =>
    have closed := registries_adjust s c fun r => r.close.2
    rcases hφ with rfl | rfl <;> cases next <;> exact .inr (.inr (.inr ⟨c, rfl, rfl, closed⟩))
  | @registered _ _ c co event w r hc hr hφ =>
    refine .inr (.inr (.inl ⟨c, co, event, w, r, ?_, ?_, hc, hr, registries_put r⟩))
    · rcases hφ with ⟨queue, rfl, -⟩ | ⟨token, rfl, -⟩ <;> rfl
    · rcases hφ with ⟨queue, -, rfl⟩ | ⟨token, -, rfl⟩ <;> rfl
  | invalid _ => exact (letGo s _ rfl rfl rfl).imp_right .inl
  | refused _ _ => exact (letGo s _ rfl rfl rfl).imp_right .inl
  | dismissed _ => exact (letGo s _ rfl rfl rfl).imp_right .inl
  | withdrawn _ _ _ => exact (letGo (s.adjustQueue _ _) _ rfl rfl rfl).imp_right .inl
  | accepted _ _ _ => exact .inl ⟨handle?_afterQueued _ _, rfl⟩
  | blocked _ _ _ => exact .inl ⟨rfl, rfl⟩
  | collected _ _ => exact .inl ⟨handle?_afterQueued _ _, rfl⟩
  | @answered _ handle token result hφ _ =>
    refine (letGo s (some handle) rfl ?_ rfl).imp_right .inl
    rcases hφ with rfl | ⟨timer, rfl⟩ <;> rfl
  | waited _ _ => exact .inl ⟨rfl, rfl⟩

/-- The same in terms of the handles that are held, of which the caller holds `own`. -/
theorem CallStep.waitChange {s u : System} {n : Nat} {φ ψ : Call.Phase}
    (step : CallStep s n φ u ψ) (hφ : s.phase? n = some φ) (arriving : Nat → AckEvent → Prop)
    (own : List WaitHandle) :
    WaitChange arriving s.registries (own ++ s.held) u.registries
      (own ++ (u.setPhase n ψ).held) := by
  have same : (u.setPhase n ψ).held = (s.setPhase n ψ).held := by
    unfold held setPhase
    rw [step.calls_eq]
  obtain ⟨rest, before, after⟩ := s.held_setPhase hφ ψ
  have old : (own ++ s.held).Perm (φ.handle?.toList ++ (own ++ rest)) :=
    (before.append_left own).trans (List.perm_append_comm_assoc _ _ _)
  have new : (own ++ (s.setPhase n ψ).held).Perm (ψ.handle?.toList ++ (own ++ rest)) :=
    (after.append_left own).trans (List.perm_append_comm_assoc _ _ _)
  rw [same]
  rcases step.waits_cases with ⟨hh, hr⟩ | ⟨h, hh, hn, hr⟩ |
    ⟨c, co, event, w, r, hh, hn, hc, hok, hr⟩ | ⟨c, hh, hn, hr⟩
  · rw [hh] at new
    rw [hr]
    exact .kept (new.trans old.symm).subperm
  · rw [hn] at new
    rw [hh] at old
    rw [hr]
    exact .released ((new.cons h).trans old.symm).subperm
  · rw [hn] at new
    rw [hh] at old
    rw [hr]
    exact .registered (getElem?_registries hc) hok (new.trans (old.symm.cons _)).subperm
  · rw [hn] at new
    rw [hh] at old
    rw [hr]
    exact .closed c (new.trans old.symm).subperm

end System

namespace System

theorem registries_forsake (s : System) (n : Nat) (φ : Call.Phase) :
    (s.forsake n φ).registries =
      φ.handle?.elim s.registries fun h =>
        s.registries.modify h.correlator (·.release h.serial) := by
  rw [← registries_letGo]
  cases φ <;> rfl

end System

namespace Script

theorem Names.erase_sublist {α : Type} (names : Names α) (id : String) :
    ((names.erase id).map Prod.snd).Sublist (names.map Prod.snd) :=
  List.filter_sublist.map _

theorem Names.erase_subperm {α : Type} {names : Names α} {id : String} {value : α}
    (h : names.find? id = some value) :
    (value :: (names.erase id).map Prod.snd).Subperm (names.map Prod.snd) := by
  induction names with
  | nil => cases h
  | cons entry names ih =>
    obtain ⟨k, v⟩ := entry
    unfold find? at h
    rw [List.lookup_cons] at h
    unfold Names.erase
    by_cases hk : id = k
    · subst hk
      rw [beq_self_eq_true] at h
      obtain rfl := Option.some.inj h
      rw [List.filter_cons_of_neg (by simp)]
      exact (List.subperm_cons _).mpr (List.filter_sublist.map _).subperm
    · rw [beq_eq_false_iff_ne.mpr hk] at h
      rw [List.filter_cons_of_pos (by simpa using Ne.symm hk)]
      exact (List.Perm.swap _ _ _).subperm.trans ((List.subperm_cons _).mpr (ih h))

/-- The listener of a correlator receives a delivery that is read as an acknowledgment. -/
def Transition.Delivers (t : Transition) (c : Nat) (d : Delivery) (ack : AckEvent) : Prop :=
  t.action = .agent (.listener c) ∧
  ∃ co k, t.before.system.correlators[c]? = some co ∧ co.phase = .waiting ∧ co.stopping = false ∧
    t.before.system.host.take? co.subscription = some (d, k) ∧
    AckEvent.ofPayload d.payload = .ok ack

theorem Transition.Delivers.decoded {t : Transition} {c : Nat} {d : Delivery} {ack : AckEvent}
    (h : t.Delivers c d ack) : AckEvent.ofPayload d.payload = .ok ack := by
  obtain ⟨-, _, _, -, -, -, -, decoded⟩ := h
  exact decoded

namespace Session

/-- The handles that the caller and its calls hold. -/
def handles (x : Session) : List WaitHandle := x.waiters.map Prod.snd ++ x.system.held

/-- A change of the registries and handles of a session. -/
abbrev WaitChanges (arriving : Nat → AckEvent → Prop) (x y : Session) : Prop :=
  WaitChange arriving x.system.registries x.handles y.system.registries y.handles

variable {arriving : Nat → AckEvent → Prop} {x y : Session}

theorem Elsewhere.registries (h : Elsewhere x y) : y.system.registries = x.system.registries := by
  have same := congrArg (List.map Correlator.registry) h.correlators
  rwa [List.map_map, List.map_map] at same

theorem Elsewhere.handles (h : Elsewhere x y) : y.handles = x.handles := by
  unfold Session.handles System.held
  rw [h.waiters, h.calls]

theorem waitChange_dropWaiter (id : String) : WaitChanges arriving x (x.dropWaiter id) := by
  unfold dropWaiter
  cases hf : x.waiters.find? id with
  | none => exact .kept (List.Subperm.refl _)
  | some handle =>
    have dropped := System.registries_adjust x.system handle.correlator fun r =>
      r.release handle.serial
    refine .of_eq dropped (.released ?_)
    exact (List.subperm_append_right _).mpr (Names.erase_subperm hf)

theorem waitChange_effect (h : Effect x y) : WaitChanges arriving x y := by
  cases h with
  | nothing => exact .kept (List.Subperm.refl _)
  | closedBroker => exact .kept (List.Subperm.refl _)
  | @called owner φ hφ =>
    have none : φ.handle? = none := by
      rcases hφ with hφ | ⟨queue, event, rfl⟩
      · exact System.handle?_of_isBare hφ
      · rfl
    have same : (x.system.startCall owner φ).2.held = x.system.held := by
      simp [System.held, System.startCall, none]
    refine .kept (List.Perm.subperm ?_)
    unfold handles
    exact (congrArg (x.waiters.map Prod.snd ++ ·) same) ▸ List.Perm.refl _
  | @waited id handle token hw =>
    have added : (x.system.startCall .none (.awaiting handle token)).2.held =
        x.system.held ++ [handle] := by
      simp [System.held, System.startCall, Call.Phase.handle?]
    refine .kept ?_
    change ((x.waiters.erase id).map Prod.snd ++ (x.system.startCall .none _).2.held).Subperm _
    rw [added, ← List.append_assoc]
    refine (List.perm_append_singleton _ _).subperm.trans ?_
    exact (List.subperm_append_right _).mpr (Names.erase_subperm hw)
  | @registered c co event w r id u hc hr hu =>
    have found := System.getElem?_registries hc
    have put := System.registries_put (s := x.system) (i := c) r
    unfold dropWaiter at hu
    dsimp only [onSystem] at hu
    cases hf : x.waiters.find? id with
    | none =>
      rw [hf] at hu
      subst hu
      refine .of_eq put (.registered found hr ?_)
      exact (List.subperm_cons _).mpr (((Names.erase_sublist _ _).append_right _).subperm)
    | some handle =>
      rw [hf] at hu
      subst hu
      have dropped := System.registries_adjust
        (x.system.adjustCorrelator c fun co => { co with registry := r }) handle.correlator
        fun r => r.release handle.serial
      rw [put] at dropped
      refine .of_eq dropped
        (.replaced found hr
          ((List.subperm_append_right x.system.held).mpr (Names.erase_subperm hf)) ?_)
      exact (List.subperm_cons _).mpr (((Names.erase_sublist _ _).append_right _).subperm)
  | droppedWaiter id => exact waitChange_dropWaiter id
  | @aborted n c hc _ _ =>
    have phase : x.system.phase? n = some c.phase := by
      unfold System.phase?
      rw [hc]
      rfl
    obtain ⟨rest, before, after⟩ := x.system.held_setPhase phase .aborted
    have left : ((x.system.forsake n c.phase).setPhase n .aborted).held.Perm rest := by
      unfold System.held System.setPhase
      rw [(System.UpToRegistries.forsake x.system n c.phase).calls]
      exact after
    have registries : ((x.system.forsake n c.phase).setPhase n .aborted).registries = _ :=
      System.registries_forsake x.system n c.phase
    refine .of_eq registries ?_
    have kept : (x.waiters.map Prod.snd ++ rest).Perm
        (x.waiters.map Prod.snd ++ ((x.system.forsake n c.phase).setPhase n .aborted).held) :=
      left.symm.append_left _
    cases hh : c.phase.handle? with
    | none =>
      rw [hh] at before
      exact .kept (kept.symm.trans (before.append_left _).symm).subperm
    | some handle =>
      rw [hh] at before
      refine .released (List.Perm.subperm (List.Perm.trans (kept.symm.cons handle) ?_))
      exact List.perm_middle.symm.trans (before.append_left _).symm
  | @openedPublisher config subscription i host _ _ _ =>
    have added : ({ x.system with host }.addPublisher config i).2.registries =
        x.system.registries ++ [({} : WaitRegistry)] := List.map_append
    exact .of_eq added (.started (List.Subperm.refl _))
  | @startedCorrelator subscription timeout unmatchedDelay i host _ =>
    have added : ({ x.system with host }.addCorrelator i timeout unmatchedDelay).2.registries =
        x.system.registries ++ [({} : WaitRegistry)] := List.map_append
    exact .of_eq added (.started (List.Subperm.refl _))
  | startedConsumer _ _ => exact .kept (List.Subperm.refl _)
  | stoppedConsumer _ => exact .kept (List.Subperm.refl _)

theorem waitChange_performed (h : Performed x y) : WaitChanges arriving x y := by
  obtain ⟨u, hu, he⟩ := h
  unfold WaitChanges
  rw [he.registries, he.handles]
  exact waitChange_effect hu

theorem waitChange_listener {c : Nat} {t : System}
    (h : (Agent.listener c).step? x.system = some t) :
    WaitChanges
      (fun i ack => ∃ d,
        (⟨x, .agent (.listener c), { x with system := t }⟩ : Transition).Delivers i d ack)
      x { x with system := t } := by
  obtain ⟨co, host, co', hc, hs, rfl⟩ := Agent.step?_listener h
  have found := System.getElem?_registries hc
  -- the registry of the listener is put back, changed by `f`
  have put : ∀ f : WaitRegistry → WaitRegistry, co'.registry = f co.registry →
      ({ x.system with host }.adjustCorrelator c fun _ => co').registries =
        x.system.registries.modify c f := by
    intro f hf
    refine (map_modify (f := fun _ => co') (k := fun _ => co'.registry) (fun _ => rfl) _ _).trans ?_
    rw [hf]
    exact modify_const_eq found f
  have same : co'.registry = co.registry →
      ({ x.system with host }.adjustCorrelator c fun _ => co').registries = x.system.registries :=
    fun he => (put id he).trans (List.modify_id _ _)
  cases Correlator.step_of_step? hs with
  | moved _ _ =>
    exact .of_eq (same rfl) (.kept (List.Subperm.refl _))
  | finished _ =>
    exact .of_eq (same rfl) (.kept (List.Subperm.refl _))
  | @settled d k l r f hp hstop ht hset _ =>
    have delivers : ∀ y ack, AckEvent.ofPayload d.payload = .ok ack →
        ∃ d, (⟨x, .agent (.listener c), y⟩ : Transition).Delivers c d ack :=
      fun y ack hd => ⟨d, rfl, co, k, hc, hp, hstop, ht, hd⟩
    cases hset with
    | refused _ =>
      exact .of_eq (same rfl)
        (.kept (List.Subperm.refl _))
    | @taken ack entry _ hd ho =>
      refine .of_eq (put _ ?_)
        (.offered (delivers _ ack hd) (List.Subperm.refl _))
      rw [ho]
    | @unclaimed ack _ hd _ _ =>
      exact .of_eq (put _ rfl)
        (.offered (delivers _ ack hd) (List.Subperm.refl _))

theorem waitChange_call {n : Nat} {t : System} (h : (Agent.call n).step? x.system = some t) :
    WaitChanges arriving x { x with system := t } := by
  obtain ⟨φ, hφ, u, ψ, step, quiet⟩ := System.callSteps_of_stepCall? h
  have change := step.waitChange hφ arriving (x.waiters.map Prod.snd)
  unfold WaitChanges handles
  rw [quiet.registries, quiet.held]
  exact change

/-- Every action changes the registries in one of the ways that are listed. -/
theorem waitChange_of_after? {a : Action} (h : x.after? a = some y) :
    WaitChanges (fun i ack => ∃ d, (⟨x, a, y⟩ : Transition).Delivers i d ack) x y := by
  cases moves_of_after? h with
  | performed _ hp => exact waitChange_performed hp
  | injected _ _ => exact .kept (List.Subperm.refl _)
  | passed _ => exact .kept (List.Subperm.refl _)
  | @stepped agent t hs =>
    cases agent with
    | worker i =>
      obtain ⟨p, q, host, q', w, -, -, -, rfl⟩ := Agent.step?_worker hs
      exact .kept (List.Subperm.refl _)
    | listener c => exact waitChange_listener hs
    | consumer i =>
      obtain ⟨k, host, k', -, -, rfl⟩ := Agent.step?_consumer hs
      exact .kept (List.Subperm.refl _)
    | call n => exact waitChange_call hs
    | redelivery i serial =>
      obtain ⟨entry, -, -, rfl⟩ := Agent.step?_redelivery hs
      exact .kept (List.Subperm.refl _)

end Session

end Script

end ChangeDispatch
