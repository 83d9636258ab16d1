import ChangeDispatch.Proofs.Garbage.Agents
import ChangeDispatch.System.Lifecycle

/-!
# Calls in systems that match

Two systems match if their hosts do and they agree in all else, but for the numbers of the
messages that consumers have in hand and for listeners of which one has started the receive that
the other is about to start. A call does the same in both.
-/
namespace ChangeDispatch

open List (Forall₂)

variable {T : String} {P Q : Nat → Nat → Prop}

namespace System

/-- Two systems that differ in garbage, and in the numbers of their messages. -/
inductive Matches (T : String) (P : Nat → Nat → Prop) (s : System) : System → Prop where
  | intro {host : Host} {correlators : List Correlator} {consumers : List Consumer} :
      s.host.Matches T P host → Forall₂ Correlator.Matches s.correlators correlators →
      Forall₂ (Consumer.Matches P) s.consumers consumers →
      Matches T P s { s with host, correlators, consumers }

/-- The systems match, perhaps with more messages. -/
def Follows (T : String) (P : Nat → Nat → Prop) (s s' : System) : Prop :=
  ∃ Q, P ≤ Q ∧ s.Matches T Q s'

namespace Matches

variable {s s' : System} {n i : Nat}

theorem follows (m : s.Matches T P s') : Follows T P s s' := ⟨P, le_refl P, m⟩

theorem host (m : s.Matches T P s') : s.host.Matches T P s'.host := by
  cases m
  assumption

theorem correlators (m : s.Matches T P s') :
    Forall₂ Correlator.Matches s.correlators s'.correlators := by
  cases m
  assumption

theorem consumers (m : s.Matches T P s') :
    Forall₂ (Consumer.Matches P) s.consumers s'.consumers := by
  cases m
  assumption

theorem queues_eq (m : s.Matches T P s') : s'.queues = s.queues := by
  cases m
  rfl

theorem publishers_eq (m : s.Matches T P s') : s'.publishers = s.publishers := by
  cases m
  rfl

theorem tokens_eq (m : s.Matches T P s') : s'.tokens = s.tokens := by
  cases m
  rfl

theorem calls_eq (m : s.Matches T P s') : s'.calls = s.calls := by
  cases m
  rfl

theorem symm (m : s.Matches T P s') : s'.Matches T (flip P) s := by
  cases m with
  | intro hh hc hk =>
    exact .intro hh.symm (hc.imp fun _ _ => Correlator.Matches.symm).flip
      (hk.imp fun _ _ => Consumer.Matches.symm).flip

/-! ## Changes of one part -/

theorem withHost (m : s.Matches T P s') {h h' : Host} (sub : P ≤ Q) (hh : h.Matches T Q h') :
    System.Matches T Q { s with host := h } { s' with host := h' } := by
  cases m with
  | intro _ hc hk => exact .intro hh hc (hk.imp fun _ _ => .mono sub)

theorem onHost (m : s.Matches T P s') {h h' : Host} (hh : h.Matches T P h') :
    System.Matches T P { s with host := h } { s' with host := h' } :=
  m.withHost (le_refl P) hh

theorem note (m : s.Matches T P s') (notice notice' : Notice) :
    (s.note notice).Matches T P (s'.note notice') :=
  m.onHost (m.host.note _ _)

theorem adjustQueue (m : s.Matches T P s') (i : Nat) (f : Queue → Queue) :
    (s.adjustQueue i f).Matches T P (s'.adjustQueue i f) := by
  cases m with
  | intro hh hc hk => exact .intro hh hc hk

theorem adjustPublisher (m : s.Matches T P s') (i : Nat) (f : Publisher → Publisher) :
    (s.adjustPublisher i f).Matches T P (s'.adjustPublisher i f) := by
  cases m with
  | intro hh hc hk => exact .intro hh hc hk

theorem adjustCorrelator (m : s.Matches T P s') (i : Nat) {f g : Correlator → Correlator}
    (each : ∀ c c', c.Matches c' → (f c).Matches (g c')) :
    (s.adjustCorrelator i f).Matches T P (s'.adjustCorrelator i g) := by
  cases m with
  | intro hh hc hk => exact .intro hh (forall₂_modify hc each) hk

theorem adjustConsumer (m : s.Matches T P s') (i : Nat) {f g : Consumer → Consumer}
    (each : ∀ k k', k.Matches P k' → (f k).Matches P (g k')) :
    (s.adjustConsumer i f).Matches T P (s'.adjustConsumer i g) := by
  cases m with
  | intro hh hc hk => exact .intro hh hc (forall₂_modify hk each)

theorem setPhase (m : s.Matches T P s') (n : Nat) (φ : Call.Phase) :
    (s.setPhase n φ).Matches T P (s'.setPhase n φ) := by
  cases m with
  | intro hh hc hk => exact .intro hh hc hk

theorem stopWorker (m : s.Matches T P s') (i : Nat) :
    (s.stopWorker i).Matches T P (s'.stopWorker i) := m.adjustPublisher i _

theorem stopListener (m : s.Matches T P s') (i : Nat) :
    (s.stopListener i).Matches T P (s'.stopListener i) :=
  m.adjustCorrelator i fun _ _ mc =>
    mc.map (f := fun c => { c with stopping := true }) fun _ _ => rfl

theorem adjustRegistry (m : s.Matches T P s') (i : Nat) (f : WaitRegistry → WaitRegistry) :
    (s.adjustCorrelator i fun c => { c with registry := f c.registry }).Matches T P
      (s'.adjustCorrelator i fun c => { c with registry := f c.registry }) :=
  m.adjustCorrelator i fun _ _ mc =>
    mc.map (f := fun c => { c with registry := f c.registry }) fun _ _ => rfl

theorem releaseWaiter (m : s.Matches T P s') (handle : WaitHandle) :
    (s.releaseWaiter handle).Matches T P (s'.releaseWaiter handle) :=
  m.adjustRegistry handle.correlator fun r => r.release handle.serial

/-! ## What is read from both -/

theorem tokenFired_eq (m : s.Matches T P s') (token : Option Nat) :
    s'.tokenFired token = s.tokenFired token := by
  unfold tokenFired
  rw [m.tokens_eq]

theorem isUsed_eq (m : s.Matches T P s') (owner : Owner) : s'.isUsed owner = s.isUsed owner := by
  unfold isUsed
  rw [m.calls_eq]

/-- What is the same of two correlators that match is the same of those in the same place. -/
theorem correlator_eq {α : Type} (m : s.Matches T P s') (i : Nat) {f : Option Correlator → α}
    (each : ∀ c c', c.Matches c' → f (some c') = f (some c)) :
    f s'.correlators[i]? = f s.correlators[i]? := by
  rcases rel_cases (rel_getElem? m.correlators i) with ⟨left, right⟩ | ⟨c, c', left, right, mc⟩
  · rw [left, right]
  · rw [left, right]
    exact each c c' mc

theorem listenerEnded_eq (m : s.Matches T P s') (i : Nat) :
    s'.listenerEnded i = s.listenerEnded i :=
  m.correlator_eq i (f := fun c => c.elim true Correlator.isEnded) fun _ _ mc => mc.isEnded_eq

theorem workerEnded_eq (m : s.Matches T P s') (i : Nat) : s'.workerEnded i = s.workerEnded i := by
  unfold workerEnded
  rw [m.publishers_eq]

theorem waiter?_eq (m : s.Matches T P s') (handle : WaitHandle) :
    s'.waiter? handle = s.waiter? handle := by
  refine m.correlator_eq handle.correlator
    (f := fun c => c.bind fun c => c.registry.waiter? handle.serial) fun _ _ mc => ?_
  cases mc
  rfl

theorem waitResult?_eq (m : s.Matches T P s') (handle : WaitHandle) (token : Option Nat) :
    s'.waitResult? handle token = s.waitResult? handle token := by
  unfold waitResult?
  rw [m.waiter?_eq, m.tokenFired_eq, m.host.now_eq]

/-! ## Releases and ends -/

theorem releasePublisher (m : s.Matches T P s') (i : Nat) :
    (s.releasePublisher i).Matches T P (s'.releasePublisher i) := by
  unfold System.releasePublisher
  rw [m.publishers_eq]
  split
  · exact m
  next p _ =>
    rw [m.isUsed_eq]
    split
    · exact m
    · refine adjustPublisher (stopListener (adjustQueue ?_ _ _) _) i _
      split
      · exact m
      · rw [m.queues_eq]
        exact (m.note _ _).stopWorker i

theorem releaseCorrelator (m : s.Matches T P s') (i : Nat) :
    (s.releaseCorrelator i).Matches T P (s'.releaseCorrelator i) := by
  have dropped : (s'.correlators[i]?).any (·.dropped) = (s.correlators[i]?).any (·.dropped) := by
    refine m.correlator_eq i (f := fun c => c.any (·.dropped)) fun _ _ mc => ?_
    cases mc
    rfl
  unfold System.releaseCorrelator
  rw [dropped, m.isUsed_eq]
  split
  · exact m.stopListener i
  · exact m

theorem releaseOwner (m : s.Matches T P s') (owner : Owner) :
    (s.releaseOwner owner).Matches T P (s'.releaseOwner owner) := by
  cases owner with
  | none => exact m
  | publisher i => exact m.releasePublisher i
  | correlator i => exact m.releaseCorrelator i

theorem endCall (m : s.Matches T P s') (n : Nat) (result : Call.Result) :
    (s.endCall n result).Matches T P (s'.endCall n result) := by
  unfold System.endCall
  rw [m.calls_eq, m.host.now_eq]
  exact (m.setPhase n _).releaseOwner _

theorem endWaitCall (m : s.Matches T P s') (n : Nat) (handle : Option WaitHandle)
    (result : Call.Result) :
    (s.endWaitCall n handle result).Matches T P (s'.endWaitCall n handle result) := by
  cases handle with
  | none => exact m.endCall n result
  | some handle => exact (m.releaseWaiter handle).endCall n result

theorem setTimer (m : s.Matches T P s') (delay : Nat) :
    Agree (System.Matches T P) (s.setTimer delay) (s'.setTimer delay) :=
  (m.host.setTimer delay).map fun hh => m.onHost hh

/-- A call goes on until a timer is due. -/
theorem setTimedPhase (m : s.Matches T P s') (n delay : Nat) (φ : Timer → Call.Phase) :
    ((s.setTimer delay).2.setPhase n (φ (s.setTimer delay).1)).Matches T P
      ((s'.setTimer delay).2.setPhase n (φ (s'.setTimer delay).1)) := by
  have timed := m.setTimer delay
  rw [timed.answer]
  exact timed.state.setPhase n _

/-! ## The steps of calls -/

theorem afterQueued (m : s.Matches T P s') (n : Nat) (event : ChangeEvent)
    (next : Option WaitHandle) :
    (s.afterQueued n event next).Matches T P (s'.afterQueued n event next) := by
  cases next with
  | none => exact (m.note _ _).endCall n _
  | some handle => exact (m.note _ _).setPhase n _

theorem stepEnqueuing (m : s.Matches T P s') (n queue : Nat) (event : ChangeEvent)
    (next : Option WaitHandle) :
    (s.stepEnqueuing n queue event next).Matches T P (s'.stepEnqueuing n queue event next) := by
  unfold System.stepEnqueuing
  rw [m.queues_eq]
  split
  · exact m.endWaitCall n next _
  · split
    · exact m.endWaitCall n next _
    · split
      · exact (m.adjustQueue queue _).afterQueued n event next
      · exact m.endWaitCall n next _
      next q' _ =>
        exact (m.adjustQueue queue fun _ => q').setTimedPhase n q'.timeout.ticks fun timer =>
          .inLine queue event timer next

theorem stepInLine? (m : s.Matches T P s') (n queue : Nat) (event : ChangeEvent) (timer : Timer)
    (next : Option WaitHandle) :
    Option.Rel (System.Matches T P) (s.stepInLine? n queue event timer next)
      (s'.stepInLine? n queue event timer next) := by
  unfold System.stepInLine?
  rw [m.queues_eq, m.host.isDue_eq]
  split
  · exact .some (m.endWaitCall n next _)
  · split
    · exact .some ((m.adjustQueue queue _).afterQueued n event next)
    · exact .some (m.endWaitCall n next _)
    · split
      · exact .some (((m.adjustQueue queue _).note _ _).endWaitCall n next _)
      · exact .none

theorem register (m : s.Matches T P s') (correlator : Nat) (event : ChangeEvent) :
    Agree (System.Matches T P) (s.register correlator event) (s'.register correlator event) := by
  unfold System.register
  rw [m.host.now_eq]
  rcases rel_cases (rel_getElem? m.correlators correlator) with
    ⟨left, right⟩ | ⟨c, c', left, right, mc⟩
  · rw [left, right]
    exact ⟨rfl, m⟩
  · rw [left, right]
    cases mc with
    | intro _ =>
      dsimp only
      split
      · exact ⟨rfl, m⟩
      next registry _ => exact ⟨rfl, m.adjustRegistry correlator fun _ => registry⟩

theorem stepAwaiting (m : s.Matches T P s') (n : Nat) (handle : WaitHandle)
    (token : Option Nat) :
    (s.stepAwaiting n handle token).Matches T P (s'.stepAwaiting n handle token) := by
  unfold System.stepAwaiting
  rw [m.waitResult?_eq, m.waiter?_eq, m.host.now_eq]
  split
  · exact m.endWaitCall n _ _
  · exact m.setTimedPhase n _ fun timer => .waiting handle token timer

theorem send (m : s.Matches T P s') (n : Nat) (topic : String) (payload : Payload) :
    Follows T P (s.send n topic payload) (s'.send n topic payload) := by
  obtain ⟨Q, sub, put⟩ := m.host.publish topic payload
  obtain ⟨answer, k, k', left, right, published⟩ := put.parts
  refine ⟨Q, sub, ?_⟩
  unfold System.send
  rw [left, right]
  cases answer with
  | ok _ => exact (m.withHost sub published).endCall n _
  | error e => exact (m.withHost sub published).endCall n _

theorem stepClosing (m : s.Matches T P s') (n publisher : Nat) :
    (s.stepClosing n publisher).Matches T P (s'.stepClosing n publisher) := by
  unfold System.stepClosing
  rw [m.publishers_eq]
  split
  · exact m.endCall n _
  next p _ =>
    split
    · exact m.endCall n _
    · have closed := (m.adjustPublisher publisher fun p =>
        { p with closed := true, joinable := false }).adjustQueue p.queue fun q => q.close.2
      dsimp only
      split
      · exact closed.setTimedPhase n p.config.drainTimeout.ticks fun timer =>
          .draining publisher timer
      · exact closed.setPhase n _

theorem afterWorker (m : s.Matches T P s') (n publisher : Nat) :
    (s.afterWorker n publisher).Matches T P (s'.afterWorker n publisher) := by
  unfold System.afterWorker
  rw [m.publishers_eq]
  split
  · exact m.endCall n _
  · exact (m.stopWorker publisher).setPhase n _

theorem stepDraining? (m : s.Matches T P s') (n publisher : Nat) (timer : Timer) :
    Option.Rel (System.Matches T P) (s.stepDraining? n publisher timer)
      (s'.stepDraining? n publisher timer) := by
  unfold System.stepDraining?
  rw [m.workerEnded_eq, m.host.isDue_eq, m.publishers_eq]
  split
  · exact .some (m.afterWorker n publisher)
  · split
    · exact .some (((m.note _ _).stopWorker publisher).setPhase n _)
    · exact .none

theorem finishStopping (m : s.Matches T P s') (n correlator : Nat) (next : Option Nat) :
    (s.finishStopping n correlator next).Matches T P (s'.finishStopping n correlator next) := by
  have failed : (s'.correlators[correlator]?).elim 0 (fun c => c.registry.close.1) =
      (s.correlators[correlator]?).elim 0 fun c => c.registry.close.1 := by
    refine m.correlator_eq correlator (f := fun c => c.elim 0 fun c => c.registry.close.1)
      fun _ _ mc => ?_
    cases mc
    rfl
  unfold System.finishStopping
  rw [failed]
  extract_lets count u v u' v'
  have shut : u.Matches T P u' := m.adjustRegistry correlator fun r => r.close.2
  have noted : v.Matches T P v' := by
    unfold v v'
    split
    · exact shut.note _ _
    · exact shut
  cases next with
  | none => exact noted.endCall n _
  | some publisher =>
    refine (noted.onHost ?_).endCall n _
    exact noted.host.close.state.noteError _ _ _ _

theorem stepStopping (m : s.Matches T P s') (n correlator : Nat) (next : Option Nat) :
    (s.stepStopping n correlator next).Matches T P (s'.stepStopping n correlator next) := by
  have told := m.stopListener correlator
  have joinable : ((s'.stopListener correlator).correlators[correlator]?).any (·.joinable) =
      ((s.stopListener correlator).correlators[correlator]?).any (·.joinable) := by
    refine told.correlator_eq correlator (f := fun c => c.any (·.joinable)) fun _ _ mc => ?_
    cases mc
    rfl
  unfold System.stepStopping
  dsimp only
  rw [joinable]
  split
  · refine (told.adjustCorrelator correlator fun _ _ mc => ?_).setPhase n _
    exact mc.map (f := fun c => { c with joinable := false }) fun _ _ => rfl
  · exact told.finishStopping n correlator next

theorem stepCall? (m : s.Matches T P s') (n : Nat) :
    Option.Rel (Follows T P) (s.stepCall? n) (s'.stepCall? n) := by
  have lift : ∀ {o o' : Option System}, Option.Rel (System.Matches T P) o o' →
      Option.Rel (Follows T P) o o' := by
    intro o o' same
    cases same with
    | some same => exact .some same.follows
    | none => exact .none
  unfold System.stepCall?
  rw [m.calls_eq]
  cases (s.calls[n]?).map Call.phase with
  | none => exact .none
  | some φ =>
    cases φ with
    | enqueuing queue event next => exact .some (m.stepEnqueuing n queue event next).follows
    | inLine queue event timer next => exact lift (m.stepInLine? n queue event timer next)
    | submitting correlator queue event =>
      obtain ⟨answer, t, t', left, right, same⟩ := (m.register correlator event).parts
      dsimp only
      rw [left, right]
      cases answer with
      | error e => exact .some (same.endCall n _).follows
      | ok handle => exact .some (same.setPhase n _).follows
    | registering correlator event token =>
      obtain ⟨answer, t, t', left, right, same⟩ := (m.register correlator event).parts
      dsimp only
      rw [left, right]
      cases answer with
      | error e => exact .some (same.endCall n _).follows
      | ok handle => exact .some (same.setPhase n _).follows
    | awaiting handle token => exact .some (m.stepAwaiting n handle token).follows
    | waiting handle token timer =>
      dsimp only
      rw [m.waitResult?_eq]
      cases s.waitResult? handle token with
      | none => exact .none
      | some result => exact .some (m.endWaitCall n _ result).follows
    | sending topic payload =>
      dsimp only
      rw [m.host.faults_eq]
      split
      · exact .some (m.send n topic payload)
      · exact .some (m.setTimedPhase n _ fun timer => .publishing topic payload timer).follows
    | publishing topic payload timer =>
      dsimp only
      rw [m.host.isDue_eq]
      split
      · exact .some (m.send n topic payload)
      · exact .none
    | closing publisher => exact .some (m.stepClosing n publisher).follows
    | draining publisher timer => exact lift (m.stepDraining? n publisher timer)
    | forcing publisher =>
      dsimp only
      rw [m.workerEnded_eq]
      split
      · exact .some (m.afterWorker n publisher).follows
      · exact .none
    | stopping correlator next => exact .some (m.stepStopping n correlator next).follows
    | joining correlator next =>
      dsimp only
      rw [m.listenerEnded_eq]
      split
      · exact .some (m.finishStopping n correlator next).follows
      · exact .none
    | ended moment result => exact .none
    | aborted => exact .none

end Matches

end System

end ChangeDispatch
