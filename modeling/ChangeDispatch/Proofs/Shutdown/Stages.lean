import ChangeDispatch.Proofs.Publisher.Conservation
import ChangeDispatch.Proofs.Shutdown.Sessions

/-!
# The stages of a shutdown

The first call that closes a publisher drains the queue, forces the worker to end if that
takes too long, stops the listener and waits for its end. Each stage leaves something told,
ended or closed, and as nothing goes back it is still so in all later stages.
-/
namespace ChangeDispatch

namespace System

/-- The worker of publisher `i` was told to stop. -/
def workerTold (s : System) (i : Nat) : Bool := (s.publishers[i]?).any fun p => p.worker.stopping

def workerDone (s : System) (i : Nat) : Bool := (s.publishers[i]?).any fun p => p.worker.isEnded

def listenerTold (s : System) (c : Nat) : Bool := (s.correlators[c]?).any Correlator.stopping

def tableClosed (s : System) (c : Nat) : Bool :=
  (s.correlators[c]?).any fun co => co.registry.table.closed

/-- How far call `n` is, the first that closes publisher `i`, with correlator `c`. -/
inductive Stage (s : System) (n i c due : Nat) : Prop where
  | draining (timer : Timer) :
      s.phase? n = some (.draining i timer) → timer.due = due → Stage s n i c due
  | forcing : s.phase? n = some (.forcing i) → s.workerTold i → Stage s n i c due
  | stopping : s.phase? n = some (.stopping c (some i)) → s.workerDone i → Stage s n i c due
  | joining :
      s.phase? n = some (.joining c (some i)) → s.workerDone i → s.listenerTold c →
      Stage s n i c due
  | ended (moment : Nat) :
      s.phase? n = some (.ended moment .done) → s.workerDone i → s.listenerTold c →
      s.tableClosed c → s.host.broker.closed → Stage s n i c due
  | aborted : s.phase? n = some .aborted → Stage s n i c due

/-! ## What stays -/

namespace Onward

variable {s t : System} {i c : Nat} (h : s.Onward t)
include h

theorem workerTold (told : s.workerTold i) : t.workerTold i :=
  h.publishers.any (fun onward => onward.worker.stopping) told

theorem workerDone (done : s.workerDone i) : t.workerDone i :=
  h.publishers.any (fun onward done => beq_iff_eq.mpr (onward.worker.ended (eq_of_beq done)).1) done

theorem listenerTold (told : s.listenerTold c) : t.listenerTold c :=
  h.correlators.any Correlator.Onward.stopping told

theorem tableClosed (closed : s.tableClosed c) : t.tableClosed c :=
  h.correlators.any Correlator.Onward.closed closed

end Onward

/-- Others act: the call stays in its stage, or it is given up. -/
theorem Stage.others {s t : System} {n i c due : Nat} (stage : Stage s n i c due)
    (onward : s.Onward t)
    (phases : ∀ φ, s.phase? n = some φ → t.phase? n = some φ ∨ t.phase? n = some .aborted) :
    Stage t n i c due := by
  cases stage with
  | draining timer hφ hd =>
    exact (phases _ hφ).elim (fun same => .draining timer same hd) .aborted
  | forcing hφ told =>
    exact (phases _ hφ).elim (fun same => .forcing same (onward.workerTold told)) .aborted
  | stopping hφ done =>
    exact (phases _ hφ).elim (fun same => .stopping same (onward.workerDone done)) .aborted
  | joining hφ done told =>
    exact (phases _ hφ).elim
      (fun same => .joining same (onward.workerDone done) (onward.listenerTold told)) .aborted
  | ended moment hφ done told closed broker =>
    exact (phases _ hφ).elim
      (fun same => .ended moment same (onward.workerDone done) (onward.listenerTold told)
        (onward.tableClosed closed) (onward.host.closed broker)) .aborted
  | aborted hφ => exact (phases _ hφ).elim .aborted .aborted

/-! ## Where nothing can go on -/

theorem step?_of_quiescent {s : System} (quiescent : s.isQuiescent) {a : Agent}
    (ha : a ∈ s.started) : a.step? s = none := by
  have still := List.all_eq_true.mp quiescent a (List.mem_append_left _ ha)
  simpa [canStep] using still

/-! ## What the call does itself -/

section Own

variable {s t : System} {n i c : Nat} {p : Publisher}

theorem stepCall?_of_phase {φ : Call.Phase} (hφ : s.phase? n = some φ) :
    (s.calls[n]?).map Call.phase = some φ :=
  hφ

theorem workerEnded_iff (hp : s.publishers[i]? = some p) : s.workerEnded i = s.workerDone i := by
  simp [workerEnded, workerDone, hp]

theorem phase?_endCall {φ : Call.Phase} (hφ : s.phase? n = some φ) (result : Call.Result) :
    (s.endCall n result).phase? n = some (.ended s.host.now result) := by
  rw [(s.quiet_endCall n result).phase?, phase?_setPhase hφ]

theorem workerTold_stopWorker (hp : s.publishers[i]? = some p) : (s.stopWorker i).workerTold i := by
  simp [workerTold, stopWorker, adjustPublisher, hp]

theorem listenerTold_stopListener {co : Correlator} (hc : s.correlators[c]? = some co) :
    (s.stopListener c).listenerTold c := by
  simp [listenerTold, stopListener, adjustCorrelator, hc]

theorem tableClosed_closeTable {co : Correlator} (hc : s.correlators[c]? = some co) :
    (s.closeTable c).tableClosed c := by
  simp [tableClosed, closeTable, adjustCorrelator, hc, WaitRegistry.closed_close]

/-- The worker has ended: the call goes on to the listener. -/
theorem Stage.afterWorker {φ : Call.Phase} {due : Nat} (hφ : s.phase? n = some φ)
    (hp : s.publishers[i]? = some p) (done : s.workerDone i) :
    Stage (s.afterWorker n i) n i p.correlator due := by
  have onward := s.onward_afterWorker n i
  refine .stopping ?_ (onward.workerDone done)
  unfold System.afterWorker
  rw [hp]
  exact phase?_setPhase (s := s.stopWorker i) hφ _

/-- The listener has been told to stop: its table and the broker are closed, and the call ends. -/
theorem Stage.finishStopping {φ : Call.Phase} {due : Nat} {co : Correlator}
    (hφ : s.phase? n = some φ) (hc : s.correlators[c]? = some co) (done : s.workerDone i)
    (told : s.listenerTold c) : Stage (s.finishStopping n c (some i)) n i c due := by
  unfold System.finishStopping
  extract_lets failed u v
  let w : System := { v with host := v.host.close.2.noteError v.host.close.1 .closeFailed }
  have noted : u.Quiet v ∧ u.Onward v := by
    unfold v
    split
    · exact ⟨u.quiet_note _, u.onward_note _⟩
    · exact ⟨.refl u, .refl u⟩
  have closing : v.Onward w :=
    v.onward_onHost ((Host.rests_close _).trans (Host.rests_noteError _ _ _))
  have ending := w.onward_endCall n .done
  have afterTable : u.Onward (w.endCall n .done) := (noted.2.trans closing).trans ending
  have onward : s.Onward (w.endCall n .done) := (s.onward_closeTable c).trans afterTable
  have before : w.phase? n = some φ := (noted.1.phase? n).trans hφ
  have broker : w.host.broker.closed :=
    (Host.rests_noteError v.host.close.2 v.host.close.1 .closeFailed).closed rfl
  exact .ended _ (phase?_endCall before .done) (onward.workerDone done) (onward.listenerTold told)
    (afterTable.tableClosed (tableClosed_closeTable hc)) (ending.host.closed broker)

/-- The step of the call itself. -/
theorem Stage.own {due : Nat} {co : Correlator} (stage : Stage s n i p.correlator due)
    (hp : s.publishers[i]? = some p) (hc : s.correlators[p.correlator]? = some co)
    (hs : s.stepCall? n = some t) : Stage t n i p.correlator due := by
  unfold stepCall? at hs
  cases stage with
  | draining timer hφ hd =>
    rw [stepCall?_of_phase hφ] at hs
    change s.stepDraining? n i timer = some t at hs
    unfold stepDraining? at hs
    split at hs
    next done =>
      rw [workerEnded_iff hp] at done
      exact Option.some.inj hs ▸ .afterWorker hφ hp done
    next =>
      split at hs
      · obtain rfl := Option.some.inj hs
        let drainTimeout := (s.publishers[i]?).elim ⟨0⟩ fun p => p.config.drainTimeout
        let noted := s.note (.drainTimedOut drainTimeout)
        have same : (noted.stopWorker i).phase? n = some (.draining i timer) := hφ
        exact .forcing (phase?_setPhase same _) (workerTold_stopWorker (s := noted) hp)
      · cases hs
  | forcing hφ told =>
    rw [stepCall?_of_phase hφ] at hs
    change (if s.workerEnded i then some (s.afterWorker n i) else none) = some t at hs
    split at hs
    next done =>
      rw [workerEnded_iff hp] at done
      exact Option.some.inj hs ▸ .afterWorker hφ hp done
    next => cases hs
  | stopping hφ done =>
    rw [stepCall?_of_phase hφ] at hs
    obtain rfl := Option.some.inj hs
    have told := listenerTold_stopListener hc
    have stopped := s.onward_stopListener p.correlator
    have same : (s.stopListener p.correlator).phase? n =
        some (.stopping p.correlator (some i)) := hφ
    have present : (s.stopListener p.correlator).correlators[p.correlator]? =
        some { co with stopping := true } := by
      simp [stopListener, adjustCorrelator, hc]
    unfold stepStopping
    dsimp only
    split
    · let f : Correlator → Correlator := fun co => { co with joinable := false }
      have joined := (s.stopListener p.correlator).onward_correlator (i := p.correlator) (f := f)
        fun _ _ => ⟨id, id, id⟩
      exact .joining
        (phase?_setPhase (s := (s.stopListener p.correlator).adjustCorrelator _ f) same _)
        ((stopped.trans joined).workerDone done) (joined.listenerTold told)
    · exact .finishStopping same present (stopped.workerDone done) told
  | joining hφ done told =>
    rw [stepCall?_of_phase hφ] at hs
    change (if s.listenerEnded p.correlator then some (s.finishStopping n p.correlator (some i))
      else none) = some t at hs
    split at hs
    · exact Option.some.inj hs ▸ .finishStopping hφ hc done told
    · cases hs
  | ended moment hφ _ _ _ _ =>
    rw [stepCall?_of_phase hφ] at hs
    cases hs
  | aborted hφ =>
    rw [stepCall?_of_phase hφ] at hs
    cases hs

end Own

end System

namespace Script

variable {ts : List Transition} {x y z : Session} {a : Action} {u : Transition} {n i : Nat}
  {p : Publisher}

/-! ## The stages in a run -/

/-- Others leave a call in its phase, or give it up. -/
theorem phase?_of_others (h : x.after? a = some y) (others : a ≠ .agent (.call n))
    {φ : Call.Phase} (hφ : x.system.phase? n = some φ) :
    y.system.phase? n = some φ ∨ y.system.phase? n = some .aborted := by
  cases Session.trades_of_after? h with
  | quiet _ calls _ _ => exact .inl (phase?_of_append calls hφ)
  | opened _ calls _ _ _ _ _ _ _ =>
    exact .inl (phase?_of_append (calls.trans (List.append_nil _).symm) hφ)
  | aborted _ _ _ calls _ _ =>
    rw [phase?_of_modify calls, hφ]
    split
    · exact .inr rfl
    · exact .inl rfl
  | @called m ψ χ t _ _ _ _ calls _ _ =>
    have hm : m ≠ n := by
      rintro rfl
      exact others rfl
    have same : t.phase? n = some φ := by rw [phase?_of_modify calls, if_neg hm, hφ]
    exact .inl same
  | worked _ _ _ calls _ _ =>
    exact .inl (phase?_of_append (calls.trans (List.append_nil _).symm) hφ)

/-- A call that has ended stays ended. -/
theorem ended_of_after? (h : x.after? a = some y) {moment : Nat} {result : Call.Result}
    (hφ : x.system.phase? n = some (.ended moment result)) :
    y.system.phase? n = some (.ended moment result) := by
  have same : ∀ {s : System}, s.calls = x.system.calls →
      s.phase? n = some (.ended moment result) := by
    intro s hc
    unfold System.phase? at hφ ⊢
    rw [hc, hφ]
  cases Session.moves_of_after? h with
  | performed _ hp =>
    obtain ⟨v, effect, elsewhere⟩ := hp
    have after : v.system.phase? n = some (.ended moment result) := by
      cases effect with
      | called _ => exact phase?_of_append rfl hφ
      | waited _ => exact phase?_of_append rfl hφ
      | @registered c _ _ _ r id v _ _ hv =>
        subst hv
        let w := x.onSystem (·.adjustCorrelator c fun co => { co with registry := r })
        exact same (w.upToRegistries_dropWaiter id).calls
      | droppedWaiter id => exact same (x.upToRegistries_dropWaiter id).calls
      | @aborted k c hc running _ =>
        have others : k ≠ n := by
          rintro rfl
          have ended : c.phase = .ended moment result := by
            unfold System.phase? at hφ
            rw [hc] at hφ
            exact Option.some.inj hφ
          simp [Call.isRunning, ended] at running
        have calls : ((x.system.forsake k c.phase).setPhase k .aborted).calls =
            x.system.calls.modify k fun c => { c with phase := .aborted } :=
          congrArg (List.modify · k _) (System.UpToRegistries.forsake x.system k c.phase).calls
        exact (phase?_of_modify calls).trans (by rw [if_neg others, hφ])
      | _ => exact same rfl
    unfold System.phase? at after ⊢
    rw [elsewhere.calls, after]
  | injected _ _ => exact hφ
  | passed _ => exact hφ
  | @stepped agent t hs =>
    cases agent with
    | call k =>
      obtain ⟨φ, hk, v, ψ, step, quiet⟩ := System.callSteps_of_stepCall? hs
      have others : k ≠ n := by
        rintro rfl
        obtain rfl := Option.some.inj (hφ.symm.trans hk)
        change x.system.stepCall? k = some t at hs
        unfold System.stepCall? at hs
        rw [System.stepCall?_of_phase hφ] at hs
        cases hs
      have calls : (v.setPhase k ψ).calls =
          x.system.calls.modify k fun c => { c with phase := ψ } :=
        congrArg (List.modify · k _) step.calls_eq
      exact (quiet.phase? n).trans ((phase?_of_modify calls).trans (by rw [if_neg others, hφ]))
    | worker k =>
      obtain ⟨-, -, -, -, -, -, -, -, rfl⟩ := Agent.step?_worker hs
      exact hφ
    | listener c =>
      obtain ⟨-, -, -, -, -, rfl⟩ := Agent.step?_listener hs
      exact hφ
    | consumer k =>
      obtain ⟨-, -, -, -, -, rfl⟩ := Agent.step?_consumer hs
      exact hφ
    | redelivery k serial =>
      obtain ⟨-, -, -, rfl⟩ := Agent.step?_redelivery hs
      exact hφ

/-- The transition is the first step of call `n`, which finds publisher `i` open and closes it. -/
structure Transition.FirstClose (u : Transition) (n i : Nat) (p : Publisher) : Prop where
  action : u.action = .agent (.call n)
  phase : u.before.system.phase? n = some (.closing i)
  publisher : u.before.system.publishers[i]? = some p
  isOpen : p.closed = false

/-- The latest moment at which the drain of the queue is given up. -/
def Transition.drained (u : Transition) (p : Publisher) : Nat :=
  u.before.system.host.now + p.config.drainTimeout.ticks

/-- What the first step of the call does: it closes the publisher and its queue, and the drain
begins. -/
theorem Transition.FirstClose.after (first : u.FirstClose n i p) (staffed : u.before.system.Staffed)
    {q : Queue} (hq : u.before.system.queues[p.queue]? = some q)
    (h : u.before.after? u.action = some u.after) :
    u.after.system.Stage n i p.correlator (u.drained p) ∧
      u.after.system.publishers[i]? = some { p with closed := true, joinable := false } ∧
      u.after.system.queues[p.queue]? = some { q with isOpen := false } := by
  have joinable : p.joinable = true := by
    rcases (staffed.sound p (List.mem_of_getElem? first.publisher)).joinable with closed | joinable
    · exact absurd (first.isOpen.symm.trans closed) (by decide)
    · exact joinable
  rw [first.action] at h
  obtain ⟨t, ht, hu⟩ := Option.map_eq_some_iff.mp h
  have stepped : u.before.system.stepCall? n = some (u.before.system.stepClosing n i) := by
    unfold System.stepCall?
    rw [System.stepCall?_of_phase first.phase]
  obtain rfl := Option.some.inj (stepped.symm.trans ht)
  have after : u.after.system = u.before.system.stepClosing n i := by rw [← hu]
  rw [after]
  unfold System.stepClosing
  rw [first.publisher]
  dsimp only
  rw [first.isOpen, if_neg (by decide), joinable, if_pos rfl]
  let shut := u.before.system.shut i p.queue
  have phase : (shut.setTimer p.config.drainTimeout.ticks).2.phase? n = some (.closing i) :=
    first.phase
  refine ⟨.draining _ (System.phase?_setPhase phase _) rfl, ?_, ?_⟩
  · change (u.before.system.publishers.modify i _)[i]? = _
    simp [first.publisher]
  · change (u.before.system.queues.modify p.queue _)[p.queue]? = _
    simp [hq, Queue.close]

/-- A publisher whose shutdown has begun, and the stage of the call that began it. -/
structure Shutting (z : Session) (n i due : Nat) (p : Publisher) : Prop where
  publisher : ∃ p', z.system.publishers[i]? = some p' ∧ p'.closed ∧
    Publisher.Onward { p with closed := true, joinable := false } p'
  queue : ∃ q, z.system.queues[p.queue]? = some q ∧ q.isOpen = false
  stage : z.system.Stage n i p.correlator due

theorem Shutting.next {due : Nat} (shutting : Shutting x n i due p) (staffed : x.system.Staffed)
    (h : x.after? a = some y) : Shutting y n i due p := by
  have onward := Session.onward_of_after? h
  obtain ⟨⟨p₁, hp₁, closed, since⟩, ⟨q, hq, shut⟩, stage⟩ := shutting
  have correlator : p₁.correlator = p.correlator := since.correlator
  refine ⟨?_, ?_, ?_⟩
  · obtain ⟨p', hp', step⟩ := onward.publishers i p₁ hp₁
    exact ⟨p', hp', step.closed closed, since.trans step⟩
  · obtain ⟨q', hq', step⟩ := onward.queues p.queue q hq
    refine ⟨q', hq', ?_⟩
    cases ho : q'.isOpen with
    | false => rfl
    | true => exact (step.isOpen ho).symm.trans shut
  · by_cases own : a = .agent (.call n)
    · subst own
      obtain ⟨t, ht, rfl⟩ := Option.map_eq_some_iff.mp h
      have known := staffed.correlator p₁ (List.mem_of_getElem? hp₁)
      rw [← correlator] at stage ⊢
      exact stage.own hp₁ (List.getElem?_eq_getElem known) ht
    · exact stage.others onward fun φ hφ => phase?_of_others h own hφ

/-- The shutdown goes on to the end of the run. -/
theorem Runs.shutting (run : Runs ts z) (hu : u ∈ ts) (first : u.FirstClose n i p) :
    Shutting z n i (u.drained p) p := by
  induction run with
  | start => cases hu
  | @next ts x y a run h ih =>
    rcases List.mem_cons.mp hu with rfl | hu
    · obtain ⟨q, hq, -⟩ := run.ledgers.ledger i p first.publisher
      obtain ⟨stage, hp, hq'⟩ := first.after run.staffed hq h
      exact ⟨⟨_, hp, rfl, .refl _⟩, ⟨_, hq', rfl⟩, stage⟩
    · exact (ih hu).next run.staffed h

end Script

end ChangeDispatch
