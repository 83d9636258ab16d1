import ChangeDispatch.Proofs.Publisher.Producers
import ChangeDispatch.Proofs.Queue.History
import ChangeDispatch.Proofs.Shutdown.Sessions

/-!
# How a run uses a queue

`Transition.queueOps` reads off an action what it does with a queue and what the queue answers,
whoever the queue belongs to. The queue that a run ends with is what these uses make of the queue
that was new, so nothing else has been done with it.
-/
namespace ChangeDispatch

namespace Queue

/-- What call `n` does with queue `j`, which it finds in this state. -/
def callUses (q : Queue) (n j : Nat) : Call.Phase → List Op
  | .enqueuing k event _ =>
    if k = j then
      match event.validate with
      | .error _ => [.invalid ⟨n, event⟩]
      | .ok () => [.offered ⟨n, event⟩ (q.offer ⟨n, event⟩).1]
    else []
  | .inLine k _ _ _ =>
    if k = j then
      match q.standing n with
      | .accepted => [.told n]
      | .blocked => [.withdrawn n]
      | .refused => [.dismissed n]
    else []
  | _ => []

/-- The receipt of the oldest event, if there is one. -/
def takeUses (q : Queue) : List Op := (q.take?.map fun taken => Op.received taken.1).toList

/-- What a call does that is given up. -/
def leaveUses (n j : Nat) : Call.Phase → List Op
  | .inLine k _ _ _ => if k = j then [.withdrawn n] else []
  | _ => []

/-- What is left when the oldest event was received. -/
def afterTake (q : Queue) : Queue := q.take?.elim q Prod.snd

variable {q : Queue} {n j : Nat} {φ : Call.Phase}

theorem history_takeUses (q : Queue) : q.History q.takeUses q.afterTake := by
  unfold takeUses afterTake
  cases ht : q.take? with
  | none => exact .start
  | some taken => exact .one (.received ht)

theorem callUses_of_isBare (h : φ.isBare) : q.callUses n j φ = [] := by
  cases φ <;> first | rfl | cases h

theorem ordinary_callUses {op : Op} (h : op ∈ q.callUses n j φ) : op.isOrdinary := by
  unfold callUses at h
  split at h
  · split at h
    · split at h <;> (rw [List.mem_singleton.mp h]; rfl)
    · cases h
  · split at h
    · split at h <;> (rw [List.mem_singleton.mp h]; rfl)
    · cases h
  · cases h

end Queue

namespace System

variable {s u : System} {n j : Nat} {φ ψ : Call.Phase} {q : Queue}

/-- What a step of a call does with a queue. -/
theorem CallStep.uses (step : CallStep s n φ u ψ) (hq : s.queues[j]? = some q) :
    ∃ q', u.queues[j]? = some q' ∧ q.History (q.callUses n j φ) q' := by
  have aside : u.queues = s.queues → q.callUses n j φ = [] →
      ∃ q', u.queues[j]? = some q' ∧ q.History (q.callUses n j φ) q' := fun queues none =>
    ⟨q, queues ▸ hq, none ▸ .start⟩
  -- one use of queue `k`, which can be another one
  have used : ∀ {k : Nat} {f : Queue → Queue} {o : Queue.Op},
      u.queues = s.queues.modify k f → q.callUses n j φ = (if k = j then [o] else []) →
      (k = j → q.Does o (f q)) →
      ∃ q', u.queues[j]? = some q' ∧ q.History (q.callUses n j φ) q' := by
    intro k f op queues uses does
    by_cases own : k = j
    · refine ⟨f q, ?_, ?_⟩
      · rw [queues, own, List.getElem?_modify_eq, hq]
        rfl
      · rw [uses, if_pos own]
        exact .one (does own)
    · refine ⟨q, ?_, ?_⟩
      · rw [queues, List.getElem?_modify_ne _ _ own, hq]
      · rw [uses, if_neg own]
        exact .start
  have kept : ∀ {k : Nat} {o : Queue.Op}, u.queues = s.queues →
      q.callUses n j φ = (if k = j then [o] else []) → (k = j → q.Does o q) →
      ∃ q', u.queues[j]? = some q' ∧ q.History (q.callUses n j φ) q' := fun {k _} queues =>
    used (f := id) (queues.trans (List.modify_id k s.queues).symm)
  cases step with
  | moved hφ _ => exact aside rfl (Queue.callUses_of_isBare hφ)
  | sent hφ _ => rcases hφ with rfl | ⟨timer, rfl⟩ <;> exact aside rfl rfl
  | @stopped _ c next hφ =>
    rcases hφ with rfl | rfl <;> cases next <;> exact aside rfl rfl
  | registered _ _ hφ =>
    rcases hφ with ⟨queue, rfl, -⟩ | ⟨token, rfl, -⟩ <;> exact aside rfl rfl
  | answered hφ _ => rcases hφ with rfl | ⟨timer, rfl⟩ <;> exact aside rfl rfl
  | waited _ _ => exact aside rfl rfl
  | @invalid queue event next e he =>
    refine kept (k := queue) (o := .invalid ⟨n, event⟩) (UpToRegistries.letGo s next).queues ?_
      fun _ => .invalid he
    simp only [Queue.callUses, he]
  | @refused queue event next hv hr =>
    refine kept (k := queue) (o := .offered ⟨n, event⟩ (q.offer ⟨n, event⟩).1)
      (UpToRegistries.letGo s next).queues ?_ fun own => ?_
    · simp only [Queue.callUses, hv]
    · have refused := hr q (own ▸ hq)
      refine .offered hv (Prod.ext rfl ?_)
      exact Queue.offer_refused (Prod.ext refused rfl)
  | @accepted queue event next q₀ q' hv hk ho =>
    refine used (k := queue) (f := fun _ => q') (o := .offered ⟨n, event⟩ (q.offer ⟨n, event⟩).1)
      rfl (by simp only [Queue.callUses, hv]) fun own => ?_
    subst own
    obtain rfl := Option.some.inj (hk.symm.trans hq)
    exact .offered hv (by rw [ho])
  | @blocked queue event next timer q₀ q' hv hk ho _ =>
    refine used (k := queue) (f := fun _ => q') (o := .offered ⟨n, event⟩ (q.offer ⟨n, event⟩).1)
      rfl (by simp only [Queue.callUses, hv]) fun own => ?_
    subst own
    obtain rfl := Option.some.inj (hk.symm.trans hq)
    exact .offered hv (by rw [ho])
  | @collected queue event next timer q₀ hk hs =>
    by_cases own : queue = j
    · subst own
      obtain rfl := Option.some.inj (hk.symm.trans hq)
      exact used (f := fun q => q.collect n) (o := .told n) rfl
        (by simp only [Queue.callUses, hs]) fun _ => .told hs
    · exact used (f := fun q => q.collect n) (o := .told n) rfl
        (by simp only [Queue.callUses, if_neg own]) fun bad => absurd bad own
  | @dismissed queue event next timer hr =>
    have queues := (UpToRegistries.letGo s next).queues
    by_cases own : queue = j
    · subst own
      have hs := hr q hq
      exact kept (k := queue) (o := .dismissed n) queues (by simp only [Queue.callUses, hs])
        fun _ => .dismissed hs
    · exact kept (k := queue) (o := .dismissed n) queues (by simp only [Queue.callUses, if_neg own])
        fun bad => absurd bad own
  | @withdrawn queue event next timer q₀ hk hs _ =>
    have queues := (UpToRegistries.letGo (s.adjustQueue queue fun q => q.withdraw n) next).queues
    by_cases own : queue = j
    · subst own
      obtain rfl := Option.some.inj (hk.symm.trans hq)
      exact used (f := fun q => q.withdraw n) (o := .withdrawn n) queues
        (by simp only [Queue.callUses, hs]) fun _ => .withdrawn hs
    · exact used (f := fun q => q.withdraw n) (o := .withdrawn n) queues
        (by simp only [Queue.callUses, if_neg own]) fun bad => absurd bad own

/-- What a call does with a queue, up to its flags. -/
theorem CallSteps.uses {t : System} (steps : CallSteps s n φ t) (hq : s.queues[j]? = some q) :
    ∃ q₁ q', q.History (q.callUses n j φ) q₁ ∧ t.queues[j]? = some q' ∧ q'.core = q₁.core := by
  obtain ⟨u, ψ, step, quiet⟩ := steps
  obtain ⟨q₁, hq₁, history⟩ := step.uses hq
  obtain ⟨q', hq', core⟩ := exists_of_map_eq quiet.queues.symm hq₁
  exact ⟨q₁, q', history, hq', core.symm⟩

/-- A producer in line that can do nothing still stands there. -/
theorem standing_of_still {event : ChangeEvent} {timer : Timer} {next : Option WaitHandle}
    (still : s.stepCall? n = none) (hφ : s.phase? n = some (.inLine j event timer next))
    (hq : s.queues[j]? = some q) : q.standing n = .blocked := by
  unfold stepCall? at still
  rw [show (s.calls[n]?).map Call.phase = _ from hφ] at still
  change s.stepInLine? n j event timer next = none at still
  unfold stepInLine? at still
  rw [hq] at still
  dsimp only at still
  split at still
  · cases still
  · cases still
  next hs => exact hs

end System

/-- A worker that holds nothing and goes on receives the next event. -/
def Worker.isTaking (w : Worker) : Bool := decide (w.phase = .idle ∧ w.stopping = false)

namespace Worker.Step

variable {h k : Host} {q q' : Queue} {w w' : Worker}

theorem isTaking_of_idle (idle : w.phase = .idle) (going : w.stopping = false) : w.isTaking :=
  decide_eq_true ⟨idle, going⟩

theorem not_taking_of_told (told : w.stopping) : ¬w.isTaking := fun taking =>
  absurd (told.symm.trans (of_decide_eq_true taking).2) (by decide)

theorem not_taking_of_item? {item : Item} (holds : w.phase.item? = some item) : ¬w.isTaking := by
  intro taking
  rw [(of_decide_eq_true taking).1] at holds
  cases holds

theorem takeUses_of_drained (drained : q.isDrained) : q.takeUses = [] := by
  unfold Queue.isDrained at drained
  simp only [Bool.and_eq_true, List.isEmpty_iff] at drained
  unfold Queue.takeUses Queue.take?
  rw [drained.1.1.2]
  rfl

/-- A worker receives what there is, and in any case it can end. -/
theorem uses (step : Worker.Step h q w k q' w') :
    ∃ q₁, q.History (if w.isTaking then q.takeUses else []) q₁ ∧
      (q' = q₁ ∨ q' = q₁.stopReceiving) := by
  cases step with
  | taken idle going ht =>
    rw [if_pos (isTaking_of_idle idle going)]
    refine ⟨q.afterTake, q.history_takeUses, .inl ?_⟩
    rw [Queue.afterTake, ht]
    rfl
  | drained idle going drained =>
    rw [if_pos (isTaking_of_idle idle going), takeUses_of_drained drained]
    exact ⟨q, .start, .inr rfl⟩
  | abandoned _ told _ =>
    rw [if_neg (not_taking_of_told told)]
    exact ⟨q, .start, .inr rfl⟩
  | interrupted holds _ _ =>
    rw [if_neg (not_taking_of_item? holds)]
    exact ⟨q, .start, .inr rfl⟩
  | moved holds _ _ =>
    rw [if_neg (not_taking_of_item? holds)]
    exact ⟨q, .start, .inl rfl⟩
  | published holds _ =>
    rw [if_neg (not_taking_of_item? holds)]
    exact ⟨q, .start, .inl rfl⟩
  | dropped holds _ =>
    rw [if_neg (not_taking_of_item? holds)]
    exact ⟨q, .start, .inl rfl⟩

/-- What a worker holds that held nothing before is what it has received. -/
theorem receives (step : Worker.Step h q w k q' w') :
    (if w.phase.item? = none then w'.phase.item? else none).toList =
      Queue.receipts (if w.isTaking then q.takeUses else []) := by
  have busy : ∀ {item : Item}, w.phase.item? = some item →
      (if w.phase.item? = none then w'.phase.item? else none).toList =
        Queue.receipts (if w.isTaking then q.takeUses else []) := by
    intro item holds
    rw [if_neg (not_taking_of_item? holds), holds]
    rfl
  cases step with
  | taken idle going ht =>
    rw [if_pos (isTaking_of_idle idle going), Queue.takeUses, ht, idle]
    rfl
  | drained idle going drained =>
    rw [if_pos (isTaking_of_idle idle going), takeUses_of_drained drained, idle]
    rfl
  | abandoned idle told _ =>
    rw [if_neg (not_taking_of_told told), idle]
    rfl
  | interrupted holds _ _ => exact busy holds
  | moved holds _ _ => exact busy holds
  | published holds _ => exact busy holds
  | dropped holds _ => exact busy holds

end Worker.Step

namespace Script

variable {x y : Session} {j : Nat} {q : Queue}

/-- The call that a step gives up, with its phase. -/
def Session.given? (x : Session) : Step → Option (Nat × Call.Phase)
  | .abort step =>
    (x.running.lookup step).bind fun n => (x.system.phase? n).map fun φ => (n, φ)
  | _ => none

/-- The queues after a step of a script, apart from the flags. -/
def Session.queuesAfter (x : Session) : Step → List Queue
  | .dequeue id =>
    (x.queues.find? id).elim x.system.queues fun i => x.system.queues.modify i Queue.afterTake
  | .dropReceiver id | .drop .queue id =>
    (x.queues.find? id).elim x.system.queues fun i => x.system.queues.modify i Queue.stopReceiving
  | .makeQueue id capacity timeout =>
    if Queue.maxCapacity < capacity then x.system.queues
    else
      let queues := x.system.queues ++ [.ofCapacity capacity timeout]
      (x.queues.find? id).elim queues fun i => queues.modify i Queue.stopReceiving
  | .openPublisher _ config =>
    match (x.system.openPublisher config).1 with
    | .ok _ => x.system.queues ++ [.ofCapacity config.queueCapacity config.enqueueTimeout]
    | .error _ => x.system.queues
  | step => (x.given? step).elim x.system.queues fun (n, φ) =>
    System.leaveLine x.system.queues n φ

theorem modify_congr_at {α : Type} {l : List α} {i : Nat} {a : α} {f g : α → α}
    (h : l[i]? = some a) (same : f a = g a) : l.modify i f = l.modify i g := by
  refine List.ext_getElem? fun j => ?_
  rw [List.getElem?_modify, List.getElem?_modify]
  by_cases own : i = j
  · subst own
    simp [h, same]
  · simp [own]

/-- What touches no queue leaves them as they are, apart from the flags, and it gives no call
up. -/
theorem System.kept_of_pieces {may : Part → Bool} (apart : may .queues = false) {s t : System}
    (pieces : s.Pieces may t) :
    t.queues.map Queue.core = s.queues.map Queue.core ∧ ∃ more, t.calls = s.calls ++ more := by
  have quiet : ∀ {t u : System}, t.Quiet u →
      u.queues.map Queue.core = t.queues.map Queue.core ∧ ∃ more, u.calls = t.calls ++ more :=
    fun q => ⟨q.queues, [], q.calls.trans (List.append_nil _).symm⟩
  have same : ∀ {t u : System}, u.queues = t.queues → u.calls = t.calls →
      u.queues.map Queue.core = t.queues.map Queue.core ∧ ∃ more, u.calls = t.calls ++ more :=
    fun queues calls => ⟨congrArg _ queues, [], calls.trans (List.append_nil _).symm⟩
  induction pieces with
  | refl => exact same rfl rfl
  | @tail t u _ piece ih =>
    have kept : u.queues.map Queue.core = t.queues.map Queue.core ∧
        ∃ more, u.calls = t.calls ++ more := by
      cases piece with
      | closedQueue i => exact quiet (t.quiet_closeQueue i)
      | droppedPublisher i => exact quiet (t.quiet_dropPublisher i)
      | droppedCorrelator i => exact quiet (t.quiet_dropCorrelator i)
      | registered i event =>
        have upTo := System.UpToRegistries.register t i event
        exact same upTo.queues upTo.calls
      | started owner φ _ => exact ⟨rfl, [_], rfl⟩
      | addedQueue _ touched => cases apart.symm.trans touched
      | droppedQueue _ touched => cases apart.symm.trans touched
      | stoppedQueue _ touched => cases apart.symm.trans touched
      | received touched _ _ => cases apart.symm.trans touched
      | addedPublisher _ _ touched => cases apart.symm.trans touched
      | aborted _ touched _ => cases apart.symm.trans touched
      | _ => exact same rfl rfl
    obtain ⟨queues, more, calls⟩ := ih
    obtain ⟨queues', more', calls'⟩ := kept
    exact ⟨queues'.trans queues, more ++ more', by rw [calls', calls, List.append_assoc]⟩

/-- What a step of a script leaves of the queues, apart from the flags, and of the calls. -/
structure Session.Leaves (x : Session) (step : Step) (y : Session) : Prop where
  queues : y.system.queues.map Queue.core = (x.queuesAfter step).map Queue.core
  phases : ∀ n φ, x.system.phase? n = some φ → (∀ ψ, x.given? step ≠ some (n, ψ)) →
    y.system.phase? n = some φ

namespace Session

variable {step : Step}

/-- The step gives no call up. -/
theorem Leaves.of_calls {more : List Call}
    (queues : y.system.queues.map Queue.core = (x.queuesAfter step).map Queue.core)
    (calls : y.system.calls = x.system.calls ++ more) : x.Leaves step y :=
  ⟨queues, fun _ _ hφ _ => phase?_of_append calls hφ⟩

/-- Neither queues nor calls change. -/
theorem Leaves.of_same (queues : y.system.queues = x.system.queues)
    (calls : y.system.calls = x.system.calls) (same : x.queuesAfter step = x.system.queues) :
    x.Leaves step y :=
  .of_calls (congrArg _ (queues.trans same.symm)) (calls.trans (List.append_nil _).symm)

theorem quiet_dropPublisher (x : Session) (id : String) :
    x.system.Quiet (x.dropPublisher id).system := by
  unfold dropPublisher
  split
  · rfl
  next i _ => exact x.system.quiet_dropPublisher i

theorem same_serve (x : Session) (id topic name : String) (policy : DeadLetterPolicy)
    (handler : Handler) :
    (x.serve id topic name policy handler).system.queues = x.system.queues ∧
      (x.serve id topic name policy handler).system.calls = x.system.calls := by
  unfold serve System.startConsumer
  by_cases none : policy.maxDeliveries = 0
  · rw [if_pos none]
    exact ⟨rfl, rfl⟩
  · rw [if_neg none]
    cases x.system.host.subscribe ⟨topic, name, some policy.maxDeliveries⟩ with
    | mk result host => cases result <;> exact ⟨rfl, rfl⟩

/-- A publisher comes with a new queue. -/
theorem openPublisher_cases (s : System) (config : DispatchConfig) :
    (∃ e u, s.openPublisher config = (.error e, u) ∧ u.queues = s.queues ∧ u.calls = s.calls) ∨
      ∃ i u, s.openPublisher config = (.ok i, u) ∧
        u.queues = s.queues ++ [.ofCapacity config.queueCapacity config.enqueueTimeout] ∧
        u.calls = s.calls := by
  unfold System.openPublisher
  cases config.validate with
  | error e => exact .inl ⟨_, _, rfl, rfl, rfl⟩
  | ok _ =>
    dsimp only
    split
    · exact .inl ⟨_, _, rfl, rfl, rfl⟩
    · split
      · exact .inl ⟨_, _, rfl, rfl, rfl⟩
      · exact .inr ⟨_, _, rfl, rfl, rfl⟩

/-- Whether a queue is closed when its receiver goes away is a matter of flags. -/
theorem queues_dropQueue (s : System) (i : Nat) :
    (s.dropQueue i).queues.map Queue.core =
      (s.queues.modify i Queue.stopReceiving).map Queue.core :=
  (map_modify (g := Queue.core) (k := Queue.stopReceiving) (fun _ => rfl) s.queues i).trans
    (map_modify (f := Queue.stopReceiving) (g := Queue.core) (k := Queue.stopReceiving)
      (fun _ => rfl) s.queues i).symm

theorem leaves_openPublisher (x : Session) (id : String) (config : DispatchConfig) :
    x.Leaves (.openPublisher id config) (x.openPublisher id config).2 := by
  unfold openPublisher
  rcases openPublisher_cases x.system config with
    ⟨e, s, hs, queues, calls⟩ | ⟨i, s, hs, queues, calls⟩
  · rw [hs]
    cases e <;> exact .of_same queues calls (by simp [queuesAfter, hs])
  · rw [hs]
    have dropped := quiet_dropPublisher { x with system := s } id
    refine .of_calls (dropped.queues.trans ?_)
      ((dropped.calls.trans calls).trans (List.append_nil _).symm)
    refine congrArg (List.map Queue.core) (queues.trans ?_)
    simp [queuesAfter, hs]

theorem leaves_abort (x : Session) (step : Nat) : x.Leaves (.abort step) (x.abort step) := by
  unfold abort
  cases hn : x.running.lookup step with
  | none => exact .of_same rfl rfl (by simp [queuesAfter, given?, hn])
  | some n =>
    dsimp only
    cases hc : x.system.calls[n]? with
    | none =>
      have none : x.queuesAfter (.abort step) = x.system.queues := by
        simp [queuesAfter, given?, hn, System.phase?, hc]
      unfold System.abortCall
      rw [onSystem, hc]
      exact .of_same rfl rfl none
    | some c =>
      have given : x.given? (.abort step) = some (n, c.phase) := by
        simp [given?, hn, System.phase?, hc]
      have queuesAfter : x.queuesAfter (.abort step) =
          System.leaveLine x.system.queues n c.phase := by
        simp [queuesAfter, given]
      cases hr : c.isRunning with
      | true =>
        have quiet := System.quiet_abortCall hc hr
        have upTo := System.UpToRegistries.forsake x.system n c.phase
        refine ⟨quiet.queues.trans ?_, fun m φ hφ others => ?_⟩
        · rw [queuesAfter]
          exact congrArg (List.map Queue.core) upTo.queues
        · have calls := quiet.calls.trans (congrArg (List.modify · n _) upTo.calls)
          refine (phase?_of_modify calls).trans ?_
          rw [if_neg fun own : n = m => others c.phase (own ▸ given)]
          exact hφ
      | false =>
        have aside : System.leaveLine x.system.queues n c.phase = x.system.queues := by
          unfold Call.isRunning at hr
          cases hφ : c.phase <;> first | rfl | (rw [hφ] at hr; cases hr)
        unfold System.abortCall
        rw [onSystem, hc]
        dsimp only
        rw [hr]
        exact .of_same rfl rfl (queuesAfter.trans aside)

theorem leaves_dequeue (x : Session) (name : String) :
    x.Leaves (.dequeue name) (x.dequeue name).2 := by
  unfold dequeue
  cases hi : x.queues.find? name with
  | none => exact .of_same rfl rfl (by simp [queuesAfter, hi])
  | some i =>
    have queuesAfter : x.queuesAfter (.dequeue name) =
        x.system.queues.modify i Queue.afterTake := by
      simp [queuesAfter, hi]
    dsimp only [Option.bind_some]
    cases hq : x.system.queues[i]? with
    | none =>
      exact .of_same rfl rfl
        (queuesAfter.trans (List.modify_eq_self (List.getElem?_eq_none_iff.mp hq)))
    | some q =>
      dsimp only [Option.map_some]
      cases ht : q.take? with
      | none =>
        refine .of_same rfl rfl (queuesAfter.trans ?_)
        rw [modify_congr_at (g := id) hq (by simp [Queue.afterTake, ht]), List.modify_id]
      | some taken =>
        refine .of_calls ?_ (List.append_nil _).symm
        rw [queuesAfter, modify_congr_at (g := fun _ => taken.2) hq (by simp [Queue.afterTake, ht])]
        rfl

theorem leaves_makeQueue (x : Session) (id : String) (capacity : Nat) (timeout : Duration) :
    x.Leaves (.makeQueue id capacity timeout) (x.makeQueue id capacity timeout).2 := by
  unfold makeQueue dropQueue
  dsimp only
  by_cases tooLarge : Queue.maxCapacity < capacity
  · rw [if_pos tooLarge]
    exact .of_same rfl rfl (if_pos tooLarge)
  have queuesAfter : x.queuesAfter (.makeQueue id capacity timeout) = _ := if_neg tooLarge
  rw [if_neg tooLarge]
  cases hi : x.queues.find? id with
  | none =>
    rw [hi] at queuesAfter
    exact .of_calls (congrArg _ queuesAfter.symm) (List.append_nil _).symm
  | some i =>
    rw [hi] at queuesAfter
    refine .of_calls ?_ (List.append_nil _).symm
    exact (queues_dropQueue (x.system.addQueue (.ofCapacity capacity timeout)).2 i).trans
      (congrArg _ queuesAfter.symm)

theorem leaves_dropReceiver (x : Session) (name : String) :
    x.Leaves (.dropReceiver name) (x.perform (.dropReceiver name)).2 := by
  unfold perform
  dsimp only
  cases hi : x.queues.find? name with
  | none => exact .of_same rfl rfl (by simp [queuesAfter, hi])
  | some i =>
    refine .of_calls ?_ (List.append_nil _).symm
    simp [queuesAfter, hi]
    rfl

theorem leaves_dropQueue (x : Session) (id : String) :
    x.Leaves (.drop .queue id) (x.dropQueue id) := by
  unfold dropQueue
  cases hi : x.queues.find? id with
  | none => exact .of_same rfl rfl (by simp [queuesAfter, hi])
  | some i =>
    refine .of_calls ?_ (List.append_nil _).symm
    refine (queues_dropQueue x.system i).trans ?_
    simp [queuesAfter, hi]

theorem queuesAfter_of_apart (x : Session) (apart : step.touches .queues = false) :
    x.queuesAfter step = x.system.queues := by
  cases step with
  | drop kind id => cases kind <;> first | rfl | cases apart
  | _ => first | rfl | cases apart

/-- What every step of a script leaves of the queues and the calls. -/
theorem leaves_perform (x : Session) (allowed : x.allows step) :
    x.Leaves step (x.perform step).2 := by
  cases touches : step.touches .queues with
  | false =>
    obtain ⟨queues, more, calls⟩ := System.kept_of_pieces touches (x.made_perform allowed).system
    exact .of_calls (queues.trans (congrArg _ (x.queuesAfter_of_apart touches).symm)) calls
  | true =>
    cases step with
    | makeQueue id capacity timeout => exact x.leaves_makeQueue id capacity timeout
    | dequeue queue => exact x.leaves_dequeue queue
    | dropReceiver queue => exact x.leaves_dropReceiver queue
    | openPublisher id config => exact x.leaves_openPublisher id config
    | abort step => exact x.leaves_abort step
    | drop kind id =>
      cases kind with
      | queue => exact x.leaves_dropQueue id
      | _ => cases touches
    | _ => cases touches

end Session

/-- What a step of a script does with queue `j`, which it finds in this state. -/
def Session.stepUses (x : Session) (j : Nat) (q : Queue) : Step → List Queue.Op
  | .dequeue id => if x.queues.find? id = some j then q.takeUses else []
  | step => (x.given? step).elim [] fun (n, φ) => Queue.leaveUses n j φ

/-- What an action does with queue `j`, which it finds in this state, apart from the flags. -/
def Transition.uses (t : Transition) (j : Nat) (q : Queue) : List Queue.Op :=
  match t.action with
  | .agent (.call n) => (t.before.system.phase? n).elim [] (q.callUses n j)
  | .agent (.worker i) =>
    if (t.before.system.publishers[i]?).any fun p => p.queue == j && p.worker.isTaking then
      q.takeUses
    else []
  | .perform step => t.before.stepUses j q step
  | _ => []

/-- What an action does with queue `j`, the first use in front. A queue that is new is one of its
capacity that nobody has used. -/
def Transition.queueOps (t : Transition) (j : Nat) : List Queue.Op :=
  match t.before.system.queues[j]?, t.after.system.queues[j]? with
  | some q, some q' => t.uses j q ++ q.endings q'
  | none, some q' => (Queue.ofCapacity q'.capacity q'.timeout).endings q'
  | _, none => []

/-- The history of queue `j` in a run. -/
def queueHistory (ts : List Transition) (j : Nat) : List Queue.Op :=
  ts.reverse.flatMap fun t => t.queueOps j

namespace Session

theorem getElem?_core {queues : List Queue}
    (same : x.system.queues.map Queue.core = queues.map Queue.core)
    (hq : queues[j]? = some q) : ∃ q', x.system.queues[j]? = some q' ∧ q'.core = q.core := by
  obtain ⟨q', hq', core⟩ := exists_of_map_eq same.symm hq
  exact ⟨q', hq', core.symm⟩

/-- A call that is given up stands still. -/
theorem given_still {step n : Nat} {φ : Call.Phase} (allowed : x.allows (.abort step))
    (hg : x.given? (.abort step) = some (n, φ)) :
    x.system.stepCall? n = none ∧ x.system.phase? n = some φ := by
  obtain ⟨m, hm, hφ⟩ := Option.bind_eq_some_iff.mp hg
  obtain ⟨χ, hχ, same⟩ := Option.map_eq_some_iff.mp hφ
  obtain ⟨rfl, rfl⟩ := Prod.mk.inj same
  change (x.running.lookup step).all (fun n => !x.system.canStep (.call n)) at allowed
  rw [hm] at allowed
  exact ⟨by simpa [System.canStep, Agent.step?] using allowed, hχ⟩

/-- What is done with queue `j` is a history of it, after which its receiver may be taken away. -/
def UsedSo (q : Queue) (uses : List Queue.Op) (queues : List Queue) (j : Nat) : Prop :=
  ∃ q₁ r, q.History uses q₁ ∧ queues[j]? = some r ∧ (r = q₁ ∨ r = q₁.stopReceiving)

theorem UsedSo.unused {queues : List Queue} (hq : queues[j]? = some q) : UsedSo q [] queues j :=
  ⟨q, q, .start, hq, .inl rfl⟩

/-- The receiver of one queue is taken away, if there is one. -/
theorem UsedSo.stopped {queues : List Queue} (k : Option Nat) (hq : queues[j]? = some q) :
    UsedSo q [] (k.elim queues fun i => queues.modify i Queue.stopReceiving) j := by
  cases k with
  | none => exact .unused hq
  | some i =>
    by_cases own : i = j
    · exact ⟨q, q.stopReceiving, .start, by simp [own, hq], .inr rfl⟩
    · exact .unused (by simp [own, hq])

theorem usedSo_dequeue (x : Session) (id : String) (hq : x.system.queues[j]? = some q) :
    UsedSo q (x.stepUses j q (.dequeue id)) (x.queuesAfter (.dequeue id)) j := by
  unfold stepUses queuesAfter
  dsimp only
  cases hi : x.queues.find? id with
  | none => exact .unused hq
  | some i =>
    rw [Option.elim_some]
    by_cases own : i = j
    · subst own
      rw [if_pos rfl]
      refine ⟨q.afterTake, q.afterTake, q.history_takeUses, ?_, .inl rfl⟩
      rw [List.getElem?_modify_eq, hq]
      rfl
    · rw [if_neg fun same => own (Option.some.inj same)]
      exact .unused (by rw [List.getElem?_modify_ne _ _ own, hq])

/-- A call that is given up leaves the line that it stands in. -/
theorem usedSo_abort (x : Session) {step : Nat} (allowed : x.allows (.abort step))
    (hq : x.system.queues[j]? = some q) :
    UsedSo q (x.stepUses j q (.abort step)) (x.queuesAfter (.abort step)) j := by
  unfold stepUses queuesAfter
  dsimp only
  cases hg : x.given? (.abort step) with
  | none => exact .unused hq
  | some given =>
    obtain ⟨n, φ⟩ := given
    rw [Option.elim_some, Option.elim_some]
    obtain ⟨still, hφ⟩ := given_still allowed hg
    cases φ with
    | inLine k event timer next =>
      unfold Queue.leaveUses System.leaveLine
      dsimp only
      by_cases own : k = j
      · subst own
        rw [if_pos rfl, UsedSo, List.getElem?_modify_eq, hq]
        exact ⟨q.withdraw n, _, .one (.withdrawn (System.standing_of_still still hφ hq)), rfl,
          .inl rfl⟩
      · rw [if_neg own]
        exact .unused (by rw [List.getElem?_modify_ne _ _ own, hq])
    | _ => exact .unused hq

/-- A step uses a queue as its list of uses says, or it takes the receiver away. -/
theorem stepUses_of_perform (x : Session) {step : Step} (allowed : x.allows step)
    (hq : x.system.queues[j]? = some q) : UsedSo q (x.stepUses j q step) (x.queuesAfter step) j := by
  have longer : ∀ more, (x.system.queues ++ more)[j]? = some q := fun more => by
    rw [List.getElem?_append_left (List.getElem?_eq_some_iff.mp hq).1, hq]
  cases step with
  | dequeue id => exact x.usedSo_dequeue id hq
  | dropReceiver id => exact .stopped _ hq
  | makeQueue id capacity timeout =>
    unfold queuesAfter
    dsimp only
    split
    · exact .unused hq
    · exact .stopped _ (longer _)
  | openPublisher id config =>
    unfold queuesAfter
    dsimp only
    split
    · exact .unused (longer _)
    · exact .unused hq
  | drop kind id =>
    cases kind with
    | queue => exact .stopped _ hq
    | _ => exact .unused hq
  | abort step => exact x.usedSo_abort allowed hq
  | _ => exact .unused hq

end Session

/-- What an action does with a queue. -/
theorem Transition.uses_of_after? {a : Action} (h : x.after? a = some y)
    (hq : x.system.queues[j]? = some q) :
    ∃ q₁ q', q.History ((⟨x, a, y⟩ : Transition).uses j q) q₁ ∧ y.system.queues[j]? = some q' ∧
      (q'.core = q₁.core ∨ q'.core = q₁.stopReceiving.core) := by
  have aside : y.system.queues = x.system.queues → (⟨x, a, y⟩ : Transition).uses j q = [] →
      ∃ q₁ q', q.History ((⟨x, a, y⟩ : Transition).uses j q) q₁ ∧
        y.system.queues[j]? = some q' ∧ (q'.core = q₁.core ∨ q'.core = q₁.stopReceiving.core) :=
    fun queues none => ⟨q, q, none ▸ .start, queues ▸ hq, .inl rfl⟩
  cases a with
  | perform step =>
    unfold Session.after? at h
    dsimp only at h
    split at h
    next allowed =>
      obtain rfl := Option.some.inj h
      obtain ⟨q₁, r, history, hr, same⟩ := x.stepUses_of_perform allowed hq
      obtain ⟨q', hq', core⟩ := Session.getElem?_core (x.leaves_perform allowed).queues hr
      refine ⟨q₁, q', history, hq', ?_⟩
      rcases same with rfl | rfl
      · exact .inl core
      · exact .inr core
    next => cases h
  | serve id topic name policy handler =>
    obtain rfl := Option.some.inj h
    exact aside (x.same_serve id topic name policy handler).1 rfl
  | tick moment =>
    unfold Session.after? at h
    dsimp only at h
    split at h
    · obtain rfl := Option.some.inj h
      exact aside rfl rfl
    · cases h
  | report =>
    obtain rfl := Option.some.inj h
    exact aside rfl rfl
  | agent agent =>
    obtain ⟨t, hs, rfl⟩ := Option.map_eq_some_iff.mp h
    cases agent with
    | listener c =>
      obtain ⟨co, host, co', -, -, rfl⟩ := Agent.step?_listener hs
      exact aside rfl rfl
    | consumer i =>
      obtain ⟨k, host, k', -, -, rfl⟩ := Agent.step?_consumer hs
      exact aside rfl rfl
    | redelivery i serial =>
      obtain ⟨entry, -, -, rfl⟩ := Agent.step?_redelivery hs
      exact aside rfl rfl
    | call n =>
      obtain ⟨φ, hφ, steps⟩ := System.callSteps_of_stepCall? hs
      obtain ⟨q₁, q', history, hq', core⟩ := steps.uses hq
      refine ⟨q₁, q', ?_, hq', .inl core⟩
      unfold uses
      dsimp only
      rw [hφ]
      exact history
    | worker i =>
      obtain ⟨p, q₀, host, q', w, hp, hk, hw, rfl⟩ := Agent.step?_worker hs
      by_cases own : p.queue = j
      · subst own
        obtain rfl := Option.some.inj (hk.symm.trans hq)
        obtain ⟨q₁, history, same⟩ := (Worker.step_of_step? hw).uses
        refine ⟨q₁, q', ?_, ?_, same.imp (congrArg _) (congrArg _)⟩
        · unfold uses
          dsimp only
          rw [hp]
          simpa using history
        · change (x.system.queues.modify p.queue fun _ => q')[p.queue]? = some q'
          rw [List.getElem?_modify_eq, hq]
          rfl
      · refine ⟨q, q, ?_, ?_, .inl rfl⟩
        · unfold uses
          dsimp only
          rw [hp]
          simpa [own] using Queue.History.start
        · change (x.system.queues.modify p.queue fun _ => q')[j]? = some q
          rw [List.getElem?_modify_ne _ _ own, hq]

end Script

end ChangeDispatch
