import ChangeDispatch.Proofs.Queue.Uses

/-!
# What producers learn from a queue

A call comes to its queue once, stands in line there until it has its answer, and learns once that
its event was let in. `Traced` says this of a queue in a run, next to the history that the queue
has in the run.
-/
namespace ChangeDispatch

namespace Call.Phase

/-- The call has come to its queue, or it does not bring an event any more. -/
def isCalled : Phase → Bool
  | .inLine .. => true
  | φ => φ.isPast

theorem isCalled_of_isPast {φ : Phase} (h : φ.isPast) : φ.isCalled := by
  cases φ <;> first | rfl | cases h

end Call.Phase

namespace Queue

variable {q : Queue} {n m j : Nat} {φ : Call.Phase} {op : Op} {item : Item}

theorem called_callUses (mem : op ∈ q.callUses n j φ) (called : op.called? = some item) :
    item.ticket = n ∧ ∃ next, φ = .enqueuing j item.event next := by
  unfold callUses at mem
  split at mem
  next k event next =>
    split at mem
    next own =>
      subst own
      split at mem <;>
        (rw [List.mem_singleton.mp mem] at called
         obtain rfl := Option.some.inj called
         exact ⟨rfl, next, rfl⟩)
    next => cases mem
  next =>
    split at mem
    · split at mem <;> (rw [List.mem_singleton.mp mem] at called; cases called)
    · cases mem
  next => cases mem

theorem received?_callUses (mem : op ∈ q.callUses n j φ) : op.received? = none := by
  unfold callUses at mem
  split at mem
  · split at mem
    · split at mem <;> (rw [List.mem_singleton.mp mem]; rfl)
    · cases mem
  · split at mem
    · split at mem <;> (rw [List.mem_singleton.mp mem]; rfl)
    · cases mem
  · cases mem

/-- Who comes to the line has called with an event that is valid, and was not let in. -/
theorem joins_callUses (mem : op ∈ q.callUses n j φ) (joins : op.joins? = some m) :
    m = n ∧ ∃ event next, φ = .enqueuing j event next ∧ event.validate = .ok () ∧
      (q.offer ⟨n, event⟩).1 = .blocked := by
  unfold callUses at mem
  split at mem
  next k event next =>
    split at mem
    next own =>
      subst own
      split at mem
      · rw [List.mem_singleton.mp mem] at joins
        cases joins
      next hv =>
        rw [List.mem_singleton.mp mem] at joins
        unfold Op.joins? at joins
        split at joins
        next item he =>
          obtain ⟨rfl, answer⟩ := Op.offered.inj he
          exact ⟨(Option.some.inj joins).symm, event, next, rfl, hv, answer⟩
        next => cases joins
    next => cases mem
  next =>
    split at mem
    · split at mem <;> (rw [List.mem_singleton.mp mem] at joins; cases joins)
    · cases mem
  next => cases mem

/-- Who stands in line gets an answer. -/
theorem callUses_inLine (q : Queue) (n : Nat) {event : ChangeEvent} {timer : Timer}
    {next : Option WaitHandle} :
    ∃ op, q.callUses n j (.inLine j event timer next) = [op] ∧ op.leaves? = some n := by
  unfold callUses
  dsimp only
  rw [if_pos rfl]
  split <;> exact ⟨_, rfl, rfl⟩

theorem length_takeUses (q : Queue) : q.takeUses.length ≤ 1 := by
  unfold takeUses
  cases q.take? <;> simp

theorem length_callUses (q : Queue) (n j : Nat) (φ : Call.Phase) :
    (q.callUses n j φ).length ≤ 1 := by
  unfold callUses
  split
  · split
    · split <;> exact Nat.le_refl 1
    · exact Nat.zero_le 1
  · split
    · split <;> exact Nat.le_refl 1
    · exact Nat.zero_le 1
  · exact Nat.zero_le 1

theorem length_leaveUses (n j : Nat) (φ : Call.Phase) : (leaveUses n j φ).length ≤ 1 := by
  unfold leaveUses
  split
  · split
    · exact Nat.le_refl 1
    · exact Nat.zero_le 1
  · exact Nat.zero_le 1

theorem mem_takeUses (mem : op ∈ q.takeUses) : ∃ item, op = .received item := by
  unfold takeUses at mem
  obtain ⟨taken, -, rfl⟩ := Option.map_eq_some_iff.mp (Option.mem_toList.mp mem)
  exact ⟨_, rfl⟩

theorem mem_leaveUses (mem : op ∈ leaveUses n j φ) : op = .withdrawn n := by
  unfold leaveUses at mem
  split at mem
  · split at mem
    · exact List.mem_singleton.mp mem
    · cases mem
  · cases mem

end Queue

namespace System

variable {s u : System} {n j : Nat} {φ ψ : Call.Phase} {q : Queue}

/-- A call that comes to its queue, or has come there, does not come there again. -/
theorem CallTrade.called {queues : List Queue} (trade : CallTrade s n φ queues ψ)
    (keeps : φ.isPast → ψ.isPast) (h : φ.isCalled ∨ φ.brings?.isSome) : ψ.isCalled := by
  cases trade with
  | aside brings =>
    refine Call.Phase.isCalled_of_isPast (keeps ?_)
    rw [brings] at h
    have called := h.resolve_right (by decide)
    cases φ <;> first | cases brings; done | exact called
  | accepted _ _ => exact Call.Phase.isCalled_of_isPast (by simp)
  | collected _ _ => exact Call.Phase.isCalled_of_isPast (by simp)
  | _ => rfl

/-- What a step of a call lets the producer know. -/
theorem CallStep.learns (step : CallStep s n φ u ψ) (hq : s.queues[j]? = some q) :
    Queue.taken (q.callUses n j φ) =
      if φ.brings?.map Prod.fst = some j ∧ ψ.isTaken then [n] else [] := by
  have aside : φ.brings? = none → q.callUses n j φ = [] → Queue.taken (q.callUses n j φ) =
      if φ.brings?.map Prod.fst = some j ∧ ψ.isTaken then [n] else [] := fun brings none => by
    rw [none, brings]
    rfl
  -- an answer of queue `k`, which can be another one
  have answer : ∀ {k : Nat} {o : Queue.Op} {event : ChangeEvent},
      φ.brings? = some (k, event) → (k = j → q.callUses n j φ = [o]) →
      (k ≠ j → q.callUses n j φ = []) → (k = j → o.taken? = if ψ.isTaken then some n else none) →
      Queue.taken (q.callUses n j φ) =
        if φ.brings?.map Prod.fst = some j ∧ ψ.isTaken then [n] else [] := by
    intro k op event brings own other taken
    by_cases same : k = j
    · subst same
      rw [own rfl, brings]
      simp only [Queue.taken, List.filterMap_cons, List.filterMap_nil, taken rfl, Option.map_some,
        true_and]
      cases ψ.isTaken <;> rfl
    · rw [other same, brings]
      simp [Queue.taken, same]
  cases step with
  | moved bare _ => exact aside (Call.Phase.brings?_of_isBare bare) (Queue.callUses_of_isBare bare)
  | sent hφ _ => rcases hφ with rfl | ⟨timer, rfl⟩ <;> exact aside rfl rfl
  | stopped hφ => rcases hφ with rfl | rfl <;> exact aside rfl rfl
  | registered _ _ hφ =>
    rcases hφ with ⟨queue, rfl, -⟩ | ⟨token, rfl, -⟩ <;> exact aside rfl rfl
  | answered hφ _ => rcases hφ with rfl | ⟨timer, rfl⟩ <;> exact aside rfl rfl
  | waited _ _ => exact aside rfl rfl
  | invalid he =>
    exact answer rfl (fun own => by simp only [Queue.callUses, if_pos own, he]; rfl)
      (fun other => by simp only [Queue.callUses, if_neg other]) fun _ => rfl
  | refused hv hr =>
    exact answer rfl (fun own => by simp only [Queue.callUses, if_pos own, hv]; rfl)
      (fun other => by simp only [Queue.callUses, if_neg other])
      fun own => by rw [hr q (own ▸ hq)]; rfl
  | @accepted queue event next q₀ q' hv hk ho =>
    refine answer rfl (fun own => by simp only [Queue.callUses, if_pos own, hv]; rfl)
      (fun other => by simp only [Queue.callUses, if_neg other]) fun own => ?_
    obtain rfl := Option.some.inj (hk.symm.trans (own ▸ hq))
    simp [ho, Queue.Op.taken?]
  | @blocked queue event next timer q₀ q' hv hk ho _ =>
    refine answer rfl (fun own => by simp only [Queue.callUses, if_pos own, hv]; rfl)
      (fun other => by simp only [Queue.callUses, if_neg other]) fun own => ?_
    obtain rfl := Option.some.inj (hk.symm.trans (own ▸ hq))
    rw [ho]
    rfl
  | @collected queue event next timer q₀ hk hs =>
    refine answer (o := .told n) rfl (fun own => ?_)
      (fun other => by simp only [Queue.callUses, if_neg other]) fun _ => by simp [Queue.Op.taken?]
    obtain rfl := Option.some.inj (hk.symm.trans (own ▸ hq))
    simp only [Queue.callUses, if_pos own, hs]
  | dismissed hr =>
    refine answer (o := .dismissed n) rfl (fun own => ?_)
      (fun other => by simp only [Queue.callUses, if_neg other]) fun _ => rfl
    simp only [Queue.callUses, if_pos own, hr q (own ▸ hq)]
  | @withdrawn queue event next timer q₀ hk hs _ =>
    refine answer (o := .withdrawn n) rfl (fun own => ?_)
      (fun other => by simp only [Queue.callUses, if_neg other]) fun _ => rfl
    obtain rfl := Option.some.inj (hk.symm.trans (own ▸ hq))
    simp only [Queue.callUses, if_pos own, hs]

/-- What becomes of a call that comes to its queue. -/
theorem CallStep.of_enqueuing {event : ChangeEvent} {next : Option WaitHandle}
    (step : CallStep s n (.enqueuing j event next) u ψ) :
    (∃ e, event.validate = .error e ∧ u.queues = s.queues ∧
      ψ = .ended s.host.now (.failed e)) ∨
    event.validate = .ok () ∧
      ((∀ q, s.queues[j]? = some q → (q.offer ⟨n, event⟩).1 = .refused) ∧ u.queues = s.queues ∧
        ψ = .ended s.host.now (.failed .closed) ∨
      ∃ q q', s.queues[j]? = some q ∧
        (q.offer ⟨n, event⟩ = (.accepted, q') ∧ ψ = .afterQueued s.host.now next ∨
          q.offer ⟨n, event⟩ = (.blocked, q') ∧ ∃ timer, ψ = .inLine j event timer next)) := by
  cases step with
  | invalid he => exact .inl ⟨_, he, (UpToRegistries.letGo s next).queues, rfl⟩
  | refused hv hr =>
    exact .inr ⟨hv, .inl ⟨hr, (UpToRegistries.letGo s next).queues, rfl⟩⟩
  | accepted hv hq ho => exact .inr ⟨hv, .inr ⟨_, _, hq, .inl ⟨ho, rfl⟩⟩⟩
  | blocked hv hq ho _ => exact .inr ⟨hv, .inr ⟨_, _, hq, .inr ⟨ho, _, rfl⟩⟩⟩
  | moved bare _ => cases bare
  | sent hφ _ => rcases hφ with h | ⟨_, h⟩ <;> cases h
  | stopped hφ => rcases hφ with h | h <;> cases h
  | registered _ _ hφ => rcases hφ with ⟨_, h, -⟩ | ⟨_, h, -⟩ <;> cases h
  | answered hφ _ => rcases hφ with h | ⟨_, h⟩ <;> cases h

/-- Who comes to the line stands there. -/
theorem CallStep.joins (step : CallStep s n φ u ψ) (hq : s.queues[j]? = some q) {op : Queue.Op}
    {m : Nat} (mem : op ∈ q.callUses n j φ) (joins : op.joins? = some m) :
    m = n ∧ ∃ event timer next, ψ = .inLine j event timer next := by
  obtain ⟨own, event, next, rfl, hv, answer⟩ := Queue.joins_callUses mem joins
  refine ⟨own, ?_⟩
  rcases step.of_enqueuing with ⟨e, he, -, -⟩ |
    ⟨-, ⟨hr, -, -⟩ | ⟨r, q', hr, ⟨ho, -⟩ | ⟨-, timer, rfl⟩⟩⟩
  · cases hv.symm.trans he
  · cases (hr q hq).symm.trans answer
  · obtain rfl := Option.some.inj (hr.symm.trans hq)
    rw [ho] at answer
    cases answer
  · exact ⟨event, timer, next, rfl⟩

end System

namespace Script

variable {ts : List Transition} {x y z : Session} {a : Action} {n j : Nat} {φ : Call.Phase}
  {q q' : Queue} {t : Transition} {op : Queue.Op}

/-! ## The producer that acts -/

/-- The call that makes a step, or is given up, with its phase before. -/
def Transition.actor? (t : Transition) : Option (Nat × Call.Phase) :=
  match t.action with
  | .agent (.call n) => (t.before.system.phase? n).map fun φ => (n, φ)
  | .perform step => t.before.given? step
  | _ => none

/-- A step of the script can happen, and this is what it leaves. -/
theorem Session.leaves_of_after? {step : Step} (h : x.after? (.perform step) = some y) :
    x.Leaves step y ∧ x.allows step := by
  unfold after? at h
  dsimp only at h
  split at h
  next allowed => exact Option.some.inj h ▸ ⟨x.leaves_perform allowed, allowed⟩
  next => cases h

/-- A call that is not the one that acts stays in its phase. -/
theorem phase?_of_inactive (h : x.after? a = some y) (hφ : x.system.phase? n = some φ)
    (others : ∀ ψ, (⟨x, a, y⟩ : Transition).actor? ≠ some (n, ψ)) :
    y.system.phase? n = some φ := by
  have same : y.system.calls = x.system.calls → y.system.phase? n = some φ := fun calls =>
    phase?_of_append (calls.trans (List.append_nil _).symm) hφ
  cases a with
  | perform step => exact (Session.leaves_of_after? h).1.phases n φ hφ others
  | serve id topic name policy handler =>
    obtain rfl := Option.some.inj h
    exact same (x.same_serve id topic name policy handler).2
  | tick moment =>
    unfold Session.after? at h
    dsimp only at h
    split at h
    · exact Option.some.inj h ▸ hφ
    · cases h
  | report => exact Option.some.inj h ▸ hφ
  | agent agent =>
    obtain ⟨s, hs, rfl⟩ := Option.map_eq_some_iff.mp h
    cases agent with
    | listener c =>
      obtain ⟨co, host, co', -, -, rfl⟩ := Agent.step?_listener hs
      exact hφ
    | consumer i =>
      obtain ⟨k, host, k', -, -, rfl⟩ := Agent.step?_consumer hs
      exact hφ
    | redelivery i serial =>
      obtain ⟨entry, -, -, rfl⟩ := Agent.step?_redelivery hs
      exact hφ
    | worker i =>
      obtain ⟨p, q, host, q', w, -, -, -, rfl⟩ := Agent.step?_worker hs
      exact hφ
    | call m =>
      obtain ⟨χ, hχ, u, ψ, step, quiet⟩ := System.callSteps_of_stepCall? hs
      have other : m ≠ n := by
        rintro rfl
        exact others χ (congrArg (Option.map fun φ => (m, φ)) hχ)
      have calls : s.calls = x.system.calls.modify m fun c => { c with phase := ψ } :=
        quiet.calls.trans (congrArg (List.modify · m _) step.calls_eq)
      exact (phase?_of_modify calls).trans ((if_neg other).trans hφ)

/-- What an action does with a queue is a receipt, or what the call that acts does there. -/
theorem Transition.mem_uses (h : op ∈ t.uses j q) :
    (∃ item, op = .received item) ∨ ∃ n φ, t.actor? = some (n, φ) ∧
      (t.action = .agent (.call n) ∧ op ∈ q.callUses n j φ ∨ op ∈ Queue.leaveUses n j φ) := by
  unfold uses at h
  split at h
  next m ha =>
    cases hφ : t.before.system.phase? m with
    | none => rw [hφ] at h; cases h
    | some φ =>
      rw [hφ] at h
      refine .inr ⟨m, φ, ?_, .inl ⟨ha, h⟩⟩
      unfold actor?
      rw [ha]
      dsimp only
      rw [hφ]
      rfl
  · split at h
    · exact .inl (Queue.mem_takeUses h)
    · cases h
  next step ha =>
    have left : ∀ {g : Option (Nat × Call.Phase)}, t.before.given? step = g →
        op ∈ g.elim [] (fun given => Queue.leaveUses given.1 j given.2) →
        ∃ n φ, t.actor? = some (n, φ) ∧ op ∈ Queue.leaveUses n j φ := by
      rintro (- | ⟨n, φ⟩) hg mem
      · cases mem
      · refine ⟨n, φ, ?_, mem⟩
        unfold actor?
        rw [ha]
        exact hg
    unfold Session.stepUses at h
    split at h
    · split at h
      · exact .inl (Queue.mem_takeUses h)
      · cases h
    · obtain ⟨n, φ, actor, mem⟩ := left rfl h
      exact .inr ⟨n, φ, actor, .inr mem⟩
  · cases h

theorem Transition.length_uses (t : Transition) (j : Nat) (q : Queue) :
    (t.uses j q).length ≤ 1 := by
  unfold uses
  split
  next m _ =>
    cases t.before.system.phase? m with
    | none => exact Nat.zero_le 1
    | some φ => exact q.length_callUses m j φ
  · split
    · exact q.length_takeUses
    · exact Nat.zero_le 1
  next step _ =>
    unfold Session.stepUses
    split
    · split
      · exact q.length_takeUses
      · exact Nat.zero_le 1
    · cases t.before.given? step with
      | none => exact Nat.zero_le 1
      | some given => exact Queue.length_leaveUses given.1 j given.2
  · exact Nat.zero_le 1

/-- Who stands in line and acts gets an answer. -/
theorem Transition.uses_inLine {event : ChangeEvent} {timer : Timer} {next : Option WaitHandle}
    (actor : t.actor? = some (n, .inLine j event timer next)) :
    ∃ op ∈ t.uses j q, op.leaves? = some n := by
  unfold actor? at actor
  split at actor
  next m ha =>
    obtain ⟨φ, hφ, same⟩ := Option.map_eq_some_iff.mp actor
    obtain ⟨rfl, rfl⟩ := Prod.mk.inj same
    obtain ⟨op, uses, leaves⟩ := q.callUses_inLine m
    refine ⟨op, ?_, leaves⟩
    unfold Transition.uses
    rw [ha]
    dsimp only
    rw [hφ, Option.elim_some, uses]
    exact List.mem_cons_self
  next step ha =>
    refine ⟨.withdrawn n, ?_, rfl⟩
    have left : t.before.stepUses j q step = [.withdrawn n] := by
      cases step with
      | abort step =>
        unfold Session.stepUses
        dsimp only
        rw [actor]
        exact if_pos rfl
      | _ => cases actor
    unfold Transition.uses
    rw [ha]
    dsimp only
    rw [left]
    exact List.mem_cons_self
  next => cases actor

/-- Who calls at a queue has not been there. -/
theorem Transition.called_uses {item : Item} (mem : op ∈ t.uses j q)
    (called : op.called? = some item) : t.action = .agent (.call item.ticket) ∧
      ∃ next, t.before.system.phase? item.ticket = some (.enqueuing j item.event next) := by
  rcases Transition.mem_uses mem with ⟨item, rfl⟩ | ⟨n, φ, actor, ⟨ha, mem⟩ | mem⟩
  · cases called
  · obtain ⟨rfl, next, rfl⟩ := Queue.called_callUses mem called
    unfold Transition.actor? at actor
    rw [ha] at actor
    obtain ⟨χ, hχ, same⟩ := Option.map_eq_some_iff.mp actor
    exact ⟨ha, next, (Prod.mk.inj same).2 ▸ hχ⟩
  · rw [Queue.mem_leaveUses mem] at called
    cases called

theorem Transition.ordinary_uses (mem : op ∈ t.uses j q) : op.isOrdinary := by
  rcases Transition.mem_uses mem with ⟨item, rfl⟩ | ⟨n, φ, -, ⟨-, mem⟩ | mem⟩
  · rfl
  · exact Queue.ordinary_callUses mem
  · rw [Queue.mem_leaveUses mem]
    rfl

/-- What a producer learns from a queue is what the run shows of it. -/
theorem Transition.taken_uses (h : x.after? a = some y) (hq : x.system.queues[j]? = some q) :
    Queue.taken ((⟨x, a, y⟩ : Transition).uses j q) =
      ((⟨x, a, y⟩ : Transition).brought? j Call.Phase.isTaken).toList := by
  by_cases call : ∃ n, a = .agent (.call n)
  · obtain ⟨n, rfl⟩ := call
    obtain ⟨s, hs, rfl⟩ := Option.map_eq_some_iff.mp h
    obtain ⟨φ, hφ, u, ψ, step, quiet⟩ := System.callSteps_of_stepCall? hs
    have calls : s.calls = x.system.calls.modify n fun c => { c with phase := ψ } :=
      quiet.calls.trans (congrArg (List.modify · n _) step.calls_eq)
    have after : s.phase? n = some ψ := by
      rw [phase?_of_modify calls, if_pos rfl, hφ]
      rfl
    have learns := step.learns hq
    unfold uses brought?
    dsimp only
    rw [hφ, after, Option.elim_some, learns, Option.bind_some]
    simp only [Option.any_some]
    split <;> rfl
  · have others : ∀ n, a ≠ .agent (.call n) := fun n own => call ⟨n, own⟩
    rw [brought?_eq_none others]
    refine List.filterMap_eq_nil_iff.mpr fun op mem => ?_
    rcases Transition.mem_uses mem with ⟨item, rfl⟩ | ⟨n, φ, -, ⟨own, -⟩ | mem⟩
    · rfl
    · exact absurd own (others n)
    · rw [Queue.mem_leaveUses mem]
      rfl

/-- Who comes to the line stands there. -/
theorem Transition.joins_uses (h : x.after? a = some y) (hq : x.system.queues[j]? = some q)
    (mem : op ∈ (⟨x, a, y⟩ : Transition).uses j q) (joins : op.joins? = some n) :
    ∃ event timer next, y.system.phase? n = some (.inLine j event timer next) := by
  rcases Transition.mem_uses mem with ⟨item, rfl⟩ | ⟨m, φ, actor, ⟨own, used⟩ | left⟩
  · cases joins
  · dsimp only at own
    subst own
    obtain ⟨χ, hφ, same⟩ := Option.map_eq_some_iff.mp actor
    obtain rfl := (Prod.mk.inj same).2
    obtain ⟨s, hs, rfl⟩ := Option.map_eq_some_iff.mp h
    obtain ⟨φ, hφ', u, ψ, step, quiet⟩ := System.callSteps_of_stepCall? hs
    obtain rfl := Option.some.inj (hφ.symm.trans hφ')
    obtain ⟨rfl, event, timer, next, rfl⟩ := step.joins hq used joins
    have calls : s.calls = x.system.calls.modify n fun c =>
        { c with phase := .inLine j event timer next } :=
      quiet.calls.trans (congrArg (List.modify · n _) step.calls_eq)
    refine ⟨event, timer, next, ?_⟩
    dsimp only at hφ ⊢
    rw [phase?_of_modify calls, if_pos rfl, hφ]
    rfl
  · rw [Queue.mem_leaveUses left] at joins
    cases joins

/-- A call that comes to its queue, or has come there, has come there afterwards. -/
theorem called_of_after? (h : x.after? a = some y) (hφ : x.system.phase? n = some φ)
    (called : φ.isCalled ∨ a = .agent (.call n) ∧ φ.brings?.isSome) :
    ∃ ψ, y.system.phase? n = some ψ ∧ ψ.isCalled := by
  have same : ∀ {more : List Call}, y.system.calls = x.system.calls ++ more →
      (∀ n, a ≠ .agent (.call n)) → ∃ ψ, y.system.phase? n = some ψ ∧ ψ.isCalled :=
    fun calls others => ⟨φ, phase?_of_append calls hφ,
      called.resolve_right fun own => others n own.1⟩
  cases Session.trades_of_after? h with
  | quiet others calls _ _ => exact same calls others
  | opened others calls _ _ _ _ _ _ _ =>
    exact same (calls.trans (List.append_nil _).symm) others
  | @aborted _ _ m c others _ _ calls _ _ =>
    rw [phase?_of_modify calls, hφ]
    by_cases own : m = n
    · exact ⟨.aborted, if_pos own, rfl⟩
    · exact ⟨φ, if_neg own, called.resolve_right fun own => others n own.1⟩
  | @called m χ ψ t queues hχ trade keeps calls _ _ =>
    rw [phase?_of_modify calls, hφ]
    by_cases own : m = n
    · subst own
      obtain rfl := Option.some.inj (hχ.symm.trans hφ)
      exact ⟨ψ, if_pos rfl, trade.called keeps (called.imp_right And.right)⟩
    · refine ⟨φ, if_neg own, called.resolve_right fun acts => own ?_⟩
      exact Agent.call.inj (Action.agent.inj acts.1)
  | worked _ _ _ calls _ _ =>
    exact same (calls.trans (List.append_nil _).symm) (by simp)

end Script

end ChangeDispatch
