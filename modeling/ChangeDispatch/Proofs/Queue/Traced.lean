import ChangeDispatch.Proofs.Publisher.Conservation
import ChangeDispatch.Proofs.Queue.Producers

/-!
# A queue in a run

What a run does with a queue is a history of a queue that was new; its producers stand in line as
long as the queue says so, and know of an event that it was let in when the run shows it. An action
that makes the queue begins all of this, and every other action keeps it.
-/
namespace ChangeDispatch

namespace Queue

theorem calls_append (ops more : List Op) : calls (ops ++ more) = calls ops ++ calls more :=
  List.filterMap_append

theorem taken_append (ops more : List Op) : taken (ops ++ more) = taken ops ++ taken more :=
  List.filterMap_append

theorem receipts_append (ops more : List Op) :
    receipts (ops ++ more) = receipts ops ++ receipts more :=
  List.filterMap_append

/-- What the flags tell of a queue are no uses of a producer or the receiver. -/
theorem of_endings (q q' : Queue) : calls (q.endings q') = [] ∧ taken (q.endings q') = [] ∧
    receipts (q.endings q') = [] := by
  unfold endings
  split <;> split <;> exact ⟨rfl, rfl, rfl⟩

end Queue

namespace Script

variable {ts : List Transition} {x y z : Session} {a : Action} {n j : Nat} {q q' : Queue}

theorem queueHistory_cons (t : Transition) (ts : List Transition) (j : Nat) :
    queueHistory (t :: ts) j = queueHistory ts j ++ t.queueOps j := by
  unfold queueHistory
  rw [List.reverse_cons, List.flatMap_append, List.flatMap_singleton]

/-- Queue `j` in a run, and the producers that use it. -/
structure Traced (ts : List Transition) (z : Session) (j : Nat) (q : Queue) : Prop where
  history : (Queue.ofCapacity q.capacity q.timeout).History (queueHistory ts j) q
  called : ∀ item ∈ Queue.calls (queueHistory ts j),
    ∃ φ, z.system.phase? item.ticket = some φ ∧ φ.isCalled
  distinct : ((Queue.calls (queueHistory ts j)).map Item.ticket).Nodup
  waiting : ∀ n ∈ q.lined ++ q.promised,
    ∃ event timer next, z.system.phase? n = some (.inLine j event timer next)
  taken : Queue.taken (queueHistory ts j) = (accepted ts j).reverse

namespace Traced

theorem steady (traced : Traced ts z j q) : q.Steady :=
  traced.history.steady (Queue.new_ofCapacity ..).steady

theorem apart (traced : Traced ts z j q) : ∀ n ∈ q.lined, n ∉ q.promised := by
  obtain ⟨lost, ordered⟩ := traced.history.ordered (Queue.new_ofCapacity ..)
  exact ordered.apart traced.distinct

/-- Who stands in line after an action stood there before and has not acted, or has just come. -/
theorem stillWaiting (traced : Traced ts x j q) (h : x.after? a = some y)
    (hq : x.system.queues[j]? = some q)
    (used : q.History ((⟨x, a, y⟩ : Transition).uses j q) q') (hn : n ∈ q'.lined ++ q'.promised) :
    ∃ event timer next, y.system.phase? n = some (.inLine j event timer next) := by
  -- a call that acts while it stands in line has its answer then
  have kept : n ∈ q.lined ++ q.promised →
      (∀ op ∈ (⟨x, a, y⟩ : Transition).uses j q, op.leaves? ≠ some n) →
      ∃ event timer next, y.system.phase? n = some (.inLine j event timer next) := by
    intro before unanswered
    obtain ⟨event, timer, next, hφ⟩ := traced.waiting n before
    refine ⟨event, timer, next, phase?_of_inactive h hφ fun ψ acts => ?_⟩
    obtain rfl : ψ = .inLine j event timer next := by
      unfold Transition.actor? at acts
      split at acts
      · obtain ⟨χ, hχ, same⟩ := Option.map_eq_some_iff.mp acts
        obtain ⟨rfl, rfl⟩ := Prod.mk.inj same
        exact Option.some.inj (hχ.symm.trans hφ)
      next step ha =>
        dsimp only at ha
        subst ha
        cases step with
        | abort step =>
          have given := (Session.given_still (Session.leaves_of_after? h).2 acts).2
          exact Option.some.inj (given.symm.trans hφ)
        | _ => cases acts
      next => cases acts
    obtain ⟨op, mem, leaves⟩ := Transition.uses_inLine (q := q) acts
    exact unanswered op mem leaves
  rcases used.single (Transition.length_uses _ j q) with ⟨none, rfl⟩ | ⟨op, one, does⟩
  · exact kept hn fun op mem => by rw [none] at mem; cases mem
  · rcases does.waiting traced.apart hn with ⟨before, unanswered⟩ | joins
    · refine kept before fun o mem => ?_
      rw [one] at mem
      rwa [List.mem_singleton.mp mem]
    · exact Transition.joins_uses h hq (one ▸ List.mem_singleton.mpr rfl) joins

/-- What calls an action makes at a queue. -/
theorem calls_uses (traced : Traced ts x j q) (h : x.after? a = some y)
    (hq : x.system.queues[j]? = some q) :
    (∀ item ∈ Queue.calls (queueHistory ts j ++ (⟨x, a, y⟩ : Transition).uses j q),
      ∃ φ, y.system.phase? item.ticket = some φ ∧ φ.isCalled) ∧
    ((Queue.calls (queueHistory ts j ++ (⟨x, a, y⟩ : Transition).uses j q)).map
      Item.ticket).Nodup := by
  rw [Queue.calls_append]
  have old : ∀ item ∈ Queue.calls (queueHistory ts j),
      ∃ φ, y.system.phase? item.ticket = some φ ∧ φ.isCalled := by
    intro item mem
    obtain ⟨φ, hφ, called⟩ := traced.called item mem
    exact called_of_after? h hφ (.inl called)
  obtain ⟨q', r, used, -, -⟩ := Transition.uses_of_after? h hq
  rcases used.single (Transition.length_uses _ j q) with ⟨none, -⟩ | ⟨op, one, -⟩
  · rw [none, show Queue.calls [] = [] from rfl, List.append_nil]
    exact ⟨old, traced.distinct⟩
  · rw [one, show Queue.calls [op] = op.called?.toList from Queue.calls_next [] op]
    cases called : op.called? with
    | none =>
      rw [Option.toList_none, List.append_nil]
      exact ⟨old, traced.distinct⟩
    | some item =>
      obtain ⟨ha, next, hφ⟩ := Transition.called_uses (one ▸ List.mem_singleton.mpr rfl) called
      dsimp only at ha hφ
      have new : item.ticket ∉ (Queue.calls (queueHistory ts j)).map Item.ticket := by
        intro mem
        obtain ⟨other, mem, same⟩ := List.mem_map.mp mem
        obtain ⟨φ, hφ', called⟩ := traced.called other mem
        rw [same, hφ] at hφ'
        obtain rfl := Option.some.inj hφ'
        cases called
      refine ⟨fun other mem => ?_, ?_⟩
      · rcases List.mem_append.mp mem with mem | mem
        · exact old other mem
        · rw [Option.toList_some, List.mem_singleton] at mem
          exact mem ▸ called_of_after? h hφ (.inr ⟨ha, rfl⟩)
      · rw [Option.toList_some, List.map_append, List.map_singleton]
        exact (List.perm_append_singleton _ _).nodup_iff.mpr
          (List.nodup_cons.mpr ⟨new, traced.distinct⟩)

/-- An action keeps what is so of a queue that there is. -/
theorem next (traced : Traced ts x j q) (h : x.after? a = some y)
    (hq : x.system.queues[j]? = some q) (hq' : y.system.queues[j]? = some q') :
    Traced (⟨x, a, y⟩ :: ts) y j q' := by
  obtain ⟨q₁, r, used, hr, same⟩ := Transition.uses_of_after? h hq
  obtain rfl := Option.some.inj (hr.symm.trans hq')
  obtain ⟨s, hs, onward⟩ := (Session.onward_of_after? h).queues j q hq
  obtain rfl := Option.some.inj (hs.symm.trans hq')
  have flags := used.flags fun op => Transition.ordinary_uses
  have history : (Queue.ofCapacity q.capacity q.timeout).History
      (queueHistory (⟨x, a, y⟩ :: ts) j) s := by
    have ended := (traced.history.trans used).endings (used.steady traced.steady)
      (fun isOpen => flags.1.trans (onward.isOpen isOpen)) same
    have seen : q₁.endings s = q.endings s := by
      unfold Queue.endings
      rw [flags.1, flags.2]
    rw [seen, List.append_assoc] at ended
    rw [queueHistory_cons, Transition.queueOps]
    dsimp only
    rw [hq, hs]
    exact ended
  have uses : queueHistory (⟨x, a, y⟩ :: ts) j =
      queueHistory ts j ++ (⟨x, a, y⟩ : Transition).uses j q ++ q.endings s := by
    rw [queueHistory_cons, Transition.queueOps]
    dsimp only
    rw [hq, hs, List.append_assoc]
  obtain ⟨noCalls, noneTaken, -⟩ := q.of_endings s
  obtain ⟨called, distinct⟩ := traced.calls_uses h hq
  refine ⟨?_, ?_, ?_, fun n hn => ?_, ?_⟩
  · obtain ⟨capacity, timeout⟩ := history.settings
    obtain ⟨capacity₀, timeout₀⟩ := traced.history.settings
    rw [capacity.trans capacity₀.symm, timeout.trans timeout₀.symm]
    exact history
  · rw [uses, Queue.calls_append, noCalls, List.append_nil]
    exact called
  · rw [uses, Queue.calls_append, noCalls, List.append_nil]
    exact distinct
  · refine traced.stillWaiting h hq used ?_
    rcases same with core | core
    · obtain ⟨-, lined, promised⟩ := Queue.of_core core
      rwa [lined, promised] at hn
    · obtain ⟨-, lined, promised⟩ := Queue.of_core core
      rw [lined, promised] at hn
      exact List.mem_append_right _ hn
  · rw [uses, Queue.taken_append, noneTaken, List.append_nil, Queue.taken_append, traced.taken,
      Transition.taken_uses h hq, accepted_cons, List.reverse_append]
    cases (⟨x, a, y⟩ : Transition).brought? j Call.Phase.isTaken <;> rfl

end Traced

/-! ## A queue that is new -/

theorem queues_none_of_after? (h : x.after? a = some y) (absent : y.system.queues[j]? = none) :
    x.system.queues[j]? = none :=
  List.getElem?_eq_none (Nat.le_trans (queues_le_of_after? h)
    (List.getElem?_eq_none_iff.mp absent))

/-- Nothing has been done with a queue that there is not yet. -/
theorem queueHistory_eq_nil (run : Runs ts z) (absent : z.system.queues[j]? = none) :
    queueHistory ts j = [] := by
  induction run with
  | start => rfl
  | next _ h ih =>
    have before := queues_none_of_after? h absent
    rw [queueHistory_cons, ih before, Transition.queueOps]
    dsimp only
    rw [before, absent]
    rfl

/-- The queues that a step of a script makes are new. -/
theorem Session.new_of_queuesAfter (owning : Owning x) {step : Step}
    (absent : x.system.queues[j]? = none) (hq : (x.queuesAfter step)[j]? = some q) :
    q = .ofCapacity q.capacity q.timeout := by
  have length : (x.queuesAfter step).length = x.system.queues.length →
      q = .ofCapacity q.capacity q.timeout := fun same => by
    have bound := (List.getElem?_eq_some_iff.mp hq).1
    have beyond := List.getElem?_eq_none_iff.mp absent
    omega
  have made : ∀ {capacity : Nat} {timeout : Duration},
      (x.system.queues ++ [Queue.ofCapacity capacity timeout])[j]? = some q →
      q = .ofCapacity q.capacity q.timeout := by
    intro capacity timeout made
    rcases getElem?_concat_cases made with old | ⟨-, rfl⟩
    · cases absent.symm.trans old
    · unfold Queue.ofCapacity
      simp
  -- a queue that has a name is not new
  have stopped : ∀ {id : String} {queues : List Queue},
      ((x.queues.find? id).elim queues fun i => queues.modify i Queue.stopReceiving)[j]? =
        some q → queues[j]? = some q := by
    intro id queues h
    cases hi : x.queues.find? id with
    | none =>
      rw [hi] at h
      exact h
    | some i =>
      have known := owning.own i (Names.mem_of_find? hi)
      have beyond := List.getElem?_eq_none_iff.mp absent
      have other : i ≠ j := by omega
      rwa [hi, Option.elim_some, List.getElem?_modify_ne _ _ other] at h
  cases step with
  | dequeue id =>
    refine length ?_
    unfold queuesAfter
    dsimp only
    cases x.queues.find? id with
    | none => rfl
    | some i => exact List.length_modify ..
  | dropReceiver id => cases absent.symm.trans (stopped hq)
  | makeQueue id capacity timeout =>
    unfold queuesAfter at hq
    dsimp only at hq
    split at hq
    · cases absent.symm.trans hq
    · exact made (stopped hq)
  | openPublisher id config =>
    unfold queuesAfter at hq
    dsimp only at hq
    split at hq
    · exact made hq
    · cases absent.symm.trans hq
  | drop kind id =>
    cases kind with
    | queue => cases absent.symm.trans (stopped hq)
    | _ => cases absent.symm.trans hq
  | abort step =>
    refine length ?_
    unfold queuesAfter
    dsimp only
    cases x.given? (.abort step) with
    | none => rfl
    | some given => exact System.length_leaveLine ..
  | _ => cases absent.symm.trans hq

/-- A queue that an action makes is new, but for the flags. -/
theorem new_of_after? (owning : Owning x) (h : x.after? a = some y)
    (absent : x.system.queues[j]? = none) (hq : y.system.queues[j]? = some q) :
    q.core = (Queue.ofCapacity q.capacity q.timeout).core := by
  have length : y.system.queues.length = x.system.queues.length →
      q.core = (Queue.ofCapacity q.capacity q.timeout).core := fun same => by
    have bound := (List.getElem?_eq_some_iff.mp hq).1
    have beyond := List.getElem?_eq_none_iff.mp absent
    omega
  cases a with
  | perform step =>
    obtain ⟨r, hr, core⟩ :=
      exists_of_map_eq (Session.leaves_of_after? h).1.queues hq
    have new := Session.new_of_queuesAfter owning absent hr
    have capacity := (Queue.of_core core).1
    have timeout : q.core.timeout = r.core.timeout := by rw [core]
    rw [core, capacity, show q.timeout = r.timeout from timeout, ← new]
  | serve id topic name policy handler =>
    obtain rfl := Option.some.inj h
    exact length (congrArg List.length (x.same_serve id topic name policy handler).1)
  | tick moment =>
    unfold Session.after? at h
    dsimp only at h
    split at h
    · obtain rfl := Option.some.inj h
      exact length rfl
    · cases h
  | report =>
    obtain rfl := Option.some.inj h
    exact length rfl
  | agent agent =>
    obtain ⟨s, hs, rfl⟩ := Option.map_eq_some_iff.mp h
    cases agent with
    | listener c =>
      obtain ⟨co, host, co', -, -, rfl⟩ := Agent.step?_listener hs
      exact length rfl
    | consumer i =>
      obtain ⟨k, host, k', -, -, rfl⟩ := Agent.step?_consumer hs
      exact length rfl
    | redelivery i serial =>
      obtain ⟨entry, -, -, rfl⟩ := Agent.step?_redelivery hs
      exact length rfl
    | worker i =>
      obtain ⟨p, q, host, q', w, -, -, -, rfl⟩ := Agent.step?_worker hs
      exact length (List.length_modify ..)
    | call m =>
      obtain ⟨φ, -, u, ψ, step, quiet⟩ := System.callSteps_of_stepCall? hs
      have same := congrArg List.length quiet.queues
      rw [List.length_map, List.length_map] at same
      exact length (same.trans step.trade.1.length_eq)

theorem Traced.start (run : Runs ts x) (h : x.after? a = some y)
    (absent : x.system.queues[j]? = none) (hq : y.system.queues[j]? = some q) :
    Traced (⟨x, a, y⟩ :: ts) y j q := by
  have core := new_of_after? run.owning h absent hq
  have beyond := List.getElem?_eq_none_iff.mp absent
  have history : queueHistory (⟨x, a, y⟩ :: ts) j =
      (Queue.ofCapacity q.capacity q.timeout).endings q := by
    rw [queueHistory_cons, queueHistory_eq_nil run absent, Transition.queueOps]
    dsimp only
    rw [absent, hq]
    rfl
  obtain ⟨noCalls, noneTaken, -⟩ := (Queue.ofCapacity q.capacity q.timeout).of_endings q
  have none : accepted (⟨x, a, y⟩ :: ts) j = [] := by
    refine List.eq_nil_iff_forall_not_mem.mpr fun n mem => ?_
    rw [accepted_cons] at mem
    rcases List.mem_append.mp mem with mem | mem
    · exact Nat.lt_irrefl _ (Nat.lt_of_lt_of_le (queue_of_taken h (Option.mem_toList.mp mem)) beyond)
    · exact Nat.lt_irrefl _ (Nat.lt_of_lt_of_le (run.told.known j n mem) beyond)
  refine ⟨?_, ?_, ?_, fun n hn => ?_, ?_⟩
  · rw [history]
    exact Queue.History.start.endings (Queue.new_ofCapacity ..).steady (fun _ => rfl) (.inl core)
  · rw [history, noCalls]
    exact fun item mem => nomatch mem
  · rw [history, noCalls]
    exact .nil
  · obtain ⟨-, lined, promised⟩ := Queue.of_core core
    rw [lined, promised] at hn
    cases hn
  · rw [history, noneTaken, none]
    rfl

/-- Every queue of a run is traced. -/
theorem Runs.traced (run : Runs ts z) (hq : z.system.queues[j]? = some q) : Traced ts z j q := by
  induction run generalizing q with
  | start => cases hq
  | @next ts x y a run h ih =>
    cases before : x.system.queues[j]? with
    | none => exact .start run h before hq
    | some q₀ => exact (ih before).next h before hq

end Script

end ChangeDispatch
