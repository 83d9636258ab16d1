import ChangeDispatch.Proofs.Queue.Traced
import ChangeDispatch.Proofs.Shutdown.Stages

/-!
# First in, first out

What is received from a queue are the events that were let in, in the order in which their
producers came, as far as the receiver has got. A producer comes with the first step of its call:
the tickets say in which order calls were made, and calls that run at once need not come in it.
That the line is served in its order is what the queue is assumed to do.
-/
namespace ChangeDispatch.Script

variable {ts : List Transition} {x y z : Session} {a : Action} {t : Transition} {n j : Nat}
  {q q' : Queue}

/-! ## What is received -/

/-- The event that the caller, or a worker that held none, has from queue `j` after an action. -/
def Transition.received? (t : Transition) (j : Nat) : Option ChangeEvent :=
  match t.action with
  | .perform (.dequeue id) =>
    if t.before.queues.find? id = some j then
      match (t.before.dequeue id).1 with
      | .dequeued event => some event
      | _ => none
    else none
  | .agent (.worker i) =>
    match t.before.system.publishers[i]?, t.after.system.publishers[i]? with
    | some p, some p' =>
      if p.queue = j then
        (if p.worker.phase.item? = none then p'.worker.phase.item? else none).map Item.event
      else none
    | _, _ => none
  | _ => none

/-- The events that a run receives from queue `j`, in this order. -/
def received (ts : List Transition) (j : Nat) : List ChangeEvent :=
  ts.reverse.filterMap fun t => t.received? j

theorem received_cons (t : Transition) (ts : List Transition) (j : Nat) :
    received (t :: ts) j = received ts j ++ (t.received? j).toList := by
  unfold received
  rw [List.reverse_cons, List.filterMap_append, List.filterMap_cons]
  cases t.received? j <;> rfl

/-- What the caller has from a queue is what it receives there. -/
theorem Transition.received?_dequeue (x y : Session) (id : String) :
    ((⟨x, .perform (.dequeue id), y⟩ : Transition).received? j).toList =
      (x.system.queues[j]?).elim [] fun q =>
        (Queue.receipts (if x.queues.find? id = some j then q.takeUses else [])).map
          Item.event := by
  unfold Transition.received? Session.dequeue
  dsimp only
  by_cases named : x.queues.find? id = some j
  · simp only [if_pos named]
    rw [named, Option.bind_some]
    unfold Queue.takeUses
    cases x.system.queues[j]? with
    | none => rfl
    | some q =>
      cases ht : q.take? with
      | none => cases hd : q.isDrained <;> simp [ht, hd, Queue.receipts]
      | some taken => simp [ht, Queue.receipts, Queue.Op.received?]
  · simp only [if_neg named]
    cases x.system.queues[j]? <;> rfl

/-- What a run shows of the receipts is what the queue has to tell of them. -/
theorem Transition.received?_eq (h : x.after? a = some y) :
    ((⟨x, a, y⟩ : Transition).received? j).toList = (x.system.queues[j]?).elim [] fun q =>
      (Queue.receipts ((⟨x, a, y⟩ : Transition).uses j q)).map Item.event := by
  have silent : (⟨x, a, y⟩ : Transition).received? j = none →
      (∀ q, ∀ op ∈ (⟨x, a, y⟩ : Transition).uses j q, op.received? = none) →
      ((⟨x, a, y⟩ : Transition).received? j).toList = (x.system.queues[j]?).elim [] fun q =>
        (Queue.receipts ((⟨x, a, y⟩ : Transition).uses j q)).map Item.event := by
    intro none unreceived
    rw [none]
    cases x.system.queues[j]? with
    | none => rfl
    | some q =>
      rw [Option.elim_some, Queue.receipts, List.filterMap_eq_nil_iff.mpr (unreceived q)]
      rfl
  cases a with
  | perform step =>
    cases step with
    | dequeue id => exact Transition.received?_dequeue x y id
    | abort step =>
      refine silent rfl fun q op mem => ?_
      change op ∈ (x.given? (.abort step)).elim [] fun g => Queue.leaveUses g.1 j g.2 at mem
      cases hg : x.given? (.abort step) with
      | none => rw [hg] at mem; cases mem
      | some given =>
        rw [hg] at mem
        rw [Queue.mem_leaveUses mem]
        rfl
    | _ => exact silent rfl fun _ _ mem => (List.not_mem_nil mem).elim
  | agent agent =>
    cases agent with
    | worker i =>
      obtain ⟨s, hs, rfl⟩ := Option.map_eq_some_iff.mp h
      obtain ⟨p, q, host, q', w, hp, hq, hw, rfl⟩ := Agent.step?_worker hs
      have hp' : (x.system.publishers.modify i fun p => { p with worker := w })[i]? =
          some { p with worker := w } := by
        rw [List.getElem?_modify_eq, hp]
        rfl
      unfold Transition.received? Transition.uses
      dsimp only [System.adjustPublisher, System.adjustQueue]
      rw [hp, hp']
      dsimp only
      by_cases own : p.queue = j
      · subst own
        rw [if_pos rfl, hq]
        have receives := (Worker.step_of_step? hw).receives
        simp only [Option.elim_some, Option.any_some, beq_self_eq_true, Bool.true_and]
        rw [← receives]
        cases (if p.worker.phase.item? = none then w.phase.item? else none) <;> rfl
      · rw [if_neg own]
        cases x.system.queues[j]? <;> simp [own, Queue.receipts]
    | call n =>
      refine silent rfl fun q op mem => ?_
      change op ∈ (x.system.phase? n).elim [] (q.callUses n j) at mem
      cases hφ : x.system.phase? n with
      | none => rw [hφ] at mem; cases mem
      | some φ =>
        rw [hφ] at mem
        exact Queue.received?_callUses mem
    | _ => exact silent rfl fun _ _ mem => (List.not_mem_nil mem).elim
  | _ => exact silent rfl fun _ _ mem => (List.not_mem_nil mem).elim

/-- What the history of a queue tells of the receipts is what the run shows of them. -/
theorem Runs.receipts (run : Runs ts z) (j : Nat) :
    (Queue.receipts (queueHistory ts j)).map Item.event = received ts j := by
  induction run with
  | start => rfl
  | @next ts x y a run h ih =>
    rw [queueHistory_cons, Queue.receipts_append, List.map_append, ih, received_cons,
      Transition.received?_eq h, Transition.queueOps]
    refine congrArg (received ts j ++ ·) ?_
    dsimp only
    cases hq : x.system.queues[j]? with
    | none =>
      cases y.system.queues[j]? with
      | none => rfl
      | some q' =>
        dsimp only
        rw [((Queue.ofCapacity q'.capacity q'.timeout).of_endings q').2.2]
        rfl
    | some q =>
      obtain ⟨-, q', -, hq', -⟩ := Transition.uses_of_after? h hq
      rw [hq']
      dsimp only
      rw [Queue.receipts_append, (q.of_endings q').2.2, List.append_nil]
      rfl

/-! ## What is let in -/

/-- The events that queue `j` has let in, in the order in which their producers came: they know
it, or will be told so. -/
def entered (ts : List Transition) (j : Nat) (q : Queue) : List Item :=
  (Queue.calls (queueHistory ts j)).filter fun item => item.ticket ∈ accepted ts j ++ q.promised

namespace Traced

variable (traced : Traced ts z j q)

include traced

/-- What was received, lost with the receiver, and is in the buffer, is what was let in. -/
theorem entered_eq (run : Runs ts z) :
    (∀ n ∈ accepted ts j ++ q.promised, n ∈ (entered ts j q).map Item.ticket) ∧
    ∃ lost, (entered ts j q).map Item.event = received ts j ++ lost ++ q.buffer.map Item.event ∧
      (q.receiving → lost = []) := by
  obtain ⟨lost, ordered⟩ := traced.history.ordered (Queue.new_ofCapacity ..)
  have letIn : entered ts j q = Queue.receipts (queueHistory ts j) ++ lost ++ q.buffer := by
    rw [← ordered.letIn_eq traced.distinct]
    unfold entered Queue.letIn
    rw [traced.taken]
    simp only [List.mem_append, List.mem_reverse]
  refine ⟨fun n mem => ?_, lost.map Item.event, ?_, fun receiving => ?_⟩
  · rw [letIn, ordered.tickets, traced.taken, List.mem_reverse]
    exact List.mem_append.mp mem
  · rw [letIn, List.map_append, List.map_append, run.receipts]
  · rw [ordered.kept receiving]
    rfl

/-- Who was let in without knowing it is told so by the next step of its call. -/
theorem told (hq : z.system.queues[j]? = some q) (hn : n ∈ q.promised) :
    ∃ y, z.after? (.agent (.call n)) = some y ∧
      (⟨z, .agent (.call n), y⟩ : Transition).brought? j Call.Phase.isTaken = some n := by
  obtain ⟨event, timer, next, hφ⟩ := traced.waiting n (List.mem_append_right _ hn)
  have standing : q.standing n = .accepted :=
    Queue.standing_accepted.mpr ⟨fun lined => traced.apart n lined hn, hn⟩
  cases hs : z.system.stepCall? n with
  | none => cases standing.symm.trans (System.standing_of_still hs hφ hq)
  | some s =>
    have happens : z.after? (.agent (.call n)) = some { z with system := s } :=
      congrArg (Option.map _) hs
    refine ⟨_, happens, ?_⟩
    have taken := Transition.taken_uses happens hq
    have uses : (⟨z, .agent (.call n), { z with system := s }⟩ : Transition).uses j q =
        [.told n] := by
      unfold Transition.uses
      dsimp only
      rw [hφ, Option.elim_some, Queue.callUses]
      simp only [if_pos, standing]
    rw [uses] at taken
    exact Option.toList_eq_singleton_iff.mp taken.symm

/-- Producers that were not let in might as well not have come, as far as the others and the
buffer go. -/
theorem without {gone : List Nat} (out : ∀ n ∈ gone, n ∉ accepted ts j ∧ n ∉ q.promised) :
    (Queue.ofCapacity q.capacity q.timeout).History
      (Queue.without gone (queueHistory ts j)) (q.thin gone) := by
  refine traced.history.thin (Queue.new_ofCapacity ..) fun n mem => ⟨fun taken => ?_,
    (out n mem).2⟩
  rw [traced.taken, List.mem_reverse] at taken
  exact (out n mem).1 taken

/-- A producer that was told an error is in no place. -/
theorem out_of_refused (run : Runs ts z) (hn : n ∈ refused ts j) :
    n ∉ accepted ts j ∧ n ∉ q.lined ++ q.promised := by
  refine ⟨run.told.apart j n hn, fun mem => ?_⟩
  obtain ⟨φ, hφ, past⟩ := run.told.past j n (.inr hn)
  obtain ⟨event, timer, next, hφ'⟩ := traced.waiting n mem
  obtain rfl := Option.some.inj (hφ.symm.trans hφ')
  cases past

end Traced

/-! ## What a close does -/

/-- The transition closes queue `j`: the caller closes its queue, or a publisher shuts down. -/
inductive Transition.Closes (t : Transition) (j : Nat) : Prop where
  | caller {id : String} :
      t.action = .perform (.closeQueue id) → t.before.queues.find? id = some j → Closes t j
  | publisher {n i : Nat} {p : Publisher} : t.FirstClose n i p → p.queue = j → Closes t j

/-- A queue that was closed stays so. -/
theorem Runs.shut (run : Runs ts z) (ht : t ∈ ts) (closes : t.Closes j) :
    ∃ q, z.system.queues[j]? = some q ∧ q.isOpen = false := by
  induction run with
  | start => cases ht
  | @next ts x y a run h ih =>
    rcases List.mem_cons.mp ht with rfl | ht
    · cases closes with
      | @caller id ha named =>
        dsimp only at ha named
        subst ha
        have known := run.owning.own j (Names.mem_of_find? named)
        obtain ⟨q, hq⟩ : ∃ q, x.system.queues[j]? = some q :=
          ⟨_, List.getElem?_eq_getElem known⟩
        obtain rfl := Option.some.inj h
        refine ⟨q.close.2, ?_, rfl⟩
        unfold Session.perform
        dsimp only
        rw [named, Option.bind_some, hq]
        change (x.system.queues.modify j fun q => q.close.2)[j]? = some q.close.2
        rw [List.getElem?_modify_eq, hq]
        rfl
      | @publisher n i p first own =>
        subst own
        obtain ⟨q, hq, -⟩ := run.ledgers.ledger i p first.publisher
        exact ⟨_, (first.after run.staffed hq h).2.2, rfl⟩
    · obtain ⟨q, hq, shut⟩ := ih ht
      obtain ⟨q', hq', onward⟩ := (Session.onward_of_after? h).queues j q hq
      refine ⟨q', hq', ?_⟩
      cases isOpen : q'.isOpen with
      | false => rfl
      | true => exact (onward.isOpen isOpen).symm.trans shut

/-- A producer that comes to a closed queue is told an error at once, and the queue does not
change. -/
theorem refused_of_shut {event : ChangeEvent} {next : Option WaitHandle}
    (hq : z.system.queues[j]? = some q) (shut : q.isOpen = false)
    (hφ : z.system.phase? n = some (.enqueuing j event next)) :
    ∃ y e, z.after? (.agent (.call n)) = some y ∧ y.system.queues[j]? = some q ∧
      y.system.phase? n = some (.ended z.system.host.now (.failed e)) ∧
      (event.validate = .error e ∨ event.validate = .ok () ∧ e = .closed) := by
  have steps : z.system.stepCall? n = some (z.system.stepEnqueuing n j event next) := by
    unfold System.stepCall?
    rw [show (z.system.calls[n]?).map Call.phase = _ from hφ]
  have happens : z.after? (.agent (.call n)) =
      some { z with system := z.system.stepEnqueuing n j event next } :=
    congrArg (Option.map _) steps
  obtain ⟨φ, hφ', u, ψ, step, quiet⟩ := System.callSteps_of_stepCall? steps
  obtain rfl := Option.some.inj (hφ.symm.trans hφ')
  have calls : (z.system.stepEnqueuing n j event next).calls =
      z.system.calls.modify n fun c => { c with phase := ψ } :=
    quiet.calls.trans (congrArg (List.modify · n _) step.calls_eq)
  have after : (z.system.stepEnqueuing n j event next).phase? n = some ψ := by
    rw [phase?_of_modify calls, if_pos rfl, hφ]
    rfl
  obtain ⟨q', hq', onward⟩ := (Session.onward_of_after? happens).queues j q hq
  have closed : q'.isOpen = q.isOpen := by
    cases isOpen : q'.isOpen with
    | false => exact shut.symm
    | true => exact (onward.isOpen isOpen).symm
  have kept : u.queues = z.system.queues → q' = q := fun same => by
    obtain ⟨r, hr, core⟩ := exists_of_map_eq quiet.queues hq'
    obtain rfl := Option.some.inj (hr.symm.trans ((congrArg (·[j]?) same).trans hq))
    rw [Queue.eq_of_core core, closed]
  rcases step.of_enqueuing with ⟨e, he, same, rfl⟩ |
    ⟨hv, ⟨-, same, rfl⟩ | ⟨r, r', hr, answer⟩⟩
  · exact ⟨_, e, happens, kept same ▸ hq', after, .inl he⟩
  · exact ⟨_, .closed, happens, kept same ▸ hq', after, .inr ⟨hv, rfl⟩⟩
  · obtain rfl := Option.some.inj (hr.symm.trans hq)
    rw [Queue.offer_of_refusing (.inl shut)] at answer
    rcases answer with ⟨ho, -⟩ | ⟨ho, -⟩ <;> cases (Prod.mk.inj ho).1

/-! ## First in, first out -/

/-- A run keeps queue `j`, which is `q` at its end, first in, first out. -/
structure FirstInFirstOut (ts : List Transition) (z : Session) (j : Nat) (q : Queue) : Prop where
  bounded : q.buffer.length ≤ q.capacity
  complete : ∀ n ∈ accepted ts j ++ q.promised, n ∈ (entered ts j q).map Item.ticket
  /-- What was received is what was let in, as far as the receiver has got. -/
  order : received ts j <+: (entered ts j q).map Item.event
  /-- While there is a receiver, what was let in and not received is in the buffer. -/
  whole : q.receiving →
    received ts j ++ q.buffer.map Item.event = (entered ts j q).map Item.event
  /-- Who was let in without knowing it is told so by the next step of its call. -/
  told : ∀ n ∈ q.promised, ∃ y, z.after? (.agent (.call n)) = some y ∧
    (⟨z, .agent (.call n), y⟩ : Transition).brought? j Call.Phase.isTaken = some n
  /-- The queue is what the uses of the run make of a new one. -/
  history : ∀ r, (Queue.ofCapacity q.capacity q.timeout).History (queueHistory ts j) r ↔ r = q
  /-- It is so without the producers that were told an error, whichever they are. -/
  unheard : ∀ gone, (∀ n ∈ gone, n ∈ refused ts j) → ∀ r,
    (Queue.ofCapacity q.capacity q.timeout).History (Queue.without gone (queueHistory ts j)) r ↔
      r = q
  /-- Producers that have not been let in make no difference to the others but in the line. -/
  unseen : ∀ gone, (∀ n ∈ gone, n ∉ accepted ts j ∧ n ∉ q.promised) → ∀ r,
    (Queue.ofCapacity q.capacity q.timeout).History (Queue.without gone (queueHistory ts j)) r ↔
      r = q.thin gone
  shut : ∀ t ∈ ts, t.Closes j → q.isOpen = false
  /-- A closed queue refuses every producer that comes, and does not change. -/
  refuses : q.isOpen = false → ∀ n event next,
    z.system.phase? n = some (.enqueuing j event next) →
    ∃ y e, z.after? (.agent (.call n)) = some y ∧ y.system.queues[j]? = some q ∧
      y.system.phase? n = some (.ended z.system.host.now (.failed e)) ∧
      (event.validate = .error e ∨ event.validate = .ok () ∧ e = .closed)
  /-- Closed or not, while there is a receiver it can receive the buffer and then the line. -/
  receivable : q.receiving → ∃ r, q.History ((q.buffer ++ q.blocked).map .received) r ∧
    r.buffer = [] ∧ r.blocked = []

/-- A queue is a bounded buffer, first in, first out, which a call that fails leaves as if it had
not been made, and from which all that was let in can be received after it is closed. -/
theorem first_in_first_out (run : Runs ts z) (hq : z.system.queues[j]? = some q) :
    FirstInFirstOut ts z j q := by
  have traced := run.traced hq
  obtain ⟨complete, lost, entered, kept⟩ := traced.entered_eq run
  have replayed : ∀ {ops : List Queue.Op} {r₀ r₁ : Queue}, r₀.History ops r₁ →
      ∀ r, r₀.History ops r ↔ r = r₁ := fun h r =>
    ⟨fun other => other.unique h, fun same => same ▸ h⟩
  exact {
    bounded := traced.steady.bounded
    complete := complete
    order := by
      rw [entered, List.append_assoc]
      exact List.prefix_append _ _
    whole receiving := by rw [entered, kept receiving, List.append_nil]
    told n hn := traced.told hq hn
    history := replayed traced.history
    unheard gone refused := by
      have without := traced.without fun n mem =>
        ⟨(traced.out_of_refused run (refused n mem)).1, fun promised =>
          (traced.out_of_refused run (refused n mem)).2 (List.mem_append_right _ promised)⟩
      rw [Queue.thin_of_none fun n mem lined =>
        (traced.out_of_refused run (refused n mem)).2 (List.mem_append_left _ lined)] at without
      exact replayed without
    unseen gone out := replayed (traced.without out)
    shut t ht closes := by
      obtain ⟨r, hr, shut⟩ := run.shut ht closes
      obtain rfl := Option.some.inj (hr.symm.trans hq)
      exact shut
    refuses shut n event next hφ := refused_of_shut hq shut hφ
    receivable receiving := traced.steady.receivable receiving }

/-- A second producer stands in line behind a first, and a third comes with no name; the queue is
closed, a fourth comes, the first event is received and the second producer is told. The latest
action first. -/
def oneSlot : List Action :=
  [.agent (.call 1), .perform (.dequeue "q"), .perform (.enqueue "q" (creation none)),
   .perform (.closeQueue "q"), .agent (.call 2),
   .perform (.enqueue "q" { creation none with name := "" }), .agent (.call 1),
   .perform (.enqueue "q" { creation none with owner := "bob" }), .agent (.call 0),
   .perform (.enqueue "q" (creation none)), .perform (.makeQueue "q" 1 (.ofMillis 100))]

/-- The queue after these actions. -/
def secondLeft : Queue :=
  { capacity := 1
    timeout := .ofMillis 100
    buffer := [⟨1, { creation none with owner := "bob" }⟩]
    isOpen := false }

set_option maxRecDepth 100000 in
/-- The first event was received and the second can be, the third was refused, and the fourth will
be. -/
theorem second_left :
    let ts := (play oneSlot).1
    let z := (play oneSlot).2
    z.system.queues[0]? = some secondLeft ∧ FirstInFirstOut ts z 0 secondLeft ∧
      received ts 0 = [creation none] ∧ accepted ts 0 = [1, 0] ∧ refused ts 0 = [2] ∧
      z.system.phase? 3 = some (.enqueuing 0 (creation none) none) := by
  intro ts z
  have hq : z.system.queues[0]? = some secondLeft := by rfl
  exact ⟨hq, first_in_first_out (play_runs oneSlot) hq, by rfl, by rfl, by rfl, by rfl⟩

end ChangeDispatch.Script
