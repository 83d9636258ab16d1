import ChangeDispatch.Proofs.Publisher.Balance

/-!
# The order of events in one step of a worker

A worker is done with events in the order in which they are in its hand and its buffer.
What a step is done with, what it holds afterwards and what is then in the buffer, put one
after the other, are what was held and buffered before, with what came from the line.
-/
namespace ChangeDispatch

namespace Worker

/-- The event that a worker holds, if it holds one. -/
def held (w : Worker) : List Item := w.phase.item?.toList

/-- The events that have an outcome after a step; `leaves` has their tickets. -/
def parts (q : Queue) (w w' : Worker) (o : Outcome) : List Item :=
  if w.stats.count o < w'.stats.count o then
    w.held ++ if o = .abandoned then q.buffer else []
  else []

/-- The events that a worker is done with in a step, with their outcomes. -/
def finished (q : Queue) (w w' : Worker) : List (Item × Outcome) :=
  [.published, .dropped, .abandoned].flatMap fun o => (w.parts q w' o).map (·, o)

theorem held_of_idle {w : Worker} (h : w.phase = .idle) : w.held = [] := by
  rw [held, h]
  rfl

theorem held_of_item? {w : Worker} {item : Item} (h : w.phase.item? = some item) :
    w.held = [item] := by
  rw [held, h]
  rfl

theorem map_ticket_held (w : Worker) : w.held.map Item.ticket = w.inHand := by
  rw [held, inHand]
  cases w.phase.item? <;> rfl

theorem leaves_eq_parts (q : Queue) (w w' : Worker) (o : Outcome) :
    w.leaves q w' o = (w.parts q w' o).map Item.ticket := by
  simp only [leaves, parts]
  split
  · rw [List.map_append, map_ticket_held]
    split <;> rfl
  · rfl

/-- The events with one outcome, among all that the worker is done with. -/
theorem filter_finished (q : Queue) (w w' : Worker) (o : Outcome) :
    ((w.finished q w').filter (·.2 = o)).map Prod.fst = w.parts q w' o := by
  cases o <;> simp [finished, List.filter_append, List.filter_map, Function.comp_def]

theorem finished_of_same {q : Queue} {w w' : Worker}
    (h : ∀ o, w'.stats.count o = w.stats.count o) : w.finished q w' = [] := by
  have none : ∀ o, w.parts q w' o = [] := fun o => if_neg (by rw [h o]; exact Nat.lt_irrefl _)
  simp [finished, none]

/-- The worker is done with the event in hand. -/
theorem finished_of_done {q : Queue} {w w' : Worker} {item : Item} {o : Outcome}
    (hw : w.phase.item? = some item) (ho : o ≠ .abandoned)
    (counted : w'.stats.count o = w.stats.count o + 1)
    (same : ∀ o', o' ≠ o → w'.stats.count o' = w.stats.count o') :
    w.finished q w' = [(item, o)] := by
  have none : ∀ o', o' ≠ o → w.parts q w' o' = [] := fun o' ho' =>
    if_neg (by rw [same o' ho']; exact Nat.lt_irrefl _)
  have one : w.parts q w' o = [item] := by
    rw [parts, if_pos (by omega), if_neg ho, held_of_item? hw]
    rfl
  cases o with
  | published => simp [finished, one, none .dropped (by simp), none .abandoned (by simp)]
  | dropped => simp [finished, one, none .published (by simp), none .abandoned (by simp)]
  | abandoned => exact absurd rfl ho

/-- The worker gives up what it holds and what is in the buffer. -/
theorem finished_of_abandoned {q : Queue} {w w' : Worker}
    (counted : w'.stats.count .abandoned =
      w.stats.count .abandoned + (w.held.length + q.buffer.length))
    (same : ∀ o, o ≠ .abandoned → w'.stats.count o = w.stats.count o) :
    w.finished q w' = (w.held ++ q.buffer).map (·, .abandoned) := by
  have none : ∀ o, o ≠ .abandoned → w.parts q w' o = [] := fun o ho =>
    if_neg (by rw [same o ho]; exact Nat.lt_irrefl _)
  have all : w.parts q w' .abandoned = w.held ++ q.buffer := by
    rw [parts, if_pos rfl]
    split
    · rfl
    · -- nothing was counted, so nothing was there
      have held : w.held = [] := List.length_eq_zero_iff.mp (by omega)
      have buffer : q.buffer = [] := List.length_eq_zero_iff.mp (by omega)
      rw [held, buffer]
      rfl
  simp [finished, all, none .published (by simp), none .dropped (by simp)]

end Worker

/-- The items of `l` that are not in `before`. -/
def newIn (before l : List Item) : List Item := l.filter fun item => item ∉ before

theorem newIn_append {before old new : List Item} (known : ∀ item ∈ old, item ∈ before)
    (fresh : ∀ item ∈ new, item ∉ before) : newIn before (old ++ new) = new := by
  rw [newIn, List.filter_append, List.filter_eq_nil_iff.mpr, List.filter_eq_self.mpr]
  · rfl
  · simpa using fresh
  · simpa using known

theorem newIn_self (l : List Item) : newIn l l = [] :=
  List.filter_eq_nil_iff.mpr fun item h => by simpa using h

namespace Worker

open Host (Still Puts)

/-- The events of a topic that a step adds to the log. -/
def Logs (topic : String) (h k : Host) (events : List (Item × Outcome)) : Prop :=
  k.broker.publishedOn topic = h.broker.publishedOn topic ++
    (events.filter (·.2 = .published)).map fun e => e.1.event.write

theorem Logs.of_still {topic : String} {h k : Host} {events : List (Item × Outcome)}
    (still : Still h k) (none : ∀ e ∈ events, e.2 ≠ .published) : Logs topic h k events := by
  have nothing : events.filter (·.2 = .published) = [] :=
    List.filter_eq_nil_iff.mpr fun e he => by simpa using none e he
  rw [Logs, nothing, Broker.publishedOn, still.published]
  simp [Broker.publishedOn]

/-- What a step does to the order of events: what was held and buffered, and then what comes
from the line, is afterwards done with, held or buffered, in this order. -/
structure Passes (h : Host) (q : Queue) (w : Worker) (k : Host) (q' : Queue) (w' : Worker)
    (new : List Item) : Prop where
  order : (w.finished q w').map Prod.fst ++ (w'.held ++ q'.buffer) = w.held ++ q.buffer ++ new
  line : ∀ item ∈ new ++ q'.blocked, item ∈ q.blocked
  entered : (∀ item ∈ q.blocked, item ∉ q.buffer) → newIn q.buffer q'.buffer = new
  log : Logs w.topic h k (w.finished q w')
  /-- When an event is given up, all are that have an outcome, and the worker ends. -/
  last : (∀ e ∈ w.finished q w', e.2 ≠ .abandoned) ∨
    (∀ e ∈ w.finished q w', e.2 = .abandoned) ∧ w'.phase = .ended
  topic : w'.topic = w.topic
  going : w.phase ≠ .ended

/-- The worker keeps the queue as it is, and is done with nothing. -/
theorem Passes.kept {h k : Host} {q : Queue} {w w' : Worker} (still : Still h k)
    (same : ∀ o, w'.stats.count o = w.stats.count o) (held : w'.held = w.held)
    (topic : w'.topic = w.topic) (going : w.phase ≠ .ended) : Passes h q w k q w' [] where
  order := by rw [finished_of_same same, held]; simp
  line _ h := h
  entered _ := newIn_self _
  log := by rw [finished_of_same same]; exact .of_still still fun _ h => absurd h List.not_mem_nil
  last := .inl fun _ h => by simp [finished_of_same same] at h
  topic := topic
  going := going

/-- The worker is done with the event in hand and keeps the queue as it is. -/
theorem Passes.done {h k : Host} {q : Queue} {w w' : Worker} {item : Item} {o : Outcome}
    (hw : w.phase.item? = some item) (idle : w'.phase = .idle) (ho : o ≠ .abandoned)
    (finished : w.finished q w' = [(item, o)]) (log : Logs w.topic h k [(item, o)])
    (topic : w'.topic = w.topic) : Passes h q w k q w' [] where
  order := by rw [finished, held_of_idle idle, held_of_item? hw]; simp
  line _ h := h
  entered _ := newIn_self _
  log := finished ▸ log
  last := .inl fun e he => by
    rw [finished, List.mem_singleton] at he
    rw [he]
    exact ho
  topic := topic
  going ended := by rw [ended] at hw; cases hw

/-- The worker ends and gives up what it holds and what is in the buffer. -/
theorem Passes.ended {h k : Host} {q : Queue} {w w' : Worker} (still : Still h k)
    (finished : w.finished q w' = (w.held ++ q.buffer).map (·, .abandoned))
    (ended : w'.phase = .ended) (topic : w'.topic = w.topic) (going : w.phase ≠ .ended) :
    Passes h q w k q.stopReceiving w' [] where
  order := by
    have none : w'.held = [] := by rw [held, ended]; rfl
    rw [finished, none]
    simp [Queue.stopReceiving, Function.comp_def]
  line item h := absurd h List.not_mem_nil
  entered _ := rfl
  log := finished ▸ .of_still still fun e he => by
    obtain ⟨item, -, rfl⟩ := List.mem_map.mp he
    simp
  last := .inr ⟨fun e he => by
    rw [finished] at he
    obtain ⟨item, -, rfl⟩ := List.mem_map.mp he
    rfl, ended⟩
  topic := topic
  going := going

/-- The worker takes the oldest event, and the first in line has the free slot. -/
theorem Passes.taken {h : Host} {q q' : Queue} {w : Worker} {item : Item} (idle : w.phase = .idle)
    (ht : q.take? = some (item, q')) :
    ∃ new, Passes h q w h q' { w with phase := .attempting { item } } new := by
  obtain ⟨buffer, hb, rfl⟩ := Queue.take?_eq_some ht
  have same : ∀ o, ({ w with phase := .attempting { item } } : Worker).stats.count o =
      w.stats.count o := fun _ => rfl
  have going : w.phase ≠ .ended := by rw [idle]; simp
  have none : w.finished q { w with phase := .attempting { item } } = [] := finished_of_same same
  have passes : ∀ new, ({ q with buffer } : Queue).fillSlot.buffer = buffer ++ new →
      (∀ e ∈ new ++ ({ q with buffer } : Queue).fillSlot.blocked, e ∈ q.blocked) →
      Passes h q w h ({ q with buffer } : Queue).fillSlot
        { w with phase := .attempting { item } } new := by
    intro new filled line
    refine ⟨?_, line, fun fresh => ?_, ?_, ?_, rfl, going⟩
    · rw [none, held_of_idle idle, filled, hb]
      simp [held, Phase.item?]
    · rw [filled, hb]
      refine newIn_append (fun e he => List.mem_cons_of_mem _ he) fun e he => ?_
      exact hb ▸ fresh e (line e (List.mem_append_left _ he))
    · rw [none]
      exact .of_still (.refl h) fun _ h => absurd h List.not_mem_nil
    · rw [none]
      exact .inl fun _ h => absurd h List.not_mem_nil
  rcases ({ q with buffer } : Queue).fillSlot_cases with he | ⟨first, blocked, line, -, he⟩
  · exact ⟨[], passes [] (by rw [he]; simp) (by rw [he]; exact fun _ h => h)⟩
  · refine ⟨[first], passes [first] (by rw [he]) fun e hm => ?_⟩
    rw [he] at hm
    have line : q.blocked = first :: blocked := line
    rw [line]
    exact hm

theorem Step.passes {h k : Host} {q q' : Queue} {w w' : Worker} (step : Step h q w k q' w') :
    ∃ new, Passes h q w k q' w' new := by
  have held : ∀ {item}, w.phase.item? = some item → w.phase ≠ .ended := by
    intro item hw ended
    rw [ended] at hw
    cases hw
  cases step with
  | taken idle _ ht => exact Passes.taken idle ht
  | drained idle _ hd =>
    have empty : q.buffer = [] := by
      simp only [Queue.isDrained, Bool.and_eq_true, List.isEmpty_iff] at hd
      exact hd.1.1.2
    have nothing : w.finished q { w with phase := .ended } = [] := finished_of_same fun _ => rfl
    refine ⟨[], .ended (.refl h) ?_ rfl rfl (by simp [idle])⟩
    rw [nothing, held_of_idle idle, empty]
    rfl
  | abandoned idle _ still =>
    refine ⟨[], .ended still (finished_of_abandoned ?_ fun o ho => ?_) rfl rfl (by simp [idle])⟩
    · rw [held_of_idle idle, List.length_nil, Nat.zero_add]
      rfl
    · cases o <;> first | rfl | exact absurd rfl ho
  | interrupted hw _ still =>
    refine ⟨[], .ended still (finished_of_abandoned ?_ fun o ho => ?_) rfl rfl (held hw)⟩
    · rw [held_of_item? hw, List.length_singleton]
      exact Nat.add_assoc _ _ _
    · cases o <;> first | rfl | exact absurd rfl ho
  | moved hw hp still =>
    refine ⟨[], .kept still (fun o => by cases o <;> rfl) ?_ rfl (held hw)⟩
    exact (held_of_item? hp).trans (held_of_item? hw).symm
  | @published item _ hw puts =>
    refine ⟨[], .done (o := .published) hw rfl (by simp) ?_ ?_ rfl⟩
    · refine finished_of_done hw (by simp) rfl fun o ho => ?_
      cases o <;> first | rfl | exact absurd rfl ho
    · simp [Logs, Broker.publishedOn, puts.published]
  | @dropped item _ _ hw still =>
    refine ⟨[], .done (o := .dropped) hw rfl (by simp) ?_ (.of_still still (by simp)) rfl⟩
    refine finished_of_done hw (by simp) rfl fun o ho => ?_
    cases o <;> first | rfl | exact absurd rfl ho

end Worker

end ChangeDispatch
