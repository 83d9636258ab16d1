import ChangeDispatch.Proofs.Queue.Fifo

/-!
# What a queue says of its length

A queue counts its free slots as they are taken and given back, and tells its length by them. Told
in this way the length is the number of buffered events, and while the queue is open and has its
receiver this is what was accepted and not received. A closed queue has no way to its count: it
tells that it is empty, whatever its receiver has still to come.
-/
namespace ChangeDispatch

namespace Queue

variable {q q' q₀ : Queue} {op : Op} {ops : List Op} {free : Nat}

/-- The free slots after a use of `q`, which had `free` of them. -/
def Op.freeAfter (q : Queue) (free : Nat) : Op → Nat
  | offered _ .accepted => free - 1
  -- the slot is handed to the first in line
  | received _ => if q.blocked.isEmpty then free + 1 else free
  | stopped => free + q.buffer.length
  | _ => free

/-- The free slots along a history; a slot is taken only if there is one. -/
inductive Slots (q₀ : Queue) : List Op → Queue → Nat → Prop where
  | start : Slots q₀ [] q₀ q₀.capacity
  | next {ops : List Op} {q q' : Queue} {op : Op} {free : Nat} :
      Slots q₀ ops q free → Does q op q' → (∀ item, op = .offered item .accepted → 0 < free) →
      Slots q₀ (ops ++ [op]) q' (op.freeAfter q free)

/-- The slots that are not free hold the events in the buffer. -/
def Balances (q : Queue) (free : Nat) : Prop := free + q.buffer.length = q.capacity

theorem New.balances (new : q.New) : q.Balances q.capacity := by
  rw [Balances, new.buffer]
  rfl

/-- Who is let in at once finds a free slot. -/
theorem Does.free_pos (does : Does q op q') (balances : q.Balances free) :
    ∀ item, op = .offered item .accepted → 0 < free := by
  rintro item rfl
  cases does with
  | offered _ ho =>
    obtain ⟨-, room, -⟩ := offer_accepted ho
    unfold Balances at balances
    omega

/-- One use keeps the balance. -/
theorem Does.balances (does : Does q op q') (steady : q.Steady) (balances : q.Balances free) :
    q'.Balances (op.freeAfter q free) := by
  have taken := does.free_pos balances
  unfold Balances at balances ⊢
  cases does with
  | invalid _ => exact balances
  | told _ => exact balances
  | withdrawn _ => exact balances
  | dismissed _ => exact balances
  | closed => exact balances
  | stopped => exact balances
  | received ht =>
    obtain ⟨-, buffer, hb, ⟨empty, rfl⟩ | ⟨first, blocked, hl, rfl⟩⟩ := steady.take? ht
    · rw [hb, List.length_cons] at balances
      simp only [Op.freeAfter, empty, List.isEmpty_nil, if_true]
      omega
    · rw [hb, List.length_cons] at balances
      simp only [Op.freeAfter, hl, List.isEmpty_cons, Bool.false_eq_true, if_false,
        List.length_append, List.length_singleton]
      exact balances
  | @offered item answer _ _ ho =>
    rcases offer_slot ho with ⟨-, -, ⟨rfl, -, -⟩ | ⟨rfl, -⟩⟩ | ⟨-, rfl⟩
    · obtain ⟨-, -, rfl⟩ := offer_accepted ho
      have slot := taken item rfl
      simp only [Op.freeAfter, List.length_append, List.length_singleton]
      omega
    · obtain ⟨-, rfl⟩ := offer_blocked ho
      exact balances
    · rw [offer_refused ho]
      exact balances

theorem Slots.history (slots : Slots q₀ ops q free) : History q₀ ops q := by
  induction slots with
  | start => exact .start
  | next _ does _ ih => exact ih.next does

theorem Slots.balances (slots : Slots q₀ ops q free) (new : q₀.New) : q.Balances free := by
  induction slots with
  | start => exact new.balances
  | next slots does _ ih => exact does.balances (slots.history.steady new.steady) ih

theorem History.exists_slots (h : History q₀ ops q) (new : q₀.New) : ∃ free, Slots q₀ ops q free := by
  induction h with
  | start => exact ⟨_, .start⟩
  | next _ does ih =>
    obtain ⟨free, slots⟩ := ih
    exact ⟨_, slots.next does (does.free_pos (slots.balances new))⟩

/-- The count along a history of the queue is the number that balances. -/
theorem History.slots_iff (h : History q₀ ops q) (new : q₀.New) :
    Slots q₀ ops q free ↔ q.Balances free := by
  constructor
  · exact fun slots => slots.balances new
  · intro balances
    obtain ⟨count, slots⟩ := h.exists_slots new
    have counted := slots.balances new
    unfold Balances at balances counted
    obtain rfl : count = free := by omega
    exact slots

theorem length_of_isOpen (isOpen : q.isOpen) : q.length = q.buffer.length :=
  if_pos isOpen

theorem length_of_closed (closed : q.isOpen = false) : q.length = 0 := by
  simp [length, closed]

theorem isEmpty_iff : q.isEmpty ↔ q.length = 0 := beq_iff_eq

end Queue

namespace Script

variable {ts : List Transition} {z : Session} {j n : Nat} {q : Queue}

/-- A call learns once that its event was let in. -/
theorem Runs.accepted_nodup (run : Runs ts z) (j : Nat) : (accepted ts j).Nodup := by
  induction run with
  | start => exact .nil
  | @next ts x y a run h ih =>
    rw [accepted_cons]
    cases taken : (⟨x, a, y⟩ : Transition).brought? j Call.Phase.isTaken with
    | none => exact ih
    | some n =>
      refine List.nodup_cons.mpr ⟨fun before => ?_, ih⟩
      -- who knows it brings nothing any more
      obtain ⟨φ, hφ, past⟩ := run.told.past j n (.inl before)
      obtain ⟨-, φ', event, ψ, hφ', brings, -, -⟩ := Transition.brought?_eq_some.mp taken
      obtain rfl := Option.some.inj (hφ.symm.trans hφ')
      cases (Call.Phase.brings?_of_isPast past).symm.trans brings

/-- Where nothing can go on, everybody knows that was let in. -/
theorem Traced.promised_eq_nil (traced : Traced ts z j q) (run : Runs ts z)
    (quiescent : z.system.isQuiescent) (hq : z.system.queues[j]? = some q) : q.promised = [] := by
  refine List.eq_nil_iff_forall_not_mem.mpr fun n hn => ?_
  obtain ⟨event, timer, next, hφ⟩ := traced.waiting n (List.mem_append_right _ hn)
  obtain ⟨c, hc, -⟩ := Option.map_eq_some_iff.mp hφ
  have still := System.step?_of_quiescent quiescent
    (run.covers n (List.getElem?_eq_some_iff.mp hc).1)
  obtain ⟨y, happens, -⟩ := traced.told hq hn
  have moves : (Agent.step? (.call n) z.system).map _ = some y := happens
  rw [still] at moves
  cases moves

/-- The number of events that queue `j` has accepted and its receiver has not had. -/
def unreceivedCount (ts : List Transition) (j : Nat) : Nat :=
  (accepted ts j).length - (received ts j).length

/-- What was accepted was received, or lost with the receiver, or is in the buffer. -/
theorem Traced.length_accepted (traced : Traced ts z j q) (run : Runs ts z)
    (promised : q.promised = []) :
    ∃ lost, (accepted ts j).length = (received ts j).length + lost + q.buffer.length ∧
      (q.receiving → lost = 0) := by
  obtain ⟨complete, lost, places, kept⟩ := traced.entered_eq run
  have same : ((entered ts j q).map Item.ticket).Perm (accepted ts j) := by
    have distinct : ((entered ts j q).map Item.ticket).Nodup :=
      traced.distinct.sublist (List.filter_sublist.map Item.ticket)
    rw [promised, List.append_nil] at complete
    refine (List.perm_ext_iff_of_nodup distinct (run.accepted_nodup j)).mpr fun n => ⟨?_, complete n⟩
    intro mem
    obtain ⟨item, there, rfl⟩ := List.mem_map.mp mem
    simpa [promised] using (List.mem_filter.mp there).2
  refine ⟨lost.length, ?_, fun receiving => List.length_eq_zero_iff.mpr (kept receiving)⟩
  have sizes := congrArg List.length places
  simp only [List.length_map, List.length_append] at sizes
  rw [← same.length_eq, List.length_map, sizes]

/-- What queue `j`, which is `q` at the end of the run, says of its length. -/
structure Counted (ts : List Transition) (j : Nat) (q : Queue) : Prop where
  /-- Nothing was received that was not accepted. -/
  received : (received ts j).length ≤ (accepted ts j).length
  /-- The free slots that the run leaves are those that hold no event. -/
  slots : ∀ free, Queue.Slots (.ofCapacity q.capacity q.timeout) (queueHistory ts j) q free ↔
    free ≤ q.capacity ∧ q.buffer.length = q.capacity - free
  bounded : q.length ≤ q.capacity
  /-- No slot is free where somebody stands in line. -/
  busy : q.blocked ≠ [] → q.buffer.length = q.capacity
  buffered : q.receiving → q.buffer.length = unreceivedCount ts j
  isOpen : q.isOpen → q.length = q.buffer.length
  closed : q.isOpen = false → q.length = 0
  /-- The length is right while the queue is open and has its receiver, and else only if nothing
  is left to receive. -/
  length_iff : q.length = unreceivedCount ts j ↔ q.isOpen ∧ q.receiving ∨ unreceivedCount ts j = 0
  /-- So it is with whether there is anything to receive. -/
  isEmpty_iff : (q.isEmpty ↔ unreceivedCount ts j = 0) ↔
    q.isOpen ∧ q.receiving ∨ unreceivedCount ts j = 0

theorem length_is_unreceived_iff (run : Runs ts z) (quiescent : z.system.isQuiescent)
    (hq : z.system.queues[j]? = some q) : Counted ts j q := by
  have traced := run.traced hq
  have steady := traced.steady
  obtain ⟨lost, places, kept⟩ :=
    traced.length_accepted run (traced.promised_eq_nil run quiescent hq)
  have left : unreceivedCount ts j = lost + q.buffer.length := by
    unfold unreceivedCount
    omega
  have bounded := steady.bounded
  have going : q.isOpen → q.receiving → q.length = unreceivedCount ts j := fun isOpen receiving => by
    rw [Queue.length_of_isOpen isOpen, left, kept receiving, Nat.zero_add]
  have halted : ¬(q.isOpen ∧ q.receiving) → q.length = 0 := fun halted => by
    cases isOpen : q.isOpen with
    | false => exact Queue.length_of_closed isOpen
    | true =>
      have gone : q.receiving = false := by simpa [isOpen] using halted
      rw [Queue.length_of_isOpen isOpen, (steady.gone gone).1, List.length_nil]
  constructor
  case received => omega
  case slots =>
    intro free
    rw [traced.history.slots_iff (Queue.new_ofCapacity ..), Queue.Balances]
    omega
  case bounded =>
    cases isOpen : q.isOpen with
    | false => exact Queue.length_of_closed isOpen ▸ Nat.zero_le _
    | true => exact Queue.length_of_isOpen isOpen ▸ bounded
  case busy => exact fun waiting => Nat.le_antisymm bounded (steady.full waiting)
  case buffered =>
    intro receiving
    rw [left, kept receiving, Nat.zero_add]
  case isOpen => exact Queue.length_of_isOpen
  case closed => exact Queue.length_of_closed
  case length_iff =>
    by_cases state : q.isOpen ∧ q.receiving
    · simp only [going state.1 state.2, state, true_and, true_or]
    · rw [halted state]
      simp only [state, false_or]
      exact eq_comm
  case isEmpty_iff =>
    rw [Queue.isEmpty_iff]
    by_cases state : q.isOpen ∧ q.receiving
    · simp only [going state.1 state.2, state, true_and, true_or]
    · rw [halted state]
      simp only [state, false_or, true_iff]

/-- An event is let in, and the queue is closed; the latest action first. -/
def letInAndClosed : List Action :=
  [.perform (.closeQueue "q"), .agent (.call 0), .perform (.enqueue "q" (creation none)),
   .perform (.makeQueue "q" 2 (.ofMillis 100))]

set_option maxRecDepth 100000 in
/-- The event is still to be received, and the queue tells that it is empty. -/
theorem closed_queue_tells_none :
    let ts := (play letInAndClosed).1
    let z := (play letInAndClosed).2
    ∃ q, z.system.isQuiescent ∧ z.system.queues[0]? = some q ∧ Counted ts 0 q ∧
      q.buffer.length = 1 ∧ unreceivedCount ts 0 = 1 ∧ q.length = 0 ∧ q.isEmpty := by
  intro ts z
  have quiescent : z.system.isQuiescent := by rfl
  have hq : z.system.queues[0]? = some
      { capacity := 2
        timeout := .ofMillis 100
        buffer := [⟨0, creation none⟩]
        isOpen := false } := by rfl
  exact ⟨_, quiescent, hq, length_is_unreceived_iff (play_runs letInAndClosed) quiescent hq,
    rfl, by rfl, rfl, rfl⟩

end Script

end ChangeDispatch
