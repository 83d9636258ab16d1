import ChangeDispatch.Proofs.Publisher.Balance

/-!
# The history of a queue

What is done with a queue, and what it answers, one after the other. A history that a new queue
can have had settles three things: what was received, and what is still in the buffer and in line
behind it, stands in the order of the calls; a producer that was not let in might as well not have
been there; and while there is a receiver, everything in the buffer and in line can be received.
The line is first come, first served by the definition of the queue; that is assumed here and not
a result.
-/
namespace ChangeDispatch

/-- The elements of a sublist are found by a key that is different for all elements. -/
theorem filter_of_sublist {α β : Type} [DecidableEq β] {f : α → β} {l m : List α}
    (sub : l.Sublist m) (distinct : (m.map f).Nodup) :
    (m.filter fun a => f a ∈ l.map f) = l := by
  induction sub with
  | slnil => rfl
  | @cons l m a sub ih =>
    obtain ⟨fresh, distinct⟩ := List.nodup_cons.mp distinct
    have out : f a ∉ l.map f := fun mem => fresh ((sub.map f).subset mem)
    rw [List.filter_cons_of_neg (by simpa using out), ih distinct]
  | @cons_cons l m a sub ih =>
    obtain ⟨fresh, distinct⟩ := List.nodup_cons.mp distinct
    rw [List.filter_cons_of_pos (by simp)]
    refine congrArg (a :: ·) ?_
    conv_rhs => rw [← ih distinct]
    refine List.filter_congr fun b hb => ?_
    have other : f b ≠ f a := fun same => fresh (same ▸ List.mem_map_of_mem hb)
    simp [other]

namespace Queue

/-- One use of a queue, with what it brings to light. -/
inductive Op where
  /-- A producer calls with an event that is not valid, and the queue does not see it. -/
  | invalid (item : Item)
  | offered (item : Item) (answer : Offer)
  /-- A producer learns that its event was taken from the line. -/
  | told (ticket : Nat)
  /-- A producer leaves the line. -/
  | withdrawn (ticket : Nat)
  /-- A producer learns that the line has broken up. -/
  | dismissed (ticket : Nat)
  | received (item : Item)
  | closed
  | stopped
  deriving DecidableEq, Repr

namespace Op

/-- The event that a producer calls with. -/
def called? : Op → Option Item
  | invalid item | offered item _ => some item
  | _ => none

def received? : Op → Option Item
  | received item => some item
  | _ => none

/-- The producer that learns that its event was let in. -/
def taken? : Op → Option Nat
  | offered item .accepted => some item.ticket
  | told ticket => some ticket
  | _ => none

/-- The producer that uses the queue. -/
def ticket? : Op → Option Nat
  | invalid item | offered item _ => some item.ticket
  | told ticket | withdrawn ticket | dismissed ticket => some ticket
  | _ => none

/-- The producer that comes to the line. -/
def joins? : Op → Option Nat
  | offered item .blocked => some item.ticket
  | _ => none

/-- The producer that stood in line and has its answer. -/
def leaves? : Op → Option Nat
  | told ticket | withdrawn ticket | dismissed ticket => some ticket
  | _ => none

/-- The queue stays open, and its receiver there. -/
def isOrdinary : Op → Bool
  | closed | stopped => false
  | _ => true

end Op

/-- The events that producers called with, the first call in front. -/
def calls (ops : List Op) : List Item := ops.filterMap Op.called?

/-- The events that were received, in this order. -/
def receipts (ops : List Op) : List Item := ops.filterMap Op.received?

/-- The producers that know that their events were let in. -/
def taken (ops : List Op) : List Nat := ops.filterMap Op.taken?

/-- The history without some producers. -/
def without (gone : List Nat) (ops : List Op) : List Op :=
  ops.filter fun op => op.ticket?.all (· ∉ gone)

/-- What one use makes of a queue that answers like this. -/
inductive Does (q : Queue) : Op → Queue → Prop where
  | invalid {item : Item} {e : DispatchError} :
      item.event.validate = .error e → Does q (.invalid item) q
  | offered {item : Item} {answer : Offer} {q' : Queue} :
      item.event.validate = .ok () → q.offer item = (answer, q') →
      Does q (.offered item answer) q'
  | told {n : Nat} : q.standing n = .accepted → Does q (.told n) (q.collect n)
  | withdrawn {n : Nat} : q.standing n = .blocked → Does q (.withdrawn n) (q.withdraw n)
  | dismissed {n : Nat} : q.standing n = .refused → Does q (.dismissed n) q
  | received {item : Item} {q' : Queue} :
      q.take? = some (item, q') → Does q (.received item) q'
  | closed : Does q .closed q.close.2
  | stopped : Does q .stopped q.stopReceiving

/-- What a queue has become, the first use in front. -/
inductive History (q₀ : Queue) : List Op → Queue → Prop where
  | start : History q₀ [] q₀
  | next {ops : List Op} {q q' : Queue} {op : Op} :
      History q₀ ops q → Does q op q' → History q₀ (ops ++ [op]) q'

/-- A queue that nobody has used yet. -/
structure New (q : Queue) : Prop where
  room : 0 < q.capacity
  buffer : q.buffer = []
  blocked : q.blocked = []
  granted : q.granted = []
  receiving : q.receiving

/-- Nobody stands in line while a slot is free, and a queue without a receiver is empty. -/
structure Steady (q : Queue) : Prop where
  room : 0 < q.capacity
  bounded : q.buffer.length ≤ q.capacity
  full : q.blocked ≠ [] → q.capacity ≤ q.buffer.length
  gone : q.receiving = false → q.buffer = [] ∧ q.blocked = []

variable {q q' q₀ : Queue} {op : Op} {ops more : List Op} {item : Item} {answer : Offer} {n : Nat}
  {gone : List Nat}

/-! ## Histories -/

theorem calls_next (ops : List Op) (op : Op) :
    calls (ops ++ [op]) = calls ops ++ op.called?.toList := by
  unfold calls
  rw [List.filterMap_append, List.filterMap_cons]
  cases op.called? <;> rfl

theorem receipts_next (ops : List Op) (op : Op) :
    receipts (ops ++ [op]) = receipts ops ++ op.received?.toList := by
  unfold receipts
  rw [List.filterMap_append, List.filterMap_cons]
  cases op.received? <;> rfl

theorem taken_next (ops : List Op) (op : Op) :
    taken (ops ++ [op]) = taken ops ++ op.taken?.toList := by
  unfold taken
  rw [List.filterMap_append, List.filterMap_cons]
  cases op.taken? <;> rfl

theorem without_append (gone : List Nat) (ops more : List Op) :
    without gone (ops ++ more) = without gone ops ++ without gone more :=
  List.filter_append ..

theorem without_none (h : op.ticket? = none) : without gone [op] = [op] := by
  simp [without, h]

theorem without_gone (h : op.ticket? = some n) (mem : n ∈ gone) : without gone [op] = [] := by
  simp [without, h, mem]

theorem without_other (h : op.ticket? = some n) (not : n ∉ gone) :
    without gone [op] = [op] := by
  simp [without, h, not]

/-- The use and its answer settle what the queue becomes. -/
theorem Does.unique {r : Queue} (does : Does q op q') (other : Does q op r) : q' = r := by
  cases does with
  | offered _ ho =>
    cases other with
    | offered _ ho' => exact (Prod.mk.inj (ho.symm.trans ho')).2
  | received ht =>
    cases other with
    | received ht' => exact (Prod.mk.inj (Option.some.inj (ht.symm.trans ht'))).2
  | _ => cases other; rfl

namespace History

theorem cases (h : History q₀ ops q) : ops = [] ∧ q = q₀ ∨
    ∃ earlier op r, ops = earlier ++ [op] ∧ History q₀ earlier r ∧ Does r op q := by
  cases h with
  | start => exact .inl ⟨rfl, rfl⟩
  | next h does => exact .inr ⟨_, _, _, rfl, h, does⟩

theorem one (does : Does q op q') : History q [op] q' := .next .start does

theorem trans (h : History q₀ ops q) (k : History q more q') : History q₀ (ops ++ more) q' := by
  induction k with
  | start => rwa [List.append_nil]
  | next _ does ih =>
    rw [← List.append_assoc]
    exact ih.next does

theorem unique (h : History q₀ ops q) (h' : History q₀ ops q') : q = q' := by
  induction h generalizing q' with
  | start =>
    rcases h'.cases with ⟨-, rfl⟩ | ⟨ops, op, _, he, -⟩
    · rfl
    · simp at he
  | @next ops r q op h does ih =>
    rcases h'.cases with ⟨he, -⟩ | ⟨ops', op', r', he, h', does'⟩
    · simp at he
    · obtain ⟨rfl, last⟩ := List.append_inj' he rfl
      obtain rfl := List.singleton_inj.mp last
      obtain rfl := ih h'
      exact does.unique does'

theorem single (h : History q ops q') (once : ops.length ≤ 1) :
    ops = [] ∧ q' = q ∨ ∃ op, ops = [op] ∧ Does q op q' := by
  rcases h.cases with none | ⟨earlier, op, r, rfl, h, does⟩
  · exact .inl none
  · rw [List.length_append, List.length_singleton] at once
    have nothing : earlier = [] := List.length_eq_zero_iff.mp (by omega)
    rcases h.cases with ⟨-, rfl⟩ | ⟨_, _, _, he, -⟩
    · exact .inr ⟨op, by rw [nothing, List.nil_append], does⟩
    · simp [nothing] at he

end History

/-! ## Slots -/

theorem new_ofCapacity (capacity : Nat) (timeout : Duration) : (ofCapacity capacity timeout).New :=
  ⟨Nat.le_max_right .., rfl, rfl, rfl, rfl⟩

theorem New.steady (new : q.New) : q.Steady where
  room := new.room
  bounded := by
    rw [new.buffer]
    exact Nat.zero_le _
  full blocked := absurd new.blocked blocked
  gone gone := absurd (new.receiving.symm.trans gone) (by decide)

/-- The oldest event is received, and the first in line gets the slot. -/
theorem Steady.take? (steady : q.Steady) (ht : q.take? = some (item, q')) :
    q.receiving ∧ ∃ buffer, q.buffer = item :: buffer ∧
      (q.blocked = [] ∧ q' = { q with buffer } ∨
        ∃ first blocked, q.blocked = first :: blocked ∧
          q' = { q with buffer := buffer ++ [first], blocked, granted := q.granted ++ [first] }) := by
  obtain ⟨buffer, hb, rfl⟩ := take?_eq_some ht
  refine ⟨?_, buffer, hb, ?_⟩
  · cases hr : q.receiving with
    | true => rfl
    | false => rw [(steady.gone hr).1] at hb; cases hb
  · have bounded := steady.bounded
    rw [hb, List.length_cons] at bounded
    unfold fillSlot
    dsimp only
    cases hl : q.blocked with
    | nil => exact .inl ⟨rfl, rfl⟩
    | cons first blocked => exact .inr ⟨first, blocked, rfl, if_pos bounded⟩

theorem offer_refused (h : q.offer item = (.refused, q')) : q' = q := by
  unfold offer at h
  split at h
  · exact (Prod.mk.inj h).2.symm
  · split at h <;> cases (Prod.mk.inj h).1

theorem offer_of_refusing (h : q.isOpen = false ∨ q.receiving = false) :
    q.offer item = (.refused, q) := by
  unfold offer
  rcases h with h | h <;> simp [h]

/-- Who is let in at once finds nobody in line, and who is not finds no slot. -/
theorem offer_slot (h : q.offer item = (answer, q')) :
    q.isOpen ∧ q.receiving ∧
      (answer = .accepted ∧ q.blocked = [] ∧ q.buffer.length < q.capacity ∨
        answer = .blocked ∧ (q.blocked ≠ [] ∨ q.capacity ≤ q.buffer.length)) ∨
    (q.isOpen = false ∨ q.receiving = false) ∧ answer = .refused := by
  unfold offer at h
  split at h
  next shut =>
    refine .inr ⟨by simpa using shut, (Prod.mk.inj h).1.symm⟩
  next going =>
    obtain ⟨isOpen, receiving⟩ : q.isOpen = true ∧ q.receiving = true := by simpa using going
    refine .inl ⟨isOpen, receiving, ?_⟩
    split at h
    next free =>
      obtain ⟨empty, room⟩ : q.blocked = [] ∧ q.buffer.length < q.capacity := by
        simpa using free
      exact .inl ⟨(Prod.mk.inj h).1.symm, empty, room⟩
    next busy =>
      refine .inr ⟨(Prod.mk.inj h).1.symm, ?_⟩
      by_cases empty : q.blocked = []
      · exact .inr (by simpa [empty] using busy)
      · exact .inl empty

theorem Does.steady (steady : q.Steady) (does : Does q op q') : q'.Steady := by
  cases does with
  | invalid _ => exact steady
  | dismissed _ => exact steady
  | told _ => exact ⟨steady.room, steady.bounded, steady.full, steady.gone⟩
  | closed => exact ⟨steady.room, steady.bounded, steady.full, steady.gone⟩
  | stopped =>
    exact ⟨steady.room, Nat.zero_le _, fun blocked => absurd rfl blocked, fun _ => ⟨rfl, rfl⟩⟩
  | withdrawn _ =>
    refine ⟨steady.room, steady.bounded, fun blocked => steady.full fun empty => blocked ?_,
      fun gone => ⟨(steady.gone gone).1, ?_⟩⟩
    · simp [withdraw, empty]
    · simp [withdraw, (steady.gone gone).2]
  | received ht =>
    obtain ⟨receiving, buffer, hb, ⟨empty, rfl⟩ | ⟨first, blocked, hl, rfl⟩⟩ := steady.take? ht
    · have bounded := steady.bounded
      rw [hb, List.length_cons] at bounded
      exact ⟨steady.room, Nat.le_of_succ_le bounded, fun blocked => absurd empty blocked,
        fun gone => absurd (receiving.symm.trans gone) (by decide)⟩
    · have bounded := steady.bounded
      have full := steady.full (by simp [hl])
      rw [hb, List.length_cons] at bounded full
      refine ⟨steady.room, ?_, fun _ => ?_, fun gone => absurd (receiving.symm.trans gone)
        (by decide)⟩ <;> simpa using by omega
  | @offered item answer _ _ ho =>
    rcases offer_slot ho with ⟨-, receiving, slot⟩ | ⟨-, rfl⟩
    · have there : ∀ {P : Prop}, q.receiving = false → P := fun gone =>
        absurd (receiving.symm.trans gone) (by decide)
      rcases slot with ⟨rfl, empty, room⟩ | ⟨rfl, busy⟩
      · obtain ⟨-, -, rfl⟩ := offer_accepted ho
        refine ⟨steady.room, ?_, fun blocked => absurd empty blocked, there⟩
        rw [List.length_append, List.length_singleton]
        exact room
      · obtain ⟨-, rfl⟩ := offer_blocked ho
        exact ⟨steady.room, steady.bounded, fun _ => busy.elim steady.full id, there⟩
    · rw [offer_refused ho]
      exact steady

theorem History.steady (h : History q₀ ops q) (steady : q₀.Steady) : q.Steady := by
  induction h with
  | start => exact steady
  | next _ does ih => exact does.steady ih

/-- Only to close a queue and to stop receiving from it change more than who waits where. -/
theorem Does.parts (does : Does q op q') (ordinary : op.isOrdinary) :
    ∃ buffer blocked granted, q' = { q with buffer, blocked, granted } := by
  cases does with
  | offered _ ho =>
    rcases offer_slot ho with ⟨-, -, ⟨rfl, -, -⟩ | ⟨rfl, -⟩⟩ | ⟨-, rfl⟩
    · obtain ⟨-, -, rfl⟩ := offer_accepted ho
      exact ⟨_, _, _, rfl⟩
    · obtain ⟨-, rfl⟩ := offer_blocked ho
      exact ⟨_, _, _, rfl⟩
    · rw [offer_refused ho]
      exact ⟨_, _, _, rfl⟩
  | received ht =>
    obtain ⟨buffer, -, rfl⟩ := take?_eq_some ht
    rcases fillSlot_cases { q with buffer } with he | ⟨_, _, -, -, he⟩ <;> rw [he] <;>
      exact ⟨_, _, _, rfl⟩
  | closed => cases ordinary
  | stopped => cases ordinary
  | _ => exact ⟨_, _, _, rfl⟩

theorem Does.flags (does : Does q op q') (ordinary : op.isOrdinary) :
    q'.isOpen = q.isOpen ∧ q'.receiving = q.receiving := by
  obtain ⟨_, _, _, rfl⟩ := does.parts ordinary
  exact ⟨rfl, rfl⟩

theorem History.flags (h : History q₀ ops q) (ordinary : ∀ op ∈ ops, op.isOrdinary) :
    q.isOpen = q₀.isOpen ∧ q.receiving = q₀.receiving := by
  induction h with
  | start => exact ⟨rfl, rfl⟩
  | next _ does ih =>
    obtain ⟨isOpen, receiving⟩ := ih fun op mem => ordinary op (List.mem_append_left _ mem)
    have last := does.flags (ordinary _ (List.mem_append_right _ List.mem_cons_self))
    exact ⟨last.1.trans isOpen, last.2.trans receiving⟩

theorem Does.settings (does : Does q op q') :
    q'.capacity = q.capacity ∧ q'.timeout = q.timeout := by
  cases ordinary : op.isOrdinary with
  | true =>
    obtain ⟨_, _, _, rfl⟩ := does.parts ordinary
    exact ⟨rfl, rfl⟩
  | false =>
    cases does with
    | closed => exact ⟨rfl, rfl⟩
    | stopped => exact ⟨rfl, rfl⟩
    | _ => cases ordinary

theorem History.settings (h : History q₀ ops q) :
    q.capacity = q₀.capacity ∧ q.timeout = q₀.timeout := by
  induction h with
  | start => exact ⟨rfl, rfl⟩
  | next _ does ih => exact ⟨does.settings.1.trans ih.1, does.settings.2.trans ih.2⟩

/-- What the flags tell when the queue is seen again: it was closed, or its receiver has gone. -/
def endings (q q' : Queue) : List Op :=
  (if q.isOpen && !q'.isOpen then [.closed] else []) ++
    if q.receiving && !q'.receiving then [.stopped] else []

theorem eq_of_core (h : q'.core = q.core) : q' = { q with isOpen := q'.isOpen } := by
  obtain ⟨capacity, timeout, buffer, blocked, granted, isOpen, receiving⟩ := q
  obtain ⟨capacity', timeout', buffer', blocked', granted', isOpen', receiving'⟩ := q'
  simp only [core, Queue.mk.injEq, true_and] at h ⊢
  exact h

theorem stopReceiving_of_gone (steady : q.Steady) (gone : q.receiving = false) :
    q.stopReceiving = q := by
  obtain ⟨capacity, timeout, buffer, blocked, granted, isOpen, receiving⟩ := q
  obtain ⟨rfl, rfl⟩ : buffer = [] ∧ blocked = [] := steady.gone gone
  obtain rfl : receiving = false := gone
  rfl

theorem History.closings (h : History q₀ ops q) (isOpen : q'.isOpen → q.isOpen) :
    History q₀ (ops ++ if q.isOpen && !q'.isOpen then [.closed] else [])
      { q with isOpen := q'.isOpen } := by
  obtain ⟨capacity, timeout, buffer, blocked, granted, before, receiving⟩ := q
  dsimp only at isOpen ⊢
  cases now : q'.isOpen with
  | true =>
    obtain rfl : before = true := isOpen now
    simpa using h
  | false =>
    cases before with
    | true => exact h.next .closed
    | false => simpa using h

/-- The history goes on until the queue is seen again. -/
theorem History.endings (h : History q₀ ops q) (steady : q.Steady) (isOpen : q'.isOpen → q.isOpen)
    (same : q'.core = q.core ∨ q'.core = q.stopReceiving.core) :
    History q₀ (ops ++ q.endings q') q' := by
  have shut := h.closings isOpen
  unfold Queue.endings
  rw [← List.append_assoc]
  have kept : q'.core = q.core → History q₀ (ops ++ (if q.isOpen && !q'.isOpen then [.closed] else
      []) ++ if q.receiving && !q'.receiving then [.stopped] else []) q' := fun core => by
    have whole := eq_of_core core
    have receiving : q'.receiving = q.receiving := by rw [whole]
    have there : ¬(q.receiving && !q'.receiving) = true := by simp [receiving]
    rw [← whole] at shut
    rw [if_neg there, List.append_nil]
    exact shut
  rcases same with core | core
  · exact kept core
  · cases there : q.receiving with
    | false => exact there ▸ kept (stopReceiving_of_gone steady there ▸ core)
    | true =>
      have whole := eq_of_core core
      have gone : q'.receiving = false := by rw [whole]; rfl
      have stopped : History q₀ _ { q.stopReceiving with isOpen := q'.isOpen } := shut.next .stopped
      rw [← whole] at stopped
      rw [gone]
      exact stopped

/-! ## The order of the calls -/

/-- What was received, lost with the receiver, and is in the buffer, are the events that were let
in, in the order of the calls; those in line were called after them. -/
structure Ordered (ops : List Op) (q : Queue) (lost : List Item) : Prop where
  order : (receipts ops ++ lost ++ q.buffer ++ q.blocked).Sublist (calls ops)
  tickets : ∀ n, n ∈ (receipts ops ++ lost ++ q.buffer).map Item.ticket ↔
    n ∈ taken ops ∨ n ∈ q.promised
  kept : q.receiving → lost = []

theorem New.ordered (new : q.New) : Ordered [] q [] where
  order := by
    rw [new.buffer, new.blocked]
    exact List.Sublist.refl _
  tickets n := by simp [promised, new.buffer, new.granted, receipts, taken]
  kept _ := rfl

section

variable {lost : List Item}

/-- Nobody is let in and nothing is received, but the line can become shorter. -/
theorem Ordered.quiet (ordered : Ordered ops q lost) (unreceived : op.received? = none)
    (untaken : op.taken? = none) (receiving : q'.receiving = q.receiving)
    (buffer : q'.buffer = q.buffer) (granted : q'.granted = q.granted)
    (blocked : q'.blocked.Sublist q.blocked) : Ordered (ops ++ [op]) q' lost := by
  refine ⟨?_, fun n => ?_, fun there => ordered.kept (receiving ▸ there)⟩
  · rw [receipts_next, calls_next, unreceived, Option.toList_none, List.append_nil, buffer]
    exact ((blocked.append_left _).trans ordered.order).trans (List.sublist_append_left _ _)
  · rw [receipts_next, taken_next, unreceived, untaken, Option.toList_none, Option.toList_none,
      List.append_nil, List.append_nil, buffer, promised, granted]
    exact ordered.tickets n

/-- What was received and what can be received changes hands. -/
theorem Ordered.moved {lost' : List Item} (ordered : Ordered ops q lost)
    (order : (receipts (ops ++ [op]) ++ lost' ++ q'.buffer ++ q'.blocked).Sublist
      (receipts ops ++ lost ++ q.buffer ++ q.blocked ++ op.called?.toList))
    (tickets : ∀ n, n ∈ (receipts (ops ++ [op]) ++ lost' ++ q'.buffer).map Item.ticket ↔
      n ∈ (receipts ops ++ lost ++ q.buffer).map Item.ticket ∨
        n ∈ op.taken?.toList ∨ n ∈ q'.promised)
    (promised : ∀ n ∈ q.promised, n ∈ op.taken?.toList ∨ n ∈ q'.promised)
    (kept : q'.receiving → lost' = []) : Ordered (ops ++ [op]) q' lost' := by
  refine ⟨?_, fun n => ?_, kept⟩
  · rw [calls_next]
    exact order.trans (ordered.order.append_right _)
  · rw [tickets, ordered.tickets, taken_next, List.mem_append]
    have := promised n
    grind

/-- The producer in front of the others is let in, or one of the others comes to the line. -/
theorem Ordered.offered (ordered : Ordered ops q lost) (ho : q.offer item = (answer, q')) :
    Ordered (ops ++ [.offered item answer]) q' lost := by
  have unreceived : receipts (ops ++ [.offered item answer]) = receipts ops := by
    rw [receipts_next]
    exact List.append_nil _
  rcases offer_slot ho with ⟨-, -, ⟨rfl, empty, -⟩ | ⟨rfl, -⟩⟩ | ⟨-, rfl⟩
  · obtain ⟨-, -, rfl⟩ := offer_accepted ho
    refine ordered.moved ?_ (fun n => ?_) (fun n => .inr) ordered.kept
    · rw [unreceived, empty]
      simp [Op.called?]
    · have before := ordered.tickets n
      rw [unreceived]
      simp only [promised, Op.taken?, Option.toList_some, List.map_append, List.mem_append,
        List.map_cons, List.map_nil, List.mem_singleton] at before ⊢
      grind
  · obtain ⟨-, rfl⟩ := offer_blocked ho
    refine ordered.moved ?_ (fun n => ?_) (fun n => .inr) ordered.kept
    · rw [unreceived]
      simp [Op.called?]
    · have before := ordered.tickets n
      rw [unreceived]
      simp only [promised, Op.taken?, Option.toList_none, List.not_mem_nil, false_or] at before ⊢
      grind
  · rw [offer_refused ho]
    exact ordered.quiet rfl rfl rfl rfl rfl (List.Sublist.refl _)

theorem Ordered.received (ordered : Ordered ops q lost) (steady : q.Steady)
    (ht : q.take? = some (item, q')) : Ordered (ops ++ [.received item]) q' [] := by
  obtain ⟨receiving, buffer, hb, moved⟩ := steady.take? ht
  obtain rfl := ordered.kept receiving
  have received : receipts (ops ++ [.received item]) = receipts ops ++ [item] := receipts_next ..
  rcases moved with ⟨empty, rfl⟩ | ⟨first, blocked, hl, rfl⟩
  · refine ordered.moved ?_ (fun n => ?_) (fun n => .inr) fun _ => rfl
    · rw [received, hb]
      simp [Op.called?]
    · have before := ordered.tickets n
      rw [hb] at before
      rw [received, hb]
      simp only [promised, Op.taken?, Option.toList_none, List.not_mem_nil, false_or,
        List.append_nil, List.append_assoc, List.singleton_append] at before ⊢
      grind
  · refine ordered.moved ?_ (fun n => ?_) (fun n mem => .inr ?_) fun _ => rfl
    · rw [received, hb, hl]
      simp [Op.called?]
    · have before := ordered.tickets n
      rw [hb] at before
      rw [received, hb]
      simp only [promised, Op.taken?, Option.toList_none, List.not_mem_nil, false_or,
        List.append_nil, List.map_append, List.map_cons, List.map_nil, List.mem_append,
        List.mem_cons] at before ⊢
      grind
    · unfold promised at mem ⊢
      rw [List.map_append]
      exact List.mem_append_left _ mem

theorem Ordered.told (ordered : Ordered ops q lost) (hs : q.standing n = .accepted) :
    Ordered (ops ++ [.told n]) (q.collect n) lost := by
  have promised := (standing_accepted.mp hs).2
  have unreceived : receipts (ops ++ [.told n]) = receipts ops := by
    rw [receipts_next]
    exact List.append_nil _
  have left : ∀ m, m ∈ (q.collect n).promised ↔ m ∈ q.promised ∧ m ≠ n := fun m => by
    unfold Queue.promised collect
    rw [map_ticket_filter, List.mem_filter, bne_iff_ne]
  have now : ∀ m, m ∈ (Op.told n).taken?.toList ↔ m = n := fun m => List.mem_singleton
  refine ordered.moved ?_ (fun m => ?_) (fun m mem => ?_) ordered.kept
  · rw [unreceived]
    exact List.sublist_append_left _ _
  · have before := ordered.tickets m
    rw [unreceived, left, now]
    by_cases same : m = n
    · subst same
      exact ⟨.inl, fun _ => before.mpr (.inr promised)⟩
    · simp only [same, ne_eq, not_false_eq_true, and_true, false_or]
      exact ⟨.inl, fun h => h.elim id fun mem => before.mpr (.inr mem)⟩
  · rw [left, now]
    grind

/-- One use keeps the order. -/
theorem Does.ordered (does : Does q op q') (steady : q.Steady) (ordered : Ordered ops q lost) :
    ∃ lost', Ordered (ops ++ [op]) q' lost' := by
  cases does with
  | invalid _ => exact ⟨lost, ordered.quiet rfl rfl rfl rfl rfl (List.Sublist.refl _)⟩
  | dismissed _ => exact ⟨lost, ordered.quiet rfl rfl rfl rfl rfl (List.Sublist.refl _)⟩
  | closed => exact ⟨lost, ordered.quiet rfl rfl rfl rfl rfl (List.Sublist.refl _)⟩
  | withdrawn _ => exact ⟨lost, ordered.quiet rfl rfl rfl rfl rfl List.filter_sublist⟩
  | told hs => exact ⟨lost, ordered.told hs⟩
  | offered _ ho => exact ⟨lost, ordered.offered ho⟩
  | received ht => exact ⟨[], ordered.received steady ht⟩
  | stopped =>
    -- what was in the buffer is lost
    refine ⟨lost ++ q.buffer, ordered.moved ?_ (fun n => ?_) (fun n => .inr)
      fun receiving => (nomatch receiving)⟩
    · rw [receipts_next]
      simp [stopReceiving, Op.received?, Op.called?]
    · have before := ordered.tickets n
      rw [receipts_next]
      simp only [stopReceiving, Op.received?, Op.taken?, Option.toList_none, List.append_nil,
        List.append_assoc, List.not_mem_nil, false_or, promised] at before ⊢
      grind

end

theorem History.ordered (h : History q₀ ops q) (new : q₀.New) : ∃ lost, Ordered ops q lost := by
  induction h with
  | start => exact ⟨[], new.ordered⟩
  | next h does ih =>
    obtain ⟨lost, ordered⟩ := ih
    exact does.ordered (h.steady new.steady) ordered

/-- Who stands in line was not let in. -/
theorem Ordered.apart {lost : List Item} (ordered : Ordered ops q lost)
    (distinct : ((calls ops).map Item.ticket).Nodup) : ∀ n ∈ q.lined, n ∉ q.promised := by
  intro n lined promised
  have once := distinct.sublist (ordered.order.map Item.ticket)
  rw [List.map_append] at once
  exact (List.nodup_append.mp once).2.2 n ((ordered.tickets n).mpr (.inr promised)) n lined rfl

/-- Who stands in line, or was let in without knowing it, was so before and has had no answer, or
has just come. -/
theorem Does.waiting (does : Does q op q') (apart : ∀ n ∈ q.lined, n ∉ q.promised)
    (h : n ∈ q'.lined ++ q'.promised) :
    n ∈ q.lined ++ q.promised ∧ op.leaves? ≠ some n ∨ op.joins? = some n := by
  have nobody : Option.none ≠ some n := nofun
  cases does with
  | invalid _ => exact .inl ⟨h, nobody⟩
  | closed => exact .inl ⟨h, nobody⟩
  | stopped => exact .inl ⟨List.mem_append_right _ h, nobody⟩
  | @dismissed m hs =>
    obtain ⟨lined, promised⟩ := standing_refused.mp hs
    refine .inl ⟨h, fun same => ?_⟩
    obtain rfl : m = n := Option.some.inj same
    exact (List.mem_append.mp h).elim lined promised
  | @withdrawn m hs =>
    obtain ⟨before, other⟩ := mem_withdraw (apart m (standing_blocked.mp hs)) h
    exact .inl ⟨before, fun same => other (Option.some.inj same).symm⟩
  | @told m hs =>
    have lined := (standing_accepted.mp hs).1
    have other : n ∈ (q.collect m).promised → n ∈ q.promised ∧ n ≠ m := fun mem => by
      unfold Queue.promised collect at mem
      rwa [map_ticket_filter, List.mem_filter, bne_iff_ne] at mem
    refine .inl ⟨?_, fun same => ?_⟩
    · exact List.mem_append.mpr ((List.mem_append.mp h).imp_right fun mem => (other mem).1)
    · obtain rfl : m = n := Option.some.inj same
      exact (List.mem_append.mp h).elim lined fun mem => (other mem).2 rfl
  | received ht =>
    refine .inl ⟨?_, nobody⟩
    obtain ⟨buffer, -, rfl⟩ := take?_eq_some ht
    rcases fillSlot_cases { q with buffer } with he | ⟨first, blocked, hl, -, he⟩
    · rw [he] at h
      exact h
    · rw [he] at h
      dsimp only at hl
      simp only [lined, promised, hl, List.map_append, List.map_cons, List.map_nil,
        List.mem_append, List.mem_cons, List.not_mem_nil, or_false] at h ⊢
      grind
  | offered _ ho =>
    rcases offer_slot ho with ⟨-, -, ⟨rfl, -, -⟩ | ⟨rfl, -⟩⟩ | ⟨-, rfl⟩
    · obtain ⟨-, -, rfl⟩ := offer_accepted ho
      exact .inl ⟨h, nobody⟩
    · obtain ⟨-, rfl⟩ := offer_blocked ho
      simp only [lined, promised, List.map_append, List.map_cons, List.map_nil, List.mem_append,
        List.mem_singleton, Op.joins?, Op.leaves?, Option.some.injEq] at h ⊢
      grind
    · rw [offer_refused ho] at h
      exact .inl ⟨h, nobody⟩

/-- The events that were let in, in the order of the calls. -/
def letIn (ops : List Op) (q : Queue) : List Item :=
  (calls ops).filter fun item => item.ticket ∈ taken ops ++ q.promised

theorem Ordered.letIn_eq {lost : List Item} (ordered : Ordered ops q lost)
    (distinct : ((calls ops).map Item.ticket).Nodup) :
    letIn ops q = receipts ops ++ lost ++ q.buffer := by
  have sub := (List.sublist_append_left _ q.blocked).trans ordered.order
  conv_rhs => rw [← filter_of_sublist sub distinct]
  refine List.filter_congr fun item _ => ?_
  rw [decide_eq_decide, ordered.tickets, List.mem_append]

/-! ## Producers that were not let in -/

/-- What a producer is told that was let in stays so. -/
theorem Does.entered (does : Does q op q') (steady : q.Steady)
    (entered : n ∈ taken ops ∨ n ∈ q.promised) :
    n ∈ taken (ops ++ [op]) ∨ n ∈ q'.promised := by
  rw [taken_next, List.mem_append]
  rcases entered with known | promised
  · exact .inl (.inl known)
  · cases does with
    | @told m hs =>
      by_cases same : n = m
      · exact .inl (.inr (List.mem_singleton.mpr same))
      · refine .inr ?_
        unfold Queue.promised Queue.collect
        rw [map_ticket_filter, List.mem_filter, bne_iff_ne]
        exact ⟨promised, same⟩
    | received ht =>
      obtain ⟨-, buffer, -, ⟨-, rfl⟩ | ⟨first, blocked, -, rfl⟩⟩ := steady.take? ht
      · exact .inr promised
      · refine .inr ?_
        unfold Queue.promised at promised ⊢
        rw [List.map_append]
        exact List.mem_append_left _ promised
    | offered _ ho =>
      refine .inr ?_
      rcases offer_slot ho with ⟨-, -, ⟨rfl, -, -⟩ | ⟨rfl, -⟩⟩ | ⟨-, rfl⟩
      · obtain ⟨-, -, rfl⟩ := offer_accepted ho
        exact promised
      · obtain ⟨-, rfl⟩ := offer_blocked ho
        exact promised
      · rwa [offer_refused ho]
    | _ => exact .inr promised

/-- The queue without some producers in line. -/
def thin (q : Queue) (gone : List Nat) : Queue :=
  { q with blocked := q.blocked.filter (·.ticket ∉ gone) }

theorem thin_of_none (h : ∀ n ∈ gone, n ∉ q.lined) : q.thin gone = q := by
  unfold thin
  rw [List.filter_eq_self.mpr fun item mem => ?_]
  rw [decide_eq_true_eq]
  exact fun bad => h _ bad (List.mem_map_of_mem mem)

theorem mem_lined_thin : n ∈ (q.thin gone).lined ↔ n ∈ q.lined ∧ n ∉ gone := by
  unfold thin lined
  simp only [List.mem_map, List.mem_filter, decide_eq_true_eq]
  constructor
  · rintro ⟨item, ⟨mem, not⟩, rfl⟩
    exact ⟨⟨item, mem, rfl⟩, not⟩
  · rintro ⟨⟨item, mem, rfl⟩, not⟩
    exact ⟨item, ⟨mem, not⟩, rfl⟩

theorem thin_withdraw : (q.withdraw n).thin gone = (q.thin gone).withdraw n := by
  unfold withdraw thin
  simp only [List.filter_filter, Bool.and_comm]

theorem thin_withdraw_gone (mem : n ∈ gone) : (q.withdraw n).thin gone = q.thin gone := by
  unfold withdraw thin
  simp only [List.filter_filter]
  congr 1
  refine List.filter_congr fun item _ => ?_
  by_cases same : item.ticket = n
  · simp [same, mem]
  · simp [same]

/-- A use by somebody else does the same without the producers. -/
theorem Does.thin (does : Does q op q') (steady : q.Steady)
    (out : ∀ n ∈ gone, n ∉ op.taken?.toList ∧ n ∉ q'.promised) :
    History (q.thin gone) (without gone [op]) (q'.thin gone) := by
  cases does with
  | @invalid item e he =>
    by_cases mem : item.ticket ∈ gone
    · rw [without_gone rfl mem]
      exact .start
    · rw [without_other rfl mem]
      exact .one (.invalid he)
  | @dismissed n hs =>
    by_cases mem : n ∈ gone
    · rw [without_gone rfl mem]
      exact .start
    · rw [without_other rfl mem]
      obtain ⟨lined, promised⟩ := standing_refused.mp hs
      exact .one (.dismissed (standing_refused.mpr
        ⟨fun bad => lined (mem_lined_thin.mp bad).1, promised⟩))
  | @withdrawn n hs =>
    by_cases mem : n ∈ gone
    · rw [without_gone rfl mem, thin_withdraw_gone mem]
      exact .start
    · rw [without_other rfl mem, thin_withdraw]
      exact .one (.withdrawn (standing_blocked.mpr
        (mem_lined_thin.mpr ⟨standing_blocked.mp hs, mem⟩)))
  | @told n hs =>
    have mem : n ∉ gone := fun bad => (out n bad).1 (List.mem_singleton.mpr rfl)
    rw [without_other rfl mem]
    obtain ⟨lined, promised⟩ := standing_accepted.mp hs
    exact .one (.told (standing_accepted.mpr
      ⟨fun bad => lined (mem_lined_thin.mp bad).1, promised⟩))
  | closed => exact .one .closed
  | stopped => exact .one .stopped
  | @received item _ ht =>
    rw [without_none rfl]
    obtain ⟨-, buffer, hb, moved⟩ := steady.take? ht
    have taken : (q.thin gone).take? =
        some (item, ({ q.thin gone with buffer } : Queue).fillSlot) := by
      unfold Queue.take? Queue.thin
      rw [hb]
    refine .one (.received (taken.trans ?_))
    have room : buffer.length < q.capacity := by
      have bounded := steady.bounded
      rwa [hb, List.length_cons] at bounded
    rcases moved with ⟨empty, rfl⟩ | ⟨first, blocked, hl, rfl⟩
    · simp [Queue.thin, empty, fillSlot]
    · have kept : first.ticket ∉ gone := fun bad =>
        (out _ bad).2 (by simp [Queue.promised])
      simp [Queue.thin, hl, fillSlot, kept, room]
  | @offered item answer _ hv ho =>
    have same : ∀ {r r' : Queue}, r.offer item = (answer, r') →
        without gone [.offered item answer] = [.offered item answer] →
        History r (without gone [.offered item answer]) r' := fun {r r'} h not => by
      rw [not]
      exact .one (.offered hv h)
    rcases offer_slot ho with ⟨isOpen, receiving, slot⟩ | ⟨shut, rfl⟩
    · rcases slot with ⟨rfl, empty, room⟩ | ⟨rfl, busy⟩
      · have mem : item.ticket ∉ gone := fun bad =>
          (out _ bad).1 (List.mem_singleton.mpr rfl)
        obtain ⟨-, -, rfl⟩ := offer_accepted ho
        refine same ?_ (without_other rfl mem)
        simp [offer, Queue.thin, isOpen, receiving, empty, room]
      · obtain ⟨-, rfl⟩ := offer_blocked ho
        have full : q.capacity ≤ q.buffer.length := busy.elim steady.full id
        by_cases mem : item.ticket ∈ gone
        · rw [without_gone rfl mem]
          have unchanged : ({ q with blocked := q.blocked ++ [item] } : Queue).thin gone =
              q.thin gone := by
            simp [Queue.thin, mem]
          rw [unchanged]
          exact .start
        · refine same ?_ (without_other rfl mem)
          simp [offer, Queue.thin, isOpen, receiving, mem, Nat.not_lt_of_le full]
    · rw [offer_refused ho]
      by_cases mem : item.ticket ∈ gone
      · rw [without_gone rfl mem]
        exact .start
      · exact same (offer_of_refusing shut) (without_other rfl mem)

/-- The others get the same answers in the same order without producers that were not let in. -/
theorem History.thin (h : History q₀ ops q) (new : q₀.New)
    (out : ∀ n ∈ gone, n ∉ taken ops ∧ n ∉ q.promised) :
    History q₀ (without gone ops) (q.thin gone) := by
  induction h with
  | start =>
    rw [thin_of_none fun n _ mem => ?_]
    · exact .start
    · unfold lined at mem
      rw [new.blocked] at mem
      cases mem
  | @next ops q q' op h does ih =>
    have steady := h.steady new.steady
    have before : ∀ n ∈ gone, n ∉ taken ops ∧ n ∉ q.promised := fun n mem => by
      refine not_or.mp fun entered => ?_
      exact (does.entered steady entered).elim (out n mem).1 (out n mem).2
    rw [without_append]
    refine (ih before).trans (does.thin steady fun n mem => ⟨fun bad => ?_, (out n mem).2⟩)
    exact (out n mem).1 (taken_next ops op ▸ List.mem_append_right _ bad)

/-! ## What can be received -/

/-- While there is a receiver it can receive the buffer and then the line, in this order. -/
theorem Steady.receivable (steady : q.Steady) (receiving : q.receiving) :
    ∃ q', History q ((q.buffer ++ q.blocked).map .received) q' ∧
      q'.buffer = [] ∧ q'.blocked = [] := by
  generalize left : (q.buffer ++ q.blocked).length = k
  induction k generalizing q with
  | zero =>
    obtain ⟨buffer, blocked⟩ := List.append_eq_nil_iff.mp (List.length_eq_zero_iff.mp left)
    exact ⟨q, by rw [buffer, blocked]; exact .start, buffer, blocked⟩
  | succ k ih =>
    cases hb : q.buffer with
    | nil =>
      -- somebody in line would have found a slot
      have room := steady.room
      have full := steady.full fun empty => by simp [hb, empty] at left
      rw [hb, List.length_nil] at full
      omega
    | cons item buffer =>
      have taken : q.take? = some (item, ({ q with buffer } : Queue).fillSlot) := by
        unfold Queue.take?
        rw [hb]
      have does : Does q (.received item) ({ q with buffer } : Queue).fillSlot := .received taken
      obtain ⟨-, buffer', hb', moved⟩ := steady.take? taken
      obtain ⟨-, rfl⟩ := List.cons.inj (hb.symm.trans hb')
      have rest : ({ q with buffer } : Queue).fillSlot.buffer ++
          ({ q with buffer } : Queue).fillSlot.blocked = buffer ++ q.blocked ∧
          ({ q with buffer } : Queue).fillSlot.receiving := by
        rcases moved with ⟨empty, he⟩ | ⟨first, blocked, hl, he⟩
        · rw [he]
          exact ⟨rfl, receiving⟩
        · rw [he, hl]
          exact ⟨by simp, receiving⟩
      obtain ⟨q', history, empty⟩ := ih (does.steady steady) rest.2 (by
        rw [rest.1]
        rw [hb] at left
        simpa using left)
      rw [rest.1] at history
      exact ⟨q', (History.one does).trans history, empty⟩

end Queue

end ChangeDispatch
