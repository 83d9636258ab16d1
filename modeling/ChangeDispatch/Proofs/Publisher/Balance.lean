import ChangeDispatch.Proofs.Publisher.Step
import ChangeDispatch.Proofs.Run.Quiet
import Mathlib.Data.List.Perm.Basic

/-!
# The balance of a publisher

Every event that a queue has let in is in one place: still in the buffer, in the hands of
the worker, or counted under one outcome. An event that was taken from the line is let in
already, but its producer has not been told; those are kept apart. What one operation of
the queue or one step of the worker does to the places is proved here, whatever order they
come in.
-/
namespace ChangeDispatch

/-- What becomes of an event in the end. -/
inductive Outcome where
  | published
  | dropped
  | abandoned
  deriving DecidableEq, Repr

/-- How many events had an outcome. -/
def PublishStats.count (s : PublishStats) : Outcome → Nat
  | .published => s.published
  | .dropped => s.dropped
  | .abandoned => s.abandoned

namespace Queue

/-- The tickets of what is in the buffer, of who stands in line, and of what was taken from
the line. -/
def buffered (q : Queue) : List Nat := q.buffer.map Item.ticket

def lined (q : Queue) : List Nat := q.blocked.map Item.ticket

def promised (q : Queue) : List Nat := q.granted.map Item.ticket

end Queue

namespace Worker

/-- The ticket of the event that a worker holds, if it holds one. -/
def inHand (w : Worker) : List Nat := (w.phase.item?.map Item.ticket).toList

/-- The tickets that have an outcome after a step: when the counter goes up, that of the
event in hand, and with those that are abandoned all that were in the buffer. -/
def leaves (q : Queue) (w w' : Worker) (o : Outcome) : List Nat :=
  if w.stats.count o < w'.stats.count o then
    w.inHand ++ if o = .abandoned then q.buffered else []
  else []

theorem inHand_of_item? {w : Worker} {item : Item} (h : w.phase.item? = some item) :
    w.inHand = [item.ticket] := by
  unfold inHand
  rw [h]
  rfl

theorem inHand_of_idle {w : Worker} (h : w.phase = .idle) : w.inHand = [] := by
  unfold inHand
  rw [h]
  rfl

theorem length_inHand_le (w : Worker) : w.inHand.length ≤ 1 := by
  unfold inHand
  cases w.phase.item? with
  | none => exact Nat.zero_le 1
  | some item => exact Nat.le_refl 1

end Worker

/-- The tickets of the events that were accepted, and of those that had each outcome. -/
structure Books where
  accepted : List Nat
  settled : Outcome → List Nat

/-- Enter what has an outcome now. -/
def Books.settle (b : Books) (more : Outcome → List Nat) : Books :=
  { b with settled := fun o => more o ++ b.settled o }

/-- The books agree with a queue and its worker. -/
structure Balanced (b : Books) (w : Worker) (q : Queue) : Prop where
  places : (b.accepted ++ q.promised).Perm
    (b.settled .published ++ b.settled .dropped ++ b.settled .abandoned ++ q.buffered ++ w.inHand)
  counts : ∀ o, (b.settled o).length = w.stats.count o
  nodup : (b.accepted ++ (q.lined ++ q.promised)).Nodup
  bound : q.buffer.length ≤ q.capacity
  gone : q.receiving = false → q.buffer = [] ∧ q.blocked = []
  ended : w.phase = .ended → q.receiving = false

namespace Queue

/-- A free slot goes to the first in line, if there is one. -/
theorem fillSlot_cases (q : Queue) :
    q.fillSlot = q ∨ ∃ item blocked, q.blocked = item :: blocked ∧ q.buffer.length < q.capacity ∧
      q.fillSlot =
        { q with buffer := q.buffer ++ [item], blocked, granted := q.granted ++ [item] } := by
  unfold fillSlot
  split
  next item blocked hb =>
    split
    next hlt => exact .inr ⟨item, blocked, hb, hlt, rfl⟩
    next => exact .inl rfl
  next => exact .inl rfl

theorem take?_eq_some {q q' : Queue} {item : Item} (h : q.take? = some (item, q')) :
    ∃ buffer, q.buffer = item :: buffer ∧ q' = ({ q with buffer } : Queue).fillSlot := by
  unfold take? at h
  split at h
  · cases h
  next item' buffer hb =>
    obtain ⟨rfl, rfl⟩ := Prod.mk.inj (Option.some.inj h)
    exact ⟨buffer, hb, rfl⟩

theorem offer_accepted {q q' : Queue} {item : Item} (h : q.offer item = (.accepted, q')) :
    q.receiving ∧ q.buffer.length < q.capacity ∧ q' = { q with buffer := q.buffer ++ [item] } := by
  unfold offer at h
  split at h
  · cases (Prod.mk.inj h).1
  next hopen =>
    split at h
    next hfree =>
      rw [Bool.and_eq_true, decide_eq_true_eq] at hfree
      simp only [Bool.or_eq_true, Bool.not_eq_true', not_or, Bool.not_eq_false] at hopen
      exact ⟨hopen.2, hfree.2, (Prod.mk.inj h).2.symm⟩
    next => cases (Prod.mk.inj h).1

theorem offer_blocked {q q' : Queue} {item : Item} (h : q.offer item = (.blocked, q')) :
    q.receiving ∧ q' = { q with blocked := q.blocked ++ [item] } := by
  unfold offer at h
  split at h
  · cases (Prod.mk.inj h).1
  next hopen =>
    split at h
    · cases (Prod.mk.inj h).1
    next =>
      simp only [Bool.or_eq_true, Bool.not_eq_true', not_or, Bool.not_eq_false] at hopen
      exact ⟨hopen.2, (Prod.mk.inj h).2.symm⟩

theorem any_ticket {items : List Item} {n : Nat} :
    items.any (·.ticket == n) = true ↔ n ∈ items.map Item.ticket := by
  simp [List.any_eq_true]

theorem standing_blocked {q : Queue} {n : Nat} : q.standing n = .blocked ↔ n ∈ q.lined := by
  unfold standing lined
  rw [← any_ticket]
  split
  next h => simp [h]
  next h => split <;> simp [h]

theorem standing_accepted {q : Queue} {n : Nat} :
    q.standing n = .accepted ↔ n ∉ q.lined ∧ n ∈ q.promised := by
  unfold standing lined promised
  rw [← any_ticket, ← any_ticket]
  split
  next h => simp [h]
  next h => split <;> simp_all

theorem standing_refused {q : Queue} {n : Nat} :
    q.standing n = .refused ↔ n ∉ q.lined ∧ n ∉ q.promised := by
  unfold standing lined promised
  rw [← any_ticket, ← any_ticket]
  split
  next h => simp [h]
  next h => split <;> simp_all

theorem map_ticket_filter (items : List Item) (n : Nat) :
    (items.filter (·.ticket != n)).map Item.ticket = (items.map Item.ticket).filter (· != n) := by
  rw [List.filter_map]
  rfl

end Queue

/-- Who has left the line is in no place any more. -/
theorem Queue.mem_withdraw {q : Queue} {m n : Nat} (hn : n ∉ q.promised)
    (hm : m ∈ (q.withdraw n).lined ++ (q.withdraw n).promised) :
    m ∈ q.lined ++ q.promised ∧ m ≠ n := by
  rcases List.mem_append.mp hm with hm | hm
  · unfold Queue.lined Queue.withdraw at hm
    rw [Queue.map_ticket_filter, List.mem_filter, bne_iff_ne] at hm
    exact ⟨List.mem_append_left _ hm.1, hm.2⟩
  · exact ⟨List.mem_append_right _ hm, fun he => hn (he ▸ hm)⟩

namespace Balanced

variable {b : Books} {w w' : Worker} {q q' : Queue} {item : Item} {n : Nat}

/-- How often a ticket is in one of the places. -/
theorem count_places (bal : Balanced b w q) (n : Nat) :
    b.accepted.count n + q.promised.count n = (b.settled .published).count n +
      (b.settled .dropped).count n + (b.settled .abandoned).count n + q.buffered.count n +
      w.inHand.count n := by
  simpa only [List.count_append] using bal.places.count_eq n

theorem places_of_count {b : Books} {w : Worker} {q : Queue}
    (h : ∀ n, b.accepted.count n + q.promised.count n = (b.settled .published).count n +
      (b.settled .dropped).count n + (b.settled .abandoned).count n + q.buffered.count n +
      w.inHand.count n) :
    (b.accepted ++ q.promised).Perm
      (b.settled .published ++ b.settled .dropped ++ b.settled .abandoned ++ q.buffered ++
        w.inHand) := by
  refine List.perm_iff_count.mpr fun n => ?_
  simpa only [List.count_append] using h n

theorem empty (w : Worker) (q : Queue) (idle : w.phase = .idle) (stats : w.stats = {})
    (buffer : q.buffer = []) (blocked : q.blocked = []) (granted : q.granted = [])
    (receiving : q.receiving) : Balanced ⟨[], fun _ => []⟩ w q where
  places := by
    rw [Queue.promised, granted, Queue.buffered, buffer, Worker.inHand_of_idle idle]
    exact List.Perm.refl _
  counts o := by
    rw [stats]
    cases o <;> rfl
  nodup := by
    rw [Queue.promised, granted, Queue.lined, blocked]
    exact .nil
  bound := by
    rw [buffer]
    exact Nat.zero_le _
  gone h := by rw [receiving] at h; cases h
  ended h := by rw [idle] at h; cases h

/-- Flags that close a queue or stop a worker do not matter. -/
theorem of_core (bal : Balanced b w q)
    (hw : { w' with stopping := false } = { w with stopping := false })
    (hq : q'.core = q.core) : Balanced b w' q' := by
  obtain ⟨topic, retry, phase, stats, stopping⟩ := w
  obtain ⟨topic', retry', phase', stats', stopping'⟩ := w'
  obtain ⟨capacity, timeout, buffer, blocked, granted, isOpen, receiving⟩ := q
  obtain ⟨capacity', timeout', buffer', blocked', granted', isOpen', receiving'⟩ := q'
  simp only [Worker.mk.injEq, Queue.core, Queue.mk.injEq, and_true, true_and] at hw hq
  obtain ⟨rfl, rfl, rfl, rfl⟩ := hw
  obtain ⟨rfl, rfl, rfl, rfl, rfl, rfl⟩ := hq
  exact ⟨bal.places, bal.counts, bal.nodup, bal.bound, bal.gone, bal.ended⟩

/-! ## What producers do -/

/-- A new event goes into the buffer. -/
theorem accept (bal : Balanced b w q) (ho : q.offer item = (.accepted, q'))
    (fresh : item.ticket ∉ b.accepted ++ (q.lined ++ q.promised)) :
    Balanced { b with accepted := item.ticket :: b.accepted } w q' := by
  obtain ⟨receiving, free, rfl⟩ := Queue.offer_accepted ho
  refine ⟨places_of_count fun n => ?_, bal.counts, List.nodup_cons.mpr ⟨fresh, bal.nodup⟩, ?_,
    fun h => ?_, fun h => ?_⟩
  · have := bal.count_places n
    simp only [Queue.buffered, List.map_append, List.map_cons, List.map_nil, List.count_append,
      List.count_cons, List.count_nil, Queue.promised] at this ⊢
    omega
  · rw [List.length_append, List.length_singleton]
    exact free
  · cases receiving.symm.trans h
  · cases receiving.symm.trans (bal.ended h)

/-- A new producer goes to the end of the line. -/
theorem block (bal : Balanced b w q) (ho : q.offer item = (.blocked, q'))
    (fresh : item.ticket ∉ b.accepted ++ (q.lined ++ q.promised)) : Balanced b w q' := by
  obtain ⟨receiving, rfl⟩ := Queue.offer_blocked ho
  refine ⟨bal.places, bal.counts, ?_, bal.bound, fun h => ?_, bal.ended⟩
  · have nodup := List.nodup_cons.mpr ⟨fresh, bal.nodup⟩
    refine List.Perm.nodup_iff ?_ |>.mp nodup
    simp only [Queue.lined, Queue.promised, List.map_append, List.map_cons, List.map_nil,
      List.append_assoc, List.singleton_append]
    exact (List.perm_middle.symm).trans (List.Perm.append_left _ List.perm_middle.symm)
  · cases receiving.symm.trans h

/-- A producer that was taken from the line is told so. -/
theorem collect (bal : Balanced b w q) (hs : q.standing n = .accepted) :
    Balanced { b with accepted := n :: b.accepted } w (q.collect n) := by
  obtain ⟨-, hn⟩ := Queue.standing_accepted.mp hs
  have once : (q.granted.map Item.ticket).Nodup :=
    (List.nodup_append.mp (List.nodup_append.mp bal.nodup).2.1).2.1
  have perm : (n :: (q.collect n).promised).Perm q.promised := by
    unfold Queue.promised Queue.collect
    rw [Queue.map_ticket_filter, ← once.erase_eq_filter n]
    exact (List.perm_cons_erase hn).symm
  have nodup : ((n :: b.accepted) ++ ((q.collect n).lined ++ (q.collect n).promised)).Nodup := by
    refine List.Perm.nodup_iff ?_ |>.mpr bal.nodup
    have lined : (q.collect n).lined = q.lined := rfl
    rw [lined, List.cons_append]
    refine List.perm_middle.symm.trans (List.Perm.append_left _ ?_)
    exact List.perm_middle.symm.trans (List.Perm.append_left _ perm)
  refine ⟨places_of_count fun m => ?_, bal.counts, nodup, bal.bound, bal.gone, bal.ended⟩
  have := bal.count_places m
  have := perm.count_eq m
  have buffered : (q.collect n).buffered = q.buffered := rfl
  simp only [List.count_cons, buffered] at *
  omega

/-- A producer leaves the line. -/
theorem withdraw (bal : Balanced b w q) (n : Nat) : Balanced b w (q.withdraw n) := by
  refine ⟨bal.places, bal.counts, ?_, bal.bound, fun h => ?_, bal.ended⟩
  · refine bal.nodup.sublist (List.Sublist.append_left (List.Sublist.append_right ?_ _) _)
    unfold Queue.lined Queue.withdraw
    exact List.filter_sublist.map _
  · obtain ⟨buffer, blocked⟩ := bal.gone h
    refine ⟨buffer, ?_⟩
    unfold Queue.withdraw
    rw [blocked]
    rfl

/-- Who stands in line was not taken from it. -/
theorem not_promised (bal : Balanced b w q) (hn : n ∈ q.lined) : n ∉ q.promised := fun hp =>
  (List.nodup_append.mp (List.nodup_append.mp bal.nodup).2.1).2.2 n hn n hp rfl

/-! ## What the worker does -/

/-- To fill a slot moves a ticket to the buffer, and its producer counts as let in. -/
theorem fillSlot (bal : Balanced b w q) : Balanced b w q.fillSlot := by
  rcases q.fillSlot_cases with he | ⟨item, blocked, hb, hlt, he⟩
  · rw [he]
    exact bal
  · rw [he]
    refine ⟨places_of_count fun n => ?_, bal.counts, ?_, ?_, fun h => ?_, bal.ended⟩
    · have := bal.count_places n
      simp only [Queue.buffered, Queue.promised, List.map_append, List.map_cons, List.map_nil,
        List.count_append] at this ⊢
      omega
    · refine List.Perm.nodup_iff ?_ |>.mp bal.nodup
      refine List.Perm.append_left _ ?_
      simp only [Queue.lined, Queue.promised, hb, List.map_append, List.map_cons, List.map_nil]
      rw [← List.append_assoc]
      exact (List.perm_append_singleton _ _).symm
    · rw [List.length_append, List.length_singleton]
      exact hlt
    · rw [(bal.gone h).2] at hb
      cases hb

/-- The oldest event goes from the buffer to the worker. -/
theorem take {job : Job} {buffer : List Item} (bal : Balanced b w q) (idle : w.phase = .idle)
    (hb : q.buffer = job.item :: buffer) :
    Balanced b { w with phase := .attempting job } { q with buffer } := by
  refine ⟨places_of_count fun n => ?_, bal.counts, bal.nodup, ?_, fun h => ?_,
    fun h => (nomatch h)⟩
  · have := bal.count_places n
    rw [Worker.inHand_of_idle idle] at this
    simp only [Queue.buffered, hb, List.map_cons, List.count_cons, List.count_nil,
      Queue.promised] at this ⊢
    rw [Worker.inHand_of_item? rfl, List.count_singleton]
    omega
  · have := bal.bound
    rw [hb, List.length_cons] at this
    exact Nat.le_of_succ_le this
  · rw [(bal.gone h).1] at hb
    cases hb

theorem leaves_eq {o : Outcome} (h : w'.stats.count o = w.stats.count o) : w.leaves q w' o = [] :=
  if_neg (by omega)

/-- The worker is done with the event in hand. -/
theorem done (bal : Balanced b w q) (hw : w.phase.item? = some item) (idle : w'.phase = .idle)
    {o : Outcome} (ho : o ≠ .abandoned) (counted : w'.stats.count o = w.stats.count o + 1)
    (same : ∀ o', o' ≠ o → w'.stats.count o' = w.stats.count o') :
    Balanced (b.settle (w.leaves q w')) w' q := by
  have leaves : w.leaves q w' o = [item.ticket] := by
    unfold Worker.leaves
    rw [if_pos (by omega), if_neg ho, Worker.inHand_of_item? hw, List.append_nil]
  refine ⟨places_of_count fun n => ?_, fun o' => ?_, bal.nodup, bal.bound, bal.gone, fun h => ?_⟩
  · have := bal.count_places n
    rw [Worker.inHand_of_item? hw] at this
    rw [Worker.inHand_of_idle idle]
    dsimp only [Books.settle]
    cases o with
    | published =>
      rw [leaves, leaves_eq (same .dropped (by simp)), leaves_eq (same .abandoned (by simp))]
      simp only [List.count_append, List.count_nil] at this ⊢
      omega
    | dropped =>
      rw [leaves, leaves_eq (same .published (by simp)), leaves_eq (same .abandoned (by simp))]
      simp only [List.count_append, List.count_nil] at this ⊢
      omega
    | abandoned => exact absurd rfl ho
  · dsimp only [Books.settle]
    rw [List.length_append, bal.counts o']
    by_cases ho' : o' = o
    · rw [ho', leaves, counted, List.length_singleton]
      omega
    · rw [leaves_eq (same o' ho'), same o' ho', List.length_nil]
      omega
  · rw [idle] at h
    cases h

/-- The worker ends and gives up what it holds and what is in the buffer. -/
theorem abandon (bal : Balanced b w q) (ended : w'.phase = .ended)
    (counted : w'.stats.count .abandoned =
      w.stats.count .abandoned + (w.inHand.length + q.buffer.length))
    (same : ∀ o, o ≠ .abandoned → w'.stats.count o = w.stats.count o) :
    Balanced (b.settle (w.leaves q w')) w' q.stopReceiving := by
  have leaves : w.leaves q w' .abandoned = w.inHand ++ q.buffered := by
    unfold Worker.leaves
    rw [if_pos rfl]
    split
    · rfl
    · -- nothing was counted, so nothing was there
      have hand : w.inHand = [] := List.length_eq_zero_iff.mp (by omega)
      have buffer : q.buffer = [] := List.length_eq_zero_iff.mp (by omega)
      rw [hand, Queue.buffered, buffer]
      rfl
  have hand : w'.inHand = [] := by
    unfold Worker.inHand
    rw [ended]
    rfl
  refine ⟨places_of_count fun n => ?_, fun o => ?_, ?_, Nat.zero_le _, fun _ => ⟨rfl, rfl⟩,
    fun _ => rfl⟩
  · have := bal.count_places n
    have promised : q.stopReceiving.promised = q.promised := rfl
    have buffered : q.stopReceiving.buffered = [] := rfl
    rw [hand, promised, buffered]
    dsimp only [Books.settle]
    rw [leaves, leaves_eq (same .published (by simp)), leaves_eq (same .dropped (by simp))]
    simp only [List.count_append, List.count_nil] at this ⊢
    omega
  · dsimp only [Books.settle]
    rw [List.length_append, bal.counts o]
    by_cases ho : o = .abandoned
    · rw [ho, leaves, counted, List.length_append, Queue.buffered, List.length_map]
      omega
    · rw [leaves_eq (same o ho), same o ho, List.length_nil]
      omega
  · refine bal.nodup.sublist (List.Sublist.append_left (List.Sublist.append_right ?_ _) _)
    exact List.nil_sublist _

/-- Nothing is entered when no counter goes up. -/
theorem settle_same (bal : Balanced b w' q') (h : ∀ o, w'.stats.count o = w.stats.count o) :
    Balanced (b.settle (w.leaves q w')) w' q' := by
  have none : b.settle (w.leaves q w') = b := congrArg (Books.mk b.accepted)
    (funext fun o => congrArg (· ++ b.settled o) (leaves_eq (h o)))
  rw [none]
  exact bal

theorem step {h k : Host} (bal : Balanced b w q) (step : Worker.Step h q w k q' w') :
    Balanced (b.settle (w.leaves q w')) w' q' := by
  cases step with
  | taken idle _ ht =>
    obtain ⟨buffer, hb, rfl⟩ := Queue.take?_eq_some ht
    exact (bal.take idle hb).fillSlot.settle_same fun _ => rfl
  | drained idle _ hd =>
    refine bal.abandon rfl ?_ fun o _ => rfl
    unfold Queue.isDrained at hd
    simp only [Bool.and_eq_true, List.isEmpty_iff] at hd
    rw [Worker.inHand_of_idle idle, hd.1.1.2]
    rfl
  | abandoned idle _ _ =>
    refine bal.abandon rfl ?_ fun o ho => ?_
    · rw [Worker.inHand_of_idle idle, List.length_nil, Nat.zero_add]
      rfl
    · cases o <;> first | rfl | exact absurd rfl ho
  | interrupted hw _ _ =>
    refine bal.abandon rfl ?_ fun o ho => ?_
    · rw [Worker.inHand_of_item? hw, List.length_singleton]
      exact Nat.add_assoc _ _ _
    · cases o <;> first | rfl | exact absurd rfl ho
  | @moved item _ phase failedAttempts hw hp _ =>
    have same : ∀ o, ({ w.stats with failedAttempts } : PublishStats).count o = w.stats.count o :=
      fun o => by cases o <;> rfl
    refine settle_same ⟨?_, fun o => (bal.counts o).trans (same o).symm, bal.nodup, bal.bound,
      bal.gone, fun he => ?_⟩ same
    · have hand := (Worker.inHand_of_item? hw).trans (Worker.inHand_of_item?
        (w := { w with phase, stats := { w.stats with failedAttempts } }) hp).symm
      exact hand ▸ bal.places
    · rw [show phase = .ended from he] at hp
      cases hp
  | published hw _ =>
    refine bal.done (o := .published) hw rfl (by simp) rfl fun o ho => ?_
    cases o <;> first | rfl | exact absurd rfl ho
  | dropped hw _ =>
    refine bal.done (o := .dropped) hw rfl (by simp) rfl fun o ho => ?_
    cases o <;> first | rfl | exact absurd rfl ho

end Balanced

/-- The worker tells no producer anything, and moves nobody but from the line. -/
theorem Worker.Step.waiting {h k : Host} {q q' : Queue} {w w' : Worker}
    (step : Worker.Step h q w k q' w') :
    q'.capacity = q.capacity ∧ ∀ n ∈ q'.lined ++ q'.promised, n ∈ q.lined ++ q.promised := by
  have stopped : ∀ n ∈ q.stopReceiving.lined ++ q.stopReceiving.promised,
      n ∈ q.lined ++ q.promised := fun n hn => List.mem_append_right _ hn
  cases step with
  | taken _ _ ht =>
    obtain ⟨buffer, -, rfl⟩ := Queue.take?_eq_some ht
    rcases ({ q with buffer } : Queue).fillSlot_cases with he | ⟨item, blocked, hb, -, he⟩
    · rw [he]
      exact ⟨rfl, fun n hn => hn⟩
    · rw [he]
      refine ⟨rfl, fun n hn => ?_⟩
      dsimp only at hb
      simp only [Queue.lined, Queue.promised, hb, List.map_append, List.map_cons, List.map_nil,
        List.mem_append, List.mem_cons, List.not_mem_nil, or_false] at hn ⊢
      tauto
  | drained _ _ _ => exact ⟨rfl, stopped⟩
  | abandoned _ _ _ => exact ⟨rfl, stopped⟩
  | interrupted _ _ _ => exact ⟨rfl, stopped⟩
  | moved _ _ _ => exact ⟨rfl, fun n hn => hn⟩
  | published _ _ => exact ⟨rfl, fun n hn => hn⟩
  | dropped _ _ => exact ⟨rfl, fun n hn => hn⟩

end ChangeDispatch
