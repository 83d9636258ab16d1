import ChangeDispatch.Broker.Delivery
import Mathlib.Data.List.Perm.Subperm

/-!
# The messages that a subscription still has

A message that was offered stays with its subscription, in the channel, with the receiver
or held back, until an offer is let go of. The number of an offer does not matter here: a
message is known by its number in the broker and its payload.
-/
namespace ChangeDispatch

/-- The message of an offer. -/
def Delivery.copy (d : Delivery) : Nat × Payload := (d.message, d.payload)

namespace Subscription

variable {s : Subscription} {d : Delivery}

theorem isLast_eq_false_iff :
    s.isLast d = false ↔ d.number < s.maxDeliveries.getD Delivery.lastNumber :=
  decide_eq_false_iff_not.trans Nat.not_le

/-- The offers that are not settled. -/
def outstanding (s : Subscription) : List Delivery :=
  s.channel ++ (s.held ++ s.delayed.map Prod.snd)

theorem outstanding_arrive (h : s.receiving) (d : Delivery) :
    (s.arrive d).outstanding.Perm (d :: s.outstanding) := by
  unfold arrive
  rw [if_pos h, outstanding, outstanding, List.append_assoc]
  exact List.perm_middle

/-- An offer that is received goes from the channel to the receiver. -/
theorem outstanding_take {channel : List Delivery} (h : s.channel = d :: channel) :
    ({ s with channel, held := s.held ++ [d] } : Subscription).outstanding.Perm s.outstanding := by
  rw [outstanding, outstanding, h, List.append_assoc]
  exact (List.Perm.append_left _ List.perm_middle).trans List.perm_middle

theorem outstanding_release (h : d ∈ s.held) :
    s.outstanding.Perm (d :: (s.release d).outstanding) := by
  have erased := (List.perm_cons_erase h).append_right (s.delayed.map Prod.snd)
  exact (erased.append_left _).trans List.perm_middle

/-- An offer that was held back is still outstanding when it is made. -/
theorem outstanding_offerDelayed {entry : Timer × Delivery} (h : entry ∈ s.delayed)
    (hr : s.receiving) : (s.offerDelayed entry).outstanding.Perm s.outstanding := by
  have erased : s.outstanding.Perm
      (entry.2 :: ({ s with delayed := s.delayed.erase entry } : Subscription).outstanding) := by
    have moved := (List.perm_cons_erase h).map Prod.snd
    exact ((moved.append_left _).append_left _).trans
      ((List.Perm.append_left _ List.perm_middle).trans List.perm_middle)
  exact (outstanding_arrive (s := { s with delayed := s.delayed.erase entry }) hr entry.2).trans
    erased.symm

/-- The next offer of a message takes the place of one that is handed back. -/
theorem outstanding_handBack (hr : s.receiving) (hl : s.isLast d = false)
    (timer : Option Timer) :
    (s.handBack d timer).outstanding.Perm (d.again :: (s.release d).outstanding) := by
  unfold handBack
  have last : (s.release d).isLast d = false := hl
  dsimp only
  rw [if_neg (by simp [last])]
  cases timer with
  | none => exact outstanding_arrive (s := s.release d) hr d.again
  | some timer =>
    simp only [outstanding, List.map_append, ← List.append_assoc]
    exact List.perm_append_singleton _ _

/-- The messages of these offers. -/
def copies (s : Subscription) : List (Nat × Payload) := s.outstanding.map Delivery.copy

theorem copies_eq (s : Subscription) :
    s.copies = s.channel.map Delivery.copy ++
      (s.held.map Delivery.copy ++ s.delayed.map fun entry => entry.2.copy) := by
  simp [copies, outstanding]

/-- The numbers of these messages. -/
def messages (s : Subscription) : List Nat := s.copies.map Prod.fst

theorem mem_messages {p : Nat × Payload} (h : p ∈ s.copies) : p.1 ∈ s.messages :=
  List.mem_map_of_mem h

theorem messages_subperm {t : Subscription} (ps : List (Nat × Payload))
    (h : (ps ++ t.copies).Subperm s.copies) :
    (ps.map Prod.fst ++ t.messages).Subperm s.messages := by
  obtain ⟨l, hp, hl⟩ := h
  unfold messages
  rw [← List.map_append]
  exact ⟨_, hp.map _, hl.map _⟩

theorem copies_arrive (h : s.receiving) (d : Delivery) :
    (s.arrive d).copies.Perm (d.copy :: s.copies) :=
  (outstanding_arrive h d).map Delivery.copy

theorem copies_arrive_subperm (s : Subscription) (d : Delivery) :
    (s.arrive d).copies.Subperm (d.copy :: s.copies) := by
  by_cases h : s.receiving
  · exact (copies_arrive h d).subperm
  · unfold arrive
    rw [if_neg h]
    exact (List.sublist_cons_self _ _).subperm

theorem config_arrive (s : Subscription) (d : Delivery) :
    (s.arrive d).toSubscriptionConfig = s.toSubscriptionConfig ∧ (s.arrive d).held = s.held ∧
      (s.arrive d).receiving = s.receiving ∧ (s.arrive d).attached = s.attached := by
  unfold arrive
  split <;> exact ⟨rfl, rfl, rfl, rfl⟩

/-- To hand an offer back lets go of it, whatever becomes of the message. -/
theorem config_handBack (s : Subscription) (d : Delivery) (timer : Option Timer) :
    (s.handBack d timer).toSubscriptionConfig = s.toSubscriptionConfig ∧
      (s.handBack d timer).held = (s.release d).held ∧
      (s.handBack d timer).receiving = s.receiving ∧
      (s.handBack d timer).attached = s.attached := by
  unfold handBack
  dsimp only
  split
  · exact ⟨rfl, rfl, rfl, rfl⟩
  · cases timer with
    | none => exact config_arrive (s.release d) d.again
    | some timer => exact ⟨rfl, rfl, rfl, rfl⟩

theorem copies_take {channel : List Delivery} (h : s.channel = d :: channel) :
    ({ s with channel, held := s.held ++ [d] } : Subscription).copies.Perm s.copies :=
  (outstanding_take h).map Delivery.copy

theorem copies_release (h : d ∈ s.held) : s.copies.Perm (d.copy :: (s.release d).copies) :=
  (outstanding_release h).map Delivery.copy

theorem copies_release_subperm (s : Subscription) (d : Delivery) :
    (s.release d).copies.Subperm s.copies := by
  rw [copies_eq, copies_eq]
  exact (((List.erase_sublist.map _).append_right _).append_left _).subperm

/-- An offer that was held back and is made again is still the same message. -/
theorem copies_offerDelayed {entry : Timer × Delivery} (h : entry ∈ s.delayed)
    (hr : s.receiving) : (s.offerDelayed entry).copies.Perm s.copies :=
  (outstanding_offerDelayed h hr).map Delivery.copy

theorem copies_offerDelayed_subperm {entry : Timer × Delivery} (h : entry ∈ s.delayed) :
    (s.offerDelayed entry).copies.Subperm s.copies := by
  by_cases hr : s.receiving
  · exact (copies_offerDelayed h hr).subperm
  · unfold offerDelayed arrive
    dsimp only
    rw [if_neg hr, copies_eq, copies_eq]
    exact (((List.erase_sublist.map _).append_left _).append_left _).subperm

/-- A message that is handed back stays, unless the bound allows no further offer. -/
theorem copies_handBack (h : d ∈ s.held) (hr : s.receiving) (hl : s.isLast d = false)
    (timer : Option Timer) : (s.handBack d timer).copies.Perm s.copies :=
  ((outstanding_handBack hr hl timer).map Delivery.copy).trans (copies_release h).symm

theorem copies_handBack_last (hl : s.isLast d) (timer : Option Timer) :
    s.handBack d timer = s.release d := by
  unfold handBack
  have last : (s.release d).isLast d = true := hl
  dsimp only
  rw [if_pos last]

theorem copies_handBack_subperm (h : d ∈ s.held) (timer : Option Timer) :
    (s.handBack d timer).copies.Subperm s.copies := by
  have released := copies_release h
  unfold handBack
  dsimp only
  split
  · exact s.copies_release_subperm d
  · cases timer with
    | none => exact ((s.release d).copies_arrive_subperm d.again).trans released.symm.subperm
    | some timer =>
      refine List.Perm.subperm (List.Perm.trans ?_ released.symm)
      rw [copies_eq, copies_eq]
      simp only [List.map_append, ← List.append_assoc]
      exact List.perm_append_singleton _ _

theorem copies_stopReceiving_subperm (s : Subscription) :
    s.stopReceiving.copies.Subperm s.copies := by
  rw [copies_eq, copies_eq]
  exact ((List.nil_sublist _).append_right _).subperm

end Subscription

end ChangeDispatch
