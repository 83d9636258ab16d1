import ChangeDispatch.Proofs.Wait.Registry

/-!
# What becomes of a waiter

A step of a registry keeps every waiter but those that were let go of. The slot of one
that is kept changes at most once, from empty: an acknowledgment that belongs to it fills
the slot, and the slot is closed when the table is, or when another waiter under the same
key was let go of.
-/
namespace ChangeDispatch.WaitRegistry

variable {arriving : AckEvent → Prop} {r s : WaitRegistry}

/-- The handles that are in use. -/
def serials (r : WaitRegistry) : List Nat := r.waiters.map Waiter.serial

theorem mem_serials {n : Nat} : n ∈ r.serials ↔ ∃ w ∈ r.waiters, w.serial = n := List.mem_map

theorem mem_resolve {key : WaitKey} {slot : Slot} {w : Waiter} :
    w ∈ (r.resolve key slot).waiters ↔ ∃ v ∈ r.waiters, v.resolve key slot = w := by
  simp [resolve]

/-! ## Handles in use -/

@[simp] theorem serials_resolve (r : WaitRegistry) (key : WaitKey) (slot : Slot) :
    (r.resolve key slot).serials = r.serials := by
  simp [serials, resolve, Function.comp_def]

theorem serials_register {event : ChangeEvent} {now : Nat} {timeout : Duration} {w : Waiter}
    (hr : r.register event now timeout = .ok (w, s)) : s.serials = r.serials ++ [w.serial] := by
  obtain ⟨-, -, -, -, -, -, rfl⟩ := register_ok hr
  simp [serials]

theorem WellFormed.serials_release (h : r.WellFormed) (serial : Nat) :
    (r.release serial).serials = r.serials.filter (· != serial) := by
  rcases h.release_cases serial with ⟨absent, ho⟩ | ⟨w, -, rfl, ho⟩
  · rw [ho]
    refine (List.filter_eq_self.mpr fun n hn => ?_).symm
    obtain ⟨w, hw, rfl⟩ := mem_serials.mp hn
    simpa using absent w hw
  · rw [ho, ← serials_resolve r w.key .closed]
    unfold serials WaitRegistry.forget
    rw [List.filter_map]
    rfl

theorem WellFormed.serials_offer (h : r.WellFormed) (ack : AckEvent) :
    (r.offer ack).2.serials = r.serials := by
  rcases h.offer_cases ack with ho | ⟨w, -, -, -, ho⟩
  · rw [ho]
  · rw [ho]
    exact serials_resolve r _ _

theorem WellFormed.serials_close (h : r.WellFormed) : r.close.2.serials = r.serials := by
  rw [h.close_eq]
  unfold serials
  dsimp only
  rw [List.map_map]
  refine List.map_congr_left fun w _ => ?_
  dsimp only [Function.comp]
  split <;> rfl

theorem register_stay {event : ChangeEvent} {now : Nat} {timeout : Duration} {u : Waiter}
    (hr : r.register event now timeout = .ok (u, s)) {v : Waiter} (hv : v ∈ r.waiters) :
    v ∈ s.waiters := by
  obtain ⟨-, -, -, -, -, -, rfl⟩ := register_ok hr
  exact List.mem_append_left _ hv

/-! ## Closed slots -/

/-- Another waiter under the key of `w`, which has no acknowledgment, was let go of. -/
def Displaces (r s : WaitRegistry) (w : Waiter) : Prop :=
  (∀ ack, w.slot ≠ .filled ack) ∧ ∃ v ∈ r.waiters, v.key = w.key ∧ v.serial ∉ s.serials

/-- Where every handle stays in use, no waiter is displaced. -/
theorem not_displaces (h : r.serials ⊆ s.serials) (w : Waiter) : ¬Displaces r s w := by
  rintro ⟨-, v, hv, -, gone⟩
  exact gone (h (List.mem_map_of_mem hv))

theorem closed_iff_of_subset {w : Waiter} (stay : r.serials ⊆ s.serials)
    (slots : w.slot = .closed ↔ ∃ v ∈ r.waiters, v.serial = w.serial ∧ v.slot = .closed) :
    w.slot = .closed ↔
      (∃ v ∈ r.waiters, v.serial = w.serial ∧ v.slot = .closed) ∨ Displaces r s w := by
  rw [slots]
  exact (or_iff_left (not_displaces stay w)).symm

theorem WellFormed.closed_iff_self (h : r.WellFormed) {w : Waiter} (hw : w ∈ r.waiters) :
    w.slot = .closed ↔ ∃ v ∈ r.waiters, v.serial = w.serial ∧ v.slot = .closed := by
  constructor
  · exact fun hc => ⟨w, hw, rfl, hc⟩
  · rintro ⟨v, hv, hs, hc⟩
    rwa [← h.eq_of_serial hv hw hs]

theorem WellFormed.closed_iff_register (h : r.WellFormed) {event : ChangeEvent} {now : Nat}
    {timeout : Duration} {u w : Waiter} (hr : r.register event now timeout = .ok (u, s))
    (hw : w ∈ s.waiters) :
    w.slot = .closed ↔ ∃ v ∈ r.waiters, v.serial = w.serial ∧ v.slot = .closed := by
  obtain ⟨-, hserial, hslot, -, -, -, rfl⟩ := register_ok hr
  rcases List.mem_append.mp hw with hw | hw
  · exact h.closed_iff_self hw
  · obtain rfl := List.mem_singleton.mp hw
    constructor
    · intro hc
      cases hslot.symm.trans hc
    · rintro ⟨v, hv, hs, -⟩
      have := h.fresh v hv
      omega

theorem WellFormed.closed_iff_release (h : r.WellFormed) {serial : Nat} {w : Waiter}
    (hw : w ∈ (r.release serial).waiters) :
    w.slot = .closed ↔
      (∃ v ∈ r.waiters, v.serial = w.serial ∧ v.slot = .closed) ∨
        Displaces r (r.release serial) w := by
  have left := h.serials_release serial
  rcases h.release_cases serial with ⟨-, ho⟩ | ⟨u, hu, rfl, ho⟩
  · rw [ho] at hw ⊢
    exact closed_iff_of_subset (List.Subset.refl _) (h.closed_iff_self hw)
  · have hw' := hw
    rw [ho] at hw'
    obtain ⟨v, hv, rfl⟩ := mem_resolve.mp (List.mem_of_mem_filter hw')
    by_cases hp : v.key = u.key ∧ v.isPending
    · -- the wait was under the key of the one that goes
      refine iff_of_true (by rw [Waiter.resolve_of_pending hp.1 hp.2]) (.inr ⟨?_, u, hu, ?_, ?_⟩)
      · simp [Waiter.resolve_of_pending hp.1 hp.2]
      · simpa using hp.1.symm
      · simp [left]
    · rw [Waiter.resolve_of_not hp]
      constructor
      · intro hc
        exact .inl ⟨v, hv, rfl, hc⟩
      · rintro (⟨x, hx, hs, hc⟩ | ⟨hopen, x, hx, hk, gone⟩)
        · rwa [← h.eq_of_serial hx hv hs]
        · -- only `u` goes, so it was under the key of `v`, which is not pending
          have hxu : x.serial = u.serial := by
            by_contra hxu
            rw [left] at gone
            exact gone (List.mem_filter.mpr ⟨List.mem_map_of_mem hx, by simpa using hxu⟩)
          obtain rfl := h.eq_of_serial hx hu hxu
          cases hslot : v.slot with
          | empty => exact absurd ⟨hk.symm, Waiter.isPending_iff.mpr hslot⟩ hp
          | filled ack => exact absurd hslot (hopen ack)
          | closed => rfl

theorem WellFormed.closed_iff_offer (h : r.WellFormed) {ack : AckEvent} {w : Waiter}
    (hw : w ∈ (r.offer ack).2.waiters) :
    w.slot = .closed ↔ ∃ v ∈ r.waiters, v.serial = w.serial ∧ v.slot = .closed := by
  rcases h.offer_cases ack with ho | ⟨v, -, -, -, ho⟩
  · rw [ho] at hw
    exact h.closed_iff_self hw
  · rw [ho] at hw
    obtain ⟨x, hx, rfl⟩ := mem_resolve.mp hw
    rw [Waiter.resolve_serial, ← h.closed_iff_self hx]
    by_cases hp : x.key = v.key ∧ x.isPending
    · rw [Waiter.resolve_of_pending hp.1 hp.2, Waiter.isPending_iff.mp hp.2]
      simp
    · rw [Waiter.resolve_of_not hp]

/-- While the table is open, a slot is closed in a step exactly if its waiter is displaced. -/
theorem WellFormed.closed_iff (h : r.WellFormed) (step : Step arriving r s)
    (hopen : s.table.closed = false) {w : Waiter} (hw : w ∈ s.waiters) :
    w.slot = .closed ↔
      (∃ v ∈ r.waiters, v.serial = w.serial ∧ v.slot = .closed) ∨ Displaces r s w := by
  cases step with
  | kept => exact closed_iff_of_subset (List.Subset.refl _) (h.closed_iff_self hw)
  | registered hr =>
    refine closed_iff_of_subset ?_ (h.closed_iff_register hr hw)
    rw [serials_register hr]
    exact List.subset_append_left _ _
  | released serial => exact h.closed_iff_release hw
  | @replaced event now timeout u s serial hr hne =>
    have left := (h.register hr).serials_release serial
    rw [(h.register hr).closed_iff_release hw]
    refine or_congr ⟨?_, ?_⟩ (and_congr_right fun _ => ⟨?_, ?_⟩)
    · rintro ⟨v, hv, hs, hc⟩
      obtain ⟨x, hx, hxv, hxc⟩ := (h.closed_iff_register hr hv).mp hc
      exact ⟨x, hx, hxv.trans hs, hxc⟩
    · rintro ⟨v, hv, hs, hc⟩
      exact ⟨v, register_stay hr hv, hs, hc⟩
    · -- the new waiter is not the one that goes
      rintro ⟨v, hv, hk, gone⟩
      refine ⟨v, ?_, hk, gone⟩
      rw [left] at gone
      obtain ⟨-, -, -, -, -, -, rfl⟩ := register_ok hr
      rcases List.mem_append.mp hv with hv | hv
      · exact hv
      · obtain rfl := List.mem_singleton.mp hv
        refine absurd (List.mem_filter.mpr ⟨?_, by simpa using hne.symm⟩) gone
        exact List.mem_map_of_mem (List.mem_append_right _ List.mem_cons_self)
    · rintro ⟨v, hv, hk, gone⟩
      exact ⟨v, register_stay hr hv, hk, gone⟩
  | offered _ =>
    refine closed_iff_of_subset ?_ (h.closed_iff_offer hw)
    rw [h.serials_offer]
    exact List.Subset.refl _
  | closed =>
    rw [h.close_eq] at hopen
    cases hopen

/-! ## Filled slots -/

theorem WellFormed.filled_release (h : r.WellFormed) {serial : Nat} {w : Waiter} {ack : AckEvent}
    (hw : w ∈ (r.release serial).waiters) (hf : w.slot = .filled ack) : w ∈ r.waiters := by
  rcases h.release_cases serial with ⟨-, ho⟩ | ⟨u, -, rfl, ho⟩
  · rwa [ho] at hw
  · rw [ho] at hw
    obtain ⟨v, hv, rfl⟩ := mem_resolve.mp (List.mem_of_mem_filter hw)
    by_cases hp : v.key = u.key ∧ v.isPending
    · rw [Waiter.resolve_of_pending hp.1 hp.2] at hf
      cases hf
    · rwa [Waiter.resolve_of_not hp]

theorem filled_register {event : ChangeEvent} {now : Nat} {timeout : Duration} {u w : Waiter}
    {ack : AckEvent} (hr : r.register event now timeout = .ok (u, s)) (hw : w ∈ s.waiters)
    (hf : w.slot = .filled ack) : w ∈ r.waiters := by
  obtain ⟨-, -, hslot, -, -, -, rfl⟩ := register_ok hr
  rcases List.mem_append.mp hw with hw | hw
  · exact hw
  · obtain rfl := List.mem_singleton.mp hw
    cases hslot.symm.trans hf

/-- A waiter has the acknowledgment that it had before, or one that has just arrived and
belonged to its entry. -/
theorem WellFormed.filled_cases (h : r.WellFormed) (step : Step arriving r s) {w : Waiter}
    {ack : AckEvent} (hw : w ∈ s.waiters) (hf : w.slot = .filled ack) :
    w ∈ r.waiters ∨
      arriving ack ∧ ∃ v ∈ r.waiters, v.isPending ∧ v.serial = w.serial ∧ v.key = w.key ∧
        r.table.Belongs ack v.entry := by
  cases step with
  | kept => exact .inl hw
  | registered hr => exact .inl (filled_register hr hw hf)
  | released serial => exact .inl (h.filled_release hw hf)
  | replaced hr _ => exact .inl (filled_register hr ((h.register hr).filled_release hw hf) hf)
  | @offered ack' arrives =>
    rcases h.offer_cases ack' with ho | ⟨v, hv, pv, belongs, ho⟩
    · rw [ho] at hw
      exact .inl hw
    · rw [ho] at hw
      obtain ⟨x, hx, rfl⟩ := mem_resolve.mp hw
      by_cases hp : x.key = v.key ∧ x.isPending
      · rw [Waiter.resolve_of_pending hp.1 hp.2] at hf
        obtain rfl := Slot.filled.inj hf
        obtain rfl := h.eq_of_key hx hv hp.2 pv hp.1
        exact .inr ⟨arrives, x, hx, pv, by simp, by simp, belongs⟩
      · rw [Waiter.resolve_of_not hp]
        exact .inl hx
  | closed =>
    rw [h.close_eq] at hw
    obtain ⟨x, hx, rfl⟩ := List.mem_map.mp hw
    split at hf
    · cases hf
    · rw [if_neg ‹_›]
      exact .inl hx

/-! ## What stays the same -/

/-- The second registry has no waiters but those of the first, none of them pending again,
and new ones with new serial numbers; it is open only if the first is. -/
structure Descends (r s : WaitRegistry) : Prop where
  nextSerial : r.table.nextSerial ≤ s.table.nextSerial
  closed : r.table.closed → s.table.closed
  waiters : ∀ w ∈ s.waiters,
    (∃ v ∈ r.waiters, v.registered = w.registered ∧ (w.isPending → v.isPending)) ∨
      r.table.nextSerial ≤ w.serial

namespace Descends

theorem refl (r : WaitRegistry) : Descends r r :=
  ⟨Nat.le_refl _, id, fun w hw => .inl ⟨w, hw, rfl, id⟩⟩

theorem trans {t : WaitRegistry} (h : Descends r s) (k : Descends s t) : Descends r t := by
  refine ⟨Nat.le_trans h.nextSerial k.nextSerial, fun hc => k.closed (h.closed hc), fun w hw => ?_⟩
  rcases k.waiters w hw with ⟨v, hv, same, hp⟩ | hnew
  · rcases h.waiters v hv with ⟨u, hu, before, hup⟩ | hnew
    · exact .inl ⟨u, hu, before.trans same, fun pw => hup (hp pw)⟩
    · exact .inr ((Waiter.of_registered same).1 ▸ hnew)
  · exact .inr (Nat.le_trans h.nextSerial hnew)

theorem resolve (r : WaitRegistry) (key : WaitKey) {slot : Slot} (hs : slot ≠ .empty) :
    Descends r (r.resolve key slot) := by
  refine ⟨Nat.le_refl _, id, fun w hw => ?_⟩
  obtain ⟨v, hv, rfl⟩ := mem_resolve.mp hw
  refine .inl ⟨v, hv, by simp, fun hp => ?_⟩
  rw [Waiter.isPending_resolve hs, Bool.and_eq_true] at hp
  exact hp.1

theorem forget (r : WaitRegistry) (serial : Nat) : Descends r (r.forget serial) :=
  ⟨Nat.le_refl _, id, fun w hw => .inl ⟨w, List.mem_of_mem_filter hw, rfl, id⟩⟩

theorem register {event : ChangeEvent} {now : Nat} {timeout : Duration} {u : Waiter}
    (hr : r.register event now timeout = .ok (u, s)) : Descends r s := by
  obtain ⟨-, hserial, -, -, -, -, rfl⟩ := register_ok hr
  refine ⟨Nat.le_succ _, id, fun w hw => ?_⟩
  rcases List.mem_append.mp hw with hw | hw
  · exact .inl ⟨w, hw, rfl, id⟩
  · obtain rfl := List.mem_singleton.mp hw
    exact .inr (Nat.le_of_eq hserial.symm)

end Descends

theorem WellFormed.descends_release (h : r.WellFormed) (serial : Nat) :
    Descends r (r.release serial) := by
  rcases h.release_cases serial with ⟨-, ho⟩ | ⟨u, -, rfl, ho⟩
  · rw [ho]
    exact .refl r
  · rw [ho]
    exact (Descends.resolve r u.key (by decide)).trans (.forget _ _)

theorem WellFormed.descends_offer (h : r.WellFormed) (ack : AckEvent) :
    Descends r (r.offer ack).2 := by
  rcases h.offer_cases ack with ho | ⟨v, -, -, -, ho⟩
  · rw [ho]
    exact .refl r
  · rw [ho]
    exact .resolve r v.key (by simp)

theorem WellFormed.descends_close (h : r.WellFormed) : Descends r r.close.2 := by
  rw [h.close_eq]
  refine ⟨Nat.le_refl _, fun _ => rfl, fun w hw => ?_⟩
  obtain ⟨v, hv, rfl⟩ := List.mem_map.mp hw
  refine .inl ⟨v, hv, ?_, fun hp => ?_⟩
  · split <;> rfl
  · by_contra hn
    rw [if_neg hn] at hp
    exact hn hp

theorem WellFormed.descends (h : r.WellFormed) (step : Step arriving r s) : Descends r s := by
  cases step with
  | kept => exact .refl r
  | registered hr => exact .register hr
  | released serial => exact h.descends_release serial
  | replaced hr _ => exact (Descends.register hr).trans ((h.register hr).descends_release _)
  | offered _ => exact h.descends_offer _
  | closed => exact h.descends_close

end ChangeDispatch.WaitRegistry
