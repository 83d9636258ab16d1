import ChangeDispatch.Wait.Registry
import Mathlib.Data.List.Nodup
import Mathlib.Data.List.Pairwise

/-!
# The registry and its table

In a well-formed registry the table holds exactly one entry for each waiter whose slot is
empty, in the order of registration. Three operations take entries out of the table: an
acknowledgment takes the one that it belongs to, letting go of a waiter takes the one under
its key, and closing takes all of them. The first two resolve a key: they remove what is
under it and set the slot of the waiter that was waiting there.
-/
namespace ChangeDispatch

/-- The one entry of a list with some property is the one that a search finds. -/
theorem find?_eq_some_of_unique {α : Type} {l : List α} {p : α → Bool} {a : α} (ha : a ∈ l)
    (hp : p a) (hu : ∀ b ∈ l, p b → b = a) : l.find? p = some a := by
  cases hf : l.find? p with
  | none => exact absurd hp (List.find?_eq_none.mp hf a ha)
  | some b => rw [hu b (List.mem_of_find?_eq_some hf) (List.find?_some hf)]

namespace Waiter

/-- The wait is registered and has neither been answered nor failed. -/
def isPending (w : Waiter) : Bool := w.slot == .empty

theorem isPending_iff {w : Waiter} : w.isPending ↔ w.slot = .empty := beq_iff_eq

def entry (w : Waiter) : PendingEntry := ⟨w.key, w.workspace, w.serial⟩

/-- The waiter as it was when its wait was registered. -/
def registered (w : Waiter) : Waiter := { w with slot := .empty }

theorem of_registered {v w : Waiter} (h : v.registered = w.registered) :
    v.serial = w.serial ∧ v.key = w.key ∧ v.deadline = w.deadline := by
  simp only [registered, Waiter.mk.injEq] at h
  exact ⟨h.1, h.2.1, h.2.2.2.1⟩

/-- Set the slot of a waiter that is pending under a key. -/
def resolve (key : WaitKey) (slot : Slot) (w : Waiter) : Waiter :=
  if w.key == key && w.isPending then { w with slot } else w

@[simp] theorem resolve_serial (key : WaitKey) (slot : Slot) (w : Waiter) :
    (w.resolve key slot).serial = w.serial := by
  unfold resolve
  split <;> rfl

@[simp] theorem resolve_key (key : WaitKey) (slot : Slot) (w : Waiter) :
    (w.resolve key slot).key = w.key := by
  unfold resolve
  split <;> rfl

@[simp] theorem resolve_entry (key : WaitKey) (slot : Slot) (w : Waiter) :
    (w.resolve key slot).entry = w.entry := by
  unfold resolve
  split <;> rfl

@[simp] theorem resolve_registered (key : WaitKey) (slot : Slot) (w : Waiter) :
    (w.resolve key slot).registered = w.registered := by
  unfold resolve
  split <;> rfl

theorem resolve_of_pending {key : WaitKey} {w : Waiter} (hk : w.key = key) (hp : w.isPending)
    (slot : Slot) : w.resolve key slot = { w with slot } := by
  simp [resolve, hk, hp]

theorem resolve_of_not {key : WaitKey} {w : Waiter} (h : ¬(w.key = key ∧ w.isPending))
    (slot : Slot) : w.resolve key slot = w := by
  unfold resolve
  rw [if_neg (by simpa using h)]

theorem isPending_resolve {slot : Slot} (hs : slot ≠ .empty) (key : WaitKey) (w : Waiter) :
    (w.resolve key slot).isPending = (w.isPending && w.key != key) := by
  unfold resolve
  by_cases hk : w.key = key
  · cases hp : w.isPending with
    | true => simpa [hk, isPending] using hs
    | false => simpa [hk] using hp
  · simp [hk, bne]

end Waiter

namespace PendingTable

theorem mem_of_find? {t : PendingTable} {key : WaitKey} {e : PendingEntry}
    (h : t.find? key = some e) : e ∈ t.entries ∧ e.key = key :=
  ⟨List.mem_of_find?_eq_some h, by simpa using List.find?_some h⟩

theorem find?_eq_some_iff {t : PendingTable} {key : WaitKey} {e : PendingEntry}
    (keys : (t.entries.map PendingEntry.key).Nodup) :
    t.find? key = some e ↔ e ∈ t.entries ∧ e.key = key := by
  constructor
  · exact mem_of_find?
  · rintro ⟨he, rfl⟩
    refine find?_eq_some_of_unique he (beq_self_eq_true _) fun f hf hk => ?_
    exact List.inj_on_of_nodup_map keys hf he (by simpa using hk)

/-- Where nothing is under a key, nothing is taken out. -/
theorem remove_of_find?_eq_none {t : PendingTable} {key : WaitKey} (h : t.find? key = none) :
    t.remove key = (none, t) := by
  have same : t.entries.filter (fun e => e.key != key) = t.entries :=
    List.filter_eq_self.mpr fun e he => by simpa using List.find?_eq_none.mp h e he
  unfold remove
  rw [h, same]

/-- One entry has the key, so one goes. -/
theorem remove_of_find?_eq_some {t : PendingTable} {key : WaitKey} {e : PendingEntry}
    (keys : (t.entries.map PendingEntry.key).Nodup) (found : t.find? key = some e) :
    t.remove key = (some e, { t with entries := t.entries.erase e }) := by
  obtain ⟨mem, rfl⟩ := mem_of_find? found
  have others : t.entries.filter (fun f => f.key != e.key) = t.entries.erase e := by
    rw [keys.of_map.erase_eq_filter e]
    refine List.filter_congr fun f hf => ?_
    have same : f.key = e.key ↔ f = e :=
      ⟨List.inj_on_of_nodup_map keys hf mem, congrArg PendingEntry.key⟩
    rw [Bool.eq_iff_iff, bne_iff_ne, bne_iff_ne, Ne, Ne, same]
  unfold remove
  rw [found, others]

/-- An entry is added at the end, under a key that no other entry has. -/
theorem insert_ok {t u : PendingTable} {requestId : Option RequestId} {workspace : String}
    {e : PendingEntry} (h : t.insert requestId workspace = .ok (e, u)) :
    t.closed = false ∧
    e = ⟨requestId.elim (.own t.nextSerial) WaitKey.request, workspace, t.nextSerial⟩ ∧
    u = { t with nextSerial := t.nextSerial + 1, entries := t.entries ++ [e] } ∧
    ∀ id, requestId = some id → t.find? (.request id) = none := by
  unfold insert at h
  split at h
  · cases h
  next hc =>
    refine ⟨by simpa using hc, ?_⟩
    dsimp only at h
    split at h
    · cases h
    next hfree =>
      obtain ⟨rfl, rfl⟩ := Prod.mk.inj (Except.ok.inj h)
      refine ⟨rfl, rfl, fun id hid => ?_⟩
      subst hid
      cases hf : t.find? (.request id) with
      | none => rfl
      | some f => exact absurd hf (hfree id f rfl)

/-- A new key is not in use: an identifier was free, and a number is used for the first time. -/
theorem newKey_notMem {t : PendingTable} {requestId : Option RequestId}
    (own : ∀ e ∈ t.entries, ∀ n, e.key = .own n → n < t.nextSerial)
    (free : ∀ id, requestId = some id → t.find? (.request id) = none) :
    requestId.elim (.own t.nextSerial) WaitKey.request ∉ t.entries.map PendingEntry.key := by
  rw [List.mem_map]
  rintro ⟨e, mem, same⟩
  cases requestId with
  | none => exact absurd (own e mem _ same) (Nat.lt_irrefl _)
  | some id => exact List.find?_eq_none.mp (free id rfl) e mem (beq_iff_eq.mpr same)

theorem earliest_eq_none {es : List PendingEntry} (h : earliest es = none) : es = [] := by
  cases es with
  | nil => rfl
  | cons e es =>
    unfold earliest at h
    split at h
    · cases h
    · split at h <;> cases h

/-- The earliest entry is one of the list, and no other was registered before it. -/
theorem earliest_eq_some {es : List PendingEntry} {e : PendingEntry} (h : earliest es = some e) :
    e ∈ es ∧ ∀ f ∈ es, e.serial ≤ f.serial := by
  induction es generalizing e with
  | nil => cases h
  | cons d es ih =>
    unfold earliest at h
    split at h
    next hnone =>
      obtain rfl := Option.some.inj h
      obtain rfl := earliest_eq_none hnone
      simp
    next f hf =>
      obtain ⟨hmem, hmin⟩ := ih hf
      split at h
      next hlt =>
        obtain rfl := Option.some.inj h
        refine ⟨List.mem_cons_of_mem _ hmem, fun g hg => ?_⟩
        rcases List.mem_cons.mp hg with rfl | hg
        · exact Nat.le_of_lt hlt
        · exact hmin g hg
      next hge =>
        obtain rfl := Option.some.inj h
        refine ⟨List.mem_cons_self, fun g hg => ?_⟩
        rcases List.mem_cons.mp hg with rfl | hg
        · exact Nat.le_refl _
        · exact Nat.le_trans (Nat.le_of_not_lt hge) (hmin g hg)

/-- The entry that an acknowledgment belongs to: with an identifier, the one under it;
without, the first registered of those for its workspace. -/
def Belongs (t : PendingTable) (ack : AckEvent) (e : PendingEntry) : Prop :=
  match ack.event.requestId with
  | some id => e.key = .request id
  | none => e.workspace = ack.workspace ∧
      ∀ f ∈ t.entries, f.workspace = ack.workspace → e.serial ≤ f.serial

end PendingTable

namespace WaitRegistry

structure WellFormed (r : WaitRegistry) : Prop where
  entries : r.table.entries = (r.waiters.filter Waiter.isPending).map Waiter.entry
  keys : (r.table.entries.map PendingEntry.key).Nodup
  ordered : r.waiters.Pairwise fun v w => v.serial < w.serial
  fresh : ∀ w ∈ r.waiters, w.serial < r.table.nextSerial
  own : ∀ w ∈ r.waiters, ∀ n, w.key = .own n → n = w.serial
  emptied : r.table.closed → r.table.entries = []

theorem wellFormed_start : WellFormed {} :=
  ⟨rfl, List.nodup_nil, .nil, by simp, by simp, fun _ => rfl⟩

namespace WellFormed

variable {r : WaitRegistry}

theorem mem_entries (h : r.WellFormed) {e : PendingEntry} :
    e ∈ r.table.entries ↔ ∃ w ∈ r.waiters, w.isPending ∧ w.entry = e := by
  rw [h.entries]
  simp [List.mem_map, List.mem_filter, and_assoc]

theorem eq_of_serial (h : r.WellFormed) {v w : Waiter} (hv : v ∈ r.waiters) (hw : w ∈ r.waiters)
    (hs : v.serial = w.serial) : v = w := by
  have inj := List.inj_on_of_nodup_map (f := Waiter.serial)
    ((List.pairwise_map.mpr h.ordered).imp fun hlt => Nat.ne_of_lt hlt)
  exact inj hv hw hs

theorem eq_of_key (h : r.WellFormed) {v w : Waiter} (hv : v ∈ r.waiters) (hw : w ∈ r.waiters)
    (pv : v.isPending) (pw : w.isPending) (hk : v.key = w.key) : v = w := by
  have he : v.entry = w.entry :=
    List.inj_on_of_nodup_map h.keys (h.mem_entries.mpr ⟨v, hv, pv, rfl⟩)
      (h.mem_entries.mpr ⟨w, hw, pw, rfl⟩) hk
  exact h.eq_of_serial hv hw (congrArg PendingEntry.serial he)

theorem waiter?_eq_some (h : r.WellFormed) {serial : Nat} {w : Waiter} :
    r.waiter? serial = some w ↔ w ∈ r.waiters ∧ w.serial = serial := by
  constructor
  · intro hf
    exact ⟨List.mem_of_find?_eq_some hf, by simpa using List.find?_some hf⟩
  · rintro ⟨hw, rfl⟩
    refine find?_eq_some_of_unique hw (beq_self_eq_true _) fun v hv hs => ?_
    exact h.eq_of_serial hv hw (by simpa using hs)

theorem find?_eq_some (h : r.WellFormed) {key : WaitKey} {e : PendingEntry} :
    r.table.find? key = some e ↔ e ∈ r.table.entries ∧ e.key = key :=
  PendingTable.find?_eq_some_iff h.keys

end WellFormed

/-! ## What the operations do -/

theorem table_release (r : WaitRegistry) (serial : Nat) :
    (r.release serial).table = (r.waiter? serial).elim r.table fun w => (r.table.remove w.key).2 := by
  unfold release
  cases r.waiter? serial with
  | none => rfl
  | some w =>
    dsimp only [PendingTable.remove, Option.elim]
    split <;> rfl

theorem table_offer (r : WaitRegistry) (ack : AckEvent) :
    (r.offer ack).2.table = (r.table.takeMatch ack).2 := by
  unfold offer
  split
  next unmatched => rw [unmatched]
  next entry table matched =>
    rw [matched]
    dsimp only
    split <;> rfl

theorem table_close (r : WaitRegistry) : r.close.2.table = r.table.close.2 := by
  have filled (entries : List PendingEntry) (s : WaitRegistry) :
      (entries.foldl (fun r entry => r.fill entry.serial .closed) s).table = s.table := by
    induction entries generalizing s with
    | nil => rfl
    | cons entry entries ih => exact ih _
  exact filled _ _

/-- Take what is under a key out of the table and set the slot of the waiter there. -/
def resolve (r : WaitRegistry) (key : WaitKey) (slot : Slot) : WaitRegistry :=
  ⟨(r.table.remove key).2, r.waiters.map (·.resolve key slot)⟩

/-- Remove a handle and nothing else. -/
def forget (r : WaitRegistry) (serial : Nat) : WaitRegistry :=
  { r with waiters := r.waiters.filter (·.serial != serial) }

/-- To fill the slot of the entry under a key is to resolve the key. -/
theorem WellFormed.fill_eq {r : WaitRegistry} (h : r.WellFormed) {key : WaitKey}
    {e : PendingEntry} (he : r.table.find? key = some e) (slot : Slot) :
    ({ r with table := (r.table.remove key).2 } : WaitRegistry).fill e.serial slot =
      r.resolve key slot := by
  obtain ⟨hmem, rfl⟩ := h.find?_eq_some.mp he
  obtain ⟨v, hv, pv, rfl⟩ := h.mem_entries.mp hmem
  unfold fill resolve
  congr 1
  refine List.map_congr_left fun w hw => ?_
  have same : (w.serial == v.serial && w.isPending) = (w.key == v.key && w.isPending) := by
    cases pw : w.isPending with
    | false => simp
    | true =>
      rw [Bool.and_true, Bool.and_true, Bool.eq_iff_iff, beq_iff_eq, beq_iff_eq]
      constructor
      · intro hs; rw [h.eq_of_serial hw hv hs]
      · intro hk; rw [h.eq_of_key hw hv pw pv hk]
  unfold Waiter.resolve
  change (if (w.serial == v.serial && w.isPending) then _ else _) = _
  rw [same]
  rfl

theorem WellFormed.resolve {r : WaitRegistry} (h : r.WellFormed) (key : WaitKey) {slot : Slot}
    (hs : slot ≠ .empty) : (r.resolve key slot).WellFormed where
  entries := by
    have hp : Waiter.isPending ∘ (Waiter.resolve key slot ·) =
        fun w => w.isPending && w.key != key :=
      funext fun w => Waiter.isPending_resolve hs key w
    have he : Waiter.entry ∘ (Waiter.resolve key slot ·) = Waiter.entry :=
      funext fun w => Waiter.resolve_entry key slot w
    unfold WaitRegistry.resolve PendingTable.remove
    dsimp only
    rw [List.filter_map, List.map_map, hp, he, h.entries, List.filter_map, List.filter_filter]
    refine congrArg _ (List.filter_congr fun w _ => ?_)
    rw [Bool.and_comm]
    rfl
  keys := h.keys.sublist (List.filter_sublist.map _)
  ordered := List.pairwise_map.mpr (by simpa using h.ordered)
  fresh := by simpa [WaitRegistry.resolve, PendingTable.remove] using h.fresh
  own := by simpa [WaitRegistry.resolve] using h.own
  emptied hc := by
    have := h.emptied hc
    simp [WaitRegistry.resolve, PendingTable.remove, this]

theorem WellFormed.forget {r : WaitRegistry} (h : r.WellFormed) {serial : Nat}
    (hn : ∀ w ∈ r.waiters, w.serial = serial → w.isPending = false) :
    (r.forget serial).WellFormed where
  entries := by
    unfold WaitRegistry.forget
    dsimp only
    rw [h.entries, List.filter_filter]
    refine congrArg _ (List.filter_congr fun w hw => ?_)
    by_cases hs : w.serial = serial
    · simp [hn w hw hs]
    · simp [hs]
  keys := h.keys
  ordered := h.ordered.filter _
  fresh w hw := h.fresh w (List.mem_of_mem_filter hw)
  own w hw := h.own w (List.mem_of_mem_filter hw)
  emptied := h.emptied

/-- A registered waiter is pending, has a serial number of its own, and is known by the
identifier of its request or by that number. -/
theorem register_ok {r r' : WaitRegistry} {event : ChangeEvent} {now : Nat} {timeout : Duration}
    {w : Waiter} (h : r.register event now timeout = .ok (w, r')) :
    r.table.closed = false ∧ w.serial = r.table.nextSerial ∧ w.slot = .empty ∧
    w.key = event.requestId.elim (.own w.serial) WaitKey.request ∧ w.workspace = event.name ∧
    (∀ id, event.requestId = some id → r.table.find? (.request id) = none) ∧
    r' = ⟨{ r.table with nextSerial := r.table.nextSerial + 1,
                         entries := r.table.entries ++ [w.entry] }, r.waiters ++ [w]⟩ := by
  unfold register at h
  cases hi : r.table.insert event.requestId event.name with
  | error e => rw [hi] at h; cases h
  | ok v =>
    obtain ⟨e, t⟩ := v
    obtain ⟨hc, rfl, rfl, hfree⟩ := PendingTable.insert_ok hi
    rw [hi] at h
    obtain ⟨rfl, rfl⟩ := Prod.mk.inj (Except.ok.inj h)
    exact ⟨hc, rfl, rfl, rfl, rfl, hfree, rfl⟩

theorem WellFormed.register {r r' : WaitRegistry} {event : ChangeEvent} {now : Nat}
    {timeout : Duration} {w : Waiter} (h : r.WellFormed)
    (hr : r.register event now timeout = .ok (w, r')) : r'.WellFormed := by
  obtain ⟨hc, hs, hslot, hk, -, hfree, rfl⟩ := register_ok hr
  have pending : w.isPending := by simp [Waiter.isPending, hslot]
  refine ⟨?_, ?_, ?_, ?_, ?_, fun hclosed => ?_⟩
  · simp [h.entries, List.filter_append, pending]
  · have used : ∀ e ∈ r.table.entries, ∀ n, e.key = .own n → n < r.table.nextSerial := by
      intro e he n own
      obtain ⟨v, hv, -, rfl⟩ := h.mem_entries.mp he
      exact h.own v hv n own ▸ h.fresh v hv
    rw [List.map_append, List.nodup_append']
    refine ⟨h.keys, List.nodup_singleton _, fun k hold hnew => ?_⟩
    obtain rfl := List.mem_singleton.mp hnew
    refine PendingTable.newKey_notMem used hfree ?_
    rw [← hs, ← hk]
    exact hold
  · refine List.pairwise_append.mpr ⟨h.ordered, List.pairwise_singleton _ _, fun v hv u hu => ?_⟩
    obtain rfl := List.mem_singleton.mp hu
    rw [hs]
    exact h.fresh v hv
  · intro v hv
    rcases List.mem_append.mp hv with hv | hv
    · exact Nat.lt_succ_of_lt (h.fresh v hv)
    · obtain rfl := List.mem_singleton.mp hv
      exact hs ▸ Nat.lt_succ_self _
  · intro v hv n hn
    rcases List.mem_append.mp hv with hv | hv
    · exact h.own v hv n hn
    · obtain rfl := List.mem_singleton.mp hv
      cases hid : event.requestId with
      | none => rw [hid] at hk; exact WaitKey.own.inj (hn.symm.trans hk)
      | some id => rw [hid] at hk; cases hn.symm.trans hk
  · rw [hc] at hclosed
    cases hclosed

theorem fill_forget (r : WaitRegistry) (filled forgotten : Nat) (slot : Slot) :
    (r.forget forgotten).fill filled slot = (r.fill filled slot).forget forgotten := by
  unfold fill forget
  dsimp only
  rw [List.filter_map]
  congr 2
  refine List.filter_congr fun w _ => ?_
  dsimp only [Function.comp]
  split <;> rfl

/-- To let go of a waiter resolves its key, whoever is waiting there. -/
theorem WellFormed.release_eq {r : WaitRegistry} (h : r.WellFormed) {w : Waiter}
    (hw : w ∈ r.waiters) : r.release w.serial = (r.resolve w.key .closed).forget w.serial := by
  unfold release PendingTable.remove
  rw [h.waiter?_eq_some.mpr ⟨hw, rfl⟩]
  dsimp only
  cases hf : r.table.find? w.key with
  | some e =>
    exact (fill_forget _ _ _ _).trans (congrArg (·.forget w.serial) (h.fill_eq hf .closed))
  | none =>
    -- nobody is pending under the key, so there is no slot to set
    have same : r.waiters.map (·.resolve w.key .closed) = r.waiters := by
      refine (List.map_congr_left fun v hv => Waiter.resolve_of_not ?_ .closed).trans
        (List.map_id _)
      rintro ⟨hk, hp⟩
      have found := h.find?_eq_some.mpr ⟨h.mem_entries.mpr ⟨v, hv, hp, rfl⟩, hk⟩
      cases hf.symm.trans found
    unfold WaitRegistry.resolve WaitRegistry.forget
    rw [same]
    rfl

/-- Letting go of a waiter that is not there does nothing. -/
theorem WellFormed.release_cases {r : WaitRegistry} (h : r.WellFormed) (serial : Nat) :
    (∀ w ∈ r.waiters, w.serial ≠ serial) ∧ r.release serial = r ∨
      ∃ w ∈ r.waiters, w.serial = serial ∧
        r.release serial = (r.resolve w.key .closed).forget serial := by
  cases hf : r.waiter? serial with
  | none =>
    refine .inl ⟨fun w hw => by simpa using List.find?_eq_none.mp hf w hw, ?_⟩
    unfold release
    rw [hf]
  | some w =>
    obtain ⟨hw, rfl⟩ := h.waiter?_eq_some.mp hf
    exact .inr ⟨w, hw, rfl, h.release_eq hw⟩

/-- An acknowledgment is handed to the pending waiter that it belongs to, or the registry
does not change. -/
theorem WellFormed.offer_cases {r : WaitRegistry} (h : r.WellFormed) (ack : AckEvent) :
    r.offer ack = (.unmatched, r) ∨
    ∃ w ∈ r.waiters, w.isPending ∧ r.table.Belongs ack w.entry ∧
      r.offer ack = (.taken w.entry, r.resolve w.key (.filled ack)) := by
  unfold offer PendingTable.takeMatch
  cases hm : r.table.matchKey? ack with
  | none => exact .inl rfl
  | some key =>
    cases hf : r.table.find? key with
    | none =>
      dsimp only
      rw [PendingTable.remove_of_find?_eq_none hf]
      exact .inl rfl
    | some e =>
      dsimp only [PendingTable.remove]
      rw [hf]
      obtain ⟨he, hk⟩ := h.find?_eq_some.mp hf
      obtain ⟨w, hw, hp, rfl⟩ := h.mem_entries.mp he
      refine .inr ⟨w, hw, hp, ?_, ?_⟩
      · unfold PendingTable.Belongs
        unfold PendingTable.matchKey? at hm
        cases hid : ack.event.requestId with
        | some id =>
          rw [hid] at hm
          exact hk.trans (Option.some.inj hm).symm
        | none =>
          rw [hid] at hm
          obtain ⟨f, hearliest, hfk⟩ := Option.map_eq_some_iff.mp hm
          obtain ⟨hmem, hmin⟩ := PendingTable.earliest_eq_some hearliest
          obtain ⟨hf', hws⟩ := List.mem_filter.mp hmem
          obtain rfl : f = w.entry := List.inj_on_of_nodup_map h.keys hf' he (hfk.trans hk.symm)
          refine ⟨by simpa using hws, fun g hg hgw => hmin g ?_⟩
          exact List.mem_filter.mpr ⟨hg, by simpa using hgw⟩
      · have takes : canTake { r with table := (r.table.remove key).2 } w.entry :=
          List.any_eq_true.mpr ⟨w, hw, by simpa [Waiter.entry] using Waiter.isPending_iff.mp hp⟩
        dsimp only
        refine (if_pos takes).trans ?_
        rw [show w.key = key from hk]
        exact congrArg (Prod.mk (Offer.taken w.entry)) (h.fill_eq hf _)

theorem foldl_fill (es : List PendingEntry) (r : WaitRegistry) {slot : Slot}
    (hs : slot ≠ .empty) :
    es.foldl (fun r e => r.fill e.serial slot) r =
      { r with waiters := r.waiters.map fun w =>
          if es.any (·.serial == w.serial) && w.isPending then { w with slot } else w } := by
  induction es generalizing r with
  | nil => simp
  | cons e es ih =>
    rw [List.foldl_cons, ih]
    unfold fill
    dsimp only
    rw [List.map_map]
    congr 1
    refine List.map_congr_left fun w _ => ?_
    dsimp only [Function.comp]
    cases hp : w.isPending with
    | false =>
      have hslot : (w.slot == .empty) = false := hp
      simp only [hslot, hp, Bool.and_false, Bool.false_eq_true, if_false]
    | true =>
      have hslot : w.slot = .empty := Waiter.isPending_iff.mp hp
      by_cases he : w.serial = e.serial
      · simp [he, hslot, Waiter.isPending, hs]
      · have he' : ¬e.serial = w.serial := fun h => he h.symm
        simp [he, he', hp]

/-- To close fails every pending waiter. -/
theorem WellFormed.close_eq {r : WaitRegistry} (h : r.WellFormed) :
    r.close.2 = ⟨{ r.table with entries := [], closed := true },
      r.waiters.map fun w => if w.isPending then { w with slot := .closed } else w⟩ := by
  refine (foldl_fill _ _ (by decide)).trans ?_
  congr 1
  refine List.map_congr_left fun w hw => ?_
  cases hp : w.isPending with
  | false => simp
  | true =>
    have listed : r.table.entries.any (·.serial == w.serial) :=
      List.any_eq_true.mpr ⟨w.entry, h.mem_entries.mpr ⟨w, hw, hp, rfl⟩, beq_self_eq_true _⟩
    simp [listed]

theorem WellFormed.release {r : WaitRegistry} (h : r.WellFormed) (serial : Nat) :
    (r.release serial).WellFormed := by
  rcases h.release_cases serial with ⟨-, ho⟩ | ⟨w, hw, rfl, ho⟩
  · rwa [ho]
  · rw [ho]
    have resolved : (r.resolve w.key .closed).WellFormed := h.resolve w.key (by decide)
    refine resolved.forget fun v hv hs => ?_
    -- the waiter itself is under the key, so its own slot is set before it goes
    have hmem : w.resolve w.key .closed ∈ (r.resolve w.key .closed).waiters :=
      List.mem_map_of_mem hw
    rw [resolved.eq_of_serial hv hmem (by simpa using hs), Waiter.isPending_resolve (by decide)]
    simp

theorem WellFormed.offer {r : WaitRegistry} (h : r.WellFormed) (ack : AckEvent) :
    (r.offer ack).2.WellFormed := by
  rcases h.offer_cases ack with ho | ⟨w, -, -, -, ho⟩
  · rwa [ho]
  · rw [ho]
    exact h.resolve w.key (by simp)

theorem WellFormed.close {r : WaitRegistry} (h : r.WellFormed) : r.close.2.WellFormed := by
  have none : ∀ w : Waiter,
      Waiter.isPending (if w.isPending then { w with slot := .closed } else w) = false := by
    intro w
    split
    · rfl
    · simpa using ‹¬w.isPending = true›
  have serials : ∀ w : Waiter,
      (if w.isPending then { w with slot := .closed } else w).serial = w.serial := by
    intro w
    split <;> rfl
  have keys : ∀ w : Waiter,
      (if w.isPending then { w with slot := .closed } else w).key = w.key := by
    intro w
    split <;> rfl
  rw [h.close_eq]
  refine ⟨?_, List.nodup_nil, ?_, ?_, ?_, fun _ => rfl⟩
  · simp [List.filter_map, Function.comp_def, none]
  · simpa only [List.pairwise_map, serials] using h.ordered
  · simpa [serials] using h.fresh
  · simpa [serials, keys] using h.own

/-- What one action can do to a registry when the acknowledgments that may arrive are
those of `arriving`. A handle that a new one replaces is let go of after the new wait was
registered. -/
inductive Step (arriving : AckEvent → Prop) (r : WaitRegistry) : WaitRegistry → Prop where
  | kept : Step arriving r r
  | registered {event : ChangeEvent} {now : Nat} {timeout : Duration} {w : Waiter}
      {s : WaitRegistry} : r.register event now timeout = .ok (w, s) → Step arriving r s
  | released (serial : Nat) : Step arriving r (r.release serial)
  | replaced {event : ChangeEvent} {now : Nat} {timeout : Duration} {w : Waiter}
      {s : WaitRegistry} {serial : Nat} : r.register event now timeout = .ok (w, s) →
      serial ≠ w.serial → Step arriving r (s.release serial)
  | offered {ack : AckEvent} : arriving ack → Step arriving r (r.offer ack).2
  | closed : Step arriving r r.close.2

theorem WellFormed.step {arriving : AckEvent → Prop} {r s : WaitRegistry} (h : r.WellFormed)
    (step : Step arriving r s) : s.WellFormed := by
  cases step with
  | kept => exact h
  | registered hr => exact h.register hr
  | released serial => exact h.release serial
  | replaced hr _ => exact (h.register hr).release _
  | offered _ => exact h.offer _
  | closed => exact h.close

end WaitRegistry

end ChangeDispatch
