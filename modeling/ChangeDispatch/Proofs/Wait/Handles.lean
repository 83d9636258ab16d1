import ChangeDispatch.Proofs.Wait.Slots
import ChangeDispatch.System.State
import Mathlib.Data.List.Perm.Subperm

/-!
# Who holds the handles

The handles of registered waits are held by the caller and by calls. `WaitChange` lists
how one action changes the registries of a system together with the handles that are held.
No handle is ever held twice, and one that is held is in use in its registry.
-/
namespace ChangeDispatch

open WaitRegistry (Step)

/-- The handles in use at a correlator. -/
def serialsAt (rs : List WaitRegistry) (c : Nat) : List Nat :=
  (rs[c]?).elim [] WaitRegistry.serials

theorem serialsAt_of_getElem? {rs : List WaitRegistry} {c : Nat} {r : WaitRegistry}
    (hr : rs[c]? = some r) : serialsAt rs c = r.serials := by
  unfold serialsAt
  rw [hr]
  rfl

/-- A handle in use is that of a waiter. -/
theorem mem_serialsAt {rs : List WaitRegistry} {c n : Nat} :
    n ∈ serialsAt rs c ↔ ∃ r, rs[c]? = some r ∧ ∃ w ∈ r.waiters, w.serial = n := by
  unfold serialsAt
  cases rs[c]? with
  | none => simp
  | some r => simp [WaitRegistry.mem_serials]

/-- A change of the registries `rs` and of the handles `os` that are held, when the
acknowledgments that may arrive at a correlator are those of `arriving`. Handles may also
get lost, when the caller forgets the name that it has given to one. -/
inductive WaitChange (arriving : Nat → AckEvent → Prop) (rs : List WaitRegistry)
    (os : List WaitHandle) : List WaitRegistry → List WaitHandle → Prop where
  | kept {os' : List WaitHandle} : os'.Subperm os → WaitChange arriving rs os rs os'
  | started {os' : List WaitHandle} :
      os'.Subperm os → WaitChange arriving rs os (rs ++ [({} : WaitRegistry)]) os'
  | registered {c : Nat} {r s : WaitRegistry} {event : ChangeEvent} {now : Nat}
      {timeout : Duration} {w : Waiter} {os' : List WaitHandle} :
      rs[c]? = some r → r.register event now timeout = .ok (w, s) →
      os'.Subperm (⟨c, w.serial⟩ :: os) → WaitChange arriving rs os (rs.set c s) os'
  | released {handle : WaitHandle} {os' : List WaitHandle} :
      (handle :: os').Subperm os →
      WaitChange arriving rs os (rs.modify handle.correlator (·.release handle.serial)) os'
  | replaced {c : Nat} {r s : WaitRegistry} {event : ChangeEvent} {now : Nat}
      {timeout : Duration} {w : Waiter} {handle : WaitHandle} {os' os'' : List WaitHandle} :
      rs[c]? = some r → r.register event now timeout = .ok (w, s) →
      (handle :: os').Subperm os → os''.Subperm (⟨c, w.serial⟩ :: os') →
      WaitChange arriving rs os
        ((rs.set c s).modify handle.correlator (·.release handle.serial)) os''
  | offered {c : Nat} {ack : AckEvent} {os' : List WaitHandle} :
      arriving c ack → os'.Subperm os →
      WaitChange arriving rs os (rs.modify c fun r => (r.offer ack).2) os'
  | closed (c : Nat) {os' : List WaitHandle} :
      os'.Subperm os → WaitChange arriving rs os (rs.modify c fun r => r.close.2) os'

/-- Every registry is well formed, and every handle that is held is in use and is held
once. -/
structure Owned (rs : List WaitRegistry) (os : List WaitHandle) : Prop where
  wellFormed : ∀ r ∈ rs, r.WellFormed
  nodup : os.Nodup
  live : ∀ h ∈ os, h.serial ∈ serialsAt rs h.correlator

theorem nodup_of_subperm {α : Type} {l l' : List α} (h : l.Nodup) (s : l'.Subperm l) :
    l'.Nodup := by
  obtain ⟨k, hk, hs⟩ := s
  exact hk.nodup_iff.mp (h.sublist hs)

theorem mem_modify {α : Type} {l : List α} {i : Nat} {f : α → α} {b : α} (h : b ∈ l.modify i f) :
    b ∈ l ∨ ∃ a ∈ l, b = f a := by
  obtain ⟨j, hj⟩ := List.mem_iff_getElem?.mp h
  rw [List.getElem?_modify] at hj
  cases ha : l[j]? with
  | none => rw [ha] at hj; cases hj
  | some a =>
    rw [ha] at hj
    have mem := List.mem_of_getElem? ha
    by_cases hij : i = j
    · exact .inr ⟨a, mem, by simpa [hij, eq_comm] using hj⟩
    · simp only [hij, if_false] at hj
      exact .inl (Option.some.inj hj ▸ mem)

namespace Owned

variable {rs : List WaitRegistry} {os os' : List WaitHandle}

theorem subperm (h : Owned rs os) (s : os'.Subperm os) : Owned rs os' :=
  ⟨h.wellFormed, nodup_of_subperm h.nodup s, fun a ha => h.live a (s.subset ha)⟩

theorem wellFormed_at (h : Owned rs os) {c : Nat} {r : WaitRegistry} (hr : rs[c]? = some r) :
    r.WellFormed :=
  h.wellFormed r (List.mem_of_getElem? hr)

/-- A handle that is held is that of a waiter. -/
theorem exists_waiter (h : Owned rs os) {handle : WaitHandle} (held : handle ∈ os) :
    ∃ r, rs[handle.correlator]? = some r ∧ ∃ w ∈ r.waiters, w.serial = handle.serial :=
  mem_serialsAt.mp (h.live handle held)

/-- A registry changes, and no handle goes out of use. -/
theorem modify (h : Owned rs os) (c : Nat) {f : WaitRegistry → WaitRegistry}
    (hwf : ∀ r, r.WellFormed → (f r).WellFormed)
    (hf : ∀ r, r.WellFormed → (f r).serials = r.serials) : Owned (rs.modify c f) os where
  wellFormed r hr := by
    rcases mem_modify hr with hr | ⟨a, ha, rfl⟩
    · exact h.wellFormed r hr
    · exact hwf a (h.wellFormed a ha)
  nodup := h.nodup
  live a ha := by
    have hlive := h.live a ha
    unfold serialsAt at hlive ⊢
    rw [List.getElem?_modify]
    cases hr : rs[a.correlator]? with
    | none => rw [hr] at hlive; cases hlive
    | some r =>
      rw [hr] at hlive
      by_cases hc : c = a.correlator
      · simpa [hc, hf r (h.wellFormed_at hr)] using hlive
      · simpa [hc] using hlive

theorem start (h : Owned rs os) : Owned (rs ++ [({} : WaitRegistry)]) os where
  wellFormed r hr := by
    rcases List.mem_append.mp hr with hr | hr
    · exact h.wellFormed r hr
    · obtain rfl := List.mem_singleton.mp hr
      exact WaitRegistry.wellFormed_start
  nodup := h.nodup
  live a ha := by
    have hlive := h.live a ha
    unfold serialsAt at hlive ⊢
    cases hr : rs[a.correlator]? with
    | none => rw [hr] at hlive; cases hlive
    | some r =>
      rw [hr] at hlive
      rwa [List.getElem?_append_left (List.getElem?_eq_some_iff.mp hr).1, hr]

theorem register (h : Owned rs os) {c : Nat} {r s : WaitRegistry} {event : ChangeEvent} {now : Nat}
    {timeout : Duration} {w : Waiter} (hr : rs[c]? = some r)
    (hs : r.register event now timeout = .ok (w, s)) :
    Owned (rs.set c s) (⟨c, w.serial⟩ :: os) := by
  have wf := h.wellFormed_at hr
  have serials := WaitRegistry.serials_register hs
  have hlt := (List.getElem?_eq_some_iff.mp hr).1
  refine ⟨fun t ht => ?_, List.nodup_cons.mpr ⟨fun hmem => ?_, h.nodup⟩, fun a ha => ?_⟩
  · rcases List.mem_or_eq_of_mem_set ht with ht | rfl
    · exact h.wellFormed t ht
    · exact wf.register hs
  · -- the serial number of the new waiter was in use by nobody
    obtain ⟨r', hr', v, hv, hvs⟩ := h.exists_waiter hmem
    obtain rfl := Option.some.inj (hr.symm.trans hr')
    obtain ⟨-, hw, -⟩ := WaitRegistry.register_ok hs
    have := wf.fresh v hv
    dsimp only at hvs
    omega
  · unfold serialsAt
    rcases List.mem_cons.mp ha with rfl | ha
    · rw [List.getElem?_set_self hlt]
      simp [serials]
    · have hlive := h.live a ha
      unfold serialsAt at hlive
      by_cases hc : c = a.correlator
      · subst hc
        rw [hr] at hlive
        rw [List.getElem?_set_self hlt]
        simp only [Option.elim, serials] at hlive ⊢
        exact List.mem_append_left _ hlive
      · rwa [List.getElem?_set_ne hc]

theorem release (h : Owned rs os) {handle : WaitHandle} (hs : (handle :: os').Subperm os) :
    Owned (rs.modify handle.correlator (·.release handle.serial)) os' := by
  have owned := h.subperm hs
  obtain ⟨hnot, hnodup⟩ := List.nodup_cons.mp owned.nodup
  refine ⟨fun r hr => ?_, hnodup, fun a ha => ?_⟩
  · rcases mem_modify hr with hr | ⟨q, hq, rfl⟩
    · exact h.wellFormed r hr
    · exact (h.wellFormed q hq).release _
  · have hlive := owned.live a (List.mem_cons_of_mem _ ha)
    unfold serialsAt at hlive ⊢
    rw [List.getElem?_modify]
    cases hr : rs[a.correlator]? with
    | none => rw [hr] at hlive; cases hlive
    | some r =>
      rw [hr] at hlive
      by_cases hc : handle.correlator = a.correlator
      · -- another handle of the same registry has another serial number
        have hne : a.serial ≠ handle.serial := fun he =>
          hnot (by rwa [show handle = a from by cases a; cases handle; simp_all])
        simpa [hc, (h.wellFormed_at hr).serials_release, hne] using hlive
      · simpa [hc] using hlive

/-- Every change keeps the handles owned. -/
theorem change {arriving : Nat → AckEvent → Prop} {rs' : List WaitRegistry} (h : Owned rs os)
    (change : WaitChange arriving rs os rs' os') : Owned rs' os' := by
  cases change with
  | kept hs => exact h.subperm hs
  | started hs => exact (h.subperm hs).start
  | registered hr hok hs => exact (h.register hr hok).subperm hs
  | released hs => exact h.release hs
  | replaced hr hok hs hs' =>
    refine ((h.register hr hok).release ?_).subperm hs'
    exact (List.Perm.swap _ _ _).subperm.trans ((List.subperm_cons _).mpr hs)
  | offered _ hs =>
    exact (h.subperm hs).modify _ (fun r hr => hr.offer _) fun r hr => hr.serials_offer _
  | closed c hs =>
    exact (h.subperm hs).modify _ (fun r hr => hr.close) fun r hr => hr.serials_close

end Owned

namespace WaitChange

variable {arriving : Nat → AckEvent → Prop} {rs rs' : List WaitRegistry} {os os' : List WaitHandle}

theorem of_eq {rs'' : List WaitRegistry} (h : rs'' = rs')
    (change : WaitChange arriving rs os rs' os') : WaitChange arriving rs os rs'' os' :=
  h ▸ change

theorem step_modify {c i : Nat} {f : WaitRegistry → WaitRegistry} {r : WaitRegistry}
    (hr : rs[c]? = some r) (hf : i = c → Step (arriving c) r (f r)) :
    ∃ s, (rs.modify i f)[c]? = some s ∧ Step (arriving c) r s := by
  rw [List.getElem?_modify, hr]
  by_cases hi : i = c
  · exact ⟨f r, by simp [hi], hf hi⟩
  · exact ⟨r, by simp [hi], .kept⟩

/-- Every registry makes a step. -/
theorem step (change : WaitChange arriving rs os rs' os') (h : Owned rs os) {c : Nat}
    {r : WaitRegistry} (hr : rs[c]? = some r) :
    ∃ s, rs'[c]? = some s ∧ Step (arriving c) r s := by
  have hlt := (List.getElem?_eq_some_iff.mp hr).1
  cases change with
  | kept _ => exact ⟨r, hr, .kept⟩
  | started _ => exact ⟨r, by rw [List.getElem?_append_left hlt, hr], .kept⟩
  | @registered d q s _ _ _ w _ hq hok _ =>
    by_cases hd : d = c
    · subst hd
      obtain rfl := Option.some.inj (hr.symm.trans hq)
      exact ⟨s, List.getElem?_set_self hlt, .registered hok⟩
    · exact ⟨r, by rw [List.getElem?_set_ne hd, hr], .kept⟩
  | released _ => exact step_modify hr fun _ => .released _
  | @replaced d q s _ _ _ w handle os₁ _ hq hok hs _ =>
    by_cases hd : d = c
    · subst hd
      obtain rfl := Option.some.inj (hr.symm.trans hq)
      have hset : (rs.set d s)[d]? = some s := List.getElem?_set_self hlt
      rw [List.getElem?_modify, hset]
      by_cases hh : handle.correlator = d
      · -- the handle that goes was in use before the new wait was registered
        refine ⟨s.release handle.serial, by simp [hh], .replaced hok fun he => ?_⟩
        obtain ⟨r', hr', v, hv, hvs⟩ := h.exists_waiter (hs.subset List.mem_cons_self)
        obtain rfl := Option.some.inj (hr.symm.trans (hh ▸ hr'))
        obtain ⟨-, hw, -⟩ := WaitRegistry.register_ok hok
        have := (h.wellFormed_at hr).fresh v hv
        omega
      · exact ⟨s, by simp [hh], .registered hok⟩
    · exact step_modify (by rw [List.getElem?_set_ne hd, hr]) fun _ => .released _
  | offered harr _ => exact step_modify hr fun hi => .offered (hi ▸ harr)
  | closed i _ => exact step_modify hr fun _ => .closed

/-- A registry that was not there before is empty. -/
theorem empty_of_new (change : WaitChange arriving rs os rs' os') {c : Nat} {s : WaitRegistry}
    (hs : rs'[c]? = some s) : c < rs.length ∨ s = {} := by
  have hlt := (List.getElem?_eq_some_iff.mp hs).1
  cases change with
  | started _ =>
    by_cases hc : c < rs.length
    · exact .inl hc
    · rw [List.length_append, List.length_singleton] at hlt
      obtain rfl : c = rs.length := by omega
      rw [List.getElem?_concat_length] at hs
      exact .inr (Option.some.inj hs).symm
  | kept _ => exact .inl hlt
  | registered _ _ _ => exact .inl (by simpa using hlt)
  | released _ => exact .inl (by simpa using hlt)
  | replaced _ _ _ _ => exact .inl (by simpa using hlt)
  | offered _ _ => exact .inl (by simpa using hlt)
  | closed _ _ => exact .inl (by simpa using hlt)

end WaitChange

end ChangeDispatch
