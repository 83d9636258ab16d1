import ChangeDispatch.System.Lifecycle

/-!
# Quiet changes

Much of what a call or a caller does to a system only tells its parts to stop or to
close, reports something, or sets a timer. Such a change is quiet: it leaves the broker,
the calls and the contents of every other part as they are. The steps of calls are
described up to quiet changes.
-/
namespace ChangeDispatch

/-- A correlator apart from the flags that stop it. -/
def Correlator.core (c : Correlator) : Correlator :=
  { c with stopping := false, joinable := false, dropped := false }

/-- A correlator apart from these flags and from its registry. -/
def Correlator.frame (c : Correlator) : Correlator := { c.core with registry := {} }

/-- A queue apart from whether new producers are let in. -/
def Queue.core (q : Queue) : Queue := { q with isOpen := false }

/-- A publisher apart from the flags that stop it. -/
def Publisher.core (p : Publisher) : Publisher :=
  { p with
    worker := { p.worker with stopping := false }
    joinable := false, closed := false, dropped := false, released := false }

/-- To change an entry of a list changes what `g` sees of it. -/
theorem map_modify {α β : Type} {f : α → α} {g : α → β} {k : β → β} (h : ∀ a, g (f a) = k (g a))
    (l : List α) (i : Nat) : (l.modify i f).map g = (l.map g).modify i k := by
  apply List.ext_getElem?
  intro j
  rw [List.getElem?_map, List.getElem?_modify, List.getElem?_modify, List.getElem?_map]
  cases l[j]? with
  | none => rfl
  | some a => by_cases hij : i = j <;> simp [hij, h]

theorem map_modify_of_apply {α β : Type} {f : α → α} {g : α → β} (h : ∀ a, g (f a) = g a)
    (l : List α) (i : Nat) : (l.modify i f).map g = l.map g := by
  rw [map_modify (k := id) h, List.modify_id]

/-- To change entries that look the same to `g` in the same way keeps them so. -/
theorem map_modify_congr {α β : Type} {f : α → α} {g : α → β}
    (h : ∀ a b, g a = g b → g (f a) = g (f b)) {l m : List α} (hlm : l.map g = m.map g) (i : Nat) :
    (l.modify i f).map g = (m.modify i f).map g := by
  apply List.ext_getElem?
  intro j
  have hj : (l[j]?).map g = (m[j]?).map g := by
    rw [← List.getElem?_map, ← List.getElem?_map, hlm]
  rw [List.getElem?_map, List.getElem?_map, List.getElem?_modify, List.getElem?_modify]
  cases hl : l[j]? with
  | none =>
    rw [hl] at hj
    cases hm : m[j]? with
    | none => rfl
    | some b => rw [hm] at hj; cases hj
  | some a =>
    rw [hl] at hj
    cases hm : m[j]? with
    | none => rw [hm] at hj; cases hj
    | some b =>
      rw [hm] at hj
      by_cases hij : i = j
      · simp [hij, h a b (Option.some.inj hj)]
      · simpa [hij] using hj

theorem getElem?_concat_cases {α : Type} {l : List α} {a b : α} {i : Nat}
    (h : (l ++ [a])[i]? = some b) : l[i]? = some b ∨ i = l.length ∧ a = b := by
  rw [List.getElem?_append] at h
  split at h
  · exact .inl h
  next hi =>
    obtain ⟨hlt, he⟩ := List.getElem?_eq_some_iff.mp h
    rw [List.length_singleton] at hlt
    refine .inr ⟨by omega, ?_⟩
    rwa [List.getElem_singleton] at he

theorem exists_of_map_eq {α β : Type} {g : α → β} {l l' : List α} (h : l'.map g = l.map g) {i : Nat}
    {b : α} (hb : l'[i]? = some b) : ∃ a, l[i]? = some a ∧ g b = g a := by
  have same : (l'.map g)[i]? = (l.map g)[i]? := by rw [h]
  rw [List.getElem?_map, List.getElem?_map, hb] at same
  obtain ⟨a, ha, hg⟩ := Option.map_eq_some_iff.mp same.symm
  exact ⟨a, ha, hg.symm⟩

namespace System

def setBroker (s : System) (broker : Broker) : System := { s with host := { s.host with broker } }

/-- Close the broker for a publisher; a correlator by itself leaves it open. -/
def closeFor (s : System) : Option Nat → System
  | none => s
  | some _ => s.setBroker s.host.broker.close

def phase? (s : System) (n : Nat) : Option Call.Phase := (s.calls[n]?).map Call.phase

theorem phase?_setPhase {s : System} {n : Nat} {φ : Call.Phase} (h : s.phase? n = some φ)
    (ψ : Call.Phase) : (s.setPhase n ψ).phase? n = some ψ := by
  obtain ⟨c, hc, -⟩ := Option.map_eq_some_iff.mp h
  simp [phase?, setPhase, hc]

structure Quiet (s t : System) : Prop where
  broker : t.host.broker = s.host.broker
  faults : t.host.faults = s.host.faults
  now : t.host.now = s.host.now
  calls : t.calls = s.calls
  consumers : t.consumers = s.consumers
  started : t.started = s.started
  correlators : t.correlators.map Correlator.core = s.correlators.map Correlator.core
  queues : t.queues.map Queue.core = s.queues.map Queue.core
  publishers : t.publishers.map Publisher.core = s.publishers.map Publisher.core

namespace Quiet

@[refl] theorem refl (s : System) : Quiet s s := ⟨rfl, rfl, rfl, rfl, rfl, rfl, rfl, rfl, rfl⟩

theorem trans {s t u : System} (h : Quiet s t) (k : Quiet t u) : Quiet s u where
  broker := k.broker.trans h.broker
  faults := k.faults.trans h.faults
  now := k.now.trans h.now
  calls := k.calls.trans h.calls
  consumers := k.consumers.trans h.consumers
  started := k.started.trans h.started
  correlators := k.correlators.trans h.correlators
  queues := k.queues.trans h.queues
  publishers := k.publishers.trans h.publishers

/-- A call goes on in the same way after a quiet change. -/
theorem setPhase {s t : System} (h : Quiet s t) (n : Nat) (phase : Call.Phase) :
    Quiet (s.setPhase n phase) (t.setPhase n phase) :=
  { h with calls := by simp only [System.setPhase, h.calls] }

/-- A registry changes in the same way after a quiet change. -/
theorem adjustRegistry {s t : System} (h : Quiet s t) (i : Nat)
    (f : WaitRegistry → WaitRegistry) :
    Quiet (s.adjustCorrelator i fun c => { c with registry := f c.registry })
      (t.adjustCorrelator i fun c => { c with registry := f c.registry }) := by
  refine { h with correlators := map_modify_congr (fun a b hab => ?_) h.correlators i }
  simp only [Correlator.core, Correlator.mk.injEq] at hab ⊢
  simp [hab]

theorem closeFor {s t : System} (h : Quiet s t) (next : Option Nat) :
    Quiet (s.closeFor next) (t.closeFor next) := by
  cases next with
  | none => exact h
  | some _ => exact { h with broker := congrArg Broker.close h.broker }

theorem phase? {s t : System} (h : Quiet s t) (n : Nat) : t.phase? n = s.phase? n := by
  unfold System.phase?
  rw [h.calls]

end Quiet

theorem quiet_note (s : System) (notice : Notice) : Quiet s (s.note notice) :=
  ⟨rfl, rfl, rfl, rfl, rfl, rfl, rfl, rfl, rfl⟩

theorem quiet_noteError {α : Type} (s : System) (result : Except α Unit) (notice : α → Notice) :
    Quiet s { s with host := s.host.noteError result notice } := by
  cases result with
  | ok _ => exact .refl s
  | error e => exact s.quiet_note (notice e)

theorem quiet_setTimer (s : System) (delay : Nat) : Quiet s (s.setTimer delay).2 :=
  ⟨rfl, rfl, rfl, rfl, rfl, rfl, rfl, rfl, rfl⟩

theorem quiet_adjustCorrelator (s : System) (i : Nat) {f : Correlator → Correlator}
    (hf : ∀ c, (f c).core = c.core) : Quiet s (s.adjustCorrelator i f) :=
  { Quiet.refl s with correlators := map_modify_of_apply hf _ _ }

theorem quiet_adjustQueue (s : System) (i : Nat) {f : Queue → Queue}
    (hf : ∀ q, (f q).core = q.core) : Quiet s (s.adjustQueue i f) :=
  { Quiet.refl s with queues := map_modify_of_apply hf _ _ }

theorem quiet_adjustPublisher (s : System) (i : Nat) {f : Publisher → Publisher}
    (hf : ∀ p, (f p).core = p.core) : Quiet s (s.adjustPublisher i f) :=
  { Quiet.refl s with publishers := map_modify_of_apply hf _ _ }

theorem quiet_closeQueue (s : System) (i : Nat) : Quiet s (s.adjustQueue i fun q => q.close.2) :=
  s.quiet_adjustQueue i fun _ => rfl

theorem quiet_stopWorker (s : System) (i : Nat) : Quiet s (s.stopWorker i) :=
  s.quiet_adjustPublisher i fun _ => rfl

theorem quiet_stopListener (s : System) (i : Nat) : Quiet s (s.stopListener i) :=
  s.quiet_adjustCorrelator i fun _ => rfl

theorem quiet_releasePublisher (s : System) (i : Nat) : Quiet s (s.releasePublisher i) := by
  unfold releasePublisher
  split
  · exact .refl s
  next p _ =>
    split
    · exact .refl s
    · -- first the worker, unless it was stopped before; then the queue and the listener
      refine Quiet.trans ?_ (quiet_adjustPublisher _ i fun _ => rfl)
      refine Quiet.trans ?_ (quiet_stopListener _ _)
      refine Quiet.trans ?_ (quiet_closeQueue _ _)
      split
      · exact .refl s
      · exact (s.quiet_note _).trans (quiet_stopWorker _ i)

theorem quiet_releaseCorrelator (s : System) (i : Nat) : Quiet s (s.releaseCorrelator i) := by
  unfold releaseCorrelator
  split
  · exact s.quiet_stopListener i
  · exact .refl s

theorem quiet_releaseOwner (s : System) (owner : Owner) : Quiet s (s.releaseOwner owner) := by
  cases owner with
  | none => exact .refl s
  | publisher i => exact s.quiet_releasePublisher i
  | correlator i => exact s.quiet_releaseCorrelator i

theorem quiet_endCall (s : System) (n : Nat) (result : Call.Result) :
    Quiet (s.setPhase n (.ended s.host.now result)) (s.endCall n result) :=
  quiet_releaseOwner _ _

theorem quiet_dropPublisher (s : System) (i : Nat) : Quiet s (s.dropPublisher i) := by
  refine Quiet.trans ?_ (quiet_releasePublisher _ i)
  exact s.quiet_adjustPublisher i fun _ => rfl

theorem quiet_dropCorrelator (s : System) (i : Nat) : Quiet s (s.dropCorrelator i) := by
  refine Quiet.trans ?_ (quiet_releaseCorrelator _ i)
  exact s.quiet_adjustCorrelator i fun _ => rfl

end System

end ChangeDispatch
