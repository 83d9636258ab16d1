import ChangeDispatch.Proofs.Broker.Rest
import ChangeDispatch.Proofs.Publisher.Step
import ChangeDispatch.Proofs.Run.Agents
import ChangeDispatch.Proofs.Wait.Listener
import ChangeDispatch.Proofs.Wait.Registry

/-!
# What does not go back

A worker or a listener that was told to stop is never told to go on, and one that has ended
stays so. A queue or a table that was closed is not opened again, nor is a publisher, nor
the broker. `System.Onward` says all of this of two systems, and every action of a session
goes onward.
-/
namespace ChangeDispatch

/-! ## The parts -/

structure Worker.Onward (w w' : Worker) : Prop where
  stopping : w.stopping → w'.stopping
  ended : w.phase = .ended → w'.phase = .ended ∧ w'.stats = w.stats
  /-- Only a worker that was told to stop gives events up. -/
  given : w'.stopping = false → w'.stats.abandoned = w.stats.abandoned

structure Publisher.Onward (p p' : Publisher) : Prop where
  config : p'.config = p.config
  queue : p'.queue = p.queue
  correlator : p'.correlator = p.correlator
  closed : p.closed → p'.closed
  joinable : p.closed ∨ p.joinable → p'.closed ∨ p'.joinable
  worker : p.worker.Onward p'.worker

structure Queue.Onward (q q' : Queue) : Prop where
  isOpen : q'.isOpen → q.isOpen
  receiving : q'.receiving → q.receiving

structure Correlator.Onward (c c' : Correlator) : Prop where
  stopping : c.stopping → c'.stopping
  ended : c.phase = .ended → c'.phase = .ended
  closed : c.registry.table.closed → c'.registry.table.closed

namespace Worker.Onward

variable {w w' w'' : Worker}

@[refl] theorem refl (w : Worker) : w.Onward w := ⟨id, fun h => ⟨h, rfl⟩, fun _ => rfl⟩

theorem trans (h : w.Onward w') (k : w'.Onward w'') : w.Onward w'' where
  stopping hs := k.stopping (h.stopping hs)
  ended he := by
    obtain ⟨ended, stats⟩ := h.ended he
    exact ⟨(k.ended ended).1, (k.ended ended).2.trans stats⟩
  given going := by
    have before : w'.stopping = false := by
      cases hw : w'.stopping with
      | false => rfl
      | true => exact (k.stopping hw).symm.trans going
    exact (k.given going).trans (h.given before)

/-- A worker's own step. -/
theorem of_step {h k : Host} {q q' : Queue} (step : Worker.Step h q w k q' w') : w.Onward w' := by
  have busy : ∀ {item : Item} {P : Prop}, w.phase.item? = some item → w.phase = .ended → P := by
    intro item P hw ended
    rw [ended] at hw
    cases hw
  have idle : ∀ {P : Prop}, w.phase = .idle → w.phase = .ended → P := by
    intro P hw ended
    cases hw.symm.trans ended
  cases step with
  | taken hp _ _ => exact ⟨id, idle hp, fun _ => rfl⟩
  | drained hp _ _ => exact ⟨id, idle hp, fun _ => rfl⟩
  | abandoned hp hs _ => exact ⟨id, idle hp, fun going => absurd (hs.symm.trans going) (by decide)⟩
  | interrupted hw hs _ =>
    exact ⟨id, busy hw, fun going => absurd (hs.symm.trans going) (by decide)⟩
  | moved hw _ _ => exact ⟨id, busy hw, fun _ => rfl⟩
  | published hw _ => exact ⟨id, busy hw, fun _ => rfl⟩
  | dropped hw _ => exact ⟨id, busy hw, fun _ => rfl⟩

end Worker.Onward

namespace Publisher.Onward

variable {p p' p'' : Publisher}

@[refl] theorem refl (p : Publisher) : p.Onward p := ⟨rfl, rfl, rfl, id, id, .refl _⟩

theorem trans (h : p.Onward p') (k : p'.Onward p'') : p.Onward p'' where
  config := k.config.trans h.config
  queue := k.queue.trans h.queue
  correlator := k.correlator.trans h.correlator
  closed hc := k.closed (h.closed hc)
  joinable hj := k.joinable (h.joinable hj)
  worker := h.worker.trans k.worker

end Publisher.Onward

namespace Queue.Onward

variable {q q' q'' : Queue}

@[refl] theorem refl (q : Queue) : q.Onward q := ⟨id, id⟩

theorem trans (h : q.Onward q') (k : q'.Onward q'') : q.Onward q'' :=
  ⟨fun ho => h.isOpen (k.isOpen ho), fun hr => h.receiving (k.receiving hr)⟩

/-- The flags stay as they are. -/
theorem of_eq (isOpen : q'.isOpen = q.isOpen) (receiving : q'.receiving = q.receiving) :
    q.Onward q' :=
  ⟨fun h => isOpen.symm.trans h, fun h => receiving.symm.trans h⟩

theorem closed (q : Queue) : q.Onward q.close.2 := ⟨fun h => absurd h (by simp [Queue.close]), id⟩

theorem stopped (q : Queue) : q.Onward q.stopReceiving :=
  ⟨id, fun h => absurd h (by simp [Queue.stopReceiving])⟩

theorem fillSlot (q : Queue) : q.Onward q.fillSlot := by
  unfold Queue.fillSlot
  split
  · split <;> exact .of_eq rfl rfl
  · rfl

theorem offer (q : Queue) (item : Item) : q.Onward (q.offer item).2 := by
  unfold Queue.offer
  split
  · rfl
  · split <;> exact .of_eq rfl rfl

theorem take? {item : Item} (ht : q.take? = some (item, q')) : q.Onward q' := by
  unfold Queue.take? at ht
  split at ht
  · cases ht
  next first buffer hb =>
    obtain ⟨-, rfl⟩ := Prod.mk.inj (Option.some.inj ht)
    have shorter : q.Onward { q with buffer } := .of_eq rfl rfl
    exact shorter.trans (fillSlot _)

/-- A worker's step. -/
theorem of_step {h k : Host} {w w' : Worker} (step : Worker.Step h q w k q' w') : q.Onward q' := by
  cases step with
  | taken _ _ ht => exact take? ht
  | drained _ _ _ => exact stopped q
  | abandoned _ _ _ => exact stopped q
  | interrupted _ _ _ => exact stopped q
  | _ => rfl

end Queue.Onward

/-! ### Registries -/

namespace WaitRegistry

theorem closed_release (r : WaitRegistry) (serial : Nat) :
    (r.release serial).table.closed = r.table.closed := by
  rw [table_release]
  cases r.waiter? serial <;> rfl

theorem closed_offer (r : WaitRegistry) (ack : AckEvent) :
    (r.offer ack).2.table.closed = r.table.closed := by
  rw [table_offer]
  unfold PendingTable.takeMatch
  split <;> rfl

theorem closed_close (r : WaitRegistry) : r.close.2.table.closed := by
  rw [table_close]
  rfl

end WaitRegistry

namespace Correlator.Onward

variable {c c' c'' : Correlator}

@[refl] theorem refl (c : Correlator) : c.Onward c := ⟨id, id, id⟩

theorem trans (h : c.Onward c') (k : c'.Onward c'') : c.Onward c'' where
  stopping hs := k.stopping (h.stopping hs)
  ended he := k.ended (h.ended he)
  closed hc := k.closed (h.closed hc)

/-- Only the registry changes. -/
theorem of_registry {r : WaitRegistry} (closed : c.registry.table.closed → r.table.closed) :
    c.Onward { c with registry := r } :=
  ⟨id, id, closed⟩

/-- A listener's own step. -/
theorem of_step {h k : Host} (hs : c.step? h = some (k, c')) : c.Onward c' := by
  have going := Correlator.going_of_step? hs
  cases Correlator.step_of_step? hs with
  | moved _ _ => exact ⟨id, fun ended => absurd ended going, id⟩
  | finished _ => exact ⟨id, fun _ => rfl, id⟩
  | settled _ _ _ settles _ =>
    refine ⟨id, fun ended => absurd ended going, fun closed => ?_⟩
    cases settles with
    | refused _ => exact closed
    | taken _ ho =>
      have same := c.registry.closed_offer ‹AckEvent›
      rw [ho] at same
      exact same.trans closed
    | unclaimed _ _ _ => exact (WaitRegistry.closed_offer _ _).trans closed

end Correlator.Onward

/-! ## Lists of parts -/

/-- Every part is found again at its place, related to what it was. -/
def Carries {α : Type} (R : α → α → Prop) (l l' : List α) : Prop :=
  ∀ (i : Nat) (a : α), l[i]? = some a → ∃ b, l'[i]? = some b ∧ R a b

namespace Carries

variable {α : Type} {R : α → α → Prop} {l l' l'' : List α}

theorem refl (hR : ∀ a, R a a) (l : List α) : Carries R l l := fun _ a h => ⟨a, h, hR a⟩

theorem trans (hR : ∀ {a b c}, R a b → R b c → R a c) (h : Carries R l l') (k : Carries R l' l'') :
    Carries R l l'' := by
  intro i a ha
  obtain ⟨b, hb, ab⟩ := h i a ha
  obtain ⟨c, hc, bc⟩ := k i b hb
  exact ⟨c, hc, hR ab bc⟩

theorem modify (hR : ∀ a, R a a) {i : Nat} {f : α → α} (hf : ∀ a, l[i]? = some a → R a (f a)) :
    Carries R l (l.modify i f) := by
  intro j a ha
  rw [List.getElem?_modify, ha]
  by_cases hij : i = j
  · subst hij
    exact ⟨f a, by simp, hf a ha⟩
  · exact ⟨a, by simp [hij], hR a⟩

theorem append (hR : ∀ a, R a a) (l more : List α) : Carries R l (l ++ more) := by
  intro i a ha
  refine ⟨a, ?_, hR a⟩
  rw [List.getElem?_append_left (List.getElem?_eq_some_iff.mp ha).1, ha]

theorem any (h : Carries R l l') {P : α → Bool} (keeps : ∀ {a b}, R a b → P a → P b) {i : Nat}
    (ha : (l[i]?).any P) : (l'[i]?).any P := by
  obtain ⟨a, ha, hP⟩ := (Option.any_eq_true _ _).mp ha
  obtain ⟨b, hb, ab⟩ := h i a ha
  exact (Option.any_eq_true _ _).mpr ⟨b, hb, keeps ab hP⟩

end Carries

/-! ## Systems -/

/-- Nobody has waited for the end of the worker of a publisher that was not closed, and a
worker that was not told to stop has given up nothing. -/
structure Publisher.Sound (p : Publisher) : Prop where
  joinable : p.closed ∨ p.joinable
  given : p.worker.stopping = false → p.worker.stats.abandoned = 0

theorem Publisher.Onward.sound {p p' : Publisher} (h : p.Onward p') (sound : p.Sound) :
    p'.Sound where
  joinable := h.joinable sound.joinable
  given going := by
    have before : p.worker.stopping = false := by
      cases hs : p.worker.stopping with
      | false => rfl
      | true => exact (h.worker.stopping hs).symm.trans going
    exact (h.worker.given going).trans (sound.given before)

namespace System

/-- Every worker and every listener is among what makes progress, and every publisher has a
correlator. -/
structure Staffed (s : System) : Prop where
  sound : ∀ p ∈ s.publishers, p.Sound
  worker : ∀ i < s.publishers.length, Agent.worker i ∈ s.started
  listener : ∀ c < s.correlators.length, Agent.listener c ∈ s.started
  correlator : ∀ p ∈ s.publishers, p.correlator < s.correlators.length

structure Onward (s t : System) : Prop where
  host : s.host.Rests t.host
  queues : Carries Queue.Onward s.queues t.queues
  correlators : Carries Correlator.Onward s.correlators t.correlators
  publishers : Carries Publisher.Onward s.publishers t.publishers
  staffed : s.Staffed → t.Staffed

namespace Onward

variable {s t u : System}

@[refl] theorem refl (s : System) : s.Onward s where
  host := .refl _
  queues := .refl .refl _
  correlators := .refl .refl _
  publishers := .refl .refl _
  staffed := id

theorem trans (h : s.Onward t) (k : t.Onward u) : s.Onward u where
  host := h.host.trans k.host
  queues := h.queues.trans .trans k.queues
  correlators := h.correlators.trans .trans k.correlators
  publishers := h.publishers.trans .trans k.publishers
  staffed hs := k.staffed (h.staffed hs)

/-- Nothing changes but the host, and what is not a queue, a correlator or a publisher. -/
theorem of_host (host : s.host.Rests t.host) (queues : t.queues = s.queues)
    (correlators : t.correlators = s.correlators) (publishers : t.publishers = s.publishers)
    (started : s.started ⊆ t.started) : s.Onward t where
  host := host
  queues := queues ▸ .refl .refl _
  correlators := correlators ▸ .refl .refl _
  publishers := publishers ▸ .refl .refl _
  staffed hs := by
    refine ⟨?_, ?_, ?_, ?_⟩
    · rw [publishers]
      exact hs.sound
    · rw [publishers]
      exact fun i hi => started (hs.worker i hi)
    · rw [correlators]
      exact fun c hc => started (hs.listener c hc)
    · rw [publishers, correlators]
      exact hs.correlator

end Onward

variable (s : System)

theorem onward_queue {i : Nat} {f : Queue → Queue}
    (hf : ∀ q, s.queues[i]? = some q → q.Onward (f q)) : s.Onward (s.adjustQueue i f) where
  host := .refl _
  queues := .modify .refl hf
  correlators := .refl .refl _
  publishers := .refl .refl _
  staffed hs := ⟨hs.sound, hs.worker, hs.listener, hs.correlator⟩

theorem onward_correlator {i : Nat} {f : Correlator → Correlator}
    (hf : ∀ c, s.correlators[i]? = some c → c.Onward (f c)) :
    s.Onward (s.adjustCorrelator i f) where
  host := .refl _
  queues := .refl .refl _
  correlators := .modify .refl hf
  publishers := .refl .refl _
  staffed hs := by
    have length : (s.adjustCorrelator i f).correlators.length = s.correlators.length :=
      List.length_modify ..
    exact ⟨hs.sound, hs.worker, fun c hc => hs.listener c (length ▸ hc),
      fun p hp => Nat.lt_of_lt_of_eq (hs.correlator p hp) length.symm⟩

theorem onward_publisher {i : Nat} {f : Publisher → Publisher}
    (hf : ∀ p, s.publishers[i]? = some p → p.Onward (f p)) : s.Onward (s.adjustPublisher i f) where
  host := .refl _
  queues := .refl .refl _
  correlators := .refl .refl _
  publishers := .modify .refl hf
  staffed hs := by
    have length : (s.adjustPublisher i f).publishers.length = s.publishers.length :=
      List.length_modify ..
    have member : ∀ p' ∈ (s.adjustPublisher i f).publishers, ∃ p ∈ s.publishers, p.Onward p' := by
      intro p' hp'
      obtain ⟨j, hj⟩ := List.mem_iff_getElem?.mp hp'
      change (s.publishers.modify i f)[j]? = some p' at hj
      rw [List.getElem?_modify] at hj
      obtain ⟨p, hp, rfl⟩ := Option.map_eq_some_iff.mp hj
      refine ⟨p, List.mem_of_getElem? hp, ?_⟩
      split
      next hij => exact hf p (hij ▸ hp)
      next => rfl
    refine ⟨fun p' hp' => ?_, fun j hj => hs.worker j (length ▸ hj), hs.listener, fun p' hp' => ?_⟩
    · obtain ⟨p, hp, onward⟩ := member p' hp'
      exact onward.sound (hs.sound p hp)
    · obtain ⟨p, hp, onward⟩ := member p' hp'
      exact onward.correlator ▸ hs.correlator p hp

theorem onward_onHost {h : Host} (rests : s.host.Rests h) : s.Onward { s with host := h } :=
  .of_host rests rfl rfl rfl (List.Subset.refl _)

theorem onward_note (notice : Notice) : s.Onward (s.note notice) :=
  s.onward_onHost (s.host.rests_note notice)

theorem onward_setTimer (delay : Nat) : s.Onward (s.setTimer delay).2 :=
  s.onward_onHost (s.host.rests_setTimer delay)

theorem onward_setPhase (n : Nat) (φ : Call.Phase) : s.Onward (s.setPhase n φ) :=
  .of_host (.refl _) rfl rfl rfl (List.Subset.refl _)

theorem onward_registry {c : Nat} {f : WaitRegistry → WaitRegistry}
    (closed : ∀ r : WaitRegistry, r.table.closed → (f r).table.closed) :
    s.Onward (s.adjustCorrelator c fun co => { co with registry := f co.registry }) :=
  s.onward_correlator fun _ _ => .of_registry (closed _)

theorem onward_releaseWaiter (handle : WaitHandle) : s.Onward (s.releaseWaiter handle) :=
  s.onward_registry fun r closed => (r.closed_release handle.serial).trans closed

theorem onward_letGo (handle : Option WaitHandle) : s.Onward (s.letGo handle) := by
  cases handle with
  | none => exact .refl s
  | some handle => exact s.onward_releaseWaiter handle

theorem onward_closeQueue (i : Nat) : s.Onward (s.adjustQueue i fun q => q.close.2) :=
  s.onward_queue fun q _ => .closed q

theorem onward_stopWorker (i : Nat) : s.Onward (s.stopWorker i) :=
  s.onward_publisher fun _ _ =>
    ⟨rfl, rfl, rfl, id, id, fun _ => rfl, fun ended => ⟨ended, rfl⟩, fun _ => rfl⟩

theorem onward_stopListener (c : Nat) : s.Onward (s.stopListener c) :=
  s.onward_correlator fun _ _ => ⟨fun _ => rfl, id, id⟩

theorem onward_releasePublisher (i : Nat) : s.Onward (s.releasePublisher i) := by
  unfold releasePublisher
  split
  · exact .refl s
  next p _ =>
    split
    · exact .refl s
    · refine Onward.trans ?_ (onward_publisher _ fun _ _ => ⟨rfl, rfl, rfl, id, id, .refl _⟩)
      refine Onward.trans ?_ (onward_stopListener _ _)
      refine Onward.trans ?_ (onward_closeQueue _ _)
      split
      · exact .refl s
      · exact (s.onward_note _).trans (onward_stopWorker _ i)

theorem onward_releaseCorrelator (c : Nat) : s.Onward (s.releaseCorrelator c) := by
  unfold releaseCorrelator
  split
  · exact s.onward_stopListener c
  · exact .refl s

theorem onward_releaseOwner (owner : Owner) : s.Onward (s.releaseOwner owner) := by
  cases owner with
  | none => exact .refl s
  | publisher i => exact s.onward_releasePublisher i
  | correlator c => exact s.onward_releaseCorrelator c

/-! ### The steps of calls -/

theorem onward_endCall (n : Nat) (result : Call.Result) : s.Onward (s.endCall n result) :=
  (s.onward_setPhase n _).trans (onward_releaseOwner _ _)

theorem onward_endWaitCall (n : Nat) (handle : Option WaitHandle) (result : Call.Result) :
    s.Onward (s.endWaitCall n handle result) :=
  (s.onward_letGo handle).trans (onward_endCall _ n result)

theorem onward_afterQueued (n : Nat) (event : ChangeEvent) (next : Option WaitHandle) :
    s.Onward (s.afterQueued n event next) := by
  have noted := s.onward_note (.queued ⟨n, event⟩)
  cases next with
  | none => exact noted.trans (onward_endCall _ n .done)
  | some handle => exact noted.trans (onward_setPhase _ n _)

theorem onward_stepEnqueuing (n queue : Nat) (event : ChangeEvent) (next : Option WaitHandle) :
    s.Onward (s.stepEnqueuing n queue event next) := by
  unfold stepEnqueuing
  split
  · exact s.onward_endWaitCall n next _
  · split
    · exact s.onward_endWaitCall n next _
    next q hq =>
      have offered : s.Onward (s.adjustQueue queue fun _ => (q.offer ⟨n, event⟩).2) := by
        refine s.onward_queue fun q' hq' => ?_
        obtain rfl := Option.some.inj (hq.symm.trans hq')
        exact .offer q _
      split
      next q' ho =>
        rw [ho] at offered
        exact offered.trans (onward_afterQueued _ n event next)
      · exact s.onward_endWaitCall n next _
      next q' ho =>
        rw [ho] at offered
        exact (offered.trans (onward_setTimer _ q'.timeout.ticks)).trans (onward_setPhase _ n _)

theorem onward_stepInLine? {t : System} {n queue : Nat} {event : ChangeEvent} {timer : Timer}
    {next : Option WaitHandle} (h : s.stepInLine? n queue event timer next = some t) :
    s.Onward t := by
  unfold stepInLine? at h
  split at h
  · exact Option.some.inj h ▸ s.onward_endWaitCall n next _
  next q _ =>
    split at h
    · have collected : s.Onward (s.adjustQueue queue fun q => q.collect n) :=
        s.onward_queue fun _ _ => .of_eq rfl rfl
      exact Option.some.inj h ▸ collected.trans (onward_afterQueued _ n event next)
    · exact Option.some.inj h ▸ s.onward_endWaitCall n next _
    · split at h
      · have withdrawn : s.Onward (s.adjustQueue queue fun q => q.withdraw n) :=
          s.onward_queue fun _ _ => .of_eq rfl rfl
        have noted := withdrawn.trans (onward_note _ (.queueFull event.name q.capacity q.timeout))
        exact Option.some.inj h ▸ noted.trans (onward_endWaitCall _ n next _)
      · cases h

theorem onward_register (c : Nat) (event : ChangeEvent) : s.Onward (s.register c event).2 := by
  unfold register
  split
  · exact .refl s
  next co hc =>
    split
    · exact .refl s
    next w r hr =>
      refine s.onward_correlator fun co' hc' => .of_registry fun closed => ?_
      obtain rfl := Option.some.inj (hc.symm.trans hc')
      -- a closed table registers nothing
      cases (WaitRegistry.register_ok hr).1.symm.trans closed

theorem onward_stepAwaiting (n : Nat) (handle : WaitHandle) (token : Option Nat) :
    s.Onward (s.stepAwaiting n handle token) := by
  unfold stepAwaiting
  split
  · exact s.onward_endWaitCall n (some handle) _
  · let left := (s.waiter? handle).elim 0 Waiter.deadline - s.host.now
    exact (s.onward_setTimer left).trans (onward_setPhase _ n _)

theorem onward_send (n : Nat) (topic : String) (payload : Payload) :
    s.Onward (s.send n topic payload) := by
  have published := s.host.rests_publish topic payload
  unfold send
  split
  next host hp =>
    rw [hp] at published
    exact (s.onward_onHost published).trans (onward_endCall _ n .done)
  next e host hp =>
    rw [hp] at published
    exact (s.onward_onHost published).trans (onward_endCall _ n _)

/-- The system when the publisher is closed and its queue too. -/
def shut (s : System) (i queue : Nat) : System :=
  (s.adjustPublisher i fun p => { p with closed := true, joinable := false }).adjustQueue queue
    fun q => q.close.2

theorem onward_shut (i queue : Nat) : s.Onward (s.shut i queue) := by
  refine Onward.trans ?_ (onward_closeQueue _ queue)
  exact s.onward_publisher fun _ _ =>
    ⟨rfl, rfl, rfl, fun _ => rfl, fun _ => .inl rfl, .refl _⟩

theorem onward_stepClosing (n i : Nat) : s.Onward (s.stepClosing n i) := by
  unfold stepClosing
  split
  · exact s.onward_endCall n .done
  next p _ =>
    split
    · exact s.onward_endCall n .done
    · have shut := s.onward_shut i p.queue
      dsimp only
      split
      · have timed := shut.trans (onward_setTimer _ p.config.drainTimeout.ticks)
        exact timed.trans (onward_setPhase _ n _)
      · exact shut.trans (onward_setPhase _ n _)

theorem onward_afterWorker (n i : Nat) : s.Onward (s.afterWorker n i) := by
  unfold afterWorker
  split
  · exact s.onward_endCall n .done
  · exact (s.onward_stopWorker i).trans (onward_setPhase _ n _)

theorem onward_stepDraining? {t : System} {n i : Nat} {timer : Timer}
    (h : s.stepDraining? n i timer = some t) : s.Onward t := by
  unfold stepDraining? at h
  split at h
  · exact Option.some.inj h ▸ s.onward_afterWorker n i
  · split at h
    · obtain rfl := Option.some.inj h
      refine Onward.trans ?_ (onward_setPhase _ n _)
      exact (s.onward_note _).trans (onward_stopWorker _ i)
    · cases h

/-- The system when the table of a correlator is closed. -/
def closeTable (s : System) (c : Nat) : System :=
  s.adjustCorrelator c fun co => { co with registry := co.registry.close.2 }

theorem onward_closeTable (c : Nat) : s.Onward (s.closeTable c) :=
  s.onward_registry fun r _ => r.closed_close

/-- The table is closed first, and nothing goes back after that. -/
theorem onward_closedTable (n c : Nat) (next : Option Nat) :
    (s.closeTable c).Onward (s.finishStopping n c next) := by
  unfold finishStopping
  extract_lets failed u v
  have noted : u.Onward v := by
    unfold v
    split
    · exact onward_note _ _
    · rfl
  split
  · exact noted.trans (onward_endCall _ n .done)
  · refine Onward.trans ?_ (onward_endCall _ n .done)
    exact noted.trans (onward_onHost _ ((Host.rests_close _).trans (Host.rests_noteError _ _ _)))

theorem onward_finishStopping (n c : Nat) (next : Option Nat) :
    s.Onward (s.finishStopping n c next) :=
  (s.onward_closeTable c).trans (s.onward_closedTable n c next)

theorem onward_stepStopping (n c : Nat) (next : Option Nat) :
    s.Onward (s.stepStopping n c next) := by
  have told := s.onward_stopListener c
  unfold stepStopping
  dsimp only
  split
  · let f : Correlator → Correlator := fun co => { co with joinable := false }
    have joined := told.trans (onward_correlator (i := c) (f := f) _ fun _ _ => ⟨id, id, id⟩)
    exact joined.trans (onward_setPhase _ n _)
  · exact told.trans (onward_finishStopping _ n c next)

theorem onward_stepCall? {t : System} {n : Nat} (h : s.stepCall? n = some t) : s.Onward t := by
  unfold stepCall? at h
  split at h
  · cases h
  next φ _ =>
    cases φ with
    | enqueuing queue event next =>
      exact Option.some.inj h ▸ s.onward_stepEnqueuing n queue event next
    | inLine queue event timer next => exact s.onward_stepInLine? h
    | submitting c queue event =>
      have registered := s.onward_register c event
      dsimp only at h
      split at h
      next e u hr =>
        rw [hr] at registered
        exact Option.some.inj h ▸ registered.trans (onward_endCall _ n _)
      next handle u hr =>
        rw [hr] at registered
        exact Option.some.inj h ▸ registered.trans (onward_setPhase _ n _)
    | registering c event token =>
      have registered := s.onward_register c event
      dsimp only at h
      split at h
      next e u hr =>
        rw [hr] at registered
        exact Option.some.inj h ▸ registered.trans (onward_endCall _ n _)
      next handle u hr =>
        rw [hr] at registered
        exact Option.some.inj h ▸ registered.trans (onward_setPhase _ n _)
    | awaiting handle token => exact Option.some.inj h ▸ s.onward_stepAwaiting n handle token
    | waiting handle token timer =>
      obtain ⟨result, -, rfl⟩ := Option.map_eq_some_iff.mp h
      exact s.onward_endWaitCall n (some handle) result
    | sending topic payload =>
      dsimp only at h
      split at h
      · exact Option.some.inj h ▸ s.onward_send n topic payload
      · exact Option.some.inj h ▸ (s.onward_setTimer s.host.faults.publishDelay).trans
          (onward_setPhase _ n _)
    | publishing topic payload timer =>
      dsimp only at h
      split at h
      · exact Option.some.inj h ▸ s.onward_send n topic payload
      · cases h
    | closing i => exact Option.some.inj h ▸ s.onward_stepClosing n i
    | draining i timer => exact s.onward_stepDraining? h
    | forcing i =>
      dsimp only at h
      split at h
      · exact Option.some.inj h ▸ s.onward_afterWorker n i
      · cases h
    | stopping c next => exact Option.some.inj h ▸ s.onward_stepStopping n c next
    | joining c next =>
      dsimp only at h
      split at h
      · exact Option.some.inj h ▸ s.onward_finishStopping n c next
      · cases h
    | ended moment result => cases h
    | aborted => cases h

end System

/-! ### The steps of agents -/

theorem Agent.onward_of_step? {a : Agent} {s t : System} (h : a.step? s = some t) : s.Onward t := by
  cases a with
  | worker i =>
    obtain ⟨p, q, host, q', w, hp, hq, hw, rfl⟩ := Agent.step?_worker h
    have step := Worker.step_of_step? hw
    have rests := s.onward_onHost (Worker.rests_of_step? hw)
    have used : ({ s with host } : System).Onward
        (({ s with host } : System).adjustQueue p.queue fun _ => q') := by
      refine System.onward_queue _ fun q₀ hq₀ => ?_
      obtain rfl := Option.some.inj (hq.symm.trans hq₀)
      exact .of_step step
    refine (rests.trans used).trans (System.onward_publisher _ fun p₀ hp₀ => ?_)
    obtain rfl := Option.some.inj (hp.symm.trans hp₀)
    exact ⟨rfl, rfl, rfl, id, id, .of_step step⟩
  | listener c =>
    obtain ⟨co, host, co', hc, hs, rfl⟩ := Agent.step?_listener h
    refine (s.onward_onHost (Correlator.rests_of_step? hs)).trans
      (System.onward_correlator _ fun co₀ hc₀ => ?_)
    obtain rfl := Option.some.inj (hc.symm.trans hc₀)
    exact .of_step hs
  | consumer i =>
    obtain ⟨k, host, k', -, hs, rfl⟩ := Agent.step?_consumer h
    exact .of_host (Consumer.rests_of_step? hs) rfl rfl rfl (List.Subset.refl _)
  | call n => exact s.onward_stepCall? h
  | redelivery i serial =>
    obtain ⟨entry, -, -, rfl⟩ := Agent.step?_redelivery h
    exact s.onward_onHost (.of_eq rfl rfl rfl)

end ChangeDispatch
