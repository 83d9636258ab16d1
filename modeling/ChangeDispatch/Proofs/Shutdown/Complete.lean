import ChangeDispatch.Proofs.Shutdown.Stages
import ChangeDispatch.Proofs.Wait.Displacement

/-!
# A shutdown is bounded and complete

Where publishing takes no time, a worker that is told to stop can always make its next step,
and so can a listener. So the first call that closes a publisher has ended wherever nothing
can go on and its drain is over. The queue, the waits and the broker are closed then, and
nothing is accepted, registered or published any more.
-/
namespace ChangeDispatch

/-! ## What was told to stop can go on -/

theorem Worker.step?_of_told {h : Host} {q : Queue} {w : Worker} (told : w.stopping)
    (going : w.phase ≠ .ended) (prompt : ∀ job timer, w.phase ≠ .publishing job timer) :
    w.step? h q ≠ none := by
  unfold step?
  split
  next => simp [told]
  next job _ => split <;> simp
  next job timer hp => exact absurd hp (prompt job timer)
  next job timer _ => simp [told]
  next ended => exact absurd ended going

theorem Correlator.step?_of_told {h : Host} {c : Correlator} (told : c.stopping)
    (going : c.phase ≠ .ended) : c.step? h ≠ none := by
  unfold step?
  split
  next => simp [told]
  next => simp [told]
  next => simp [told]
  next ended => exact absurd ended going

/-- Where a publish takes no time, no step leaves a worker in the middle of one. -/
theorem Worker.prompt_of_step? {h k : Host} {q q' : Queue} {w w' : Worker}
    (hs : w.step? h q = some (k, q', w')) (prompt : h.faults.publishDelay = 0) :
    ∀ job timer, w'.phase ≠ .publishing job timer := by
  have attempted : ∀ job job' timer, (attempt h w job).2.phase ≠ .publishing job' timer := by
    intro job job' timer
    unfold attempt
    split
    · simp
    · dsimp only
      split <;> simp
  cases turn_of_step? hs with
  | delaying _ slow => exact absurd prompt slow
  | attempting _ => exact attempted _
  | _ => simp [abandonRemaining, interrupt]

theorem modify_eq_self {α : Type} {l : List α} {i : Nat} {f : α → α}
    (h : ∀ a, l[i]? = some a → f a = a) : l.modify i f = l := by
  apply List.ext_getElem?
  intro j
  rw [List.getElem?_modify]
  cases ha : l[j]? with
  | none => rfl
  | some a =>
    by_cases hij : i = j
    · subst hij
      simp [h a ha]
    · simp [hij]

namespace System

variable {s : System} {i c : Nat}

theorem workerDone_of_told (quiescent : s.isQuiescent) (staffed : s.Staffed)
    (queues : ∀ p, s.publishers[i]? = some p → ∃ q, s.queues[p.queue]? = some q)
    (prompt : ∀ p ∈ s.publishers, ∀ job timer, p.worker.phase ≠ .publishing job timer)
    (told : s.workerTold i) : s.workerDone i := by
  obtain ⟨p, hp, stopping⟩ := (Option.any_eq_true _ _).mp told
  refine (Option.any_eq_true _ _).mpr ⟨p, hp, beq_iff_eq.mpr ?_⟩
  by_contra going
  obtain ⟨q, hq⟩ := queues p hp
  have still := step?_of_quiescent quiescent
    (staffed.worker i (List.getElem?_eq_some_iff.mp hp).1)
  cases hs : p.worker.step? s.host q with
  | none =>
    exact Worker.step?_of_told stopping going (prompt p (List.mem_of_getElem? hp)) hs
  | some v => simp [Agent.step?, hp, hq, hs] at still

theorem listenerEnded_of_told (quiescent : s.isQuiescent) (staffed : s.Staffed)
    (told : s.listenerTold c) : s.listenerEnded c := by
  obtain ⟨co, hc, stopping⟩ := (Option.any_eq_true _ _).mp told
  have still := step?_of_quiescent quiescent
    (staffed.listener c (List.getElem?_eq_some_iff.mp hc).1)
  have ended : co.phase = .ended := by
    by_contra going
    cases hs : co.step? s.host with
    | none => exact Correlator.step?_of_told stopping going hs
    | some v => simp [Agent.step?, hc, hs] at still
  simp [listenerEnded, hc, Correlator.isEnded, ended]

theorem Stage.exists_phase {n due : Nat} (stage : s.Stage n i c due) :
    ∃ φ, s.phase? n = some φ := by
  cases stage with
  | draining _ hφ _ => exact ⟨_, hφ⟩
  | forcing hφ _ => exact ⟨_, hφ⟩
  | stopping hφ _ => exact ⟨_, hφ⟩
  | joining hφ _ _ => exact ⟨_, hφ⟩
  | ended _ hφ _ _ _ _ => exact ⟨_, hφ⟩
  | aborted hφ => exact ⟨_, hφ⟩

/-- Where nothing can go on and the drain is over, the call has ended or was given up. -/
theorem Stage.finished {n due : Nat} {p : Publisher} (stage : s.Stage n i c due)
    (quiescent : s.isQuiescent) (staffed : s.Staffed) (running : Agent.call n ∈ s.started)
    (hp : s.publishers[i]? = some p)
    (queues : ∀ p, s.publishers[i]? = some p → ∃ q, s.queues[p.queue]? = some q)
    (prompt : ∀ p ∈ s.publishers, ∀ job timer, p.worker.phase ≠ .publishing job timer)
    (late : due ≤ s.host.now) :
    (∃ moment, s.phase? n = some (.ended moment .done)) ∨ s.phase? n = some .aborted := by
  have still : s.stepCall? n = none := step?_of_quiescent quiescent running
  unfold stepCall? at still
  cases stage with
  | draining timer hφ hd =>
    rw [stepCall?_of_phase hφ] at still
    change s.stepDraining? n i timer = none at still
    have isDue : s.host.isDue timer := decide_eq_true (hd ▸ late)
    unfold stepDraining? at still
    rw [if_pos isDue] at still
    split at still
    · cases still
    · cases still
  | forcing hφ told =>
    rw [stepCall?_of_phase hφ] at still
    change (if s.workerEnded i then some (s.afterWorker n i) else none) = none at still
    rw [workerEnded_iff hp, workerDone_of_told quiescent staffed queues prompt told,
      if_pos rfl] at still
    cases still
  | stopping hφ _ =>
    rw [stepCall?_of_phase hφ] at still
    cases still
  | joining hφ _ told =>
    rw [stepCall?_of_phase hφ] at still
    change (if s.listenerEnded c then some (s.finishStopping n c (some i)) else none) = none
      at still
    rw [listenerEnded_of_told quiescent staffed told, if_pos rfl] at still
    cases still
  | ended moment hφ _ _ _ _ => exact .inl ⟨moment, hφ⟩
  | aborted hφ => exact .inr hφ

end System

namespace Script

variable {ts us : List Transition} {x y z : Session} {a : Action} {u : Transition} {i n m : Nat}
  {p : Publisher} {q : Queue}

/-- Where no publish of the run takes time, no worker is in the middle of one. -/
theorem Runs.prompt (run : Runs ts z)
    (prompt : ∀ u ∈ ts, u.before.system.host.faults.publishDelay = 0) :
    ∀ p ∈ z.system.publishers, ∀ job timer, p.worker.phase ≠ .publishing job timer :=
  run.workers (P := fun phase _ => ∀ job timer, phase ≠ .publishing job timer)
    (fun _ _ => nofun) fun u hu _ _ _ _ _ hs _ => Worker.prompt_of_step? hs (prompt u hu)

/-! ## What a shutdown leaves -/

/-- The call has ended, with nothing to report. -/
def Session.Finished (x : Session) (n : Nat) : Prop :=
  ∃ moment, x.system.phase? n = some (.ended moment .done)

/-- What there is of publisher `i` when it was shut down. -/
structure ShutDown (z : Session) (i : Nat) (p : Publisher) (q : Queue) (co : Correlator) :
    Prop where
  publisher : z.system.publishers[i]? = some p
  queue : z.system.queues[p.queue]? = some q
  correlator : z.system.correlators[p.correlator]? = some co
  closed : p.closed
  worker : p.worker.phase = .ended
  refusing : q.isOpen = false ∧ q.receiving = false
  empty : q.buffer = [] ∧ q.blocked = []
  listener : co.stopping
  table : co.registry.table.closed ∧ co.registry.table.entries = []
  slots : ∀ w ∈ co.registry.waiters, w.slot ≠ .empty
  broker : z.system.host.broker.closed

theorem Shutting.shutDown {due : Nat} (shutting : Shutting z n i due p) (run : Runs ts z)
    (finished : z.Finished n) : ∃ p' q co, ShutDown z i p' q co ∧ p'.config = p.config := by
  obtain ⟨⟨p', hp', closed, since⟩, ⟨q, hq, shut⟩, stage⟩ := shutting
  obtain ⟨moment, returned⟩ := finished
  have correlator : p'.correlator = p.correlator := since.correlator
  have queue : p'.queue = p.queue := since.queue
  cases stage with
  | ended _ _ done told table broker =>
    obtain ⟨p₁, hp₁, ended⟩ := (Option.any_eq_true _ _).mp done
    obtain rfl := Option.some.inj (hp'.symm.trans hp₁)
    obtain ⟨co, hc, stopping⟩ := (Option.any_eq_true _ _).mp told
    obtain ⟨co', hc', tableClosed⟩ := (Option.any_eq_true _ _).mp table
    obtain rfl := Option.some.inj (hc.symm.trans hc')
    obtain ⟨q', hq', led⟩ := run.ledgers.ledger i p' hp'
    obtain rfl := Option.some.inj ((queue ▸ hq).symm.trans hq')
    have receiving := led.balanced.ended (eq_of_beq ended)
    have wellFormed := run.wellFormed (System.getElem?_registries hc)
    have entries := wellFormed.emptied tableClosed
    refine ⟨p', q, co, ⟨hp', hq', correlator ▸ hc, closed, eq_of_beq ended, ⟨shut, receiving⟩,
      led.balanced.gone receiving, stopping, ⟨tableClosed, entries⟩, fun w hw => ?_, broker⟩,
      since.config⟩
    -- a waiter whose slot is empty would have an entry in the table
    intro empty
    have pending := wellFormed.mem_entries.mpr ⟨w, hw, Waiter.isPending_iff.mpr empty, rfl⟩
    rw [entries] at pending
    cases pending
  | draining _ hφ _ => cases returned.symm.trans hφ
  | forcing hφ _ => cases returned.symm.trans hφ
  | stopping hφ _ => cases returned.symm.trans hφ
  | joining hφ _ _ => cases returned.symm.trans hφ
  | aborted hφ => cases returned.symm.trans hφ

namespace ShutDown

variable {co : Correlator} (down : ShutDown z i p q co)
include down

/-- A waiter that was handed no acknowledgment is told that the wait is closed. -/
theorem waitResult (run : Runs ts z) {w : Waiter} (hw : w ∈ co.registry.waiters)
    (unanswered : ∀ ack, w.slot ≠ .filled ack) (token : Option Nat) :
    z.system.waitResult? ⟨p.correlator, w.serial⟩ token = some (.failed .closed) := by
  have found := waiter?_eq run.owned (System.getElem?_registries down.correlator) hw
  unfold System.waitResult?
  rw [found]
  dsimp only
  cases hs : w.slot with
  | empty => exact absurd hs (down.slots w hw)
  | filled ack => exact absurd hs (unanswered ack)
  | closed => rfl

theorem waitResult_ne_none {handle : WaitHandle} (here : handle.correlator = p.correlator)
    (token : Option Nat) : z.system.waitResult? handle token ≠ none := by
  unfold System.waitResult?
  cases hw : z.system.waiter? handle with
  | none => simp
  | some w =>
    have member : w ∈ co.registry.waiters := by
      unfold System.waiter? at hw
      rw [here, down.correlator] at hw
      exact List.mem_of_find?_eq_some hw
    dsimp only
    cases hs : w.slot with
    | empty => exact absurd hs (down.slots w member)
    | filled ack => simp
    | closed => simp

/-- No producer is told that its event was accepted any more. -/
theorem offer (item : Item) : q.offer item = (.refused, q) := by
  unfold Queue.offer
  rw [down.refusing.1]
  rfl

theorem enqueue {event : ChangeEvent} {next : Option WaitHandle}
    (hφ : z.system.phase? m = some (.enqueuing p.queue event next))
    (valid : event.validate = .ok ()) :
    ∃ y, z.after? (.agent (.call m)) = some y ∧
      y.system.phase? m = some (.ended z.system.host.now (.failed .closed)) := by
  refine ⟨{ z with system := z.system.endWaitCall m next (.failed .closed) }, ?_, ?_⟩
  · change (z.system.stepCall? m).map _ = _
    unfold System.stepCall?
    rw [System.stepCall?_of_phase hφ]
    dsimp only
    unfold System.stepEnqueuing
    rw [valid]
    dsimp only
    rw [down.queue]
    dsimp only
    rw [down.offer]
    rfl
  · cases next with
    | none => exact System.phase?_endCall hφ _
    | some handle =>
      have same : (z.system.releaseWaiter handle).phase? m = _ := hφ
      exact System.phase?_endCall same _

theorem register (event : ChangeEvent) :
    z.system.register p.correlator event = (.error .closed, z.system) := by
  have refused : co.registry.register event z.system.host.now co.timeout = .error .closed := by
    unfold WaitRegistry.register PendingTable.insert
    rw [if_pos down.table.1]
    rfl
  unfold System.register
  rw [down.correlator]
  dsimp only
  rw [refused]

/-- Another call that closes the publisher ends at once and does nothing: at most the publisher
is let go of with it. -/
theorem close (hm : z.system.calls[m]? = some ⟨.publisher i, .closing i⟩) :
    ∃ t, z.after? (.agent (.call m)) = some { z with system := t } ∧
      t.phase? m = some (.ended z.system.host.now .done) ∧ t.host = z.system.host ∧
      t.queues = z.system.queues ∧ t.correlators = z.system.correlators ∧
      t.consumers = z.system.consumers ∧ t.tokens = z.system.tokens ∧
      (∀ k, k ≠ m → t.phase? k = z.system.phase? k) ∧
      (t.publishers = z.system.publishers ∨ t.publishers =
        z.system.publishers.modify i fun p => { p with released := true }) := by
  have hφ : z.system.phase? m = some (.closing i) := congrArg (Option.map Call.phase) hm
  refine ⟨z.system.endCall m .done, ?_, System.phase?_endCall hφ _, ?_⟩
  · change (z.system.stepCall? m).map _ = _
    unfold System.stepCall?
    rw [System.stepCall?_of_phase hφ]
    dsimp only
    unfold System.stepClosing
    rw [down.publisher]
    dsimp only
    rw [if_pos down.closed]
    rfl
  · have queues : z.system.queues.modify p.queue (fun q => q.close.2) = z.system.queues :=
      modify_eq_self fun q' hq' => by
        obtain rfl := Option.some.inj (down.queue.symm.trans hq')
        rw [Queue.close, ← down.refusing.1]
    have correlators : z.system.correlators.modify p.correlator
        (fun c => { c with stopping := true }) = z.system.correlators :=
      modify_eq_self fun co' hc' => by
        obtain rfl := Option.some.inj (down.correlator.symm.trans hc')
        rw [← down.listener]
    unfold System.endCall System.releaseOwner
    rw [hm]
    dsimp only [Option.elim]
    unfold System.releasePublisher
    have present : (z.system.setPhase m (.ended z.system.host.now .done)).publishers[i]? = some p :=
      down.publisher
    rw [present]
    dsimp only
    have others : ∀ k, k ≠ m →
        (z.system.setPhase m (.ended z.system.host.now .done)).phase? k = z.system.phase? k :=
      fun k hk => by rw [phase?_of_modify rfl, if_neg (Ne.symm hk)]
    split
    · exact ⟨rfl, rfl, rfl, rfl, rfl, others, .inl rfl⟩
    · rw [if_pos down.closed]
      exact ⟨rfl, queues, correlators, rfl, rfl, others, .inr rfl⟩

section Quiescent

variable (run : Runs ts z) (quiescent : z.system.isQuiescent)
include run quiescent

theorem listener_ended : co.phase = .ended := by
  have told : z.system.listenerTold p.correlator := by
    simp [System.listenerTold, down.correlator, down.listener]
  have ended := System.listenerEnded_of_told quiescent run.staffed told
  simpa [System.listenerEnded, down.correlator, Correlator.isEnded] using ended

omit down in
theorem stepCall?_eq_none {φ : Call.Phase} (hφ : z.system.phase? m = some φ) :
    z.system.stepCall? m = none := by
  obtain ⟨c, hc, -⟩ := Option.map_eq_some_iff.mp hφ
  exact System.step?_of_quiescent quiescent (run.covers m (List.getElem?_eq_some_iff.mp hc).1)

/-- No producer stands in line or is about to bring an event. -/
theorem enqueued {φ : Call.Phase} (hφ : z.system.phase? m = some φ) (event : ChangeEvent) :
    φ.brings? ≠ some (p.queue, event) := by
  have still := stepCall?_eq_none run quiescent hφ
  unfold System.stepCall? at still
  rw [System.stepCall?_of_phase hφ] at still
  intro brings
  cases φ with
  | enqueuing j event' next => cases still
  | inLine j event' timer next =>
    obtain ⟨rfl, rfl⟩ := Prod.mk.inj (Option.some.inj brings)
    change z.system.stepInLine? m p.queue event' timer next = none at still
    unfold System.stepInLine? Queue.standing at still
    rw [down.queue] at still
    dsimp only at still
    rw [down.empty.2] at still
    cases hg : q.granted.any (·.ticket == m) <;> simp [hg] at still
  | _ => cases brings

/-- No call waits any more. -/
theorem waited {φ : Call.Phase} (hφ : z.system.phase? m = some φ) {handle : WaitHandle}
    (here : handle.correlator = p.correlator) (token : Option Nat) :
    φ ≠ .awaiting handle token ∧ ∀ timer, φ ≠ .waiting handle token timer := by
  have still := stepCall?_eq_none run quiescent hφ
  unfold System.stepCall? at still
  rw [System.stepCall?_of_phase hφ] at still
  constructor
  · rintro rfl
    cases still
  · rintro timer rfl
    exact down.waitResult_ne_none here token (Option.map_eq_none_iff.mp still)

/-- Every accepted event is counted. -/
theorem counted : (accepted ts p.queue).length =
    p.worker.stats.published + p.worker.stats.dropped + p.worker.stats.abandoned := by
  obtain ⟨q', hq', led⟩ := run.ledgers.ledger i p down.publisher
  obtain rfl := Option.some.inj (down.queue.symm.trans hq')
  have counts : ∀ o, (settled ts i o).length = p.worker.stats.count o := led.balanced.counts
  have places : (accepted ts p.queue ++ q.promised).Perm (settled ts i .published ++
      settled ts i .dropped ++ settled ts i .abandoned ++ q.buffered ++ p.worker.inHand) :=
    led.balanced.places
  have buffered : q.buffered = [] := by
    rw [Queue.buffered, down.empty.1]
    rfl
  have hand : p.worker.inHand = [] := by
    rw [Worker.inHand, down.worker]
    rfl
  rw [promised_eq_nil run quiescent hq' led, buffered, hand] at places
  simp only [List.append_nil] at places
  rw [places.length_eq]
  simp only [List.length_append, counts, PublishStats.count]

end Quiescent

end ShutDown

/-- After the action the worker of publisher `i` has ended, and was not told to. -/
def Transition.Drains (u : Transition) (i : Nat) : Prop :=
  ∃ p, u.after.system.publishers[i]? = some p ∧ p.worker.phase = .ended ∧
    p.worker.stopping = false

theorem Transition.Drains.abandoned (drains : u.Drains i) (run : Runs ts z) (hu : u ∈ ts)
    (hp : z.system.publishers[i]? = some p) : p.worker.stats.abandoned = 0 := by
  obtain ⟨p₁, hp₁, ended, going⟩ := drains
  obtain ⟨us, earlier, h⟩ := run.made hu
  have staffed := (Runs.next earlier h).staffed
  have none := (staffed.sound p₁ (List.mem_of_getElem? hp₁)).given going
  obtain ⟨p₂, hp₂, since⟩ := (run.onward hu).publishers i p₁ hp₁
  obtain rfl := Option.some.inj (hp.symm.trans hp₂)
  rw [(since.worker.ended ended).2]
  exact none

/-! ## From then on -/

/-- What comes later goes on from the end of the run. -/
theorem Runs.later (run : Runs ts z) (hu : u ∈ ts) (later : Runs (us ++ ts) y) :
    z.Onward y ∧ (z.Finished n → y.Finished n) := by
  induction us generalizing y with
  | nil =>
    cases run with
    | start => cases hu
    | next run h =>
      cases later with
      | next _ _ => exact ⟨.refl _, id⟩
  | cons t us ih =>
    cases later with
    | next earlier h =>
      obtain ⟨onward, finished⟩ := ih earlier
      refine ⟨onward.trans (Session.onward_of_after? h), fun now => ?_⟩
      obtain ⟨moment, hφ⟩ := finished now
      exact ⟨moment, ended_of_after? h hφ⟩

/-- What holds of a publisher that was shut down where nothing can go on. -/
structure AtRest (ts : List Transition) (z : Session) (p : Publisher) (co : Correlator) : Prop where
  listener : co.phase = .ended
  producers : ∀ m φ event, z.system.phase? m = some φ → φ.brings? ≠ some (p.queue, event)
  waits : ∀ m φ handle token, z.system.phase? m = some φ → handle.correlator = p.correlator →
    φ ≠ .awaiting handle token ∧ ∀ timer, φ ≠ .waiting handle token timer
  counted : (accepted ts p.queue).length =
    p.worker.stats.published + p.worker.stats.dropped + p.worker.stats.abandoned

/-- What the parts of a publisher that was shut down, by call `n`, answer from then on. -/
structure Sealed (ts : List Transition) (z : Session) (n i : Nat) (p : Publisher)
    (co : Correlator) : Prop where
  waits : ∀ w ∈ co.registry.waiters, (∀ ack, w.slot ≠ .filled ack) → ∀ token,
    z.system.waitResult? ⟨p.correlator, w.serial⟩ token = some (.failed .closed)
  enqueue : ∀ m event next, z.system.phase? m = some (.enqueuing p.queue event next) →
    event.validate = .ok () → ∃ y, z.after? (.agent (.call m)) = some y ∧
      y.system.phase? m = some (.ended z.system.host.now (.failed .closed))
  register : ∀ event, z.system.register p.correlator event = (.error .closed, z.system)
  close : ∀ m, z.system.calls[m]? = some ⟨.publisher i, .closing i⟩ →
    ∃ t, z.after? (.agent (.call m)) = some { z with system := t } ∧
      t.phase? m = some (.ended z.system.host.now .done) ∧ t.host = z.system.host ∧
      t.queues = z.system.queues ∧ t.correlators = z.system.correlators ∧
      t.consumers = z.system.consumers ∧ t.tokens = z.system.tokens ∧
      (∀ k, k ≠ m → t.phase? k = z.system.phase? k) ∧
      (t.publishers = z.system.publishers ∨ t.publishers =
        z.system.publishers.modify i fun p => { p with released := true })
  later : ∀ us y, Runs (us ++ ts) y → y.Finished n ∧
    y.system.host.broker.published = z.system.host.broker.published

/-- Where publishing takes no time, the first call that closes a publisher has ended wherever
nothing can go on and the drain is over, unless it was given up. When it has ended, the
publisher is shut down; where nothing can go on, nobody waits for it any more; and from then
on all its parts refuse what they are asked, and nothing is published. -/
theorem shutdown_complete (run : Runs ts z)
    (prompt : ∀ v ∈ ts, v.before.system.host.faults.publishDelay = 0) (hu : u ∈ ts)
    (first : u.FirstClose n i p) (kept : z.system.phase? n ≠ some .aborted) :
    (z.system.isQuiescent →
      u.before.system.host.now + p.config.drainTimeout.ticks ≤ z.system.host.now → z.Finished n) ∧
    (z.Finished n → ∃ p' q co, ShutDown z i p' q co ∧ p'.config = p.config ∧
      (z.system.isQuiescent → AtRest ts z p' co) ∧
      ((∃ v ∈ ts, v.Drains i) → p'.worker.stats.abandoned = 0) ∧
      Sealed ts z n i p' co) := by
  have shutting := run.shutting hu first
  refine ⟨fun quiescent late => ?_, fun finished => ?_⟩
  · obtain ⟨p', hp', -⟩ := shutting.publisher
    have running : Agent.call n ∈ z.system.started := by
      obtain ⟨φ, hφ⟩ := shutting.stage.exists_phase
      obtain ⟨c, hc, -⟩ := Option.map_eq_some_iff.mp hφ
      exact run.covers n (List.getElem?_eq_some_iff.mp hc).1
    have queues : ∀ p, z.system.publishers[i]? = some p → ∃ q, z.system.queues[p.queue]? = some q :=
      fun p hp => (run.ledgers.ledger i p hp).imp fun _ h => h.1
    rcases shutting.stage.finished quiescent run.staffed running hp' queues (run.prompt prompt)
      late with ended | aborted
    · exact ended
    · exact absurd aborted kept
  · obtain ⟨p', q, co, down, config⟩ := shutting.shutDown run finished
    refine ⟨p', q, co, down, config, fun quiescent => ?_, ?_, ?_⟩
    · exact ⟨down.listener_ended run quiescent,
        fun m φ event hφ => down.enqueued run quiescent hφ event,
        fun m φ handle token hφ here => down.waited run quiescent hφ here token,
        down.counted run quiescent⟩
    · rintro ⟨v, hv, drains⟩
      exact drains.abandoned run hv down.publisher
    · refine ⟨fun w hw unanswered token => down.waitResult run hw unanswered token,
        fun m event next hφ valid => down.enqueue hφ valid, down.register,
        fun m hm => down.close hm, fun us y later => ?_⟩
      obtain ⟨onward, still⟩ := run.later (n := n) hu later
      exact ⟨still finished, onward.host.published down.broker⟩

/-- A publisher that is closed while its worker rests longer than the drain lasts; the latest
action first. -/
def stoppedAtRest : List Action :=
  [.agent (.call 1), .agent (.listener 0), .agent (.call 1), .agent (.call 1), .agent (.worker 0),
   .agent (.call 1), .tick 5000, .agent (.call 1), .perform (.close "p"), .agent (.worker 0),
   .agent (.worker 0), .agent (.call 0), .agent (.listener 0),
   .perform (.enqueue "p" (creation none)), .perform (.failPublishes 1),
   .perform (.openPublisher "p" { retryDelay := .ofSeconds 10 })]

set_option maxRecDepth 100000 in
/-- The drain was given up after five seconds, and the event in hand with it. -/
theorem drain_given_up :
    ∃ p q co, ShutDown (play stoppedAtRest).2 0 p q co ∧
      AtRest (play stoppedAtRest).1 (play stoppedAtRest).2 p co ∧
      p.worker.stats.abandoned = 1 ∧ (play stoppedAtRest).2.system.host.now = 5000 := by
  let z := (play stoppedAtRest).2
  let u : Transition := ((play stoppedAtRest).1[7]?).get (by rfl)
  have hu : u ∈ (play stoppedAtRest).1 := List.mem_of_getElem? (Option.some_get _).symm
  have present : (u.before.system.publishers[0]?.map fun p => (p.closed, p.config.drainTimeout)) =
      some (false, .ofSeconds 5) := by rfl
  obtain ⟨p, hp, both⟩ := Option.map_eq_some_iff.mp present
  obtain ⟨isOpen, drainTimeout⟩ := Prod.mk.inj both
  have first : u.FirstClose 1 0 p := ⟨by rfl, by rfl, hp, isOpen⟩
  have prompt : ∀ v ∈ (play stoppedAtRest).1, v.before.system.host.faults.publishDelay = 0 := by
    decide +kernel
  have kept : z.system.phase? 1 ≠ some .aborted := by decide +kernel
  have quiescent : z.system.isQuiescent = true := by rfl
  have late : u.before.system.host.now + p.config.drainTimeout.ticks ≤ z.system.host.now := by
    rw [drainTimeout]
    decide +kernel
  obtain ⟨bounded, complete⟩ :=
    shutdown_complete (play_runs stoppedAtRest) prompt hu first kept
  obtain ⟨p', q, co, down, -, rest, -⟩ := complete (bounded quiescent late)
  have abandoned : (z.system.publishers[0]?.map fun p => p.worker.stats.abandoned) = some 1 := by
    rfl
  rw [down.publisher] at abandoned
  exact ⟨p', q, co, down, rest quiescent, Option.some.inj abandoned, by rfl⟩

end Script

end ChangeDispatch
