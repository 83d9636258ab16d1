import ChangeDispatch.Proofs.Publisher.Attempts
import ChangeDispatch.Proofs.Wait.Redelivery

/-!
# Bounded retry

A worker that has received an event makes its attempts a delay apart, counted from the end of the
one before, and is done with the event after a success, after the last failure, or when it is
told to stop and rests. So the event is in its hand for a bounded time, and has one outcome. The
times are those of a punctual clock; nothing is claimed here of what the queue does meanwhile.
-/
namespace ChangeDispatch.Script

variable {ts since later sooner earlier : List Transition} {x y z : Session} {a : Action}
  {t u v : Transition} {i : Nat} {p p' : Publisher} {q : Queue} {item : Item} {received : Nat}
  {errors : List TransportError} {o : Outcome}

open Attempt (Evenly)
open Worker (Course Done latest)

/-! ## What a run shows of a worker -/

/-- What is so of a worker and its host when the worker goes on. -/
def Transition.ofWorker {α : Type} (t : Transition) (i : Nat) (f : Host → Worker → Option α) :
    Option α :=
  if t.action.isWorker i then
    (t.before.system.publishers[i]?).bind fun p => f t.before.system.host p.worker
  else none

/-- What the worker of publisher `i` reports, the latest first. -/
def Transition.workerReports (t : Transition) (i : Nat) : List Notice :=
  if t.action.isWorker i then t.after.system.host.noticesSince t.before.system.host else []

/-- The worker of publisher `i` was told to stop. -/
def Session.isHalted (x : Session) (i : Nat) : Bool :=
  (x.system.publishers[i]?).any fun p => p.worker.stopping

/-- The moment at which the worker of publisher `i` is told to stop, if that is now. -/
def Transition.halt? (t : Transition) (i : Nat) : Option Nat :=
  if t.after.isHalted i && !t.before.isHalted i then some t.before.system.host.now else none

/-- What transitions show of the worker of publisher `i`. -/
def workerRecord (ts : List Transition) (i : Nat) : Worker.Record where
  tries := ts.filterMap fun t => t.ofWorker i fun h w => w.attempt? h
  results := ts.filterMap fun t => t.ofWorker i fun h w => w.result? h
  halts := ts.filterMap fun t => t.halt? i
  reports := ts.flatMap fun t => t.workerReports i

theorem Action.isWorker_self (i : Nat) : (Action.agent (.worker i)).isWorker i := beq_self_eq_true i

theorem Action.isWorker_of_ne (others : a ≠ .agent (.worker i)) : a.isWorker i = false := by
  cases h : a.isWorker i with
  | false => rfl
  | true => exact absurd (Action.of_isWorker h) others

theorem Session.isHalted_eq (hp : x.system.publishers[i]? = some p) :
    x.isHalted i = p.worker.stopping := by
  simp [isHalted, hp]

/-- A step of the worker adds to its record what a step of a worker adds. -/
theorem workerRecord_own (ts : List Transition) (hp : x.system.publishers[i]? = some p)
    (hp' : y.system.publishers[i]? = some p') (same : p'.worker.stopping = p.worker.stopping) :
    workerRecord (⟨x, .agent (.worker i), y⟩ :: ts) i =
      (workerRecord ts i).step x.system.host y.system.host p.worker := by
  have halts : (⟨x, .agent (.worker i), y⟩ : Transition).halt? i = none := by
    simp [Transition.halt?, Session.isHalted_eq hp, Session.isHalted_eq hp', same]
  have own := Action.isWorker_self i
  have of : ∀ {α : Type} (f : Host → Worker → Option α),
      (⟨x, .agent (.worker i), y⟩ : Transition).ofWorker i f = f x.system.host p.worker := by
    intro α f
    simp [Transition.ofWorker, own, hp]
  unfold workerRecord Worker.Record.step
  simp only [List.filterMap_cons, List.flatMap_cons, of, halts, Transition.workerReports, own,
    if_true]
  cases p.worker.attempt? x.system.host <;> cases p.worker.result? x.system.host <;> rfl

/-- What others do adds to the record only that the worker is told to stop. -/
theorem workerRecord_others (others : a ≠ .agent (.worker i)) :
    workerRecord (⟨x, a, y⟩ :: ts) i =
      { workerRecord ts i with
        halts := ((⟨x, a, y⟩ : Transition).halt? i).toList ++ (workerRecord ts i).halts } := by
  have other := Action.isWorker_of_ne others
  unfold workerRecord
  simp only [List.filterMap_cons, List.flatMap_cons, Transition.ofWorker, Transition.workerReports,
    other, Bool.false_eq_true, if_false, List.nil_append]
  cases (⟨x, a, y⟩ : Transition).halt? i <;> rfl

/-! ## The course of an event -/

/-- The step of a worker, with what it makes of the session. -/
theorem worker_step (h : x.after? (.agent (.worker i)) = some y) : ∃ p q q' w,
    x.system.publishers[i]? = some p ∧ x.system.queues[p.queue]? = some q ∧
      p.worker.step? x.system.host q = some (y.system.host, q', w) ∧
      y.system.publishers[i]? = some { p with worker := w } ∧
      y.system.queues[p.queue]? = some q' := by
  obtain ⟨s, hs, rfl⟩ := Option.map_eq_some_iff.mp h
  obtain ⟨p, q, host, q', w, hp, hq, hw, rfl⟩ := Agent.step?_worker hs
  refine ⟨p, q, q', w, hp, hq, hw, ?_, ?_⟩
  · simp [System.adjustPublisher, System.adjustQueue, hp]
  · simp [System.adjustPublisher, System.adjustQueue, hq]

/-- Others leave a worker as it is, or tell it to stop. -/
theorem worker_of_others (h : x.after? a = some y) (others : a ≠ .agent (.worker i))
    (hp : x.system.publishers[i]? = some p) : ∃ p', y.system.publishers[i]? = some p' ∧
      p'.queue = p.queue ∧ (p'.worker = p.worker ∨
        p.worker.stopping = false ∧ p'.worker = { p.worker with stopping := true }) := by
  obtain ⟨p', hp', onward⟩ := (Session.onward_of_after? h).publishers i p hp
  rcases Session.publisher_cases h hp' with ⟨p₀, hp₀, core⟩ | ⟨_, _, _, _, _, own, _⟩ | ⟨new, _⟩
  · obtain rfl := Option.some.inj (hp.symm.trans hp₀)
    refine ⟨p', hp', onward.queue, ?_⟩
    obtain ⟨-, -, worker⟩ := Publisher.of_core core
    have kept := onward.worker.stopping
    generalize p'.worker = w' at worker kept
    generalize p.worker = w at worker kept
    obtain ⟨topic, retry, phase, stats, stopping⟩ := w
    obtain ⟨topic', retry', phase', stats', stopping'⟩ := w'
    simp only [Worker.mk.injEq, and_true] at worker
    obtain ⟨rfl, rfl, rfl, rfl⟩ := worker
    cases stopping with
    | true =>
      obtain rfl : stopping' = true := kept rfl
      exact .inl rfl
    | false =>
      cases stopping' with
      | true => exact .inr ⟨rfl, rfl⟩
      | false => exact .inl rfl
  · exact absurd own others
  · cases hp.symm.trans new

/-- The event is in the hand of the worker of publisher `i`, which was `p` before. -/
def Session.Tries (x : Session) (since : List Transition) (i : Nat) (p : Publisher) (item : Item)
    (received : Nat) : Prop :=
  ∃ p' errors, x.system.publishers[i]? = some p' ∧ p'.queue = p.queue ∧
    Course p.worker item received p'.worker x.system.host.now (workerRecord since i) errors

/-- A worker that cannot go on where nothing else can. -/
theorem Runs.worker_still (run : Runs ts x) (hp : x.system.publishers[i]? = some p)
    (quiescent : x.system.isQuiescent) : ∃ q, x.system.queues[p.queue]? = some q ∧
      p.worker.step? x.system.host q = none := by
  obtain ⟨q, hq, -⟩ := run.ledgers.ledger i p hp
  have still := System.step?_of_quiescent quiescent
    (run.staffed.worker i (List.getElem?_eq_some_iff.mp hp).1)
  refine ⟨q, hq, ?_⟩
  cases hs : p.worker.step? x.system.host q with
  | none => rfl
  | some _ => simp [Agent.step?, hp, hq, hs] at still

/-- The transition is the step in which the worker is done with the event. -/
def Transition.Concludes (t : Transition) (sooner : List Transition) (i : Nat) (p : Publisher)
    (item : Item) (received : Nat) : Prop :=
  t.action = .agent (.worker i) ∧ ∃ p' q errors o,
    t.before.system.queues[p.queue]? = some q ∧ t.after.system.publishers[i]? = some p' ∧
    Done p.worker item received q p'.worker t.before.system.host.now
      (workerRecord (t :: sooner) i) errors o

/-- Time passes only where the worker waits for a moment that is not past. -/
theorem Session.Tries.tick {moment : Nat} (run : Runs ts x)
    (h : x.after? (.tick moment) = some y)
    (punctual : (⟨x, .tick moment, y⟩ : Transition).isPunctual)
    (tries : x.Tries since i p item received) :
    y.Tries (⟨x, .tick moment, y⟩ :: since) i p item received := by
  obtain ⟨p₁, errors, hp₁, queue, course⟩ := tries
  obtain ⟨quiescent, timers⟩ := System.isPunctual_iff.mp punctual
  obtain ⟨q, -, still⟩ := run.worker_still hp₁ quiescent
  have staffed := run.staffed.worker i (List.getElem?_eq_some_iff.mp hp₁).1
  have later := now_le_of_after? h
  obtain rfl := Session.after?_tick h
  refine ⟨p₁, errors, hp₁, queue, ?_⟩
  have none :
      (⟨x, .tick moment, x.onSystem (·.atMoment moment)⟩ : Transition).halt? i = none := by
    simp [Transition.halt?, Session.isHalted, Session.onSystem, System.atMoment]
  rw [workerRecord_others (by simp), none]
  refine course.tick rfl still later fun timer waits => ?_
  refine timers _ (List.mem_append_left _ staffed) timer ?_
  simp [Agent.timer?, hp₁, waits]

theorem Session.Tries.next (run : Runs ts x) (h : x.after? a = some y)
    (punctual : (⟨x, a, y⟩ : Transition).isPunctual) (tries : x.Tries since i p item received) :
    y.Tries (⟨x, a, y⟩ :: since) i p item received ∨
      (⟨x, a, y⟩ : Transition).Concludes since i p item received := by
  by_cases ticks : ∃ moment, a = .tick moment
  · obtain ⟨moment, rfl⟩ := ticks
    exact .inl (tries.tick run h punctual)
  have now := now_of_after? h fun moment tick => ticks ⟨moment, tick⟩
  obtain ⟨p₁, errors, hp₁, queue, course⟩ := tries
  by_cases own : a = .agent (.worker i)
  · subst own
    obtain ⟨p₂, q, q', w, hp₂, hq, hw, after, -⟩ := worker_step h
    obtain rfl := Option.some.inj (hp₁.symm.trans hp₂)
    have record := workerRecord_own since hp₁ after (Worker.stopping_of_step? hw)
    rcases course.step rfl hw with ⟨errors', course'⟩ | ⟨errors', o, done⟩
    · refine .inl ⟨_, errors', after, queue, ?_⟩
      rw [record, now]
      exact course'
    · refine .inr ⟨rfl, _, q, errors', o, queue ▸ hq, after, ?_⟩
      rw [record]
      exact done
  · obtain ⟨p₂, hp₂, queue', worker⟩ := worker_of_others h own hp₁
    refine .inl ⟨p₂, errors, hp₂, queue'.trans queue, ?_⟩
    rw [workerRecord_others own, now]
    rcases worker with same | ⟨going, told⟩
    · have none : (⟨x, a, y⟩ : Transition).halt? i = none := by
        simp [Transition.halt?, Session.isHalted_eq hp₁, Session.isHalted_eq hp₂, same]
      rw [none, same]
      exact course
    · have halts : (⟨x, a, y⟩ : Transition).halt? i = some x.system.host.now := by
        simp [Transition.halt?, Session.isHalted_eq hp₁, Session.isHalted_eq hp₂, told, going]
      rw [halts, told]
      exact course.halt going

/-! ## From the moment at which an event is received -/

/-- The worker of publisher `i`, which was `p` before, receives an event from its queue. -/
structure Transition.Receives (t : Transition) (i : Nat) (p : Publisher) (item : Item) : Prop where
  action : t.action = .agent (.worker i)
  publisher : t.before.system.publishers[i]? = some p
  idle : p.worker.phase = .idle
  taken : (t.after.system.publishers[i]?).map (fun p => p.worker.phase) =
    some (.attempting { item })

theorem Transition.Receives.tries (run : Runs (t :: earlier) z) (received : t.Receives i p item) :
    z.Tries [] i p item t.before.system.host.now := by
  obtain ⟨action, publisher, idle, taken⟩ := received
  cases run with
  | @next _ x _ a run h =>
    dsimp only at action publisher taken
    subst action
    have now := now_of_after? h (by simp)
    obtain ⟨p₂, q, q', w, hp₂, -, hw, after, -⟩ := worker_step h
    obtain rfl := Option.some.inj (publisher.symm.trans hp₂)
    have phase : w.phase = .attempting { item } := by simpa [after] using taken
    refine ⟨_, [], after, rfl, ?_⟩
    rw [now]
    generalize z.system.host = k at hw
    cases Worker.turn_of_step? hw with
    | taking _ going _ =>
      obtain rfl := (Job.mk.inj (Worker.Phase.attempting.inj phase)).1
      exact .start going
    | abandoning _ _ => cases phase
    | ending _ _ _ _ => cases phase
    | delaying attempting _ => cases idle.symm.trans attempting
    | attempting attempts =>
      rcases attempts with ⟨attempting, -⟩ | ⟨_, publishing, -⟩
      · cases idle.symm.trans attempting
      · cases idle.symm.trans publishing
    | interrupting resting _ => cases idle.symm.trans resting
    | retrying resting _ _ => cases idle.symm.trans resting

/-- What has become of an event that the worker of publisher `i`, which was `p` before, has
received. -/
inductive Retried (since : List Transition) (z : Session) (i : Nat) (p : Publisher) (item : Item)
    (received : Nat) : Prop where
  /-- The event is in the hand of the worker, which goes on before its time is over. Where nothing
  can go on, a worker that rests was not told to stop. -/
  | held (p' : Publisher) (errors : List TransportError) :
      z.system.publishers[i]? = some p' →
      Course p.worker item received p'.worker z.system.host.now (workerRecord since i) errors →
      Evenly received p.worker.retry.delay.ticks (workerRecord since i).tries →
      z.system.host.now ≤ latest p.worker received (workerRecord since i).tries →
      (z.system.isQuiescent →
        z.system.host.now < latest p.worker received (workerRecord since i).tries ∧
        ∀ job timer, p'.worker.phase = .resting job timer → (workerRecord since i).halts = []) →
      Retried since z i p item received
  /-- The worker was done with the event in a step of its own, for good. -/
  | finished (u : Transition) (later sooner : List Transition) :
      since = later ++ u :: sooner → u.Concludes sooner i p item received →
      Evenly received p.worker.retry.delay.ticks (workerRecord (u :: sooner) i).tries →
      (∀ v ∈ later, ∀ p', v.after.system.publishers[i]? = some p' →
        item.ticket ∉ p'.worker.inHand) →
      Retried since z i p item received

theorem Transition.Concludes.settled (concludes : u.Concludes sooner i p item received)
    (tries : u.before.Tries sooner i p item received) (ts : List Transition) :
    ∃ o, item.ticket ∈ settled (u :: ts) i o := by
  obtain ⟨p₁, errors, hp₁, queue, course⟩ := tries
  obtain ⟨-, p', q, errors', o, hq, hp', done⟩ := concludes
  refine ⟨o, List.mem_append_left _ ?_⟩
  have counted : p₁.worker.stats.count o < p'.worker.stats.count o := by
    rw [done.counts o, course.count o, if_pos rfl]
    split <;> omega
  have hand := Worker.inHand_of_item? course.item?
  simp only [Transition.leaves, hp₁, hp', queue, hq, Option.elim_some, Worker.leaves,
    if_pos counted, hand]
  exact List.mem_append_left _ (List.mem_singleton_self _)

/-- An event that has an outcome is not received again. -/
theorem Runs.not_inHand (run : Runs (later ++ ts) z) {n : Nat}
    (settled : n ∈ Script.settled ts i o) :
    ∀ v ∈ later, ∀ p', v.after.system.publishers[i]? = some p' → n ∉ p'.worker.inHand := by
  intro v hv p' hp' hand
  obtain ⟨newer, older, rfl⟩ := List.append_of_mem hv
  rw [List.append_assoc, List.cons_append] at run
  have after := run.split.2
  obtain ⟨q, -, led⟩ := after.ledgers.ledger i p' hp'
  have still : n ∈ Script.settled (v :: (older ++ ts)) i o := by
    unfold Script.settled at settled ⊢
    rw [List.flatMap_cons, List.flatMap_append]
    exact List.mem_append_right _ (List.mem_append_right _ settled)
  exact led.not_pending still (List.mem_append_right _ hand)

/-- The event is in the hand of the worker all along, or the worker was done with it. -/
theorem Runs.tries (run : Runs (since ++ t :: earlier) z) (receives : t.Receives i p item)
    (punctual : ∀ u ∈ since, u.isPunctual) :
    z.Tries since i p item t.before.system.host.now ∨
      ∃ u later sooner, since = later ++ u :: sooner ∧
        u.before.Tries sooner i p item t.before.system.host.now ∧
        u.Concludes sooner i p item t.before.system.host.now := by
  induction since generalizing z with
  | nil => exact .inl (receives.tries run)
  | cons v since ih =>
    cases run with
    | @next _ x _ a run h =>
      rcases ih run fun u hu => punctual u (List.mem_cons_of_mem _ hu) with
        tries | ⟨u, later, sooner, split, tries, concludes⟩
      · rcases tries.next run h (punctual _ List.mem_cons_self) with still | concludes
        · exact .inl still
        · exact .inr ⟨_, [], since, rfl, tries, concludes⟩
      · exact .inr ⟨u, _ :: later, sooner, by rw [split]; rfl, tries, concludes⟩

/-- Where the clock is punctual, every event that a worker receives is tried at most as often as
there are attempts, each of them a delay after the end of the one before, and it leaves the hand of
the worker in time, with one outcome. -/
theorem bounded_retry (run : Runs (since ++ t :: earlier) z) (receives : t.Receives i p item)
    (punctual : ∀ u ∈ since, u.isPunctual) :
    Retried since z i p item t.before.system.host.now := by
  rcases run.tries receives punctual with
    ⟨p', errors, hp', queue, course⟩ | ⟨u, later, sooner, rfl, tries, concludes⟩
  · refine .held p' errors hp' course course.inTurn.evenly course.now_le fun quiescent => ?_
    obtain ⟨q, -, still⟩ := run.worker_still hp' quiescent
    obtain ⟨-, -, -, going⟩ := course.waits rfl still
    exact ⟨course.now_lt rfl still, going⟩
  · rw [List.append_assoc, List.cons_append] at run
    obtain ⟨o, settled⟩ := concludes.settled tries (sooner ++ t :: earlier)
    obtain ⟨-, p', q, errors, o', -, -, done⟩ := id concludes
    exact .finished u later sooner rfl concludes done.inTurn.evenly (run.not_inHand settled)

/-- A publisher is open, two publishes are to fail, and an event is queued; the latest action
first. -/
def failingTwice : List Action :=
  [.agent (.call 0), .agent (.listener 0), .perform (.enqueue "p" (creation none)),
   .perform (.failPublishes 2),
   .perform (.openPublisher "p" { retryDelay := .ofMillis 1000, maxPublishAttempts := 3 })]

/-- What follows when the worker has received the event, up to the third attempt; the latest action
first. -/
def retriedTwice : List Action :=
  [.agent (.worker 0), .agent (.worker 0), .tick 2000, .agent (.worker 0), .agent (.worker 0),
   .tick 1000, .agent (.worker 0)]

set_option maxRecDepth 100000 in
/-- Two attempts have failed and the third has succeeded, a second apart each. -/
theorem published_at_third_attempt :
    let ts := (play (retriedTwice ++ .agent (.worker 0) :: failingTwice)).1
    let t := happening (.agent (.worker 0)) failingTwice
    let since := ts.take retriedTwice.length
    ∃ p, t.Receives 0 p ⟨0, creation none⟩ ∧ (∀ u ∈ since, u.isPunctual) ∧
      Retried since (play (retriedTwice ++ .agent (.worker 0) :: failingTwice)).2 0 p
        ⟨0, creation none⟩ 0 ∧
      (workerRecord since 0).tries = [⟨3, 2000, 0⟩, ⟨2, 1000, 0⟩, ⟨1, 0, 0⟩] ∧
      (workerRecord since 0).results.length = 3 := by
  intro ts t since
  have idle : (t.before.system.publishers[0]?).map (fun p => p.worker.phase) = some .idle := by rfl
  obtain ⟨p, publisher, phase⟩ := Option.map_eq_some_iff.mp idle
  have receives : t.Receives 0 p ⟨0, creation none⟩ := ⟨rfl, publisher, phase, by rfl⟩
  have punctual : ∀ u ∈ since, u.isPunctual := by
    have all : since.all Transition.isPunctual = true := by rfl
    exact fun u hu => List.all_eq_true.mp all u hu
  have split : ts = since ++ t :: (play failingTwice).1 := by rfl
  have run : Runs ts (play (retriedTwice ++ .agent (.worker 0) :: failingTwice)).2 := play_runs _
  rw [split] at run
  exact ⟨p, receives, punctual, bounded_retry run receives punctual, by rfl, by rfl⟩

/-- A publisher is open on a connection over which a publish takes a while, the next publish is to
fail, and an event is queued; the latest action first. -/
def failingSlowly : List Action :=
  [.agent (.call 0), .agent (.listener 0), .perform (.enqueue "p" (creation none)),
   .perform (.failPublishes 1), .perform (.setFaults { publishDelay := 100 }),
   .perform (.openPublisher "p" { retryDelay := .ofMillis 1000, maxPublishAttempts := 2 })]

/-- What follows when the worker has received the event, up to the second attempt; the latest
action first. -/
def retriedSlowly : List Action :=
  [.agent (.worker 0), .agent (.worker 0), .tick 1100, .agent (.worker 0), .tick 100,
   .agent (.worker 0)]

set_option maxRecDepth 100000 in
/-- Where publishes take a while, the second attempt is made later than a delay after the event was
received, and the event is held longer than all delays together. -/
theorem slow_publish_defers_retry :
    let ts := (play (retriedSlowly ++ .agent (.worker 0) :: failingSlowly)).1
    let z := (play (retriedSlowly ++ .agent (.worker 0) :: failingSlowly)).2
    let t := happening (.agent (.worker 0)) failingSlowly
    let since := ts.take retriedSlowly.length
    ∃ p p', ts = since ++ t :: (play failingSlowly).1 ∧ (∀ u ∈ since, u.isPunctual) ∧
      t.Receives 0 p ⟨0, creation none⟩ ∧ t.before.system.host.now = 0 ∧
      p.worker.retry = ⟨2, .ofMillis 1000⟩ ∧
      (workerRecord since 0).tries.map Attempt.moment ≠ [0 + 1000, 0] ∧
      z.system.publishers[0]? = some p' ∧ p'.worker.phase.item? = some ⟨0, creation none⟩ ∧
      0 + (2 - 1) * 1000 < z.system.host.now := by
  intro ts z t since
  have before : (t.before.system.publishers[0]?).map (fun p => (p.worker.phase, p.worker.retry)) =
      some (.idle, ⟨2, .ofMillis 1000⟩) := by rfl
  obtain ⟨p, publisher, same⟩ := Option.map_eq_some_iff.mp before
  obtain ⟨phase, retry⟩ := Prod.mk.inj same
  have after : (z.system.publishers[0]?).map (fun p => p.worker.phase.item?) =
      some (some ⟨0, creation none⟩) := by rfl
  obtain ⟨p', publisher', held⟩ := Option.map_eq_some_iff.mp after
  have receives : t.Receives 0 p ⟨0, creation none⟩ := ⟨rfl, publisher, phase, by rfl⟩
  have punctual : ∀ u ∈ since, u.isPunctual := by
    have all : since.all Transition.isPunctual = true := by rfl
    exact fun u hu => List.all_eq_true.mp all u hu
  have moments : (workerRecord since 0).tries.map Attempt.moment = [1100, 0] := by rfl
  refine ⟨p, p', by rfl, punctual, receives, by rfl, retry, ?_, publisher', held, ?_⟩
  · rw [moments]
    decide
  · decide +kernel

end ChangeDispatch.Script
