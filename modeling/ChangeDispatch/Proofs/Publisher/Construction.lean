import ChangeDispatch.Proofs.Settlement.Tally
import ChangeDispatch.Proofs.Shutdown.Sessions

/-!
# What a publisher that is opened leaves behind

To open a publisher takes three things: settings that pass their check, an open broker, and a
subscription on the acknowledgment topic. The first that is missing is the error. Then nothing
was added to the system, and the broker, whoever else uses it, is closed.

A fourth thing is not checked: the queue must not have more slots than can be counted. With such
settings the making of the queue panics when the subscription is made already. The subscription
is given up, but nobody closes the broker. Otherwise there is one more subscription, one more
queue with its worker, and one more correlator with its listener. Nothing is published and
nothing is settled in any of these cases.
-/
namespace ChangeDispatch

/-- A publisher with its worker that has done nothing yet. -/
structure Publisher.IsNew (p : Publisher) (config : DispatchConfig) (queue correlator : Nat) :
    Prop where
  settings : p.config = config
  queue : p.queue = queue
  correlator : p.correlator = correlator
  /-- Nobody has closed it, waited for its worker or let go of it. -/
  inUse : p.closed = false ∧ p.joinable ∧ p.dropped = false ∧ p.released = false
  /-- The worker holds no event and was not told to stop. -/
  idle : p.worker.phase = .idle ∧ p.worker.stopping = false
  topic : p.worker.topic = config.changeTopic
  retry : p.worker.retry.maxAttempts = config.maxPublishAttempts ∧
    p.worker.retry.delay = config.retryDelay
  stats : p.worker.stats = {}

/-- A correlator with its listener that has done nothing yet. -/
structure Correlator.IsNew (c : Correlator) (config : DispatchConfig) (subscription : Nat) :
    Prop where
  subscription : c.subscription = subscription
  timeout : c.timeout = config.ackTimeout
  unmatchedDelay : c.unmatchedDelay = config.unmatchedAckDelay
  /-- Nobody has stopped it, waited for its listener or let go of it. -/
  inUse : c.stopping = false ∧ c.joinable ∧ c.dropped = false
  /-- The listener is about to receive. -/
  ready : c.phase = .ready
  /-- Nobody waits yet. -/
  registry : c.registry = {}

namespace System

/-- Nothing stands in the way of a publisher that is checked for. -/
def CanOpen (s : System) (config : DispatchConfig) : Prop :=
  config.validate = .ok () ∧ s.host.broker.closed = false ∧
    s.host.broker.failSubscriptions = false

/-- The reasons why a publisher is refused. A reason counts only where those before it do not
hold. -/
inductive Refuses (s : System) (config : DispatchConfig) : DispatchError → Prop where
  | settings {e : DispatchError} :
      config.validate = .error e → Refuses s config e
  | closed :
      config.validate = .ok () → s.host.broker.closed → Refuses s config (.transport .closed)
  | subscription :
      config.validate = .ok () → s.host.broker.closed = false → s.host.broker.failSubscriptions →
      Refuses s config (.transport (.subscribe "injected subscribe failure"))

/-- The subscription of the listener of a publisher. -/
def ackSubscription (config : DispatchConfig) : Subscription where
  topic := config.ackTopic
  name := config.ackSubscription
  maxDeliveries := some config.ackMaxDeliveries

/-- What a publisher that was opened has added to the system. -/
structure Built (s t : System) (config : DispatchConfig) (i : Nat) : Prop where
  number : i = s.publishers.length
  /-- The publisher has the new queue and the new correlator. -/
  publishers : ∃ p, t.publishers = s.publishers ++ [p] ∧
    p.IsNew config s.queues.length s.correlators.length
  queues : t.queues = s.queues ++ [.ofCapacity config.queueCapacity config.enqueueTimeout]
  /-- The listener has the new subscription. -/
  correlators : ∃ c, t.correlators = s.correlators ++ [c] ∧
    c.IsNew config s.host.broker.subscriptions.length
  /-- One worker and one listener make progress from now on. -/
  started : t.started = s.started ++ [.worker i, .listener s.correlators.length]
  /-- There is one subscription more, on the acknowledgment topic. -/
  subscriptions :
    t.host.broker.subscriptions = s.host.broker.subscriptions ++ [ackSubscription config]
  subscribers : ∀ topic, t.host.broker.subscriberCount topic =
    s.host.broker.subscriberCount topic + if topic = config.ackTopic then 1 else 0
  /-- The host and its broker are the same apart from that: nothing was published, attempted
  or settled. -/
  host : t.host = { s.host with broker := { s.host.broker with
    subscriptions := t.host.broker.subscriptions } }
  consumers : t.consumers = s.consumers
  calls : t.calls = s.calls

/-- What a publisher that could not be opened leaves. -/
structure Released (s t : System) : Prop where
  closed : t.host.broker.closed
  /-- No subscription was made, and those of others get nothing more. -/
  subscriptions : t.host.broker.subscriptions =
    s.host.broker.subscriptions.map fun u => { u with attached := false }
  subscribers : ∀ topic, t.host.broker.subscriberCount topic = 0
  published : t.host.broker.published = s.host.broker.published
  attempts : t.host.broker.attempts = s.host.broker.attempts
  /-- As many messages were acked, nacked and terminated as before. -/
  tally : t.host.broker.tally = s.host.broker.tally
  now : t.host.now = s.host.now
  faults : t.host.faults = s.host.faults
  /-- No publisher, worker, listener or queue was added, nor anything else. -/
  parts : t = { s with host := t.host }

/-- What is left when the queue of a publisher could not be made. -/
structure Stranded (s t : System) (config : DispatchConfig) : Prop where
  /-- The broker was not closed. -/
  isOpen : t.host.broker.closed = false
  /-- It has one subscription more, which nobody receives from. -/
  subscriptions : t.host.broker.subscriptions =
    s.host.broker.subscriptions ++ [{ ackSubscription config with receiving := false }]
  subscribers : ∀ topic,
    t.host.broker.subscriberCount topic = s.host.broker.subscriberCount topic
  /-- Apart from that the host and its broker are the same: nothing was published, attempted or
  settled. -/
  host : t.host = { s.host with broker := { s.host.broker with
    subscriptions := t.host.broker.subscriptions } }
  /-- No publisher, worker, listener or queue was added, nor anything else. -/
  parts : t = { s with host := t.host }

variable {s t : System} {config : DispatchConfig} {e : DispatchError}

theorem Refuses.not_canOpen (refuses : s.Refuses config e) : ¬s.CanOpen config := by
  rintro ⟨valid, isOpen, subscribes⟩
  cases refuses with
  | settings invalid => cases valid.symm.trans invalid
  | closed _ closed => exact absurd (isOpen.symm.trans closed) (by decide)
  | subscription _ _ fails => exact absurd (subscribes.symm.trans fails) (by decide)

/-- Only the first reason counts. -/
theorem Refuses.unique {e' : DispatchError} (refuses : s.Refuses config e)
    (refuses' : s.Refuses config e') : e = e' := by
  cases refuses with
  | settings invalid =>
    cases refuses' with
    | settings invalid' => exact Except.error.inj (invalid.symm.trans invalid')
    | closed valid _ => cases valid.symm.trans invalid
    | subscription valid _ _ => cases valid.symm.trans invalid
  | closed valid closed =>
    cases refuses' with
    | settings invalid => cases valid.symm.trans invalid
    | closed _ _ => rfl
    | subscription _ isOpen _ => exact absurd (isOpen.symm.trans closed) (by decide)
  | subscription valid isOpen _ =>
    cases refuses' with
    | settings invalid => cases valid.symm.trans invalid
    | closed _ closed => exact absurd (isOpen.symm.trans closed) (by decide)
    | subscription _ _ _ => rfl

/-- What the system is when the broker was closed and nothing else was done but reporting. -/
theorem Released.of_close {h : Host} (broker : h.broker = s.host.broker.close)
    (now : h.now = s.host.now) (faults : h.faults = s.host.faults) :
    s.Released { s with host := h } where
  closed := by rw [broker]; rfl
  subscriptions := by rw [broker]; rfl
  subscribers topic := by
    rw [broker]
    refine List.countP_eq_zero.mpr fun u hu => ?_
    obtain ⟨v, -, rfl⟩ := List.mem_map.mp hu
    simp
  published := by rw [broker]; rfl
  attempts := by rw [broker]; rfl
  tally := by rw [broker]; rfl
  now := now
  faults := faults
  parts := rfl

theorem released_releaseBroker (s : System) : s.Released s.releaseBroker :=
  .of_close (Host.broker_noteError _ _ _) (Host.now_noteError _ _ _) (Host.faults_noteError _ _ _)

/-- What is reported before the broker is closed makes no difference. -/
theorem released_after_note (s : System) (notice : Notice) :
    s.Released (s.note notice).releaseBroker :=
  .of_close (Host.broker_noteError _ _ _) (Host.now_noteError _ _ _) (Host.faults_noteError _ _ _)

theorem built_addPublisher (s : System) (config : DispatchConfig) (host : Host)
    (subscribed : host = { s.host with broker := { s.host.broker with
      subscriptions := s.host.broker.subscriptions ++ [ackSubscription config] } }) :
    s.Built ({ s with host }.addPublisher config s.host.broker.subscriptions.length).2 config
      ({ s with host }.addPublisher config s.host.broker.subscriptions.length).1 := by
  subst subscribed
  refine
    { number := rfl
      publishers := ⟨_, rfl, rfl, rfl, rfl, ⟨rfl, rfl, rfl, rfl⟩, ⟨rfl, rfl⟩, rfl, ⟨rfl, rfl⟩, rfl⟩
      queues := rfl
      correlators := ⟨_, rfl, rfl, rfl, rfl, ⟨rfl, rfl, rfl⟩, rfl, rfl⟩
      started := List.append_assoc _ _ _
      subscriptions := rfl
      subscribers := fun topic => ?_
      host := rfl
      consumers := rfl
      calls := rfl }
  show List.countP _ (_ ++ [_]) = List.countP _ _ + _
  rw [List.countP_append, List.countP_singleton]
  by_cases here : topic = config.ackTopic
  · simp [ackSubscription, here]
  · simp [ackSubscription, here, Ne.symm here]

theorem stranded_stopReceiving (s : System) (config : DispatchConfig) (host : Host)
    (isOpen : s.host.broker.closed = false)
    (subscribed : host = { s.host with broker := { s.host.broker with
      subscriptions := s.host.broker.subscriptions ++ [ackSubscription config] } }) :
    s.Stranded { s with host := host.stopReceiving s.host.broker.subscriptions.length }
      config := by
  subst subscribed
  have subscriptions :
      (s.host.broker.subscriptions ++ [ackSubscription config]).modify
        s.host.broker.subscriptions.length Subscription.stopReceiving =
      s.host.broker.subscriptions ++ [(ackSubscription config).stopReceiving] := by
    rw [List.modify_eq_take_cons_drop (by simp)]
    simp
  refine
    { isOpen := isOpen
      subscriptions := subscriptions
      subscribers := fun topic => ?_
      host := rfl
      parts := rfl }
  show List.countP _ (List.modify _ _ _) = List.countP _ _
  rw [subscriptions, List.countP_append, List.countP_singleton]
  simp [Subscription.stopReceiving]

/-- Either nothing that is checked for stood in the way, and the publisher was made if its queue
could be, or a reason holds and what was taken until then was given back. -/
theorem openPublisher_outcome (s : System) (config : DispatchConfig) :
    (s.CanOpen config ∧
      ((config.queueCapacity ≤ Queue.maxCapacity ∧ ∃ i, (s.openPublisher config).1 = .ok i ∧
          s.Built (s.openPublisher config).2 config i) ∨
        (Queue.maxCapacity < config.queueCapacity ∧ (s.openPublisher config).1 = .error .panic ∧
          s.Stranded (s.openPublisher config).2 config))) ∨
    ∃ e, (s.openPublisher config).1 = .error (.error e) ∧ s.Refuses config e ∧
      s.Released (s.openPublisher config).2 := by
  unfold openPublisher Host.subscribe Broker.subscribe
  cases valid : config.validate with
  | error e => exact .inr ⟨e, rfl, .settings valid, s.released_releaseBroker⟩
  | ok _ =>
    dsimp only
    by_cases closed : s.host.broker.closed
    · rw [if_pos closed]
      exact .inr ⟨_, rfl, .closed valid closed, s.released_after_note _⟩
    rw [if_neg closed]
    have isOpen : s.host.broker.closed = false := by simpa using closed
    by_cases fails : s.host.broker.failSubscriptions
    · rw [if_pos fails]
      exact .inr ⟨_, rfl, .subscription valid isOpen fails, s.released_after_note _⟩
    rw [if_neg fails]
    have works : s.host.broker.failSubscriptions = false := by simpa using fails
    refine .inl ⟨⟨valid, isOpen, works⟩, ?_⟩
    dsimp only
    by_cases tooLarge : Queue.maxCapacity < config.queueCapacity
    · rw [if_pos tooLarge]
      exact .inr ⟨tooLarge, rfl, s.stranded_stopReceiving config _ isOpen rfl⟩
    · rw [if_neg tooLarge]
      exact .inl ⟨Nat.le_of_not_lt tooLarge, _, rfl, s.built_addPublisher config _ rfl⟩

/-- A publisher is opened exactly if its settings pass their check, the broker is open,
subscriptions do not fail, and the capacity of its queue is at most the largest there is. Then a
subscription, a worker and a listener are added and nothing else. It is refused exactly for the
first of the three reasons that holds; then the broker is closed, and nothing was added,
published or settled. If only the capacity stands in its way, the call panics and leaves the
broker open, with a subscription that nobody receives from. -/
theorem openPublisher_whole_or_released (s : System) (config : DispatchConfig) :
    ((∃ i, (s.openPublisher config).1 = .ok i) ↔
      s.CanOpen config ∧ config.queueCapacity ≤ Queue.maxCapacity) ∧
    (∀ i, (s.openPublisher config).1 = .ok i → s.Built (s.openPublisher config).2 config i) ∧
    (∀ e, (s.openPublisher config).1 = .error (.error e) ↔ s.Refuses config e) ∧
    (∀ e, (s.openPublisher config).1 = .error (.error e) →
      s.Released (s.openPublisher config).2) ∧
    ((s.openPublisher config).1 = .error .panic ↔
      s.CanOpen config ∧ Queue.maxCapacity < config.queueCapacity) ∧
    ((s.openPublisher config).1 = .error .panic →
      s.Stranded (s.openPublisher config).2 config) := by
  rcases s.openPublisher_outcome config with
    ⟨can, ⟨fits, i, made, built⟩ | ⟨tooLarge, panics, stranded⟩⟩ | ⟨e, failed, refuses, released⟩
  · rw [made]
    refine ⟨⟨fun _ => ⟨can, fits⟩, fun _ => ⟨i, rfl⟩⟩, ?_, ?_, nofun,
      ⟨nofun, fun h => absurd fits (Nat.not_le_of_lt h.2)⟩, nofun⟩
    · rintro _ ⟨⟩
      exact built
    · exact fun e => ⟨nofun, fun refuses => absurd can refuses.not_canOpen⟩
  · rw [panics]
    refine ⟨⟨nofun, fun h => absurd h.2 (Nat.not_le_of_lt tooLarge)⟩, nofun, ?_, nofun,
      ⟨fun _ => ⟨can, tooLarge⟩, fun _ => rfl⟩, fun _ => stranded⟩
    exact fun e => ⟨nofun, fun refuses => absurd can refuses.not_canOpen⟩
  · rw [failed]
    refine ⟨⟨nofun, fun h => absurd h.1 refuses.not_canOpen⟩, nofun, fun e' => ⟨?_, ?_⟩,
      fun _ _ => released, ⟨nofun, fun h => absurd h.1 refuses.not_canOpen⟩, nofun⟩
    · rintro ⟨⟩
      exact refuses
    · exact fun refuses' => by rw [refuses.unique refuses']

/-- Settings can pass their check and still name a queue that cannot be made. -/
example : (System.openPublisher {} { queueCapacity := 2 ^ 61 }).1 = .error .panic := by
  decide +kernel

theorem openPublisher_of_closed (s : System) (config : DispatchConfig)
    (closed : s.host.broker.closed) : ∃ e, (s.openPublisher config).1 = .error (.error e) := by
  rcases s.openPublisher_outcome config with ⟨can, -⟩ | ⟨e, failed, -, -⟩
  · exact absurd (can.2.1.symm.trans closed) (by decide)
  · exact ⟨e, failed⟩

end System

namespace Script

/-- Once a publisher could not be opened over a broker, nothing is published there any more and
no other publisher can be opened. -/
theorem Runs.refused_since {since ts : List Transition} {x y z : Session} {id : String}
    {config : DispatchConfig}
    (run : Runs (since ++ ⟨x, .perform (.openPublisher id config), y⟩ :: ts) z)
    (cannot : ¬x.system.CanOpen config) :
    z.system.host.broker.published = x.system.host.broker.published ∧
      ∀ other, ∃ e, (z.system.openPublisher other).1 = .error (.error e) := by
  rcases x.system.openPublisher_outcome config with ⟨can, -⟩ | ⟨e, failed, -, released⟩
  · exact absurd can cannot
  · obtain ⟨-, happens⟩ := run.of_suffix (List.suffix_append since _)
    have left : y.system = (x.system.openPublisher config).2 := by
      obtain rfl : (x.openPublisher id config).2 = y := Option.some.inj happens
      unfold Session.openPublisher
      cases opening : x.system.openPublisher config with
      | mk result t =>
        rw [opening] at failed
        obtain rfl : result = .error (.error e) := failed
        rfl
    have rests := (run.onward (List.mem_append_right since List.mem_cons_self)).host
    have closed : y.system.host.broker.closed := left ▸ released.closed
    refine ⟨?_, fun other => z.system.openPublisher_of_closed other (rests.closed closed)⟩
    rw [rests.published closed, left, released.published]

end Script

end ChangeDispatch
