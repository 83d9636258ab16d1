import ChangeDispatch.Topic
import ChangeDispatch.Text.Digits

/-!
# Configuration

The settings of a dispatch pipeline, their defaults, how they are read from named
variables, and which combinations are refused. Each field is read from one variable
of its own.
-/
namespace ChangeDispatch

/-- How the broker is reached. -/
structure ConnectionConfig where
  servers : List String := ["nats://localhost:4222"]
  clientName : String := "workspace-dispatch"
  connectTimeout : Duration := .ofSeconds 10
  /-- The stream that carries the change and the acknowledgment topic. -/
  stream : String := "WORKSPACE_EVENTS"
  deriving DecidableEq, Repr

/-- The settings of one pipeline. -/
structure DispatchConfig where
  connection : ConnectionConfig := {}
  changeTopic : String := Topic.defaultChange
  ackTopic : String := Topic.defaultAck
  ackSubscription : String := Topic.defaultAckSubscription
  queueCapacity : Nat := 100
  /-- How long `enqueue` waits for a free slot. -/
  enqueueTimeout : Duration := .ofSeconds 5
  /-- Publish attempts for one event, the first included. -/
  maxPublishAttempts : Nat := 3
  retryDelay : Duration := .ofSeconds 2
  ackTimeout : Duration := .ofSeconds 30
  /-- How long `close` lets the worker drain the queue. -/
  drainTimeout : Duration := .ofSeconds 5
  /-- How often an acknowledgment that nobody waits for is offered. -/
  ackMaxDeliveries : Nat := 3
  deriving DecidableEq, Repr

/-- The longest workspace name, in bytes: one label of a domain name. -/
def maxNameLength : Nat := 63

namespace DispatchConfig

/-- How long the broker holds back an acknowledgment that nobody waits for. The offers
after the first are spread evenly over the acknowledgment timeout. -/
def unmatchedAckDelay (c : DispatchConfig) : Duration :=
  c.ackTimeout.part (max (c.ackMaxDeliveries - 1) 1)

/-- The first reason why the pipeline cannot run with these settings. -/
def validate (c : DispatchConfig) : Except DispatchError Unit := do
  if c.connection.servers.isEmpty then
    throw (.configuration "no NATS servers configured")
  if c.queueCapacity = 0 then
    throw (.configuration "queue capacity must be at least 1")
  if c.maxPublishAttempts = 0 then
    throw (.configuration "max publish attempts must be at least 1")
  if c.ackMaxDeliveries = 0 then
    throw (.configuration "ack max deliveries must be at least 1")
  if c.changeTopic = c.ackTopic then
    throw (.configuration "change and ack topics must differ")
  Topic.validate c.changeTopic
  Topic.validate c.ackTopic
  SubscriptionName.validate c.ackSubscription

/-- The parts of `cs` between its commas. -/
def commaParts : List Char → List (List Char)
  | [] => [[]]
  | c :: cs =>
    if c = ',' then [] :: commaParts cs
    else match commaParts cs with
      | [] => [[c]]
      | t :: ts => (c :: t) :: ts

/-- A list of servers: the trimmed parts between commas, blank parts left out. -/
def serverList (text : String) : List String :=
  ((commaParts text.toList).map Text.trimBoth).filterMap fun part =>
    if part.isEmpty then none else some (String.ofList part)

/-- A count no larger than `limit` from the variable `key`, or `absent` if it is not set. -/
def countOr (lookup : String → Option String) (key : String) (limit absent : Nat) :
    Except DispatchError Nat :=
  match lookup key with
  | none => .ok absent
  | some raw =>
    match Text.unsigned? limit (Text.trimBoth raw.toList) with
    | some n => .ok n
    | none => .error (.configuration (s!"{key} is not a valid number: " ++ Text.quoted raw))

/-- A whole number of seconds from the variable `key`, or `absent` if it is not set. -/
def secondsOr (lookup : String → Option String) (key : String) (absent : Duration) :
    Except DispatchError Duration :=
  (countOr lookup key Text.maxWord64 absent.seconds).map .ofSeconds

/-- Read the settings from named variables; those that are not set keep their default. -/
def ofLookup (lookup : String → Option String) : Except DispatchError DispatchConfig := do
  let defaults : DispatchConfig := {}
  let servers := (lookup "NATS_URL").elim defaults.connection.servers serverList
  let stream := (lookup "NATS_STREAM").getD defaults.connection.stream
  let changeTopic := (lookup "WORKSPACE_EVENTS_TOPIC").getD defaults.changeTopic
  let ackTopic := (lookup "WORKSPACE_ACK_TOPIC").getD defaults.ackTopic
  let ackSubscription := (lookup "WORKSPACE_ACK_SUBSCRIPTION").getD defaults.ackSubscription
  let queueCapacity ←
    countOr lookup "DISPATCH_QUEUE_CAPACITY" Text.maxWord64 defaults.queueCapacity
  let enqueueTimeout ←
    secondsOr lookup "DISPATCH_ENQUEUE_TIMEOUT_SECS" defaults.enqueueTimeout
  let maxPublishAttempts ←
    countOr lookup "DISPATCH_MAX_PUBLISH_ATTEMPTS" Text.maxWord32 defaults.maxPublishAttempts
  let retryDelay ← secondsOr lookup "DISPATCH_RETRY_DELAY_SECS" defaults.retryDelay
  let ackTimeout ← secondsOr lookup "DISPATCH_ACK_TIMEOUT_SECS" defaults.ackTimeout
  let drainTimeout ← secondsOr lookup "DISPATCH_DRAIN_TIMEOUT_SECS" defaults.drainTimeout
  let ackMaxDeliveries ←
    countOr lookup "DISPATCH_ACK_MAX_DELIVERIES" Text.maxWord32 defaults.ackMaxDeliveries
  let config : DispatchConfig :=
    { connection := { defaults.connection with servers, stream },
      changeTopic, ackTopic, ackSubscription, queueCapacity, enqueueTimeout,
      maxPublishAttempts, retryDelay, ackTimeout, drainTimeout, ackMaxDeliveries }
  config.validate
  return config

end DispatchConfig

end ChangeDispatch
