import ChangeDispatch.Script.Step

/-!
# Running a script

A session holds a system and the names of its objects. After each step the system makes
all the progress that it can make without time passing, and is then reported on. A name
that is given again stands for the new object; the old one is dropped.
-/
namespace ChangeDispatch.Script

/-- Objects by name. -/
abbrev Names (α : Type) := List (String × α)

namespace Names

variable {α : Type}

def find? (names : Names α) (id : String) : Option α := names.lookup id

def erase (names : Names α) (id : String) : Names α := names.filter fun entry => entry.1 != id

def insert (names : Names α) (id : String) (value : α) : Names α := (id, value) :: names.erase id

end Names

structure Session where
  system : System := {}
  publishers : Names Nat := []
  correlators : Names Nat := []
  queues : Names Nat := []
  consumers : Names Nat := []
  tokens : Names Nat := []
  waiters : Names WaitHandle := []
  subscriptions : Names Nat := []
  deliveries : Names (Nat × Delivery) := []
  /-- The steps that have started calls whose end was not reported, with these calls. -/
  running : List (Nat × Nat) := []
  /-- How many notices of the journal have been reported. -/
  reported : Nat := 0
  /-- How many steps have been performed. -/
  position : Nat := 0

namespace Session

def onHost (x : Session) (f : Host → Host) : Session :=
  { x with system := { x.system with host := f x.system.host } }

def onBroker (x : Session) (f : Broker → Broker) : Session :=
  x.onHost fun h => { h with broker := f h.broker }

def onSystem (x : Session) (f : System → System) : Session := { x with system := f x.system }

/-! ## Dropping objects -/

def dropSubscription (x : Session) (id : String) : Session :=
  match x.subscriptions.find? id with
  | none => x
  | some i => { x.onHost (·.stopReceiving i) with subscriptions := x.subscriptions.erase id }

def dropDelivery (x : Session) (id : String) : Session :=
  match x.deliveries.find? id with
  | none => x
  | some (i, d) => { x.onBroker (·.discard i d) with deliveries := x.deliveries.erase id }

def dropPublisher (x : Session) (id : String) : Session :=
  match x.publishers.find? id with
  | none => x
  | some i => { x.onSystem (·.dropPublisher i) with publishers := x.publishers.erase id }

def dropCorrelator (x : Session) (id : String) : Session :=
  match x.correlators.find? id with
  | none => x
  | some i => { x.onSystem (·.dropCorrelator i) with correlators := x.correlators.erase id }

def dropWaiter (x : Session) (id : String) : Session :=
  match x.waiters.find? id with
  | none => x
  | some handle => { x.onSystem (·.releaseWaiter handle) with waiters := x.waiters.erase id }

def dropQueue (x : Session) (id : String) : Session :=
  match x.queues.find? id with
  | none => x
  | some i => { x.onSystem (·.dropQueue i) with queues := x.queues.erase id }

def drop (x : Session) (kind : Kind) (id : String) : Session :=
  match kind with
  | .subscription => x.dropSubscription id
  | .delivery => x.dropDelivery id
  | .publisher => x.dropPublisher id
  | .correlator => x.dropCorrelator id
  | .waiter => x.dropWaiter id
  | .queue => x.dropQueue id

/-! ## Steps -/

/-- Start a call and keep it under the number of the step. -/
def call (x : Session) (owner : Owner) (phase : Call.Phase) : Reply × Session :=
  let (n, system) := x.system.startCall owner phase
  (.started, { x with system, running := x.running ++ [(x.position, n)] })

/-- The correlator of a publisher or of a name, with what a call on it keeps alive. -/
def correlatorOf? (x : Session) (target : String) : Option (Owner × Nat) :=
  match x.publishers.find? target with
  | some i => (x.system.publishers[i]?).map fun p => (.publisher i, p.correlator)
  | none => (x.correlators.find? target).map fun i => (.correlator i, i)

/-- The queue of a publisher or of a name, with what a call on it keeps alive. -/
def queueOf? (x : Session) (target : String) : Option (Owner × Nat) :=
  match x.publishers.find? target with
  | some i => (x.system.publishers[i]?).map fun p => (.publisher i, p.queue)
  | none => (x.queues.find? target).map fun i => (.none, i)

/-- The token of a name; without a name there is none. -/
def tokenOf (x : Session) (token : Option String) : Option Nat :=
  token.bind fun id => x.tokens.find? id

def subscribe (x : Session) (id : String) (config : SubscriptionConfig) : Reply × Session :=
  match x.system.host.subscribe config with
  | (.error e, host) => (.transportFailed e, x.onHost fun _ => host)
  | (.ok i, host) =>
    let x := (x.onHost fun _ => host).dropSubscription id
    (.done, { x with subscriptions := x.subscriptions.insert id i })

/-- Start one receive and give it up if nothing is there. -/
def receive (x : Session) (subscription delivery : String) : Reply × Session :=
  match x.subscriptions.find? subscription with
  | none => (.unknown, x)
  | some i =>
    match x.system.host.beginReceive with
    | (some e, host) => (.transportFailed e, x.onHost fun _ => host)
    | (none, host) =>
      match host.take? i with
      | some (d, host) =>
        let x := (x.onHost fun _ => host).dropDelivery delivery
        (.delivered d, { x with deliveries := x.deliveries.insert delivery (i, d) })
      | none => (if host.broker.isEnded i then .finished else .pending, x)

/-- Settle a held delivery. -/
def settle (x : Session) (delivery : String)
    (act : Host → Nat → Delivery → Except TransportError Unit × Host) : Reply × Session :=
  match x.deliveries.find? delivery with
  | none => (.unknown, x)
  | some (i, d) =>
    let (result, host) := act x.system.host i d
    let x := { x.onHost (fun _ => host) with deliveries := x.deliveries.erase delivery }
    match result with
    | .ok () => (.done, x)
    | .error e => (.transportFailed e, x)

/-- Make a queue. There is none, and no answer, if it would have too many slots. -/
def makeQueue (x : Session) (id : String) (capacity : Nat) (timeout : Duration) :
    Reply × Session :=
  if Queue.maxCapacity < capacity then (.nothing, x)
  else
    let (i, system) := x.system.addQueue (.ofCapacity capacity timeout)
    let x := { x with system }.dropQueue id
    (.nothing, { x with queues := x.queues.insert id i })

def dequeue (x : Session) (queue : String) : Reply × Session :=
  match (x.queues.find? queue).bind fun i => (x.system.queues[i]?).map fun q => (i, q) with
  | none => (.unknown, x)
  | some (i, q) =>
    match q.take? with
    | some (item, q) => (.dequeued item.event, x.onSystem (·.adjustQueue i fun _ => q))
    | none => (if q.isDrained then .finished else .empty, x)

def openPublisher (x : Session) (id : String) (config : DispatchConfig) : Reply × Session :=
  match x.system.openPublisher config with
  | (.error (.error e), system) => (.failed e, { x with system })
  | (.error .panic, system) => (.nothing, { x with system })
  | (.ok i, system) =>
    let x := { x with system }.dropPublisher id
    (.opened config, { x with publishers := x.publishers.insert id i })

def startCorrelator (x : Session) (id : String) (subscription : SubscriptionConfig)
    (timeout unmatchedDelay : Duration) : Reply × Session :=
  match x.system.startCorrelator subscription timeout unmatchedDelay with
  | (.error e, system) => (.transportFailed e, { x with system })
  | (.ok i, system) =>
    let x := { x with system }.dropCorrelator id
    (.done, { x with correlators := x.correlators.insert id i })

def startConsumer (x : Session) (id topic name : String) (policy : Option DeadLetterPolicy)
    (plan : HandlerPlan) : Reply × Session :=
  match x.system.startConsumer topic name (policy.getD (.ofTopic topic)) plan.handler with
  | (.error e, system) => (.failed e, { x with system })
  | (.ok i, system) => (.done, { x with system, consumers := x.consumers.insert id i })

def register (x : Session) (target : String) (event : ChangeEvent) (waiter : String) :
    Reply × Session :=
  match x.correlatorOf? target with
  | none => (.unknown, x)
  | some (_, c) =>
    match x.system.register c event with
    | (.error e, system) => (.failed e, { x with system })
    | (.ok handle, system) =>
      let x := { x with system }.dropWaiter waiter
      (.registered event.name, { x with waiters := x.waiters.insert waiter handle })

def wait (x : Session) (waiter : String) (token : Option String) : Reply × Session :=
  match x.waiters.find? waiter with
  | none => (.unknown, x)
  | some handle =>
    { x with waiters := x.waiters.erase waiter }.call .none (.awaiting handle (x.tokenOf token))

def submit (x : Session) (target : String) (event : ChangeEvent) : Reply × Session :=
  match x.correlatorOf? target, x.queueOf? target with
  | some (owner, c), some (_, q) => x.call owner (.submitting c q event)
  | _, _ => (.unknown, x)

def close (x : Session) (target : String) : Reply × Session :=
  match x.publishers.find? target with
  | some i => x.call (.publisher i) (.closing i)
  | none =>
    match x.correlators.find? target with
    | some i => x.call (.correlator i) (.stopping i none)
    | none => (.unknown, x)

/-- Give up the call that a step has started. -/
def abort (x : Session) (step : Nat) : Session :=
  match x.running.lookup step with
  | none => x
  | some n => x.onSystem (·.abortCall n)

/-- The names that a consumer was called with, the oldest first. -/
def seenNames (k : Consumer) : List String := k.seen.map fun m => m.event.name

/-- Perform the action of a step. -/
def perform (x : Session) : Step → Reply × Session
  | .advance ms => (.nothing, x.onSystem (·.advance ms))
  | .failPublishes count => (.nothing, x.onBroker fun b => { b with failPublishes := count })
  | .failReceives count => (.nothing, x.onBroker fun b => { b with failReceives := count })
  | .failSubscriptions fail => (.nothing, x.onBroker fun b => { b with failSubscriptions := fail })
  | .setFaults faults => (.nothing, x.onHost fun h => { h with faults })
  | .inject topic payload => (.nothing, x.onBroker fun b => b.fanOut topic payload)
  | .publish topic payload => x.call .none (.sending topic payload)
  | .published topic => (.payloads (x.system.host.broker.publishedOn topic), x)
  | .subscriberCount topic => (.count (x.system.host.broker.subscriberCount topic), x)
  | .closeBroker =>
    match x.system.host.close with
    | (.ok (), host) => (.done, x.onHost fun _ => host)
    | (.error e, host) => (.transportFailed e, x.onHost fun _ => host)
  | .subscribe id config => x.subscribe id config
  | .receive subscription delivery => x.receive subscription delivery
  | .ack delivery => x.settle delivery Host.ack
  | .nack delivery delay => x.settle delivery fun h i d => h.nack i d delay
  | .terminate delivery => x.settle delivery Host.terminate
  | .makeQueue id capacity timeout => x.makeQueue id capacity timeout
  | .enqueue target event =>
    match x.queueOf? target with
    | none => (.unknown, x)
    | some (owner, q) => x.call owner (.enqueuing q event none)
  | .dequeue queue => x.dequeue queue
  | .closeQueue queue =>
    match (x.queues.find? queue).bind fun i => (x.system.queues[i]?).map fun q => (i, q) with
    | none => (.unknown, x)
    | some (i, q) => (.flag q.close.1, x.onSystem (·.adjustQueue i fun q => q.close.2))
  | .dropReceiver queue =>
    match x.queues.find? queue with
    | none => (.unknown, x)
    | some i => (.nothing, x.onSystem (·.dropReceiver i))
  | .openPublisher id config => x.openPublisher id config
  | .openRemote config =>
    match config.validate with
    | .error e => (.failed e, x)
    | .ok () => (.unknown, x)
  | .startCorrelator id subscription timeout unmatchedDelay =>
    x.startCorrelator id subscription timeout unmatchedDelay
  | .submit target event => x.submit target event
  | .register target event waiter => x.register target event waiter
  | .wait waiter token => x.wait waiter token
  | .waitForAck target event token =>
    match x.correlatorOf? target with
    | none => (.unknown, x)
    | some (owner, c) => x.call owner (.registering c event (x.tokenOf token))
  | .makeToken id =>
    let (i, system) := x.system.addToken
    (.nothing, { x with system, tokens := x.tokens.insert id i })
  | .cancel token =>
    match x.tokens.find? token with
    | none => (.unknown, x)
    | some i => (.nothing, x.onSystem (·.fireToken i))
  | .close target => x.close target
  | .abort step => (.nothing, x.abort step)
  | .startConsumer id topic name policy plan => x.startConsumer id topic name policy plan
  | .seen consumer =>
    match (x.consumers.find? consumer).bind fun i => x.system.consumers[i]? with
    | none => (.unknown, x)
    | some k => (.names (seenNames k), x)
  | .stopConsumer consumer =>
    match x.consumers.find? consumer with
    | none => (.unknown, x)
    | some i => (.nothing, x.onSystem (·.stopConsumer i))
  | .drop kind id => (.nothing, x.drop kind id)

end Session

end ChangeDispatch.Script
