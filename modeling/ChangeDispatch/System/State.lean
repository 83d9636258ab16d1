import ChangeDispatch.DeadLetter.Consumer
import ChangeDispatch.Publisher.Worker
import ChangeDispatch.Wait.Listener

/-!
# The state of a system

A system has one host, and on it any number of queues, correlators, publishers, consumers
and calls in progress. They are numbered in the order in which they were made, and each
refers to others by number. A publisher is a queue with a worker and a correlator.
-/
namespace ChangeDispatch

structure Publisher where
  config : DispatchConfig
  queue : Nat
  correlator : Nat
  worker : Worker
  /-- Nobody has waited for the end of the worker yet. -/
  joinable : Bool := true
  /-- `close` has been called. -/
  closed : Bool := false
  /-- The caller has let go of the publisher. -/
  dropped : Bool := false
  /-- The publisher was let go of by the caller and by every call. -/
  released : Bool := false
  deriving DecidableEq, Repr

/-- A handle of a registered wait. -/
structure WaitHandle where
  correlator : Nat
  serial : Nat
  deriving DecidableEq, Repr

/-- What a call keeps alive. -/
inductive Owner where
  | none
  | publisher (number : Nat)
  | correlator (number : Nat)
  deriving DecidableEq, Repr

namespace Call

/-- How a call ended. -/
inductive Result where
  | done
  | acknowledged (ack : AckEvent)
  | failed (error : DispatchError)
  | transportFailed (error : TransportError)
  deriving DecidableEq, Repr

inductive Phase where
  /-- About to bring an event to a queue; then the wait of `next` begins, if there is one. -/
  | enqueuing (queue : Nat) (event : ChangeEvent) (next : Option WaitHandle)
  /-- In line for a slot until the timer is due. -/
  | inLine (queue : Nat) (event : ChangeEvent) (timer : Timer) (next : Option WaitHandle)
  /-- About to register a wait and then to bring the event to a queue. -/
  | submitting (correlator queue : Nat) (event : ChangeEvent)
  /-- About to register a wait and then to wait. -/
  | registering (correlator : Nat) (event : ChangeEvent) (token : Option Nat)
  /-- About to look at the slot of a waiter for the first time. -/
  | awaiting (handle : WaitHandle) (token : Option Nat)
  /-- Waiting for the slot, the token, or the timer at the deadline. -/
  | waiting (handle : WaitHandle) (token : Option Nat) (timer : Timer)
  /-- About to publish a payload. -/
  | sending (topic : String) (payload : Payload)
  /-- The publish takes until the timer is due. -/
  | publishing (topic : String) (payload : Payload) (timer : Timer)
  /-- About to close a publisher. -/
  | closing (publisher : Nat)
  /-- The worker drains the queue until the timer is due. -/
  | draining (publisher : Nat) (timer : Timer)
  /-- The worker was told to stop and has not ended yet. -/
  | forcing (publisher : Nat)
  /-- About to stop a listener; then the publisher of `next` closes the broker. -/
  | stopping (correlator : Nat) (next : Option Nat)
  /-- The listener was told to stop and has not ended yet. -/
  | joining (correlator : Nat) (next : Option Nat)
  | ended (moment : Nat) (result : Result)
  | aborted
  deriving DecidableEq, Repr

end Call

structure Call where
  owner : Owner
  phase : Call.Phase
  deriving DecidableEq, Repr

def Call.isRunning (c : Call) : Bool :=
  match c.phase with
  | .ended .. | .aborted => false
  | _ => true

/-- Whatever makes progress by itself. -/
inductive Agent where
  | worker (publisher : Nat)
  | listener (correlator : Nat)
  | consumer (number : Nat)
  | call (number : Nat)
  /-- An offer that the broker holds back until the timer with the serial number is due. -/
  | redelivery (subscription serial : Nat)
  deriving DecidableEq, Repr

structure System where
  host : Host := {}
  queues : List Queue := []
  correlators : List Correlator := []
  publishers : List Publisher := []
  consumers : List Consumer := []
  /-- Cancellation tokens; a token that has fired is `true`. -/
  tokens : List Bool := []
  calls : List Call := []
  /-- What makes progress, in the order in which it was started. -/
  started : List Agent := []

namespace System

def adjustQueue (s : System) (i : Nat) (f : Queue → Queue) : System :=
  { s with queues := s.queues.modify i f }

def adjustCorrelator (s : System) (i : Nat) (f : Correlator → Correlator) : System :=
  { s with correlators := s.correlators.modify i f }

def adjustPublisher (s : System) (i : Nat) (f : Publisher → Publisher) : System :=
  { s with publishers := s.publishers.modify i f }

def adjustConsumer (s : System) (i : Nat) (f : Consumer → Consumer) : System :=
  { s with consumers := s.consumers.modify i f }

def note (s : System) (notice : Notice) : System := { s with host := s.host.note notice }

def tokenFired (s : System) (token : Option Nat) : Bool :=
  token.any fun i => s.tokens[i]?.getD false

/-- Let go of a waiter. -/
def releaseWaiter (s : System) (handle : WaitHandle) : System :=
  s.adjustCorrelator handle.correlator fun c => { c with registry := c.registry.release handle.serial }

/-- Tell a worker to stop. -/
def stopWorker (s : System) (i : Nat) : System :=
  s.adjustPublisher i fun p => { p with worker := { p.worker with stopping := true } }

/-- Tell a listener to stop. -/
def stopListener (s : System) (i : Nat) : System :=
  s.adjustCorrelator i fun c => { c with stopping := true }

/-- Some running call keeps the owner alive. -/
def isUsed (s : System) (owner : Owner) : Bool :=
  s.calls.any fun c => c.isRunning && c.owner == owner

/-- Release a publisher that nobody uses any more: a publisher that was never closed stops
its worker, and its queue and its listener end in any case. -/
def releasePublisher (s : System) (i : Nat) : System :=
  match s.publishers[i]? with
  | none => s
  | some p =>
    if !p.dropped || p.released || s.isUsed (.publisher i) then s
    else
      let s :=
        if p.closed then s
        else
          (s.note (.droppedWithoutClose ((s.queues[p.queue]?).elim 0 Queue.length))).stopWorker i
      let s := s.adjustQueue p.queue fun q => q.close.2
      let s := s.stopListener p.correlator
      s.adjustPublisher i fun p => { p with released := true }

/-- A correlator that nobody uses any more stops its listener. -/
def releaseCorrelator (s : System) (i : Nat) : System :=
  if (s.correlators[i]?).any (·.dropped) && !s.isUsed (.correlator i) then s.stopListener i else s

/-- Release what a call has kept alive. -/
def releaseOwner (s : System) : Owner → System
  | .none => s
  | .publisher i => s.releasePublisher i
  | .correlator i => s.releaseCorrelator i

end System

end ChangeDispatch
