import ChangeDispatch.Broker.Host
import ChangeDispatch.Queue

/-!
# The publishing worker

One worker takes the events from a queue and publishes them in order. A failed attempt is
repeated after a fixed delay, up to a number of attempts; then the event is dropped. The
worker ends when the queue is closed and drained. When it is told to stop it ends as soon
as it is not in the middle of an attempt, and abandons the event it holds and those that
are still queued.
-/
namespace ChangeDispatch

/-- How often an event is tried, and how long the worker rests between two attempts. -/
structure RetryPolicy where
  /-- Attempts for one event, the first included; none counts as one. -/
  maxAttempts : Nat := 3
  delay : Duration := .ofSeconds 2
  deriving DecidableEq, Repr

def RetryPolicy.attempts (r : RetryPolicy) : Nat := max r.maxAttempts 1

structure PublishStats where
  published : Nat := 0
  /-- Events dropped after the last attempt. -/
  dropped : Nat := 0
  failedAttempts : Nat := 0
  /-- Events given up when the worker was stopped. -/
  abandoned : Nat := 0
  deriving DecidableEq, Repr

/-- The event that a worker holds, with the number of the current attempt. -/
structure Job where
  item : Item
  attempt : Nat := 1
  deriving DecidableEq, Repr

def Job.payload (j : Job) : Payload := j.item.event.write

namespace Worker

inductive Phase where
  | idle
  /-- About to make an attempt. -/
  | attempting (job : Job)
  /-- The attempt takes until the timer is due. -/
  | publishing (job : Job) (timer : Timer)
  /-- Between two attempts. -/
  | resting (job : Job) (timer : Timer)
  | ended
  deriving DecidableEq, Repr

end Worker

structure Worker where
  topic : String
  retry : RetryPolicy
  phase : Worker.Phase := .idle
  stats : PublishStats := {}
  /-- The worker has been told to stop. -/
  stopping : Bool := false
  deriving DecidableEq, Repr

namespace Worker

def isEnded (w : Worker) : Bool := w.phase == .ended

/-- End and give up all that is still queued. -/
def abandonRemaining (h : Host) (q : Queue) (w : Worker) : Host × Queue × Worker :=
  let count := q.buffer.length
  let h := q.buffer.foldl (fun h item => h.note (.abandoning item)) h
  let h := if 0 < count then h.note (.queueAbandoned w.topic count) else h
  (h, q.stopReceiving,
    { w with phase := .ended
             stats := { w.stats with abandoned := w.stats.abandoned + count } })

/-- Give up the event in hand and all that is still queued. -/
def interrupt (h : Host) (q : Queue) (w : Worker) : Host × Queue × Worker :=
  abandonRemaining h q { w with stats := { w.stats with abandoned := w.stats.abandoned + 1 } }

/-- Publish the event in hand once. -/
def attempt (h : Host) (w : Worker) (job : Job) : Host × Worker :=
  match h.publish w.topic job.payload with
  | (.ok (), h) =>
    (h.note (.published w.topic job.item job.attempt),
      { w with phase := .idle, stats := { w.stats with published := w.stats.published + 1 } })
  | (.error e, h) =>
    let h := h.note (.attemptFailed w.topic job.item job.attempt w.retry.attempts e)
    let stats := { w.stats with failedAttempts := w.stats.failedAttempts + 1 }
    if job.attempt < w.retry.attempts then
      let (timer, h) := h.setTimer w.retry.delay.ticks
      (h, { w with phase := .resting job timer, stats })
    else
      (h.note (.retriesExhausted w.topic job.item w.retry.attempts),
        { w with phase := .idle, stats := { stats with dropped := stats.dropped + 1 } })

/-- What the worker does next, if it can do anything now. -/
def step? (h : Host) (q : Queue) (w : Worker) : Option (Host × Queue × Worker) :=
  match w.phase with
  | .idle =>
    if w.stopping then some (abandonRemaining h q w)
    else match q.take? with
      | some (item, q) => some (h, q, { w with phase := .attempting { item } })
      | none => if q.isDrained then some (h, q.stopReceiving, { w with phase := .ended }) else none
  | .attempting job =>
    if h.faults.publishDelay = 0 then
      let (h, w) := attempt h w job
      some (h, q, w)
    else
      let (timer, h) := h.setTimer h.faults.publishDelay
      some (h, q, { w with phase := .publishing job timer })
  | .publishing job timer =>
    if h.isDue timer then
      let (h, w) := attempt h w job
      some (h, q, w)
    else none
  | .resting job timer =>
    if w.stopping then some (interrupt h q w)
    else if h.isDue timer then
      some (h, q, { w with phase := .attempting { job with attempt := job.attempt + 1 } })
    else none
  | .ended => none

/-- The timer that the worker waits for. -/
def timer? (w : Worker) : Option Timer :=
  match w.phase with
  | .publishing _ timer | .resting _ timer => some timer
  | .idle | .attempting _ | .ended => none

end Worker

end ChangeDispatch
