import ChangeDispatch.Script.Session

/-!
# Reports on a script

After each step: the moment, the reply, the calls that have ended, the counters of the
objects that have a name, and the warnings and errors of the journal. Calls are ordered
by the moment of their end and then by their step, notices by moment, wording and fields.
-/
namespace ChangeDispatch.Script

/-- The end of a call that a step has started. -/
structure EndedCall where
  step : Nat
  moment : Nat
  result : Call.Result
  deriving DecidableEq, Repr

structure PublisherState where
  stats : PublishStats
  pending : Nat
  closed : Bool
  deriving DecidableEq, Repr

structure QueueState where
  length : Nat
  isEmpty : Bool
  capacity : Nat
  closed : Bool
  deriving DecidableEq, Repr

structure ConsumerState where
  seen : Nat
  finished : Bool
  deriving DecidableEq, Repr

/-- The state of a system as far as it is reported. -/
structure Snapshot where
  attempts : Nat
  acked : Nat
  nacked : Nat
  terminated : Nat
  closed : Bool
  publishers : Names PublisherState
  correlators : Names Nat
  queues : Names QueueState
  consumers : Names ConsumerState
  deriving DecidableEq, Repr

structure Report where
  moment : Nat
  reply : Reply
  ended : List EndedCall
  snapshot : Snapshot
  notices : List JournalEntry
  deriving DecidableEq, Repr

/-- Compare lists of pairs of texts entry by entry. -/
def fieldsBefore : List (String × String) → List (String × String) → Bool
  | [], _ => true
  | _ :: _, [] => false
  | (k, v) :: xs, (l, w) :: ys =>
    if k < l then true
    else if l < k then false
    else if v < w then true
    else if w < v then false
    else fieldsBefore xs ys

/-- The order in which notices are reported. -/
def noticeBefore (a b : JournalEntry) : Bool :=
  if a.moment ≠ b.moment then a.moment < b.moment
  else if a.notice.message ≠ b.notice.message then a.notice.message < b.notice.message
  else fieldsBefore a.notice.fields b.notice.fields

namespace Session

def publisherState (x : Session) (p : Publisher) : PublisherState where
  stats := p.worker.stats
  pending := (x.system.correlators[p.correlator]?).elim 0 fun c => c.registry.pendingCount
  closed := p.closed

def queueState (q : Queue) : QueueState := ⟨q.length, q.isEmpty, q.capacity, !q.isOpen⟩

def consumerState (k : Consumer) : ConsumerState := ⟨k.seen.length, k.isEnded⟩

/-- The states of named objects. -/
def states {α β : Type} (names : Names Nat) (objects : List α) (state : α → β) : Names β :=
  names.filterMap fun (id, i) => (objects[i]?).map fun object => (id, state object)

def snapshot (x : Session) : Snapshot where
  attempts := x.system.host.broker.attempts
  acked := x.system.host.broker.acked
  nacked := x.system.host.broker.nacked
  terminated := x.system.host.broker.terminated
  closed := x.system.host.broker.closed
  publishers := states x.publishers x.system.publishers x.publisherState
  correlators := states x.correlators x.system.correlators fun c => c.registry.pendingCount
  queues := states x.queues x.system.queues queueState
  consumers := states x.consumers x.system.consumers consumerState

/-- The end of a call, if it has ended. -/
def ended? (x : Session) (entry : Nat × Nat) : Option EndedCall :=
  match (x.system.calls[entry.2]?).map Call.phase with
  | some (.ended moment result) => some ⟨entry.1, moment, result⟩
  | _ => none

def isRunning (x : Session) (entry : Nat × Nat) : Bool :=
  (x.system.calls[entry.2]?).any Call.isRunning

/-- Perform a step, make all the progress that takes no time, and report. -/
def step (x : Session) (step : Step) : Report × Session :=
  let (reply, x) := x.perform step
  let x := x.onSystem System.settle
  let ended := (x.running.filterMap x.ended?).mergeSort fun a b =>
    if a.moment = b.moment then a.step ≤ b.step else a.moment ≤ b.moment
  let notices := (x.system.host.journal.take (x.system.host.journal.length - x.reported)).filter
    fun entry => entry.notice.level ≠ .debug
  ({ moment := x.system.host.now, reply, ended, snapshot := x.snapshot,
     notices := notices.reverse.mergeSort noticeBefore },
   { x with
     running := x.running.filter x.isRunning
     reported := x.system.host.journal.length
     position := x.position + 1 })

end Session

/-- Run a script from the start. The answer has a report for each step, and the steps
whose calls are still running at the end. -/
def run (steps : List Step) : List Report × List Nat :=
  let rec go (x : Session) : List Step → List Report × List Nat
    | [] => ([], x.running.map Prod.fst)
    | step :: steps =>
      let (report, x) := x.step step
      let (reports, unfinished) := go x steps
      (report :: reports, unfinished)
  go {} steps

end ChangeDispatch.Script
