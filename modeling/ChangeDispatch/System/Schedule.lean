import ChangeDispatch.System.Calls

/-!
# Progress

An agent makes small steps as long as it can; then the next agent in line makes its own.
An agent that can make a step again goes to the end of the line. A system in which no
agent can make a step is quiescent, and only the passing of time changes it further. Time
jumps from one timer to the next; agents whose timers are due at the same moment stand in
line in the order in which the timers were set.

A step is what the task of an agent does when it is polled, up to a point at which it looks at
what others have left. It is taken as undivided, as on a runtime with one thread: no other agent
acts in the middle of it, and the call that a poll goes on with is not given up in between. So
nothing is said of tasks that run at the same time on several threads and meet inside a step: a
receiver that goes away while a producer that was let in puts its event into the buffer, or a
waiter that is dropped after its entry was taken from the table and before its slot is filled.
-/
namespace ChangeDispatch

/-- What an agent does next, if it can do anything now. -/
def Agent.step? (a : Agent) (s : System) : Option System :=
  match a with
  | .worker i => do
    let p ← s.publishers[i]?
    let q ← s.queues[p.queue]?
    let (host, q, w) ← p.worker.step? s.host q
    let s := { s with host }.adjustQueue p.queue fun _ => q
    return s.adjustPublisher i fun p => { p with worker := w }
  | .listener i => do
    let c ← s.correlators[i]?
    let (host, c) ← c.step? s.host
    return { s with host }.adjustCorrelator i fun _ => c
  | .consumer i => do
    let k ← s.consumers[i]?
    let (host, k) ← k.step? s.host
    return { s with host }.adjustConsumer i fun _ => k
  | .call n => s.stepCall? n
  | .redelivery subscription serial => do
    let entry ← s.host.broker.delayed? subscription serial
    if s.host.isDue entry.1 then
      return { s with host := { s.host with
        broker := s.host.broker.offerDelayed subscription entry } }
    else none

/-- The timer that an agent waits for. -/
def Agent.timer? (a : Agent) (s : System) : Option Timer :=
  match a with
  | .worker i => (s.publishers[i]?).bind fun p => p.worker.timer?
  | .listener i => (s.correlators[i]?).bind Correlator.timer?
  | .consumer i => (s.consumers[i]?).bind Consumer.timer?
  | .call n => s.callTimer? n
  | .redelivery subscription serial =>
    (s.host.broker.delayed? subscription serial).map Prod.fst

namespace System

/-- All agents, in the order in which they were started. -/
def agents (s : System) : List Agent :=
  s.started ++ s.host.broker.delayed.map fun (i, timer) => .redelivery i timer.serial

def canStep (s : System) (a : Agent) : Bool := (a.step? s).isSome

/-- No agent can make a step. -/
def isQuiescent (s : System) : Bool := s.agents.all fun a => !s.canStep a

/-- The agents outside the line that can make a step. -/
def woken (s : System) (line : List Agent) : List Agent :=
  s.agents.filter fun a => !line.contains a && s.canStep a

/-- Let the agents in line make their steps, and those that these steps wake. -/
def run : Nat → List Agent → System → System
  | 0, _, s => s
  | _ + 1, [], s => s
  | fuel + 1, a :: line, s =>
    match a.step? s with
    | none => run fuel line s
    | some t => run fuel (a :: line ++ t.woken (a :: line)) t

/-- The most steps that are made at one moment. -/
def stepLimit : Nat := 1000000

/-- Let the agents in `line` go first, then all others, until no agent can make a step. -/
def settleFrom (line : List Agent) (s : System) : System :=
  run stepLimit (line ++ s.woken line) s

/-- Let all agents make their steps until none can. -/
def settle (s : System) : System := s.settleFrom []

/-- The moments up to `limit` at which a timer is due. -/
def dueMoments (s : System) (limit : Nat) : List Nat :=
  s.agents.filterMap fun a => ((a.timer? s).map Timer.due).filter (· ≤ limit)

/-- The agents whose timers are due now, in the order in which the timers were set. -/
def dueAgents (s : System) : List Agent :=
  let due := s.agents.filterMap fun a =>
    ((a.timer? s).filter s.host.isDue).map fun timer => (timer.serial, a)
  (due.mergeSort fun x y => x.1 ≤ y.1).map Prod.snd

/-- Let the clock show a moment. -/
def atMoment (s : System) (moment : Nat) : System := { s with host := { s.host with now := moment } }

/-- Let time pass up to `target`, from one timer to the next. -/
def passTo (target : Nat) : Nat → System → System
  | 0, s => s.atMoment target
  | fuel + 1, s =>
    match (s.dueMoments target).min? with
    | none => s.atMoment target
    | some moment =>
      let s := s.atMoment moment
      passTo target fuel (s.settleFrom s.dueAgents)

/-- Let a number of milliseconds pass. -/
def advance (s : System) (ms : Nat) : System := passTo (s.host.now + ms) (ms + 1) s

end System

end ChangeDispatch
