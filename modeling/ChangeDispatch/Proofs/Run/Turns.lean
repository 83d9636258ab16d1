import ChangeDispatch.DeadLetter.Consumer
import ChangeDispatch.Publisher.Worker
import ChangeDispatch.Wait.Listener

/-!
# The turns of agents

An agent that can go on does so in one of a few ways. They are listed here once for each kind
of agent, each with the conditions under which it is taken and with the operations that are
made in it. What a step does to the host or to the agent is then a fact about those operations.
-/
namespace ChangeDispatch

namespace Worker

/-- A turn of a worker. -/
inductive Turn (h : Host) (q : Queue) (w : Worker) : Host → Queue → Worker → Prop where
  | abandoning :
      w.phase = .idle → w.stopping →
      Turn h q w (abandonRemaining h q w).1 (abandonRemaining h q w).2.1
        (abandonRemaining h q w).2.2
  | taking {item : Item} {rest : Queue} :
      w.phase = .idle → w.stopping = false → q.take? = some (item, rest) →
      Turn h q w h rest { w with phase := .attempting { item } }
  | ending :
      w.phase = .idle → w.stopping = false → q.take? = none → q.isDrained →
      Turn h q w h q.stopReceiving { w with phase := .ended }
  | delaying {job : Job} :
      w.phase = .attempting job → h.faults.publishDelay ≠ 0 →
      Turn h q w (h.setTimer h.faults.publishDelay).2 q
        { w with phase := .publishing job (h.setTimer h.faults.publishDelay).1 }
  /-- An attempt that takes no time, or the end of one that does. -/
  | attempting {job : Job} :
      (w.phase = .attempting job ∧ h.faults.publishDelay = 0 ∨
        ∃ timer, w.phase = .publishing job timer ∧ h.isDue timer) →
      Turn h q w (attempt h w job).1 q (attempt h w job).2
  | interrupting {job : Job} {timer : Timer} :
      w.phase = .resting job timer → w.stopping →
      Turn h q w (interrupt h q w).1 (interrupt h q w).2.1 (interrupt h q w).2.2
  | retrying {job : Job} {timer : Timer} :
      w.phase = .resting job timer → w.stopping = false → h.isDue timer →
      Turn h q w h q { w with phase := .attempting { job with attempt := job.attempt + 1 } }

/-- All that a host sees of events that are given up are notices. -/
theorem host_abandonRemaining (h : Host) (q : Queue) (w : Worker) :
    ∃ journal, (abandonRemaining h q w).1 = { h with journal } := by
  have each : ∀ (items : List Item) (k : Host),
      ∃ journal, items.foldl (fun h item => h.note (.abandoning item)) k = { k with journal } := by
    intro items
    induction items with
    | nil => exact fun k => ⟨k.journal, rfl⟩
    | cons item items ih => exact fun k => ih (k.note (.abandoning item))
  obtain ⟨journal, same⟩ := each q.buffer h
  unfold abandonRemaining
  dsimp only
  rw [same]
  split
  · exact ⟨_, rfl⟩
  · exact ⟨journal, rfl⟩

theorem turn_of_step? {h k : Host} {q q' : Queue} {w w' : Worker}
    (hs : w.step? h q = some (k, q', w')) : Turn h q w k q' w' := by
  have turn : ∀ {k₁ : Host} {q₁ : Queue} {w₁ : Worker}, Turn h q w k₁ q₁ w₁ →
      some (k₁, q₁, w₁) = some (k, q', w') → Turn h q w k q' w' := by
    rintro k₁ q₁ w₁ turn ⟨⟩
    exact turn
  unfold step? at hs
  split at hs
  next idle =>
    split at hs
    next told => exact turn (.abandoning idle told) hs
    next untold =>
      have going : w.stopping = false := by simpa using untold
      split at hs
      next item rest taken => exact turn (.taking idle going taken) hs
      next empty =>
        split at hs
        next drained => exact turn (.ending idle going empty drained) hs
        next => cases hs
  next job phase =>
    split at hs
    next prompt => exact turn (.attempting (.inl ⟨phase, prompt⟩)) hs
    next slow => exact turn (.delaying phase slow) hs
  next job timer phase =>
    split at hs
    next due => exact turn (.attempting (.inr ⟨timer, phase, due⟩)) hs
    next => cases hs
  next job timer phase =>
    split at hs
    next told => exact turn (.interrupting phase told) hs
    next untold =>
      split at hs
      next due => exact turn (.retrying phase (by simpa using untold) due) hs
      next => cases hs
  next => cases hs

end Worker

namespace Correlator

/-- A turn of a listener. -/
inductive Turn (h : Host) (c : Correlator) : Host → Correlator → Prop where
  | stopping :
      c.phase ≠ .ended → c.stopping → Turn h c (finish h c).1 (finish h c).2
  | asking {k : Host} :
      c.phase = .ready → c.stopping = false → h.beginReceive = (none, k) →
      Turn h c k { c with phase := .waiting }
  | pausing {e : TransportError} {k : Host} :
      c.phase = .ready → c.stopping = false → h.beginReceive = (some e, k) →
      Turn h c ((k.note (.ackReceiveFailed e)).setTimer Listener.receivePause).2
        { c with
          phase := .pausing ((k.note (.ackReceiveFailed e)).setTimer Listener.receivePause).1 }
  | taking {d : Delivery} {k : Host} :
      c.phase = .waiting → c.stopping = false → h.take? c.subscription = some (d, k) →
      Turn h c (process k c d).1 { (process k c d).2 with phase := .ready }
  | ending :
      c.phase = .waiting → c.stopping = false → h.take? c.subscription = none →
      h.broker.isEnded c.subscription →
      Turn h c (finish (h.note .ackSubscriptionEnded) c).1
        (finish (h.note .ackSubscriptionEnded) c).2
  | resuming {timer : Timer} :
      c.phase = .pausing timer → c.stopping = false → h.isDue timer →
      Turn h c h { c with phase := .ready }

theorem turn_of_step? {h k : Host} {c c' : Correlator} (hs : c.step? h = some (k, c')) :
    Turn h c k c' := by
  have turn : ∀ {k₁ : Host} {c₁ : Correlator}, Turn h c k₁ c₁ →
      some (k₁, c₁) = some (k, c') → Turn h c k c' := by
    rintro k₁ c₁ turn ⟨⟩
    exact turn
  unfold step? at hs
  split at hs
  next ready =>
    split at hs
    next told => exact turn (.stopping (by simp [ready]) told) hs
    next untold =>
      have going : c.stopping = false := by simpa using untold
      split at hs
      next begun => exact turn (.asking ready going begun) hs
      next e begun => exact turn (.pausing ready going begun) hs
  next waiting =>
    split at hs
    next told => exact turn (.stopping (by simp [waiting]) told) hs
    next untold =>
      have going : c.stopping = false := by simpa using untold
      split at hs
      next d taken => exact turn (.taking waiting going taken) hs
      next nothing =>
        split at hs
        next ended => exact turn (.ending waiting going nothing ended) hs
        next => cases hs
  next timer pausing =>
    split at hs
    next told => exact turn (.stopping (by simp [pausing]) told) hs
    next untold =>
      split at hs
      next due => exact turn (.resuming pausing (by simpa using untold) due) hs
      next => cases hs
  next => cases hs

/-- A listener that makes a step has not ended. -/
theorem going_of_step? {h k : Host} {c c' : Correlator} (hs : c.step? h = some (k, c')) :
    c.phase ≠ .ended := by
  intro ended
  unfold step? at hs
  rw [ended] at hs
  cases hs

/-- A listener that receives settles what it has received. -/
theorem step?_of_take? {h k : Host} {c : Correlator} {d : Delivery} (waiting : c.phase = .waiting)
    (going : c.stopping = false) (received : h.take? c.subscription = some (d, k)) :
    c.step? h = some ((process k c d).1, { (process k c d).2 with phase := .ready }) := by
  unfold step?
  rw [waiting]
  dsimp only
  rw [going, if_neg (by decide), received]

end Correlator

namespace Consumer

/-- A turn of a consumer. -/
inductive Turn (h : Host) (k : Consumer) : Host → Consumer → Prop where
  | stopping :
      k.phase = .ready ∨ k.phase = .waiting → k.stopping →
      Turn h k (finish h k).1 (finish h k).2
  | asking {l : Host} :
      k.phase = .ready → k.stopping = false → h.beginReceive = (none, l) →
      Turn h k l { k with phase := .waiting }
  | failing {e : TransportError} {l : Host} :
      k.phase = .ready → k.stopping = false → h.beginReceive = (some e, l) →
      Turn h k (l.note (.receiveFailed k.topic e)) k
  | taking {d : Delivery} {l : Host} :
      k.phase = .waiting → k.stopping = false → h.take? k.subscription = some (d, l) →
      Turn h k (begin l k d).1 (begin l k d).2
  | ending :
      k.phase = .waiting → k.stopping = false → h.take? k.subscription = none →
      h.broker.isEnded k.subscription →
      Turn h k (finish (h.note (.subscriptionEnded k.topic)) k).1
        (finish (h.note (.subscriptionEnded k.topic)) k).2
  | concluding {d : Delivery} {message : Message} {timer : Timer} :
      k.phase = .handling d message timer → h.isDue timer →
      Turn h k (conclude h k d (k.handler.answer (k.seen.length - 1) message)).1
        (conclude h k d (k.handler.answer (k.seen.length - 1) message)).2
  | delaying {d : Delivery} :
      k.phase = .burying d → h.faults.publishDelay ≠ 0 →
      Turn h k (h.setTimer h.faults.publishDelay).2
        { k with phase := .publishing d (h.setTimer h.faults.publishDelay).1 }
  /-- A copy that takes no time, or the end of one that does. -/
  | burying {d : Delivery} :
      (k.phase = .burying d ∧ h.faults.publishDelay = 0 ∨
        ∃ timer, k.phase = .publishing d timer ∧ h.isDue timer) →
      Turn h k (bury h k d) { k with phase := .ready }

theorem turn_of_step? {h l : Host} {k k' : Consumer} (hs : k.step? h = some (l, k')) :
    Turn h k l k' := by
  have turn : ∀ {l₁ : Host} {k₁ : Consumer}, Turn h k l₁ k₁ →
      some (l₁, k₁) = some (l, k') → Turn h k l k' := by
    rintro l₁ k₁ turn ⟨⟩
    exact turn
  unfold step? at hs
  split at hs
  next ready =>
    split at hs
    next told => exact turn (.stopping (.inl ready) told) hs
    next untold =>
      have going : k.stopping = false := by simpa using untold
      split at hs
      next begun => exact turn (.asking ready going begun) hs
      next e begun => exact turn (.failing ready going begun) hs
  next waiting =>
    split at hs
    next told => exact turn (.stopping (.inr waiting) told) hs
    next untold =>
      have going : k.stopping = false := by simpa using untold
      split at hs
      next d taken => exact turn (.taking waiting going taken) hs
      next nothing =>
        split at hs
        next ended => exact turn (.ending waiting going nothing ended) hs
        next => cases hs
  next d message timer phase =>
    split at hs
    next due => exact turn (.concluding phase due) hs
    next => cases hs
  next d phase =>
    split at hs
    next prompt => exact turn (.burying (.inl ⟨phase, prompt⟩)) hs
    next slow => exact turn (.delaying phase slow) hs
  next d timer phase =>
    split at hs
    next due => exact turn (.burying (.inr ⟨timer, phase, due⟩)) hs
    next => cases hs
  next => cases hs

/-- A consumer that cannot go on has ended, or has nothing to receive, or waits for a timer. -/
theorem blocked_cases {h : Host} {k : Consumer} (blocked : k.step? h = none) :
    k.phase = .ended ∨ (k.phase = .waiting ∧ h.take? k.subscription = none) ∨
      ∃ timer, k.timer? = some timer ∧ h.now < timer.due := by
  have early : ∀ {timer : Timer}, ¬ h.isDue timer → h.now < timer.due := fun early => by
    simpa [Host.isDue] using early
  unfold step? at blocked
  unfold timer?
  split at blocked
  next =>
    split at blocked
    · cases blocked
    · split at blocked <;> cases blocked
  next waiting =>
    split at blocked
    · cases blocked
    · split at blocked
      · cases blocked
      next nothing => exact .inr (.inl ⟨waiting, nothing⟩)
  next d message timer phase =>
    split at blocked
    · cases blocked
    next undue => exact .inr (.inr ⟨timer, by rw [phase], early undue⟩)
  next => split at blocked <;> cases blocked
  next d timer phase =>
    split at blocked
    · cases blocked
    next undue => exact .inr (.inr ⟨timer, by rw [phase], early undue⟩)
  next ended => exact .inl ended

end Consumer

end ChangeDispatch
