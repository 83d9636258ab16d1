import ChangeDispatch.Proofs.Broker.Publish
import ChangeDispatch.Proofs.Run.Turns

/-!
# What a step of a worker does

A worker holds at most one event. It takes one only when it holds none, and it gives it
up when it was published, when the last attempt has failed, or when the worker is stopped
while it rests; in the last case it gives up all that is queued as well.
-/
namespace ChangeDispatch.Worker

open Host (Still Puts)

/-- The event that a worker holds in a phase. -/
def Phase.item? : Phase → Option Item
  | .attempting job | .publishing job _ | .resting job _ => some job.item
  | .idle | .ended => none

/-- A step of a worker, with the host, the queue and the worker afterwards. -/
inductive Step (h : Host) (q : Queue) (w : Worker) : Host → Queue → Worker → Prop where
  | taken {item : Item} {q' : Queue} :
      w.phase = .idle → w.stopping = false → q.take? = some (item, q') →
      Step h q w h q' { w with phase := .attempting { item } }
  | drained :
      w.phase = .idle → w.stopping = false → q.isDrained →
      Step h q w h q.stopReceiving { w with phase := .ended }
  | abandoned {k : Host} :
      w.phase = .idle → w.stopping → Still h k →
      Step h q w k q.stopReceiving
        { w with
          phase := .ended
          stats := { w.stats with abandoned := w.stats.abandoned + q.buffer.length } }
  | interrupted {item : Item} {k : Host} :
      w.phase.item? = some item → w.stopping → Still h k →
      Step h q w k q.stopReceiving
        { w with
          phase := .ended
          stats := { w.stats with abandoned := w.stats.abandoned + 1 + q.buffer.length } }
  /-- The event in hand stays there. -/
  | moved {item : Item} {k : Host} {phase : Phase} {failedAttempts : Nat} :
      w.phase.item? = some item → phase.item? = some item → Still h k →
      Step h q w k q { w with phase, stats := { w.stats with failedAttempts } }
  | published {item : Item} {k : Host} :
      w.phase.item? = some item → Puts w.topic item.event.write h k →
      Step h q w k q
        { w with phase := .idle, stats := { w.stats with published := w.stats.published + 1 } }
  | dropped {item : Item} {k : Host} {failedAttempts : Nat} :
      w.phase.item? = some item → Still h k →
      Step h q w k q
        { w with
          phase := .idle
          stats := { w.stats with failedAttempts, dropped := w.stats.dropped + 1 } }

theorem still_abandonRemaining (h : Host) (q : Queue) (w : Worker) :
    Still h (abandonRemaining h q w).1 := by
  obtain ⟨journal, same⟩ := host_abandonRemaining h q w
  rw [same]
  exact ⟨rfl, rfl, rfl, rfl, rfl⟩

theorem step_attempt {h : Host} {q : Queue} {w : Worker} {job : Job}
    (hw : w.phase.item? = some job.item) :
    Step h q w (attempt h w job).1 q (attempt h w job).2 := by
  unfold attempt
  cases hp : h.publish w.topic job.payload with
  | mk result k =>
    cases result with
    | ok _ => exact .published hw ((h.puts_of_publish hp).still (k.still_note _))
    | error e =>
      have failed := (h.still_of_publish hp).trans
        (k.still_note (.attemptFailed w.topic job.item job.attempt w.retry.attempts e))
      dsimp only
      split
      · exact .moved hw rfl (failed.trans (Host.still_setTimer _ w.retry.delay.ticks))
      · exact .dropped hw (failed.trans (Host.still_note _ _))

/-- Every step of a worker is one of the list. -/
theorem step_of_step? {h k : Host} {q q' : Queue} {w w' : Worker}
    (hs : w.step? h q = some (k, q', w')) : Step h q w k q' w' := by
  cases turn_of_step? hs with
  | abandoning idle told => exact .abandoned idle told (still_abandonRemaining h q w)
  | taking idle going taken => exact .taken idle going taken
  | ending idle going _ drained => exact .drained idle going drained
  | delaying phase _ =>
    exact .moved (by rw [phase]; rfl) rfl (h.still_setTimer h.faults.publishDelay)
  | attempting attempts =>
    rcases attempts with ⟨phase, -⟩ | ⟨timer, phase, -⟩ <;>
      exact step_attempt (by rw [phase]; rfl)
  | interrupting phase told =>
    exact .interrupted (by rw [phase]; rfl) told (still_abandonRemaining h q _)
  | retrying phase _ _ => exact .moved (by rw [phase]; rfl) rfl (.refl h)

/-- A step keeps the topic and the retry policy. -/
theorem Step.settings {h k : Host} {q q' : Queue} {w w' : Worker} (step : Step h q w k q' w') :
    w'.topic = w.topic ∧ w'.retry = w.retry := by
  cases step <;> exact ⟨rfl, rfl⟩

end ChangeDispatch.Worker
