import ChangeDispatch.Proofs.Broker.Publish
import ChangeDispatch.Proofs.Run.Turns

/-!
# A broker at rest

A broker that is closed stays closed and publishes nothing more, whatever is done with it.
Its log is then the same for good. Timers are counted as they are set, so each has a serial
number of its own.
-/
namespace ChangeDispatch

namespace Host

/-- A closed broker stays closed and keeps its log, and no timer that was set is uncounted. -/
structure Rests (h k : Host) : Prop where
  closed : h.broker.closed → k.broker.closed
  published : h.broker.closed → k.broker.published = h.broker.published
  timers : h.timers ≤ k.timers

namespace Rests

variable {h k l : Host}

@[refl] theorem refl (h : Host) : Rests h h := ⟨id, fun _ => rfl, Nat.le_refl _⟩

theorem trans (hk : Rests h k) (kl : Rests k l) : Rests h l where
  closed hc := kl.closed (hk.closed hc)
  published hc := (kl.published (hk.closed hc)).trans (hk.published hc)
  timers := Nat.le_trans hk.timers kl.timers

theorem of_eq (closed : k.broker.closed = h.broker.closed)
    (published : k.broker.published = h.broker.published) (timers : k.timers = h.timers) :
    Rests h k :=
  ⟨fun hc => closed.trans hc, fun _ => published, Nat.le_of_eq timers.symm⟩

end Rests

variable (h : Host) (i : Nat) (d : Delivery)

theorem rests_note (notice : Notice) : Rests h (h.note notice) := .of_eq rfl rfl rfl

theorem rests_noteError {α : Type} (result : Except α Unit) (notice : α → Notice) :
    Rests h (h.noteError result notice) := by
  cases result with
  | ok _ => exact .refl h
  | error e => exact h.rests_note (notice e)

theorem rests_setTimer (delay : Nat) : Rests h (h.setTimer delay).2 :=
  ⟨id, fun _ => rfl, Nat.le_succ _⟩

theorem rests_publish (topic : String) (payload : Payload) :
    Rests h (h.publish topic payload).2 := by
  unfold Host.publish Broker.publish
  by_cases hc : h.broker.closed
  · rw [if_pos hc]
  · exact ⟨fun closed => absurd closed hc, fun closed => absurd closed hc, Nat.le_refl _⟩

theorem rests_settle (fails : Bool) {act : Broker → Broker}
    (closed : (act h.broker).closed = h.broker.closed)
    (published : (act h.broker).published = h.broker.published) :
    Rests h (h.settle fails i d act).2 := by
  unfold settle
  split
  · exact .of_eq rfl rfl rfl
  · exact .of_eq closed published rfl

theorem rests_ack : Rests h (h.ack i d).2 := h.rests_settle i d _ rfl rfl

theorem rests_terminate : Rests h (h.terminate i d).2 := h.rests_settle i d _ rfl rfl

theorem rests_nack (delay : Duration) : Rests h (h.nack i d delay).2 := by
  unfold Host.nack
  split
  · exact h.rests_settle i d _ rfl rfl
  · exact (h.rests_setTimer delay.ticks).trans (rests_settle _ i d _ rfl rfl)

theorem rests_beginReceive : Rests h h.beginReceive.2 := by
  unfold Host.beginReceive Broker.beginReceive
  cases h.broker.failReceives <;> exact .of_eq rfl rfl rfl

theorem rests_take? {h k : Host} {i : Nat} {d : Delivery} (ht : h.take? i = some (d, k)) :
    Rests h k := by
  obtain ⟨s, channel, -, -, rfl⟩ := take?_eq_some ht
  exact .of_eq rfl rfl rfl

theorem rests_stopReceiving : Rests h (h.stopReceiving i) := .of_eq rfl rfl rfl

theorem rests_subscribe (config : SubscriptionConfig) : Rests h (h.subscribe config).2 := by
  rcases h.subscribe_cases config with ⟨-, ho⟩ | ⟨e, ho⟩
  · rw [ho]
    exact .of_eq rfl rfl rfl
  · rw [ho]

theorem rests_close : Rests h h.close.2 := ⟨fun _ => rfl, fun _ => rfl, Nat.le_refl _⟩

end Host

open Host (Rests)

/-! ## The steps of agents -/

theorem Worker.rests_abandonRemaining (h : Host) (q : Queue) (w : Worker) :
    Rests h (abandonRemaining h q w).1 := by
  obtain ⟨journal, same⟩ := host_abandonRemaining h q w
  rw [same]
  exact .of_eq rfl rfl rfl

theorem Worker.rests_attempt (h : Host) (w : Worker) (job : Job) :
    Rests h (attempt h w job).1 := by
  have published := h.rests_publish w.topic job.payload
  unfold attempt
  split
  next k hp =>
    rw [hp] at published
    exact published.trans (k.rests_note _)
  next e k hp =>
    rw [hp] at published
    have noted := published.trans
      (k.rests_note (.attemptFailed w.topic job.item job.attempt w.retry.attempts e))
    dsimp only
    split
    · exact noted.trans (Host.rests_setTimer _ w.retry.delay.ticks)
    · exact noted.trans (Host.rests_note _ _)

theorem Worker.rests_of_step? {h k : Host} {q q' : Queue} {w w' : Worker}
    (hs : w.step? h q = some (k, q', w')) : Rests h k := by
  cases turn_of_step? hs with
  | abandoning _ _ => exact rests_abandonRemaining h q w
  | taking _ _ _ => exact .refl h
  | ending _ _ _ _ => exact .refl h
  | delaying _ _ => exact h.rests_setTimer h.faults.publishDelay
  | attempting _ => exact rests_attempt h w _
  | interrupting _ _ => exact rests_abandonRemaining h q _
  | retrying _ _ _ => exact .refl h

namespace Correlator

theorem rests_handBack (h : Host) (c : Correlator) (d : Delivery) : Rests h (handBack h c d) :=
  (h.rests_nack c.subscription d c.unmatchedDelay).trans (Host.rests_noteError _ _ _)

theorem rests_noteMismatch (h : Host) (workspace : String) (ack : AckEvent) :
    Rests h (noteMismatch h workspace ack) := by
  unfold noteMismatch
  split
  · exact h.rests_note _
  · exact .refl h

theorem rests_process (h : Host) (c : Correlator) (d : Delivery) :
    Rests h (process h c d).1 := by
  unfold process
  split
  next e _ =>
    have noted := h.rests_note (.ackUndecodable e d.payload.length)
    exact (noted.trans (Host.rests_terminate _ c.subscription d)).trans
      (Host.rests_noteError _ _ _)
  next ack _ =>
    split
    next entry registry _ =>
      have noted := rests_noteMismatch h entry.workspace ack
      have acked := noted.trans (Host.rests_ack _ c.subscription d)
      exact (acked.trans (Host.rests_note _ _)).trans (Host.rests_noteError _ _ _)
    next entry registry _ =>
      exact (rests_noteMismatch h entry.workspace ack).trans (rests_handBack _ c d)
    · exact rests_handBack h c d

theorem rests_of_step? {h k : Host} {c c' : Correlator} (hs : c.step? h = some (k, c')) :
    Rests h k := by
  have begun := h.rests_beginReceive
  cases turn_of_step? hs with
  | stopping _ _ => exact h.rests_stopReceiving _
  | asking _ _ asked =>
    rw [asked] at begun
    exact begun
  | pausing _ _ refused =>
    rw [refused] at begun
    exact (begun.trans (Host.rests_note _ _)).trans (Host.rests_setTimer _ Listener.receivePause)
  | taking _ _ taken => exact (Host.rests_take? taken).trans (rests_process _ c _)
  | ending _ _ _ _ => exact (h.rests_note _).trans (Host.rests_stopReceiving _ _)
  | resuming _ _ _ => exact .refl h

end Correlator

namespace Consumer

theorem rests_handBack (h : Host) (k : Consumer) (d : Delivery) : Rests h (handBack h k d) :=
  (h.rests_nack k.subscription d ⟨0⟩).trans (Host.rests_noteError _ _ _)

theorem rests_bury (h : Host) (k : Consumer) (d : Delivery) : Rests h (bury h k d) := by
  have published := h.rests_publish k.policy.deadLetterTopic d.payload
  unfold bury
  split
  next h' hp =>
    rw [hp] at published
    exact (published.trans (h'.rests_ack k.subscription d)).trans (Host.rests_noteError _ _ _)
  next e h' hp =>
    rw [hp] at published
    exact (published.trans (h'.rests_note _)).trans (rests_handBack _ k d)

theorem rests_conclude (h : Host) (k : Consumer) (d : Delivery)
    (answer : Except DispatchError Unit) : Rests h (conclude h k d answer).1 := by
  unfold conclude
  split
  · have acked := (h.rests_ack k.subscription d).trans
      (Host.rests_noteError _ (h.ack k.subscription d).1 (.messageAckFailed k.topic))
    exact acked.trans (Host.rests_note _ _)
  next e =>
    split
    · exact h.rests_note _
    · exact (h.rests_note _).trans (rests_handBack _ k d)

theorem rests_begin (h : Host) (k : Consumer) (d : Delivery) : Rests h (begin h k d).1 := by
  unfold begin
  split
  · exact h.rests_note _
  next message _ => exact h.rests_setTimer (k.handler.duration k.seen.length message)

theorem rests_of_step? {h l : Host} {k k' : Consumer} (hs : k.step? h = some (l, k')) :
    Rests h l := by
  have begun := h.rests_beginReceive
  cases turn_of_step? hs with
  | stopping _ _ => exact h.rests_stopReceiving _
  | asking _ _ asked =>
    rw [asked] at begun
    exact begun
  | failing _ _ refused =>
    rw [refused] at begun
    exact begun.trans (Host.rests_note _ _)
  | taking _ _ taken => exact (Host.rests_take? taken).trans (rests_begin _ k _)
  | ending _ _ _ _ => exact (h.rests_note _).trans (Host.rests_stopReceiving _ _)
  | concluding _ _ => exact rests_conclude h k _ _
  | delaying _ _ => exact h.rests_setTimer h.faults.publishDelay
  | burying _ => exact rests_bury h k _

end Consumer

end ChangeDispatch
