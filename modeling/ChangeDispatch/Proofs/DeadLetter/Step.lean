import ChangeDispatch.Proofs.Broker.Publish
import ChangeDispatch.Proofs.Run.Turns

/-!
# What a step of a consumer does

A consumer has at most one delivery in hand. Its steps receive one, call the handler,
publish the copy, or settle; each settlement is tied here to what was found out about the
delivery before it.
-/
namespace ChangeDispatch.Consumer

open Host (Adjusts Still Puts)

/-- The delivery that a consumer has in hand. -/
def Phase.hand? : Phase → Option Delivery
  | .handling d _ _ | .burying d | .publishing d _ => some d
  | .ready | .waiting | .ended => none

/-- The delivery that is to be copied next. -/
def Phase.toBury? : Phase → Option Delivery
  | .burying d | .publishing d _ => some d
  | _ => none

/-- A delivery is acked, and counted unless the connection fails. -/
structure Acks (i : Nat) (d : Delivery) (h k : Host) : Prop where
  adjusts : Adjusts i (·.release d) h k
  counted : h.faults.failAck = false → k.broker.acked = h.broker.acked + 1

/-- A delivery is handed back, unless the connection fails. -/
structure HandsBack (i : Nat) (d : Delivery) (h k : Host) : Prop where
  touches : Adjusts i (·.release d) h k ∨ Adjusts i (·.handBack d none) h k
  adjusts : h.faults.failNack = false → Adjusts i (·.handBack d none) h k

/-- A step of a consumer. -/
inductive Step (h : Host) (k : Consumer) : Host → Consumer → Prop where
  /-- The delivery in hand stays there. -/
  | moved {l : Host} {phase : Phase} :
      k.phase ≠ .ended → phase.hand? = k.phase.hand? → phase ≠ .ended → Still h l →
      Step h k l { k with phase }
  | finished {l : Host} :
      k.phase.hand? = none → (k.stopping ∨ h.broker.isEnded k.subscription) →
      Adjusts k.subscription Subscription.stopReceiving h l → Step h k l { k with phase := .ended }
  | received {d : Delivery} {l m : Host} {seen : List Message} {phase : Phase} :
      k.phase = .waiting → h.take? k.subscription = some (d, l) → phase.hand? = some d →
      Still l m → Step h k m { k with seen, phase }
  | handled {d : Delivery} {message : Message} {timer : Timer} {l : Host} :
      k.phase = .handling d message timer →
      k.handler.answer (k.seen.length - 1) message = .ok () →
      Acks k.subscription d h l → Step h k l { k with phase := .ready }
  | rejected {d : Delivery} {message : Message} {timer : Timer} {l : Host} {e : DispatchError} :
      k.phase = .handling d message timer →
      k.handler.answer (k.seen.length - 1) message = .error e →
      d.number < k.policy.maxDeliveries →
      HandsBack k.subscription d h l → Step h k l { k with phase := .ready }
  | buried {d : Delivery} {l m : Host} :
      k.phase.toBury? = some d → Puts k.policy.deadLetterTopic d.payload h l →
      l.broker.acked = h.broker.acked → Acks k.subscription d l m →
      Step h k m { k with phase := .ready }
  | unburied {d : Delivery} {l m : Host} :
      k.phase.toBury? = some d → Still h l → HandsBack k.subscription d l m →
      Step h k m { k with phase := .ready }

theorem acks_ack (i : Nat) (d : Delivery) (h : Host) : Acks i d h (h.ack i d).2 := by
  refine ⟨h.adjusts_ack i d, fun hf => ?_⟩
  unfold Host.ack Host.settle
  rw [hf]
  rfl

theorem Acks.noteError {i : Nat} {d : Delivery} {h k : Host} (a : Acks i d h k) {α : Type}
    (result : Except α Unit) (notice : α → Notice) : Acks i d h (k.noteError result notice) := by
  refine ⟨a.adjusts.before (k.adjusts_noteError i result notice), fun hf => ?_⟩
  rw [← a.counted hf]
  cases result <;> rfl

theorem Acks.note {i : Nat} {d : Delivery} {h k : Host} (a : Acks i d h k) (notice : Notice) :
    Acks i d h (k.note notice) :=
  ⟨a.adjusts.before (k.adjusts_note i notice), a.counted⟩

theorem handsBack_handBack (h : Host) (k : Consumer) (d : Delivery) :
    HandsBack k.subscription d h (handBack h k d) := by
  have noted := (h.nack k.subscription d ⟨0⟩).2.adjusts_noteError k.subscription
    (h.nack k.subscription d ⟨0⟩).1 (.messageHandBackFailed k.topic)
  refine ⟨?_, fun hf => ?_⟩
  · refine Or.imp (fun a => Adjusts.before a noted) (fun a => Adjusts.before a noted) ?_
    unfold Host.nack Host.settle
    cases h.faults.failNack with
    | true => exact .inl ⟨rfl, rfl, rfl, rfl, rfl⟩
    | false => exact .inr ⟨rfl, rfl, rfl, rfl, rfl⟩
  · refine Adjusts.before ?_ noted
    unfold Host.nack Host.settle
    rw [hf]
    exact ⟨rfl, rfl, rfl, rfl, rfl⟩

theorem HandsBack.after {i : Nat} {d : Delivery} {h k l : Host} (s : Still h k)
    (b : HandsBack i d k l) : HandsBack i d h l where
  touches := b.touches.imp (fun a => (s.adjusts i).after a) fun a => (s.adjusts i).after a
  adjusts hf := (s.adjusts i).after (b.adjusts (s.faults ▸ hf))

theorem step_bury {h : Host} {k : Consumer} {d : Delivery} (hd : k.phase.toBury? = some d) :
    Step h k (bury h k d) { k with phase := .ready } := by
  unfold bury
  have acked := h.acked_publish k.policy.deadLetterTopic d.payload
  cases hp : h.publish k.policy.deadLetterTopic d.payload with
  | mk result l =>
    rw [hp] at acked
    cases result with
    | ok _ => exact .buried hd (h.puts_of_publish hp) acked ((acks_ack _ d l).noteError _ _)
    | error e =>
      have noted := l.still_note (.deadLetterFailed k.topic k.policy.deadLetterTopic e)
      exact .unburied hd (h.still_of_publish hp) (.after noted (handsBack_handBack _ k d))

theorem step_begin {h l : Host} {k : Consumer} {d : Delivery} (hp : k.phase = .waiting)
    (ht : h.take? k.subscription = some (d, l)) : Step h k (begin l k d).1 (begin l k d).2 := by
  unfold begin
  cases k.handler.decode d.payload with
  | error problem => exact .received hp ht rfl (l.still_note _)
  | ok message =>
    exact .received hp ht rfl (l.still_setTimer (k.handler.duration k.seen.length message))

theorem step_conclude {h : Host} {k : Consumer} {d : Delivery} {message : Message} {timer : Timer}
    {answer : Except DispatchError Unit} (hp : k.phase = .handling d message timer)
    (ha : k.handler.answer (k.seen.length - 1) message = answer) :
    Step h k (conclude h k d answer).1 (conclude h k d answer).2 := by
  cases answer with
  | ok _ =>
    refine .handled hp ha (Acks.note ?_ _)
    exact (acks_ack _ d h).noteError _ _
  | error e =>
    unfold conclude
    dsimp only
    split
    next hle => exact .moved (by simp [hp]) (by rw [hp]; rfl) (by simp) (h.still_note _)
    next hlt =>
      have noted := h.still_note (.handlerFailed k.topic d.number k.policy.maxDeliveries e)
      exact .rejected hp ha (Nat.lt_of_not_le hlt) (.after noted (handsBack_handBack _ k d))

/-- Every step of a consumer is one of the list. -/
theorem step_of_step? {h l : Host} {k k' : Consumer} (hs : k.step? h = some (l, k')) :
    Step h k l k' := by
  have begun := h.still_beginReceive
  cases turn_of_step? hs with
  | stopping phase told =>
    refine .finished ?_ (.inl told) (h.adjusts_stopReceiving _)
    rcases phase with phase | phase <;> rw [phase] <;> rfl
  | asking ready _ asked =>
    rw [asked] at begun
    exact .moved (by simp [ready]) (by rw [ready]; rfl) (by simp) begun
  | @failing e h' ready _ refused =>
    rw [refused] at begun
    have stays : Step h k _ { k with phase := k.phase } :=
      .moved (by simp [ready]) rfl (by simp [ready])
        (begun.trans (h'.still_note (.receiveFailed k.topic e)))
    exact stays
  | taking waiting _ taken => exact step_begin waiting taken
  | ending waiting _ _ ended =>
    refine .finished (by rw [waiting]; rfl) (.inr ended) ?_
    exact (h.adjusts_note _ _).after (Host.adjusts_stopReceiving _ _)
  | concluding phase _ => exact step_conclude phase rfl
  | delaying phase _ =>
    exact .moved (by simp [phase]) (by rw [phase]; rfl) (by simp)
      (h.still_setTimer h.faults.publishDelay)
  | burying buries =>
    rcases buries with ⟨phase, -⟩ | ⟨timer, phase, -⟩ <;> exact step_bury (by rw [phase]; rfl)

end ChangeDispatch.Consumer
