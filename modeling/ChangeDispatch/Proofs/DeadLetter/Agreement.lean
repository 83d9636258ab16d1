import ChangeDispatch.Proofs.DeadLetter.Approval
import ChangeDispatch.Proofs.Publisher.Payloads
import ChangeDispatch.Proofs.Settlement.Once
import ChangeDispatch.Proofs.Wire.RoundTrip

/-!
# Publishers and consumers agree on what is valid

A queue refuses what is not valid, and a consumer whose handler validates rejects it. What a
publisher has let in is written and read back as the same event, at most with another moment, so
it passes the second validation as it has passed the first: where only publishers put messages on
the topic of such a consumer, it takes them all. This rests on what a worker publishes and on what
a consumer does that takes every message; both are proved apart from each other.
-/
namespace ChangeDispatch

/-- The handler is for change events, and its answer is their validation. -/
structure Handler.Validates (handler : Handler) : Prop where
  decode : ∀ payload, handler.decode payload = (ChangeEvent.decode payload).map Message.change
  answer : ∀ n event, handler.answer n (.change event) = event.validate

/-- Validation does not look at the moment of an event. -/
theorem ChangeEvent.validate_asRead (e : ChangeEvent) : e.asRead.validate = e.validate := rfl

theorem Handler.Validates.approves {handler : Handler} (validates : handler.Validates)
    {event : ChangeEvent} (valid : event.validate = .ok ()) : handler.Approves event.write := by
  refine ⟨.change event.asRead, ?_, fun n => (validates.answer n event.asRead).trans valid⟩
  rw [validates.decode, event.decode_write]
  rfl

/-- A consumer that can do nothing and has nothing in hand has nothing to receive. -/
theorem Consumer.channel_of_blocked {h : Host} {c : Consumer} {s : Subscription}
    (blocked : c.step? h = none) (hand : c.phase.hand? = none) (going : c.phase ≠ .ended)
    (hs : h.broker.subscriptions[c.subscription]? = some s) : s.channel = [] := by
  rcases blocked_cases blocked with ended | ⟨-, nothing⟩ | ⟨timer, waits, -⟩
  · exact absurd ended going
  · exact Host.channel_eq_nil hs nothing
  · unfold timer? at waits
    cases phase : c.phase <;> simp [phase, Phase.hand?] at waits hand

namespace Script

variable {ts : List Transition} {z : Session} {k : Nat} {c : Consumer} {s : Subscription}
  {topic : String}

/-- Nobody but the workers of publishers puts messages on the topic. -/
def PublishersOnly (ts : List Transition) (topic : String) : Prop :=
  ∀ u ∈ ts, ∀ n payload, u.Puts topic n payload → ∃ i, u.action = .agent (.worker i)

/-- At a quiescent point every message that has arrived was let go of, unless the consumer has
ended or waits for a timer. -/
theorem Approved.done_of_quiescent (app : Approved ts z.system.host.broker.messages k c s)
    (run : Runs ts z) (inbox : z.inbox? k = some (c, s)) (quiescent : z.system.isQuiescent)
    (going : c.phase ≠ .ended) :
    (∃ timer, c.timer? = some timer ∧ z.system.host.now < timer.due) ∨
      ∀ u ∈ ts, ∀ m, u.Arrives k m → m ∈ (freed ts (.consumer k)).map Delivery.message := by
  obtain ⟨hc, hs⟩ := Session.inbox?_eq_some.mp inbox
  cases hand : c.phase.hand? with
  | some d => exact .inl (run.timer?_of_quiescent quiescent hc hand)
  | none =>
    right
    have blocked := run.blocked_of_quiescent quiescent hc
    have offered : offers ts k s = (freed ts (.consumer k)).reverse := by
      unfold offers
      rw [Consumer.channel_of_blocked blocked hand going hs, app.settled, hand]
      exact List.append_nil _
    intro u hu m arrives
    have known := app.complete going u hu m arrives
    rw [offered, List.map_reverse] at known
    exact List.mem_reverse.mp known

/-! ## The result -/

/-- Where only publishers put messages on the topic of a consumer whose handler validates,
every payload there is the wire form of an event that was brought to the queue of a publisher,
and what it decodes to is valid: it is this event, unless the moment of the event is a leap second
within a minute. The consumer is offered every message once; its handler is called once, with what
is decoded, for each that it takes. The consumer publishes nothing and acks all that it lets go of,
unless the connection fails, and settles in no other way. At a quiescent point it has let go of all
that has arrived, unless it has ended or its handler is busy. -/
theorem published_taken_acked (run : Runs ts z) (inbox : z.inbox? k = some (c, s))
    (validates : c.handler.Validates) (only : PublishersOnly ts c.topic) :
    (∀ u ∈ ts, ∀ n payload, u.Puts c.topic n payload → ∃ i p item,
      u.action = .agent (.worker i) ∧ u.before.system.publishers[i]? = some p ∧
      Submitted ts p.queue item ∧ payload = item.event.write ∧
      ChangeEvent.ofPayload payload = .ok item.event.asRead ∧ item.event.asRead.validate = .ok () ∧
      (item.event.asRead = item.event ↔ ¬item.event.timestamp.WithinMinute)) ∧
    FirstOffers ts c.topic z.system.host.broker.messages (offers ts k s) ∧
    (takings ts (.consumer k)).reverse.map (fun d => c.handler.decode d.payload) =
      c.seen.map Except.ok ∧
    takings ts (.consumer k) = c.phase.hand?.toList ++ freed ts (.consumer k) ∧
    (∀ u ∈ ts, u.action = .agent (.consumer k) → u.OnlyAcks k) ∧
    (z.system.isQuiescent → c.phase ≠ .ended →
      (∃ timer, c.timer? = some timer ∧ z.system.host.now < timer.due) ∨
        ∀ u ∈ ts, ∀ m, u.Arrives k m → m ∈ (freed ts (.consumer k)).map Delivery.message) := by
  have submitted : ∀ u ∈ ts, ∀ n payload, u.Puts c.topic n payload → ∃ i p item,
      u.action = .agent (.worker i) ∧ u.before.system.publishers[i]? = some p ∧
      Submitted ts p.queue item ∧ payload = item.event.write := by
    intro u hu n payload puts
    obtain ⟨i, action⟩ := only u hu n payload puts
    obtain ⟨p, item, hp, known, wire⟩ := run.submitted_of_puts hu action puts
    exact ⟨i, p, item, action, hp, known, wire⟩
  have app := run.approved inbox fun u hu n payload puts => by
    obtain ⟨i, p, item, -, -, known, wire⟩ := submitted u hu n payload puts
    rw [wire]
    exact validates.approves known.2
  refine ⟨fun u hu n payload puts => ?_, app.first, app.called, app.settled, app.steps,
    app.done_of_quiescent run inbox⟩
  obtain ⟨i, p, item, action, hp, known, wire⟩ := submitted u hu n payload puts
  refine ⟨i, p, item, action, hp, known, wire, ?_, ?_, item.event.asRead_eq_self_iff⟩
  · rw [wire, item.event.ofPayload_write]
  · exact item.event.validate_asRead.trans known.2

/-- A publisher sends an event to a consumer whose handler validates, over a connection with
faults, and all comes to rest; the latest action first. -/
def eventSent (event : ChangeEvent) (faults : Faults) : List Action :=
  [.agent (.listener 0), .agent (.consumer 0), .agent (.consumer 0), .agent (.consumer 0),
   .agent (.worker 0), .agent (.worker 0), .agent (.call 0), .agent (.consumer 0),
   .perform (.enqueue "p" event), .perform (.setFaults faults),
   .perform (.startConsumer "k" "workspace.events" "monitor" none { validates := true }),
   .perform (.openPublisher "p" {})]

/-- The consumer at the end of this run, which was called with `event`, and its subscription. -/
def eventServed (event : ChangeEvent) : Consumer × Subscription :=
  ({ topic := "workspace.events", policy := .ofTopic "workspace.events",
     handler := HandlerPlan.handler { validates := true }, subscription := 1,
     seen := [.change event], phase := .waiting },
   { topic := "workspace.events", name := "monitor", maxDeliveries := some 3 })

/-- A handler of a script that validates and does nothing else. -/
theorem HandlerPlan.validates_handler (delay : Nat) :
    (HandlerPlan.handler { delay, validates := true }).Validates where
  decode _ := rfl
  answer n event := by
    show HandlerPlan.answer { delay, validates := true } n (.change event) = event.validate
    cases answer : event.validate with
    | error e => simp [HandlerPlan.answer, Message.event, answer, bind, Except.bind]
    | ok _ => simp [HandlerPlan.answer, Message.event, answer, bind, Except.bind, pure, Except.pure]

theorem publishersOnly_of_all (checked : ts.all fun u =>
    u.after.system.host.broker.messages == u.before.system.host.broker.messages ||
      u.action.isWorker 0) : PublishersOnly ts topic := by
  intro u hu n payload puts
  rcases Bool.or_eq_true_iff.mp (List.all_eq_true.mp checked u hu) with same | worker
  · have unchanged := eq_of_beq same
    have before := puts.1
    have after := puts.2.1
    omega
  · exact ⟨0, Action.of_isWorker worker⟩

/-- In the first run the event was delivered and the consumer is done with it, but no delivery was
acked. In the second the handler was called with another event than the one that was sent. -/
theorem delivered_unacked :
    (Runs (play (eventSent (creation none) { failAck := true })).1
        (play (eventSent (creation none) { failAck := true })).2 ∧
      (play (eventSent (creation none) { failAck := true })).2.system.isQuiescent ∧
      ∃ c s, (play (eventSent (creation none) { failAck := true })).2.inbox? 0 = some (c, s) ∧
        c.policy = .ofTopic c.topic ∧ c.handler.Validates ∧
        PublishersOnly (play (eventSent (creation none) { failAck := true })).1 c.topic ∧
        (takings (play (eventSent (creation none) { failAck := true })).1
          (.consumer 0)).length = 1 ∧
        c.phase.hand? = none ∧
        (play (eventSent (creation none) { failAck := true })).2.system.host.broker.acked = 0) ∧
    (Runs (play (eventSent leapEvent {})).1 (play (eventSent leapEvent {})).2 ∧
      ∃ c s, (play (eventSent leapEvent {})).2.inbox? 0 = some (c, s) ∧
        c.policy = .ofTopic c.topic ∧ c.handler.Validates ∧
        PublishersOnly (play (eventSent leapEvent {})).1 c.topic ∧
        Submitted (play (eventSent leapEvent {})).1 0 ⟨0, leapEvent⟩ ∧
        c.seen = [.change leapEvent.asRead] ∧ leapEvent.asRead ≠ leapEvent) := by
  refine ⟨⟨play_runs _, by rfl, (eventServed (creation none)).1, (eventServed (creation none)).2,
    by rfl, rfl, HandlerPlan.validates_handler 0, publishersOnly_of_all (by rfl), by rfl, rfl,
    by rfl⟩, ?_⟩
  have called : (play (eventSent leapEvent {})).1[6]? =
      some (happening (.agent (.call 0)) ((eventSent leapEvent {}).drop 7)) := by rfl
  have valid : leapEvent.validate = .ok () := by rfl
  exact ⟨play_runs _, (eventServed leapEvent.asRead).1, (eventServed leapEvent.asRead).2, by rfl,
    rfl, HandlerPlan.validates_handler 0, publishersOnly_of_all (by rfl),
    ⟨⟨_, List.mem_of_getElem? called, rfl, none, by rfl⟩, valid⟩, rfl, by decide⟩

/-- Over a connection without faults the event was delivered, and it was acked. -/
theorem delivered_acked :
    (play (eventSent (creation none) {})).2.inbox? 0 = some (eventServed (creation none)) ∧
      0 ∈ (freed (play (eventSent (creation none) {})).1 (.consumer 0)).map Delivery.message ∧
      (∀ u ∈ (play (eventSent (creation none) {})).1,
        u.action = .agent (.consumer 0) → u.OnlyAcks 0) ∧
      (play (eventSent (creation none) {})).2.system.host.broker.acked = 1 := by
  have inbox : (play (eventSent (creation none) {})).2.inbox? 0 =
      some (eventServed (creation none)) := by rfl
  obtain ⟨-, -, -, -, steps, done⟩ :=
    published_taken_acked (play_runs (eventSent (creation none) {})) inbox
      (HandlerPlan.validates_handler 0) (publishersOnly_of_all (by rfl))
  have arrival : ∃ u ∈ (play (eventSent (creation none) {})).1, u.Arrives 0 0 := by
    let earlier := (eventSent (creation none) {}).drop 5
    have made : (play (eventSent (creation none) {})).1[4]? =
        some (happening (.agent (.worker 0)) earlier) := by rfl
    refine ⟨_, List.mem_of_getElem? made, { (eventServed (creation none)).1 with seen := [] },
      (eventServed (creation none)).2, (creation none).write, by rfl, rfl, by rfl, by rfl,
      .inr (by rfl)⟩
  obtain ⟨u, hu, arrives⟩ := arrival
  refine ⟨inbox, ?_, steps, by rfl⟩
  rcases done (by rfl) nofun with ⟨timer, waits, -⟩ | all
  · cases waits
  · exact all u hu 0 arrives

end Script

end ChangeDispatch
