import ChangeDispatch.Proofs.Broker.Touch

/-!
# Publishing

A publish that succeeds is added to the log and offered to every subscription on its
topic; one that fails changes nothing but counters.
-/
namespace ChangeDispatch

namespace Subscription

/-- What a subscription makes of a message that is published. -/
def receive (topic : String) (d : Delivery) (s : Subscription) : Subscription :=
  if s.attached && s.topic == topic then s.arrive d else s

end Subscription

namespace Host

/-- A message is put on a topic: it is offered to the subscriptions there. -/
structure Puts (topic : String) (payload : Payload) (h k : Host) : Prop where
  subscriptions : k.broker.subscriptions =
    h.broker.subscriptions.map (·.receive topic ⟨h.broker.messages, payload, 1⟩)
  messages : k.broker.messages = h.broker.messages + 1
  published : k.broker.published = h.broker.published ++ [(topic, payload)]
  faults : k.faults = h.faults
  now : k.now = h.now

/-- Nothing changes but counters, what the broker was told to fail, timers and the journal. -/
structure Still (h k : Host) : Prop where
  subscriptions : k.broker.subscriptions = h.broker.subscriptions
  messages : k.broker.messages = h.broker.messages
  published : k.broker.published = h.broker.published
  faults : k.faults = h.faults
  now : k.now = h.now

namespace Still

variable {h k l : Host}

@[refl] theorem refl (h : Host) : Still h h := ⟨rfl, rfl, rfl, rfl, rfl⟩

theorem trans (hk : Still h k) (kl : Still k l) : Still h l where
  subscriptions := kl.subscriptions.trans hk.subscriptions
  messages := kl.messages.trans hk.messages
  published := kl.published.trans hk.published
  faults := kl.faults.trans hk.faults
  now := kl.now.trans hk.now

theorem adjusts (hk : Still h k) (i : Nat) : Adjusts i id h k :=
  .of_eq hk.subscriptions hk.messages hk.published hk.faults hk.now

theorem of_adjusts {i : Nat} (a : Adjusts i id h k) : Still h k :=
  ⟨by rw [a.subscriptions, List.modify_id], a.messages, a.published, a.faults, a.now⟩

end Still

theorem Puts.still {topic : String} {payload : Payload} {h k l : Host} (p : Puts topic payload h k)
    (s : Still k l) : Puts topic payload h l where
  subscriptions := s.subscriptions.trans p.subscriptions
  messages := s.messages.trans p.messages
  published := s.published.trans p.published
  faults := s.faults.trans p.faults
  now := s.now.trans p.now

variable (h : Host)

theorem still_note (notice : Notice) : Still h (h.note notice) := ⟨rfl, rfl, rfl, rfl, rfl⟩

theorem still_setTimer (delay : Nat) : Still h (h.setTimer delay).2 := ⟨rfl, rfl, rfl, rfl, rfl⟩

theorem still_beginReceive : Still h h.beginReceive.2 := .of_adjusts (h.adjusts_beginReceive 0)

theorem still_of_beginReceive {k : Host} {e : Option TransportError}
    (hb : h.beginReceive = (e, k)) : Still h k := by
  have begun := h.still_beginReceive
  rwa [hb] at begun

theorem publish_cases (topic : String) (payload : Payload) :
    (∃ k, h.publish topic payload = (.ok (), k) ∧ Puts topic payload h k) ∨
      ∃ e k, h.publish topic payload = (.error e, k) ∧ Still h k := by
  unfold Host.publish Broker.publish
  by_cases hc : h.broker.closed
  · rw [if_pos hc]
    exact .inr ⟨_, _, rfl, .refl h⟩
  · rw [if_neg hc]
    dsimp only
    cases h.broker.failPublishes with
    | succ n => exact .inr ⟨_, _, rfl, rfl, rfl, rfl, rfl, rfl⟩
    | zero => exact .inl ⟨_, rfl, rfl, rfl, rfl, rfl, rfl⟩

/-- To publish settles nothing. -/
theorem acked_publish (topic : String) (payload : Payload) :
    (h.publish topic payload).2.broker.acked = h.broker.acked := by
  unfold Host.publish Broker.publish
  by_cases hc : h.broker.closed
  · rw [if_pos hc]
  · rw [if_neg hc]
    dsimp only
    cases h.broker.failPublishes <;> rfl

theorem puts_of_publish {k : Host} {topic : String} {payload : Payload}
    (hp : h.publish topic payload = (.ok (), k)) : Puts topic payload h k := by
  rcases h.publish_cases topic payload with ⟨k', he, p⟩ | ⟨e, k', he, -⟩
  · obtain ⟨-, rfl⟩ := Prod.mk.inj (hp.symm.trans he)
    exact p
  · cases hp.symm.trans he

theorem still_of_publish {k : Host} {topic : String} {payload : Payload} {e : TransportError}
    (hp : h.publish topic payload = (.error e, k)) : Still h k := by
  rcases h.publish_cases topic payload with ⟨k', he, -⟩ | ⟨e', k', he, s⟩
  · cases hp.symm.trans he
  · obtain ⟨-, rfl⟩ := Prod.mk.inj (hp.symm.trans he)
    exact s

end Host

end ChangeDispatch
