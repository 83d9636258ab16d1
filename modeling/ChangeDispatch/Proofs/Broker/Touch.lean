import ChangeDispatch.Broker.Host

/-!
# Working on one subscription

To receive from a subscription, to settle one of its deliveries or to give it up changes
this subscription only; to make a new one leaves all others. Nothing is published and no
time passes.
-/
namespace ChangeDispatch.Host

/-- One subscription of the broker is changed by `f`; the rest stays, but for counters, what
the broker was told to fail, timers and the journal. -/
structure Adjusts (i : Nat) (f : Subscription → Subscription) (h k : Host) : Prop where
  subscriptions : k.broker.subscriptions = h.broker.subscriptions.modify i f
  messages : k.broker.messages = h.broker.messages
  published : k.broker.published = h.broker.published
  faults : k.faults = h.faults
  now : k.now = h.now

/-- At most one subscription of the broker is changed. -/
def Touches (i : Nat) (h k : Host) : Prop := ∃ f, Adjusts i f h k

namespace Adjusts

variable {i : Nat} {f g : Subscription → Subscription} {h k l : Host}

theorem trans (hk : Adjusts i f h k) (kl : Adjusts i g k l) : Adjusts i (g ∘ f) h l where
  subscriptions := by rw [kl.subscriptions, hk.subscriptions, List.modify_modify_eq]
  messages := kl.messages.trans hk.messages
  published := kl.published.trans hk.published
  faults := kl.faults.trans hk.faults
  now := kl.now.trans hk.now

theorem after (hk : Adjusts i id h k) (kl : Adjusts i f k l) : Adjusts i f h l := hk.trans kl

theorem before (hk : Adjusts i f h k) (kl : Adjusts i id k l) : Adjusts i f h l := hk.trans kl

/-- The subscriptions stay as they are. -/
theorem of_eq (subscriptions : k.broker.subscriptions = h.broker.subscriptions)
    (messages : k.broker.messages = h.broker.messages)
    (published : k.broker.published = h.broker.published)
    (faults : k.faults = h.faults) (now : k.now = h.now) : Adjusts i id h k :=
  ⟨by rw [subscriptions, List.modify_id], messages, published, faults, now⟩

theorem refl (h : Host) : Adjusts i id h h := of_eq rfl rfl rfl rfl rfl

theorem touches (a : Adjusts i f h k) : Touches i h k := ⟨f, a⟩

theorem getElem? (a : Adjusts i f h k) :
    k.broker.subscriptions[i]? = (h.broker.subscriptions[i]?).map f := by
  rw [a.subscriptions, List.getElem?_modify_eq]
  rfl

end Adjusts

namespace Touches

variable {i : Nat} {h k l : Host}

theorem trans (hk : Touches i h k) (kl : Touches i k l) : Touches i h l := by
  obtain ⟨f, hf⟩ := hk
  obtain ⟨g, hg⟩ := kl
  exact ⟨g ∘ f, hf.trans hg⟩

/-- Every other subscription stays as it is. -/
theorem getElem? (t : Touches i h k) {j : Nat} (hj : j ≠ i) :
    k.broker.subscriptions[j]? = h.broker.subscriptions[j]? := by
  obtain ⟨f, hf⟩ := t
  have hne : i ≠ j := hj.symm
  simp [hf.subscriptions, hne]

theorem length_eq (t : Touches i h k) :
    k.broker.subscriptions.length = h.broker.subscriptions.length := by
  obtain ⟨f, hf⟩ := t
  rw [hf.subscriptions, List.length_modify]

end Touches

variable (i : Nat) (h : Host) (d : Delivery)

theorem adjusts_note (notice : Notice) : Adjusts i id h (h.note notice) :=
  .of_eq rfl rfl rfl rfl rfl

theorem adjusts_noteError {α : Type} (result : Except α Unit) (notice : α → Notice) :
    Adjusts i id h (h.noteError result notice) := by
  cases result with
  | ok _ => exact .refl h
  | error e => exact h.adjusts_note i (notice e)

theorem adjusts_setTimer (delay : Nat) : Adjusts i id h (h.setTimer delay).2 :=
  .of_eq rfl rfl rfl rfl rfl

theorem adjusts_beginReceive : Adjusts i id h h.beginReceive.2 := by
  unfold Host.beginReceive Broker.beginReceive
  cases h.broker.failReceives with
  | zero => exact .refl h
  | succ n => exact .of_eq rfl rfl rfl rfl rfl

/-- An offer is let go of by every settlement that does not hand it back, and also by those
that fail. -/
theorem adjusts_ack : Adjusts i (·.release d) h (h.ack i d).2 := by
  unfold Host.ack settle
  split <;> exact ⟨rfl, rfl, rfl, rfl, rfl⟩

theorem adjusts_terminate : Adjusts i (·.release d) h (h.terminate i d).2 := by
  unfold Host.terminate settle
  split <;> exact ⟨rfl, rfl, rfl, rfl, rfl⟩

theorem adjusts_nack (delay : Duration) :
    Adjusts i (·.release d) h (h.nack i d delay).2 ∨
      ∃ timer, Adjusts i (·.handBack d timer) h (h.nack i d delay).2 := by
  unfold Host.nack settle
  split
  · split
    · exact .inl ⟨rfl, rfl, rfl, rfl, rfl⟩
    · exact .inr ⟨none, rfl, rfl, rfl, rfl, rfl⟩
  · dsimp only
    split
    · exact .inl ⟨rfl, rfl, rfl, rfl, rfl⟩
    · exact .inr ⟨some (h.setTimer delay.ticks).1, rfl, rfl, rfl, rfl, rfl⟩

theorem touches_nack (delay : Duration) : Touches i h (h.nack i d delay).2 := by
  rcases h.adjusts_nack i d delay with a | ⟨timer, a⟩
  · exact a.touches
  · exact a.touches

theorem adjusts_stopReceiving : Adjusts i Subscription.stopReceiving h (h.stopReceiving i) :=
  ⟨rfl, rfl, rfl, rfl, rfl⟩

/-- A delivery that was received was the first in the channel, and is held afterwards. -/
theorem take?_eq_some {h k : Host} {i : Nat} {d : Delivery} (ht : h.take? i = some (d, k)) :
    ∃ s channel, h.broker.subscriptions[i]? = some s ∧ s.channel = d :: channel ∧
      k = { h with
        broker := h.broker.adjust i fun _ => { s with channel, held := s.held ++ [d] } } := by
  obtain ⟨⟨d', b⟩, hb, he⟩ := Option.map_eq_some_iff.mp ht
  obtain ⟨rfl, rfl⟩ := Prod.mk.inj he
  unfold Broker.take? at hb
  obtain ⟨s, hs, hb⟩ := Option.bind_eq_some_iff.mp hb
  obtain ⟨⟨d'', s'⟩, hd, hb⟩ := Option.bind_eq_some_iff.mp hb
  obtain ⟨rfl, rfl⟩ := Prod.mk.inj (Option.some.inj hb)
  unfold Subscription.take? at hd
  split at hd
  · cases hd
  next d channel hc =>
    obtain ⟨rfl, rfl⟩ := Prod.mk.inj (Option.some.inj hd)
    exact ⟨s, channel, hs, hc, rfl⟩

theorem getElem?_take? {h k : Host} {i : Nat} {d : Delivery} (ht : h.take? i = some (d, k))
    {s : Subscription} (hs : h.broker.subscriptions[i]? = some s) :
    ∃ channel, s.channel = d :: channel ∧
      k.broker.subscriptions[i]? = some { s with channel, held := s.held ++ [d] } := by
  obtain ⟨s', channel, hs', hc, rfl⟩ := take?_eq_some ht
  obtain rfl := Option.some.inj (hs.symm.trans hs')
  exact ⟨channel, hc, by simp [Broker.adjust, hs]⟩

theorem exists_take? {h : Host} {i : Nat} {s : Subscription}
    (hs : h.broker.subscriptions[i]? = some s) (offered : s.channel ≠ []) :
    ∃ d k, h.take? i = some (d, k) := by
  obtain ⟨d, channel, hch⟩ := List.exists_cons_of_ne_nil offered
  simp [Host.take?, Broker.take?, hs, Subscription.take?, hch]

theorem channel_eq_nil {h : Host} {i : Nat} {s : Subscription}
    (hs : h.broker.subscriptions[i]? = some s) (none : h.take? i = none) : s.channel = [] := by
  refine Decidable.byContradiction fun offered => ?_
  obtain ⟨d, k, ht⟩ := exists_take? hs offered
  cases none.symm.trans ht

theorem adjusts_take? {h k : Host} {i : Nat} {d : Delivery} (ht : h.take? i = some (d, k)) :
    ∃ s channel, h.broker.subscriptions[i]? = some s ∧ s.channel = d :: channel ∧
      Adjusts i (fun _ => { s with channel, held := s.held ++ [d] }) h k := by
  obtain ⟨s, channel, hs, waiting, rfl⟩ := take?_eq_some ht
  exact ⟨s, channel, hs, waiting, rfl, rfl, rfl, rfl, rfl⟩

theorem touches_take? {h k : Host} {i : Nat} {d : Delivery} (ht : h.take? i = some (d, k)) :
    Touches i h k := by
  obtain ⟨s, channel, -, -, taken⟩ := adjusts_take? ht
  exact taken.touches

/-- A new subscription is the last, and nothing has arrived at it. -/
theorem subscribe_cases (config : SubscriptionConfig) :
    h.broker.closed = false ∧
      h.subscribe config = (.ok h.broker.subscriptions.length,
        { h with broker := { h.broker with
          subscriptions := h.broker.subscriptions ++ [{ toSubscriptionConfig := config }] } }) ∨
    ∃ e, h.subscribe config = (.error e, h) := by
  unfold Host.subscribe Broker.subscribe
  by_cases hc : h.broker.closed
  · rw [if_pos hc]
    exact .inr ⟨_, rfl⟩
  · rw [if_neg hc]
    by_cases hf : h.broker.failSubscriptions
    · rw [if_pos hf]
      exact .inr ⟨_, rfl⟩
    · rw [if_neg hf]
      exact .inl ⟨by simpa using hc, rfl⟩

theorem subscribe_ok {h k : Host} {config : SubscriptionConfig} {i : Nat}
    (hs : h.subscribe config = (.ok i, k)) :
    h.broker.closed = false ∧ i = h.broker.subscriptions.length ∧
    k = { h with broker := { h.broker with
      subscriptions := h.broker.subscriptions ++ [{ toSubscriptionConfig := config }] } } := by
  rcases h.subscribe_cases config with ⟨hc, ho⟩ | ⟨e, ho⟩
  · obtain ⟨hi, hk⟩ := Prod.mk.inj (hs.symm.trans ho)
    exact ⟨hc, Except.ok.inj hi, hk⟩
  · cases hs.symm.trans ho

theorem subscribe_error {h k : Host} {config : SubscriptionConfig} {e : TransportError}
    (hs : h.subscribe config = (.error e, k)) : k = h := by
  rcases h.subscribe_cases config with ⟨-, ho⟩ | ⟨e, ho⟩
  · cases hs.symm.trans ho
  · exact (Prod.mk.inj (hs.symm.trans ho)).2

end ChangeDispatch.Host
