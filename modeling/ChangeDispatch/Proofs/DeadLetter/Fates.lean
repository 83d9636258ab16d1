import ChangeDispatch.Proofs.Broker.Outstanding
import ChangeDispatch.Proofs.DeadLetter.Step

/-!
# What becomes of a message

A message that a consumer has received stays with its subscription until it was handled or
copied, and acked. There is one way out besides: the copy fails on a delivery after which
the broker makes no other. No bound of the consumer prevents that, as it hands the message
back and the broker drops it.
-/
namespace ChangeDispatch

open Host (Adjusts Still Puts)

/-- How a consumer is done with a message. -/
inductive Fate where
  | handled
  | copied
  | lost
  deriving DecidableEq, Repr

namespace Consumer

/-- In a step from `k` on `h` to `k'` on `l`, a consumer is done with a delivery. -/
inductive Ends (h : Host) (k : Consumer) (l : Host) (k' : Consumer) (d : Delivery) :
    Fate → Prop where
  /-- The handler was successful and the delivery is acked. -/
  | handled {message : Message} {timer : Timer} :
      k.phase = .handling d message timer → k'.phase.hand? = none →
      k.handler.answer (k.seen.length - 1) message = .ok () →
      l.broker.acked = h.broker.acked + 1 → Ends h k l k' d .handled
  /-- A copy is published and the delivery is acked. -/
  | copied :
      k.phase.toBury? = some d → k'.phase.hand? = none →
      l.broker.published = h.broker.published ++ [(k.policy.deadLetterTopic, d.payload)] →
      l.broker.acked = h.broker.acked + 1 → Ends h k l k' d .copied
  /-- No copy is published, on a delivery that is the last. -/
  | lost :
      k.phase.toBury? = some d → k'.phase.hand? = none →
      l.broker.published = h.broker.published → k.policy.maxDeliveries ≤ d.number →
      Ends h k l k' d .lost

theorem hand?_of_toBury? {φ : Phase} {d : Delivery} (h : φ.toBury? = some d) :
    φ.hand? = some d := by
  cases φ <;> first | exact h | cases h

namespace Ends

variable {h l : Host} {k k' : Consumer} {d e : Delivery} {f g : Fate}

theorem hand? (ends : Ends h k l k' d f) : k.phase.hand? = some d ∧ k'.phase.hand? = none := by
  cases ends with
  | handled hp hk _ _ => exact ⟨by rw [hp]; rfl, hk⟩
  | copied hp hk _ _ => exact ⟨hand?_of_toBury? hp, hk⟩
  | lost hp hk _ _ => exact ⟨hand?_of_toBury? hp, hk⟩

theorem unique (hf : Ends h k l k' d f) (hg : Ends h k l k' e g) : f = g := by
  have unpublished : ∀ {p : String × Payload},
      l.broker.published = h.broker.published ++ [p] → l.broker.published ≠ h.broker.published := by
    intro p hp he
    simpa using hp.symm.trans he
  cases hf with
  | handled hp _ _ _ =>
    cases hg with
    | handled _ _ _ _ => rfl
    | copied hb _ _ _ => rw [hp] at hb; cases hb
    | lost hb _ _ _ => rw [hp] at hb; cases hb
  | copied hb _ hpub _ =>
    cases hg with
    | handled hp _ _ _ => rw [hp] at hb; cases hb
    | copied _ _ _ _ => rfl
    | lost _ _ hnot _ => exact absurd hnot (unpublished hpub)
  | lost hb _ hnot _ =>
    cases hg with
    | handled hp _ _ _ => rw [hp] at hb; cases hb
    | copied _ _ hpub _ => exact absurd hnot (unpublished hpub)
    | lost _ _ _ _ => rfl

end Ends

/-- A consumer and its subscription: what it has in hand is held there, and it receives
until nothing is left and nothing can come. -/
structure Attends (k : Consumer) (s : Subscription) : Prop where
  topic : s.topic = k.topic
  bound : s.maxDeliveries = some k.policy.maxDeliveries
  held : s.held = k.phase.hand?.toList
  receiving : k.phase ≠ .ended → s.receiving
  ended : k.phase = .ended → s.attached = false ∧ s.copies = []

theorem Attends.isLast {k : Consumer} {s : Subscription} (att : Attends k s) (d : Delivery) :
    s.isLast d = decide (k.policy.maxDeliveries ≤ d.number) := by
  unfold Subscription.isLast
  rw [att.bound]
  rfl

namespace Attends

variable {k : Consumer} {s : Subscription} {d : Delivery}

theorem held_eq (att : Attends k s) (hd : k.phase.hand? = some d) : s.held = [d] := by
  rw [att.held, hd]
  rfl

theorem receives (att : Attends k s) (hd : k.phase.hand? = some d) : s.receiving :=
  att.receiving fun he => by rw [he] at hd; cases hd

/-- The delivery in hand is let go of. -/
theorem release (att : Attends k s) (hd : k.phase.hand? = some d) :
    Attends { k with phase := .ready } (s.release d) ∧
      s.copies.Perm (d.copy :: (s.release d).copies) := by
  have held := att.held_eq hd
  refine ⟨⟨att.topic, att.bound, ?_, fun _ => att.receives hd, fun he => (nomatch he)⟩,
    Subscription.copies_release (held ▸ List.mem_singleton.mpr rfl)⟩
  unfold Subscription.release
  rw [held]
  exact List.erase_cons_head d []

/-- The delivery in hand is handed back, and there can be another one. -/
theorem handBack (att : Attends k s) (hd : k.phase.hand? = some d)
    (hn : d.number < k.policy.maxDeliveries) :
    Attends { k with phase := .ready } (s.handBack d none) ∧
      (s.handBack d none).copies.Perm s.copies := by
  have notLast : s.isLast d = false := by
    rw [att.isLast, decide_eq_false_iff_not]
    exact Nat.not_le_of_lt hn
  obtain ⟨config, held, receiving, -⟩ := Subscription.config_handBack s d none
  have released := (att.release hd).1
  refine ⟨⟨?_, ?_, held.trans released.held, fun _ => ?_, fun he => (nomatch he)⟩, ?_⟩
  · exact (congrArg SubscriptionConfig.topic config).trans att.topic
  · exact (congrArg SubscriptionConfig.maxDeliveries config).trans att.bound
  · exact receiving.trans (att.receives hd)
  · exact Subscription.copies_handBack (att.held_eq hd ▸ List.mem_singleton.mpr rfl)
      (att.receives hd) notLast none

end Attends

/-- A step of a consumer, as its subscription shows it: a message leaves exactly if the
consumer is done with it. -/
structure Accounted (h : Host) (k : Consumer) (l : Host) (k' : Consumer) (s s' : Subscription) :
    Prop where
  found : l.broker.subscriptions[k.subscription]? = some s'
  attends : Attends k' s'
  done : ∀ d f, Ends h k l k' d f → s.copies.Perm (d.copy :: s'.copies)
  kept : (∃ d f, Ends h k l k' d f) ∨ s'.copies.Perm s.copies

variable {h l : Host} {k k' : Consumer} {s : Subscription}

theorem accounted_finished (att : Attends k s)
    (hs : h.broker.subscriptions[k.subscription]? = some s) (hd : k.phase.hand? = none)
    (he : h.broker.isEnded k.subscription)
    (a : Adjusts k.subscription Subscription.stopReceiving h l) :
    Accounted h k l { k with phase := .ended } s s.stopReceiving := by
  unfold Broker.isEnded at he
  rw [hs] at he
  unfold Option.elim Subscription.isEnded at he
  simp only [Bool.and_eq_true, Bool.not_eq_true', List.isEmpty_iff] at he
  obtain ⟨⟨⟨unattached, channel⟩, held⟩, delayed⟩ := he
  have nothing : s.copies = [] := by
    rw [s.copies_eq, channel, held, delayed]
    rfl
  have nothing' : s.stopReceiving.copies = [] := by
    rw [Subscription.copies_eq]
    unfold Subscription.stopReceiving
    rw [held, delayed]
    rfl
  refine ⟨by rw [a.getElem?, hs]; rfl, ⟨att.topic, att.bound, ?_, fun hn => absurd rfl hn,
    fun _ => ⟨unattached, nothing'⟩⟩, fun d f ends => ?_, .inr ?_⟩
  · exact held
  · cases hd.symm.trans ends.hand?.1
  · rw [nothing, nothing']

theorem accounted_received (att : Attends k s)
    (hs : h.broker.subscriptions[k.subscription]? = some s) {d : Delivery} {m : Host}
    {seen : List Message} {phase : Phase} (hp : k.phase = .waiting)
    (ht : h.take? k.subscription = some (d, l)) (hd : phase.hand? = some d) (st : Still l m) :
    ∃ s', Accounted h k m { k with seen, phase } s s' := by
  obtain ⟨channel, hch, found⟩ := Host.getElem?_take? ht hs
  have none : k.phase.hand? = none := by rw [hp]; rfl
  have held : s.held ++ [d] = phase.hand?.toList := by
    rw [att.held, none, hd]
    rfl
  rw [← st.subscriptions] at found
  refine ⟨_, found, ⟨att.topic, att.bound, held, fun _ => ?_, fun he => ?_⟩,
    fun e f ends => ?_, .inr (Subscription.copies_take hch)⟩
  · exact att.receiving (by rw [hp]; simp)
  · rw [show phase = .ended from he] at hd
    cases hd
  · cases none.symm.trans ends.hand?.1

/-- What a consumer does not finish, its subscription keeps. -/
theorem Step.accounted (step : Step h k l k') (att : Attends k s)
    (hs : h.broker.subscriptions[k.subscription]? = some s) (running : k.stopping = false)
    (ht : k.policy.deadLetterTopic ≠ k.topic) (ack : h.faults.failAck = false)
    (nack : h.faults.failNack = false) : ∃ s', Accounted h k l k' s s' := by
  cases step with
  | moved hne hd hne' st =>
    refine ⟨s, by rw [st.subscriptions, hs], ⟨att.topic, att.bound, ?_, fun _ => att.receiving hne,
      fun he => absurd he hne'⟩, fun d f ends => ?_, .inr (List.Perm.refl _)⟩
    · exact att.held.trans (congrArg Option.toList hd.symm)
    · cases ends.hand?.1.symm.trans (hd.symm.trans ends.hand?.2)
  | finished hd he a =>
    refine ⟨_, accounted_finished att hs hd (he.resolve_left ?_) a⟩
    rw [running]
    exact Bool.false_ne_true
  | received hp htake hd st => exact accounted_received att hs hp htake hd st
  | @handled d message timer _ hp ha a =>
    have hd : k.phase.hand? = some d := by rw [hp]; rfl
    obtain ⟨att', perm⟩ := att.release hd
    have ends : Ends h k l { k with phase := .ready } d .handled :=
      .handled hp rfl ha (a.counted ack)
    refine ⟨_, by rw [a.adjusts.getElem?, hs]; rfl, att', fun e f he => ?_, .inl ⟨d, _, ends⟩⟩
    obtain rfl := Option.some.inj (hd.symm.trans he.hand?.1)
    exact perm
  | @rejected d message timer _ e hp ha hn b =>
    have hd : k.phase.hand? = some d := by rw [hp]; rfl
    obtain ⟨att', perm⟩ := att.handBack hd hn
    refine ⟨_, by rw [(b.adjusts nack).getElem?, hs]; rfl, att', fun e f ends => ?_, .inr perm⟩
    cases ends with
    | handled hp' _ ha' _ =>
      obtain ⟨rfl, rfl, rfl⟩ := Phase.handling.inj (hp.symm.trans hp')
      cases ha.symm.trans ha'
    | copied hb _ _ _ => rw [hp] at hb; cases hb
    | lost hb _ _ _ => rw [hp] at hb; cases hb
  | @buried d m _ hb p acked a =>
    have hd := hand?_of_toBury? hb
    obtain ⟨att', perm⟩ := att.release hd
    have untouched : m.broker.subscriptions[k.subscription]? = some s := by
      rw [p.subscriptions, List.getElem?_map, hs]
      simp [Subscription.receive, att.topic, ht.symm]
    have counted := (a.counted (p.faults ▸ ack)).trans (congrArg (· + 1) acked)
    have ends : Ends h k l { k with phase := .ready } d .copied :=
      .copied hb rfl (a.adjusts.published.trans p.published) counted
    refine ⟨_, by rw [a.adjusts.getElem?, untouched]; rfl, att', fun e f he => ?_,
      .inl ⟨d, _, ends⟩⟩
    obtain rfl := Option.some.inj (hd.symm.trans he.hand?.1)
    exact perm
  | @unburied d m _ hb st b =>
    have hd := hand?_of_toBury? hb
    have a := (b.adjusts (st.faults ▸ nack))
    have found : l.broker.subscriptions[k.subscription]? = some (s.handBack d none) := by
      rw [a.getElem?, st.subscriptions, hs]
      rfl
    have unpublished : l.broker.published = h.broker.published := a.published.trans st.published
    by_cases hn : d.number < k.policy.maxDeliveries
    · obtain ⟨att', perm⟩ := att.handBack hd hn
      refine ⟨_, found, att', fun e f ends => ?_, .inr perm⟩
      obtain rfl := Option.some.inj (hd.symm.trans ends.hand?.1)
      cases ends with
      | handled hp _ _ _ => rw [hp] at hb; cases hb
      | copied _ _ hpub _ => simpa using unpublished.symm.trans hpub
      | lost _ _ _ hle => omega
    · -- the broker lets go of the message with its last delivery
      have last : s.isLast d := by
        rw [att.isLast]
        exact decide_eq_true (Nat.le_of_not_lt hn)
      obtain ⟨att', perm⟩ := att.release hd
      have ends : Ends h k l { k with phase := .ready } d .lost :=
        .lost hb rfl unpublished (Nat.le_of_not_lt hn)
      refine ⟨_, Subscription.copies_handBack_last last none ▸ found, att', fun e f he => ?_,
        .inl ⟨d, _, ends⟩⟩
      obtain rfl := Option.some.inj (hd.symm.trans he.hand?.1)
      exact perm

theorem Step.same (step : Step h k l k') :
    k'.subscription = k.subscription ∧ k'.stopping = k.stopping ∧ k'.policy = k.policy ∧
      k'.topic = k.topic := by
  cases step <;> exact ⟨rfl, rfl, rfl, rfl⟩

/-- A consumer publishes on its dead-letter topic only. -/
theorem Step.published (step : Step h k l k') :
    l.broker.published = h.broker.published ∨
      ∃ payload,
        l.broker.published = h.broker.published ++ [(k.policy.deadLetterTopic, payload)] := by
  cases step with
  | moved _ _ _ st => exact .inl st.published
  | finished _ _ a => exact .inl a.published
  | received _ ht _ st =>
    obtain ⟨f, a⟩ := Host.touches_take? ht
    exact .inl (st.published.trans a.published)
  | handled _ _ a => exact .inl a.adjusts.published
  | rejected _ _ _ b => exact .inl (b.touches.elim Adjusts.published Adjusts.published)
  | buried _ p _ a => exact .inr ⟨_, a.adjusts.published.trans p.published⟩
  | unburied _ st b =>
    exact .inl ((b.touches.elim Adjusts.published Adjusts.published).trans st.published)

end Consumer

end ChangeDispatch
