import ChangeDispatch.Proofs.DeadLetter.Losses
import ChangeDispatch.Proofs.Settlement.Steps

/-!
# Consumers that take every message

Where the handler of a consumer takes every message that is put on its topic, the consumer
only ever acks. No message is delivered twice, so what it was offered are the first deliveries
of these messages in their order, and its handler is called once for each that it has taken.
An ack that fails is not repeated; the delivery is let go of all the same.
-/
namespace ChangeDispatch

open Host (Adjusts Still Counts)

/-- The payload holds a message that the handler takes, whenever it is called. -/
def Handler.Approves (handler : Handler) (payload : Payload) : Prop :=
  ∃ message, handler.decode payload = .ok message ∧ ∀ n, handler.answer n message = .ok ()

namespace Consumer

/-- What the consumer has in hand is with its handler, which takes it. -/
def AtEase (c : Consumer) : Prop :=
  ∀ d, c.phase.hand? = some d →
    ∃ message timer, c.phase = .handling d message timer ∧ ∀ n, c.handler.answer n message = .ok ()

/-- A step of a consumer whose handler takes every message. -/
inductive Approving (h : Host) (c : Consumer) : Host → Consumer → Prop where
  | rested {l : Host} {phase : Phase} :
      c.taking? h = none → c.phase.hand? = none → c.phase ≠ .ended → phase.hand? = none →
      Still h l → Counts [] h l → Approving h c l { c with phase }
  | finished {l : Host} :
      c.taking? h = none → c.phase.hand? = none →
      Adjusts c.subscription Subscription.stopReceiving h l → Counts [] h l →
      Approving h c l { c with phase := .ended }
  | called {d : Delivery} {message : Message} {timer : Timer} {l m : Host} :
      c.phase = .waiting → c.taking? h = some d → h.take? c.subscription = some (d, l) →
      c.handler.decode d.payload = .ok message → (∀ n, c.handler.answer n message = .ok ()) →
      Still l m → Counts [] h m →
      Approving h c m { c with seen := c.seen ++ [message], phase := .handling d message timer }
  | acked {d : Delivery} {l : Host} :
      c.taking? h = none → c.phase.hand? = some d → Adjusts c.subscription (·.release d) h l →
      Counts (if h.faults.failAck then [] else [.acked]) h l →
      Approving h c l { c with phase := .ready }

theorem approving_of_step? {h l : Host} {c c' : Consumer} (hs : c.step? h = some (l, c'))
    (ease : c.AtEase)
    (approves : ∀ d m, h.take? c.subscription = some (d, m) → c.handler.Approves d.payload) :
    Approving h c l c' := by
  have begun := h.still_beginReceive
  have counts := h.counts_beginReceive
  cases turn_of_step? hs with
  | stopping phase told =>
    have hand : c.phase.hand? = none := by rcases phase with phase | phase <;> rw [phase] <;> rfl
    exact .finished (taking?_eq_none (.inr told)) hand (h.adjusts_stopReceiving _)
      (h.counts_stopReceiving _)
  | asking ready _ asked =>
    rw [asked] at begun counts
    exact .rested (taking?_eq_none (.inl (by simp [ready]))) (by rw [ready]; rfl) (by simp [ready])
      rfl begun counts
  | @failing e h' ready _ refused =>
    rw [refused] at begun counts
    have hand : c.phase.hand? = none := by rw [ready]; rfl
    have stays : Approving h c _ { c with phase := c.phase } :=
      .rested (taking?_eq_none (.inl (by simp [ready]))) hand (by simp [ready]) hand
        (begun.trans (h'.still_note (.receiveFailed c.topic e)))
        (counts.note (.receiveFailed c.topic e))
    exact stays
  | @taking d m waiting going taken =>
    obtain ⟨message, decoded, answered⟩ := approves d m taken
    obtain ⟨counts, -⟩ := Host.counts_take? taken
    unfold begin
    rw [decoded]
    exact .called waiting (by rw [taking?_eq waiting going, taken]; rfl) taken decoded answered
      (m.still_setTimer (c.handler.duration c.seen.length message))
      (counts.setTimer (c.handler.duration c.seen.length message))
  | ending waiting going nothing _ =>
    refine .finished (by rw [taking?_eq waiting going, nothing]; rfl) (by rw [waiting]; rfl) ?_ ?_
    · exact (h.adjusts_note _ _).after (Host.adjusts_stopReceiving _ _)
    · exact (h.counts_refl.note _).trans (Host.counts_stopReceiving _ _)
  | @concluding d message timer phase _ =>
    have hand : c.phase.hand? = some d := by rw [phase]; rfl
    obtain ⟨message', timer', phase', answered⟩ := ease d hand
    obtain ⟨-, rfl, rfl⟩ := Phase.handling.inj (phase.symm.trans phase')
    rw [answered]
    refine .acked (taking?_eq_none (.inl (by simp [phase]))) hand ?_ ?_
    · exact ((h.adjusts_ack _ d).before (Host.adjusts_noteError _ _ _ _)).before
        (Host.adjusts_note _ _ _)
    · exact ((h.counts_ack_cases c.subscription d).noteError _ _).note _
  | @delaying d phase _ =>
    -- a message that the handler takes is not copied
    obtain ⟨message, timer, handled, -⟩ := ease d (by rw [phase]; rfl)
    cases phase.symm.trans handled
  | @burying d buries =>
    rcases buries with ⟨phase, -⟩ | ⟨timer, phase, -⟩
    all_goals
      obtain ⟨message, timer, handled, -⟩ := ease d (by rw [phase]; rfl)
      cases phase.symm.trans handled

namespace Approving

variable {h l : Host} {c c' : Consumer}

theorem same (step : Approving h c l c') :
    c'.topic = c.topic ∧ c'.handler = c.handler ∧ c'.subscription = c.subscription := by
  cases step <;> exact ⟨rfl, rfl, rfl⟩

/-- Nothing is published. -/
theorem published (step : Approving h c l c') :
    l.broker.published = h.broker.published ∧ l.broker.messages = h.broker.messages := by
  cases step with
  | rested _ _ _ _ still _ => exact ⟨still.published, still.messages⟩
  | finished _ _ a _ => exact ⟨a.published, a.messages⟩
  | called _ _ received _ _ still _ =>
    obtain ⟨f, a⟩ := Host.touches_take? received
    exact ⟨still.published.trans a.published, still.messages.trans a.messages⟩
  | acked _ _ a _ => exact ⟨a.published, a.messages⟩

theorem atEase (step : Approving h c l c') : c'.AtEase := by
  intro d hand
  cases step with
  | rested _ _ _ none _ _ => cases none.symm.trans hand
  | finished _ _ _ _ => cases hand
  | @called d' message timer _ _ _ _ _ _ answered _ _ =>
    obtain rfl : d' = d := Option.some.inj hand
    exact ⟨message, timer, rfl, answered⟩
  | acked _ _ _ _ => cases hand

end Approving

/-- A delivery that was in hand and is no longer. -/
def Phase.freed? (before after : Phase) : Option Delivery :=
  if after.hand? = none then before.hand? else none

/-- A step as the subscription shows it: what is taken was the next to be offered, and goes
through the hand of the consumer. -/
structure Advances (h : Host) (c : Consumer) (l : Host) (c' : Consumer) (s s' : Subscription) :
    Prop where
  found : l.broker.subscriptions[c.subscription]? = some s'
  topic : s'.topic = s.topic
  delayed : s'.delayed = s.delayed
  receiving : c'.phase ≠ .ended → c.phase ≠ .ended ∧ s'.receiving = s.receiving
  channel : (c.taking? h).toList ++ s'.channel = s.channel ∨
    c'.phase = .ended ∧ c.taking? h = none ∧ s'.channel = []
  hands : (c.taking? h).toList ++ c.phase.hand?.toList =
    c'.phase.hand?.toList ++ (c.phase.freed? c'.phase).toList
  seen : c'.seen.map Except.ok =
    c.seen.map Except.ok ++ (c.taking? h).toList.map fun d => c.handler.decode d.payload
  counts : Counts (if h.faults.failAck then []
    else (c.phase.freed? c'.phase).toList.map fun _ => .acked) h l

theorem Approving.advances {h l : Host} {c c' : Consumer} {s : Subscription}
    (step : Approving h c l c') (hs : h.broker.subscriptions[c.subscription]? = some s) :
    ∃ s', Advances h c l c' s s' := by
  have counted : ∀ {φ ψ : Phase}, φ.freed? ψ = none → Counts [] h l →
      Counts (if h.faults.failAck then [] else (φ.freed? ψ).toList.map fun _ => .acked) h l := by
    intro φ ψ none counts
    rw [none]
    cases h.faults.failAck <;> exact counts
  have unfreed : ∀ {φ ψ : Phase}, φ.hand? = none → φ.freed? ψ = none := by
    intro φ ψ none
    unfold Phase.freed?
    rw [none]
    split <;> rfl
  cases step with
  | @rested _ phase idle hand going none still counts =>
    have freed := unfreed (ψ := phase) hand
    refine ⟨s, by rw [still.subscriptions, hs], rfl, rfl, fun _ => ⟨going, rfl⟩, .inl ?_, ?_, ?_,
      counted freed counts⟩
    · rw [idle]
      rfl
    · dsimp only
      rw [idle, hand, none, freed]
    · rw [idle]
      exact (List.append_nil _).symm
  | finished idle hand a counts =>
    have freed := unfreed (ψ := .ended) hand
    refine ⟨s.stopReceiving, by rw [a.getElem?, hs]; rfl, rfl, rfl, fun going => absurd rfl going,
      .inr ⟨rfl, idle, rfl⟩, ?_, ?_, counted freed counts⟩
    · dsimp only
      rw [idle, hand, freed]
      rfl
    · rw [idle]
      exact (List.append_nil _).symm
  | @called d message timer m _ waiting takes received decoded _ still counts =>
    have hand : c.phase.hand? = none := by rw [waiting]; rfl
    have freed := unfreed (ψ := .handling d message timer) hand
    obtain ⟨channel, first, found⟩ := Host.getElem?_take? received hs
    rw [← still.subscriptions] at found
    refine ⟨_, found, rfl, rfl, fun _ => ⟨by simp [waiting], rfl⟩, .inl ?_, ?_, ?_,
      counted freed counts⟩
    · rw [takes, first]
      rfl
    · dsimp only
      rw [takes, hand, freed]
      rfl
    · rw [takes, List.map_append]
      exact congrArg _ (congrArg (fun r => [r]) decoded.symm)
  | @acked d _ idle hand a counts =>
    have freed : c.phase.freed? .ready = some d := hand
    refine ⟨s.release d, by rw [a.getElem?, hs]; rfl, rfl, rfl, fun _ => ⟨?_, rfl⟩, .inl ?_, ?_, ?_,
      ?_⟩
    · intro ended
      rw [ended] at hand
      cases hand
    · rw [idle]
      rfl
    · dsimp only
      rw [idle, hand, freed]
      rfl
    · rw [idle]
      exact (List.append_nil _).symm
    · dsimp only
      rw [freed]
      exact counts

end Consumer

/-- Where nothing is held back, others can do no more to a channel than add what arrives. -/
theorem Subscription.Outside.channel {arriving : Payload → Prop} {now n : Nat}
    {s s' : Subscription} (out : Subscription.Outside arriving now n s s')
    (delayed : s.delayed = []) :
    s'.delayed = [] ∧ (s'.channel = s.channel ∨
      ∃ payload, arriving payload ∧ s'.channel = s.channel ++ [⟨n, payload, 1⟩]) := by
  cases out with
  | same => exact ⟨delayed, .inl rfl⟩
  | detached => exact ⟨delayed, .inl rfl⟩
  | offered held _ => exact absurd (delayed ▸ held) List.not_mem_nil
  | @arrived payload _ arrives =>
    unfold arrive
    split
    · exact ⟨delayed, .inr ⟨payload, arrives, rfl⟩⟩
    · exact ⟨delayed, .inl rfl⟩

namespace Script

variable {ts : List Transition} {x y z : Session} {a : Action} {t : Transition} {n n' k : Nat}
  {c c' : Consumer} {s s' : Subscription} {topic : String} {l l' : List Delivery}

/-! ## What a consumer is offered -/

/-- The offers are the first of messages that were put on a topic, in the order of these. -/
structure FirstOffers (ts : List Transition) (topic : String) (n : Nat) (l : List Delivery) :
    Prop where
  put : ∀ d ∈ l, d.number = 1 ∧ ∃ u ∈ ts, u.Puts topic d.message d.payload
  order : (l.map Delivery.message).Pairwise (· < ·)
  below : ∀ d ∈ l, d.message < n

namespace FirstOffers

theorem later (first : FirstOffers ts topic n l) (hn : n ≤ n') :
    FirstOffers (t :: ts) topic n' l where
  put d hd := by
    obtain ⟨number, u, hu, puts⟩ := first.put d hd
    exact ⟨number, u, List.mem_cons_of_mem _ hu, puts⟩
  order := first.order
  below d hd := Nat.lt_of_lt_of_le (first.below d hd) hn

theorem cut (first : FirstOffers ts topic n l) (pre : l' <+: l) : FirstOffers ts topic n l' where
  put d hd := first.put d (pre.subset hd)
  order := first.order.sublist (pre.sublist.map _)
  below d hd := first.below d (pre.subset hd)

theorem add (first : FirstOffers ts topic n l) {payload : Payload} (puts : t.Puts topic n payload)
    (hn : n < n') : FirstOffers (t :: ts) topic n' (l ++ [⟨n, payload, 1⟩]) := by
  have old := first.later (t := t) (Nat.le_of_lt hn)
  refine ⟨fun d hd => ?_, ?_, fun d hd => ?_⟩
  · rcases List.mem_append.mp hd with hd | hd
    · exact old.put d hd
    · rw [List.mem_singleton.mp hd]
      exact ⟨rfl, t, List.mem_cons_self, puts⟩
  · rw [List.map_append, List.pairwise_append]
    refine ⟨first.order, List.pairwise_singleton .., fun m hm m' hm' => ?_⟩
    obtain ⟨d, hd, rfl⟩ := List.mem_map.mp hm
    rw [List.mem_singleton.mp hm']
    exact first.below d hd
  · rcases List.mem_append.mp hd with hd | hd
    · exact old.below d hd
    · rw [List.mem_singleton.mp hd]
      exact hn

end FirstOffers

/-- All that consumer `k` was offered, the oldest first: what it has taken, and what waits. -/
def offers (ts : List Transition) (k : Nat) (s : Subscription) : List Delivery :=
  (takings ts (.consumer k)).reverse ++ s.channel

/-! ## What the consumer does with it -/

/-- What agent `b` lets go of in a transition. -/
def Transition.freed? (t : Transition) (b : Agent) : Option Delivery :=
  if t.action.agent? = some b ∧ t.after.system.inHand? b = none then t.before.system.inHand? b
  else none

/-- What agent `b` has let go of in a run, the latest first. -/
def freed (ts : List Transition) (b : Agent) : List Delivery := ts.filterMap fun t => t.freed? b

/-- Nothing is published in a transition, and what consumer `k` lets go of is acked; the ack is
counted unless the connection fails, and no other settlement is. -/
structure Transition.OnlyAcks (t : Transition) (k : Nat) : Prop where
  published : t.after.system.host.broker.published = t.before.system.host.broker.published
  counts : Counts (if t.before.system.host.faults.failAck then []
    else (t.freed? (.consumer k)).toList.map fun _ => .acked) t.before.system.host
      t.after.system.host

/-- What has become of the messages on the topic of consumer `k`, which takes them all. -/
structure Approved (ts : List Transition) (n k : Nat) (c : Consumer) (s : Subscription) :
    Prop where
  topic : s.topic = c.topic
  delayed : s.delayed = []
  receiving : c.phase ≠ .ended → s.receiving
  ease : c.AtEase
  first : FirstOffers ts c.topic n (offers ts k s)
  complete : c.phase ≠ .ended → ∀ u ∈ ts, ∀ m, u.Arrives k m →
    m ∈ (offers ts k s).map Delivery.message
  called : (takings ts (.consumer k)).reverse.map (fun d => c.handler.decode d.payload) =
    c.seen.map Except.ok
  settled : takings ts (.consumer k) = c.phase.hand?.toList ++ freed ts (.consumer k)
  steps : ∀ u ∈ ts, u.action = .agent (.consumer k) → u.OnlyAcks k

theorem freed_cons (t : Transition) (ts : List Transition) (b : Agent) :
    freed (t :: ts) b = (t.freed? b).toList ++ freed ts b := by
  unfold freed
  rw [List.filterMap_cons]
  cases t.freed? b <;> rfl

/-- What a consumer takes in its step was offered to it before; when it ends, what waits is no
longer offered. -/
theorem offers_of_advances (ts : List Transition) {h l : Host}
    (adv : Consumer.Advances h c l c' s s')
    (taken : t.taken? (.consumer k) = c.taking? h) :
    offers (t :: ts) k s' = offers ts k s ∨
      c'.phase = .ended ∧ offers (t :: ts) k s' <+: offers ts k s := by
  unfold offers
  rw [takings_cons, taken, List.reverse_append]
  have single : (c.taking? h).toList.reverse = (c.taking? h).toList := by
    cases c.taking? h <;> rfl
  rcases adv.channel with next | ⟨ended, none, nothing⟩
  · left
    rw [single, List.append_assoc, next]
  · right
    rw [none, nothing]
    exact ⟨ended, by simp⟩

namespace Approved

/-- The consumer does nothing; the one message that may arrive is offered to it. -/
theorem others (app : Approved ts n k c s) {now : Nat} (hn : n ≤ n')
    (others : t.action.agent? ≠ some (.consumer k))
    (out : Subscription.Outside (fun payload => t.Puts c.topic n payload ∧ n < n') now n s s')
    (arrives : ∀ m, t.Arrives k m → s.attached ∧ ∃ d : Delivery, d.message = m ∧ s' = s.arrive d) :
    Approved (t :: ts) n' k c s' := by
  have takings : takings (t :: ts) (.consumer k) = takings ts (.consumer k) := by
    rw [takings_cons, show t.taken? (.consumer k) = none from if_neg others]
    rfl
  have freed : t.freed? (.consumer k) = none := if_neg fun both => others both.1
  obtain ⟨config, -, receiving, -⟩ := out.config
  obtain ⟨delayed, channel⟩ := out.channel app.delayed
  have offered : offers (t :: ts) k s' = offers ts k s ∨ ∃ payload,
      t.Puts c.topic n payload ∧ n < n' ∧
        offers (t :: ts) k s' = offers ts k s ++ [⟨n, payload, 1⟩] := by
    unfold offers
    rw [takings]
    rcases channel with same | ⟨payload, puts, more⟩
    · exact .inl (by rw [same])
    · exact .inr ⟨payload, puts.1, puts.2, by rw [more, List.append_assoc]⟩
  refine ⟨?_, delayed, fun hp => receiving.trans (app.receiving hp), app.ease, ?_,
    fun hp u hu m arr => ?_, takings ▸ app.called, ?_, fun u hu action => ?_⟩
  · exact (congrArg SubscriptionConfig.topic config).trans app.topic
  · rcases offered with same | ⟨payload, puts, later, more⟩
    · exact same ▸ app.first.later hn
    · exact more ▸ app.first.add puts later
  · rcases List.mem_cons.mp hu with rfl | hu
    · obtain ⟨-, d, rfl, rfl⟩ := arrives m arr
      unfold offers Subscription.arrive
      rw [if_pos (app.receiving hp), List.map_append, List.map_append]
      exact List.mem_append_right _ (List.mem_append_right _ List.mem_cons_self)
    · have known := app.complete hp u hu m arr
      rcases offered with same | ⟨payload, -, -, more⟩
      · exact same ▸ known
      · rw [more, List.map_append]
        exact List.mem_append_left _ known
  · rw [takings, freed_cons, freed]
    exact app.settled
  · rcases List.mem_cons.mp hu with rfl | hu
    · exact absurd (congrArg Action.agent? action) others
    · exact app.steps u hu action

/-- A consumer that is new. -/
theorem new (run : Runs ts z) (unknown : ∀ u ∈ ts, u.before.system.consumers[k]? = none)
    (none : c.phase.hand? = none) (seen : c.seen = []) (topic : s.topic = c.topic)
    (delayed : s.delayed = []) (channel : s.channel = []) (receiving : s.receiving) :
    Approved ts n k c s := by
  have idle : ∀ u ∈ ts, u.before.system.inHand? (.consumer k) = Option.none ∧
      u.before.system.taking? (.consumer k) = Option.none := by
    intro u hu
    unfold System.inHand? System.taking?
    dsimp only
    rw [unknown u hu]
    exact ⟨rfl, rfl⟩
  have takings : takings ts (.consumer k) = [] :=
    List.filterMap_eq_nil_iff.mpr fun u hu => by
      unfold Transition.taken?
      rw [(idle u hu).2]
      split <;> rfl
  have freed : freed ts (.consumer k) = [] :=
    List.filterMap_eq_nil_iff.mpr fun u hu => by
      unfold Transition.freed?
      rw [(idle u hu).1]
      split <;> rfl
  have nothing : offers ts k s = [] := by
    unfold offers
    rw [takings, channel]
    rfl
  refine ⟨topic, delayed, fun _ => receiving, fun d hand => ?_, ?_, fun _ u hu m arr => ?_, ?_, ?_,
    fun u hu action => ?_⟩
  · cases none.symm.trans hand
  · rw [nothing]
    exact ⟨fun _ h => absurd h List.not_mem_nil, .nil, fun _ h => absurd h List.not_mem_nil⟩
  · obtain ⟨c, s, payload, inbox, -⟩ := arr
    cases (unknown u hu).symm.trans (Session.inbox?_eq_some.mp inbox).1
  · rw [takings, seen]
    rfl
  · rw [takings, freed, none]
    rfl
  · obtain ⟨us, -, happens⟩ := run.made hu
    rw [action] at happens
    obtain ⟨v, hv, -⟩ := Option.map_eq_some_iff.mp happens
    obtain ⟨c, -, -, known, -⟩ := Agent.step?_consumer hv
    cases (unknown u hu).symm.trans known

/-- The consumer makes a step. -/
theorem advance (app : Approved ts n k c s) (action : t.action = .agent (.consumer k))
    (step : Consumer.Approving t.before.system.host c t.after.system.host c')
    (adv : Consumer.Advances t.before.system.host c t.after.system.host c' s s')
    (taken : t.taken? (.consumer k) = c.taking? t.before.system.host)
    (freed : t.freed? (.consumer k) = c.phase.freed? c'.phase) :
    Approved (t :: ts) n k c' s' := by
  obtain ⟨topic, handler, -⟩ := step.same
  obtain ⟨published, messages⟩ := step.published
  have takings : takings (t :: ts) (.consumer k) =
      (c.taking? t.before.system.host).toList ++ takings ts (.consumer k) := by
    rw [takings_cons, taken]
  have offered := offers_of_advances ts adv taken
  refine ⟨?_, adv.delayed.trans app.delayed, fun going => ?_, step.atEase, ?_,
    fun going u hu m arr => ?_, ?_, ?_, fun u hu acts => ?_⟩
  · rw [adv.topic, app.topic, topic]
  · obtain ⟨before, kept⟩ := adv.receiving going
    exact kept.trans (app.receiving before)
  · rw [topic]
    rcases offered with kept | ⟨-, pre⟩
    · exact kept ▸ app.first.later (Nat.le_refl n)
    · exact (app.first.later (Nat.le_refl n)).cut pre
  · rcases List.mem_cons.mp hu with rfl | hu
    · -- the step puts no message on any topic
      obtain ⟨c₁, s₁, payload, -, -, was, more, -⟩ := arr
      omega
    · rcases offered with kept | ⟨ended, -⟩
      · exact kept ▸ app.complete (adv.receiving going).1 u hu m arr
      · exact absurd ended going
  · rw [takings, List.reverse_append, List.map_append, handler, app.called, adv.seen]
    cases c.taking? t.before.system.host <;> rfl
  · rw [takings, freed_cons, freed, ← List.append_assoc, ← adv.hands, List.append_assoc,
      ← app.settled]
  · rcases List.mem_cons.mp hu with rfl | hu
    · exact ⟨published, freed ▸ adv.counts⟩
    · exact app.steps u hu acts

theorem own (app : Approved ts x.system.host.broker.messages k c s)
    (approves : ∀ u ∈ ts, ∀ n payload, u.Puts c.topic n payload → c.handler.Approves payload)
    (hc : x.system.consumers[k]? = some c)
    (hs : x.system.host.broker.subscriptions[c.subscription]? = some s)
    (h : x.after? (.agent (.consumer k)) = some y) (hc' : y.system.consumers[k]? = some c') :
    ∃ s', y.system.host.broker.subscriptions[c'.subscription]? = some s' ∧
      Approved (⟨x, .agent (.consumer k), y⟩ :: ts) y.system.host.broker.messages k c' s' := by
  obtain ⟨v, hv, reached⟩ := Option.map_eq_some_iff.mp h
  obtain ⟨c₀, host, c₁, known, stepped, after⟩ := Agent.step?_consumer hv
  obtain rfl := Option.some.inj (hc.symm.trans known)
  obtain rfl : y.system.host = host := by rw [← reached, after]; rfl
  obtain rfl : c₁ = c' := by
    rw [← reached, after] at hc'
    simpa [System.adjustConsumer, hc] using hc'
  have step : Consumer.Approving x.system.host c y.system.host c₁ := by
    refine Consumer.approving_of_step? stepped app.ease fun d m received => ?_
    obtain ⟨channel, first, -⟩ := Host.getElem?_take? received hs
    have offered : d ∈ offers ts k s := List.mem_append_right _ (first ▸ List.mem_cons_self)
    obtain ⟨-, u, hu, puts⟩ := app.first.put d offered
    exact approves u hu _ _ puts
  obtain ⟨s', adv⟩ := step.advances hs
  refine ⟨s', step.same.2.2 ▸ adv.found, ?_⟩
  rw [step.published.2]
  refine app.advance rfl step adv ?_ ?_
  · exact (Transition.taken?_self x y _).trans (System.taking?_consumer hc)
  · show (if _ = some (Agent.consumer k) ∧ y.system.inHand? _ = none then x.system.inHand? _
      else none) = _
    rw [System.inHand?_consumer hc, System.inHand?_consumer hc']
    exact if_congr (and_iff_right rfl) rfl rfl

/-- To be told to stop changes nothing of this. -/
theorem stopped (app : Approved ts n k c s) : Approved ts n k { c with stopping := true } s :=
  ⟨app.topic, app.delayed, app.receiving, app.ease, app.first, app.complete, app.called,
    app.settled, app.steps⟩

end Approved

/-- Consumers are never taken away in a run. -/
theorem Runs.consumers_le (run : Runs ts z) {u : Transition} (hu : u ∈ ts) :
    u.before.system.consumers.length ≤ z.system.consumers.length := by
  induction run with
  | start => cases hu
  | next run h ih =>
    have longer := consumers_le_of_after? h
    rcases List.mem_cons.mp hu with rfl | hu
    · exact longer
    · exact Nat.le_trans (ih hu) longer

/-- What others do to a consumer that takes every message. -/
theorem Approved.kept (app : Approved ts x.system.host.broker.messages k c s) (run : Runs ts x)
    (h : x.after? a = some y) (others : a ≠ .agent (.consumer k))
    (hc : x.system.consumers[k]? = some c)
    (hs : x.system.host.broker.subscriptions[c.subscription]? = some s)
    (hs' : y.system.host.broker.subscriptions[c.subscription]? = some s') :
    Approved (⟨x, a, y⟩ :: ts) y.system.host.broker.messages k c s' := by
  have receives : (Agent.consumer k).receives? x.system = some c.subscription :=
    congrArg (Option.map Consumer.subscription) hc
  have idle : a.agent? ≠ some (.consumer k) := by
    intro acts
    cases a with
    | agent agent => exact others (congrArg Action.agent (Option.some.inj acts))
    | _ => cases acts
  obtain ⟨s₁, hs₁, out, arrives⟩ := outside_of_after? h run.apart hs (run.apart.subscription hc).1
    fun agent he hagent =>
      others (he.trans (congrArg Action.agent (run.apart.eq_of_receives hagent receives)))
  obtain rfl := Option.some.inj (hs'.symm.trans hs₁)
  refine app.others (messages_le_of_after? h) idle
    (out.imp fun payload puts => ⟨app.topic ▸ puts, ?_⟩) ?_
  · have more := puts.2.1
    dsimp only at more
    omega
  · rintro m ⟨c₁, s₁, payload, inbox, attached, puts⟩
    obtain ⟨known, found⟩ := Session.inbox?_eq_some.mp inbox
    obtain rfl := Option.some.inj (hc.symm.trans known)
    obtain rfl := Option.some.inj (hs.symm.trans found)
    refine ⟨attached, ⟨m, payload, 1⟩, rfl, ?_⟩
    rw [arrives m payload (app.topic ▸ puts)]
    unfold Subscription.receive
    rw [if_pos (by simp [attached])]

theorem Runs.approved (run : Runs ts z) (inbox : z.inbox? k = some (c, s))
    (approves : ∀ u ∈ ts, ∀ n payload, u.Puts c.topic n payload → c.handler.Approves payload) :
    Approved ts z.system.host.broker.messages k c s := by
  induction run generalizing c s with
  | start => cases inbox
  | @next ts x y a run h ih =>
    obtain ⟨hc', hs'⟩ := Session.inbox?_eq_some.mp inbox
    have earlier : ∀ {c₀ : Consumer} {s₀ : Subscription}, x.system.consumers[k]? = some c₀ →
        x.system.host.broker.subscriptions[c₀.subscription]? = some s₀ → c₀.topic = c.topic →
        c₀.handler = c.handler → (∀ u ∈ ts, ∀ n payload, u.Puts c₀.topic n payload →
          c₀.handler.Approves payload) ∧ Approved ts x.system.host.broker.messages k c₀ s₀ := by
      intro c₀ s₀ hc hs topic handler
      have before : ∀ u ∈ ts, ∀ n payload, u.Puts c₀.topic n payload →
          c₀.handler.Approves payload := fun u hu n payload puts =>
        handler ▸ approves u (List.mem_cons_of_mem _ hu) n payload (topic ▸ puts)
      exact ⟨before, ih (Session.inbox?_eq_some.mpr ⟨hc, hs⟩) before⟩
    cases consumed_of_after? h run.apart hc' with
    | @kept c₀ hc others same =>
      obtain ⟨-, s₀, hs⟩ := run.apart.subscription hc
      rcases same with rfl | rfl
      · exact (earlier hc hs rfl rfl).2.kept run h others hc hs hs'
      · exact ((earlier hc hs rfl rfl).2.kept run h others hc hs hs').stopped
    | @stepped c₀ v hc acts step reached =>
      subst acts
      obtain ⟨-, s₀, hs⟩ := run.apart.subscription hc
      have handler : c.handler = c₀.handler := by cases step <;> rfl
      obtain ⟨-, -, -, topic⟩ := step.same
      obtain ⟨before, app⟩ := earlier hc hs topic.symm handler.symm
      obtain ⟨s₁, hs₁, app'⟩ := app.own before hc hs h hc'
      obtain rfl := Option.some.inj (hs'.symm.trans hs₁)
      exact app'
    | @started topic name policy handler new state found =>
      subst state
      obtain rfl := Option.some.inj (found.symm.trans hs')
      refine .new (Runs.next run h) (fun u hu => ?_) rfl rfl rfl rfl rfl rfl
      apply List.getElem?_eq_none
      rw [← new]
      rcases List.mem_cons.mp hu with rfl | hu
      · exact Nat.le_refl _
      · exact run.consumers_le hu

end Script

end ChangeDispatch
