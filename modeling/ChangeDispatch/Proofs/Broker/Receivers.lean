import ChangeDispatch.Proofs.Broker.Outstanding
import ChangeDispatch.Proofs.DeadLetter.Step
import ChangeDispatch.Proofs.Publisher.Step
import ChangeDispatch.Proofs.Run.Agents
import ChangeDispatch.Proofs.Wait.Listener

/-!
# Who receives from a subscription

Every correlator and every consumer has a subscription of its own, from which nobody else
receives. Between two of its own steps such a subscription can only get a new message, get
an offer back that was held back, or be cut off by the closing of the broker.
-/
namespace ChangeDispatch

open Host (Adjusts Touches Still Puts)

/-- What happens to the broker in one step of an agent that receives from `own`. -/
inductive Host.Step (own : Option Nat) (h : Host) : Host → Prop where
  | still {k : Host} : Still h k → Step own h k
  | put {topic : String} {payload : Payload} {k : Host} : Puts topic payload h k → Step own h k
  /-- The agent works on its own subscription; it may have published before. -/
  | touched {i : Nat} {k l : Host} :
      own = some i → (Still h k ∨ ∃ topic payload, Puts topic payload h k) → Touches i k l →
      Step own h l
  | closed {k : Host} : k.broker = h.broker.close → k.now = h.now → Step own h k
  | offered {i serial : Nat} {entry : Timer × Delivery} :
      h.broker.delayed? i serial = some entry → h.isDue entry.1 →
      Step own h { h with broker := h.broker.offerDelayed i entry }

/-- The subscription that an agent receives from. -/
def Agent.receives? (s : System) : Agent → Option Nat
  | .listener c => (s.correlators[c]?).map Correlator.subscription
  | .consumer i => (s.consumers[i]?).map Consumer.subscription
  | _ => none

theorem Consumer.Step.host {h l : Host} {k k' : Consumer} (step : Consumer.Step h k l k') :
    Host.Step (some k.subscription) h l := by
  cases step with
  | moved _ _ _ s => exact .still s
  | finished _ _ a => exact .touched rfl (.inl (.refl h)) a.touches
  | received _ ht _ s =>
    exact .touched rfl (.inl (.refl h)) ((Host.touches_take? ht).trans (s.adjusts _).touches)
  | handled _ _ a => exact .touched rfl (.inl (.refl h)) a.adjusts.touches
  | rejected _ _ _ b =>
    exact .touched rfl (.inl (.refl h)) (b.touches.elim Adjusts.touches Adjusts.touches)
  | buried _ p _ a => exact .touched rfl (.inr ⟨_, _, p⟩) a.adjusts.touches
  | unburied _ s b => exact .touched rfl (.inl s) (b.touches.elim Adjusts.touches Adjusts.touches)

theorem Correlator.Step.host {h l : Host} {c c' : Correlator} (step : Correlator.Step h c l c') :
    Host.Step (some c.subscription) h l := by
  cases step with
  | moved _ a => exact .still (.of_adjusts a)
  | finished a => exact .touched rfl (.inl (.refl h)) a.touches
  | settled _ _ ht _ a =>
    exact .touched rfl (.inl (.refl h)) ((Host.touches_take? ht).trans a.touches)

theorem Worker.Step.host {h k : Host} {q q' : Queue} {w w' : Worker}
    (step : Worker.Step h q w k q' w') : Host.Step none h k := by
  cases step with
  | taken _ _ _ => exact .still (.refl h)
  | drained _ _ _ => exact .still (.refl h)
  | abandoned _ _ s => exact .still s
  | interrupted _ _ s => exact .still s
  | moved _ _ s => exact .still s
  | published _ p => exact .put p
  | dropped _ s => exact .still s

theorem System.Quiet.still {s t : System} (h : Quiet s t) : Still s.host t.host :=
  ⟨by rw [h.broker], by rw [h.broker], by rw [h.broker], h.faults, h.now⟩

theorem System.CallStep.host {s u t : System} {n : Nat} {φ ψ : Call.Phase}
    (step : CallStep s n φ u ψ) (quiet : Quiet (u.setPhase n ψ) t) :
    Host.Step none s.host t.host := by
  have still : Still u.host t.host := quiet.still
  have same : u.host = s.host → Host.Step none s.host t.host := fun hu => .still (hu ▸ still)
  cases step with
  | @sent _ topic payload result _ _ =>
    rcases s.host.publish_cases topic payload with ⟨k, hk, p⟩ | ⟨e, k, hk, st⟩
    · obtain rfl := (Prod.mk.inj hk).2
      exact .put (p.still still)
    · obtain rfl := (Prod.mk.inj hk).2
      exact .still (st.trans still)
  | @stopped _ c next _ =>
    cases next with
    | none => exact same rfl
    | some i => exact .closed quiet.broker quiet.now
  | moved _ _ => exact same rfl
  | registered _ _ _ => exact same rfl
  | invalid _ => exact same (UpToRegistries.letGo s _).host
  | refused _ _ => exact same (UpToRegistries.letGo s _).host
  | accepted _ _ _ => exact same rfl
  | blocked _ _ _ _ => exact same rfl
  | collected _ _ => exact same rfl
  | dismissed _ => exact same (UpToRegistries.letGo s _).host
  | withdrawn _ _ _ => exact same (UpToRegistries.letGo (s.adjustQueue _ _) _).host
  | answered _ _ => exact same rfl
  | waited _ _ => exact same rfl

/-- What a step of any agent does to the broker. -/
theorem Agent.host_step {a : Agent} {s t : System} (h : a.step? s = some t) :
    Host.Step (a.receives? s) s.host t.host := by
  cases a with
  | worker i =>
    obtain ⟨p, q, host, q', w, -, -, hw, rfl⟩ := Agent.step?_worker h
    exact (Worker.step_of_step? hw).host
  | listener c =>
    obtain ⟨co, host, co', hc, hs, rfl⟩ := Agent.step?_listener h
    rw [Agent.receives?, hc]
    exact (Correlator.step_of_step? hs).host
  | consumer i =>
    obtain ⟨k, host, k', hk, hs, rfl⟩ := Agent.step?_consumer h
    rw [Agent.receives?, hk]
    exact (Consumer.step_of_step? hs).host
  | call n =>
    obtain ⟨φ, -, u, ψ, step, quiet⟩ := System.callSteps_of_stepCall? h
    exact step.host quiet
  | redelivery i serial =>
    obtain ⟨entry, he, hd, rfl⟩ := Agent.step?_redelivery h
    exact .offered he hd

/-! ## Subscriptions of others -/

/-- What can happen to a subscription while its receiver does nothing: the message with
number `n` arrives, or an offer that was held back until now is made, or nothing new can come. -/
inductive Subscription.Outside (arriving : Payload → Prop) (now n : Nat) (s : Subscription) :
    Subscription → Prop where
  | same : Outside arriving now n s s
  | arrived {payload : Payload} :
      s.attached → arriving payload → Outside arriving now n s (s.arrive ⟨n, payload, 1⟩)
  | detached : Outside arriving now n s { s with attached := false }
  | offered {entry : Timer × Delivery} :
      entry ∈ s.delayed → entry.1.due ≤ now → Outside arriving now n s (s.offerDelayed entry)

open Subscription (Outside)

theorem Subscription.Outside.imp {p q : Payload → Prop} {now n : Nat} {s s' : Subscription}
    (h : Outside p now n s s') (hpq : ∀ payload, p payload → q payload) :
    Outside q now n s s' := by
  cases h with
  | same => exact .same
  | arrived ha hp => exact .arrived ha (hpq _ hp)
  | detached => exact .detached
  | offered he hd => exact .offered he hd

namespace Subscription.Outside

variable {arriving : Payload → Prop} {now n : Nat} {s s' : Subscription}

/-- Who does not act keeps what it has received. -/
theorem config (h : Outside arriving now n s s') :
    s'.toSubscriptionConfig = s.toSubscriptionConfig ∧ s'.held = s.held ∧
      s'.receiving = s.receiving ∧ (s.attached = false → s'.attached = false) := by
  cases h with
  | same => exact ⟨rfl, rfl, rfl, id⟩
  | arrived _ _ =>
    obtain ⟨config, held, receiving, attached⟩ := s.config_arrive ⟨n, _, 1⟩
    exact ⟨config, held, receiving, attached.trans⟩
  | detached => exact ⟨rfl, rfl, rfl, fun _ => rfl⟩
  | @offered entry _ _ =>
    obtain ⟨config, held, receiving, attached⟩ :=
      config_arrive { s with delayed := s.delayed.erase entry } entry.2
    exact ⟨config, held, receiving, attached.trans⟩

/-- No message is added but the one that arrives. -/
theorem copies_subperm (h : Outside arriving now n s s') :
    s'.copies.Subperm s.copies ∨
      ∃ payload, s.attached ∧ arriving payload ∧ s'.copies.Subperm ((n, payload) :: s.copies) := by
  cases h with
  | same => exact .inl (List.Subperm.refl _)
  | arrived ha hp => exact .inr ⟨_, ha, hp, s.copies_arrive_subperm _⟩
  | detached => exact .inl (List.Subperm.refl _)
  | offered he _ => exact .inl (copies_offerDelayed_subperm he)

/-- While there is a receiver, no message is lost either. -/
theorem copies_perm (h : Outside arriving now n s s') (hr : s.receiving) :
    s'.copies.Perm s.copies ∨
      ∃ payload, s.attached ∧ arriving payload ∧ s'.copies.Perm ((n, payload) :: s.copies) := by
  cases h with
  | same => exact .inl (List.Perm.refl _)
  | arrived ha hp => exact .inr ⟨_, ha, hp, copies_arrive hr _⟩
  | detached => exact .inl (List.Perm.refl _)
  | offered he _ => exact .inl (copies_offerDelayed he hr)

end Subscription.Outside

theorem outside_receive (s : Subscription) (topic : String) (now n : Nat) (payload : Payload)
    {arriving : Payload → Prop} (h : topic = s.topic → arriving payload) :
    Outside arriving now n s (s.receive topic ⟨n, payload, 1⟩) := by
  unfold Subscription.receive
  split
  next hc =>
    rw [Bool.and_eq_true, beq_iff_eq] at hc
    exact .arrived hc.1 (h hc.2.symm)
  next => exact .same

namespace Host

variable {own : Option Nat} {h k : Host}

theorem Puts.getElem? {topic : String} {payload : Payload} (p : Puts topic payload h k) {j : Nat}
    {s : Subscription} (hj : h.broker.subscriptions[j]? = some s) :
    k.broker.subscriptions[j]? = some (s.receive topic ⟨h.broker.messages, payload, 1⟩) := by
  rw [p.subscriptions, List.getElem?_map, hj]
  rfl

/-- A subscription that the agent does not receive from. What is published on its topic
arrives. -/
theorem Step.outside (step : Step own h k) {j : Nat} {s : Subscription}
    (hj : h.broker.subscriptions[j]? = some s) (hown : own ≠ some j) :
    ∃ s', k.broker.subscriptions[j]? = some s' ∧
      Outside (fun payload => k.broker.messages = h.broker.messages + 1 ∧
        k.broker.published = h.broker.published ++ [(s.topic, payload)])
        h.now h.broker.messages s s' ∧
      ∀ payload, k.broker.messages = h.broker.messages + 1 →
        k.broker.published = h.broker.published ++ [(s.topic, payload)] →
        s' = s.receive s.topic ⟨h.broker.messages, payload, 1⟩ := by
  have unput : k.broker.messages = h.broker.messages → ∀ {s' : Subscription} (payload : Payload),
      k.broker.messages = h.broker.messages + 1 →
      k.broker.published = h.broker.published ++ [(s.topic, payload)] →
      s' = s.receive s.topic ⟨h.broker.messages, payload, 1⟩ := by
    intro he s' payload hm
    omega
  have received : ∀ {topic payload} {l : Host}, Puts topic payload h l →
      k.broker.messages = l.broker.messages → k.broker.published = l.broker.published →
      Outside (fun payload => k.broker.messages = h.broker.messages + 1 ∧
        k.broker.published = h.broker.published ++ [(s.topic, payload)]) h.now h.broker.messages s
        (s.receive topic ⟨h.broker.messages, payload, 1⟩) ∧
      ∀ payload', k.broker.messages = h.broker.messages + 1 →
        k.broker.published = h.broker.published ++ [(s.topic, payload')] →
        s.receive topic ⟨h.broker.messages, payload, 1⟩ =
          s.receive s.topic ⟨h.broker.messages, payload', 1⟩ := by
    intro topic payload l p hm hp
    refine ⟨outside_receive s _ _ _ _ fun ht => ⟨hm.trans p.messages, ?_⟩, fun payload' _ hp' => ?_⟩
    · rw [hp, p.published, ht]
    · rw [hp, p.published] at hp'
      obtain ⟨rfl, rfl⟩ := Prod.mk.inj (List.singleton_inj.mp (List.append_cancel_left hp'))
      rfl
  cases step with
  | still st => exact ⟨s, by rw [st.subscriptions, hj], .same, unput st.messages⟩
  | put p => exact ⟨_, p.getElem? hj, received p rfl rfl⟩
  | @touched i l _ hi hpub t =>
    have hne : j ≠ i := fun he => hown (he ▸ hi)
    obtain ⟨f, a⟩ := t
    rcases hpub with st | ⟨topic, payload, p⟩
    · exact ⟨s, by rw [a.touches.getElem? hne, st.subscriptions, hj], .same,
        unput (a.messages.trans st.messages)⟩
    · exact ⟨_, by rw [a.touches.getElem? hne, p.getElem? hj], received p a.messages a.published⟩
  | closed hb _ =>
    refine ⟨_, ?_, .detached, unput (by rw [hb]; rfl)⟩
    rw [hb]
    simp [Broker.close, hj]
  | @offered i serial entry he hd =>
    by_cases hij : i = j
    · subst hij
      have hmem : entry ∈ s.delayed := by
        unfold Broker.delayed? at he
        rw [hj] at he
        exact List.mem_of_find?_eq_some he
      exact ⟨s.offerDelayed entry, by simp [Broker.offerDelayed, Broker.adjust, hj],
        .offered hmem (of_decide_eq_true hd), unput rfl⟩
    · exact ⟨s, by simp [Broker.offerDelayed, Broker.adjust, hij, hj], .same, unput rfl⟩

theorem Step.length_eq (step : Step own h k) :
    k.broker.subscriptions.length = h.broker.subscriptions.length := by
  cases step with
  | still st => rw [st.subscriptions]
  | put p => rw [p.subscriptions, List.length_map]
  | touched _ hpub t =>
    rw [t.length_eq]
    rcases hpub with st | ⟨topic, payload, p⟩
    · rw [st.subscriptions]
    · rw [p.subscriptions, List.length_map]
  | closed hb _ => rw [hb, Broker.close, List.length_map]
  | offered _ _ => simp [Broker.offerDelayed, Broker.adjust]

theorem Step.now (step : Step own h k) : k.now = h.now := by
  cases step with
  | still st => exact st.now
  | put p => exact p.now
  | touched _ hpub t =>
    obtain ⟨f, a⟩ := t
    rw [a.now]
    rcases hpub with st | ⟨topic, payload, p⟩
    · exact st.now
    · exact p.now
  | closed _ hn => exact hn
  | offered _ _ => rfl

theorem Step.messages_le (step : Step own h k) : h.broker.messages ≤ k.broker.messages := by
  cases step with
  | still st => exact Nat.le_of_eq st.messages.symm
  | put p => exact p.messages ▸ Nat.le_succ _
  | touched _ hpub t =>
    obtain ⟨f, a⟩ := t
    rw [a.messages]
    rcases hpub with st | ⟨topic, payload, p⟩
    · exact Nat.le_of_eq st.messages.symm
    · exact p.messages ▸ Nat.le_succ _
  | closed hb _ => rw [hb]; exact Nat.le_refl _
  | offered _ _ => exact Nat.le_refl _

end Host

/-! ## Every subscription has one receiver -/

/-- The subscriptions that correlators and consumers receive from, in their order. -/
structure Receivers where
  listening : List Nat
  consuming : List Nat

def Receivers.all (r : Receivers) : List Nat := r.listening ++ r.consuming

namespace System

def receivers (s : System) : Receivers :=
  ⟨s.correlators.map Correlator.subscription, s.consumers.map Consumer.subscription⟩

theorem getElem?_listening {s : System} {c : Nat} {co : Correlator}
    (hc : s.correlators[c]? = some co) : s.receivers.listening[c]? = some co.subscription := by
  unfold receivers
  rw [List.getElem?_map, hc]
  rfl

theorem Quiet.receivers {s t : System} (h : Quiet s t) : t.receivers = s.receivers := by
  have same := congrArg (List.map Correlator.subscription) h.correlators
  rw [List.map_map, List.map_map] at same
  unfold System.receivers
  rw [h.consumers]
  exact congrArg (Receivers.mk · _) same

theorem UpToRegistries.receivers {s t : System} (h : UpToRegistries s t) :
    t.receivers = s.receivers := by
  unfold System.receivers
  rw [h.subscriptions, h.consumers]

end System

theorem map_modify_of_getElem? {α β : Type} {g : α → β} {l : List α} {i : Nat} {a b : α}
    (h : l[i]? = some a) (hg : g b = g a) : (l.modify i fun _ => b).map g = l.map g := by
  apply List.ext_getElem?
  intro j
  rw [List.getElem?_map, List.getElem?_map, List.getElem?_modify]
  by_cases hj : i = j
  · rw [← hj, h]
    simp [hg]
  · simp [hj]

theorem Agent.receivers_step {a : Agent} {s t : System} (h : a.step? s = some t) :
    t.receivers = s.receivers := by
  cases a with
  | worker i =>
    obtain ⟨p, q, host, q', w, -, -, -, rfl⟩ := Agent.step?_worker h
    rfl
  | listener c =>
    obtain ⟨co, host, co', hc, hs, rfl⟩ := Agent.step?_listener h
    have hsub : co'.subscription = co.subscription := by
      cases Correlator.step_of_step? hs <;> rfl
    exact congrArg (Receivers.mk · _) (map_modify_of_getElem? hc hsub)
  | consumer i =>
    obtain ⟨k, host, k', hk, hs, rfl⟩ := Agent.step?_consumer h
    have hsub : k'.subscription = k.subscription := by
      cases Consumer.step_of_step? hs <;> rfl
    exact congrArg (Receivers.mk _ ·) (map_modify_of_getElem? hk hsub)
  | call n =>
    obtain ⟨φ, -, u, ψ, step, quiet⟩ := System.callSteps_of_stepCall? h
    obtain ⟨host, queues, upTo⟩ := step.upToRegistries
    exact quiet.receivers.trans upTo.receivers
  | redelivery i serial =>
    obtain ⟨entry, -, -, rfl⟩ := Agent.step?_redelivery h
    rfl

namespace Script

/-- No two parts receive from the same subscription, and the caller from none of theirs. -/
structure Apart (x : Session) : Prop where
  nodup : x.system.receivers.all.Nodup
  known : ∀ j ∈ x.system.receivers.all, j < x.system.host.broker.subscriptions.length
  apart : ∀ j ∈ x.system.receivers.all, j ∉ x.ownSubscriptions
  own : ∀ j ∈ x.ownSubscriptions, j < x.system.host.broker.subscriptions.length

/-- What a step of a script does to the subscriptions of the parts: nothing but to close
them all, or to add one for a new part. -/
structure Session.Subscribes (x y : Session) : Prop where
  own : y.ownSubscriptions = x.ownSubscriptions
  messages : y.system.host.broker.messages = x.system.host.broker.messages
  receivers :
    y.system.receivers = x.system.receivers ∧
      (y.system.host.broker.subscriptions = x.system.host.broker.subscriptions ∨
        y.system.host.broker.subscriptions = x.system.host.broker.close.subscriptions) ∨
    (y.system.receivers = { x.system.receivers with
        listening := x.system.receivers.listening ++ [x.system.host.broker.subscriptions.length] } ∨
      y.system.receivers = { x.system.receivers with
        consuming :=
          x.system.receivers.consuming ++ [x.system.host.broker.subscriptions.length] }) ∧
      ∃ config : SubscriptionConfig, y.system.host.broker.subscriptions =
        x.system.host.broker.subscriptions ++ [{ toSubscriptionConfig := config }]

theorem Session.subscribes_effect {x y : Session} (h : Effect x y) : Subscribes x y := by
  have same : ∀ {y : Session}, y.ownSubscriptions = x.ownSubscriptions →
      y.system.host = x.system.host → y.system.receivers = x.system.receivers → Subscribes x y :=
    fun ho hh hr => ⟨ho, by rw [hh], .inl ⟨hr, .inl (by rw [hh])⟩⟩
  cases h with
  | nothing => exact same rfl rfl rfl
  | closedBroker => exact ⟨rfl, rfl, .inl ⟨rfl, .inr rfl⟩⟩
  | called _ => exact same rfl rfl rfl
  | waited _ => exact same rfl rfl rfl
  | @registered c _ _ _ r id u _ _ hu =>
    subst hu
    let z := x.onSystem (·.adjustCorrelator c fun co => { co with registry := r })
    have upTo := (System.UpToRegistries.adjust x.system c fun _ => r).trans
      (z.upToRegistries_dropWaiter id)
    exact same (z.own_dropWaiter id).1 upTo.host upTo.receivers
  | droppedWaiter id =>
    have upTo := x.upToRegistries_dropWaiter id
    exact same (x.own_dropWaiter id).1 upTo.host upTo.receivers
  | @aborted n c _ _ _ =>
    have upTo := System.UpToRegistries.forsake x.system n c.phase
    exact same rfl upTo.host upTo.receivers
  | openedPublisher _ hs _ =>
    obtain ⟨-, rfl, rfl⟩ := Host.subscribe_ok hs
    exact ⟨rfl, rfl, .inr ⟨.inl (congrArg (Receivers.mk · _) List.map_append), _, rfl⟩⟩
  | startedCorrelator hs =>
    obtain ⟨-, rfl, rfl⟩ := Host.subscribe_ok hs
    exact ⟨rfl, rfl, .inr ⟨.inl (congrArg (Receivers.mk · _) List.map_append), _, rfl⟩⟩
  | startedConsumer _ hs =>
    obtain ⟨-, rfl, rfl⟩ := Host.subscribe_ok hs
    exact ⟨rfl, rfl, .inr ⟨.inr (congrArg (Receivers.mk _ ·) List.map_append), _, rfl⟩⟩
  | stoppedConsumer i =>
    refine same rfl rfl (congrArg (Receivers.mk _ ·) ?_)
    exact map_modify_of_apply (f := fun k : Consumer => { k with stopping := true })
      (g := Consumer.subscription) (fun _ => rfl) _ _

theorem Session.Elsewhere.receivers {x y : Session} (e : x.Elsewhere y) :
    y.system.receivers = x.system.receivers := by
  have same := congrArg (List.map Correlator.subscription) e.correlators
  rw [List.map_map, List.map_map] at same
  unfold System.receivers
  rw [e.consumers]
  exact congrArg (Receivers.mk · _) same

namespace Apart

variable {x y : Session}

theorem elsewhere (h : Apart x) (e : x.Elsewhere y) : Apart y := by
  have receivers := e.receivers
  have longer := e.subscriptions.length_le
  refine ⟨receivers ▸ h.nodup, fun j hj => ?_, fun j hj hown => ?_, fun j hj => ?_⟩
  · exact Nat.lt_of_lt_of_le (h.known j (receivers ▸ hj)) longer
  · rw [receivers] at hj
    rcases e.subscriptions.owned j hown with ho | hnew
    · exact h.apart j hj ho
    · have := h.known j hj
      omega
  · rcases e.subscriptions.owned j hj with ho | hnew
    · exact Nat.lt_of_lt_of_le (h.own j ho) longer
    · exact hnew.2

/-- A part that is added gets a subscription that is new. -/
theorem add (h : Apart x) (own : y.ownSubscriptions = x.ownSubscriptions)
    (all : y.system.receivers.all.Perm
      (x.system.host.broker.subscriptions.length :: x.system.receivers.all))
    (length : y.system.host.broker.subscriptions.length =
      x.system.host.broker.subscriptions.length + 1) : Apart y := by
  refine ⟨all.nodup_iff.mpr (List.nodup_cons.mpr ⟨fun hj => ?_, h.nodup⟩), fun j hj => ?_,
    fun j hj hown => ?_, fun j hj => ?_⟩
  · exact Nat.lt_irrefl _ (h.known _ hj)
  · rcases List.mem_cons.mp (all.subset hj) with rfl | hj
    · omega
    · have := h.known j hj
      omega
  · rw [own] at hown
    rcases List.mem_cons.mp (all.subset hj) with rfl | hj
    · exact Nat.lt_irrefl _ (h.own _ hown)
    · exact h.apart j hj hown
  · have := h.own j (own ▸ hj)
    omega

theorem subscribes (h : Apart x) (s : x.Subscribes y) : Apart y := by
  rcases s.receivers with ⟨hr, hsubs⟩ | ⟨hr, config, hsubs⟩
  · have hlen : y.system.host.broker.subscriptions.length =
        x.system.host.broker.subscriptions.length := by
      rcases hsubs with hs | hs
      · rw [hs]
      · rw [hs, Broker.close, List.length_map]
    refine ⟨hr ▸ h.nodup, fun j hj => ?_, fun j hj => ?_, fun j hj => ?_⟩
    · exact hlen ▸ h.known j (hr ▸ hj)
    · exact s.own ▸ h.apart j (hr ▸ hj)
    · exact hlen ▸ h.own j (s.own ▸ hj)
  · refine h.add s.own ?_ (by rw [hsubs, List.length_append, List.length_singleton])
    unfold Receivers.all
    rcases hr with hr | hr
    · rw [hr, List.append_assoc]
      exact List.perm_middle
    · rw [hr, ← List.append_assoc]
      exact List.perm_append_singleton _ _

theorem agent (h : Apart x) {a : Agent} {t : System} (hs : a.step? x.system = some t) :
    Apart { x with system := t } := by
  have hr : t.receivers = x.system.receivers := Agent.receivers_step hs
  have hlen := (Agent.host_step hs).length_eq
  refine ⟨?_, fun j hj => ?_, fun j hj => ?_, fun j hj => ?_⟩
  · exact hr ▸ h.nodup
  · exact hlen ▸ h.known j (hr ▸ hj)
  · exact h.apart j (hr ▸ hj)
  · exact hlen ▸ h.own j hj

theorem after? (h : Apart x) {a : Action} (hs : x.after? a = some y) : Apart y := by
  cases Session.moves_of_after? hs with
  | performed _ hp =>
    obtain ⟨u, hu, he⟩ := hp
    exact (h.subscribes (Session.subscribes_effect hu)).elsewhere he
  | injected topic payload =>
    have hlen : ∀ {n : Nat}, n < x.system.host.broker.subscriptions.length →
        n < (x.system.host.broker.fanOut topic payload).subscriptions.length := by
      simp [Broker.fanOut]
    exact ⟨h.nodup, fun j hj => hlen (h.known j hj), h.apart, fun j hj => hlen (h.own j hj)⟩
  | stepped hagent => exact h.agent hagent
  | passed _ => exact ⟨h.nodup, h.known, h.apart, h.own⟩

end Apart

theorem Runs.apart {ts : List Transition} {z : Session} (run : Runs ts z) : Apart z := by
  refine run.invariant (P := Apart) ⟨?_, ?_, ?_, ?_⟩ fun x a y h hs => h.after? hs
  all_goals simp [System.receivers, Receivers.all, Session.ownSubscriptions]

/-- Nobody but its receiver receives from a subscription. -/
theorem Apart.eq_of_receives {x : Session} (h : Apart x) {a b : Agent} {j : Nat}
    (ha : a.receives? x.system = some j) (hb : b.receives? x.system = some j) : a = b := by
  obtain ⟨hl, hc, hd⟩ := List.nodup_append.mp h.nodup
  have eq_of_getElem? : ∀ {l : List Nat} {m n : Nat}, l.Nodup → l[m]? = some j → l[n]? = some j →
      m = n := fun hn hm hn' =>
    (List.getElem?_inj (List.getElem?_eq_some_iff.mp hm).1 hn).mp (hm.trans hn'.symm)
  have listening : ∀ {c}, (Agent.listener c).receives? x.system = some j →
      x.system.receivers.listening[c]? = some j := fun hc => List.getElem?_map.trans hc
  have consuming : ∀ {k}, (Agent.consumer k).receives? x.system = some j →
      x.system.receivers.consuming[k]? = some j := fun hk => List.getElem?_map.trans hk
  cases a with
  | listener c =>
    cases b with
    | listener c' => exact congrArg Agent.listener (eq_of_getElem? hl (listening ha) (listening hb))
    | consumer k =>
      exact absurd rfl (hd j (List.mem_of_getElem? (listening ha)) j
        (List.mem_of_getElem? (consuming hb)))
    | _ => cases hb
  | consumer k =>
    cases b with
    | consumer k' => exact congrArg Agent.consumer (eq_of_getElem? hc (consuming ha) (consuming hb))
    | listener c =>
      exact absurd rfl (hd j (List.mem_of_getElem? (listening hb)) j
        (List.mem_of_getElem? (consuming ha)))
    | _ => cases hb
  | _ => cases ha

/-! ## What happens to a subscription in a run -/

/-- A payload is put on a topic as the message with a number: it is injected, or published. -/
def Transition.Puts (t : Transition) (topic : String) (message : Nat) (payload : Payload) : Prop :=
  t.before.system.host.broker.messages = message ∧
  t.after.system.host.broker.messages = message + 1 ∧
  (t.action = .perform (.inject topic payload) ∨
    t.after.system.host.broker.published =
      t.before.system.host.broker.published ++ [(topic, payload)])

variable {x y : Session} {a : Action}

/-- A subscription whose receiver does not act. What is put on its topic arrives. -/
theorem outside_of_after? (h : x.after? a = some y) (apart : Apart x) {j : Nat} {s : Subscription}
    (hj : x.system.host.broker.subscriptions[j]? = some s) (hr : j ∈ x.system.receivers.all)
    (hown : ∀ agent, a = .agent agent → agent.receives? x.system ≠ some j) :
    ∃ s', y.system.host.broker.subscriptions[j]? = some s' ∧
      Outside ((⟨x, a, y⟩ : Transition).Puts s.topic x.system.host.broker.messages)
        x.system.host.now x.system.host.broker.messages s s' ∧
      ∀ n payload, (⟨x, a, y⟩ : Transition).Puts s.topic n payload →
        s' = s.receive s.topic ⟨n, payload, 1⟩ := by
  have hlt := (List.getElem?_eq_some_iff.mp hj).1
  have unput : y.system.host.broker.messages = x.system.host.broker.messages →
      ∀ {s' : Subscription} n payload, (⟨x, a, y⟩ : Transition).Puts s.topic n payload →
        s' = s.receive s.topic ⟨n, payload, 1⟩ := by
    intro he s' n payload puts
    have := puts.1
    have := puts.2.1
    dsimp only at *
    omega
  cases Session.moves_of_after? h with
  | performed _ hp =>
    obtain ⟨u, hu, he⟩ := hp
    have effect := Session.subscribes_effect hu
    have messages := he.messages.trans effect.messages
    have kept : ∀ {s' : Subscription}, u.system.host.broker.subscriptions[j]? = some s' →
        y.system.host.broker.subscriptions[j]? = some s' := by
      intro s' hs'
      have same := he.subscriptions.kept j (List.getElem?_eq_some_iff.mp hs').1
        (effect.own ▸ apart.apart j hr)
      simpa [hs'] using same
    rcases effect.receivers with ⟨-, hsubs | hsubs⟩ | ⟨-, config, hsubs⟩
    · exact ⟨s, kept (by rw [hsubs, hj]), .same, unput messages⟩
    · refine ⟨_, kept ?_, .detached, unput messages⟩
      rw [hsubs]
      simp [Broker.close, hj]
    · exact ⟨s, kept (by rw [hsubs, List.getElem?_append_left hlt, hj]), .same, unput messages⟩
  | injected topic payload =>
    refine ⟨s.receive topic ⟨x.system.host.broker.messages, payload, 1⟩, ?_,
      outside_receive s _ _ _ _ fun ht => ⟨rfl, rfl, .inl (ht ▸ rfl)⟩, fun n payload' puts => ?_⟩
    · change (x.system.host.broker.fanOut topic payload).subscriptions[j]? = _
      unfold Broker.fanOut
      rw [List.getElem?_map, hj]
      rfl
    · obtain ⟨rfl, -, he | hp⟩ := puts
      · cases he
        rfl
      · -- what is injected is not published
        have := congrArg List.length hp
        simp [Session.onBroker, Session.onHost, Broker.fanOut] at this
  | @stepped agent t hs =>
    obtain ⟨s', hs', out, arrives⟩ := (Agent.host_step hs).outside hj (hown agent rfl)
    refine ⟨s', hs', out.imp fun payload hp => ⟨rfl, hp.1, .inr hp.2⟩, fun n payload puts => ?_⟩
    obtain ⟨rfl, hm, he | hp⟩ := puts
    · cases he
    · exact arrives payload hm hp
  | passed _ => exact ⟨s, hj, .same, unput rfl⟩

/-- The parts keep their subscriptions; one that is added has a new one, which is empty. -/
theorem receivers_of_after? (h : x.after? a = some y) (apart : Apart x) :
    y.system.receivers = x.system.receivers ∨
    (y.system.receivers = { x.system.receivers with
        listening := x.system.receivers.listening ++ [x.system.host.broker.subscriptions.length] } ∨
      y.system.receivers = { x.system.receivers with
        consuming :=
          x.system.receivers.consuming ++ [x.system.host.broker.subscriptions.length] }) ∧
      ∃ config : SubscriptionConfig,
        y.system.host.broker.subscriptions[x.system.host.broker.subscriptions.length]? =
          some { toSubscriptionConfig := config } := by
  cases Session.moves_of_after? h with
  | performed _ hp =>
    obtain ⟨u, hu, he⟩ := hp
    have effect := Session.subscribes_effect hu
    rw [he.receivers]
    rcases effect.receivers with ⟨hr, -⟩ | ⟨hr, config, hsubs⟩
    · exact .inl hr
    · refine .inr ⟨hr, config, ?_⟩
      have same := he.subscriptions.kept x.system.host.broker.subscriptions.length
        (by rw [hsubs]; simp) fun hown =>
          Nat.lt_irrefl _ (apart.own _ (effect.own ▸ hown))
      rw [hsubs] at same
      simpa using same
  | injected _ _ => exact .inl rfl
  | stepped hs => exact .inl (Agent.receivers_step hs)
  | passed _ => exact .inl rfl

/-- A listener had its subscription before, or is new. -/
theorem listening_cases (h : x.after? a = some y) (apart : Apart x) {c j : Nat}
    (hc : y.system.receivers.listening[c]? = some j) :
    x.system.receivers.listening[c]? = some j ∨
      ∃ config : SubscriptionConfig,
        y.system.host.broker.subscriptions[j]? = some { toSubscriptionConfig := config } := by
  rcases receivers_of_after? h apart with hr | ⟨hr | hr, config, hnew⟩
  · exact .inl (hr ▸ hc)
  · rw [hr] at hc
    rcases getElem?_concat_cases hc with hc | ⟨-, rfl⟩
    · exact .inl hc
    · exact .inr ⟨config, hnew⟩
  · rw [hr] at hc
    exact .inl hc

theorem Session.now_effect (h : Effect x y) : y.system.host.now = x.system.host.now := by
  cases h with
  | @registered c _ _ _ r id u _ _ hu =>
    subst hu
    let z := x.onSystem (·.adjustCorrelator c fun co => { co with registry := r })
    exact congrArg Host.now (z.upToRegistries_dropWaiter id).host
  | droppedWaiter id => exact congrArg Host.now (x.upToRegistries_dropWaiter id).host
  | @aborted n c _ _ _ =>
    exact congrArg Host.now (System.UpToRegistries.forsake x.system n c.phase).host
  | openedPublisher _ hs _ =>
    obtain ⟨-, rfl, rfl⟩ := Host.subscribe_ok hs
    rfl
  | startedCorrelator hs =>
    obtain ⟨-, rfl, rfl⟩ := Host.subscribe_ok hs
    rfl
  | startedConsumer _ hs =>
    obtain ⟨-, rfl, rfl⟩ := Host.subscribe_ok hs
    rfl
  | _ => rfl

/-- Time passes in actions of its own only. -/
theorem now_of_after? (h : x.after? a = some y) (still : ∀ moment, a ≠ .tick moment) :
    y.system.host.now = x.system.host.now := by
  cases Session.moves_of_after? h with
  | performed _ hp =>
    obtain ⟨u, effect, elsewhere⟩ := hp
    exact elsewhere.now.trans (Session.now_effect effect)
  | injected _ _ => rfl
  | stepped hs => exact (Agent.host_step hs).now
  | passed _ => exact absurd rfl (still _)

theorem now_le_of_after? (h : x.after? a = some y) :
    x.system.host.now ≤ y.system.host.now := by
  by_cases still : ∀ moment, a ≠ .tick moment
  · exact Nat.le_of_eq (now_of_after? h still).symm
  · push Not at still
    obtain ⟨moment, rfl⟩ := still
    unfold Session.after? at h
    dsimp only at h
    split at h
    next later => exact Option.some.inj h ▸ later
    next => cases h

theorem messages_le_of_after? (h : x.after? a = some y) :
    x.system.host.broker.messages ≤ y.system.host.broker.messages := by
  cases Session.moves_of_after? h with
  | performed _ hp =>
    obtain ⟨u, hu, he⟩ := hp
    exact Nat.le_of_eq (he.messages.trans (Session.subscribes_effect hu).messages).symm
  | injected _ _ => exact Nat.le_succ _
  | stepped hs => exact (Agent.host_step hs).messages_le
  | passed _ => exact Nat.le_refl _

end Script

end ChangeDispatch
