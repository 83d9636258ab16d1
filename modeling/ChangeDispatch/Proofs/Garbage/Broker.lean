import ChangeDispatch.Proofs.Garbage.Subscriptions

/-!
# Brokers that match

Two brokers match if their subscriptions do and they agree in all but the number of their
messages and the count of terminated ones. Everything that is done to both keeps this, and so
does garbage that only one of them gets.
-/
namespace ChangeDispatch

open List (Forall₂)

variable {T : String} {P Q : Nat → Nat → Prop}

/-! ## The numbers of messages -/

/-- The messages of two brokers that have had so many are matched one to one. -/
structure Numbering (P : Nat → Nat → Prop) (n n' : Nat) : Prop where
  unique : Relator.BiUnique P
  known : ∀ {m m' : Nat}, P m m' → m < n ∧ m' < n'

/-- One more pair of messages. -/
def Paired (P : Nat → Nat → Prop) (n n' m m' : Nat) : Prop := P m m' ∨ m = n ∧ m' = n'

namespace Numbering

variable {n n' : Nat}

theorem start : Numbering (fun _ _ => False) 0 0 := ⟨⟨nofun, nofun⟩, nofun⟩

theorem le_paired (P : Nat → Nat → Prop) (n n' : Nat) : P ≤ Paired P n n' := fun _ _ => .inl

theorem paired (h : Numbering P n n') : Numbering (Paired P n n') (n + 1) (n' + 1) where
  unique := by
    constructor
    · rintro a b c (hab | ⟨rfl, rfl⟩) (hcb | ⟨rfl, same⟩)
      · exact h.unique.1 hab hcb
      · exact absurd (h.known hab).2 (same ▸ Nat.lt_irrefl _)
      · exact absurd (h.known hcb).2 (Nat.lt_irrefl _)
      · rfl
    · rintro a b c (hab | ⟨rfl, rfl⟩) (hac | ⟨same, rfl⟩)
      · exact h.unique.2 hab hac
      · exact absurd (h.known hab).1 (same ▸ Nat.lt_irrefl _)
      · exact absurd (h.known hac).1 (Nat.lt_irrefl _)
      · rfl
  known := by
    rintro m m' (hm | ⟨rfl, rfl⟩)
    · have := h.known hm
      omega
    · omega

/-- A message of the second broker that has no match. -/
theorem skip (h : Numbering P n n') : Numbering P n (n' + 1) :=
  { h with known := fun hm => ⟨(h.known hm).1, Nat.lt_succ_of_lt (h.known hm).2⟩ }

theorem symm (h : Numbering P n n') : Numbering (flip P) n' n :=
  ⟨⟨fun _ _ _ => (h.unique.2 · ·), fun _ _ _ => (h.unique.1 · ·)⟩, fun hm => (h.known hm).symm⟩

end Numbering

/-! ## Brokers -/

namespace Broker

/-- What is received next from a subscription is no garbage. -/
def Clear (T : String) (b : Broker) (i : Nat) : Prop :=
  ∀ s, b.subscriptions[i]? = some s → s.Clear T

/-- Two brokers that differ in garbage, and in the numbers of their messages. -/
inductive Matches (T : String) (P : Nat → Nat → Prop) (b : Broker) : Broker → Prop where
  | intro {subscriptions : List Subscription} {messages terminated : Nat} :
      Forall₂ (Subscription.Matches T P) b.subscriptions subscriptions →
      Numbering P b.messages messages →
      Matches T P b { b with subscriptions, messages, terminated }

namespace Matches

variable {b b' : Broker} {d d' : Delivery} {i : Nat}

theorem subscriptions (h : b.Matches T P b') :
    Forall₂ (Subscription.Matches T P) b.subscriptions b'.subscriptions := by
  cases h
  assumption

theorem numbers (h : b.Matches T P b') : Numbering P b.messages b'.messages := by
  cases h
  assumption

theorem published_eq (h : b.Matches T P b') : b'.published = b.published := by
  cases h
  rfl

theorem failReceives_eq (h : b.Matches T P b') : b'.failReceives = b.failReceives := by
  cases h
  rfl

theorem symm (h : b.Matches T P b') : b'.Matches T (flip P) b := by
  cases h with
  | intro hs hn =>
    exact .intro (hs.imp fun _ _ => Subscription.Matches.symm).flip hn.symm

theorem adjust (h : b.Matches T P b') (i : Nat) {f g : Subscription → Subscription}
    (each : ∀ s s', s.Matches T P s' → (f s).Matches T P (g s')) :
    (b.adjust i f).Matches T P (b'.adjust i g) := by
  cases h with
  | intro hs hn => exact .intro (forall₂_modify hs each) hn

/-! ### Messages that are put -/

theorem offered (payload : Payload) (topic : String) {s s' : Subscription} {m m' : Nat}
    (h : s.Matches T P s') (hm : P m m') :
    (if s.attached && s.topic == topic then s.arrive ⟨m, payload, 1⟩ else s).Matches T P
      (if s'.attached && s'.topic == topic then s'.arrive ⟨m', payload, 1⟩ else s') := by
  have same : (s'.attached && s'.topic == topic) = (s.attached && s.topic == topic) := by
    rw [h.attached, h.topic]
  rw [same]
  split
  · exact h.arrive ⟨hm, rfl, rfl⟩
  · exact h

theorem fanOut (h : b.Matches T P b') (topic : String) (payload : Payload) :
    ∃ Q, P ≤ Q ∧ (b.fanOut topic payload).Matches T Q (b'.fanOut topic payload) := by
  cases h with
  | @intro _ messages _ hs hn =>
    have sub := Numbering.le_paired P b.messages messages
    refine ⟨_, sub, .intro (List.rel_map (fun s s' each => ?_) hs) hn.paired⟩
    exact offered payload topic (each.mono sub) (.inr ⟨rfl, rfl⟩)

/-- Garbage that only the second broker gets. -/
theorem fanOut_garbage (h : b.Matches T P b') {payload : Payload}
    (garbage : AckEvent.canRead payload = false) : b.Matches T P (b'.fanOut T payload) := by
  cases h with
  | intro hs hn =>
    refine .intro (List.forall₂_map_right_iff.mpr (hs.imp fun s s' each => ?_)) hn.skip
    split
    next offered =>
      rw [Bool.and_eq_true, beq_iff_eq] at offered
      refine each.arrive_garbage ?_
      simp [Subscription.heeds, offered.2, garbage]
    next => exact each

theorem publish (h : b.Matches T P b') (topic : String) (payload : Payload) :
    ∃ Q, P ≤ Q ∧
      Agree (Broker.Matches T Q) (b.publish topic payload) (b'.publish topic payload) := by
  cases h with
  | @intro subscriptions messages terminated hs hn =>
    unfold Broker.publish
    dsimp only
    split
    · exact ⟨P, le_refl P, rfl, .intro hs hn⟩
    · cases b.failPublishes with
      | zero =>
        let logged : Broker :=
          { b with
            attempts := b.attempts + 1
            published := b.published ++ [(topic, payload)]
            failPublishes := 0 }
        have same : logged.Matches T P { logged with subscriptions, messages, terminated } :=
          .intro hs hn
        obtain ⟨Q, sub, put⟩ := same.fanOut topic payload
        exact ⟨Q, sub, rfl, put⟩
      | succ n => exact ⟨P, le_refl P, rfl, .intro hs hn⟩

/-! ### Subscriptions -/

theorem subscribe (h : b.Matches T P b') (config : SubscriptionConfig) :
    Agree (Broker.Matches T P) (b.subscribe config) (b'.subscribe config) := by
  cases h with
  | intro hs hn =>
    unfold Broker.subscribe
    dsimp only
    split
    · exact ⟨rfl, .intro hs hn⟩
    · split
      · exact ⟨rfl, .intro hs hn⟩
      · rw [← hs.length_eq]
        refine ⟨rfl, .intro (List.rel_append hs (.cons ?_ .nil)) hn⟩
        exact ⟨rfl, rfl, rfl, .nil, .nil, .nil⟩

theorem close (h : b.Matches T P b') : b.close.Matches T P b'.close := by
  cases h with
  | intro hs hn => exact .intro (List.rel_map (fun _ _ each => each.detach) hs) hn

theorem stopReceiving (h : b.Matches T P b') (i : Nat) :
    (b.stopReceiving i).Matches T P (b'.stopReceiving i) :=
  h.adjust i fun _ _ hs => hs.stopReceiving

theorem beginReceive (h : b.Matches T P b') :
    Agree (Broker.Matches T P) b.beginReceive b'.beginReceive := by
  obtain ⟨_, _, _, _, _, _, _, _, failReceives, _, _⟩ := b
  cases h with
  | intro hs hn =>
    unfold Broker.beginReceive
    cases failReceives with
    | zero => exact ⟨rfl, .intro hs hn⟩
    | succ n => exact ⟨rfl, .intro hs hn⟩

/-- With no garbage ahead, the same is received from both. -/
theorem take? (h : b.Matches T P b') (clear : b.Clear T i) (clear' : b'.Clear T i) :
    Option.Rel (fun p p' => p.1.Matches P p'.1 ∧ p.2.Matches T P p'.2) (b.take? i)
      (b'.take? i) := by
  unfold Broker.take?
  rcases rel_cases (rel_getElem? h.subscriptions i) with ⟨left, right⟩ | ⟨s, s', left, right, same⟩
  · rw [left, right]
    exact .none
  · rw [left, right]
    rcases rel_cases (same.take? (clear s left) (clear' s' right)) with
      ⟨left, right⟩ | ⟨p, p', left, right, taken⟩
    · dsimp only [bind, Option.bind]
      rw [left, right]
      exact .none
    · dsimp only [bind, Option.bind]
      rw [left, right]
      exact .some ⟨taken.1, h.adjust i fun _ _ _ => taken.2⟩

theorem isEnded_eq (h : b.Matches T P b') (clear : b.Clear T i) (clear' : b'.Clear T i) :
    b'.isEnded i = b.isEnded i := by
  unfold isEnded
  rcases rel_cases (rel_getElem? h.subscriptions i) with ⟨left, right⟩ | ⟨s, s', left, right, same⟩
  · rw [left, right]
  · rw [left, right]
    exact same.isEnded_eq (same.isEmpty_eq (clear s left) (clear' s' right))

/-- On another topic there is no garbage. -/
theorem clear_of_ne (h : b.Matches T P b')
    (other : ∀ s, b.subscriptions[i]? = some s → s.topic ≠ T) :
    b.Clear T i ∧ b'.Clear T i := by
  refine ⟨fun s hs => s.clear_of_ne (other s hs), fun s' hs' => s'.clear_of_ne ?_⟩
  have pair := rel_getElem? h.subscriptions i
  rw [hs'] at pair
  rcases rel_cases pair with ⟨-, right⟩ | ⟨s, t, left, right, same⟩
  · cases right
  · obtain rfl := Option.some.inj right
    exact same.topic ▸ other s left

theorem subscriberCount_eq (h : b.Matches T P b') (topic : String) :
    b'.subscriberCount topic = b.subscriberCount topic := by
  refine countP_eq_of_forall₂ h.subscriptions fun s s' same => ?_
  rw [same.attached, same.receiving, same.topic]

/-! ### Deliveries -/

theorem ack (h : b.Matches T P b') (i : Nat) (hd : d.Matches P d') :
    (b.ack i d).Matches T P (b'.ack i d') := by
  cases h with
  | intro hs hn => exact .intro (forall₂_modify hs fun _ _ each => each.release hn.unique hd) hn

theorem terminate (h : b.Matches T P b') (i : Nat) (hd : d.Matches P d') :
    (b.terminate i d).Matches T P (b'.terminate i d') := by
  cases h with
  | intro hs hn => exact .intro (forall₂_modify hs fun _ _ each => each.release hn.unique hd) hn

theorem nack (h : b.Matches T P b') (i : Nat) (hd : d.Matches P d') (timer : Option Timer) :
    (b.nack i d timer).Matches T P (b'.nack i d' timer) := by
  cases h with
  | intro hs hn =>
    exact .intro (forall₂_modify hs fun _ _ each => each.handBack hn.unique hd timer) hn

/-- Garbage that is received from the second broker and let go of. -/
theorem drop_garbage (h : b.Matches T P b') {s : Subscription} {channel : List Delivery}
    (hs : b'.subscriptions[i]? = some s) (hc : s.channel = d :: channel)
    (garbage : s.heeds T d = false) (rest : s.held = []) (terminated : Nat) :
    b.Matches T P
      { (b'.adjust i fun _ => { s with channel, held := s.held ++ [d] }).discard i d with
        terminated } := by
  cases h with
  | intro each hn =>
    refine .intro ?_ hn
    change Forall₂ _ _ (List.modify (List.modify _ _ _) _ _)
    rw [List.modify_modify_eq]
    refine forall₂_modify_right each fun u v hv same => ?_
    obtain rfl := Option.some.inj (hs.symm.trans hv)
    have skipped := same.skip_garbage hc garbage
    rw [← Subscription.release_taken rest] at skipped
    exact skipped

theorem discard (h : b.Matches T P b') (i : Nat) (hd : d.Matches P d') :
    (b.discard i d).Matches T P (b'.discard i d') :=
  h.adjust i fun _ _ hs => hs.release h.numbers.unique hd

theorem delayed? (h : b.Matches T P b') (i serial : Nat) :
    Option.Rel (Delivery.Delayed P) (b.delayed? i serial) (b'.delayed? i serial) := by
  unfold Broker.delayed?
  rcases rel_cases (rel_getElem? h.subscriptions i) with ⟨left, right⟩ | ⟨s, s', left, right, same⟩
  · rw [left, right]
    exact .none
  · rw [left, right]
    exact same.delayed? serial

theorem offerDelayed (h : b.Matches T P b') (i : Nat) {e e' : Timer × Delivery}
    (he : Delivery.Delayed P e e') : (b.offerDelayed i e).Matches T P (b'.offerDelayed i e') :=
  h.adjust i fun _ _ hs => hs.offerDelayed h.numbers.unique he

end Matches

end Broker

/-! ## Hosts -/

namespace Host

/-- Two hosts whose brokers match and which agree in all else but their journals. -/
inductive Matches (T : String) (P : Nat → Nat → Prop) (h : Host) : Host → Prop where
  | intro {broker : Broker} {journal : List JournalEntry} :
      h.broker.Matches T P broker → Matches T P h { h with broker, journal }

namespace Matches

variable {h h' : Host} {d d' : Delivery} {i : Nat}

theorem broker (m : h.Matches T P h') : h.broker.Matches T P h'.broker := by
  cases m
  assumption

theorem symm (m : h.Matches T P h') : h'.Matches T (flip P) h := by
  cases m with
  | intro broker => exact .intro broker.symm

theorem isDue_eq (m : h.Matches T P h') (timer : Timer) : h'.isDue timer = h.isDue timer := by
  cases m
  rfl

theorem now_eq (m : h.Matches T P h') : h'.now = h.now := by
  cases m
  rfl

theorem faults_eq (m : h.Matches T P h') : h'.faults = h.faults := by
  cases m
  rfl

theorem withBroker (m : h.Matches T P h') {b b' : Broker} (hb : b.Matches T Q b') :
    Host.Matches T Q { h with broker := b } { h' with broker := b' } := by
  cases m
  exact .intro hb

/-! ### The clock and the journal -/

theorem note (m : h.Matches T P h') (n n' : Notice) : (h.note n).Matches T P (h'.note n') := by
  cases m with
  | intro broker => exact .intro broker

theorem noteError {α : Type} (m : h.Matches T P h') (r r' : Except α Unit) (f f' : α → Notice) :
    (h.noteError r f).Matches T P (h'.noteError r' f') := by
  cases m with
  | intro broker => cases r <;> cases r' <;> exact .intro broker

theorem setTimer (m : h.Matches T P h') (delay : Nat) :
    Agree (Host.Matches T P) (h.setTimer delay) (h'.setTimer delay) := by
  cases m with
  | intro broker => exact ⟨rfl, .intro broker⟩

theorem atMoment (m : h.Matches T P h') (moment : Nat) :
    Host.Matches T P { h with now := moment } { h' with now := moment } := by
  cases m with
  | intro broker => exact .intro broker

theorem withFaults (m : h.Matches T P h') (faults : Faults) :
    Host.Matches T P { h with faults } { h' with faults } := by
  cases m with
  | intro broker => exact .intro broker

/-! ### The broker -/

theorem publish (m : h.Matches T P h') (topic : String) (payload : Payload) :
    ∃ Q, P ≤ Q ∧ Agree (Host.Matches T Q) (h.publish topic payload) (h'.publish topic payload) := by
  obtain ⟨Q, sub, put⟩ := m.broker.publish topic payload
  exact ⟨Q, sub, put.map fun hb => m.withBroker hb⟩

theorem subscribe (m : h.Matches T P h') (config : SubscriptionConfig) :
    Agree (Host.Matches T P) (h.subscribe config) (h'.subscribe config) :=
  (m.broker.subscribe config).map fun hb => m.withBroker hb

theorem close (m : h.Matches T P h') : Agree (Host.Matches T P) h.close h'.close := by
  cases m with
  | intro broker => exact ⟨rfl, .intro broker.close⟩

theorem beginReceive (m : h.Matches T P h') :
    Agree (Host.Matches T P) h.beginReceive h'.beginReceive :=
  m.broker.beginReceive.map fun hb => m.withBroker hb

theorem stopReceiving (m : h.Matches T P h') (i : Nat) :
    (h.stopReceiving i).Matches T P (h'.stopReceiving i) :=
  m.withBroker (m.broker.stopReceiving i)

/-- With no garbage ahead, the same is received from both. -/
theorem take? (m : h.Matches T P h') (clear : h.broker.Clear T i)
    (clear' : h'.broker.Clear T i) :
    Option.Rel (fun p p' => p.1.Matches P p'.1 ∧ p.2.Matches T P p'.2) (h.take? i)
      (h'.take? i) := by
  unfold Host.take?
  rcases rel_cases (m.broker.take? clear clear') with ⟨left, right⟩ | ⟨p, p', left, right, taken⟩
  · rw [left, right]
    exact .none
  · rw [left, right]
    exact .some ⟨taken.1, m.withBroker taken.2⟩

/-! ### Settlements -/

theorem settle (m : h.Matches T P h') (fails : Bool) (i : Nat) (hd : d.Matches P d')
    {act act' : Broker → Broker} (acts : (act h.broker).Matches T P (act' h'.broker)) :
    Agree (Host.Matches T P) (h.settle fails i d act) (h'.settle fails i d' act') := by
  unfold Host.settle
  split
  · exact ⟨rfl, m.withBroker (m.broker.discard i hd)⟩
  · exact ⟨rfl, m.withBroker acts⟩

theorem ack (m : h.Matches T P h') (i : Nat) (hd : d.Matches P d') :
    Agree (Host.Matches T P) (h.ack i d) (h'.ack i d') := by
  unfold Host.ack
  rw [m.faults_eq]
  exact m.settle _ i hd (m.broker.ack i hd)

theorem terminate (m : h.Matches T P h') (i : Nat) (hd : d.Matches P d') :
    Agree (Host.Matches T P) (h.terminate i d) (h'.terminate i d') := by
  unfold Host.terminate
  rw [m.faults_eq]
  exact m.settle _ i hd (m.broker.terminate i hd)

theorem nack (m : h.Matches T P h') (i : Nat) (hd : d.Matches P d') (delay : Duration) :
    Agree (Host.Matches T P) (h.nack i d delay) (h'.nack i d' delay) := by
  cases m with
  | @intro broker journal hb =>
    unfold Host.nack
    split
    · exact settle (.intro hb) _ i hd (hb.nack i hd none)
    · let timed : Host := { h with timers := h.timers + 1 }
      have set : timed.Matches T P { timed with broker, journal } := .intro hb
      exact set.settle _ i hd (hb.nack i hd _)

end Matches

end Host

end ChangeDispatch
