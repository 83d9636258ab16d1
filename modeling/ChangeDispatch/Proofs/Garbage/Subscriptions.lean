import ChangeDispatch.Broker.Host
import Mathlib.Data.List.Forall2
import Mathlib.Order.Basic

/-!
# Subscriptions that match

Two subscriptions match if they differ only in garbage: in payloads on one topic that nobody can
read as acknowledgments and that have not been received yet, and in the numbers that the messages
have got. What one of them does with a message, the other does with the message that it is
matched with.
-/
namespace ChangeDispatch

open List (Forall₂)

/-! ## Lists that match -/

section

variable {α β : Type} {R : α → β → Prop} {l : List α} {l' : List β}

theorem rel_cases {o : Option α} {o' : Option β} (h : Option.Rel R o o') :
    o = none ∧ o' = none ∨ ∃ a b, o = some a ∧ o' = some b ∧ R a b := by
  cases h with
  | none => exact .inl ⟨rfl, rfl⟩
  | some same => exact .inr ⟨_, _, rfl, rfl, same⟩

theorem rel_getElem? (h : Forall₂ R l l') (i : Nat) : Option.Rel R l[i]? l'[i]? := by
  induction h generalizing i with
  | nil => exact .none
  | cons first _ ih =>
    cases i with
    | zero => exact .some first
    | succ i => exact ih i

theorem forall₂_modify (h : Forall₂ R l l') {i : Nat} {f : α → α} {g : β → β}
    (each : ∀ a b, R a b → R (f a) (g b)) : Forall₂ R (l.modify i f) (l'.modify i g) := by
  induction h generalizing i with
  | nil => simp
  | cons first rest ih =>
    cases i with
    | zero => exact .cons (each _ _ first) rest
    | succ i => exact .cons first ih

/-- An entry of the second list changes alone. -/
theorem forall₂_modify_right (h : Forall₂ R l l') {i : Nat} {g : β → β}
    (each : ∀ a b, l'[i]? = some b → R a b → R a (g b)) : Forall₂ R l (l'.modify i g) := by
  induction h generalizing i with
  | nil => simp
  | cons first rest ih =>
    cases i with
    | zero => exact .cons (each _ _ rfl first) rest
    | succ i => exact .cons first (ih fun a b hb => each a b hb)

theorem forall₂_erase [BEq α] [LawfulBEq α] [BEq β] [LawfulBEq β] (unique : Relator.BiUnique R)
    (h : Forall₂ R l l') {a : α} {b : β} (same : R a b) :
    Forall₂ R (l.erase a) (l'.erase b) := by
  induction h with
  | nil => exact .nil
  | @cons x y l l' first rest ih =>
    by_cases hx : x = a
    · subst hx
      obtain rfl : y = b := unique.2 first same
      rw [List.erase_cons_head, List.erase_cons_head]
      exact rest
    · have hy : y ≠ b := by
        rintro rfl
        exact hx (unique.1 first same)
      rw [List.erase_cons_tail (by simpa using hx), List.erase_cons_tail (by simpa using hy)]
      exact .cons first ih

theorem isEmpty_eq_of_forall₂ (h : Forall₂ R l l') : l'.isEmpty = l.isEmpty := by
  cases h <;> rfl

theorem map_eq_of_forall₂ {γ : Type} (h : Forall₂ R l l') {f : α → γ} {g : β → γ}
    (each : ∀ a b, R a b → g b = f a) : l'.map g = l.map f := by
  induction h with
  | nil => rfl
  | cons first _ ih => rw [List.map_cons, List.map_cons, ih, each _ _ first]

theorem countP_eq_of_forall₂ (h : Forall₂ R l l') {p : α → Bool} {q : β → Bool}
    (each : ∀ a b, R a b → q b = p a) : l'.countP q = l.countP p := by
  induction h with
  | nil => rfl
  | cons first _ ih => rw [List.countP_cons, List.countP_cons, ih, each _ _ first]

theorem rel_find? (h : Forall₂ R l l') {p : α → Bool} {q : β → Bool}
    (each : ∀ a b, R a b → p a = q b) : Option.Rel R (l.find? p) (l'.find? q) := by
  induction h with
  | nil => exact .none
  | @cons a b _ _ first _ ih =>
    have same := each a b first
    cases found : p a with
    | true =>
      rw [List.find?_cons_of_pos found, List.find?_cons_of_pos (same ▸ found)]
      exact .some first
    | false =>
      rw [List.find?_cons_of_neg (by simp [found]),
        List.find?_cons_of_neg (by simp [← same, found])]
      exact ih

end

/-! ## Answers that agree -/

/-- The same answer, with states that are related. -/
structure Agree {α β γ : Type} (R : β → γ → Prop) (p : α × β) (q : α × γ) : Prop where
  answer : q.1 = p.1
  state : R p.2 q.2

namespace Agree

variable {α β γ : Type} {R : β → γ → Prop} {p : α × β} {q : α × γ}

theorem parts (h : Agree R p q) : ∃ answer x y, p = (answer, x) ∧ q = (answer, y) ∧ R x y :=
  ⟨p.1, p.2, q.2, rfl, congrArg (·, q.2) h.answer, h.state⟩

theorem map (h : Agree R p q) {δ ε : Type} {S : δ → ε → Prop} {f : β → δ} {g : γ → ε}
    (each : ∀ {x y}, R x y → S (f x) (g y)) : Agree S (p.1, f p.2) (q.1, g q.2) :=
  ⟨h.answer, each h.state⟩

end Agree

/-! ## Deliveries -/

/-- The payload can be read as an acknowledgment. -/
def AckEvent.canRead (payload : Payload) : Bool := (ofPayload payload).isOk

/-- An offer of the message that is matched with the message of the other one. -/
structure Delivery.Matches (P : Nat → Nat → Prop) (d d' : Delivery) : Prop where
  message : P d.message d'.message
  payload : d'.payload = d.payload
  number : d'.number = d.number

/-- Two offers that match, held back by the same timer. -/
structure Delivery.Delayed (P : Nat → Nat → Prop) (e e' : Timer × Delivery) : Prop where
  timer : e'.1 = e.1
  offer : e.2.Matches P e'.2

variable {T : String} {P Q : Nat → Nat → Prop}

namespace Delivery

variable {d d' : Delivery} {e e' : Timer × Delivery}

theorem Matches.biUnique (unique : Relator.BiUnique P) :
    Relator.BiUnique (Delivery.Matches P) := by
  constructor
  · rintro ⟨_, _, _⟩ ⟨_, _, _⟩ ⟨_, _, _⟩ ⟨h, rfl, rfl⟩ ⟨k, same, rfl⟩
    cases unique.1 h k
    cases same
    rfl
  · rintro ⟨_, _, _⟩ ⟨_, _, _⟩ ⟨_, _, _⟩ ⟨h, rfl, rfl⟩ ⟨k, rfl, rfl⟩
    cases unique.2 h k
    rfl

theorem Matches.mono (sub : P ≤ Q) (h : d.Matches P d') : d.Matches Q d' :=
  { h with message := sub _ _ h.message }

theorem Matches.symm (h : d.Matches P d') : d'.Matches (flip P) d :=
  ⟨h.message, h.payload.symm, h.number.symm⟩

theorem Matches.again (h : d.Matches P d') : d.again.Matches P d'.again where
  message := h.message
  payload := h.payload
  number := congrArg (· + 1) h.number

theorem Delayed.biUnique (unique : Relator.BiUnique P) :
    Relator.BiUnique (Delivery.Delayed P) := by
  have same := Matches.biUnique unique
  constructor
  · rintro ⟨_, d⟩ ⟨_, e⟩ ⟨_, f⟩ ⟨rfl, h⟩ ⟨timer, k⟩
    cases same.1 h k
    cases timer
    rfl
  · rintro ⟨_, d⟩ ⟨_, e⟩ ⟨_, f⟩ ⟨rfl, h⟩ ⟨rfl, k⟩
    cases same.2 h k
    rfl

theorem Delayed.mono (sub : P ≤ Q) (h : Delayed P e e') : Delayed Q e e' :=
  ⟨h.timer, h.offer.mono sub⟩

theorem Delayed.symm (h : Delayed P e e') : Delayed (flip P) e' e :=
  ⟨h.timer.symm, h.offer.symm⟩

end Delivery

/-! ## Subscriptions -/

namespace Subscription

/-- Somebody may do something with an offer: on the topic `T` if it can be read. -/
def heeds (T : String) (s : Subscription) (d : Delivery) : Bool :=
  s.topic != T || AckEvent.canRead d.payload

/-- What waits in the channel and is no garbage. -/
def heeded (T : String) (s : Subscription) : List Delivery := s.channel.filter (s.heeds T)

/-- Two subscriptions that differ in garbage, and in the numbers of their messages. -/
structure Matches (T : String) (P : Nat → Nat → Prop) (s s' : Subscription) : Prop where
  config : s'.toSubscriptionConfig = s.toSubscriptionConfig
  attached : s'.attached = s.attached
  receiving : s'.receiving = s.receiving
  channel : Forall₂ (Delivery.Matches P) (s.heeded T) (s'.heeded T)
  held : Forall₂ (Delivery.Matches P) s.held s'.held
  delayed : Forall₂ (Delivery.Delayed P) s.delayed s'.delayed

variable {s s' : Subscription} {d d' : Delivery}

/-- What is received and let go of leaves no trace. -/
theorem release_taken (rest : s.held = []) {channel : List Delivery} :
    Subscription.release { s with channel, held := s.held ++ [d] } d = { s with channel } := by
  unfold Subscription.release
  dsimp only
  rw [rest, List.nil_append, List.erase_cons_head]

/-- What is received next is no garbage. -/
def Clear (T : String) (s : Subscription) : Prop :=
  ∀ d channel, s.channel = d :: channel → s.heeds T d

theorem clear_of_ne (other : s.topic ≠ T) : s.Clear T := fun d _ _ => by simp [heeds, other]

namespace Matches

theorem topic (h : s.Matches T P s') : s'.topic = s.topic :=
  congrArg SubscriptionConfig.topic h.config

theorem heeds_eq (h : s.Matches T P s') (hd : d.Matches P d') : s'.heeds T d' = s.heeds T d := by
  rw [heeds, heeds, h.topic, hd.payload]

theorem mono (sub : P ≤ Q) (h : s.Matches T P s') : s.Matches T Q s' :=
  { h with
    channel := h.channel.imp fun _ _ => .mono sub
    held := h.held.imp fun _ _ => .mono sub
    delayed := h.delayed.imp fun _ _ => .mono sub }

theorem symm (h : s.Matches T P s') : s'.Matches T (flip P) s where
  config := h.config.symm
  attached := h.attached.symm
  receiving := h.receiving.symm
  channel := (h.channel.imp fun _ _ => Delivery.Matches.symm).flip
  held := (h.held.imp fun _ _ => Delivery.Matches.symm).flip
  delayed := (h.delayed.imp fun _ _ => Delivery.Delayed.symm).flip

theorem heeded_singleton (h : s.Matches T P s') (hd : d.Matches P d') :
    Forall₂ (Delivery.Matches P) ([d].filter (s.heeds T)) ([d'].filter (s'.heeds T)) := by
  have same := h.heeds_eq hd
  cases heeded : s.heeds T d with
  | true =>
    rw [List.filter_singleton, List.filter_singleton, same, heeded]
    exact .cons hd .nil
  | false =>
    rw [List.filter_singleton, List.filter_singleton, same, heeded]
    exact .nil

theorem arrive (h : s.Matches T P s') (hd : d.Matches P d') :
    (s.arrive d).Matches T P (s'.arrive d') := by
  unfold Subscription.arrive
  by_cases receiving : s.receiving
  · rw [if_pos receiving, if_pos (h.receiving.trans receiving)]
    refine { h with channel := ?_ }
    unfold heeded
    dsimp only
    rw [List.filter_append, List.filter_append]
    exact List.rel_append h.channel (h.heeded_singleton hd)
  · rw [if_neg receiving, if_neg (h.receiving ▸ receiving)]
    exact h

/-- The garbage that arrives makes no difference. -/
theorem arrive_garbage (h : s.Matches T P s') (garbage : s'.heeds T d' = false) :
    s.Matches T P (s'.arrive d') := by
  unfold Subscription.arrive
  split
  · refine { h with channel := ?_ }
    have same : heeded T { s' with channel := s'.channel ++ [d'] } = s'.heeded T := by
      unfold heeded
      dsimp only
      rw [List.filter_append, List.filter_singleton]
      change _ ++ (bif s'.heeds T d' then [d'] else []) = _
      rw [garbage]
      exact List.append_nil _
    rw [same]
    exact h.channel
  · exact h

/-- Nor does the garbage that is taken. -/
theorem skip_garbage (h : s.Matches T P s') {channel : List Delivery}
    (hc : s'.channel = d' :: channel) (garbage : s'.heeds T d' = false) :
    s.Matches T P { s' with channel } := by
  refine { h with channel := ?_ }
  have same : heeded T { s' with channel } = s'.heeded T := by
    have passed : ¬s'.heeds T d' := by simp [garbage]
    unfold heeded
    rw [hc]
    exact (List.filter_cons_of_neg passed).symm
  rw [same]
  exact h.channel

/-- What is received from both is matched. -/
theorem take (h : s.Matches T P s') {channel channel' : List Delivery}
    (hc : s.channel = d :: channel) (hd : s.heeds T d)
    (hc' : s'.channel = d' :: channel') (hd' : s'.heeds T d') :
    d.Matches P d' ∧ Matches T P { s with channel, held := s.held ++ [d] }
      { s' with channel := channel', held := s'.held ++ [d'] } := by
  have both := h.channel
  unfold heeded at both
  rw [hc, hc', List.filter_cons_of_pos hd, List.filter_cons_of_pos hd'] at both
  cases both with
  | cons first rest =>
    exact ⟨first, { h with
      channel := rest
      held := List.rel_append h.held (.cons first .nil) }⟩

/-- With no garbage ahead, there is something to receive from both or from none. -/
theorem isEmpty_eq (h : s.Matches T P s') (clear : s.Clear T) (clear' : s'.Clear T) :
    s'.channel.isEmpty = s.channel.isEmpty := by
  have both := h.channel
  unfold heeded at both
  cases hc : s.channel with
  | nil =>
    cases hc' : s'.channel with
    | nil => rfl
    | cons d' channel' =>
      rw [hc, hc', List.filter_cons_of_pos (clear' d' channel' hc')] at both
      cases both
  | cons d channel =>
    cases hc' : s'.channel with
    | nil =>
      rw [hc, hc', List.filter_cons_of_pos (clear d channel hc)] at both
      cases both
    | cons d' channel' => rfl

/-- With no garbage ahead, the same is received from both. -/
theorem take? (h : s.Matches T P s') (clear : s.Clear T) (clear' : s'.Clear T) :
    Option.Rel (fun p p' => p.1.Matches P p'.1 ∧ p.2.Matches T P p'.2) s.take? s'.take? := by
  have same := h.isEmpty_eq clear clear'
  unfold Subscription.take?
  cases hc : s.channel with
  | nil =>
    rw [hc] at same
    rw [List.isEmpty_iff.mp same]
    exact .none
  | cons d channel =>
    cases hc' : s'.channel with
    | nil =>
      rw [hc, hc'] at same
      cases same
    | cons d' channel' =>
      exact .some (h.take hc (clear d channel hc) hc' (clear' d' channel' hc'))

theorem release (h : s.Matches T P s') (unique : Relator.BiUnique P) (hd : d.Matches P d') :
    (s.release d).Matches T P (s'.release d') :=
  { h with held := forall₂_erase (Delivery.Matches.biUnique unique) h.held hd }

theorem isLast_eq (h : s.Matches T P s') (hd : d.Matches P d') : s'.isLast d' = s.isLast d := by
  have bound : s'.maxDeliveries = s.maxDeliveries :=
    congrArg SubscriptionConfig.maxDeliveries h.config
  unfold isLast
  rw [bound, hd.number]

theorem handBack (h : s.Matches T P s') (unique : Relator.BiUnique P) (hd : d.Matches P d')
    (timer : Option Timer) : (s.handBack d timer).Matches T P (s'.handBack d' timer) := by
  have released := h.release unique hd
  unfold Subscription.handBack
  dsimp only
  rw [released.isLast_eq hd]
  split
  · exact released
  · cases timer with
    | none => exact released.arrive hd.again
    | some timer =>
      exact { released with
        delayed := List.rel_append released.delayed (.cons ⟨rfl, hd.again⟩ .nil) }

theorem delayed? (h : s.Matches T P s') (serial : Nat) :
    Option.Rel (Delivery.Delayed P) (s.delayed? serial) (s'.delayed? serial) := by
  refine rel_find? h.delayed fun e e' same => ?_
  rw [same.timer]

theorem offerDelayed (h : s.Matches T P s') (unique : Relator.BiUnique P)
    {e e' : Timer × Delivery} (he : Delivery.Delayed P e e') :
    (s.offerDelayed e).Matches T P (s'.offerDelayed e') := by
  have erased : Matches T P { s with delayed := s.delayed.erase e }
      { s' with delayed := s'.delayed.erase e' } :=
    { h with delayed := forall₂_erase (Delivery.Delayed.biUnique unique) h.delayed he }
  exact erased.arrive he.offer

theorem stopReceiving (h : s.Matches T P s') : s.stopReceiving.Matches T P s'.stopReceiving :=
  { h with receiving := rfl, channel := .nil }

theorem detach (h : s.Matches T P s') :
    Matches T P { s with attached := false } { s' with attached := false } :=
  { h with attached := rfl }

theorem isEnded_eq (h : s.Matches T P s') (channels : s'.channel.isEmpty = s.channel.isEmpty) :
    s'.isEnded = s.isEnded := by
  unfold isEnded
  rw [h.attached, channels, isEmpty_eq_of_forall₂ h.held, isEmpty_eq_of_forall₂ h.delayed]

end Matches

end Subscription

end ChangeDispatch
