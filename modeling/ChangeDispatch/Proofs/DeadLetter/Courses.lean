import ChangeDispatch.Proofs.DeadLetter.Approval
import ChangeDispatch.Proofs.DeadLetter.Deeds

/-!
# The course of every message

What a consumer has done with a message is known from where the message is: the offers before the
one that waits have all been tried, and so has the one that is to be copied. The number of an offer
counts the offers that were taken, not the calls of the handler, as it grows also where a copy
fails; only of a message that decodes are the two the same. This is an invariant of every run,
whatever fails in it, and with it a course ends as it should.
-/
namespace ChangeDispatch

open Host (Adjusts Still Puts)
open Consumer (Deed Course tried Acts HandsBack)

/-! ## One step of a consumer -/

namespace Consumer

/-- A deed is added to what was done with its message. -/
def Deed.write (deed : Option Deed) (history : Nat → List Deed) (m : Nat) : List Deed :=
  (deed.filter (·.concerns m)).toList ++ history m

/-- A consumer with its subscription, and with what it has done with each message. -/
structure Keeps (c : Consumer) (s : Subscription) (history : Nat → List Deed) : Prop where
  topic : s.topic = c.topic
  bound : s.maxDeliveries = some c.policy.maxDeliveries
  held : s.held = c.phase.hand?.toList
  delayed : s.delayed = []
  single : s.messages.Nodup
  number : ∀ d ∈ s.channel ++ s.held, 1 ≤ d.number ∧ d.number ≤ c.policy.maxDeliveries
  /-- All offers before one that waits were tried. -/
  waiting : ∀ d ∈ s.channel, history d.message = tried c.handler d (d.number - 1)
  handling : ∀ d message timer, c.phase = .handling d message timer →
    c.handler.decode d.payload = .ok message ∧
      history d.message = .called d :: tried c.handler d (d.number - 1)
  burying : ∀ d, c.phase.toBury? = some d → history d.message = tried c.handler d d.number ∧
    ∀ message, c.handler.decode d.payload = .ok message → d.number = c.policy.maxDeliveries
  courses : ∀ m, Course c.handler c.policy.maxDeliveries (history m)

section

variable {c : Consumer} {s s' : Subscription} {history history' : Nat → List Deed} {d : Delivery}
  {deed : Option Deed}

theorem Deed.write_self (e : Deed) (history : Nat → List Deed) :
    Deed.write (some e) history e.delivery.message = e :: history e.delivery.message := by
  unfold Deed.write Deed.concerns
  rw [Option.filter_some, if_pos (beq_self_eq_true _)]
  rfl

theorem Deed.write_other (e : Deed) (history : Nat → List Deed) {m : Nat}
    (other : m ≠ e.delivery.message) : Deed.write (some e) history m = history m := by
  unfold Deed.write Deed.concerns
  rw [Option.filter_some, if_neg (by simpa using other.symm)]
  rfl

/-- Where there are fewer messages, none is there twice either. -/
theorem nodup_of_subperm (fewer : s'.copies.Subperm s.copies) (single : s.messages.Nodup) :
    s'.messages.Nodup := by
  obtain ⟨l, perm, sub⟩ := fewer
  exact (perm.map Prod.fst).nodup_iff.mp (single.sublist (sub.map Prod.fst))

namespace Keeps

theorem messages_eq (keeps : Keeps c s history) :
    s.messages = (s.channel ++ s.held).map Delivery.message := by
  unfold Subscription.messages Subscription.copies Subscription.outstanding
  rw [keeps.delayed, List.map_nil, List.append_nil, List.map_map]
  rfl

theorem held_eq (keeps : Keeps c s history) (hand : c.phase.hand? = some d) : s.held = [d] := by
  rw [keeps.held, hand]
  rfl

theorem mem_held (keeps : Keeps c s history) (hand : c.phase.hand? = some d) : d ∈ s.held :=
  keeps.held_eq hand ▸ List.mem_singleton.mpr rfl

/-- The message in hand does not wait as well. -/
theorem apart (keeps : Keeps c s history) (hand : c.phase.hand? = some d) :
    ∀ e ∈ s.channel, e.message ≠ d.message := by
  have single := keeps.single
  rw [keeps.messages_eq, List.map_append, keeps.held_eq hand, List.nodup_append] at single
  exact fun e mem => single.2.2 _ (List.mem_map_of_mem mem) _ List.mem_cons_self

theorem inHand (keeps : Keeps c s history) (hand : c.phase.hand? = some d) :
    1 ≤ d.number ∧ d.number ≤ c.policy.maxDeliveries :=
  keeps.number d (List.mem_append_right _ (keeps.mem_held hand))

/-- What is in hand stays there, and goes on to be copied. -/
theorem stay (keeps : Keeps c s history) (hand : c.phase.hand? = some d)
    {phase : Phase} (buries : phase.toBury? = some d)
    (others : ∀ m, m ≠ d.message → history' m = history m)
    (all : history' d.message = tried c.handler d d.number)
    (last : ∀ message, c.handler.decode d.payload = .ok message →
      d.number = c.policy.maxDeliveries) : Keeps { c with phase } s history' := by
  obtain ⟨-, below⟩ := keeps.inHand hand
  have handed := hand?_of_toBury? buries
  refine ⟨keeps.topic, keeps.bound, ?_, keeps.delayed, keeps.single, keeps.number, ?_, ?_, ?_, ?_⟩
  · rw [keeps.held, hand]
    exact (congrArg Option.toList handed).symm
  · intro e mem
    rw [others _ (keeps.apart hand e mem)]
    exact keeps.waiting e mem
  · intro e message timer calls
    rw [show phase = .handling e message timer from calls] at buries
    cases buries
  · intro e buries'
    obtain rfl : d = e := Option.some.inj (buries.symm.trans buries')
    exact ⟨all, last⟩
  · intro m
    by_cases own : m = d.message
    · rw [own, all]
      exact .left below
    · rw [others m own]
      exact keeps.courses m

theorem ask (keeps : Keeps c s history) (ready : c.phase = .ready) :
    Keeps { c with phase := .waiting } s history where
  topic := keeps.topic
  bound := keeps.bound
  held := by
    rw [keeps.held, ready]
    rfl
  delayed := keeps.delayed
  single := keeps.single
  number := keeps.number
  waiting := keeps.waiting
  handling _ _ _ calls := nomatch calls
  burying _ buries := nomatch buries
  courses := keeps.courses

/-- The receiver goes away. -/
theorem finish (keeps : Keeps c s history) (empty : c.phase.hand? = none) :
    Keeps { c with phase := .ended } s.stopReceiving history := by
  have held : s.held = [] := by
    rw [keeps.held, empty]
    rfl
  have gone : s.stopReceiving.copies.Subperm s.copies := s.copies_stopReceiving_subperm
  refine ⟨keeps.topic, keeps.bound, held, keeps.delayed, ?_, ?_, ?_, ?_, ?_, keeps.courses⟩
  · exact nodup_of_subperm gone keeps.single
  · intro d mem
    rw [show s.stopReceiving.held = s.held from rfl, held] at mem
    cases mem
  · intro d mem
    cases mem
  · intro d message timer calls
    cases calls
  · intro d buries
    cases buries

/-- The oldest offer is taken: its handler is called, or it is to be copied. -/
theorem take (keeps : Keeps c s history) (empty : c.phase.hand? = none) {channel : List Delivery}
    (first : s.channel = d :: channel) {phase : Phase} {seen : List Message}
    (hand : phase.hand? = some d)
    (others : ∀ m, m ≠ d.message → history' m = history m)
    (handling : ∀ message timer, phase = .handling d message timer →
      c.handler.decode d.payload = .ok message ∧
        history' d.message = .called d :: tried c.handler d (d.number - 1))
    (burying : phase.toBury? = some d → history' d.message = tried c.handler d d.number ∧
      ∀ message, c.handler.decode d.payload = .ok message → d.number = c.policy.maxDeliveries)
    (course : Course c.handler c.policy.maxDeliveries (history' d.message)) :
    Keeps { c with seen, phase } { s with channel, held := s.held ++ [d] } history' := by
  have held : s.held ++ [d] = [d] := by
    rw [keeps.held, empty]
    rfl
  have moved := (Subscription.copies_take first).map Prod.fst
  have single : (s.channel.map Delivery.message).Nodup := by
    have all := keeps.single
    rw [keeps.messages_eq, List.map_append, List.nodup_append] at all
    exact all.1
  rw [first, List.map_cons, List.nodup_cons] at single
  refine ⟨keeps.topic, keeps.bound, ?_, keeps.delayed, moved.nodup_iff.mpr keeps.single, ?_, ?_,
    ?_, ?_, ?_⟩
  · exact held.trans (congrArg Option.toList hand).symm
  · intro e mem
    refine keeps.number e ?_
    rw [first]
    simpa [or_comm, or_left_comm] using mem
  · intro e mem
    have other : e.message ≠ d.message := fun same =>
      single.1 (same ▸ List.mem_map_of_mem mem)
    rw [others _ other]
    exact keeps.waiting e (first ▸ List.mem_cons_of_mem d mem)
  · intro e message timer calls
    have calls : phase = .handling e message timer := calls
    obtain rfl : d = e := by
      rw [calls] at hand
      exact (Option.some.inj hand).symm
    exact handling message timer calls
  · intro e buries
    obtain rfl : d = e := Option.some.inj (hand.symm.trans (hand?_of_toBury? buries))
    exact burying buries
  · intro m
    by_cases own : m = d.message
    · exact own ▸ course
    · rw [others m own]
      exact keeps.courses m

/-- What is in hand is let go of, and offered again or not. -/
theorem letGo (keeps : Keeps c s history) (hand : c.phase.hand? = some d)
    (config : s'.toSubscriptionConfig = s.toSubscriptionConfig) (held : s'.held = [])
    (delayed : s'.delayed = []) (fewer : s'.copies.Subperm s.copies)
    (channel : s'.channel = s.channel ∨ s'.channel = s.channel ++ [d.again] ∧
      d.number < c.policy.maxDeliveries ∧ history' d.message = tried c.handler d d.number)
    (others : ∀ m, m ≠ d.message → history' m = history m)
    (course : Course c.handler c.policy.maxDeliveries (history' d.message)) :
    Keeps { c with phase := .ready } s' history' := by
  have waits : ∀ e ∈ s.channel, history' e.message = tried c.handler e (e.number - 1) := by
    intro e mem
    rw [others _ (keeps.apart hand e mem)]
    exact keeps.waiting e mem
  have number : ∀ e ∈ s.channel, 1 ≤ e.number ∧ e.number ≤ c.policy.maxDeliveries :=
    fun e mem => keeps.number e (List.mem_append_left _ mem)
  have topic := congrArg SubscriptionConfig.topic config
  have bound := congrArg SubscriptionConfig.maxDeliveries config
  refine ⟨topic.trans keeps.topic, bound.trans keeps.bound, held, delayed, ?_, ?_, ?_, ?_, ?_, ?_⟩
  · exact nodup_of_subperm fewer keeps.single
  · intro e mem
    rw [held, List.append_nil] at mem
    rcases channel with same | ⟨more, below, -⟩
    · exact number e (same ▸ mem)
    · rw [more] at mem
      rcases List.mem_append.mp mem with mem | mem
      · exact number e mem
      · rw [List.mem_singleton.mp mem]
        exact ⟨Nat.succ_le_succ (Nat.zero_le _), below⟩
  · intro e mem
    rcases channel with same | ⟨more, -, all⟩
    · exact waits e (same ▸ mem)
    · rw [more] at mem
      rcases List.mem_append.mp mem with mem | mem
      · exact waits e mem
      · rw [List.mem_singleton.mp mem]
        exact all.trans (tried_again c.handler d d.number).symm
  · intro e message timer calls
    cases calls
  · intro e buries
    cases buries
  · intro m
    by_cases own : m = d.message
    · exact own ▸ course
    · rw [others m own]
      exact keeps.courses m

theorem release_of_held (keeps : Keeps c s history) (hand : c.phase.hand? = some d) :
    (s.release d).held = [] := by
  unfold Subscription.release
  rw [keeps.held_eq hand]
  exact List.erase_cons_head d []

/-- What is in hand is settled for good. -/
theorem release (keeps : Keeps c s history) (hand : c.phase.hand? = some d)
    (others : ∀ m, m ≠ d.message → history' m = history m)
    (course : Course c.handler c.policy.maxDeliveries (history' d.message)) :
    Keeps { c with phase := .ready } (s.release d) history' :=
  keeps.letGo hand rfl (keeps.release_of_held hand) keeps.delayed (s.copies_release_subperm d)
    (.inl rfl) others course

/-- What is in hand is handed back; the broker offers it again unless this was the last time. -/
theorem handBack (keeps : Keeps c s history) (hand : c.phase.hand? = some d)
    (others : ∀ m, m ≠ d.message → history' m = history m)
    (all : history' d.message = tried c.handler d d.number) :
    Keeps { c with phase := .ready } (s.handBack d none) history' := by
  have course : Course c.handler c.policy.maxDeliveries (history' d.message) := by
    rw [all]
    exact .left (keeps.inHand hand).2
  cases last : s.isLast d with
  | true =>
    rw [Subscription.copies_handBack_last last none]
    exact keeps.release hand others course
  | false =>
    obtain ⟨config, held, -, -⟩ := s.config_handBack d none
    have more : d.number < c.policy.maxDeliveries := by
      have below := Subscription.isLast_eq_false_iff.mp last
      rwa [keeps.bound, Option.getD_some] at below
    have eq : s.handBack d none = (s.release d).arrive d.again := by
      have again : (s.release d).isLast d = false := last
      unfold Subscription.handBack
      rw [if_neg (by rw [again]; exact Bool.false_ne_true)]
    have places : (s.handBack d none).delayed = [] ∧
        ((s.handBack d none).channel = s.channel ∨
          (s.handBack d none).channel = s.channel ++ [d.again]) := by
      rw [eq]
      unfold Subscription.arrive
      split
      · exact ⟨keeps.delayed, .inr rfl⟩
      · exact ⟨keeps.delayed, .inl rfl⟩
    refine keeps.letGo hand config (held.trans (keeps.release_of_held hand)) places.1
      (Subscription.copies_handBack_subperm (keeps.mem_held hand) none) ?_ others course
    exact places.2.imp_right fun channel => ⟨channel, more, all⟩

end Keeps

/-- What a step makes of the subscription of the consumer. -/
structure Kept (l : Host) (i : Nat) (c' : Consumer) (s s' : Subscription)
    (history : Nat → List Deed) : Prop where
  found : l.broker.subscriptions[i]? = some s'
  fewer : s'.copies.Subperm s.copies
  keeps : Keeps c' s' history

variable {h l : Host} {c' : Consumer}

/-- Whoever hands back lets go of what it has in hand, or has it offered again. -/
theorem HandsBack.kept {i : Nat} (back : HandsBack i d h l)
    (found : h.broker.subscriptions[i]? = some s) (keeps : Keeps c s history)
    (hand : c.phase.hand? = some d)
    (others : ∀ m, m ≠ d.message → history' m = history m)
    (all : history' d.message = tried c.handler d d.number) :
    ∃ s', Kept l i { c with phase := .ready } s s' history' := by
  have course : Course c.handler c.policy.maxDeliveries (history' d.message) := by
    rw [all]
    exact .left (keeps.inHand hand).2
  rcases back.touches with a | a
  · refine ⟨s.release d, ?_, s.copies_release_subperm d, keeps.release hand others course⟩
    rw [a.getElem?, found]
    rfl
  · refine ⟨s.handBack d none, ?_, Subscription.copies_handBack_subperm (keeps.mem_held hand) none,
      keeps.handBack hand others all⟩
    rw [a.getElem?, found]
    rfl

theorem Acts.kept (acts : Acts h c l c' deed) (keeps : Keeps c s history)
    (found : h.broker.subscriptions[c.subscription]? = some s)
    (elsewhere : c.policy.deadLetterTopic ≠ c.topic) :
    ∃ s', Kept l c.subscription c' s s' (Deed.write deed history) := by
  have others : ∀ (e : Deed) (m : Nat), m ≠ e.delivery.message →
      Deed.write (some e) history m = history m := fun e m => Deed.write_other e history
  cases acts with
  | asked ready still =>
    refine ⟨s, ?_, List.Subperm.refl _, keeps.ask ready⟩
    rw [still.subscriptions, found]
  | unasked _ still _ =>
    refine ⟨s, ?_, List.Subperm.refl _, keeps⟩
    rw [still.subscriptions, found]
  | finished empty _ a =>
    refine ⟨s.stopReceiving, ?_, s.copies_stopReceiving_subperm, keeps.finish empty⟩
    rw [a.getElem?, found]
    rfl
  | @called d message timer k _ waiting taken decoded still =>
    obtain ⟨channel, first, there⟩ := Host.getElem?_take? taken found
    obtain ⟨positive, below⟩ := keeps.number d (by rw [first]; simp)
    have called : Deed.write (some (.called d)) history d.message =
        .called d :: tried c.handler d (d.number - 1) := by
      rw [← keeps.waiting d (by rw [first]; exact List.mem_cons_self)]
      exact Deed.write_self (.called d) history
    refine ⟨_, ?_, (Subscription.copies_take first).subperm, ?_⟩
    · rw [still.subscriptions, there]
    · refine keeps.take (by rw [waiting]; rfl) first rfl (others (.called d)) (fun _ _ same => ?_)
        (fun buries => nomatch buries) ?_
      · obtain ⟨-, rfl, -⟩ := Phase.handling.inj same
        exact ⟨decoded, called⟩
      · rw [called]
        exact .calling decoded positive below
  | @refused d problem k _ waiting taken undecoded still =>
    obtain ⟨channel, first, there⟩ := Host.getElem?_take? taken found
    obtain ⟨positive, below⟩ := keeps.number d (by rw [first]; simp)
    have all : Deed.write (some (.refused d)) history d.message =
        tried c.handler d d.number := by
      rw [← tried_of_error undecoded positive,
        ← keeps.waiting d (by rw [first]; exact List.mem_cons_self)]
      exact Deed.write_self (.refused d) history
    refine ⟨_, ?_, (Subscription.copies_take first).subperm, ?_⟩
    · rw [still.subscriptions, there]
    · refine keeps.take (by rw [waiting]; rfl) first rfl (others (.refused d)) ?_
        (fun _ => ⟨all, ?_⟩) ?_
      · intro message timer calls
        cases calls
      · intro message decoded
        cases undecoded.symm.trans decoded
      · rw [all]
        exact .left below
  | @succeeded d message timer _ phase a =>
    have hand : c.phase.hand? = some d := by rw [phase]; rfl
    obtain ⟨decoded, called⟩ := keeps.handling d message timer phase
    obtain ⟨positive, below⟩ := keeps.inHand hand
    refine ⟨s.release d, ?_, s.copies_release_subperm d,
      keeps.release hand (others (.succeeded d)) ?_⟩
    · rw [a.getElem?, found]
      rfl
    · have written : Deed.write (some (.succeeded d)) history d.message =
          .succeeded d :: history d.message := Deed.write_self (.succeeded d) history
      rw [written, called]
      exact .succeeded decoded positive below
  | @failed d message timer _ phase more back =>
    have hand : c.phase.hand? = some d := by rw [phase]; rfl
    obtain ⟨decoded, called⟩ := keeps.handling d message timer phase
    refine back.kept found keeps hand (others (.failed d)) ?_
    rw [← tried_of_ok decoded (keeps.inHand hand).1, ← called]
    exact Deed.write_self (.failed d) history
  | @exhausted d message timer _ phase last still =>
    have hand : c.phase.hand? = some d := by rw [phase]; rfl
    obtain ⟨decoded, called⟩ := keeps.handling d message timer phase
    obtain ⟨positive, below⟩ := keeps.inHand hand
    refine ⟨s, ?_, List.Subperm.refl _, keeps.stay hand rfl (others (.failed d)) ?_ fun _ _ => ?_⟩
    · rw [still.subscriptions, found]
    · rw [← tried_of_ok decoded positive, ← called]
      exact Deed.write_self (.failed d) history
    · omega
  | @delayed d timer _ phase still =>
    have buries : c.phase.toBury? = some d := by rw [phase]; rfl
    obtain ⟨all, last⟩ := keeps.burying d buries
    refine ⟨s, ?_, List.Subperm.refl _,
      keeps.stay (hand?_of_toBury? buries) rfl (fun _ _ => rfl) all last⟩
    rw [still.subscriptions, found]
  | @copied d k _ buries puts a =>
    have hand := hand?_of_toBury? buries
    obtain ⟨all, last⟩ := keeps.burying d buries
    have untouched : k.broker.subscriptions[c.subscription]? = some s := by
      rw [puts.subscriptions, List.getElem?_map, found]
      simp [Subscription.receive, keeps.topic, elsewhere.symm]
    refine ⟨s.release d, ?_, s.copies_release_subperm d,
      keeps.release hand (others (.copied d)) ?_⟩
    · rw [a.getElem?, untouched]
      rfl
    · have written : Deed.write (some (.copied d)) history d.message =
          .copied d :: history d.message := Deed.write_self (.copied d) history
      rw [written, all]
      exact .copied (keeps.inHand hand).2 last
  | @uncopied d k _ buries still back =>
    obtain ⟨all, -⟩ := keeps.burying d buries
    refine back.kept ?_ keeps (hand?_of_toBury? buries) (fun _ _ => rfl) all
    rw [still.subscriptions, found]

/-- A message arrives that the consumer has done nothing with. -/
theorem Keeps.outside (keeps : Keeps c s history) {arriving : Payload → Prop} {now n : Nat}
    (out : Subscription.Outside arriving now n s s') (positive : 1 ≤ c.policy.maxDeliveries)
    (below : ∀ m ∈ s.messages, m < n) (fresh : history n = []) :
    Keeps c s' history ∧ (s'.copies.Subperm s.copies ∨
      ∃ payload, arriving payload ∧ s'.copies.Subperm ((n, payload) :: s.copies)) := by
  obtain ⟨config, held, -, -⟩ := out.config
  obtain ⟨delayed, channel⟩ := out.channel keeps.delayed
  have fewer := out.copies_subperm
  have topic := congrArg SubscriptionConfig.topic config
  have bound := congrArg SubscriptionConfig.maxDeliveries config
  have single : s'.messages.Nodup := by
    rcases fewer with fewer | ⟨payload, -, -, l, perm, sub⟩
    · exact nodup_of_subperm fewer keeps.single
    · have new : (n :: s.messages).Nodup :=
        List.nodup_cons.mpr ⟨fun mem => Nat.lt_irrefl n (below n mem), keeps.single⟩
      exact (perm.map Prod.fst).nodup_iff.mp (new.sublist (sub.map Prod.fst))
  refine ⟨⟨topic.trans keeps.topic, bound.trans keeps.bound, held.trans keeps.held, delayed, single,
    fun d mem => ?_, fun d mem => ?_, keeps.handling, keeps.burying, keeps.courses⟩, ?_⟩
  · rw [held] at mem
    rcases channel with same | ⟨payload, -, more⟩
    · exact keeps.number d (same ▸ mem)
    · rw [more, List.append_assoc] at mem
      rcases List.mem_append.mp mem with mem | mem
      · exact keeps.number d (List.mem_append_left _ mem)
      · rcases List.mem_cons.mp mem with rfl | mem
        · exact ⟨Nat.le_refl 1, positive⟩
        · exact keeps.number d (List.mem_append_right _ mem)
  · rcases channel with same | ⟨payload, -, more⟩
    · exact keeps.waiting d (same ▸ mem)
    · rw [more] at mem
      rcases List.mem_append.mp mem with mem | mem
      · exact keeps.waiting d mem
      · rw [List.mem_singleton.mp mem]
        exact fresh
  · exact fewer.imp_right fun ⟨payload, _, arrives, sub⟩ => ⟨payload, arrives, sub⟩

/-! ## What else a step shows -/

namespace Acts

variable {h l : Host} {c' : Consumer}

theorem same (acts : Acts h c l c' deed) :
    c'.topic = c.topic ∧ c'.policy = c.policy ∧ c'.handler = c.handler ∧
      c'.subscription = c.subscription := by
  cases acts <;> exact ⟨rfl, rfl, rfl, rfl⟩

/-- A deed is about a message that the subscription has. -/
theorem delivery_mem {e : Deed} (acts : Acts h c l c' (some e)) (keeps : Keeps c s history)
    (found : h.broker.subscriptions[c.subscription]? = some s) :
    e.delivery.copy ∈ s.copies := by
  have channel : ∀ {d k}, h.take? c.subscription = some (d, k) → d.copy ∈ s.copies := by
    intro d k taken
    obtain ⟨channel, first, -⟩ := Host.getElem?_take? taken found
    rw [Subscription.copies_eq, first]
    exact List.mem_cons_self
  have held : ∀ {d}, c.phase.hand? = some d → d.copy ∈ s.copies := by
    intro d hand
    rw [Subscription.copies_eq]
    refine List.mem_append_right _ (List.mem_append_left _ ?_)
    exact List.mem_map_of_mem (keeps.mem_held hand)
  cases acts with
  | called _ taken _ _ => exact channel taken
  | refused _ taken _ _ => exact channel taken
  | succeeded phase _ => exact held (by rw [phase]; rfl)
  | failed phase _ _ => exact held (by rw [phase]; rfl)
  | exhausted phase _ _ => exact held (by rw [phase]; rfl)
  | copied buries _ _ => exact held (hand?_of_toBury? buries)

/-- The log grows by the copy that is made, and the handler sees what it is called with. -/
theorem shows (acts : Acts h c l c' deed) :
    l.broker.published = h.broker.published ++
        (deed.bind Deed.copied?).toList.map (fun d => (c.policy.deadLetterTopic, d.payload)) ∧
      c'.seen.map Except.ok = c.seen.map Except.ok ++
        (deed.bind Deed.called?).toList.map fun d => c.handler.decode d.payload := by
  have quiet : ∀ {l : Host} {c' : Consumer} {deed : Option Deed}, deed.bind Deed.copied? = none →
      deed.bind Deed.called? = none → l.broker.published = h.broker.published → c'.seen = c.seen →
      l.broker.published = h.broker.published ++
          (deed.bind Deed.copied?).toList.map (fun d => (c.policy.deadLetterTopic, d.payload)) ∧
        c'.seen.map Except.ok = c.seen.map Except.ok ++
          (deed.bind Deed.called?).toList.map fun d => c.handler.decode d.payload := by
    intro l c' deed uncopied uncalled published seen
    rw [uncopied, uncalled, published, seen]
    exact ⟨(List.append_nil _).symm, (List.append_nil _).symm⟩
  cases acts with
  | asked _ still => exact quiet rfl rfl still.published rfl
  | unasked _ still _ => exact quiet rfl rfl still.published rfl
  | finished _ _ a => exact quiet rfl rfl a.published rfl
  | @called d message timer k _ _ taken decoded still =>
    obtain ⟨f, a⟩ := Host.touches_take? taken
    refine ⟨?_, ?_⟩
    · rw [still.published, a.published]
      exact (List.append_nil _).symm
    · rw [List.map_append]
      exact congrArg _ (congrArg (fun r => [r]) decoded.symm)
  | refused _ taken _ still =>
    obtain ⟨f, a⟩ := Host.touches_take? taken
    exact quiet rfl rfl (still.published.trans a.published) rfl
  | succeeded _ a => exact quiet rfl rfl a.published rfl
  | failed _ _ back => exact quiet rfl rfl back.published rfl
  | exhausted _ _ still => exact quiet rfl rfl still.published rfl
  | delayed _ still => exact quiet rfl rfl still.published rfl
  | copied _ puts a =>
    exact ⟨a.published.trans puts.published, (List.append_nil _).symm⟩
  | uncopied _ still back => exact quiet rfl rfl (back.published.trans still.published) rfl

end Acts

end

end Consumer

/-! ## The courses in a run -/

namespace Script

open Consumer (Keeps)

variable {ts since before : List Transition} {x y z : Session} {a : Action} {t u : Transition}
  {k m n n' : Nat} {c c' : Consumer} {s s' : Subscription} {d : Delivery}

/-- What consumer `k` does in a transition. -/
def Transition.deed? (t : Transition) (k : Nat) : Option Deed :=
  if t.action.agent? = some (.consumer k) then
    (t.before.system.consumers[k]?).bind fun c => c.deed? t.before.system.host t.after.system.host
  else none

/-- What consumer `k` has done in a run, the latest first. -/
def deeds (ts : List Transition) (k : Nat) : List Deed := ts.filterMap fun t => t.deed? k

/-- What consumer `k` has done with message `m`, the latest first. -/
def course (ts : List Transition) (k m : Nat) : List Deed := (deeds ts k).filter (·.concerns m)

theorem deeds_cons (t : Transition) (ts : List Transition) (k : Nat) :
    deeds (t :: ts) k = (t.deed? k).toList ++ deeds ts k := by
  unfold deeds
  rw [List.filterMap_cons]
  cases t.deed? k <;> rfl

theorem course_cons (t : Transition) (ts : List Transition) (k : Nat) :
    course (t :: ts) k = Deed.write (t.deed? k) (course ts k) := by
  funext m
  unfold course Deed.write
  rw [deeds_cons, List.filter_append]
  cases t.deed? k with
  | none => rfl
  | some e =>
    rw [Option.filter_some, Option.toList_some, List.filter_cons]
    split <;> rfl

theorem course_append (since ts : List Transition) (k m : Nat) :
    course (since ++ ts) k m = course since k m ++ course ts k m := by
  unfold course deeds
  rw [List.filterMap_append, List.filter_append]

theorem deed?_of_others (others : t.action.agent? ≠ some (.consumer k)) : t.deed? k = none :=
  if_neg others

theorem deed?_self (known : x.system.consumers[k]? = some c) :
    (⟨x, .agent (.consumer k), y⟩ : Transition).deed? k =
      c.deed? x.system.host y.system.host := by
  unfold Transition.deed?
  rw [known]
  exact if_pos rfl

/-- What consumer `k` has done with every message, when the broker has had `n` of them. -/
structure Courses (ts : List Transition) (n k : Nat) (c : Consumer) (s : Subscription) : Prop
    extends Keeps c s (course ts k) where
  below : ∀ m ∈ s.messages, m < n
  fresh : ∀ m, n ≤ m → course ts k m = []
  /-- What the subscription has was put on its topic. -/
  put : ∀ p ∈ s.copies, ∃ u ∈ ts, u.Puts c.topic p.1 p.2
  dealt : ∀ e ∈ deeds ts k, ∃ u ∈ ts, u.Puts c.topic e.delivery.message e.delivery.payload
  seen : c.seen.map Except.ok =
    ((deeds ts k).filterMap Deed.called?).reverse.map fun d => c.handler.decode d.payload
  logged : ∀ u ∈ ts, u.action = .agent (.consumer k) →
    u.after.system.host.broker.published = u.before.system.host.broker.published ++
      ((u.deed? k).bind Deed.copied?).toList.map fun d => (c.policy.deadLetterTopic, d.payload)

namespace Courses

/-- To be told to stop changes nothing of this. -/
theorem stopped (book : Courses ts n k c s) : Courses ts n k { c with stopping := true } s where
  topic := book.topic
  bound := book.bound
  held := book.held
  delayed := book.delayed
  single := book.single
  number := book.number
  waiting := book.waiting
  handling := book.handling
  burying := book.burying
  courses := book.courses
  below := book.below
  fresh := book.fresh
  put := book.put
  dealt := book.dealt
  seen := book.seen
  logged := book.logged

/-- Others do nothing with the messages of the consumer, but can put one more on its topic. -/
theorem others (book : Courses ts n k c s) (positive : 1 ≤ c.policy.maxDeliveries) (hn : n ≤ n')
    (others : t.action.agent? ≠ some (.consumer k)) {now : Nat}
    (out : Subscription.Outside (fun payload => t.Puts c.topic n payload ∧ n < n') now n s s') :
    Courses (t :: ts) n' k c s' := by
  obtain ⟨keeps, fewer⟩ := book.outside out positive book.below (book.fresh n (Nat.le_refl n))
  have idle := deed?_of_others others
  have course : course (t :: ts) k = Script.course ts k := by rw [course_cons, idle]; rfl
  have deeds : deeds (t :: ts) k = Script.deeds ts k := by rw [deeds_cons, idle]; rfl
  refine ⟨course ▸ keeps, fun m mem => ?_, fun m later => ?_, fun p mem => ?_, fun e mem => ?_, ?_,
    fun u mem acts => ?_⟩
  · obtain ⟨p, there, rfl⟩ := List.mem_map.mp mem
    rcases fewer with fewer | ⟨payload, arrives, fewer⟩
    · have old := Subscription.mem_messages (fewer.subset there)
      exact Nat.lt_of_lt_of_le (book.below _ old) hn
    · rcases List.mem_cons.mp (fewer.subset there) with rfl | old
      · exact arrives.2
      · exact Nat.lt_of_lt_of_le (book.below _ (Subscription.mem_messages old)) hn
  · rw [course]
    exact book.fresh m (Nat.le_trans hn later)
  · have known : p ∈ s.copies → ∃ u ∈ t :: ts, u.Puts c.topic p.1 p.2 := fun mem => by
      obtain ⟨u, hu, puts⟩ := book.put p mem
      exact ⟨u, List.mem_cons_of_mem _ hu, puts⟩
    rcases fewer with fewer | ⟨payload, arrives, fewer⟩
    · exact known (fewer.subset mem)
    · rcases List.mem_cons.mp (fewer.subset mem) with rfl | mem
      · exact ⟨t, List.mem_cons_self, arrives.1⟩
      · exact known mem
  · rw [deeds] at mem
    obtain ⟨u, hu, puts⟩ := book.dealt e mem
    exact ⟨u, List.mem_cons_of_mem _ hu, puts⟩
  · rw [deeds]
    exact book.seen
  · rcases List.mem_cons.mp mem with rfl | mem
    · exact absurd (congrArg Action.agent? acts) others
    · exact book.logged u mem acts

/-- The consumer makes a step. -/
theorem acts (book : Courses ts n k c s) (hn : n ≤ n')
    (found : t.before.system.host.broker.subscriptions[c.subscription]? = some s)
    (acts : Acts t.before.system.host c t.after.system.host c' (t.deed? k))
    (elsewhere : c.policy.deadLetterTopic ≠ c.topic) :
    ∃ s', t.after.system.host.broker.subscriptions[c'.subscription]? = some s' ∧
      Courses (t :: ts) n' k c' s' := by
  obtain ⟨topic, policy, handler, subscription⟩ := acts.same
  obtain ⟨s', kept⟩ := acts.kept book.toKeeps found elsewhere
  obtain ⟨published, seen⟩ := acts.shows
  have known : ∀ p ∈ s.copies, ∃ u ∈ t :: ts, u.Puts c'.topic p.1 p.2 := fun p mem => by
    obtain ⟨u, hu, puts⟩ := book.put p mem
    exact ⟨u, List.mem_cons_of_mem _ hu, topic ▸ puts⟩
  have dealt : ∀ e, t.deed? k = some e → e.delivery.copy ∈ s.copies := fun e deed =>
    (deed ▸ acts).delivery_mem book.toKeeps found
  refine ⟨s', subscription ▸ kept.found, ⟨course_cons t ts k ▸ kept.keeps, fun m mem => ?_,
    fun m later => ?_, fun p mem => known p (kept.fewer.subset mem), fun e mem => ?_, ?_,
    fun u mem action => ?_⟩⟩
  · obtain ⟨p, there, rfl⟩ := List.mem_map.mp mem
    have old := Subscription.mem_messages (kept.fewer.subset there)
    exact Nat.lt_of_lt_of_le (book.below _ old) hn
  · have old := book.fresh m (Nat.le_trans hn later)
    rw [course_cons]
    cases deed : t.deed? k with
    | none => exact old
    | some e =>
      have mine := book.below _ (Subscription.mem_messages (dealt e deed))
      have mine : e.delivery.message < n := mine
      rw [Deed.write_other e _ (by omega)]
      exact old
  · rw [deeds_cons] at mem
    rcases List.mem_append.mp mem with mem | mem
    · exact known _ (dealt e (Option.mem_toList.mp mem))
    · obtain ⟨u, hu, puts⟩ := book.dealt e mem
      exact ⟨u, List.mem_cons_of_mem _ hu, topic ▸ puts⟩
  · rw [seen, book.seen, handler, deeds_cons, List.filterMap_append, List.reverse_append,
      List.map_append]
    congr 1
    cases t.deed? k with
    | none => rfl
    | some e => cases e <;> rfl
  · rw [policy]
    rcases List.mem_cons.mp mem with rfl | mem
    · exact published
    · exact book.logged u mem action

/-- A consumer that is new. -/
theorem new (run : Runs ts z) (unknown : ∀ u ∈ ts, u.before.system.consumers[k]? = none)
    (empty : c.phase = .ready) (seen : c.seen = []) (topic : s.topic = c.topic)
    (bound : s.maxDeliveries = some c.policy.maxDeliveries) (channel : s.channel = [])
    (held : s.held = []) (delayed : s.delayed = []) : Courses ts n k c s := by
  have idle : deeds ts k = [] := List.filterMap_eq_nil_iff.mpr fun u hu => by
    unfold Transition.deed?
    rw [unknown u hu]
    split <;> rfl
  have course : ∀ m, course ts k m = [] := fun m => by
    unfold Script.course
    rw [idle]
    rfl
  have nothing : s.copies = [] := by
    rw [Subscription.copies_eq, channel, held, delayed]
    rfl
  have none : s.messages = [] := by
    unfold Subscription.messages
    rw [nothing]
    rfl
  refine ⟨⟨topic, bound, ?_, delayed, ?_, ?_, ?_, ?_, ?_, fun m => ?_⟩, ?_, fun m _ => course m, ?_,
    ?_, ?_, fun u hu acts => ?_⟩
  · rw [held, empty]
    rfl
  · rw [none]
    exact .nil
  · rw [channel, held]
    exact fun d mem => absurd mem List.not_mem_nil
  · rw [channel]
    exact fun d mem => absurd mem List.not_mem_nil
  · rw [empty]
    exact fun d message timer calls => nomatch calls
  · rw [empty]
    exact fun d buries => nomatch buries
  · rw [course]
    exact .left (d := ⟨0, [], 0⟩) (Nat.zero_le _)
  · rw [none]
    exact fun m mem => absurd mem List.not_mem_nil
  · rw [nothing]
    exact fun p mem => absurd mem List.not_mem_nil
  · rw [idle]
    exact fun e mem => absurd mem List.not_mem_nil
  · rw [idle, seen]
    rfl
  · obtain ⟨us, -, happens⟩ := run.made hu
    rw [acts] at happens
    obtain ⟨v, hv, -⟩ := Option.map_eq_some_iff.mp happens
    obtain ⟨c, -, -, known, -⟩ := Agent.step?_consumer hv
    cases (unknown u hu).symm.trans known

end Courses

theorem Courses.own (book : Courses ts x.system.host.broker.messages k c s)
    (known : x.system.consumers[k]? = some c)
    (found : x.system.host.broker.subscriptions[c.subscription]? = some s)
    (elsewhere : c.policy.deadLetterTopic ≠ c.topic)
    (happens : x.after? (.agent (.consumer k)) = some y)
    (known' : y.system.consumers[k]? = some c') :
    ∃ s', y.system.host.broker.subscriptions[c'.subscription]? = some s' ∧
      Courses (⟨x, .agent (.consumer k), y⟩ :: ts) y.system.host.broker.messages k c' s' := by
  obtain ⟨v, hv, reached⟩ := Option.map_eq_some_iff.mp happens
  obtain ⟨c₀, host, c₁, known₀, stepped, after⟩ := Agent.step?_consumer hv
  obtain rfl := Option.some.inj (known.symm.trans known₀)
  obtain rfl : y.system.host = host := by rw [← reached, after]; rfl
  obtain rfl : c₁ = c' := by
    rw [← reached, after] at known'
    simpa [System.adjustConsumer, known] using known'
  have acts : Acts x.system.host c y.system.host c₁
      ((⟨x, .agent (.consumer k), y⟩ : Transition).deed? k) := by
    rw [deed?_self known]
    exact Consumer.acts_of_step? stepped
  exact book.acts (t := ⟨x, .agent (.consumer k), y⟩) (messages_le_of_after? happens) found acts
    elsewhere

theorem Courses.kept (book : Courses ts x.system.host.broker.messages k c s) (run : Runs ts x)
    (positive : 1 ≤ c.policy.maxDeliveries) (happens : x.after? a = some y)
    (others : a ≠ .agent (.consumer k)) (known : x.system.consumers[k]? = some c)
    (found : x.system.host.broker.subscriptions[c.subscription]? = some s)
    (found' : y.system.host.broker.subscriptions[c.subscription]? = some s') :
    Courses (⟨x, a, y⟩ :: ts) y.system.host.broker.messages k c s' := by
  have receives : (Agent.consumer k).receives? x.system = some c.subscription :=
    congrArg (Option.map Consumer.subscription) known
  have idle : a.agent? ≠ some (.consumer k) := by
    intro acts
    cases a with
    | agent agent => exact others (congrArg Action.agent (Option.some.inj acts))
    | _ => cases acts
  obtain ⟨s₁, found₁, out, -⟩ := outside_of_after? happens run.apart found
    (run.apart.subscription known).1 fun agent he hagent =>
      others (he.trans (congrArg Action.agent (run.apart.eq_of_receives hagent receives)))
  obtain rfl := Option.some.inj (found'.symm.trans found₁)
  refine book.others positive (messages_le_of_after? happens) idle
    (out.imp fun payload puts => ⟨book.topic ▸ puts, ?_⟩)
  have more := puts.2.1
  dsimp only at more
  omega

/-- Every consumer of a run has kept its book. -/
theorem Runs.courses (run : Runs ts z) (inbox : z.inbox? k = some (c, s))
    (positive : 1 ≤ c.policy.maxDeliveries) (elsewhere : c.policy.deadLetterTopic ≠ c.topic) :
    Courses ts z.system.host.broker.messages k c s := by
  induction run generalizing c s with
  | start => cases inbox
  | @next ts x y a run happens ih =>
    obtain ⟨known', found'⟩ := Session.inbox?_eq_some.mp inbox
    cases consumed_of_after? happens run.apart known' with
    | @kept c₀ known others same =>
      obtain ⟨-, s₀, found⟩ := run.apart.subscription known
      have inbox₀ := Session.inbox?_eq_some.mpr ⟨known, found⟩
      rcases same with rfl | rfl
      · exact (ih inbox₀ positive elsewhere).kept run positive happens others known found found'
      · have book := ih inbox₀ positive elsewhere
        exact (book.kept run positive happens others known found found').stopped
    | @stepped c₀ v known acts step reached =>
      subst acts
      obtain ⟨-, s₀, found⟩ := run.apart.subscription known
      obtain ⟨-, -, policy, topic⟩ := step.same
      rw [policy] at positive
      rw [policy, topic] at elsewhere
      have book := ih (Session.inbox?_eq_some.mpr ⟨known, found⟩) positive elsewhere
      obtain ⟨s₁, found₁, book'⟩ := book.own known found elsewhere happens known'
      obtain rfl := Option.some.inj (found'.symm.trans found₁)
      exact book'
    | @started topic name policy handler new state found =>
      subst state
      obtain rfl := Option.some.inj (found.symm.trans found')
      refine .new (Runs.next run happens) (fun u hu => ?_) rfl rfl rfl rfl rfl rfl rfl
      apply List.getElem?_eq_none
      rw [← new]
      rcases List.mem_cons.mp hu with rfl | hu
      · exact Nat.le_refl _
      · exact run.consumers_le hu

end Script

end ChangeDispatch
