import ChangeDispatch.Proofs.Settlement.Steps
import ChangeDispatch.Proofs.Wait.Expiry
import ChangeDispatch.Proofs.Wait.Redelivery

/-!
# The schedule of an acknowledgment

A message that a listener can read as an acknowledgment is offered to it at equal distances,
until an entry that it answers is in the table at one of the offers, or the bound of the
subscription is reached. So many messages as there may be go their ways side by side; each keeps
its own schedule. This is for a punctual clock and a connection on which nothing is lost when it
is handed back; a message that cannot be read is not covered.
-/
namespace ChangeDispatch

namespace Subscription

variable {s : Subscription} {now moment serial : Nat} {d e : Delivery}

theorem messages_eq (s : Subscription) :
    s.messages = s.channel.map Delivery.message ++
      (s.held.map Delivery.message ++ s.delayed.map fun entry => entry.2.message) := by
  rw [messages, copies_eq]
  simp [Delivery.copy, Function.comp_def]

/-- What is there of a message is the offer that is to be received. -/
theorem Offers.of_channel (offers : s.Offers now d moment) (single : s.messages.Nodup)
    (he : e ∈ s.channel) (same : e.message = d.message) : e = d ∧ now = moment := by
  rw [messages_eq] at single
  obtain ⟨channel, -, apart⟩ := List.nodup_append.mp single
  cases offers with
  | heldBack timer held _ _ =>
    have delayed := List.mem_map_of_mem (f := fun entry => entry.2.message) held
    exact absurd same (apart _ (List.mem_map_of_mem he) _ (List.mem_append_right _ delayed))
  | arrived here now => exact ⟨List.inj_on_of_nodup_map channel he here same, now⟩

/-- What is handed back, and is not the last offer, is offered again after the delay; without a
delay it is there at once. -/
theorem offers_again (more : s.isLast d = false) (receiving : s.receiving) (delay : Duration) :
    (s.handBack d (if delay.isZero then none else some ⟨now + delay.ticks, serial⟩)).Offers now
      d.again (now + delay.ticks) := by
  cases zero : delay.isZero with
  | false =>
    rw [if_neg (by decide)]
    exact offers_handBack more (Nat.le_add_right _ _)
  | true =>
    have none : delay.ticks = 0 := by
      by_contra some
      have := Duration.isZero_eq_false_iff.mpr (Nat.pos_of_ne_zero some)
      rw [zero] at this
      cases this
    have again : (s.release d).isLast d = false := more
    rw [if_pos rfl, none]
    unfold Subscription.handBack
    dsimp only
    rw [again, if_neg (by decide)]
    refine .arrived ?_ rfl
    have there : (s.release d).receiving := receiving
    unfold arrive
    rw [if_pos there]
    exact List.mem_append_right _ (List.mem_singleton_self _)

/-- After its last offer a message is not there any more. -/
theorem not_mem_handBack (held : d ∈ s.held) (single : s.messages.Nodup) (last : s.isLast d)
    (timer : Option Timer) : d.message ∉ (s.handBack d timer).messages := by
  have released : s.handBack d timer = s.release d := if_pos last
  have perm : s.messages.Perm (d.message :: (s.release d).messages) :=
    (copies_release held).map Prod.fst
  rw [released]
  exact (List.nodup_cons.mp (perm.nodup_iff.mp single)).1

end Subscription

theorem Correlator.broker_handBack {h : Host} {c : Correlator}
    (works : h.faults.failNack = false) (d : Delivery) :
    (handBack h c d).broker = h.broker.nack c.subscription d
      (if c.unmatchedDelay.isZero then none
        else some ⟨h.now + c.unmatchedDelay.ticks, h.timers⟩) := by
  cases zero : c.unmatchedDelay.isZero <;>
    simp [handBack, Host.nack, Host.settle, Host.setTimer, works, zero]

/-- One offer of a message to a listener: when it is made, its number, and how it is settled. -/
structure Offering where
  moment : Nat
  number : Nat
  ways : List Settlement
  deriving DecidableEq, Repr

namespace Script

variable {ts since sooner earlier : List Transition} {x y z : Session} {a : Action}
  {t u : Transition} {c bound message n start : Nat} {d e : Delivery} {ack : AckEvent}
  {delay : Duration} {moment : Nat}

/-! ## The offers that a listener takes -/

/-- The offer of a message that listener `c` takes in a transition. -/
def Transition.offering? (t : Transition) (c message : Nat) : Option Offering :=
  (t.taken? (.listener c)).bind fun d =>
    if d.message = message then some ⟨t.before.system.host.now, d.number, t.ways⟩ else none

/-- All offers of a message that listener `c` has taken, the latest first. -/
def offerings (ts : List Transition) (c message : Nat) : List Offering :=
  ts.filterMap fun t => t.offering? c message

theorem offerings_cons (t : Transition) (ts : List Transition) (c message : Nat) :
    offerings (t :: ts) c message = (t.offering? c message).toList ++ offerings ts c message := by
  unfold offerings
  rw [List.filterMap_cons]
  cases t.offering? c message <;> rfl

theorem Transition.Delivers.taken? (delivers : t.Delivers c d ack) :
    t.taken? (.listener c) = some d := by
  obtain ⟨action, co, k, hc, waiting, going, received, -⟩ := delivers
  have own : t.action.agent? = some (.listener c) := by rw [action]; rfl
  rw [Transition.taken?, if_pos own, System.taking?_listener hc,
    Correlator.taking?_eq waiting going, received]
  rfl

theorem Transition.Delivers.offering? (delivers : t.Delivers c d ack) :
    t.offering? c d.message = some ⟨t.before.system.host.now, d.number, t.ways⟩ := by
  rw [Transition.offering?, delivers.taken?, Option.bind_some, if_pos rfl]

/-- What a listener takes is the first in the channel of its subscription. -/
theorem Transition.of_taken? (taken : t.taken? (.listener c) = some d) :
    t.action = .agent (.listener c) ∧
    ∃ co k, t.before.system.correlators[c]? = some co ∧ co.phase = .waiting ∧
      co.stopping = false ∧ t.before.system.host.take? co.subscription = some (d, k) := by
  unfold Transition.taken? at taken
  split at taken
  next own =>
    have action : t.action = .agent (.listener c) := by
      cases ha : t.action with
      | agent agent =>
        rw [ha] at own
        exact congrArg Action.agent (Option.some.inj own)
      | _ => rw [ha] at own; cases own
    obtain ⟨co, hc, takes⟩ := Option.bind_eq_some_iff.mp taken
    unfold Correlator.taking? at takes
    split at takes
    next receiving =>
      obtain ⟨⟨_, k⟩, received, rfl⟩ := Option.map_eq_some_iff.mp takes
      exact ⟨action, co, k, hc, receiving.1, receiving.2, received⟩
    next => cases takes
  next => cases taken

theorem Transition.of_offering? {offering : Offering}
    (offered : t.offering? c message = some offering) :
    ∃ d, t.taken? (.listener c) = some d ∧ d.message = message := by
  obtain ⟨d, taken, made⟩ := Option.bind_eq_some_iff.mp offered
  split at made
  next same => exact ⟨d, taken, same⟩
  next => cases made

/-! ## Messages that are gone -/

/-- The message is not in the subscription of correlator `c`, and does not come to it again. -/
def Session.Gone (x : Session) (c message : Nat) : Prop :=
  message < x.system.host.broker.messages ∧
  ∃ co s, x.system.correlators[c]? = some co ∧
    x.system.host.broker.subscriptions[co.subscription]? = some s ∧ message ∉ s.messages

theorem Session.Gone.offering? (gone : x.Gone c message) (a : Action) (y : Session) :
    (⟨x, a, y⟩ : Transition).offering? c message = none := by
  obtain ⟨-, co, s, hc, hs, nowhere⟩ := gone
  cases offered : (⟨x, a, y⟩ : Transition).offering? c message with
  | none => rfl
  | some _ =>
    obtain ⟨d, taken, rfl⟩ := Transition.of_offering? offered
    obtain ⟨-, co', k, hc', -, -, received⟩ := Transition.of_taken? taken
    obtain rfl := Option.some.inj (hc.symm.trans hc')
    obtain ⟨channel, here, -⟩ := Host.getElem?_take? received hs
    rw [Subscription.messages_eq, here] at nowhere
    exact absurd (List.mem_append_left _ List.mem_cons_self) nowhere

theorem Session.Gone.next (run : Runs ts x) (h : x.after? a = some y) (gone : x.Gone c message) :
    y.Gone c message := by
  obtain ⟨known, co, s, hc, hs, nowhere⟩ := gone
  obtain ⟨co', hc', alike⟩ := alike_of_after? h hc
  have inc := run.routed.incoming c s (Session.ackSubscription?_eq hc ▸ hs)
  refine ⟨Nat.lt_of_lt_of_le known (messages_le_of_after? h), co', ?_⟩
  rw [alike.subscription]
  by_cases own : a = .agent (.listener c)
  · subst own
    obtain ⟨t, ht, rfl⟩ := Option.map_eq_some_iff.mp h
    obtain ⟨co₁, host, co₂, hc₁, hstep, rfl⟩ := Agent.step?_listener ht
    obtain rfl := Option.some.inj (hc.symm.trans hc₁)
    obtain ⟨s', hs', -, -, copies, -⟩ := (Correlator.step_of_step? hstep).copies_subperm
      (run.wellFormed (System.getElem?_registries hc)) hs inc.held
    have messages : s'.messages.Subperm s.messages := Subscription.messages_subperm [] copies
    exact ⟨s', hc', hs', fun here => nowhere (messages.subset here)⟩
  · obtain ⟨s', hs', out⟩ := outside_of_others run h own hc hs
    refine ⟨s', hc', hs', fun here => ?_⟩
    obtain ⟨p, hp, rfl⟩ := List.mem_map.mp here
    rcases out.copies_subperm with copies | ⟨payload, -, -, copies⟩
    · exact nowhere (Subscription.mem_messages (copies.subset hp))
    · rcases List.mem_cons.mp (copies.subset hp) with rfl | hp
      · exact Nat.lt_irrefl _ known
      · exact nowhere (Subscription.mem_messages hp)

/-! ## What an offer leads to -/

/-- An entry that the acknowledgment answers is in the table of correlator `c`. -/
def Session.Matched (x : Session) (c : Nat) (ack : AckEvent) : Prop :=
  ∃ r, x.registry? c = some r ∧ ∃ e ∈ r.table.entries, ack.Answers e

/-- Correlator `c` hands back for a delay, on a subscription with a bound. -/
def Session.Redelivers (x : Session) (c bound : Nat) (delay : Duration) : Prop :=
  ∃ co s, x.system.correlators[c]? = some co ∧ co.unmatchedDelay = delay ∧
    x.system.host.broker.subscriptions[co.subscription]? = some s ∧ s.maxDeliveries = some bound

theorem Session.Redelivers.next (run : Runs ts x) (h : x.after? a = some y)
    (redelivers : x.Redelivers c bound delay) : y.Redelivers c bound delay := by
  obtain ⟨co, s, hc, same, hs, max⟩ := redelivers
  obtain ⟨co', hc', alike⟩ := alike_of_after? h hc
  obtain ⟨s', hs', config⟩ := config_of_after? run h hc hs
  exact ⟨co', s', hc', alike.unmatchedDelay.trans same, alike.subscription ▸ hs',
    (congrArg SubscriptionConfig.maxDeliveries config).trans max⟩

theorem Transition.Hands.matched (run : Runs ts x) (h : x.after? a = some y) {w : Waiter}
    (hands : (⟨x, a, y⟩ : Transition).Hands c w d ack) : x.Matched c ack := by
  obtain ⟨r, hr, hw, pending, belongs⟩ := hands.belongs run h
  have wf := run.wellFormed hr
  exact ⟨r, hr, w.entry, wf.mem_entries.mpr ⟨w, hw, pending, rfl⟩,
    ((wf.belongs_iff hw pending).mp belongs).1⟩

/-- An acknowledgment that is handed to a waiter is acked, unless the connection fails. -/
theorem Transition.Hands.counts (run : Runs ts x) (h : x.after? a = some y) {w : Waiter}
    (hands : (⟨x, a, y⟩ : Transition).Hands c w d ack) :
    (⟨x, a, y⟩ : Transition).ways = if x.system.host.faults.failAck then [] else [.acked] := by
  obtain ⟨co, k, hc, received, decoded, host, -⟩ := hands.1.processed h
  obtain ⟨entry, r, taken⟩ := (hands_iff_taken run h hc hands.1).mpr ⟨w, ack, hands⟩
  have faults := (Host.take?_counters received).1
  have counts : Host.Counts (if k.faults.failAck then [] else [.acked]) k y.system.host := by
    rw [host]
    unfold Correlator.process
    rw [decoded]
    dsimp only
    rw [taken]
    have noted : Host.Counts [] k (Correlator.noteMismatch k entry.workspace ack) :=
      .of_broker_eq (Correlator.broker_noteMismatch k entry.workspace ack)
    have acked := noted.trans (Host.counts_ack_cases _ co.subscription d)
    rw [Correlator.faults_noteMismatch, List.nil_append] at acked
    exact (acked.note _).noteError _ _
  have all := (Host.counts_take? received).1.trans counts
  rw [faults, List.nil_append] at all
  cases fails : x.system.host.faults.failAck with
  | false =>
    rw [fails] at all
    exact Transition.ways_of_counts_singleton all
  | true =>
    rw [fails] at all
    exact Transition.ways_of_counts_nil all

/-- An acknowledgment that answers no entry is handed back. -/
theorem Transition.Delivers.handsBackUnmatched (run : Runs ts x) (h : x.after? a = some y)
    (delivers : (⟨x, a, y⟩ : Transition).Delivers c d ack) (free : ¬x.Matched c ack) :
    ∃ co k, x.system.correlators[c]? = some co ∧
      x.system.host.take? co.subscription = some (d, k) ∧
      y.system.host = Correlator.handBack k co d ∧
      y.system.correlators[c]? = some { co with phase := .ready } := by
  obtain ⟨co, k, hc, received, decoded, host, correlator⟩ := delivers.processed h
  have found : x.registry? c = some co.registry := System.getElem?_registries hc
  rcases (run.wellFormed found).offer_cases ack with unmatched | ⟨w, hw, pending, -, taken⟩
  · rw [Correlator.process_unmatched k decoded unmatched] at host correlator
    exact ⟨co, k, hc, received, host, correlator⟩
  · exact absurd ((delivers.taken h found hw pending taken).1.matched run h) free

/-- An offer that answers no entry is nacked. Either it was the last, and the message is gone, or
the next one comes after the delay. -/
theorem Transition.Delivers.nacked (run : Runs ts x) (h : x.after? a = some y)
    (delivers : (⟨x, a, y⟩ : Transition).Delivers c d ack) (free : ¬x.Matched c ack)
    (works : x.system.host.faults.failNack = false) (redelivers : x.Redelivers c bound delay) :
    (⟨x, a, y⟩ : Transition).ways = [.nacked] ∧
      (d.number < bound → y.Scheduled c d.again (x.system.host.now + delay.ticks)) ∧
      (bound ≤ d.number → y.Gone c d.message) := by
  obtain ⟨co, k, hc, received, host, hc'⟩ := delivers.handsBackUnmatched run h free
  obtain ⟨co₁, s, hc₁, same, hs, max⟩ := redelivers
  obtain rfl := Option.some.inj (hc.symm.trans hc₁)
  obtain ⟨channel, here, hk⟩ := Host.getElem?_take? received hs
  obtain ⟨faults, now, -, -, -⟩ := Host.take?_counters received
  have works' : k.faults.failNack = false := faults ▸ works
  have after : y.system.host.now = x.system.host.now :=
    now_of_after? h fun moment tick => by cases delivers.1.symm.trans tick
  have broker := Correlator.broker_handBack (c := co) works' d
  rw [same, now] at broker
  let timer : Option Timer :=
    if delay.isZero then none else some ⟨x.system.host.now + delay.ticks, k.timers⟩
  let taken : Subscription := { s with channel, held := s.held ++ [d] }
  have found : y.system.host.broker.subscriptions[co.subscription]? =
      some (taken.handBack d timer) := by
    rw [host, broker]
    simp [Broker.nack, Broker.adjust, hk, taken, timer]
  have ackSubscription : x.ackSubscription? c = some s := Session.ackSubscription?_eq hc ▸ hs
  refine ⟨?_, fun more => ?_, fun last => ?_⟩
  · have counts : Host.Counts [.nacked] k y.system.host := by
      rw [host]
      exact (Host.counts_nack _ co.subscription d works' co.unmatchedDelay).noteError _ _
    exact Transition.ways_of_counts_singleton ((Host.counts_take? received).1.trans counts)
  · have waiting : co.phase ≠ .ended := by
      obtain ⟨-, co₁, -, hc₁, waiting, -⟩ := delivers
      obtain rfl := Option.some.inj (hc.symm.trans hc₁)
      simp [waiting]
    have receiving := run.receiving hc hs waiting
    have again : taken.isLast d = false := by simp [Subscription.isLast, taken, max, more]
    refine ⟨_, taken.handBack d timer, hc', .inl rfl, found, ?_⟩
    rw [after]
    exact Subscription.offers_again again receiving delay
  · have inc := run.routed.incoming c s ackSubscription
    have perm : taken.messages.Perm s.messages := (Subscription.copies_take here).map Prod.fst
    have mem : d.message ∈ s.messages := by
      rw [Subscription.messages_eq, here]
      exact List.mem_append_left _ List.mem_cons_self
    refine ⟨Nat.lt_of_lt_of_le (run.routed.fresh ackSubscription mem) (messages_le_of_after? h),
      _, _, hc', found, ?_⟩
    refine Subscription.not_mem_handBack (List.mem_append_right _ (List.mem_singleton_self _))
      (perm.nodup_iff.mpr inc.nodup) ?_ timer
    simp [Subscription.isLast, taken, max, last]

/-- An offer that is to come is taken at its moment, or nothing of the message is taken. -/
theorem Session.Scheduled.taken (run : Runs ts x) (h : x.after? a = some y)
    (undisturbed : (⟨x, a, y⟩ : Transition).Undisturbed c)
    (decoded : AckEvent.ofPayload d.payload = .ok ack) (scheduled : x.Scheduled c d moment) :
    (y.Scheduled c d moment ∧ (⟨x, a, y⟩ : Transition).offering? c d.message = none) ∨
      (⟨x, a, y⟩ : Transition).Delivers c d ack ∧ x.system.host.now = moment := by
  cases offered : (⟨x, a, y⟩ : Transition).offering? c d.message with
  | none =>
    rcases scheduled.next run h undisturbed decoded with still | delivers
    · exact .inl ⟨still, rfl⟩
    · exact .inr delivers
  | some _ =>
    obtain ⟨e, taken, same⟩ := Transition.of_offering? offered
    obtain ⟨action, co, k, hc, waiting, going, received⟩ := Transition.of_taken? taken
    obtain ⟨co₁, s, hc₁, -, hs, offers⟩ := scheduled
    obtain rfl := Option.some.inj (hc.symm.trans hc₁)
    have inc := run.routed.incoming c s (Session.ackSubscription?_eq hc ▸ hs)
    obtain ⟨channel, here, -⟩ := Host.getElem?_take? received hs
    have mem : e ∈ s.channel := here ▸ List.mem_cons_self
    obtain ⟨rfl, now⟩ := offers.of_channel inc.nodup mem same
    exact .inr ⟨⟨action, co, k, hc, waiting, going, received, decoded⟩, now⟩

/-- Where nothing can go on, an offer that is to come comes later. -/
theorem Session.Scheduled.now_lt (run : Runs ts x) (quiescent : x.system.isQuiescent)
    (scheduled : x.Scheduled c d moment) : x.system.host.now < moment := by
  obtain ⟨co, s, hc, phase, hs, offers⟩ := scheduled
  cases offers with
  | heldBack timer held due le =>
    refine Nat.lt_of_le_of_ne le fun now => ?_
    obtain ⟨listed, -⟩ := run.redelivery_timer? hc hs held
    have still := List.all_eq_true.mp quiescent _ listed
    have found : s.delayed? timer.serial = some (timer, d) := (run.timed hc hs).delayed?_eq held
    have isDue : x.system.host.isDue timer := by simp [Host.isDue, due, now]
    simp [System.canStep, Agent.step?, Broker.delayed?, hs, found, isDue] at still
  | arrived here _ =>
    have still := System.step?_of_quiescent quiescent
      (run.staffed.listener c (List.getElem?_eq_some_iff.mp hc).1)
    cases hstep : co.step? x.system.host with
    | some v => simp [Agent.step?, hc, hstep] at still
    | none =>
      cases told : co.stopping with
      | false =>
        have attends : co.Attends := ⟨phase, told⟩
        exact absurd hstep (attends.step? hs (List.ne_nil_of_mem here))
      | true =>
        rcases phase with ready | waiting
        · simp [Correlator.step?, ready, told] at hstep
        · simp [Correlator.step?, waiting, told] at hstep

/-! ## The schedule of a message -/

/-- The offers of a message so far: at equal distances and with numbers from 1 on, nobody was
waiting at any of them, and each was nacked. -/
structure Unmatched (ts : List Transition) (c message : Nat) (ack : AckEvent)
    (start delay n : Nat) : Prop where
  offers : offerings ts c message =
    ((List.range n).map fun k => ⟨start + k * delay, k + 1, [.nacked]⟩).reverse
  free : ∀ u ∈ ts, u.offering? c message ≠ none → ¬u.before.Matched c ack

namespace Unmatched

theorem nil (c message : Nat) (ack : AckEvent) (start delay : Nat) :
    Unmatched [] c message ack start delay 0 :=
  ⟨rfl, fun _ hu => absurd hu List.not_mem_nil⟩

variable {delay : Nat} (unmatched : Unmatched ts c message ack start delay n)
include unmatched

theorem skip (none : t.offering? c message = none) :
    Unmatched (t :: ts) c message ack start delay n := by
  refine ⟨?_, fun u hu some => ?_⟩
  · rw [offerings_cons, none]
    exact unmatched.offers
  · rcases List.mem_cons.mp hu with rfl | hu
    · exact absurd none some
    · exact unmatched.free u hu some

theorem again (offered : t.offering? c message = some ⟨start + n * delay, n + 1, [.nacked]⟩)
    (free : ¬t.before.Matched c ack) : Unmatched (t :: ts) c message ack start delay (n + 1) := by
  refine ⟨?_, fun u hu some => ?_⟩
  · rw [offerings_cons, offered, unmatched.offers, List.range_succ, List.map_append,
      List.reverse_append]
    rfl
  · rcases List.mem_cons.mp hu with rfl | hu
    · exact free
    · exact unmatched.free u hu some

end Unmatched

/-- What has become of a message of which the first offer was made at `start`. -/
inductive Session.Offered (z : Session) (ts : List Transition) (c : Nat) (d : Delivery)
    (ack : AckEvent) (start delay bound : Nat) : Prop where
  /-- Nobody was waiting so far, and the next offer is to come after the delay. -/
  | waiting (n : Nat) :
      1 ≤ n → n < bound → Unmatched ts c d.message ack start delay n →
      z.Scheduled c (d.after n) (start + n * delay) →
      (z.system.isQuiescent → z.system.host.now < start + n * delay) →
      Offered z ts c d ack start delay bound
  /-- Nobody was waiting at any of as many offers as there may be. -/
  | exhausted :
      Unmatched ts c d.message ack start delay bound → z.Gone c d.message →
      Offered z ts c d ack start delay bound
  /-- At one of the offers an entry that the acknowledgment answers was in the table, for the
  first time. The acknowledgment went to a waiter, and no other offer was made. -/
  | matched (later : List Transition) (u : Transition) (sooner : List Transition) (w : Waiter)
      (n : Nat) :
      ts = later ++ u :: sooner → n < bound → Unmatched sooner c d.message ack start delay n →
      u.before.system.host.now = start + n * delay → u.before.Matched c ack →
      u.Hands c w (d.after n) ack →
      u.ways = (if u.before.system.host.faults.failAck then [] else [.acked]) →
      offerings later c d.message = [] → z.Gone c d.message →
      Offered z ts c d ack start delay bound

/-- An offer is made at its moment. -/
theorem Transition.Delivers.offered (run : Runs ts x) (h : x.after? a = some y)
    (delivers : (⟨x, a, y⟩ : Transition).Delivers c (d.after n) ack)
    (works : x.system.host.faults.failNack = false) (redelivers : x.Redelivers c bound delay)
    (unmatched : Unmatched since c d.message ack start delay.ticks n)
    (now : x.system.host.now = start + n * delay.ticks) (more : n < bound) :
    y.Offered (⟨x, a, y⟩ :: since) c d ack start delay.ticks bound := by
  have run' := Runs.next run h
  have offering := delivers.offering?
  dsimp only at offering
  rw [now] at offering
  by_cases free : x.Matched c ack
  · obtain ⟨r, hr, e, he, answers⟩ := free
    have goes := delivers.goes run h
    obtain ⟨r', hr', ⟨w, hw, pending, -, hands⟩ | ⟨none, -⟩⟩ := goes
    · have matched := hands.matched run h
      refine .matched [] _ since w n rfl more unmatched now matched hands (hands.counts run h)
        rfl ?_
      obtain ⟨co, k, hc, received, -⟩ := hands.1.processed h
      obtain ⟨co', hc', -⟩ := alike_of_after? h hc
      obtain ⟨s', hs'⟩ := run'.subscribed hc'
      have known := run'.routed.handed _ List.mem_cons_self c w (d.after n) ack hands
      refine ⟨known, co', s', hc', hs', ?_⟩
      exact (run'.routed.incoming c s' (Session.ackSubscription?_eq hc' ▸ hs')).spent _
        List.mem_cons_self w (d.after n) ack hands
    · obtain rfl := Option.some.inj (hr.symm.trans hr')
      obtain ⟨w, hw, pending, rfl⟩ := (run.wellFormed hr).mem_entries.mp he
      exact absurd answers (none w hw pending)
  · obtain ⟨ways, again, last⟩ := delivers.nacked run h free works redelivers
    rw [ways] at offering
    have unmatched' := unmatched.again offering free
    by_cases rest : n + 1 < bound
    · have scheduled := again rest
      rw [now, Nat.add_assoc, ← Nat.succ_mul] at scheduled
      exact .waiting (n + 1) (Nat.le_add_left 1 n) rest unmatched' scheduled
        fun quiescent => scheduled.now_lt run' quiescent
    · obtain rfl : bound = n + 1 := by omega
      exact .exhausted unmatched' (last (Nat.le_refl _))

theorem Session.Offered.next (run : Runs ts x) (h : x.after? a = some y)
    (undisturbed : (⟨x, a, y⟩ : Transition).Undisturbed c)
    (works : x.system.host.faults.failNack = false) (redelivers : x.Redelivers c bound delay)
    (decoded : AckEvent.ofPayload d.payload = .ok ack)
    (offered : x.Offered since c d ack start delay.ticks bound) :
    y.Offered (⟨x, a, y⟩ :: since) c d ack start delay.ticks bound := by
  cases offered with
  | waiting n some more unmatched scheduled _ =>
    have decoded : AckEvent.ofPayload (d.after n).payload = .ok ack := decoded
    rcases scheduled.taken run h undisturbed decoded with ⟨still, none⟩ | ⟨delivers, now⟩
    · exact .waiting n some more (unmatched.skip none) still
        fun quiescent => still.now_lt (run.next h) quiescent
    · exact delivers.offered run h works redelivers unmatched now more
  | exhausted unmatched gone =>
    exact .exhausted (unmatched.skip (gone.offering? a y)) (gone.next run h)
  | matched later u sooner w n split more unmatched now matched hands ways none gone =>
    refine .matched (⟨x, a, y⟩ :: later) u sooner w n (by rw [split]; rfl) more unmatched now
      matched hands ways ?_ (gone.next run h)
    rw [offerings_cons, gone.offering? a y, none]
    rfl

theorem Session.Redelivers.kept (run : Runs (since ++ earlier) z) (base : Runs earlier x)
    (redelivers : x.Redelivers c bound delay) : z.Redelivers c bound delay := by
  induction since generalizing z with
  | nil => exact base.unique run ▸ redelivers
  | cons u since ih =>
    cases run with
    | next run h => exact (ih run).next run h

/-- A message whose first offer answers no entry is offered at equal distances from then on, as
often as the subscription allows, until an entry that it answers is in the table at one of the
offers. -/
theorem redelivery_schedule (run : Runs (since ++ t :: earlier) z) (delivers : t.Delivers c d ack)
    (first : d.number = 1) (redelivers : t.before.Redelivers c bound delay) (some : 1 ≤ bound)
    (undisturbed : ∀ u ∈ since, u.Undisturbed c)
    (works : ∀ u ∈ since ++ [t], u.before.system.host.faults.failNack = false) :
    z.Offered (since ++ [t]) c d ack t.before.system.host.now delay.ticks bound := by
  have base := run.split.1
  induction since generalizing z with
  | nil =>
    cases run with
    | next run h =>
      have start : d.after 0 = d :=
        congrArg (fun number => ({ d with number } : Delivery)) first.symm
      rw [← start] at delivers
      exact delivers.offered run h (works _ List.mem_cons_self) redelivers (.nil _ _ _ _ _)
        (by rw [Nat.zero_mul]; rfl) some
  | cons u since ih =>
    cases run with
    | @next _ x _ a run h =>
      have offered := ih run (fun v hv => undisturbed v (List.mem_cons_of_mem _ hv))
        fun v hv => works v (List.mem_cons_of_mem _ hv)
      have longer : Runs (since ++ [t] ++ earlier) x := by
        rw [← List.append_cons]
        exact run
      have settings := redelivers.kept longer base
      exact offered.next run h (undisturbed _ List.mem_cons_self) (works _ List.mem_cons_self)
        settings delivers.decoded

/-- An acknowledgment comes to a correlator that nobody waits with, on a connection as given; the
latest action first. -/
def unawaited (faults : Faults) : List Action :=
  [.perform (.inject "acks" (AckEvent.write plainAnswer)), .perform (.setFaults faults),
   .agent (.listener 0),
   .perform (.startCorrelator "c" ⟨"acks", "listener", some 3⟩ (.ofMillis 30000) (.ofMillis 500))]

theorem unawaited_delivers (taken : t.taken? (.listener 0) = some plainOffer)
    (settings : (t.before.system.correlators[0]?.map fun co =>
        (co.unmatchedDelay, co.subscription)) = some (.ofMillis 500, 0) ∧
      (t.before.system.host.broker.subscriptions[0]?.map fun s => s.maxDeliveries) =
        some (some 3)) :
    t.Delivers 0 plainOffer plainAnswer ∧ t.before.Redelivers 0 3 (.ofMillis 500) := by
  have decoded : AckEvent.ofPayload plainOffer.payload = .ok plainAnswer := by decide +kernel
  obtain ⟨action, co, k, hc, waiting, going, received⟩ := Transition.of_taken? taken
  obtain ⟨delay, subscription⟩ : co.unmatchedDelay = .ofMillis 500 ∧ co.subscription = 0 := by
    simpa [hc] using settings.1
  obtain ⟨s, hs, max⟩ := Option.map_eq_some_iff.mp settings.2
  exact ⟨⟨action, co, k, hc, waiting, going, received, decoded⟩,
    co, s, hc, delay, subscription ▸ hs, max⟩

/-- What follows the first offer, up to the third; the latest action first. -/
def reoffered : List Action :=
  [.agent (.listener 0), .agent (.redelivery 0 1), .tick 1000, .agent (.listener 0),
   .agent (.listener 0), .agent (.redelivery 0 0), .tick 500, .agent (.listener 0)]

set_option maxRecDepth 100000 in
/-- The acknowledgment is offered three times, half a second apart each, and nacked as often. -/
theorem three_offers_nacked :
    let t := happening (.agent (.listener 0)) (unawaited {})
    let since := (play (reoffered ++ .agent (.listener 0) :: unawaited {})).1.take reoffered.length
    let z := (play (reoffered ++ .agent (.listener 0) :: unawaited {})).2
    t.Delivers 0 plainOffer plainAnswer ∧ t.before.Redelivers 0 3 (.ofMillis 500) ∧
      (∀ u ∈ since, u.Undisturbed 0) ∧
      (∀ u ∈ since ++ [t], u.before.system.host.faults.failNack = false) ∧
      z.Offered (since ++ [t]) 0 plainOffer plainAnswer 0 500 3 ∧
      offerings (since ++ [t]) 0 0 =
        [⟨1000, 3, [.nacked]⟩, ⟨500, 2, [.nacked]⟩, ⟨0, 1, [.nacked]⟩] := by
  intro t since z
  obtain ⟨delivers, redelivers⟩ := unawaited_delivers (t := t) (by decide +kernel)
    (by decide +kernel)
  have undisturbed : ∀ u ∈ since, u.Undisturbed 0 := by decide +kernel
  have works : ∀ u ∈ since ++ [t], u.before.system.host.faults.failNack = false := by
    decide +kernel
  have split : (play (reoffered ++ .agent (.listener 0) :: unawaited {})).1 =
      since ++ t :: (play (unawaited {})).1 := by rfl
  have run : Runs (since ++ t :: (play (unawaited {})).1) z := split ▸ play_runs _
  have offered := redelivery_schedule run delivers rfl redelivers (by decide) undisturbed works
  exact ⟨delivers, redelivers, undisturbed, works, offered, by decide +kernel⟩

/-- What follows the first offer where the connection loses what is handed back; the latest action
first. -/
def unoffered : List Action := [.tick 5000, .agent (.listener 0)]

set_option maxRecDepth 100000 in
/-- Where the nack of an unmatched acknowledgment fails, the second offer and the third are never
made. -/
theorem failed_nack_not_reoffered :
    let t := happening (.agent (.listener 0)) (unawaited { failNack := true })
    let actions := unoffered ++ .agent (.listener 0) :: unawaited { failNack := true }
    let since := (play actions).1.take unoffered.length
    let z := (play actions).2
    t.Delivers 0 plainOffer plainAnswer ∧ plainOffer.number = 1 ∧
      t.before.Redelivers 0 3 (.ofMillis 500) ∧ (∀ u ∈ since, u.Undisturbed 0) ∧
      (∀ u ∈ (play actions).1, ¬u.before.Matched 0 plainAnswer) ∧ z.system.isQuiescent ∧
      t.before.system.host.now + (3 - 1) * 500 ≤ z.system.host.now ∧
      z.Gone 0 plainOffer.message ∧
      offerings (play actions).1 0 plainOffer.message = [⟨0, 1, []⟩] := by
  intro t actions since z
  obtain ⟨delivers, redelivers⟩ := unawaited_delivers (t := t) (by decide +kernel)
    (by decide +kernel)
  have undisturbed : ∀ u ∈ since, u.Undisturbed 0 := by decide +kernel
  have empty : ∀ u ∈ (play actions).1,
      ((u.before.registry? 0).all fun r => r.table.entries == []) = true := by decide +kernel
  have unmatched : ∀ u ∈ (play actions).1, ¬u.before.Matched 0 plainAnswer := by
    rintro u hu ⟨r, hr, e, he, -⟩
    have none : r.table.entries = [] := by simpa [hr] using empty u hu
    rw [none] at he
    cases he
  have left : (z.system.correlators[0]?.map Correlator.subscription) = some 0 ∧
      (z.system.host.broker.subscriptions[0]?.map Subscription.messages) = some [] ∧
      0 < z.system.host.broker.messages := by decide +kernel
  have gone : z.Gone 0 plainOffer.message := by
    obtain ⟨correlator, subscription, known⟩ := left
    obtain ⟨co, hc, same⟩ := Option.map_eq_some_iff.mp correlator
    obtain ⟨s, hs, none⟩ := Option.map_eq_some_iff.mp subscription
    exact ⟨known, co, s, hc, same ▸ hs, none ▸ List.not_mem_nil⟩
  exact ⟨delivers, rfl, redelivers, undisturbed, unmatched, by decide +kernel, by decide +kernel,
    gone, by decide +kernel⟩

end Script

end ChangeDispatch
