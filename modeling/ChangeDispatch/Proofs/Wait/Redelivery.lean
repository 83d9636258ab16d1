import ChangeDispatch.Proofs.Shutdown.Stages
import ChangeDispatch.Proofs.Wait.Settlement
import ChangeDispatch.Proofs.Wait.Timers

/-!
# Offers that come again

An acknowledgment that nobody waits for is handed back, and the broker offers it again when a
timer is due. Where time passes no timer that is due, and the listener receives without
failures, every offer is received at the moment for which it was set. So after a first offer
that was handed back the next ones follow at equal distances, until one of them is taken or
the bound of the subscription is reached.
-/
namespace ChangeDispatch

/-- The offer of the same message that comes after `k` others. -/
def Delivery.after (d : Delivery) (k : Nat) : Delivery := { d with number := k + 1 }

namespace Subscription

/-- The offer is to be received at a moment: it is held back until then, or it is there. -/
inductive Offers (s : Subscription) (now : Nat) (d : Delivery) (moment : Nat) : Prop where
  | heldBack (timer : Timer) :
      (timer, d) ∈ s.delayed → timer.due = moment → now ≤ moment → Offers s now d moment
  | arrived : d ∈ s.channel → now = moment → Offers s now d moment

namespace Offers

variable {s s' : Subscription} {now moment : Nat} {d : Delivery}

theorem le (h : s.Offers now d moment) : now ≤ moment := by
  cases h with
  | heldBack _ _ _ le => exact le
  | arrived _ same => exact Nat.le_of_eq same

theorem mono (h : s.Offers now d moment) (delayed : s.delayed ⊆ s'.delayed)
    (channel : s.channel ⊆ s'.channel) : s'.Offers now d moment := by
  cases h with
  | heldBack timer held due le => exact .heldBack timer (delayed held) due le
  | arrived here same => exact .arrived (channel here) same

theorem copy_mem (h : s.Offers now d moment) : d.copy ∈ s.copies := by
  rw [copies_eq]
  cases h with
  | heldBack timer held _ _ =>
    exact List.mem_append_right _ (List.mem_append_right _ (List.mem_map_of_mem held))
  | arrived here _ => exact List.mem_append_left _ (List.mem_map_of_mem here)

end Offers

theorem channel_subset_arrive (s : Subscription) (d : Delivery) :
    s.channel ⊆ (s.arrive d).channel := by
  unfold arrive
  split
  · exact List.subset_append_left _ _
  · exact List.Subset.refl _

/-- While the receiver does nothing, an offer stays, or it arrives when its timer is due. -/
theorem Offers.outside {s s' : Subscription} {now moment n : Nat} {d : Delivery}
    {arriving : Payload → Prop} (h : s.Offers now d moment) (out : Outside arriving now n s s')
    (receiving : s.receiving) : s'.Offers now d moment := by
  cases out with
  | same => exact h
  | arrived _ _ =>
    refine h.mono ?_ (s.channel_subset_arrive _)
    rw [delayed_arrive]
    exact List.Subset.refl _
  | detached => exact h.mono (List.Subset.refl _) (List.Subset.refl _)
  | @offered entry mem isDue =>
    unfold offerDelayed
    have channel := channel_subset_arrive { s with delayed := s.delayed.erase entry } entry.2
    cases h with
    | heldBack timer held due le =>
      by_cases own : (timer, d) = entry
      · subst own
        refine .arrived ?_ (Nat.le_antisymm le (due ▸ isDue))
        unfold arrive
        rw [if_pos receiving]
        exact List.mem_append_right _ (List.mem_singleton_self _)
      · refine .heldBack timer ?_ due le
        rw [delayed_arrive]
        exact (List.mem_erase_of_ne own).mpr held
    | arrived here same => exact .arrived (channel here) same

theorem Offers.release {s : Subscription} {now moment : Nat} {d : Delivery}
    (h : s.Offers now d moment) (e : Delivery) : (s.release e).Offers now d moment :=
  h.mono (List.Subset.refl _) (List.Subset.refl _)

/-- To settle another delivery leaves an offer alone. -/
theorem Offers.handBack {s : Subscription} {now moment : Nat} {d : Delivery}
    (h : s.Offers now d moment) (e : Delivery) (timer : Option Timer) :
    (s.handBack e timer).Offers now d moment := by
  have released := h.release e
  unfold Subscription.handBack
  dsimp only
  split
  · exact released
  · cases timer with
    | some timer => exact released.mono (List.subset_append_left _ _) (List.Subset.refl _)
    | none =>
      refine released.mono ?_ (channel_subset_arrive _ _)
      rw [delayed_arrive]
      exact List.Subset.refl _

/-- What is handed back with a timer is offered again when that is due. -/
theorem offers_handBack {s : Subscription} {now : Nat} {d : Delivery} {timer : Timer}
    (more : s.isLast d = false) (le : now ≤ timer.due) :
    (s.handBack d (some timer)).Offers now d.again timer.due := by
  have again : (s.release d).isLast d = false := more
  unfold Subscription.handBack
  dsimp only
  rw [again, if_neg (by decide)]
  exact .heldBack timer (List.mem_append_right _ (List.mem_singleton_self _)) rfl le

end Subscription

/-! ## The listener -/

namespace Correlator

/-- The listener receives, or is about to. -/
structure Attends (c : Correlator) : Prop where
  phase : c.phase = .ready ∨ c.phase = .waiting
  going : c.stopping = false

/-- Where something is to be received, the listener can go on. -/
theorem Attends.step? {c : Correlator} (attends : c.Attends) {h : Host} {s : Subscription}
    (hs : h.broker.subscriptions[c.subscription]? = some s) (offered : s.channel ≠ []) :
    c.step? h ≠ none := by
  rcases attends.phase with ready | waiting
  · unfold Correlator.step?
    rw [ready]
    dsimp only
    rw [attends.going, if_neg (by decide)]
    split <;> simp
  · obtain ⟨d, k, ht⟩ := Host.exists_take? hs offered
    rw [step?_of_take? waiting attends.going ht]
    simp

theorem offers_process {h : Host} (c : Correlator) (e : Delivery) {s : Subscription}
    (hs : h.broker.subscriptions[c.subscription]? = some s) {d : Delivery} {moment : Nat}
    (offers : s.Offers h.now d moment) :
    ∃ s', (process h c e).1.broker.subscriptions[c.subscription]? = some s' ∧
      s'.Offers (process h c e).1.now d moment := by
  obtain ⟨r, f, settles, a, -⟩ := settles_process h c e
  refine ⟨f s, by rw [a.getElem?, hs]; rfl, ?_⟩
  rw [a.now]
  cases settles with
  | refused _ => exact offers.release e
  | taken _ _ => exact offers.release e
  | unclaimed _ _ hf =>
    rcases hf with rfl | ⟨timer, rfl⟩
    · exact offers.release e
    · exact offers.handBack e timer

/-- In a step of the listener that meets no failure an offer is received, or it stays. -/
theorem Attends.next {h k : Host} {c c' : Correlator} (attends : c.Attends)
    (hstep : c.step? h = some (k, c')) (receives : h.broker.failReceives = 0) {s : Subscription}
    (hs : h.broker.subscriptions[c.subscription]? = some s) {d : Delivery} {moment : Nat}
    (offers : s.Offers h.now d moment) :
    (∃ s', k.broker.subscriptions[c.subscription]? = some s' ∧ s'.Offers k.now d moment ∧
      (c'.phase = .ready ∨ c'.phase = .waiting)) ∨
    c.phase = .waiting ∧ h.now = moment ∧ ∃ l, h.take? c.subscription = some (d, l) := by
  obtain ⟨ready | waiting, going⟩ := attends
  · unfold Correlator.step? Host.beginReceive Broker.beginReceive at hstep
    rw [ready] at hstep
    dsimp only at hstep
    rw [going, if_neg (by decide), receives] at hstep
    obtain ⟨rfl, rfl⟩ := Prod.mk.inj (Option.some.inj hstep)
    exact .inl ⟨s, hs, offers, .inr rfl⟩
  · cases ht : h.take? c.subscription with
    | none =>
      -- nothing is in the channel, so the offer is held back and the listener goes on waiting
      have unended : h.broker.isEnded c.subscription = false := by
        cases offers with
        | arrived here _ =>
          rw [Host.channel_eq_nil hs ht] at here
          cases here
        | heldBack timer held _ _ =>
          have some : s.delayed ≠ [] := List.ne_nil_of_mem held
          simp [Broker.isEnded, hs, Subscription.isEnded, some]
      unfold Correlator.step? at hstep
      rw [waiting] at hstep
      dsimp only at hstep
      rw [going, if_neg (by decide), ht] at hstep
      dsimp only at hstep
      rw [unended, if_neg (by decide)] at hstep
      cases hstep
    | some received =>
      obtain ⟨e, l⟩ := received
      obtain ⟨channel, hch, hl⟩ := Host.getElem?_take? ht hs
      have now : l.now = h.now := (Host.take?_counters ht).2.1
      rw [step?_of_take? waiting going ht] at hstep
      obtain ⟨rfl, rfl⟩ := Prod.mk.inj (Option.some.inj hstep)
      have stays : ({ s with channel, held := s.held ++ [e] } : Subscription).Offers h.now d
          moment → _ := fun offers => offers_process c e hl (now ▸ offers)
      cases offers with
      | heldBack timer held due le =>
        obtain ⟨s', hs', offers⟩ := stays (.heldBack timer held due le)
        exact .inl ⟨s', hs', offers, .inl rfl⟩
      | arrived here same =>
        rw [hch] at here
        rcases List.mem_cons.mp here with rfl | here
        · exact .inr ⟨waiting, same, l, rfl⟩
        · obtain ⟨s', hs', offers⟩ := stays (.arrived here same)
          exact .inl ⟨s', hs', offers, .inl rfl⟩

end Correlator

/-! ## The clock -/

namespace System

/-- The clock may move on to a moment: nothing can be done before, and no timer is due before. -/
def isPunctual (s : System) (moment : Nat) : Bool :=
  s.isQuiescent && s.agents.all fun a => (a.timer? s).all fun timer => moment ≤ timer.due

theorem isPunctual_iff {s : System} {moment : Nat} :
    s.isPunctual moment ↔ s.isQuiescent ∧
      ∀ a ∈ s.agents, ∀ timer, a.timer? s = some timer → moment ≤ timer.due := by
  simp [isPunctual, Option.all_eq_true]

/-- The clock of a system that has settled goes on so, from one timer to the next. -/
theorem isPunctual_next {s : System} (quiescent : s.isQuiescent) (target : Nat) :
    s.isPunctual ((s.dueMoments target).min?.getD target) := by
  refine isPunctual_iff.mpr ⟨quiescent, fun a ha timer ht => ?_⟩
  by_cases within : timer.due ≤ target
  · have mem : timer.due ∈ s.dueMoments target := by
      refine List.mem_filterMap.mpr ⟨a, ha, ?_⟩
      simp [ht, within]
    cases hm : (s.dueMoments target).min? with
    | none =>
      rw [List.min?_eq_none_iff.mp hm] at mem
      cases mem
    | some first => exact (List.min?_eq_some_iff.mp hm).2 _ mem
  · cases hm : (s.dueMoments target).min? with
    | none => exact Nat.le_of_not_le within
    | some first =>
      obtain ⟨b, -, hb⟩ := List.mem_filterMap.mp (List.min?_eq_some_iff.mp hm).1
      have := of_decide_eq_true (Option.filter_eq_some_iff.mp hb).2
      exact Nat.le_trans this (Nat.le_of_not_le within)

end System

namespace Script

variable {ts later : List Transition} {x y z : Session} {a : Action} {c : Nat} {d : Delivery}
  {ack : AckEvent} {id : RequestId} {moment : Nat}

/-- If time passes in the transition, the clock moves on as it may. -/
def Transition.isPunctual (t : Transition) : Bool :=
  match t.action with
  | .tick moment => t.before.system.isPunctual moment
  | _ => true

/-- Correlator `c` is open, and its listener was not told to stop. -/
def Session.serves (x : Session) (c : Nat) : Bool :=
  (x.system.correlators[c]?).any fun co => !co.stopping && !co.registry.table.closed

/-- The clock is punctual, receives do not fail, and the correlator is not shut down. -/
structure Transition.Undisturbed (t : Transition) (c : Nat) : Prop where
  punctual : t.isPunctual
  receives : t.before.system.host.broker.failReceives = 0
  serves : t.after.serves c

instance Transition.decidableUndisturbed (t : Transition) (c : Nat) :
    Decidable (t.Undisturbed c) :=
  decidable_of_iff
    (t.isPunctual ∧ t.before.system.host.broker.failReceives = 0 ∧ t.after.serves c)
    ⟨fun ⟨punctual, receives, serves⟩ => ⟨punctual, receives, serves⟩,
      fun h => ⟨h.punctual, h.receives, h.serves⟩⟩

/-! ## What is offered -/

/-- Correlator `c` is to receive an offer at a moment. -/
def Session.Scheduled (x : Session) (c : Nat) (d : Delivery) (moment : Nat) : Prop :=
  ∃ co s, x.system.correlators[c]? = some co ∧ (co.phase = .ready ∨ co.phase = .waiting) ∧
    x.system.host.broker.subscriptions[co.subscription]? = some s ∧
    s.Offers x.system.host.now d moment

theorem Session.Scheduled.now_le (h : x.Scheduled c d moment) : x.system.host.now ≤ moment := by
  obtain ⟨co, s, -, -, -, offers⟩ := h
  exact offers.le

theorem going_of_after? (h : x.after? a = some y) (serves : y.serves c) {co : Correlator}
    (hc : x.system.correlators[c]? = some co) : co.stopping = false := by
  obtain ⟨co', hc', onward⟩ := (Session.onward_of_after? h).correlators c co hc
  cases hs : co.stopping with
  | false => rfl
  | true =>
    unfold Session.serves at serves
    rw [hc', Option.any_some, onward.stopping hs] at serves
    cases serves

/-- An offer that is held back has an agent that waits for its timer. -/
theorem Runs.redelivery_timer? (run : Runs ts x) {co : Correlator}
    (hc : x.system.correlators[c]? = some co) {s : Subscription}
    (hs : x.system.host.broker.subscriptions[co.subscription]? = some s) {timer : Timer}
    (held : (timer, d) ∈ s.delayed) :
    Agent.redelivery co.subscription timer.serial ∈ x.system.agents ∧
      (Agent.redelivery co.subscription timer.serial).timer? x.system = some timer := by
  constructor
  · have listed : (co.subscription, timer) ∈ x.system.host.broker.delayed :=
      List.mem_flatMap.mpr ⟨(s, co.subscription), List.mem_zipIdx_iff_getElem?.mpr hs,
        List.mem_map_of_mem (f := fun entry => (co.subscription, entry.1)) held⟩
    exact List.mem_append_right _ (List.mem_map_of_mem
      (f := fun (entry : Nat × Timer) => Agent.redelivery entry.1 entry.2.serial) listed)
  · have found : s.delayed? timer.serial = some (timer, d) := (run.timed hc hs).delayed?_eq held
    simp [Agent.timer?, Broker.delayed?, hs, found]

/-- The clock does not move past an offer. -/
theorem Session.Scheduled.tick (run : Runs ts x) {later : Nat}
    (h : x.after? (.tick later) = some y) (punctual : x.system.isPunctual later)
    (serves : y.serves c) (scheduled : x.Scheduled c d moment) : y.Scheduled c d moment := by
  obtain ⟨co, s, hc, phase, hs, offers⟩ := scheduled
  obtain ⟨quiescent, timers⟩ := System.isPunctual_iff.mp punctual
  have attends : co.Attends := ⟨phase, going_of_after? h serves hc⟩
  obtain rfl := Session.after?_tick h
  refine ⟨co, s, hc, phase, hs, ?_⟩
  cases offers with
  | heldBack timer held due _ =>
    obtain ⟨listed, waits⟩ := run.redelivery_timer? hc hs held
    exact .heldBack timer held due (due ▸ timers _ listed timer waits)
  | arrived here _ =>
    -- the listener would have something to do
    have still := System.step?_of_quiescent quiescent
      (run.staffed.listener c (List.getElem?_eq_some_iff.mp hc).1)
    cases hstep : co.step? x.system.host with
    | none => exact absurd hstep (attends.step? hs (List.ne_nil_of_mem here))
    | some v => simp [Agent.step?, hc, hstep] at still

/-- The listener receives an offer at its moment, or the offer stays. -/
theorem Session.Scheduled.next (run : Runs ts x) (h : x.after? a = some y)
    (undisturbed : (⟨x, a, y⟩ : Transition).Undisturbed c)
    (decoded : AckEvent.ofPayload d.payload = .ok ack) (scheduled : x.Scheduled c d moment) :
    y.Scheduled c d moment ∨
      (⟨x, a, y⟩ : Transition).Delivers c d ack ∧ x.system.host.now = moment := by
  by_cases ticks : ∃ later, a = .tick later
  · obtain ⟨later, rfl⟩ := ticks
    exact .inl (scheduled.tick run h undisturbed.punctual undisturbed.serves)
  obtain ⟨co, s, hc, phase, hs, offers⟩ := scheduled
  have going := going_of_after? h undisturbed.serves hc
  by_cases listens : a = .agent (.listener c)
  · subst listens
    obtain ⟨t, ht, rfl⟩ := Option.map_eq_some_iff.mp h
    obtain ⟨co₁, host, co', hc₁, hstep, rfl⟩ := Agent.step?_listener ht
    obtain rfl := Option.some.inj (hc.symm.trans hc₁)
    have attends : co.Attends := ⟨phase, going⟩
    rcases attends.next hstep undisturbed.receives hs offers with
      ⟨s', hs', offers, phase⟩ | ⟨waiting, now, k, received⟩
    · have subscription := (Correlator.alike_of_step? hstep).subscription
      refine .inl ⟨co', s', ?_, phase, subscription ▸ hs', offers⟩
      simp [System.adjustCorrelator, hc]
    · exact .inr ⟨⟨rfl, co, k, hc, waiting, going, received, decoded⟩, now⟩
  · obtain ⟨co', hc', frame⟩ := frame_of_after? h listens hc
    obtain ⟨alike, same⟩ := Correlator.alike_of_frame frame
    obtain ⟨s', hs', out⟩ := outside_of_others run h listens hc hs
    have receiving := run.receiving hc hs (by rcases phase with ready | waiting <;> simp [*])
    have now := now_of_after? h fun moment tick => ticks ⟨moment, tick⟩
    refine .inl ⟨co', s', hc', same ▸ phase, alike.subscription ▸ hs', ?_⟩
    rw [now]
    exact offers.outside out receiving

/-! ## The offers of one message -/

/-- An offer that is handed back, and is not the last, comes again after the delay. -/
theorem Transition.Delivers.again (run : Runs ts x) (h : x.after? a = some y)
    (delivers : (⟨x, a, y⟩ : Transition).Delivers c d ack)
    (request : ack.event.requestId = some id)
    (free : ∀ r, x.registry? c = some r → ∀ w ∈ r.waiters, w.isPending → w.key ≠ .request id)
    (works : x.system.host.faults.failNack = false) {p : Publisher} (linked : x.Linked p)
    (here : p.correlator = c) (long : 0 < p.config.unmatchedAckDelay.ticks)
    (more : d.number < p.config.ackMaxDeliveries) :
    y.Scheduled c d.again (x.system.host.now + p.config.unmatchedAckDelay.ticks) := by
  obtain ⟨co, k, hc, received, host, hc'⟩ := delivers.handsBack run h request free
  obtain ⟨co₁, s, hc₁, -, delay, hs, bound⟩ := linked
  obtain rfl := Option.some.inj (hc.symm.trans (here ▸ hc₁))
  obtain ⟨channel, -, hk⟩ := Host.getElem?_take? received hs
  obtain ⟨faults, now, -, -, -⟩ := Host.take?_counters received
  have nonzero : co.unmatchedDelay.isZero = false := by
    rw [delay]
    exact Duration.isZero_eq_false_iff.mpr long
  have broker := (Correlator.handBack_delayed (h := k) (faults ▸ works) nonzero d).2
  have after : y.system.host.now = x.system.host.now :=
    now_of_after? h fun moment tick => by cases delivers.1.symm.trans tick
  rw [now, delay] at broker
  let timer : Timer := ⟨x.system.host.now + p.config.unmatchedAckDelay.ticks, k.timers⟩
  let taken : Subscription := { s with channel, held := s.held ++ [d] }
  refine ⟨_, taken.handBack d (some timer), hc', .inl rfl, ?_, ?_⟩
  · rw [host, broker]
    simp [Broker.nack, Broker.adjust, hk, taken, timer]
  · rw [after]
    refine Subscription.offers_handBack ?_ (Nat.le_add_right _ _)
    simp [Subscription.isLast, taken, bound, more]

/-- What has become of a message whose first offer was handed back at `start`: a waiter was
handed it, another offer of it is to come, or there are no more. -/
inductive Session.Reoffers (later : List Transition) (z : Session) (c : Nat) (d : Delivery)
    (ack : AckEvent) (config : DispatchConfig) (start : Nat) : Prop where
  | handed (u : Transition) (w : Waiter) (k : Nat) :
      u ∈ later → u.Hands c w (d.after k) ack → Reoffers later z c d ack config start
  | scheduled (k : Nat) :
      k + 1 < config.ackMaxDeliveries →
      start + k * config.unmatchedAckDelay.ticks ≤ z.system.host.now →
      z.Scheduled c (d.after (k + 1)) (start + (k + 1) * config.unmatchedAckDelay.ticks) →
      Reoffers later z c d ack config start
  | past :
      start + (config.ackMaxDeliveries - 1) * config.unmatchedAckDelay.ticks ≤
        z.system.host.now →
      Reoffers later z c d ack config start

theorem Runs.linked_since (run : Runs ts z) {u : Transition} (hu : u ∈ ts) {i : Nat}
    {p : Publisher} (hp : u.before.system.publishers[i]? = some p) : z.Linked p := by
  obtain ⟨us, -, h⟩ := run.made hu
  obtain ⟨p', hp', since⟩ :=
    ((Session.onward_of_after? h).trans (run.onward hu)).publishers i p hp
  have linked := run.linked hp'
  unfold Session.Linked at linked ⊢
  rwa [since.config, since.correlator] at linked

section Reoffers

variable {earlier : List Transition} {u : Transition} {i : Nat} {p : Publisher}

theorem Session.Reoffers.next (run : Runs ts x) (h : x.after? a = some y)
    (linked : x.Linked p) (here : p.correlator = c)
    (long : 0 < p.config.unmatchedAckDelay.ticks) (request : ack.event.requestId = some id)
    (decoded : AckEvent.ofPayload d.payload = .ok ack)
    (undisturbed : (⟨x, a, y⟩ : Transition).Undisturbed c)
    (works : x.system.host.faults.failNack = false) {start : Nat}
    (reoffers : x.Reoffers later c d ack p.config start) :
    y.Reoffers (⟨x, a, y⟩ :: later) c d ack p.config start := by
  have later := now_le_of_after? h
  cases reoffers with
  | handed u w k hu hands => exact .handed u w k (List.mem_cons_of_mem _ hu) hands
  | past all => exact .past (Nat.le_trans all later)
  | scheduled k more since scheduled =>
    have decoded : AckEvent.ofPayload (d.after (k + 1)).payload = .ok ack := decoded
    rcases scheduled.next run h undisturbed decoded with scheduled | ⟨delivers, now⟩
    · exact .scheduled k more (Nat.le_trans since later) scheduled
    · rcases x.pending_or_free c id with ⟨r, hr, w, hw, pending, key⟩ | free
      · have hands := (delivers.hands run h request hr hw pending key).1
        exact .handed _ w (k + 1) List.mem_cons_self hands
      · by_cases last : k + 1 + 1 < p.config.ackMaxDeliveries
        · have again := delivers.again run h request free works linked here long last
          rw [now, Nat.add_assoc, ← Nat.succ_mul] at again
          refine .scheduled (k + 1) last ?_ again
          rw [← now]
          exact later
        · refine .past ?_
          have bound : p.config.ackMaxDeliveries - 1 = k + 1 := by omega
          rw [bound, ← now]
          exact later

/-- As long as the connection does not fail, no offer is missed. -/
theorem Runs.reoffers (run : Runs (later ++ u :: earlier) z) (nacks : u.Nacks c d ack)
    (first : d.number = 1) (request : ack.event.requestId = some id)
    (hp : u.before.system.publishers[i]? = some p) (here : p.correlator = c)
    (long : 0 < p.config.unmatchedAckDelay.ticks) (more : 2 ≤ p.config.ackMaxDeliveries)
    (undisturbed : ∀ v ∈ later, v.Undisturbed c)
    (works : ∀ v ∈ later, v.before.system.host.faults.failNack = false) :
    z.Reoffers later c d ack p.config u.before.system.host.now := by
  induction later generalizing z with
  | nil =>
    cases run with
    | next run h =>
      obtain ⟨free, works⟩ := nacks.free run h request
      have again := nacks.1.again run h request free works (run.linked hp) here long
        (by rw [first]; exact more)
      have second : d.again = d.after 1 := by rw [Delivery.again, first]; rfl
      rw [second] at again
      refine .scheduled 0 more ?_ (by simpa using again)
      rw [Nat.zero_mul, Nat.add_zero]
      exact now_le_of_after? h
  | cons v later ih =>
    cases run with
    | @next _ x _ a run h =>
      have reoffers := ih run (fun v hv => undisturbed v (List.mem_cons_of_mem _ hv))
        fun v hv => works v (List.mem_cons_of_mem _ hv)
      have linked := run.linked_since
        (List.mem_append_right later (List.mem_cons_self (a := u))) hp
      exact reoffers.next run h linked here long request nacks.1.decoded
        (undisturbed _ List.mem_cons_self) (works _ List.mem_cons_self)

end Reoffers

end Script

end ChangeDispatch
