import ChangeDispatch.Proofs.Broker.Receivers
import ChangeDispatch.Proofs.Wait.Displacement

/-!
# Where acknowledgments go

A waiter gets an acknowledgment only when the listener of its correlator receives a
delivery that belongs to its entry. The delivery is let go of in the same step, so no
message goes to two waiters, and a slot is filled only once.
-/
namespace ChangeDispatch

theorem PendingTable.Belongs.unique {r : WaitRegistry} (h : r.WellFormed) {ack : AckEvent}
    {v w : Waiter} (hv : v ∈ r.waiters) (hw : w ∈ r.waiters) (pv : v.isPending) (pw : w.isPending)
    (bv : r.table.Belongs ack v.entry) (bw : r.table.Belongs ack w.entry) : v = w := by
  unfold PendingTable.Belongs at bv bw
  cases hid : ack.event.requestId with
  | some id =>
    rw [hid] at bv bw
    exact h.eq_of_key hv hw pv pw (bv.trans bw.symm)
  | none =>
    rw [hid] at bv bw
    have hle := bv.2 w.entry (h.mem_entries.mpr ⟨w, hw, pw, rfl⟩) bw.1
    have hge := bw.2 v.entry (h.mem_entries.mpr ⟨v, hv, pv, rfl⟩) bv.1
    exact h.eq_of_serial hv hw (Nat.le_antisymm hle hge)

/-- A listener settles what it has received at once. A delivery that changes its registry
is let go of. -/
theorem Correlator.Step.copies_subperm {h l : Host} {c c' : Correlator}
    (step : Correlator.Step h c l c') (wf : c.registry.WellFormed) {s : Subscription}
    (hs : h.broker.subscriptions[c.subscription]? = some s) (hheld : s.held = []) :
    ∃ s', l.broker.subscriptions[c.subscription]? = some s' ∧
      s'.toSubscriptionConfig = s.toSubscriptionConfig ∧ s'.held = [] ∧
      s'.copies.Subperm s.copies ∧
      ∀ d k, h.take? c.subscription = some (d, k) → c'.registry ≠ c.registry →
        ([d.copy] ++ s'.copies).Subperm s.copies := by
  cases step with
  | moved _ a =>
    exact ⟨s, by rw [a.getElem?, hs]; rfl, rfl, hheld, List.Subperm.refl _,
      fun d k _ hne => absurd rfl hne⟩
  | finished a =>
    exact ⟨s.stopReceiving, by rw [a.getElem?, hs]; rfl, rfl, hheld,
      s.copies_stopReceiving_subperm, fun d k _ hne => absurd rfl hne⟩
  | @settled d k _ r f _ _ ht hset a =>
    obtain ⟨channel, hch, hk⟩ := Host.getElem?_take? ht hs
    have taken := Subscription.copies_take hch
    rw [hheld, List.nil_append] at taken hk
    have found := a.getElem?
    rw [hk] at found
    have mem : d ∈ ({ s with channel, held := [d] } : Subscription).held :=
      List.mem_singleton.mpr rfl
    have released : s.copies.Perm
        (d.copy :: (({ s with channel, held := [d] } : Subscription).release d).copies) :=
      taken.symm.trans (Subscription.copies_release mem)
    have gone : (({ s with channel, held := [d] } : Subscription).release d).held = [] := by
      simp [Subscription.release]
    have unchanged : ∀ d' k', h.take? c.subscription = some (d', k') → d' = d := by
      intro d' k' ht'
      exact (Prod.mk.inj (Option.some.inj (ht'.symm.trans ht))).1
    cases hset with
    | refused _ =>
      exact ⟨_, found, rfl, gone, (List.sublist_cons_self _ _).subperm.trans released.symm.subperm,
        fun d k _ hne => absurd rfl hne⟩
    | taken _ _ =>
      refine ⟨_, found, rfl, gone,
        (List.sublist_cons_self _ _).subperm.trans released.symm.subperm, fun d' k' ht' _ => ?_⟩
      rw [unchanged d' k' ht']
      exact released.symm.subperm
    | @unclaimed ack _ _ hfree hf =>
      have same : (c.registry.offer ack).2 = c.registry := by
        rcases wf.offer_cases ack with ho | ⟨w, -, -, -, ho⟩
        · rw [ho]
        · exact absurd (by rw [ho]) (hfree w.entry)
      rcases hf with rfl | ⟨timer, rfl⟩
      · exact ⟨_, found, rfl, gone,
          (List.sublist_cons_self _ _).subperm.trans released.symm.subperm,
          fun d k _ hne => absurd same hne⟩
      · refine ⟨_, found, ?_, ?_, ?_, fun d k _ hne => absurd same hne⟩
        · exact (Subscription.config_handBack _ _ _).1
        · rw [(Subscription.config_handBack _ _ _).2.1, gone]
        · exact (Subscription.copies_handBack_subperm mem timer).trans taken.subperm

namespace Script

/-- The listener of a correlator hands what it has received to a waiter. -/
def Transition.Hands (t : Transition) (c : Nat) (w : Waiter) (d : Delivery) (ack : AckEvent) :
    Prop :=
  t.Delivers c d ack ∧
  ∃ r s v, t.before.registry? c = some r ∧ t.after.registry? c = some s ∧ w ∈ r.waiters ∧
    w.isPending ∧ v ∈ s.waiters ∧ v.serial = w.serial ∧ v.slot = .filled ack

theorem Transition.Delivers.unique {t : Transition} {c : Nat} {d d' : Delivery}
    {ack ack' : AckEvent} (h : t.Delivers c d ack) (h' : t.Delivers c d' ack') :
    d = d' ∧ ack = ack' := by
  obtain ⟨-, co, k, hc, -, -, ht, hd⟩ := h
  obtain ⟨-, co', k', hc', -, -, ht', hd'⟩ := h'
  obtain rfl := Option.some.inj (hc.symm.trans hc')
  obtain ⟨rfl, -⟩ := Prod.mk.inj (Option.some.inj (ht.symm.trans ht'))
  exact ⟨rfl, Except.ok.inj (hd.symm.trans hd')⟩

variable {ts : List Transition} {x y z : Session} {a : Action}

/-- An acknowledgment is handed to a waiter whose entry it belongs to. -/
theorem Transition.Hands.belongs (run : Runs ts x) (h : x.after? a = some y) {c : Nat} {w : Waiter}
    {d : Delivery} {ack : AckEvent} (hands : (⟨x, a, y⟩ : Transition).Hands c w d ack) :
    ∃ r, x.registry? c = some r ∧ w ∈ r.waiters ∧ w.isPending ∧ r.table.Belongs ack w.entry := by
  obtain ⟨hdel, r, s, v, hr, hs, hw, pw, hv, hserial, hfilled⟩ := hands
  have wf := run.wellFormed hr
  obtain ⟨s', hs', step⟩ := (Session.waitChange_of_after? h).step run.owned hr
  obtain rfl := Option.some.inj (hs.symm.trans hs')
  refine ⟨r, hr, hw, pw, ?_⟩
  rcases wf.filled_cases step hv hfilled with hold | ⟨-, u, hu, -, hus, -, hb⟩
  · -- a waiter that was pending has not been filled before
    obtain rfl := wf.eq_of_serial hold hw hserial
    cases (Waiter.isPending_iff.mp pw).symm.trans hfilled
  · rwa [← wf.eq_of_serial hu hw (hus.trans hserial)]

/-- One step hands at most one delivery to at most one waiter. -/
theorem Transition.Hands.unique (run : Runs ts x) (h : x.after? a = some y) {c : Nat}
    {w w' : Waiter} {d d' : Delivery} {ack ack' : AckEvent}
    (hands : (⟨x, a, y⟩ : Transition).Hands c w d ack)
    (hands' : (⟨x, a, y⟩ : Transition).Hands c w' d' ack') : w = w' ∧ d = d' ∧ ack = ack' := by
  obtain ⟨rfl, rfl⟩ := hands.1.unique hands'.1
  obtain ⟨r, hr, hw, pw, bw⟩ := hands.belongs run h
  obtain ⟨r', hr', hw', pw', bw'⟩ := hands'.belongs run h
  obtain rfl := Option.some.inj (hr.symm.trans hr')
  exact ⟨bw.unique (run.wellFormed hr) hw hw' pw pw' bw', rfl, rfl⟩

/-! ## Slots are filled once -/

/-- Every slot that is filled was filled by a step of the run, and none is filled again. -/
structure Filled (ts : List Transition) (z : Session) : Prop where
  source : ∀ c r, z.registry? c = some r → ∀ w ∈ r.waiters, ∀ ack, w.slot = .filled ack →
    ∃ u ∈ ts, ∃ v d, u.Hands c v d ack ∧ v.serial = w.serial
  spent : ∀ u ∈ ts, ∀ c v d ack, u.Hands c v d ack →
    ∃ r, z.registry? c = some r ∧ v.serial < r.table.nextSerial ∧
      ∀ w ∈ r.waiters, w.serial = v.serial → w.isPending = false

theorem Filled.next (filled : Filled ts x) (run : Runs ts x) (h : x.after? a = some y) :
    Filled (⟨x, a, y⟩ :: ts) y := by
  have change := Session.waitChange_of_after? h
  have run' := Runs.next run h
  constructor
  · intro c s hs w hw ack hfilled
    cases hr : x.registry? c with
    | none =>
      rcases change.empty_of_new hs with hlt | rfl
      · have := List.getElem?_eq_none_iff.mp hr
        omega
      · cases hw
    | some r =>
      obtain ⟨s', hs', step⟩ := change.step run.owned hr
      obtain rfl := Option.some.inj (hs.symm.trans hs')
      rcases (run.wellFormed hr).filled_cases step hw hfilled with
        hold | ⟨⟨d, hd⟩, v, hv, pv, hvs, -, -⟩
      · obtain ⟨u, hu, hands⟩ := filled.source c r hr w hold ack hfilled
        exact ⟨u, List.mem_cons_of_mem _ hu, hands⟩
      · exact ⟨_, List.mem_cons_self, v, d,
          ⟨hd, r, s, w, hr, hs, hv, pv, hw, hvs.symm, hfilled⟩, hvs⟩
  · intro u hu c v d ack hands
    rcases List.mem_cons.mp hu with rfl | hu
    · obtain ⟨-, r, s, w, hr, hs, hv, -, hw, hserial, hfilled⟩ := hands
      refine ⟨s, hs, hserial ▸ (run'.wellFormed hs).fresh w hw, fun w' hw' hs' => ?_⟩
      obtain rfl := (run'.wellFormed hs).eq_of_serial hw' hw (hs'.trans hserial.symm)
      simp [Waiter.isPending, hfilled]
    · obtain ⟨r, hr, hlt, hspent⟩ := filled.spent u hu c v d ack hands
      obtain ⟨s, hs, step⟩ := change.step run.owned hr
      have descends := (run.wellFormed hr).descends step
      refine ⟨s, hs, Nat.lt_of_lt_of_le hlt descends.nextSerial, fun w hw hserial => ?_⟩
      rcases descends.waiters w hw with ⟨w', hw', same, hp⟩ | hnew
      · have := hspent w' hw' ((Waiter.of_registered same).1.trans hserial)
        cases pw : w.isPending with
        | false => rfl
        | true => exact (hp pw).symm.trans this
      · omega

theorem Runs.filled (run : Runs ts z) : Filled ts z := by
  induction run with
  | start => exact ⟨fun c r hr => (nomatch hr), fun u hu => (nomatch hu)⟩
  | next run h ih => exact ih.next run h

/-! ## Messages go once -/

/-- The subscription of a correlator. -/
def Session.ackSubscription? (x : Session) (c : Nat) : Option Subscription :=
  (x.system.receivers.listening[c]?).bind fun j => x.system.host.broker.subscriptions[j]?

/-- What is known about the messages that a correlator can still receive. -/
structure Incoming (ts : List Transition) (c : Nat) (s : Subscription) : Prop where
  held : s.held = []
  source : ∀ p ∈ s.copies, ∃ u ∈ ts, u.Puts s.topic p.1 p.2
  nodup : s.messages.Nodup
  /-- A message that was handed to a waiter does not come again. -/
  spent : ∀ u ∈ ts, ∀ w d ack, u.Hands c w d ack → d.message ∉ s.messages

theorem Incoming.empty (ts : List Transition) (c : Nat) (config : SubscriptionConfig) :
    Incoming ts c { toSubscriptionConfig := config } :=
  ⟨rfl, fun _ hp => (nomatch hp), .nil, fun _ _ _ _ _ _ hd => (nomatch hd)⟩

/-- The messages of a subscription that only loses some. -/
theorem Incoming.of_subperm {c : Nat} {s s' : Subscription} (h : Incoming ts c s)
    (topic : s'.topic = s.topic) (held : s'.held = []) (copies : s'.copies.Subperm s.copies)
    {t : Transition} (spent : ∀ w d ack, t.Hands c w d ack → d.message ∉ s'.messages) :
    Incoming (t :: ts) c s' := by
  have messages : s'.messages.Subperm s.messages := Subscription.messages_subperm [] copies
  refine ⟨held, fun p hp => ?_, nodup_of_subperm h.nodup messages, fun u hu w d ack hands => ?_⟩
  · obtain ⟨u, hu, puts⟩ := h.source p (copies.subset hp)
    exact ⟨u, List.mem_cons_of_mem _ hu, topic ▸ puts⟩
  · rcases List.mem_cons.mp hu with rfl | hu
    · exact spent w d ack hands
    · exact fun hd => h.spent u hu w d ack hands (messages.subset hd)

/-- A new message comes to the others. -/
theorem Incoming.of_arrival {c n : Nat} {payload : Payload} {s s' : Subscription}
    (h : Incoming ts c s) (topic : s'.topic = s.topic) (held : s'.held = [])
    (copies : s'.copies.Subperm ((n, payload) :: s.copies)) {t : Transition}
    (puts : t.Puts s.topic n payload) (fresh : ∀ m ∈ s.messages, m < n)
    (below : ∀ u ∈ ts, ∀ w d ack, u.Hands c w d ack → d.message < n)
    (quiet : ∀ w d ack, ¬t.Hands c w d ack) : Incoming (t :: ts) c s' := by
  have messages : s'.messages.Subperm (n :: s.messages) := by
    obtain ⟨l, hp, hl⟩ := copies
    exact ⟨_, hp.map Prod.fst, hl.map Prod.fst⟩
  have new : n ∉ s.messages := fun hn => Nat.lt_irrefl n (fresh n hn)
  refine ⟨held, fun p hp => ?_, ?_, fun u hu w d ack hands hd => ?_⟩
  · rw [topic]
    rcases List.mem_cons.mp (copies.subset hp) with rfl | hp
    · exact ⟨t, List.mem_cons_self, puts⟩
    · obtain ⟨u, hu, puts⟩ := h.source p hp
      exact ⟨u, List.mem_cons_of_mem _ hu, puts⟩
  · exact nodup_of_subperm (List.nodup_cons.mpr ⟨new, h.nodup⟩) messages
  · rcases List.mem_cons.mp hu with rfl | hu
    · exact quiet w d ack hands
    · rcases List.mem_cons.mp (messages.subset hd) with he | hd
      · have := below u hu w d ack hands
        omega
      · exact h.spent u hu w d ack hands hd

/-- What is known about the messages of all correlators. -/
structure Routed (ts : List Transition) (z : Session) : Prop where
  incoming : ∀ c s, z.ackSubscription? c = some s → Incoming ts c s
  put : ∀ u ∈ ts, u.after.system.host.broker.messages ≤ z.system.host.broker.messages
  handed : ∀ u ∈ ts, ∀ c w d ack, u.Hands c w d ack → d.message < z.system.host.broker.messages

/-- What was put into the broker has a number below that of the next message. -/
theorem Routed.fresh (h : Routed ts z) {c : Nat} {s : Subscription}
    (hs : z.ackSubscription? c = some s) {m : Nat} (hm : m ∈ s.messages) :
    m < z.system.host.broker.messages := by
  obtain ⟨p, hp, rfl⟩ := List.mem_map.mp hm
  obtain ⟨u, hu, puts⟩ := (h.incoming c s hs).source p hp
  have := h.put u hu
  have := puts.2.1
  omega

/-- What is handed to a waiter was outstanding. -/
theorem Transition.Hands.received {t : Transition} {c : Nat} {w : Waiter} {d : Delivery}
    {ack : AckEvent} (hands : t.Hands c w d ack) :
    ∃ s, t.before.ackSubscription? c = some s ∧ d.copy ∈ s.copies := by
  obtain ⟨⟨-, co, k, hc, -, -, ht, -⟩, -⟩ := hands
  obtain ⟨s, channel, hs, hch, -⟩ := Host.take?_eq_some ht
  refine ⟨s, ?_, ?_⟩
  · unfold Session.ackSubscription?
    rw [System.getElem?_listening hc]
    exact hs
  · rw [s.copies_eq, hch]
    exact List.mem_append_left _ List.mem_cons_self

/-- A step of the listener of a correlator. -/
theorem Incoming.listener (run : Runs ts x) {c : Nat} {s : Subscription} (inc : Incoming ts c s)
    (hs : x.ackSubscription? c = some s) {t : System}
    (h : (Agent.listener c).step? x.system = some t) :
    ∃ s', Session.ackSubscription? { x with system := t } c = some s' ∧
      Incoming (⟨x, .agent (.listener c), { x with system := t }⟩ :: ts) c s' := by
  have receivers : t.receivers = x.system.receivers := Agent.receivers_step h
  obtain ⟨co, host, co', hc, hstep, rfl⟩ := Agent.step?_listener h
  have found : x.registry? c = some co.registry := System.getElem?_registries hc
  have heard := System.getElem?_listening hc
  have hs₀ : x.system.host.broker.subscriptions[co.subscription]? = some s := by
    unfold Session.ackSubscription? at hs
    rwa [heard] at hs
  obtain ⟨s', hs', config, held, copies, handed⟩ :=
    (Correlator.step_of_step? hstep).copies_subperm (run.wellFormed found) hs₀ inc.held
  refine ⟨s', ?_, inc.of_subperm (congrArg SubscriptionConfig.topic config) held copies ?_⟩
  · unfold Session.ackSubscription?
    dsimp only
    rw [receivers, heard]
    exact hs'
  · rintro w d ack ⟨⟨-, co₁, k, hc₁, -, -, ht, -⟩, r, r', v, hr, hr', hw, pw, hv, hserial, hfilled⟩
    obtain rfl := Option.some.inj (hc.symm.trans hc₁)
    obtain rfl := Option.some.inj (found.symm.trans hr)
    obtain rfl : co'.registry = r' := by
      unfold Session.registry? System.registries at hr'
      rw [List.getElem?_map] at hr'
      simpa [System.adjustCorrelator, hc] using hr'
    have changed : co'.registry ≠ co.registry := by
      intro he
      rw [he] at hv
      obtain rfl := (run.wellFormed found).eq_of_serial hv hw hserial
      cases (Waiter.isPending_iff.mp pw).symm.trans hfilled
    have apart := nodup_of_subperm inc.nodup
      (Subscription.messages_subperm _ (handed d k ht changed))
    exact (List.nodup_cons.mp apart).1

/-- The subscription of a correlator whose listener does not act. -/
theorem Routed.outside (routed : Routed ts x) (run : Runs ts x) (h : x.after? a = some y)
    {c j : Nat} {s : Subscription} (hc : x.system.receivers.listening[c]? = some j)
    (hj : x.system.host.broker.subscriptions[j]? = some s) (ha : a ≠ .agent (.listener c)) :
    ∃ s', y.system.host.broker.subscriptions[j]? = some s' ∧ Incoming (⟨x, a, y⟩ :: ts) c s' := by
  have hs : x.ackSubscription? c = some s := by
    unfold Session.ackSubscription?
    rw [hc]
    exact hj
  have inc := routed.incoming c s hs
  have quiet : ∀ w d ack, ¬(⟨x, a, y⟩ : Transition).Hands c w d ack :=
    fun _ _ _ hands => ha hands.1.1
  have received : (Agent.listener c).receives? x.system = some j := List.getElem?_map.symm.trans hc
  obtain ⟨s', hj', out, -⟩ := outside_of_after? h run.apart hj
    (List.mem_append_left _ (List.mem_of_getElem? hc)) fun agent he hagent =>
      ha (he.trans (congrArg Action.agent (run.apart.eq_of_receives hagent received)))
  obtain ⟨config, held, -⟩ := out.config
  have topic := congrArg SubscriptionConfig.topic config
  refine ⟨s', hj', ?_⟩
  rcases out.copies_subperm with copies | ⟨payload, -, puts, copies⟩
  · exact inc.of_subperm topic (held.trans inc.held) copies fun w d ack hands =>
      absurd hands (quiet w d ack)
  · exact inc.of_arrival topic (held.trans inc.held) copies puts (fun m => routed.fresh hs)
      (fun u hu w d ack => routed.handed u hu c w d ack) quiet

theorem Routed.next (routed : Routed ts x) (run : Runs ts x) (h : x.after? a = some y) :
    Routed (⟨x, a, y⟩ :: ts) y := by
  have later := messages_le_of_after? h
  refine ⟨fun c s' hs' => ?_, fun u hu => ?_, fun u hu c w d ack hands => ?_⟩
  · obtain ⟨j, hj, hsub⟩ := Option.bind_eq_some_iff.mp hs'
    rcases listening_cases h run.apart hj with hc | ⟨config, hnew⟩
    · have hlt := run.apart.known j (List.mem_append_left _ (List.mem_of_getElem? hc))
      have hs := List.getElem?_eq_getElem hlt
      by_cases ha : a = .agent (.listener c)
      · subst ha
        obtain ⟨t, ht, rfl⟩ := Option.map_eq_some_iff.mp h
        have before : x.ackSubscription? c = some x.system.host.broker.subscriptions[j] := by
          unfold Session.ackSubscription?
          rw [hc]
          exact hs
        obtain ⟨s'', hs'', inc⟩ := (routed.incoming c _ before).listener run before ht
        obtain rfl := Option.some.inj (hs''.symm.trans hs')
        exact inc
      · obtain ⟨s'', hs'', inc⟩ := routed.outside run h hc hs ha
        obtain rfl := Option.some.inj (hs''.symm.trans hsub)
        exact inc
    · obtain rfl := Option.some.inj (hnew.symm.trans hsub)
      exact .empty _ c config
  · rcases List.mem_cons.mp hu with rfl | hu
    · exact Nat.le_refl _
    · exact Nat.le_trans (routed.put u hu) later
  · rcases List.mem_cons.mp hu with rfl | hu
    · obtain ⟨s, hs, hd⟩ := hands.received
      exact Nat.lt_of_lt_of_le (routed.fresh hs (Subscription.mem_messages hd)) later
    · exact Nat.lt_of_lt_of_le (routed.handed u hu c w d ack hands) later

theorem Runs.routed (run : Runs ts z) : Routed ts z := by
  induction run with
  | start =>
    exact ⟨fun _ _ hs => (nomatch hs), fun _ hu => (nomatch hu), fun _ hu => (nomatch hu)⟩
  | next run h ih => exact ih.next run h

/-- Two steps hand different messages of a correlator to different waiters. -/
theorem Runs.hands_apart (run : Runs ts z) :
    ts.Pairwise fun t u => ∀ c w d ack v e ack', t.Hands c w d ack → u.Hands c v e ack' →
      w.serial ≠ v.serial ∧ d.message ≠ e.message := by
  induction run with
  | start => exact .nil
  | next run h ih =>
    refine List.pairwise_cons.mpr ⟨fun u hu c w d ack v e ack' hands hands' => ⟨?_, ?_⟩, ih⟩
    · obtain ⟨r, hr, -, hspent⟩ := run.filled.spent u hu c v e ack' hands'
      obtain ⟨r', hr', hw, pw, -⟩ := hands.belongs run h
      obtain rfl := Option.some.inj (hr.symm.trans hr')
      intro he
      cases pw.symm.trans (hspent w hw he)
    · obtain ⟨s, hs, hd⟩ := hands.received
      intro he
      exact (run.routed.incoming c s hs).spent u hu v e ack' hands'
        (he ▸ Subscription.mem_messages hd)

/-- An acknowledgment that a wait returns was handed to its waiter before. Only payloads
that arrived on the topic of the correlator are handed out, each to a waiter that it
belongs to: one with the key of the request, or without a request the first of those that
wait for the workspace. No message goes to two waiters, and no waiter gets two. -/
theorem acknowledgments_routed (run : Runs ts z) :
    (∀ t us, t :: us <:+ ts → ∀ handle ack, t.Returns handle (.acknowledged ack) →
      ∃ u ∈ us, ∃ w d, u.Hands handle.correlator w d ack ∧ w.serial = handle.serial) ∧
    (∀ u us, u :: us <:+ ts → ∀ c w d ack, u.Hands c w d ack →
      AckEvent.ofPayload d.payload = .ok ack ∧
      (∃ s, u.before.ackSubscription? c = some s ∧
        ∃ v ∈ us, v.Puts s.topic d.message d.payload) ∧
      ∃ r, u.before.registry? c = some r ∧ w ∈ r.waiters ∧ w.entry ∈ r.table.entries ∧
        r.table.Belongs ack w.entry) ∧
    (∀ u ∈ ts, ∀ c w d ack v e ack', u.Hands c w d ack → u.Hands c v e ack' →
      w = v ∧ d = e ∧ ack = ack') ∧
    ts.Pairwise fun t u => ∀ c w d ack v e ack', t.Hands c w d ack → u.Hands c v e ack' →
      w.serial ≠ v.serial ∧ d.message ≠ e.message := by
  refine ⟨fun t us hs handle ack ret => ?_, fun u us hs c w d ack hands => ?_,
    fun u hu c w d ack v e ack' hands hands' => ?_, run.hands_apart⟩
  · obtain ⟨earlier, h⟩ := run.of_suffix hs
    obtain ⟨live, token, hres⟩ := ret.waitResult h
    obtain ⟨r, w, hr, hw, hserial, -, hslot⟩ := slot_of_waitResult earlier.owned live hres
    obtain ⟨u, hu, v, d, hands, hv⟩ := earlier.filled.source _ r hr w hw ack ((hslot ack).mp rfl)
    exact ⟨u, hu, v, d, hands, hv.trans hserial⟩
  · obtain ⟨earlier, h⟩ := run.of_suffix hs
    obtain ⟨s, hs, hd⟩ := hands.received
    obtain ⟨r, hr, hw, pw, hb⟩ := hands.belongs earlier h
    obtain ⟨⟨-, co, k, -, -, -, -, decoded⟩, -⟩ := hands
    exact ⟨decoded, ⟨s, hs, (earlier.routed.incoming c s hs).source d.copy hd⟩,
      r, hr, hw, (earlier.wellFormed hr).mem_entries.mpr ⟨w, hw, pw, rfl⟩, hb⟩
  · obtain ⟨before, after, rfl⟩ := List.append_of_mem hu
    obtain ⟨earlier, h⟩ := run.of_suffix (List.suffix_append before (u :: after))
    exact hands.unique earlier h hands'

def secondAnswer : AckEvent := { event := creation (some (.ofNat 2)), status := .created }

/-- Two waiters for one workspace, of which the second gets its acknowledgment; the latest
action first. -/
def secondAnswered : List Action :=
  [.agent (.call 0), .agent (.listener 0),
   .perform (.inject "acks" (AckEvent.write secondAnswer)), .agent (.listener 0),
   .perform (.wait "second" none), .perform (.register "c" (creation (some (.ofNat 2))) "second"),
   .perform (.register "c" (creation (some (.ofNat 1))) "first"),
   .perform (.startCorrelator "c" ⟨"acks", "listener", some 3⟩ (.ofMillis 30000) (.ofMillis 15000))]

set_option maxRecDepth 100000 in
/-- The acknowledgment went to the second waiter, although the first is the earlier one. -/
theorem second_waiter_answered :
    ∃ t us, (play secondAnswered).1 = t :: us ∧ t.Returns ⟨0, 1⟩ (.acknowledged secondAnswer) ∧
      ∃ u ∈ us, ∃ w d, u.Hands 0 w d secondAnswer ∧ w.serial = 1 := by
  let x := (play secondAnswered.tail).2
  let t : Transition := ⟨x, .agent (.call 0), (play secondAnswered).2⟩
  have split : (play secondAnswered).1 = t :: (play secondAnswered.tail).1 := by rfl
  have returns : t.Returns ⟨0, 1⟩ (.acknowledged secondAnswer) :=
    ⟨0, .awaiting ⟨0, 1⟩ none, none, 0, rfl, by rfl, .inl rfl, by rfl⟩
  have routed := (acknowledgments_routed (play_runs secondAnswered)).1
  exact ⟨t, _, split, returns, routed t _ (split ▸ List.suffix_refl _) ⟨0, 1⟩ _ returns⟩

end Script

end ChangeDispatch
