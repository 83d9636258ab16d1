import ChangeDispatch.Proofs.Shutdown.Sessions
import ChangeDispatch.Proofs.Wait.Routing

/-!
# What a correlator works with

A correlator keeps its subscription and its delays, which for that of a publisher are those of
the configuration, and nobody but its own listener moves it on. The timers that hold offers
of its subscription back have serial numbers of their own.
-/
namespace ChangeDispatch

/-! ## Settings -/

/-- The subscription and the delays are the same. -/
structure Correlator.Alike (c c' : Correlator) : Prop where
  subscription : c'.subscription = c.subscription
  timeout : c'.timeout = c.timeout
  unmatchedDelay : c'.unmatchedDelay = c.unmatchedDelay

theorem Correlator.alike_of_frame {c c' : Correlator} (h : c'.frame = c.frame) :
    c.Alike c' ∧ c'.phase = c.phase := by
  simp only [Correlator.frame, Correlator.core, Correlator.mk.injEq] at h
  exact ⟨⟨h.1, h.2.1, h.2.2.1⟩, h.2.2.2.2.1⟩

theorem Correlator.alike_of_step? {h k : Host} {c c' : Correlator} (hs : c.step? h = some (k, c')) :
    c.Alike c' := by
  cases Correlator.step_of_step? hs <;> exact ⟨rfl, rfl, rfl⟩

/-- Only its listener moves a correlator on. -/
theorem Agent.frame_of_step? {a : Agent} {s t : System} (h : a.step? s = some t) {c : Nat}
    (others : a ≠ .listener c) {co : Correlator} (hc : s.correlators[c]? = some co) :
    ∃ co', t.correlators[c]? = some co' ∧ co'.frame = co.frame := by
  cases a with
  | worker i =>
    obtain ⟨p, q, host, q', w, -, -, -, rfl⟩ := Agent.step?_worker h
    exact ⟨co, hc, rfl⟩
  | listener c' =>
    obtain ⟨_, host, co', -, -, rfl⟩ := Agent.step?_listener h
    have other : c' ≠ c := fun same => others (same ▸ rfl)
    refine ⟨co, ?_, rfl⟩
    simp [System.adjustCorrelator, hc, other]
  | consumer i =>
    obtain ⟨k, host, k', -, -, rfl⟩ := Agent.step?_consumer h
    exact ⟨co, hc, rfl⟩
  | call n =>
    obtain ⟨φ, -, u, ψ, step, quiet⟩ := System.callSteps_of_stepCall? h
    obtain ⟨host, queues, upTo⟩ := step.upToRegistries
    obtain ⟨co₁, hc₁, first⟩ := exists_of_map_eq upTo.frames.symm hc
    obtain ⟨co₂, hc₂, second⟩ := exists_of_map_eq quiet.correlators.symm hc₁
    have flags : co₁.frame = co₂.frame :=
      congrArg (fun c : Correlator => ({ c with registry := {} } : Correlator)) second
    exact ⟨co₂, hc₂, flags.symm.trans first.symm⟩
  | redelivery i serial =>
    obtain ⟨entry, -, -, rfl⟩ := Agent.step?_redelivery h
    exact ⟨co, hc, rfl⟩

namespace Script

variable {ts : List Transition} {x y z : Session} {a : Action} {c : Nat} {co : Correlator}

theorem Session.frame_effect (h : Effect x y) (hc : x.system.correlators[c]? = some co) :
    ∃ co', y.system.correlators[c]? = some co' ∧ co'.frame = co.frame := by
  have same : y.system.correlators = x.system.correlators →
      ∃ co', y.system.correlators[c]? = some co' ∧ co'.frame = co.frame :=
    fun he => ⟨co, he ▸ hc, rfl⟩
  have more : ∀ l, y.system.correlators = x.system.correlators ++ l →
      ∃ co', y.system.correlators[c]? = some co' ∧ co'.frame = co.frame := by
    intro l he
    refine ⟨co, ?_, rfl⟩
    rw [he, List.getElem?_append_left (List.getElem?_eq_some_iff.mp hc).1, hc]
  have upTo : System.UpToRegistries x.system y.system →
      ∃ co', y.system.correlators[c]? = some co' ∧ co'.frame = co.frame := by
    intro u
    obtain ⟨co', hc', frame⟩ := exists_of_map_eq u.frames.symm hc
    exact ⟨co', hc', frame.symm⟩
  cases h with
  | @registered c' _ _ _ r id u _ _ hu =>
    subst hu
    let z := x.onSystem (·.adjustCorrelator c' fun co => { co with registry := r })
    exact upTo ((System.UpToRegistries.adjust x.system c' fun _ => r).trans
      (z.upToRegistries_dropWaiter id))
  | droppedWaiter id => exact upTo (x.upToRegistries_dropWaiter id)
  | @aborted n call _ _ _ =>
    obtain ⟨co', hc', frame⟩ :=
      exists_of_map_eq (System.UpToRegistries.forsake x.system n call.phase).frames.symm hc
    exact ⟨co', hc', frame.symm⟩
  | openedPublisher _ _ _ => exact more _ rfl
  | startedCorrelator _ => exact more _ rfl
  | _ => exact same rfl

/-- Only its listener moves a correlator on. -/
theorem frame_of_after? (h : x.after? a = some y) (others : a ≠ .agent (.listener c))
    (hc : x.system.correlators[c]? = some co) :
    ∃ co', y.system.correlators[c]? = some co' ∧ co'.frame = co.frame := by
  cases Session.moves_of_after? h with
  | performed _ hp =>
    obtain ⟨u, effect, elsewhere⟩ := hp
    obtain ⟨co₁, hc₁, first⟩ := Session.frame_effect effect hc
    obtain ⟨co₂, hc₂, second⟩ := exists_of_map_eq elsewhere.correlators.symm hc₁
    have flags : co₁.frame = co₂.frame :=
      congrArg (fun c : Correlator => ({ c with registry := {} } : Correlator)) second
    exact ⟨co₂, hc₂, flags.symm.trans first⟩
  | injected _ _ => exact ⟨co, hc, rfl⟩
  | stepped hs => exact Agent.frame_of_step? hs (fun same => others (same ▸ rfl)) hc
  | passed _ => exact ⟨co, hc, rfl⟩

theorem alike_of_after? (h : x.after? a = some y) (hc : x.system.correlators[c]? = some co) :
    ∃ co', y.system.correlators[c]? = some co' ∧ co.Alike co' := by
  by_cases own : a = .agent (.listener c)
  · subst own
    obtain ⟨t, ht, rfl⟩ := Option.map_eq_some_iff.mp h
    obtain ⟨co₁, host, co', hc₁, hs, rfl⟩ := Agent.step?_listener ht
    obtain rfl := Option.some.inj (hc.symm.trans hc₁)
    refine ⟨co', ?_, Correlator.alike_of_step? hs⟩
    simp [System.adjustCorrelator, hc]
  · obtain ⟨co', hc', frame⟩ := frame_of_after? h own hc
    exact ⟨co', hc', (Correlator.alike_of_frame frame).1⟩

/-! ## Subscriptions -/

/-- What happens to the subscription of a correlator whose listener does not act. -/
theorem outside_of_others (run : Runs ts x) (h : x.after? a = some y)
    (others : a ≠ .agent (.listener c)) (hc : x.system.correlators[c]? = some co)
    {s : Subscription} (hs : x.system.host.broker.subscriptions[co.subscription]? = some s) :
    ∃ s', y.system.host.broker.subscriptions[co.subscription]? = some s' ∧
      Subscription.Outside ((⟨x, a, y⟩ : Transition).Puts s.topic x.system.host.broker.messages)
        x.system.host.now x.system.host.broker.messages s s' := by
  have heard := System.getElem?_listening hc
  have received : (Agent.listener c).receives? x.system = some co.subscription :=
    List.getElem?_map.symm.trans heard
  obtain ⟨s', hs', out, -⟩ := outside_of_after? h run.apart hs
    (List.mem_append_left _ (List.mem_of_getElem? heard)) fun agent he hagent =>
      others (he.trans (congrArg Action.agent (run.apart.eq_of_receives hagent received)))
  exact ⟨s', hs', out⟩

/-- The subscription of a correlator is there, as it was asked for. -/
theorem Runs.subscribed (run : Runs ts z) (hc : z.system.correlators[c]? = some co) :
    ∃ s, z.system.host.broker.subscriptions[co.subscription]? = some s := by
  have heard := System.getElem?_listening hc
  have known := run.apart.known _ (List.mem_append_left _ (List.mem_of_getElem? heard))
  exact ⟨_, List.getElem?_eq_getElem known⟩

theorem Session.ackSubscription?_eq (hc : x.system.correlators[c]? = some co) :
    x.ackSubscription? c = x.system.host.broker.subscriptions[co.subscription]? := by
  unfold Session.ackSubscription?
  rw [System.getElem?_listening hc]
  rfl

theorem config_of_after? (run : Runs ts x) (h : x.after? a = some y)
    (hc : x.system.correlators[c]? = some co) {s : Subscription}
    (hs : x.system.host.broker.subscriptions[co.subscription]? = some s) :
    ∃ s', y.system.host.broker.subscriptions[co.subscription]? = some s' ∧
      s'.toSubscriptionConfig = s.toSubscriptionConfig := by
  by_cases own : a = .agent (.listener c)
  · subst own
    obtain ⟨t, ht, rfl⟩ := Option.map_eq_some_iff.mp h
    obtain ⟨co₁, host, co', hc₁, hstep, rfl⟩ := Agent.step?_listener ht
    obtain rfl := Option.some.inj (hc.symm.trans hc₁)
    have inc := run.routed.incoming c s (Session.ackSubscription?_eq hc ▸ hs)
    obtain ⟨s', hs', config, -⟩ := (Correlator.step_of_step? hstep).copies_subperm
      (run.wellFormed (System.getElem?_registries hc)) hs inc.held
    exact ⟨s', hs', config⟩
  · obtain ⟨s', hs', out⟩ := outside_of_others run h own hc hs
    exact ⟨s', hs', out.config.1⟩

/-! ## The correlator of a publisher -/

/-- The correlator of a publisher works as its configuration says. -/
def Session.Linked (x : Session) (p : Publisher) : Prop :=
  ∃ co s, x.system.correlators[p.correlator]? = some co ∧ co.timeout = p.config.ackTimeout ∧
    co.unmatchedDelay = p.config.unmatchedAckDelay ∧
    x.system.host.broker.subscriptions[co.subscription]? = some s ∧
    s.maxDeliveries = some p.config.ackMaxDeliveries

/-- A publisher is added, with a correlator on a subscription of its own. -/
structure Session.Opens (x u : Session) (p : Publisher) (co : Correlator) (s : Subscription) :
    Prop where
  own : u.ownSubscriptions = x.ownSubscriptions
  publishers : u.system.publishers = x.system.publishers ++ [p]
  correlators : u.system.correlators = x.system.correlators ++ [co]
  subscriptions :
    u.system.host.broker.subscriptions = x.system.host.broker.subscriptions ++ [s]
  correlator : p.correlator = x.system.correlators.length
  subscription : co.subscription = x.system.host.broker.subscriptions.length
  timeout : co.timeout = p.config.ackTimeout
  unmatchedDelay : co.unmatchedDelay = p.config.unmatchedAckDelay
  maxDeliveries : s.maxDeliveries = some p.config.ackMaxDeliveries

theorem Session.opens_of_subscribe (x : Session) {config : DispatchConfig}
    {subscription : SubscriptionConfig} {j : Nat} {host : Host}
    (subscribed : x.system.host.subscribe subscription = (.ok j, host))
    (asked : subscription.maxDeliveries = some config.ackMaxDeliveries) :
    ∃ p co s, x.Opens (x.onSystem fun s => ({ s with host }.addPublisher config j).2) p co s := by
  obtain ⟨-, rfl, rfl⟩ := Host.subscribe_ok subscribed
  exact ⟨_, _, _, rfl, rfl, rfl, rfl, rfl, rfl, rfl, rfl, asked⟩

/-- A publisher that was added is linked, and the changes elsewhere leave it so. -/
theorem Session.Opens.linked {u : Session} {p₀ p : Publisher} {co₀ : Correlator}
    {s₀ : Subscription} {i : Nat} (opens : x.Opens u p₀ co₀ s₀) (apart : Apart x)
    (elsewhere : u.Elsewhere y) (new : x.system.publishers.length ≤ i)
    (hp : y.system.publishers[i]? = some p) : y.Linked p := by
  obtain ⟨p₁, hp₁, core⟩ := exists_of_map_eq elsewhere.publishers hp
  rw [opens.publishers] at hp₁
  rcases getElem?_concat_cases hp₁ with old | ⟨-, rfl⟩
  · have := (List.getElem?_eq_some_iff.mp old).1
    omega
  · have config : p.core.config = p₀.core.config := by rw [core]
    have correlator : p.core.correlator = p₀.core.correlator := by rw [core]
    change p.config = p₀.config at config
    change p.correlator = p₀.correlator at correlator
    rw [opens.correlator] at correlator
    have added : u.system.correlators[x.system.correlators.length]? = some co₀ := by
      rw [opens.correlators, List.getElem?_concat_length]
    obtain ⟨co, hc, same⟩ := exists_of_map_eq elsewhere.correlators.symm added
    have alike := (Correlator.alike_of_frame
      (congrArg (fun c : Correlator => ({ c with registry := {} } : Correlator)) same.symm)).1
    -- the subscription is not the caller's, so it is still there
    have own : x.system.host.broker.subscriptions.length ∉ u.ownSubscriptions := fun mem =>
      Nat.lt_irrefl _ (apart.own _ (opens.own ▸ mem))
    have kept := elsewhere.subscriptions.kept x.system.host.broker.subscriptions.length
      (by simp [opens.subscriptions]) own
    rw [opens.subscriptions, List.getElem?_concat_length, Option.map_id] at kept
    refine ⟨co, s₀, correlator ▸ hc, ?_, ?_, ?_, config ▸ opens.maxDeliveries⟩
    · rw [alike.timeout, opens.timeout, config]
    · rw [alike.unmatchedDelay, opens.unmatchedDelay, config]
    · rw [alike.subscription, opens.subscription]
      exact kept

/-- A publisher that an action has made was opened by it. -/
theorem linked_of_new (run : Runs ts x) (h : x.after? a = some y) {i : Nat} {p : Publisher}
    (new : x.system.publishers.length ≤ i) (hp : y.system.publishers[i]? = some p) :
    y.Linked p := by
  have absent : y.system.publishers.length = x.system.publishers.length → y.Linked p := by
    intro same
    have := (List.getElem?_eq_some_iff.mp hp).1
    omega
  cases Session.moves_of_after? h with
  | performed _ hperf =>
    obtain ⟨u, effect, elsewhere⟩ := hperf
    have length := congrArg List.length elsewhere.publishers
    rw [List.length_map, List.length_map] at length
    have kept : u.system.publishers = x.system.publishers → y.Linked p :=
      fun he => absent (length.trans (congrArg List.length he))
    cases effect with
    | @registered c' _ _ _ r id u _ _ hu =>
      subst hu
      let v := x.onSystem (·.adjustCorrelator c' fun co => { co with registry := r })
      exact kept (v.upToRegistries_dropWaiter id).publishers
    | droppedWaiter id => exact kept (x.upToRegistries_dropWaiter id).publishers
    | @aborted n call _ _ _ =>
      exact kept (System.UpToRegistries.forsake x.system n call.phase).publishers
    | openedPublisher _ subscribed asked =>
      obtain ⟨p₀, co, s, opens⟩ := x.opens_of_subscribe subscribed (by rw [asked])
      exact opens.linked run.apart elsewhere new hp
    | _ => exact kept rfl
  | injected _ _ => exact absent rfl
  | @stepped agent t hs =>
    cases agent with
    | worker i =>
      obtain ⟨p, q, host, q', w, -, -, -, rfl⟩ := Agent.step?_worker hs
      exact absent (List.length_modify ..)
    | listener c =>
      obtain ⟨co, host, co', -, -, rfl⟩ := Agent.step?_listener hs
      exact absent rfl
    | consumer i =>
      obtain ⟨k, host, k', -, -, rfl⟩ := Agent.step?_consumer hs
      exact absent rfl
    | call n =>
      obtain ⟨φ, -, u, ψ, step, quiet⟩ := System.callSteps_of_stepCall? hs
      obtain ⟨host, queues, upTo⟩ := step.upToRegistries
      have length := congrArg List.length quiet.publishers
      rw [List.length_map, List.length_map] at length
      exact absent (length.trans (congrArg List.length upTo.publishers))
    | redelivery i serial =>
      obtain ⟨entry, -, -, rfl⟩ := Agent.step?_redelivery hs
      exact absent rfl
  | passed _ => exact absent rfl

theorem Session.Linked.next (run : Runs ts x) (h : x.after? a = some y) {p p' : Publisher}
    (linked : x.Linked p) (config : p'.config = p.config)
    (correlator : p'.correlator = p.correlator) : y.Linked p' := by
  obtain ⟨co, s, hc, timeout, unmatchedDelay, hs, maxDeliveries⟩ := linked
  obtain ⟨co', hc', alike⟩ := alike_of_after? h hc
  obtain ⟨s', hs', same⟩ := config_of_after? run h hc hs
  have bound : s'.maxDeliveries = s.maxDeliveries :=
    congrArg SubscriptionConfig.maxDeliveries same
  refine ⟨co', s', correlator ▸ hc', ?_, ?_, alike.subscription ▸ hs', ?_⟩
  · rw [alike.timeout, timeout, config]
  · rw [alike.unmatchedDelay, unmatchedDelay, config]
  · rw [bound, maxDeliveries, config]

theorem Runs.linked (run : Runs ts z) {i : Nat} {p : Publisher}
    (hp : z.system.publishers[i]? = some p) : z.Linked p := by
  induction run generalizing p with
  | start => cases hp
  | @next ts x y a run h ih =>
    by_cases new : x.system.publishers.length ≤ i
    · exact linked_of_new run h new hp
    · have old := List.getElem?_eq_getElem (Nat.lt_of_not_le new)
      obtain ⟨p', hp', onward⟩ := (Session.onward_of_after? h).publishers i _ old
      obtain rfl := Option.some.inj (hp'.symm.trans hp)
      exact (ih old).next run h onward.config onward.correlator

end Script

end ChangeDispatch
