import ChangeDispatch.Proofs.Run.Elsewhere

/-!
# What a step of a script does

`performed` lists what the steps do to the parts of the system and to the waits that the
caller holds, up to changes elsewhere. Statements about runs go through the list and not
through the code of the steps.
-/
namespace ChangeDispatch

namespace System

/-- The end of what a call holds when it is given up. -/
def forsake (s : System) (n : Nat) : Call.Phase → System
  | .inLine queue _ _ next => (s.letGo next).adjustQueue queue fun q => q.withdraw n
  | φ => s.letGo φ.handle?

/-- The queues when a call is given up. -/
def leaveLine (queues : List Queue) (n : Nat) : Call.Phase → List Queue
  | .inLine queue _ _ _ => queues.modify queue fun q => q.withdraw n
  | _ => queues

theorem UpToRegistries.forsake (s : System) (n : Nat) (φ : Call.Phase) :
    UpToRegistries { s with queues := leaveLine s.queues n φ } (s.forsake n φ) := by
  cases φ with
  | inLine queue event timer next =>
    cases next with
    | none => exact .refl _
    | some h => exact .letGo (s.adjustQueue queue fun q => q.withdraw n) (some h)
  | _ => exact .letGo s _

theorem quiet_abortCall {s : System} {n : Nat} {c : Call} (hc : s.calls[n]? = some c)
    (hr : c.isRunning) : Quiet ((s.forsake n c.phase).setPhase n .aborted) (s.abortCall n) := by
  unfold abortCall
  rw [hc]
  dsimp only
  rw [if_neg (by simpa using hr)]
  refine Quiet.trans ?_ (quiet_releaseOwner _ _)
  cases c.phase with
  | inLine queue event timer next => cases next <;> exact .refl _
  | enqueuing queue event next => cases next <;> exact .refl _
  | _ => exact .refl _

end System

namespace Script.Session

/-- What a step does to the rest of a session. -/
inductive Effect (x : Session) : Session → Prop where
  | nothing : Effect x x
  | closedBroker : Effect x (x.onBroker Broker.close)
  | called {owner : Owner} {φ : Call.Phase} :
      (φ.isBare ∨ ∃ queue event, φ = .enqueuing queue event none) →
      Effect x (x.onSystem fun s => (s.startCall owner φ).2)
  | waited {id : String} {handle : WaitHandle} {token : Option Nat} :
      x.waiters.find? id = some handle →
      Effect x
        { x with system := (x.system.startCall .none (.awaiting handle token)).2
                 waiters := x.waiters.erase id }
  | registered {c : Nat} {co : Correlator} {event : ChangeEvent} {w : Waiter} {r : WaitRegistry}
      {id : String} {y : Session} :
      x.system.correlators[c]? = some co →
      co.registry.register event x.system.host.now co.timeout = .ok (w, r) →
      y = (x.onSystem (·.adjustCorrelator c fun co => { co with registry := r })).dropWaiter id →
      Effect x { y with waiters := y.waiters.insert id ⟨c, w.serial⟩ }
  | droppedWaiter (id : String) : Effect x (x.dropWaiter id)
  | aborted {n : Nat} {c : Call} :
      x.system.calls[n]? = some c → c.isRunning → x.system.stepCall? n = none →
      Effect x (x.onSystem fun s => (s.forsake n c.phase).setPhase n .aborted)
  | openedPublisher {config : DispatchConfig} {subscription : SubscriptionConfig} {i : Nat}
      {host : Host} :
      config.validate = .ok () → x.system.host.subscribe subscription = (.ok i, host) →
      subscription = ⟨config.ackTopic, config.ackSubscription, some config.ackMaxDeliveries⟩ →
      Effect x (x.onSystem fun s => ({ s with host }.addPublisher config i).2)
  | startedCorrelator {subscription : SubscriptionConfig} {timeout unmatchedDelay : Duration}
      {i : Nat} {host : Host} :
      x.system.host.subscribe subscription = (.ok i, host) →
      Effect x (x.onSystem fun s => ({ s with host }.addCorrelator i timeout unmatchedDelay).2)
  | startedConsumer {topic name : String} {policy : DeadLetterPolicy} {handler : Handler}
      {i : Nat} {host : Host} :
      policy.maxDeliveries ≠ 0 →
      x.system.host.subscribe { topic, name, maxDeliveries := some policy.maxDeliveries } =
        (.ok i, host) →
      Effect x
        (x.onSystem fun s =>
          { s with
            host
            consumers := s.consumers ++ [{ topic, policy, handler, subscription := i }]
            started := s.started ++ [.consumer s.consumers.length] })
  | stoppedConsumer (i : Nat) : Effect x (x.onSystem (·.stopConsumer i))

/-- A change of a session, up to changes elsewhere. -/
def Performed (x y : Session) : Prop := ∃ u, Effect x u ∧ Elsewhere u y

namespace Performed

variable {x y z : Session}

theorem of_elsewhere (h : Elsewhere x y) : Performed x y := ⟨x, .nothing, h⟩

theorem of_effect (h : Effect x y) : Performed x y := ⟨y, h, .refl y⟩

theorem rename (h : Performed x y) {consumers : Names Nat} :
    Performed x { y with consumers } := by
  obtain ⟨u, hu, he⟩ := h
  exact ⟨u, hu, he.trans (.of_quiet (.refl _) (List.Subset.refl _) (List.Subset.refl _) rfl)⟩

end Performed

theorem performed_call {x : Session} {owner : Owner} {φ : Call.Phase}
    (hφ : φ.isBare ∨ ∃ queue event, φ = .enqueuing queue event none) :
    Performed x (x.call owner φ).2 :=
  ⟨_, .called hφ, .of_quiet (.refl _) (List.Subset.refl _) (List.Subset.refl _) rfl⟩

theorem performed_releaseBroker (x : Session) :
    Performed x { x with system := x.system.releaseBroker } :=
  ⟨_, .closedBroker,
    .of_quiet (System.quiet_noteError _ _ _) (List.Subset.refl _) (List.Subset.refl _) rfl⟩

theorem performed_startConsumer (x : Session) (topic name : String) (policy : DeadLetterPolicy)
    (handler : Handler) :
    Performed x { x with system := (x.system.startConsumer topic name policy handler).2 } := by
  unfold System.startConsumer
  split
  · exact .of_elsewhere (.refl x)
  next hm =>
    cases hs : x.system.host.subscribe
      { topic, name, maxDeliveries := some policy.maxDeliveries } with
    | mk result host =>
      cases result with
      | error e => exact Host.subscribe_error hs ▸ .of_elsewhere (.refl x)
      | ok i => exact .of_effect (.startedConsumer hm hs)

theorem performed_openPublisher (x : Session) (id : String) (config : DispatchConfig) :
    Performed x (x.openPublisher id config).2 := by
  unfold openPublisher System.openPublisher
  cases hv : config.validate with
  | error e => exact x.performed_releaseBroker
  | ok _ =>
    dsimp only
    let subscription : SubscriptionConfig :=
      ⟨config.ackTopic, config.ackSubscription, some config.ackMaxDeliveries⟩
    cases hs : x.system.host.subscribe subscription with
    | mk result host =>
      cases result with
      | error e =>
        obtain rfl := Host.subscribe_error hs
        dsimp only
        refine ⟨_, .closedBroker, .of_quiet ?_ (List.Subset.refl _) (List.Subset.refl _) rfl⟩
        let closed := x.system.setBroker x.system.host.broker.close
        exact (closed.quiet_note (.ackSubscriptionFailed config.ackTopic e)).trans
          (System.quiet_noteError _ _ _)
      | ok i =>
        dsimp only
        by_cases tooLarge : Queue.maxCapacity < config.queueCapacity
        · rw [if_pos tooLarge]
          exact .of_elsewhere (elsewhere_abandoned hs)
        · rw [if_neg tooLarge]
          exact ⟨_, .openedPublisher hv hs rfl, (elsewhere_dropPublisher _ id).trans
            (.of_quiet (.refl _) (List.Subset.refl _) (List.Subset.refl _) rfl)⟩

theorem performed_startCorrelator (x : Session) (id : String) (subscription : SubscriptionConfig)
    (timeout unmatchedDelay : Duration) :
    Performed x (x.startCorrelator id subscription timeout unmatchedDelay).2 := by
  unfold startCorrelator System.startCorrelator
  cases hs : x.system.host.subscribe subscription with
  | mk result host =>
    cases result with
    | error e => exact Host.subscribe_error hs ▸ .of_elsewhere (.refl x)
    | ok i =>
      dsimp only
      exact ⟨_, .startedCorrelator hs, (elsewhere_dropCorrelator _ id).trans
        (.of_quiet (.refl _) (List.Subset.refl _) (List.Subset.refl _) rfl)⟩

theorem performed_register (x : Session) (target : String) (event : ChangeEvent) (waiter : String) :
    Performed x (x.register target event waiter).2 := by
  unfold register
  split
  · exact .of_elsewhere (.refl x)
  next owner c _ =>
    unfold System.register
    cases hc : x.system.correlators[c]? with
    | none => exact .of_elsewhere (.refl x)
    | some co =>
      dsimp only
      cases hr : co.registry.register event x.system.host.now co.timeout with
      | error e => exact .of_elsewhere (.refl x)
      | ok v =>
        obtain ⟨w, r⟩ := v
        exact .of_effect (Effect.registered hc hr rfl)

theorem performed_abort {x : Session} {step : Nat} (h : x.allows (.abort step)) :
    Performed x (x.abort step) := by
  unfold abort
  cases hn : x.running.lookup step with
  | none => exact .of_elsewhere (.refl x)
  | some n =>
    have still : x.system.stepCall? n = none := by
      change (x.running.lookup step).all (fun n => !x.system.canStep (.call n)) at h
      rw [hn] at h
      simpa [System.canStep, Agent.step?] using h
    dsimp only
    cases hc : x.system.calls[n]? with
    | none =>
      unfold System.abortCall
      rw [onSystem, hc]
      exact .of_elsewhere (.refl x)
    | some c =>
      cases hr : c.isRunning with
      | true =>
        exact ⟨_, .aborted hc hr still, .of_quiet (System.quiet_abortCall hc hr)
          (List.Subset.refl _) (List.Subset.refl _) rfl⟩
      | false =>
        unfold System.abortCall
        rw [onSystem, hc]
        dsimp only
        rw [hr]
        exact .of_elsewhere (.refl x)

/-- What every step does but the passing of time and the injection of a message. -/
theorem performed {x : Session} {step : Step} (h : x.allows step)
    (hi : ∀ topic payload, step ≠ .inject topic payload) : Performed x (x.perform step).2 := by
  cases step with
  | advance ms => cases h
  | failPublishes count => exact .of_elsewhere (.of_host rfl rfl rfl rfl)
  | failReceives count => exact .of_elsewhere (.of_host rfl rfl rfl rfl)
  | failSubscriptions fail => exact .of_elsewhere (.of_host rfl rfl rfl rfl)
  | setFaults faults => exact .of_elsewhere (.of_host rfl rfl rfl rfl)
  | inject topic payload => exact absurd rfl (hi topic payload)
  | publish topic payload => exact performed_call (.inl rfl)
  | published topic => exact .of_elsewhere (.refl x)
  | subscriberCount topic => exact .of_elsewhere (.refl x)
  | closeBroker =>
    have closed : Performed x (x.onHost fun _ => x.system.host.close.2) := .of_effect .closedBroker
    unfold perform
    dsimp only
    split
    next host hc => rwa [hc] at closed
    next e host hc => rwa [hc] at closed
  | subscribe id config => exact .of_elsewhere (x.elsewhere_subscribe id config)
  | receive subscription delivery => exact .of_elsewhere (x.elsewhere_receive subscription delivery)
  | ack delivery =>
    exact .of_elsewhere (x.elsewhere_settle delivery fun h i d => (h.adjusts_ack i d).touches)
  | nack delivery delay =>
    exact .of_elsewhere (x.elsewhere_settle delivery fun h i d => h.touches_nack i d delay)
  | terminate delivery =>
    exact .of_elsewhere (x.elsewhere_settle delivery fun h i d => (h.adjusts_terminate i d).touches)
  | makeQueue id capacity timeout => exact .of_elsewhere (x.elsewhere_makeQueue id capacity timeout)
  | enqueue target event =>
    unfold perform
    dsimp only
    split
    · exact .of_elsewhere (.refl x)
    · exact performed_call (.inr ⟨_, _, rfl⟩)
  | dequeue queue => exact .of_elsewhere (x.elsewhere_dequeue queue)
  | closeQueue queue =>
    unfold perform
    dsimp only
    split
    · exact .of_elsewhere (.refl x)
    next i q hq =>
      exact .of_elsewhere (.of_quiet (x.system.quiet_closeQueue i) (List.Subset.refl _)
        (List.Subset.refl _) rfl)
  | dropReceiver queue =>
    unfold perform
    dsimp only
    split
    · exact .of_elsewhere (.refl x)
    next i hi => exact .of_elsewhere (.of_queue (Names.mem_of_find? hi) (List.Subset.refl _))
  | openPublisher id config => exact x.performed_openPublisher id config
  | openRemote config =>
    unfold perform
    dsimp only
    split <;> exact .of_elsewhere (.refl x)
  | startCorrelator id subscription timeout unmatchedDelay =>
    exact x.performed_startCorrelator id subscription timeout unmatchedDelay
  | submit target event =>
    unfold perform submit
    dsimp only
    split
    · exact performed_call (.inl rfl)
    · exact .of_elsewhere (.refl x)
  | register target event waiter => exact x.performed_register target event waiter
  | wait waiter token =>
    unfold perform wait
    dsimp only
    split
    · exact .of_elsewhere (.refl x)
    next handle hw =>
      exact ⟨_, .waited hw, .of_quiet (.refl _) (List.Subset.refl _) (List.Subset.refl _) rfl⟩
  | waitForAck target event token =>
    unfold perform
    dsimp only
    split
    · exact .of_elsewhere (.refl x)
    · exact performed_call (.inl rfl)
  | makeToken id =>
    exact .of_elsewhere (.of_quiet ⟨rfl, rfl, rfl, rfl, rfl, rfl, rfl, rfl, rfl⟩
      (List.Subset.refl _) (List.Subset.refl _) rfl)
  | cancel token =>
    unfold perform
    dsimp only
    split
    · exact .of_elsewhere (.refl x)
    · exact .of_elsewhere (.of_quiet ⟨rfl, rfl, rfl, rfl, rfl, rfl, rfl, rfl, rfl⟩
        (List.Subset.refl _) (List.Subset.refl _) rfl)
  | close target =>
    unfold perform close
    dsimp only
    split
    · exact performed_call (.inl rfl)
    · split
      · exact performed_call (.inl rfl)
      · exact .of_elsewhere (.refl x)
  | abort step => exact performed_abort h
  | startConsumer id topic name policy plan =>
    have started := x.performed_startConsumer topic name (policy.getD (.ofTopic topic)) plan.handler
    unfold perform startConsumer
    dsimp only
    split
    next e system hs => rwa [hs] at started
    next i system hs =>
      rw [hs] at started
      exact started.rename
  | seen consumer =>
    unfold perform
    dsimp only
    split <;> exact .of_elsewhere (.refl x)
  | stopConsumer consumer =>
    unfold perform
    dsimp only
    split
    · exact .of_elsewhere (.refl x)
    next i _ => exact .of_effect (.stoppedConsumer i)
  | drop kind id =>
    cases kind with
    | subscription => exact .of_elsewhere (x.elsewhere_dropSubscription id)
    | delivery => exact .of_elsewhere (x.elsewhere_dropDelivery id)
    | publisher => exact .of_elsewhere (x.elsewhere_dropPublisher id)
    | correlator => exact .of_elsewhere (x.elsewhere_dropCorrelator id)
    | waiter => exact .of_effect (.droppedWaiter id)
    | queue => exact .of_elsewhere (x.elsewhere_dropQueue id)

end Script.Session

end ChangeDispatch
