import ChangeDispatch.Proofs.Broker.Receivers

/-!
# How a run changes the consumers

A consumer changes in its own steps only, but for being told to stop; its subscription
offers a message as often as its policy says.
-/
namespace ChangeDispatch

namespace Script

variable {x y : Session} {a : Action}

/-- What a step of a script does to the consumers. -/
inductive Session.Staffs (x y : Session) : Prop where
  | same : y.system.consumers = x.system.consumers → Staffs x y
  | stopped (i : Nat) :
      y.system.consumers = x.system.consumers.modify i (fun k => { k with stopping := true }) →
      Staffs x y
  | started {topic name : String} {policy : DeadLetterPolicy} {handler : Handler} :
      y.system.consumers = x.system.consumers ++
        [{ topic, policy, handler, subscription := x.system.host.broker.subscriptions.length }] →
      y.system.host.broker.subscriptions = x.system.host.broker.subscriptions ++
        [{ topic, name, maxDeliveries := some policy.maxDeliveries }] →
      Staffs x y

theorem Session.staffs_effect (h : Effect x y) : Staffs x y := by
  cases h with
  | @registered c _ _ _ r id u _ _ hu =>
    subst hu
    exact .same (upToRegistries_dropWaiter _ id).consumers
  | droppedWaiter id => exact .same (x.upToRegistries_dropWaiter id).consumers
  | @aborted n c _ _ _ => exact .same (System.UpToRegistries.forsake x.system n c.phase).consumers
  | startedConsumer _ hs =>
    obtain ⟨-, rfl, rfl⟩ := Host.subscribe_ok hs
    exact .started rfl rfl
  | stoppedConsumer i => exact .stopped i rfl
  | _ => exact .same rfl

/-- What a consumer was before an action. -/
inductive Consumed (x : Session) (a : Action) (y : Session) (k : Nat) (c' : Consumer) : Prop where
  | kept {c : Consumer} :
      x.system.consumers[k]? = some c → a ≠ .agent (.consumer k) →
      (c' = c ∨ c' = { c with stopping := true }) → Consumed x a y k c'
  | stepped {c : Consumer} {t : System} :
      x.system.consumers[k]? = some c → a = .agent (.consumer k) →
      Consumer.Step x.system.host c t.host c' → y = { x with system := t } → Consumed x a y k c'
  | started {topic name : String} {policy : DeadLetterPolicy} {handler : Handler} :
      x.system.consumers.length = k →
      c' = { topic, policy, handler, subscription := x.system.host.broker.subscriptions.length } →
      y.system.host.broker.subscriptions[x.system.host.broker.subscriptions.length]? =
        some { topic, name, maxDeliveries := some policy.maxDeliveries } →
      Consumed x a y k c'

theorem consumed_step {agent : Agent} {t : System} (h : agent.step? x.system = some t) {k : Nat}
    {c' : Consumer} (hc : t.consumers[k]? = some c') :
    Consumed x (.agent agent) { x with system := t } k c' := by
  have kept : t.consumers = x.system.consumers → agent ≠ .consumer k →
      Consumed x (.agent agent) { x with system := t } k c' := by
    intro same hne
    refine .kept (c := c') (same ▸ hc) (fun he => hne (Action.agent.inj he)) (.inl rfl)
  cases agent with
  | consumer i =>
    obtain ⟨c, host, c₁, hi, hs, rfl⟩ := Agent.step?_consumer h
    by_cases hik : i = k
    · subst hik
      obtain rfl : c₁ = c' := by simpa [System.adjustConsumer, hi] using hc
      exact .stepped hi rfl (Consumer.step_of_step? hs) rfl
    · exact .kept (c := c') (by simpa [System.adjustConsumer, hik] using hc) (by simpa using hik)
        (.inl rfl)
  | worker i =>
    obtain ⟨p, q, host, q', w, -, -, -, rfl⟩ := Agent.step?_worker h
    exact kept rfl (by simp)
  | listener c =>
    obtain ⟨co, host, co', -, -, rfl⟩ := Agent.step?_listener h
    exact kept rfl (by simp)
  | call n =>
    obtain ⟨φ, -, u, ψ, step, quiet⟩ := System.callSteps_of_stepCall? h
    obtain ⟨host, queues, upTo⟩ := step.upToRegistries
    exact kept (quiet.consumers.trans upTo.consumers) (by simp)
  | redelivery i serial =>
    obtain ⟨entry, -, -, rfl⟩ := Agent.step?_redelivery h
    exact kept rfl (by simp)

theorem consumed_performed (apart : Apart x) (h : Session.Performed x y)
    (ha : ∀ agent, a ≠ .agent agent) {k : Nat} {c' : Consumer}
    (hc : y.system.consumers[k]? = some c') : Consumed x a y k c' := by
  obtain ⟨u, hu, he⟩ := h
  rw [he.consumers] at hc
  cases Session.staffs_effect hu with
  | same same => exact .kept (c := c') (same ▸ hc) (ha _) (.inl rfl)
  | stopped i same =>
    rw [same, List.getElem?_modify] at hc
    obtain ⟨c, hk, rfl⟩ := Option.map_eq_some_iff.mp hc
    refine .kept hk (ha _) ?_
    by_cases hik : i = k
    · exact .inr (if_pos hik)
    · exact .inl (if_neg hik)
  | @started topic name policy handler same added =>
    rw [same] at hc
    rcases getElem?_concat_cases hc with hc | ⟨hk, rfl⟩
    · exact .kept (c := c') hc (ha _) (.inl rfl)
    · have kept := he.subscriptions.kept x.system.host.broker.subscriptions.length
        (by rw [added]; simp) fun hown =>
          Nat.lt_irrefl _ (apart.own _ ((Session.subscribes_effect hu).own ▸ hown))
      rw [added] at kept
      have found : y.system.host.broker.subscriptions[x.system.host.broker.subscriptions.length]? =
          some { topic, name, maxDeliveries := some policy.maxDeliveries } := by
        simpa using kept
      exact .started hk.symm rfl found

theorem consumed_of_after? (h : x.after? a = some y) (apart : Apart x) {k : Nat} {c' : Consumer}
    (hc : y.system.consumers[k]? = some c') : Consumed x a y k c' := by
  cases Session.moves_of_after? h with
  | performed ha hp => exact consumed_performed apart hp ha hc
  | injected _ _ => exact .kept (c := c') hc (by simp) (.inl rfl)
  | stepped hs => exact consumed_step hs hc
  | passed _ => exact .kept (c := c') hc (by simp) (.inl rfl)

/-- Consumers are never taken away. -/
theorem consumers_le_of_after? (h : x.after? a = some y) :
    x.system.consumers.length ≤ y.system.consumers.length := by
  cases Session.moves_of_after? h with
  | performed _ hp =>
    obtain ⟨u, hu, he⟩ := hp
    rw [he.consumers]
    cases Session.staffs_effect hu with
    | same same => exact Nat.le_of_eq (congrArg List.length same).symm
    | stopped i same => exact Nat.le_of_eq (by rw [same, List.length_modify])
    | started same _ =>
      rw [same, List.length_append]
      exact Nat.le_add_right _ _
  | injected _ _ => exact Nat.le_refl _
  | @stepped agent t hs =>
    have same := congrArg (fun r => r.consuming.length) (Agent.receivers_step hs)
    dsimp only [System.receivers] at same
    rw [List.length_map, List.length_map] at same
    exact Nat.le_of_eq same.symm
  | passed _ => exact Nat.le_refl _

end Script

end ChangeDispatch
