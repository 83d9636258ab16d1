import ChangeDispatch.Proofs.Settlement.Steps
import ChangeDispatch.Proofs.Shutdown.Stages

/-!
# Every delivery is settled once

Where nobody but the agents receives, the broker has counted one settlement for every delivery
that was taken and is not in the hand of a consumer. At a quiescent point a consumer has a
delivery in hand only while it waits for a timer. All of this is for a connection on which
settlements do not fail.
-/
namespace ChangeDispatch

open Host (Counts)

/-- Who has a delivery in hand and cannot go on waits for a timer. -/
theorem Consumer.timer?_of_blocked {h : Host} {k : Consumer} {d : Delivery}
    (blocked : k.step? h = none) (held : k.phase.hand? = some d) :
    ∃ timer, k.timer? = some timer ∧ h.now < timer.due := by
  rcases blocked_cases blocked with ended | ⟨waiting, -⟩ | due
  · rw [ended] at held
    cases held
  · rw [waiting] at held
    cases held
  · exact due

/-- All that the consumers have in hand. -/
def System.inHands (s : System) : List Delivery := s.consumers.filterMap fun c => c.phase.hand?

namespace Script

variable {ts : List Transition} {x y z : Session} {a : Action} {b : Agent}

/-- What is taken in a transition, by whatever agent. -/
def Transition.takes? (t : Transition) : Option Delivery :=
  t.action.agent?.bind t.before.system.taking?

/-! ## What the broker has counted -/

/-- What the consumers have in hand changes in their own steps only. -/
theorem inHands_of_others (h : x.after? a = some y)
    (others : ∀ k, a ≠ .agent (.consumer k)) : y.system.inHands = x.system.inHands := by
  unfold System.inHands
  have same : y.system.consumers = x.system.consumers →
      y.system.consumers.filterMap (fun c => c.phase.hand?) =
        x.system.consumers.filterMap fun c => c.phase.hand? := fun hc => by rw [hc]
  cases Session.moves_of_after? h with
  | performed _ hp =>
    obtain ⟨u, effect, elsewhere⟩ := hp
    rw [elsewhere.consumers]
    cases Session.staffs_effect effect with
    | same hc => rw [hc]
    | stopped i hc =>
      rw [hc]
      have phases := map_modify_of_apply (f := fun k : Consumer => { k with stopping := true })
        (g := fun k => k.phase.hand?) (fun _ => rfl) x.system.consumers i
      have picked := congrArg (List.filterMap id) phases
      rwa [List.filterMap_map, List.filterMap_map] at picked
    | started hc _ =>
      rw [hc, List.filterMap_append]
      exact List.append_nil _
  | injected _ _ => rfl
  | passed _ => rfl
  | @stepped agent s hs =>
    cases agent with
    | consumer k => exact absurd rfl (others k)
    | worker i =>
      obtain ⟨p, q, host, q', w, -, -, -, rfl⟩ := Agent.step?_worker hs
      rfl
    | listener c =>
      obtain ⟨co, host, co', -, -, rfl⟩ := Agent.step?_listener hs
      rfl
    | redelivery i serial =>
      obtain ⟨entry, -, -, rfl⟩ := Agent.step?_redelivery hs
      rfl
    | call n =>
      obtain ⟨φ, -, v, ψ, step, quiet⟩ := System.callSteps_of_stepCall? hs
      obtain ⟨host, queues, upTo⟩ := step.upToRegistries
      exact same (quiet.consumers.trans upTo.consumers)

/-- The step of an agent puts into hands what it takes into its own, and takes from them what
it lets go of. -/
theorem length_inHands_step (h : x.after? (.agent b) = some y) :
    y.system.inHands.length + (x.system.inHand? b).toList.length =
      x.system.inHands.length + (y.system.inHand? b).toList.length := by
  by_cases consumer : ∃ k, b = .consumer k
  · obtain ⟨k, rfl⟩ := consumer
    obtain ⟨s, hs, rfl⟩ := Option.map_eq_some_iff.mp h
    obtain ⟨co, host, co', hk, -, rfl⟩ := Agent.step?_consumer hs
    obtain ⟨rest, before, after⟩ :=
      filterMap_modify (g := fun c : Consumer => c.phase.hand?) hk fun _ => co'
    have was := System.inHand?_consumer hk
    have is := System.inHand?_adjustConsumer (s := { x.system with host }) hk fun _ => co'
    have lengthBefore := before.length_eq
    have lengthAfter := after.length_eq
    rw [List.length_append] at lengthBefore lengthAfter
    unfold System.inHands
    dsimp only
    rw [was, is]
    unfold System.adjustConsumer
    dsimp only
    omega
  · have none : ∀ s : System, s.inHand? b = Option.none := by
      intro s
      cases b with
      | consumer k => exact absurd ⟨k, rfl⟩ consumer
      | _ => rfl
    rw [none, none, inHands_of_others h fun k he => consumer ⟨k, Action.agent.inj he⟩]

/-- The settlements that a broker has counted, and what the consumers have in hand. -/
def Session.dealt (x : Session) : Nat :=
  x.system.host.broker.acked + x.system.host.broker.nacked + x.system.host.broker.terminated +
    x.system.inHands.length

theorem settled_of_counts {ways : List Settlement} {h k : Host} (counts : Counts ways h k) :
    k.broker.acked + k.broker.nacked + k.broker.terminated =
      h.broker.acked + h.broker.nacked + h.broker.terminated + ways.length := by
  have acked : k.broker.acked = h.broker.acked + ways.count .acked := counts .acked
  have nacked : k.broker.nacked = h.broker.nacked + ways.count .nacked := counts .nacked
  have terminated : k.broker.terminated = h.broker.terminated + ways.count .terminated :=
    counts .terminated
  have all : ways.count .acked + ways.count .nacked + ways.count .terminated = ways.length := by
    clear counts acked nacked terminated
    induction ways with
    | nil => rfl
    | cons w ways ih =>
      rw [List.length_cons, ← ih]
      cases w <;> simp <;> omega
  omega

/-- What the step of an agent settles and puts into hands is what it takes. -/
theorem Transition.Lawful.dealt (lawful : (⟨x, .agent b, y⟩ : Transition).Lawful b)
    (h : x.after? (.agent b) = some y) :
    y.dealt = x.dealt + (x.system.taking? b).toList.length := by
  have counted := settled_of_counts (lawful.counted rfl)
  have hands := length_inHands_step h
  have balance := congrArg List.length lawful.balance
  rw [List.length_append, List.length_append, Transition.taken?_self] at balance
  rw [List.length_map] at counted balance
  dsimp only at counted balance
  unfold Session.dealt
  omega

/-- The caller receives nothing in a run. -/
def Unreceived (ts : List Transition) : Prop :=
  ∀ u ∈ ts, ∀ subscription delivery, u.action ≠ .perform (.receive subscription delivery)

/-- Where only the agents receive, every delivery that was taken is settled or in hand. -/
theorem Runs.dealt_eq (run : Runs ts z)
    (reliable : ∀ u ∈ ts, u.before.system.host.faults.Reliable) (unreceived : Unreceived ts) :
    z.dealt = ts.countP (fun u => u.takes?.isSome) ∧ z.deliveries = [] := by
  induction run with
  | start => exact ⟨rfl, rfl⟩
  | @next ts x y a run h ih =>
    obtain ⟨earlier, none⟩ := ih (fun u hu => reliable u (List.mem_cons_of_mem _ hu))
      (fun u hu => unreceived u (List.mem_cons_of_mem _ hu))
    by_cases own : ∃ b, a = .agent b
    · obtain ⟨b, rfl⟩ := own
      have lawful := (Runs.next run h).lawful reliable List.mem_cons_self b
      have kept : y.deliveries = x.deliveries := by
        obtain ⟨s, -, rfl⟩ := Option.map_eq_some_iff.mp h
        rfl
      refine ⟨?_, kept.trans none⟩
      rw [lawful.dealt h, earlier, List.countP_cons]
      show _ = _ + if (x.system.taking? b).isSome then 1 else 0
      cases x.system.taking? b <;> rfl
    · have outside : ∀ b, a ≠ .agent b := fun b hb => own ⟨b, hb⟩
      have unsettled := Session.unsettled_of_after? h none
        (unreceived _ List.mem_cons_self) outside
      have counted := settled_of_counts unsettled.counts
      have hands := inHands_of_others h fun k => outside (.consumer k)
      have idle : (⟨x, a, y⟩ : Transition).takes? = Option.none := by
        cases a with
        | agent b => exact absurd rfl (outside b)
        | _ => rfl
      refine ⟨?_, unsettled.deliveries.trans none⟩
      rw [List.countP_cons, idle, ← earlier]
      unfold Session.dealt
      rw [hands, counted]
      rfl

/-! ## Consumers at rest -/

/-- Every consumer is among what makes progress. -/
def Session.Serves (x : Session) : Prop :=
  ∀ k < x.system.consumers.length, Agent.consumer k ∈ x.system.started

theorem Session.serves_effect {u : Session} (h : Effect x u) (serves : Serves x) : Serves u := by
  have more : ∀ {consumers : List Consumer} {started : List Agent},
      consumers.length = x.system.consumers.length → ∀ k < consumers.length,
      Agent.consumer k ∈ x.system.started ++ started := fun hc k hk =>
    List.mem_append_left _ (serves k (hc ▸ hk))
  have same : u.system.consumers = x.system.consumers →
      u.system.started = x.system.started → Serves u := by
    intro hc hs k hk
    rw [hc] at hk
    exact hs ▸ serves k hk
  cases h with
  | called _ => exact more rfl
  | waited _ => exact more rfl
  | @registered c _ _ _ r id v _ _ hv =>
    subst hv
    let z := x.onSystem (·.adjustCorrelator c fun co => { co with registry := r })
    have upTo := z.upToRegistries_dropWaiter id
    exact same upTo.consumers upTo.started
  | droppedWaiter id =>
    have upTo := x.upToRegistries_dropWaiter id
    exact same upTo.consumers upTo.started
  | @aborted n c _ _ _ =>
    have upTo := System.UpToRegistries.forsake x.system n c.phase
    exact same upTo.consumers upTo.started
  | openedPublisher _ _ _ =>
    intro k hk
    exact List.mem_append_left _ (more rfl k hk)
  | startedCorrelator _ => exact more rfl
  | startedConsumer _ _ =>
    intro k hk
    change k < (x.system.consumers ++ [_]).length at hk
    rw [List.length_append, List.length_singleton] at hk
    apply List.mem_append.mpr
    by_cases new : k = x.system.consumers.length
    · exact .inr (List.mem_singleton.mpr (new ▸ rfl))
    · exact .inl (serves k (by omega))
  | stoppedConsumer i =>
    intro k hk
    change k < (x.system.consumers.modify i _).length at hk
    rw [List.length_modify] at hk
    exact serves k hk
  | _ => exact same rfl rfl

theorem Session.serves_after? (serves : Serves x) (h : x.after? a = some y) : Serves y := by
  cases moves_of_after? h with
  | performed _ hp =>
    obtain ⟨u, hu, he⟩ := hp
    intro k hk
    rw [he.consumers] at hk
    exact he.started ▸ serves_effect hu serves k hk
  | injected _ _ => exact serves
  | passed _ => exact serves
  | @stepped agent t hs =>
    have same : t.consumers.length = x.system.consumers.length →
        t.started = x.system.started → Serves { x with system := t } := by
      intro hc hs k hk
      exact hs ▸ serves k (hc ▸ hk)
    cases agent with
    | worker i =>
      obtain ⟨p, q, host, q', w, -, -, -, rfl⟩ := Agent.step?_worker hs
      exact same rfl rfl
    | listener c =>
      obtain ⟨co, host, co', -, -, rfl⟩ := Agent.step?_listener hs
      exact same rfl rfl
    | consumer i =>
      obtain ⟨k, host, k', -, -, rfl⟩ := Agent.step?_consumer hs
      exact same (List.length_modify ..) rfl
    | redelivery i serial =>
      obtain ⟨entry, -, -, rfl⟩ := Agent.step?_redelivery hs
      exact same rfl rfl
    | call n =>
      obtain ⟨φ, -, v, ψ, step, quiet⟩ := System.callSteps_of_stepCall? hs
      obtain ⟨host, queues, upTo⟩ := step.upToRegistries
      exact same (congrArg List.length (quiet.consumers.trans upTo.consumers))
        (quiet.started.trans upTo.started)

theorem Runs.serves (run : Runs ts z) : z.Serves :=
  run.invariant (P := Session.Serves) (fun _ hk => (nomatch hk)) fun _ _ _ serves h =>
    Session.serves_after? serves h

theorem Runs.blocked_of_quiescent (run : Runs ts z) (quiescent : z.system.isQuiescent) {i : Nat}
    {k : Consumer} (found : z.system.consumers[i]? = some k) : k.step? z.system.host = none := by
  have still := System.step?_of_quiescent quiescent
    (run.serves i (List.getElem?_eq_some_iff.mp found).1)
  cases step : k.step? z.system.host with
  | none => rfl
  | some next =>
    unfold Agent.step? at still
    dsimp only at still
    rw [found] at still
    simp [step] at still

/-- At a quiescent point a delivery is in hand only until a timer is due. -/
theorem Runs.timer?_of_quiescent (run : Runs ts z) (quiescent : z.system.isQuiescent) {i : Nat}
    {k : Consumer} {d : Delivery} (found : z.system.consumers[i]? = some k)
    (held : k.phase.hand? = some d) :
    ∃ timer, k.timer? = some timer ∧ z.system.host.now < timer.due :=
  Consumer.timer?_of_blocked (run.blocked_of_quiescent quiescent found) held

/-! ## The result -/

/-- Every delivery that an agent takes goes through its hand and is settled once: by a listener
in the step in which it takes it, terminated exactly if it cannot be read and acked exactly if
it went into the slot of a waiter; by a consumer never as terminated. Where only the agents
receive, the settlements and what consumers still have in hand make up all that was taken, and
at a quiescent point a consumer has a delivery in hand only while a timer is not yet due. -/
theorem taken_settled_once (run : Runs ts z)
    (reliable : ∀ u ∈ ts, u.before.system.host.faults.Reliable) :
    (∀ u ∈ ts, ∀ b, u.Lawful b) ∧
    (∀ b, takings ts b = (z.system.inHand? b).toList ++ (settlements ts b).map Prod.fst) ∧
    (Unreceived ts →
      z.system.host.broker.acked + z.system.host.broker.nacked +
          z.system.host.broker.terminated + z.system.inHands.length =
        ts.countP fun u => u.takes?.isSome) ∧
    (z.system.isQuiescent → ∀ (i : Nat) (k : Consumer) (d : Delivery),
      z.system.consumers[i]? = some k → k.phase.hand? = some d →
        ∃ timer, k.timer? = some timer ∧ z.system.host.now < timer.due) := by
  refine ⟨fun u hu b => run.lawful reliable hu b, run.takings_eq reliable, ?_, ?_⟩
  · exact fun unreceived => (run.dealt_eq reliable unreceived).1
  · exact fun quiescent i k d found held => run.timer?_of_quiescent quiescent found held

/-- A handler that takes a second for a message. -/
def unhurried : Handler where
  decode _ := .ok (.change (creation none))
  duration _ _ := 1000
  answer _ _ := .ok ()

/-- A message is with the handler; the latest action first. -/
def handlerBusy : List Action :=
  [.agent (.consumer 0), .perform (.inject "jobs" []), .agent (.consumer 0),
   .serve "k" "jobs" "monitor" (.ofTopic "jobs") unhurried]

theorem actions_play (actions : List Action) :
    ∀ u ∈ (play actions).1, u.action ∈ actions := by
  induction actions with
  | nil => exact fun u hu => nomatch hu
  | cons a earlier ih =>
    intro u hu
    simp only [play] at hu
    split at hu
    · rcases List.mem_cons.mp hu with rfl | hu
      · exact List.mem_cons_self
      · exact List.mem_cons_of_mem _ (ih u hu)
    · exact List.mem_cons_of_mem _ (ih u hu)

theorem unreceived_play {actions : List Action}
    (none : ∀ subscription delivery, Action.perform (.receive subscription delivery) ∉ actions) :
    Unreceived (play actions).1 := fun u hu subscription delivery received =>
  none subscription delivery (received ▸ actions_play actions u hu)

theorem reliable_of_faultless (faultless : ts.all (·.before.system.host.faults == {})) :
    ∀ u ∈ ts, u.before.system.host.faults.Reliable := by
  intro u hu
  rw [eq_of_beq (List.all_eq_true.mp faultless u hu)]
  exact ⟨rfl, rfl, rfl⟩

/-- Nothing can go on, and what was taken is not settled yet. -/
theorem taken_unsettled_at_rest :
    Runs (play handlerBusy).1 (play handlerBusy).2 ∧
      (∀ u ∈ (play handlerBusy).1, u.before.system.host.faults.Reliable) ∧
      Unreceived (play handlerBusy).1 ∧ (play handlerBusy).2.system.isQuiescent ∧
      (play handlerBusy).2.system.host.broker.acked +
          (play handlerBusy).2.system.host.broker.nacked +
          (play handlerBusy).2.system.host.broker.terminated ≠
        (play handlerBusy).1.countP fun u => u.takes?.isSome := by
  refine ⟨play_runs handlerBusy, reliable_of_faultless (by rfl),
    unreceived_play (by simp [handlerBusy]), by rfl, ?_⟩
  have none : (play handlerBusy).2.system.host.broker.acked +
      (play handlerBusy).2.system.host.broker.nacked +
      (play handlerBusy).2.system.host.broker.terminated = 0 := by rfl
  have one : ((play handlerBusy).1.countP fun u => u.takes?.isSome) = 1 := by rfl
  omega

/-- The handler is done; the latest action first. -/
def handlerDone : List Action := .agent (.consumer 0) :: .tick 1000 :: handlerBusy

/-- The message that was taken was acked. -/
theorem handled_acked :
    takings (play handlerDone).1 (.consumer 0) =
        (settlements (play handlerDone).1 (.consumer 0)).map Prod.fst ∧
      (play handlerDone).2.system.host.broker.acked =
        (play handlerDone).1.countP fun u => u.takes?.isSome := by
  obtain ⟨-, settled, counted, -⟩ :=
    taken_settled_once (play_runs handlerDone) (reliable_of_faultless (by rfl))
  have own := settled (.consumer 0)
  have total := counted (unreceived_play (by simp [handlerDone, handlerBusy]))
  have hand : (play handlerDone).2.system.inHand? (.consumer 0) = none := by rfl
  have others : (play handlerDone).2.system.host.broker.nacked = 0 ∧
      (play handlerDone).2.system.host.broker.terminated = 0 ∧
      (play handlerDone).2.system.inHands = [] := ⟨by rfl, by rfl, by rfl⟩
  rw [hand] at own
  rw [others.1, others.2.1, others.2.2] at total
  exact ⟨own, total⟩

end Script

end ChangeDispatch
