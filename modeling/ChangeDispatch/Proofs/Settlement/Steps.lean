import ChangeDispatch.Proofs.DeadLetter.Changes
import ChangeDispatch.Proofs.Settlement.Caller

/-!
# What a step settles

A listener settles a delivery in the step in which it takes it. A consumer has it in hand
until its handler, or the copy to the dead-letter topic, is done. Whoever takes a delivery has
none in hand, so what an agent has taken is what it has settled, once each, and at most one
delivery in hand.
-/
namespace ChangeDispatch

open Host (Counts)

namespace System

/-- What an agent has taken and not settled yet. -/
def inHand? (s : System) : Agent → Option Delivery
  | .consumer k => (s.consumers[k]?).bind fun c => c.phase.hand?
  | _ => none

/-- What an agent takes in its next step. -/
def taking? (s : System) : Agent → Option Delivery
  | .listener c => (s.correlators[c]?).bind fun co => co.taking? s.host
  | .consumer k => (s.consumers[k]?).bind fun c => c.taking? s.host
  | _ => none

variable {s : System} {c i : Nat} {co : Correlator} {k : Consumer}

theorem taking?_listener (found : s.correlators[c]? = some co) :
    s.taking? (.listener c) = co.taking? s.host := by
  show (s.correlators[c]?).bind _ = _
  rw [found]
  rfl

theorem taking?_consumer (found : s.consumers[i]? = some k) :
    s.taking? (.consumer i) = k.taking? s.host := by
  show (s.consumers[i]?).bind _ = _
  rw [found]
  rfl

theorem inHand?_consumer (found : s.consumers[i]? = some k) :
    s.inHand? (.consumer i) = k.phase.hand? := by
  show (s.consumers[i]?).bind _ = _
  rw [found]
  rfl

theorem inHand?_adjustConsumer (found : s.consumers[i]? = some k) (f : Consumer → Consumer) :
    (s.adjustConsumer i f).inHand? (.consumer i) = (f k).phase.hand? := by
  apply inHand?_consumer
  show (s.consumers.modify i f)[i]? = some (f k)
  rw [List.getElem?_modify_eq, found]
  rfl

end System

namespace Script

variable {ts : List Transition} {x y z : Session} {a : Action} {agent b : Agent} {t u : Transition}
  {c k : Nat}

def Action.agent? : Action → Option Agent
  | .agent agent => some agent
  | _ => none

namespace Transition

/-- What agent `b` takes in a transition. -/
def taken? (t : Transition) (b : Agent) : Option Delivery :=
  if t.action.agent? = some b then t.before.system.taking? b else none

/-- The settlements that the broker counts in a transition. -/
def ways (t : Transition) : List Settlement :=
  [.acked, .nacked, .terminated].flatMap fun w =>
    List.replicate (t.after.system.host.broker.tally w - t.before.system.host.broker.tally w) w

/-- The settlements of what agent `b` has in hand or takes. -/
def settles (t : Transition) (b : Agent) : List (Delivery × Settlement) :=
  if t.action.agent? = some b then
    ((t.before.system.inHand? b).or (t.before.system.taking? b)).toList.flatMap fun d =>
      t.ways.map fun w => (d, w)
  else []

theorem ways_of_counts_nil (counts : Counts [] t.before.system.host t.after.system.host) :
    t.ways = [] := by
  refine List.flatMap_eq_nil_iff.mpr fun w _ => ?_
  rw [counts w, List.count_nil, Nat.add_zero, Nat.sub_self]
  rfl

theorem ways_of_counts_singleton {way : Settlement}
    (counts : Counts [way] t.before.system.host t.after.system.host) : t.ways = [way] := by
  unfold ways
  simp only [counts _, Nat.add_sub_cancel_left]
  cases way <;> rfl

end Transition

/-- What agent `b` has taken in a run, the latest first. -/
def takings (ts : List Transition) (b : Agent) : List Delivery := ts.filterMap fun t => t.taken? b

/-- What agent `b` has settled in a run, the latest first. -/
def settlements (ts : List Transition) (b : Agent) : List (Delivery × Settlement) :=
  ts.flatMap fun t => t.settles b

theorem takings_cons (t : Transition) (ts : List Transition) (b : Agent) :
    takings (t :: ts) b = (t.taken? b).toList ++ takings ts b := by
  unfold takings
  rw [List.filterMap_cons]
  cases t.taken? b <;> rfl

theorem settlements_cons (t : Transition) (ts : List Transition) (b : Agent) :
    settlements (t :: ts) b = t.settles b ++ settlements ts b := List.flatMap_cons

/-! ## What a step settles -/

/-- The settlement of a listener has its reason. -/
def Transition.Reasoned (t : Transition) (c : Nat) (p : Delivery × Settlement) : Prop :=
  (p.2 = .terminated ↔ ∃ e, AckEvent.ofPayload p.1.payload = .error e) ∧
    (p.2 = .acked ↔ ∃ w ack, t.Hands c w p.1 ack)

/-- What an agent takes goes through its hand, and the broker counts what it lets go of. -/
structure Transition.Lawful (t : Transition) (b : Agent) : Prop where
  balance : (t.taken? b).toList ++ (t.before.system.inHand? b).toList =
    (t.after.system.inHand? b).toList ++ (t.settles b).map Prod.fst
  counted : t.action.agent? = some b →
    Counts ((t.settles b).map Prod.snd) t.before.system.host t.after.system.host
  free : t.taken? b ≠ none → t.before.system.inHand? b = none
  listener : ∀ c, b = .listener c → ∀ p ∈ t.settles b, t.Reasoned c p
  consumer : ∀ k, b = .consumer k → ∀ p ∈ t.settles b, p.2 ≠ .terminated

theorem Transition.taken?_self (x y : Session) (b : Agent) :
    (⟨x, .agent b, y⟩ : Transition).taken? b = x.system.taking? b := if_pos rfl

theorem Transition.settles_self (x y : Session) (b : Agent) :
    (⟨x, .agent b, y⟩ : Transition).settles b =
      ((x.system.inHand? b).or (x.system.taking? b)).toList.flatMap fun d =>
        (⟨x, .agent b, y⟩ : Transition).ways.map fun w => (d, w) := if_pos rfl

/-- An agent that receives nothing has nothing to settle. -/
theorem Transition.Lawful.of_counts_nil (hand : y.system.inHand? b = x.system.inHand? b)
    (none : x.system.taking? b = none) (counts : Counts [] x.system.host y.system.host) :
    (⟨x, .agent b, y⟩ : Transition).Lawful b := by
  have ways : (⟨x, .agent b, y⟩ : Transition).ways = [] := ways_of_counts_nil counts
  have settles : (⟨x, .agent b, y⟩ : Transition).settles b = [] := by
    rw [settles_self, ways]
    cases (x.system.inHand? b).or (x.system.taking? b) <;> rfl
  refine ⟨?_, fun _ => by rw [settles]; exact counts, fun taken => ?_, fun c _ p hp => ?_,
    fun k _ p hp => ?_⟩
  · rw [taken?_self, none, settles]
    dsimp only
    rw [hand]
    simp
  · rw [taken?_self] at taken
    exact absurd none taken
  · rw [settles] at hp
    cases hp
  · rw [settles] at hp
    cases hp

/-- A listener acks what it hands to a waiter. -/
theorem hands_iff_taken (run : Runs ts x) (h : x.after? a = some y) {d : Delivery} {ack : AckEvent}
    {co : Correlator} (hc : x.system.correlators[c]? = some co)
    (delivers : (⟨x, a, y⟩ : Transition).Delivers c d ack) :
    (∃ entry r, co.registry.offer ack = (.taken entry, r)) ↔
      ∃ w ack, (⟨x, a, y⟩ : Transition).Hands c w d ack := by
  have found : x.registry? c = some co.registry := System.getElem?_registries hc
  rcases (run.wellFormed found).offer_cases ack with unmatched | ⟨w, hw, pending, -, taken⟩
  · constructor
    · rintro ⟨entry, r, taken⟩
      cases unmatched.symm.trans taken
    · rintro ⟨w, ack', delivers', r, s, v, hr, hs, hw, pending, hv, same, filled⟩
      obtain ⟨co', l, hc', -, decoded, -, after⟩ := delivers.processed h
      obtain rfl := Option.some.inj (hc.symm.trans hc')
      obtain rfl := Option.some.inj (found.symm.trans hr)
      -- the registry is what it was, so the slot was empty all along
      rw [Correlator.process_unmatched l decoded unmatched] at after
      have kept : y.registry? c = some co.registry := by
        have registry := System.getElem?_registries after
        exact registry
      obtain rfl := Option.some.inj (hs.symm.trans kept)
      obtain rfl := (run.wellFormed found).eq_of_serial hv hw same
      cases (Waiter.isPending_iff.mp pending).symm.trans filled
  · exact ⟨fun _ => ⟨w, ack, (delivers.taken h found hw pending taken).1⟩,
      fun _ => ⟨w.entry, _, taken⟩⟩

theorem lawful_listener (run : Runs ts x) (reliable : x.system.host.faults.Reliable)
    (h : x.after? (.agent (.listener c)) = some y) :
    (⟨x, .agent (.listener c), y⟩ : Transition).Lawful (.listener c) := by
  obtain ⟨s, hs, same⟩ := Option.map_eq_some_iff.mp h
  obtain ⟨co, host, co', hc, step, stepped⟩ := Agent.step?_listener hs
  have after : y.system.host = host := by rw [← same, stepped]; rfl
  have taking := System.taking?_listener hc
  rcases Correlator.counts_of_step? reliable step with
    ⟨idle, counts⟩ | ⟨d, l, way, received, takes, counts, terminated, acked⟩
  · rw [← after] at counts
    exact .of_counts_nil rfl (taking.trans idle) counts
  · rw [← after] at counts
    have ways : (⟨x, .agent (.listener c), y⟩ : Transition).ways = [way] :=
      Transition.ways_of_counts_singleton counts
    have settles : (⟨x, .agent (.listener c), y⟩ : Transition).settles (.listener c) =
        [(d, way)] := by
      rw [Transition.settles_self, ways, taking, takes]
      rfl
    refine ⟨?_, fun _ => by rw [settles]; exact counts, fun _ => rfl, fun c' he p hp => ?_, nofun⟩
    · rw [Transition.taken?_self, taking, takes, settles]
      rfl
    · obtain rfl := Agent.listener.inj he
      rw [settles] at hp
      obtain rfl := List.mem_singleton.mp hp
      refine ⟨terminated, acked.trans ?_⟩
      constructor
      · rintro ⟨ack, entry, r, decoded, taken⟩
        unfold Correlator.taking? at takes
        split at takes
        next receiving =>
          have delivers : (⟨x, .agent (.listener c), y⟩ : Transition).Delivers c d ack :=
            ⟨rfl, co, l, hc, receiving.1, receiving.2, received, decoded⟩
          exact (hands_iff_taken run h hc delivers).mp ⟨entry, r, taken⟩
        next => cases takes
      · rintro ⟨w, ack, hands⟩
        obtain ⟨entry, r, taken⟩ := (hands_iff_taken run h hc hands.1).mpr ⟨w, ack, hands⟩
        exact ⟨ack, entry, r, hands.1.decoded, taken⟩

theorem lawful_consumer (reliable : x.system.host.faults.Reliable)
    (h : x.after? (.agent (.consumer k)) = some y) :
    (⟨x, .agent (.consumer k), y⟩ : Transition).Lawful (.consumer k) := by
  obtain ⟨s, hs, same⟩ := Option.map_eq_some_iff.mp h
  obtain ⟨co, host, co', hk, step, stepped⟩ := Agent.step?_consumer hs
  have counted : y.system.host = host := by rw [← same, stepped]; rfl
  have taking := System.taking?_consumer hk
  have before := System.inHand?_consumer hk
  have after : y.system.inHand? (.consumer k) = co'.phase.hand? := by
    rw [← same, stepped]
    exact System.inHand?_adjustConsumer (s := { x.system with host }) hk fun _ => co'
  rcases Consumer.counts_of_step? reliable step with
    ⟨d, takes, empty, full, counts⟩ | ⟨idle, kept, counts⟩ |
      ⟨idle, empty, d, way, full, unterminated, counts⟩
  · rw [← counted] at counts
    have ways : (⟨x, .agent (.consumer k), y⟩ : Transition).ways = [] :=
      Transition.ways_of_counts_nil counts
    have settles : (⟨x, .agent (.consumer k), y⟩ : Transition).settles (.consumer k) = [] := by
      rw [Transition.settles_self, ways, before, empty, taking, takes]
      rfl
    refine ⟨?_, fun _ => by rw [settles]; exact counts, fun _ => before.trans empty, nofun,
      fun _ _ p hp => ?_⟩
    · rw [Transition.taken?_self, taking, takes, settles]
      dsimp only
      rw [before, empty, after, full]
      rfl
    · rw [settles] at hp
      cases hp
  · rw [← counted] at counts
    exact .of_counts_nil (after.trans (kept.trans before.symm)) (taking.trans idle) counts
  · rw [← counted] at counts
    have ways : (⟨x, .agent (.consumer k), y⟩ : Transition).ways = [way] :=
      Transition.ways_of_counts_singleton counts
    have settles : (⟨x, .agent (.consumer k), y⟩ : Transition).settles (.consumer k) =
        [(d, way)] := by
      rw [Transition.settles_self, ways, before, full]
      rfl
    refine ⟨?_, fun _ => by rw [settles]; exact counts, fun taken => ?_, nofun, fun _ _ p hp => ?_⟩
    · rw [Transition.taken?_self, taking, idle, settles]
      dsimp only
      rw [before, full, after, empty]
      rfl
    · rw [Transition.taken?_self, taking] at taken
      exact absurd idle taken
    · rw [settles] at hp
      obtain rfl := List.mem_singleton.mp hp
      exact unterminated

/-- The step of any agent. -/
theorem lawful_of_agent (run : Runs ts x) (reliable : x.system.host.faults.Reliable)
    (h : x.after? (.agent b) = some y) : (⟨x, .agent b, y⟩ : Transition).Lawful b := by
  cases b with
  | listener c => exact lawful_listener run reliable h
  | consumer k => exact lawful_consumer reliable h
  | worker i =>
    obtain ⟨s, hs, rfl⟩ := Option.map_eq_some_iff.mp h
    obtain ⟨p, q, host, q', w, -, -, step, rfl⟩ := Agent.step?_worker hs
    exact .of_counts_nil rfl rfl (Worker.counts_of_step? step)
  | call n =>
    obtain ⟨s, hs, rfl⟩ := Option.map_eq_some_iff.mp h
    obtain ⟨φ, -, v, ψ, step, quiet⟩ := System.callSteps_of_stepCall? hs
    exact .of_counts_nil rfl rfl (step.counts quiet)
  | redelivery i serial =>
    obtain ⟨s, hs, rfl⟩ := Option.map_eq_some_iff.mp h
    obtain ⟨entry, -, -, rfl⟩ := Agent.step?_redelivery hs
    exact .of_counts_nil rfl rfl (.of_tally_eq rfl)

/-- What an agent has in hand stays there while it does nothing. -/
theorem inHand?_of_others (h : x.after? a = some y) (apart : Apart x)
    (others : a.agent? ≠ some b) : y.system.inHand? b = x.system.inHand? b := by
  cases b with
  | consumer k =>
    unfold System.inHand?
    dsimp only
    cases hk : y.system.consumers[k]? with
    | none =>
      have shorter := consumers_le_of_after? h
      have gone := List.getElem?_eq_none_iff.mp hk
      rw [List.getElem?_eq_none (Nat.le_trans shorter gone)]
    | some k' =>
      cases consumed_of_after? h apart hk with
      | kept known _ same =>
        rw [known]
        rcases same with rfl | rfl <;> rfl
      | stepped _ action _ _ => exact absurd (congrArg Action.agent? action) others
      | started new state _ =>
        rw [List.getElem?_eq_none (Nat.le_of_eq new), state]
        rfl
  | _ => rfl

theorem lawful_of_others (h : x.after? a = some y) (apart : Apart x)
    (others : a.agent? ≠ some b) : (⟨x, a, y⟩ : Transition).Lawful b := by
  have taken : (⟨x, a, y⟩ : Transition).taken? b = none := if_neg others
  have settles : (⟨x, a, y⟩ : Transition).settles b = [] := if_neg others
  refine ⟨?_, fun action => absurd action others, fun some => absurd taken some,
    fun _ _ p hp => ?_, fun _ _ p hp => ?_⟩
  · rw [taken, settles]
    dsimp only
    rw [inHand?_of_others h apart others]
    simp
  · rw [settles] at hp
    cases hp
  · rw [settles] at hp
    cases hp

theorem Runs.lawful (run : Runs ts z) (reliable : ∀ u ∈ ts, u.before.system.host.faults.Reliable)
    (hu : u ∈ ts) (b : Agent) : u.Lawful b := by
  obtain ⟨us, earlier, happens⟩ := run.made hu
  obtain ⟨x, a, y⟩ := u
  by_cases own : a.agent? = some b
  · obtain rfl : a = .agent b := by
      cases a with
      | agent agent => exact congrArg Action.agent (Option.some.inj own)
      | _ => cases own
    exact lawful_of_agent earlier (reliable _ hu) happens
  · exact lawful_of_others happens earlier.apart own

/-- What an agent has taken it has settled once each, or has in hand. -/
theorem Runs.takings_eq (run : Runs ts z)
    (reliable : ∀ u ∈ ts, u.before.system.host.faults.Reliable) (b : Agent) :
    takings ts b = (z.system.inHand? b).toList ++ (settlements ts b).map Prod.fst := by
  induction run with
  | start =>
    unfold takings settlements
    cases b <;> rfl
  | @next ts x y a run h ih =>
    have lawful := (Runs.next run h).lawful reliable List.mem_cons_self b
    have earlier := ih fun u hu => reliable u (List.mem_cons_of_mem _ hu)
    have balance := lawful.balance
    dsimp only at balance
    rw [takings_cons, settlements_cons, List.map_append, earlier, ← List.append_assoc, balance,
      List.append_assoc]

end Script

end ChangeDispatch
