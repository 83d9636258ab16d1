import ChangeDispatch.Proofs.Garbage.Steps
import ChangeDispatch.Proofs.Wait.Routing

/-!
# Actions that have to do with garbage only

On the topic of a session's garbage an action is idle if it puts a payload there that cannot be
read, or if it is a step in which a listener drops such a payload or starts its next receive. A
session keeps matching another one through idle actions of its own. All other actions happen in
both or in neither, once the listener in question has made its idle steps.
-/
namespace ChangeDispatch

open List (Forall₂)

variable {T : String} {P Q : Nat → Nat → Prop}

/-! ## The steps of agents in systems that match -/

namespace System.Matches

variable {s s' : System}

theorem step?_worker (m : s.Matches T P s') (i : Nat) :
    Option.Rel (Follows T P) ((Agent.worker i).step? s) ((Agent.worker i).step? s') := by
  cases m with
  | intro hosts hc hk =>
    unfold Agent.step?
    dsimp only [bind, Option.bind]
    cases s.publishers[i]? with
    | none => exact .none
    | some p =>
      dsimp only
      cases s.queues[p.queue]? with
      | none => exact .none
      | some q =>
        dsimp only
        rcases rel_cases (Worker.follows_step? hosts q p.worker) with
          ⟨left, right⟩ | ⟨⟨h, out⟩, ⟨h', out'⟩, left, right, ⟨Q, sub, hh⟩, same⟩
        · rw [left, right]
          exact .none
        · cases same
          rw [left, right]
          exact .some ⟨Q, sub, .intro hh hc (hk.imp fun _ _ => .mono sub)⟩

theorem step?_consumer (m : s.Matches T P s') (i : Nat)
    (avoids : ∀ k ∈ s.consumers, ∀ u, s.host.broker.subscriptions[k.subscription]? = some u →
      u.topic ≠ T) :
    Option.Rel (Follows T P) ((Agent.consumer i).step? s) ((Agent.consumer i).step? s') := by
  unfold Agent.step?
  dsimp only [bind, Option.bind]
  rcases rel_cases (rel_getElem? m.consumers i) with ⟨left, right⟩ | ⟨k, k', left, right, mk⟩
  · rw [left, right]
    exact .none
  · rw [left, right]
    obtain ⟨clear, clear'⟩ :=
      m.host.broker.clear_of_ne (avoids k (List.mem_of_getElem? left))
    dsimp only
    rcases rel_cases (Consumer.steps_step? m.host mk clear clear') with
      ⟨left, right⟩ | ⟨⟨h, l⟩, ⟨h', l'⟩, left, right, Q, sub, hh, hl⟩
    · rw [left, right]
      exact .none
    · rw [left, right]
      exact .some ⟨Q, sub, (m.withHost sub hh).adjustConsumer i fun _ _ _ => hl⟩

theorem step?_redelivery (m : s.Matches T P s') (i serial : Nat) :
    Option.Rel (Follows T P) ((Agent.redelivery i serial).step? s)
      ((Agent.redelivery i serial).step? s') := by
  unfold Agent.step?
  dsimp only [bind, Option.bind]
  rcases rel_cases (m.host.broker.delayed? i serial) with
    ⟨left, right⟩ | ⟨e, e', left, right, he⟩
  · rw [left, right]
    exact .none
  · rw [left, right]
    dsimp only
    rw [he.timer, m.host.isDue_eq]
    split
    · exact .some (m.onHost (m.host.withBroker (m.host.broker.offerDelayed i he))).follows
    · exact .none

/-- The steps of all agents but listeners. -/
theorem step?_others (m : s.Matches T P s')
    (avoids : ∀ k ∈ s.consumers, ∀ u, s.host.broker.subscriptions[k.subscription]? = some u →
      u.topic ≠ T) {a : Agent} (others : ∀ c, a ≠ .listener c) :
    Option.Rel (Follows T P) (a.step? s) (a.step? s') := by
  cases a with
  | worker i => exact m.step?_worker i
  | listener c => exact absurd rfl (others c)
  | consumer i => exact m.step?_consumer i avoids
  | call n => exact m.stepCall? n
  | redelivery i serial => exact m.step?_redelivery i serial

theorem step?_listener (m : s.Matches T P s') {c : Nat} {co co' : Correlator}
    (hc : s.correlators[c]? = some co) (hc' : s'.correlators[c]? = some co')
    (steps : Option.Rel (Correlator.Steps T P) (co.step? s.host) (co'.step? s'.host)) :
    Option.Rel (System.Matches T P) ((Agent.listener c).step? s)
      ((Agent.listener c).step? s') := by
  unfold Agent.step?
  dsimp only [bind, Option.bind]
  rw [hc, hc']
  dsimp only
  rcases rel_cases steps with ⟨left, right⟩ | ⟨⟨h, e⟩, ⟨h', e'⟩, left, right, hh, same⟩
  · rw [left, right]
    exact .none
  · rw [left, right]
    cases same
    exact .some ((m.onHost hh).adjustCorrelator c fun _ _ _ => .refl e)

/-- A step of one listener only, with its phase changed at most from one side of the start of a
receive to the other. -/
theorem step?_alone (m : s.Matches T P s') {c : Nat} {co : Correlator} {phase : Listener.Phase}
    {k : Host} (hc : s'.correlators[c]? = some co)
    (hk : s.host.Matches T P k) (kept : phase.merged = co.phase.merged) :
    s.Matches T P ({ s' with host := k }.adjustCorrelator c fun _ => { co with phase }) := by
  cases m with
  | intro _ each consumers =>
    refine .intro hk (forall₂_modify_right each fun e f hf same => ?_) consumers
    obtain rfl := Option.some.inj (hc.symm.trans hf)
    cases same with
    | intro merged => exact .intro (kept.trans merged)

end System.Matches

namespace Script

/-! ## Idle actions -/

namespace Session

/-- The next that the listener of a correlator does is to drop garbage or to start a receive. -/
def idles (T : String) (x : Session) (c : Nat) : Bool :=
  (x.system.correlators[c]?).any fun co => !co.stopping && (co.phase == .ready ||
    co.phase == .waiting && (x.system.host.broker.subscriptions[co.subscription]?).any fun s =>
      (s.channel.head?).any fun d => !s.heeds T d)

/-- How far the listener of a correlator is from the end of its channel. -/
def lag (x : Session) (c : Nat) : Nat :=
  (x.system.correlators[c]?).elim 0 fun co =>
    2 * (x.system.host.broker.subscriptions[co.subscription]?).elim 0 (·.channel.length) +
      if co.phase = .ready then 1 else 0

variable {x x' y' : Session} {c : Nat} {co : Correlator}

theorem idles_of_ready (hc : x.system.correlators[c]? = some co) (ready : co.phase = .ready)
    (going : co.stopping = false) : x.idles T c := by
  simp [idles, hc, ready, going]

/-- Who waits, and is not told to stop, has no garbage ahead or drops it. -/
theorem clear_of_not_idles (hc : x.system.correlators[c]? = some co) (waiting : co.phase = .waiting)
    (going : co.stopping = false) (busy : x.idles T c = false) :
    x.system.host.broker.Clear T co.subscription := by
  intro s hs d channel channel_eq
  simpa [idles, hc, waiting, going, hs, channel_eq] using busy

theorem idles_cases (idle : x.idles T c) :
    ∃ co, x.system.correlators[c]? = some co ∧ co.stopping = false ∧
      (co.phase = .ready ∨ co.phase = .waiting ∧ ∃ s d channel,
        x.system.host.broker.subscriptions[co.subscription]? = some s ∧
          s.channel = d :: channel ∧ s.heeds T d = false) := by
  obtain ⟨co, hc, does⟩ := (Option.any_eq_true _ _).mp idle
  obtain ⟨going, way⟩ := (Bool.and_eq_true _ _).mp does
  refine ⟨co, hc, by simpa using going, ?_⟩
  rcases (Bool.or_eq_true _ _).mp way with ready | waits
  · exact .inl (eq_of_beq ready)
  · obtain ⟨waiting, drops⟩ := (Bool.and_eq_true _ _).mp waits
    obtain ⟨s, hs, drops⟩ := (Option.any_eq_true _ _).mp drops
    obtain ⟨d, hd, garbage⟩ := (Option.any_eq_true _ _).mp drops
    obtain ⟨channel, hchannel⟩ := List.head?_eq_some_iff.mp hd
    exact .inr ⟨eq_of_beq waiting, s, d, channel, hs, hchannel, by simpa using garbage⟩

end Session

/-- The action has to do with garbage on the topic only. -/
def Transition.isIdle (T : String) (t : Transition) : Bool :=
  match t.action with
  | .perform (.inject topic payload) => topic == T && !AckEvent.canRead payload
  | .agent (.listener c) => t.before.idles T c
  | _ => false

/-! ## What matches before matches afterwards -/

namespace Session.Matches

variable {x x' y y' : Session} {a : Action} {c : Nat}

/-- The idle step of a listener in one of the sessions. -/
theorem idle_listener (m : x.Matches T P x') (idle : x'.idles T c)
    (works : x.system.host.broker.failReceives = 0)
    (settled : ∀ co s, x'.system.correlators[c]? = some co →
      x'.system.host.broker.subscriptions[co.subscription]? = some s → s.held = []) :
    ∃ y', x'.after? (.agent (.listener c)) = some y' ∧ x.Matches T P y' ∧
      y'.lag c < x'.lag c := by
  obtain ⟨co, hc, going, way⟩ := idles_cases idle
  have stepped : ∀ {k : Host} {phase : Listener.Phase},
      co.step? x'.system.host = some (k, { co with phase }) →
      x.system.host.Matches T P k → phase.merged = co.phase.merged →
      2 * (k.broker.subscriptions[co.subscription]?).elim 0 (·.channel.length) +
        (if phase = .ready then 1 else 0) < x'.lag c →
      ∃ y', x'.after? (.agent (.listener c)) = some y' ∧ x.Matches T P y' ∧
        y'.lag c < x'.lag c := by
    intro k phase hs hk kept nearer
    let s := { x'.system with host := k }.adjustCorrelator c fun _ => { co with phase }
    have found : s.correlators[c]? = some { co with phase } := by
      change (List.modify _ _ _)[c]? = _
      rw [List.getElem?_modify_eq, hc]
      rfl
    refine ⟨{ x' with system := s }, ?_, ?_, ?_⟩
    · unfold Session.after? Agent.step?
      dsimp only [bind, Option.bind]
      rw [hc]
      dsimp only
      rw [hs]
      rfl
    · have moved := m.system.step?_alone hc hk kept
      cases m with
      | intro _ held => exact .intro moved held
    · unfold lag at nearer ⊢
      dsimp only at nearer ⊢
      rw [found]
      exact nearer
  have before : x'.lag c =
      2 * (x'.system.host.broker.subscriptions[co.subscription]?).elim 0 (·.channel.length) +
        if co.phase = .ready then 1 else 0 := by
    unfold lag
    rw [hc]
    rfl
  rcases way with ready | ⟨waiting, s, d, channel, hs, channel_eq, garbage⟩
  · have works' := m.system.host.broker.failReceives_eq.trans works
    refine stepped (Correlator.step?_ready ready going works') m.system.host ?_ ?_
    · rw [ready]
      rfl
    · rw [before, ready]
      exact Nat.lt_succ_self _
  · obtain ⟨k, hk, same, rest⟩ := Correlator.step?_garbage m.system.host waiting going hs channel_eq
      garbage (settled co s hc hs)
    refine stepped hk same ?_ ?_
    · rw [waiting]
      rfl
    · rw [before, rest, hs, waiting]
      dsimp only [Option.elim]
      rw [channel_eq, List.length_cons, if_pos rfl, if_neg (by decide)]
      omega

/-- Garbage that is put in one of the sessions. -/
theorem idle_inject (m : x.Matches T P x') {payload : Payload}
    (garbage : AckEvent.canRead payload = false) :
    x.Matches T P (x'.onBroker fun b => b.fanOut T payload) := by
  have put := m.system.host.withBroker (m.system.host.broker.fanOut_garbage garbage)
  have moved := m.system.onHost put
  cases m with
  | intro _ held => exact .intro moved held

/-- A call can be given up in both sessions or in none. -/
theorem abortable_eq (m : x.Matches T P x') (n : Nat) :
    x'.allows (.abort n) = x.allows (.abort n) := by
  unfold Session.allows
  dsimp only
  rw [m.running_eq]
  cases x.running.lookup n with
  | none => rfl
  | some call =>
    dsimp only [Option.all]
    unfold System.canStep Agent.step?
    dsimp only
    rcases rel_cases (m.system.stepCall? call) with ⟨left, right⟩ | ⟨_, _, left, right, _⟩
    · rw [left, right]
    · rw [left, right]
      rfl

theorem counted (m : x.Matches T P x') : x.counted.Matches T P x'.counted := by
  cases m with
  | intro ms held =>
    cases ms with
    | intro hh hc hk => exact .intro (.intro hh hc hk) held

/-- A step of a listener that is idle in neither session. -/
theorem after?_listener (m : x.Matches T P x') (busy : x.idles T c = false)
    (busy' : x'.idles T c = false) :
    Option.Rel (Session.Matches T P) (x.after? (.agent (.listener c)))
      (x'.after? (.agent (.listener c))) := by
  have steps : Option.Rel (System.Matches T P) ((Agent.listener c).step? x.system)
      ((Agent.listener c).step? x'.system) := by
    rcases rel_cases (rel_getElem? m.system.correlators c) with
      ⟨left, right⟩ | ⟨co, co', hc, hc', mc⟩
    · unfold Agent.step?
      dsimp only [bind, Option.bind]
      rw [left, right]
      exact .none
    · by_cases told : co.stopping
      · exact m.system.step?_listener hc hc' (Correlator.steps_stopping m.system.host mc told)
      · have going : co.stopping = false := by simpa using told
        have going' : co'.stopping = false := mc.stopping_eq.trans going
        have started : co.phase ≠ .ready := fun ready => by
          rw [idles_of_ready hc ready going] at busy
          cases busy
        have started' : co'.phase ≠ .ready := fun ready => by
          rw [idles_of_ready hc' ready going'] at busy'
          cases busy'
        obtain rfl : co' = co := mc.eq_of_started started started'
        refine m.system.step?_listener hc hc' (Correlator.steps_step? m.system.host co' ?_)
        intro waiting going
        exact ⟨clear_of_not_idles hc waiting going busy,
          clear_of_not_idles hc' waiting going busy'⟩
  unfold Session.after?
  dsimp only
  rcases rel_cases steps with ⟨left, right⟩ | ⟨s, s', left, right, same⟩
  · rw [left, right]
    exact .none
  · rw [left, right]
    exact .some (m.withSystem (le_refl P) same)

/-- A tick, a report, or anything else that no listener does. -/
theorem after?_others (m : x.Matches T P x') (avoids : x.Avoids T)
    (others : ∀ c, a ≠ .agent (.listener c)) :
    Option.Rel (Session.Follows T P) (x.after? a) (x'.after? a) := by
  cases a with
  | perform step =>
    have allowed : x'.allows step = x.allows step := by
      cases step with
      | abort n => exact m.abortable_eq n
      | _ => rfl
    unfold Session.after?
    dsimp only
    rw [allowed]
    split
    next prompt =>
      refine .some (m.perform avoids ?_).session
      rintro ms rfl
      cases prompt
    next => exact .none
  | serve id topic name policy handler =>
    exact .some (m.serve id topic name policy handler).follows
  | agent agent =>
    have steps := m.system.step?_others avoids.consumers (a := agent) fun c he =>
      others c (congrArg Action.agent he)
    unfold Session.after?
    dsimp only
    rcases rel_cases steps with ⟨left, right⟩ | ⟨s, s', left, right, Q, sub, same⟩
    · rw [left, right]
      exact .none
    · rw [left, right]
      exact .some ⟨Q, sub, m.withSystem sub same⟩
  | tick moment =>
    unfold Session.after?
    dsimp only
    rw [m.system.host.now_eq]
    split
    · exact .some (m.onSystem (m.system.atMoment moment)).follows
    · exact .none
  | report => exact .some m.counted.follows

end Session.Matches

end Script

end ChangeDispatch
