import ChangeDispatch.Proofs.Garbage.Broker
import ChangeDispatch.Proofs.Run.Turns

/-!
# The steps of agents on hosts that match

Workers and consumers do the same on two hosts that match, and a listener does so whenever both
are about to receive and neither has garbage ahead. All that a listener does about garbage, on
one host only, is to drop it.
-/
namespace ChangeDispatch

variable {T : String} {P Q : Nat → Nat → Prop} {h h' : Host}

/-- The hosts match, perhaps with more messages. -/
def Host.Follows (T : String) (P : Nat → Nat → Prop) (h h' : Host) : Prop :=
  ∃ Q, P ≤ Q ∧ h.Matches T Q h'

theorem Host.Matches.follows (m : h.Matches T P h') : Follows T P h h' := ⟨P, le_refl P, m⟩

/-! ## Workers -/

namespace Worker

theorem matches_abandonRemaining (m : h.Matches T P h') (q : Queue) (w : Worker) :
    Host.Matches T P (abandonRemaining h q w).1 (abandonRemaining h' q w).1 ∧
      (abandonRemaining h' q w).2 = (abandonRemaining h q w).2 := by
  obtain ⟨journal, same⟩ := host_abandonRemaining h q w
  obtain ⟨journal', same'⟩ := host_abandonRemaining h' q w
  refine ⟨?_, rfl⟩
  rw [same, same']
  cases m with
  | intro broker => exact .intro broker

theorem follows_attempt (m : h.Matches T P h') (w : Worker) (job : Job) :
    Host.Follows T P (attempt h w job).1 (attempt h' w job).1 ∧
      (attempt h' w job).2 = (attempt h w job).2 := by
  obtain ⟨Q, sub, put⟩ := m.publish w.topic job.payload
  obtain ⟨answer, k, k', left, right, published⟩ := put.parts
  unfold attempt
  rw [left, right]
  cases published with
  | intro broker =>
    cases answer with
    | ok _ => exact ⟨⟨Q, sub, .intro broker⟩, rfl⟩
    | error e =>
      dsimp only
      split
      · exact ⟨⟨Q, sub, .intro broker⟩, rfl⟩
      · exact ⟨⟨Q, sub, .intro broker⟩, rfl⟩

/-- What a step of a worker makes of two hosts that match. -/
abbrev Steps (T : String) (P : Nat → Nat → Prop) (r r' : Host × Queue × Worker) : Prop :=
  Host.Follows T P r.1 r'.1 ∧ r'.2 = r.2

theorem follows_step? (m : h.Matches T P h') (q : Queue) (w : Worker) :
    Option.Rel (Steps T P) (w.step? h q) (w.step? h' q) := by
  unfold step?
  cases w.phase with
  | idle =>
    dsimp only
    split
    · have left := matches_abandonRemaining m q w
      exact .some ⟨left.1.follows, left.2⟩
    · split
      · exact .some ⟨m.follows, rfl⟩
      · split
        · exact .some ⟨m.follows, rfl⟩
        · exact .none
  | attempting job =>
    dsimp only
    rw [m.faults_eq]
    split
    · have tried := follows_attempt m w job
      exact .some ⟨tried.1, congrArg (Prod.mk q) tried.2⟩
    · cases m with
      | intro broker => exact .some ⟨⟨P, le_refl P, .intro broker⟩, rfl⟩
  | publishing job timer =>
    dsimp only
    rw [m.isDue_eq]
    split
    · have tried := follows_attempt m w job
      exact .some ⟨tried.1, congrArg (Prod.mk q) tried.2⟩
    · exact .none
  | resting job timer =>
    dsimp only
    rw [m.isDue_eq]
    split
    · have left := matches_abandonRemaining m q
        { w with stats := { w.stats with abandoned := w.stats.abandoned + 1 } }
      exact .some ⟨left.1.follows, left.2⟩
    · split
      · exact .some ⟨m.follows, rfl⟩
      · exact .none
  | ended => exact .none

end Worker

/-! ## Consumers -/

namespace Consumer

/-- Two phases with deliveries that match. -/
inductive Phase.Matches (P : Nat → Nat → Prop) : Phase → Phase → Prop where
  | ready : Matches P .ready .ready
  | waiting : Matches P .waiting .waiting
  | handling {d d' : Delivery} (message : Message) (timer : Timer) :
      d.Matches P d' → Matches P (.handling d message timer) (.handling d' message timer)
  | burying {d d' : Delivery} : d.Matches P d' → Matches P (.burying d) (.burying d')
  | publishing {d d' : Delivery} (timer : Timer) :
      d.Matches P d' → Matches P (.publishing d timer) (.publishing d' timer)
  | ended : Matches P .ended .ended

theorem Phase.Matches.mono {φ φ' : Phase} (sub : P ≤ Q) (m : φ.Matches P φ') :
    φ.Matches Q φ' := by
  cases m with
  | ready => exact .ready
  | waiting => exact .waiting
  | handling message timer hd => exact .handling message timer (hd.mono sub)
  | burying hd => exact .burying (hd.mono sub)
  | publishing timer hd => exact .publishing timer (hd.mono sub)
  | ended => exact .ended

theorem Phase.Matches.symm {φ φ' : Phase} (m : φ.Matches P φ') : φ'.Matches (flip P) φ := by
  cases m with
  | ready => exact .ready
  | waiting => exact .waiting
  | handling message timer hd => exact .handling message timer hd.symm
  | burying hd => exact .burying hd.symm
  | publishing timer hd => exact .publishing timer hd.symm
  | ended => exact .ended

/-- Two consumers that differ in the numbers of the messages in their hands. -/
inductive Matches (P : Nat → Nat → Prop) (k : Consumer) : Consumer → Prop where
  | intro {phase : Phase} : k.phase.Matches P phase → Matches P k { k with phase }

variable {k k' : Consumer} {d d' : Delivery}

theorem Matches.mono (sub : P ≤ Q) (m : k.Matches P k') : k.Matches Q k' := by
  cases m with
  | intro phase => exact .intro (phase.mono sub)

theorem Matches.symm (m : k.Matches P k') : k'.Matches (flip P) k := by
  cases m with
  | intro phase => exact .intro phase.symm

/-- What a step of a consumer makes of two hosts that match. -/
def Steps (T : String) (P : Nat → Nat → Prop) (r r' : Host × Consumer) : Prop :=
  ∃ Q, P ≤ Q ∧ r.1.Matches T Q r'.1 ∧ r.2.Matches Q r'.2

theorem matches_handBack (m : h.Matches T P h') (k : Consumer) (hd : d.Matches P d')
    (phase : Phase) :
    (handBack h k d).Matches T P (handBack h' { k with phase } d') :=
  (m.nack k.subscription hd ⟨0⟩).state.noteError _ _ _ _

theorem follows_bury (m : h.Matches T P h') (k : Consumer) (hd : d.Matches P d')
    (phase : Phase) : Host.Follows T P (bury h k d) (bury h' { k with phase } d') := by
  obtain ⟨Q, sub, put⟩ := m.publish k.policy.deadLetterTopic d.payload
  obtain ⟨answer, g, g', left, right, published⟩ := put.parts
  unfold bury
  rw [hd.payload]
  dsimp only
  rw [left, right]
  cases answer with
  | ok _ =>
    have acked := (published.ack k.subscription (hd.mono sub)).state
    exact ⟨Q, sub, acked.noteError _ _ _ _⟩
  | error e => exact ⟨Q, sub, matches_handBack (published.note _ _) k (hd.mono sub) phase⟩

theorem steps_conclude (m : h.Matches T P h') (k : Consumer) (hd : d.Matches P d')
    (phase : Phase) (answer : Except DispatchError Unit) :
    Steps T P (conclude h k d answer) (conclude h' { k with phase } d' answer) := by
  refine ⟨P, le_refl P, ?_⟩
  unfold conclude
  rw [hd.number]
  cases answer with
  | ok _ =>
    have acked := (m.ack k.subscription hd).state
    exact ⟨(acked.noteError _ _ _ _).note _ _, .intro .ready⟩
  | error e =>
    dsimp only
    split
    · exact ⟨m.note _ _, .intro (.burying hd)⟩
    · exact ⟨matches_handBack (m.note _ _) k hd phase, .intro .ready⟩

theorem steps_begin (m : h.Matches T P h') (k : Consumer) (hd : d.Matches P d')
    (phase : Phase) : Steps T P (begin h k d) (begin h' { k with phase } d') := by
  refine ⟨P, le_refl P, ?_⟩
  unfold begin
  rw [hd.payload]
  dsimp only
  split
  · exact ⟨m.note _ _, .intro (.burying hd)⟩
  · cases m with
    | intro broker => exact ⟨.intro broker, .intro (.handling _ _ hd)⟩

theorem steps_step? (m : h.Matches T P h') (mk : k.Matches P k')
    (clear : h.broker.Clear T k.subscription) (clear' : h'.broker.Clear T k.subscription) :
    Option.Rel (Steps T P) (k.step? h) (k'.step? h') := by
  cases mk with
  | @intro phase mφ =>
    have finished : ∀ (g : Host) (g' : Host), g.Matches T P g' →
        Steps T P (finish g k) (finish g' { k with phase }) := fun g g' mg =>
      ⟨P, le_refl P, mg.stopReceiving k.subscription, .intro .ended⟩
    have buried : ∀ {d d' : Delivery}, d.Matches P d' →
        Steps T P (bury h k d, { k with phase := .ready })
          (bury h' { k with phase } d', { k with phase := .ready }) := fun hd => by
      obtain ⟨Q, sub, same⟩ := follows_bury m k hd phase
      exact ⟨Q, sub, same, .intro .ready⟩
    unfold step?
    revert mφ
    generalize hφ : k.phase = φ
    intro mφ
    cases mφ with
    | ready =>
      dsimp only
      split
      · exact .some (finished h h' m)
      · obtain ⟨failure, g, g', left, right, begun⟩ := m.beginReceive.parts
        rw [left, right]
        cases failure with
        | none => exact .some ⟨P, le_refl P, begun, .intro .waiting⟩
        | some e =>
          refine .some ⟨P, le_refl P, begun.note _ _, .intro ?_⟩
          rw [hφ]
          exact .ready
    | waiting =>
      dsimp only
      split
      · exact .some (finished h h' m)
      · rw [m.broker.isEnded_eq clear clear']
        rcases rel_cases (m.take? clear clear') with ⟨left, right⟩ | ⟨p, p', left, right, taken⟩
        · rw [left, right]
          dsimp only
          split
          · exact .some (finished _ _ (m.note _ _))
          · exact .none
        · rw [left, right]
          exact .some (steps_begin taken.2 k taken.1 .waiting)
    | handling message timer hd =>
      dsimp only
      rw [m.isDue_eq]
      split
      · exact .some (steps_conclude m k hd _ _)
      · exact .none
    | burying hd =>
      dsimp only
      rw [m.faults_eq]
      split
      · exact .some (buried hd)
      · cases m with
        | intro broker => exact .some ⟨P, le_refl P, .intro broker, .intro (.publishing _ hd)⟩
    | publishing timer hd =>
      dsimp only
      rw [m.isDue_eq]
      split
      · exact .some (buried hd)
      · exact .none
    | ended => exact .none

end Consumer

/-! ## Listeners -/

/-- The phase, no matter whether a receive is under way or is about to start. -/
def Listener.Phase.merged : Phase → Phase
  | .ready => .waiting
  | φ => φ

theorem Listener.Phase.merged_eq {φ : Phase} (started : φ ≠ .ready) : φ.merged = φ := by
  cases φ with
  | ready => exact absurd rfl started
  | _ => rfl

namespace Correlator

/-- Two correlators that differ at most in whether the next receive has started. -/
inductive Matches (c : Correlator) : Correlator → Prop where
  | intro {phase : Listener.Phase} : phase.merged = c.phase.merged → Matches c { c with phase }

variable {c c' : Correlator} {d d' : Delivery}

namespace Matches

theorem refl (c : Correlator) : c.Matches c := .intro rfl

theorem symm (m : c.Matches c') : c'.Matches c := by
  cases m with
  | intro phase => exact .intro phase.symm

theorem stopping_eq (m : c.Matches c') : c'.stopping = c.stopping := by
  cases m
  rfl

theorem phase_eq (m : c.Matches c') : c'.phase.merged = c.phase.merged := by
  cases m
  assumption

theorem isEnded_eq (m : c.Matches c') : c'.isEnded = c.isEnded := by
  have ended : ∀ e : Correlator, e.isEnded = (e.phase.merged == .ended) := by
    intro e
    unfold isEnded
    cases e.phase <;> rfl
  rw [ended, ended, m.phase_eq]

/-- They are the same where neither is about to start a receive. -/
theorem eq_of_started (m : c.Matches c') (started : c.phase ≠ .ready)
    (started' : c'.phase ≠ .ready) : c' = c := by
  have same := m.phase_eq
  rw [Listener.Phase.merged_eq started, Listener.Phase.merged_eq started'] at same
  cases m with
  | intro _ =>
    obtain rfl := same
    rfl

/-- What has nothing to do with the phase is done to both. -/
theorem map (m : c.Matches c') {f : Correlator → Correlator}
    (apart : ∀ (e : Correlator) (phase : Listener.Phase),
      f { e with phase } = { f e with phase }) : (f c).Matches (f c') := by
  have kept := congrArg Correlator.phase (apart c c.phase)
  have same : (f c).phase = c.phase := kept
  cases m with
  | @intro phase merged =>
    rw [apart c phase]
    exact .intro (same.symm ▸ merged)

end Matches

/-- What a step of a listener makes of two hosts that match. -/
abbrev Steps (T : String) (P : Nat → Nat → Prop) (r r' : Host × Correlator) : Prop :=
  r.1.Matches T P r'.1 ∧ r'.2 = r.2

theorem matches_noteMismatch (m : h.Matches T P h') (workspace : String) (ack : AckEvent) :
    (noteMismatch h workspace ack).Matches T P (noteMismatch h' workspace ack) := by
  unfold noteMismatch
  split
  · exact m.note _ _
  · exact m

theorem matches_handBack (m : h.Matches T P h') (c : Correlator) (hd : d.Matches P d') :
    (handBack h c d).Matches T P (handBack h' c d') :=
  (m.nack c.subscription hd c.unmatchedDelay).state.noteError _ _ _ _

theorem steps_process (m : h.Matches T P h') (c : Correlator) (hd : d.Matches P d') :
    Steps T P (process h c d) (process h' c d') := by
  unfold process
  rw [hd.payload]
  split
  next e _ =>
    have noted := m.note (.ackUndecodable e d.payload.length) (.ackUndecodable e d.payload.length)
    exact ⟨(noted.terminate c.subscription hd).state.noteError _ _ _ _, rfl⟩
  next ack _ =>
    split
    next entry registry _ =>
      have acked := ((matches_noteMismatch m entry.workspace ack).ack c.subscription hd).state
      exact ⟨(acked.note _ _).noteError _ _ _ _, rfl⟩
    next entry registry _ =>
      exact ⟨matches_handBack (matches_noteMismatch m entry.workspace ack) c hd, rfl⟩
    next registry _ => exact ⟨matches_handBack m c hd, rfl⟩

theorem step?_of_stopping (told : c.stopping) (going : c.phase ≠ .ended) (h : Host) :
    c.step? h = some (finish h c) := by
  unfold step?
  cases hφ : c.phase with
  | ended => exact absurd hφ going
  | _ => exact if_pos told

/-- Listeners that are told to stop do so on both hosts, wherever they are. -/
theorem steps_stopping (m : h.Matches T P h') (mc : c.Matches c') (told : c.stopping) :
    Option.Rel (Steps T P) (c.step? h) (c'.step? h') := by
  have told' : c'.stopping := mc.stopping_eq ▸ told
  have same := mc.isEnded_eq
  by_cases ended : c.phase = .ended
  · have ended' : c'.phase = .ended := by
      rw [isEnded, isEnded, ended] at same
      exact eq_of_beq same
    unfold step?
    rw [ended, ended']
    exact .none
  · have going : c'.phase ≠ .ended := by
      intro ended'
      rw [isEnded, isEnded, ended'] at same
      exact ended (eq_of_beq same.symm)
    rw [step?_of_stopping told ended, step?_of_stopping told' going]
    cases mc with
    | intro _ => exact .some ⟨m.stopReceiving c.subscription, rfl⟩

/-- A listener with no garbage ahead does the same on both hosts. -/
theorem steps_step? (m : h.Matches T P h') (c : Correlator)
    (clear : c.phase = .waiting → c.stopping = false →
      h.broker.Clear T c.subscription ∧ h'.broker.Clear T c.subscription) :
    Option.Rel (Steps T P) (c.step? h) (c.step? h') := by
  by_cases told : c.stopping
  · exact steps_stopping m (.refl c) told
  · have going : c.stopping = false := by simpa using told
    unfold step?
    cases hφ : c.phase with
    | ready =>
      dsimp only
      rw [going, if_neg (by decide), if_neg (by decide)]
      obtain ⟨failure, g, g', left, right, begun⟩ := m.beginReceive.parts
      rw [left, right]
      cases failure with
      | none => exact .some ⟨begun, rfl⟩
      | some e =>
        cases begun with
        | intro broker => exact .some ⟨.intro broker, rfl⟩
    | waiting =>
      obtain ⟨ahead, ahead'⟩ := clear hφ going
      dsimp only
      rw [going, m.broker.isEnded_eq ahead ahead']
      simp only [Bool.false_eq_true, ↓reduceIte]
      rcases rel_cases (m.take? ahead ahead') with ⟨left, right⟩ | ⟨p, p', left, right, taken⟩
      · rw [left, right]
        dsimp only
        split
        · exact .some ⟨(m.note _ _).stopReceiving c.subscription, rfl⟩
        · exact .none
      · rw [left, right]
        have settled := steps_process taken.2 c taken.1
        exact .some ⟨settled.1,
          congrArg (fun e : Correlator => { e with phase := .ready }) settled.2⟩
    | pausing timer =>
      dsimp only
      rw [going, m.isDue_eq]
      simp only [Bool.false_eq_true, ↓reduceIte]
      split
      · exact .some ⟨m, rfl⟩
      · exact .none
    | ended => exact .none

/-! ### What only one listener does -/

/-- The start of a receive. -/
theorem step?_ready {c : Correlator} (ready : c.phase = .ready) (going : c.stopping = false)
    (works : h.broker.failReceives = 0) : c.step? h = some (h, { c with phase := .waiting }) := by
  unfold step? Host.beginReceive Broker.beginReceive
  rw [ready, works]
  dsimp only
  rw [going, if_neg (by decide)]

/-- Garbage that is taken from one of two hosts that match. -/
theorem step?_garbage (m : h.Matches T P h') (waiting : c.phase = .waiting)
    (going : c.stopping = false) {s : Subscription} {channel : List Delivery}
    (hs : h'.broker.subscriptions[c.subscription]? = some s) (hc : s.channel = d :: channel)
    (garbage : s.heeds T d = false) (rest : s.held = []) :
    ∃ k, c.step? h' = some (k, { c with phase := .ready }) ∧ h.Matches T P k ∧
      k.broker.subscriptions[c.subscription]? = some { s with channel } := by
  let b := h'.broker.adjust c.subscription fun _ => { s with channel, held := s.held ++ [d] }
  have taken : h'.take? c.subscription = some (d, { h' with broker := b }) := by
    unfold Host.take? Broker.take? Subscription.take?
    rw [hs]
    dsimp only [bind, Option.bind]
    rw [hc]
    rfl
  have unread : ∃ e, AckEvent.ofPayload d.payload = .error e := by
    have unreadable : AckEvent.canRead d.payload = false := by
      unfold Subscription.heeds at garbage
      exact (Bool.or_eq_false_iff.mp garbage).2
    unfold AckEvent.canRead at unreadable
    cases hp : AckEvent.ofPayload d.payload with
    | error e => exact ⟨e, rfl⟩
    | ok ack =>
      rw [hp] at unreadable
      cases unreadable
  obtain ⟨e, unread⟩ := unread
  have dropped := m.broker.drop_garbage hs hc garbage rest
  have gone : (b.discard c.subscription d).subscriptions[c.subscription]? =
      some { s with channel } := by
    change (List.modify (List.modify _ _ _) _ _)[_]? = _
    rw [List.getElem?_modify_eq, List.getElem?_modify_eq, hs]
    change some (Subscription.release { s with channel, held := s.held ++ [d] } d) = _
    rw [Subscription.release_taken rest]
  rw [step?_of_take? waiting going taken]
  unfold process
  rw [unread]
  refine ⟨_, rfl, ?_⟩
  unfold Host.terminate Host.settle
  cases m with
  | intro broker =>
    dsimp only
    split
    · exact ⟨.intro (dropped _), gone⟩
    · exact ⟨.intro (dropped _), gone⟩

end Correlator

end ChangeDispatch
