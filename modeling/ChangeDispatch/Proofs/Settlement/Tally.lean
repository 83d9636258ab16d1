import ChangeDispatch.Proofs.Wait.Settlement

/-!
# What the broker counts

The broker counts the settlements that have their effect. `Host.Counts` says which ones are
counted between two states of a host; each operation counts one settlement or none, and so
does each step of an agent. A connection on which settlements fail is left out here.
-/
namespace ChangeDispatch

/-- How a delivery is settled. -/
inductive Settlement where
  | acked
  | nacked
  | terminated
  deriving DecidableEq, Repr

/-- How many deliveries were settled in each way. -/
def Broker.tally (b : Broker) : Settlement → Nat
  | .acked => b.acked
  | .nacked => b.nacked
  | .terminated => b.terminated

/-- No settlement fails on the connection. -/
structure Faults.Reliable (f : Faults) : Prop where
  ack : f.failAck = false
  nack : f.failNack = false
  terminate : f.failTerminate = false

namespace Host

/-- Between two states of a host the broker has counted the settlements `ways`. -/
def Counts (ways : List Settlement) (h k : Host) : Prop :=
  ∀ w, k.broker.tally w = h.broker.tally w + ways.count w

namespace Counts

variable {h k l : Host} {ways more : List Settlement}

theorem of_tally_eq (same : k.broker.tally = h.broker.tally) : Counts [] h k :=
  fun w => congrFun same w

theorem of_broker_eq (same : k.broker = h.broker) : Counts [] h k :=
  of_tally_eq (congrArg Broker.tally same)

theorem trans (first : Counts ways h k) (second : Counts more k l) :
    Counts (ways ++ more) h l := by
  intro w
  rw [second w, first w, List.count_append, Nat.add_assoc]

theorem note (counts : Counts ways h k) (notice : Notice) : Counts ways h (k.note notice) := counts

theorem noteError (counts : Counts ways h k) {α : Type} (result : Except α Unit)
    (notice : α → Notice) : Counts ways h (k.noteError result notice) := by
  intro w
  rw [broker_noteError]
  exact counts w

theorem setTimer (counts : Counts ways h k) (delay : Nat) : Counts ways h (k.setTimer delay).2 :=
  counts

end Counts

theorem counts_refl (h : Host) : Counts [] h h := fun _ => rfl

variable (h : Host) (i : Nat) (d : Delivery)

/-- An ack is counted, unless the connection fails. -/
theorem counts_ack_cases :
    Counts (if h.faults.failAck then [] else [.acked]) h (h.ack i d).2 := by
  unfold Host.ack settle
  intro w
  split <;> cases w <;> rfl

theorem counts_ack (works : h.faults.failAck = false) : Counts [.acked] h (h.ack i d).2 := by
  have counts := h.counts_ack_cases i d
  rwa [works] at counts

theorem counts_terminate (works : h.faults.failTerminate = false) :
    Counts [.terminated] h (h.terminate i d).2 := by
  unfold Host.terminate settle
  rw [works]
  intro w
  cases w <;> rfl

theorem counts_nack (works : h.faults.failNack = false) (delay : Duration) :
    Counts [.nacked] h (h.nack i d delay).2 := by
  unfold Host.nack settle
  dsimp only [Host.setTimer]
  rw [works]
  intro w
  split <;> cases w <;> rfl

theorem counts_publish (topic : String) (payload : Payload) :
    Counts [] h (h.publish topic payload).2 := by
  unfold Host.publish Broker.publish
  by_cases closed : h.broker.closed
  · rw [if_pos closed]
    exact h.counts_refl
  · rw [if_neg closed]
    dsimp only
    cases h.broker.failPublishes <;> exact .of_tally_eq rfl

theorem faults_publish (topic : String) (payload : Payload) :
    (h.publish topic payload).2.faults = h.faults := rfl

theorem counts_beginReceive : Counts [] h h.beginReceive.2 := by
  unfold Host.beginReceive Broker.beginReceive
  cases h.broker.failReceives <;> exact .of_tally_eq rfl

theorem counts_stopReceiving : Counts [] h (h.stopReceiving i) :=
  .of_tally_eq rfl

theorem counts_take? {h k : Host} {i : Nat} {d : Delivery} (received : h.take? i = some (d, k)) :
    Counts [] h k ∧ k.faults = h.faults := by
  obtain ⟨s, channel, -, -, rfl⟩ := take?_eq_some received
  exact ⟨.of_tally_eq rfl, rfl⟩

theorem counts_subscribe (config : SubscriptionConfig) : Counts [] h (h.subscribe config).2 := by
  rcases h.subscribe_cases config with ⟨-, made⟩ | ⟨e, refused⟩
  · rw [made]
    exact .of_tally_eq rfl
  · rw [refused]
    exact h.counts_refl

theorem counts_close : Counts [] h h.close.2 :=
  .of_tally_eq rfl

end Host

open Host (Counts)

/-! ## Agents that receive nothing -/

namespace Worker

theorem counts_abandonRemaining (h : Host) (q : Queue) (w : Worker) :
    Counts [] h (abandonRemaining h q w).1 := by
  obtain ⟨journal, same⟩ := host_abandonRemaining h q w
  rw [same]
  exact .of_tally_eq rfl

theorem counts_attempt (h : Host) (w : Worker) (job : Job) : Counts [] h (attempt h w job).1 := by
  have published := h.counts_publish w.topic job.payload
  unfold attempt
  split
  next k hp =>
    rw [hp] at published
    exact published.note _
  next e k hp =>
    rw [hp] at published
    dsimp only
    split
    · exact (published.note _).setTimer w.retry.delay.ticks
    · exact (published.note _).note _

/-- A worker settles nothing. -/
theorem counts_of_step? {h k : Host} {q q' : Queue} {w w' : Worker}
    (hs : w.step? h q = some (k, q', w')) : Counts [] h k := by
  cases turn_of_step? hs with
  | abandoning _ _ => exact counts_abandonRemaining h q w
  | taking _ _ _ => exact h.counts_refl
  | ending _ _ _ _ => exact h.counts_refl
  | delaying _ _ => exact h.counts_refl.setTimer h.faults.publishDelay
  | attempting _ => exact counts_attempt h w _
  | interrupting _ _ => exact counts_abandonRemaining h q _
  | retrying _ _ _ => exact h.counts_refl

end Worker

/-- A call settles nothing. -/
theorem System.CallStep.counts {s u t : System} {n : Nat} {φ ψ : Call.Phase}
    (step : CallStep s n φ u ψ) (quiet : Quiet (u.setPhase n ψ) t) :
    Counts [] s.host t.host := by
  have same : u.host = s.host → Counts [] s.host t.host := fun hu =>
    .of_broker_eq (quiet.broker.trans (congrArg Host.broker hu))
  cases step with
  | @sent _ topic payload result _ _ =>
    have published := s.host.counts_publish topic payload
    exact published.trans (.of_broker_eq quiet.broker)
  | @stopped _ c next _ =>
    cases next with
    | none => exact same rfl
    | some i => exact s.host.counts_close.trans (.of_broker_eq quiet.broker)
  | moved _ _ => exact same rfl
  | registered _ _ _ => exact same rfl
  | invalid _ => exact same (UpToRegistries.letGo s _).host
  | refused _ _ => exact same (UpToRegistries.letGo s _).host
  | accepted _ _ _ => exact same rfl
  | blocked _ _ _ _ => exact same rfl
  | collected _ _ => exact same rfl
  | dismissed _ => exact same (UpToRegistries.letGo s _).host
  | withdrawn _ _ _ => exact same (UpToRegistries.letGo (s.adjustQueue _ _) _).host
  | answered _ _ => exact same rfl
  | waited _ _ => exact same rfl

/-! ## Listeners -/

namespace Correlator

/-- The delivery that a listener takes in its next step. -/
def taking? (h : Host) (c : Correlator) : Option Delivery :=
  if c.phase = .waiting ∧ c.stopping = false then (h.take? c.subscription).map Prod.fst else none

theorem taking?_eq {h : Host} {c : Correlator} (waiting : c.phase = .waiting)
    (going : c.stopping = false) : c.taking? h = (h.take? c.subscription).map Prod.fst :=
  if_pos ⟨waiting, going⟩

theorem taking?_eq_none {h : Host} {c : Correlator} (idle : c.phase ≠ .waiting ∨ c.stopping) :
    c.taking? h = none := by
  refine if_neg fun ⟨waiting, going⟩ => ?_
  rcases idle with elsewhere | told
  · exact elsewhere waiting
  · exact absurd (told.symm.trans going) (by decide)

/-- A listener settles a delivery once: it terminates what cannot be read, acks what goes into
a slot, and nacks what nobody waits for. -/
theorem counts_process {h : Host} (reliable : h.faults.Reliable) (c : Correlator) (d : Delivery) :
    ∃ way, Counts [way] h (process h c d).1 ∧
      (way = .terminated ↔ ∃ e, AckEvent.ofPayload d.payload = .error e) ∧
      (way = .acked ↔ ∃ ack entry r, AckEvent.ofPayload d.payload = .ok ack ∧
        c.registry.offer ack = (.taken entry, r)) := by
  have handedBack : ∀ {k : Host}, Counts [] h k → k.faults = h.faults →
      Counts [.nacked] h (handBack k c d) := fun counts faults =>
    (counts.trans (Host.counts_nack _ _ _ (faults ▸ reliable.nack) c.unmatchedDelay)).noteError _ _
  have noted : ∀ workspace ack, Counts [] h (noteMismatch h workspace ack) ∧
      (noteMismatch h workspace ack).faults = h.faults := fun workspace ack =>
    ⟨.of_broker_eq (broker_noteMismatch h workspace ack), faults_noteMismatch h workspace ack⟩
  unfold process
  cases decoded : AckEvent.ofPayload d.payload with
  | error e =>
    refine ⟨.terminated, ?_, by simp, by simp⟩
    have noted := h.counts_refl.note (.ackUndecodable e d.payload.length)
    exact (noted.trans (Host.counts_terminate _ c.subscription d reliable.terminate)).noteError _ _
  | ok ack =>
    dsimp only
    cases offered : c.registry.offer ack with
    | mk offer registry =>
      cases offer with
      | taken entry =>
        obtain ⟨counts, faults⟩ := noted entry.workspace ack
        refine ⟨.acked, ?_, by simp, by simp [offered]⟩
        have acked := counts.trans
          (Host.counts_ack _ c.subscription d (faults ▸ reliable.ack))
        exact (acked.note _).noteError _ _
      | missed entry =>
        obtain ⟨counts, faults⟩ := noted entry.workspace ack
        exact ⟨.nacked, handedBack counts faults, by simp, by simp [offered]⟩
      | unmatched => exact ⟨.nacked, handedBack h.counts_refl rfl, by simp, by simp [offered]⟩

/-- A listener settles what it takes in the step in which it takes it, and nothing else. -/
theorem counts_of_step? {h k : Host} {c c' : Correlator} (reliable : h.faults.Reliable)
    (hs : c.step? h = some (k, c')) :
    c.taking? h = none ∧ Counts [] h k ∨
      ∃ d l way, h.take? c.subscription = some (d, l) ∧ c.taking? h = some d ∧ Counts [way] h k ∧
        (way = .terminated ↔ ∃ e, AckEvent.ofPayload d.payload = .error e) ∧
        (way = .acked ↔ ∃ ack entry r, AckEvent.ofPayload d.payload = .ok ack ∧
          c.registry.offer ack = (.taken entry, r)) := by
  have begun := h.counts_beginReceive
  cases turn_of_step? hs with
  | stopping _ told => exact .inl ⟨taking?_eq_none (.inr told), h.counts_stopReceiving _⟩
  | asking ready _ asked =>
    rw [asked] at begun
    exact .inl ⟨taking?_eq_none (.inl (by simp [ready])), begun⟩
  | @pausing e _ ready _ refused =>
    rw [refused] at begun
    exact .inl ⟨taking?_eq_none (.inl (by simp [ready])),
      (begun.note (.ackReceiveFailed e)).setTimer Listener.receivePause⟩
  | @taking d l waiting going taken =>
    obtain ⟨counts, faults⟩ := Host.counts_take? taken
    obtain ⟨way, settled, terminated, acked⟩ := counts_process (faults ▸ reliable) c d
    exact .inr ⟨d, l, way, taken, by rw [taking?_eq waiting going, taken]; rfl,
      counts.trans settled, terminated, acked⟩
  | ending waiting going nothing _ =>
    exact .inl ⟨by rw [taking?_eq waiting going, nothing]; rfl,
      h.counts_refl.trans (Host.counts_stopReceiving _ _)⟩
  | resuming pausing _ _ =>
    exact .inl ⟨taking?_eq_none (.inl (by simp [pausing])), h.counts_refl⟩

end Correlator

/-! ## Consumers -/

namespace Consumer

/-- The delivery that a consumer takes in its next step. -/
def taking? (h : Host) (k : Consumer) : Option Delivery :=
  if k.phase = .waiting ∧ k.stopping = false then (h.take? k.subscription).map Prod.fst else none

theorem taking?_eq {h : Host} {k : Consumer} (waiting : k.phase = .waiting)
    (going : k.stopping = false) : k.taking? h = (h.take? k.subscription).map Prod.fst :=
  if_pos ⟨waiting, going⟩

theorem taking?_eq_none {h : Host} {k : Consumer} (idle : k.phase ≠ .waiting ∨ k.stopping) :
    k.taking? h = none := by
  refine if_neg fun ⟨waiting, going⟩ => ?_
  rcases idle with elsewhere | told
  · exact elsewhere waiting
  · exact absurd (told.symm.trans going) (by decide)

theorem counts_begin (h : Host) (k : Consumer) (d : Delivery) :
    Counts [] h (begin h k d).1 ∧ (begin h k d).2.phase.hand? = some d := by
  unfold begin
  split
  · exact ⟨h.counts_refl.note _, rfl⟩
  next message _ => exact ⟨h.counts_refl.setTimer (k.handler.duration k.seen.length message), rfl⟩

theorem counts_handBack {h : Host} (works : h.faults.failNack = false) (k : Consumer)
    (d : Delivery) : Counts [.nacked] h (handBack h k d) :=
  (h.counts_nack k.subscription d works ⟨0⟩).noteError _ _

/-- A message that is copied is acked, and one whose copy fails is nacked. -/
theorem counts_bury {h : Host} (reliable : h.faults.Reliable) (k : Consumer) (d : Delivery) :
    ∃ way, way ≠ .terminated ∧ Counts [way] h (bury h k d) := by
  have published := h.counts_publish k.policy.deadLetterTopic d.payload
  have faults := h.faults_publish k.policy.deadLetterTopic d.payload
  unfold bury
  split
  next l hp =>
    rw [hp] at published faults
    have acked := published.trans (l.counts_ack k.subscription d (faults ▸ reliable.ack))
    exact ⟨.acked, nofun, acked.noteError _ _⟩
  next e l hp =>
    rw [hp] at published faults
    exact ⟨.nacked, nofun,
      (published.note _).trans (counts_handBack (faults ▸ reliable.nack) k d)⟩

/-- What the handler was given stays in hand, to be copied, or it is settled. -/
theorem counts_conclude {h : Host} (reliable : h.faults.Reliable) (k : Consumer) (d : Delivery)
    (answer : Except DispatchError Unit) :
    (conclude h k d answer).2.phase.hand? = some d ∧ Counts [] h (conclude h k d answer).1 ∨
    (conclude h k d answer).2.phase.hand? = none ∧
      ∃ way, way ≠ .terminated ∧ Counts [way] h (conclude h k d answer).1 := by
  cases answer with
  | ok _ =>
    exact .inr ⟨rfl, .acked, nofun, ((h.counts_ack _ d reliable.ack).noteError _ _).note _⟩
  | error e =>
    unfold conclude
    dsimp only
    split
    · exact .inl ⟨rfl, h.counts_refl.note _⟩
    · have noted := h.counts_refl.note
        (.handlerFailed k.topic d.number k.policy.maxDeliveries e)
      exact .inr ⟨rfl, .nacked, nofun,
        noted.trans (counts_handBack (h := h.note _) reliable.nack k d)⟩

/-- A consumer settles what it has in hand when it lets go of it, and nothing else; what it
takes it has in hand. -/
theorem counts_of_step? {h l : Host} {k k' : Consumer} (reliable : h.faults.Reliable)
    (hs : k.step? h = some (l, k')) :
    (∃ d, k.taking? h = some d ∧ k.phase.hand? = none ∧ k'.phase.hand? = some d ∧
      Counts [] h l) ∨
    k.taking? h = none ∧ k'.phase.hand? = k.phase.hand? ∧ Counts [] h l ∨
    k.taking? h = none ∧ k'.phase.hand? = none ∧
      ∃ d way, k.phase.hand? = some d ∧ way ≠ .terminated ∧ Counts [way] h l := by
  have begun := h.counts_beginReceive
  cases turn_of_step? hs with
  | stopping phase told =>
    have hand : k.phase.hand? = none := by rcases phase with phase | phase <;> rw [phase] <;> rfl
    exact .inr (.inl ⟨taking?_eq_none (.inr told), hand.symm, h.counts_stopReceiving _⟩)
  | asking ready _ asked =>
    rw [asked] at begun
    exact .inr (.inl ⟨taking?_eq_none (.inl (by simp [ready])), by rw [ready]; rfl, begun⟩)
  | failing ready _ refused =>
    rw [refused] at begun
    exact .inr (.inl ⟨taking?_eq_none (.inl (by simp [ready])), rfl, begun.note _⟩)
  | @taking d m waiting going taken =>
    obtain ⟨counts, -⟩ := Host.counts_take? taken
    obtain ⟨began, hand⟩ := counts_begin m k d
    exact .inl ⟨d, by rw [taking?_eq waiting going, taken]; rfl, by rw [waiting]; rfl, hand,
      counts.trans began⟩
  | ending waiting going nothing _ =>
    refine .inr (.inl ⟨by rw [taking?_eq waiting going, nothing]; rfl, by rw [waiting]; rfl, ?_⟩)
    exact (h.counts_refl.note _).trans (Host.counts_stopReceiving _ _)
  | @concluding d message timer phase _ =>
    have idle : k.taking? h = none := taking?_eq_none (.inl (by simp [phase]))
    have hand : k.phase.hand? = some d := by rw [phase]; rfl
    rcases counts_conclude reliable k d (k.handler.answer (k.seen.length - 1) message) with
      ⟨kept, counts⟩ | ⟨none, way, unterminated, counts⟩
    · exact .inr (.inl ⟨idle, kept.trans hand.symm, counts⟩)
    · exact .inr (.inr ⟨idle, none, d, way, hand, unterminated, counts⟩)
  | delaying phase _ =>
    exact .inr (.inl ⟨taking?_eq_none (.inl (by simp [phase])), by rw [phase]; rfl,
      h.counts_refl.setTimer h.faults.publishDelay⟩)
  | @burying d buries =>
    obtain ⟨way, unterminated, counts⟩ := counts_bury reliable k d
    have idle : k.phase ≠ .waiting ∧ k.phase.hand? = some d := by
      rcases buries with ⟨phase, -⟩ | ⟨timer, phase, -⟩ <;> rw [phase] <;> exact ⟨nofun, rfl⟩
    exact .inr (.inr ⟨taking?_eq_none (.inl idle.1), rfl, d, way, idle.2, unterminated, counts⟩)

end Consumer

end ChangeDispatch
