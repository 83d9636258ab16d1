import ChangeDispatch.Proofs.Run.Pieces
import ChangeDispatch.Proofs.Settlement.Tally

/-!
# A caller that receives nothing settles nothing

A caller can settle only the deliveries that it has received itself. As long as it receives
none, no step of a script is counted by the broker as a settlement.
-/
namespace ChangeDispatch

open Host (Counts)

namespace System

theorem broker_abortCall (s : System) (n : Nat) : (s.abortCall n).host.broker = s.host.broker := by
  cases hc : s.calls[n]? with
  | none =>
    unfold abortCall
    rw [hc]
  | some c =>
    cases running : c.isRunning with
    | true =>
      have host := (UpToRegistries.forsake s n c.phase).host
      exact (quiet_abortCall hc running).broker.trans (congrArg Host.broker host)
    | false =>
      unfold abortCall
      rw [hc]
      dsimp only
      rw [running]
      rfl

theorem counts_of_piece {may : Part → Bool} (apart : may .deliveries = false) {h k : Host}
    (piece : h.Piece may k) : Counts [] h k := by
  cases piece with
  | set | injected => exact .of_tally_eq rfl
  | noted notice => exact h.counts_refl.note notice
  | closed => exact h.counts_close
  | subscribed config => exact h.counts_subscribe config
  | stopped i => exact h.counts_stopReceiving i
  | begun touched => cases apart.symm.trans touched
  | taken touched _ => cases apart.symm.trans touched
  | released _ _ touched => cases apart.symm.trans touched
  | acked _ _ touched => cases apart.symm.trans touched
  | nacked _ _ _ touched => cases apart.symm.trans touched
  | terminated _ _ touched => cases apart.symm.trans touched

theorem counts_of_pieces {may : Part → Bool} (apart : may .deliveries = false) {s t : System}
    (pieces : s.Pieces may t) : Counts [] s.host t.host := by
  induction pieces with
  | refl => exact s.host.counts_refl
  | @tail t u _ piece ih =>
    refine ih.trans ?_
    cases piece with
    | onHost piece => exact counts_of_piece apart piece
    | droppedPublisher i => exact .of_broker_eq (t.quiet_dropPublisher i).broker
    | droppedCorrelator i => exact .of_broker_eq (t.quiet_dropCorrelator i).broker
    | registered i event =>
      exact .of_broker_eq (congrArg Host.broker (UpToRegistries.register t i event).host)
    | aborted n _ _ => exact .of_broker_eq (t.broker_abortCall n)
    | _ => exact t.host.counts_refl

end System

namespace Script.Session

variable {x y z : Session}

/-- Nothing is settled, and the deliveries that the caller holds stay. -/
structure Unsettled (x y : Session) : Prop where
  counts : Counts [] x.system.host y.system.host
  deliveries : y.deliveries = x.deliveries

namespace Unsettled

theorem of_broker_eq (same : y.system.host.broker = x.system.host.broker)
    (deliveries : y.deliveries = x.deliveries) : Unsettled x y :=
  ⟨.of_broker_eq same, deliveries⟩

@[refl] theorem refl (x : Session) : Unsettled x x := of_broker_eq rfl rfl

theorem trans (first : Unsettled x y) (second : Unsettled y z) : Unsettled x z :=
  ⟨first.counts.trans second.counts, second.deliveries.trans first.deliveries⟩

end Unsettled

/-! ## Steps of a script -/

/-- Who holds no delivery settles none. -/
theorem unsettled_settle (none : x.deliveries = []) (delivery : String)
    (act : Host → Nat → Delivery → Except TransportError Unit × Host) :
    Unsettled x (x.settle delivery act).2 := by
  unfold settle
  rw [none]
  exact .refl x

theorem unsettled_dropDelivery (none : x.deliveries = []) (id : String) :
    Unsettled x (x.dropDelivery id) := by
  unfold dropDelivery
  rw [none]
  exact .refl x

/-- What touches no delivery settles none. -/
theorem unsettled_of_made {may : Part → Bool} (apart : may .deliveries = false)
    (made : Made may x y) : Unsettled x y :=
  ⟨System.counts_of_pieces apart made.system, made.deliveries (by simp [apart])⟩

/-- Every step of a script but a receive, while the caller holds no delivery. -/
theorem unsettled_perform {step : Step} (allowed : x.allows step) (none : x.deliveries = [])
    (received : ∀ subscription delivery, step ≠ .receive subscription delivery) :
    Unsettled x (x.perform step).2 := by
  cases touches : step.touches .deliveries with
  | false => exact unsettled_of_made touches (x.made_perform allowed)
  | true =>
    cases step with
    | receive subscription delivery => exact absurd rfl (received subscription delivery)
    | ack delivery => exact unsettled_settle none delivery _
    | nack delivery delay => exact unsettled_settle none delivery _
    | terminate delivery => exact unsettled_settle none delivery _
    | drop kind id =>
      cases kind with
      | delivery => exact unsettled_dropDelivery none id
      | _ => cases touches
    | _ => cases touches

/-- Every action but a receive and the step of an agent, while the caller holds no delivery. -/
theorem unsettled_of_after? {a : Action} (h : x.after? a = some y) (none : x.deliveries = [])
    (received : ∀ subscription delivery, a ≠ .perform (.receive subscription delivery))
    (outside : ∀ agent, a ≠ .agent agent) : Unsettled x y := by
  cases a with
  | perform step =>
    unfold after? at h
    dsimp only at h
    split at h
    next allowed =>
      obtain rfl := Option.some.inj h
      exact unsettled_perform allowed none fun s d he => received s d (congrArg _ he)
    next => cases h
  | serve id topic name policy handler =>
    have made : Made (fun _ => false) x _ := x.made_serve id topic name policy handler
    exact Option.some.inj h ▸ unsettled_of_made rfl made
  | agent agent => exact absurd rfl (outside agent)
  | tick moment =>
    unfold after? at h
    dsimp only at h
    split at h
    next => exact Option.some.inj h ▸ .of_broker_eq rfl rfl
    next => cases h
  | report => exact Option.some.inj h ▸ .of_broker_eq rfl rfl

end Script.Session

end ChangeDispatch
