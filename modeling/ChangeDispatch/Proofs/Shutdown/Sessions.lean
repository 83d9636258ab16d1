import ChangeDispatch.Proofs.Run.Pieces
import ChangeDispatch.Proofs.Shutdown.Onward

/-!
# Every session goes onward

Whatever a script does, nothing that was stopped, closed or ended goes on again. So what was
found closed once in a run is closed at its end.
-/
namespace ChangeDispatch

namespace System

variable (s : System)

/-! ## Making and dropping parts -/

theorem onward_addQueue (q : Queue) : s.Onward (s.addQueue q).2 where
  host := .refl _
  queues := .append .refl _ _
  correlators := .refl .refl _
  publishers := .refl .refl _
  staffed hs := ⟨hs.sound, hs.worker, hs.listener, hs.correlator⟩

theorem onward_addCorrelator (subscription : Nat) (timeout unmatchedDelay : Duration) :
    s.Onward (s.addCorrelator subscription timeout unmatchedDelay).2 where
  host := .refl _
  queues := .refl .refl _
  correlators := .append .refl _ _
  publishers := .refl .refl _
  staffed hs := by
    refine ⟨hs.sound, fun i hi => List.mem_append_left _ (hs.worker i hi), fun c hc => ?_,
      fun p hp => ?_⟩
    · rcases Nat.lt_succ_iff_lt_or_eq.mp
        (Nat.lt_of_lt_of_eq hc (List.length_append.trans rfl)) with old | rfl
      · exact List.mem_append_left _ (hs.listener c old)
      · exact List.mem_append_right _ List.mem_cons_self
    · exact Nat.lt_of_lt_of_le (hs.correlator p hp) (by simp [addCorrelator])

theorem onward_addPublisher (config : DispatchConfig) (subscription : Nat) :
    s.Onward (s.addPublisher config subscription).2 := by
  let queued := (s.addQueue (.ofCapacity config.queueCapacity config.enqueueTimeout)).2
  let manned := { queued with started := queued.started ++ [Agent.worker s.publishers.length] }
  let linked := (manned.addCorrelator subscription config.ackTimeout config.unmatchedAckDelay).2
  have onward : s.Onward linked := by
    have filled : s.Onward queued := s.onward_addQueue _
    have joined : queued.Onward manned :=
      .of_host (.refl _) rfl rfl rfl (List.subset_append_left _ _)
    exact (filled.trans joined).trans (manned.onward_addCorrelator _ _ _)
  refine { onward with publishers := .append .refl _ _, staffed := fun hs => ?_ }
  obtain ⟨sound, worker, listener, correlator⟩ := onward.staffed hs
  refine ⟨fun p hp => ?_, fun i hi => ?_, listener, fun p hp => ?_⟩
  · rcases List.mem_append.mp hp with old | new
    · exact sound p old
    · rw [List.mem_singleton.mp new]
      exact ⟨.inr rfl, fun _ => rfl⟩
  · rcases Nat.lt_succ_iff_lt_or_eq.mp
      (Nat.lt_of_lt_of_eq hi (List.length_append.trans rfl)) with old | rfl
    · exact worker i old
    · exact List.mem_append_left _ (List.mem_append_right _ List.mem_cons_self)
  · rcases List.mem_append.mp hp with old | new
    · exact correlator p old
    · rw [List.mem_singleton.mp new]
      exact Nat.lt_of_lt_of_eq (Nat.lt_succ_self _)
        (by simp [addPublisher, addCorrelator, addQueue])

theorem onward_startCall (owner : Owner) (φ : Call.Phase) : s.Onward (s.startCall owner φ).2 :=
  .of_host (.refl _) rfl rfl rfl (List.subset_append_left _ _)

theorem onward_withdraw (n queue : Nat) : s.Onward (s.adjustQueue queue fun q => q.withdraw n) :=
  s.onward_queue fun _ _ => .of_eq rfl rfl

theorem onward_abortCall (n : Nat) : s.Onward (s.abortCall n) := by
  unfold abortCall
  split
  · exact .refl s
  next c _ =>
    split
    · exact .refl s
    · refine Onward.trans ?_ (onward_releaseOwner _ _)
      refine Onward.trans ?_ (onward_setPhase _ n _)
      cases c.phase with
      | inLine queue event timer next =>
        cases next with
        | none => exact s.onward_withdraw n queue
        | some handle => exact (s.onward_releaseWaiter handle).trans (onward_withdraw _ n queue)
      | enqueuing queue event next =>
        cases next with
        | none => exact .refl s
        | some handle => exact s.onward_releaseWaiter handle
      | awaiting handle token => exact s.onward_releaseWaiter handle
      | waiting handle token timer => exact s.onward_releaseWaiter handle
      | _ => exact .refl s

theorem onward_dropPublisher (i : Nat) : s.Onward (s.dropPublisher i) := by
  refine Onward.trans ?_ (onward_releasePublisher _ i)
  exact s.onward_publisher fun _ _ => ⟨rfl, rfl, rfl, id, id, .refl _⟩

theorem onward_dropCorrelator (c : Nat) : s.Onward (s.dropCorrelator c) := by
  refine Onward.trans ?_ (onward_releaseCorrelator _ c)
  exact s.onward_correlator fun _ _ => ⟨id, id, id⟩

theorem onward_dropQueue (j : Nat) : s.Onward (s.dropQueue j) :=
  s.onward_queue fun q _ => (Queue.Onward.closed q).trans (.stopped _)

theorem onward_dropReceiver (j : Nat) : s.Onward (s.dropReceiver j) :=
  s.onward_queue fun q _ => .stopped q

/-! ## The pieces of a step -/

theorem rests_of_piece {may : Part → Bool} {h k : Host} (piece : h.Piece may k) : h.Rests k := by
  cases piece with
  | set | injected | released => exact .of_eq rfl rfl rfl
  | noted notice => exact h.rests_note notice
  | closed => exact h.rests_close
  | subscribed config => exact h.rests_subscribe config
  | stopped i => exact h.rests_stopReceiving i
  | begun _ => exact h.rests_beginReceive
  | taken _ ht => exact Host.rests_take? ht
  | acked i d _ => exact h.rests_ack i d
  | nacked i d delay _ => exact h.rests_nack i d delay
  | terminated i d _ => exact h.rests_terminate i d

theorem onward_of_piece {may : Part → Bool} {s t : System} (piece : s.Piece may t) :
    s.Onward t := by
  cases piece with
  | onHost piece => exact s.onward_onHost (rests_of_piece piece)
  | addedQueue q _ => exact s.onward_addQueue q
  | closedQueue i => exact s.onward_closeQueue i
  | droppedQueue i _ => exact s.onward_dropQueue i
  | stoppedQueue i _ => exact s.onward_dropReceiver i
  | received _ found ht =>
    refine s.onward_queue fun q hq => ?_
    obtain rfl := Option.some.inj (found.symm.trans hq)
    exact .take? ht
  | addedPublisher config i _ => exact s.onward_addPublisher config i
  | droppedPublisher i => exact s.onward_dropPublisher i
  | addedCorrelator i timeout unmatchedDelay =>
    exact s.onward_addCorrelator i timeout unmatchedDelay
  | droppedCorrelator i => exact s.onward_dropCorrelator i
  | registered i event => exact s.onward_register i event
  | droppedWaiter handle => exact s.onward_releaseWaiter handle
  | addedConsumer k => exact .of_host (.refl _) rfl rfl rfl (List.subset_append_left _ _)
  | stoppedConsumer | addedToken | firedToken =>
    exact .of_host (.refl _) rfl rfl rfl (List.Subset.refl _)
  | started owner φ _ => exact s.onward_startCall owner φ
  | aborted n _ _ => exact s.onward_abortCall n

theorem onward_of_pieces {may : Part → Bool} {s t : System} (pieces : s.Pieces may t) :
    s.Onward t := by
  induction pieces with
  | refl => exact .refl s
  | tail _ piece ih => exact ih.trans (onward_of_piece piece)

end System

namespace Script

namespace Session

/-- Nothing in the system of a session goes back. -/
def Onward (x y : Session) : Prop := x.system.Onward y.system

namespace Onward

variable {x y z : Session}

@[refl] theorem refl (x : Session) : x.Onward x := System.Onward.refl _

theorem trans (h : x.Onward y) (k : y.Onward z) : x.Onward z := System.Onward.trans h k

end Onward

theorem onward_of_made {may : Part → Bool} {x y : Session} (made : Made may x y) : x.Onward y :=
  System.onward_of_pieces made.system

/-- Every action goes onward. -/
theorem onward_of_after? {x y : Session} {a : Action} (h : x.after? a = some y) : x.Onward y := by
  cases a with
  | perform step =>
    unfold after? at h
    dsimp only at h
    split at h
    next allowed => exact Option.some.inj h ▸ onward_of_made (x.made_perform allowed)
    next => cases h
  | serve id topic name policy handler =>
    have made : Made (fun _ => false) x _ := x.made_serve id topic name policy handler
    exact Option.some.inj h ▸ onward_of_made made
  | agent agent =>
    obtain ⟨t, ht, rfl⟩ := Option.map_eq_some_iff.mp h
    exact Agent.onward_of_step? ht
  | tick moment =>
    unfold after? at h
    dsimp only at h
    split at h
    · exact Option.some.inj h ▸ x.system.onward_onHost (.of_eq rfl rfl rfl)
    · cases h
  | report => exact Option.some.inj h ▸ .refl x

end Session

variable {ts : List Transition} {z : Session} {u : Transition}

theorem Runs.staffed (run : Runs ts z) : z.system.Staffed := by
  refine run.invariant (P := fun x => x.system.Staffed) ?_ fun x a y staffed h =>
    (Session.onward_of_after? h).staffed staffed
  constructor <;> simp

/-- What a transition of a run leaves is onward to the end of the run. -/
theorem Runs.onward (run : Runs ts z) (hu : u ∈ ts) : u.after.Onward z := by
  induction run with
  | start => cases hu
  | @next ts x y a run h ih =>
    rcases List.mem_cons.mp hu with rfl | hu
    · exact .refl y
    · exact (ih hu).trans (Session.onward_of_after? h)

theorem Runs.onward_since {since : List Transition} {x : Session} (run : Runs (since ++ ts) z)
    (base : Runs ts x) : x.Onward z := by
  induction since generalizing z with
  | nil => exact base.unique run ▸ .refl x
  | cons u since ih =>
    cases run with
    | next run h => exact (ih run).trans (Session.onward_of_after? h)

end Script

end ChangeDispatch
