import ChangeDispatch.Proofs.Broker.Touch
import ChangeDispatch.Proofs.Run.Turns

/-!
# What a step of a listener does

A listener works on its own subscription only. It changes its registry only when it
settles a delivery that can be read, and then by offering the acknowledgment to it. An
acknowledgment that was taken is let go of; any other is handed back or, where that
fails, let go of as well.
-/
namespace ChangeDispatch.Correlator

open Host (Adjusts)

/-- The settlement of a delivery: the registry afterwards, and what becomes of the
subscription. -/
inductive Settles (r : WaitRegistry) (d : Delivery) :
    WaitRegistry → (Subscription → Subscription) → Prop where
  | refused {e : DispatchError} :
      AckEvent.ofPayload d.payload = .error e → Settles r d r (·.release d)
  | taken {ack : AckEvent} {entry : PendingEntry} {s : WaitRegistry} :
      AckEvent.ofPayload d.payload = .ok ack → r.offer ack = (.taken entry, s) →
      Settles r d s (·.release d)
  | unclaimed {ack : AckEvent} {f : Subscription → Subscription} :
      AckEvent.ofPayload d.payload = .ok ack → (∀ entry, (r.offer ack).1 ≠ .taken entry) →
      (f = (·.release d) ∨ ∃ timer, f = (·.handBack d timer)) →
      Settles r d (r.offer ack).2 f

/-- A step of a listener. -/
inductive Step (h : Host) (c : Correlator) : Host → Correlator → Prop where
  | moved {k : Host} {phase : Listener.Phase} :
      phase ≠ .ended → Adjusts c.subscription id h k → Step h c k { c with phase }
  | finished {k : Host} :
      Adjusts c.subscription Subscription.stopReceiving h k → Step h c k { c with phase := .ended }
  | settled {d : Delivery} {k l : Host} {r : WaitRegistry} {f : Subscription → Subscription} :
      c.phase = .waiting → c.stopping = false → h.take? c.subscription = some (d, k) →
      Settles c.registry d r f → Adjusts c.subscription f k l →
      Step h c l { c with registry := r, phase := .ready }

theorem adjusts_noteMismatch (i : Nat) (h : Host) (workspace : String) (ack : AckEvent) :
    Adjusts i id h (noteMismatch h workspace ack) := by
  unfold noteMismatch
  split
  · exact h.adjusts_note i _
  · exact .refl h

theorem adjusts_handBack {h k : Host} (c : Correlator) (d : Delivery)
    (hk : Adjusts c.subscription id h k) :
    ∃ f, (f = (·.release d) ∨ ∃ timer, f = (·.handBack d timer)) ∧
      Adjusts c.subscription f h (handBack k c d) := by
  have noted := (k.nack c.subscription d c.unmatchedDelay).2.adjusts_noteError c.subscription
    (k.nack c.subscription d c.unmatchedDelay).1 .ackHandBackFailed
  rcases k.adjusts_nack c.subscription d c.unmatchedDelay with a | ⟨timer, a⟩
  · exact ⟨_, .inl rfl, (hk.after a).before noted⟩
  · exact ⟨_, .inr ⟨timer, rfl⟩, (hk.after a).before noted⟩

theorem settles_process (h : Host) (c : Correlator) (d : Delivery) :
    ∃ r f, Settles c.registry d r f ∧ Adjusts c.subscription f h (process h c d).1 ∧
      (process h c d).2 = { c with registry := r } := by
  unfold process
  cases hd : AckEvent.ofPayload d.payload with
  | error e =>
    refine ⟨_, _, .refused hd, ?_, rfl⟩
    refine Adjusts.before ?_ (Host.adjusts_noteError _ _ _ _)
    exact (h.adjusts_note _ (.ackUndecodable e d.payload.length)).after
      (Host.adjusts_terminate _ _ d)
  | ok ack =>
    dsimp only
    cases ho : c.registry.offer ack with
    | mk offer registry =>
      obtain rfl : registry = (c.registry.offer ack).2 := by rw [ho]
      cases offer with
      | taken entry =>
        refine ⟨_, _, .taken hd ho, ?_, rfl⟩
        refine Adjusts.before ?_ (Host.adjusts_noteError _ _ _ _)
        refine Adjusts.before ?_ (Host.adjusts_note _ _ _)
        exact (adjusts_noteMismatch _ h entry.workspace ack).after (Host.adjusts_ack _ _ d)
      | missed entry =>
        obtain ⟨f, hf, a⟩ := adjusts_handBack c d (adjusts_noteMismatch _ h entry.workspace ack)
        exact ⟨_, f, .unclaimed hd (fun e => by rw [ho]; simp) hf, a, rfl⟩
      | unmatched =>
        obtain ⟨f, hf, a⟩ := adjusts_handBack c d (.refl h)
        exact ⟨_, f, .unclaimed hd (fun e => by rw [ho]; simp) hf, a, rfl⟩

/-- Every step of a listener is one of the list. -/
theorem step_of_step? {h k : Host} {c c' : Correlator} (hs : c.step? h = some (k, c')) :
    Step h c k c' := by
  have begun := h.adjusts_beginReceive c.subscription
  cases turn_of_step? hs with
  | stopping _ _ => exact .finished (h.adjusts_stopReceiving _)
  | asking _ _ asked =>
    rw [asked] at begun
    exact .moved (by simp) begun
  | @pausing e h' _ _ refused =>
    rw [refused] at begun
    refine .moved (by simp) (begun.after ?_)
    exact (h'.adjusts_note _ _).after (Host.adjusts_setTimer _ _ Listener.receivePause)
  | @taking d h' waiting going taken =>
    obtain ⟨r, f, settles, a, same⟩ := settles_process h' c d
    rw [same]
    exact .settled waiting going taken settles a
  | ending _ _ _ _ =>
    exact .finished ((h.adjusts_note _ _).after (Host.adjusts_stopReceiving _ _))
  | resuming _ _ _ => exact .moved (by simp) (.refl h)

end ChangeDispatch.Correlator
