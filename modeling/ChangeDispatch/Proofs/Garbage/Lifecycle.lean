import ChangeDispatch.Proofs.Garbage.Calls

/-!
# Making and dropping parts in systems that match

A part that is made gets the same number in both systems, and what is dropped in both takes
effect in both.
-/
namespace ChangeDispatch

open List (Forall₂)

variable {T : String} {P Q : Nat → Nat → Prop}

namespace System.Matches

variable {s s' : System}

theorem releaseBroker (m : s.Matches T P s') : s.releaseBroker.Matches T P s'.releaseBroker :=
  m.onHost (m.host.close.state.noteError _ _ _ _)

theorem addCorrelator (m : s.Matches T P s') (subscription : Nat)
    (timeout unmatchedDelay : Duration) :
    Agree (System.Matches T P) (s.addCorrelator subscription timeout unmatchedDelay)
      (s'.addCorrelator subscription timeout unmatchedDelay) := by
  cases m with
  | intro hh hc hk =>
    unfold System.addCorrelator
    dsimp only
    rw [← hc.length_eq]
    exact ⟨rfl, .intro hh (List.rel_append hc (.cons (.refl _) .nil)) hk⟩

theorem addPublisher (m : s.Matches T P s') (config : DispatchConfig) (subscription : Nat) :
    Agree (System.Matches T P) (s.addPublisher config subscription)
      (s'.addPublisher config subscription) := by
  cases m with
  | intro hh hc hk =>
    unfold System.addPublisher System.addQueue System.addCorrelator
    dsimp only
    rw [← hc.length_eq]
    exact ⟨rfl, .intro hh (List.rel_append hc (.cons (.refl _) .nil)) hk⟩

theorem openPublisher (m : s.Matches T P s') (config : DispatchConfig) :
    Agree (System.Matches T P) (s.openPublisher config) (s'.openPublisher config) := by
  unfold System.openPublisher
  split
  · exact ⟨rfl, m.releaseBroker⟩
  · obtain ⟨answer, h, h', left, right, subscribed⟩ := (m.host.subscribe
      { topic := config.ackTopic, name := config.ackSubscription,
        maxDeliveries := some config.ackMaxDeliveries }).parts
    dsimp only
    rw [left, right]
    cases answer with
    | error e => exact ⟨rfl, ((m.onHost subscribed).note _ _).releaseBroker⟩
    | ok subscription =>
      dsimp only
      split
      · exact ⟨rfl, m.onHost (subscribed.stopReceiving subscription)⟩
      · have added := (m.onHost subscribed).addPublisher config subscription
        exact ⟨congrArg Except.ok added.answer, added.state⟩

theorem startCorrelator (m : s.Matches T P s') (subscription : SubscriptionConfig)
    (timeout unmatchedDelay : Duration) :
    Agree (System.Matches T P) (s.startCorrelator subscription timeout unmatchedDelay)
      (s'.startCorrelator subscription timeout unmatchedDelay) := by
  obtain ⟨answer, h, h', left, right, subscribed⟩ := (m.host.subscribe subscription).parts
  unfold System.startCorrelator
  rw [left, right]
  cases answer with
  | error e => exact ⟨rfl, m.onHost subscribed⟩
  | ok subscription =>
    have added := (m.onHost subscribed).addCorrelator subscription timeout unmatchedDelay
    exact ⟨congrArg Except.ok added.answer, added.state⟩

theorem startConsumer (m : s.Matches T P s') (topic name : String) (policy : DeadLetterPolicy)
    (handler : Handler) :
    Agree (System.Matches T P) (s.startConsumer topic name policy handler)
      (s'.startConsumer topic name policy handler) := by
  unfold System.startConsumer
  split
  · exact ⟨rfl, m⟩
  · obtain ⟨answer, h, h', left, right, subscribed⟩ := (m.host.subscribe
      { topic, name, maxDeliveries := some policy.maxDeliveries }).parts
    rw [left, right]
    cases answer with
    | error e => exact ⟨rfl, m.onHost subscribed⟩
    | ok subscription =>
      cases m with
      | intro _ hc hk =>
        dsimp only
        rw [← hk.length_eq]
        exact ⟨rfl, .intro subscribed hc (List.rel_append hk (.cons (.intro .ready) .nil))⟩

theorem addQueue (m : s.Matches T P s') (q : Queue) :
    Agree (System.Matches T P) (s.addQueue q) (s'.addQueue q) := by
  cases m with
  | intro hh hc hk => exact ⟨rfl, .intro hh hc hk⟩

theorem addToken (m : s.Matches T P s') :
    Agree (System.Matches T P) s.addToken s'.addToken := by
  cases m with
  | intro hh hc hk => exact ⟨rfl, .intro hh hc hk⟩

theorem fireToken (m : s.Matches T P s') (i : Nat) :
    (s.fireToken i).Matches T P (s'.fireToken i) := by
  cases m with
  | intro hh hc hk => exact .intro hh hc hk

theorem abortCall (m : s.Matches T P s') (n : Nat) :
    (s.abortCall n).Matches T P (s'.abortCall n) := by
  unfold System.abortCall
  rw [m.calls_eq]
  split
  · exact m
  next c _ =>
    split
    · exact m
    · refine (setPhase ?_ n _).releaseOwner _
      split
      next queue _ _ next _ =>
        refine adjustQueue ?_ queue _
        cases next with
        | none => exact m
        | some handle => exact m.releaseWaiter handle
      next handle _ => exact m.releaseWaiter handle
      next handle _ _ => exact m.releaseWaiter handle
      next handle _ _ _ => exact m.releaseWaiter handle
      next => exact m

theorem dropPublisher (m : s.Matches T P s') (i : Nat) :
    (s.dropPublisher i).Matches T P (s'.dropPublisher i) :=
  (m.adjustPublisher i _).releasePublisher i

theorem dropCorrelator (m : s.Matches T P s') (i : Nat) :
    (s.dropCorrelator i).Matches T P (s'.dropCorrelator i) :=
  (m.adjustCorrelator i fun _ _ mc =>
    mc.map (f := fun c => { c with dropped := true }) fun _ _ => rfl).releaseCorrelator i

theorem stopConsumer (m : s.Matches T P s') (i : Nat) :
    (s.stopConsumer i).Matches T P (s'.stopConsumer i) := by
  refine m.adjustConsumer i fun k k' mk => ?_
  cases mk with
  | intro phase => exact .intro phase

theorem atMoment (m : s.Matches T P s') (moment : Nat) :
    (s.atMoment moment).Matches T P (s'.atMoment moment) :=
  m.onHost (m.host.atMoment moment)

end System.Matches

end ChangeDispatch
