import ChangeDispatch.Proofs.Run.Quiet

/-!
# What a step of a call does

A step takes a call from one phase to another and has at most one effect on another part
of the system: on the registry of a correlator, on the line of a queue, or on the broker.
`callSteps_of_stepCall?` lists these steps, up to quiet changes, so that statements about
calls go through the list and not through the code of the calls.
-/
namespace ChangeDispatch

namespace Call.Phase

/-- The wait that a call has registered and still holds. -/
def handle? : Phase → Option WaitHandle
  | .enqueuing _ _ next | .inLine _ _ _ next => next
  | .awaiting handle _ | .waiting handle _ _ => some handle
  | _ => none

/-- The queue that a call brings an event to, with the event. -/
def brings? : Phase → Option (Nat × ChangeEvent)
  | .enqueuing queue event _ | .inLine queue event _ _ => some (queue, event)
  | _ => none

/-- The call runs, has no wait of its own yet and brings no event at once. -/
def isBare : Phase → Bool
  | .submitting .. | .registering .. | .sending .. | .publishing .. | .closing .. | .draining ..
  | .forcing .. | .stopping .. | .joining .. => true
  | _ => false

/-- Where a call is once its event was taken: at its wait, or at its end. -/
def afterQueued (now : Nat) : Option WaitHandle → Phase
  | none => .ended now .done
  | some handle => .awaiting handle none

end Call.Phase

namespace System

/-- Let go of the waiter that a call holds, if it holds one. -/
def letGo (s : System) (handle : Option WaitHandle) : System := handle.elim s s.releaseWaiter

/-- The systems differ at most in what their registries hold. -/
structure UpToRegistries (s t : System) : Prop where
  host : t.host = s.host
  queues : t.queues = s.queues
  publishers : t.publishers = s.publishers
  consumers : t.consumers = s.consumers
  calls : t.calls = s.calls
  started : t.started = s.started
  frames : t.correlators.map Correlator.frame = s.correlators.map Correlator.frame

namespace UpToRegistries

theorem refl (s : System) : UpToRegistries s s := ⟨rfl, rfl, rfl, rfl, rfl, rfl, rfl⟩

theorem trans {s t u : System} (st : UpToRegistries s t) (tu : UpToRegistries t u) :
    UpToRegistries s u where
  host := tu.host.trans st.host
  queues := tu.queues.trans st.queues
  publishers := tu.publishers.trans st.publishers
  consumers := tu.consumers.trans st.consumers
  calls := tu.calls.trans st.calls
  started := tu.started.trans st.started
  frames := tu.frames.trans st.frames

theorem adjust (s : System) (c : Nat) (f : WaitRegistry → WaitRegistry) :
    UpToRegistries s (s.adjustCorrelator c fun co => { co with registry := f co.registry }) :=
  { refl s with
    frames :=
      map_modify_of_apply (f := fun co : Correlator => { co with registry := f co.registry })
        (fun _ => rfl) s.correlators c }

theorem subscriptions {s t : System} (h : UpToRegistries s t) :
    t.correlators.map Correlator.subscription = s.correlators.map Correlator.subscription := by
  have same := congrArg (List.map Correlator.subscription) h.frames
  rwa [List.map_map, List.map_map] at same

theorem letGo (s : System) (handle : Option WaitHandle) : UpToRegistries s (s.letGo handle) := by
  cases handle with
  | none => exact .refl s
  | some h => exact .adjust s h.correlator fun r => r.release h.serial

theorem register (s : System) (c : Nat) (event : ChangeEvent) :
    UpToRegistries s (s.register c event).2 := by
  unfold System.register
  split
  · exact .refl s
  · split
    · exact .refl s
    next w r _ => exact .adjust s c fun _ => r

end UpToRegistries

/-- The steps of call `n`: its phase before, the system with the effect of the step, and
its phase afterwards. -/
inductive CallStep (s : System) (n : Nat) : Call.Phase → System → Call.Phase → Prop where
  /-- The call goes on by itself. -/
  | moved {φ ψ : Call.Phase} :
      φ.isBare → (ψ.isBare ∨ ∃ result, ψ = .ended s.host.now result) → CallStep s n φ s ψ
  | sent {φ : Call.Phase} {topic : String} {payload : Payload} {result : Call.Result} :
      (φ = .sending topic payload ∨ ∃ timer, φ = .publishing topic payload timer) →
      ((s.host.broker.publish topic payload).1 = .ok () ∧ result = .done ∨
        ∃ e, (s.host.broker.publish topic payload).1 = .error e ∧ result = .transportFailed e) →
      CallStep s n φ (s.setBroker (s.host.broker.publish topic payload).2)
        (.ended s.host.now result)
  | stopped {φ : Call.Phase} {c : Nat} {next : Option Nat} :
      (φ = .stopping c next ∨ φ = .joining c next) →
      CallStep s n φ
        ((s.adjustCorrelator c fun co => { co with registry := co.registry.close.2 }).closeFor next)
        (.ended s.host.now .done)
  | registered {φ ψ : Call.Phase} {c : Nat} {co : Correlator} {event : ChangeEvent} {w : Waiter}
      {r : WaitRegistry} :
      s.correlators[c]? = some co → co.registry.register event s.host.now co.timeout = .ok (w, r) →
      ((∃ queue, φ = .submitting c queue event ∧ ψ = .enqueuing queue event (some ⟨c, w.serial⟩)) ∨
        ∃ token, φ = .registering c event token ∧ ψ = .awaiting ⟨c, w.serial⟩ token) →
      CallStep s n φ (s.adjustCorrelator c fun co => { co with registry := r }) ψ
  | invalid {queue : Nat} {event : ChangeEvent} {next : Option WaitHandle} {e : DispatchError} :
      event.validate = .error e →
      CallStep s n (.enqueuing queue event next) (s.letGo next) (.ended s.host.now (.failed e))
  | refused {queue : Nat} {event : ChangeEvent} {next : Option WaitHandle} :
      event.validate = .ok () →
      (∀ q, s.queues[queue]? = some q → (q.offer ⟨n, event⟩).1 = .refused) →
      CallStep s n (.enqueuing queue event next) (s.letGo next)
        (.ended s.host.now (.failed .closed))
  | accepted {queue : Nat} {event : ChangeEvent} {next : Option WaitHandle} {q q' : Queue} :
      event.validate = .ok () →
      s.queues[queue]? = some q → q.offer ⟨n, event⟩ = (.accepted, q') →
      CallStep s n (.enqueuing queue event next) (s.adjustQueue queue fun _ => q')
        (.afterQueued s.host.now next)
  | blocked {queue : Nat} {event : ChangeEvent} {next : Option WaitHandle} {timer : Timer}
      {q q' : Queue} :
      event.validate = .ok () →
      s.queues[queue]? = some q → q.offer ⟨n, event⟩ = (.blocked, q') →
      timer.due = s.host.now + q'.timeout.ticks →
      CallStep s n (.enqueuing queue event next) (s.adjustQueue queue fun _ => q')
        (.inLine queue event timer next)
  | collected {queue : Nat} {event : ChangeEvent} {next : Option WaitHandle} {timer : Timer}
      {q : Queue} :
      s.queues[queue]? = some q → q.standing n = .accepted →
      CallStep s n (.inLine queue event timer next) (s.adjustQueue queue fun q => q.collect n)
        (.afterQueued s.host.now next)
  | dismissed {queue : Nat} {event : ChangeEvent} {next : Option WaitHandle} {timer : Timer} :
      (∀ q, s.queues[queue]? = some q → q.standing n = .refused) →
      CallStep s n (.inLine queue event timer next) (s.letGo next)
        (.ended s.host.now (.failed .closed))
  | withdrawn {queue : Nat} {event : ChangeEvent} {next : Option WaitHandle} {timer : Timer}
      {q : Queue} :
      s.queues[queue]? = some q → q.standing n = .blocked → s.host.isDue timer →
      CallStep s n (.inLine queue event timer next)
        ((s.adjustQueue queue fun q => q.withdraw n).letGo next)
        (.ended s.host.now (.failed (.queueFull q.capacity q.timeout)))
  | answered {φ : Call.Phase} {handle : WaitHandle} {token : Option Nat} {result : Call.Result} :
      (φ = .awaiting handle token ∨ ∃ timer, φ = .waiting handle token timer) →
      s.waitResult? handle token = some result →
      CallStep s n φ (s.releaseWaiter handle) (.ended s.host.now result)
  | waited {handle : WaitHandle} {token : Option Nat} {timer : Timer} :
      s.waitResult? handle token = none →
      timer.due = s.host.now + ((s.waiter? handle).elim 0 Waiter.deadline - s.host.now) →
      CallStep s n (.awaiting handle token) s (.waiting handle token timer)

/-- A step of a call has no effect but on the host, the queues and the registries. -/
theorem CallStep.upToRegistries {s u : System} {n : Nat} {φ ψ : Call.Phase}
    (step : CallStep s n φ u ψ) : ∃ host queues, UpToRegistries { s with host, queues } u := by
  cases step with
  | moved _ _ => exact ⟨_, _, .refl s⟩
  | sent _ _ => exact ⟨_, _, .refl _⟩
  | @stopped _ c next _ =>
    cases next with
    | none => exact ⟨_, _, .adjust s c fun r => r.close.2⟩
    | some i => exact ⟨_, _, .adjust (s.setBroker s.host.broker.close) c fun r => r.close.2⟩
  | @registered _ _ c _ _ _ r _ _ _ => exact ⟨_, _, .adjust s c fun _ => r⟩
  | invalid _ => exact ⟨_, _, .letGo s _⟩
  | refused _ _ => exact ⟨_, _, .letGo s _⟩
  | accepted _ _ _ => exact ⟨_, _, .refl _⟩
  | blocked _ _ _ _ => exact ⟨_, _, .refl _⟩
  | collected _ _ => exact ⟨_, _, .refl _⟩
  | dismissed _ => exact ⟨_, _, .letGo s _⟩
  | withdrawn _ _ _ => exact ⟨_, _, .letGo (s.adjustQueue _ _) _⟩
  | @answered _ handle _ _ _ _ => exact ⟨_, _, .letGo s (some handle)⟩
  | waited _ _ => exact ⟨_, _, .refl s⟩

/-- A step of a call touches no call but through the change of its phase. -/
theorem CallStep.calls_eq {s u : System} {n : Nat} {φ ψ : Call.Phase} (step : CallStep s n φ u ψ) :
    u.calls = s.calls := by
  obtain ⟨host, queues, same⟩ := step.upToRegistries
  exact same.calls

theorem CallStep.phase?_eq {s u : System} {n : Nat} {φ ψ : Call.Phase} (step : CallStep s n φ u ψ) :
    u.phase? n = s.phase? n := by
  unfold phase?
  rw [step.calls_eq]

/-- A call that waits ends with the result of the wait, or goes on waiting. -/
theorem CallStep.of_wait {s u : System} {n : Nat} {φ ψ : Call.Phase} (step : CallStep s n φ u ψ)
    {handle : WaitHandle} {token : Option Nat}
    (hφ : φ = .awaiting handle token ∨ ∃ timer, φ = .waiting handle token timer) :
    (∃ result, s.waitResult? handle token = some result ∧ ψ = .ended s.host.now result) ∨
      ∃ timer, ψ = .waiting handle token timer := by
  cases step with
  | moved hb _ => rcases hφ with rfl | ⟨timer, rfl⟩ <;> cases hb
  | sent hs _ => rcases hφ with rfl | ⟨timer, rfl⟩ <;> rcases hs with h | ⟨_, h⟩ <;> cases h
  | stopped hs => rcases hφ with rfl | ⟨timer, rfl⟩ <;> rcases hs with h | h <;> cases h
  | registered _ _ hr =>
    rcases hφ with rfl | ⟨timer, rfl⟩ <;> rcases hr with ⟨_, h, -⟩ | ⟨_, h, -⟩ <;> cases h
  | answered ha hr =>
    rcases hφ with rfl | ⟨timer, rfl⟩ <;> rcases ha with h | ⟨_, h⟩ <;> cases h <;>
      exact .inl ⟨_, hr, rfl⟩
  | waited _ _ =>
    rcases hφ with h | ⟨timer, h⟩ <;> cases h
    exact .inr ⟨_, rfl⟩
  | invalid _ | refused _ _ | accepted _ _ _ | blocked _ _ _ _ | collected _ _ | dismissed _
  | withdrawn _ _ _ => rcases hφ with h | ⟨timer, h⟩ <;> cases h

/-- A step of call `n` from phase `φ`, up to quiet changes. -/
def CallSteps (s : System) (n : Nat) (φ : Call.Phase) (t : System) : Prop :=
  ∃ u ψ, CallStep s n φ u ψ ∧ Quiet (u.setPhase n ψ) t

/-! ## Steps that end a call -/

theorem CallStep.endCall {s u v : System} {n : Nat} {φ : Call.Phase} {result : Call.Result}
    (h : CallStep s n φ u (.ended s.host.now result)) (hu : u.host.now = s.host.now)
    (q : Quiet u v) : CallSteps s n φ (v.endCall n result) := by
  refine ⟨u, _, h, (q.setPhase n _).trans ?_⟩
  rw [← hu, ← q.now]
  exact v.quiet_endCall n result

theorem CallStep.endWaitCall {s u v : System} {n : Nat} {φ : Call.Phase}
    {handle : Option WaitHandle} {result : Call.Result}
    (h : CallStep s n φ (u.letGo handle) (.ended s.host.now result))
    (hu : u.host.now = s.host.now) (q : Quiet u v) :
    CallSteps s n φ (v.endWaitCall n handle result) := by
  cases handle with
  | none => exact CallStep.endCall h hu q
  | some handle =>
    exact CallStep.endCall h hu
      (q.adjustRegistry handle.correlator fun r => r.release handle.serial)

theorem quiet_afterQueued (s : System) (n : Nat) (event : ChangeEvent) (next : Option WaitHandle) :
    Quiet (s.setPhase n (.afterQueued s.host.now next)) (s.afterQueued n event next) := by
  cases next with
  | none => exact ((s.quiet_note _).setPhase n _).trans (quiet_endCall _ n .done)
  | some handle => exact (s.quiet_note _).setPhase n _

/-! ## The steps from each phase -/

theorem callSteps_enqueuing (s : System) (n queue : Nat) (event : ChangeEvent)
    (next : Option WaitHandle) :
    CallSteps s n (.enqueuing queue event next) (s.stepEnqueuing n queue event next) := by
  unfold stepEnqueuing
  split
  next e he => exact CallStep.endWaitCall (.invalid he) rfl (.refl s)
  next hv =>
    split
    next hq =>
      refine CallStep.endWaitCall (.refused hv fun q h => ?_) rfl (.refl s)
      rw [hq] at h
      cases h
    next q hq =>
      split
      next q' ho => exact ⟨_, _, .accepted hv hq ho, quiet_afterQueued _ n event next⟩
      next ho =>
        refine CallStep.endWaitCall (.refused hv fun q' h => ?_) rfl (.refl s)
        rw [hq] at h
        obtain rfl := Option.some.inj h
        rw [ho]
      next q' ho =>
        let u := s.adjustQueue queue fun _ => q'
        let timer := (u.setTimer q'.timeout.ticks).1
        refine ⟨u, .inLine queue event timer next, .blocked hv hq ho rfl, ?_⟩
        exact (u.quiet_setTimer q'.timeout.ticks).setPhase n _

theorem callSteps_inLine {s t : System} {n queue : Nat} {event : ChangeEvent} {timer : Timer}
    {next : Option WaitHandle} (h : s.stepInLine? n queue event timer next = some t) :
    CallSteps s n (.inLine queue event timer next) t := by
  unfold stepInLine? at h
  split at h
  next hq =>
    obtain rfl := Option.some.inj h
    refine CallStep.endWaitCall (.dismissed fun q hs => ?_) rfl (.refl s)
    rw [hq] at hs
    cases hs
  next q hq =>
    split at h
    next hs =>
      obtain rfl := Option.some.inj h
      exact ⟨_, _, .collected hq hs, quiet_afterQueued _ n event next⟩
    next hs =>
      obtain rfl := Option.some.inj h
      refine CallStep.endWaitCall (.dismissed fun q' hs' => ?_) rfl (.refl s)
      rw [hq] at hs'
      obtain rfl := Option.some.inj hs'
      exact hs
    next hs =>
      split at h
      next hd =>
        obtain rfl := Option.some.inj h
        exact CallStep.endWaitCall (.withdrawn hq hs hd) rfl (quiet_note _ _)
      next => cases h

theorem callSteps_awaiting (s : System) (n : Nat) (handle : WaitHandle) (token : Option Nat) :
    CallSteps s n (.awaiting handle token) (s.stepAwaiting n handle token) := by
  unfold stepAwaiting
  split
  next result hr =>
    have step : CallStep s n (.awaiting handle token) (s.letGo (some handle)) _ :=
      .answered (.inl rfl) hr
    exact step.endWaitCall rfl (.refl s)
  next hr =>
    let left := (s.waiter? handle).elim 0 Waiter.deadline - s.host.now
    refine ⟨s, .waiting handle token (s.setTimer left).1, .waited hr rfl, ?_⟩
    exact (s.quiet_setTimer left).setPhase n _

theorem callSteps_send {s : System} {n : Nat} {φ : Call.Phase} {topic : String}
    {payload : Payload}
    (hφ : φ = .sending topic payload ∨ ∃ timer, φ = .publishing topic payload timer) :
    CallSteps s n φ (s.send n topic payload) := by
  unfold send Host.publish
  cases hp : s.host.broker.publish topic payload with
  | mk result broker =>
    obtain rfl : (s.host.broker.publish topic payload).2 = broker := by rw [hp]
    cases result with
    | ok _ => exact CallStep.endCall (.sent hφ (.inl ⟨by rw [hp], rfl⟩)) rfl (.refl _)
    | error e => exact CallStep.endCall (.sent hφ (.inr ⟨e, by rw [hp], rfl⟩)) rfl (.refl _)

theorem callSteps_closing (s : System) (n publisher : Nat) :
    CallSteps s n (.closing publisher) (s.stepClosing n publisher) := by
  have ended : CallSteps s n (.closing publisher) (s.endCall n .done) :=
    CallStep.endCall (.moved rfl (.inr ⟨_, rfl⟩)) rfl (.refl s)
  unfold stepClosing
  split
  · exact ended
  next p _ =>
    split
    · exact ended
    · extract_lets u v
      have closed : Quiet s v :=
        Quiet.trans (t := u) (s.quiet_adjustPublisher publisher fun _ => rfl)
          (u.quiet_closeQueue p.queue)
      split
      · refine ⟨s, _, .moved rfl (.inl rfl), Quiet.setPhase ?_ n _⟩
        exact closed.trans (v.quiet_setTimer p.config.drainTimeout.ticks)
      · exact ⟨s, _, .moved rfl (.inl rfl), closed.setPhase n _⟩

theorem callSteps_afterWorker {s : System} {n publisher : Nat} {φ : Call.Phase}
    (hφ : φ.isBare) : CallSteps s n φ (s.afterWorker n publisher) := by
  unfold afterWorker
  split
  · exact CallStep.endCall (.moved hφ (.inr ⟨_, rfl⟩)) rfl (.refl s)
  · exact ⟨s, _, .moved hφ (.inl rfl), (s.quiet_stopWorker publisher).setPhase n _⟩

theorem callSteps_draining {s t : System} {n publisher : Nat} {timer : Timer}
    (h : s.stepDraining? n publisher timer = some t) :
    CallSteps s n (.draining publisher timer) t := by
  unfold stepDraining? at h
  split at h
  · obtain rfl := Option.some.inj h
    exact callSteps_afterWorker rfl
  · split at h
    · obtain rfl := Option.some.inj h
      refine ⟨s, _, .moved rfl (.inl rfl), Quiet.setPhase ?_ n _⟩
      exact (s.quiet_note _).trans (quiet_stopWorker _ publisher)
    · cases h

theorem callSteps_finishStopping {s v : System} {n c : Nat} {next : Option Nat}
    {φ : Call.Phase} (hφ : φ = .stopping c next ∨ φ = .joining c next) (hv : Quiet s v) :
    CallSteps s n φ (v.finishStopping n c next) := by
  have closed := hv.adjustRegistry c fun r => r.close.2
  unfold finishStopping
  extract_lets failed w w'
  have noted : Quiet w w' := by
    unfold w'
    split
    · exact w.quiet_note _
    · exact .refl w
  have hw := closed.trans noted
  cases next with
  | none => exact CallStep.endCall (.stopped hφ) rfl hw
  | some publisher =>
    refine CallStep.endCall (.stopped hφ) rfl ?_
    exact (hw.closeFor (some publisher)).trans (quiet_noteError (w'.closeFor (some publisher)) _ _)

theorem callSteps_stopping (s : System) (n c : Nat) (next : Option Nat) :
    CallSteps s n (.stopping c next) (s.stepStopping n c next) := by
  have told := s.quiet_stopListener c
  unfold stepStopping
  extract_lets u
  split
  · refine ⟨s, _, .moved rfl (.inl rfl), Quiet.setPhase ?_ n _⟩
    exact Quiet.trans told (u.quiet_adjustCorrelator c fun _ => rfl)
  · exact callSteps_finishStopping (.inl rfl) told

/-- A call that registers a wait ends if it is refused, or goes on with its handle. -/
theorem callSteps_register {s t : System} {n c : Nat} {event : ChangeEvent} {φ : Call.Phase}
    (ψ : WaitHandle → Call.Phase) (hφ : φ.isBare)
    (hψ : ∀ w : Waiter, (∃ queue, φ = .submitting c queue event ∧
        ψ ⟨c, w.serial⟩ = .enqueuing queue event (some ⟨c, w.serial⟩)) ∨
      ∃ token, φ = .registering c event token ∧ ψ ⟨c, w.serial⟩ = .awaiting ⟨c, w.serial⟩ token)
    (h : t = match s.register c event with
      | (.error e, s) => s.endCall n (.failed e)
      | (.ok handle, s) => s.setPhase n (ψ handle)) : CallSteps s n φ t := by
  subst h
  unfold register
  cases hc : s.correlators[c]? with
  | none => exact CallStep.endCall (.moved hφ (.inr ⟨_, rfl⟩)) rfl (.refl s)
  | some co =>
    dsimp only
    cases hr : co.registry.register event s.host.now co.timeout with
    | error e => exact CallStep.endCall (.moved hφ (.inr ⟨_, rfl⟩)) rfl (.refl s)
    | ok v =>
      obtain ⟨w, r⟩ := v
      exact ⟨_, _, .registered hc hr (hψ w), .refl _⟩

/-- Every step of a call is one of the list. -/
theorem callSteps_of_stepCall? {s t : System} {n : Nat} (h : s.stepCall? n = some t) :
    ∃ φ, s.phase? n = some φ ∧ CallSteps s n φ t := by
  unfold stepCall? at h
  unfold phase?
  cases hφ : (s.calls[n]?).map Call.phase with
  | none => rw [hφ] at h; cases h
  | some φ =>
    rw [hφ] at h
    refine ⟨φ, rfl, ?_⟩
    cases φ with
    | enqueuing queue event next =>
      exact Option.some.inj h ▸ s.callSteps_enqueuing n queue event next
    | inLine queue event timer next => exact callSteps_inLine h
    | submitting c queue event =>
      refine callSteps_register (fun handle => .enqueuing queue event (some handle)) rfl
        (fun w => .inl ⟨queue, rfl, rfl⟩) ?_
      cases hr : s.register c event with
      | mk result u =>
        cases result with
        | error e => simpa only [hr, Option.some.injEq, eq_comm] using h
        | ok handle => simpa only [hr, Option.some.injEq, eq_comm] using h
    | registering c event token =>
      refine callSteps_register (fun handle => .awaiting handle token) rfl
        (fun w => .inr ⟨token, rfl, rfl⟩) ?_
      cases hr : s.register c event with
      | mk result u =>
        cases result with
        | error e => simpa only [hr, Option.some.injEq, eq_comm] using h
        | ok handle => simpa only [hr, Option.some.injEq, eq_comm] using h
    | awaiting handle token => exact Option.some.inj h ▸ s.callSteps_awaiting n handle token
    | waiting handle token timer =>
      obtain ⟨result, hr, rfl⟩ := Option.map_eq_some_iff.mp h
      have step : CallStep s n (.waiting handle token timer) (s.letGo (some handle)) _ :=
        .answered (.inr ⟨timer, rfl⟩) hr
      exact step.endWaitCall rfl (.refl s)
    | sending topic payload =>
      change (if _ then _ else _) = some t at h
      split at h
      · exact Option.some.inj h ▸ callSteps_send (.inl rfl)
      · obtain rfl := Option.some.inj h
        let delay := s.host.faults.publishDelay
        exact ⟨s, .publishing topic payload (s.setTimer delay).1, .moved rfl (.inl rfl),
          (s.quiet_setTimer delay).setPhase n _⟩
    | publishing topic payload timer =>
      change (if _ then _ else _) = some t at h
      split at h
      · exact Option.some.inj h ▸ callSteps_send (.inr ⟨timer, rfl⟩)
      · cases h
    | closing publisher => exact Option.some.inj h ▸ s.callSteps_closing n publisher
    | draining publisher timer => exact callSteps_draining h
    | forcing publisher =>
      change (if _ then _ else _) = some t at h
      split at h
      · exact Option.some.inj h ▸ callSteps_afterWorker rfl
      · cases h
    | stopping c next => exact Option.some.inj h ▸ s.callSteps_stopping n c next
    | joining c next =>
      change (if _ then _ else _) = some t at h
      split at h
      · exact Option.some.inj h ▸ callSteps_finishStopping (.inr rfl) (.refl s)
      · cases h
    | ended moment result => cases h
    | aborted => cases h

end System

end ChangeDispatch
