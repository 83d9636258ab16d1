import ChangeDispatch.Proofs.Publisher.Log
import ChangeDispatch.Proofs.Queue.Backpressure
import ChangeDispatch.Proofs.Wait.Lifetimes

/-!
# Submissions

A call that submits an event registers a wait for its acknowledgment, brings the event to the queue
and waits. The deadline of the wait runs from the registration, so it comes nearer while the call
stands in line. Whichever of the three fails ends the call: a call whose registration is refused
never comes to the queue, and a call whose event is refused lets go of its waiter. The registration
and the first step at the queue take no time, so the call is over when the longer of the two
timeouts has passed.
-/
namespace ChangeDispatch.Script

variable {ts since before : List Transition} {x y z : Session} {a : Action} {b u : Transition}
  {n i j start : Nat} {p : Publisher} {q : Queue} {w : Waiter} {event : ChangeEvent}
  {handle : WaitHandle} {φ : Call.Phase} {result : Call.Result}

/-! ## The queue of a publisher -/

/-- A publisher has its queue, as its configuration says. -/
def Session.Supplied (x : Session) (p : Publisher) : Prop :=
  ∃ q, x.system.queues[p.queue]? = some q ∧ q.capacity = p.config.queueCapacity ∧
    q.timeout = p.config.enqueueTimeout

/-- Producers stand in line at a publisher as long as its configuration says. -/
theorem Runs.enqueueTimeout (run : Runs ts z) (hp : z.system.publishers[i]? = some p)
    (hq : z.system.queues[p.queue]? = some q) : q.timeout = p.config.enqueueTimeout := by
  induction run generalizing p q with
  | start => cases hp
  | @next ts x y a run h ih =>
    cases old : x.system.publishers[i]? with
    | none =>
      obtain ⟨-, -, -, -, timeout⟩ := fresh_of_after? run h old hp hq
      exact timeout
    | some p₀ =>
      obtain ⟨p', hp', onward⟩ := (Session.onward_of_after? h).publishers i p₀ old
      obtain rfl := Option.some.inj (hp'.symm.trans hp)
      obtain ⟨q₀, hq₀, -⟩ := run.ledgers.ledger i p₀ old
      obtain ⟨q₁, q', used, hq', same⟩ := Transition.uses_of_after? h hq₀
      obtain rfl := Option.some.inj (hq'.symm.trans (onward.queue ▸ hq))
      have kept : q'.timeout = q₁.timeout := by
        rcases same with core | core
        · exact (congrArg Queue.timeout core :)
        · exact (congrArg Queue.timeout core :)
      rw [kept, used.settings.2, ih old hq₀, onward.config]

theorem Runs.supplied_since (run : Runs ts z) (hu : u ∈ ts)
    (hp : u.before.system.publishers[i]? = some p) : z.Supplied p := by
  obtain ⟨us, -, h⟩ := run.made hu
  obtain ⟨p', hp', since⟩ :=
    ((Session.onward_of_after? h).trans (run.onward hu)).publishers i p hp
  obtain ⟨q, hq, led⟩ := run.ledgers.ledger i p' hp'
  unfold Session.Supplied
  rw [← since.config, ← since.queue]
  exact ⟨q, hq, led.capacity, run.enqueueTimeout hp' hq⟩

/-! ## Events that were not taken -/

/-- The event of call `n` was let into no queue, and no worker has done anything with it. -/
structure Unsent (ts : List Transition) (z : Session) (n : Nat) : Prop where
  untaken : ∀ j, n ∉ accepted ts j
  nowhere : ∀ (j : Nat) q, z.system.queues[j]? = some q →
    n ∉ q.lined ++ q.promised ++ q.buffered
  unhandled : ∀ (i : Nat) p, z.system.publishers[i]? = some p → n ∉ p.worker.inHand
  unpublished : ∀ i, ∀ e ∈ history ts i, e.1.ticket ≠ n

/-- What a queue lets in later is not the event of a call that has none to bring any more. -/
theorem Runs.past_since (run : Runs (since ++ ts) z) (base : Runs ts x)
    (past : ∃ φ, x.system.phase? n = some φ ∧ φ.isPast) :
    (∃ φ, z.system.phase? n = some φ ∧ φ.isPast) ∧
      (n ∈ accepted (since ++ ts) j → n ∈ accepted ts j) := by
  induction since generalizing z with
  | nil => exact ⟨base.unique run ▸ past, id⟩
  | cons u since ih =>
    cases run with
    | next run h =>
      obtain ⟨⟨φ, hφ, gone⟩, known⟩ := ih run
      refine ⟨past_of_after? h hφ gone, fun taken => ?_⟩
      rw [List.cons_append, accepted_cons] at taken
      rcases List.mem_append.mp taken with now | old
      · obtain ⟨-, φ', _, _, hφ', brings, -, -⟩ :=
          Transition.brought?_eq_some.mp (Option.mem_toList.mp now)
        obtain rfl := Option.some.inj (hφ.symm.trans hφ')
        cases (Call.Phase.brings?_of_isPast gone).symm.trans brings
      · exact known old

/-- The event of a call that ends with an error, before it is at its wait, was never taken. -/
theorem Runs.untaken (run : Runs ts z) (hu : u ∈ ts) (hφ : u.before.system.phase? n = some φ)
    (early : φ.isPast = false) {moment : Nat} {e : DispatchError}
    (ended : u.after.system.phase? n = some (.ended moment (.failed e))) (j : Nat) :
    n ∉ accepted ts j := by
  obtain ⟨since, before, rfl⟩ := List.append_of_mem hu
  obtain ⟨base, base'⟩ := run.split
  intro taken
  have known := (run.past_since base' ⟨_, ended, rfl⟩).2 taken
  rw [accepted_cons] at known
  rcases List.mem_append.mp known with now | old
  · obtain ⟨-, _, _, ψ, -, -, hψ, taken⟩ :=
      Transition.brought?_eq_some.mp (Option.mem_toList.mp now)
    obtain rfl := Option.some.inj (ended.symm.trans hψ)
    cases taken
  · obtain ⟨φ', hφ', past⟩ := base.told.past j n (.inl old)
    obtain rfl := Option.some.inj (hφ.symm.trans hφ')
    cases early.symm.trans past

/-- The events in a buffer are those of calls that were let in. -/
theorem Traced.mem_buffered (traced : Traced ts z j q) (hn : n ∈ q.buffered) :
    n ∈ accepted ts j ++ q.promised := by
  obtain ⟨lost, ordered⟩ := traced.history.ordered (Queue.new_ofCapacity ..)
  obtain ⟨item, mem, rfl⟩ := List.mem_map.mp hn
  have letIn := ordered.letIn_eq traced.distinct
  have there : item ∈ Queue.letIn (queueHistory ts j) q := by
    rw [letIn]
    exact List.mem_append_right _ mem
  have known := of_decide_eq_true (List.mem_filter.mp there).2
  rw [traced.taken, List.mem_append, List.mem_reverse] at known
  exact List.mem_append.mpr known

/-- Where the event of a call was not taken and the call is not in line, nothing was done with the
event. -/
theorem Runs.unsent (run : Runs ts z) (untaken : ∀ j, n ∉ accepted ts j)
    (hφ : z.system.phase? n = some φ) (past : φ.isPast) : Unsent ts z n := by
  have out : ∀ {j : Nat} {q}, z.system.queues[j]? = some q → n ∉ q.lined ++ q.promised := by
    intro j q hq there
    obtain ⟨event, timer, next, hφ'⟩ := (run.traced hq).waiting n there
    obtain rfl := Option.some.inj (hφ.symm.trans hφ')
    cases past
  have unknown : ∀ {j : Nat} {q}, z.system.queues[j]? = some q →
      n ∉ accepted ts j ++ q.promised := by
    intro j q hq there
    rcases List.mem_append.mp there with taken | promised
    · exact untaken j taken
    · exact out hq (List.mem_append_right _ promised)
  have booked : ∀ {i : Nat} {p}, z.system.publishers[i]? = some p →
      n ∉ (history ts i).map (fun e => e.1.ticket) ++ p.worker.inHand := by
    intro i p hp there
    obtain ⟨q, hq, led⟩ := run.ledgers.ledger i p hp
    refine unknown hq (led.perm_history.symm.subset ?_)
    rw [← List.append_assoc]
    exact List.mem_append_left _ there
  refine ⟨untaken, fun j q hq there => ?_, fun i p hp there => ?_, fun i e he same => ?_⟩
  · rcases List.mem_append.mp there with line | buffered
    · exact out hq line
    · exact unknown hq ((run.traced hq).mem_buffered buffered)
  · exact booked hp (List.mem_append_right _ there)
  · cases hp : z.system.publishers[i]? with
    | none =>
      rw [history_eq_nil run.ledgers (List.getElem?_eq_none_iff.mp hp)] at he
      cases he
    | some p => exact booked hp (List.mem_append_left _ (List.mem_map.mpr ⟨e, he, same⟩))

/-! ## The steps of a submission -/

/-- Call `n` brings the event to a queue, and then waits on the handle. -/
def Session.BringsFor (x : Session) (n j : Nat) (event : ChangeEvent) (handle : WaitHandle) :
    Prop :=
  ∃ φ, x.system.phase? n = some φ ∧ φ.brings? = some (j, event) ∧ φ.handle? = some handle

theorem Session.BringsFor.early (brings : x.BringsFor n j event handle) :
    ∃ φ, x.system.phase? n = some φ ∧ φ.isPast = false := by
  obtain ⟨φ, hφ, brings, -⟩ := brings
  refine ⟨φ, hφ, ?_⟩
  by_contra past
  cases (Call.Phase.brings?_of_isPast (Bool.not_eq_false _ ▸ past)).symm.trans brings

/-- What the step of a call makes of the event that it brings: it is refused, it is taken, or it
stands in line from then on. -/
theorem Session.BringsFor.next (brings : x.BringsFor n j event handle)
    (h : x.after? (.agent (.call n)) = some y) (hq : x.system.queues[j]? = some q) :
    (∃ e, y.system.phase? n = some (.ended x.system.host.now (.failed e)) ∧
      (event.validate = .error e ∨ e = .closed ∨ e = .queueFull q.capacity q.timeout)) ∨
    y.system.phase? n = some (.awaiting handle none) ∨
    ∃ timer, x.system.phase? n = some (.enqueuing j event (some handle)) ∧
      y.system.phase? n = some (.inLine j event timer (some handle)) ∧
      timer.due = x.system.host.now + q.timeout.ticks := by
  obtain ⟨φ, hφ, event', holds⟩ := brings
  obtain ⟨s, hs, rfl⟩ := Option.map_eq_some_iff.mp h
  obtain ⟨χ, hχ, v, ψ, step, quiet⟩ := System.callSteps_of_stepCall? hs
  obtain rfl := Option.some.inj (hφ.symm.trans hχ)
  have after : s.phase? n = some ψ :=
    (quiet.phase? n).trans (System.phase?_setPhase (step.phase?_eq ▸ hφ) ψ)
  cases step with
  | invalid he =>
    cases event'
    exact .inl ⟨_, after, .inl he⟩
  | refused _ _ => exact .inl ⟨_, after, .inr (.inl rfl)⟩
  | accepted _ _ _ =>
    obtain rfl : _ = some handle := holds
    exact .inr (.inl after)
  | blocked _ hk ho due =>
    cases event'
    obtain rfl : _ = some handle := holds
    obtain rfl := Option.some.inj (hq.symm.trans hk)
    obtain ⟨-, rfl⟩ := Queue.offer_blocked ho
    exact .inr (.inr ⟨_, hφ, after, due⟩)
  | collected _ _ =>
    obtain rfl : _ = some handle := holds
    exact .inr (.inl after)
  | dismissed _ => exact .inl ⟨_, after, .inr (.inl rfl)⟩
  | withdrawn hk _ _ =>
    cases event'
    obtain rfl := Option.some.inj (hq.symm.trans hk)
    exact .inl ⟨_, after, .inr (.inr rfl)⟩
  | moved bare _ => rw [Call.Phase.brings?_of_isBare bare] at event'; cases event'
  | sent hφ _ => rcases hφ with rfl | ⟨_, rfl⟩ <;> cases event'
  | stopped hφ => rcases hφ with rfl | rfl <;> cases event'
  | registered _ _ hφ => rcases hφ with ⟨_, rfl, -⟩ | ⟨_, rfl, -⟩ <;> cases event'
  | answered hφ _ => rcases hφ with rfl | ⟨_, rfl⟩ <;> cases event'
  | waited _ _ => cases event'

/-- The step of a call that asks for a wait before it brings its event: it is refused, or the wait
is registered and the call comes to its queue. -/
theorem submitting_next {c : Nat} {co : Correlator} (h : x.after? (.agent (.call n)) = some y)
    (hφ : x.system.phase? n = some (.submitting c j event))
    (hc : x.system.correlators[c]? = some co) :
    (∃ e, y.system.phase? n = some (.ended x.system.host.now (.failed e))) ∨
    ∃ w, (⟨x, .agent (.call n), y⟩ : Transition).Enrolls c event co.timeout w ∧
      y.system.phase? n = some (.enqueuing j event (some ⟨c, w.serial⟩)) := by
  obtain ⟨s, hs, rfl⟩ := Option.map_eq_some_iff.mp h
  change x.system.stepCall? n = some s at hs
  unfold System.stepCall? at hs
  rw [System.stepCall?_of_phase hφ] at hs
  dsimp only at hs
  unfold System.register at hs
  rw [hc] at hs
  dsimp only at hs
  cases hr : co.registry.register event x.system.host.now co.timeout with
  | error e =>
    rw [hr] at hs
    obtain rfl := Option.some.inj hs
    exact .inl ⟨e, System.phase?_endCall hφ _⟩
  | ok v =>
    obtain ⟨w, r⟩ := v
    rw [hr] at hs
    obtain rfl := Option.some.inj hs
    obtain ⟨-, -, slot, -, -, -, grown⟩ := WaitRegistry.register_ok hr
    have new : w.registered = w := Waiter.registered_of_pending (Waiter.isPending_iff.mpr slot)
    have mem : w ∈ r.waiters := grown ▸ List.mem_append_right _ List.mem_cons_self
    refine .inr ⟨w, ⟨co, r, w, hc, rfl, hr, ⟨r, ?_, mem⟩, new⟩, System.phase?_setPhase hφ _⟩
    simp [Session.registry?, System.registries, System.setPhase, System.adjustCorrelator, hc]

/-! ## How a submission stands -/

/-- The caller submits an event to publisher `i`, and starts call `n` with that. -/
structure Transition.Submits (t : Transition) (n i : Nat) (p : Publisher) (event : ChangeEvent) :
    Prop where
  action : ∃ target, t.action = .perform (.submit target event) ∧
    t.before.publishers.find? target = some i
  publisher : t.before.system.publishers[i]? = some p
  number : n = t.before.system.calls.length

/-- The registration of call `n` is refused, and the call ends with the error. -/
structure Transition.RefusesWait (t : Transition) (n : Nat) (p : Publisher) (event : ChangeEvent)
    (e : DispatchError) : Prop where
  call : t.action = .agent (.call n)
  asks : t.before.system.phase? n = some (.submitting p.correlator p.queue event)
  ended : t.after.system.phase? n = some (.ended t.before.system.host.now (.failed e))

/-- The event of call `n` is refused, and the call ends with the error. -/
structure Transition.RefusesEvent (t : Transition) (n : Nat) (p : Publisher) (event : ChangeEvent)
    (handle : WaitHandle) (e : DispatchError) : Prop where
  call : t.action = .agent (.call n)
  brings : t.before.BringsFor n p.queue event handle
  ended : t.after.system.phase? n = some (.ended t.before.system.host.now (.failed e))

/-- The queue takes the event of call `n`, which comes to its wait. -/
structure Transition.TakesEvent (t : Transition) (n : Nat) (p : Publisher) (event : ChangeEvent)
    (handle : WaitHandle) : Prop where
  call : t.action = .agent (.call n)
  brings : t.before.BringsFor n p.queue event handle
  taken : t.after.system.phase? n = some (.awaiting handle none)

theorem Transition.TakesEvent.brought (takes : u.TakesEvent n p event handle) :
    u.brought? p.queue Call.Phase.isTaken = some n := by
  obtain ⟨φ, hφ, brings, -⟩ := takes.brings
  exact Transition.brought?_eq_some.mpr ⟨takes.call, φ, event, _, hφ, brings, takes.taken, rfl⟩

/-- The call goes to ask for its wait in the instant in which it is made. -/
theorem Transition.Submits.begins (submits : b.Submits n i p event)
    (h : b.before.after? b.action = some b.after) :
    b.after.system.phase? n = some (.submitting p.correlator p.queue event) ∧
      b.after.system.host.now = b.before.system.host.now := by
  obtain ⟨⟨target, action, found⟩, hp, rfl⟩ := submits
  rw [action] at h
  have made : (b.before.submit target event).2 = b.after := Option.some.inj h
  rw [← made]
  unfold Session.submit Session.correlatorOf? Session.queueOf?
  rw [found]
  dsimp only
  rw [hp]
  refine ⟨?_, rfl⟩
  simp [Session.call, System.startCall, System.phase?]

/-- Where the clock has been punctual since call `n` was made, no time has passed. -/
def Session.Prompt (x : Session) (since : List Transition) (start : Nat) : Prop :=
  (∀ u ∈ since, u.isPunctual) → x.system.host.now = start

/-- The call has registered waiter `w` at its publisher; it did so at once where the clock has been
punctual. -/
def Enrolled (since : List Transition) (start : Nat) (p : Publisher) (event : ChangeEvent)
    (w : Waiter) : Prop :=
  ∃ b ∈ since, b.Enrolls p.correlator event p.config.ackTimeout w ∧
    ((∀ u ∈ since, u.isPunctual) → b.before.system.host.now = start)

theorem Enrolled.append (enrolled : Enrolled since start p event w) (later : List Transition) :
    Enrolled (later ++ since) start p event w := by
  obtain ⟨b, hb, enrolls, prompt⟩ := enrolled
  exact ⟨b, List.mem_append_right _ hb, enrolls,
    fun punctual => prompt fun u hu => punctual u (List.mem_append_right _ hu)⟩

/-- A step of its own ends a call that has submitted an event: its registration was refused, its
event was, or its wait is over. -/
inductive Transition.FinishesWith (t : Transition) (n : Nat) (p : Publisher) (event : ChangeEvent) :
    Call.Result → Prop where
  | unregistered (e : DispatchError) :
      t.RefusesWait n p event e → FinishesWith t n p event (.failed e)
  | unqueued (handle : WaitHandle) (e : DispatchError) :
      t.RefusesEvent n p event handle e → FinishesWith t n p event (.failed e)
  | waited (handle : WaitHandle) (result : Call.Result) :
      t.EndsWait n handle none result → FinishesWith t n p event result

/-- How a call stands that has submitted an event at the moment `start`. -/
inductive Session.Submitted (x : Session) (since : List Transition) (start n : Nat) (p : Publisher)
    (event : ChangeEvent) : Prop where
  | asking :
      x.system.phase? n = some (.submitting p.correlator p.queue event) → x.Prompt since start →
      Submitted x since start n p event
  | coming (w : Waiter) :
      Enrolled since start p event w →
      x.system.phase? n = some (.enqueuing p.queue event (some ⟨p.correlator, w.serial⟩)) →
      x.Prompt since start → Submitted x since start n p event
  | inLine (w : Waiter) (timer : Timer) :
      Enrolled since start p event w →
      x.system.phase? n = some (.inLine p.queue event timer (some ⟨p.correlator, w.serial⟩)) →
      ((∀ u ∈ since, u.isPunctual) → timer.due = start + p.config.enqueueTimeout.ticks) →
      Submitted x since start n p event
  | waiting (w : Waiter) (u : Transition) :
      Enrolled since start p event w → u ∈ since →
      u.TakesEvent n p event ⟨p.correlator, w.serial⟩ →
      x.Waiting n ⟨p.correlator, w.serial⟩ none → Submitted x since start n p event
  | ended (u : Transition) (result : Call.Result) :
      u ∈ since → u.FinishesWith n p event result →
      x.system.phase? n = some (.ended u.before.system.host.now result) →
      Submitted x since start n p event
  | aborted : x.system.phase? n = some .aborted → Submitted x since start n p event

/-- A call that has yet to ask for its wait, or to come to its queue, can do so. -/
theorem stepCall?_of_outset {s : System} {c : Nat}
    (hφ : s.phase? n = some (.submitting c j event) ∨
      ∃ next, s.phase? n = some (.enqueuing j event next)) : ∃ t, s.stepCall? n = some t := by
  cases hs : s.stepCall? n with
  | some t => exact ⟨t, rfl⟩
  | none =>
    unfold System.stepCall? at hs
    rcases hφ with hφ | ⟨next, hφ⟩
    · rw [System.stepCall?_of_phase hφ] at hs
      dsimp only at hs
      split at hs <;> cases hs
    · rw [System.stepCall?_of_phase hφ] at hs
      cases hs

/-- Such a call can go on, so the system is not at rest. -/
theorem Runs.not_quiescent_of_outset {c : Nat} (run : Runs ts x)
    (hφ : x.system.phase? n = some (.submitting c j event) ∨
      ∃ next, x.system.phase? n = some (.enqueuing j event next)) : ¬x.system.isQuiescent := by
  intro quiescent
  obtain ⟨s, hs⟩ := stepCall?_of_outset hφ
  obtain ⟨φ, there⟩ : ∃ φ, x.system.phase? n = some φ := by
    rcases hφ with hφ | ⟨next, hφ⟩
    · exact ⟨_, hφ⟩
    · exact ⟨_, hφ⟩
  obtain ⟨call, hcall, -⟩ := Option.map_eq_some_iff.mp there
  have still : x.system.stepCall? n = none :=
    System.step?_of_quiescent quiescent (run.covers n (List.getElem?_eq_some_iff.mp hcall).1)
  cases still.symm.trans hs

/-- No time passes before that. -/
theorem Session.Prompt.next {c : Nat} (prompt : x.Prompt since start) (run : Runs ts x)
    (h : x.after? a = some y)
    (hφ : x.system.phase? n = some (.submitting c j event) ∨
      ∃ next, x.system.phase? n = some (.enqueuing j event next)) :
    y.Prompt (⟨x, a, y⟩ :: since) start := by
  intro punctual
  rw [← prompt fun u hu => punctual u (List.mem_cons_of_mem _ hu)]
  refine now_of_after? h fun moment tick => ?_
  subst tick
  exact run.not_quiescent_of_outset hφ
    (System.isPunctual_iff.mp (punctual _ List.mem_cons_self)).1

/-- The step of a call that brings its event. -/
theorem Session.BringsFor.submitted (brings : x.BringsFor n p.queue event ⟨p.correlator, w.serial⟩)
    (h : x.after? (.agent (.call n)) = some y) (supplied : x.Supplied p)
    (enrolled : Enrolled since start p event w)
    (prompt : ∀ next, x.system.phase? n = some (.enqueuing p.queue event next) →
      x.Prompt since start) :
    y.Submitted (⟨x, .agent (.call n), y⟩ :: since) start n p event := by
  obtain ⟨q, hq, -, timeout⟩ := supplied
  rcases brings.next h hq with ⟨e, ended, -⟩ | taken | ⟨timer, hφ, lined, due⟩
  · exact .ended _ (.failed e) List.mem_cons_self (.unqueued _ e ⟨rfl, brings, ended⟩) ended
  · exact .waiting w _ (enrolled.append [_]) List.mem_cons_self ⟨rfl, brings, taken⟩ (.inl taken)
  · refine .inLine w timer (enrolled.append [_]) lined fun punctual => ?_
    rw [due, timeout, prompt _ hφ fun u hu => punctual u (List.mem_cons_of_mem _ hu)]

theorem Session.Submitted.next (submitted : x.Submitted since start n p event) (run : Runs ts x)
    (h : x.after? a = some y) (linked : x.Linked p) (supplied : x.Supplied p) :
    y.Submitted (⟨x, a, y⟩ :: since) start n p event := by
  cases submitted with
  | asking hφ prompt =>
    have later := prompt.next run h (.inl hφ)
    by_cases own : a = .agent (.call n)
    · subst own
      obtain ⟨co, -, hc, timeout, -⟩ := linked
      rcases submitting_next h hφ hc with ⟨e, ended⟩ | ⟨w, enrolls, coming⟩
      · exact .ended _ (.failed e) List.mem_cons_self (.unregistered e ⟨rfl, hφ, ended⟩) ended
      · rw [timeout] at enrolls
        refine .coming w ⟨_, List.mem_cons_self, enrolls, fun punctual => ?_⟩ coming later
        exact prompt fun u hu => punctual u (List.mem_cons_of_mem _ hu)
    · rcases phase?_of_others h own hφ with same | gone
      · exact .asking same later
      · exact .aborted gone
  | coming w enrolled hφ prompt =>
    by_cases own : a = .agent (.call n)
    · subst own
      have brings : x.BringsFor n p.queue event ⟨p.correlator, w.serial⟩ := ⟨_, hφ, rfl, rfl⟩
      exact brings.submitted h supplied enrolled fun _ _ => prompt
    · rcases phase?_of_others h own hφ with same | gone
      · exact .coming w (enrolled.append [_]) same (prompt.next (c := 0) run h (.inr ⟨_, hφ⟩))
      · exact .aborted gone
  | inLine w timer enrolled hφ due =>
    by_cases own : a = .agent (.call n)
    · subst own
      have brings : x.BringsFor n p.queue event ⟨p.correlator, w.serial⟩ := ⟨_, hφ, rfl, rfl⟩
      refine brings.submitted h supplied enrolled fun next coming => ?_
      cases hφ.symm.trans coming
    · rcases phase?_of_others h own hφ with same | gone
      · exact .inLine w timer (enrolled.append [_]) same
          fun punctual => due fun u hu => punctual u (List.mem_cons_of_mem _ hu)
      · exact .aborted gone
  | waiting w u enrolled hu takes waiting =>
    have stands : x.Stands since n ⟨p.correlator, w.serial⟩ none := .waiting waiting
    cases stands.next h with
    | waiting still =>
      exact .waiting w u (enrolled.append [_]) (List.mem_cons_of_mem _ hu) takes still
    | aborted gone => exact .aborted gone
    | ended v result hv ends hφ => exact .ended v result hv (.waited _ result ends) hφ
  | ended u result hu finishes hφ =>
    exact .ended u result (List.mem_cons_of_mem _ hu) finishes (ended_of_after? h hφ)
  | aborted gone => exact .aborted (aborted_of_after? h gone)

theorem Runs.submitted (run : Runs (since ++ b :: before) z) (submits : b.Submits n i p event) :
    z.Submitted since b.before.system.host.now n p event := by
  obtain ⟨base, happens⟩ := run.of_suffix (List.suffix_append since (b :: before))
  obtain ⟨asks, now⟩ := submits.begins happens
  induction since generalizing z with
  | nil =>
    obtain rfl := (Runs.next base happens).unique run
    exact .asking asks fun _ => now
  | cons u since ih =>
    cases run with
    | @next _ x _ a run h =>
      have made : b ∈ since ++ b :: before := List.mem_append_right since List.mem_cons_self
      exact (ih run).next run h (run.linked_since made submits.publisher)
        (run.supplied_since made submits.publisher)

/-- How the call stood when a transition was made. -/
theorem Runs.submitted_before (run : Runs (since ++ b :: before) z)
    (submits : b.Submits n i p event) (hu : u ∈ since) :
    ∃ later m, since = later ++ u :: m ∧ Runs (m ++ b :: before) u.before ∧
      u.before.after? u.action = some u.after ∧
      u.before.Submitted m b.before.system.host.now n p event := by
  obtain ⟨later, m, rfl⟩ := List.append_of_mem hu
  rw [List.append_assoc, List.cons_append] at run
  obtain ⟨earlier, happens⟩ := run.of_suffix (List.suffix_append later _)
  exact ⟨later, m, rfl, earlier, happens, earlier.submitted submits⟩

/-- A call that a transition has ended stays as it was ended. -/
theorem Runs.stays_ended (run : Runs (since ++ before) z) (hu : u ∈ since) {moment : Nat}
    (ended : u.after.system.phase? n = some (.ended moment result)) :
    z.system.phase? n = some (.ended moment result) := by
  obtain ⟨later, m, rfl⟩ := List.append_of_mem hu
  rw [List.append_assoc, List.cons_append] at run
  exact run.ended_since run.split.2 ended

/-- A call that brings its event after a registration does so on behalf of the waiter that it has
registered. -/
theorem Session.BringsFor.enrolled (brings : x.BringsFor n j event handle)
    (submitted : x.Submitted since start n p event) :
    ∃ w, handle = ⟨p.correlator, w.serial⟩ ∧ Enrolled since start p event w := by
  obtain ⟨φ, hφ, brings, holds⟩ := brings
  cases submitted with
  | asking hφ' _ => cases Option.some.inj (hφ.symm.trans hφ') ▸ brings
  | coming w enrolled hφ' _ =>
    obtain rfl := Option.some.inj (hφ.symm.trans hφ')
    exact ⟨w, (Option.some.inj holds).symm, enrolled⟩
  | inLine w timer enrolled hφ' _ =>
    obtain rfl := Option.some.inj (hφ.symm.trans hφ')
    exact ⟨w, (Option.some.inj holds).symm, enrolled⟩
  | waiting _ _ _ _ _ waiting =>
    rcases waiting with hφ' | ⟨timer, hφ'⟩
    · cases Option.some.inj (hφ.symm.trans hφ') ▸ brings
    · cases Option.some.inj (hφ.symm.trans hφ') ▸ brings
  | ended _ _ _ _ hφ' => cases Option.some.inj (hφ.symm.trans hφ') ▸ brings
  | aborted hφ' => cases Option.some.inj (hφ.symm.trans hφ') ▸ brings

/-- The queue has taken the event of a call that is at its wait. -/
theorem Session.Waiting.taken {token : Option Nat} (waiting : x.Waiting n handle token)
    (submitted : x.Submitted since start n p event) :
    ∃ v ∈ since, v.TakesEvent n p event handle := by
  have phase : ∃ φ, x.system.phase? n = some φ ∧ φ.handle? = some handle ∧ φ.isPast := by
    rcases waiting with hφ | ⟨timer, hφ⟩
    · exact ⟨_, hφ, rfl, rfl⟩
    · exact ⟨_, hφ, rfl, rfl⟩
  obtain ⟨φ, hφ, holds, past⟩ := phase
  cases submitted with
  | asking hφ' _ => cases Option.some.inj (hφ.symm.trans hφ') ▸ past
  | coming _ _ hφ' _ => cases Option.some.inj (hφ.symm.trans hφ') ▸ past
  | inLine _ _ _ hφ' _ => cases Option.some.inj (hφ.symm.trans hφ') ▸ past
  | waiting w v _ hv takes waiting' =>
    have same : handle = ⟨p.correlator, w.serial⟩ := by
      rcases waiting' with hφ' | ⟨timer, hφ'⟩
      · obtain rfl := Option.some.inj (hφ.symm.trans hφ')
        exact (Option.some.inj holds).symm
      · obtain rfl := Option.some.inj (hφ.symm.trans hφ')
        exact (Option.some.inj holds).symm
    exact ⟨v, hv, same ▸ takes⟩
  | ended _ _ _ _ hφ' => cases Option.some.inj (hφ.symm.trans hφ') ▸ holds
  | aborted hφ' => cases Option.some.inj (hφ.symm.trans hφ') ▸ holds

/-! ## What a submission comes to -/

/-- Neither the waiter of the handle nor its entry is in use. -/
def Session.Forgets (x : Session) (handle : WaitHandle) : Prop :=
  ∀ r, x.registry? handle.correlator = some r →
    (∀ w ∈ r.waiters, w.serial ≠ handle.serial) ∧ ∀ e ∈ r.table.entries, e.serial ≠ handle.serial

/-- A call whose event is refused lets go of its waiter. -/
theorem Runs.forgets (run : Runs ts z) (hu : u ∈ ts) {e : DispatchError}
    (refuses : u.RefusesEvent n p event handle e) : z.Forgets handle := by
  obtain ⟨later, earlier, rfl⟩ := List.append_of_mem hu
  obtain ⟨base, happens⟩ := run.of_suffix (List.suffix_append later (u :: earlier))
  obtain ⟨x, a, y⟩ := u
  obtain ⟨call, ⟨φ, hφ, -, holds⟩, ended⟩ := refuses
  dsimp only at call hφ ended base happens
  subst call
  have released := released_of_ended happens hφ holds ended
  have held : handle ∈ x.handles := Session.mem_handles hφ holds
  have unused : ∀ r, z.registry? handle.correlator = some r →
      ∀ w ∈ r.waiters, w.serial ≠ handle.serial :=
    fun r hr w hw => run.unused_of_released held released hr hw
  refine fun r hr => ⟨unused r hr, fun e he => ?_⟩
  obtain ⟨w, hw, -, rfl⟩ := (run.wellFormed hr).mem_entries.mp he
  exact unused r hr w hw

/-- A registration that is refused changes no registry and no queue. -/
theorem Transition.RefusesWait.kept {e : DispatchError} (refuses : u.RefusesWait n p event e)
    (h : u.before.after? u.action = some u.after) :
    u.after.system.registries = u.before.system.registries ∧
      u.after.system.queues.map Queue.core = u.before.system.queues.map Queue.core ∧
      ∀ r, u.before.registry? p.correlator = some r →
        r.table.insert event.requestId event.name = .error e := by
  obtain ⟨x, a, y⟩ := u
  obtain ⟨call, asks, ended⟩ := refuses
  dsimp only at call asks ended h
  have refusal : (⟨x, a, y⟩ : Transition).Refuses p.correlator event e :=
    .call n _ _ call asks (.inl ⟨_, rfl⟩) ended
  obtain ⟨registries, refused⟩ := refusal.kept h
  refine ⟨registries, ?_, refused⟩
  subst call
  obtain ⟨s, hs, rfl⟩ := Option.map_eq_some_iff.mp h
  obtain ⟨φ, hφ, v, ψ, step, quiet⟩ := System.callSteps_of_stepCall? hs
  obtain rfl := Option.some.inj (asks.symm.trans hφ)
  rw [quiet.queues]
  cases step with
  | moved _ _ => rfl
  | registered _ _ _ => rfl
  | sent hφ _ => rcases hφ with h | ⟨_, h⟩ <;> cases h
  | stopped hφ => rcases hφ with h | h <;> cases h
  | answered hφ _ => rcases hφ with h | ⟨_, h⟩ <;> cases h

theorem Transition.RefusesEvent.reason {e : DispatchError}
    (refuses : u.RefusesEvent n p event handle e)
    (h : u.before.after? u.action = some u.after) (supplied : u.before.Supplied p) :
    event.validate = .error e ∨ e = .closed ∨
      e = .queueFull p.config.queueCapacity p.config.enqueueTimeout := by
  obtain ⟨q, hq, capacity, timeout⟩ := supplied
  rw [refuses.call] at h
  rcases refuses.brings.next h hq with ⟨e', ended, reason⟩ | taken | ⟨timer, -, lined, -⟩
  · cases refuses.ended.symm.trans ended
    rwa [capacity, timeout] at reason
  · cases refuses.ended.symm.trans taken
  · cases refuses.ended.symm.trans lined

/-- What comes of a submission to a publisher, in the run that has followed. -/
structure Submission (since before : List Transition) (z : Session) (b : Transition) (n : Nat)
    (p : Publisher) (event : ChangeEvent) : Prop where
  /-- The call still runs, was given up, or has been ended by a step of its own. -/
  stands : (∃ call, z.system.calls[n]? = some call ∧ call.isRunning) ∨
    z.system.phase? n = some .aborted ∨
    ∃ u ∈ since, ∃ result, u.FinishesWith n p event result ∧
      z.system.phase? n = some (.ended u.before.system.host.now result)
  /-- A registration is refused because the correlator is closed or because a wait for the request
  is registered. Then no registration has been made and the event is not brought to the queue. -/
  unregistered : ∀ u ∈ since, ∀ e, u.RefusesWait n p event e →
    z.system.phase? n = some (.ended u.before.system.host.now (.failed e)) ∧
    (∃ r, u.before.registry? p.correlator = some r ∧
      (r.table.closed ∧ e = .closed ∨
        r.table.closed = false ∧ ∃ id, event.requestId = some id ∧
          (∃ f ∈ r.table.entries, f.key = .request id) ∧
          e = .invalidEvent
            ("an acknowledgment wait is already registered for request " ++ id.written))) ∧
    u.after.system.registries = u.before.system.registries ∧
    u.after.system.queues.map Queue.core = u.before.system.queues.map Queue.core ∧
    Unsent (since ++ b :: before) z n
  /-- An event is refused because it is not valid, because the queue is closed, or because it has
  been full for as long as the call may stand in line. Then nothing is ever done with the event,
  and the registration of the call is gone. -/
  unqueued : ∀ u ∈ since, ∀ handle e, u.RefusesEvent n p event handle e →
    z.system.phase? n = some (.ended u.before.system.host.now (.failed e)) ∧
    (event.validate = .error e ∨ e = .closed ∨
      e = .queueFull p.config.queueCapacity p.config.enqueueTimeout) ∧
    (∃ w, handle = ⟨p.correlator, w.serial⟩ ∧
      Enrolled since b.before.system.host.now p event w) ∧
    z.Forgets handle ∧ Unsent (since ++ b :: before) z n
  /-- A call comes to its wait only after the queue has taken its event. -/
  waited : ∀ u ∈ since, ∀ handle result, u.EndsWait n handle none result →
    z.system.phase? n = some (.ended u.before.system.host.now result) ∧
    ∃ v ∈ since, v.TakesEvent n p event handle
  /-- A call returns an acknowledgment only if the queue has taken its event. -/
  acknowledged : ∀ moment ack, z.system.phase? n = some (.ended moment (.acknowledged ack)) →
    n ∈ accepted since p.queue ∧ ∃ v ∈ since, ∃ handle, v.TakesEvent n p event handle
  /-- Where the clock has been punctual, the call is over at the latest when the longer of the two
  timeouts has passed and nothing can go on. -/
  bounded : (∀ u ∈ since, u.isPunctual) → z.system.isQuiescent →
    b.before.system.host.now +
        max p.config.enqueueTimeout.ticks p.config.ackTimeout.ticks ≤ z.system.host.now →
    ∃ call, z.system.calls[n]? = some call ∧ call.isRunning = false

/-- A call that has ended was ended by a step of its own. -/
theorem Session.Submitted.finished {moment : Nat} (submitted : z.Submitted since start n p event)
    (ended : z.system.phase? n = some (.ended moment result)) :
    ∃ u ∈ since, u.FinishesWith n p event result := by
  cases submitted with
  | ended u result' hu finishes hφ =>
    cases ended.symm.trans hφ
    exact ⟨u, hu, finishes⟩
  | waiting _ _ _ _ _ waiting => exact (waiting.not_ended ended).elim
  | asking hφ _ => cases ended.symm.trans hφ
  | coming _ _ hφ _ => cases ended.symm.trans hφ
  | inLine _ _ _ hφ _ => cases ended.symm.trans hφ
  | aborted hφ => cases ended.symm.trans hφ

/-- A call that has submitted an event and is in line or at its wait where nothing can go on has the
longer of the two timeouts still before it. -/
theorem Session.Submitted.now_lt (submitted : z.Submitted since start n p event)
    (run : Runs (since ++ b :: before) z) (punctual : ∀ u ∈ since, u.isPunctual)
    (quiescent : z.system.isQuiescent) :
    (∃ moment result, z.system.phase? n = some (.ended moment result)) ∨
      z.system.phase? n = some .aborted ∨
      z.system.host.now < start + max p.config.enqueueTimeout.ticks p.config.ackTimeout.ticks := by
  cases submitted with
  | asking hφ _ => exact absurd quiescent (run.not_quiescent_of_outset (.inl hφ))
  | coming w _ hφ _ =>
    exact absurd quiescent (run.not_quiescent_of_outset (c := 0) (.inr ⟨_, hφ⟩))
  | inLine w timer enrolled hφ due =>
    obtain ⟨call, hcall, -⟩ := Option.map_eq_some_iff.mp hφ
    have still : z.system.stepCall? n = none :=
      System.step?_of_quiescent quiescent (run.covers n (List.getElem?_eq_some_iff.mp hcall).1)
    have left := left_of_still still hφ
    rw [due punctual] at left
    have longer := Nat.le_max_left p.config.enqueueTimeout.ticks p.config.ackTimeout.ticks
    exact .inr (.inr (by omega))
  | waiting w u enrolled hu takes waiting =>
    obtain ⟨b', hb', enrolls, prompt⟩ := enrolled
    obtain ⟨v, found, left⟩ :=
      System.left_of_waitResult? (waiting.waitResult?_eq_none run quiescent)
    obtain ⟨later, earlier, split⟩ := List.append_of_mem (List.mem_append_left (b :: before) hb')
    rw [split] at run
    obtain ⟨q, ⟨r, hr, hq⟩, serial, rfl⟩ := enrolls.become run waiting.mem_handles
    obtain rfl := Option.some.inj ((waiter?_eq run.owned hr hq).symm.trans found)
    obtain ⟨-, -, deadline⟩ := enrolls.waiter
    have due : q.deadline = start + p.config.ackTimeout.ticks := prompt punctual ▸ deadline
    have longer := Nat.le_max_right p.config.enqueueTimeout.ticks p.config.ackTimeout.ticks
    exact .inr (.inr (by omega))
  | ended u result _ _ hφ => exact .inl ⟨_, _, hφ⟩
  | aborted gone => exact .inr (.inl gone)

/-- The call that a phase belongs to. -/
theorem isRunning_of_phase? {s : System} {running : Bool} (hφ : s.phase? n = some φ)
    (runs : (⟨.none, φ⟩ : Call).isRunning = running) :
    ∃ call, s.calls[n]? = some call ∧ call.isRunning = running := by
  obtain ⟨call, hcall, rfl⟩ := Option.map_eq_some_iff.mp hφ
  exact ⟨call, hcall, runs⟩

/-- A call that submits an event to a publisher registers a wait, brings the event and waits, and
each of these can fail. If the registration is refused or the event is, nothing is ever done with
the event, and nothing is left of the registration. If the call returns an acknowledgment, the queue
has taken the event. And when the longer of the two timeouts has passed, it is over. -/
theorem submission_bounded (run : Runs (since ++ b :: before) z) (submits : b.Submits n i p event) :
    Submission since before z b n p event := by
  have submitted := run.submitted submits
  have waited : ∀ u ∈ since, ∀ handle result, u.EndsWait n handle none result →
      ∃ v ∈ since, v.TakesEvent n p event handle := by
    intro u hu handle result ends
    obtain ⟨later, m, rfl, -, -, submitted⟩ := run.submitted_before submits hu
    obtain ⟨v, hv, takes⟩ := ends.waiting.taken submitted
    exact ⟨v, List.mem_append_right _ (List.mem_cons_of_mem u hv), takes⟩
  have made : ∀ {m}, b ∈ m ++ b :: before := List.mem_append_right _ List.mem_cons_self
  refine ⟨?stands, ?unregistered, ?unqueued, ?waited, ?acknowledged, ?bounded⟩
  case stands =>
    cases submitted with
    | asking hφ _ => exact .inl (isRunning_of_phase? hφ rfl)
    | coming _ _ hφ _ => exact .inl (isRunning_of_phase? hφ rfl)
    | inLine _ _ _ hφ _ => exact .inl (isRunning_of_phase? hφ rfl)
    | waiting _ _ _ _ _ waiting =>
      rcases waiting with hφ | ⟨timer, hφ⟩
      · exact .inl (isRunning_of_phase? hφ rfl)
      · exact .inl (isRunning_of_phase? hφ rfl)
    | ended u result hu finishes hφ => exact .inr (.inr ⟨u, hu, result, finishes, hφ⟩)
    | aborted gone => exact .inr (.inl gone)
  case unregistered =>
    intro u hu e refuses
    have ended := run.stays_ended hu refuses.ended
    have untaken := run.untaken (List.mem_append_left _ hu) refuses.asks rfl refuses.ended
    obtain ⟨later, m, rfl, earlier, happens, -⟩ := run.submitted_before submits hu
    obtain ⟨registries, queues, refused⟩ := refuses.kept happens
    obtain ⟨co, -, hc, -⟩ : u.before.Linked p := earlier.linked_since made submits.publisher
    have found : u.before.registry? p.correlator = some co.registry :=
      System.getElem?_registries hc
    exact ⟨ended, ⟨_, found, PendingTable.insert_error (refused _ found)⟩, registries, queues,
      run.unsent untaken ended rfl⟩
  case unqueued =>
    intro u hu handle e refuses
    have ended := run.stays_ended hu refuses.ended
    have forgets := run.forgets (List.mem_append_left _ hu) refuses
    obtain ⟨φ, hφ, early⟩ := refuses.brings.early
    have untaken := run.untaken (List.mem_append_left _ hu) hφ early refuses.ended
    obtain ⟨later, m, rfl, earlier, happens, submitted⟩ := run.submitted_before submits hu
    obtain ⟨w, handle, enrolled⟩ := refuses.brings.enrolled submitted
    refine ⟨ended, refuses.reason happens (earlier.supplied_since made submits.publisher),
      ⟨w, handle, ?_⟩, forgets, run.unsent untaken ended rfl⟩
    have longer := enrolled.append (later ++ [u])
    rwa [List.append_assoc, List.singleton_append] at longer
  case waited => exact fun u hu handle result ends =>
    ⟨run.stays_ended hu ends.ended, waited u hu handle result ends⟩
  case acknowledged =>
    intro moment ack acknowledged
    obtain ⟨u, hu, finishes⟩ := submitted.finished acknowledged
    cases finishes with
    | waited handle _ ends =>
      obtain ⟨v, hv, takes⟩ := waited u hu handle _ ends
      exact ⟨mem_accepted.mpr ⟨v, hv, takes.brought⟩, v, hv, handle, takes⟩
  case bounded =>
    intro punctual quiescent late
    rcases submitted.now_lt run punctual quiescent with ⟨moment, result, hφ⟩ | hφ | soon
    · exact isRunning_of_phase? hφ rfl
    · exact isRunning_of_phase? hφ rfl
    · exact absurd soon (Nat.not_lt_of_le late)

/-- A publisher begins to close, and an event is submitted to it; the latest action first. -/
def submittedLate : List Action :=
  [.perform (.submit "p" (creation none)), .agent (.call 0), .perform (.close "p"),
   .perform (.openPublisher "p" {})]

/-- The wait is registered, but the queue is closed; the latest action first. -/
def submissionRefused : List Action := [.agent (.call 1), .agent (.call 1)]

set_option maxRecDepth 100000 in
/-- The event is refused and the registration, which was made before, is gone. -/
theorem refused_when_closing :
    let b := happening (.perform (.submit "p" (creation none))) submittedLate.tail
    let since := (play (submissionRefused ++ submittedLate)).1.take 2
    let z := (play (submissionRefused ++ submittedLate)).2
    ∃ p : Publisher, b.Submits 1 0 p (creation none) ∧
      (∃ u ∈ since, u.RefusesEvent 1 p (creation none) ⟨0, 0⟩ .closed) ∧
      z.system.phase? 1 = some (.ended 0 (.failed .closed)) ∧ z.Forgets ⟨0, 0⟩ ∧
      Unsent (play (submissionRefused ++ submittedLate)).1 z 1 := by
  intro b since z
  let u := happening (.agent (.call 1)) (.agent (.call 1) :: submittedLate)
  have present : b.before.system.publishers[0]?.map (fun p => (p.queue, p.correlator)) =
      some (0, 0) := by rfl
  obtain ⟨p, hp, both⟩ := Option.map_eq_some_iff.mp present
  obtain ⟨queue, -⟩ := Prod.mk.inj both
  have submits : b.Submits 1 0 p (creation none) := ⟨⟨"p", rfl, by rfl⟩, hp, by rfl⟩
  have split : (play (submissionRefused ++ submittedLate)).1 =
      since ++ b :: (play submittedLate.tail).1 := by rfl
  have hu : u ∈ since := by
    have first : since = u :: since.tail := by rfl
    exact first ▸ List.mem_cons_self
  have refuses : u.RefusesEvent 1 p (creation none) ⟨0, 0⟩ .closed :=
    ⟨rfl, ⟨.enqueuing 0 (creation none) (some ⟨0, 0⟩), by rfl, by rw [queue]; rfl, rfl⟩, by rfl⟩
  have run : Runs (since ++ b :: (play submittedLate.tail).1) z := split ▸ play_runs _
  obtain ⟨ended, -, -, forgets, unsent⟩ :=
    (submission_bounded run submits).unqueued u hu _ _ refuses
  exact ⟨p, submits, ⟨u, hu, refuses⟩, ended, forgets, split ▸ unsent⟩

end ChangeDispatch.Script
