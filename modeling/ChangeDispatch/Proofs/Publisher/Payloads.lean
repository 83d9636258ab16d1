import ChangeDispatch.Proofs.Broker.Receivers
import ChangeDispatch.Proofs.Publisher.Log

/-!
# What a publisher puts on its topic

A queue lets valid events in and no others, so all that a worker holds, and all that is
buffered or in line for it, was brought by a call and is valid. What a worker publishes is
therefore the wire form of such an event. This is about the events one by one; their order
is that of the log.
-/
namespace ChangeDispatch.Script

variable {ts : List Transition} {x y z : Session} {a : Action} {i j n : Nat} {p p' : Publisher}
  {q q' : Queue} {item : Item}

/-- A call of the run has brought the event to queue `j`, and the event is valid. -/
def Submitted (ts : List Transition) (j : Nat) (item : Item) : Prop :=
  (∃ u ∈ ts, u.Brings j item) ∧ item.event.validate = .ok ()

theorem Submitted.later (known : Submitted ts j item) (t : Transition) :
    Submitted (t :: ts) j item := by
  obtain ⟨⟨u, hu, brings⟩, valid⟩ := known
  exact ⟨⟨u, List.mem_cons_of_mem _ hu, brings⟩, valid⟩

/-! ## The door of a queue -/

/-- An event that is not valid does not get to any queue. -/
theorem cores_of_invalid {event : ChangeEvent} {next : Option WaitHandle} {e : DispatchError}
    (h : x.after? (.agent (.call n)) = some y)
    (phase : x.system.phase? n = some (.enqueuing j event next))
    (invalid : event.validate = .error e) :
    y.system.queues.map Queue.core = x.system.queues.map Queue.core := by
  obtain ⟨s, hs, rfl⟩ := Option.map_eq_some_iff.mp h
  obtain ⟨φ, hφ, v, ψ, step, quiet⟩ := System.callSteps_of_stepCall? hs
  obtain rfl := Option.some.inj (phase.symm.trans hφ)
  have refused : ∀ {P : Prop}, event.validate = .ok () → P := fun valid =>
    nomatch valid.symm.trans invalid
  cases step with
  | invalid _ =>
    exact quiet.queues.trans (congrArg _ (System.UpToRegistries.letGo x.system next).queues)
  | refused valid _ => exact refused valid
  | accepted valid _ _ => exact refused valid
  | blocked valid _ _ _ => exact refused valid
  | moved bare _ => cases bare
  | sent sends _ => rcases sends with he | ⟨_, he⟩ <;> cases he
  | stopped stops => rcases stops with he | he <;> cases he
  | registered _ _ registers => rcases registers with ⟨_, he, -⟩ | ⟨_, he, -⟩ <;> cases he
  | answered waits _ => rcases waits with he | ⟨_, he⟩ <;> cases he

/-- Only its worker and calls with valid events change what is in a queue. -/
theorem entered_of_after? (run : Runs ts x) (h : x.after? a = some y)
    (others : a ≠ .agent (.worker i)) (hp : x.system.publishers[i]? = some p)
    (hq : x.system.queues[p.queue]? = some q) :
    ∃ p' q', y.system.publishers[i]? = some p' ∧ p'.core = p.core ∧
      y.system.queues[p.queue]? = some q' ∧
      ∀ item ∈ q'.buffer ++ q'.blocked, item ∈ q.buffer ++ q.blocked ∨
        (⟨x, a, y⟩ : Transition).Brings p.queue item ∧ item.event.validate = .ok () := by
  obtain ⟨p', q', new, hp', core, hq', joins⟩ := joins_of_after? run h others hp hq
  refine ⟨p', q', hp', core, hq', fun item hi => ?_⟩
  have entered : item ∈ q.buffer ++ q.blocked ∨ (⟨x, a, y⟩ : Transition).Brings p.queue item := by
    rcases List.mem_append.mp hi with buffered | line
    · rw [joins.buffer] at buffered
      rcases List.mem_append.mp buffered with old | new
      · exact .inl (List.mem_append_left _ old)
      · exact .inr (joins.brought item new)
    · exact (joins.line item line).imp_left (List.mem_append_right _)
  rcases entered with old | brings
  · exact .inl old
  · cases valid : item.event.validate with
    | ok _ => exact .inr ⟨brings, rfl⟩
    | error e =>
      obtain ⟨action, next, phase⟩ := brings
      dsimp only at action phase
      subst action
      obtain ⟨q'', hq'', same⟩ := exists_of_map_eq (cores_of_invalid h phase valid) hq'
      obtain rfl := Option.some.inj (hq.symm.trans hq'')
      obtain ⟨buffer, blocked⟩ := Queue.of_core_items same
      rw [buffer, blocked] at hi
      exact .inl hi

/-! ## What a publisher has -/

/-- Every event that a publisher holds, or that is buffered or in line for it, was brought by a
call and is valid. -/
def Stocked (ts : List Transition) (z : Session) : Prop :=
  ∀ (i : Nat) (p : Publisher) (q : Queue),
    z.system.publishers[i]? = some p → z.system.queues[p.queue]? = some q →
      ∀ item ∈ p.worker.held ++ (q.buffer ++ q.blocked), Submitted ts p.queue item

namespace Stocked

variable (stocked : Stocked ts x)
include stocked

/-- The worker makes a step. -/
theorem own (h : x.after? (.agent (.worker i)) = some y) (hp' : y.system.publishers[i]? = some p')
    (hq' : y.system.queues[p'.queue]? = some q') :
    ∀ item ∈ p'.worker.held ++ (q'.buffer ++ q'.blocked), Submitted ts p'.queue item := by
  obtain ⟨s, hs, rfl⟩ := Option.map_eq_some_iff.mp h
  obtain ⟨p, q, host, q₁, w, hp, hq, step, rfl⟩ := Agent.step?_worker hs
  have after : (x.system.publishers.modify i fun p => { p with worker := w })[i]? =
      some { p with worker := w } := by simp [hp]
  have after' : (x.system.queues.modify p.queue fun _ => q₁)[p.queue]? = some q₁ := by simp [hq]
  obtain rfl := Option.some.inj (after.symm.trans hp')
  obtain rfl := Option.some.inj (after'.symm.trans hq')
  obtain ⟨new, passes⟩ := (Worker.step_of_step? step).passes
  intro item hi
  apply stocked i p q hp hq
  rw [← List.append_assoc] at hi ⊢
  rcases List.mem_append.mp hi with kept | line
  · -- what the worker keeps is among all that its step passes on
    have passed : item ∈ p.worker.held ++ q.buffer ++ new :=
      passes.order ▸ List.mem_append_right _ kept
    rcases List.mem_append.mp passed with old | entered
    · exact List.mem_append_left _ old
    · exact List.mem_append_right _ (passes.line item (List.mem_append_left _ entered))
  · exact List.mem_append_right _ (passes.line item (List.mem_append_right _ line))

theorem others (run : Runs ts x) (h : x.after? a = some y) (others : a ≠ .agent (.worker i))
    (hp : x.system.publishers[i]? = some p) (hp' : y.system.publishers[i]? = some p')
    (hq' : y.system.queues[p'.queue]? = some q') :
    ∀ item ∈ p'.worker.held ++ (q'.buffer ++ q'.blocked),
      Submitted (⟨x, a, y⟩ :: ts) p'.queue item := by
  obtain ⟨q, hq, -⟩ := run.ledgers.ledger i p hp
  obtain ⟨p₁, q₁, hp₁, core, hq₁, entered⟩ := entered_of_after? run h others hp hq
  obtain rfl := Option.some.inj (hp'.symm.trans hp₁)
  rw [(Publisher.of_core core).1] at hq' ⊢
  obtain rfl := Option.some.inj (hq'.symm.trans hq₁)
  have held : p'.worker.held = p.worker.held := by
    rw [Worker.held, Publisher.phase_of_core core, Worker.held]
  intro item hi
  have old : item ∈ p.worker.held ++ (q.buffer ++ q.blocked) →
      Submitted (⟨x, a, y⟩ :: ts) p.queue item := fun known =>
    (stocked i p q hp hq item known).later _
  rw [held] at hi
  rcases List.mem_append.mp hi with hand | waiting
  · exact old (List.mem_append_left _ hand)
  · rcases entered item waiting with known | ⟨brings, valid⟩
    · exact old (List.mem_append_right _ known)
    · exact ⟨⟨_, List.mem_cons_self, brings⟩, valid⟩

end Stocked

theorem Runs.stocked (run : Runs ts z) : Stocked ts z := by
  induction run with
  | start => exact fun _ _ _ hp => (nomatch hp)
  | @next ts x y a run h ih =>
    intro i p' q' hp' hq'
    by_cases own : a = .agent (.worker i)
    · subst own
      exact fun item hi => (ih.own h hp' hq' item hi).later _
    · cases hp : x.system.publishers[i]? with
      | some p => exact ih.others run h own hp hp' hq'
      | none =>
        obtain ⟨-, idle, buffer, blocked, -⟩ := fresh_of_after? run h hp hp' hq'
        rw [Worker.held_of_idle idle, buffer, blocked]
        exact fun item hi => absurd hi List.not_mem_nil

/-! ## What a worker publishes -/

/-- What a worker puts on a topic is the wire form of a valid event that was brought to the
queue of its publisher. -/
theorem Runs.submitted_of_puts {topic : String} {payload : Payload} {u : Transition}
    (run : Runs ts z) (hu : u ∈ ts) (action : u.action = .agent (.worker i))
    (puts : u.Puts topic n payload) :
    ∃ p item, u.before.system.publishers[i]? = some p ∧ Submitted ts p.queue item ∧
      payload = item.event.write := by
  obtain ⟨since, earlier, rfl⟩ := List.append_of_mem hu
  obtain ⟨before, happens⟩ := run.of_suffix (List.suffix_append since (u :: earlier))
  obtain ⟨x, a, y⟩ := u
  dsimp only at action happens before ⊢
  subst action
  obtain ⟨s, hs, rfl⟩ := Option.map_eq_some_iff.mp happens
  obtain ⟨p, q, host, q', w, hp, hq, step, rfl⟩ := Agent.step?_worker hs
  obtain ⟨-, -, injected | published⟩ := puts
  · cases injected
  · change host.broker.published = x.system.host.broker.published ++ [(topic, payload)] at published
    have unpublished : host.broker.published ≠ x.system.host.broker.published := fun same => by
      simpa using same.symm.trans published
    have hand : ∃ item, p.worker.phase.item? = some item ∧ payload = item.event.write := by
      cases Worker.step_of_step? step with
      | @published item _ hand put =>
        refine ⟨item, hand, ?_⟩
        rw [put.published] at published
        exact (Prod.mk.inj (List.singleton_inj.mp (List.append_cancel_left published))).2.symm
      | taken _ _ _ => exact absurd rfl unpublished
      | drained _ _ _ => exact absurd rfl unpublished
      | abandoned _ _ still => exact absurd still.published unpublished
      | interrupted _ _ still => exact absurd still.published unpublished
      | moved _ _ still => exact absurd still.published unpublished
      | dropped _ still => exact absurd still.published unpublished
    obtain ⟨item, hand, wire⟩ := hand
    have held : item ∈ p.worker.held := by
      rw [Worker.held_of_item? hand]
      exact List.mem_singleton.mpr rfl
    obtain ⟨⟨v, hv, brings⟩, valid⟩ :=
      before.stocked i p q hp hq item (List.mem_append_left _ held)
    refine ⟨p, item, hp, ⟨⟨v, ?_, brings⟩, valid⟩, wire⟩
    exact List.mem_append_right _ (List.mem_cons_of_mem _ hv)

end ChangeDispatch.Script
