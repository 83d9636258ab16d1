import ChangeDispatch.Proofs.Publisher.Retry

/-!
# An outage of the broker

While the broker fails a number of publishes and nobody else publishes, a worker spends them on
its events one after the other: the first events have all their attempts failed and are dropped,
at most one event has some failures and is published in the end, and all others are published at
the first attempt. So what was dropped is the number of failures divided by the number of
attempts, and what was published is the rest, in order. How long it takes is not said here.
-/
namespace ChangeDispatch

/-- The number of attempts on the event in hand that have failed. -/
inductive Worker.Phase.Failed (m : Nat) : Nat → Worker.Phase → Prop where
  | idle : Failed m 0 .idle
  | attempting {c : Nat} {job : Job} : job.attempt = c + 1 → c < m → Failed m c (.attempting job)
  | publishing {c : Nat} {job : Job} {timer : Timer} :
      job.attempt = c + 1 → c < m → Failed m c (.publishing job timer)
  | resting {c : Nat} {job : Job} {timer : Timer} :
      job.attempt = c → c < m → Failed m c (.resting job timer)

/-- How `n` failures are spent where an event has `m` attempts: after some events were dropped and
some were published, and `c` attempts on the one in hand have failed, so many failures are left. -/
structure Spent (n m dropped published c failed left : Nat) : Prop where
  all : left + failed = n
  few : c < m
  /-- Until an event is published, all attempts have failed. -/
  first : published = 0 → failed = dropped * m + c
  /-- From then on none fails. -/
  rest : 0 < published → left = 0 ∧ c = 0 ∧ dropped * m ≤ failed ∧ failed < dropped * m + m

namespace Spent

variable {n m dropped published c failed left : Nat}

theorem published_eq_zero (spent : Spent n m dropped published c failed (left + 1)) :
    published = 0 := by
  by_contra some
  have := (spent.rest (Nat.pos_of_ne_zero some)).1
  omega

/-- An attempt fails that is not the last. -/
theorem fail (spent : Spent n m dropped published c failed (left + 1)) (more : c + 1 < m) :
    Spent n m dropped published (c + 1) (failed + 1) left := by
  have none := spent.published_eq_zero
  have first := spent.first none
  have all := spent.all
  exact ⟨by omega, more, fun _ => by omega, fun some => by omega⟩

/-- The last attempt fails. -/
theorem drop (spent : Spent n m dropped published c failed (left + 1)) (last : c + 1 = m) :
    Spent n m (dropped + 1) published 0 (failed + 1) left := by
  have none := spent.published_eq_zero
  have first := spent.first none
  have all := spent.all
  refine ⟨by omega, by omega, fun _ => ?_, fun some => by omega⟩
  rw [Nat.add_mul, Nat.one_mul, ← last]
  rw [← last] at first
  omega

/-- An attempt succeeds. -/
theorem publish (spent : Spent n m dropped published c failed 0) :
    Spent n m dropped (published + 1) 0 failed 0 := by
  have few := spent.few
  refine ⟨spent.all, by omega, fun none => by omega, fun _ => ⟨rfl, rfl, ?_⟩⟩
  by_cases none : published = 0
  · have := spent.first none
    omega
  · exact (spent.rest (Nat.pos_of_ne_zero none)).2.2

/-- What was spent on events that are all done with. -/
theorem closed (spent : Spent n m dropped published 0 failed left) :
    dropped = min (dropped + published) (n / m) ∧ failed = min n ((dropped + published) * m) := by
  obtain ⟨all, few, first, rest⟩ := spent
  by_cases none : published = 0
  · have failed_eq := first none
    have le : dropped ≤ n / m := (Nat.le_div_iff_mul_le few).mpr (by omega)
    subst none
    constructor
    · rw [Nat.add_zero, Nat.min_eq_left le]
    · rw [Nat.add_zero, Nat.min_eq_right (by omega)]
      omega
  · obtain ⟨left_eq, -, lower, upper⟩ := rest (Nat.pos_of_ne_zero none)
    have quotient : n / m = dropped :=
      Nat.div_eq_of_lt_le (by omega) (by rw [Nat.add_mul]; omega)
    have many : (dropped + 1) * m ≤ (dropped + published) * m :=
      Nat.mul_le_mul_right m (by omega)
    rw [Nat.add_mul] at many
    constructor
    · rw [quotient]
      omega
    · rw [Nat.min_eq_left (by omega)]
      omega

end Spent

/-- The number of events that an outage makes a publisher drop, where the broker fails a number of
publishes and the publisher has a number of events. -/
def Publisher.loses (p : Publisher) (failures events : Nat) : Nat :=
  min events (failures / max p.config.maxPublishAttempts 1)

/-- The number of attempts that fail in the outage. -/
def Publisher.fails (p : Publisher) (failures events : Nat) : Nat :=
  min failures (events * max p.config.maxPublishAttempts 1)

namespace Host

variable {h k : Host} {topic : String} {payload : Payload}

/-- A publish succeeds on a broker that is open, which then was to fail none. -/
theorem publish_succeeded (opened : h.broker.closed = false)
    (hp : h.publish topic payload = (.ok (), k)) :
    k.broker.attempts = h.broker.attempts + 1 ∧ h.broker.failPublishes = 0 ∧
      k.broker.failPublishes = 0 ∧
      k.broker.published = h.broker.published ++ [(topic, payload)] := by
  unfold Host.publish Broker.publish at hp
  rw [if_neg (by simp [opened])] at hp
  cases left : h.broker.failPublishes with
  | succ _ =>
    rw [left] at hp
    cases hp
  | zero =>
    rw [left] at hp
    cases hp
    exact ⟨rfl, rfl, rfl, rfl⟩

/-- A publish fails on a broker that is open, which then was to fail one. -/
theorem publish_failed {e : TransportError} (opened : h.broker.closed = false)
    (hp : h.publish topic payload = (.error e, k)) :
    k.broker.attempts = h.broker.attempts + 1 ∧
      h.broker.failPublishes = k.broker.failPublishes + 1 ∧
      k.broker.published = h.broker.published := by
  unfold Host.publish Broker.publish at hp
  rw [if_neg (by simp [opened])] at hp
  cases left : h.broker.failPublishes with
  | succ _ =>
    rw [left] at hp
    cases hp
    exact ⟨rfl, rfl, rfl⟩
  | zero =>
    rw [left] at hp
    cases hp

end Host

/-! ## The worker in an outage -/

namespace Worker

/-- Events that were dropped, and then events that were published, with their outcomes. -/
def marked (dropped published : List Item) : List (Item × Outcome) :=
  dropped.map (·, .dropped) ++ published.map (·, .published)

/-- What a worker publishes of an event. -/
def entry (w : Worker) (item : Item) : String × Payload := (w.topic, item.event.write)

/-- The worker, which was `w₀` on the broker `b₀`, has dropped some events and then published
some, and has counted all that it did. -/
structure Outlasts (b₀ : Broker) (w₀ : Worker) (b : Broker) (w : Worker)
    (dropped published : List Item) (c failed : Nat) : Prop where
  topic : w.topic = w₀.topic
  retry : w.retry = w₀.retry
  hand : w.phase.Failed w₀.retry.attempts c
  spent : Spent b₀.failPublishes w₀.retry.attempts dropped.length published.length c failed
    b.failPublishes
  stats : w.stats =
    { published := w₀.stats.published + published.length
      dropped := w₀.stats.dropped + dropped.length
      failedAttempts := w₀.stats.failedAttempts + failed
      abandoned := w₀.stats.abandoned }
  attempts : b.attempts = b₀.attempts + published.length + failed
  log : b.published = b₀.published ++ published.map w₀.entry

namespace Outlasts

variable {b₀ b b' : Broker} {w₀ w w' : Worker} {dropped published : List Item} {c failed : Nat}
  {h k : Host} {q q' : Queue}

theorem start (idle : w₀.phase = .idle) : Outlasts b₀ w₀ b₀ w₀ [] [] 0 0 where
  topic := rfl
  retry := rfl
  hand := idle ▸ .idle
  spent := ⟨rfl, Nat.lt_of_lt_of_le Nat.one_pos (Nat.le_max_right _ 1), fun _ => by simp,
    fun some => absurd some (Nat.lt_irrefl 0)⟩
  stats := rfl
  attempts := rfl
  log := (List.append_nil _).symm

section

variable (outlasts : Outlasts b₀ w₀ b w dropped published c failed)
include outlasts

/-- Others do nothing to what counts here. -/
theorem of_broker (attempts : b'.attempts = b.attempts)
    (left : b'.failPublishes = b.failPublishes) (log : b'.published = b.published) :
    Outlasts b₀ w₀ b' w dropped published c failed :=
  { outlasts with
    spent := left ▸ outlasts.spent
    attempts := attempts.trans outlasts.attempts
    log := log.trans outlasts.log }

/-- The worker goes on to another phase, with as many failures. -/
theorem of_phase {phase : Phase} (hand : phase.Failed w₀.retry.attempts c) :
    Outlasts b₀ w₀ b { w with phase } dropped published c failed :=
  { outlasts with hand }

end

section

variable {job : Job} {l : Host} (outlasts : Outlasts b₀ w₀ h.broker w dropped published c failed)
  (opened : h.broker.closed = false)
include outlasts opened

/-- A publish succeeds, for no failures are left. -/
theorem publish (hp : h.publish w.topic job.payload = (.ok (), l)) :
    Outlasts b₀ w₀ l.broker
      { w with phase := .idle, stats := { w.stats with published := w.stats.published + 1 } }
      dropped (published ++ [job.item]) 0 failed := by
  obtain ⟨attempts, none, none', log⟩ := Host.publish_succeeded opened hp
  have before := outlasts.attempts
  have spent := outlasts.spent
  have entry : w₀.entry job.item = (w.topic, job.payload) := by rw [outlasts.topic]; rfl
  refine ⟨outlasts.topic, outlasts.retry, .idle, ?_, ?_, ?_, ?_⟩
  · rw [none] at spent
    rw [List.length_append]
    exact none' ▸ spent.publish
  · simp [outlasts.stats, Nat.add_assoc]
  · rw [List.length_append, List.length_singleton]
    omega
  · rw [List.map_append, List.map_singleton, entry, ← List.append_assoc, ← outlasts.log]
    exact log

/-- A publish fails that is not the last for its event. -/
theorem fail {e : TransportError} {timer : Timer} (number : job.attempt = c + 1)
    (hp : h.publish w.topic job.payload = (.error e, l)) (more : job.attempt < w.retry.attempts) :
    Outlasts b₀ w₀ l.broker
      { w with
        phase := .resting job timer
        stats := { w.stats with failedAttempts := w.stats.failedAttempts + 1 } }
      dropped published (c + 1) (failed + 1) := by
  obtain ⟨attempts, some, log⟩ := Host.publish_failed opened hp
  have before := outlasts.attempts
  have spent := outlasts.spent
  rw [outlasts.retry, number] at more
  refine ⟨outlasts.topic, outlasts.retry, .resting number more, ?_, ?_, ?_, ?_⟩
  · rw [some] at spent
    exact spent.fail more
  · simp [outlasts.stats, Nat.add_assoc]
  · omega
  · exact log.trans outlasts.log

/-- The last publish of an event fails, and nothing was published before. -/
theorem drop {e : TransportError} (number : job.attempt = c + 1)
    (hp : h.publish w.topic job.payload = (.error e, l)) (last : w.retry.attempts ≤ job.attempt) :
    published = [] ∧ Outlasts b₀ w₀ l.broker
      { w with
        phase := .idle
        stats := { w.stats with
          failedAttempts := w.stats.failedAttempts + 1, dropped := w.stats.dropped + 1 } }
      (dropped ++ [job.item]) [] 0 (failed + 1) := by
  obtain ⟨attempts, some, log⟩ := Host.publish_failed opened hp
  have before := outlasts.attempts
  have spent := outlasts.spent
  rw [outlasts.retry, number] at last
  rw [some] at spent
  obtain rfl := List.eq_nil_of_length_eq_zero spent.published_eq_zero
  refine ⟨rfl, outlasts.topic, outlasts.retry, .idle, ?_, ?_, ?_, ?_⟩
  · rw [List.length_append]
    exact spent.drop (Nat.le_antisymm spent.few last)
  · simp [outlasts.stats, Nat.add_assoc]
  · rw [List.length_nil] at before ⊢
    omega
  · exact log.trans outlasts.log

/-- An attempt ends. -/
theorem tried (number : job.attempt = c + 1) (holds : w.phase.item? = some job.item)
    (tried : Tried h w job k w') :
    ∃ dropped' published' c' failed',
      Outlasts b₀ w₀ k.broker w' dropped' published' c' failed' ∧
      marked dropped published ++ w.finished q w' = marked dropped' published' := by
  cases tried with
  | published hp =>
    refine ⟨_, _, _, _, (outlasts.publish opened hp).of_broker rfl rfl rfl, ?_⟩
    rw [finished_of_done (o := .published) holds (by simp)]
    · simp [marked]
    · rfl
    · intro o ho
      cases o <;> first | rfl | exact absurd rfl ho
  | failed hp more set =>
    have same := congrArg (fun set => set.2.broker) set
    refine ⟨_, _, _, _, same ▸ outlasts.fail opened number hp more, ?_⟩
    rw [finished_of_same fun o => by cases o <;> rfl, List.append_nil]
  | dropped hp last =>
    obtain ⟨rfl, after⟩ := outlasts.drop opened number hp last
    refine ⟨_, _, _, _, after.of_broker rfl rfl rfl, ?_⟩
    rw [finished_of_done (o := .dropped) holds (by simp)]
    · simp [marked]
    · rfl
    · intro o ho
      cases o <;> first | rfl | exact absurd rfl ho

end

/-- A step of a worker that is not stopped in it. -/
theorem step (outlasts : Outlasts b₀ w₀ h.broker w dropped published c failed)
    (hs : w.step? h q = some (k, q', w')) (opened : h.broker.closed = false)
    (going : w.stopping = false) (unended : w'.phase ≠ .ended) :
    ∃ dropped' published' c' failed',
      Outlasts b₀ w₀ k.broker w' dropped' published' c' failed' ∧
      marked dropped published ++ w.finished q w' = marked dropped' published' := by
  have hand := outlasts.hand
  have same : ∀ {phase : Phase}, w.finished q { w with phase } = [] :=
    finished_of_same fun _ => rfl
  cases turn_of_step? hs with
  | abandoning _ told => rw [going] at told; cases told
  | interrupting _ told => rw [going] at told; cases told
  | ending _ _ _ _ => exact absurd rfl unended
  | taking idle _ _ =>
    rw [idle] at hand
    cases hand with
    | idle =>
      refine ⟨_, _, 0, _, outlasts.of_phase (.attempting rfl outlasts.spent.few), ?_⟩
      rw [same, List.append_nil]
  | delaying phase _ =>
    rw [phase] at hand
    cases hand with
    | attempting number few =>
      refine ⟨_, _, c, _, (outlasts.of_phase (.publishing number few)).of_broker rfl rfl rfl, ?_⟩
      rw [same, List.append_nil]
  | retrying phase _ _ =>
    rw [phase] at hand
    cases hand with
    | resting number few =>
      refine ⟨_, _, c, _, outlasts.of_phase (.attempting (congrArg (· + 1) number) few), ?_⟩
      rw [same, List.append_nil]
  | @attempting job attempts =>
    have attempted : job.attempt = c + 1 ∧ w.phase.item? = some job.item := by
      rcases attempts with ⟨phase, -⟩ | ⟨timer, phase, -⟩
      · rw [phase] at hand ⊢
        cases hand with
        | attempting number _ => exact ⟨number, rfl⟩
      · rw [phase] at hand ⊢
        cases hand with
        | publishing number _ => exact ⟨number, rfl⟩
    exact outlasts.tried opened attempted.1 attempted.2 (tried_attempt h w job)

end Outlasts

end Worker

namespace Script

open Worker (Outlasts marked)

variable {since earlier : List Transition} {x y z : Session} {a : Action} {i : Nat}
  {p p' : Publisher} {q q' : Queue}

/-! ## Events that pass through a queue -/

/-- What was waiting and what is let in since leaves a worker that held nothing in order. -/
theorem Runs.order_since (run : Runs (since ++ earlier) z) (base : Runs earlier x)
    (hp : x.system.publishers[i]? = some p) (idle : p.worker.phase = .idle)
    (hp' : z.system.publishers[i]? = some p') :
    p'.queue = p.queue ∧ x.buffer p.queue ++ admitted since p.queue =
      (history since i).map Prod.fst ++ (p'.worker.held ++ z.buffer p.queue) := by
  induction since generalizing z p' with
  | nil =>
    obtain rfl := base.unique run
    obtain rfl := Option.some.inj (hp.symm.trans hp')
    refine ⟨rfl, ?_⟩
    rw [Worker.held_of_idle idle]
    exact List.append_nil _
  | cons u since ih =>
    cases run with
    | @next _ y _ a run h =>
      obtain ⟨p₁, hp₁, -⟩ := (run.onward_since base).publishers i p hp
      obtain ⟨queue, order⟩ := ih run hp₁
      obtain ⟨q, hq, led⟩ := run.ledgers.ledger i p₁ hp₁
      rw [admitted_cons, history_cons, List.map_append, ← List.append_assoc, order]
      by_cases own : a = .agent (.worker i)
      · subst own
        obtain ⟨p₂, q₂, q', w, hp₂, hq₂, hw, after, after'⟩ := worker_step h
        obtain rfl := Option.some.inj (hp₁.symm.trans hp₂)
        obtain rfl := Option.some.inj (hq.symm.trans hq₂)
        obtain rfl := Option.some.inj (after.symm.trans hp')
        obtain ⟨new, passes⟩ := (Worker.step_of_step? hw).passes
        refine ⟨queue, ?_⟩
        rw [← queue, led.admits_of_passes hq after' passes, Session.buffer_eq hq,
          Session.buffer_eq after', Transition.finished_eq hp₁ after hq]
        have order := passes.order
        simp only [List.append_assoc] at order ⊢
        rw [order]
      · obtain ⟨p₂, q', new, hp₂, core, hq', joins⟩ := joins_of_after? run h own hp₁ hq
        obtain rfl := Option.some.inj (hp'.symm.trans hp₂)
        have held : p'.worker.held = p₁.worker.held := by
          rw [Worker.held, Publisher.phase_of_core core, Worker.held]
        have none : (⟨y, a, z⟩ : Transition).finished i = [] := by
          rw [Transition.finished_eq hp₁ hp' hq,
            Worker.finished_of_same fun o => by rw [Publisher.stats_of_core core]]
        refine ⟨(Publisher.of_core core).1.trans queue, ?_⟩
        rw [none, ← queue, led.admits_of_joins run.told hq hq' joins, Session.buffer_eq hq,
          Session.buffer_eq hq', joins.buffer, held]
        simp

/-! ## The course of an outage -/

/-- Unless the transition is a step of the worker of publisher `i`, nothing is published in it, and
the broker is not told to fail more or fewer publishes. -/
def Transition.Spares (t : Transition) (i : Nat) : Prop :=
  t.action.isWorker i = false →
    t.after.system.host.broker.attempts = t.before.system.host.broker.attempts ∧
    t.after.system.host.broker.failPublishes = t.before.system.host.broker.failPublishes ∧
    t.after.system.host.broker.published = t.before.system.host.broker.published

instance (t : Transition) (i : Nat) : Decidable (t.Spares i) :=
  inferInstanceAs (Decidable (_ → _))

/-- The worker of publisher `i` has come through a part of the outage that began in `x`. -/
theorem Runs.outlasts (run : Runs (since ++ earlier) z) (base : Runs earlier x)
    (hp : x.system.publishers[i]? = some p) (idle : p.worker.phase = .idle)
    (hp' : z.system.publishers[i]? = some p') (going : p'.worker.stopping = false)
    (unended : p'.worker.phase ≠ .ended) (opened : z.system.host.broker.closed = false)
    (spares : ∀ u ∈ since, u.Spares i) :
    ∃ dropped published c failed,
      Outlasts x.system.host.broker p.worker z.system.host.broker p'.worker dropped published c
        failed ∧
      history since i = marked dropped published := by
  induction since generalizing z p' with
  | nil =>
    obtain rfl := base.unique run
    obtain rfl := Option.some.inj (hp.symm.trans hp')
    exact ⟨[], [], 0, 0, .start idle, rfl⟩
  | cons u since ih =>
    cases run with
    | @next _ y _ a run h =>
      obtain ⟨p₁, hp₁, -⟩ := (run.onward_since base).publishers i p hp
      have onward := Session.onward_of_after? h
      obtain ⟨p₂, hp₂, since⟩ := onward.publishers i p₁ hp₁
      obtain rfl := Option.some.inj (hp'.symm.trans hp₂)
      obtain ⟨q, hq, -⟩ := run.ledgers.ledger i p₁ hp₁
      have going₁ : p₁.worker.stopping = false := by
        by_contra told
        exact absurd (since.worker.stopping (by simpa using told)) (by simp [going])
      have opened₁ : y.system.host.broker.closed = false := by
        by_contra closed
        exact absurd (onward.host.closed (by simpa using closed)) (by simp [opened])
      obtain ⟨dropped, published, c, failed, outlasts, history⟩ := ih run hp₁ going₁
        (fun ended => unended (since.worker.ended ended).1) opened₁
        fun u hu => spares u (List.mem_cons_of_mem _ hu)
      by_cases own : a = .agent (.worker i)
      · subst own
        obtain ⟨p₃, q₃, q', w, hp₃, hq₃, hw, after, -⟩ := worker_step h
        obtain rfl := Option.some.inj (hp₁.symm.trans hp₃)
        obtain rfl := Option.some.inj (after.symm.trans hp')
        obtain ⟨dropped', published', c', failed', outlasts', more⟩ :=
          outlasts.step hw opened₁ going₁ unended
        refine ⟨dropped', published', c', failed', outlasts', ?_⟩
        rw [history_cons, history, Transition.finished_eq hp₁ after hq₃, more]
      · obtain ⟨p₃, hp₃, -, worker⟩ := worker_of_others h own hp₁
        obtain rfl := Option.some.inj (hp'.symm.trans hp₃)
        have same : p'.worker = p₁.worker := by
          rcases worker with same | ⟨-, told⟩
          · exact same
          · rw [told] at going
            cases going
        obtain ⟨attempts, left, log⟩ :=
          spares _ List.mem_cons_self (Action.isWorker_of_ne own)
        refine ⟨dropped, published, c, failed, same ▸ outlasts.of_broker attempts left log, ?_⟩
        rw [history_cons, history, Transition.finished_eq hp₁ hp' hq,
          Worker.finished_of_same fun o => by rw [same], List.append_nil]

/-! ## The effect of an outage -/

/-- What is accepted since a worker held nothing is what is let in since. -/
theorem Runs.accepted_since (run : Runs (since ++ earlier) z) (base : Runs earlier x)
    (hp : x.system.publishers[i]? = some p) (idle : p.worker.phase = .idle)
    (hp' : z.system.publishers[i]? = some p') (hq : x.system.queues[p.queue]? = some q)
    (hq' : z.system.queues[p.queue]? = some q') :
    (q.promised ++ (admitted since p.queue).map Item.ticket).Perm
      (accepted since p.queue ++ q'.promised) := by
  obtain ⟨queue, order⟩ := run.order_since base hp idle hp'
  obtain ⟨q₁, hq₁, led⟩ := base.ledgers.ledger i p hp
  obtain rfl := Option.some.inj (hq.symm.trans hq₁)
  obtain ⟨q₂, hq₂, led'⟩ := run.ledgers.ledger i p' hp'
  rw [queue] at hq₂
  obtain rfl := Option.some.inj (hq'.symm.trans hq₂)
  have before := led.perm_history
  have after := led'.perm_history
  have tickets := congrArg (List.map Item.ticket) order
  simp only [Session.buffer_eq hq, Session.buffer_eq hq', List.map_append, List.map_map,
    Worker.map_ticket_held] at tickets
  have accepted_eq : accepted (since ++ earlier) p.queue =
      accepted since p.queue ++ accepted earlier p.queue := List.filterMap_append
  have history_eq : history (since ++ earlier) i = history earlier i ++ history since i := by
    simp [history]
  have hand : p.worker.inHand = [] := by
    rw [← Worker.map_ticket_held, Worker.held_of_idle idle]
    rfl
  rw [queue, accepted_eq, history_eq, List.map_append] at after
  rw [hand] at before
  refine List.perm_iff_count.mpr fun n => ?_
  have before := before.count_eq n
  have after := after.count_eq n
  have tickets := congrArg (List.count n) tickets
  simp only [List.count_append, List.count_nil, Queue.buffered] at before after
  simp only [List.count_append, Function.comp_def] at tickets ⊢
  omega

/-- What has become of the events `brought` since the session `x`, where publisher `i` was `p`: it
is `p'` in the session `z`, where the outage is over for them. -/
structure Weathered (since : List Transition) (x z : Session) (i : Nat) (p p' : Publisher)
    (brought : List Item) (lost failed : Nat) : Prop where
  dropped : p'.worker.stats.dropped = p.worker.stats.dropped + lost
  published : p'.worker.stats.published = p.worker.stats.published + (brought.length - lost)
  failedAttempts : p'.worker.stats.failedAttempts = p.worker.stats.failedAttempts + failed
  abandoned : p'.worker.stats.abandoned = p.worker.stats.abandoned
  attempts : z.system.host.broker.attempts =
    x.system.host.broker.attempts + (brought.length - lost) + failed
  /-- The first events were dropped, and all that came after them were published, in order. -/
  outcomes : history since i =
    (brought.take lost).map (·, .dropped) ++ (brought.drop lost).map (·, .published)
  log : z.system.host.broker.published = x.system.host.broker.published ++
    (brought.drop lost).map fun item => (p.config.changeTopic, item.event.write)
  /-- Where all producers know what became of their events, those let in were accepted. -/
  accepted : x.system.isQuiescent → z.system.isQuiescent →
    (brought.map Item.ticket).Perm (accepted since p.queue)

/-- Where nothing can go on and a worker is idle, nothing is buffered. -/
theorem Runs.buffer_of_idle (run : Runs ts x) (hp : x.system.publishers[i]? = some p)
    (idle : p.worker.phase = .idle) (going : p.worker.stopping = false)
    (quiescent : x.system.isQuiescent) : x.buffer p.queue = [] := by
  obtain ⟨q, hq, still⟩ := run.worker_still hp quiescent
  rw [Session.buffer_eq hq]
  cases buffer : q.buffer with
  | nil => rfl
  | cons item rest => simp [Worker.step?, idle, going, Queue.take?, buffer] at still

/-- The broker fails a number of publishes and the worker of publisher `i` is idle. Once it is idle
again and nothing is buffered, where nobody else published and nobody told the worker to stop or
closed the connection, the failures were spent on the first events. -/
theorem outage_effect (run : Runs (since ++ earlier) z) (base : Runs earlier x)
    (hp : x.system.publishers[i]? = some p) (idle : p.worker.phase = .idle)
    (hp' : z.system.publishers[i]? = some p') (idle' : p'.worker.phase = .idle)
    (empty : z.buffer p.queue = []) (going : p'.worker.stopping = false)
    (opened : z.system.host.broker.closed = false) (spares : ∀ u ∈ since, u.Spares i) :
    let brought := x.buffer p.queue ++ admitted since p.queue
    let failures := x.system.host.broker.failPublishes
    Weathered since x z i p p' brought (p.loses failures brought.length)
      (p.fails failures brought.length) := by
  intro brought failures
  obtain ⟨topic, retry⟩ := base.configured p (List.mem_of_getElem? hp)
  have attempts : p.worker.retry.attempts = max p.config.maxPublishAttempts 1 := by
    rw [retry]
    rfl
  obtain ⟨-, order⟩ := run.order_since base hp idle hp'
  rw [empty, Worker.held_of_idle idle', List.append_nil, List.append_nil] at order
  obtain ⟨dropped, published, c, failed, outlasts, history⟩ :=
    run.outlasts base hp idle hp' going (by simp [idle']) opened spares
  have hand := outlasts.hand
  rw [idle'] at hand
  cases hand
  obtain ⟨lost, failed_eq⟩ := outlasts.spent.closed
  have parts : brought = dropped ++ published := by
    have first : (marked dropped published).map Prod.fst = dropped ++ published := by
      simp [marked, Function.comp_def]
    exact order.trans (history ▸ first)
  have length : brought.length = dropped.length + published.length := by
    rw [parts, List.length_append]
  rw [attempts, ← length] at lost failed_eq
  have kept : brought.length - dropped.length = published.length := by omega
  have loses : p.loses failures brought.length = dropped.length := lost.symm
  have fails : p.fails failures brought.length = failed := failed_eq.symm
  rw [loses, fails]
  refine ⟨?_, ?_, ?_, ?_, ?_, ?_, ?_, fun quiescent quiescent' => ?_⟩
  · rw [outlasts.stats]
  · rw [outlasts.stats, kept]
  · rw [outlasts.stats]
  · rw [outlasts.stats]
  · rw [outlasts.attempts, kept]
  · rw [history, parts, List.take_left, List.drop_left]
    rfl
  · rw [outlasts.log, parts, List.drop_left, ← topic]
    rfl
  · have told := (run.onward_since base).publishers i p hp
    obtain ⟨p₁, hp₁, onward⟩ := told
    obtain rfl := Option.some.inj (hp'.symm.trans hp₁)
    have going₀ : p.worker.stopping = false := by
      by_contra told
      exact absurd (onward.worker.stopping (by simpa using told)) (by simp [going])
    obtain ⟨q, hq, led⟩ := base.ledgers.ledger i p hp
    obtain ⟨q', hq', led'⟩ := run.ledgers.ledger i p' hp'
    have known := promised_eq_nil base quiescent hq led
    have known' := promised_eq_nil run quiescent' hq' led'
    rw [onward.queue] at hq'
    have perm := run.accepted_since base hp idle hp' hq hq'
    rw [known, known', List.append_nil, List.nil_append] at perm
    rw [show brought = admitted since p.queue by
      simp [brought, base.buffer_of_idle hp idle going₀ quiescent]]
    exact perm

/-- A publisher is open, and the broker is to fail four publishes; the latest action first. -/
def outage : List Action :=
  [.agent (.listener 0), .perform (.failPublishes 4),
   .perform (.openPublisher "p" { retryDelay := .ofMillis 0, maxPublishAttempts := 3 })]

/-- Three events are queued, and the worker goes on until it is idle; the latest action first. -/
def weathering : List Action :=
  List.replicate 12 (.agent (.worker 0)) ++
    [.agent (.call 2), .agent (.call 1), .agent (.call 0),
     .perform (.enqueue "p" (creation none)), .perform (.enqueue "p" (creation none)),
     .perform (.enqueue "p" (creation none))]

set_option maxRecDepth 100000 in
/-- The four failures are three of the first event and one of the second. -/
theorem outage_ends_in_second_event :
    let x := (play outage).2
    let z := (play (weathering ++ outage)).2
    let since := (play (weathering ++ outage)).1.take weathering.length
    ∃ p p', x.system.isQuiescent ∧ z.system.isQuiescent ∧ p.worker.stats = {} ∧
      x.buffer p.queue ++ admitted since p.queue =
        [⟨0, creation none⟩, ⟨1, creation none⟩, ⟨2, creation none⟩] ∧
      Weathered since x z 0 p p' (x.buffer p.queue ++ admitted since p.queue) 1 4 := by
  intro x z since
  have before : (x.system.publishers[0]?).map (fun p =>
      (p.worker.phase, p.worker.stats, p.queue, p.config.maxPublishAttempts)) =
        some (.idle, ({} : PublishStats), 0, 3) := by rfl
  obtain ⟨p, hp, same⟩ := Option.map_eq_some_iff.mp before
  simp only [Prod.mk.injEq] at same
  obtain ⟨idle, stats, queue, attempts⟩ := same
  have after : (z.system.publishers[0]?).map (fun p => (p.worker.phase, p.worker.stopping)) =
      some (.idle, false) := by rfl
  obtain ⟨p', hp', same⟩ := Option.map_eq_some_iff.mp after
  obtain ⟨idle', going⟩ := Prod.mk.inj same
  have spares : ∀ u ∈ since, u.Spares 0 := by decide +kernel
  have split : (play (weathering ++ outage)).1 = since ++ (play outage).1 := by rfl
  have run : Runs (since ++ (play outage).1) z := split ▸ play_runs _
  have brought : x.buffer 0 ++ admitted since 0 =
      [⟨0, creation none⟩, ⟨1, creation none⟩, ⟨2, creation none⟩] := by rfl
  have effect := outage_effect run (play_runs outage) hp idle hp' idle'
    (queue ▸ by rfl) going (by rfl) spares
  refine ⟨p, p', by rfl, by rfl, stats, queue ▸ brought, ?_⟩
  have failures : x.system.host.broker.failPublishes = 4 := by rfl
  rw [failures] at effect
  dsimp only at effect
  rw [queue, brought] at effect ⊢
  simpa [Publisher.loses, Publisher.fails, attempts] using effect

end Script

end ChangeDispatch
