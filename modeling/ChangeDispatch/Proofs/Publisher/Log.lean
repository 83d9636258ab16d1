import ChangeDispatch.Proofs.Publisher.Conservation
import ChangeDispatch.Proofs.Publisher.Order

/-!
# The log of a publisher

A queue lets events in one after the other, and its worker is done with them in the same
order. What the worker was done with, the event in its hand and the buffer, put one after
the other, are all the events that were let in. So where nobody else publishes on the topic
of a publisher, the log of the broker is read off the order in which events were let in.
-/
namespace ChangeDispatch.Script

variable {ts : List Transition} {x y z : Session} {a : Action} {i j n : Nat} {p p' : Publisher}
  {q q' : Queue}

/-- What is in the buffer of queue `j`. -/
def Session.buffer (x : Session) (j : Nat) : List Item := (x.system.queues[j]?).elim [] Queue.buffer

/-- The events that queue `j` lets in: those that were not in its buffer before. -/
def Transition.admits (t : Transition) (j : Nat) : List Item :=
  newIn (t.before.buffer j) (t.after.buffer j)

/-- The events that queue `j` has let in, in the order in which it did. -/
def admitted (ts : List Transition) (j : Nat) : List Item := ts.reverse.flatMap fun t => t.admits j

/-- The events that the worker of publisher `i` is done with, with their outcomes. -/
def Transition.finished (t : Transition) (i : Nat) : List (Item × Outcome) :=
  match t.before.system.publishers[i]?, t.after.system.publishers[i]? with
  | some p, some p' =>
    (t.before.system.queues[p.queue]?).elim [] fun q => p.worker.finished q p'.worker
  | _, _ => []

/-- All that the worker of publisher `i` was done with, in the order in which it was. -/
def history (ts : List Transition) (i : Nat) : List (Item × Outcome) :=
  ts.reverse.flatMap fun t => t.finished i

/-- What was published on a topic. -/
def Session.log (x : Session) (topic : String) : List Payload :=
  x.system.host.broker.publishedOn topic

/-- The action is a step of a call that brings its event to queue `j`. -/
def Transition.Brings (t : Transition) (j : Nat) (item : Item) : Prop :=
  t.action = .agent (.call item.ticket) ∧ ∃ next,
    t.before.system.phase? item.ticket = some (.enqueuing j item.event next)

theorem admitted_cons (t : Transition) (ts : List Transition) (j : Nat) :
    admitted (t :: ts) j = admitted ts j ++ t.admits j := by
  simp [admitted]

theorem history_cons (t : Transition) (ts : List Transition) (i : Nat) :
    history (t :: ts) i = history ts i ++ t.finished i := by
  simp [history]

theorem Session.buffer_eq (hq : x.system.queues[j]? = some q) : x.buffer j = q.buffer := by
  rw [buffer, hq]
  rfl

theorem Transition.finished_eq {t : Transition} (hp : t.before.system.publishers[i]? = some p)
    (hp' : t.after.system.publishers[i]? = some p')
    (hq : t.before.system.queues[p.queue]? = some q) :
    t.finished i = p.worker.finished q p'.worker := by
  simp [finished, hp, hp', hq]

theorem Transition.leaves_eq {t : Transition} (o : Outcome) :
    t.leaves i o = ((t.finished i).filter (·.2 = o)).map fun e => e.1.ticket := by
  have ticket : (fun e : Item × Outcome => e.1.ticket) = Item.ticket ∘ Prod.fst := rfl
  rw [ticket, ← List.map_map]
  cases hp : t.before.system.publishers[i]? with
  | none => simp [leaves, finished, hp]
  | some p =>
    cases hp' : t.after.system.publishers[i]? with
    | none => simp [leaves, finished, hp, hp']
    | some p' =>
      cases hq : t.before.system.queues[p.queue]? with
      | none => simp [leaves, finished, hp, hp', hq]
      | some q =>
        simpa [leaves, finished, hp, hp', hq, p.worker.filter_finished q p'.worker o] using
          p.worker.leaves_eq_parts q p'.worker o

/-! ## What others do to a queue -/

theorem Queue.of_core_items {q q' : Queue} (h : q'.core = q.core) :
    q'.buffer = q.buffer ∧ q'.blocked = q.blocked := by
  have buffer : q'.core.buffer = q.core.buffer := by rw [h]
  have blocked : q'.core.blocked = q.core.blocked := by rw [h]
  exact ⟨buffer, blocked⟩

/-- The queue gets at the end of its buffer what is brought now, and nobody else joins its line. -/
structure Joins (t : Transition) (j : Nat) (q q' : Queue) (new : List Item) : Prop where
  buffer : q'.buffer = q.buffer ++ new
  brought : ∀ item ∈ new, t.Brings j item
  line : ∀ item ∈ q'.blocked, item ∈ q.blocked ∨ t.Brings j item

namespace Joins

variable {t : Transition} {new : List Item}

theorem of_items (buffer : q'.buffer = q.buffer) (blocked : q'.blocked = q.blocked) :
    Joins t j q q' [] where
  buffer := buffer.trans (List.append_nil _).symm
  brought _ h := absurd h List.not_mem_nil
  line _ h := .inl (blocked ▸ h)

theorem of_core (h : q'.core = q.core) : Joins t j q q' [] :=
  .of_items (Queue.of_core_items h).1 (Queue.of_core_items h).2

theorem core (h : Joins t j q q' new) {q'' : Queue} (same : q''.core = q'.core) :
    Joins t j q q'' new := by
  obtain ⟨buffer, blocked⟩ := Queue.of_core_items same
  exact ⟨buffer.trans h.buffer, h.brought, fun item hi => h.line item (blocked ▸ hi)⟩

theorem of_withdraw (t : Transition) (j n : Nat) (q : Queue) : Joins t j q (q.withdraw n) [] where
  buffer := (List.append_nil _).symm
  brought _ h := absurd h List.not_mem_nil
  line _ h := .inl (List.mem_of_mem_filter h)

theorem of_leaveLine {φ : Call.Phase} {queues : List Queue} (hq : queues[j]? = some q) :
    ∃ q', (System.leaveLine queues n φ)[j]? = some q' ∧ Joins t j q q' [] := by
  cases φ with
  | inLine k event timer next =>
    rw [System.leaveLine, List.getElem?_modify, hq]
    split
    · exact ⟨q.withdraw n, rfl, of_withdraw t j n q⟩
    · exact ⟨q, rfl, of_core rfl⟩
  | _ => exact ⟨q, hq, of_core rfl⟩

theorem of_trade {φ ψ : Call.Phase} {queues : List Queue} (hq : x.system.queues[j]? = some q)
    (hφ : x.system.phase? n = some φ) (trade : System.CallTrade x.system n φ queues ψ) :
    ∃ q' new, queues[j]? = some q' ∧ Joins ⟨x, .agent (.call n), y⟩ j q q' new := by
  -- a queue that is not this one does not matter
  have at_queue : ∀ {k : Nat} {q₀ : Queue} {f : Queue → Queue}, x.system.queues[k]? = some q₀ →
      (k = j → ∃ new, Joins ⟨x, .agent (.call n), y⟩ j q (f q) new) →
      ∃ q' new, (x.system.queues.modify k f)[j]? = some q' ∧
        Joins ⟨x, .agent (.call n), y⟩ j q q' new := by
    intro k q₀ f _ here
    rw [List.getElem?_modify, hq]
    by_cases hk : k = j
    · obtain ⟨new, joins⟩ := here hk
      exact ⟨f q, new, by simp [hk], joins⟩
    · exact ⟨q, [], by simp [hk], of_core rfl⟩
  cases trade with
  | aside _ => exact ⟨q, [], hq, of_core rfl⟩
  | refused _ _ => exact ⟨q, [], hq, of_core rfl⟩
  | @accepted k event next q₀ q₁ hk ho =>
    refine at_queue hk ?_
    rintro rfl
    obtain rfl := Option.some.inj (hq.symm.trans hk)
    refine ⟨[⟨n, event⟩], ?_⟩
    rw [(Queue.offer_accepted ho).2.2]
    refine ⟨rfl, fun item hi => ?_, fun item hi => .inl hi⟩
    rw [List.mem_singleton.mp hi]
    exact ⟨rfl, next, hφ⟩
  | @blocked k event next timer q₀ q₁ hk ho =>
    refine at_queue hk ?_
    rintro rfl
    obtain rfl := Option.some.inj (hq.symm.trans hk)
    refine ⟨[], ?_⟩
    rw [(Queue.offer_blocked ho).2]
    refine ⟨(List.append_nil _).symm, fun _ h => absurd h List.not_mem_nil, fun item hi => ?_⟩
    rcases List.mem_append.mp hi with old | new
    · exact .inl old
    · rw [List.mem_singleton.mp new]
      exact .inr ⟨rfl, next, hφ⟩
  | collected hk _ => exact at_queue hk fun _ => ⟨[], of_items rfl rfl⟩
  | withdrawn hk _ => exact at_queue hk fun _ => ⟨[], of_withdraw _ _ _ _⟩

end Joins

/-- What an action that is not the worker's does to a publisher and its queue. -/
theorem joins_of_after? (run : Runs ts x) (h : x.after? a = some y)
    (others : a ≠ .agent (.worker i)) (hp : x.system.publishers[i]? = some p)
    (hq : x.system.queues[p.queue]? = some q) :
    ∃ p' q' new, y.system.publishers[i]? = some p' ∧ p'.core = p.core ∧
      y.system.queues[p.queue]? = some q' ∧ Joins ⟨x, a, y⟩ p.queue q q' new := by
  have apart : p.queue ∉ x.ownQueues :=
    run.owning.apart _ (List.mem_map_of_mem (List.mem_of_getElem? hp))
  cases Session.trades_of_after? h with
  | quiet _ _ queues publishers =>
    obtain ⟨p', hp', core⟩ := exists_of_map_eq publishers.symm hp
    obtain ⟨q', hq', same⟩ := queues.exists_core hq apart
    exact ⟨p', q', [], hp', core.symm, hq', .of_core same⟩
  | @opened _ _ config p₀ _ _ _ queues publishers _ _ _ _ =>
    have old : (x.system.publishers ++ [p₀])[i]? = some p := by
      rw [List.getElem?_append_left (List.getElem?_eq_some_iff.mp hp).1, hp]
    have old' : (x.system.queues ++
        [Queue.ofCapacity config.queueCapacity config.enqueueTimeout])[p.queue]? = some q := by
      rw [List.getElem?_append_left (List.getElem?_eq_some_iff.mp hq).1, hq]
    obtain ⟨p', hp', core⟩ := exists_of_map_eq publishers.symm old
    obtain ⟨q', hq', same⟩ := queues.exists_core old' apart
    exact ⟨p', q', [], hp', core.symm, hq', .of_core same⟩
  | @aborted _ _ n c _ _ _ _ queues publishers =>
    obtain ⟨p', hp', core⟩ := exists_of_map_eq publishers.symm hp
    obtain ⟨q₁, hq₁, joins⟩ := Joins.of_leaveLine (t := ⟨x, a, y⟩) (n := n) (φ := c.phase) hq
    obtain ⟨q', hq', same⟩ := queues.exists_core hq₁ apart
    exact ⟨p', q', [], hp', core.symm, hq', joins.core same⟩
  | @called n φ ψ s queues hφ trade _ _ same publishers =>
    obtain ⟨p', hp', core⟩ := exists_of_map_eq publishers.symm hp
    obtain ⟨q₁, new, hq₁, joins⟩ := Joins.of_trade (y := { x with system := s }) hq hφ trade
    obtain ⟨q', hq', core'⟩ := exists_of_map_eq same.symm hq₁
    exact ⟨p', q', new, hp', core.symm, hq', joins.core core'.symm⟩
  | @worked k p₀ q₀ q₁ w host s hp₀ hq₀ _ _ queues publishers =>
    have hk : k ≠ i := by
      rintro rfl
      exact others rfl
    have apart' : p₀.queue ≠ p.queue := fun he => hk (run.owning.eq_of_queue hp₀ hp he)
    refine ⟨p, q, [], ?_, rfl, ?_, .of_core rfl⟩
    · dsimp only
      rw [publishers, List.getElem?_modify_ne _ _ hk, hp]
    · dsimp only
      rw [queues, List.getElem?_modify_ne _ _ apart', hq]

/-! ## The settings of a worker -/

/-- Every worker is set up as the configuration of its publisher says. -/
def Session.Configured (x : Session) : Prop := ∀ p ∈ x.system.publishers, p.isConfigured

theorem Session.Configured.of_core {l : List Publisher} (configured : ∀ p ∈ l, p.isConfigured)
    (same : y.system.publishers.map Publisher.core = l.map Publisher.core) : y.Configured := by
  intro p' hp'
  obtain ⟨k, hk⟩ := List.mem_iff_getElem?.mp hp'
  obtain ⟨p, hp, core⟩ := exists_of_map_eq same hk
  have topic : p'.core.worker.topic = p.core.worker.topic := by rw [core]
  have retry : p'.core.worker.retry = p.core.worker.retry := by rw [core]
  have config : p'.core.config = p.core.config := by rw [core]
  exact Publisher.isConfigured_of (configured p (List.mem_of_getElem? hp)) config topic retry

theorem Session.Configured.effect {u : Session} (configured : x.Configured) (h : Effect x u) :
    u.Configured := by
  cases h with
  | @registered c _ _ _ r id v _ _ hv =>
    subst hv
    let z := x.onSystem (·.adjustCorrelator c fun co => { co with registry := r })
    have same := (z.upToRegistries_dropWaiter id).publishers
    exact fun p hp => configured p (same ▸ hp)
  | droppedWaiter id =>
    have same := (x.upToRegistries_dropWaiter id).publishers
    exact fun p hp => configured p (same ▸ hp)
  | @aborted n c _ _ _ =>
    have same := (System.UpToRegistries.forsake x.system n c.phase).publishers
    exact fun p hp => configured p (same ▸ hp)
  | openedPublisher _ _ _ =>
    intro p hp
    rcases List.mem_append.mp hp with old | new
    · exact configured p old
    · rw [List.mem_singleton.mp new]
      exact ⟨rfl, rfl⟩
  | _ => exact configured

theorem Session.Configured.after? (configured : x.Configured) (h : x.after? a = some y) :
    y.Configured := by
  cases moves_of_after? h with
  | performed _ hp =>
    obtain ⟨u, hu, he⟩ := hp
    exact .of_core (configured.effect hu) he.publishers
  | injected _ _ => exact configured
  | passed _ => exact configured
  | @stepped agent t hs =>
    cases agent with
    | worker k =>
      obtain ⟨p, q, host, q', w, hp, -, hw, rfl⟩ := Agent.step?_worker hs
      obtain ⟨topic, retry⟩ := (Worker.step_of_step? hw).settings
      intro p' hp'
      obtain ⟨j, hj⟩ := List.mem_iff_getElem?.mp hp'
      change (x.system.publishers.modify k fun p => { p with worker := w })[j]? = some p' at hj
      rw [List.getElem?_modify] at hj
      obtain ⟨p₀, hp₀, rfl⟩ := Option.map_eq_some_iff.mp hj
      have before := configured p₀ (List.mem_of_getElem? hp₀)
      split
      next hk =>
        subst hk
        obtain rfl := Option.some.inj (hp.symm.trans hp₀)
        exact Publisher.isConfigured_of before rfl topic retry
      next => exact before
    | listener c =>
      obtain ⟨co, host, co', -, -, rfl⟩ := Agent.step?_listener hs
      exact configured
    | consumer k =>
      obtain ⟨c, host, c', -, -, rfl⟩ := Agent.step?_consumer hs
      exact configured
    | redelivery k serial =>
      obtain ⟨entry, -, -, rfl⟩ := Agent.step?_redelivery hs
      exact configured
    | call n =>
      obtain ⟨φ, -, v, ψ, step, quiet⟩ := System.callSteps_of_stepCall? hs
      obtain ⟨host, queues, upTo⟩ := step.upToRegistries
      exact .of_core configured
        (quiet.publishers.trans (congrArg (List.map Publisher.core) upTo.publishers))

theorem Runs.configured (run : Runs ts z) : z.Configured :=
  run.invariant (P := Session.Configured) (fun _ hp => absurd hp List.not_mem_nil)
    fun _ _ _ configured h => configured.after? h

/-! ## The order of events in a run -/

/-- The events of publisher `i` in order: those that its worker was done with, the one in its
hand, and those in the buffer of its queue; and what the log shows of them. -/
structure InOrder (ts : List Transition) (z : Session) (i : Nat) (p : Publisher) (q : Queue) :
    Prop where
  order : admitted ts p.queue = (history ts i).map Prod.fst ++ (p.worker.held ++ q.buffer)
  log : z.log p.config.changeTopic =
    ((history ts i).filter (·.2 = .published)).map fun e => e.1.event.write
  last : (history ts i).Pairwise fun e e' => e.2 = .abandoned → e'.2 = .abandoned
  going : p.worker.phase ≠ .ended → ∀ e ∈ history ts i, e.2 ≠ .abandoned
  brought : ∀ item ∈ admitted ts p.queue ++ q.blocked, ∃ u ∈ ts, u.Brings p.queue item

/-- What is in the buffer was accepted, or is promised to its producer. -/
theorem Ledger.mem_of_buffer (led : Ledger ts x i p q) {item : Item} (h : item ∈ q.buffer) :
    item.ticket ∈ accepted ts p.queue ++ q.promised := by
  refine led.balanced.places.symm.subset ?_
  exact List.mem_append_left _ (List.mem_append_right _ (List.mem_map_of_mem h))

/-- What others bring to the buffer of a queue was not there before. -/
theorem Ledger.admits_of_joins (led : Ledger ts x i p q) (told : Told ts x)
    (hq : x.system.queues[p.queue]? = some q) (hq' : y.system.queues[p.queue]? = some q')
    {new : List Item} (joins : Joins ⟨x, a, y⟩ p.queue q q' new) :
    (⟨x, a, y⟩ : Transition).admits p.queue = new := by
  rw [Transition.admits, Session.buffer_eq hq, Session.buffer_eq hq', joins.buffer]
  refine newIn_append (fun _ h => h) fun item hi known => ?_
  obtain ⟨-, next, hφ⟩ := joins.brought item hi
  refine led.fresh told hφ ?_
  rcases List.mem_append.mp (led.mem_of_buffer known) with taken | promised
  · exact List.mem_append_left _ taken
  · exact List.mem_append_right _ (List.mem_append_right _ promised)

/-- What comes from the line in a step of the worker was not in the buffer before. -/
theorem Ledger.admits_of_passes (led : Ledger ts x i p q)
    (hq : x.system.queues[p.queue]? = some q) (hq' : y.system.queues[p.queue]? = some q')
    {w : Worker} {host : Host} {new : List Item}
    (passes : Worker.Passes x.system.host q p.worker host q' w new) :
    (⟨x, a, y⟩ : Transition).admits p.queue = new := by
  rw [Transition.admits, Session.buffer_eq hq, Session.buffer_eq hq']
  refine passes.entered fun item line buffered => ?_
  have lined : item.ticket ∈ q.lined := List.mem_map_of_mem line
  have nodup := List.nodup_append.mp led.balanced.nodup
  rcases List.mem_append.mp (led.mem_of_buffer buffered) with taken | promised
  · exact nodup.2.2 _ taken _ (List.mem_append_left _ lined) rfl
  · exact (List.nodup_append.mp nodup.2.1).2.2 _ lined _ promised rfl

namespace InOrder

/-- Others do something; the worker and what it was done with stay what they are. -/
theorem others (ord : InOrder ts x i p q) (led : Ledger ts x i p q) (told : Told ts x)
    (hp : x.system.publishers[i]? = some p) (hq : x.system.queues[p.queue]? = some q)
    (hp' : y.system.publishers[i]? = some p') (core : p'.core = p.core)
    (hq' : y.system.queues[p.queue]? = some q') {new : List Item}
    (joins : Joins ⟨x, a, y⟩ p.queue q q' new)
    (log : y.log p.config.changeTopic = x.log p.config.changeTopic) :
    InOrder (⟨x, a, y⟩ :: ts) y i p' q' := by
  obtain ⟨queue, config, -⟩ := Publisher.of_core core
  have phase := Publisher.phase_of_core core
  have stats := Publisher.stats_of_core core
  have held : p'.worker.held = p.worker.held := by rw [Worker.held, phase, Worker.held]
  have none : history (⟨x, a, y⟩ :: ts) i = history ts i := by
    rw [history_cons, Transition.finished_eq hp hp' hq,
      Worker.finished_of_same fun o => by rw [stats], List.append_nil]
  have entered := led.admits_of_joins told hq hq' joins
  refine ⟨?_, ?_, none ▸ ord.last, ?_, fun item hi => ?_⟩
  · rw [none, queue, admitted_cons, entered, ord.order, held, joins.buffer]
    simp only [List.append_assoc]
  · rw [none, config, log, ord.log]
  · rw [none, phase]
    exact ord.going
  · rw [queue, admitted_cons, entered, List.append_assoc] at hi
    rw [queue]
    have old : item ∈ admitted ts p.queue ++ q.blocked →
        ∃ u ∈ (⟨x, a, y⟩ :: ts : List Transition), u.Brings p.queue item := fun h => by
      obtain ⟨u, hu, brings⟩ := ord.brought item h
      exact ⟨u, List.mem_cons_of_mem _ hu, brings⟩
    rcases List.mem_append.mp hi with before | hi
    · exact old (List.mem_append_left _ before)
    · rcases List.mem_append.mp hi with new | line
      · exact ⟨_, List.mem_cons_self, joins.brought item new⟩
      · rcases joins.line item line with before | now
        · exact old (List.mem_append_right _ before)
        · exact ⟨_, List.mem_cons_self, now⟩

/-- The worker makes a step. -/
theorem own (ord : InOrder ts x i p q) (led : Ledger ts x i p q)
    (topic : p.worker.topic = p.config.changeTopic) {w : Worker} {host : Host} {s : System}
    {new : List Item} (passes : Worker.Passes x.system.host q p.worker host q' w new)
    (hp : x.system.publishers[i]? = some p) (hq : x.system.queues[p.queue]? = some q)
    (hp' : s.publishers[i]? = some { p with worker := w }) (hq' : s.queues[p.queue]? = some q')
    (hs : s.host = host) :
    InOrder (⟨x, a, { x with system := s }⟩ :: ts) { x with system := s } i { p with worker := w }
      q' := by
  have more : history (⟨x, a, { x with system := s }⟩ :: ts) i =
      history ts i ++ p.worker.finished q w := by
    rw [history_cons, Transition.finished_eq hp hp' hq]
  have entered : (⟨x, a, { x with system := s }⟩ : Transition).admits p.queue = new :=
    led.admits_of_passes hq hq' passes
  refine ⟨?_, ?_, ?_, fun going => ?_, fun item hi => ?_⟩
  · have order := passes.order
    simp only [List.append_assoc] at order
    rw [more, admitted_cons, entered, ord.order, List.map_append]
    simp only [List.append_assoc]
    exact congrArg _ order.symm
  · have log := passes.log
    rw [Worker.Logs, topic, ← hs] at log
    rw [more, List.filter_append, List.map_append, ← ord.log]
    exact log
  · rw [more, List.pairwise_append]
    refine ⟨ord.last, ?_, fun e he _ _ abandoned =>
      absurd abandoned (ord.going passes.going e he)⟩
    have any : (p.worker.finished q w).Pairwise fun _ _ => True := List.pairwise_of_forall (by simp)
    rcases passes.last with going | ⟨all, -⟩
    · exact any.imp_of_mem fun he _ _ abandoned => absurd abandoned (going _ he)
    · exact any.imp_of_mem fun _ he' _ _ => all _ he'
  · rw [more]
    rcases passes.last with kept | ⟨-, ended⟩
    · intro e he
      rcases List.mem_append.mp he with old | now
      · exact ord.going passes.going e old
      · exact kept e now
    · exact absurd ended going
  · have known : item ∈ admitted ts p.queue ++ q.blocked := by
      rw [admitted_cons, entered, List.append_assoc] at hi
      rcases List.mem_append.mp hi with before | hi
      · exact List.mem_append_left _ before
      · exact List.mem_append_right _ (passes.line item hi)
    obtain ⟨u, hu, brings⟩ := ord.brought item known
    exact ⟨u, List.mem_cons_of_mem _ hu, brings⟩

/-- A publisher that is new. -/
theorem new (hj : admitted ts p.queue = []) (hi : history ts i = []) (idle : p.worker.phase = .idle)
    (buffer : q.buffer = []) (blocked : q.blocked = [])
    (log : z.log p.config.changeTopic = []) : InOrder ts z i p q where
  order := by rw [hj, hi, Worker.held_of_idle idle, buffer]; rfl
  log := by rw [hi, log]; rfl
  last := hi ▸ .nil
  going _ e he := by rw [hi] at he; cases he
  brought item h := by rw [hj, blocked] at h; cases h

end InOrder

/-- The action is a step of the worker of publisher `i`. -/
def Action.isWorker (i : Nat) : Action → Bool
  | .agent (.worker k) => k == i
  | _ => false

theorem Action.of_isWorker (h : a.isWorker i) : a = .agent (.worker i) := by
  cases a with
  | agent agent =>
    cases agent with
    | worker k => rw [eq_of_beq h]
    | _ => cases h
  | _ => cases h

/-- Nobody but the worker of publisher `i` has published on the topic. -/
def Alone (ts : List Transition) (i : Nat) (topic : String) : Prop :=
  ∀ u ∈ ts, u.after.log topic ≠ u.before.log topic → u.action.isWorker i

instance (ts : List Transition) (i : Nat) (topic : String) : Decidable (Alone ts i topic) :=
  inferInstanceAs (Decidable (∀ u ∈ ts, _ → _))

/-- A publisher that was not there before has a new queue, with nothing in it, on which producers
wait as long as its configuration says. -/
theorem fresh_of_after? (run : Runs ts x) (h : x.after? a = some y)
    (hp : x.system.publishers[i]? = none) (hp' : y.system.publishers[i]? = some p')
    (hq' : y.system.queues[p'.queue]? = some q') :
    p'.queue = x.system.queues.length ∧ p'.worker.phase = .idle ∧ q'.buffer = [] ∧
      q'.blocked = [] ∧ q'.timeout = p'.config.enqueueTimeout := by
  have same : y.system.publishers.map Publisher.core = x.system.publishers.map Publisher.core →
      False := by
    intro cores
    obtain ⟨p, hp₀, -⟩ := exists_of_map_eq cores hp'
    cases hp.symm.trans hp₀
  cases Session.trades_of_after? h with
  | quiet _ _ _ publishers => exact (same publishers).elim
  | aborted _ _ _ _ _ publishers => exact (same publishers).elim
  | called _ _ _ _ _ publishers => exact (same publishers).elim
  | @worked k p₀ q₀ q₁ w host s _ _ _ _ _ publishers =>
    dsimp only at hp'
    rw [publishers, List.getElem?_modify, hp] at hp'
    cases hp'
  | @opened _ _ config p₀ _ _ _ queues publishers hconfig hqueue idle _ =>
    obtain ⟨p, hp₀, core⟩ := exists_of_map_eq publishers hp'
    rcases getElem?_concat_cases hp₀ with hp₀ | ⟨rfl, rfl⟩
    · cases hp.symm.trans hp₀
    · obtain ⟨queue, settings, -⟩ := Publisher.of_core core
      have phase := Publisher.phase_of_core core
      have own : x.system.queues.length ∉ x.ownQueues := fun hown =>
        Nat.lt_irrefl _ (run.owning.own _ hown)
      have last : (x.system.queues ++ [Queue.ofCapacity config.queueCapacity
          config.enqueueTimeout])[x.system.queues.length]? =
          some (Queue.ofCapacity config.queueCapacity config.enqueueTimeout) := by simp
      obtain ⟨q₁, hq₁, same⟩ := queues.exists_core last own
      rw [queue, hqueue, hq₁] at hq'
      obtain rfl := Option.some.inj hq'
      obtain ⟨buffer, blocked⟩ := Queue.of_core_items same
      have timeout : q₁.timeout = config.enqueueTimeout := congrArg Queue.timeout same
      refine ⟨queue.trans hqueue, phase.trans idle, buffer, blocked, ?_⟩
      rw [timeout, settings, hconfig]

/-- Nothing was let in by a queue that there is not yet. -/
theorem admitted_eq_nil (run : Runs ts z) (hj : z.system.queues.length ≤ j) :
    admitted ts j = [] := by
  induction run with
  | start => rfl
  | @next ts x y a run h ih =>
    have before : x.system.queues.length ≤ j := Nat.le_trans (queues_le_of_after? h) hj
    have none : y.buffer j = [] := by
      rw [Session.buffer, List.getElem?_eq_none hj]
      rfl
    rw [admitted_cons, ih before, Transition.admits, none]
    rfl

/-- A worker that there is not yet was done with nothing. -/
theorem history_eq_nil (ledgers : Ledgers ts x) (h : x.system.publishers.length ≤ i) :
    history ts i = [] := by
  refine List.flatMap_eq_nil_iff.mpr fun u hu => ?_
  have known := ledgers.known u (List.mem_reverse.mp hu)
  have none : u.before.system.publishers[i]? = none :=
    List.getElem?_eq_none (Nat.le_trans known h)
  simp [Transition.finished, none]

/-- A step of an agent changes the log of a topic only if it is the worker. -/
theorem Alone.log_eq {topic : String} (alone : Alone (⟨x, a, y⟩ :: ts) i topic)
    (others : a ≠ .agent (.worker i)) : y.log topic = x.log topic := by
  by_contra changed
  exact others (Action.of_isWorker (alone _ List.mem_cons_self changed))

theorem Runs.inOrder {topic : String} (run : Runs ts z) (alone : Alone ts i topic) :
    (z.system.publishers[i]? = none → z.log topic = []) ∧
      ∀ p q, z.system.publishers[i]? = some p → z.system.queues[p.queue]? = some q →
        p.config.changeTopic = topic → InOrder ts z i p q := by
  induction run with
  | start => exact ⟨fun _ => rfl, fun _ _ hp => (nomatch hp)⟩
  | @next ts x y a run h ih =>
    obtain ⟨unused, ordered⟩ := ih fun u hu => alone u (List.mem_cons_of_mem _ hu)
    cases hp : x.system.publishers[i]? with
    | some p =>
      obtain ⟨q, hq, led⟩ := run.ledgers.ledger i p hp
      by_cases own : a = .agent (.worker i)
      · subst own
        obtain ⟨s, hs, rfl⟩ := Option.map_eq_some_iff.mp h
        obtain ⟨p₀, q₀, host, q', w, hp₀, hq₀, hw, rfl⟩ := Agent.step?_worker hs
        obtain rfl := Option.some.inj (hp.symm.trans hp₀)
        obtain rfl := Option.some.inj (hq.symm.trans hq₀)
        obtain ⟨new, passes⟩ := (Worker.step_of_step? hw).passes
        have topic := (run.configured p (List.mem_of_getElem? hp)).1
        have after : (x.system.publishers.modify i fun p => { p with worker := w })[i]? =
            some { p with worker := w } := by simp [hp]
        have after' : (x.system.queues.modify p.queue fun _ => q')[p.queue]? = some q' := by
          simp [hq]
        refine ⟨fun none => (nomatch after.symm.trans none), fun p' q'' hp' hq'' ht => ?_⟩
        obtain rfl := Option.some.inj (after.symm.trans hp')
        obtain rfl := Option.some.inj (after'.symm.trans hq'')
        exact (ordered p q hp hq ht).own led topic passes hp hq after after' rfl
      · obtain ⟨p', q', new, hp', core, hq', joins⟩ := joins_of_after? run h own hp hq
        obtain ⟨queue, config, -⟩ := Publisher.of_core core
        refine ⟨fun none => (nomatch hp'.symm.trans none), fun p₁ q₁ hp₁ hq₁ ht => ?_⟩
        obtain rfl := Option.some.inj (hp'.symm.trans hp₁)
        rw [queue] at hq₁
        obtain rfl := Option.some.inj (hq'.symm.trans hq₁)
        have ht : p.config.changeTopic = topic := config ▸ ht
        refine (ordered p q hp hq ht).others led run.told hp hq hp' core hq' joins ?_
        rw [ht]
        exact alone.log_eq own
    | none =>
      have others : a ≠ .agent (.worker i) := by
        rintro rfl
        obtain ⟨s, hs, rfl⟩ := Option.map_eq_some_iff.mp h
        obtain ⟨p₀, -, -, -, -, hp₀, -⟩ := Agent.step?_worker hs
        cases hp.symm.trans hp₀
      have log := (alone.log_eq others).trans (unused hp)
      refine ⟨fun _ => log, fun p q hp' hq ht => ?_⟩
      obtain ⟨queue, idle, buffer, blocked, -⟩ := fresh_of_after? run h hp hp' hq
      have unknown := admitted_eq_nil run (Nat.le_of_eq queue.symm)
      refine .new ?_ ?_ idle buffer blocked (ht ▸ log)
      · have after : y.buffer p.queue = [] := (Session.buffer_eq hq).trans buffer
        rw [admitted_cons, unknown, Transition.admits, after]
        rfl
      · rw [history_cons, history_eq_nil run.ledgers (List.getElem?_eq_none_iff.mp hp)]
        simp [Transition.finished, hp]

/-! ## What the log shows -/

/-- The tickets with an outcome are those of the history. -/
theorem settled_perm (ts : List Transition) (i : Nat) (o : Outcome) :
    (settled ts i o).Perm (((history ts i).filter (·.2 = o)).map fun e => e.1.ticket) := by
  induction ts with
  | nil => exact .refl _
  | cons t ts ih =>
    rw [settled, List.flatMap_cons, history_cons, List.filter_append, List.map_append,
      Transition.leaves_eq]
    exact List.perm_append_comm.trans (List.Perm.append_right _ ih)

theorem mem_settled {e : Item × Outcome} (h : e ∈ history ts i) :
    e.1.ticket ∈ settled ts i e.2 := by
  refine (settled_perm ts i e.2).symm.subset ?_
  have kept : e ∈ (history ts i).filter (·.2 = e.2) := List.mem_filter.mpr ⟨h, decide_eq_true rfl⟩
  exact List.mem_map_of_mem kept

/-- What an ordered list has of the others and of one kind, if that kind comes last. -/
theorem eq_filter_append {α : Type} {P : α → Prop} [DecidablePred P] {l : List α}
    (h : l.Pairwise fun a b => P a → P b) :
    l = l.filter (fun a => ¬ P a) ++ l.filter (fun a => P a) := by
  induction l with
  | nil => rfl
  | cons a l ih =>
    obtain ⟨first, rest⟩ := List.pairwise_cons.mp h
    by_cases ha : P a
    · have all : ∀ b ∈ a :: l, P b := by
        intro b hb
        rcases List.mem_cons.mp hb with rfl | hb
        · exact ha
        · exact first b hb ha
      have none : (a :: l).filter (fun a => ¬ P a) = [] :=
        List.filter_eq_nil_iff.mpr fun b hb => by simpa using all b hb
      have whole : (a :: l).filter (fun a => P a) = a :: l :=
        List.filter_eq_self.mpr fun b hb => by simpa using all b hb
      rw [none, whole, List.nil_append]
    · rw [List.filter_cons_of_pos (by simpa using ha), List.filter_cons_of_neg (by simpa using ha),
        List.cons_append, ← ih rest]

/-- The tickets of a history, by outcome. -/
theorem history_perm (l : List (Item × Outcome)) : (l.map fun e => e.1.ticket).Perm
    (((l.filter (·.2 = .published)).map fun e => e.1.ticket) ++
      ((l.filter (·.2 = .dropped)).map fun e => e.1.ticket) ++
      (l.filter (·.2 = .abandoned)).map fun e => e.1.ticket) := by
  refine List.perm_iff_count.mpr fun n => ?_
  induction l with
  | nil => rfl
  | cons e l ih =>
    obtain ⟨item, o⟩ := e
    cases o <;> simp only [List.map_cons, List.filter_cons, List.count_append, List.count_cons,
      decide_true, reduceCtorEq, decide_false, Bool.false_eq_true, if_true, if_false] at ih ⊢ <;>
      omega

/-- The events that a queue has let in and its worker has finished with, neither dropped nor
abandoned, in the order in which they were let in. -/
def sent (ts : List Transition) (i : Nat) (p : Publisher) (q : Queue) : List Item :=
  (admitted ts p.queue).filter fun item =>
    item.ticket ∉ settled ts i .dropped ++ settled ts i .abandoned ++ q.buffered ++ p.worker.inHand

namespace Ledger

variable (led : Ledger ts z i p q)
include led

theorem places_nodup : (settled ts i .published ++ (settled ts i .dropped ++
    (settled ts i .abandoned ++ (q.buffered ++ p.worker.inHand)))).Nodup := by
  have taken : (accepted ts p.queue ++ q.promised).Nodup :=
    led.balanced.nodup.sublist (List.Sublist.append_left (List.sublist_append_right _ _) _)
  have places : (settled ts i .published ++ settled ts i .dropped ++ settled ts i .abandoned ++
      q.buffered ++ p.worker.inHand).Nodup := led.balanced.places.nodup_iff.mp taken
  simpa only [List.append_assoc] using places

/-- What was taken has an outcome, or is in hand or buffered. -/
theorem perm_history : (accepted ts p.queue ++ q.promised).Perm
    ((history ts i).map (fun e => e.1.ticket) ++ (p.worker.inHand ++ q.buffered)) := by
  have places : (accepted ts p.queue ++ q.promised).Perm (settled ts i .published ++
    settled ts i .dropped ++ settled ts i .abandoned ++ q.buffered ++ p.worker.inHand) :=
    led.balanced.places
  have history := (((settled_perm ts i .published).append (settled_perm ts i .dropped)).append
    (settled_perm ts i .abandoned)).trans (history_perm (history ts i)).symm
  refine places.trans ?_
  rw [List.append_assoc]
  exact history.append List.perm_append_comm

/-- What has an outcome is neither buffered nor in hand. -/
theorem not_pending {o : Outcome} (h : n ∈ settled ts i o) :
    n ∉ q.buffered ++ p.worker.inHand := by
  obtain ⟨-, rest, published⟩ := List.nodup_append.mp led.places_nodup
  obtain ⟨-, rest, dropped⟩ := List.nodup_append.mp rest
  obtain ⟨-, -, abandoned⟩ := List.nodup_append.mp rest
  intro pending
  cases o with
  | published =>
    exact published n h n (List.mem_append_right _ (List.mem_append_right _ pending)) rfl
  | dropped => exact dropped n h n (List.mem_append_right _ pending) rfl
  | abandoned => exact abandoned n h n pending rfl

/-- An event has one outcome. -/
theorem outcome_unique {o o' : Outcome} (h : n ∈ settled ts i o) (h' : n ∈ settled ts i o') :
    o = o' := by
  obtain ⟨-, rest, published⟩ := List.nodup_append.mp led.places_nodup
  obtain ⟨-, -, dropped⟩ := List.nodup_append.mp rest
  simp only [List.mem_append] at published dropped
  cases o <;> cases o' <;> grind

theorem mem_settled_iff {e : Item × Outcome} {o : Outcome} (h : e ∈ history ts i) :
    e.1.ticket ∈ settled ts i o ↔ e.2 = o := by
  constructor
  · exact fun settled => led.outcome_unique (mem_settled h) settled
  · rintro rfl
    exact mem_settled h

omit led in
theorem pending_of_mem {item : Item} (h : item ∈ p.worker.held ++ q.buffer) :
    item.ticket ∈ q.buffered ++ p.worker.inHand := by
  rcases List.mem_append.mp h with hand | buffer
  · refine List.mem_append_right _ ?_
    rw [← Worker.map_ticket_held]
    exact List.mem_map_of_mem hand
  · exact List.mem_append_left _ (List.mem_map_of_mem buffer)

/-- What is in hand or buffered has no outcome. -/
theorem not_settled {item : Item} (h : item ∈ p.worker.held ++ q.buffer) (o : Outcome) :
    item.ticket ∉ settled ts i o :=
  fun settled => led.not_pending settled (pending_of_mem h)

end Ledger

namespace InOrder

variable (ord : InOrder ts z i p q) (led : Ledger ts z i p q)
include ord led

theorem tickets : ((admitted ts p.queue).map Item.ticket).Perm
    (accepted ts p.queue ++ q.promised) := by
  rw [ord.order, List.map_append, List.map_append, List.map_map, Worker.map_ticket_held]
  exact led.perm_history.symm

omit led in
/-- What was let in, sorted out by what became of it. -/
theorem filter_admitted {P : Item → Bool} {Q : Item × Outcome → Bool}
    (same : ∀ e ∈ history ts i, P e.1 = Q e) :
    (admitted ts p.queue).filter P =
      ((history ts i).filter Q).map Prod.fst ++ (p.worker.held ++ q.buffer).filter P := by
  rw [ord.order, List.filter_append, List.filter_map]
  congr 2
  exact List.filter_congr same

theorem sent_eq : sent ts i p q = ((history ts i).filter (·.2 = .published)).map Prod.fst := by
  have none : (p.worker.held ++ q.buffer).filter (fun item => item.ticket ∉ settled ts i .dropped ++
      settled ts i .abandoned ++ q.buffered ++ p.worker.inHand) = [] := by
    refine List.filter_eq_nil_iff.mpr fun item pending => ?_
    have place := Ledger.pending_of_mem pending
    simp only [List.append_assoc, List.mem_append] at place ⊢
    simp [place]
  rw [sent, ord.filter_admitted (Q := fun e => e.2 = .published), none, List.append_nil]
  · intro e he
    have outcome := fun o => led.mem_settled_iff (o := o) he
    have place := led.not_pending (mem_settled he)
    simp only [List.mem_append, not_or] at place
    obtain ⟨item, o⟩ := e
    cases o <;> simp [outcome, place]

/-- The log is a prefix of what was let in and not dropped. -/
theorem sent_prefix : sent ts i p q <+:
    (admitted ts p.queue).filter fun item => item.ticket ∉ settled ts i .dropped := by
  rw [ord.sent_eq led, ord.filter_admitted (Q := fun e => e.2 ≠ .dropped)]
  · refine List.IsPrefix.trans ?_ (List.prefix_append _ _)
    refine List.IsPrefix.map _ ?_
    -- of what was not dropped, what was abandoned is last
    have split := eq_filter_append (ord.last.filter fun e => e.2 ≠ .dropped)
    rw [split, List.filter_filter]
    refine List.prefix_append_of_prefix ?_
    have same : (history ts i).filter (·.2 = .published) = (history ts i).filter fun e =>
        (¬ e.2 = .abandoned : Bool) && (e.2 ≠ .dropped : Bool) := by
      refine List.filter_congr fun e _ => ?_
      obtain ⟨item, o⟩ := e
      cases o <;> rfl
    exact same ▸ List.prefix_rfl
  · intro e he
    simp [led.mem_settled_iff he]

/-- Either nothing was abandoned, or all that was let in has an outcome. -/
theorem abandoned_cases : (∀ e ∈ history ts i, e.2 ≠ .abandoned) ∨
    admitted ts p.queue = (history ts i).map Prod.fst := by
  by_cases ended : p.worker.phase = .ended
  · right
    have hand : p.worker.held = [] := by
      rw [Worker.held, ended]
      rfl
    rw [ord.order, hand, (led.balanced.gone (led.balanced.ended ended)).1]
    exact List.append_nil _
  · exact .inl (ord.going ended)

/-- What was abandoned was let in last. -/
theorem split : ∃ kept given, admitted ts p.queue = kept ++ given ∧
    (∀ item ∈ kept, item.ticket ∉ settled ts i .abandoned) ∧
    ∀ item ∈ given, item.ticket ∈ settled ts i .abandoned := by
  rcases ord.abandoned_cases led with none | all
  · refine ⟨admitted ts p.queue, [], (List.append_nil _).symm, fun item hi => ?_, by simp⟩
    rw [ord.order] at hi
    rcases List.mem_append.mp hi with settled | pending
    · obtain ⟨e, he, rfl⟩ := List.mem_map.mp settled
      rw [led.mem_settled_iff he]
      exact none e he
    · exact led.not_settled pending _
  · have parts := eq_filter_append ord.last
    refine ⟨((history ts i).filter (¬ ·.2 = .abandoned)).map Prod.fst,
      ((history ts i).filter (·.2 = .abandoned)).map Prod.fst, ?_, fun item hi => ?_,
      fun item hi => ?_⟩
    · rw [all, ← List.map_append, ← parts]
    · obtain ⟨e, he, rfl⟩ := List.mem_map.mp hi
      obtain ⟨known, kept⟩ := List.mem_filter.mp he
      rw [led.mem_settled_iff known]
      exact of_decide_eq_true kept
    · obtain ⟨e, he, rfl⟩ := List.mem_map.mp hi
      obtain ⟨known, given⟩ := List.mem_filter.mp he
      rw [led.mem_settled_iff known]
      exact of_decide_eq_true given

end InOrder

/-- Where nothing can go on and nobody else has published on the topic of a publisher, the log
has the events that were let in and sent, in this order and each as it was brought. They are a
prefix of the accepted events less the dropped ones, and the abandoned events are the last of
all. -/
theorem published_in_order (run : Runs ts z) (quiescent : z.system.isQuiescent)
    (hp : z.system.publishers[i]? = some p) (alone : Alone ts i p.config.changeTopic) :
    ∃ q, z.system.queues[p.queue]? = some q ∧
      ((admitted ts p.queue).map Item.ticket).Nodup ∧
      ((admitted ts p.queue).map Item.ticket).Perm (accepted ts p.queue) ∧
      (∀ item ∈ admitted ts p.queue, ∃ u ∈ ts, u.Brings p.queue item) ∧
      z.log p.config.changeTopic = (sent ts i p q).map (fun item => item.event.write) ∧
      sent ts i p q <+:
        ((admitted ts p.queue).filter fun item => item.ticket ∉ settled ts i .dropped) ∧
      ∃ kept given, admitted ts p.queue = kept ++ given ∧
        (∀ item ∈ kept, item.ticket ∉ settled ts i .abandoned) ∧
        ∀ item ∈ given, item.ticket ∈ settled ts i .abandoned := by
  obtain ⟨q, hq, led⟩ := run.ledgers.ledger i p hp
  have ord := (run.inOrder alone).2 p q hp hq rfl
  have tickets : ((admitted ts p.queue).map Item.ticket).Perm (accepted ts p.queue) := by
    have tickets := ord.tickets led
    rw [promised_eq_nil run quiescent hq led, List.append_nil] at tickets
    exact tickets
  refine ⟨q, hq, ?_, tickets, ?_, ?_, ord.sent_prefix led, ord.split led⟩
  · exact tickets.nodup_iff.mpr (List.nodup_append.mp led.balanced.nodup).1
  · exact fun item hi => ord.brought item (List.mem_append_left _ hi)
  · rw [ord.log, ord.sent_eq led, List.map_map]
    rfl

set_option maxRecDepth 100000 in
/-- Of two events the first was dropped; the log has the second. -/
theorem second_event_in_log :
    ∃ p q, (play oneDropped).2.system.publishers[0]? = some p ∧
      (play oneDropped).2.system.queues[p.queue]? = some q ∧
      (admitted (play oneDropped).1 p.queue).map Item.ticket = [0, 1] ∧
      (play oneDropped).2.log p.config.changeTopic =
        (sent (play oneDropped).1 0 p q).map (fun item => item.event.write) ∧
      ((play oneDropped).2.log p.config.changeTopic).length = 1 := by
  let z := (play oneDropped).2
  have quiescent : z.system.isQuiescent = true := by rfl
  have present : (z.system.publishers[0]?.map fun p => (p.queue, p.config.changeTopic)) =
      some (0, "workspace.events") := by rfl
  obtain ⟨p, hp, both⟩ := Option.map_eq_some_iff.mp present
  obtain ⟨queue, topic⟩ := Prod.mk.inj both
  have alone : Alone (play oneDropped).1 0 "workspace.events" := by decide +kernel
  have order : (admitted (play oneDropped).1 0).map Item.ticket = [0, 1] := by rfl
  have one : (z.log "workspace.events").length = 1 := by rfl
  obtain ⟨q, hq, -, -, -, log, -⟩ :=
    published_in_order (play_runs oneDropped) quiescent hp (topic ▸ alone)
  exact ⟨p, q, hp, hq, queue ▸ order, log, topic ▸ one⟩

end ChangeDispatch.Script
