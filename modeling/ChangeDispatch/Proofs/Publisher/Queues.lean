import ChangeDispatch.Proofs.Publisher.Balance
import ChangeDispatch.Proofs.Run.Agents

/-!
# How a run changes queues and publishers

The queue of a publisher changes in four ways: a call brings an event to it or learns what
became of one, a call that is given up leaves its line, and its worker makes a step. The
caller cannot use it in any other way, as it has no other name than the publisher's.
-/
namespace ChangeDispatch

theorem Publisher.of_core {p p' : Publisher} (h : p'.core = p.core) :
    p'.queue = p.queue ∧ p'.config = p.config ∧
      { p'.worker with stopping := false } = { p.worker with stopping := false } := by
  have queue : p'.core.queue = p.core.queue := by rw [h]
  have config : p'.core.config = p.core.config := by rw [h]
  have worker : p'.core.worker = p.core.worker := by rw [h]
  exact ⟨queue, config, worker⟩

theorem Publisher.phase_of_core {p p' : Publisher} (h : p'.core = p.core) :
    p'.worker.phase = p.worker.phase := by
  have same : p'.core.worker.phase = p.core.worker.phase := by rw [h]
  exact same

theorem Publisher.stats_of_core {p p' : Publisher} (h : p'.core = p.core) :
    p'.worker.stats = p.worker.stats := by
  have same : p'.core.worker.stats = p.core.worker.stats := by rw [h]
  exact same

/-- The worker has the topic and the retry policy of the configuration. -/
def Publisher.isConfigured (p : Publisher) : Prop :=
  p.worker.topic = p.config.changeTopic ∧
    p.worker.retry = { maxAttempts := p.config.maxPublishAttempts, delay := p.config.retryDelay }

theorem Publisher.isConfigured_of {p p' : Publisher} (configured : p.isConfigured)
    (config : p'.config = p.config) (topic : p'.worker.topic = p.worker.topic)
    (retry : p'.worker.retry = p.worker.retry) : p'.isConfigured := by
  unfold isConfigured
  rw [topic, retry, config]
  exact configured

namespace Call.Phase

/-- The call has brought its event, or was never to bring one, and is at its wait or over. -/
def isPast : Phase → Bool
  | .awaiting .. | .waiting .. | .ended .. | .aborted => true
  | _ => false

/-- The event of a call that was to bring it was taken. -/
def isTaken : Phase → Bool
  | .awaiting .. | .ended _ .done => true
  | _ => false

@[simp] theorem isTaken_afterQueued (now : Nat) (next : Option WaitHandle) :
    (afterQueued now next).isTaken := by
  cases next <;> rfl

@[simp] theorem isPast_afterQueued (now : Nat) (next : Option WaitHandle) :
    (afterQueued now next).isPast := by
  cases next <;> rfl

theorem isPast_of_isBare {φ : Phase} (h : φ.isBare) : φ.isPast = false := by
  cases φ <;> first | rfl | cases h

theorem brings?_of_isBare {φ : Phase} (h : φ.isBare) : φ.brings? = none := by
  cases φ <;> first | rfl | cases h

theorem brings?_of_isPast {φ : Phase} (h : φ.isPast) : φ.brings? = none := by
  cases φ <;> first | rfl | cases h

end Call.Phase

namespace System

/-- What a step of call `n` does with the queues. -/
inductive CallTrade (s : System) (n : Nat) : Call.Phase → List Queue → Call.Phase → Prop where
  /-- The call brings no event now. -/
  | aside {φ ψ : Call.Phase} : φ.brings? = none → CallTrade s n φ s.queues ψ
  | refused {φ : Call.Phase} {j : Nat} {event : ChangeEvent} {e : DispatchError} :
      φ.brings? = some (j, event) →
      (∀ q, s.queues[j]? = some q →
        (∃ next, φ = .enqueuing j event next) ∨ q.standing n = .refused) →
      CallTrade s n φ s.queues (.ended s.host.now (.failed e))
  | accepted {j : Nat} {event : ChangeEvent} {next : Option WaitHandle} {q q' : Queue} :
      s.queues[j]? = some q → q.offer ⟨n, event⟩ = (.accepted, q') →
      CallTrade s n (.enqueuing j event next) (s.queues.modify j fun _ => q')
        (.afterQueued s.host.now next)
  | blocked {j : Nat} {event : ChangeEvent} {next : Option WaitHandle} {timer : Timer}
      {q q' : Queue} :
      s.queues[j]? = some q → q.offer ⟨n, event⟩ = (.blocked, q') →
      CallTrade s n (.enqueuing j event next) (s.queues.modify j fun _ => q')
        (.inLine j event timer next)
  | collected {j : Nat} {event : ChangeEvent} {next : Option WaitHandle} {timer : Timer}
      {q : Queue} :
      s.queues[j]? = some q → q.standing n = .accepted →
      CallTrade s n (.inLine j event timer next) (s.queues.modify j fun q => q.collect n)
        (.afterQueued s.host.now next)
  | withdrawn {j : Nat} {event : ChangeEvent} {next : Option WaitHandle} {timer : Timer}
      {q : Queue} {e : DispatchError} :
      s.queues[j]? = some q → q.standing n = .blocked →
      CallTrade s n (.inLine j event timer next) (s.queues.modify j fun q => q.withdraw n)
        (.ended s.host.now (.failed e))

theorem CallTrade.length_eq {s : System} {n : Nat} {φ ψ : Call.Phase} {queues : List Queue}
    (trade : CallTrade s n φ queues ψ) : queues.length = s.queues.length := by
  cases trade <;> first | rfl | exact List.length_modify ..

theorem length_leaveLine (queues : List Queue) (n : Nat) (φ : Call.Phase) :
    (leaveLine queues n φ).length = queues.length := by
  cases φ <;> first | rfl | exact List.length_modify ..

theorem CallStep.trade {s u : System} {n : Nat} {φ ψ : Call.Phase} (step : CallStep s n φ u ψ) :
    CallTrade s n φ u.queues ψ ∧ (φ.isPast → ψ.isPast) := by
  cases step with
  | moved hφ _ =>
    exact ⟨.aside (Call.Phase.brings?_of_isBare hφ),
      fun h => absurd h (by simp [Call.Phase.isPast_of_isBare hφ])⟩
  | sent hφ _ => rcases hφ with rfl | ⟨timer, rfl⟩ <;> exact ⟨.aside rfl, fun _ => rfl⟩
  | @stopped _ c next hφ =>
    rcases hφ with rfl | rfl <;> cases next <;> exact ⟨.aside rfl, fun _ => rfl⟩
  | registered _ _ hφ =>
    rcases hφ with ⟨queue, rfl, rfl⟩ | ⟨token, rfl, rfl⟩
    · exact ⟨.aside rfl, fun h => (nomatch h)⟩
    · exact ⟨.aside rfl, fun h => (nomatch h)⟩
  | @invalid queue event next e _ =>
    have queues := (UpToRegistries.letGo s next).queues
    exact ⟨queues ▸ .refused rfl fun q _ => .inl ⟨next, rfl⟩, fun _ => rfl⟩
  | @refused queue event next _ _ =>
    have queues := (UpToRegistries.letGo s next).queues
    exact ⟨queues ▸ .refused rfl fun q _ => .inl ⟨next, rfl⟩, fun _ => rfl⟩
  | accepted _ hq ho => exact ⟨.accepted hq ho, fun _ => by simp⟩
  | blocked _ hq ho _ => exact ⟨.blocked hq ho, fun h => (nomatch h)⟩
  | collected hq hs => exact ⟨.collected hq hs, fun _ => by simp⟩
  | @dismissed queue event next timer hr =>
    have queues := (UpToRegistries.letGo s next).queues
    exact ⟨queues ▸ .refused rfl fun q h => .inr (hr q h), fun _ => rfl⟩
  | @withdrawn queue event next timer q hq hb _ =>
    have queues := (UpToRegistries.letGo (s.adjustQueue queue fun q => q.withdraw n) next).queues
    exact ⟨queues ▸ .withdrawn hq hb, fun _ => rfl⟩
  | answered hφ _ => rcases hφ with rfl | ⟨timer, rfl⟩ <;> exact ⟨.aside rfl, fun _ => rfl⟩
  | waited _ _ => exact ⟨.aside rfl, fun _ => rfl⟩

end System

namespace Script

/-- What an action does to calls, queues and publishers. -/
inductive Session.Trades (x : Session) : Action → Session → Prop where
  /-- No call makes a step and no queue of a publisher changes. -/
  | quiet {a : Action} {y : Session} {more : List Call} :
      (∀ n, a ≠ .agent (.call n)) → y.system.calls = x.system.calls ++ more →
      Spares Queue.core x.ownQueues y.ownQueues x.system.queues y.system.queues →
      y.system.publishers.map Publisher.core = x.system.publishers.map Publisher.core →
      Trades x a y
  | opened {a : Action} {y : Session} {config : DispatchConfig} {p : Publisher} :
      (∀ n, a ≠ .agent (.call n)) → y.system.calls = x.system.calls →
      config.validate = .ok () →
      Spares Queue.core x.ownQueues y.ownQueues
        (x.system.queues ++ [.ofCapacity config.queueCapacity config.enqueueTimeout])
        y.system.queues →
      y.system.publishers.map Publisher.core = (x.system.publishers ++ [p]).map Publisher.core →
      p.config = config → p.queue = x.system.queues.length → p.worker.phase = .idle →
      p.worker.stats = {} → Trades x a y
  /-- A call is given up that cannot go on. -/
  | aborted {a : Action} {y : Session} {n : Nat} {c : Call} :
      (∀ n, a ≠ .agent (.call n)) → x.system.calls[n]? = some c → x.system.stepCall? n = none →
      y.system.calls = x.system.calls.modify n (fun c => { c with phase := .aborted }) →
      Spares Queue.core x.ownQueues y.ownQueues (System.leaveLine x.system.queues n c.phase)
        y.system.queues →
      y.system.publishers.map Publisher.core = x.system.publishers.map Publisher.core →
      Trades x a y
  | called {n : Nat} {φ ψ : Call.Phase} {t : System} {queues : List Queue} :
      x.system.phase? n = some φ → System.CallTrade x.system n φ queues ψ →
      (φ.isPast → ψ.isPast) →
      t.calls = x.system.calls.modify n (fun c => { c with phase := ψ }) →
      t.queues.map Queue.core = queues.map Queue.core →
      t.publishers.map Publisher.core = x.system.publishers.map Publisher.core →
      Trades x (.agent (.call n)) { x with system := t }
  | worked {i : Nat} {p : Publisher} {q q' : Queue} {w : Worker} {host : Host} {t : System} :
      x.system.publishers[i]? = some p → x.system.queues[p.queue]? = some q →
      Worker.Step x.system.host q p.worker host q' w → t.calls = x.system.calls →
      t.queues = x.system.queues.modify p.queue (fun _ => q') →
      t.publishers = x.system.publishers.modify i (fun p => { p with worker := w }) →
      Trades x (.agent (.worker i)) { x with system := t }

namespace Session

variable {x y u : Session} {a : Action}

theorem trades_performed (ha : ∀ n, a ≠ .agent (.call n)) (h : Performed x y) : Trades x a y := by
  obtain ⟨u, hu, he⟩ := h
  have quiet : ∀ {more : List Call}, u.system.calls = x.system.calls ++ more →
      u.ownQueues = x.ownQueues → u.system.queues = x.system.queues →
      u.system.publishers = x.system.publishers → Trades x a y := by
    intro more hc ho hq hp
    exact .quiet ha (he.calls.trans hc) (ho ▸ hq ▸ he.queues) (hp ▸ he.publishers)
  have same : u.system.calls = x.system.calls → u.ownQueues = x.ownQueues →
      u.system.queues = x.system.queues → u.system.publishers = x.system.publishers →
      Trades x a y := fun hc => quiet (hc.trans (List.append_nil _).symm)
  cases hu with
  | called _ => exact quiet rfl rfl rfl rfl
  | waited _ => exact quiet rfl rfl rfl rfl
  | @registered c _ _ _ r id v _ _ hv =>
    subst hv
    let z := x.onSystem (·.adjustCorrelator c fun co => { co with registry := r })
    have upTo := z.upToRegistries_dropWaiter id
    exact same upTo.calls (z.own_dropWaiter id).2 upTo.queues upTo.publishers
  | droppedWaiter id =>
    have upTo := x.upToRegistries_dropWaiter id
    exact same upTo.calls (x.own_dropWaiter id).2 upTo.queues upTo.publishers
  | @aborted n c hc _ hstep =>
    have upTo := System.UpToRegistries.forsake x.system n c.phase
    have queues : (x.system.forsake n c.phase).queues =
        System.leaveLine x.system.queues n c.phase := upTo.queues
    refine .aborted ha hc hstep (he.calls.trans ?_) (queues ▸ he.queues) (he.publishers.trans ?_)
    · exact congrArg (List.modify · n _) upTo.calls
    · exact congrArg (List.map Publisher.core) upTo.publishers
  | openedPublisher hv hs _ =>
    exact .opened ha he.calls hv he.queues he.publishers rfl rfl rfl rfl
  | _ => exact same rfl rfl rfl rfl

theorem trades_of_after? (h : x.after? a = some y) : Trades x a y := by
  have unchanged : ∀ {a : Action} {t : System}, (∀ n, a ≠ .agent (.call n)) →
      t.calls = x.system.calls → t.queues = x.system.queues →
      t.publishers = x.system.publishers → Trades x a { x with system := t } := by
    intro a t ha hc hq hp
    exact .quiet ha (hc.trans (List.append_nil _).symm)
      (.of_map (congrArg _ hq) (List.Subset.refl _)) (congrArg _ hp)
  cases moves_of_after? h with
  | performed ha hp => exact trades_performed (fun n => ha _) hp
  | injected topic payload => exact unchanged (by simp) rfl rfl rfl
  | passed _ => exact unchanged (by simp) rfl rfl rfl
  | @stepped agent t hs =>
    cases agent with
    | worker i =>
      obtain ⟨p, q, host, q', w, hp, hq, hw, rfl⟩ := Agent.step?_worker hs
      exact .worked hp hq (Worker.step_of_step? hw) rfl rfl rfl
    | listener c =>
      obtain ⟨co, host, co', -, -, rfl⟩ := Agent.step?_listener hs
      exact unchanged (by simp) rfl rfl rfl
    | consumer i =>
      obtain ⟨k, host, k', -, -, rfl⟩ := Agent.step?_consumer hs
      exact unchanged (by simp) rfl rfl rfl
    | redelivery i serial =>
      obtain ⟨entry, -, -, rfl⟩ := Agent.step?_redelivery hs
      exact unchanged (by simp) rfl rfl rfl
    | call n =>
      obtain ⟨φ, hφ, v, ψ, step, quiet⟩ := System.callSteps_of_stepCall? hs
      obtain ⟨trade, past⟩ := step.trade
      obtain ⟨host, queues, upTo⟩ := step.upToRegistries
      refine .called hφ trade past (quiet.calls.trans ?_) quiet.queues
        (quiet.publishers.trans (congrArg (List.map Publisher.core) upTo.publishers))
      exact congrArg (List.modify · n _) upTo.calls

/-- A publisher is what it was, or its worker has made a step, or it is new. -/
theorem publisher_cases (h : x.after? a = some y) {i : Nat} {p' : Publisher}
    (hp' : y.system.publishers[i]? = some p') :
    (∃ p, x.system.publishers[i]? = some p ∧ p'.core = p.core) ∨
    (∃ p q host q' w, a = .agent (.worker i) ∧ x.system.publishers[i]? = some p ∧
      p.worker.step? x.system.host q = some (host, q', w) ∧ p' = { p with worker := w }) ∨
    x.system.publishers[i]? = none ∧ p'.worker.phase = .idle ∧ p'.worker.stats = {} := by
  by_cases own : a = .agent (.worker i)
  · subst own
    obtain ⟨t, ht, rfl⟩ := Option.map_eq_some_iff.mp h
    obtain ⟨p, q, host, q', w, hp, -, hw, rfl⟩ := Agent.step?_worker ht
    refine .inr (.inl ⟨p, q, host, q', w, rfl, hp, hw, ?_⟩)
    change (x.system.publishers.modify i fun p => { p with worker := w })[i]? = some p' at hp'
    rw [List.getElem?_modify_eq, hp] at hp'
    exact (Option.some.inj hp').symm
  · cases trades_of_after? h with
    | quiet _ _ _ publishers => exact .inl (exists_of_map_eq publishers hp')
    | aborted _ _ _ _ _ publishers => exact .inl (exists_of_map_eq publishers hp')
    | called _ _ _ _ _ publishers => exact .inl (exists_of_map_eq publishers hp')
    | opened _ _ _ _ publishers _ _ idle stats =>
      obtain ⟨p, hp, core⟩ := exists_of_map_eq publishers hp'
      rcases getElem?_concat_cases hp with old | ⟨last, rfl⟩
      · exact .inl ⟨p, old, core⟩
      · refine .inr (.inr ⟨List.getElem?_eq_none (Nat.le_of_eq last.symm), ?_, ?_⟩)
        · exact (Publisher.phase_of_core core).trans idle
        · exact (Publisher.stats_of_core core).trans stats
    | @worked k _ _ _ _ _ _ _ _ _ _ _ publishers =>
      have other : k ≠ i := by
        rintro rfl
        exact own rfl
      dsimp only at hp'
      rw [publishers, List.getElem?_modify_ne _ _ other] at hp'
      exact .inl ⟨p', hp', rfl⟩

end Session

/-- What is so of the phase and the counters of a new worker, and what every step of a worker
keeps, is so of all workers. -/
theorem Runs.workers {P : Worker.Phase → PublishStats → Prop} {ts : List Transition} {z : Session}
    (run : Runs ts z) (fresh : P .idle {})
    (step : ∀ u ∈ ts, ∀ (q q' : Queue) (w w' : Worker) (host : Host),
      w.step? u.before.system.host q = some (host, q', w') → P w.phase w.stats →
      P w'.phase w'.stats) :
    ∀ p ∈ z.system.publishers, P p.worker.phase p.worker.stats := by
  induction run with
  | start => exact fun p hp => absurd hp List.not_mem_nil
  | @next ts x y a run h ih =>
    have before := ih fun u hu => step u (List.mem_cons_of_mem _ hu)
    intro p' hp'
    obtain ⟨i, hi⟩ := List.mem_iff_getElem?.mp hp'
    rcases Session.publisher_cases h hi with ⟨p, hp, core⟩ |
      ⟨p, q, host, q', w, -, hp, hw, rfl⟩ | ⟨-, idle, stats⟩
    · rw [Publisher.phase_of_core core, Publisher.stats_of_core core]
      exact before p (List.mem_of_getElem? hp)
    · exact step _ List.mem_cons_self q q' _ w host hw (before p (List.mem_of_getElem? hp))
    · rw [idle, stats]
      exact fresh

end Script

end ChangeDispatch
