import ChangeDispatch.Proofs.Publisher.Producers

/-!
# No event is lost silently

The books of a publisher are kept from what a run shows: which calls were told that their
events were taken, and which events the worker was done with when a counter went up. They
balance after every action; where nothing can go on, no event is between its place and its
producer, and the balance is the one that a user of the publisher can see.
-/
namespace ChangeDispatch

theorem Queue.of_core {q q' : Queue} (h : q'.core = q.core) :
    q'.capacity = q.capacity ∧ q'.lined = q.lined ∧ q'.promised = q.promised := by
  have capacity : q'.core.capacity = q.core.capacity := by rw [h]
  have lined : q'.core.lined = q.core.lined := by rw [h]
  have promised : q'.core.promised = q.core.promised := by rw [h]
  exact ⟨capacity, lined, promised⟩

theorem DispatchConfig.capacity_pos {c : DispatchConfig} (h : c.validate = .ok ()) :
    1 ≤ c.queueCapacity := by
  unfold validate at h
  by_contra hc
  have zero : c.queueCapacity = 0 := by omega
  rw [zero] at h
  cases hs : c.connection.servers.isEmpty <;> rw [hs] at h <;> cases h

namespace Script

variable {ts : List Transition} {x y z : Session} {a : Action} {i j n : Nat} {p p' : Publisher}
  {q q' : Queue}

/-- The tickets of the events that the worker of publisher `i` is done with. -/
def Transition.leaves (t : Transition) (i : Nat) (o : Outcome) : List Nat :=
  match t.before.system.publishers[i]?, t.after.system.publishers[i]? with
  | some p, some p' =>
    (t.before.system.queues[p.queue]?).elim [] fun q => p.worker.leaves q p'.worker o
  | _, _ => []

/-- What a run shows of the events of publisher `i` and its queue `j`. -/
def books (ts : List Transition) (i j : Nat) : Books :=
  ⟨accepted ts j, fun o => ts.flatMap fun t => t.leaves i o⟩

theorem books_cons (t : Transition) (ts : List Transition) (i j : Nat) :
    books (t :: ts) i j =
      { (books ts i j).settle (t.leaves i) with
        accepted := (t.brought? j Call.Phase.isTaken).toList ++ accepted ts j } := by
  unfold books
  rw [accepted_cons]
  rfl

theorem Transition.leaves_eq_nil {t : Transition}
    (h : ∀ p p', t.before.system.publishers[i]? = some p → t.after.system.publishers[i]? = some p' →
      p'.worker.stats = p.worker.stats) (o : Outcome) : t.leaves i o = [] := by
  unfold leaves
  split
  next p p' hp hp' =>
    cases t.before.system.queues[p.queue]? with
    | none => rfl
    | some q => exact Balanced.leaves_eq (by rw [h p p' hp hp'])
  next => rfl

theorem leaves_of_cores {l : List Publisher}
    (h : y.system.publishers.map Publisher.core = l.map Publisher.core)
    (same : ∀ p, x.system.publishers[i]? = some p → l[i]? = some p) (o : Outcome) :
    (⟨x, a, y⟩ : Transition).leaves i o = [] := by
  refine Transition.leaves_eq_nil (fun p p' hp hp' => ?_) o
  obtain ⟨p₀, hp₀, hcore⟩ := exists_of_map_eq h hp'
  obtain rfl := Option.some.inj ((same p hp).symm.trans hp₀)
  have stats : p'.core.worker.stats = p.core.worker.stats := by rw [hcore]
  exact stats

theorem books_same {t : Transition} (hb : t.brought? j Call.Phase.isTaken = none)
    (hl : ∀ o, t.leaves i o = []) : books (t :: ts) i j = books ts i j := by
  rw [books_cons, hb]
  exact congrArg (Books.mk (accepted ts j)) (funext fun o => congrArg (· ++ _) (hl o))

theorem books_taken {t : Transition} (hb : t.brought? j Call.Phase.isTaken = some n)
    (hl : ∀ o, t.leaves i o = []) :
    books (t :: ts) i j = { books ts i j with accepted := n :: (books ts i j).accepted } := by
  rw [books_cons, hb]
  exact congrArg (Books.mk (n :: accepted ts j)) (funext fun o => congrArg (· ++ _) (hl o))

/-- A step of call `n`. -/
def Transition.ofCall (x : Session) (n : Nat) (s : System) : Transition :=
  ⟨x, .agent (.call n), { x with system := s }⟩

/-- Call `n` goes from one phase to another in a step that leads to the system `s`, and the
worker of publisher `i` does nothing. -/
structure CallMoves (x : Session) (n : Nat) (φ ψ : Call.Phase) (s : System) (i : Nat) : Prop where
  before : x.system.phase? n = some φ
  calls : s.calls = x.system.calls.modify n fun c => { c with phase := ψ }
  leaves : ∀ o, (Transition.ofCall x n s).leaves i o = []

namespace CallMoves

variable {φ ψ : Call.Phase} {s : System}

theorem others (move : CallMoves x n φ ψ s i) {m : Nat} (hm : m ≠ n) {χ : Call.Phase}
    (hχ : x.system.phase? m = some χ) : s.phase? m = some χ := by
  rw [phase?_of_modify move.calls, if_neg (Ne.symm hm), hχ]

theorem now (move : CallMoves x n φ ψ s i) : s.phase? n = some ψ := by
  rw [phase?_of_modify move.calls, if_pos rfl, move.before]
  rfl

theorem brought? (move : CallMoves x n φ ψ s i) {ends : Call.Phase → Bool} :
    (Transition.ofCall x n s).brought? j ends =
      if φ.brings?.map Prod.fst = some j ∧ ends ψ then some n else none := by
  unfold Transition.ofCall Transition.brought?
  dsimp only
  rw [move.now, move.before]
  rfl

/-- The call learns that its event was taken. -/
theorem books_taken (move : CallMoves x n φ ψ s i) {event : ChangeEvent}
    (hb : φ.brings? = some (j, event)) (hψ : ψ.isTaken) :
    books (Transition.ofCall x n s :: ts) i j =
      { books ts i j with accepted := n :: (books ts i j).accepted } := by
  refine Script.books_taken ?_ move.leaves
  rw [move.brought?, hb]
  exact if_pos ⟨rfl, hψ⟩

theorem books_same (move : CallMoves x n φ ψ s i)
    (h : φ.brings?.map Prod.fst ≠ some j ∨ ψ.isTaken = false) :
    books (Transition.ofCall x n s :: ts) i j = books ts i j := by
  refine Script.books_same ?_ move.leaves
  rw [move.brought?]
  refine if_neg fun hb => ?_
  rcases h with h | h
  · exact h hb.1
  · exact Bool.false_ne_true (h.symm.trans hb.2)

end CallMoves

/-- The books of publisher `i` balance, and its producers stand in line. -/
structure Ledger (ts : List Transition) (z : Session) (i : Nat) (p : Publisher) (q : Queue) :
    Prop where
  capacity : q.capacity = p.config.queueCapacity
  balanced : Balanced (books ts i p.queue) p.worker q
  waiting : ∀ n ∈ q.lined ++ q.promised, ∃ event timer next,
    z.system.phase? n = some (.inLine p.queue event timer next)

namespace Ledger

theorem of_core (led : Ledger ts z i p q) (hp : p'.core = p.core) (hq : q'.core = q.core) :
    Ledger ts z i p' q' := by
  obtain ⟨queue, config, worker⟩ := Publisher.of_core hp
  obtain ⟨capacity, lined, promised⟩ := Queue.of_core hq
  refine ⟨?_, ?_, fun n hn => ?_⟩
  · rw [capacity, config, led.capacity]
  · rw [queue]
    exact led.balanced.of_core worker hq
  · rw [queue]
    rw [lined, promised] at hn
    exact led.waiting n hn

/-- Nothing happens to the publisher, and its producers stay in line. -/
theorem same (led : Ledger ts x i p q) {t : Transition}
    (hb : t.brought? p.queue Call.Phase.isTaken = none) (hl : ∀ o, t.leaves i o = [])
    (phases : ∀ n ∈ q.lined ++ q.promised, ∀ φ, x.system.phase? n = some φ →
      y.system.phase? n = some φ) : Ledger (t :: ts) y i p q := by
  refine ⟨led.capacity, ?_, fun n hn => ?_⟩
  · rw [books_same hb hl]
    exact led.balanced
  · obtain ⟨event, timer, next, hφ⟩ := led.waiting n hn
    exact ⟨event, timer, next, phases n hn _ hφ⟩

/-- A call that does not stand in line at the publisher is in no place there. -/
theorem not_waiting (led : Ledger ts x i p q) {φ : Call.Phase} (hφ : x.system.phase? n = some φ)
    (h : ∀ event timer next, φ ≠ .inLine p.queue event timer next) :
    n ∉ q.lined ++ q.promised := by
  intro hn
  obtain ⟨event, timer, next, hφ'⟩ := led.waiting n hn
  exact h event timer next (Option.some.inj (hφ.symm.trans hφ'))

/-- A call that brings an event was not told anything before. -/
theorem fresh (led : Ledger ts x i p q) (told : Told ts x) {event : ChangeEvent}
    {next : Option WaitHandle} (hφ : x.system.phase? n = some (.enqueuing p.queue event next)) :
    n ∉ accepted ts p.queue ++ (q.lined ++ q.promised) := by
  intro hn
  rcases List.mem_append.mp hn with hn | hn
  · obtain ⟨φ, hφ', past⟩ := told.past p.queue n (.inl hn)
    obtain rfl := Option.some.inj (hφ.symm.trans hφ')
    cases past
  · exact led.not_waiting hφ (by simp) hn

section CallSteps

variable {φ ψ : Call.Phase} {s : System} {event : ChangeEvent} {next : Option WaitHandle}
  {timer : Timer}

/-- The queue of the publisher changes in a step of a call. -/
theorem moved (led : Ledger ts x i p q) (move : CallMoves x n φ ψ s i)
    (capacity : q'.capacity = q.capacity)
    (balanced : Balanced (books (Transition.ofCall x n s :: ts) i p.queue) p.worker q')
    (waiting : ∀ m ∈ q'.lined ++ q'.promised, m ∈ q.lined ++ q.promised ∧ m ≠ n ∨
      m = n ∧ ∃ event timer next, ψ = .inLine p.queue event timer next) :
    Ledger (Transition.ofCall x n s :: ts) { x with system := s } i p q' := by
  refine ⟨capacity.trans led.capacity, balanced, fun m hm => ?_⟩
  rcases waiting m hm with ⟨hm, hne⟩ | ⟨rfl, event, timer, next, rfl⟩
  · obtain ⟨event, timer, next, hφ⟩ := led.waiting m hm
    exact ⟨event, timer, next, move.others hne hφ⟩
  · exact ⟨event, timer, next, move.now⟩

/-- The queue of the publisher stays what it is in a step of a call. -/
theorem unmoved (led : Ledger ts x i p q) (move : CallMoves x n φ ψ s i)
    (h : φ.brings?.map Prod.fst ≠ some p.queue ∨ ψ.isTaken = false)
    (hn : n ∉ q.lined ++ q.promised) :
    Ledger (Transition.ofCall x n s :: ts) { x with system := s } i p q := by
  refine led.moved move rfl ?_ fun m hm => .inl ⟨hm, fun he => hn (he ▸ hm)⟩
  rw [move.books_same h]
  exact led.balanced

/-- A call that brings its event elsewhere. -/
theorem call_aside (led : Ledger ts x i p q) (move : CallMoves x n φ ψ s i)
    (h : φ.brings?.map Prod.fst ≠ some p.queue) :
    Ledger (Transition.ofCall x n s :: ts) { x with system := s } i p q := by
  refine led.unmoved move (.inl h) (led.not_waiting move.before ?_)
  rintro event timer next rfl
  exact h rfl

/-- A producer is told an error: it does not stand in line. -/
theorem call_refused (led : Ledger ts x i p q) {e : DispatchError} {moment : Nat}
    (move : CallMoves x n φ (.ended moment (.failed e)) s i)
    (h : (∃ next, φ = .enqueuing p.queue event next) ∨ q.standing n = .refused) :
    Ledger (Transition.ofCall x n s :: ts) { x with system := s } i p q := by
  refine led.unmoved move (.inr rfl) ?_
  rcases h with ⟨next, rfl⟩ | hs
  · exact led.not_waiting move.before (by simp)
  · obtain ⟨h₁, h₂⟩ := Queue.standing_refused.mp hs
    exact fun hn => (List.mem_append.mp hn).elim h₁ h₂

theorem call_accepted (led : Ledger ts x i p q) (told : Told ts x) {moment : Nat}
    (move : CallMoves x n (.enqueuing p.queue event next) (.afterQueued moment next) s i)
    (ho : q.offer ⟨n, event⟩ = (.accepted, q')) :
    Ledger (Transition.ofCall x n s :: ts) { x with system := s } i p q' := by
  have kept := (Queue.offer_accepted ho).2.2
  refine led.moved move (by rw [kept]) ?_ fun m hm => .inl ⟨?_, ?_⟩
  · rw [move.books_taken rfl (by simp)]
    exact led.balanced.accept ho (led.fresh told move.before)
  · rwa [kept] at hm
  · rintro rfl
    rw [kept] at hm
    exact led.not_waiting move.before (by simp) hm

theorem call_blocked (led : Ledger ts x i p q) (told : Told ts x)
    (move : CallMoves x n (.enqueuing p.queue event next) (.inLine p.queue event timer next) s i)
    (ho : q.offer ⟨n, event⟩ = (.blocked, q')) :
    Ledger (Transition.ofCall x n s :: ts) { x with system := s } i p q' := by
  have lined := (Queue.offer_blocked ho).2
  refine led.moved move (by rw [lined]) ?_ fun m hm => ?_
  · rw [move.books_same (.inr rfl)]
    exact led.balanced.block ho (led.fresh told move.before)
  · have hm' : m ∈ q.lined ++ q.promised ∨ m = n := by
      rw [lined] at hm
      simp only [Queue.lined, Queue.promised, List.map_append, List.mem_append, List.map_cons,
        List.map_nil, List.mem_singleton] at hm ⊢
      tauto
    by_cases hmn : m = n
    · exact .inr ⟨hmn, event, timer, next, rfl⟩
    · exact .inl ⟨hm'.resolve_right hmn, hmn⟩

theorem call_collected (led : Ledger ts x i p q) {moment : Nat}
    (move : CallMoves x n (.inLine p.queue event timer next) (.afterQueued moment next) s i)
    (hs : q.standing n = .accepted) :
    Ledger (Transition.ofCall x n s :: ts) { x with system := s } i p (q.collect n) := by
  have notLined := (Queue.standing_accepted.mp hs).1
  refine led.moved move rfl ?_ fun m hm => .inl ?_
  · rw [move.books_taken rfl (by simp)]
    exact led.balanced.collect hs
  · simp only [Queue.promised, Queue.collect, Queue.map_ticket_filter, List.mem_append,
      List.mem_filter, bne_iff_ne] at hm ⊢
    rcases hm with hm | ⟨hm, hne⟩
    · exact ⟨.inl hm, fun he => notLined (he ▸ hm)⟩
    · exact ⟨.inr hm, hne⟩

theorem call_withdrawn (led : Ledger ts x i p q) {e : DispatchError} {moment : Nat}
    (move : CallMoves x n (.inLine p.queue event timer next) (.ended moment (.failed e)) s i)
    (hs : q.standing n = .blocked) :
    Ledger (Transition.ofCall x n s :: ts) { x with system := s } i p (q.withdraw n) := by
  have unpromised := led.balanced.not_promised (Queue.standing_blocked.mp hs)
  refine led.moved move rfl ?_ fun m hm => .inl (Queue.mem_withdraw unpromised hm)
  rw [move.books_same (.inr rfl)]
  exact led.balanced.withdraw n

/-- A step of a call. -/
theorem called (led : Ledger ts x i p q) (told : Told ts x) {queues : List Queue}
    (trade : System.CallTrade x.system n φ queues ψ) (move : CallMoves x n φ ψ s i)
    (hq : x.system.queues[p.queue]? = some q) (hq' : queues[p.queue]? = some q') :
    Ledger (Transition.ofCall x n s :: ts) { x with system := s } i p q' := by
  -- a queue that is not the publisher's does not matter
  have elsewhere : ∀ {j : Nat} {event : ChangeEvent} {f : Queue → Queue},
      queues = x.system.queues.modify j f → j ≠ p.queue → φ.brings? = some (j, event) →
      Ledger (Transition.ofCall x n s :: ts) { x with system := s } i p q' := by
    intro j event f hqs hj hb
    rw [hqs, List.getElem?_modify_ne f _ hj, hq] at hq'
    obtain rfl := Option.some.inj hq'
    refine led.call_aside move ?_
    rw [hb]
    exact fun h => hj (Option.some.inj h)
  cases trade with
  | aside hb =>
    obtain rfl := Option.some.inj (hq.symm.trans hq')
    exact led.call_aside move (by simp [hb])
  | @refused _ j event e hb hr =>
    obtain rfl := Option.some.inj (hq.symm.trans hq')
    by_cases hj : j = p.queue
    · subst hj
      exact led.call_refused move (hr q hq)
    · exact led.call_aside move (by simp [hb, hj])
  | @accepted j event next q₀ q₁ hj ho =>
    by_cases hjp : j = p.queue
    · subst hjp
      obtain rfl := Option.some.inj (hq.symm.trans hj)
      obtain rfl : q₁ = q' := by simpa [hq] using hq'
      exact led.call_accepted told move ho
    · exact elsewhere rfl hjp rfl
  | @blocked j event next timer q₀ q₁ hj ho =>
    by_cases hjp : j = p.queue
    · subst hjp
      obtain rfl := Option.some.inj (hq.symm.trans hj)
      obtain rfl : q₁ = q' := by simpa [hq] using hq'
      exact led.call_blocked told move ho
    · exact elsewhere rfl hjp rfl
  | @collected j event next timer q₀ hj hs =>
    by_cases hjp : j = p.queue
    · subst hjp
      obtain rfl := Option.some.inj (hq.symm.trans hj)
      obtain rfl : q.collect n = q' := by simpa [hq] using hq'
      exact led.call_collected move hs
    · exact elsewhere rfl hjp rfl
  | @withdrawn j event next timer q₀ e hj hs =>
    by_cases hjp : j = p.queue
    · subst hjp
      obtain rfl := Option.some.inj (hq.symm.trans hj)
      obtain rfl : q.withdraw n = q' := by simpa [hq] using hq'
      exact led.call_withdrawn move hs
    · exact elsewhere rfl hjp rfl

end CallSteps

/-- A producer whose event was taken from the line can go on. -/
theorem canStep_of_promised (led : Ledger ts x i p q) (hq : x.system.queues[p.queue]? = some q)
    (hn : n ∈ q.promised) : x.system.stepCall? n ≠ none := by
  obtain ⟨event, timer, next, hφ⟩ := led.waiting n (List.mem_append_right _ hn)
  have standing : q.standing n = .accepted :=
    Queue.standing_accepted.mpr ⟨fun hl => led.balanced.not_promised hl hn, hn⟩
  unfold System.phase? at hφ
  unfold System.stepCall?
  rw [hφ]
  dsimp only
  unfold System.stepInLine?
  rw [hq]
  dsimp only
  rw [standing]
  simp

/-- A call is given up: it leaves the line, and its event was not taken. -/
theorem aborted (led : Ledger ts x i p q) {c : Call} (ha : ∀ n, a ≠ .agent (.call n))
    (hc : x.system.calls[n]? = some c) (still : x.system.stepCall? n = none)
    (calls : y.system.calls = x.system.calls.modify n fun c => { c with phase := .aborted })
    (hl : ∀ o, (⟨x, a, y⟩ : Transition).leaves i o = [])
    (hq : x.system.queues[p.queue]? = some q)
    (hq' : (System.leaveLine x.system.queues n c.phase)[p.queue]? = some q') :
    Ledger (⟨x, a, y⟩ :: ts) y i p q' := by
  have hb : (⟨x, a, y⟩ : Transition).brought? p.queue Call.Phase.isTaken = none :=
    Transition.brought?_eq_none ha _ _
  have hφ : x.system.phase? n = some c.phase := congrArg (Option.map Call.phase) hc
  have others : ∀ m, m ≠ n → ∀ φ, x.system.phase? m = some φ → y.system.phase? m = some φ := by
    intro m hm φ hφ
    rw [phase?_of_modify calls, if_neg (Ne.symm hm), hφ]
  have aside : q' = q → (∀ event timer next, c.phase ≠ .inLine p.queue event timer next) →
      Ledger (⟨x, a, y⟩ :: ts) y i p q' := by
    rintro rfl hline
    exact led.same hb hl fun m hm => others m fun he => led.not_waiting hφ hline (he ▸ hm)
  cases hphase : c.phase with
  | inLine j event timer next =>
    rw [hphase] at hq'
    dsimp only [System.leaveLine] at hq'
    by_cases hj : j = p.queue
    · subst hj
      obtain rfl : q.withdraw n = q' := by simpa [hq] using hq'
      have unpromised : n ∉ q.promised := fun hn => led.canStep_of_promised hq hn still
      have gone : ∀ m ∈ (q.withdraw n).lined ++ (q.withdraw n).promised, _ :=
        fun m hm => Queue.mem_withdraw unpromised hm
      have withdrawn : Ledger ts x i p (q.withdraw n) :=
        ⟨led.capacity, led.balanced.withdraw n, fun m hm => led.waiting m (gone m hm).1⟩
      exact withdrawn.same hb hl fun m hm => others m (gone m hm).2
    · refine aside ?_ (by rw [hphase]; simp [hj])
      rw [List.getElem?_modify_ne _ _ hj, hq] at hq'
      exact (Option.some.inj hq').symm
  | _ =>
    rw [hphase] at hq'
    exact aside (Option.some.inj (hq'.symm.trans hq)) (by rw [hphase]; simp)

/-- A step of the worker of the publisher. -/
theorem worked (led : Ledger ts x i p q) {w : Worker} {host : Host} {s : System}
    (step : Worker.Step x.system.host q p.worker host q' w)
    (hp : x.system.publishers[i]? = some p) (hq : x.system.queues[p.queue]? = some q)
    (hp' : s.publishers[i]? = some { p with worker := w }) (calls : s.calls = x.system.calls) :
    Ledger (⟨x, .agent (.worker i), { x with system := s }⟩ :: ts) { x with system := s } i
      { p with worker := w } q' := by
  obtain ⟨capacity, waiting⟩ := step.waiting
  have leaves : (⟨x, .agent (.worker i), { x with system := s }⟩ : Transition).leaves i =
      p.worker.leaves q w := by
    funext o
    unfold Transition.leaves
    dsimp only
    rw [hp, hp']
    dsimp only
    rw [hq]
    rfl
  refine ⟨capacity.trans led.capacity, ?_, fun n hn => ?_⟩
  · rw [books_cons, leaves]
    exact led.balanced.step step
  · obtain ⟨event, timer, next, hφ⟩ := led.waiting n (waiting n hn)
    exact ⟨event, timer, next, phase?_of_append (calls.trans (List.append_nil _).symm) hφ⟩

/-- A publisher that is new. -/
theorem new {config : DispatchConfig} (told : Told ts x) (hj : p.queue = x.system.queues.length)
    (unknown : ∀ u ∈ ts, ∀ o, u.leaves i o = []) (hconfig : p.config = config)
    (hv : config.validate = .ok ()) (idle : p.worker.phase = .idle) (stats : p.worker.stats = {}) :
    Ledger ts z i p (.ofCapacity config.queueCapacity config.enqueueTimeout) := by
  have unaccepted : accepted ts p.queue = [] := by
    refine List.eq_nil_iff_forall_not_mem.mpr fun n hn => ?_
    have := told.known p.queue n hn
    omega
  have unsettled : (fun o => ts.flatMap fun t => t.leaves i o) = fun _ => ([] : List Nat) :=
    funext fun o => List.flatMap_eq_nil_iff.mpr fun u hu => unknown u hu o
  refine ⟨?_, ?_, fun n hn => (nomatch hn)⟩
  · rw [hconfig]
    exact Nat.max_eq_left (DispatchConfig.capacity_pos hv)
  · unfold books
    rw [unaccepted, unsettled]
    exact .empty _ _ idle stats rfl rfl rfl rfl

end Ledger

/-! ## The books of a run -/

/-- Every publisher has its queue, and their books balance. -/
structure Ledgers (ts : List Transition) (z : Session) : Prop where
  ledger : ∀ i p, z.system.publishers[i]? = some p →
    ∃ q, z.system.queues[p.queue]? = some q ∧ Ledger ts z i p q
  known : ∀ u ∈ ts, u.before.system.publishers.length ≤ z.system.publishers.length

theorem Ledgers.unknown (ledgers : Ledgers ts x) (h : x.system.publishers.length ≤ i) :
    ∀ u ∈ ts, ∀ o, u.leaves i o = [] := by
  intro u hu o
  have none : u.before.system.publishers[i]? = none :=
    List.getElem?_eq_none (Nat.le_trans (ledgers.known u hu) h)
  refine Transition.leaves_eq_nil (fun p p' hp _ => ?_) o
  cases none.symm.trans hp

/-- A queue that is not the caller's stays what it is. -/
theorem Spares.exists_core {own own' : List Nat} {l l' : List Queue}
    (sp : Spares Queue.core own own' l l') (hq : l[j]? = some q) (hj : j ∉ own) :
    ∃ q', l'[j]? = some q' ∧ q'.core = q.core := by
  have same := sp.kept j (List.getElem?_eq_some_iff.mp hq).1 hj
  rw [hq] at same
  exact Option.map_eq_some_iff.mp same

theorem Ledgers.known_next (ledgers : Ledgers ts x)
    (h : x.system.publishers.length ≤ y.system.publishers.length) :
    ∀ u ∈ (⟨x, a, y⟩ : Transition) :: ts,
      u.before.system.publishers.length ≤ y.system.publishers.length := by
  intro u hu
  rcases List.mem_cons.mp hu with rfl | hu
  · exact h
  · exact Nat.le_trans (ledgers.known u hu) h

/-- An action of others changes the queues to `l`, up to what belongs to nobody's books. -/
theorem Ledgers.of_others (ledgers : Ledgers ts x) {l : List Queue}
    (publishers : y.system.publishers.map Publisher.core =
      x.system.publishers.map Publisher.core)
    (length : l.length = x.system.queues.length)
    (queues : ∀ {i : Nat} {p : Publisher} {q : Queue}, x.system.publishers[i]? = some p →
      l[p.queue]? = some q → ∃ q', y.system.queues[p.queue]? = some q' ∧ q'.core = q.core)
    (step : ∀ {i : Nat} {p : Publisher} {q q' : Queue}, Ledger ts x i p q →
      (∀ o, (⟨x, a, y⟩ : Transition).leaves i o = []) → x.system.queues[p.queue]? = some q →
      l[p.queue]? = some q' → Ledger (⟨x, a, y⟩ :: ts) y i p q') : Ledgers (⟨x, a, y⟩ :: ts) y := by
  have same := congrArg List.length publishers
  rw [List.length_map, List.length_map] at same
  refine ⟨fun i p' hp' => ?_, ledgers.known_next (Nat.le_of_eq same.symm)⟩
  obtain ⟨p, hp, core⟩ := exists_of_map_eq publishers hp'
  obtain ⟨q, hq, led⟩ := ledgers.ledger i p hp
  have hlt := (List.getElem?_eq_some_iff.mp hq).1
  rw [← length] at hlt
  have hq₀ := List.getElem?_eq_getElem hlt
  obtain ⟨q', hq', core'⟩ := queues hp hq₀
  refine ⟨q', (Publisher.of_core core).1 ▸ hq', Ledger.of_core ?_ core core'⟩
  exact step led (leaves_of_cores publishers fun p hp => hp) hq hq₀

theorem Ledgers.next (ledgers : Ledgers ts x) (run : Runs ts x) (h : x.after? a = some y) :
    Ledgers (⟨x, a, y⟩ :: ts) y := by
  have owning := run.owning
  have apart : ∀ {i : Nat} {p : Publisher}, x.system.publishers[i]? = some p →
      p.queue ∉ x.ownQueues := fun hp =>
    owning.apart _ (List.mem_map_of_mem (List.mem_of_getElem? hp))
  cases Session.trades_of_after? h with
  | @quiet _ _ more ha calls queues publishers =>
    refine ledgers.of_others publishers rfl (fun hp hq => queues.exists_core hq (apart hp))
      fun led leaves hq hq' => ?_
    obtain rfl := Option.some.inj (hq.symm.trans hq')
    exact led.same (Transition.brought?_eq_none ha _ _) leaves
      fun n _ φ hφ => phase?_of_append calls hφ
  | @aborted _ _ n c ha hc still calls queues publishers =>
    exact ledgers.of_others publishers (System.length_leaveLine _ _ _)
      (fun hp hq => queues.exists_core hq (apart hp))
      fun led leaves hq hq' => led.aborted ha hc still calls leaves hq hq'
  | @called n φ ψ s qs hφ trade keeps calls queues publishers =>
    refine ledgers.of_others publishers trade.length_eq (fun hp hq => ?_)
      fun led leaves hq hq' => led.called run.told trade ⟨hφ, calls, leaves⟩ hq hq'
    obtain ⟨q', hq', core⟩ := exists_of_map_eq queues.symm hq
    exact ⟨q', hq', core.symm⟩
  | @opened _ _ config p₀ ha calls hv queues publishers hconfig hqueue idle stats =>
    have longer := congrArg List.length publishers
    rw [List.length_map, List.length_map, List.length_append, List.length_singleton] at longer
    refine ⟨fun i p' hp' => ?_, ledgers.known_next (by omega)⟩
    obtain ⟨p, hp, core⟩ := exists_of_map_eq publishers hp'
    have old : ∀ {p}, x.system.publishers[i]? = some p →
        (x.system.publishers ++ [p₀])[i]? = some p := fun hp => by
      rw [List.getElem?_append_left (List.getElem?_eq_some_iff.mp hp).1, hp]
    rcases getElem?_concat_cases hp with hp | ⟨rfl, rfl⟩
    · obtain ⟨q, hq, led⟩ := ledgers.ledger i p hp
      have hq₀ : (x.system.queues ++
          [.ofCapacity config.queueCapacity config.enqueueTimeout])[p.queue]? = some q := by
        rw [List.getElem?_append_left (List.getElem?_eq_some_iff.mp hq).1, hq]
      obtain ⟨q', hq', core'⟩ := queues.exists_core hq₀ (apart hp)
      refine ⟨q', (Publisher.of_core core).1 ▸ hq', Ledger.of_core ?_ core core'⟩
      exact led.same (Transition.brought?_eq_none ha _ _) (leaves_of_cores publishers fun p => old)
        fun n _ φ hφ => phase?_of_append (calls.trans (List.append_nil _).symm) hφ
    · have own : p₀.queue ∉ x.ownQueues := fun hown => by
        have := owning.own _ hown
        omega
      obtain ⟨q', hq', core'⟩ := queues.exists_core
        (q := .ofCapacity config.queueCapacity config.enqueueTimeout) (by rw [hqueue]; simp) own
      refine ⟨q', (Publisher.of_core core).1 ▸ hq', Ledger.of_core ?_ core core'⟩
      have new : Ledger ts x x.system.publishers.length p₀
          (.ofCapacity config.queueCapacity config.enqueueTimeout) :=
        .new run.told hqueue (ledgers.unknown (Nat.le_refl _)) hconfig hv idle stats
      refine new.same (Transition.brought?_eq_none ha _ _) ?_ fun n hn => (nomatch hn)
      refine leaves_of_cores publishers fun p hp => ?_
      exact absurd (List.getElem?_eq_some_iff.mp hp).1 (Nat.lt_irrefl _)
  | @worked k p₀ q₀ q₁ w host s hp₀ hq₀ step calls queues publishers =>
    have length : s.publishers.length = x.system.publishers.length := by
      rw [publishers, List.length_modify]
    refine ⟨fun i p' hp' => ?_, ledgers.known_next (Nat.le_of_eq length.symm)⟩
    dsimp only at hp'
    rw [publishers, List.getElem?_modify] at hp'
    obtain ⟨p, hp, rfl⟩ := Option.map_eq_some_iff.mp hp'
    by_cases hki : k = i
    · subst hki
      obtain rfl := Option.some.inj (hp₀.symm.trans hp)
      obtain ⟨q, hq, led⟩ := ledgers.ledger k p₀ hp₀
      obtain rfl := Option.some.inj (hq₀.symm.trans hq)
      rw [if_pos rfl]
      refine ⟨q₁, ?_, led.worked step hp₀ hq₀ ?_ calls⟩
      · rw [queues]
        simp [hq₀]
      · rw [publishers]
        simp [hp₀]
    · rw [if_neg hki]
      obtain ⟨q, hq, led⟩ := ledgers.ledger i p hp
      have apart' : p₀.queue ≠ p.queue := fun he => hki (owning.eq_of_queue hp₀ hp he)
      refine ⟨q, ?_, led.same (Transition.brought?_eq_none (by simp) _ _) ?_
        fun n _ φ hφ => phase?_of_append (calls.trans (List.append_nil _).symm) hφ⟩
      · rw [queues, List.getElem?_modify_ne _ _ apart', hq]
      · refine Transition.leaves_eq_nil fun p₁ p₂ hp₁ hp₂ => ?_
        dsimp only at hp₁ hp₂
        rw [publishers, List.getElem?_modify_ne _ _ hki, hp₁] at hp₂
        rw [Option.some.inj hp₂]

theorem Runs.ledgers (run : Runs ts z) : Ledgers ts z := by
  induction run with
  | start => exact ⟨fun _ _ hp => (nomatch hp), fun _ hu => (nomatch hu)⟩
  | next run h ih => exact ih.next run h

/-- Where nothing can go on, every producer knows what became of its event. -/
theorem promised_eq_nil (run : Runs ts z) (quiescent : z.system.isQuiescent)
    (hq : z.system.queues[p.queue]? = some q) (led : Ledger ts z i p q) : q.promised = [] := by
  refine List.eq_nil_iff_forall_not_mem.mpr fun n hn => ?_
  obtain ⟨event, timer, next, hφ⟩ := led.waiting n (List.mem_append_right _ hn)
  obtain ⟨c, hc, -⟩ := Option.map_eq_some_iff.mp hφ
  have started := run.covers n (List.getElem?_eq_some_iff.mp hc).1
  have still := List.all_eq_true.mp quiescent (.call n) (List.mem_append_left _ started)
  refine led.canStep_of_promised hq hn ?_
  simpa [System.canStep, Agent.step?] using still

/-- The events of publisher `i` that had an outcome. -/
def settled (ts : List Transition) (i : Nat) (o : Outcome) : List Nat :=
  ts.flatMap fun t => t.leaves i o

/-- Where nothing can go on, every event that a publisher has accepted was published,
dropped or abandoned and counted as such, is in the buffer, or is held by the worker, and it
is in one of these places only. The buffer keeps its bound, an ended worker leaves nothing
behind, and an event whose producer was told an error is nowhere. -/
theorem accepted_conserved (run : Runs ts z) (quiescent : z.system.isQuiescent)
    (hp : z.system.publishers[i]? = some p) :
    ∃ q, z.system.queues[p.queue]? = some q ∧
      (accepted ts p.queue).Nodup ∧
      (accepted ts p.queue).Perm (settled ts i .published ++ settled ts i .dropped ++
        settled ts i .abandoned ++ q.buffered ++ p.worker.inHand) ∧
      (∀ o, (settled ts i o).length = p.worker.stats.count o) ∧
      (accepted ts p.queue).length = p.worker.stats.published + p.worker.stats.dropped +
        p.worker.stats.abandoned + q.buffer.length + p.worker.inHand.length ∧
      p.worker.inHand.length ≤ 1 ∧
      q.buffer.length ≤ p.config.queueCapacity ∧
      (p.worker.phase = .ended → q.buffer = [] ∧ p.worker.inHand = []) ∧
      ∀ n ∈ refused ts p.queue, n ∉ settled ts i .published ++ settled ts i .dropped ++
        settled ts i .abandoned ++ q.buffered ++ p.worker.inHand := by
  obtain ⟨q, hq, led⟩ := run.ledgers.ledger i p hp
  have bal := led.balanced
  have places : (accepted ts p.queue).Perm (settled ts i .published ++ settled ts i .dropped ++
      settled ts i .abandoned ++ q.buffered ++ p.worker.inHand) := by
    have places := bal.places
    rw [promised_eq_nil run quiescent hq led, List.append_nil] at places
    exact places
  refine ⟨q, hq, (List.nodup_append.mp bal.nodup).1, places, bal.counts, ?_,
    p.worker.length_inHand_le, led.capacity ▸ bal.bound, fun ended => ?_, fun n hn hm => ?_⟩
  · have buffered : q.buffered.length = q.buffer.length := List.length_map _
    have counts : ∀ o, (settled ts i o).length = p.worker.stats.count o := bal.counts
    rw [places.length_eq]
    simp only [List.length_append, counts, buffered, PublishStats.count]
  · refine ⟨(bal.gone (bal.ended ended)).1, ?_⟩
    unfold Worker.inHand
    rw [ended]
    rfl
  · exact run.told.apart p.queue n hn (places.symm.subset hm)

/-- Two events for a queue with one slot, of which the first is dropped; the latest action
first. -/
def oneDropped : List Action :=
  [.agent (.worker 0), .agent (.worker 0), .agent (.worker 0), .agent (.call 1), .agent (.worker 0),
   .agent (.call 1), .agent (.call 0), .agent (.listener 0),
   .perform (.enqueue "p" (creation none)), .perform (.enqueue "p" (creation none)),
   .perform (.failPublishes 1),
   .perform (.openPublisher "p" { queueCapacity := 1, maxPublishAttempts := 1 })]

set_option maxRecDepth 100000 in
/-- Both events were accepted, the second from the line, and each has its place. -/
theorem one_published_one_dropped :
    ∃ p q, (play oneDropped).2.system.publishers[0]? = some p ∧
      (play oneDropped).2.system.queues[p.queue]? = some q ∧
      accepted (play oneDropped).1 p.queue = [1, 0] ∧
      (accepted (play oneDropped).1 p.queue).Perm
        (settled (play oneDropped).1 0 .published ++ settled (play oneDropped).1 0 .dropped ++
          settled (play oneDropped).1 0 .abandoned ++ q.buffered ++ p.worker.inHand) := by
  let z := (play oneDropped).2
  have quiescent : z.system.isQuiescent = true := by rfl
  have present : (z.system.publishers[0]?.map Publisher.queue) = some 0 := by rfl
  obtain ⟨p, hp, hqueue⟩ := Option.map_eq_some_iff.mp present
  obtain ⟨q, hq, -, places, -⟩ := accepted_conserved (play_runs oneDropped) quiescent hp
  have both : accepted (play oneDropped).1 0 = [1, 0] := by rfl
  exact ⟨p, q, hp, hq, hqueue ▸ both, places⟩

end Script

end ChangeDispatch
