import ChangeDispatch.Proofs.Queue.Fifo
import ChangeDispatch.Proofs.Wait.Outcome

/-!
# Backpressure

A producer that finds no free slot stands in line until its turn has come and a slot is free, until
the receiver goes away, or until its timer is due, whichever comes first. A slot that becomes free
goes to the first in line in the same step, so nobody stands in line while a slot is free; and where
the clock is punctual a producer is told in the instant in which it has its answer, for it can make
its step then.
-/
namespace ChangeDispatch

namespace Queue

variable {q q' : Queue} {op : Queue.Op} {item : Item} {n : Nat} {ahead behind : List Item}

theorem withdraw_of_not_lined (out : n ∉ q.lined) : q.withdraw n = q := by
  unfold withdraw
  rw [List.filter_eq_self.mpr fun item mem => ?_]
  rw [bne_iff_ne]
  rintro rfl
  exact out (List.mem_map_of_mem mem)

/-- A use of the queue by somebody else, as a producer in line sees it: some of those before it and
behind it have left, and others may have come behind it; or it was the first, and has the slot. -/
theorem Does.line (does : Does q op q') (steady : q.Steady)
    (hl : q.blocked = ahead ++ item :: behind) (ordinary : op.isOrdinary)
    (others : op.ticket? ≠ some item.ticket) :
    (∃ ahead' behind', q'.blocked = ahead' ++ item :: behind' ∧ ahead'.Sublist ahead ∧
      (∀ other ∈ behind', other ∈ behind ∨ op.called? = some other) ∧
      (op.received? ≠ none → ahead ≠ [])) ∨
    ahead = [] ∧ op.received? ≠ none ∧ item.ticket ∈ q'.promised := by
  have same : q'.blocked = q.blocked → op.received? = none →
      ∃ ahead' behind', q'.blocked = ahead' ++ item :: behind' ∧ ahead'.Sublist ahead ∧
        (∀ other ∈ behind', other ∈ behind ∨ op.called? = some other) ∧
        (op.received? ≠ none → ahead ≠ []) := fun blocked none =>
    ⟨ahead, behind, blocked.trans hl, List.Sublist.refl _, fun _ mem => .inl mem,
      fun received => absurd none received⟩
  cases does with
  | invalid _ => exact .inl (same rfl rfl)
  | dismissed _ => exact .inl (same rfl rfl)
  | told _ => exact .inl (same rfl rfl)
  | closed => exact .inl (same rfl rfl)
  | stopped => cases ordinary
  | @withdrawn m _ =>
    have other : item.ticket ≠ m := fun same => others (congrArg some same.symm)
    refine .inl ⟨ahead.filter (·.ticket != m), behind.filter (·.ticket != m), ?_,
      List.filter_sublist, fun _ mem => .inl (List.mem_filter.mp mem).1,
      fun received => absurd rfl received⟩
    simp [withdraw, hl, List.filter_append, other]
  | @offered newcomer answer _ _ ho =>
    rcases offer_slot ho with ⟨-, -, ⟨rfl, empty, -⟩ | ⟨rfl, -⟩⟩ | ⟨-, rfl⟩
    · simp [hl] at empty
    · obtain ⟨-, rfl⟩ := offer_blocked ho
      refine .inl ⟨ahead, behind ++ [newcomer], by simp [hl], List.Sublist.refl _,
        fun other mem => ?_, fun received => absurd rfl received⟩
      exact (List.mem_append.mp mem).imp_right fun last =>
        congrArg some (List.mem_singleton.mp last).symm
    · exact .inl (same (by rw [offer_refused ho]) rfl)
  | received ht =>
    obtain ⟨-, buffer, -, ⟨empty, -⟩ | ⟨first, blocked, hf, rfl⟩⟩ := steady.take? ht
    · simp [hl] at empty
    · rw [hl] at hf
      cases ahead with
      | nil =>
        obtain ⟨rfl, -⟩ := List.cons.inj hf
        exact .inr ⟨rfl, Option.some_ne_none _, by simp [promised]⟩
      | cons other ahead =>
        obtain ⟨rfl, rfl⟩ := List.cons.inj hf
        exact .inl ⟨ahead, behind, rfl, List.sublist_cons_self _ _, fun _ mem => .inl mem,
          fun _ => List.cons_ne_nil _ _⟩

theorem offer_of_free (isOpen : q.isOpen) (receiving : q.receiving) (empty : q.blocked = [])
    (room : q.buffer.length < q.capacity) : (q.offer item).1 = .accepted := by
  have offered : q.offer item = ((q.offer item).1, (q.offer item).2) := rfl
  rcases offer_slot offered with ⟨-, -, ⟨accepted, -⟩ | ⟨-, busy⟩⟩ | ⟨shut, -⟩
  · exact accepted
  · rcases busy with there | full
    · exact absurd empty there
    · exact absurd room (Nat.not_lt_of_le full)
  · rcases shut with shut | shut
    · cases isOpen.symm.trans shut
    · cases receiving.symm.trans shut

theorem offer_of_busy (item : Item) (isOpen : q.isOpen) (receiving : q.receiving)
    (busy : q.blocked ≠ [] ∨ q.capacity ≤ q.buffer.length) :
    q.offer item = (.blocked, { q with blocked := q.blocked ++ [item] }) := by
  have offered : q.offer item = ((q.offer item).1, (q.offer item).2) := rfl
  rcases offer_slot offered with ⟨-, -, ⟨-, empty, room⟩ | ⟨blocked, -⟩⟩ | ⟨shut, -⟩
  · rcases busy with there | full
    · exact absurd empty there
    · exact absurd room (Nat.not_lt_of_le full)
  · obtain ⟨-, whole⟩ := offer_blocked (Prod.ext blocked rfl)
    exact Prod.ext blocked whole
  · rcases shut with shut | shut
    · cases isOpen.symm.trans shut
    · cases receiving.symm.trans shut

theorem ticket?_callUses {j : Nat} {φ : Call.Phase} (mem : op ∈ q.callUses n j φ) :
    op.ticket? = some n := by
  unfold callUses at mem
  split at mem
  · split at mem
    · split at mem <;> (rw [List.mem_singleton.mp mem]; rfl)
    · cases mem
  · split at mem
    · split at mem <;> (rw [List.mem_singleton.mp mem]; rfl)
    · cases mem
  · cases mem

/-- Only the producer itself comes to the line, or learns that it was let in. -/
theorem Op.ticket?_of_joins_or_taken (h : op.joins? = some n ∨ op.taken? = some n) :
    op.ticket? = some n := by
  cases op with
  | offered item answer =>
    cases answer with
    | refused => rcases h with h | h <;> cases h
    | accepted => rcases h with h | h <;> first | exact h | cases h
    | blocked => rcases h with h | h <;> first | exact h | cases h
  | told m => rcases h with h | h <;> first | exact h | cases h
  | _ => rcases h with h | h <;> cases h

/-- What a producer finds out that has its answer stays so when others use the queue. -/
theorem Does.standing (does : Does q op q') (steady : q.Steady)
    (apart : ∀ m ∈ q.lined, m ∉ q.promised) (apart' : ∀ m ∈ q'.lined, m ∉ q'.promised)
    (settled : q.standing n ≠ .blocked) (others : op.ticket? ≠ some n) :
    q'.standing n = q.standing n := by
  cases standing : q.standing n with
  | blocked => exact absurd standing settled
  | accepted =>
    have promised := (standing_accepted.mp standing).2
    have entered : n ∈ taken ([] ++ [op]) ∨ n ∈ q'.promised :=
      does.entered steady (.inr promised)
    rcases entered with known | promised'
    · rw [List.nil_append, taken, List.mem_filterMap] at known
      obtain ⟨other, one, told⟩ := known
      obtain rfl := List.mem_singleton.mp one
      exact absurd (Op.ticket?_of_joins_or_taken (.inr told)) others
    · exact standing_accepted.mpr ⟨fun lined => apart' n lined promised', promised'⟩
  | refused =>
    have out := standing_refused.mp standing
    have nowhere : n ∉ q'.lined ++ q'.promised := fun there => by
      rcases does.waiting apart there with ⟨before, -⟩ | joins
      · exact (List.mem_append.mp before).elim out.1 out.2
      · exact others (Op.ticket?_of_joins_or_taken (.inl joins))
    exact standing_refused.mpr (not_or.mp fun there => nowhere (List.mem_append.mpr there))

end Queue

/-- The call has ended with an error, or it was given up. -/
def Call.Phase.isFailed : Phase → Bool
  | .aborted | .ended _ (.failed _) => true
  | _ => false

/-- A call that ends with an error while it brings its event is out of line, and that is all. -/
theorem System.CallStep.withdraws {s u : System} {n j : Nat} {φ ψ : Call.Phase}
    {event : ChangeEvent} {q : Queue} (step : s.CallStep n φ u ψ) (hq : s.queues[j]? = some q)
    (brings : φ.brings? = some (j, event))
    (lined : n ∈ q.lined → ∃ event timer next, φ = .inLine j event timer next)
    (failed : ψ.isFailed) : u.queues[j]? = some (q.withdraw n) := by
  have kept : u.queues = s.queues → n ∉ q.lined → u.queues[j]? = some (q.withdraw n) :=
    fun same out => by rw [same, Queue.withdraw_of_not_lined out, hq]
  have coming : ∀ {queue event next}, φ = .enqueuing queue event next → n ∉ q.lined := by
    rintro queue event next rfl there
    obtain ⟨_, _, _, other⟩ := lined there
    cases other
  cases step with
  | invalid _ => exact kept (UpToRegistries.letGo s _).queues (coming rfl)
  | refused _ _ => exact kept (UpToRegistries.letGo s _).queues (coming rfl)
  | @accepted _ _ next _ _ _ _ _ => cases next <;> cases failed
  | blocked _ _ _ _ => cases failed
  | @collected _ _ next _ _ _ _ => cases next <;> cases failed
  | dismissed hr =>
    obtain ⟨rfl, rfl⟩ := Prod.mk.inj (Option.some.inj brings)
    exact kept (UpToRegistries.letGo s _).queues (Queue.standing_refused.mp (hr q hq)).1
  | @withdrawn queue _ next _ _ hk _ _ =>
    obtain ⟨rfl, rfl⟩ := Prod.mk.inj (Option.some.inj brings)
    rw [(UpToRegistries.letGo (s.adjustQueue queue fun q => q.withdraw n) next).queues]
    change (s.queues.modify queue fun q => q.withdraw n)[queue]? = _
    rw [List.getElem?_modify_eq, hq]
    rfl
  | moved bare _ => rw [Call.Phase.brings?_of_isBare bare] at brings; cases brings
  | sent hφ _ => rcases hφ with rfl | ⟨_, rfl⟩ <;> cases brings
  | stopped hφ => rcases hφ with rfl | rfl <;> cases brings
  | registered _ _ hφ => rcases hφ with ⟨_, rfl, -⟩ | ⟨_, rfl, -⟩ <;> cases brings
  | answered hφ _ => rcases hφ with rfl | ⟨_, rfl⟩ <;> cases brings
  | waited _ _ => cases brings

/-- Who comes to the line stands there until the timeout of the queue has passed. -/
theorem System.CallStep.timer_of_blocked {s u : System} {n j : Nat} {ψ : Call.Phase}
    {event : ChangeEvent} {next : Option WaitHandle} {q q' : Queue}
    (step : s.CallStep n (.enqueuing j event next) u ψ) (hq : s.queues[j]? = some q)
    (valid : event.validate = .ok ()) (blocked : q.offer ⟨n, event⟩ = (.blocked, q')) :
    ∃ timer : Timer, timer.due = s.host.now + q.timeout.ticks ∧
      ψ = .inLine j event timer next := by
  cases step with
  | invalid he => cases valid.symm.trans he
  | refused _ hr => cases (congrArg Prod.fst blocked).symm.trans (hr q hq)
  | accepted _ hk ho =>
    obtain rfl := Option.some.inj (hq.symm.trans hk)
    cases blocked.symm.trans ho
  | @blocked _ _ _ timer _ _ _ hk ho due =>
    obtain rfl := Option.some.inj (hq.symm.trans hk)
    obtain ⟨-, rfl⟩ := Queue.offer_blocked ho
    exact ⟨timer, due, rfl⟩
  | moved bare _ => cases bare
  | sent hφ _ => rcases hφ with h | ⟨_, h⟩ <;> cases h
  | stopped hφ => rcases hφ with h | h <;> cases h
  | registered _ _ hφ => rcases hφ with ⟨_, h, -⟩ | ⟨_, h, -⟩ <;> cases h
  | answered hφ _ => rcases hφ with h | ⟨_, h⟩ <;> cases h

namespace Script

/-- A bid for a slot of a queue: what a call brings there, the moment at which it comes, and the
queue as it finds it. -/
structure Bid where
  queue : Nat
  item : Item
  /-- The wait that begins when the event was taken, if there is one. -/
  next : Option WaitHandle
  moment : Nat
  found : Queue

namespace Bid

/-- The moment at which the call leaves the line at the latest. -/
def due (bid : Bid) : Nat := bid.moment + bid.found.timeout.ticks

/-- Where the call goes that finds this answer at this moment. -/
def fate (bid : Bid) (moment : Nat) : Queue.Offer → Call.Phase
  | .accepted => .afterQueued moment bid.next
  | .refused => .ended moment (.failed .closed)
  | .blocked => .ended moment (.failed (.queueFull bid.found.capacity bid.found.timeout))

end Bid

variable {ts us since before later : List Transition} {x y z : Session} {a : Action}
  {b t u : Transition} {n j : Nat} {q q' : Queue} {bid : Bid} {ahead : List Item}
  {answer : Queue.Offer} {moment : Nat} {φ : Call.Phase}

/-- The transition is the first step of the call, with a valid event and at an open queue. -/
structure Transition.Comes (t : Transition) (bid : Bid) : Prop where
  call : t.action = .agent (.call bid.item.ticket)
  phase : t.before.system.phase? bid.item.ticket =
    some (.enqueuing bid.queue bid.item.event bid.next)
  valid : bid.item.event.validate = .ok ()
  now : t.before.system.host.now = bid.moment
  found : t.before.system.queues[bid.queue]? = some bid.found
  isOpen : bid.found.isOpen

/-- The call stands in line, behind those that stood there when it came and have not left, and in
front of those that came after it. No slot is free, and its time is not over. -/
structure Session.Lined (x : Session) (bid : Bid) (q : Queue) (ahead : List Item) : Prop where
  queue : x.system.queues[bid.queue]? = some q
  settings : q.capacity = bid.found.capacity ∧ q.timeout = bid.found.timeout
  receiving : q.receiving
  full : q.buffer.length = q.capacity
  line : ∃ behind, q.blocked = ahead ++ bid.item :: behind ∧
    ∀ item ∈ behind, item ∉ bid.found.blocked
  ahead : ahead.Sublist bid.found.blocked
  timer : ∃ timer, x.system.phase? bid.item.ticket =
    some (.inLine bid.queue bid.item.event timer bid.next) ∧ timer.due = bid.due
  left : x.system.host.now ≤ bid.due

/-- The queue has an answer for the call in line, which the call finds with its next step. -/
structure Session.Answered (x : Session) (bid : Bid) (answer : Queue.Offer) : Prop where
  queue : ∃ q, x.system.queues[bid.queue]? = some q ∧ q.standing bid.item.ticket = answer
  timer : ∃ timer, x.system.phase? bid.item.ticket =
    some (.inLine bid.queue bid.item.event timer bid.next)
  settled : answer ≠ .blocked

/-! ## The calls in line -/

/-- The producer that uses a queue is the call that acts. -/
theorem Transition.actor?_of_ticket {op : Queue.Op} (mem : op ∈ t.uses j q)
    (ticket : op.ticket? = some n) : ∃ φ, t.actor? = some (n, φ) := by
  rcases Transition.mem_uses mem with ⟨item, rfl⟩ | ⟨m, φ, actor, ⟨-, used⟩ | left⟩
  · cases ticket
  · obtain rfl := Option.some.inj ((Queue.ticket?_callUses used).symm.trans ticket)
    exact ⟨φ, actor⟩
  · rw [Queue.mem_leaveUses left] at ticket
    obtain rfl := Option.some.inj ticket
    exact ⟨φ, actor⟩

/-- Who stands in line after the uses of an action was not let in. -/
theorem Traced.apart_used (traced : Traced ts x j q) (h : x.after? a = some y)
    (hq : x.system.queues[j]? = some q)
    (used : q.History ((⟨x, a, y⟩ : Transition).uses j q) q') :
    ∀ n ∈ q'.lined, n ∉ q'.promised := by
  obtain ⟨lost, ordered⟩ := (traced.history.trans used).ordered (Queue.new_ofCapacity ..)
  exact ordered.apart (traced.calls_uses h hq).2

/-- What is received in the only use of a queue. -/
theorem Transition.received?_of_use {op : Queue.Op} (h : x.after? a = some y)
    (hq : x.system.queues[j]? = some q) (one : (⟨x, a, y⟩ : Transition).uses j q = [op]) :
    (⟨x, a, y⟩ : Transition).received? j = op.received?.map Item.event := by
  have receipts := Transition.received?_eq (j := j) h
  rw [hq, Option.elim_some, one, Queue.receipts, List.filterMap_cons, List.filterMap_nil]
    at receipts
  cases hr : op.received? with
  | none =>
    rw [hr] at receipts
    exact Option.toList_eq_nil_iff.mp receipts
  | some item =>
    rw [hr] at receipts
    exact Option.toList_eq_singleton_iff.mp receipts

/-- A call that acts without a step of its own is given up. -/
theorem Transition.given_of_actor (acts : (⟨x, a, y⟩ : Transition).actor? = some (n, φ))
    (others : a ≠ .agent (.call n)) : ∃ step, a = .perform step ∧ x.given? step = some (n, φ) := by
  unfold Transition.actor? at acts
  split at acts
  next m ha =>
    obtain ⟨χ, -, same⟩ := Option.map_eq_some_iff.mp acts
    obtain ⟨rfl, -⟩ := Prod.mk.inj same
    exact absurd ha others
  next step ha => exact ⟨step, ha, acts⟩
  next => cases acts

/-- A call that is given up stands still. -/
theorem still_of_given {step : Step} (h : x.after? (.perform step) = some y)
    (given : x.given? step = some (n, φ)) :
    x.system.stepCall? n = none ∧ x.system.phase? n = some φ := by
  cases step with
  | abort step => exact Session.given_still (Session.leaves_of_after? h).2 given
  | _ => cases given

/-- A call that is given up while it brings its event is aborted. -/
theorem phase?_of_given {step : Step} (h : x.after? (.perform step) = some y)
    (given : x.given? step = some (n, φ)) (brings : φ.brings?.isSome) :
    y.system.phase? n = some .aborted := by
  cases step with
  | abort step =>
    obtain ⟨-, allowed⟩ := Session.leaves_of_after? h
    obtain ⟨m, hm, hφ⟩ := Option.bind_eq_some_iff.mp given
    obtain ⟨χ, hχ, same⟩ := Option.map_eq_some_iff.mp hφ
    obtain ⟨rfl, rfl⟩ := Prod.mk.inj same
    obtain ⟨c, hc, rfl⟩ := Option.map_eq_some_iff.mp hχ
    have running : c.isRunning := by
      unfold Call.isRunning
      cases hp : c.phase <;> first | rfl | (rw [hp] at brings; cases brings)
    obtain rfl : x.abort step = y := by
      unfold Session.after? at h
      dsimp only at h
      rw [if_pos allowed] at h
      exact Option.some.inj h
    have quiet := System.quiet_abortCall hc running
    have forsaken : (x.system.forsake m c.phase).phase? m = some c.phase := by
      unfold System.phase?
      rw [(System.UpToRegistries.forsake x.system m c.phase).calls]
      exact hχ
    unfold Session.abort
    rw [hm]
    exact (quiet.phase? m).trans (System.phase?_setPhase forsaken .aborted)
  | _ => cases given

/-- A call that brings its event stays as it is when others act that do not give it up. -/
theorem phase?_of_spared (h : x.after? a = some y) (others : a ≠ .agent (.call n))
    (hφ : x.system.phase? n = some φ) (brings : φ.brings?.isSome) :
    y.system.phase? n = some .aborted ∨
      y.system.phase? n = some φ ∧ ∀ ψ, (⟨x, a, y⟩ : Transition).actor? ≠ some (n, ψ) := by
  by_cases acts : ∃ ψ, (⟨x, a, y⟩ : Transition).actor? = some (n, ψ)
  · obtain ⟨ψ, acts⟩ := acts
    obtain ⟨step, rfl, given⟩ := Transition.given_of_actor acts others
    obtain rfl := Option.some.inj (hφ.symm.trans (still_of_given h given).2)
    exact .inl (phase?_of_given h given brings)
  · have others : ∀ ψ, (⟨x, a, y⟩ : Transition).actor? ≠ some (n, ψ) := fun ψ is => acts ⟨ψ, is⟩
    exact .inr ⟨phase?_of_inactive h hφ others, others⟩

/-- A call in line goes where the answer takes it that it finds, and one that finds none leaves the
line because its timer is due. -/
theorem phase?_of_inLine {event : ChangeEvent} {timer : Timer} {next : Option WaitHandle}
    (h : x.after? (.agent (.call n)) = some y)
    (hφ : x.system.phase? n = some (.inLine j event timer next))
    (hq : x.system.queues[j]? = some q) :
    q.standing n = .accepted ∧
      y.system.phase? n = some (.afterQueued x.system.host.now next) ∨
    q.standing n = .refused ∧
      y.system.phase? n = some (.ended x.system.host.now (.failed .closed)) ∨
    q.standing n = .blocked ∧ timer.due ≤ x.system.host.now ∧
      y.system.phase? n =
        some (.ended x.system.host.now (.failed (.queueFull q.capacity q.timeout))) := by
  obtain ⟨s, hs, rfl⟩ := Option.map_eq_some_iff.mp h
  obtain ⟨χ, hχ, u, ψ, step, quiet⟩ := System.callSteps_of_stepCall? hs
  obtain rfl := Option.some.inj (hφ.symm.trans hχ)
  have after : s.phase? n = some ψ :=
    (quiet.phase? n).trans (System.phase?_setPhase (step.phase?_eq ▸ hφ) ψ)
  cases step with
  | collected hk standing =>
    obtain rfl := Option.some.inj (hq.symm.trans hk)
    exact .inl ⟨standing, after⟩
  | dismissed standing => exact .inr (.inl ⟨standing q hq, after⟩)
  | withdrawn hk standing due =>
    obtain rfl := Option.some.inj (hq.symm.trans hk)
    exact .inr (.inr ⟨standing, of_decide_eq_true due, after⟩)
  | moved bare _ => cases bare
  | sent hφ _ => rcases hφ with h | ⟨_, h⟩ <;> cases h
  | stopped hφ => rcases hφ with h | h <;> cases h
  | registered _ _ hφ => rcases hφ with ⟨_, h, -⟩ | ⟨_, h, -⟩ <;> cases h
  | answered hφ _ => rcases hφ with h | ⟨_, h⟩ <;> cases h

/-- A call that stands in line no longer can make its step. -/
theorem stepCall?_of_standing {s : System} {event : ChangeEvent} {timer : Timer}
    {next : Option WaitHandle} (hφ : s.phase? n = some (.inLine j event timer next))
    (hq : s.queues[j]? = some q) (settled : q.standing n ≠ .blocked) :
    ∃ t, s.stepCall? n = some t := by
  cases hs : s.stepCall? n with
  | none => exact absurd (System.standing_of_still hs hφ hq) settled
  | some t => exact ⟨t, rfl⟩

/-- A call in line that cannot make its step has its timer still to come. -/
theorem left_of_still {s : System} {event : ChangeEvent} {timer : Timer} {next : Option WaitHandle}
    (still : s.stepCall? n = none) (hφ : s.phase? n = some (.inLine j event timer next)) :
    s.host.now < timer.due := by
  unfold System.stepCall? at still
  rw [System.stepCall?_of_phase hφ] at still
  change s.stepInLine? n j event timer next = none at still
  unfold System.stepInLine? at still
  split at still
  · cases still
  · split at still
    · cases still
    · cases still
    · split at still
      · cases still
      next late => exact Nat.lt_of_not_le fun passed => late (decide_eq_true passed)

/-- A call that can make its step is not given up. -/
theorem Transition.actor?_of_ready {s : System} (h : x.after? a = some y)
    (others : a ≠ .agent (.call n)) (ready : x.system.stepCall? n = some s) (ψ : Call.Phase) :
    (⟨x, a, y⟩ : Transition).actor? ≠ some (n, ψ) := by
  intro acts
  obtain ⟨step, rfl, given⟩ := Transition.given_of_actor acts others
  cases (still_of_given h given).1.symm.trans ready

/-! ## Until there is an answer -/

namespace Session.Lined

theorem standing (lined : x.Lined bid q ahead) : q.standing bid.item.ticket = .blocked := by
  obtain ⟨behind, hl, -⟩ := lined.line
  exact Queue.standing_blocked.mpr (by simp [Queue.lined, hl])

/-- Where nothing can go on, the time of a call in line is still to come. -/
theorem now_lt (lined : x.Lined bid q ahead) (run : Runs ts x) (quiescent : x.system.isQuiescent) :
    x.system.host.now < bid.due := by
  obtain ⟨timer, hφ, due⟩ := lined.timer
  obtain ⟨call, hcall, -⟩ := Option.map_eq_some_iff.mp hφ
  have still : x.system.stepCall? bid.item.ticket = none :=
    System.step?_of_quiescent quiescent (run.covers _ (List.getElem?_eq_some_iff.mp hcall).1)
  exact due ▸ left_of_still still hφ

/-- The clock does not move past the timer of a call in line. -/
theorem now_le (lined : x.Lined bid q ahead) (run : Runs ts x) (h : x.after? a = some y)
    (punctual : (⟨x, a, y⟩ : Transition).isPunctual) : y.system.host.now ≤ bid.due := by
  obtain ⟨timer, hφ, due⟩ := lined.timer
  by_cases ticks : ∃ moment, a = .tick moment
  · obtain ⟨moment, rfl⟩ := ticks
    obtain ⟨call, hcall, -⟩ := Option.map_eq_some_iff.mp hφ
    have listed : Agent.call bid.item.ticket ∈ x.system.agents :=
      List.mem_append_left _ (run.covers _ (List.getElem?_eq_some_iff.mp hcall).1)
    have waits : (Agent.call bid.item.ticket).timer? x.system = some timer := by
      change x.system.callTimer? bid.item.ticket = some timer
      unfold System.callTimer?
      rw [System.stepCall?_of_phase hφ]
    rw [Session.after?_tick h, ← due]
    exact (System.isPunctual_iff.mp punctual).2 _ listed timer waits
  · rw [now_of_after? h fun moment tick => ticks ⟨moment, tick⟩]
    exact lined.left

/-- What the line is as the call sees it when others have used the queue: it stands there, and a
receipt was not its turn; or it was its turn, and it has the slot. -/
theorem used (lined : x.Lined bid q ahead) (run : Runs ts x) (h : x.after? a = some y)
    (come : ∀ item ∈ bid.found.blocked, ∃ φ, x.system.phase? item.ticket = some φ ∧ φ.isCalled)
    (others : ∀ ψ, (⟨x, a, y⟩ : Transition).actor? ≠ some (bid.item.ticket, ψ))
    (used : q.History ((⟨x, a, y⟩ : Transition).uses bid.queue q) q') :
    (∃ ahead' behind, q'.blocked = ahead' ++ bid.item :: behind ∧
      (∀ item ∈ behind, item ∉ bid.found.blocked) ∧ ahead'.Sublist bid.found.blocked ∧
      ((⟨x, a, y⟩ : Transition).received? bid.queue ≠ none → ahead ≠ [])) ∨
    ahead = [] ∧ (⟨x, a, y⟩ : Transition).received? bid.queue ≠ none ∧
      bid.item.ticket ∈ q'.promised := by
  obtain ⟨behind, hl, later⟩ := lined.line
  rcases used.single (Transition.length_uses _ bid.queue q) with ⟨none, rfl⟩ | ⟨op, one, does⟩
  · have receipts := Transition.received?_eq (j := bid.queue) h
    rw [lined.queue, Option.elim_some, none] at receipts
    exact .inl ⟨ahead, behind, hl, later, lined.ahead,
      fun received => absurd (Option.toList_eq_nil_iff.mp receipts) received⟩
  · have mem : op ∈ (⟨x, a, y⟩ : Transition).uses bid.queue q :=
      one ▸ List.mem_singleton.mpr rfl
    have apart : op.ticket? ≠ some bid.item.ticket := fun ticket => by
      obtain ⟨ψ, acts⟩ := Transition.actor?_of_ticket mem ticket
      exact others ψ acts
    have received : (⟨x, a, y⟩ : Transition).received? bid.queue ≠ none ↔
        op.received? ≠ none := by
      rw [Transition.received?_of_use h lined.queue one, ne_eq, Option.map_eq_none_iff]
    rcases does.line (run.traced lined.queue).steady hl (Transition.ordinary_uses mem) apart with
      ⟨ahead', behind', hl', sub, new, turn⟩ | ⟨first, receives, slot⟩
    · refine .inl ⟨ahead', behind', hl', fun item there => ?_, sub.trans lined.ahead,
        fun receives => turn (received.mp receives)⟩
      rcases new item there with old | called
      · exact later item old
      · -- who comes now was not there when the call came
        intro found
        obtain ⟨-, next, hφ⟩ := Transition.called_uses mem called
        obtain ⟨φ, hφ', called⟩ := come item found
        obtain rfl := Option.some.inj (hφ.symm.trans hφ')
        cases called
    · exact .inr ⟨first, received.mpr receives, slot⟩

/-- What others leave of a call in line that they do not give up: it stands there and it was not its
turn; or its turn has come and a slot was free; or the receiver has gone away. -/
theorem others (lined : x.Lined bid q ahead) (run : Runs ts x) (h : x.after? a = some y)
    (punctual : (⟨x, a, y⟩ : Transition).isPunctual)
    (come : ∀ item ∈ bid.found.blocked, ∃ φ, x.system.phase? item.ticket = some φ ∧ φ.isCalled)
    (others : ∀ ψ, (⟨x, a, y⟩ : Transition).actor? ≠ some (bid.item.ticket, ψ))
    (stays : y.system.phase? bid.item.ticket = x.system.phase? bid.item.ticket) :
    (∃ q' ahead', y.Lined bid q' ahead' ∧
      ((⟨x, a, y⟩ : Transition).received? bid.queue ≠ none → ahead ≠ [])) ∨
    ahead = [] ∧ (⟨x, a, y⟩ : Transition).received? bid.queue ≠ none ∧ y.Answered bid .accepted ∨
    (∃ q', y.system.queues[bid.queue]? = some q' ∧ q'.receiving = false) ∧
      y.Answered bid .refused := by
  obtain ⟨q₁, q', used, hq', same⟩ := Transition.uses_of_after? h lined.queue
  have traced := run.traced lined.queue
  have traced' := (run.next h).traced hq'
  obtain ⟨timer, hφ, due⟩ := lined.timer
  have phase := stays.trans hφ
  have apart := traced.apart_used h lined.queue used
  have promised : q'.promised = q₁.promised := by
    rcases same with core | core
    · exact (Queue.of_core core).2.2
    · exact (Queue.of_core core).2.2
  have flags := used.flags fun op => Transition.ordinary_uses
  have settings := used.settings
  rcases lined.used run h come others used with ⟨ahead', behind, hl, later, sub, turn⟩ | slot
  · rcases same with core | core
    · have whole := Queue.eq_of_core core
      have blocked : q'.blocked = ahead' ++ bid.item :: behind := by rw [whole]; exact hl
      have full : q'.capacity ≤ q'.buffer.length := traced'.steady.full (by simp [blocked])
      refine .inl ⟨q', ahead', ⟨hq', ?_, ?_, Nat.le_antisymm traced'.steady.bounded full,
        ⟨behind, blocked, later⟩, sub, ⟨timer, phase, due⟩, lined.now_le run h punctual⟩, turn⟩
      · rw [whole]
        exact ⟨settings.1.trans lined.settings.1, settings.2.trans lined.settings.2⟩
      · rw [whole]
        exact flags.2.trans lined.receiving
    · have whole := Queue.eq_of_core core
      have mem : bid.item.ticket ∈ q₁.lined := by simp [Queue.lined, hl]
      have empty : q'.lined = [] := by rw [whole]; rfl
      refine .inr (.inr ⟨⟨q', hq', by rw [whole]; rfl⟩, ⟨q', hq', ?_⟩, ⟨timer, phase⟩, by decide⟩)
      refine Queue.standing_refused.mpr ⟨fun bad => ?_, promised ▸ apart _ mem⟩
      rw [empty] at bad
      cases bad
  · obtain ⟨first, received, mem⟩ := slot
    refine .inr (.inl ⟨first, received, ⟨q', hq', ?_⟩, ⟨timer, phase⟩, by decide⟩)
    exact Queue.standing_accepted.mpr
      ⟨fun lined => traced'.apart _ lined (promised ▸ mem), promised ▸ mem⟩

end Session.Lined

/-! ## Until the call knows its answer -/

namespace Session.Answered

/-- The call can make its step, which takes it where its answer does. -/
theorem step (answered : x.Answered bid answer) :
    ∃ y, x.after? (.agent (.call bid.item.ticket)) = some y ∧
      y.system.phase? bid.item.ticket = some (bid.fate x.system.host.now answer) := by
  obtain ⟨⟨q, hq, standing⟩, ⟨timer, hφ⟩, settled⟩ := answered
  obtain ⟨s, hs⟩ := stepCall?_of_standing hφ hq (standing ▸ settled)
  have happens : x.after? (.agent (.call bid.item.ticket)) = some { x with system := s } :=
    congrArg (Option.map _) hs
  refine ⟨_, happens, ?_⟩
  rcases phase?_of_inLine happens hφ hq with ⟨accepted, after⟩ | ⟨refused, after⟩ | ⟨lined, -⟩
  · rw [← standing, accepted]
    exact after
  · rw [← standing, refused]
    exact after
  · exact absurd (standing.symm.trans lined) settled

/-- No time passes before that. -/
theorem now_eq (answered : x.Answered bid answer) (run : Runs ts x) (h : x.after? a = some y)
    (punctual : (⟨x, a, y⟩ : Transition).isPunctual) : y.system.host.now = x.system.host.now := by
  refine now_of_after? h fun moment tick => ?_
  subst tick
  obtain ⟨y, happens, -⟩ := answered.step
  obtain ⟨s, hs, -⟩ := Option.map_eq_some_iff.mp happens
  obtain ⟨timer, hφ⟩ := answered.timer
  obtain ⟨call, hcall, -⟩ := Option.map_eq_some_iff.mp hφ
  have still := System.step?_of_quiescent (System.isPunctual_iff.mp punctual).1
    (run.covers _ (List.getElem?_eq_some_iff.mp hcall).1)
  cases still.symm.trans hs

/-- Others leave the answer as it is. -/
theorem others (answered : x.Answered bid answer) (run : Runs ts x) (h : x.after? a = some y)
    (others : a ≠ .agent (.call bid.item.ticket)) : y.Answered bid answer := by
  obtain ⟨⟨q, hq, standing⟩, ⟨timer, hφ⟩, settled⟩ := answered
  obtain ⟨s, hs⟩ := stepCall?_of_standing hφ hq (standing ▸ settled)
  have spared := Transition.actor?_of_ready h others hs
  have phase := phase?_of_inactive h hφ spared
  obtain ⟨q₁, q', used, hq', same⟩ := Transition.uses_of_after? h hq
  have traced := run.traced hq
  have apart := traced.apart_used h hq used
  have kept : q₁.standing bid.item.ticket = answer := by
    rw [← standing] at settled ⊢
    rcases used.single (Transition.length_uses _ bid.queue q) with ⟨-, rfl⟩ | ⟨op, one, does⟩
    · rfl
    · refine does.standing traced.steady traced.apart apart settled fun ticket => ?_
      obtain ⟨ψ, acts⟩ := Transition.actor?_of_ticket (one ▸ List.mem_singleton.mpr rfl) ticket
      exact spared ψ acts
  refine ⟨⟨q', hq', ?_⟩, ⟨timer, phase⟩, settled⟩
  rcases same with core | core
  · rw [Queue.eq_of_core core]
    exact kept
  · rw [Queue.eq_of_core core]
    refine ((Queue.Does.stopped).standing (used.steady traced.steady) apart
      (fun _ mem => absurd mem List.not_mem_nil) ?_ nofun).trans kept
    rw [kept]
    exact settled

end Session.Answered

/-! ## How a bid fares -/

/-- The transition leaves the call in line: it frees no slot, or it is not its turn. -/
structure Transition.Passes (t : Transition) (bid : Bid) : Prop where
  before : ∃ q ahead, t.before.Lined bid q ahead ∧ (t.received? bid.queue ≠ none → ahead ≠ [])
  after : ∃ q ahead, t.after.Lined bid q ahead

/-- The call has an answer since a moment, and has found it in this moment or is about to. -/
inductive Session.Learns (z : Session) (later : List Transition) (bid : Bid) (moment : Nat)
    (answer : Queue.Offer) : Prop where
  /-- No time has passed yet, and the next step of the call takes it where the answer does. -/
  | soon (y : Session) :
      z.Answered bid answer → z.system.host.now = moment →
      z.after? (.agent (.call bid.item.ticket)) = some y →
      y.system.phase? bid.item.ticket = some (bid.fate moment answer) →
      Learns z later bid moment answer
  | told (u : Transition) :
      u ∈ later → u.action = .agent (.call bid.item.ticket) →
      u.before.system.host.now = moment →
      u.after.system.phase? bid.item.ticket = some (bid.fate moment answer) →
      (∀ result, bid.fate moment answer = .ended moment result →
        z.system.phase? bid.item.ticket = some (.ended moment result)) →
      Learns z later bid moment answer

theorem Session.Learns.next (run : Runs ts x) (h : x.after? a = some y)
    (punctual : (⟨x, a, y⟩ : Transition).isPunctual) (learns : x.Learns later bid moment answer) :
    y.Learns (⟨x, a, y⟩ :: later) bid moment answer := by
  cases learns with
  | soon w answered now happens after =>
    by_cases own : a = .agent (.call bid.item.ticket)
    · subst own
      obtain rfl := Option.some.inj (happens.symm.trans h)
      exact .told _ List.mem_cons_self rfl now after fun result ended => ended ▸ after
    · have still := answered.others run h own
      have now' := (answered.now_eq run h punctual).trans now
      obtain ⟨w', happens', after'⟩ := still.step
      exact .soon w' still now' happens' (now' ▸ after')
  | told u hu own now after stays =>
    exact .told u (List.mem_cons_of_mem _ hu) own now after
      fun result ended => ended_of_after? h (stays result ended)

/-- What has become of a bid that was not let in at once. -/
inductive Session.Fares (z : Session) (since : List Transition) (bid : Bid) : Prop where
  /-- The call stands in line, and its time is still to come when nothing else can go on. -/
  | waiting (q : Queue) (ahead : List Item) :
      (∀ v ∈ since, v.Passes bid) → z.Lined bid q ahead →
      (z.system.isQuiescent → z.system.host.now < bid.due) → Fares z since bid
  /-- A slot became free when nobody stood before it any more, for the first time. -/
  | admitted (later : List Transition) (u : Transition) (sooner : List Transition) (q : Queue) :
      since = later ++ u :: sooner → (∀ v ∈ sooner, v.Passes bid) → u.before.Lined bid q [] →
      u.received? bid.queue ≠ none → z.Learns later bid u.before.system.host.now .accepted →
      Fares z since bid
  /-- The receiver went away. -/
  | dismissed (later : List Transition) (u : Transition) (sooner : List Transition) (q q' : Queue)
      (ahead : List Item) :
      since = later ++ u :: sooner → (∀ v ∈ sooner, v.Passes bid) → u.before.Lined bid q ahead →
      u.after.system.queues[bid.queue]? = some q' → q'.receiving = false →
      z.Learns later bid u.before.system.host.now .refused → Fares z since bid
  /-- The call left the line when its timer was due. -/
  | timedOut (later : List Transition) (u : Transition) (sooner : List Transition) (q : Queue)
      (ahead : List Item) :
      since = later ++ u :: sooner → (∀ v ∈ sooner, v.Passes bid) → u.before.Lined bid q ahead →
      u.action = .agent (.call bid.item.ticket) → u.before.system.host.now = bid.due →
      z.system.phase? bid.item.ticket = some (bid.fate bid.due .blocked) → Fares z since bid
  /-- The call was given up. -/
  | aborted (later : List Transition) (u : Transition) (sooner : List Transition) (q : Queue)
      (ahead : List Item) :
      since = later ++ u :: sooner → (∀ v ∈ sooner, v.Passes bid) → u.before.Lined bid q ahead →
      z.system.phase? bid.item.ticket = some .aborted → Fares z since bid

/-- A call that has its answer after an action, and had none before, is told in that instant. -/
theorem Session.Lined.learns (lined : x.Lined bid q ahead) (h : x.after? a = some y)
    (answered : y.Answered bid answer) : y.Learns [] bid x.system.host.now answer := by
  have now : y.system.host.now = x.system.host.now := by
    refine now_of_after? h fun moment tick => ?_
    subst tick
    rw [Session.after?_tick h] at answered
    obtain ⟨q', hq', standing⟩ := answered.queue
    obtain rfl := Option.some.inj (lined.queue.symm.trans hq')
    exact answered.settled (standing.symm.trans lined.standing)
  obtain ⟨w, happens, after⟩ := answered.step
  exact .soon w answered now happens (now ▸ after)

/-- One transition with a call in line. -/
theorem Session.Lined.fares (lined : x.Lined bid q ahead) (run : Runs ts x)
    (h : x.after? a = some y) (punctual : (⟨x, a, y⟩ : Transition).isPunctual)
    (come : ∀ item ∈ bid.found.blocked, ∃ φ, x.system.phase? item.ticket = some φ ∧ φ.isCalled)
    (passes : ∀ v ∈ since, v.Passes bid) : y.Fares (⟨x, a, y⟩ :: since) bid := by
  obtain ⟨timer, hφ, due⟩ := lined.timer
  by_cases own : a = .agent (.call bid.item.ticket)
  · subst own
    rcases phase?_of_inLine h hφ lined.queue with ⟨accepted, -⟩ | ⟨refused, -⟩ | ⟨-, passed, after⟩
    · cases lined.standing.symm.trans accepted
    · cases lined.standing.symm.trans refused
    · have now : x.system.host.now = bid.due := Nat.le_antisymm lined.left (due ▸ passed)
      refine .timedOut [] _ since q ahead rfl passes lined rfl now ?_
      rw [after, now, lined.settings.1, lined.settings.2]
      rfl
  · rcases phase?_of_spared h own hφ rfl with gone | ⟨stays, spared⟩
    · exact .aborted [] _ since q ahead rfl passes lined gone
    · rcases lined.others run h punctual come spared (stays.trans hφ.symm) with
        ⟨q', ahead', lined', turn⟩ | ⟨rfl, received, answered⟩ | ⟨⟨q', hq', gone⟩, answered⟩
      · refine .waiting q' ahead' (fun v hv => ?_) lined' fun quiescent =>
          lined'.now_lt (run.next h) quiescent
        rcases List.mem_cons.mp hv with rfl | hv
        · exact ⟨⟨q, ahead, lined, turn⟩, q', ahead', lined'⟩
        · exact passes v hv
      · exact .admitted [] _ since q rfl passes lined received (lined.learns h answered)
      · exact .dismissed [] _ since q q' ahead rfl passes lined hq' gone (lined.learns h answered)

theorem Session.Fares.next (run : Runs ts x) (h : x.after? a = some y)
    (punctual : (⟨x, a, y⟩ : Transition).isPunctual)
    (come : ∀ item ∈ bid.found.blocked, ∃ φ, x.system.phase? item.ticket = some φ ∧ φ.isCalled)
    (fares : x.Fares since bid) : y.Fares (⟨x, a, y⟩ :: since) bid := by
  cases fares with
  | waiting q ahead passes lined _ => exact lined.fares run h punctual come passes
  | admitted later u sooner q split passes lined received learns =>
    exact .admitted (_ :: later) u sooner q (by rw [split]; rfl) passes lined received
      (learns.next run h punctual)
  | dismissed later u sooner q q' ahead split passes lined hq' gone learns =>
    exact .dismissed (_ :: later) u sooner q q' ahead (by rw [split]; rfl) passes lined hq' gone
      (learns.next run h punctual)
  | timedOut later u sooner q ahead split passes lined own now after =>
    exact .timedOut (_ :: later) u sooner q ahead (by rw [split]; rfl) passes lined own now
      (ended_of_after? h after)
  | aborted later u sooner q ahead split passes lined gone =>
    exact .aborted (_ :: later) u sooner q ahead (by rw [split]; rfl) passes lined
      (aborted_of_after? h gone)

/-! ## When the call comes -/

namespace Transition.Comes

/-- The first step of the call is one of the list. -/
theorem step (comes : b.Comes bid) (h : b.before.after? b.action = some b.after) :
    ∃ s u ψ, b.after = { b.before with system := s } ∧ b.before.system.CallStep bid.item.ticket
      (.enqueuing bid.queue bid.item.event bid.next) u ψ ∧
      (u.setPhase bid.item.ticket ψ).Quiet s ∧
      b.after.system.phase? bid.item.ticket = some ψ := by
  rw [comes.call] at h
  obtain ⟨s, hs, after⟩ := Option.map_eq_some_iff.mp h
  obtain ⟨φ, hφ, u, ψ, step, quiet⟩ := System.callSteps_of_stepCall? hs
  obtain rfl := Option.some.inj (comes.phase.symm.trans hφ)
  refine ⟨s, u, ψ, after.symm, step, quiet, ?_⟩
  rw [← after]
  exact (quiet.phase? _).trans
    (System.phase?_setPhase (step.phase?_eq ▸ comes.phase) ψ)

/-- A call that need not stand in line has its answer at once. -/
theorem answered (comes : b.Comes bid) (h : b.before.after? b.action = some b.after)
    (ho : (bid.found.offer bid.item).1 = answer) (settled : answer ≠ .blocked) :
    b.after.system.phase? bid.item.ticket = some (bid.fate bid.moment answer) := by
  obtain ⟨s, u, ψ, -, step, -, after⟩ := comes.step h
  rw [after, ← comes.now]
  rcases step.of_enqueuing with ⟨e, he, -, -⟩ |
    ⟨-, ⟨refused, -, rfl⟩ | ⟨q, q', hq, answers⟩⟩
  · cases comes.valid.symm.trans he
  · rw [← ho, refused _ comes.found]
    rfl
  · obtain rfl := Option.some.inj (comes.found.symm.trans hq)
    rcases answers with ⟨accepted, rfl⟩ | ⟨blocked, timer, rfl⟩
    · rw [← ho, accepted]
      rfl
    · rw [blocked] at ho
      exact absurd ho.symm settled

/-- A call that finds no free slot stands at the end of the line. -/
theorem lined (comes : b.Comes bid) (run : Runs before b.before)
    (h : b.before.after? b.action = some b.after) (receiving : bid.found.receiving)
    (busy : bid.found.blocked ≠ [] ∨ bid.found.capacity ≤ bid.found.buffer.length) :
    ∃ q, b.after.Lined bid q bid.found.blocked := by
  have blocked := Queue.offer_of_busy bid.item comes.isOpen receiving busy
  obtain ⟨s, u, ψ, after, step, quiet, phase⟩ := comes.step h
  obtain ⟨q₁, q', used, hq', core⟩ := System.CallSteps.uses ⟨u, ψ, step, quiet⟩ comes.found
  have hq : b.after.system.queues[bid.queue]? = some q' := by rw [after]; exact hq'
  obtain rfl : q₁ = { bid.found with blocked := bid.found.blocked ++ [bid.item] } := by
    rw [Queue.callUses, if_pos rfl, comes.valid] at used
    exact used.unique (.one (.offered comes.valid (by rw [blocked])))
  have whole := Queue.eq_of_core core
  have line : q'.blocked = bid.found.blocked ++ [bid.item] := by rw [whole]
  have steady := ((run.next h).traced hq).steady
  obtain ⟨timer, due, rfl⟩ := step.timer_of_blocked comes.found comes.valid blocked
  have now : b.after.system.host.now = bid.moment := by
    rw [← comes.now]
    exact now_of_after? h fun moment tick => by
      cases comes.call.symm.trans tick
  refine ⟨q', hq, ⟨by rw [whole], by rw [whole]⟩, by rw [whole]; exact receiving, ?_,
    ⟨[], line, fun _ mem => absurd mem List.not_mem_nil⟩, List.Sublist.refl _, ⟨timer, phase, ?_⟩, ?_⟩
  · exact Nat.le_antisymm steady.bounded (steady.full (by simp [line]))
  · rw [due, comes.now]
    rfl
  · rw [now]
    exact Nat.le_add_right _ _

end Transition.Comes

/-- A call that has come to its queue has come there for the rest of the run. -/
theorem Runs.called_since (run : Runs (since ++ ts) z) (base : Runs ts x)
    (called : ∃ φ, x.system.phase? n = some φ ∧ φ.isCalled) :
    ∃ φ, z.system.phase? n = some φ ∧ φ.isCalled := by
  induction since generalizing z with
  | nil => exact base.unique run ▸ called
  | cons u since ih =>
    cases run with
    | next run h =>
      obtain ⟨φ, hφ, called⟩ := ih run
      exact called_of_after? h hφ (.inl called)

/-- How a bid fares that was not let in at once, from then on. -/
theorem Runs.fares (run : Runs (since ++ b :: before) z) (comes : b.Comes bid)
    (receiving : bid.found.receiving)
    (busy : bid.found.blocked ≠ [] ∨ bid.found.capacity ≤ bid.found.buffer.length)
    (punctual : ∀ u ∈ since, u.isPunctual) : z.Fares since bid := by
  obtain ⟨base, happens⟩ := run.of_suffix (List.suffix_append since (b :: before))
  induction since generalizing z with
  | nil =>
    obtain rfl := (Runs.next base happens).unique run
    obtain ⟨q, lined⟩ := comes.lined base happens receiving busy
    exact .waiting q _ (fun _ hv => nomatch hv) lined fun quiescent => lined.now_lt run quiescent
  | cons u since ih =>
    cases run with
    | @next _ x _ a run h =>
      have fares := ih run fun v hv => punctual v (List.mem_cons_of_mem _ hv)
      refine fares.next run h (punctual _ List.mem_cons_self) fun item mem => ?_
      -- who stood in line when the call came had come there before
      have lined : item.ticket ∈ bid.found.lined := List.mem_map_of_mem mem
      obtain ⟨event, timer, next, hφ⟩ :=
        (base.traced comes.found).waiting _ (List.mem_append_left _ lined)
      have longer : Runs ((since ++ [b]) ++ before) x := by
        rw [← List.append_cons]
        exact run
      exact longer.called_since base ⟨_, hφ, rfl⟩

/-! ## The moment of the call -/

/-- A call that is about to come to its queue is so later, or has come there. -/
theorem Runs.coming_since {event : ChangeEvent} {next : Option WaitHandle}
    (run : Runs (since ++ ts) z) (base : Runs ts x)
    (coming : x.system.phase? n = some (.enqueuing j event next)) :
    z.system.phase? n = some (.enqueuing j event next) ∨
      ∃ φ, z.system.phase? n = some φ ∧ φ.isCalled := by
  induction since generalizing z with
  | nil => exact .inl (base.unique run ▸ coming)
  | cons u since ih =>
    cases run with
    | @next _ w _ a run h =>
      rcases ih run with still | ⟨φ, hφ, called⟩
      · by_cases own : a = .agent (.call n)
        · exact .inr (called_of_after? h still (.inr ⟨own, rfl⟩))
        · exact (phase?_of_others h own still).imp_right fun gone => ⟨_, gone, rfl⟩
      · exact .inr (called_of_after? h hφ (.inl called))

/-- A call that is about to come to its queue can do so, so no time passes before. -/
theorem Runs.comes_at_once {event : ChangeEvent} {next : Option WaitHandle}
    (run : Runs (since ++ ts) z) (base : Runs ts x) (punctual : ∀ u ∈ since, u.isPunctual)
    (coming : x.system.phase? n = some (.enqueuing j event next))
    (hφ : z.system.phase? n = some (.enqueuing j event next)) :
    z.system.host.now = x.system.host.now := by
  induction since generalizing z with
  | nil => exact congrArg (·.system.host.now) (run.unique base)
  | cons u since ih =>
    cases run with
    | @next _ w _ a run h =>
      have before : w.system.phase? n = some (.enqueuing j event next) := by
        refine (run.coming_since base coming).resolve_right fun ⟨ψ, hψ, called⟩ => ?_
        obtain ⟨χ, hχ, called⟩ := called_of_after? h hψ (.inl called)
        obtain rfl := Option.some.inj (hφ.symm.trans hχ)
        cases called
      rw [← ih run (fun v hv => punctual v (List.mem_cons_of_mem _ hv)) before]
      refine now_of_after? h fun moment tick => ?_
      subst tick
      obtain ⟨call, hcall, -⟩ := Option.map_eq_some_iff.mp before
      have still : w.system.stepCall? n = none := System.step?_of_quiescent
        (System.isPunctual_iff.mp (punctual _ List.mem_cons_self)).1
        (run.covers n (List.getElem?_eq_some_iff.mp hcall).1)
      unfold System.stepCall? at still
      rw [System.stepCall?_of_phase before] at still
      cases still

/-! ## What a failed call leaves behind -/

/-- Call `n` fails in the transition while it brings its event to queue `j`: it is refused, it gives
up, or it is given up. -/
structure Transition.Fails (t : Transition) (n j : Nat) : Prop where
  brings : ∃ φ event, t.before.system.phase? n = some φ ∧ φ.brings? = some (j, event)
  fails : ∃ φ, t.after.system.phase? n = some φ ∧ φ.isFailed

/-- A call that fails in a step of its own is no longer in line after it. -/
theorem queue_of_failed_step {event : ChangeEvent} {ψ : Call.Phase} (run : Runs ts x)
    (h : x.after? (.agent (.call n)) = some y)
    (hφ : x.system.phase? n = some φ) (brings : φ.brings? = some (j, event))
    (hψ : y.system.phase? n = some ψ) (failed : ψ.isFailed)
    (hq : x.system.queues[j]? = some q) :
    ∃ q', y.system.queues[j]? = some q' ∧ q' = { q.withdraw n with isOpen := q'.isOpen } := by
  obtain ⟨s, hs, rfl⟩ := Option.map_eq_some_iff.mp h
  obtain ⟨χ, hχ, u, ψ, step, quiet⟩ := System.callSteps_of_stepCall? hs
  obtain rfl := Option.some.inj (hφ.symm.trans hχ)
  have after : s.phase? n = some ψ :=
    (quiet.phase? n).trans (System.phase?_setPhase (step.phase?_eq ▸ hφ) ψ)
  obtain rfl := Option.some.inj (after.symm.trans hψ)
  have lined : n ∈ q.lined → ∃ event timer next, φ = .inLine j event timer next := fun there => by
    obtain ⟨event, timer, next, waits⟩ :=
      (run.traced hq).waiting n (List.mem_append_left _ there)
    exact ⟨event, timer, next, Option.some.inj (hφ.symm.trans waits)⟩
  obtain ⟨q', hq', core⟩ :=
    exists_of_map_eq quiet.queues.symm (step.withdraws hq brings lined failed)
  exact ⟨q', hq', Queue.eq_of_core core.symm⟩

/-- A call that is given up in line is no longer there. -/
theorem queue_of_given {step : Step} {event : ChangeEvent} {timer : Timer}
    {next : Option WaitHandle} (h : x.after? (.perform step) = some y)
    (given : x.given? step = some (n, .inLine j event timer next))
    (hq : x.system.queues[j]? = some q) :
    ∃ q', y.system.queues[j]? = some q' ∧ q' = { q.withdraw n with isOpen := q'.isOpen } := by
  cases step with
  | abort step =>
    have left : (x.queuesAfter (.abort step))[j]? = some (q.withdraw n) := by
      unfold Session.queuesAfter
      dsimp only
      rw [given]
      change (x.system.queues.modify j fun q => q.withdraw n)[j]? = _
      rw [List.getElem?_modify_eq, hq]
      rfl
    obtain ⟨q', hq', core⟩ := Session.getElem?_core (Session.leaves_of_after? h).1.queues left
    exact ⟨q', hq', Queue.eq_of_core core⟩
  | _ => cases given

/-- The queue is the one before it, without call `n` in line; it may have been closed meanwhile. -/
theorem Transition.Fails.queue (fails : t.Fails n j) (run : Runs ts t.before)
    (h : t.before.after? t.action = some t.after) (hq : t.before.system.queues[j]? = some q) :
    ∃ q', t.after.system.queues[j]? = some q' ∧ q' = { q.withdraw n with isOpen := q'.isOpen } := by
  obtain ⟨x, a, y⟩ := t
  obtain ⟨⟨φ, event, hφ, brings⟩, ψ, hψ, failed⟩ := fails
  dsimp only at run h hq hφ hψ ⊢
  by_cases own : a = .agent (.call n)
  · subst own
    exact queue_of_failed_step run h hφ brings hψ failed hq
  · obtain ⟨χ, acts⟩ : ∃ χ, (⟨x, a, y⟩ : Transition).actor? = some (n, χ) := by
      by_contra none
      obtain rfl := Option.some.inj
        ((phase?_of_inactive h hφ fun χ is => none ⟨χ, is⟩).symm.trans hψ)
      cases φ <;> first | (cases brings; done) | cases failed
    obtain ⟨step, rfl, given⟩ := Transition.given_of_actor acts own
    obtain ⟨still, hχ⟩ := still_of_given h given
    obtain rfl := Option.some.inj (hφ.symm.trans hχ)
    -- a call that brings its event and stands still is in line
    unfold System.stepCall? at still
    rw [System.stepCall?_of_phase hφ] at still
    cases φ with
    | inLine k event timer next =>
      obtain ⟨rfl, rfl⟩ := Prod.mk.inj (Option.some.inj brings)
      exact queue_of_given h given hq
    | enqueuing k event next => cases still
    | _ => cases brings

/-! ## Backpressure -/

/-- How a call fares that brings a valid event to an open queue, in the run that led to its first
step and in what has followed. -/
structure Backpressure (since before : List Transition) (z : Session) (b : Transition)
    (bid : Bid) : Prop where
  /-- The call comes to its queue in the instant in which it is made, or goes on to that. -/
  prompt : ∀ us v ts, before = us ++ v :: ts → (∀ u ∈ us, u.isPunctual) →
    v.after.system.phase? bid.item.ticket =
      some (.enqueuing bid.queue bid.item.event bid.next) →
    v.after.system.host.now = bid.moment
  /-- A queue that nobody receives from refuses it at once. -/
  gone : bid.found.receiving = false →
    b.after.system.phase? bid.item.ticket = some (bid.fate bid.moment .refused)
  /-- A slot that is free, with nobody in line for it, is taken at once. -/
  atOnce : bid.found.receiving → bid.found.blocked = [] →
    bid.found.buffer.length < bid.found.capacity →
    b.after.system.phase? bid.item.ticket = some (bid.fate bid.moment .accepted)
  inTurn : bid.found.receiving →
    (bid.found.blocked ≠ [] ∨ bid.found.capacity ≤ bid.found.buffer.length) → z.Fares since bid
  /-- A call that fails leaves the queue as it would be if it had not been in line. -/
  spared : ∀ u ∈ since ++ b :: before, ∀ n, u.Fails n bid.queue → ∀ q,
    u.before.system.queues[bid.queue]? = some q →
    ∃ q', u.after.system.queues[bid.queue]? = some q' ∧
      q' = { q.withdraw n with isOpen := q'.isOpen }

/-- A call is let in at once if a slot is free for it. Otherwise it stands in line until a slot
becomes free in its turn, until the receiver goes away or until its timer is due, and has its
answer in that instant. -/
theorem enqueue_timing (run : Runs (since ++ b :: before) z) (comes : b.Comes bid)
    (punctual : ∀ u ∈ since, u.isPunctual) : Backpressure since before z b bid := by
  obtain ⟨base, happens⟩ := run.of_suffix (List.suffix_append since (b :: before))
  refine ⟨?prompt, ?gone, ?atOnce, ?inTurn, ?spared⟩
  case prompt =>
    rintro us v ts rfl punctual coming
    rw [← comes.now]
    exact (base.comes_at_once base.split.2 punctual coming comes.phase).symm
  case gone =>
    intro gone
    exact comes.answered happens (by rw [Queue.offer_of_refusing (.inr gone)]) nofun
  case atOnce =>
    intro receiving empty room
    exact comes.answered happens (Queue.offer_of_free comes.isOpen receiving empty room) nofun
  case inTurn =>
    intro receiving busy
    exact run.fares comes receiving busy punctual
  case spared =>
    intro u hu n fails q hq
    obtain ⟨us, earlier, happens⟩ := run.made hu
    exact fails.queue earlier happens hq

/-- A call is let in, and a second one stands in line; a third is made later. The latest action
first. -/
def queued : List Action :=
  [.perform (.enqueue "q" (creation none)), .tick 40, .agent (.call 1),
   .perform (.enqueue "q" (creation none)), .agent (.call 0),
   .perform (.enqueue "q" (creation none)), .perform (.makeQueue "q" 1 (.ofMillis 100))]

/-- The second call leaves the line when its time is over, and then the first event is received;
the latest action first. -/
def unqueued : List Action :=
  [.agent (.call 2), .perform (.dequeue "q"), .tick 120, .agent (.call 1), .tick 100]

/-- The bid of the third call. -/
def thirdBid : Bid where
  queue := 0
  item := ⟨2, creation none⟩
  next := none
  moment := 40
  found :=
    { capacity := 1
      timeout := .ofMillis 100
      buffer := [⟨0, creation none⟩]
      blocked := [⟨1, creation none⟩] }

set_option maxRecDepth 100000 in
/-- The second call is told that the queue is full when its timer is due, and the third is let in
with the first receipt after that. -/
theorem third_let_in :
    let b := happening (.agent (.call 2)) queued
    let actions := unqueued ++ .agent (.call 2) :: queued
    let since := (play actions).1.take unqueued.length
    let z := (play actions).2
    b.Comes thirdBid ∧ (∀ u ∈ since, u.isPunctual) ∧
      Backpressure since (play queued).1 z b thirdBid ∧
      z.system.phase? 1 =
        some (.ended 100 (.failed (.queueFull 1 (.ofMillis 100)))) ∧
      z.system.phase? 2 = some (.ended 120 .done) := by
  intro b actions since z
  have comes : b.Comes thirdBid := ⟨rfl, by rfl, by rfl, by rfl, by rfl, rfl⟩
  have punctual : ∀ u ∈ since, u.isPunctual := by
    have all : since.all Transition.isPunctual = true := by rfl
    exact fun u hu => List.all_eq_true.mp all u hu
  have split : (play actions).1 = since ++ b :: (play queued).1 := by rfl
  have run : Runs (since ++ b :: (play queued).1) z := split ▸ play_runs actions
  exact ⟨comes, punctual, enqueue_timing run comes punctual, by rfl, by rfl⟩

/-- A call comes to a queue whose receiver has gone away; the latest action first. -/
def unreceived : List Action :=
  [.perform (.enqueue "q" (creation none)), .perform (.dropReceiver "q"),
   .perform (.makeQueue "q" 1 (.ofMillis 100))]

set_option maxRecDepth 100000 in
/-- Although a slot is free, nobody stands in line and the queue has not been closed, the call is
told at once that it is. -/
theorem open_queue_refuses :
    let b := happening (.agent (.call 0)) unreceived
    ∃ bid : Bid, b ∈ (play (.agent (.call 0) :: unreceived)).1 ∧ b.Comes bid ∧
      bid.found.blocked = [] ∧ bid.found.buffer.length < bid.found.capacity ∧
      b.after.system.phase? bid.item.ticket = some (.ended bid.moment (.failed .closed)) := by
  intro b
  have comes : b.Comes ⟨0, ⟨0, creation none⟩, none, 0,
      { capacity := 1, timeout := .ofMillis 100, receiving := false }⟩ :=
    ⟨rfl, by rfl, by rfl, by rfl, by rfl, rfl⟩
  exact ⟨_, happening_mem [] (by rfl), comes, rfl, by decide, by rfl⟩

end Script

end ChangeDispatch
