import ChangeDispatch.Proofs.Wait.Confirmed
import ChangeDispatch.Proofs.Wait.Expiry

/-!
# The outcome of a wait

A wait can end for three reasons, which come in any order: its slot is set, its token fires, or
its deadline comes. The deadline runs from the registration and the wait may begin later, so
several of them may hold when the wait is looked at for the first time; then the slot goes
before the token and the token before the deadline. Where the clock is punctual, a wait that
times out does so at its deadline, or at once if it begins after that.
-/
namespace ChangeDispatch.Script

variable {ts us since before : List Transition} {x y z : Session} {a : Action}
  {b t u v : Transition} {c n : Nat} {w q : Waiter} {handle : WaitHandle} {token : Option Nat}
  {event : ChangeEvent} {timeout : Duration} {result : Call.Result}

/-! ## Looking at a wait -/

/-- What a wait on the waiter returns in this state. -/
inductive Session.Tells (x : Session) (token : Option Nat) (w : Waiter) : Call.Result → Prop where
  | acknowledged (ack : AckEvent) : w.slot = .filled ack → Tells x token w (.acknowledged ack)
  | closed : w.slot = .closed → Tells x token w (.failed .closed)
  | cancelled : w.slot = .empty → x.system.tokenFired token → Tells x token w (.failed .cancelled)
  | timedOut : w.slot = .empty → x.system.tokenFired token = false →
      w.deadline ≤ x.system.host.now → Tells x token w (.failed (.timeout w.workspace w.timeout))

theorem Session.tells_iff (found : x.system.waiter? handle = some w) :
    x.system.waitResult? handle token = some result ↔ x.Tells token w result := by
  unfold System.waitResult?
  rw [found]
  dsimp only
  constructor
  · intro returns
    cases slot : w.slot with
    | filled ack =>
      rw [slot] at returns
      exact Option.some.inj returns ▸ .acknowledged ack slot
    | closed =>
      rw [slot] at returns
      exact Option.some.inj returns ▸ .closed slot
    | empty =>
      rw [slot] at returns
      dsimp only at returns
      split at returns
      next fired => exact Option.some.inj returns ▸ .cancelled slot fired
      next unfired =>
        split at returns
        next passed =>
          exact Option.some.inj returns ▸ .timedOut slot (Bool.not_eq_true _ ▸ unfired) passed
        next => cases returns
  · intro tells
    cases tells with
    | acknowledged ack slot => rw [slot]
    | closed slot => rw [slot]
    | cancelled slot fired =>
      rw [slot]
      exact if_pos fired
    | timedOut slot unfired passed =>
      rw [slot]
      dsimp only
      rw [unfired, if_neg (by decide), if_pos passed]

/-- Call `n` looks at its wait in a step of its own, which ends the wait with a result. -/
structure Transition.EndsWait (t : Transition) (n : Nat) (handle : WaitHandle)
    (token : Option Nat) (result : Call.Result) : Prop where
  call : t.action = .agent (.call n)
  waiting : t.before.Waiting n handle token
  ended : t.after.system.phase? n = some (.ended t.before.system.host.now result)

theorem Transition.EndsWait.returns (ends : t.EndsWait n handle token result) :
    t.Returns handle result := by
  rcases ends.waiting with hφ | ⟨timer, hφ⟩
  · exact ⟨n, _, token, _, ends.call, hφ, .inl rfl, ends.ended⟩
  · exact ⟨n, _, token, _, ends.call, hφ, .inr ⟨timer, rfl⟩, ends.ended⟩

namespace Session.Waiting

theorem not_ended (waiting : x.Waiting n handle token) {moment : Nat}
    (ended : x.system.phase? n = some (.ended moment result)) : False := by
  rcases waiting with hφ | ⟨timer, hφ⟩
  · cases hφ.symm.trans ended
  · cases hφ.symm.trans ended

/-- What others do leaves a call waiting, or gives it up. -/
theorem of_others (h : x.after? a = some y) (others : a ≠ .agent (.call n))
    (waiting : x.Waiting n handle token) :
    y.Waiting n handle token ∨ y.system.phase? n = some .aborted := by
  rcases waiting with hφ | ⟨timer, hφ⟩
  · exact (phase?_of_others h others hφ).imp_left .inl
  · exact (phase?_of_others h others hφ).imp_left fun same => .inr ⟨timer, same⟩

/-- The step of a call that waits ends the wait with what the wait returns, if it returns. -/
theorem ends_iff (h : x.after? (.agent (.call n)) = some y) (waiting : x.Waiting n handle token) :
    y.system.phase? n = some (.ended x.system.host.now result) ↔
      x.system.waitResult? handle token = some result := by
  constructor
  · intro ended
    rcases waiting.next h with still | hφ | ⟨result', returns, hφ⟩
    · exact (still.not_ended ended).elim
    · cases hφ.symm.trans ended
    · cases hφ.symm.trans ended
      exact returns
  · intro returns
    obtain ⟨s, hs, rfl⟩ := Option.map_eq_some_iff.mp h
    obtain rfl := Option.some.inj
      ((System.stepCall?_of_waitResult waiting returns).symm.trans hs)
    rcases waiting with hφ | ⟨timer, hφ⟩
    · exact System.phase?_endWaitCall hφ _ _
    · exact System.phase?_endWaitCall hφ _ _

/-- A call that is about to look at its wait for the first time has not looked at it before. -/
theorem awaiting_of_after? (h : x.after? a = some y) (waiting : x.Waiting n handle token)
    (hφ : y.system.phase? n = some (.awaiting handle token)) :
    x.system.phase? n = some (.awaiting handle token) := by
  rcases waiting with same | ⟨timer, other⟩
  · exact same
  · by_cases own : a = .agent (.call n)
    · subst own
      obtain ⟨s, hs, rfl⟩ := Option.map_eq_some_iff.mp h
      obtain ⟨φ, before, v, ψ, step, quiet⟩ := System.callSteps_of_stepCall? hs
      obtain rfl := Option.some.inj (other.symm.trans before)
      have after := (quiet.phase? n).trans (System.phase?_setPhase (step.phase?_eq ▸ other) ψ)
      obtain rfl := Option.some.inj (hφ.symm.trans after)
      rcases step.of_wait (.inr ⟨timer, rfl⟩) with ⟨_, -, ended⟩ | ⟨_, same⟩
      · cases ended
      · cases same
    · rcases phase?_of_others h own other with same | gone
      · cases same.symm.trans hφ
      · cases gone.symm.trans hφ

/-- A call that is about to look at its wait for the first time can do so. -/
theorem not_quiescent (run : Runs ts x) (hφ : x.system.phase? n = some (.awaiting handle token)) :
    ¬x.system.isQuiescent := by
  intro quiescent
  obtain ⟨call, hcall, -⟩ := Option.map_eq_some_iff.mp hφ
  have none : x.system.stepCall? n = none :=
    System.step?_of_quiescent quiescent (run.covers n (List.getElem?_eq_some_iff.mp hcall).1)
  unfold System.stepCall? at none
  rw [System.stepCall?_of_phase hφ] at none
  cases none

end Session.Waiting

/-! ## From the beginning of a wait -/

theorem Runs.now_since (run : Runs (since ++ ts) z) (base : Runs ts x) :
    x.system.host.now ≤ z.system.host.now := by
  induction since generalizing z with
  | nil => exact Nat.le_of_eq (congrArg (·.system.host.now) (base.unique run))
  | cons u since ih =>
    cases run with
    | next run h => exact Nat.le_trans (ih run) (now_le_of_after? h)

theorem Runs.now_from (run : Runs (since ++ v :: before) z) :
    v.before.system.host.now ≤ z.system.host.now := by
  have run' : Runs ((since ++ [v]) ++ before) z := by simpa using run
  exact run'.now_since run.split.1

theorem Runs.ended_since (run : Runs (since ++ ts) z) (base : Runs ts x) {moment : Nat}
    (hφ : x.system.phase? n = some (.ended moment result)) :
    z.system.phase? n = some (.ended moment result) := by
  induction since generalizing z with
  | nil => exact base.unique run ▸ hφ
  | cons u since ih =>
    cases run with
    | next run h => exact ended_of_after? h (ih run)

/-- How a call stands that has begun to wait: it still waits, it was given up, or a step of its
own has ended the wait. -/
inductive Session.Stands (x : Session) (since : List Transition) (n : Nat) (handle : WaitHandle)
    (token : Option Nat) : Prop where
  | waiting : x.Waiting n handle token → Stands x since n handle token
  | aborted : x.system.phase? n = some .aborted → Stands x since n handle token
  | ended (u : Transition) (result : Call.Result) : u ∈ since → u.EndsWait n handle token result →
      x.system.phase? n = some (.ended u.before.system.host.now result) →
      Stands x since n handle token

theorem Session.Stands.next (h : x.after? a = some y) (stands : x.Stands since n handle token) :
    y.Stands (⟨x, a, y⟩ :: since) n handle token := by
  cases stands with
  | aborted hφ => exact .aborted (aborted_of_after? h hφ)
  | ended u result hu ends hφ =>
    exact .ended u result (List.mem_cons_of_mem _ hu) ends (ended_of_after? h hφ)
  | waiting waiting =>
    rcases waiting.next h with still | gone | ⟨result, -, hφ⟩
    · exact .waiting still
    · exact .aborted gone
    · refine .ended ⟨x, a, y⟩ result List.mem_cons_self ⟨?_, waiting, hφ⟩ hφ
      by_contra others
      rcases waiting.of_others h others with still | gone
      · exact still.not_ended hφ
      · cases gone.symm.trans hφ

theorem Session.Stands.mono {later : List Transition} (stands : x.Stands since n handle token)
    (sub : since ⊆ later) : x.Stands later n handle token := by
  cases stands with
  | waiting waiting => exact .waiting waiting
  | aborted hφ => exact .aborted hφ
  | ended u result hu ends hφ => exact .ended u result (sub hu) ends hφ

theorem Runs.stands (run : Runs (since ++ ts) z) (base : Runs ts x)
    (waiting : x.Waiting n handle token) : z.Stands since n handle token := by
  induction since generalizing z with
  | nil => exact .waiting (base.unique run ▸ waiting)
  | cons u since ih =>
    cases run with
    | next run h => exact (ih run).next h

/-- The wait of call `n` on a handle begins. -/
structure Transition.BeginsWait (t : Transition) (n : Nat) (handle : WaitHandle)
    (token : Option Nat) : Prop where
  idle : ¬t.before.Waiting n handle token
  waiting : t.after.Waiting n handle token

theorem Transition.BeginsWait.now (begins : t.BeginsWait n handle token)
    (happens : t.before.after? t.action = some t.after) :
    t.after.system.host.now = t.before.system.host.now := by
  refine now_of_after? happens fun moment tick => begins.idle ?_
  rw [tick] at happens
  have waiting := begins.waiting
  rw [Session.after?_tick happens] at waiting
  exact waiting

/-- Where the clock is punctual, a wait is looked at for the first time when it begins. -/
theorem Runs.first_look (run : Runs (since ++ v :: before) z)
    (begins : v.BeginsWait n handle token) (punctual : ∀ u ∈ since, u.isPunctual)
    (hφ : z.system.phase? n = some (.awaiting handle token)) :
    z.system.host.now = v.before.system.host.now := by
  induction since generalizing z with
  | nil =>
    obtain rfl := run.split.2.unique run
    exact begins.now (run.of_suffix (List.suffix_refl _)).2
  | cons u since ih =>
    have base := run.split.2
    cases run with
    | @next _ x _ a run h =>
      have waiting : x.Waiting n handle token := by
        cases run.stands base begins.waiting with
        | waiting waiting => exact waiting
        | aborted gone => cases (aborted_of_after? h gone).symm.trans hφ
        | ended _ _ _ _ ended => cases (ended_of_after? h ended).symm.trans hφ
      have earlier := waiting.awaiting_of_after? h hφ
      rw [← ih run (fun u hu => punctual u (List.mem_cons_of_mem _ hu)) earlier]
      refine now_of_after? h fun moment tick => Session.Waiting.not_quiescent run earlier ?_
      subst tick
      exact (System.isPunctual_iff.mp (punctual _ List.mem_cons_self)).1

/-- Where the clock is punctual, a wait that has passed its deadline is looked at then, or at its
beginning if that is later. -/
theorem Runs.looked_at (run : Runs (since ++ v :: before) z)
    (begins : v.BeginsWait n handle token) (punctual : ∀ u ∈ since ++ v :: before, u.isPunctual)
    (waiting : z.Waiting n handle token) (awaits : z.Awaits handle.correlator q)
    (serial : q.serial = handle.serial) (passed : q.deadline ≤ z.system.host.now) :
    z.system.host.now = max v.before.system.host.now q.deadline := by
  rcases waiting with hφ | ⟨timer, hφ⟩
  · have first := run.first_look begins (fun u hu => punctual u (List.mem_append_left _ hu)) hφ
    omega
  · obtain ⟨r, hr, hq⟩ := awaits
    obtain ⟨left, within⟩ := run.timely punctual n handle token timer hφ
    have due := within r hr q hq serial
    have later := run.now_from
    omega

/-! ## From the registration -/

/-- The transition registers waiter `w` for the acknowledgment of an event, to last for a
timeout. The waiter may have lost its entry by the end of the transition, to that of an earlier
handle which is let go of. -/
def Transition.Enrolls (t : Transition) (c : Nat) (event : ChangeEvent) (timeout : Duration)
    (w : Waiter) : Prop :=
  ∃ co r v, t.before.system.correlators[c]? = some co ∧ co.timeout = timeout ∧
    co.registry.register event t.before.system.host.now timeout = .ok (w, r) ∧
    t.after.Awaits c v ∧ v.registered = w

namespace Transition.Enrolls

theorem waiter (enrolls : b.Enrolls c event timeout w) :
    w.workspace = event.name ∧ w.timeout = timeout ∧
      w.deadline = b.before.system.host.now + timeout.ticks := by
  obtain ⟨co, r, v, -, -, registered, -, -⟩ := enrolls
  obtain ⟨-, -, -, -, workspace, -⟩ := WaitRegistry.register_ok registered
  exact ⟨workspace, WaitRegistry.span_register registered⟩

/-- The handle of the waiter is not held before. -/
theorem new (enrolls : b.Enrolls c event timeout w) (run : Runs before b.before)
    (base : Runs us x) (earlier : us <:+ before) : ⟨c, w.serial⟩ ∉ x.handles := by
  intro held
  obtain ⟨co, s, v, hc, -, registered, -, -⟩ := enrolls
  obtain ⟨-, serial, -⟩ := WaitRegistry.register_ok registered
  obtain ⟨r, hr, u, hu, same⟩ := base.owned.exists_waiter held
  obtain ⟨later, rfl⟩ := earlier
  obtain ⟨r', hr', descends⟩ := run.registry_since base hr
  obtain rfl := Option.some.inj ((System.getElem?_registries hc).symm.trans hr')
  have known := (base.wellFormed hr).fresh u hu
  have grown := descends.nextSerial
  dsimp only at same
  omega

/-- What the waiter has become later in the run. -/
theorem become (enrolls : b.Enrolls c event timeout w) (run : Runs (since ++ b :: before) z)
    (held : ⟨c, w.serial⟩ ∈ z.handles) :
    ∃ q, z.Awaits c q ∧ q.serial = w.serial ∧ q.registered = w := by
  obtain ⟨co, r, v, -, -, -, awaits, rfl⟩ := enrolls
  obtain ⟨s, hs, q, hq, serial⟩ := run.owned.exists_waiter held
  exact ⟨q, ⟨s, hs, hq⟩, serial, run.registered_since run.split.2 awaits ⟨s, hs, hq⟩ serial⟩

/-- The handle is held in the run from the registration on. -/
theorem later (enrolls : b.Enrolls c event timeout w) (run : Runs (since ++ b :: before) z)
    (hu : u ∈ since ++ b :: before) (held : ⟨c, w.serial⟩ ∈ u.before.handles) : u ∈ since := by
  have base := run.split.1
  rcases List.mem_append.mp hu with hu | hu
  · exact hu
  · rcases List.mem_cons.mp hu with rfl | hu
    · exact absurd held (enrolls.new base base (List.suffix_refl _))
    · obtain ⟨m, rest, rfl⟩ := List.append_of_mem hu
      have earlier : rest <:+ m ++ u :: rest :=
        (List.suffix_cons u rest).trans (List.suffix_append _ _)
      exact absurd held (enrolls.new base base.split.1 earlier)

/-- A wait on the waiter begins no earlier than the registration. -/
theorem order (enrolls : b.Enrolls c event timeout w) (run : Runs (since ++ b :: before) z)
    (hv : v ∈ since ++ b :: before) (held : ⟨c, w.serial⟩ ∈ v.after.handles) :
    b.before.system.host.now ≤ v.before.system.host.now := by
  have base := run.split.1
  rcases List.mem_append.mp hv with hv | hv
  · obtain ⟨later, m, rfl⟩ := List.append_of_mem hv
    rw [List.append_assoc, List.cons_append] at run
    have earlier : Runs (m ++ b :: before) v.before := run.split.1
    exact earlier.now_from
  · rcases List.mem_cons.mp hv with rfl | hv
    · exact Nat.le_refl _
    · obtain ⟨m, rest, rfl⟩ := List.append_of_mem hv
      exact absurd held (enrolls.new base base.split.2 (List.suffix_append _ _))

end Transition.Enrolls

/-! ## The outcome -/

/-- What becomes of the wait that call `n` has begun in transition `v`, on the waiter `w` that
was registered in `b`. -/
structure Outcome (ts : List Transition) (z : Session) (b v : Transition) (c n : Nat)
    (event : ChangeEvent) (timeout : Duration) (w : Waiter) (token : Option Nat) : Prop where
  /-- The wait begins no earlier than the registration. -/
  order : b.before.system.host.now ≤ v.before.system.host.now
  stands : z.Stands ts n ⟨c, w.serial⟩ token
  /-- Whenever the call looks at the wait, it ends with the result that the waiter, the token and
  the clock tell, or goes on if they tell none. -/
  looks : ∀ u ∈ ts, u.action = .agent (.call n) → u.before.Waiting n ⟨c, w.serial⟩ token →
    ∃ q, u.before.Awaits c q ∧ q.registered = w ∧ ∀ result,
      u.EndsWait n ⟨c, w.serial⟩ token result ↔ u.before.Tells token q result
  /-- A wait that times out names the workspace and the timeout, and ends when its deadline or its
  beginning has come, whichever is later. -/
  timedOut : ∀ u ∈ ts, ∀ workspace span,
    u.EndsWait n ⟨c, w.serial⟩ token (.failed (.timeout workspace span)) →
      workspace = event.name ∧ span = timeout ∧
      max v.before.system.host.now (b.before.system.host.now + timeout.ticks) ≤
        u.before.system.host.now ∧
      ((∀ u ∈ ts, u.isPunctual) → u.before.system.host.now =
        max v.before.system.host.now (b.before.system.host.now + timeout.ticks))
  /-- A wait that goes on where nothing else can has its deadline still to come. -/
  quiescent : z.system.isQuiescent → z.Waiting n ⟨c, w.serial⟩ token →
    z.system.host.now < b.before.system.host.now + timeout.ticks
  /-- The wait ends once, and its entry is gone from then on. -/
  gone : ∀ u ∈ ts, ∀ result, u.EndsWait n ⟨c, w.serial⟩ token result →
    z.system.phase? n = some (.ended u.before.system.host.now result) ∧
      ∀ r, z.registry? c = some r → ∀ e ∈ r.table.entries, e.serial ≠ w.serial

/-- A step that ends the wait comes after the one that has begun it. -/
theorem Transition.EndsWait.later (ends : u.EndsWait n handle token result)
    (run : Runs (since ++ v :: before) z) (begins : v.BeginsWait n handle token)
    (hu : u ∈ since ++ v :: before) : u ∈ since := by
  obtain ⟨base, happens⟩ := run.of_suffix (List.suffix_append since (v :: before))
  rcases List.mem_append.mp hu with hu | hu
  · exact hu
  · rcases List.mem_cons.mp hu with rfl | hu
    · exact absurd ends.waiting begins.idle
    · obtain ⟨m, rest, rfl⟩ := List.append_of_mem hu
      have ended := ended_of_after? happens (base.ended_since base.split.2 ends.ended)
      exact (begins.waiting.not_ended ended).elim

/-- Whenever the call looks at the wait, the waiter is the one that was registered. -/
theorem Transition.Enrolls.looks (enrolls : b.Enrolls c event timeout w) (hb : b ∈ ts)
    (run : Runs ts z) (hu : u ∈ ts) (own : u.action = .agent (.call n))
    (waiting : u.before.Waiting n ⟨c, w.serial⟩ token) :
    ∃ q, u.before.Awaits c q ∧ q.registered = w ∧ ∀ result,
      u.EndsWait n ⟨c, w.serial⟩ token result ↔ u.before.Tells token q result := by
  obtain ⟨since, before, rfl⟩ := List.append_of_mem hb
  obtain ⟨later, m, rfl⟩ := List.append_of_mem (enrolls.later run hu waiting.mem_handles)
  rw [List.append_assoc, List.cons_append] at run
  obtain ⟨earlier, happens⟩ := run.of_suffix (List.suffix_append later _)
  obtain ⟨q, awaits, serial, registered⟩ := enrolls.become earlier waiting.mem_handles
  refine ⟨q, awaits, registered, fun result => ?_⟩
  have found : u.before.system.waiter? ⟨c, w.serial⟩ = some q := by
    obtain ⟨r, hr, hq⟩ := awaits
    rw [← serial]
    exact waiter?_eq earlier.owned hr hq
  rw [own] at happens
  rw [← Session.tells_iff found, ← waiting.ends_iff happens]
  exact ⟨fun ends => ends.ended, fun ended => ⟨own, waiting, ended⟩⟩

/-- Whenever a wait begins on a waiter that was registered, it has this outcome. -/
theorem wait_outcome (run : Runs ts z) (hb : b ∈ ts) (enrolls : b.Enrolls c event timeout w)
    (hv : v ∈ ts) (begins : v.BeginsWait n ⟨c, w.serial⟩ token) :
    Outcome ts z b v c n event timeout w token := by
  obtain ⟨workspace, span, deadline⟩ := enrolls.waiter
  have looks : ∀ u ∈ ts, u.action = .agent (.call n) → u.before.Waiting n ⟨c, w.serial⟩ token →
      ∃ q, u.before.Awaits c q ∧ q.registered = w ∧ ∀ result,
        u.EndsWait n ⟨c, w.serial⟩ token result ↔ u.before.Tells token q result :=
    fun u hu own waiting => enrolls.looks hb run hu own waiting
  refine ⟨?order, ?stands, looks, ?timedOut, ?quiescent, ?gone⟩
  case order =>
    obtain ⟨since, before, rfl⟩ := List.append_of_mem hb
    exact enrolls.order run hv begins.waiting.mem_handles
  case stands =>
    obtain ⟨since, before, rfl⟩ := List.append_of_mem hv
    exact (run.stands run.split.2 begins.waiting).mono (List.subset_append_left _ _)
  case timedOut =>
    intro u hu workspace' span' ends
    obtain ⟨q, awaits, rfl, tells⟩ := looks u hu ends.call ends.waiting
    obtain ⟨rfl, rfl, passed⟩ : workspace' = q.workspace ∧ span' = q.timeout ∧
        q.deadline ≤ u.before.system.host.now := by
      cases (tells _).mp ends with
      | timedOut _ _ passed => exact ⟨rfl, rfl, passed⟩
    have due : q.deadline = b.before.system.host.now + timeout.ticks := deadline
    obtain ⟨since, before, rfl⟩ := List.append_of_mem hv
    obtain ⟨later, m, rfl⟩ := List.append_of_mem (ends.later run begins hu)
    rw [List.append_assoc, List.cons_append] at run
    have earlier : Runs (m ++ v :: before) u.before := run.split.1
    rw [← due]
    refine ⟨workspace, span, Nat.max_le.mpr ⟨earlier.now_from, passed⟩, fun punctual => ?_⟩
    refine earlier.looked_at begins (fun t ht => punctual t ?_) ends.waiting awaits rfl passed
    rw [List.append_assoc, List.cons_append]
    exact List.mem_append_right _ (List.mem_cons_of_mem u ht)
  case quiescent =>
    intro quiescent waiting
    obtain ⟨v', found, left⟩ :=
      System.left_of_waitResult? (waiting.waitResult?_eq_none run quiescent)
    obtain ⟨since, before, rfl⟩ := List.append_of_mem hb
    obtain ⟨q, ⟨r, hr, hq⟩, serial, rfl⟩ := enrolls.become run waiting.mem_handles
    obtain rfl := Option.some.inj ((waiter?_eq run.owned hr hq).symm.trans found)
    exact deadline ▸ left
  case gone =>
    intro u hu result ends
    obtain ⟨later, m, rfl⟩ := List.append_of_mem hu
    refine ⟨run.ended_since run.split.2 ends.ended, fun r hr e he same => ?_⟩
    obtain ⟨q, hq, -, rfl⟩ := (run.wellFormed hr).mem_entries.mp he
    exact run.unused_of_returns ends.returns hr hq same

/-- A wait for a millisecond and a half is registered; the latest action first. -/
def briefRegistered : List Action :=
  [.perform (.register "c" (creation none) "w"),
   .perform (.startCorrelator "c" ⟨"acks", "listener", some 3⟩ ⟨1500000⟩ (.ofMillis 500))]

/-- It begins a millisecond later, and goes on for another one; the latest action first. -/
def briefWaited : List Action :=
  [.tick 2, .agent (.call 0), .perform (.wait "w" none), .tick 1, .agent (.listener 0)] ++
    briefRegistered

def briefWaiter : Waiter := ⟨0, .own 0, "ws-1", 2, ⟨1500000⟩, .empty⟩

set_option maxRecDepth 100000 in
/-- The wait times out at the first tick of the clock that is not before its deadline. -/
theorem timed_out_at_deadline :
    let ts := (play (.agent (.call 0) :: briefWaited)).1
    let b := happening (.perform (.register "c" (creation none) "w")) briefRegistered.tail
    let v := happening (.perform (.wait "w" none)) (briefWaited.drop 3)
    let u := happening (.agent (.call 0)) briefWaited
    b ∈ ts ∧ b.Enrolls 0 (creation none) ⟨1500000⟩ briefWaiter ∧
      v ∈ ts ∧ v.BeginsWait 0 ⟨0, 0⟩ none ∧ (∀ u ∈ ts, u.isPunctual) ∧
      u.EndsWait 0 ⟨0, 0⟩ none (.failed (.timeout "ws-1" ⟨1500000⟩)) ∧
      u.before.system.host.now =
        max v.before.system.host.now (b.before.system.host.now + Duration.ticks ⟨1500000⟩) := by
  intro ts b v u
  have hb : b ∈ ts := happening_mem (.agent (.call 0) :: briefWaited.take 5) (by rfl)
  have hv : v ∈ ts := happening_mem (.agent (.call 0) :: briefWaited.take 2) (by rfl)
  have hu : u ∈ ts := happening_mem [] (by rfl)
  have begins : v.BeginsWait 0 ⟨0, 0⟩ none := by
    have idle : v.before.system.phase? 0 = none := by rfl
    refine ⟨?_, .inl (by rfl)⟩
    rintro (hφ | ⟨timer, hφ⟩)
    · cases idle.symm.trans hφ
    · cases idle.symm.trans hφ
  have enrolls : b.Enrolls 0 (creation none) ⟨1500000⟩ briefWaiter := by
    have started : b.before.system.correlators[0]?.map (fun co => (co.timeout, co.registry)) =
        some (⟨1500000⟩, ({} : WaitRegistry)) := by rfl
    obtain ⟨co, hc, same⟩ := Option.map_eq_some_iff.mp started
    obtain ⟨timeout, registry⟩ := Prod.mk.inj same
    let r : WaitRegistry := ⟨⟨1, [briefWaiter.entry], false⟩, [briefWaiter]⟩
    refine ⟨co, r, briefWaiter, hc, timeout, ?_, ⟨r, by rfl, List.mem_cons_self⟩, rfl⟩
    rw [registry]
    rfl
  have punctual : ∀ u ∈ ts, u.isPunctual := by
    have all : ts.all Transition.isPunctual = true := by rfl
    exact fun u hu => List.all_eq_true.mp all u hu
  have ends : u.EndsWait 0 ⟨0, 0⟩ none (.failed (.timeout "ws-1" ⟨1500000⟩)) :=
    ⟨rfl, .inr ⟨⟨2, 0⟩, by rfl⟩, by rfl⟩
  have outcome := wait_outcome (play_runs (.agent (.call 0) :: briefWaited)) hb enrolls hv begins
  obtain ⟨-, -, -, instant⟩ := outcome.timedOut u hu "ws-1" ⟨1500000⟩ ends
  exact ⟨hb, enrolls, hv, begins, punctual, ends, instant punctual⟩

end ChangeDispatch.Script
