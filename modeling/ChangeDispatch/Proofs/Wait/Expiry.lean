import ChangeDispatch.Proofs.Wait.Custody
import ChangeDispatch.Proofs.Wait.Waiting

/-!
# Waits whose deadline has passed

An acknowledgment goes to the entry that it belongs to, whenever the wait of the entry was to
end. Where the clock is punctual, a wait that is under way is over at its deadline, and its
entry is gone then. But the deadline runs from the registration, and nobody looks at it as long
as the handle lies with the caller, or with a call that still has to bring its event: such a
wait gets acknowledgments after its deadline, also in place of one that has time left. No more
is claimed of these than when it happens.
-/
namespace ChangeDispatch

/-- The acknowledgment is one for the request, or for the workspace, of an entry. -/
def AckEvent.Answers (ack : AckEvent) (e : PendingEntry) : Prop :=
  match ack.event.requestId with
  | some id => e.key = .request id
  | none => e.workspace = ack.workspace

namespace WaitRegistry

variable {r : WaitRegistry} {ack : AckEvent} {now : Nat} {w : Waiter}

/-- The waiter that an acknowledgment is meant for: the first that was registered, of those that
it answers and whose deadline has not passed. -/
structure Meant (r : WaitRegistry) (now : Nat) (ack : AckEvent) (w : Waiter) : Prop where
  mem : w ∈ r.waiters
  pending : w.isPending
  answers : ack.Answers w.entry
  inTime : now ≤ w.deadline
  first : ∀ v ∈ r.waiters, v.isPending → ack.Answers v.entry → now ≤ v.deadline →
    w.serial ≤ v.serial

/-- An acknowledgment belongs to the first entry that it answers. -/
theorem WellFormed.belongs_iff (wf : r.WellFormed) (hw : w ∈ r.waiters) (pending : w.isPending) :
    r.table.Belongs ack w.entry ↔
      ack.Answers w.entry ∧
        ∀ v ∈ r.waiters, v.isPending → ack.Answers v.entry → w.serial ≤ v.serial := by
  unfold PendingTable.Belongs AckEvent.Answers
  cases ack.event.requestId with
  | some id =>
    refine ⟨fun key => ⟨key, fun v hv pv same => ?_⟩, And.left⟩
    have other : w.key = v.key := Eq.trans (show w.key = .request id from key) (Eq.symm same)
    exact Nat.le_of_eq (congrArg Waiter.serial (wf.eq_of_key hw hv pending pv other))
  | none =>
    refine and_congr_right fun _ => ⟨fun first v hv pv same => ?_, fun first e he same => ?_⟩
    · exact first v.entry (wf.mem_entries.mpr ⟨v, hv, pv, rfl⟩) same
    · obtain ⟨v, hv, pv, rfl⟩ := wf.mem_entries.mp he
      exact first v hv pv same

/-- An acknowledgment that is not taken answers no entry. -/
theorem WellFormed.unanswered (wf : r.WellFormed) (unmatched : r.offer ack = (.unmatched, r))
    (hw : w ∈ r.waiters) (pending : w.isPending) : ¬ack.Answers w.entry := by
  intro answers
  have listed : w.entry ∈ r.table.entries := wf.mem_entries.mpr ⟨w, hw, pending, rfl⟩
  have found : ∀ key, r.table.matchKey? ack = some key → r.table.find? key = none := by
    intro key hk
    unfold WaitRegistry.offer PendingTable.takeMatch at unmatched
    rw [hk] at unmatched
    dsimp only [PendingTable.remove] at unmatched
    cases hf : r.table.find? key with
    | none => rfl
    | some e =>
      rw [hf] at unmatched
      dsimp only at unmatched
      split at unmatched <;> cases (Prod.mk.inj unmatched).1
  unfold AckEvent.Answers at answers
  unfold PendingTable.matchKey? at found
  cases hid : ack.event.requestId with
  | some id =>
    rw [hid] at answers found
    exact absurd (found _ rfl) (by rw [wf.find?_eq_some.mpr ⟨listed, answers⟩]; simp)
  | none =>
    rw [hid] at answers found
    dsimp only at answers found
    cases he : PendingTable.earliest
        (r.table.entries.filter fun e => e.workspace == ack.workspace) with
    | none =>
      have none := PendingTable.earliest_eq_none he
      have other := List.filter_eq_nil_iff.mp none w.entry listed
      exact absurd (beq_iff_eq.mpr answers) other
    | some e =>
      have mem := (List.mem_filter.mp (PendingTable.earliest_eq_some he).1).1
      rw [he] at found
      exact absurd (found _ rfl) (by rw [wf.find?_eq_some.mpr ⟨mem, rfl⟩]; simp)

end WaitRegistry

namespace Script

variable {ts before : List Transition} {x y z : Session} {a : Action} {t : Transition}
  {c n : Nat} {r : WaitRegistry} {w : Waiter} {d : Delivery} {ack : AckEvent}
  {handle : WaitHandle} {token : Option Nat} {timer : Timer}

/-! ## Where an acknowledgment goes -/

/-- The listener hands a delivery back to the broker, for another offer after the delay. -/
def Transition.HandsBack (t : Transition) (c : Nat) (d : Delivery) : Prop :=
  ∃ co k, t.before.system.correlators[c]? = some co ∧
    t.before.system.host.take? co.subscription = some (d, k) ∧
    t.after.system.host = Correlator.handBack k co d

/-- An acknowledgment goes by the deadlines: to the waiter that it is meant for, or back to the
broker if there is none. -/
def Transition.GoesByDeadlines (t : Transition) (c : Nat) (d : Delivery) (ack : AckEvent) : Prop :=
  ∃ r, t.before.registry? c = some r ∧
    ((∃ w, r.Meant t.before.system.host.now ack w ∧ t.Hands c w d ack) ∨
      (∀ w, ¬r.Meant t.before.system.host.now ack w) ∧ (∀ w, ¬t.Hands c w d ack) ∧
        t.HandsBack c d)

/-- An acknowledgment goes to the waiter of the entry that it belongs to, or back. -/
theorem Transition.Delivers.goes (run : Runs ts x) (h : x.after? a = some y)
    (delivers : (⟨x, a, y⟩ : Transition).Delivers c d ack) :
    ∃ r, x.registry? c = some r ∧
      ((∃ w ∈ r.waiters, w.isPending ∧ r.table.Belongs ack w.entry ∧
          (⟨x, a, y⟩ : Transition).Hands c w d ack) ∨
        (∀ w ∈ r.waiters, w.isPending → ¬ack.Answers w.entry) ∧
          (⟨x, a, y⟩ : Transition).HandsBack c d) := by
  obtain ⟨co, k, hc, received, decoded, host, -⟩ := delivers.processed h
  have hr : x.registry? c = some co.registry := System.getElem?_registries hc
  have wf := run.wellFormed hr
  refine ⟨co.registry, hr, ?_⟩
  rcases wf.offer_cases ack with unmatched | ⟨w, hw, pending, belongs, taken⟩
  · refine .inr ⟨fun w hw pending => wf.unanswered unmatched hw pending, co, k, hc, received, ?_⟩
    rw [host, Correlator.process_unmatched k decoded unmatched]
  · exact .inl ⟨w, hw, pending, belongs, (delivers.taken h hr hw pending taken).1⟩

/-- The deadlines are kept exactly if the entry that the acknowledgment belongs to has time left. -/
theorem Transition.Delivers.goesByDeadlines_iff (run : Runs ts x) (h : x.after? a = some y)
    (delivers : (⟨x, a, y⟩ : Transition).Delivers c d ack) (hr : x.registry? c = some r) :
    (⟨x, a, y⟩ : Transition).GoesByDeadlines c d ack ↔
      ∀ w ∈ r.waiters, w.isPending → r.table.Belongs ack w.entry →
        x.system.host.now ≤ w.deadline := by
  have wf := run.wellFormed hr
  obtain ⟨r', hr', goes⟩ := delivers.goes run h
  obtain rfl := Option.some.inj (hr.symm.trans hr')
  constructor
  · rintro ⟨q, hq, kept⟩ w hw pending belongs
    obtain rfl := Option.some.inj (hr.symm.trans hq)
    rcases goes with ⟨v, hv, pv, bv, hands⟩ | ⟨nobody, -⟩
    · obtain rfl := bv.unique wf hv hw pv pending belongs
      rcases kept with ⟨u, meant, hands'⟩ | ⟨-, none, -⟩
      · rw [← (hands'.unique run h hands).1]
        exact meant.inTime
      · exact absurd hands (none v)
    · exact absurd ((wf.belongs_iff hw pending).mp belongs).1 (nobody w hw pending)
  · intro inTime
    refine ⟨r, hr, ?_⟩
    rcases goes with ⟨w, hw, pending, belongs, hands⟩ | ⟨nobody, back⟩
    · obtain ⟨answers, first⟩ := (wf.belongs_iff hw pending).mp belongs
      exact .inl ⟨w, ⟨hw, pending, answers, inTime w hw pending belongs,
        fun v hv pv same _ => first v hv pv same⟩, hands⟩
    · refine .inr ⟨fun w meant => nobody w meant.mem meant.pending meant.answers,
        fun w hands => ?_, back⟩
      obtain ⟨q, hq, hw, pending, belongs⟩ := hands.belongs run h
      obtain rfl := Option.some.inj (hr.symm.trans hq)
      exact nobody w hw pending ((wf.belongs_iff hw pending).mp belongs).1

/-! ## Waits that are under way -/

theorem Session.waiting_effect (h : Effect x y)
    (hφ : y.system.phase? n = some (.waiting handle token timer)) :
    x.system.phase? n = some (.waiting handle token timer) := by
  have same : y.system.calls = x.system.calls →
      x.system.phase? n = some (.waiting handle token timer) := by
    intro calls
    unfold System.phase? at hφ ⊢
    rwa [← calls]
  have added : ∀ call : Call, y.system.calls = x.system.calls ++ [call] →
      call.phase ≠ .waiting handle token timer →
      x.system.phase? n = some (.waiting handle token timer) := by
    intro call calls other
    unfold System.phase? at hφ ⊢
    rw [calls] at hφ
    obtain ⟨call', hc, phase⟩ := Option.map_eq_some_iff.mp hφ
    rcases getElem?_concat_cases hc with old | ⟨-, rfl⟩
    · rw [old]
      exact congrArg some phase
    · exact absurd phase other
  cases h with
  | @called owner φ starts =>
    refine added ⟨owner, φ⟩ rfl ?_
    rintro rfl
    rcases starts with bare | ⟨_, _, other⟩
    · cases bare
    · cases other
  | @waited _ handle' token' _ => exact added ⟨.none, .awaiting handle' token'⟩ rfl (by simp)
  | @registered c _ _ _ r id v _ _ hv =>
    subst hv
    let z := x.onSystem (·.adjustCorrelator c fun co => { co with registry := r })
    exact same (z.upToRegistries_dropWaiter id).calls
  | droppedWaiter id => exact same (x.upToRegistries_dropWaiter id).calls
  | @aborted m call hm _ _ =>
    have calls : ((x.system.forsake m call.phase).setPhase m .aborted).calls =
        x.system.calls.modify m fun c => { c with phase := .aborted } :=
      congrArg (List.modify · m _) (System.UpToRegistries.forsake x.system m call.phase).calls
    change ((x.system.forsake m call.phase).setPhase m .aborted).phase? n = _ at hφ
    rw [phase?_of_modify calls] at hφ
    split at hφ
    · obtain ⟨_, -, other⟩ := Option.map_eq_some_iff.mp hφ
      cases other
    · exact hφ
  | _ => exact same rfl

/-- A call that waits for its timer did so before, or it has just set the timer to the deadline. -/
theorem Session.waiting_cases (h : x.after? a = some y)
    (hφ : y.system.phase? n = some (.waiting handle token timer)) :
    x.system.phase? n = some (.waiting handle token timer) ∨
      x.system.phase? n = some (.awaiting handle token) ∧
        x.system.waitResult? handle token = none ∧
        timer.due = x.system.host.now +
          ((x.system.waiter? handle).elim 0 Waiter.deadline - x.system.host.now) ∧
        y.system.registries = x.system.registries ∧
        y.system.host.now = x.system.host.now := by
  have kept : ∀ {t : System}, t.calls = x.system.calls →
      t.phase? n = some (.waiting handle token timer) →
      x.system.phase? n = some (.waiting handle token timer) := by
    intro t calls hφ
    unfold System.phase? at hφ ⊢
    rwa [← calls]
  cases moves_of_after? h with
  | performed _ hp =>
    obtain ⟨u, hu, he⟩ := hp
    refine .inl (Session.waiting_effect hu ?_)
    unfold System.phase? at hφ ⊢
    rwa [← he.calls]
  | injected _ _ => exact .inl hφ
  | passed _ => exact .inl hφ
  | @stepped agent t hs =>
    cases agent with
    | worker i =>
      obtain ⟨p, q, host, q', w, -, -, -, rfl⟩ := Agent.step?_worker hs
      exact .inl (kept rfl hφ)
    | listener c =>
      obtain ⟨co, host, co', -, -, rfl⟩ := Agent.step?_listener hs
      exact .inl (kept rfl hφ)
    | consumer i =>
      obtain ⟨k, host, k', -, -, rfl⟩ := Agent.step?_consumer hs
      exact .inl (kept rfl hφ)
    | redelivery i serial =>
      obtain ⟨entry, -, -, rfl⟩ := Agent.step?_redelivery hs
      exact .inl (kept rfl hφ)
    | call m =>
      obtain ⟨φ, hm, u, ψ, step, quiet⟩ := System.callSteps_of_stepCall? hs
      have after : t.calls = x.system.calls.modify m fun c => { c with phase := ψ } :=
        quiet.calls.trans (congrArg (List.modify · m _) step.calls_eq)
      dsimp only at hφ
      rw [phase?_of_modify after] at hφ
      split at hφ
      next same =>
        subst same
        rw [hm] at hφ
        have hψ : ψ = .waiting handle token timer := Option.some.inj hφ
        cases step with
        | moved _ ends =>
          subst hψ
          rcases ends with bare | ⟨_, other⟩
          · cases bare
          · cases other
        | registered _ _ ends =>
          subst hψ
          rcases ends with ⟨_, -, other⟩ | ⟨_, -, other⟩ <;> cases other
        | @accepted _ _ next _ _ _ _ _ => cases next <;> cases hψ
        | @collected _ _ next _ _ _ _ => cases next <;> cases hψ
        | waited none due =>
          cases hψ
          exact .inr ⟨hm, none, due, quiet.registries, quiet.now⟩
        | _ => cases hψ
      next => exact .inl hφ

/-- A wait goes on only while its deadline is still to come. -/
theorem System.left_of_waitResult? {s : System} (none : s.waitResult? handle token = none) :
    ∃ w, s.waiter? handle = some w ∧ s.host.now < w.deadline := by
  unfold System.waitResult? at none
  split at none
  · cases none
  next w found =>
    refine ⟨w, found, ?_⟩
    split at none
    · cases none
    · cases none
    · split at none
      · cases none
      · split at none
        · cases none
        next left => exact Nat.lt_of_not_le left

/-- The timer of a wait that is under way is due at the deadline, and the clock has not passed
it. -/
def Session.Timely (x : Session) : Prop :=
  ∀ n handle token timer, x.system.phase? n = some (.waiting handle token timer) →
    x.system.host.now ≤ timer.due ∧
      ∀ r, x.registry? handle.correlator = some r → ∀ w ∈ r.waiters, w.serial = handle.serial →
        timer.due = w.deadline

theorem Session.Timely.next (run : Runs ts x) (h : x.after? a = some y)
    (punctual : (⟨x, a, y⟩ : Transition).isPunctual) (timely : x.Timely) : y.Timely := by
  intro n handle token timer hφ
  rcases Session.waiting_cases h hφ with before | 
      ⟨before, none, due, registries, now⟩
  · obtain ⟨left, within⟩ := timely n handle token timer before
    refine ⟨?_, fun s hs w hw serial => ?_⟩
    · by_cases ticks : ∃ moment, a = .tick moment
      · -- the clock does not move past the timer that the call waits for
        obtain ⟨moment, rfl⟩ := ticks
        obtain ⟨call, hcall, phase⟩ := Option.map_eq_some_iff.mp before
        have listed : Agent.call n ∈ x.system.agents := List.mem_append_left _
          (run.covers n (List.getElem?_eq_some_iff.mp hcall).1)
        have waits : (Agent.call n).timer? x.system = some timer := by
          change x.system.callTimer? n = some timer
          unfold System.callTimer?
          rw [System.stepCall?_of_phase before]
        obtain rfl := Session.after?_tick h
        exact (System.isPunctual_iff.mp punctual).2 _ listed timer waits
      · rw [now_of_after? h fun moment tick => ticks ⟨moment, tick⟩]
        exact left
    · obtain ⟨r, hr, v, hv, same⟩ := run.owned.exists_waiter (Session.mem_handles before rfl)
      have wf := run.wellFormed hr
      obtain ⟨s', hs', descends⟩ := run.registry_next h hr
      obtain rfl := Option.some.inj (hs.symm.trans hs')
      rcases descends.waiters w hw with ⟨u, hu, registered, -⟩ | new
      · rw [← (Waiter.of_registered registered).2.2]
        exact within r hr u hu ((Waiter.of_registered registered).1.trans serial)
      · have := wf.fresh v hv
        omega
  · obtain ⟨v, found, left⟩ := System.left_of_waitResult? none
    rw [found, Option.elim_some] at due
    refine ⟨by omega, fun s hs w hw serial => ?_⟩
    unfold Session.registry? at hs
    rw [registries] at hs
    have same := waiter?_eq run.owned hs hw
    rw [serial, found] at same
    obtain rfl := Option.some.inj same
    omega

/-- Where the clock is punctual, no wait that is under way has passed its deadline. -/
theorem Runs.timely (run : Runs ts z) (punctual : ∀ u ∈ ts, u.isPunctual) : z.Timely := by
  induction run with
  | start => exact fun n _ _ _ hφ => (nomatch hφ)
  | next run h ih =>
    exact (ih fun u hu => punctual u (List.mem_cons_of_mem _ hu)).next run h
      (punctual _ List.mem_cons_self)

/-- The wait on a handle has not been looked at yet: the caller has the handle, or a call that
still brings its event, or one that is about to look at the slot for the first time. -/
inductive Session.Unpolled (x : Session) (handle : WaitHandle) : Prop where
  | kept : handle ∈ x.waiters.map Prod.snd → Unpolled x handle
  | bringing (n queue : Nat) (event : ChangeEvent) :
      x.system.phase? n = some (.enqueuing queue event (some handle)) → Unpolled x handle
  | inLine (n queue : Nat) (event : ChangeEvent) (timer : Timer) :
      x.system.phase? n = some (.inLine queue event timer (some handle)) → Unpolled x handle
  | awaiting (n : Nat) (token : Option Nat) :
      x.system.phase? n = some (.awaiting handle token) → Unpolled x handle

/-- A waiter in use is waited on by a call, or nobody has looked at it yet. -/
theorem Runs.unpolled_or_waiting (run : Runs ts z) (hr : z.registry? c = some r)
    (hw : w ∈ r.waiters) :
    z.Unpolled ⟨c, w.serial⟩ ∨
      ∃ n token timer, z.system.phase? n = some (.waiting ⟨c, w.serial⟩ token timer) := by
  rcases Session.mem_handles_iff.mp (run.held (Session.inUse_of_mem hr hw)) with own | byCall
  · exact .inl (.kept own)
  · obtain ⟨call, hcall, holds⟩ := List.mem_filterMap.mp byCall
    obtain ⟨n, hn⟩ := List.mem_iff_getElem?.mp hcall
    have phase : z.system.phase? n = some call.phase := by
      unfold System.phase?
      rw [hn]
      rfl
    cases hφ : call.phase with
    | enqueuing queue event next =>
      rw [hφ] at holds phase
      obtain rfl : next = some ⟨c, w.serial⟩ := holds
      exact .inl (.bringing n queue event phase)
    | inLine queue event timer next =>
      rw [hφ] at holds phase
      obtain rfl : next = some ⟨c, w.serial⟩ := holds
      exact .inl (.inLine n queue event timer phase)
    | awaiting handle token =>
      rw [hφ] at holds phase
      obtain rfl := Option.some.inj holds
      exact .inl (.awaiting n token phase)
    | waiting handle token timer =>
      rw [hφ] at holds phase
      obtain rfl := Option.some.inj holds
      exact .inr ⟨n, token, timer, phase⟩
    | _ => rw [hφ] at holds; cases holds

/-! ## Acknowledgments after the deadline -/

/-- What an acknowledgment finds that belongs to the entry of a wait whose deadline has passed:
it is handed to the waiter all the same. The wait was registered in the run, to last for the
timeout, and if the clock has been punctual nobody has looked at it yet. -/
structure Transition.Overdue (ts : List Transition) (t : Transition) (c : Nat) (d : Delivery)
    (ack : AckEvent) (w : Waiter) : Prop where
  hands : t.Hands c w d ack
  begun : ∃ u ∈ ts, u.Begins c w ∧ ∃ co, u.before.system.correlators[c]? = some co ∧
    w.deadline = u.before.system.host.now + co.timeout.ticks
  unpolled : (∀ u ∈ ts, u.isPunctual) → t.before.Unpolled ⟨c, w.serial⟩

/-- An acknowledgment goes by the deadlines exactly if the deadline of the wait that it belongs to
has not passed; and it passes with the entry still there only where nobody has looked at the wait
since the registration. -/
theorem acknowledgment_goes_by_deadlines_iff (run : Runs ts z) (ht : t ∈ ts)
    (delivers : t.Delivers c d ack) (hr : t.before.registry? c = some r) :
    (t.GoesByDeadlines c d ack ↔
      ∀ w ∈ r.waiters, w.isPending → r.table.Belongs ack w.entry →
        t.before.system.host.now ≤ w.deadline) ∧
    ∀ w ∈ r.waiters, w.isPending → r.table.Belongs ack w.entry →
      w.deadline < t.before.system.host.now → t.Overdue ts c d ack w := by
  obtain ⟨later, before, rfl⟩ := List.append_of_mem ht
  obtain ⟨x, a, y⟩ := t
  obtain ⟨earlier, happens⟩ := run.of_suffix (List.suffix_append later _)
  dsimp only at earlier happens hr ⊢
  have wf := earlier.wellFormed hr
  refine ⟨delivers.goesByDeadlines_iff earlier happens hr,
    fun w hw pending belongs passed => ⟨?_, ?_, fun punctual => ?_⟩⟩
  · obtain ⟨r', hr', goes⟩ := delivers.goes earlier happens
    obtain rfl := Option.some.inj (hr.symm.trans hr')
    rcases goes with ⟨v, hv, pv, bv, hands⟩ | ⟨nobody, -⟩
    · obtain rfl := bv.unique wf hv hw pv pending belongs
      exact hands
    · exact absurd ((wf.belongs_iff hw pending).mp belongs).1 (nobody w hw pending)
  · obtain ⟨u, hu, begins⟩ := earlier.begun hr hw
    rw [Waiter.registered_of_pending pending] at begins
    obtain ⟨co, event, q, hc, registered⟩ := begins
    refine ⟨u, ?_, ⟨co, event, q, hc, registered⟩, co, hc, ?_⟩
    · exact List.mem_append_right _ (List.mem_cons_of_mem _ hu)
    · exact WaitRegistry.deadline_register registered
  · refine (earlier.unpolled_or_waiting hr hw).resolve_right ?_
    rintro ⟨n, token, timer, waiting⟩
    have before := earlier.timely fun u hu =>
      punctual u (List.mem_append_right _ (List.mem_cons_of_mem _ hu))
    obtain ⟨left, within⟩ := before n _ token timer waiting
    have := within r hr w hw rfl
    omega

/-- An acknowledgment without a request. -/
def plainAnswer : AckEvent := { event := creation none, status := .created }

def plainOffer : Delivery := ⟨0, AckEvent.write plainAnswer, 1⟩

/-- The first of two waiters for the workspace is not waited on in time; the latest action first. -/
def outlived : List Action :=
  [.perform (.inject "acks" (AckEvent.write plainAnswer)),
   .perform (.register "c" (creation none) "second"), .tick 2000, .agent (.listener 0),
   .perform (.register "c" (creation none) "first"),
   .perform (.startCorrelator "c" ⟨"acks", "listener", some 3⟩ (.ofMillis 1000) (.ofMillis 500))]

def plainWaiter (serial deadline : Nat) : Waiter :=
  ⟨serial, .own serial, "ws-1", deadline, .ofMillis 1000, .empty⟩

def plainRegistry : WaitRegistry :=
  ⟨⟨2, [(plainWaiter 0 1000).entry, (plainWaiter 1 3000).entry], false⟩,
    [plainWaiter 0 1000, plainWaiter 1 3000]⟩

set_option maxRecDepth 100000 in
/-- The acknowledgment is meant for the second waiter, and the first gets it, a second after its
deadline. -/
theorem overdue_waiter_answered :
    let ts := (play (.agent (.listener 0) :: outlived)).1
    let t := happening (.agent (.listener 0)) outlived
    t ∈ ts ∧ t.Delivers 0 plainOffer plainAnswer ∧ t.before.registry? 0 = some plainRegistry ∧
      plainRegistry.Meant t.before.system.host.now plainAnswer (plainWaiter 1 3000) ∧
      t.Overdue ts 0 plainOffer plainAnswer (plainWaiter 0 1000) ∧
      ¬t.GoesByDeadlines 0 plainOffer plainAnswer := by
  intro ts t
  have facts : ((play outlived).2.after? (.agent (.listener 0))).isSome ∧
      (t.before.system.correlators[0]?.map fun co =>
        (co.phase, co.stopping, co.subscription)) = some (.waiting, false, 0) ∧
      (t.before.system.host.take? 0).map Prod.fst = some plainOffer ∧
      AckEvent.ofPayload plainOffer.payload = .ok plainAnswer ∧
      t.before.registry? 0 = some plainRegistry ∧ t.before.system.host.now = 2000 := by
    decide +kernel
  obtain ⟨happens, ready, offered, decoded, hr, now⟩ := facts
  have ht : t ∈ ts := happening_mem [] happens
  have delivers : t.Delivers 0 plainOffer plainAnswer := by
    obtain ⟨co, hc, same⟩ := Option.map_eq_some_iff.mp ready
    obtain ⟨phase, stopping, subscription⟩ : co.phase = .waiting ∧ co.stopping = false ∧
      co.subscription = 0 := by simpa using same
    obtain ⟨⟨d, k⟩, received, rfl⟩ := Option.map_eq_some_iff.mp offered
    exact ⟨rfl, co, k, hc, phase, stopping, subscription ▸ received, decoded⟩
  obtain ⟨kept, overdue⟩ := acknowledgment_goes_by_deadlines_iff
    (play_runs (.agent (.listener 0) :: outlived)) ht delivers hr
  have belongs : plainRegistry.table.Belongs plainAnswer (plainWaiter 0 1000).entry :=
    ⟨rfl, by decide⟩
  have late := overdue (plainWaiter 0 1000) (by decide) rfl belongs (now ▸ by decide)
  refine ⟨ht, delivers, hr, ⟨by decide, rfl, rfl, now ▸ by decide, ?_⟩, late, fun goes => ?_⟩
  · intro v hv _ _ inTime
    rw [now] at inTime
    rcases List.mem_cons.mp hv with rfl | hv
    · exact absurd inTime (by decide)
    · exact Nat.le_of_eq (congrArg Waiter.serial (List.mem_singleton.mp hv)).symm
  · have inTime := kept.mp goes (plainWaiter 0 1000) (by decide) rfl belongs
    rw [now] at inTime
    exact absurd inTime (by decide)

end Script

end ChangeDispatch
