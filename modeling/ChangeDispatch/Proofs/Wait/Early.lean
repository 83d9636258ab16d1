import ChangeDispatch.Proofs.Wait.Waiting

/-!
# Acknowledgments that come before their waits

An acknowledgment that nobody waits for yet is offered again, at distances that are short
enough: for a wait that is registered while an offer is left, the next one comes before the
deadline. So the wait is answered in time. It gets the early acknowledgment, which is acked
once, unless the waiter was handed another one for the same request before.
-/
namespace ChangeDispatch

/-! ## The distance between offers -/

namespace DispatchConfig

variable {config : DispatchConfig} {n : Nat}

theorem unmatchedAckDelay_le (whole : config.ackTimeout = .ofSeconds n) :
    config.unmatchedAckDelay.ticks ≤ n * 1000 := by
  have part : n * 1000000000 / max (config.ackMaxDeliveries - 1) 1 ≤ n * 1000000000 :=
    Nat.div_le_self _ _
  unfold unmatchedAckDelay Duration.part
  rw [whole]
  change (n * 1000000000 / max (config.ackMaxDeliveries - 1) 1 + (1000000 - 1)) / 1000000 ≤ _
  omega

theorem unmatchedAckDelay_lt (whole : config.ackTimeout = .ofSeconds n) (pos : 1 ≤ n)
    (three : 3 ≤ config.ackMaxDeliveries) : config.unmatchedAckDelay.ticks < n * 1000 := by
  have part : n * 1000000000 / max (config.ackMaxDeliveries - 1) 1 ≤ n * 1000000000 / 2 :=
    Nat.div_le_div_left (by omega) (by decide)
  unfold unmatchedAckDelay Duration.part
  rw [whole]
  change (n * 1000000000 / max (config.ackMaxDeliveries - 1) 1 + (1000000 - 1)) / 1000000 < _
  omega

/-- The first offer after a moment comes before the timeout that begins at that moment. -/
theorem offer_before_timeout (whole : config.ackTimeout = .ofSeconds n) (pos : 1 ≤ n)
    {start moment k : Nat} (more : k + 1 < config.ackMaxDeliveries) (later : start < moment)
    (since : start + k * config.unmatchedAckDelay.ticks ≤ moment) :
    start + (k + 1) * config.unmatchedAckDelay.ticks < moment + config.ackTimeout.ticks := by
  have le := unmatchedAckDelay_le whole
  rw [whole, Duration.ticks_ofSeconds, Nat.succ_mul]
  cases k with
  | zero => omega
  | succ k =>
    have lt := unmatchedAckDelay_lt whole pos (by omega)
    omega

end DispatchConfig

namespace Script

variable {ts since before : List Transition} {x y z : Session} {a : Action} {t u : Transition}
  {c n : Nat} {w : Waiter} {d e : Delivery} {ack : AckEvent} {id : RequestId} {due : Nat}
  {token : Option Nat} {handle : WaitHandle}

/-! ## What a wait gets -/

/-- The transition registers waiter `w` for the acknowledgment of an event. -/
def Transition.Registers (t : Transition) (c : Nat) (event : ChangeEvent) (w : Waiter) : Prop :=
  ∃ co r, t.before.system.correlators[c]? = some co ∧
    co.registry.register event t.before.system.host.now co.timeout = .ok (w, r) ∧
    t.after.Awaits c w

/-- No waiter for the request but `w` is in use before the transition. -/
def Transition.Alone (t : Transition) (c : Nat) (id : RequestId) (w : Waiter) : Prop :=
  ∀ r, t.before.registry? c = some r → ∀ v ∈ r.waiters, v.key = .request id → v.serial = w.serial

instance Transition.decidableAlone (t : Transition) (c : Nat) (id : RequestId) (w : Waiter) :
    Decidable (t.Alone c id w) :=
  decidable_of_iff
    ((t.before.registry? c).all fun r =>
      r.waiters.all fun v => decide (v.key = .request id → v.serial = w.serial))
    (by simp [Transition.Alone, Option.all_eq_true, imp_iff_not_or])

/-- Transition `t` has registered waiter `w` for a request, and an offer of the acknowledgment
of the request is to come before the deadline. In the transitions since then nothing hinders
the wait. -/
structure Expecting (since : List Transition) (t : Transition) (c : Nat) (id : RequestId)
    (w : Waiter) (token : Option Nat) (ack : AckEvent) (d : Delivery) (due : Nat) : Prop where
  new : ∀ r, t.before.registry? c = some r → w.serial = r.table.nextSerial
  pending : w.isPending
  key : w.key = .request id
  awaits : t.after.Awaits c w
  decoded : AckEvent.ofPayload d.payload = .ok ack
  request : ack.event.requestId = some id
  scheduled : t.after.Scheduled c d due
  early : due < w.deadline
  serves : t.after.serves c
  undisturbed : ∀ v ∈ since, v.Undisturbed c
  alone : ∀ v ∈ since ++ [t], v.Alone c id w
  uncancelled : ∀ v ∈ since, v.before.system.tokenFired token = false

namespace Expecting

theorem of_suffix (later : List Transition)
    (h : Expecting (later ++ since) t c id w token ack d due) :
    Expecting since t c id w token ack d due :=
  { h with
    undisturbed := fun v hv => h.undisturbed v (List.mem_append_right _ hv)
    alone := fun v hv => h.alone v (List.append_assoc later since [t] ▸ List.mem_append_right _ hv)
    uncancelled := fun v hv => h.uncancelled v (List.mem_append_right _ hv) }

variable (h : Expecting since t c id w token ack d due) (run : Runs (since ++ t :: before) z)
include h run

theorem serves_now : z.serves c := by
  cases since with
  | nil =>
    obtain rfl := run.split.2.unique run
    exact h.serves
  | cons v since =>
    cases run with
    | next _ _ => exact (h.undisturbed _ List.mem_cons_self).serves

/-- A waiter that is in use and has the number of `w` is `w`, or was `w` when it was pending. -/
theorem registered {r : WaitRegistry} (hr : z.registry? c = some r) {v : Waiter}
    (hv : v ∈ r.waiters) (same : v.serial = w.serial) : v.registered = w := by
  rw [run.registered_since run.split.2 h.awaits ⟨r, hr, hv⟩ same]
  exact Waiter.registered_of_pending h.pending

/-- The waiter is not displaced. -/
theorem not_displaced : ¬∃ u ∈ since ++ t :: before, u.Displaces ⟨c, w.serial⟩ := by
  rintro ⟨u, hu, displaces⟩
  have base := run.split.1
  have old : u ∉ before := by
    intro hu
    obtain ⟨r, hr, known⟩ := base.recorded.known u hu _ displaces
    rw [h.new r hr] at known
    exact Nat.lt_irrefl _ known
  have mem : u ∈ since ++ [t] := by
    rcases List.mem_append.mp hu with hu | hu
    · exact List.mem_append_left _ hu
    · rcases List.mem_cons.mp hu with rfl | hu
      · exact List.mem_append_right _ List.mem_cons_self
      · exact absurd hu old
  obtain ⟨r, s, v, hr, hs, hv, serial, -, v', hv', key, gone⟩ := displaces
  obtain ⟨later, m, rfl, run'⟩ := run.cut mem
  have same : v.key = .request id := by
    have registered := (h.of_suffix later).registered run' hs hv serial
    rw [← h.key, ← registered]
    rfl
  -- the one that was let go of is under the same key, so it would be `w` itself
  have alone := h.alone u mem r hr v' hv' (key.trans same)
  refine gone (WaitRegistry.mem_serials.mpr ⟨v, hv, ?_⟩)
  rw [alone]
  exact serial

/-- The slot of a waiter on which a call waits is empty, or it holds an acknowledgment. -/
theorem slot_cases (waiting : z.Waiting n ⟨c, w.serial⟩ token) :
    ∃ r v, z.registry? c = some r ∧ v ∈ r.waiters ∧ v.serial = w.serial ∧
      (v = w ∨ ∃ other, v.slot = .filled other) := by
  obtain ⟨r, hr, v, hv, serial⟩ := run.owned.exists_waiter waiting.mem_handles
  refine ⟨r, v, hr, hv, serial, ?_⟩
  have registered := h.registered run hr hv serial
  cases slot : v.slot with
  | empty =>
    left
    rw [← registered, Waiter.registered_of_pending (Waiter.isPending_iff.mpr slot)]
  | filled other => exact .inr ⟨other, rfl⟩
  | closed =>
    have isOpen : r.table.closed = false := by
      have serves := h.serves_now run
      unfold Session.serves at serves
      obtain ⟨co, hc, rfl⟩ := Option.map_eq_some_iff.mp (List.getElem?_map.symm.trans hr)
      rw [hc] at serves
      simpa using (Bool.and_eq_true_iff.mp serves).2
    have displaced := (run.recorded.closed c r hr isOpen v hv).mp slot
    rw [serial] at displaced
    exact absurd displaced (h.not_displaced run)

/-- Who hands something to the number of `w` hands it to `w`, after the registration. -/
theorem handed {v : Waiter} {other : AckEvent} (hu : u ∈ since ++ t :: before)
    (hands : u.Hands c v e other) (same : v.serial = w.serial) : u ∈ since ∧ v = w := by
  have base := run.split.1
  obtain ⟨us, earlier, happens⟩ := run.made hu
  obtain ⟨r, hr, hv, pending, -⟩ := hands.belongs earlier happens
  have mem : u ∈ since := by
    rcases List.mem_append.mp hu with hu | hu
    · exact hu
    · rcases List.mem_cons.mp hu with rfl | hu
      · have := (base.wellFormed hr).fresh v hv
        have := h.new r hr
        omega
      · obtain ⟨r, hr, known, -⟩ := base.filled.spent u hu c v e other hands
        have := h.new r hr
        omega
  refine ⟨mem, ?_⟩
  obtain ⟨later, m, rfl⟩ := List.append_of_mem mem
  rw [List.append_assoc] at run
  have h' : Expecting m t c id w token ack d due :=
    of_suffix (later ++ [u]) (by simpa using h)
  have registered := h'.registered run.split.1 hr hv same
  rwa [Waiter.registered_of_pending pending] at registered

end Expecting

/-- How far call `n` is, which waits on `w`: it still waits and has time left, it was answered
in time, or it was given up. -/
inductive Session.Served (since : List Transition) (z : Session) (n c : Nat) (w : Waiter)
    (token : Option Nat) (due : Nat) : Prop where
  | waiting :
      z.Waiting n ⟨c, w.serial⟩ token → z.system.host.now ≤ due → Served since z n c w token due
  | answered (moment : Nat) (other : AckEvent) (u : Transition) (e : Delivery) :
      z.system.phase? n = some (.ended moment (.acknowledged other)) → moment ≤ due →
      u ∈ since → u.Hands c w e other → Served since z n c w token due
  | aborted : z.system.phase? n = some .aborted → Served since z n c w token due

/-- The clock moves on only while the slot is empty, and not past the offer that is to come. -/
theorem Expecting.waiting_tick {moment : Nat}
    (h : Expecting (⟨x, .tick moment, z⟩ :: since) t c id w token ack d due)
    (run : Runs (since ++ t :: before) x) (happens : x.after? (.tick moment) = some z)
    (waiting : x.Waiting n ⟨c, w.serial⟩ token) : z.system.host.now ≤ due := by
  have h' : Expecting since t c id w token ack d due := h.of_suffix [_]
  have punctual : x.system.isPunctual moment := (h.undisturbed _ List.mem_cons_self).punctual
  have none := waiting.waitResult?_eq_none run (System.isPunctual_iff.mp punctual).1
  obtain ⟨r, v, hr, hv, serial, rfl | ⟨other, filled⟩⟩ := h'.slot_cases run waiting
  · have still : z.Awaits c v := by
      rw [Session.after?_tick happens]
      exact ⟨r, hr, hv⟩
    have run' : Runs ((⟨x, .tick moment, z⟩ :: since) ++ t :: before) z := .next run happens
    exact (run'.scheduled_of_awaits run'.split.2 h.undisturbed h.decoded h.request h.scheduled
      h.awaits h.pending h.key still).now_le
  · rw [← serial, run.waitResult?_of_filled hr hv filled] at none
    cases none

/-- A wait that returns does so with an acknowledgment that was handed to the waiter. -/
theorem Expecting.waiting_ends
    (h : Expecting (⟨x, a, z⟩ :: since) t c id w token ack d due)
    (run : Runs (since ++ t :: before) x) (waiting : x.Waiting n ⟨c, w.serial⟩ token)
    (left : x.system.host.now ≤ due) {result : Call.Result}
    (returns : x.system.waitResult? ⟨c, w.serial⟩ token = some result) :
    ∃ other, result = .acknowledged other ∧ ∃ u ∈ since, ∃ e, u.Hands c w e other := by
  have h' : Expecting since t c id w token ack d due := h.of_suffix [_]
  obtain ⟨r, v, hr, hv, serial, rfl | ⟨other, filled⟩⟩ := h'.slot_cases run waiting
  · have none := run.waitResult?_of_pending hr hv h.pending
      (h.uncancelled _ List.mem_cons_self) (Nat.lt_of_le_of_lt left h.early)
    cases none.symm.trans returns
  · rw [← serial, run.waitResult?_of_filled hr hv filled] at returns
    obtain ⟨u, hu, v', e, hands, same⟩ := run.filled.source c r hr v hv other filled
    obtain ⟨mem, rfl⟩ := h'.handed run hu hands (same.trans serial)
    exact ⟨other, (Option.some.inj returns).symm, u, mem, e, hands⟩

theorem Expecting.served_next
    (h : Expecting (⟨x, a, z⟩ :: since) t c id w token ack d due)
    (run : Runs (since ++ t :: before) x) (happens : x.after? a = some z)
    (served : x.Served since n c w token due) :
    z.Served (⟨x, a, z⟩ :: since) n c w token due := by
  cases served with
  | answered moment other u e hφ le mem hands =>
    exact .answered moment other u e (ended_of_after? happens hφ) le
      (List.mem_cons_of_mem _ mem) hands
  | aborted hφ => exact .aborted (aborted_of_after? happens hφ)
  | waiting waiting left =>
    rcases waiting.next happens with still | gone | ⟨result, returns, ended⟩
    · refine .waiting still ?_
      by_cases ticks : ∃ moment, a = .tick moment
      · obtain ⟨moment, rfl⟩ := ticks
        exact h.waiting_tick run happens waiting
      · rw [now_of_after? happens fun moment tick => ticks ⟨moment, tick⟩]
        exact left
    · exact .aborted gone
    · obtain ⟨other, rfl, u, mem, e, hands⟩ := h.waiting_ends run waiting left returns
      exact .answered _ other u e ended left (List.mem_cons_of_mem _ mem) hands

/-- From the moment at which the call waits, it is served to the end of the run. -/
theorem Expecting.served {m : List Transition}
    (h : Expecting (since ++ m) t c id w token ack d due)
    (run : Runs (since ++ (m ++ t :: before)) z) (base : Runs (m ++ t :: before) y)
    (waiting : y.Waiting n ⟨c, w.serial⟩ token) (left : y.system.host.now ≤ due) :
    z.Served (since ++ m) n c w token due := by
  induction since generalizing z with
  | nil =>
    obtain rfl := base.unique run
    exact .waiting waiting left
  | cons v since ih =>
    cases run with
    | @next _ x _ _ run happens =>
      have run' : Runs ((since ++ m) ++ t :: before) x := by
        rw [List.append_assoc]
        exact run
      exact h.served_next run' happens (ih (h.of_suffix [_]) run)

/-! ## Registration after the acknowledgment -/

/-- What a registration leaves. -/
theorem Transition.Registers.waiter (run : Runs before t.before)
    (happens : t.before.after? t.action = some t.after) {event : ChangeEvent}
    (registers : t.Registers c event w) (request : event.requestId = some id) :
    w.isPending ∧ w.key = .request id ∧
      (∀ r, t.before.registry? c = some r → w.serial = r.table.nextSerial) ∧
      t.after.system.host.now = t.before.system.host.now ∧
      ∃ co, t.before.system.correlators[c]? = some co ∧
        w.deadline = t.before.system.host.now + co.timeout.ticks := by
  obtain ⟨co, r, hc, registered, s, hs, hw⟩ := registers
  have found : t.before.registry? c = some co.registry := System.getElem?_registries hc
  obtain ⟨-, serial, slot, key, -, -, -⟩ := WaitRegistry.register_ok registered
  rw [request] at key
  have new : ∀ r, t.before.registry? c = some r → w.serial = r.table.nextSerial := by
    intro r hr
    obtain rfl := Option.some.inj (found.symm.trans hr)
    exact serial
  refine ⟨Waiter.isPending_iff.mpr slot, key, new, ?_,
    co, hc, WaitRegistry.deadline_register registered⟩
  refine now_of_after? happens fun moment tick => ?_
  -- nothing is registered when time passes
  rw [tick] at happens
  rw [Session.after?_tick happens] at hs
  obtain rfl := Option.some.inj (found.symm.trans hs)
  have := (run.wellFormed found).fresh w hw
  omega

/-- Nothing is handed to a waiter for the request before `w` is in use. -/
theorem Transition.Alone.not_hands (alone : t.Alone c id w) (run : Runs before t.before)
    (happens : t.before.after? t.action = some t.after)
    (new : ∀ r, t.before.registry? c = some r → w.serial = r.table.nextSerial)
    (request : ack.event.requestId = some id) {v : Waiter} : ¬t.Hands c v e ack := by
  intro hands
  obtain ⟨r, hr, hv, -, belongs⟩ := hands.belongs run happens
  unfold PendingTable.Belongs at belongs
  rw [request] at belongs
  have same := alone r hr v hv belongs
  have old := (run.wellFormed hr).fresh v hv
  rw [same, new r hr] at old
  exact Nat.lt_irrefl _ old

/-- An acknowledgment for a request comes to publisher `p` in `u` and is handed back, as nobody
waits for it, and `t` registers waiter `w` for the request while an offer of it is left. -/
structure EarlyAck (u t : Transition) (p : Publisher) (d : Delivery) (ack : AckEvent)
    (id : RequestId) (w : Waiter) : Prop where
  publisher : ∃ i : Nat, u.before.system.publishers[i]? = some p
  seconds : ∃ n, 1 ≤ n ∧ p.config.ackTimeout = .ofSeconds n
  offers : 2 ≤ p.config.ackMaxDeliveries
  request : ack.event.requestId = some id
  first : d.number = 1
  nacked : u.Nacks p.correlator d ack
  registers : ∃ event : ChangeEvent, event.requestId = some id ∧ t.Registers p.correlator event w
  later : u.before.system.host.now < t.before.system.host.now
  soon : t.before.system.host.now < u.before.system.host.now +
    (p.config.ackMaxDeliveries - 1) * p.config.unmatchedAckDelay.ticks

/-- Call `n` waits on `w` at the moment of its registration in `t`. It is not given up or
cancelled, no other waiter for the request is in use, the correlator is not shut down, and no
receive fails. The transitions `between` come before the registration. -/
structure Unhindered (between : List Transition) (t : Transition) (since : List Transition)
    (z : Session) (c n : Nat) (id : RequestId) (w : Waiter) (token : Option Nat) : Prop where
  waits : ∃ v ∈ since ++ [t], v.after.system.host.now = t.before.system.host.now ∧
    v.after.system.phase? n = some (.awaiting ⟨c, w.serial⟩ token)
  kept : z.system.phase? n ≠ some .aborted
  uncancelled : ∀ v ∈ since, v.before.system.tokenFired token = false
  alone : ∀ v ∈ since ++ [t], v.Alone c id w
  undisturbed : ∀ v ∈ since ++ t :: between, v.Undisturbed c

section Early

variable {between earlier : List Transition} {p : Publisher}

/-- When the waiter is registered, an offer of the acknowledgment is to come in time. -/
theorem EarlyAck.expecting (early : EarlyAck u t p d ack id w)
    (run : Runs (since ++ t :: (between ++ u :: earlier)) z)
    (unhindered : Unhindered between t since z p.correlator n id w token)
    (works : ∀ v ∈ t :: between, v.before.system.host.faults.failNack = false)
    (unclaimed : ∀ v ∈ between, ∀ w' (e : Delivery) other, v.Hands p.correlator w' e other →
      e.message ≠ d.message) :
    ∃ k due, Expecting since t p.correlator id w token ack (d.after k) due ∧
      t.before.system.host.now ≤ due ∧
      w.deadline = t.before.system.host.now + p.config.ackTimeout.ticks := by
  obtain ⟨i, hp⟩ := early.publisher
  obtain ⟨m, pos, whole⟩ := early.seconds
  obtain ⟨event, request, registers⟩ := early.registers
  obtain ⟨base, base'⟩ := run.split
  have happens : t.before.after? t.action = some t.after :=
    (run.of_suffix (List.suffix_append since _)).2
  obtain ⟨pending, key, new, now, co, hc, deadline⟩ := registers.waiter base happens request
  have linked : t.before.Linked p :=
    base.linked_since (List.mem_append_right between List.mem_cons_self) hp
  obtain ⟨co', s, hc', timeout, -⟩ := linked
  obtain rfl := Option.some.inj (hc.symm.trans hc')
  rw [timeout] at deadline
  have later := early.later
  have soon := early.soon
  have long : 0 < p.config.unmatchedAckDelay.ticks := by
    by_contra none
    rw [Nat.eq_zero_of_not_pos none, Nat.mul_zero] at soon
    omega
  have awaits : t.after.Awaits p.correlator w := by
    obtain ⟨-, -, -, -, awaits⟩ := registers
    exact awaits
  have reoffers : t.after.Reoffers (t :: between) p.correlator d ack p.config
      u.before.system.host.now :=
    Runs.reoffers base' early.nacked early.first early.request hp rfl long early.offers
      (fun v hv => unhindered.undisturbed v (List.mem_append_right _ hv)) works
  cases reoffers with
  | handed v w' k hv hands =>
    rcases List.mem_cons.mp hv with rfl | hv
    · have alone := unhindered.alone v (List.mem_append_right _ List.mem_cons_self)
      exact (alone.not_hands base happens new early.request hands).elim
    · exact (unclaimed v hv w' (d.after k) ack hands rfl).elim
  | past all =>
    rw [now] at all
    omega
  | scheduled k more begun scheduled =>
    rw [now] at begun
    have left := scheduled.now_le
    rw [now] at left
    refine ⟨k + 1, _, ⟨new, pending, key, awaits, early.nacked.1.decoded, early.request, scheduled,
      ?_, ?_, ?_, unhindered.alone, unhindered.uncancelled⟩, left, deadline⟩
    · rw [deadline]
      exact DispatchConfig.offer_before_timeout whole pos more later begun
    · exact (unhindered.undisturbed t (List.mem_append_right _ List.mem_cons_self)).serves
    · exact fun v hv => unhindered.undisturbed v (List.mem_append_left _ hv)

/-- Of the message that was offered early, a waiter is handed what was read at first. -/
theorem Expecting.acks (h : Expecting since t c id w token ack d due)
    (run : Runs (since ++ t :: before) z) (hu : u ∈ since) {other : AckEvent}
    (hands : u.Hands c w e other) (same : e.message = d.message) :
    other = ack ∧ (u.before.system.host.faults.failAck = false → u.Acks c e ack) := by
  obtain ⟨later, m, rfl⟩ := List.append_of_mem hu
  rw [List.append_assoc] at run
  obtain ⟨earlier, happens⟩ := run.of_suffix (List.suffix_append later _)
  have h' : Expecting m t c id w token ack d due :=
    of_suffix (later ++ [u]) (by simpa using h)
  obtain ⟨r, hr, hw, pending, -⟩ := hands.belongs earlier happens
  have awaits : u.before.Awaits c w := ⟨r, hr, hw⟩
  obtain ⟨co, s, hc, -, hs, offers⟩ := earlier.scheduled_of_awaits earlier.split.2 h'.undisturbed
    h.decoded h.request h.scheduled h.awaits h.pending h.key awaits
  obtain ⟨s', hs', received⟩ := hands.received
  obtain rfl : s' = s := Option.some.inj
    (hs'.symm.trans ((Session.ackSubscription?_eq hc).trans hs))
  have copies : e.copy = d.copy :=
    List.inj_on_of_nodup_map (earlier.routed.incoming c s' hs').nodup received offers.copy_mem same
  have payload : e.payload = d.payload := congrArg Prod.snd copies
  obtain ⟨delivers, -⟩ := hands
  obtain rfl : other = ack := Except.ok.inj (delivers.decoded.symm.trans (payload ▸ h.decoded))
  exact ⟨rfl, (delivers.hands earlier happens h.request hr hw pending h.key).2.2⟩

/-- A wait that is registered after an early acknowledgment for its request, while an offer of
that is left, returns before its deadline if until then the offers can be handed back. It returns
that acknowledgment, and the connection, if it works, acks it once; or its waiter was handed
another one for the request. -/
theorem early_ack_returned (run : Runs (since ++ t :: (between ++ u :: earlier)) z)
    (early : EarlyAck u t p d ack id w)
    (unhindered : Unhindered between t since z p.correlator n id w token)
    (works : ∀ v ∈ t :: between, v.before.system.host.faults.failNack = false)
    (unclaimed : ∀ v ∈ between, ∀ w' (e : Delivery) other, v.Hands p.correlator w' e other →
      e.message ≠ d.message) :
    w.deadline = t.before.system.host.now + p.config.ackTimeout.ticks ∧
    (w.deadline ≤ z.system.host.now →
      ∃ moment result, z.system.phase? n = some (.ended moment result)) ∧
    ∀ moment result, z.system.phase? n = some (.ended moment result) → moment < w.deadline ∧
      ∃ other, result = .acknowledged other ∧
        (other = ack ∧ ((∀ v ∈ since, v.before.system.host.faults.failAck = false) →
            AckedOnce (since ++ t :: (between ++ u :: earlier)) p.correlator d.message ack) ∨
          ∃ v ∈ since, ∃ e : Delivery, v.Hands p.correlator w e other ∧ e.message ≠ d.message) := by
  obtain ⟨k, due, expecting, left, deadline⟩ :=
    early.expecting run unhindered works unclaimed
  obtain ⟨v, hv, now, awaiting⟩ := unhindered.waits
  obtain ⟨later, m, rfl, base⟩ := run.cut hv
  rw [List.append_assoc] at run
  have served := expecting.served run base (.inl awaiting) (now ▸ left)
  have soon := expecting.early
  refine ⟨deadline, fun late => ?_, fun moment result ended => ?_⟩
  · cases served with
    | waiting _ le => omega
    | answered moment other _ _ hφ _ _ _ => exact ⟨moment, _, hφ⟩
    | aborted gone => exact absurd gone unhindered.kept
  · cases served with
    | waiting still _ =>
      rcases still with hφ | ⟨timer, hφ⟩
      · cases ended.symm.trans hφ
      · cases ended.symm.trans hφ
    | aborted gone => exact absurd gone unhindered.kept
    | answered moment' other v e hφ le hv hands =>
      obtain ⟨rfl, rfl⟩ := Call.Phase.ended.inj (Option.some.inj (ended.symm.trans hφ))
      refine ⟨Nat.lt_of_le_of_lt le soon, other, rfl, ?_⟩
      by_cases same : e.message = d.message
      · rw [← List.append_assoc] at run
        obtain ⟨rfl, acks⟩ := expecting.acks run hv hands same
        refine .inl ⟨rfl, fun works => ?_⟩
        exact same ▸ run.ackedOnce (List.mem_append_left _ hv) (acks (works v hv))
      · exact .inr ⟨v, hv, e, hands, same⟩

end Early

/-! ## Runs with an early acknowledgment -/

def earlyAnswer : AckEvent := { event := creation (some (.ofNat 1)), status := .created }

def earlyOffer : Delivery := ⟨0, AckEvent.write earlyAnswer, 1⟩

/-- The acknowledgment comes to a publisher; the latest action first. -/
def arrivedEarly : List Action :=
  [.perform (.inject Topic.defaultAck (AckEvent.write earlyAnswer)), .agent (.listener 0),
   .perform (.openPublisher "p" {})]

/-- It is offered, and handed back. -/
def offeredEarly : List Action := .agent (.listener 0) :: arrivedEarly

def firstOffer : Transition := happening (.agent (.listener 0)) arrivedEarly

/-- The first step of the call that these actions have started. -/
def registration (called : List Action) : Transition := happening (.agent (.call 0)) called

def lateWaiter (deadline : Nat) : Waiter :=
  ⟨0, .request (.ofNat 1), "ws-1", deadline, .ofSeconds 30, .empty⟩

def lateRegistry (deadline : Nat) : WaitRegistry :=
  ⟨⟨1, [(lateWaiter deadline).entry], false⟩, [lateWaiter deadline]⟩

/-- A run in which the call for the early acknowledgment is not hindered. -/
structure LateCall (called actions : List Action) (deadline : Nat)
    (between since : List Transition) (p : Publisher) : Prop where
  split : (play called).1 = between ++ firstOffer :: (play arrivedEarly).1
  resplit : (play actions).1 = since ++ registration called :: (play called).1
  early : EarlyAck firstOffer (registration called) p earlyOffer earlyAnswer (.ofNat 1)
    (lateWaiter deadline)
  unhindered : Unhindered between (registration called) since (play actions).2 p.correlator 0
    (.ofNat 1) (lateWaiter deadline) none

set_option maxRecDepth 100000 in
theorem nacks_firstOffer : ((play arrivedEarly).2.after? (.agent (.listener 0))).isSome ∧
    firstOffer.Nacks 0 earlyOffer earlyAnswer := by
  have facts : ((play arrivedEarly).2.after? (.agent (.listener 0))).isSome ∧
      (firstOffer.before.system.correlators[0]?.map fun co =>
        (co.phase, co.stopping, co.subscription)) = some (.waiting, false, 0) ∧
      (firstOffer.before.system.host.take? 0).map Prod.fst = some earlyOffer ∧
      AckEvent.ofPayload earlyOffer.payload = .ok earlyAnswer ∧
      firstOffer.after.system.host.broker.nacked =
        firstOffer.before.system.host.broker.nacked + 1 := by
    decide +kernel
  obtain ⟨happens, ready, offered, decoded, nacked⟩ := facts
  obtain ⟨co, hc, same⟩ := Option.map_eq_some_iff.mp ready
  obtain ⟨phase, stopping, subscription⟩ : co.phase = .waiting ∧ co.stopping = false ∧
    co.subscription = 0 := by simpa using same
  obtain ⟨⟨d, k⟩, received, rfl⟩ := Option.map_eq_some_iff.mp offered
  exact ⟨happens, ⟨rfl, co, k, hc, phase, stopping, subscription ▸ received, decoded⟩, nacked⟩

/-- The publisher has the settings of the start, so that a call within thirty seconds is in
time. -/
theorem exists_lateCall (since between : List Action) {called actions : List Action}
    {deadline : Nat} (hcalled : called = between ++ offeredEarly)
    (hactions : actions = since ++ .agent (.call 0) :: called)
    (facts : ((play called).2.after? (.agent (.call 0))).isSome ∧
      ((play called).2.system.correlators[0]?.map fun co =>
        co.registry.register earlyAnswer.event (play called).2.system.host.now co.timeout) =
          some (.ok (lateWaiter deadline, lateRegistry deadline)) ∧
      (registration called).after.registry? 0 = some (lateRegistry deadline) ∧
      (registration called).after.system.host.now = (play called).2.system.host.now ∧
      (registration called).after.system.phase? 0 = some (.awaiting ⟨0, 0⟩ none) ∧
      0 < (play called).2.system.host.now ∧ (play called).2.system.host.now < 30000 ∧
      (play actions).2.system.phase? 0 ≠ some .aborted ∧
      ∀ v ∈ (play actions).1, v.Alone 0 (.ofNat 1) (lateWaiter deadline) ∧ v.Undisturbed 0) :
    ∃ m ts p, p.correlator = 0 ∧ LateCall called actions deadline m ts p := by
  obtain ⟨happens, registers, registered, now, waits, later, soon, kept, clear⟩ := facts
  obtain ⟨offers, nacks⟩ := nacks_firstOffer
  obtain ⟨m, hm⟩ := play_split between offers
  obtain ⟨ts, hts⟩ := play_split since happens
  have present : firstOffer.before.system.publishers[0]?.map (fun p => (p.correlator, p.config)) =
      some (0, ({} : DispatchConfig)) := by rfl
  obtain ⟨p, hp, both⟩ := Option.map_eq_some_iff.mp present
  obtain ⟨correlator, config⟩ := Prod.mk.inj both
  obtain ⟨co, hc, ok⟩ := Option.map_eq_some_iff.mp registers
  have split : (play called).1 = m ++ firstOffer :: (play arrivedEarly).1 := hcalled ▸ hm
  rw [← hactions] at hts
  refine ⟨m, ts, p, correlator, split, hts, ?_, ?_⟩
  · refine ⟨⟨0, hp⟩, ⟨30, by decide, by rw [config]⟩, by rw [config]; decide, rfl, rfl, ?_, ?_,
      later, ?_⟩
    · rw [correlator]
      exact nacks
    · rw [correlator]
      exact ⟨earlyAnswer.event, rfl, co, _, hc, ok, _, registered, List.mem_cons_self⟩
    · rw [config]
      exact soon
  · rw [hts, split] at clear
    rw [correlator]
    refine ⟨⟨_, List.mem_append_right _ List.mem_cons_self, now, waits⟩, kept, fun _ _ => rfl,
      fun v hv => (clear v ?_).1, fun v hv => (clear v ?_).2⟩
    · rcases List.mem_append.mp hv with hv | hv
      · exact List.mem_append_left _ hv
      · exact List.mem_append_right _ (List.mem_singleton.mp hv ▸ List.mem_cons_self)
    · rw [← List.cons_append, ← List.append_assoc]
      exact List.mem_append_left _ hv

/-- A call comes a second after the acknowledgment. -/
def calledLate : List Action :=
  [.perform (.waitForAck "p" earlyAnswer.event none), .tick 1000, .agent (.listener 0)] ++
    offeredEarly

/-- The next offer is taken. -/
def answeredLate : List Action :=
  [.tick 31000, .agent (.listener 0), .agent (.call 0), .agent (.listener 0),
   .agent (.redelivery 0 0), .tick 15000, .agent (.call 0)] ++ .agent (.call 0) :: calledLate

set_option maxRecDepth 100000 in
/-- The wait of a call that comes a second later returns the acknowledgment. -/
theorem early_answer_returned :
    ∃ moment < 31000,
      (play answeredLate).2.system.phase? 0 = some (.ended moment (.acknowledged earlyAnswer)) ∧
      AckedOnce (play answeredLate).1 0 earlyOffer.message earlyAnswer := by
  obtain ⟨between, since, p, correlator, late⟩ : ∃ between since p, p.correlator = 0 ∧
      LateCall calledLate answeredLate 31000 between since p :=
    exists_lateCall _ _ rfl rfl (by decide +kernel)
  have facts : (∀ v ∈ (play answeredLate).1, v.before.system.host.faults.failNack = false ∧
        v.before.system.host.faults.failAck = false) ∧
      (∀ v ∈ (play calledLate).1,
        (v.before.registry? 0).all fun r => r.waiters.isEmpty) ∧
      31000 ≤ (play answeredLate).2.system.host.now ∧
      (play answeredLate).2.system.host.broker.messages = 1 := by
    decide +kernel
  obtain ⟨faultless, free, waited, one⟩ := facts
  have run := play_runs answeredLate
  have split : (play answeredLate).1 =
      since ++ registration calledLate :: (between ++ firstOffer :: (play arrivedEarly).1) := by
    rw [late.resplit, late.split]
  rw [split] at run faultless
  rw [late.split] at free
  have works : ∀ v ∈ registration calledLate :: between,
      v.before.system.host.faults.failNack = false := by
    intro v hv
    refine (faultless v (List.mem_append_right _ ?_)).1
    rw [← List.cons_append]
    exact List.mem_append_left _ hv
  have unclaimed : ∀ v ∈ between, ∀ w' (e : Delivery) other, v.Hands p.correlator w' e other →
      e.message ≠ earlyOffer.message := by
    rw [correlator]
    rintro v hv w' e other ⟨-, r, -, -, hr, -, hw, -⟩
    have none := free v (List.mem_append_left _ hv)
    rw [hr] at none
    rw [List.isEmpty_iff.mp none] at hw
    cases hw
  obtain ⟨-, bounded, returned⟩ :=
    early_ack_returned run late.early late.unhindered works unclaimed
  obtain ⟨moment, result, ended⟩ := bounded waited
  obtain ⟨intime, other, rfl, ⟨rfl, once⟩ | ⟨v, hv, e, hands, another⟩⟩ :=
    returned moment result ended
  · have once := once fun v hv => (faultless v (List.mem_append_left _ hv)).2
    rw [correlator, ← split] at once
    exact ⟨moment, intime, ended, once⟩
  · -- there is no other message
    have known := run.routed.handed v (List.mem_append_left _ hv) _ _ _ _ hands
    exact absurd (show e.message = 0 by omega) another

/-- Another acknowledgment for the request. -/
def otherAnswer : AckEvent := { event := creation (some (.ofNat 1)), status := .failed }

/-- It comes before the next offer. -/
def overtaken : List Action :=
  [.agent (.call 0), .agent (.listener 0),
   .perform (.inject Topic.defaultAck (AckEvent.write otherAnswer)), .tick 2000,
   .agent (.call 0)] ++ .agent (.call 0) :: calledLate

/-- The next offer is taken, but it cannot be acked. -/
def takenUnacked : List Action :=
  [.agent (.call 0), .agent (.listener 0), .agent (.redelivery 0 0), .tick 15000,
   .perform (.setFaults { failAck := true }), .agent (.call 0)] ++
    .agent (.call 0) :: calledLate

/-- The next offer cannot be handed back, and then the call comes. -/
def calledAfterFault : List Action :=
  [.perform (.waitForAck "p" earlyAnswer.event none), .tick 16000, .agent (.listener 0),
   .agent (.listener 0), .agent (.redelivery 0 0), .tick 15000,
   .perform (.setFaults { failNack := true }), .agent (.listener 0)] ++ offeredEarly

def lostByFault : List Action :=
  [.agent (.call 0), .tick 46000, .agent (.call 0)] ++ .agent (.call 0) :: calledAfterFault

set_option maxRecDepth 100000 in
/-- A wait that is not hindered returns another acknowledgment that comes before the next offer
of the early one. Where the connection fails to hand an offer back, the wait returns none, and
where it fails to ack the offer, that is not acked. -/
theorem early_ack_missed :
    (∃ between since p, LateCall calledLate overtaken 31000 between since p ∧
      (play overtaken).2.system.phase? 0 = some (.ended 2000 (.acknowledged otherAnswer)) ∧
      otherAnswer ≠ earlyAnswer) ∧
    (∃ between since p, LateCall calledAfterFault lostByFault 46000 between since p ∧
      (play lostByFault).2.system.phase? 0 =
        some (.ended 46000 (.failed (.timeout "ws-1" (.ofSeconds 30))))) ∧
    ∃ between since p, LateCall calledLate takenUnacked 31000 between since p ∧
      (play takenUnacked).2.system.phase? 0 = some (.ended 15000 (.acknowledged earlyAnswer)) ∧
      ¬AckedOnce (play takenUnacked).1 0 earlyOffer.message earlyAnswer := by
  refine ⟨?another, ?lost, ?unacked⟩
  case another =>
    obtain ⟨between, since, p, -, late⟩ : ∃ between since p, p.correlator = 0 ∧
        LateCall calledLate overtaken 31000 between since p :=
      exists_lateCall _ _ rfl rfl (by decide +kernel)
    exact ⟨between, since, p, late, by decide +kernel⟩
  case lost =>
    obtain ⟨between, since, p, -, late⟩ : ∃ between since p, p.correlator = 0 ∧
        LateCall calledAfterFault lostByFault 46000 between since p :=
      exists_lateCall _ _ rfl rfl (by decide +kernel)
    exact ⟨between, since, p, late, by decide +kernel⟩
  case unacked =>
    obtain ⟨between, since, p, -, late⟩ : ∃ between since p, p.correlator = 0 ∧
        LateCall calledLate takenUnacked 31000 between since p :=
      exists_lateCall _ _ rfl rfl (by decide +kernel)
    have facts : (play takenUnacked).2.system.phase? 0 =
          some (.ended 15000 (.acknowledged earlyAnswer)) ∧
        ∀ v ∈ (play takenUnacked).1, v.after.system.host.broker.acked = 0 := by
      decide +kernel
    refine ⟨between, since, p, late, facts.1, ?_⟩
    rintro ⟨later, u, earlier, split, ⟨e, -, -, acked⟩, -⟩
    have none := facts.2 u (split ▸ List.mem_append_right _ List.mem_cons_self)
    omega

end Script

end ChangeDispatch
