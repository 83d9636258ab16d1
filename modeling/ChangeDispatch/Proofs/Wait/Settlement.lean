import ChangeDispatch.Proofs.Wait.Routing

/-!
# What a listener does with an acknowledgment

An acknowledgment for a request goes to the waiter that is pending under the request, if
there is one, and is acked in the same step. Otherwise it is handed back: if the bound of
the subscription allows another offer, the broker holds that back for the delay of the
correlator. The counters of the broker tell which of the two has happened.
-/
namespace ChangeDispatch

namespace Host

variable (h : Host) (i : Nat) (d : Delivery)

@[simp] theorem broker_note (notice : Notice) : (h.note notice).broker = h.broker := rfl

@[simp] theorem faults_note (notice : Notice) : (h.note notice).faults = h.faults := rfl

@[simp] theorem broker_noteError {α : Type} (result : Except α Unit) (notice : α → Notice) :
    (h.noteError result notice).broker = h.broker := by
  cases result <;> rfl

@[simp] theorem now_noteError {α : Type} (result : Except α Unit) (notice : α → Notice) :
    (h.noteError result notice).now = h.now := by
  cases result <;> rfl

@[simp] theorem faults_noteError {α : Type} (result : Except α Unit) (notice : α → Notice) :
    (h.noteError result notice).faults = h.faults := by
  cases result <;> rfl

@[simp] theorem timers_noteError {α : Type} (result : Except α Unit) (notice : α → Notice) :
    (h.noteError result notice).timers = h.timers := by
  cases result <;> rfl

theorem acked_ack (works : h.faults.failAck = false) :
    (h.ack i d).2.broker.acked = h.broker.acked + 1 := by
  simp [Host.ack, settle, works, Broker.ack, Broker.adjust]

theorem nacked_ack : (h.ack i d).2.broker.nacked = h.broker.nacked := by
  unfold Host.ack settle
  split <;> rfl

theorem acked_nack (delay : Duration) :
    (h.nack i d delay).2.broker.acked = h.broker.acked := by
  unfold Host.nack settle
  dsimp only [setTimer]
  split <;> split <;> rfl

theorem nacked_nack (fails : h.faults.failNack) (delay : Duration) :
    (h.nack i d delay).2.broker.nacked = h.broker.nacked := by
  unfold Host.nack settle
  dsimp only [setTimer]
  rw [if_pos fails, if_pos fails]
  split <;> rfl

/-- What is handed back with a delay is to be offered again when a new timer is due. -/
theorem nack_delayed (works : h.faults.failNack = false) {delay : Duration}
    (long : delay.isZero = false) :
    (h.nack i d delay).2 =
      { h with
        timers := h.timers + 1
        broker := h.broker.nack i d (some ⟨h.now + delay.ticks, h.timers⟩) } := by
  simp [Host.nack, setTimer, settle, works, long]

theorem take?_counters {h k : Host} {i : Nat} {d : Delivery} (ht : h.take? i = some (d, k)) :
    k.faults = h.faults ∧ k.now = h.now ∧ k.timers = h.timers ∧
      k.broker.acked = h.broker.acked ∧ k.broker.nacked = h.broker.nacked := by
  obtain ⟨s, channel, -, -, rfl⟩ := take?_eq_some ht
  exact ⟨rfl, rfl, rfl, rfl, rfl⟩

end Host

/-- A request that is waited for has its acknowledgment handed to the waiter. -/
theorem WaitRegistry.WellFormed.offer_pending {r : WaitRegistry} (wf : r.WellFormed)
    {ack : AckEvent} {id : RequestId} (request : ack.event.requestId = some id) {w : Waiter}
    (hw : w ∈ r.waiters) (pending : w.isPending) (key : w.key = .request id) :
    r.offer ack = (.taken w.entry, r.resolve w.key (.filled ack)) := by
  rcases wf.offer_cases ack with missed | ⟨v, hv, pv, belongs, taken⟩
  · have found := wf.find?_eq_some.mpr
      ⟨wf.mem_entries.mpr ⟨w, hw, pending, rfl⟩, show w.entry.key = .request id from key⟩
    unfold WaitRegistry.offer PendingTable.takeMatch PendingTable.matchKey? PendingTable.remove
      at missed
    rw [request] at missed
    dsimp only at missed
    rw [found] at missed
    dsimp only at missed
    split at missed <;> cases missed
  · unfold PendingTable.Belongs at belongs
    rw [request] at belongs
    obtain rfl := wf.eq_of_key hv hw pv pending (show v.key = w.key from belongs.trans key.symm)
    exact taken

/-- A request that nobody waits for has its acknowledgment refused. -/
theorem WaitRegistry.WellFormed.offer_free {r : WaitRegistry} (wf : r.WellFormed)
    {ack : AckEvent} {id : RequestId} (request : ack.event.requestId = some id)
    (free : ∀ w ∈ r.waiters, w.isPending → w.key ≠ .request id) :
    r.offer ack = (.unmatched, r) := by
  rcases wf.offer_cases ack with missed | ⟨v, hv, pv, belongs, -⟩
  · exact missed
  · unfold PendingTable.Belongs at belongs
    rw [request] at belongs
    exact absurd belongs (free v hv pv)

namespace Correlator

variable {c : Correlator} {d : Delivery} {ack : AckEvent}

@[simp] theorem broker_noteMismatch (h : Host) (workspace : String) (ack : AckEvent) :
    (noteMismatch h workspace ack).broker = h.broker := by
  unfold noteMismatch
  split <;> rfl

@[simp] theorem faults_noteMismatch (h : Host) (workspace : String) (ack : AckEvent) :
    (noteMismatch h workspace ack).faults = h.faults := by
  unfold noteMismatch
  split <;> rfl

theorem process_taken (h : Host) (decoded : AckEvent.ofPayload d.payload = .ok ack)
    {entry : PendingEntry} {r : WaitRegistry} (taken : c.registry.offer ack = (.taken entry, r)) :
    (process h c d).2 = { c with registry := r } ∧
      (process h c d).1.broker.nacked = h.broker.nacked ∧
      (h.faults.failAck = false → (process h c d).1.broker.acked = h.broker.acked + 1) := by
  unfold process
  rw [decoded]
  dsimp only
  rw [taken]
  refine ⟨rfl, ?_, fun works => ?_⟩
  · simp [Host.nacked_ack]
  · simp [Host.acked_ack, works]

theorem process_unmatched (h : Host) (decoded : AckEvent.ofPayload d.payload = .ok ack)
    (unmatched : c.registry.offer ack = (.unmatched, c.registry)) :
    process h c d = (handBack h c d, c) := by
  unfold process
  rw [decoded]
  dsimp only
  rw [unmatched]

theorem acked_handBack (h : Host) (c : Correlator) (d : Delivery) :
    (handBack h c d).broker.acked = h.broker.acked := by
  simp [handBack, Host.acked_nack]

theorem nacked_handBack {h : Host} (fails : h.faults.failNack) (c : Correlator) (d : Delivery) :
    (handBack h c d).broker.nacked = h.broker.nacked := by
  simp [handBack, Host.nacked_nack, fails]

theorem handBack_delayed {h : Host} (works : h.faults.failNack = false)
    (long : c.unmatchedDelay.isZero = false) (d : Delivery) :
    (handBack h c d).timers = h.timers + 1 ∧
      (handBack h c d).broker =
        h.broker.nack c.subscription d (some ⟨h.now + c.unmatchedDelay.ticks, h.timers⟩) := by
  unfold handBack
  simp [Host.nack_delayed h c.subscription d works long]

end Correlator

namespace Script

variable {ts : List Transition} {x y : Session} {a : Action} {c : Nat} {d : Delivery}
  {ack : AckEvent} {id : RequestId}

/-- The delivery is acked. -/
def Transition.Acks (t : Transition) (c : Nat) (d : Delivery) (ack : AckEvent) : Prop :=
  t.Delivers c d ack ∧
    t.after.system.host.broker.acked = t.before.system.host.broker.acked + 1

/-- The delivery is handed back. -/
def Transition.Nacks (t : Transition) (c : Nat) (d : Delivery) (ack : AckEvent) : Prop :=
  t.Delivers c d ack ∧
    t.after.system.host.broker.nacked = t.before.system.host.broker.nacked + 1

/-- The step of a listener that receives an acknowledgment. -/
theorem Transition.Delivers.processed (h : x.after? a = some y)
    (delivers : (⟨x, a, y⟩ : Transition).Delivers c d ack) :
    ∃ co k, x.system.correlators[c]? = some co ∧
      x.system.host.take? co.subscription = some (d, k) ∧
      AckEvent.ofPayload d.payload = .ok ack ∧
      y.system.host = (Correlator.process k co d).1 ∧
      y.system.correlators[c]? = some { (Correlator.process k co d).2 with phase := .ready } := by
  obtain ⟨ha, co, k, hc, waiting, going, received, decoded⟩ := delivers
  dsimp only at ha hc received
  subst ha
  obtain ⟨t, ht, rfl⟩ := Option.map_eq_some_iff.mp h
  obtain ⟨co', host, co'', hc', hs, rfl⟩ := Agent.step?_listener ht
  obtain rfl := Option.some.inj (hc.symm.trans hc')
  rw [Correlator.step?_of_take? waiting going received] at hs
  obtain ⟨rfl, rfl⟩ := Prod.mk.inj (Option.some.inj hs)
  refine ⟨co, k, hc, received, decoded, rfl, ?_⟩
  simp [System.adjustCorrelator, hc]

/-- An acknowledgment that the registry gives to a waiter is handed to that waiter. -/
theorem Transition.Delivers.taken (h : x.after? a = some y)
    (delivers : (⟨x, a, y⟩ : Transition).Delivers c d ack) {r : WaitRegistry}
    (hr : x.registry? c = some r) {w : Waiter} (hw : w ∈ r.waiters) (pending : w.isPending)
    (taken : r.offer ack = (.taken w.entry, r.resolve w.key (.filled ack))) :
    (⟨x, a, y⟩ : Transition).Hands c w d ack ∧
      y.system.host.broker.nacked = x.system.host.broker.nacked ∧
      (x.system.host.faults.failAck = false → (⟨x, a, y⟩ : Transition).Acks c d ack) := by
  obtain ⟨co, k, hc, received, decoded, host, correlator⟩ := delivers.processed h
  obtain rfl : co.registry = r := Option.some.inj ((System.getElem?_registries hc).symm.trans hr)
  obtain ⟨part, nacked, acked⟩ := Correlator.process_taken k decoded taken
  obtain ⟨faults, -, -, ackedBefore, nackedBefore⟩ := Host.take?_counters received
  have after : y.registry? c = some (co.registry.resolve w.key (.filled ack)) := by
    rw [part] at correlator
    exact System.getElem?_registries correlator
  refine ⟨⟨delivers, _, _, _, hr, after, hw, pending, List.mem_map_of_mem hw, by simp, ?_⟩, ?_,
    fun works => ⟨delivers, ?_⟩⟩
  · rw [Waiter.resolve_of_pending rfl pending]
  · rw [host, nacked, nackedBefore]
  · dsimp only
    rw [host, acked (faults ▸ works), ackedBefore]

/-- The acknowledgment of a request goes to the waiter that is pending under it. -/
theorem Transition.Delivers.hands (run : Runs ts x) (h : x.after? a = some y)
    (delivers : (⟨x, a, y⟩ : Transition).Delivers c d ack)
    (request : ack.event.requestId = some id) {r : WaitRegistry} (hr : x.registry? c = some r)
    {w : Waiter} (hw : w ∈ r.waiters) (pending : w.isPending) (key : w.key = .request id) :
    (⟨x, a, y⟩ : Transition).Hands c w d ack ∧
      y.system.host.broker.nacked = x.system.host.broker.nacked ∧
      (x.system.host.faults.failAck = false → (⟨x, a, y⟩ : Transition).Acks c d ack) :=
  delivers.taken h hr hw pending ((run.wellFormed hr).offer_pending request hw pending key)

/-- The acknowledgment of a request that nobody waits for is handed back. -/
theorem Transition.Delivers.handsBack (run : Runs ts x) (h : x.after? a = some y)
    (delivers : (⟨x, a, y⟩ : Transition).Delivers c d ack)
    (request : ack.event.requestId = some id)
    (free : ∀ r, x.registry? c = some r → ∀ w ∈ r.waiters, w.isPending → w.key ≠ .request id) :
    ∃ co k, x.system.correlators[c]? = some co ∧
      x.system.host.take? co.subscription = some (d, k) ∧
      y.system.host = Correlator.handBack k co d ∧
      y.system.correlators[c]? = some { co with phase := .ready } := by
  obtain ⟨co, k, hc, received, decoded, host, correlator⟩ := delivers.processed h
  have found : x.registry? c = some co.registry := System.getElem?_registries hc
  have unmatched := (run.wellFormed found).offer_free request (free _ found)
  rw [Correlator.process_unmatched k decoded unmatched] at host correlator
  exact ⟨co, k, hc, received, host, correlator⟩

/-- Somebody waits for the request, or nobody does. -/
theorem Session.pending_or_free (x : Session) (c : Nat) (id : RequestId) :
    (∃ r, x.registry? c = some r ∧ ∃ w ∈ r.waiters, w.isPending ∧ w.key = .request id) ∨
      ∀ r, x.registry? c = some r → ∀ w ∈ r.waiters, w.isPending → w.key ≠ .request id := by
  by_cases waited : ∃ r, x.registry? c = some r ∧ ∃ w ∈ r.waiters, w.isPending ∧
      w.key = .request id
  · exact .inl waited
  · exact .inr fun r hr w hw pending key => waited ⟨r, hr, w, hw, pending, key⟩

/-- An acknowledgment that is acked was handed to a waiter. -/
theorem Transition.Acks.hands (run : Runs ts x) (h : x.after? a = some y)
    (acks : (⟨x, a, y⟩ : Transition).Acks c d ack) :
    ∃ w, (⟨x, a, y⟩ : Transition).Hands c w d ack := by
  obtain ⟨delivers, acked⟩ := acks
  obtain ⟨co, k, hc, received, decoded, host, -⟩ := delivers.processed h
  have found : x.registry? c = some co.registry := System.getElem?_registries hc
  rcases (run.wellFormed found).offer_cases ack with unmatched | ⟨w, hw, pending, -, taken⟩
  · have before := (Host.take?_counters received).2.2.2.1
    rw [Correlator.process_unmatched k decoded unmatched] at host
    dsimp only at acked
    rw [host, Correlator.acked_handBack, before] at acked
    omega
  · exact ⟨w, (delivers.taken h found hw pending taken).1⟩

/-- An acknowledgment of a request that is nacked was not waited for, and the connection did
not fail. -/
theorem Transition.Nacks.free (run : Runs ts x) (h : x.after? a = some y)
    (nacks : (⟨x, a, y⟩ : Transition).Nacks c d ack) (request : ack.event.requestId = some id) :
    (∀ r, x.registry? c = some r → ∀ w ∈ r.waiters, w.isPending → w.key ≠ .request id) ∧
      x.system.host.faults.failNack = false := by
  obtain ⟨delivers, nacked⟩ := nacks
  dsimp only at nacked
  rcases x.pending_or_free c id with ⟨r, hr, w, hw, pending, key⟩ | free
  · have kept := (delivers.hands run h request hr hw pending key).2.1
    omega
  · refine ⟨free, ?_⟩
    obtain ⟨co, k, -, received, host, -⟩ := delivers.handsBack run h request free
    obtain ⟨faults, -, -, -, before⟩ := Host.take?_counters received
    cases fails : x.system.host.faults.failNack with
    | false => rfl
    | true =>
      rw [host, Correlator.nacked_handBack (faults ▸ fails), before] at nacked
      omega

end Script

end ChangeDispatch
