import ChangeDispatch.Proofs.Broker.Touch
import ChangeDispatch.Proofs.Run.Basic
import ChangeDispatch.Proofs.Run.Calls

/-!
# The caller's own parts

The caller has subscriptions and queues of its own, which the parts of the system never
use. Most steps of a script change only these, or nothing but flags and names; `Elsewhere`
relates the sessions before and after such a change.
-/
namespace ChangeDispatch

namespace Script

theorem append_subset_append {α : Type} {k l m n : List α} (hk : k ⊆ m) (hl : l ⊆ n) :
    k ++ l ⊆ m ++ n :=
  List.append_subset.mpr ⟨List.subset_append_of_subset_left _ hk,
    List.subset_append_of_subset_right _ hl⟩

/-! ## Names -/

namespace Names

variable {α : Type} {names : Names α} {id : String}

theorem mem_of_find? {value : α} (h : names.find? id = some value) :
    value ∈ names.map Prod.snd := by
  induction names with
  | nil => cases h
  | cons entry names ih =>
    obtain ⟨k, v⟩ := entry
    unfold find? at h
    rw [List.lookup_cons] at h
    cases hk : id == k with
    | true =>
      rw [hk] at h
      obtain rfl := Option.some.inj h
      exact List.mem_cons_self
    | false =>
      rw [hk] at h
      exact List.mem_cons_of_mem _ (ih h)

theorem erase_subset (names : Names α) (id : String) :
    (names.erase id).map Prod.snd ⊆ names.map Prod.snd :=
  List.map_subset _ List.filter_sublist.subset

theorem insert_subset (names : Names α) (id : String) (value : α) :
    (names.insert id value).map Prod.snd ⊆ value :: names.map Prod.snd :=
  List.cons_subset_cons _ (names.erase_subset id)

end Names

/-! ## Changes elsewhere -/

/-- A list of parts, of which the caller owns some before and some after: it changes only
where they are its own, up to what `g` sees, and by additions at the end. -/
structure Spares {α β : Type} (g : α → β) (own own' : List Nat) (l l' : List α) : Prop where
  length_le : l.length ≤ l'.length
  owned : ∀ i ∈ own', i ∈ own ∨ l.length ≤ i ∧ i < l'.length
  kept : ∀ i < l.length, i ∉ own → (l'[i]?).map g = (l[i]?).map g

namespace Spares

variable {α β : Type} {g : α → β} {own own' own'' : List Nat} {l l' l'' : List α}

theorem of_map (h : l'.map g = l.map g) (sub : own' ⊆ own) : Spares g own own' l l' where
  length_le := by
    have := congrArg List.length h
    simp only [List.length_map] at this
    omega
  owned i hi := .inl (sub hi)
  kept i _ _ := by rw [← List.getElem?_map, ← List.getElem?_map, h]

theorem refl (sub : own' ⊆ own) : Spares g own own' l l := of_map rfl sub

theorem trans (h : Spares g own own' l l') (k : Spares g own' own'' l' l'') :
    Spares g own own'' l l'' where
  length_le := Nat.le_trans h.length_le k.length_le
  owned i hi := by
    have := h.length_le
    have := k.length_le
    rcases k.owned i hi with hi | hi
    · rcases h.owned i hi with hi | hi
      · exact .inl hi
      · exact .inr (by omega)
    · exact .inr (by omega)
  kept i hi hown := by
    have := h.length_le
    rw [k.kept i (by omega) fun hi' => ?_, h.kept i hi hown]
    rcases h.owned i hi' with h | h
    · exact hown h
    · omega

/-- The caller changes a part of its own. -/
theorem modify {i : Nat} (hi : i ∈ own) (f : α → α) (sub : own' ⊆ own) :
    Spares g own own' l (l.modify i f) where
  length_le := Nat.le_of_eq (List.length_modify ..).symm
  owned j hj := .inl (sub hj)
  kept j _ hj := by
    have hne : i ≠ j := fun h => hj (h ▸ hi)
    simp [hne]

/-- The caller gets a new part. -/
theorem append (a : α) (sub : own' ⊆ l.length :: own) : Spares g own own' l (l ++ [a]) where
  length_le := by simp
  owned j hj := by
    rcases List.mem_cons.mp (sub hj) with rfl | hj
    · exact .inr (by simp)
    · exact .inl hj
  kept j hlt _ := by rw [List.getElem?_append_left hlt]

end Spares

namespace Session

/-- The subscriptions that the caller receives from, and those it has deliveries of. -/
def ownSubscriptions (x : Session) : List Nat :=
  x.subscriptions.map Prod.snd ++ (x.deliveries.map Prod.snd).map Prod.fst

def ownQueues (x : Session) : List Nat := x.queues.map Prod.snd

theorem upToRegistries_dropWaiter (x : Session) (id : String) :
    System.UpToRegistries x.system (x.dropWaiter id).system := by
  unfold dropWaiter
  cases x.waiters.find? id with
  | none => exact .refl _
  | some h => exact .letGo x.system (some h)

theorem own_dropWaiter (x : Session) (id : String) :
    (x.dropWaiter id).ownSubscriptions = x.ownSubscriptions ∧
      (x.dropWaiter id).ownQueues = x.ownQueues := by
  unfold dropWaiter
  cases x.waiters.find? id <;> exact ⟨rfl, rfl⟩

/-- Nothing has changed but flags, counters, names, and the subscriptions and queues of the
caller. -/
structure Elsewhere (x y : Session) : Prop where
  subscriptions : Spares id x.ownSubscriptions y.ownSubscriptions
    x.system.host.broker.subscriptions y.system.host.broker.subscriptions
  queues : Spares Queue.core x.ownQueues y.ownQueues x.system.queues y.system.queues
  messages : y.system.host.broker.messages = x.system.host.broker.messages
  published : y.system.host.broker.published = x.system.host.broker.published
  now : y.system.host.now = x.system.host.now
  calls : y.system.calls = x.system.calls
  consumers : y.system.consumers = x.system.consumers
  started : y.system.started = x.system.started
  correlators : y.system.correlators.map Correlator.core = x.system.correlators.map Correlator.core
  publishers : y.system.publishers.map Publisher.core = x.system.publishers.map Publisher.core
  waiters : y.waiters = x.waiters

namespace Elsewhere

variable {x y z : Session}

theorem of_quiet (h : x.system.Quiet y.system) (queues : y.ownQueues ⊆ x.ownQueues)
    (subscriptions : y.ownSubscriptions ⊆ x.ownSubscriptions) (waiters : y.waiters = x.waiters) :
    Elsewhere x y where
  subscriptions := .of_map (by rw [h.broker]) subscriptions
  queues := .of_map h.queues queues
  messages := by rw [h.broker]
  published := by rw [h.broker]
  now := h.now
  calls := h.calls
  consumers := h.consumers
  started := h.started
  correlators := h.correlators
  publishers := h.publishers
  waiters := waiters

@[refl] theorem refl (x : Session) : Elsewhere x x :=
  of_quiet (.refl _) (List.Subset.refl _) (List.Subset.refl _) rfl

theorem trans (h : Elsewhere x y) (k : Elsewhere y z) : Elsewhere x z where
  subscriptions := h.subscriptions.trans k.subscriptions
  queues := h.queues.trans k.queues
  messages := k.messages.trans h.messages
  published := k.published.trans h.published
  now := k.now.trans h.now
  calls := k.calls.trans h.calls
  consumers := k.consumers.trans h.consumers
  started := k.started.trans h.started
  correlators := k.correlators.trans h.correlators
  publishers := k.publishers.trans h.publishers
  waiters := k.waiters.trans h.waiters

/-- Flags and counters of the broker are changed, and faults. -/
theorem of_host {h : Host} (broker : h.broker.subscriptions = x.system.host.broker.subscriptions)
    (messages : h.broker.messages = x.system.host.broker.messages)
    (published : h.broker.published = x.system.host.broker.published)
    (now : h.now = x.system.host.now) : Elsewhere x (x.onHost fun _ => h) where
  subscriptions := .of_map (congrArg _ broker) (List.Subset.refl _)
  queues := .refl (List.Subset.refl _)
  messages := messages
  published := published
  now := now
  calls := rfl
  consumers := rfl
  started := rfl
  correlators := rfl
  publishers := rfl
  waiters := rfl

/-- A subscription of the caller is received from, settled on, or given up. -/
theorem of_touches {h : Host} {i : Nat} {subscriptions : Names Nat}
    {deliveries : Names (Nat × Delivery)} (hi : i ∈ x.ownSubscriptions)
    (t : Host.Touches i x.system.host h)
    (sub : ({ x with subscriptions, deliveries } : Session).ownSubscriptions ⊆ x.ownSubscriptions) :
    Elsewhere x { x.onHost (fun _ => h) with subscriptions, deliveries } where
  subscriptions := by
    obtain ⟨f, a⟩ := t
    change Spares id _ _ _ h.broker.subscriptions
    rw [a.subscriptions]
    exact .modify hi f sub
  queues := .refl (List.Subset.refl _)
  messages := t.choose_spec.messages
  published := t.choose_spec.published
  now := t.choose_spec.now
  calls := rfl
  consumers := rfl
  started := rfl
  correlators := rfl
  publishers := rfl
  waiters := rfl

/-- The caller keeps a subscription of its own, or a new one, under another name. -/
theorem rename (h : Elsewhere x y) {subscriptions : Names Nat} {deliveries : Names (Nat × Delivery)}
    (own : ∀ i ∈ ({ y with subscriptions, deliveries } : Session).ownSubscriptions,
      i ∈ x.ownSubscriptions ∨ x.system.host.broker.subscriptions.length ≤ i ∧
        i < y.system.host.broker.subscriptions.length) :
    Elsewhere x { y with subscriptions, deliveries } :=
  { h with subscriptions := { h.subscriptions with owned := own } }

/-- A queue of the caller is used or dropped. -/
theorem of_queue {i : Nat} {f : Queue → Queue} {queues : Names Nat} (hi : i ∈ x.ownQueues)
    (sub : queues.map Prod.snd ⊆ x.ownQueues) :
    Elsewhere x { x.onSystem (·.adjustQueue i f) with queues } where
  subscriptions := .refl (List.Subset.refl _)
  queues := .modify hi f sub
  messages := rfl
  published := rfl
  now := rfl
  calls := rfl
  consumers := rfl
  started := rfl
  correlators := rfl
  publishers := rfl
  waiters := rfl

end Elsewhere

theorem mem_ownSubscriptions {x : Session} {id : String} {i : Nat} {d : Delivery}
    (h : x.deliveries.find? id = some (i, d)) : i ∈ x.ownSubscriptions :=
  List.mem_append_right _ (List.mem_map_of_mem (f := Prod.fst) (Names.mem_of_find? h))

/-! ## Dropping objects of the caller -/

theorem elsewhere_dropSubscription (x : Session) (id : String) :
    Elsewhere x (x.dropSubscription id) := by
  unfold dropSubscription
  split
  · exact .refl x
  next i hi =>
    refine .of_touches (List.mem_append_left _ (Names.mem_of_find? hi))
      (x.system.host.adjusts_stopReceiving i).touches ?_
    exact append_subset_append (Names.erase_subset _ _) (List.Subset.refl _)

theorem elsewhere_dropDelivery (x : Session) (id : String) :
    Elsewhere x (x.dropDelivery id) := by
  unfold dropDelivery
  split
  · exact .refl x
  next i d hd =>
    refine .of_touches (mem_ownSubscriptions hd) ⟨fun s => s.release d, rfl, rfl, rfl, rfl, rfl⟩ ?_
    exact append_subset_append (List.Subset.refl _) (List.map_subset _ (Names.erase_subset _ _))

theorem elsewhere_dropQueue (x : Session) (id : String) : Elsewhere x (x.dropQueue id) := by
  unfold dropQueue
  split
  · exact .refl x
  next i hi => exact .of_queue (Names.mem_of_find? hi) (Names.erase_subset _ _)

theorem elsewhere_dropPublisher (x : Session) (id : String) :
    Elsewhere x (x.dropPublisher id) := by
  unfold dropPublisher
  split
  · exact .refl x
  next i _ =>
    exact .of_quiet (x.system.quiet_dropPublisher i) (List.Subset.refl _) (List.Subset.refl _) rfl

theorem elsewhere_dropCorrelator (x : Session) (id : String) :
    Elsewhere x (x.dropCorrelator id) := by
  unfold dropCorrelator
  split
  · exact .refl x
  next i _ =>
    exact .of_quiet (x.system.quiet_dropCorrelator i) (List.Subset.refl _) (List.Subset.refl _) rfl

/-! ## Steps on objects of the caller -/

theorem elsewhere_onHost {x : Session} {h : Host} {i : Nat} (hi : i ∈ x.ownSubscriptions)
    (t : Host.Touches i x.system.host h) : Elsewhere x (x.onHost fun _ => h) :=
  .of_touches hi t (List.Subset.refl _)

theorem elsewhere_receive (x : Session) (subscription delivery : String) :
    Elsewhere x (x.receive subscription delivery).2 := by
  unfold receive
  split
  · exact .refl x
  next i hi =>
    have own : i ∈ x.ownSubscriptions := List.mem_append_left _ (Names.mem_of_find? hi)
    have begun := (x.system.host.adjusts_beginReceive i).touches
    split
    next e host he =>
      rw [he] at begun
      exact elsewhere_onHost own begun
    next host he =>
      rw [he] at begun
      split
      next d host' ht =>
        -- the delivery is kept under a name, in the place of an older one
        have taken := elsewhere_onHost own (begun.trans (Host.touches_take? ht))
        have dropped := taken.trans (elsewhere_dropDelivery _ delivery)
        refine dropped.rename fun j hj => ?_
        rcases List.mem_append.mp hj with hj | hj
        · exact dropped.subscriptions.owned j (List.mem_append_left _ hj)
        · obtain ⟨entry, he, rfl⟩ := List.mem_map.mp hj
          rcases List.mem_cons.mp (Names.insert_subset _ _ _ he) with rfl | he
          · exact .inl own
          · exact dropped.subscriptions.owned _
              (List.mem_append_right _ (List.mem_map_of_mem (f := Prod.fst) he))
      next => exact .refl x

theorem elsewhere_settle (x : Session) (delivery : String)
    {act : Host → Nat → Delivery → Except TransportError Unit × Host}
    (hact : ∀ h i d, Host.Touches i h (act h i d).2) :
    Elsewhere x (x.settle delivery act).2 := by
  unfold settle
  split
  · exact .refl x
  next i d hd =>
    have touched := hact x.system.host i d
    have settled : Elsewhere x { x.onHost (fun _ => (act x.system.host i d).2) with
        deliveries := x.deliveries.erase delivery } :=
      .of_touches (mem_ownSubscriptions hd) touched
        (append_subset_append (List.Subset.refl _) (List.map_subset _ (Names.erase_subset _ _)))
    dsimp only
    split <;> exact settled

theorem elsewhere_subscribe (x : Session) (id : String) (config : SubscriptionConfig) :
    Elsewhere x (x.subscribe id config).2 := by
  unfold subscribe
  cases hs : x.system.host.subscribe config with
  | mk result host =>
    cases result with
    | error e => exact Host.subscribe_error hs ▸ .refl x
    | ok i =>
      obtain ⟨-, rfl, rfl⟩ := Host.subscribe_ok hs
      let made := x.onBroker fun b =>
        { b with subscriptions := b.subscriptions ++ [{ toSubscriptionConfig := config }] }
      have added : Elsewhere x made :=
        { Elsewhere.refl x with subscriptions := .append _ (List.subset_cons_self _ _) }
      have dropped := added.trans (elsewhere_dropSubscription made id)
      refine dropped.rename fun j hj => ?_
      rcases List.mem_append.mp hj with hj | hj
      · rcases List.mem_cons.mp (Names.insert_subset _ _ _ hj) with rfl | hj
        · have longer := (elsewhere_dropSubscription made id).subscriptions.length_le
          exact .inr ⟨Nat.le_refl _, Nat.lt_of_lt_of_le (by simp [made, onBroker, onHost]) longer⟩
        · exact dropped.subscriptions.owned j (List.mem_append_left _ hj)
      · exact dropped.subscriptions.owned j (List.mem_append_right _ hj)

/-- A subscription that is given up at once changes nothing of the others. -/
theorem elsewhere_abandoned {x : Session} {config : SubscriptionConfig} {host : Host} {i : Nat}
    (hs : x.system.host.subscribe config = (.ok i, host)) :
    Elsewhere x (x.onHost fun _ => host.stopReceiving i) := by
  obtain ⟨-, rfl, rfl⟩ := Host.subscribe_ok hs
  have kept : x.ownSubscriptions ⊆ x.system.host.broker.subscriptions.length ::
    x.ownSubscriptions := List.subset_cons_self _ _
  have added : Spares id x.ownSubscriptions _ x.system.host.broker.subscriptions
      (x.system.host.broker.subscriptions ++ [{ toSubscriptionConfig := config }]) :=
    .append _ (List.Subset.refl _)
  exact { Elsewhere.refl x with
    subscriptions := added.trans (.modify List.mem_cons_self Subscription.stopReceiving kept) }

theorem elsewhere_makeQueue (x : Session) (id : String) (capacity : Nat) (timeout : Duration) :
    Elsewhere x (x.makeQueue id capacity timeout).2 := by
  unfold makeQueue
  split
  · exact .refl x
  let made := x.onSystem fun s => (s.addQueue (.ofCapacity capacity timeout)).2
  have added : Elsewhere x made :=
    { Elsewhere.refl x with queues := .append _ (List.subset_cons_self _ _) }
  have dropped := added.trans (elsewhere_dropQueue made id)
  have longer := (elsewhere_dropQueue made id).queues.length_le
  refine { dropped with queues := { dropped.queues with owned := fun j hj => ?_ } }
  rcases List.mem_cons.mp (Names.insert_subset _ _ _ hj) with rfl | hj
  · refine .inr ⟨Nat.le_refl _, Nat.lt_of_lt_of_le ?_ longer⟩
    simp [made, onSystem, System.addQueue]
  · exact dropped.queues.owned j hj

theorem elsewhere_dequeue (x : Session) (queue : String) :
    Elsewhere x (x.dequeue queue).2 := by
  unfold dequeue
  split
  · exact .refl x
  next i q hq =>
    obtain ⟨j, hj, he⟩ := Option.bind_eq_some_iff.mp hq
    obtain ⟨q', -, he⟩ := Option.map_eq_some_iff.mp he
    obtain ⟨rfl, rfl⟩ := Prod.mk.inj he
    split
    · exact .of_queue (Names.mem_of_find? hj) (List.Subset.refl _)
    · exact .refl x

end Session

end Script

end ChangeDispatch
