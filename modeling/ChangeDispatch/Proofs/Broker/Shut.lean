import ChangeDispatch.Proofs.Broker.Handling

/-!
# What outlasts a closing

A closed broker refuses publishes and subscriptions, and takes part in all else as an open one does:
whatever is done with deliveries then comes to the same as it would have without the closing, but
that no subscription is attached. What is put on a topic only moves the count of the messages.
-/
namespace ChangeDispatch

namespace Subscription

/-- The subscription gets nothing new. -/
def detach (s : Subscription) : Subscription := { s with attached := false }

theorem detach_arrive (s : Subscription) (d : Delivery) :
    (s.arrive d).detach = s.detach.arrive d := by
  have receiving : s.detach.receiving = s.receiving := rfl
  unfold arrive
  rw [receiving]
  split <;> rfl

theorem detach_handBack (s : Subscription) (d : Delivery) (timer : Option Timer) :
    (s.handBack d timer).detach = s.detach.handBack d timer := by
  have last : (s.detach.release d).isLast d = (s.release d).isLast d := rfl
  unfold handBack
  dsimp only
  rw [last]
  split
  · rfl
  · cases timer with
    | none => exact (s.release d).detach_arrive d.again
    | some timer => rfl

theorem detach_offerDelayed (s : Subscription) (entry : Timer × Delivery) :
    (s.offerDelayed entry).detach = s.detach.offerDelayed entry :=
  detach_arrive { s with delayed := s.delayed.erase entry } entry.2

theorem take?_detach (s : Subscription) :
    s.detach.take? = s.take?.map fun (d, t) => (d, t.detach) := by
  have waiting : s.detach.channel = s.channel := rfl
  unfold take?
  rw [waiting]
  cases s.channel <;> rfl

end Subscription

namespace Broker

/-- The broker closed, with another count of the messages there have been. -/
def shut (b : Broker) (count : Nat) : Broker := { b.close with messages := count }

theorem getElem?_shut (b : Broker) (n i : Nat) :
    (b.shut n).subscriptions[i]? = (b.subscriptions[i]?).map Subscription.detach :=
  List.getElem?_map

/-- Work on one subscription comes to the same before and after the closing. -/
theorem shut_adjust {f g : Subscription → Subscription}
    (same : ∀ s : Subscription, (f s).detach = g s.detach) (b : Broker) (n i : Nat) :
    (b.adjust i f).shut n = (b.shut n).adjust i g :=
  congrArg (fun subscriptions => { b.shut n with subscriptions }) (map_modify same _ i)

variable (b : Broker) (n i : Nat) (d : Delivery)

theorem shut_discard : (b.discard i d).shut n = (b.shut n).discard i d :=
  shut_adjust (f := (·.release d)) (fun _ => rfl) b n i

theorem shut_ack : (b.ack i d).shut n = (b.shut n).ack i d :=
  shut_adjust (f := (·.release d)) (fun _ => rfl) { b with acked := b.acked + 1 } n i

theorem shut_terminate : (b.terminate i d).shut n = (b.shut n).terminate i d :=
  shut_adjust (f := (·.release d)) (fun _ => rfl) { b with terminated := b.terminated + 1 } n i

theorem shut_nack (timer : Option Timer) :
    (b.nack i d timer).shut n = (b.shut n).nack i d timer :=
  shut_adjust (f := (·.handBack d timer)) (fun s => s.detach_handBack d timer)
    { b with nacked := b.nacked + 1 } n i

theorem shut_offerDelayed (entry : Timer × Delivery) :
    (b.offerDelayed i entry).shut n = (b.shut n).offerDelayed i entry :=
  shut_adjust (f := (·.offerDelayed entry)) (fun s => s.detach_offerDelayed entry) b n i

theorem shut_stopReceiving : (b.stopReceiving i).shut n = (b.shut n).stopReceiving i :=
  shut_adjust (f := Subscription.stopReceiving) (fun _ => rfl) b n i

theorem delayed?_shut (serial : Nat) : (b.shut n).delayed? i serial = b.delayed? i serial := by
  unfold delayed?
  rw [getElem?_shut, Option.bind_map]
  rfl

theorem take?_shut : (b.shut n).take? i = (b.take? i).map fun (d, b) => (d, b.shut n) := by
  unfold take?
  rw [getElem?_shut]
  cases hs : b.subscriptions[i]? with
  | none => rfl
  | some s =>
    show (s.detach.take?).bind _ = Option.map _ (s.take?.bind _)
    rw [s.take?_detach]
    cases s.take? with
    | none => rfl
    | some taken =>
      have moved := shut_adjust (f := fun _ => taken.2) (g := fun _ => taken.2.detach)
        (fun _ => rfl) b n i
      exact congrArg (fun b => some (taken.1, b)) moved.symm

/-- Nothing that is put on a topic arrives anywhere. -/
theorem fanOut_shut (topic : String) (payload : Payload) :
    (b.shut n).fanOut topic payload = b.shut (n + 1) := by
  have none_attached : (b.shut n).subscriptions.map (fun s =>
      if s.attached && s.topic == topic then s.arrive ⟨n, payload, 1⟩ else s) =
      (b.shut n).subscriptions := List.map_map
  exact congrArg (fun subscriptions => { b.shut (n + 1) with subscriptions }) none_attached

theorem close_shut : (b.shut n).close = b.shut n :=
  congrArg (fun subscriptions => { b.shut n with subscriptions }) List.map_map

end Broker

namespace Host

/-- A closed broker takes part in this as an open one does. -/
def Handling.outlasts : Handling → Bool
  | use (.subscribed ..) | use (.unsubscribed ..) | use (.published ..) | use (.unpublished ..)
  | use (.injected ..) | use .closed => false
  | _ => true

def shut (h : Host) (count : Nat) : Host := { h with broker := h.broker.shut count }

variable {h k l h₀ : Host} {x : Handling} {xs : List Handling} {i j n : Nat} {s s' : Subscription}
  {d : Delivery}

theorem close_eq (h : Host) : h.close.2 = h.shut h.broker.messages := rfl

theorem beginReceive_shut (h : Host) (n : Nat) :
    (h.shut n).beginReceive = (h.beginReceive.1, h.beginReceive.2.shut n) := by
  unfold beginReceive Broker.beginReceive
  have same : (h.shut n).broker.failReceives = h.broker.failReceives := rfl
  rw [same]
  cases h.broker.failReceives <;> rfl

theorem take?_shut (h : Host) (n i : Nat) :
    (h.shut n).take? i = (h.take? i).map fun (d, k) => (d, k.shut n) := by
  unfold take?
  show ((h.broker.shut n).take? i).map _ = _
  rw [Broker.take?_shut, Option.map_map, Option.map_map]
  rfl

theorem settle_shut (fails : Bool) {f : Broker → Broker} (h : Host) (n i : Nat) (d : Delivery)
    (same : (f h.broker).shut n = f (h.broker.shut n)) :
    (h.shut n).settle fails i d f =
      ((h.settle fails i d f).1, (h.settle fails i d f).2.shut n) := by
  cases fails with
  | true =>
    exact congrArg (fun broker => (Except.error settlementFailure, { h with broker }))
      (h.broker.shut_discard n i d).symm
  | false => exact congrArg (fun broker => (Except.ok (), { h with broker })) same.symm

theorem settleBy_shut (h : Host) (how : Settling) (n i : Nat) (d : Delivery) :
    (h.shut n).settleBy how i d = ((h.settleBy how i d).1, (h.settleBy how i d).2.shut n) := by
  cases how with
  | ack => exact settle_shut (f := (·.ack i d)) _ h n i d (h.broker.shut_ack n i d)
  | term => exact settle_shut (f := (·.terminate i d)) _ h n i d (h.broker.shut_terminate n i d)
  | nack delay =>
    unfold settleBy Host.nack
    dsimp only
    split
    · exact settle_shut (f := (·.nack i d none)) _ h n i d (h.broker.shut_nack n i d none)
    · exact settle_shut (f := (·.nack i d (some (h.setTimer delay.ticks).1))) _
        (h.setTimer delay.ticks).2 n i d (h.broker.shut_nack n i d _)

theorem getElem?_shut (h : Host) (n i : Nat) :
    (h.shut n).broker.subscriptions[i]? =
      (h.broker.subscriptions[i]?).map Subscription.detach :=
  h.broker.getElem?_shut n i

theorem shut_broker {f : Broker → Broker} (h : Host)
    (same : (f h.broker).shut n = f (h.broker.shut n)) :
    ({ h with broker := f h.broker } : Host).shut n =
      { h.shut n with broker := f (h.shut n).broker } :=
  congrArg (fun broker => { h with broker }) same

theorem shut_offerDelayed (h : Host) (n i : Nat) (entry : Timer × Delivery) :
    ({ h with broker := h.broker.offerDelayed i entry } : Host).shut n =
      { h.shut n with broker := (h.shut n).broker.offerDelayed i entry } :=
  h.shut_broker (f := (·.offerDelayed i entry)) (h.broker.shut_offerDelayed n i entry)

theorem shut_discard (h : Host) (n i : Nat) (d : Delivery) :
    ({ h with broker := h.broker.discard i d } : Host).shut n =
      { h.shut n with broker := (h.shut n).broker.discard i d } :=
  h.shut_broker (f := (·.discard i d)) (h.broker.shut_discard n i d)

theorem shut_stopReceiving (h : Host) (n i : Nat) :
    (h.stopReceiving i).shut n = (h.shut n).stopReceiving i :=
  h.shut_broker (f := (·.stopReceiving i)) (h.broker.shut_stopReceiving n i)

/-- What can be done with an open broker, and outlasts it, can be done with a closed one. -/
theorem Handles.shut (handles : Handles h x k) (outlasts : x.outlasts) (n : Nat) :
    Handles (h.shut n) x (k.shut n) := by
  have begun := h.beginReceive_shut n
  have there : ∀ {i : Nat} {s : Subscription}, h.broker.subscriptions[i]? = some s →
      (h.shut n).broker.subscriptions[i]? = some s.detach := fun hs => by
    rw [getElem?_shut, hs]
    rfl
  cases handles with
  | use does =>
    cases does with
    | failPublishes => exact .use .failPublishes
    | failReceives => exact .use .failReceives
    | failSubscriptions => exact .use .failSubscriptions
    | received hb ht =>
      rw [hb] at begun
      exact .use (.received begun (by rw [take?_shut, ht]; rfl))
    | awaited ht => exact .use (.awaited (by rw [take?_shut, ht]; rfl))
    | unreceived hb =>
      rw [hb] at begun
      exact .use (.unreceived begun)
    | pending hb ht =>
      rw [hb] at begun
      exact .use (.pending begun (by rw [take?_shut, ht]; rfl))
    | @settled how i s d hs held =>
      have settled : ((h.shut n).settleBy how i d).2 = (h.settleBy how i d).2.shut n :=
        congrArg Prod.snd (h.settleBy_shut how n i d)
      exact settled ▸ .use (.settled (there hs) held)
    | @offered i serial entry delayed due =>
      have delayed := (h.broker.delayed?_shut n i serial).trans delayed
      exact h.shut_offerDelayed n i entry ▸ .use (.offered delayed due)
    | passed later => exact .use (.passed later)
    | _ => cases outlasts
  | @discarded i s d hs held => exact h.shut_discard n i d ▸ .discarded (there hs) held
  | @left i s hs => exact h.shut_stopReceiving n i ▸ .left (there hs)

/-- Nothing else can be done with a closed broker, and what does not outlast it leaves it as it
is. -/
theorem Handles.of_shut (handles : Handles (h.shut n) x l) :
    (x.outlasts ∧ ∃ k, Handles h x k ∧ l = k.shut n) ∨
      (x.outlasts = false ∧ ∃ m, l = h.shut m) := by
  have begun : ∀ {e : Option TransportError} {m : Host},
      (h.shut n).beginReceive = (e, m) → ∃ k, h.beginReceive = (e, k) ∧ m = k.shut n :=
    fun hb => by
      obtain ⟨rfl, rfl⟩ := Prod.mk.inj ((h.beginReceive_shut n).symm.trans hb)
      exact ⟨_, rfl, rfl⟩
  have taken : ∀ {h : Host} {i : Nat} {d : Delivery} {m : Host},
      (h.shut n).take? i = some (d, m) → ∃ k, h.take? i = some (d, k) ∧ m = k.shut n :=
    fun {h i _ _} ht => by
      obtain ⟨⟨d, k⟩, hk, he⟩ := Option.map_eq_some_iff.mp ((h.take?_shut n i).symm.trans ht)
      obtain ⟨rfl, rfl⟩ := Prod.mk.inj he
      exact ⟨k, hk, rfl⟩
  have there : ∀ {i : Nat} {t : Subscription},
      (h.shut n).broker.subscriptions[i]? = some t →
      ∃ s, h.broker.subscriptions[i]? = some s ∧ t = s.detach := fun ht => by
    obtain ⟨s, hs, rfl⟩ := Option.map_eq_some_iff.mp ((h.getElem?_shut n _).symm.trans ht)
    exact ⟨s, hs, rfl⟩
  cases handles with
  | use does =>
    cases does with
    | subscribed hs => cases (subscribe_ok hs).1
    | unsubscribed hs => exact .inr ⟨rfl, n, subscribe_error hs⟩
    | published hp => cases hp
    | unpublished hp => exact .inr ⟨rfl, n, (Prod.mk.inj hp).2.symm⟩
    | @injected topic payload =>
      have nowhere := h.broker.fanOut_shut n topic payload
      exact .inr ⟨rfl, n + 1, congrArg (fun broker => { h with broker }) nowhere⟩
    | closed =>
      exact .inr ⟨rfl, n, congrArg (fun broker => { h with broker }) (h.broker.close_shut n)⟩
    | failPublishes => exact .inl ⟨rfl, _, .use .failPublishes, rfl⟩
    | failReceives => exact .inl ⟨rfl, _, .use .failReceives, rfl⟩
    | failSubscriptions => exact .inl ⟨rfl, _, .use .failSubscriptions, rfl⟩
    | received hb ht =>
      obtain ⟨k₀, begun, rfl⟩ := begun hb
      obtain ⟨k, taken, rfl⟩ := taken ht
      exact .inl ⟨rfl, k, .use (.received begun taken), rfl⟩
    | awaited ht =>
      obtain ⟨k, taken, rfl⟩ := taken ht
      exact .inl ⟨rfl, k, .use (.awaited taken), rfl⟩
    | unreceived hb =>
      obtain ⟨k, begun, rfl⟩ := begun hb
      exact .inl ⟨rfl, k, .use (.unreceived begun), rfl⟩
    | pending hb ht =>
      obtain ⟨k, begun, rfl⟩ := begun hb
      have nothing := Option.map_eq_none_iff.mp ((k.take?_shut n _).symm.trans ht)
      exact .inl ⟨rfl, k, .use (.pending begun nothing), rfl⟩
    | @settled how i _ d hs held =>
      obtain ⟨s, there, rfl⟩ := there hs
      have settled := congrArg Prod.snd (h.settleBy_shut how n i d)
      exact .inl ⟨rfl, _, .use (.settled there held), settled⟩
    | @offered i serial entry delayed due =>
      have delayed := (h.broker.delayed?_shut n i serial).symm.trans delayed
      exact .inl ⟨rfl, _, .use (.offered delayed due), (h.shut_offerDelayed n i entry).symm⟩
    | passed later => exact .inl ⟨rfl, _, .use (.passed later), rfl⟩
  | @discarded i _ d hs held =>
    obtain ⟨s, there, rfl⟩ := there hs
    exact .inl ⟨rfl, _, .discarded there held, (h.shut_discard n i d).symm⟩
  | @left i _ hs =>
    obtain ⟨s, there, rfl⟩ := there hs
    exact .inl ⟨rfl, _, .left there, (h.shut_stopReceiving n i).symm⟩

theorem Handled.shut (handled : Handled h xs k) (outlasts : ∀ x ∈ xs, x.outlasts) (n : Nat) :
    Handled (h.shut n) xs (k.shut n) := by
  induction handled with
  | start => exact .start
  | next _ handles ih =>
    obtain ⟨latest, earlier⟩ := List.forall_mem_cons.mp outlasts
    exact .next (ih earlier) (handles.shut latest n)

theorem Handled.of_shut (handled : Handled (h.shut n) xs l) :
    ∃ k m, Handled h (xs.filter Handling.outlasts) k ∧ l = k.shut m := by
  induction handled with
  | start => exact ⟨h, n, .start, rfl⟩
  | @next xs x _ _ _ handles ih =>
    obtain ⟨k, m, earlier, rfl⟩ := ih
    rw [List.filter_cons]
    rcases handles.of_shut with ⟨outlasts, k', latest, rfl⟩ | ⟨not, m', rfl⟩
    · rw [if_pos outlasts]
      exact ⟨k', m, earlier.next latest, rfl⟩
    · rw [if_neg (by simp [not])]
      exact ⟨k, m', earlier, rfl⟩

end Host

end ChangeDispatch
