import ChangeDispatch.Proofs.Broker.Shut
import ChangeDispatch.Script.Session

/-!
# Closing a broker

Nothing new arrives at the subscriptions of a closed broker, and every message that was there stays
until the subscription is done with it. Every offer that is outstanding can still be received and
settled. The stream of a subscription ends when its last sender is gone, which is when nothing is
outstanding any more.
-/
namespace ChangeDispatch

namespace Host

variable {h k l : Host} {x : Handling} {xs : List Handling} {j : Nat} {s s' : Subscription}
  {d : Delivery}

/-! ## A closed broker gets nothing new -/

theorem attempts_beginReceive (h : Host) :
    h.beginReceive.2.broker.attempts = h.broker.attempts := by
  unfold beginReceive Broker.beginReceive
  cases h.broker.failReceives <;> rfl

theorem attempts_settle (h : Host) (fails : Bool) (i : Nat) (d : Delivery) {f : Broker → Broker}
    (same : (f h.broker).attempts = h.broker.attempts) :
    (h.settle fails i d f).2.broker.attempts = h.broker.attempts := by
  cases fails with
  | true => rfl
  | false => exact same

theorem attempts_settleBy (h : Host) (how : Settling) (i : Nat) (d : Delivery) :
    (h.settleBy how i d).2.broker.attempts = h.broker.attempts := by
  cases how with
  | ack => exact h.attempts_settle _ i d rfl
  | term => exact h.attempts_settle _ i d rfl
  | nack delay =>
    unfold settleBy Host.nack
    dsimp only
    split
    · exact h.attempts_settle _ i d rfl
    · exact (h.setTimer delay.ticks).2.attempts_settle _ i d rfl

/-- What outlasts the closing publishes nothing. -/
theorem Handles.attempts (handles : Handles h x k) (outlasts : x.outlasts) :
    k.broker.attempts = h.broker.attempts := by
  have begun := h.attempts_beginReceive
  have taken : ∀ {h k : Host} {i : Nat} {d : Delivery}, h.take? i = some (d, k) →
      k.broker.attempts = h.broker.attempts := fun ht => by
    obtain ⟨s, channel, -, -, rfl⟩ := take?_eq_some ht
    rfl
  cases handles with
  | use does =>
    cases does with
    | received hb ht =>
      rw [hb] at begun
      exact (taken ht).trans begun
    | awaited ht => exact taken ht
    | unreceived hb =>
      rw [hb] at begun
      exact begun
    | pending hb _ =>
      rw [hb] at begun
      exact begun
    | settled _ _ => exact h.attempts_settleBy _ _ _
    | failPublishes => rfl
    | failReceives => rfl
    | failSubscriptions => rfl
    | offered _ _ => rfl
    | passed _ => rfl
    | _ => cases outlasts
  | discarded _ _ => rfl
  | left _ => rfl

/-- What outlasts the closing makes no subscription. -/
theorem Moves.length (moves : Moves h x k) (outlasts : x.outlasts) :
    k.broker.subscriptions.length = h.broker.subscriptions.length := by
  cases moves with
  | same subscriptions _ => rw [subscriptions]
  | made hx _ => cases hx ▸ outlasts
  | put _ _ subscriptions => rw [subscriptions, List.length_map]
  | turned _ subscriptions _ _ => rw [subscriptions, List.length_modify]
  | closed _ subscriptions => rw [subscriptions, List.length_map]

theorem Handled.outlasting (handled : Handled h xs k) (sound : Sound h)
    (outlasts : ∀ x ∈ xs, x.outlasts) :
    k.broker.attempts = h.broker.attempts ∧
      k.broker.subscriptions.length = h.broker.subscriptions.length := by
  induction handled with
  | start => exact ⟨rfl, rfl⟩
  | next handled handles ih =>
    obtain ⟨latest, earlier⟩ := List.forall_mem_cons.mp outlasts
    obtain ⟨attempts, length⟩ := ih earlier
    have moves := handles.moves (handled.sound sound).faultless
    exact ⟨(handles.attempts latest).trans attempts, (moves.length latest).trans length⟩

/-- The message that a subscription is done with: an offer is settled for good, or dropped. -/
def Handling.dismissed? (j : Nat) (bound : Option Nat) : Handling → Option (Nat × Payload)
  | use (.settled how i d) => if i = j ∧ how.isLast bound d then some d.copy else none
  | discarded i d => if i = j then some d.copy else none
  | _ => none

def dismissed (xs : List Handling) (j : Nat) (bound : Option Nat) : List (Nat × Payload) :=
  xs.filterMap (Handling.dismissed? j bound)

theorem dismissed_cons (x : Handling) (xs : List Handling) (j : Nat) (bound : Option Nat) :
    dismissed (x :: xs) j bound = (x.dismissed? j bound).toList ++ dismissed xs j bound := by
  unfold dismissed
  rw [List.filterMap_cons]
  split
  next none => rw [none]; rfl
  next some => rw [some]; rfl

theorem dismissed?_of_aside (aside : x.Aside j) (bound : Option Nat) :
    x.dismissed? j bound = none := by
  cases x with
  | use u =>
    cases u with
    | settled how i d => exact if_neg fun same => aside same.1
    | _ => rfl
  | discarded i d => exact if_neg aside
  | left i => rfl

/-- What a handling leaves of a subscription that gets nothing new: every message stays until the
subscription is done with it, but that a receiver who goes away loses offers. -/
structure Ebbs (j : Nat) (s : Subscription) (x : Handling) (s' : Subscription) : Prop where
  config : s'.toSubscriptionConfig = s.toSubscriptionConfig
  attached : s'.attached = false
  received : ∀ d, x = .use (.received j d) → d.copy ∈ s.copies
  within : ((x.dismissed? j s.maxDeliveries).toList ++ s'.copies).Subperm s.copies
  whole : s'.receiving →
    s.receiving ∧ ((x.dismissed? j s.maxDeliveries).toList ++ s'.copies).Perm s.copies

/-- An offer is settled for good, or dropped. -/
theorem ebbs_release (detached : s.attached = false) (held : d ∈ s.held)
    (dismissed : x.dismissed? j s.maxDeliveries = some d.copy)
    (other : ∀ d, x ≠ .use (.received j d)) : Ebbs j s x (s.release d) where
  config := rfl
  attached := detached
  received d hx := (other d hx).elim
  within := by
    rw [dismissed]
    exact (Subscription.copies_release held).symm.subperm
  whole receiving := by
    rw [dismissed]
    exact ⟨receiving, (Subscription.copies_release held).symm⟩

/-- The subscription is not done with any message. -/
theorem ebbs_of_none (dismissed : x.dismissed? j s.maxDeliveries = none)
    (config : s'.toSubscriptionConfig = s.toSubscriptionConfig) (attached : s'.attached = false)
    (received : ∀ d, x = .use (.received j d) → d.copy ∈ s.copies)
    (within : s'.copies.Subperm s.copies)
    (whole : s'.receiving → s.receiving ∧ s'.copies.Perm s.copies) : Ebbs j s x s' where
  config := config
  attached := attached
  received := received
  within := by rwa [dismissed]
  whole := by rwa [dismissed]

theorem Turn.ebbs (turn : Turn h j s x s') (detached : s.attached = false) : Ebbs j s x s' := by
  have whole : s.receiving → s.receiving ∧ s.copies.Perm s.copies := fun r => ⟨r, .refl _⟩
  cases turn with
  | aside aside =>
    refine ebbs_of_none (dismissed?_of_aside aside _) rfl detached ?_ (.refl _) whole
    rintro d rfl
    exact (aside rfl).elim
  | @put u topic d puts =>
    have nothing : s.receive topic d = s := by
      unfold Subscription.receive
      rw [detached]
      rfl
    rw [nothing]
    cases u with
    | published _ _ _ => exact ebbs_of_none rfl rfl detached nofun (.refl _) whole
    | injected _ _ _ => exact ebbs_of_none rfl rfl detached nofun (.refl _) whole
    | _ => cases puts
  | @received d channel waiting =>
    have taken := Subscription.copies_take waiting
    refine ebbs_of_none rfl rfl detached ?_ taken.subperm fun r => ⟨r, taken⟩
    rintro d' same
    cases same
    rw [Subscription.copies_eq, waiting]
    exact List.mem_append_left _ List.mem_cons_self
  | @settled how d held notNack =>
    refine ebbs_release detached held (if_pos ⟨rfl, ?_⟩) nofun
    cases how with
    | nack delay => cases notNack
    | _ => rfl
  | @handedBack delay d held =>
    by_cases last : s.isLast d
    · rw [Subscription.copies_handBack_last last]
      exact ebbs_release detached held (if_pos ⟨rfl, last⟩) nofun
    · obtain ⟨config, -, receiving, attached⟩ := s.config_handBack d (h.backTimer? delay)
      refine ebbs_of_none (if_neg fun dismissed => last dismissed.2) config
        (attached.trans detached) nofun (Subscription.copies_handBack_subperm held _) fun r => ?_
      rw [receiving] at r
      exact ⟨r, Subscription.copies_handBack held r (by simpa using last) _⟩
  | @offered serial entry found _ =>
    have there := List.mem_of_find?_eq_some found
    obtain ⟨config, -, receiving, attached⟩ :=
      Subscription.config_arrive { s with delayed := s.delayed.erase entry } entry.2
    refine ebbs_of_none rfl config (attached.trans detached) nofun
      (Subscription.copies_offerDelayed_subperm there) fun r => ?_
    rw [Subscription.offerDelayed, receiving] at r
    exact ⟨r, Subscription.copies_offerDelayed there r⟩
  | closed => exact ebbs_of_none rfl rfl rfl nofun (.refl _) whole
  | discarded held => exact ebbs_release detached held (if_pos rfl) nofun
  | left => exact ebbs_of_none rfl rfl detached nofun s.copies_stopReceiving_subperm nofun

/-- What is left at subscription `j` of what was there when it last got anything new. -/
structure Left (j : Nat) (s : Subscription) (later : List Handling) (s' : Subscription) :
    Prop where
  config : s'.toSubscriptionConfig = s.toSubscriptionConfig
  attached : s'.attached = false
  /-- Only what was there is received. -/
  received : ∀ d, .use (.received j d) ∈ later → d.copy ∈ s.copies
  within : (dismissed later j s.maxDeliveries ++ s'.copies).Subperm s.copies
  /-- Nothing is lost while somebody receives. -/
  whole : s'.receiving → (dismissed later j s.maxDeliveries ++ s'.copies).Perm s.copies

theorem Left.next {later : List Handling} {t : Subscription} (left : Left j t later s)
    (ebbs : Ebbs j s x s') : Left j t (x :: later) s' := by
  have bound : s.maxDeliveries = t.maxDeliveries :=
    congrArg SubscriptionConfig.maxDeliveries left.config
  have moved : (dismissed (x :: later) j t.maxDeliveries ++ s'.copies).Perm
      (dismissed later j t.maxDeliveries ++
        ((x.dismissed? j s.maxDeliveries).toList ++ s'.copies)) := by
    rw [dismissed_cons, bound, ← List.append_assoc]
    exact List.perm_append_comm.append_right _
  constructor
  case config => exact ebbs.config.trans left.config
  case attached => exact ebbs.attached
  case received =>
    intro d receipt
    rcases List.mem_cons.mp receipt with latest | earlier
    · have still : (s.copies).Subset t.copies := fun _ there =>
        left.within.subset (List.mem_append_right _ there)
      exact still (ebbs.received d latest.symm)
    · exact left.received d earlier
  case within =>
    exact moved.subperm.trans (((List.subperm_append_left _).mpr ebbs.within).trans left.within)
  case whole =>
    intro receiving
    obtain ⟨before, same⟩ := ebbs.whole receiving
    exact moved.trans ((same.append_left _).trans (left.whole before))

/-- A closed broker leaves every subscription what it has. -/
theorem Handled.left {later : List Handling} (handled : Handled h.close.2 later l)
    (sound : Sound h) (hs : h.broker.subscriptions[j]? = some s) :
    ∃ s', l.broker.subscriptions[j]? = some s' ∧ Left j s later s' := by
  have shut : Sound h.close.2 := sound.next (.use .closed)
  induction handled with
  | start =>
    refine ⟨s.detach, by rw [close_eq, getElem?_shut, hs]; rfl, rfl, rfl, nofun, .refl _, ?_⟩
    exact fun _ => .refl _
  | @next xs x k l handled handles ih =>
    obtain ⟨s₁, hs₁, left⟩ := ih
    obtain ⟨s', hs', turn⟩ := (handles.moves (handled.sound shut).faultless).turn hs₁
    exact ⟨s', hs', left.next (turn.ebbs left.attached)⟩

/-! ## What is left can be received and settled -/

def receiveFailure : TransportError := .receive "injected receive failure"

/-- Receives use up the failures that the broker was told of. -/
theorem handled_unreceived (h : Host) (j : Nat) {m : Nat} (enough : m ≤ h.broker.failReceives) :
    Handled h (List.replicate m (.use (.unreceived j receiveFailure)))
      { h with broker := { h.broker with failReceives := h.broker.failReceives - m } } := by
  induction m with
  | zero => exact .start
  | succ m ih =>
    have earlier := ih (Nat.le_of_succ_le enough)
    have one_more : h.broker.failReceives - m = h.broker.failReceives - (m + 1) + 1 := by omega
    rw [one_more] at earlier
    exact earlier.next (.use (.unreceived rfl))

/-- What waits in the channel is received in order. -/
theorem exists_received (hs : h.broker.subscriptions[j]? = some s)
    (ready : h.broker.failReceives = 0) :
    ∃ k, Handled h (s.channel.map fun d => .use (.received j d)).reverse k ∧
      k.broker.subscriptions[j]? =
        some { s with channel := [], held := s.held ++ s.channel } := by
  induction hc : s.channel generalizing h s with
  | nil =>
    refine ⟨h, .start, ?_⟩
    rw [hs, List.append_nil, ← hc]
  | cons d channel ih =>
    have begun : h.beginReceive = (none, h) := by
      unfold beginReceive Broker.beginReceive
      rw [ready]
    obtain ⟨d', k, taken⟩ := exists_take? hs (by rw [hc]; exact List.cons_ne_nil d channel)
    obtain ⟨channel', waiting, hk⟩ := getElem?_take? taken hs
    obtain ⟨rfl, rfl⟩ := List.cons.inj (waiting.symm.trans hc)
    have ready' : k.broker.failReceives = 0 := by
      obtain ⟨_, _, -, -, rfl⟩ := take?_eq_some taken
      exact ready
    obtain ⟨l, rest, hl⟩ := ih hk ready' rfl
    refine ⟨l, ?_, by rw [hl]; simp⟩
    rw [List.map_cons, List.reverse_cons]
    exact Handled.trans (.next .start (.use (.received begun taken))) rest

/-- What a settlement makes of a subscription. -/
def Settling.leaves (how : Settling) (h : Host) (s : Subscription) (d : Delivery) : Subscription :=
  match how with
  | .nack delay => s.handBack d (h.backTimer? delay)
  | _ => s.release d

theorem settleBy_ok (faultless : h.faults = {}) (how : Settling) (i : Nat) (d : Delivery) :
    (h.settleBy how i d).1 = .ok () := by
  cases how with
  | ack =>
    unfold settleBy Host.ack settle
    rw [faultless]
    rfl
  | term =>
    unfold settleBy Host.terminate settle
    rw [faultless]
    rfl
  | nack delay =>
    unfold settleBy Host.nack settle setTimer
    dsimp only
    rw [faultless]
    split <;> rfl

theorem getElem?_settleBy (faultless : h.faults = {}) (hs : h.broker.subscriptions[j]? = some s)
    (how : Settling) (d : Delivery) :
    (h.settleBy how j d).2.broker.subscriptions[j]? = some (how.leaves h s d) := by
  cases how with
  | ack => exact (h.adjusts_ack j d).getElem?.trans (congrArg _ hs)
  | term => exact (h.adjusts_terminate j d).getElem?.trans (congrArg _ hs)
  | nack delay => exact (adjusts_nackBy faultless delay j d).getElem?.trans (congrArg _ hs)

/-- An offer that is held back is made from the moment on at which its timer is due. -/
theorem offers_iff (timed : s.Timed h.timers) (hs : h.broker.subscriptions[j]? = some s)
    {entry : Timer × Delivery} (there : entry ∈ s.delayed) :
    Handles h (.use (.offered j entry.1.serial)) k ↔
      entry.1.due ≤ h.now ∧ k = { h with broker := h.broker.offerDelayed j entry } := by
  have found : h.broker.delayed? j entry.1.serial = some entry := by
    unfold Broker.delayed?
    rw [hs]
    exact timed.delayed?_eq there
  constructor
  · intro handles
    cases handles with
    | use does =>
      cases does with
      | offered delayed due =>
        obtain rfl := Option.some.inj (delayed.symm.trans found)
        exact ⟨of_decide_eq_true due, rfl⟩
  · rintro ⟨due, rfl⟩
    exact .use (.offered found (decide_eq_true due))

/-- The receives that empty a channel, with those before that fail. -/
def emptying (j failures : Nat) (channel : List Delivery) : List Handling :=
  (channel.map fun d => .use (.received j d)).reverse ++
    List.replicate failures (.use (.unreceived j receiveFailure))

theorem exists_emptied (hs : h.broker.subscriptions[j]? = some s) :
    ∃ k, Handled h (emptying j h.broker.failReceives s.channel) k ∧
      k.broker.subscriptions[j]? =
        some { s with channel := [], held := s.held ++ s.channel } := by
  have failed := h.handled_unreceived j (Nat.le_refl h.broker.failReceives)
  obtain ⟨k, received, hk⟩ := exists_received
    (h := { h with broker := { h.broker with failReceives := h.broker.failReceives - _ } }) hs
    (Nat.sub_self _)
  exact ⟨k, failed.trans received, hk⟩

theorem exists_settled_of_waiting (hs : h.broker.subscriptions[j]? = some s) (waits : d ∈ s.channel)
    (how : Settling) : ∃ xs k, Handled h (.use (.settled how j d) :: xs) k := by
  obtain ⟨k, received, hk⟩ := exists_emptied hs
  exact ⟨_, _, received.next (.use (.settled hk (List.mem_append_right _ waits)))⟩

/-- Whatever is outstanding comes to be settled in any way, if somebody receives. -/
theorem exists_settled (timed : s.Timed h.timers) (hs : h.broker.subscriptions[j]? = some s)
    (there : d ∈ s.outstanding) (reached : s.receiving ∨ d ∈ s.held) (how : Settling) :
    ∃ xs k, Handled h (.use (.settled how j d) :: xs) k := by
  by_cases held : d ∈ s.held
  · exact ⟨[], _, .next .start (.use (.settled hs held))⟩
  have receiving := reached.resolve_right held
  rcases List.mem_append.mp there with waits | there
  · exact exists_settled_of_waiting hs waits how
  -- it is held back: its time comes, and it goes to the channel
  have delayed := (List.mem_append.mp there).resolve_left held
  obtain ⟨entry, timer, rfl⟩ := List.mem_map.mp delayed
  let moment := max h.now entry.1.due
  have passed : Handles h (.use (.passed moment)) { h with now := moment } :=
    .use (.passed (Nat.le_max_left _ _))
  have offered := (offers_iff (h := { h with now := moment }) timed hs timer).mpr
    ⟨Nat.le_max_right _ _, rfl⟩
  have arrived : ({ h with now := moment, broker := h.broker.offerDelayed j entry } :
      Host).broker.subscriptions[j]? = some (s.offerDelayed entry) := by
    simp [Broker.offerDelayed, Broker.adjust, hs]
  have waits : entry.2 ∈ (s.offerDelayed entry).channel := by
    simp [Subscription.offerDelayed, Subscription.arrive, receiving]
  obtain ⟨xs, l, settled⟩ := exists_settled_of_waiting arrived waits how
  exact ⟨_, l, Handled.trans (.next (.next .start passed) offered) settled⟩

/-! ## The end of a stream -/

theorem isEnded_eq (hs : h.broker.subscriptions[j]? = some s) :
    h.broker.isEnded j = s.isEnded := by
  unfold Broker.isEnded
  rw [hs]
  rfl

theorem isEnded_iff (detached : s.attached = false) : s.isEnded ↔ s.outstanding = [] := by
  unfold Subscription.isEnded Subscription.outstanding
  rw [detached]
  simp [and_assoc]

theorem places_of_detached (detached : s.attached = false) :
    places s = s.channel.length + s.held.length + 2 * s.delayed.length := by
  unfold places
  rw [detached]
  simp

end Host

/-- A receive tells the end of the stream when it meets no failure and nothing can arrive. -/
theorem Script.Session.finished_iff {x : Session} {id : String} {j : Nat} {s : Subscription}
    (named : x.subscriptions.find? id = some j)
    (hs : x.system.host.broker.subscriptions[j]? = some s) (delivery : String) :
    (x.receive id delivery).1 = .finished ↔
      x.system.host.broker.failReceives = 0 ∧ s.isEnded := by
  unfold receive Host.beginReceive Broker.beginReceive
  rw [named]
  dsimp only
  cases hf : x.system.host.broker.failReceives with
  | succ n => simp
  | zero =>
    dsimp only
    cases ht : Host.take? _ j with
    | none =>
      have ended : x.system.host.broker.isEnded j = s.isEnded := Host.isEnded_eq hs
      dsimp only
      rw [ended]
      cases s.isEnded <;> simp
    | some taken =>
      obtain ⟨channel, waiting, -⟩ := Host.getElem?_take? (h := x.system.host) ht hs
      simp [Subscription.isEnded, waiting]

namespace Host

variable {h l : Host} {xs earlier later : List Handling} {j : Nat} {s : Subscription}

/-- What a closed broker has offered can be received and settled, and the stream ends with it. -/
structure Drains (j : Nat) (xs : List Handling) (l : Host) (s : Subscription) : Prop where
  /-- All that waits is received in order, once the receives that are to fail have failed. -/
  received : ∃ k, Handled l (emptying j l.broker.failReceives s.channel) k ∧
    k.broker.subscriptions[j]? = some { s with channel := [], held := s.held ++ s.channel }
  /-- What is held can be settled in any way; what is nacked is offered again as ever. -/
  settled : ∀ d ∈ s.held, ∀ how : Settling,
    Handles l (.use (.settled how j d)) (l.settleBy how j d).2 ∧
      (l.settleBy how j d).1 = .ok () ∧
      (l.settleBy how j d).2.broker.subscriptions[j]? = some (how.leaves l s d)
  /-- What is held back can be offered again when its timer is due, and no earlier. -/
  offered : ∀ entry ∈ s.delayed, ∀ (moment : Nat) (k : Host), l.now ≤ moment →
    (Handled l [.use (.offered j entry.1.serial), .use (.passed moment)] k ↔
      entry.1.due ≤ moment ∧
        k = { l with now := moment, broker := l.broker.offerDelayed j entry })
  /-- So every offer comes to be settled that has a receiver. -/
  outstanding : ∀ d ∈ s.outstanding, s.receiving ∨ d ∈ s.held → ∀ how : Settling,
    ∃ xs k, Handled l (.use (.settled how j d) :: xs) k
  /-- The senders are those of the offers and of the timers. -/
  senders : ∀ n, Senders j xs l n ↔
    n = s.channel.length + s.held.length + 2 * s.delayed.length
  ended : l.broker.isEnded j ↔ Senders j xs l 0
  finished : ∀ (x : Script.Session) (id delivery : String),
    x.system.host = l → x.subscriptions.find? id = some j →
    ((x.receive id delivery).1 = .finished ↔
      l.broker.failReceives = 0 ∧ s.outstanding = [])

theorem drains (handled : Handled {} xs l) (hs : l.broker.subscriptions[j]? = some s)
    (detached : s.attached = false) : Drains j xs l s where
  received := exists_emptied hs
  settled d held how :=
    have faultless := (handled.sound sound_new).faultless
    ⟨.use (.settled hs held), settleBy_ok faultless how j d,
      getElem?_settleBy faultless hs how d⟩
  offered entry there moment k later := by
    have timed := (handled.sound sound_new).timed j s hs
    constructor
    · rintro (_ | ⟨_ | ⟨_ | _, passed⟩, offered⟩)
      cases passed with
      | use does =>
        cases does
        exact (offers_iff (h := { l with now := moment }) timed hs there).mp offered
    · intro offered
      exact .next (.next .start (.use (.passed later)))
        ((offers_iff (h := { l with now := moment }) timed hs there).mpr offered)
  outstanding d there reached how :=
    exists_settled ((handled.sound sound_new).timed j s hs) hs there reached how
  senders n := by rw [handled.senders_iff hs, places_of_detached detached]
  ended := by
    have counted : s.outstanding.length =
        s.channel.length + (s.held.length + s.delayed.length) := by
      simp [Subscription.outstanding]
    rw [handled.senders_iff hs, places_of_detached detached, isEnded_eq hs, isEnded_iff detached,
      ← List.length_eq_zero_iff, counted]
    omega
  finished x id delivery host named := by
    subst host
    rw [Script.Session.finished_iff named hs, isEnded_iff detached]

/-- What there is after `later` of a broker that was closed as it was in `h`. -/
structure AfterClosing (earlier later : List Handling) (h l : Host) : Prop where
  publish : ∀ (topic : String) (payload : Payload),
    l.publish topic payload = (.error .closed, l)
  subscribe : ∀ config : SubscriptionConfig, l.subscribe config = (.error .closed, l)
  published : l.broker.published = h.broker.published
  attempts : l.broker.attempts = h.broker.attempts
  length : l.broker.subscriptions.length = h.broker.subscriptions.length
  /-- But for what was refused, the same could have been done without the closing, to the same
  effect, and what could be done from there on can be done now. -/
  spared : ∃ k n, Handled h (later.filter Handling.outlasts) k ∧ l = k.shut n ∧
    ∀ xs m, Handled k xs m → (∀ x ∈ xs, x.outlasts) → Handled l xs (m.shut n)
  subscriptions : ∀ (j : Nat) (s : Subscription), h.broker.subscriptions[j]? = some s →
    ∃ s', l.broker.subscriptions[j]? = some s' ∧ Left j s later s' ∧
      Drains j (later ++ .use .closed :: earlier) l s'

/-- A closed broker refuses publishes and subscriptions, and nothing new arrives anywhere. What it
had offered can be received and settled as ever, and a stream ends with the last of it. -/
theorem close_spares_deliveries (before : Handled {} earlier h)
    (after : Handled h.close.2 later l) : AfterClosing earlier later h l := by
  obtain ⟨k, n, spared, rfl⟩ := (h.close_eq ▸ after).of_shut
  have outlasting : ∀ x ∈ later.filter Handling.outlasts, x.outlasts := fun _ filtered =>
    List.of_mem_filter filtered
  have sound := before.sound sound_new
  obtain ⟨attempts, length⟩ := spared.outlasting sound outlasting
  have handled := (before.next (.use .closed)).trans after
  constructor
  case publish => exact fun _ _ => rfl
  case subscribe => exact fun _ => rfl
  case published => exact after.rests.published rfl
  case attempts => exact attempts
  case length => exact (List.length_map Subscription.detach).trans length
  case spared => exact ⟨k, n, spared, rfl, fun xs m more outlasts => more.shut outlasts n⟩
  case subscriptions =>
    intro j s hs
    obtain ⟨s', hs', left⟩ := after.left sound hs
    exact ⟨s', hs', left, drains handled hs' left.attached⟩

/-- Of three messages one is nacked, one held and one waits. The latest first. -/
def outThree : List Handling :=
  [.use (.received 0 ⟨1, [2], 1⟩), .use (.settled (.nack (.ofSeconds 15)) 0 ⟨0, [1], 1⟩),
   .use (.received 0 ⟨0, [1], 1⟩), .use (.published "t" 2 [3]), .use (.published "t" 1 [2]),
   .use (.published "t" 0 [1]), .use (.subscribed ⟨"t", "s", some 2⟩ 0)]

/-- The three are received and settled, the first of them when its timer is due. -/
def allSettled : List Handling :=
  [.use (.settled (.nack ⟨0⟩) 0 ⟨0, [1], 2⟩), .use (.received 0 ⟨0, [1], 2⟩),
   .use (.offered 0 0), .use (.passed 15000), .use (.settled .term 0 ⟨1, [2], 1⟩),
   .use (.settled .ack 0 ⟨2, [3], 1⟩), .use (.received 0 ⟨2, [3], 1⟩),
   .use (.unpublished "t" [4] .closed)]

set_option maxRecDepth 100000 in
/-- The stream does not end with the closing but with the last settlement. -/
theorem last_settlement_ends_stream :
    ∃ h l, Handled {} outThree h ∧ Handled h.close.2 allSettled l ∧
      AfterClosing outThree allSettled h l ∧
      h.close.2.broker.isEnded 0 = false ∧ l.broker.isEnded 0 = true ∧
      dismissed allSettled 0 (some 2) = [(0, [1]), (1, [2]), (2, [3])] := by
  have before : Handled {} outThree _ :=
    .next (.next (.next (.next (.next (.next (.next .start (.use (.subscribed rfl)))
      (.use (.published rfl))) (.use (.published rfl))) (.use (.published rfl)))
      (.use (.received rfl rfl))) (.use (.settled (s := _) rfl (by decide))))
      (.use (.received rfl rfl))
  have closed : ∀ {h : Host}, Handled {} outThree h → Handled h.close.2 [] h.close.2 :=
    fun _ => .start
  have after : Handled (Host.close _).2 allSettled _ :=
    .next (.next (.next (.next (.next (.next (.next (.next (closed before)
      (.use (.unpublished rfl))) (.use (.received rfl rfl)))
      (.use (.settled (s := _) rfl (by decide)))) (.use (.settled (s := _) rfl (by decide))))
      (.use (.passed (by decide)))) (.use (.offered rfl (by decide))))
      (.use (.received rfl rfl))) (.use (.settled (s := _) rfl (by decide)))
  refine ⟨_, _, before, after, close_spares_deliveries before after, ?_, ?_, ?_⟩
  all_goals decide +kernel

end Host

end ChangeDispatch
