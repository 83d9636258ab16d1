import ChangeDispatch.Proofs.Broker.Uses
import ChangeDispatch.Proofs.Wait.Timers

/-!
# What is done with deliveries

Beside the uses of a broker there are two ways to do without it: an offer is dropped unsettled, and
a receiver goes away. Whatever is done takes one turn with a subscription that there is, or makes a
new one.

Every offer brings a sender of its own, with which it can be handed back, and so does the timer that
holds an offer back; one more is the broker's, until it is closed. A stream ends when all its
senders are gone. Their number is kept here as they come and go, without a look at the places where
the offers are, and shown to be what these places hold.
-/
namespace ChangeDispatch

namespace Host

/-- Something that is done with a broker or with what it has delivered. -/
inductive Handling where
  | use (use : Use)
  /-- A held offer is dropped unsettled. -/
  | discarded (subscription : Nat) (d : Delivery)
  /-- The receiver of a subscription goes away. -/
  | left (subscription : Nat)
  deriving DecidableEq, Repr

inductive Handles (h : Host) : Handling → Host → Prop where
  | use {u : Use} {k : Host} : Does h u k → Handles h (.use u) k
  | discarded {i : Nat} {s : Subscription} {d : Delivery} :
      h.broker.subscriptions[i]? = some s → d ∈ s.held →
      Handles h (.discarded i d) { h with broker := h.broker.discard i d }
  | left {i : Nat} {s : Subscription} :
      h.broker.subscriptions[i]? = some s → Handles h (.left i) (h.stopReceiving i)

/-- What has been done since, the latest first. -/
inductive Handled (h₀ : Host) : List Handling → Host → Prop where
  | start : Handled h₀ [] h₀
  | next {xs : List Handling} {x : Handling} {h k : Host} :
      Handled h₀ xs h → Handles h x k → Handled h₀ (x :: xs) k

/-- The handling is not about subscription `j`. -/
def Handling.Aside (j : Nat) : Handling → Prop
  | use (.published ..) | use (.injected ..) | use .closed => False
  | use (.received i _) | use (.settled _ i _) | use (.offered i _) => i ≠ j
  | discarded i _ | left i => i ≠ j
  | use _ => True

/-- One turn with subscription `j`, which is `s` before. -/
inductive Turn (h : Host) (j : Nat) (s : Subscription) : Handling → Subscription → Prop where
  | aside {x : Handling} : x.Aside j → Turn h j s x s
  | put {u : Use} {topic : String} {d : Delivery} :
      u.put? = some (topic, d) → Turn h j s (.use u) (s.receive topic d)
  | received {d : Delivery} {channel : List Delivery} :
      s.channel = d :: channel →
      Turn h j s (.use (.received j d)) { s with channel, held := s.held ++ [d] }
  | settled {how : Settling} {d : Delivery} :
      d ∈ s.held → how.isNack = false → Turn h j s (.use (.settled how j d)) (s.release d)
  | handedBack {delay : Duration} {d : Delivery} :
      d ∈ s.held →
      Turn h j s (.use (.settled (.nack delay) j d)) (s.handBack d (h.backTimer? delay))
  | offered {serial : Nat} {entry : Timer × Delivery} :
      s.delayed? serial = some entry → h.isDue entry.1 →
      Turn h j s (.use (.offered j serial)) (s.offerDelayed entry)
  | closed : Turn h j s (.use .closed) { s with attached := false }
  | discarded {d : Delivery} : d ∈ s.held → Turn h j s (.discarded j d) (s.release d)
  | left : Turn h j s (.left j) s.stopReceiving

variable {h k l h₀ : Host} {x : Handling} {xs : List Handling} {i j n : Nat} {s s' : Subscription}
  {d : Delivery}

theorem Handled.trans {ys : List Handling} (before : Handled h xs k) (after : Handled k ys l) :
    Handled h (ys ++ xs) l := by
  induction after with
  | start => exact before
  | next _ handles ih => exact .next ih handles

/-! ## Turns -/

/-- What becomes of all subscriptions. -/
inductive Moves (h : Host) (x : Handling) (k : Host) : Prop where
  | same : k.broker.subscriptions = h.broker.subscriptions → (∀ j, x.Aside j) → Moves h x k
  | made {config : SubscriptionConfig} :
      x = .use (.subscribed config h.broker.subscriptions.length) →
      k.broker.subscriptions = h.broker.subscriptions ++ [{ toSubscriptionConfig := config }] →
      Moves h x k
  | put {u : Use} {topic : String} {d : Delivery} :
      x = .use u → u.put? = some (topic, d) →
      k.broker.subscriptions = h.broker.subscriptions.map (·.receive topic d) → Moves h x k
  | turned {i : Nat} {s : Subscription} {f : Subscription → Subscription} :
      h.broker.subscriptions[i]? = some s →
      k.broker.subscriptions = h.broker.subscriptions.modify i f → Turn h i s x (f s) →
      (∀ j, i ≠ j → x.Aside j) → Moves h x k
  | closed :
      x = .use .closed →
      k.broker.subscriptions =
        h.broker.subscriptions.map (fun s => { s with attached := false }) → Moves h x k

/-- An offer is received by a receive that has just begun or by one that has waited. -/
theorem moves_take? {l : Host} (subscriptions : l.broker.subscriptions = h.broker.subscriptions)
    (ht : l.take? i = some (d, k)) : Moves h (.use (.received i d)) k := by
  obtain ⟨s, channel, hs, waiting, moved⟩ := adjusts_take? ht
  rw [subscriptions] at hs
  exact .turned (f := fun _ => { s with channel, held := s.held ++ [d] }) hs
    (moved.subscriptions.trans (by rw [subscriptions])) (.received waiting) fun _ other => other

theorem Does.moves {u : Use} (does : Does h u k) (faultless : h.faults = {}) :
    Moves h (.use u) k := by
  cases does with
  | subscribed hs =>
    obtain ⟨-, rfl, rfl⟩ := subscribe_ok hs
    exact .made rfl rfl
  | unsubscribed hs =>
    obtain rfl := subscribe_error hs
    exact .same rfl fun _ => trivial
  | published hp => exact .put rfl rfl (puts_of_publish h hp).subscriptions
  | unpublished hp => exact .same (still_of_publish h hp).subscriptions fun _ => trivial
  | injected => exact .put rfl rfl rfl
  | failPublishes => exact .same rfl fun _ => trivial
  | failReceives => exact .same rfl fun _ => trivial
  | failSubscriptions => exact .same rfl fun _ => trivial
  | received hb ht => exact moves_take? (still_of_beginReceive h hb).subscriptions ht
  | awaited ht => exact moves_take? rfl ht
  | unreceived hb => exact .same (still_of_beginReceive h hb).subscriptions fun _ => trivial
  | pending hb _ => exact .same (still_of_beginReceive h hb).subscriptions fun _ => trivial
  | @settled how i s d hs held =>
    cases how with
    | ack =>
      exact .turned hs (h.adjusts_ack i d).subscriptions (.settled held rfl) fun _ other => other
    | term =>
      exact .turned hs (h.adjusts_terminate i d).subscriptions (.settled held rfl)
        fun _ other => other
    | nack delay =>
      exact .turned hs (adjusts_nackBy faultless delay i d).subscriptions (.handedBack held)
        fun _ other => other
  | offered delayed due =>
    obtain ⟨s, hs, found⟩ := Option.bind_eq_some_iff.mp delayed
    exact .turned hs rfl (.offered found due) fun _ other => other
  | passed _ => exact .same rfl fun _ => trivial
  | closed => exact .closed rfl rfl

theorem Handles.moves (handles : Handles h x k) (faultless : h.faults = {}) : Moves h x k := by
  cases handles with
  | use does => exact does.moves faultless
  | discarded hs held => exact .turned hs rfl (.discarded held) fun _ other => other
  | left hs => exact .turned hs rfl .left fun _ other => other

/-- Every subscription stays and takes its turn. -/
theorem Moves.turn (moves : Moves h x k) (hs : h.broker.subscriptions[j]? = some s) :
    ∃ s', k.broker.subscriptions[j]? = some s' ∧ Turn h j s x s' := by
  cases moves with
  | same subscriptions aside => exact ⟨s, subscriptions ▸ hs, .aside (aside j)⟩
  | made hx subscriptions =>
    have bound := (List.getElem?_eq_some_iff.mp hs).1
    refine ⟨s, ?_, hx ▸ .aside trivial⟩
    rw [subscriptions, List.getElem?_append_left bound, hs]
  | put hx puts subscriptions =>
    subst hx
    exact ⟨_, by rw [subscriptions, List.getElem?_map, hs]; rfl, .put puts⟩
  | @turned i s₁ f hi subscriptions turn others =>
    by_cases same : i = j
    · subst same
      obtain rfl := Option.some.inj (hs.symm.trans hi)
      exact ⟨_, by rw [subscriptions, List.getElem?_modify_eq, hs]; rfl, turn⟩
    · exact ⟨s, by rw [subscriptions, List.getElem?_modify_ne _ _ same, hs],
        .aside (others j same)⟩
  | closed hx subscriptions =>
    subst hx
    exact ⟨_, by rw [subscriptions, List.getElem?_map, hs]; rfl, .closed⟩

/-- A subscription that is new has been made, and nothing has arrived there. -/
theorem Moves.made_of_absent (moves : Moves h x k)
    (absent : h.broker.subscriptions[j]? = none) (hs : k.broker.subscriptions[j]? = some s) :
    ∃ config, x = .use (.subscribed config j) ∧ s = { toSubscriptionConfig := config } := by
  have gone : k.broker.subscriptions.length = h.broker.subscriptions.length → False :=
    fun same => by
      have bound := (List.getElem?_eq_some_iff.mp hs).1
      have beyond := List.getElem?_eq_none_iff.mp absent
      omega
  cases moves with
  | same subscriptions _ => exact (gone (by rw [subscriptions])).elim
  | put _ _ subscriptions => exact (gone (by rw [subscriptions, List.length_map])).elim
  | turned _ subscriptions _ _ => exact (gone (by rw [subscriptions, List.length_modify])).elim
  | closed _ subscriptions => exact (gone (by rw [subscriptions, List.length_map])).elim
  | made hx subscriptions =>
    rw [subscriptions] at hs
    rcases getElem?_concat_cases hs with old | ⟨rfl, rfl⟩
    · cases absent.symm.trans old
    · exact ⟨_, hx, rfl⟩

/-! ## What stays so -/

theorem Does.faults {u : Use} (does : Does h u k) (faultless : h.faults = {}) : k.faults = {} := by
  cases does with
  | subscribed hs =>
    obtain ⟨-, -, rfl⟩ := subscribe_ok hs
    exact faultless
  | unsubscribed hs => exact subscribe_error hs ▸ faultless
  | published hp => exact (puts_of_publish h hp).faults.trans faultless
  | unpublished hp => exact (still_of_publish h hp).faults.trans faultless
  | received hb ht =>
    obtain ⟨s, channel, -, -, taken⟩ := adjusts_take? ht
    exact (taken.faults.trans (still_of_beginReceive h hb).faults).trans faultless
  | awaited ht =>
    obtain ⟨s, channel, -, -, taken⟩ := adjusts_take? ht
    exact taken.faults.trans faultless
  | unreceived hb => exact (still_of_beginReceive h hb).faults.trans faultless
  | pending hb _ => exact (still_of_beginReceive h hb).faults.trans faultless
  | settled _ _ =>
    rcases adjusts_settleBy faultless _ _ _ with ⟨-, released⟩ | ⟨_, _, -, back⟩
    · exact released.faults.trans faultless
    · exact back.faults.trans faultless
  | _ => exact faultless

theorem Handles.faults (handles : Handles h x k) (faultless : h.faults = {}) : k.faults = {} := by
  cases handles with
  | use does => exact does.faults faultless
  | discarded _ _ => exact faultless
  | left _ => exact faultless

theorem Handles.rests (handles : Handles h x k) : Rests h k := by
  cases handles with
  | use does => exact does.rests
  | discarded _ _ => exact .of_eq rfl rfl rfl
  | left _ => exact h.rests_stopReceiving _

theorem Handled.rests (handled : Handled h xs k) : Rests h k := by
  induction handled with
  | start => exact .refl h
  | next _ handles ih => exact ih.trans handles.rests

/-- Nothing but a nack sets a timer, and it sets a new one. -/
theorem Turn.timed (turn : Turn h j s x s') (handles : Handles h x k)
    (hs : h.broker.subscriptions[j]? = some s) (hs' : k.broker.subscriptions[j]? = some s')
    (timed : s.Timed h.timers) : s'.Timed k.timers := by
  have kept : s'.delayed.Sublist s.delayed → s'.Timed k.timers := fun sub =>
    timed.of_sublist sub handles.rests.timers
  cases turn with
  | aside _ => exact kept (.refl _)
  | put _ =>
    refine kept ?_
    unfold Subscription.receive
    split
    · rw [Subscription.delayed_arrive]
    · exact .refl _
  | received _ => exact kept (.refl _)
  | settled _ _ => exact kept (.refl _)
  | @handedBack delay d held =>
    cases handles with
    | use does =>
      cases does with
      | settled _ _ =>
        obtain ⟨s₁, hs₁, timed⟩ := h.keeps_nack j d delay s hs timed
        obtain rfl := Option.some.inj (hs₁.symm.trans hs')
        exact timed
  | offered _ _ =>
    refine kept ?_
    unfold Subscription.offerDelayed
    rw [Subscription.delayed_arrive]
    exact List.erase_sublist
  | closed => exact kept (.refl _)
  | discarded _ => exact kept (.refl _)
  | left => exact kept (.refl _)

/-- What is so of a broker whatever has been done with it. -/
structure Sound (h : Host) : Prop where
  faultless : h.faults = {}
  timed : ∀ (j : Nat) (s : Subscription), h.broker.subscriptions[j]? = some s → s.Timed h.timers

theorem Sound.next (sound : Sound h) (handles : Handles h x k) : Sound k where
  faultless := handles.faults sound.faultless
  timed j s' hs' := by
    cases hs : h.broker.subscriptions[j]? with
    | none =>
      obtain ⟨config, -, rfl⟩ := (handles.moves sound.faultless).made_of_absent hs hs'
      exact .empty config k.timers
    | some s =>
      obtain ⟨s₁, hs₁, turn⟩ := (handles.moves sound.faultless).turn hs
      obtain rfl := Option.some.inj (hs₁.symm.trans hs')
      exact turn.timed handles hs hs' (sound.timed j s hs)

theorem Handled.sound (handled : Handled h₀ xs h) (sound : Sound h₀) : Sound h := by
  induction handled with
  | start => exact sound
  | next _ handles ih => exact ih.next handles

theorem sound_new : Sound {} := ⟨rfl, nofun⟩

/-! ## Senders -/

/-- The senders of a subscription after a handling, which had `n` of them and was `s`. -/
def Handling.sendersAfter (j : Nat) (s : Subscription) (n : Nat) : Handling → Nat
  | use (.published topic ..) | use (.injected topic ..) =>
    -- where nobody receives, the offer is lost at once, and its sender with it
    if s.attached && s.topic == topic && s.receiving then n + 1 else n
  | use (.settled (.nack delay) i d) =>
    if i ≠ j then n
    else if s.isLast d then n - 1
    -- the next offer and its timer bring one each, and the sender of the last offer goes
    else if delay.isZero then (if s.receiving then n else n - 1)
    else n + 1
  | use (.settled _ i _) => if i ≠ j then n else n - 1
  | use (.offered i _) => if i ≠ j then n else if s.receiving then n - 1 else n - 2
  | use .closed => if s.attached then n - 1 else n
  | discarded i _ => if i ≠ j then n else n - 1
  | left i => if i ≠ j then n else n - s.channel.length
  | _ => n

/-- The senders of subscription `j`, counted from when it was made. -/
inductive Senders (j : Nat) : List Handling → Host → Nat → Prop where
  | made {xs : List Handling} {h k : Host} {config : SubscriptionConfig} :
      Handled {} xs h → Handles h (.use (.subscribed config j)) k →
      Senders j (.use (.subscribed config j) :: xs) k 1
  | next {xs : List Handling} {x : Handling} {h k : Host} {s : Subscription} {n : Nat} :
      Senders j xs h n → h.broker.subscriptions[j]? = some s → Handles h x k →
      Senders j (x :: xs) k (x.sendersAfter j s n)

/-- The senders that the broker, the offers and the timers of a subscription have. -/
def places (s : Subscription) : Nat :=
  (if s.attached then 1 else 0) + s.channel.length + s.held.length + 2 * s.delayed.length

theorem sendersAfter_of_aside (aside : x.Aside j) (s : Subscription) (n : Nat) :
    x.sendersAfter j s n = n := by
  cases x with
  | use u =>
    cases u with
    | published _ _ _ => cases aside
    | injected _ _ _ => cases aside
    | closed => cases aside
    | settled how i d => cases how <;> exact if_pos aside
    | offered i serial => exact if_pos aside
    | _ => rfl
  | discarded i d => exact if_pos aside
  | left i => exact if_pos aside

theorem places_arrive (s : Subscription) (d : Delivery) :
    places (s.arrive d) = if s.receiving then places s + 1 else places s := by
  unfold Subscription.arrive places
  split
  · simp only [List.length_append, List.length_singleton]
    omega
  · rfl

theorem places_release (held : d ∈ s.held) : places (s.release d) = places s - 1 := by
  have some_held := List.length_pos_of_mem held
  unfold Subscription.release places
  dsimp only
  rw [List.length_erase_of_mem held]
  omega

theorem places_pos (held : d ∈ s.held) : 0 < places s := by
  have some_held := List.length_pos_of_mem held
  unfold places
  omega

/-- The next offer comes in the place of the last, and brings a timer if it is held back. -/
theorem places_handBack (held : d ∈ s.held) (timer : Option Timer) :
    places (s.handBack d timer) =
      if s.isLast d then places s - 1
      else if timer.isSome then places s + 1
      else if s.receiving then places s else places s - 1 := by
  have released := places_release held
  have some_place := places_pos held
  have last : (s.release d).isLast d = s.isLast d := rfl
  have receiving : (s.release d).receiving = s.receiving := rfl
  unfold Subscription.handBack
  dsimp only
  rw [last]
  split
  · exact released
  · cases timer with
    | none =>
      simp only [places_arrive, released, receiving, Option.isSome_none, Bool.false_eq_true, if_false]
      split <;> omega
    | some timer =>
      simp only [Option.isSome_some, if_true]
      unfold places at released some_place ⊢
      simp only [List.length_append, List.length_singleton]
      dsimp only [Subscription.release] at released ⊢
      omega

/-- The count follows the places. -/
theorem Turn.places_eq (turn : Turn h j s x s') :
    x.sendersAfter j s (places s) = places s' := by
  cases turn with
  | aside aside => exact sendersAfter_of_aside aside s _
  | @put u topic d puts =>
    have counted : (Handling.use u).sendersAfter j s (places s) =
        if s.attached && s.topic == topic && s.receiving then places s + 1 else places s := by
      cases u with
      | published _ _ _ => obtain ⟨rfl, -⟩ := Prod.mk.inj (Option.some.inj puts); rfl
      | injected _ _ _ => obtain ⟨rfl, -⟩ := Prod.mk.inj (Option.some.inj puts); rfl
      | _ => cases puts
    rw [counted]
    unfold Subscription.receive
    cases s.attached && s.topic == topic with
    | false => rfl
    | true => simpa using (places_arrive s d).symm
  | received waiting =>
    show places s = _
    unfold places
    rw [waiting]
    simp only [List.length_append, List.length_cons, List.length_nil]
    omega
  | @settled how d held notNack =>
    rw [places_release held]
    cases how with
    | nack delay => cases notNack
    | _ => exact if_neg (by simp)
  | @handedBack delay d held =>
    rw [places_handBack held]
    unfold backTimer?
    show (if j ≠ j then _ else _) = _
    rw [if_neg (by simp)]
    cases delay.isZero <;> rfl
  | @offered serial entry found _ =>
    have there := List.mem_of_find?_eq_some found
    have some_delayed := List.length_pos_of_mem there
    have taken : places { s with delayed := s.delayed.erase entry } = places s - 2 := by
      unfold places
      dsimp only
      rw [List.length_erase_of_mem there]
      omega
    show (if j ≠ j then _ else _) = places (Subscription.arrive _ _)
    rw [if_neg (by simp), places_arrive, taken]
    have enough : 2 ≤ places s := by
      unfold places
      omega
    dsimp only
    split <;> omega
  | closed =>
    show (if s.attached then places s - 1 else places s) = _
    unfold places
    cases s.attached with
    | false => rfl
    | true =>
      simp only [if_true, Bool.false_eq_true, if_false]
      omega
  | discarded held => exact (if_neg (by simp)).trans (places_release held).symm
  | left =>
    show (if j ≠ j then _ else _) = _
    rw [if_neg (by simp)]
    unfold places Subscription.stopReceiving
    simp only [List.length_nil]
    omega

/-- As many senders are counted as there are places for them. -/
theorem Senders.eq_places (senders : Senders j xs h n) :
    Handled {} xs h ∧ ∃ s, h.broker.subscriptions[j]? = some s ∧ n = places s := by
  induction senders with
  | @made xs h k config handled handles =>
    refine ⟨handled.next handles, { toSubscriptionConfig := config }, ?_, rfl⟩
    cases handles with
    | use does =>
      cases does with
      | subscribed hs =>
        obtain ⟨-, rfl, rfl⟩ := subscribe_ok hs
        exact List.getElem?_concat_length
  | @next xs x h k s n _ hs handles ih =>
    obtain ⟨handled, s₁, hs₁, rfl⟩ := ih
    obtain rfl := Option.some.inj (hs.symm.trans hs₁)
    obtain ⟨s', hs', turn⟩ := (handles.moves (handled.sound sound_new).faultless).turn hs
    exact ⟨handled.next handles, s', hs', turn.places_eq⟩

theorem Handled.exists_senders (handled : Handled {} xs h)
    (hs : h.broker.subscriptions[j]? = some s) : ∃ n, Senders j xs h n := by
  induction handled generalizing s with
  | start => cases hs
  | @next xs x h k earlier handles ih =>
    have faultless := (earlier.sound sound_new).faultless
    cases before : h.broker.subscriptions[j]? with
    | none =>
      obtain ⟨config, rfl, -⟩ := (handles.moves faultless).made_of_absent before hs
      exact ⟨1, .made earlier handles⟩
    | some s₀ =>
      obtain ⟨n, senders⟩ := ih before
      exact ⟨_, senders.next before handles⟩

/-- The count of senders is the number of their places. -/
theorem Handled.senders_iff (handled : Handled {} xs h)
    (hs : h.broker.subscriptions[j]? = some s) : Senders j xs h n ↔ n = places s := by
  have counted : ∀ {m}, Senders j xs h m → m = places s := fun senders => by
    obtain ⟨-, s', hs', rfl⟩ := senders.eq_places
    rw [Option.some.inj (hs.symm.trans hs')]
  constructor
  · exact counted
  · rintro rfl
    obtain ⟨m, senders⟩ := handled.exists_senders hs
    exact counted senders ▸ senders

end Host

end ChangeDispatch
