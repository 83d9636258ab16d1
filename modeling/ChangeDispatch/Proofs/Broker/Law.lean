import ChangeDispatch.Proofs.Broker.Uses
import ChangeDispatch.Proofs.Run.Quiet

/-!
# What becomes of the messages of a subscription

Every message that has arrived at a subscription and that the subscription is not done with has one
outstanding offer, whose number counts how often the message was handed back. One use of the broker
adds a message, takes one away, or puts the next offer of one in the place of the last; where the
offer stands does not matter for this, and the order in which first offers are received is a matter
of the channel alone.
-/
namespace ChangeDispatch

namespace Host

/-- The offers that are outstanding, of the messages that have arrived: `nacks` is how often a
message was handed back, and `finished` are the messages that are offered no more. -/
structure Tracks (arrivals outstanding : List Delivery) (nacks : Nat → Nat) (finished : List Nat)
    (bound : Option Nat) : Prop where
  /-- Every message arrives once. -/
  distinct : (arrivals.map Delivery.message).Nodup
  /-- A message has at most one outstanding offer. -/
  single : (outstanding.map Delivery.message).Nodup
  /-- What is outstanding has arrived. -/
  known : ∀ d ∈ outstanding, { d with number := 1 } ∈ arrivals
  /-- A message stays until it is finished. -/
  left : ∀ d ∈ arrivals,
    d.message ∈ outstanding.map Delivery.message ↔ d.message ∉ finished
  number : ∀ d ∈ outstanding, d.number = 1 + nacks d.message
  bounded : ∀ m, bound = some m → 1 ≤ m → ∀ d ∈ outstanding, d.number ≤ m
  /-- Without a bound the numbers stay within 32 bits. -/
  unbounded : bound = none → ∀ d ∈ outstanding, d.number ≤ Delivery.lastNumber
  /-- Nothing has been done with a message that has not arrived. -/
  unknown : ∀ n, n ∉ arrivals.map Delivery.message → nacks n = 0 ∧ n ∉ finished

namespace Tracks

variable {arrivals out out' rest : List Delivery} {nacks nacks' : Nat → Nat}
  {finished finished' : List Nat} {bound : Option Nat} {d : Delivery}

theorem nil (bound : Option Nat) : Tracks [] [] (fun _ => 0) [] bound where
  distinct := .nil
  single := .nil
  known := nofun
  left := nofun
  number := nofun
  bounded := fun _ _ _ => nofun
  unbounded := fun _ => nofun
  unknown := fun _ _ => ⟨rfl, nofun⟩

theorem mem_messages (tracks : Tracks arrivals out nacks finished bound) (hd : d ∈ out) :
    d.message ∈ arrivals.map Delivery.message :=
  List.mem_map.mpr ⟨_, tracks.known d hd, rfl⟩

/-- The offers change their places. -/
theorem perm (tracks : Tracks arrivals out nacks finished bound) (same : out'.Perm out) :
    Tracks arrivals out' nacks finished bound where
  distinct := tracks.distinct
  single := (same.map _).nodup_iff.mpr tracks.single
  known d hd := tracks.known d (same.mem_iff.mp hd)
  left d hd := ((same.map _).mem_iff).trans (tracks.left d hd)
  number d hd := tracks.number d (same.mem_iff.mp hd)
  bounded m hm pos d hd := tracks.bounded m hm pos d (same.mem_iff.mp hd)
  unbounded hm d hd := tracks.unbounded hm d (same.mem_iff.mp hd)
  unknown := tracks.unknown

/-- A message arrives that is new. -/
theorem put (tracks : Tracks arrivals out nacks finished bound) (first : d.number = 1)
    (new : d.message ∉ arrivals.map Delivery.message) (moved : out'.Perm (d :: out)) :
    Tracks (arrivals ++ [d]) out' nacks finished bound := by
  obtain ⟨unhanded, unfinished⟩ := tracks.unknown d.message new
  have absent : d.message ∉ out.map Delivery.message := fun mem => by
    obtain ⟨e, he, same⟩ := List.mem_map.mp mem
    exact new (same ▸ tracks.mem_messages he)
  have added : Tracks (arrivals ++ [d]) (d :: out) nacks finished bound := by
    refine ⟨?_, List.nodup_cons.mpr ⟨absent, tracks.single⟩, ?_, fun e he => ?_, ?_, ?_, ?_,
      fun n hn => tracks.unknown n fun mem => hn ?_⟩
    · rw [List.map_append, List.map_singleton]
      exact (List.perm_append_singleton _ _).nodup_iff.mpr
        (List.nodup_cons.mpr ⟨new, tracks.distinct⟩)
    · refine List.forall_mem_cons.mpr ⟨?_, fun e he => List.mem_append_left _ (tracks.known e he)⟩
      refine List.mem_append_right _ (List.mem_singleton.mpr ?_)
      rw [← first]
    · rw [List.map_cons, List.mem_cons]
      rcases List.mem_append.mp he with he | he
      · have other : e.message ≠ d.message := fun same =>
          new (same ▸ List.mem_map_of_mem he)
        exact ⟨fun mem => (tracks.left e he).mp (mem.resolve_left other),
          fun unfinished => .inr ((tracks.left e he).mpr unfinished)⟩
      · rw [List.mem_singleton.mp he]
        exact ⟨fun _ => unfinished, fun _ => .inl rfl⟩
    · exact List.forall_mem_cons.mpr ⟨by rw [first, unhanded], tracks.number⟩
    · exact fun m hm pos => List.forall_mem_cons.mpr ⟨first ▸ pos, tracks.bounded m hm pos⟩
    · exact fun hm => List.forall_mem_cons.mpr ⟨first ▸ by decide, tracks.unbounded hm⟩
    · rw [List.map_append]
      exact List.mem_append_left _ mem
  exact added.perm moved

/-- The messages of the offers that stay when one is taken out. -/
theorem rest_messages (tracks : Tracks arrivals out nacks finished bound)
    (taken : out.Perm (d :: rest)) {n : Nat} :
    n ∈ rest.map Delivery.message ↔ n ∈ out.map Delivery.message ∧ n ≠ d.message := by
  have nodup := (taken.map Delivery.message).nodup_iff.mp tracks.single
  rw [List.map_cons] at nodup
  rw [(taken.map Delivery.message).mem_iff, List.map_cons, List.mem_cons]
  have fresh := (List.nodup_cons.mp nodup).1
  exact ⟨fun mem => ⟨.inr mem, fun same => fresh (same ▸ mem)⟩,
    fun h => h.1.resolve_left h.2⟩

/-- A message is finished. -/
theorem finish (tracks : Tracks arrivals out nacks finished bound) (taken : out.Perm (d :: out'))
    (others : ∀ n, n ≠ d.message → nacks' n = nacks n) :
    Tracks arrivals out' nacks' (d.message :: finished) bound := by
  have mem : ∀ e ∈ out', e ∈ out := fun e he =>
    taken.mem_iff.mpr (List.mem_cons_of_mem _ he)
  have other : ∀ e ∈ out', e.message ≠ d.message := fun e he =>
    ((tracks.rest_messages taken).mp (List.mem_map_of_mem he)).2
  have there := tracks.mem_messages (taken.mem_iff.mpr List.mem_cons_self)
  refine ⟨tracks.distinct, ?_, fun e he => tracks.known e (mem e he), fun e he => ?_,
    fun e he => ?_, fun m hm pos e he => tracks.bounded m hm pos e (mem e he),
    fun hm e he => tracks.unbounded hm e (mem e he), fun n hn => ?_⟩
  · have nodup := (taken.map Delivery.message).nodup_iff.mp tracks.single
    exact (List.nodup_cons.mp nodup).2
  · rw [tracks.rest_messages taken, tracks.left e he, List.mem_cons, not_or, and_comm]
  · rw [others _ (other e he)]
    exact tracks.number e (mem e he)
  · have new : n ≠ d.message := fun same => hn (same ▸ there)
    obtain ⟨unhanded, unfinished⟩ := tracks.unknown n hn
    exact ⟨(others n new).trans unhanded, fun mem => (List.mem_cons.mp mem).elim new unfinished⟩

/-- A message is handed back that can be offered again. -/
theorem again (tracks : Tracks arrivals out nacks finished bound) (taken : out.Perm (d :: rest))
    (moved : out'.Perm (d.again :: rest)) (more : d.number < bound.getD Delivery.lastNumber)
    (handed : nacks' d.message = nacks d.message + 1)
    (others : ∀ n, n ≠ d.message → nacks' n = nacks n) :
    Tracks arrivals out' nacks' finished bound := by
  have hd : d ∈ out := taken.mem_iff.mpr List.mem_cons_self
  have mem : ∀ e ∈ rest, e ∈ out := fun e he => taken.mem_iff.mpr (List.mem_cons_of_mem _ he)
  have other : ∀ e ∈ rest, e.message ≠ d.message := fun e he =>
    ((tracks.rest_messages taken).mp (List.mem_map_of_mem he)).2
  have messages : (d.again :: rest).map Delivery.message = (d :: rest).map Delivery.message := rfl
  have same : ∀ n, n ∈ (d.again :: rest).map Delivery.message ↔ n ∈ out.map Delivery.message :=
    fun n => messages ▸ (taken.map Delivery.message).mem_iff.symm
  have replaced : Tracks arrivals (d.again :: rest) nacks' finished bound := by
    refine ⟨tracks.distinct, ?_, ?_, fun e he => (same _).trans (tracks.left e he), ?_, ?_, ?_,
      fun n hn => ?_⟩
    · rw [messages]
      exact (taken.map Delivery.message).nodup_iff.mp tracks.single
    · exact List.forall_mem_cons.mpr ⟨tracks.known d hd, fun e he => tracks.known e (mem e he)⟩
    · refine List.forall_mem_cons.mpr ⟨?_, fun e he => ?_⟩
      · change d.number + 1 = 1 + nacks' d.message
        rw [handed, tracks.number d hd]
        omega
      · rw [others _ (other e he)]
        exact tracks.number e (mem e he)
    · intro m hm pos
      refine List.forall_mem_cons.mpr ⟨?_, fun e he => tracks.bounded m hm pos e (mem e he)⟩
      rw [hm] at more
      exact more
    · intro hm
      refine List.forall_mem_cons.mpr ⟨?_, fun e he => tracks.unbounded hm e (mem e he)⟩
      rw [hm] at more
      exact more
    · have new : n ≠ d.message := fun same => hn (same ▸ tracks.mem_messages hd)
      obtain ⟨unhanded, unfinished⟩ := tracks.unknown n hn
      exact ⟨(others n new).trans unhanded, unfinished⟩
  exact replaced.perm moved

end Tracks

/-! ## One subscription -/

/-- The law of subscription `j`: its offers track the messages that have arrived, and those that
are received with number 1 are these messages, in this order, as far as the receiver has got. -/
structure Delivered (uses : List Use) (j : Nat) (s : Subscription) : Prop extends
    Tracks (arrivals uses j) s.outstanding (nacks uses j) (finished uses j s.maxDeliveries)
      s.maxDeliveries where
  /-- The subscription is what it was asked to be. -/
  config : asked? uses j = some s.toSubscriptionConfig
  order : (receipts uses j).filter (·.number = 1) ++ s.channel.filter (·.number = 1) =
    arrivals uses j

/-- What else is so of subscription `j` after the uses. -/
structure Accounts (uses : List Use) (h : Host) (j : Nat) (s : Subscription) : Prop extends
    Delivered uses j s where
  attached : s.attached = true ↔ Use.closed ∉ uses
  receiving : s.receiving
  /-- What is held back was handed back. -/
  again : ∀ entry ∈ s.delayed, entry.2.number ≠ 1
  below : ∀ n ∈ (arrivals uses j).map Delivery.message, n < h.broker.messages

namespace Accounts

variable {uses : List Use} {use : Use} {j : Nat} {h k : Host} {s s' : Subscription} {d : Delivery}

/-- Nothing arrives, and nothing is received or settled. -/
theorem aside (acc : Accounts uses h j s) (aside : use.Aside j)
    (none : arrival? uses j use = none) (messages : h.broker.messages ≤ k.broker.messages)
    (outstanding : s'.outstanding.Perm s.outstanding)
    (channel : s'.channel.filter (·.number = 1) = s.channel.filter (·.number = 1))
    (config : s'.toSubscriptionConfig = s.toSubscriptionConfig)
    (attached : s'.attached = true ↔ Use.closed ∉ use :: uses) (receiving : s'.receiving)
    (again : ∀ entry ∈ s'.delayed, entry.2.number ≠ 1) : Accounts (use :: uses) k j s' := by
  have arrived : arrivals (use :: uses) j = arrivals uses j := by
    rw [arrivals, none]
    exact List.append_nil _
  have bound : s'.maxDeliveries = s.maxDeliveries := congrArg _ config
  refine ⟨⟨?_, ?_, ?_⟩, attached, receiving, again, fun n hn => ?_⟩
  · rw [arrived, aside.nacks_eq, bound, aside.finished_eq]
    exact acc.toTracks.perm outstanding
  · rw [aside.asked?_eq, config]
    exact acc.config
  · rw [aside.receipts_eq, channel, arrived]
    exact acc.order
  · rw [arrived] at hn
    exact Nat.lt_of_lt_of_le (acc.below n hn) messages

/-- The subscription stays as it is. -/
theorem same (acc : Accounts uses h j s) (aside : use.Aside j)
    (none : arrival? uses j use = none) (messages : h.broker.messages ≤ k.broker.messages)
    (going : use ≠ .closed) : Accounts (use :: uses) k j s :=
  acc.aside aside none messages (List.Perm.refl _) rfl rfl
    (acc.attached.trans (by simp [going.symm])) acc.receiving acc.again

/-- A message that is put on the topic arrives. -/
theorem arrived (acc : Accounts uses h j s) (aside : use.Aside j)
    (arrives : arrival? uses j use = some d) (first : d.number = 1)
    (new : d.message = h.broker.messages) (messages : k.broker.messages = h.broker.messages + 1)
    (going : use ≠ .closed) : Accounts (use :: uses) k j (s.arrive d) := by
  have arrived : arrivals (use :: uses) j = arrivals uses j ++ [d] := by
    rw [arrivals, arrives]
    rfl
  have fresh : d.message ∉ (arrivals uses j).map Delivery.message := fun mem =>
    Nat.lt_irrefl _ (new ▸ acc.below _ mem)
  have after : s.arrive d = { s with channel := s.channel ++ [d] } := if_pos acc.receiving
  refine ⟨⟨?_, ?_, ?_⟩, ?_, ?_, ?_, fun n hn => ?_⟩
  · have tracks := acc.toTracks.put first fresh (Subscription.outstanding_arrive acc.receiving d)
    rw [arrived, aside.nacks_eq, aside.finished_eq, (s.config_arrive d).1]
    exact tracks
  · rw [aside.asked?_eq, (s.config_arrive d).1]
    exact acc.config
  · rw [aside.receipts_eq, arrived, after, List.filter_append, ← List.append_assoc, acc.order]
    simp [first]
  · rw [after]
    exact acc.attached.trans (by simp [going.symm])
  · rw [after]
    exact acc.receiving
  · rw [after]
    exact acc.again
  · rw [arrived, List.map_append, List.map_singleton] at hn
    rw [messages]
    rcases List.mem_append.mp hn with hn | hn
    · exact Nat.lt_succ_of_lt (acc.below n hn)
    · rw [List.mem_singleton.mp hn, new]
      exact Nat.lt_succ_self _

/-- The oldest offer is received. -/
theorem received (acc : Accounts uses h j s) {channel : List Delivery}
    (waiting : s.channel = d :: channel) (messages : k.broker.messages = h.broker.messages) :
    Accounts (.received j d :: uses) k j { s with channel, held := s.held ++ [d] } := by
  have arrived : arrivals (.received j d :: uses) j = arrivals uses j := by
    rw [arrivals, arrival?_eq_none rfl]
    exact List.append_nil _
  have nacks : nacks (.received j d :: uses) j = nacks uses j := by
    funext n
    rw [nacks_cons]
    rfl
  have finished : ∀ bound, finished (.received j d :: uses) j bound = finished uses j bound :=
    fun bound => by rw [finished_cons]; rfl
  refine ⟨⟨?_, ?_, ?_⟩, acc.attached.trans (by simp), acc.receiving, acc.again, fun n hn => ?_⟩
  · rw [arrived, nacks, finished]
    exact acc.toTracks.perm (Subscription.outstanding_take waiting)
  · rw [asked?_cons]
    exact acc.config
  · rw [receipts_cons, arrived, ← acc.order, waiting]
    simp only [Use.received?, if_pos, Option.toList_some, List.filter_append, List.filter_cons,
      List.filter_nil, List.append_assoc]
    split <;> rfl
  · rw [arrived] at hn
    rw [messages]
    exact acc.below n hn

/-- An offer that is handed back is no first offer when it is made again. -/
theorem handBack_cases (hr : s.receiving) (hl : s.isLast d = false) (positive : d.number ≠ 0)
    (timer : Option Timer) :
    (s.handBack d timer).channel.filter (·.number = 1) = s.channel.filter (·.number = 1) ∧
      ∀ entry ∈ (s.handBack d timer).delayed, entry ∈ s.delayed ∨ entry.2.number ≠ 1 := by
  have later : d.again.number ≠ 1 := fun one => positive (Nat.succ.inj one)
  have last : (s.release d).isLast d = false := hl
  have there : (s.release d).receiving = true := hr
  unfold Subscription.handBack
  dsimp only
  rw [if_neg (by simp [last])]
  cases timer with
  | none =>
    dsimp only
    unfold Subscription.arrive
    rw [if_pos there]
    refine ⟨?_, fun entry mem => .inl mem⟩
    simp [Subscription.release, later]
  | some timer =>
    refine ⟨rfl, fun entry mem => ?_⟩
    rcases List.mem_append.mp mem with mem | mem
    · exact .inl mem
    · rw [List.mem_singleton.mp mem]
      exact .inr later

/-- What a settlement leaves: nothing of the message, or its next offer. -/
theorem settled_cases {how : Settling}
    (after : how.isNack = false ∧ s' = s.release d ∨
      ∃ delay timer, how = .nack delay ∧ s' = s.handBack d timer) :
    how.isLast s.maxDeliveries d = true ∧ s' = s.release d ∨
      how.isNack = true ∧ how.isLast s.maxDeliveries d = false ∧ s.isLast d = false ∧
        ∃ timer, s' = s.handBack d timer := by
  rcases after with ⟨notNack, rfl⟩ | ⟨delay, timer, rfl, rfl⟩
  · cases how with
    | nack delay => cases notNack
    | _ => exact .inl ⟨rfl, rfl⟩
  · cases last : s.isLast d with
    | true => exact .inl ⟨last, Subscription.copies_handBack_last last timer⟩
    | false => exact .inr ⟨rfl, last, rfl, timer, rfl⟩

/-- A held offer is settled. -/
theorem settled (acc : Accounts uses h j s) (held : d ∈ s.held) {how : Settling}
    (after : how.isNack = false ∧ s' = s.release d ∨
      ∃ delay timer, how = .nack delay ∧ s' = s.handBack d timer)
    (messages : k.broker.messages = h.broker.messages) :
    Accounts (.settled how j d :: uses) k j s' := by
  have taken := Subscription.outstanding_release held
  have positive : d.number ≠ 0 := by
    rw [acc.number d (taken.mem_iff.mpr List.mem_cons_self)]
    omega
  have arrived : arrivals (.settled how j d :: uses) j = arrivals uses j := by
    rw [arrivals, arrival?_eq_none rfl]
    exact List.append_nil _
  have receipts : receipts (.settled how j d :: uses) j = receipts uses j := by
    rw [receipts_cons]
    exact List.append_nil _
  have nacks : ∀ n, nacks (.settled how j d :: uses) j n =
      nacks uses j n + if how.isNack && d.message == n then 1 else 0 := fun n => by
    rw [nacks_cons]
    simp [Use.settled?]
  have others : ∀ n, n ≠ d.message → Host.nacks (.settled how j d :: uses) j n =
      Host.nacks uses j n := fun n other => by
    rw [nacks]
    simp [other.symm]
  have finished : finished (.settled how j d :: uses) j s.maxDeliveries =
      if how.isLast s.maxDeliveries d then d.message :: finished uses j s.maxDeliveries
      else finished uses j s.maxDeliveries := by
    rw [finished_cons]
    simp only [Use.settled?, if_pos, Option.bind_some]
    split <;> rfl
  have rest : ∀ {s' : Subscription}, s'.toSubscriptionConfig = s.toSubscriptionConfig →
      s'.attached = s.attached → s'.receiving = s.receiving →
      (∀ entry ∈ s'.delayed, entry ∈ s.delayed ∨ entry.2.number ≠ 1) →
      s'.channel.filter (·.number = 1) = s.channel.filter (·.number = 1) →
      Tracks (arrivals uses j) s'.outstanding (Host.nacks (.settled how j d :: uses) j)
        (Host.finished (.settled how j d :: uses) j s.maxDeliveries) s.maxDeliveries →
      Accounts (.settled how j d :: uses) k j s' := by
    intro s' config attached receiving delayed channel tracks
    have bound : s'.maxDeliveries = s.maxDeliveries := congrArg _ config
    refine ⟨⟨?_, ?_, ?_⟩, ?_, receiving.trans acc.receiving, fun entry mem => ?_, fun n hn => ?_⟩
    · rw [arrived, bound]
      exact tracks
    · rw [asked?_cons, config]
      exact acc.config
    · rw [receipts, arrived, channel]
      exact acc.order
    · rw [attached]
      exact acc.attached.trans (by simp)
    · exact (delayed entry mem).elim (acc.again entry) id
    · rw [arrived] at hn
      rw [messages]
      exact acc.below n hn
  rcases settled_cases after with ⟨last, rfl⟩ | ⟨nack, notLast, more, timer, rfl⟩
  · refine rest rfl rfl rfl (fun entry mem => .inl mem) rfl ?_
    rw [finished, if_pos last]
    exact acc.toTracks.finish taken others
  · obtain ⟨config, -, receiving, attached⟩ := s.config_handBack d timer
    obtain ⟨channel, delayed⟩ := handBack_cases acc.receiving more positive timer
    refine rest config attached receiving delayed channel ?_
    rw [finished, if_neg (by simp [notLast])]
    refine acc.toTracks.again taken (Subscription.outstanding_handBack acc.receiving more timer)
      (Subscription.isLast_eq_false_iff.mp more) ?_ others
    rw [nacks, nack]
    simp

/-- An offer that was held back is made. -/
theorem offered (acc : Accounts uses h j s) {entry : Timer × Delivery} {serial : Nat}
    (held : entry ∈ s.delayed) (messages : h.broker.messages ≤ k.broker.messages) :
    Accounts (.offered j serial :: uses) k j (s.offerDelayed entry) := by
  have after : s.offerDelayed entry =
      { s with delayed := s.delayed.erase entry, channel := s.channel ++ [entry.2] } :=
    if_pos acc.receiving
  refine acc.aside ⟨rfl, rfl, rfl⟩ (arrival?_eq_none rfl) messages
    (Subscription.outstanding_offerDelayed held acc.receiving) ?_ ?_ ?_ ?_ ?_
  · rw [after]
    simp [acc.again entry held]
  · rw [after]
  · rw [after]
    exact acc.attached.trans (by simp)
  · rw [after]
    exact acc.receiving
  · rw [after]
    exact fun e mem => acc.again e (List.mem_of_mem_erase mem)

end Accounts

/-! ## The whole broker -/

/-- Nothing has arrived where there is no subscription, and nothing was received or settled. -/
theorem of_silent {uses : List Use} {j : Nat} (silent : ∀ use ∈ uses, use.Aside j) :
    arrivals uses j = [] ∧ receipts uses j = [] ∧ nacks uses j = (fun _ => 0) ∧
      ∀ bound, finished uses j bound = [] := by
  induction uses with
  | nil => exact ⟨rfl, rfl, rfl, fun _ => rfl⟩
  | cons use uses ih =>
    obtain ⟨aside, silent⟩ := List.forall_mem_cons.mp silent
    obtain ⟨arrivals, receipts, nacks, finished⟩ := ih silent
    have unasked : asked? uses j = none :=
      List.findSome?_eq_none_iff.mpr fun use mem => (silent use mem).config
    refine ⟨?_, aside.receipts_eq.trans receipts, aside.nacks_eq.trans nacks,
      fun bound => (aside.finished_eq bound).trans (finished bound)⟩
    rw [Host.arrivals, arrivals, arrival?, unasked]
    rfl

/-- What is so of a broker after its uses. -/
structure Kept (uses : List Use) (h : Host) : Prop where
  faultless : h.faults = {}
  accounts : ∀ j s, h.broker.subscriptions[j]? = some s → Accounts uses h j s
  /-- Nothing was done with a subscription that has not been made. -/
  silent : ∀ j, h.broker.subscriptions[j]? = none → ∀ use ∈ uses, use.Aside j

namespace Kept

variable {uses : List Use} {use : Use} {h k l : Host} {i : Nat}

/-- The subscriptions stay as they are. -/
theorem still (kept : Kept uses h) (subscriptions : k.broker.subscriptions = h.broker.subscriptions)
    (messages : k.broker.messages = h.broker.messages) (faults : k.faults = h.faults)
    (aside : ∀ j, use.Aside j) (unput : use.put? = none) (going : use ≠ .closed) :
    Kept (use :: uses) k where
  faultless := faults.trans kept.faultless
  accounts j s hs := (kept.accounts j s (subscriptions ▸ hs)).same (aside j)
    (arrival?_eq_none unput) (Nat.le_of_eq messages.symm) going
  silent j absent := List.forall_mem_cons.mpr
    ⟨aside j, kept.silent j (subscriptions ▸ absent)⟩

/-- One subscription is changed. -/
theorem touched (kept : Kept uses h) {f : Subscription → Subscription} (adjusts : Adjusts i f h k)
    {s : Subscription} (hs : h.broker.subscriptions[i]? = some s)
    (own : Accounts (use :: uses) k i (f s)) (aside : ∀ j, j ≠ i → use.Aside j)
    (unput : use.put? = none) (going : use ≠ .closed) : Kept (use :: uses) k where
  faultless := adjusts.faults.trans kept.faultless
  accounts j s' hs' := by
    by_cases same : j = i
    · subst same
      rw [adjusts.getElem?, hs] at hs'
      exact Option.some.inj hs' ▸ own
    · rw [adjusts.touches.getElem? same] at hs'
      exact (kept.accounts j s' hs').same (aside j same) (arrival?_eq_none unput)
        (Nat.le_of_eq adjusts.messages.symm) going
  silent j absent := by
    have other : j ≠ i := by
      rintro rfl
      rw [adjusts.getElem?, hs] at absent
      cases absent
    rw [adjusts.touches.getElem? other] at absent
    exact List.forall_mem_cons.mpr ⟨aside j other, kept.silent j absent⟩

/-- A message is put on a topic. -/
theorem put (kept : Kept uses h) {topic : String} {payload : Payload}
    (puts : use.put? = some (topic, ⟨h.broker.messages, payload, 1⟩))
    (subscriptions : k.broker.subscriptions =
      h.broker.subscriptions.map (·.receive topic ⟨h.broker.messages, payload, 1⟩))
    (messages : k.broker.messages = h.broker.messages + 1) (faults : k.faults = h.faults)
    (aside : ∀ j, use.Aside j) (going : use ≠ .closed) : Kept (use :: uses) k where
  faultless := faults.trans kept.faultless
  accounts j s' hs' := by
    rw [subscriptions, List.getElem?_map] at hs'
    obtain ⟨s, hs, rfl⟩ := Option.map_eq_some_iff.mp hs'
    have acc := kept.accounts j s hs
    have arrival : arrival? uses j use =
        if topic = s.topic ∧ Use.closed ∉ uses then some ⟨h.broker.messages, payload, 1⟩
        else none := by
      unfold arrival?
      rw [acc.config, puts]
      rfl
    unfold Subscription.receive
    by_cases arrives : topic = s.topic ∧ Use.closed ∉ uses
    · rw [if_pos (by simp [acc.attached.mpr arrives.2, arrives.1])]
      exact acc.arrived (aside j) (arrival.trans (if_pos arrives)) rfl rfl messages going
    · rw [if_neg fun both => arrives ?_]
      · exact acc.same (aside j) (arrival.trans (if_neg arrives))
          (messages ▸ Nat.le_succ _) going
      · rw [Bool.and_eq_true, beq_iff_eq] at both
        exact ⟨both.2.symm, acc.attached.mp both.1⟩
  silent j absent := by
    rw [subscriptions, List.getElem?_map, Option.map_eq_none_iff] at absent
    exact List.forall_mem_cons.mpr ⟨aside j, kept.silent j absent⟩

/-- The broker is closed: nothing more arrives. -/
theorem closed (kept : Kept uses h) : Kept (.closed :: uses) h.close.2 where
  faultless := kept.faultless
  accounts j s' hs' := by
    have subscriptions : h.close.2.broker.subscriptions =
        h.broker.subscriptions.map fun s => { s with attached := false } := rfl
    rw [subscriptions, List.getElem?_map] at hs'
    obtain ⟨s, hs, rfl⟩ := Option.map_eq_some_iff.mp hs'
    have acc := kept.accounts j s hs
    exact acc.aside ⟨rfl, rfl, rfl⟩ (arrival?_eq_none rfl) (Nat.le_refl _) (List.Perm.refl _) rfl
      rfl (by simp) acc.receiving acc.again
  silent j absent := by
    have before : h.broker.subscriptions[j]? = none := by
      change (h.broker.subscriptions.map _)[j]? = none at absent
      rwa [List.getElem?_map, Option.map_eq_none_iff] at absent
    exact List.forall_mem_cons.mpr ⟨⟨rfl, rfl, rfl⟩, kept.silent j before⟩

/-- A subscription is made, and nothing has arrived there. -/
theorem subscribed (kept : Kept uses h) {config : SubscriptionConfig}
    (hs : h.subscribe config = (.ok i, k)) (shut : Use.closed ∈ uses → h.broker.closed) :
    Kept (.subscribed config i :: uses) k := by
  obtain ⟨isOpen, rfl, rfl⟩ := subscribe_ok hs
  have going : Use.closed ∉ .subscribed config h.broker.subscriptions.length :: uses := by
    intro mem
    rcases List.mem_cons.mp mem with same | earlier
    · cases same
    · exact absurd ((shut earlier).symm.trans isOpen) (by decide)
  have others : ∀ j, j ≠ h.broker.subscriptions.length →
      (Use.subscribed config h.broker.subscriptions.length).Aside j := fun j other =>
    ⟨if_neg other.symm, rfl, rfl⟩
  refine ⟨kept.faultless, fun j s hj => ?_, fun j absent => ?_⟩
  · rcases getElem?_concat_cases hj with old | ⟨rfl, rfl⟩
    · have other := Nat.ne_of_lt (List.getElem?_eq_some_iff.mp old).1
      exact (kept.accounts j s old).same (others j other) (arrival?_eq_none rfl) (Nat.le_refl _)
        (by simp)
    · have silent := kept.silent h.broker.subscriptions.length
        (List.getElem?_eq_none (Nat.le_refl _))
      obtain ⟨arrivals, receipts, nacks, finished⟩ := of_silent silent
      have arrived : Host.arrivals (.subscribed config h.broker.subscriptions.length :: uses)
          h.broker.subscriptions.length = [] := by
        rw [Host.arrivals, arrivals, arrival?_eq_none rfl]
        rfl
      refine ⟨⟨?_, ?_, ?_⟩, ⟨fun _ => going, fun _ => rfl⟩, rfl, nofun, ?_⟩
      · have unhanded : Host.nacks (.subscribed config h.broker.subscriptions.length :: uses)
            h.broker.subscriptions.length = fun _ => 0 := by
          funext n
          rw [nacks_cons, nacks]
          rfl
        rw [arrived, unhanded, finished_cons, finished]
        exact Tracks.nil _
      · rw [asked?_cons]
        exact congrArg (Option.or · _) (if_pos rfl)
      · rw [arrived, receipts_cons, receipts]
        rfl
      · rw [arrived]
        exact nofun
  · have bound := List.getElem?_eq_none_iff.mp absent
    rw [List.length_append, List.length_singleton] at bound
    exact List.forall_mem_cons.mpr
      ⟨others j (by omega), kept.silent j (List.getElem?_eq_none (by omega))⟩

/-- An offer is received, by a receive that has just begun or by one that has waited. -/
theorem received (kept : Kept uses h) {d : Delivery} (begun : Adjusts i id h k)
    (ht : k.take? i = some (d, l)) : Kept (.received i d :: uses) l := by
  obtain ⟨s, channel, hs, waiting, moved⟩ := adjusts_take? ht
  rw [begun.getElem?, Option.map_id, id] at hs
  have taken := begun.after moved
  exact kept.touched taken hs ((kept.accounts i s hs).received waiting taken.messages)
    (fun _ other => ⟨rfl, if_neg fun same => other same.symm, rfl⟩) rfl (by simp)

/-- One use of the broker keeps the accounts of all subscriptions. -/
theorem next (kept : Kept uses h) (shut : Use.closed ∈ uses → h.broker.closed)
    (does : Does h use k) : Kept (use :: uses) k := by
  cases does with
  | subscribed hs => exact kept.subscribed hs shut
  | unsubscribed hs =>
    obtain rfl := subscribe_error hs
    exact kept.still rfl rfl rfl (fun _ => ⟨rfl, rfl, rfl⟩) rfl (by simp)
  | published hp =>
    have puts := puts_of_publish h hp
    exact kept.put rfl puts.subscriptions puts.messages puts.faults (fun _ => ⟨rfl, rfl, rfl⟩)
      (by simp)
  | unpublished hp =>
    have still := still_of_publish h hp
    exact kept.still still.subscriptions still.messages still.faults (fun _ => ⟨rfl, rfl, rfl⟩) rfl
      (by simp)
  | injected => exact kept.put rfl rfl rfl rfl (fun _ => ⟨rfl, rfl, rfl⟩) (by simp)
  | failPublishes => exact kept.still rfl rfl rfl (fun _ => ⟨rfl, rfl, rfl⟩) rfl (by simp)
  | failReceives => exact kept.still rfl rfl rfl (fun _ => ⟨rfl, rfl, rfl⟩) rfl (by simp)
  | failSubscriptions => exact kept.still rfl rfl rfl (fun _ => ⟨rfl, rfl, rfl⟩) rfl (by simp)
  | @received i d l k hb ht =>
    exact kept.received ((still_of_beginReceive h hb).adjusts i) ht
  | awaited ht => exact kept.received (.refl h) ht
  | unreceived hb =>
    have still := still_of_beginReceive h hb
    exact kept.still still.subscriptions still.messages still.faults (fun _ => ⟨rfl, rfl, rfl⟩) rfl
      (by simp)
  | pending hb _ =>
    have still := still_of_beginReceive h hb
    exact kept.still still.subscriptions still.messages still.faults (fun _ => ⟨rfl, rfl, rfl⟩) rfl
      (by simp)
  | @settled how i s d hs held =>
    have acc := kept.accounts i s hs
    have aside : ∀ j, j ≠ i → (Use.settled how i d).Aside j := fun _ other =>
      ⟨rfl, rfl, if_neg fun same => other same.symm⟩
    rcases adjusts_settleBy kept.faultless how i d with
      ⟨notNack, released⟩ | ⟨delay, timer, rfl, back⟩
    · exact kept.touched released hs
        (acc.settled held (.inl ⟨notNack, rfl⟩) released.messages) aside rfl (by simp)
    · exact kept.touched back hs
        (acc.settled held (.inr ⟨delay, timer, rfl, rfl⟩) back.messages) aside rfl (by simp)
  | @offered i serial entry delayed _ =>
    obtain ⟨s, hs, found⟩ := Option.bind_eq_some_iff.mp delayed
    exact kept.touched (f := (·.offerDelayed entry)) ⟨rfl, rfl, rfl, rfl, rfl⟩ hs
      ((kept.accounts i s hs).offered (List.mem_of_find?_eq_some found) (Nat.le_refl _))
      (fun _ _ => ⟨rfl, rfl, rfl⟩) rfl (by simp)
  | passed _ => exact kept.still rfl rfl rfl (fun _ => ⟨rfl, rfl, rfl⟩) rfl (by simp)
  | closed => exact kept.closed

end Kept

theorem History.kept {uses : List Use} {h : Host} (history : History uses h) : Kept uses h := by
  induction history with
  | start => exact ⟨rfl, fun _ _ hs => (nomatch hs), fun _ _ _ => nofun⟩
  | next earlier does ih => exact ih.next earlier.shut does

/-- What a use leaves alone. -/
structure Spares (h : Host) (use : Use) (k : Host) : Prop where
  /-- A publish that fails is as if it had not been tried. -/
  unpublished : ∀ topic payload e, use = .unpublished topic payload e →
    k.broker.subscriptions = h.broker.subscriptions ∧ k.broker.published = h.broker.published
  /-- A receive that fails takes nothing. -/
  unreceived : ∀ i e, use = .unreceived i e →
    k.broker.subscriptions = h.broker.subscriptions ∧ k.broker.published = h.broker.published
  /-- To settle an offer of one subscription leaves all others. -/
  settled : ∀ how i d, use = .settled how i d → ∀ j, j ≠ i →
    k.broker.subscriptions[j]? = h.broker.subscriptions[j]?

theorem Does.spares {h k : Host} {use : Use} (faultless : h.faults = {}) (does : Does h use k) :
    Spares h use k where
  unpublished topic payload e is := by
    subst is
    cases does with
    | unpublished hp =>
      have still := still_of_publish h hp
      exact ⟨still.subscriptions, still.published⟩
  unreceived i e is := by
    subst is
    cases does with
    | unreceived hb =>
      have still := still_of_beginReceive h hb
      exact ⟨still.subscriptions, still.published⟩
  settled how i d is j other := by
    subst is
    cases does with
    | settled _ _ =>
      rcases adjusts_settleBy faultless how i d with ⟨-, released⟩ | ⟨_, _, -, back⟩
      · exact released.touches.getElem? other
      · exact back.touches.getElem? other

end Host

end ChangeDispatch
