import ChangeDispatch.Proofs.DeadLetter.Step
import ChangeDispatch.Proofs.Settlement.Tally

/-!
# What a consumer does with its messages

The deeds of a consumer are read off its steps: an offer is taken, and the handler called with it
or not; the handler succeeds or fails; a copy is published. The deeds that concern one message make
up its course. Every offer of it is tried in turn until the handler succeeds or a copy is made, and
that ends the course. A message may also be left in the middle of its course, where a settlement
fails or the consumer stops.
-/
namespace ChangeDispatch.Consumer

open Host (Adjusts Still Puts)

/-- What a consumer does with an offer. -/
inductive Deed where
  /-- The offer is taken and the handler called. -/
  | called (d : Delivery)
  /-- The offer is taken, and its payload does not decode. -/
  | refused (d : Delivery)
  | succeeded (d : Delivery)
  | failed (d : Delivery)
  /-- A copy is published. -/
  | copied (d : Delivery)
  deriving DecidableEq, Repr

namespace Deed

def delivery : Deed → Delivery
  | called d | refused d | succeeded d | failed d | copied d => d

/-- The deed is about the message with this number. -/
def concerns (e : Deed) (message : Nat) : Bool := e.delivery.message == message

/-- The offer that is taken. -/
def taken? : Deed → Option Delivery
  | called d | refused d => some d
  | _ => none

def called? : Deed → Option Delivery
  | called d => some d
  | _ => none

def failed? : Deed → Option Delivery
  | failed d => some d
  | _ => none

def copied? : Deed → Option Delivery
  | copied d => some d
  | _ => none

end Deed

/-- What a consumer does in a step from host `h` to host `l`. -/
def deed? (h : Host) (c : Consumer) (l : Host) : Option Deed :=
  match c.phase with
  | .ready | .ended => none
  | .waiting => (c.taking? h).map fun d =>
    match c.handler.decode d.payload with
    | .ok _ => .called d
    | .error _ => .refused d
  | .handling d message _ =>
    match c.handler.answer (c.seen.length - 1) message with
    | .ok () => some (.succeeded d)
    | .error _ => some (.failed d)
  | .burying d | .publishing d _ =>
    if h.broker.published.length < l.broker.published.length then some (.copied d) else none

/-! ## The steps of a consumer by their deeds -/

/-- A step of a consumer with its deed. -/
inductive Acts (h : Host) (c : Consumer) : Host → Consumer → Option Deed → Prop where
  | asked {l : Host} :
      c.phase = .ready → Still h l → Acts h c l { c with phase := .waiting } none
  /-- The receive fails, as it was told to. -/
  | unasked {l : Host} :
      c.phase = .ready → Still h l → l.broker.failReceives < h.broker.failReceives →
      Acts h c l c none
  | finished {l : Host} :
      c.phase.hand? = none → c.phase ≠ .ended →
      Adjusts c.subscription Subscription.stopReceiving h l →
      Acts h c l { c with phase := .ended } none
  | called {d : Delivery} {message : Message} {timer : Timer} {l m : Host} :
      c.phase = .waiting → h.take? c.subscription = some (d, l) →
      c.handler.decode d.payload = .ok message → Still l m →
      Acts h c m { c with seen := c.seen ++ [message], phase := .handling d message timer }
        (some (.called d))
  | refused {d : Delivery} {problem : Json.Problem} {l m : Host} :
      c.phase = .waiting → h.take? c.subscription = some (d, l) →
      c.handler.decode d.payload = .error problem → Still l m →
      Acts h c m { c with phase := .burying d } (some (.refused d))
  | succeeded {d : Delivery} {message : Message} {timer : Timer} {l : Host} :
      c.phase = .handling d message timer → Adjusts c.subscription (·.release d) h l →
      Acts h c l { c with phase := .ready } (some (.succeeded d))
  | failed {d : Delivery} {message : Message} {timer : Timer} {l : Host} :
      c.phase = .handling d message timer → d.number < c.policy.maxDeliveries →
      HandsBack c.subscription d h l → Acts h c l { c with phase := .ready } (some (.failed d))
  | exhausted {d : Delivery} {message : Message} {timer : Timer} {l : Host} :
      c.phase = .handling d message timer → c.policy.maxDeliveries ≤ d.number → Still h l →
      Acts h c l { c with phase := .burying d } (some (.failed d))
  | delayed {d : Delivery} {timer : Timer} {l : Host} :
      c.phase = .burying d → Still h l → Acts h c l { c with phase := .publishing d timer } none
  | copied {d : Delivery} {l m : Host} :
      c.phase.toBury? = some d → Puts c.policy.deadLetterTopic d.payload h l →
      Adjusts c.subscription (·.release d) l m →
      Acts h c m { c with phase := .ready } (some (.copied d))
  | uncopied {d : Delivery} {l m : Host} :
      c.phase.toBury? = some d → Still h l → HandsBack c.subscription d l m →
      Acts h c m { c with phase := .ready } none

variable {h l : Host} {c c' : Consumer} {d : Delivery}

theorem deed?_waiting (waiting : c.phase = .waiting) (going : c.stopping = false) :
    c.deed? h l = ((h.take? c.subscription).map Prod.fst).map fun d =>
      match c.handler.decode d.payload with
      | .ok _ => .called d
      | .error _ => .refused d := by
  unfold deed?
  rw [waiting, ← taking?_eq waiting going]

theorem deed?_handling {message : Message} {timer : Timer}
    (phase : c.phase = .handling d message timer) :
    c.deed? h l = match c.handler.answer (c.seen.length - 1) message with
      | .ok () => some (.succeeded d)
      | .error _ => some (.failed d) := by
  unfold deed?
  rw [phase]

theorem deed?_toBury (buries : c.phase.toBury? = some d) :
    c.deed? h l =
      if h.broker.published.length < l.broker.published.length then some (.copied d) else none := by
  unfold deed?
  cases phase : c.phase with
  | burying e | publishing e _ =>
    rw [phase] at buries
    obtain rfl := Option.some.inj buries
    rfl
  | _ =>
    rw [phase] at buries
    cases buries

theorem deed?_of_published (buries : c.phase.toBury? = some d) {p : String × Payload}
    (published : l.broker.published = h.broker.published ++ [p]) :
    c.deed? h l = some (.copied d) := by
  rw [deed?_toBury buries, if_pos]
  rw [published, List.length_append]
  exact Nat.lt_succ_self _

theorem deed?_of_unpublished (buries : c.phase.toBury? = some d)
    (same : l.broker.published = h.broker.published) : c.deed? h l = none := by
  rw [deed?_toBury buries, if_neg]
  rw [same]
  exact Nat.lt_irrefl _

/-- Who has nothing in hand and takes nothing does nothing. -/
theorem deed?_eq_none (empty : c.phase.hand? = none) (idle : c.taking? h = none) :
    c.deed? h l = none := by
  unfold deed?
  cases phase : c.phase with
  | ready | ended => rfl
  | waiting =>
    dsimp only
    rw [idle]
    rfl
  | _ =>
    rw [phase] at empty
    cases empty

/-- What a consumer takes, it has to do with. -/
theorem taken?_deed? (h : Host) (c : Consumer) (l : Host) :
    (c.deed? h l).bind Deed.taken? = c.taking? h := by
  unfold deed?
  cases phase : c.phase with
  | waiting =>
    dsimp only
    cases c.taking? h with
    | none => rfl
    | some d =>
      rw [Option.map_some, Option.bind_some]
      cases c.handler.decode d.payload <;> rfl
  | ready | ended => exact (taking?_eq_none (.inl (by simp [phase]))).symm
  | handling d message timer =>
    rw [taking?_eq_none (.inl (by simp [phase]))]
    dsimp only
    cases c.handler.answer (c.seen.length - 1) message <;> rfl
  | burying d | publishing d _ =>
    rw [taking?_eq_none (.inl (by simp [phase]))]
    dsimp only
    split <;> rfl

/-- A receive fails only as often as it was told to. -/
theorem failReceives_of_beginReceive {e : TransportError} (refused : h.beginReceive = (some e, l)) :
    l.broker.failReceives < h.broker.failReceives := by
  unfold Host.beginReceive Broker.beginReceive at refused
  cases fails : h.broker.failReceives with
  | zero =>
    rw [fails] at refused
    cases refused
  | succ n =>
    rw [fails] at refused
    obtain ⟨-, rfl⟩ := Prod.mk.inj refused
    exact Nat.lt_succ_self n

theorem HandsBack.published {i : Nat} (back : HandsBack i d h l) :
    l.broker.published = h.broker.published :=
  back.touches.elim Adjusts.published Adjusts.published

/-- A step that copies a message, or that tries to. -/
theorem acts_bury (buries : c.phase.toBury? = some d) :
    Acts h c (bury h c d) { c with phase := .ready } (c.deed? h (bury h c d)) := by
  generalize reached : bury h c d = k
  unfold bury at reached
  cases attempt : h.publish c.policy.deadLetterTopic d.payload with
  | mk result l =>
    rw [attempt] at reached
    cases result with
    | ok _ =>
      have puts := h.puts_of_publish attempt
      have acked : Adjusts c.subscription (·.release d) l k := reached ▸
        (l.adjusts_ack c.subscription d).before (Host.adjusts_noteError _ _ _ _)
      rw [deed?_of_published buries (acked.published.trans puts.published)]
      exact .copied buries puts acked
    | error e =>
      have still := h.still_of_publish attempt
      have back : HandsBack c.subscription d l k := reached ▸
        .after (l.still_note _) (handsBack_handBack _ c d)
      rw [deed?_of_unpublished buries (back.published.trans still.published)]
      exact .uncopied buries still back

theorem acts_conclude {message : Message} {timer : Timer}
    (phase : c.phase = .handling d message timer) :
    Acts h c (conclude h c d (c.handler.answer (c.seen.length - 1) message)).1
      (conclude h c d (c.handler.answer (c.seen.length - 1) message)).2 (c.deed? h l) := by
  rw [deed?_handling phase]
  cases c.handler.answer (c.seen.length - 1) message with
  | ok _ =>
    have acked := (h.adjusts_ack c.subscription d).before
      (Host.adjusts_noteError _ _ (h.ack c.subscription d).1 (.messageAckFailed c.topic))
    exact .succeeded phase (acked.before (Host.adjusts_note _ _ (.processed c.topic d)))
  | error e =>
    unfold conclude
    dsimp only
    split
    next last => exact .exhausted phase last (h.still_note _)
    next more =>
      have noted := h.still_note (.handlerFailed c.topic d.number c.policy.maxDeliveries e)
      exact .failed phase (Nat.lt_of_not_le more) (.after noted (handsBack_handBack _ c d))

theorem acts_of_step? (step : c.step? h = some (l, c')) : Acts h c l c' (c.deed? h l) := by
  have begun := h.still_beginReceive
  cases turn_of_step? step with
  | stopping phase told =>
    have empty : c.phase.hand? = none := by rcases phase with phase | phase <;> rw [phase] <;> rfl
    rw [deed?_eq_none empty (taking?_eq_none (.inr told))]
    have going : c.phase ≠ .ended := by rcases phase with phase | phase <;> simp [phase]
    exact .finished empty going (h.adjusts_stopReceiving _)
  | asking ready _ asked =>
    rw [asked] at begun
    have empty : c.phase.hand? = none := by rw [ready]; rfl
    rw [deed?_eq_none empty (taking?_eq_none (.inl (by simp [ready])))]
    exact .asked ready begun
  | @failing e k ready _ refused =>
    rw [refused] at begun
    have empty : c.phase.hand? = none := by rw [ready]; rfl
    rw [deed?_eq_none empty (taking?_eq_none (.inl (by simp [ready])))]
    have fewer := failReceives_of_beginReceive refused
    exact .unasked ready (begun.trans (k.still_note (.receiveFailed c.topic e))) fewer
  | @taking d k waiting going taken =>
    rw [deed?_waiting waiting going, taken]
    unfold begin
    dsimp only [Option.map_some]
    cases decoded : c.handler.decode d.payload with
    | error problem => exact .refused waiting taken decoded (k.still_note _)
    | ok message =>
      exact .called waiting taken decoded
        (k.still_setTimer (c.handler.duration c.seen.length message))
  | ending waiting going nothing _ =>
    have empty : c.phase.hand? = none := by rw [waiting]; rfl
    have idle : c.taking? h = none := by rw [taking?_eq waiting going, nothing]; rfl
    rw [deed?_eq_none empty idle]
    refine .finished empty (by simp [waiting]) ?_
    exact (h.adjusts_note _ _).after (Host.adjusts_stopReceiving _ _)
  | concluding phase _ => exact acts_conclude phase
  | @delaying d phase _ =>
    have buries : c.phase.toBury? = some d := by rw [phase]; rfl
    have still := h.still_setTimer h.faults.publishDelay
    rw [deed?_of_unpublished buries still.published]
    exact .delayed phase still
  | burying buries =>
    rcases buries with ⟨phase, -⟩ | ⟨timer, phase, -⟩ <;> exact acts_bury (by rw [phase]; rfl)

/-! ## The course of a message -/

section

variable (handler : Handler) (d : Delivery) (i bound : Nat)

/-- What is done with a message of which `i` offers were taken, when none of them was handled and
no copy made; the latest first. -/
def tried : Nat → List Deed
  | 0 => []
  | i + 1 =>
    match handler.decode d.payload with
    | .ok _ => .failed { d with number := i + 1 } :: .called { d with number := i + 1 } :: tried i
    | .error _ => .refused { d with number := i + 1 } :: tried i

/-- What can be done with one message of which at most `bound` offers are made. -/
inductive Course : List Deed → Prop where
  | left {d : Delivery} {i : Nat} : i ≤ bound → Course (tried handler d i)
  | calling {d : Delivery} {message : Message} :
      handler.decode d.payload = .ok message → 1 ≤ d.number → d.number ≤ bound →
      Course (.called d :: tried handler d (d.number - 1))
  | succeeded {d : Delivery} {message : Message} :
      handler.decode d.payload = .ok message → 1 ≤ d.number → d.number ≤ bound →
      Course (.succeeded d :: .called d :: tried handler d (d.number - 1))
  /-- A message that decodes is copied after its last offer. -/
  | copied {d : Delivery} :
      d.number ≤ bound →
      (∀ message, handler.decode d.payload = .ok message → d.number = bound) →
      Course (.copied d :: tried handler d d.number)

end

variable {handler : Handler} {i bound : Nat} {e : Deed} {later earlier : List Deed}

theorem tried_again (handler : Handler) (d : Delivery) (i : Nat) :
    tried handler d.again i = tried handler d i := by
  induction i with
  | zero => rfl
  | succ i ih =>
    unfold tried
    rw [ih]
    rfl

theorem eq_of_number (positive : 1 ≤ d.number) :
    d.number = d.number - 1 + 1 ∧ { d with number := d.number - 1 + 1 } = d := by
  have same := (Nat.sub_add_cancel positive).symm
  exact ⟨same, by rw [← same]⟩

/-- One offer more has failed. -/
theorem tried_of_ok {message : Message} (decoded : handler.decode d.payload = .ok message)
    (positive : 1 ≤ d.number) :
    .failed d :: .called d :: tried handler d (d.number - 1) = tried handler d d.number := by
  obtain ⟨number, same⟩ := eq_of_number positive
  conv => rhs; rw [number, tried, decoded]
  dsimp only
  rw [same]

theorem tried_of_error {problem : Json.Problem}
    (undecoded : handler.decode d.payload = .error problem) (positive : 1 ≤ d.number) :
    .refused d :: tried handler d (d.number - 1) = tried handler d d.number := by
  obtain ⟨number, same⟩ := eq_of_number positive
  conv => rhs; rw [number, tried, undecoded]
  dsimp only
  rw [same]

/-- The offers of a message that decodes: those before the last have failed. -/
theorem failed_tried {message : Message} (decoded : handler.decode d.payload = .ok message)
    (i : Nat) : ((tried handler d i).filterMap Deed.failed?).map Delivery.number =
      (List.range' 1 i).reverse := by
  induction i with
  | zero => rfl
  | succ i ih =>
    rw [tried, decoded, List.range'_concat, List.reverse_append]
    simp [List.filterMap_cons, Deed.failed?, ih, Nat.add_comm]

theorem called_tried_of_error {problem : Json.Problem}
    (undecoded : handler.decode d.payload = .error problem) (i : Nat) :
    (tried handler d i).filterMap Deed.called? = [] := by
  induction i with
  | zero => rfl
  | succ i ih =>
    rw [tried, undecoded]
    exact ih

theorem length_taken_tried (handler : Handler) (d : Delivery) (i : Nat) :
    ((tried handler d i).filterMap Deed.taken?).length = i := by
  induction i with
  | zero => rfl
  | succ i ih =>
    rw [tried]
    cases handler.decode d.payload <;> simp [List.filterMap_cons, Deed.taken?, ih]

/-- The handler is called with an offer that is taken. -/
theorem length_called_le (deeds : List Deed) :
    (deeds.filterMap Deed.called?).length ≤ (deeds.filterMap Deed.taken?).length := by
  induction deeds with
  | nil => exact Nat.le_refl 0
  | cons e deeds ih =>
    cases e <;> simp only [List.filterMap_cons, Deed.called?, Deed.taken?, List.length_cons] <;>
      omega

theorem tried_unfinished (handler : Handler) (d : Delivery) (i : Nat) :
    ∀ e ∈ tried handler d i, (∀ x, e ≠ .copied x) ∧ ∀ x, e ≠ .succeeded x := by
  induction i with
  | zero => exact fun e mem => absurd mem List.not_mem_nil
  | succ i ih =>
    rw [tried]
    cases handler.decode d.payload with
    | ok _ =>
      refine List.forall_mem_cons.mpr ⟨⟨nofun, nofun⟩, ?_⟩
      exact List.forall_mem_cons.mpr ⟨⟨nofun, nofun⟩, ih⟩
    | error _ => exact List.forall_mem_cons.mpr ⟨⟨nofun, nofun⟩, ih⟩

theorem copied_tried (handler : Handler) (d : Delivery) (i : Nat) :
    (tried handler d i).filterMap Deed.copied? = [] := by
  refine List.filterMap_eq_nil_iff.mpr fun e mem => ?_
  cases e with
  | copied x => exact absurd rfl ((tried_unfinished _ _ _ _ mem).1 x)
  | _ => rfl

namespace Course

/-- Nothing is done with a message after it was handled or copied. -/
theorem final (course : Course handler bound (later ++ e :: earlier))
    (ends : (∃ d, e = .copied d) ∨ ∃ d, e = .succeeded d) : later = [] := by
  have unfinished : ∀ {d i}, e ∉ tried handler d i := fun mem => by
    obtain ⟨uncopied, unhandled⟩ := tried_unfinished _ _ _ e mem
    rcases ends with ⟨d, rfl⟩ | ⟨d, rfl⟩
    · exact uncopied d rfl
    · exact unhandled d rfl
  generalize whole : later ++ e :: earlier = deeds at course
  cases later with
  | nil => rfl
  | cons first later =>
    have mem : e ∈ deeds.tail := by
      rw [← whole]
      exact List.mem_append_right later List.mem_cons_self
    cases course with
    | left _ => exact absurd (List.mem_of_mem_tail mem) unfinished
    | calling _ _ _ => exact absurd mem unfinished
    | succeeded _ _ _ =>
      rcases List.mem_cons.mp mem with rfl | mem
      · rcases ends with ⟨d, he⟩ | ⟨d, he⟩ <;> cases he
      · exact absurd mem unfinished
    | copied _ _ => exact absurd mem unfinished

/-- A copy is made of a message that does not decode, and then its handler is not called, or of one
whose handler has failed on every offer that can be made. -/
theorem of_copied (course : Course handler bound (.copied d :: earlier)) :
    ((∃ problem, handler.decode d.payload = .error problem) ∧
      earlier.filterMap Deed.called? = []) ∨
    (earlier.filterMap Deed.failed?).map Delivery.number = (List.range' 1 bound).reverse := by
  generalize whole : Deed.copied d :: earlier = deeds at course
  cases course with
  | left _ =>
    have mem := tried_unfinished _ _ _ (.copied d) (whole ▸ List.mem_cons_self)
    exact absurd rfl (mem.1 d)
  | calling _ _ _ => cases whole
  | succeeded _ _ _ => cases whole
  | copied below last =>
    obtain ⟨same, rfl⟩ := List.cons.inj whole
    obtain rfl := Deed.copied.inj same
    cases decoded : handler.decode d.payload with
    | error problem => exact .inl ⟨⟨problem, rfl⟩, called_tried_of_error decoded _⟩
    | ok message =>
      rw [last message decoded]
      exact .inr (failed_tried decoded bound)

/-- A message that was handled has not been copied before. -/
theorem of_succeeded (course : Course handler bound (.succeeded d :: earlier)) :
    earlier.filterMap Deed.copied? = [] := by
  generalize whole : Deed.succeeded d :: earlier = deeds at course
  cases course with
  | left _ =>
    have mem := tried_unfinished _ _ _ (.succeeded d) (whole ▸ List.mem_cons_self)
    exact absurd rfl (mem.2 d)
  | calling _ _ _ => cases whole
  | succeeded _ _ _ =>
    obtain ⟨-, rfl⟩ := List.cons.inj whole
    exact copied_tried _ _ _
  | copied _ _ => cases whole

/-- A message is taken as often as it is offered, at most. -/
theorem taken_le (course : Course handler bound earlier) :
    (earlier.filterMap Deed.taken?).length ≤ bound := by
  cases course with
  | left below =>
    rw [length_taken_tried]
    exact below
  | calling _ _ _ | succeeded _ _ _ =>
    simp only [List.filterMap_cons, Deed.taken?, List.length_cons, length_taken_tried]
    omega
  | copied below _ =>
    simp only [List.filterMap_cons, Deed.taken?, length_taken_tried]
    exact below

theorem copied_le (course : Course handler bound earlier) :
    (earlier.filterMap Deed.copied?).length ≤ 1 := by
  cases course <;> simp [List.filterMap_cons, Deed.copied?, copied_tried]

end Course

end ChangeDispatch.Consumer
