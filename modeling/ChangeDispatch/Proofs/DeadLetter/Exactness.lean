import ChangeDispatch.Proofs.DeadLetter.Courses

/-!
# Dead-lettering is exact

A message is copied once at most, and only where its handler could not be called or has failed on
every offer; a message that was handled is done with. The statements are about one message of one
consumer in any run, whatever else goes on in it and whatever fails: publishes, receives and
settlements.
-/
namespace ChangeDispatch.Script

open Consumer (Deed Course)

variable {ts since before : List Transition} {z : Session} {u : Transition} {k m : Nat}
  {c : Consumer} {d : Delivery}

/-- The offers of message `m` that the handler of consumer `k` was called with, the latest first. -/
def calls (ts : List Transition) (k m : Nat) : List Delivery :=
  (course ts k m).filterMap Deed.called?

/-- The offers of message `m` on which the handler of consumer `k` has failed. -/
def failures (ts : List Transition) (k m : Nat) : List Delivery :=
  (course ts k m).filterMap Deed.failed?

/-- The offers of message `m` that consumer `k` has made a copy of. -/
def copies (ts : List Transition) (k m : Nat) : List Delivery :=
  (course ts k m).filterMap Deed.copied?

/-- Message `m` is dead-lettered by consumer `k` as it should be. -/
structure DeadLettered (ts : List Transition) (k : Nat) (c : Consumer) (m : Nat) : Prop where
  once : (copies ts k m).length ≤ 1
  /-- What is copied is what was put on the topic of the consumer. -/
  bytes : ∀ d ∈ copies ts k m, ∃ u ∈ ts, u.Puts c.topic m d.payload
  /-- A copy is made of what the handler is never called with, or after a failure on each of the
  offers. -/
  reason : ∀ since u before d, ts = since ++ u :: before → u.deed? k = some (.copied d) →
    d.message = m →
    (∃ problem, c.handler.decode d.payload = .error problem) ∧ calls ts k m = [] ∨
      (failures before k m).map Delivery.number = (List.range' 1 c.policy.maxDeliveries).reverse
  handled : ∀ since u before d, ts = since ++ u :: before → u.deed? k = some (.succeeded d) →
    d.message = m → copies ts k m = [] ∧ calls since k m = []
  bounded : (calls ts k m).length ≤ c.policy.maxDeliveries

/-- The course of a message up to a deed, and since. -/
theorem course_split {e : Deed} (split : ts = since ++ u :: before) (deed : u.deed? k = some e)
    (own : e.delivery.message = m) : course ts k m = course since k m ++ e :: course before k m := by
  subst split own
  rw [course_append, course_cons, deed, Deed.write_self]

theorem deadLettered_of_course
    (course : ∀ m, Course c.handler c.policy.maxDeliveries (course ts k m))
    (dealt : ∀ e ∈ deeds ts k, ∃ u ∈ ts, u.Puts c.topic e.delivery.message e.delivery.payload)
    (m : Nat) : DeadLettered ts k c m := by
  constructor
  · exact (course m).copied_le
  · intro d mem
    obtain ⟨e, there, copied⟩ := List.mem_filterMap.mp mem
    obtain ⟨known, own⟩ := List.mem_filter.mp there
    obtain rfl : e = .copied d := by
      cases e with
      | copied x => exact congrArg Deed.copied (Option.some.inj copied)
      | _ => cases copied
    obtain rfl : d.message = m := eq_of_beq own
    exact dealt _ known
  · intro since u before d split deed own
    have whole := course_split split deed own
    have ordered := course m
    rw [whole] at ordered
    have last := ordered.final (.inl ⟨d, rfl⟩)
    rw [last] at ordered whole
    refine ordered.of_copied.imp_left fun ⟨undecoded, uncalled⟩ => ⟨undecoded, ?_⟩
    unfold calls
    rw [whole]
    exact uncalled
  · intro since u before d split deed own
    have whole := course_split split deed own
    have ordered := course m
    rw [whole] at ordered
    have last := ordered.final (.inr ⟨d, rfl⟩)
    rw [last] at ordered whole
    constructor
    · unfold copies
      rw [whole]
      exact ordered.of_succeeded
    · unfold calls
      rw [last]
      rfl
  · exact Nat.le_trans (Consumer.length_called_le _) (course m).taken_le

/-- A consumer publishes nothing but its copies, its handler sees nothing but what it is called
with, and every message is dead-lettered as it should be. -/
theorem dead_lettering_exact (run : Runs ts z) (known : z.system.consumers[k]? = some c)
    (positive : 1 ≤ c.policy.maxDeliveries) (elsewhere : c.policy.deadLetterTopic ≠ c.topic) :
    (∀ u ∈ ts, u.action = .agent (.consumer k) →
      u.after.system.host.broker.published = u.before.system.host.broker.published ++
        ((u.deed? k).bind Deed.copied?).toList.map fun d =>
          (c.policy.deadLetterTopic, d.payload)) ∧
    c.seen.map Except.ok = ((deeds ts k).filterMap Deed.called?).reverse.map (fun d =>
      c.handler.decode d.payload) ∧
    ∀ m, DeadLettered ts k c m := by
  obtain ⟨-, s, found⟩ := run.apart.subscription known
  have book := run.courses (Session.inbox?_eq_some.mpr ⟨known, found⟩) positive elsewhere
  exact ⟨book.logged, book.seen, deadLettered_of_course book.courses book.dealt⟩

/-- A handler that fails on the only message is called with it twice; the latest action first. -/
def failedTwice : List Action :=
  List.replicate 7 (.agent (.consumer 0)) ++
    [.perform (.inject "jobs" [7]), .serve "k" "jobs" "monitor" ⟨2, "jobs-dlq"⟩ failing]

set_option maxRecDepth 100000 in
theorem failed_twice_dead_lettered :
    ∃ c, (play failedTwice).2.system.consumers[0]? = some c ∧ 1 ≤ c.policy.maxDeliveries ∧
      c.policy.deadLetterTopic ≠ c.topic ∧
      (play failedTwice).2.system.host.broker.published = [("jobs-dlq", [7])] ∧
      course (play failedTwice).1 0 0 = [.copied ⟨0, [7], 2⟩, .failed ⟨0, [7], 2⟩,
        .called ⟨0, [7], 2⟩, .failed ⟨0, [7], 1⟩, .called ⟨0, [7], 1⟩] ∧
      DeadLettered (play failedTwice).1 0 c 0 := by
  let c : Consumer :=
    { topic := "jobs", policy := ⟨2, "jobs-dlq"⟩, handler := failing, subscription := 0
      seen := [.change (creation none), .change (creation none)] }
  have known : (play failedTwice).2.system.consumers[0]? = some c := by rfl
  obtain ⟨-, -, all⟩ := dead_lettering_exact (play_runs failedTwice) known (by decide) (by decide)
  exact ⟨c, known, by decide, by decide, by rfl, by rfl, all 0⟩

end ChangeDispatch.Script
