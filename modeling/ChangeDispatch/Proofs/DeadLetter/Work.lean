import ChangeDispatch.Proofs.DeadLetter.Courses
import ChangeDispatch.Proofs.Topic.Grammar
import Mathlib

/-!
# How much work a message can make

A consumer with the default policy makes three offers of a message at most, a few steps each, and
one copy, on a topic that is longer than its own. So the work that a message can make is bounded by
recursion over its topic, which ends beyond the longest topic that any consumer reads. What all
consumers still have to do is the sum over what they have in hand and what waits for them, and
every step of a consumer makes it less.
-/
namespace ChangeDispatch

open Host (Adjusts Still Puts)
open Consumer (Deed Keeps Acts HandsBack)

/-! ## The work of messages -/

/-- A bound on the steps that a message on a topic can cause at consumers of these topics. -/
def messageWork (topics : List String) (topic : String) : Nat :=
  if _ : topic ∈ topics then topics.count topic * (18 + messageWork topics (Topic.deadLetter topic))
  else 0
termination_by (topics.map String.length).sum + 1 - topic.length
decreasing_by
  have below : topic.length ≤ (topics.map String.length).sum :=
    List.le_sum_of_mem (List.mem_map_of_mem ‹_›)
  rw [Topic.length_deadLetter]
  omega

/-- A bound on the steps that an offer with a number can cause at a consumer of the topic. -/
def offerWork (topics : List String) (topic : String) (number : Nat) : Nat :=
  (4 - number) * 6 + messageWork topics (Topic.deadLetter topic)

section

variable (topics : List String) (topic : String)

/-- A message is offered to every consumer of its topic. -/
theorem messageWork_eq :
    messageWork topics topic = topics.count topic * offerWork topics topic 1 := by
  rw [messageWork]
  split
  next => rfl
  next unread => rw [List.count_eq_zero_of_not_mem unread, Nat.zero_mul]

theorem offerWork_again {number : Nat} (more : number ≤ 3) :
    offerWork topics topic number = 6 + offerWork topics topic (number + 1) := by
  unfold offerWork
  omega

end

/-- What waits in the channel of a subscription that is received from on the topic. -/
def Subscription.work (topics : List String) (topic : String) (s : Subscription) : Nat :=
  (s.channel.map fun d => offerWork topics topic d.number).sum

namespace Subscription

variable (topics : List String) (topic : String) {s : Subscription} {d : Delivery}

theorem work_take {channel : List Delivery} (first : s.channel = d :: channel) :
    s.work topics topic = offerWork topics topic d.number +
      ({ s with channel, held := s.held ++ [d] } : Subscription).work topics topic := by
  unfold work
  rw [first]
  rfl

theorem work_arrive (s : Subscription) (d : Delivery) :
    (s.arrive d).work topics topic ≤ s.work topics topic + offerWork topics topic d.number := by
  unfold arrive work
  split
  · rw [List.map_append, List.sum_append]
    exact Nat.le_refl _
  · exact Nat.le_add_right _ _

/-- What is handed back is offered once more at most. -/
theorem work_handBack (s : Subscription) (d : Delivery) :
    (s.handBack d none).work topics topic ≤
      s.work topics topic + offerWork topics topic (d.number + 1) := by
  unfold handBack
  dsimp only
  split
  · exact Nat.le_add_right _ _
  · exact work_arrive topics topic (s.release d) d.again

end Subscription

namespace Consumer

/-- What is left of the work on a message in hand, and the steps to the next one. -/
def phaseWork (topics : List String) (c : Consumer) : Nat :=
  match c.phase with
  | .ready => 2
  | .waiting => 1
  | .handling d _ _ => 6 + offerWork topics c.topic (d.number + 1)
  | .burying d => 5 + offerWork topics c.topic (d.number + 1)
  | .publishing d _ => 4 + offerWork topics c.topic (d.number + 1)
  | .ended => 0

/-- What a consumer has to do. -/
def work (topics : List String) (h : Host) (c : Consumer) : Nat :=
  c.phaseWork topics + (h.broker.subscriptions[c.subscription]?).elim 0 (·.work topics c.topic)

variable {h l : Host} {c c' : Consumer} {s s' : Subscription} {d : Delivery} {deed : Option Deed}
  {history : Nat → List Deed} {topics : List String}

theorem work_eq (found : h.broker.subscriptions[c.subscription]? = some s) :
    c.work topics h = c.phaseWork topics + s.work topics c.topic := by
  unfold work
  rw [found]
  rfl

/-- A consumer that is about to copy has still to publish or to hand back. -/
theorem phaseWork_of_toBury? (topics : List String) (buries : c.phase.toBury? = some d) :
    4 + offerWork topics c.topic (d.number + 1) ≤ c.phaseWork topics := by
  unfold phaseWork
  cases phase : c.phase with
  | burying e | publishing e _ =>
    rw [phase] at buries
    obtain rfl := Option.some.inj buries
    dsimp only
    omega
  | _ =>
    rw [phase] at buries
    cases buries

theorem phaseWork_of_handling {message : Message} {timer : Timer}
    (phase : c.phase = .handling d message timer) :
    c.phaseWork topics = 6 + offerWork topics c.topic (d.number + 1) := by
  unfold phaseWork
  rw [phase]

theorem HandsBack.work {i : Nat} (back : HandsBack i d h l)
    (found : h.broker.subscriptions[i]? = some s) (topics : List String) (topic : String) :
    ∃ s', l.broker.subscriptions[i]? = some s' ∧
      s'.work topics topic ≤ s.work topics topic + offerWork topics topic (d.number + 1) := by
  rcases back.touches with a | a
  · refine ⟨s.release d, ?_, Nat.le_add_right _ _⟩
    rw [a.getElem?, found]
    rfl
  · refine ⟨s.handBack d none, ?_, s.work_handBack topics topic d⟩
    rw [a.getElem?, found]
    rfl

/-- In a step, a consumer does some of its work; a copy makes work for others. -/
theorem Acts.work_lt (acts : Acts h c l c' deed) (keeps : Keeps c s history)
    (found : h.broker.subscriptions[c.subscription]? = some s)
    (policy : c.policy = .ofTopic c.topic)
    (receives : l.broker.failReceives ≤ h.broker.failReceives) :
    c'.work topics l +
        ((deed.bind Deed.copied?).map fun _ => c.policy.deadLetterTopic).elim 0
          (messageWork topics) + l.broker.failReceives <
      c.work topics h + h.broker.failReceives := by
  have maximum : c.policy.maxDeliveries = 3 := by rw [policy]; rfl
  -- it is enough to compare what is in hand and in the channel
  have less : ∀ {phase : Phase} {seen : List Message} {s' : Subscription} {more : Nat},
      l.broker.subscriptions[c.subscription]? = some s' →
      ({ c with phase, seen } : Consumer).phaseWork topics + s'.work topics c.topic + more <
        c.phaseWork topics + s.work topics c.topic →
      ({ c with phase, seen } : Consumer).work topics l + more + l.broker.failReceives <
        c.work topics h + h.broker.failReceives := by
    intro phase seen s' more there less
    have after : ({ c with phase, seen } : Consumer).work topics l =
        ({ c with phase, seen } : Consumer).phaseWork topics + s'.work topics c.topic :=
      work_eq there
    rw [after, work_eq found]
    omega
  have stays : Still h l → l.broker.subscriptions[c.subscription]? = some s := fun still => by
    rw [still.subscriptions, found]
  have released : ∀ {k d}, k.broker.subscriptions[c.subscription]? = some s →
      Adjusts c.subscription (·.release d) k l →
      l.broker.subscriptions[c.subscription]? = some (s.release d) := fun there a => by
    rw [a.getElem?, there]
    rfl
  have takes : ∀ {d : Delivery} {k : Host} {phase : Phase} {seen : List Message},
      c.phase = .waiting → h.take? c.subscription = some (d, k) → Still k l →
      ({ c with phase, seen } : Consumer).phaseWork topics ≤
        6 + offerWork topics c.topic (d.number + 1) →
      ({ c with phase, seen } : Consumer).work topics l + 0 + l.broker.failReceives <
        c.work topics h + h.broker.failReceives := by
    intro d k phase seen waiting taken still left
    obtain ⟨channel, first, there⟩ := Host.getElem?_take? taken found
    rw [← still.subscriptions] at there
    have few := (keeps.number d (by rw [first]; exact List.mem_cons_self)).2
    have step := offerWork_again topics c.topic (maximum ▸ few)
    have one : c.phaseWork topics = 1 := by
      unfold phaseWork
      rw [waiting]
    refine less there ?_
    rw [Subscription.work_take topics c.topic first]
    omega
  cases acts with
  | asked ready still =>
    refine less (stays still) ?_
    unfold phaseWork
    rw [ready]
    show 1 + s.work topics c.topic + 0 < 2 + _
    omega
  | unasked ready still fewer =>
    have same : c.work topics l = c.work topics h := by
      rw [work_eq (stays still), work_eq found]
    rw [same]
    exact Nat.add_lt_add_left fewer _
  | finished empty going a =>
    have there : l.broker.subscriptions[c.subscription]? = some s.stopReceiving := by
      rw [a.getElem?, found]
      rfl
    refine less there ?_
    have busy : 0 < c.phaseWork topics := by
      unfold phaseWork
      cases phase : c.phase with
      | ended => exact absurd phase going
      | _ =>
        dsimp only
        omega
    show 0 + 0 + 0 < _
    omega
  | called waiting taken _ still => exact takes waiting taken still (Nat.le_refl _)
  | refused waiting taken _ still =>
    exact takes waiting taken still (Nat.add_le_add_right (by decide : 5 ≤ 6) _)
  | @succeeded d message timer _ phase a =>
    refine less (released found a) ?_
    rw [phaseWork_of_handling phase]
    show 2 + s.work topics c.topic + 0 < _
    omega
  | @failed d message timer _ phase more back =>
    obtain ⟨s', there, bound⟩ := back.work found topics c.topic
    refine less there ?_
    rw [phaseWork_of_handling phase]
    show 2 + s'.work topics c.topic + 0 < _
    omega
  | @exhausted d message timer _ phase last still =>
    refine less (stays still) ?_
    rw [phaseWork_of_handling phase]
    show 5 + offerWork topics c.topic (d.number + 1) + s.work topics c.topic + 0 < _
    omega
  | @delayed d timer _ phase still =>
    refine less (stays still) ?_
    unfold phaseWork
    rw [phase]
    show 4 + offerWork topics c.topic (d.number + 1) + s.work topics c.topic + 0 < 5 + _ + _
    omega
  | @copied d k _ buries puts a =>
    have elsewhere : c.policy.deadLetterTopic = Topic.deadLetter c.topic := by rw [policy]; rfl
    have untouched : k.broker.subscriptions[c.subscription]? = some s := by
      rw [puts.subscriptions, List.getElem?_map, found]
      simp [Subscription.receive, keeps.topic, elsewhere, (Topic.deadLetter_ne c.topic).symm]
    have busy := phaseWork_of_toBury? topics buries
    refine less (released untouched a) ?_
    show 2 + s.work topics c.topic + messageWork topics c.policy.deadLetterTopic < _
    unfold offerWork at busy
    rw [elsewhere]
    omega
  | @uncopied d k _ buries still back =>
    have found' : k.broker.subscriptions[c.subscription]? = some s := by
      rw [still.subscriptions, found]
    obtain ⟨s', there, bound⟩ := back.work found' topics c.topic
    have busy := phaseWork_of_toBury? topics buries
    refine less there ?_
    show 2 + s'.work topics c.topic + 0 < _
    omega

end Consumer

end ChangeDispatch
