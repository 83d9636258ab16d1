import ChangeDispatch.Proofs.DeadLetter.Exactness
import ChangeDispatch.Proofs.DeadLetter.Work

/-!
# Chains of dead-letter topics end

Where consumers with the default policy read arbitrary topics, the dead-letter topics of others
among them, each message makes more messages, and these make more again. The work that is left
still bounds what can happen: whatever the order of the steps and of the passing of time, only so
many steps follow, and as long as something is left to do there is a step to make.
-/
namespace ChangeDispatch

open Host (Adjusts Still Puts)
open Consumer (Deed Keeps Acts HandsBack)

/-- The work that a message on `topic`, if there is one, makes for a consumer. -/
def arrivalWork (topics : List String) (topic : Option String) (c : Consumer) : Nat :=
  if topic = some c.topic then offerWork topics c.topic 1 else 0

/-- A message makes work for each of the consumers of its topic. -/
theorem sum_arrivalWork (consumers : List Consumer) (topic : Option String) :
    (consumers.map (arrivalWork (consumers.map Consumer.topic) topic)).sum =
      topic.elim 0 (messageWork (consumers.map Consumer.topic)) := by
  have count : ∀ (topics : List String) (topic : String),
      (consumers.map (arrivalWork topics (some topic))).sum =
        (consumers.map Consumer.topic).count topic * offerWork topics topic 1 := by
    intro topics topic
    induction consumers with
    | nil => simp
    | cons c consumers ih =>
      rw [List.map_cons, List.sum_cons, ih, List.map_cons]
      unfold arrivalWork
      by_cases own : topic = c.topic
      · subst own
        rw [if_pos rfl, List.count_cons_self, Nat.add_mul, Nat.one_mul, Nat.add_comm]
      · rw [if_neg fun same => own (Option.some.inj same), Nat.zero_add,
          List.count_cons_of_ne (Ne.symm own)]
  cases topic with
  | none =>
    unfold arrivalWork
    simp
  | some topic => rw [count, Option.elim_some, messageWork_eq]

/-! ## What a consumer does to receives and to others -/

namespace Host

variable (h : Host) (i : Nat) (d : Delivery)

theorem failReceives_noteError {α : Type} (result : Except α Unit) (notice : α → Notice) :
    (h.noteError result notice).broker.failReceives = h.broker.failReceives := by
  cases result <;> rfl

theorem failReceives_ack : (h.ack i d).2.broker.failReceives = h.broker.failReceives := by
  unfold Host.ack settle
  split <;> rfl

theorem failReceives_nack (delay : Duration) :
    (h.nack i d delay).2.broker.failReceives = h.broker.failReceives := by
  unfold Host.nack settle
  dsimp only
  split <;> split <;> rfl

theorem failReceives_publish (topic : String) (payload : Payload) :
    (h.publish topic payload).2.broker.failReceives = h.broker.failReceives := by
  unfold Host.publish Broker.publish
  by_cases closed : h.broker.closed
  · rw [if_pos closed]
  · rw [if_neg closed]
    dsimp only
    cases h.broker.failPublishes <;> rfl

theorem failReceives_take? {h k : Host} {i : Nat} {d : Delivery} (taken : h.take? i = some (d, k)) :
    k.broker.failReceives = h.broker.failReceives := by
  obtain ⟨s, channel, -, -, rfl⟩ := take?_eq_some taken
  rfl

end Host

namespace Consumer

variable {h l : Host} {c c' : Consumer} {d : Delivery} {deed : Option Deed}

theorem failReceives_handBack (h : Host) (c : Consumer) (d : Delivery) :
    (handBack h c d).broker.failReceives = h.broker.failReceives :=
  (Host.failReceives_noteError _ _ _).trans (h.failReceives_nack c.subscription d ⟨0⟩)

theorem failReceives_bury (h : Host) (c : Consumer) (d : Delivery) :
    (bury h c d).broker.failReceives = h.broker.failReceives := by
  have published := h.failReceives_publish c.policy.deadLetterTopic d.payload
  unfold bury
  cases attempt : h.publish c.policy.deadLetterTopic d.payload with
  | mk result k =>
    rw [attempt] at published
    cases result with
    | ok _ =>
      have acked := k.failReceives_ack c.subscription d
      exact ((Host.failReceives_noteError _ _ _).trans acked).trans published
    | error e => exact (failReceives_handBack _ c d).trans published

theorem failReceives_conclude (h : Host) (c : Consumer) (d : Delivery)
    (answer : Except DispatchError Unit) :
    (conclude h c d answer).1.broker.failReceives = h.broker.failReceives := by
  unfold conclude
  cases answer with
  | ok _ => exact (Host.failReceives_noteError _ _ _).trans (h.failReceives_ack c.subscription d)
  | error e =>
    dsimp only
    split
    · rfl
    · exact failReceives_handBack _ c d

/-- A step of a consumer meets failures of receives, and makes none. -/
theorem failReceives_le_of_step? (step : c.step? h = some (l, c')) :
    l.broker.failReceives ≤ h.broker.failReceives := by
  cases turn_of_step? step with
  | stopping _ _ => exact Nat.le_refl _
  | asking _ _ asked =>
    unfold Host.beginReceive Broker.beginReceive at asked
    cases fails : h.broker.failReceives with
    | zero =>
      rw [fails] at asked
      obtain ⟨-, rfl⟩ := Prod.mk.inj asked
      exact Nat.le_of_eq fails
    | succ n =>
      rw [fails] at asked
      cases asked
  | failing _ _ refused =>
    have fewer := failReceives_of_beginReceive refused
    exact Nat.le_of_lt fewer
  | @taking d k _ _ taken =>
    have same := Host.failReceives_take? taken
    unfold begin
    cases c.handler.decode d.payload <;> exact Nat.le_of_eq same
  | ending _ _ _ _ => exact Nat.le_refl _
  | concluding _ _ => exact Nat.le_of_eq (failReceives_conclude _ _ _ _)
  | delaying _ _ => exact Nat.le_refl _
  | burying _ => exact Nat.le_of_eq (failReceives_bury _ _ _)

/-- What others find at their subscriptions: a copy that was made for their topic. -/
theorem Acts.elsewhere (acts : Acts h c l c' deed) {j : Nat} {s : Subscription}
    (other : j ≠ c.subscription) (found : h.broker.subscriptions[j]? = some s) :
    l.broker.subscriptions[j]? = some ((deed.bind Deed.copied?).elim s fun d =>
      s.receive c.policy.deadLetterTopic ⟨h.broker.messages, d.payload, 1⟩) := by
  have kept : ∀ {f : Subscription → Subscription} {k l : Host} {s : Subscription},
      Adjusts c.subscription f k l → k.broker.subscriptions[j]? = some s →
      l.broker.subscriptions[j]? = some s := fun a found => by
    rw [a.touches.getElem? other, found]
  have still : ∀ {k l : Host}, Still k l → k.broker.subscriptions[j]? = some s →
      l.broker.subscriptions[j]? = some s := fun st found => by
    rw [st.subscriptions, found]
  have back : ∀ {k l : Host} {d : Delivery}, HandsBack c.subscription d k l →
      k.broker.subscriptions[j]? = some s → l.broker.subscriptions[j]? = some s :=
    fun back found => back.touches.elim (kept · found) (kept · found)
  cases acts with
  | asked _ st => exact still st found
  | unasked _ st _ => exact still st found
  | finished _ _ a => exact kept a found
  | called _ taken _ st =>
    obtain ⟨f, a⟩ := Host.touches_take? taken
    exact still st (kept a found)
  | refused _ taken _ st =>
    obtain ⟨f, a⟩ := Host.touches_take? taken
    exact still st (kept a found)
  | succeeded _ a => exact kept a found
  | failed _ _ b => exact back b found
  | exhausted _ _ st => exact still st found
  | delayed _ st => exact still st found
  | copied _ puts a => exact kept a (puts.getElem? found)
  | uncopied _ st b => exact back b (still st found)

/-- A consumer that waits for a timer goes on when it is due. -/
theorem exists_step?_of_due {timer : Timer} (waits : c.timer? = some timer) (due : h.isDue timer) :
    ∃ r, c.step? h = some r := by
  unfold timer? at waits
  unfold step?
  cases phase : c.phase with
  | handling d message timer' | publishing d timer' =>
    rw [phase] at waits
    obtain rfl := Option.some.inj waits
    dsimp only
    rw [if_pos due]
    exact ⟨_, rfl⟩
  | _ =>
    rw [phase] at waits
    cases waits

/-- What is held back is held back for others than consumers. -/
theorem Acts.delayed_eq {s s' : Subscription} {history : Nat → List Deed}
    (acts : Acts h c l c' deed)
    (found : h.broker.subscriptions[c.subscription]? = some s) (nothing : s.delayed = [])
    (kept : Kept l c.subscription c' s s' history)
    (length : l.broker.subscriptions.length = h.broker.subscriptions.length) :
    (l.broker.subscriptions.map fun sub => sub.delayed.length) =
      h.broker.subscriptions.map fun sub => sub.delayed.length := by
  refine List.ext_getElem? fun j => ?_
  rw [List.getElem?_map, List.getElem?_map]
  by_cases own : j = c.subscription
  · rw [own, kept.found, found, Option.map_some, Option.map_some, kept.keeps.delayed, nothing]
  · cases there : h.broker.subscriptions[j]? with
    | none =>
      rw [List.getElem?_eq_none_iff] at there
      rw [List.getElem?_eq_none (length ▸ there)]
    | some s₁ =>
      rw [acts.elsewhere own there]
      cases deed.bind Deed.copied? with
      | none => rfl
      | some d =>
        show some (s₁.receive _ _).delayed.length = some s₁.delayed.length
        unfold Subscription.receive Subscription.arrive
        split
        · split <;> rfl
        · rfl

/-- What a message makes a consumer do that it may arrive at. -/
theorem work_receive (topics : List String) {c : Consumer} {s : Subscription} {topic : String}
    {n : Nat} {payload : Payload} (found : h.broker.subscriptions[c.subscription]? = some s)
    (own : s.topic = c.topic)
    (received : l.broker.subscriptions[c.subscription]? = some (s.receive topic ⟨n, payload, 1⟩)) :
    c.work topics l ≤ c.work topics h + arrivalWork topics (some topic) c := by
  rw [work_eq received, work_eq found]
  unfold arrivalWork Subscription.receive
  by_cases same : topic = c.topic
  · rw [if_pos (congrArg some same)]
    split
    · have arrived : (s.arrive ⟨n, payload, 1⟩).work topics c.topic ≤
          s.work topics c.topic + offerWork topics c.topic 1 := s.work_arrive topics c.topic _
      omega
    · omega
  · have unread : ¬(s.attached && s.topic == topic) := by
      rw [own]
      simp [Ne.symm same]
    rw [if_neg unread]
    omega

/-- What a step of one consumer makes another one do. -/
theorem Acts.work_le {topics : List String} (acts : Acts h c l c' deed) {c₁ : Consumer}
    {s : Subscription} (other : c₁.subscription ≠ c.subscription)
    (found : h.broker.subscriptions[c₁.subscription]? = some s) (own : s.topic = c₁.topic) :
    c₁.work topics l ≤ c₁.work topics h + arrivalWork topics
      ((deed.bind Deed.copied?).map fun _ => c.policy.deadLetterTopic) c₁ := by
  have there := acts.elsewhere other found
  cases made : deed.bind Deed.copied? with
  | none =>
    rw [made] at there
    rw [work_eq there, work_eq found]
    exact Nat.le_refl _
  | some d =>
    rw [made] at there
    exact work_receive topics found own there

end Consumer

/-! ## The work of a system -/

/-- Each entry of a list grows by no more than `g` says. -/
theorem sum_map_le {α : Type} {l : List α} {e f g : α → Nat} (each : ∀ x ∈ l, e x ≤ f x + g x) :
    (l.map e).sum ≤ (l.map f).sum + (l.map g).sum := by
  induction l with
  | nil => exact Nat.le_refl 0
  | cons x l ih =>
    obtain ⟨first, each⟩ := List.forall_mem_cons.mp each
    have tail := ih each
    simp only [List.map_cons, List.sum_cons]
    omega

/-- One entry of a list is replaced, and the others grow by no more than `g` says. -/
theorem sum_map_modify_le {α : Type} {l : List α} {i : Nat} {a : α} {φ : α → α} {e f g : α → Nat}
    (found : l[i]? = some a)
    (others : ∀ j x, j ≠ i → l[j]? = some x → e x ≤ f x + g x) :
    ((l.modify i φ).map e).sum + f a ≤ (l.map f).sum + (l.map g).sum + e (φ a) := by
  induction l generalizing i with
  | nil => cases found
  | cons x l ih =>
    cases i with
    | zero =>
      obtain rfl := Option.some.inj found
      have tail := sum_map_le (l := l) fun y mem => by
        obtain ⟨j, there⟩ := List.mem_iff_getElem?.mp mem
        exact others (j + 1) y (Nat.succ_ne_zero j) there
      show e (φ x) + (l.map e).sum + f x ≤
        (f x + (l.map f).sum) + (g x + (l.map g).sum) + e (φ x)
      omega
    | succ i =>
      have first := others 0 x (Nat.succ_ne_zero i).symm rfl
      have tail := ih found fun j y other there =>
        others (j + 1) y (fun same => other (Nat.succ.inj same)) there
      show e x + ((l.modify i φ).map e).sum + f a ≤
        (f x + (l.map f).sum) + (g x + (l.map g).sum) + e (φ a)
      omega

namespace System

/-- The topics that are read. -/
def topics (s : System) : List String := s.consumers.map Consumer.topic

/-- A bound on the steps that are still to be made: receives that fail, offers that are held back,
and the work of all consumers. -/
def work (s : System) : Nat :=
  s.host.broker.failReceives +
    (s.host.broker.subscriptions.map fun sub => sub.delayed.length).sum +
    (s.consumers.map (Consumer.work s.topics s.host)).sum

end System

namespace Script

variable {ts us : List Transition} {x y z w : Session} {a : Action} {t : System} {u : Transition}
  {i k m : Nat} {c : Consumer}

/-- Nothing but consumers makes progress, and each has the default policy for its topic. -/
structure Session.OnlyConsumers (x : Session) : Prop where
  publishers : x.system.publishers = []
  correlators : x.system.correlators = []
  calls : ∀ c ∈ x.system.calls, c.isRunning = false
  policy : ∀ c ∈ x.system.consumers, c.policy = .ofTopic c.topic

/-- No agent can make a step, and none waits for a timer. -/
def Session.AtRest (x : Session) : Prop :=
  ∀ agent : Agent, agent.step? x.system = none ∧ agent.timer? x.system = none

/-- The system goes on by itself: an agent makes a step, or time passes. -/
def Action.IsProgress : Action → Prop
  | .agent _ | .tick _ => True
  | _ => False

/-- What progress there is where nothing but consumers makes any: time passes, a consumer makes a
step, or an offer that was held back is made. -/
inductive Session.GoesOn (x : Session) : Action → Session → Prop where
  | passes (moment : Nat) : GoesOn x (.tick moment) (x.onSystem (·.atMoment moment))
  | consumes {k : Nat} {t : System} : (Agent.consumer k).step? x.system = some t →
      GoesOn x (.agent (.consumer k)) { x with system := t }
  | offers {i serial : Nat} {t : System} : (Agent.redelivery i serial).step? x.system = some t →
      GoesOn x (.agent (.redelivery i serial)) { x with system := t }

theorem Session.GoesOn.topics_eq (goes : x.GoesOn a y) : y.system.topics = x.system.topics := by
  cases goes with
  | passes moment => rfl
  | consumes step =>
    obtain ⟨c, host, c', known, stepped, rfl⟩ := Agent.step?_consumer step
    obtain ⟨topic, -, -, -⟩ := (Consumer.acts_of_step? stepped).same
    exact map_modify_of_getElem? known topic
  | offers step =>
    obtain ⟨entry, -, -, rfl⟩ := Agent.step?_redelivery step
    rfl

namespace Session.OnlyConsumers

/-- The courses of the messages of a consumer with the default policy. -/
theorem courses (only : x.OnlyConsumers) (run : Runs ts x)
    (known : x.system.consumers[k]? = some c) :
    ∃ s, x.system.host.broker.subscriptions[c.subscription]? = some s ∧
      Courses ts x.system.host.broker.messages k c s := by
  obtain ⟨-, s, found⟩ := run.apart.subscription known
  have policy := only.policy c (List.mem_of_getElem? known)
  have positive : 1 ≤ c.policy.maxDeliveries := by
    rw [policy]
    show 1 ≤ 3
    decide
  have elsewhere : c.policy.deadLetterTopic ≠ c.topic := by
    rw [policy]
    exact Topic.deadLetter_ne c.topic
  exact ⟨s, found, run.courses (Session.inbox?_eq_some.mpr ⟨known, found⟩) positive elsewhere⟩

theorem keeps (only : x.OnlyConsumers) (run : Runs ts x) (known : x.system.consumers[k]? = some c) :
    ∃ s, x.system.host.broker.subscriptions[c.subscription]? = some s ∧
      Consumer.Keeps c s (course ts k) := by
  obtain ⟨s, found, book⟩ := only.courses run known
  exact ⟨s, found, book.toKeeps⟩

theorem elsewhere (only : x.OnlyConsumers) (known : x.system.consumers[k]? = some c) :
    c.policy.deadLetterTopic = Topic.deadLetter c.topic := by
  rw [only.policy c (List.mem_of_getElem? known)]
  rfl

/-- Every step of a consumer makes the work less. -/
theorem work_consumer (only : x.OnlyConsumers) (run : Runs ts x)
    (step : (Agent.consumer k).step? x.system = some t) : t.work < x.system.work := by
  have length := (Agent.host_step step).length_eq
  obtain ⟨c, host, c', known, stepped, rfl⟩ := Agent.step?_consumer step
  have acts := Consumer.acts_of_step? stepped
  obtain ⟨s, found, keeps⟩ := only.keeps run known
  have policy := only.policy c (List.mem_of_getElem? known)
  have away := only.elsewhere known
  obtain ⟨topic, -, -, -⟩ := acts.same
  obtain ⟨s', kept⟩ := acts.kept keeps found (away ▸ Topic.deadLetter_ne c.topic)
  have delayed := acts.delayed_eq found keeps.delayed kept length
  have topics : (x.system.consumers.modify k fun _ => c').map Consumer.topic =
      x.system.topics := map_modify_of_getElem? known topic
  have own : _ < c.work x.system.topics x.system.host + _ :=
    acts.work_lt keeps found policy (Consumer.failReceives_le_of_step? stepped)
  have others : ∀ j c₁, j ≠ k → x.system.consumers[j]? = some c₁ →
      c₁.work x.system.topics host ≤ c₁.work x.system.topics x.system.host +
        arrivalWork x.system.topics (((Consumer.deed? x.system.host c host).bind Deed.copied?).map
          fun _ => c.policy.deadLetterTopic) c₁ := by
    intro j c₁ apart known₁
    obtain ⟨s₁, found₁, keeps₁⟩ := only.keeps run known₁
    refine acts.work_le (fun same => apart ?_) found₁ keeps₁.topic
    have receives : (Agent.consumer j).receives? x.system = some c.subscription :=
      (congrArg (Option.map Consumer.subscription) known₁).trans (congrArg some same)
    have mine : (Agent.consumer k).receives? x.system = some c.subscription :=
      congrArg (Option.map Consumer.subscription) known
    exact Agent.consumer.inj (run.apart.eq_of_receives receives mine)
  have sums := sum_map_modify_le (φ := fun _ => c') known others
  unfold System.topics at *
  rw [sum_arrivalWork] at sums
  unfold System.work System.topics
  show host.broker.failReceives + (host.broker.subscriptions.map _).sum +
    ((x.system.consumers.modify k fun _ => c').map (Consumer.work
      ((x.system.consumers.modify k fun _ => c').map Consumer.topic) host)).sum < _
  rw [topics, delayed]
  omega

/-- An offer that is held back is made, to somebody who is no consumer. -/
theorem work_redelivery (only : x.OnlyConsumers) (run : Runs ts x) {serial : Nat}
    (step : (Agent.redelivery i serial).step? x.system = some t) : t.work < x.system.work := by
  obtain ⟨entry, held, -, rfl⟩ := Agent.step?_redelivery step
  obtain ⟨s, found, there⟩ := Option.bind_eq_some_iff.mp held
  have mem : entry ∈ s.delayed := List.mem_of_find?_eq_some there
  have shorter : (s.offerDelayed entry).delayed.length + 1 = s.delayed.length := by
    unfold Subscription.offerDelayed Subscription.arrive
    have erased := List.length_erase_add_one mem
    split <;> exact erased
  have sums := sum_map_modify_le (φ := fun s => s.offerDelayed entry)
    (e := fun sub => sub.delayed.length) (f := fun sub => sub.delayed.length) (g := fun _ => 0)
    found fun _ _ _ _ => Nat.le_refl _
  have same : x.system.consumers.map (Consumer.work x.system.topics
        (x.system.setBroker (x.system.host.broker.offerDelayed i entry)).host) =
      x.system.consumers.map (Consumer.work x.system.topics x.system.host) := by
    refine List.map_congr_left fun c mem' => ?_
    obtain ⟨k, known⟩ := List.mem_iff_getElem?.mp mem'
    obtain ⟨s₁, found₁, keeps⟩ := only.keeps run known
    have other : i ≠ c.subscription := fun same => by
      subst same
      obtain rfl := Option.some.inj (found.symm.trans found₁)
      rw [keeps.delayed] at mem
      cases mem
    unfold Consumer.work
    congr 2
    show (x.system.host.broker.subscriptions.modify i _)[c.subscription]? = _
    rw [List.getElem?_modify_ne _ _ other]
  have none : (x.system.host.broker.subscriptions.map fun _ => 0).sum = 0 := by simp
  rw [none] at sums
  show x.system.host.broker.failReceives +
      ((x.system.host.broker.subscriptions.modify i fun s => s.offerDelayed entry).map _).sum +
      (x.system.consumers.map (Consumer.work x.system.topics
        (x.system.setBroker (x.system.host.broker.offerDelayed i entry)).host)).sum < _
  rw [same]
  unfold System.work
  omega

/-- No call is at a point where it could do something or wait for something. -/
theorem phase_cases (only : x.OnlyConsumers) (n : Nat) :
    (x.system.calls[n]?).map Call.phase = none ∨
      (∃ moment result, (x.system.calls[n]?).map Call.phase = some (.ended moment result)) ∨
      (x.system.calls[n]?).map Call.phase = some .aborted := by
  cases found : x.system.calls[n]? with
  | none => exact .inl rfl
  | some call =>
    have ended := only.calls call (List.mem_of_getElem? found)
    unfold Call.isRunning at ended
    rw [Option.map_some]
    cases phase : call.phase with
    | ended moment result => exact .inr (.inl ⟨moment, result, rfl⟩)
    | aborted => exact .inr (.inr rfl)
    | _ =>
      rw [phase] at ended
      cases ended

theorem stepCall? (only : x.OnlyConsumers) (n : Nat) : x.system.stepCall? n = none := by
  unfold System.stepCall?
  rcases only.phase_cases n with none | ⟨moment, result, ended⟩ | aborted
  · rw [none]
  · rw [ended]
  · rw [aborted]

theorem callTimer? (only : x.OnlyConsumers) (n : Nat) : x.system.callTimer? n = none := by
  unfold System.callTimer?
  rcases only.phase_cases n with none | ⟨moment, result, ended⟩ | aborted
  · rw [none]
  · rw [ended]
  · rw [aborted]

theorem goesOn (only : x.OnlyConsumers) (progress : a.IsProgress) (happens : x.after? a = some y) :
    x.GoesOn a y := by
  cases a with
  | tick moment =>
    rw [Session.after?_tick happens]
    exact .passes moment
  | agent agent =>
    obtain ⟨t, step, rfl⟩ := Option.map_eq_some_iff.mp happens
    cases agent with
    | consumer k => exact .consumes step
    | redelivery i serial => exact .offers step
    | worker i =>
      obtain ⟨p, -, -, -, -, known, -⟩ := Agent.step?_worker step
      rw [only.publishers] at known
      cases known
    | listener i =>
      obtain ⟨co, -, -, known, -⟩ := Agent.step?_listener step
      rw [only.correlators] at known
      cases known
    | call n =>
      have step : x.system.stepCall? n = some t := step
      rw [only.stepCall? n] at step
      cases step
  | _ => cases progress

/-- Nothing else comes to make progress. -/
theorem next (only : x.OnlyConsumers) (goes : x.GoesOn a y) : y.OnlyConsumers := by
  cases goes with
  | passes moment => exact ⟨only.publishers, only.correlators, only.calls, only.policy⟩
  | consumes step =>
    obtain ⟨c, host, c', known, stepped, rfl⟩ := Agent.step?_consumer step
    obtain ⟨topic, policy, -, -⟩ := (Consumer.acts_of_step? stepped).same
    refine ⟨only.publishers, only.correlators, only.calls, fun c₁ mem => ?_⟩
    obtain ⟨j, there⟩ := List.mem_iff_getElem?.mp mem
    have there : (x.system.consumers.modify _ fun _ => c')[j]? = some c₁ := there
    rw [List.getElem?_modify] at there
    obtain ⟨c₂, known₂, rfl⟩ := Option.map_eq_some_iff.mp there
    split
    · rw [policy, topic]
      exact only.policy c (List.mem_of_getElem? known)
    · exact only.policy c₂ (List.mem_of_getElem? known₂)
  | offers step =>
    obtain ⟨entry, -, -, rfl⟩ := Agent.step?_redelivery step
    exact ⟨only.publishers, only.correlators, only.calls, only.policy⟩

theorem work_next (only : x.OnlyConsumers) (run : Runs ts x) (goes : x.GoesOn a y) :
    (if a.agent?.isSome then 1 else 0) + y.system.work ≤ x.system.work := by
  cases goes with
  | passes moment => exact Nat.le_of_eq (Nat.zero_add _)
  | @consumes k t step =>
    have less : t.work < x.system.work := only.work_consumer run step
    show 1 + t.work ≤ x.system.work
    omega
  | @offers i serial t step =>
    have less : t.work < x.system.work := only.work_redelivery run step
    show 1 + t.work ≤ x.system.work
    omega

end Session.OnlyConsumers

/-! ## Messages and faults from outside -/

/-- A message or a fault is injected. -/
def Action.IsInput : Action → Prop
  | .perform (.inject _ _) | .perform (.failPublishes _) | .perform (.failReceives _)
  | .perform (.setFaults _) => True
  | _ => False

/-- What an injection adds to the work at consumers of these topics. -/
def Action.cost (topics : List String) : Action → Nat
  | .perform (.inject topic _) => messageWork topics topic
  | .perform (.failReceives count) => count
  | _ => 0

namespace Session.OnlyConsumers

theorem work_inject (only : x.OnlyConsumers) (run : Runs ts x) (topic : String)
    (payload : Payload) :
    (x.onBroker fun b => b.fanOut topic payload).system.work ≤
      x.system.work + messageWork x.system.topics topic := by
  have delayed : ((x.system.host.broker.fanOut topic payload).subscriptions.map
      fun sub => sub.delayed.length) =
        x.system.host.broker.subscriptions.map fun sub => sub.delayed.length := by
    unfold Broker.fanOut
    rw [List.map_map]
    refine List.map_congr_left fun s _ => ?_
    show (if _ then s.arrive _ else s).delayed.length = _
    unfold Subscription.arrive
    split
    · split <;> rfl
    · rfl
  have each : ∀ c ∈ x.system.consumers,
      c.work x.system.topics (x.onBroker fun b => b.fanOut topic payload).system.host ≤
        c.work x.system.topics x.system.host + arrivalWork x.system.topics (some topic) c := by
    intro c mem
    obtain ⟨k, known⟩ := List.mem_iff_getElem?.mp mem
    obtain ⟨s, found, keeps⟩ := only.keeps run known
    have received : (x.system.host.broker.fanOut topic payload).subscriptions[c.subscription]? =
        some (s.receive topic ⟨x.system.host.broker.messages, payload, 1⟩) := by
      unfold Broker.fanOut
      rw [List.getElem?_map, found]
      rfl
    exact Consumer.work_receive x.system.topics found keeps.topic received
  have sums := sum_map_le each
  have arrivals := sum_arrivalWork x.system.consumers (some topic)
  rw [Option.elim_some] at arrivals
  unfold System.work System.topics at *
  show x.system.host.broker.failReceives +
      ((x.system.host.broker.fanOut topic payload).subscriptions.map _).sum +
      (x.system.consumers.map (Consumer.work (x.system.consumers.map Consumer.topic)
        (x.onBroker fun b => b.fanOut topic payload).system.host)).sum ≤ _
  rw [delayed]
  omega

/-- What is injected adds to the work what it costs. -/
theorem input_next (only : x.OnlyConsumers) (run : Runs ts x) (input : a.IsInput)
    (happens : x.after? a = some y) :
    y.OnlyConsumers ∧ y.system.topics = x.system.topics ∧ a.agent? = none ∧
      y.system.work ≤ x.system.work + a.cost x.system.topics := by
  have kept : ∀ host : Host, (x.onHost fun _ => host).OnlyConsumers := fun host =>
    ⟨only.publishers, only.correlators, only.calls, only.policy⟩
  cases a with
  | perform step =>
    unfold Session.after? at happens
    dsimp only at happens
    cases step with
    | inject topic payload =>
      obtain rfl := Option.some.inj happens
      exact ⟨kept _, rfl, rfl, only.work_inject run topic payload⟩
    | failReceives count =>
      obtain rfl := Option.some.inj happens
      refine ⟨kept _, rfl, rfl, ?_⟩
      show count + (x.system.host.broker.subscriptions.map fun sub => sub.delayed.length).sum +
          (x.system.consumers.map (Consumer.work x.system.topics x.system.host)).sum ≤
        x.system.work + count
      unfold System.work
      omega
    | failPublishes count | setFaults faults =>
      obtain rfl := Option.some.inj happens
      exact ⟨kept _, rfl, rfl, Nat.le_refl _⟩
    | _ => cases input
  | _ => cases input

end Session.OnlyConsumers

/-- The steps that agents make in a run. -/
def agentSteps (ts : List Transition) : Nat := ts.countP fun t => t.action.agent?.isSome

/-- The steps that follow are no more than the work that was left and the work that was added. -/
theorem Runs.agentSteps_le (only : z.OnlyConsumers) (before : Runs ts z) (run : Runs (us ++ ts) w)
    (goes : ∀ u ∈ us, u.action.IsProgress ∨ u.action.IsInput) :
    w.OnlyConsumers ∧ w.system.topics = z.system.topics ∧
      agentSteps us + w.system.work ≤
        z.system.work + (us.map fun u => u.action.cost z.system.topics).sum := by
  induction us generalizing w with
  | nil =>
    obtain rfl := run.unique before
    exact ⟨only, rfl, Nat.le_of_eq (Nat.zero_add _)⟩
  | cons u us ih =>
    obtain ⟨first, rest⟩ := List.forall_mem_cons.mp goes
    cases run with
    | @next _ x _ a run happens =>
      obtain ⟨only, topics, bound⟩ := ih run rest
      have step : w.OnlyConsumers ∧ w.system.topics = x.system.topics ∧
          (if a.agent?.isSome then 1 else 0) + w.system.work ≤
            x.system.work + a.cost x.system.topics := by
        rcases first with progress | input
        · have goes := only.goesOn progress happens
          have less := only.work_next run goes
          exact ⟨only.next goes, goes.topics_eq, Nat.le_trans less (Nat.le_add_right _ _)⟩
        · obtain ⟨only', same, idle, less⟩ := only.input_next run input happens
          have idle : a.agent? = none := idle
          rw [idle]
          exact ⟨only', same, Nat.le_trans (Nat.le_of_eq (Nat.zero_add _)) less⟩
      obtain ⟨only', same, less⟩ := step
      rw [topics] at less
      refine ⟨only', same.trans topics, ?_⟩
      unfold agentSteps at bound ⊢
      rw [List.countP_cons, List.map_cons, List.sum_cons]
      show us.countP _ + (if a.agent?.isSome then 1 else 0) + w.system.work ≤
        z.system.work + (a.cost z.system.topics + (us.map _).sum)
      omega

/-- Whoever waits for a timer goes on when it is due. -/
theorem exists_step?_of_timer? (only : x.OnlyConsumers) {agent : Agent} {timer : Timer}
    (waits : agent.timer? x.system = some timer) {moment : Nat} (due : timer.due ≤ moment) :
    ∃ t, agent.step? (x.system.atMoment moment) = some t := by
  have isDue : (x.system.atMoment moment).host.isDue timer := decide_eq_true due
  cases agent with
  | worker i =>
    obtain ⟨p, known, -⟩ := Option.bind_eq_some_iff.mp waits
    rw [only.publishers] at known
    cases known
  | listener i =>
    obtain ⟨co, known, -⟩ := Option.bind_eq_some_iff.mp waits
    rw [only.correlators] at known
    cases known
  | call n =>
    have waits : x.system.callTimer? n = some timer := waits
    rw [only.callTimer? n] at waits
    cases waits
  | consumer k =>
    obtain ⟨c, known, waits⟩ := Option.bind_eq_some_iff.mp waits
    obtain ⟨r, step⟩ := Consumer.exists_step?_of_due waits isDue
    have known : (x.system.atMoment moment).consumers[k]? = some c := known
    unfold Agent.step?
    dsimp only
    rw [known, Option.bind_eq_bind, Option.bind_some, step]
    exact ⟨_, rfl⟩
  | redelivery i serial =>
    obtain ⟨entry, held, rfl⟩ := Option.map_eq_some_iff.mp waits
    have held : (x.system.atMoment moment).host.broker.delayed? i serial = some entry := held
    unfold Agent.step?
    dsimp only
    rw [held, Option.bind_eq_bind, Option.bind_some, if_pos isDue]
    exact ⟨_, rfl⟩

/-- As long as something is left to do, the system goes on by itself. -/
theorem exists_progress (only : x.OnlyConsumers) (run : Runs ts x) (busy : ¬x.AtRest) :
    ∃ us w, Runs (us ++ ts) w ∧ (∀ u ∈ us, u.action.IsProgress) ∧ 0 < agentSteps us := by
  have enabled : ∀ (us : List Transition) {y : Session} {agent : Agent} {t : System},
      Runs (us ++ ts) y → (∀ u ∈ us, u.action.IsProgress) → agent.step? y.system = some t →
      ∃ us w, Runs (us ++ ts) w ∧ (∀ u ∈ us, u.action.IsProgress) ∧ 0 < agentSteps us := by
    intro us y agent t run progress step
    have happens : y.after? (.agent agent) = some { y with system := t } :=
      Option.map_eq_some_iff.mpr ⟨t, step, rfl⟩
    refine ⟨⟨y, .agent agent, { y with system := t }⟩ :: us, _, .next run happens,
      List.forall_mem_cons.mpr ⟨trivial, progress⟩, ?_⟩
    unfold agentSteps
    rw [List.countP_cons_of_pos rfl]
    exact Nat.succ_pos _
  unfold Session.AtRest at busy
  push Not at busy
  obtain ⟨agent, busy⟩ := busy
  cases step : agent.step? x.system with
  | some t => exact enabled [] run (by simp) step
  | none =>
    -- nobody can make a step before the timer is due
    obtain ⟨timer, waits⟩ := Option.ne_none_iff_exists'.mp (busy step)
    let moment := max x.system.host.now timer.due
    have happens : x.after? (.tick moment) = some (x.onSystem (·.atMoment moment)) :=
      if_pos (Nat.le_max_left _ _)
    obtain ⟨t, later⟩ := exists_step?_of_timer? only waits (Nat.le_max_right x.system.host.now _)
    exact enabled [_] (.next run happens) (by simp [Action.IsProgress]) later

/-- What goes on by itself costs nothing. -/
theorem sum_cost_of_progress (topics : List String)
    (progress : ∀ u ∈ us, u.action.IsProgress) :
    (us.map fun u => u.action.cost topics).sum = 0 := by
  induction us with
  | nil => rfl
  | cons u us ih =>
    obtain ⟨first, rest⟩ := List.forall_mem_cons.mp progress
    rw [List.map_cons, List.sum_cons, ih rest]
    cases action : u.action with
    | agent _ | tick _ => rfl
    | _ =>
      rw [action] at first
      cases first

/-- From wherever it has got to, the system comes to rest. -/
theorem exists_rest (only : x.OnlyConsumers) (run : Runs ts x) :
    ∃ us w, Runs (us ++ ts) w ∧ (∀ u ∈ us, u.action.IsProgress) ∧ w.AtRest := by
  induction n : x.system.work using Nat.strong_induction_on generalizing ts x with
  | _ n ih =>
    by_cases rest : x.AtRest
    · exact ⟨[], x, run, by simp, rest⟩
    · obtain ⟨us, y, onward, progress, steps⟩ := exists_progress only run rest
      obtain ⟨only', -, less⟩ := run.agentSteps_le only onward fun u mem => .inl (progress u mem)
      have free : (us.map fun u => u.action.cost x.system.topics).sum = 0 :=
        sum_cost_of_progress _ progress
      obtain ⟨vs, w, further, progress', rest⟩ := ih y.system.work (by omega) only' onward rfl
      refine ⟨vs ++ us, w, ?_, fun u mem => ?_, rest⟩
      · rw [List.append_assoc]
        exact further
      · exact (List.mem_append.mp mem).elim (progress' u) (progress u)

/-- What a consumer has taken it has to do with. -/
theorem takings_eq (ts : List Transition) (k : Nat) :
    takings ts (.consumer k) = (deeds ts k).filterMap Deed.taken? := by
  have each : ∀ t : Transition, t.taken? (.consumer k) = (t.deed? k).bind Deed.taken? := by
    intro t
    unfold Transition.taken? Transition.deed? System.taking?
    split
    · dsimp only
      cases t.before.system.consumers[k]? with
      | none => rfl
      | some c => exact (Consumer.taken?_deed? _ c _).symm
    · rfl
  unfold takings deeds
  rw [List.filterMap_filterMap]
  exact congrArg (List.filterMap · ts) (funext each)

/-- What consumer `k` has taken of one message. -/
theorem filter_takings (ts : List Transition) (k m : Nat) :
    (takings ts (.consumer k)).filter (·.message = m) =
      (course ts k m).filterMap Deed.taken? := by
  unfold course
  rw [takings_eq, List.filter_filterMap, List.filterMap_filter]
  refine congrArg (List.filterMap · _) (funext fun e => ?_)
  cases e with
  | called d | refused d =>
    show Option.filter _ (some d) = if (d.message == m) = true then some d else none
    rw [Option.filter_some]
    by_cases own : d.message = m <;> simp [own]
  | _ =>
    show none = if _ then none else none
    split <;> rfl

/-- What a message comes to at one consumer: three deliveries at most, and one message at most, on
a topic that is longer. -/
structure Limited (ts : List Transition) (k : Nat) (c : Consumer) (m : Nat) : Prop where
  deliveries : ((takings ts (.consumer k)).filter (·.message = m)).length ≤ 3
  copies : (copies ts k m).length ≤ 1
  published : ∀ u ∈ ts, u.action = .agent (.consumer k) →
    u.after.system.host.broker.published = u.before.system.host.broker.published ++
      ((u.deed? k).bind Deed.copied?).toList.map fun d => (c.policy.deadLetterTopic, d.payload)
  longer : c.topic.length < c.policy.deadLetterTopic.length

/-- However the system goes on, and whatever is injected, the steps that are made are bounded by the
work that was left and the work that was added; it can always come to rest, and every message is
limited at every consumer. -/
theorem dead_letter_chains_end (run : Runs ts z) (only : z.OnlyConsumers)
    (onward : Runs (us ++ ts) w)
    (goes : ∀ u ∈ us, u.action.IsProgress ∨ u.action.IsInput) :
    agentSteps us ≤ z.system.work + (us.map fun u => u.action.cost z.system.topics).sum ∧
    (∃ vs v, Runs (vs ++ (us ++ ts)) v ∧ (∀ u ∈ vs, u.action.IsProgress) ∧ v.AtRest ∧
      v.system.isQuiescent) ∧
    ∀ k c, w.system.consumers[k]? = some c → ∀ m, Limited (us ++ ts) k c m := by
  obtain ⟨only', -, bound⟩ := run.agentSteps_le only onward goes
  refine ⟨Nat.le_trans (Nat.le_add_right _ _) bound, ?_, fun k c known m => ?_⟩
  · obtain ⟨vs, v, further, progress', rest⟩ := exists_rest only' onward
    refine ⟨vs, v, further, progress', rest, ?_⟩
    unfold System.isQuiescent System.canStep
    rw [List.all_eq_true]
    intro agent _
    rw [(rest agent).1]
    rfl
  · have policy := only'.policy c (List.mem_of_getElem? known)
    have away := only'.elsewhere known
    have maximum : c.policy.maxDeliveries = 3 := by rw [policy]; rfl
    obtain ⟨s, -, book⟩ := only'.courses onward known
    refine ⟨?_, (book.courses m).copied_le, book.logged, ?_⟩
    · rw [filter_takings, ← maximum]
      exact (book.courses m).taken_le
    · rw [away, Topic.length_deadLetter]
      omega

/-- One consumer reads the dead-letter topic of another, and both fail on every message; the latest
action first. -/
def chained : List Action :=
  [.serve "l" "jobs-dlq" "auditor" ⟨3, "jobs-dlq-dlq"⟩ failing,
   .serve "k" "jobs" "monitor" ⟨3, "jobs-dlq"⟩ failing]

set_option maxRecDepth 100000 in
theorem chained_dead_letters_end :
    (play chained).2.OnlyConsumers ∧
      (∃ us, us.map Transition.action =
        [Action.agent (.consumer 0), Action.perform (.inject "jobs" [7])] ∧
        agentSteps us = 1 ∧
        agentSteps us ≤ (play chained).2.system.work +
          (us.map fun u => u.action.cost (play chained).2.system.topics).sum ∧
        ∃ vs v, Runs (vs ++ (us ++ (play chained).1)) v ∧ (∀ u ∈ vs, u.action.IsProgress) ∧
          v.AtRest ∧ v.system.isQuiescent) := by
  have only : (play chained).2.OnlyConsumers := by
    refine ⟨rfl, rfl, fun c mem => (nomatch mem), fun c mem => ?_⟩
    have two : (play chained).2.system.consumers =
      [{ topic := "jobs", policy := ⟨3, "jobs-dlq"⟩, handler := failing, subscription := 0 },
       { topic := "jobs-dlq", policy := ⟨3, "jobs-dlq-dlq"⟩, handler := failing,
         subscription := 1 }] := by rfl
    rw [two] at mem
    rcases List.mem_cons.mp mem with rfl | mem
    · show (⟨3, "jobs-dlq"⟩ : DeadLetterPolicy) = .ofTopic "jobs"
      decide
    · obtain rfl := List.mem_singleton.mp mem
      show (⟨3, "jobs-dlq-dlq"⟩ : DeadLetterPolicy) = .ofTopic "jobs-dlq"
      decide
  let injection : Action := .perform (.inject "jobs" [7])
  let us := [happening (.agent (.consumer 0)) (injection :: chained), happening injection chained]
  have onward : Runs (us ++ (play chained).1)
      (play (.agent (.consumer 0) :: injection :: chained)).2 :=
    play_runs (.agent (.consumer 0) :: injection :: chained)
  have goes : ∀ u ∈ us, u.action.IsProgress ∨ u.action.IsInput := by
    intro u mem
    rcases List.mem_cons.mp mem with rfl | mem
    · exact .inl trivial
    · obtain rfl := List.mem_singleton.mp mem
      exact .inr trivial
  obtain ⟨bounded, rest, -⟩ := dead_letter_chains_end (play_runs chained) only onward goes
  exact ⟨only, us, rfl, rfl, bounded, rest⟩

end Script

end ChangeDispatch
