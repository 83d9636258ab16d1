import ChangeDispatch.Proofs.Garbage.Lifecycle
import ChangeDispatch.Proofs.Broker.Receivers

/-!
# Steps in sessions that match

Two sessions match if their systems do and the caller holds the same deliveries under the same
names. Every step has the same reply in both, but for the number of a message. The topic of the
garbage belongs to listeners: no consumer receives from it, and the caller does not either.
-/
namespace ChangeDispatch

open List (Forall₂)

variable {T : String} {P Q : Nat → Nat → Prop}

/-! ## Names of deliveries -/

theorem Delivery.Matches.blurred_eq {d d' : Delivery} (h : d.Matches P d') :
    { d' with message := 0 } = { d with message := 0 } := by
  obtain ⟨message, payload, number⟩ := d
  obtain ⟨message', payload', number'⟩ := d'
  obtain rfl : payload' = payload := h.payload
  obtain rfl : number' = number := h.number
  rfl

namespace Script

/-- The same name for two deliveries that match, from the same subscription. -/
structure Holds (P : Nat → Nat → Prop) (e e' : String × Nat × Delivery) : Prop where
  name : e'.1 = e.1
  subscription : e'.2.1 = e.2.1
  delivery : e.2.2.Matches P e'.2.2

theorem Holds.mono {e e' : String × Nat × Delivery} (sub : P ≤ Q) (h : Holds P e e') :
    Holds Q e e' :=
  { h with delivery := h.delivery.mono sub }

theorem Holds.symm {e e' : String × Nat × Delivery} (h : Holds P e e') : Holds (flip P) e' e :=
  ⟨h.name.symm, h.subscription.symm, h.delivery.symm⟩

namespace Names

variable {names names' : Names (Nat × Delivery)}

theorem rel_find? (h : Forall₂ (Holds P) names names') (id : String) :
    Option.Rel (fun p p' => p'.1 = p.1 ∧ p.2.Matches P p'.2) (names.find? id)
      (names'.find? id) := by
  induction h with
  | nil => exact .none
  | @cons e e' _ _ first _ ih =>
    obtain ⟨name, i, d⟩ := e
    obtain ⟨name', i', d'⟩ := e'
    obtain rfl : name' = name := first.name
    unfold Names.find? at ih ⊢
    rw [List.lookup_cons, List.lookup_cons]
    split
    · exact .some ⟨first.subscription, first.delivery⟩
    · exact ih

theorem erase_holds (h : Forall₂ (Holds P) names names') (id : String) :
    Forall₂ (Holds P) (names.erase id) (names'.erase id) := by
  refine List.rel_filter (fun e e' same => ?_) h
  change (e.1 != id) = true ↔ (e'.1 != id) = true
  rw [same.name]

theorem insert_holds (h : Forall₂ (Holds P) names names') (id : String) (i : Nat)
    {d d' : Delivery} (hd : d.Matches P d') :
    Forall₂ (Holds P) (names.insert id (i, d)) (names'.insert id (i, d')) :=
  .cons ⟨rfl, rfl, hd⟩ (erase_holds h id)

end Names

/-! ## Sessions -/

/-- The reply without the number of the message in it. -/
def Reply.blurred : Reply → Reply
  | .delivered d => .delivered { d with message := 0 }
  | reply => reply

namespace Session

/-- Two sessions that differ in garbage, and in the numbers of their messages. -/
inductive Matches (T : String) (P : Nat → Nat → Prop) (x : Session) : Session → Prop where
  | intro {system : System} {deliveries : Names (Nat × Delivery)} {reported : Nat} :
      x.system.Matches T P system → Forall₂ (Holds P) x.deliveries deliveries →
      Matches T P x { x with system, deliveries, reported }

/-- The sessions match, perhaps with more messages. -/
def Follows (T : String) (P : Nat → Nat → Prop) (x x' : Session) : Prop :=
  ∃ Q, P ≤ Q ∧ x.Matches T Q x'

/-- Neither a consumer nor the caller receives on the topic. -/
structure Avoids (T : String) (x : Session) : Prop where
  consumers : ∀ k ∈ x.system.consumers, ∀ s,
    x.system.host.broker.subscriptions[k.subscription]? = some s → s.topic ≠ T
  caller : ∀ id i, x.subscriptions.find? id = some i → ∀ s,
    x.system.host.broker.subscriptions[i]? = some s → s.topic ≠ T

/-- The same reply, but for the number of a message, and sessions that match. -/
structure Answers (T : String) (P : Nat → Nat → Prop) (out out' : Reply × Session) : Prop where
  reply : out'.1.blurred = out.1.blurred
  session : out.2.Follows T P out'.2

theorem Matches.follows {x x' : Session} (m : x.Matches T P x') : Follows T P x x' :=
  ⟨P, le_refl P, m⟩

theorem answers_of_agree {out out' : Reply × Session}
    (same : Agree (Session.Matches T P) out out') : Answers T P out out' :=
  ⟨congrArg Reply.blurred same.answer, same.state.follows⟩

namespace Matches

variable {x x' : Session}

theorem system (m : x.Matches T P x') : x.system.Matches T P x'.system := by
  cases m
  assumption

theorem symm (m : x.Matches T P x') : x'.Matches T (flip P) x := by
  cases m with
  | intro ms hd => exact .intro ms.symm (hd.imp fun _ _ => Holds.symm).flip

theorem withSystem (m : x.Matches T P x') {s s' : System} (sub : P ≤ Q) (ms : s.Matches T Q s') :
    Session.Matches T Q { x with system := s } { x' with system := s' } := by
  cases m with
  | intro _ hd => exact .intro ms (hd.imp fun _ _ => .mono sub)

theorem onSystem (m : x.Matches T P x') {f g : System → System}
    (ms : (f x.system).Matches T P (g x'.system)) :
    (x.onSystem f).Matches T P (x'.onSystem g) :=
  m.withSystem (le_refl P) ms

theorem onHost (m : x.Matches T P x') {f g : Host → Host}
    (hh : (f x.system.host).Matches T P (g x'.system.host)) :
    (x.onHost f).Matches T P (x'.onHost g) :=
  m.withSystem (le_refl P) (m.system.onHost hh)

/-- What has to do with names only is done to both. -/
theorem map (m : x.Matches T P x') {g : Session → Session}
    (apart : ∀ (y : Session) (system : System) (deliveries : Names (Nat × Delivery))
      (reported : Nat), g { y with system, deliveries, reported } =
        { g y with system, deliveries, reported }) : (g x).Matches T P (g x') := by
  have kept := apart x x.system x.deliveries x.reported
  have system := congrArg Session.system kept
  have deliveries := congrArg Session.deliveries kept
  have system_eq : (g x).system = x.system := system
  have deliveries_eq : (g x).deliveries = x.deliveries := deliveries
  cases m with
  | @intro system deliveries reported ms hd =>
    rw [apart x system deliveries reported]
    exact .intro (system_eq.symm ▸ ms) (deliveries_eq.symm ▸ hd)

theorem insertDelivery (m : x.Matches T P x') (id : String) (i : Nat) {d d' : Delivery}
    (hd : d.Matches P d') :
    Session.Matches T P { x with deliveries := x.deliveries.insert id (i, d) }
      { x' with deliveries := x'.deliveries.insert id (i, d') } := by
  cases m with
  | intro ms held => exact .intro ms (Names.insert_holds held id i hd)

theorem eraseDelivery (m : x.Matches T P x') (id : String) :
    Session.Matches T P { x with deliveries := x.deliveries.erase id }
      { x' with deliveries := x'.deliveries.erase id } := by
  cases m with
  | intro ms held => exact .intro ms (Names.erase_holds held id)

theorem onBroker (m : x.Matches T P x') {f : Broker → Broker}
    (each : ∀ {b b' : Broker}, b.Matches T P b' → (f b).Matches T P (f b')) :
    (x.onBroker f).Matches T P (x'.onBroker f) :=
  m.onHost (m.system.host.withBroker (each m.system.host.broker))

theorem queues_eq (m : x.Matches T P x') : x'.queues = x.queues := by
  cases m
  rfl

theorem running_eq (m : x.Matches T P x') : x'.running = x.running := by
  cases m
  rfl

theorem tokens_eq (m : x.Matches T P x') : x'.tokens = x.tokens := by
  cases m
  rfl

theorem consumers_eq (m : x.Matches T P x') : x'.consumers = x.consumers := by
  cases m
  rfl

/-! ### Dropping objects -/

theorem dropSubscription (m : x.Matches T P x') (id : String) :
    (x.dropSubscription id).Matches T P (x'.dropSubscription id) := by
  cases m with
  | intro ms hd =>
    unfold Session.dropSubscription
    dsimp only
    split
    · exact .intro ms hd
    · exact .intro (ms.onHost (ms.host.stopReceiving _)) hd

theorem dropDelivery (m : x.Matches T P x') (id : String) :
    (x.dropDelivery id).Matches T P (x'.dropDelivery id) := by
  cases m with
  | intro ms hd =>
    unfold Session.dropDelivery
    dsimp only
    rcases rel_cases (Names.rel_find? hd id) with ⟨left, right⟩ | ⟨p, p', left, right, same, hp⟩
    · rw [left, right]
      exact .intro ms hd
    · rw [left, right]
      obtain ⟨i, d⟩ := p
      obtain ⟨i', d'⟩ := p'
      obtain rfl : i' = i := same
      have dropped := ms.host.withBroker (ms.host.broker.discard i' hp)
      exact .intro (ms.onHost dropped) (Names.erase_holds hd id)

theorem dropPublisher (m : x.Matches T P x') (id : String) :
    (x.dropPublisher id).Matches T P (x'.dropPublisher id) := by
  cases m with
  | intro ms hd =>
    unfold Session.dropPublisher
    dsimp only
    split
    · exact .intro ms hd
    · exact .intro (ms.dropPublisher _) hd

theorem dropCorrelator (m : x.Matches T P x') (id : String) :
    (x.dropCorrelator id).Matches T P (x'.dropCorrelator id) := by
  cases m with
  | intro ms hd =>
    unfold Session.dropCorrelator
    dsimp only
    split
    · exact .intro ms hd
    · exact .intro (ms.dropCorrelator _) hd

theorem dropWaiter (m : x.Matches T P x') (id : String) :
    (x.dropWaiter id).Matches T P (x'.dropWaiter id) := by
  cases m with
  | intro ms hd =>
    unfold Session.dropWaiter
    dsimp only
    split
    · exact .intro ms hd
    · exact .intro (ms.releaseWaiter _) hd

theorem dropQueue (m : x.Matches T P x') (id : String) :
    (x.dropQueue id).Matches T P (x'.dropQueue id) := by
  cases m with
  | intro ms hd =>
    unfold Session.dropQueue
    dsimp only
    split
    · exact .intro ms hd
    · exact .intro (ms.adjustQueue _ _) hd

theorem drop (m : x.Matches T P x') (kind : Kind) (id : String) :
    (x.drop kind id).Matches T P (x'.drop kind id) := by
  cases kind with
  | subscription => exact m.dropSubscription id
  | delivery => exact m.dropDelivery id
  | publisher => exact m.dropPublisher id
  | correlator => exact m.dropCorrelator id
  | waiter => exact m.dropWaiter id
  | queue => exact m.dropQueue id

/-! ### Calls -/

theorem call (m : x.Matches T P x') (owner : Owner) (phase : Call.Phase) :
    Agree (Session.Matches T P) (x.call owner phase) (x'.call owner phase) := by
  cases m with
  | intro ms hd =>
    cases ms with
    | intro hh hc hk => exact ⟨rfl, .intro (.intro hh hc hk) hd⟩

theorem correlatorOf?_eq (m : x.Matches T P x') (target : String) :
    x'.correlatorOf? target = x.correlatorOf? target := by
  cases m with
  | intro ms _ =>
    cases ms
    rfl

theorem queueOf?_eq (m : x.Matches T P x') (target : String) :
    x'.queueOf? target = x.queueOf? target := by
  cases m with
  | intro ms _ =>
    cases ms
    rfl

theorem tokenOf_eq (m : x.Matches T P x') (token : Option String) :
    x'.tokenOf token = x.tokenOf token := by
  cases m
  rfl

theorem wait (m : x.Matches T P x') (waiter : String) (token : Option String) :
    Agree (Session.Matches T P) (x.wait waiter token) (x'.wait waiter token) := by
  have found : x'.waiters.find? waiter = x.waiters.find? waiter := by
    cases m
    rfl
  unfold Session.wait
  rw [m.tokenOf_eq, found]
  split
  · exact ⟨rfl, m⟩
  · exact (m.map (g := fun y => { y with waiters := y.waiters.erase waiter })
      fun _ _ _ _ => rfl).call _ _

theorem submit (m : x.Matches T P x') (target : String) (event : ChangeEvent) :
    Agree (Session.Matches T P) (x.submit target event) (x'.submit target event) := by
  unfold Session.submit
  rw [m.correlatorOf?_eq, m.queueOf?_eq]
  split
  · exact m.call _ _
  · exact ⟨rfl, m⟩

theorem close (m : x.Matches T P x') (target : String) :
    Agree (Session.Matches T P) (x.close target) (x'.close target) := by
  have publishers : x'.publishers = x.publishers := by
    cases m
    rfl
  have correlators : x'.correlators = x.correlators := by
    cases m
    rfl
  unfold Session.close
  rw [publishers, correlators]
  split
  · exact m.call _ _
  · split
    · exact m.call _ _
    · exact ⟨rfl, m⟩

theorem abort (m : x.Matches T P x') (step : Nat) :
    (x.abort step).Matches T P (x'.abort step) := by
  unfold Session.abort
  rw [m.running_eq]
  split
  · exact m
  · exact m.onSystem (m.system.abortCall _)

/-! ### New objects -/

theorem subscribe (m : x.Matches T P x') (id : String) (config : SubscriptionConfig) :
    Agree (Session.Matches T P) (x.subscribe id config) (x'.subscribe id config) := by
  obtain ⟨answer, h, h', left, right, subscribed⟩ := (m.system.host.subscribe config).parts
  unfold Session.subscribe
  rw [left, right]
  have moved := m.onHost (f := fun _ => h) (g := fun _ => h') subscribed
  cases answer with
  | error e => exact ⟨rfl, moved⟩
  | ok i =>
    exact ⟨rfl, (moved.dropSubscription id).map
      (g := fun y => { y with subscriptions := y.subscriptions.insert id i }) fun _ _ _ _ => rfl⟩

theorem openPublisher (m : x.Matches T P x') (id : String) (config : DispatchConfig) :
    Agree (Session.Matches T P) (x.openPublisher id config) (x'.openPublisher id config) := by
  obtain ⟨answer, s, s', left, right, opened⟩ := (m.system.openPublisher config).parts
  unfold Session.openPublisher
  rw [left, right]
  have moved := m.withSystem (le_refl P) opened
  cases answer with
  | error e => cases e <;> exact ⟨rfl, moved⟩
  | ok i =>
    exact ⟨rfl, (moved.dropPublisher id).map
      (g := fun y => { y with publishers := y.publishers.insert id i }) fun _ _ _ _ => rfl⟩

theorem startCorrelator (m : x.Matches T P x') (id : String) (subscription : SubscriptionConfig)
    (timeout unmatchedDelay : Duration) :
    Agree (Session.Matches T P) (x.startCorrelator id subscription timeout unmatchedDelay)
      (x'.startCorrelator id subscription timeout unmatchedDelay) := by
  obtain ⟨answer, s, s', left, right, started⟩ :=
    (m.system.startCorrelator subscription timeout unmatchedDelay).parts
  unfold Session.startCorrelator
  rw [left, right]
  have moved := m.withSystem (le_refl P) started
  cases answer with
  | error e => exact ⟨rfl, moved⟩
  | ok i =>
    exact ⟨rfl, (moved.dropCorrelator id).map
      (g := fun y => { y with correlators := y.correlators.insert id i }) fun _ _ _ _ => rfl⟩

theorem startConsumer (m : x.Matches T P x') (id topic name : String)
    (policy : Option DeadLetterPolicy) (plan : HandlerPlan) :
    Agree (Session.Matches T P) (x.startConsumer id topic name policy plan)
      (x'.startConsumer id topic name policy plan) := by
  obtain ⟨answer, s, s', left, right, started⟩ := (m.system.startConsumer topic name
    (policy.getD (.ofTopic topic)) plan.handler).parts
  unfold Session.startConsumer
  rw [left, right]
  have moved := m.withSystem (le_refl P) started
  cases answer with
  | error e => exact ⟨rfl, moved⟩
  | ok i =>
    exact ⟨rfl, moved.map (g := fun y => { y with consumers := y.consumers.insert id i })
      fun _ _ _ _ => rfl⟩

theorem serve (m : x.Matches T P x') (id topic name : String) (policy : DeadLetterPolicy)
    (handler : Handler) :
    (x.serve id topic name policy handler).Matches T P
      (x'.serve id topic name policy handler) := by
  obtain ⟨answer, s, s', left, right, started⟩ :=
    (m.system.startConsumer topic name policy handler).parts
  unfold Session.serve
  rw [left, right]
  have moved := m.withSystem (le_refl P) started
  cases answer with
  | error e => exact moved
  | ok i =>
    exact moved.map (g := fun y => { y with consumers := y.consumers.insert id i })
      fun _ _ _ _ => rfl

theorem register (m : x.Matches T P x') (target : String) (event : ChangeEvent)
    (waiter : String) :
    Agree (Session.Matches T P) (x.register target event waiter)
      (x'.register target event waiter) := by
  unfold Session.register
  rw [m.correlatorOf?_eq]
  split
  · exact ⟨rfl, m⟩
  next c _ =>
    obtain ⟨answer, s, s', left, right, registered⟩ := (m.system.register c event).parts
    rw [left, right]
    have moved := m.withSystem (le_refl P) registered
    cases answer with
    | error e => exact ⟨rfl, moved⟩
    | ok handle =>
      exact ⟨rfl, (moved.dropWaiter waiter).map
        (g := fun y => { y with waiters := y.waiters.insert waiter handle }) fun _ _ _ _ => rfl⟩

theorem makeToken (m : x.Matches T P x') (id : String) :
    Session.Matches T P
      { x with system := x.system.addToken.2, tokens := x.tokens.insert id x.system.addToken.1 }
      { x' with
        system := x'.system.addToken.2
        tokens := x'.tokens.insert id x'.system.addToken.1 } := by
  have added := m.system.addToken
  rw [added.answer]
  exact (m.withSystem (le_refl P) added.state).map
    (g := fun y => { y with tokens := y.tokens.insert id x.system.addToken.1 }) fun _ _ _ _ => rfl

theorem makeQueue (m : x.Matches T P x') (id : String) (capacity : Nat) (timeout : Duration) :
    Agree (Session.Matches T P) (x.makeQueue id capacity timeout)
      (x'.makeQueue id capacity timeout) := by
  obtain ⟨i, s, s', left, right, added⟩ :=
    (m.system.addQueue (.ofCapacity capacity timeout)).parts
  unfold Session.makeQueue
  split
  · exact ⟨rfl, m⟩
  · rw [left, right]
    exact ⟨rfl, ((m.withSystem (le_refl P) added).dropQueue id).map
      (g := fun y => { y with queues := y.queues.insert id i }) fun _ _ _ _ => rfl⟩

/-! ### Queues -/

theorem queue?_eq (m : x.Matches T P x') (queue : String) :
    ((x'.queues.find? queue).bind fun i => (x'.system.queues[i]?).map fun q => (i, q)) =
      (x.queues.find? queue).bind fun i => (x.system.queues[i]?).map fun q => (i, q) := by
  cases m with
  | intro ms _ =>
    dsimp only
    rw [ms.queues_eq]

theorem dequeue (m : x.Matches T P x') (queue : String) :
    Agree (Session.Matches T P) (x.dequeue queue) (x'.dequeue queue) := by
  unfold Session.dequeue
  rw [m.queue?_eq]
  split
  · exact ⟨rfl, m⟩
  next i q _ =>
    split
    next item q' _ =>
      exact ⟨rfl, m.withSystem (le_refl P) (m.system.adjustQueue i fun _ => q')⟩
    · exact ⟨rfl, m⟩

/-! ### Deliveries -/

theorem settle (m : x.Matches T P x') (delivery : String)
    {act : Host → Nat → Delivery → Except TransportError Unit × Host}
    (acts : ∀ {h h' : Host} {d d' : Delivery} (i : Nat), h.Matches T P h' → d.Matches P d' →
      Agree (Host.Matches T P) (act h i d) (act h' i d')) :
    Agree (Session.Matches T P) (x.settle delivery act) (x'.settle delivery act) := by
  have held : Forall₂ (Holds P) x.deliveries x'.deliveries := by
    cases m
    assumption
  unfold Session.settle
  rcases rel_cases (Names.rel_find? held delivery) with
    ⟨left, right⟩ | ⟨p, p', left, right, same, hp⟩
  · rw [left, right]
    exact ⟨rfl, m⟩
  · rw [left, right]
    obtain ⟨i, d⟩ := p
    obtain ⟨i', d'⟩ := p'
    obtain rfl : i' = i := same
    obtain ⟨answer, h, h', left, right, settled⟩ := (acts i' m.system.host hp).parts
    dsimp only
    rw [left, right]
    have moved := (m.onHost (f := fun _ => h) (g := fun _ => h') settled).eraseDelivery delivery
    cases answer with
    | ok _ => exact ⟨rfl, moved⟩
    | error e => exact ⟨rfl, moved⟩

theorem receive (m : x.Matches T P x') (avoids : x.Avoids T) (subscription delivery : String) :
    Answers T P (x.receive subscription delivery) (x'.receive subscription delivery) := by
  have found : x'.subscriptions.find? subscription = x.subscriptions.find? subscription := by
    cases m
    rfl
  unfold Session.receive
  rw [found]
  cases hi : x.subscriptions.find? subscription with
  | none => exact ⟨rfl, m.follows⟩
  | some i =>
    obtain ⟨failure, h, h', left, right, begun⟩ := m.system.host.beginReceive.parts
    have others : ∀ s, h.broker.subscriptions[i]? = some s → s.topic ≠ T := by
      intro s hs
      have kept := (x.system.host.adjusts_beginReceive i).getElem?
      rw [left, Option.map_id] at kept
      exact avoids.caller subscription i hi s (kept.symm.trans hs)
    obtain ⟨clear, clear'⟩ := begun.broker.clear_of_ne others
    dsimp only
    rw [left, right]
    cases failure with
    | some e =>
      exact ⟨rfl, (m.onHost (f := fun _ => h) (g := fun _ => h') begun).follows⟩
    | none =>
      dsimp only
      rw [begun.broker.isEnded_eq clear clear']
      rcases rel_cases (begun.take? clear clear') with
        ⟨left, right⟩ | ⟨p, p', left, right, hd, taken⟩
      · rw [left, right]
        exact ⟨rfl, m.follows⟩
      · rw [left, right]
        obtain ⟨d, k⟩ := p
        obtain ⟨d', k'⟩ := p'
        have moved := (m.onHost (f := fun _ => k) (g := fun _ => k') taken).dropDelivery delivery
        exact ⟨congrArg Reply.delivered hd.blurred_eq, (moved.insertDelivery delivery i hd).follows⟩

/-! ### What is looked up in the step itself -/

/-- Counters and flags of the broker are set. -/
theorem answers_onBroker (m : x.Matches T P x') {f : Broker → Broker}
    (keeps : ∀ {b b' : Broker}, b.Matches T P b' → (f b).Matches T P (f b')) :
    Answers T P (.nothing, x.onBroker f) (.nothing, x'.onBroker f) :=
  ⟨rfl, (m.onBroker keeps).follows⟩

theorem inject (m : x.Matches T P x') (topic : String) (payload : Payload) :
    Answers T P (x.perform (.inject topic payload)) (x'.perform (.inject topic payload)) := by
  obtain ⟨Q, sub, put⟩ := m.system.host.broker.fanOut topic payload
  exact ⟨rfl, Q, sub, m.withSystem sub (m.system.withHost sub (m.system.host.withBroker put))⟩

theorem published (m : x.Matches T P x') (topic : String) :
    Agree (Session.Matches T P) (x.perform (.published topic)) (x'.perform (.published topic)) := by
  refine ⟨?_, m⟩
  change Reply.payloads _ = Reply.payloads _
  unfold Broker.publishedOn
  rw [m.system.host.broker.published_eq]

theorem subscriberCount (m : x.Matches T P x') (topic : String) :
    Agree (Session.Matches T P) (x.perform (.subscriberCount topic))
      (x'.perform (.subscriberCount topic)) := by
  refine ⟨?_, m⟩
  change Reply.count _ = Reply.count _
  rw [m.system.host.broker.subscriberCount_eq topic]

theorem closeBroker (m : x.Matches T P x') :
    Agree (Session.Matches T P) (x.perform .closeBroker) (x'.perform .closeBroker) := by
  obtain ⟨answer, h, h', left, right, closed⟩ := m.system.host.close.parts
  unfold Session.perform
  dsimp only
  rw [left, right]
  have moved := m.onHost (f := fun _ => h) (g := fun _ => h') closed
  cases answer with
  | ok _ => exact ⟨rfl, moved⟩
  | error e => exact ⟨rfl, moved⟩

theorem enqueue (m : x.Matches T P x') (target : String) (event : ChangeEvent) :
    Agree (Session.Matches T P) (x.perform (.enqueue target event))
      (x'.perform (.enqueue target event)) := by
  unfold Session.perform
  dsimp only
  rw [m.queueOf?_eq]
  split
  · exact ⟨rfl, m⟩
  · exact m.call _ _

theorem waitForAck (m : x.Matches T P x') (target : String) (event : ChangeEvent)
    (token : Option String) :
    Agree (Session.Matches T P) (x.perform (.waitForAck target event token))
      (x'.perform (.waitForAck target event token)) := by
  unfold Session.perform
  dsimp only
  rw [m.correlatorOf?_eq, m.tokenOf_eq]
  split
  · exact ⟨rfl, m⟩
  · exact m.call _ _

theorem closeQueue (m : x.Matches T P x') (queue : String) :
    Agree (Session.Matches T P) (x.perform (.closeQueue queue))
      (x'.perform (.closeQueue queue)) := by
  unfold Session.perform
  dsimp only
  rw [m.queue?_eq]
  split
  · exact ⟨rfl, m⟩
  next i q _ => exact ⟨rfl, m.withSystem (le_refl P) (m.system.adjustQueue i fun q => q.close.2)⟩

theorem dropReceiver (m : x.Matches T P x') (queue : String) :
    Agree (Session.Matches T P) (x.perform (.dropReceiver queue))
      (x'.perform (.dropReceiver queue)) := by
  unfold Session.perform
  dsimp only
  rw [m.queues_eq]
  split
  · exact ⟨rfl, m⟩
  next i _ => exact ⟨rfl, m.withSystem (le_refl P) (m.system.adjustQueue i _)⟩

theorem openRemote (m : x.Matches T P x') (config : DispatchConfig) :
    Agree (Session.Matches T P) (x.perform (.openRemote config))
      (x'.perform (.openRemote config)) := by
  unfold Session.perform
  dsimp only
  split <;> exact ⟨rfl, m⟩

theorem cancel (m : x.Matches T P x') (token : String) :
    Agree (Session.Matches T P) (x.perform (.cancel token)) (x'.perform (.cancel token)) := by
  unfold Session.perform
  dsimp only
  rw [m.tokens_eq]
  split
  · exact ⟨rfl, m⟩
  next i _ => exact ⟨rfl, m.withSystem (le_refl P) (m.system.fireToken i)⟩

theorem seen (m : x.Matches T P x') (consumer : String) :
    Agree (Session.Matches T P) (x.perform (.seen consumer)) (x'.perform (.seen consumer)) := by
  unfold Session.perform
  dsimp only
  rw [m.consumers_eq]
  cases x.consumers.find? consumer with
  | none => exact ⟨rfl, m⟩
  | some i =>
    dsimp only [Option.bind]
    rcases rel_cases (rel_getElem? m.system.consumers i) with
      ⟨left, right⟩ | ⟨k, k', left, right, mk⟩
    · rw [left, right]
      exact ⟨rfl, m⟩
    · rw [left, right]
      cases mk
      exact ⟨rfl, m⟩

theorem stopConsumer (m : x.Matches T P x') (consumer : String) :
    Agree (Session.Matches T P) (x.perform (.stopConsumer consumer))
      (x'.perform (.stopConsumer consumer)) := by
  unfold Session.perform
  dsimp only
  rw [m.consumers_eq]
  split
  · exact ⟨rfl, m⟩
  next i _ => exact ⟨rfl, m.withSystem (le_refl P) (m.system.stopConsumer i)⟩

/-! ### All steps -/

/-- A step that lets no time pass does the same in both sessions. -/
theorem perform (m : x.Matches T P x') (avoids : x.Avoids T) {step : Step}
    (prompt : ∀ ms, step ≠ .advance ms) : Answers T P (x.perform step) (x'.perform step) := by
  cases step with
  | advance ms => exact absurd rfl (prompt ms)
  | failPublishes | failReceives | failSubscriptions =>
    refine m.answers_onBroker fun hb => ?_
    cases hb with
    | intro hs hn => exact .intro hs hn
  | setFaults faults =>
    exact ⟨rfl, (m.onHost (f := fun h => { h with faults }) (g := fun h => { h with faults })
      (m.system.host.withFaults faults)).follows⟩
  | inject topic payload => exact m.inject topic payload
  | publish topic payload => exact answers_of_agree (m.call _ _)
  | published topic => exact answers_of_agree (m.published topic)
  | subscriberCount topic => exact answers_of_agree (m.subscriberCount topic)
  | closeBroker => exact answers_of_agree m.closeBroker
  | subscribe id config => exact answers_of_agree (m.subscribe id config)
  | receive subscription delivery => exact m.receive avoids subscription delivery
  | ack delivery => exact answers_of_agree (m.settle delivery fun i hh hd => hh.ack i hd)
  | nack delivery delay =>
    exact answers_of_agree (m.settle delivery fun i hh hd => hh.nack i hd delay)
  | terminate delivery =>
    exact answers_of_agree (m.settle delivery fun i hh hd => hh.terminate i hd)
  | makeQueue id capacity timeout =>
    exact answers_of_agree (m.makeQueue id capacity timeout)
  | enqueue target event => exact answers_of_agree (m.enqueue target event)
  | dequeue queue => exact answers_of_agree (m.dequeue queue)
  | closeQueue queue => exact answers_of_agree (m.closeQueue queue)
  | dropReceiver queue => exact answers_of_agree (m.dropReceiver queue)
  | openPublisher id config => exact answers_of_agree (m.openPublisher id config)
  | openRemote config => exact answers_of_agree (m.openRemote config)
  | startCorrelator id subscription timeout unmatchedDelay =>
    exact answers_of_agree (m.startCorrelator id subscription timeout unmatchedDelay)
  | submit target event => exact answers_of_agree (m.submit target event)
  | register target event waiter => exact answers_of_agree (m.register target event waiter)
  | wait waiter token => exact answers_of_agree (m.wait waiter token)
  | waitForAck target event token => exact answers_of_agree (m.waitForAck target event token)
  | makeToken id => exact ⟨rfl, (m.makeToken id).follows⟩
  | cancel token => exact answers_of_agree (m.cancel token)
  | close target => exact answers_of_agree (m.close target)
  | abort n => exact ⟨rfl, (m.abort n).follows⟩
  | startConsumer id topic name policy plan =>
    exact answers_of_agree (m.startConsumer id topic name policy plan)
  | seen consumer => exact answers_of_agree (m.seen consumer)
  | stopConsumer consumer => exact answers_of_agree (m.stopConsumer consumer)
  | drop kind id => exact ⟨rfl, (m.drop kind id).follows⟩

end Matches

end Session

end Script

end ChangeDispatch
