import ChangeDispatch.Proofs.Broker.Outstanding
import ChangeDispatch.Proofs.Broker.Rest

/-!
# What is done with a broker

The uses of a broker over a connection that does not fail, with what they bring to light: which
message was put on a topic, which offer was received, which error was met. A history is any
sequence of uses that a new broker can go through; an offer is settled only while it is held, and
so at most once. From a history one reads off what every subscription has to do with: the messages
that arrived there, the offers that were received, and what became of them.
-/
namespace ChangeDispatch

namespace Host

/-- How an offer is settled. -/
inductive Settling where
  | ack
  | nack (delay : Duration)
  | term
  deriving DecidableEq, Repr

/-- One use of a broker, with what it brings to light. -/
inductive Use where
  | subscribed (config : SubscriptionConfig) (subscription : Nat)
  | unsubscribed (config : SubscriptionConfig) (e : TransportError)
  | published (topic : String) (message : Nat) (payload : Payload)
  | unpublished (topic : String) (payload : Payload) (e : TransportError)
  | injected (topic : String) (message : Nat) (payload : Payload)
  | failPublishes (count : Nat)
  | failReceives (count : Nat)
  | failSubscriptions (fail : Bool)
  | received (subscription : Nat) (d : Delivery)
  | unreceived (subscription : Nat) (e : TransportError)
  /-- A receive finds nothing. -/
  | pending (subscription : Nat)
  | settled (how : Settling) (subscription : Nat) (d : Delivery)
  /-- The timer that held an offer back goes off. -/
  | offered (subscription serial : Nat)
  | passed (moment : Nat)
  | closed
  deriving DecidableEq, Repr

/-- Settle an offer. -/
def settleBy (h : Host) (how : Settling) (subscription : Nat) (d : Delivery) :
    Except TransportError Unit × Host :=
  match how with
  | .ack => h.ack subscription d
  | .nack delay => h.nack subscription d delay
  | .term => h.terminate subscription d

/-- What a use makes of the broker when it brings this to light. -/
inductive Does (h : Host) : Use → Host → Prop where
  | subscribed {config : SubscriptionConfig} {i : Nat} {k : Host} :
      h.subscribe config = (.ok i, k) → Does h (.subscribed config i) k
  | unsubscribed {config : SubscriptionConfig} {e : TransportError} {k : Host} :
      h.subscribe config = (.error e, k) → Does h (.unsubscribed config e) k
  | published {topic : String} {payload : Payload} {k : Host} :
      h.publish topic payload = (.ok (), k) →
      Does h (.published topic h.broker.messages payload) k
  | unpublished {topic : String} {payload : Payload} {e : TransportError} {k : Host} :
      h.publish topic payload = (.error e, k) → Does h (.unpublished topic payload e) k
  | injected {topic : String} {payload : Payload} :
      Does h (.injected topic h.broker.messages payload)
        { h with broker := h.broker.fanOut topic payload }
  | failPublishes {count : Nat} :
      Does h (.failPublishes count) { h with broker := { h.broker with failPublishes := count } }
  | failReceives {count : Nat} :
      Does h (.failReceives count) { h with broker := { h.broker with failReceives := count } }
  | failSubscriptions {fail : Bool} :
      Does h (.failSubscriptions fail)
        { h with broker := { h.broker with failSubscriptions := fail } }
  | received {i : Nat} {d : Delivery} {k l : Host} :
      h.beginReceive = (none, k) → k.take? i = some (d, l) → Does h (.received i d) l
  /-- A receive that had found nothing takes an offer that has come since; it meets no failure, as
  it began before. -/
  | awaited {i : Nat} {d : Delivery} {k : Host} :
      h.take? i = some (d, k) → Does h (.received i d) k
  | unreceived {i : Nat} {e : TransportError} {k : Host} :
      h.beginReceive = (some e, k) → Does h (.unreceived i e) k
  | pending {i : Nat} {k : Host} :
      h.beginReceive = (none, k) → k.take? i = none → Does h (.pending i) k
  | settled {how : Settling} {i : Nat} {s : Subscription} {d : Delivery} :
      h.broker.subscriptions[i]? = some s → d ∈ s.held →
      Does h (.settled how i d) (h.settleBy how i d).2
  | offered {i serial : Nat} {entry : Timer × Delivery} :
      h.broker.delayed? i serial = some entry → h.isDue entry.1 →
      Does h (.offered i serial) { h with broker := h.broker.offerDelayed i entry }
  | passed {moment : Nat} : h.now ≤ moment → Does h (.passed moment) { h with now := moment }
  | closed : Does h .closed h.close.2

/-- What a new broker has gone through, the latest use first. -/
inductive History : List Use → Host → Prop where
  | start : History [] {}
  | next {uses : List Use} {use : Use} {h k : Host} :
      History uses h → Does h use k → History (use :: uses) k

/-! ## What a history tells of a subscription -/

namespace Use

/-- The message that is put on a topic, as it is offered there first. -/
def put? : Use → Option (String × Delivery)
  | published topic message payload | injected topic message payload =>
    some (topic, ⟨message, payload, 1⟩)
  | _ => none

def config? (j : Nat) : Use → Option SubscriptionConfig
  | subscribed config i => if i = j then some config else none
  | _ => none

def received? (j : Nat) : Use → Option Delivery
  | received i d => if i = j then some d else none
  | _ => none

def settled? (j : Nat) : Use → Option (Settling × Delivery)
  | settled how i d => if i = j then some (how, d) else none
  | _ => none

end Use

/-- A message is offered no more when its offer is settled like this: for good, or handed back when
the bound, or the range of the numbers, allows no further offer. -/
def Settling.isLast (how : Settling) (bound : Option Nat) (d : Delivery) : Bool :=
  match how with
  | .nack _ => bound.getD Delivery.lastNumber ≤ d.number
  | _ => true

def Settling.isNack : Settling → Bool
  | .nack _ => true
  | _ => false

/-- What subscription `j` was asked to be. -/
def asked? (uses : List Use) (j : Nat) : Option SubscriptionConfig :=
  uses.findSome? (Use.config? j)

/-- The message that arrives at subscription `j`: it has been made, and the broker not closed. -/
def arrival? (earlier : List Use) (j : Nat) (use : Use) : Option Delivery := do
  let config ← asked? earlier j
  let (topic, d) ← use.put?
  if topic = config.topic ∧ Use.closed ∉ earlier then some d else none

/-- The messages that have arrived at subscription `j`, in this order. -/
def arrivals : List Use → Nat → List Delivery
  | [], _ => []
  | use :: earlier, j => arrivals earlier j ++ (arrival? earlier j use).toList

/-- The offers that were received from subscription `j`, in this order. -/
def receipts (uses : List Use) (j : Nat) : List Delivery :=
  uses.reverse.filterMap (Use.received? j)

/-- How often a message was nacked at subscription `j`. -/
def nacks (uses : List Use) (j message : Nat) : Nat :=
  uses.countP fun use => (use.settled? j).any fun (how, d) =>
    how.isNack && d.message == message

/-- The messages that subscription `j` has been done with. -/
def finished (uses : List Use) (j : Nat) (bound : Option Nat) : List Nat :=
  uses.filterMap fun use => (use.settled? j).bind fun (how, d) =>
    if how.isLast bound d then some d.message else none

/-! ## One use more -/

variable {uses : List Use} {use : Use} {j : Nat} {h k : Host} {d : Delivery}

/-- The use does not make subscription `j`, and is no receipt or settlement there. -/
structure Use.Aside (j : Nat) (use : Use) : Prop where
  config : use.config? j = none
  received : use.received? j = none
  settled : use.settled? j = none

theorem asked?_cons (use : Use) (uses : List Use) (j : Nat) :
    asked? (use :: uses) j = (use.config? j).or (asked? uses j) := by
  unfold asked?
  rw [List.findSome?_cons]
  cases use.config? j <;> rfl

theorem receipts_cons (use : Use) (uses : List Use) (j : Nat) :
    receipts (use :: uses) j = receipts uses j ++ (use.received? j).toList := by
  unfold receipts
  rw [List.reverse_cons, List.filterMap_append, List.filterMap_cons]
  cases use.received? j <;> rfl

theorem nacks_cons (use : Use) (uses : List Use) (j n : Nat) :
    nacks (use :: uses) j n = nacks uses j n +
      if (use.settled? j).any fun (how, d) => how.isNack && d.message == n then 1 else 0 :=
  List.countP_cons

theorem finished_cons (use : Use) (uses : List Use) (j : Nat) (bound : Option Nat) :
    finished (use :: uses) j bound = ((use.settled? j).bind fun (how, d) =>
      if how.isLast bound d then some d.message else none).toList ++ finished uses j bound := by
  unfold finished
  rw [List.filterMap_cons]
  split
  next none => rw [none]; rfl
  next some => rw [some]; rfl

theorem arrival?_eq_none (unput : use.put? = none) : arrival? uses j use = none := by
  unfold arrival?
  cases asked? uses j with
  | none => rfl
  | some config =>
    rw [Option.bind_eq_bind, Option.bind_some, unput]
    rfl

namespace Use.Aside

theorem asked?_eq (aside : use.Aside j) : asked? (use :: uses) j = asked? uses j := by
  rw [asked?_cons, aside.config]
  rfl

theorem receipts_eq (aside : use.Aside j) : receipts (use :: uses) j = receipts uses j := by
  rw [receipts_cons, aside.received]
  exact List.append_nil _

theorem nacks_eq (aside : use.Aside j) : nacks (use :: uses) j = nacks uses j := by
  funext n
  rw [nacks_cons, aside.settled]
  rfl

theorem finished_eq (aside : use.Aside j) (bound : Option Nat) :
    finished (use :: uses) j bound = finished uses j bound := by
  rw [finished_cons, aside.settled]
  rfl

end Use.Aside

/-- The timer that holds an offer back which is handed back now. -/
def backTimer? (h : Host) (delay : Duration) : Option Timer :=
  if delay.isZero then none else some (h.setTimer delay.ticks).1

/-- What is nacked over a connection that does not fail is handed back. -/
theorem adjusts_nackBy (faultless : h.faults = {}) (delay : Duration) (i : Nat) (d : Delivery) :
    Adjusts i (·.handBack d (h.backTimer? delay)) h (h.nack i d delay).2 := by
  have working : h.faults.failNack = false := by rw [faultless]
  have later : (h.setTimer delay.ticks).2.faults.failNack = false := working
  unfold Host.nack settle backTimer?
  dsimp only
  by_cases zero : delay.isZero
  · rw [if_pos zero, if_pos zero, working, if_neg (by decide)]
    exact ⟨rfl, rfl, rfl, rfl, rfl⟩
  · rw [if_neg zero, if_neg zero, later, if_neg (by decide)]
    exact ⟨rfl, rfl, rfl, rfl, rfl⟩

/-- A settlement over a connection that does not fail lets go of the offer, or hands it back. -/
theorem adjusts_settleBy (faultless : h.faults = {}) (how : Settling) (i : Nat) (d : Delivery) :
    (how.isNack = false ∧ Adjusts i (·.release d) h (h.settleBy how i d).2) ∨
      ∃ delay timer, how = .nack delay ∧
        Adjusts i (·.handBack d timer) h (h.settleBy how i d).2 := by
  cases how with
  | ack => exact .inl ⟨rfl, h.adjusts_ack i d⟩
  | term => exact .inl ⟨rfl, h.adjusts_terminate i d⟩
  | nack delay => exact .inr ⟨delay, _, rfl, adjusts_nackBy faultless delay i d⟩

/-- Every use leaves a closed broker closed, with its log. -/
theorem Does.rests (does : Does h use k) : Rests h k := by
  have left : ∀ {α : Type} {answer : α × Host} {result : α}, answer = (result, k) →
      Rests h answer.2 → Rests h k := fun ha rests => by rwa [ha] at rests
  have begun := h.rests_beginReceive
  cases does with
  | subscribed hs => exact left hs (h.rests_subscribe _)
  | unsubscribed hs => exact left hs (h.rests_subscribe _)
  | published hp => exact left hp (h.rests_publish _ _)
  | unpublished hp => exact left hp (h.rests_publish _ _)
  | unreceived hb => exact left hb begun
  | pending hb _ => exact left hb begun
  | received hb ht =>
    rw [hb] at begun
    exact begun.trans (rests_take? ht)
  | awaited ht => exact rests_take? ht
  | @settled how i _ d _ _ =>
    cases how with
    | ack => exact h.rests_ack i d
    | nack delay => exact h.rests_nack i d delay
    | term => exact h.rests_terminate i d
  | closed => exact h.rests_close
  | _ => exact .of_eq rfl rfl rfl

theorem History.shut (history : History uses h) (closed : Use.closed ∈ uses) :
    h.broker.closed := by
  induction history with
  | start => cases closed
  | next _ does ih =>
    rcases List.mem_cons.mp closed with rfl | earlier
    · cases does
      rfl
    · exact does.rests.closed (ih earlier)

end Host

end ChangeDispatch
