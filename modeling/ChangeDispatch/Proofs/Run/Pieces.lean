import ChangeDispatch.Proofs.Run.Basic
import Mathlib.Logic.Relation

/-!
# What the steps of a script are made of

A step of a script looks up the objects that it names, does a few things to the system one
after another, and gives out new names. What it does is made of the pieces below. A relation
of systems that has every piece and can be chained holds across every step, so a proof need
not go through the steps again.

Only some steps touch deliveries, queues or calls; a piece that does so asks for it.
-/
namespace ChangeDispatch

/-- What only some of the steps touch. -/
inductive Part where
  /-- The deliveries that the caller receives, holds and settles. -/
  | deliveries
  /-- The queues, apart from their flags. -/
  | queues
  | calls
  deriving DecidableEq, Repr

/-- One thing that a step does to the host. -/
inductive Host.Piece (may : Part → Bool) (h : Host) : Host → Prop where
  | set (faults : Faults) (failPublishes failReceives : Nat) (failSubscriptions : Bool) :
      Piece may h { h with
        faults
        broker := { h.broker with failPublishes, failReceives, failSubscriptions } }
  | injected (topic : String) (payload : Payload) :
      Piece may h { h with broker := h.broker.fanOut topic payload }
  | noted (notice : Notice) : Piece may h (h.note notice)
  | closed : Piece may h h.close.2
  | subscribed (config : SubscriptionConfig) : Piece may h (h.subscribe config).2
  | stopped (i : Nat) : Piece may h (h.stopReceiving i)
  | begun : may .deliveries → Piece may h h.beginReceive.2
  | taken {i : Nat} {d : Delivery} {k : Host} :
      may .deliveries → h.take? i = some (d, k) → Piece may h k
  | released (i : Nat) (d : Delivery) :
      may .deliveries → Piece may h { h with broker := h.broker.discard i d }
  | acked (i : Nat) (d : Delivery) : may .deliveries → Piece may h (h.ack i d).2
  | nacked (i : Nat) (d : Delivery) (delay : Duration) :
      may .deliveries → Piece may h (h.nack i d delay).2
  | terminated (i : Nat) (d : Delivery) : may .deliveries → Piece may h (h.terminate i d).2

namespace System

/-- One thing that a step does to a system. -/
inductive Piece (may : Part → Bool) (s : System) : System → Prop where
  | onHost {h : Host} : Host.Piece may s.host h → Piece may s { s with host := h }
  | addedQueue (q : Queue) : may .queues → Piece may s (s.addQueue q).2
  | closedQueue (i : Nat) : Piece may s (s.adjustQueue i fun q => q.close.2)
  | droppedQueue (i : Nat) : may .queues → Piece may s (s.dropQueue i)
  | stoppedQueue (i : Nat) : may .queues → Piece may s (s.dropReceiver i)
  | received {i : Nat} {q r : Queue} {item : Item} :
      may .queues → s.queues[i]? = some q → q.take? = some (item, r) →
      Piece may s (s.adjustQueue i fun _ => r)
  | addedPublisher (config : DispatchConfig) (i : Nat) :
      may .queues → Piece may s (s.addPublisher config i).2
  | droppedPublisher (i : Nat) : Piece may s (s.dropPublisher i)
  | addedCorrelator (i : Nat) (timeout unmatchedDelay : Duration) :
      Piece may s (s.addCorrelator i timeout unmatchedDelay).2
  | droppedCorrelator (i : Nat) : Piece may s (s.dropCorrelator i)
  | registered (i : Nat) (event : ChangeEvent) : Piece may s (s.register i event).2
  | droppedWaiter (handle : WaitHandle) : Piece may s (s.releaseWaiter handle)
  | addedConsumer (k : Consumer) :
      Piece may s { s with
        consumers := s.consumers ++ [k]
        started := s.started ++ [.consumer s.consumers.length] }
  | stoppedConsumer (i : Nat) : Piece may s (s.stopConsumer i)
  | addedToken : Piece may s s.addToken.2
  | firedToken (i : Nat) : Piece may s (s.fireToken i)
  | started (owner : Owner) (φ : Call.Phase) : may .calls → Piece may s (s.startCall owner φ).2
  | aborted (n : Nat) : may .queues → may .calls → Piece may s (s.abortCall n)

/-- Some pieces, one after another. -/
abbrev Pieces (may : Part → Bool) : System → System → Prop := Relation.ReflTransGen (Piece may)

variable {may : Part → Bool} (s : System)

theorem pieces_noteError {α : Type} (result : Except α Unit) (notice : α → Notice) :
    s.Pieces may { s with host := s.host.noteError result notice } := by
  cases result with
  | ok _ => rfl
  | error e => exact .single (.onHost (.noted (notice e)))

theorem pieces_releaseBroker : s.Pieces may s.releaseBroker :=
  .head (.onHost .closed) ({ s with host := s.host.close.2 }.pieces_noteError _ _)

theorem pieces_openPublisher (queues : may .queues) (config : DispatchConfig) :
    s.Pieces may (s.openPublisher config).2 := by
  unfold openPublisher
  split
  · exact s.pieces_releaseBroker
  · dsimp only
    have subscribed : Host.Piece may s.host (s.host.subscribe
      ⟨config.ackTopic, config.ackSubscription, some config.ackMaxDeliveries⟩).2 := .subscribed _
    split
    next e host hs =>
      rw [hs] at subscribed
      exact .head (.onHost subscribed) (.head (.onHost (.noted _)) (pieces_releaseBroker _))
    next i host hs =>
      rw [hs] at subscribed
      split
      · exact .head (.onHost subscribed) (.single (.onHost (.stopped i)))
      · exact .head (.onHost subscribed) (.single (.addedPublisher config i queues))

theorem pieces_startCorrelator (subscription : SubscriptionConfig)
    (timeout unmatchedDelay : Duration) :
    s.Pieces may (s.startCorrelator subscription timeout unmatchedDelay).2 := by
  have subscribed : Host.Piece may s.host (s.host.subscribe subscription).2 := .subscribed _
  unfold startCorrelator
  split
  next e host hs =>
    rw [hs] at subscribed
    exact .single (.onHost subscribed)
  next i host hs =>
    rw [hs] at subscribed
    exact .head (.onHost subscribed) (.single (.addedCorrelator i timeout unmatchedDelay))

theorem pieces_startConsumer (topic name : String) (policy : DeadLetterPolicy)
    (handler : Handler) : s.Pieces may (s.startConsumer topic name policy handler).2 := by
  have subscribed : Host.Piece may s.host (s.host.subscribe
    ⟨topic, name, some policy.maxDeliveries⟩).2 := .subscribed _
  unfold startConsumer
  split
  · rfl
  · split
    next e host hs =>
      rw [hs] at subscribed
      exact .single (.onHost subscribed)
    next i host hs =>
      rw [hs] at subscribed
      exact .head (.onHost subscribed) (.single (.addedConsumer _))

end System

namespace Script

/-- The parts that a step touches. -/
def Step.touches : Step → Part → Bool
  | .receive .., .deliveries | .ack _, .deliveries | .nack .., .deliveries
  | .terminate _, .deliveries | .drop .delivery _, .deliveries => true
  | .makeQueue .., .queues | .dequeue _, .queues | .dropReceiver _, .queues
  | .openPublisher .., .queues | .drop .queue _, .queues | .abort _, .queues => true
  | .publish .., .calls | .enqueue .., .calls | .submit .., .calls | .wait .., .calls
  | .waitForAck .., .calls | .close _, .calls | .abort _, .calls => true
  | _, _ => false

namespace Session

/-- The system is changed in pieces, and the names of deliveries only where that is allowed. -/
structure Made (may : Part → Bool) (x y : Session) : Prop where
  system : x.system.Pieces may y.system
  deliveries : ¬may .deliveries → y.deliveries = x.deliveries

variable {may : Part → Bool} {x y z : Session}

namespace Made

theorem refl (x : Session) : Made may x x := ⟨.refl, fun _ => rfl⟩

theorem trans (h : Made may x y) (k : Made may y z) : Made may x z :=
  ⟨h.system.trans k.system, fun none => (k.deliveries none).trans (h.deliveries none)⟩

theorem of_piece (piece : x.system.Piece may y.system) (same : y.deliveries = x.deliveries) :
    Made may x y :=
  ⟨.single piece, fun _ => same⟩

theorem of_host {h : Host} (piece : Host.Piece may x.system.host h) :
    Made may x (x.onHost fun _ => h) :=
  of_piece (.onHost piece) rfl

/-- Names are given out or taken back. -/
theorem rename (h : Made may x y) (system : z.system = y.system)
    (deliveries : ¬may .deliveries → z.deliveries = y.deliveries) : Made may x z :=
  ⟨system ▸ h.system, fun none => (deliveries none).trans (h.deliveries none)⟩

end Made

variable (x : Session)

/-! ## Dropping objects -/

theorem made_dropSubscription (id : String) : Made may x (x.dropSubscription id) := by
  unfold dropSubscription
  split
  · exact .refl x
  next i _ => exact .of_piece (.onHost (.stopped i)) rfl

theorem made_dropDelivery (deliveries : may .deliveries) (id : String) :
    Made may x (x.dropDelivery id) := by
  unfold dropDelivery
  split
  · exact .refl x
  next i d _ => exact ⟨.single (.onHost (.released i d deliveries)), absurd deliveries⟩

theorem made_dropPublisher (id : String) : Made may x (x.dropPublisher id) := by
  unfold dropPublisher
  split
  · exact .refl x
  next i _ => exact .of_piece (.droppedPublisher i) rfl

theorem made_dropCorrelator (id : String) : Made may x (x.dropCorrelator id) := by
  unfold dropCorrelator
  split
  · exact .refl x
  next i _ => exact .of_piece (.droppedCorrelator i) rfl

theorem made_dropWaiter (id : String) : Made may x (x.dropWaiter id) := by
  unfold dropWaiter
  split
  · exact .refl x
  next handle _ => exact .of_piece (.droppedWaiter handle) rfl

theorem made_dropQueue (queues : may .queues) (id : String) : Made may x (x.dropQueue id) := by
  unfold dropQueue
  split
  · exact .refl x
  next i _ => exact .of_piece (.droppedQueue i queues) rfl

/-! ## Steps of several pieces -/

theorem made_call (calls : may .calls) (owner : Owner) (φ : Call.Phase) :
    Made may x (x.call owner φ).2 :=
  .of_piece (.started owner φ calls) rfl

theorem made_subscribe (id : String) (config : SubscriptionConfig) :
    Made may x (x.subscribe id config).2 := by
  have subscribed : Made may x (x.onHost fun _ => (x.system.host.subscribe config).2) :=
    .of_host (.subscribed config)
  unfold subscribe
  split
  next e host hs => rwa [hs] at subscribed
  next i host hs =>
    rw [hs] at subscribed
    exact (subscribed.trans (made_dropSubscription _ id)).rename rfl fun _ => rfl

theorem made_receive (deliveries : may .deliveries) (subscription delivery : String) :
    Made may x (x.receive subscription delivery).2 := by
  have begun : Made may x (x.onHost fun _ => x.system.host.beginReceive.2) :=
    .of_host (.begun deliveries)
  unfold receive
  split
  · exact .refl x
  next i _ =>
    split
    next e host hb => rwa [hb] at begun
    next host hb =>
      rw [hb] at begun
      split
      next d host' ht =>
        have taken : Made may (x.onHost fun _ => host) (x.onHost fun _ => host') :=
          .of_host (.taken deliveries ht)
        exact ((begun.trans taken).trans (made_dropDelivery _ deliveries delivery)).rename rfl
          (absurd deliveries)
      · exact .refl x

theorem made_settle (deliveries : may .deliveries) (delivery : String)
    {act : Host → Nat → Delivery → Except TransportError Unit × Host}
    (piece : ∀ h i d, Host.Piece may h (act h i d).2) : Made may x (x.settle delivery act).2 := by
  unfold settle
  split
  · exact .refl x
  next i d _ =>
    have settled := Made.of_host (x := x) (piece x.system.host i d)
    dsimp only
    split <;> exact settled.rename rfl (absurd deliveries)

theorem made_makeQueue (queues : may .queues) (id : String) (capacity : Nat)
    (timeout : Duration) : Made may x (x.makeQueue id capacity timeout).2 := by
  unfold makeQueue
  split
  · exact .refl x
  · let made := x.onSystem fun s => (s.addQueue (.ofCapacity capacity timeout)).2
    have added : Made may x made := .of_piece (.addedQueue _ queues) rfl
    exact (added.trans (made.made_dropQueue queues id)).rename rfl fun _ => rfl

theorem made_dequeue (queues : may .queues) (queue : String) :
    Made may x (x.dequeue queue).2 := by
  unfold dequeue
  split
  · exact .refl x
  next i q hq =>
    obtain ⟨j, -, hj⟩ := Option.bind_eq_some_iff.mp hq
    obtain ⟨q', found, same⟩ := Option.map_eq_some_iff.mp hj
    obtain ⟨rfl, rfl⟩ := Prod.mk.inj same
    split
    next item r ht => exact .of_piece (.received queues found ht) rfl
    · exact .refl x

theorem made_openPublisher (queues : may .queues) (id : String) (config : DispatchConfig) :
    Made may x (x.openPublisher id config).2 := by
  have opened := x.system.pieces_openPublisher queues config
  unfold openPublisher
  split
  next e system hs =>
    rw [hs] at opened
    exact ⟨opened, fun _ => rfl⟩
  next system hs =>
    rw [hs] at opened
    exact ⟨opened, fun _ => rfl⟩
  next i system hs =>
    rw [hs] at opened
    have made : Made may x { x with system } := ⟨opened, fun _ => rfl⟩
    exact (made.trans (made_dropPublisher _ id)).rename rfl fun _ => rfl

theorem made_startCorrelator (id : String) (subscription : SubscriptionConfig)
    (timeout unmatchedDelay : Duration) :
    Made may x (x.startCorrelator id subscription timeout unmatchedDelay).2 := by
  have started : x.system.Pieces may _ :=
    x.system.pieces_startCorrelator subscription timeout unmatchedDelay
  unfold startCorrelator
  split
  next e system hs =>
    rw [hs] at started
    exact ⟨started, fun _ => rfl⟩
  next i system hs =>
    rw [hs] at started
    have made : Made may x { x with system } := ⟨started, fun _ => rfl⟩
    exact (made.trans (made_dropCorrelator _ id)).rename rfl fun _ => rfl

theorem made_startConsumer (id topic name : String) (policy : Option DeadLetterPolicy)
    (plan : HandlerPlan) : Made may x (x.startConsumer id topic name policy plan).2 := by
  have started : x.system.Pieces may _ := x.system.pieces_startConsumer topic name
    (policy.getD (.ofTopic topic)) plan.handler
  unfold startConsumer
  split
  next e system hs =>
    rw [hs] at started
    exact ⟨started, fun _ => rfl⟩
  next i system hs =>
    rw [hs] at started
    exact ⟨started, fun _ => rfl⟩

theorem made_serve (id topic name : String) (policy : DeadLetterPolicy) (handler : Handler) :
    Made may x (x.serve id topic name policy handler) := by
  have started : x.system.Pieces may _ :=
    x.system.pieces_startConsumer topic name policy handler
  unfold serve
  split
  next e system hs =>
    rw [hs] at started
    exact ⟨started, fun _ => rfl⟩
  next i system hs =>
    rw [hs] at started
    exact ⟨started, fun _ => rfl⟩

theorem made_register (target : String) (event : ChangeEvent) (waiter : String) :
    Made may x (x.register target event waiter).2 := by
  unfold register
  split
  · exact .refl x
  next owner c _ =>
    have registered : x.system.Piece may (x.system.register c event).2 := .registered c event
    split
    next e system hr =>
      rw [hr] at registered
      exact .of_piece registered rfl
    next handle system hr =>
      rw [hr] at registered
      have made : Made may x { x with system } := .of_piece registered rfl
      exact (made.trans (made_dropWaiter _ waiter)).rename rfl fun _ => rfl

/-! ## All steps -/

/-- Every step is made of pieces that touch what it may touch. -/
theorem made_perform {step : Step} (allowed : x.allows step) :
    Made step.touches x (x.perform step).2 := by
  cases step with
  | advance ms => cases allowed
  | failPublishes | failReceives | failSubscriptions | setFaults =>
    exact .of_piece (.onHost (.set _ _ _ _)) rfl
  | inject topic payload => exact .of_piece (.onHost (.injected topic payload)) rfl
  | publish topic payload => exact x.made_call (by rfl) _ _
  | published | subscriberCount => exact .refl x
  | closeBroker =>
    have closed : Made Step.closeBroker.touches x (x.onHost fun _ => x.system.host.close.2) :=
      .of_host .closed
    unfold perform
    dsimp only
    split
    next host hc => rwa [hc] at closed
    next e host hc => rwa [hc] at closed
  | subscribe id config => exact x.made_subscribe id config
  | receive subscription delivery => exact x.made_receive (by rfl) subscription delivery
  | ack delivery => exact x.made_settle (by rfl) delivery fun h i d => .acked i d (by rfl)
  | nack delivery delay => exact x.made_settle (by rfl) delivery fun h i d => .nacked i d delay (by rfl)
  | terminate delivery => exact x.made_settle (by rfl) delivery fun h i d => .terminated i d (by rfl)
  | makeQueue id capacity timeout => exact x.made_makeQueue (by rfl) id capacity timeout
  | enqueue | waitForAck =>
    unfold perform
    dsimp only
    split
    · exact .refl x
    · exact x.made_call (by rfl) _ _
  | dequeue queue => exact x.made_dequeue (by rfl) queue
  | closeQueue queue =>
    unfold perform
    dsimp only
    split
    · exact .refl x
    next i q _ => exact .of_piece (.closedQueue i) rfl
  | dropReceiver queue =>
    unfold perform
    dsimp only
    split
    · exact .refl x
    next i _ => exact .of_piece (.stoppedQueue i rfl) rfl
  | openPublisher id config => exact x.made_openPublisher (by rfl) id config
  | openRemote | seen =>
    unfold perform
    dsimp only
    split <;> exact .refl x
  | startCorrelator id subscription timeout unmatchedDelay =>
    exact x.made_startCorrelator id subscription timeout unmatchedDelay
  | submit target event =>
    unfold perform submit
    dsimp only
    split
    · exact x.made_call (by rfl) _ _
    · exact .refl x
  | register target event waiter => exact x.made_register target event waiter
  | wait waiter token =>
    unfold perform wait
    dsimp only
    split
    · exact .refl x
    next handle _ => exact .of_piece (.started .none (.awaiting handle _) rfl) rfl
  | makeToken id => exact .of_piece .addedToken rfl
  | cancel token =>
    unfold perform
    dsimp only
    split
    · exact .refl x
    next i _ => exact .of_piece (.firedToken i) rfl
  | close target =>
    unfold perform close
    dsimp only
    split
    · exact x.made_call (by rfl) _ _
    · split
      · exact x.made_call (by rfl) _ _
      · exact .refl x
  | abort step =>
    unfold perform abort
    dsimp only
    split
    · exact .refl x
    next n _ => exact .of_piece (.aborted n rfl rfl) rfl
  | startConsumer id topic name policy plan =>
    exact x.made_startConsumer id topic name policy plan
  | stopConsumer consumer =>
    unfold perform
    dsimp only
    split
    · exact .refl x
    next i _ => exact .of_piece (.stoppedConsumer i) rfl
  | drop kind id =>
    cases kind with
    | subscription => exact x.made_dropSubscription id
    | delivery => exact x.made_dropDelivery (by rfl) id
    | publisher => exact x.made_dropPublisher id
    | correlator => exact x.made_dropCorrelator id
    | waiter => exact x.made_dropWaiter id
    | queue => exact x.made_dropQueue (by rfl) id

end Session

end Script

end ChangeDispatch
