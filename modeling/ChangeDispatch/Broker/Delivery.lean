import ChangeDispatch.Json.Bytes

/-!
# Deliveries and subscriptions

A subscription offers each message of its topic. A message is at one place at a time:
in the channel, held by the receiver, or held back by the broker until a timer is due.
Every offer of a message has a number, the first being 1; a message that is handed back
is offered again with the next number, up to the bound of the subscription.

Numbers have 32 bits, and so has a bound. Arithmetic is checked: without a bound, to hand
back the offer with the last number of 32 bits is an overflow, at which the call panics
after it was counted, so the message is not offered again. That the task which made the
call goes down with it is left out, and so is a build without such checks, in which the
next number is 0.
-/
namespace ChangeDispatch

abbrev Payload := Json.Bytes

/-- A moment at which something falls due. Of two timers for the same moment the one set
earlier, with the lower serial number, goes off first. -/
structure Timer where
  due : Nat
  serial : Nat
  deriving DecidableEq, Repr

/-- One offer of a message. -/
structure Delivery where
  /-- Tells the message from all others of the broker. -/
  message : Nat
  payload : Payload
  /-- How often the message has been offered, this offer included. -/
  number : Nat
  deriving DecidableEq, Repr

/-- The largest number of 32 bits. -/
def Delivery.lastNumber : Nat := UInt32.size - 1

/-- The next offer of the same message. -/
def Delivery.again (d : Delivery) : Delivery := { d with number := d.number + 1 }

/-- What a subscription is asked to be. -/
structure SubscriptionConfig where
  topic : String
  name : String
  /-- How often a message is offered at most; without a bound if absent, as far as numbers go. -/
  maxDeliveries : Option Nat := none
  deriving DecidableEq, Repr

structure Subscription extends SubscriptionConfig where
  /-- The broker adds messages of the topic. -/
  attached : Bool := true
  /-- Somebody can still receive. -/
  receiving : Bool := true
  /-- Offers that wait to be received, the oldest first. -/
  channel : List Delivery := []
  /-- Offers that were received and not yet settled. -/
  held : List Delivery := []
  /-- Offers that are held back until a timer is due. -/
  delayed : List (Timer × Delivery) := []
  deriving DecidableEq, Repr

/-- The offer in a few words, without its payload. -/
def Delivery.summary (d : Delivery) : String :=
  "Delivery \x7b payload_size: " ++ toString d.payload.length ++ ", delivered: "
    ++ toString d.number ++ " \x7d"

namespace Subscription

/-- Put an offer at the end of the channel; without a receiver it is lost. -/
def arrive (s : Subscription) (d : Delivery) : Subscription :=
  if s.receiving then { s with channel := s.channel ++ [d] } else s

/-- Receive the oldest offer. -/
def take? (s : Subscription) : Option (Delivery × Subscription) :=
  match s.channel with
  | [] => none
  | d :: channel => some (d, { s with channel, held := s.held ++ [d] })

/-- Nothing can arrive any more. -/
def isEnded (s : Subscription) : Bool :=
  !s.attached && s.channel.isEmpty && s.held.isEmpty && s.delayed.isEmpty

/-- Let go of a held offer. -/
def release (s : Subscription) (d : Delivery) : Subscription :=
  { s with held := s.held.erase d }

/-- The bound allows no further offer, or there is no number for one. -/
def isLast (s : Subscription) (d : Delivery) : Bool :=
  s.maxDeliveries.getD Delivery.lastNumber ≤ d.number

/-- Hand back an offer, to be made again at once or when a timer is due. -/
def handBack (s : Subscription) (d : Delivery) (timer : Option Timer) : Subscription :=
  let s := s.release d
  if s.isLast d then s
  else match timer with
    | some timer => { s with delayed := s.delayed ++ [(timer, d.again)] }
    | none => s.arrive d.again

/-- The offer that a timer holds back. -/
def delayed? (s : Subscription) (serial : Nat) : Option (Timer × Delivery) :=
  s.delayed.find? (fun entry => entry.1.serial == serial)

/-- Make the offer that a timer held back. -/
def offerDelayed (s : Subscription) (entry : Timer × Delivery) : Subscription :=
  { s with delayed := s.delayed.erase entry }.arrive entry.2

/-- The receiver goes away, and with it what waits in the channel. -/
def stopReceiving (s : Subscription) : Subscription :=
  { s with receiving := false, channel := [] }

end Subscription

end ChangeDispatch
