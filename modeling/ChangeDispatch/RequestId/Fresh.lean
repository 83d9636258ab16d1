import ChangeDispatch.RequestId.Basic

/-!
# Fresh identifiers

An identifier of version 7 holds the milliseconds since the epoch, the version, and bits
that tell apart the identifiers of one millisecond.
-/
namespace ChangeDispatch.RequestId

/-- The identifier of version 7 for a millisecond and the number `serial` within it. -/
def ofSerial (millis serial : Nat) : RequestId :=
  ofNat (millis % Nat.pow 2 48 * Nat.pow 2 80 + 7 * Nat.pow 2 76
    + serial / Nat.pow 2 62 % Nat.pow 2 12 * Nat.pow 2 64 + Nat.pow 2 63
    + serial % Nat.pow 2 62)

end ChangeDispatch.RequestId
