import ChangeDispatch.Json.Text

/-!
# Passing over a value

The value of an unknown field is checked against the grammar and not kept. The open
brackets around the current place are a stack, so the depth is not limited. Every step
takes at least one byte, which bounds the number of steps by the length of the document.
-/
namespace ChangeDispatch.Json.Skip

inductive Bracket where
  | list
  | object
  deriving DecidableEq, Repr

def Bracket.closing : Bracket → UInt8
  | list => 0x5d
  | object => 0x7d

/-- The problem of a document that ends inside the bracket. -/
def Bracket.unclosed : Bracket → Problem
  | list => .endInList
  | object => .endInObject

/-- The problem of a byte that neither continues nor closes the bracket. -/
def Bracket.expectedEnd : Bracket → Problem
  | list => .expectedListEnd
  | object => .expectedObjectEnd

/-- A key of an object and its colon. -/
def key : Reader Unit := fun bs =>
  match skipSpace bs with
  | [] => .error .endInObject
  | b :: rest =>
    if b = Text.quotationMark then do
      let ((), rest) ← Text.skip rest
      colon rest
    else .error .keyNotString

/-- What stands before the next value inside a bracket: nothing, or a key. -/
def entry : Bracket → Reader Unit
  | .list => fun bs => .ok ((), bs)
  | .object => key

/-- A value that holds no other, or the bracket that opens one. -/
def leaf : Bytes → Except Problem (Option Bracket × Bytes)
  | [] => .error .endInValue
  | b :: rest =>
    if b = 0x6e then (expectWord ull rest).map fun (_, r) => (none, r)
    else if b = 0x74 then (expectWord rue rest).map fun (_, r) => (none, r)
    else if b = 0x66 then (expectWord alse rest).map fun (_, r) => (none, r)
    else if b = 0x2d then (Number.skip rest).map fun (_, r) => (none, r)
    else if isDigit b then (Number.skip (b :: rest)).map fun (_, r) => (none, r)
    else if b = Text.quotationMark then (Text.skip rest).map fun (_, r) => (none, r)
    else if b = 0x5b then .ok (some .list, rest)
    else if b = 0x7b then .ok (some .object, rest)
    else .error .expectedValue

mutual

/-- Pass over a value and over what follows it inside the open brackets. -/
def value : Nat → List Bracket → Reader Unit
  | 0, _ => fun _ => .error .endInValue
  | fuel + 1, open_ => fun bs => do
    match ← leaf (skipSpace bs) with
    | (none, rest) => after fuel open_ rest
    | (some bracket, rest) =>
      match skipSpace rest with
      | [] => throw bracket.unclosed
      | b :: inside =>
        if b = bracket.closing then after fuel open_ inside
        else do
          let ((), rest) ← entry bracket (b :: inside)
          value fuel (bracket :: open_) rest

/-- After a value: the end of the innermost bracket, or a comma and the next value. -/
def after : Nat → List Bracket → Reader Unit
  | 0, _ => fun _ => .error .endInValue
  | _ + 1, [] => fun bs => .ok ((), bs)
  | fuel + 1, bracket :: open_ => fun bs =>
    match skipSpace bs with
    | [] => .error bracket.unclosed
    | b :: rest =>
      if b = 0x2c then do
        let ((), rest) ← entry bracket rest
        value fuel (bracket :: open_) rest
      else if b = bracket.closing then after fuel open_ rest
      else .error bracket.expectedEnd

end

/-- Pass over one value. -/
def any : Reader Unit := fun bs => value (2 * bs.length + 2) [] bs

end ChangeDispatch.Json.Skip
