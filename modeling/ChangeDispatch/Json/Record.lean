import ChangeDispatch.Json.Skip

/-!
# Values of a known shape

Readers for the values that the fields of a record may have, and for records. A record
is an object, whose unknown keys are passed over and whose known keys may stand once
each and in any order, or a list, whose elements are the fields in the order of their
declaration.
-/
namespace ChangeDispatch.Json

/-- What stands at the start of some bytes, read as far as a message has to show it. -/
def unexpected : Bytes → Except Problem Unexpected
  | [] => .error .endInValue
  | b :: rest =>
    if b = 0x6e then (expectWord ull rest).map fun _ => .null
    else if b = 0x74 then (expectWord rue rest).map fun _ => .boolean true
    else if b = 0x66 then (expectWord alse rest).map fun _ => .boolean false
    else if b = 0x2d then (Number.unsigned false rest).map fun (n, _) => n.unexpected
    else if isDigit b then (Number.unsigned true (b :: rest)).map fun (n, _) => n.unexpected
    else if b = Text.quotationMark then (Text.read rest).map fun (s, _) => .text s
    else if b = 0x5b then .ok .sequence
    else if b = 0x7b then .ok .map
    else .error .expectedValue

/-- The problem of some bytes that hold no `expected`. -/
def mismatch (expected : String) (bs : Bytes) : Problem :=
  match unexpected bs with
  | .ok found => .invalidType found expected
  | .error problem => problem

/-- A string that `interpret` gives a meaning. -/
def interpreted {α : Type} (expected : String) (interpret : String → Except Problem α) :
    Reader α := fun bs =>
  match skipSpace bs with
  | [] => .error .endInValue
  | b :: rest =>
    if b = Text.quotationMark then do
      let (s, rest) ← Text.read rest
      let value ← interpret s
      return (value, rest)
    else .error (mismatch expected (b :: rest))

/-- Any string. -/
def string : Reader String := interpreted "a string" .ok

/-- A value or `null`. -/
def optional {α : Type} (read : Reader α) : Reader (Option α) := fun bs =>
  match skipSpace bs with
  | b :: rest =>
    if b = 0x6e then (expectWord ull rest).map fun (_, rest) => (none, rest)
    else (read (b :: rest)).map fun (value, rest) => (some value, rest)
  | [] => (read []).map fun (value, rest) => (some value, rest)

/-- An unsigned 64-bit number. -/
def natural : Reader Nat := fun bs =>
  match skipSpace bs with
  | [] => .error .endInValue
  | b :: rest =>
    if b = 0x2d ∨ isDigit b then do
      match ← Number.read (b :: rest) with
      | (.natural n, rest) => return (n, rest)
      | (.negative n, _) => throw (.invalidValue (.integer (-n)) "u64")
      | (n, _) => throw (.invalidType n.unexpected "u64")
    else .error (mismatch "u64" (b :: rest))

/-- The value `null`. -/
def null : Reader Unit := fun bs =>
  match skipSpace bs with
  | [] => .error .endInValue
  | b :: rest =>
    if b = 0x6e then expectWord ull rest else .error (mismatch "unit" (b :: rest))

/-- One of a set of names: a string, or an object with that one key and the value `null`. -/
def variant {α : Type} (choose : String → Except Problem α) : Reader α := fun bs =>
  match skipSpace bs with
  | [] => .error .endInValue
  | b :: rest =>
    if b = Text.quotationMark then interpreted "variant identifier" choose (b :: rest)
    else if b = 0x7b then do
      let (value, rest) ← interpreted "variant identifier" choose rest
      let ((), rest) ← colon rest
      let ((), rest) ← null rest
      match skipSpace rest with
      | [] => throw .endInObject
      | b :: rest => if b = 0x7d then return (value, rest) else throw .expectedValue
    else .error .expectedValue

/-- A field of a record whose fields are gathered in a draft. -/
structure RecordField (Draft : Type) where
  name : String
  required : Bool
  isSet : Draft → Bool
  /-- Read the value and put it into the draft. -/
  read : Draft → Reader Draft

/-- The fields of a record in the order of their declaration. -/
structure Shape (Draft α : Type) where
  name : String
  fields : List (RecordField Draft)
  start : Draft
  /-- The record, or its first missing field. -/
  finish : Draft → Except Problem α

namespace Shape

variable {Draft α : Type}

/-- The shape in messages. -/
def expected (shape : Shape Draft α) : String := s!"struct " ++ shape.name

/-- The shape in messages about the number of elements. -/
def expectedSize (shape : Shape Draft α) : String :=
  shape.expected ++ s!" with " ++ toString shape.fields.length ++ s!" elements"

/-- The next key of an object, or `none` at its end. -/
def nextKey (first : Bool) : Reader (Option String) := fun bs =>
  match skipSpace bs with
  | [] => .error .endInObject
  | b :: rest =>
    if b = 0x7d then .ok (none, rest)
    else if b = 0x2c ∧ ¬ first then
      match skipSpace rest with
      | [] => .error .endInValue
      | c :: rest =>
        if c = Text.quotationMark then (Text.read rest).map fun (s, rest) => (some s, rest)
        else if c = 0x7d then .error .trailingComma
        else .error .keyNotString
    else if first then
      if b = Text.quotationMark then (Text.read rest).map fun (s, rest) => (some s, rest)
      else .error .keyNotString
    else .error .expectedObjectEnd

/-- The value of the key `key`: of a field, which goes into the draft, or an unknown one. -/
def member (shape : Shape Draft α) (key : String) (draft : Draft) : Reader Draft := fun bs =>
  match shape.fields.find? (fun field => field.name == key) with
  | some field =>
    if field.isSet draft then .error (.duplicateField field.name)
    else do
      let ((), rest) ← colon bs
      field.read draft rest
  | none => do
    let ((), rest) ← colon bs
    let ((), rest) ← Skip.any rest
    return (draft, rest)

/-- The members of an object up to its closing brace. -/
def members (shape : Shape Draft α) : Nat → Bool → Draft → Reader α
  | 0, _, _ => fun _ => .error .endInObject
  | fuel + 1, first, draft => fun bs => do
    match ← nextKey first bs with
    | (none, rest) =>
      let value ← shape.finish draft
      return (value, rest)
    | (some key, rest) =>
      let (draft, rest) ← shape.member key draft rest
      shape.members fuel false draft rest

/-- Whether a list has another element, and the bytes from which it is read. -/
def nextElement (first : Bool) : Reader Bool := fun bs =>
  match skipSpace bs with
  | [] => .error .endInList
  | b :: rest =>
    if b = 0x5d then .ok (false, b :: rest)
    else if b = 0x2c ∧ ¬ first then
      match skipSpace rest with
      | [] => .error .endInValue
      | c :: rest => if c = 0x5d then .error .trailingComma else .ok (true, c :: rest)
    else if first then .ok (true, b :: rest)
    else .error .expectedListEnd

/-- The elements of a list, one for each of the fields. -/
def elements (shape : Shape Draft α) : Nat → List (RecordField Draft) → Draft → Reader Draft
  | _, [], draft => fun bs => .ok (draft, bs)
  | index, field :: fields, draft => fun bs => do
    match ← nextElement (index == 0) bs with
    | (true, rest) =>
      let (draft, rest) ← field.read draft rest
      shape.elements (index + 1) fields draft rest
    | (false, rest) =>
      if field.required then throw (.invalidLength index shape.expectedSize)
      else shape.elements (index + 1) fields draft rest

/-- The closing bracket of a list. -/
def listEnd : Reader Unit := fun bs =>
  match skipSpace bs with
  | [] => .error .endInList
  | b :: rest =>
    if b = 0x5d then .ok ((), rest)
    else if b = 0x2c then
      match skipSpace rest with
      | c :: _ => if c = 0x5d then .error .trailingComma else .error .trailingCharacters
      | [] => .error .trailingCharacters
    else .error .trailingCharacters

/-- A record. -/
def read (shape : Shape Draft α) : Reader α := fun bs =>
  match skipSpace bs with
  | [] => .error .endInValue
  | b :: rest =>
    if b = 0x7b then shape.members (rest.length + 1) true shape.start rest
    else if b = 0x5b then do
      let (draft, rest) ← shape.elements 0 shape.fields shape.start rest
      let value ← shape.finish draft
      let ((), rest) ← listEnd rest
      return (value, rest)
    else .error (mismatch shape.expected (b :: rest))

end Shape

/-- The value of a field that has to be there. -/
def field {α : Type} (name : String) : Option α → Except Problem α
  | some value => .ok value
  | none => .error (.missingField name)

/-- A document that holds one value. -/
def document {α : Type} (read : Reader α) (bs : Bytes) : Except Problem α := do
  let (value, rest) ← read bs
  if (skipSpace rest).isEmpty then return value else throw .trailingCharacters

/-- The comma-separated members of an object, from those that are there. -/
def writeMembers : List (String × Bytes) → Bytes
  | [] => []
  | [(key, value)] => Text.write key ++ 0x3a :: value
  | (key, value) :: rest => Text.write key ++ 0x3a :: (value ++ 0x2c :: writeMembers rest)

/-- An object of the members that are there. -/
def writeObject (members : List (Option (String × Bytes))) : Bytes :=
  0x7b :: (writeMembers (members.filterMap id) ++ [0x7d])

/-- A number in decimal. -/
def writeNatural (n : Nat) : Bytes := utf8 (toString n)

/-- A member that is always there. -/
def always (key : String) (value : Bytes) : Option (String × Bytes) := some (key, value)

/-- A member that is there if its value is. -/
def whenSome {α : Type} (key : String) (write : α → Bytes) (value : Option α) :
    Option (String × Bytes) :=
  value.map fun v => (key, write v)

end ChangeDispatch.Json
