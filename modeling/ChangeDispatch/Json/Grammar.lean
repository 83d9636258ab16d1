import ChangeDispatch.Json.Record

/-!
# Documents of any shape

The grammar of a document whose value is kept in full: its strings are well formed, its
numbers in range, and its brackets nested no deeper than a limit.
-/
namespace ChangeDispatch.Json.Grammar

/-- How many brackets may be open at once, and one more. -/
def depthLimit : Nat := 128

/-- A value that holds no other, or its opening bracket. -/
def leaf : Bytes → Except Problem (Option Skip.Bracket × Bytes)
  | [] => .error .endInValue
  | b :: rest =>
    if b = 0x6e then (expectWord ull rest).map fun (_, r) => (none, r)
    else if b = 0x74 then (expectWord rue rest).map fun (_, r) => (none, r)
    else if b = 0x66 then (expectWord alse rest).map fun (_, r) => (none, r)
    else if b = 0x2d then (Number.unsigned false rest).map fun (_, r) => (none, r)
    else if isDigit b then (Number.unsigned true (b :: rest)).map fun (_, r) => (none, r)
    else if b = Text.quotationMark then (Text.read rest).map fun (_, r) => (none, r)
    else if b = 0x5b then .ok (some .list, rest)
    else if b = 0x7b then .ok (some .object, rest)
    else .error .expectedValue

mutual

/-- A value inside `depth` brackets. -/
def value : Nat → Nat → Reader Unit
  | 0, _ => fun _ => .error .endInValue
  | fuel + 1, depth => fun bs => do
    match ← leaf (skipSpace bs) with
    | (none, rest) => return ((), rest)
    | (some bracket, rest) =>
      if depth + 1 = depthLimit then throw .nestedTooDeep
      match bracket with
      | .list => elements fuel (depth + 1) true rest
      | .object => members fuel (depth + 1) true rest

def elements : Nat → Nat → Bool → Reader Unit
  | 0, _, _ => fun _ => .error .endInList
  | fuel + 1, depth, first => fun bs => do
    match ← Shape.nextElement first bs with
    | (true, rest) =>
      let ((), rest) ← value fuel depth rest
      elements fuel depth false rest
    | (false, rest) => Shape.listEnd rest

def members : Nat → Nat → Bool → Reader Unit
  | 0, _, _ => fun _ => .error .endInObject
  | fuel + 1, depth, first => fun bs => do
    match ← Shape.nextKey first bs with
    | (none, rest) => return ((), rest)
    | (some _, rest) =>
      let ((), rest) ← colon rest
      let ((), rest) ← value fuel depth rest
      members fuel depth false rest

end

/-- The first problem of a document, if it has one. -/
def problem? (bs : Bytes) : Option Problem :=
  match document (value (2 * bs.length + 2) 0) bs with
  | .ok () => none
  | .error problem => some problem

end ChangeDispatch.Json.Grammar
