import ChangeDispatch.RequestId.Basic

/-!
# Reading an identifier

Four spellings are read: 32 hexadecimal digits, the five groups joined by hyphens, those
in braces, and those after `urn:uuid:`. Digits and the word before them may be in either
case. A text that is none of these is diagnosed: its first foreign character, or else
the number of its groups, or else the first group of a wrong length.
-/
namespace ChangeDispatch.RequestId

/-- Why a text is no identifier. -/
inductive Defect where
  | character (found : Char) (byte : Nat)
  | length (found : Nat)
  | groupCount (found : Nat)
  | groupLength (group expected found : Nat)
  deriving DecidableEq, Repr

def Defect.message : Defect → String
  | character found byte => s!"invalid character: found `{found}` at {byte}"
  | length found => s!"invalid length: found {found}"
  | groupCount found => s!"invalid group count: expected 5, found {found}"
  | groupLength group expected found =>
      s!"invalid group length in group {group}: expected {expected}, found {found}"

/-- The value of a hexadecimal digit in either case. -/
def hexValue? (c : Char) : Option Nat :=
  if '0' ≤ c ∧ c ≤ '9' then some (c.toNat - '0'.toNat)
  else if 'a' ≤ c ∧ c ≤ 'f' then some (c.toNat - 'a'.toNat + 10)
  else if 'A' ≤ c ∧ c ≤ 'F' then some (c.toNat - 'A'.toNat + 10)
  else none

/-- Read all of `cs` as hexadecimal digits after the digits read so far. -/
def hexFrom (value : Nat) : List Char → Option Nat
  | [] => some value
  | c :: cs => (hexValue? c).bind fun d => hexFrom (16 * value + d) cs

/-- Exactly 32 hexadecimal digits. -/
def readPlain (cs : List Char) : Option RequestId :=
  if cs.length = 32 then (hexFrom 0 cs).map ofNat else none

/-- Take hyphens away where the groups meet; `none` if one is missing. -/
def ungrouped : List Nat → List Char → Option (List Char)
  | [], cs => if cs.isEmpty then some [] else none
  | [size], cs => if cs.length = size then some cs else none
  | size :: sizes, cs =>
    match cs.drop size with
    | '-' :: rest => (ungrouped sizes rest).map (cs.take size ++ ·)
    | _ => none

/-- The five groups joined by hyphens. -/
def readGrouped (cs : List Char) : Option RequestId :=
  (ungrouped groupSizes cs).bind readPlain

/-- The text inside braces, if it stands in braces. -/
def inBraces? : List Char → Option (List Char)
  | '\x7b' :: rest => if rest.getLast? = some '\x7d' then some rest.dropLast else none
  | _ => none

def urnMark : List Char := "urn:uuid:".toList

/-- The text after `urn:uuid:` in any case, if that stands first. -/
def afterUrn? (cs : List Char) : Option (List Char) :=
  if (cs.take urnMark.length).map Char.toLower = urnMark then some (cs.drop urnMark.length)
  else none

def byteLength (cs : List Char) : Nat := (String.ofList cs).utf8ByteSize

/-- The first character that is neither a hexadecimal digit nor a hyphen, with the byte
at which it stands, counted from `start`. -/
def foreign? (start : Nat) : List Char → Option (Char × Nat)
  | [] => none
  | c :: cs =>
    if c = '-' ∨ (hexValue? c).isSome then foreign? (start + c.utf8Size) cs else some (c, start)

/-- The positions of the hyphens, counted from `start`. -/
def hyphens (start : Nat) : List Char → List Nat
  | [] => []
  | c :: cs => if c = '-' then start :: hyphens (start + 1) cs else hyphens (start + 1) cs

/-- Where each group starts, and how long it is. -/
def groupStarts : List (Nat × Nat) := [(0, 8), (9, 4), (14, 4), (19, 4)]

/-- The first of the first four groups that does not end at its hyphen. -/
def wrongGroup? (group : Nat) : List (Nat × Nat) → List Nat → Option Defect
  | (start, size) :: starts, hyphen :: hyphens =>
    if hyphen ≠ start + size then some (.groupLength group size (hyphen - start))
    else wrongGroup? (group + 1) starts hyphens
  | _, _ => none

/-- Why `cs`, which is no identifier, is none. -/
def diagnose (cs : List Char) : Defect :=
  if 45 < byteLength cs then .length (byteLength cs)
  else
    let (plain, inner, start) := match inBraces? cs, afterUrn? cs with
      | some inner, _ => (false, inner, 1)
      | none, some inner => (false, inner, urnMark.length)
      | none, none => (true, cs, 0)
    match foreign? start inner with
    | some (c, byte) => .character c byte
    | none =>
      let hyphens := hyphens 0 inner
      if plain ∧ hyphens.isEmpty then .length (byteLength cs)
      else if hyphens.length ≠ 4 then .groupCount (hyphens.length + 1)
      else (wrongGroup? 0 groupStarts hyphens).getD (.groupLength 4 12 (byteLength cs - 24))

/-- The groups that `cs` holds if it has the size of an identifier in groups, in braces
or after `urn:uuid:`. -/
def groupedPart? (cs : List Char) : Option (List Char) :=
  match byteLength cs with
  | 36 => some cs
  | 38 => inBraces? cs
  | 45 => afterUrn? cs
  | _ => none

def readChars (cs : List Char) : Except Defect RequestId :=
  if byteLength cs = 32 then
    match readPlain cs with
    | some id => .ok id
    | none => .error (diagnose cs)
  else match groupedPart? cs with
    | none => .error (diagnose cs)
    | some part =>
      match readGrouped part with
      | some id => .ok id
      | none => .error (diagnose part)

/-- The identifier that a text gives. -/
def read (s : String) : Except Defect RequestId := readChars s.toList

end ChangeDispatch.RequestId
