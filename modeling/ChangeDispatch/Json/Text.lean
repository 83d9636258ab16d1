import ChangeDispatch.Json.Number

/-!
# Strings of a document

`content` reads the bytes of a string up to its closing quotation mark and resolves the
escapes, `write` is the other direction. A string that is kept has to be well-formed
Unicode; one that is passed over has to follow the grammar only.
-/
namespace ChangeDispatch.Json.Text

def quotationMark : UInt8 := 0x22
def backslash : UInt8 := 0x5c

/-- The byte that a one-letter escape stands for. -/
def escaped? (b : UInt8) : Option UInt8 :=
  if b = 0x22 ∨ b = 0x5c ∨ b = 0x2f then some b
  else if b = 0x62 then some 0x08
  else if b = 0x66 then some 0x0c
  else if b = 0x6e then some 0x0a
  else if b = 0x72 then some 0x0d
  else if b = 0x74 then some 0x09
  else none

/-- The letter of the escape for a byte that has one of its own. -/
def shortEscape? (b : UInt8) : Option UInt8 :=
  if b = 0x22 ∨ b = 0x5c then some b
  else if b = 0x08 then some 0x62
  else if b = 0x0c then some 0x66
  else if b = 0x0a then some 0x6e
  else if b = 0x0d then some 0x72
  else if b = 0x09 then some 0x74
  else none

def isLeading (n : Nat) : Bool := 0xd800 ≤ n && n ≤ 0xdbff
def isTrailing (n : Nat) : Bool := 0xdc00 ≤ n && n ≤ 0xdfff

/-- The code point of a surrogate pair. -/
def paired (leading trailing : Nat) : Nat :=
  0x10000 + (leading - 0xd800) * 0x400 + (trailing - 0xdc00)

def codePoint (n : Nat) : Bytes := String.utf8EncodeChar (Char.ofNat n)

/-- Put bytes in front of what the rest of a string holds. -/
def prepend (bs : Bytes) : Except Problem (Bytes × Bytes) → Except Problem (Bytes × Bytes)
  | .ok (content, rest) => .ok (bs ++ content, rest)
  | .error problem => .error problem

/-- The bytes of a string up to its closing quotation mark, and what follows that. -/
def content : Bytes → Except Problem (Bytes × Bytes)
  | [] => .error .endInString
  | b :: rest =>
    if b = quotationMark then .ok ([], rest)
    else if b = backslash then
      match rest with
      | [] => .error .endInString
      | e :: rest =>
        match escaped? e with
        | some c => prepend [c] (content rest)
        | none =>
          if e = 0x75 then
            match rest with
            | h1 :: h2 :: h3 :: h4 :: rest =>
              match hex4? h1 h2 h3 h4 with
              | none => .error .invalidEscape
              | some n =>
                if isTrailing n then .error .loneSurrogate
                else if isLeading n then
                  match rest with
                  | [] => .error .endInString
                  | s :: rest =>
                    if s = backslash then
                      match rest with
                      | [] => .error .endInString
                      | u :: rest =>
                        if u = 0x75 then
                          match rest with
                          | g1 :: g2 :: g3 :: g4 :: rest =>
                            match hex4? g1 g2 g3 g4 with
                            | none => .error .invalidEscape
                            | some m =>
                              if isTrailing m then prepend (codePoint (paired n m)) (content rest)
                              else .error .loneSurrogate
                          | _ => .error .endInString
                        else .error .unfinishedSurrogate
                    else .error .unfinishedSurrogate
                else prepend (codePoint n) (content rest)
            | _ => .error .endInString
          else .error .invalidEscape
    else if b < 0x20 then .error .controlCharacter
    else prepend [b] (content rest)

/-- A string after its opening quotation mark. -/
def read : Reader String := fun bs => do
  let (bytes, rest) ← content bs
  match ofUtf8? bytes with
  | some s => return (s, rest)
  | none => throw .invalidUnicode

/-- Pass over a string after its opening quotation mark. -/
def skip : Bytes → Except Problem (Unit × Bytes)
  | [] => .error .endInString
  | b :: rest =>
    if b = quotationMark then .ok ((), rest)
    else if b = backslash then
      match rest with
      | [] => .error .endInString
      | e :: rest =>
        if (escaped? e).isSome then skip rest
        else if e = 0x75 then
          match rest with
          | h1 :: h2 :: h3 :: h4 :: rest =>
            if (hex4? h1 h2 h3 h4).isSome then skip rest else .error .invalidEscape
          | _ => .error .endInString
        else .error .invalidEscape
    else if b < 0x20 then .error .controlCharacter
    else skip rest

/-- The lowercase hexadecimal digit of a number below 16. -/
def hexDigit (n : Nat) : UInt8 := if n < 10 then 0x30 + n.toUInt8 else 0x57 + n.toUInt8

/-- One byte of a string as it is written. -/
def writeByte (b : UInt8) : Bytes :=
  match shortEscape? b with
  | some e => [backslash, e]
  | none =>
    if b < 0x20 then
      [backslash, 0x75, 0x30, 0x30, hexDigit (b.toNat / 16), hexDigit (b.toNat % 16)]
    else [b]

/-- A string between quotation marks. -/
def write (s : String) : Bytes :=
  quotationMark :: ((utf8 s).flatMap writeByte ++ [quotationMark])

end ChangeDispatch.Json.Text
