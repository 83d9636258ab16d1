/-!
# Blank characters

The characters with the Unicode property `White_Space`, and the trimming of text
by them.
-/
namespace ChangeDispatch.Text

/-- The closed ranges of code points with the property `White_Space`. -/
def blankRanges : List (Nat × Nat) :=
  [(0x9, 0xd), (0x20, 0x20), (0x85, 0x85), (0xa0, 0xa0), (0x1680, 0x1680), (0x2000, 0x200a),
   (0x2028, 0x2029), (0x202f, 0x202f), (0x205f, 0x205f), (0x3000, 0x3000)]

def isBlank (c : Char) : Bool :=
  blankRanges.any fun (lo, hi) => lo ≤ c.toNat ∧ c.toNat ≤ hi

/-- Drop the leading blanks. -/
def trimStart (cs : List Char) : List Char :=
  cs.dropWhile isBlank

/-- Drop the leading and the trailing blanks. -/
def trimBoth (cs : List Char) : List Char :=
  (trimStart (trimStart cs).reverse).reverse

/-- Drop the leading and the trailing blanks of a string. -/
def trim (s : String) : String :=
  String.ofList (trimBoth s.toList)

/-- Text that starts with no blank is left as it is. -/
theorem trimStart_cons_of_not_isBlank {c : Char} {cs : List Char} (h : isBlank c = false) :
    trimStart (c :: cs) = c :: cs :=
  List.dropWhile_cons_of_neg (by simp [h])

end ChangeDispatch.Text
