import ChangeDispatch.RequestId.Reading
import Mathlib.Algebra.Ring.Nat

/-!
# A written identifier is read back

The writer cuts the 32 digits into groups, the reader takes the hyphens away where the
groups meet and reads the digits as one number. Of the four spellings only the one that is
written is treated.
-/
namespace ChangeDispatch.RequestId

/-! ### Digits -/

theorem hexValue?_hexDigit (n : Nat) : hexValue? (hexDigit n) = some (n % 16) := by
  have digit : ∀ d < 16, hexValue? (Nat.digitChar d) = some d := by decide
  exact digit (n % 16) (Nat.mod_lt n (by decide))

theorem utf8Size_hexDigit (n : Nat) : (hexDigit n).utf8Size = 1 := by
  have digit : ∀ d < 16, (Nat.digitChar d).utf8Size = 1 := by decide
  exact digit (n % 16) (Nat.mod_lt n (by decide))

theorem length_hexDigits (count n : Nat) : (hexDigits count n).length = count := by
  induction count generalizing n with
  | zero => rfl
  | succ count ih => simp [hexDigits, ih]

theorem utf8Size_of_mem_hexDigits {count n : Nat} {c : Char} (h : c ∈ hexDigits count n) :
    c.utf8Size = 1 := by
  induction count generalizing n with
  | zero => cases h
  | succ count ih =>
    rcases List.mem_append.mp h with high | low
    · exact ih high
    · rw [List.mem_singleton.mp low]
      exact utf8Size_hexDigit n

theorem hexFrom_append (value : Nat) (cs ds : List Char) :
    hexFrom value (cs ++ ds) = (hexFrom value cs).bind fun high => hexFrom high ds := by
  induction cs generalizing value with
  | nil => rfl
  | cons c cs ih => cases h : hexValue? c <;> simp [hexFrom, h, ih]

/-- Reading digits adds the written number to the shifted value. -/
theorem hexFrom_hexDigits (count value n : Nat) :
    hexFrom value (hexDigits count n) = some (value * 16 ^ count + n % 16 ^ count) := by
  induction count generalizing n with
  | zero => simp [hexDigits, hexFrom, Nat.mod_one]
  | succ count ih =>
    have split : n % 16 ^ (count + 1) = 16 * (n / 16 % 16 ^ count) + n % 16 := by
      rw [Nat.pow_succ', Nat.mod_mul]
      omega
    have shift : value * 16 ^ (count + 1) = 16 * (value * 16 ^ count) := by
      rw [Nat.pow_succ', Nat.mul_left_comm]
    rw [hexDigits, hexFrom_append, ih, split, shift]
    simp only [Option.bind_some, hexFrom, hexValue?_hexDigit]
    congr 1
    omega

theorem readPlain_digits (id : RequestId) : readPlain id.digits = some id := by
  have whole : id.value.val % 16 ^ 32 = id.value.val :=
    Nat.mod_eq_of_lt (Nat.lt_of_lt_of_le id.value.isLt (by decide))
  have read : hexFrom 0 id.digits = some id.value.val := by
    rw [digits, hexFrom_hexDigits, whole, Nat.zero_mul, Nat.zero_add]
  have long : id.digits.length = 32 := length_hexDigits 32 _
  rw [readPlain, if_pos long, read, Option.map_some, ofNat]
  exact congrArg (some ∘ RequestId.mk) (Fin.ofNat_val_eq_self id.value)

/-! ### Groups -/

/-- Hyphens are taken away where they were put. -/
theorem ungrouped_grouped : ∀ (sizes : List Nat) (cs : List Char), cs.length = sizes.sum →
    ungrouped sizes (grouped sizes cs) = some cs
  | [], cs, h => by
    obtain rfl := List.eq_nil_of_length_eq_zero h
    rfl
  | [size], cs, h => by
    have whole : cs.length = size := by simpa using h
    simp [grouped, ungrouped, List.take_of_length_le (Nat.le_of_eq whole), whole]
  | size :: next :: sizes, cs, h => by
    have fits : size ≤ cs.length := by simp at h; omega
    have rest : (cs.drop size).length = (next :: sizes).sum := by simp at h ⊢; omega
    have group : (cs.take size).length = size := List.length_take_of_le fits
    have ih := ungrouped_grouped (next :: sizes) (cs.drop size) rest
    simp only [grouped, ungrouped]
    rw [List.drop_append_of_le_length (Nat.le_of_eq group.symm), List.drop_of_length_le
      (Nat.le_of_eq group), List.take_append_of_le_length (Nat.le_of_eq group.symm),
      List.take_of_length_le (Nat.le_of_eq group)]
    simp [ih]

theorem length_grouped : ∀ (sizes : List Nat) (cs : List Char), cs.length = sizes.sum →
    (grouped sizes cs).length = sizes.sum + (sizes.length - 1)
  | [], _, _ => rfl
  | [size], cs, h => by simp [grouped] at h ⊢; omega
  | size :: next :: sizes, cs, h => by
    have rest : (cs.drop size).length = (next :: sizes).sum := by simp at h ⊢; omega
    have ih := length_grouped (next :: sizes) (cs.drop size) rest
    simp [grouped] at ih h ⊢
    omega

theorem mem_grouped : ∀ {sizes : List Nat} {cs : List Char} {c : Char}, c ∈ grouped sizes cs →
    c = '-' ∨ c ∈ cs
  | [], _, _, h => absurd h List.not_mem_nil
  | [_], _, _, h => .inr (List.mem_of_mem_take h)
  | _ :: next :: sizes, cs, c, h => by
    rcases List.mem_append.mp h with group | rest
    · exact .inr (List.mem_of_mem_take group)
    · rcases List.mem_cons.mp rest with hyphen | later
      · exact .inl hyphen
      · exact (mem_grouped later).imp id List.mem_of_mem_drop

theorem byteLength_eq_length {cs : List Char} (h : ∀ c ∈ cs, c.utf8Size = 1) :
    byteLength cs = cs.length := by
  induction cs with
  | nil => rfl
  | cons c cs ih =>
    simp only [List.forall_mem_cons] at h
    simp only [byteLength] at ih
    simp [byteLength, String.ofList_cons, ih h.2, h.1, Nat.add_comm]

theorem byteLength_writtenChars (id : RequestId) : byteLength id.writtenChars = 36 := by
  have ascii : ∀ c ∈ id.writtenChars, c.utf8Size = 1 := by
    intro c h
    rcases mem_grouped h with rfl | digit
    · rfl
    · exact utf8Size_of_mem_hexDigits digit
  rw [byteLength_eq_length ascii]
  exact length_grouped groupSizes id.digits (length_hexDigits 32 _)

/-- An identifier is read back from its written form. -/
theorem read_written (id : RequestId) : read id.written = .ok id := by
  have grouped : readGrouped id.writtenChars = some id := by
    rw [readGrouped, writtenChars, ungrouped_grouped _ _ (length_hexDigits 32 _),
      Option.bind_some, readPlain_digits]
  have size := byteLength_writtenChars id
  rw [read, written, String.toList_ofList]
  generalize id.writtenChars = cs at *
  simp [readChars, groupedPart?, size, grouped]

end ChangeDispatch.RequestId
