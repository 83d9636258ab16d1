import ChangeDispatch.Proofs.Wire.Spelling

/-!
# Layouts of a document

Blanks may stand before and after every token, and a string may be spelled in many ways, so a
document has many texts. `Members` and `Elements` say what the text of an object or a list is from
some place on, and `IsValue` is the grammar of a value of any kind and any depth. The grammar asks
less than the readers of known values: a string in it may hold half of a surrogate pair, or bytes
that are no Unicode at all, and a number may be of any size.
-/
namespace ChangeDispatch.Json

/-! ### Between the tokens -/

def Blank (bs : Bytes) : Prop := ∀ b ∈ bs, isSpace b

instance (bs : Bytes) : Decidable (Blank bs) :=
  List.decidableBAll (fun b => isSpace b) bs

theorem Blank.nil : Blank [] := fun _ h => absurd h List.not_mem_nil

theorem Blank.append {bs cs : Bytes} (h : Blank bs) (h' : Blank cs) : Blank (bs ++ cs) :=
  fun b hb => (List.mem_append.mp hb).elim (h b) (h' b)

@[simp] theorem skipSpace_blank {bs : Bytes} (h : Blank bs) (rest : Bytes) :
    skipSpace (bs ++ rest) = skipSpace rest :=
  List.dropWhile_append_of_pos h

theorem skipSpace_of_blank {bs : Bytes} (h : Blank bs) : skipSpace bs = [] := by
  have all := skipSpace_blank h []
  rwa [List.append_nil] at all

/-- What may follow a value: nothing, a blank, a comma or a closing bracket. -/
def Delimits : Bytes → Prop
  | [] => True
  | b :: _ => isSpace b ∨ b = 0x2c ∨ b = 0x5d ∨ b = 0x7d

theorem Delimits.blank {bs rest : Bytes} (h : Blank bs) (delimited : Delimits rest) :
    Delimits (bs ++ rest) := by
  cases bs with
  | nil => exact delimited
  | cons b bs => exact .inl (h b List.mem_cons_self)

/-- What stands before an item: nothing before the first, a comma before the others. -/
def lead : Bool → Bytes
  | true => []
  | false => [0x2c]

/-! ### Objects and lists -/

/-- A member of an object, as it stands between the quotation marks of its key and after its
colon. -/
structure Member where
  key : Bytes
  value : Bytes

/-- The text of an object from some place before a member, the first or another one, to its closing
brace. -/
inductive Members : Bool → List Member → Bytes → Prop
  | done {first : Bool} {blanks : Bytes} : Blank blanks → Members first [] (blanks ++ [0x7d])
  | next {first : Bool} {m : Member} {ms : List Member} {b₀ b₁ b₂ b₃ tail : Bytes} :
      Blank b₀ → Blank b₁ → Blank b₂ → Blank b₃ → Members false ms tail →
      Members first (m :: ms) (b₀ ++ (lead first ++ (b₁ ++ Text.quotationMark :: (m.key ++
        Text.quotationMark :: (b₂ ++ 0x3a :: (b₃ ++ (m.value ++ tail)))))))

/-- The text of a list from some place before an element to its closing bracket. -/
inductive Elements : Bool → List Bytes → Bytes → Prop
  | done {first : Bool} {blanks : Bytes} : Blank blanks → Elements first [] (blanks ++ [0x5d])
  | next {first : Bool} {v : Bytes} {vs : List Bytes} {b₀ b₁ tail : Bytes} :
      Blank b₀ → Blank b₁ → Elements false vs tail →
      Elements first (v :: vs) (b₀ ++ (lead first ++ (b₁ ++ (v ++ tail))))

/-- The text of an object with these members. -/
def IsObject (ms : List Member) (text : Bytes) : Prop :=
  ∃ tail, Members true ms tail ∧ text = 0x7b :: tail

theorem Members.delimits {ms : List Member} {tail : Bytes} (h : Members false ms tail)
    (rest : Bytes) : Delimits (tail ++ rest) := by
  cases h with
  | done blank =>
    rw [List.append_assoc]
    exact .blank blank (.inr (.inr (.inr rfl)))
  | next blank _ _ _ _ =>
    rw [List.append_assoc]
    exact .blank blank (.inr (.inl rfl))

theorem Elements.delimits {vs : List Bytes} {tail : Bytes} (h : Elements false vs tail)
    (rest : Bytes) : Delimits (tail ++ rest) := by
  cases h with
  | done blank =>
    rw [List.append_assoc]
    exact .blank blank (.inr (.inr (.inl rfl)))
  | next blank _ _ =>
    rw [List.append_assoc]
    exact .blank blank (.inr (.inl rfl))

/-- Every member takes at least one byte. -/
theorem Members.length_le {first : Bool} {ms : List Member} {tail : Bytes}
    (h : Members first ms tail) : ms.length ≤ tail.length := by
  induction h with
  | done _ => simp
  | next _ _ _ _ _ ih =>
    simp only [List.length_append, List.length_cons]
    omega

/-! ### Values of any kind -/

/-- What the grammar lets stand between quotation marks. -/
inductive IsBody : Bytes → Prop
  | nil : IsBody []
  | plain {b : UInt8} {bs : Bytes} : b ≠ Text.quotationMark → b ≠ Text.backslash → ¬b < 0x20 →
      IsBody bs → IsBody (b :: bs)
  | escape {e : UInt8} {bs : Bytes} :
      e ∈ [0x22, 0x5c, 0x2f, 0x62, 0x66, 0x6e, 0x72, 0x74] → IsBody bs →
      IsBody (Text.backslash :: e :: bs)
  | code {h₁ h₂ h₃ h₄ : UInt8} {bs : Bytes} : (hex4? h₁ h₂ h₃ h₄).isSome → IsBody bs →
      IsBody (Text.backslash :: 0x75 :: h₁ :: h₂ :: h₃ :: h₄ :: bs)

/-- At least one digit, and nothing else. -/
def Digits (ds : Bytes) : Prop := ds ≠ [] ∧ ∀ d ∈ ds, isDigit d

/-- Digits without a leading zero, unless zero is all. -/
def IsInteger (ds : Bytes) : Prop := Digits ds ∧ (ds.head? = some 0x30 → ds = [0x30])

/-- A point and digits, or nothing. -/
def IsFraction (bs : Bytes) : Prop := bs = [] ∨ ∃ ds, Digits ds ∧ bs = 0x2e :: ds

/-- An `e` in either case, a sign or none, and digits; or nothing. -/
def IsExponent (bs : Bytes) : Prop :=
  bs = [] ∨ ∃ e sign ds, e ∈ [0x65, 0x45] ∧ sign ∈ [[], [0x2b], [0x2d]] ∧ Digits ds ∧
    bs = e :: (sign ++ ds)

/-- A number of any size. -/
inductive IsNumber : Bytes → Prop
  | mk {sign integer fraction exponent : Bytes} :
      sign ∈ [[], [0x2d]] → IsInteger integer → IsFraction fraction → IsExponent exponent →
      IsNumber (sign ++ (integer ++ (fraction ++ exponent)))

/-- The values of the grammar. -/
inductive IsValue : Bytes → Prop
  | word {w : String} : w ∈ ["null", "true", "false"] → IsValue (utf8 w)
  | number {bs : Bytes} : IsNumber bs → IsValue bs
  | text {body : Bytes} : IsBody body →
      IsValue (Text.quotationMark :: (body ++ [Text.quotationMark]))
  | list {vs : List Bytes} {tail : Bytes} :
      Elements true vs tail → (∀ v ∈ vs, IsValue v) → IsValue (0x5b :: tail)
  | object {ms : List Member} {tail : Bytes} :
      Members true ms tail → (∀ m ∈ ms, IsBody m.key) → (∀ m ∈ ms, IsValue m.value) →
      IsValue (0x7b :: tail)

theorem Text.mem_of_escaped? {e c : UInt8} (h : escaped? e = some c) :
    e ∈ [0x22, 0x5c, 0x2f, 0x62, 0x66, 0x6e, 0x72, 0x74] := by
  simp only [escaped?] at h
  split_ifs at h with quoted
  · simp only [List.mem_cons]
    tauto
  all_goals subst e; decide

theorem Text.Spells.isBody {cs body : Bytes} (h : Spells cs body) : IsBody body := by
  induction h with
  | nil => exact .nil
  | plain notEnd notEscape shown _ ih => exact .plain notEnd notEscape shown ih
  | escape escaped _ ih => exact .escape (mem_of_escaped? escaped) ih
  | code value _ _ _ ih => exact .code (Option.isSome_of_eq_some value) ih
  | pair first _ second _ _ ih =>
    exact .code (Option.isSome_of_eq_some first) (.code (Option.isSome_of_eq_some second) ih)

theorem IsText.isValue {s : String} {text : Bytes} (h : IsText s text) : IsValue text := by
  obtain ⟨body, named, rfl⟩ := h
  exact .text (Text.Spells.isBody named)

end ChangeDispatch.Json
