import Mathlib
import M68k.Text.Number

/-!
The characters of texts: which ones numbers are made of, how long padded texts are, how to
show that a character does not occur in a text that is put together from parts, and what it
takes to fit into columns.
-/
namespace M68k.Text

/-- A character does not occur in a text. -/
def Lacks (c : Char) (s : String) : Prop := c ∉ s.toList

instance (c : Char) (s : String) : Decidable (Lacks c s) := inferInstanceAs (Decidable (_ ∉ _))

section
variable {c : Char}

@[simp] theorem lacks_append {s t : String} : Lacks c (s ++ t) ↔ Lacks c s ∧ Lacks c t := by
  simp [Lacks, String.toList_append]

theorem lacks_join {parts : List String} (each : ∀ s ∈ parts, Lacks c s) :
    Lacks c (String.join parts) := by
  intro member
  rw [String.toList_join, List.mem_flatMap] at member
  obtain ⟨s, part, inside⟩ := member
  exact each s part inside

theorem lacks_intercalate {separator : String} {parts : List String} (between : Lacks c separator)
    (each : ∀ s ∈ parts, Lacks c s) : Lacks c (separator.intercalate parts) := by
  induction parts with
  | nil => simp [Lacks]
  | cons s rest ih =>
    obtain ⟨here, behind⟩ := List.forall_mem_cons.mp each
    cases rest with
    | nil => simpa using here
    | cons t rest =>
      rw [String.intercalate_cons_cons, lacks_append, lacks_append]
      exact ⟨⟨here, between⟩, ih behind⟩

/-- Two texts that agree up to the first occurrence of a character agree before it and behind
    it. -/
theorem eq_of_append_cons {x y u v : List Char} (left : c ∉ x) (right : c ∉ y)
    (same : x ++ c :: u = y ++ c :: v) : x = y ∧ u = v := by
  induction x generalizing y with
  | nil =>
    cases y with
    | nil => exact ⟨rfl, (List.cons.inj same).2⟩
    | cons d y => exact absurd (List.cons.inj same).1 (List.ne_of_not_mem_cons right)
  | cons e x ih =>
    cases y with
    | nil => exact absurd (List.cons.inj same).1.symm (List.ne_of_not_mem_cons left)
    | cons d y =>
      obtain ⟨rfl, rest⟩ := List.cons.inj same
      obtain ⟨rfl, behind⟩ := ih (List.not_mem_of_not_mem_cons left) (List.not_mem_of_not_mem_cons right) rest
      exact ⟨rfl, behind⟩

theorem head?_append {s : String} (starts : s.toList.head? = some c) (t : String) :
    (s ++ t).toList.head? = some c := by
  rw [String.toList_append, List.head?_append, starts]
  rfl

/-- Two texts are equal part by part if the parts behind start with a character that the parts
    in front do not have. -/
theorem append_inj_of_head {x y u v : String} (left : Lacks c x) (right : Lacks c y)
    (first : u.toList.head? = some c) (second : v.toList.head? = some c) (same : x ++ u = y ++ v) :
    x = y ∧ u = v := by
  obtain ⟨_, first⟩ := List.head?_eq_some_iff.mp first
  obtain ⟨_, second⟩ := List.head?_eq_some_iff.mp second
  have characters := congrArg String.toList same
  rw [String.toList_append, String.toList_append, first, second] at characters
  obtain ⟨front, rfl⟩ := eq_of_append_cons left right characters
  exact ⟨String.toList_inj.mp front, String.toList_inj.mp (first.trans second.symm)⟩

end

/-! ## Hexadecimal digits -/

theorem hexValue?_hexDigit (letters : LetterCase) {n : Nat} (small : n < 16) :
    hexValue? (hexDigit letters n) = some n := by
  have each : ∀ m < 16, hexValue? (hexDigit letters m) = some m := by
    cases letters <;> decide
  exact each n small

@[simp] theorem toList_hex (letters : LetterCase) (width n : Nat) :
    (hex letters width n).toList = hexDigits letters width n := by
  simp [hex]

@[simp] theorem length_hexDigits (letters : LetterCase) (width n : Nat) :
    (hexDigits letters width n).length = width := by
  induction width generalizing n with
  | zero => rfl
  | succ width ih => simp [hexDigits, ih]

/-- Digits spell the number they were made from. -/
theorem ofHexDigits_hexDigits (letters : LetterCase) {width n : Nat} (small : n < 16 ^ width) :
    ofHexDigits (hexDigits letters width n) = n := by
  induction width generalizing n with
  | zero =>
    rw [Nat.pow_zero, Nat.lt_one_iff] at small
    rw [small]
    rfl
  | succ width ih =>
    have upper : n / 16 < 16 ^ width := Nat.div_lt_of_lt_mul (by rwa [Nat.pow_succ'] at small)
    have digit := hexValue?_hexDigit letters (Nat.mod_lt n (by decide : 16 > 0))
    rw [hexDigits, ofHexDigits, List.foldl_append, ← ofHexDigits, ih upper]
    simp only [List.foldl_cons, List.foldl_nil, digit, Option.getD_some]
    exact Nat.div_add_mod n 16

theorem hex_inj {letters : LetterCase} {width m n : Nat} (left : m < 16 ^ width) (right : n < 16 ^ width)
    (same : hex letters width m = hex letters width n) : m = n := by
  have digits : hexDigits letters width m = hexDigits letters width n := String.ofList_injective same
  rw [← ofHexDigits_hexDigits letters left, digits, ofHexDigits_hexDigits letters right]

theorem isSome_hexValue? {letters : LetterCase} {width n : Nat} {c : Char}
    (member : c ∈ hexDigits letters width n) : (hexValue? c).isSome = true := by
  induction width generalizing n with
  | zero => simp [hexDigits] at member
  | succ width ih =>
    rw [hexDigits, List.mem_append, List.mem_singleton] at member
    rcases member with upper | rfl
    · exact ih upper
    · rw [hexValue?_hexDigit letters (Nat.mod_lt n (by decide))]
      rfl

theorem lacks_hex {c : Char} (other : hexValue? c = none) (letters : LetterCase) (width n : Nat) :
    Lacks c (hex letters width n) := by
  intro member
  rw [toList_hex] at member
  have digit := isSome_hexValue? member
  rw [other] at digit
  cases digit

theorem hexValue?_newline : hexValue? '\n' = none := by decide

/-! ## Decimals -/

theorem lacks_repr {c : Char} (other : c.isDigit = false) (n : Nat) : Lacks c (Nat.repr n) := by
  intro member
  rw [Nat.repr, String.toList_ofList] at member
  have digit := Nat.isDigit_of_mem_toDigits (by decide) (by decide) member
  rw [other] at digit
  cases digit

theorem lacks_decimal {c : Char} (other : c.isDigit = false) (minus : c ≠ '-') (n : Int) :
    Lacks c (decimal n) := by
  unfold decimal
  split
  · refine lacks_append.mpr ⟨?_, lacks_repr other _⟩
    simpa [Lacks] using minus
  · exact lacks_repr other _

theorem lacks_signed {c : Char} (other : c.isDigit = false) (minus : c ≠ '-') (plus : c ≠ '+')
    (n : Int) : Lacks c (signed n) := by
  unfold signed
  split
  · refine lacks_append.mpr ⟨?_, lacks_repr other _⟩
    simpa [Lacks] using minus
  · refine lacks_append.mpr ⟨?_, lacks_repr other _⟩
    simpa [Lacks] using plus

theorem decimal_natCast (n : Nat) : decimal n = Nat.repr n := by
  rw [decimal, if_neg (by omega), Int.natAbs_natCast]

theorem signed_inj {m n : Int} : signed m = signed n ↔ m = n := by
  refine ⟨?_, congrArg signed⟩
  have signs (i j : Nat) : "-" ++ Nat.repr i ≠ "+" ++ Nat.repr j := by
    intro same
    have plus : Lacks '-' ("+" ++ Nat.repr j) := lacks_append.mpr ⟨by decide, lacks_repr (by decide) j⟩
    rw [← same, lacks_append] at plus
    exact plus.1 (by decide)
  intro same
  unfold signed at same
  split at same
  · split at same
    · have values := Nat.repr_inj.mp ((String.append_right_inj _).mp same)
      omega
    · exact absurd same (signs _ _)
  · split at same
    · exact absurd same.symm (signs _ _)
    · have values := Nat.repr_inj.mp ((String.append_right_inj _).mp same)
      omega

/-! ## Padding -/

theorem toList_padRight (width : Nat) (s : String) :
    (padRight width s).toList = s.toList ++ List.replicate (width - s.length) ' ' := by
  simp [padRight, String.toList_append]

/-- A text that fits is padded to exactly the width. -/
theorem length_padRight {width : Nat} {s : String} (fits : s.length ≤ width) :
    (padRight width s).toList.length = width := by
  rw [toList_padRight, List.length_append, List.length_replicate, String.length_toList]
  omega

theorem lacks_padRight {c : Char} {s : String} (blank : c ≠ ' ') (width : Nat) (inside : Lacks c s) :
    Lacks c (padRight width s) := by
  intro member
  rw [toList_padRight, List.mem_append] at member
  rcases member with text | padding
  · exact inside text
  · exact blank (List.eq_of_mem_replicate padding)

/-! ## Columns -/

/-- A text that fits into columns of a row. -/
def Fits (width : Nat) (s : String) : Prop := s.length ≤ width ∧ Lacks '\n' s

instance (width : Nat) (s : String) : Decidable (Fits width s) := inferInstanceAs (Decidable (_ ∧ _))

theorem Fits.widen {m n : Nat} {s : String} (fits : Fits m s) (wider : m ≤ n) : Fits n s :=
  ⟨fits.1.trans wider, fits.2⟩

theorem Fits.append {m n : Nat} {s t : String} (first : Fits m s) (second : Fits n t) :
    Fits (m + n) (s ++ t) := by
  refine ⟨?_, lacks_append.mpr ⟨first.2, second.2⟩⟩
  rw [String.length_append]
  exact Nat.add_le_add first.1 second.1

end M68k.Text
