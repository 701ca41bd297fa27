import Mathlib
import M68k.CommandLine.Origin

/-!
The numbers that a load address can be. A number is a start that tells its base, and digits behind it,
each with at most one underscore in front (`Origin.Spells`); its value is positional. Reading from the
left with a check at every digit finds these numbers, if they have 32 bits, and no others.
-/
namespace M68k.CommandLine.Origin

open Text (hexValue?)

/-- The starts of numbers and the bases they tell. -/
def starts : List (List Char × Nat) :=
  [([], 10), (['0'], 8), (['0', 'b'], 2), (['0', 'B'], 2), (['0', 'o'], 8), (['0', 'O'], 8),
    (['0', 'x'], 16), (['0', 'X'], 16)]

/-- A number cut behind its start. A decimal starts with something other than zero, and there is
    something behind a start with a letter. -/
structure Cut (text start : List Char) (base : Nat) (characters : List Char) : Prop where
  member : (start, base) ∈ starts
  text : text = start ++ characters
  decimal : start = [] → ∃ c ∈ characters.head?, c ≠ '0'
  lettered : start.length = 2 → characters ≠ []

/-- Characters that write digits of a base, and the values of the digits. Only a digit that has
    something in front can have an underscore there. -/
inductive Written (base : Nat) : Bool → List Char → List Nat → Prop where
  | nil (started : Bool) : Written base started [] []
  | digit (started : Bool) {c : Char} {v : Nat} {rest : List Char} {values : List Nat} :
    hexValue? c = some v → v < base → Written base true rest values →
      Written base started (c :: rest) (v :: values)
  | underscore {c : Char} {v : Nat} {rest : List Char} {values : List Nat} :
    hexValue? c = some v → v < base → Written base true rest values →
      Written base true ('_' :: c :: rest) (v :: values)

/-- A text spells a number. -/
def Spells (text : String) (n : Nat) : Prop :=
  ∃ (start : List Char) (base : Nat) (characters : List Char) (values : List Nat),
    Cut text.toList start base characters ∧ Written base (start ≠ []) characters values ∧
      n = Nat.ofDigits base values.reverse

/-! ## The value of digits -/

/-- The number that digits make behind those that make `n`. -/
def extend (base n : Nat) (values : List Nat) : Nat := values.foldl (fun n v => n * base + v) n

theorem le_extend {base : Nat} (positive : 0 < base) (n : Nat) (values : List Nat) :
    n ≤ extend base n values := by
  induction values generalizing n with
  | nil => exact Nat.le_refl n
  | cons v values ih =>
    calc n ≤ n * base := Nat.le_mul_of_pos_right n positive
      _ ≤ n * base + v := Nat.le_add_right _ _
      _ ≤ extend base (n * base + v) values := ih _

theorem extend_eq (base n : Nat) (values : List Nat) :
    extend base n values = n * base ^ values.length + Nat.ofDigits base values.reverse := by
  induction values generalizing n with
  | nil => simp [extend]
  | cons v values ih =>
    rw [List.reverse_cons, Nat.ofDigits_append, Nat.ofDigits_singleton, List.length_reverse, List.length_cons]
    refine (ih _).trans ?_
    ring

theorem hexValue?_underscore : hexValue? '_' = none := by decide

theorem ne_underscore {c : Char} {v : Nat} (digit : hexValue? c = some v) : c ≠ '_' := by
  rintro rfl
  rw [hexValue?_underscore] at digit
  cases digit

theorem value_cons {base n v : Nat} {c : Char} (digit : hexValue? c = some v) (rest : List Char) :
    value base n (c :: rest) =
      if base ≤ v then .error .malformed else
      if 2 ^ 32 ≤ n * base + v then .error .outOfRange else value base (n * base + v) rest := by
  rw [value, if_neg (ne_underscore digit), digit]
  rfl

/-- What is read without a fault is written as it should be. -/
theorem written_of_value {base n m : Nat} {started : Bool} {characters : List Char} (fits : n < 2 ^ 32)
    (read : value base n characters = .ok m) (apart : separated started characters = true) :
    m < 2 ^ 32 ∧ ∃ values, Written base started characters values ∧ m = extend base n values := by
  induction characters generalizing n started with
  | nil =>
    rw [value, Except.ok.injEq] at read
    subst read
    exact ⟨fits, [], .nil started, rfl⟩
  | cons c rest ih =>
    by_cases underscore : c = '_'
    · subst underscore
      simp only [separated, if_true, Bool.and_eq_true] at apart
      obtain ⟨⟨rfl, follows⟩, behind⟩ := apart
      obtain ⟨bound, values, written, total⟩ := ih fits read behind
      refine ⟨bound, values, ?_, total⟩
      cases written with
      | nil => simp at follows
      | digit _ digit small more => exact .underscore digit small more
    · rw [separated, if_neg underscore] at apart
      cases digit : hexValue? c with
      | none => simp [value, underscore, digit] at read
      | some v =>
        rw [value_cons digit] at read
        split at read
        · cases read
        · split at read
          · cases read
          · rename_i small room
            obtain ⟨bound, values, written, total⟩ := ih (Nat.lt_of_not_le room) read apart
            exact ⟨bound, v :: values, .digit started digit (Nat.lt_of_not_le small) written, total⟩

/-- What is written as it should be is read without a fault, if it has 32 bits: a number only grows
    with its digits, so that no part of it has more. -/
theorem value_of_written {base n : Nat} {started : Bool} {characters : List Char} {values : List Nat}
    (positive : 0 < base) (written : Written base started characters values)
    (bound : extend base n values < 2 ^ 32) :
    value base n characters = .ok (extend base n values) ∧ separated started characters = true := by
  induction written generalizing n with
  | nil started => exact ⟨rfl, rfl⟩
  | @digit started c v rest values digit small more ih =>
    have room : n * base + v < 2 ^ 32 := Nat.lt_of_le_of_lt (le_extend positive _ values) bound
    obtain ⟨read, apart⟩ := ih bound
    refine ⟨?_, ?_⟩
    · rw [value_cons digit, if_neg (Nat.not_le.mpr small), if_neg (Nat.not_le.mpr room), read]
      rfl
    · rw [separated, if_neg (ne_underscore digit), apart]
  | @underscore c v rest values digit small more ih =>
    have room : n * base + v < 2 ^ 32 := Nat.lt_of_le_of_lt (le_extend positive _ values) bound
    obtain ⟨read, apart⟩ := ih bound
    refine ⟨?_, ?_⟩
    · rw [value, if_pos rfl, value_cons digit, if_neg (Nat.not_le.mpr small), if_neg (Nat.not_le.mpr room), read]
      rfl
    · simp [separated, ne_underscore digit, apart]

/-! ## The start -/

theorem eq_of_toLower {c letter : Char} (lower : c.toLower = letter) :
    c = letter ∨ c = Char.ofNat (letter.toNat - 32) := by
  unfold Char.toLower at lower
  split at lower
  · rename_i upper
    have high : c.val.toNat ≤ 90 := upper.2
    have distance : (c.val + 32).toNat = c.val.toNat + 32 := by
      rw [UInt32.toNat_add, show (32 : UInt32).toNat = 32 from rfl]
      omega
    subst lower
    right
    show c = Char.ofNat ((c.val + 32).toNat - 32)
    rw [distance, Nat.add_sub_cancel]
    exact (Char.ofNat_toNat c).symm
  · exact .inl lower

/-- A digit below eight is none of the letters in a start. -/
theorem toLower_of_octal {c : Char} {v : Nat} (digit : hexValue? c = some v) (small : v < 8) :
    c.toLower ≠ 'b' ∧ c.toLower ≠ 'o' ∧ c.toLower ≠ 'x' := by
  have low : c.toNat ≤ 57 := by
    unfold hexValue? at digit
    split at digit
    · rename_i between
      exact between.2
    · split at digit
      · rename_i between
        have bottom : 97 ≤ c.toNat := between.1
        rw [Option.some.injEq] at digit
        omega
      · split at digit
        · rename_i between
          have bottom : 65 ≤ c.toNat := between.1
          rw [Option.some.injEq] at digit
          omega
        · cases digit
  refine ⟨?_, ?_, ?_⟩
  all_goals
    intro lower
    rcases eq_of_toLower lower with rfl | rfl
    all_goals exact absurd low (by decide)

/-- A letter of either case may stand in a start. -/
theorem Cut.of_letter {letter lower c : Char} {base : Nat} {rest : List Char} (either : letter.toLower = lower)
    (both : (['0', lower], base) ∈ starts ∧ (['0', Char.ofNat (lower.toNat - 32)], base) ∈ starts) :
    Cut ('0' :: letter :: c :: rest) ['0', letter] base (c :: rest) where
  member := by
    rcases eq_of_toLower either with rfl | rfl
    · exact both.1
    · exact both.2
  text := rfl
  decimal := by simp
  lettered := by simp

theorem Cut.of_zero (rest : List Char) : Cut ('0' :: rest) ['0'] 8 rest where
  member := by decide
  text := rfl
  decimal := by simp
  lettered := by simp

theorem Cut.of_decimal {c : Char} (other : c ≠ '0') (rest : List Char) : Cut (c :: rest) [] 10 (c :: rest) where
  member := by decide
  text := rfl
  decimal := fun _ => ⟨c, rfl, other⟩
  lettered := by simp

theorem Cut.positive {text start characters : List Char} {base : Nat} (cut : Cut text start base characters) :
    0 < base := by
  have all : ∀ pair ∈ starts, 0 < pair.2 := by decide
  exact all _ cut.member

theorem Cut.nonempty {text start characters : List Char} {base : Nat} (cut : Cut text start base characters) :
    text ≠ [] := by
  rw [cut.text]
  intro empty
  obtain ⟨none, rfl⟩ := List.append_eq_nil_iff.mp empty
  obtain ⟨c, head, _⟩ := cut.decimal none
  simp at head

/-- Taking a number apart cuts it behind its start. -/
theorem numeral_cut {text : List Char} (nonempty : text ≠ []) :
    ∃ start, Cut text start (numeral text).base (numeral text).characters ∧
      (numeral text).started = decide (start ≠ []) := by
  fun_cases numeral text with
  | case1 letter c rest either => exact ⟨['0', letter], .of_letter either (by dsimp only; decide), rfl⟩
  | case2 letter c rest either => exact ⟨['0', letter], .of_letter either (by dsimp only; decide), rfl⟩
  | case3 letter c rest either => exact ⟨['0', letter], .of_letter either (by dsimp only; decide), rfl⟩
  | case4 => exact ⟨['0'], .of_zero _, rfl⟩
  | case5 => exact ⟨['0'], .of_zero _, rfl⟩
  | case6 _ _ other =>
    obtain ⟨c, rest, rfl⟩ := List.exists_cons_of_ne_nil nonempty
    refine ⟨[], .of_decimal ?_ rest, rfl⟩
    rintro rfl
    exact other rest rfl

theorem numeral_zero {characters : List Char} {values : List Nat} (written : Written 8 true characters values) :
    numeral ('0' :: characters) = { base := 8, started := true, characters } := by
  cases written with
  | nil => rfl
  | digit _ digit small more =>
    rename_i rest values
    obtain ⟨notB, notO, notX⟩ := toLower_of_octal digit small
    cases rest with
    | nil => rfl
    | cons next rest => simp only [numeral]
  | underscore => rfl

/-- A number with its digits behind a start is cut there. -/
theorem numeral_of_cut {text start characters : List Char} {base : Nat} {values : List Nat}
    (cut : Cut text start base characters) (written : Written base (start ≠ []) characters values) :
    numeral text = { base, started := decide (start ≠ []), characters } := by
  obtain ⟨member, rfl, decimal, lettered⟩ := cut
  simp only [starts, List.mem_cons, List.not_mem_nil, or_false, Prod.mk.injEq] at member
  rcases member with ⟨rfl, rfl⟩ | ⟨rfl, rfl⟩ | ⟨rfl, rfl⟩ | ⟨rfl, rfl⟩ | ⟨rfl, rfl⟩ | ⟨rfl, rfl⟩ | ⟨rfl, rfl⟩ |
    ⟨rfl, rfl⟩
  · obtain ⟨c, head, other⟩ := decimal rfl
    obtain ⟨rest, rfl⟩ := List.head?_eq_some_iff.mp head
    unfold numeral
    split
    · rename_i same
      exact absurd (List.cons.inj same).1 other
    · rename_i same
      exact absurd (List.cons.inj same).1 other
    · rfl
  · exact numeral_zero written
  -- What is left are the starts with a letter.
  all_goals
    obtain ⟨c, rest, rfl⟩ := List.exists_cons_of_ne_nil (lettered rfl)
    rfl

/-- A load address is read exactly from the texts that spell a number of 32 bits. -/
theorem parse_eq_ok_iff {text : String} {a : Address} :
    parse text = .ok a ↔ ∃ n, Spells text n ∧ n < 2 ^ 32 ∧ a = UInt32.ofNat n := by
  constructor
  · intro read
    by_cases empty : text = ""
    · simp [parse, empty] at read
    · obtain ⟨start, cut, started⟩ := numeral_cut (fun none => empty (String.toList_eq_nil_iff.mp none))
      simp only [parse, empty, if_false, started] at read
      cases total : value (numeral text.toList).base 0 (numeral text.toList).characters with
      | error fault => simp [total] at read
      | ok n =>
        rw [total] at read
        simp only at read
        split at read
        · rename_i apart
          obtain ⟨bound, values, written, sum⟩ := written_of_value (by decide) total apart
          rw [extend_eq, Nat.zero_mul, Nat.zero_add] at sum
          exact ⟨n, ⟨start, _, _, values, cut, written, sum⟩, bound, (Except.ok.inj read).symm⟩
        · cases read
  · rintro ⟨n, ⟨start, base, characters, values, cut, written, sum⟩, bound, rfl⟩
    have number := numeral_of_cut cut written
    have total : extend base 0 values = n := by rw [extend_eq, Nat.zero_mul, Nat.zero_add, sum]
    have nonempty : text ≠ "" := fun empty => cut.nonempty (String.toList_eq_nil_iff.mpr empty)
    obtain ⟨read, apart⟩ := value_of_written cut.positive written (by rwa [total])
    simp only [parse, nonempty, if_false, number, read, apart, if_true, total]

example : parse "0X_fF_10" = .ok 0xFF10 ∧ parse "08" = .error .malformed ∧ parse "4294967296" = .error .outOfRange := by
  decide

end M68k.CommandLine.Origin
