import Mathlib
import M68k.Proofs.ReadBack
import M68k.Proofs.Targets

/-!
A name in the place of an address. Operand text is cut at its first dollar sign and behind the
digits that follow it (`ShownAddress.Cuts`), and the cut decides both what address the text shows
and what a name replaces. The two part ways at numbers of more than 32 bits: they are no address,
but a name still takes their place.
-/
namespace M68k

open Text

namespace Text

/-- The digits up to nine and the first six letters in either case. -/
def IsHexDigit (c : Char) : Prop := '0' ≤ c ∧ c ≤ '9' ∨ 'a' ≤ c ∧ c ≤ 'f' ∨ 'A' ≤ c ∧ c ≤ 'F'

theorem isSome_hexValue?_iff (c : Char) : (hexValue? c).isSome = true ↔ IsHexDigit c := by
  unfold hexValue? IsHexDigit
  split_ifs <;> simp_all

/-- The number that digits spell to the base of sixteen. -/
def hexNumber (digits : String) : Nat :=
  Nat.ofDigits 16 (digits.toList.reverse.map fun c => (hexValue? c).getD 0)

theorem ofHexDigits_eq (digits : String) : ofHexDigits digits.toList = hexNumber digits := by
  rw [hexNumber, Nat.ofDigits_eq_foldr, List.foldr_map, List.foldr_reverse, ofHexDigits]
  congr 1
  funext n c
  exact Nat.add_comm _ _

end Text

namespace ShownAddress

/-- A text cut around the digits behind its first dollar sign: there are digits, all that follow
    each other, and no bracket behind them. -/
structure Cuts (text before digits after : String) : Prop where
  whole : text = before ++ "$" ++ digits ++ after
  first : Lacks '$' before
  present : digits ≠ ""
  digit : ∀ c ∈ digits.toList, IsHexDigit c
  maximal : ∀ c ∈ after.toList.head?, ¬ IsHexDigit c
  free : after.toList.head? ≠ some '('

variable {text before digits after name : String}

theorem Cuts.find? (cut : Cuts text before digits after) : ShownAddress.find? text =
    some { before := before.toList, digits := digits.toList, after := after.toList } := by
  have present : digits.toList ≠ [] := by simpa using cut.present
  have digit : ∀ c ∈ digits.toList, isDigit c = true := fun c member =>
    (isSome_hexValue?_iff c).mpr (cut.digit c member)
  have ends : ∀ c ∈ after.toList.head?, isDigit c = false ∧ c ≠ '(' := by
    intro c member
    refine ⟨?_, ?_⟩
    · rw [← Bool.not_eq_true, isDigit, isSome_hexValue?_iff]
      exact cut.maximal c member
    · rintro rfl
      exact cut.free member
  have found := find?_eq cut.first present digit ends
  rw [cut.whole]
  convert found using 2
  apply String.toList_inj.mp
  simp [String.toList_append]

theorem cuts_of_find? {span : ShownAddress} (found : ShownAddress.find? text = some span) :
    Cuts text (String.ofList span.before) (String.ofList span.digits) (String.ofList span.after) := by
  have whole := ReadBack.toList_of_find? found
  simp only [ShownAddress.find?, Option.ite_none_left_eq_some, not_or, Option.some.injEq] at found
  obtain ⟨⟨present, bracket⟩, rfl⟩ := found
  refine ⟨?_, ?_, ?_, ?_, ?_, ?_⟩
  · apply String.toList_inj.mp
    simpa [String.toList_append] using whole
  · intro member
    rw [String.toList_ofList] at member
    simpa using List.mem_takeWhile_imp member
  · simpa using present
  · intro c member
    rw [String.toList_ofList] at member
    have digit : isDigit c = true := List.mem_takeWhile_imp member
    exact (isSome_hexValue?_iff c).mp digit
  · intro c member
    rw [String.toList_ofList] at member
    have ends := List.head?_dropWhile_not isDigit (text.toList.dropWhile (· != '$')).tail
    rw [Option.mem_def.mp member] at ends
    rw [← isSome_hexValue?_iff]
    exact Bool.not_eq_true _ ▸ ends
  · rw [String.toList_ofList]
    exact bracket

/-- A text that is cut shows the number of its digits, if that fits into 32 bits. -/
theorem Cuts.shownAddress? (cut : Cuts text before digits after) : M68k.shownAddress? text =
    if hexNumber digits < 2 ^ 32 then some (UInt32.ofNat (hexNumber digits)) else none := by
  rw [M68k.shownAddress?, cut.find?, Option.bind_some, address?, ofHexDigits_eq]
  rfl

theorem Cuts.nameShownAddress (cut : Cuts text before digits after) (name : String) :
    M68k.nameShownAddress text name = before ++ name ++ after := by
  simp [M68k.nameShownAddress, cut.find?, replace]

/-- Nothing changes if the name is what it replaces. -/
theorem Cuts.nameShownAddress_eq_self (cut : Cuts text before digits after) (name : String) :
    M68k.nameShownAddress text name = text ↔ name = "$" ++ digits := by
  have whole : text = before ++ ("$" ++ digits) ++ after := by
    rw [cut.whole, ← String.append_assoc]
  rw [cut.nameShownAddress, whole, String.append_left_inj, String.append_right_inj]

theorem exists_cuts (changed : M68k.nameShownAddress text name ≠ text) :
    ∃ before digits after, Cuts text before digits after := by
  cases found : ShownAddress.find? text with
  | none =>
    rw [M68k.nameShownAddress, found] at changed
    exact absurd rfl changed
  | some span => exact ⟨_, _, _, cuts_of_find? found⟩

theorem exists_cuts_of_shownAddress? {a : Address} (shown : M68k.shownAddress? text = some a) :
    ∃ before digits after, Cuts text before digits after := by
  obtain ⟨span, found, _⟩ := Option.bind_eq_some_iff.mp shown
  exact ⟨_, _, _, cuts_of_find? found⟩

end ShownAddress

/-- A name touches what is read as an address. A text that shows an address is cut around digits
    that spell it, and the name takes the place of the dollar sign and of these digits. A text
    that shows none is changed in one case only: its digits spell a number of more than 32 bits,
    and the name is another text than they are. -/
theorem naming_touches_shown_address (text name : String) :
    (∀ a, shownAddress? text = some a → ∃ before digits after,
      ShownAddress.Cuts text before digits after ∧ hexNumber digits = a.toNat ∧
        nameShownAddress text name = before ++ name ++ after) ∧
    (shownAddress? text = none ∧ nameShownAddress text name ≠ text ↔ ∃ before digits after,
      ShownAddress.Cuts text before digits after ∧ 2 ^ 32 ≤ hexNumber digits ∧
        name ≠ "$" ++ digits ∧ nameShownAddress text name = before ++ name ++ after) := by
  refine ⟨?_, ?_, ?_⟩
  · intro a shown
    obtain ⟨before, digits, after, cut⟩ := ShownAddress.exists_cuts_of_shownAddress? shown
    obtain ⟨fits, same⟩ := Option.ite_none_right_eq_some.mp (cut.shownAddress?.symm.trans shown)
    refine ⟨before, digits, after, cut, ?_, cut.nameShownAddress name⟩
    rw [← Option.some.inj same, UInt32.toNat_ofNat_of_lt' fits]
  · rintro ⟨unshown, changed⟩
    obtain ⟨before, digits, after, cut⟩ := ShownAddress.exists_cuts changed
    refine ⟨before, digits, after, cut, ?_, ?_, cut.nameShownAddress name⟩
    · by_contra fits
      rw [cut.shownAddress?, if_pos (Nat.lt_of_not_le fits)] at unshown
      cases unshown
    · rwa [ne_eq, cut.nameShownAddress_eq_self] at changed
  · rintro ⟨before, digits, after, cut, large, other, _⟩
    refine ⟨?_, ?_⟩
    · rw [cut.shownAddress?, if_neg (Nat.not_lt_of_le large)]
    · rwa [ne_eq, cut.nameShownAddress_eq_self]

/-- Nine digits are no address, and yet a name takes their place. -/
theorem unshown_number_replaced :
    ¬ ∀ text name, shownAddress? text = none → nameShownAddress text name = text := by
  intro kept
  have unshown : shownAddress? "$123456789" = none := by decide +kernel
  have replaced : nameShownAddress "$123456789" "loc_00001000" ≠ "$123456789" := by decide +kernel
  exact replaced (kept _ _ unshown)

end M68k
