import Mathlib
import M68k.Mode

/-!
Bit fields of words: how masks, fields and single bits go together, and what modes and
sizes follow from them.
-/
namespace M68k

namespace Word

theorem field_eq (w : Word) (low width : Nat) : w.field low width = w.toNat / 2 ^ low % 2 ^ width := by
  rw [field, Nat.shiftRight_eq_div_pow, Nat.one_shiftLeft]

theorem field_lt (w : Word) (low width : Nat) : w.field low width < 2 ^ width := by
  rw [field_eq]
  exact Nat.mod_lt _ (Nat.two_pow_pos width)

theorem testBit_field (w : Word) (low width i : Nat) :
    (w.field low width).testBit i = (decide (i < width) && w.toNat.testBit (low + i)) := by
  rw [field_eq, Nat.testBit_mod_two_pow, Nat.testBit_div_two_pow, Nat.add_comm]

/-- A field of a masked word is the masked field. -/
theorem field_and (w mask : Word) (low width : Nat) :
    Word.field (w &&& mask) low width = w.field low width &&& mask.field low width := by
  apply Nat.eq_of_testBit_eq
  intro i
  simp only [testBit_field, UInt16.toNat_and, Nat.testBit_and]
  cases decide (i < width) <;> simp

/-- The mask of a field leaves the field in its place. -/
theorem toNat_and_mask (w mask : Word) (low width : Nat)
    (field : mask.toNat = (2 ^ width - 1) * 2 ^ low) :
    (w &&& mask).toNat = w.field low width * 2 ^ low := by
  apply Nat.eq_of_testBit_eq
  intro i
  simp only [UInt16.toNat_and, Nat.testBit_and, field, Nat.testBit_mul_two_pow,
    Nat.testBit_two_pow_sub_one, testBit_field]
  by_cases below : low ≤ i
  · rw [Nat.add_sub_cancel' below]
    simp [below, Bool.and_comm]
  · simp [below]

theorem bit_eq_field (w : Word) (i : Nat) : w.bit i = decide (w.field i 1 = 1) := by
  simp [bit, field_eq, Nat.testBit_eq_decide_div_mod_eq]

theorem bit_eq_false (w : Word) {i : Nat} (beyond : 16 ≤ i) : w.bit i = false := by
  apply Nat.testBit_lt_two_pow
  calc w.toNat < 2 ^ 16 := w.toNat_lt
    _ ≤ 2 ^ i := Nat.pow_le_pow_right (by decide) beyond

/-- A word has sixteen bits. -/
theorem eq_of_bit_eq {w v : Word} (same : ∀ i < 16, w.bit i = v.bit i) : w = v := by
  apply UInt16.toNat_inj.mp
  apply Nat.eq_of_testBit_eq
  intro i
  by_cases inside : i < 16
  · exact same i inside
  · exact (w.bit_eq_false (by omega)).trans (v.bit_eq_false (by omega)).symm

/-- Words agree under a mask if they agree in its bits. -/
theorem and_eq_and_iff {w v mask : Word} :
    w &&& mask = v &&& mask ↔ ∀ i < 16, mask.bit i = true → w.bit i = v.bit i := by
  have masked (x : Word) (i : Nat) : Word.bit (x &&& mask) i = (x.bit i && mask.bit i) := by
    simp only [bit, UInt16.toNat_and, Nat.testBit_and]
  constructor
  · intro same i _ counts
    have here := congrArg (Word.bit · i) same
    simpa only [masked, counts, Bool.and_true] using here
  · intro agree
    apply eq_of_bit_eq
    intro i inside
    rw [masked, masked]
    cases counts : mask.bit i with
    | true => rw [agree i inside counts]
    | false => rw [Bool.and_false, Bool.and_false]

/-- Words agree in a field if they agree in its bits. -/
theorem field_eq_field_iff {w v : Word} {low width : Nat} :
    w.field low width = v.field low width ↔ ∀ i < width, w.bit (low + i) = v.bit (low + i) := by
  constructor
  · intro same i inside
    have here := congrArg (Nat.testBit · i) same
    simpa [testBit_field, inside, bit] using here
  · intro agree
    apply Nat.eq_of_testBit_eq
    intro i
    rw [testBit_field, testBit_field]
    by_cases inside : i < width
    · rw [show w.toNat.testBit (low + i) = v.toNat.testBit (low + i) from agree i inside]
    · simp [inside]

/-- A field is made of its lower and its upper part. -/
theorem field_add (w : Word) (low m n : Nat) :
    w.field low (m + n) = w.field low m + 2 ^ m * w.field (low + m) n := by
  simp only [field_eq, Nat.pow_add, Nat.mod_mul, Nat.div_div_eq_div_mul]

theorem toNat_destinationField (w : Word) : w.destinationField.toNat = w.field 6 3 * 8 + w.field 9 3 := by
  have mode := w.field_lt 6 3
  have register := w.field_lt 9 3
  have small : w.field 6 3 * 8 + w.field 9 3 < 2 ^ 16 := by omega
  rw [destinationField, UInt16.toNat_ofNat_of_lt' small]

/-- The mode bits of a MOVE destination are its bits 8-6. -/
theorem destinationField_mode (w : Word) : w.destinationField.field 3 3 = w.field 6 3 := by
  have mode := w.field_lt 6 3
  have register := w.field_lt 9 3
  rw [field_eq, toNat_destinationField]
  omega

/-- The register bits of a MOVE destination are its bits 11-9. -/
theorem destinationField_register (w : Word) : w.destinationField.field 0 3 = w.field 9 3 := by
  have register := w.field_lt 9 3
  rw [field_eq, toNat_destinationField]
  omega

end Word

theorem Size.ofField_eq_reserved {w : Word} (full : w.field 6 2 = 3) : Size.ofField w = .reserved := by
  rw [Size.ofField, full]
  rfl

theorem Size.ofMoveField_eq_reserved {w : Word} (empty : w.field 12 2 = 0) :
    Size.ofMoveField w = .reserved := by
  rw [Size.ofMoveField, empty]
  rfl

theorem Mode.ofField_eq_dataRegister {w : Word} (direct : w.field 3 3 = 0) :
    Mode.ofField w = .dataRegister := by
  rw [Mode.ofField, direct]
  rfl

theorem Mode.ofField_eq_addressRegister {w : Word} (direct : w.field 3 3 = 1) :
    Mode.ofField w = .addressRegister := by
  rw [Mode.ofField, direct]
  rfl

theorem Size.ofField_cases (w : Word) :
    w.field 6 2 = 0 ∧ Size.ofField w = .byte ∨ w.field 6 2 = 1 ∧ Size.ofField w = .word ∨
      w.field 6 2 = 2 ∧ Size.ofField w = .long ∨ w.field 6 2 = 3 ∧ Size.ofField w = .reserved := by
  have bound := w.field_lt 6 2
  unfold Size.ofField
  generalize w.field 6 2 = code at *
  interval_cases code <;> decide

/-- The modes 0 to 6 come from the upper three bits; 7 leads to the later modes only. -/
theorem Mode.ofField_code (w : Word) :
    ∃ code : Nat, code < 13 ∧ Mode.ofField w = ofCode code ∧
      (w.field 3 3 = code ∨ w.field 3 3 = 7 ∧ 7 ≤ code) := by
  have bound := w.field_lt 3 3
  by_cases last : w.field 3 3 = 7
  · refine ⟨min (7 + w.field 0 3) 12, by omega, ?_, .inr ⟨last, by omega⟩⟩
    rw [Mode.ofField, if_pos last]
    push_cast
    rfl
  · exact ⟨w.field 3 3, by omega, by rw [Mode.ofField, if_neg last], .inl rfl⟩

/-- The modes that a field of a word can hold. -/
def Mode.encoded : List Mode := (List.range 13).map fun code : Nat => ofCode code

theorem Mode.ofField_mem (w : Word) : Mode.ofField w ∈ encoded := by
  obtain ⟨code, small, mode, _⟩ := ofField_code w
  rw [mode]
  exact List.mem_map.mpr ⟨code, List.mem_range.mpr small, rfl⟩

theorem Mode.ofField_cases (w : Word) :
    w.field 3 3 = 0 ∧ Mode.ofField w = .dataRegister ∨
      w.field 3 3 = 1 ∧ Mode.ofField w = .addressRegister ∨
      2 ≤ w.field 3 3 ∧ Mode.ofField w ≠ .dataRegister ∧ Mode.ofField w ≠ .addressRegister := by
  obtain ⟨code, small, mode, field⟩ := ofField_code w
  rw [mode]
  obtain rfl | rfl | later : code = 0 ∨ code = 1 ∨ 2 ≤ code := by omega
  · exact .inl ⟨by omega, rfl⟩
  · exact .inr (.inl ⟨by omega, rfl⟩)
  · refine .inr (.inr ⟨by omega, ?_⟩)
    clear mode field
    interval_cases code <;> decide

theorem Mode.field_of_addressRegister {w : Word} (mode : Mode.ofField w = .addressRegister) :
    w.field 3 3 = 1 := by
  rcases Mode.ofField_cases w with ⟨_, data⟩ | ⟨code, _⟩ | ⟨_, _, other⟩
  · simp [mode] at data
  · exact code
  · exact absurd mode other

/-- Bits 5-4 are clear exactly for the two register modes. -/
theorem Mode.direct_iff (w : Word) :
    Mode.ofField w = .dataRegister ∨ Mode.ofField w = .addressRegister ↔ w.field 4 2 = 0 := by
  have parts : w.field 3 3 = w.field 3 1 + 2 * w.field 4 2 := w.field_add 3 1 2
  have low := w.field_lt 3 1
  rcases Mode.ofField_cases w with ⟨code, mode⟩ | ⟨code, mode⟩ | ⟨code, other, another⟩
  · simp only [mode, true_or, true_iff]
    omega
  · simp only [mode, or_true, true_iff]
    omega
  · simp only [other, another, or_self, false_iff]
    omega

end M68k
