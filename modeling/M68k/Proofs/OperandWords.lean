import Mathlib
import M68k.Proofs.Operations

/-!
Operands take the words they announce. An operand is given by three numbers, any numbers, and
the number of its extension words is known before one of them is read. Written mode by mode,
each mode asking for its words as it comes to them (`transcribe`), it is the same operand as
read at once; so the announced number is what moves the cursor, and an operand that cannot be
written moves nothing (`Operand.Taken`).
-/
namespace M68k

open Text (hex signed)

/-! ## Codes -/

namespace Size

theorem ofCode_eq_reserved (code : Int) : ofCode code = .reserved ↔ ¬ (0 ≤ code ∧ code ≤ 2) := by
  unfold ofCode
  split_ifs
  all_goals simp only [false_iff, true_iff]
  all_goals omega

theorem immediateWords_ofCode (code : Int) : (ofCode code).immediateWords = if code = 2 then 2 else 1 := by
  unfold ofCode
  by_cases long : code = 2
  · subst long
    rfl
  · simp only [if_neg long]
    split_ifs <;> rfl

end Size

namespace Mode

theorem ofCode_eq_invalid {code : Int} (outside : ¬ (0 ≤ code ∧ code ≤ 11)) :
    ofCode code = .invalid code := by
  unfold ofCode
  split
  case h_13 => rfl
  all_goals omega

/-- The codes of modes are 0 to 11. -/
theorem isValid_ofCode (code : Int) : (ofCode code).isValid = true ↔ 0 ≤ code ∧ code ≤ 11 := by
  by_cases inside : 0 ≤ code ∧ code ≤ 11
  · obtain ⟨low, high⟩ := inside
    interval_cases code <;> decide
  · simp [ofCode_eq_invalid inside, isValid, inside]

theorem ofCode_eq_immediate (code : Int) : ofCode code = .immediate ↔ code = 11 := by
  by_cases inside : 0 ≤ code ∧ code ≤ 11
  · obtain ⟨low, high⟩ := inside
    interval_cases code <;> decide
  · rw [ofCode_eq_invalid inside]
    constructor
    · intro same
      cases same
    · omega

/-- The number of extension words by codes. Only immediate data asks for the size, and a code
    that is no size counts as one word. -/
theorem extensionWords_ofCode (code size : Int) :
    (ofCode code).extensionWords (Size.ofCode size) =
      if code = 11 then (if size = 2 then 2 else 1)
      else if code = 8 then 2
      else if 5 ≤ code ∧ code ≤ 10 then 1 else 0 := by
  by_cases immediate : code = 11
  · rw [if_pos immediate, (ofCode_eq_immediate code).mpr immediate, extensionWords,
      Size.immediateWords_ofCode]
  · by_cases inside : 0 ≤ code ∧ code ≤ 11
    · obtain ⟨low, high⟩ : 0 ≤ code ∧ code ≤ 10 := by omega
      interval_cases code <;> rfl
    · rw [ofCode_eq_invalid inside, if_neg immediate, if_neg (by omega), if_neg (by omega)]
      rfl

end Mode

namespace Operand

/-- An operand has a fault if its mode is none, or if it is immediate data of no size. -/
theorem fault?_ofCodes (mode register size : Int) :
    (ofCodes mode register size).fault? =
      if ¬ (0 ≤ mode ∧ mode ≤ 11) then some (.invalidMode mode)
      else if mode = 11 ∧ ¬ (0 ≤ size ∧ size ≤ 2) then some .invalidSize
      else none := by
  by_cases inside : 0 ≤ mode ∧ mode ≤ 11
  · simp only [if_neg (not_not.mpr inside), ← Mode.ofCode_eq_immediate, ← Size.ofCode_eq_reserved]
    have valid := (Mode.isValid_ofCode mode).mpr inside
    unfold fault? ofCodes
    generalize Mode.ofCode mode = kind at valid ⊢
    cases kind with
    | invalid code => cases valid
    | immediate => cases Size.ofCode size <;> rfl
    | _ => rfl
  · rw [if_pos inside, fault?, ofCodes, Mode.ofCode_eq_invalid inside]

end Operand

/-! ## Relative addresses -/

/-- Two bytes as a two's complement number, the more significant first. -/
def signedPair (high low : Byte) : Int :=
  let n := 256 * high.toNat + low.toNat
  if n < 32768 then n else n - 65536

theorem bmod_word {n : Nat} (small : n < 65536) :
    Int.bmod n 65536 = if n < 32768 then (n : Int) else n - 65536 := by
  rw [Int.bmod_def]
  split_ifs <;> omega

theorem Word.signed_ofBytes (high low : Byte) : (Word.ofBytes high low).signed = signedPair high low := by
  have value : (Word.ofBytes high low).signed = _ := bmod_word (Word.ofBytes high low).toNat_lt
  rw [Word.toNat_ofBytes] at value
  exact value

/-- A text shows where the distance in the next two bytes leads to, counted from the place where
    these bytes lie. -/
def Cursor.ShowsTarget (c : Cursor) (text : String) : Prop :=
  ∀ high low behind, c.rest = high :: low :: behind → ∃ target : Address,
    (target.toNat : Int) = (c.address.toNat + signedPair high low) % 2 ^ 32 ∧
      text = signed (signedPair high low) ++ "(PC) \x7b$" ++ hex .lower 8 target.toNat ++ "\x7d"

theorem Cursor.showsTarget_textAt {o : Operand} (relative : o.mode = .pcDisplacement) (c : Cursor) :
    c.ShowsTarget ((Piece.operand o).textAt c) := by
  intro high low behind present
  have one : o.words = 1 := by
    rw [Operand.words, relative]
    rfl
  have word : (c.readWords 1).1 = [Word.ofBytes high low] := by
    simp [Cursor.readWords, Cursor.readWord, present]
  have place : (c.skip 1).address - 2 = c.address := by
    rw [Cursor.address_skip (by simp [present])]
    simp [Address.advance]
  have brace : ("(PC) \x7b$" : String) = "(PC) \x7b" ++ "$" := by decide
  refine ⟨c.address.offset (signedPair high low), Address.toNat_offset _ _, ?_⟩
  simp only [Piece.textAt, Piece.words, one, word, Piece.render, Operand.text, relative,
    List.getD_cons_zero, Word.relativeTarget, place, Word.signed_ofBytes, brace, String.append_assoc]

/-! ## What an operand takes -/

/-- A cursor has passed over as many of the next `n` words as there are, and is marked if there
    are fewer. -/
structure Cursor.Passed (n : Nat) (before after : Cursor) : Prop where
  rest : after.rest = before.rest.drop (2 * min n (before.remaining / 2))
  position : after.position = before.position + 2 * min n (before.remaining / 2)
  address : after.address = before.address.advance (2 * min n (before.remaining / 2))
  overflow : after.overflow = true ↔ before.overflow = true ∨ before.remaining < 2 * n

theorem Cursor.passed_skip (n : Nat) (c : Cursor) : c.Passed n (c.skip n) where
  rest := rfl
  position := rfl
  address := rfl
  overflow := by simp [skip, remaining]

/-- What reading an operand with these codes comes to. Without a text nothing is read; with one,
    the announced words are. -/
def Operand.Taken (mode size : Int) (before after : Cursor) : Except OperandError String → Prop
  | .error (.invalidMode code) => ¬ (0 ≤ mode ∧ mode ≤ 11) ∧ code = mode ∧ after = before
  | .error .invalidSize => mode = 11 ∧ ¬ (0 ≤ size ∧ size ≤ 2) ∧ after = before
  | .ok text => (0 ≤ mode ∧ mode ≤ 11) ∧ ¬ (mode = 11 ∧ ¬ (0 ≤ size ∧ size ≤ 2)) ∧
      before.Passed ((Mode.ofCode mode).extensionWords (Size.ofCode size)) after ∧
      (mode = 9 → before.ShowsTarget text)

/-- Reading an operand agrees with the words it announces, whatever the codes and wherever the
    cursor stands. It fails exactly for a mode that is none and for immediate data of no size, and
    then reads nothing; otherwise it passes over the announced words, as far as they are there,
    and a distance from the program counter is shown with the address it leads to. -/
theorem Operand.read_takes_announced (mode register size : Int) (c : Cursor) :
    let o := Operand.ofCodes mode register size
    let announced := (Mode.ofCode mode).extensionWords (Size.ofCode size)
    announced = (if mode = 11 then (if size = 2 then 2 else 1)
      else if mode = 8 then 2 else if 5 ≤ mode ∧ mode ≤ 10 then 1 else 0) ∧
    o.transcribe.run c = o.read c ∧
    ((∃ error, (o.read c).1 = .error error) ↔
      ¬ (0 ≤ mode ∧ mode ≤ 11) ∨ mode = 11 ∧ ¬ (0 ≤ size ∧ size ≤ 2)) ∧
    Operand.Taken mode size c (o.read c).2 (o.read c).1 := by
  intro o announced
  refine ⟨Mode.extensionWords_ofCode mode size, o.run_transcribe c, ?_⟩
  have fault : o.fault? = _ := fault?_ofCodes mode register size
  by_cases inside : 0 ≤ mode ∧ mode ≤ 11
  · rw [if_neg (not_not.mpr inside)] at fault
    by_cases unsized : mode = 11 ∧ ¬ (0 ≤ size ∧ size ≤ 2)
    · rw [if_pos unsized] at fault
      simp only [read, fault]
      exact ⟨⟨fun _ => .inr unsized, fun _ => ⟨_, rfl⟩⟩, unsized.1, unsized.2, rfl⟩
    · rw [if_neg unsized] at fault
      rw [Operand.read_sound fault]
      refine ⟨⟨?_, ?_⟩, inside, unsized, Cursor.passed_skip _ c, ?_⟩
      · rintro ⟨error, failed⟩
        cases failed
      · rintro (outside | reserved)
        · exact absurd inside outside
        · exact absurd reserved unsized
      · rintro rfl
        exact Cursor.showsTarget_textAt rfl c
  · rw [if_pos inside] at fault
    simp only [read, fault]
    exact ⟨⟨fun _ => .inl inside, fun _ => ⟨_, rfl⟩⟩, inside, rfl, rfl⟩

end M68k
