import Mathlib
import M68k.Proofs.Scanning

/-!
How long an instruction is. The instruction word and the style fix the form, the mnemonic
and the number of extension words (`Form.extensionWords`); what follows the word only
decides whether all of them are there. The number is not only announced: it is what the
handlers take, which ask for one word after the other (`Operand.transcribe`,
`Handler.immediateSource`).
-/
namespace M68k

namespace Form

/-- The extension words of an instruction, by form: immediate data and bit numbers,
    register masks, displacements, and what the addressing modes need. -/
def extensionWords (f : Form) (style : Style) (w : Word) : Nat :=
  let size := f.entry.encoding.size w
  let address := (Mode.ofField w).extensionWords size
  match f with
  | .abcd | .sbcd | .addx | .subx | .cmpm | .exg | .ext | .moveUserStack | .moveq
  | .aslRegister | .asrRegister | .lslRegister | .lsrRegister
  | .rolRegister | .rorRegister | .roxlRegister | .roxrRegister
  | .nop | .reset | .rte | .rtr | .rts | .trapv | .swap | .trap | .unlk => 0
  | .stop => if style = .corrected then 1 else 0
  | .link | .movep | .decrementBranch => 1
  | .branch => if w.field 0 8 = 0 then 1 else 0
  | .movem | .bchgNumber | .bclrNumber | .bsetNumber | .btstNumber => 1 + address
  | .addi | .andi | .cmpi | .eori | .ori | .subi =>
    size.immediateWords + if Mode.ofField w = .immediate then 0 else address
  | .move => address + (Mode.ofField w.destinationField).extensionWords size
  | _ => address

/-- The pieces of an operand field take the extension words of the form. -/
theorem total_operands (f : Form) (style : Style) (w : Word) :
    Piece.total (f.operands style w) = f.extensionWords style w := by
  cases f with
  | stop | branch | movep =>
    simp only [operands, entry, Encoding.operands, extensionWords]
    split <;> rfl
  | add | and | or | sub | eor | movem | addi | andi | cmpi | eori | ori | subi =>
    simp only [operands, entry, Encoding.operands, extensionWords]
    split <;> simp [Piece.total, Piece.words, Operand.words, Operand.ofField]
  | _ =>
    simp [operands, entry, Encoding.operands, extensionWords, Piece.total, Piece.words,
      Operand.words, Operand.ofField]

end Form

theorem Size.immediateWords_le (s : Size) : s.immediateWords ≤ 2 := by
  cases s <;> decide

theorem Mode.extensionWords_le (m : Mode) (s : Size) : m.extensionWords s ≤ 2 := by
  cases m with
  | immediate => exact s.immediateWords_le
  | _ => simp [extensionWords]

namespace Form

/-- The longest instruction moves long data from one long place to another. -/
theorem extensionWords_le (f : Form) (style : Style) (w : Word) : f.extensionWords style w ≤ 4 := by
  have immediate := (f.entry.encoding.size w).immediateWords_le
  have source := (Mode.ofField w).extensionWords_le (f.entry.encoding.size w)
  have destination := (Mode.ofField w.destinationField).extensionWords_le (f.entry.encoding.size w)
  cases f with
  | stop | branch | addi | andi | cmpi | eori | ori | subi =>
    simp only [extensionWords]
    split <;> omega
  | _ =>
    simp only [extensionWords]
    omega

/-- The words of the instruction that a word starts: the word itself, and the extension
    words of the form that accepts it, if one does. -/
def needed (style : Style) (w : Word) : Nat :=
  1 + match select? style w with
    | none => 0
    | some f => f.extensionWords style w

theorem needed_le (style : Style) (w : Word) : needed style w ≤ 5 := by
  unfold needed
  split
  · omega
  · rename_i f _
    have bound := f.extensionWords_le style w
    omega

end Form

namespace Decoder

/-- A word that no form accepts is read alone. -/
theorem decode_unmatched (d : Decoder) {c : Cursor}
    (found : Form.select? d.style (leadingWord c.rest) = none) :
    (d.decode c).instruction =
      { address := c.address, op := leadingWord c.rest
        size := UInt32.ofNat (2 * min 1 (c.rest.length / 2)) } ∧
      (d.decode c).cursor = c.skip 1 := by
  have first : c.readWord = (leadingWord c.rest, c.skip 1) :=
    Prod.ext c.readWord_fst c.readWord_snd
  have moved : (c.skip 1).position - c.position = 2 * min 1 (c.rest.length / 2) := by
    simp only [Cursor.skip]
    omega
  simp only [decode, first, found, moved, and_self]

/-- A word that a form accepts is read with all the words that the form needs. -/
theorem decode_matched (d : Decoder) {c : Cursor} {f : Form}
    (found : Form.select? d.style (leadingWord c.rest) = some f) :
    (d.decode c).instruction =
      { address := c.address, op := leadingWord c.rest, form := some f
        mnemonic := f.mnemonic d.style (leadingWord c.rest)
        operands := (Reading.ofPieces (f.operands d.style (leadingWord c.rest)) (c.skip 1)).text
        size := UInt32.ofNat
          (2 * min (1 + f.extensionWords d.style (leadingWord c.rest)) (c.rest.length / 2))
        valid := true } ∧
      (d.decode c).cursor = c.skip (1 + f.extensionWords d.style (leadingWord c.rest)) := by
  have first : c.readWord = (leadingWord c.rest, c.skip 1) :=
    Prod.ext c.readWord_fst c.readWord_snd
  have sound := Form.operands_sound (Form.accepts_of_select? found)
  obtain ⟨_, cursor⟩ := Reading.ofPieces_sound sound (c.skip 1)
  rw [Cursor.skip_skip, Form.total_operands] at cursor
  have moved : (c.skip (1 + f.extensionWords d.style (leadingWord c.rest))).position - c.position =
      2 * min (1 + f.extensionWords d.style (leadingWord c.rest)) (c.rest.length / 2) := by
    simp only [Cursor.skip]
    omega
  simp only [decode, first, found, cursor, moved, and_self]

/-- The cursor behind an instruction has read the words that the instruction needs. -/
theorem decode_cursor (d : Decoder) (c : Cursor) :
    (d.decode c).cursor = c.skip (Form.needed d.style (leadingWord c.rest)) := by
  unfold Form.needed
  cases found : Form.select? d.style (leadingWord c.rest) with
  | none => exact (d.decode_unmatched found).2
  | some f => exact (d.decode_matched found).2

/-- The size of an instruction is what the window had of the words it needs. -/
theorem decode_size (d : Decoder) (c : Cursor) :
    (d.decode c).instruction.size.toNat =
      2 * min (Form.needed d.style (leadingWord c.rest)) (c.rest.length / 2) := by
  have bound := Form.needed_le d.style (leadingWord c.rest)
  have fits : 2 * min (Form.needed d.style (leadingWord c.rest)) (c.rest.length / 2) < 2 ^ 32 := by
    omega
  unfold Form.needed at fits ⊢
  cases found : Form.select? d.style (leadingWord c.rest) with
  | none =>
    rw [(d.decode_unmatched found).1]
    simp only [found] at fits
    exact UInt32.toNat_ofNat_of_lt' fits
  | some f =>
    rw [(d.decode_matched found).1]
    simp only [found] at fits
    exact UInt32.toNat_ofNat_of_lt' fits

theorem decode_address (d : Decoder) (c : Cursor) : (d.decode c).instruction.address = c.address := by
  cases found : Form.select? d.style (leadingWord c.rest) with
  | none => rw [(d.decode_unmatched found).1]
  | some f => rw [(d.decode_matched found).1]

theorem decode_op (d : Decoder) (c : Cursor) : (d.decode c).instruction.op = leadingWord c.rest := by
  cases found : Form.select? d.style (leadingWord c.rest) with
  | none => rw [(d.decode_unmatched found).1]
  | some f => rw [(d.decode_matched found).1]

theorem decode_form (d : Decoder) (c : Cursor) :
    (d.decode c).instruction.form = Form.select? d.style (leadingWord c.rest) := by
  cases found : Form.select? d.style (leadingWord c.rest) with
  | none => rw [(d.decode_unmatched found).1]
  | some f => rw [(d.decode_matched found).1]

theorem decode_valid (d : Decoder) (c : Cursor) :
    (d.decode c).instruction.valid = (Form.select? d.style (leadingWord c.rest)).isSome := by
  cases found : Form.select? d.style (leadingWord c.rest) with
  | none => rw [(d.decode_unmatched found).1]; rfl
  | some f => rw [(d.decode_matched found).1]; rfl

/-- The instruction word and the style fix the form, the mnemonic, the validity and the
    length of an instruction, which lies between 2 and 10 bytes. The bytes behind the word
    and the address have no say: a window that is too short is read as far as it has whole
    words, and leaves the mark. The search, whose handlers ask for the words of operands and of
    immediate data one by one, ends with this instruction and at this place. -/
theorem decode_length_law (d : Decoder) (window : List Byte) (address : Address) :
    let op := leadingWord window
    let form := Form.select? d.style op
    let length := 2 * Form.needed d.style op
    let result := d.decode (Cursor.start window address)
    result.instruction.op = op ∧ result.instruction.form = form ∧
      result.instruction.valid = form.isSome ∧
      result.instruction.mnemonic = (form.map (·.mnemonic d.style op)).getD "" ∧
      2 ≤ length ∧ length ≤ 10 ∧
      result.instruction.size.toNat = min length (2 * (window.length / 2)) ∧
      (result.cursor.overflow = true ↔ window.length < length) ∧
      ∀ (asks : Event → Bool) (before : List Event),
        (Scanning.instruction d asks Form.all).run ⟨Cursor.start window address, before⟩ =
          .ok result.instruction ⟨result.cursor, before ++ result.events⟩ := by
  intro op form length result
  have short : length ≤ 10 := by
    have bound := Form.needed_le d.style op
    omega
  have long : 2 ≤ length := by
    simp only [length, Form.needed]
    omega
  have size : result.instruction.size.toNat = min length (2 * (window.length / 2)) := by
    have taken := d.decode_size (Cursor.start window address)
    simp only [Cursor.start] at taken
    simp only [result, length, op, Cursor.start, taken]
    omega
  have overflow : result.cursor.overflow = true ↔ window.length < length := by
    simp only [result, d.decode_cursor, Cursor.skip, Cursor.start, Bool.false_or, decide_eq_true_eq]
    rfl
  cases found : form with
  | none =>
    have read : result.instruction = _ := (d.decode_unmatched (c := Cursor.start window address) found).1
    refine ⟨?_, ?_, ?_, ?_, long, short, size, overflow, fun _ _ => Scanning.run_instruction⟩ <;> rw [read]
    all_goals rfl
  | some f =>
    have read : result.instruction = _ := (d.decode_matched (c := Cursor.start window address) found).1
    refine ⟨?_, ?_, ?_, ?_, long, short, size, overflow, fun _ _ => Scanning.run_instruction⟩ <;> rw [read]
    all_goals rfl

end Decoder
end M68k
