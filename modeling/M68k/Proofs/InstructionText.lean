import Mathlib
import M68k.Proofs.Characters
import M68k.Proofs.Length

/-!
The characters of an instruction's text. Operand fields are made of digits, a few letters and
a few signs, so that characters foreign to them (`Foreign`) do not occur there; the end of a row
is one. Mnemonics are made of letters and a point, and every one of them fits into its eight columns.
-/
namespace M68k

open Text

/-- The characters of operand fields: digits, the letters of registers and sizes, and signs. -/
def Text.isOperandCharacter (c : Char) : Bool :=
  (hexValue? c).isSome || "#$()+,-. \x7b\x7dLPRSUW".toList.contains c

/-- A character that no operand field holds. -/
def Text.Foreign (c : Char) : Prop := isOperandCharacter c = false

theorem Text.foreign_newline : Foreign '\n' := rfl

section
variable {c : Char}

namespace Text.Foreign

/-- A text that could stand in an operand field has no foreign character. -/
theorem lacks (foreign : Foreign c) {s : String} (known : s.toList.all isOperandCharacter = true) :
    Lacks c s := by
  intro member
  have inside := List.all_eq_true.mp known c member
  rw [foreign] at inside
  cases inside

theorem hexValue? (foreign : Foreign c) : Text.hexValue? c = none := by
  have other := (Bool.or_eq_false_iff.mp foreign).1
  exact Option.isNone_iff_eq_none.mp (Option.isSome_eq_false_iff.mp other)

theorem isDigit (foreign : Foreign c) : c.isDigit = false := by
  have none := foreign.hexValue?
  rw [← Bool.not_eq_true]
  intro digit
  have range : '0' ≤ c ∧ c ≤ '9' := by
    simp only [Char.isDigit, Bool.and_eq_true, decide_eq_true_eq] at digit
    exact digit
  rw [Text.hexValue?, if_pos range] at none
  cases none

theorem lacks_hex (foreign : Foreign c) (letters : LetterCase) (width n : Nat) :
    Lacks c (hex letters width n) := Text.lacks_hex foreign.hexValue? letters width n

theorem ne (foreign : Foreign c) {x : Char} (known : isOperandCharacter x = true) : c ≠ x := by
  rintro rfl
  rw [foreign] at known
  cases known

theorem lacks_decimal (foreign : Foreign c) (n : Int) : Lacks c (decimal n) :=
  Text.lacks_decimal foreign.isDigit (foreign.ne (by decide)) n

theorem lacks_signed (foreign : Foreign c) (n : Int) : Lacks c (signed n) :=
  Text.lacks_signed foreign.isDigit (foreign.ne (by decide)) (foreign.ne (by decide)) n

end Text.Foreign

theorem Size.lacks_immediateText (foreign : Foreign c) (size : Size) (letters : LetterCase)
    (first second : Word) : Lacks c (size.immediateText letters first second) := by
  cases size <;> simp +decide [immediateText, foreign.lacks, foreign.lacks_hex]

namespace Word

theorem lacks_indexRegister (digit : c.isDigit = false) (minus : c ≠ '-')
    (letters : ∀ s ∈ ["A", "D", ".L", ".W"], Lacks c s) (w : Word) : Lacks c w.indexRegister := by
  unfold indexRegister
  simp only [lacks_append]
  refine ⟨⟨?_, lacks_decimal digit minus _⟩, ?_⟩
  · split
    · exact letters "A" (by decide)
    · exact letters "D" (by decide)
  · split
    · exact letters ".L" (by decide)
    · exact letters ".W" (by decide)

theorem lacks_relativeTarget (foreign : Foreign c) (w : Word) (after : Address) :
    Lacks c (w.relativeTarget after) := by
  simp +decide [relativeTarget, foreign.lacks, foreign.lacks_hex]

end Word

theorem Operand.lacks_text (foreign : Foreign c) (o : Operand) (after : Address) (extension : List Word) :
    Lacks c (o.text after extension) := by
  have letters : ∀ s ∈ ["A", "D", ".L", ".W"], Lacks c s := by simp +decide [foreign.lacks]
  have register := Word.lacks_indexRegister foreign.isDigit (foreign.ne (by decide)) letters
  unfold Operand.text
  split <;> simp +decide [foreign.lacks, foreign.lacks_hex, foreign.lacks_decimal, foreign.lacks_signed,
    register, Word.lacks_relativeTarget foreign, Size.lacks_immediateText foreign]

namespace RegisterList

theorem Run.lacks_entries (foreign : Foreign c) {register : String} (plain : Lacks c register) (run : Run) :
    ∀ s ∈ run.entries register, Lacks c s := by
  have number : ∀ n : Nat, Lacks c (register ++ decimal n) := by
    intro n
    exact lacks_append.mpr ⟨plain, foreign.lacks_decimal n⟩
  intro s member
  unfold Run.entries at member
  split at member
  · rw [List.mem_singleton.mp member]
    exact number _
  · split at member
    · rcases List.mem_pair.mp member with rfl | rfl
      · exact number _
      · exact number _
    · rw [List.mem_singleton.mp member, lacks_append, lacks_append]
      exact ⟨⟨number _, foreign.lacks (by decide)⟩, number _⟩

theorem lacks_entries (foreign : Foreign c) {mask : Word} : ∀ s ∈ entries mask, Lacks c s := by
  intro s member
  rcases List.mem_append.mp member with data | address
  · obtain ⟨run, _, inside⟩ := List.mem_flatMap.mp data
    exact run.lacks_entries foreign (foreign.lacks (by decide)) s inside
  · obtain ⟨run, _, inside⟩ := List.mem_flatMap.mp address
    exact run.lacks_entries foreign (foreign.lacks (by decide)) s inside

end RegisterList

namespace Piece

theorem lacks_loadList (foreign : Foreign c) {style : Style} {entries : List String}
    (each : ∀ s ∈ entries, Lacks c s) : Lacks c (loadList style entries) := by
  have list : Lacks c (",".intercalate entries) := lacks_intercalate (foreign.lacks (by decide)) each
  unfold loadList
  split <;> simp +decide [foreign.lacks, list]

/-- A piece whose literal text lacks a character. -/
def Plain (c : Char) : Piece → Prop
  | .text s => Lacks c s
  | _ => True

theorem lacks_render (foreign : Foreign c) {p : Piece} (plain : p.Plain c) (after : Address)
    (extension : List Word) : Lacks c (p.render after extension) := by
  cases p with
  | text s => exact plain
  | operand o => exact o.lacks_text foreign after extension
  | immediate size => exact size.lacks_immediateText foreign _ _ _
  | target => exact Word.lacks_relativeTarget foreign _ _
  | store backwards =>
    refine lacks_join fun s member => ?_
    obtain ⟨entry, listed, rfl⟩ := List.mem_map.mp member
    exact lacks_append.mpr ⟨RegisterList.lacks_entries foreign entry listed, foreign.lacks (by decide)⟩
  | load source style =>
    exact lacks_append.mpr
      ⟨source.lacks_text foreign after extension.tail,
        lacks_loadList foreign (RegisterList.lacks_entries foreign)⟩
  | bitNumber | nearTarget | frameSize | offset =>
    simp +decide [render, foreign.lacks, foreign.lacks_hex, foreign.lacks_decimal, foreign.lacks_signed]

end Piece

theorem Reading.lacks_text (foreign : Foreign c) {pieces : List Piece} (plain : ∀ p ∈ pieces, p.Plain c)
    (cursor : Cursor) : Lacks c (ofPieces pieces cursor).text := by
  induction pieces generalizing cursor with
  | nil => simp [ofPieces, Lacks]
  | cons p rest ih =>
    obtain ⟨here, behind⟩ := List.forall_mem_cons.mp plain
    simp only [ofPieces, Piece.read]
    cases p.fault? with
    | some _ => exact ih behind _
    | none => exact lacks_append.mpr ⟨Piece.lacks_render foreign here _ _, ih behind _⟩

namespace Encoding

theorem lacks_dataRegister (foreign : Foreign c) (n : Nat) : Lacks c (dataRegister n) := by
  simp +decide [dataRegister, foreign.lacks, foreign.lacks_decimal]

theorem lacks_addressRegister (foreign : Foreign c) (n : Nat) : Lacks c (addressRegister n) := by
  simp +decide [addressRegister, foreign.lacks, foreign.lacks_decimal]

theorem lacks_count (foreign : Foreign c) (n : Nat) : Lacks c (count n) := by
  simp +decide [count, foreign.lacks, foreign.lacks_decimal]

theorem lacks_exchanged (foreign : Foreign c) (style : Style) (w : Word) : Lacks c (exchanged style w) := by
  cases style <;> simp only [exchanged] <;> split <;>
    simp +decide [foreign.lacks, lacks_dataRegister foreign, lacks_addressRegister foreign]

theorem lacks_decimalPair (foreign : Foreign c) (style : Style) (w : Word) :
    Lacks c (decimalPair style w) := by
  unfold decimalPair
  cases style <;> split <;>
    simp +decide [foreign.lacks, lacks_dataRegister foreign, lacks_addressRegister foreign,
      foreign.lacks_decimal]

theorem lacks_statusRegister (foreign : Foreign c) (style : Style) (size : Size) :
    Lacks c (statusRegister style size) := by
  unfold statusRegister
  split <;> exact foreign.lacks (by decide)

/-- The literal text of an operand field has no foreign character, if the name of the register
    that a status move writes to has none. -/
theorem plain_operands (foreign : Foreign c) {e : Encoding} {style : Style} {w : Word}
    (status : ∀ register, e = .moveToStatus register → Lacks c register) :
    ∀ p ∈ e.operands style w, p.Plain c := by
  cases e with
  | moveToStatus register =>
    simpa +decide [operands, Piece.Plain, foreign.lacks] using status register rfl
  | packedDecimal => simp [operands, Piece.Plain, lacks_decimalPair foreign]
  | exchange => simp [operands, Piece.Plain, lacks_exchanged foreign]
  | moveQuick =>
    simp +decide [operands, Piece.Plain, foreign.lacks, foreign.lacks_hex, lacks_dataRegister foreign]
  | _ =>
    simp only [operands]
    repeat' split
    all_goals
      simp +decide [Piece.Plain, foreign.lacks, lacks_dataRegister foreign, lacks_addressRegister foreign,
        lacks_count foreign, foreign.lacks_decimal, lacks_statusRegister foreign]

end Encoding

/-! ## Mnemonics -/

theorem Size.name_fits (s : Size) : Fits 1 s.name := by
  cases s <;> decide

theorem Condition.letters_fit (c : Condition) : Fits 2 c.letters := by
  cases c <;> decide

theorem Condition.branchMnemonic_fits (c : Condition) : Fits 3 c.branchMnemonic := by
  cases c <;> decide

/-- A name of six letters leaves room for a size. -/
theorem Encoding.mnemonic_fits (e : Encoding) (style : Style) {name : String} (w : Word)
    (short : Fits 6 name) : Fits 8 (e.mnemonic style name w) := by
  have letters := (Condition.ofField w).letters_fit
  unfold mnemonic
  split
  · exact (Condition.ofField w).branchMnemonic_fits.widen (by decide)
  · exact ((by decide : Fits 2 "DB").append letters).widen (by decide)
  · exact ((by decide : Fits 1 "S").append letters).widen (by decide)
  · split
    · exact (short.append (by decide : Fits 1 ".")).append (e.size w).name_fits
    · exact short.widen (by decide)

namespace Form

theorem plain_operands (foreign : Foreign c) (f : Form) (style : Style) (w : Word) :
    ∀ p ∈ f.operands style w, p.Plain c := by
  refine Encoding.plain_operands foreign fun register status => ?_
  cases f <;> cases status <;> exact foreign.lacks (by decide)

theorem stem_fits (f : Form) (style : Style) : Fits 6 (f.stem style) := by
  cases style <;> cases f <;> decide

theorem mnemonic_fits (f : Form) (style : Style) (w : Word) : Fits 8 (f.mnemonic style w) :=
  Encoding.mnemonic_fits _ style w (f.stem_fits style)

end Form

/-- The characters of mnemonics. -/
def Text.isMnemonicCharacter (c : Char) : Bool := c.isAlpha || c == '.' || c == '?'

theorem Encoding.mnemonic_characters (e : Encoding) (style : Style) {name : String} (w : Word)
    (plain : name.toList.all isMnemonicCharacter = true) :
    (e.mnemonic style name w).toList.all isMnemonicCharacter = true := by
  have letters : ∀ condition : Condition, condition.letters.toList.all isMnemonicCharacter = true := by
    intro condition
    cases condition <;> rfl
  have branch : ∀ condition : Condition, condition.branchMnemonic.toList.all isMnemonicCharacter = true := by
    intro condition
    cases condition <;> rfl
  have size : ∀ size : Size, size.name.toList.all isMnemonicCharacter = true := by
    intro size
    cases size <;> rfl
  unfold mnemonic
  split
  · exact branch _
  · simp +decide [String.toList_append, letters]
  · simp +decide [String.toList_append, letters]
  · split
    · simp +decide [String.toList_append, plain, size]
    · exact plain

theorem Form.stem_characters (f : Form) (style : Style) :
    (f.stem style).toList.all isMnemonicCharacter = true := by
  cases style <;> cases f <;> rfl

theorem Decoder.lacks_mnemonic (other : isMnemonicCharacter c = false) (d : Decoder) (cursor : Cursor) :
    Lacks c (d.decode cursor).instruction.mnemonic := by
  have characters : (d.decode cursor).instruction.mnemonic.toList.all isMnemonicCharacter = true := by
    cases found : Form.select? d.style (leadingWord cursor.rest) with
    | none =>
      rw [(d.decode_unmatched found).1]
      rfl
    | some f =>
      rw [(d.decode_matched found).1]
      exact Encoding.mnemonic_characters _ _ _ (f.stem_characters d.style)
  intro member
  have inside := List.all_eq_true.mp characters c member
  rw [other] at inside
  cases inside

theorem Decoder.lacks_operands (foreign : Foreign c) (d : Decoder) (cursor : Cursor) :
    Lacks c (d.decode cursor).instruction.operands := by
  cases found : Form.select? d.style (leadingWord cursor.rest) with
  | none =>
    rw [(d.decode_unmatched found).1]
    exact foreign.lacks (s := "") rfl
  | some f =>
    rw [(d.decode_matched found).1]
    exact Reading.lacks_text foreign (f.plain_operands foreign d.style _) _

end

/-- What reading gives can be printed in a row, valid or not. -/
theorem Decoder.decode_fits (d : Decoder) (c : Cursor) :
    Fits 8 (d.decode c).instruction.mnemonic ∧ Lacks '\n' (d.decode c).instruction.operands := by
  refine ⟨?_, d.lacks_operands foreign_newline c⟩
  cases found : Form.select? d.style (leadingWord c.rest) with
  | none =>
    rw [(d.decode_unmatched found).1]
    exact (by decide : Fits 8 "")
  | some f =>
    rw [(d.decode_matched found).1]
    exact f.mnemonic_fits d.style _

end M68k
