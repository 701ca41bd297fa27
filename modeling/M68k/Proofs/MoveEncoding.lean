import Mathlib
import M68k.Proofs.Locality
import M68k.Proofs.Styles

/-!
Moves are decoded as they are encoded. A move is put together from a size and two places, the
destination with its register in front of its mode (`moveWord`). The word is decoded as a move
of these, whatever other patterns it has, with the extension words of the source before those
of the destination; and no other word is decoded as a move.
-/
namespace M68k

/-! ## Encoding -/

/-- The code of a size in bits 13-12 of a move. -/
def Size.moveCode : Size → Nat
  | .byte => 1
  | .word => 3
  | .long => 2
  | .reserved => 0

/-- The three mode bits, where the modes without a register share the last code. -/
def Mode.upperBits : Mode → Nat
  | .dataRegister => 0
  | .addressRegister => 1
  | .indirect => 2
  | .postincrement => 3
  | .predecrement => 4
  | .displacement => 5
  | .index => 6
  | _ => 7

/-- The three register bits, which tell the modes without a register apart. -/
def Mode.lowerBits (register : Nat) : Mode → Nat
  | .absoluteShort => 0
  | .absoluteLong => 1
  | .pcDisplacement => 2
  | .pcIndex => 3
  | .immediate => 4
  | _ => register

/-- A place that an operand can be in: an addressing mode and a register, which means nothing for
    the modes without one. -/
structure Place where
  mode : Mode
  register : Nat
  valid : mode.isValid = true
  small : register < 8

namespace Place

def upper (p : Place) : Nat := p.mode.upperBits

def lower (p : Place) : Nat := p.mode.lowerBits p.register

/-- The operand of a size in a place. -/
def operand (p : Place) (size : Size) : Operand := { mode := p.mode, register := p.register, size }

/-- An address register. -/
def addressRegister (n : Fin 8) : Place := ⟨.addressRegister, n, rfl, n.isLt⟩

theorem upper_lt (p : Place) : p.upper < 8 := by
  unfold upper Mode.upperBits
  split <;> decide

theorem lower_lt (p : Place) : p.lower < 8 := by
  have small := p.small
  unfold lower Mode.lowerBits
  split <;> omega

end Place

/-- A move of the given size between two places. -/
def moveWord (size : Size) (source destination : Place) : Word :=
  UInt16.ofNat (size.moveCode * 4096 + destination.lower * 512 + destination.upper * 64 + source.upper * 8 +
    source.lower)

/-- The modes that a move can write to; address registers have a form of their own. -/
def moveTargets : List Mode :=
  [.dataRegister, .indirect, .postincrement, .predecrement, .displacement, .index, .absoluteShort, .absoluteLong]

/-! ## Fields -/

/-- The fields of a move, from the top down. -/
structure MoveFields (w : Word) (size register mode sourceMode sourceRegister : Nat) : Prop where
  line : w.field 14 2 = 0
  size : w.field 12 2 = size
  register : w.field 9 3 = register
  mode : w.field 6 3 = mode
  sourceMode : w.field 3 3 = sourceMode
  sourceRegister : w.field 0 3 = sourceRegister

/-- Numbers that fit into the fields are the fields of the word that is put together from them, and
    a word is put together from its fields. -/
theorem moveFields_iff {w : Word} {s r m n k : Nat} :
    MoveFields w s r m n k ↔ (s < 4 ∧ r < 8 ∧ m < 8 ∧ n < 8 ∧ k < 8) ∧
      w = UInt16.ofNat (s * 4096 + r * 512 + m * 64 + n * 8 + k) := by
  have bound := w.toNat_lt
  constructor
  · rintro ⟨line, rfl, rfl, rfl, rfl, rfl⟩
    simp only [Word.field_eq] at *
    refine ⟨by omega, ?_⟩
    apply UInt16.toNat_inj.mp
    rw [UInt16.toNat_ofNat']
    omega
  · rintro ⟨⟨_, _, _, _, _⟩, rfl⟩
    have fits : s * 4096 + r * 512 + m * 64 + n * 8 + k < 2 ^ 16 := by omega
    have value := UInt16.toNat_ofNat_of_lt' fits
    constructor <;> rw [Word.field_eq, value] <;> omega

theorem Size.moveCode_lt (s : Size) : s.moveCode < 4 := by
  cases s <;> decide

theorem eq_moveWord_iff {w : Word} {size : Size} {source destination : Place} :
    w = moveWord size source destination ↔
      MoveFields w size.moveCode destination.lower destination.upper source.upper source.lower := by
  rw [moveFields_iff, moveWord]
  exact (and_iff_right ⟨size.moveCode_lt, destination.lower_lt, destination.upper_lt, source.upper_lt,
    source.lower_lt⟩).symm

theorem Size.ofMoveField_eq_iff {w : Word} {size : Size} :
    Size.ofMoveField w = size ↔ w.field 12 2 = size.moveCode := by
  have bound := w.field_lt 12 2
  unfold Size.ofMoveField
  generalize w.field 12 2 = code at *
  interval_cases code <;> cases size <;> decide

theorem Size.isValid_iff {size : Size} : size.isValid = true ↔ size ≠ .reserved := by
  cases size <;> decide

namespace Place

/-- The lower six bits of a word hold a place. -/
structure In (p : Place) (w : Word) : Prop where
  upper : w.field 3 3 = p.upper
  lower : w.field 0 3 = p.lower

/-- The place that the lower six bits of a word hold. -/
def ofField (w : Word) (valid : (Mode.ofField w).isValid = true) : Place :=
  ⟨Mode.ofField w, w.field 0 3, valid, w.field_lt 0 3⟩

variable {p : Place} {w : Word} {size : Size}

theorem ofField_in (valid : (Mode.ofField w).isValid = true) : (ofField w valid).In w := by
  have bound := w.field_lt 3 3
  have few := w.field_lt 0 3
  suffices inverse : w.field 3 3 = (Mode.ofField w).upperBits ∧
      w.field 0 3 = (Mode.ofField w).lowerBits (w.field 0 3) from ⟨inverse.1, inverse.2⟩
  clear valid
  unfold Mode.ofField
  generalize w.field 3 3 = upper at *
  generalize w.field 0 3 = lower at *
  by_cases last : upper = 7
  · subst last
    rw [if_pos rfl]
    clear bound
    interval_cases lower <;> decide
  · rw [if_neg last]
    have other : upper < 7 := by omega
    clear bound last
    interval_cases upper <;> exact ⟨rfl, rfl⟩

theorem In.mode_eq (place : p.In w) : Mode.ofField w = p.mode := by
  obtain ⟨mode, register, valid, _⟩ := p
  rw [Mode.ofField, place.upper, place.lower]
  cases mode with
  | invalid code => cases valid
  | _ => rfl

/-- What is written for the place that a word holds; modes without a register do not name it. -/
theorem In.textAt_eq (place : p.In w) (c : Cursor) :
    (Piece.operand (Operand.ofField w size)).textAt c = (Piece.operand (p.operand size)).textAt c := by
  have same := place.mode_eq
  have lower := place.lower
  obtain ⟨mode, register, valid, _⟩ := p
  have same : Mode.ofField w = mode := same
  rw [Operand.ofField, same]
  cases mode with
  | invalid code => cases valid
  | absoluteShort | absoluteLong | pcDisplacement | pcIndex | immediate => rfl
  | _ =>
    have named : w.field 0 3 = register := lower
    rw [Word.lowRegister, named]
    rfl

theorem In.words_eq (place : p.In w) : (Operand.ofField w size).words = p.mode.extensionWords size := by
  rw [← place.mode_eq]
  rfl

theorem In.sound (place : p.In w) (sized : size ≠ .reserved) : (Operand.ofField w size).fault? = none := by
  apply Operand.fault?_eq_none
  · rw [Operand.ofField, place.mode_eq, p.valid]
  · exact Size.isValid_iff.mpr sized

theorem operand_sound (p : Place) {size : Size} (sized : size ≠ .reserved) : (p.operand size).fault? = none :=
  Operand.fault?_eq_none p.valid (Size.isValid_iff.mpr sized)

end Place

/-- The places of a move are held by its lower six bits and by its destination field. -/
theorem MoveFields.places {w : Word} {s : Nat} {source destination : Place}
    (fields : MoveFields w s destination.lower destination.upper source.upper source.lower) :
    source.In w ∧ destination.In w.destinationField :=
  ⟨⟨fields.sourceMode, fields.sourceRegister⟩,
    ⟨w.destinationField_mode.trans fields.mode, w.destinationField_register.trans fields.register⟩⟩

/-! ## Words that are moves -/

theorem mem_moveTargets {m : Mode} : m ∈ moveTargets ↔ m.isData = true ∧ m.isAlterable = true := by
  cases m <;> simp [moveTargets, Mode.isData, Mode.isValid, Mode.isAlterable]

namespace Form

variable {style : Style} {w : Word}

theorem fits_move_iff : Form.move.fits w = true ↔ w.field 14 2 = 0 := by
  rw [fits_iff_bits]
  constructor
  · exact fun holds => holds.field_eq 14 2 rfl
  · exact fun line => Pattern.holds_of_field 14 2 rfl (by rw [line]; rfl)

theorem fits_movea_iff : Form.movea.fits w = true ↔ w.field 14 2 = 0 ∧ w.field 6 3 = 1 := by
  rw [fits_iff_bits]
  constructor
  · exact fun holds => ⟨holds.field_eq 14 2 rfl, holds.field_eq 6 3 rfl⟩
  · rintro ⟨line, mode⟩
    have upper : Pattern.Holds ⟨0xC000, 0x0000⟩ w := Pattern.holds_of_field 14 2 rfl (by rw [line]; rfl)
    have lower : Pattern.Holds ⟨0x01C0, 0x0040⟩ w := Pattern.holds_of_field 6 3 rfl (by rw [mode]; rfl)
    exact upper.meet lower

theorem accepts_move_iff : Form.move.accepts style w = true ↔ Size.ofMoveField w ≠ .reserved ∧
    (Mode.ofField w).isValid = true ∧ Mode.ofField w.destinationField ∈ moveTargets := by
  change ((Size.ofMoveField w).isValid && (Mode.ofField w).isValid &&
    (Mode.ofField w.destinationField).isData && (Mode.ofField w.destinationField).isAlterable) = true ↔ _
  simp only [Bool.and_eq_true, Size.isValid_iff, mem_moveTargets, and_assoc]

theorem accepts_movea_iff : Form.movea.accepts style w = true ↔
    (Size.ofMoveField w = .word ∨ Size.ofMoveField w = .long) ∧ (Mode.ofField w).isValid = true := by
  change ((Size.ofMoveField w = .word || Size.ofMoveField w = .long) && (Mode.ofField w).isValid) = true ↔ _
  simp only [Bool.and_eq_true, Bool.or_eq_true, decide_eq_true_eq]

theorem takes_move_iff : Form.move.Takes style w ↔ ∃ (size : Size) (source destination : Place),
    size ≠ .reserved ∧ destination.mode ∈ moveTargets ∧ w = moveWord size source destination := by
  rw [Takes, fits_move_iff, accepts_move_iff]
  constructor
  · rintro ⟨line, sized, readable, target⟩
    have writable := Mode.isValid_of_isAlterable (mem_moveTargets.mp target).2
    have source := Place.ofField_in readable
    have destination := Place.ofField_in writable
    refine ⟨Size.ofMoveField w, Place.ofField w readable, Place.ofField w.destinationField writable, sized,
      target, ?_⟩
    exact eq_moveWord_iff.mpr
      { line
        size := Size.ofMoveField_eq_iff.mp rfl
        register := w.destinationField_register.symm.trans destination.lower
        mode := w.destinationField_mode.symm.trans destination.upper
        sourceMode := source.upper
        sourceRegister := source.lower }
  · rintro ⟨size, source, destination, sized, target, made⟩
    have fields := eq_moveWord_iff.mp made
    obtain ⟨reads, writes⟩ := fields.places
    rw [Size.ofMoveField_eq_iff.mpr fields.size, reads.mode_eq, writes.mode_eq]
    exact ⟨fields.line, sized, source.valid, target⟩

theorem takes_movea_iff : Form.movea.Takes style w ↔ ∃ (size : Size) (source : Place) (n : Fin 8),
    (size = .word ∨ size = .long) ∧ w = moveWord size source (.addressRegister n) := by
  rw [Takes, fits_movea_iff, accepts_movea_iff]
  constructor
  · rintro ⟨⟨line, mode⟩, sized, readable⟩
    have source := Place.ofField_in readable
    refine ⟨Size.ofMoveField w, Place.ofField w readable, ⟨w.field 9 3, w.field_lt 9 3⟩, sized, ?_⟩
    exact eq_moveWord_iff.mpr
      { line
        size := Size.ofMoveField_eq_iff.mp rfl
        register := rfl
        mode
        sourceMode := source.upper
        sourceRegister := source.lower }
  · rintro ⟨size, source, n, sized, made⟩
    have fields := eq_moveWord_iff.mp made
    rw [Size.ofMoveField_eq_iff.mpr fields.size, fields.places.1.mode_eq]
    exact ⟨⟨fields.line, fields.mode⟩, sized, source.valid⟩

/-- Below the lines of two-operand arithmetic, at most one form takes a word. -/
theorem select?_of_takes {f : Form} (line : w.field 12 4 < 8) (takes : f.Takes style w) :
    select? style w = some f := by
  cases found : select? style w with
  | none => exact absurd found (select?_ne_none takes)
  | some g =>
    have other := takes_of_select? found
    cases style with
    | corrected => rw [takes_unique takes other]
    | classic =>
      by_contra different
      have different : f ≠ g := fun same => different (by rw [same])
      obtain ⟨shadow, member, holds⟩ := shadow_of_takes different takes other
      have above := (fields_of_shadow member holds).2.2
      simp only [List.mem_cons, List.not_mem_nil, or_false] at above
      omega

theorem select?_iff_takes_move {f : Form} (move : f = .move ∨ f = .movea) :
    select? style w = some f ↔ f.Takes style w := by
  refine ⟨takes_of_select?, fun takes => select?_of_takes ?_ takes⟩
  have upper : w.field 14 2 = 0 := by
    rcases move with rfl | rfl
    · exact fits_move_iff.mp takes.1
    · exact (fits_movea_iff.mp takes.1).1
  have parts : w.field 12 4 = w.field 12 2 + 4 * w.field 14 2 := w.field_add 12 2 2
  have lower := w.field_lt 12 2
  omega

end Form

/-- The letters of the sizes that moves have. -/
theorem Size.name_eq {size : Size} (sized : size ≠ .reserved) :
    size.name = if size = .byte then "B" else if size = .word then "W" else "L" := by
  cases size with
  | reserved => exact absurd rfl sized
  | _ => decide

namespace Form

variable {w : Word} {size : Size} {source destination : Place}

theorem header_move (sized : size ≠ .reserved) (made : w = moveWord size source destination) (style : Style) :
    move.mnemonic style w = "MOVE." ++ (if size = .byte then "B" else if size = .word then "W" else "L") ∧
      move.extensionWords style w = source.mode.extensionWords size + destination.mode.extensionWords size := by
  have fields := eq_moveWord_iff.mp made
  obtain ⟨reads, writes⟩ := fields.places
  rw [← reads.mode_eq, ← writes.mode_eq, ← Size.ofMoveField_eq_iff.mpr fields.size]
  refine ⟨?_, rfl⟩
  have stem : move.stem style = "MOVE" := by cases style <;> rfl
  change move.stem style ++ "." ++ (Size.ofMoveField w).name = _
  rw [stem, show "MOVE" ++ "." = "MOVE." by decide, Size.ofMoveField_eq_iff.mpr fields.size, Size.name_eq sized]

theorem header_movea (sized : size ≠ .reserved) (made : w = moveWord size source destination) (style : Style) :
    movea.mnemonic style w = "MOVEA." ++ (if size = .byte then "B" else if size = .word then "W" else "L") ∧
      movea.extensionWords style w = source.mode.extensionWords size := by
  have fields := eq_moveWord_iff.mp made
  rw [← fields.places.1.mode_eq, ← Size.ofMoveField_eq_iff.mpr fields.size]
  refine ⟨?_, rfl⟩
  have stem : movea.stem style = "MOVEA" := by cases style <;> rfl
  change movea.stem style ++ "." ++ (Size.ofMoveField w).name = _
  rw [stem, show "MOVEA" ++ "." = "MOVEA." by decide, Size.ofMoveField_eq_iff.mpr fields.size, Size.name_eq sized]

end Form

/-! ## Decoding -/

/-- The cursor behind the first `n` of a row of words. -/
theorem Cursor.skip_words {n : Nat} {words : List Word} (room : n ≤ words.length) (a : Address) :
    (start (bytesOfWords words) a).skip n =
      { rest := bytesOfWords (words.drop n), position := 2 * n, address := a.advance (2 * n), overflow := false } := by
  have front : (bytesOfWords (words.take n)).length = 2 * n := by
    rw [length_bytesOfWords, List.length_take, Nat.min_eq_left room]
  have parts : bytesOfWords words = bytesOfWords (words.take n) ++ bytesOfWords (words.drop n) := by
    rw [← bytesOfWords_append, List.take_append_drop]
  have passed := skip_append front (bytesOfWords (words.drop n)) a
  rwa [← parts, front] at passed

/-- What an operand is written as depends on the bytes at the cursor and on their address only. -/
theorem Piece.textAt_congr (p : Piece) {c c' : Cursor} (rest : c.rest = c'.rest) (address : c.address = c'.address) :
    p.textAt c = p.textAt c' := by
  simp only [textAt, Cursor.readWords_fst, rest, Cursor.skip, address]

namespace Place

/-- The operand in a place, read behind the first `n` of a row of words. -/
theorem read_words (p : Place) {size : Size} (sized : size ≠ .reserved) (words : List Word) (a : Address) {n : Nat}
    (room : n ≤ words.length) :
    ((p.operand size).read (.start (bytesOfWords (words.drop n)) (a.advance (2 * n)))).1 =
      .ok ((Piece.operand (p.operand size)).textAt ((Cursor.start (bytesOfWords words) a).skip n)) := by
  rw [Operand.read_sound (p.operand_sound sized), Cursor.skip_words room]
  exact congrArg Except.ok (Piece.textAt_congr _ rfl rfl)

end Place

namespace Decoder

/-- An instruction that lies in front of a cursor with all its words. -/
theorem decode_words (d : Decoder) {w : Word} {f : Form} (found : Form.select? d.style w = some f)
    {extension : List Word} (room : f.extensionWords d.style w ≤ extension.length) (a : Address) :
    (d.decode (.start (bytesOfWords (w :: extension)) a)).instruction =
      { address := a, op := w, form := some f, mnemonic := f.mnemonic d.style w
        operands := (Reading.ofPieces (f.operands d.style w)
          ((Cursor.start (bytesOfWords (w :: extension)) a).skip 1)).text
        size := UInt32.ofNat (2 * (1 + f.extensionWords d.style w)), valid := true } := by
  have leading : leadingWord (Cursor.start (bytesOfWords (w :: extension)) a).rest = w :=
    leadingWord_bytesOfWords w extension
  have length : (Cursor.start (bytesOfWords (w :: extension)) a).rest.length = 2 * (1 + extension.length) := by
    rw [Cursor.start, length_bytesOfWords, List.length_cons, Nat.add_comm]
  have form : Form.select? d.style (leadingWord (Cursor.start (bytesOfWords (w :: extension)) a).rest) = some f := by
    rw [leading, found]
  rw [(d.decode_matched form).1, leading, length, Nat.mul_div_cancel_left _ (by decide), Nat.min_eq_left (by omega)]
  rfl

/-- The operand field of a move, read at a cursor behind its word. -/
theorem text_move {w : Word} {size : Size} {source destination : Place} (sized : size ≠ .reserved)
    (made : w = moveWord size source destination) (style : Style) (c : Cursor) :
    (Reading.ofPieces (Form.move.operands style w) c).text =
      (Piece.operand (source.operand size)).textAt c ++ "," ++
        (Piece.operand (destination.operand size)).textAt (c.skip (source.mode.extensionWords size)) ++
        (if style = .classic then " " else "") := by
  have fields := eq_moveWord_iff.mp made
  obtain ⟨reads, writes⟩ := fields.places
  have pieces : Form.move.operands style w =
      [.operand (Operand.ofField w size), .text ",", .operand (Operand.ofField w.destinationField size),
        .text (if style = .classic then " " else "")] := by
    rw [← Size.ofMoveField_eq_iff.mpr fields.size]
    rfl
  have first : (Piece.operand (Operand.ofField w size)).fault? = none := reads.sound sized
  have second : (Piece.operand (Operand.ofField w.destinationField size)).fault? = none := writes.sound sized
  rw [pieces, Reading.ofPieces_cons first, Reading.ofPieces_text, Reading.ofPieces_cons second, Reading.ofPieces_text]
  simp only [Reading.text_nil, String.append_empty, String.append_assoc, reads.textAt_eq, writes.textAt_eq, Piece.words,
    reads.words_eq]

theorem text_movea {w : Word} {size : Size} {source : Place} {n : Fin 8} (sized : size ≠ .reserved)
    (made : w = moveWord size source (.addressRegister n)) (style : Style) (c : Cursor) :
    (Reading.ofPieces (Form.movea.operands style w) c).text =
      (Piece.operand (source.operand size)).textAt c ++ "," ++ "A" ++ Text.decimal n.val := by
  have fields := eq_moveWord_iff.mp made
  have reads := fields.places.1
  have high : w.highRegister = n.val := fields.register
  have pieces : Form.movea.operands style w =
      [.operand (Operand.ofField w size), .text ("," ++ Encoding.addressRegister n.val)] := by
    rw [← Size.ofMoveField_eq_iff.mpr fields.size, ← high]
    rfl
  have first : (Piece.operand (Operand.ofField w size)).fault? = none := reads.sound sized
  rw [pieces, Reading.ofPieces_cons first, Reading.ofPieces_text]
  simp only [Reading.text_nil, String.append_empty, String.append_assoc, reads.textAt_eq, Encoding.addressRegister]

/-- Moves are decoded as they are encoded, in both styles. A word that is put together from a size
    and two places is decoded as a move of that size, whose operands are the source, read behind
    the word, and the destination, read behind the extension words of the source; the classic
    style adds a blank. With an address register as the destination it is decoded as the move to
    that register. No other word is decoded as either. -/
theorem moves_follow_encoding (d : Decoder) :
    let letter (size : Size) := if size = .byte then "B" else if size = .word then "W" else "L"
    (∀ (size : Size) (source destination : Place) (extension : List Word) (a : Address),
      size ≠ .reserved → destination.mode ∈ moveTargets →
      source.mode.extensionWords size + destination.mode.extensionWords size ≤ extension.length →
      let word := moveWord size source destination
      let used := source.mode.extensionWords size
      ∃ reads writes : String,
        ((source.operand size).read (.start (bytesOfWords extension) (a.advance 2))).1 = .ok reads ∧
        ((destination.operand size).read
          (.start (bytesOfWords (extension.drop used)) (a.advance (2 + 2 * used)))).1 = .ok writes ∧
        (d.decode (.start (bytesOfWords (word :: extension)) a)).instruction =
          { address := a, op := word, form := some .move, mnemonic := "MOVE." ++ letter size
            operands := reads ++ "," ++ writes ++ (if d.style = .classic then " " else "")
            size := UInt32.ofNat (2 * (1 + (used + destination.mode.extensionWords size))), valid := true }) ∧
    (∀ (size : Size) (source : Place) (n : Fin 8) (extension : List Word) (a : Address),
      size = .word ∨ size = .long → source.mode.extensionWords size ≤ extension.length →
      let word := moveWord size source (.addressRegister n)
      ∃ reads : String,
        ((source.operand size).read (.start (bytesOfWords extension) (a.advance 2))).1 = .ok reads ∧
        (d.decode (.start (bytesOfWords (word :: extension)) a)).instruction =
          { address := a, op := word, form := some .movea, mnemonic := "MOVEA." ++ letter size
            operands := reads ++ "," ++ "A" ++ Text.decimal n.val
            size := UInt32.ofNat (2 * (1 + source.mode.extensionWords size)), valid := true }) ∧
    (∀ c : Cursor, (d.decode c).instruction.form = some .move ↔
      ∃ (size : Size) (source destination : Place), size ≠ .reserved ∧ destination.mode ∈ moveTargets ∧
        leadingWord c.rest = moveWord size source destination) ∧
    (∀ c : Cursor, (d.decode c).instruction.form = some .movea ↔
      ∃ (size : Size) (source : Place) (n : Fin 8), (size = .word ∨ size = .long) ∧
        leadingWord c.rest = moveWord size source (.addressRegister n)) := by
  intro letter
  refine ⟨?_, ?_, ?_, ?_⟩
  · intro size source destination extension a sized target room word used
    have takes : Form.move.Takes d.style word :=
      Form.takes_move_iff.mpr ⟨size, source, destination, sized, target, rfl⟩
    have found := (Form.select?_iff_takes_move (.inl rfl)).mpr takes
    obtain ⟨mnemonic, words⟩ := Form.header_move sized (rfl : word = moveWord size source destination) d.style
    have first := source.read_words sized (word :: extension) a (Nat.le_add_left 1 extension.length)
    have second := destination.read_words sized (word :: extension) a
      (show used + 1 ≤ extension.length + 1 by omega)
    rw [show 2 * (used + 1) = 2 + 2 * used by omega] at second
    refine ⟨_, _, first, second, ?_⟩
    rw [d.decode_words found (by omega), words, mnemonic, text_move sized rfl, Cursor.skip_skip, Nat.add_comm 1 used]
  · intro size source n extension a sized room word
    have takes : Form.movea.Takes d.style word := Form.takes_movea_iff.mpr ⟨size, source, n, sized, rfl⟩
    have found := (Form.select?_iff_takes_move (.inr rfl)).mpr takes
    have sized : size ≠ .reserved := by rcases sized with rfl | rfl <;> decide
    obtain ⟨mnemonic, words⟩ :=
      Form.header_movea sized (rfl : word = moveWord size source (.addressRegister n)) d.style
    have first := source.read_words sized (word :: extension) a (Nat.le_add_left 1 extension.length)
    refine ⟨_, first, ?_⟩
    rw [d.decode_words found (by omega), words, mnemonic, text_movea sized rfl]
  · intro c
    rw [d.decode_form, Form.select?_iff_takes_move (.inl rfl), Form.takes_move_iff]
  · intro c
    rw [d.decode_form, Form.select?_iff_takes_move (.inr rfl), Form.takes_movea_iff]

/-- A long move from a place relative to the program counter to an absolute one, at the last word of
    the address space, and the move from the same place to A6. -/
theorem moves_follow_encoding_relative :
    let source : Place := ⟨.pcDisplacement, 5, rfl, by decide⟩
    let destination : Place := ⟨.absoluteLong, 0, rfl, by decide⟩
    let extension : List Word := [0x0012, 0x00FF, 0x8000]
    Size.long ≠ .reserved ∧ destination.mode ∈ moveTargets ∧
    source.mode.extensionWords .long + destination.mode.extensionWords .long ≤ extension.length ∧
    moveWord .long source destination = 0x23FA ∧ moveWord .long source (.addressRegister 6) = 0x2C7A ∧
    (∃ reads writes : String,
      ((source.operand .long).read (.start (bytesOfWords extension) 0)).1 = .ok reads ∧
      ((destination.operand .long).read (.start (bytesOfWords [0x00FF, 0x8000]) 2)).1 = .ok writes ∧
      (decode {} (.start (bytesOfWords (0x23FA :: extension)) 0xFFFFFFFE)).instruction =
        { address := 0xFFFFFFFE, op := 0x23FA, form := some .move, mnemonic := "MOVE.L"
          operands := reads ++ "," ++ writes ++ " ", size := 8, valid := true }) ∧
    ∃ reads : String,
      ((source.operand .long).read (.start (bytesOfWords extension) 0)).1 = .ok reads ∧
      (decode {} (.start (bytesOfWords (0x2C7A :: extension)) 0xFFFFFFFE)).instruction =
        { address := 0xFFFFFFFE, op := 0x2C7A, form := some .movea, mnemonic := "MOVEA.L"
          operands := reads ++ "," ++ "A" ++ Text.decimal 6, size := 4, valid := true } := by
  intro source destination extension
  have sized : Size.long ≠ .reserved := by decide
  have target : destination.mode ∈ moveTargets := by decide
  have room : source.mode.extensionWords .long + destination.mode.extensionWords .long ≤ extension.length := by decide
  have word : moveWord .long source destination = 0x23FA := by decide
  have other : moveWord .long source (.addressRegister 6) = 0x2C7A := by decide
  obtain ⟨moves, addresses, _⟩ := moves_follow_encoding {}
  have first := moves .long source destination extension 0xFFFFFFFE sized target room
  have second := addresses .long source 6 extension 0xFFFFFFFE (.inr rfl) (by decide)
  rw [word, show "MOVE." ++ _ = "MOVE.L" by decide] at first
  rw [other, show "MOVEA." ++ _ = "MOVEA.L" by decide] at second
  exact ⟨sized, target, room, word, other, first, second⟩

end Decoder
end M68k
