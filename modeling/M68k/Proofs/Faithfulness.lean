import Mathlib
import M68k.Proofs.Legibility
import M68k.Proofs.Length
import M68k.Proofs.RegisterLists

/-!
Operand text is faithful to the extension words. Every piece of an operand field tells the bits
that count in its words (`Piece.tells`), and in a row of pieces it can be seen where each of them
ends: most are delimited, a bit number ends before the comma behind it, and a list of registers
before anything that is no entry (`Piece.Legible`). `Form.significant` says which bits these are;
two complete readings of the same instruction word at the same address have the same operands
exactly if their extension words agree in them (`Decoder.operands_faithful`).
-/
namespace M68k

open Text

/-! ## Pieces -/

namespace Piece

/-- The bits that count in the extension words of a piece. -/
def significant : Piece → List Word
  | .text _ | .nearTarget _ => []
  | .operand o => o.mode.significant o.size
  | .immediate size => size.significant
  | .bitNumber mask => [mask]
  | .target | .frameSize | .offset | .store _ => [0xFFFF]
  | .load source _ => 0xFFFF :: source.mode.significant source.size

/-- The text of a piece from the extension words that start at an address. -/
def written (p : Piece) (a : Address) (u : Nat → Word) : String :=
  p.render (a.advance (2 * p.words)) ((List.range p.words).map u)

/-- The text of a row of pieces from the extension words that start at an address. -/
def compose : List Piece → Address → (Nat → Word) → String
  | [], _, _ => ""
  | p :: pieces, a, u => p.written a u ++ compose pieces (a.advance (2 * p.words)) fun k => u (k + p.words)

theorem length_significant {p : Piece} (sound : p.fault? = none) : p.significant.length = p.words := by
  have operand {o : Operand} (sound : o.fault? = none) : (o.mode.significant o.size).length = o.words := by
    obtain ⟨mode, register, size⟩ := o
    cases mode with
    | immediate =>
      cases size with
      | reserved => cases sound
      | _ => rfl
    | _ => rfl
  cases p with
  | operand o => exact operand sound
  | immediate size =>
    cases size with
    | reserved => cases sound
    | _ => rfl
  | load source style =>
    rw [significant, List.length_cons, operand sound, Nat.add_comm]
    rfl
  | _ => rfl

/-- Whether it can be seen where a piece ends, whatever follows it. -/
def isClosed : Piece → Bool
  | .text _ | .operand _ | .immediate _ | .nearTarget _ | .target | .offset => true
  | _ => false

theorem delimited {p : Piece} (sound : p.fault? = none) (closed : p.isClosed = true) (a : Address) :
    Delimited p.significant (p.written a) := by
  cases p with
  | text s => exact delimited_const s
  | nearTarget distance => exact delimited_const _
  | operand o => exact o.delimited_text sound _
  | immediate size =>
    refine Size.delimited_immediateText ?_ .upper
    rintro rfl
    cases sound
  | target =>
    refine ⟨tells_whole (fun w => w.relativeTarget (a.advance 2)) fun x y => Word.relativeTarget_inj, ?_⟩
    refine prefixFree_of_length 9 fun u => ?_
    show ((u 0).relativeTarget (a.advance 2)).toList.length = 9
    rw [Word.relativeTarget, String.toList_append, List.length_append, toList_hex, length_hexDigits]
    decide
  | offset => exact delimited_digits .upper "$"
  | _ => cases closed

/-- The words of a list of registers to load, of which the first is the mask. -/
theorem written_load (source : Operand) (style : Style) (a : Address) (u : Nat → Word) :
    (load source style).written a u =
      source.text (a.advance (2 * (1 + source.words))) ((List.range source.words).map fun k => u (k + 1)) ++
        loadList style (RegisterList.entries (u 0)) := by
  simp only [written, words, render, Nat.add_comm 1, List.range_succ_eq_map, List.map_cons, List.map_map,
    List.tail_cons]
  rfl

/-- Every piece tells the bits that count. -/
theorem tells {p : Piece} (sound : p.fault? = none) (a : Address) : Tells p.significant (p.written a) := by
  cases p with
  | bitNumber mask =>
    refine tells_word (fun w => "#" ++ decimal (w &&& mask).toNat) fun x y => ?_
    rw [String.append_right_inj, decimal_natCast, decimal_natCast, Nat.repr_inj, UInt16.toNat_inj]
  | frameSize =>
    refine tells_whole (fun w => "#" ++ signed w.signed) fun x y same => ?_
    rw [String.append_right_inj, signed_inj] at same
    exact Word.signed_inj same
  | store backwards =>
    refine tells_whole (fun w => String.join
      ((RegisterList.entries (if backwards then w.reversed else w)).map (· ++ ","))) fun x y same => ?_
    rw [RegisterList.join_entries, RegisterList.join_entries] at same
    have masks : (if backwards then x.reversed else x) = if backwards then y.reversed else y :=
      RegisterList.spans_inj
        (RegisterList.joined_inj RegisterList.noEntry_empty RegisterList.noEntry_empty (congrArg (· ++ "") same))
    cases backwards with
    | true => exact Word.reversed_inj masks
    | false => exact masks
  | load source style =>
    have operand := source.delimited_text sound (a.advance (2 * (1 + source.words)))
    intro u v
    rw [significant, sameBits_cons, ← operand.tells, written_load, written_load, Word.and_full, Word.and_full]
    constructor
    · intro same
      have front := operand.free _ _ _ _ same
      rw [front, String.append_right_inj] at same
      exact ⟨RegisterList.loadList_inj same, front⟩
    · rintro ⟨mask, front⟩
      simp only at front
      rw [front, mask]
  | _ => exact (delimited sound rfl a).tells

/-- A row of pieces in which it can be seen where each of them ends. -/
inductive Legible : List Piece → Prop
  | last (p : Piece) : Legible [p]
  | cons {p : Piece} {pieces : List Piece} (closed : p.isClosed = true) (rest : Legible pieces) :
      Legible (p :: pieces)
  | bitNumber (mask : Word) {pieces : List Piece} (rest : Legible pieces) :
      Legible (.bitNumber mask :: .text "," :: pieces)
  | store (backwards : Bool) {o : Operand} (memory : o.mode.isMemory = true) :
      Legible [.store backwards, .operand o]

theorem tells_cons {p : Piece} (sound : p.fault? = none) {pieces : List Piece} {masks : List Word} {a : Address}
    (behind : Tells masks (compose pieces (a.advance (2 * p.words))))
    (apart : Separates (p.written a) (compose pieces (a.advance (2 * p.words)))) :
    Tells (p.significant ++ masks) (compose (p :: pieces) a) := by
  have both := (tells sound a).append behind apart
  rwa [length_significant sound] at both

/-- A bit number ends before the comma behind it. -/
theorem separates_bitNumber (mask : Word) (a : Address) (pieces : List Piece) (b : Address) :
    Separates ((bitNumber mask).written a) (compose (.text "," :: pieces) b) := by
  intro u v r s same
  have plain (w : Word) : Lacks ',' ("#" ++ decimal (w &&& mask).toNat) :=
    lacks_append.mpr ⟨by decide, lacks_decimal (by decide) (by decide) _⟩
  have comma (r : Nat → Word) : (compose (.text "," :: pieces) b r).toList.head? = some ',' :=
    head?_append (s := ",") (by decide) _
  exact (append_inj_of_head (plain (u 0)) (plain (v 0)) (comma r) (comma s) same).1

theorem noEntry_operand {o : Operand} (memory : o.mode.isMemory = true) (after : Address) (extension : List Word) :
    RegisterList.NoEntry (o.text after extension) := by
  obtain ⟨mode, register, size⟩ := o
  have distance (n : Int) (rest : String) : RegisterList.NoEntry (signed n ++ rest) := by
    unfold signed
    split
    · exact RegisterList.noEntry_of_head (head?_append (head?_append (c := '-') (by decide) _) _) (by decide)
    · exact RegisterList.noEntry_of_head (head?_append (head?_append (c := '+') (by decide) _) _) (by decide)
  have sign {c : Char} {s : String} (starts : s.toList.head? = some c) (other : c ≠ 'A' ∧ c ≠ 'D')
      (rest : String) : RegisterList.NoEntry (s ++ rest) := RegisterList.noEntry_of_head (head?_append starts rest) other
  cases mode with
  | dataRegister | addressRegister | invalid => cases memory
  | displacement | index | pcDisplacement | pcIndex =>
    simp only [Operand.text, String.append_assoc]
    exact distance _ _
  | indirect | postincrement =>
    simp only [Operand.text, String.append_assoc]
    exact sign (c := '(') (by decide) (by decide) _
  | predecrement =>
    simp only [Operand.text, String.append_assoc]
    exact sign (c := '-') (by decide) (by decide) _
  | absoluteShort | absoluteLong =>
    simp only [Operand.text, String.append_assoc]
    exact sign (c := '$') (by decide) (by decide) _
  | immediate =>
    cases size with
    | reserved => exact RegisterList.noEntry_empty
    | _ =>
      simp only [Operand.text, Size.immediateText, String.append_assoc]
      exact sign (c := '#') (by decide) (by decide) _

/-- A list of registers to store ends before an operand that is no register. -/
theorem separates_store (backwards : Bool) {o : Operand} (memory : o.mode.isMemory = true) (a b : Address) :
    Separates ((store backwards).written a) (compose [.operand o] b) := by
  intro u v r s same
  have list (u : Nat → Word) : (store backwards).written a u =
      RegisterList.joined (RegisterList.spans (if backwards then (u 0).reversed else u 0)) :=
    RegisterList.join_entries _
  have other (r : Nat → Word) : RegisterList.NoEntry (compose [.operand o] b r) := by
    rw [compose, compose, String.append_empty]
    exact noEntry_operand memory _ _
  rw [list, list] at same ⊢
  rw [RegisterList.joined_inj (other r) (other s) same]

/-- Legible rows tell the bits that count in all their pieces. -/
theorem Legible.tells {pieces : List Piece} (legible : Legible pieces) (sound : ∀ p ∈ pieces, p.fault? = none)
    (a : Address) : Tells (pieces.flatMap significant) (compose pieces a) := by
  have ends (b : Address) : Tells [] (compose [] b) := (delimited_const "").tells
  induction legible generalizing a with
  | last p =>
    obtain ⟨here, _⟩ := List.forall_mem_cons.mp sound
    intro u v
    simp only [compose, String.append_empty, List.flatMap_cons, List.flatMap_nil, List.append_nil]
    exact Piece.tells here a u v
  | cons closed rest ih =>
    obtain ⟨here, behind⟩ := List.forall_mem_cons.mp sound
    exact tells_cons here (ih behind _) ((delimited here closed a).free.separates _)
  | bitNumber mask rest ih =>
    obtain ⟨here, behind⟩ := List.forall_mem_cons.mp sound
    obtain ⟨comma, behind⟩ := List.forall_mem_cons.mp behind
    refine tells_cons here (tells_cons comma (ih behind _) ?_) (separates_bitNumber mask a _ _)
    exact (delimited comma rfl _).free.separates _
  | store backwards memory =>
    obtain ⟨here, behind⟩ := List.forall_mem_cons.mp sound
    obtain ⟨operand, _⟩ := List.forall_mem_cons.mp behind
    refine tells_cons here (tells_cons operand (ends _) ?_) (separates_store backwards memory a _)
    exact (delimited operand rfl _).free.separates _

end Piece

/-- The text of a row of pieces is composed of the words that are read. -/
theorem Reading.text_eq_compose {pieces : List Piece} (sound : ∀ p ∈ pieces, p.fault? = none) {c : Cursor}
    (room : 2 * Piece.total pieces ≤ c.rest.length) :
    (ofPieces pieces c).text = Piece.compose pieces c.address fun k => leadingWord (c.rest.drop (2 * k)) := by
  induction pieces generalizing c with
  | nil => rfl
  | cons p pieces ih =>
    obtain ⟨here, behind⟩ := List.forall_mem_cons.mp sound
    have count : Piece.total (p :: pieces) = p.words + Piece.total pieces := by simp [Piece.total]
    have rest : (c.skip p.words).rest = c.rest.drop (2 * p.words) := by
      have present : min p.words (c.rest.length / 2) = p.words := by omega
      simp only [Cursor.skip, present]
    have later := ih behind (c := c.skip p.words) (by rw [rest, List.length_drop]; omega)
    rw [text_cons here, later, Piece.compose, Piece.written, Cursor.address_skip (by omega), rest]
    simp only [Cursor.leadingWord_skip, List.drop_drop, ← Nat.mul_add, Nat.add_comm]

/-! ## Forms -/

namespace Form

/-- The bits that count in the extension words of an instruction. Those that do not are the upper
    half of a byte of immediate data, three bits of an index word, and all but a few bits of the
    number of a bit. -/
def significant (f : Form) (style : Style) (w : Word) : List Word :=
  let size := f.entry.encoding.size w
  let address := (Mode.ofField w).significant size
  match f with
  | .abcd | .sbcd | .addx | .subx | .cmpm | .exg | .ext | .moveUserStack | .moveq
  | .aslRegister | .asrRegister | .lslRegister | .lsrRegister
  | .rolRegister | .rorRegister | .roxlRegister | .roxrRegister
  | .nop | .reset | .rte | .rtr | .rts | .trapv | .swap | .trap | .unlk
  | .stop | .link | .movep | .decrementBranch | .branch => List.replicate (f.extensionWords style w) 0xFFFF
  | .movem => 0xFFFF :: address
  | .bchgNumber | .bclrNumber | .bsetNumber | .btstNumber =>
    (if style = .classic then 0x002F else 0x00FF) :: address
  | .addi | .andi | .cmpi | .eori | .ori | .subi =>
    size.significant ++ if Mode.ofField w = .immediate then [] else address
  | .move => address ++ (Mode.ofField w.destinationField).significant size
  | _ => address

/-- The bits that count in an instruction are those that count in the pieces of its operand
    field. -/
theorem significant_eq (f : Form) (style : Style) (w : Word) :
    f.significant style w = (f.operands style w).flatMap Piece.significant := by
  cases f with
  | stop | branch | movep =>
    simp only [operands, entry, Encoding.operands, significant, extensionWords]
    split <;> rfl
  | bchgNumber | bclrNumber | bsetNumber | btstNumber =>
    cases style <;> simp [operands, entry, Encoding.operands, Encoding.bitNumberMask, significant,
      Piece.significant, Operand.ofField]
  | add | and | or | sub | eor | movem | addi | andi | cmpi | eori | ori | subi =>
    simp only [operands, entry, Encoding.operands, significant]
    split <;> simp [Piece.significant, Operand.ofField]
  | _ =>
    simp [operands, entry, Encoding.operands, significant, extensionWords, Piece.significant,
      Operand.ofField]

end Form

/-- In the operand field of every family it can be seen where each piece ends. -/
theorem Encoding.legible_operands {e : Encoding} {style : Style} {w : Word} (accepted : e.accepts style w = true) :
    Piece.Legible (e.operands style w) := by
  cases e with
  | moveMultiple =>
    simp only [accepts, acceptsMultiple, Bool.and_eq_true] at accepted
    simp only [operands]
    split
    · exact .last _
    · exact .store _ accepted.1.1.1
  | bitByNumber => exact .bitNumber _ (.last _)
  | immediate => exact .cons rfl (.cons rfl (.last _))
  | move => exact .cons rfl (.cons rfl (.cons rfl (.last _)))
  | addressArithmetic | addressCompare | loadAddress | moveAddress | quick | decrementBranch | bitByRegister
  | compare | wordToRegister | link | moveToStatus | moveFromStatus => exact .cons rfl (.last _)
  | dyadic =>
    simp only [operands]
    split
    · exact .cons rfl (.last _)
    · exact .cons rfl (.last _)
  | branch | stop =>
    simp only [operands]
    split
    · exact .last _
    · exact .last _
  | movePeripheral =>
    simp only [operands]
    split
    · exact .cons rfl (.cons rfl (.last _))
    · exact .cons rfl (.last _)
  | _ => exact .last _

/-- There is a mask for every extension word. -/
theorem Form.length_significant {f : Form} {style : Style} {w : Word} (accepted : f.accepts style w = true) :
    (f.significant style w).length = f.extensionWords style w := by
  rw [significant_eq, ← total_operands, List.length_flatMap, Piece.total]
  congr 1
  exact List.map_congr_left fun p member => Piece.length_significant (operands_sound accepted p member)

/-- A complete instruction takes its extension words, and its operands are composed of them. -/
theorem Decoder.decode_complete (d : Decoder) {window : List Byte} {f : Form} (a : Address)
    (found : Form.select? d.style (leadingWord window) = some f)
    (complete : (d.decode (Cursor.start window a)).cursor.overflow = false) :
    let x := (d.decode (Cursor.start window a)).instruction
    x.form = some f ∧ x.size.toNat = 2 * (1 + (f.significant d.style (leadingWord window)).length) ∧
      x.operands = Piece.compose (f.operands d.style (leadingWord window)) (a.advance 2)
        fun k => leadingWord (window.drop (2 * (1 + k))) := by
  intro x
  have accepted := Form.accepts_of_select? found
  obtain ⟨read, cursor⟩ := d.decode_matched (c := Cursor.start window a) found
  rw [cursor] at complete
  have room : 2 * (1 + f.extensionWords d.style (leadingWord window)) ≤ window.length :=
    Nat.le_of_not_lt (of_decide_eq_false complete)
  refine ⟨congrArg Instruction.form read, ?_, ?_⟩
  · have size : x.size.toNat = 2 * min (Form.needed d.style (leadingWord window)) (window.length / 2) :=
      d.decode_size (Cursor.start window a)
    rw [size, Form.needed, found, Form.length_significant accepted]
    dsimp only
    omega
  · have rest : ((Cursor.start window a).skip 1).rest = window.drop 2 := by
      have present : min 1 (window.length / 2) = 1 := by omega
      simp [Cursor.skip, Cursor.start, present]
    have address : ((Cursor.start window a).skip 1).address = a.advance 2 :=
      Cursor.address_skip (c := Cursor.start window a) (n := 1) (by simp only [Cursor.start]; omega)
    have operands : x.operands = (Reading.ofPieces (f.operands d.style (leadingWord window))
        ((Cursor.start window a).skip 1)).text := congrArg Instruction.operands read
    rw [operands, Reading.text_eq_compose (Form.operands_sound accepted), rest, address]
    · simp only [List.drop_drop, Nat.mul_add, Nat.mul_one]
    · rw [rest, List.length_drop, Form.total_operands]
      omega

/-- Operand text is faithful to the extension words. Two complete readings of one instruction word
    at one address take an extension word for every mask, and their operands are equal exactly if
    these words are, pair by pair, up to the bits that do not count. -/
theorem Decoder.operands_faithful (d : Decoder) (a : Address) (first second : List Byte)
    (same : leadingWord first = leadingWord second)
    (accepted : (d.decode (Cursor.start first a)).instruction.valid = true)
    (complete : (d.decode (Cursor.start first a)).cursor.overflow = false)
    (other : (d.decode (Cursor.start second a)).cursor.overflow = false) :
    let x := (d.decode (Cursor.start first a)).instruction
    let y := (d.decode (Cursor.start second a)).instruction
    ∃ f, x.form = some f ∧ y.form = some f ∧
      let masks := f.significant d.style (leadingWord first)
      x.size.toNat = 2 * (1 + masks.length) ∧ y.size.toNat = 2 * (1 + masks.length) ∧
      (x.operands = y.operands ↔ ∀ k mask, masks[k]? = some mask →
        leadingWord (first.drop (2 * (1 + k))) &&& mask = leadingWord (second.drop (2 * (1 + k))) &&& mask) := by
  intro x y
  have valid : x.valid = (Form.select? d.style (leadingWord first)).isSome :=
    d.decode_valid (Cursor.start first a)
  rw [accepted, eq_comm, Option.isSome_iff_exists] at valid
  obtain ⟨f, found⟩ := valid
  obtain ⟨form, size, operands⟩ := d.decode_complete a found complete
  have found' : Form.select? d.style (leadingWord second) = some f := same ▸ found
  obtain ⟨form', size', operands'⟩ := d.decode_complete a found' other
  rw [← same] at size' operands'
  refine ⟨f, form, form', size, size', ?_⟩
  have accepts := Form.accepts_of_select? found
  have tells := (Encoding.legible_operands accepts).tells (Form.operands_sound accepts) (a.advance 2)
  rw [operands, operands', Form.significant_eq]
  exact tells _ _

/-- Two tests of bit 2 at an indexed place that differ in bits 6 and 4 of the number and in bits 10
    to 8 of the index word read alike; a third one with a long index does not. -/
theorem Decoder.operands_faithful_index :
    let operands := fun window => (({} : Decoder).decode (Cursor.start window 0)).instruction.operands
    operands [0x08, 0x30, 0x00, 0x12, 0x10, 0x04] = "#2,+4(A0,D1.W)" ∧
      operands [0x08, 0x30, 0x00, 0x12, 0x10, 0x04] = operands [0x08, 0x30, 0x00, 0x42, 0x17, 0x04] ∧
      operands [0x08, 0x30, 0x00, 0x12, 0x10, 0x04] ≠ operands [0x08, 0x30, 0x00, 0x12, 0x18, 0x04] := by
  intro operands
  have accepted : (({} : Decoder).decode
    (Cursor.start [0x08, 0x30, 0x00, 0x12, 0x10, 0x04] 0)).instruction.valid = true := by decide +kernel
  have form : (({} : Decoder).decode
    (Cursor.start [0x08, 0x30, 0x00, 0x12, 0x10, 0x04] 0)).instruction.form = some .btstNumber := by decide +kernel
  have masks : Form.btstNumber.significant .classic 0x0830 = [0x002F, 0xF8FF] := by decide +kernel
  refine ⟨by decide +kernel, ?_, ?_⟩
  · obtain ⟨f, found, _, _, _, alike⟩ := Decoder.operands_faithful {} 0
      [0x08, 0x30, 0x00, 0x12, 0x10, 0x04] [0x08, 0x30, 0x00, 0x42, 0x17, 0x04]
      rfl accepted (by decide +kernel) (by decide +kernel)
    obtain rfl := Option.some.inj (form.symm.trans found)
    refine alike.mpr fun k mask here => ?_
    have known := here.symm.trans (congrArg (·[k]?) masks)
    cases k with
    | zero =>
      obtain rfl := Option.some.inj known
      decide
    | succ k =>
      cases k with
      | zero =>
        obtain rfl := Option.some.inj known
        decide
      | succ k => cases known
  · obtain ⟨f, found, _, _, _, alike⟩ := Decoder.operands_faithful {} 0
      [0x08, 0x30, 0x00, 0x12, 0x10, 0x04] [0x08, 0x30, 0x00, 0x12, 0x18, 0x04]
      rfl accepted (by decide +kernel) (by decide +kernel)
    obtain rfl := Option.some.inj (form.symm.trans found)
    intro same
    have words := alike.mp same 1 0xF8FF (congrArg (·[1]?) masks)
    exact absurd words (by decide)

end M68k
