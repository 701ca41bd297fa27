import Mathlib
import M68k.Proofs.Relocation

/-!
A window that ends too early reads as if zeros followed. The words are the same, present or not, and so
is all that they decide; but a missing word does not move the address, and where a displacement is
missing the target that is shown depends on how far the window went (`Cursor.target`).
-/
namespace M68k

open Text (hex signed)

/-- The whole words of a window, and zeros behind them. -/
def padded (window : List Byte) : List Byte := window.take (2 * (window.length / 2)) ++ List.replicate 10 0

/-! ## Words and targets -/

namespace Cursor

/-- Two cursors have the same `n` words in front of them, wherever these lie. -/
def SameWords (n : Nat) (c c' : Cursor) : Prop :=
  ∀ k < n, leadingWord (c.skip k).rest = leadingWord (c'.skip k).rest

theorem SameWords.skip {m n : Nat} {c c' : Cursor} (same : SameWords (m + n) c c') :
    SameWords n (c.skip m) (c'.skip m) := by
  intro k few
  rw [skip_skip, skip_skip]
  exact same (m + k) (by omega)

/-- Where a displacement leads that is held by the word behind `k` others. -/
def target (c : Cursor) (k : Nat) : Address :=
  ((c.skip (k + 1)).address - 2).offset (leadingWord (c.skip k).rest).signed

theorem SameWords.words {n : Nat} {c c' : Cursor} (same : SameWords n c c') :
    (c.readWords n).1 = (c'.readWords n).1 := by
  rw [readWords_fst, readWords_fst]
  apply List.map_congr_left
  intro k member
  exact same k (List.mem_range.mp member)

theorem getD_readWords {n k : Nat} (few : k < n) (c : Cursor) :
    (c.readWords n).1.getD k 0 = leadingWord (c.skip k).rest := by
  simp [readWords_fst, few]

theorem target_skip (c : Cursor) (m k : Nat) : (c.skip m).target k = c.target (m + k) := by
  simp only [target, skip_skip, Nat.add_assoc]

end Cursor

theorem leadingWord_zeros (n : Nat) : leadingWord (List.replicate n 0) = 0 := by
  match n with
  | 0 | 1 | n + 2 => rfl

theorem leadingWord_padded (window : List Byte) (k : Nat) :
    leadingWord ((padded window).drop (2 * k)) = leadingWord (window.drop (2 * k)) := by
  have whole : (window.take (2 * (window.length / 2))).length = 2 * (window.length / 2) := by
    rw [List.length_take]
    omega
  by_cases there : 2 * (k + 1) ≤ window.length
  · have two : 2 ≤ ((window.take (2 * (window.length / 2))).drop (2 * k)).length := by
      rw [List.length_drop, whole]
      omega
    have same : leadingWord (window.drop (2 * k)) =
        leadingWord ((window.take (2 * (window.length / 2)) ++ window.drop (2 * (window.length / 2))).drop (2 * k)) := by
      rw [List.take_append_drop]
    rw [same, padded, List.drop_append_of_le_length (by omega), List.drop_append_of_le_length (by omega),
      leadingWord_append two, leadingWord_append two]
  · have short : (window.drop (2 * k)).length < 2 := by
      rw [List.length_drop]
      omega
    rw [leadingWord_of_short short, padded, List.drop_append, List.drop_of_length_le (by omega), List.nil_append,
      List.drop_replicate, leadingWord_zeros]

section Padded

variable (window : List Byte) (a : Address)

theorem sameWords_padded (n : Nat) : Cursor.SameWords n (Cursor.start window a) (Cursor.start (padded window) a) := by
  intro k _
  rw [Cursor.leadingWord_skip, Cursor.leadingWord_skip]
  exact (leadingWord_padded window k).symm

theorem le_length_padded : 10 ≤ (padded window).length := by
  rw [padded, List.length_append, List.length_replicate]
  omega

end Padded

/-! ## Texts that show an address -/

/-- Two texts that are the same but for one address, if there is any. -/
def SameBut : Option (Address × Address) → String → String → Prop
  | none, s, t => s = t
  | some (x, y), s, t => ∃ front back,
    s = front ++ "$" ++ hex .lower 8 x.toNat ++ back ∧ t = front ++ "$" ++ hex .lower 8 y.toNat ++ back

namespace SameBut

variable {s t u v : String}

theorem append {p q : Option (Address × Address)} (left : SameBut p s t) (right : SameBut q u v)
    (once : p.isSome = true → q = none) : SameBut (p.or q) (s ++ u) (t ++ v) := by
  cases p with
  | some pair =>
    rw [once rfl] at right
    obtain rfl : u = v := right
    obtain ⟨front, back, rfl, rfl⟩ := left
    refine ⟨front, back ++ u, ?_, ?_⟩
    · simp only [String.append_assoc]
    · simp only [String.append_assoc]
  | none =>
    obtain rfl : s = t := left
    cases q with
    | some pair =>
      obtain ⟨front, back, rfl, rfl⟩ := right
      refine ⟨s ++ front, back, ?_, ?_⟩
      · simp only [String.append_assoc]
      · simp only [String.append_assoc]
    | none =>
      obtain rfl : u = v := right
      rfl

theorem eq_of_address {x : Address} (same : SameBut (some (x, x)) s t) : s = t := by
  obtain ⟨front, back, rfl, rfl⟩ := same
  rfl

end SameBut

namespace Piece

/-- The place, among the words of a piece, of the displacement that it shows the target of. -/
def displacement? : Piece → Option Nat
  | .target => some 0
  | .operand o => if o.isRelative then some 0 else none
  | .load source _ => if source.isRelative then some 1 else none
  | _ => none

/-- The place of the first displacement in a row of pieces. -/
def displacementIn? : List Piece → Option Nat
  | [] => none
  | p :: rest => p.displacement?.or ((displacementIn? rest).map (p.words + ·))

/-- Pieces of which at most one has a displacement, and none is a target at a distance that the
    instruction word holds. -/
structure Single (pieces : List Piece) : Prop where
  far : ∀ p ∈ pieces, ∀ distance, p ≠ .nearTarget distance
  once : pieces.Pairwise fun p q => p.displacement?.isSome = true → q.displacement? = none

/-- An operand shows an address only if it is relative to the program counter. -/
theorem text_displaced (o : Operand) (after after' : Address) (extension : List Word) :
    let displaced (a : Address) : Address := (a - 2).offset (Word.signed (extension.getD 0 0))
    SameBut (if o.isRelative then some (displaced after, displaced after') else none)
      (o.text after extension) (o.text after' extension) := by
  obtain ⟨mode, register, size⟩ := o
  cases mode with
  | pcDisplacement =>
    refine ⟨signed (Word.signed (extension.getD 0 0)) ++ "(PC) \x7b", "\x7d", ?_, ?_⟩
    · simp only [Operand.text, Word.relativeTarget, String.append_assoc]
    · simp only [Operand.text, Word.relativeTarget, String.append_assoc]
  | _ => rfl

theorem words_of_isRelative {o : Operand} (relative : o.isRelative = true) : o.words = 1 := by
  have mode : o.mode = .pcDisplacement := of_decide_eq_true relative
  rw [Operand.words, mode]
  rfl

/-- An operand whose words come behind `m` others. -/
theorem operand_displaced (o : Operand) (m : Nat) {c c' : Cursor} (same : Cursor.SameWords (m + o.words) c c') :
    SameBut (if o.isRelative then some (c.target m, c'.target m) else none)
      (o.text (c.skip (m + o.words)).address ((c.readWords (m + o.words)).1.drop m))
      (o.text (c'.skip (m + o.words)).address ((c'.readWords (m + o.words)).1.drop m)) := by
  rw [← same.words]
  have shown := text_displaced o (c.skip (m + o.words)).address (c'.skip (m + o.words)).address
    ((c.readWords (m + o.words)).1.drop m)
  by_cases relative : o.isRelative = true
  · have one := words_of_isRelative relative
    have first : ((c.readWords (m + o.words)).1.drop m).getD 0 0 = leadingWord (c.skip m).rest := by
      rw [← Cursor.getD_readWords (show m < m + o.words by omega) c]
      simp
    have other : leadingWord (c.skip m).rest = leadingWord (c'.skip m).rest := same m (by omega)
    simp only [relative, if_true, first] at shown ⊢
    simp only [Cursor.target, ← other, ← one]
    exact shown
  · simp only [if_neg relative] at shown ⊢
    exact shown

/-- What a piece gives depends on where its words lie in the target of a displacement only. -/
theorem textAt_displaced {p : Piece} (far : ∀ distance, p ≠ .nearTarget distance) {c c' : Cursor}
    (same : Cursor.SameWords p.words c c') :
    SameBut (p.displacement?.map fun k => (c.target k, c'.target k)) (p.textAt c) (p.textAt c') := by
  cases p with
  | nearTarget distance => exact absurd rfl (far distance)
  | target =>
    refine ⟨"", "", ?_, ?_⟩
    · simp [textAt, render, Word.relativeTarget, Cursor.readWords_fst, Cursor.target, words]
    · simp [textAt, render, Word.relativeTarget, Cursor.readWords_fst, Cursor.target, words]
  | operand o =>
    have behind : Cursor.SameWords (0 + o.words) c c' := by rwa [Nat.zero_add]
    have shown := operand_displaced o 0 behind
    simp only [Nat.zero_add, List.drop_zero] at shown
    rw [displacement?, Option.map_if]
    exact shown
  | load source style =>
    have row (place : Cursor) : (Piece.load source style).textAt place =
        source.text (place.skip (1 + source.words)).address ((place.readWords (1 + source.words)).1.drop 1) ++
          loadList style (RegisterList.entries ((place.readWords (1 + source.words)).1.getD 0 0)) := by
      rw [List.drop_one]
      rfl
    have mask : (c.readWords (1 + source.words)).1.getD 0 0 = (c'.readWords (1 + source.words)).1.getD 0 0 :=
      congrArg (·.getD 0 0) same.words
    have shown := operand_displaced source 1 same
    have list : SameBut none
        (loadList style (RegisterList.entries ((c.readWords (1 + source.words)).1.getD 0 0))) _ := rfl
    rw [displacement?, Option.map_if, row, row, ← mask]
    have all := shown.append list (fun _ => rfl)
    rwa [Option.or_none] at all
  | _ =>
    simp only [textAt, render, same.words, displacement?]
    rfl

theorem lt_words_of_displacement? {p : Piece} {k : Nat} (held : p.displacement? = some k) : k < p.words := by
  cases p with
  | target =>
    cases held
    exact Nat.one_pos
  | operand o =>
    simp only [displacement?, Option.ite_none_right_eq_some, Option.some.injEq] at held
    obtain ⟨relative, rfl⟩ := held
    rw [words, words_of_isRelative relative]
    exact Nat.one_pos
  | load source style =>
    simp only [displacement?, Option.ite_none_right_eq_some, Option.some.injEq] at held
    obtain ⟨relative, rfl⟩ := held
    rw [words, words_of_isRelative relative]
    exact Nat.one_lt_two
  | _ => cases held

theorem total_cons (p : Piece) (rest : List Piece) : total (p :: rest) = p.words + total rest := rfl

theorem lt_total_of_displacementIn? {pieces : List Piece} {k : Nat} (held : displacementIn? pieces = some k) :
    k < total pieces := by
  induction pieces generalizing k with
  | nil => cases held
  | cons p rest ih =>
    rw [displacementIn?, Option.or_eq_some_iff] at held
    rw [total_cons]
    rcases held with here | ⟨_, behind⟩
    · have few := lt_words_of_displacement? here
      omega
    · obtain ⟨m, later, rfl⟩ := Option.map_eq_some_iff.mp behind
      have few := ih later
      omega

theorem displacementIn?_eq_none {pieces : List Piece} (none : ∀ p ∈ pieces, p.displacement? = none) :
    displacementIn? pieces = Option.none := by
  induction pieces with
  | nil => rfl
  | cons p rest ih =>
    obtain ⟨here, behind⟩ := List.forall_mem_cons.mp none
    rw [displacementIn?, here, ih behind]
    rfl

end Piece

/-- Reading a row of pieces over the same words somewhere else gives the same text, the target of a
    displacement apart. -/
theorem Reading.text_displaced {pieces : List Piece} (sound : ∀ p ∈ pieces, p.fault? = none)
    (single : Piece.Single pieces) {c c' : Cursor} (same : Cursor.SameWords (Piece.total pieces) c c') :
    SameBut ((Piece.displacementIn? pieces).map fun k => (c.target k, c'.target k)) (ofPieces pieces c).text
      (ofPieces pieces c').text := by
  induction pieces generalizing c c' with
  | nil => rfl
  | cons p rest ih =>
    obtain ⟨clean, behind⟩ := List.forall_mem_cons.mp sound
    obtain ⟨far, others⟩ := List.forall_mem_cons.mp single.far
    obtain ⟨alone, once⟩ := List.pairwise_cons.mp single.once
    rw [Piece.total_cons] at same
    have here := Piece.textAt_displaced far (fun k few => same k (by omega))
    have there := ih behind ⟨others, once⟩ same.skip
    simp only [Cursor.target_skip] at there
    rw [ofPieces_cons clean, ofPieces_cons clean, Piece.displacementIn?, Option.map_or, Option.map_map]
    refine here.append there ?_
    intro held
    rw [Piece.displacementIn?_eq_none (fun q member => alone q member (by simpa using held))]
    rfl

/-! ## Forms -/

/-- The word of an instruction that holds a displacement, counted from the instruction word: behind it
    in a long branch, a loop, and a single operand relative to the program counter; behind one more
    word where a mask or the number of a bit comes first. -/
def Encoding.displacementWord? (e : Encoding) (w : Word) : Option Nat :=
  match e with
  | .branch => if w.field 0 8 = 0 then some 1 else none
  | .decrementBranch => some 1
  | .bitByNumber _ | .moveMultiple => if Mode.ofField w = .pcDisplacement then some 2 else none
  | .dyadic _ | .addressArithmetic | .addressCompare | .loadAddress | .moveAddress | .control | .bitByRegister _
  | .compare | .wordToRegister | .move | .moveToStatus _ =>
    if Mode.ofField w = .pcDisplacement then some 1 else none
  | _ => none

theorem Mode.ne_pcDisplacement {m : Mode} (alterable : m.isAlterable = true) : m ≠ .pcDisplacement := by
  rintro rfl
  cases alterable

/-- The pieces of an operand field have the displacement where the instruction word says. -/
theorem Encoding.displacementIn?_operands {e : Encoding} {style : Style} {w : Word}
    (accepted : e.accepts style w = true) :
    (Piece.displacementIn? (e.operands style w)).map (1 + ·) = e.displacementWord? w := by
  cases e with
  | immediate status | quick | shiftMemory | setByCondition | unary | testAndSet | test | moveFromStatus =>
    have other : Mode.ofField w ≠ .pcDisplacement := by
      intro relative
      simp [accepts, relative, Mode.isAlterable] at accepted
    simp only [operands, displacementWord?]
    repeat' split
    all_goals simp [Piece.displacementIn?, Piece.displacement?, Operand.isRelative, Operand.ofField, other]
  | move =>
    have other : Mode.ofField w.destinationField ≠ .pcDisplacement := by
      simp only [accepts, Bool.and_eq_true] at accepted
      exact Mode.ne_pcDisplacement accepted.2
    simp [operands, displacementWord?, Piece.displacementIn?, Piece.displacement?, Operand.isRelative, Operand.ofField,
      other]
  | _ =>
    simp only [operands, displacementWord?]
    repeat' split
    all_goals simp_all [Piece.displacementIn?, Piece.displacement?, Operand.isRelative, Operand.ofField, Piece.words]

theorem Piece.isSome_displacement? {p : Piece} (other : p.isTarget = false) :
    p.displacement?.isSome = p.isRelative := by
  cases p with
  | target => cases other
  | operand o =>
    simp only [displacement?, isRelative]
    split <;> simp_all
  | load source style =>
    simp only [displacement?, isRelative]
    split <;> simp_all
  | _ => rfl

theorem Piece.Settled.single {pieces : List Piece} (settled : Settled pieces) : Single pieces where
  far := by
    rintro p member distance rfl
    have target := settled.targets _ member
    cases target
  once := by
    refine settled.once.imp_of_mem ?_
    intro p q here there once held
    rw [isSome_displacement? (settled.targets p here)] at held
    have plain := once held
    rw [← isSome_displacement? (settled.targets q there)] at plain
    simpa using plain

/-- All operand fields but those of short branches depend on addresses in a displacement only. -/
theorem Encoding.single_operands {e : Encoding} {style : Style} {w : Word} (accepted : e.accepts style w = true)
    (long : e = .branch → w.field 0 8 = 0) : Piece.Single (e.operands style w) := by
  cases e with
  | branch =>
    rw [operands, if_pos (long rfl)]
    exact ⟨by simp, by simp⟩
  | decrementBranch => exact ⟨by simp [operands], by simp [operands, Piece.displacement?]⟩
  | _ => exact (settled_operands accepted (by simp)).single

/-- The word of an instruction that holds a displacement. -/
def Form.displacementWord? (f : Form) (w : Word) : Option Nat := f.entry.encoding.displacementWord? w

theorem Form.lt_of_displacementWord? {f : Form} {style : Style} {w : Word} {k : Nat}
    (accepted : f.accepts style w = true) (held : f.displacementWord? w = some k) :
    k < 1 + f.extensionWords style w := by
  rw [displacementWord?, ← Encoding.displacementIn?_operands accepted] at held
  obtain ⟨m, row, rfl⟩ := Option.map_eq_some_iff.mp held
  have few := Piece.lt_total_of_displacementIn? row
  have total := f.total_operands style w
  rw [operands] at total
  omega

/-- The operands of an instruction at two places over the same words. -/
theorem Form.operands_displaced {f : Form} {style : Style} {w : Word} (accepted : f.accepts style w = true)
    {c c' : Cursor} (same : Cursor.SameWords (1 + f.extensionWords style w) c c')
    (near : w.field 0 8 ≠ 0 → (c.skip 1).address = (c'.skip 1).address) :
    SameBut ((f.displacementWord? w).map fun k => (c.target k, c'.target k))
      (Reading.ofPieces (f.operands style w) (c.skip 1)).text
      (Reading.ofPieces (f.operands style w) (c'.skip 1)).text := by
  -- A short branch has no word of its own for the distance and counts from behind the instruction word.
  by_cases short : f.entry.encoding = .branch ∧ w.field 0 8 ≠ 0
  · obtain ⟨family, distance⟩ := short
    have row : f.operands style w = [.nearTarget w.lowSigned] := by
      rw [operands, family, Encoding.operands, if_neg distance]
    have none : f.displacementWord? w = none := by
      rw [displacementWord?, family, Encoding.displacementWord?, if_neg distance]
    have text (place : Cursor) : (Reading.ofPieces [.nearTarget w.lowSigned] place).text =
        "$" ++ hex .lower 8 (place.address.offset w.lowSigned).toNat ++ "" := rfl
    rw [row, none, text, text, near distance]
    rfl
  · have single := Encoding.single_operands accepted (fun family => by_contra fun distance => short ⟨family, distance⟩)
    have words : Cursor.SameWords (Piece.total (f.operands style w)) (c.skip 1) (c'.skip 1) := by
      rw [f.total_operands]
      exact same.skip
    have row := Reading.text_displaced (operands_sound accepted) single words
    simp only [Cursor.target_skip] at row
    rw [displacementWord?, ← Encoding.displacementIn?_operands accepted, Option.map_map]
    exact row

/-! ## Instructions -/

theorem Address.offset_zero (a : Address) : a.offset (Word.signed 0) = a := by
  rw [show Word.signed 0 = 0 by decide, offset, show UInt32.ofInt 0 = 0 from rfl, UInt32.add_zero]

section Targets

variable {window : List Byte} {k : Nat} (a : Address)

theorem target_of_present (present : 2 * (k + 1) ≤ window.length) :
    (Cursor.start window a).target k = (a.advance (2 * k)).offset (leadingWord (window.drop (2 * k))).signed := by
  have next : ((Cursor.start window a).skip (k + 1)).address - 2 = a.advance (2 * k) := by
    rw [Cursor.address_skip present, Nat.mul_succ, ← Address.advance_advance, ← Address.add_two]
    simp [Cursor.start]
  rw [Cursor.target, next, Cursor.leadingWord_skip]
  rfl

/-- A displacement that is missing reads as zero, and the address has stopped with the window. -/
theorem target_of_missing (missing : window.length < 2 * (k + 1)) :
    (Cursor.start window a).target k = a.advance (2 * (window.length / 2)) - 2 := by
  have word : leadingWord ((Cursor.start window a).skip k).rest = 0 := by
    rw [Cursor.leadingWord_skip]
    apply leadingWord_of_short
    simp only [Cursor.start, List.length_drop]
    omega
  have present : min (k + 1) (window.length / 2) = window.length / 2 := by omega
  rw [Cursor.target, word, Address.offset_zero]
  simp only [Cursor.skip, Cursor.start, present]

end Targets

/-- The operands of an instruction over a window and over zeros behind its whole words. They are the same,
    unless the window ends before the word that holds the displacement. Then the target, counted from
    that word over the zeros, is counted from the last of the `size` bytes that the window has. -/
def OperandsCut (window : List Byte) (a : Address) (size : UInt32) : Option Nat → String → String → Prop
  | none, s, t => s = t
  | some k, s, t =>
    if window.length < 2 * (k + 1) then SameBut (some (a + size - 2, a.advance (2 * k))) s t else s = t

theorem Form.operands_cut {f : Form} {style : Style} {window : List Byte} {op : Word}
    (first : leadingWord window = op) (accepted : f.accepts style op = true) (a : Address) :
    OperandsCut window a (UInt32.ofNat (2 * min (1 + f.extensionWords style op) (window.length / 2)))
      (f.displacementWord? op)
      (Reading.ofPieces (f.operands style op) ((Cursor.start window a).skip 1)).text
      (Reading.ofPieces (f.operands style op) ((Cursor.start (padded window) a).skip 1)).text := by
  have long := le_length_padded window
  have near (distance : op.field 0 8 ≠ 0) :
      ((Cursor.start window a).skip 1).address = ((Cursor.start (padded window) a).skip 1).address := by
    have two : 2 * 1 ≤ window.length := by
      by_contra short
      rw [← first, leadingWord_of_short (by omega)] at distance
      exact distance (by decide)
    have room : 2 * 1 ≤ (padded window).length := by omega
    rw [Cursor.address_skip two, Cursor.address_skip room]
    rfl
  have shown := f.operands_displaced accepted (sameWords_padded window a _) near
  cases held : f.displacementWord? op with
  | none =>
    rw [held] at shown
    exact shown
  | some k =>
    have few := Form.lt_of_displacementWord? accepted held
    have most := f.extensionWords_le style op
    have room : 2 * (k + 1) ≤ (padded window).length := by omega
    rw [held, Option.map_some, target_of_present a room, leadingWord_padded] at shown
    by_cases missing : window.length < 2 * (k + 1)
    · have none : leadingWord (window.drop (2 * k)) = 0 := by
        apply leadingWord_of_short
        rw [List.length_drop]
        omega
      have consumed : min (1 + f.extensionWords style op) (window.length / 2) = window.length / 2 := by omega
      rw [target_of_missing a missing, none, Address.offset_zero] at shown
      rw [OperandsCut, if_pos missing, consumed]
      exact shown
    · rw [target_of_present a (Nat.le_of_not_lt missing)] at shown
      rw [OperandsCut, if_neg missing]
      exact shown.eq_of_address

/-- Truncation reads as zeros. An instruction that a window cuts off is the one that it would be with
    zeros behind the window's last whole word, but for the target of a displacement that is missing: of a
    branch, a loop, or an operand relative to the program counter. -/
theorem Decoder.truncation_reads_zeros (d : Decoder) (window : List Byte) (a : Address) :
    let cut := (d.decode (Cursor.start window a)).instruction
    let full := (d.decode (Cursor.start (padded window) a)).instruction
    cut.op = full.op ∧ cut.form = full.form ∧ cut.mnemonic = full.mnemonic ∧ cut.valid = full.valid ∧
      OperandsCut window a cut.size (cut.form.bind (·.displacementWord? cut.op)) cut.operands full.operands := by
  intro cut full
  have word : leadingWord (Cursor.start (padded window) a).rest = leadingWord window := leadingWord_padded window 0
  cases found : Form.select? d.style (leadingWord window) with
  | none =>
    have here : cut = _ := (d.decode_unmatched (c := Cursor.start window a) found).1
    have there : full = _ := (d.decode_unmatched (c := Cursor.start (padded window) a) (word ▸ found)).1
    rw [here, there]
    exact ⟨word.symm, rfl, rfl, rfl, rfl⟩
  | some f =>
    have here : cut = _ := (d.decode_matched (c := Cursor.start window a) found).1
    have there : full = _ := (d.decode_matched (c := Cursor.start (padded window) a) (word ▸ found)).1
    rw [word] at there
    rw [here, there]
    exact ⟨rfl, rfl, rfl, rfl, Form.operands_cut rfl (Form.accepts_of_select? found) a⟩

/-- A load of several registers of which the mask and the displacement are missing. -/
example :
    let operands (window : List Byte) := (({} : Decoder).decode (Cursor.start window 0x1000)).instruction.operands
    operands [0x4C, 0xBA, 0x7F] = "+0(PC) \x7b$00001000\x7d," ∧
      operands (padded [0x4C, 0xBA, 0x7F]) = "+0(PC) \x7b$00001004\x7d," := by
  decide +kernel

end M68k
