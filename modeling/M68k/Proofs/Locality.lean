import Mathlib
import M68k.Proofs.Length

/-!
Decoding is local. All that reading `n` words can see of a cursor are these words and the
addresses they lie at (`Cursor.Alike`). An instruction reads as many words as its first word
asks for, so that it is the same in every window that starts with its bytes, and the same
however its cursor came to stand where it stands.
-/
namespace M68k

namespace Cursor

/-- Two cursors have the same `n` words in front of them, at the same addresses. -/
structure Alike (n : Nat) (c c' : Cursor) : Prop where
  word : ∀ k < n, leadingWord (c.skip k).rest = leadingWord (c'.skip k).rest
  place : ∀ k ≤ n, (c.skip k).address = (c'.skip k).address

namespace Alike

variable {c c' : Cursor} {m n : Nat}

theorem skip (alike : Alike (m + n) c c') : Alike n (c.skip m) (c'.skip m) := by
  refine ⟨?_, ?_⟩
  · intro k few
    rw [skip_skip, skip_skip]
    exact alike.word (m + k) (by omega)
  · intro k few
    rw [skip_skip, skip_skip]
    exact alike.place (m + k) (by omega)

theorem address (alike : Alike n c c') : c.address = c'.address := by
  simpa using alike.place 0 (Nat.zero_le n)

theorem leadingWord (alike : Alike n c c') (some : 0 < n) :
    leadingWord c.rest = leadingWord c'.rest := by
  simpa using alike.word 0 some

/-- A row of pieces sees no more than the words it takes. -/
theorem text {pieces : List Piece} (sound : ∀ p ∈ pieces, p.fault? = none)
    (alike : Alike (Piece.total pieces) c c') :
    (Reading.ofPieces pieces c).text = (Reading.ofPieces pieces c').text := by
  induction pieces generalizing c c' with
  | nil => rfl
  | cons p rest ih =>
    obtain ⟨here, behind⟩ := List.forall_mem_cons.mp sound
    -- The total is a sum with the words of the first piece in front.
    have split : Alike (p.words + Piece.total rest) c c' := alike
    have words : (List.range p.words).map (fun k => M68k.leadingWord (c.skip k).rest) =
        (List.range p.words).map (fun k => M68k.leadingWord (c'.skip k).rest) := by
      apply List.map_congr_left
      intro k member
      have few := List.mem_range.mp member
      exact split.word k (by omega)
    rw [Reading.text_cons here, Reading.text_cons here, words, split.place p.words (by omega),
      ih behind split.skip]

end Alike

/-- Neither the bytes read before nor the mark count for what lies in front of a cursor. -/
theorem alike_start (c : Cursor) (n : Nat) : Alike n c (start c.rest c.address) :=
  ⟨fun _ _ => rfl, fun _ _ => rfl⟩

theorem alike_append {front : List Byte} {n : Nat} (room : 2 * n ≤ front.length)
    (back back' : List Byte) (a : Address) :
    Alike n (start (front ++ back) a) (start (front ++ back') a) := by
  refine ⟨?_, ?_⟩
  · intro k few
    have two : 2 ≤ (front.drop (2 * k)).length := by
      rw [List.length_drop]
      omega
    rw [leadingWord_skip, leadingWord_skip]
    simp only [start]
    rw [List.drop_append_of_le_length (by omega), List.drop_append_of_le_length (by omega),
      leadingWord_append two, leadingWord_append two]
  · intro k few
    have fits (tail : List Byte) : 2 * k ≤ (start (front ++ tail) a).rest.length := by
      simp only [start, List.length_append]
      omega
    rw [address_skip (fits back), address_skip (fits back')]
    rfl

theorem skip_append {front : List Byte} {n : Nat} (exact : front.length = 2 * n) (back : List Byte)
    (a : Address) :
    (start (front ++ back) a).skip n =
      { rest := back, position := front.length, address := a.advance front.length, overflow := false } := by
  have present : min n ((front ++ back).length / 2) = n := by
    rw [List.length_append]
    omega
  have room : ¬ (front ++ back).length < front.length := by
    rw [List.length_append]
    omega
  simp only [start, skip, present, ← exact, List.drop_left, Nat.zero_add, room, decide_false, Bool.or_false]

end Cursor

namespace Decoder

variable (d : Decoder) {c c' : Cursor}

/-- The words that an instruction needs settle it, up to how many of them are there. -/
theorem decode_instruction_congr {n : Nat} (needs : n = Form.needed d.style (leadingWord c.rest))
    (alike : c.Alike n c') (there : min n (c.rest.length / 2) = min n (c'.rest.length / 2)) :
    (d.decode c).instruction = (d.decode c').instruction := by
  have some : 0 < n := by
    rw [needs, Form.needed]
    omega
  have word := alike.leadingWord some
  unfold Form.needed at needs
  cases found : Form.select? d.style (leadingWord c.rest) with
  | none =>
    simp only [found, Nat.add_zero] at needs
    rw [(d.decode_unmatched found).1, (d.decode_unmatched (word ▸ found)).1, word, alike.address, ← needs,
      there]
  | some f =>
    simp only [found] at needs
    have sound := Form.operands_sound (Form.accepts_of_select? found)
    have ahead : (c.skip 1).Alike (Piece.total (f.operands d.style (leadingWord c.rest))) (c'.skip 1) := by
      rw [Form.total_operands]
      exact (needs ▸ alike).skip
    have operands := ahead.text sound
    rw [(d.decode_matched found).1, (d.decode_matched (word ▸ found)).1, operands, ← word, alike.address,
      ← needs, there]

end Decoder

/-! ## Whole readings -/

/-- The bytes of one reading: a word with all the words that it asks for. -/
def Whole (style : Style) (front : List Byte) : Prop :=
  front.length = 2 * Form.needed style (leadingWord front)

namespace Whole

variable {style : Style} {front : List Byte}

theorem two_le (whole : Whole style front) : 2 ≤ front.length := by
  unfold Whole Form.needed at whole
  omega

theorem even (whole : Whole style front) : Even front.length := by
  rw [whole]
  exact even_two_mul _

theorem leadingWord (whole : Whole style front) (back : List Byte) :
    leadingWord (front ++ back) = M68k.leadingWord front :=
  leadingWord_append whole.two_le back

end Whole

namespace Decoder

variable (d : Decoder)

/-- What lies behind a whole reading has no say in it. -/
theorem decode_whole {front : List Byte} (whole : Whole d.style front) (back : List Byte) (a : Address) :
    let alone := d.decode (Cursor.start front a)
    d.decode (Cursor.start (front ++ back) a) =
      { instruction := alone.instruction, events := alone.events
        cursor := { rest := back, position := front.length, address := a.advance front.length
                    overflow := false } } := by
  intro alone
  have word : leadingWord (front ++ back) = leadingWord front := whole.leadingWord back
  have alike := Cursor.alike_append (Nat.le_of_eq whole.symm) back [] a
  rw [List.append_nil] at alike
  have instruction : (d.decode (Cursor.start (front ++ back) a)).instruction = alone.instruction := by
    refine d.decode_instruction_congr (congrArg _ word.symm) alike ?_
    simp only [Cursor.start, List.length_append]
    rw [whole]
    omega
  have events : (d.decode (Cursor.start (front ++ back) a)).events = alone.events := by
    simp only [alone, decode_events, Cursor.start, word]
  have cursor := d.decode_cursor (Cursor.start (front ++ back) a)
  rw [show leadingWord (Cursor.start (front ++ back) a).rest = leadingWord front from word,
    Cursor.skip_append whole] at cursor
  rw [← instruction, ← events, ← cursor]

/-- A reading that leaves no mark has a whole reading at the start of its window. -/
theorem exists_whole {window : List Byte} {a : Address}
    (complete : (d.decode (Cursor.start window a)).cursor.overflow = false) :
    ∃ front back, window = front ++ back ∧ Whole d.style front := by
  rw [d.decode_cursor] at complete
  simp only [Cursor.skip, Cursor.start, Bool.false_or] at complete
  have room := Nat.le_of_not_lt (of_decide_eq_false complete)
  generalize needs : Form.needed d.style (leadingWord window) = n at room
  have some : 1 ≤ n := by
    rw [← needs, Form.needed]
    omega
  refine ⟨window.take (2 * n), window.drop (2 * n), (List.take_append_drop ..).symm, ?_⟩
  have length : (window.take (2 * n)).length = 2 * n := List.length_take_of_le room
  have word : leadingWord (window.take (2 * n)) = leadingWord window := by
    rw [← leadingWord_append (by omega) (window.drop (2 * n)), List.take_append_drop]
  rw [Whole, word, length, needs]

end Decoder

/-! ## Sessions -/

namespace Cursor

/-- The cursors that reading bytes and words reaches from the start of a window. -/
inductive Reached (window : List Byte) (a : Address) : Cursor → Prop
  | start : Reached window a (start window a)
  | byte {c : Cursor} (before : Reached window a c) : Reached window a c.readByte.2
  | word {c : Cursor} (before : Reached window a c) : Reached window a c.readWord.2

/-- A cursor stands in its window at its position, and its address keeps step. -/
theorem Reached.place {window : List Byte} {a : Address} {c : Cursor} (reached : Reached window a c) :
    c.rest = window.drop c.position ∧ c.address = a.advance c.position := by
  induction reached with
  | start => exact ⟨rfl, (a.advance_zero).symm⟩
  | @byte c before ih =>
    obtain ⟨rest, address⟩ := ih
    unfold readByte
    split
    · rename_i b tail front
      refine ⟨?_, ?_⟩
      · rw [← List.drop_drop, ← rest, front]
        rfl
      · rw [address, ← Address.advance_advance]
        rfl
    · exact ⟨rest, address⟩
  | @word c before ih =>
    obtain ⟨rest, address⟩ := ih
    rw [readWord_snd]
    simp only [skip]
    exact ⟨by rw [rest, List.drop_drop], by rw [address, Address.advance_advance]⟩

end Cursor

namespace Decoder

/-- Decoding is local. A reading that leaves no mark is the same in every window that starts
    with the bytes it took. And it is the same at a cursor as on a fresh one over what is left
    of the window: neither the bytes before, nor how they were read, nor the mark count. -/
theorem decode_local (d : Decoder) :
    (∀ (window other : List Byte) (a : Address),
      let result := d.decode (Cursor.start window a)
      let again := d.decode (Cursor.start other a)
      result.cursor.overflow = false → window.take result.cursor.position <+: other →
        again.instruction = result.instruction ∧ again.cursor.position = result.cursor.position ∧
          again.cursor.overflow = false) ∧
    ∀ (window : List Byte) (a : Address) (c : Cursor) (mark : Bool), Cursor.Reached window a c →
      c.address = a.advance c.position ∧
        (d.decode { c with overflow := mark }).instruction =
          (d.decode (Cursor.start (window.drop c.position) c.address)).instruction := by
  refine ⟨?_, ?_⟩
  · intro window other a result again complete same
    obtain ⟨front, back, rfl, whole⟩ := d.exists_whole complete
    have first : result = _ := d.decode_whole whole back a
    have taken : (front ++ back).take result.cursor.position = front := by
      rw [first]
      exact List.take_left
    rw [taken] at same
    obtain ⟨tail, rfl⟩ := same
    have second : again = _ := d.decode_whole whole tail a
    rw [first, second]
    exact ⟨rfl, rfl, rfl⟩
  · intro window a c mark reached
    obtain ⟨rest, address⟩ := reached.place
    rw [← rest]
    exact ⟨address, d.decode_instruction_congr rfl (Cursor.alike_start { c with overflow := mark } _) rfl⟩

/-- The longest move reads the same in front of different bytes, and a branch at an odd place,
    reached across the end of the address space and with the mark set, as on a fresh cursor. -/
theorem decode_local_long_move :
    let move : List Byte := [0x23, 0xFC, 0x00, 0x01, 0x00, 0x02, 0x00, 0x03, 0x00, 0x04]
    let result := ({} : Decoder).decode (Cursor.start (move ++ [0x4E]) 0x1000)
    let again := ({} : Decoder).decode (Cursor.start (move ++ [0xFF, 0xFF]) 0x1000)
    let c := (Cursor.start [0x12, 0x60, 0x00, 0x00, 0x10] 0xFFFFFFFF).readByte.2
    result.cursor.overflow = false ∧ again.instruction = result.instruction ∧
      result.instruction.operands = "#$00010002,$00030004 " ∧
      (({} : Decoder).decode { c with overflow := true }).instruction =
        (({} : Decoder).decode (Cursor.start [0x60, 0x00, 0x00, 0x10] 0)).instruction := by
  intro move result again c
  have complete : result.cursor.overflow = false := by decide +kernel
  have text : result.instruction.operands = "#$00010002,$00030004 " := by decide +kernel
  obtain ⟨windows, cursors⟩ := decode_local {}
  obtain ⟨same, _⟩ := windows (move ++ [0x4E]) (move ++ [0xFF, 0xFF]) 0x1000 complete (by decide +kernel)
  exact ⟨complete, same, text, (cursors _ _ c true (.byte .start)).2⟩

end Decoder
end M68k
