import Mathlib
import M68k.Proofs.Catalogue

/-!
Rejections leave no trace. Candidates are tried on the cursor itself, and what one of them has
read before it turns a word down is gone for the next (`Scanning.search`). Since handlers read
nothing before they have made up their mind, this comes to the same as asking first and reading
afterwards (`Decoder.rejections_leave_no_trace`).
-/
namespace M68k

namespace Form

theorem select?_eq_none_of_rejected {style : Style} {w : Word} {s : Trial}
    (rejected : ∀ f : Form, f.fits w = true → ∃ after, (f.handle style w).run s = .error .rejected after) :
    select? style w = none := by
  apply List.find?_eq_none.mpr
  intro f member accepted
  obtain ⟨_, fits⟩ := List.mem_filter.mp member
  obtain ⟨after, ended⟩ := rejected f fits
  rw [f.reads_handle style w s, if_pos accepted] at ended
  cases ended

end Form

namespace Decoder

theorem level_ne_error (d : Decoder) (c : Cursor) :
    ∀ event ∈ (d.decode c).events, event.level ≠ .error := by
  intro event member
  rw [d.decode_events] at member
  have searched := List.mem_of_mem_filter member
  unfold Form.searched at searched
  rcases List.mem_append.mp searched with early | last
  · obtain ⟨f, _, rfl⟩ := List.mem_map.mp early
    simp [Event.level]
  · obtain rfl := List.mem_singleton.mp last
    cases Form.select? d.style (leadingWord c.rest) with
    | none => simp [Event.level]
    | some f => simp [Event.level]

/-- A candidate that turns a word down, whatever the word and wherever the cursor stands, leaves
    the cursor and the errors as they were; one that takes it notes no error and never cuts a
    text outside its bounds. So the candidates can share one cursor: a search on it never breaks
    off, and gives and logs what decoding gives and reports. That is no error, and of a word that
    every candidate turns down decoding reads that word only and writes nothing. -/
theorem rejections_leave_no_trace :
    (∀ (f : Form) (style : Style) (w : Word) (s : Trial),
      let reading := Reading.ofPieces (f.operands style w) s.cursor
      (f.handle style w).run s =
        (if f.accepts style w then
          .ok (f.mnemonic style w, reading.text) { s with cursor := reading.cursor }
        else .error .rejected s) ∧
      (f.accepts style w = true → reading.fault = none)) ∧
    ∀ (d : Decoder) (c : Cursor),
      (∀ (asks : Event → Bool) (before : List Event),
        (Scanning.instruction d asks Form.all).run ⟨c, before⟩ =
          .ok (d.decode c).instruction ⟨(d.decode c).cursor, before ++ (d.decode c).events⟩) ∧
      (∀ event ∈ (d.decode c).events, event.level ≠ .error) ∧
      ((∀ f : Form, f.fits c.readWord.1 = true → ∃ after,
          (f.handle d.style c.readWord.1).run { cursor := c.readWord.2 } = .error .rejected after) →
        (d.decode c).cursor = c.readWord.2 ∧ (d.decode c).instruction.form = none ∧
          (d.decode c).instruction.mnemonic = "" ∧ (d.decode c).instruction.operands = "" ∧
          (d.decode c).instruction.valid = false) := by
  refine ⟨?_, ?_⟩
  · intro f style w s reading
    refine ⟨f.reads_handle style w s, ?_⟩
    intro accepted
    exact (Reading.ofPieces_sound (Form.operands_sound accepted) s.cursor).1
  · intro d c
    refine ⟨fun _ _ => Scanning.run_instruction, d.level_ne_error c, ?_⟩
    intro rejected
    have none := Form.select?_eq_none_of_rejected rejected
    simp only [decode, none, and_self]

/-- C1C8 fits AND, EXG and MULS, and all of them turn it down: behind an overflow and in front
    of an odd byte it is read alone. As the mask of a MOVEM it names six registers. -/
theorem rejections_leave_no_trace_overflowed :
    let c : Cursor := { rest := [0xC1, 0xC8, 0x12], position := 4, address := 0xFFFFFFFE, overflow := true }
    let result := ({ style := .corrected } : Decoder).decode c
    result.cursor = c.readWord.2 ∧ result.instruction.valid = false ∧
      (Form.movem.handle .classic 0x4CD8).run { cursor := c } =
        .ok ("MOVEM.L", "(A0)+,D3,D6,D7,A0,A6,A7 ") { cursor := c.readWord.2 } := by
  intro c result
  obtain ⟨handlers, decoding⟩ := rejections_leave_no_trace
  have each : ∀ f ∈ Form.all, f.fits 0xC1C8 = true → f.accepts .corrected 0xC1C8 = false := by
    decide +kernel
  obtain ⟨_, _, unread⟩ := decoding { style := .corrected } c
  have alone := unread (by
    intro f fits
    have refused := each f (Form.mem_all f) fits
    exact ⟨_, (handlers f .corrected 0xC1C8 _).1.trans (if_neg (by simp [refused]))⟩)
  have text : (Reading.ofPieces (Form.movem.operands .classic 0x4CD8) c).text =
      "(A0)+,D3,D6,D7,A0,A6,A7 " := by decide +kernel
  have load := (handlers .movem .classic 0x4CD8 { cursor := c }).1
  rw [text] at load
  exact ⟨alone.1, alone.2.2.2.2, load⟩

end Decoder

end M68k
