import Mathlib
import M68k.Proofs.Sweeping

/-!
Reading on and on with one cursor gives what a listing gives. A session (`Decoder.session`)
calls the decoder at a cursor that keeps its place, its address and its mark between calls,
where a sweep starts afresh at every step. Both stop at the same places: the calls of a session
are the steps of the sweep up to the first reading that the end of the image cuts off
(`Session.Follows`), and only the lines have put neighbouring data together.
-/
namespace M68k

/-- One call of the decoder: the cursor it was made at, and what it gave. -/
structure Call where
  before : Cursor
  result : Decoded

/-- Calls made one after the other on one cursor, and the cursor behind the last of them. -/
structure Session where
  calls : List Call
  last : Cursor

/-- A session with one more call before it. -/
def Session.after (s : Session) (call : Call) : Session := { s with calls := call :: s.calls }

/-- Reading moves a cursor that has a word in front of it. -/
theorem Decoder.remaining_decode_lt (d : Decoder) {c : Cursor} (two : 2 ≤ c.remaining) :
    (d.decode c).cursor.remaining < c.remaining := by
  rw [d.decode_cursor]
  simp only [Cursor.remaining, Cursor.skip, List.length_drop, Form.needed] at two ⊢
  omega

/-- The calls at a cursor while two bytes remain and until one runs past the end. The one that
    does is left out. -/
def Decoder.session (d : Decoder) (c : Cursor) : Session :=
  if 2 ≤ c.remaining ∧ (d.decode c).cursor.overflow = false then
    (d.session (d.decode c).cursor).after ⟨c, d.decode c⟩
  else { calls := [], last := c }
termination_by c.remaining
decreasing_by
  rename_i goesOn
  exact d.remaining_decode_lt goesOn.1

namespace Session

/-- The place up to which a session has read: where the call that ran past the end began, or
    the end of the image if there was none. -/
def reach (s : Session) : Nat :=
  if 2 ≤ s.last.remaining then s.last.position else s.last.position + s.last.remaining

/-- The instructions that a session gives. -/
def instructions (s : Session) : List Instruction :=
  (s.calls.map (·.result.instruction)).filter (·.valid)

/-- The words in which a session finds no instruction. -/
def words (s : Session) : List Word :=
  ((s.calls.map (·.result.instruction)).filter (!·.valid)).map (·.op)

theorem reach_after (s : Session) (call : Call) : (s.after call).reach = s.reach := rfl

theorem instructions_after (s : Session) (call : Call) : (s.after call).instructions =
    (if call.result.instruction.valid then [call.result.instruction] else []) ++ s.instructions := by
  simp only [instructions, after, List.map_cons, List.filter_cons]
  split <;> rfl

theorem words_after (s : Session) (call : Call) : (s.after call).words =
    (if call.result.instruction.valid then [] else [call.result.instruction.op]) ++ s.words := by
  simp only [words, after, List.map_cons, List.filter_cons]
  cases call.result.instruction.valid <;> rfl

end Session

/-! ## The first bytes of some lines -/

/-- The words that a row of bytes has in full. -/
def wholeWords : List Byte → List Word
  | high :: low :: rest => Word.ofBytes high low :: wholeWords rest
  | _ => []

namespace Line

/-- The instructions of the lines that start within the first `n` bytes. -/
def codeWithin : Nat → List Line → List Instruction
  | _, [] => []
  | n, l :: lines =>
    (if 0 < n ∧ l.data = false then [l.instruction] else []) ++ codeWithin (n - l.bytes.length) lines

/-- The words that data lines have in full within the first `n` bytes. -/
def dataWithin : Nat → List Line → List Word
  | _, [] => []
  | n, l :: lines =>
    (if l.data then wholeWords (l.bytes.take n) else []) ++ dataWithin (n - l.bytes.length) lines

theorem codeWithin_zero (lines : List Line) : codeWithin 0 lines = [] := by
  induction lines with
  | nil => rfl
  | cons l lines ih => simp [codeWithin, ih]

theorem dataWithin_zero (lines : List Line) : dataWithin 0 lines = [] := by
  induction lines with
  | nil => rfl
  | cons l lines ih => simp [dataWithin, wholeWords, ih]

/-- A word of data in front of lines adds no code, whether or not it joins a line. -/
theorem codeWithin_prepend (a : Address) (high low : Byte) (events : List Event) (n : Nat) (lines : List Line) :
    codeWithin (2 + n) ((Step.data a [high, low] events).prepend lines) = codeWithin n lines := by
  cases lines with
  | nil => simp [Step.prepend, codeWithin]
  | cons line lines =>
    simp only [Step.prepend]
    split
    · rename_i joined
      have shorter : 2 + n - ([high, low] ++ line.bytes).length = n - line.bytes.length := by
        simp only [List.length_append, List.length_cons, List.length_nil]
        omega
      simp only [codeWithin, joined, shorter]
      simp
    · simp [codeWithin]

/-- A word of data in front of lines is the first one of data, whether or not it joins a line. -/
theorem dataWithin_prepend (a : Address) (high low : Byte) (events : List Event) (n : Nat) (lines : List Line) :
    dataWithin (2 + n) ((Step.data a [high, low] events).prepend lines) =
      Word.ofBytes high low :: dataWithin n lines := by
  have first (rest : List Byte) :
      wholeWords ((high :: low :: rest).take (2 + n)) = Word.ofBytes high low :: wholeWords (rest.take n) := by
    rw [Nat.add_comm]
    rfl
  cases lines with
  | nil => simp [Step.prepend, dataWithin, first, wholeWords]
  | cons line lines =>
    simp only [Step.prepend]
    split
    · rename_i joined
      have shorter : 2 + n - ([high, low] ++ line.bytes).length = n - line.bytes.length := by
        simp only [List.length_append, List.length_cons, List.length_nil]
        omega
      simp only [dataWithin, joined, if_true, shorter]
      simp [first]
    · simp [dataWithin, first, wholeWords]

end Line

/-! ## Calls at a cursor under way -/

theorem Cursor.skip_front {c : Cursor} {front back : List Byte} {n : Nat} (split : c.rest = front ++ back)
    (exact : front.length = 2 * n) :
    c.skip n = { c with rest := back, position := c.position + front.length
                        address := c.address.advance front.length } := by
  have present : min n (c.rest.length / 2) = n := by
    rw [split, List.length_append]
    omega
  have room : ¬ c.rest.length < front.length := by
    rw [split, List.length_append]
    omega
  simp only [skip, present, ← exact, room, decide_false, Bool.or_false]
  rw [split, List.drop_left]

namespace Decoder

variable (d : Decoder) {front : List Byte} {a : Address}

/-- A cursor under way reads a whole reading as a fresh one does, and goes on behind it. -/
theorem decode_under_way (whole : Whole d.style front) (back : List Byte) (p : Nat) (a : Address) :
    let result := d.decode ⟨front ++ back, p, a, false⟩
    result.instruction = (d.decode (Cursor.start front a)).instruction ∧
      result.cursor = ⟨back, p + front.length, a.advance front.length, false⟩ := by
  intro result
  have fresh : result.instruction = (d.decode (Cursor.start (front ++ back) a)).instruction :=
    d.decode_instruction_congr rfl (Cursor.alike_start _ _) rfl
  have word : leadingWord (front ++ back) = leadingWord front := whole.leadingWord back
  have cursor : result.cursor = _ := d.decode_cursor ⟨front ++ back, p, a, false⟩
  refine ⟨?_, ?_⟩
  · rw [fresh, d.decode_whole whole]
  · rw [cursor, word, Cursor.skip_front rfl whole]

theorem session_whole (whole : Whole d.style front) (back : List Byte) (p : Nat) (a : Address) :
    let c : Cursor := ⟨front ++ back, p, a, false⟩
    d.session c =
      (d.session ⟨back, p + front.length, a.advance front.length, false⟩).after ⟨c, d.decode c⟩ := by
  intro c
  obtain ⟨_, cursor⟩ := d.decode_under_way whole back p a
  have two : 2 ≤ c.remaining := by
    have some := whole.two_le
    simp only [c, Cursor.remaining, List.length_append]
    omega
  have goesOn : 2 ≤ c.remaining ∧ (d.decode c).cursor.overflow = false := by
    rw [cursor]
    exact ⟨two, rfl⟩
  rw [session, if_pos goesOn, cursor]

theorem session_stops {c : Cursor} (stops : 2 ≤ c.remaining → (d.decode c).cursor.overflow = true) :
    d.session c = { calls := [], last := c } := by
  rw [session, if_neg]
  rintro ⟨two, clear⟩
  rw [stops two] at clear
  cases clear

/-- Whether a reading runs past the end does not depend on what was read before. -/
theorem overflow_under_way {image : List Byte} (p : Nat)
    (short : (d.decode (Cursor.start image a)).cursor.overflow = true) :
    (d.decode ⟨image, p, a, false⟩).cursor.overflow = true := by
  rw [d.decode_cursor] at short ⊢
  exact short

end Decoder

/-! ## Sessions and sweeps -/

/-- A session from a place on follows the lines from there on: up to where it reaches, it gives
    the instructions of the lines, and the words of their data. -/
structure Session.Follows (s : Session) (p : Nat) (lines : List Line) : Prop where
  ahead : p ≤ s.reach
  code : s.instructions = Line.codeWithin (s.reach - p) lines
  data : s.words = Line.dataWithin (s.reach - p) lines

namespace Session.Follows

variable {s : Session} {p : Nat} {lines : List Line}

/-- A call that gives the instruction of a line goes with the line. -/
theorem code_line {call : Call} {l : Line} (isCode : l.data = false) (some : l.bytes ≠ [])
    (read : call.result.instruction = l.instruction) (valid : l.instruction.valid = true)
    (follows : s.Follows (p + l.bytes.length) lines) : (s.after call).Follows p (l :: lines) := by
  obtain ⟨ahead, code, data⟩ := follows
  have length := List.length_pos_iff.mpr some
  have within : 0 < s.reach - p := by omega
  have behind : s.reach - p - l.bytes.length = s.reach - (p + l.bytes.length) := by omega
  refine ⟨?_, ?_, ?_⟩
  · rw [reach_after]
    omega
  · rw [reach_after, instructions_after, Line.codeWithin, behind, ← code, read]
    simp [valid, within, isCode]
  · rw [reach_after, words_after, Line.dataWithin, behind, ← data, read]
    simp [valid, isCode]

/-- A call that finds no instruction goes with a word of data. -/
theorem data_word {call : Call} {high low : Byte} (refused : call.result.instruction.valid = false)
    (op : call.result.instruction.op = Word.ofBytes high low) (a : Address) (events : List Event)
    (follows : s.Follows (p + 2) lines) :
    (s.after call).Follows p ((Step.data a [high, low] events).prepend lines) := by
  obtain ⟨ahead, code, data⟩ := follows
  have behind : s.reach - p = 2 + (s.reach - (p + 2)) := by omega
  refine ⟨?_, ?_, ?_⟩
  · rw [reach_after]
    omega
  · rw [reach_after, instructions_after, behind, Line.codeWithin_prepend, ← code]
    simp [refused]
  · rw [reach_after, words_after, behind, Line.dataWithin_prepend, ← data]
    simp [refused, op]

end Session.Follows

namespace Decoder

variable {d : Decoder} {a : Address} {image : List Byte} {steps : List Step}

/-- The calls of a session are the steps of a sweep, until a reading is cut off. -/
theorem Swept.follows (swept : d.Swept a image steps) (p : Nat) :
    (d.session ⟨image, p, a, false⟩).Follows p (steps.foldr Step.prepend []) := by
  induction swept generalizing p with
  | nil a =>
    rw [d.session_stops (by simp [Cursor.remaining])]
    exact ⟨Nat.le_refl p, rfl, rfl⟩
  | odd a b =>
    rw [d.session_stops (by simp [Cursor.remaining])]
    -- The last byte alone is no word of data.
    have reach : Session.reach { calls := [], last := ⟨[b], p, a, false⟩ } = p + 1 := rfl
    refine ⟨?_, ?_, ?_⟩
    · rw [reach]
      exact Nat.le_succ p
    · rw [reach, Nat.add_sub_cancel_left]
      rfl
    · rw [reach, Nat.add_sub_cancel_left]
      rfl
  | @code a front back steps whole valid tail ih =>
    obtain ⟨read, _⟩ := d.decode_under_way whole back p a
    have some : front ≠ [] := List.ne_nil_of_length_pos (Nat.lt_of_lt_of_le Nat.zero_lt_two whole.two_le)
    rw [d.session_whole whole]
    exact .code_line rfl some read valid (ih (p + front.length))
  | @unmatched a front back steps whole refused tail ih =>
    obtain ⟨read, _⟩ := d.decode_under_way whole back p a
    rw [d.session_whole whole]
    match front, d.length_of_unmatched whole refused with
    | [high, low], _ =>
      refine .data_word ?_ ?_ _ _ (ih (p + 2))
      · rw [read]
        exact refused
      · rw [read, d.decode_op]
        rfl
  | @cut a high low rest steps short tail ih =>
    rw [d.session_stops (fun _ => d.overflow_under_way p short)]
    have reach : Session.reach { calls := [], last := ⟨high :: low :: rest, p, a, false⟩ } = p := by
      simp [Session.reach, Cursor.remaining]
    refine ⟨?_, ?_, ?_⟩
    · rw [reach]
    · rw [reach, Nat.sub_self, Line.codeWithin_zero]
      rfl
    · rw [reach, Nat.sub_self, Line.dataWithin_zero]
      rfl

/-! ## What a session consists of -/

theorem session_calls (d : Decoder) (c : Cursor) : ∀ call ∈ (d.session c).calls,
    2 ≤ call.before.remaining ∧ call.result = d.decode call.before ∧
      call.result.cursor.overflow = false := by
  fun_induction Decoder.session d c with
  | case1 c goesOn ih => exact List.forall_mem_cons.mpr ⟨⟨goesOn.1, rfl, goesOn.2⟩, ih⟩
  | case2 c stops => simp

/-- A session loses no byte, and ends with a word in front of it only where reading it runs past
    the end. -/
theorem session_last (d : Decoder) (c : Cursor) :
    (d.session c).last.position + (d.session c).last.remaining = c.position + c.remaining ∧
      (2 ≤ (d.session c).last.remaining → (d.decode (d.session c).last).cursor.overflow = true) := by
  fun_induction Decoder.session d c with
  | case1 c goesOn ih =>
    refine ⟨ih.1.trans ?_, ih.2⟩
    rw [d.decode_cursor]
    simp only [Cursor.skip, Cursor.remaining, List.length_drop]
    omega
  | case2 c stops =>
    refine ⟨rfl, fun two => ?_⟩
    rw [← Bool.not_eq_false]
    exact fun clear => stops ⟨two, clear⟩

/-- A word that no form accepts is all that reading it takes. -/
theorem position_of_unmatched (d : Decoder) {c : Cursor} (two : 2 ≤ c.remaining)
    (refused : (d.decode c).instruction.valid = false) :
    (d.decode c).cursor.position = c.position + 2 := by
  rw [d.decode_valid] at refused
  have none : Form.select? d.style (leadingWord c.rest) = none :=
    Option.isNone_iff_eq_none.mp (Option.isSome_eq_false_iff.mp refused)
  rw [(d.decode_unmatched none).2]
  simp only [Cursor.skip, Cursor.remaining] at two ⊢
  omega

/-- Streaming and listing agree. Read with one cursor, up to the first reading that the end of
    the image cuts off, an image gives the instructions of the lines that start there, in order
    and in every field; where there is none the cursor moves by two bytes, and these words are
    the words that the data lines have there. -/
theorem session_agrees_listing (d : Decoder) (image : List Byte) (origin : Address) :
    let lines := (d.listing image origin).lines
    let s := d.session (Cursor.start image origin)
    (s.last.remaining < 2 ∧ s.reach = image.length ∨
      (d.decode s.last).cursor.overflow = true ∧ s.reach = s.last.position) ∧
    s.instructions = Line.codeWithin s.reach lines ∧
    (∀ call ∈ s.calls, call.result.instruction.valid = false →
      call.result.cursor.position = call.before.position + 2) ∧
    s.words = Line.dataWithin s.reach lines := by
  intro lines s
  have follows : s.Follows 0 lines := (d.swept image origin).follows 0
  obtain ⟨total, stops⟩ := d.session_last (Cursor.start image origin)
  refine ⟨?_, follows.code, ?_, follows.data⟩
  · by_cases two : 2 ≤ s.last.remaining
    · exact .inr ⟨stops two, if_pos two⟩
    · refine .inl ⟨Nat.lt_of_not_le two, (if_neg two).trans (total.trans ?_)⟩
      simp [Cursor.start, Cursor.remaining]
  · intro call member refused
    obtain ⟨two, result, _⟩ := d.session_calls _ call member
    rw [result] at refused ⊢
    exact d.position_of_unmatched two refused

/-- Across the end of the address space: a session reads an instruction and a word that is none,
    and stops at a move that is cut off, whose first word the listing has put to the word before
    it. -/
theorem session_agrees_listing_cut :
    let image : List Byte := [0x4E, 0x71, 0xFF, 0xFF, 0x23, 0xFC, 0x4E, 0x75]
    let lines := (({} : Decoder).listing image 0xFFFFFFFE).lines
    let s := ({} : Decoder).session (Cursor.start image 0xFFFFFFFE)
    s.reach = 4 ∧ lines.map (·.bytes.length) = [2, 4, 2] ∧
      s.instructions = Line.codeWithin 4 lines ∧ s.instructions.map (·.mnemonic) = ["NOP"] ∧
      s.words = Line.dataWithin 4 lines ∧ s.words = [0xFFFF] ∧
      ∃ call ∈ s.calls, call.result.instruction.valid = false ∧
        call.result.cursor.position = call.before.position + 2 := by
  intro image lines s
  have reach : s.reach = 4 := by decide +kernel
  obtain ⟨_, code, moved, data⟩ := session_agrees_listing {} image 0xFFFFFFFE
  have second : s.calls.any (!·.result.instruction.valid) = true := by decide +kernel
  obtain ⟨call, member, other⟩ := List.any_eq_true.mp second
  have refused : call.result.instruction.valid = false := by simpa using other
  refine ⟨reach, by decide +kernel, ?_, by decide +kernel, ?_, by decide +kernel, call, member, refused,
    moved call member refused⟩
  · rw [← reach]
    exact code
  · rw [← reach]
    exact data

end Decoder
end M68k
