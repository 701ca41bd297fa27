import Mathlib
import M68k.Proofs.Sweeping

/-!
Listing images one behind the other. If no reading runs past the end of an image, the steps
through it are the same whatever follows, and a longer image is swept from its end on as an
image of its own. Only the lines have to be put together: where data meets data, two lines
become one (`Line.join`).
-/
namespace M68k

/-! ## Readings that reach the end -/

namespace Step

/-- The bytes of a step. -/
def bytes : Step → List Byte
  | .instruction _ bytes _ | .data _ bytes _ => bytes

/-- The number of bytes in the steps before the one at `i`. -/
def bytesBefore (steps : List Step) (i : Nat) : Nat := ((steps.take i).map (·.bytes.length)).sum

theorem bytesBefore_cons (s : Step) (steps : List Step) (i : Nat) :
    bytesBefore (s :: steps) (i + 1) = s.bytes.length + bytesBefore steps i := rfl

end Step

namespace Decoder

/-- No reading that the steps through an image begin with runs past its end. An odd last byte
    is a step without a reading. -/
def Complete (d : Decoder) (a : Address) (image : List Byte) (steps : List Step) : Prop :=
  ∀ i < steps.length, Step.bytesBefore steps i + 2 ≤ image.length →
    (d.decode (Cursor.start (image.drop (Step.bytesBefore steps i))
      (a.advance (Step.bytesBefore steps i)))).cursor.overflow = false

variable {d : Decoder} {a : Address} {image : List Byte} {steps : List Step}

theorem complete_cons (s : Step) (back : List Byte) :
    d.Complete a (s.bytes ++ back) (s :: steps) ↔
      (2 ≤ (s.bytes ++ back).length → (d.decode (Cursor.start (s.bytes ++ back) a)).cursor.overflow = false) ∧
        d.Complete (a.advance s.bytes.length) back steps := by
  have behind (n : Nat) : (s.bytes ++ back).drop (s.bytes.length + n) = back.drop n := by
    rw [← List.drop_drop, List.drop_left]
  constructor
  · intro complete
    refine ⟨?_, ?_⟩
    · intro room
      have first := complete 0 (Nat.zero_lt_succ _) (by simpa [Step.bytesBefore] using room)
      simpa [Step.bytesBefore] using first
    · intro i inside room
      have later := complete (i + 1) (Nat.succ_lt_succ inside) (by
        rw [Step.bytesBefore_cons, List.length_append]
        omega)
      rwa [Step.bytesBefore_cons, behind, ← Address.advance_advance] at later
  · rintro ⟨first, later⟩ i inside room
    cases i with
    | zero => simpa [Step.bytesBefore] using first (by simpa [Step.bytesBefore] using room)
    | succ i =>
      rw [Step.bytesBefore_cons, List.length_append] at room
      rw [Step.bytesBefore_cons, behind, ← Address.advance_advance]
      exact later i (Nat.lt_of_succ_lt_succ inside) (by omega)

/-- A whole reading in front leaves it to the readings behind it. -/
theorem complete_whole (s : Step) (whole : Whole d.style s.bytes) (back : List Byte) :
    d.Complete a (s.bytes ++ back) (s :: steps) ↔ d.Complete (a.advance s.bytes.length) back steps := by
  rw [complete_cons, d.decode_whole whole]
  simp

/-- Reading one instruction never reports that the image ends. -/
theorem truncated_not_mem_decode (d : Decoder) (c : Cursor) (form : Option Form) (place : Address) :
    Event.truncated form place ∉ (d.decode c).events := by
  rw [d.decode_events]
  intro member
  have searched := List.mem_of_mem_filter member
  unfold Form.searched at searched
  cases found : Form.select? d.style (leadingWord c.rest) with
  | none => simp [found] at searched
  | some f => simp [found] at searched

/-- A decoder that reports warnings reports exactly the readings that run past the end. -/
theorem Swept.complete_iff (swept : d.Swept a image steps) (loud : Level.passes d.threshold .warning = true) :
    d.Complete a image steps ↔ ∀ form place, Event.truncated form place ∉ steps.flatMap Step.events := by
  induction swept with
  | nil => simp [Complete]
  | odd a b =>
    simp only [Complete]
    simp [Step.events]
  | @code a front back steps whole valid tail ih =>
    have quiet := d.truncated_not_mem_decode (Cursor.start front a)
    refine (complete_whole (.instruction ..) whole back).trans (ih.trans ?_)
    simp [Step.events, quiet]
  | @unmatched a front back steps whole refused tail ih =>
    have quiet := d.truncated_not_mem_decode (Cursor.start front a)
    refine (complete_whole (.data ..) whole back).trans (ih.trans ?_)
    simp [Step.events, quiet]
  | @cut a high low rest steps short tail ih =>
    constructor
    · intro complete
      have first := complete 0 (Nat.zero_lt_succ _) (by simp [Step.bytesBefore])
      simp [Step.bytesBefore, short] at first
    · intro silent
      have reported := silent (d.decode (Cursor.start (high :: low :: rest) a)).instruction.form a
      simp [Step.events, report, Event.level, loud] at reported

/-- The steps through an image whose readings are all complete do not depend on what follows
    it, and the sweep goes on where it ends. -/
theorem Swept.steps_append (swept : d.Swept a image steps) (even : Even image.length)
    (complete : d.Complete a image steps) (more : List Byte) :
    d.steps (image ++ more) a = steps ++ d.steps more (a.advance image.length) := by
  induction swept with
  | nil a => rw [List.nil_append, List.nil_append, List.length_nil, Address.advance_zero]
  | odd a b => simp at even
  | @code a front back steps whole valid tail ih =>
    rw [List.length_append] at even
    have later := (complete_whole (.instruction ..) whole back).mp complete
    rw [List.append_assoc, d.steps_code whole valid, ih ((Nat.even_add.mp even).mp whole.even) later,
      List.cons_append, Address.advance_advance, List.length_append]
  | @unmatched a front back steps whole refused tail ih =>
    rw [List.length_append] at even
    have later := (complete_whole (.data ..) whole back).mp complete
    rw [List.append_assoc, d.steps_unmatched whole refused, ih ((Nat.even_add.mp even).mp whole.even) later,
      List.cons_append, Address.advance_advance, List.length_append]
  | @cut a high low rest steps short tail ih =>
    have first := complete 0 (Nat.zero_lt_succ _) (by simp [Step.bytesBefore])
    simp [Step.bytesBefore, short] at first

end Decoder

/-! ## Lines behind lines -/

namespace Line

/-- Lines behind lines. Where data meets data the two lines become one. -/
def join : List Line → List Line → List Line
  | [], more => more
  | [l], m :: more =>
    if l.data && m.data then { address := l.address, bytes := l.bytes ++ m.bytes, data := true } :: more
    else l :: m :: more
  | l :: lines, more => l :: join lines more

/-- A line with nothing but bytes of data. -/
def IsPlain (l : Line) : Prop := l = { address := l.address, bytes := l.bytes, data := true }

theorem join_cons_cons (l next : Line) (lines more : List Line) :
    join (l :: next :: lines) more = l :: join (next :: lines) more := by
  rw [join]
  simp

theorem join_cons_of_code {l : Line} (code : l.data = false) (lines more : List Line) :
    join (l :: lines) more = l :: join lines more := by
  cases lines with
  | cons next lines => exact join_cons_cons l next lines more
  | nil =>
    cases more with
    | nil => rfl
    | cons m more => simp [join, code]

end Line

namespace Step

theorem plain_lines (steps : List Step) :
    ∀ l ∈ steps.foldr prepend [], l.data = true → l.IsPlain := by
  induction steps with
  | nil => simp
  | cons s steps ih =>
    rw [List.foldr_cons]
    cases s with
    | instruction i bytes events => exact List.forall_mem_cons.mpr ⟨nofun, ih⟩
    | data a bytes events =>
      cases lines : steps.foldr prepend [] with
      | nil => simp [prepend, Line.IsPlain]
      | cons line behind =>
        rw [lines] at ih
        obtain ⟨first, rest⟩ := List.forall_mem_cons.mp ih
        simp only [prepend]
        split
        · rename_i joined
          refine List.forall_mem_cons.mpr ⟨fun _ => ?_, rest⟩
          rw [Line.IsPlain, first joined]
        · exact List.forall_mem_cons.mpr ⟨fun _ => rfl, ih⟩

theorem prepend_join (s : Step) (lines : List Line) {more : List Line}
    (plain : ∀ m ∈ more, m.data = true → m.IsPlain) :
    s.prepend (Line.join lines more) = Line.join (s.prepend lines) more := by
  cases s with
  | instruction i bytes events => exact (Line.join_cons_of_code rfl lines more).symm
  | data a bytes events =>
    match lines, more with
    | [], [] => rfl
    | [], m :: more =>
      simp only [Line.join, prepend, Bool.true_and]
      split
      · rename_i joined
        rw [plain m (List.mem_cons_self ..) joined]
      · rfl
    | [l], [] =>
      simp only [Line.join, prepend]
      split <;> rfl
    | [l], m :: more =>
      cases first : l.data with
      | false => simp [Line.join, prepend, first]
      | true =>
        cases second : m.data with
        | true => simp [Line.join, prepend, first, second]
        | false => simp [Line.join, prepend, first, second]
    | l :: next :: lines, more =>
      rw [Line.join_cons_cons]
      simp only [prepend]
      split
      · rw [Line.join_cons_cons]
      · rw [Line.join_cons_cons, Line.join_cons_cons]

theorem foldr_prepend_append (steps more : List Step) :
    (steps ++ more).foldr prepend [] = Line.join (steps.foldr prepend []) (more.foldr prepend []) := by
  induction steps with
  | nil => rfl
  | cons s steps ih =>
    rw [List.cons_append, List.foldr_cons, ih, prepend_join s _ (plain_lines more)]
    rfl

end Step

/-- Listing is compositional. An image of even length none of whose readings runs past its end,
    which is when no truncation is reported, is listed as it is whatever follows it, and what
    follows is listed from its own place on; only data that meets data becomes one line. -/
theorem Decoder.listing_append (d : Decoder) (image more : List Byte) (origin : Address)
    (even : Even image.length) :
    (Level.passes d.threshold .warning = true →
      (d.Complete origin image (d.steps image origin) ↔
        ∀ form place, Event.truncated form place ∉ (d.listing image origin).events)) ∧
    (d.Complete origin image (d.steps image origin) →
      let first := d.listing image origin
      let second := d.listing more (origin.advance image.length)
      (d.listing (image ++ more) origin).lines = Line.join first.lines second.lines ∧
        (d.listing (image ++ more) origin).events = first.events ++ second.events) := by
  have swept := d.swept image origin
  refine ⟨swept.complete_iff, ?_⟩
  intro complete first second
  have steps := swept.steps_append even complete more
  refine ⟨?_, ?_⟩
  · simp only [listing, steps, first, second]
    exact Step.foldr_prepend_append _ _
  · simp only [listing, steps, first, second, List.flatMap_append]

/-- Two images meet in data across the end of the address space: the word before and the word
    behind make one line. -/
theorem Decoder.listing_append_meeting :
    let d : Decoder := { threshold := some .warning }
    let first := d.listing [0x4E, 0x71, 0xFF, 0xFF] 0xFFFFFFFC
    let second := d.listing [0xFF, 0xFE, 0x4E, 0x75] 0
    first.events = [.unmatched 0xFFFF 0xFFFFFFFE] ∧
      (d.listing [0x4E, 0x71, 0xFF, 0xFF, 0xFF, 0xFE, 0x4E, 0x75] 0xFFFFFFFC).lines =
        Line.join first.lines second.lines ∧
      (Line.join first.lines second.lines).map (·.bytes) =
        [[0x4E, 0x71], [0xFF, 0xFF, 0xFF, 0xFE], [0x4E, 0x75]] := by
  intro d first second
  have events : first.events = [.unmatched 0xFFFF 0xFFFFFFFE] := by decide +kernel
  have bytes : (Line.join first.lines second.lines).map (·.bytes) =
      [[0x4E, 0x71], [0xFF, 0xFF, 0xFF, 0xFE], [0x4E, 0x75]] := by decide +kernel
  obtain ⟨reported, joined⟩ := listing_append d [0x4E, 0x71, 0xFF, 0xFF] [0xFF, 0xFE, 0x4E, 0x75] 0xFFFFFFFC
    (by decide)
  have complete := (reported rfl).mpr (by
    intro form place
    rw [show (d.listing [0x4E, 0x71, 0xFF, 0xFF] 0xFFFFFFFC).events = _ from events]
    simp)
  exact ⟨events, (joined complete).1, bytes⟩

end M68k
