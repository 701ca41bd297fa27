import Mathlib
import M68k.Proofs.Locality
import M68k.Proofs.Partition

/-!
What a sweep takes for code. Each step of a sweep is a whole reading that a form accepts, a
single word that none accepts, the first word of a reading that the end of the image cuts off,
or an odd last byte (`Swept`). So every instruction line can be read from its own bytes alone,
and nothing can be read at the words of a data line.
-/
namespace M68k

namespace Decoder

variable (d : Decoder)

/-- A whole reading takes all its bytes. -/
theorem size_of_whole {front : List Byte} (whole : Whole d.style front) (a : Address) :
    (d.decode (Cursor.start front a)).instruction.size.toNat = front.length := by
  rw [d.decode_size]
  simp only [Cursor.start]
  unfold Whole at whole
  omega

/-- A word that no form accepts is a whole reading by itself. -/
theorem length_of_unmatched {front : List Byte} (whole : Whole d.style front) {a : Address}
    (unmatched : (d.decode (Cursor.start front a)).instruction.valid = false) : front.length = 2 := by
  rw [d.decode_valid] at unmatched
  have none : Form.select? d.style (leadingWord front) = none :=
    Option.isNone_iff_eq_none.mp (Option.isSome_eq_false_iff.mp unmatched)
  simpa [Whole, Form.needed, none] using whole

/-! ## The steps one by one -/

theorem steps_code {front : List Byte} {a : Address} (whole : Whole d.style front)
    (valid : (d.decode (Cursor.start front a)).instruction.valid = true) (back : List Byte) :
    d.steps (front ++ back) a =
      .instruction (d.decode (Cursor.start front a)).instruction front
        (d.decode (Cursor.start front a)).events :: d.steps back (a.advance front.length) := by
  have size := d.size_of_whole whole a
  have result := d.decode_whole whole back a
  match front, whole.two_le with
  | high :: low :: rest, _ =>
    have extension : (d.decode (Cursor.start (high :: low :: rest) a)).instruction.size.toNat - 2 =
        rest.length := by
      rw [size]
      rfl
    rw [List.cons_append, List.cons_append] at result ⊢
    rw [steps, result]
    simp only [valid, Bool.not_false, Bool.and_true, if_true]
    rw [extension, List.take_left, List.drop_left, List.length_cons, List.length_cons, Nat.add_comm 2]

theorem steps_unmatched {front : List Byte} {a : Address} (whole : Whole d.style front)
    (unmatched : (d.decode (Cursor.start front a)).instruction.valid = false) (back : List Byte) :
    d.steps (front ++ back) a =
      .data a front (d.decode (Cursor.start front a)).events :: d.steps back (a.advance front.length) := by
  have result := d.decode_whole whole back a
  match front, d.length_of_unmatched whole unmatched with
  | [high, low], _ =>
    rw [List.cons_append, List.cons_append, List.nil_append] at result ⊢
    rw [steps, result]
    simp [unmatched, Address.add_two]

theorem steps_cut {high low : Byte} {rest : List Byte} {a : Address}
    (cut : (d.decode (Cursor.start (high :: low :: rest) a)).cursor.overflow = true) :
    d.steps (high :: low :: rest) a =
      .data a [high, low] ((d.decode (Cursor.start (high :: low :: rest) a)).events ++
        d.report [.truncated (d.decode (Cursor.start (high :: low :: rest) a)).instruction.form a]) ::
          d.steps rest (a + 2) := by
  rw [steps]
  simp [cut]

/-- How the steps through an image come about: at each place the sweep reads an instruction or
    takes a word, and goes on behind it. -/
inductive Swept (d : Decoder) : Address → List Byte → List Step → Prop
  | nil (a : Address) : Swept d a [] []
  | odd (a : Address) (b : Byte) : Swept d a [b] [.data a [b] []]
  | code {a : Address} {front back : List Byte} {steps : List Step} (whole : Whole d.style front)
      (valid : (d.decode (Cursor.start front a)).instruction.valid = true)
      (tail : Swept d (a.advance front.length) back steps) :
      Swept d a (front ++ back) (.instruction (d.decode (Cursor.start front a)).instruction front
        (d.decode (Cursor.start front a)).events :: steps)
  | unmatched {a : Address} {front back : List Byte} {steps : List Step} (whole : Whole d.style front)
      (refused : (d.decode (Cursor.start front a)).instruction.valid = false)
      (tail : Swept d (a.advance front.length) back steps) :
      Swept d a (front ++ back) (.data a front (d.decode (Cursor.start front a)).events :: steps)
  | cut {a : Address} {high low : Byte} {rest : List Byte} {steps : List Step}
      (short : (d.decode (Cursor.start (high :: low :: rest) a)).cursor.overflow = true)
      (tail : Swept d (a + 2) rest steps) :
      Swept d a (high :: low :: rest) (.data a [high, low]
        ((d.decode (Cursor.start (high :: low :: rest) a)).events ++
          d.report [.truncated (d.decode (Cursor.start (high :: low :: rest) a)).instruction.form a]) ::
            steps)

theorem swept (image : List Byte) (a : Address) : Swept d a image (d.steps image a) := by
  match image with
  | [] =>
    rw [steps]
    exact .nil a
  | [b] =>
    rw [steps]
    exact .odd a b
  | high :: low :: rest =>
    cases mark : (d.decode (Cursor.start (high :: low :: rest) a)).cursor.overflow with
    | true =>
      rw [d.steps_cut mark]
      exact .cut mark (swept rest _)
    | false =>
      obtain ⟨front, back, split, whole⟩ := d.exists_whole mark
      have two := whole.two_le
      have length : rest.length + 2 = front.length + back.length := by
        rw [← List.length_append, ← split, List.length_cons, List.length_cons]
      rw [split]
      cases valid : (d.decode (Cursor.start front a)).instruction.valid with
      | true =>
        rw [d.steps_code whole valid]
        exact .code whole valid (swept back _)
      | false =>
        rw [d.steps_unmatched whole valid]
        exact .unmatched whole valid (swept back _)
termination_by image.length
decreasing_by all_goals simp only [List.length_cons]; omega

end Decoder

/-! ## Lines of code -/

/-- Data in front of lines adds no line of code. -/
theorem Step.mem_of_prepend_data {a : Address} {bytes : List Byte} {events : List Event} {lines : List Line}
    {l : Line} (member : l ∈ (Step.data a bytes events).prepend lines) (code : l.data = false) : l ∈ lines := by
  cases lines with
  | nil =>
    obtain rfl := List.mem_singleton.mp member
    cases code
  | cons line lines =>
    simp only [prepend] at member
    split at member
    · rename_i joined
      -- The line that data joins was data before.
      rcases List.mem_cons.mp member with rfl | behind
      · rw [joined] at code
        cases code
      · exact List.mem_cons_of_mem line behind
    · rcases List.mem_cons.mp member with rfl | behind
      · cases code
      · exact behind

namespace Decoder

variable {d : Decoder} {a : Address} {image : List Byte} {steps : List Step}

/-- A line of code holds a whole reading, made at its own address. -/
theorem Swept.whole_of_code (swept : d.Swept a image steps) :
    ∀ l ∈ steps.foldr Step.prepend [], l.data = false →
      Whole d.style l.bytes ∧ l.instruction = (d.decode (Cursor.start l.bytes l.address)).instruction := by
  induction swept with
  | nil => simp
  | odd a b =>
    intro l member code
    exact absurd (Step.mem_of_prepend_data member code) List.not_mem_nil
  | @code a front back steps whole valid tail ih =>
    refine List.forall_mem_cons.mpr ⟨?_, ih⟩
    intro _
    rw [d.decode_address]
    exact ⟨whole, rfl⟩
  | unmatched whole refused tail ih =>
    intro l member code
    exact ih l (Step.mem_of_prepend_data member code) code
  | cut short tail ih =>
    intro l member code
    exact ih l (Step.mem_of_prepend_data member code) code

end Decoder

/-! ## Words of data -/

/-- For each byte of some lines, whether it is data. -/
def Line.kinds (lines : List Line) : List Bool :=
  lines.flatMap fun l => List.replicate l.bytes.length l.data

/-- Joining data to data moves no byte from one kind to the other. -/
theorem Line.kinds_data (a : Address) (bytes : List Byte) (events : List Event) (lines : List Line) :
    kinds ((Step.data a bytes events).prepend lines) = List.replicate bytes.length true ++ kinds lines := by
  cases lines with
  | nil => rfl
  | cons line lines =>
    simp only [Step.prepend]
    split
    · rename_i joined
      simp only [kinds, List.flatMap_cons, joined, List.length_append, List.replicate_add, List.append_assoc]
    · rfl

theorem Line.kinds_at {lines : List Line} {i p : Nat} (inside : i < lines.length)
    (low : Tiling.bytesBefore lines i ≤ p)
    (high : p < Tiling.bytesBefore lines i + lines[i].bytes.length) :
    (kinds lines)[p]? = some lines[i].data := by
  induction lines generalizing i p with
  | nil => simp at inside
  | cons l lines ih =>
    cases i with
    | zero =>
      simp only [Tiling.bytesBefore_zero, Nat.zero_add, List.getElem_cons_zero] at high ⊢
      rw [kinds, List.flatMap_cons, List.getElem?_append_left (by simpa using high)]
      simp [high]
    | succ i =>
      simp only [Tiling.bytesBefore_cons, List.getElem_cons_succ] at low high ⊢
      have behind : l.bytes.length ≤ p := by omega
      rw [kinds, List.flatMap_cons, List.getElem?_append_right (by simpa using behind), List.length_replicate]
      exact ih (Nat.lt_of_succ_lt_succ inside) (by omega) (by omega)

namespace Decoder

/-- At a place of an image no complete instruction can be read. -/
def Refuses (d : Decoder) (image : List Byte) (a : Address) (p : Nat) : Prop :=
  let result := d.decode (Cursor.start (image.drop p) (a.advance p))
  result.instruction.valid = false ∨ result.cursor.overflow = true

variable {d : Decoder} {a : Address} {image : List Byte} {steps : List Step}

/-- One step decides about the places in it: a step of data is a word at which nothing can be
    read, and the places behind it are left to the steps behind it. -/
theorem refuses_step (front : List Byte) {back : List Byte} {kinds : List Bool} (data : Bool) {p : Nat}
    (even : Even p) (room : p + 2 ≤ (front ++ back).length) (parity : Even front.length)
    (first : data = true → front.length = 2 ∧ d.Refuses (front ++ back) a 0)
    (later : ∀ q, Even q → q + 2 ≤ back.length → kinds[q]? = some true →
      d.Refuses back (a.advance front.length) q)
    (marked : (List.replicate front.length data ++ kinds)[p]? = some true) :
    d.Refuses (front ++ back) a p := by
  by_cases inside : p < front.length
  · rw [List.getElem?_append_left (by simpa using inside)] at marked
    obtain ⟨two, refuses⟩ := first (by simpa [inside] using marked)
    -- The only even place in a single word is its own.
    obtain rfl : p = 0 := by
      obtain ⟨half, rfl⟩ := even
      omega
    exact refuses
  · have after : front.length ≤ p := Nat.le_of_not_lt inside
    have rest : (front ++ back).drop p = back.drop (p - front.length) := by
      rw [List.drop_append, List.drop_eq_nil_of_le after, List.nil_append]
    rw [List.length_append] at room
    rw [List.getElem?_append_right (by simpa using inside), List.length_replicate] at marked
    have refuses := later (p - front.length) ((Nat.even_sub after).mpr (by simp [even, parity])) (by omega) marked
    unfold Refuses at refuses ⊢
    rwa [Address.advance_advance, Nat.add_sub_cancel' after, ← rest] at refuses

/-- Wherever a word is data, it cannot be read as code. -/
theorem Swept.refuses (swept : d.Swept a image steps) : ∀ p, Even p → p + 2 ≤ image.length →
    (Line.kinds (steps.foldr Step.prepend []))[p]? = some true → d.Refuses image a p := by
  induction swept with
  | nil => simp
  | odd => simp
  | @code a front back steps whole valid tail ih =>
    intro p even room marked
    exact refuses_step front false even room whole.even nofun ih marked
  | @unmatched a front back steps whole refused tail ih =>
    intro p even room marked
    rw [List.foldr_cons, Line.kinds_data] at marked
    have two := d.length_of_unmatched whole refused
    refine refuses_step front true even room whole.even ?_ ih marked
    intro _
    refine ⟨two, .inl ?_⟩
    rw [List.drop_zero, Address.advance_zero, d.decode_whole whole]
    exact refused
  | @cut a high low rest steps short tail ih =>
    intro p even room marked
    rw [List.foldr_cons, Line.kinds_data] at marked
    refine refuses_step [high, low] true even room even_two ?_ ih marked
    intro _
    refine ⟨rfl, .inr ?_⟩
    rw [List.drop_zero, Address.advance_zero]
    exact short

/-- A listing is sound and complete about code. Read alone, the bytes of an instruction line
    give its instruction, and all of them are used. At no even place of a data line is there an
    instruction that the rest of the image completes. -/
theorem listing_sound_complete (d : Decoder) (image : List Byte) (origin : Address) :
    let lines := (d.listing image origin).lines
    (∀ l ∈ lines, l.data = false →
      let result := d.decode (Cursor.start l.bytes l.address)
      result.instruction = l.instruction ∧ result.cursor.position = l.bytes.length ∧
        result.cursor.rest = [] ∧ result.cursor.overflow = false) ∧
    ∀ i (inside : i < lines.length), lines[i].data = true →
      ∀ p, Even p → Tiling.bytesBefore lines i ≤ p →
        p < Tiling.bytesBefore lines i + lines[i].bytes.length → p + 2 ≤ image.length →
          let result := d.decode (Cursor.start (image.drop p) (origin.advance p))
          result.instruction.valid = false ∨ result.cursor.overflow = true := by
  intro lines
  have swept := d.swept image origin
  refine ⟨?_, ?_⟩
  · intro l member code result
    obtain ⟨whole, read⟩ := swept.whole_of_code l member code
    have alone := d.decode_whole whole [] l.address
    rw [List.append_nil] at alone
    refine ⟨read.symm, ?_⟩
    simp only [result]
    rw [alone]
    exact ⟨rfl, rfl, rfl⟩
  · intro i inside data p even low high room
    have marked := Line.kinds_at inside low high
    rw [data] at marked
    exact swept.refuses p even room marked

/-- The end of the image cuts a move short, whose first word becomes data; its second word is
    read again, as a return, and an odd byte is left over. -/
theorem listing_sound_complete_cut :
    let image : List Byte := [0x4E, 0x71, 0x23, 0xFC, 0x4E, 0x75, 0x4E]
    let lines := (({} : Decoder).listing image 0xFFFFFFFE).lines
    ∃ (second : 1 < lines.length) (third : 2 < lines.length),
      lines[1].data = true ∧ lines[2].data = false ∧
        (({} : Decoder).decode (Cursor.start lines[2].bytes lines[2].address)).instruction =
          lines[2].instruction ∧
        let result := ({} : Decoder).decode (Cursor.start (image.drop 2) ((0xFFFFFFFE : Address).advance 2))
        result.instruction.valid = false ∨ result.cursor.overflow = true := by
  intro image lines
  have second : 1 < lines.length := by decide +kernel
  have third : 2 < lines.length := by decide +kernel
  have data : lines[1].data = true := by
    revert second
    decide +kernel
  have code : lines[2].data = false := by
    revert third
    decide +kernel
  have before : Tiling.bytesBefore lines 1 = 2 := by decide +kernel
  have length : lines[1].bytes.length = 2 := by
    revert second
    decide +kernel
  have inside : 2 < Tiling.bytesBefore lines 1 + lines[1].bytes.length := by omega
  obtain ⟨sound, complete⟩ := listing_sound_complete {} image 0xFFFFFFFE
  refine ⟨second, third, data, code, (sound _ (List.getElem_mem third) code).1, ?_⟩
  exact complete 1 second data 2 even_two (Nat.le_of_eq before) inside (by decide)

end Decoder
end M68k
