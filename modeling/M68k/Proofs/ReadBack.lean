import Mathlib
import M68k.Proofs.Columns
import M68k.Proofs.Partition

/-!
The image can be read back from the text of its listing, with names or without. Each row
shows some bytes, data segments and instruction lines show their own, and so the rows of
all lines show the image.
-/
namespace M68k

namespace ReadBack

open Text

/-- Rows that show bytes one after the other. -/
inductive Shown : List Row → List Byte → Prop
  | nil : Shown [] []
  | cons {row : Row} {rows : List Row} {bytes rest : List Byte} (here : Shows row bytes)
      (behind : Shown rows rest) : Shown (row :: rows) (bytes ++ rest)

namespace Shown

theorem single {row : Row} {bytes : List Byte} (here : Shows row bytes) : Shown [row] bytes := by
  simpa using cons here nil

theorem append {rows more : List Row} {bytes rest : List Byte} (first : Shown rows bytes)
    (second : Shown more rest) : Shown (rows ++ more) (bytes ++ rest) := by
  induction first with
  | nil => exact second
  | cons here _ ih =>
    rw [List.append_assoc]
    exact cons here ih

/-- The text of rows falls into as many rows, from which their bytes are read. -/
theorem read {rows : List Row} {bytes : List Byte} (shown : Shown rows bytes) :
    let text := String.join (rows.map Row.text)
    image text = bytes ∧ text.toList = (rowsOf text).flatMap (· ++ ['\n']) ∧
      ∀ row ∈ rowsOf text, Laid row := by
  induction shown with
  | nil => simp [image]
  | cons here _ ih =>
    obtain ⟨line, ends, inside, laid, shows⟩ := here
    obtain ⟨bytes, text, rows⟩ := ih
    simp only [List.map_cons, String.join_cons, image, rowsOf_append ends inside,
      List.flatMap_cons, List.forall_mem_cons, String.toList_append, ends, shows]
    refine ⟨?_, ?_, laid, rows⟩
    · rw [← image, bytes]
    · rw [← text]

end Shown

/-! ## Data -/

theorem shown_valueRows (address : Address) (bytes : List Byte) :
    Shown (Data.valueRows address bytes) bytes := by
  fun_induction Data.valueRows address bytes with
  | case1 => exact .nil
  | case2 address bytes some chunk ih =>
    have plain : Lacks '\n' (",".intercalate (chunk.map fun b => "$" ++ hex .upper 2 b.toNat)) := by
      refine lacks_intercalate (by decide) ?_
      simp +decide [lacks_hex, hexValue?_newline]
    have here : Shows (Data.directive address (rawWords chunk) _) chunk :=
      shows_words (by simpa [chunk] using some) (by simp [chunk]) address (by decide) plain
    have all := Shown.cons here ih
    rwa [List.take_append_drop] at all

theorem shown_string {run : List Byte} (printable : ∀ b ∈ run, Data.isPrintable b)
    (terminated : Bool) (number : Nat) (address : Address) :
    Shown ((Data.Segment.string run terminated).rows number address)
      (run ++ if terminated then [0] else []) := by
  have name : Shows (.name ("string" ++ Nat.repr number)) [] := shows_name (.inl ⟨number, rfl⟩)
  have all := Shown.cons name (.single (shows_string printable terminated address))
  exact all

theorem isPrintable_run {b : Byte} (first : Data.isPrintable b = true) (rest : List Byte) :
    ∀ c ∈ b :: rest.takeWhile Data.isPrintable, Data.isPrintable c = true := by
  intro c member
  rcases List.mem_cons.mp member with rfl | inside
  · exact first
  · exact List.mem_takeWhile_imp inside

/-- The segments of data show the data. Each case puts a segment in front of what is behind
    the run that it holds. -/
theorem shown_data (data : List Byte) (address : Address) (number : Nat) :
    Shown (Data.rows number (Data.segments data address)) data := by
  fun_induction Data.segments data address generalizing number with
  | case1 => exact .nil
  | case2 address b rest first run after next terminated ih =>
    -- The zero behind the run is shown with the string.
    have zero : after = 0 :: after.tail := List.eq_cons_of_mem_head? terminated.2
    have all := (shown_string (isPrintable_run first rest) true number address).append (ih (number + 1))
    have whole : run ++ [0] ++ after.tail = b :: rest := by
      rw [List.append_assoc, List.singleton_append, ← zero]
      simp [run, after]
    rwa [if_pos rfl, whole] at all
  | case3 address b rest first run after next terminated tag ih =>
    have all := (shown_string (isPrintable_run first rest) false number address).append (ih (number + 1))
    have whole : run ++ [] ++ after = b :: rest := by
      simp [run, after]
    rwa [if_neg Bool.false_ne_true, whole] at all
  | case4 address b rest first run after next terminated tag ih =>
    have all := (shown_valueRows address run).append (ih number)
    have whole : run ++ after = b :: rest := by
      simp [run, after]
    rwa [whole] at all
  | case5 address b rest first run ih =>
    have all := (shown_valueRows address run).append (ih number)
    have whole : run ++ rest.dropWhile (!Data.isPrintable ·) = b :: rest := by
      simp [run]
    rwa [whole] at all

/-! ## Lines -/

theorem toList_of_find? {text : String} {span : ShownAddress}
    (found : ShownAddress.find? text = some span) :
    text.toList = span.before ++ '$' :: (span.digits ++ span.after) := by
  simp only [ShownAddress.find?, Option.ite_none_left_eq_some, not_or, Option.some.injEq] at found
  obtain ⟨⟨digits, _⟩, rfl⟩ := found
  have cut := List.takeWhile_append_dropWhile (p := (· != '$')) (l := text.toList)
  cases rest : text.toList.dropWhile (· != '$') with
  -- Without a dollar sign there would be no digits.
  | nil => simp [rest] at digits
  | cons dollar tail =>
    have sign := List.head_dropWhile_not (· != '$') (l := text.toList) (by simp [rest])
    simp only [rest, List.head_cons, bne_eq_false_iff_eq] at sign
    rw [rest, sign] at cut
    simpa using cut.symm

theorem lacks_nameShownAddress {text name : String} (plain : Lacks '\n' text)
    (inside : Lacks '\n' name) : Lacks '\n' (nameShownAddress text name) := by
  unfold nameShownAddress
  split
  · rename_i span found
    simp only [Lacks, toList_of_find? found, List.mem_append, List.mem_cons, not_or] at plain
    obtain ⟨before, _, _, after⟩ := plain
    simp only [ShownAddress.replace, lacks_append]
    simp only [Lacks, String.toList_ofList]
    exact ⟨⟨before, inside⟩, after⟩
  · exact plain

/-- An instruction line that can be printed: its texts fit into their columns, its bytes
    into those of the raw words, and it is named as lines are. -/
structure Printable (l : Line) : Prop where
  valid : l.instruction.valid = true
  mnemonic : Fits 8 l.instruction.mnemonic
  operands : Lacks '\n' l.instruction.operands
  some : l.bytes ≠ []
  few : l.bytes.length ≤ 10
  label : ∀ name ∈ l.label, IsName (name ++ ":").toList
  target : ∀ name ∈ l.target, Lacks '\n' name

theorem shown_line {l : Line} (printable : Printable l) : Shown l.rows l.bytes := by
  have columns : Shows (.columns l.address (rawWords l.bytes) l.text) l.bytes := by
    unfold Line.text Instruction.text
    cases named : l.target with
    | none =>
      simp only [printable.valid, if_true]
      exact shows_words printable.some printable.few _ printable.mnemonic printable.operands
    | some name =>
      simp only [printable.valid, if_true]
      exact shows_words printable.some printable.few _ printable.mnemonic
        (lacks_nameShownAddress printable.operands (printable.target name named))
  unfold Line.rows
  cases named : l.label with
  | none => exact .single columns
  | some name => exact .cons (shows_name (printable.label name named)) (.single columns)

/-- The rows of lines show the bytes of the lines. -/
theorem shown_lines {lines : List Line} (printable : ∀ l ∈ lines, l.data = false → Printable l)
    (number : Nat) : Shown (Printout.rows number lines) (lines.flatMap (·.bytes)) := by
  induction lines generalizing number with
  | nil => exact .nil
  | cons l lines ih =>
    obtain ⟨here, behind⟩ := List.forall_mem_cons.mp printable
    rw [List.flatMap_cons, Printout.rows]
    split
    · exact (shown_data l.bytes l.address number).append (ih behind _)
    · rename_i code
      exact (shown_line (here (Bool.eq_false_of_not_eq_true code))).append (ih behind number)

end ReadBack

/-! ## Listings -/

/-- A line as reading leaves it: without names, and with an instruction that was read. -/
structure Decoder.Fresh (d : Decoder) (l : Line) : Prop where
  label : l.label = none
  target : l.target = none
  instruction : l.data = false → ∃ c, l.instruction = (d.decode c).instruction

namespace Decoder

open ReadBack

variable (d : Decoder)

theorem fresh_prepend_data {lines : List Line} (address : Address) (bytes : List Byte)
    (events : List Event) (fresh : ∀ l ∈ lines, d.Fresh l) :
    ∀ l ∈ (Step.data address bytes events).prepend lines, d.Fresh l := by
  have alone : d.Fresh { address, bytes, data := true } := ⟨rfl, rfl, nofun⟩
  cases lines with
  | nil => simpa [Step.prepend] using alone
  | cons line lines =>
    obtain ⟨first, behind⟩ := List.forall_mem_cons.mp fresh
    simp only [Step.prepend]
    split
    · exact List.forall_mem_cons.mpr ⟨⟨first.label, first.target, first.instruction⟩, behind⟩
    · exact List.forall_mem_cons.mpr ⟨alone, fresh⟩

theorem fresh_steps (image : List Byte) (a : Address) :
    ∀ l ∈ (d.steps image a).foldr Step.prepend [], d.Fresh l := by
  fun_induction Decoder.steps d image a with
  | case1 => simp
  | case2 a b => exact d.fresh_prepend_data a [b] [] (by simp)
  | case3 a high low rest result complete extension ih =>
    exact List.forall_mem_cons.mpr ⟨⟨rfl, rfl, fun _ => ⟨_, rfl⟩⟩, ih⟩
  | case4 a high low rest result complete truncation ih =>
    exact d.fresh_prepend_data a [high, low] _ ih

theorem printable_listing (image : List Byte) (origin : Address) :
    ∀ l ∈ (d.listing image origin).lines, l.data = false → Printable l := by
  intro l member code
  have tiled := d.tiling_steps image origin
  obtain ⟨valid, _, _, size⟩ := tiled.instruction_of_code l member code
  obtain ⟨unnamed, untargeted, read⟩ := d.fresh_steps image origin l member
  obtain ⟨c, read⟩ := read code
  have fits := d.decode_fits c
  have short := d.decode_size c
  have bound := Form.needed_le d.style (leadingWord c.rest)
  rw [← read] at fits short
  exact {
    valid
    mnemonic := fits.1
    operands := fits.2
    some := tiled.bytes_ne_nil l member
    few := by omega
    label := by simp [unnamed]
    target := by simp [untargeted] }

end Decoder

/-! ## Names -/

namespace Labelling

/-- A name that labelling takes from its table, or that was there before. -/
theorem named_or {name? : Option Arrival} {target : Address} {old : Option String} {name : String}
    (named : name ∈ (name?.map (nameOf target)).or old) :
    name ∈ old ∨ ∃ target arrival, name = nameOf target arrival := by
  cases name? with
  | none => exact .inl named
  | some arrival => exact .inr ⟨target, arrival, (Option.some.inj named).symm⟩

/-- Labelling changes the names of lines only, and only to names of places. -/
theorem mem_label {lines : List Line} {entry : Address} {l : Line} (member : l ∈ label lines entry) :
    ∃ line ∈ lines, l = { line with label := l.label, target := l.target } ∧
      (∀ name ∈ l.label, name ∈ line.label ∨ ∃ target arrival, name = nameOf target arrival) ∧
      ∀ name ∈ l.target, name ∈ line.target ∨ ∃ target arrival, name = nameOf target arrival := by
  obtain ⟨⟨line, position⟩, listed, rfl⟩ := List.mem_map.mp member
  refine ⟨line, List.fst_mem_of_mem_zipIdx listed, ?_⟩
  dsimp only
  split
  · refine ⟨rfl, fun name named => named_or named, fun name named => ?_⟩
    dsimp only at named
    split at named
    -- Only a target that has a line is looked up in the table of names.
    · cases known : (Index.ofLines lines).target? line.instruction with
      | none =>
        rw [known] at named
        exact .inl named
      | some target =>
        rw [known] at named
        exact named_or named
    · exact .inl named
  · exact ⟨rfl, fun name named => .inl named, fun name named => .inl named⟩

theorem bytes_label (lines : List Line) (entry : Address) :
    (label lines entry).flatMap (·.bytes) = lines.flatMap (·.bytes) := by
  have each : (label lines entry).map (·.bytes) = lines.map (·.bytes) := by
    conv_rhs => rw [← List.zipIdx_map_fst 0 lines]
    simp only [label, List.map_map]
    refine List.map_congr_left fun ⟨line, position⟩ _ => ?_
    simp only [Function.comp_apply]
    split <;> rfl
  rw [List.flatMap_def, List.flatMap_def, each]

end Labelling

namespace ReadBack

theorem printable_label {lines : List Line} (entry : Address)
    (printable : ∀ l ∈ lines, l.data = false → Printable l) :
    ∀ l ∈ Labelling.label lines entry, l.data = false → Printable l := by
  intro l member code
  obtain ⟨line, listed, same, labels, targets⟩ := Labelling.mem_label member
  have before : Printable line := printable line listed (by rw [same] at code; exact code)
  rw [same]
  refine { before with label := fun name named => ?_, target := fun name named => ?_ }
  · rcases labels name named with old | ⟨target, arrival, rfl⟩
    · exact before.label name old
    · exact .inr ⟨target, arrival, rfl⟩
  · rcases targets name named with old | ⟨target, arrival, rfl⟩
    · exact before.target name old
    · exact lacks_nameOf target arrival

end ReadBack

namespace Decoder

open ReadBack

/-- The lines of a listing, with names for the places that control reaches from an entry,
    if there is one. -/
def linesFrom (d : Decoder) (image : List Byte) (origin : Address) : Option Address → List Line
  | none => (d.listing image origin).lines
  | some entry => Labelling.label (d.listing image origin).lines entry

theorem shown_linesFrom (d : Decoder) (image : List Byte) (origin : Address) (entry : Option Address) :
    Shown (Printout.rows 1 (d.linesFrom image origin entry)) image := by
  have printable := d.printable_listing image origin
  have bytes : (d.listing image origin).lines.flatMap (·.bytes) = image :=
    (d.tiling_steps image origin).flatMap_bytes
  cases entry with
  | none =>
    have shown := shown_lines printable 1
    rwa [bytes] at shown
  | some entry =>
    have shown := shown_lines (printable_label entry printable) 1
    rwa [Labelling.bytes_label, bytes] at shown

/-- The image can be read back from the text of its listing, with names or without: the text
    consists of rows that are names or have fixed columns, only quoted strings leave the
    columns of the raw words blank, and different images have different texts. -/
theorem image_read_back (d : Decoder) (origin : Address) :
    (∀ (image : List Byte) (entry : Option Address),
      let text := Printout.text (d.linesFrom image origin entry)
      ReadBack.image text = image ∧ text.toList = (rowsOf text).flatMap (· ++ ['\n']) ∧
        ∀ row ∈ rowsOf text, Laid row) ∧
      ∀ labels : Bool, Function.Injective fun image => (d.printout image origin labels).1 := by
  have read := fun image entry => (d.shown_linesFrom image origin entry).read
  refine ⟨read, fun labels => ?_⟩
  have inverse : ∀ image, ReadBack.image (d.printout image origin labels).1 = image := by
    intro image
    cases labels with
    | false => exact (read image none).1
    | true => exact (read image (some origin)).1
  exact Function.LeftInverse.injective inverse

/-- A loop with a name, and behind it a string that holds quotes and ends with a zero. -/
theorem image_read_back_quotes :
    let image : List Byte := [0x60, 0xFE, 0x71, 0x27, 0x71, 0x27, 0x00]
    let text := Printout.text (({} : Decoder).linesFrom image 0 (some 0))
    let row := "00000002                            DC.B     'q''q''',$00".toList
    ReadBack.image text = image ∧ row ∈ rowsOf text ∧ Laid row ∧
      (({} : Decoder).printout image 0 true).1 ≠ (({} : Decoder).printout [0x60, 0xFE] 0 true).1 := by
  intro image text row
  obtain ⟨read, injective⟩ := image_read_back {} 0
  obtain ⟨same, _, laid⟩ := read image (some 0)
  have member : row ∈ rowsOf text := by decide +kernel
  exact ⟨same, member, laid row member, (injective true).ne (by decide)⟩

end Decoder
end M68k
