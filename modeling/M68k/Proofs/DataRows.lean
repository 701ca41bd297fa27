import Mathlib
import M68k.Proofs.Renaming
import M68k.Proofs.Segments

/-!
The rows of data and the numbers of its strings. Data is written part by part, and every string has
a name above it (`headings`); the names are numbered in the order of the strings, through a whole
listing.
-/
namespace M68k.Data

open Text (hex padRight)

/-! ## Texts of rows -/

/-- Bytes as words with a blank between them, where an odd last byte stands alone. -/
def spacedWords (bytes : List Byte) : String :=
  " ".intercalate ((List.range ((bytes.length + 1) / 2)).map fun k =>
    String.join (((bytes.drop (2 * k)).take 2).map fun b => hex .upper 2 b.toNat))

/-- A row with a directive: the address, a column of 24 characters for raw words, the operands. -/
def directiveText (a : Address) (raw operands : String) : String :=
  hex .lower 8 a.toNat ++ "  " ++ padRight 24 raw ++ "  DC.B     " ++ operands ++ "\n"

/-- A row of bytes as numbers. -/
def byteText (a : Address) (bytes : List Byte) : String :=
  directiveText a (spacedWords bytes) (",".intercalate (bytes.map fun b => "$" ++ hex .upper 2 b.toNat))

/-- Characters in quotes, where a quote is doubled. -/
def quotation (characters : List Byte) : String :=
  String.ofList (ReadBack.quote :: (characters.flatMap ReadBack.spelled ++ [ReadBack.quote]))

namespace Part

/-- Whether a part is a string. -/
def isString (p : Part) : Bool :=
  match p.segment with
  | .values _ => false
  | .string .. => true

/-- The rows of a part. Numbers stand eight in a row, each row at the address of its first byte. A
    string has its number in a row of its own. -/
def texts (b : Address) (number : Nat) (p : Part) : List String :=
  match p.segment with
  | .values bytes =>
    (List.range ((bytes.length + 7) / 8)).map fun j =>
      byteText (b.advance (p.start + 8 * j)) ((bytes.drop (8 * j)).take 8)
  | .string characters terminated =>
    ["string" ++ Nat.repr number ++ ":\n",
      directiveText (b.advance p.start) "" (quotation characters ++ if terminated then ",$00" else "")]

/-- The rows of parts, with strings numbered from `number` on. -/
def allTexts (b : Address) (number : Nat) : List Part → List String
  | [] => []
  | p :: parts => p.texts b number ++ allTexts b (if p.isString then number + 1 else number) parts

end Part

theorem rawWords_eq (bytes : List Byte) : rawWords bytes = spacedWords bytes := by
  refine congrArg (" ".intercalate ·) ?_
  fun_induction rawWords.groups bytes with
  | case1 => rfl
  | case2 b => simp [List.range_one]
  | case3 high low rest ih =>
    have count : ((high :: low :: rest).length + 1) / 2 = (rest.length + 1) / 2 + 1 := by
      simp only [List.length_cons]
      omega
    rw [count, List.range_succ_eq_map, List.map_cons, List.map_map, ih]
    refine congrArg₂ (· :: ·) ?_ (List.map_congr_left ?_)
    · simp
    · intro k _
      simp only [Function.comp_apply, Nat.mul_succ, List.drop_succ_cons]

theorem text_directive (a : Address) (raw operands : String) :
    (directive a raw operands).text = directiveText a raw operands := by
  have column : "  " ++ (padRight 8 "DC.B" ++ " ") = "  DC.B     " := by decide
  simp only [directive, Row.text, directiveText, ← column, String.append_assoc]

theorem texts_valueRows (a : Address) (bytes : List Byte) :
    (valueRows a bytes).map Row.text = (List.range ((bytes.length + 7) / 8)).map fun j =>
      byteText (a.advance (8 * j)) ((bytes.drop (8 * j)).take 8) := by
  fun_induction valueRows a bytes with
  | case1 => rfl
  | case2 a bytes some chunk ih =>
    have long := List.length_pos_iff.mpr some
    have count : (bytes.length + 7) / 8 = ((bytes.drop 8).length + 7) / 8 + 1 := by
      rw [List.length_drop]
      omega
    rw [count, List.range_succ_eq_map, List.map_cons, List.map_cons, List.map_map, ih, text_directive, rawWords_eq]
    have first : a.advance (8 * 0) = a := Address.advance_zero a
    rw [first]
    refine congrArg (_ :: ·) (List.map_congr_left ?_)
    intro j _
    have place : (a + 8).advance (8 * j) = a.advance (8 * (j + 1)) := by
      rw [Nat.mul_add, Nat.add_comm, ← Address.advance_advance]
      rfl
    rw [place, List.drop_drop, Function.comp_apply, Nat.mul_succ, Nat.add_comm 8]

theorem quoted_eq (characters : List Byte) : quoted characters = quotation characters := by
  rw [quotation, ← ReadBack.toList_quoted, String.ofList_toList]

/-- The segments of parts are written as the parts. -/
theorem texts_parts (b : Address) (number : Nat) (parts : List Part) :
    (Data.rows number (parts.map fun p => (b.advance p.start, p.segment))).map Row.text =
      Part.allTexts b number parts := by
  induction parts generalizing number with
  | nil => rfl
  | cons p parts ih =>
    obtain ⟨start, stop, segment⟩ := p
    rw [List.map_cons, Data.rows, Part.allTexts, List.map_append, ih]
    cases segment with
    | values bytes =>
      have texts : (valueRows (b.advance start) bytes).map Row.text =
          Part.texts b number ⟨start, stop, .values bytes⟩ := by
        simp only [texts_valueRows, Part.texts, Address.advance_advance]
      exact congrArg (· ++ _) texts
    | string characters terminated =>
      have texts : (Segment.rows number (b.advance start) (.string characters terminated)).map Row.text =
          Part.texts b number ⟨start, stop, .string characters terminated⟩ := by
        simp only [Segment.rows, Part.texts, quoted_eq, List.map_cons, List.map_nil, text_directive]
        rfl
      exact congrArg (· ++ _) texts

/-! ## Numbers of strings -/

/-- The names among rows, each with the address of the row below it. -/
def headings : List Row → List (String × Address)
  | .name label :: .columns a _ _ :: rows => (label, a) :: headings rows
  | _ :: rows => headings rows
  | [] => []

/-- Addresses of strings, with names numbered from `number` on. -/
def numbered (number : Nat) (addresses : List Address) : List (String × Address) :=
  (addresses.zipIdx number).map fun (a, k) => ("string" ++ Nat.repr k, a)

/-- The addresses of the strings among segments. -/
def stringAddresses (segments : List (Address × Segment)) : List Address :=
  segments.filterMap fun (a, segment) => if segment.strings = 1 then some a else none

theorem headings_valueRows (a : Address) (bytes : List Byte) (rows : List Row) :
    headings (valueRows a bytes ++ rows) = headings rows := by
  fun_induction valueRows a bytes with
  | case1 => rfl
  | case2 a bytes some chunk ih => exact ih

theorem numbered_append (number : Nat) (first second : List Address) :
    numbered number (first ++ second) = numbered number first ++ numbered (number + first.length) second := by
  rw [numbered, List.zipIdx_append, List.map_append]
  rfl

theorem headings_rows (number : Nat) (segments : List (Address × Segment)) :
    headings (Data.rows number segments) = numbered number (stringAddresses segments) := by
  induction segments generalizing number with
  | nil => rfl
  | cons first segments ih =>
    obtain ⟨a, segment⟩ := first
    cases segment with
    | values bytes => exact (headings_valueRows a bytes _).trans (ih number)
    | string characters terminated =>
      exact congrArg (_ :: ·) (ih (number + 1))

theorem strings_eq (segments : List (Address × Segment)) : strings segments = (stringAddresses segments).length := by
  induction segments with
  | nil => rfl
  | cons first segments ih =>
    obtain ⟨a, segment⟩ := first
    cases segment with
    | values bytes => exact (Nat.zero_add _).trans ih
    | string characters terminated =>
      rw [strings, ih, Nat.add_comm]
      rfl

theorem stringAddresses_parts (b : Address) (parts : List Part) :
    stringAddresses (parts.map fun p => (b.advance p.start, p.segment)) =
      (parts.filter (·.isString)).map fun p => b.advance p.start := by
  induction parts with
  | nil => rfl
  | cons p parts ih =>
    obtain ⟨start, stop, segment⟩ := p
    cases segment with
    | values bytes => exact ih
    | string characters terminated => exact congrArg (_ :: ·) ih

theorem Part.Consecutive.le {parts : List Part} (consecutive : Part.Consecutive s parts e) : s ≤ e := by
  induction parts generalizing s with
  | nil => exact Nat.le_of_eq consecutive
  | cons p parts ih =>
    have behind := ih consecutive.2.2
    have some := consecutive.2.1
    omega

theorem Part.Consecutive.ascending {parts : List Part} (consecutive : Part.Consecutive s parts e) :
    parts.Pairwise (fun p q => p.start < q.start) ∧ ∀ p ∈ parts, s ≤ p.start ∧ p.start < e := by
  induction parts generalizing s with
  | nil => simp
  | cons p parts ih =>
    obtain ⟨start, some, rest⟩ := consecutive
    obtain ⟨ascending, between⟩ := ih rest
    have inside : p.stop ≤ e := rest.le
    refine ⟨List.pairwise_cons.mpr ⟨?_, ascending⟩, List.forall_mem_cons.mpr ⟨by omega, ?_⟩⟩
    · intro q member
      have low := (between q member).1
      omega
    · intro q member
      have bounds := between q member
      omega

/-- Places below `n`, each behind the one before it. -/
structure Ascending (offsets : List Nat) (n : Nat) : Prop where
  pairwise : offsets.Pairwise (· < ·)
  lt : ∀ o ∈ offsets, o < n

theorem Ascending.append {first second : List Nat} {m n : Nat} (low : Ascending first m)
    (high : Ascending second n) : Ascending (first ++ second.map (m + ·)) (m + n) := by
  constructor
  · have shifted : (second.map (m + ·)).Pairwise (· < ·) :=
      List.pairwise_map.mpr (high.pairwise.imp fun less => by omega)
    refine List.pairwise_append.mpr ⟨low.pairwise, shifted, ?_⟩
    intro o here p there
    obtain ⟨k, _, rfl⟩ := List.mem_map.mp there
    have bound := low.lt o here
    omega
  · intro o member
    rcases List.mem_append.mp member with here | there
    · have bound := low.lt o here
      omega
    · obtain ⟨k, among, rfl⟩ := List.mem_map.mp there
      have bound := high.lt k among
      omega

theorem map_advance (a : Address) (m : Nat) (offsets : List Nat) :
    offsets.map (a.advance m).advance = (offsets.map (m + ·)).map a.advance := by
  rw [List.map_map]
  exact List.map_congr_left fun o _ => Address.advance_advance a m o

/-- The strings of data lie at ascending places of it. -/
theorem exists_offsets (data : List Byte) (b : Address) :
    ∃ offsets, Ascending offsets data.length ∧ stringAddresses (segments data b) = offsets.map b.advance := by
  obtain ⟨parts, covers, _, scanned⟩ := exists_parts data b
  obtain ⟨ascending, between⟩ := covers.ascending
  refine ⟨(parts.filter (·.isString)).map (·.start), ⟨List.pairwise_map.mpr (ascending.filter _), ?_⟩, ?_⟩
  · intro o member
    obtain ⟨p, among, rfl⟩ := List.mem_map.mp member
    exact (between p (List.mem_of_mem_filter among)).2
  · rw [scanned, stringAddresses_parts, List.map_map]
    rfl

end M68k.Data

namespace M68k

namespace Printout

/-- The addresses of the strings in the data of lines. -/
def stringAddresses (lines : List Line) : List Address :=
  (lines.filter (·.data)).flatMap fun l => Data.stringAddresses (Data.segments l.bytes l.address)

/-- The names of strings in the rows of lines, with strings numbered from `number` on. -/
def stringHeadings (number : Nat) (lines : List Line) : List (String × Address) :=
  ((lines.zip (blocks number lines)).filter (·.1.data)).flatMap fun (_, block) => Data.headings block

theorem stringAddresses_code {l : Line} (code : l.data = false) (lines : List Line) :
    stringAddresses (l :: lines) = stringAddresses lines := by
  rw [stringAddresses, List.filter_cons_of_neg (by simp [code]), ← stringAddresses]

theorem stringAddresses_data {l : Line} (data : l.data = true) (lines : List Line) :
    stringAddresses (l :: lines) =
      Data.stringAddresses (Data.segments l.bytes l.address) ++ stringAddresses lines := by
  rw [stringAddresses, List.filter_cons_of_pos data, List.flatMap_cons, ← stringAddresses]

theorem stringHeadings_eq (number : Nat) (lines : List Line) :
    stringHeadings number lines = Data.numbered number (stringAddresses lines) := by
  induction lines generalizing number with
  | nil => rfl
  | cons l lines ih =>
    cases data : l.data with
    | false =>
      rw [stringAddresses_code data, ← ih number]
      simp [stringHeadings, blocks, data]
    | true =>
      rw [stringAddresses_data data, Data.numbered_append, ← ih, ← Data.headings_rows, ← Data.strings_eq]
      simp [stringHeadings, blocks, data]

/-- The block of a line; its strings are numbered behind those of the lines before it. -/
theorem getElem?_blocks {lines : List Line} {l : Line} (number i : Nat) (here : lines[i]? = some l) :
    (blocks number lines)[i]? = some (if l.data then
      Data.rows (number + (stringAddresses (lines.take i)).length) (Data.segments l.bytes l.address) else l.rows) := by
  induction lines generalizing number i with
  | nil => simp at here
  | cons first lines ih =>
    cases i with
    | zero =>
      obtain rfl : first = l := by simpa using here
      rw [blocks]
      split <;> rfl
    | succ i =>
      rw [List.getElem?_cons_succ] at here
      rw [blocks, List.take_succ_cons]
      cases data : first.data with
      | false =>
        rw [if_neg Bool.false_ne_true, List.getElem?_cons_succ, ih number i here, stringAddresses_code data]
      | true =>
        rw [if_pos rfl, List.getElem?_cons_succ, ih _ i here, stringAddresses_data data, List.length_append,
          Data.strings_eq, Nat.add_assoc]

/-- Names make no difference to the strings. -/
theorem stringAddresses_congr {lines others : List Line}
    (same : List.Forall₂ (fun l m => m = { l with label := m.label, target := m.target }) lines others) :
    stringAddresses others = stringAddresses lines := by
  induction same with
  | nil => rfl
  | @cons l m lines others head _ ih =>
    have kind : m.data = l.data := by rw [head]
    cases data : l.data with
    | false => rw [stringAddresses_code data, stringAddresses_code (kind.trans data), ih]
    | true =>
      rw [stringAddresses_data data, stringAddresses_data (kind.trans data), ih, show m.bytes = l.bytes by rw [head],
        show m.address = l.address by rw [head]]

end Printout

/-- The strings of lines that tile an image lie at ascending places of it. -/
theorem Tiling.exists_offsets {a : Address} {image : List Byte} {lines : List Line} (tiled : Tiling a image lines) :
    ∃ offsets, Data.Ascending offsets image.length ∧ Printout.stringAddresses lines = offsets.map a.advance := by
  induction tiled with
  | nil a => exact ⟨[], ⟨.nil, by simp⟩, rfl⟩
  | @instruction a l rest lines code _ _ _ _ _ _ _ ih =>
    obtain ⟨offsets, ascending, found⟩ := ih
    have none : Data.Ascending [] l.bytes.length := ⟨.nil, by simp⟩
    refine ⟨_, List.length_append ▸ none.append ascending, ?_⟩
    rw [Printout.stringAddresses_code code, found, Data.map_advance, List.nil_append]
  | @data a l rest lines data place _ _ _ _ ih =>
    obtain ⟨offsets, ascending, found⟩ := ih
    obtain ⟨own, rising, strings⟩ := Data.exists_offsets l.bytes a
    refine ⟨_, List.length_append ▸ rising.append ascending, ?_⟩
    rw [Printout.stringAddresses_data data, place, strings, found, Data.map_advance, List.map_append]

theorem Decoder.exists_offsets (d : Decoder) (image : List Byte) (origin : Address) (entry : Option Address) :
    ∃ offsets, Data.Ascending offsets image.length ∧
      Printout.stringAddresses (d.linesFrom image origin entry) = offsets.map origin.advance := by
  have tiled : Tiling origin image (d.listing image origin).lines := d.tiling_steps image origin
  obtain ⟨offsets, ascending, found⟩ := tiled.exists_offsets
  refine ⟨offsets, ascending, ?_⟩
  rw [← found]
  cases entry with
  | none => rfl
  | some entry => exact Printout.stringAddresses_congr (Labelling.label_same (d.unnamed_listing image origin) entry)

/-- Data is written by its maximal printable runs. The data falls into parts, one behind the other,
    which are exactly the runs and the stretches of what they leave, and is written part by part;
    its strings are numbered from the given number on, and what follows is numbered behind them. In a
    listing, each block of rows is that of a line, and the strings of all data have the numbers from
    1 on, in their order, which in the listing of an image is that of their places. -/
theorem Data.rows_follow_runs :
    (∀ (data : List Byte) (b : Address) (n : Nat), ∃ parts : List Part,
      Part.Consecutive 0 parts data.length ∧ (∀ p, p ∈ parts ↔ p.Of data b) ∧
      (rows n (segments data b)).map Row.text = Part.allTexts b n parts ∧
      headings (rows n (segments data b)) =
        numbered n ((parts.filter (·.isString)).map fun p => b.advance p.start) ∧
      n + strings (segments data b) = n + (headings (rows n (segments data b))).length) ∧
    (∀ lines : List Line,
      let blocks := Printout.blocks 1 lines
      Printout.text lines = String.join (blocks.flatten.map Row.text) ∧
      (∀ (i : Nat) (l : Line), lines[i]? = some l → blocks[i]? = some (if l.data then
        rows (1 + (Printout.stringAddresses (lines.take i)).length) (segments l.bytes l.address) else l.rows)) ∧
      Printout.stringHeadings 1 lines = numbered 1 (Printout.stringAddresses lines)) ∧
    (∀ (d : Decoder) (image : List Byte) (origin : Address) (entry : Option Address), ∃ offsets,
      Ascending offsets image.length ∧
      Printout.stringHeadings 1 (d.linesFrom image origin entry) = numbered 1 (offsets.map origin.advance)) := by
  refine ⟨?_, ?_, ?_⟩
  · intro data b n
    obtain ⟨parts, covers, each, scanned⟩ := exists_parts data b
    have names := headings_rows n (segments data b)
    refine ⟨parts, covers, each, ?_, ?_, ?_⟩
    · rw [scanned, texts_parts]
    · rw [names, scanned, stringAddresses_parts]
    · rw [names, strings_eq, numbered, List.length_map, List.length_zipIdx]
  · intro lines blocks
    exact ⟨by rw [Printout.text, Printout.flatten_blocks], fun i l here => Printout.getElem?_blocks 1 i here,
      Printout.stringHeadings_eq 1 lines⟩
  · intro d image origin entry
    obtain ⟨offsets, ascending, found⟩ := d.exists_offsets image origin entry
    exact ⟨offsets, ascending, by rw [Printout.stringHeadings_eq, found]⟩

/-- A string with a quote, another zero behind it, and four letters across the end of the address
    space, where they are at a multiple of four: two strings, named behind the one of the line before.
    Nine bytes that are no characters fill one row and begin another. -/
theorem Data.rows_follow_runs_wrapping :
    let text : List Byte := [0x41, 0x27, 0x42, 0x43, 0x00]
    let data : List Byte := text ++ [0x00, 0x57, 0x58, 0x59, 0x5A]
    let first : Line := { address := 0xFFFFFFF5, bytes := text, data := true }
    let second : Line := { address := 0xFFFFFFFA, bytes := data, data := true }
    let lines := [first, second]
    let nine : List Byte := [1, 2, 3, 4, 5, 6, 7, 8, 9]
    lines[1]? = some second ∧ (Printout.stringAddresses (lines.take 1)).length = 1 ∧
    (Printout.blocks 1 lines)[1]? = some (Data.rows 2 (segments data 0xFFFFFFFA)) ∧
    Printout.stringHeadings 1 lines = numbered 1 [0xFFFFFFF5, 0xFFFFFFFA, 0] ∧
    (∃ parts : List Part, Part.Consecutive 0 parts 10 ∧ (∀ p, p ∈ parts ↔ p.Of data 0xFFFFFFFA) ∧
      Part.allTexts 0xFFFFFFFA 2 parts =
        ["string2:\n",
          "fffffffa                            DC.B     'A''BC',$00\n",
          "ffffffff  00                        DC.B     $00\n",
          "string3:\n",
          "00000000                            DC.B     'WXYZ'\n"]) ∧
    ∃ parts : List Part, Part.Consecutive 0 parts 9 ∧ (∀ p, p ∈ parts ↔ p.Of nine 0x1000) ∧
      Part.allTexts 0x1000 1 parts =
        ["00001000  0102 0304 0506 0708       DC.B     $01,$02,$03,$04,$05,$06,$07,$08\n",
          "00001008  09                        DC.B     $09\n"] := by
  intro text data first second lines nine
  obtain ⟨written, listed, _⟩ := rows_follow_runs
  have here : lines[1]? = some second := rfl
  have before : (Printout.stringAddresses (lines.take 1)).length = 1 := by decide +kernel
  have all : Printout.stringAddresses lines = [0xFFFFFFF5, 0xFFFFFFFA, 0] := by decide +kernel
  obtain ⟨_, blocks, headings⟩ := listed lines
  have block := blocks 1 second here
  rw [before] at block
  rw [all] at headings
  obtain ⟨parts, covers, each, texts, _⟩ := written data 0xFFFFFFFA 2
  obtain ⟨others, covers', each', texts', _⟩ := written nine 0x1000 1
  exact ⟨here, before, block, headings, ⟨parts, covers, each, texts.symm.trans (by decide +kernel)⟩,
    others, covers', each', texts'.symm.trans (by decide +kernel)⟩

end M68k
