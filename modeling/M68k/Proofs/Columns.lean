import Mathlib
import M68k.Printout
import M68k.Proofs.InstructionText

/-!
The layout of a listing's text, and how the bytes are read back from it. A row is a name or
has fixed columns (`Columns`). The raw words give the bytes; a row without raw words is a
quoted string, which gives its characters.
-/
namespace M68k.ReadBack

open Text

/-! ## Reading -/

/-- The rows of a text, each without the end of its line. -/
def rowsOf (text : String) : List (List Char) := (text.toList.splitOn '\n').dropLast

/-- The bytes that pairs of hexadecimal digits spell. -/
def hexBytes : List Char → List Byte
  | high :: low :: rest => UInt8.ofNat (ofHexDigits [high, low]) :: hexBytes rest
  | _ => []

/-- The mark around quoted characters. -/
def quote : Char := Char.ofNat 0x27

/-- The bytes of a quoted string from behind its first mark. A doubled mark is a character,
    and what follows the last mark is a zero. -/
def quotedBytes : List Char → List Byte
  | [] | [_] => []
  | c :: next :: rest =>
    if c = quote then
      if next = quote then 0x27 :: quotedBytes rest else [0]
    else UInt8.ofNat c.toNat :: quotedBytes (next :: rest)

/-- The bytes that a row shows. Names, which start with no hexadecimal digit, show none. -/
def rowBytes (row : List Char) : List Byte :=
  if (row.head?.bind hexValue?).isSome then
    let raw := ((row.drop 10).take 24).filter (· != ' ')
    if raw = [] then quotedBytes (row.drop 46) else hexBytes raw
  else []

/-- The image that a listing shows. -/
def image (text : String) : List Byte := (rowsOf text).flatMap rowBytes

@[simp] theorem rowsOf_empty : rowsOf "" = [] := by
  simp [rowsOf]

theorem rowsOf_append {row : List Char} {first rest : String} (ends : first.toList = row ++ ['\n'])
    (inside : '\n' ∉ row) : rowsOf (first ++ rest) = row :: rowsOf rest := by
  rw [rowsOf, rowsOf, String.toList_append, ends, List.append_assoc, List.singleton_append,
    List.splitOn_append_cons_self_of_not_mem inside,
    List.dropLast_cons_of_ne_nil (List.splitOn_ne_nil _ _)]

/-! ## Raw words -/

theorem hexBytes_hexDigits (b : Byte) (rest : List Char) :
    hexBytes (hexDigits .upper 2 b.toNat ++ rest) = b :: hexBytes rest := by
  have spelled : ofHexDigits (hexDigits .upper 2 b.toNat) = b.toNat :=
    ofHexDigits_hexDigits _ b.toNat_lt
  have pair : hexDigits .upper 2 b.toNat =
      [hexDigit .upper (b.toNat / 16 % 16), hexDigit .upper (b.toNat % 16)] := rfl
  rw [pair] at spelled ⊢
  simp only [List.cons_append, List.nil_append, hexBytes, spelled, UInt8.ofNat_toNat]

theorem hexBytes_flatMap (bytes : List Byte) :
    hexBytes (bytes.flatMap fun b => hexDigits .upper 2 b.toNat) = bytes := by
  induction bytes with
  | nil => rfl
  | cons b rest ih => rw [List.flatMap_cons, hexBytes_hexDigits, ih]

theorem rawWords_cons_cons (high low : Byte) {rest : List Byte} (more : rest ≠ []) :
    rawWords (high :: low :: rest) =
      hex .upper 2 high.toNat ++ hex .upper 2 low.toNat ++ " " ++ rawWords rest := by
  have groups : rawWords.groups rest ≠ [] := by
    match rest with
    | [b] | _ :: _ :: _ => simp [rawWords.groups]
  rw [rawWords, rawWords.groups, String.intercalate_cons_of_ne_nil groups, rawWords]

/-- Two digits for a byte, and a blank between words. -/
theorem length_rawWords : (bytes : List Byte) →
    (rawWords bytes).length = 2 * bytes.length + (bytes.length - 1) / 2
  | [] => rfl
  | [b] => by simp [rawWords, rawWords.groups, hex]
  | [high, low] => by simp [rawWords, rawWords.groups, hex]
  | high :: low :: next :: rest => by
    rw [rawWords_cons_cons high low (by simp)]
    simp only [String.length_append, length_rawWords (next :: rest), hex, String.length_ofList,
      length_hexDigits, List.length_cons]
    have blank : " ".length = 1 := rfl
    omega

theorem filter_hexDigits (letters : LetterCase) (width n : Nat) :
    (hexDigits letters width n).filter (· != ' ') = hexDigits letters width n := by
  refine List.filter_eq_self.mpr fun c member => ?_
  have digit := isSome_hexValue? member
  rw [bne_iff_ne]
  rintro rfl
  revert digit
  decide

theorem filter_rawWords : (bytes : List Byte) →
    (rawWords bytes).toList.filter (· != ' ') = bytes.flatMap fun b => hexDigits .upper 2 b.toNat
  | [] => rfl
  | [b] => by simp [rawWords, rawWords.groups, filter_hexDigits]
  | [high, low] => by simp [rawWords, rawWords.groups, filter_hexDigits]
  | high :: low :: next :: rest => by
    rw [rawWords_cons_cons high low (by simp)]
    simp only [String.toList_append, toList_hex, List.filter_append, filter_hexDigits,
      filter_rawWords (next :: rest), List.flatMap_cons, List.append_assoc]
    rfl

theorem lacks_rawWords {c : Char} (other : hexValue? c = none) (blank : Lacks c " ") (bytes : List Byte) :
    Lacks c (rawWords bytes) := by
  refine lacks_intercalate blank ?_
  fun_induction rawWords.groups bytes with
  | case1 => simp
  | case2 => simp [lacks_hex, other]
  | case3 high low rest ih => simpa [lacks_hex, other] using ih

/-- The ten bytes of the longest instruction fill the columns of the raw words. -/
theorem rawWords_fits {bytes : List Byte} (few : bytes.length ≤ 10) : Fits 24 (rawWords bytes) := by
  refine ⟨?_, lacks_rawWords hexValue?_newline (by decide) bytes⟩
  rw [length_rawWords]
  omega

/-! ## Quoted strings -/

/-- A character as it stands between the marks. -/
def spelled (b : Byte) : List Char := if b = 0x27 then [quote, quote] else [Char.ofNat b.toNat]

theorem toList_quoted (characters : List Byte) :
    (Data.quoted characters).toList = quote :: (characters.flatMap spelled ++ [quote]) := by
  have each : ∀ b : Byte, (if b = 0x27 then "''" else (Char.ofNat b.toNat).toString).toList =
      spelled b := by
    intro b
    unfold spelled
    split
    · rfl
    · simp
  simp only [Data.quoted, String.toList_append, String.toList_join, List.flatMap_map, each]
  rfl

theorem toNat_char (b : Byte) : (Char.ofNat b.toNat).toNat = b.toNat := by
  have small := b.toNat_lt
  rw [Char.toNat_ofNat, if_pos (.inl (by omega))]

theorem char_ne_quote {b : Byte} (other : b ≠ 0x27) : Char.ofNat b.toNat ≠ quote := by
  intro same
  have code := congrArg Char.toNat same
  rw [toNat_char] at code
  exact other (UInt8.toNat_inj.mp code)

theorem quotedBytes_cons {c : Char} {rest : List Char} (other : c ≠ quote) (more : rest ≠ []) :
    quotedBytes (c :: rest) = UInt8.ofNat c.toNat :: quotedBytes rest := by
  cases rest with
  | nil => exact absurd rfl more
  | cons next rest => simp only [quotedBytes, other, if_false]

/-- Characters are read up to the mark that stands alone. -/
theorem quotedBytes_spelled (characters : List Byte) {rest : List Char}
    (alone : rest.head? ≠ some quote) :
    quotedBytes (characters.flatMap spelled ++ quote :: rest) =
      characters ++ if rest = [] then [] else [0] := by
  induction characters with
  | nil =>
    -- Only the closing mark is left, with or without something behind it.
    cases rest with
    | nil => rfl
    | cons next rest =>
      have different : next ≠ quote := by simpa using alone
      simp [quotedBytes, different]
  | cons b characters ih =>
    rw [List.flatMap_cons, List.append_assoc]
    by_cases mark : b = 0x27
    · simp [spelled, mark, quotedBytes, ih]
    · simp only [spelled, mark, if_false, List.cons_append, List.nil_append]
      rw [quotedBytes_cons (char_ne_quote mark) (by simp), ih, toNat_char, UInt8.ofNat_toNat]

theorem lacks_quoted {characters : List Byte} (printable : ∀ b ∈ characters, Data.isPrintable b) :
    Lacks '\n' (Data.quoted characters) := by
  intro member
  rw [toList_quoted, List.mem_cons, List.mem_append, List.mem_singleton, List.mem_flatMap] at member
  rcases member with mark | ⟨b, listed, inside⟩ | mark
  · exact absurd mark (by decide)
  · have above := printable b listed
    unfold spelled at inside
    split at inside
    · exact absurd inside (by decide)
    · have code := congrArg Char.toNat (List.mem_singleton.mp inside)
      rw [toNat_char] at code
      have newline : b = 0x0A := UInt8.toNat_inj.mp code.symm
      rw [newline] at above
      revert above
      decide
  · exact absurd mark (by decide)

/-! ## Columns -/

/-- A row in columns: an address, 24 columns of raw words, 8 columns of a mnemonic, and
    operands. -/
structure Columns where
  address : Address
  raw : List Char
  mnemonic : List Char
  operands : List Char
  raw_width : raw.length = 24
  mnemonic_width : mnemonic.length = 8

namespace Columns

/-- The characters of a row. -/
def row (c : Columns) : List Char :=
  hexDigits .lower 8 c.address.toNat ++ [' ', ' '] ++ c.raw ++ [' ', ' '] ++ c.mnemonic ++ [' '] ++
    c.operands

/-- The columns that texts fill up with blanks. -/
def ofTexts (address : Address) {raw mnemonic : String} (operands : String)
    (wide : Fits 24 raw) (short : Fits 8 mnemonic) : Columns where
  address := address
  raw := (padRight 24 raw).toList
  mnemonic := (padRight 8 mnemonic).toList
  operands := operands.toList
  raw_width := length_padRight wide.1
  mnemonic_width := length_padRight short.1

/-- A string in quotes, perhaps with a zero behind it. -/
def IsString (c : Columns) : Prop :=
  c.mnemonic = "DC.B    ".toList ∧ ∃ (characters : List Byte) (terminated : Bool),
    c.operands = (Data.quoted characters ++ if terminated then ",$00" else "").toList

theorem head?_row (c : Columns) : (c.row.head?.bind hexValue?).isSome = true := by
  have digits : hexDigits .lower 8 c.address.toNat ≠ [] := by
    rw [← List.length_pos_iff, length_hexDigits]
    decide
  have first : c.row.head? = some ((hexDigits .lower 8 c.address.toNat).head digits) := by
    simp [row, List.head?_append, List.head?_eq_some_head digits]
  rw [first]
  exact isSome_hexValue? (List.head_mem digits)

theorem take_row (c : Columns) : (c.row.drop 10).take 24 = c.raw := by
  have cut : c.row = (hexDigits .lower 8 c.address.toNat ++ [' ', ' ']) ++
      (c.raw ++ ([' ', ' '] ++ c.mnemonic ++ [' '] ++ c.operands)) := by
    simp [row]
  rw [cut, List.drop_left' (by simp), List.take_left' c.raw_width]

theorem drop_row (c : Columns) : c.row.drop 46 = c.operands.drop 1 := by
  have width : (hexDigits .lower 8 c.address.toNat ++ [' ', ' '] ++ c.raw ++ [' ', ' '] ++
      c.mnemonic ++ [' ']).length = 45 := by
    simp [c.raw_width, c.mnemonic_width]
  rw [row, ← List.drop_drop (i := 1) (j := 45), List.drop_left' width]

/-- The bytes of a row in columns are in its raw words, or else in its operands. -/
theorem rowBytes_row (c : Columns) :
    rowBytes c.row = if c.raw.filter (· != ' ') = [] then quotedBytes (c.operands.drop 1)
      else hexBytes (c.raw.filter (· != ' ')) := by
  simp only [rowBytes, c.head?_row, if_true, c.take_row, c.drop_row]

theorem filter_raw_ofTexts (address : Address) {raw mnemonic : String} (operands : String)
    (wide : Fits 24 raw) (short : Fits 8 mnemonic) :
    (ofTexts address operands wide short).raw.filter (· != ' ') = raw.toList.filter (· != ' ') := by
  simp [ofTexts, toList_padRight]

/-- Texts that stay in their columns make up one row. -/
theorem row_ofTexts (address : Address) {raw mnemonic operands : String} (wide : Fits 24 raw)
    (short : Fits 8 mnemonic) (plain : Lacks '\n' operands) :
    (Row.columns address raw (padRight 8 mnemonic ++ " " ++ operands ++ "\n")).text.toList =
        (ofTexts address operands wide short).row ++ ['\n'] ∧
      '\n' ∉ (ofTexts address operands wide short).row := by
  have texts : (ofTexts address operands wide short).row = (hex .lower 8 address.toNat ++ "  " ++
      padRight 24 raw ++ "  " ++ padRight 8 mnemonic ++ " " ++ operands).toList := by
    simp [row, ofTexts, String.toList_append]
  have inside : Lacks '\n' (hex .lower 8 address.toNat ++ "  " ++ padRight 24 raw ++ "  " ++
      padRight 8 mnemonic ++ " " ++ operands) := by
    simp +decide [lacks_hex, hexValue?_newline, lacks_padRight, wide.2, short.2, plain]
  refine ⟨?_, texts ▸ inside⟩
  rw [texts]
  simp [Row.text, String.toList_append]

end Columns

/-- A row that names what stands below it: a numbered string, or a place that control
    reaches. -/
def IsName (row : List Char) : Prop :=
  (∃ n : Nat, row = ("string" ++ Nat.repr n ++ ":").toList) ∨
    ∃ target arrival, row = (Labelling.nameOf target arrival ++ ":").toList

/-- A row is a name or in columns, and has raw words unless it is a string. -/
def Laid (row : List Char) : Prop :=
  IsName row ∨ ∃ c : Columns, row = c.row ∧ ((∀ x ∈ c.raw, x = ' ') → c.IsString)

/-- A row of a listing is one row of text, laid out as it should be, and shows bytes. -/
def Shows (row : Row) (bytes : List Byte) : Prop :=
  ∃ line, row.text.toList = line ++ ['\n'] ∧ '\n' ∉ line ∧ Laid line ∧ rowBytes line = bytes

theorem shows_words {bytes : List Byte} (some : bytes ≠ []) (few : bytes.length ≤ 10)
    (address : Address) {mnemonic operands : String} (short : Fits 8 mnemonic)
    (plain : Lacks '\n' operands) :
    Shows (.columns address (rawWords bytes) (padRight 8 mnemonic ++ " " ++ operands ++ "\n"))
      bytes := by
  obtain ⟨ends, inside⟩ := Columns.row_ofTexts address (rawWords_fits few) short plain
  have digits := Columns.filter_raw_ofTexts address operands (rawWords_fits few) short
  rw [filter_rawWords] at digits
  have spelled : (bytes.flatMap fun b => hexDigits .upper 2 b.toNat) ≠ [] := by
    obtain ⟨b, rest, rfl⟩ := List.exists_cons_of_ne_nil some
    simp [hexDigits]
  refine ⟨_, ends, inside, .inr ⟨_, rfl, ?_⟩, ?_⟩
  · intro blank
    rw [← digits] at spelled
    refine absurd (List.filter_eq_nil_iff.mpr fun x member => ?_) spelled
    simp [blank x member]
  · rw [Columns.rowBytes_row, digits, if_neg spelled, hexBytes_flatMap]

theorem shows_string {characters : List Byte} (printable : ∀ b ∈ characters, Data.isPrintable b)
    (terminated : Bool) (address : Address) :
    Shows (Data.directive address "" (Data.quoted characters ++ if terminated then ",$00" else ""))
      (characters ++ if terminated then [0] else []) := by
  have plain : Lacks '\n' (Data.quoted characters ++ if terminated then ",$00" else "") := by
    refine lacks_append.mpr ⟨lacks_quoted printable, ?_⟩
    cases terminated <;> decide
  have empty : Fits 24 "" := by decide
  have short : Fits 8 "DC.B" := by decide
  obtain ⟨ends, inside⟩ := Columns.row_ofTexts address empty short plain
  refine ⟨_, ends, inside, .inr ⟨_, rfl, ?_⟩, ?_⟩
  · intro _
    exact ⟨rfl, characters, terminated, rfl⟩
  · rw [Columns.rowBytes_row, Columns.filter_raw_ofTexts, if_pos (by decide)]
    simp only [Columns.ofTexts, String.toList_append, toList_quoted, List.cons_append,
      List.drop_succ_cons, List.drop_zero, List.append_assoc, List.nil_append]
    cases terminated with
    | false => exact quotedBytes_spelled characters (by simp)
    | true => exact quotedBytes_spelled characters (by decide)

theorem head?_name {row : List Char} (named : IsName row) : row.head?.bind hexValue? = none := by
  rcases named with ⟨n, rfl⟩ | ⟨target, arrival, rfl⟩
  · simp only [String.toList_append, List.append_assoc]
    rfl
  · cases arrival <;> simp only [Labelling.nameOf, String.toList_append, List.append_assoc] <;> rfl

theorem lacks_nameOf (target : Address) (arrival : Arrival) :
    Lacks '\n' (Labelling.nameOf target arrival) := by
  cases arrival <;> simp +decide [Labelling.nameOf, lacks_hex, hexValue?_newline]

theorem newline_not_mem_name {row : List Char} (named : IsName row) : '\n' ∉ row := by
  rcases named with ⟨n, rfl⟩ | ⟨target, arrival, rfl⟩
  · have inside : Lacks '\n' ("string" ++ Nat.repr n ++ ":") := by
      simp +decide [lacks_repr]
    exact inside
  · have inside : Lacks '\n' (Labelling.nameOf target arrival ++ ":") :=
      lacks_append.mpr ⟨lacks_nameOf target arrival, by decide⟩
    exact inside

/-- A name shows no bytes, since it starts with a letter that is no digit. -/
theorem shows_name {label : String} (named : IsName (label ++ ":").toList) : Shows (.name label) [] := by
  refine ⟨_, ?_, newline_not_mem_name named, .inl named, ?_⟩
  · simp [Row.text, String.toList_append]
  · simp only [rowBytes, head?_name named, Option.isSome_none, Bool.false_eq_true, if_false]

end M68k.ReadBack
