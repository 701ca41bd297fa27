import M68k.Row

/-!
Data lines as `DC.B` directives. Printable runs that look like text, because a zero
follows or because they are aligned tags of four characters, are quoted and numbered;
everything else is written byte by byte.
-/
namespace M68k.Data

/-- A printable ASCII character. -/
def isPrintable (b : Byte) : Bool := 0x20 ≤ b && b ≤ 0x7E

/-- A stretch of data that is written in one way. -/
inductive Segment where
  /-- Bytes written as numbers. -/
  | values (bytes : List Byte)
  /-- Characters written in quotes, perhaps with a zero behind them. -/
  | string (characters : List Byte) (terminated : Bool)
deriving DecidableEq, Repr

/-- The segments of data at an address, each with its own address. Printable runs are
    maximal. One of at least four characters takes the zero behind it along; one of exactly
    four at a multiple of four needs none. -/
def segments (data : List Byte) (address : Address) : List (Address × Segment) :=
  match data with
  | [] => []
  | b :: rest =>
    if isPrintable b then
      let run := b :: rest.takeWhile isPrintable
      let after := rest.dropWhile isPrintable
      let next := address.advance run.length
      if 4 ≤ run.length ∧ after.head? = some 0 then
        (address, .string run true) :: segments after.tail (next + 1)
      else if run.length = 4 ∧ address.toNat % 4 = 0 then
        (address, .string run false) :: segments after next
      else
        (address, .values run) :: segments after next
    else
      let run := b :: rest.takeWhile (!isPrintable ·)
      (address, .values run) ::
        segments (rest.dropWhile (!isPrintable ·)) (address.advance run.length)
termination_by data.length
decreasing_by
  all_goals
    have printable := (List.dropWhile_suffix isPrintable (l := rest)).length_le
    have others := (List.dropWhile_suffix (!isPrintable ·) (l := rest)).length_le
    simp only [List.length_cons, List.length_tail]
    omega

/-- A directive with its operands. -/
def directive (address : Address) (raw operands : String) : Row :=
  .columns address raw (Text.padRight 8 "DC.B" ++ " " ++ operands ++ "\n")

/-- Bytes as numbers, eight in a row. -/
def valueRows (address : Address) (bytes : List Byte) : List Row :=
  if bytes = [] then [] else
  let chunk := bytes.take 8
  directive address (rawWords chunk)
      (",".intercalate (chunk.map fun b => "$" ++ Text.hex .upper 2 b.toNat)) ::
    valueRows (address + 8) (bytes.drop 8)
termination_by bytes.length
decreasing_by
  have := List.length_pos_iff.mpr ‹_›
  simp only [List.length_drop]
  omega

/-- Characters in single quotes; a quote inside is doubled. -/
def quoted (characters : List Byte) : String :=
  "'" ++ String.join (characters.map fun b =>
    if b = 0x27 then "''" else (Char.ofNat b.toNat).toString) ++ "'"

/-- The rows of a segment. A string has its number in a row of its own. -/
def Segment.rows (number : Nat) (address : Address) : Segment → List Row
  | .values bytes => valueRows address bytes
  | .string characters terminated =>
    [.name ("string" ++ Nat.repr number),
      directive address "" (quoted characters ++ if terminated then ",$00" else "")]

/-- The number of strings that a segment takes up. -/
def Segment.strings : Segment → Nat
  | .values _ => 0
  | .string .. => 1

/-- The rows of segments, with strings numbered from `number` on. -/
def rows (number : Nat) : List (Address × Segment) → List Row
  | [] => []
  | (address, segment) :: rest =>
    segment.rows number address ++ rows (number + segment.strings) rest

/-- The number of strings among segments. -/
def strings : List (Address × Segment) → Nat
  | [] => 0
  | (_, segment) :: rest => segment.strings + strings rest

end M68k.Data
