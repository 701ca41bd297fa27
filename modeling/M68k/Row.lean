import M68k.Text.Number
import M68k.Word

/-!
The rows of a printed listing: names, and lines in columns.
-/
namespace M68k

/-- The raw bytes of a line, in words with a blank between them. An odd last byte stands
    alone. -/
def rawWords (bytes : List Byte) : String :=
  " ".intercalate (groups bytes)
where
  groups : List Byte → List String
    | [] => []
    | [b] => [Text.hex .upper 2 b.toNat]
    | high :: low :: rest =>
      (Text.hex .upper 2 high.toNat ++ Text.hex .upper 2 low.toNat) :: groups rest

/-- A row of a listing. -/
inductive Row where
  /-- The name of the line below. -/
  | name (label : String)
  /-- An address, raw bytes, and text that ends the row. -/
  | columns (address : Address) (raw : String) (text : String)
deriving DecidableEq, Repr

/-- A row as text. -/
def Row.text : Row → String
  | .name label => label ++ ":\n"
  | .columns address raw text =>
    Text.hex .lower 8 address.toNat ++ "  " ++ Text.padRight 24 raw ++ "  " ++ text

end M68k
