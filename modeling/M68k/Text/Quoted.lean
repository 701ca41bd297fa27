import M68k.Text.Number
import M68k.Text.Printable

/-!
Text in double quotes, on one line and in printable characters only.
-/
namespace M68k.Text

/-- The escapes of a letter. -/
def letterEscape? (c : Char) : Option String :=
  match c.toNat with
  | 0x07 => some "\\a"
  | 0x08 => some "\\b"
  | 0x09 => some "\\t"
  | 0x0A => some "\\n"
  | 0x0B => some "\\v"
  | 0x0C => some "\\f"
  | 0x0D => some "\\r"
  | 0x22 => some "\\\""
  | 0x5C => some "\\\\"
  | _ => none

/-- A character inside quotes. What is not printable is given by number: two digits for
    the controls of ASCII, four for the other code points of 16 bits, eight beyond. -/
def quotedChar (c : Char) : String :=
  match letterEscape? c with
  | some escape => escape
  | none =>
    if isPrintable c then c.toString else
    if c.toNat < 0x80 then "\\x" ++ hex .lower 2 c.toNat else
    if c.toNat < 0x10000 then "\\u" ++ hex .lower 4 c.toNat else
    "\\U" ++ hex .lower 8 c.toNat

/-- Text in double quotes. -/
def quoted (s : String) : String := "\"" ++ String.join (s.toList.map quotedChar) ++ "\""

end M68k.Text
