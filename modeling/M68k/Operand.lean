import M68k.Cursor
import M68k.Mode
import M68k.Text.Number

/-!
Effective address operands: the extension words they occupy and the text they give.
An operand that cannot be written is refused before anything is read.
-/
namespace M68k

open Text (hex decimal signed)

/-- Why an operand has no text. -/
inductive OperandError where
  | invalidMode (code : Int)
  | invalidSize
deriving DecidableEq, Repr

/-- The wording of an error. -/
def OperandError.message : OperandError → String
  | .invalidMode code => "invalid addressing mode: " ++ decimal code
  | .invalidSize => "immediate operand: invalid operand size"

/-- Immediate data of a size, from its first and second word. A byte is the low half
    of its word. -/
def Size.immediateText (size : Size) (letters : Text.LetterCase) (first second : Word) : String :=
  match size with
  | .byte => "#$" ++ hex letters 2 (first.field 0 8)
  | .word => "#$" ++ hex letters 4 first.toNat
  | .long => "#$" ++ hex letters 4 first.toNat ++ hex letters 4 second.toNat
  | .reserved => ""

/-- The index register that an extension word names: bit 15 chooses the class, bits
    14-12 the number and bit 11 a long index. -/
def Word.indexRegister (extension : Word) : String :=
  (if extension.bit 15 then "A" else "D") ++ decimal (extension.field 12 3) ++
    (if extension.bit 11 then ".L" else ".W")

/-- A target relative to its displacement word, as eight digits; `after` is the
    address behind that word. -/
def Word.relativeTarget (displacement : Word) (after : Address) : String :=
  "$" ++ hex .lower 8 ((after - 2).offset displacement.signed).toNat

/-- An operand by mode and register. The size matters for immediate data only. -/
structure Operand where
  mode : Mode
  register : Int
  size : Size
deriving DecidableEq, Repr

namespace Operand

/-- The operand with the given codes. -/
def ofCodes (mode register size : Int) : Operand :=
  { mode := Mode.ofCode mode, register, size := Size.ofCode size }

/-- The operand in bits 5-0 of a word. -/
def ofField (w : Word) (size : Size) : Operand :=
  { mode := Mode.ofField w, register := w.lowRegister, size }

/-- The number of extension words. -/
def words (o : Operand) : Nat := o.mode.extensionWords o.size

/-- The reason why an operand cannot be written, if there is one. -/
def fault? (o : Operand) : Option OperandError :=
  match o.mode, o.size with
  | .invalid code, _ => some (.invalidMode code)
  | .immediate, .reserved => some .invalidSize
  | _, _ => none

/-- The text of an operand from its extension words; `after` is the address behind
    them. -/
def text (o : Operand) (after : Address) (extension : List Word) : String :=
  let first : Word := extension.getD 0 0
  let second : Word := extension.getD 1 0
  let register := decimal o.register
  match o.mode with
  | .dataRegister => "D" ++ register
  | .addressRegister => "A" ++ register
  | .indirect => "(A" ++ register ++ ")"
  | .postincrement => "(A" ++ register ++ ")+"
  | .predecrement => "-(A" ++ register ++ ")"
  | .displacement => signed first.signed ++ "(A" ++ register ++ ")"
  | .index => signed first.lowSigned ++ "(A" ++ register ++ "," ++ first.indexRegister ++ ")"
  | .absoluteShort => "$0000" ++ hex .lower 4 first.toNat
  | .absoluteLong => "$" ++ hex .lower 4 first.toNat ++ hex .lower 4 second.toNat
  | .pcDisplacement =>
    signed first.signed ++ "(PC) \x7b" ++ first.relativeTarget after ++ "\x7d"
  | .pcIndex => signed first.lowSigned ++ "(PC," ++ first.indexRegister ++ ")"
  | .immediate => o.size.immediateText .lower first second
  | .invalid _ => ""

/-- Reads an operand's extension words and writes its text. Nothing is read when the
    operand has a fault. -/
def read (o : Operand) (c : Cursor) : Except OperandError String × Cursor :=
  match o.fault? with
  | some fault => (.error fault, c)
  | none =>
    let (extension, c) := c.readWords o.words
    (.ok (o.text c.address extension), c)

end Operand
end M68k
