import M68k.Operand
import M68k.RegisterList
import M68k.Style

/-!
Operand fields as rows of pieces. The instruction word fixes the pieces; each piece
takes a fixed number of extension words and turns them into text.
-/
namespace M68k

open Text (hex decimal signed)

/-- A part of an operand field. -/
inductive Piece where
  /-- Text that the instruction word determines. -/
  | text (s : String)
  /-- An effective address. -/
  | operand (o : Operand)
  /-- Immediate data in front of an effective address. -/
  | immediate (size : Size)
  /-- The number of a bit, of which the mask says what counts. -/
  | bitNumber (mask : Word)
  /-- A target at a distance that the instruction word holds. -/
  | nearTarget (distance : Int)
  /-- A target at a distance held by an extension word. -/
  | target
  /-- The size of a stack frame. -/
  | frameSize
  /-- The offset of a peripheral's register. -/
  | offset
  /-- A list of registers to store; `backwards` if the mask has A7 in bit 0. -/
  | store (backwards : Bool)
  /-- A list of registers to load, behind the address they come from. -/
  | load (source : Operand) (style : Style)
deriving DecidableEq, Repr

namespace Piece

/-- The number of extension words. -/
def words : Piece → Nat
  | .text _ | .nearTarget _ => 0
  | .operand o => o.words
  | .immediate size => size.immediateWords
  | .bitNumber _ | .target | .frameSize | .offset | .store _ => 1
  | .load source _ => 1 + source.words

/-- The reason why a piece cannot be written, if there is one. -/
def fault? : Piece → Option OperandError
  | .operand o | .load o _ => o.fault?
  | .immediate .reserved => some .invalidSize
  | _ => none

/-- The registers to load, behind a comma. The classic style ends a list with a blank. -/
def loadList (style : Style) (entries : List String) : String :=
  match entries, style with
  | [], _ | _, .corrected => "," ++ ",".intercalate entries
  | _, .classic => "," ++ ",".intercalate entries ++ " "

/-- The text of a piece from its extension words; `after` is the address behind them. -/
def render (p : Piece) (after : Address) (extension : List Word) : String :=
  let first : Word := extension.getD 0 0
  let second : Word := extension.getD 1 0
  match p with
  | .text s => s
  | .operand o => o.text after extension
  | .immediate size => size.immediateText .upper first second
  | .bitNumber mask => "#" ++ decimal (first &&& mask).toNat
  | .nearTarget distance => "$" ++ hex .lower 8 (after.offset distance).toNat
  | .target => first.relativeTarget after
  | .frameSize => "#" ++ signed first.signed
  | .offset => "$" ++ hex .upper 4 first.toNat
  | .store backwards =>
    let mask := if backwards then first.reversed else first
    String.join ((RegisterList.entries mask).map (· ++ ","))
  | .load source style =>
    source.text after extension.tail ++ loadList style (RegisterList.entries first)

/-- Reads a piece's extension words and writes its text. Nothing is read when the
    piece has a fault. -/
def read (p : Piece) (c : Cursor) : Except OperandError String × Cursor :=
  match p.fault? with
  | some fault => (.error fault, c)
  | none =>
    let (extension, c) := c.readWords p.words
    (.ok (p.render c.address extension), c)

end Piece

/-- An operand field that has been read: its text, the first fault met on the way, and
    the place behind it. -/
structure Reading where
  text : String
  fault : Option OperandError
  cursor : Cursor
deriving DecidableEq, Repr

/-- Reads a row of pieces. A faulty piece adds no text and the rest is still read. -/
def Reading.ofPieces : List Piece → Cursor → Reading
  | [], c => { text := "", fault := none, cursor := c }
  | p :: pieces, c =>
    let (result, c) := p.read c
    let rest := ofPieces pieces c
    match result with
    | .ok text => { rest with text := text ++ rest.text }
    | .error fault => { rest with fault := some fault }

end M68k
