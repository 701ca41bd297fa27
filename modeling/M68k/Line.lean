import M68k.Target

/-!
The lines of a program: instructions, and runs of bytes that are none.
-/
namespace M68k

/-- A line of a program. -/
structure Line where
  address : Address := 0
  bytes : List Byte := []
  instruction : Instruction := {}
  /-- Whether the bytes are data. -/
  data : Bool := false
  /-- The name of the line. -/
  label : Option String := none
  /-- The name of the line that the instruction transfers control to. -/
  target : Option String := none
deriving DecidableEq, Repr

namespace Line

/-- The text of a line's instruction, with the name of its target if it has one. -/
def text (l : Line) : String :=
  match l.target with
  | some name =>
    { l.instruction with
      operands := nameShownAddress l.instruction.operands name }.text
  | none => l.instruction.text

end Line
end M68k
