import M68k.Form

/-!
One attempt to read an instruction, and the text it gives.
-/
namespace M68k

/-- A decoded instruction, or a word that no form accepts. -/
structure Instruction where
  address : Address := 0
  /-- The instruction word. -/
  op : Word := 0
  form : Option Form := none
  mnemonic : String := ""
  operands : String := ""
  /-- The number of bytes read, extension words included. -/
  size : UInt32 := 0
  valid : Bool := false
deriving DecidableEq, Repr

namespace Instruction

/-- The line of text for an instruction: the mnemonic in eight columns, a blank and the
    operands. A word that is no instruction gives question marks. -/
def text (i : Instruction) : String :=
  if i.valid then Text.padRight 8 i.mnemonic ++ " " ++ i.operands ++ "\n" else "???\n"

end Instruction
end M68k
