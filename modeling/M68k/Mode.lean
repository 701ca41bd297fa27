import M68k.Size

/-!
Addressing modes, the six-bit field that encodes them, and the classes of modes by
which instructions choose what they accept.
-/
namespace M68k

/-- An effective addressing mode; `invalid` keeps a code that names none. -/
inductive Mode where
  | dataRegister
  | addressRegister
  | indirect
  | postincrement
  | predecrement
  | displacement
  | index
  | absoluteShort
  | absoluteLong
  | pcDisplacement
  | pcIndex
  | immediate
  | invalid (code : Int)
deriving DecidableEq, Repr

namespace Mode

/-- The mode for a code: 0 to 11 in the order of the encoding. -/
def ofCode : Int → Mode
  | 0 => .dataRegister
  | 1 => .addressRegister
  | 2 => .indirect
  | 3 => .postincrement
  | 4 => .predecrement
  | 5 => .displacement
  | 6 => .index
  | 7 => .absoluteShort
  | 8 => .absoluteLong
  | 9 => .pcDisplacement
  | 10 => .pcIndex
  | 11 => .immediate
  | code => .invalid code

/-- The code of a mode. -/
def code : Mode → Int
  | .dataRegister => 0
  | .addressRegister => 1
  | .indirect => 2
  | .postincrement => 3
  | .predecrement => 4
  | .displacement => 5
  | .index => 6
  | .absoluteShort => 7
  | .absoluteLong => 8
  | .pcDisplacement => 9
  | .pcIndex => 10
  | .immediate => 11
  | .invalid code => code

/-- The usual way to write operands of a mode. -/
def name : Mode → String
  | .dataRegister => "Dn"
  | .addressRegister => "An"
  | .indirect => "(An)"
  | .postincrement => "(An)+"
  | .predecrement => "-(An)"
  | .displacement => "d16(An)"
  | .index => "d8(An,Xn)"
  | .absoluteShort => "abs.W"
  | .absoluteLong => "abs.L"
  | .pcDisplacement => "d16(PC)"
  | .pcIndex => "d8(PC,Xn)"
  | .immediate => "#imm"
  | .invalid _ => "invalid"

/-- The mode in bits 5-0. The upper three bits give modes 0 to 6 directly; 7 leaves
    the choice to the register bits, of which 5 to 7 are unused. -/
def ofField (w : Word) : Mode :=
  if w.field 3 3 = 7 then ofCode (min (7 + w.field 0 3) 12) else ofCode (w.field 3 3)

/-- The number of extension words an operand of the mode and size occupies. -/
def extensionWords (m : Mode) (size : Size) : Nat :=
  match m with
  | .displacement | .index | .absoluteShort | .pcDisplacement | .pcIndex => 1
  | .absoluteLong => 2
  | .immediate => size.immediateWords
  | _ => 0

/-! ## Classes of modes -/

/-- Every mode but the unused codes. -/
def isValid : Mode → Bool
  | .invalid _ => false
  | _ => true

/-- Data operands: everything but an address register. -/
def isData (m : Mode) : Bool := m.isValid && m != .addressRegister

/-- Memory operands: everything but the registers. -/
def isMemory (m : Mode) : Bool := m.isData && m != .dataRegister

/-- Operands that can be written: neither relative to the program counter nor immediate. -/
def isAlterable : Mode → Bool
  | .pcDisplacement | .pcIndex | .immediate | .invalid _ => false
  | _ => true

/-- Operands that name a place in memory without a side effect. -/
def isControl : Mode → Bool
  | .indirect | .displacement | .index | .absoluteShort | .absoluteLong
  | .pcDisplacement | .pcIndex => true
  | _ => false

end Mode
end M68k
