import M68k.Instruction

/-!
Absolute addresses inside operand text, and the transfers of control they belong to.
An address is the first dollar sign with the hexadecimal digits behind it, unless a
bracket follows and makes it an offset.
-/
namespace M68k

/-- Operand text cut around an absolute address: what precedes the dollar sign, the
    digits behind it, and what follows them. -/
structure ShownAddress where
  before : List Char
  digits : List Char
  after : List Char
deriving DecidableEq, Repr

namespace ShownAddress

/-- Whether a character is a hexadecimal digit. -/
def isDigit (c : Char) : Bool := (Text.hexValue? c).isSome

/-- The first dollar sign of a text and the digits behind it, if they are an address. -/
def find? (text : String) : Option ShownAddress :=
  let before := text.toList.takeWhile (· != '$')
  let found := (text.toList.dropWhile (· != '$')).tail
  let digits := found.takeWhile isDigit
  let after := found.dropWhile isDigit
  if digits = [] ∨ after.head? = some '(' then none else some { before, digits, after }

/-- The address, if it fits into 32 bits. -/
def address? (s : ShownAddress) : Option Address :=
  let n := Text.ofHexDigits s.digits
  if n < UInt32.size then some (UInt32.ofNat n) else none

/-- The text with a name in the place of the address. -/
def replace (s : ShownAddress) (name : String) : String :=
  String.ofList s.before ++ name ++ String.ofList s.after

end ShownAddress

/-- The absolute address in operand text. -/
def shownAddress? (text : String) : Option Address :=
  (ShownAddress.find? text).bind ShownAddress.address?

/-- Operand text with a name in the place of its absolute address. -/
def nameShownAddress (text name : String) : String :=
  match ShownAddress.find? text with
  | some span => span.replace name
  | none => text

/-- How control arrives at a target. -/
inductive Arrival where
  | jump
  | call
deriving DecidableEq, Repr

namespace Instruction

/-- How an instruction transfers control to an operand, if it does. -/
def arrival? (i : Instruction) : Option Arrival :=
  match i.form with
  | some .branch => some (if Condition.ofField i.op = .never then .call else .jump)
  | some .jsr => some .call
  | some .decrementBranch | some .jmp => some .jump
  | _ => none

/-- The target of a transfer of control. Only one that the operand text shows as an
    absolute address is known. -/
def target? (i : Instruction) : Option (Address × Arrival) :=
  i.arrival?.bind fun arrival => (shownAddress? i.operands).map (·, arrival)

/-- Whether control never reaches the next instruction. -/
def endsFlow (i : Instruction) : Bool :=
  match i.form with
  | some .jmp | some .rts | some .rte | some .rtr => true
  | some .branch => Condition.ofField i.op = .always
  | _ => false

end Instruction
end M68k
