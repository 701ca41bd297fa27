import M68k.Word

/-!
Operand sizes and the two fields that encode them. The code that stands for no size
stays a value of its own, so that reading a field never fails.
-/
namespace M68k

/-- An operand size; `reserved` is what the unused codes stand for. -/
inductive Size where
  | byte
  | word
  | long
  | reserved
deriving DecidableEq, Repr

namespace Size

/-- The size for a code; all codes outside 0, 1 and 2 are reserved. -/
def ofCode (code : Int) : Size :=
  if code = 0 then .byte else
  if code = 1 then .word else
  if code = 2 then .long else .reserved

/-- The code of a size in the usual two-bit field. -/
def code : Size → Nat
  | .byte => 0
  | .word => 1
  | .long => 2
  | .reserved => 3

/-- Whether operands can have the size. -/
def isValid : Size → Bool
  | .reserved => false
  | _ => true

/-- The letter after a mnemonic. -/
def letter? : Size → Option Char
  | .byte => some 'B'
  | .word => some 'W'
  | .long => some 'L'
  | .reserved => none

/-- The name of a size: its letter, or a question mark. -/
def name (s : Size) : String := (s.letter?.getD '?').toString

/-- The number of words that immediate data of the size occupies. -/
def immediateWords : Size → Nat
  | .long => 2
  | _ => 1

/-- The size in bits 7-6, the field of most instructions. -/
def ofField (w : Word) : Size := ofCode (w.field 6 2)

/-- The size in bits 13-12, where moves write 1 for byte, 3 for word and 2 for long. -/
def ofMoveField (w : Word) : Size :=
  match w.field 12 2 with
  | 1 => .byte
  | 2 => .long
  | 3 => .word
  | _ => .reserved

/-- The size that a single bit chooses: word when clear, long when set. -/
def ofBit (w : Word) (i : Nat) : Size := if w.bit i then .long else .word

end Size
end M68k
