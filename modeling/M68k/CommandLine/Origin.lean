import M68k.Text.Number
import M68k.Word

/-!
Load addresses as text. A number is decimal unless it starts with `0x`, `0b`, `0o` or
the octal `0`; an underscore may stand between two digits or behind the start.
-/
namespace M68k.CommandLine

/-- Why a text is no load address. -/
inductive OriginError where
  | malformed
  | outOfRange
deriving DecidableEq, Repr

/-- The wording of an error. -/
def OriginError.message : OriginError → String
  | .malformed => "invalid syntax"
  | .outOfRange => "value out of range"

namespace Origin

/-- A number taken apart: its base, whether a start that counts as a digit was removed,
    and the characters left. -/
structure Numeral where
  base : Nat
  started : Bool
  characters : List Char
deriving DecidableEq, Repr

/-- Takes a number apart. A start with a letter needs something behind it. -/
def numeral : List Char → Numeral
  | '0' :: letter :: c :: rest =>
    match letter.toLower with
    | 'b' => ⟨2, true, c :: rest⟩
    | 'o' => ⟨8, true, c :: rest⟩
    | 'x' => ⟨16, true, c :: rest⟩
    | _ => ⟨8, true, letter :: c :: rest⟩
  | '0' :: rest => ⟨8, true, rest⟩
  | characters => ⟨10, false, characters⟩

/-- The value of digits behind those that make `n`. The first fault from the left counts:
    a character that is no digit of the base, or a value of more than 32 bits. -/
def value (base : Nat) : Nat → List Char → Except OriginError Nat
  | n, [] => .ok n
  | n, c :: rest =>
    if c = '_' then value base n rest else
    match Text.hexValue? c with
    | none => .error .malformed
    | some digit =>
      if base ≤ digit then .error .malformed else
      if UInt32.size ≤ n * base + digit then .error .outOfRange else
      value base (n * base + digit) rest

/-- Whether every underscore has a digit on both sides; `digit` if one precedes. -/
def separated (digit : Bool) : List Char → Bool
  | [] => true
  | c :: rest =>
    if c = '_' then digit && (rest.head?.any (· != '_')) && separated false rest
    else separated true rest

/-- Reads a load address. -/
def parse (text : String) : Except OriginError Address :=
  if text = "" then .error .malformed else
  let number := numeral text.toList
  match value number.base 0 number.characters with
  | .error fault => .error fault
  | .ok n =>
    if separated number.started number.characters then .ok (UInt32.ofNat n)
    else .error .malformed

end Origin
end M68k.CommandLine
