/-!
Numbers as text: hexadecimal digits of a fixed width in either letter case, plain
decimals, and decimals that always carry a sign.
-/
namespace M68k.Text

/-- The letter case of the hexadecimal digits above nine. -/
inductive LetterCase where
  | lower
  | upper
deriving DecidableEq, Repr

/-- The digit for a value below sixteen. -/
def hexDigit (letters : LetterCase) (n : Nat) : Char :=
  if n < 10 then Char.ofNat (48 + n) else
  match letters with
  | .lower => Char.ofNat (87 + n)
  | .upper => Char.ofNat (55 + n)

/-- The last `width` hexadecimal digits of a number, the most significant first. -/
def hexDigits (letters : LetterCase) : (width : Nat) → Nat → List Char
  | 0, _ => []
  | width + 1, n => hexDigits letters width (n / 16) ++ [hexDigit letters (n % 16)]

/-- A number below `16 ^ width` as exactly `width` hexadecimal digits. -/
def hex (letters : LetterCase) (width n : Nat) : String :=
  String.ofList (hexDigits letters width n)

/-- The value of a hexadecimal digit of either case. -/
def hexValue? (c : Char) : Option Nat :=
  if '0' ≤ c ∧ c ≤ '9' then some (c.toNat - 48) else
  if 'a' ≤ c ∧ c ≤ 'f' then some (c.toNat - 87) else
  if 'A' ≤ c ∧ c ≤ 'F' then some (c.toNat - 55) else none

/-- The number that a row of hexadecimal digits spells, the most significant first. -/
def ofHexDigits (digits : List Char) : Nat :=
  digits.foldl (fun n c => 16 * n + (hexValue? c).getD 0) 0

/-- A decimal, with a minus sign below zero. -/
def decimal (n : Int) : String :=
  if n < 0 then "-" ++ Nat.repr n.natAbs else Nat.repr n.natAbs

/-- A decimal with a sign in every case; zero is positive. -/
def signed (n : Int) : String :=
  if n < 0 then "-" ++ Nat.repr n.natAbs else "+" ++ Nat.repr n.natAbs

/-- Text filled with blanks on the right up to a width in code points. Longer text
    is left as it is. -/
def padRight (width : Nat) (s : String) : String :=
  s ++ String.ofList (List.replicate (width - s.length) ' ')

end M68k.Text
