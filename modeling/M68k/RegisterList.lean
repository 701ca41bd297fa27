import M68k.Text.Number
import M68k.Word

/-!
The registers that a mask names, written as single registers and ranges.
-/
namespace M68k.RegisterList

/-- Consecutive registers of one class, by number. -/
structure Run where
  first : Nat
  last : Nat
deriving DecidableEq, Repr

/-- Puts a number in front of runs that lie above it, joining it to the first of them
    if that one follows directly. -/
def extend (n : Nat) : List Run → List Run
  | [] => [⟨n, n⟩]
  | run :: rest => if n + 1 = run.first then ⟨n, run.last⟩ :: rest else ⟨n, n⟩ :: run :: rest

/-- The maximal runs in a row of ascending numbers. -/
def runs (numbers : List Nat) : List Run := numbers.foldr extend []

/-- The entries for a run: one or two registers stand alone, more make a range. -/
def Run.entries (register : String) (run : Run) : List String :=
  let first := register ++ Text.decimal run.first
  let last := register ++ Text.decimal run.last
  if run.last = run.first then [first] else
  if run.last = run.first + 1 then [first, last] else [first ++ "-" ++ last]

/-- The numbers of the eight registers whose bits from `low` upwards are set. -/
def members (mask : Word) (low : Nat) : List Nat :=
  (List.range 8).filter fun i => mask.bit (low + i)

/-- The entries for a mask, bit 0 being D0 and bit 15 A7: data registers first, each
    class in ascending order. -/
def entries (mask : Word) : List String :=
  (runs (members mask 0)).flatMap (Run.entries "D") ++
    (runs (members mask 8)).flatMap (Run.entries "A")

end M68k.RegisterList
