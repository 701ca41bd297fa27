import M68k.Word

/-!
The sixteen conditions of branches, loops and conditional sets.
-/
namespace M68k

/-- A condition on the flags, in encoding order. -/
inductive Condition where
  | always
  | never
  | high
  | lowOrSame
  | carryClear
  | carrySet
  | notEqual
  | equal
  | overflowClear
  | overflowSet
  | plus
  | minus
  | greaterOrEqual
  | less
  | greater
  | lessOrEqual
deriving DecidableEq, Repr

namespace Condition

/-- The condition for a code, of which the low four bits count. -/
def ofCode (code : Nat) : Condition :=
  match code % 16 with
  | 0 => .always
  | 1 => .never
  | 2 => .high
  | 3 => .lowOrSame
  | 4 => .carryClear
  | 5 => .carrySet
  | 6 => .notEqual
  | 7 => .equal
  | 8 => .overflowClear
  | 9 => .overflowSet
  | 10 => .plus
  | 11 => .minus
  | 12 => .greaterOrEqual
  | 13 => .less
  | 14 => .greater
  | _ => .lessOrEqual

/-- The code of a condition. -/
def code : Condition → Nat
  | .always => 0
  | .never => 1
  | .high => 2
  | .lowOrSame => 3
  | .carryClear => 4
  | .carrySet => 5
  | .notEqual => 6
  | .equal => 7
  | .overflowClear => 8
  | .overflowSet => 9
  | .plus => 10
  | .minus => 11
  | .greaterOrEqual => 12
  | .less => 13
  | .greater => 14
  | .lessOrEqual => 15

/-- The letters that a mnemonic carries for the condition. -/
def letters : Condition → String
  | .always => "T"
  | .never => "F"
  | .high => "HI"
  | .lowOrSame => "LS"
  | .carryClear => "CC"
  | .carrySet => "CS"
  | .notEqual => "NE"
  | .equal => "EQ"
  | .overflowClear => "VC"
  | .overflowSet => "VS"
  | .plus => "PL"
  | .minus => "MI"
  | .greaterOrEqual => "GE"
  | .less => "LT"
  | .greater => "GT"
  | .lessOrEqual => "LE"

/-- The condition in bits 11-8. -/
def ofField (w : Word) : Condition := ofCode (w.field 8 4)

/-- The mnemonic of a branch. The branch always taken is `BRA`, and the code of the
    condition that never holds is the call `BSR`. -/
def branchMnemonic : Condition → String
  | .always => "BRA"
  | .never => "BSR"
  | c => "B" ++ c.letters

end Condition
end M68k
