import Mathlib
import M68k.Decoder

/-!
What acceptance promises. The families of encodings filter modes and sizes in their own
ways, but whatever they accept can be written down: no piece of an accepted operand field
has a fault (`Form.operands_sound`).
-/
namespace M68k

namespace Mode

theorem isValid_of_isData {m : Mode} (data : m.isData = true) : m.isValid = true := by
  cases m with
  | invalid code => simp [isData, isValid] at data
  | _ => rfl

theorem isValid_of_isAlterable {m : Mode} (alterable : m.isAlterable = true) : m.isValid = true := by
  cases m with
  | invalid code => simp [isAlterable] at alterable
  | _ => rfl

theorem isValid_of_isControl {m : Mode} (control : m.isControl = true) : m.isValid = true := by
  cases m with
  | invalid code => simp [isControl] at control
  | _ => rfl

end Mode

theorem Size.isValid_ofBit (w : Word) (i : Nat) : (Size.ofBit w i).isValid = true := by
  unfold Size.ofBit
  split <;> rfl

/-- An operand of a real mode and a real size can be written. -/
theorem Operand.fault?_eq_none {o : Operand} (mode : o.mode.isValid = true)
    (size : o.size.isValid = true) : o.fault? = none := by
  obtain ⟨m, register, s⟩ := o
  cases m with
  | invalid code => simp [Mode.isValid] at mode
  | immediate =>
    cases s with
    | reserved => simp [Size.isValid] at size
    | _ => rfl
  | _ => rfl

theorem Piece.fault?_immediate {size : Size} (valid : size.isValid = true) :
    (Piece.immediate size).fault? = none := by
  cases size with
  | reserved => simp [Size.isValid] at valid
  | _ => rfl

namespace Encoding

/-- Whatever a family accepts has a real operand size. -/
theorem size_isValid {e : Encoding} {style : Style} {w : Word} (accepted : e.accepts style w = true) :
    (e.size w).isValid = true := by
  cases e with
  | dyadic kind =>
    simp only [accepts, acceptsDyadic, Bool.and_eq_true] at accepted
    exact accepted.1.1.1.1.1
  | immediate | quick | extended | memoryCompare | shiftRegister | compare | unary | test | move =>
    simp only [accepts, Bool.and_eq_true] at accepted
    simp [accepted]
  | moveAddress =>
    simp only [accepts, Bool.and_eq_true, Bool.or_eq_true, decide_eq_true_eq] at accepted
    rcases accepted.1 with word | long
    · rw [word]; rfl
    · rw [long]; rfl
  | addressArithmetic | addressCompare | extend | moveMultiple | movePeripheral =>
    exact Size.isValid_ofBit ..
  | _ => rfl

/-- Whatever a family accepts can be written down. -/
theorem operands_sound {e : Encoding} {style : Style} {w : Word} (accepted : e.accepts style w = true) :
    ∀ p ∈ e.operands style w, p.fault? = none := by
  have size := size_isValid accepted
  -- With the size settled, a family only has to keep out the unused modes.
  have address (mode : (Mode.ofField w).isValid = true) :
      (Operand.ofField w (e.size w)).fault? = none := Operand.fault?_eq_none mode size
  cases e with
  | dyadic kind =>
    simp only [accepts, acceptsDyadic, Bool.and_eq_true] at accepted
    have sound := address accepted.1.1.1.1.2
    simp only [operands]
    split <;> simp [Piece.fault?, sound]
  | addressArithmetic | addressCompare =>
    simp [operands, Piece.fault?, address accepted]
  | compare | moveAddress =>
    simp only [accepts, Bool.and_eq_true] at accepted
    simp [operands, Piece.fault?, address accepted.2]
  | quick =>
    simp only [accepts, Bool.and_eq_true] at accepted
    simp [operands, Piece.fault?, address (Mode.isValid_of_isAlterable accepted.1.2)]
  | unary | test | shiftMemory | setByCondition | testAndSet | moveFromStatus =>
    simp only [accepts, Bool.and_eq_true] at accepted
    simp [operands, Piece.fault?, address (Mode.isValid_of_isAlterable accepted.2)]
  | control | loadAddress => simp [operands, Piece.fault?, address (Mode.isValid_of_isControl accepted)]
  | wordToRegister | moveToStatus register =>
    simp [operands, Piece.fault?, address (Mode.isValid_of_isData accepted)]
  | bitByRegister | bitByNumber =>
    simp only [accepts, Bool.and_eq_true] at accepted
    simp [operands, Piece.fault?, address (Mode.isValid_of_isData accepted.1)]
  | immediate status =>
    simp only [accepts, Bool.and_eq_true, Bool.or_eq_true] at accepted
    have value := Piece.fault?_immediate size
    simp only [operands]
    split
    · simp only [List.forall_mem_cons]
      exact ⟨value, rfl, rfl, by simp⟩
    · rename_i other
      rcases accepted.2 with ⟨_, alterable⟩ | ⟨_, status⟩
      · simp only [List.forall_mem_cons]
        exact ⟨value, rfl, address (Mode.isValid_of_isAlterable alterable), by simp⟩
      · exact absurd (of_decide_eq_true status) other
  | move =>
    simp only [accepts, Bool.and_eq_true] at accepted
    obtain ⟨⟨⟨_, source⟩, _⟩, destination⟩ := accepted
    have target : (Operand.ofField w.destinationField (Encoding.size .move w)).fault? = none :=
      Operand.fault?_eq_none (Mode.isValid_of_isAlterable destination) size
    simp [operands, Piece.fault?, address source, target]
  | moveMultiple =>
    simp only [accepts, acceptsMultiple, Mode.isMemory, Bool.and_eq_true] at accepted
    have sound := address (Mode.isValid_of_isData accepted.1.1.1.1)
    simp only [operands]
    split <;> simp [Piece.fault?, sound]
  | branch | movePeripheral | stop =>
    simp only [operands]
    split <;> simp [Piece.fault?]
  | _ => simp [operands, Piece.fault?]

end Encoding

theorem Form.operands_sound {f : Form} {style : Style} {w : Word}
    (accepted : f.accepts style w = true) : ∀ p ∈ f.operands style w, p.fault? = none :=
  Encoding.operands_sound accepted

theorem Form.accepts_of_select? {style : Style} {w : Word} {f : Form} (found : select? style w = some f) :
    f.accepts style w = true := by
  have accepted := List.find?_some found
  exact accepted

end M68k
