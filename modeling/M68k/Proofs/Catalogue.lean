import Mathlib
import M68k.Proofs.Fields
import M68k.Proofs.Length

/-!
Does the order of the catalogue matter? Many bit patterns overlap, and what keeps their
forms apart are the filters on sizes and modes. A filter is said here as holes: patterns
whose words the family never accepts. Two forms are apart when their patterns contradict
each other or when what they share lies in a hole of one of them; that is a finite check
over pairs of forms, not over words.

In the corrected style all forms are apart, so any order gives the same reading. In the
classic style only the register forms hidden behind the general ones are not.
-/
namespace M68k

/-- A bit pattern: a word has it if it agrees with `value` in the bits of `mask`. -/
structure Pattern where
  mask : Word
  value : Word
deriving DecidableEq, Repr

namespace Pattern

/-- A word has a pattern. -/
def Holds (p : Pattern) (w : Word) : Prop := w &&& p.mask = p.value

/-- The words that have both patterns, if they do not contradict each other. -/
def meet (p q : Pattern) : Pattern := ⟨p.mask ||| q.mask, p.value ||| q.value⟩

/-- Two patterns fix some bit in different ways. -/
def Conflicts (p q : Pattern) : Prop := p.value &&& q.mask ≠ q.value &&& p.mask

/-- Every bit that `q` fixes is fixed by `p` in the same way. -/
def Refines (p q : Pattern) : Prop := p.mask &&& q.mask = q.mask ∧ p.value &&& q.mask = q.value

instance (p q : Pattern) : Decidable (p.Conflicts q) := inferInstanceAs (Decidable (_ ≠ _))
instance (p q : Pattern) : Decidable (p.Refines q) := inferInstanceAs (Decidable (_ ∧ _))

variable {p q : Pattern} {w : Word}

theorem Holds.meet (left : p.Holds w) (right : q.Holds w) : (p.meet q).Holds w := by
  have parts : w &&& (p.mask ||| q.mask) = (w &&& p.mask) ||| (w &&& q.mask) :=
    UInt16.toBitVec_inj.mp BitVec.and_or_distrib_left
  unfold Holds at left right ⊢
  rw [left, right] at parts
  exact parts

theorem Holds.of_refines (holds : p.Holds w) (refines : p.Refines q) : q.Holds w := by
  unfold Holds at holds ⊢
  rw [← refines.2, ← holds, UInt16.and_assoc, refines.1]

theorem Holds.not_conflicts (left : p.Holds w) (right : q.Holds w) : ¬ p.Conflicts q := by
  unfold Holds at left right
  intro conflict
  apply conflict
  rw [← left, ← right, UInt16.and_assoc, UInt16.and_assoc, UInt16.and_comm p.mask]

/-- A field whose bits the pattern fixes all has the value of the pattern. -/
theorem Holds.field_eq (holds : p.Holds w) (low width : Nat)
    (full : p.mask.field low width = 2 ^ width - 1) : w.field low width = p.value.field low width := by
  have masked := Word.field_and w p.mask low width
  unfold Holds at holds
  rw [holds, full, Nat.and_two_pow_sub_one_of_lt_two_pow (w.field_lt low width)] at masked
  exact masked.symm

end Pattern

namespace Encoding

/-- Bits 7-6 hold no size. -/
def noSize : Pattern := ⟨0x00C0, 0x00C0⟩
/-- Bits 13-12 hold no size of a move. -/
def noMoveSize : Pattern := ⟨0x3000, 0x0000⟩
/-- The mode in bits 5-3 is a data register. -/
def dataMode : Pattern := ⟨0x0038, 0x0000⟩
/-- The mode in bits 5-3 is an address register. -/
def addressMode : Pattern := ⟨0x0038, 0x0008⟩
/-- The destination of a move is an address register. -/
def addressDestination : Pattern := ⟨0x01C0, 0x0040⟩
/-- The result goes to the effective address, which is a register of either class. -/
def toRegister : Pattern := ⟨0x0130, 0x0100⟩
/-- The result goes to the effective address, which is an address register. -/
def toAddressRegister : Pattern := ⟨0x0138, 0x0108⟩

/-- Patterns whose words a family never accepts. -/
def holes : Encoding → Style → List Pattern
  | .dyadic .exclusive, .corrected => [noSize, toAddressRegister]
  | .dyadic _, .corrected => [noSize, toRegister]
  | .dyadic _, .classic | .immediate _, _ | .quick, _ | .extended, _ | .memoryCompare, _
  | .shiftRegister, _ | .compare, _ | .unary, _ | .test, _ => [noSize]
  | .setByCondition, _ | .bitByRegister _, _ | .bitByNumber _, _ => [addressMode]
  | .control, _ | .moveMultiple, _ => [dataMode]
  | .exchange, _ => [⟨0x00C0, 0x0000⟩, noSize]
  | .move, _ => [noMoveSize, addressDestination]
  | .moveAddress, _ => [noMoveSize]
  | _, _ => []

/-- A pattern that every accepted word of a family has. The codes of an exchange leave
    bits 5-4 clear. -/
def core : Encoding → Pattern
  | .exchange => ⟨0x0030, 0x0000⟩
  | _ => ⟨0, 0⟩

variable {w : Word}

theorem size_of_noSize (hole : noSize.Holds w) : Size.ofField w = .reserved :=
  Size.ofField_eq_reserved (hole.field_eq 6 2 rfl)

theorem size_of_noMoveSize (hole : noMoveSize.Holds w) : Size.ofMoveField w = .reserved :=
  Size.ofMoveField_eq_reserved (hole.field_eq 12 2 rfl)

theorem mode_of_dataMode (hole : dataMode.Holds w) : Mode.ofField w = .dataRegister :=
  Mode.ofField_eq_dataRegister (hole.field_eq 3 3 rfl)

theorem mode_of_addressMode (hole : addressMode.Holds w) : Mode.ofField w = .addressRegister :=
  Mode.ofField_eq_addressRegister (hole.field_eq 3 3 rfl)

theorem mode_of_addressDestination (hole : addressDestination.Holds w) :
    Mode.ofField w.destinationField = .addressRegister :=
  Mode.ofField_eq_addressRegister (w.destinationField_mode.trans (hole.field_eq 6 3 rfl))

theorem mode_of_toAddressRegister (hole : toAddressRegister.Holds w) :
    w.bit 8 = true ∧ Mode.ofField w = .addressRegister := by
  refine ⟨?_, Mode.ofField_eq_addressRegister (hole.field_eq 3 3 rfl)⟩
  rw [Word.bit_eq_field, hole.field_eq 8 1 rfl]
  rfl

theorem mode_of_toRegister (hole : toRegister.Holds w) :
    w.bit 8 = true ∧ (Mode.ofField w = .dataRegister ∨ Mode.ofField w = .addressRegister) := by
  have direct : w.field 3 3 = w.field 3 1 + 2 * w.field 4 2 := w.field_add 3 1 2
  have upper : w.field 4 2 = 0 := hole.field_eq 4 2 rfl
  have lower := w.field_lt 3 1
  constructor
  · rw [Word.bit_eq_field, hole.field_eq 8 1 rfl]
    rfl
  · rcases Nat.lt_or_ge (w.field 3 1) 1 with clear | set
    · exact .inl (Mode.ofField_eq_dataRegister (by omega))
    · exact .inr (Mode.ofField_eq_addressRegister (by omega))

/-- The codes of an exchange have a one in one of bits 7-6 and zeros in bits 5-4. -/
theorem fields_of_exchange {style : Style} (accepted : accepts .exchange style w = true) :
    (w.field 6 2 = 1 ∨ w.field 6 2 = 2) ∧ w.field 4 2 = 0 := by
  have outer : w.field 3 5 = w.field 3 3 + 8 * w.field 6 2 := w.field_add 3 3 2
  have inner : w.field 3 3 = w.field 3 1 + 2 * w.field 4 2 := w.field_add 3 1 2
  have register := w.field_lt 3 1
  have mode := w.field_lt 3 3
  simp only [accepts, isExchange, Bool.or_eq_true, decide_eq_true_eq] at accepted
  omega

/-- No family accepts a word in one of its holes. -/
theorem not_holds_of_accepts {e : Encoding} {style : Style} (accepted : e.accepts style w = true) :
    ∀ hole ∈ e.holes style, ¬ hole.Holds w := by
  have size := size_isValid accepted
  have sized (reads : e.size w = Size.ofField w) : ¬ noSize.Holds w := by
    intro hole
    rw [reads, size_of_noSize hole] at size
    cases size
  have moved (reads : e.size w = Size.ofMoveField w) : ¬ noMoveSize.Holds w := by
    intro hole
    rw [reads, size_of_noMoveSize hole] at size
    cases size
  cases e with
  | dyadic kind =>
    have general := sized rfl
    cases style with
    | classic => simpa [holes] using general
    | corrected =>
      simp only [accepts, acceptsDyadic, Bool.and_eq_true] at accepted
      have registers := accepted.2
      cases kind with
      | exclusive =>
        simp only [holes, List.forall_mem_cons]
        refine ⟨general, ?_, by simp⟩
        intro hole
        obtain ⟨bit, mode⟩ := mode_of_toAddressRegister hole
        simp [bit, mode] at registers
      | arithmetic | logical =>
        simp only [holes, List.forall_mem_cons]
        refine ⟨general, ?_, by simp⟩
        intro hole
        obtain ⟨bit, mode | mode⟩ := mode_of_toRegister hole
        · simp [bit, mode] at registers
        · simp [bit, mode] at registers
  | immediate | quick | extended | memoryCompare | shiftRegister | compare | unary | test =>
    simp only [holes, List.forall_mem_singleton]
    exact sized rfl
  | setByCondition | bitByRegister readOnly | bitByNumber readOnly =>
    simp only [holes, List.forall_mem_singleton]
    intro hole
    simp [accepts, mode_of_addressMode hole, Mode.isData] at accepted
  | control | moveMultiple =>
    simp only [holes, List.forall_mem_singleton]
    intro hole
    simp [accepts, acceptsMultiple, mode_of_dataMode hole, Mode.isControl, Mode.isMemory] at accepted
  | exchange =>
    obtain ⟨size, _⟩ := fields_of_exchange accepted
    simp only [holes, List.forall_mem_cons]
    refine ⟨?_, ?_, by simp⟩
    · intro hole
      have empty : w.field 6 2 = 0 := hole.field_eq 6 2 rfl
      omega
    · intro hole
      have full : w.field 6 2 = 3 := hole.field_eq 6 2 rfl
      omega
  | move =>
    simp only [holes, List.forall_mem_cons]
    refine ⟨moved rfl, ?_, by simp⟩
    intro hole
    simp [accepts, mode_of_addressDestination hole, Mode.isData] at accepted
  | moveAddress =>
    simp only [holes, List.forall_mem_singleton]
    exact moved rfl
  | _ => simp [holes]

/-- Every accepted word has the core of its family. -/
theorem core_of_accepts {e : Encoding} {style : Style} (accepted : e.accepts style w = true) :
    e.core.Holds w := by
  cases e with
  | exchange =>
    obtain ⟨_, clear⟩ := fields_of_exchange accepted
    have masked := w.toNat_and_mask 0x0030 4 2 rfl
    rw [clear] at masked
    exact UInt16.toNat_inj.mp masked
  | _ => exact UInt16.and_zero

end Encoding

namespace Form

/-- The bits that every word read as the form has. -/
def pattern (f : Form) : Pattern := Pattern.meet ⟨f.entry.mask, f.entry.value⟩ f.entry.encoding.core

/-- Patterns whose words are never read as the form. -/
def holes (f : Form) (style : Style) : List Pattern := f.entry.encoding.holes style

/-- A word that a form takes: it has the form's bit pattern and its fields make sense. -/
def Takes (f : Form) (style : Style) (w : Word) : Prop := f.fits w = true ∧ f.accepts style w = true

theorem Takes.pattern {f : Form} {style : Style} {w : Word} (takes : f.Takes style w) :
    f.pattern.Holds w := by
  have fits : w &&& f.entry.mask = f.entry.value := of_decide_eq_true takes.1
  have fits : Pattern.Holds ⟨f.entry.mask, f.entry.value⟩ w := fits
  exact fits.meet (Encoding.core_of_accepts takes.2)

theorem Takes.not_hole {f : Form} {style : Style} {w : Word} (takes : f.Takes style w) :
    ∀ hole ∈ f.holes style, ¬ hole.Holds w :=
  Encoding.not_holds_of_accepts takes.2

/-- Two forms share no word, one of them read in the style `s` and the other in `t`: their
    patterns contradict each other, or what both allow lies in a hole of one of them. -/
def Apart (s t : Style) (f g : Form) : Prop :=
  f.pattern.Conflicts g.pattern ∨
    ∃ hole ∈ f.holes s ++ g.holes t, (f.pattern.meet g.pattern).Refines hole

instance (s t : Style) (f g : Form) : Decidable (Apart s t f g) :=
  inferInstanceAs (Decidable (_ ∨ _))

theorem Apart.not_takes {s t : Style} {f g : Form} (apart : Apart s t f g) {w : Word}
    (left : f.Takes s w) : ¬ g.Takes t w := by
  intro right
  rcases apart with conflict | ⟨hole, member, refines⟩
  · exact left.pattern.not_conflicts right.pattern conflict
  · have inside : hole.Holds w := (left.pattern.meet right.pattern).of_refines refines
    rcases List.mem_append.mp member with mine | other
    · exact left.not_hole hole mine inside
    · exact right.not_hole hole other inside

theorem apart_corrected : all.Pairwise (Apart .corrected .corrected) := by
  decide +kernel

/-- The register forms that the classic style hides: the result goes to a register of either
    class, on the lines of OR, SUB, EOR, AND and ADD. -/
def shadows : List Pattern :=
  [⟨0xF130, 0x8100⟩, ⟨0xF130, 0x9100⟩, ⟨0xF130, 0xB100⟩, ⟨0xF130, 0xC100⟩, ⟨0xF130, 0xD100⟩]

theorem apart_classic : all.Pairwise (fun f g => Apart .classic .classic f g ∨
    ∃ shadow ∈ shadows, (f.pattern.meet g.pattern).Refines shadow) := by
  decide +kernel

theorem mem_all (f : Form) : f ∈ all := by
  cases f <;> decide

/-- In the corrected style no two forms take the same word. -/
theorem takes_unique {w : Word} {f g : Form} (left : f.Takes .corrected w)
    (right : g.Takes .corrected w) : f = g := by
  by_contra different
  have disjoint : all.Pairwise (fun f g => ¬ (f.Takes .corrected w ∧ g.Takes .corrected w)) :=
    apart_corrected.imp (fun apart both => apart.not_takes both.1 both.2)
  have symmetric : Std.Symm (fun f g : Form => ¬ (f.Takes .corrected w ∧ g.Takes .corrected w)) :=
    ⟨fun _ _ no both => no both.symm⟩
  exact disjoint.forall (mem_all f) (mem_all g) different ⟨left, right⟩

/-- In the classic style two forms take the same word only in the shadow of a general one. -/
theorem shadow_of_takes {w : Word} {f g : Form} (different : f ≠ g) (left : f.Takes .classic w)
    (right : g.Takes .classic w) : ∃ shadow ∈ shadows, shadow.Holds w := by
  have shared : all.Pairwise (fun f g => f.Takes .classic w ∧ g.Takes .classic w →
      ∃ shadow ∈ shadows, shadow.Holds w) := by
    refine apart_classic.imp ?_
    rintro f g (apart | ⟨shadow, member, refines⟩) ⟨left, right⟩
    · exact absurd right (apart.not_takes left)
    · exact ⟨shadow, member, (left.pattern.meet right.pattern).of_refines refines⟩
  have symmetric : Std.Symm (fun f g : Form => f.Takes .classic w ∧ g.Takes .classic w →
      ∃ shadow ∈ shadows, shadow.Holds w) := ⟨fun _ _ found both => found both.symm⟩
  exact shared.forall (mem_all f) (mem_all g) different ⟨left, right⟩

theorem fields_of_shadow {w : Word} {shadow : Pattern} (member : shadow ∈ shadows)
    (holds : shadow.Holds w) :
    w.bit 8 = true ∧ w.field 4 2 = 0 ∧ w.field 12 4 ∈ [0x8, 0x9, 0xB, 0xC, 0xD] := by
  rw [Word.bit_eq_field]
  simp only [shadows, List.mem_cons, List.not_mem_nil, or_false] at member
  rcases member with rfl | rfl | rfl | rfl | rfl
  all_goals
    rw [holds.field_eq 8 1 rfl, holds.field_eq 4 2 rfl, holds.field_eq 12 4 rfl]
    decide

/-! ## Reading with the forms in any order -/

theorem takes_of_handles {f : Form} {style : Style} {w : Word} {c : Cursor} (fits : f.fits w = true)
    (handled : f.Handles style w c) : f.Takes style w :=
  ⟨fits, handles_iff.mp handled⟩

theorem select?_eq_find? (style : Style) (w : Word) :
    select? style w = all.find? (fun f => f.fits w && f.accepts style w) := by
  simp [select?, matching, List.find?_filter]

/-- In the corrected style the forms select the same in any order. -/
theorem find?_of_perm {order : List Form} (perm : order.Perm all) (w : Word) :
    (order.filter (·.fits w)).find? (·.accepts .corrected w) = select? .corrected w := by
  have single : {f ∈ order | (f.fits w && f.accepts .corrected w) = true}.Subsingleton := by
    rintro f ⟨_, left⟩ g ⟨_, right⟩
    exact takes_unique (Bool.and_eq_true_iff.mp left) (Bool.and_eq_true_iff.mp right)
  rw [select?_eq_find?, ← List.find?_eq_find?_of_perm perm single]
  simp [List.find?_filter]

end Form

/-- In the corrected style at most one form has a word's bits and a handler that takes it, whatever
    follows the word, so that the forms can be tried in any order. In the classic style there can be
    two only if the result goes to a register, by bits 8 and 5-4, on the lines 8, 9, B, C and D. -/
theorem Decoder.order_free :
    (∀ (w : Word) (c : Cursor) (f g : Form), f.fits w = true → f.Handles .corrected w c →
      g.fits w = true → g.Handles .corrected w c → f = g) ∧
    (∀ (d : Decoder) (asks : Event → Bool) (order : List Form) (c : Cursor) (before : List Event),
      d.style = .corrected → order.Perm Form.all →
        ∃ entries, (Scanning.instruction d asks order).run ⟨c, before⟩ =
          .ok (d.decode c).instruction ⟨(d.decode c).cursor, before ++ entries⟩) ∧
    ∀ (w : Word) (c : Cursor) (f g : Form), f ≠ g → f.fits w = true → f.Handles .classic w c →
      g.fits w = true → g.Handles .classic w c →
        w.bit 8 = true ∧ w.field 4 2 = 0 ∧ w.field 12 4 ∈ [0x8, 0x9, 0xB, 0xC, 0xD] := by
  refine ⟨?_, ?_, ?_⟩
  · intro w c f g fits handled fits' handled'
    exact Form.takes_unique (Form.takes_of_handles fits handled) (Form.takes_of_handles fits' handled')
  · intro d asks order c before corrected perm
    refine ⟨_, Scanning.run_instruction_in ⟨c, before⟩ ?_⟩
    rw [corrected]
    exact Form.find?_of_perm perm _
  · intro w c f g different fits handled fits' handled'
    obtain ⟨shadow, member, holds⟩ := Form.shadow_of_takes different
      (Form.takes_of_handles fits handled) (Form.takes_of_handles fits' handled')
    exact Form.fields_of_shadow member holds

/-- Behind the word D181 the reversed catalogue finds the same instruction, and in the
    classic style both an addition and an extended addition take the word. -/
theorem Decoder.order_free_reversed :
    let d : Decoder := { style := .corrected }
    let c := Cursor.start [0xD1, 0x81] 0
    (∃ entries, (Scanning.instruction d (fun _ => true) Form.all.reverse).run ⟨c, []⟩ =
      .ok (d.decode c).instruction ⟨(d.decode c).cursor, entries⟩) ∧
    Form.add.Handles .classic 0xD181 c.readWord.2 ∧ Form.addx.Handles .classic 0xD181 c.readWord.2 ∧
    Word.bit 0xD181 8 = true := by
  intro d c
  obtain ⟨_, any, shared⟩ := order_free
  have left : Form.add.Handles .classic 0xD181 c.readWord.2 := Form.handles_iff.mpr (by decide)
  have right : Form.addx.Handles .classic 0xD181 c.readWord.2 := Form.handles_iff.mpr (by decide)
  refine ⟨any d (fun _ => true) Form.all.reverse c [] rfl Form.all.reverse_perm, left, right, ?_⟩
  exact (shared 0xD181 c.readWord.2 .add .addx (by decide) (by decide) left (by decide) right).1

end M68k
