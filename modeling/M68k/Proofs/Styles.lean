import Mathlib
import M68k.Proofs.Catalogue

/-!
How the two styles classify words. The corrected style only refuses more, and only in the
dyadic family: results that go to a register, and address registers in logic. What it
refuses falls to a later form of the same line or to none, and since both registers and the
forms made for them need no extension words, the length of an instruction stays the same.

Which forms can share a word across the styles is a finite check over pairs of forms
(`eq_or_hidden`); which of them is tried first settles the rest (`index_le_of_takes`).
-/
namespace M68k

/-- A field of the right value gives the pattern that fixes the bits of the field. -/
theorem Pattern.holds_of_field {w mask value : Word} (low width : Nat)
    (bits : mask.toNat = (2 ^ width - 1) * 2 ^ low)
    (filled : w.field low width * 2 ^ low = value.toNat) : Pattern.Holds ⟨mask, value⟩ w :=
  UInt16.toNat_inj.mp ((w.toNat_and_mask mask low width bits).trans filled)

namespace Encoding

variable {w : Word}

theorem toRegister_holds (up : w.bit 8 = true) (direct : w.field 4 2 = 0) : toRegister.Holds w := by
  have bit : w.field 8 1 = 1 := by simpa [Word.bit_eq_field] using up
  have upper : Pattern.Holds ⟨0x0100, 0x0100⟩ w := Pattern.holds_of_field 8 1 rfl (by rw [bit]; rfl)
  have lower : Pattern.Holds ⟨0x0030, 0x0000⟩ w := Pattern.holds_of_field 4 2 rfl (by rw [direct]; rfl)
  exact upper.meet lower

theorem accepts_classic {e : Encoding} (accepted : e.accepts .corrected w = true) :
    e.accepts .classic w = true := by
  cases e with
  | dyadic kind =>
    simp only [accepts, acceptsDyadic, Bool.and_eq_true] at accepted ⊢
    exact ⟨accepted.1, rfl⟩
  | _ => exact accepted

/-- What the corrected style refuses: a register as the place of a result, except the data
    register of an exclusive disjunction, and an address register in logic. -/
def Refused (kind : Dyadic) (w : Word) : Prop :=
  (w.bit 8 = true ∧ Mode.ofField w = .addressRegister) ∨
    (w.bit 8 = true ∧ Mode.ofField w = .dataRegister ∧ kind ≠ .exclusive) ∨
    (kind = .logical ∧ Mode.ofField w = .addressRegister)

/-- A refused word has its result in a register or an address register as the source. -/
theorem Refused.cases {kind : Dyadic} (refused : Refused kind w) :
    toRegister.Holds w ∨ w.bit 8 = false ∧ kind = .logical ∧ Mode.ofField w = .addressRegister := by
  cases up : w.bit 8 with
  | true =>
    left
    apply toRegister_holds up
    rw [← Mode.direct_iff]
    rcases refused with ⟨_, mode⟩ | ⟨_, mode, _⟩ | ⟨_, mode⟩
    · exact .inr mode
    · exact .inl mode
    · exact .inr mode
  | false =>
    right
    rcases refused with ⟨set, _⟩ | ⟨set, _, _⟩ | ⟨logical, mode⟩
    · simp [up] at set
    · simp [up] at set
    · exact ⟨rfl, logical, mode⟩

theorem accepts_dyadic_corrected (kind : Dyadic) (w : Word) :
    accepts (.dyadic kind) .corrected w = true ↔
      accepts (.dyadic kind) .classic w = true ∧ ¬ Refused kind w := by
  have kept : (!(w.bit 8 && Mode.ofField w = .addressRegister) &&
      !(w.bit 8 && Mode.ofField w = .dataRegister && kind != .exclusive) &&
      !(kind = .logical && Mode.ofField w = .addressRegister)) = true ↔ ¬ Refused kind w := by
    unfold Refused
    cases w.bit 8 <;> cases kind <;> simp [and_assoc]
  rw [← kept]
  simp only [accepts, acceptsDyadic, Bool.and_eq_true]
  constructor
  · rintro ⟨general, registers⟩
    exact ⟨⟨general, rfl⟩, by simpa using registers⟩
  · rintro ⟨⟨general, _⟩, registers⟩
    exact ⟨general, by simpa using registers⟩

end Encoding

namespace Form

variable {f g : Form} {style : Style} {w : Word}

theorem Takes.classic (takes : f.Takes .corrected w) : f.Takes .classic w :=
  ⟨takes.1, Encoding.accepts_classic takes.2⟩

/-! ## The first form that takes a word -/

theorem takes_of_select? (found : select? style w = some f) : f.Takes style w := by
  rw [select?_eq_find?] at found
  have taken := List.find?_some found
  exact Bool.and_eq_true_iff.mp taken

theorem select?_ne_none (takes : f.Takes style w) : select? style w ≠ none := by
  rw [select?_eq_find?]
  intro none
  exact List.find?_eq_none.mp none f (mem_all f) (Bool.and_eq_true_iff.mpr takes)

theorem idxOf_le_of_find? {order : List Form} {taking : Form → Bool}
    (found : order.find? taking = some f) (taken : taking g = true) :
    order.idxOf f ≤ order.idxOf g := by
  have first := List.find?_some found
  induction order with
  | nil => cases found
  | cons h rest ih =>
    cases here : taking h with
    | true =>
      obtain rfl : h = f := by simpa [List.find?_cons, here] using found
      simp
    | false =>
      have later : rest.find? taking = some f := by simpa [List.find?_cons, here] using found
      have other : h ≠ f := by
        rintro rfl
        simp [here] at first
      have another : h ≠ g := by
        rintro rfl
        simp [here] at taken
      rw [List.idxOf_cons_ne rest other, List.idxOf_cons_ne rest another]
      exact Nat.succ_le_succ (ih later)

/-- No form that takes the word stands before the one that is found. -/
theorem index_le_of_takes (found : select? style w = some f) (takes : g.Takes style w) :
    f.index ≤ g.index := by
  rw [select?_eq_find?] at found
  exact Nat.succ_le_succ (idxOf_le_of_find? found (Bool.and_eq_true_iff.mpr takes))

/-! ## Forms that share words across the styles -/

/-- The pairs of forms that share words: the first one takes them in the classic style and
    the second one in the corrected style. -/
def hidden : List (Form × Form) :=
  [(.add, .addx), (.sub, .subx), (.and, .abcd), (.and, .exg), (.or, .sbcd), (.eor, .cmpm)]

theorem apart_in_shadow : ∀ shadow ∈ shadows, ∀ f ∈ all, f.pattern.Conflicts shadow ∨
    ∀ g ∈ all, g.pattern.Conflicts shadow ∨ f = g ∨ (f, g) ∈ hidden ∨
      Apart .classic .corrected f g := by
  decide +kernel

/-- The corrected style only refuses, so that two forms share a word across the styles only
    where they do in the classic style: in the shadow of a general form. -/
theorem eq_or_hidden (left : f.Takes .classic w) (right : g.Takes .corrected w) :
    f = g ∨ (f, g) ∈ hidden := by
  by_cases same : f = g
  · exact .inl same
  obtain ⟨shadow, member, holds⟩ := shadow_of_takes same left right.classic
  obtain conflict | others := apart_in_shadow shadow member f (mem_all f)
  · exact absurd conflict (left.pattern.not_conflicts holds)
  obtain conflict | equal | shared | apart := others g (mem_all g)
  · exact absurd conflict (right.pattern.not_conflicts holds)
  · exact .inl equal
  · exact .inr shared
  · exact absurd right (apart.not_takes left)

/-- The form made for the words that a general form gives up where both its operands are
    registers. -/
def revealed : Form → Form
  | .add => .addx
  | .sub => .subx
  | .and => .exg
  | .or => .sbcd
  | f => f

/-- Two of the pairs do not count: there the form of the second style is tried first. -/
theorem eq_or_revealed (found : select? .classic w = some f) (takes : g.Takes .corrected w) :
    g = f ∨ f ∈ [.add, .sub, .and, .or] ∧ g = f.revealed := by
  have order := index_le_of_takes found takes.classic
  obtain same | shared := eq_or_hidden (takes_of_select? found) takes
  · exact .inl same.symm
  · simp only [hidden, List.mem_cons, Prod.mk.injEq, List.not_mem_nil, or_false] at shared
    obtain ⟨rfl, rfl⟩ | ⟨rfl, rfl⟩ | ⟨rfl, rfl⟩ | ⟨rfl, rfl⟩ | ⟨rfl, rfl⟩ | ⟨rfl, rfl⟩ := shared
    case inr.inr.inr.inl => exact absurd order (by decide)
    case inr.inr.inr.inr.inr.inr => exact absurd order (by decide)
    all_goals exact .inr ⟨by decide, rfl⟩

/-! ## Where the words go that are given up -/

theorem encoding_of_dyadic {kind : Dyadic} (dyadic : f.entry.encoding = .dyadic kind) :
    (f = .add ∨ f = .sub) ∧ kind = .arithmetic ∨ (f = .and ∨ f = .or) ∧ kind = .logical ∨
      f = .eor ∧ kind = .exclusive := by
  cases f <;> simp_all [entry]

/-- The styles part ways over a word only if a dyadic operation is refused. -/
theorem refused_of_not_takes (taken : f.Takes .classic w) (lost : ¬ f.Takes .corrected w) :
    ∃ kind, f.entry.encoding = .dyadic kind ∧ Encoding.Refused kind w := by
  cases encoding : f.entry.encoding with
  | dyadic kind =>
    refine ⟨kind, rfl, ?_⟩
    by_contra kept
    have accepted : (Encoding.dyadic kind).accepts .classic w = true := encoding ▸ taken.2
    have corrected := (Encoding.accepts_dyadic_corrected kind w).mpr ⟨accepted, kept⟩
    exact lost ⟨taken.1, by unfold accepts; rwa [encoding]⟩
  | _ =>
    refine absurd ⟨taken.1, ?_⟩ lost
    have accepted := taken.2
    unfold accepts at accepted ⊢
    rwa [encoding] at accepted ⊢

/-- The bit pattern of a form. -/
def bits (f : Form) : Pattern := ⟨f.entry.mask, f.entry.value⟩

theorem fits_iff_bits : f.fits w = true ↔ f.bits.Holds w := decide_eq_true_iff

/-- A word of one form that has the bits in which another form is narrower fits that one too. -/
theorem fits_of_refines {p : Pattern} (fits : f.fits w = true) (narrow : p.Holds w)
    (refines : (f.bits.meet p).Refines g.bits) : g.fits w = true :=
  fits_iff_bits.mpr (((fits_iff_bits.mp fits).meet narrow).of_refines refines)

/-- The forms that read two registers or count both up ask no more of a word than its size. -/
theorem takes_of_narrow {kind : Dyadic} {p : Pattern} (dyadic : f.entry.encoding = .dyadic kind)
    (sized : g.accepts .corrected w = (Size.ofField w).isValid) (taken : f.Takes .classic w)
    (narrow : p.Holds w) (refines : (f.bits.meet p).Refines g.bits) : g.Takes .corrected w := by
  have size := Encoding.size_isValid taken.2
  rw [dyadic] at size
  exact ⟨fits_of_refines taken.1 narrow refines, sized.trans size⟩

theorem exg_takes (taken : and.Takes .classic w) (narrow : Encoding.toRegister.Holds w)
    (codes : w.field 6 2 = 1 ∨ w.field 6 2 = 2 ∧ w.field 3 3 = 1) : exg.Takes .corrected w := by
  refine ⟨fits_of_refines taken.1 narrow (by decide), ?_⟩
  have parts : w.field 3 5 = w.field 3 3 + 8 * w.field 6 2 := w.field_add 3 3 2
  have mode : w.field 3 3 = w.field 3 1 + 2 * w.field 4 2 := w.field_add 3 1 2
  have direct : w.field 4 2 = 0 := narrow.field_eq 4 2 rfl
  have low := w.field_lt 3 1
  have code : w.field 3 5 = 8 ∨ w.field 3 5 = 9 ∨ w.field 3 5 = 17 := by omega
  rcases code with code | code | code
  all_goals
    simp only [accepts, entry, Encoding.accepts, code]
    rfl

/-- A word of AND or OR that only the classic style reads: an address register as a source,
    or two registers that no other form is made for. -/
def Orphan (f : Form) (w : Word) : Prop :=
  (f = .and ∨ f = .or) ∧
    (w.bit 8 = false ∧ Mode.ofField w = .addressRegister ∨
      w.bit 8 = true ∧ f = .or ∧ (Size.ofField w = .word ∨ Size.ofField w = .long) ∧
        (Mode.ofField w = .dataRegister ∨ Mode.ofField w = .addressRegister) ∨
      w.bit 8 = true ∧ f = .and ∧ Size.ofField w = .long ∧ Mode.ofField w = .dataRegister)

theorem Orphan.refused (orphan : Orphan f w) : Encoding.Refused .logical w := by
  obtain ⟨_, ⟨_, mode⟩ | ⟨up, _, _, mode | mode⟩ | ⟨up, _, _, mode⟩⟩ := orphan
  · exact .inr (.inr ⟨rfl, mode⟩)
  · exact .inr (.inl ⟨up, mode, by decide⟩)
  · exact .inl ⟨up, mode⟩
  · exact .inr (.inl ⟨up, mode, by decide⟩)

theorem byteSize_holds (byte : w.field 6 2 = 0) : Pattern.Holds ⟨0x00C0, 0x0000⟩ w :=
  Pattern.holds_of_field 6 2 rfl (by rw [byte]; rfl)

section Orphans

variable (lost : ∀ g : Form, ¬ g.Takes .corrected w)
include lost

theorem orphan_and (taken : and.Takes .classic w) (refused : Encoding.Refused .logical w) :
    Orphan .and w := by
  have size : (Size.ofField w).isValid = true := Encoding.size_isValid taken.2
  refine ⟨.inl rfl, ?_⟩
  rcases refused.cases with narrow | ⟨down, _, mode⟩
  · obtain ⟨up, direct⟩ := Encoding.mode_of_toRegister narrow
    rcases Size.ofField_cases w with ⟨code, _⟩ | ⟨code, _⟩ | ⟨code, long⟩ | ⟨_, reserved⟩
    · have fits : abcd.fits w = true :=
        fits_of_refines taken.1 (narrow.meet (byteSize_holds code)) (by decide)
      exact absurd ⟨fits, rfl⟩ (lost abcd)
    · exact absurd (exg_takes taken narrow (.inl code)) (lost exg)
    · rcases direct with mode | mode
      · exact .inr (.inr ⟨up, rfl, long, mode⟩)
      · have second := Mode.field_of_addressRegister mode
        exact absurd (exg_takes taken narrow (.inr ⟨code, second⟩)) (lost exg)
    · simp [reserved, Size.isValid] at size
  · exact .inl ⟨down, mode⟩

theorem orphan_or (taken : or.Takes .classic w) (refused : Encoding.Refused .logical w) :
    Orphan .or w := by
  have size : (Size.ofField w).isValid = true := Encoding.size_isValid taken.2
  refine ⟨.inr rfl, ?_⟩
  rcases refused.cases with narrow | ⟨down, _, mode⟩
  · obtain ⟨up, direct⟩ := Encoding.mode_of_toRegister narrow
    rcases Size.ofField_cases w with ⟨code, _⟩ | ⟨_, word⟩ | ⟨_, long⟩ | ⟨_, reserved⟩
    · have fits : sbcd.fits w = true :=
        fits_of_refines taken.1 (narrow.meet (byteSize_holds code)) (by decide)
      exact absurd ⟨fits, rfl⟩ (lost sbcd)
    · exact .inr (.inl ⟨up, rfl, .inl word, direct⟩)
    · exact .inr (.inl ⟨up, rfl, .inr long, direct⟩)
    · simp [reserved, Size.isValid] at size
  · exact .inl ⟨down, mode⟩

/-- Additions, subtractions and exclusive disjunctions always find another form. -/
theorem orphan_of_takes (taken : f.Takes .classic w) : Orphan f w := by
  obtain ⟨kind, encoding, refused⟩ := refused_of_not_takes taken (lost f)
  rcases encoding_of_dyadic encoding with ⟨rfl | rfl, rfl⟩ | ⟨rfl | rfl, rfl⟩ | ⟨rfl, rfl⟩
  case inl.inl =>
    obtain narrow | ⟨_, logical, _⟩ := refused.cases
    · exact absurd (takes_of_narrow rfl rfl taken narrow (by decide)) (lost addx)
    · cases logical
  case inl.inr =>
    obtain narrow | ⟨_, logical, _⟩ := refused.cases
    · exact absurd (takes_of_narrow rfl rfl taken narrow (by decide)) (lost subx)
    · cases logical
  case inr.inl.inl => exact orphan_and lost taken refused
  case inr.inl.inr => exact orphan_or lost taken refused
  case inr.inr =>
    obtain ⟨_, mode⟩ | ⟨_, _, other⟩ | ⟨logical, _⟩ := refused
    · have code := Mode.field_of_addressRegister mode
      have narrow : Encoding.addressMode.Holds w := Pattern.holds_of_field 3 3 rfl (by rw [code]; rfl)
      exact absurd (takes_of_narrow rfl rfl taken narrow (by decide)) (lost cmpm)
    · exact absurd rfl other
    · cases logical

end Orphans

/-- The forms that were hidden do not take an orphan either. -/
theorem Orphan.not_takes_revealed (orphan : Orphan f w) : ¬ f.revealed.Takes .corrected w := by
  intro takes
  obtain ⟨rfl | rfl, cases⟩ := orphan
  · have up : w.field 8 1 = 1 := takes.pattern.field_eq 8 1 rfl
    rcases cases with ⟨down, _⟩ | ⟨_, other, _⟩ | ⟨_, _, long, mode⟩
    · simp [Word.bit_eq_field, up] at down
    · cases other
    · have code : w.field 3 5 = 16 := by
        have parts : w.field 3 5 = w.field 3 3 + 8 * w.field 6 2 := w.field_add 3 3 2
        rcases Size.ofField_cases w with ⟨_, size⟩ | ⟨_, size⟩ | ⟨size, _⟩ | ⟨_, size⟩
        · simp [long] at size
        · simp [long] at size
        · rcases Mode.ofField_cases w with ⟨field, _⟩ | ⟨_, other⟩ | ⟨_, other, _⟩
          · omega
          · simp [mode] at other
          · exact absurd mode other
        · simp [long] at size
      have accepted := takes.2
      simp [revealed, accepts, entry, Encoding.accepts, Encoding.isExchange, code] at accepted
  · have up : w.field 8 1 = 1 := takes.pattern.field_eq 8 1 rfl
    have byte : w.field 6 2 = 0 := takes.pattern.field_eq 6 2 rfl
    rcases cases with ⟨down, _⟩ | ⟨_, _, size, _⟩ | ⟨_, other, _⟩
    · simp [Word.bit_eq_field, up] at down
    · simp [Size.ofField, Size.ofCode, byte] at size
    · cases other

theorem orphan_iff (found : select? .classic w = some f) :
    select? .corrected w = none ↔ Orphan f w := by
  constructor
  · intro none
    exact orphan_of_takes (fun g takes => select?_ne_none takes none) (takes_of_select? found)
  · intro orphan
    by_contra some
    obtain ⟨g, other⟩ := Option.ne_none_iff_exists'.mp some
    have takes := takes_of_select? other
    rcases eq_or_revealed found takes with rfl | ⟨_, rfl⟩
    · have accepted := takes.2
      obtain ⟨rfl | rfl, _⟩ := id orphan
      · exact ((Encoding.accepts_dyadic_corrected .logical w).mp accepted).2 orphan.refused
      · exact ((Encoding.accepts_dyadic_corrected .logical w).mp accepted).2 orphan.refused
    · exact orphan.not_takes_revealed takes

/-! ## What both styles read -/

theorem toRegister_of_revealed (general : f ∈ [add, sub, and, or]) (takes : f.revealed.Takes .corrected w) :
    Encoding.toRegister.Holds w := by
  have refines : ∀ f ∈ [add, sub, and, or], f.revealed.pattern.Refines Encoding.toRegister := by decide
  exact takes.pattern.of_refines (refines f general)

/-- Both styles read the word as the same form, unless its result goes to a register. -/
theorem select?_revealed (found : select? .classic w = some f) (other : select? .corrected w = some g) :
    g = if w.bit 8 = true ∧ w.field 4 2 = 0 then f.revealed else f := by
  have takes := takes_of_select? other
  rcases eq_or_revealed found takes with rfl | ⟨general, rfl⟩
  · split
    · rename_i registers
      have narrow := Encoding.toRegister_holds registers.1 registers.2
      have kept : Encoding.toRegister ∉ g.holes .corrected := fun hole => takes.not_hole _ hole narrow
      cases g with
      | add | sub | and | or => exact absurd (by decide) kept
      | _ => rfl
    · rfl
  · obtain ⟨up, direct⟩ := Encoding.mode_of_toRegister (toRegister_of_revealed general takes)
    rw [if_pos ⟨up, (Mode.direct_iff w).mp direct⟩]

/-- Neither registers nor the forms made for them need extension words, and only a stop takes
    a word in one style and not in the other. -/
theorem needed_classic (found : select? .classic w = some f) (other : select? .corrected w = some g)
    (going : w ≠ 0x4E72) : needed .classic w = needed .corrected w := by
  have takes := takes_of_select? other
  simp only [needed, found, other]
  rcases eq_or_revealed found takes with rfl | ⟨general, rfl⟩
  · cases g with
    | stop =>
      have whole : w &&& 0xFFFF = 0x4E72 := of_decide_eq_true takes.1
      have all : w &&& 0xFFFF = w := UInt16.and_neg_one
      exact absurd (all.symm.trans whole) going
    | _ => rfl
  · obtain ⟨_, direct⟩ := Encoding.mode_of_toRegister (toRegister_of_revealed general takes)
    have register (size : Size) : (Mode.ofField w).extensionWords size = 0 := by
      rcases direct with mode | mode
      · rw [mode]; rfl
      · rw [mode]; rfl
    simp only [List.mem_cons, List.not_mem_nil, or_false] at general
    rcases general with rfl | rfl | rfl | rfl
    all_goals simp only [revealed, extensionWords, register]

end Form

/-- The styles classify words alike but for the register forms that the classic style hides.
    What the corrected style reads the classic style reads too; the words that only the classic
    style reads are those of AND and OR listed here; where both read a word, the form is the
    same unless the result of an addition, a subtraction, AND or OR goes to a register; and
    but for STOP both instructions have the same length. -/
theorem Decoder.styles_agree_beside_registers (s t : Option Level) (window : List Byte)
    (address : Address) :
    let w := leadingWord window
    let classic := ({ style := .classic, threshold := s } : Decoder).decode (Cursor.start window address)
    let corrected := ({ style := .corrected, threshold := t } : Decoder).decode (Cursor.start window address)
    (corrected.instruction.valid = true → classic.instruction.valid = true) ∧
    (classic.instruction.valid = true ∧ corrected.instruction.valid = false ↔
      ∃ f, classic.instruction.form = some f ∧ f.Orphan w) ∧
    (classic.instruction.valid = true → corrected.instruction.valid = true →
      ∃ f, classic.instruction.form = some f ∧
        corrected.instruction.form =
          some (if w.bit 8 = true ∧ w.field 4 2 = 0 then f.revealed else f)) ∧
    (classic.instruction.valid = true → corrected.instruction.valid = true → w ≠ 0x4E72 →
      classic.instruction.size = corrected.instruction.size ∧
        classic.cursor.overflow = corrected.cursor.overflow) := by
  intro w classic corrected
  have classicForm : classic.instruction.form = Form.select? .classic w := decode_form _ _
  have correctedForm : corrected.instruction.form = Form.select? .corrected w := decode_form _ _
  have classicValid : classic.instruction.valid = (Form.select? .classic w).isSome := decode_valid _ _
  have correctedValid : corrected.instruction.valid = (Form.select? .corrected w).isSome :=
    decode_valid _ _
  rw [classicForm, correctedForm, classicValid, correctedValid]
  refine ⟨?_, ?_, ?_, ?_⟩
  · intro valid
    obtain ⟨f, found⟩ := Option.isSome_iff_exists.mp valid
    exact Option.isSome_iff_ne_none.mpr (Form.select?_ne_none (Form.takes_of_select? found).classic)
  · constructor
    · rintro ⟨valid, lost⟩
      obtain ⟨f, found⟩ := Option.isSome_iff_exists.mp valid
      exact ⟨f, found, (Form.orphan_iff found).mp (by simpa using lost)⟩
    · rintro ⟨f, found, orphan⟩
      have none := (Form.orphan_iff found).mpr orphan
      simp [found, none]
  · intro valid other
    obtain ⟨f, found⟩ := Option.isSome_iff_exists.mp valid
    obtain ⟨g, read⟩ := Option.isSome_iff_exists.mp other
    exact ⟨f, found, by rw [read, Form.select?_revealed found read]⟩
  · intro valid other going
    obtain ⟨f, found⟩ := Option.isSome_iff_exists.mp valid
    obtain ⟨g, read⟩ := Option.isSome_iff_exists.mp other
    have same := Form.needed_classic found read going
    constructor
    · apply UInt32.toNat_inj.mp
      rw [decode_size, decode_size]
      exact congrArg (fun n => 2 * min n (window.length / 2)) same
    · simp only [classic, corrected, decode_cursor]
      exact congrArg (fun n => ((Cursor.start window address).skip n).overflow) same

/-- D181 is an addition to a register in the classic style and an extended addition in the
    corrected style, both of one word; C180 is a long AND of two data registers, which only the
    classic style reads. -/
theorem Decoder.styles_agree_beside_registers_hidden :
    let classic (window : List Byte) := ({ style := .classic } : Decoder).decode (Cursor.start window 0)
    let corrected (window : List Byte) := ({ style := .corrected } : Decoder).decode (Cursor.start window 0)
    (corrected [0xD1, 0x81]).instruction.form = some .addx ∧
      (classic [0xD1, 0x81]).instruction.size = (corrected [0xD1, 0x81]).instruction.size ∧
      (corrected [0xC1, 0x80]).instruction.valid = false := by
  intro classic corrected
  obtain ⟨_, _, forms, lengths⟩ := styles_agree_beside_registers none none [0xD1, 0x81] 0
  obtain ⟨_, orphans, _, _⟩ := styles_agree_beside_registers none none [0xC1, 0x80] 0
  obtain ⟨f, found, read⟩ := forms rfl rfl
  obtain rfl : f = .add := by
    have known : some Form.add = some f := found
    exact (Option.some.inj known).symm
  refine ⟨read, (lengths rfl rfl (by decide)).1, ?_⟩
  exact (orphans.mpr ⟨.and, rfl, .inl rfl, .inr (.inr ⟨rfl, rfl, rfl, rfl⟩)⟩).2

end M68k
