import Mathlib
import M68k.Proofs.Styles

/-!
How the two styles word one form. Where both read a word as the same form, the mnemonics are
the same but for the rotates and TST (`Form.MnemonicsDiffer`), and the operands are the same
but for one place in each of a few families (`Form.OperandsDiffer`). The relations are said on
texts; that they hold is one case for each form that looks at the style.
-/
namespace M68k

open Text (hex decimal)

/-! ## Lists of registers -/

namespace RegisterList

theorem runs_eq_nil_iff (numbers : List Nat) : runs numbers = [] ↔ numbers = [] := by
  cases numbers with
  | nil => simp [runs]
  | cons n numbers =>
    simp only [runs, List.foldr_cons, reduceCtorEq, iff_false]
    unfold extend
    split
    · simp
    · split <;> simp

theorem flatMap_entries_eq_nil_iff (register : String) (numbers : List Nat) :
    (runs numbers).flatMap (Run.entries register) = [] ↔ numbers = [] := by
  rw [List.flatMap_eq_nil_iff, ← runs_eq_nil_iff]
  constructor
  · intro each
    rw [List.eq_nil_iff_forall_not_mem]
    intro run member
    have empty := each run member
    unfold Run.entries at empty
    dsimp only at empty
    split at empty
    · cases empty
    · split at empty <;> cases empty
  · intro none
    simp [none]

theorem members_eq_nil_iff (mask : Word) (low : Nat) :
    members mask low = [] ↔ ∀ i < 8, mask.bit (low + i) = false := by
  simp [members]

/-- Only the empty mask names no registers. -/
theorem entries_eq_nil_iff (mask : Word) : entries mask = [] ↔ mask = 0 := by
  rw [entries, List.append_eq_nil_iff, flatMap_entries_eq_nil_iff, flatMap_entries_eq_nil_iff,
    members_eq_nil_iff, members_eq_nil_iff]
  constructor
  · rintro ⟨data, address⟩
    apply Word.eq_of_bit_eq
    intro i inside
    rw [show Word.bit 0 i = false from Nat.zero_testBit i]
    by_cases low : i < 8
    · have bit := data i low
      rwa [Nat.zero_add] at bit
    · have bit := address (i - 8) (by omega)
      rwa [Nat.add_sub_cancel' (by omega)] at bit
  · rintro rfl
    exact ⟨fun i _ => Nat.zero_testBit _, fun i _ => Nat.zero_testBit _⟩

end RegisterList

theorem Piece.loadList_classic {entries : List String} (some : entries ≠ []) :
    loadList .classic entries = loadList .corrected entries ++ " " := by
  cases entries with
  | nil => exact absurd rfl some
  | cons first rest => rfl

/-! ## Texts that differ in one place -/

namespace Reading

theorem text_singleton (s : String) (c : Cursor) : (ofPieces [.text s] c).text = s := by
  rw [ofPieces_text, text_nil, String.append_empty]

/-- Text behind pieces is not touched by their faults. -/
theorem text_concat (pieces : List Piece) (s : String) (c : Cursor) :
    (ofPieces (pieces ++ [.text s]) c).text = (ofPieces pieces c).text ++ s := by
  rw [text_append, text_singleton]

end Reading

/-- The size in bits 7-6 of a word as it stands behind a mnemonic. -/
def Word.sizeSuffix (w : Word) : String :=
  if w.field 6 2 = 0 then ".B" else if w.field 6 2 = 1 then ".W" else ".L"

theorem Word.sizeSuffix_eq {w : Word} (valid : (Size.ofField w).isValid = true) :
    "." ++ (Size.ofField w).name = w.sizeSuffix := by
  unfold sizeSuffix
  rcases Size.ofField_cases w with ⟨code, size⟩ | ⟨code, size⟩ | ⟨code, size⟩ | ⟨_, size⟩
  · rw [code, size]; decide
  · rw [code, size]; decide
  · rw [code, size]; decide
  · rw [size] at valid
    cases valid

namespace Form

/-- The mnemonics that the classic and the corrected style give a word of the form: the rotates
    are exchanged, and only the corrected style writes the size of a test. -/
def MnemonicsDiffer (f : Form) (w : Word) (classic corrected : String) : Prop :=
  match f with
  | .rolRegister => classic = "ROR" ++ w.sizeSuffix ∧ corrected = "ROL" ++ w.sizeSuffix
  | .rorRegister => classic = "ROL" ++ w.sizeSuffix ∧ corrected = "ROR" ++ w.sizeSuffix
  | .rolMemory => classic = "ROR" ∧ corrected = "ROL"
  | .rorMemory => classic = "ROL" ∧ corrected = "ROR"
  | .tst => classic = "TST" ∧ corrected = "TST" ++ w.sizeSuffix
  | _ => classic = corrected

/-- The operands that the classic and the corrected style give a word of the form, with `next`
    the word behind it. -/
def OperandsDiffer (f : Form) (w next : Word) (classic corrected : String) : Prop :=
  match f with
  | .abcd =>
    if w.bit 3 then
      classic = "-(A" ++ decimal w.lowRegister ++ "),-A(" ++ decimal w.highRegister ++ ")" ∧
        corrected = "-(A" ++ decimal w.lowRegister ++ "),-(A" ++ decimal w.highRegister ++ ")"
    else classic = corrected
  | .adda | .suba => ∃ source,
    classic = source ++ ",A" ++ decimal w.lowRegister ∧
      corrected = source ++ ",A" ++ decimal w.highRegister
  | .bchgNumber | .bclrNumber | .bsetNumber | .btstNumber => ∃ destination,
    classic = "#" ++ decimal (next &&& 0x2F).toNat ++ "," ++ destination ∧
      corrected = "#" ++ decimal (next &&& 0xFF).toNat ++ "," ++ destination
  | .andi | .eori | .ori =>
    if Size.ofField w = .byte ∧ Mode.ofField w = .immediate then ∃ source,
      classic = source ++ ",SR" ∧ corrected = source ++ ",CCR"
    else classic = corrected
  | .trap => corrected = "#" ++ classic
  | .stop => classic = " " ∧ corrected = "#$" ++ hex .upper 4 next.toNat
  | .move => classic = corrected ++ " "
  | .movem =>
    if w.bit 10 = true ∧ next ≠ 0 then classic = corrected ++ " " else classic = corrected
  | _ => classic = corrected

theorem mnemonics_differ {f : Form} {w : Word} (accepted : f.accepts .classic w = true) :
    f.MnemonicsDiffer w (f.mnemonic .classic w) (f.mnemonic .corrected w) := by
  cases f with
  | rolRegister | rorRegister | tst =>
    have suffix := Word.sizeSuffix_eq (Encoding.size_isValid accepted)
    simp only [MnemonicsDiffer, ← suffix, ← String.append_assoc]
    exact ⟨rfl, rfl⟩
  | rolMemory | rorMemory => exact ⟨rfl, rfl⟩
  | _ => rfl

/-! Families whose operands look at the style: what does not depend on it, and where the rest
stands. -/

section Families

variable (w : Word) (c : Cursor)

theorem text_addressArithmetic : ∃ source, ∀ style,
    (Reading.ofPieces (Encoding.operands .addressArithmetic style w) c).text =
      source ++ ",A" ++ decimal (if style = .classic then w.lowRegister else w.highRegister : Nat) := by
  have register (n : Nat) : "," ++ Encoding.addressRegister n = ",A" ++ decimal n := by
    rw [Encoding.addressRegister, ← String.append_assoc]
    rfl
  let address := Piece.operand (Operand.ofField w (Encoding.size .addressArithmetic w))
  refine ⟨(Reading.ofPieces [address] c).text, fun style => (Reading.text_concat [address] _ c).trans ?_⟩
  rw [register, ← String.append_assoc]

theorem text_bitByNumber (readOnly : Bool) : ∃ destination, ∀ style,
    (Reading.ofPieces (Encoding.operands (.bitByNumber readOnly) style w) c).text =
      "#" ++ decimal (leadingWord c.rest &&& Encoding.bitNumberMask style).toNat ++ "," ++ destination := by
  let address := Piece.operand (Operand.ofField w .byte)
  refine ⟨(Reading.ofPieces [address] (c.skip 1)).text, fun style =>
    (Reading.text_cons rfl [.text ",", address] c).trans ?_⟩
  rw [Reading.ofPieces_text, ← String.append_assoc]
  simp [Piece.render, Piece.words, List.range_one]

theorem text_move : ∃ moved, ∀ style,
    (Reading.ofPieces (Encoding.operands .move style w) c).text =
      moved ++ if style = .classic then " " else "" :=
  ⟨_, fun _ => Reading.text_concat [.operand _, .text ",", .operand _] _ c⟩

theorem text_status (status : Bool) (mode : Mode.ofField w = .immediate) : ∃ source, ∀ style,
    (Reading.ofPieces (Encoding.operands (.immediate status) style w) c).text =
      source ++ ("," ++ Encoding.statusRegister style (Size.ofField w)) := by
  refine ⟨(Reading.ofPieces [.immediate (Size.ofField w)] c).text, fun style => ?_⟩
  simp only [Encoding.operands, mode, if_true]
  refine (Reading.text_concat [.immediate (Size.ofField w), .text ","] _ c).trans ?_
  rw [← String.append_assoc]
  exact congrArg (· ++ _) (Reading.text_concat [.immediate (Size.ofField w)] "," c)

/-- Away from the status register immediate data is worded alike. -/
theorem text_immediate (status : Bool) (mode : Mode.ofField w ≠ .immediate) :
    (Reading.ofPieces (Encoding.operands (.immediate status) .classic w) c).text =
      (Reading.ofPieces (Encoding.operands (.immediate status) .corrected w) c).text := by
  simp only [Encoding.operands, mode, if_false]

theorem status_differs :
    let text style := (Reading.ofPieces (Encoding.operands (.immediate true) style w) c).text
    if Size.ofField w = .byte ∧ Mode.ofField w = .immediate then
      ∃ source, text .classic = source ++ ",SR" ∧ text .corrected = source ++ ",CCR"
    else text .classic = text .corrected := by
  intro text
  by_cases mode : Mode.ofField w = .immediate
  · obtain ⟨source, worded⟩ := text_status w c true mode
    by_cases byte : Size.ofField w = .byte
    · rw [if_pos ⟨byte, mode⟩]
      rw [byte] at worded
      exact ⟨source, worded .classic, worded .corrected⟩
    · rw [if_neg (fun both => byte both.1)]
      refine (worded .classic).trans (Eq.trans ?_ (worded .corrected).symm)
      simp [Encoding.statusRegister, byte]
  · rw [if_neg (fun both => mode both.2)]
    exact text_immediate w c true mode

variable {w : Word} (accepted : Encoding.accepts .moveMultiple .classic w = true)
include accepted

theorem text_loadMultiple (load : w.bit 10 = true) : ∃ source, ∀ style,
    (Reading.ofPieces (Encoding.operands .moveMultiple style w) c).text =
      source ++ Piece.loadList style (RegisterList.entries (leadingWord c.rest)) := by
  have sound := Encoding.operands_sound accepted
  simp only [Encoding.operands, load, if_true, List.forall_mem_singleton] at sound ⊢
  let source := Operand.ofField w (Encoding.size .moveMultiple w)
  refine ⟨source.text (c.skip (source.words + 1)).address
    ((List.range source.words).map fun k => leadingWord (c.skip (k + 1)).rest), fun style => ?_⟩
  have clean : (Piece.load source style).fault? = none := sound
  rw [Reading.text_cons clean, Reading.text_nil, String.append_empty]
  simp only [Piece.words, Nat.add_comm 1, List.range_succ_eq_map, List.map_cons, Piece.render, List.tail_cons,
    List.getD_cons_zero, Cursor.skip_zero, List.map_map, Function.comp_def, Nat.succ_eq_add_one]

theorem moveMultiple_differs :
    let text style := (Reading.ofPieces (Encoding.operands .moveMultiple style w) c).text
    if w.bit 10 = true ∧ leadingWord c.rest ≠ 0 then text .classic = text .corrected ++ " "
    else text .classic = text .corrected := by
  intro text
  by_cases load : w.bit 10 = true
  · obtain ⟨source, worded⟩ := text_loadMultiple c accepted load
    have classic : text .classic = _ := worded .classic
    have corrected : text .corrected = _ := worded .corrected
    by_cases empty : leadingWord c.rest = 0
    · rw [if_neg (fun both => both.2 empty)]
      rw [empty] at classic corrected
      exact classic.trans corrected.symm
    · have some : RegisterList.entries (leadingWord c.rest) ≠ [] := by
        rwa [ne_eq, RegisterList.entries_eq_nil_iff]
      rw [if_pos ⟨load, empty⟩, classic, corrected, Piece.loadList_classic some, String.append_assoc]
  · rw [if_neg (fun both => load both.1)]
    simp only [text, Encoding.operands, load, Bool.false_eq_true, if_false]

end Families

/-! ## Forms that the classic style hides -/

section Hidden

variable {f : Form} {w : Word}

/-- In the classic style AND and OR take every word of theirs whose operands are registers. -/
theorem takes_logical (logical : f = .and ∨ f = .or) (fits : f.fits w = true) (size : w.field 6 2 ≠ 3)
    (direct : w.field 4 2 = 0) : f.Takes .classic w := by
  have valid : (Size.ofField w).isValid = true := by
    rcases Size.ofField_cases w with ⟨_, size⟩ | ⟨_, size⟩ | ⟨_, size⟩ | ⟨code, _⟩
    · rw [size]; rfl
    · rw [size]; rfl
    · rw [size]; rfl
    · exact absurd code size
  have accepted : Encoding.accepts (.dyadic .logical) .classic w = true := by
    rcases (Mode.direct_iff w).mpr direct with mode | mode
    all_goals
      simp [Encoding.accepts, Encoding.acceptsDyadic, Encoding.size, valid, mode, Mode.isValid, Mode.isAlterable]
  rcases logical with rfl | rfl
  · exact ⟨fits, accepted⟩
  · exact ⟨fits, accepted⟩

/-- AND and OR stand before the exchange and the decimal subtraction and take their words. -/
theorem select?_classic_visible (found : select? .classic w = some f) : f ≠ .exg ∧ f ≠ .sbcd := by
  have takes := takes_of_select? found
  refine ⟨?_, ?_⟩
  · rintro rfl
    obtain ⟨code, direct⟩ := Encoding.fields_of_exchange takes.2
    have fits : and.fits w = true := fits_iff_bits.mpr ((fits_iff_bits.mp takes.1).of_refines (by decide))
    exact absurd (index_le_of_takes found (takes_logical (.inl rfl) fits (by omega) direct)) (by decide)
  · rintro rfl
    have direct : w.field 4 2 = 0 := takes.pattern.field_eq 4 2 rfl
    have code : w.field 6 2 = 0 := takes.pattern.field_eq 6 2 rfl
    have fits : or.fits w = true := fits_iff_bits.mpr ((fits_iff_bits.mp takes.1).of_refines (by decide))
    exact absurd (index_le_of_takes found (takes_logical (.inr rfl) fits (by omega) direct)) (by decide)

end Hidden

theorem operands_differ {f : Form} {w : Word} (found : select? .classic w = some f) (c : Cursor) :
    f.OperandsDiffer w (leadingWord c.rest) (Reading.ofPieces (f.operands .classic w) c).text
      (Reading.ofPieces (f.operands .corrected w) c).text := by
  have accepted := accepts_of_select? found
  cases f with
  | exg => exact absurd rfl (select?_classic_visible found).1
  | sbcd => exact absurd rfl (select?_classic_visible found).2
  | abcd =>
    simp only [OperandsDiffer, operands, entry, Encoding.operands, Reading.text_singleton]
    cases up : w.bit 3 with
    | false => simp [Encoding.decimalPair, up]
    | true =>
      refine ⟨?_, ?_⟩
      all_goals
        apply String.toList_inj.mp
        simp [Encoding.decimalPair, up, Encoding.addressRegister]
  | adda | suba =>
    obtain ⟨source, text⟩ := text_addressArithmetic w c
    exact ⟨source, text .classic, text .corrected⟩
  | bchgNumber | bclrNumber | bsetNumber | btstNumber =>
    obtain ⟨destination, text⟩ := text_bitByNumber w c _
    exact ⟨destination, text .classic, text .corrected⟩
  | andi | eori | ori => exact status_differs w c
  | addi | cmpi | subi =>
    -- These have no status register, so that the mode they refuse never comes up.
    have mode : Mode.ofField w ≠ .immediate := by
      intro mode
      simp [accepts, entry, Encoding.accepts, mode, Mode.isAlterable] at accepted
    exact text_immediate w c false mode
  | trap =>
    simp only [OperandsDiffer, operands, entry, Encoding.operands, Reading.text_singleton]
    rfl
  | stop =>
    refine ⟨Reading.text_singleton " " c, ?_⟩
    have immediate := Reading.text_cons (p := .immediate .word) rfl [] c
    refine immediate.trans ?_
    simp [Piece.render, Piece.words, Size.immediateWords, Size.immediateText, List.range_one]
  | move =>
    obtain ⟨moved, text⟩ := text_move w c
    have classic := text .classic
    have corrected := text .corrected
    simp only [reduceCtorEq, if_true, if_false, String.append_empty] at classic corrected
    rw [← corrected] at classic
    exact classic
  | movem => exact moveMultiple_differs c accepted
  | _ => rfl

end Form

/-- Where both styles read a word as the same form, their mnemonics and operands are the same
    but for the differences listed for the form, whatever stands behind the word. The classic
    style reads no word as an exchange or a decimal subtraction. -/
theorem Decoder.styles_differ_in_places (s t : Option Level) (window : List Byte) (address : Address) :
    let w := leadingWord window
    let next := leadingWord (window.drop 2)
    let classic :=
      (({ style := .classic, threshold := s } : Decoder).decode (Cursor.start window address)).instruction
    let corrected :=
      (({ style := .corrected, threshold := t } : Decoder).decode (Cursor.start window address)).instruction
    (classic.valid = true → corrected.valid = true → classic.form = corrected.form →
      ∃ f, classic.form = some f ∧ f.MnemonicsDiffer w classic.mnemonic corrected.mnemonic ∧
        f.OperandsDiffer w next classic.operands corrected.operands) ∧
    classic.form ≠ some .exg ∧ classic.form ≠ some .sbcd := by
  intro w next classic corrected
  have classicForm : classic.form = Form.select? .classic w := decode_form _ _
  have correctedForm : corrected.form = Form.select? .corrected w := decode_form _ _
  have classicValid : classic.valid = (Form.select? .classic w).isSome := decode_valid _ _
  refine ⟨?_, ?_, ?_⟩
  · intro valid _ same
    rw [classicValid] at valid
    obtain ⟨f, found⟩ := Option.isSome_iff_exists.mp valid
    have also : Form.select? .corrected w = some f := by
      rw [← correctedForm, ← same, classicForm, found]
    have behind : leadingWord ((Cursor.start window address).skip 1).rest = next :=
      Cursor.leadingWord_skip (Cursor.start window address) 1
    have left : classic = _ :=
      (decode_matched { style := .classic, threshold := s } (c := Cursor.start window address) found).1
    have right : corrected = _ :=
      (decode_matched { style := .corrected, threshold := t } (c := Cursor.start window address) also).1
    have mnemonics : f.MnemonicsDiffer w classic.mnemonic corrected.mnemonic := by
      rw [left, right]
      exact Form.mnemonics_differ (Form.accepts_of_select? found)
    have operands : f.OperandsDiffer w next classic.operands corrected.operands := by
      rw [left, right, ← behind]
      exact Form.operands_differ found _
    exact ⟨f, classicForm.trans found, mnemonics, operands⟩
  · rw [classicForm]
    intro exchange
    exact (Form.select?_classic_visible exchange).1 rfl
  · rw [classicForm]
    intro subtraction
    exact (Form.select?_classic_visible subtraction).2 rfl

/-- A load of two registers, which ends with a blank in the classic style, a test of bit 80, of
    which the classic style drops bits 6 and 4, and a rotate and a test of words. -/
theorem Decoder.styles_differ_in_places_load :
    let classic (window : List Byte) :=
      (({ style := .classic } : Decoder).decode (Cursor.start window 0)).instruction
    let corrected (window : List Byte) :=
      (({ style := .corrected } : Decoder).decode (Cursor.start window 0)).instruction
    (classic [0x4C, 0xD8, 0x00, 0x03]).operands = (corrected [0x4C, 0xD8, 0x00, 0x03]).operands ++ " " ∧
      (corrected [0x4C, 0xD8, 0x00, 0x03]).operands = "(A0)+,D0,D1" ∧
      (∃ destination, (classic [0x08, 0x00, 0x00, 0x50]).operands = "#0," ++ destination ∧
        (corrected [0x08, 0x00, 0x00, 0x50]).operands = "#80," ++ destination) ∧
      (classic [0xE3, 0x58]).mnemonic = "ROR.W" ∧ (corrected [0xE3, 0x58]).mnemonic = "ROL.W" ∧
      (classic [0x4A, 0x40]).mnemonic = "TST" ∧ (corrected [0x4A, 0x40]).mnemonic = "TST.W" := by
  intro classic corrected
  obtain ⟨f, load, _, loaded⟩ := (styles_differ_in_places none none [0x4C, 0xD8, 0x00, 0x03] 0).1 rfl rfl rfl
  obtain ⟨g, test, _, tested⟩ := (styles_differ_in_places none none [0x08, 0x00, 0x00, 0x50] 0).1 rfl rfl rfl
  obtain ⟨r, rotate, rotated, _⟩ := (styles_differ_in_places none none [0xE3, 0x58] 0).1 rfl rfl rfl
  obtain ⟨t, compare, compared, _⟩ := (styles_differ_in_places none none [0x4A, 0x40] 0).1 rfl rfl rfl
  obtain rfl : f = .movem := Option.some.inj (show some f = some .movem from load.symm)
  obtain rfl : g = .btstNumber := Option.some.inj (show some g = some .btstNumber from test.symm)
  obtain rfl : r = .rolRegister := Option.some.inj (show some r = some .rolRegister from rotate.symm)
  obtain rfl : t = .tst := Option.some.inj (show some t = some .tst from compare.symm)
  rw [Form.OperandsDiffer, if_pos ⟨by decide, by decide⟩] at loaded
  have right : "ROR" ++ Word.sizeSuffix 0xE358 = "ROR.W" := by decide
  have left : "ROL" ++ Word.sizeSuffix 0xE358 = "ROL.W" := by decide
  have sized : "TST" ++ Word.sizeSuffix 0x4A40 = "TST.W" := by decide
  exact ⟨loaded, by decide +kernel, tested, rotated.1.trans right, rotated.2.trans left, compared.1,
    compared.2.trans sized⟩

end M68k
