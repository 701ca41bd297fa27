import Mathlib
import M68k.Proofs.Fields
import M68k.Proofs.InstructionText

/-!
Which bits of extension words a text tells. A text that is made from words `Tells` the bits of
masks if it is the same exactly for words that agree in these bits. Two such texts, one behind
the other, tell the bits of both if it can be seen where the first one ends (`Separates`), and
that is so for any text that is prefix-free: one of a fixed length, or with a last character of
its own. The operands of all addressing modes are of this kind (`Operand.delimited_text`).
-/
namespace M68k

open Text

/-! ## Texts made from words -/

/-- Words agree in the bits of masks, one by one. -/
def SameBits (masks : List Word) (u v : Nat → Word) : Prop :=
  ∀ k mask, masks[k]? = some mask → u k &&& mask = v k &&& mask

section
variable {masks : List Word} {u v : Nat → Word}

theorem sameBits_nil : SameBits [] u v := by
  intro k mask none
  cases none

theorem sameBits_append {back : List Word} : SameBits (masks ++ back) u v ↔
    SameBits masks u v ∧ SameBits back (fun k => u (k + masks.length)) (fun k => v (k + masks.length)) := by
  constructor
  · intro same
    refine ⟨?_, ?_⟩
    · intro k mask here
      exact same k mask (by rw [List.getElem?_append_left (List.getElem?_eq_some_iff.mp here).1, here])
    · intro k mask here
      exact same _ mask (by rw [List.getElem?_append_right (by omega), Nat.add_sub_cancel, here])
  · rintro ⟨front, behind⟩ k mask here
    by_cases inside : k < masks.length
    · rw [List.getElem?_append_left inside] at here
      exact front k mask here
    · rw [List.getElem?_append_right (by omega)] at here
      have later := behind (k - masks.length) mask here
      simpa only [Nat.sub_add_cancel (Nat.not_lt.mp inside)] using later

theorem sameBits_single {mask : Word} : SameBits [mask] u v ↔ u 0 &&& mask = v 0 &&& mask := by
  constructor
  · intro same
    exact same 0 mask rfl
  · intro same k other here
    cases k with
    | zero =>
      obtain rfl : mask = other := Option.some.inj here
      exact same
    | succ k => cases here

theorem sameBits_cons {mask : Word} : SameBits (mask :: masks) u v ↔
    u 0 &&& mask = v 0 &&& mask ∧ SameBits masks (fun k => u (k + 1)) (fun k => v (k + 1)) := by
  rw [← List.singleton_append, sameBits_append, sameBits_single]
  rfl

end

/-- A text tells the bits of masks: it is the same exactly for words that agree in them. -/
def Tells (masks : List Word) (text : (Nat → Word) → String) : Prop :=
  ∀ u v, text u = text v ↔ SameBits masks u v

/-- It can be seen where the first of two texts ends. -/
def Separates (first second : (Nat → Word) → String) : Prop :=
  ∀ u v r s, first u ++ second r = first v ++ second s → first u = first v

/-- No text goes on as another one. -/
def PrefixFree (text : (Nat → Word) → String) : Prop :=
  ∀ u v r s, text u ++ r = text v ++ s → text u = text v

theorem PrefixFree.separates {first : (Nat → Word) → String} (free : PrefixFree first)
    (second : (Nat → Word) → String) : Separates first second := fun u v _ _ same => free u v _ _ same

theorem Tells.append {front back : List Word} {first second : (Nat → Word) → String} (tells : Tells front first)
    (behind : Tells back second) (apart : Separates first second) :
    Tells (front ++ back) fun u => first u ++ second fun k => u (k + front.length) := by
  intro u v
  rw [sameBits_append, ← tells, ← behind]
  constructor
  · intro same
    have here := apart u v _ _ same
    simp only [here] at same
    exact ⟨here, (String.append_right_inj _).mp same⟩
  · rintro ⟨here, later⟩
    simp only [here, later]

theorem tells_word {mask : Word} (text : Word → String)
    (exact : ∀ x y, text x = text y ↔ x &&& mask = y &&& mask) : Tells [mask] fun u => text (u 0) := by
  intro u v
  rw [sameBits_single]
  exact exact (u 0) (v 0)

theorem Word.and_full (w : Word) : w &&& 0xFFFF = w := UInt16.and_neg_one

/-- A text from which the word can be read tells all of it. -/
theorem tells_whole (text : Word → String) (inj : ∀ x y, text x = text y → x = y) :
    Tells [0xFFFF] fun u => text (u 0) := by
  refine tells_word text fun x y => ?_
  rw [x.and_full, y.and_full]
  exact ⟨inj x y, congrArg text⟩

/-- Texts of one length are not prefixes of each other. -/
theorem prefixFree_of_length {text : (Nat → Word) → String} (length : Nat)
    (each : ∀ u, (text u).toList.length = length) : PrefixFree text := by
  intro u v r s same
  have characters := congrArg String.toList same
  rw [String.toList_append, String.toList_append] at characters
  exact String.toList_inj.mp (List.append_inj characters ((each u).trans (each v).symm)).1

/-- Texts that end with a character of their own are not prefixes of each other. -/
theorem prefixFree_of_end (c : Char) (body : (Nat → Word) → String) (ending : String) (last : ending.toList = [c])
    (each : ∀ u, Lacks c (body u)) : PrefixFree fun u => body u ++ ending := by
  intro u v r s same
  simp only [String.append_assoc] at same
  have starts : ending.toList.head? = some c := by rw [last]; rfl
  simp only [(append_inj_of_head (each u) (each v) (head?_append starts r) (head?_append starts s) same).1]

/-- A text that tells the bits of masks and shows where it ends. -/
structure Delimited (masks : List Word) (text : (Nat → Word) → String) : Prop where
  tells : Tells masks text
  free : PrefixFree text

theorem delimited_const (text : String) : Delimited [] fun _ => text :=
  ⟨fun _ _ => ⟨fun _ => sameBits_nil, fun _ => rfl⟩, fun _ _ _ _ _ => rfl⟩

/-! ## Numbers -/

theorem bmod_inj {m n k : Nat} (left : m < k) (right : n < k) (same : Int.bmod m k = Int.bmod n k) : m = n := by
  have rests := congrArg (· % (k : Int)) same
  simp only [Int.bmod_emod] at rests
  rw [Int.emod_eq_of_lt (by omega) (by omega), Int.emod_eq_of_lt (by omega) (by omega)] at rests
  omega

namespace Word

theorem signed_inj {x y : Word} (same : x.signed = y.signed) : x = y :=
  UInt16.toNat_inj.mp (bmod_inj x.toNat_lt y.toNat_lt same)

theorem lowSigned_inj {x y : Word} (same : x.lowSigned = y.lowSigned) : x.field 0 8 = y.field 0 8 :=
  bmod_inj (x.field_lt 0 8) (y.field_lt 0 8) same

/-- No two distances lead to the same target. -/
theorem relativeTarget_inj {x y : Word} {after : Address}
    (same : x.relativeTarget after = y.relativeTarget after) : x = y := by
  rw [relativeTarget, relativeTarget, String.append_right_inj] at same
  have target := UInt32.toNat_inj.mp (hex_inj (UInt32.toNat_lt _) (UInt32.toNat_lt _) same)
  have distance := congrArg (fun a : Address => (a.toNat : Int)) target
  have bounds (w : Word) : -32768 ≤ w.signed ∧ w.signed < 32768 :=
    ⟨Int.le_bmod (by decide), Int.bmod_lt (by decide)⟩
  have left := bounds x
  have right := bounds y
  simp only [Address.toNat_offset] at distance
  exact signed_inj (by omega)

theorem field_index {x y : Word} : x.field 11 5 = y.field 11 5 ↔
    x.bit 15 = y.bit 15 ∧ x.field 12 3 = y.field 12 3 ∧ x.bit 11 = y.bit 11 := by
  rw [field_eq_field_iff, field_eq_field_iff]
  constructor
  · intro each
    refine ⟨each 4 (by decide), ?_, each 0 (by decide)⟩
    intro i small
    have here := each (i + 1) (by omega)
    rwa [show 11 + (i + 1) = 12 + i by omega] at here
  · rintro ⟨top, middle, bottom⟩ i small
    match i, small with
    | 0, _ => exact bottom
    | 1, _ => exact middle 0 (by decide)
    | 2, _ => exact middle 1 (by decide)
    | 3, _ => exact middle 2 (by decide)
    | 4, _ => exact top

/-- The name of an index register tells bits 15 to 11. -/
theorem indexRegister_inj {x y : Word} : x.indexRegister = y.indexRegister ↔ x.field 11 5 = y.field 11 5 := by
  rw [field_index]
  constructor
  · intro same
    have class_eq : x.bit 15 = y.bit 15 := by
      have heads := congrArg (·.toList.head?) same
      cases first : x.bit 15 <;> cases second : y.bit 15 <;>
        simp [indexRegister, String.toList_append, first, second] at heads ⊢
    have number (w : Word) : Lacks '.' (decimal (w.field 12 3)) := lacks_decimal (by decide) (by decide) _
    have size (w : Word) : (if w.bit 11 then ".L" else ".W").toList.head? = some '.' := by
      cases w.bit 11 <;> rfl
    rw [indexRegister, indexRegister, class_eq, String.append_assoc, String.append_assoc,
      String.append_right_inj] at same
    obtain ⟨numbers, sizes⟩ := append_inj_of_head (number x) (number y) (size x) (size y) same
    rw [decimal_natCast, decimal_natCast] at numbers
    refine ⟨class_eq, Nat.repr_inj.mp numbers, ?_⟩
    cases first : x.bit 11 <;> cases second : y.bit 11 <;> simp [first, second] at sizes ⊢
  · rintro ⟨class_eq, number, size⟩
    rw [indexRegister, indexRegister, class_eq, number, size]

/-- The mask of a low byte. -/
theorem and_byte {x y : Word} : x &&& 0x00FF = y &&& 0x00FF ↔ x.field 0 8 = y.field 0 8 := by
  have counts : ∀ i < 16, Word.bit 0x00FF i = decide (i < 8) := by decide
  rw [and_eq_and_iff, field_eq_field_iff]
  simp only [Nat.zero_add]
  constructor
  · intro agree i small
    exact agree i (by omega) (by rw [counts i (by omega), decide_eq_true small])
  · intro agree i inside set
    rw [counts i inside, decide_eq_true_eq] at set
    exact agree i set

/-- The mask of an index word leaves out bits 10 to 8. -/
theorem and_index {x y : Word} : x &&& 0xF8FF = y &&& 0xF8FF ↔
    x.field 0 8 = y.field 0 8 ∧ x.field 11 5 = y.field 11 5 := by
  have counts : ∀ i < 16, Word.bit 0xF8FF i = decide (i < 8 ∨ 11 ≤ i) := by decide
  rw [and_eq_and_iff, field_eq_field_iff, field_eq_field_iff]
  simp only [Nat.zero_add]
  constructor
  · intro agree
    refine ⟨?_, ?_⟩
    · intro i small
      exact agree i (by omega) (by rw [counts i (by omega)]; simp [small])
    · intro i small
      exact agree (11 + i) (by omega) (by rw [counts (11 + i) (by omega)]; simp)
  · rintro ⟨low, high⟩ i inside set
    rw [counts i inside, decide_eq_true_eq] at set
    rcases set with small | large
    · exact low i small
    · have here := high (i - 11) (by omega)
      rwa [Nat.add_sub_cancel' large] at here

end Word

/-! ## Operands -/

/-- The bits of immediate data that count. Of the word of a byte this is the low half. -/
def Size.significant : Size → List Word
  | .byte => [0x00FF]
  | .word => [0xFFFF]
  | .long => [0xFFFF, 0xFFFF]
  | .reserved => []

/-- The bits that count in the extension words of an operand. An index word has three bits that
    do not. -/
def Mode.significant (m : Mode) (size : Size) : List Word :=
  match m with
  | .displacement | .absoluteShort | .pcDisplacement => [0xFFFF]
  | .index | .pcIndex => [0xF8FF]
  | .absoluteLong => [0xFFFF, 0xFFFF]
  | .immediate => size.significant
  | _ => []

/-- A word as digits. -/
theorem delimited_digits (letters : LetterCase) (sign : String) :
    Delimited [0xFFFF] fun u => sign ++ hex letters 4 (u 0).toNat := by
  refine ⟨tells_whole (fun w => sign ++ hex letters 4 w.toNat) fun x y same => ?_, ?_⟩
  · rw [String.append_right_inj] at same
    exact UInt16.toNat_inj.mp (hex_inj x.toNat_lt y.toNat_lt same)
  · refine prefixFree_of_length (sign.toList.length + 4) fun u => ?_
    rw [String.toList_append, List.length_append, toList_hex, length_hexDigits]

/-- Two words as digits. -/
theorem delimited_long (letters : LetterCase) (sign : String) :
    Delimited [0xFFFF, 0xFFFF] fun u => sign ++ hex letters 4 (u 0).toNat ++ hex letters 4 (u 1).toNat := by
  have first := delimited_digits letters sign
  have second := delimited_digits letters ""
  simp only [String.empty_append] at second
  refine ⟨first.tells.append second.tells (first.free.separates _), ?_⟩
  refine prefixFree_of_length (sign.toList.length + 8) fun u => ?_
  simp only [String.toList_append, List.length_append, toList_hex, length_hexDigits, Nat.add_assoc]

theorem Size.delimited_immediateText {size : Size} (known : size ≠ .reserved) (letters : LetterCase) :
    Delimited size.significant fun u =>
      let extension := (List.range size.immediateWords).map u
      size.immediateText letters (extension.getD 0 0) (extension.getD 1 0) := by
  cases size with
  | byte =>
    refine ⟨tells_word (fun w => "#$" ++ hex letters 2 (w.field 0 8)) fun x y => ?_, ?_⟩
    · rw [Word.and_byte, String.append_right_inj]
      exact ⟨hex_inj (x.field_lt 0 8) (y.field_lt 0 8), congrArg (hex letters 2)⟩
    · exact prefixFree_of_length 4 fun u => by simp [immediateText, String.toList_append]
  | word => exact delimited_digits letters "#$"
  | long => exact delimited_long letters "#$"
  | reserved => exact absurd rfl known

/-- A distance is told by a text that goes on with a bracket. -/
theorem tells_distance (rest : Word → String) (opens : ∀ w, (rest w).toList.head? = some '(') :
    Tells [0xFFFF] fun u => signed (u 0).signed ++ rest (u 0) := by
  refine tells_whole (fun w => signed w.signed ++ rest w) fun x y same => ?_
  have plain (n : Int) : Lacks '(' (signed n) := lacks_signed (by decide) (by decide) (by decide) n
  exact Word.signed_inj (signed_inj.mp (append_inj_of_head (plain _) (plain _) (opens x) (opens y) same).1)

/-- A distance and an index register in brackets. -/
theorem delimited_index {b : String} (opens : b.toList.head? = some '(') (plain : Lacks ')' b) :
    Delimited [0xF8FF] fun u => signed (u 0).lowSigned ++ b ++ (u 0).indexRegister ++ ")" := by
  have open_lacks (n : Int) : Lacks '(' (signed n) := lacks_signed (by decide) (by decide) (by decide) n
  have close_lacks (n : Int) : Lacks ')' (signed n) := lacks_signed (by decide) (by decide) (by decide) n
  refine ⟨tells_word (fun w => signed w.lowSigned ++ b ++ w.indexRegister ++ ")") fun x y => ?_, ?_⟩
  · rw [Word.and_index, ← Word.indexRegister_inj]
    constructor
    · intro same
      rw [String.append_left_inj, String.append_assoc, String.append_assoc] at same
      obtain ⟨distance, register⟩ := append_inj_of_head (open_lacks _) (open_lacks _) (head?_append opens _)
        (head?_append opens _) same
      exact ⟨Word.lowSigned_inj (signed_inj.mp distance), (String.append_right_inj _).mp register⟩
    · rintro ⟨distance, register⟩
      have low : x.lowSigned = y.lowSigned := congrArg (fun n : Nat => Int.bmod n 256) distance
      simp only [low, register]
  · refine prefixFree_of_end ')' (fun u => signed (u 0).lowSigned ++ b ++ (u 0).indexRegister) ")" (by simp) ?_
    intro u
    have register := Word.lacks_indexRegister (c := ')') (by decide) (by decide) (by decide) (u 0)
    exact lacks_append.mpr ⟨lacks_append.mpr ⟨close_lacks _, plain⟩, register⟩

/-- An operand that can be written tells the bits that count and shows where it ends. -/
theorem Operand.delimited_text {o : Operand} (sound : o.fault? = none) (after : Address) :
    Delimited (o.mode.significant o.size) fun u => o.text after ((List.range o.words).map u) := by
  obtain ⟨mode, register, size⟩ := o
  have number : Lacks ')' (decimal register) := lacks_decimal (by decide) (by decide) register
  cases mode with
  | dataRegister | addressRegister | indirect | postincrement | predecrement => exact delimited_const _
  | displacement =>
    show Delimited [0xFFFF] fun u => signed (u 0).signed ++ "(A" ++ decimal register ++ ")"
    refine ⟨?_, prefixFree_of_end ')' (fun u => signed (u 0).signed ++ "(A" ++ decimal register) ")" (by simp) ?_⟩
    · have tells := tells_distance (fun _ => "(A" ++ decimal register ++ ")") fun _ =>
        head?_append (head?_append (by decide) _) _
      simpa only [String.append_assoc] using tells
    · intro u
      simp +decide [lacks_signed, number]
  | index =>
    show Delimited [0xF8FF] fun u => signed (u 0).lowSigned ++ "(A" ++ decimal register ++ "," ++
      (u 0).indexRegister ++ ")"
    have delimited := delimited_index (b := "(A" ++ decimal register ++ ",")
      (head?_append (head?_append (by decide) _) _) (by simp +decide [number])
    simpa only [String.append_assoc] using delimited
  | absoluteShort => exact delimited_digits .lower "$0000"
  | absoluteLong => exact delimited_long .lower "$"
  | pcDisplacement =>
    show Delimited [0xFFFF] fun u => signed (u 0).signed ++ "(PC) \x7b" ++ (u 0).relativeTarget after ++ "\x7d"
    refine ⟨?_, prefixFree_of_end '\x7d'
      (fun u => signed (u 0).signed ++ "(PC) \x7b" ++ (u 0).relativeTarget after) "\x7d" (by simp) ?_⟩
    · have tells := tells_distance (fun w => "(PC) \x7b" ++ w.relativeTarget after ++ "\x7d") fun _ =>
        head?_append (head?_append (by decide) _) _
      simpa only [String.append_assoc] using tells
    · intro u
      have target : Lacks '\x7d' ((u 0).relativeTarget after) := by
        rw [Word.relativeTarget, lacks_append]
        exact ⟨by decide, lacks_hex (by decide) .lower 8 _⟩
      simp +decide [lacks_signed, target]
  | pcIndex => exact delimited_index (b := "(PC,") (by decide) (by decide)
  | immediate =>
    refine Size.delimited_immediateText ?_ .lower
    rintro rfl
    cases sound
  | invalid code => cases sound

end M68k
