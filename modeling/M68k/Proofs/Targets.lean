import Mathlib
import M68k.Proofs.Fields
import M68k.Proofs.InstructionText
import M68k.Proofs.Reachability

/-!
Targets survive the trip through text. The words of an instruction say where it leads
(`Form.destination?`, with signs extended by the fixed-width types); the operand text shows
that address behind its only dollar sign (`ShowsAddress`), and that is where it is found and
replaced again.
-/
namespace M68k

open Text

/-! ## Distances -/

theorem Address.ofInt_eq (n : Int) : UInt32.ofInt n = (Int32.ofInt n).toUInt32 := by
  apply UInt32.toNat_inj.mp
  rw [toNat_ofInt]
  exact (BitVec.toNat_ofInt n).symm

namespace Word

theorem ofInt_signed (w : Word) : UInt32.ofInt w.signed = w.toInt16.toInt32.toUInt32 := by
  have value : w.signed = w.toInt16.toInt := (BitVec.toInt_eq_toNat_bmod w.toBitVec).symm
  rw [value, Address.ofInt_eq, Int32.ofInt_int16ToInt]

theorem ofInt_lowSigned (w : Word) : UInt32.ofInt w.lowSigned = w.toUInt8.toInt8.toInt32.toUInt32 := by
  have byte : w.field 0 8 = w.toUInt8.toNat := by
    rw [field_eq, Nat.pow_zero, Nat.div_one]
    exact (UInt16.toNat_toUInt8 w).symm
  have value : w.lowSigned = w.toUInt8.toInt8.toInt := by
    unfold lowSigned
    rw [byte]
    generalize w.toUInt8 = low
    exact (BitVec.toInt_eq_toNat_bmod low.toBitVec).symm
  rw [value, Address.ofInt_eq, Int32.ofInt_int8ToInt]

end Word

/-! ## Addresses in text -/

theorem Text.hexDigits_append (letters : LetterCase) (m n x : Nat) {y : Nat} (small : y < 16 ^ n) :
    hexDigits letters (m + n) (x * 16 ^ n + y) = hexDigits letters m x ++ hexDigits letters n y := by
  induction n generalizing y with
  | zero =>
    have zero : y = 0 := by simpa using small
    simp [zero, hexDigits]
  | succ n ih =>
    have upper : y / 16 < 16 ^ n := Nat.div_lt_of_lt_mul (by rwa [Nat.pow_succ'] at small)
    have factor : x * 16 ^ (n + 1) = 16 * (x * 16 ^ n) := by
      rw [Nat.pow_succ, ← Nat.mul_assoc, Nat.mul_comm]
    have split : (x * 16 ^ (n + 1) + y) / 16 = x * 16 ^ n + y / 16 := by omega
    have digit : (x * 16 ^ (n + 1) + y) % 16 = y % 16 := by omega
    rw [← Nat.add_assoc, hexDigits, hexDigits, split, digit, ih upper, List.append_assoc]

theorem Text.hex_append (letters : LetterCase) (m n x : Nat) {y : Nat} (small : y < 16 ^ n) :
    hex letters (m + n) (x * 16 ^ n + y) = hex letters m x ++ hex letters n y := by
  apply String.toList_inj.mp
  simp only [String.toList_append, toList_hex, hexDigits_append letters m n x small]

theorem Text.hexValue?_dollar : hexValue? '$' = none := by decide

namespace ShownAddress

theorem find?_of_lacks {text : String} (plain : Lacks '$' text) : find? text = none := by
  have rest : text.toList.dropWhile (· != '$') = [] := by
    rw [List.dropWhile_eq_nil_iff]
    intro c member
    rw [bne_iff_ne]
    rintro rfl
    exact plain member
  simp [find?, rest]

/-- The digits behind the first dollar sign are found if they end the text or a character
    follows that is neither a digit nor a bracket. -/
theorem find?_eq {before digits after : List Char} (plain : '$' ∉ before) (present : digits ≠ [])
    (each : ∀ c ∈ digits, isDigit c = true) (ends : ∀ c ∈ after.head?, isDigit c = false ∧ c ≠ '(') :
    find? (String.ofList (before ++ '$' :: digits ++ after)) = some { before, digits, after } := by
  have front : ∀ c ∈ before, (c != '$') = true := by
    intro c member
    rw [bne_iff_ne]
    rintro rfl
    exact plain member
  have taken : (digits ++ after).takeWhile isDigit = digits := by
    rw [List.takeWhile_append_of_pos each]
    cases after with
    | nil => simp
    | cons c rest => simp [(ends c rfl).1]
  have left : (digits ++ after).dropWhile isDigit = after := by
    rw [List.dropWhile_append_of_pos each]
    cases after with
    | nil => rfl
    | cons c rest => simp [(ends c rfl).1]
  have bracket : after.head? ≠ some '(' := fun opened => (ends '(' opened).2 rfl
  simp [find?, List.takeWhile_append_of_pos front, List.dropWhile_append_of_pos front, taken, left,
    present, bracket]

end ShownAddress

/-- A text shows an address: behind its only dollar sign stand eight digits, and then at most
    a closing brace. -/
def ShowsAddress (text : String) (t : Address) : Prop :=
  ∃ before after, text = before ++ "$" ++ hex .lower 8 t.toNat ++ after ∧ Lacks '$' before ∧
    (after = "" ∨ after = "\x7d")

namespace ShowsAddress

variable {text : String} {t : Address}

theorem find? (shows : ShowsAddress text t) : ∃ before after : String,
    text = before ++ "$" ++ hex .lower 8 t.toNat ++ after ∧ ShownAddress.find? text = some
      { before := before.toList, digits := hexDigits .lower 8 t.toNat, after := after.toList } := by
  obtain ⟨before, after, rfl, plain, closed⟩ := shows
  refine ⟨before, after, rfl, ?_⟩
  have digits : ∀ c ∈ hexDigits .lower 8 t.toNat, ShownAddress.isDigit c = true := fun c member =>
    isSome_hexValue? member
  have present : hexDigits .lower 8 t.toNat ≠ [] := by
    simp [hexDigits]
  have ends : ∀ c ∈ after.toList.head?, ShownAddress.isDigit c = false ∧ c ≠ '(' := by
    intro c member
    rcases closed with rfl | rfl
    · simp at member
    · obtain rfl : '\x7d' = c := by simpa using member
      decide
  have found := ShownAddress.find?_eq plain present digits ends
  rwa [show String.ofList (before.toList ++ '$' :: hexDigits .lower 8 t.toNat ++ after.toList) =
    before ++ "$" ++ hex .lower 8 t.toNat ++ after by
      apply String.toList_inj.mp
      simp [String.toList_append]] at found

theorem shownAddress? (shows : ShowsAddress text t) : M68k.shownAddress? text = some t := by
  obtain ⟨before, after, _, found⟩ := shows.find?
  have value : ofHexDigits (hexDigits .lower 8 t.toNat) = t.toNat :=
    ofHexDigits_hexDigits .lower t.toNat_lt
  rw [M68k.shownAddress?, found, Option.bind_some, ShownAddress.address?, value, if_pos t.toNat_lt_size,
    UInt32.ofNat_toNat]

theorem count_dollar (shows : ShowsAddress text t) : text.toList.count '$' = 1 := by
  obtain ⟨before, after, rfl, plain, closed⟩ := shows
  have digits : '$' ∉ hexDigits .lower 8 t.toNat := by
    simpa [Lacks] using lacks_hex hexValue?_dollar .lower 8 t.toNat
  have behind : '$' ∉ after.toList := by
    rcases closed with rfl | rfl
    · decide
    · decide
  simp [String.toList_append, List.count_eq_zero_of_not_mem plain,
    List.count_eq_zero_of_not_mem digits, List.count_eq_zero_of_not_mem behind]

/-- Only the dollar sign and the digits make room for a name. -/
theorem nameShownAddress (shows : ShowsAddress text t) : ∃ before after : String,
    text = before ++ "$" ++ hex .lower 8 t.toNat ++ after ∧
      ∀ name, M68k.nameShownAddress text name = before ++ name ++ after := by
  obtain ⟨before, after, same, found⟩ := shows.find?
  refine ⟨before, after, same, ?_⟩
  intro name
  simp [M68k.nameShownAddress, found, ShownAddress.replace]

end ShowsAddress

/-! ## Destinations -/

/-- Where an instruction at an address leads to, by its words: a branch and a loop to a
    distance from behind the instruction word, a jump and a far call to an absolute address
    or to a distance from the program counter. -/
def Form.destination? (f : Form) (op first second : Word) (a : Address) : Option Address :=
  match f with
  | .branch =>
    some (a + 2 + if op.field 0 8 = 0 then first.toInt16.toInt32.toUInt32
      else op.toUInt8.toInt8.toInt32.toUInt32)
  | .decrementBranch => some (a + 2 + first.toInt16.toInt32.toUInt32)
  | .jmp | .jsr =>
    match Mode.ofField op with
    | .absoluteShort => some first.toUInt32
    | .absoluteLong => some (UInt32.ofNat (first.toNat * 65536 + second.toNat))
    | .pcDisplacement => some (a + 2 + first.toInt16.toInt32.toUInt32)
    | _ => none
  | _ => none

/-- The text of operands agrees with a destination: it shows the address, or has no dollar
    sign if there is none. -/
def Agrees (text : String) : Option Address → Prop
  | some t => ShowsAddress text t
  | none => Lacks '$' text

theorem Agrees.shownAddress? {text : String} {destination : Option Address}
    (agrees : Agrees text destination) : M68k.shownAddress? text = destination := by
  cases destination with
  | some t => exact ShowsAddress.shownAddress? agrees
  | none => simp [M68k.shownAddress?, ShownAddress.find?_of_lacks agrees]

/-- A target behind its displacement word is relative to that word's own address. -/
theorem Word.relativeTarget_eq (w : Word) (a : Address) :
    w.relativeTarget (a.advance 4) = "$" ++ hex .lower 8 (a + 2 + w.toInt16.toInt32.toUInt32).toNat := by
  have base : a.advance 4 - 2 = a + 2 := by
    simp only [Address.advance]
    grind
  rw [relativeTarget, base, Address.offset, ofInt_signed]

theorem Operand.agrees_text {o : Operand} (control : o.mode.isControl = true) (a : Address)
    (first second : Word) :
    Agrees (o.text (a.advance (2 + 2 * o.words)) ([first, second].take o.words))
      (match o.mode with
        | .absoluteShort => some first.toUInt32
        | .absoluteLong => some (UInt32.ofNat (first.toNat * 65536 + second.toNat))
        | .pcDisplacement => some (a + 2 + first.toInt16.toInt32.toUInt32)
        | _ => none) := by
  obtain ⟨mode, register, size⟩ := o
  have number : Lacks '$' (decimal register) := lacks_decimal (by decide) (by decide) register
  have distance : ∀ n, Lacks '$' (signed n) := lacks_signed (by decide) (by decide) (by decide)
  cases mode with
  | absoluteShort =>
    refine ⟨"", "", ?_, by decide, .inl rfl⟩
    have digits : hex .lower 8 first.toUInt32.toNat = "0000" ++ hex .lower 4 first.toNat := by
      have joined := hex_append .lower 4 4 0 first.toNat_lt
      rw [Nat.zero_mul, Nat.zero_add] at joined
      rw [UInt16.toNat_toUInt32]
      exact joined
    rw [digits, String.append_empty, String.empty_append, ← String.append_assoc]
    rfl
  | absoluteLong =>
    refine ⟨"", "", ?_, by decide, .inl rfl⟩
    have fits : first.toNat * 65536 + second.toNat < 2 ^ 32 := by
      have upper := first.toNat_lt
      have lower := second.toNat_lt
      omega
    have digits : hex .lower 8 (first.toNat * 65536 + second.toNat) =
        hex .lower 4 first.toNat ++ hex .lower 4 second.toNat :=
      hex_append .lower 4 4 first.toNat second.toNat_lt
    rw [UInt32.toNat_ofNat_of_lt' fits, digits, String.append_empty, String.empty_append,
      ← String.append_assoc]
    rfl
  | pcDisplacement =>
    refine ⟨signed first.signed ++ "(PC) \x7b", "\x7d", ?_, by simp +decide [distance], .inr rfl⟩
    have text : Operand.text ⟨.pcDisplacement, register, size⟩ (a.advance 4) [first] =
      signed first.signed ++ "(PC) \x7b" ++ first.relativeTarget (a.advance 4) ++ "\x7d" := rfl
    rw [first.relativeTarget_eq, ← String.append_assoc] at text
    exact text
  | indirect => simp +decide [Agrees, Operand.text, number]
  | displacement => simp +decide [Agrees, Operand.text, number, distance]
  | index | pcIndex =>
    have register : ∀ w : Word, Lacks '$' w.indexRegister :=
      Word.lacks_indexRegister (by decide) (by decide) (by decide)
    simp +decide [Agrees, Operand.text, number, distance, register]
  | _ => simp [Mode.isControl] at control

/-- A cursor behind the instruction word at an address, with `n` extension words in front of
    it, of which these are the first two. -/
structure Cursor.Behind (c : Cursor) (a : Address) (n : Nat) (first second : Word) : Prop where
  place : ∀ k ≤ n, (c.skip k).address = a.advance (2 + 2 * k)
  first : leadingWord c.rest = first
  second : leadingWord (c.skip 1).rest = second

theorem Cursor.behind_start {window : List Byte} {n : Nat} (a : Address)
    (room : 2 * (1 + n) ≤ window.length) :
    ((start window a).skip 1).Behind a n (leadingWord (window.drop 2)) (leadingWord (window.drop 4)) := by
  refine ⟨?_, leadingWord_skip (start window a) 1, ?_⟩
  · intro k few
    have fits : 2 * (1 + k) ≤ (start window a).rest.length := by
      simp only [start]
      omega
    rw [skip_skip, address_skip fits, Nat.mul_add]
    rfl
  · rw [skip_skip]
    exact leadingWord_skip (start window a) 2

namespace Cursor.Behind

variable {c : Cursor} {a : Address} {first second : Word}

theorem text_target (behind : c.Behind a 1 first second) :
    (Reading.ofPieces [.target] c).text =
      "$" ++ hex .lower 8 (a + 2 + first.toInt16.toInt32.toUInt32).toNat := by
  have after : (c.skip 1).address = a.advance 4 := behind.place 1 (by decide)
  rw [Reading.text_cons rfl, Reading.text_nil, String.append_empty, ← first.relativeTarget_eq, ← after,
    ← behind.first]
  simp [Piece.render, Piece.words, List.range_one]

theorem text_nearTarget (behind : c.Behind a 0 first second) (w : Word) :
    (Reading.ofPieces [.nearTarget w.lowSigned] c).text =
      "$" ++ hex .lower 8 (a + 2 + w.toUInt8.toInt8.toInt32.toUInt32).toNat := by
  have after : (c.skip 0).address = a + 2 := behind.place 0 (by decide)
  rw [Reading.text_cons rfl, Reading.text_nil, String.append_empty, ← w.ofInt_lowSigned, ← after]
  rfl

theorem text_operand {o : Operand} (behind : c.Behind a o.words first second)
    (sound : o.fault? = none) :
    (Reading.ofPieces [.operand o] c).text =
      o.text (a.advance (2 + 2 * o.words)) ([first, second].take o.words) := by
  have few : o.words ≤ 2 := o.mode.extensionWords_le o.size
  have words : (List.range o.words).map (fun k => leadingWord (c.skip k).rest) =
      [first, second].take o.words := by
    have two : (List.range 2).map (fun k => leadingWord (c.skip k).rest) = [first, second] := by
      simp [List.range_succ, behind.first, behind.second]
    rw [← two, ← List.map_take, List.take_range, Nat.min_eq_left few]
  have clean : (Piece.operand o).fault? = none := sound
  rw [Reading.text_cons clean, Reading.text_nil, String.append_empty]
  simp only [Piece.words, Piece.render, words, behind.place o.words (Nat.le_refl _)]

end Cursor.Behind

/-- The operand text of a transfer of control agrees with its words, if these are there. -/
theorem Form.agrees_operands {f : Form} (transfer : f ∈ [.branch, .decrementBranch, .jmp, .jsr])
    {style : Style} {op : Word} (accepted : f.accepts style op = true) {c : Cursor} {a : Address}
    {first second : Word} (behind : c.Behind a (f.extensionWords style op) first second) :
    Agrees (Reading.ofPieces (f.operands style op) c).text (f.destination? op first second a) := by
  have control : (Mode.ofField op).isControl = true →
      c.Behind a ((Mode.ofField op).extensionWords .byte) first second →
        Agrees (Reading.ofPieces [.operand (Operand.ofField op .byte)] c).text
          (Form.jmp.destination? op first second a) := by
    intro control behind
    have sound : (Operand.ofField op .byte).fault? = none :=
      Operand.fault?_eq_none (Mode.isValid_of_isControl control) rfl
    rw [Cursor.Behind.text_operand behind sound]
    exact Operand.agrees_text control a first second
  simp only [List.mem_cons, List.not_mem_nil, or_false] at transfer
  rcases transfer with rfl | rfl | rfl | rfl
  · by_cases long : op.field 0 8 = 0
    · simp only [extensionWords, long, if_true] at behind
      refine ⟨"", "", ?_, by decide, .inl rfl⟩
      simp only [operands, entry, Encoding.operands, long, if_true, String.append_empty,
        String.empty_append]
      exact behind.text_target
    · simp only [extensionWords, long, if_false] at behind
      refine ⟨"", "", ?_, by decide, .inl rfl⟩
      simp only [operands, entry, Encoding.operands, long, if_false, String.append_empty,
        String.empty_append]
      exact behind.text_nearTarget op
  · have register : Lacks '$' (Encoding.dataRegister op.lowRegister ++ ",") := by
      simp +decide [Encoding.dataRegister, lacks_decimal]
    refine ⟨Encoding.dataRegister op.lowRegister ++ ",", "", ?_, register, .inl rfl⟩
    rw [String.append_empty, String.append_assoc, ← Cursor.Behind.text_target behind]
    rfl
  · exact control accepted behind
  · exact control accepted behind

/-- Only four forms transfer control to an operand. -/
theorem Form.destination?_eq_none {f : Form} (other : f ∉ [.branch, .decrementBranch, .jmp, .jsr])
    (op first second : Word) (a : Address) : f.destination? op first second a = none := by
  unfold destination?
  split <;> simp_all

namespace Instruction

variable {x : Instruction} {f : Form}

theorem isSome_arrival? (form : x.form = some f) :
    x.arrival?.isSome = decide (f ∈ [Form.branch, .decrementBranch, .jmp, .jsr]) := by
  unfold arrival?
  rw [form]
  cases f <;> rfl

theorem target?_eq_none (form : x.form = some f)
    (other : f ∉ [Form.branch, .decrementBranch, .jmp, .jsr]) : x.target? = none := by
  have still := isSome_arrival? form
  rw [decide_eq_false other, Option.isSome_eq_false_iff, Option.isNone_iff_eq_none] at still
  rw [target?, still]
  rfl

theorem target?_of_agrees (form : x.form = some f)
    (transfer : f ∈ [Form.branch, .decrementBranch, .jmp, .jsr]) {destination : Option Address}
    (agrees : Agrees x.operands destination) : x.target?.map (·.1) = destination := by
  have moves := isSome_arrival? form
  rw [decide_eq_true transfer, Option.isSome_iff_exists] at moves
  obtain ⟨arrival, moves⟩ := moves
  rw [target?, moves, Option.bind_some, agrees.shownAddress?, Option.map_map]
  exact Option.map_id'

end Instruction

/-- Branch targets survive the trip through text. A complete instruction has the target that
    its words give, and no other; it is a call for the far call and for the branch that never
    holds; the operands show it behind their only dollar sign as eight digits, and naming it
    replaces the dollar sign and the digits and nothing else. -/
theorem Decoder.target_survives_text (d : Decoder) (window : List Byte) (a : Address)
    (complete : (d.decode (Cursor.start window a)).cursor.overflow = false) :
    let x := (d.decode (Cursor.start window a)).instruction
    x.target?.map (·.1) = x.form.bind (·.destination? (leadingWord window)
      (leadingWord (window.drop 2)) (leadingWord (window.drop 4)) a) ∧
    ∀ t arrival, x.target? = some (t, arrival) → (arrival = .call ↔ x.IsCall) ∧
      x.operands.toList.count '$' = 1 ∧
      ∃ before after, x.operands = before ++ "$" ++ hex .lower 8 t.toNat ++ after ∧
        ∀ name, nameShownAddress x.operands name = before ++ name ++ after := by
  intro x
  cases found : Form.select? d.style (leadingWord window) with
  | none =>
    have read : x = _ := (d.decode_unmatched (c := Cursor.start window a) found).1
    have nowhere : x.target? = none := by
      rw [read]
      rfl
    refine ⟨?_, ?_⟩
    · rw [nowhere, read]
      rfl
    · intro t arrival leads
      rw [nowhere] at leads
      cases leads
  | some f =>
    obtain ⟨read, cursor⟩ := d.decode_matched (c := Cursor.start window a) found
    have form : x.form = some f := congrArg Instruction.form read
    rw [form, Option.bind_some]
    by_cases transfer : f ∈ [Form.branch, .decrementBranch, .jmp, .jsr]
    · rw [cursor] at complete
      have room : 2 * (1 + f.extensionWords d.style (leadingWord window)) ≤ window.length :=
        Nat.le_of_not_lt (of_decide_eq_false complete)
      have agrees := Form.agrees_operands transfer (Form.accepts_of_select? found)
        (Cursor.behind_start a room)
      have operands : x.operands = (Reading.ofPieces (f.operands d.style (leadingWord window))
          ((Cursor.start window a).skip 1)).text := congrArg Instruction.operands read
      rw [← operands] at agrees
      have known := Instruction.target?_of_agrees form transfer agrees
      refine ⟨known, ?_⟩
      intro t arrival leads
      rw [← known, leads] at agrees
      have shows : ShowsAddress x.operands t := agrees
      exact ⟨Instruction.call_iff leads, shows.count_dollar, shows.nameShownAddress⟩
    · have nowhere : x.target? = none := Instruction.target?_eq_none form transfer
      refine ⟨by rw [nowhere, Form.destination?_eq_none transfer]; rfl, ?_⟩
      intro t arrival leads
      rw [nowhere] at leads
      cases leads

/-- A far call at address 0 to a place below it, across the end of the address space: the
    target is read from the text and makes room for its name there. -/
theorem Decoder.target_survives_text_wrapping :
    let x := (({} : Decoder).decode (Cursor.start [0x4E, 0xBA, 0xFF, 0xF0] 0)).instruction
    x.target? = some (0xFFFFFFF2, .call) ∧ x.operands = "-16(PC) \x7b$fffffff2\x7d" ∧
      x.operands.toList.count '$' = 1 ∧ x.IsCall := by
  intro x
  have complete : (({} : Decoder).decode (Cursor.start [0x4E, 0xBA, 0xFF, 0xF0] 0)).cursor.overflow =
    false := by decide +kernel
  have target : x.target? = some (0xFFFFFFF2, .call) := by decide +kernel
  have operands : x.operands = "-16(PC) \x7b$fffffff2\x7d" := by decide +kernel
  obtain ⟨_, survives⟩ := Decoder.target_survives_text {} [0x4E, 0xBA, 0xFF, 0xF0] 0 complete
  obtain ⟨call, once, _⟩ := survives 0xFFFFFFF2 .call target
  exact ⟨target, operands, once, call.mp rfl⟩

end M68k
