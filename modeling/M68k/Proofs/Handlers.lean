import Mathlib
import M68k.Proofs.Acceptance
import M68k.Proofs.Fields
import M68k.Proofs.Reading

/-!
Candidates as programs. The catalogue says which words a form takes and what its operand field
is made of; a handler does the same step by step, on a cursor that all candidates share and
that nobody puts back. It filters the word, by lists of modes or by their order, asks for one
extension word after the other as it comes to them, notes an operand error, cuts texts. Each
family's handler agrees with the catalogue (`Encoding.reads_handle`): it has read nothing when it
turns a word down, and when it does not it has read the words that its pieces announce, notes no
error and stays within its texts.
-/
namespace M68k

open Text (hex decimal signed)

/-- A step whose run is known is followed by the steps behind it. -/
theorem run_bind_of_run {σ α β : Type} {x : StateM σ α} {s after : σ} {a : α} (done : x.run s = (a, after))
    (next : α → StateM σ β) : (x >>= next).run s = (next a).run after := by
  rw [StateT.run_bind, done]
  rfl

theorem run_bind_of_ok {ε σ α β : Type} {x : EStateM ε σ α} {s after : σ} {a : α} (done : x.run s = .ok a after)
    (next : α → EStateM ε σ β) : (x >>= next).run s = (next a).run after := by
  simp only [EStateM.run, bind, EStateM.bind] at done ⊢
  rw [done]

/-! ## Operands word by word -/

namespace Operand

/-- The next word. -/
def nextWord : StateM Cursor Word := Cursor.readWord

/-- The text of an operand, written while its words are read one after the other. -/
def transcribe (o : Operand) : StateM Cursor (Except OperandError String) :=
  let register := decimal o.register
  match o.mode with
  | .dataRegister => return .ok ("D" ++ register)
  | .addressRegister => return .ok ("A" ++ register)
  | .indirect => return .ok ("(A" ++ register ++ ")")
  | .postincrement => return .ok ("(A" ++ register ++ ")+")
  | .predecrement => return .ok ("-(A" ++ register ++ ")")
  | .displacement => do
    let distance ← nextWord
    return .ok (signed distance.signed ++ "(A" ++ register ++ ")")
  | .index => do
    let extension ← nextWord
    return .ok (signed extension.lowSigned ++ "(A" ++ register ++ "," ++ extension.indexRegister ++ ")")
  | .absoluteShort => do
    let low ← nextWord
    return .ok ("$0000" ++ hex .lower 4 low.toNat)
  | .absoluteLong => do
    let high ← nextWord
    let low ← nextWord
    return .ok ("$" ++ hex .lower 4 high.toNat ++ hex .lower 4 low.toNat)
  | .pcDisplacement => do
    let distance ← nextWord
    let place ← get
    -- The distance counts from the word that holds it, and the cursor is behind that.
    let target := place.address - 2 + UInt32.ofInt distance.signed
    return .ok (signed distance.signed ++ "(PC) \x7b" ++ ("$" ++ hex .lower 8 target.toNat) ++ "\x7d")
  | .pcIndex => do
    let extension ← nextWord
    return .ok (signed extension.lowSigned ++ "(PC," ++ extension.indexRegister ++ ")")
  | .immediate =>
    match o.size with
    | .byte => do
      let data ← nextWord
      return .ok ("#$" ++ hex .lower 2 (data.field 0 8))
    | .word => do
      let data ← nextWord
      return .ok ("#$" ++ hex .lower 4 data.toNat)
    | .long => do
      let high ← nextWord
      let low ← nextWord
      return .ok ("#$" ++ hex .lower 4 high.toNat ++ hex .lower 4 low.toNat)
    | .reserved => return .error .invalidSize
  | .invalid code => return .error (.invalidMode code)

/-- The words that a mode asks for one by one are those that its operand announces. -/
theorem run_transcribe (o : Operand) (c : Cursor) : o.transcribe.run c = o.read c := by
  obtain ⟨mode, register, size⟩ := o
  cases mode with
  | immediate => cases size <;> rfl
  | _ => rfl

end Operand

/-! ## Steps -/

/-- What a candidate works on: the cursor as the candidates before it have left it, and the
    first error among its own operands. -/
structure Trial where
  cursor : Cursor
  error : Option OperandError := none
deriving DecidableEq, Repr

/-- How a candidate can end without a text. -/
inductive Abort where
  /-- The fields of the word make no sense for it. -/
  | rejected
  /-- A text was cut outside its bounds. -/
  | outOfRange
deriving DecidableEq, Repr

/-- One candidate at work. What it has read stays read, also if it ends without a text. -/
abbrev Handler := EStateM Abort Trial

namespace Handler

/-- Goes on only if the word passes. -/
def filter (passes : Bool) : Handler Unit := if passes then pure () else throw .rejected

/-- The next extension word. -/
def extension : Handler Word := fun trial =>
  .ok trial.cursor.readWord.1 { trial with cursor := trial.cursor.readWord.2 }

/-- The address behind all that has been read. -/
def place : Handler Address := fun trial => .ok trial.cursor.address trial

/-- The text of an operand. An error is noted if it is the first, and leaves no text. -/
def operand (o : Operand) : Handler String := fun trial =>
  match o.transcribe.run trial.cursor with
  | (.ok text, cursor) => .ok text { trial with cursor }
  | (.error error, cursor) => .ok "" { cursor, error := trial.error <|> some error }

/-- Immediate data in front of an effective address. All that is neither a byte nor a word has
    a second word. -/
def immediateSource (size : Size) : Handler String := do
  let data ← extension
  match size with
  | .byte => return "#$" ++ hex .upper 2 (data.field 0 8)
  | .word => return "#$" ++ hex .upper 4 data.toNat
  | _ => do
    let low ← extension
    return "#$" ++ hex .upper 4 data.toNat ++ hex .upper 4 low.toNat

/-- A text with one extension word in it. -/
def oneWord (text : Word → String) : Handler String := do
  let w ← extension
  return text w

def bitNumber (mask : Word) : Handler String := oneWord fun bit => "#" ++ decimal (bit &&& mask).toNat

def frameSize : Handler String := oneWord fun size => "#" ++ signed size.signed

def offset : Handler String := oneWord fun distance => "$" ++ hex .upper 4 distance.toNat

def statusWord : Handler String := oneWord fun status => "#$" ++ hex .upper 4 status.toNat

/-- The registers that a mask names, each with a comma behind it. -/
def registers (backwards : Bool) : Handler String := oneWord fun mask =>
  String.join ((RegisterList.entries (if backwards then mask.reversed else mask)).map (· ++ ","))

/-- The target at a distance in an extension word. It counts from that word, and the cursor is
    behind it. -/
def farTarget : Handler String := do
  let distance ← extension
  let behind ← place
  return "$" ++ hex .lower 8 (behind - 2 + UInt32.ofInt distance.signed).toNat

/-- The target at a distance from the instruction word. -/
def nearTarget (distance : Int) : Handler String := do
  let behind ← place
  return "$" ++ hex .lower 8 (behind + UInt32.ofInt distance).toNat

/-- The text in front of a place, counted in characters. -/
def slice (text : String) (stop : Int) : Handler String :=
  if 0 ≤ stop ∧ stop ≤ text.length then pure (String.ofList (text.toList.take stop.toNat))
  else throw .outOfRange

/-- A text without the comma at its end. -/
def withoutComma (text : String) : String :=
  if text.toList.getLast? = some ',' then String.ofList text.toList.dropLast else text

/-- A list of registers behind the address that they are loaded from. Each register in it is
    followed by a comma, and the last comma is cut off. -/
def loaded (style : Style) (list : String) : Handler String :=
  if list = "" then return ","
  else match style with
    | .corrected => return "," ++ withoutComma list
    | .classic => do
      let registers ← slice list (list.length - 1)
      return "," ++ registers ++ " "

end Handler

open Handler in
/-- A family's handler: one filter after the other, some by lists of modes and some by their
    order, then the operand field from left to right. -/
def Encoding.handle (e : Encoding) (style : Style) (name : String) (w : Word) :
    Handler (String × String) :=
  let mode := Mode.ofField w
  let size := e.size w
  let mnemonic := e.mnemonic style name w
  let address := operand (Operand.ofField w size)
  let low := w.lowRegister
  let high := w.highRegister
  match e with
  | .packedDecimal => return (mnemonic, decimalPair style w)
  | .dyadic kind => do
    filter size.isValid
    filter !(kind = .arithmetic && mode = .addressRegister && size = .byte)
    filter !(kind = .exclusive && !w.bit 8)
    filter !(w.bit 8 && Mode.pcDisplacement.code ≤ mode.code)
    filter mode.isValid
    filter (style = .classic || !(w.bit 8 && mode = .addressRegister))
    filter (style = .classic || !(w.bit 8 && mode = .dataRegister && kind != .exclusive))
    filter (style = .classic || !(kind = .logical && mode = .addressRegister))
    let operand ← address
    return (mnemonic, if w.bit 8 then dataRegister high ++ "," ++ operand
      else operand ++ "," ++ dataRegister high)
  | .addressArithmetic => do
    filter mode.isValid
    let source ← address
    return (mnemonic, source ++ "," ++ addressRegister (if style = .classic then low else high))
  | .addressCompare => do
    filter mode.isValid
    let source ← address
    return (mnemonic, source ++ "," ++ addressRegister high)
  | .immediate status => do
    filter size.isValid
    filter !(mode = .addressRegister || mode = .pcDisplacement || mode = .pcIndex || !mode.isValid)
    filter !(mode = .immediate && !status)
    let source ← immediateSource size
    let destination ← if mode = .immediate then pure (statusRegister style size) else address
    return (mnemonic, source ++ "," ++ destination)
  | .quick => do
    filter size.isValid
    filter !(Mode.pcDisplacement.code ≤ mode.code)
    filter !(size = .byte && mode = .addressRegister)
    let destination ← address
    return (mnemonic, count high ++ "," ++ destination)
  | .extended => do
    filter size.isValid
    return (mnemonic, if w.bit 3 then
        "-(" ++ addressRegister low ++ "),-(" ++ addressRegister high ++ ")"
      else dataRegister low ++ "," ++ dataRegister high)
  | .memoryCompare => do
    filter size.isValid
    return (mnemonic, "(" ++ addressRegister low ++ ")+,(" ++ addressRegister high ++ ")+")
  | .shiftRegister => do
    filter size.isValid
    return (mnemonic, (if w.bit 5 then dataRegister high else count high) ++ "," ++ dataRegister low)
  | .shiftMemory => do
    filter !(mode.code ≤ Mode.addressRegister.code || Mode.pcDisplacement.code ≤ mode.code)
    return (mnemonic, ← address)
  | .branch => do
    let target ← if w.field 0 8 = 0 then farTarget else nearTarget w.lowSigned
    return (mnemonic, target)
  | .decrementBranch => do
    let target ← farTarget
    return (mnemonic, dataRegister low ++ "," ++ target)
  | .setByCondition | .testAndSet => do
    filter !(mode = .addressRegister || Mode.pcDisplacement.code ≤ mode.code)
    return (mnemonic, ← address)
  | .control => do
    filter !(mode ∈ [.dataRegister, .addressRegister, .postincrement, .predecrement])
    filter (mode.code < Mode.immediate.code)
    return (mnemonic, ← address)
  | .loadAddress => do
    filter !(mode ∈ [.dataRegister, .addressRegister, .postincrement, .predecrement])
    filter (mode.code < Mode.immediate.code)
    let source ← address
    return (mnemonic, source ++ "," ++ addressRegister high)
  | .bitByRegister readOnly => do
    filter !(mode = .addressRegister || Mode.immediate.code ≤ mode.code)
    filter !(!readOnly && Mode.pcDisplacement.code ≤ mode.code)
    let destination ← address
    return (mnemonic, dataRegister high ++ "," ++ destination)
  | .bitByNumber readOnly => do
    filter !(mode = .addressRegister || Mode.immediate.code ≤ mode.code)
    filter !(!readOnly && Mode.pcDisplacement.code ≤ mode.code)
    let source ← bitNumber (bitNumberMask style)
    let destination ← address
    return (mnemonic, source ++ "," ++ destination)
  | .compare => do
    filter mode.isValid
    filter size.isValid
    let source ← address
    return (mnemonic, source ++ "," ++ dataRegister high)
  | .wordToRegister => do
    filter !(mode = .addressRegister)
    filter mode.isValid
    let source ← address
    return (mnemonic, source ++ "," ++ dataRegister high)
  | .unary | .test => do
    filter !(mode = .addressRegister || Mode.pcDisplacement.code ≤ mode.code)
    filter size.isValid
    return (mnemonic, ← address)
  | .exchange => do
    filter (w.field 3 5 ∈ [8, 9, 17])
    return (mnemonic, exchanged style w)
  | .extend | .swap => return (mnemonic, dataRegister low)
  | .link => do
    let size ← frameSize
    return (mnemonic, addressRegister low ++ "," ++ size)
  | .unlink => return (mnemonic, addressRegister low)
  | .trap => return (mnemonic, (if style = .corrected then "#" else "") ++ Text.decimal (w.field 0 4))
  | .implied => return (mnemonic, " ")
  | .stop =>
    match style with
    | .classic => return (mnemonic, " ")
    | .corrected => return (mnemonic, ← statusWord)
  | .move => do
    let target := Mode.ofField w.destinationField
    filter size.isValid
    filter mode.isValid
    filter !(target = .addressRegister || Mode.pcDisplacement.code ≤ target.code)
    let source ← address
    let destination ← operand (Operand.ofField w.destinationField size)
    return (mnemonic, source ++ "," ++ destination ++ if style = .classic then " " else "")
  | .moveAddress => do
    filter (size = .word || size = .long)
    filter mode.isValid
    let source ← address
    return (mnemonic, source ++ "," ++ addressRegister high)
  | .moveToStatus register => do
    filter !(mode = .addressRegister || !mode.isValid)
    let source ← address
    return (mnemonic, source ++ "," ++ register)
  | .moveFromStatus => do
    filter !(mode = .addressRegister || Mode.pcDisplacement.code ≤ mode.code)
    let destination ← address
    return (mnemonic, "SR," ++ destination)
  | .moveUserStack =>
    return (mnemonic, if w.bit 3 then "USP," ++ addressRegister low else addressRegister low ++ ",USP")
  | .moveMultiple => do
    filter !(mode.code ≤ Mode.addressRegister.code || Mode.immediate.code ≤ mode.code)
    filter !(!w.bit 10 && mode = .postincrement)
    filter !(w.bit 10 && mode = .predecrement)
    let list ← registers (mode = .predecrement)
    let operand ← address
    if w.bit 10 then return (mnemonic, operand ++ (← loaded style list))
    else return (mnemonic, list ++ operand)
  | .movePeripheral => do
    let offset ← offset
    return (mnemonic, if w.bit 7 then dataRegister high ++ "," ++ offset ++ "(" ++ addressRegister low ++ ")"
      else offset ++ "(" ++ addressRegister low ++ ")," ++ dataRegister high)
  | .moveQuick => return (mnemonic, "#$" ++ Text.hex .upper 2 (w.field 0 8) ++ "," ++ dataRegister high)

namespace Handler

variable {α : Type} {s : Trial}

theorem run_pure (a : α) : (pure a : Handler α).run s = .ok a s := rfl

theorem run_filter (passes : Bool) (next : Unit → Handler α) :
    (filter passes >>= next).run s = if passes then (next ()).run s else .error .rejected s := by
  cases passes <;> rfl

theorem run_extension (next : Word → Handler α) :
    (extension >>= next).run s =
      (next (leadingWord s.cursor.rest)).run { s with cursor := s.cursor.skip 1 } := by
  rw [← s.cursor.readWord_fst, ← s.cursor.readWord_snd]
  rfl

theorem run_place (next : Address → Handler α) : (place >>= next).run s = (next s.cursor.address).run s := rfl

theorem run_slice {text : String} {stop : Int} (low : 0 ≤ stop) (high : stop ≤ text.length)
    (next : String → Handler α) :
    (slice text stop >>= next).run s = (next (String.ofList (text.toList.take stop.toNat))).run s := by
  rw [slice, if_pos ⟨low, high⟩]
  rfl

/-- A step writes a piece: the piece has no fault, and the step reads its words and gives its text. -/
structure Writes (step : Handler String) (p : Piece) : Prop where
  sound : p.fault? = none
  run : ∀ s : Trial, step.run s = .ok (p.textAt s.cursor) { s with cursor := s.cursor.skip p.words }

theorem run_writes {step : Handler String} {p : Piece} (writes : Writes step p) (next : String → Handler α) :
    (step >>= next).run s = (next (p.textAt s.cursor)).run { s with cursor := s.cursor.skip p.words } :=
  run_bind_of_ok (writes.run s) next

theorem writes_operand {o : Operand} (sound : o.fault? = none) : Writes (operand o) (.operand o) where
  sound := sound
  run s := by
    have read : o.transcribe.run s.cursor = (.ok ((Piece.operand o).textAt s.cursor), s.cursor.skip o.words) := by
      rw [o.run_transcribe, Operand.read_sound sound]
    simp only [operand, EStateM.run, read]
    rfl

theorem writes_immediateSource {size : Size} (sound : (Piece.immediate size).fault? = none) :
    Writes (immediateSource size) (.immediate size) where
  sound := sound
  run s := by
    simp only [Piece.textAt, Cursor.readWords_fst]
    cases size with
    | byte | word => exact run_extension _
    | long =>
      rw [immediateSource, run_extension]
      dsimp only
      rw [run_extension, Cursor.skip_skip]
      rfl
    | reserved => cases sound

theorem writes_oneWord {text : Word → String} {p : Piece} (sound : p.fault? = none) (one : p.words = 1)
    (same : ∀ a w, p.render a [w] = text w) : Writes (oneWord text) p where
  sound := sound
  run s := by
    rw [oneWord, run_extension, Piece.textAt, Cursor.readWords_fst, one, ← same (s.cursor.skip 1).address]
    rfl

theorem writes_farTarget : Writes farTarget .target where
  sound := rfl
  run s := by
    rw [farTarget, run_extension, run_place, Piece.textAt, Cursor.readWords_fst]
    rfl

theorem writes_nearTarget (distance : Int) : Writes (nearTarget distance) (.nearTarget distance) where
  sound := rfl
  run s := by
    rw [nearTarget, run_place, Piece.textAt, Piece.words, Cursor.skip_zero]
    rfl

theorem writes_registers (backwards : Bool) : Writes (registers backwards) (.store backwards) :=
  writes_oneWord rfl rfl fun _ _ => rfl

/-- A handler that takes a word reads the given pieces, and one that does not leaves
    everything as it was. -/
def Reads (h : Handler (String × String)) (accepted : Bool) (mnemonic : String)
    (pieces : List Piece) : Prop :=
  ∀ s : Trial, h.run s =
    if accepted then
      .ok (mnemonic, (Reading.ofPieces pieces s.cursor).text)
        { s with cursor := (Reading.ofPieces pieces s.cursor).cursor }
    else .error .rejected s

theorem run_filters (filters : List Bool) (body : Handler α) :
    (filters.foldr (fun passes next => filter passes >>= fun _ => next) body).run s =
      if filters.all id then body.run s else .error .rejected s := by
  induction filters with
  | nil => rfl
  | cons passes rest ih =>
    simp only [List.foldr_cons, run_filter, ih, List.all_cons, id]
    cases passes <;> simp

theorem Reads.of_filters {e : Encoding} {style : Style} {w : Word} {mnemonic : String}
    (filters : List Bool) {body : Handler (String × String)}
    (same : e.accepts style w = filters.all id)
    (reads : e.accepts style w = true → Reads body true mnemonic (e.operands style w)) :
    Reads (filters.foldr (fun passes next => filter passes >>= fun _ => next) body)
      (e.accepts style w) mnemonic (e.operands style w) := by
  intro s
  rw [run_filters, ← same]
  cases accepted : e.accepts style w with
  | true =>
    simp only [if_true]
    exact reads accepted s
  | false => rfl

/-! Lists of registers: cutting off the last comma stays within the list. -/

theorem withoutComma_append (text : String) : withoutComma (text ++ ",") = text := by
  simp [withoutComma]

theorem run_slice_comma (text : String) (next : String → Handler α) :
    (slice (text ++ ",") ((text ++ ",").length - 1) >>= next).run s = (next text).run s := by
  have length : (text ++ ",").length = text.length + 1 := String.length_append ..
  have kept : (text ++ ",").toList.take text.length = text.toList := by
    rw [String.toList_append, ← String.length_toList, List.take_left]
  rw [run_slice (by omega) (by omega), length]
  simp only [Nat.cast_add, Nat.cast_one, add_sub_cancel_right, Int.toNat_natCast, kept, String.ofList_toList]

theorem join_entries {entries : List String} (some : entries ≠ []) :
    String.join (entries.map (· ++ ",")) = ",".intercalate entries ++ "," := by
  induction entries with
  | nil => exact absurd rfl some
  | cons first rest ih =>
    cases rest with
    | nil => simp
    | cons second rest =>
      rw [List.map_cons, String.join_cons, ih (List.cons_ne_nil _ _), String.intercalate_cons_cons]
      simp only [String.append_assoc]

theorem run_loaded (style : Style) (entries : List String) :
    (loaded style (String.join (entries.map (· ++ ",")))).run s =
      .ok (Piece.loadList style entries) s := by
  cases entries with
  | nil => rfl
  | cons first rest =>
    rw [join_entries (List.cons_ne_nil _ _)]
    have some : ",".intercalate (first :: rest) ++ "," ≠ "" := by
      intro empty
      simpa using congrArg String.length empty
    unfold loaded
    rw [if_neg some]
    cases style with
    | classic => exact run_slice_comma _ _
    | corrected =>
      rw [withoutComma_append]
      rfl

/-! The operand fields of most families: one or two places, with text around them. -/

section Fields

variable {first second : Handler String} {p q : Piece} (writes : Writes first p) (mnemonic text : String)

theorem reads_text : Reads (return (mnemonic, text)) true mnemonic [.text text] := by
  intro s
  simp only [run_pure, Reading.ofPieces_text, Reading.ofPieces_nil, String.append_empty, if_true]

include writes

theorem reads_piece : Reads (do let operand ← first; return (mnemonic, operand)) true mnemonic [p] := by
  intro s
  simp only [run_writes writes, run_pure, Reading.ofPieces_cons writes.sound, Reading.ofPieces_nil,
    String.append_empty, if_true]

theorem reads_piece_text :
    Reads (do let operand ← first; return (mnemonic, operand ++ "," ++ text)) true mnemonic
      [p, .text ("," ++ text)] := by
  intro s
  simp only [run_writes writes, run_pure, Reading.ofPieces_cons writes.sound, Reading.ofPieces_text,
    Reading.ofPieces_nil, String.append_empty, String.append_assoc, if_true]

theorem reads_text_piece :
    Reads (do let operand ← first; return (mnemonic, text ++ operand)) true mnemonic
      [.text text, p] := by
  intro s
  simp only [run_writes writes, run_pure, Reading.ofPieces_cons writes.sound, Reading.ofPieces_text,
    Reading.ofPieces_nil, String.append_empty, if_true]

theorem reads_pieces (other : Writes second q) :
    Reads (do let source ← first; let destination ← second
              return (mnemonic, source ++ "," ++ destination)) true mnemonic
      [p, .text ",", q] := by
  intro s
  simp only [run_writes writes, run_writes other, run_pure, Reading.ofPieces_cons writes.sound,
    Reading.ofPieces_cons other.sound, Reading.ofPieces_text, Reading.ofPieces_nil, String.append_empty,
    String.append_assoc, if_true]

end Fields

theorem textAt_store (backwards : Bool) (c : Cursor) : (Piece.store backwards).textAt c =
    let mask := if backwards then (leadingWord c.rest).reversed else leadingWord c.rest
    String.join ((RegisterList.entries mask).map (· ++ ",")) := by
  simp [Piece.textAt, Piece.render, Piece.words, Cursor.readWords, Cursor.readWord_fst]

theorem textAt_load (source : Operand) (style : Style) (c : Cursor) :
    (Piece.load source style).textAt c = (Piece.operand source).textAt (c.skip 1) ++
      Piece.loadList style (RegisterList.entries (leadingWord c.rest)) := by
  have split : c.readWords (1 + source.words) =
      (leadingWord c.rest :: ((c.skip 1).readWords source.words).1,
        ((c.skip 1).readWords source.words).2) := by
    rw [Nat.add_comm, Cursor.readWords, ← c.readWord_fst, ← c.readWord_snd]
  simp [Piece.textAt, Piece.render, Piece.words, split, Cursor.skip_skip]

theorem reads_load {source : Operand} (sound : source.fault? = none) (style : Style) (mnemonic : String) :
    Reads (do let list ← registers false; let operand ← operand source
              return (mnemonic, operand ++ (← loaded style list))) true mnemonic
      [.load source style] := by
  intro s
  have load : (Piece.load source style).fault? = none := sound
  rw [run_writes (writes_registers false), run_writes (writes_operand sound), textAt_store false,
    run_bind_of_ok (run_loaded style _), run_pure,
    Reading.ofPieces_cons load, Reading.ofPieces_nil, textAt_load, if_pos rfl]
  simp only [String.append_empty, Cursor.skip_skip, Piece.words, Bool.false_eq_true, if_false]

end Handler

namespace Mode

variable {m : Mode}

theorem isAlterable_eq (encoded : m ∈ Mode.encoded) : m.isAlterable = !(decide (pcDisplacement.code ≤ m.code)) := by
  revert m
  decide

theorem isData_eq : m.isData = (!(decide (m = .addressRegister)) && m.isValid) := by
  cases m <;> simp [isData, isValid]

theorem isDataAlterable_eq (encoded : m ∈ Mode.encoded) :
    (m.isData && m.isAlterable) = !(m = .addressRegister || pcDisplacement.code ≤ m.code) := by
  revert m
  decide

theorem isMemoryAlterable_eq (encoded : m ∈ Mode.encoded) :
    (m.isMemory && m.isAlterable) = !(m.code ≤ addressRegister.code || pcDisplacement.code ≤ m.code) := by
  revert m
  decide

theorem isControl_eq (encoded : m ∈ Mode.encoded) :
    m.isControl = (!(m ∈ [.dataRegister, .addressRegister, .postincrement, .predecrement]) &&
      m.code < immediate.code) := by
  revert m
  decide

theorem isBitOperand_eq (encoded : m ∈ Mode.encoded) (readOnly : Bool) :
    (m.isData && (m.isAlterable || readOnly && m != .immediate)) =
      (!(m = .addressRegister || immediate.code ≤ m.code) &&
        !(!readOnly && pcDisplacement.code ≤ m.code)) := by
  revert m readOnly
  decide

theorem isImmediateTarget_eq (encoded : m ∈ Mode.encoded) (status : Bool) :
    (m.isData && m.isAlterable || status && m = .immediate) =
      (!(m = .addressRegister || m = .pcDisplacement || m = .pcIndex || !m.isValid) &&
        !(m = .immediate && !status)) := by
  revert m status
  decide

theorem acceptsMultiple_eq (encoded : m ∈ Mode.encoded) (load : Bool) :
    Encoding.acceptsMultiple m load =
      (!(m.code ≤ addressRegister.code || immediate.code ≤ m.code) &&
        (!(!load && m = .postincrement) && !(load && m = .predecrement))) := by
  revert m load
  decide

end Mode

namespace Encoding

open Handler

/-- The operands of an accepted word can be written. -/
theorem writes_of_accepts {e : Encoding} {style : Style} {w : Word} (accepted : e.accepts style w = true)
    {o : Operand} (member : .operand o ∈ e.operands style w) : Writes (operand o) (.operand o) :=
  writes_operand (operands_sound accepted _ member)

/-- Every family's handler does what the catalogue says. -/
theorem reads_handle (e : Encoding) (style : Style) (name : String) (w : Word) :
    (e.handle style name w).Reads (e.accepts style w) (e.mnemonic style name w) (e.operands style w) := by
  -- The filters say what the catalogue asks in another order or in other words; behind them
  -- the pieces are read from left to right.
  have modes := Mode.ofField_mem w
  cases e with
  | packedDecimal | extend | swap | unlink | trap | implied | moveUserStack | moveQuick =>
    exact Reads.of_filters [] rfl (fun _ => reads_text _ _)
  | extended | memoryCompare | shiftRegister =>
    exact Reads.of_filters [_] (Bool.and_true _).symm (fun _ => reads_text _ _)
  | exchange =>
    refine Reads.of_filters [_] ?_ (fun _ => reads_text _ _)
    simp [accepts, isExchange, Bool.or_assoc]
  | setByCondition | testAndSet =>
    refine Reads.of_filters [_] ((Mode.isDataAlterable_eq modes).trans (Bool.and_true _).symm) ?_
    exact fun accepted => reads_piece (writes_of_accepts accepted (.head _)) _
  | shiftMemory =>
    refine Reads.of_filters [_] ((Mode.isMemoryAlterable_eq modes).trans (Bool.and_true _).symm) ?_
    exact fun accepted => reads_piece (writes_of_accepts accepted (.head _)) _
  | unary | test =>
    refine Reads.of_filters [_, _] ?_ (fun accepted => reads_piece (writes_of_accepts accepted (.head _)) _)
    simp only [accepts, Bool.and_assoc, Mode.isDataAlterable_eq modes, List.all_cons, List.all_nil,
      Bool.and_true, id]
    exact Bool.and_comm ..
  | control =>
    refine Reads.of_filters [_, _] ?_ (fun accepted => reads_piece (writes_of_accepts accepted (.head _)) _)
    simp only [accepts, Mode.isControl_eq modes, List.all_cons, List.all_nil, Bool.and_true, id]
  | loadAddress =>
    refine Reads.of_filters [_, _] ?_ (fun accepted => reads_piece_text (writes_of_accepts accepted (.head _)) _ _)
    simp only [accepts, Mode.isControl_eq modes, List.all_cons, List.all_nil, Bool.and_true, id]
  | addressArithmetic | addressCompare =>
    exact Reads.of_filters [_] (Bool.and_true _).symm
      (fun accepted => reads_piece_text (writes_of_accepts accepted (.head _)) _ _)
  | dyadic kind =>
    refine Reads.of_filters [_, _, _, _, _, _, _, _] ?_ ?_
    · simp only [accepts, acceptsDyadic, Mode.isAlterable_eq modes, List.all_cons, List.all_nil,
        Bool.and_true, id, Bool.not_not]
      cases style
      · simp only [decide_true, Bool.true_or, Bool.and_true]
        ac_rfl
      · simp only [reduceCtorEq, decide_false, Bool.false_or]
        ac_rfl
    · intro accepted
      have sound := operands_sound accepted
      cases up : w.bit 8 with
      | true =>
        simp only [operands, up, if_true] at sound ⊢
        exact reads_text_piece (writes_operand (sound _ (.tail _ (.head _)))) _ _
      | false =>
        simp only [operands, up, Bool.false_eq_true, if_false] at sound ⊢
        exact reads_piece_text (writes_operand (sound _ (.head _))) _ _
  | immediate status =>
    refine Reads.of_filters [_, _, _] ?_ ?_
    · simp only [accepts, Mode.isImmediateTarget_eq modes, List.all_cons, List.all_nil, Bool.and_true, id]
    · intro accepted
      have sound := operands_sound accepted
      by_cases direct : Mode.ofField w = .immediate
      · simp only [operands, direct, if_true] at sound ⊢
        exact reads_piece_text (writes_immediateSource (sound _ (.head _))) _ _
      · simp only [operands, direct, if_false] at sound ⊢
        exact reads_pieces (writes_immediateSource (sound _ (.head _))) _
          (writes_operand (sound _ (.tail _ (.tail _ (.head _)))))
  | quick =>
    refine Reads.of_filters [_, _, _] ?_
      (fun accepted => reads_text_piece (writes_of_accepts accepted (.tail _ (.head _))) _ _)
    simp only [accepts, Mode.isAlterable_eq modes, List.all_cons, List.all_nil, Bool.and_true, id,
      Bool.and_assoc]
  | branch =>
    refine Reads.of_filters [] rfl ?_
    intro accepted
    by_cases word : w.field 0 8 = 0
    · simp only [operands, word, if_true]
      exact reads_piece writes_farTarget _
    · simp only [operands, word, if_false]
      exact reads_piece (writes_nearTarget _) _
  | decrementBranch => exact Reads.of_filters [] rfl (fun _ => reads_text_piece writes_farTarget _ _)
  | link => exact Reads.of_filters [] rfl (fun _ => reads_text_piece (writes_oneWord rfl rfl fun _ _ => rfl) _ _)
  | bitByRegister readOnly =>
    refine Reads.of_filters [_, _] ?_
      (fun accepted => reads_text_piece (writes_of_accepts accepted (.tail _ (.head _))) _ _)
    simp only [accepts, Mode.isBitOperand_eq modes, List.all_cons, List.all_nil, Bool.and_true, id]
  | bitByNumber readOnly =>
    refine Reads.of_filters [_, _] ?_
      (fun accepted => reads_pieces (writes_oneWord rfl rfl fun _ _ => rfl) _
        (writes_of_accepts accepted (.tail _ (.tail _ (.head _)))))
    simp only [accepts, Mode.isBitOperand_eq modes, List.all_cons, List.all_nil, Bool.and_true, id]
  | compare =>
    refine Reads.of_filters [_, _] ?_ (fun accepted => reads_piece_text (writes_of_accepts accepted (.head _)) _ _)
    simp only [accepts, List.all_cons, List.all_nil, Bool.and_true, id]
    exact Bool.and_comm ..
  | wordToRegister =>
    refine Reads.of_filters [_, _] ?_ (fun accepted => reads_piece_text (writes_of_accepts accepted (.head _)) _ _)
    simp only [accepts, Mode.isData_eq, List.all_cons, List.all_nil, Bool.and_true, id]
  | moveToStatus =>
    refine Reads.of_filters [_] ?_ (fun accepted => reads_piece_text (writes_of_accepts accepted (.head _)) _ _)
    simp only [accepts, Mode.isData_eq, List.all_cons, List.all_nil, Bool.and_true, id, Bool.not_or,
      Bool.not_not]
  | moveAddress =>
    refine Reads.of_filters [_, _] ?_ (fun accepted => reads_piece_text (writes_of_accepts accepted (.head _)) _ _)
    simp only [accepts, List.all_cons, List.all_nil, Bool.and_true, id]
  | moveFromStatus =>
    refine Reads.of_filters [_] ((Mode.isDataAlterable_eq modes).trans (Bool.and_true _).symm) ?_
    exact fun accepted => reads_text_piece (writes_of_accepts accepted (.tail _ (.head _))) _ _
  | stop =>
    cases style with
    | classic => exact Reads.of_filters [] rfl (fun _ => reads_text _ _)
    | corrected => exact Reads.of_filters [] rfl (fun _ => reads_piece (writes_oneWord rfl rfl fun _ _ => rfl) _)
  | move =>
    refine Reads.of_filters [_, _, _] ?_ ?_
    · simp only [accepts, Bool.and_assoc, Mode.isDataAlterable_eq (Mode.ofField_mem w.destinationField),
        List.all_cons, List.all_nil, Bool.and_true, id]
    · intro accepted s
      have source := writes_of_accepts accepted (.head _)
      have destination := writes_of_accepts accepted (.tail _ (.tail _ (.head _)))
      simp only [run_writes source, run_writes destination, run_pure, operands,
        Reading.ofPieces_cons source.sound, Reading.ofPieces_cons destination.sound, Reading.ofPieces_text,
        Reading.ofPieces_nil, String.append_empty, String.append_assoc, if_true]
  | movePeripheral =>
    refine Reads.of_filters [] rfl ?_
    intro _ s
    have offset : Writes offset .offset := writes_oneWord rfl rfl fun _ _ => rfl
    cases up : w.bit 7 with
    | true =>
      simp only [run_writes offset, run_pure, operands, up, Reading.ofPieces_text,
        Reading.ofPieces_cons offset.sound, Reading.ofPieces_nil, String.append_empty, String.append_assoc, if_true]
    | false =>
      simp only [run_writes offset, run_pure, operands, up, Reading.ofPieces_text,
        Reading.ofPieces_cons offset.sound, Reading.ofPieces_nil, String.append_empty, String.append_assoc,
        Bool.false_eq_true, if_false, if_true]
  | moveMultiple =>
    refine Reads.of_filters [_, _, _] ?_ ?_
    · simp only [accepts, Mode.acceptsMultiple_eq modes, List.all_cons, List.all_nil, Bool.and_true, id]
    · intro accepted
      have sound := operands_sound accepted
      cases load : w.bit 10 with
      | true =>
        simp only [operands, load, if_true] at sound ⊢
        have forwards : decide (Mode.ofField w = .predecrement) = false := by
          simp only [accepts, acceptsMultiple, load, Bool.and_eq_true] at accepted
          simpa using accepted.2
        rw [forwards]
        exact reads_load (sound _ (.head _)) _ _
      | false =>
        simp only [operands, load, Bool.false_eq_true, if_false] at sound ⊢
        intro s
        have list := writes_registers (decide (Mode.ofField w = .predecrement))
        have operand := writes_operand (sound _ (.tail _ (.head _)))
        simp only [run_writes list, run_writes operand, run_pure, Reading.ofPieces_cons list.sound,
          Reading.ofPieces_cons operand.sound, Reading.ofPieces_nil, String.append_empty, if_true]

end Encoding

namespace Form

/-- A form's handler. -/
def handle (f : Form) (style : Style) (w : Word) : Handler (String × String) :=
  f.entry.encoding.handle style (f.stem style) w

theorem reads_handle (f : Form) (style : Style) (w : Word) :
    (f.handle style w).Reads (f.accepts style w) (f.mnemonic style w) (f.operands style w) :=
  Encoding.reads_handle _ _ _ _

/-- A form's handler takes the word when it is tried at a cursor. -/
def Handles (f : Form) (style : Style) (w : Word) (c : Cursor) : Prop :=
  ∃ texts after, (f.handle style w).run { cursor := c } = .ok texts after

theorem handles_iff {f : Form} {style : Style} {w : Word} {c : Cursor} :
    f.Handles style w c ↔ f.accepts style w = true := by
  have handled := f.reads_handle style w { cursor := c }
  unfold Handles
  rw [handled]
  cases f.accepts style w <;> simp

end Form

end M68k
