import Mathlib
import M68k.Proofs.Logging

/-!
What a cursor goes through when reads, decoding and operands are mixed on it. Everything is done by
attempts to read a byte or a word, so every operation is carried out a second time with a record of
its attempts (`Recorded`): it gives the same, and the record accounts for where the cursor goes and
for the mark on it (`Records`, `Moves`). What holds of an attempt then holds of a whole sequence of
operations, wherever the cursor stands and however little is left of the window.
-/
namespace M68k

/-- What a read takes. -/
inductive Width where
  | byte
  | word
deriving DecidableEq, Repr

def Width.bytes : Width → Nat
  | .byte => 1
  | .word => 2

/-- An attempt to read: how much, and where. -/
structure Attempt where
  width : Width
  place : Cursor
deriving DecidableEq, Repr

/-- Whether there is less left than the attempt is to take. -/
def Attempt.short (attempt : Attempt) : Bool := attempt.place.remaining < attempt.width.bytes

/-- Reading at a cursor with a record of all attempts. -/
abbrev Recorded := StateM (Cursor × List Attempt)

namespace Recorded

/-- The cursor as it is. -/
def place : Recorded Cursor := do
  let (c, _) ← get
  return c

def byte : Recorded Byte := do
  let (c, attempts) ← get
  set (c.readByte.2, attempts ++ [{ width := .byte, place := c }])
  return c.readByte.1

def word : Recorded Word := do
  let (c, attempts) ← get
  set (c.readWord.2, attempts ++ [{ width := .word, place := c }])
  return c.readWord.1

def words : Nat → Recorded (List Word)
  | 0 => return []
  | n + 1 => do
    let w ← word
    let ws ← words n
    return w :: ws

/-- The text of something that takes a number of extension words, unless it has a fault. -/
def rendered (fault? : Option OperandError) (count : Nat) (render : Address → List Word → String) :
    Recorded (Except OperandError String) :=
  match fault? with
  | some fault => return .error fault
  | none => do
    let extension ← words count
    let c ← place
    return .ok (render c.address extension)

def operand (o : Operand) : Recorded (Except OperandError String) := rendered o.fault? o.words o.text

def piece (p : Piece) : Recorded (Except OperandError String) := rendered p.fault? p.words p.render

/-- What a piece gives, put in front of the text and the fault of those behind it. -/
def joined : Except OperandError String → String × Option OperandError → String × Option OperandError
  | .ok front, (text, fault) => (front ++ text, fault)
  | .error fault, (text, _) => (text, some fault)

/-- The text of a row of pieces and the first fault in it. -/
def pieces : List Piece → Recorded (String × Option OperandError)
  | [] => return ("", none)
  | p :: rest => do
    let result ← piece p
    let behind ← pieces rest
    return joined result behind

/-- The instruction whose word, read at `start`, is the last that was read. -/
def behindWord (d : Decoder) (start : Cursor) (op : Word) : Recorded Instruction :=
  match Form.select? d.style op with
  | none => do
    let stop ← place
    return { address := start.address, op, size := UInt32.ofNat (stop.position - start.position) }
  | some form => do
    let field ← pieces (form.operands d.style op)
    let stop ← place
    return { address := start.address, op, form := some form, mnemonic := form.mnemonic d.style op
             operands := field.1, size := UInt32.ofNat (stop.position - start.position), valid := true }

def instruction (d : Decoder) : Recorded Instruction := do
  let start ← place
  let op ← word
  behindWord d start op

end Recorded

/-! ## What a record accounts for -/

/-- Attempts that take a cursor from one place to another: it passes over some bytes, the address
    keeping step, and gets the mark if one of the attempts was short. -/
structure Moves (before : Cursor) (attempts : List Attempt) (after : Cursor) : Prop where
  passed : ∃ bytes, before.rest = bytes ++ after.rest ∧ after.position = before.position + bytes.length ∧
    after.address = before.address.advance bytes.length
  overflow : after.overflow = (before.overflow || attempts.any (·.short))

namespace Moves

theorem refl (c : Cursor) : Moves c [] c where
  passed := ⟨[], rfl, rfl, by simp⟩
  overflow := by simp

theorem trans {first second third : Cursor} {earlier later : List Attempt}
    (before : Moves first earlier second) (after : Moves second later third) :
    Moves first (earlier ++ later) third where
  passed := by
    obtain ⟨bytes, rest, position, address⟩ := before.passed
    obtain ⟨more, rest', position', address'⟩ := after.passed
    refine ⟨bytes ++ more, ?_, ?_, ?_⟩
    · rw [rest, rest', List.append_assoc]
    · rw [position', position, List.length_append, Nat.add_assoc]
    · rw [address', address, Address.advance_advance, List.length_append]
  overflow := by rw [after.overflow, before.overflow, List.any_append, Bool.or_assoc]

theorem readByte (c : Cursor) : Moves c [{ width := .byte, place := c }] c.readByte.2 := by
  obtain ⟨rest, position, address, overflow⟩ := c
  cases rest with
  | nil =>
    refine ⟨⟨[], rfl, rfl, ?_⟩, ?_⟩
    · simp [Cursor.readByte]
    · simp [Cursor.readByte, Attempt.short, Cursor.remaining, Width.bytes]
  | cons b rest =>
    refine ⟨⟨[b], rfl, rfl, rfl⟩, ?_⟩
    simp [Cursor.readByte, Attempt.short, Cursor.remaining, Width.bytes]

theorem readWord (c : Cursor) : Moves c [{ width := .word, place := c }] c.readWord.2 := by
  obtain ⟨rest, position, address, overflow⟩ := c
  match rest with
  | [] | [_] =>
    refine ⟨⟨[], rfl, rfl, ?_⟩, ?_⟩
    · simp [Cursor.readWord]
    · simp [Cursor.readWord, Attempt.short, Cursor.remaining, Width.bytes]
  | high :: low :: rest =>
    refine ⟨⟨[high, low], rfl, rfl, rfl⟩, ?_⟩
    simp [Cursor.readWord, Attempt.short, Cursor.remaining, Width.bytes]

end Moves

/-- Reading with a record gives what reading without one gives, and the record accounts for what
    the cursor goes through. -/
def Records {α : Type} (x : Recorded α) (plain : Cursor → α × Cursor) : Prop :=
  ∀ (c : Cursor) (earlier : List Attempt), ∃ attempts,
    x.run (c, earlier) = ((plain c).1, (plain c).2, earlier ++ attempts) ∧ Moves c attempts (plain c).2

namespace Records

theorem pure {α : Type} (a : α) : Records (Pure.pure a) fun c => (a, c) := by
  intro c earlier
  exact ⟨[], by rw [List.append_nil]; rfl, .refl c⟩

theorem place : Records Recorded.place fun c => (c, c) := by
  intro c earlier
  exact ⟨[], by rw [List.append_nil]; rfl, .refl c⟩

theorem byte : Records Recorded.byte Cursor.readByte := fun c _ => ⟨_, rfl, .readByte c⟩

theorem word : Records Recorded.word Cursor.readWord := fun c _ => ⟨_, rfl, .readWord c⟩

theorem bind {α β : Type} {x : Recorded α} {plain : Cursor → α × Cursor} {next : α → Recorded β}
    {plainNext : α → Cursor → β × Cursor} (first : Records x plain)
    (second : ∀ a, Records (next a) (plainNext a)) :
    Records (x >>= next) fun c => plainNext (plain c).1 (plain c).2 := by
  intro c earlier
  obtain ⟨attempts, run, moves⟩ := first c earlier
  obtain ⟨more, run', moves'⟩ := second (plain c).1 (plain c).2 (earlier ++ attempts)
  exact ⟨attempts ++ more, by rw [run_bind_of_run run, run', List.append_assoc], moves.trans moves'⟩

theorem words (n : Nat) : Records (Recorded.words n) (·.readWords n) := by
  induction n with
  | zero => exact .pure []
  | succ n ih => exact word.bind fun w => ih.bind fun ws => .pure (w :: ws)

theorem congr {α : Type} {x : Recorded α} {plain other : Cursor → α × Cursor} (records : Records x plain)
    (same : ∀ c, plain c = other c) : Records x other := by
  rwa [funext same] at records

theorem rendered (count : Nat) (render : Address → List Word → String) :
    Records (Recorded.rendered none count render) fun c =>
      (.ok (render (c.readWords count).2.address (c.readWords count).1), (c.readWords count).2) :=
  (words count).bind fun extension => place.bind fun c => pure (Except.ok (render c.address extension))

theorem operand (o : Operand) : Records (Recorded.operand o) o.read := by
  unfold Recorded.operand Operand.read
  cases o.fault? with
  | some fault => exact pure (Except.error fault)
  | none => exact rendered o.words o.text

theorem piece (p : Piece) : Records (Recorded.piece p) p.read := by
  unfold Recorded.piece Piece.read
  cases p.fault? with
  | some fault => exact pure (Except.error fault)
  | none => exact rendered p.words p.render

theorem pieces (ps : List Piece) : Records (Recorded.pieces ps) fun c =>
    (((Reading.ofPieces ps c).text, (Reading.ofPieces ps c).fault), (Reading.ofPieces ps c).cursor) := by
  induction ps with
  | nil => exact pure ("", none)
  | cons p rest ih =>
    have row := (piece p).bind fun result => ih.bind fun behind => pure (Recorded.joined result behind)
    refine row.congr fun c => ?_
    simp only [Reading.ofPieces]
    cases (p.read c).1 <;> rfl

theorem instruction (d : Decoder) : Records (Recorded.instruction d) fun c =>
    ((d.decode c).instruction, (d.decode c).cursor) := by
  intro c earlier
  obtain ⟨attempts, first, moves⟩ := word c earlier
  -- Looking where the cursor stands is no attempt to read.
  have start : Recorded.place.run (c, earlier) = (c, c, earlier) := rfl
  unfold Recorded.instruction
  rw [run_bind_of_run start, run_bind_of_run first]
  unfold Recorded.behindWord
  simp only [Decoder.decode]
  cases Form.select? d.style c.readWord.1 with
  | none => exact ⟨attempts, rfl, moves⟩
  | some form =>
    obtain ⟨more, field, moves'⟩ := pieces (form.operands d.style c.readWord.1) c.readWord.2 (earlier ++ attempts)
    simp only
    rw [run_bind_of_run field]
    exact ⟨attempts ++ more, by rw [← List.append_assoc]; rfl, moves.trans moves'⟩

end Records

/-! ## Operations on one cursor -/

/-- Something done at a cursor. -/
inductive Operation where
  | byte
  | word
  | decode (d : Decoder)
  | decodeOne
  | operand (mode register size : Int)

/-- What an operation gives. -/
inductive Answer where
  | byte (b : Byte)
  | word (w : Word)
  | instruction (i : Instruction)
  | line (address : Address) (text : String) (valid : Bool)
  | operand (text : Except OperandError String)

namespace Operation

/-- What an operation gives at a cursor, and the cursor behind it. -/
def perform (c : Cursor) : Operation → Answer × Cursor
  | .byte => (.byte c.readByte.1, c.readByte.2)
  | .word => (.word c.readWord.1, c.readWord.2)
  | .decode d => (.instruction (d.decode c).instruction, (d.decode c).cursor)
  | .decodeOne =>
    let result := ({} : Decoder).decode c
    (.line result.instruction.address result.instruction.text result.instruction.valid, result.cursor)
  | .operand mode register size =>
    let result := (Operand.ofCodes mode register size).read c
    (.operand result.1, result.2)

/-- An operation with a record of its attempts to read. -/
def recorded : Operation → Recorded Answer
  | .byte => do return .byte (← Recorded.byte)
  | .word => do return .word (← Recorded.word)
  | .decode d => do return .instruction (← Recorded.instruction d)
  | .decodeOne => do
    let i ← Recorded.instruction {}
    return .line i.address i.text i.valid
  | .operand mode register size => do return .operand (← Recorded.operand (Operand.ofCodes mode register size))

theorem records (op : Operation) : Records op.recorded op.perform := by
  cases op with
  | byte => exact Records.byte.bind fun b => .pure (Answer.byte b)
  | word => exact Records.word.bind fun w => .pure (Answer.word w)
  | decode d => exact (Records.instruction d).bind fun i => .pure (Answer.instruction i)
  | decodeOne => exact (Records.instruction {}).bind fun i => .pure (Answer.line i.address i.text i.valid)
  | operand mode register size => exact (Records.operand _).bind fun text => .pure (Answer.operand text)

end Operation

/-- An operation that has been performed. -/
structure Performed where
  before : Cursor
  operation : Operation
  answer : Answer
  attempts : List Attempt
  after : Cursor

/-- Operations performed one after the other on one cursor. -/
def transcript : Cursor → List Operation → List Performed
  | _, [] => []
  | c, op :: ops =>
    let (answer, after, attempts) := op.recorded.run (c, [])
    { before := c, operation := op, answer, attempts, after } :: transcript after ops

/-- The attempts of some operations. -/
def Performed.attemptsOf (steps : List Performed) : List Attempt := steps.flatMap (·.attempts)

/-- What holds of an operation on a cursor that was put at the start of a window and has been through
    the operations `earlier`. -/
structure Account (window : List Byte) (a : Address) (earlier : List Performed) (step : Performed) : Prop where
  /-- It goes on where the operation before it stopped. -/
  starts : step.before = (earlier.getLast?.map (·.after)).getD (Cursor.start window a)
  /-- It is the operation itself that is recorded. -/
  performed : (step.answer, step.after) = step.operation.perform step.before
  forward : step.before.position ≤ step.after.position
  inside : step.after.position ≤ window.length
  whole : step.after.position + step.after.remaining = window.length
  address : step.after.address = a.advance step.after.position
  sticky : step.before.overflow = true → step.after.overflow = true
  overflow : step.after.overflow = true ↔ ∃ attempt ∈ Performed.attemptsOf (earlier ++ [step]), attempt.short = true
  size : ∀ d, step.operation = .decode d → ∃ i, step.answer = .instruction i ∧
    i.size.toNat = step.after.position - step.before.position
  byte : step.operation = .byte → ∃ b, step.answer = .byte b ∧
    if 1 ≤ step.before.remaining then window[step.before.position]? = some b else b = 0
  word : step.operation = .word → ∃ w, step.answer = .word w ∧
    if 2 ≤ step.before.remaining then ∃ high low : Byte,
      window[step.before.position]? = some high ∧ window[step.before.position + 1]? = some low ∧
        w.toNat = 256 * high.toNat + low.toNat
    else w = 0

theorem transcript_cons (c : Cursor) (op : Operation) (ops : List Operation) :
    ∃ attempts, Moves c attempts (op.perform c).2 ∧ transcript c (op :: ops) =
      { before := c, operation := op, answer := (op.perform c).1, attempts, after := (op.perform c).2 } ::
        transcript (op.perform c).2 ops := by
  obtain ⟨attempts, run, moves⟩ := op.records c []
  refine ⟨attempts, moves, ?_⟩
  simp only [transcript, run, List.nil_append]

theorem transcript_operations (c : Cursor) (ops : List Operation) :
    (transcript c ops).map (·.operation) = ops := by
  induction ops generalizing c with
  | nil => rfl
  | cons op ops ih =>
    obtain ⟨attempts, _, recorded⟩ := transcript_cons c op ops
    rw [recorded, List.map_cons, ih]

/-- Up to any operation of a transcript the record accounts for where the cursor has come to. -/
theorem transcript_moves {c : Cursor} {ops : List Operation} {earlier later : List Performed} {step : Performed}
    (recorded : transcript c ops = earlier ++ step :: later) :
    step.before = (earlier.getLast?.map (·.after)).getD c ∧
      (step.answer, step.after) = step.operation.perform step.before ∧
      Moves c (Performed.attemptsOf earlier) step.before ∧ Moves step.before step.attempts step.after := by
  induction ops generalizing c earlier with
  | nil => simp [transcript] at recorded
  | cons op ops ih =>
    obtain ⟨attempts, moves, first⟩ := transcript_cons c op ops
    rw [first] at recorded
    cases earlier with
    | nil =>
      obtain ⟨rfl, _⟩ := List.cons.inj recorded
      exact ⟨rfl, rfl, .refl c, moves⟩
    | cons head earlier =>
      obtain ⟨rfl, behind⟩ := List.cons.inj recorded
      obtain ⟨starts, performed, before, after⟩ := ih behind
      refine ⟨?_, performed, moves.trans before, after⟩
      rw [starts, List.getLast?_cons]
      cases earlier.getLast? <;> rfl

/-! ## The account -/

/-- A cursor that has come from the start of a window. -/
structure Cursor.Within (window : List Byte) (a : Address) (c : Cursor) : Prop where
  rest : c.rest = window.drop c.position
  inside : c.position ≤ window.length
  address : c.address = a.advance c.position

namespace Moves

variable {window : List Byte} {a : Address} {c before after : Cursor} {attempts : List Attempt}

theorem within (moves : Moves (Cursor.start window a) attempts c) : c.Within window a := by
  obtain ⟨bytes, rest, position, address⟩ := moves.passed
  simp only [Cursor.start, Nat.zero_add] at rest position address
  subst rest
  refine ⟨?_, ?_, ?_⟩
  · rw [position, List.drop_left]
  · rw [position, List.length_append]
    omega
  · rw [position, address]

theorem forward (moves : Moves before attempts after) : before.position ≤ after.position := by
  obtain ⟨bytes, _, position, _⟩ := moves.passed
  omega

theorem sticky (moves : Moves before attempts after) (marked : before.overflow = true) : after.overflow = true := by
  rw [moves.overflow, marked, Bool.true_or]

end Moves

namespace Cursor.Within

variable {window : List Byte} {a : Address} {c : Cursor}

theorem whole (within : c.Within window a) : c.position + c.remaining = window.length := by
  have inside := within.inside
  rw [remaining, within.rest, List.length_drop]
  omega

theorem getElem?_rest (within : c.Within window a) (k : Nat) : c.rest[k]? = window[c.position + k]? := by
  rw [within.rest, List.getElem?_drop]

theorem readByte (within : c.Within window a) :
    if 1 ≤ c.remaining then window[c.position]? = some c.readByte.1 else c.readByte.1 = 0 := by
  have first := within.getElem?_rest 0
  rw [Nat.add_zero] at first
  rw [← first]
  cases present : c.rest with
  | nil => simp [remaining, Cursor.readByte, present]
  | cons b rest => simp [remaining, Cursor.readByte, present]

theorem readWord (within : c.Within window a) :
    if 2 ≤ c.remaining then ∃ high low : Byte, window[c.position]? = some high ∧
      window[c.position + 1]? = some low ∧ c.readWord.1.toNat = 256 * high.toNat + low.toNat
    else c.readWord.1 = 0 := by
  have first := within.getElem?_rest 0
  rw [Nat.add_zero] at first
  rw [← first, ← within.getElem?_rest 1]
  match present : c.rest with
  | [] | [_] => simp [remaining, Cursor.readWord, present]
  | high :: low :: rest =>
    have two : 2 ≤ c.remaining := by simp [remaining, present]
    rw [if_pos two]
    exact ⟨high, low, rfl, rfl, by simp [Cursor.readWord, present, Word.toNat_ofBytes]⟩

end Cursor.Within

theorem Decoder.size_eq_move (d : Decoder) (c : Cursor) :
    (d.decode c).instruction.size.toNat = (d.decode c).cursor.position - c.position := by
  rw [d.decode_size, d.decode_cursor]
  simp only [Cursor.skip]
  omega

/-- Whatever is done with a cursor, in whatever order, at whatever place of whatever window: it goes
    forward within the window, its address keeps step, and it has the mark from the first attempt to
    read more than there is. A decoded instruction is as long as the cursor has moved, and what is
    read directly is what the window has at the place. -/
theorem cursor_keeps_account (window : List Byte) (a : Address) (ops : List Operation) :
    (transcript (Cursor.start window a) ops).map (·.operation) = ops ∧
      ∀ earlier step later, transcript (Cursor.start window a) ops = earlier ++ step :: later →
        Account window a earlier step := by
  refine ⟨transcript_operations _ ops, ?_⟩
  intro earlier step later recorded
  obtain ⟨starts, performed, before, moves⟩ := transcript_moves recorded
  have all := before.trans moves
  have there := before.within
  have here := all.within
  refine ⟨starts, performed, moves.forward, here.inside, here.whole, here.address, moves.sticky, ?_, ?_, ?_, ?_⟩
  · have total : Performed.attemptsOf (earlier ++ [step]) = Performed.attemptsOf earlier ++ step.attempts := by
      simp [Performed.attemptsOf]
    rw [total, all.overflow]
    exact List.any_eq_true
  · intro d op
    rw [op] at performed
    obtain ⟨answer, after⟩ := Prod.mk.inj performed
    refine ⟨_, answer, ?_⟩
    rw [after]
    exact d.size_eq_move step.before
  · intro op
    rw [op] at performed
    exact ⟨_, (Prod.mk.inj performed).1, there.readByte⟩
  · intro op
    rw [op] at performed
    exact ⟨_, (Prod.mk.inj performed).1, there.readWord⟩

/-- Across the end of the address space, from an odd place on: a byte, a word, an operand that there is
    not, and a branch whose displacement has one byte left, which can still be read by itself. -/
theorem cursor_keeps_account_odd :
    let window : List Byte := [0x4E, 0x4E, 0x71, 0x60, 0x00, 0x7F]
    let steps := transcript (Cursor.start window 0xFFFFFFFE)
      [.byte, .word, .operand 12 0 0, .decode { style := .corrected }, .byte, .decodeOne]
    steps.map (·.after.position) = [1, 3, 3, 5, 6, 6] ∧
      steps.map (·.after.address) = [0xFFFFFFFF, 1, 1, 3, 4, 4] ∧
      steps.map (·.after.overflow) = [false, false, false, true, true, true] ∧
      steps.map (·.attempts.length) = [1, 1, 0, 2, 1, 2] ∧
      ∃ earlier step later, steps = earlier ++ step :: later ∧ earlier.length = 3 ∧
        Account window 0xFFFFFFFE earlier step := by
  intro window steps
  have there : 3 < steps.length := by decide +kernel
  have cut : steps = steps.take 3 ++ steps[3] :: steps.drop 4 := by
    rw [List.getElem_cons_drop, List.take_append_drop]
  refine ⟨by decide +kernel, by decide +kernel, by decide +kernel, by decide +kernel, _, _, _, cut,
    by decide +kernel, ?_⟩
  exact (cursor_keeps_account window 0xFFFFFFFE _).2 _ _ _ cut

end M68k
