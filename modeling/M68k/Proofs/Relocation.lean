import Mathlib
import M68k.Proofs.Characters
import M68k.Proofs.Sweeping

/-!
A listing relocates. Moving a cursor along the address space (`Cursor.moved`) commutes with all
that reading does to it, and no decision depends on an address: an image has the same lines
wherever it lies. In the text of an instruction only the targets move along, those of branches
and loops and those shown in braces behind a displacement from the program counter
(`Form.OperandsMoved`).
-/
namespace M68k

open Text (hex signed Lacks)

/-! ## Cursors -/

/-- The cursor over the same bytes at an address further on. -/
def Cursor.moved (c : Cursor) (shift : Address) : Cursor := { c with address := c.address + shift }

theorem Address.advance_add (a shift : Address) (n : Nat) : (a + shift).advance n = a.advance n + shift := by
  simp only [advance]
  ac_rfl

theorem Cursor.skip_moved (c : Cursor) (shift : Address) (n : Nat) :
    (c.moved shift).skip n = (c.skip n).moved shift := by
  simp only [skip, moved, Address.advance_add]
  rfl

theorem Cursor.start_moved (image : List Byte) (a shift : Address) :
    start image (a + shift) = (start image a).moved shift := rfl

/-! ## Texts -/

/-- The text with the address behind its dollar sign moved, the text before it being kept. -/
def TargetMoved (shift : Address) (s t : String) : Prop :=
  ∃ before target, Lacks '$' before ∧ s = before ++ "$" ++ hex .lower 8 (UInt32.toNat target) ∧
    t = before ++ "$" ++ hex .lower 8 (target + shift).toNat

/-- The text with the address in braces moved, the text around it being kept. -/
def BracedMoved (shift : Address) (s t : String) : Prop :=
  ∃ before target after, s = before ++ "\x7b$" ++ hex .lower 8 (UInt32.toNat target) ++ "\x7d" ++ after ∧
    t = before ++ "\x7b$" ++ hex .lower 8 (target + shift).toNat ++ "\x7d" ++ after

/-- The text when all moves: it shows an address in braces if `relative`, and else stays. -/
def TextMoved (shift : Address) : (relative : Bool) → String → String → Prop
  | true, s, t => BracedMoved shift s t
  | false, s, t => t = s

/-- Of two texts side by side at most one can show an address. -/
theorem TextMoved.append {shift : Address} {first second : Bool} {s t u v : String}
    (left : TextMoved shift first s t) (right : TextMoved shift second u v)
    (once : first = true → second = false) : TextMoved shift (first || second) (s ++ u) (t ++ v) := by
  cases first with
  | true =>
    rw [once rfl] at right
    obtain rfl : v = u := right
    obtain ⟨before, target, after, rfl, rfl⟩ := left
    refine ⟨before, target, after ++ v, ?_, ?_⟩
    · simp only [String.append_assoc]
    · simp only [String.append_assoc]
  | false =>
    obtain rfl : t = s := left
    cases second with
    | true =>
      obtain ⟨before, target, after, rfl, rfl⟩ := right
      refine ⟨t ++ before, target, after, ?_, ?_⟩
      · simp only [String.append_assoc]
      · simp only [String.append_assoc]
    | false =>
      obtain rfl : v = u := right
      rfl

/-- A target moves along with the word that its distance is counted from. -/
theorem Word.relativeTarget_moved (w : Word) (after shift : Address) :
    ∃ target : Address, w.relativeTarget after = "$" ++ hex .lower 8 target.toNat ∧
      w.relativeTarget (after + shift) = "$" ++ hex .lower 8 (target + shift).toNat := by
  refine ⟨(after - 2).offset w.signed, rfl, ?_⟩
  have base : (after + shift - 2).offset w.signed = (after - 2).offset w.signed + shift := by
    simp only [Address.offset]
    grind
  rw [relativeTarget, base]

/-- An operand at a displacement from the program counter, which shows where that leads. -/
def Operand.isRelative (o : Operand) : Bool := o.mode = .pcDisplacement

theorem Operand.text_moved (o : Operand) (after shift : Address) (extension : List Word) :
    TextMoved shift o.isRelative (o.text after extension) (o.text (after + shift) extension) := by
  obtain ⟨mode, register, size⟩ := o
  cases mode with
  | pcDisplacement =>
    obtain ⟨target, here, there⟩ := Word.relativeTarget_moved (extension.getD 0 0) after shift
    refine ⟨signed (Word.signed (extension.getD 0 0)) ++ "(PC) ", target, "", ?_, ?_⟩
    · simp only [text, here, String.append_assoc]
      rfl
    · simp only [text, there, String.append_assoc]
      rfl
  | _ => rfl

namespace Piece

/-- A piece that holds an operand at a displacement from the program counter. -/
def isRelative : Piece → Bool
  | .operand o | .load o _ => o.isRelative
  | _ => false

/-- A piece that is the target of a branch or a loop. -/
def isTarget : Piece → Bool
  | .target | .nearTarget _ => true
  | _ => false

theorem render_moved {p : Piece} (other : p.isTarget = false) (after shift : Address) (extension : List Word) :
    TextMoved shift p.isRelative (p.render after extension) (p.render (after + shift) extension) := by
  cases p with
  | operand o => exact o.text_moved after shift extension
  | load source style =>
    have list : TextMoved shift false (loadList style (RegisterList.entries (extension.getD 0 0))) _ := rfl
    have moved := (source.text_moved after shift extension.tail).append list (fun _ => rfl)
    rwa [Bool.or_false] at moved
  | target | nearTarget => cases other
  | _ => rfl

theorem render_target {p : Piece} (target : p.isTarget = true) (after shift : Address) (extension : List Word) :
    TargetMoved shift (p.render after extension) (p.render (after + shift) extension) := by
  cases p with
  | target =>
    obtain ⟨target, here, there⟩ := Word.relativeTarget_moved (extension.getD 0 0) after shift
    exact ⟨"", target, by decide, here, there⟩
  | nearTarget distance =>
    have moved : (after + shift).offset distance = after.offset distance + shift := by
      simp only [Address.offset]
      ac_rfl
    refine ⟨"", after.offset distance, by decide, rfl, ?_⟩
    rw [← moved]
    rfl
  | _ => cases target

/-- Pieces without targets of which at most one shows an address in braces. -/
structure Settled (pieces : List Piece) : Prop where
  targets : ∀ p ∈ pieces, p.isTarget = false
  once : pieces.Pairwise fun p q => p.isRelative = true → q.isRelative = false

end Piece

theorem Reading.text_cons_moved {p : Piece} (sound : p.fault? = none) (pieces : List Piece) (c : Cursor)
    (shift : Address) :
    (ofPieces (p :: pieces) (c.moved shift)).text =
      p.render ((c.skip p.words).address + shift)
          ((List.range p.words).map fun k => leadingWord (c.skip k).rest) ++
        (ofPieces pieces ((c.skip p.words).moved shift)).text := by
  rw [text_cons sound]
  simp only [Cursor.skip_moved]
  rfl

/-- Reading settled pieces somewhere else moves the address in braces, if there is one. -/
theorem Reading.text_moved {pieces : List Piece} (sound : ∀ p ∈ pieces, p.fault? = none)
    (settled : Piece.Settled pieces) (shift : Address) (c : Cursor) :
    TextMoved shift (pieces.any Piece.isRelative) (ofPieces pieces c).text
      (ofPieces pieces (c.moved shift)).text := by
  induction pieces generalizing c with
  | nil => rfl
  | cons p rest ih =>
    obtain ⟨clean, behind⟩ := List.forall_mem_cons.mp sound
    obtain ⟨other, others⟩ := List.forall_mem_cons.mp settled.targets
    obtain ⟨alone, once⟩ := List.pairwise_cons.mp settled.once
    rw [text_cons clean, text_cons_moved clean]
    refine (Piece.render_moved other _ shift _).append (ih behind ⟨others, once⟩ (c.skip p.words)) ?_
    intro relative
    rw [List.any_eq_false]
    intro q member
    rw [alone q member relative]
    exact Bool.false_ne_true

/-- A target at the end of an operand field moves along, behind text without a dollar sign. -/
theorem Reading.target_moved {front : String} (plain : Lacks '$' front) {p : Piece} (target : p.isTarget = true)
    (shift : Address) (c : Cursor) :
    TargetMoved shift (ofPieces [.text front, p] c).text (ofPieces [.text front, p] (c.moved shift)).text := by
  have clean : p.fault? = none := by
    cases p with
    | target | nearTarget => rfl
    | _ => cases target
  obtain ⟨before, place, lacks, here, there⟩ := Piece.render_target target (c.skip p.words).address shift
    ((List.range p.words).map fun k => leadingWord (c.skip k).rest)
  refine ⟨front ++ before, place, Text.lacks_append.mpr ⟨plain, lacks⟩, ?_, ?_⟩
  · rw [ofPieces_text, text_cons clean, here, text_nil, String.append_empty]
    simp only [String.append_assoc]
  · rw [ofPieces_text, text_cons_moved clean, there, text_nil, String.append_empty]
    simp only [String.append_assoc]

/-! ## Forms -/

/-- Whatever a family other than the branches accepts is settled: only a move has two operands,
    and its destination is no displacement from the program counter. -/
theorem Encoding.settled_operands {e : Encoding} {style : Style} {w : Word} (accepted : e.accepts style w = true)
    (other : e ≠ .branch ∧ e ≠ .decrementBranch) : Piece.Settled (e.operands style w) := by
  cases e with
  | branch => exact absurd rfl other.1
  | decrementBranch => exact absurd rfl other.2
  | move =>
    simp only [accepts, Bool.and_eq_true] at accepted
    have absolute : (Operand.ofField w.destinationField (Encoding.size .move w)).isRelative = false := by
      have alterable := accepted.2
      rw [Operand.isRelative, decide_eq_false_iff_not]
      intro relative
      have mode : Mode.ofField w.destinationField = .pcDisplacement := relative
      rw [mode] at alterable
      cases alterable
    refine ⟨?_, ?_⟩
    · simp [operands, Piece.isTarget]
    · simp [operands, Piece.isRelative, absolute]
  | _ =>
    refine ⟨?_, ?_⟩
    · simp only [operands]
      repeat' split
      all_goals simp [Piece.isTarget]
    · simp only [operands]
      repeat' split
      all_goals simp [Piece.isRelative]

namespace Form

/-- The operands of a form when all moves: a branch and a loop have a target behind a dollar
    sign, an operand at a displacement from the program counter shows an address in braces, and
    nothing else depends on where an instruction lies. -/
def OperandsMoved (f : Form) (style : Style) (w : Word) (shift : Address) (s t : String) : Prop :=
  match f with
  | .branch | .decrementBranch => TargetMoved shift s t
  | _ => TextMoved shift ((f.operands style w).any Piece.isRelative) s t

theorem operands_moved {f : Form} {style : Style} {w : Word} (accepted : f.accepts style w = true)
    (shift : Address) (c : Cursor) :
    f.OperandsMoved style w shift (Reading.ofPieces (f.operands style w) c).text
      (Reading.ofPieces (f.operands style w) (c.moved shift)).text := by
  have sound := operands_sound accepted
  cases f with
  | branch =>
    -- Nothing stands before the target of a branch.
    have alone (p : Piece) (target : p.isTarget = true) :
        TargetMoved shift (Reading.ofPieces [p] c).text (Reading.ofPieces [p] (c.moved shift)).text := by
      have moved := Reading.target_moved (by decide : Lacks '$' "") target shift c
      rwa [Reading.ofPieces_text, Reading.ofPieces_text, String.empty_append, String.empty_append] at moved
    simp only [OperandsMoved, operands, entry, Encoding.operands]
    split
    · exact alone .target rfl
    · exact alone (.nearTarget w.lowSigned) rfl
  | decrementBranch =>
    have plain : Lacks '$' (Encoding.dataRegister w.lowRegister ++ ",") := by
      simp +decide [Encoding.dataRegister, Text.lacks_decimal]
    exact Reading.target_moved plain rfl shift c
  | _ =>
    refine Reading.text_moved sound (Encoding.settled_operands accepted ?_) shift c
    decide

end Form

/-! ## Instructions and lines -/

/-- The same instruction somewhere else: only its address and the targets in its operands move. -/
structure Instruction.Moved (style : Style) (shift : Address) (x y : Instruction) : Prop where
  rest : y = { x with address := x.address + shift, operands := y.operands }
  operands : match x.form with
    | some f => f.OperandsMoved style x.op shift x.operands y.operands
    | none => y.operands = x.operands

/-- The same line somewhere else. Data shows no address, and a line of code has its instruction
    moved along. -/
structure Line.Moved (style : Style) (shift : Address) (l m : Line) : Prop where
  rest : m = { l with address := l.address + shift, instruction := m.instruction }
  data : l.data = true → m.instruction = l.instruction
  code : l.data = false → l.instruction.Moved style shift m.instruction

namespace Decoder

theorem decode_moved (d : Decoder) (c : Cursor) (shift : Address) :
    (d.decode c).instruction.Moved d.style shift (d.decode (c.moved shift)).instruction ∧
      (d.decode (c.moved shift)).cursor = (d.decode c).cursor.moved shift := by
  refine ⟨?_, ?_⟩
  · have word : leadingWord (c.moved shift).rest = leadingWord c.rest := rfl
    cases found : Form.select? d.style (leadingWord c.rest) with
    | none =>
      have here := (d.decode_unmatched found).1
      have there : (d.decode (c.moved shift)).instruction = _ := (d.decode_unmatched (word ▸ found)).1
      rw [here, there]
      exact ⟨rfl, rfl⟩
    | some f =>
      have here := (d.decode_matched found).1
      have there : (d.decode (c.moved shift)).instruction = _ := (d.decode_matched (word ▸ found)).1
      rw [here, there]
      refine ⟨rfl, ?_⟩
      rw [Cursor.skip_moved]
      exact Form.operands_moved (Form.accepts_of_select? found) shift (c.skip 1)
  · rw [d.decode_cursor, d.decode_cursor, Cursor.skip_moved]
    rfl

end Decoder

/-- Data in front of moved lines joins them where it joined them before. -/
theorem Step.prepend_data_moved {style : Style} {shift : Address} {lines others : List Line}
    (moved : List.Forall₂ (Line.Moved style shift) lines others) (a : Address) (bytes : List Byte)
    (events more : List Event) :
    List.Forall₂ (Line.Moved style shift) ((Step.data a bytes events).prepend lines)
      ((Step.data (a + shift) bytes more).prepend others) := by
  have alone : Line.Moved style shift { address := a, bytes, data := true }
      { address := a + shift, bytes, data := true } := ⟨rfl, fun _ => rfl, nofun⟩
  cases moved with
  | nil => exact .cons alone .nil
  | @cons l m lines others first behind =>
    have kind : m.data = l.data := by rw [first.rest]
    simp only [prepend, kind]
    split
    · rename_i data
      refine .cons ⟨?_, fun _ => first.data data, ?_⟩ behind
      · rw [first.rest]
      · intro code
        rw [data] at code
        cases code
    · exact .cons alone (.cons first behind)

namespace Decoder

variable {d : Decoder} {a : Address} {image : List Byte} {steps : List Step}

/-- The sweep of the same image somewhere else takes the same steps. -/
theorem Swept.lines_moved (swept : d.Swept a image steps) (shift : Address) :
    List.Forall₂ (Line.Moved d.style shift) (steps.foldr Step.prepend [])
      ((d.steps image (a + shift)).foldr Step.prepend []) := by
  induction swept with
  | nil a =>
    rw [Decoder.steps]
    exact .nil
  | odd a b =>
    rw [Decoder.steps]
    exact Step.prepend_data_moved .nil a [b] [] []
  | @code a front back steps whole valid tail ih =>
    obtain ⟨moved, _⟩ := d.decode_moved (Cursor.start front a) shift
    rw [← Cursor.start_moved] at moved
    have accepted : (d.decode (Cursor.start front (a + shift))).instruction.valid = true := by
      rw [moved.rest]
      exact valid
    rw [d.steps_code whole accepted, Address.advance_add]
    refine .cons ⟨?_, ?_, fun _ => moved⟩ ih
    · rw [moved.rest]
    · intro data
      cases data
  | @unmatched a front back steps whole refused tail ih =>
    obtain ⟨moved, _⟩ := d.decode_moved (Cursor.start front a) shift
    rw [← Cursor.start_moved] at moved
    have rejected : (d.decode (Cursor.start front (a + shift))).instruction.valid = false := by
      rw [moved.rest]
      exact refused
    rw [d.steps_unmatched whole rejected, Address.advance_add]
    exact Step.prepend_data_moved ih a front _ _
  | @cut a high low rest steps short tail ih =>
    obtain ⟨_, cursor⟩ := d.decode_moved (Cursor.start (high :: low :: rest) a) shift
    rw [← Cursor.start_moved] at cursor
    have missing : (d.decode (Cursor.start (high :: low :: rest) (a + shift))).cursor.overflow = true := by
      rw [cursor]
      exact short
    have next : a + shift + 2 = a + 2 + shift := by ac_rfl
    rw [d.steps_cut missing, next]
    exact Step.prepend_data_moved ih a [high, low] _ _

/-- A listing relocates. At another origin an image has the same lines, one by one, with all
    addresses larger by the same distance, modulo 2 ^ 32; of the texts only the targets of branches
    and loops, and those shown in braces, are larger by it too. -/
theorem listing_relocates (d : Decoder) (image : List Byte) (origin other : Address) :
    List.Forall₂ (Line.Moved d.style (other - origin)) (d.listing image origin).lines
      (d.listing image other).lines := by
  have moved := (d.swept image origin).lines_moved (other - origin)
  rw [show origin + (other - origin) = other by grind] at moved
  exact moved

/-- A far call over 16 bytes back and a branch over 32 bytes on, at the start of the address space
    and at its end. -/
example :
    let operands (origin : Address) := (({} : Decoder).listing [0x4E, 0xBA, 0xFF, 0xF0, 0x60, 0x20]
      origin).lines.map (·.instruction.operands)
    operands 0 = ["-16(PC) \x7b$fffffff2\x7d", "$00000026"] ∧
      operands 0xFFFFFFFC = ["-16(PC) \x7b$ffffffee\x7d", "$00000022"] := by
  decide +kernel

end Decoder
end M68k
