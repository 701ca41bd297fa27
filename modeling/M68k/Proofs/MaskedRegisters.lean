import Mathlib
import M68k.Proofs.Handlers
import M68k.Proofs.Length
import M68k.Proofs.RegisterLists

/-!
The registers that a mask names, as a reader of the list finds them. Entries are read back as
spans (`read?`); the spans of a mask hold its registers in order, and a range is never shorter
than three registers and never stops short of one (`Names`). A move of several registers prints
such a list of its mask, in front of the operand or behind it.
-/
namespace M68k

open Text

namespace RegisterList

/-! ## Runs lie apart -/

/-- One run lies below another one, with a gap between them. -/
def Run.Below (r s : Run) : Prop := r.last + 1 < s.first

theorem mem_numbers {run : Run} {n : Nat} : n ∈ run.numbers ↔ run.first ≤ n ∧ n ≤ run.last := by
  rw [Run.numbers, List.mem_range'_1]
  omega

theorem mem_iff_run {numbers : List Nat} {n : Nat} :
    n ∈ numbers ↔ ∃ run ∈ runs numbers, run.first ≤ n ∧ n ≤ run.last := by
  conv_lhs => rw [← (numbers_runs numbers).2]
  simp only [List.mem_flatMap, mem_numbers]

/-- A number in front of runs joins the first of them or leaves a gap. -/
theorem below_runs {numbers : List Nat} (ascending : numbers.Pairwise (· < ·)) :
    (runs numbers).Pairwise Run.Below := by
  induction numbers with
  | nil => exact .nil
  | cons n numbers ih =>
    obtain ⟨least, ascending⟩ := List.pairwise_cons.mp ascending
    have ordered := (numbers_runs numbers).1
    have above : ∀ run ∈ runs numbers, n < run.first := by
      intro run member
      exact least run.first (mem_iff_run.mpr ⟨run, member, Nat.le_refl _, ordered run member⟩)
    have gaps := ih ascending
    rw [runs, List.foldr_cons, ← runs]
    cases found : runs numbers with
    | nil => exact List.pairwise_singleton _ _
    | cons run rest =>
      rw [found] at above gaps ordered
      obtain ⟨behind, others⟩ := List.pairwise_cons.mp gaps
      rw [extend]
      split
      · exact List.pairwise_cons.mpr ⟨behind, others⟩
      · refine List.pairwise_cons.mpr ⟨?_, gaps⟩
        have first := above run (List.mem_cons_self ..)
        have order := ordered run (List.mem_cons_self ..)
        intro s member
        rcases List.mem_cons.mp member with rfl | later
        · unfold Run.Below
          dsimp only
          omega
        · have gap := behind s later
          unfold Run.Below at gap ⊢
          dsimp only
          omega

/-- No number stands directly below or directly above a run. -/
theorem run_maximal {numbers : List Nat} (ascending : numbers.Pairwise (· < ·)) {run : Run}
    (member : run ∈ runs numbers) : ∀ n ∈ numbers, n + 1 ≠ run.first ∧ n ≠ run.last + 1 := by
  have ordered := (numbers_runs numbers).1
  have apart : (runs numbers).Pairwise fun r s => r.Below s ∨ s.Below r :=
    (below_runs ascending).imp Or.inl
  have symmetric : Std.Symm fun r s : Run => r.Below s ∨ s.Below r := ⟨fun _ _ => Or.symm⟩
  intro n inside
  obtain ⟨other, listed, low, high⟩ := mem_iff_run.mp inside
  have order := ordered run member
  by_cases same : other = run
  · subst same
    omega
  · rcases apart.forall listed member same with below | above
    · unfold Run.Below at below
      omega
    · unfold Run.Below at above
      omega

/-! ## Spans of masks -/

/-- The bit of a mask that stands for the first register of a class. -/
def lowest (address : Bool) : Nat := if address then 8 else 0

/-- A mask has the bit of a register. -/
def Masked (mask : Word) (address : Bool) (n : Nat) : Prop := n < 8 ∧ mask.bit (lowest address + n) = true

theorem masked_iff {mask : Word} {address : Bool} {n : Nat} :
    Masked mask address n ↔ n ∈ members mask (lowest address) := by
  simp [Masked, members]

theorem ascending_members (mask : Word) (low : Nat) : (members mask low).Pairwise (· < ·) :=
  List.pairwise_lt_range.filter _

/-- A span of a run is one of its registers, or all of it if there are three or more. -/
theorem Run.mem_spans {run : Run} (ordered : run.first ≤ run.last) {address : Bool} {s : Span}
    (member : s ∈ run.spans address) :
    s.address = address ∧ run.first ≤ s.first ∧ s.last ≤ run.last ∧
      (s.first = s.last ∨ s = ⟨address, run.first, run.last⟩ ∧ run.first + 2 ≤ run.last) := by
  unfold Run.spans at member
  split at member
  · rename_i single
    obtain rfl := List.mem_singleton.mp member
    exact ⟨rfl, Nat.le_refl _, ordered, .inl rfl⟩
  · split at member
    · rcases List.mem_cons.mp member with rfl | second
      · exact ⟨rfl, Nat.le_refl _, ordered, .inl rfl⟩
      · obtain rfl := List.mem_singleton.mp second
        exact ⟨rfl, ordered, Nat.le_refl _, .inl rfl⟩
    · obtain rfl := List.mem_singleton.mp member
      exact ⟨rfl, Nat.le_refl _, Nat.le_refl _, .inr ⟨rfl, by omega⟩⟩

theorem Run.range_mem_spans {run : Run} (three : run.first + 2 ≤ run.last) (address : Bool) :
    ⟨address, run.first, run.last⟩ ∈ run.spans address := by
  rw [Run.spans, if_neg (by omega), if_neg (by omega)]
  exact List.mem_singleton_self _

theorem mem_spans {mask : Word} {s : Span} :
    s ∈ spans mask ↔ ∃ run ∈ runs (members mask (lowest s.address)), s ∈ run.spans s.address := by
  have own {low : Nat} {run : Run} {address : Bool} (listed : run ∈ runs (members mask low))
      (member : s ∈ run.spans address) : s.address = address :=
    (run.mem_spans ((numbers_runs _).1 run listed) member).1
  simp only [spans, List.mem_append, List.mem_flatMap]
  constructor
  · rintro (⟨run, listed, member⟩ | ⟨run, listed, member⟩)
    · rw [own listed member]
      exact ⟨run, listed, member⟩
    · rw [own listed member]
      exact ⟨run, listed, member⟩
  · rintro ⟨run, listed, member⟩
    cases known : s.address with
    | false =>
      rw [known] at listed member
      exact .inl ⟨run, listed, member⟩
    | true =>
      rw [known] at listed member
      exact .inr ⟨run, listed, member⟩

/-- Spans that name the registers of a mask: each of them once, in ascending order, data registers
    first. A span stays within its class. A range stands for three registers or more and cannot be
    made longer, spans that meet make no range together, and three registers in a row are never
    left apart. -/
structure Names (mask : Word) (ss : List Span) : Prop where
  registers : ∀ address n, (address, n) ∈ ss.flatMap Span.registers ↔ Masked mask address n
  ascending : (ss.flatMap Span.registers).Pairwise fun r s => r.1 = false ∧ s.1 = true ∨ r.1 = s.1 ∧ r.2 < s.2
  within : ∀ s ∈ ss, s.first ≤ s.last ∧ s.last < 8
  range : ∀ s ∈ ss, s.first ≠ s.last → s.first + 2 ≤ s.last ∧
    ∀ n, Masked mask s.address n → n + 1 ≠ s.first ∧ n ≠ s.last + 1
  apart : ∀ s ∈ ss, ∀ t ∈ ss, s.address = t.address → s.last + 1 = t.first → t.last < s.first + 2
  joined : ∀ address n, Masked mask address n → Masked mask address (n + 1) → Masked mask address (n + 2) →
    ∃ s ∈ ss, s.address = address ∧ s.first ≤ n ∧ n + 2 ≤ s.last

theorem range_maximal {mask : Word} {s : Span} (member : s ∈ spans mask) (range : s.first ≠ s.last) :
    s.first + 2 ≤ s.last ∧ ∀ n, Masked mask s.address n → n + 1 ≠ s.first ∧ n ≠ s.last + 1 := by
  obtain ⟨run, listed, inside⟩ := mem_spans.mp member
  obtain ⟨_, _, _, single | ⟨whole, three⟩⟩ := run.mem_spans ((numbers_runs _).1 run listed) inside
  · exact absurd single range
  · rw [whole]
    refine ⟨three, ?_⟩
    intro n masked
    exact run_maximal (ascending_members mask _) listed n (masked_iff.mp masked)

theorem first_le_last {mask : Word} {s : Span} (member : s ∈ spans mask) : s.first ≤ s.last := by
  by_cases single : s.first = s.last
  · exact Nat.le_of_eq single
  · have three := (range_maximal member single).1
    omega

theorem mem_registers {s : Span} {address : Bool} {n : Nat} :
    (address, n) ∈ s.registers ↔ address = s.address ∧ s.first ≤ n ∧ n ≤ s.last := by
  rw [Span.registers, List.mem_map]
  simp only [List.mem_range'_1, Prod.mk.injEq]
  constructor
  · rintro ⟨m, ⟨low, high⟩, rfl, rfl⟩
    exact ⟨rfl, low, by omega⟩
  · rintro ⟨rfl, low, high⟩
    exact ⟨n, ⟨low, by omega⟩, rfl, rfl⟩

/-- The spans of a mask hold the registers of the mask. -/
theorem mem_registers_spans {mask : Word} {address : Bool} {n : Nat} :
    (address, n) ∈ (spans mask).flatMap Span.registers ↔ Masked mask address n := by
  rw [registers_spans, masked_iff]
  cases address <;> simp [lowest]

theorem masked_of_mem {mask : Word} {s : Span} (member : s ∈ spans mask) {n : Nat} (low : s.first ≤ n)
    (high : n ≤ s.last) : Masked mask s.address n :=
  mem_registers_spans.mp (List.mem_flatMap.mpr ⟨s, member, mem_registers.mpr ⟨rfl, low, high⟩⟩)

/-- Three registers in a row are in one run, which is long enough for a range. -/
theorem range_of_three {mask : Word} {address : Bool} {n : Nat} (first : Masked mask address n)
    (second : Masked mask address (n + 1)) (third : Masked mask address (n + 2)) :
    ∃ s ∈ spans mask, s.address = address ∧ s.first ≤ n ∧ n + 2 ≤ s.last := by
  obtain ⟨run, listed, low, high⟩ := mem_iff_run.mp (masked_iff.mp first)
  have maximal := run_maximal (ascending_members mask _) listed
  have next := (maximal _ (masked_iff.mp second)).2
  have last := (maximal _ (masked_iff.mp third)).2
  refine ⟨⟨address, run.first, run.last⟩, mem_spans.mpr ⟨run, listed, run.range_mem_spans ?_ _⟩,
    rfl, low, ?_⟩
  · omega
  · show n + 2 ≤ run.last
    omega

theorem known_spans (mask : Word) : ∀ s ∈ spans mask, s.first ≤ s.last ∧ s.last < 8 := by
  intro s member
  have ordered := first_le_last member
  exact ⟨ordered, (masked_of_mem member ordered (Nat.le_refl _)).1⟩

theorem names_spans (mask : Word) : Names mask (spans mask) where
  registers _ _ := mem_registers_spans
  ascending := by
    rw [registers_spans]
    refine List.pairwise_append.mpr ⟨?_, ?_, ?_⟩
    · exact List.pairwise_map.mpr ((ascending_members mask 0).imp fun less => .inr ⟨rfl, less⟩)
    · exact List.pairwise_map.mpr ((ascending_members mask 8).imp fun less => .inr ⟨rfl, less⟩)
    · intro r data s address
      obtain ⟨_, _, rfl⟩ := List.mem_map.mp data
      obtain ⟨_, _, rfl⟩ := List.mem_map.mp address
      exact .inl ⟨rfl, rfl⟩
  within := known_spans mask
  range _ member range := range_maximal member range
  apart := by
    intro s left t right same meet
    -- The first register of `t` stands above `s`, and the last one of `s` below `t`.
    by_cases single : s.first = s.last
    · by_cases other : t.first = t.last
      · omega
      · have masked := masked_of_mem left (first_le_last left) (Nat.le_refl _)
        have maximal := (range_maximal right other).2 s.last (same ▸ masked)
        omega
    · have masked := masked_of_mem right (Nat.le_refl _) (first_le_last right)
      have maximal := (range_maximal left single).2 t.first (same ▸ masked)
      omega
  joined _ _ first second third := range_of_three first second third

/-! ## Reading lists -/

/-- The register that a letter and a digit name. -/
def register? : List Char → Option (Bool × Nat)
  | ['D', digit] => if '0' ≤ digit ∧ digit ≤ '7' then some (false, digit.toNat - '0'.toNat) else none
  | ['A', digit] => if '0' ≤ digit ∧ digit ≤ '7' then some (true, digit.toNat - '0'.toNat) else none
  | _ => none

/-- The span that an entry names: a register, or the registers of one class from a first to a last
    one, with a dash between the two. -/
def span? (entry : List Char) : Option Span :=
  match entry.splitOn '-' with
  | [single] => (register? single).map fun register => ⟨register.1, register.2, register.2⟩
  | [first, last] => do
    let first ← register? first
    let last ← register? last
    if first.1 = last.1 then some ⟨first.1, first.2, last.2⟩ else none
  | _ => none

/-- The entries of a list, which stand between commas. -/
def pieces (list : String) : List (List Char) := (list.toList.splitOn ',').filter (· ≠ [])

/-- The spans that a list names, if all its entries name one. -/
def read? (list : String) : Option (List Span) := (pieces list).mapM span?

theorem pieces_cons {entry : String} (plain : Lacks ',' entry) (some : entry.toList ≠ []) (rest : String) :
    pieces (entry ++ ("," ++ rest)) = entry.toList :: pieces rest := by
  have characters : (entry ++ ("," ++ rest)).toList = entry.toList ++ ',' :: rest.toList := by
    simp [String.toList_append]
  rw [pieces, pieces, characters, List.splitOn_append_cons_self_of_not_mem plain,
    List.filter_cons_of_pos (by simpa using some)]

theorem pieces_single {entry : String} (plain : Lacks ',' entry) (some : entry.toList ≠ []) :
    pieces entry = [entry.toList] := by
  rw [pieces, List.splitOn_eq_singleton plain, List.filter_cons_of_pos (by simpa using some), List.filter_nil]

theorem Span.toList_ne_nil (s : Span) : s.text.toList ≠ [] := by
  intro empty
  have head := s.head?_text
  rw [empty] at head
  cases head

theorem pieces_joined (ss : List Span) : pieces (joined ss) = ss.map (·.text.toList) := by
  induction ss with
  | nil => rfl
  | cons s ss ih => rw [joined_cons, pieces_cons s.lacks_comma s.toList_ne_nil, ih, List.map_cons]

theorem pieces_intercalate (ss : List Span) :
    pieces (",".intercalate (ss.map Span.text)) = ss.map (·.text.toList) := by
  induction ss with
  | nil => rfl
  | cons s ss ih =>
    cases ss with
    | nil =>
      rw [List.map_singleton, String.intercalate_singleton, pieces_single s.lacks_comma s.toList_ne_nil]
      rfl
    | cons t ss =>
      rw [List.map_cons, List.map_cons, String.intercalate_cons_cons, String.append_assoc,
        pieces_cons s.lacks_comma s.toList_ne_nil, ← List.map_cons, ih]
      rfl

theorem register?_register (address : Bool) {n : Nat} (small : n < 8) :
    register? (Span.letter address ++ decimal n).toList = some (address, n) := by
  have each : ∀ address, ∀ n < 8,
      register? (Span.letter address ++ decimal (n : Nat)).toList = some (address, n) := by
    decide
  exact each address n small

/-- An entry of a register that exists, or of a range up to one, names its span. -/
theorem span?_text {s : Span} (ordered : s.first ≤ s.last) (small : s.last < 8) :
    span? s.text.toList = some s := by
  obtain ⟨address, first, last⟩ := s
  have low : first < 8 := Nat.lt_of_le_of_lt ordered small
  have plain := Span.lacks_register (c := '-') (by decide) (by decide) address
  unfold Span.text
  dsimp only at small ⊢
  by_cases single : first = last
  · subst single
    rw [if_pos rfl, span?, List.splitOn_eq_singleton (plain first)]
    dsimp only
    rw [register?_register address low]
    rfl
  · have dashed : (Span.letter address ++ decimal first ++ ("-" ++ (Span.letter address ++ decimal last))).toList =
        (Span.letter address ++ decimal first).toList ++ '-' :: (Span.letter address ++ decimal last).toList := by
      simp [String.toList_append]
    rw [if_neg single, span?, dashed, List.splitOn_append_cons_self_of_not_mem (plain first),
      List.splitOn_eq_singleton (plain last)]
    dsimp only
    rw [register?_register address low, register?_register address small]
    exact if_pos rfl

theorem spans_eq_nil_iff {mask : Word} : spans mask = [] ↔ mask = 0 := by
  have zero : spans 0 = [] := by decide
  constructor
  · intro none
    exact spans_inj (none.trans zero.symm)
  · rintro rfl
    exact zero

theorem reversed_eq_zero_iff {mask : Word} : mask.reversed = 0 ↔ mask = 0 := by
  have zero : Word.reversed 0 = 0 := by decide
  constructor
  · intro none
    exact Word.reversed_inj (none.trans zero.symm)
  · rintro rfl
    exact zero

/-- Whatever the order of its bits, a mask names nothing only if it is empty. -/
theorem spans_ordered_eq_nil_iff {backwards : Prop} [Decidable backwards] {mask : Word} :
    spans (if backwards then mask.reversed else mask) = [] ↔ mask = 0 := by
  rw [spans_eq_nil_iff]
  split
  · exact reversed_eq_zero_iff
  · exact Iff.rfl

/-- A list that spells spans is read as these spans, and it is empty only if there are none. -/
theorem read?_of_pieces {ss : List Span} (known : ∀ s ∈ ss, s.first ≤ s.last ∧ s.last < 8) {list : String}
    (spelled : pieces list = ss.map (·.text.toList)) (empty : ss = [] → list = "") :
    read? list = some ss ∧ (list = "" ↔ ss = []) := by
  refine ⟨?_, ?_, empty⟩
  · rw [read?, spelled]
    clear spelled empty
    induction ss with
    | nil => rfl
    | cons s ss ih =>
      obtain ⟨⟨ordered, small⟩, others⟩ := List.forall_mem_cons.mp known
      rw [List.map_cons, List.mapM_cons, span?_text ordered small, ih others]
      rfl
  · rintro rfl
    exact List.map_eq_nil_iff.mp spelled.symm

end RegisterList

/-! ## Moves of several registers -/

namespace Form

variable {style : Style} {w : Word}

/-- The operand of a move of several registers. -/
def movemOperand (w : Word) : Operand := Operand.ofField w (Size.ofBit w 6)

theorem operands_movem (style : Style) (w : Word) : movem.operands style w =
    if w.bit 10 then [.load (movemOperand w) style]
    else [.store (Mode.ofField w = .predecrement), .operand (movemOperand w)] := rfl

theorem fault?_movemOperand (accepted : movem.accepts style w = true) : (movemOperand w).fault? = none := by
  have sound := operands_sound accepted
  rw [operands_movem] at sound
  by_cases load : w.bit 10 = true
  · rw [if_pos load] at sound
    exact sound _ (.head _)
  · rw [if_neg load] at sound
    exact sound _ (.tail _ (.head _))

/-- The registers come from the word behind the instruction word, and the operand from the words
    behind that one. Only a store has its mask in the opposite order. -/
theorem text_movem (accepted : movem.accepts style w = true) (next : Cursor) :
    let mask := next.readWord.1
    let named := if Mode.ofField w = .predecrement then mask.reversed else mask
    let operand := (Piece.operand (movemOperand w)).textAt next.readWord.2
    (Reading.ofPieces (movem.operands style w) next).text =
      if w.bit 10 then operand ++ Piece.loadList style (RegisterList.entries named)
      else RegisterList.joined (RegisterList.spans named) ++ operand := by
  intro mask named operand
  simp only [named, mask, operand, Cursor.readWord_fst, Cursor.readWord_snd]
  have sound := operands_sound accepted
  rw [operands_movem] at sound ⊢
  by_cases load : w.bit 10 = true
  · rw [if_pos load] at sound ⊢
    have forwards : Mode.ofField w ≠ .predecrement := by
      intro backwards
      simp [accepts, entry, Encoding.accepts, Encoding.acceptsMultiple, backwards, load] at accepted
    rw [if_pos load, Reading.ofPieces_cons (sound _ (.head _)), Handler.textAt_load, Reading.text_nil,
      String.append_empty, if_neg forwards]
  · rw [if_neg load] at sound ⊢
    rw [if_neg load, Reading.ofPieces_cons (sound _ (.head _)),
      Reading.ofPieces_cons (sound _ (.tail _ (.head _))), Handler.textAt_store, Reading.text_nil,
      String.append_empty]
    simp only [RegisterList.join_entries, decide_eq_true_eq]
    rfl

end Form

namespace Decoder

open RegisterList

/-- What is decoded of a move of several registers: the operand is read behind the mask, up to the end
    of the instruction, and written beside the list. -/
theorem decode_movem {d : Decoder} {c : Cursor} (movem : (d.decode c).instruction.form = some .movem) :
    let op := c.readWord.1
    let mask := c.readWord.2.readWord.1
    let named := if Mode.ofField op = .predecrement then mask.reversed else mask
    ∃ operand : String,
      (Form.movemOperand op).read c.readWord.2.readWord.2 = (.ok operand, (d.decode c).cursor) ∧
      (d.decode c).instruction.operands =
        if op.bit 10 then operand ++ Piece.loadList d.style (entries named) else joined (spans named) ++ operand := by
  intro op mask named
  have form : Form.select? d.style (leadingWord c.rest) = some .movem := (d.decode_form c).symm.trans movem
  have matched := d.decode_matched form
  rw [← c.readWord_fst] at form matched
  obtain ⟨instruction, cursor⟩ := matched
  have accepted := Form.accepts_of_select? form
  have words : Form.movem.extensionWords d.style op = 1 + (Form.movemOperand op).words := rfl
  have moved : (d.decode c).cursor = c.skip (1 + 1 + (Form.movemOperand op).words) := by
    rw [Nat.add_assoc, ← words]
    exact cursor
  refine ⟨(Piece.operand (Form.movemOperand op)).textAt c.readWord.2.readWord.2, ?_, ?_⟩
  · rw [Operand.read_sound (Form.fault?_movemOperand accepted), moved]
    simp only [Cursor.readWord_snd, Cursor.skip_skip]
    rfl
  · have operands : (d.decode c).instruction.operands =
        (Reading.ofPieces (Form.movem.operands d.style op) c.readWord.2).text := by
      rw [c.readWord_snd]
      exact congrArg Instruction.operands instruction
    exact operands.trans (Form.text_movem accepted c.readWord.2)

/-- A move of several registers prints the registers of its mask, which is read with its bits in the
    opposite order if the operand counts down. The list can be read back, names each register of the
    mask once and in order, and has ranges where there are three registers in a row and nowhere else.
    A store has the list with a comma behind each entry in front of the operand; a load has it
    behind the operand and a comma. An empty mask leaves the list empty. -/
theorem movem_lists_mask (d : Decoder) (c : Cursor) (movem : (d.decode c).instruction.form = some .movem) :
    let op := c.readWord.1
    let mask := c.readWord.2.readWord.1
    let behind := c.readWord.2.readWord.2
    let named := if Mode.ofField op = .predecrement then mask.reversed else mask
    let result := d.decode c
    ∃ (list operand : String) (ss : List Span),
      (Operand.ofField op (Size.ofBit op 6)).read behind = (.ok operand, result.cursor) ∧
      read? list = some ss ∧ Names named ss ∧ (list = "" ↔ mask = 0) ∧
      if op.bit 10 then
        list = ",".intercalate (ss.map Span.text) ∧ result.instruction.operands =
          operand ++ "," ++ list ++ if d.style = .classic ∧ mask ≠ 0 then " " else ""
      else
        list = String.join (ss.map (·.text ++ ",")) ∧ result.instruction.operands = list ++ operand := by
  intro op mask behind named result
  obtain ⟨operand, read, operands⟩ := decode_movem movem
  have operands : result.instruction.operands = if op.bit 10 then
      operand ++ Piece.loadList d.style (entries named) else joined (spans named) ++ operand := operands
  have empty : spans named = [] ↔ mask = 0 := spans_ordered_eq_nil_iff
  by_cases load : op.bit 10 = true
  · obtain ⟨names, none⟩ := read?_of_pieces (known_spans named) (pieces_intercalate (spans named)) fun none => by
      rw [none]
      rfl
    refine ⟨_, operand, spans named, read, names, names_spans named, none.trans empty, ?_⟩
    rw [if_pos load]
    refine ⟨rfl, ?_⟩
    rw [operands, if_pos load, loadList_eq]
    simp only [empty, String.append_assoc]
    cases d.style with
    | classic => by_cases none : mask = 0 <;> simp [none]
    | corrected => simp
  · obtain ⟨names, none⟩ := read?_of_pieces (known_spans named) (pieces_joined (spans named)) fun none => by
      rw [none]
      rfl
    refine ⟨_, operand, spans named, read, names, names_spans named, none.trans empty, ?_⟩
    rw [if_neg load]
    refine ⟨rfl, ?_⟩
    rw [operands, if_neg load]

/-- A store below A7: the mask E003 in the opposite order names D0 to D2, A6 and A7, of which the last
    two make no range. -/
theorem movem_lists_mask_backwards :
    let c := Cursor.start [0x48, 0xE7, 0xE0, 0x03] 0x1000
    let result := ({} : Decoder).decode c
    result.instruction.form = some .movem ∧ result.instruction.operands = "D0-D2,A6,A7,-(A7)" ∧
      ∃ (list operand : String) (ss : List Span), read? list = some ss ∧ Names 0xC007 ss ∧ list ≠ "" ∧
        list = String.join (ss.map (·.text ++ ",")) ∧ result.instruction.operands = list ++ operand := by
  intro c result
  have movem : result.instruction.form = some .movem := by decide +kernel
  have text : result.instruction.operands = "D0-D2,A6,A7,-(A7)" := by decide +kernel
  obtain ⟨list, operand, ss, _, read, names, empty, written⟩ := movem_lists_mask {} c movem
  have store : c.readWord.1.bit 10 = false := by decide +kernel
  have reversed : (if Mode.ofField c.readWord.1 = .predecrement then c.readWord.2.readWord.1.reversed
      else c.readWord.2.readWord.1) = 0xC007 := by decide +kernel
  have mask : c.readWord.2.readWord.1 ≠ 0 := by decide +kernel
  rw [store, if_neg Bool.false_ne_true] at written
  exact ⟨movem, text, list, operand, ss, read, reversed ▸ names, fun none => mask (empty.mp none), written⟩

end Decoder
end M68k
