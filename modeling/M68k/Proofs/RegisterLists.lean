import Mathlib
import M68k.Proofs.Characters
import M68k.Proofs.Fields
import M68k.Piece

/-!
Lists of registers can be read back. An entry spells a span of registers of one class
(`Span.text`), no two spans have the same entry, and the registers of all spans are those of
the mask, so that the spans determine the mask (`spans_inj`). Entries with a comma behind each of
them determine the spans, whatever text follows that cannot be taken for one more entry
(`joined_inj`).
-/
namespace M68k

open Text

/-! ## Bits in the opposite order -/

/-- The bits of the number that bits spell, the most significant first. -/
theorem testBit_foldl (bits : List Bool) (i : Nat) :
    (bits.foldl (fun (n : Nat) (b : Bool) => 2 * n + b.toNat) 0).testBit i = bits.reverse.getD i false := by
  induction bits using List.reverseRecOn generalizing i with
  | nil => simp
  | append_singleton bits b ih =>
    rw [List.foldl_append, List.foldl_cons, List.foldl_nil, List.reverse_append]
    have half : ∀ n : Nat, (2 * n + b.toNat) / 2 = n := by
      intro n
      cases b with
      | false => simp
      | true => simp; omega
    cases i with
    | zero => cases b <;> simp [Nat.testBit_zero]
    | succ i =>
      rw [Nat.testBit_succ, half, ih]
      simp

theorem Word.bit_reversed (w : Word) {i : Nat} (inside : i < 16) : w.reversed.bit i = w.bit (15 - i) := by
  have spelled : (List.range 16).foldl (fun n i => 2 * n + (w.bit i).toNat) 0 =
      ((List.range 16).map w.bit).foldl (fun (n : Nat) (b : Bool) => 2 * n + b.toNat) 0 := by
    rw [List.foldl_map]
  rw [bit, reversed, UInt16.toNat_ofNat', Nat.testBit_mod_two_pow, decide_eq_true inside, Bool.true_and, spelled,
    testBit_foldl, ← List.map_reverse, List.getD_eq_getElem?_getD, List.getElem?_map,
    List.getElem?_reverse (by simpa using inside)]
  simp [show 15 - i < 16 by omega]

theorem Word.reversed_inj {w v : Word} (same : w.reversed = v.reversed) : w = v := by
  apply Word.eq_of_bit_eq
  intro i inside
  have here := congrArg (Word.bit · (15 - i)) same
  simp only [bit_reversed _ (show 15 - i < 16 by omega)] at here
  rwa [show 15 - (15 - i) = i by omega] at here

namespace RegisterList

/-! ## Spans -/

/-- The registers of one class from a first number to a last one. -/
structure Span where
  /-- Whether these are address registers. -/
  address : Bool
  first : Nat
  last : Nat
deriving DecidableEq, Repr

namespace Span

/-- The letter of the class. -/
def letter (address : Bool) : String := if address then "A" else "D"

/-- The entry for a span: its register, or its first and last one with a dash between them. -/
def text (s : Span) : String :=
  let first := letter s.address ++ decimal s.first
  if s.first = s.last then first else first ++ ("-" ++ (letter s.address ++ decimal s.last))

/-- The registers of a span, each with its class. -/
def registers (s : Span) : List (Bool × Nat) :=
  (List.range' s.first (s.last + 1 - s.first)).map (s.address, ·)

theorem lacks_register {c : Char} (digit : c.isDigit = false) (letters : c ≠ 'A' ∧ c ≠ 'D') (address : Bool)
    (n : Nat) : Lacks c (letter address ++ decimal n) := by
  rw [decimal_natCast, lacks_append]
  refine ⟨?_, lacks_repr digit n⟩
  cases address with
  | true => simpa [Lacks, letter] using letters.1
  | false => simpa [Lacks, letter] using letters.2

theorem lacks_comma (s : Span) : Lacks ',' s.text := by
  have register := lacks_register (c := ',') (by decide) (by decide) s.address
  unfold text
  dsimp only
  split
  · exact register _
  · exact lacks_append.mpr ⟨register _, lacks_append.mpr ⟨by decide, register _⟩⟩

/-- An entry starts with the letter of its class. -/
theorem head?_text (s : Span) : s.text.toList.head? = some (if s.address then 'A' else 'D') := by
  have register (n : Nat) (rest : String) : (letter s.address ++ decimal n ++ rest).toList.head? =
      some (if s.address then 'A' else 'D') := by
    unfold letter
    split <;> simp [String.toList_append]
  unfold text
  dsimp only
  split
  · simpa using register s.first ""
  · exact register s.first _

theorem register_inj {address : Bool} {m n : Nat}
    (same : letter address ++ decimal m = letter address ++ decimal n) : m = n := by
  rw [String.append_right_inj, decimal_natCast, decimal_natCast] at same
  exact Nat.repr_inj.mp same

/-- No two spans have the same entry. -/
theorem text_inj {s t : Span} (same : s.text = t.text) : s = t := by
  have class_eq : s.address = t.address := by
    have heads := congrArg (·.toList.head?) same
    rw [head?_text, head?_text] at heads
    cases first : s.address <;> cases second : t.address <;> simp [first, second] at heads ⊢
  obtain ⟨address, first, last⟩ := s
  obtain ⟨_, first', last'⟩ := t
  obtain rfl := class_eq
  have plain := lacks_register (c := '-') (by decide) (by decide) address
  have dashed (front back : String) : ¬ Lacks '-' (front ++ ("-" ++ back)) := by
    simp [Lacks, String.toList_append]
  unfold text at same
  dsimp only at same
  split at same
  · split at same
    · have numbers := register_inj same
      simp_all
    · exact absurd (same ▸ plain first) (dashed _ _)
  · split at same
    · exact absurd (same ▸ plain first') (dashed _ _)
    · obtain ⟨firsts, lasts⟩ := append_inj_of_head (plain first) (plain first') (by simp [String.toList_append])
        (by simp [String.toList_append]) same
      rw [String.append_right_inj] at lasts
      rw [register_inj firsts, register_inj lasts]

end Span

/-! ## Spans of masks -/

/-- The spans that a run is written as. -/
def Run.spans (address : Bool) (run : Run) : List Span :=
  if run.last = run.first then [⟨address, run.first, run.first⟩] else
  if run.last = run.first + 1 then [⟨address, run.first, run.first⟩, ⟨address, run.last, run.last⟩]
  else [⟨address, run.first, run.last⟩]

theorem Run.entries_eq (address : Bool) (run : Run) :
    run.entries (Span.letter address) = (run.spans address).map Span.text := by
  unfold Run.entries Run.spans
  dsimp only
  split
  · simp [Span.text]
  · rename_i several
    split
    · simp [Span.text]
    · simp [Span.text, Ne.symm several, String.append_assoc]

/-- The numbers of a run. -/
def Run.numbers (run : Run) : List Nat := List.range' run.first (run.last + 1 - run.first)

theorem Run.registers_spans (address : Bool) (run : Run) :
    (run.spans address).flatMap Span.registers = run.numbers.map (address, ·) := by
  unfold Run.spans Run.numbers
  split
  · rename_i single
    simp [Span.registers, single]
  · split
    · rename_i pair
      have two : run.last + 1 - run.first = 2 := by omega
      rw [two, pair]
      simp [Span.registers, List.range'_succ]
    · simp [Span.registers]

/-- Runs are in order and hold the numbers they are made from. -/
theorem numbers_runs (numbers : List Nat) :
    (∀ run ∈ runs numbers, run.first ≤ run.last) ∧ (runs numbers).flatMap Run.numbers = numbers := by
  induction numbers with
  | nil => simp [runs]
  | cons n numbers ih =>
    rw [runs, List.foldr_cons, ← runs]
    obtain ⟨ordered, held⟩ := ih
    cases found : runs numbers with
    | nil =>
      rw [found] at held
      simp [extend, Run.numbers, ← held]
    | cons run rest =>
      rw [found, List.flatMap_cons] at held
      rw [found, List.forall_mem_cons] at ordered
      obtain ⟨first, others⟩ := ordered
      rw [extend]
      split
      · rename_i joined
        refine ⟨List.forall_mem_cons.mpr ⟨by dsimp only; omega, others⟩, ?_⟩
        have more : run.last + 1 - n = run.last + 1 - run.first + 1 := by omega
        rw [List.flatMap_cons, Run.numbers, more, List.range'_succ, joined, ← held]
        rfl
      · refine ⟨by simpa using ⟨first, others⟩, ?_⟩
        rw [List.flatMap_cons, List.flatMap_cons, held]
        simp [Run.numbers]

/-- The spans that a mask is written as. -/
def spans (mask : Word) : List Span :=
  (runs (members mask 0)).flatMap (Run.spans false) ++ (runs (members mask 8)).flatMap (Run.spans true)

theorem entries_eq (mask : Word) : entries mask = (spans mask).map Span.text := by
  rw [entries, spans, List.map_append, List.map_flatMap, List.map_flatMap]
  simp only [← Run.entries_eq]
  rfl

/-- Spans name the registers of the mask, each once and in order. -/
theorem registers_spans (mask : Word) : (spans mask).flatMap Span.registers =
    (members mask 0).map (false, ·) ++ (members mask 8).map (true, ·) := by
  have runs_eq (address : Bool) (numbers : List Nat) :
      ((runs numbers).flatMap (Run.spans address)).flatMap Span.registers = numbers.map (address, ·) := by
    rw [List.flatMap_assoc]
    conv_rhs => rw [← (numbers_runs numbers).2, List.map_flatMap]
    exact List.flatMap_congr fun run _ => run.registers_spans address
  rw [spans, List.flatMap_append, runs_eq, runs_eq]

theorem mem_members {mask : Word} {low i : Nat} (small : i < 8) :
    i ∈ members mask low ↔ mask.bit (low + i) = true := by
  simp [members, small]

/-- Spans determine the mask. -/
theorem spans_inj {m n : Word} (same : spans m = spans n) : m = n := by
  have registers := registers_spans m
  rw [same, registers_spans n] at registers
  have member (address : Bool) (i : Nat) := congrArg ((address, i) ∈ ·) registers
  apply Word.eq_of_bit_eq
  intro i inside
  by_cases low : i < 8
  · have here := member false i
    simp only [List.mem_append, List.mem_map, Prod.mk.injEq, true_and, false_and, exists_eq_right,
      Bool.true_eq_false, and_false, exists_false, or_false, mem_members low, Nat.zero_add, eq_iff_iff] at here
    exact (Bool.eq_iff_iff.mpr here).symm
  · have here := member true (i - 8)
    simp only [List.mem_append, List.mem_map, Prod.mk.injEq, true_and, false_and, exists_eq_right,
      Bool.false_eq_true, and_false, exists_false, false_or, mem_members (show i - 8 < 8 by omega), eq_iff_iff,
      show 8 + (i - 8) = i by omega] at here
    exact (Bool.eq_iff_iff.mpr here).symm

/-! ## Lists in text -/

/-- A text that cannot be taken for an entry. -/
def NoEntry (text : String) : Prop := ∀ c ∈ text.toList.head?, c ≠ 'A' ∧ c ≠ 'D'

theorem noEntry_of_head {c : Char} {text : String} (starts : text.toList.head? = some c)
    (other : c ≠ 'A' ∧ c ≠ 'D') : NoEntry text := by
  intro first here
  obtain rfl := Option.some.inj (starts.symm.trans here)
  exact other

theorem noEntry_empty : NoEntry "" := by
  intro c none
  simp at none

/-- Spans with a comma behind each of them. -/
def joined (spans : List Span) : String := String.join (spans.map fun s => s.text ++ ",")

theorem joined_cons (s : Span) (spans : List Span) : joined (s :: spans) = s.text ++ ("," ++ joined spans) := by
  rw [joined, List.map_cons, String.join_cons, String.append_assoc]
  rfl

theorem NoEntry.ne_joined {u : String} (other : NoEntry u) (s : Span) (spans : List Span) (v : String) :
    u ≠ joined (s :: spans) ++ v := by
  rintro rfl
  have letter := other (if s.address then 'A' else 'D') (by
    rw [joined_cons, String.append_assoc, String.toList_append, List.head?_append, s.head?_text]
    rfl)
  cases s.address <;> simp at letter

/-- Entries are separated from each other and from what follows them. -/
theorem joined_inj {ss ts : List Span} {u v : String} (first : NoEntry u) (second : NoEntry v)
    (same : joined ss ++ u = joined ts ++ v) : ss = ts := by
  induction ss generalizing ts with
  | nil =>
    cases ts with
    | nil => rfl
    | cons t ts =>
      rw [joined, List.map_nil, String.join_nil, String.empty_append] at same
      exact absurd same (first.ne_joined t ts v)
  | cons s ss ih =>
    cases ts with
    | nil =>
      rw [joined, joined, List.map_nil, String.join_nil, String.empty_append] at same
      exact absurd same.symm (second.ne_joined s ss u)
    | cons t ts =>
      simp only [joined_cons, String.append_assoc] at same
      obtain ⟨here, behind⟩ := append_inj_of_head s.lacks_comma t.lacks_comma (by simp [String.toList_append])
        (by simp [String.toList_append]) same
      rw [String.append_right_inj] at behind
      rw [Span.text_inj here, ih behind]

theorem join_entries (mask : Word) : String.join ((entries mask).map (· ++ ",")) = joined (spans mask) := by
  rw [entries_eq, List.map_map]
  rfl

theorem intercalate_entries {ss : List Span} (some : ss ≠ []) :
    ",".intercalate (ss.map Span.text) ++ "," = joined ss := by
  induction ss with
  | nil => exact absurd rfl some
  | cons s ss ih =>
    cases ss with
    | nil =>
      rw [List.map_singleton, joined_cons]
      simp [joined]
    | cons t ss =>
      rw [List.map_cons, List.map_cons, String.intercalate_cons_cons, joined_cons, ← ih (by simp), List.map_cons]
      simp only [String.append_assoc]

theorem loadList_eq (style : Style) (mask : Word) : Piece.loadList style (entries mask) =
    "," ++ (",".intercalate ((spans mask).map Span.text) ++
      if spans mask = [] ∨ style = .corrected then "" else " ") := by
  rw [entries_eq]
  cases spans mask with
  | nil => cases style <;> rfl
  | cons s ss => cases style <;> simp [Piece.loadList, String.append_assoc]

/-- The list of the registers to load determines the mask. -/
theorem loadList_inj {style : Style} {m n : Word}
    (same : Piece.loadList style (entries m) = Piece.loadList style (entries n)) : m = n := by
  have some (s : Span) (ss : List Span) (rest : String) :
      ",".intercalate ((s :: ss).map Span.text) ++ rest ≠ "" := by
    have starts : ∃ c, (",".intercalate ((s :: ss).map Span.text)).toList.head? = some c := by
      cases ss with
      | nil => exact ⟨_, by simpa using s.head?_text⟩
      | cons t ss =>
        rw [List.map_cons, List.map_cons, String.intercalate_cons_cons]
        exact ⟨_, head?_append (head?_append s.head?_text _) _⟩
    obtain ⟨c, starts⟩ := starts
    intro none
    have head := head?_append starts rest
    rw [none] at head
    cases head
  apply spans_inj
  rw [loadList_eq, loadList_eq, String.append_right_inj] at same
  cases first : spans m with
  | nil =>
    cases second : spans n with
    | nil => rfl
    | cons t ts =>
      rw [first, second] at same
      exact absurd same.symm (some t ts _)
  | cons s ss =>
    cases second : spans n with
    | nil =>
      rw [first, second] at same
      exact absurd same (some s ss _)
    | cons t ts =>
      simp only [first, second, reduceCtorEq, false_or, String.append_left_inj] at same
      apply joined_inj noEntry_empty noEntry_empty
      rw [← intercalate_entries (by simp), ← intercalate_entries (by simp), same]

end RegisterList

end M68k
