import Mathlib
import M68k.Proofs.ReadBack

/-!
Data falls into parts by its maximal printable runs. A run of at least four characters with a zero
behind it is a string that takes the zero along, a run of exactly four at a multiple of four is a
string by itself, and every other run is written as numbers, as are the maximal stretches of what
remains (`Part.Of`). Parts do not overlap, and the scan finds them one behind the other: it only
stops at places where a part can begin (`Boundary`), and what it takes from there is a part.
-/
namespace M68k.Data

/-! ## Maximal stretches -/

/-- The places from `s` up to `e` have a property, and those next to them do not. -/
structure Stretch (P : Nat → Prop) (s e : Nat) : Prop where
  lt : s < e
  within : ∀ i, s ≤ i → i < e → P i
  before : ∀ i, i + 1 = s → ¬ P i
  behind : ¬ P e

namespace Stretch

variable {P : Nat → Prop} {s e s' e' i : Nat}

/-- A stretch holds every other one that has a place in common with it. -/
theorem holds (whole : Stretch P s e) (other : Stretch P s' e') (low : s ≤ i) (high : i < e) (low' : s' ≤ i)
    (high' : i < e') : s ≤ s' ∧ e' ≤ e := by
  constructor
  · by_contra early
    exact whole.before (s - 1) (by omega) (other.within (s - 1) (by omega) (by omega))
  · by_contra late
    exact whole.behind (other.within e (by omega) (by omega))

theorem unique (first : Stretch P s e) (second : Stretch P s' e') (low : s ≤ i) (high : i < e) (low' : s' ≤ i)
    (high' : i < e') : s = s' ∧ e = e' := by
  have one := first.holds second low high low' high'
  have two := second.holds first low' high' low high
  omega

/-- Stretches with the same end are the same. -/
theorem start_eq (first : Stretch P s e) (second : Stretch P s' e) : s = s' := by
  have some := first.lt
  have other := second.lt
  exact (first.unique second (i := e - 1) (by omega) (by omega) (by omega) (by omega)).1

end Stretch

/-! ## Parts of data -/

/-- There is a printable byte at a place of the data. -/
def PrintableAt (data : List Byte) (i : Nat) : Prop := ∃ b, data[i]? = some b ∧ 0x20 ≤ b ∧ b ≤ 0x7E

/-- There is a zero at a place of the data that ends a string: at least four printable bytes lie in
    front of it. -/
def Terminator (data : List Byte) (i : Nat) : Prop :=
  data[i]? = some 0 ∧ ∃ s, s + 4 ≤ i ∧ Stretch (PrintableAt data) s i

/-- There is a byte at a place of the data that is neither. -/
def Bare (data : List Byte) (i : Nat) : Prop := i < data.length ∧ ¬ PrintableAt data i ∧ ¬ Terminator data i

/-- The data from `start` up to `stop` and how it is written. -/
structure Part where
  start : Nat
  stop : Nat
  segment : Segment

namespace Part

/-- The part that the printable run from `s` up to `e` gives rise to, in data at the address `b`. -/
def ofRun (data : List Byte) (b : Address) (s e : Nat) : Part :=
  if s + 4 ≤ e ∧ data[e]? = some 0 then ⟨s, e + 1, .string (data.extract s e) true⟩
  else if e = s + 4 ∧ (b.toNat + s) % 2 ^ 32 % 4 = 0 then ⟨s, e, .string (data.extract s e) false⟩
  else ⟨s, e, .values (data.extract s e)⟩

/-- The parts of data at the address `b`: one for each maximal printable run and one for each maximal
    stretch of what the runs leave. -/
inductive Of (data : List Byte) (b : Address) : Part → Prop
  | run {s e : Nat} (run : Stretch (PrintableAt data) s e) : Of data b (ofRun data b s e)
  | bare {s e : Nat} (bare : Stretch (Bare data) s e) : Of data b ⟨s, e, .values (data.extract s e)⟩

/-- Parts that follow each other from `s` to `e`. -/
def Consecutive : Nat → List Part → Nat → Prop
  | s, [], e => s = e
  | s, p :: parts, e => p.start = s ∧ s < p.stop ∧ Consecutive p.stop parts e

end Part

variable {data : List Byte} {b : Address} {i s e : Nat}

theorem printableAt_iff : PrintableAt data i ↔ ∃ c, data[i]? = some c ∧ isPrintable c = true := by
  simp only [PrintableAt, isPrintable, Bool.and_eq_true, decide_eq_true_eq]

theorem PrintableAt.lt (printable : PrintableAt data i) : i < data.length := by
  obtain ⟨c, here, _⟩ := printable
  exact (List.getElem?_eq_some_iff.mp here).1

theorem PrintableAt.ne_zero (printable : PrintableAt data i) : data[i]? ≠ some 0 := by
  rintro zero
  obtain ⟨c, here, low, _⟩ := printable
  obtain rfl := Option.some.inj (here.symm.trans zero)
  exact absurd low (by decide)

/-- What stands behind a byte that is not printable ends no string. -/
theorem not_terminator (gap : ∀ j, j + 1 = i → ¬ PrintableAt data j) : ¬ Terminator data i := by
  rintro ⟨_, s, long, run⟩
  exact gap (i - 1) (by omega) (run.within (i - 1) (by omega) (by omega))

theorem Stretch.le_of_lt {P : Nat → Prop} {n : Nat} (stretch : Stretch P s e) (inside : ∀ i, P i → i < n) :
    e ≤ n := by
  have some := stretch.lt
  have last := inside (e - 1) (stretch.within (e - 1) (by omega) (by omega))
  omega

/-! ## Parts do not overlap -/

namespace Part

@[simp] theorem start_ofRun : (ofRun data b s e).start = s := by
  unfold ofRun
  split_ifs <;> rfl

/-- A run's part ends with the run or with the zero behind it. -/
theorem stop_ofRun (data : List Byte) (b : Address) (s e : Nat) : (ofRun data b s e).stop = e ∨
    (ofRun data b s e).stop = e + 1 ∧ s + 4 ≤ e ∧ data[e]? = some 0 := by
  unfold ofRun
  split_ifs with terminated
  · exact .inr ⟨rfl, terminated⟩
  · exact .inl rfl
  · exact .inl rfl

/-- A place of a run's part is in the run or holds its terminator. -/
theorem mem_ofRun (run : Stretch (PrintableAt data) s e) (high : i < (ofRun data b s e).stop) :
    i < e ∨ i = e ∧ Terminator data e := by
  rcases stop_ofRun data b s e with stop | ⟨stop, long, zero⟩
  · exact .inl (by omega)
  · by_cases last : i = e
    · exact .inr ⟨last, zero, s, long, run⟩
    · exact .inl (by omega)

variable {p q : Part}

theorem Of.bounds (part : p.Of data b) : p.start < p.stop ∧ p.stop ≤ data.length := by
  cases part with
  | @run s e run =>
    have some := run.lt
    have inside : e ≤ data.length := run.le_of_lt fun _ printable => printable.lt
    rw [start_ofRun]
    rcases stop_ofRun data b s e with stop | ⟨stop, _, zero⟩
    · omega
    · have last := (List.getElem?_eq_some_iff.mp zero).1
      omega
  | bare bare => exact ⟨bare.lt, bare.le_of_lt fun _ bare => bare.1⟩

/-- Runs and bare stretches have no place in common. -/
theorem disjoint (run : Stretch (PrintableAt data) s e) {s' e' : Nat} (bare : Stretch (Bare data) s' e')
    (low : s ≤ i) (high : i < (ofRun data b s e).stop) (low' : s' ≤ i) (high' : i < e') : False := by
  obtain ⟨_, silent, unended⟩ := bare.within i low' high'
  rcases mem_ofRun run high with inside | ⟨rfl, terminator⟩
  · exact silent (run.within i low inside)
  · exact unended terminator

/-- Parts with a place in common are the same. -/
theorem Of.unique (first : p.Of data b) (second : q.Of data b) (low : p.start ≤ i) (high : i < p.stop)
    (low' : q.start ≤ i) (high' : i < q.stop) : p = q := by
  cases first with
  | @run s e run =>
    rw [start_ofRun] at low
    cases second with
    | @run s' e' other =>
      rw [start_ofRun] at low'
      suffices same : s = s' ∧ e = e' by rw [same.1, same.2]
      rcases mem_ofRun run high with inside | ⟨rfl, zero, _⟩
      · rcases mem_ofRun other high' with inside' | ⟨rfl, zero, _⟩
        · exact run.unique other low inside low' inside'
        · exact absurd zero (run.within _ low inside).ne_zero
      · rcases mem_ofRun other high' with inside' | ⟨rfl, _⟩
        · exact absurd zero (other.within _ low' inside').ne_zero
        · exact ⟨run.start_eq other, rfl⟩
    | bare bare => exact (disjoint run bare low high low' high').elim
  | bare bare =>
    cases second with
    | run other =>
      rw [start_ofRun] at low'
      exact (disjoint other bare low' high' low high).elim
    | bare other =>
      obtain ⟨rfl, rfl⟩ := bare.unique other low high low' high'
      rfl

theorem Consecutive.exists_mem {parts : List Part} (consecutive : Consecutive s parts e) (low : s ≤ i)
    (high : i < e) : ∃ p ∈ parts, p.start ≤ i ∧ i < p.stop := by
  induction parts generalizing s with
  | nil =>
    have empty : s = e := consecutive
    omega
  | cons p parts ih =>
    obtain ⟨start, _, rest⟩ := consecutive
    by_cases here : i < p.stop
    · exact ⟨p, List.mem_cons_self, by omega, here⟩
    · obtain ⟨q, member, inside⟩ := ih rest (by omega)
      exact ⟨q, List.mem_cons_of_mem p member, inside⟩

/-- Parts that cover the data are all its parts. -/
theorem Consecutive.mem_iff {parts : List Part} (covers : Consecutive 0 parts data.length)
    (each : ∀ p ∈ parts, p.Of data b) (p : Part) : p ∈ parts ↔ p.Of data b := by
  refine ⟨each p, ?_⟩
  intro part
  obtain ⟨some, inside⟩ := part.bounds
  obtain ⟨q, member, low, high⟩ := covers.exists_mem (Nat.zero_le p.start) (by omega)
  obtain rfl := part.unique (each q member) (le_refl _) some low high
  exact member

end Part

/-! ## The scan finds the parts -/

/-- A place where a part can begin: neither a run nor a bare stretch goes across it, and it is not
    the end of a string. -/
structure Boundary (data : List Byte) (o : Nat) : Prop where
  run : ∀ i, i + 1 = o → PrintableAt data i → ¬ PrintableAt data o
  bare : ∀ i, i + 1 = o → Bare data i → ¬ Bare data o
  unended : ¬ Terminator data o

theorem boundary_zero (data : List Byte) : Boundary data 0 :=
  ⟨fun i next => by omega, fun i next => by omega, not_terminator fun j next => by omega⟩

/-- Behind the zero of a string there is a boundary. -/
theorem Terminator.boundary (terminator : Terminator data e) : Boundary data (e + 1) := by
  have plain (i : Nat) (next : i + 1 = e + 1) : ¬ PrintableAt data i := by
    obtain rfl : i = e := by omega
    exact fun printable => printable.ne_zero terminator.1
  refine ⟨fun i next printable => absurd printable (plain i next), ?_, not_terminator plain⟩
  intro i next bare
  obtain rfl : i = e := by omega
  exact absurd terminator bare.2.2

theorem Stretch.boundary_of_bare (bare : Stretch (Bare data) s e) : Boundary data e := by
  have some := bare.lt
  have plain (i : Nat) (next : i + 1 = e) : ¬ PrintableAt data i :=
    (bare.within i (by omega) (by omega)).2.1
  exact ⟨fun i next printable => absurd printable (plain i next), fun _ _ _ => bare.behind, not_terminator plain⟩

section Split

variable {o : Nat} {run after : List Byte}

theorem getElem?_of_split (split : data.drop o = run ++ after) (k : Nat) : data[o + k]? = (run ++ after)[k]? := by
  rw [← split, List.getElem?_drop]

theorem head?_of_split (split : data.drop o = run ++ after) : data[o + run.length]? = after.head? := by
  rw [getElem?_of_split split, List.getElem?_append_right (le_refl _), Nat.sub_self, List.head?_eq_getElem?]

theorem drop_of_split (split : data.drop o = run ++ after) : data.drop (o + run.length) = after := by
  rw [← List.drop_drop, split, List.drop_left]

theorem extract_of_split (split : data.drop o = run ++ after) : data.extract o (o + run.length) = run := by
  rw [List.extract_eq_take_drop, split, Nat.add_sub_cancel_left, List.take_left]

theorem mem_of_split (split : data.drop o = run ++ after) (low : o ≤ i) (high : i < o + run.length) :
    ∃ c ∈ run, data[i]? = some c := by
  obtain ⟨k, rfl⟩ := Nat.exists_eq_add_of_le low
  have inside : k < run.length := by omega
  refine ⟨run[k], List.getElem_mem inside, ?_⟩
  rw [getElem?_of_split split, List.getElem?_append_left inside, List.getElem?_eq_getElem inside]

/-- Printable bytes from a boundary up to a byte that is not printable are a maximal run. -/
theorem stretch_of_printable (boundary : Boundary data o) (split : data.drop o = run ++ after) (some : run ≠ [])
    (all : ∀ c ∈ run, isPrintable c = true) (ends : ∀ c ∈ after.head?, isPrintable c = false) :
    Stretch (PrintableAt data) o (o + run.length) := by
  have long := List.length_pos_iff.mpr some
  have within (i : Nat) (low : o ≤ i) (high : i < o + run.length) : PrintableAt data i := by
    obtain ⟨c, member, here⟩ := mem_of_split split low high
    exact printableAt_iff.mpr ⟨c, here, all c member⟩
  refine ⟨by omega, within, ?_, ?_⟩
  · intro i next printable
    exact boundary.run i next printable (within o (le_refl o) (by omega))
  · intro printable
    obtain ⟨c, here, isPrintable⟩ := printableAt_iff.mp printable
    rw [head?_of_split split] at here
    rw [ends c here] at isPrintable
    cases isPrintable

/-- Other bytes from a boundary up to a printable one are a maximal bare stretch. -/
theorem stretch_of_bare (boundary : Boundary data o) (split : data.drop o = run ++ after) (some : run ≠ [])
    (all : ∀ c ∈ run, isPrintable c = false) (ends : ∀ c ∈ after.head?, isPrintable c = true) :
    Stretch (Bare data) o (o + run.length) := by
  have long := List.length_pos_iff.mpr some
  have plain (i : Nat) (low : o ≤ i) (high : i < o + run.length) : i < data.length ∧ ¬ PrintableAt data i := by
    obtain ⟨c, member, here⟩ := mem_of_split split low high
    refine ⟨(List.getElem?_eq_some_iff.mp here).1, ?_⟩
    rintro printable
    obtain ⟨c', here', isPrintable⟩ := printableAt_iff.mp printable
    obtain rfl := Option.some.inj (here.symm.trans here')
    rw [all c member] at isPrintable
    cases isPrintable
  have within (i : Nat) (low : o ≤ i) (high : i < o + run.length) : Bare data i := by
    refine ⟨(plain i low high).1, (plain i low high).2, ?_⟩
    -- Only the first byte of the stretch has a printable byte before it, perhaps.
    by_cases first : i = o
    · exact first ▸ boundary.unended
    · exact not_terminator fun j next => (plain j (by omega) (by omega)).2
  refine ⟨by omega, within, ?_, ?_⟩
  · intro i next bare
    exact boundary.bare i next bare (within o (le_refl o) (by omega))
  · rintro ⟨inside, silent, _⟩
    have here := List.getElem?_eq_getElem inside
    have head := head?_of_split split
    rw [here] at head
    exact silent (printableAt_iff.mpr ⟨_, here, ends _ head.symm⟩)

/-- A run that is no string with a zero behind it ends at a boundary. -/
theorem boundary_of_split (split : data.drop o = run ++ after) (stretch : Stretch (PrintableAt data) o (o + run.length))
    (other : ¬ (4 ≤ run.length ∧ after.head? = some 0)) : Boundary data (o + run.length) where
  run _ _ _ := stretch.behind
  bare i next bare := by
    have lt := stretch.lt
    exact absurd (stretch.within i (by omega) (by omega)) bare.2.1
  unended := by
    rintro ⟨zero, s, long, same⟩
    obtain rfl := stretch.start_eq same
    exact other ⟨by omega, (head?_of_split split).symm.trans zero⟩

end Split

/-- Segments as the parts of the data from a place on. -/
def Scanned (data : List Byte) (b : Address) (o : Nat) (segments : List (Address × Segment)) : Prop :=
  ∃ parts : List Part, Part.Consecutive o parts data.length ∧ (∀ p ∈ parts, p.Of data b) ∧
    segments = parts.map fun p => (b.advance p.start, p.segment)

theorem Scanned.cons {p : Part} {segments : List (Address × Segment)} (part : p.Of data b)
    (behind : Scanned data b p.stop segments) :
    Scanned data b p.start ((b.advance p.start, p.segment) :: segments) := by
  obtain ⟨parts, consecutive, each, rfl⟩ := behind
  exact ⟨p :: parts, ⟨rfl, part.bounds.1, consecutive⟩, List.forall_mem_cons.mpr ⟨part, each⟩, rfl⟩

theorem Part.ofRun_of_split {o : Nat} {run after : List Byte} (split : data.drop o = run ++ after) :
    Part.ofRun data b o (o + run.length) =
      if 4 ≤ run.length ∧ after.head? = some 0 then ⟨o, o + run.length + 1, .string run true⟩
      else if run.length = 4 ∧ (b.advance o).toNat % 4 = 0 then ⟨o, o + run.length, .string run false⟩
      else ⟨o, o + run.length, .values run⟩ := by
  simp only [Part.ofRun, extract_of_split split, head?_of_split split, Address.toNat_advance, Nat.add_le_add_iff_left,
    Nat.add_left_cancel_iff]

theorem head?_dropWhile {p : Byte → Bool} {bytes : List Byte} : ∀ c ∈ (bytes.dropWhile p).head?, p c = false := by
  intro c head
  have stops := List.head?_dropWhile_not p bytes
  rw [Option.mem_def.mp head] at stops
  exact stops

/-- The scan takes a maximal run if the byte at a boundary is printable, -/
theorem run_at {o : Nat} {c : Byte} {rest : List Byte} (boundary : Boundary data o) (here : data.drop o = c :: rest)
    (first : isPrintable c = true) :
    let run := c :: rest.takeWhile isPrintable
    data.drop o = run ++ rest.dropWhile isPrintable ∧ Stretch (PrintableAt data) o (o + run.length) := by
  intro run
  have split : data.drop o = run ++ rest.dropWhile isPrintable := by
    simp [here, run]
  refine ⟨split, stretch_of_printable boundary split (List.cons_ne_nil _ _) ?_ head?_dropWhile⟩
  exact ReadBack.isPrintable_run first rest

/-- and a maximal bare stretch if it is not. -/
theorem bare_at {o : Nat} {c : Byte} {rest : List Byte} (boundary : Boundary data o) (here : data.drop o = c :: rest)
    (first : ¬ isPrintable c = true) :
    let run := c :: rest.takeWhile (!isPrintable ·)
    data.drop o = run ++ rest.dropWhile (!isPrintable ·) ∧ Stretch (Bare data) o (o + run.length) := by
  intro run
  have split : data.drop o = run ++ rest.dropWhile (!isPrintable ·) := by
    simp [here, run]
  refine ⟨split, stretch_of_bare boundary split (List.cons_ne_nil _ _) ?_ ?_⟩
  · intro x member
    rcases List.mem_cons.mp member with rfl | behind
    · exact Bool.eq_false_iff.mpr first
    · have other := List.mem_takeWhile_imp behind
      simpa using other
  · intro x head
    have stops : (!isPrintable x) = false := head?_dropWhile x head
    simpa using stops

/-- From a boundary on, the scan finds the parts. Each case takes one part, behind which there is a
    boundary again. -/
theorem scanned_segments (rest : List Byte) (a : Address) (o : Nat) (here : data.drop o = rest)
    (inside : o ≤ data.length) (place : a = b.advance o) (boundary : Boundary data o) :
    Scanned data b o (segments rest a) := by
  fun_induction segments rest a generalizing o with
  | case1 a =>
    have all : o = data.length := le_antisymm inside (List.drop_eq_nil_iff.mp here)
    exact ⟨[], all, by simp, rfl⟩
  | case2 a c rest first run after next terminated ih =>
    obtain ⟨split, stretch⟩ := run_at boundary here first
    have part : Part.Of data b _ := .run stretch
    rw [Part.ofRun_of_split split, if_pos terminated] at part
    have terminator : Terminator data (o + run.length) :=
      ⟨(head?_of_split split).trans terminated.2, o, Nat.add_le_add_left terminated.1 o, stretch⟩
    have rest : data.drop (o + run.length + 1) = after.tail := by
      rw [← List.drop_drop, drop_of_split split, List.drop_one]
    have next : a.advance run.length + 1 = b.advance (o + run.length + 1) := by
      rw [place, Address.advance_advance, ← Address.advance_advance b _ 1]
      rfl
    subst place
    exact .cons part (ih _ rest part.bounds.2 next terminator.boundary)
  | case3 a c rest first run after next terminated tag ih =>
    obtain ⟨split, stretch⟩ := run_at boundary here first
    have part : Part.Of data b _ := .run stretch
    subst place
    rw [Part.ofRun_of_split split, if_neg terminated, if_pos tag] at part
    exact .cons part (ih _ (drop_of_split split) part.bounds.2 (Address.advance_advance ..)
      (boundary_of_split split stretch terminated))
  | case4 a c rest first run after next terminated tag ih =>
    obtain ⟨split, stretch⟩ := run_at boundary here first
    have part : Part.Of data b _ := .run stretch
    subst place
    rw [Part.ofRun_of_split split, if_neg terminated, if_neg tag] at part
    exact .cons part (ih _ (drop_of_split split) part.bounds.2 (Address.advance_advance ..)
      (boundary_of_split split stretch terminated))
  | case5 a c rest first run ih =>
    obtain ⟨split, stretch⟩ := bare_at boundary here first
    have part : Part.Of data b _ := .bare stretch
    subst place
    rw [extract_of_split split] at part
    exact .cons part (ih _ (drop_of_split split) part.bounds.2 (Address.advance_advance ..) stretch.boundary_of_bare)

/-- Data falls into its parts. -/
theorem exists_parts (data : List Byte) (b : Address) : ∃ parts : List Part,
    Part.Consecutive 0 parts data.length ∧ (∀ p, p ∈ parts ↔ p.Of data b) ∧
      segments data b = parts.map fun p => (b.advance p.start, p.segment) := by
  have all : Scanned data b 0 (segments data b) :=
    scanned_segments data b 0 rfl (Nat.zero_le _) (Address.advance_zero b).symm (boundary_zero data)
  obtain ⟨parts, covers, each, scanned⟩ := all
  exact ⟨parts, covers, covers.mem_iff each, scanned⟩

end M68k.Data
