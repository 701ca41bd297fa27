import Mathlib
import M68k.Proofs.Renaming

/-!
Labelling from several entries, one after the other. Names do not change where control goes, so
each pass names lines as if it were the first one (`name?_labelFrom`), and what is left in the end is
what the last pass has written: a line is called as the last entry that names it says
(`getElem?_labelFrom`). But the line and the instructions that lead to it can be written by
different passes. A shown name belongs to a line exactly if the last entry that reaches the
instruction and the last entry that names the line agree on whether the line is called.
-/
namespace M68k

/-- A line without its names. -/
def Line.unnamed (l : Line) : Line := { l with label := none, target := none }

namespace Labelling

/-! ## One pass behind another -/

theorem unnamed_label (lines : List Line) (entry : Address) :
    (label lines entry).map Line.unnamed = lines.map Line.unnamed := by
  have each (p : Line × Nat) : Line.unnamed (if ((Index.ofLines lines)[p.1.address]?).map (·.1) = some p.2 then
      { p.1 with
        label := (name? lines entry p.1.address).or p.1.label
        target := (shown? lines entry p.1).or p.1.target }
      else p.1) = p.1.unnamed := by
    split <;> rfl
  calc
    (label lines entry).map Line.unnamed = lines.zipIdx.map (fun p => p.1.unnamed) := by
      rw [label, List.map_map]
      exact List.map_congr_left fun p _ => each p
    _ = (lines.zipIdx.map Prod.fst).map Line.unnamed := by rw [List.map_map]; rfl
    _ = lines.map Line.unnamed := by rw [List.zipIdx_map_fst]

theorem Index.ofLines_unnamed (lines : List Line) :
    Index.ofLines (lines.map Line.unnamed) = Index.ofLines lines := by
  rw [Index.ofLines, List.zipIdx_map, List.foldl_map]
  rfl

/-- The index does not see names. -/
theorem Index.ofLines_label (lines : List Line) (entry : Address) :
    Index.ofLines (label lines entry) = Index.ofLines lines := by
  rw [← Index.ofLines_unnamed, unnamed_label, Index.ofLines_unnamed]

/-- The lines labelled from one entry after the other. -/
def labelFrom (lines : List Line) (entries : List Address) : List Line := entries.foldl label lines

theorem labelFrom_concat (lines : List Line) (entries : List Address) (entry : Address) :
    labelFrom lines (entries ++ [entry]) = label (labelFrom lines entries) entry := by
  rw [labelFrom, List.foldl_append, ← labelFrom]
  rfl

theorem length_labelFrom (lines : List Line) (entries : List Address) :
    (labelFrom lines entries).length = lines.length := by
  induction entries using List.reverseRecOn with
  | nil => rfl
  | append_singleton entries entry ih => rw [labelFrom_concat, label, List.length_map, List.length_zipIdx, ih]

theorem Index.ofLines_labelFrom (lines : List Line) (entries : List Address) :
    Index.ofLines (labelFrom lines entries) = Index.ofLines lines := by
  induction entries using List.reverseRecOn with
  | nil => rfl
  | append_singleton entries entry ih => rw [labelFrom_concat, Index.ofLines_label, ih]

/-- A later pass gives the names that it would give as the first one. -/
theorem name?_labelFrom (lines : List Line) (entries : List Address) (entry t : Address) :
    name? (labelFrom lines entries) entry t = name? lines entry t := by
  simp only [name?, Index.ofLines_labelFrom]

theorem shown?_labelFrom (lines : List Line) (entries : List Address) (entry : Address) (l : Line)
    (label target : Option String) :
    shown? (labelFrom lines entries) entry { l with label, target } = shown? lines entry l := by
  simp only [shown?, name?_labelFrom, Index.ofLines_labelFrom]

/-! ## The last entry -/

/-- What the last entry that gives something gives. -/
def latest (entries : List Address) (given : Address → Option String) : Option String :=
  entries.reverse.findSome? given

theorem latest_concat (entries : List Address) (entry : Address) (given : Address → Option String) :
    latest (entries ++ [entry]) given = (given entry).or (latest entries given) := by
  rw [latest, List.reverse_append, List.reverse_singleton, List.singleton_append, List.findSome?_cons]
  cases given entry <;> rfl

/-- An entry has a property and no later one has. -/
def IsLast (entries : List Address) (P : Address → Prop) (entry : Address) : Prop :=
  ∃ earlier later, entries = earlier ++ entry :: later ∧ P entry ∧ ∀ e ∈ later, ¬ P e

theorem latest_eq_some_iff {entries : List Address} {given : Address → Option String} {name : String} :
    latest entries given = some name ↔
      ∃ entry, IsLast entries (fun e => given e ≠ none) entry ∧ given entry = some name := by
  rw [latest, List.findSome?_eq_some_iff]
  constructor
  · rintro ⟨later, entry, earlier, split, here, none⟩
    refine ⟨entry, ⟨earlier.reverse, later.reverse, ?_, by simp [here], ?_⟩, here⟩
    · rw [← List.reverse_reverse entries, split]
      simp
    · intro e member
      simpa using none e (List.mem_reverse.mp member)
  · rintro ⟨entry, ⟨earlier, later, rfl, _, none⟩, here⟩
    refine ⟨later.reverse, entry, earlier.reverse, by simp, here, ?_⟩
    intro e member
    simpa using none e (List.mem_reverse.mp member)

section
variable {entries : List Address} {P Q : Address → Prop} {entry : Address}

theorem IsLast.holds (last : IsLast entries P entry) : P entry := by
  obtain ⟨_, _, _, holds, _⟩ := last
  exact holds

theorem IsLast.mem (last : IsLast entries P entry) : entry ∈ entries := by
  obtain ⟨_, _, rfl, _⟩ := last
  exact List.mem_append_right _ (List.mem_cons_self ..)

theorem isLast_congr (same : ∀ e, P e ↔ Q e) : IsLast entries P entry ↔ IsLast entries Q entry := by
  simp only [IsLast, same]

theorem exists_isLast (member : entry ∈ entries) (holds : P entry) : ∃ last, IsLast entries P last := by
  induction entries using List.reverseRecOn with
  | nil => cases member
  | append_singleton entries final ih =>
    by_cases atEnd : P final
    · exact ⟨final, entries, [], rfl, atEnd, by simp⟩
    · rcases List.mem_append.mp member with before | here
      · obtain ⟨last, earlier, later, rfl, found, none⟩ := ih before
        refine ⟨last, earlier, later ++ [final], by simp, found, ?_⟩
        intro e behind
        rcases List.mem_append.mp behind with inner | outer
        · exact none e inner
        · rwa [List.mem_singleton.mp outer]
      · rw [List.mem_singleton.mp here] at holds
        exact absurd holds atEnd

end

/-- A line that stands for its address has the names of the last entries that give it some; any
    other line stays as it is. The induction is from the end of the entries, because the last pass
    is the one that writes last. -/
theorem getElem?_labelFrom (entries : List Address) {lines : List Line} {i : Nat} {l : Line}
    (here : lines[i]? = some l) :
    (Stands lines l.address i l → (labelFrom lines entries)[i]? = some { l with
      label := (latest entries (name? lines · l.address)).or l.label
      target := (latest entries (shown? lines · l)).or l.target }) ∧
    (¬ Stands lines l.address i l → (labelFrom lines entries)[i]? = some l) := by
  induction entries using List.reverseRecOn with
  | nil => exact ⟨fun _ => here, fun _ => here⟩
  | append_singleton entries entry ih =>
    have index := Index.ofLines_labelFrom lines entries
    rw [labelFrom_concat, latest_concat, latest_concat]
    constructor
    · intro stands
      have there := ih.1 stands
      have still := (position_iff there).mp (by rw [index]; exact (position_iff here).mpr stands)
      rw [(getElem?_label entry there).1 still]
      simp only [name?_labelFrom, shown?_labelFrom, Option.or_assoc]
    · intro hidden
      have there := ih.2 hidden
      refine (getElem?_label entry there).2 fun stands => hidden ?_
      rw [← position_iff here, ← index]
      exact (position_iff there).mpr stands

/-! ## Which name is left -/

/-- From an entry control reaches an instruction that leads to the address. -/
def Named (lines : List Line) (entry t : Address) : Prop := ∃ j m, Leads lines entry j m t

/-- From an entry control reaches a call of the address. -/
def Called (lines : List Line) (entry t : Address) : Prop :=
  ∃ j m, Leads lines entry j m t ∧ m.instruction.IsCall

section
variable {lines : List Line} {entries : List Address} {entry other t : Address}

theorem name?_ne_none : name? lines entry t ≠ none ↔ Named lines entry t := by
  constructor
  · intro named
    by_contra unled
    exact named (name?_eq_none unled)
  · intro led
    obtain ⟨name, named⟩ := isSome_name? led
    simp [named]

/-- Two entries give an address the same name if it is called from both of them or from none. -/
theorem name?_eq_iff (here : Named lines entry t) (there : Named lines other t) :
    name? lines entry t = name? lines other t ↔ (Called lines entry t ↔ Called lines other t) := by
  have apart : ("sub_" ++ Text.hex .upper 8 t.toNat : String) ≠ "loc_" ++ Text.hex .upper 8 t.toNat := by
    rw [ne_eq, String.append_left_inj]
    decide
  by_cases first : Called lines entry t
  · by_cases second : Called lines other t
    · simp [name?_call first, name?_call second, first, second]
    · simp [name?_call first, name?_jump there second, first, second, apart]
  · by_cases second : Called lines other t
    · simp [name?_jump here first, name?_call second, first, second, apart.symm]
    · simp [name?_jump here first, name?_jump there second, first, second]

theorem Leads.unique {i : Nat} {l : Line} {u : Address} (one : Leads lines entry i l t)
    (two : Leads lines other i l u) : t = u := by
  obtain ⟨_, first⟩ := one.target
  obtain ⟨_, second⟩ := two.target
  exact (Prod.mk.inj (Option.some.inj (first.symm.trans second))).1

/-- A line that leads somewhere shows something from exactly those entries from which it is
    reached. -/
theorem shown?_ne_none {i : Nat} {l : Line} (leads : Leads lines entry i l t) :
    shown? lines other l ≠ none ↔ Leads lines other i l t := by
  constructor
  · intro shown
    obtain ⟨name, value⟩ := Option.ne_none_iff_exists'.mp shown
    obtain ⟨u, there, _⟩ := leads_of_shown? leads.stands value
    rwa [leads.unique there]
  · intro there
    rw [shown?_of_leads there]
    exact name?_ne_none.mpr ⟨i, l, there⟩

/-- The target that a line is left with is the name from the last entry that reaches it. -/
theorem latest_shown? {i : Nat} {l : Line} (last : IsLast entries (Leads lines · i l t) entry) :
    latest entries (shown? lines · l) = name? lines entry t := by
  have leads := last.holds
  obtain ⟨name, named⟩ := isSome_name? ⟨i, l, leads⟩
  rw [named, latest_eq_some_iff]
  refine ⟨entry, (isLast_congr fun e => shown?_ne_none leads).mpr last, ?_⟩
  rw [shown?_of_leads leads, named]

/-- The label that a line is left with is the name from the last entry that names it. -/
theorem latest_name? (last : IsLast entries (Named lines · t) entry) :
    latest entries (name? lines · t) = name? lines entry t := by
  obtain ⟨name, value⟩ := isSome_name? last.holds
  rw [value, latest_eq_some_iff]
  exact ⟨entry, (isLast_congr fun e => name?_ne_none).mpr last, value⟩

/-- Lines without names have exactly the names that the last entries give them. -/
theorem labelFrom_of_unnamed (unnamed : ∀ l ∈ lines, l.label = none ∧ l.target = none) {i : Nat} {m : Line}
    (here : (labelFrom lines entries)[i]? = some m) :
    ∃ l, lines[i]? = some l ∧ m = { l with label := m.label, target := m.target } ∧
      (∀ name, m.label = some name ↔
        Stands lines l.address i l ∧ latest entries (name? lines · l.address) = some name) ∧
      ∀ name, m.target = some name ↔
        Stands lines l.address i l ∧ latest entries (shown? lines · l) = some name := by
  have inside : i < lines.length := by
    rw [← length_labelFrom lines entries]
    exact (List.getElem?_eq_some_iff.mp here).1
  have line : lines[i]? = some lines[i] := List.getElem?_eq_getElem inside
  obtain ⟨noLabel, noTarget⟩ := unnamed lines[i] (List.getElem_mem inside)
  obtain ⟨changed, kept⟩ := getElem?_labelFrom entries line
  refine ⟨lines[i], line, ?_⟩
  by_cases stands : Stands lines lines[i].address i lines[i]
  · obtain rfl := Option.some.inj (here.symm.trans (changed stands))
    refine ⟨rfl, ?_, ?_⟩
    · simp [noLabel, stands]
    · simp [noTarget, stands]
  · obtain rfl := Option.some.inj (here.symm.trans (kept stands))
    refine ⟨rfl, ?_, ?_⟩
    · simp [noLabel, stands]
    · simp [noTarget, stands]

/-- The line at a named address has the name from the last entry that names it. -/
theorem exists_label (unnamed : ∀ l ∈ lines, l.label = none ∧ l.target = none)
    (last : IsLast entries (Named lines · t) entry) :
    ∃ n ∈ labelFrom lines entries, n.data = false ∧ n.address = t ∧ n.label = name? lines entry t := by
  obtain ⟨_, _, leads⟩ := last.holds
  obtain ⟨j, destination, stands⟩ := leads.known
  obtain rfl := stands.place
  have there := (getElem?_labelFrom entries stands.here).1 stands
  refine ⟨_, List.mem_of_getElem? there, stands.code, rfl, ?_⟩
  rw [latest_name? last, (unnamed destination (List.mem_of_getElem? stands.here)).1, Option.or_none]

/-- A name that some line is left with is the name from the last entry that names its address. -/
theorem label_eq_name? (unnamed : ∀ l ∈ lines, l.label = none ∧ l.target = none) {n : Line} {name : String}
    (member : n ∈ labelFrom lines entries) (label : n.label = some name) (spelled : NamesAddress name t)
    (last : IsLast entries (Named lines · t) entry) : name? lines entry t = some name := by
  obtain ⟨j, there⟩ := List.mem_iff_getElem?.mp member
  obtain ⟨l, _, _, labels, _⟩ := labelFrom_of_unnamed unnamed there
  obtain ⟨_, found⟩ := (labels name).mp label
  obtain ⟨_, _, named⟩ := latest_eq_some_iff.mp found
  obtain rfl := spelled.unique (namesAddress_of_name? named)
  rw [← latest_name? last, found]

/-- A shown name comes from the last entry that reaches the instruction, and there is a last entry
    that names where it leads to. -/
theorem exists_last (unnamed : ∀ l ∈ lines, l.label = none ∧ l.target = none) {m : Line} {name : String}
    (member : m ∈ labelFrom lines entries) (target : m.target = some name) :
    ∃ i l t reaching naming, IsLast entries (Leads lines · i l t) reaching ∧
      IsLast entries (Named lines · t) naming ∧ name? lines reaching t = some name := by
  obtain ⟨i, here⟩ := List.mem_iff_getElem?.mp member
  obtain ⟨l, _, _, _, targets⟩ := labelFrom_of_unnamed unnamed here
  obtain ⟨stands, found⟩ := (targets name).mp target
  obtain ⟨reaching, last, shown⟩ := latest_eq_some_iff.mp found
  obtain ⟨t, leads, named⟩ := leads_of_shown? stands shown
  have reached := (isLast_congr fun e => shown?_ne_none leads).mp last
  obtain ⟨naming, lastNaming⟩ : ∃ naming, IsLast entries (Named lines · t) naming :=
    exists_isLast last.mem ⟨i, l, leads⟩
  exact ⟨i, l, t, reaching, naming, reached, lastNaming, named⟩

end
end Labelling

open Labelling in
/-- Labelling from several entries. Every shown name spells the address of an instruction line that
    has a name for this address. All shown names are the names of lines exactly if, for every
    instruction that leads to an address, the last entry that reaches the instruction and the last
    entry that names the address agree on whether the address is called. -/
theorem Decoder.names_defined_iff (d : Decoder) (image : List Byte) (origin : Address) (entries : List Address) :
    let lines := (d.listing image origin).lines
    let labelled := labelFrom lines entries
    (∀ m ∈ labelled, ∀ name, m.target = some name → ∃ t, NamesAddress name t ∧
      ∃ n ∈ labelled, n.data = false ∧ n.address = t ∧ ∃ own, n.label = some own ∧ NamesAddress own t) ∧
    ((∀ m ∈ labelled, ∀ name, m.target = some name → ∃ n ∈ labelled, n.label = some name) ↔
      ∀ i l t reaching naming, IsLast entries (Leads lines · i l t) reaching →
        IsLast entries (Named lines · t) naming → (Called lines reaching t ↔ Called lines naming t)) := by
  intro lines labelled
  have unnamed := d.unnamed_listing image origin
  refine ⟨?_, ?_, ?_⟩
  · intro m member name target
    obtain ⟨_, _, t, reaching, naming, _, last, named⟩ := exists_last unnamed member target
    obtain ⟨n, there, code, place, label⟩ := exists_label unnamed last
    obtain ⟨own, value⟩ := isSome_name? last.holds
    exact ⟨t, namesAddress_of_name? named, n, there, code, place, own, label.trans value,
      namesAddress_of_name? value⟩
  · intro defined i l t reaching naming lastReaching lastNaming
    have leads := lastReaching.holds
    obtain ⟨name, named⟩ := isSome_name? ⟨i, l, leads⟩
    have here := (getElem?_labelFrom entries leads.stands.here).1 leads.stands
    obtain ⟨n, there, label⟩ := defined _ (List.mem_of_getElem? here) name
      (by simp [latest_shown? lastReaching, named])
    have own := label_eq_name? unnamed there label (namesAddress_of_name? named) lastNaming
    exact (name?_eq_iff ⟨i, l, leads⟩ lastNaming.holds).mp (named.trans own.symm)
  · intro agree m member name target
    obtain ⟨i, l, t, reaching, naming, lastReaching, lastNaming, named⟩ := exists_last unnamed member target
    obtain ⟨n, there, _, _, label⟩ := exists_label unnamed lastNaming
    have same := agree i l t reaching naming lastReaching lastNaming
    have known : Named lines reaching t := ⟨i, l, lastReaching.holds⟩
    refine ⟨n, there, ?_⟩
    rw [label, ← (name?_eq_iff known lastNaming.holds).mpr same, named]

/-- A branch at 0 and a call at 2 lead to the return at 6. Labelled from 0 and then from 2, the
    branch shows a name that no line has any more. -/
theorem Decoder.later_entry_renames : ¬ ∀ (d : Decoder) (image : List Byte) (origin : Address)
    (entries : List Address), ∀ m ∈ Labelling.labelFrom (d.listing image origin).lines entries,
      ∀ name, m.target = some name →
        ∃ n ∈ Labelling.labelFrom (d.listing image origin).lines entries, n.label = some name := by
  intro defined
  let image : List Byte := [0x60, 0x04, 0x61, 0x02, 0x4E, 0x75, 0x4E, 0x75]
  let labelled := Labelling.labelFrom (({} : Decoder).listing image 0).lines [0, 2]
  obtain ⟨m, here, shows⟩ := Option.map_eq_some_iff.mp
    (by decide +kernel : labelled[0]?.map (·.target) = some (some "loc_00000006"))
  obtain ⟨n, there, label⟩ := defined {} image 0 [0, 2] m (List.mem_of_getElem? here) _ shows
  have gone : ∀ n ∈ labelled, n.label ≠ some "loc_00000006" := by decide +kernel
  exact gone n there label

end M68k
