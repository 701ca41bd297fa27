import Mathlib
import M68k.Proofs.Renaming

/-!
Labelling and the parity of the origin. The lines of an image lie at addresses of one parity, that
of its origin, while control is followed on word boundaries only. At an even origin the two agree,
across the end of the address space as well: from the origin control runs down the instructions
until one of them does not go on, and each of them shows the name of the line it leads to. At an
odd origin nothing is ever reached and labelling names nothing.
-/
namespace M68k

namespace Address

/-- Clearing bit 0 goes down to an even address. -/
theorem toNat_and (a : Address) : (a &&& ~~~1).toNat = a.toNat - a.toNat % 2 := by
  have small := a.toNat_lt
  have fits : a.toNat - a.toNat % 2 < 2 ^ 32 := by omega
  rw [← aligned_eq_and, aligned, UInt32.toNat_ofNat_of_lt' fits]

theorem and_eq_self {a : Address} (even : a.toNat % 2 = 0) : a &&& ~~~1 = a := by
  apply UInt32.toNat_inj.mp
  rw [toNat_and, even, Nat.sub_zero]

end Address

/-! ## Places of lines -/

namespace Tiling

variable {a : Address} {image : List Byte} {lines : List Line} {i j : Nat} {l : Line}

theorem bytesBefore_succ (here : lines[i]? = some l) :
    bytesBefore lines (i + 1) = bytesBefore lines i + l.bytes.length := by
  simp [bytesBefore, List.take_add_one, here]

theorem bytesBefore_length (tiled : Tiling a image lines) : bytesBefore lines lines.length = image.length := by
  rw [bytesBefore, List.take_length, ← tiled.flatMap_bytes, List.length_flatMap]

theorem bytesBefore_lt (tiled : Tiling a image lines) (before : i < j) (inside : j ≤ lines.length) :
    bytesBefore lines i < bytesBefore lines j := by
  induction j with
  | zero => omega
  | succ j ih =>
    have here : lines[j]? = some lines[j] := List.getElem?_eq_getElem (by omega)
    have some := List.length_pos_iff.mpr (tiled.bytes_ne_nil lines[j] (List.getElem_mem _))
    rw [bytesBefore_succ here]
    rcases Nat.lt_succ_iff_lt_or_eq.mp before with earlier | rfl
    · have smaller := ih earlier (by omega)
      omega
    · omega

theorem placed_at (tiled : Tiling a image lines) (here : lines[i]? = some l) : Placed a lines i l := by
  obtain ⟨inside, rfl⟩ := List.getElem?_eq_some_iff.mp here
  exact tiled.placed i inside

/-- No two lines have an address in common, unless the image is larger than the address space. -/
theorem address_inj (tiled : Tiling a image lines) (fits : image.length ≤ 2 ^ 32) {m : Line}
    (here : lines[i]? = some l) (there : lines[j]? = some m) (same : l.address = m.address) : i = j := by
  have bound : ∀ {k : Nat} {n : Line}, lines[k]? = some n → bytesBefore lines k < 2 ^ 32 := by
    intro k n found
    have inside := (List.getElem?_eq_some_iff.mp found).1
    have less := tiled.bytesBefore_lt inside (Nat.le_refl _)
    rw [tiled.bytesBefore_length] at less
    omega
  have first := bound here
  have second := bound there
  rw [(tiled.placed_at here).address, (tiled.placed_at there).address] at same
  have offsets := congrArg UInt32.toNat same
  rw [Address.toNat_advance, Address.toNat_advance] at offsets
  rcases Nat.lt_trichotomy i j with before | equal | behind
  · have less := tiled.bytesBefore_lt before (Nat.le_of_lt (List.getElem?_eq_some_iff.mp there).1)
    omega
  · exact equal
  · have less := tiled.bytesBefore_lt behind (Nat.le_of_lt (List.getElem?_eq_some_iff.mp here).1)
    omega

theorem stands (tiled : Tiling a image lines) (fits : image.length ≤ 2 ^ 32) (here : lines[i]? = some l)
    (code : l.data = false) : Labelling.Stands lines l.address i l := by
  refine ⟨here, code, rfl, ?_⟩
  intro j later behind there _ same
  have equal := tiled.address_inj fits there here same
  omega

/-- All lines lie on the same side of word boundaries. -/
theorem parity (tiled : Tiling a image lines) (here : lines[i]? = some l) :
    l.address.toNat % 2 = a.toNat % 2 := by
  have placed := tiled.placed_at here
  have even := Nat.even_iff.mp placed.even
  rw [placed.address, Address.toNat_advance]
  omega

/-- A line begins where the instruction before it ends. -/
theorem address_succ (tiled : Tiling a image lines) (here : lines[i]? = some l) (code : l.data = false)
    {next : Line} (behind : lines[i + 1]? = some next) : next.address = l.address + l.instruction.size := by
  obtain ⟨_, _, _, size⟩ := tiled.instruction_of_code l (List.mem_of_getElem? here) code
  rw [(tiled.placed_at behind).address, (tiled.placed_at here).address, bytesBefore_succ here,
    ← Address.advance_advance, size, Address.advance, UInt32.ofNat_toNat]

end Tiling

/-! ## Following control from the origin -/

namespace Labelling

theorem Reached.even {lines : List Line} {entry a : Address} (reached : Reached lines entry a) :
    a.toNat % 2 = 0 := by
  have lowered (b : Address) : (b &&& ~~~1).toNat % 2 = 0 := by
    rw [Address.toNat_and]
    omega
  cases reached with
  | start => exact lowered _
  | next _ _ _ => exact lowered _
  | target _ _ _ _ => exact lowered _

/-- The lines up to a position are instructions, and control goes on behind each of them but the
    last. -/
structure Straight (lines : List Line) (k : Nat) : Prop where
  code : ∀ i ≤ k, ∃ l, lines[i]? = some l ∧ l.data = false
  goesOn : ∀ i < k, ∀ l, lines[i]? = some l → ¬ l.instruction.IsTerminal

/-- Whether lines are straight can be checked line by line. -/
theorem straight_of_checks {lines : List Line} {k : Nat}
    (code : ∀ i ≤ k, lines[i]?.map (·.data) = some false)
    (goesOn : ∀ i < k, lines[i]?.map (·.instruction.endsFlow) = some false) : Straight lines k := by
  refine ⟨?_, ?_⟩
  · intro i bound
    exact Option.map_eq_some_iff.mp (code i bound)
  · intro i bound l here terminal
    have checked := goesOn i bound
    rw [here, Option.map_some, l.instruction.endsFlow_iff.mpr terminal] at checked
    cases checked

section
variable {origin : Address} {image : List Byte} {lines : List Line}

/-- From an even origin control runs down the lines, step by step, also past the end of the address
    space. -/
theorem Straight.reached {k : Nat} (straight : Straight lines k) (tiled : Tiling origin image lines)
    (fits : image.length ≤ 2 ^ 32) (even : origin.toNat % 2 = 0) :
    ∀ i ≤ k, ∀ l, lines[i]? = some l → Reached lines origin l.address := by
  intro i
  induction i with
  | zero =>
    intro _ l here
    have place : l.address = origin := by simpa using (tiled.placed_at here).address
    rw [place]
    have first : Reached lines origin (origin &&& ~~~1) := .start
    rwa [Address.and_eq_self even] at first
  | succ i ih =>
    intro bound next behind
    obtain ⟨l, here, code⟩ := straight.code i (by omega)
    have reached := (ih (by omega) l here).next (tiled.stands fits here code) (straight.goesOn i (by omega) l here)
    have parity := (tiled.parity behind).trans even
    rwa [← tiled.address_succ here code behind, Address.and_eq_self parity] at reached

/-- No line at an odd address is ever reached. -/
theorem not_leads_of_odd (tiled : Tiling origin image lines) (odd : origin.toNat % 2 = 1) (entry : Address)
    (i : Nat) (l : Line) (t : Address) : ¬ Leads lines entry i l t := by
  intro leads
  have even := leads.reached.even
  have parity := tiled.parity leads.stands.here
  omega

theorem label_eq_self_of_odd (tiled : Tiling origin image lines) (odd : origin.toNat % 2 = 1) (entry : Address) :
    label lines entry = lines := by
  have unled := not_leads_of_odd tiled odd entry
  apply List.ext_getElem?
  intro i
  cases here : lines[i]? with
  | none =>
    rw [List.getElem?_eq_none_iff] at here ⊢
    simpa [label] using here
  | some l =>
    obtain ⟨changed, kept⟩ := getElem?_label entry here
    by_cases stands : Stands lines l.address i l
    · have nameless : name? lines entry l.address = none := by
        apply name?_eq_none
        rintro ⟨j, m, leads⟩
        exact unled j m l.address leads
      have blank : shown? lines entry l = none := by
        apply shown?_eq_none stands
        rintro ⟨t, leads⟩
        exact unled i l t leads
      rw [changed stands, nameless, blank]
      rfl
    · exact kept stands

end
end Labelling

open Labelling in
/-- Labelling from the origin works at even origins and only there. Where control runs down the
    instructions from the origin to one that leads to the line of another, this one shows a name
    and that name is the other's, wherever the image lies around the end of the address space, if
    and only if the origin is a word boundary; elsewhere labelling changes nothing. -/
theorem Decoder.origin_labels_iff_even (d : Decoder) (image : List Byte) (origin : Address)
    (fits : image.length ≤ 2 ^ 32) {k j : Nat} {l destination : Line} {t : Address} {arrival : Arrival}
    (straight : Straight (d.listing image origin).lines k)
    (here : (d.listing image origin).lines[k]? = some l)
    (leads : l.instruction.target? = some (t, arrival))
    (there : (d.listing image origin).lines[j]? = some destination) (code : destination.data = false)
    (place : destination.address = t) :
    let labelled := label (d.listing image origin).lines origin
    (∃ branch named, labelled[k]? = some branch ∧ labelled[j]? = some named ∧
      ((∃ name, name ≠ "" ∧ branch.target = some name ∧ named.label = some name) ↔
        origin.toNat % 2 = 0)) ∧
    (origin.toNat % 2 = 1 → labelled = (d.listing image origin).lines) := by
  intro labelled
  have tiled : Tiling origin image (d.listing image origin).lines := d.tiling_steps image origin
  refine ⟨?_, fun odd => label_eq_self_of_odd tiled odd origin⟩
  rcases Nat.mod_two_eq_zero_or_one origin.toNat with even | odd
  · obtain ⟨_, same, branchCode⟩ := straight.code k (Nat.le_refl k)
    obtain rfl := Option.some.inj (same.symm.trans here)
    have stands := tiled.stands fits there code
    have led : Leads (d.listing image origin).lines origin k _ t :=
      ⟨tiled.stands fits here branchCode, straight.reached tiled fits even k (Nat.le_refl k) _ here,
        ⟨arrival, leads⟩, j, destination, place ▸ stands⟩
    obtain ⟨name, named⟩ := isSome_name? ⟨k, _, led⟩
    refine ⟨_, _, (getElem?_label origin here).1 led.stands, (getElem?_label origin there).1 stands,
      fun _ => even, fun _ => ⟨name, ?_, ?_, ?_⟩⟩
    · rintro rfl
      exact absurd (namesAddress_of_name? named).underscore_mem (by simp)
    · simp [shown?_of_leads led, named]
    · simp [place, named]
  · have kept : labelled = (d.listing image origin).lines := label_eq_self_of_odd tiled odd origin
    have blank := (d.unnamed_listing image origin l (List.mem_of_getElem? here)).2
    refine ⟨l, destination, kept ▸ here, kept ▸ there, ?_, ?_⟩
    · rintro ⟨name, _, shown, _⟩
      rw [blank] at shown
      cases shown
    · omega

/-- Across the end of the address space: a word that does nothing lies at its last place, and a
    branch at 0 leads back to it. -/
theorem Decoder.origin_labels_iff_even_wrapping :
    let labelled := Labelling.label (({} : Decoder).listing [0x4E, 0x71, 0x60, 0xFC] 0xFFFFFFFE).lines 0xFFFFFFFE
    ∃ branch named name, labelled[1]? = some branch ∧ labelled[0]? = some named ∧
      branch.target = some name ∧ named.label = some name := by
  intro labelled
  let lines := (({} : Decoder).listing [0x4E, 0x71, 0x60, 0xFC] 0xFFFFFFFE).lines
  obtain ⟨l, here, leads⟩ := Option.map_eq_some_iff.mp (by decide +kernel :
    lines[1]?.map (·.instruction.target?) = some (some (0xFFFFFFFE, .jump)))
  obtain ⟨destination, there, found⟩ := Option.map_eq_some_iff.mp (by decide +kernel :
    lines[0]?.map (fun l => (l.data, l.address)) = some (false, 0xFFFFFFFE))
  obtain ⟨code, place⟩ := Prod.mk.inj found
  have straight : Labelling.Straight lines 1 :=
    Labelling.straight_of_checks (by decide +kernel) (by decide +kernel)
  obtain ⟨⟨branch, named, first, second, works⟩, _⟩ := Decoder.origin_labels_iff_even {} [0x4E, 0x71, 0x60, 0xFC]
    0xFFFFFFFE (by decide) straight here leads there code place
  obtain ⟨name, _, shown, label⟩ := works.mpr (by decide)
  exact ⟨branch, named, name, first, second, shown, label⟩

open Labelling in
/-- At the odd address 1 not even a branch to itself gets a name. -/
theorem Decoder.odd_origin_unlabelled : ¬ ∀ (d : Decoder) (image : List Byte) (origin : Address) (k j : Nat)
    (l destination : Line) (t : Address) (arrival : Arrival), image.length ≤ 2 ^ 32 →
      Straight (d.listing image origin).lines k → (d.listing image origin).lines[k]? = some l →
      l.instruction.target? = some (t, arrival) → (d.listing image origin).lines[j]? = some destination →
      destination.data = false → destination.address = t →
      ∃ branch named name, (label (d.listing image origin).lines origin)[k]? = some branch ∧
        (label (d.listing image origin).lines origin)[j]? = some named ∧ name ≠ "" ∧
        branch.target = some name ∧ named.label = some name := by
  intro works
  let lines := (({} : Decoder).listing [0x60, 0xFE] 1).lines
  obtain ⟨l, here, found⟩ := Option.map_eq_some_iff.mp (by decide +kernel :
    lines[0]?.map (fun l => (l.data, l.address, l.instruction.target?)) = some (false, 1, some (1, .jump)))
  obtain ⟨code, found⟩ := Prod.mk.inj found
  obtain ⟨place, leads⟩ := Prod.mk.inj found
  have straight : Straight lines 0 := straight_of_checks (by decide +kernel) (by decide +kernel)
  obtain ⟨branch, _, _, first, _, _, shown, _⟩ :=
    works {} [0x60, 0xFE] 1 0 0 l l 1 .jump (by decide) straight here leads here code place
  have blank : (label lines 1)[0]?.map (·.target) = some none := by decide +kernel
  rw [first, Option.map_some, shown] at blank
  cases blank

end M68k
