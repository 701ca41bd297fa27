import Mathlib
import M68k.Proofs.Reachability

/-!
The names that labelling gives. A line is named if an instruction that control reaches leads
to its address: `sub_` if one of these is a call, `loc_` if all of them jump, whichever is
visited first. The instructions that lead there show the name, and nothing else changes.
-/
namespace M68k.Labelling

/-- The instruction line at a position is reached and leads to an address that has a line. -/
structure Leads (lines : List Line) (entry : Address) (i : Nat) (l : Line) (t : Address) : Prop where
  stands : Stands lines l.address i l
  reached : Reached lines entry l.address
  target : ∃ arrival, l.instruction.target? = some (t, arrival)
  known : ∃ j destination, Stands lines t j destination

/-! ## Arrivals -/

theorem arrivals_concat (targets : List (Address × Arrival)) (t : Address) (arrival : Arrival) :
    arrivals (targets ++ [(t, arrival)]) =
      if arrival = .call then (arrivals targets).insert t .call
      else (arrivals targets).insertIfNew t .jump := by
  rw [arrivals, List.foldl_append, List.foldl_cons, List.foldl_nil, ← arrivals]
  cases arrival <;> rfl

/-- A call outweighs the jumps to its target, wherever it stands among them. -/
theorem getElem?_arrivals (targets : List (Address × Arrival)) (t : Address) :
    (arrivals targets)[t]? =
      if (t, .call) ∈ targets then some .call
      else if (t, .jump) ∈ targets then some .jump else none := by
  induction targets using List.reverseRecOn with
  | nil => simp [arrivals]
  | append_singleton targets last ih =>
    obtain ⟨other, arrival⟩ := last
    rw [arrivals_concat]
    by_cases same : other = t
    · subst same
      cases arrival with
      | call => simp
      | jump =>
        simp only [reduceCtorEq, if_false, Std.TreeMap.getElem?_insertIfNew,
          Std.TreeMap.mem_iff_isSome_getElem?, ih]
        by_cases call : (other, Arrival.call) ∈ targets
        · simp [call]
        · by_cases jump : (other, Arrival.jump) ∈ targets
          · simp [call, jump]
          · simp [call, jump]
    · have others : ∀ way, (t, way) ∈ targets ++ [(other, arrival)] ↔ (t, way) ∈ targets := by
        simp [Ne.symm same]
      simp only [others]
      rw [← ih]
      cases arrival with
      | call => simp [Std.TreeMap.getElem?_insert, same]
      | jump => simp [Std.TreeMap.getElem?_insertIfNew, same]

section
variable {lines : List Line} {entry : Address}

/-- The targets met on the way are those that reached lines lead to. -/
theorem mem_targets {t : Address} {arrival : Arrival} :
    (t, arrival) ∈ targets (Index.ofLines lines) (visited (Index.ofLines lines) entry) ↔
      ∃ i l, Leads lines entry i l t ∧ l.instruction.target? = some (t, arrival) := by
  simp only [targets, List.mem_filterMap, mem_visited, Option.bind_eq_some_iff, Prod.exists,
    Index.getElem?_ofLines, Index.target?_eq_some, Index.mem_ofLines]
  constructor
  · rintro ⟨a, reached, i, x, ⟨l, stands, rfl⟩, target, known⟩
    obtain rfl := stands.place
    exact ⟨i, l, ⟨stands, reached, ⟨arrival, target⟩, known⟩, target⟩
  · rintro ⟨i, l, leads, target⟩
    exact ⟨l.address, leads.reached, i, l.instruction, ⟨l, leads.stands, rfl⟩, target, leads.known⟩

theorem mem_targets_call {t : Address} :
    (t, .call) ∈ targets (Index.ofLines lines) (visited (Index.ofLines lines) entry) ↔
      ∃ i l, Leads lines entry i l t ∧ l.instruction.IsCall := by
  rw [mem_targets]
  constructor
  · rintro ⟨i, l, leads, target⟩
    exact ⟨i, l, leads, (Instruction.call_iff target).mp rfl⟩
  · rintro ⟨i, l, leads, call⟩
    obtain ⟨arrival, target⟩ := leads.target
    obtain rfl := (Instruction.call_iff target).mpr call
    exact ⟨i, l, leads, target⟩

/-- The name that an address is given, if one is. -/
def name? (lines : List Line) (entry t : Address) : Option String :=
  let index := Index.ofLines lines
  ((arrivals (targets index (visited index entry)))[t]?).map (nameOf t)

theorem name?_call {t : Address} (called : ∃ i l, Leads lines entry i l t ∧ l.instruction.IsCall) :
    name? lines entry t = some ("sub_" ++ Text.hex .upper 8 t.toNat) := by
  simp only [name?, getElem?_arrivals, mem_targets_call, called, if_true]
  rfl

theorem name?_jump {t : Address} (led : ∃ i l, Leads lines entry i l t)
    (jumped : ¬ ∃ i l, Leads lines entry i l t ∧ l.instruction.IsCall) :
    name? lines entry t = some ("loc_" ++ Text.hex .upper 8 t.toNat) := by
  obtain ⟨i, l, leads⟩ := led
  obtain ⟨arrival, target⟩ := leads.target
  have jump : (t, .jump) ∈ targets (Index.ofLines lines) (visited (Index.ofLines lines) entry) := by
    cases arrival with
    | jump => exact mem_targets.mpr ⟨i, l, leads, target⟩
    | call => exact absurd ⟨i, l, leads, (Instruction.call_iff target).mp rfl⟩ jumped
  simp only [name?, getElem?_arrivals, mem_targets_call, jumped, jump, if_true, if_false]
  rfl

theorem name?_eq_none {t : Address} (unled : ¬ ∃ i l, Leads lines entry i l t) :
    name? lines entry t = none := by
  have absent : ∀ arrival,
      (t, arrival) ∉ targets (Index.ofLines lines) (visited (Index.ofLines lines) entry) := by
    intro arrival member
    obtain ⟨i, l, leads, _⟩ := mem_targets.mp member
    exact unled ⟨i, l, leads⟩
  simp [name?, getElem?_arrivals, absent]

theorem isSome_name? {t : Address} (led : ∃ i l, Leads lines entry i l t) :
    ∃ name, name? lines entry t = some name := by
  by_cases called : ∃ i l, Leads lines entry i l t ∧ l.instruction.IsCall
  · exact ⟨_, name?_call called⟩
  · exact ⟨_, name?_jump led called⟩

/-! ## Lines -/

theorem position_iff {i : Nat} {l : Line} (here : lines[i]? = some l) :
    ((Index.ofLines lines)[l.address]?).map (·.1) = some i ↔ Stands lines l.address i l := by
  constructor
  · intro indexed
    obtain ⟨⟨_, x⟩, found, rfl⟩ := Option.map_eq_some_iff.mp indexed
    obtain ⟨m, stands, _⟩ := Index.getElem?_ofLines.mp found
    obtain rfl := Option.some.inj (here.symm.trans stands.here)
    exact stands
  · intro stands
    rw [Index.getElem?_ofLines.mpr ⟨l, stands, rfl⟩]
    rfl

/-- The name that a line shows for the place it leads to. -/
def shown? (lines : List Line) (entry : Address) (l : Line) : Option String :=
  let index := Index.ofLines lines
  if (Std.TreeSet.ofList (visited index entry)).contains l.address then
    (index.target? l.instruction).bind fun (t, _) => name? lines entry t
  else none

theorem shown?_of_leads {i : Nat} {l : Line} {t : Address} (leads : Leads lines entry i l t) :
    shown? lines entry l = name? lines entry t := by
  obtain ⟨arrival, target⟩ := leads.target
  have known : (Index.ofLines lines).target? l.instruction = some (t, arrival) :=
    Index.target?_eq_some.mpr ⟨target, Index.mem_ofLines.mpr leads.known⟩
  simp [shown?, Std.TreeSet.contains_ofList, mem_visited.mpr leads.reached, known]

theorem shown?_eq_none {i : Nat} {l : Line} (stands : Stands lines l.address i l)
    (unled : ¬ ∃ t, Leads lines entry i l t) : shown? lines entry l = none := by
  simp only [shown?]
  split
  · rename_i visited
    rw [Std.TreeSet.contains_ofList, List.contains_iff_mem, mem_visited] at visited
    cases target : (Index.ofLines lines).target? l.instruction with
    | none => rfl
    | some found =>
      obtain ⟨t, arrival⟩ := found
      obtain ⟨leads, known⟩ := Index.target?_eq_some.mp target
      exact absurd ⟨t, stands, visited, ⟨arrival, leads⟩, Index.mem_ofLines.mp known⟩ unled
  · rfl

/-- A line that stands for its address takes the names it is given; any other line stays as
    it is. -/
theorem getElem?_label (entry : Address) {i : Nat} {l : Line} (here : lines[i]? = some l) :
    (Stands lines l.address i l → (label lines entry)[i]? = some { l with
      label := (name? lines entry l.address).or l.label
      target := (shown? lines entry l).or l.target }) ∧
    (¬ Stands lines l.address i l → (label lines entry)[i]? = some l) := by
  have place : lines.zipIdx[i]? = some (l, i) := by
    simp [List.getElem?_zipIdx, here]
  have step := position_iff here
  constructor
  · intro stands
    simp only [label, List.getElem?_map, place, Option.map_some, step.mpr stands, if_true]
    rfl
  · intro hidden
    have other : ((Index.ofLines lines)[l.address]?).map (·.1) ≠ some i := fun same =>
      hidden (step.mp same)
    simp only [label, List.getElem?_map, place, Option.map_some, other, if_false]

/-- Labelling follows control exactly. The last instruction line at an address that a reached
    instruction leads to is named, `sub_` if one of these is a call and else `loc_`; a reached
    instruction that leads to a line shows that line's name; all other names and all that is
    not a name stay as they were. -/
theorem label_follows_control (lines : List Line) (entry : Address) :
    (label lines entry).length = lines.length ∧
    ∀ i l, lines[i]? = some l → ∃ named, (label lines entry)[i]? = some named ∧
      named = { l with label := named.label, target := named.target } ∧
      (∀ t, Stands lines t i l → (∃ j m, Leads lines entry j m t ∧ m.instruction.IsCall) →
        named.label = some ("sub_" ++ Text.hex .upper 8 t.toNat)) ∧
      (∀ t, Stands lines t i l → (∃ j m, Leads lines entry j m t) →
        (¬ ∃ j m, Leads lines entry j m t ∧ m.instruction.IsCall) →
          named.label = some ("loc_" ++ Text.hex .upper 8 t.toNat)) ∧
      ((¬ ∃ t, Stands lines t i l ∧ ∃ j m, Leads lines entry j m t) → named.label = l.label) ∧
      (∀ t j m, Leads lines entry i l t → Stands lines t j m →
        ∃ destination, (label lines entry)[j]? = some destination ∧
          named.target = destination.label) ∧
      ((¬ ∃ t, Leads lines entry i l t) → named.target = l.target) := by
  refine ⟨by simp [label], ?_⟩
  intro i l here
  obtain ⟨changed, kept⟩ := getElem?_label entry here
  by_cases stands : Stands lines l.address i l
  · refine ⟨_, changed stands, rfl, ?_, ?_, ?_, ?_, ?_⟩
    · rintro t ⟨_, _, rfl, _⟩ called
      simp [name?_call called]
    · rintro t ⟨_, _, rfl, _⟩ led jumped
      simp [name?_jump led jumped]
    · intro unnamed
      have unled : ¬ ∃ j m, Leads lines entry j m l.address := fun led =>
        unnamed ⟨l.address, stands, led⟩
      simp [name?_eq_none unled]
    · intro t j m leads destination
      obtain ⟨name, named⟩ := isSome_name? ⟨i, l, leads⟩
      obtain rfl := destination.place
      refine ⟨_, (getElem?_label entry destination.here).1 destination, ?_⟩
      simp [shown?_of_leads leads, named]
    · intro unled
      simp [shown?_eq_none stands unled]
  · refine ⟨l, kept stands, rfl, ?_, ?_, fun _ => rfl, ?_, fun _ => rfl⟩
    · rintro t other
      obtain rfl := other.place
      exact absurd other stands
    · rintro t other
      obtain rfl := other.place
      exact absurd other stands
    · intro t j m leads
      exact absurd leads.stands stands

end

/-- A call at 0 and a jump at 4 both lead to the odd address 5, which two lines have: the last
    of them is named as a subroutine, and the call shows that name. -/
theorem label_follows_control_odd :
    let call : Instruction := { form := some .jsr, operands := "$00000005", size := 4 }
    let jump : Instruction := { form := some .jmp, operands := "$00000005", size := 4 }
    let lines : List Line :=
      [{ address := 0, instruction := call }, { address := 5 }, { address := 4, instruction := jump },
        { address := 5 }]
    ∃ first last, (label lines 1)[0]? = some first ∧ (label lines 1)[3]? = some last ∧
      last.label = some "sub_00000005" ∧ first.target = last.label := by
  intro call jump lines
  obtain ⟨caller, stands, same⟩ := Index.getElem?_ofLines.mp
    (by decide +kernel : (Index.ofLines lines)[(0 : Address)]? = some (0, call))
  obtain ⟨callee, known, _⟩ := Index.getElem?_ofLines.mp
    (by decide +kernel : (Index.ofLines lines)[(5 : Address)]? = some (3, {}))
  have target : call.target? = some (5, .call) := by decide +kernel
  have leads : Leads lines 1 0 caller 5 := by
    refine ⟨?_, ?_, ⟨.call, by rw [same, target]⟩, 3, callee, known⟩
    · rw [stands.place]
      exact stands
    · rw [stands.place]
      exact .start
  obtain ⟨_, each⟩ := label_follows_control lines 1
  obtain ⟨first, changed, _, _, _, _, shows, _⟩ := each 0 caller stands.here
  obtain ⟨last, renamed, _, called, _⟩ := each 3 callee known.here
  obtain ⟨destination, found, shown⟩ := shows 5 3 callee leads known
  obtain rfl := Option.some.inj (renamed.symm.trans found)
  refine ⟨first, last, changed, renamed, ?_, shown⟩
  rw [called 5 known ⟨0, caller, leads, by rw [same]; exact .inl rfl⟩]
  decide

end M68k.Labelling
