import Mathlib
import M68k.Labelling

/-!
Where control gets to. Lines of any kind are allowed: addresses may repeat, wrap around or
be odd. The last instruction line with an address stands for it (`Stands`), and from an entry
control reaches the least set of word boundaries that is closed under going on and under
known targets (`Reached`). Visiting addresses with a worklist finds exactly that set
(`mem_visited`): everything visited is reached, and what was visited is closed, because a
successor is either seen before or still pending.
-/
namespace M68k

/-- Going to the word boundary clears bit 0. -/
theorem Address.aligned_eq_and (a : Address) : a.aligned = a &&& ~~~1 := by
  have small := a.toNat_lt
  have even : a.toNat - a.toNat % 2 = 2 * (a.toNat / 2) := by omega
  have fits : 2 * (a.toNat / 2) < 2 ^ 32 := by omega
  have mask : (~~~(1 : UInt32)).toNat = 2 * (2 ^ 31 - 1) := rfl
  apply UInt32.toNat_inj.mp
  rw [aligned, even, UInt32.toNat_ofNat_of_lt' fits, UInt32.toNat_and, mask]
  apply Nat.eq_of_testBit_eq
  intro i
  rw [Nat.testBit_and]
  cases i with
  | zero => simp
  | succ i =>
    simp only [Nat.testBit_succ, Nat.mul_div_right _ (by decide : 0 < 2),
      Nat.testBit_two_pow_sub_one]
    by_cases low : i < 31
    · simp [low]
    · have bound : a.toNat / 2 < 2 ^ i :=
        Nat.lt_of_lt_of_le (by omega : a.toNat / 2 < 2 ^ 31)
          (Nat.pow_le_pow_right (by decide) (Nat.le_of_not_lt low))
      simp [Nat.testBit_lt_two_pow bound]

namespace Instruction

/-- Control does not go on behind a jump, a return, or a branch that is always taken. -/
def IsTerminal (x : Instruction) : Prop :=
  x.form ∈ [some .jmp, some .rts, some .rte, some .rtr] ∨
    x.form = some .branch ∧ Condition.ofField x.op = .always

/-- A call: the far one, and the branch on the condition that never holds. -/
def IsCall (x : Instruction) : Prop :=
  x.form = some .jsr ∨ x.form = some .branch ∧ Condition.ofField x.op = .never

theorem endsFlow_iff (x : Instruction) : x.endsFlow = true ↔ x.IsTerminal := by
  unfold endsFlow IsTerminal
  split <;> simp_all

theorem call_iff {x : Instruction} {t : Address} {arrival : Arrival}
    (leads : x.target? = some (t, arrival)) : arrival = .call ↔ x.IsCall := by
  obtain ⟨way, known, shown⟩ := Option.bind_eq_some_iff.mp leads
  obtain ⟨_, _, same⟩ := Option.map_eq_some_iff.mp shown
  obtain ⟨_, rfl⟩ := Prod.mk.inj same
  unfold arrival? at known
  unfold IsCall
  split at known
  · rename_i form
    obtain rfl := Option.some.inj known
    by_cases never : Condition.ofField x.op = .never
    · simp [form, never]
    · simp [form, never]
  all_goals simp_all [eq_comm]

end Instruction

namespace Labelling

/-- The line at a position stands for an address: it is the last instruction line that has
    the address. -/
structure Stands (lines : List Line) (a : Address) (i : Nat) (l : Line) : Prop where
  here : lines[i]? = some l
  code : l.data = false
  place : l.address = a
  last : ∀ j later, i < j → lines[j]? = some later → later.data = false → later.address ≠ a

/-- The addresses that control reaches from an entry. -/
inductive Reached (lines : List Line) (entry : Address) : Address → Prop
  | start : Reached lines entry (entry &&& ~~~1)
  | next {a : Address} {i : Nat} {l : Line} (reached : Reached lines entry a)
      (stands : Stands lines a i l) (goesOn : ¬ l.instruction.IsTerminal) :
      Reached lines entry ((a + l.instruction.size) &&& ~~~1)
  | target {a t : Address} {i j : Nat} {l destination : Line} {arrival : Arrival}
      (reached : Reached lines entry a) (stands : Stands lines a i l)
      (leads : l.instruction.target? = some (t, arrival))
      (known : Stands lines t j destination) : Reached lines entry (t &&& ~~~1)

/-! ## The index -/

theorem Stands.unique {lines : List Line} {a : Address} {i j : Nat} {l m : Line}
    (first : Stands lines a i l) (second : Stands lines a j m) : i = j ∧ l = m := by
  rcases Nat.lt_trichotomy i j with before | same | behind
  · exact absurd second.place (first.last j m before second.here second.code)
  · subst same
    exact ⟨rfl, Option.some.inj (first.here.symm.trans second.here)⟩
  · exact absurd first.place (second.last i l behind first.here first.code)

theorem stands_concat {lines : List Line} {a : Address} {i : Nat} {l added : Line} :
    Stands (lines ++ [added]) a i l ↔
      if added.data = false ∧ added.address = a then i = lines.length ∧ l = added
      else Stands lines a i l := by
  have inside : ∀ {j : Nat} {m : Line}, lines[j]? = some m → (lines ++ [added])[j]? = some m := by
    intro j m found
    rw [List.getElem?_append_left (List.getElem?_eq_some_iff.mp found).1, found]
  have cases : ∀ {j : Nat} {m : Line}, (lines ++ [added])[j]? = some m →
      lines[j]? = some m ∨ j = lines.length ∧ m = added := by
    intro j m found
    rcases Nat.lt_trichotomy j lines.length with before | same | behind
    · rw [List.getElem?_append_left before] at found
      exact .inl found
    · subst same
      rw [List.getElem?_concat_length] at found
      exact .inr ⟨rfl, (Option.some.inj found).symm⟩
    · rw [List.getElem?_eq_none (by simp; omega)] at found
      cases found
  split
  · rename_i counts
    constructor
    · intro stands
      rcases cases stands.here with old | new
      · have before := (List.getElem?_eq_some_iff.mp old).1
        exact absurd counts.2
          (stands.last lines.length added before List.getElem?_concat_length counts.1)
      · exact new
    · rintro ⟨rfl, rfl⟩
      refine ⟨List.getElem?_concat_length, counts.1, counts.2, ?_⟩
      intro j later behind found
      rw [List.getElem?_eq_none (by simp; omega)] at found
      cases found
  · rename_i ignored
    constructor
    · intro stands
      rcases cases stands.here with old | ⟨rfl, rfl⟩
      · exact ⟨old, stands.code, stands.place,
          fun j later behind found => stands.last j later behind (inside found)⟩
      · exact absurd ⟨stands.code, stands.place⟩ ignored
    · intro stands
      refine ⟨inside stands.here, stands.code, stands.place, ?_⟩
      intro j later behind found code same
      rcases cases found with old | ⟨_, rfl⟩
      · exact stands.last j later behind old code same
      · exact ignored ⟨code, same⟩

theorem Index.ofLines_concat (lines : List Line) (added : Line) :
    Index.ofLines (lines ++ [added]) =
      if added.data then Index.ofLines lines
      else (Index.ofLines lines).insert added.address (lines.length, added.instruction) := by
  simp [Index.ofLines, List.zipIdx_append]

/-- The index holds the lines that stand for their addresses. The induction is from the end
    of the lines, because a later line takes the place of an earlier one. -/
theorem Index.getElem?_ofLines {lines : List Line} {a : Address} {i : Nat} {x : Instruction} :
    (Index.ofLines lines)[a]? = some (i, x) ↔ ∃ l, Stands lines a i l ∧ l.instruction = x := by
  induction lines using List.reverseRecOn with
  | nil =>
    constructor
    · intro found
      simp [Index.ofLines] at found
    · rintro ⟨l, stands, _⟩
      simpa using stands.here
  | append_singleton lines added ih =>
    rw [Index.ofLines_concat]
    simp only [stands_concat]
    by_cases data : added.data = true
    · simp [data, ih]
    · simp only [data, Bool.false_eq_true, if_false, Std.TreeMap.getElem?_insert,
        Std.LawfulEqCmp.compare_eq_iff_eq]
      by_cases same : added.address = a
      · simp [same, eq_comm]
      · simp [same, ih]

theorem Index.mem_ofLines {lines : List Line} {a : Address} :
    a ∈ Index.ofLines lines ↔ ∃ i l, Stands lines a i l := by
  rw [Std.TreeMap.mem_iff_isSome_getElem?, Option.isSome_iff_exists]
  constructor
  · rintro ⟨⟨i, x⟩, found⟩
    obtain ⟨l, stands, _⟩ := Index.getElem?_ofLines.mp found
    exact ⟨i, l, stands⟩
  · rintro ⟨i, l, stands⟩
    exact ⟨(i, l.instruction), Index.getElem?_ofLines.mpr ⟨l, stands, rfl⟩⟩

theorem Index.target?_eq_some {index : Index} {x : Instruction} {t : Address} {arrival : Arrival} :
    index.target? x = some (t, arrival) ↔ x.target? = some (t, arrival) ∧ t ∈ index := by
  simp [Index.target?, Option.filter_eq_some_iff]

theorem Index.mem_successors {lines : List Line} {a s : Address} :
    s ∈ (Index.ofLines lines).successors a ↔ ∃ i l, Stands lines a i l ∧
      (¬ l.instruction.IsTerminal ∧ s = (a + l.instruction.size) &&& ~~~1 ∨
        ∃ t arrival j destination, l.instruction.target? = some (t, arrival) ∧
          Stands lines t j destination ∧ s = t &&& ~~~1) := by
  have one : ∀ x : Instruction, s ∈ (if x.endsFlow then [] else [(a + x.size).aligned]) ++
      (((Index.ofLines lines).target? x).map (·.1.aligned)).toList ↔
        ¬ x.IsTerminal ∧ s = (a + x.size) &&& ~~~1 ∨
          ∃ t arrival j destination, x.target? = some (t, arrival) ∧
            Stands lines t j destination ∧ s = t &&& ~~~1 := by
    intro x
    rw [List.mem_append, ← x.endsFlow_iff]
    refine or_congr ?_ ?_
    · by_cases ends : x.endsFlow = true
      · simp [ends]
      · simp [ends, Address.aligned_eq_and]
    · simp only [Option.mem_toList, Option.map_eq_some_iff, Prod.exists,
        Index.target?_eq_some, Index.mem_ofLines, Address.aligned_eq_and]
      constructor
      · rintro ⟨t, arrival, ⟨leads, j, destination, known⟩, rfl⟩
        exact ⟨t, arrival, j, destination, leads, known, rfl⟩
      · rintro ⟨t, arrival, j, destination, leads, known, rfl⟩
        exact ⟨t, arrival, ⟨leads, j, destination, known⟩, rfl⟩
  unfold Index.successors
  cases found : (Index.ofLines lines)[a]? with
  | none =>
    constructor
    · intro member
      cases member
    · rintro ⟨i, l, stands, _⟩
      rw [Index.getElem?_ofLines.mpr ⟨l, stands, rfl⟩] at found
      cases found
  | some entry =>
    obtain ⟨i, x⟩ := entry
    obtain ⟨l, stands, rfl⟩ := Index.getElem?_ofLines.mp found
    rw [one]
    constructor
    · intro step
      exact ⟨i, l, stands, step⟩
    · rintro ⟨j, m, other, step⟩
      obtain ⟨_, rfl⟩ := stands.unique other
      exact step

/-! ## The worklist -/

namespace Worklist

theorem mem_seen_push {w : Worklist} {a b : Address} :
    b ∈ (w.push a).seen ↔ b = a ∨ b ∈ w.seen := by
  unfold push
  split
  · rename_i known
    rw [Std.TreeSet.contains_iff_mem] at known
    constructor
    · exact .inr
    · rintro (rfl | seen)
      · exact known
      · exact seen
  · rw [Std.TreeSet.mem_insert, Std.LawfulEqCmp.compare_eq_iff_eq, eq_comm]

theorem mem_pending_push {w : Worklist} {a b : Address} :
    b ∈ (w.push a).pending ↔ b ∈ w.pending ∨ b = a ∧ a ∉ w.seen := by
  unfold push
  split
  · simp_all
  · simp_all

/-- What holds of a worklist while addresses are visited: no address is pending twice, and an
    instruction that is not among the unvisited ones is pending no more, though seen. -/
structure Sound (index : Index) (unvisited : Std.TreeSet Address) (w : Worklist) : Prop where
  distinct : w.pending.Nodup
  seen : ∀ a ∈ w.pending, a ∈ w.seen
  ahead : ∀ a ∈ w.pending, a ∈ index → a ∈ unvisited
  behind : ∀ a ∈ index, a ∉ unvisited → a ∈ w.seen

variable {index : Index} {unvisited : Std.TreeSet Address} {w : Worklist}

theorem Sound.push (sound : w.Sound index unvisited) (a : Address) :
    (w.push a).Sound index unvisited := by
  by_cases known : a ∈ w.seen
  · simpa [Worklist.push, known] using sound
  · refine ⟨?_, ?_, ?_, ?_⟩
    · have absent : a ∉ w.pending := fun member => known (sound.seen a member)
      simpa [Worklist.push, known] using sound.distinct.concat absent
    · intro b member
      rw [mem_seen_push]
      rcases mem_pending_push.mp member with old | ⟨rfl, _⟩
      · exact .inr (sound.seen b old)
      · exact .inl rfl
    · intro b member code
      rcases mem_pending_push.mp member with old | ⟨rfl, _⟩
      · exact sound.ahead b old code
      · by_contra visited
        exact known (sound.behind b code visited)
    · intro b code visited
      exact mem_seen_push.mpr (.inr (sound.behind b code visited))

theorem Sound.pushAll (sound : w.Sound index unvisited) (addresses : List Address) :
    (w.pushAll addresses).Sound index unvisited := by
  induction addresses generalizing w with
  | nil => exact sound
  | cons a rest ih => exact ih (sound.push a)

/-- The first address is visited; `later` is what is left of the unvisited ones. -/
theorem Sound.pop {a : Address} {pending : List Address} {seen later : Std.TreeSet Address}
    (sound : Sound index unvisited { pending := a :: pending, seen })
    (left : ∀ b, b ∈ later ↔ b ≠ a ∧ b ∈ unvisited) : Sound index later { pending, seen } := by
  obtain ⟨absent, distinct⟩ := List.nodup_cons.mp sound.distinct
  refine ⟨distinct, ?_, ?_, ?_⟩
  · intro b member
    exact sound.seen b (List.mem_cons_of_mem a member)
  · intro b member code
    refine (left b).mpr ⟨?_, sound.ahead b (List.mem_cons_of_mem a member) code⟩
    rintro rfl
    exact absent member
  · intro b code visited
    by_cases same : b = a
    · subst same
      exact sound.seen b (List.mem_cons_self ..)
    · apply sound.behind b code
      intro ahead
      exact visited ((left b).mpr ⟨same, ahead⟩)

theorem Sound.pop_erase {a : Address} {pending : List Address} {seen : Std.TreeSet Address}
    (sound : Sound index unvisited { pending := a :: pending, seen }) :
    Sound index (unvisited.erase a) { pending, seen } := by
  apply sound.pop
  intro b
  rw [Std.TreeSet.mem_erase, ne_eq, Std.LawfulEqCmp.compare_eq_iff_eq, eq_comm]

theorem Sound.pop_of_not_mem {a : Address} {pending : List Address} {seen : Std.TreeSet Address}
    (sound : Sound index unvisited { pending := a :: pending, seen }) (old : a ∉ unvisited) :
    Sound index unvisited { pending, seen } := by
  apply sound.pop
  intro b
  constructor
  · intro ahead
    exact ⟨fun same => old (same ▸ ahead), ahead⟩
  · exact And.right

/-- A pending address that is not unvisited has no instruction and no successors. -/
theorem Sound.successors_eq_nil (sound : w.Sound index unvisited) {a : Address} (pending : a ∈ w.pending)
    (old : a ∉ unvisited) : index.successors a = [] := by
  have outside : a ∉ index := fun code => old (sound.ahead a pending code)
  rw [Std.TreeMap.mem_iff_isSome_getElem?, Option.not_isSome_iff_eq_none] at outside
  simp [Index.successors, outside]

theorem pending_start (a : Address) : (start a).pending = [a] := by
  simp [start, push]

theorem mem_seen_start {a b : Address} : b ∈ (start a).seen ↔ b = a := by
  simp [start, mem_seen_push]

theorem sound_start (index : Index) (a : Address) :
    (start a).Sound index (Std.TreeSet.ofList index.keys) := by
  refine Sound.push ⟨List.nodup_nil, ?_, ?_, ?_⟩ _
  · simp
  · simp
  · intro b code unvisited
    simp [Std.TreeSet.mem_ofList, code] at unvisited

theorem mem_seen_pushAll {addresses : List Address} {b : Address} :
    b ∈ (w.pushAll addresses).seen ↔ b ∈ addresses ∨ b ∈ w.seen := by
  induction addresses generalizing w with
  | nil => simp [pushAll]
  | cons a rest ih =>
    have rest := ih (w := w.push a)
    rw [mem_seen_push] at rest
    rw [List.mem_cons, or_assoc, or_left_comm]
    exact rest

theorem mem_pending_pushAll {addresses : List Address} {b : Address} (member : b ∈ w.pending) :
    b ∈ (w.pushAll addresses).pending := by
  induction addresses generalizing w with
  | nil => exact member
  | cons a rest ih => exact ih (mem_pending_push.mpr (.inl member))

theorem mem_or_mem_of_pushAll {addresses : List Address} {b : Address}
    (member : b ∈ (w.pushAll addresses).pending) : b ∈ w.pending ∨ b ∈ addresses := by
  induction addresses generalizing w with
  | nil => exact .inl member
  | cons a rest ih =>
    rcases ih member with early | later
    · rcases mem_pending_push.mp early with old | ⟨rfl, _⟩
      · exact .inl old
      · exact .inr (List.mem_cons_self ..)
    · exact .inr (List.mem_cons_of_mem a later)

/-- What is seen anew is pending. -/
theorem seen_or_pending_of_pushAll {addresses : List Address} {b : Address}
    (member : b ∈ (w.pushAll addresses).seen) :
    b ∈ w.seen ∨ b ∈ (w.pushAll addresses).pending := by
  induction addresses generalizing w with
  | nil => exact .inl member
  | cons a rest ih =>
    rcases ih member with early | pending
    · rcases mem_seen_push.mp early with rfl | old
      · by_cases known : b ∈ w.seen
        · exact .inl known
        · exact .inr (mem_pending_pushAll (w := w.push b) (mem_pending_push.mpr (.inr ⟨rfl, known⟩)))
      · exact .inl old
    · exact .inr pending

end Worklist

/-! ## Visiting -/

section
variable {index : Index}

theorem mem_visit_of_pending (unvisited : Std.TreeSet Address) (w : Worklist) :
    ∀ a ∈ w.pending, a ∈ visit index unvisited w := by
  fun_induction visit index unvisited w with
  | case1 => simp
  | case2 unvisited address pending seen fresh ih =>
    intro a member
    rcases List.mem_cons.mp member with rfl | later
    · exact List.mem_cons_self ..
    · exact List.mem_cons_of_mem _ (ih a (Worklist.mem_pending_pushAll later))
  | case3 unvisited address pending seen old ih =>
    intro a member
    rcases List.mem_cons.mp member with rfl | later
    · exact List.mem_cons_self ..
    · exact List.mem_cons_of_mem _ (ih a later)

/-- What holds of the pending addresses and is handed on to successors holds of all that is
    visited. -/
theorem visit_induction {P : Address → Prop} (step : ∀ a s, P a → s ∈ index.successors a → P s)
    (unvisited : Std.TreeSet Address) (w : Worklist) (pending : ∀ a ∈ w.pending, P a) :
    ∀ a ∈ visit index unvisited w, P a := by
  fun_induction visit index unvisited w with
  | case1 => simp
  | case2 unvisited address pending seen fresh ih =>
    obtain ⟨here, later⟩ := List.forall_mem_cons.mp pending
    refine List.forall_mem_cons.mpr ⟨here, ih ?_⟩
    intro s member
    rcases Worklist.mem_or_mem_of_pushAll member with old | new
    · exact later s old
    · exact step address s here new
  | case3 unvisited address pending seen old ih =>
    obtain ⟨here, later⟩ := List.forall_mem_cons.mp pending
    exact List.forall_mem_cons.mpr ⟨here, ih later⟩

/-- The successors of what is visited were seen before or are visited, too. -/
theorem visit_closed {unvisited : Std.TreeSet Address} {w : Worklist}
    (sound : w.Sound index unvisited) : ∀ a ∈ visit index unvisited w, ∀ s ∈ index.successors a,
      s ∈ w.seen ∨ s ∈ visit index unvisited w := by
  fun_induction visit index unvisited w with
  | case1 => simp
  | case2 unvisited address pending seen fresh ih =>
    -- Whatever the step saw anew is pending behind it, and so it is visited.
    have later : ∀ s ∈ (Worklist.pushAll { pending, seen } (index.successors address)).seen,
        s ∈ seen ∨ s ∈ address :: visit index (unvisited.erase address)
          (Worklist.pushAll { pending, seen } (index.successors address)) := by
      intro s member
      rcases Worklist.seen_or_pending_of_pushAll member with old | new
      · exact .inl old
      · exact .inr (List.mem_cons_of_mem _ (mem_visit_of_pending _ _ s new))
    intro a member s successor
    rcases List.mem_cons.mp member with rfl | behind
    · exact later s (Worklist.mem_seen_pushAll.mpr (.inl successor))
    · rcases ih (sound.pop_erase.pushAll _) a behind s successor with known | visited
      · exact later s known
      · exact .inr (List.mem_cons_of_mem _ visited)
  | case3 unvisited address pending seen old ih =>
    rw [Std.TreeSet.contains_iff_mem] at old
    intro a member s successor
    rcases List.mem_cons.mp member with rfl | behind
    · rw [sound.successors_eq_nil (List.mem_cons_self ..) old] at successor
      cases successor
    · rcases ih (sound.pop_of_not_mem old) a behind s successor with known | visited
      · exact .inl known
      · exact .inr (List.mem_cons_of_mem _ visited)

end

/-- The visited addresses are those that control reaches. -/
theorem mem_visited {lines : List Line} {entry a : Address} :
    a ∈ visited (Index.ofLines lines) entry ↔ Reached lines entry a := by
  constructor
  · refine visit_induction ?_ _ _ ?_ a
    · intro b s reached successor
      obtain ⟨i, l, stands, ⟨goesOn, rfl⟩ | ⟨t, arrival, j, destination, leads, known, rfl⟩⟩ :=
        Index.mem_successors.mp successor
      · exact reached.next stands goesOn
      · exact reached.target stands leads known
    · intro b pending
      rw [Worklist.pending_start, List.mem_singleton] at pending
      rw [pending, Address.aligned_eq_and]
      exact .start
  · have entered : entry.aligned ∈ visited (Index.ofLines lines) entry :=
      mem_visit_of_pending _ _ _ (by simp [Worklist.pending_start])
    have closed : ∀ b s, b ∈ visited (Index.ofLines lines) entry →
        s ∈ (Index.ofLines lines).successors b → s ∈ visited (Index.ofLines lines) entry := by
      intro b s visited successor
      rcases visit_closed (Worklist.sound_start _ _) b visited s successor with seen | new
      · rw [Worklist.mem_seen_start.mp seen]
        exact entered
      · exact new
    intro reached
    induction reached with
    | start =>
      rw [← Address.aligned_eq_and]
      exact entered
    | next _ stands goesOn ih =>
      exact closed _ _ ih (Index.mem_successors.mpr ⟨_, _, stands, .inl ⟨goesOn, rfl⟩⟩)
    | target _ stands leads known ih =>
      exact closed _ _ ih
        (Index.mem_successors.mpr ⟨_, _, stands, .inr ⟨_, _, _, _, leads, known, rfl⟩⟩)

end Labelling
end M68k
