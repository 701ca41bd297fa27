import M68k.Line
import Std.Data.TreeMap
import Std.Data.TreeSet

/-!
Names for the places that control reaches. From an entry, control is followed through
instructions and known targets; every target met on the way names its line, and the
instruction that leads there shows the name.
-/
namespace M68k.Labelling

/-- The instructions of a program by address, each with the position of its line. -/
abbrev Index := Std.TreeMap Address (Nat × Instruction)

/-- The index of lines. Where several instructions share an address the last one counts. -/
def Index.ofLines (lines : List Line) : Index :=
  lines.zipIdx.foldl
    (fun index (line, position) =>
      if line.data then index else index.insert line.address (position, line.instruction))
    ∅

/-- The target of an instruction, if there is a line for it. -/
def Index.target? (index : Index) (i : Instruction) : Option (Address × Arrival) :=
  i.target?.filter fun (target, _) => index.contains target

/-- The word boundaries that control can reach from an address in one step. -/
def Index.successors (index : Index) (address : Address) : List Address :=
  match index[address]? with
  | none => []
  | some (_, i) =>
    (if i.endsFlow then [] else [(address + i.size).aligned]) ++
      ((index.target? i).map (·.1.aligned)).toList

theorem Index.successors_length_le (index : Index) (address : Address) :
    (index.successors address).length ≤ 2 := by
  unfold successors
  split
  · simp
  · rename_i i _
    cases index.target? i <;> split <;> simp

/-- Addresses to visit, in order, and all that were ever among them. -/
structure Worklist where
  pending : List Address
  seen : Std.TreeSet Address

namespace Worklist

/-- Adds an address unless it was added before. -/
def push (w : Worklist) (address : Address) : Worklist :=
  if w.seen.contains address then w
  else { pending := w.pending ++ [address], seen := w.seen.insert address }

theorem length_pending_push_le (w : Worklist) (address : Address) :
    (w.push address).pending.length ≤ w.pending.length + 1 := by
  unfold push
  split <;> simp

/-- Adds addresses in order. -/
def pushAll (w : Worklist) (addresses : List Address) : Worklist := addresses.foldl push w

theorem length_pending_pushAll_le (w : Worklist) (addresses : List Address) :
    (w.pushAll addresses).pending.length ≤ w.pending.length + addresses.length := by
  induction addresses generalizing w with
  | nil => simp [pushAll]
  | cons a rest ih =>
    have step := length_pending_push_le w a
    have rest := ih (w.push a)
    simp only [pushAll, List.foldl_cons, List.length_cons] at rest ⊢
    omega

/-- The worklist with one address to visit. -/
def start (address : Address) : Worklist := (⟨[], ∅⟩ : Worklist).push address

end Worklist

/-- The addresses visited from a worklist, in order. `unvisited` holds the addresses of
    instructions that are still to come. -/
def visit (index : Index) (unvisited : Std.TreeSet Address) (w : Worklist) : List Address :=
  match w with
  | { pending := [], .. } => []
  | { pending := address :: pending, seen } =>
    if unvisited.contains address then
      address :: visit index (unvisited.erase address)
        (Worklist.pushAll { pending, seen } (index.successors address))
    else address :: visit index unvisited { pending, seen }
termination_by 2 * unvisited.size + w.pending.length
decreasing_by
  · rename_i member
    have pushed := Worklist.length_pending_pushAll_le { pending, seen } (index.successors address)
    have few := index.successors_length_le address
    have smaller : (unvisited.erase address).size = unvisited.size - 1 := by
      simp [Std.TreeSet.size_erase, member]
    have present : unvisited.size ≠ 0 := by
      simpa [Std.TreeSet.isEmpty_eq_size_eq_zero] using
        Std.TreeSet.isEmpty_eq_false_of_contains member
    simp only [List.length_cons] at pushed ⊢
    omega
  · simp

/-- The addresses that control visits from an entry. -/
def visited (index : Index) (entry : Address) : List Address :=
  visit index (Std.TreeSet.ofList index.keys) (Worklist.start entry.aligned)

/-- The targets met at visited addresses. -/
def targets (index : Index) (addresses : List Address) : List (Address × Arrival) :=
  addresses.filterMap fun address =>
    index[address]?.bind fun (_, i) => index.target? i

/-- How control arrives at each target; a call outweighs jumps. -/
def arrivals (targets : List (Address × Arrival)) : Std.TreeMap Address Arrival :=
  targets.foldl
    (fun found (target, arrival) =>
      match arrival with
      | .call => found.insert target .call
      | .jump => found.insertIfNew target .jump)
    ∅

/-- The name of a target by the way control arrives there. -/
def nameOf (target : Address) (arrival : Arrival) : String :=
  (match arrival with
    | .jump => "loc_"
    | .call => "sub_") ++ Text.hex .upper 8 target.toNat

/-- Names the lines that control reaches from an entry, and shows the names where control
    comes from. All else stays as it is. -/
def label (lines : List Line) (entry : Address) : List Line :=
  let index := Index.ofLines lines
  let addresses := visited index entry
  let reached := Std.TreeSet.ofList addresses
  let names := arrivals (targets index addresses)
  let name? := fun target => names[target]?.map (nameOf target)
  lines.zipIdx.map fun (line, position) =>
    if (index[line.address]?).map (·.1) = some position then
      let target := if reached.contains line.address then
        (index.target? line.instruction).bind fun (target, _) => name? target else none
      { line with
        label := (name? line.address).or line.label
        target := target.or line.target }
    else line

end M68k.Labelling
