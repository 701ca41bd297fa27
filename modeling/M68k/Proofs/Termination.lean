import Mathlib
import M68k.Proofs.Reachability

/-!
Following control comes to an end. The worklist is taken by itself here, round by round, with
nothing to stop it but that nothing is pending (`rounds`): a round takes the first pending address
and adds its successors, whether or not there are lines at them. Lines of any kind are allowed, so
control may run in circles, and an instruction of no size goes on to itself. Two accounts are kept
from round to round. Each address ever seen was taken once or is pending once (`Accounts`), and so
none is taken twice. Only successors of instruction lines are ever added, each of them once, and so
what is pending and what may still be added get fewer by one with every address taken (`capacity`).
-/
namespace M68k.Labelling

/-- The addresses of instruction lines, each counted once. -/
def codeAddresses (lines : List Line) : Finset Address :=
  ((lines.filter fun l => !l.data).map (·.address)).toFinset

theorem Stands.mem_codeAddresses {lines : List Line} {a : Address} {i : Nat} {l : Line}
    (stands : Stands lines a i l) : a ∈ codeAddresses lines := by
  rw [codeAddresses, List.mem_toFinset, List.mem_map]
  refine ⟨l, List.mem_filter.mpr ⟨List.mem_of_getElem? stands.here, ?_⟩, stands.place⟩
  simp [stands.code]

/-- All that can follow on an instruction line. -/
def destinations (lines : List Line) : Finset Address :=
  (codeAddresses lines).biUnion fun a => ((Index.ofLines lines).successors a).toFinset

theorem mem_destinations {lines : List Line} {a s : Address}
    (follows : s ∈ (Index.ofLines lines).successors a) : s ∈ destinations lines := by
  obtain ⟨i, l, stands, _⟩ := Index.mem_successors.mp follows
  exact Finset.mem_biUnion.mpr ⟨a, stands.mem_codeAddresses, List.mem_toFinset.mpr follows⟩

theorem card_destinations_le (lines : List Line) :
    (destinations lines).card ≤ 2 * (codeAddresses lines).card := by
  rw [Nat.mul_comm]
  apply Finset.card_biUnion_le_card_mul
  intro a _
  exact (List.toFinset_card_le _).trans ((Index.ofLines lines).successors_length_le a)

namespace Worklist

/-! ## Rounds -/

/-- A round takes the first pending address and adds its successors. -/
def round? (index : Index) (w : Worklist) : Option (Address × Worklist) :=
  match w with
  | { pending := [], .. } => none
  | { pending := a :: pending, seen } =>
    some (a, pushAll { pending, seen } (index.successors a))

/-- The addresses taken in `k` rounds, or in fewer if nothing is pending then, and the worklist
    behind these rounds. -/
def rounds (index : Index) : Nat → Worklist → List Address × Worklist
  | 0, w => ([], w)
  | k + 1, w =>
    match w.round? index with
    | none => ([], w)
    | some (a, next) =>
      let (taken, last) := rounds index k next
      (a :: taken, last)

section
variable {index : Index}

theorem rounds_nil (k : Nat) (seen : Std.TreeSet Address) :
    rounds index k { pending := [], seen } = ([], { pending := [], seen }) := by
  cases k <;> rfl

theorem rounds_cons (k : Nat) (a : Address) (pending : List Address) (seen : Std.TreeSet Address) :
    rounds index (k + 1) { pending := a :: pending, seen } =
      (a :: (rounds index k (pushAll { pending, seen } (index.successors a))).1,
        (rounds index k (pushAll { pending, seen } (index.successors a))).2) := rfl

/-- What a round keeps, all rounds keep. The addresses taken before are carried along. -/
theorem rounds_induction {P : List Address → Worklist → Prop}
    (round : ∀ taken a pending seen, P taken { pending := a :: pending, seen } →
      P (taken ++ [a]) (pushAll { pending, seen } (index.successors a)))
    (k : Nat) {taken : List Address} {w : Worklist} (first : P taken w) :
    P (taken ++ (w.rounds index k).1) (w.rounds index k).2 := by
  induction k generalizing taken w with
  | zero => simpa [rounds] using first
  | succ k ih =>
    obtain ⟨pending, seen⟩ := w
    cases pending with
    | nil => simpa [rounds_nil] using first
    | cons a pending =>
      have later := ih (round taken a pending seen first)
      rw [List.append_assoc, List.singleton_append] at later
      rwa [rounds_cons]

end

/-! ## No address is taken twice -/

/-- The addresses seen so far are those taken and those pending, each of them once. -/
structure Accounts (taken : List Address) (w : Worklist) : Prop where
  distinct : (taken ++ w.pending).Nodup
  seen : ∀ a, a ∈ w.seen ↔ a ∈ taken ++ w.pending

section
variable {taken : List Address} {w : Worklist}

theorem Accounts.push (accounts : w.Accounts taken) (a : Address) : (w.push a).Accounts taken := by
  by_cases known : a ∈ w.seen
  · simpa [Worklist.push, known] using accounts
  · have absent : a ∉ taken ++ w.pending := fun member => known ((accounts.seen a).mpr member)
    have added : taken ++ (w.push a).pending = (taken ++ w.pending) ++ [a] := by
      simp [Worklist.push, known]
    refine ⟨?_, ?_⟩
    · rw [added, ← List.concat_eq_append]
      exact accounts.distinct.concat absent
    · intro b
      rw [added, mem_seen_push, accounts.seen b, or_comm, ← List.mem_singleton, ← List.mem_append]

theorem Accounts.pushAll (accounts : w.Accounts taken) (addresses : List Address) :
    (w.pushAll addresses).Accounts taken := by
  induction addresses generalizing w with
  | nil => exact accounts
  | cons a rest ih => exact ih (accounts.push a)

theorem Accounts.round {a : Address} {pending : List Address} {seen : Std.TreeSet Address}
    (accounts : Accounts taken { pending := a :: pending, seen }) (addresses : List Address) :
    (Worklist.pushAll { pending, seen } addresses).Accounts (taken ++ [a]) := by
  -- The address only changes sides: the two lists joined stay the same.
  have moved : taken ++ a :: pending = (taken ++ [a]) ++ pending := by simp
  have passed : Accounts (taken ++ [a]) { pending, seen } :=
    ⟨moved ▸ accounts.distinct, fun b => moved ▸ accounts.seen b⟩
  exact passed.pushAll addresses

theorem Accounts.rounds (accounts : w.Accounts taken) (index : Index) (k : Nat) :
    (w.rounds index k).2.Accounts (taken ++ (w.rounds index k).1) := by
  apply rounds_induction
  · intro earlier a pending seen before
    exact before.round _
  · exact accounts

theorem accounts_start (a : Address) : (start a).Accounts [] := by
  refine ⟨?_, ?_⟩
  · simp [pending_start]
  · simp [mem_seen_start, pending_start]

end

/-! ## How many addresses are taken -/

/-- The number of addresses that are pending or can still be added, where only known ones are. -/
def capacity (known : Finset Address) (w : Worklist) : Nat :=
  w.pending.length + (known.filter (· ∉ w.seen)).card

section
variable {known : Finset Address} {w : Worklist}

theorem capacity_push {a : Address} (within : a ∈ known) :
    (w.push a).capacity known = w.capacity known := by
  by_cases old : a ∈ w.seen
  · simp [push, old]
  · have fresh : a ∈ known.filter (· ∉ w.seen) := Finset.mem_filter.mpr ⟨within, old⟩
    have fewer : known.filter (· ∉ (w.push a).seen) = (known.filter (· ∉ w.seen)).erase a := by
      ext b
      simp only [Finset.mem_filter, Finset.mem_erase, mem_seen_push]
      tauto
    have longer : (w.push a).pending.length = w.pending.length + 1 := by simp [push, old]
    have erased := Finset.card_erase_add_one fresh
    rw [capacity, capacity, fewer, longer]
    omega

theorem capacity_pushAll {addresses : List Address} (within : ∀ a ∈ addresses, a ∈ known) :
    (w.pushAll addresses).capacity known = w.capacity known := by
  induction addresses generalizing w with
  | nil => rfl
  | cons a rest ih =>
    obtain ⟨first, others⟩ := List.forall_mem_cons.mp within
    exact (ih others).trans (capacity_push first)

/-- A round lowers the capacity by the address that it takes. -/
theorem capacity_round {a : Address} {pending addresses : List Address} {seen : Std.TreeSet Address}
    (within : ∀ s ∈ addresses, s ∈ known) :
    (pushAll { pending, seen } addresses).capacity known + 1 =
      capacity known { pending := a :: pending, seen } := by
  rw [capacity_pushAll within]
  simp only [capacity, List.length_cons]
  omega

theorem capacity_start_le (known : Finset Address) (a : Address) :
    (start a).capacity known ≤ 1 + known.card := by
  have fewer : (known.filter (· ∉ (start a).seen)).card ≤ known.card := Finset.card_filter_le ..
  rw [capacity, pending_start, List.length_singleton]
  omega

theorem length_rounds_le {index : Index} (within : ∀ a, ∀ s ∈ index.successors a, s ∈ known)
    (w : Worklist) (k : Nat) : (w.rounds index k).1.length ≤ w.capacity known := by
  have kept : (w.rounds index k).2.capacity known + ([] ++ (w.rounds index k).1).length =
      w.capacity known := by
    apply rounds_induction (P := fun taken v => v.capacity known + taken.length = w.capacity known)
    · intro taken a pending seen before
      have lower : (pushAll { pending, seen } (index.successors a)).capacity known + 1 =
          capacity known { pending := a :: pending, seen } := capacity_round (within a)
      rw [List.length_append, List.length_singleton]
      omega
    · rfl
  rw [List.nil_append] at kept
  omega

end
end Worklist

/-! ## The visited addresses are those taken -/

/-- The guard of visiting never changes what is done: where it holds back the successors there are
    none. So the rounds take the visited addresses one by one, and end with them. -/
theorem rounds_eq_visit {index : Index} {unvisited : Std.TreeSet Address} {w : Worklist}
    (sound : w.Sound index unvisited) (k : Nat) :
    (w.rounds index k).1 = (visit index unvisited w).take k ∧
      ((w.rounds index k).2.pending = [] ↔ (visit index unvisited w).length ≤ k) := by
  fun_induction visit index unvisited w generalizing k with
  | case1 => simp [Worklist.rounds_nil]
  | case2 unvisited address pending seen fresh ih =>
    cases k with
    | zero => simp [Worklist.rounds]
    | succ k =>
      obtain ⟨taken, ended⟩ := ih (sound.pop_erase.pushAll _) k
      simp [Worklist.rounds_cons, taken, ended]
  | case3 unvisited address pending seen old ih =>
    rw [Std.TreeSet.contains_iff_mem] at old
    cases k with
    | zero => simp [Worklist.rounds]
    | succ k =>
      have nothing := sound.successors_eq_nil (List.mem_cons_self ..) old
      obtain ⟨taken, ended⟩ := ih (sound.pop_of_not_mem old) k
      simp [Worklist.rounds_cons, nothing, Worklist.pushAll, taken, ended]

/-- Following control ends, whatever the lines are and wherever it starts. Round by round the
    worklist gives the visited addresses in their order, and with the last of them nothing is
    pending. None of them is given twice, and there is at most one more than twice the number of
    addresses at which there is an instruction line. -/
theorem worklist_runs_out (lines : List Line) (entry : Address) :
    let index := Index.ofLines lines
    let addresses := visited index entry
    addresses.Nodup ∧ addresses.length ≤ 1 + 2 * (codeAddresses lines).card ∧
      ∀ k, ((Worklist.start entry.aligned).rounds index k).1 = addresses.take k ∧
        (((Worklist.start entry.aligned).rounds index k).2.pending = [] ↔ addresses.length ≤ k) := by
  intro index addresses
  have agree := rounds_eq_visit (Worklist.sound_start index entry.aligned)
  have all : ((Worklist.start entry.aligned).rounds index addresses.length).1 = addresses := by
    rw [(agree _).1]
    exact List.take_length
  refine ⟨?_, ?_, agree⟩
  · have accounts := (Worklist.accounts_start entry.aligned).rounds index addresses.length
    rw [List.nil_append, all] at accounts
    exact accounts.distinct.of_append_left
  · have within : ∀ a, ∀ s ∈ index.successors a, s ∈ destinations lines := fun _ _ => mem_destinations
    have taken := Worklist.length_rounds_le within (Worklist.start entry.aligned) addresses.length
    rw [all] at taken
    have room := Worklist.capacity_start_le (destinations lines) entry.aligned
    have few := card_destinations_le lines
    omega

/-- An instruction of no size goes on to itself and is taken once. -/
example : (Worklist.rounds (Index.ofLines [{ address := 6 }]) 9 (Worklist.start 6)).1 = [6] := by
  decide +kernel

end M68k.Labelling
