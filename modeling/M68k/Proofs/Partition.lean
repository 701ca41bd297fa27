import Mathlib
import M68k.Proofs.Length
import M68k.Sweep

/-!
A listing partitions its image. The lines of an image tile it (`Tiling`): each begins where
the one before it ends, instructions have the bytes that reading them took, and data never
stands next to data. One step in front of a tiling gives a tiling again, so the whole sweep
does; everything else about places and bytes is read off the tiling.
-/
namespace M68k

/-- Lines that cover bytes from an address on, without gaps and without overlaps. -/
inductive Tiling : Address → List Byte → List Line → Prop
  | nil (a : Address) : Tiling a [] []
  | instruction {a : Address} {l : Line} {rest : List Byte} {lines : List Line}
      (code : l.data = false) (place : l.address = a) (own : l.instruction.address = a)
      (valid : l.instruction.valid = true) (size : l.instruction.size.toNat = l.bytes.length)
      (even : Even l.bytes.length) (some : l.bytes ≠ [])
      (tail : Tiling (a.advance l.bytes.length) rest lines) : Tiling a (l.bytes ++ rest) (l :: lines)
  /-- Only the last data can have an odd number of bytes, and code follows data. -/
  | data {a : Address} {l : Line} {rest : List Byte} {lines : List Line}
      (data : l.data = true) (place : l.address = a) (some : l.bytes ≠ [])
      (even : Odd l.bytes.length → lines = []) (apart : ∀ next ∈ lines.head?, next.data = false)
      (tail : Tiling (a.advance l.bytes.length) rest lines) : Tiling a (l.bytes ++ rest) (l :: lines)

namespace Tiling

/-- Data in front of a tiling joins the data it meets. -/
theorem prepend_data {a : Address} {bytes rest : List Byte} {lines : List Line} (events : List Event)
    (pair : bytes.length = 2) (tiled : Tiling (a.advance 2) rest lines) :
    Tiling a (bytes ++ rest) ((Step.data a bytes events).prepend lines) := by
  have some : bytes ≠ [] := by
    rintro rfl
    simp at pair
  have even : ¬ Odd bytes.length := by
    rw [pair]
    decide
  cases tiled with
  | nil =>
    refine data (l := { address := a, bytes, data := true }) rfl rfl some
      (fun odd => absurd odd even) (by simp) ?_
    exact nil _
  | @instruction _ l rest lines code place own valid size parity nonempty tail =>
    simp only [Step.prepend, code, Bool.false_eq_true, if_false]
    refine data (l := { address := a, bytes, data := true }) rfl rfl some
      (fun odd => absurd odd even) (by simp [code]) ?_
    simp only [pair]
    exact instruction code place own valid size parity nonempty tail
  | @data _ l rest lines isData place nonempty parity apart tail =>
    simp only [Step.prepend, isData, if_true]
    rw [← List.append_assoc]
    have joined : (bytes ++ l.bytes).length = 2 + l.bytes.length := by
      rw [List.length_append, pair]
    refine data (l := { l with address := a, bytes := bytes ++ l.bytes, data := true }) rfl rfl
      (by simp [some]) ?_ apart ?_
    · intro odd
      apply parity
      simp only [joined] at odd
      rw [Nat.odd_iff] at odd ⊢
      omega
    · simp only [joined, ← Address.advance_advance]
      exact tail

/-! ## What a tiling says about its lines -/

variable {a : Address} {image : List Byte} {lines : List Line}

theorem flatMap_bytes (tiled : Tiling a image lines) : lines.flatMap (·.bytes) = image := by
  induction tiled with
  | nil => rfl
  | instruction _ _ _ _ _ _ _ _ ih => rw [List.flatMap_cons, ih]
  | data _ _ _ _ _ _ ih => rw [List.flatMap_cons, ih]

theorem bytes_ne_nil (tiled : Tiling a image lines) : ∀ l ∈ lines, l.bytes ≠ [] := by
  induction tiled with
  | nil => simp
  | instruction _ _ _ _ _ _ some _ ih => exact List.forall_mem_cons.mpr ⟨some, ih⟩
  | data _ _ some _ _ _ ih => exact List.forall_mem_cons.mpr ⟨some, ih⟩

theorem instruction_of_code (tiled : Tiling a image lines) : ∀ l ∈ lines, l.data = false →
    l.instruction.valid = true ∧ l.instruction.address = l.address ∧ Even l.bytes.length ∧
      l.bytes.length = l.instruction.size.toNat := by
  induction tiled with
  | nil => simp
  | instruction _ place own valid size even _ _ ih =>
    exact List.forall_mem_cons.mpr ⟨fun _ => ⟨valid, own.trans place.symm, even, size.symm⟩, ih⟩
  | data isData _ _ _ _ _ ih =>
    refine List.forall_mem_cons.mpr ⟨?_, ih⟩
    intro code
    rw [isData] at code
    cases code

theorem data_apart (tiled : Tiling a image lines) :
    lines.IsChain (fun l next => ¬ (l.data = true ∧ next.data = true)) := by
  induction tiled with
  | nil => exact .nil
  | instruction code _ _ _ _ _ _ _ ih =>
    refine List.isChain_cons.mpr ⟨?_, ih⟩
    rintro next - ⟨isData, _⟩
    rw [code] at isData
    cases isData
  | data _ _ _ _ apart _ ih =>
    refine List.isChain_cons.mpr ⟨?_, ih⟩
    rintro next member ⟨_, isData⟩
    rw [apart next member] at isData
    cases isData

/-- The number of bytes in the lines before the one at `i`. -/
def bytesBefore (lines : List Line) (i : Nat) : Nat := ((lines.take i).map (·.bytes.length)).sum

@[simp] theorem bytesBefore_zero (lines : List Line) : bytesBefore lines 0 = 0 := rfl

@[simp] theorem bytesBefore_cons (l : Line) (lines : List Line) (i : Nat) :
    bytesBefore (l :: lines) (i + 1) = l.bytes.length + bytesBefore lines i := rfl

/-- What its position says about a line: it lies behind the bytes of the lines before it,
    these are an even number, and only the last line can be odd. -/
structure Placed (a : Address) (lines : List Line) (i : Nat) (l : Line) : Prop where
  address : l.address = a.advance (bytesBefore lines i)
  even : Even (bytesBefore lines i)
  last : Odd l.bytes.length → i + 1 = lines.length ∧ l.data = true

theorem Placed.cons {first l : Line} {i : Nat} (even : Even first.bytes.length)
    (placed : Placed (a.advance first.bytes.length) lines i l) :
    Placed a (first :: lines) (i + 1) l := by
  refine ⟨?_, even.add placed.even, ?_⟩
  · rw [placed.address, Address.advance_advance, bytesBefore_cons]
  · intro odd
    obtain ⟨last, isData⟩ := placed.last odd
    exact ⟨by rw [List.length_cons, last], isData⟩

theorem placed (tiled : Tiling a image lines) : ∀ i (inside : i < lines.length),
    Placed a lines i lines[i] := by
  induction tiled with
  | nil => simp
  | instruction _ place _ _ _ even _ _ ih =>
    rintro (_ | i) inside
    · exact ⟨by simp [place], by simp, fun odd => absurd even (Nat.not_even_iff_odd.mpr odd)⟩
    · exact (ih i (Nat.lt_of_succ_lt_succ inside)).cons even
  | data isData place _ parity _ _ ih =>
    rintro (_ | i) inside
    · exact ⟨by simp [place], by simp, fun odd => ⟨by simp [parity odd], isData⟩⟩
    · refine (ih i (Nat.lt_of_succ_lt_succ inside)).cons ?_
      -- An odd data line would be the last one, but the line at `i + 1` follows it.
      rw [← Nat.not_odd_iff_even]
      intro odd
      rw [parity odd] at inside
      simp at inside

end Tiling

/-- An instruction that leaves no mark has its whole length within the window. -/
theorem Decoder.size_of_complete (d : Decoder) {window : List Byte} {a : Address}
    (complete : (d.decode (Cursor.start window a)).cursor.overflow = false) :
    (d.decode (Cursor.start window a)).instruction.size.toNat =
        2 * Form.needed d.style (leadingWord window) ∧
      2 * Form.needed d.style (leadingWord window) ≤ window.length := by
  have size := d.decode_size (Cursor.start window a)
  rw [d.decode_cursor] at complete
  simp only [Cursor.skip, Cursor.start, Bool.false_or] at complete size
  have room := Nat.le_of_not_lt (of_decide_eq_false complete)
  refine ⟨?_, room⟩
  simp only [Cursor.start, size]
  omega

/-- The lines of a sweep tile the image. The induction is over the steps, with one case
    for every exit: the end, an odd last byte, a complete instruction, and a word that is
    none. -/
theorem Decoder.tiling_steps (d : Decoder) (image : List Byte) (a : Address) :
    Tiling a image ((d.steps image a).foldr Step.prepend []) := by
  fun_induction Decoder.steps d image a with
  | case1 a => exact .nil a
  | case2 a b =>
    refine Tiling.data (l := { address := a, bytes := [b], data := true }) rfl rfl (by simp)
      (fun _ => rfl) (by simp) ?_
    exact .nil _
  | case3 a high low rest result complete extension ih =>
    simp only [Bool.and_eq_true, Bool.not_eq_eq_eq_not, Bool.not_true] at complete
    obtain ⟨valid, whole⟩ := complete
    obtain ⟨size, room⟩ := d.size_of_complete whole
    have own : result.instruction.address = a := d.decode_address _
    have needed : 1 ≤ Form.needed d.style (leadingWord (high :: low :: rest)) := by
      simp only [Form.needed]
      omega
    have taken : (high :: low :: rest.take extension).length = result.instruction.size.toNat := by
      simp only [List.length_cons, List.length_take, extension, result, size] at room ⊢
      omega
    rw [List.foldr_cons]
    have split : high :: low :: rest = (high :: low :: rest.take extension) ++ rest.drop extension := by
      simp
    rw [split]
    refine Tiling.instruction
      (l := { address := result.instruction.address, bytes := high :: low :: rest.take extension
              instruction := result.instruction })
      rfl own own valid taken.symm ?_ (by simp) ?_
    · rw [taken, size]
      exact even_two_mul _
    · have length : 2 + extension = (high :: low :: rest.take extension).length := by
        rw [taken]
        simp only [extension, result, size]
        omega
      rw [← length]
      exact ih
  | case4 a high low rest result complete truncation ih =>
    rw [List.foldr_cons]
    have joined : Tiling a ([high, low] ++ rest) _ :=
      Tiling.prepend_data (result.events ++ truncation) rfl ih
    exact joined

/-- A listing partitions its image: the bytes of the lines are the image, no line is empty,
    each lies behind the bytes before it, instructions are valid and hold the bytes they were
    read from, data lines stand apart, and lines start at even places, only the last of them,
    a data line, having an odd length. -/
theorem Decoder.listing_partitions (d : Decoder) (image : List Byte) (origin : Address) :
    let lines := (d.listing image origin).lines
    lines.flatMap (·.bytes) = image ∧
      (∀ l ∈ lines, l.bytes ≠ []) ∧
      (∀ i (inside : i < lines.length),
        lines[i].address = origin.advance (Tiling.bytesBefore lines i)) ∧
      (∀ l ∈ lines, l.data = false →
        l.instruction.valid = true ∧ l.instruction.address = l.address ∧ Even l.bytes.length ∧
          l.bytes.length = l.instruction.size.toNat) ∧
      lines.IsChain (fun l next => ¬ (l.data = true ∧ next.data = true)) ∧
      (∀ i < lines.length, Even (Tiling.bytesBefore lines i)) ∧
      ∀ i (inside : i < lines.length), Odd lines[i].bytes.length →
        i + 1 = lines.length ∧ lines[i].data = true := by
  intro lines
  have tiled : Tiling origin image lines := d.tiling_steps image origin
  exact ⟨tiled.flatMap_bytes, tiled.bytes_ne_nil, fun i inside => (tiled.placed i inside).address,
    tiled.instruction_of_code, tiled.data_apart, fun i inside => (tiled.placed i inside).even,
    fun i inside => (tiled.placed i inside).last⟩

/-- A listing across the end of the address space: an instruction, and at address 0 a word
    that is none together with an odd last byte. -/
theorem Decoder.listing_partitions_wrapping :
    let lines := (({} : Decoder).listing [0x4E, 0x71, 0xFF, 0xFF, 0x12] 0xFFFFFFFE).lines
    ∃ (first : 0 < lines.length) (second : 1 < lines.length),
      lines[0].data = false ∧ lines[0].instruction.valid = true ∧ Odd lines[1].bytes.length ∧
        lines[1].address = (0xFFFFFFFE : Address).advance 2 ∧ 1 + 1 = lines.length ∧
        lines[1].data = true := by
  intro lines
  have first : 0 < lines.length := by decide +kernel
  have second : 1 < lines.length := by decide +kernel
  have code : lines[0].data = false := by
    revert first
    decide +kernel
  have odd : Odd lines[1].bytes.length := by
    revert second
    decide +kernel
  have before : Tiling.bytesBefore lines 1 = 2 := by decide +kernel
  obtain ⟨_, _, place, own, _, _, last⟩ :=
    Decoder.listing_partitions {} [0x4E, 0x71, 0xFF, 0xFF, 0x12] 0xFFFFFFFE
  have address := place 1 second
  rw [before] at address
  exact ⟨first, second, code, (own _ (List.getElem_mem first) code).1, odd, address,
    last 1 second odd⟩

end M68k
