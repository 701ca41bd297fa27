import Mathlib
import M68k.Proofs.Labels
import M68k.Proofs.ReadBack
import M68k.Proofs.Sweeping
import M68k.Proofs.Targets

/-!
Labelling only renames. The printout with names differs from the printout without them in two
ways: a row with the name stands before the row of a named line, and in the row of a line that
leads somewhere the name stands in the place of the address, from where it can be put back
(`Replaces`). Every name that is shown has one row in the whole printout, and that row stands
before the instruction at the address that the name spells (`DefinedOnce`).
-/
namespace M68k

open Text

/-! ## Replacing -/

namespace Text

/-- A text becomes another one when its only stretch `old` is replaced by `new`. -/
def Replaces (old new s t : String) : Prop :=
  ∃ before after, s = before ++ old ++ after ∧ t = before ++ new ++ after ∧
    ∀ b a, s = b ++ old ++ a → b = before ∧ a = after

/-- A character that stands nowhere else shows where the stretch is. -/
theorem replaces_of_lacks {c : Char} {old before after : String} (inside : c ∈ old.toList)
    (front : Lacks c before) (back : Lacks c after) (new : String) :
    Replaces old new (before ++ old ++ after) (before ++ new ++ after) := by
  refine ⟨before, after, rfl, rfl, ?_⟩
  intro b a same
  have characters := congrArg String.toList same
  obtain ⟨first, last, spelled, earlier⟩ := List.eq_append_cons_of_mem inside
  -- All that there is of the character is in the stretch, so there is none around it.
  have counted := congrArg (List.count c) characters
  simp only [String.toList_append, List.count_append, List.count_eq_zero_of_not_mem front,
    List.count_eq_zero_of_not_mem back] at counted
  have other : c ∉ b.toList := List.count_eq_zero.mp (by omega)
  simp only [String.toList_append, spelled, List.append_assoc, List.cons_append] at characters
  rw [← List.append_assoc, ← List.append_assoc] at characters
  obtain ⟨left, right⟩ := eq_of_append_cons
    (fun member => (List.mem_append.mp member).elim front earlier)
    (fun member => (List.mem_append.mp member).elim other earlier) characters
  exact ⟨String.toList_inj.mp (List.append_cancel_right left).symm,
    String.toList_inj.mp (List.append_cancel_left right).symm⟩

end Text

/-! ## Rows of single lines -/

namespace Printout

/-- The rows of lines, line by line, with strings numbered from `number` on. -/
def blocks (number : Nat) : List Line → List (List Row)
  | [] => []
  | l :: lines =>
    if l.data then
      let segments := Data.segments l.bytes l.address
      Data.rows number segments :: blocks (number + Data.strings segments) lines
    else l.rows :: blocks number lines

theorem flatten_blocks (number : Nat) (lines : List Line) : (blocks number lines).flatten = rows number lines := by
  induction lines generalizing number with
  | nil => rfl
  | cons l lines ih =>
    simp only [blocks, rows]
    split
    · rw [List.flatten_cons, ih]
    · rw [List.flatten_cons, ih]

theorem length_blocks (number : Nat) (lines : List Line) : (blocks number lines).length = lines.length := by
  induction lines generalizing number with
  | nil => rfl
  | cons l lines ih =>
    simp only [blocks]
    split
    · rw [List.length_cons, List.length_cons, ih]
    · rw [List.length_cons, List.length_cons, ih]

theorem blocks_code {lines : List Line} {l : Line} (code : l.data = false) (number i : Nat)
    (here : lines[i]? = some l) : (blocks number lines)[i]? = some l.rows := by
  induction lines generalizing number i with
  | nil => simp at here
  | cons first lines ih =>
    cases i with
    | zero =>
      obtain rfl : first = l := by simpa using here
      simp [blocks, code]
    | succ i =>
      rw [List.getElem?_cons_succ] at here
      simp only [blocks]
      split
      · exact ih _ i here
      · exact ih _ i here

/-- Lines that differ in their names only have the same data, with the same numbers. -/
theorem blocks_data {lines others : List Line}
    (same : List.Forall₂ (fun l m => m = { l with label := m.label, target := m.target }) lines others)
    {l : Line} (data : l.data = true) (number i : Nat) (here : lines[i]? = some l) :
    (blocks number others)[i]? = (blocks number lines)[i]? := by
  induction same generalizing number i with
  | nil => rfl
  | @cons first other lines others head tail ih =>
    have kind : other.data = first.data := by rw [head]
    have bytes : other.bytes = first.bytes := by rw [head]
    have place : other.address = first.address := by rw [head]
    simp only [blocks, kind, bytes, place]
    cases i with
    | zero =>
      obtain rfl : first = l := by simpa using here
      simp [data]
    | succ i =>
      rw [List.getElem?_cons_succ] at here
      split
      · exact ih _ i here
      · exact ih _ i here

end Printout

/-! ## Names -/

/-- A name that spells an address. -/
def NamesAddress (name : String) (t : Address) : Prop :=
  name = "loc_" ++ hex .upper 8 t.toNat ∨ name = "sub_" ++ hex .upper 8 t.toNat

namespace NamesAddress

variable {name : String} {t u : Address}

/-- No two addresses have a name in common. -/
theorem unique (first : NamesAddress name t) (second : NamesAddress name u) : t = u := by
  have digits (s : String) (same : s ++ hex .upper 8 t.toNat = s ++ hex .upper 8 u.toNat) : t = u := by
    rw [String.append_right_inj] at same
    exact UInt32.toNat_inj.mp (hex_inj t.toNat_lt u.toNat_lt same)
  have apart (x y : String) : "loc_" ++ x ≠ "sub_" ++ y := by
    intro same
    have first := congrArg (fun s => s.toList.head?) same
    simp [String.toList_append] at first
  rcases first with rfl | rfl
  · rcases second with same | same
    · exact digits _ same
    · exact absurd same (apart _ _)
  · rcases second with same | same
    · exact absurd same.symm (apart _ _)
    · exact digits _ same

theorem ne_string (named : NamesAddress name t) (n : Nat) : name ≠ "string" ++ Nat.repr n := by
  intro same
  have second := congrArg (fun s => s.toList[1]?) same
  rcases named with rfl | rfl
  · simp [String.toList_append] at second
  · simp [String.toList_append] at second

theorem underscore_mem (named : NamesAddress name t) : '_' ∈ name.toList := by
  rcases named with rfl | rfl
  · simp [String.toList_append]
  · simp [String.toList_append]

end NamesAddress

namespace Labelling

variable {lines : List Line} {entry : Address}

theorem namesAddress_of_name? {t : Address} {name : String} (named : name? lines entry t = some name) :
    NamesAddress name t := by
  obtain ⟨arrival, _, rfl⟩ := Option.map_eq_some_iff.mp named
  cases arrival with
  | jump => exact .inl rfl
  | call => exact .inr rfl

theorem leads_of_shown? {i : Nat} {l : Line} {name : String} (stands : Stands lines l.address i l)
    (shown : shown? lines entry l = some name) :
    ∃ t, Leads lines entry i l t ∧ name? lines entry t = some name := by
  by_cases led : ∃ t, Leads lines entry i l t
  · obtain ⟨t, leads⟩ := led
    exact ⟨t, leads, (shown?_of_leads leads).symm.trans shown⟩
  · rw [shown?_eq_none stands led] at shown
    cases shown

/-- Lines without names have exactly the names that labelling gives them. -/
theorem label_of_unnamed (unnamed : ∀ l ∈ lines, l.label = none ∧ l.target = none) {i : Nat} {m : Line}
    (here : (label lines entry)[i]? = some m) :
    ∃ l, lines[i]? = some l ∧ m = { l with label := m.label, target := m.target } ∧
      (∀ name, m.label = some name ↔ Stands lines l.address i l ∧ name? lines entry l.address = some name) ∧
      ∀ name, m.target = some name → Stands lines l.address i l ∧ shown? lines entry l = some name := by
  have inside : i < lines.length := by
    have bound := (List.getElem?_eq_some_iff.mp here).1
    simpa [label] using bound
  have line : lines[i]? = some lines[i] := List.getElem?_eq_getElem inside
  obtain ⟨noLabel, noTarget⟩ := unnamed lines[i] (List.getElem_mem inside)
  obtain ⟨changed, kept⟩ := getElem?_label entry line
  refine ⟨lines[i], line, ?_⟩
  by_cases stands : Stands lines lines[i].address i lines[i]
  · obtain rfl := Option.some.inj (here.symm.trans (changed stands))
    refine ⟨rfl, ?_, ?_⟩
    · intro name
      simp [noLabel, stands]
    · intro name shown
      exact ⟨stands, by simpa [noTarget] using shown⟩
  · obtain rfl := Option.some.inj (here.symm.trans (kept stands))
    refine ⟨rfl, ?_, ?_⟩
    · intro name
      simp [noLabel, stands]
    · intro name shown
      rw [noTarget] at shown
      cases shown

end Labelling

namespace Printout

theorem exists_string_of_mem_data {number : Nat} {segments : List (Address × Data.Segment)} {name : String}
    (member : Row.name name ∈ Data.rows number segments) : ∃ n : Nat, name = "string" ++ Nat.repr n := by
  have values (a : Address) (bytes : List Byte) : Row.name name ∉ Data.valueRows a bytes := by
    fun_induction Data.valueRows a bytes with
    | case1 => simp
    | case2 a bytes some chunk ih => simp [Data.directive, ih]
  induction segments generalizing number with
  | nil => simp [Data.rows] at member
  | cons first segments ih =>
    obtain ⟨a, segment⟩ := first
    rcases List.mem_append.mp member with here | behind
    · cases segment with
      | values bytes => exact absurd here (values a bytes)
      | string characters terminated =>
        refine ⟨number, ?_⟩
        simpa [Data.Segment.rows, Data.directive] using here
    · exact ih behind

/-- A row that names an address belongs to the line that has this name. -/
theorem label_of_mem_block {lines : List Line} {name : String} {t : Address} (named : NamesAddress name t)
    {number i : Nat} {block : List Row} (here : (blocks number lines)[i]? = some block)
    (member : Row.name name ∈ block) : ∃ l, lines[i]? = some l ∧ l.label = some name := by
  induction lines generalizing number i with
  | nil => simp [blocks] at here
  | cons l lines ih =>
    simp only [blocks] at here
    cases i with
    | zero =>
      refine ⟨l, rfl, ?_⟩
      split at here
      · obtain rfl := Option.some.inj here
        obtain ⟨n, same⟩ := exists_string_of_mem_data member
        exact absurd same (named.ne_string n)
      · obtain rfl := Option.some.inj here
        simpa [Line.rows] using member
    | succ i =>
      split at here
      · exact ih here
      · exact ih here

end Printout

/-- Of all rows of a printout one is the name, and it stands before the row of an instruction
    at the address. -/
def DefinedOnce (name : String) (t : Address) (lines : List Line) : Prop :=
  ∃ l ∈ lines, l.data = false ∧ l.address = t ∧ ∃ front back,
    Printout.rows 1 lines = front ++ .name name :: .columns t (rawWords l.bytes) l.text :: back ∧
      .name name ∉ front ∧ .name name ∉ back

/-- A name that one line has, at the address it spells, has one row. -/
theorem definedOnce_of_label {lines : List Line} {name : String} {t : Address} {j : Nat} {l : Line}
    (here : lines[j]? = some l) (code : l.data = false) (place : l.address = t)
    (label : l.label = some name) (named : NamesAddress name t)
    (only : ∀ i m, lines[i]? = some m → m.label = some name → i = j) : DefinedOnce name t lines := by
  have block := Printout.blocks_code code 1 j here
  obtain ⟨inside, row⟩ := List.getElem?_eq_some_iff.mp block
  have split : Printout.blocks 1 lines =
      (Printout.blocks 1 lines).take j ++ l.rows :: (Printout.blocks 1 lines).drop (j + 1) := by
    rw [← row, List.getElem_cons_drop, List.take_append_drop]
  have rows : l.rows = [.name name, .columns t (rawWords l.bytes) l.text] := by
    rw [Line.rows, label, place]
    rfl
  have elsewhere {i : Nat} {rows : List Row} (found : (Printout.blocks 1 lines)[i]? = some rows)
      (member : .name name ∈ rows) : i = j := by
    obtain ⟨m, there, same⟩ := Printout.label_of_mem_block named found member
    exact only i m there same
  refine ⟨l, List.mem_of_getElem? here, code, place, ((Printout.blocks 1 lines).take j).flatten,
    ((Printout.blocks 1 lines).drop (j + 1)).flatten, ?_, ?_, ?_⟩
  · rw [← Printout.flatten_blocks]
    conv_lhs => rw [split, List.flatten_append, List.flatten_cons, rows]
    rfl
  · intro member
    obtain ⟨other, among, inner⟩ := List.mem_flatten.mp member
    obtain ⟨i, found⟩ := List.mem_iff_getElem?.mp among
    have earlier : i < j := by
      have bound := (List.getElem?_eq_some_iff.mp found).1
      rw [List.length_take] at bound
      omega
    rw [List.getElem?_take_of_lt earlier] at found
    have same := elsewhere found inner
    omega
  · intro member
    obtain ⟨other, among, inner⟩ := List.mem_flatten.mp member
    obtain ⟨i, found⟩ := List.mem_iff_getElem?.mp among
    rw [List.getElem?_drop] at found
    have same := elsewhere found inner
    omega

/-! ## Shown addresses -/

/-- A complete instruction shows the address that it leads to. -/
theorem Decoder.showsAddress_of_target (d : Decoder) {window : List Byte} (whole : Whole d.style window)
    {a t : Address} {arrival : Arrival}
    (leads : (d.decode (Cursor.start window a)).instruction.target? = some (t, arrival)) :
    ShowsAddress (d.decode (Cursor.start window a)).instruction.operands t := by
  cases found : Form.select? d.style (leadingWord window) with
  | none =>
    rw [(d.decode_unmatched (c := Cursor.start window a) found).1] at leads
    cases leads
  | some f =>
    have read := (d.decode_matched (c := Cursor.start window a) found).1
    have form : (d.decode (Cursor.start window a)).instruction.form = some f :=
      congrArg Instruction.form read
    by_cases transfer : f ∈ [Form.branch, .decrementBranch, .jmp, .jsr]
    · have room : 2 * (1 + f.extensionWords d.style (leadingWord window)) ≤ window.length := by
        rw [whole, Form.needed, found]
      have agrees := Form.agrees_operands transfer (Form.accepts_of_select? found)
        (Cursor.behind_start a room)
      have operands : (d.decode (Cursor.start window a)).instruction.operands =
          (Reading.ofPieces (f.operands d.style (leadingWord window)) ((Cursor.start window a).skip 1)).text :=
        congrArg Instruction.operands read
      rw [← operands] at agrees
      have known := Instruction.target?_of_agrees form transfer agrees
      rwa [← known, leads] at agrees
    · rw [Instruction.target?_eq_none form transfer] at leads
      cases leads

/-- In the row of an instruction the stretch of the operands that has a character which stands
    nowhere else can be replaced. -/
theorem replaces_row {x : Instruction} (valid : x.valid = true) {c : Char} (digit : hexValue? c = none)
    (blank : c ≠ ' ') (ends : c ≠ '\n') (mnemonic : Lacks c x.mnemonic) {old before after : String}
    (inside : c ∈ old.toList) (front : Lacks c before) (back : Lacks c after) (a : Address)
    (bytes : List Byte) (new : String) :
    Replaces old new
      (Row.columns a (rawWords bytes) { x with operands := before ++ old ++ after }.text).text
      (Row.columns a (rawWords bytes) { x with operands := before ++ new ++ after }.text).text := by
  have gap : ∀ s : String, s.toList.all (· == ' ') = true → Lacks c s := by
    intro s blanks member
    exact blank (by simpa using List.all_eq_true.mp blanks c member)
  have columns (stretch : String) :
      (Row.columns a (rawWords bytes) { x with operands := before ++ stretch ++ after }.text).text =
        (hex .lower 8 a.toNat ++ "  " ++ padRight 24 (rawWords bytes) ++ "  " ++ padRight 8 x.mnemonic ++ " " ++
          before) ++ stretch ++ (after ++ "\n") := by
    simp [Row.text, Instruction.text, valid, String.append_assoc]
  rw [columns, columns]
  refine replaces_of_lacks inside ?_ ?_ new
  · have address := lacks_hex digit .lower 8 a.toNat
    have raw := lacks_padRight blank 24 (ReadBack.lacks_rawWords digit (gap _ rfl) bytes)
    have padded := lacks_padRight blank 8 mnemonic
    simp only [lacks_append]
    exact ⟨⟨⟨⟨⟨⟨address, gap _ rfl⟩, raw⟩, gap _ rfl⟩, padded⟩, gap _ rfl⟩, front⟩
  · rw [lacks_append]
    exact ⟨back, by simpa [Lacks] using ends⟩

/-- A name takes the place of the shown address in a row, and the address the place of the
    name. -/
theorem Decoder.replaces_name (d : Decoder) {c : Cursor} {x : Instruction} (read : x = (d.decode c).instruction)
    (valid : x.valid = true) {t : Address} (shows : ShowsAddress x.operands t) {name : String}
    (named : NamesAddress name t) (a : Address) (bytes : List Byte) :
    let plain := (Row.columns a (rawWords bytes) x.text).text
    let renamed := (Row.columns a (rawWords bytes)
      { x with operands := nameShownAddress x.operands name }.text).text
    Replaces ("$" ++ hex .lower 8 t.toNat) name plain renamed ∧
      Replaces name ("$" ++ hex .lower 8 t.toNat) renamed plain := by
  intro plain renamed
  obtain ⟨before, after, operands, replaced⟩ := shows.nameShownAddress
  have operands : x.operands = before ++ ("$" ++ hex .lower 8 t.toNat) ++ after := by
    rw [operands, ← String.append_assoc]
  have once := shows.count_dollar
  simp only [operands, String.toList_append, List.count_append] at once
  have sign : ("$" : String).toList.count '$' = 1 := rfl
  have front : Lacks '$' before := List.count_eq_zero.mp (by omega)
  have back : Lacks '$' after := List.count_eq_zero.mp (by omega)
  have score : Lacks '_' (before ++ ("$" ++ hex .lower 8 t.toNat) ++ after) := by
    rw [← operands, read]
    exact d.lacks_operands (by decide : isOperandCharacter '_' = false) c
  simp only [lacks_append] at score
  have mnemonic {e : Char} (other : isMnemonicCharacter e = false) : Lacks e x.mnemonic := by
    rw [read]
    exact d.lacks_mnemonic other c
  have unnamed : plain = (Row.columns a (rawWords bytes)
      { x with operands := before ++ ("$" ++ hex .lower 8 t.toNat) ++ after }.text).text := by
    rw [← operands]
  have renamed : renamed = (Row.columns a (rawWords bytes)
      { x with operands := before ++ name ++ after }.text).text := by
    rw [← replaced name]
  rw [unnamed, renamed]
  refine ⟨?_, ?_⟩
  · exact replaces_row valid (by decide) (by decide) (by decide) (mnemonic (by decide))
      (by simp [String.toList_append]) front back a bytes name
  · exact replaces_row valid (by decide) (by decide) (by decide) (mnemonic (by decide))
      named.underscore_mem score.1.1 score.2 a bytes _

/-! ## Labelled listings -/

/-- A name that a line shows has one row, at the line that it leads to. -/
theorem Labelling.definedOnce_of_leads {lines : List Line}
    (unnamed : ∀ l ∈ lines, l.label = none ∧ l.target = none) {entry t : Address} {i : Nat} {l : Line}
    (leads : Leads lines entry i l t) {name : String} (named : name? lines entry t = some name) :
    DefinedOnce name t (label lines entry) := by
  obtain ⟨j, destination, stands⟩ := leads.known
  have there := (getElem?_label entry stands.here).1 (stands.place ▸ stands)
  have spelled := namesAddress_of_name? named
  refine definedOnce_of_label there stands.code stands.place ?_ spelled ?_
  · simp [stands.place, named]
  · intro k m here same
    obtain ⟨other, _, _, label, _⟩ := label_of_unnamed unnamed here
    obtain ⟨stood, called⟩ := (label name).mp same
    obtain rfl := spelled.unique (namesAddress_of_name? called)
    exact (stood.unique stands).1

/-- Labelling changes nothing but names. -/
theorem Labelling.label_same {lines : List Line} (unnamed : ∀ l ∈ lines, l.label = none ∧ l.target = none)
    (entry : Address) :
    List.Forall₂ (fun l m => m = { l with label := m.label, target := m.target }) lines (label lines entry) := by
  refine List.forall₂_iff_get.mpr ⟨by simp [label], ?_⟩
  intro i first second
  obtain ⟨l, here, same, _⟩ := label_of_unnamed unnamed (List.getElem?_eq_getElem second)
  obtain rfl : lines[i] = l := Option.some.inj ((List.getElem?_eq_getElem first).symm.trans here)
  exact same

/-- The row of a labelled instruction line against its row without names, in a listing with
    these labelled lines. -/
structure Line.Renamed (labelled : List Line) (m : Line) (old new : Row) : Prop where
  columns : ∃ text, new = .columns m.address (rawWords m.bytes) text
  label : ∀ name, m.label = some name → NamesAddress name m.address
  untargeted : m.target = none → new = old
  target : ∀ name, m.target = some name → ∃ t, NamesAddress name t ∧ DefinedOnce name t labelled ∧
    Replaces ("$" ++ hex .lower 8 t.toNat) name old.text new.text ∧
    Replaces name ("$" ++ hex .lower 8 t.toNat) new.text old.text

namespace Decoder

variable (d : Decoder) (image : List Byte) (origin entry : Address)

theorem unnamed_listing : ∀ l ∈ (d.listing image origin).lines, l.label = none ∧ l.target = none := by
  intro l member
  have fresh := d.fresh_steps image origin l member
  exact ⟨fresh.label, fresh.target⟩

/-- An instruction line of a listing is renamed by labelling. -/
theorem renamed_of_label {i : Nat} {l m : Line} (place : (d.listing image origin).lines[i]? = some l)
    (here : (Labelling.label (d.listing image origin).lines entry)[i]? = some m) (code : l.data = false) :
    m.Renamed (Labelling.label (d.listing image origin).lines entry)
      (.columns l.address (rawWords l.bytes) l.text) (.columns m.address (rawWords m.bytes) m.text) := by
  have unnamed := d.unnamed_listing image origin
  obtain ⟨other, found, same, label, target⟩ := Labelling.label_of_unnamed unnamed here
  obtain rfl := Option.some.inj (place.symm.trans found)
  have member := List.mem_of_getElem? place
  have untargeted := (unnamed l member).2
  refine ⟨⟨_, rfl⟩, ?_, ?_, ?_⟩
  · intro name labelled
    rw [same]
    exact Labelling.namesAddress_of_name? ((label name).mp labelled).2
  · intro none
    rw [same, none]
    simp [Line.text, untargeted]
  · intro name shows
    obtain ⟨stands, shown⟩ := target name shows
    obtain ⟨t, leads, called⟩ := Labelling.leads_of_shown? stands shown
    have spelled := Labelling.namesAddress_of_name? called
    refine ⟨t, spelled, Labelling.definedOnce_of_leads unnamed leads called, ?_⟩
    obtain ⟨whole, read⟩ := (d.swept image origin).whole_of_code l member code
    obtain ⟨valid, _⟩ := (d.tiling_steps image origin).instruction_of_code l member code
    obtain ⟨arrival, goes⟩ := leads.target
    rw [read] at goes
    have address := d.showsAddress_of_target whole goes
    rw [← read] at address
    have old : l.text = l.instruction.text := by
      rw [Line.text, untargeted]
    have new : m.text = { l.instruction with operands := nameShownAddress l.instruction.operands name }.text := by
      rw [same, shows]
      rfl
    rw [old, new, show m.address = l.address by rw [same], show m.bytes = l.bytes by rw [same]]
    exact d.replaces_name read valid address spelled l.address l.bytes

end Decoder

/-- Labelling only renames. Line by line, data is printed as before; the row of an instruction
    has the name of the line before it, if there is one, in a row with a colon behind the name,
    and is the row without names except that a name may stand in the place of the address that it
    shows. Each of these is defined once. -/
theorem Decoder.labelling_renames (d : Decoder) (image : List Byte) (origin entry : Address) :
    let lines := (d.listing image origin).lines
    let labelled := Labelling.label lines entry
    let plain := Printout.blocks 1 lines
    let named := Printout.blocks 1 labelled
    Printout.text lines = String.join (plain.flatten.map Row.text) ∧
    Printout.text labelled = String.join (named.flatten.map Row.text) ∧
    plain.length = labelled.length ∧ named.length = labelled.length ∧
    ∀ (i : Nat) (m : Line), labelled[i]? = some m →
      (m.data = true → named[i]? = plain[i]?) ∧
      (m.data = false → ∃ old new, plain[i]? = some [old] ∧
        named[i]? = some (m.label.toList.map Row.name ++ [new]) ∧
        named[i]?.map (·.map Row.text) = some (m.label.toList.map (· ++ ":\n") ++ [new.text]) ∧
        m.Renamed labelled old new) := by
  intro lines labelled plain named
  have unnamed := d.unnamed_listing image origin
  have length : lines.length = labelled.length := by
    simp [labelled, Labelling.label]
  refine ⟨?_, ?_, ?_, ?_, ?_⟩
  · rw [Printout.text, Printout.flatten_blocks]
  · rw [Printout.text, Printout.flatten_blocks]
  · rw [Printout.length_blocks, length]
  · rw [Printout.length_blocks]
  · intro i m here
    obtain ⟨l, place, same, _⟩ := Labelling.label_of_unnamed unnamed here
    have kind : l.data = m.data := by rw [same]
    refine ⟨?_, ?_⟩
    · intro data
      exact Printout.blocks_data (Labelling.label_same unnamed entry) (kind.trans data) 1 i place
    · intro code
      have block : named[i]? = some m.rows := Printout.blocks_code code 1 i here
      refine ⟨_, _, ?_, block, ?_, d.renamed_of_label image origin entry place here (kind.trans code)⟩
      · rw [Printout.blocks_code (kind.trans code) 1 i place, Line.rows,
          (unnamed l (List.mem_of_getElem? place)).1]
        rfl
      · rw [block, Line.rows, Option.map_some, List.map_append, List.map_map]
        rfl

/-- Two branches lead to the return at 6, the second as a call. Both show it as a subroutine,
    in the place of the same address, and the name has one row. -/
theorem Decoder.labelling_renames_upgraded :
    let image : List Byte := [0x67, 0x04, 0x61, 0x02, 0x4E, 0x71, 0x4E, 0x75]
    let lines := (({} : Decoder).listing image 0).lines
    let labelled := Labelling.label lines 0
    let plain := Printout.blocks 1 lines
    let named := Printout.blocks 1 labelled
    ∃ first second, labelled[0]? = some first ∧ labelled[1]? = some second ∧
      first.target = some "sub_00000006" ∧ second.target = some "sub_00000006" ∧
      DefinedOnce "sub_00000006" 6 labelled ∧
      named[3]?.map (·.map Row.text) =
        some ["sub_00000006:\n", "00000006  4E75                      RTS       \n"] ∧
      ∃ old new : Row, plain[0]? = some [old] ∧ named[0]? = some [new] ∧
        old.text = "00000000  6704                      BEQ      $00000006\n" ∧
        new.text = "00000000  6704                      BEQ      sub_00000006\n" ∧
        Replaces "$00000006" "sub_00000006" old.text new.text ∧
        Replaces "sub_00000006" "$00000006" new.text old.text := by
  intro image lines labelled plain named
  obtain ⟨first, here, branch⟩ := Option.map_eq_some_iff.mp (by decide +kernel :
    labelled[0]?.map (fun m => (m.data, m.label, m.target)) = some (false, none, some "sub_00000006"))
  obtain ⟨second, behind, call⟩ := Option.map_eq_some_iff.mp (by decide +kernel :
    labelled[1]?.map (·.target) = some (some "sub_00000006"))
  obtain ⟨code, rest⟩ := Prod.mk.inj branch
  obtain ⟨unlabelled, target⟩ := Prod.mk.inj rest
  obtain ⟨_, _, _, _, each⟩ := ({} : Decoder).labelling_renames image 0 0
  obtain ⟨old, new, before, after, _, renamed⟩ := (each 0 first here).2 code
  obtain ⟨t, spelled, once, replaces⟩ := renamed.target _ target
  obtain rfl : t = 6 := spelled.unique (.inr (by decide))
  rw [unlabelled] at after
  have oldText : plain[0]?.map (·.map Row.text) =
      some ["00000000  6704                      BEQ      $00000006\n"] := by
    decide +kernel
  have newText : named[0]?.map (·.map Row.text) =
      some ["00000000  6704                      BEQ      sub_00000006\n"] := by
    decide +kernel
  rw [show plain[0]? = _ from before] at oldText
  rw [show named[0]? = _ from after] at newText
  refine ⟨first, second, here, behind, target, call, once, by decide +kernel, old, new, before, after, ?_, ?_,
    replaces⟩
  · simpa using oldText
  · simpa using newText

end M68k
