import Mathlib
import M68k.Proofs.Handlers

/-!
The search for the form of a word. The word is tried on forms in some order, all of them on one
cursor and with one log at hand, until a form takes it (`Scanning.search`); each form's handler
reads what it needs, and what it has read stays read. Handlers that turn the word down have read
nothing, so the first form that takes the word finds the cursor behind it. In the order of the
catalogue this is decoding, and the log ends with what decoding reports
(`Scanning.run_instruction`).
-/
namespace M68k

/-- What there is to report about the search for the form of a word: the forms that turned it
    down, and then what came of it. -/
def Form.searched (style : Style) (w : Word) (a : Address) : List Event :=
  (rejected style w).map (Event.rejected · w a) ++
    [match select? style w with
      | none => .unmatched w a
      | some f => .decoded f w a]

namespace Decoder

theorem report_append (d : Decoder) (events more : List Event) :
    d.report (events ++ more) = d.report events ++ d.report more :=
  List.filter_append ..

/-- The first word and its address settle what is reported. No fault is: whatever is accepted
    can be written down. -/
theorem decode_events (d : Decoder) (c : Cursor) :
    (d.decode c).events = d.report (Form.searched d.style (leadingWord c.rest) c.address) := by
  unfold decode Form.searched
  rw [← c.readWord_fst]
  cases found : Form.select? d.style c.readWord.1 with
  | none => simp [found, report]
  | some f =>
    have sound := Form.operands_sound (Form.accepts_of_select? found)
    obtain ⟨clean, _⟩ := Reading.ofPieces_sound sound c.readWord.2
    simp [found, clean, report]

/-! ## The log -/

variable (d : Decoder) (asks : Event → Bool)

/-- Hands an entry to the log, which keeps it if its level is enabled. -/
def hand (event : Event) (entries : List Event) : List Event :=
  if event.level.passes d.threshold then entries ++ [event] else entries

/-- Makes an entry. `asks` tells at which entries the level is asked for beforehand, so that nothing
    is handed over if it is not enabled. -/
def tell (event : Event) (entries : List Event) : List Event :=
  if asks event then
    if event.level.passes d.threshold then d.hand event entries else entries
  else d.hand event entries

/-- Asking beforehand or leaving it to the log comes to the same. -/
theorem tell_eq (event : Event) (entries : List Event) :
    d.tell asks event entries = entries ++ d.report [event] := by
  unfold tell hand report
  cases kept : event.level.passes d.threshold with
  | true => cases asks event <;> simp [kept]
  | false => cases asks event <;> simp [kept]

end Decoder

/-! ## The search -/

/-- What a search works on: the cursor that all forms share, and the log. -/
structure Desk where
  cursor : Cursor
  entries : List Event

/-- A search at work. It breaks off if a text is cut outside its bounds. -/
abbrev Scanning := EStateM Abort Desk

namespace Scanning

variable (d : Decoder) (asks : Event → Bool)

/-- Makes an entry, where the log lets it through. -/
def note (event : Event) : Scanning Unit := fun desk =>
  .ok () { desk with entries := d.tell asks event desk.entries }

/-- Reads the instruction word. -/
def word : Scanning Word := fun desk =>
  .ok desk.cursor.readWord.1 { desk with cursor := desk.cursor.readWord.2 }

/-- Lends the cursor to a form's handler and takes it back as the handler leaves it. -/
def offer (f : Form) (w : Word) : Scanning (Option (String × String × Option OperandError)) := fun desk =>
  match (f.handle d.style w).run { cursor := desk.cursor } with
  | .ok (mnemonic, operands) trial =>
    .ok (some (mnemonic, operands, trial.error)) { desk with cursor := trial.cursor }
  | .error .rejected trial => .ok none { desk with cursor := trial.cursor }
  | .error .outOfRange trial => .error .outOfRange { desk with cursor := trial.cursor }

/-- Goes through forms until one takes the word. A form whose bits do not fit is passed over
    without an entry. -/
def search (w : Word) (a : Address) : List Form → Scanning (Option (Form × String × String))
  | [] => return none
  | f :: rest => do
    if w &&& f.entry.mask ≠ f.entry.value then search w a rest
    else match ← offer d f w with
      | none =>
        note d asks (.rejected f w a)
        search w a rest
      | some (mnemonic, operands, error) =>
        if let some fault := error then note d asks (.unrenderable fault f a)
        note d asks (.decoded f w a)
        return some (f, mnemonic, operands)

/-- Reads the instruction at the cursor on the desk, with the forms tried in the given order. -/
def instruction (order : List Form) : Scanning Instruction := do
  let start := (← get).cursor
  let op ← word
  let found ← search d asks op start.address order
  if found.isNone then note d asks (.unmatched op start.address)
  let size := UInt32.ofNat ((← get).cursor.position - start.position)
  match found with
  | none => return { address := start.address, op, size }
  | some (form, mnemonic, operands) =>
    return { address := start.address, op, form := some form, mnemonic, operands, size, valid := true }

variable {d asks} {w : Word} {a : Address} {desk : Desk}

theorem run_note (event : Event) :
    (note d asks event).run desk = .ok () { desk with entries := desk.entries ++ d.report [event] } := by
  simp only [note, EStateM.run, d.tell_eq]

/-- A form that takes the word reads its operand field and notes no error; one that does not
    gives the cursor back as it was. -/
theorem run_offer (f : Form) :
    (offer d f w).run desk =
      if f.accepts d.style w then
        let reading := Reading.ofPieces (f.operands d.style w) desk.cursor
        .ok (some (f.mnemonic d.style w, reading.text, none)) { desk with cursor := reading.cursor }
      else .ok none desk := by
  have handled := f.reads_handle d.style w { cursor := desk.cursor }
  unfold offer
  cases accepted : f.accepts d.style w with
  | true =>
    rw [accepted, if_pos rfl] at handled
    simp only [EStateM.run] at handled ⊢
    rw [handled]
    rfl
  | false =>
    rw [accepted, if_neg Bool.false_ne_true] at handled
    simp only [EStateM.run] at handled ⊢
    rw [handled]
    rfl

/-- The entries of a search among candidates: those that turned the word down, and the one that
    took it. -/
def told (style : Style) (w : Word) (a : Address) (candidates : List Form) : List Event :=
  (candidates.takeWhile (!·.accepts style w)).map (Event.rejected · w a) ++
    (candidates.find? (·.accepts style w)).toList.map (Event.decoded · w a)

theorem told_cons_rejected {f : Form} {style : Style} (rejected : f.accepts style w = false)
    (candidates : List Form) :
    told style w a (f :: candidates) = [.rejected f w a] ++ told style w a candidates := by
  simp [told, rejected]

theorem told_cons_accepted {f : Form} {style : Style} (accepted : f.accepts style w = true)
    (candidates : List Form) : told style w a (f :: candidates) = [.decoded f w a] := by
  simp [told, accepted]

/-- Forms that do not fit leave no entry, forms that turn the word down leave the cursor, and so
    the first candidate that takes the word finds the cursor behind the word. -/
theorem run_search (forms : List Form) :
    let candidates := forms.filter (·.fits w)
    let found := candidates.find? (·.accepts d.style w)
    let reading (f : Form) := Reading.ofPieces (f.operands d.style w) desk.cursor
    (search d asks w a forms).run desk =
      .ok (found.map fun f => (f, f.mnemonic d.style w, (reading f).text))
        { cursor := (found.map fun f => (reading f).cursor).getD desk.cursor
          entries := desk.entries ++ d.report (told d.style w a candidates) } := by
  induction forms generalizing desk with
  | nil =>
    simp only [search, List.filter_nil, List.find?_nil, told, List.takeWhile_nil, List.map_nil, Option.map_none,
      Option.getD_none, Option.toList_none, List.append_nil, Decoder.report]
    rfl
  | cons f rest ih =>
    intro candidates found reading
    by_cases fits : w &&& f.entry.mask = f.entry.value
    · have kept : candidates = f :: rest.filter (·.fits w) := List.filter_cons_of_pos (decide_eq_true fits)
      rw [search, if_neg (not_not.mpr fits)]
      have offered : (offer d f w).run desk = _ := run_offer f
      cases accepted : f.accepts d.style w with
      | true =>
        rw [accepted, if_pos rfl] at offered
        have first : found = some f := by simp only [found, kept, List.find?_cons, accepted]
        rw [run_bind_of_ok offered]
        dsimp only
        rw [run_bind_of_ok (run_note _), first, kept, told_cons_accepted accepted]
        rfl
      | false =>
        rw [accepted, if_neg Bool.false_ne_true] at offered
        have later : found = (rest.filter (·.fits w)).find? (·.accepts d.style w) := by
          simp only [found, kept, List.find?_cons, accepted]
        rw [run_bind_of_ok offered]
        dsimp only
        rw [run_bind_of_ok (run_note _), ih, later, kept, told_cons_rejected accepted, d.report_append]
        simp only [List.append_assoc]
        rfl
    · have passed : candidates = rest.filter (·.fits w) := List.filter_cons_of_neg (by simpa [Form.fits] using fits)
      rw [search, if_pos fits, ih]
      simp only [found, passed]
      rfl

theorem told_of_none {style : Style} (none : Form.select? style w = none) :
    told style w a (Form.matching w) ++ [.unmatched w a] = Form.searched style w a := by
  unfold told Form.searched Form.rejected
  rw [none, ← Form.select?, none]
  simp

theorem told_of_some {style : Style} {f : Form} (found : Form.select? style w = some f) :
    told style w a (Form.matching w) = Form.searched style w a := by
  unfold told Form.searched Form.rejected
  rw [found, ← Form.select?, found]
  simp

theorem run_word : word.run desk =
    .ok desk.cursor.readWord.1 { desk with cursor := desk.cursor.readWord.2 } := rfl

theorem run_get : (get : Scanning Desk).run desk = .ok desk desk := rfl

/-- Forms in any order read what decoding reads, if the first of them that takes the word is the one
    that decoding selects. -/
theorem run_instruction_in {order : List Form} (desk : Desk)
    (same : (order.filter (·.fits desk.cursor.readWord.1)).find? (·.accepts d.style desk.cursor.readWord.1) =
      Form.select? d.style desk.cursor.readWord.1) :
    let op := desk.cursor.readWord.1
    let unmatched := if (Form.select? d.style op).isNone then [.unmatched op desk.cursor.address] else []
    let result := d.decode desk.cursor
    (instruction d asks order).run desk =
      .ok result.instruction
        { cursor := result.cursor
          entries := desk.entries ++
            d.report (told d.style op desk.cursor.address (order.filter (·.fits op)) ++ unmatched) } := by
  intro op unmatched result
  have searched : (search d asks op desk.cursor.address order).run { desk with cursor := desk.cursor.readWord.2 } = _ :=
    run_search order
  rw [same] at searched
  unfold instruction
  rw [run_bind_of_ok run_get, run_bind_of_ok run_word, run_bind_of_ok searched]
  cases found : Form.select? d.style desk.cursor.readWord.1 with
  | none =>
    simp only [Option.map_none, Option.isNone_none, if_true]
    rw [run_bind_of_ok (run_note _), run_bind_of_ok run_get, List.append_assoc, ← d.report_append]
    simp only [result, unmatched, op, Decoder.decode, found]
    rfl
  | some f =>
    simp only [Option.map_some, Option.isNone_some, Bool.false_eq_true, if_false]
    rw [run_bind_of_ok run_get]
    simp only [result, unmatched, op, Decoder.decode, found, Option.isNone_some, Bool.false_eq_true, if_false,
      List.append_nil]
    rfl

/-- Searching the catalogue with one cursor and a log at hand reads what decoding reads and leaves in
    the log what decoding reports. -/
theorem run_instruction :
    let result := d.decode desk.cursor
    (instruction d asks Form.all).run desk =
      .ok result.instruction { cursor := result.cursor, entries := desk.entries ++ result.events } := by
  intro result
  have reported : result.events = _ := d.decode_events desk.cursor
  rw [← desk.cursor.readWord_fst] at reported
  rw [run_instruction_in desk rfl, ← Form.matching, reported]
  cases found : Form.select? d.style desk.cursor.readWord.1 with
  | none => rw [← told_of_none found]; rfl
  | some f => rw [← told_of_some found, Option.isNone_some, if_neg Bool.false_ne_true, List.append_nil]

end Scanning

end M68k
