import Mathlib
import M68k.Proofs.Logging

/-!
The log of a search. Whatever the forms before it have tried, the form that is found is the first
candidate that takes the word, and the log tells of the candidates up to that one and of no
others (`Decoder.log_follows_search`).
-/
namespace M68k

namespace Decoder

variable {d : Decoder} {w : Word} {a : Address}

/-- At the debug level all that a search has to tell is reported. -/
theorem report_searched (debug : d.threshold = some .debug) :
    d.report (Form.searched d.style w a) = Form.searched d.style w a := by
  apply List.filter_eq_self.mpr
  intro event member
  rw [debug]
  rcases List.mem_append.mp member with early | last
  · obtain ⟨f, _, rfl⟩ := List.mem_map.mp early
    rfl
  · obtain rfl := List.mem_singleton.mp last
    cases Form.select? d.style w <;> rfl

/-- The candidates up to the first one that takes the word. -/
theorem searched_of_first {style : Style} {earlier later : List Form} {f : Form}
    (candidates : Form.matching w = earlier ++ f :: later) (rejected : ∀ g ∈ earlier, g.accepts style w = false)
    (accepted : f.accepts style w = true) :
    Form.select? style w = some f ∧
      Form.searched style w a = earlier.map (Event.rejected · w a) ++ [.decoded f w a] := by
  have found : Form.select? style w = some f := by
    refine List.find?_eq_some_iff_append.mpr ⟨accepted, earlier, later, candidates, ?_⟩
    intro g member
    rw [rejected g member]
    rfl
  have before : Form.rejected style w = earlier := by
    rw [Form.rejected, candidates, List.takeWhile_append_of_pos (by simpa using rejected)]
    simp [accepted]
  refine ⟨found, ?_⟩
  rw [Form.searched, found, before]

/-- All the candidates, if none of them takes the word. -/
theorem searched_of_none {style : Style} (rejected : ∀ g ∈ Form.matching w, g.accepts style w = false) :
    Form.select? style w = none ∧
      Form.searched style w a = (Form.matching w).map (Event.rejected · w a) ++ [.unmatched w a] := by
  have none : Form.select? style w = none := by
    apply List.find?_eq_none.mpr
    intro g member
    simp [rejected g member]
  have all : Form.rejected style w = Form.matching w := by
    apply List.takeWhile_eq_self_iff.mpr
    intro g member
    simp [rejected g member]
  refine ⟨none, ?_⟩
  rw [Form.searched, none, all]

/-- Decoding takes the first candidate whose handler takes the word, and at the debug level the log
    tells of the search and of nothing else: one entry for each candidate up to that one, with its
    name, its index, the word as four digits and the address as eight, all but the last of them
    rejections. If no handler takes the word, the log has the rejections of all candidates and a
    warning. This is also what is logged on the way when the handlers share one cursor, and it is
    never an error. -/
theorem log_follows_search (d : Decoder) (c : Cursor) (debug : d.threshold = some .debug) :
    let op := c.readWord.1
    let takes (f : Form) := f.Handles d.style op c.readWord.2
    let result := d.decode c
    let log := result.events.map fun event => (event.level, event.message, event.fields)
    let address := FieldValue.text (Text.hex .upper 8 c.address.toNat)
    let word := FieldValue.text (Text.hex .upper 4 op.toNat)
    let entry (message : String) (f : Form) := (Level.debug, message,
      [("address", address), ("form", .text f.title), ("index", .number f.index), ("word", word)])
    (∀ (asks : Event → Bool) (before : List Event), (Scanning.instruction d asks Form.all).run ⟨c, before⟩ =
      .ok result.instruction ⟨result.cursor, before ++ result.events⟩) ∧
    (∀ event ∈ result.events, event.level ≠ .error) ∧
    ((∃ f ∈ Form.matching op, takes f) → ∃ earlier f later,
      Form.matching op = earlier ++ f :: later ∧ (∀ g ∈ earlier, ¬ takes g) ∧ takes f ∧
        log = earlier.map (entry "candidate rejected") ++ [entry "decoded" f] ∧
        result.instruction.form = some f ∧ result.instruction.valid = true) ∧
    ((∀ f ∈ Form.matching op, ¬ takes f) →
      log = (Form.matching op).map (entry "candidate rejected") ++
          [(.warning, "no instruction form matches", [("address", address), ("word", word)])] ∧
        result.instruction.form = none ∧ result.instruction.valid = false) := by
  intro op takes result log address word entry
  have events : result.events = Form.searched d.style op c.address := by
    have reported := d.decode_events c
    rwa [← c.readWord_fst, report_searched debug] at reported
  have form : result.instruction.form = Form.select? d.style op := by
    simpa only [op, c.readWord_fst] using d.decode_form c
  have valid : result.instruction.valid = (Form.select? d.style op).isSome := by
    simpa only [op, c.readWord_fst] using d.decode_valid c
  refine ⟨fun asks before => Scanning.run_instruction, d.level_ne_error c, ?_, ?_⟩
  · rintro ⟨g, member, taken⟩
    have some : ((Form.matching op).find? (·.accepts d.style op)).isSome = true :=
      List.find?_isSome.mpr ⟨g, member, Form.handles_iff.mp taken⟩
    -- The first of the candidates that take the word splits the list of candidates.
    obtain ⟨f, found⟩ := Option.isSome_iff_exists.mp some
    obtain ⟨accepted, earlier, later, candidates, rejected⟩ := List.find?_eq_some_iff_append.mp found
    have refused : ∀ g ∈ earlier, g.accepts d.style op = false := by simpa using rejected
    obtain ⟨selected, told⟩ := searched_of_first (a := c.address) candidates refused accepted
    refine ⟨earlier, f, later, candidates, ?_, Form.handles_iff.mpr accepted, ?_, ?_, ?_⟩
    · intro g before handled
      have accepting := Form.handles_iff.mp handled
      rw [refused g before] at accepting
      cases accepting
    · simp only [log, events, told, List.map_append, List.map_map]
      rfl
    · rw [form, selected]
    · rw [valid, selected]
      rfl
  · intro none
    have refused : ∀ g ∈ Form.matching op, g.accepts d.style op = false := by
      intro g member
      exact Bool.eq_false_of_not_eq_true fun accepted => none g member (Form.handles_iff.mpr accepted)
    obtain ⟨unmatched, told⟩ := searched_of_none (a := c.address) refused
    refine ⟨?_, ?_, ?_⟩
    · simp only [log, events, told, List.map_append, List.map_map]
      rfl
    · rw [form, unmatched]
    · rw [valid, unmatched]
      rfl

/-- The word 4842 has the bits of PEA and of SWAP, and only SWAP takes it. The word C1C8 has the bits of
    AND, EXG and MULS, and none of them takes it. -/
theorem log_follows_search_swap :
    let classic : Decoder := { threshold := some .debug }
    let corrected : Decoder := { style := .corrected, threshold := some .debug }
    let log (result : Decoded) := result.events.map fun event => (event.level, event.message, event.fields)
    let entry (message form : String) (index : Nat) (word : String) := (Level.debug, message,
      [("address", FieldValue.text "00001000"), ("form", .text form), ("index", .number index), ("word", .text word)])
    Form.swap.Handles .classic 0x4842 (Cursor.start [0x48, 0x42] 0x1000).readWord.2 ∧
      log (classic.decode (Cursor.start [0x48, 0x42] 0x1000)) =
        [entry "candidate rejected" "PEA" 61 "4842", entry "decoded" "SWAP" 82 "4842"] ∧
      ¬ Form.muls.Handles .corrected 0xC1C8 (Cursor.start [0xC1, 0xC8] 0x1000).readWord.2 ∧
      log (corrected.decode (Cursor.start [0xC1, 0xC8] 0x1000)) =
        [entry "candidate rejected" "AND" 7 "C1C8", entry "candidate rejected" "EXG" 33 "C1C8",
          entry "candidate rejected" "MULS" 52 "C1C8",
          (.warning, "no instruction form matches", [("address", .text "00001000"), ("word", .text "C1C8")])] := by
  intro classic corrected log entry
  obtain ⟨_, _, accepted, _⟩ := log_follows_search classic (Cursor.start [0x48, 0x42] 0x1000) rfl
  obtain ⟨_, _, _, refused⟩ := log_follows_search corrected (Cursor.start [0xC1, 0xC8] 0x1000) rfl
  have swap : Form.swap.Handles .classic 0x4842 (Cursor.start [0x48, 0x42] 0x1000).readWord.2 :=
    Form.handles_iff.mpr (by decide)
  have none : ∀ f ∈ [Form.and, .exg, .muls],
      ¬ f.Handles .corrected 0xC1C8 (Cursor.start [0xC1, 0xC8] 0x1000).readWord.2 := by
    have each : ∀ f ∈ [Form.and, .exg, .muls], ¬ f.accepts .corrected 0xC1C8 = true := by decide
    exact fun f member handled => each f member (Form.handles_iff.mp handled)
  have first : Form.matching 0x4842 = [.pea, .swap] := by decide +kernel
  have second : Form.matching 0xC1C8 = [.and, .exg, .muls] := by decide +kernel
  refine ⟨swap, ?_, none .muls (by decide), (refused (second ▸ none)).1.trans (second ▸ rfl)⟩
  obtain ⟨earlier, f, later, split, _, taken, told, _⟩ := accepted ⟨.swap, by decide +kernel, swap⟩
  replace split : [Form.pea, .swap] = earlier ++ f :: later := first.symm.trans split
  rcases earlier with _ | ⟨g, _ | ⟨h, earlier⟩⟩
  · obtain ⟨rfl, _⟩ := List.cons.inj split
    exact absurd (Form.handles_iff.mp taken) (by decide)
  · obtain ⟨rfl, rest⟩ := List.cons.inj split
    obtain ⟨rfl, _⟩ := List.cons.inj rest
    exact told
  · simp at split

end Decoder
end M68k
