import Mathlib
import M68k.Printout
import M68k.Proofs.Rejections

/-!
Levels only filter. A threshold has no say in what is read, and what is reported under it is what
is reported under the lowest one, less the events that it does not let through
(`Decoder.decode_under`, `Decoder.listing_under`). The same holds of a log that is written entry
by entry while the search goes on, wherever the level is asked for before an entry is made and
wherever it is not (`Decoder.run_listingLogged`).
-/
namespace M68k

theorem Level.passes_trace (level : Level) : level.passes (some .trace) = true := by
  cases level <;> rfl

namespace Decoder

/-- The decoder with another threshold. -/
def under (d : Decoder) (threshold : Option Level) : Decoder := { d with threshold }

@[simp] theorem style_under (d : Decoder) (t : Option Level) : (d.under t).style = d.style := rfl

/-- Under the lowest threshold everything is reported. -/
theorem report_trace (d : Decoder) (events : List Event) : (d.under (some .trace)).report events = events := by
  apply List.filter_eq_self.mpr
  intro event _
  exact event.level.passes_trace

/-- A threshold takes from a reading the events that it does not let through, and nothing else. -/
theorem decode_under (d : Decoder) (t : Option Level) (c : Cursor) :
    (d.under t).decode c =
      { d.under (some .trace) |>.decode c with
        events := (d.under t).report ((d.under (some .trace)).decode c).events } := by
  unfold decode
  simp only [style_under, report_trace]
  cases Form.select? d.style c.readWord.1 with
  | none => simp only [report_append]
  | some f => simp only [report_append]

end Decoder

namespace Step

/-- The step with the events that a decoder reports. -/
def reportedBy (s : Step) (d : Decoder) : Step :=
  match s with
  | .instruction i bytes events => .instruction i bytes (d.report events)
  | .data address bytes events => .data address bytes (d.report events)

/-- What is reported has no say in the lines. -/
theorem prepend_events (a : Address) (bytes : List Byte) (events more : List Event) (lines : List Line) :
    (Step.data a bytes events).prepend lines = (Step.data a bytes more).prepend lines := by
  cases lines <;> rfl

theorem prepend_reportedBy (s : Step) (d : Decoder) (lines : List Line) :
    (s.reportedBy d).prepend lines = s.prepend lines := by
  cases s with
  | instruction i bytes events => rfl
  | data a bytes events => exact prepend_events a bytes _ _ lines

theorem events_reportedBy (s : Step) (d : Decoder) : (s.reportedBy d).events = d.report s.events := by
  cases s <;> rfl

end Step

namespace Decoder

/-- A sweep takes the same steps under every threshold. -/
theorem steps_under (d : Decoder) (t : Option Level) (image : List Byte) (a : Address) :
    (d.under t).steps image a =
      ((d.under (some .trace)).steps image a).map (·.reportedBy (d.under t)) := by
  fun_induction Decoder.steps (d.under (some .trace)) image a with
  | case1 a => rw [steps]; rfl
  | case2 a b => rw [steps]; rfl
  | case3 a high low rest result complete extension ih =>
    simp only [result] at complete
    rw [steps, decode_under]
    simp only [complete, if_true, List.map_cons, ← ih]
    rfl
  | case4 a high low rest result incomplete truncation ih =>
    simp only [result] at incomplete
    have behind : (d.under t).report truncation = if result.cursor.overflow then
        (d.under t).report [.truncated result.instruction.form a] else [] := by
      simp only [truncation]
      split
      · rw [report_trace]
      · rfl
    rw [steps, decode_under]
    simp only [incomplete, Bool.false_eq_true, if_false, List.map_cons, ← ih]
    simp only [Step.reportedBy, report_append, behind]
    rfl

/-- A threshold takes from a listing the events that it does not let through, and nothing else. -/
theorem listing_under (d : Decoder) (t : Option Level) (image : List Byte) (origin : Address) :
    (d.under t).listing image origin =
      { lines := ((d.under (some .trace)).listing image origin).lines
        events := (d.under t).report ((d.under (some .trace)).listing image origin).events } := by
  simp only [listing, steps_under d t, List.foldr_map, Step.prepend_reportedBy, List.flatMap_map,
    Step.events_reportedBy]
  rw [report, List.filter_flatMap]
  rfl

theorem printout_under (d : Decoder) (t : Option Level) (image : List Byte) (origin : Address) (labels : Bool) :
    (d.under t).printout image origin labels =
      (((d.under (some .trace)).printout image origin labels).1,
        (d.under t).report ((d.under (some .trace)).printout image origin labels).2) := by
  simp only [printout, listing_under d t]

/-- Nothing is reported without a threshold. -/
theorem report_none (d : Decoder) (events : List Event) : (d.under none).report events = [] := by
  apply List.filter_eq_nil_iff.mpr
  intro event _
  exact Bool.false_ne_true

/-- No listing reports an error: what is accepted can be written down. -/
theorem level_listing (d : Decoder) (image : List Byte) (origin : Address) :
    ∀ event ∈ (d.listing image origin).events, event.level ≠ .error := by
  suffices each : ∀ s ∈ d.steps image origin, ∀ event ∈ s.events, event.level ≠ .error by
    intro event member
    obtain ⟨s, step, inside⟩ := List.mem_flatMap.mp member
    exact each s step event inside
  fun_induction Decoder.steps d image origin with
  | case1 a => simp
  | case2 a b => simp [Step.events]
  | case3 a high low rest result complete extension ih =>
    exact List.forall_mem_cons.mpr ⟨d.level_ne_error _, ih⟩
  | case4 a high low rest result incomplete truncation ih =>
    refine List.forall_mem_cons.mpr ⟨?_, ih⟩
    intro event member
    rcases List.mem_append.mp member with decoding | cut
    · exact d.level_ne_error _ event decoding
    · simp only [truncation] at cut
      split at cut
      · obtain rfl := List.mem_singleton.mp (List.mem_of_mem_filter cut)
        simp [Event.level]
      · cases cut

end Decoder

/-! ## A log written on the way -/

/-- Reading with a log at hand. It breaks off where a search does. -/
abbrev Logged := EStateM Abort (List Event)

namespace Decoder

variable (d : Decoder) (asks : Event → Bool)

/-- Makes an entry, where the log lets it through. -/
def logged (event : Event) : Logged Unit := fun entries => .ok () (d.tell asks event entries)

/-- Reads the instruction at a cursor by searching the catalogue with the log at hand. -/
def decodeLogged (c : Cursor) : Logged (Instruction × Cursor) := fun entries =>
  match (Scanning.instruction d asks Form.all).run ⟨c, entries⟩ with
  | .ok i desk => .ok (i, desk.cursor) desk.entries
  | .error abort desk => .error abort desk.entries

/-- Lists an image with a log at hand. -/
def listingLogged (image : List Byte) (a : Address) : Logged (List Line) :=
  match image with
  | [] => return []
  | [b] => return (Step.data a [b] []).prepend []
  | high :: low :: rest => do
    let (i, c) ← d.decodeLogged asks (Cursor.start (high :: low :: rest) a)
    if i.valid && !c.overflow then
      let extension := i.size.toNat - 2
      let lines ← listingLogged (rest.drop extension) (a.advance (2 + extension))
      return (Step.instruction i (high :: low :: rest.take extension) []).prepend lines
    else
      if c.overflow then d.logged asks (.truncated i.form a)
      let lines ← listingLogged rest (a + 2)
      return (Step.data a [high, low] []).prepend lines
termination_by image.length

variable {d asks}

theorem run_logged (event : Event) (entries : List Event) :
    (d.logged asks event).run entries = .ok () (entries ++ d.report [event]) := by
  simp only [logged, EStateM.run, d.tell_eq]

/-- Reading with a log at hand reads what reading without one reads, and the log ends with what is
    reported. -/
theorem run_decodeLogged (c : Cursor) (entries : List Event) :
    (d.decodeLogged asks c).run entries =
      .ok ((d.decode c).instruction, (d.decode c).cursor) (entries ++ (d.decode c).events) := by
  have searched : (Scanning.instruction d asks Form.all).run ⟨c, entries⟩ = _ := Scanning.run_instruction
  simp only [EStateM.run] at searched
  simp only [decodeLogged, EStateM.run, searched]

/-- Listing with a log at hand gives the lines, and the log ends with what is reported. -/
theorem run_listingLogged (image : List Byte) (a : Address) (entries : List Event) :
    (d.listingLogged asks image a).run entries =
      .ok (d.listing image a).lines (entries ++ (d.listing image a).events) := by
  show _ = EStateM.Result.ok ((d.steps image a).foldr Step.prepend [])
    (entries ++ (d.steps image a).flatMap Step.events)
  fun_induction Decoder.steps d image a generalizing entries with
  | case1 a =>
    rw [listingLogged, List.flatMap_nil, List.append_nil]
    rfl
  | case2 a b =>
    rw [listingLogged, List.flatMap_singleton, Step.events, List.append_nil]
    rfl
  | case3 a high low rest result complete extension ih =>
    simp only [result] at complete
    rw [listingLogged, run_bind_of_ok (run_decodeLogged ..)]
    simp only [complete, if_true]
    rw [run_bind_of_ok (ih _), List.flatMap_cons, ← List.append_assoc]
    rfl
  | case4 a high low rest result incomplete truncation ih =>
    simp only [result] at incomplete
    rw [listingLogged, run_bind_of_ok (run_decodeLogged ..)]
    simp only [incomplete, Bool.false_eq_true, if_false]
    have lines := Step.prepend_events a [high, low] (result.events ++ truncation) []
    rw [List.foldr_cons, List.flatMap_cons, lines]
    by_cases cut : (d.decode (Cursor.start (high :: low :: rest) a)).cursor.overflow = true
    · have told : truncation = d.report [.truncated result.instruction.form a] := dif_pos cut
      rw [if_pos cut, run_bind_of_ok (run_logged ..), run_bind_of_ok (ih _), Step.events, told]
      simp only [List.append_assoc]
      rfl
    · have silent : truncation = [] := dif_neg cut
      rw [if_neg cut, run_bind_of_ok (ih _), Step.events, silent, List.append_nil, ← List.append_assoc]
      rfl

/-- What is read does not depend on the threshold, and what is reported under one is what is reported
    under the lowest one, less what is not as severe. A log that is written on the way ends with
    the same entries, wherever the level is asked for beforehand. -/
structure LevelsOnlyFilter (d : Decoder) : Prop where
  reading : ∀ (s t : Option Level) (c : Cursor),
    ((d.under s).decode c).instruction = ((d.under t).decode c).instruction ∧
      ((d.under s).decode c).cursor = ((d.under t).decode c).cursor
  lines : ∀ (s t : Option Level) (image : List Byte) (origin : Address),
    ((d.under s).listing image origin).lines = ((d.under t).listing image origin).lines
  entries : ∀ (level : Level) (c : Cursor),
    ((d.under (some level)).decode c).events =
      ((d.under (some .trace)).decode c).events.filter (·.level.rank ≤ level.rank)
  listed : ∀ (level : Level) (image : List Byte) (origin : Address),
    ((d.under (some level)).listing image origin).events =
      ((d.under (some .trace)).listing image origin).events.filter (·.level.rank ≤ level.rank)
  silent : ∀ (c : Cursor) (image : List Byte) (origin : Address),
    ((d.under none).decode c).events = [] ∧ ((d.under none).listing image origin).events = []
  told : ∀ (t : Option Level) (asks : Event → Bool) (c : Cursor) (before : List Event),
    let result := (d.under t).decode c
    ((d.under t).decodeLogged asks c).run before =
      .ok (result.instruction, result.cursor) (before ++ result.events)
  toldOfAll : ∀ (t : Option Level) (asks : Event → Bool) (image : List Byte) (origin : Address) (before : List Event),
    let result := (d.under t).listing image origin
    ((d.under t).listingLogged asks image origin).run before = .ok result.lines (before ++ result.events)

theorem levelsOnlyFilter (d : Decoder) : d.LevelsOnlyFilter where
  reading s t c := by
    rw [decode_under d s, decode_under d t]
    exact ⟨rfl, rfl⟩
  lines s t image origin := by
    rw [listing_under d s, listing_under d t]
  entries level c := by
    rw [decode_under d (some level)]
    rfl
  listed level image origin := by
    rw [listing_under d (some level)]
    rfl
  silent c image origin := by
    rw [decode_under d none, listing_under d none]
    exact ⟨d.report_none _, d.report_none _⟩
  told t asks c before := run_decodeLogged c before
  toldOfAll t asks image origin before := run_listingLogged image origin before

end Decoder
end M68k
