import Mathlib
import M68k.CommandLine.Run
import M68k.Proofs.Columns
import M68k.Proofs.Logging

/-!
Runs of the program in a directory, step by step, and how far a run depends on being verbose: its
status, its output and its files do not, and of the log the quiet run has the warnings.
-/
namespace M68k.CommandLine

open Text (Lacks lacks_append lacks_hex hexValue?_newline)

/-! ## The log as text -/

theorem lacks_letterEscape {c : Char} {escape : String} (known : Text.letterEscape? c = some escape) :
    Lacks '\n' escape := by
  unfold Text.letterEscape? at known
  split at known
  all_goals cases known
  all_goals decide

theorem lacks_quotedChar (c : Char) : Lacks '\n' (Text.quotedChar c) := by
  unfold Text.quotedChar
  split
  · rename_i escape known
    exact lacks_letterEscape known
  · rename_i unknown
    have other : '\n' ≠ c := by
      rintro rfl
      cases unknown
    split
    · simpa [Lacks] using other
    · split_ifs
      all_goals exact lacks_append.mpr ⟨by decide, lacks_hex hexValue?_newline _ _ _⟩

/-- Quoted text stays on its line. -/
theorem lacks_quoted (s : String) : Lacks '\n' (Text.quoted s) := by
  have inside : Lacks '\n' (String.join (s.toList.map Text.quotedChar)) := by
    apply Text.lacks_join
    intro part member
    obtain ⟨c, _, rfl⟩ := List.mem_map.mp member
    exact lacks_quotedChar c
  exact lacks_append.mpr ⟨lacks_append.mpr ⟨by decide, inside⟩, by decide⟩

namespace Log

theorem lacks_value (s : String) : Lacks '\n' (value s) := by
  unfold value
  split
  · rename_i bare
    intro member
    have newline := List.all_eq_true.mp bare _ member
    revert newline
    decide
  · exact lacks_quoted s

theorem lacks_fieldValue (v : FieldValue) : Lacks '\n' (fieldValue v) := by
  cases v with
  | text s => exact lacks_value s
  | number n => exact Text.lacks_repr (by decide) n

theorem lacks_fieldName (event : Event) : ∀ field ∈ event.fields, Lacks '\n' field.1 := by
  cases event <;> simp +decide [Event.fields, Event.candidateFields]

/-- What stands in a line between its level and its end. -/
def body (event : Event) : String :=
  "msg=" ++ value event.message ++
    String.join (event.fields.map fun (name, v) => " " ++ name ++ "=" ++ fieldValue v)

theorem line_eq (event : Event) :
    line event = "level=" ++ event.level.name ++ " " ++ body event ++ "\n" := by
  simp only [line, body, String.append_assoc]
  rfl

theorem lacks_body (event : Event) : Lacks '\n' (body event) := by
  refine lacks_append.mpr ⟨lacks_append.mpr ⟨by decide, lacks_value _⟩, Text.lacks_join ?_⟩
  intro part member
  obtain ⟨⟨name, v⟩, field, rfl⟩ := List.mem_map.mp member
  have plain := lacks_fieldName event _ field
  simp +decide [plain, lacks_fieldValue]

/-- The characters of a line in front of its end. -/
def row (event : Event) : List Char :=
  "level=".toList ++ event.level.name.toList ++ ' ' :: (body event).toList

theorem toList_line (event : Event) : (line event).toList = row event ++ ['\n'] := by
  -- Stating the equation of a row would evaluate the characters of its literal.
  delta row
  simp [line_eq, String.toList_append]

theorem newline_not_mem_row (event : Event) : '\n' ∉ row event := by
  have level : Lacks '\n' event.level.name := by cases event.level <;> decide
  have start : Lacks '\n' "level=" := by decide
  delta row
  simp only [List.mem_append, List.mem_cons, not_or]
  exact ⟨⟨start, level⟩, by decide, lacks_body event⟩

/-- The text of events has a row for each. -/
theorem rowsOf_text (events : List Event) : ReadBack.rowsOf (text events) = events.map row := by
  induction events with
  | nil => exact ReadBack.rowsOf_empty
  | cons event events ih =>
    simp only [text, List.map_cons, String.join_cons]
    rw [ReadBack.rowsOf_append (toList_line event) (newline_not_mem_row event), ← text, ih]

/-- Whether a row tells of a warning. -/
def isWarning (row : List Char) : Bool := "level=warning ".toList.isPrefixOf row

theorem isWarning_row (event : Event) : isWarning (row event) = decide (event.level = .warning) := by
  delta isWarning row
  cases event.level with
  | warning => rfl
  | _ => rfl

theorem rowsOf_warnings (events : List Event) :
    ReadBack.rowsOf (text (events.filter (·.level = .warning))) =
      (ReadBack.rowsOf (text events)).filter isWarning := by
  rw [rowsOf_text, rowsOf_text, List.filter_map]
  congr 2
  funext event
  exact (isWarning_row event).symm

end Log

/-! ## Runs in a directory -/

/-- A run on the files of a directory: how it ends, and the directory behind it. -/
def runIn (directory : Directory) (arguments : List String) : Outcome × Directory :=
  Id.run ((run Directory.fileSystem arguments).run directory)

/-- Lists a file of a directory. -/
def listIn (directory : Directory) (options : Options) (input : String) : Report × Directory :=
  Id.run ((list Directory.fileSystem options input).run directory)

/-- What a run that fails leaves behind. -/
def Failure.report (failure : Failure) (log : List Event) : Report :=
  { status := 1, stdout := "", stderr := Log.text log ++ errorText failure.message }

namespace Options

/-- The style that options ask for. -/
def style (o : Options) : Style := if o.fix then .corrected else .classic

/-- The output file, the empty name standing for standard output. -/
def outputName (o : Options) : String := o.output.getD ""

/-- The listing of an image that options ask for. -/
def listing (o : Options) (image : List Byte) (origin : Address) : String :=
  (({ style := o.style } : Decoder).printout image origin o.labels).1

/-- All that there is to report of a run that reads an image. -/
def told (o : Options) (input : String) (image : List Byte) (origin : Address) : List Event :=
  .started input image.length origin ::
    (({ style := o.style, threshold := some .trace } : Decoder).printout image origin o.labels).2

theorem printout_decoder (o : Options) (image : List Byte) (origin : Address) :
    o.decoder.printout image origin o.labels =
      (o.listing image origin,
        o.decoder.report (({ style := o.style, threshold := some .trace } : Decoder).printout image origin
          o.labels).2) := by
  have quiet := ({ style := o.style } : Decoder).printout_under none image origin o.labels
  have heard := ({ style := o.style } : Decoder).printout_under o.decoder.threshold image origin o.labels
  refine heard.trans (Prod.ext ?_ rfl)
  exact (congrArg Prod.fst quiet).symm

end Options

section Endings

variable {directory : Directory} (options : Options) {input : String} {origin : Address} {image : List Byte}

theorem listIn_of_origin {error : OriginError} (bad : Origin.parse options.origin = .error error) :
    listIn directory options input = (Failure.report (.origin options.origin error) [], directory) := by
  simp only [listIn, list, bad]
  rfl

theorem run_read (directory : Directory) (name : String) :
    (Directory.fileSystem.read name).run directory = (directory.read name, directory) := rfl

theorem run_write (directory : Directory) (name text : String) :
    (Directory.fileSystem.write name text).run directory =
      match directory.write name text with
      | .error fault => (.error fault, directory)
      | .ok after => (.ok (), after) := by
  simp only [Directory.fileSystem]
  rw [run_bind_of_run (show (get : StateM Directory Directory).run directory = (directory, directory) from rfl)]
  cases directory.write name text <;> rfl

variable (number : Origin.parse options.origin = .ok origin)
include number

theorem listIn_of_input {error : FileError} (unreadable : directory.read input = .error error) :
    listIn directory options input = (Failure.report (.input input error) [], directory) := by
  simp only [listIn, list, number]
  rw [run_bind_of_run (run_read directory input), unreadable]
  rfl

/-- Behind a file that was read there is the listing, and only its way out can fail. -/
theorem listIn_of_image (readable : directory.read input = .ok image) :
    listIn directory options input =
      let stderr := Log.text (options.decoder.report (options.told input image origin))
      if options.outputName = "" then
        ({ status := 0, stdout := options.listing image origin, stderr }, directory)
      else match directory.write options.outputName (options.listing image origin) with
        | .error error =>
          (Failure.report (.output options.outputName error)
            (options.decoder.report [.started input image.length origin]), directory)
        | .ok after =>
          ({ status := 0, stdout := "Disassembly written to " ++ options.outputName ++ "\n", stderr }, after) := by
  have log : options.decoder.report (options.told input image origin) = _ :=
    options.decoder.report_append [.started input image.length origin] _
  simp only [listIn, list, number]
  rw [run_bind_of_run (run_read directory input), readable]
  simp only [options.printout_decoder, ← log]
  by_cases unnamed : options.output.getD "" = ""
  · simp only [Options.outputName, unnamed, if_true]
    rfl
  · simp only [Options.outputName, unnamed, if_false]
    have writing := run_write directory (options.output.getD "") (options.listing image origin)
    cases written : directory.write (options.output.getD "") (options.listing image origin) with
    | error fault =>
      rw [written] at writing
      rw [run_bind_of_run writing]
      rfl
    | ok after =>
      rw [written] at writing
      rw [run_bind_of_run writing]
      rfl

variable (readable : directory.read input = .ok image)
include readable

theorem listIn_printed (unnamed : options.outputName = "") :
    listIn directory options input =
      ({ status := 0, stdout := options.listing image origin
         stderr := Log.text (options.decoder.report (options.told input image origin)) }, directory) := by
  rw [listIn_of_image options number readable]
  exact if_pos unnamed

variable (named : options.outputName ≠ "")
include named

theorem listIn_refused {fault : FileError}
    (refused : directory.write options.outputName (options.listing image origin) = .error fault) :
    listIn directory options input =
      (Failure.report (.output options.outputName fault)
        (options.decoder.report [.started input image.length origin]), directory) := by
  rw [listIn_of_image options number readable]
  simp only [named, if_false, refused]

theorem listIn_written {after : Directory}
    (written : directory.write options.outputName (options.listing image origin) = .ok after) :
    listIn directory options input =
      ({ status := 0, stdout := "Disassembly written to " ++ options.outputName ++ "\n"
         stderr := Log.text (options.decoder.report (options.told input image origin)) }, after) := by
  rw [listIn_of_image options number readable]
  simp only [named, if_false, written]

end Endings

theorem runIn_of_options {arguments : List String} {options : Options} (parsed : parse arguments = .ok options)
    (directory : Directory) :
    runIn directory arguments =
      match options.input with
      | none => (.finished { status := 1, stdout := "", stderr := usage }, directory)
      | some input => (.finished (listIn directory options input).1, (listIn directory options input).2) := by
  unfold runIn run
  rw [parsed]
  simp only
  cases options.input <;> rfl

/-! ## Verbose and quiet runs -/

/-- Every event can be heard in a verbose run. -/
theorem report_verbose (options : Options) (events : List Event) :
    { options with verbose := true }.decoder.report events = events := by
  apply List.filter_eq_self.mpr
  intro event _
  cases event <;> rfl

/-- Of events that are no errors the warnings can be heard in a quiet run. -/
theorem report_quiet (options : Options) {events : List Event} (harmless : ∀ event ∈ events, event.level ≠ .error) :
    { options with verbose := false }.decoder.report events = events.filter (·.level = .warning) := by
  apply List.filter_congr
  intro event member
  have other := harmless event member
  show event.level.passes (some .warning) = decide (event.level = .warning)
  revert other
  cases event.level <;> decide

theorem told_harmless (options : Options) (input : String) (image : List Byte) (origin : Address) :
    ∀ event ∈ options.told input image origin, event.level ≠ .error := by
  refine List.forall_mem_cons.mpr ⟨by simp [Event.level], ?_⟩
  exact Decoder.level_listing _ image origin

/-- Two runs that differ in their logs only: of the entries that one of them makes the quiet one has
    the warnings, and of its rows those that tell of a warning. -/
def QuietOf (quiet verbose : Outcome × Directory) : Prop :=
  quiet.2 = verbose.2 ∧ ∃ (status : Nat) (stdout error : String) (log : List Event),
    let warnings := log.filter (·.level = .warning)
    verbose.1 = .finished { status, stdout, stderr := Log.text log ++ error } ∧
      quiet.1 = .finished { status, stdout, stderr := Log.text warnings ++ error } ∧
      (status = 0 → error = "") ∧
      ReadBack.rowsOf (Log.text warnings) = (ReadBack.rowsOf (Log.text log)).filter Log.isWarning

theorem quietOf_log (status : Nat) (stdout error : String) (log : List Event) (directory : Directory)
    (plain : status = 0 → error = "") :
    QuietOf (.finished { status, stdout, stderr := Log.text (log.filter (·.level = .warning)) ++ error }, directory)
      (.finished { status, stdout, stderr := Log.text log ++ error }, directory) :=
  ⟨rfl, status, stdout, error, log, rfl, rfl, plain, Log.rowsOf_warnings log⟩

/-- A run that succeeds has nothing but its log on the error output. -/
theorem quietOf_done (stdout : String) (log : List Event) (directory : Directory) :
    QuietOf (.finished { status := 0, stdout, stderr := Log.text (log.filter (·.level = .warning)) }, directory)
      (.finished { status := 0, stdout, stderr := Log.text log }, directory) := by
  have done := quietOf_log 0 stdout "" log directory (fun _ => rfl)
  rwa [String.append_empty, String.append_empty] at done

/-- A run without a log is as quiet as it can be. -/
theorem quietOf_self (report : Report) (directory : Directory) (plain : report.status = 0 → report.stderr = "") :
    QuietOf (.finished report, directory) (.finished report, directory) := by
  have silent : Log.text [] ++ report.stderr = report.stderr := String.empty_append
  have same := quietOf_log report.status report.stdout report.stderr [] directory plain
  rwa [List.filter_nil, silent] at same

/-- Listing a file verbosely or quietly comes to the same, the log apart. -/
theorem quietOf_listIn (directory : Directory) (options : Options) (input : String) :
    let quiet := listIn directory { options with verbose := false } input
    let verbose := listIn directory { options with verbose := true } input
    QuietOf (.finished quiet.1, quiet.2) (.finished verbose.1, verbose.2) := by
  simp only
  cases number : Origin.parse options.origin with
  | error fault =>
    rw [listIn_of_origin { options with verbose := false } number,
      listIn_of_origin { options with verbose := true } number]
    exact quietOf_self _ directory (by simp [Failure.report])
  | ok origin =>
    cases readable : directory.read input with
    | error fault =>
      rw [listIn_of_input { options with verbose := false } number readable,
        listIn_of_input { options with verbose := true } number readable]
      exact quietOf_self _ directory (by simp [Failure.report])
    | ok image =>
      by_cases unnamed : options.outputName = ""
      · rw [listIn_printed { options with verbose := false } number readable unnamed,
          listIn_printed { options with verbose := true } number readable unnamed,
          report_quiet options (told_harmless _ input image origin), report_verbose]
        exact quietOf_done _ _ directory
      · cases written : directory.write options.outputName (options.listing image origin) with
        | error fault =>
          rw [listIn_refused { options with verbose := false } number readable unnamed written,
            listIn_refused { options with verbose := true } number readable unnamed written,
            report_quiet options (by simp [Event.level]), report_verbose]
          exact quietOf_log 1 "" _ _ directory (by simp)
        | ok after =>
          rw [listIn_written { options with verbose := false } number readable unnamed written,
            listIn_written { options with verbose := true } number readable unnamed written,
            report_quiet options (told_harmless _ input image origin), report_verbose]
          exact quietOf_done _ _ after

/-- Logging never influences results, and levels only filter. Under every threshold the same is read
    and listed, and what is reported is what is severe enough of all there is to report. Two runs
    that differ in being verbose leave the same status, output and files, and the quiet one has the
    warnings of the verbose one's log. -/
theorem verbosity_only_filters :
    (∀ d : Decoder, d.LevelsOnlyFilter) ∧
    ∀ (directory : Directory) (quietly verbosely : List String) (options : Options),
      parse quietly = .ok { options with verbose := false } →
      parse verbosely = .ok { options with verbose := true } →
        QuietOf (runIn directory quietly) (runIn directory verbosely) := by
  refine ⟨Decoder.levelsOnlyFilter, ?_⟩
  intro directory quietly verbosely options quiet verbose
  rw [runIn_of_options quiet, runIn_of_options verbose]
  cases options.input with
  | none => exact quietOf_self _ directory (by simp)
  | some input => exact quietOf_listIn directory options input

/-- An image with a word that is no instruction and a branch that is cut off, listed into a file of
    its own name: the verbose log tells of the forms that were tried as well. -/
theorem verbosity_only_filters_cut :
    let directory : Directory := { files := [(["a"], [0xFF, 0xFF, 0x60, 0x00])], folders := [] }
    let quiet := runIn directory ["a", "-o", "a"]
    let verbose := runIn directory ["a", "-v", "-o", "a"]
    ({ threshold := some .trace } : Decoder).LevelsOnlyFilter ∧ QuietOf quiet verbose ∧
      quiet.1 = .finished
        { status := 0, stdout := "Disassembly written to a\n"
          stderr := "level=warning msg=\"no instruction form matches\" address=00000000 word=FFFF\n" ++
            "level=warning msg=\"instruction truncated by end of image\" address=00000002 form=Bcc\n" } := by
  intro directory quiet verbose
  obtain ⟨levels, runs⟩ := verbosity_only_filters
  refine ⟨levels _, ?_, by decide +kernel⟩
  exact runs directory ["a", "-o", "a"] ["a", "-v", "-o", "a"] { input := some "a", output := some "a" }
    (by decide +kernel) (by decide +kernel)

end M68k.CommandLine
