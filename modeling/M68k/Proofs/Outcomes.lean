import Mathlib
import M68k.Proofs.Origins
import M68k.Proofs.Runs

/-!
A run does all that it was asked for or nothing. Its arguments and the directory tell how it ends: every
fault is found before anything is written, and what is written goes to one place (`AllOrNothing`).
-/
namespace M68k.CommandLine

/-! ## The input -/

namespace Options

/-- The input file, the empty name standing for none. -/
def inputName (o : Options) : String := o.input.getD ""

@[simp] theorem input_setFlag (o : Options) (flag : Flag) (value : Bool) : (o.setFlag flag value).input = o.input := by
  cases flag <;> rfl

@[simp] theorem input_setText (o : Options) (setting : Setting) (value : String) :
    (o.setText setting value).input = o.input := by
  cases setting <;> rfl

end Options

namespace Progress

variable {p after : Progress} {rest : List String} {value : Option String}

@[simp] theorem input_flagByNext (p : Progress) (flag : Flag) (rest : List String) :
    (p.flagByNext flag rest).options.input = p.options.input := by
  unfold flagByNext
  split <;> simp

theorem input_settingByNext {setting : Setting} {missing : ArgumentError}
    (goesOn : p.settingByNext setting rest missing = .ok after) : after.options.input = p.options.input := by
  unfold settingByNext at goesOn
  split at goesOn
  · cases goesOn
    simp
  · cases goesOn

@[simp] theorem input_longFlag (p : Progress) (flag : Flag) (value : String) (rest : List String) :
    (p.longFlag flag value rest).options.input = p.options.input := by
  unfold longFlag
  split <;> simp

theorem input_longSetting {setting : Setting} {name value : String}
    (goesOn : p.longSetting setting name value rest = .ok after) : after.options.input = p.options.input := by
  unfold longSetting at goesOn
  split at goesOn
  · exact input_settingByNext goesOn
  · cases goesOn
    simp

theorem input_long {name value : String} (goesOn : p.long name value rest = .ok after) :
    after.options.input = p.options.input := by
  unfold long at goesOn
  split_ifs at goesOn
  · cases goesOn
    exact p.input_longFlag ..
  · cases goesOn
    exact p.input_longFlag ..
  · cases goesOn
    exact p.input_longFlag ..
  · cases goesOn
    exact p.input_longFlag ..
  · exact input_longSetting goesOn
  · exact input_longSetting goesOn

@[simp] theorem input_shortFlag (p : Progress) (flag : Flag) (value : Option String) (rest : List String) :
    (p.shortFlag flag value rest).options.input = p.options.input := by
  unfold shortFlag
  split <;> simp

theorem input_short {letter : Char} (goesOn : p.short letter value rest = .ok after) :
    after.options.input = p.options.input := by
  unfold short at goesOn
  split_ifs at goesOn
  · cases goesOn
    exact p.input_shortFlag ..
  · cases goesOn
    exact p.input_shortFlag ..
  · split at goesOn
    · cases goesOn
    · cases goesOn
      exact p.options.input_setText ..
    · exact input_settingByNext goesOn

theorem input_shorts {letters : List Char} (goesOn : p.shorts value rest letters = .ok after) :
    after.options.input = p.options.input := by
  induction letters generalizing p with
  | nil =>
    cases goesOn
    rfl
  | cons letter letters ih =>
    rw [shorts] at goesOn
    cases first : p.short letter value rest with
    | error stop => simp [first] at goesOn
    | ok next =>
      rw [first] at goesOn
      exact (ih goesOn).trans (input_short first)

end Progress

/-- An argument leaves the input as it is or is the input itself, and then it is not empty. -/
theorem input_argument {options : Options} {first : String} {rest : List String} {after : Progress}
    (goesOn : argument options first rest = .ok after) (named : options.input ≠ some "") :
    after.options.input ≠ some "" := by
  unfold argument at goesOn
  split at goesOn
  · cases goesOn
    exact named
  · cases goesOn
  · cases goesOn
  · rw [Progress.input_long goesOn]
    exact named
  · dsimp only at goesOn
    split at goesOn
    · rw [Progress.input_shorts goesOn]
      exact named
    · rw [Progress.input_shorts goesOn]
      exact named
  · rename_i nonempty _ _ _ _
    cases goesOn
    cases present : options.input with
    | some name => simpa [present] using named
    | none =>
      simp only [Option.none_or, ne_eq, Option.some.injEq]
      rintro rfl
      exact nonempty rfl

theorem input_parseFrom {arguments : List String} {start options : Options} {taken : Bool}
    (parsed : parseFrom start taken arguments = .ok options) (named : start.input ≠ some "") :
    options.input ≠ some "" := by
  induction arguments generalizing start taken with
  | nil =>
    cases parsed
    exact named
  | cons first rest ih =>
    rw [parseFrom] at parsed
    cases goesOn : argument start (if taken then "" else first) rest with
    | error stop => simp [goesOn] at parsed
    | ok next =>
      rw [goesOn] at parsed
      exact ih parsed (input_argument goesOn named)

theorem parseFrom_of_parse {arguments : List String} {options : Options} (parsed : parse arguments = .ok options) :
    parseFrom {} false arguments = .ok options := by
  unfold parse at parsed
  cases read : parseFrom {} false arguments with
  | error stop => simp [read] at parsed
  | ok found =>
    rw [read] at parsed
    dsimp only at parsed
    split at parsed
    · cases parsed
    · exact parsed

/-- The input never is the empty name: an empty argument is passed over. -/
theorem inputName_of_parse {arguments : List String} {options : Options} (parsed : parse arguments = .ok options) :
    options.inputName = "" ↔ options.input = none := by
  have named := input_parseFrom (parseFrom_of_parse parsed) (by simp)
  unfold Options.inputName
  cases present : options.input with
  | none => simp
  | some name =>
    rw [present] at named
    simpa using named

/-! ## The output -/

namespace Directory

/-- The place of the file that a name in a folder creates or replaces. -/
def destinationIn (d : Directory) (folder : Path) (last : String) (slash : Bool) : Except FileError Path :=
  if isDots last ∨ slash then .error .isFolder else
  if isTooLong last then .error .nameTooLong else
  if d.isFolder (folder ++ [last]) then .error .isFolder else .ok (folder ++ [last])

/-- The place of the file that a name creates or replaces. -/
def destination (d : Directory) (name : String) : Except FileError Path :=
  match nameFault? name with
  | some fault => .error fault
  | none =>
    let trimmed := (parts name).rdropWhile (· = "")
    match d.walk (start name) trimmed.dropLast with
    | .error fault => .error fault
    | .ok folder => d.destinationIn folder (trimmed.getLastD "") (name.endsWith "/")

theorem writeIn_eq (d : Directory) (folder : Path) (last : String) (slash : Bool) (text : String) :
    d.writeIn folder last slash text = (d.destinationIn folder last slash).map (d.store · text.toUTF8.toList) := by
  unfold writeIn destinationIn
  by_cases dots : isDots last ∨ slash
  · rw [if_pos dots, if_pos dots]
    rfl
  · rw [if_neg dots, if_neg dots]
    by_cases long : isTooLong last
    · rw [if_pos long, if_pos long]
      rfl
    · rw [if_neg long, if_neg long]
      by_cases taken : d.isFolder (folder ++ [last])
      · rw [if_pos taken, if_pos taken]
        rfl
      · rw [if_neg taken, if_neg taken]
        rfl

/-- Writing stores the text at the destination, or fails because there is none. -/
theorem write_eq (d : Directory) (name text : String) :
    d.write name text = (d.destination name).map (d.store · text.toUTF8.toList) := by
  unfold write destination
  cases nameFault? name with
  | some fault => rfl
  | none =>
    simp only [List.rdropWhile]
    cases d.walk (start name) ((parts name).reverse.dropWhile (· = "")).reverse.dropLast with
    | error fault => rfl
    | ok folder => exact d.writeIn_eq ..

/-! What a file stored at a place changes, and that its name leads there. -/

theorem lookup_filter {files : List (Path × List Byte)} {path other : Path} (distinct : other ≠ path) :
    (files.filter (·.1 != path)).lookup other = files.lookup other := by
  induction files with
  | nil => rfl
  | cons file files ih =>
    obtain ⟨name, bytes⟩ := file
    by_cases same : name = path
    · subst same
      simp [List.lookup_cons, beq_eq_false_iff_ne.mpr distinct, ih]
    · simp [List.lookup_cons, same, ih]

theorem file?_store (d : Directory) (path other : Path) (bytes : List Byte) :
    (d.store path bytes).file? other = if other = path then some bytes else d.file? other := by
  by_cases same : other = path
  · subst same
    simp [file?, store]
  · rw [if_neg same]
    simp [file?, store, List.lookup_cons, beq_eq_false_iff_ne.mpr same, lookup_filter same]

theorem isFolder_store {d : Directory} {folder : Path} (path : Path) (bytes : List Byte)
    (there : d.isFolder folder = true) : (d.store path bytes).isFolder folder = true := by
  simp only [isFolder, store, Bool.or_eq_true, List.any_cons, Bool.and_eq_true, List.any_eq_true,
    List.mem_filter] at there ⊢
  rcases there with outer | ⟨⟨name, old⟩, member, leads, other⟩
  · exact .inl outer
  · by_cases same : name = path
    · subst same
      exact .inr (.inl ⟨leads, other⟩)
    · exact .inr (.inr ⟨(name, old), ⟨member, by simpa using same⟩, leads, other⟩)

theorem isFolder_store_self {d : Directory} {path : Path} (bytes : List Byte) (free : d.isFolder path = false) :
    (d.store path bytes).isFolder path = false := by
  rw [Bool.eq_false_iff] at free ⊢
  intro there
  apply free
  simp only [isFolder, store, Bool.or_eq_true, List.any_cons, Bool.and_eq_true, List.any_eq_true,
    List.mem_filter] at there ⊢
  rcases there with outer | ⟨_, other⟩ | ⟨file, ⟨member, _⟩, leads⟩
  · exact .inl outer
  · simp at other
  · exact .inr ⟨file, member, leads⟩

theorem enter_store {d : Directory} {place folder : Path} {part : String} (path : Path) (bytes : List Byte)
    (entered : d.enter place part = .ok folder) : (d.store path bytes).enter place part = .ok folder := by
  unfold enter at entered ⊢
  by_cases here : part = "" ∨ part = "."
  · rw [if_pos here] at entered ⊢
    exact entered
  · rw [if_neg here] at entered ⊢
    by_cases up : part = ".."
    · rw [if_pos up] at entered ⊢
      exact entered
    · rw [if_neg up] at entered ⊢
      by_cases long : isTooLong part
      · rw [if_pos long] at entered
        cases entered
      · rw [if_neg long] at entered ⊢
        by_cases there : d.isFolder (place ++ [part])
        · rw [if_pos there] at entered
          rw [if_pos (isFolder_store path bytes there), entered]
        · rw [if_neg there] at entered
          split at entered <;> cases entered

/-- Every way that led to a folder still does. -/
theorem walk_store {d : Directory} {place folder : Path} {names : List String} (path : Path) (bytes : List Byte)
    (walked : d.walk place names = .ok folder) : (d.store path bytes).walk place names = .ok folder := by
  induction names generalizing place with
  | nil => exact walked
  | cons part names ih =>
    rw [walk] at walked ⊢
    cases entered : d.enter place part with
    | error fault => simp [entered] at walked
    | ok next =>
      rw [entered] at walked
      rw [enter_store path bytes entered]
      exact ih walked

theorem endsWith_slash_iff {name : String} : name.endsWith "/" = true ↔ ['/'] <:+ name.toList := by
  rw [← String.endsWith_toSlice, String.Slice.endsWith_string_iff]
  simp

theorem slash_suffix_intercalate {pieces : List (List Char)} (nonempty : pieces ≠ []) :
    ['/'] <:+ ['/'].intercalate (pieces ++ [[]]) := by
  induction pieces with
  | nil => exact absurd rfl nonempty
  | cons piece pieces ih =>
    rw [List.cons_append, List.intercalate_cons_of_ne_nil (by simp)]
    cases pieces with
    | nil => exact ⟨piece, by simp⟩
    | cons next pieces => exact (ih (by simp)).trans (List.suffix_append _ _)

/-- A name without a slash at its end has its last part there. -/
theorem parts_trimmed {name : String} (named : (parts name).rdropWhile (· = "") ≠ [])
    (plain : name.endsWith "/" = false) : (parts name).rdropWhile (· = "") = parts name := by
  rw [List.rdropWhile_eq_self_iff]
  intro nonempty empty
  rcases List.eq_nil_or_concat (name.toList.splitOn '/') with none | ⟨front, last, cut⟩
  · exact List.splitOn_ne_nil '/' name.toList none
  · have split : parts name = front.map String.ofList ++ [String.ofList last] := by simp [parts, cut]
    simp only [split, List.getLast_append_singleton, decide_eq_true_eq] at empty
    have none : last = [] := by simpa using congrArg String.toList empty
    subst none
    by_cases alone : front = []
    · subst alone
      exact named (by simp [split, List.rdropWhile])
    · have whole : ['/'].intercalate (name.toList.splitOn '/') = name.toList := List.intercalate_splitOn '/'
      rw [cut, List.concat_eq_append] at whole
      have ends : name.endsWith "/" = true := by
        rw [endsWith_slash_iff, ← whole]
        exact slash_suffix_intercalate alone
      rw [ends] at plain
      cases plain

theorem destinationIn_eq_ok {d : Directory} {folder path : Path} {last : String} {slash : Bool}
    (created : d.destinationIn folder last slash = .ok path) :
    isDots last = false ∧ slash = false ∧ isTooLong last = false ∧ d.isFolder path = false ∧
      path = folder ++ [last] := by
  unfold destinationIn at created
  split_ifs at created with folderly long taken
  obtain ⟨dots, plain⟩ := not_or.mp folderly
  cases created
  exact ⟨by simpa using dots, by simpa using plain, by simpa using long, by simpa using taken, rfl⟩

/-- A file that has been created can be read by its name. -/
theorem read_store {d : Directory} {name : String} {path : Path} (created : d.destination name = .ok path)
    (bytes : List Byte) : (d.store path bytes).read name = .ok bytes := by
  unfold destination at created
  cases faulty : nameFault? name with
  | some fault => simp [faulty] at created
  | none =>
    rw [faulty] at created
    simp only at created
    cases walked : d.walk (start name) ((parts name).rdropWhile (· = "")).dropLast with
    | error fault => simp [walked] at created
    | ok folder =>
      rw [walked] at created
      obtain ⟨dots, plain, long, free, place⟩ := destinationIn_eq_ok created
      have named : (parts name).rdropWhile (· = "") ≠ [] := by
        intro none
        rw [none] at dots
        exact absurd dots (by decide)
      -- The last part stands at the end of the name, so that reading takes the way that writing took.
      rw [parts_trimmed named plain] at dots long place walked
      have stays := isFolder_store_self bytes free
      rw [read, faulty]
      simp only [walk_store path bytes walked, readIn, dots, long, ← place, stays, file?_store, if_true]
      simp

end Directory

/-! ## The run -/

/-- Why options cannot be followed in a directory: there is no input, or the origin is no number of 32
    bits, or the input cannot be read, or the output cannot be created. -/
def Options.Fails (o : Options) (before : Directory) : Prop :=
  o.inputName = "" ∨ (¬∃ n, Origin.Spells o.origin n ∧ n < 2 ^ 32) ∨
    (∃ error, before.read o.inputName = .error error) ∨
    o.outputName ≠ "" ∧ ∃ error, before.destination o.outputName = .error error

/-- What following options comes to: the listing of the input as it was goes to the standard output and
    no file changes, or it goes to the output file and no other file changes. -/
structure Options.Follows (o : Options) (before : Directory) (report : Report) (after : Directory)
    (image : List Byte) (origin : Nat) : Prop where
  readable : before.read o.inputName = .ok image
  spelled : Origin.Spells o.origin origin ∧ origin < 2 ^ 32
  printed : o.outputName = "" → report.stdout = o.listing image (UInt32.ofNat origin) ∧ after = before
  written : o.outputName ≠ "" →
    let bytes := (o.listing image (UInt32.ofNat origin)).toUTF8.toList
    report.stdout = "Disassembly written to " ++ o.outputName ++ "\n" ∧
      after.read o.outputName = .ok bytes ∧ after.folders = before.folders ∧
      ∃ place, before.destination o.outputName = .ok place ∧
        ∀ path, after.file? path = if path = place then some bytes else before.file? path

/-- How a run ends, and that it ends so for no other reason. -/
def AllOrNothing (before : Directory) (arguments : List String) : Outcome × Directory → Prop
  | (.aborted, after) => parse arguments = .error .abort ∧ after = before
  | (.helped, after) => parse arguments = .error .help ∧ after = before
  | (.finished report, after) =>
    (report.status = 2 ↔ ∃ error, parse arguments = .error (.invalid error)) ∧
    (report.status = 1 ↔ ∃ options, parse arguments = .ok options ∧ options.Fails before) ∧
    (report.status ≠ 0 → (report.status = 1 ∨ report.status = 2) ∧ report.stdout = "" ∧ after = before) ∧
    (report.status = 0 → ∃ options image origin, parse arguments = .ok options ∧
      options.Follows before report after image origin)

/-- Options that have been followed are none that fail. -/
theorem Options.Follows.not_fails {o : Options} {before after : Directory} {report : Report} {image : List Byte}
    {origin : Nat} (follows : o.Follows before report after image origin) (named : o.inputName ≠ "") :
    ¬o.Fails before := by
  rintro (none | wrong | ⟨error, unreadable⟩ | ⟨file, error, refused⟩)
  · exact named none
  · exact wrong ⟨origin, follows.spelled⟩
  · rw [follows.readable] at unreadable
    cases unreadable
  · obtain ⟨_, _, _, place, created, _⟩ := follows.written file
    rw [created] at refused
    cases refused

section Run

variable {before : Directory} {arguments : List String} {options : Options}
  (parsed : parse arguments = .ok options)
include parsed

theorem allOrNothing_of_fails (fails : options.Fails before) {report : Report} (status : report.status = 1)
    (silent : report.stdout = "") : AllOrNothing before arguments (.finished report, before) := by
  refine ⟨?_, ?_, fun _ => ⟨.inl status, silent, rfl⟩, ?_⟩
  · simp [status, parsed]
  · simp only [status, true_iff]
    exact ⟨options, parsed, fails⟩
  · simp [status]

theorem allOrNothing_of_follows {report : Report} {after : Directory} {image : List Byte} {origin : Nat}
    (follows : options.Follows before report after image origin) (named : options.inputName ≠ "")
    (status : report.status = 0) : AllOrNothing before arguments (.finished report, after) := by
  refine ⟨?_, ?_, fun failed => absurd status failed, fun _ => ⟨options, image, origin, parsed, follows⟩⟩
  · simp [status, parsed]
  · simp only [status, Nat.zero_ne_one, false_iff]
    rintro ⟨other, parsed', fails⟩
    rw [parsed, Except.ok.injEq] at parsed'
    subst parsed'
    exact follows.not_fails named fails

/-- Listing a file, and every way in which it can end. -/
theorem allOrNothing_listIn {input : String} (given : options.input = some input) :
    AllOrNothing before arguments
      (.finished (listIn before options input).1, (listIn before options input).2) := by
  have name : options.inputName = input := by simp [Options.inputName, given]
  have named : options.inputName ≠ "" := by simp [inputName_of_parse parsed, given]
  subst name
  cases number : Origin.parse options.origin with
  | error fault =>
    rw [listIn_of_origin options number]
    refine allOrNothing_of_fails parsed (.inr (.inl ?_)) rfl rfl
    rintro ⟨n, spelled, small⟩
    rw [Origin.parse_eq_ok_iff.mpr ⟨n, spelled, small, rfl⟩] at number
    cases number
  | ok origin =>
    obtain ⟨n, spelled, small, rfl⟩ := Origin.parse_eq_ok_iff.mp number
    cases readable : before.read options.inputName with
    | error fault =>
      rw [listIn_of_input options number readable]
      exact allOrNothing_of_fails parsed (.inr (.inr (.inl ⟨fault, readable⟩))) rfl rfl
    | ok image =>
      by_cases unnamed : options.outputName = ""
      · rw [listIn_printed options number readable unnamed]
        refine allOrNothing_of_follows parsed ⟨readable, ⟨spelled, small⟩, ?_, ?_⟩ named rfl
        · exact fun _ => ⟨rfl, rfl⟩
        · exact fun file => absurd unnamed file
      · have writing := before.write_eq options.outputName (options.listing image (UInt32.ofNat n))
        cases created : before.destination options.outputName with
        | error fault =>
          rw [created] at writing
          rw [listIn_refused options number readable unnamed writing]
          exact allOrNothing_of_fails parsed (.inr (.inr (.inr ⟨unnamed, fault, created⟩))) rfl rfl
        | ok place =>
          rw [created] at writing
          rw [listIn_written options number readable unnamed writing]
          refine allOrNothing_of_follows parsed ⟨readable, ⟨spelled, small⟩, ?_, ?_⟩ named rfl
          · exact fun none => absurd none unnamed
          · intro _ bytes
            exact ⟨rfl, Directory.read_store created bytes, rfl, place, created,
              fun path => before.file?_store place path bytes⟩

end Run

/-- A run does all that it was asked for or nothing. The status tells whether the arguments, the origin
    or a file was at fault; then nothing is printed and no file is touched. Otherwise the listing of the
    input as it was before the run is found in full where it should go, and nothing else has changed. -/
theorem run_all_or_nothing (before : Directory) (arguments : List String) :
    AllOrNothing before arguments (runIn before arguments) := by
  cases parsed : parse arguments with
  | error stop =>
    cases stop with
    | abort =>
      have ended : runIn before arguments = (.aborted, before) := by simp only [runIn, run, parsed]; rfl
      rw [ended]
      exact ⟨parsed, rfl⟩
    | help =>
      have ended : runIn before arguments = (.helped, before) := by simp only [runIn, run, parsed]; rfl
      rw [ended]
      exact ⟨parsed, rfl⟩
    | invalid error =>
      have ended : runIn before arguments =
          (.finished { status := 2, stdout := "", stderr := errorText error.message }, before) := by
        simp only [runIn, run, parsed]
        rfl
      rw [ended]
      refine ⟨?_, ?_, ?_, ?_⟩ <;> simp [parsed]
  | ok options =>
    rw [runIn_of_options parsed]
    cases given : options.input with
    | none => exact allOrNothing_of_fails parsed (.inl (by simp [Options.inputName, given])) rfl rfl
    | some input => exact allOrNothing_listIn parsed given

end M68k.CommandLine
