import M68k.CommandLine.Arguments
import M68k.CommandLine.Directory
import M68k.CommandLine.Log
import M68k.CommandLine.Origin
import M68k.Printout

/-!
The program: read arguments, read a file, write its listing. The listing goes to the
output file or to standard output; nothing is written unless all else has succeeded.
-/
namespace M68k.CommandLine

/-- Why nothing was written. -/
inductive Failure where
  | origin (text : String) (error : OriginError)
  | input (name : String) (error : FileError)
  | output (name : String) (error : FileError)
deriving DecidableEq, Repr

/-- The wording of a failure. A folder can be opened, so only reading it fails. -/
def Failure.message : Failure → String
  | .origin text error =>
    "parsing origin " ++ Text.quoted text ++ ": strconv.ParseUint: parsing " ++
      Text.quoted text ++ ": " ++ error.message
  | .input name error =>
    "reading input file: " ++ (if error = .isFolder then "read " else "open ") ++ name ++ ": " ++
      error.message
  | .output name error => "creating output file: open " ++ name ++ ": " ++ error.message

/-- What a run leaves behind besides files. -/
structure Report where
  status : Nat
  stdout : String
  stderr : String
deriving DecidableEq, Repr

/-- How a run ends. If it does not come beyond its arguments, because it gives up on them or
    because they call for help, there is nothing to report. -/
inductive Outcome where
  | finished (report : Report)
  | aborted
  | helped
deriving DecidableEq, Repr

/-- How to call the program. -/
def usage : String := "Usage: dis68 [options] <inputfile>\nRun 'dis68 -h' to list the options.\n"

/-- An error as it is shown. -/
def errorText (message : String) : String := "Error: " ++ message ++ "\n"

/-- The decoder that options ask for. -/
def Options.decoder (o : Options) : Decoder where
  style := if o.fix then .corrected else .classic
  threshold := some (if o.verbose then .debug else .warning)

/-- Lists a file. -/
def list {m : Type → Type} [Monad m] (files : FileSystem m) (options : Options)
    (input : String) : m Report := do
  let failed (log : List Event) (failure : Failure) : Report :=
    { status := 1, stdout := "", stderr := Log.text log ++ errorText failure.message }
  match Origin.parse options.origin with
  | .error error => return failed [] (.origin options.origin error)
  | .ok origin =>
    match ← files.read input with
    | .error error => return failed [] (.input input error)
    | .ok image =>
      let decoder := options.decoder
      let started := decoder.report [.started input image.length origin]
      let (text, events) := decoder.printout image origin options.labels
      let log := Log.text (started ++ events)
      let output := options.output.getD ""
      if output = "" then return { status := 0, stdout := text, stderr := log }
      match ← files.write output text with
      | .error error => return failed started (.output output error)
      | .ok () =>
        return { status := 0, stdout := "Disassembly written to " ++ output ++ "\n", stderr := log }

/-- Runs the program. -/
def run {m : Type → Type} [Monad m] (files : FileSystem m) (arguments : List String) :
    m Outcome :=
  match parse arguments with
  | .error .abort => return .aborted
  | .error .help => return .helped
  | .error (.invalid error) =>
    return .finished { status := 2, stdout := "", stderr := errorText error.message }
  | .ok options =>
    match options.input with
    | none => return .finished { status := 1, stdout := "", stderr := usage }
    | some input => .finished <$> list files options input

end M68k.CommandLine
