import M68k.CommandLine.Run

/-!
The command line program on the files of the machine.
-/
namespace M68k.CommandLine

/-- Tells the causes of a failed file operation apart; system errors 20 and 21 are about
    folders. -/
def fileError : IO.Error → FileError
  | .noFileOrDirectory .. => .missing
  | .inappropriateType _ code details =>
    if code = 21 then .isFolder else if code = 20 then .notFolder else .other details
  | error => .other (toString error)

/-- The files of the machine. -/
def machineFiles : FileSystem IO where
  read name := do
    try return .ok (← IO.FS.readBinFile name).toList
    catch error => return .error (fileError error)
  write name text := do
    try IO.FS.writeFile name text; return .ok ()
    catch error => return .error (fileError error)

end M68k.CommandLine

def main (arguments : List String) : IO UInt32 := do
  match ← M68k.CommandLine.run M68k.CommandLine.machineFiles arguments with
  | .finished report =>
    IO.print report.stdout
    IO.eprint report.stderr
    return UInt32.ofNat report.status
  | .aborted => return 2
  | .helped => return 0
