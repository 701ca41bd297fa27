import M68k.Word

/-!
Files by name. The command line reaches files through `FileSystem`; `Directory` is one
that is held in memory, with the usual meaning of slashes and dots in names: all parts
but the last have to lead from folder to folder, and then the last one counts.
-/
namespace M68k.CommandLine

/-- Why a file cannot be used. -/
inductive FileError where
  | missing
  | isFolder
  | notFolder
  | invalidName
  | nameTooLong
  | other (reason : String)
deriving DecidableEq, Repr

/-- The wording of an error. -/
def FileError.message : FileError → String
  | .missing => "no such file or directory"
  | .isFolder => "is a directory"
  | .notFolder => "not a directory"
  | .invalidName => "invalid argument"
  | .nameTooLong => "file name too long"
  | .other reason => reason

/-- Access to files. -/
structure FileSystem (m : Type → Type) where
  /-- The contents of a file. -/
  read : String → m (Except FileError (List Byte))
  /-- Creates a file, or empties it, and fills it with text. -/
  write : String → String → m (Except FileError Unit)

/-- A place as seen from the working directory: the folders on the way, and the last
    name. Places outside start with `..`, once for each folder above, or with the root `/`. -/
abbrev Path := List String

namespace Path

/-- Whether a part leads out of the working directory. -/
def isOuter (part : String) : Bool := part = ".." || part = "/"

/-- The folder above a folder; the root lies above itself. -/
def parent (path : Path) : Path :=
  match path.getLast? with
  | none | some ".." => path ++ [".."]
  | some "/" => path
  | some _ => path.dropLast

end Path

/-- Files and folders by place. -/
structure Directory where
  files : List (Path × List Byte)
  folders : List Path
deriving DecidableEq, Repr

namespace Directory

/-- The contents of the file at a place. -/
def file? (d : Directory) (path : Path) : Option (List Byte) := d.files.lookup path

/-- Whether there is a folder at a place: the working directory, those above it, and what
    leads to a file or folder. -/
def isFolder (d : Directory) (path : Path) : Bool :=
  path.all Path.isOuter || d.folders.any path.isPrefixOf ||
    d.files.any fun (name, _) => path.isPrefixOf name && name != path

/-- Whether a part of a name can lead to a folder only. -/
def isDots (part : String) : Bool := part = "" || part = "." || part = ".."

/-- Whether a part of a name is longer than a file system allows. -/
def isTooLong (part : String) : Bool := 255 < part.utf8ByteSize

/-- Goes from a folder into the one that a part of a name leads to. -/
def enter (d : Directory) (place : Path) (part : String) : Except FileError Path :=
  if part = "" ∨ part = "." then .ok place else
  if part = ".." then .ok place.parent else
  if isTooLong part then .error .nameTooLong else
  if d.isFolder (place ++ [part]) then .ok (place ++ [part]) else
  if (d.file? (place ++ [part])).isSome then .error .notFolder else .error .missing

/-- Goes into one folder after the other. -/
def walk (d : Directory) (place : Path) : List String → Except FileError Path
  | [] => .ok place
  | part :: rest =>
    match d.enter place part with
    | .ok place => d.walk place rest
    | .error fault => .error fault

/-- The parts of a name. -/
def parts (name : String) : List String := (name.toList.splitOn '/').map String.ofList

/-- The folder where a name starts: the root if it has a slash in front. -/
def start (name : String) : Path := if name.startsWith "/" then ["/"] else []

/-- Why no file can have a name, whatever there is in the directory: a zero ends a name,
    and a whole name has less than 4096 bytes. -/
def nameFault? (name : String) : Option FileError :=
  if name.toList.any (·.toNat = 0) then some .invalidName else
  if 4096 ≤ name.utf8ByteSize then some .nameTooLong else none

/-- The contents of the file with a name in a folder. -/
def readIn (d : Directory) (folder : Path) (last : String) : Except FileError (List Byte) :=
  if isDots last then .error .isFolder else
  if isTooLong last then .error .nameTooLong else
  if d.isFolder (folder ++ [last]) then .error .isFolder else
  match d.file? (folder ++ [last]) with
  | some bytes => .ok bytes
  | none => .error .missing

/-- The contents of a file by name. -/
def read (d : Directory) (name : String) : Except FileError (List Byte) :=
  match nameFault? name with
  | some fault => .error fault
  | none =>
    match d.walk (start name) (parts name).dropLast with
    | .error fault => .error fault
    | .ok folder => d.readIn folder ((parts name).getLastD "")

/-- The directory with new contents for the file at a place. -/
def store (d : Directory) (path : Path) (bytes : List Byte) : Directory :=
  { d with files := (path, bytes) :: d.files.filter (·.1 != path) }

/-- Creates or replaces the file with a name in a folder. A slash behind the name makes it
    that of a folder, before anything else is asked of it. -/
def writeIn (d : Directory) (folder : Path) (last : String) (slash : Bool) (text : String) :
    Except FileError Directory :=
  if isDots last ∨ slash then .error .isFolder else
  if isTooLong last then .error .nameTooLong else
  if d.isFolder (folder ++ [last]) then .error .isFolder else
  .ok (d.store (folder ++ [last]) text.toUTF8.toList)

/-- Creates or replaces a file by name. -/
def write (d : Directory) (name text : String) : Except FileError Directory :=
  match nameFault? name with
  | some fault => .error fault
  | none =>
    let trimmed := ((parts name).reverse.dropWhile (· = "")).reverse
    match d.walk (start name) trimmed.dropLast with
    | .error fault => .error fault
    | .ok folder => d.writeIn folder (trimmed.getLastD "") (name.endsWith "/") text

/-- The files below the working directory that it lacked before or had with other contents,
    by name. -/
def changes (before after : Directory) : List (String × List Byte) :=
  let changed := after.files.filter fun (path, bytes) =>
    !path.any Path.isOuter && before.file? path != some bytes
  (changed.map fun (path, bytes) => ("/".intercalate path, bytes)).mergeSort
    fun a b => decide (a.1 ≤ b.1)

/-- The directory with the given files and folders. -/
def ofNames (files : List (String × List Byte)) (folders : List String) : Directory :=
  { files := files.map fun (name, bytes) => (place name, bytes)
    folders := folders.map place }
where
  place (name : String) : Path := (parts name).filter fun part => part != "" && part != "."

/-- Access to the files of a directory in memory. -/
def fileSystem : FileSystem (StateM Directory) where
  read name := do return (← get).read name
  write name text := do
    match (← get).write name text with
    | .ok directory => set directory; return .ok ()
    | .error fault => return .error fault

end Directory
end M68k.CommandLine
