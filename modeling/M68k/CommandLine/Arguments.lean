/-!
The arguments of the command line. Options may stand anywhere; the first argument that
is none names the input. An option may take the argument behind it, which then counts
as empty.
-/
namespace M68k.CommandLine

/-- What the arguments ask for. -/
structure Options where
  input : Option String := none
  output : Option String := none
  /-- The load address as it was given. -/
  origin : String := "0"
  fix : Bool := false
  labels : Bool := false
  verbose : Bool := false
  help : Bool := false
deriving DecidableEq, Repr

/-- What is wrong with the arguments. -/
inductive ArgumentError where
  | longWithoutName
  | unknownLong (name : String)
  | unknownShort (letter : Char)
  | missingLong (name : String)
  | missingShort (letter : Char)
deriving DecidableEq, Repr

/-- The wording of an error. -/
def ArgumentError.message : ArgumentError → String
  | .longWithoutName => "long option without a string"
  | .unknownLong name => "--" ++ name ++ ": unknown option"
  | .unknownShort letter => "-" ++ letter.toString ++ ": unknown option"
  | .missingLong name => "--" ++ name ++ ": missing option parameter"
  | .missingShort letter => "-" ++ letter.toString ++ ": missing option parameter"

/-- Why the arguments give no options. A lone dash, and a value attached to the short
    output option before an output is known, make the program give up without a word. A
    call for help is answered where the arguments are read, and nothing comes after it. -/
inductive Stop where
  | invalid (error : ArgumentError)
  | abort
  | help
deriving DecidableEq, Repr

/-- The truth that a word stands for, in any letter case. -/
def truthWord? (word : String) : Option Bool :=
  let word := String.ofList (word.toList.map Char.toLower)
  if word ∈ ["true", "yes", "on", "1", "t"] then some true else
  if word ∈ ["false", "no", "off", "0", "f"] then some false else none

/-- Options found so far, and whether the next argument has been taken. -/
structure Progress where
  options : Options
  taken : Bool
deriving DecidableEq, Repr

/-- The options that are either on or off. -/
inductive Flag where
  | fix
  | labels
  | verbose
  | help
deriving DecidableEq, Repr

/-- The options with a text of their own. -/
inductive Setting where
  | origin
  | output
deriving DecidableEq, Repr

/-- Turns a flag on or off. -/
def Options.setFlag (o : Options) (flag : Flag) (value : Bool) : Options :=
  match flag with
  | .fix => { o with fix := value }
  | .labels => { o with labels := value }
  | .verbose => { o with verbose := value }
  | .help => { o with help := value }

/-- Gives a setting its text. -/
def Options.setText (o : Options) (setting : Setting) (value : String) : Options :=
  match setting with
  | .origin => { o with origin := value }
  | .output => { o with output := some value }

namespace Progress

/-- The argument behind the current one; it is empty once it has been taken. -/
def next? (p : Progress) (rest : List String) : Option String :=
  rest.head?.map fun argument => if p.taken then "" else argument

/-- Turns a flag on, unless the next argument is a truth word and decides. -/
def flagByNext (p : Progress) (flag : Flag) (rest : List String) : Progress :=
  match (p.next? rest).bind truthWord? with
  | some value => { options := p.options.setFlag flag value, taken := true }
  | none => { p with options := p.options.setFlag flag true }

/-- Gives a setting the next argument, whatever that is. -/
def settingByNext (p : Progress) (setting : Setting) (rest : List String)
    (missing : ArgumentError) : Except Stop Progress :=
  match p.next? rest with
  | some value => .ok { options := p.options.setText setting value, taken := true }
  | none => .error (.invalid missing)

/-- A flag by its long name; an attached truth word decides before the next argument. -/
def longFlag (p : Progress) (flag : Flag) (value : String) (rest : List String) : Progress :=
  match truthWord? value with
  | some value => { p with options := p.options.setFlag flag value }
  | none => p.flagByNext flag rest

/-- A setting by its long name; an attached text comes before the next argument. -/
def longSetting (p : Progress) (setting : Setting) (name value : String)
    (rest : List String) : Except Stop Progress :=
  if value = "" then p.settingByNext setting rest (.missingLong name)
  else .ok { p with options := p.options.setText setting value }

/-- An option by its long name, with the text behind the equals sign if there is any. -/
def long (p : Progress) (name value : String) (rest : List String) : Except Stop Progress :=
  if name = "fix" then .ok (p.longFlag .fix value rest) else
  if name = "labels" then .ok (p.longFlag .labels value rest) else
  if name = "verbose" then .ok (p.longFlag .verbose value rest) else
  if name = "help" then .ok (p.longFlag .help value rest) else
  if name = "origin" then p.longSetting .origin name value rest else
  if name = "output" then p.longSetting .output name value rest else
  .error (.invalid (.unknownLong name))

/-- A flag by its letter; an attached text that is no truth word turns it off. -/
def shortFlag (p : Progress) (flag : Flag) (value : Option String) (rest : List String) :
    Progress :=
  match value with
  | some value => { p with options := p.options.setFlag flag ((truthWord? value).getD false) }
  | none => p.flagByNext flag rest

/-- An option by its letter. A `value` belongs to it if it is the only letter. -/
def short (p : Progress) (letter : Char) (value : Option String) (rest : List String) :
    Except Stop Progress :=
  if letter = 'v' then .ok (p.shortFlag .verbose value rest)
  else if letter = 'h' then .ok (p.shortFlag .help value rest)
  else if letter = 'o' then
    match value, p.options.output with
    | some _, none => .error .abort
    | some value, some _ => .ok { p with options := p.options.setText .output value }
    | none, _ => p.settingByNext .output rest (.missingShort letter)
  else .error (.invalid (.unknownShort letter))

/-- Options by their letters, in order. -/
def shorts (p : Progress) (value : Option String) (rest : List String) :
    List Char → Except Stop Progress
  | [] => .ok p
  | letter :: letters =>
    match p.short letter value rest with
    | .ok p => p.shorts value rest letters
    | .error stop => .error stop

end Progress

/-- The part of an argument before the first equals sign and the part behind it. -/
def splitValue (characters : List Char) : List Char × String :=
  (characters.takeWhile (· != '='),
    String.ofList (characters.dropWhile (· != '=')).tail)

/-- One argument, with those behind it. An equals sign with nothing behind it is a letter
    among letters. -/
def argument (options : Options) (argument : String) (rest : List String) :
    Except Stop Progress :=
  let p : Progress := { options, taken := false }
  match argument.toList with
  | [] => .ok p
  | ['-'] => .error .abort
  | ['-', '-'] => .error (.invalid .longWithoutName)
  | '-' :: '-' :: characters =>
    let (name, value) := splitValue characters
    p.long (String.ofList name) value rest
  | '-' :: characters =>
    let (letters, value) := splitValue characters
    if value = "" then p.shorts none rest characters
    else p.shorts (if letters.length = 1 then some value else none) rest letters
  | _ => .ok { p with options := { options with input := options.input.or (some argument) } }

/-- Reads arguments on top of the options so far; `taken` if the first one counts as
    empty. -/
def parseFrom (options : Options) (taken : Bool) : List String → Except Stop Options
  | [] => .ok options
  | first :: rest =>
    match argument options (if taken then "" else first) rest with
    | .ok p => parseFrom p.options p.taken rest
    | .error stop => .error stop

/-- Reads the arguments of the command line. A call for help counts once all of them have
    been read, and only if it has not been taken back. -/
def parse (arguments : List String) : Except Stop Options :=
  match parseFrom {} false arguments with
  | .ok options => if options.help then .error .help else .ok options
  | .error stop => .error stop

end M68k.CommandLine
