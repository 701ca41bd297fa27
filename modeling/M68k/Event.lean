import M68k.Form

/-!
What there is to report while a program is read, and how severe it is.
-/
namespace M68k

/-- The severity of an event; the first is the most severe. -/
inductive Level where
  | error
  | warning
  | info
  | debug
  | trace
deriving DecidableEq, Repr

namespace Level

/-- The distance from the most severe level. -/
def rank : Level → Nat
  | .error => 0
  | .warning => 1
  | .info => 2
  | .debug => 3
  | .trace => 4

/-- The name of a level. -/
def name : Level → String
  | .error => "error"
  | .warning => "warning"
  | .info => "info"
  | .debug => "debug"
  | .trace => "trace"

/-- The level of a name. -/
def ofName? (name : String) : Option Level :=
  [Level.error, .warning, .info, .debug, .trace].find? (·.name = name)

end Level

/-- Something to report. -/
inductive Event where
  /-- A form whose pattern fits did not accept the word at the address. -/
  | rejected (form : Form) (word : Word) (address : Address)
  /-- A form accepted the word at the address. -/
  | decoded (form : Form) (word : Word) (address : Address)
  /-- No form accepted the word at the address. -/
  | unmatched (word : Word) (address : Address)
  /-- An operand of the instruction at the address has no text. -/
  | unrenderable (fault : OperandError) (form : Form) (address : Address)
  /-- The instruction at the address reaches past the end of the image. -/
  | truncated (form : Option Form) (address : Address)
  /-- A file is about to be listed. -/
  | started (file : String) (bytes : Nat) (origin : Address)
deriving DecidableEq, Repr

/-- A value in the record of an event. -/
inductive FieldValue where
  | text (s : String)
  | number (n : Nat)
deriving DecidableEq, Repr

/-- The name of a form, or `none` where there is none. -/
def Form.titleOf (form : Option Form) : String := (form.map Form.title).getD "none"

namespace Event

/-- The severity of an event. -/
def level : Event → Level
  | .rejected .. | .decoded .. | .started .. => .debug
  | .unmatched .. | .truncated .. => .warning
  | .unrenderable .. => .error

/-- What an event says. -/
def message : Event → String
  | .rejected .. => "candidate rejected"
  | .decoded .. => "decoded"
  | .unmatched .. => "no instruction form matches"
  | .unrenderable .. => "operand could not be rendered"
  | .truncated .. => "instruction truncated by end of image"
  | .started .. => "disassembling"

/-- An address in a record. -/
def addressValue (a : Address) : FieldValue := .text (Text.hex .upper 8 a.toNat)

/-- A word in a record. -/
def wordValue (w : Word) : FieldValue := .text (Text.hex .upper 4 w.toNat)

/-- The record of a form that was tried. -/
def candidateFields (form : Form) (word : Word) (address : Address) :
    List (String × FieldValue) :=
  [("address", addressValue address), ("form", .text form.title),
    ("index", .number form.index), ("word", wordValue word)]

/-- The record of an event, in the order of the names. -/
def fields : Event → List (String × FieldValue)
  | .rejected form word address | .decoded form word address =>
    candidateFields form word address
  | .unmatched word address => [("address", addressValue address), ("word", wordValue word)]
  | .unrenderable fault form address =>
    [("address", addressValue address), ("error", .text fault.message),
      ("form", .text form.title)]
  | .truncated form address =>
    [("address", addressValue address), ("form", .text (Form.titleOf form))]
  | .started file bytes origin =>
    [("bytes", .number bytes), ("file", .text file), ("origin", addressValue origin)]

end Event

/-- Whether events of a level are kept under a threshold; without one nothing is. -/
def Level.passes (threshold : Option Level) (level : Level) : Bool :=
  match threshold with
  | some least => level.rank ≤ least.rank
  | none => false

end M68k
