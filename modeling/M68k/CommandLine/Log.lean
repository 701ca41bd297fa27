import M68k.Event
import M68k.Text.Quoted

/-!
Events as lines of text: level, message and record, each as a name, an equals sign and
a value.
-/
namespace M68k.CommandLine.Log

/-- Whether a character can stand in a value without quotes. -/
def isBare (c : Char) : Bool := c.isAlphanum || c ∈ ['-', '.', '_', '/', '@', '^', '+']

/-- A value, in quotes where a character asks for them. -/
def value (s : String) : String := if s.toList.all isBare then s else Text.quoted s

/-- A value of a record. -/
def fieldValue : FieldValue → String
  | .text s => value s
  | .number n => Nat.repr n

/-- The line of an event. -/
def line (event : Event) : String :=
  "level=" ++ event.level.name ++ " msg=" ++ value event.message ++
    String.join (event.fields.map fun (name, v) => " " ++ name ++ "=" ++ fieldValue v) ++ "\n"

/-- The lines of events. -/
def text (events : List Event) : String := String.join (events.map line)

end M68k.CommandLine.Log
