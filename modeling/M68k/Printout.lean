import M68k.Data
import M68k.Labelling
import M68k.Sweep

/-!
Lines as the text of a listing. Strings are numbered from 1 through all data lines.
-/
namespace M68k

/-- The rows of an instruction line: its name, if it has one, and its columns. -/
def Line.rows (l : Line) : List Row :=
  l.label.toList.map Row.name ++ [.columns l.address (rawWords l.bytes) l.text]

namespace Printout

/-- The rows of lines, with strings numbered from `number` on. -/
def rows (number : Nat) : List Line → List Row
  | [] => []
  | l :: lines =>
    if l.data then
      let segments := Data.segments l.bytes l.address
      Data.rows number segments ++ rows (number + Data.strings segments) lines
    else l.rows ++ rows number lines

/-- Lines as text. -/
def text (lines : List Line) : String := String.join ((rows 1 lines).map Row.text)

end Printout

/-- The text of an image at an address, with names for the places that control reaches
    from there if `labels`, and what there was to report. -/
def Decoder.printout (d : Decoder) (image : List Byte) (origin : Address) (labels : Bool) :
    String × List Event :=
  let listing := d.listing image origin
  (Printout.text (if labels then Labelling.label listing.lines origin else listing.lines),
    listing.events)

end M68k
