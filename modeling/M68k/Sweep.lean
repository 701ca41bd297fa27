import M68k.Decoder
import M68k.Line

/-!
Reading a whole image from its first byte to its last. A word that no form accepts, an
instruction that the end of the image cuts short, and an odd last byte become data, and
reading goes on behind the word. Neighbouring data makes one line.
-/
namespace M68k

/-- One step through an image. -/
inductive Step where
  /-- A complete instruction and its bytes. -/
  | instruction (i : Instruction) (bytes : List Byte) (events : List Event)
  /-- Bytes that are no complete instruction. -/
  | data (address : Address) (bytes : List Byte) (events : List Event)
deriving DecidableEq, Repr

namespace Step

/-- What a step has to report. -/
def events : Step → List Event
  | .instruction _ _ events | .data _ _ events => events

/-- Puts a step in front of the lines behind it. Data joins a data line. -/
def prepend : Step → List Line → List Line
  | .instruction i bytes _, lines => { address := i.address, bytes, instruction := i } :: lines
  | .data address bytes _, [] => [{ address, bytes, data := true }]
  | .data address bytes _, line :: lines =>
    if line.data then { line with address, bytes := bytes ++ line.bytes } :: lines
    else { address, bytes, data := true } :: line :: lines

end Step

/-- The lines of an image and what there was to report. -/
structure Listing where
  lines : List Line
  events : List Event
deriving DecidableEq, Repr

namespace Decoder

/-- The steps through an image at an address. -/
def steps (d : Decoder) (image : List Byte) (address : Address) : List Step :=
  match image with
  | [] => []
  | [b] => [.data address [b] []]
  | high :: low :: rest =>
    let result := d.decode (Cursor.start (high :: low :: rest) address)
    if result.instruction.valid && !result.cursor.overflow then
      let extension := result.instruction.size.toNat - 2
      .instruction result.instruction (high :: low :: rest.take extension) result.events ::
        d.steps (rest.drop extension) (address.advance (2 + extension))
    else
      let truncation := if result.cursor.overflow then
        d.report [.truncated result.instruction.form address] else []
      .data address [high, low] (result.events ++ truncation) :: d.steps rest (address + 2)
termination_by image.length

/-- The listing of an image at an address. -/
def listing (d : Decoder) (image : List Byte) (origin : Address) : Listing :=
  let steps := d.steps image origin
  { lines := steps.foldr Step.prepend [], events := steps.flatMap Step.events }

end Decoder
end M68k
