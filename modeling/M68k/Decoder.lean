import M68k.Event
import M68k.Instruction

/-!
Reading one instruction at a cursor: the first matching form that accepts the word
gives the mnemonic and the operand field. Reading never fails; a word that no form
accepts is an instruction that is not valid.
-/
namespace M68k

/-- How to read and what to report. -/
structure Decoder where
  style : Style := .classic
  /-- The least severe level that is reported, if anything is. -/
  threshold : Option Level := none
deriving DecidableEq, Repr

/-- What reading an instruction gives. -/
structure Decoded where
  instruction : Instruction
  cursor : Cursor
  events : List Event
deriving DecidableEq, Repr

namespace Decoder

/-- The events that the threshold lets through. -/
def report (d : Decoder) (events : List Event) : List Event :=
  events.filter (·.level.passes d.threshold)

/-- Reads the instruction at a cursor. -/
def decode (d : Decoder) (c : Cursor) : Decoded :=
  let (op, next) := c.readWord
  let rejections := (Form.rejected d.style op).map (Event.rejected · op c.address)
  match Form.select? d.style op with
  | none =>
    { instruction :=
        { address := c.address, op, size := UInt32.ofNat (next.position - c.position) }
      cursor := next
      events := d.report rejections ++ d.report [.unmatched op c.address] }
  | some form =>
    let reading := Reading.ofPieces (form.operands d.style op) next
    let faults := reading.fault.toList.map (Event.unrenderable · form c.address)
    { instruction :=
        { address := c.address
          op
          form := some form
          mnemonic := form.mnemonic d.style op
          operands := reading.text
          size := UInt32.ofNat (reading.cursor.position - c.position)
          valid := true }
      cursor := reading.cursor
      events := d.report rejections ++ d.report faults ++
        d.report [.decoded form op c.address] }

end Decoder
end M68k
