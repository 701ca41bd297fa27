import M68k.Condition
import M68k.Piece

/-!
The families of instruction encodings. For each family: the size of its operands,
which words it accepts, the mnemonic it writes, and the pieces of its operand field.
All of them depend on the instruction word and the style alone.
-/
namespace M68k

open Text (hex decimal)

/-- The kinds of two-operand arithmetic and logic between a data register and an
    effective address. -/
inductive Dyadic where
  /-- Addition and subtraction, which may read address registers. -/
  | arithmetic
  /-- Conjunction and disjunction. -/
  | logical
  /-- Exclusive disjunction, which only writes to the effective address. -/
  | exclusive
deriving DecidableEq, Repr

/-- A family of encodings that share their fields. -/
inductive Encoding where
  /-- Decimal addition and subtraction of register pairs. -/
  | packedDecimal
  /-- A data register and an effective address, in the direction that bit 8 gives. -/
  | dyadic (kind : Dyadic)
  /-- Addition to and subtraction from an address register. -/
  | addressArithmetic
  /-- Comparison with an address register. -/
  | addressCompare
  /-- Immediate data and a destination, which may be the status register if `status`. -/
  | immediate (status : Bool)
  /-- A small constant and a destination. -/
  | quick
  /-- Extended addition and subtraction of register pairs. -/
  | extended
  /-- Comparison of memory through two registers that count up. -/
  | memoryCompare
  /-- Shifts and rotates of a data register. -/
  | shiftRegister
  /-- Shifts and rotates of a word in memory. -/
  | shiftMemory
  /-- Branches and near calls. -/
  | branch
  /-- Branches that count a data register down. -/
  | decrementBranch
  /-- Setting a byte by a condition. -/
  | setByCondition
  /-- Jumps, far calls and pushing an address. -/
  | control
  /-- Loading an address into an address register. -/
  | loadAddress
  /-- A bit chosen by a data register. -/
  | bitByRegister (readOnly : Bool)
  /-- A bit chosen by its number. -/
  | bitByNumber (readOnly : Bool)
  /-- Comparison with a data register. -/
  | compare
  /-- Word operations on a data register. -/
  | wordToRegister
  /-- Operations on one operand of any size. -/
  | unary
  /-- Testing and setting a byte. -/
  | testAndSet
  /-- Testing an operand. -/
  | test
  /-- Exchanging two registers. -/
  | exchange
  /-- Sign extension of a data register. -/
  | extend
  /-- Opening a stack frame. -/
  | link
  /-- Closing a stack frame. -/
  | unlink
  /-- Exchanging the halves of a data register. -/
  | swap
  /-- A trap by number. -/
  | trap
  /-- Nothing but the instruction word. -/
  | implied
  /-- Stopping with a status word, which the classic style leaves out. -/
  | stop
  /-- A move between two effective addresses. -/
  | move
  /-- A move to an address register. -/
  | moveAddress
  /-- A move to the named status register. -/
  | moveToStatus (register : String)
  /-- A move from the status register. -/
  | moveFromStatus
  /-- A move to or from the user stack pointer. -/
  | moveUserStack
  /-- A move of several registers. -/
  | moveMultiple
  /-- A move to or from every other byte of memory. -/
  | movePeripheral
  /-- A move of a small constant to a data register. -/
  | moveQuick
deriving DecidableEq, Repr

namespace Encoding

/-- The size of the operands. -/
def size : Encoding → Word → Size
  | .dyadic _, w | .immediate _, w | .quick, w | .extended, w | .memoryCompare, w
  | .shiftRegister, w | .compare, w | .unary, w | .test, w => Size.ofField w
  | .addressArithmetic, w | .addressCompare, w => Size.ofBit w 8
  | .extend, w | .moveMultiple, w | .movePeripheral, w => Size.ofBit w 6
  | .move, w | .moveAddress, w => Size.ofMoveField w
  | .wordToRegister, _ | .moveToStatus _, _ | .moveFromStatus, _ => .word
  | _, _ => .byte

/-- Whether the mnemonic carries the size. -/
def isSized : Encoding → Style → Bool
  | .test, style => style = .corrected
  | .packedDecimal, _ | .shiftMemory, _ | .branch, _ | .decrementBranch, _ | .setByCondition, _
  | .control, _ | .loadAddress, _ | .bitByRegister _, _ | .bitByNumber _, _
  | .wordToRegister, _ | .testAndSet, _ | .exchange, _ | .link, _ | .unlink, _ | .swap, _
  | .trap, _ | .implied, _ | .stop, _ | .moveUserStack, _ | .moveQuick, _ => false
  | _, _ => true

/-- The mnemonic of an instruction of the given name. -/
def mnemonic (e : Encoding) (style : Style) (name : String) (w : Word) : String :=
  match e with
  | .branch => (Condition.ofField w).branchMnemonic
  | .decrementBranch => "DB" ++ (Condition.ofField w).letters
  | .setByCondition => "S" ++ (Condition.ofField w).letters
  | _ => if e.isSized style then name ++ "." ++ (e.size w).name else name

/-! ## Acceptance -/

/-- The combinations of a dyadic operation. The corrected style leaves register
    destinations to the encodings made for them. -/
def acceptsDyadic (kind : Dyadic) (style : Style) (size : Size) (mode : Mode)
    (toAddress : Bool) : Bool :=
  size.isValid && mode.isValid &&
  !(kind = .arithmetic && mode = .addressRegister && size = .byte) &&
  !(kind = .exclusive && !toAddress) &&
  !(toAddress && !mode.isAlterable) &&
  (style = .classic ||
    !(toAddress && mode = .addressRegister) &&
    !(toAddress && mode = .dataRegister && kind != .exclusive) &&
    !(kind = .logical && mode = .addressRegister))

/-- The operand modes of a move of several registers: memory, but a store does not
    count up and a load does not count down. -/
def acceptsMultiple (mode : Mode) (load : Bool) : Bool :=
  mode.isMemory && mode != .immediate &&
    !(!load && mode = .postincrement) && !(load && mode = .predecrement)

/-- The codes of the register classes that can be exchanged. -/
def isExchange (code : Nat) : Bool := code = 8 || code = 9 || code = 17

/-- Whether the fields of a word make sense for the family. -/
def accepts (e : Encoding) (style : Style) (w : Word) : Bool :=
  let mode := Mode.ofField w
  let size := e.size w
  match e with
  | .packedDecimal | .branch | .decrementBranch | .extend | .link | .unlink | .swap | .trap
  | .implied | .stop | .moveUserStack | .movePeripheral | .moveQuick => true
  | .dyadic kind => acceptsDyadic kind style size mode (w.bit 8)
  | .addressArithmetic | .addressCompare => mode.isValid
  | .immediate status =>
    size.isValid && (mode.isData && mode.isAlterable || status && mode = .immediate)
  | .quick => size.isValid && mode.isAlterable && !(size = .byte && mode = .addressRegister)
  | .extended | .memoryCompare | .shiftRegister => size.isValid
  | .shiftMemory => mode.isMemory && mode.isAlterable
  | .setByCondition | .testAndSet | .moveFromStatus => mode.isData && mode.isAlterable
  | .control | .loadAddress => mode.isControl
  | .bitByRegister readOnly | .bitByNumber readOnly =>
    mode.isData && (mode.isAlterable || readOnly && mode != .immediate)
  | .compare => size.isValid && mode.isValid
  | .wordToRegister | .moveToStatus _ => mode.isData
  | .unary | .test => size.isValid && mode.isData && mode.isAlterable
  | .exchange => isExchange (w.field 3 5)
  | .move =>
    let destination := Mode.ofField w.destinationField
    size.isValid && mode.isValid && destination.isData && destination.isAlterable
  | .moveAddress => (size = .word || size = .long) && mode.isValid
  | .moveMultiple => acceptsMultiple mode (w.bit 10)

/-! ## Operand fields -/

/-- A data register. -/
def dataRegister (n : Nat) : String := "D" ++ decimal n

/-- An address register. -/
def addressRegister (n : Nat) : String := "A" ++ decimal n

/-- A count in three bits, where zero stands for eight. -/
def count (n : Nat) : String := "#" ++ decimal (if n = 0 then 8 else n)

/-- Two registers to exchange. The classic style names the one in the low bits first,
    whatever its class. -/
def exchanged (style : Style) (w : Word) : String :=
  let (first, second) :=
    match style with
    | .classic => (w.lowRegister, w.highRegister)
    | .corrected => (w.highRegister, w.lowRegister)
  match w.field 3 5 with
  | 8 => dataRegister first ++ "," ++ dataRegister second
  | 9 => addressRegister first ++ "," ++ addressRegister second
  | _ => dataRegister first ++ "," ++ addressRegister second

/-- The two registers of a decimal operation. The classic style misplaces a bracket
    when they count down. -/
def decimalPair (style : Style) (w : Word) : String :=
  if w.bit 3 then
    "-(" ++ addressRegister w.lowRegister ++
      match style with
      | .classic => "),-A(" ++ decimal w.highRegister ++ ")"
      | .corrected => "),-(" ++ addressRegister w.highRegister ++ ")"
  else dataRegister w.lowRegister ++ "," ++ dataRegister w.highRegister

/-- The bits of its extension word that make up the number of a bit. -/
def bitNumberMask : Style → Word
  | .classic => 0x2F
  | .corrected => 0xFF

/-- The status register that immediate data goes to. -/
def statusRegister (style : Style) (size : Size) : String :=
  if style = .corrected && size = .byte then "CCR" else "SR"

/-- The pieces of the operand field. -/
def operands (e : Encoding) (style : Style) (w : Word) : List Piece :=
  let size := e.size w
  let address := Piece.operand (Operand.ofField w size)
  let low := w.lowRegister
  let high := w.highRegister
  match e with
  | .packedDecimal => [.text (decimalPair style w)]
  | .dyadic _ =>
    if w.bit 8 then [.text (dataRegister high ++ ","), address]
    else [address, .text ("," ++ dataRegister high)]
  | .addressArithmetic =>
    [address, .text ("," ++ addressRegister (if style = .classic then low else high))]
  | .addressCompare | .loadAddress | .moveAddress =>
    [address, .text ("," ++ addressRegister high)]
  | .immediate _ =>
    [.immediate size, .text ",",
      if Mode.ofField w = .immediate then .text (statusRegister style size) else address]
  | .quick => [.text (count high ++ ","), address]
  | .extended =>
    [.text (if w.bit 3 then
        "-(" ++ addressRegister low ++ "),-(" ++ addressRegister high ++ ")"
      else dataRegister low ++ "," ++ dataRegister high)]
  | .memoryCompare =>
    [.text ("(" ++ addressRegister low ++ ")+,(" ++ addressRegister high ++ ")+")]
  | .shiftRegister =>
    [.text ((if w.bit 5 then dataRegister high else count high) ++ "," ++ dataRegister low)]
  | .branch => if w.field 0 8 = 0 then [.target] else [.nearTarget w.lowSigned]
  | .decrementBranch => [.text (dataRegister low ++ ","), .target]
  | .shiftMemory | .setByCondition | .control | .unary | .testAndSet | .test => [address]
  | .bitByRegister _ => [.text (dataRegister high ++ ","), address]
  | .bitByNumber _ => [.bitNumber (bitNumberMask style), .text ",", address]
  | .compare | .wordToRegister => [address, .text ("," ++ dataRegister high)]
  | .exchange => [.text (exchanged style w)]
  | .extend | .swap => [.text (dataRegister low)]
  | .link => [.text (addressRegister low ++ ","), .frameSize]
  | .unlink => [.text (addressRegister low)]
  | .trap =>
    [.text ((if style = .corrected then "#" else "") ++ decimal (w.field 0 4))]
  | .implied => [.text " "]
  | .stop => if style = .corrected then [.immediate .word] else [.text " "]
  | .move =>
    [address, .text ",", .operand (Operand.ofField w.destinationField size),
      .text (if style = .classic then " " else "")]
  | .moveToStatus register => [address, .text ("," ++ register)]
  | .moveFromStatus => [.text "SR,", address]
  | .moveUserStack =>
    [.text (if w.bit 3 then "USP," ++ addressRegister low else addressRegister low ++ ",USP")]
  | .moveMultiple =>
    if w.bit 10 then [.load (Operand.ofField w size) style]
    else [.store (Mode.ofField w = .predecrement), address]
  | .movePeripheral =>
    if w.bit 7 then
      [.text (dataRegister high ++ ","), .offset, .text ("(" ++ addressRegister low ++ ")")]
    else
      [.offset, .text ("(" ++ addressRegister low ++ ")," ++ dataRegister high)]
  | .moveQuick => [.text ("#$" ++ hex .upper 2 (w.field 0 8) ++ "," ++ dataRegister high)]

end Encoding
end M68k
