import M68k.Encoding

/-!
The catalogue of instruction forms. A form is one bit pattern with a name and a family
of encodings; the order of the catalogue is the order in which a word is tried.
-/
namespace M68k

/-- An instruction form, in catalogue order. -/
inductive Form where
  | abcd
  | add
  | adda
  | addi
  | addq
  | addx
  | and
  | andi
  | aslRegister
  | aslMemory
  | asrRegister
  | asrMemory
  | branch
  | bchgRegister
  | bchgNumber
  | bclrRegister
  | bclrNumber
  | bsetRegister
  | bsetNumber
  | btstRegister
  | btstNumber
  | chk
  | clr
  | cmp
  | cmpa
  | cmpi
  | cmpm
  | decrementBranch
  | divs
  | divu
  | eor
  | eori
  | exg
  | ext
  | jmp
  | jsr
  | lea
  | link
  | lslRegister
  | lslMemory
  | lsrRegister
  | lsrMemory
  | move
  | moveToConditions
  | moveToStatus
  | moveFromStatus
  | moveUserStack
  | movea
  | movem
  | movep
  | moveq
  | muls
  | mulu
  | nbcd
  | neg
  | negx
  | nop
  | not
  | or
  | ori
  | pea
  | reset
  | rolRegister
  | rolMemory
  | rorRegister
  | rorMemory
  | roxlRegister
  | roxlMemory
  | roxrRegister
  | roxrMemory
  | rte
  | rtr
  | rts
  | sbcd
  | setByCondition
  | stop
  | sub
  | suba
  | subi
  | subq
  | subx
  | swap
  | tas
  | trap
  | trapv
  | tst
  | unlk
deriving DecidableEq, Repr

/-- What the catalogue says about a form. A word matches if it agrees with `value` in the
    bits of `mask`. -/
structure Form.Entry where
  mask : Word
  value : Word
  name : String
  variant : String
  encoding : Encoding
deriving DecidableEq, Repr

namespace Form

/-- All forms in catalogue order. -/
def all : List Form :=
  [.abcd, .add, .adda, .addi, .addq, .addx, .and, .andi, .aslRegister, .aslMemory, .asrRegister,
   .asrMemory, .branch, .bchgRegister, .bchgNumber, .bclrRegister, .bclrNumber, .bsetRegister,
   .bsetNumber, .btstRegister, .btstNumber, .chk, .clr, .cmp, .cmpa, .cmpi, .cmpm,
   .decrementBranch, .divs, .divu, .eor, .eori, .exg, .ext, .jmp, .jsr, .lea, .link, .lslRegister,
   .lslMemory, .lsrRegister, .lsrMemory, .move, .moveToConditions, .moveToStatus, .moveFromStatus,
   .moveUserStack, .movea, .movem, .movep, .moveq, .muls, .mulu, .nbcd, .neg, .negx, .nop, .not,
   .or, .ori, .pea, .reset, .rolRegister, .rolMemory, .rorRegister, .rorMemory, .roxlRegister,
   .roxlMemory, .roxrRegister, .roxrMemory, .rte, .rtr, .rts, .sbcd, .setByCondition, .stop, .sub,
   .suba, .subi, .subq, .subx, .swap, .tas, .trap, .trapv, .tst, .unlk]

/-- The catalogue's entry for a form. -/
def entry : Form → Entry
  | .abcd => ⟨0xF1F0, 0xC100, "ABCD", "", .packedDecimal⟩
  | .add => ⟨0xF000, 0xD000, "ADD", "", .dyadic .arithmetic⟩
  | .adda => ⟨0xF0C0, 0xD0C0, "ADDA", "", .addressArithmetic⟩
  | .addi => ⟨0xFF00, 0x0600, "ADDI", "", .immediate false⟩
  | .addq => ⟨0xF100, 0x5000, "ADDQ", "", .quick⟩
  | .addx => ⟨0xF130, 0xD100, "ADDX", "", .extended⟩
  | .and => ⟨0xF000, 0xC000, "AND", "", .dyadic .logical⟩
  | .andi => ⟨0xFF00, 0x0200, "ANDI", "", .immediate true⟩
  | .aslRegister => ⟨0xF118, 0xE100, "ASL", "Dn", .shiftRegister⟩
  | .aslMemory => ⟨0xFFC0, 0xE1C0, "ASL", "ea", .shiftMemory⟩
  | .asrRegister => ⟨0xF118, 0xE000, "ASR", "Dn", .shiftRegister⟩
  | .asrMemory => ⟨0xFFC0, 0xE0C0, "ASR", "ea", .shiftMemory⟩
  | .branch => ⟨0xF000, 0x6000, "Bcc", "", .branch⟩
  | .bchgRegister => ⟨0xF1C0, 0x0140, "BCHG", "Dn", .bitByRegister false⟩
  | .bchgNumber => ⟨0xFFC0, 0x0840, "BCHG", "#", .bitByNumber false⟩
  | .bclrRegister => ⟨0xF1C0, 0x0180, "BCLR", "Dn", .bitByRegister false⟩
  | .bclrNumber => ⟨0xFFC0, 0x0880, "BCLR", "#", .bitByNumber false⟩
  | .bsetRegister => ⟨0xF1C0, 0x01C0, "BSET", "Dn", .bitByRegister false⟩
  | .bsetNumber => ⟨0xFFC0, 0x08C0, "BSET", "#", .bitByNumber false⟩
  | .btstRegister => ⟨0xF1C0, 0x0100, "BTST", "Dn", .bitByRegister true⟩
  | .btstNumber => ⟨0xFFC0, 0x0800, "BTST", "#", .bitByNumber true⟩
  | .chk => ⟨0xF1C0, 0x4180, "CHK", "", .wordToRegister⟩
  | .clr => ⟨0xFF00, 0x4200, "CLR", "", .unary⟩
  | .cmp => ⟨0xF100, 0xB000, "CMP", "", .compare⟩
  | .cmpa => ⟨0xF0C0, 0xB0C0, "CMPA", "", .addressCompare⟩
  | .cmpi => ⟨0xFF00, 0x0C00, "CMPI", "", .immediate false⟩
  | .cmpm => ⟨0xF138, 0xB108, "CMPM", "", .memoryCompare⟩
  | .decrementBranch => ⟨0xF0F8, 0x50C8, "DBcc", "", .decrementBranch⟩
  | .divs => ⟨0xF1C0, 0x81C0, "DIVS", "", .wordToRegister⟩
  | .divu => ⟨0xF1C0, 0x80C0, "DIVU", "", .wordToRegister⟩
  | .eor => ⟨0xF100, 0xB100, "EOR", "", .dyadic .exclusive⟩
  | .eori => ⟨0xFF00, 0x0A00, "EORI", "", .immediate true⟩
  | .exg => ⟨0xF100, 0xC100, "EXG", "", .exchange⟩
  | .ext => ⟨0xFFB8, 0x4880, "EXT", "", .extend⟩
  | .jmp => ⟨0xFFC0, 0x4EC0, "JMP", "", .control⟩
  | .jsr => ⟨0xFFC0, 0x4E80, "JSR", "", .control⟩
  | .lea => ⟨0xF1C0, 0x41C0, "LEA", "", .loadAddress⟩
  | .link => ⟨0xFFF8, 0x4E50, "LINK", "", .link⟩
  | .lslRegister => ⟨0xF118, 0xE108, "LSL", "Dn", .shiftRegister⟩
  | .lslMemory => ⟨0xFFC0, 0xE3C0, "LSL", "ea", .shiftMemory⟩
  | .lsrRegister => ⟨0xF118, 0xE008, "LSR", "Dn", .shiftRegister⟩
  | .lsrMemory => ⟨0xFFC0, 0xE2C0, "LSR", "ea", .shiftMemory⟩
  | .move => ⟨0xC000, 0x0000, "MOVE", "", .move⟩
  | .moveToConditions => ⟨0xFFC0, 0x44C0, "MOVE", "to CCR", .moveToStatus "CCR"⟩
  | .moveToStatus => ⟨0xFFC0, 0x46C0, "MOVE", "to SR", .moveToStatus "SR"⟩
  | .moveFromStatus => ⟨0xFFC0, 0x40C0, "MOVE", "from SR", .moveFromStatus⟩
  | .moveUserStack => ⟨0xFFF0, 0x4E60, "MOVE", "USP", .moveUserStack⟩
  | .movea => ⟨0xC1C0, 0x0040, "MOVEA", "", .moveAddress⟩
  | .movem => ⟨0xFB80, 0x4880, "MOVEM", "", .moveMultiple⟩
  | .movep => ⟨0xF138, 0x0108, "MOVEP", "", .movePeripheral⟩
  | .moveq => ⟨0xF100, 0x7000, "MOVEQ", "", .moveQuick⟩
  | .muls => ⟨0xF1C0, 0xC1C0, "MULS", "", .wordToRegister⟩
  | .mulu => ⟨0xF1C0, 0xC0C0, "MULU", "", .wordToRegister⟩
  | .nbcd => ⟨0xFFC0, 0x4800, "NBCD", "", .unary⟩
  | .neg => ⟨0xFF00, 0x4400, "NEG", "", .unary⟩
  | .negx => ⟨0xFF00, 0x4000, "NEGX", "", .unary⟩
  | .nop => ⟨0xFFFF, 0x4E71, "NOP", "", .implied⟩
  | .not => ⟨0xFF00, 0x4600, "NOT", "", .unary⟩
  | .or => ⟨0xF000, 0x8000, "OR", "", .dyadic .logical⟩
  | .ori => ⟨0xFF00, 0x0000, "ORI", "", .immediate true⟩
  | .pea => ⟨0xFFC0, 0x4840, "PEA", "", .control⟩
  | .reset => ⟨0xFFFF, 0x4E70, "RESET", "", .implied⟩
  | .rolRegister => ⟨0xF118, 0xE118, "ROL", "Dn", .shiftRegister⟩
  | .rolMemory => ⟨0xFFC0, 0xE7C0, "ROL", "ea", .shiftMemory⟩
  | .rorRegister => ⟨0xF118, 0xE018, "ROR", "Dn", .shiftRegister⟩
  | .rorMemory => ⟨0xFFC0, 0xE6C0, "ROR", "ea", .shiftMemory⟩
  | .roxlRegister => ⟨0xF118, 0xE110, "ROXL", "Dn", .shiftRegister⟩
  | .roxlMemory => ⟨0xFFC0, 0xE5C0, "ROXL", "ea", .shiftMemory⟩
  | .roxrRegister => ⟨0xF118, 0xE010, "ROXR", "Dn", .shiftRegister⟩
  | .roxrMemory => ⟨0xFFC0, 0xE4C0, "ROXR", "ea", .shiftMemory⟩
  | .rte => ⟨0xFFFF, 0x4E73, "RTE", "", .implied⟩
  | .rtr => ⟨0xFFFF, 0x4E77, "RTR", "", .implied⟩
  | .rts => ⟨0xFFFF, 0x4E75, "RTS", "", .implied⟩
  | .sbcd => ⟨0xF1F0, 0x8100, "SBCD", "", .packedDecimal⟩
  | .setByCondition => ⟨0xF0C0, 0x50C0, "Scc", "", .setByCondition⟩
  | .stop => ⟨0xFFFF, 0x4E72, "STOP", "", .stop⟩
  | .sub => ⟨0xF000, 0x9000, "SUB", "", .dyadic .arithmetic⟩
  | .suba => ⟨0xF0C0, 0x90C0, "SUBA", "", .addressArithmetic⟩
  | .subi => ⟨0xFF00, 0x0400, "SUBI", "", .immediate false⟩
  | .subq => ⟨0xF100, 0x5100, "SUBQ", "", .quick⟩
  | .subx => ⟨0xF130, 0x9100, "SUBX", "", .extended⟩
  | .swap => ⟨0xFFF8, 0x4840, "SWAP", "", .swap⟩
  | .tas => ⟨0xFFC0, 0x4AC0, "TAS", "", .testAndSet⟩
  | .trap => ⟨0xFFF0, 0x4E40, "TRAP", "", .trap⟩
  | .trapv => ⟨0xFFFF, 0x4E76, "TRAPV", "", .implied⟩
  | .tst => ⟨0xFF00, 0x4A00, "TST", "", .test⟩
  | .unlk => ⟨0xFFF8, 0x4E58, "UNLK", "", .unlink⟩

/-- The number of catalogue slots; slot 0 stands for no form. -/
def slots : Nat := all.length + 1

/-- The place of a form in the catalogue, counted from 1. -/
def index (f : Form) : Nat := all.idxOf f + 1

/-- The form at a place of the catalogue. -/
def ofIndex? (i : Int) : Option Form := if 1 ≤ i then all[(i - 1).toNat]? else none

/-- The name of a form with its variant. -/
def title (f : Form) : String :=
  if f.entry.variant = "" then f.entry.name else f.entry.name ++ " " ++ f.entry.variant

/-- Whether a word has the bit pattern of a form. -/
def fits (f : Form) (w : Word) : Bool := w &&& f.entry.mask = f.entry.value

/-- The forms whose bit pattern a word has, in catalogue order. -/
def matching (w : Word) : List Form := all.filter (·.fits w)

/-- The name that starts a mnemonic. The classic style exchanges the two rotates. -/
def stem (f : Form) (style : Style) : String :=
  match style, f with
  | .classic, .rolRegister | .classic, .rolMemory => "ROR"
  | .classic, .rorRegister | .classic, .rorMemory => "ROL"
  | _, _ => f.entry.name

/-- Whether the fields of a word make sense for a form. -/
def accepts (f : Form) (style : Style) (w : Word) : Bool := f.entry.encoding.accepts style w

/-- The mnemonic a form gives a word. -/
def mnemonic (f : Form) (style : Style) (w : Word) : String :=
  f.entry.encoding.mnemonic style (f.stem style) w

/-- The pieces of the operand field a form gives a word. -/
def operands (f : Form) (style : Style) (w : Word) : List Piece :=
  f.entry.encoding.operands style w

/-- The form that a word is read as: the first of the matching ones that accepts it. -/
def select? (style : Style) (w : Word) : Option Form :=
  (matching w).find? (·.accepts style w)

/-- The forms that were tried before it and did not accept. -/
def rejected (style : Style) (w : Word) : List Form :=
  (matching w).takeWhile (!·.accepts style w)

end Form
end M68k
