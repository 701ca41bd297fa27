/-!
The machine's words and addresses: bit fields, sign extension, the big-endian view
of a row of bytes as words, and address arithmetic, which wraps at 32 bits.
-/
namespace M68k

abbrev Byte := UInt8
abbrev Word := UInt16
abbrev Address := UInt32

namespace Word

/-- The `width` bits of a word from bit `low` upwards, as a number. -/
def field (w : Word) (low width : Nat) : Nat := (w.toNat >>> low) % (1 <<< width)

/-- Whether bit `i` is set, bit 0 being the least significant. -/
def bit (w : Word) (i : Nat) : Bool := w.toNat.testBit i

/-- The register number in bits 2-0. -/
def lowRegister (w : Word) : Nat := w.field 0 3

/-- The register number in bits 11-9. -/
def highRegister (w : Word) : Nat := w.field 9 3

/-- The six-bit address field of a MOVE destination, whose register stands in bits
    11-9 before its mode in bits 8-6, in the usual order of mode before register. -/
def destinationField (w : Word) : Word := UInt16.ofNat (w.field 6 3 * 8 + w.field 9 3)

/-- The word as a two's complement number. -/
def signed (w : Word) : Int := Int.bmod w.toNat 65536

/-- The low byte as a two's complement number. -/
def lowSigned (w : Word) : Int := Int.bmod (w.field 0 8) 256

/-- The word with its sixteen bits in the opposite order. -/
def reversed (w : Word) : Word :=
  UInt16.ofNat ((List.range 16).foldl (fun n i => 2 * n + (w.bit i).toNat) 0)

/-- The word of two bytes, the more significant first. -/
def ofBytes (high low : Byte) : Word := UInt16.ofNat (high.toNat * 256 + low.toNat)

/-- The two bytes of a word, the more significant first. -/
def toBytes (w : Word) : List Byte := [UInt8.ofNat (w.toNat / 256), UInt8.ofNat w.toNat]

end Word

/-- The bytes of a row of words, each big-endian. -/
def bytesOfWords (words : List Word) : List Byte := words.flatMap Word.toBytes

/-- A row of bytes as big-endian words. An odd last byte is followed by a zero. -/
def wordsOfBytes : List Byte → List Word
  | [] => []
  | [b] => [Word.ofBytes b 0]
  | high :: low :: rest => Word.ofBytes high low :: wordsOfBytes rest

namespace Address

/-- The address a signed distance away. -/
def offset (a : Address) (distance : Int) : Address := a + UInt32.ofInt distance

/-- The address `n` bytes further. -/
def advance (a : Address) (n : Nat) : Address := a + UInt32.ofNat n

/-- The word boundary at or below an address. -/
def aligned (a : Address) : Address := UInt32.ofNat (a.toNat - a.toNat % 2)

end Address
end M68k
