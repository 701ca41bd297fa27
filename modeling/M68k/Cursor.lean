import M68k.Word

/-!
Reading bytes and words from a window while an address keeps step. A read past the
end gives zero, moves nothing and leaves a mark that stays.
-/
namespace M68k

/-- A place in a window of bytes. -/
structure Cursor where
  /-- The bytes not read yet. -/
  rest : List Byte
  /-- The number of bytes read. -/
  position : Nat
  /-- The address of the next byte. -/
  address : Address
  /-- Whether a read has run past the end. -/
  overflow : Bool
deriving DecidableEq, Repr

namespace Cursor

/-- The cursor at the start of a window that lies at an address. -/
def start (window : List Byte) (address : Address) : Cursor :=
  { rest := window, position := 0, address, overflow := false }

/-- The number of bytes not read yet. -/
def remaining (c : Cursor) : Nat := c.rest.length

/-- The next byte, or zero if there is none. -/
def readByte (c : Cursor) : Byte × Cursor :=
  match c.rest with
  | b :: rest =>
    (b, { c with rest, position := c.position + 1, address := c.address + 1 })
  | [] => (0, { c with overflow := true })

/-- The next two bytes as a big-endian word, or zero if there are fewer. -/
def readWord (c : Cursor) : Word × Cursor :=
  match c.rest with
  | high :: low :: rest =>
    (Word.ofBytes high low,
      { c with rest, position := c.position + 2, address := c.address + 2 })
  | _ => (0, { c with overflow := true })

/-- The next `n` words, each zero where the window has ended. -/
def readWords : Nat → Cursor → List Word × Cursor
  | 0, c => ([], c)
  | n + 1, c =>
    let (w, c) := c.readWord
    let (ws, c) := readWords n c
    (w :: ws, c)

end Cursor
end M68k
