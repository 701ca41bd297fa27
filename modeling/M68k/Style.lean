/-!
The two ways to write a program down.
-/
namespace M68k

/-- The reading of the encodings. `classic` is the traditional listing with its known
    defects: exchanged rotate directions, missing sizes and immediates, and register
    forms hidden behind the general ones. `corrected` follows the processor manual. -/
inductive Style where
  | classic
  | corrected
deriving DecidableEq, Repr

end M68k
