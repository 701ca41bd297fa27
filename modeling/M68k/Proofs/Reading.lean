import Mathlib
import M68k.Decoder

/-!
What reading does to a cursor. Reading `n` words moves it by the words that are there
and leaves the mark if some are not (`skip`). A row of pieces without a fault reads the
words of all its pieces, one piece behind the other.
-/
namespace M68k

namespace Address

@[simp] theorem advance_zero (a : Address) : a.advance 0 = a := by
  simp [advance]

theorem advance_advance (a : Address) (m n : Nat) : (a.advance m).advance n = a.advance (m + n) := by
  simp only [advance, UInt32.ofNat_add]
  ac_rfl

theorem add_two (a : Address) : a + 2 = a.advance 2 := rfl

theorem toNat_advance (a : Address) (n : Nat) : (a.advance n).toNat = (a.toNat + n) % 2 ^ 32 := by
  simp [advance]

theorem toNat_ofInt (n : Int) : (UInt32.ofInt n).toNat = (n % 2 ^ 32).toNat := by
  have fits : (n % 2 ^ 32).toNat < 2 ^ 32 := by omega
  rw [UInt32.ofInt, UInt32.toNat_ofNat_of_lt' fits]

/-- A distance leads to the sum of the numbers, which wraps. -/
theorem toNat_offset (a : Address) (distance : Int) :
    ((a.offset distance).toNat : Int) = (a.toNat + distance) % 2 ^ 32 := by
  rw [offset, UInt32.toNat_add, toNat_ofInt]
  omega

end Address

/-- The word at the start of a window, zero where there are fewer than two bytes. -/
def leadingWord : List Byte → Word
  | high :: low :: _ => Word.ofBytes high low
  | _ => 0

theorem leadingWord_of_short {bytes : List Byte} (short : bytes.length < 2) :
    leadingWord bytes = 0 := by
  match bytes with
  | [] | [_] => rfl

theorem leadingWord_append {front : List Byte} (two : 2 ≤ front.length) (back : List Byte) :
    leadingWord (front ++ back) = leadingWord front := by
  match front with
  | [] | [_] => simp at two
  | high :: low :: rest => rfl

theorem Word.toNat_ofBytes (high low : Byte) : (Word.ofBytes high low).toNat = 256 * high.toNat + low.toNat := by
  have first := high.toNat_lt
  have second := low.toNat_lt
  have fits : high.toNat * 256 + low.toNat < 2 ^ 16 := by omega
  rw [Word.ofBytes, UInt16.toNat_ofNat_of_lt' fits, Nat.mul_comm]

theorem Word.ofBytes_toBytes (w : Word) : Word.ofBytes (UInt8.ofNat (w.toNat / 256)) (UInt8.ofNat w.toNat) = w := by
  have bound := w.toNat_lt
  apply UInt16.toNat_inj.mp
  simp only [Word.ofBytes, UInt16.toNat_ofNat', UInt8.toNat_ofNat']
  omega

theorem leadingWord_bytesOfWords (w : Word) (words : List Word) : leadingWord (bytesOfWords (w :: words)) = w :=
  w.ofBytes_toBytes

theorem bytesOfWords_cons (w : Word) (words : List Word) :
    bytesOfWords (w :: words) = w.toBytes ++ bytesOfWords words :=
  List.flatMap_cons

theorem length_bytesOfWords (words : List Word) : (bytesOfWords words).length = 2 * words.length := by
  induction words with
  | nil => rfl
  | cons w words ih =>
    rw [bytesOfWords_cons, List.length_append, ih, List.length_cons]
    simp only [Word.toBytes, List.length_cons, List.length_nil]
    omega

theorem bytesOfWords_append (front back : List Word) :
    bytesOfWords (front ++ back) = bytesOfWords front ++ bytesOfWords back :=
  List.flatMap_append

namespace Cursor

/-- The cursor behind `n` words. Only the words that are there move it; if some are
    not, the mark is left. -/
def skip (c : Cursor) (n : Nat) : Cursor :=
  let present := min n (c.rest.length / 2)
  { rest := c.rest.drop (2 * present)
    position := c.position + 2 * present
    address := c.address.advance (2 * present)
    overflow := c.overflow || decide (c.rest.length < 2 * n) }

@[simp] theorem skip_zero (c : Cursor) : c.skip 0 = c := by
  simp [skip]

theorem readWord_fst (c : Cursor) : c.readWord.1 = leadingWord c.rest := by
  match present : c.rest with
  | [] => simp [readWord, leadingWord, present]
  | [b] => simp [readWord, leadingWord, present]
  | high :: low :: rest => simp [readWord, leadingWord, present]

theorem readWord_snd (c : Cursor) : c.readWord.2 = c.skip 1 := by
  obtain ⟨rest, position, address, overflow⟩ := c
  match rest with
  | [] => simp [readWord, skip]
  | [b] => simp [readWord, skip]
  | high :: low :: rest =>
    have present : min 1 ((rest.length + 2) / 2) = 1 := by omega
    simp [readWord, skip, present, Address.add_two]

/-- Skipping in two parts is skipping at once: a part that is missing some words leaves
    fewer than two bytes, so that the other part finds none. -/
theorem skip_skip (c : Cursor) (m n : Nat) : (c.skip m).skip n = c.skip (m + n) := by
  have total : min m (c.rest.length / 2) +
      min n ((c.rest.length - 2 * min m (c.rest.length / 2)) / 2) =
      min (m + n) (c.rest.length / 2) := by omega
  have missing : (c.rest.length < 2 * m ∨
      c.rest.length - 2 * min m (c.rest.length / 2) < 2 * n) ↔ c.rest.length < 2 * (m + n) := by
    omega
  simp only [skip, List.length_drop, List.drop_drop, Address.advance_advance, ← total, mk.injEq]
  refine ⟨by rw [Nat.mul_add], by omega, by rw [Nat.mul_add], ?_⟩
  rw [Bool.or_assoc, ← Bool.decide_or]
  simp only [missing]

theorem readWords_snd (c : Cursor) (n : Nat) : (c.readWords n).2 = c.skip n := by
  induction n generalizing c with
  | zero => simp [readWords]
  | succ n ih => simp only [readWords, ih, readWord_snd, skip_skip, Nat.add_comm 1 n]

theorem leadingWord_skip (c : Cursor) (n : Nat) :
    leadingWord (c.skip n).rest = leadingWord (c.rest.drop (2 * n)) := by
  by_cases there : 2 * n ≤ c.rest.length
  · have present : min n (c.rest.length / 2) = n := by omega
    simp only [skip, present]
  · rw [leadingWord_of_short, leadingWord_of_short]
    · simp only [List.length_drop]
      omega
    · simp only [skip, List.length_drop]
      omega

theorem readWords_fst (c : Cursor) (n : Nat) :
    (c.readWords n).1 = (List.range n).map fun k => leadingWord (c.skip k).rest := by
  induction n generalizing c with
  | zero => rfl
  | succ n ih =>
    simp only [readWords, ih, readWord_fst, readWord_snd, skip_skip, List.range_succ_eq_map,
      List.map_cons, List.map_map, skip_zero]
    simp [Function.comp_def, Nat.add_comm]

theorem address_skip {c : Cursor} {n : Nat} (room : 2 * n ≤ c.rest.length) :
    (c.skip n).address = c.address.advance (2 * n) := by
  have present : min n (c.rest.length / 2) = n := by omega
  simp only [skip, present]

end Cursor

/-- The text of a piece that can be written, read at a cursor. -/
def Piece.textAt (p : Piece) (c : Cursor) : String :=
  p.render (c.skip p.words).address (c.readWords p.words).1

theorem Operand.read_sound {o : Operand} (sound : o.fault? = none) (c : Cursor) :
    o.read c = (.ok ((Piece.operand o).textAt c), c.skip o.words) := by
  simp only [Operand.read, sound, Cursor.readWords_snd, Piece.textAt, Piece.render, Piece.words]

namespace Reading

theorem ofPieces_nil (c : Cursor) : ofPieces [] c = { text := "", fault := none, cursor := c } := rfl

theorem ofPieces_text (text : String) (pieces : List Piece) (c : Cursor) :
    ofPieces (.text text :: pieces) c =
      { ofPieces pieces c with text := text ++ (ofPieces pieces c).text } := rfl

theorem ofPieces_cons {p : Piece} (sound : p.fault? = none) (pieces : List Piece) (c : Cursor) :
    ofPieces (p :: pieces) c =
      { ofPieces pieces (c.skip p.words) with
        text := p.textAt c ++ (ofPieces pieces (c.skip p.words)).text } := by
  simp only [ofPieces, Piece.read, sound, Piece.textAt, Cursor.readWords_snd]

@[simp] theorem text_nil (c : Cursor) : (ofPieces [] c).text = "" := rfl

theorem text_cons {p : Piece} (sound : p.fault? = none) (pieces : List Piece) (c : Cursor) :
    (ofPieces (p :: pieces) c).text =
      p.render (c.skip p.words).address ((List.range p.words).map fun k => leadingWord (c.skip k).rest) ++
        (ofPieces pieces (c.skip p.words)).text := by
  rw [ofPieces_cons sound, Piece.textAt, Cursor.readWords_fst]

/-- A row of pieces is read part by part, whether or not some of them have a fault. -/
theorem text_append (front back : List Piece) (c : Cursor) :
    (ofPieces (front ++ back) c).text =
      (ofPieces front c).text ++ (ofPieces back (ofPieces front c).cursor).text := by
  induction front generalizing c with
  | nil => simp [ofPieces_nil]
  | cons p front ih =>
    simp only [List.cons_append, ofPieces]
    cases (p.read c).1 with
    | ok text => simp only [ih, String.append_assoc]
    | error fault => exact ih _

end Reading

/-- The words of a row of pieces. -/
def Piece.total (pieces : List Piece) : Nat := (pieces.map words).sum

/-- A row of pieces without a fault reads all their words and reports none. -/
theorem Reading.ofPieces_sound {pieces : List Piece} (sound : ∀ p ∈ pieces, p.fault? = none)
    (c : Cursor) :
    (ofPieces pieces c).fault = none ∧ (ofPieces pieces c).cursor = c.skip (Piece.total pieces) := by
  induction pieces generalizing c with
  | nil => simp [ofPieces, Piece.total]
  | cons p rest ih =>
    have here : p.fault? = none := sound p (List.mem_cons_self ..)
    obtain ⟨fault, cursor⟩ := ih (fun q member => sound q (List.mem_cons_of_mem p member))
      (c.skip p.words)
    simp only [ofPieces, Piece.read, here, Cursor.readWords_snd]
    refine ⟨fault, ?_⟩
    rw [cursor, Cursor.skip_skip]
    rfl

end M68k
