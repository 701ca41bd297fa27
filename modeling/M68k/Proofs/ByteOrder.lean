import Mathlib
import M68k.Proofs.Reading

/-!
Rows of words and rows of bytes. A word lies in two bytes, the more significant first, and its
value is put together by shifting (`Word.ofBytes_eq_or`). Going from words to bytes and back loses
nothing, and from bytes to words and back only adds the byte that an odd row lacks. A cursor finds
the same words, except that it does not make up for a missing byte: it stops before an odd one.
-/
namespace M68k

namespace Word

theorem toBytes_ofBytes (high low : Byte) : (ofBytes high low).toBytes = [high, low] := by
  have second := low.toNat_lt
  have upper : (256 * high.toNat + low.toNat) / 256 = high.toNat := by omega
  have lower : UInt8.ofNat (256 * high.toNat + low.toNat) = low := by
    apply UInt8.toNat_inj.mp
    rw [UInt8.toNat_ofNat']
    omega
  rw [toBytes, toNat_ofBytes, upper, lower, UInt8.ofNat_toNat]

/-- The first byte is shifted up by eight bits, and the second fills them. -/
theorem ofBytes_eq_or (high low : Byte) :
    ofBytes high low = high.toUInt16 <<< 8 ||| low.toUInt16 := by
  have first := high.toNat_lt
  have second := low.toNat_lt
  have shifted : (high.toUInt16 <<< 8).toNat = high.toNat <<< 8 := by
    have small : high.toNat <<< 8 < 2 ^ 16 := by
      rw [Nat.shiftLeft_eq]
      omega
    rw [UInt16.toNat_shiftLeft, UInt8.toNat_toUInt16]
    exact Nat.mod_eq_of_lt small
  apply UInt16.toNat_inj.mp
  rw [toNat_ofBytes, UInt16.toNat_or, shifted, UInt8.toNat_toUInt16,
    ← Nat.shiftLeft_add_eq_or_of_lt second, Nat.shiftLeft_eq]
  omega

end Word

theorem wordsOfBytes_bytesOfWords (words : List Word) : wordsOfBytes (bytesOfWords words) = words := by
  induction words with
  | nil => rfl
  | cons w words ih =>
    rw [bytesOfWords_cons, Word.toBytes, List.cons_append, List.cons_append, List.nil_append,
      wordsOfBytes, ih, w.ofBytes_toBytes]

/-- An odd row of bytes comes back with a zero behind it. -/
theorem bytesOfWords_wordsOfBytes (bytes : List Byte) :
    bytesOfWords (wordsOfBytes bytes) = if bytes.length % 2 = 0 then bytes else bytes ++ [0] := by
  fun_induction wordsOfBytes bytes with
  | case1 => rfl
  | case2 b => simp [bytesOfWords, Word.toBytes_ofBytes]
  | case3 high low rest ih =>
    have parity : (high :: low :: rest).length % 2 = rest.length % 2 := by
      simp only [List.length_cons]
      omega
    rw [bytesOfWords_cons, Word.toBytes_ofBytes, ih, parity]
    split <;> rfl

/-- The words by their places: each lies in the two bytes at twice its place, where a missing
    second byte counts as zero. -/
theorem getElem?_wordsOfBytes (bytes : List Byte) (k : Nat) :
    (wordsOfBytes bytes)[k]? =
      bytes[2 * k]?.map fun high => Word.ofBytes high (bytes.getD (2 * k + 1) 0) := by
  fun_induction wordsOfBytes bytes generalizing k with
  | case1 => simp
  | case2 b => cases k <;> simp
  | case3 high low rest ih =>
    cases k with
    | zero => simp
    | succ k => simpa [Nat.mul_add] using ih k

namespace Cursor

theorem overflow_readWords (c : Cursor) (k : Nat) :
    (c.readWords k).2.overflow = (c.overflow || decide (c.remaining / 2 < k)) := by
  have missing : c.rest.length < 2 * k ↔ c.rest.length / 2 < k := by omega
  rw [readWords_snd, skip, remaining, decide_eq_decide.mpr missing]

/-- The words that are there are read as they stand in the row of words. -/
theorem readWords_eq_take (c : Cursor) {k : Nat} (present : k ≤ c.remaining / 2) :
    (c.readWords k).1 = (wordsOfBytes c.rest).take k := by
  induction k generalizing c with
  | zero => rfl
  | succ k ih =>
    obtain ⟨rest, position, address, overflow⟩ := c
    match rest with
    | [] | [_] => simp [remaining] at present
    | high :: low :: rest =>
      have behind : k ≤ rest.length / 2 := by
        simp only [remaining, List.length_cons] at present
        omega
      have later := ih { rest, position := position + 2, address := address + 2, overflow } behind
      simp only [readWords, readWord, later, wordsOfBytes, List.take_succ_cons]

end Cursor

/-- Words and bytes are two views of one row. From words to bytes and back nothing changes; from
    bytes to words and back an odd row gets a zero behind it and an even one stays. Each word is the
    byte at twice its place, shifted up, with the byte behind it or zero. A cursor at the start of
    the bytes reads as many of these words as there are whole ones, and its mark is left by the
    first read beyond them and by none before. -/
theorem words_bytes_views_agree (words : List Word) (bytes : List Byte) (address : Address) :
    wordsOfBytes (bytesOfWords words) = words ∧
    bytesOfWords (wordsOfBytes bytes) = (if bytes.length % 2 = 0 then bytes else bytes ++ [0]) ∧
    (∀ k, (wordsOfBytes bytes)[k]? = bytes[2 * k]?.map fun high : Byte =>
      high.toUInt16 <<< 8 ||| (bytes.getD (2 * k + 1) 0).toUInt16) ∧
    ((Cursor.start bytes address).readWords (bytes.length / 2)).1 =
      (wordsOfBytes bytes).take (bytes.length / 2) ∧
    ∀ k, ((Cursor.start bytes address).readWords k).2.overflow = decide (bytes.length / 2 < k) := by
  refine ⟨wordsOfBytes_bytesOfWords words, bytesOfWords_wordsOfBytes bytes, ?_, ?_, ?_⟩
  · intro k
    simp only [getElem?_wordsOfBytes, Word.ofBytes_eq_or]
  · exact (Cursor.start bytes address).readWords_eq_take (Nat.le_refl _)
  · intro k
    rw [Cursor.overflow_readWords]
    rfl

/-- The last byte of three is half a word in one view and is never read in the other. -/
example : wordsOfBytes [0x12, 0x34, 0x56] = [0x1234, 0x5600] ∧
    (Cursor.start [0x12, 0x34, 0x56] 0).readWords 2 =
      ([0x1234, 0], { rest := [0x56], position := 2, address := 2, overflow := true }) := by
  decide

end M68k
