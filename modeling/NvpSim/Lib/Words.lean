/-
  Eight-byte words in a byte buffer.

  `readWord` and `writeWord` are a load and a store of a little-endian 64-bit word, `memset` fills a
  window with one byte.  A program that only touches aligned words sees the buffer as a table of words:
  a word reads back what was stored there, and a store elsewhere does not change it.
-/
import NvpSim.Lib.Buffer

namespace NvpSim.Lib

/-- A byte of a word, the least significant one first. -/
def wordByte (w : BitVec 64) (i : Nat) : BitVec 8 := w.extractLsb' (8 * i) 8

/-- The word at `a`. -/
def readWord (m : Buffer (BitVec 8)) (a : Nat) : BitVec 64 :=
  m (a + 7) ++ m (a + 6) ++ m (a + 5) ++ m (a + 4) ++ m (a + 3) ++ m (a + 2) ++ m (a + 1) ++ m a

/-- Store a word at `a`. -/
def writeWord (m : Buffer (BitVec 8)) (a : Nat) (w : BitVec 64) : Buffer (BitVec 8) :=
  memcpy m a (wordByte w) 0 8

def memset {B : Type} (m : Buffer B) (a : Nat) (b : B) (n : Nat) : Buffer B :=
  memcpy m a (fun _ => b) 0 n

variable {m m' : Buffer (BitVec 8)} {a b n : Nat}

theorem readWord_congr (h : ∀ i, i < 8 → m (a + i) = m' (b + i)) : readWord m a = readWord m' b := by
  unfold readWord
  rw [h 7 (by decide), h 6 (by decide), h 5 (by decide), h 4 (by decide), h 3 (by decide),
    h 2 (by decide), h 1 (by decide), show m a = m' b from h 0 (by decide)]

theorem append_wordByte (w : BitVec 64) : readWord (wordByte w) 0 = w := by
  apply BitVec.eq_of_getLsbD_eq
  intro i hi
  unfold readWord wordByte
  simp only [BitVec.getLsbD_append, BitVec.getLsbD_extractLsb']
  -- byte by byte from the low end: the bit is in this byte or in the ones above
  iterate 7
    split
    · rename_i hlt
      simp only [hlt, decide_true, Bool.true_and]
      congr 1
      omega
  have hlt : i - 8 - 8 - 8 - 8 - 8 - 8 - 8 < 8 := by omega
  simp only [hlt, decide_true, Bool.true_and]
  congr 1
  omega

/-- **A word reads back what was stored.** -/
theorem readWord_writeWord_self (m : Buffer (BitVec 8)) (a : Nat) (w : BitVec 64) :
    readWord (writeWord m a w) a = w := by
  rw [← append_wordByte w]
  refine readWord_congr fun i _ => ?_
  rw [append_wordByte, writeWord, memcpy_of_mem (by omega) (by omega), Nat.add_sub_cancel_left]

/-- **A store elsewhere does not change an aligned word.** -/
theorem readWord_writeWord_ne (ha : a % 8 = 0) (hb : b % 8 = 0) (hne : b ≠ a) (w : BitVec 64) :
    readWord (writeWord m a w) b = readWord m b :=
  readWord_congr fun _ hi => memcpy_of_notMem (aligned_disjoint hb ha hne hi)

theorem readWord_memset_zero (hb : a ≤ b) (hn : b + 8 ≤ a + n) : readWord (memset m a 0 n) b = 0 := by
  have hzero : readWord (memset m a 0 n) b = readWord (fun _ => 0) 0 :=
    readWord_congr fun _ _ => memcpy_of_mem (by omega) (by omega)
  rw [hzero]
  rfl

theorem readWord_memset_of_disjoint {x : BitVec 8} (h : b + 8 ≤ a ∨ a + n ≤ b) :
    readWord (memset m a x n) b = readWord m b :=
  readWord_congr fun _ _ => memcpy_of_notMem (by omega)

end NvpSim.Lib
