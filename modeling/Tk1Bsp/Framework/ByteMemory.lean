import Mathlib.Data.Nat.Notation

/-!
# Words in a memory of bytes

A word is four bytes, the lowest first, and it can be anywhere.  An access concerns the bytes at its
address and at the three addresses after it.
-/

namespace Tk1Bsp

/-- A memory of bytes. -/
abbrev ByteMemory := ℕ → BitVec 8

namespace ByteMemory

variable (m : ByteMemory)

/-- The word at an address. -/
def load (a : ℕ) : BitVec 32 := m (a + 3) ++ m (a + 2) ++ m (a + 1) ++ m a

/-- Store a word at an address. -/
def store (a : ℕ) (v : BitVec 32) : ByteMemory :=
  fun b => if a ≤ b ∧ b < a + 4 then v.extractLsb' (8 * (b - a)) 8 else m b

variable {m} {m' : ByteMemory} {a b : ℕ}

theorem load_congr (h : ∀ b, a ≤ b → b < a + 4 → m b = m' b) : m.load a = m'.load a := by
  unfold load
  rw [h a (by omega) (by omega), h (a + 1) (by omega) (by omega), h (a + 2) (by omega) (by omega),
    h (a + 3) (by omega) (by omega)]

theorem store_of_mem (h : a ≤ b ∧ b < a + 4) (v : BitVec 32) :
    m.store a v b = v.extractLsb' (8 * (b - a)) 8 := if_pos h

theorem store_of_not_mem (h : ¬ (a ≤ b ∧ b < a + 4)) (v : BitVec 32) : m.store a v b = m b :=
  if_neg h

end ByteMemory

end Tk1Bsp
