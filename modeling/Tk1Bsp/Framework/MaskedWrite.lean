import Mathlib.Data.List.Fold
import Mathlib.Data.List.Perm.Basic
import Mathlib.Data.Nat.Notation

/-!
# Writes to some bits of a word, and actions whose order does not matter

A register that several devices share is changed by reading it, clearing and setting the bits of
one device, and writing it back.  What such a sequence leaves is a `MaskedWrite`: the bits that it
clears and the bits that it sets.  A masked write can be repeated, and two of them that touch no
common bit can be exchanged, also when they are made in many registers at once (`applyAll`).

The last part is about any actions that can be repeated and exchanged: what a sequence of them does
depends only on which actions occur in it.
-/

namespace Tk1Bsp

/-- A write to some bits of a word: first clear those of `clear`, then set those of `set`. -/
structure MaskedWrite (w : ℕ) where
  clear : BitVec w
  set : BitVec w

namespace MaskedWrite

variable {w : ℕ} {p q : MaskedWrite w} {x : BitVec w} {i : ℕ}

/-- The word after the write. -/
def apply (p : MaskedWrite w) (x : BitVec w) : BitVec w := x &&& ~~~p.clear ||| p.set

/-- The write that changes nothing. -/
def idle : MaskedWrite w := ⟨0, 0⟩

/-- The write of a whole word. -/
def whole (x : BitVec w) : MaskedWrite w := ⟨BitVec.allOnes w, x⟩

/-- The bits that a write may change. -/
def Touches (p : MaskedWrite w) (i : ℕ) : Prop :=
  p.clear.getLsbD i = true ∨ p.set.getLsbD i = true

theorem getLsbD_apply (p : MaskedWrite w) (x : BitVec w) (i : ℕ) :
    (p.apply x).getLsbD i = (x.getLsbD i && !p.clear.getLsbD i || p.set.getLsbD i) := by
  rw [apply, BitVec.getLsbD_or, BitVec.getLsbD_and, BitVec.getLsbD_not]
  by_cases hi : i < w
  · rw [decide_eq_true hi, Bool.true_and]
  · rw [BitVec.getLsbD_of_ge x i (Nat.not_lt.1 hi), Bool.false_and, Bool.false_and]

@[simp] theorem apply_idle (x : BitVec w) : (idle : MaskedWrite w).apply x = x := by
  simp [apply, idle]

@[simp] theorem apply_whole (x y : BitVec w) : (whole x).apply y = x := by
  simp [apply, whole]

@[simp] theorem not_touches_idle (i : ℕ) : ¬ (idle : MaskedWrite w).Touches i := by
  simp [Touches, idle]

theorem not_touches_iff : ¬ p.Touches i ↔ p.clear.getLsbD i = false ∧ p.set.getLsbD i = false := by
  rw [Touches, not_or, Bool.not_eq_true, Bool.not_eq_true]

theorem getLsbD_apply_of_not_touches (h : ¬ p.Touches i) (x : BitVec w) :
    (p.apply x).getLsbD i = x.getLsbD i := by
  obtain ⟨hclear, hset⟩ := not_touches_iff.1 h
  rw [getLsbD_apply, hclear, hset, Bool.not_false, Bool.and_true, Bool.or_false]

/-- A write that is repeated does nothing more. -/
theorem apply_apply (p : MaskedWrite w) (x : BitVec w) : p.apply (p.apply x) = p.apply x := by
  apply BitVec.eq_of_getLsbD_eq
  intro i _
  simp only [getLsbD_apply]
  cases x.getLsbD i <;> cases p.clear.getLsbD i <;> cases p.set.getLsbD i <;> rfl

/-- Setting bits. -/
theorem or_eq_apply (x b : BitVec w) : x ||| b = (⟨0, b⟩ : MaskedWrite w).apply x := by
  simp [apply]

/-- Setting bits, and clearing them later. -/
theorem or_and_not (x b : BitVec w) :
    (x ||| b) &&& ~~~b = (⟨b, 0⟩ : MaskedWrite w).apply x := by
  show _ = x &&& ~~~b ||| 0#w
  rw [BitVec.or_zero]
  ext i hi
  rw [BitVec.getElem_and, BitVec.getElem_and, BitVec.getElem_or, BitVec.getElem_not]
  cases x[i] <;> cases b[i] <;> rfl

/-- Clearing bits, and setting them later. -/
theorem and_not_or (x b : BitVec w) :
    x &&& ~~~b ||| b = (⟨0, b⟩ : MaskedWrite w).apply x := by
  rw [← or_eq_apply]
  ext i hi
  rw [BitVec.getElem_or, BitVec.getElem_or, BitVec.getElem_and, BitVec.getElem_not]
  cases x[i] <;> cases b[i] <;> rfl

/-- No bit is touched by both writes. -/
def Apart (p q : MaskedWrite w) : Prop := ∀ i, p.Touches i → ¬ q.Touches i

/-- Writes to different bits can be exchanged. -/
theorem Apart.apply_comm (h : p.Apart q) (x : BitVec w) :
    p.apply (q.apply x) = q.apply (p.apply x) := by
  apply BitVec.eq_of_getLsbD_eq
  intro i _
  by_cases hp : p.Touches i
  · have hq := h i hp
    rw [getLsbD_apply_of_not_touches hq, getLsbD_apply p, getLsbD_apply p,
      getLsbD_apply_of_not_touches hq]
  · rw [getLsbD_apply_of_not_touches hp, getLsbD_apply q, getLsbD_apply q,
      getLsbD_apply_of_not_touches hp]

/-! ## Many registers -/

section Registers

variable {κ : Type*} {e f : κ → MaskedWrite w}

/-- Every register after its write. -/
def applyAll (e : κ → MaskedWrite w) (regs : κ → BitVec w) : κ → BitVec w :=
  fun a => (e a).apply (regs a)

theorem applyAll_applyAll (e : κ → MaskedWrite w) (regs : κ → BitVec w) :
    applyAll e (applyAll e regs) = applyAll e regs :=
  funext fun a => (e a).apply_apply (regs a)

theorem applyAll_comm (h : ∀ a, (e a).Apart (f a)) (regs : κ → BitVec w) :
    applyAll e (applyAll f regs) = applyAll f (applyAll e regs) :=
  funext fun a => (h a).apply_comm (regs a)

end Registers

end MaskedWrite

/-! ## Actions whose order does not matter -/

section Actions

variable {σ ι : Type*} {act : σ → ι → σ} {i : ι} {is js : List ι}

/-- An action that has occurred already does nothing more at the end. -/
theorem act_foldl_of_mem [RightCommutative act] (hidem : ∀ s i, act (act s i) i = act s i)
    (hi : i ∈ is) (s : σ) : act (is.foldl act s) i = is.foldl act s := by
  induction is with
  | nil => exact absurd hi List.not_mem_nil
  | cons j is ih =>
      rw [List.foldl_cons_eq_apply_foldl]
      rcases List.mem_cons.1 hi with rfl | hi
      · exact hidem _ _
      · have hcomm : act (act (is.foldl act s) j) i = act (act (is.foldl act s) i) j :=
          RightCommutative.right_comm _ _ _
        rw [hcomm, ih hi]

theorem foldl_foldl_of_subset [RightCommutative act] (hidem : ∀ s i, act (act s i) i = act s i)
    (h : js ⊆ is) (s : σ) : js.foldl act (is.foldl act s) = is.foldl act s := by
  induction js with
  | nil => rfl
  | cons j js ih =>
      obtain ⟨hj, hjs⟩ := List.cons_subset.1 h
      rw [List.foldl_cons, act_foldl_of_mem hidem hj, ih hjs]

/-- Sequences of the same actions lead to the same state, whatever their order and however often
each action occurs. -/
theorem foldl_eq_of_mem_iff [RightCommutative act] (hidem : ∀ s i, act (act s i) i = act s i)
    (h : ∀ i, i ∈ is ↔ i ∈ js) (s : σ) : is.foldl act s = js.foldl act s :=
  calc is.foldl act s
      = js.foldl act (is.foldl act s) :=
        (foldl_foldl_of_subset hidem (fun i => (h i).2) s).symm
    _ = (is ++ js).foldl act s := List.foldl_append.symm
    _ = (js ++ is).foldl act s := List.perm_append_comm.foldl_eq s
    _ = is.foldl act (js.foldl act s) := List.foldl_append
    _ = js.foldl act s := foldl_foldl_of_subset hidem (fun i => (h i).1) s

end Actions

end Tk1Bsp
