import Mathlib.Data.List.Basic
import Mathlib.Logic.Function.Basic
import Mathlib.Tactic.SplitIfs
import Mathlib.Tactic.TypeStar

/-!
# Circular buffers in a shared memory

A `Ring` is a window of `size` slots from `base` on of some memory, with the slot of the oldest
element and the slot for the next one.  One slot always stays free, so that equal indices mean an
empty buffer.  `Ring.contents` is the queue a ring stands for; adding and removing an element are
the two ends of it (`contents_push`, `contents_pop`), and writes outside the window do not matter
(`contents_update_outside`).
-/

namespace Tk1Bsp

/-- A circular buffer: where it lies, and the slots of its oldest and of its next element. -/
structure Ring where
  base : ℕ
  size : ℕ
  head : ℕ
  tail : ℕ
  head_lt : head < size
  tail_lt : tail < size

namespace Ring

variable {α : Type*} (q : Ring)

/-- An empty buffer. -/
def empty (base size : ℕ) (h : 0 < size) : Ring := ⟨base, size, 0, 0, h, h⟩

/-- The slot after `i`. -/
def succ (i : ℕ) : ℕ := (i + 1) % q.size

theorem succ_lt (i : ℕ) : q.succ i < q.size :=
  Nat.mod_lt _ (Nat.lt_of_le_of_lt (Nat.zero_le _) q.head_lt)

/-- Move the tail on. -/
def push : Ring := { q with tail := q.succ q.tail, tail_lt := q.succ_lt _ }

/-- Move the head on. -/
def pop : Ring := { q with head := q.succ q.head, head_lt := q.succ_lt _ }

/-- The number of elements. -/
def length : ℕ := if q.head ≤ q.tail then q.tail - q.head else q.tail + q.size - q.head

/-- The slot of the `k`-th oldest element, for `k < size`. -/
def slot (k : ℕ) : ℕ := if q.head + k < q.size then q.head + k else q.head + k - q.size

/-- The elements, oldest first. -/
def contents (mem : ℕ → α) : List α := (List.range q.length).map fun k => mem (q.base + q.slot k)

variable {q}

theorem length_lt : q.length < q.size := by
  have := q.head_lt
  have := q.tail_lt
  unfold length
  split <;> omega

@[simp] theorem length_contents (mem : ℕ → α) : (q.contents mem).length = q.length := by
  simp [contents]

@[simp] theorem contents_empty (base size : ℕ) (h : 0 < size) (mem : ℕ → α) :
    (empty base size h).contents mem = [] := by
  simp [contents, length, empty]

theorem succ_cases {i : ℕ} (hi : i < q.size) :
    (q.succ i = i + 1 ∧ i + 1 < q.size) ∨ (q.succ i = 0 ∧ i + 1 = q.size) := by
  unfold succ
  by_cases h : i + 1 < q.size
  · exact .inl ⟨Nat.mod_eq_of_lt h, h⟩
  · have hi' : i + 1 = q.size := by omega
    exact .inr ⟨by rw [hi', Nat.mod_self], hi'⟩

/-- Equal indices mean that there is no element. -/
theorem contents_eq_nil_iff (mem : ℕ → α) : q.contents mem = [] ↔ q.tail = q.head := by
  have := q.head_lt
  have := q.tail_lt
  rw [← List.length_eq_zero_iff, length_contents]
  unfold length
  split <;> omega

/-- The buffer is full when the tail is right behind the head. -/
theorem length_eq_iff_full : q.length + 1 = q.size ↔ q.succ q.tail = q.head := by
  have := q.head_lt
  unfold length
  rcases succ_cases q.tail_lt with ⟨hsucc, hlt⟩ | ⟨hsucc, hlt⟩ <;> rw [hsucc] <;> split <;> omega

theorem slot_lt {k : ℕ} (hk : k < q.size) : q.slot k < q.size := by
  have := q.head_lt
  unfold slot
  split <;> omega

/-- The slot for the next element is free. -/
theorem slot_ne_tail {k : ℕ} (hk : k < q.length) : q.slot k ≠ q.tail := by
  have := q.head_lt
  have := q.tail_lt
  unfold length at hk
  unfold slot
  split at hk <;> split <;> omega

theorem slot_length : q.slot q.length = q.tail := by
  have := q.head_lt
  have := q.tail_lt
  unfold slot length
  split <;> split <;> omega

theorem length_push (h : q.succ q.tail ≠ q.head) : q.push.length = q.length + 1 := by
  have := q.head_lt
  show (if q.head ≤ q.succ q.tail then q.succ q.tail - q.head
    else q.succ q.tail + q.size - q.head) = q.length + 1
  unfold length
  rcases succ_cases q.tail_lt with ⟨hsucc, hlt⟩ | ⟨hsucc, hlt⟩ <;> rw [hsucc] at h ⊢ <;>
    split_ifs <;> omega

/-- Storing an element at the tail of a buffer that is not full adds it at the end. -/
theorem contents_push (mem : ℕ → α) (x : α) (h : q.succ q.tail ≠ q.head) :
    q.push.contents (Function.update mem (q.base + q.tail) x) = q.contents mem ++ [x] := by
  have hslot : ∀ k, q.push.slot k = q.slot k := fun _ => rfl
  have hlast : q.base + q.slot q.length = q.base + q.tail := by rw [slot_length]
  unfold contents
  rw [length_push h, List.range_succ, List.map_append]
  congr 1
  · refine List.map_congr_left fun k hk => ?_
    have hne := slot_ne_tail (List.mem_range.1 hk)
    exact Function.update_of_ne (by rw [hslot]; exact fun hc => hne (Nat.add_left_cancel hc)) _ _
  · show [Function.update mem (q.base + q.tail) x (q.base + q.slot q.length)] = [x]
    rw [hlast, Function.update_self]

theorem length_pop (h : q.tail ≠ q.head) : q.length = q.pop.length + 1 := by
  have := q.tail_lt
  show q.length = (if q.succ q.head ≤ q.tail then q.tail - q.succ q.head
    else q.tail + q.size - q.succ q.head) + 1
  unfold length
  rcases succ_cases q.head_lt with ⟨hsucc, hlt⟩ | ⟨hsucc, hlt⟩ <;> rw [hsucc] <;>
    split_ifs <;> omega

/-- The element at the head of a buffer that is not empty is the oldest one. -/
theorem contents_pop (mem : ℕ → α) (h : q.tail ≠ q.head) :
    q.contents mem = mem (q.base + q.head) :: q.pop.contents mem := by
  have hslot : ∀ k, k < q.pop.length → q.slot (k + 1) = q.pop.slot k := by
    intro k hk
    have hlen := length_pop h
    have hlt := length_lt (q := q)
    show q.slot (k + 1) = if q.succ q.head + k < q.size then q.succ q.head + k
      else q.succ q.head + k - q.size
    unfold slot
    rcases succ_cases q.head_lt with ⟨hsucc, hlt⟩ | ⟨hsucc, hlt⟩ <;> rw [hsucc] <;>
      split_ifs <;> omega
  have hfirst : q.slot 0 = q.head := by
    have := q.head_lt
    unfold slot
    split <;> omega
  unfold contents
  rw [length_pop h, List.range_succ_eq_map, List.map_cons, List.map_map, hfirst]
  congr 1
  refine List.map_congr_left fun k hk => ?_
  show mem (q.base + q.slot (k + 1)) = mem (q.base + q.pop.slot k)
  rw [hslot k (List.mem_range.1 hk)]

/-- Writes outside the window of a buffer do not concern it. -/
theorem contents_update_outside (mem : ℕ → α) {a : ℕ} (x : α)
    (h : a < q.base ∨ q.base + q.size ≤ a) :
    q.contents (Function.update mem a x) = q.contents mem := by
  refine List.map_congr_left fun k hk => ?_
  have hlt := slot_lt (Nat.lt_trans (List.mem_range.1 hk) length_lt)
  exact Function.update_of_ne (by omega) _ _

end Ring

end Tk1Bsp
