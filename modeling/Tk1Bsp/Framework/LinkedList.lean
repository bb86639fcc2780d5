import Mathlib.Data.List.Sort
import Mathlib.Data.Fintype.Card
import Mathlib.Logic.Function.Basic

/-!
# Doubly linked lists edited in place

Nodes of type `P` carry a `prev` and a `next` pointer, and one `head` pointer says where the
list starts.  `Links.Represents L l` says that the pointers reachable from the head spell the
list `l`: for every way of cutting `l` around a node, the node's `prev` is the last node before
it and its `next` the first node after it.  Nodes outside `l` may hold anything, which is what
lets a removed node keep its stale pointers.

The three operations are the usual imperative ones: `unlink` bypasses a node, `linkBetween`
puts a node between two neighbours, and `seek` walks from the head while a test holds.  The
rules `Represents.unlink`, `Represents.linkBetween` and `Represents.seek_eq` give their effect
on `l`; `Represents.insertSorted` combines the last two into an insertion by key.
-/

namespace Tk1Bsp

/-- The pointers of a doubly linked list: where it starts, and both neighbours of each node. -/
@[ext] structure Links (P : Type*) where
  head : Option P
  prev : P → Option P
  next : P → Option P

namespace Links

variable {P : Type*}

/-- The pointers spell `l`, from the head on and in both directions. -/
structure Represents (L : Links P) (l : List P) : Prop where
  nodup : l.Nodup
  head_eq : L.head = l.head?
  prev_eq : ∀ l₁ x l₂, l = l₁ ++ x :: l₂ → L.prev x = l₁.getLast?
  next_eq : ∀ l₁ x l₂, l = l₁ ++ x :: l₂ → L.next x = l₂.head?

namespace Represents

variable {L : Links P} {l l₁ l₂ : List P} {x y : P}

theorem nil (h : L.head = none) : L.Represents [] where
  nodup := List.nodup_nil
  head_eq := h
  prev_eq := by simp
  next_eq := by simp

theorem mem_of_head (h : L.Represents l) (hx : L.head = some x) : x ∈ l := by
  rw [h.head_eq] at hx
  exact List.mem_of_mem_head? hx

/-- Only the first node has no predecessor. -/
theorem head_of_prev_none (h : L.Represents l) (hx : x ∈ l) (hp : L.prev x = none) :
    L.head = some x := by
  obtain ⟨l₁, l₂, rfl⟩ := List.append_of_mem hx
  rw [h.prev_eq l₁ x l₂ rfl, List.getLast?_eq_none_iff] at hp
  subst hp
  simpa using h.head_eq

end Represents

/-! ## Unlinking a node -/

/-- Cutting a concatenation around a node cuts one of the two parts. -/
private theorem split_append {l₁ l₂ m r : List P} {y : P} (h : l₁ ++ l₂ = m ++ y :: r) :
    (∃ b, l₁ = m ++ y :: b ∧ r = b ++ l₂) ∨ (∃ a, m = l₁ ++ a ∧ l₂ = a ++ y :: r) := by
  rcases List.append_eq_append_iff.1 h with ⟨a, hm, hl⟩ | ⟨b, hl, hr⟩
  · exact .inr ⟨a, hm, hl⟩
  · cases b with
    | nil => exact .inr ⟨[], by simpa using hl.symm, by simpa using hr.symm⟩
    | cons z b =>
        obtain ⟨rfl, rfl⟩ := List.cons.inj hr
        exact .inl ⟨b, hl, rfl⟩

section Edit

variable [DecidableEq P]

/-- Bypass `x`: its predecessor (or the head) now points to its successor, and its successor
points back to its predecessor.  The pointers of `x` itself are left as they were. -/
def unlink (L : Links P) (x : P) : Links P :=
  let L := match L.prev x with
    | some p => { L with next := Function.update L.next p (L.next x) }
    | none => { L with head := L.next x }
  match L.next x with
  | some n => { L with prev := Function.update L.prev n (L.prev x) }
  | none => L

/-- Put `x` between `current` and `next`, either of which may be missing. -/
def linkBetween (L : Links P) (x : P) (current next : Option P) : Links P :=
  let L := { L with prev := Function.update L.prev x current }
  let L := { L with next := Function.update L.next x next }
  let L := match next with
    | some n => { L with prev := Function.update L.prev n (some x) }
    | none => L
  match current with
  | some c => { L with next := Function.update L.next c (some x) }
  | none => { L with head := some x }

/-! What the two edits leave in each field. -/

variable {L : Links P} {x : P}

theorem unlink_head : (L.unlink x).head = if L.prev x = none then L.next x else L.head := by
  cases h : L.prev x <;> simp only [unlink, h] <;> split <;> simp

theorem unlink_next (y : P) :
    (L.unlink x).next y = if L.prev x = some y then L.next x else L.next y := by
  cases h : L.prev x with
  | none => simp only [unlink, h]; split <;> simp
  | some p =>
      simp only [unlink, h]
      split <;> simp [Function.update_apply, eq_comm]

theorem unlink_prev (hx : L.prev x ≠ some x) (y : P) :
    (L.unlink x).prev y = if L.next x = some y then L.prev x else L.prev y := by
  have hne : ∀ p, L.prev x = some p → x ≠ p := by rintro p hp rfl; exact hx hp
  cases h : L.prev x with
  | none =>
      simp only [unlink, h]
      cases hn : L.next x <;> simp [Function.update_apply, eq_comm]
  | some p =>
      have := hne p h
      simp only [unlink, h, Function.update_of_ne this]
      cases hn : L.next x <;> simp [Function.update_apply, eq_comm]

theorem linkBetween_head (c n : Option P) :
    (L.linkBetween x c n).head = if c = none then some x else L.head := by
  cases c <;> cases n <;> simp [linkBetween]

theorem linkBetween_next (c n : Option P) (y : P) :
    (L.linkBetween x c n).next y =
      if c = some y then some x else if y = x then n else L.next y := by
  cases c <;> cases n <;> simp [linkBetween, Function.update_apply, eq_comm]

theorem linkBetween_prev (c n : Option P) (y : P) :
    (L.linkBetween x c n).prev y =
      if n = some y then some x else if y = x then c else L.prev y := by
  cases c <;> cases n <;> simp [linkBetween, Function.update_apply, eq_comm]

namespace Represents

variable {l l₁ l₂ : List P}

/-- The rule for `unlink`: the node leaves the list, whichever place it had. -/
theorem unlink (h : L.Represents (l₁ ++ x :: l₂)) : (L.unlink x).Represents (l₁ ++ l₂) := by
  have hp := h.prev_eq l₁ x l₂ rfl
  have hn := h.next_eq l₁ x l₂ rfl
  have hnd := h.nodup
  have hdisj : ∀ z ∈ l₁, z ∉ l₂ := by grind [List.nodup_append]
  have hnd' : (l₁ ++ l₂).Nodup := by simp_all [List.nodup_append]
  have hx : L.prev x ≠ some x := by
    rw [hp]
    intro hc
    have := List.mem_of_getLast? hc
    grind [List.nodup_append]
  refine ⟨hnd', ?_, fun m y r hm => ?_, fun m y r hm => ?_⟩
  · rw [unlink_head, hp, hn, h.head_eq]
    cases l₁ <;> simp
  · rw [unlink_prev hx, hp, hn]
    rcases split_append hm with ⟨b, rfl, rfl⟩ | ⟨a, rfl, rfl⟩
    · have hy : l₂.head? ≠ some y := fun hc =>
        hdisj y (by simp) (List.mem_of_mem_head? hc)
      rw [if_neg hy, h.prev_eq m y (b ++ x :: l₂) (by simp)]
    · cases a with
      | nil => simp
      | cons z a =>
          have hy : z ≠ y := by rintro rfl; simp_all [List.nodup_append]
          rw [if_neg (by simpa using hy), h.prev_eq (l₁ ++ x :: z :: a) y r (by simp)]
          simp [List.getLast?_append, List.getLast?_cons]
  · rw [unlink_next, hp, hn]
    rcases split_append hm with ⟨b, rfl, rfl⟩ | ⟨a, rfl, rfl⟩
    · rcases List.eq_nil_or_concat b with rfl | ⟨b, z, rfl⟩
      · simp
      · have hy : z ≠ y := by rintro rfl; simp_all [List.nodup_append]
        rw [if_neg (by simpa [List.getLast?_cons] using hy),
          h.next_eq m y (b ++ z :: x :: l₂) (by simp)]
        simp [List.head?_append]
    · have hy : l₁.getLast? ≠ some y := fun hc =>
        hdisj y (List.mem_of_getLast? hc) (by simp)
      rw [if_neg hy, h.next_eq (l₁ ++ x :: a) y r (by simp)]

/-- The rule for `linkBetween`: a new node enters between the two parts it was put between. -/
theorem linkBetween (h : L.Represents (l₁ ++ l₂)) (hx : x ∉ l₁ ++ l₂) :
    (L.linkBetween x l₁.getLast? l₂.head?).Represents (l₁ ++ x :: l₂) := by
  have hnd := h.nodup
  have hx₁ : x ∉ l₁ := fun hc => hx (List.mem_append_left _ hc)
  have hx₂ : x ∉ l₂ := fun hc => hx (List.mem_append_right _ hc)
  have hdisj : ∀ z ∈ l₁, z ∉ l₂ := by grind [List.nodup_append]
  refine ⟨by grind [List.nodup_append], ?_, fun m y r hm => ?_, fun m y r hm => ?_⟩
  · rw [linkBetween_head, h.head_eq]
    cases l₁ <;> simp
  · rw [linkBetween_prev]
    rcases split_append hm with ⟨b, rfl, rfl⟩ | ⟨a, rfl, ha⟩
    · have hy : l₂.head? ≠ some y := fun hc =>
        hdisj y (by simp) (List.mem_of_mem_head? hc)
      have hyx : y ≠ x := by rintro rfl; simp at hx₁
      rw [if_neg hy, if_neg hyx, h.prev_eq m y (b ++ l₂) (by simp)]
    · cases a with
      | nil =>
          obtain ⟨rfl, rfl⟩ := List.cons.inj ha
          have hy : l₂.head? ≠ some x := fun hc => hx₂ (List.mem_of_mem_head? hc)
          simp [hy]
      | cons z a =>
          obtain ⟨rfl, rfl⟩ := List.cons.inj ha
          have hyx : y ≠ x := by rintro rfl; simp at hx₂
          cases a with
          | nil => simp
          | cons w a =>
              have hy : w ≠ y := by rintro rfl; simp_all [List.nodup_append]
              rw [if_neg (by simpa using hy), if_neg hyx, h.prev_eq (l₁ ++ w :: a) y r (by simp)]
              simp [List.getLast?_append, List.getLast?_cons]
  · rw [linkBetween_next]
    rcases split_append hm with ⟨b, rfl, rfl⟩ | ⟨a, rfl, ha⟩
    · have hyx : y ≠ x := by rintro rfl; simp at hx₁
      rcases List.eq_nil_or_concat b with rfl | ⟨b, z, rfl⟩
      · simp
      · have hy : z ≠ y := by rintro rfl; simp_all [List.nodup_append]
        rw [if_neg (by simpa [List.getLast?_cons] using hy), if_neg hyx,
          h.next_eq m y (b ++ z :: l₂) (by simp)]
        simp [List.head?_append]
    · cases a with
      | nil =>
          obtain ⟨rfl, rfl⟩ := List.cons.inj ha
          have hy : l₁.getLast? ≠ some x := fun hc => hx₁ (List.mem_of_getLast? hc)
          simp [hy]
      | cons z a =>
          obtain ⟨rfl, rfl⟩ := List.cons.inj ha
          have hyx : y ≠ x := by rintro rfl; simp at hx₂
          have hy : l₁.getLast? ≠ some y := fun hc =>
            hdisj y (List.mem_of_getLast? hc) (by simp)
          rw [if_neg hy, if_neg hyx, h.next_eq (l₁ ++ a) y r (by simp)]

end Represents

end Edit

/-! ## Walking from the head -/

section Seek

/-- Walk along `next` while `before` holds, remembering the node just left.  The result is the
pair of neighbours between which the walk stopped; `none` says that the fuel ran out first. -/
def seek (L : Links P) (before : P → Bool) : ℕ → Option P → Option P → Option (Option P × Option P)
  | 0, _, _ => none
  | _ + 1, current, none => some (current, none)
  | n + 1, current, some x =>
      if before x then seek L before n (some x) (L.next x) else some (current, some x)

variable {L : Links P} {before : P → Bool}

private theorem seek_of_represents {l : List P} (h : L.Represents l) :
    ∀ {m : List P} {n : ℕ} (r : List P), l = m ++ r → r.length < n →
      L.seek before n m.getLast? r.head? =
        some ((m ++ r.takeWhile before).getLast?, (r.dropWhile before).head?)
  | m, n + 1, [], _, _ => by simp [seek]
  | m, n + 1, x :: r, hl, hn => by
      cases hb : before x with
      | false => simp [seek, hb]
      | true =>
          have hnext := h.next_eq m x r hl
          have := seek_of_represents h (m := m ++ [x]) (n := n) r (by simp [hl])
            (by simpa using hn)
          simpa [seek, hb, hnext] using this

/-- The rule for `seek`: on a represented list the walk stops between the nodes that pass the
test and the rest, given more fuel than the list has nodes. -/
theorem Represents.seek_eq {l : List P} (h : L.Represents l) {n : ℕ} (hn : l.length < n) :
    L.seek before n none L.head =
      some ((l.takeWhile before).getLast?, (l.dropWhile before).head?) := by
  have hseek : L.seek before n ([] : List P).getLast? l.head? = _ :=
    seek_of_represents h l rfl hn
  simpa [h.head_eq] using hseek

/-- A list without repetitions is no longer than its type of nodes. -/
theorem Represents.length_lt [Fintype P] {l : List P} (h : L.Represents l) :
    l.length < Fintype.card P + 1 :=
  Nat.lt_succ_of_le h.nodup.length_le_card

end Seek

/-! ## Insertion by key -/

section Sorted

variable [DecidableEq P] {K : Type*} [LinearOrder K] (key : P → K)

/-- The order in which a list sorted by key holds its nodes. -/
def KeyLE (x y : P) : Prop := key x ≤ key y

instance : DecidableRel (KeyLE key) := fun x y => inferInstanceAs (Decidable (key x ≤ key y))

instance : IsTrans P (KeyLE key) := ⟨fun _ _ _ h h' => le_trans (α := K) h h'⟩

instance : Std.Total (KeyLE key) := ⟨fun x y => le_total (key x) (key y)⟩

/-- Walking over the smaller keys and linking the node where the walk stopped is ordered
insertion: before the first node whose key is not smaller. -/
theorem Represents.insertSorted {L : Links P} {l : List P} {x : P} (h : L.Represents l)
    (key : P → K) (hx : x ∉ l) {n : ℕ} (hn : l.length < n) :
    ∃ c r, L.seek (fun y => decide (key y < key x)) n none L.head = some (c, r) ∧
      (L.linkBetween x c r).Represents (l.orderedInsert (KeyLE key) x) := by
  refine ⟨_, _, h.seek_eq hn, ?_⟩
  have hto : ∀ y, (!decide (KeyLE key x y)) = decide (key y < key x) := by
    intro y
    rw [← decide_not]
    exact decide_eq_decide.2 not_le
  rw [List.orderedInsert_eq_take_drop]
  simp only [decide_not, hto]
  apply Represents.linkBetween
  · rwa [List.takeWhile_append_dropWhile]
  · rwa [List.takeWhile_append_dropWhile]

end Sorted

end Links
end Tk1Bsp
