import Mathlib.Data.List.MinMax
import Mathlib.Data.Nat.Notation

/-!
# Searching for a minimum

A loop that keeps the best candidate so far, and replaces it only by a better one, ends with
`List.argmin`.  If the candidates come in order, this is the smallest of those that are best; and
whether it has a property can be said without naming it.
-/

namespace Tk1Bsp

variable {ι α β ν : Type*} [LinearOrder α]

/-- The loop over the candidates `l`: the value and the record of the first best one. -/
theorem foldl_eq_argmin [LT ν] [DecidableLT ν] {key : ν → α}
    (hkey : ∀ a b : ν, a < b ↔ key a < key b)
    {v : ι → ν} {g : ι → β} {top : ν} {start : β} {l : List ι} (h : ∀ i ∈ l, v i < top) :
    l.foldl (fun best i => if v i < best.1 then (v i, g i) else best) (top, start) =
      (l.argmin fun i => key (v i)).elim (top, start) fun i => (v i, g i) := by
  induction l using List.reverseRecOn with
  | nil => rfl
  | append_singleton l a ih =>
      rw [List.foldl_append, List.foldl_cons, List.foldl_nil,
        ih fun i hi => h i (List.mem_append_left _ hi), List.argmin_concat]
      cases l.argmin fun i => key (v i) with
      | none => exact if_pos (h a (List.mem_append_right _ (List.mem_singleton.2 rfl)))
      | some c =>
          simp only [Option.elim_some, hkey]
          split <;> rfl

variable [LinearOrder ι] {f : ι → α} {l : List ι} {m : ι}

/-- Among candidates in order, the one found is strictly better than those before it. -/
theorem argmin_le (hl : l.Pairwise (· < ·)) (hm : m ∈ l.argmin f) :
    ∀ j ∈ l, f m ≤ f j ∧ (j < m → f m < f j) := by
  induction l using List.reverseRecOn generalizing m with
  | nil => cases hm
  | append_singleton l a ih =>
      obtain ⟨hl, -, hlast⟩ := List.pairwise_append.1 hl
      have hlast : ∀ j ∈ l, j < a := fun j hj => hlast j hj a (List.mem_singleton.2 rfl)
      rw [List.argmin_concat] at hm
      intro j hj
      rw [List.mem_append, List.mem_singleton] at hj
      cases hc : l.argmin f with
      | none =>
          rw [hc] at hm
          obtain rfl := Option.some.inj hm
          rw [List.argmin_eq_none.1 hc] at hj
          obtain rfl := hj.resolve_left List.not_mem_nil
          exact ⟨le_rfl, fun hlt => absurd hlt (lt_irrefl _)⟩
      | some c =>
          rw [hc] at hm
          dsimp only at hm
          split at hm
          · rename_i hac
            obtain rfl := Option.some.inj hm
            rcases hj with hj | rfl
            · have hlt := hac.trans_le (ih hl hc j hj).1
              exact ⟨hlt.le, fun _ => hlt⟩
            · exact ⟨le_rfl, fun hlt => absurd hlt (lt_irrefl _)⟩
          · rename_i hac
            obtain rfl := Option.some.inj hm
            rcases hj with hj | rfl
            · exact ih hl hc j hj
            · exact ⟨not_lt.1 hac, fun hlt => absurd (hlast c (List.argmin_mem hc)) hlt.asymm⟩

/-- The candidate found has a property exactly if some candidate that has it beats all those that
do not. -/
theorem argmin_iff (hl : l.Pairwise (· < ·)) (hm : m ∈ l.argmin f) (P : ι → Prop) :
    P m ↔ ∃ i ∈ l, P i ∧ ∀ j ∈ l, ¬ P j → f i ≤ f j ∧ (j < i → f i < f j) := by
  have hbest := argmin_le hl hm
  constructor
  · intro hP
    exact ⟨m, List.argmin_mem hm, hP, fun j hj _ => hbest j hj⟩
  · rintro ⟨i, hi, hP, hbeats⟩
    by_contra hnot
    obtain ⟨hle, hlt⟩ := hbeats m (List.argmin_mem hm) hnot
    obtain ⟨hle', hlt'⟩ := hbest i hi
    have hne : m ≠ i := fun h => hnot (h ▸ hP)
    rcases lt_or_gt_of_ne hne with h | h
    · exact absurd (hlt h) hle'.not_gt
    · exact absurd (hlt' h) hle.not_gt

end Tk1Bsp
