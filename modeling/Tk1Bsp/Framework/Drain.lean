import Mathlib.Algebra.BigOperators.Group.Finset.Piecewise
import Mathlib.Algebra.Order.BigOperators.Group.Finset
import Mathlib.Data.Fintype.Basic
import Mathlib.Data.Int.GCD
import Mathlib.Data.Int.ModEq
import Mathlib.Data.List.Iterate
import Mathlib.Tactic.Ring

/-!
# Draining a family of independent counters

A loop that repeatedly picks *some* component of a family, applies `f` to it, and goes on while
a component is still `due`, is nondeterministic in the order it serves the components but not
in what it does to each of them.  `Fires` is one execution of such a loop, with the log of which
component was served and in which state.

* `Fires.at_component`: what the log says about one component is a prefix of that component's
  own orbit under `f`, all of whose members were due.
* `Fires.at_eq`: two executions that start alike at a component and leave it idle agree on it.
* `Fires.length_le`: the loop cannot serve more often than the orbits allow.

The last section settles when an orbit `d, d + p, d + 2p, ...` of a counter that wraps modulo
`N` ever leaves the due range `0 .. now`: its largest member is `N - g + d % g`, where `g` is the
greatest common divisor of `p` and `N`.
-/

namespace Tk1Bsp

variable {ι α : Type*} [DecidableEq ι]

/-- Components are served one after the other, each while it is due; the log records them. -/
inductive Fires (due : α → Prop) (f : α → α) : (ι → α) → List (ι × α) → (ι → α) → Prop
  | nil (x : ι → α) : Fires due f x [] x
  | cons {x y : ι → α} {i : ι} {log : List (ι × α)} :
      due (x i) → Fires due f (Function.update x i (f (x i))) log y →
        Fires due f x ((i, x i) :: log) y

namespace Fires

variable {due : α → Prop} {f : α → α} {x y x' y' : ι → α} {log log' : List (ι × α)}

/-- The states in which component `j` was served, in order. -/
def served (j : ι) (log : List (ι × α)) : List α :=
  (log.filter (fun e => e.1 = j)).map Prod.snd

@[simp] theorem served_nil (j : ι) : served j ([] : List (ι × α)) = [] := rfl

@[simp] theorem served_cons_self (j : ι) (a : α) (log : List (ι × α)) :
    served j ((j, a) :: log) = a :: served j log := by
  simp [served]

theorem served_cons_of_ne {i j : ι} (h : i ≠ j) (a : α) (log : List (ι × α)) :
    served j ((i, a) :: log) = served j log := by
  simp [served, h]

/-- Each component goes through its own orbit, and is served only while due. -/
theorem at_component (h : Fires due f x log y) (j : ι) :
    ∃ n, served j log = List.iterate f (x j) n ∧ y j = f^[n] (x j) ∧
      ∀ k < n, due (f^[k] (x j)) := by
  induction h with
  | nil x => exact ⟨0, rfl, rfl, by simp⟩
  | @cons x y i log hdue _ ih =>
      obtain ⟨n, hlog, hy, hk⟩ := ih
      by_cases hij : i = j
      · subst hij
        rw [Function.update_self] at hlog hy hk
        refine ⟨n + 1, by simp [hlog], by simpa using hy, fun k hkn => ?_⟩
        cases k with
        | zero => exact hdue
        | succ k => exact hk k (by omega)
      · rw [Function.update_of_ne (Ne.symm hij)] at hlog hy hk
        exact ⟨n, by rwa [served_cons_of_ne hij], hy, hk⟩

/-- The first idle member of an orbit is reached after one definite number of steps. -/
theorem steps_unique {a : α} {m n : ℕ} (hm : ∀ k < m, due (f^[k] a)) (hn : ∀ k < n, due (f^[k] a))
    (hm' : ¬ due (f^[m] a)) (hn' : ¬ due (f^[n] a)) : m = n := by
  rcases lt_trichotomy m n with h | h | h
  · exact absurd (hn m h) hm'
  · exact h
  · exact absurd (hm n h) hn'

/-- What happens to a component depends on that component alone. -/
theorem at_eq (h : Fires due f x log y) (h' : Fires due f x' log' y') {j : ι}
    (hx : x j = x' j) (hy : ¬ due (y j)) (hy' : ¬ due (y' j)) :
    served j log = served j log' ∧ y j = y' j := by
  obtain ⟨m, hlog, hm, hdue⟩ := h.at_component j
  obtain ⟨n, hlog', hn, hdue'⟩ := h'.at_component j
  rw [← hx] at hlog' hn hdue'
  obtain rfl := steps_unique hdue hdue' (hm ▸ hy) (hn ▸ hy')
  exact ⟨hlog.trans hlog'.symm, hm.trans hn.symm⟩

theorem length_eq_sum [Fintype ι] (log : List (ι × α)) :
    log.length = ∑ j, (served j log).length := by
  induction log with
  | nil => simp
  | cons e log ih =>
      have : ∀ j, (served j (e :: log)).length =
          (served j log).length + if e.1 = j then 1 else 0 := by
        intro j
        by_cases h : e.1 = j <;> simp [served, h]
      simp only [this, Finset.sum_add_distrib, Finset.sum_ite_eq, Finset.mem_univ, if_true,
        List.length_cons, ih]

/-- If every orbit has an idle member, that bounds the length of every execution. -/
theorem length_le [Fintype ι] (h : Fires due f x log y) {bound : ι → ℕ}
    (hbound : ∀ j, ¬ due (f^[bound j] (x j))) : log.length ≤ ∑ j, bound j := by
  rw [length_eq_sum]
  refine Finset.sum_le_sum fun j _ => ?_
  obtain ⟨n, hlog, -, hdue⟩ := h.at_component j
  rw [hlog, List.length_iterate]
  by_contra hc
  exact hbound j (hdue _ (by omega))

end Fires

/-! ## Orbits of a wrapping counter -/

namespace Wrap

variable {N : ℕ}

/-- The members of the orbit of `d` under steps of `p`, modulo `N`, are congruent to `d`. -/
theorem mod_gcd (d p k : ℕ) : (d + k * p) % N % Nat.gcd p N = d % Nat.gcd p N := by
  rw [Nat.mod_mod_of_dvd _ (Nat.gcd_dvd_right p N), Nat.add_mod,
    Nat.mod_eq_zero_of_dvd (Dvd.dvd.mul_left (Nat.gcd_dvd_left p N) k), Nat.add_zero,
    Nat.mod_mod]

/-- Every residue in the class of `d` is met by its orbit. -/
theorem exists_step_eq {d p m : ℕ} (hm : m < N) (h : m % Nat.gcd p N = d % Nat.gcd p N) :
    ∃ k, (d + k * p) % N = m := by
  have hN : (0 : ℤ) < N := by omega
  obtain ⟨t, ht⟩ : (Nat.gcd p N : ℤ) ∣ (m : ℤ) - d :=
    (Int.natCast_modEq_iff.2 (show d ≡ m [MOD Nat.gcd p N] from h.symm)).dvd
  have hbez := Nat.gcd_eq_gcd_ab p N
  let a : ℤ := Nat.gcdA p N * t
  refine ⟨(a % N).toNat, ?_⟩
  have hk : ((a % N).toNat : ℤ) = a % N := Int.toNat_of_nonneg (Int.emod_nonneg _ (by omega))
  have hmod : ((d + (a % N).toNat * p : ℕ) : ℤ) ≡ m [ZMOD N] := by
    push_cast [hk]
    calc (d : ℤ) + a % N * p
        ≡ d + a * p [ZMOD N] := (Int.ModEq.refl _).add ((Int.mod_modEq a N).mul_right _)
      _ = m - N * (Nat.gcdB p N * t) := by
          have : (m : ℤ) = d + (p * Nat.gcdA p N + N * Nat.gcdB p N) * t := by
            rw [← hbez]; omega
          rw [this]
          simp only [a]
          ring
      _ ≡ m [ZMOD N] := by
          simp
  have hmodN : d + (a % N).toNat * p ≡ m [MOD N] := Int.natCast_modEq_iff.1 hmod
  rw [hmodN, Nat.mod_eq_of_lt hm]

/-- The orbit of `d` leaves `0 .. now` exactly when its largest member does. -/
theorem exists_gt_iff (hN : 0 < N) (d p now : ℕ) :
    (∃ k, now < (d + k * p) % N) ↔ now < N - Nat.gcd p N + d % Nat.gcd p N := by
  have hg : 0 < Nat.gcd p N := Nat.gcd_pos_of_pos_right p hN
  have hgN : Nat.gcd p N ≤ N := Nat.gcd_le_right p hN
  have hlt : d % Nat.gcd p N < Nat.gcd p N := Nat.mod_lt _ hg
  constructor
  · rintro ⟨k, hk⟩
    have hmod := mod_gcd (N := N) d p k
    have hxN : (d + k * p) % N < N := Nat.mod_lt _ hN
    generalize (d + k * p) % N = x at hk hmod hxN
    -- the multiple of the divisor below `x` is below `N`, hence a whole divisor below it
    have hx := Nat.div_add_mod x (Nat.gcd p N)
    obtain ⟨c, hc⟩ := Nat.gcd_dvd_right p N
    have hq : x / Nat.gcd p N + 1 ≤ c := by
      have : Nat.gcd p N * (x / Nat.gcd p N) < Nat.gcd p N * c := by omega
      exact Nat.lt_of_mul_lt_mul_left this
    have := Nat.mul_le_mul_left (Nat.gcd p N) hq
    rw [Nat.mul_add, Nat.mul_one, ← hc] at this
    omega
  · intro hnow
    obtain ⟨k, hk⟩ := exists_step_eq (d := d) (p := p) (N := N)
      (m := N - Nat.gcd p N + d % Nat.gcd p N) (by omega) (by
        have hdvd : Nat.gcd p N ∣ N - Nat.gcd p N :=
          Nat.dvd_sub (Nat.gcd_dvd_right p N) dvd_rfl
        rw [Nat.add_mod, Nat.mod_eq_zero_of_dvd hdvd, Nat.zero_add, Nat.mod_mod, Nat.mod_mod])
    exact ⟨k, by omega⟩

end Wrap
end Tk1Bsp
