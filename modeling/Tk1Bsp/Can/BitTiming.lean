import Mathlib.Algebra.Order.Round
import Mathlib.Data.Rat.Floor
import Mathlib.Tactic.FieldSimp
import Mathlib.Tactic.Linarith
import Mathlib.Tactic.Positivity
import Mathlib.Tactic.Ring
import Tk1Bsp.Can.Device
import Tk1Bsp.Framework.ArgMin

/-!
# What `set_baudrate` chooses

The loop scores a number of quanta by how far the quantum is from a whole number of ticks (`score`).
A score below `w` is a matter of the bit time alone: it lies in a window around a multiple of `i`
ticks (`InWindow`).

The prescaler counts in steps of two ticks, and it and the segments have bounds of which the loop
knows nothing: the count with the best score need not be one with which the bit time can be met
(`Apt`), or one whose values fit into their fields (`Usable`).
-/

namespace Tk1Bsp
namespace Can

/-- What `set_baudrate` computes: the number of quanta, and the values for `hw_set_bit_timing`. -/
structure BitTiming where
  tqNum : BitVec 8
  brp : BitVec 8
  propseg : BitVec 8
  phseg1 : BitVec 8
  phseg2 : BitVec 8
  deriving DecidableEq

/-- The computation in `set_baudrate`. -/
def timing (baudrate : BitVec 32) : BitTiming :=
  let tqNum := bestTqNum (divRound nsInS baudrate)
  { tqNum := tqNum
    brp := (divRound oscFreq (2 * baudrate * tqNum.setWidth 32)).setWidth 8
    propseg := (segments tqNum).1
    phseg1 := (segments tqNum).2.1
    phseg2 := (segments tqNum).2.2 }

/-- The candidates of the loop. -/
def tqNums : List ℕ := List.range' minTqNum (maxTqNum + 1 - minTqNum)

/-- The error of a candidate in the loop. -/
def score (baudrate : BitVec 32) (i : ℕ) : ℕ :=
  (tickError (divRound (divRound nsInS baudrate) (BitVec.ofNat 32 i))).toNat

/-! ## The loop -/

theorem mem_tqNums {i : ℕ} : i ∈ tqNums ↔ 8 ≤ i ∧ i ≤ 25 := by
  rw [tqNums, List.mem_range'_1]
  show 8 ≤ i ∧ i < 26 ↔ _
  omega

theorem tickError_lt (tqTime : BitVec 32) : tickError tqTime < 0xFFFFFFFF := by
  have htick : timePerTick = 50 := by decide
  have hmod : (tqTime % 50).toNat < 50 := by
    rw [BitVec.toNat_umod]
    exact Nat.mod_lt _ (by decide)
  have hbound : (0xFFFFFFFF : BitVec 32).toNat = 4294967295 := rfl
  simp only [tickError, htick, BitVec.lt_def, hbound]
  split
  · rw [BitVec.toNat_sub]
    have h50 : (50 : BitVec 32).toNat = 50 := rfl
    omega
  · omega

theorem tqNums_ne_nil : tqNums ≠ [] := List.cons_ne_nil _ _

/-- The loop of `set_baudrate`. -/
theorem bestTqNum_eq (baudrate : BitVec 32) : bestTqNum (divRound nsInS baudrate) =
    ((tqNums.argmin (score baudrate)).elim (0xFFFFFFFF, BitVec.ofNat 8 minTqNum)
      fun i => (tickError (divRound (divRound nsInS baudrate) (BitVec.ofNat 32 i)),
        BitVec.ofNat 8 i)).2 :=
  congrArg Prod.snd (foldl_eq_argmin (fun _ _ => BitVec.lt_def) fun _ _ => tickError_lt _)

-- `bestTqNum` is not evaluated: the conditions of its eighteen steps are not known

theorem tqNum_timing (baudrate : BitVec 32) :
    (timing baudrate).tqNum = bestTqNum (divRound nsInS baudrate) := by
  unfold timing
  with_reducible rfl

theorem brp_timing (baudrate : BitVec 32) : (timing baudrate).brp =
    (divRound oscFreq (2 * baudrate * (timing baudrate).tqNum.setWidth 32)).setWidth 8 := by
  unfold timing
  with_reducible rfl

theorem exists_tqNum (baudrate : BitVec 32) : ∃ n, n ∈ tqNums.argmin (score baudrate) ∧
    (timing baudrate).tqNum = BitVec.ofNat 8 n := by
  have hbest := bestTqNum_eq baudrate
  have hne : tqNums.argmin (score baudrate) ≠ none := mt List.argmin_eq_none.1 tqNums_ne_nil
  obtain ⟨n, hmin⟩ := Option.ne_none_iff_exists'.1 hne
  rw [hmin, Option.elim_some, ← tqNum_timing] at hbest
  exact ⟨n, hmin, hbest⟩

/-! ## Rounding -/

/-- Division with rounding, in natural numbers. -/
theorem add_half_div (n : ℕ) {d : ℕ} (hd : 0 < d) :
    (((n + d / 2) / d : ℕ) : ℤ) = round ((n : ℚ) / d) := by
  have hlow := Nat.div_mul_le_self (n + d / 2) d
  have hhigh := Nat.lt_mul_div_succ (n + d / 2) hd
  generalize (n + d / 2) / d = q at hlow hhigh
  have hhalf := Nat.div_add_mod d 2
  have hmod := Nat.mod_lt d (Nat.succ_pos 1)
  rw [Nat.mul_succ, Nat.mul_comm d q] at hhigh
  have hdq : (0 : ℚ) < d := Nat.cast_pos.2 hd
  have hlow' : (2 * (q * d) : ℚ) ≤ 2 * n + d := by
    exact_mod_cast (by omega : 2 * (q * d) ≤ 2 * n + d)
  have hhigh' : (2 * n + d : ℚ) < 2 * (q * d + d) := by
    exact_mod_cast (by omega : 2 * n + d < 2 * (q * d + d))
  symm
  rw [round_eq_iff, Set.mem_Ico, le_div_iff₀ hdq, div_lt_iff₀ hdq, Int.cast_natCast]
  constructor <;> linarith

theorem toNat_divRound {n d : BitVec 32} (h : n.toNat + d.toNat / 2 < 2 ^ 32) :
    (divRound n d).toNat = (n.toNat + d.toNat / 2) / d.toNat := by
  have htwo : (2 : BitVec 32).toNat = 2 := rfl
  rw [divRound, BitVec.toNat_udiv, BitVec.toNat_add, BitVec.toNat_udiv, htwo, Nat.mod_eq_of_lt h]

/-! ## Windows -/

/-- The bit time is in a window around a multiple of `50 * i` nanoseconds, of less than `w * i` to
either side.  The halves are those of the two roundings. -/
def InWindow (baudrate : BitVec 32) (w i : ℕ) : Prop := ∃ k : ℕ,
  (50 * k + 1 - w) * i ≤ (10 ^ 9 / baudrate.toNat + 1 / 2 + (i / 2 : ℕ) : ℚ) ∧
    (10 ^ 9 / baudrate.toNat + 1 / 2 + (i / 2 : ℕ) : ℚ) < (50 * k + w) * i

/-- Rounding twice, as a bound on the quotient itself. -/
theorem le_rounded_iff (n : ℕ) {d i : ℕ} (hd : 0 < d) (hi : 0 < i) (z : ℤ) :
    z ≤ (((n + d / 2) / d + i / 2) / i : ℕ) ↔ (z * i : ℚ) ≤ n / d + 1 / 2 + (i / 2 : ℕ) := by
  have hi' : (0 : ℤ) < i := Int.natCast_pos.2 hi
  rw [Int.natCast_ediv, Int.le_ediv_iff_mul_le hi', Int.natCast_add, add_half_div n hd, round_eq,
    ← sub_le_iff_le_add, Int.le_floor, Int.cast_sub, Int.cast_mul, Int.cast_natCast,
    Int.cast_natCast, sub_le_iff_le_add]

/-- The error of a quantum, as a distance from the multiples of a tick. -/
theorem tickError_lt_iff (tqTime : BitVec 32) (w : ℕ) : (tickError tqTime).toNat < w ↔
    ∃ k : ℕ, (50 * k + 1 - w : ℤ) ≤ tqTime.toNat ∧ (tqTime.toNat : ℤ) < 50 * k + w := by
  have htick : timePerTick = 50 := by decide
  have h50 : (50 : BitVec 32).toNat = 50 := rfl
  have htwo : (2 : BitVec 32).toNat = 2 := rfl
  have hrest : (tqTime % 50).toNat = tqTime.toNat % 50 := BitVec.toNat_umod
  have herror : (tickError tqTime).toNat =
      if 50 < 2 * (tqTime.toNat % 50) then 50 - tqTime.toNat % 50 else tqTime.toNat % 50 := by
    simp only [tickError, htick, gt_iff_lt, BitVec.lt_def, BitVec.toNat_mul, hrest, h50, htwo]
    rw [Nat.mod_eq_of_lt (by omega)]
    split
    · rw [BitVec.toNat_sub, hrest, h50]
      omega
    · exact hrest
  rw [herror]
  constructor
  · intro h
    split at h
    · exact ⟨tqTime.toNat / 50 + 1, by omega, by omega⟩
    · exact ⟨tqTime.toNat / 50, by omega, by omega⟩
  · rintro ⟨k, hlow, hhigh⟩
    split <;> omega

/-- A score below `w` puts the bit time into a window. -/
theorem score_lt_iff {baudrate : BitVec 32} {i : ℕ} (hlow : 6250 ≤ baudrate.toNat)
    (hhigh : baudrate.toNat ≤ 1000000) (hi : 8 ≤ i ∧ i ≤ 25) (w : ℕ) :
    score baudrate i < w ↔ InWindow baudrate w i := by
  have hns : nsInS.toNat = 10 ^ 9 := rfl
  have hcount : (BitVec.ofNat 32 i).toNat = i := Nat.mod_eq_of_lt (by omega)
  have hbit : (divRound nsInS baudrate).toNat =
      (10 ^ 9 + baudrate.toNat / 2) / baudrate.toNat := by
    rw [toNat_divRound (by omega), hns]
  have hle := Nat.div_le_self (10 ^ 9 + baudrate.toNat / 2) baudrate.toNat
  have hquantum : (divRound (divRound nsInS baudrate) (BitVec.ofNat 32 i)).toNat =
      ((10 ^ 9 + baudrate.toNat / 2) / baudrate.toNat + i / 2) / i := by
    rw [toNat_divRound (by omega), hbit, hcount]
  have hround := le_rounded_iff (10 ^ 9) (by omega : 0 < baudrate.toNat) (by omega : 0 < i)
  rw [score, tickError_lt_iff, hquantum, InWindow]
  refine exists_congr fun k => and_congr ?_ ?_
  · rw [hround]
    push_cast
    exact Iff.rfl
  · rw [← not_le, hround, not_le]
    push_cast
    exact Iff.rfl

theorem not_inWindow_zero (baudrate : BitVec 32) (i : ℕ) : ¬ InWindow baudrate 0 i := by
  rintro ⟨k, hlow, hhigh⟩
  have hi : (0 : ℚ) ≤ i := Nat.cast_nonneg i
  rw [Nat.cast_zero] at hlow hhigh
  linarith

/-- The count that the loop finds has a property exactly if the bit time is in a window of a count
that has it, before it is in one of a count that does not. -/
theorem tqNum_iff {baudrate : BitVec 32} {n : ℕ} (hlow : 6250 ≤ baudrate.toNat)
    (hhigh : baudrate.toNat ≤ 1000000) (hmin : n ∈ tqNums.argmin (score baudrate))
    (P : ℕ → Prop) : P n ↔ ∃ w i, (8 ≤ i ∧ i ≤ 25) ∧ P i ∧ InWindow baudrate w i ∧
      ∀ j, 8 ≤ j ∧ j ≤ 25 → ¬ P j →
        ¬ InWindow baudrate (w - 1) j ∧ (j < i → ¬ InWindow baudrate w j) := by
  have hwindow : ∀ {i}, 8 ≤ i ∧ i ≤ 25 → ∀ w, score baudrate i < w ↔ InWindow baudrate w i :=
    fun hi => score_lt_iff hlow hhigh hi
  rw [argmin_iff (List.pairwise_lt_range' 1) hmin P]
  constructor
  · rintro ⟨i, hi, hP, hbeats⟩
    have hi := mem_tqNums.1 hi
    refine ⟨score baudrate i + 1, i, hi, hP, (hwindow hi _).1 (Nat.lt_succ_self _),
      fun j hj hnot => ?_⟩
    obtain ⟨hle, hlt⟩ := hbeats j (mem_tqNums.2 hj) hnot
    rw [← hwindow hj, ← hwindow hj]
    exact ⟨hle.not_gt, fun hji => (Nat.succ_le_of_lt (hlt hji)).not_gt⟩
  · rintro ⟨w, i, hi, hP, hin, hout⟩
    have hscore := (hwindow hi w).2 hin
    refine ⟨i, mem_tqNums.2 hi, hP, fun j hj hnot => ?_⟩
    have hj := mem_tqNums.1 hj
    obtain ⟨hle, hlt⟩ := hout j hj hnot
    rw [← hwindow hj] at hle hlt
    exact ⟨by omega, fun hji => hscore.trans_le (not_lt.1 (hlt hji))⟩

section Domain

variable {baudrate : BitVec 32} {n : ℕ}

theorem toNat_divisor (hhigh : baudrate.toNat ≤ 1000000) (hn : n ≤ 25) :
    (2 * baudrate * (BitVec.ofNat 8 n).setWidth 32).toNat = 2 * (baudrate.toNat * n) := by
  have htwo : (2 : BitVec 32).toNat = 2 := rfl
  have hprod := Nat.mul_le_mul hhigh hn
  rw [BitVec.toNat_mul, BitVec.toNat_mul, htwo, BitVec.toNat_setWidth, BitVec.toNat_ofNat,
    Nat.mod_eq_of_lt (by omega : 2 * baudrate.toNat < 2 ^ 32),
    Nat.mod_eq_of_lt (by omega : n < 2 ^ 8), Nat.mod_eq_of_lt (by omega : n < 2 ^ 32),
    Nat.mul_assoc, Nat.mod_eq_of_lt (by omega)]

/-- The prescaler for a number of quanta. -/
theorem toNat_brp (hlow : 6250 ≤ baudrate.toNat) (hhigh : baudrate.toNat ≤ 1000000)
    (hn : 8 ≤ n ∧ n ≤ 25) (htq : (timing baudrate).tqNum = BitVec.ofNat 8 n) :
    (timing baudrate).brp.toNat =
      (20000000 + baudrate.toNat * n) / (2 * (baudrate.toNat * n)) := by
  have hprod := Nat.mul_le_mul hhigh hn.2
  have hprod' := Nat.mul_le_mul hlow hn.1
  have hosc : oscFreq.toNat = 20000000 := rfl
  have hdivisor := toNat_divisor hhigh hn.2
  have hhalf : 2 * (baudrate.toNat * n) / 2 = baudrate.toNat * n :=
    Nat.mul_div_cancel_left _ two_pos
  rw [brp_timing, htq, BitVec.toNat_setWidth, toNat_divRound (by rw [hdivisor, hosc]; omega),
    hdivisor, hosc, hhalf]
  refine Nat.mod_eq_of_lt ?_
  rw [Nat.div_lt_iff_lt_mul (by omega)]
  omega

/-- `set_baudrate` passes on what it computes. -/
theorem setBaudrate_eq (hlow : 6250 ≤ baudrate.toNat) (hhigh : baudrate.toNat ≤ 1000000)
    (hn : 8 ≤ n ∧ n ≤ 25) (htq : (timing baudrate).tqNum = BitVec.ofNat 8 n) :
    setBaudrate baudrate = hwSetBitTiming 1 (timing baudrate).brp (timing baudrate).propseg
      (timing baudrate).phseg1 (timing baudrate).phseg2 := by
  have hprod := Nat.mul_le_mul hlow hn.1
  have hdivisor := toNat_divisor hhigh hn.2
  rw [← htq, tqNum_timing] at hdivisor
  have hne : ¬ (baudrate = 0 ∨
      2 * baudrate * (bestTqNum (divRound nsInS baudrate)).setWidth 32 = 0) := by
    refine not_or.2 ⟨fun h => ?_, fun h => ?_⟩
    · rw [h] at hlow
      exact absurd hlow (by decide)
    · have hzero : (0 : BitVec 32).toNat = 0 := rfl
      rw [h, hzero] at hdivisor
      omega
  unfold setBaudrate timing
  dsimp only
  rw [if_neg hne]

end Domain

/-! ## The bit time -/

/-- The pairs of a number of quanta and a prescaler that the controller can realise. -/
def Admissible (n brp : ℕ) : Prop := (8 ≤ n ∧ n ≤ 25) ∧ 1 ≤ brp ∧ brp ≤ 64

/-- The real bit time of a pair, in nanoseconds. -/
def realTime (n brp : ℕ) : ℚ := 2 * brp * n * 50

/-- `set_baudrate` passes the bit timing that is closest to the one wanted. -/
structure BestTiming (baudrate : BitVec 32) : Prop where
  passed : setBaudrate baudrate = hwSetBitTiming 1 (timing baudrate).brp (timing baudrate).propseg
    (timing baudrate).phseg1 (timing baudrate).phseg2
  closest : ∀ n brp, Admissible n brp →
    |realTime (timing baudrate).tqNum.toNat (timing baudrate).brp.toNat - 10 ^ 9 / baudrate.toNat| ≤
      |realTime n brp - 10 ^ 9 / baudrate.toNat|
  exact : (∃ n brp, Admissible n brp ∧ realTime n brp = 10 ^ 9 / baudrate.toNat) →
    realTime (timing baudrate).tqNum.toNat (timing baudrate).brp.toNat = 10 ^ 9 / baudrate.toNat

/-- How far a multiple of 100 ns is from the bit time wanted. -/
def offBy (baudrate : BitVec 32) (m : ℕ) : ℚ := |100 * (m : ℚ) - 10 ^ 9 / baudrate.toNat|

/-- No multiple of 100 ns that is closer to the bit time than all those of a bit of `i` quanta is
the bit time of an admissible pair. -/
def Apt (baudrate : BitVec 32) (i : ℕ) : Prop :=
  ∀ m, (∀ k, offBy baudrate m < offBy baudrate (k * i)) → ¬ ∃ n brp, Admissible n brp ∧ m = brp * n

section Time

variable {baudrate : BitVec 32} {n brp : ℕ}

theorem offBy_mul (baudrate : BitVec 32) (n brp : ℕ) :
    |realTime n brp - 10 ^ 9 / baudrate.toNat| = offBy baudrate (brp * n) := by
  rw [realTime, offBy, Nat.cast_mul]
  congr 2
  ring

/-- A bit of `n` quanta, one of which is within 50 ns, is apt. -/
theorem apt_of_near {k : ℕ} (h : offBy baudrate (k * n) ≤ 50) : Apt baudrate n := by
  intro m hm
  have hlt := hm k
  have hne : m ≠ k * n := by
    rintro rfl
    exact lt_irrefl _ hlt
  -- two whole numbers, both at most one half away, and one of them less
  have hsum : |100 * (m : ℚ) - 100 * (k * n : ℕ)| < 100 := calc
    |100 * (m : ℚ) - 100 * (k * n : ℕ)| ≤ offBy baudrate m + offBy baudrate (k * n) := by
        rw [← sub_sub_sub_cancel_right _ _ (10 ^ 9 / baudrate.toNat : ℚ)]
        exact abs_sub _ _
    _ < 100 := by linarith
  rw [← mul_sub, abs_mul, abs_of_pos (by norm_num : (0 : ℚ) < 100)] at hsum
  have hone : |(m : ℚ) - (k * n : ℕ)| < 1 := by linarith
  have hint : |(m : ℤ) - (k * n : ℕ)| < 1 := by exact_mod_cast hone
  exact absurd (Int.ofNat_inj.1 (sub_eq_zero.1 (Int.abs_lt_one_iff.1 hint))) hne

theorem offBy_mul_eq (hB : baudrate.toNat ≠ 0) (hn : n ≠ 0) (k : ℕ) : offBy baudrate (k * n) =
    100 * n * |((20000000 : ℕ) / (2 * (baudrate.toNat * n) : ℕ) : ℚ) - k| := by
  have hB' : (baudrate.toNat : ℚ) ≠ 0 := Nat.cast_ne_zero.2 hB
  have hn' : (n : ℚ) ≠ 0 := Nat.cast_ne_zero.2 hn
  have hpos : (0 : ℚ) ≤ 100 * n := by positivity
  have hscaled : 10 ^ 9 / (baudrate.toNat : ℚ) - 100 * ((k * n : ℕ) : ℚ) =
      100 * n * (((20000000 : ℕ) : ℚ) / (2 * (baudrate.toNat * n) : ℕ) - k) := by
    rw [Nat.cast_mul, Nat.cast_mul, Nat.cast_mul, Nat.cast_ofNat, Nat.cast_ofNat]
    field_simp
    ring
  rw [offBy, abs_sub_comm, hscaled, abs_mul, abs_of_nonneg hpos]

/-- The prescaler is the best one for the number of quanta. -/
theorem offBy_brp_le (hlow : 6250 ≤ baudrate.toNat) (hhigh : baudrate.toNat ≤ 1000000)
    (hn : 8 ≤ n ∧ n ≤ 25) (htq : (timing baudrate).tqNum = BitVec.ofNat 8 n) (k : ℕ) :
    offBy baudrate ((timing baudrate).brp.toNat * n) ≤ offBy baudrate (k * n) := by
  have hpos : 0 < baudrate.toNat * n := Nat.mul_pos (by omega) (by omega)
  have hbrp := toNat_brp hlow hhigh hn htq
  have hround := add_half_div 20000000 (Nat.mul_pos two_pos hpos)
  rw [Nat.mul_div_cancel_left _ two_pos, ← hbrp] at hround
  have hbest := round_le ((20000000 : ℕ) / (2 * (baudrate.toNat * n) : ℕ) : ℚ) k
  rw [← hround, Int.cast_natCast, Int.cast_natCast] at hbest
  rw [offBy_mul_eq (by omega) (by omega), offBy_mul_eq (by omega) (by omega)]
  exact mul_le_mul_of_nonneg_left hbest (by positivity)

/-- The choice is the best one if the number of quanta is apt. -/
theorem bestTiming_iff_apt (hlow : 6250 ≤ baudrate.toNat) (hhigh : baudrate.toNat ≤ 1000000)
    (hn : 8 ≤ n ∧ n ≤ 25) (htq : (timing baudrate).tqNum = BitVec.ofNat 8 n) :
    BestTiming baudrate ↔ Apt baudrate n := by
  have hbrp := offBy_brp_le hlow hhigh hn htq
  have hnat : (timing baudrate).tqNum.toNat = n := by
    rw [htq, BitVec.toNat_ofNat, Nat.mod_eq_of_lt (by omega)]
  constructor
  · rintro h m hm ⟨n', brp, hadm, rfl⟩
    have hle := h.closest n' brp hadm
    rw [hnat, offBy_mul, offBy_mul] at hle
    exact absurd (hm (timing baudrate).brp.toNat) hle.not_gt
  · intro h
    have hclosest : ∀ n' brp, Admissible n' brp →
        |realTime (timing baudrate).tqNum.toNat (timing baudrate).brp.toNat -
          10 ^ 9 / baudrate.toNat| ≤ |realTime n' brp - 10 ^ 9 / baudrate.toNat| := by
      intro n' brp hadm
      rw [hnat, offBy_mul, offBy_mul]
      by_contra hlt
      exact h (brp * n') (fun k => (not_le.1 hlt).trans_le (hbrp k)) ⟨n', brp, hadm, rfl⟩
    refine ⟨setBaudrate_eq hlow hhigh hn htq, hclosest, ?_⟩
    rintro ⟨n', brp, hadm, hexact⟩
    have hle := hclosest n' brp hadm
    rw [hexact, sub_self, abs_zero] at hle
    exact sub_eq_zero.1 (abs_eq_zero.1 (le_antisymm hle (abs_nonneg _)))

/-- The choice is the best one exactly if the bit time is in a window of an apt number of quanta
before it is in one of a number that is not apt. -/
theorem bestTiming_iff (hlow : 6250 ≤ baudrate.toNat) (hhigh : baudrate.toNat ≤ 1000000) :
    BestTiming baudrate ↔ ∃ w i, (8 ≤ i ∧ i ≤ 25) ∧ Apt baudrate i ∧ InWindow baudrate w i ∧
      ∀ j, 8 ≤ j ∧ j ≤ 25 → ¬ Apt baudrate j →
        ¬ InWindow baudrate (w - 1) j ∧ (j < i → ¬ InWindow baudrate w j) := by
  obtain ⟨n, hmin, htq⟩ := exists_tqNum baudrate
  have hn := mem_tqNums.1 (List.argmin_mem hmin)
  rw [bestTiming_iff_apt hlow hhigh hn htq]
  exact tqNum_iff hlow hhigh hmin (Apt baudrate)

end Time

/-- At 125 kHz the bit time is 160 ticks, and eight quanta of 20. -/
theorem inWindow_125000 : InWindow 125000 1 8 := by
  have hB : (125000 : BitVec 32).toNat = 125000 := rfl
  refine ⟨20, ?_, ?_⟩ <;> norm_num [hB]

/-- The eight quanta at 125 kHz are ten steps of 100 ns each. -/
theorem bestTiming_iff_125000 : BestTiming 125000 := by
  refine (bestTiming_iff (by decide) (by decide)).2
    ⟨1, 8, by decide, ?_, inWindow_125000, fun j hj _ => ?_⟩
  · refine apt_of_near (k := 10) ?_
    have hB : (125000 : BitVec 32).toNat = 125000 := rfl
    norm_num [offBy, hB]
  · exact ⟨not_inWindow_zero _ j, fun hlt => absurd hj.1 hlt.not_ge⟩

theorem timing_500000 : timing 500000 = ⟨8, 3, 2, 3, 2⟩ := by decide

/-- At 500 kHz it is eight quanta of five ticks, which the prescaler cannot make. -/
theorem not_bestTiming_500000 : ¬ BestTiming 500000 := by
  intro h
  have hle := h.closest 10 2 (by unfold Admissible; decide)
  have hB : (500000 : BitVec 32).toNat = 500000 := rfl
  have htq : (8 : BitVec 8).toNat = 8 := rfl
  have hbrp : (3 : BitVec 8).toNat = 3 := rfl
  rw [timing_500000, hB, htq, hbrp] at hle
  norm_num [realTime] at hle

/-! ## The fields -/

/-- What the fields of `CNF1`, `CNF2` and `CNF3` say: one quantum of jump width, one sample, and the
values of `t`. -/
structure Decodes (cnf1 cnf2 cnf3 : BitVec 8) (t : BitTiming) : Prop where
  sjw : cnf1 >>> 6 + 1 = 1
  brp : (cnf1 &&& 0x3F) + 1 = t.brp
  btlmode : cnf2.getLsbD 7 = true
  sam : cnf2.getLsbD 6 = false
  phseg1 : ((cnf2 >>> 3) &&& 7) + 1 = t.phseg1
  propseg : (cnf2 &&& 7) + 1 = t.propseg
  phseg2 : (cnf3 &&& 7) + 1 = t.phseg2

/-- The values are in range, and the segments make up the bit. -/
structure InRange (t : BitTiming) : Prop where
  brp : 1 ≤ t.brp.toNat ∧ t.brp.toNat ≤ 64
  propseg : 1 ≤ t.propseg.toNat ∧ t.propseg.toNat ≤ 8
  phseg1 : 1 ≤ t.phseg1.toNat ∧ t.phseg1.toNat ≤ 8
  phseg2 : 2 ≤ t.phseg2.toNat ∧ t.phseg2.toNat ≤ 8
  phseg2_le : t.phseg2.toNat ≤ t.phseg1.toNat
  sum : 1 + t.propseg.toNat + t.phseg1.toNat + t.phseg2.toNat = t.tqNum.toNat

/-- The values that `set_baudrate` passes are in range, and the registers hold them. -/
structure LegalTiming (baudrate : BitVec 32) : Prop where
  passed : setBaudrate baudrate = hwSetBitTiming 1 (timing baudrate).brp (timing baudrate).propseg
    (timing baudrate).phseg1 (timing baudrate).phseg2
  inRange : InRange (timing baudrate)
  fields : ∃ c₁ c₂ c₃, setBaudrate baudrate = mcp2515WriteNregs cnf3 [c₃, c₂, c₁] ∧
    Decodes c₁ c₂ c₃ (timing baudrate)

/-- The segments fit into their fields, and so does the prescaler. -/
def Usable (baudrate : BitVec 32) (i : ℕ) : Prop := i ≤ 16 ∧ 20000000 < 129 * (baudrate.toNat * i)

section Fields

variable {baudrate : BitVec 32} {n : ℕ}

theorem segments_timing (baudrate : BitVec 32) : ((timing baudrate).propseg,
    (timing baudrate).phseg1, (timing baudrate).phseg2) = segments (timing baudrate).tqNum := by
  unfold timing
  with_reducible rfl

/-- The segments of up to sixteen quanta are in range. -/
theorem segments_of_le : ∀ n ∈ List.range' 8 9,
    (1 ≤ (segments (BitVec.ofNat 8 n)).1.toNat ∧ (segments (BitVec.ofNat 8 n)).1.toNat ≤ 8) ∧
    (1 ≤ (segments (BitVec.ofNat 8 n)).2.1.toNat ∧ (segments (BitVec.ofNat 8 n)).2.1.toNat ≤ 8) ∧
    (2 ≤ (segments (BitVec.ofNat 8 n)).2.2.toNat ∧ (segments (BitVec.ofNat 8 n)).2.2.toNat ≤ 8) ∧
    (segments (BitVec.ofNat 8 n)).2.2.toNat ≤ (segments (BitVec.ofNat 8 n)).2.1.toNat ∧
    1 + (segments (BitVec.ofNat 8 n)).1.toNat + (segments (BitVec.ofNat 8 n)).2.1.toNat +
      (segments (BitVec.ofNat 8 n)).2.2.toNat = n := by
  decide

/-- Those of more quanta are not. -/
theorem segments_of_gt : ∀ n ∈ List.range' 17 9, 8 < (segments (BitVec.ofNat 8 n)).2.1.toNat := by
  decide

-- the three registers, for all values in range

theorem decodes_cnf1 : ∀ brp ∈ List.range' 1 64,
    let cnf1 := (1 - 1) <<< 6 ||| (BitVec.ofNat 8 brp - 1)
    cnf1 >>> 6 + 1 = 1 ∧ (cnf1 &&& 0x3F) + 1 = BitVec.ofNat 8 brp := by
  decide

theorem decodes_cnf2 : ∀ phseg1 ∈ List.range' 1 8, ∀ propseg ∈ List.range' 1 8,
    let cnf2 := cnf2Btlmode ||| (BitVec.ofNat 8 phseg1 - 1) <<< 3 ||| (BitVec.ofNat 8 propseg - 1)
    cnf2.getLsbD 7 = true ∧ cnf2.getLsbD 6 = false ∧
      ((cnf2 >>> 3) &&& 7) + 1 = BitVec.ofNat 8 phseg1 ∧
      (cnf2 &&& 7) + 1 = BitVec.ofNat 8 propseg := by
  decide

theorem decodes_cnf3 : ∀ phseg2 ∈ List.range' 1 8,
    ((BitVec.ofNat 8 phseg2 - 1) &&& 7) + 1 = BitVec.ofNat 8 phseg2 := by
  decide

/-- Values in range can be read back from the bytes that `hw_set_bit_timing` writes. -/
theorem InRange.fields {t : BitTiming} (h : InRange t) : ∃ c₁ c₂ c₃,
    hwSetBitTiming 1 t.brp t.propseg t.phseg1 t.phseg2 = mcp2515WriteNregs cnf3 [c₃, c₂, c₁] ∧
      Decodes c₁ c₂ c₃ t := by
  obtain ⟨hbrp, hpropseg, hphseg1, hphseg2, -, -⟩ := h
  have h₁ := decodes_cnf1 t.brp.toNat (List.mem_range'_1.2 (by omega))
  have h₂ := decodes_cnf2 t.phseg1.toNat (List.mem_range'_1.2 (by omega)) t.propseg.toNat
    (List.mem_range'_1.2 (by omega))
  have h₃ := decodes_cnf3 t.phseg2.toNat (List.mem_range'_1.2 (by omega))
  simp only [BitVec.ofNat_toNat, BitVec.setWidth_eq] at h₁ h₂ h₃
  exact ⟨_, _, _, rfl, h₁.1, h₁.2, h₂.1, h₂.2.1, h₂.2.2.1, h₂.2.2.2, h₃⟩

/-- Up to sixteen quanta the segments are in range. -/
theorem inRange_iff {t : BitTiming} (hn : 8 ≤ n ∧ n ≤ 25) (htq : t.tqNum = BitVec.ofNat 8 n)
    (hsegments : (t.propseg, t.phseg1, t.phseg2) = segments t.tqNum) :
    InRange t ↔ n ≤ 16 ∧ 1 ≤ t.brp.toNat ∧ t.brp.toNat ≤ 64 := by
  have hnat : t.tqNum.toNat = n := by
    rw [htq, BitVec.toNat_ofNat, Nat.mod_eq_of_lt (by omega)]
  rw [htq] at hsegments
  constructor
  · intro h
    refine ⟨?_, h.brp⟩
    by_contra hgt
    have hlong := segments_of_gt n (List.mem_range'_1.2 (by omega))
    rw [← hsegments] at hlong
    exact absurd h.phseg1.2 hlong.not_ge
  · rintro ⟨hle, hbrp⟩
    have hfit := segments_of_le n (List.mem_range'_1.2 (by omega))
    rw [← hsegments] at hfit
    obtain ⟨hpropseg, hphseg1, hphseg2, hge, hsum⟩ := hfit
    exact ⟨hbrp, hpropseg, hphseg1, hphseg2, hge, hsum.trans hnat.symm⟩

/-- The values are legal if the number of quanta is usable. -/
theorem legalTiming_iff_usable (hlow : 6250 ≤ baudrate.toNat) (hhigh : baudrate.toNat ≤ 1000000)
    (hn : 8 ≤ n ∧ n ≤ 25) (htq : (timing baudrate).tqNum = BitVec.ofNat 8 n) :
    LegalTiming baudrate ↔ Usable baudrate n := by
  have hpos : 0 < 2 * (baudrate.toNat * n) :=
    Nat.mul_pos two_pos (Nat.mul_pos (by omega) (by omega))
  have hbrp := toNat_brp hlow hhigh hn htq
  have hrange := inRange_iff hn htq (segments_timing baudrate)
  have hpassed := setBaudrate_eq hlow hhigh hn htq
  have hmax : (timing baudrate).brp.toNat ≤ 64 ↔ 20000000 < 129 * (baudrate.toNat * n) := by
    rw [hbrp, ← Nat.lt_succ_iff, Nat.div_lt_iff_lt_mul hpos]
    omega
  constructor
  · intro h
    obtain ⟨hle, -, h64⟩ := hrange.1 h.inRange
    exact ⟨hle, hmax.1 h64⟩
  · rintro ⟨hle, hslow⟩
    have hprod := Nat.mul_le_mul hhigh hle
    have hmin : 1 ≤ (timing baudrate).brp.toNat := by
      rw [hbrp, Nat.le_div_iff_mul_le hpos]
      omega
    have h := hrange.2 ⟨hle, hmin, hmax.2 hslow⟩
    have hfields := h.fields
    rw [← hpassed] at hfields
    exact ⟨hpassed, h, hfields⟩

/-- The values are legal exactly if the bit time is in a window of a usable number of quanta before
it is in one of a number that is not usable. -/
theorem legalTiming_iff (hlow : 6250 ≤ baudrate.toNat) (hhigh : baudrate.toNat ≤ 1000000) :
    LegalTiming baudrate ↔ ∃ w i, 8 ≤ i ∧ Usable baudrate i ∧ InWindow baudrate w i ∧
      ∀ j, 8 ≤ j ∧ j ≤ 25 → ¬ Usable baudrate j →
        ¬ InWindow baudrate (w - 1) j ∧ (j < i → ¬ InWindow baudrate w j) := by
  obtain ⟨n, hmin, htq⟩ := exists_tqNum baudrate
  have hn := mem_tqNums.1 (List.argmin_mem hmin)
  rw [legalTiming_iff_usable hlow hhigh hn htq, tqNum_iff hlow hhigh hmin (Usable baudrate)]
  refine exists_congr fun w => exists_congr fun i => ?_
  constructor
  · rintro ⟨hi, hrest⟩
    exact ⟨hi.1, hrest⟩
  · rintro ⟨hi, husable, hrest⟩
    exact ⟨⟨hi, husable.1.trans (by decide)⟩, husable, hrest⟩

theorem legalTiming_iff_125000 : LegalTiming 125000 := by
  refine (legalTiming_iff (by decide) (by decide)).2
    ⟨1, 8, by decide, ⟨by decide, by decide⟩, inWindow_125000, fun j hj _ => ?_⟩
  exact ⟨not_inWindow_zero _ j, fun hlt => absurd hj.1 hlt.not_ge⟩

/-- Below 9690 Hz no number of quanta is usable. -/
theorem not_legalTiming_of_lt (hlow : 6250 ≤ baudrate.toNat) (hslow : baudrate.toNat < 9690) :
    ¬ LegalTiming baudrate := by
  obtain ⟨n, hmin, htq⟩ := exists_tqNum baudrate
  rw [legalTiming_iff_usable hlow (by omega) (mem_tqNums.1 (List.argmin_mem hmin)) htq]
  rintro ⟨hle, hfit⟩
  have hprod := Nat.mul_le_mul (Nat.le_of_lt_succ hslow) hle
  omega

/-- At the lowest rate the prescaler is too large for its field. -/
theorem timing_6250 : timing 6250 = ⟨8, 200, 2, 3, 2⟩ := by decide

theorem not_legalTiming_6250 : ¬ LegalTiming 6250 := by
  intro h
  have hmax := h.inRange.brp.2
  rw [timing_6250] at hmax
  exact absurd hmax (by decide)

end Fields

end Can
end Tk1Bsp
