import Mathlib.Algebra.Group.Nat.Defs
import Tk1Bsp.Clock.Forward

/-!
# The scan of the device bits

`allow_enbrst` looks at the bits of a value from the lowest one up.  Here its loop is run in the
arithmetic of `uint32_t`, and says how it ends (`ScanEnd`): with `__builtin_ctz` of zero, which has
no defined value, with a device that is blocked, or with the test of the loop, where it matters
what is left of the value.

`allowEnbrst32_eq` is the connection with `Platform.allowEnbrst`, which counts device numbers
without a bound.
-/

namespace Tk1Bsp
namespace Clock

/-- How the loop of `allow_enbrst` ends. -/
inductive ScanEnd
  | undefined
  | blocked (device : BitVec 32)
  | left (value : BitVec 32)
  deriving DecidableEq

/-- What `allow_enbrst` returns then. -/
def ScanEnd.returns : ScanEnd → Option Bool
  | undefined => none
  | blocked _ => some false
  | left _ => some true

/-- `__builtin_ctz`. -/
def builtinCtz (value : BitVec 32) : Option (BitVec 32) :=
  if value = 0 then none else some value.ctz

/-- `base_id + pos`. -/
def deviceId (rb : BitVec 32) (pos : ℕ) : BitVec 32 := rb * 32 + BitVec.ofNat 32 pos

namespace Platform

variable (P : Platform)

/-- The loop of `allow_enbrst`, with the iterations left. -/
def scan (baseId : BitVec 32) : ℕ → BitVec 32 → ScanEnd
  | 0, value => .left value
  | n + 1, value =>
      if value = 0 then .left value
      else
        match builtinCtz value with
        | none => .undefined
        | some pos =>
            let device := baseId + pos
            if P.allowedDevice device.toNat then scan baseId n (value &&& ~~~(1#32 <<< pos.toNat))
            else .blocked device

/-- `allow_enbrst`. -/
def allowEnbrst32 (ar : AccessRequest) (rb : BitVec 32) : Option Bool :=
  if ar.accessType = .writeAccess then (P.scan (rb * 32) 32 ar.value).returns else some true

variable {P} {rb value : BitVec 32}

/-- One iteration, for a value that is not zero. -/
theorem scan_succ (hzero : value ≠ 0) (n : ℕ) :
    P.scan (rb * 32) (n + 1) value =
      if P.allowedDevice (deviceId rb value.ctz.toNat).toNat then
        P.scan (rb * 32) n (value &&& ~~~(1#32 <<< value.ctz.toNat))
      else .blocked (deviceId rb value.ctz.toNat) := by
  have hid : deviceId rb value.ctz.toNat = rb * 32 + value.ctz := by
    rw [deviceId, BitVec.ofNat_toNat, BitVec.setWidth_eq]
  rw [scan, if_neg hzero, builtinCtz, if_neg hzero, hid]

/-- The loop either ends with nothing left, after it has found that all bits name allowed devices,
or at a bit that names another one.  The bits below `k` have been looked at and cleared. -/
theorem scan_end :
    ∀ {n k : ℕ} {value : BitVec 32}, (∀ i < k, value.getLsbD i = false) → 32 ≤ n + k →
    (P.scan (rb * 32) n value = .left 0 ∧
      ∀ i, value.getLsbD i = true → P.allowedDevice (deviceId rb i).toNat) ∨
    ∃ i, P.scan (rb * 32) n value = .blocked (deviceId rb i) ∧ value.getLsbD i = true ∧
      ¬ P.allowedDevice (deviceId rb i).toNat
  | 0, k, value, hlow, hn => by
      have hzero : value = 0 := by
        apply BitVec.eq_of_getLsbD_eq
        intro i hi
        rw [hlow i (by omega)]
        exact BitVec.getLsbD_zero.symm
      subst hzero
      exact .inl ⟨rfl, by simp⟩
  | n + 1, k, value, hlow, hn => by
      by_cases hzero : value = 0
      · subst hzero
        exact .inl ⟨rfl, by simp⟩
      · have hpos : value.getLsbD value.ctz.toNat = true :=
          BitVec.getLsbD_true_ctz_of_ne_zero hzero
        obtain ⟨hk, hlow'⟩ := lowest_of_low hzero hlow
        rw [scan_succ hzero]
        by_cases hdev : P.allowedDevice (deviceId rb value.ctz.toNat).toNat
        · rw [if_pos hdev]
          rcases scan_end hlow' (n := n) (by omega) with ⟨hend, hall⟩ | ⟨i, hend, hi, hno⟩
          · refine .inl ⟨hend, fun i hi => ?_⟩
            by_cases heq : i = value.ctz.toNat
            · exact heq ▸ hdev
            · refine hall i ?_
              rw [getLsbD_clear, hi, decide_eq_true heq]
              rfl
          · rw [getLsbD_clear, Bool.and_eq_true] at hi
            exact .inr ⟨i, hend, hi.1, hno⟩
        · rw [if_neg hdev]
          exact .inr ⟨_, rfl, hpos, hdev⟩

/-- The whole loop. -/
theorem scan_all (P : Platform) (rb value : BitVec 32) :
    (P.scan (rb * 32) 32 value = .left 0 ∧
      ∀ i, value.getLsbD i = true → P.allowedDevice (deviceId rb i).toNat) ∨
    ∃ i, P.scan (rb * 32) 32 value = .blocked (deviceId rb i) ∧ value.getLsbD i = true ∧
      ¬ P.allowedDevice (deviceId rb i).toNat :=
  scan_end (k := 0) (by simp) (Nat.le_refl 32)

/-- Where the device numbers of a bank fit into 32 bits, they are those of `allowEnbrst`. -/
theorem toNat_deviceId (hrb : rb.toNat < 2 ^ 27) {i : ℕ} (hi : i < 32) :
    (deviceId rb i).toNat = rb.toNat * 32 + i := by
  rw [deviceId, BitVec.toNat_add, BitVec.toNat_mul, BitVec.toNat_ofNat]
  show (rb.toNat * 32 % 2 ^ 32 + i % 2 ^ 32) % 2 ^ 32 = _
  omega

/-- There the two checks agree. -/
theorem allowEnbrst32_eq (hrb : rb.toNat < 2 ^ 27) (ar : AccessRequest) :
    P.allowEnbrst32 ar rb = some (P.allowEnbrst ar rb.toNat) := by
  obtain ⟨addr, accessType, value⟩ := ar
  cases accessType with
  | readAccess => rfl
  | writeAccess =>
      have hiff : P.allowEnbrst ⟨addr, .writeAccess, value⟩ rb.toNat = true ↔
          ∀ i, value.getLsbD i = true → P.allowedDevice (deviceId rb i).toNat := by
        rw [allowEnbrst_write_iff]
        refine forall₂_congr fun i hi => ?_
        rw [toNat_deviceId hrb (BitVec.lt_of_getLsbD hi)]
      rw [allowEnbrst32, if_pos rfl]
      rcases scan_all P rb value with ⟨hend, hall⟩ | ⟨i, hend, hi, hno⟩
      · rw [hend, hiff.2 hall]
        rfl
      · have hfalse : ¬ P.allowEnbrst ⟨addr, .writeAccess, value⟩ rb.toNat = true :=
          fun h => hno (hiff.1 h i hi)
        rw [hend, Bool.eq_false_iff.2 hfalse]
        rfl

/-- `allow_enbrst` lets a write pass exactly if every bit set in its value names an allowed device.
It never counts the zeros of zero, and when the loop test ends the loop nothing is left. -/
theorem allowEnbrst32_decides (P : Platform) (addr : ℕ) (value rb : BitVec 32) :
    (P.allowEnbrst32 ⟨addr, .writeAccess, value⟩ rb = some true ↔
        ∀ i, value.getLsbD i = true → P.allowedDevice (deviceId rb i).toNat) ∧
      P.scan (rb * 32) 32 value ≠ .undefined ∧
      ∀ rest, P.scan (rb * 32) 32 value = .left rest → rest = 0 := by
  rw [allowEnbrst32, if_pos rfl]
  rcases scan_all P rb value with ⟨hend, hall⟩ | ⟨i, hend, hi, hno⟩
  · rw [hend]
    exact ⟨iff_of_true rfl hall, nofun, fun rest h => (ScanEnd.left.inj h).symm⟩
  · rw [hend]
    refine ⟨iff_of_false (by simp [ScanEnd.returns]) fun hall => hno (hall i hi), nofun, nofun⟩

end Platform

end Clock
end Tk1Bsp
