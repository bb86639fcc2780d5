import Tk1Bsp.Can.Refusal

/-!
# Masks that are read back

`write_to_filter` splits a mask over four registers, and `set_rx_filter` puts it together again to
see what mask a bank has.  It does so in two variables of eight bits: of the standard part and of
the extended part the low eight bits are left.  A mask is recognised exactly if it has no other
bits (`Readable`); one that has only others makes its bank look empty.
-/

namespace Tk1Bsp
namespace Can

/-- The bits of a mask that are read back: the low eight bits of its extended part and of its
standard part. -/
def Readable (exide : Bool) (mask : BitVec 32) : Prop :=
  ∀ k, mask.getLsbD k = true →
    if exide then k < 8 ∨ (canEidBits ≤ k ∧ k < canEidBits + 8) else k < 8

/-- The size of a mask: eleven bits for standard identifiers, 29 for extended ones. -/
def MaskFits (exide : Bool) (mask : BitVec 32) : Prop :=
  mask.toNat < if exide then 2 ^ 29 else 2 ^ 11

instance (exide : Bool) (mask : BitVec 32) : Decidable (MaskFits exide mask) :=
  inferInstanceAs (Decidable (_ < _))

/-- For a request of the kind `exide`, bank `i` reads as carrying the mask, and not as empty. -/
def Chip.Recognised (c : Chip) (i : ℕ) (exide : Bool) (mask : BitVec 32) : Prop :=
  (curMask (c.readFrom (toAddr (rxmsidh i)) filterBytes) exide).1 = mask ∧
    ¬ ((curMask (c.readFrom (toAddr (rxmsidh i)) filterBytes) exide).1 = 0 ∧
      (curMask (c.readFrom (toAddr (rxmsidh i)) filterBytes) exide).2 = 0)

/-- `write_to_filter` for the first slot of bank `i` returns, and leaves the bank recognised. -/
def RecognisesMask (d : Driver) (i : ℕ) (id : CanId) (mask : BitVec 32) : Prop :=
  ∃ chip, (writeToFilter (BitVec.ofNat 8 (i * filtsOfMask0)) id mask).run exec d =
      some ((), { d with chip := chip }) ∧
    chip.Recognised i id.exide mask

section Codec

variable {exide : Bool} {mask : BitVec 32}

/-- The variable `sid` of `set_rx_filter`, for an extended mask. -/
theorem getLsbD_sid_extended (mask : BitVec 32) {k : ℕ} (hk : k < 8) :
    (sidOfRegs (maskRegs true mask)).getLsbD k = mask.getLsbD (canEidBits + k) := by
  have hk32 : k < 32 := by omega
  have hk11 : k < 11 := by omega
  rw [sidOfRegs_eq, maskRegs, sidOf_splitId, BitVec.getLsbD_setWidth, BitVec.getLsbD_setWidth,
    decide_eq_true hk32, decide_eq_true hk11, Bool.true_and, Bool.true_and]
  exact BitVec.getLsbD_ushiftRight _ _ _

/-- The variable `eid`. -/
theorem getLsbD_eid_extended (mask : BitVec 32) {k : ℕ} (hk : k < 8) :
    (curMask (maskRegs true mask) true).2.getLsbD k = mask.getLsbD k := by
  have h8 : ¬ (8 ≤ k) := by omega
  have h18 : k < 18 := by omega
  have heid : ((maskRegs true mask).getD 3 0).getLsbD k = mask.getLsbD k := by
    rw [maskRegs, getLsbD_eid0 _ _ _ hk]
    show (mask &&& canEidMask).getLsbD k = mask.getLsbD k
    rw [BitVec.getLsbD_and, getLsbD_canEidMask, decide_eq_true h18, Bool.and_true]
  rw [curMask, ← heid]
  simp only [BitVec.getLsbD_setWidth, BitVec.getLsbD_or, BitVec.getLsbD_shiftLeft]
  have hk16 : k < 16 := by omega
  have hk32 : k < 32 := by omega
  simp [hk, hk16, hk32]

/-- What `set_rx_filter` makes of the registers of an extended mask. -/
theorem getLsbD_curMask_extended (mask : BitVec 32) (k : ℕ) :
    (curMask (maskRegs true mask) true).1.getLsbD k =
      (mask.getLsbD k && decide (k < 8 ∨ (canEidBits ≤ k ∧ k < canEidBits + 8))) := by
  have hcur : (curMask (maskRegs true mask) true).1 =
      ((sidOfRegs (maskRegs true mask)).setWidth 8).setWidth 32 <<< canEidBits |||
        (curMask (maskRegs true mask) true).2.setWidth 32 := rfl
  have hwide : 8 ≤ 32 := by decide
  rw [hcur, BitVec.getLsbD_or, BitVec.getLsbD_shiftLeft,
    getLsbD_widen hwide ((sidOfRegs _).setWidth 8), getLsbD_widen hwide (curMask _ _).2,
    BitVec.getLsbD_setWidth 8]
  by_cases hlow : k < 8
  · have hbelow : k < canEidBits := by unfold canEidBits; omega
    rw [getLsbD_eid_extended mask hlow]
    simp [hlow, hbelow]
  · rw [BitVec.getLsbD_of_ge (curMask (maskRegs true mask) true).2 k (by omega), Bool.or_false]
    by_cases hsid : canEidBits ≤ k ∧ k < canEidBits + 8
    · have hlt : k - canEidBits < 8 := by omega
      have hsum : canEidBits + (k - canEidBits) = k := by omega
      have h32 : k < 32 := by have := hsid.2; unfold canEidBits at this; omega
      rw [getLsbD_sid_extended mask hlt, hsum]
      simp [hsid, hlt, h32]
    · have hout : ¬ (k < 8 ∨ (canEidBits ≤ k ∧ k < canEidBits + 8)) := fun h => h.elim hlow hsid
      rw [decide_eq_false hout, Bool.and_false]
      by_cases hbelow : k < canEidBits
      · simp [hbelow]
      · have hge : ¬ k - canEidBits < 8 := by omega
        simp [hge]

/-- What it makes of those of a standard mask. -/
theorem getLsbD_curMask_standard (h : MaskFits false mask) (k : ℕ) :
    (curMask (maskRegs false mask) false).1.getLsbD k = (mask.getLsbD k && decide (k < 8)) := by
  have hsid : (sidOf (maskRegs false mask)).setWidth 32 = mask := by
    rw [maskRegs, sidOf_splitId]
    exact setWidth_32_of_lt h
  rw [curMask_of_standard ⟨mask, rfl⟩, hsid, BitVec.getLsbD_and, getLsbD_255]

/-- The decoding undoes the encoding where all bits are read back. -/
theorem curMask_maskRegs_iff (h : MaskFits exide mask) :
    (curMask (maskRegs exide mask) exide).1 = mask ↔ Readable exide mask := by
  have hbits : ∀ p : ℕ → Prop, [DecidablePred p] → ∀ cur : BitVec 32,
      (∀ k, cur.getLsbD k = (mask.getLsbD k && decide (p k))) →
        (cur = mask ↔ ∀ k, mask.getLsbD k = true → p k) := by
    intro p _ cur hcur
    constructor
    · rintro rfl k hk
      have hand := hcur k
      rw [hk, Bool.true_and] at hand
      exact of_decide_eq_true hand.symm
    · intro hall
      apply BitVec.eq_of_getLsbD_eq
      intro k _
      rw [hcur]
      cases hk : mask.getLsbD k with
      | false => rfl
      | true => rw [decide_eq_true (hall k hk), Bool.and_true]
  cases exide with
  | true => exact hbits _ _ (getLsbD_curMask_extended mask)
  | false => exact hbits _ _ (getLsbD_curMask_standard h)

end Codec

/-- What bank `i` has after `write_to_filter`. -/
theorem run_writeToFilter_mask {d : Driver} (hconfig : d.chip.inConfig) {i : ℕ} (hi : i ∈ [0, 1])
    (id : CanId) {mask : BitVec 32} (hmask : mask ≠ 0) :
    ∃ chip, (writeToFilter (BitVec.ofNat 8 (i * filtsOfMask0)) id mask).run exec d =
        some ((), { d with chip := chip }) ∧
      chip.readFrom (toAddr (rxmsidh i)) filterBytes = maskRegs id.exide mask := by
  have hslot : i * filtsOfMask0 ∈ slotsOf i := fresh_mem_slotsOf hi
  obtain ⟨chip, hrun, hconfig', hsame⟩ :=
    run_writeToFilter hconfig (mem_hardwareSlots_of_slotsOf hslot) id mask
  refine ⟨chip, hrun, ?_⟩
  have hquad : chip.filterFile.mask i = maskRegs id.exide mask := by
    rw [hsame.mask i hi, FilterFile.store, if_pos hmask, bankOf_eq hi hslot]
    exact Function.update_self _ _ _
  rw [← hquad]
  exact Chip.read_of_block (Chip.block_mask hi) hconfig'

/-- A bank whose mask has been written is recognised by that mask exactly if all bits of the mask
are read back. -/
theorem recognisesMask_iff {d : Driver} (hconfig : d.chip.inConfig) {i : ℕ} (hi : i ∈ [0, 1])
    {id : CanId} {mask : BitVec 32} (hmask : mask ≠ 0) (hfits : MaskFits id.exide mask) :
    RecognisesMask d i id mask ↔ Readable id.exide mask := by
  obtain ⟨chip, hrun, hread⟩ := run_writeToFilter_mask hconfig hi id hmask
  rw [← curMask_maskRegs_iff hfits]
  constructor
  · rintro ⟨chip', hrun', hcur, -⟩
    obtain rfl : chip = chip' :=
      congrArg (fun r => r.2.chip) (Option.some.inj (hrun.symm.trans hrun'))
    rwa [hread] at hcur
  · intro hcur
    refine ⟨chip, hrun, ?_⟩
    rw [Chip.Recognised, hread]
    exact ⟨hcur, fun h => hmask (hcur.symm.trans h.1)⟩

/-- An extended mask with bits in both low bytes, for the second bank. -/
theorem recognisesMask_iff_extended :
    RecognisesMask Installation.blank.driver 1 ⟨0x12345678, true, false⟩ 0x03FC00FF ↔
      Readable true 0x03FC00FF :=
  have hfits : MaskFits true 0x03FC00FF := by decide
  recognisesMask_iff Installation.blank_initial.config (by decide) (by decide) hfits

/-- The mask for all bits of a standard identifier reads back as 0xFF, and the mask 0x700 makes the
bank look empty. -/
theorem not_recognisesMask_7FF :
    ¬ RecognisesMask Installation.blank.driver 0 (Installation.standard 0x123) 0x7FF ∧
      curMask (maskRegs false 0x7FF) false = (0xFF, 0) ∧
      curMask (maskRegs false 0x700) false = (0, 0) := by
  refine ⟨?_, by decide, by decide⟩
  rintro ⟨chip, hrun, hcur, -⟩
  have hmem : 0 ∈ [0, 1] := by decide
  obtain ⟨chip', hrun', hread⟩ := @run_writeToFilter_mask Installation.blank.driver
    Installation.blank_initial.config 0 hmem (Installation.standard 0x123) 0x7FF (by decide)
  obtain rfl : chip = chip' :=
    congrArg (fun r => r.2.chip) (Option.some.inj (hrun.symm.trans hrun'))
  rw [hread] at hcur
  exact absurd hcur (by decide)

end Can
end Tk1Bsp
