import Tk1Bsp.Can.Effects

/-!
# Identifiers and frames in registers

Four registers hold an identifier, or a mask; thirteen hold a frame.  Here is what the registers
mean (`sidOf`, `eidOf`, `idOf`), that `load_txb` and `write_to_filter` store an identifier so, and
that `recv_rxb` reads it back.  Byte stores drop the higher bits of a shifted value, and bit-field
stores keep the lowest ones; both directions of the codec rest on this.
-/

namespace Tk1Bsp
namespace Can

/-! ## Identifiers -/

/-- The standard identifier: `SIDH` and bits 7 to 5 of `SIDL`. -/
def sidOf (r : List (BitVec 8)) : BitVec 11 :=
  (r.getD 0 0).setWidth 11 <<< 3 ||| (r.getD 1 0 >>> 5).setWidth 11

/-- The extended part of the identifier: bits 1 and 0 of `SIDL`, `EID8` and `EID0`. -/
def eidOf (r : List (BitVec 8)) : BitVec 18 :=
  (r.getD 1 0).setWidth 18 <<< 16 ||| (r.getD 2 0).setWidth 18 <<< 8 ||| (r.getD 3 0).setWidth 18

/-- The flag of an extended identifier, bit 3 of `SIDL`. -/
def exideOf (r : List (BitVec 8)) : Bool := (r.getD 1 0).getLsbD 3

/-- The 29 bits of both parts. -/
def bothOf (r : List (BitVec 8)) : BitVec 29 := (sidOf r).setWidth 29 <<< 18 ||| (eidOf r).setWidth 29

/-- The identifier. -/
def idOf (r : List (BitVec 8)) : BitVec 29 :=
  if exideOf r then bothOf r else (sidOf r).setWidth 29

/-- A standard identifier has eleven bits. -/
def CanId.Valid (id : CanId) : Prop := id.exide = false → id.id.toNat < 2 ^ 11

instance (id : CanId) : Decidable id.Valid := inferInstanceAs (Decidable (_ → _))

section Bits

variable (sid eid : BitVec 32) (exide : Bool) (r : List (BitVec 8))

theorem getLsbD_of_toNat_lt {w : ℕ} {x : BitVec w} {n k : ℕ} (h : x.toNat < 2 ^ n) (hk : n ≤ k) :
    x.getLsbD k = false :=
  Nat.testBit_lt_two_pow (Nat.lt_of_lt_of_le h (Nat.pow_le_pow_right (by decide) hk))

theorem getLsbD_widen {v w : ℕ} (h : v ≤ w) (x : BitVec v) (k : ℕ) :
    (x.setWidth w).getLsbD k = x.getLsbD k := by
  rw [BitVec.getLsbD_setWidth]
  by_cases hk : k < w
  · rw [decide_eq_true hk, Bool.true_and]
  · rw [BitVec.getLsbD_of_ge x k (by omega), Bool.and_false]

theorem getLsbD_flagBit (b : Bool) {n : ℕ} (hn : n < 8) (k : ℕ) :
    (flagBit b n).getLsbD k = (b && decide (k = n)) := by
  cases b with
  | false => simp [flagBit]
  | true =>
      simp [flagBit]
      grind

theorem getLsbD_sidh {k : ℕ} (hk : k < 8) :
    ((idRegs sid eid exide).getD 0 0).getLsbD k = sid.getLsbD (k + 3) := by
  simp only [idRegs, List.getD_cons_zero, BitVec.getLsbD_setWidth, BitVec.getLsbD_ushiftRight]
  simp [hk, Nat.add_comm]

theorem getLsbD_sidl {k : ℕ} (hk : k < 8) :
    ((idRegs sid eid exide).getD 1 0).getLsbD k =
      ((decide (5 ≤ k) && sid.getLsbD (k - 5)) || (exide && decide (k = 3)) ||
        eid.getLsbD (k + 16)) := by
  have h32 : k < 32 := by omega
  simp only [idRegs, List.getD_cons_zero, List.getD_cons_succ, BitVec.getLsbD_or,
    BitVec.getLsbD_setWidth, BitVec.getLsbD_ushiftRight, BitVec.getLsbD_shiftLeft,
    getLsbD_flagBit _ (show 3 < 8 by decide)]
  by_cases h5 : 5 ≤ k
  · have hlt : ¬ k < 5 := by omega
    simp [hk, h32, h5, hlt, Nat.add_comm]
  · have hlt : k < 5 := by omega
    simp [hk, h5, hlt, Nat.add_comm]

theorem getLsbD_eid8 {k : ℕ} (hk : k < 8) :
    ((idRegs sid eid exide).getD 2 0).getLsbD k = eid.getLsbD (k + 8) := by
  simp only [idRegs, List.getD_cons_zero, List.getD_cons_succ, BitVec.getLsbD_setWidth,
    BitVec.getLsbD_ushiftRight]
  simp [hk, Nat.add_comm]

theorem getLsbD_eid0 {k : ℕ} (hk : k < 8) :
    ((idRegs sid eid exide).getD 3 0).getLsbD k = eid.getLsbD k := by
  have hmask : ∀ k : Fin 8, BitVec.getLsbD (0xFF : BitVec 32) k = true := by decide
  simp only [idRegs, List.getD_cons_zero, List.getD_cons_succ, BitVec.getLsbD_setWidth,
    BitVec.getLsbD_and, hmask ⟨k, hk⟩]
  simp [hk]

theorem getLsbD_sidOf {k : ℕ} (hk : k < 11) :
    (sidOf r).getLsbD k =
      if k < 3 then (r.getD 1 0).getLsbD (k + 5) else (r.getD 0 0).getLsbD (k - 3) := by
  simp only [sidOf, BitVec.getLsbD_or, BitVec.getLsbD_shiftLeft, BitVec.getLsbD_setWidth,
    BitVec.getLsbD_ushiftRight]
  by_cases h : k < 3
  · simp [h, hk, Nat.add_comm]
  · have hhigh := BitVec.getLsbD_of_ge (r.getD 1 0) (5 + k) (by omega)
    have hlt : k - 3 < 11 := by omega
    simp only [hhigh]
    simp [h, hk, hlt]

theorem getLsbD_eidOf {k : ℕ} (hk : k < 18) :
    (eidOf r).getLsbD k =
      if k < 8 then (r.getD 3 0).getLsbD k
      else if k < 16 then (r.getD 2 0).getLsbD (k - 8)
      else (r.getD 1 0).getLsbD (k - 16) := by
  simp only [eidOf, BitVec.getLsbD_or, BitVec.getLsbD_shiftLeft, BitVec.getLsbD_setWidth]
  by_cases h8 : k < 8
  · have h16 : k < 16 := by omega
    simp [h8, h16, hk]
  · have h3 := BitVec.getLsbD_of_ge (r.getD 3 0) k (by omega)
    by_cases h16 : k < 16
    · have hlt : k - 8 < 18 := by omega
      simp only [h3]
      simp [h8, h16, hk, hlt]
    · have h2 := BitVec.getLsbD_of_ge (r.getD 2 0) (k - 8) (by omega)
      have hlt : k - 16 < 18 := by omega
      simp only [h3, h2]
      simp [h8, h16, hk, hlt]

theorem sidOf_idRegs (heid : eid.toNat < 2 ^ 18) :
    sidOf (idRegs sid eid exide) = sid.setWidth 11 := by
  apply BitVec.eq_of_getLsbD_eq
  intro k hk
  rw [getLsbD_sidOf _ hk, BitVec.getLsbD_setWidth, decide_eq_true hk, Bool.true_and]
  split
  · have hhigh : eid.getLsbD (k + 5 + 16) = false := getLsbD_of_toNat_lt heid (by omega)
    rw [getLsbD_sidl _ _ _ (by omega), hhigh]
    simp
  · rw [getLsbD_sidh _ _ _ (by omega), Nat.sub_add_cancel (by omega)]

theorem eidOf_idRegs : eidOf (idRegs sid eid exide) = eid.setWidth 18 := by
  apply BitVec.eq_of_getLsbD_eq
  intro k hk
  rw [getLsbD_eidOf _ hk, BitVec.getLsbD_setWidth, decide_eq_true hk, Bool.true_and]
  split_ifs
  · exact getLsbD_eid0 _ _ _ (by omega)
  · rw [getLsbD_eid8 _ _ _ (by omega), Nat.sub_add_cancel (by omega)]
  · have h5 : ¬ 5 ≤ k - 16 := by omega
    have h3 : ¬ k - 16 = 3 := by omega
    rw [getLsbD_sidl _ _ _ (by omega), Nat.sub_add_cancel (by omega)]
    simp [h5, h3]

theorem exideOf_idRegs (heid : eid.toNat < 2 ^ 18) : exideOf (idRegs sid eid exide) = exide := by
  have hhigh : eid.getLsbD (3 + 16) = false := getLsbD_of_toNat_lt heid (by decide)
  rw [exideOf, getLsbD_sidl _ _ _ (by decide), hhigh]
  simp

theorem getLsbD_bothOf (k : ℕ) :
    (bothOf r).getLsbD k =
      if k < 18 then (eidOf r).getLsbD k else (sidOf r).getLsbD (k - 18) := by
  simp only [bothOf, BitVec.getLsbD_or, BitVec.getLsbD_shiftLeft, BitVec.getLsbD_setWidth]
  by_cases h18 : k < 18
  · have h29 : k < 29 := by omega
    simp [h18, h29]
  · have hhigh := BitVec.getLsbD_of_ge (eidOf r) k (by omega)
    simp only [hhigh]
    by_cases h29 : k < 29
    · have hlt : k - 18 < 29 := by omega
      simp [h18, h29, hlt]
    · have hout := BitVec.getLsbD_of_ge (sidOf r) (k - 18) (by omega)
      simp [h18, hout]

end Bits

/-! ## The split of an identifier -/

section Split

variable (exide : Bool) (id : BitVec 32)

theorem getLsbD_canEidMask (k : ℕ) : canEidMask.getLsbD k = decide (k < 18) := by
  by_cases h : k < 18
  · have hset : ∀ k : Fin 18, canEidMask.getLsbD k = true := by decide
    rw [decide_eq_true h, hset ⟨k, h⟩]
  · rw [decide_eq_false h]
    exact @getLsbD_of_toNat_lt 32 canEidMask 18 k (by decide) (by omega)

theorem toNat_splitId_lt : (splitId exide id).2.toNat < 2 ^ 18 := by
  cases exide with
  | false => exact Nat.two_pow_pos 18
  | true =>
      have hmask : canEidMask.toNat = 2 ^ 18 - 1 := rfl
      show (id &&& canEidMask).toNat < 2 ^ 18
      rw [BitVec.toNat_and, hmask]
      exact Nat.lt_of_le_of_lt Nat.and_le_right (by decide)

theorem sidOf_splitId (flag : Bool) :
    sidOf (idRegs (splitId exide id).1 (splitId exide id).2 flag) =
      (splitId exide id).1.setWidth 11 :=
  sidOf_idRegs _ _ _ (toNat_splitId_lt exide id)

/-- The registers of an extended identifier hold all its bits. -/
theorem bothOf_splitId (flag : Bool) :
    bothOf (idRegs (splitId true id).1 (splitId true id).2 flag) = id.setWidth 29 := by
  apply BitVec.eq_of_getLsbD_eq
  intro k hk
  rw [getLsbD_bothOf, BitVec.getLsbD_setWidth, decide_eq_true hk, Bool.true_and]
  split
  · rename_i h18
    rw [eidOf_idRegs, BitVec.getLsbD_setWidth, decide_eq_true h18, Bool.true_and]
    show (id &&& canEidMask).getLsbD k = id.getLsbD k
    rw [BitVec.getLsbD_and, getLsbD_canEidMask, decide_eq_true h18, Bool.and_true]
  · have h11 : k - 18 < 11 := by omega
    have hsum : 18 + (k - 18) = k := by omega
    rw [sidOf_splitId, BitVec.getLsbD_setWidth, decide_eq_true h11, Bool.true_and]
    show (id >>> canEidBits).getLsbD (k - 18) = id.getLsbD k
    rw [BitVec.getLsbD_ushiftRight, canEidBits, hsum]

end Split

/-- The registers that `load_txb` and `write_to_filter` make of an identifier. -/
def CanId.regs (id : CanId) : List (BitVec 8) :=
  idRegs (splitId id.exide (id.id.setWidth 32)).1 (splitId id.exide (id.id.setWidth 32)).2 id.exide

@[simp] theorem exideOf_regs (id : CanId) : exideOf id.regs = id.exide :=
  exideOf_idRegs _ _ _ (toNat_splitId_lt _ _)

theorem bothOf_regs {id : CanId} (h : id.exide = true) : bothOf id.regs = id.id := by
  rw [CanId.regs, h, bothOf_splitId, BitVec.setWidth_setWidth_of_le _ (by decide),
    BitVec.setWidth_eq]

theorem sidOf_regs {id : CanId} (h : id.exide = false) : sidOf id.regs = id.id.setWidth 11 := by
  rw [CanId.regs, h, sidOf_splitId]
  exact BitVec.setWidth_setWidth_of_le _ (by decide)

theorem setWidth_of_valid {id : CanId} (hid : id.Valid) (h : id.exide = false) :
    (id.id.setWidth 11).setWidth 29 = id.id := by
  apply BitVec.eq_of_toNat_eq
  have hlt := hid h
  rw [BitVec.toNat_setWidth, BitVec.toNat_setWidth, Nat.mod_eq_of_lt hlt,
    Nat.mod_eq_of_lt id.id.isLt]

/-- The registers of a valid identifier hold that identifier. -/
theorem idOf_regs {id : CanId} (hid : id.Valid) : idOf id.regs = id.id := by
  unfold idOf
  rw [exideOf_regs]
  cases hexide : id.exide with
  | true => exact bothOf_regs hexide
  | false =>
      show (sidOf id.regs).setWidth 29 = id.id
      rw [sidOf_regs hexide, setWidth_of_valid hid hexide]

/-! ## The other way -/

section Decode

variable (r : List (BitVec 8))

/-- The variable `sid` of `recv_rxb`. -/
theorem sidOfRegs_eq : sidOfRegs r = (sidOf r).setWidth 32 := by
  apply BitVec.eq_of_getLsbD_eq
  intro k hk
  rw [BitVec.getLsbD_setWidth, decide_eq_true hk, Bool.true_and]
  simp only [sidOfRegs, BitVec.getLsbD_or, BitVec.getLsbD_shiftLeft, BitVec.getLsbD_setWidth,
    BitVec.getLsbD_ushiftRight]
  by_cases h11 : k < 11
  · rw [getLsbD_sidOf r h11]
    by_cases h3 : k < 3
    · have h32 : 5 + k < 32 := by omega
      simp [h3, h32, Nat.add_comm k 5]
    · have hhigh := BitVec.getLsbD_of_ge (r.getD 1 0) (5 + k) (by omega)
      have h32 : k - 3 < 32 := by omega
      simp only [hhigh]
      simp [h3, hk, h32]
  · have h0 := BitVec.getLsbD_of_ge (r.getD 0 0) (k - 3) (by omega)
    have h1 := BitVec.getLsbD_of_ge (r.getD 1 0) (5 + k) (by omega)
    have hout := BitVec.getLsbD_of_ge (sidOf r) k (by omega)
    simp only [h0, h1, hout]
    simp

/-- The variable `eid` of `recv_rxb`. -/
theorem eidOfRegs_eq :
    (r.getD 1 0 &&& 0x3).setWidth 32 <<< 16 ||| (r.getD 2 0).setWidth 32 <<< 8 |||
      (r.getD 3 0).setWidth 32 = (eidOf r).setWidth 32 := by
  have hmask : ∀ k : ℕ, BitVec.getLsbD (0x3 : BitVec 8) k = decide (k < 2) := by
    intro k
    by_cases h : k < 2
    · have hset : ∀ k : Fin 2, BitVec.getLsbD (0x3 : BitVec 8) k = true := by decide
      rw [decide_eq_true h, hset ⟨k, h⟩]
    · rw [decide_eq_false h]
      exact @getLsbD_of_toNat_lt 8 0x3 2 k (by decide) (by omega)
  apply BitVec.eq_of_getLsbD_eq
  intro k hk
  rw [BitVec.getLsbD_setWidth, decide_eq_true hk, Bool.true_and]
  simp only [BitVec.getLsbD_or, BitVec.getLsbD_shiftLeft, BitVec.getLsbD_setWidth,
    BitVec.getLsbD_and, hmask]
  by_cases h8 : k < 8
  · have h16 : k < 16 := by omega
    rw [getLsbD_eidOf r (by omega)]
    simp [h8, h16, hk]
  · have h3 := BitVec.getLsbD_of_ge (r.getD 3 0) k (by omega)
    by_cases h16 : k < 16
    · have h32 : k - 8 < 32 := by omega
      rw [getLsbD_eidOf r (by omega)]
      simp only [h3]
      simp [h8, h16, hk, h32]
    · have h2 := BitVec.getLsbD_of_ge (r.getD 2 0) (k - 8) (by omega)
      by_cases h18 : k < 18
      · have h32 : k - 16 < 32 := by omega
        have hlow : k - 16 < 2 := by omega
        rw [getLsbD_eidOf r h18]
        simp only [h3, h2]
        simp [h8, h16, hk, h32, hlow]
      · have hhigh : ¬ k - 16 < 2 := by omega
        have hout := BitVec.getLsbD_of_ge (eidOf r) k (by omega)
        simp only [h3, h2, hout]
        simp [hhigh]

theorem bothOf_eq :
    ((sidOf r).setWidth 32 <<< canEidBits ||| (eidOf r).setWidth 32).setWidth 29 = bothOf r := by
  apply BitVec.eq_of_getLsbD_eq
  intro k hk
  have h32 : k < 32 := by omega
  have hsub : k - 18 < 32 := by omega
  rw [getLsbD_bothOf]
  simp only [canEidBits, BitVec.getLsbD_or, BitVec.getLsbD_shiftLeft, BitVec.getLsbD_setWidth]
  by_cases h18 : k < 18
  · simp [h18, hk, h32]
  · have hout := BitVec.getLsbD_of_ge (eidOf r) k (by omega)
    simp only [hout]
    simp [h18, hk, h32, hsub]

/-- The identifier that `recv_rxb` finds. -/
theorem ident_decodeFrame (frame : CanFrame) :
    (decodeFrame r frame).ident = ⟨idOf r, exideOf r, (r.getD 4 0).getLsbD 6⟩ := by
  have hid : (decodeFrame r frame).ident.id = idOf r := by
    have hbit : (r.getD 1 0).getLsbD 3 = exideOf r := rfl
    simp only [decodeFrame, sidOfRegs_eq, eidOfRegs_eq, idOf, hbit]
    cases exideOf r with
    | true => exact bothOf_eq r
    | false => exact BitVec.setWidth_setWidth_of_le (sidOf r) (by decide)
  rw [← hid]
  rfl

/-- Registers without a bit that is not used: bits 4 and 2 of `SIDL`, and, under a standard
identifier, what belongs to the extended part. -/
structure Tidy (r : List (BitVec 8)) : Prop where
  sidl4 : (r.getD 1 0).getLsbD 4 = false
  sidl2 : (r.getD 1 0).getLsbD 2 = false
  standard : exideOf r = false → eidOf r = 0

variable {r}

/-- The parts into which `load_txb` splits an identifier that was read. -/
theorem splitId_idOf (h : Tidy r) :
    splitId (exideOf r) ((idOf r).setWidth 32) = ((sidOf r).setWidth 32, (eidOf r).setWidth 32) := by
  unfold idOf
  cases hexide : exideOf r with
  | true =>
      have hbits := getLsbD_widen (show 29 ≤ 32 by decide) (bothOf r)
      refine Prod.ext ?_ ?_
      · apply BitVec.eq_of_getLsbD_eq
        intro k hk
        have hge : ¬ 18 + k < 18 := by omega
        show (((bothOf r).setWidth 32) >>> canEidBits).getLsbD k = _
        rw [BitVec.getLsbD_ushiftRight, hbits, canEidBits, getLsbD_bothOf, if_neg hge,
          Nat.add_sub_cancel_left, BitVec.getLsbD_setWidth, decide_eq_true hk, Bool.true_and]
      · apply BitVec.eq_of_getLsbD_eq
        intro k hk
        show (((bothOf r).setWidth 32) &&& canEidMask).getLsbD k = _
        rw [BitVec.getLsbD_and, hbits, getLsbD_canEidMask, getLsbD_bothOf,
          BitVec.getLsbD_setWidth, decide_eq_true hk, Bool.true_and]
        by_cases h18 : k < 18
        · rw [if_pos h18, decide_eq_true h18, Bool.and_true]
        · rw [decide_eq_false h18, Bool.and_false, BitVec.getLsbD_of_ge _ k (by omega)]
  | false =>
      have hwidth : ((sidOf r).setWidth 29).setWidth 32 = (sidOf r).setWidth 32 := by
        apply BitVec.eq_of_toNat_eq
        have := (sidOf r).isLt
        simp only [BitVec.toNat_setWidth]
        omega
      show (((sidOf r).setWidth 29).setWidth 32, (0 : BitVec 32)) = _
      rw [hwidth, h.standard hexide]
      rfl

/-- The registers of an identifier that was read from tidy registers are those registers. -/
theorem getD_regs_idOf (h : Tidy r) (rtr : Bool) {k : ℕ} (hk : k < 4) :
    (CanId.regs ⟨idOf r, exideOf r, rtr⟩).getD k 0 = r.getD k 0 := by
  have hsid := getLsbD_widen (show 11 ≤ 32 by decide) (sidOf r)
  have heid := getLsbD_widen (show 18 ≤ 32 by decide) (eidOf r)
  simp only [CanId.regs, splitId_idOf h]
  apply BitVec.eq_of_getLsbD_eq
  intro n hn
  match k, hk with
  | 0, _ =>
      have hge : ¬ n + 3 < 3 := by omega
      rw [getLsbD_sidh _ _ _ hn, hsid, getLsbD_sidOf r (by omega), if_neg hge, Nat.add_sub_cancel]
  | 1, _ =>
      rw [getLsbD_sidl _ _ _ hn, hsid, heid]
      by_cases h5 : 5 ≤ n
      · have h3 : ¬ n = 3 := by omega
        have hlow : n - 5 < 3 := by omega
        have hout := BitVec.getLsbD_of_ge (eidOf r) (n + 16) (by omega)
        rw [getLsbD_sidOf r (by omega), if_pos hlow, Nat.sub_add_cancel h5, hout]
        simp [h5, h3]
      · by_cases h2 : n < 2
        · have h3 : ¬ n = 3 := by omega
          have h8 : ¬ n + 16 < 8 := by omega
          have h16 : ¬ n + 16 < 16 := by omega
          rw [getLsbD_eidOf r (by omega), if_neg h8, if_neg h16, Nat.add_sub_cancel]
          simp [h5, h3]
        · have hout := BitVec.getLsbD_of_ge (eidOf r) (n + 16) (by omega)
          have hcases : n = 2 ∨ n = 3 ∨ n = 4 := by omega
          rw [hout]
          rcases hcases with rfl | rfl | rfl
          · simpa using h.sidl2.symm
          · simp [exideOf]
          · simpa using h.sidl4.symm
  | 2, _ =>
      have h8 : ¬ n + 8 < 8 := by omega
      have h16 : n + 8 < 16 := by omega
      rw [getLsbD_eid8 _ _ _ hn, heid, getLsbD_eidOf r (by omega), if_neg h8, if_pos h16,
        Nat.add_sub_cancel]
  | 3, _ => rw [getLsbD_eid0 _ _ _ hn, heid, getLsbD_eidOf r (by omega), if_pos hn]

end Decode

/-! ## Frames in the buffers of the controller -/

/-- The bytes that `load_txb` stores. -/
def CanFrame.image (frame : CanFrame) : List (BitVec 8) :=
  frameHeader frame ++ frame.data.toList.take frame.dlc.toNat

/-- The bytes of receive buffer `n`: identifier, length and payload. -/
def Chip.rxb (c : Chip) (n : Fin 2) (k : ℕ) : BitVec 8 := c.reg (Fin.ofNat 128 (0x61 + 16 * n + k))

/-- All 13 of them. -/
def Chip.rxbImage (c : Chip) (n : Fin 2) : List (BitVec 8) := (List.range 13).map (c.rxb n)

theorem getD_rxbImage (c : Chip) (n : Fin 2) {k : ℕ} (hk : k < 13) :
    (c.rxbImage n).getD k 0 = c.rxb n k := by
  rw [Chip.rxbImage, List.getD_eq_getElem?_getD, List.getElem?_map, List.getElem?_range hk]
  rfl

/-- What the READ RX BUFFER instruction returns for buffer `n`. -/
theorem readFrom_rxb (c : Chip) (n : Fin 2) :
    c.readFrom (Fin.ofNat 128 (0x61 + 16 * n)) 13 = c.rxbImage n := by
  refine List.map_congr_left fun k hk => ?_
  have hlt : k < 13 := List.mem_range.1 hk
  have haddr : (Fin.ofNat 128 (0x61 + 16 * n.val) : Addr) + Fin.ofNat 128 k =
      Fin.ofNat 128 (0x61 + 16 * n.val + k) := by
    apply Fin.ext
    simp only [Fin.val_add, Fin.ofNat]
    omega
  have hval : (Fin.ofNat 128 (0x61 + 16 * n.val + k) : Addr).val = 0x61 + 16 * n.val + k :=
    Nat.mod_eq_of_lt (by omega)
  have hfilter : ¬ Chip.isFilter (Fin.ofNat 128 (0x61 + 16 * n.val + k)) := by
    unfold Chip.isFilter
    omega
  rw [haddr, Chip.read, if_neg (by omega), if_neg (by omega), if_neg fun h => hfilter h.1, Chip.rxb]

theorem length_image (frame : CanFrame) (h : frame.dlc.toNat ≤ 8) :
    frame.image.length = 5 + frame.dlc.toNat := by
  rw [CanFrame.image, List.length_append, length_frameHeader, List.length_take, Vector.length_toList]
  omega

/-- The controller after `load_txb`. -/
def Chip.loaded (c : Chip) (i : Fin 3) (frame : CanFrame) : Chip :=
  ((c.spi ((0x40 ||| (BitVec.ofInt 8 i * 2 ||| 0)) :: frame.image) 0).2.spi
    [0x05, txbctrl i, txbctrlTxpMask, frame.prio.setWidth 8] 0).2

theorem run_loadTxb (i : Fin 3) {frame : CanFrame} (h : frame.dlc.toNat ≤ 8) (d : Driver) :
    (loadTxb i frame).run exec d = some ((), { d with chip := d.chip.loaded i frame }) := by
  rw [loadTxb, if_pos h]
  rfl

/-- Transmit buffer `i` holds the image of the frame, and nothing else has changed there. -/
theorem txb_loaded (c : Chip) (i j : Fin 3) {frame : CanFrame} (h : frame.dlc.toNat ≤ 8) {k : ℕ}
    (hk : k < 13) :
    (c.loaded i frame).txb j k =
      if j = i ∧ k < frame.image.length then frame.image.getD k 0 else c.txb j k := by
  rw [Chip.loaded, (Chip.agrees_priority _ i _).txb j k hk, Chip.txb_load c i j ?_ hk]
  rw [length_image frame h]
  omega

/-- `recv_rxb` reads receive buffer 0, whatever its index is, and goes on if the length is at
most 8. -/
theorem run_recvRxb (rxbIdx : ℤ) (frame : CanFrame) (d : Driver) :
    (recvRxb rxbIdx frame).run exec d =
      if (decodeFrame (d.chip.rxbImage 0) frame).dlc.toNat ≤ 8 then
        some (decodeFrame (d.chip.rxbImage 0) frame,
          { d with chip := (d.chip.spi [0x90 ||| 0] 13).2 })
      else none := by
  have hread : exec (.spi [0x90 ||| 0] 13) d =
      some (d.chip.rxbImage 0, { d with chip := (d.chip.spi [0x90 ||| 0] 13).2 }) := by
    rw [← readFrom_rxb]
    rfl
  refine (Prog.run_call_of_exec hread).trans ?_
  simp only [Prog.ret_bind]
  split <;> rfl

/-! ## Round trips -/

section RoundTrip

variable {frame : CanFrame} {r : List (BitVec 8)}

/-- The first five bytes of the image. -/
theorem getD_image_of_lt {k : ℕ} (hk : k < 4) : frame.image.getD k 0 = frame.ident.regs.getD k 0 :=
  match k, hk with
  | 0, _ | 1, _ | 2, _ | 3, _ => rfl

theorem getD_image_dlc :
    frame.image.getD 4 0 = flagBit frame.ident.rtr 6 ||| frame.dlc.setWidth 8 := rfl

theorem getD_image_data (k : Fin 8) (hk : k.val < frame.dlc.toNat) :
    frame.image.getD (5 + k) 0 = frame.data.get k := by
  have hlen : (frameHeader frame).length ≤ 5 + k.val := by
    rw [length_frameHeader]
    omega
  rw [CanFrame.image, List.getD_eq_getElem?_getD, List.getElem?_append_right hlen,
    length_frameHeader, Nat.add_sub_cancel_left, List.getElem?_take_of_lt hk]
  simp [Vector.get]

theorem rtr_of_image (h : r.getD 4 0 = frame.image.getD 4 0) :
    (r.getD 4 0).getLsbD 6 = frame.ident.rtr := by
  have hout : (frame.dlc.setWidth 8).getLsbD 6 = false := by
    rw [getLsbD_widen (by decide), BitVec.getLsbD_of_ge _ 6 (by decide)]
  rw [h, getD_image_dlc, BitVec.getLsbD_or, getLsbD_flagBit _ (by decide), hout]
  simp

theorem dlc_of_image (h : r.getD 4 0 = frame.image.getD 4 0) :
    (r.getD 4 0).setWidth 4 = frame.dlc := by
  rw [h, getD_image_dlc]
  apply BitVec.eq_of_getLsbD_eq
  intro k hk
  have hne : ¬ k = 6 := by omega
  rw [BitVec.getLsbD_setWidth, decide_eq_true hk, Bool.true_and, BitVec.getLsbD_or,
    getLsbD_flagBit _ (by decide), getLsbD_widen (by decide)]
  simp [hne]

theorem sidOf_congr {r r' : List (BitVec 8)} (h : ∀ k < 4, r.getD k 0 = r'.getD k 0) :
    sidOf r = sidOf r' := by
  rw [sidOf, sidOf, h 0 (by decide), h 1 (by decide)]

theorem eidOf_congr {r r' : List (BitVec 8)} (h : ∀ k < 4, r.getD k 0 = r'.getD k 0) :
    eidOf r = eidOf r' := by
  rw [eidOf, eidOf, h 1 (by decide), h 2 (by decide), h 3 (by decide)]

theorem exideOf_congr {r r' : List (BitVec 8)} (h : ∀ k < 4, r.getD k 0 = r'.getD k 0) :
    exideOf r = exideOf r' := by
  rw [exideOf, exideOf, h 1 (by decide)]

theorem idOf_congr {r r' : List (BitVec 8)} (h : ∀ k < 4, r.getD k 0 = r'.getD k 0) :
    idOf r = idOf r' := by
  rw [idOf, idOf, bothOf, bothOf, exideOf_congr h, sidOf_congr h, eidOf_congr h]

theorem data_decodeFrame (r : List (BitVec 8)) (old : CanFrame) (k : Fin 8) :
    (decodeFrame r old).data.get k =
      if k.val < (decodeFrame r old).dlc.toNat then r.getD (5 + k) 0 else old.data.get k := by
  show (Vector.ofFn _).get k = _
  simp only [Vector.get, Vector.toArray_ofFn, Array.getElem_ofFn]
  rfl

/-- Decoding the image of a frame. -/
theorem decodeFrame_image (hid : frame.ident.Valid)
    (h : ∀ k < frame.image.length, r.getD k 0 = frame.image.getD k 0)
    (hdlc : frame.dlc.toNat ≤ 8) (old : CanFrame) :
    (decodeFrame r old).ident = frame.ident ∧
      (decodeFrame r old).dlc = (if frame.ident.rtr then 0 else frame.dlc) ∧
      ∀ k : Fin 8, k.val < (decodeFrame r old).dlc.toNat →
        (decodeFrame r old).data.get k = frame.data.get k := by
  have hlen := length_image frame hdlc
  have h4 : r.getD 4 0 = frame.image.getD 4 0 := h 4 (by omega)
  have hregs : ∀ k < 4, r.getD k 0 = frame.ident.regs.getD k 0 := fun k hk => by
    rw [h k (by omega), getD_image_of_lt hk]
  have hdecoded : (decodeFrame r old).dlc = if frame.ident.rtr then 0 else frame.dlc := by
    show (if (r.getD 4 0).getLsbD 6 then (0 : BitVec 4) else (r.getD 4 0).setWidth 4) = _
    rw [rtr_of_image h4, dlc_of_image h4]
  refine ⟨?_, hdecoded, fun k hk => ?_⟩
  · rw [ident_decodeFrame, idOf_congr hregs, exideOf_congr hregs, rtr_of_image h4, idOf_regs hid,
      exideOf_regs]
  · have hlt : k.val < frame.dlc.toNat := by
      rw [hdecoded] at hk
      cases hrtr : frame.ident.rtr with
      | true =>
          rw [hrtr] at hk
          exact absurd hk (Nat.not_lt_zero _)
      | false =>
          rw [hrtr] at hk
          exact hk
    rw [data_decodeFrame, if_pos hk, h (5 + k) (by omega), getD_image_data k hlt]

/-- Encoding a frame that was read from tidy registers. -/
theorem image_decodeFrame (htidy : Tidy r)
    (hdlc : ∀ k, k = 4 ∨ k = 5 ∨ k = 7 → (r.getD 4 0).getLsbD k = false)
    (hrtr : (r.getD 4 0).getLsbD 6 = true → (r.getD 4 0).setWidth 4 = (0 : BitVec 4))
    (hlen : ((r.getD 4 0).setWidth 4 : BitVec 4).toNat ≤ 8) (old : CanFrame) :
    ∀ k < (decodeFrame r old).image.length, (decodeFrame r old).image.getD k 0 = r.getD k 0 := by
  have hdecoded : (decodeFrame r old).dlc = (r.getD 4 0).setWidth 4 := by
    show (if (r.getD 4 0).getLsbD 6 then (0 : BitVec 4) else (r.getD 4 0).setWidth 4) = _
    split
    · rename_i h6
      exact (hrtr h6).symm
    · rfl
  have hlength := length_image (decodeFrame r old) (hdecoded ▸ hlen)
  intro k hk
  by_cases h4 : k < 4
  · rw [getD_image_of_lt h4, ident_decodeFrame, getD_regs_idOf htidy _ h4]
  · by_cases h5 : k = 4
    · subst h5
      rw [getD_image_dlc, ident_decodeFrame, hdecoded]
      apply BitVec.eq_of_getLsbD_eq
      intro n hn
      rw [BitVec.getLsbD_or, getLsbD_flagBit _ (by decide), getLsbD_widen (by decide),
        BitVec.getLsbD_setWidth]
      by_cases hlow : n < 4
      · have h6 : ¬ n = 6 := by omega
        simp [hlow, h6]
      · have hcases : n = 6 ∨ n = 4 ∨ n = 5 ∨ n = 7 := by omega
        rcases hcases with rfl | hn
        · simp
        · have h6 : ¬ n = 6 := by omega
          simp only [hdlc n hn]
          simp [hlow, h6]
    · have hdata : k - 5 < (decodeFrame r old).dlc.toNat := by omega
      have h8 : k - 5 < 8 := by
        rw [hdecoded] at hdata
        omega
      have hsum : 5 + (k - 5) = k := by omega
      have hget := @getD_image_data (decodeFrame r old) ⟨k - 5, h8⟩ hdata
      rw [data_decodeFrame, if_pos hdata] at hget
      simpa only [hsum] using hget

end RoundTrip

/-- A receive buffer in which no unused bit is set, with a length that the payload can have. -/
structure CleanImage (r : List (BitVec 8)) : Prop extends Tidy r where
  dlc : ∀ k, k = 4 ∨ k = 5 ∨ k = 7 → (r.getD 4 0).getLsbD k = false
  remote : (r.getD 4 0).getLsbD 6 = true → (r.getD 4 0).setWidth 4 = (0 : BitVec 4)
  length : ((r.getD 4 0).setWidth 4 : BitVec 4).toNat ≤ 8

/-- `recv_rxb` undoes `load_txb`, and `load_txb` undoes `recv_rxb`. -/
theorem frame_codec_round_trip :
    (∀ (i : Fin 3) (frame : CanFrame) (d : Driver), frame.ident.Valid → frame.dlc.toNat ≤ 8 →
      ∃ d₁, (loadTxb i frame).run exec d = some ((), d₁) ∧
        ∀ (d₂ : Driver) (old : CanFrame),
          (∀ k < 5 + frame.dlc.toNat, d₂.chip.rxb 0 k = d₁.chip.txb i k) →
          ∃ f d₃, (recvRxb 0 old).run exec d₂ = some (f, d₃) ∧
            f.ident = frame.ident ∧ f.dlc = (if frame.ident.rtr then 0 else frame.dlc) ∧
            ∀ k : Fin 8, k.val < f.dlc.toNat → f.data.get k = frame.data.get k) ∧
    (∀ (i : Fin 3) (old : CanFrame) (d : Driver), CleanImage (d.chip.rxbImage 0) →
      ∃ f d₁ d₂, (recvRxb 0 old).run exec d = some (f, d₁) ∧
        (loadTxb i f).run exec d₁ = some ((), d₂) ∧
        ∀ k < 5 + f.dlc.toNat, d₂.chip.txb i k = d.chip.rxb 0 k) := by
  constructor
  · intro i frame d hid hdlc
    refine ⟨_, run_loadTxb i hdlc d, fun d₂ old hcopy => ?_⟩
    have himage : ∀ k < frame.image.length, (d₂.chip.rxbImage 0).getD k 0 = frame.image.getD k 0 := by
      intro k hk
      rw [length_image frame hdlc] at hk
      rw [getD_rxbImage _ _ (by omega), hcopy k hk, txb_loaded _ i i hdlc (by omega),
        if_pos ⟨rfl, length_image frame hdlc ▸ hk⟩]
    obtain ⟨hident, hlength, hdata⟩ := decodeFrame_image hid himage hdlc old
    have hle : (decodeFrame (d₂.chip.rxbImage 0) old).dlc.toNat ≤ 8 := by
      rw [hlength]
      split
      · exact Nat.zero_le 8
      · exact hdlc
    exact ⟨_, _, by rw [run_recvRxb, if_pos hle], hident, hlength, hdata⟩
  · intro i old d hclean
    have himage := image_decodeFrame hclean.toTidy hclean.dlc hclean.remote hclean.length old
    have hle : (decodeFrame (d.chip.rxbImage 0) old).dlc.toNat ≤ 8 := by
      show (if _ then (0 : BitVec 4) else _).toNat ≤ 8
      split
      · exact Nat.zero_le 8
      · exact hclean.length
    refine ⟨_, _, _, by rw [run_recvRxb, if_pos hle], run_loadTxb i hle _, fun k hk => ?_⟩
    rw [← length_image _ hle] at hk
    have h13 : k < 13 := by
      rw [length_image _ hle] at hk
      omega
    rw [txb_loaded _ i i hle h13, if_pos ⟨rfl, hk⟩, himage k hk, getD_rxbImage _ _ h13]

/-- An extended frame with two bytes. -/
def sampleFrame : CanFrame := ⟨⟨0x12345678, true, false⟩, 2, 2, Vector.replicate 8 0x5A⟩

/-- The state in which the content of a transmit buffer has arrived in receive buffer 0. -/
def Driver.looped (d : Driver) (i : Fin 3) : Driver :=
  { d with chip := d.chip.fill 0 (Vector.ofFn fun k => d.chip.txb i k) }

theorem rxb_looped (d : Driver) (i : Fin 3) {k : ℕ} (hk : k < 13) :
    (d.looped i).chip.rxb 0 k = d.chip.txb i k := by
  have hval : (Fin.ofNat 128 (0x61 + 16 * (0 : Fin 2).val + k)).val = 0x61 + 16 * (0 : Fin 2).val + k :=
    Nat.mod_eq_of_lt (by simp; omega)
  refine (Chip.reg_fill 0 _ hk hval).trans ?_
  simp

/-- The content of a receive buffer: an extended frame with three bytes. -/
def sampleImage : Vector (BitVec 8) 13 := #v[0x24, 0xAA, 0x12, 0x34, 0x03, 1, 2, 3, 0, 0, 0, 0, 0]

/-- The component after `can__init`, with that in receive buffer 0. -/
def sampleDriver : Driver :=
  { (System.booted ⟨fun _ => 0⟩ fun _ => .bare 0).driver with
    chip := Chip.fill ⟨fun _ => 0⟩ 0 sampleImage }

theorem cleanImage_sample : CleanImage (sampleDriver.chip.rxbImage 0) := by
  have himage : sampleDriver.chip.rxbImage 0 = sampleImage.toList := rfl
  rw [himage]
  exact ⟨⟨by decide, by decide, by decide⟩, by rintro k (rfl | rfl | rfl) <;> decide, by decide,
    by decide⟩

/-- The sample frame comes back through transmit buffer 1, and the sample image goes out again
through transmit buffer 2. -/
theorem frame_codec_round_trip_sample :
    (∃ d₁ f d₃, (loadTxb (1 : Fin 3) sampleFrame).run exec
        (System.booted ⟨fun _ => 0⟩ fun _ => .bare 0).driver = some ((), d₁) ∧
      (recvRxb 0 (.bare 0)).run exec (d₁.looped 1) = some (f, d₃) ∧
      f.ident = sampleFrame.ident) ∧
    ∃ f d₁ d₂, (recvRxb 0 (.bare 0)).run exec sampleDriver = some (f, d₁) ∧
      (loadTxb (2 : Fin 3) f).run exec d₁ = some ((), d₂) ∧
      ∀ k < 5 + f.dlc.toNat, d₂.chip.txb 2 k = sampleDriver.chip.rxb 0 k := by
  refine ⟨?_, frame_codec_round_trip.2 2 (.bare 0) sampleDriver cleanImage_sample⟩
  obtain ⟨d₁, hload, hrecv⟩ := frame_codec_round_trip.1 1 sampleFrame
    (System.booted ⟨fun _ => 0⟩ fun _ => .bare 0).driver (by decide) (by decide)
  obtain ⟨f, d₃, hrun, hident, -⟩ := hrecv (d₁.looped 1) (.bare 0) fun k hk =>
    rxb_looped d₁ 1 (Nat.lt_of_lt_of_le hk (by decide))
  exact ⟨d₁, f, d₃, hload, hrun, hident⟩

end Can
end Tk1Bsp
