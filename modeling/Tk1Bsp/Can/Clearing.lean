import Tk1Bsp.Can.Installation

/-!
# What `clear_rx_filter` touches

The function clears the four registers from `RXFSIDH(j)` on, and the mask of the bank if all its slots
read as zero.  The controller has its filters 0 to 2 there, but filters 3 to 5 one slot further, behind
`BFPCTRL`, `TXRTSCTRL`, `CANSTAT` and `CANCTRL`.  So an index of 3 ends configuration mode, 4 and 5
clear the filter before, and because slot 3 never reads as zero the second mask is never cleared.
-/

namespace Tk1Bsp
namespace Can

/-- One of the four registers from `base` on. -/
def InBlock (base a : Addr) : Prop := base.val ≤ a.val ∧ a.val < base.val + 4

instance (base a : Addr) : Decidable (InBlock base a) := inferInstanceAs (Decidable (_ ∧ _))

/-- The slot in which the controller has filter `j`. -/
def hardwareSlot (j : ℕ) : ℕ := if j < 3 then j else j + 1

/-- All filters of bank `i` are zero. -/
def Chip.BankEmpty (c : Chip) (i : ℕ) : Prop :=
  ∀ k ∈ hardwareSlots, bankOf k = i → c.quad (toAddr (rxfsidh k)) = zeroRegs

/-- What clearing filter `j` is for: its registers are zero, those of the mask are if the bank is
empty, and all others are as before, in particular the mode. -/
structure FilterCleared (j : ℕ) (c c' : Chip) : Prop where
  filter : c'.quad (toAddr (rxfsidh (hardwareSlot j))) = zeroRegs
  freed : c'.BankEmpty (bankOf j) → c'.quad (toAddr (rxmsidh (bankOf j))) = zeroRegs
  kept : ¬ c'.BankEmpty (bankOf j) →
    c'.quad (toAddr (rxmsidh (bankOf j))) = c.quad (toAddr (rxmsidh (bankOf j)))
  other : ∀ a, ¬ InBlock (toAddr (rxfsidh (hardwareSlot j))) a →
    ¬ InBlock (toAddr (rxmsidh (bankOf j))) a → c'.reg a = c.reg a
  stat : c'.reg (toAddr canstat) = c.reg (toAddr canstat)
  ctrl : c'.reg (toAddr canctrl) = c.reg (toAddr canctrl)

/-- `clear_rx_filter` does this. -/
def ClearsRight (j : ℕ) (d : Driver) : Prop :=
  ∃ d', (clearRxFilter (BitVec.ofNat 8 j)).run exec d = some ((), d') ∧
    FilterCleared j d.chip d'.chip

/-- `CANSTAT` and `CANCTRL` show configuration mode. -/
structure Chip.ShowsConfig (c : Chip) : Prop where
  stat : c.inConfig
  ctrl : c.reg (toAddr canctrl) >>> 5 = OpMode.config.code

section Registers

variable {c : Chip} {j : ℕ}

/-- The registers outside filter `j` and its mask. -/
theorem reg_clearedFilter (hconfig : c.inConfig) (hj : j ∈ hardwareSlots) {a : Addr}
    (hfilter : ¬ InBlock (toAddr (rxfsidh j)) a)
    (hmask : ¬ InBlock (toAddr (rxmsidh (bankOf j))) a) :
    (c.clearedFilter j).reg a = c.reg a := by
  have hblock := Chip.block_filter hj
  have hcleared : (c.withoutFilter j).inConfig := Chip.inConfig_write hblock hconfig rfl
  have hrest : (c.withoutFilter j).reg a = c.reg a :=
    (Chip.reg_write_block hblock hconfig rfl a).trans (if_neg hfilter)
  unfold Chip.clearedFilter
  split
  · rename_i hfrees
    rw [hfrees.1] at hmask
    have hmem : 0 ∈ [0, 1] := by decide
    exact (Chip.reg_write_block (Chip.block_mask hmem) hcleared rfl a).trans
      ((if_neg hmask).trans hrest)
  · exact hrest

theorem mem_hardwareSlots_of_ne (hj : j < 6) (hne : j ≠ 3) : j ∈ hardwareSlots := by
  simp only [hardwareSlots, List.mem_cons, List.not_mem_nil, or_false]
  omega

/-- Registers of a filter that are as before. -/
theorem reg_of_quad {c' : Chip} {a b : Addr} (hb : Chip.IsBlock b) (ha : InBlock b a)
    (h : c'.quad b = c.quad b) : c'.reg a = c.reg a := by
  obtain ⟨hle, hlt⟩ := ha
  have hmem : a.val - b.val ∈ List.range 4 := List.mem_range.2 (by omega)
  have hval := Chip.val_add_of_block hb (List.mem_range.1 hmem)
  have haddr : b + Fin.ofNat 128 (a.val - b.val) = a := Fin.ext (by omega)
  have hreg := List.map_inj_left.1 h _ hmem
  rwa [haddr] at hreg

theorem quad_of_reg {c' : Chip} {b : Addr} (hb : Chip.IsBlock b)
    (h : ∀ a, InBlock b a → c'.reg a = c.reg a) : c'.quad b = c.quad b := by
  refine List.map_congr_left fun k hk => h _ ?_
  have hval := Chip.val_add_of_block hb (List.mem_range.1 hk)
  have hlt := List.mem_range.1 hk
  exact ⟨by omega, by omega⟩

/-- Neither a filter nor a mask has the mode. -/
theorem mode_clearedFilter (hconfig : c.inConfig) (hj : j ∈ hardwareSlots) {a : Addr}
    (ha : a = toAddr canstat ∨ a = toAddr canctrl) : (c.clearedFilter j).reg a = c.reg a := by
  have hout : ∀ j ∈ hardwareSlots, ∀ i ∈ [0, 1], ∀ a : Addr, a = toAddr canstat ∨ a = toAddr canctrl →
      ¬ InBlock (toAddr (rxfsidh (j : ℕ))) a ∧ ¬ InBlock (toAddr (rxmsidh (i : ℕ))) a := by
    decide
  have hna := hout j hj _ (FilterFile.bankOf_mem j) a ha
  exact reg_clearedFilter hconfig hj hna.1 hna.2

theorem quad_cleared_self {c' : Chip} (hslot : j ∈ hardwareSlots)
    (hsame : c'.filterFile.Same (c.filterFile.clear j)) :
    c'.quad (toAddr (rxfsidh j)) = zeroRegs :=
  (hsame.filter j hslot).trans (Function.update_self ..)

theorem quad_cleared_of_ne {c' : Chip} (hsame : c'.filterFile.Same (c.filterFile.clear j))
    {k : ℕ} (hk : k ∈ hardwareSlots) (hne : k ≠ j) :
    c'.quad (toAddr (rxfsidh k)) = c.filterFile.filter k :=
  (hsame.filter k hk).trans (Function.update_of_ne hne ..)

/-! ## The first bank -/

/-- The first bank is empty when its two slots look empty. -/
theorem bankEmpty_zero_iff :
    c.BankEmpty 0 ↔ ∀ k ∈ slotsOf 0, isBlank (c.filterFile.filter k) = true := by
  have hslots : ∀ k ∈ hardwareSlots, bankOf k = 0 ↔ k ∈ slotsOf 0 := by decide
  have hblank : ∀ k, isBlank (c.filterFile.filter k) = true ↔
      c.quad (toAddr (rxfsidh k)) = zeroRegs := fun k => isBlank_iff rfl
  simp only [hblank]
  exact ⟨fun h k hk => h k (mem_hardwareSlots_of_slotsOf hk)
      ((hslots k (mem_hardwareSlots_of_slotsOf hk)).2 hk),
    fun h k hk hbank => h k ((hslots k hk).1 hbank)⟩

/-- The first bank is empty after a call exactly if the cleared filter was its last. -/
theorem bankEmpty_zero_of_same {c' : Chip} {g : FilterFile} (hsame : c'.filterFile.Same g) :
    c'.BankEmpty 0 ↔ ((slotsOf 0).all fun k => isBlank (g.filter k)) = true := by
  rw [bankEmpty_zero_iff, List.all_eq_true]
  exact forall₂_congr fun k hk => by rw [hsame.filter k (mem_hardwareSlots_of_slotsOf hk)]

theorem filterCleared_first (hconfig : c.inConfig) (hj : j < 2) {c' : Chip}
    (heq : c' = c.clearedFilter j) (hsame : c'.filterFile.Same (c.filterFile.clear j)) :
    FilterCleared j c c' := by
  have hslot : j ∈ hardwareSlots := mem_hardwareSlots_of_ne (by omega) (by omega)
  have hplace : hardwareSlot j = j := if_pos (by omega)
  have hbank : bankOf j = 0 := if_pos hj
  have hmask : c'.quad (toAddr (rxmsidh (0 : ℕ))) = (c.filterFile.clear j).mask 0 :=
    hsame.mask 0 (by decide)
  have hfrees : c'.BankEmpty 0 ↔ ((slotsOf 0).all fun k =>
      isBlank (Function.update c.filterFile.filter j zeroRegs k)) = true :=
    bankEmpty_zero_of_same hsame
  have hmode : ∀ a : Addr, a = toAddr canstat ∨ a = toAddr canctrl → c'.reg a = c.reg a :=
    fun a ha => heq ▸ mode_clearedFilter hconfig hslot ha
  constructor
  · rw [hplace]
    exact quad_cleared_self hslot hsame
  · rw [hbank]
    intro hempty
    have hfreed : (c.filterFile.clear j).mask = Function.update c.filterFile.mask 0 zeroRegs :=
      if_pos ⟨hbank, hfrees.1 hempty⟩
    rw [hmask, hfreed, Function.update_self]
  · rw [hbank]
    intro hempty
    have hsame' : (c.filterFile.clear j).mask = c.filterFile.mask :=
      if_neg fun hc => hempty (hfrees.2 hc.2)
    rw [hmask, hsame']
    rfl
  · rw [hplace]
    exact fun a hf hm => heq ▸ reg_clearedFilter hconfig hslot hf hm
  · exact hmode _ (.inl rfl)
  · exact hmode _ (.inr rfl)

/-! ## The second bank -/

theorem mem_second_bank {k : ℕ} : k ∈ [2, 4, 5, 6] ↔ k ∈ hardwareSlots ∧ bankOf k = 1 := by
  by_cases hk : k < 7
  · revert k
    decide
  · simp only [hardwareSlots, List.mem_cons, List.not_mem_nil, or_false]
    omega

theorem hardwareSlot_of_ne (hj : j = 2 ∨ j = 4 ∨ j = 5) (hne : j ≠ 2) :
    hardwareSlot j = j + 1 ∧ j + 1 ∈ hardwareSlots := by
  obtain rfl | rfl | rfl := hj
  · exact absurd rfl hne
  · decide
  · decide

section Second

variable {c' : Chip}

/-- The mask is not written. -/
theorem quad_second_mask (hbank : bankOf j = 1)
    (hsame : c'.filterFile.Same (c.filterFile.clear j)) :
    c'.quad (toAddr (rxmsidh (1 : ℕ))) = c.filterFile.mask 1 := by
  refine (hsame.mask 1 (by decide)).trans (congrFun (if_neg fun hc => ?_) 1)
  exact absurd (hbank.symm.trans hc.1) (by decide)

/-- The bank is empty after a call exactly if the other slots were zero before. -/
theorem bankEmpty_one_iff (hslot : j ∈ hardwareSlots)
    (hsame : c'.filterFile.Same (c.filterFile.clear j)) :
    c'.BankEmpty 1 ↔ ∀ k ∈ [2, 4, 5, 6], k ≠ j → c.filterFile.filter k = zeroRegs := by
  constructor
  · intro h k hk hne
    obtain ⟨hk, hb⟩ := mem_second_bank.1 hk
    exact (quad_cleared_of_ne hsame hk hne).symm.trans (h k hk hb)
  · intro h k hk hb
    by_cases hne : k = j
    · exact hne ▸ quad_cleared_self hslot hsame
    · exact (quad_cleared_of_ne hsame hk hne).trans (h k (mem_second_bank.2 ⟨hk, hb⟩) hne)

/-- Where slot `j` is not that of filter `j`, a call is right only if both are zero before. -/
theorem FilterCleared.zero_of_second (h : FilterCleared j c c') (hj : j = 2 ∨ j = 4 ∨ j = 5)
    (hne : j ≠ 2) (hsame : c'.filterFile.Same (c.filterFile.clear j)) :
    c.filterFile.filter j = zeroRegs ∧ c.filterFile.filter (j + 1) = zeroRegs := by
  have hslot : j ∈ hardwareSlots := mem_hardwareSlots_of_ne (by omega) (by omega)
  have hbank : bankOf j = 1 := if_neg (by unfold filtsOfMask0; omega)
  obtain ⟨hplace, hmem⟩ := hardwareSlot_of_ne hj hne
  have hfilter := h.filter
  have hother := h.other
  rw [hplace] at hfilter hother
  have hapart : ∀ j ∈ [4, 5], ∀ a : Addr, InBlock (toAddr (rxfsidh (j : ℕ))) a →
      ¬ InBlock (toAddr (rxfsidh ((j + 1 : ℕ) : ℤ))) a ∧
        ¬ InBlock (toAddr (rxmsidh ((1 : ℕ) : ℤ))) a := by
    decide
  have hkept : c'.quad (toAddr (rxfsidh j)) = c.quad (toAddr (rxfsidh j)) := by
    refine quad_of_reg (Chip.block_filter hslot) fun a ha => ?_
    obtain ⟨hout, hout'⟩ := hapart j (by simp; omega) a ha
    exact hother a hout (hbank ▸ hout')
  exact ⟨hkept.symm.trans (quad_cleared_self hslot hsame),
    (quad_cleared_of_ne hsame hmem (by omega)).symm.trans hfilter⟩

/-- In the second bank slot `j` is cleared and nothing else.  That is right if filter `j` is in that
slot, or if both slots are zero before; and if the bank does not become empty, or has no mask. -/
theorem filterCleared_second_iff (hconfig : c.inConfig) (hj : j = 2 ∨ j = 4 ∨ j = 5)
    (heq : c' = c.clearedFilter j) (hsame : c'.filterFile.Same (c.filterFile.clear j)) :
    FilterCleared j c c' ↔
      (j ≠ 2 → c.filterFile.filter j = zeroRegs ∧ c.filterFile.filter (j + 1) = zeroRegs) ∧
        (c.filterFile.mask 1 = zeroRegs ∨
          ∃ k ∈ [2, 4, 5, 6], k ≠ hardwareSlot j ∧ c.filterFile.filter k ≠ zeroRegs) := by
  have hslot : j ∈ hardwareSlots := mem_hardwareSlots_of_ne (by omega) (by omega)
  have hbank : bankOf j = 1 := if_neg (by unfold filtsOfMask0; omega)
  have hmask := quad_second_mask hbank hsame
  have hself := quad_cleared_self hslot hsame
  have hempty := bankEmpty_one_iff hslot hsame
  have htwo : j = 2 → hardwareSlot j = j := by
    rintro rfl
    rfl
  constructor
  · intro hright
    have hboth := fun hne => hright.zero_of_second hj hne hsame
    refine ⟨hboth, or_iff_not_imp_left.2 fun hzero => ?_⟩
    have hnot : ¬ c'.BankEmpty 1 := by
      intro h
      have hfreed := hright.freed
      rw [hbank] at hfreed
      exact hzero (hmask.symm.trans (hfreed h))
    rw [hempty] at hnot
    simp only [not_forall] at hnot
    obtain ⟨k, hk, hne, hfilter⟩ := hnot
    refine ⟨k, hk, fun hplace => ?_, hfilter⟩
    by_cases h : j = 2
    · exact hne (hplace.trans (htwo h))
    · rw [hplace, (hardwareSlot_of_ne hj h).1] at hfilter
      exact hfilter (hboth h).2
  · rintro ⟨hboth, hfrees⟩
    have hmode : ∀ a : Addr, a = toAddr canstat ∨ a = toAddr canctrl → c'.reg a = c.reg a :=
      fun a ha => heq ▸ mode_clearedFilter hconfig hslot ha
    constructor
    · by_cases h : j = 2
      · rw [htwo h]
        exact hself
      · obtain ⟨hplace, hmem⟩ := hardwareSlot_of_ne hj h
        rw [hplace]
        exact (quad_cleared_of_ne hsame hmem (by omega)).trans (hboth h).2
    · rw [hbank, hempty]
      intro hall
      obtain hzero | ⟨k, hk, hne, hfilter⟩ := hfrees
      · exact hmask.trans hzero
      · refine absurd (hall k hk fun hkj => ?_) hfilter
        subst hkj
        by_cases h : k = 2
        · exact hne (htwo h).symm
        · exact hfilter (hboth h).1
    · rw [hbank]
      exact fun _ => hmask
    · intro a hf hm
      by_cases hin : InBlock (toAddr (rxfsidh j)) a
      · have h : j ≠ 2 := fun h => hf (by rwa [htwo h])
        exact reg_of_quad (Chip.block_filter hslot) hin (hself.trans (hboth h).1.symm)
      · exact heq ▸ reg_clearedFilter hconfig hslot hin hm
    · exact hmode _ (.inl rfl)
    · exact hmode _ (.inr rfl)

end Second

/-! ## Filter 3 -/

/-- The look for empty filters changes nothing. -/
theorem eq_of_run_allEmpty {js : List ℕ} {d d' : Driver} {b : Bool}
    (hrun : (allEmpty js).run exec d = some (b, d')) : d' = d := by
  induction js with
  | nil =>
      obtain ⟨-, rfl⟩ := Prod.mk.inj (Option.some.inj hrun)
      rfl
  | cons j js ih =>
      rw [allEmpty, Prog.bind_eq] at hrun
      obtain ⟨empty, d₁, hread, hrun⟩ := Prog.of_run_bind hrun
      obtain ⟨-, rfl⟩ := Prod.mk.inj (Option.some.inj hread)
      split at hrun
      · exact ih hrun
      · obtain ⟨-, rfl⟩ := Prod.mk.inj (Option.some.inj hrun)
        rfl

/-- Clearing filter 3 clears `CANCTRL`. -/
theorem canctrl_of_run_three {d d' : Driver}
    (hrun : (clearRxFilter (BitVec.ofNat 8 3)).run exec d = some ((), d')) :
    d'.chip.reg (toAddr canctrl) = 0 := by
  have hcleared : (d.chip.withoutFilter 3).reg (toAddr canctrl) = 0 := rfl
  have hwrite : (mcp2515WriteNregs (rxfsidh (3 : ℕ)) zeroRegs).run exec d =
      some ((), { d with chip := d.chip.withoutFilter 3 }) := rfl
  rw [clearRxFilter_eq (by decide), Prog.run_bind, hwrite] at hrun
  generalize d.chip.withoutFilter 3 = cleared at hcleared hrun
  simp only [Option.bind_some] at hrun
  obtain ⟨empty, d₁, hlook, hrun⟩ := Prog.of_run_bind hrun
  obtain rfl := eq_of_run_allEmpty hlook
  split at hrun
  · obtain ⟨-, rfl⟩ := Prod.mk.inj (Option.some.inj hrun)
    show (Chip.writeFrom _ 0x24 [0, 0, 0, 0]).reg (toAddr canctrl) = 0
    simp only [Chip.writeFrom]
    rw [Chip.canctrl_write (by decide), Chip.canctrl_write (by decide), Chip.canctrl_write (by decide),
      Chip.canctrl_write (by decide), hcleared]
  · obtain ⟨-, rfl⟩ := Prod.mk.inj (Option.some.inj hrun)
    exact hcleared

end Registers

/-- `clear_rx_filter` does what it is for in the first bank; for filter 2 if the bank does not become
empty, or has no mask; for filters 4 and 5 if moreover they are zero, and so is the filter before; and
never for filter 3. -/
theorem clearsRight_iff {d : Driver} (hshows : d.chip.ShowsConfig) {j : ℕ} (hj : j < 6) :
    ClearsRight j d ↔ j < 2 ∨ j ≠ 3 ∧
      (j ≠ 2 → d.chip.filterFile.filter j = zeroRegs ∧
        d.chip.filterFile.filter (j + 1) = zeroRegs) ∧
      (d.chip.filterFile.mask 1 = zeroRegs ∨
        ∃ k ∈ [2, 4, 5, 6], k ≠ hardwareSlot j ∧ d.chip.filterFile.filter k ≠ zeroRegs) := by
  by_cases hthree : j = 3
  · subst hthree
    refine iff_of_false ?_ (by simp)
    rintro ⟨d', hrun, hright⟩
    have hctrl := hshows.ctrl
    rw [← hright.ctrl, canctrl_of_run_three hrun] at hctrl
    exact absurd hctrl (by decide)
  · have hslot := mem_hardwareSlots_of_ne hj hthree
    have hrun := run_clearRxFilter_at hshows.stat hslot
    obtain ⟨chip, hrun', -, hsame⟩ := run_clearRxFilter hshows.stat hslot
    have heq := (Prod.mk.inj (Option.some.inj (hrun'.symm.trans hrun))).2
    have hchip : chip = d.chip.clearedFilter j := congrArg Driver.chip heq
    have hright : ClearsRight j d ↔ FilterCleared j d.chip chip := by
      refine ⟨?_, fun h => ⟨_, hrun', h⟩⟩
      rintro ⟨d', hd', h⟩
      obtain ⟨-, rfl⟩ := Prod.mk.inj (Option.some.inj (hd'.symm.trans hrun'))
      exact h
    rw [hright]
    by_cases hfirst : j < 2
    · exact iff_of_true (filterCleared_first hshows.stat hfirst hchip hsame) (.inl hfirst)
    · rw [filterCleared_second_iff hshows.stat (by omega) hchip hsame, or_iff_right hfirst]
      exact ⟨fun h => ⟨hthree, h⟩, fun h => h.2⟩

/-- The controller in configuration mode, with all filters set. -/
def allSet : Driver :=
  (System.booted ⟨fun a => if a.val % 16 = 14 ∨ a.val % 16 = 15 then 0x80 else 0xFF⟩
    fun _ => .bare 0).driver

theorem showsConfig_allSet : allSet.chip.ShowsConfig := ⟨rfl, rfl⟩

theorem clearsRight_iff_two : ClearsRight 2 allSet := by
  have hfour : allSet.chip.filterFile.filter 4 ≠ zeroRegs := by decide
  exact (clearsRight_iff showsConfig_allSet (by decide)).2
    (.inr ⟨by decide, fun h => absurd rfl h, .inr ⟨4, by decide, by decide, hfour⟩⟩)

/-- Clearing filter 3 leaves configuration mode. -/
theorem not_clearsRight_three : allSet.chip.ShowsConfig ∧ ¬ ClearsRight 3 allSet := by
  refine ⟨showsConfig_allSet, ?_⟩
  rintro ⟨d', hrun, hright⟩
  have hctrl := hright.ctrl
  rw [canctrl_of_run_three hrun] at hctrl
  exact absurd hctrl (by decide)

end Can
end Tk1Bsp
