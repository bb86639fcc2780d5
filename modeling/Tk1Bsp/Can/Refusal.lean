import Tk1Bsp.Can.Installation

/-!
# When `set_rx_filter` refuses

A filter is refused when no mask looks unused, and none that looks like the requested one has a slot
that reads as empty.  The look is at the low eight bits of a mask, slot 3 never reads as empty, and
the mask of the second bank is never cleared.  So room is overlooked under a mask of more than eight
bits, in a second bank that is full but for slot 3, and in one that has a mask and no filters.
-/

namespace Tk1Bsp
namespace Can

/-! ## Standard masks -/

theorem getLsbD_255 (k : ℕ) : BitVec.getLsbD (0xFF : BitVec 32) k = decide (k < 8) := by
  by_cases hk : k < 32
  · revert k
    decide
  · rw [BitVec.getLsbD_of_ge _ _ (by omega), decide_eq_false (by omega)]

/-- The registers hold a standard mask. -/
def Standard (r : List (BitVec 8)) : Prop := ∃ m : BitVec 32, r = maskRegs false m

/-- Eight bits of a standard mask are read back. -/
theorem curMask_of_standard {r : List (BitVec 8)} (h : Standard r) :
    curMask r false = ((sidOf r).setWidth 32 &&& 0xFF, 0) := by
  refine Prod.ext ?_ ?_
  · apply BitVec.eq_of_getLsbD_eq
    intro k hk
    rw [BitVec.getLsbD_and, getLsbD_255, curMask, sidOfRegs_eq]
    simp only [Bool.false_eq_true, if_false, BitVec.getLsbD_ushiftRight, BitVec.getLsbD_or,
      BitVec.getLsbD_shiftLeft, BitVec.getLsbD_setWidth]
    by_cases hk8 : k < 8
    · have hlt : canEidBits + k < 32 := by unfold canEidBits; omega
      have hge : ¬ canEidBits + k < 8 := by unfold canEidBits; omega
      simp [hlt, hge, hk, hk8]
    · have hge : ¬ canEidBits + k < 8 := by unfold canEidBits; omega
      simp [hge, hk8]
  · obtain ⟨m, rfl⟩ := h
    apply BitVec.eq_of_getLsbD_eq
    intro k hk
    simp [curMask, maskRegs, splitId, idRegs]

namespace Installation

variable (s : Installation)

/-- The standard mask in the registers of bank `i`. -/
def maskOf (i : ℕ) : BitVec 32 := (sidOf (s.driver.chip.quad (toAddr (rxmsidh i)))).setWidth 32

/-- The slots of bank `i`. -/
def bankSlots (i : ℕ) : List ℕ := if i = 0 then [0, 1] else [2, 3, 4, 5]

/-- There is a filter in the slot. -/
def InUse (j : ℕ) : Prop := ∃ e ∈ s.live, e.slot = j

/-- Bank `i` has no room for a filter with the mask: there are filters, and they have another mask
or take all slots. -/
def Occupied (i : ℕ) (mask : BitVec 32) : Prop :=
  (∃ e ∈ s.live, bankOf e.slot = i) ∧ (s.maskOf i ≠ mask ∨ ∀ j ∈ bankSlots i, s.InUse j)

/-- Bank `i` looks as if it had room: the low byte of its mask is zero, or it is the requested mask,
and one of the slots that can be given out is free. -/
def LooksFree (i : ℕ) (mask : BitVec 32) : Prop :=
  s.maskOf i &&& 0xFF = 0 ∨ (s.maskOf i &&& 0xFF = mask ∧ ∃ j ∈ slotsOf i, ¬ s.InUse j)

/-- The calls for standard frames: identifiers and masks are not zero, and a filter that is cleared
is in use. -/
def Proper : Request → Prop
  | .set id mask => FilterArgs id mask ∧ id.exide = false ∧ id.id ≠ 0 ∧ mask ≠ 0
  | .clear j => s.InUse j

/-- Such a call. -/
def ProperStep (a : Request) (ret : ℤ) (s' : Installation) : Prop := s.Step a ret s' ∧ s.Proper a

/-- `set_rx_filter` refuses only what there is no room for, and then changes nothing. -/
def RefusesRight (id : CanId) (mask : BitVec 32) : Prop :=
  ∀ d, (setRxFilter id mask).run exec s.driver = some (-1, d) →
    (∀ i ∈ [0, 1], s.Occupied i mask) ∧ d = s.driver

end Installation

/-! ## The decision -/

namespace FilterFile

variable {f : FilterFile} {live : List Installed}

/-- A refusal: no mask decodes to zero, and none that decodes to the requested one has a free
slot. -/
theorem choose_eq_refuse_iff {exide : Bool} {mask : BitVec 32} {is : List ℕ} :
    f.choose exide mask is = .refuse ↔ ∀ i ∈ is,
      ¬ ((curMask (f.mask i) exide).1 = 0 ∧ (curMask (f.mask i) exide).2 = 0) ∧
        ((curMask (f.mask i) exide).1 = mask → ∀ j ∈ slotsOf i, ¬ isBlank (f.filter j) = true) := by
  induction is with
  | nil => simp [choose]
  | cons i is ih =>
      rw [List.forall_mem_cons, ← ih, choose]
      split
      · rename_i hzero
        exact iff_of_false (fun h => by cases h) fun h => h.1.1 hzero
      · rename_i hzero
        split
        · rename_i hsame
          split
          · rename_i j hfind
            have hblank := List.find?_some hfind
            exact iff_of_false (fun h => by cases h) fun h =>
              h.1.2 hsame j (List.mem_of_find?_eq_some hfind) hblank
          · rename_i hfind
            have hnone := List.find?_eq_none.1 hfind
            exact ⟨fun h => ⟨⟨hzero, fun _ => hnone⟩, h⟩, fun h => h.2⟩
        · rename_i hother
          exact ⟨fun h => ⟨⟨hzero, fun hsame => absurd hsame hother⟩, h⟩, fun h => h.2⟩

/-- The registers say which slots are in use, the masks are standard, and the first one is zero when it
has no filter. -/
structure Faithful (f : FilterFile) (live : List Installed) : Prop where
  slot : ∀ e ∈ live, ∃ i ∈ [0, 1], e.slot ∈ slotsOf i
  blank : ∀ i ∈ [0, 1], ∀ j ∈ slotsOf i, isBlank (f.filter j) = true ↔ ∀ e ∈ live, e.slot ≠ j
  standard : ∀ i ∈ [0, 1], Standard (f.mask i)
  empty : (∀ e ∈ live, bankOf e.slot ≠ 0) → f.mask 0 = zeroRegs

theorem Faithful.of_same {g : FilterFile} (h : f.Faithful live) (hsame : g.Same f) :
    g.Faithful live where
  slot := h.slot
  blank i hi j hj := by
    rw [hsame.filter j (mem_hardwareSlots_of_slotsOf hj)]
    exact h.blank i hi j hj
  standard i hi := by
    rw [hsame.mask i hi]
    exact h.standard i hi
  empty hnone := (hsame.mask 0 (by decide)).trans (h.empty hnone)

/-- An identifier that is not zero leaves a mark. -/
theorem isBlank_regs {id : CanId} (hvalid : id.Valid) (hexide : id.exide = false)
    (hid : id.id ≠ 0) :
    ¬ isBlank id.regs = true := by
  intro hblank
  have hsid := sidOf_regs hexide
  rw [(isBlank_iff rfl).1 hblank] at hsid
  have hback := setWidth_of_valid hvalid hexide
  rw [← hsid] at hback
  exact hid (hback.symm.trans rfl)

theorem Faithful.store (h : f.Faithful live) {i j : ℕ} (hi : i ∈ [0, 1]) (hj : j ∈ slotsOf i)
    {id : CanId} (hvalid : id.Valid) (hexide : id.exide = false) (hid : id.id ≠ 0)
    (mask mask' : BitVec 32) : (f.store j id mask).Faithful (live ++ [⟨j, id, mask'⟩]) where
  slot e he := by
    rcases List.mem_append.1 he with he | he
    · exact h.slot e he
    · obtain rfl := List.mem_singleton.1 he
      exact ⟨i, hi, hj⟩
  blank k hk j' hj' := by
    show isBlank (Function.update f.filter j id.regs j') = true ↔ _
    by_cases hne : j' = j
    · subst hne
      rw [Function.update_self]
      refine iff_of_false (isBlank_regs hvalid hexide hid) fun hall => ?_
      exact hall ⟨j', id, mask'⟩ (List.mem_append_right _ (List.mem_singleton.2 rfl)) rfl
    · rw [Function.update_of_ne hne, h.blank k hk j' hj', List.forall_mem_append,
        List.forall_mem_singleton]
      exact ⟨fun hall => ⟨hall, fun hc => hne hc.symm⟩, fun hall => hall.1⟩
  standard k hk := by
    by_cases hwritten : mask = 0 ∨ k ≠ bankOf j
    · rw [store_mask_of_ne id hwritten]
      exact h.standard k hk
    · rw [not_or, not_not] at hwritten
      obtain ⟨hmask, rfl⟩ := hwritten
      rw [store_mask_self id hmask, hexide]
      exact ⟨mask, rfl⟩
  empty hnone := by
    rw [List.forall_mem_append, List.forall_mem_singleton] at hnone
    exact (store_mask_of_ne id (.inr hnone.2.symm)).trans (h.empty hnone.1)

theorem Faithful.blank_clear (h : f.Faithful live) (j : ℕ) {k j' : ℕ} (hk : k ∈ [0, 1])
    (hj' : j' ∈ slotsOf k) : isBlank ((f.clear j).filter j') = true ↔
      ∀ e ∈ live.filter (·.slot ≠ j), e.slot ≠ j' := by
  show isBlank (Function.update f.filter j zeroRegs j') = true ↔ _
  by_cases hne : j' = j
  · subst hne
    rw [Function.update_self]
    refine iff_of_true rfl fun e he => ?_
    simpa using (List.mem_filter.1 he).2
  · rw [Function.update_of_ne hne, h.blank k hk j' hj']
    refine ⟨fun hall e he => hall e (List.mem_filter.1 he).1, fun hall e he hc => ?_⟩
    exact hall e (List.mem_filter.2 ⟨he, by simpa using fun hj => hne (hc.symm.trans hj)⟩) hc

/-- When the last filter of the first bank is cleared, so is its mask. -/
theorem Faithful.empty_clear (h : f.Faithful live) {j : ℕ}
    (hnone : ∀ e ∈ live.filter (·.slot ≠ j), bankOf e.slot ≠ 0) : (f.clear j).mask 0 = zeroRegs := by
  by_cases hbank : bankOf j = 0
  · have hmem : 0 ∈ [0, 1] := by decide
    have hall : ((slotsOf 0).all fun k => isBlank ((f.clear j).filter k)) = true := by
      refine List.all_eq_true.2 fun k hk => (h.blank_clear j hmem hk).2 fun e he hslot => ?_
      exact hnone e he (hslot ▸ bankOf_eq hmem hk)
    have hmask : (f.clear j).mask = Function.update f.mask 0 zeroRegs := if_pos ⟨hbank, hall⟩
    rw [hmask, Function.update_self]
  · have hmask : (f.clear j).mask = f.mask := if_neg fun hc => hbank hc.1
    rw [hmask]
    refine h.empty fun e he => ?_
    by_cases hslot : e.slot = j
    · rwa [hslot]
    · exact hnone e (List.mem_filter.2 ⟨he, by simpa using hslot⟩)

theorem Faithful.clear (h : f.Faithful live) (j : ℕ) :
    (f.clear j).Faithful (live.filter (·.slot ≠ j)) where
  slot e he := h.slot e (List.mem_filter.1 he).1
  blank k hk j' hj' := h.blank_clear j hk hj'
  standard k hk := by
    simp only [FilterFile.clear]
    split
    · by_cases hzero : k = 0
      · subst hzero
        exact ⟨0, rfl⟩
      · exact (Function.update_of_ne hzero _ _).symm ▸ h.standard k hk
    · exact h.standard k hk
  empty := h.empty_clear

end FilterFile

/-! ## Runs -/

namespace Installation

/-- The invariant. -/
structure Followed (s : Installation) : Prop where
  config : s.driver.chip.inConfig
  faithful : s.driver.chip.filterFile.Faithful s.live

theorem quad_of_zero {c : Chip} (hzero : ∀ a, Chip.isFilter a → c.reg a = 0) {a : Addr}
    (ha : Chip.IsBlock a) : c.quad a = zeroRegs := by
  have hreg : ∀ k < 4, c.reg (a + Fin.ofNat 128 k) = 0 := by
    intro k hk
    refine hzero _ ?_
    have hval := Chip.val_add_of_block ha hk
    have hfilter := ha.1
    have hmod := ha.2
    unfold Chip.isFilter at hfilter ⊢
    omega
  refine List.ext_getElem rfl fun k hk hk' => ?_
  have hlt : k < 4 := by simpa [Chip.quad] using hk
  simp only [Chip.quad, List.getElem_map, List.getElem_range, hreg k hlt, zeroRegs,
    List.getElem_replicate]

theorem Blank.followed {s : Installation} (h : s.Blank) : s.Followed where
  config := h.config
  faithful :=
    { slot := fun e he => by
        rw [h.live] at he
        cases he
      blank := fun i hi j hj => by
        have hquad := quad_of_zero h.zero (Chip.block_filter (mem_hardwareSlots_of_slotsOf hj))
        have hblank : isBlank (s.driver.chip.filterFile.filter j) = true := by
          show isBlank (s.driver.chip.quad _) = true
          rw [hquad]
          rfl
        rw [h.live]
        exact iff_of_true hblank nofun
      standard := fun i hi => ⟨0, quad_of_zero h.zero (Chip.block_mask hi)⟩
      empty := fun _ => quad_of_zero h.zero (Chip.block_mask (by decide)) }

/-- A filter that is put into a slot of a bank. -/
theorem Followed.stored {s : Installation} (h : s.Followed) {i j : ℕ} (hi : i ∈ [0, 1])
    (hj : j ∈ slotsOf i) {id : CanId} {mask : BitVec 32} (mask' : BitVec 32)
    (hargs : FilterArgs id mask) (hexide : id.exide = false) (hid : id.id ≠ 0) {chip : Chip}
    (hconfig : chip.inConfig)
    (hsame : chip.filterFile.Same (s.driver.chip.filterFile.store j id mask')) :
    (s.add j id mask { s.driver with chip := chip }).Followed := by
  rw [add, if_pos (Int.natCast_nonneg j)]
  exact ⟨hconfig, (h.faithful.store hi hj hargs.1 hexide hid mask' mask).of_same hsame⟩

/-- One call. -/
theorem Followed.step {s s' : Installation} {a : Request} {ret : ℤ} (h : s.Followed)
    (hstep : s.ProperStep a ret s') : s'.Followed := by
  obtain ⟨hstep, hproper⟩ := hstep
  cases hstep with
  | @set id mask _ d hargs hrun =>
      obtain ⟨-, hexide, hid, -⟩ := hproper
      obtain ⟨chip, hspec, hconfig, hsame⟩ := run_setRxFilter h.config id mask
      obtain ⟨hret, rfl⟩ := Prod.mk.inj (Option.some.inj (hrun.symm.trans hspec))
      subst hret
      unfold FilterFile.place at hsame ⊢
      cases hchoose : s.driver.chip.filterFile.choose id.exide mask [0, 1] with
      | fresh i =>
          rw [hchoose] at hsame
          obtain ⟨hi, -⟩ := FilterFile.mem_of_fresh hchoose
          exact h.stored hi (fresh_mem_slotsOf hi) mask hargs hexide hid hconfig hsame
      | shared j =>
          rw [hchoose] at hsame
          obtain ⟨i, hi, hslot, -⟩ := FilterFile.mem_of_shared hchoose
          exact h.stored hi hslot 0 hargs hexide hid hconfig hsame
      | refuse =>
          rw [hchoose] at hsame
          exact ⟨hconfig, h.faithful.of_same hsame⟩
  | @clear j d hj hrun =>
      obtain ⟨e, he, rfl⟩ := hproper
      obtain ⟨i, -, hslot⟩ := h.faithful.slot e he
      obtain ⟨chip, hspec, hconfig, hsame⟩ :=
        run_clearRxFilter h.config (mem_hardwareSlots_of_slotsOf hslot)
      obtain ⟨-, rfl⟩ := Prod.mk.inj (Option.some.inj (hrun.symm.trans hspec))
      exact ⟨hconfig, (h.faithful.clear e.slot).of_same hsame⟩

/-- What `set_rx_filter` reads of a bank. -/
theorem Followed.curMask_eq {s : Installation} (h : s.Followed) {i : ℕ} (hi : i ∈ [0, 1]) :
    curMask (s.driver.chip.filterFile.mask i) false = (s.maskOf i &&& 0xFF, 0) :=
  curMask_of_standard (h.faithful.standard i hi)

theorem Followed.blank_iff {s : Installation} (h : s.Followed) {i j : ℕ} (hi : i ∈ [0, 1])
    (hj : j ∈ slotsOf i) :
    isBlank (s.driver.chip.filterFile.filter j) = true ↔ ¬ s.InUse j := by
  rw [h.faithful.blank i hi j hj, InUse]
  exact ⟨fun hall hc => hc.elim fun e he => hall e he.1 he.2,
    fun hnone e he hc => hnone ⟨e, he, hc⟩⟩

theorem Followed.choose_eq_refuse_iff {s : Installation} (h : s.Followed) (mask : BitVec 32) :
    s.driver.chip.filterFile.choose false mask [0, 1] = .refuse ↔
      ∀ i ∈ [0, 1], ¬ s.LooksFree i mask := by
  rw [FilterFile.choose_eq_refuse_iff]
  refine forall₂_congr fun i hi => ?_
  rw [h.curMask_eq hi, LooksFree, not_or]
  refine and_congr (not_congr (and_iff_left rfl)) ?_
  rw [not_and, not_exists]
  refine imp_congr_right fun _ => forall_congr' fun j => ?_
  rw [not_and]
  exact forall_congr' fun hj => not_congr (h.blank_iff hi hj)

/-- A refusal: no bank looks free, and the driver stays as it is. -/
theorem Followed.refuses_iff {s : Installation} (h : s.Followed) {id : CanId}
    (hexide : id.exide = false) (mask : BitVec 32) {d : Driver} :
    (setRxFilter id mask).run exec s.driver = some (-1, d) ↔
      (∀ i ∈ [0, 1], ¬ s.LooksFree i mask) ∧ d = s.driver := by
  rw [← h.choose_eq_refuse_iff]
  obtain ⟨chip, hspec, -⟩ := run_setRxFilter h.config id mask
  have hbanks : ∀ i ∈ [0, 1], i ∈ [0, 1] := fun _ hi => hi
  have hloop := run_setRxFilterLoop h.config id mask hbanks
  have haccept : ∀ {ret : ℤ}, 0 ≤ ret →
      s.driver.chip.filterFile.choose false mask [0, 1] ≠ .refuse →
      (s.driver.chip.filterFile.place id mask).1 = ret →
      ((setRxFilter id mask).run exec s.driver = some (-1, d) ↔
        s.driver.chip.filterFile.choose false mask [0, 1] = .refuse ∧ d = s.driver) := by
    intro ret hpos hne hret
    refine iff_of_false (fun hrun => ?_) fun hc => hne hc.1
    have hret' := (Prod.mk.inj (Option.some.inj (hrun.symm.trans hspec))).1
    omega
  unfold FilterFile.place at haccept
  rw [hexide] at hloop haccept
  cases hchoose : s.driver.chip.filterFile.choose false mask [0, 1] with
  | fresh i =>
      rw [hchoose] at haccept
      exact haccept (Int.natCast_nonneg _) nofun rfl
  | shared j =>
      rw [hchoose] at haccept
      exact haccept (Int.natCast_nonneg _) nofun rfl
  | refuse =>
      rw [hchoose] at hloop
      rw [setRxFilter, hloop]
      simp [eq_comm]

/-! ### The room there is -/

theorem Followed.inUse_of_bank {s : Installation} (h : s.Followed) {i : ℕ} (hi : i ∈ [0, 1]) :
    (∃ e ∈ s.live, bankOf e.slot = i) ↔ ∃ j ∈ slotsOf i, s.InUse j := by
  constructor
  · rintro ⟨e, he, hbank⟩
    obtain ⟨k, hk, hslot⟩ := h.faithful.slot e he
    obtain rfl : k = i := (bankOf_eq hk hslot).symm.trans hbank
    exact ⟨e.slot, hslot, e, he, rfl⟩
  · rintro ⟨j, hj, e, he, rfl⟩
    exact ⟨e, he, bankOf_eq hi hj⟩

/-- A first bank without filters has no mask. -/
theorem Followed.maskOf_zero {s : Installation} (h : s.Followed) (h₀ : ¬ s.InUse 0)
    (h₁ : ¬ s.InUse 1) : s.maskOf 0 = 0 := by
  have hnone : ∀ e ∈ s.live, bankOf e.slot ≠ 0 := by
    intro e he hbank
    obtain ⟨j, hj, huse⟩ := (h.inUse_of_bank (by decide)).1 ⟨e, he, hbank⟩
    have hslots : j = 0 ∨ j = 1 := by simpa [slotsOf] using hj
    rcases hslots with rfl | rfl
    · exact h₀ huse
    · exact h₁ huse
  have hmask : s.driver.chip.quad (toAddr (rxmsidh 0)) = zeroRegs := h.faithful.empty hnone
  rw [maskOf]
  exact (congrArg (fun r => (sidOf r).setWidth 32) hmask).trans rfl

theorem looksFree_zero_iff {s : Installation} {mask : BitVec 32} : s.LooksFree 0 mask ↔
    s.maskOf 0 &&& 0xFF = 0 ∨ s.maskOf 0 &&& 0xFF = mask ∧ ¬ (s.InUse 0 ∧ s.InUse 1) := by
  simp [LooksFree, slotsOf, imp_iff_not_or]

theorem looksFree_one_iff {s : Installation} {mask : BitVec 32} : s.LooksFree 1 mask ↔
    s.maskOf 1 &&& 0xFF = 0 ∨
      s.maskOf 1 &&& 0xFF = mask ∧ ¬ (s.InUse 2 ∧ s.InUse 4 ∧ s.InUse 5) := by
  simp [LooksFree, slotsOf, imp_iff_not_or]

theorem Followed.occupied_zero_iff {s : Installation} (h : s.Followed) (mask : BitVec 32) :
    s.Occupied 0 mask ↔
      (s.InUse 0 ∨ s.InUse 1) ∧ (s.maskOf 0 ≠ mask ∨ s.InUse 0 ∧ s.InUse 1) := by
  rw [Occupied, h.inUse_of_bank (by decide)]
  simp [slotsOf, bankSlots]

/-- Slot 3 is never in use, so the second bank is never full. -/
theorem Followed.occupied_one_iff {s : Installation} (h : s.Followed) (mask : BitVec 32) :
    s.Occupied 1 mask ↔ (s.InUse 2 ∨ s.InUse 4 ∨ s.InUse 5) ∧ s.maskOf 1 ≠ mask := by
  have hthree : ¬ s.InUse 3 := by
    rintro ⟨e, he, hslot⟩
    obtain ⟨i, hi, hmem⟩ := h.faithful.slot e he
    have hslots : ∀ i ∈ [0, 1], 3 ∉ slotsOf i := by decide
    exact hslots i hi (hslot ▸ hmem)
  rw [Occupied, h.inUse_of_bank (by decide)]
  simp [slotsOf, bankSlots, hthree]

/-- In every state that the calls can lead to, the next call is right about the room there is in
these cases: the low byte of a mask is zero; or it is the requested mask, and a slot under it other
than slot 3 is free; or there is no room, with filters under another mask in the second bank, and
in the first one another mask or no free slot. -/
theorem refusesRight_iff {s : Installation} (h : Transition.Reachable ProperStep Blank s)
    {id : CanId} {mask : BitVec 32} (hproper : s.Proper (.set id mask)) :
    s.RefusesRight id mask ↔
      (s.maskOf 0 &&& 0xFF = 0 ∨ s.maskOf 1 &&& 0xFF = 0) ∨
      (s.maskOf 0 &&& 0xFF = mask ∧ ¬ (s.InUse 0 ∧ s.InUse 1)) ∨
      (s.maskOf 1 &&& 0xFF = mask ∧ ¬ (s.InUse 2 ∧ s.InUse 4 ∧ s.InUse 5)) ∨
      ((s.InUse 2 ∨ s.InUse 4 ∨ s.InUse 5) ∧ s.maskOf 1 ≠ mask ∧
        (s.maskOf 0 ≠ mask ∨ s.InUse 0 ∧ s.InUse 1)) := by
  have hfollowed : s.Followed :=
    h.invariant (I := Followed) (fun _ => Blank.followed) fun _ _ _ _ hI hstep => hI.step hstep
  have hright : s.RefusesRight id mask ↔
      (s.LooksFree 0 mask ∨ s.LooksFree 1 mask) ∨ s.Occupied 0 mask ∧ s.Occupied 1 mask := by
    have hrefuses := fun d => @Followed.refuses_iff s hfollowed id hproper.2.1 mask d
    simp only [List.forall_mem_cons, List.not_mem_nil, false_imp_iff, implies_true, and_true]
      at hrefuses
    simp only [RefusesRight, hrefuses, List.forall_mem_cons, List.not_mem_nil, false_imp_iff,
      implies_true, and_true]
    rw [← not_or]
    constructor
    · intro hnone
      by_cases hlooks : s.LooksFree 0 mask ∨ s.LooksFree 1 mask
      · exact .inl hlooks
      · exact .inr (hnone _ ⟨hlooks, rfl⟩).1
    · rintro (hlooks | hfull) d ⟨hnone, hsame⟩
      · exact absurd hlooks hnone
      · exact ⟨hfull, hsame⟩
  have hfirst : ¬ s.maskOf 0 &&& 0xFF = 0 → s.InUse 0 ∨ s.InUse 1 := by
    intro hmask
    by_contra hnone
    obtain ⟨h₀, h₁⟩ := not_or.1 hnone
    rw [hfollowed.maskOf_zero h₀ h₁] at hmask
    exact hmask rfl
  rw [hright, looksFree_zero_iff, looksFree_one_iff, hfollowed.occupied_zero_iff,
    hfollowed.occupied_one_iff]
  constructor
  · rintro (((hlow | hshared) | (hlow | hshared)) | ⟨⟨-, hroom₀⟩, huse, hroom₁⟩)
    · exact .inl (.inl hlow)
    · exact .inr (.inl hshared)
    · exact .inl (.inr hlow)
    · exact .inr (.inr (.inl hshared))
    · exact .inr (.inr (.inr ⟨huse, hroom₁, hroom₀⟩))
  · rintro ((hlow | hlow) | hshared | hshared | ⟨huse, hroom₁, hroom₀⟩)
    · exact .inl (.inl (.inl hlow))
    · exact .inl (.inr (.inl hlow))
    · exact .inl (.inl (.inr hshared))
    · exact .inl (.inr (.inr hshared))
    · by_cases hlow : s.maskOf 0 &&& 0xFF = 0
      · exact .inl (.inl (.inl hlow))
      · exact .inr ⟨⟨hfirst hlow, hroom₀⟩, huse, hroom₁⟩

theorem proper_set (s : Installation) {id : CanId} {mask : BitVec 32}
    (h : FilterArgs id mask ∧ id.exide = false ∧ id.id ≠ 0 ∧ mask ≠ 0) :
    s.Proper (.set id mask) := h

theorem refusesRight_iff_first : blank.RefusesRight (standard 0x123) 0x7FF := by
  have hmask : blank.maskOf 0 &&& 0xFF = 0 := rfl
  exact (refusesRight_iff (.of_init blank_initial) (proper_set _ (by decide))).2
    (.inl (.inl hmask))

/-- Three filters with a mask of eleven bits: the third is refused. -/
theorem run_three :
    ((setRxFilter (standard 0x123) 0x7FF).run exec blank.driver).bind (fun r =>
      ((setRxFilter (standard 0x124) 0x7FF).run exec r.2).bind fun r' =>
        ((setRxFilter (standard 0x125) 0x7FF).run exec r'.2).map fun r'' =>
          (r.1, r'.1, r''.1, sidOf (r'.2.chip.quad (toAddr (rxmsidh 0))))) =
      some (0, 2, -1, 0x7FF) := rfl

/-- The first bank has the requested mask and a free slot. -/
theorem not_refusesRight_third : ¬ ∀ s, Transition.Reachable ProperStep Blank s →
    ∀ id mask, s.Proper (.set id mask) → s.RefusesRight id mask := by
  intro h
  obtain ⟨⟨ret, d⟩, hfirst, hrest⟩ := Option.bind_eq_some_iff.1 run_three
  obtain ⟨⟨ret', d'⟩, hsecond, hrest⟩ := Option.bind_eq_some_iff.1 hrest
  obtain ⟨⟨ret'', d''⟩, hthird, hvalues⟩ := Option.map_eq_some_iff.1 hrest
  simp only [Prod.mk.injEq] at hvalues
  obtain ⟨rfl, rfl, rfl, hmask⟩ := hvalues
  have hreach : Transition.Reachable ProperStep Blank
      ((blank.add 0 (standard 0x123) 0x7FF d).add 2 (standard 0x124) 0x7FF d') :=
    ((Transition.Reachable.of_init blank_initial).next ⟨.set (by decide) hfirst,
      proper_set _ (by decide)⟩).next
      ⟨.set (by decide) hsecond, proper_set _ (by decide)⟩
  have hoccupied :=
    (h _ hreach (standard 0x125) 0x7FF (proper_set _ (by decide)) d'' hthird).1 0 (by decide)
  rcases hoccupied.2 with hother | hfull
  · have hsame : sidOf (d'.chip.quad (toAddr (rxmsidh 0))) = 0x7FF := hmask
    refine hother ?_
    show (sidOf (d'.chip.quad (toAddr (rxmsidh 0)))).setWidth 32 = _
    rw [hsame]
    rfl
  · have hfree : ¬ ∃ e ∈
        ([⟨0, standard 0x123, 0x7FF⟩, ⟨2, standard 0x124, 0x7FF⟩] : List Installed),
        e.slot = 1 := by decide
    exact hfree (hfull 1 (by decide))

end Installation

end Can
end Tk1Bsp
