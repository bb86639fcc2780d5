import Tk1Bsp.Can.Codec
import Tk1Bsp.Framework.Transition

/-!
# Installed filters

`set_rx_filter` and `clear_rx_filter` do not store which filters are in use.  They read it off the
registers: a mask that decodes to zero belongs to no filter, and a slot of zeros is free.  Slot `j`
of the driver is at `RXFSIDH(j)`, so slot 3 is where the controller has `CANSTAT` and `CANCTRL`; in
configuration mode it never reads as zeros, and is never given out.

`FilterFile` is the part of the register file that matters, with the two functions on it.  Where
every choice is right about the filters in use (`FilterFile.Judges`), the filters keep their
meaning.
-/

namespace Tk1Bsp
namespace Can

/-! ## What a filter matches -/

/-- The rule of the controller: the flags of extended identifiers are equal, and the identifiers
agree where the mask has a bit. -/
def Accepts (filter mask : List (BitVec 8)) (id : CanId) : Prop :=
  exideOf filter = id.exide ∧
    if id.exide then bothOf filter &&& bothOf mask = id.id &&& bothOf mask
    else sidOf filter &&& sidOf mask = id.id.setWidth 11 &&& sidOf mask

instance (filter mask : List (BitVec 8)) (id : CanId) : Decidable (Accepts filter mask id) :=
  inferInstanceAs (Decidable (_ ∧ _))

/-- What a client asks for with an identifier and a mask. -/
def Asked (id : CanId) (mask : BitVec 32) (id' : CanId) : Prop :=
  id'.exide = id.exide ∧ id'.id.setWidth 32 &&& mask = id.id.setWidth 32 &&& mask

instance (id : CanId) (mask : BitVec 32) (id' : CanId) : Decidable (Asked id mask id') :=
  inferInstanceAs (Decidable (_ ∧ _))

/-- A filter and a mask register match exactly the frames that were asked for. -/
def Encodes (filter mask : List (BitVec 8)) (id : CanId) (m : BitVec 32) : Prop :=
  ∀ id' : CanId, id'.Valid → (Accepts filter mask id' ↔ Asked id m id')

/-- The arguments of a call: a standard identifier and its mask have eleven bits, an extended mask
has 29. -/
def FilterArgs (id : CanId) (mask : BitVec 32) : Prop :=
  id.Valid ∧ mask.toNat < if id.exide then 2 ^ 29 else 2 ^ 11

instance (id : CanId) (mask : BitVec 32) : Decidable (FilterArgs id mask) :=
  inferInstanceAs (Decidable (_ ∧ _))

/-- The registers hold a mask for one kind of identifiers. -/
def MaskIs (r : List (BitVec 8)) (exide : Bool) (mask : BitVec 32) : Prop :=
  (if exide then (bothOf r).setWidth 32 else (sidOf r).setWidth 32) = mask

instance (r : List (BitVec 8)) (exide : Bool) (mask : BitVec 32) : Decidable (MaskIs r exide mask) :=
  inferInstanceAs (Decidable (_ = _))

/-- The registers that `write_to_filter` makes of a mask. -/
def maskRegs (exide : Bool) (mask : BitVec 32) : List (BitVec 8) :=
  idRegs (splitId exide mask).1 (splitId exide mask).2 false

theorem setWidth_32_of_lt {w : ℕ} {x : BitVec 32} (h : x.toNat < 2 ^ w) :
    (x.setWidth w).setWidth 32 = x := by
  apply BitVec.eq_of_toNat_eq
  rw [BitVec.toNat_setWidth, BitVec.toNat_setWidth, Nat.mod_eq_of_lt h, Nat.mod_eq_of_lt x.isLt]

theorem maskIs_maskRegs {id : CanId} {mask : BitVec 32} (h : FilterArgs id mask) :
    MaskIs (maskRegs id.exide mask) id.exide mask := by
  have hlt := h.2
  unfold MaskIs maskRegs
  cases hexide : id.exide with
  | true =>
      rw [hexide] at hlt
      rw [if_pos rfl, bothOf_splitId]
      exact setWidth_32_of_lt hlt
  | false =>
      rw [hexide] at hlt
      rw [if_neg Bool.false_ne_true, sidOf_splitId]
      exact setWidth_32_of_lt hlt

/-- Masked identifiers are equal in the registers when they are equal in 32 bits. -/
theorem and_eq_iff_widen {w : ℕ} (hw : w ≤ 29) (x y : BitVec 29) (m : BitVec w) :
    (x.setWidth w &&& m = y.setWidth w &&& m) ↔
      (y.setWidth 32 &&& m.setWidth 32 = x.setWidth 32 &&& m.setWidth 32) := by
  have hbits : ∀ (z : BitVec 29) (k : ℕ),
      (z.setWidth 32 &&& m.setWidth 32).getLsbD k = (z.setWidth w &&& m).getLsbD k := by
    intro z k
    rw [BitVec.getLsbD_and, BitVec.getLsbD_and, getLsbD_widen (by decide), getLsbD_widen (by omega),
      BitVec.getLsbD_setWidth]
    by_cases hk : k < w
    · rw [decide_eq_true hk, Bool.true_and]
    · rw [BitVec.getLsbD_of_ge m k (by omega), Bool.and_false, Bool.and_false]
  constructor <;> intro h <;> apply BitVec.eq_of_getLsbD_eq <;> intro k _
  · rw [hbits, hbits, h]
  · rw [← hbits, ← hbits, h]

/-- A slot with the registers of the identifier encodes the call if the mask register is right. -/
theorem encodes_regs {id : CanId} {m : BitVec 32} {mask : List (BitVec 8)}
    (hmask : MaskIs mask id.exide m) : Encodes id.regs mask id m := by
  intro id' _
  unfold Accepts Asked
  rw [exideOf_regs]
  by_cases hexide : id'.exide = id.exide
  · have hiff : (if id'.exide then bothOf id.regs &&& bothOf mask = id'.id &&& bothOf mask
        else sidOf id.regs &&& sidOf mask = id'.id.setWidth 11 &&& sidOf mask) ↔
          id'.id.setWidth 32 &&& m = id.id.setWidth 32 &&& m := by
      unfold MaskIs at hmask
      rw [hexide]
      cases hkind : id.exide with
      | true =>
          rw [hkind, if_pos rfl] at hmask
          rw [if_pos rfl, bothOf_regs hkind, ← hmask]
          simpa using and_eq_iff_widen (w := 29) le_rfl id.id id'.id (bothOf mask)
      | false =>
          rw [hkind, if_neg Bool.false_ne_true] at hmask
          rw [if_neg Bool.false_ne_true, sidOf_regs hkind, ← hmask]
          exact and_eq_iff_widen (w := 11) (by decide) id.id id'.id (sidOf mask)
    exact ⟨fun h => ⟨hexide, hiff.1 h.2⟩, fun h => ⟨hexide.symm, hiff.2 h.2⟩⟩
  · exact ⟨fun h => absurd h.1.symm hexide, fun h => absurd h.1 hexide⟩

/-! ## The register file of the filters -/

/-- The filter and mask registers, by the indices of the driver. -/
structure FilterFile where
  filter : ℕ → List (BitVec 8)
  mask : ℕ → List (BitVec 8)

/-- The slots that the driver can give out under a mask. -/
def slotsOf (i : ℕ) : List ℕ := if i = 0 then [0, 1] else [2, 4, 5]

/-- The mask that applies to a slot. -/
def bankOf (j : ℕ) : ℕ := if j < filtsOfMask0 then 0 else 1

/-- The slots of the driver, and the filter that it has no index for. -/
def hardwareSlots : List ℕ := [0, 1, 2, 4, 5, 6]

/-- All four registers are zero. -/
def isBlank (r : List (BitVec 8)) : Bool := r.foldl (· ||| ·) 0 == 0

/-- Registers that are cleared. -/
def zeroRegs : List (BitVec 8) := List.replicate filterBytes 0

theorem isBlank_iff {r : List (BitVec 8)} (h : r.length = filterBytes) :
    isBlank r = true ↔ r = zeroRegs := by
  obtain ⟨a, b, c, d, rfl⟩ := List.length_eq_four.1 h
  simp [isBlank, zeroRegs, filterBytes, and_assoc]

/-- What `set_rx_filter` decides. -/
inductive Choice
  | fresh (i : ℕ)
  | shared (j : ℕ)
  | refuse
  deriving DecidableEq

namespace FilterFile

variable (f : FilterFile)

/-- The decision, mask by mask. -/
def choose (exide : Bool) (mask : BitVec 32) : List ℕ → Choice
  | [] => .refuse
  | i :: is =>
      if (curMask (f.mask i) exide).1 = 0 ∧ (curMask (f.mask i) exide).2 = 0 then .fresh i
      else if (curMask (f.mask i) exide).1 = mask then
        match (slotsOf i).find? fun j => isBlank (f.filter j) with
        | some j => .shared j
        | none => choose exide mask is
      else choose exide mask is

/-- `write_to_filter`. -/
def store (j : ℕ) (id : CanId) (mask : BitVec 32) : FilterFile where
  filter := Function.update f.filter j id.regs
  mask := if mask ≠ 0 then Function.update f.mask (bankOf j) (maskRegs id.exide mask) else f.mask

/-- `set_rx_filter`. -/
def place (id : CanId) (mask : BitVec 32) : ℤ × FilterFile :=
  match f.choose id.exide mask [0, 1] with
  | .fresh i => ((i * filtsOfMask0 : ℕ), f.store (i * filtsOfMask0) id mask)
  | .shared j => (j, f.store j id 0)
  | .refuse => (-1, f)

/-- `clear_rx_filter`.  Only the first mask is ever cleared, because slot 3 counts as used. -/
def clear (j : ℕ) : FilterFile :=
  let filter := Function.update f.filter j zeroRegs
  { filter := filter
    mask :=
      if bankOf j = 0 ∧ (slotsOf 0).all fun k => isBlank (filter k) then
        Function.update f.mask 0 zeroRegs
      else f.mask }

/-- The same registers. -/
structure Same (f g : FilterFile) : Prop where
  filter : ∀ j ∈ hardwareSlots, f.filter j = g.filter j
  mask : ∀ i ∈ [0, 1], f.mask i = g.mask i

end FilterFile

namespace Chip

variable (c : Chip)

/-- Four registers. -/
def quad (a : Addr) : List (BitVec 8) := (List.range 4).map fun k => c.reg (a + Fin.ofNat 128 k)

/-- The filter registers of the controller. -/
def filterFile : FilterFile where
  filter j := c.quad (toAddr (rxfsidh j))
  mask i := c.quad (toAddr (rxmsidh i))

/-- The first of the four registers of a filter or a mask. -/
def IsBlock (a : Addr) : Prop := isFilter a ∧ a.val % 4 = 0

variable {c} {a b : Addr}

theorem val_add_of_block (h : IsBlock a) {k : ℕ} (hk : k < 4) :
    (a + Fin.ofNat 128 k).val = a.val + k := by
  have hfilter := h.1
  unfold isFilter at hfilter
  rw [Fin.val_add]
  show (a.val + k % 128) % 128 = a.val + k
  omega

theorem ordinary_of_block (h : IsBlock a) (hconfig : c.inConfig) (hle : a.val ≤ b.val)
    (hlt : b.val < a.val + 4) : c.Ordinary b := by
  have hfilter := h.1
  have hmod := h.2
  unfold isFilter at hfilter
  exact
    { status := by omega
      control := by unfold isTxbctrl; omega
      config := fun _ => hconfig }

theorem read_of_block (h : IsBlock a) (hconfig : c.inConfig) : c.readFrom a 4 = c.quad a := by
  refine List.map_congr_left fun k hk => ?_
  have hval := val_add_of_block h (List.mem_range.1 hk)
  have hk4 : k < 4 := List.mem_range.1 hk
  have hord := ordinary_of_block (b := a + Fin.ofNat 128 k) h hconfig (by omega) (by omega)
  have hstatus := hord.status
  rw [read, if_neg (by omega), if_neg (by omega), if_neg fun hc => hc.2 hconfig]

/-- Writing four registers. -/
theorem reg_write_block (h : IsBlock a) (hconfig : c.inConfig) {vs : List (BitVec 8)}
    (hlen : vs.length = 4) (b : Addr) :
    (c.writeFrom a vs).reg b =
      if a.val ≤ b.val ∧ b.val < a.val + 4 then vs.getD (b.val - a.val) 0 else c.reg b := by
  have hfilter := h.1
  unfold isFilter at hfilter
  have hwrite := @reg_writeFrom c a vs (by omega)
    (fun b hle hlt => ordinary_of_block h hconfig hle (by omega)) b
  rwa [hlen] at hwrite

theorem quad_write_self (h : IsBlock a) (hconfig : c.inConfig) {vs : List (BitVec 8)}
    (hlen : vs.length = 4) : (c.writeFrom a vs).quad a = vs := by
  apply List.ext_getElem
  · rw [quad, List.length_map, List.length_range, hlen]
  · intro k hk hk'
    have hval := val_add_of_block h (k := k) (by omega)
    simp only [quad, List.getElem_map, List.getElem_range]
    rw [reg_write_block h hconfig hlen, if_pos (by omega), hval, Nat.add_sub_cancel_left,
      List.getD_eq_getElem?_getD, List.getElem?_eq_getElem hk', Option.getD_some]

theorem quad_write_of_ne (h : IsBlock a) (hb : IsBlock b) (hne : b ≠ a) (hconfig : c.inConfig)
    {vs : List (BitVec 8)} (hlen : vs.length = 4) : (c.writeFrom a vs).quad b = c.quad b := by
  refine List.map_congr_left fun k hk => ?_
  have hk4 : k < 4 := List.mem_range.1 hk
  have hval := val_add_of_block hb hk4
  have hmod := h.2
  have hmod' := hb.2
  have hne' : a.val ≠ b.val := fun hc => hne (Fin.ext hc.symm)
  have hout : ¬ (a.val ≤ (b + Fin.ofNat 128 k).val ∧ (b + Fin.ofNat 128 k).val < a.val + 4) := by
    omega
  rw [reg_write_block h hconfig hlen, if_neg hout]

theorem inConfig_write (h : IsBlock a) (hconfig : c.inConfig) {vs : List (BitVec 8)}
    (hlen : vs.length = 4) : (c.writeFrom a vs).inConfig := by
  have hfilter := h.1
  unfold isFilter at hfilter
  have hmod := h.2
  have hstat : (toAddr canstat).val = 0x0E := rfl
  have hout : ¬ (a.val ≤ (toAddr canstat).val ∧ (toAddr canstat).val < a.val + 4) := by omega
  unfold inConfig
  rw [reg_write_block h hconfig hlen, if_neg hout]
  exact hconfig

theorem block_filter {j : ℕ} (hj : j ∈ hardwareSlots) : IsBlock (toAddr (rxfsidh j)) := by
  simp only [hardwareSlots, List.mem_cons, List.not_mem_nil, or_false] at hj
  rcases hj with rfl | rfl | rfl | rfl | rfl | rfl <;> exact ⟨by decide, by decide⟩

theorem block_mask {i : ℕ} (hi : i ∈ [0, 1]) : IsBlock (toAddr (rxmsidh i)) := by
  simp only [List.mem_cons, List.not_mem_nil, or_false] at hi
  rcases hi with rfl | rfl <;> exact ⟨by decide, by decide⟩

end Chip

/-! ## The functions of the driver on the registers -/

section Programs

open Prog

variable {d : Driver}

/-- What `is_filter_empty` says in configuration mode. -/
def FilterFile.readsEmpty (f : FilterFile) (j : ℕ) : Bool := j ≠ 3 && isBlank (f.filter j)

/-- Slot 3 contains the mode. -/
theorem readFrom_slot3_ne_blank {c : Chip} (h : c.inConfig) :
    isBlank (c.readFrom (toAddr (rxfsidh 3)) filterBytes) = false := by
  have hread : c.readFrom (toAddr (rxfsidh 3)) filterBytes =
      [c.read 0x0C, c.read 0x0D, c.reg (toAddr canstat), c.reg (toAddr canctrl)] := rfl
  rw [hread]
  apply beq_eq_false_iff_ne.2
  intro hzero
  have hstat : c.reg (toAddr canstat) = 0 := by
    simp only [List.foldl_cons, List.foldl_nil] at hzero
    have hor := BitVec.or_eq_zero_iff.1 hzero
    exact (BitVec.or_eq_zero_iff.1 hor.1).2
  unfold Chip.inConfig at h
  rw [hstat] at h
  exact absurd h (by decide)

theorem run_isFilterEmpty (hconfig : d.chip.inConfig) {j : ℕ} (hj : j < 6) :
    (isFilterEmpty (BitVec.ofNat 8 j)).run exec d = some (d.chip.filterFile.readsEmpty j, d) := by
  have hidx : (BitVec.ofNat 8 j).toNat = j := Nat.mod_eq_of_lt (by omega)
  have hrun : (isFilterEmpty (BitVec.ofNat 8 j)).run exec d =
      some (isBlank (d.chip.readFrom (toAddr (rxfsidh j)) filterBytes), d) := by
    rw [isFilterEmpty, hidx]
    rfl
  rw [hrun, FilterFile.readsEmpty]
  by_cases h3 : j = 3
  · subst h3
    exact congrArg (fun empty => some (empty, d)) (readFrom_slot3_ne_blank hconfig)
  · have hmem : j ∈ hardwareSlots := by
      simp only [hardwareSlots, List.mem_cons, List.not_mem_nil, or_false]
      omega
    rw [filterBytes, Chip.read_of_block (Chip.block_filter hmem) hconfig]
    simp [h3, Chip.filterFile]

theorem run_firstEmpty (hconfig : d.chip.inConfig) {js : List ℕ} (hjs : ∀ j ∈ js, j < 6) :
    (firstEmpty js).run exec d = some (js.find? d.chip.filterFile.readsEmpty, d) := by
  induction js with
  | nil => rfl
  | cons j js ih =>
      rw [firstEmpty, bind_eq, run_bind, run_isFilterEmpty hconfig (hjs j List.mem_cons_self)]
      simp only [Option.bind_some, List.find?_cons]
      cases d.chip.filterFile.readsEmpty j with
      | true => rfl
      | false => exact ih fun k hk => hjs k (List.mem_cons_of_mem _ hk)

theorem run_allEmpty (hconfig : d.chip.inConfig) {js : List ℕ} (hjs : ∀ j ∈ js, j < 6) :
    (allEmpty js).run exec d = some (js.all d.chip.filterFile.readsEmpty, d) := by
  induction js with
  | nil => rfl
  | cons j js ih =>
      rw [allEmpty, bind_eq, run_bind, run_isFilterEmpty hconfig (hjs j List.mem_cons_self)]
      simp only [Option.bind_some, List.all_cons]
      cases d.chip.filterFile.readsEmpty j with
      | true => exact ih fun k hk => hjs k (List.mem_cons_of_mem _ hk)
      | false => rfl

/-- The first free slot that the driver finds under a mask. -/
theorem find_filtersOfMask (f : FilterFile) {i : ℕ} (hi : i ∈ [0, 1]) :
    (filtersOfMask i).find? f.readsEmpty = (slotsOf i).find? fun j => isBlank (f.filter j) := by
  simp only [List.mem_cons, List.not_mem_nil, or_false] at hi
  rcases hi with rfl | rfl
  · show [0, 1].find? f.readsEmpty = [0, 1].find? _
    rfl
  · show [2, 3, 4, 5].find? f.readsEmpty = [2, 4, 5].find? _
    rfl

theorem lt_of_mem_filtersOfMask {i : ℕ} (hi : i ∈ [0, 1]) : ∀ j ∈ filtersOfMask i, j < 6 := by
  simp only [List.mem_cons, List.not_mem_nil, or_false] at hi
  rcases hi with rfl | rfl <;> decide

theorem FilterFile.Same.trans {f g h : FilterFile} (hfg : f.Same g) (hgh : g.Same h) : f.Same h where
  filter j hj := (hfg.filter j hj).trans (hgh.filter j hj)
  mask i hi := (hfg.mask i hi).trans (hgh.mask i hi)

/-- The four registers of different slots and masks are different ones. -/
theorem blocks_ne :
    (∀ j ∈ hardwareSlots, ∀ k ∈ hardwareSlots, k ≠ j → toAddr (rxfsidh k) ≠ toAddr (rxfsidh j)) ∧
    (∀ i ∈ [0, 1], ∀ k ∈ [0, 1], k ≠ i → toAddr (rxmsidh (k : ℕ)) ≠ toAddr (rxmsidh (i : ℕ))) ∧
    ∀ j ∈ hardwareSlots, ∀ i ∈ [0, 1], toAddr (rxmsidh (i : ℕ)) ≠ toAddr (rxfsidh j) := by
  decide

theorem filterFile_writeFilter {c : Chip} (hconfig : c.inConfig) {j : ℕ} (hj : j ∈ hardwareSlots)
    {vs : List (BitVec 8)} (hlen : vs.length = 4) :
    (c.writeFrom (toAddr (rxfsidh j)) vs).filterFile.Same
      ⟨Function.update c.filterFile.filter j vs, c.filterFile.mask⟩ where
  filter k hk := by
    show _ = Function.update c.filterFile.filter j vs k
    by_cases h : k = j
    · subst h
      rw [Function.update_self]
      exact Chip.quad_write_self (Chip.block_filter hk) hconfig hlen
    · rw [Function.update_of_ne h]
      exact Chip.quad_write_of_ne (Chip.block_filter hj) (Chip.block_filter hk)
        (blocks_ne.1 j hj k hk h) hconfig hlen
  mask i hi := Chip.quad_write_of_ne (Chip.block_filter hj) (Chip.block_mask hi)
    (blocks_ne.2.2 j hj i hi) hconfig hlen

theorem filterFile_writeMask {c : Chip} (hconfig : c.inConfig) {i : ℕ} (hi : i ∈ [0, 1])
    {vs : List (BitVec 8)} (hlen : vs.length = 4) :
    (c.writeFrom (toAddr (rxmsidh i)) vs).filterFile.Same
      ⟨c.filterFile.filter, Function.update c.filterFile.mask i vs⟩ where
  filter j hj := Chip.quad_write_of_ne (Chip.block_mask hi) (Chip.block_filter hj)
    (blocks_ne.2.2 j hj i hi).symm hconfig hlen
  mask k hk := by
    show _ = Function.update c.filterFile.mask i vs k
    by_cases h : k = i
    · subst h
      rw [Function.update_self]
      exact Chip.quad_write_self (Chip.block_mask hk) hconfig hlen
    · rw [Function.update_of_ne h]
      exact Chip.quad_write_of_ne (Chip.block_mask hi) (Chip.block_mask hk)
        (blocks_ne.2.1 i hi k hk h) hconfig hlen

/-- Which mask `write_to_filter` writes. -/
theorem writeMask_eq {j : ℕ} (hj : j < 7) (id : CanId) {mask : BitVec 32} (hmask : mask ≠ 0) :
    writeMask (BitVec.ofNat 8 j) id mask =
      mcp2515WriteNregs (rxmsidh (bankOf j)) (maskRegs id.exide mask) := by
  have hidx : (BitVec.ofNat 8 j).toNat = j := Nat.mod_eq_of_lt (by omega)
  rw [writeMask, if_pos hmask, hidx, bankOf]
  show (if j < filtsOfMask0 then mcp2515WriteNregs (rxmsidh 0) (maskRegs id.exide mask)
    else mcp2515WriteNregs (rxmsidh 1) (maskRegs id.exide mask)) = _
  split <;> rfl

theorem lt_of_mem_hardwareSlots {j : ℕ} (hj : j ∈ hardwareSlots) : j < 7 := by
  simp only [hardwareSlots, List.mem_cons, List.not_mem_nil, or_false] at hj
  omega

/-- `write_to_filter` in configuration mode. -/
theorem run_writeToFilter (hconfig : d.chip.inConfig) {j : ℕ} (hj : j ∈ hardwareSlots) (id : CanId)
    (mask : BitVec 32) :
    ∃ chip, (writeToFilter (BitVec.ofNat 8 j) id mask).run exec d =
        some ((), { d with chip := chip }) ∧
      chip.inConfig ∧ chip.filterFile.Same (d.chip.filterFile.store j id mask) := by
  have hlt := lt_of_mem_hardwareSlots hj
  have hidx : (BitVec.ofNat 8 j).toNat = j := Nat.mod_eq_of_lt (by omega)
  have hbank : bankOf j ∈ [0, 1] := by
    unfold bankOf
    split <;> decide
  by_cases hmask : mask = 0
  · subst hmask
    refine ⟨d.chip.writeFrom (toAddr (rxfsidh j)) id.regs, ?_,
      Chip.inConfig_write (Chip.block_filter hj) hconfig rfl, filterFile_writeFilter hconfig hj rfl⟩
    rw [writeToFilter, hidx]
    rfl
  · let masked := d.chip.writeFrom (toAddr (rxmsidh (bankOf j))) (maskRegs id.exide mask)
    have hmasked : masked.inConfig := Chip.inConfig_write (Chip.block_mask hbank) hconfig rfl
    have hfile : masked.filterFile.Same _ := filterFile_writeMask hconfig hbank rfl
    have hstore := @filterFile_writeFilter masked hmasked j hj id.regs rfl
    refine ⟨masked.writeFrom (toAddr (rxfsidh j)) id.regs, ?_,
      @Chip.inConfig_write masked _ (Chip.block_filter hj) hmasked id.regs rfl, ?_⟩
    · rw [writeToFilter, writeMask_eq hlt id hmask, hidx]
      rfl
    · refine ⟨fun k hk => ?_, fun i hi => ?_⟩
      · rw [hstore.filter k hk]
        show Function.update masked.filterFile.filter j id.regs k =
          Function.update d.chip.filterFile.filter j id.regs k
        by_cases h : k = j
        · subst h
          rw [Function.update_self, Function.update_self]
        · rw [Function.update_of_ne h, Function.update_of_ne h, hfile.filter k hk]
      · rw [hstore.mask i hi, hfile.mask i hi, FilterFile.store, if_pos hmask]

/-- The loop of `set_rx_filter` in configuration mode. -/
theorem run_setRxFilterLoop (hconfig : d.chip.inConfig) (id : CanId) (mask : BitVec 32)
    {is : List ℕ} (his : ∀ i ∈ is, i ∈ [0, 1]) :
    (setRxFilterLoop id mask is).run exec d =
      match d.chip.filterFile.choose id.exide mask is with
      | .fresh i => ((writeToFilter (BitVec.ofNat 8 (i * filtsOfMask0)) id mask).bind fun _ =>
          .ret ((i * filtsOfMask0 : ℕ) : ℤ)).run exec d
      | .shared j => ((writeToFilter (BitVec.ofNat 8 j) id 0).bind fun _ =>
          .ret (j : ℤ)).run exec d
      | .refuse => some (-1, d) := by
  induction is with
  | nil => rfl
  | cons i is ih =>
      have hi := his i List.mem_cons_self
      have hrest := ih fun k hk => his k (List.mem_cons_of_mem _ hk)
      have hread : (mcp2515ReadNregs (rxmsidh i) filterBytes).run exec d =
          some (d.chip.filterFile.mask i, d) := by
        show some (d.chip.readFrom (toAddr (rxmsidh i)) 4, d) = _
        rw [Chip.read_of_block (Chip.block_mask hi) hconfig]
        rfl
      rw [setRxFilterLoop, bind_eq, run_bind, hread]
      simp only [Option.bind_some, FilterFile.choose]
      split
      · rfl
      · split
        · rw [bind_eq, run_bind, run_firstEmpty hconfig (lt_of_mem_filtersOfMask hi),
            find_filtersOfMask _ hi]
          simp only [Option.bind_some]
          cases (slotsOf i).find? fun j => isBlank (d.chip.filterFile.filter j) with
          | none => exact hrest
          | some j => rfl
        · exact hrest

theorem FilterFile.mem_of_fresh {f : FilterFile} {exide : Bool} {mask : BitVec 32} {is : List ℕ}
    {i : ℕ} (h : f.choose exide mask is = .fresh i) :
    i ∈ is ∧ (curMask (f.mask i) exide).1 = 0 ∧ (curMask (f.mask i) exide).2 = 0 := by
  induction is with
  | nil => cases h
  | cons k is ih =>
      have hrest : f.choose exide mask is = .fresh i →
          i ∈ k :: is ∧ (curMask (f.mask i) exide).1 = 0 ∧ (curMask (f.mask i) exide).2 = 0 :=
        fun h => ⟨List.mem_cons_of_mem _ (ih h).1, (ih h).2⟩
      simp only [choose] at h
      split at h
      · rename_i hzero
        cases h
        exact ⟨List.mem_cons_self, hzero⟩
      · split at h
        · split at h
          · cases h
          · exact hrest h
        · exact hrest h

theorem FilterFile.mem_of_shared {f : FilterFile} {exide : Bool} {mask : BitVec 32} {is : List ℕ}
    {j : ℕ} (h : f.choose exide mask is = .shared j) :
    ∃ i ∈ is, j ∈ slotsOf i ∧ isBlank (f.filter j) = true := by
  induction is with
  | nil => cases h
  | cons k is ih =>
      have hrest : f.choose exide mask is = .shared j →
          ∃ i ∈ k :: is, j ∈ slotsOf i ∧ isBlank (f.filter j) = true := fun h =>
        let ⟨i, hi, hslot⟩ := ih h
        ⟨i, List.mem_cons_of_mem _ hi, hslot⟩
      simp only [choose] at h
      split at h
      · cases h
      · split at h
        · split at h
          · rename_i hfind
            cases h
            have hblank := List.find?_some hfind
            exact ⟨k, List.mem_cons_self, List.mem_of_find?_eq_some hfind, hblank⟩
          · exact hrest h
        · exact hrest h

theorem mem_hardwareSlots_of_slotsOf {i j : ℕ} (hj : j ∈ slotsOf i) : j ∈ hardwareSlots := by
  unfold slotsOf at hj
  simp only [hardwareSlots]
  split at hj <;> simp only [List.mem_cons, List.not_mem_nil, or_false] at hj ⊢ <;> omega

theorem bankOf_eq {i j : ℕ} (hi : i ∈ [0, 1]) (hj : j ∈ slotsOf i) : bankOf j = i := by
  simp only [List.mem_cons, List.not_mem_nil, or_false] at hi
  have hall : (∀ j ∈ slotsOf 0, bankOf j = 0) ∧ ∀ j ∈ slotsOf 1, bankOf j = 1 := by decide
  rcases hi with rfl | rfl
  · exact hall.1 j hj
  · exact hall.2 j hj

theorem fresh_mem_slotsOf {i : ℕ} (hi : i ∈ [0, 1]) : i * filtsOfMask0 ∈ slotsOf i := by
  simp only [List.mem_cons, List.not_mem_nil, or_false] at hi
  rcases hi with rfl | rfl <;> decide

/-- `set_rx_filter` in configuration mode is the function on the register file. -/
theorem run_setRxFilter (hconfig : d.chip.inConfig) (id : CanId) (mask : BitVec 32) :
    ∃ chip, (setRxFilter id mask).run exec d =
        some ((d.chip.filterFile.place id mask).1, { d with chip := chip }) ∧
      chip.inConfig ∧ chip.filterFile.Same (d.chip.filterFile.place id mask).2 := by
  have hloop := @run_setRxFilterLoop d hconfig id mask [0, 1] fun _ h => h
  have hstore : ∀ {j : ℕ} (mask' : BitVec 32) (ret : ℤ), j ∈ hardwareSlots →
      ∃ chip, ((writeToFilter (BitVec.ofNat 8 j) id mask').bind fun _ => .ret ret).run exec d =
          some (ret, { d with chip := chip }) ∧
        chip.inConfig ∧ chip.filterFile.Same (d.chip.filterFile.store j id mask') := by
    intro j mask' ret hj
    obtain ⟨chip, hrun, hchip⟩ := run_writeToFilter hconfig hj id mask'
    refine ⟨chip, ?_, hchip⟩
    rw [run_bind, hrun]
    rfl
  unfold setRxFilter FilterFile.place
  rw [hloop]
  cases hchoose : d.chip.filterFile.choose id.exide mask [0, 1] with
  | fresh i =>
      obtain ⟨hi, -⟩ := FilterFile.mem_of_fresh hchoose
      exact hstore mask _ (mem_hardwareSlots_of_slotsOf (fresh_mem_slotsOf hi))
  | shared j =>
      obtain ⟨i, -, hslot, -⟩ := FilterFile.mem_of_shared hchoose
      exact hstore 0 _ (mem_hardwareSlots_of_slotsOf hslot)
  | refuse => exact ⟨d.chip, rfl, hconfig, fun _ _ => rfl, fun _ _ => rfl⟩

theorem clearRxFilter_eq {j : ℕ} (hj : j < 7) :
    clearRxFilter (BitVec.ofNat 8 j) =
      (mcp2515WriteNregs (rxfsidh j) zeroRegs).bind fun _ =>
        (allEmpty (filtersOfMask (bankOf j))).bind fun empty =>
          if empty then mcp2515WriteNregs (rxmsidh (bankOf j)) zeroRegs else .ret () := by
  have hidx : (BitVec.ofNat 8 j).toNat = j := Nat.mod_eq_of_lt (by omega)
  rw [clearRxFilter, hidx]
  rfl

/-- When all filters of a mask read as empty: only the first mask can have that. -/
theorem all_filtersOfMask (f : FilterFile) (j : ℕ) :
    (filtersOfMask (bankOf j)).all f.readsEmpty =
      decide (bankOf j = 0 ∧ (slotsOf 0).all fun k => isBlank (f.filter k)) := by
  unfold bankOf
  split
  · show [0, 1].all f.readsEmpty = decide (0 = 0 ∧ [0, 1].all fun k => isBlank (f.filter k))
    simp [FilterFile.readsEmpty]
  · show [2, 3, 4, 5].all f.readsEmpty = decide (1 = 0 ∧ _)
    simp [FilterFile.readsEmpty]

/-- The registers after those of filter `j` have been cleared. -/
def Chip.withoutFilter (c : Chip) (j : ℕ) : Chip := c.writeFrom (toAddr (rxfsidh j)) zeroRegs

/-- The registers after `clear_rx_filter`: only the first mask is ever cleared. -/
def Chip.clearedFilter (c : Chip) (j : ℕ) : Chip :=
  if bankOf j = 0 ∧ (slotsOf 0).all fun k => isBlank ((c.withoutFilter j).filterFile.filter k) then
    (c.withoutFilter j).writeFrom (toAddr (rxmsidh 0)) zeroRegs
  else c.withoutFilter j

/-- `clear_rx_filter` in configuration mode. -/
theorem run_clearRxFilter_at (hconfig : d.chip.inConfig) {j : ℕ} (hj : j ∈ hardwareSlots) :
    (clearRxFilter (BitVec.ofNat 8 j)).run exec d =
      some ((), { d with chip := d.chip.clearedFilter j }) := by
  have hcleared : (d.chip.withoutFilter j).inConfig :=
    Chip.inConfig_write (Chip.block_filter hj) hconfig rfl
  have hbank : bankOf j ∈ [0, 1] := by
    unfold bankOf
    split <;> decide
  have hwrite : (mcp2515WriteNregs (rxfsidh j) zeroRegs).run exec d =
      some ((), { d with chip := d.chip.withoutFilter j }) := rfl
  rw [clearRxFilter_eq (lt_of_mem_hardwareSlots hj), run_bind, hwrite, Chip.clearedFilter]
  generalize d.chip.withoutFilter j = cleared at hcleared
  simp only [Option.bind_some]
  rw [run_bind, run_allEmpty hcleared (lt_of_mem_filtersOfMask hbank), all_filtersOfMask]
  simp only [Option.bind_some]
  by_cases hempty : bankOf j = 0 ∧ ((slotsOf 0).all fun k => isBlank (cleared.filterFile.filter k)) = true
  · rw [decide_eq_true hempty, if_pos rfl, if_pos hempty, hempty.1]
    rfl
  · rw [decide_eq_false hempty, if_neg Bool.false_ne_true, if_neg hempty]
    rfl

/-- `clear_rx_filter` in configuration mode is the function on the register file. -/
theorem run_clearRxFilter (hconfig : d.chip.inConfig) {j : ℕ} (hj : j ∈ hardwareSlots) :
    ∃ chip, (clearRxFilter (BitVec.ofNat 8 j)).run exec d = some ((), { d with chip := chip }) ∧
      chip.inConfig ∧ chip.filterFile.Same (d.chip.filterFile.clear j) := by
  have hcleared : (d.chip.withoutFilter j).inConfig :=
    Chip.inConfig_write (Chip.block_filter hj) hconfig rfl
  have hfile : (d.chip.withoutFilter j).filterFile.Same _ := filterFile_writeFilter hconfig hj rfl
  have hall : ((slotsOf 0).all fun k => isBlank ((d.chip.withoutFilter j).filterFile.filter k)) =
      (slotsOf 0).all fun k => isBlank (Function.update d.chip.filterFile.filter j zeroRegs k) := by
    rw [Bool.eq_iff_iff, List.all_eq_true, List.all_eq_true]
    exact forall₂_congr fun k hk => by rw [hfile.filter k (mem_hardwareSlots_of_slotsOf hk)]
  rw [run_clearRxFilter_at hconfig hj, Chip.clearedFilter, hall]
  refine ⟨_, rfl, ?_⟩
  by_cases hempty : bankOf j = 0 ∧
      ((slotsOf 0).all fun k => isBlank (Function.update d.chip.filterFile.filter j zeroRegs k)) = true
  · have hmem : 0 ∈ [0, 1] := by decide
    rw [if_pos hempty]
    refine ⟨Chip.inConfig_write (Chip.block_mask hmem) hcleared rfl, ?_⟩
    refine (filterFile_writeMask hcleared hmem rfl).trans ⟨hfile.filter, fun i hi => ?_⟩
    rw [FilterFile.clear, if_pos hempty]
    show Function.update (d.chip.withoutFilter j).filterFile.mask 0 zeroRegs i =
      Function.update d.chip.filterFile.mask 0 zeroRegs i
    by_cases h : i = 0
    · subst h
      rw [Function.update_self, Function.update_self]
    · rw [Function.update_of_ne h, Function.update_of_ne h, hfile.mask i hi]
  · rw [if_neg hempty]
    refine ⟨hcleared, hfile.filter, fun i hi => ?_⟩
    rw [hfile.mask i hi, FilterFile.clear, if_neg hempty]

end Programs

end Can
end Tk1Bsp
