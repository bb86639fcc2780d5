import Mathlib.Data.List.Find
import Tk1Bsp.Can.Device
import Tk1Bsp.Can.Effects
import Tk1Bsp.Can.Installation

/-!
# The frames that the filters admit

The union of all filters decides which frames come in, and the controller has no way to disable one: a
filter that is not in use is all zero, and matches the standard identifiers that agree with zero under
the mask of its bank.  The driver has no index for the last filter of the second bank, so there is
always one.  The frames that come in are the ones asked for exactly if the filters in use ask for all
that the others match (`Installation.Sealed`).
-/

namespace Tk1Bsp
namespace Can

/-! ## The register file in any mode -/

namespace FilterFile

variable {f g : FilterFile} {live : List Installed} {id : CanId} {mask : BitVec 32}

/-- The decision depends on the masks and the slots alone. -/
theorem choose_congr (h : f.Same g) {exide : Bool} {is : List ℕ} (his : ∀ i ∈ is, i ∈ [0, 1]) :
    f.choose exide mask is = g.choose exide mask is := by
  induction is with
  | nil => rfl
  | cons i is ih =>
      have hfind : ((slotsOf i).find? fun j => isBlank (f.filter j)) =
          (slotsOf i).find? fun j => isBlank (g.filter j) :=
        List.find?_congr fun j hj => by rw [h.filter j (mem_hardwareSlots_of_slotsOf hj)]
      rw [choose, choose, h.mask i (his i List.mem_cons_self), hfind,
        ih fun k hk => his k (List.mem_cons_of_mem _ hk)]

theorem same_store (h : f.Same g) {j : ℕ} (id : CanId) (mask : BitVec 32) :
    (f.store j id mask).Same (g.store j id mask) where
  filter k hk := by
    show Function.update f.filter j id.regs k = Function.update g.filter j id.regs k
    rw [Function.update_apply, Function.update_apply, h.filter k hk]
  mask i hi := by
    unfold store
    split
    · show Function.update f.mask _ _ i = Function.update g.mask _ _ i
      rw [Function.update_apply, Function.update_apply, h.mask i hi]
    · exact h.mask i hi

theorem place_congr (h : f.Same g) :
    (f.place id mask).1 = (g.place id mask).1 ∧ (f.place id mask).2.Same (g.place id mask).2 := by
  unfold place
  rw [choose_congr h fun _ hi => hi]
  cases g.choose id.exide mask [0, 1] with
  | fresh i => exact ⟨rfl, same_store h id mask⟩
  | shared j => exact ⟨rfl, same_store h id 0⟩
  | refuse => exact ⟨rfl, h⟩

theorem clear_congr (h : f.Same g) (j : ℕ) : (f.clear j).Same (g.clear j) := by
  have hfilter : ∀ k ∈ hardwareSlots,
      Function.update f.filter j zeroRegs k = Function.update g.filter j zeroRegs k := by
    intro k hk
    rw [Function.update_apply, Function.update_apply, h.filter k hk]
  have hall : ((slotsOf 0).all fun k => isBlank (Function.update f.filter j zeroRegs k)) =
      (slotsOf 0).all fun k => isBlank (Function.update g.filter j zeroRegs k) := by
    rw [Bool.eq_iff_iff, List.all_eq_true, List.all_eq_true]
    exact forall₂_congr fun k hk => by rw [hfilter k (mem_hardwareSlots_of_slotsOf hk)]
  refine ⟨hfilter, fun i hi => ?_⟩
  unfold clear
  dsimp only
  rw [hall]
  split
  · rw [Function.update_apply, Function.update_apply, h.mask i hi]
  · exact h.mask i hi

/-- Only the slot that is returned is written. -/
theorem place_filter_of_ne {j : ℕ} (hj : (f.place id mask).1 ≠ j) :
    (f.place id mask).2.filter j = f.filter j := by
  unfold place at hj ⊢
  cases hchoose : f.choose id.exide mask [0, 1] with
  | fresh i =>
      rw [hchoose] at hj
      exact Function.update_of_ne (fun h => hj (congrArg Int.ofNat h.symm)) _ _
  | shared k =>
      rw [hchoose] at hj
      exact Function.update_of_ne (fun h => hj (congrArg Int.ofNat h.symm)) _ _
  | refuse => rfl

end FilterFile

namespace Chip

variable {c c' : Chip}

theorem same_of_reg (h : ∀ a, isFilter a → c'.reg a = c.reg a) : c'.filterFile.Same c.filterFile := by
  have hquad : ∀ {a : Addr}, IsBlock a → c'.quad a = c.quad a := by
    intro a ha
    refine List.map_congr_left fun k hk => h _ ?_
    have hk4 : k < 4 := List.mem_range.1 hk
    have hval := val_add_of_block ha hk4
    have hfilter := ha.1
    have hmod := ha.2
    unfold isFilter at hfilter ⊢
    omega
  exact ⟨fun j hj => hquad (block_filter hj), fun i hi => hquad (block_mask hi)⟩

/-- A write elsewhere. -/
theorem same_write {a : Addr} (ha : ¬ isFilter a) (v : BitVec 8) :
    (c.write a v).filterFile.Same c.filterFile := by
  refine same_of_reg fun b hb => reg_write_of_ne (fun hab => ha (hab ▸ hb)) ?_
  unfold isFilter at hb
  omega

end Chip

section Programs

open Prog

variable {d : Driver}

/-- A register outside of the filters is changed. -/
theorem run_modify (a m v : BitVec 8) (ha : ¬ Chip.isFilter (toAddr a)) :
    ∃ chip, (mcp2515BitModify a m v).run exec d = some ((), { d with chip := chip }) ∧
      chip.filterFile.Same d.chip.filterFile :=
  ⟨_, rfl, Chip.same_write ha _⟩

/-- The request for configuration mode in `CANCTRL` shows up in `CANSTAT`. -/
theorem opmod_config (ctrl stat : BitVec 8) :
    ((((ctrl &&& ~~~0xE0#8) ||| (0x80#8 &&& 0xE0#8)) &&& 0xE0#8) ||| (stat &&& 0x1F#8)) >>> 5 = 4#8 := by
  have hctrl : ctrl &&& ~~~0xE0#8 &&& 0xE0#8 = 0 := by
    rw [BitVec.and_assoc]
    exact BitVec.and_zero
  rw [BitVec.and_or_distrib_right, hctrl, BitVec.ushiftRight_or_distrib,
    BitVec.ushiftRight_and_distrib]
  exact (congrArg (4#8 ||| ·) BitVec.and_zero).trans BitVec.or_zero

theorem run_setMode_config :
    ∃ chip, (setMode .config).run exec d = some ((), { d with chip := chip }) ∧
      chip.inConfig ∧ chip.filterFile.Same d.chip.filterFile := by
  have hctrl : ¬ Chip.isFilter (toAddr canctrl) := by decide
  exact ⟨_, rfl, opmod_config _ _, Chip.same_write hctrl _⟩

/-- `can_set_filter`, in any mode. -/
theorem run_canSetFilter (id : CanId) (mask : BitVec 32) :
    ∃ chip, (canSetFilter id mask).run exec d =
        some ((d.chip.filterFile.place id mask).1, { d with chip := chip }) ∧
      chip.filterFile.Same (d.chip.filterFile.place id mask).2 := by
  obtain ⟨c₁, hrun₁, hconfig, hsame₁⟩ := run_setMode_config (d := d)
  obtain ⟨c₂, hrun₂, -, hsame₂⟩ := run_setRxFilter (d := { d with chip := c₁ }) hconfig id mask
  obtain ⟨c₃, hrun₃, hsame₃⟩ := run_modify (d := { d with chip := c₂ }) (rxbctrl 0) rxbctrlRxmMask
    (RxmMode.both.code <<< 5) (by decide)
  obtain ⟨c₄, hrun₄, hsame₄⟩ := run_modify (d := { d with chip := c₃ }) (rxbctrl 1) rxbctrlRxmMask
    (RxmMode.both.code <<< 5) (by decide)
  obtain ⟨c₅, hrun₅, hsame₅⟩ := run_modify (d := { d with chip := c₄ }) canctrl 0xE0
    (OpMode.normal.code <<< 5) (by decide)
  obtain ⟨hret, hplace⟩ := @FilterFile.place_congr _ _ id mask hsame₁
  refine ⟨c₅, ?_, hsame₅.trans (hsame₄.trans (hsame₃.trans (hsame₂.trans hplace)))⟩
  rw [← hret]
  have hrx₀ : setRxMode 0 .both = mcp2515BitModify (rxbctrl 0) rxbctrlRxmMask
    (RxmMode.both.code <<< 5) := rfl
  have hrx₁ : setRxMode 1 .both = mcp2515BitModify (rxbctrl 1) rxbctrlRxmMask
    (RxmMode.both.code <<< 5) := rfl
  have hnormal : setMode .normal = mcp2515BitModify canctrl 0xE0 (OpMode.normal.code <<< 5) := rfl
  simp only [canSetFilter, bind_eq, pure_eq, run_bind, hrun₁, hrun₂, hrx₀, hrun₃, hrx₁, hrun₄,
    hnormal, hrun₅, Option.bind_some]
  rfl

/-- `can_clear_filter` for a slot of the controller, in any mode. -/
theorem run_canClearFilter {j : ℕ} (hj : j ∈ hardwareSlots) :
    ∃ chip, (canClearFilter j).run exec d = some ((), { d with chip := chip }) ∧
      chip.filterFile.Same (d.chip.filterFile.clear j) := by
  obtain ⟨c₁, hrun₁, hconfig, hsame₁⟩ := run_setMode_config (d := d)
  obtain ⟨c₂, hrun₂, -, hsame₂⟩ := run_clearRxFilter (d := { d with chip := c₁ }) hconfig hj
  obtain ⟨c₃, hrun₃, hsame₃⟩ := run_modify (d := { d with chip := c₂ }) canctrl 0xE0
    (OpMode.normal.code <<< 5) (by decide)
  refine ⟨c₃, ?_, hsame₃.trans (hsame₂.trans (FilterFile.clear_congr hsame₁ j))⟩
  have hnormal : setMode .normal = mcp2515BitModify canctrl 0xE0 (OpMode.normal.code <<< 5) := rfl
  simp only [canClearFilter, bind_eq, BitVec.ofInt_natCast, run_bind, hrun₁, hrun₂, hnormal, hrun₃,
    Option.bind_some]

end Programs

/-! ## What comes in -/

/-- The filters of the first bank let a frame into receive buffer 0, those of the second into receive
buffer 1. -/
def Chip.Admits (c : Chip) (id : CanId) : Prop :=
  ∃ j ∈ hardwareSlots,
    Accepts (c.quad (toAddr (rxfsidh j))) (c.quad (toAddr (rxmsidh (bankOf j)))) id

/-- A filter that is not in use. -/
theorem accepts_zeroRegs {mask : List (BitVec 8)} {id : CanId} :
    Accepts zeroRegs mask id ↔ id.exide = false ∧ id.id.setWidth 11 &&& sidOf mask = 0 := by
  have hexide : exideOf zeroRegs = false := rfl
  have hsid : sidOf zeroRegs &&& sidOf mask = 0 := BitVec.zero_and
  unfold Accepts
  rw [hexide]
  constructor
  · rintro ⟨hkind, hmatch⟩
    rw [← hkind, if_neg Bool.false_ne_true, hsid] at hmatch
    exact ⟨hkind.symm, hmatch.symm⟩
  · rintro ⟨hkind, hmatch⟩
    rw [hkind, if_neg Bool.false_ne_true, hsid]
    exact ⟨rfl, hmatch.symm⟩

/-- The calls of a client. -/
inductive FilterCall
  | set (id : CanId) (mask : BitVec 32)
  | clear (filterId : ℤ)

namespace Installation

variable {s s' : Installation} {a : FilterCall} {ret : ℤ}

/-- A call, and what it returns. -/
inductive Call : Installation → FilterCall → ℤ → Installation → Prop
  | set {s : Installation} {id : CanId} {mask : BitVec 32} {ret : ℤ} {d : Driver}
      (hargs : FilterArgs id mask)
      (hrun : (canSetFilter id mask).run exec s.driver = some (ret, d)) :
      Call s (.set id mask) ret (s.add ret id mask d)
  | clear {s : Installation} {n : ℤ} {d : Driver}
      (hrun : (canClearFilter n).run exec s.driver = some ((), d)) :
      Call s (.clear n) 0 ⟨d, s.live.filter fun e => (e.slot : ℤ) ≠ n, s.returned⟩

/-- Zeros in all filter and mask registers. -/
structure Unset (s : Installation) : Prop where
  zero : ∀ a, Chip.isFilter a → s.driver.chip.reg a = 0
  live : s.live = []
  returned : s.returned = []

/-- The condition on a call: `can_clear_filter` names a slot of the driver, and the decisions of the
driver are right about the filters in use. -/
def Sensible (s : Installation) : FilterCall → Prop
  | .set id mask => s.driver.chip.filterFile.JudgesSet s.live id mask
  | .clear n => ∃ j ∈ slotsOf 0 ++ slotsOf 1, n = (j : ℕ) ∧
      s.driver.chip.filterFile.JudgesClear s.live j

/-- A call that meets the condition. -/
def SensibleCall (s : Installation) (a : FilterCall) (ret : ℤ) (s' : Installation) : Prop :=
  s.Call a ret s' ∧ s.Sensible a

/-- The filters admit exactly what was asked for. -/
def Filters (s : Installation) : Prop :=
  ∀ id : CanId, id.Valid → (s.driver.chip.Admits id ↔ ∃ e ∈ s.live, Asked e.id e.mask id)

/-- Whatever a filter that is not in use matches has been asked for. -/
def Sealed (s : Installation) : Prop :=
  ∀ j ∈ hardwareSlots, (∀ e ∈ s.live, e.slot ≠ j) → ∀ id : CanId, id.Valid → id.exide = false →
    id.id.setWidth 11 &&& sidOf (s.driver.chip.quad (toAddr (rxmsidh (bankOf j)))) = 0 →
      ∃ e ∈ s.live, Asked e.id e.mask id

/-- The invariant: the filters in use have their meaning, and the others are zero. -/
structure Kept (s : Installation) : Prop where
  holds : ∀ e ∈ s.live, s.driver.chip.filterFile.Holds e
  free : ∀ j ∈ hardwareSlots, (∀ e ∈ s.live, e.slot ≠ j) →
    s.driver.chip.filterFile.filter j = zeroRegs

theorem Unset.kept (h : s.Unset) : s.Kept where
  holds e he := by
    rw [h.live] at he
    cases he
  free j hj _ := by
    have hblock := Chip.block_filter hj
    have hzero : ∀ k < 4, s.driver.chip.reg (toAddr (rxfsidh j) + Fin.ofNat 128 k) = 0 := by
      intro k hk
      have hval := Chip.val_add_of_block hblock hk
      have hfilter := hblock.1
      have hmod := hblock.2
      refine h.zero _ ?_
      unfold Chip.isFilter at hfilter ⊢
      omega
    exact List.map_congr_left (g := fun _ => 0) fun k hk => hzero k (List.mem_range.1 hk)

/-- One call. -/
theorem Kept.call (h : s.Kept) (hcall : s.SensibleCall a ret s') : s'.Kept := by
  obtain ⟨hcall, hsensible⟩ := hcall
  cases hcall with
  | @set id mask _ d hargs hrun =>
      obtain ⟨chip, hspec, hsame⟩ := run_canSetFilter (d := s.driver) id mask
      obtain ⟨hret, rfl⟩ := Prod.mk.inj (Option.some.inj (hrun.symm.trans hspec))
      obtain ⟨hkept, hnew⟩ := FilterFile.place_of_judges hargs hsensible h.holds
      have hfree : ∀ j ∈ hardwareSlots, ret ≠ j → (∀ e ∈ s.live, e.slot ≠ j) →
          chip.filterFile.filter j = zeroRegs := by
        intro j hj hne hlive
        rw [hsame.filter j hj, FilterFile.place_filter_of_ne (hret ▸ hne)]
        exact h.free j hj hlive
      rw [← hret] at hnew
      unfold add
      split
      · rename_i hpos
        have hslot : ret = (ret.toNat : ℕ) := (Int.toNat_of_nonneg hpos).symm
        refine ⟨fun e he => ?_, fun j hj hlive => hfree j hj (fun hc => ?_) fun e he =>
          hlive e (List.mem_append_left _ he)⟩
        · rcases List.mem_append.1 he with he | he
          · exact (hkept e he).1.of_same hsame
          · obtain rfl := List.mem_singleton.1 he
            exact (hnew ret.toNat hslot).of_same hsame
        · refine hlive ⟨ret.toNat, id, mask⟩ (List.mem_append_right _ List.mem_cons_self) ?_
          exact Int.ofNat.inj (hslot.symm.trans hc)
      · rename_i hneg
        exact ⟨fun e he => (hkept e he).1.of_same hsame,
          fun j hj => hfree j hj fun hc => hneg (hc ▸ Int.natCast_nonneg j)⟩
  | @clear n d hrun =>
      obtain ⟨j, hj, rfl, hjudge⟩ := hsensible
      have hall : ∀ j ∈ slotsOf 0 ++ slotsOf 1, j ∈ hardwareSlots := by decide
      obtain ⟨chip, hspec, hsame⟩ := run_canClearFilter (d := s.driver) (hall j hj)
      obtain ⟨-, rfl⟩ := Prod.mk.inj (Option.some.inj (hrun.symm.trans hspec))
      have hkept := FilterFile.clear_of_judges hjudge h.holds
      have hlive : ∀ e, e ∈ s.live.filter (fun e => (e.slot : ℤ) ≠ j) ↔ e ∈ s.live ∧ e.slot ≠ j := by
        intro e
        rw [List.mem_filter, decide_eq_true_eq, Ne, Int.natCast_inj]
      refine ⟨fun e he => ?_, fun k hk hfree => ?_⟩
      · obtain ⟨hmem, hne⟩ := (hlive e).1 he
        exact (hkept e hmem hne).1.of_same hsame
      · rw [hsame.filter k hk]
        show Function.update s.driver.chip.filterFile.filter j zeroRegs k = zeroRegs
        by_cases hkj : k = j
        · subst hkj
          exact Function.update_self ..
        · rw [Function.update_of_ne hkj]
          refine h.free k hk fun e he hek => hfree e ((hlive e).2 ⟨he, ?_⟩) hek
          exact fun hej => hkj (hek.symm.trans hej)

/-- Where the calls meet the condition, exactly what was asked for comes in if and only if the filters
in use ask for all that the others match. -/
theorem filters_iff_sealed (h : Transition.Reachable SensibleCall Unset s) :
    s.Filters ↔ s.Sealed := by
  have hkept : s.Kept :=
    h.invariant (I := Kept) (fun _ => Unset.kept) fun _ _ _ _ hI hcall => hI.call hcall
  constructor
  · intro hfilters j hj hfree id hvalid hkind hmatch
    refine (hfilters id hvalid).1 ⟨j, hj, ?_⟩
    have hzero : s.driver.chip.quad (toAddr (rxfsidh j)) = zeroRegs := hkept.free j hj hfree
    rw [hzero]
    exact accepts_zeroRegs.2 ⟨hkind, hmatch⟩
  · intro hsealed id hvalid
    constructor
    · rintro ⟨j, hj, haccepts⟩
      by_cases hused : ∃ e ∈ s.live, e.slot = j
      · obtain ⟨e, he, rfl⟩ := hused
        exact ⟨e, he, ((hkept.holds e he).encodes id hvalid).1 haccepts⟩
      · have hfree : ∀ e ∈ s.live, e.slot ≠ j := fun e he hej => hused ⟨e, he, hej⟩
        have hzero : s.driver.chip.quad (toAddr (rxfsidh j)) = zeroRegs := hkept.free j hj hfree
        rw [hzero, accepts_zeroRegs] at haccepts
        exact hsealed j hj hfree id hvalid haccepts.1 haccepts.2
    · rintro ⟨e, he, hasked⟩
      obtain ⟨i, -, hslot⟩ := (hkept.holds e he).slot
      exact ⟨e.slot, mem_hardwareSlots_of_slotsOf hslot,
        ((hkept.holds e he).encodes id hvalid).2 hasked⟩

/-- All zero, in normal mode. -/
def unset : Installation where
  driver := (System.booted ⟨fun _ => 0⟩ fun _ => .bare 0).driver
  live := []
  returned := []

theorem unset_initial : unset.Unset := ⟨fun _ _ => rfl, rfl, rfl⟩

/-- A filter for one identifier, and then one for all of them, which goes into the other bank. -/
theorem run_one_and_all : ((canSetFilter (standard 0x123) 0x7FF).run exec unset.driver).bind (fun r =>
    ((canSetFilter (standard 0) 0).run exec r.2).map fun r' =>
      (r.1, r'.1, r.2.chip.filterFile.choose false 0 [0, 1], r.2.chip.filterFile.mask 1)) =
    some (0, 2, .fresh 1, zeroRegs) := rfl

/-- The filter for one identifier is cleared again: all standard identifiers come in, as asked. -/
theorem filters_iff_sealed_all : ∃ s : Installation, s.live = [⟨2, standard 0, 0⟩] ∧ s.Filters := by
  obtain ⟨⟨ret, d⟩, hfirst, hrest⟩ := Option.bind_eq_some_iff.1 run_one_and_all
  obtain ⟨⟨ret', d'⟩, hsecond, hregs⟩ := Option.map_eq_some_iff.1 hrest
  obtain ⟨(hret : ret = 0), hregs⟩ := Prod.mk.inj hregs
  obtain ⟨(hret' : ret' = 2), hregs⟩ := Prod.mk.inj hregs
  obtain ⟨(hchoose : d.chip.filterFile.choose false 0 [0, 1] = .fresh 1),
    (hmask : d.chip.filterFile.mask 1 = zeroRegs)⟩ := Prod.mk.inj hregs
  subst hret hret'
  have hunset : unset.driver.chip.filterFile.choose false 0x7FF [0, 1] = .fresh 0 := rfl
  have hsensible : unset.Sensible (.set (standard 0x123) 0x7FF) :=
    ⟨fun i _ => ⟨nofun, fun h => absurd h (by decide)⟩, fun j hj => by cases hunset.symm.trans hj⟩
  have hsensible' : (unset.add 0 (standard 0x123) 0x7FF d).Sensible (.set (standard 0) 0) := by
    refine ⟨fun i hi => ?_, fun j hj => (by cases hchoose.symm.trans hj)⟩
    cases hchoose.symm.trans hi
    refine ⟨fun e he => ?_, fun _ => ?_⟩
    · obtain rfl := List.mem_singleton.1 he
      exact Nat.zero_ne_one
    · show MaskIs (d.chip.filterFile.mask 1) _ _
      rw [hmask]
      decide
  have hsensible'' : ((unset.add 0 (standard 0x123) 0x7FF d).add 2 (standard 0) 0 d').Sensible
      (.clear 0) := by
    refine ⟨0, by decide, rfl, fun _ _ e he hne => ?_⟩
    have hlive : e ∈ [⟨0, standard 0x123, 0x7FF⟩, ⟨2, standard 0, 0⟩] := he
    rcases List.mem_cons.1 hlive with rfl | hlive
    · exact absurd rfl hne
    · obtain rfl := List.mem_singleton.1 hlive
      decide
  obtain ⟨chip, hclear, -⟩ :=
    run_canClearFilter (d := ((unset.add 0 (standard 0x123) 0x7FF d).add 2 (standard 0) 0 d').driver)
      (j := 0) (by decide)
  have hboth : Transition.Reachable SensibleCall Unset
      ((unset.add 0 (standard 0x123) 0x7FF d).add 2 (standard 0) 0 d') :=
    ((Transition.Reachable.of_init unset_initial).next
      ⟨.set (by decide) hfirst, hsensible⟩).next ⟨.set (by decide) hsecond, hsensible'⟩
  refine ⟨_, rfl, (filters_iff_sealed (hboth.next ⟨.clear hclear, hsensible''⟩)).2 ?_⟩
  intro j _ _ id _ hkind _
  refine ⟨⟨2, standard 0, 0⟩, List.mem_cons_self, hkind, ?_⟩
  exact BitVec.and_zero.trans BitVec.and_zero.symm

/-- One filter for one identifier leaves the second bank as it is. -/
theorem run_one_filter : ((canSetFilter (standard 0x123) 0x7FF).run exec unset.driver).map (fun r =>
    (r.1, r.2.chip.quad (toAddr (rxfsidh 2)), r.2.chip.quad (toAddr (rxmsidh 1)))) =
    some (0, [0, 0, 0, 0], [0, 0, 0, 0]) := rfl

/-- The filter 0x123 with the mask 0x7FF, and the frame 0x456 comes in as well. -/
theorem not_filters_one_filter :
    ¬ ∀ s, Transition.Reachable Call Unset s → s.live ≠ [] → s.Filters := by
  intro h
  obtain ⟨⟨ret, d⟩, hrun, hregs⟩ := Option.map_eq_some_iff.1 run_one_filter
  obtain ⟨(hret : ret = 0), hquads⟩ := Prod.mk.inj hregs
  obtain ⟨hfilter, hmask⟩ := Prod.mk.inj hquads
  subst hret
  have hcall : Transition.Reachable Call Unset (unset.add 0 (standard 0x123) 0x7FF d) :=
    (Transition.Reachable.of_init unset_initial).next (.set (by decide) hrun)
  have hfilters := h _ hcall (List.cons_ne_nil _ _) (standard 0x456) (by decide)
  have hzero : Accepts (d.chip.quad (toAddr (rxfsidh 2))) (d.chip.quad (toAddr (rxmsidh 1)))
      (standard 0x456) := by
    rw [show d.chip.quad (toAddr (rxfsidh 2)) = [0, 0, 0, 0] from hfilter,
      show d.chip.quad (toAddr (rxmsidh 1)) = [0, 0, 0, 0] from hmask]
    decide
  obtain ⟨e, he, hasked⟩ := hfilters.1 ⟨2, by decide, hzero⟩
  obtain rfl := List.mem_singleton.1 he
  exact absurd hasked (by decide)

end Installation

end Can
end Tk1Bsp
