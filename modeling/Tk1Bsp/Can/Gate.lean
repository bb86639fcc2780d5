import Tk1Bsp.Can.Acceptance
import Tk1Bsp.Can.Clearing

/-!
# The gate

Three calls decide which frames come in: `can_set_filter`, `can_clear_filter` and
`can_disable_filtering`.  Together with the controller they are a gate (`Gate`), which has the
filters and masks, and a receive mode for each of the two buffers.

`can_disable_filtering` opens the gate and clears the masks, but the filters stay where they are.
The next `can_set_filter` closes the gate again.  Then the old filters of the second bank are still
there, and since their mask is zero they let in all frames of their kind
(`Gate.set_after_disable`).
-/

namespace Tk1Bsp
namespace Can

open Transition

/-! ## Receive modes -/

/-- The receive mode in a receive control register. -/
def RxmMode.ofCtrl (ctrl : BitVec 8) : RxmMode :=
  if ctrl.getLsbD 6 then if ctrl.getLsbD 5 then .any else .eidOnly
  else if ctrl.getLsbD 5 then .sidOnly
  else .both

theorem ofCtrl_modify (ctrl : BitVec 8) (mode : RxmMode) :
    RxmMode.ofCtrl ((ctrl &&& ~~~rxbctrlRxmMask) ||| ((mode.code <<< 5) &&& rxbctrlRxmMask)) =
      mode := by
  cases mode <;> simp [RxmMode.ofCtrl, RxmMode.code, rxbctrlRxmMask]

namespace Chip

variable {c : Chip} {n : Fin 2}

/-- The receive mode of a buffer. -/
def rxMode (c : Chip) (n : Fin 2) : RxmMode := .ofCtrl (c.reg (toAddr (rxbctrl n)))

theorem val_rxbctrl (n : Fin 2) : (toAddr (rxbctrl n)).val = 0x60 + 16 * n.val := by
  revert n
  decide

theorem rxMode_congr {c' : Chip}
    (h : c'.reg (toAddr (rxbctrl n)) = c.reg (toAddr (rxbctrl n))) : c'.rxMode n = c.rxMode n :=
  congrArg RxmMode.ofCtrl h

theorem rxMode_write {a : Addr} (h : toAddr (rxbctrl n) ≠ a) (v : BitVec 8) :
    (c.write a v).rxMode n = c.rxMode n := by
  have hval := val_rxbctrl n
  exact rxMode_congr (reg_write_of_ne h (by omega))

/-- A write elsewhere requests no transmission. -/
theorem requested_write {a : Addr} (h : ∀ i : Fin 3, toAddr (txbctrl i) ≠ a) (v : BitVec 8) :
    (c.write a v).requested = c.requested := by
  funext i
  have hval := val_txbctrl i
  rw [requested, reg_write_of_ne (h i) (by omega), requested]

/-- Neither does a write to a filter or a mask. -/
theorem requested_writeFrom {a : Addr} (h : IsBlock a) (hconfig : c.inConfig) {vs : List (BitVec 8)}
    (hlen : vs.length = 4) : (c.writeFrom a vs).requested = c.requested := by
  have hfilter := h.1
  unfold isFilter at hfilter
  funext i
  have hval := val_txbctrl i
  rw [requested, reg_write_block h hconfig hlen, if_neg (by omega), requested]

/-- The end of `can_set_filter` and of `can_disable_filtering`: both buffers get the same receive
mode, and the controller goes back to normal operation. -/
def withModes (c : Chip) (mode : RxmMode) : Chip :=
  let modify (c : Chip) (a m v : BitVec 8) : Chip :=
    c.write (toAddr a) ((c.reg (toAddr a) &&& ~~~m) ||| (v &&& m))
  modify (modify (modify c (rxbctrl 0) rxbctrlRxmMask (mode.code <<< 5)) (rxbctrl 1) rxbctrlRxmMask
    (mode.code <<< 5)) canctrl 0xE0 (OpMode.normal.code <<< 5)

theorem same_withModes (c : Chip) (mode : RxmMode) :
    (c.withModes mode).filterFile.Same c.filterFile :=
  (same_write (by decide) _).trans ((same_write (by decide) _).trans (same_write (by decide) _))

theorem rxMode_withModes (c : Chip) (mode : RxmMode) (n : Fin 2) :
    (c.withModes mode).rxMode n = mode := by
  have hctrl : ∀ n : Fin 2, toAddr (rxbctrl n) ≠ toAddr canctrl := by decide
  refine (rxMode_write (hctrl n) _).trans ?_
  fin_cases n
  · refine (rxMode_write (by decide) _).trans ?_
    exact ofCtrl_modify (c.reg (toAddr (rxbctrl 0))) mode
  · exact ofCtrl_modify _ mode

theorem requested_withModes (c : Chip) (mode : RxmMode) :
    (c.withModes mode).requested = c.requested := by
  have hne : ∀ i : Fin 3, toAddr (txbctrl i) ≠ toAddr (rxbctrl 0) ∧
      toAddr (txbctrl i) ≠ toAddr (rxbctrl 1) ∧ toAddr (txbctrl i) ≠ toAddr canctrl := by decide
  refine (requested_write (fun i => (hne i).2.2) _).trans ?_
  exact (requested_write (fun i => (hne i).2.1) _).trans (requested_write (fun i => (hne i).1) _)

end Chip

/-! ## The gate -/

/-- The filters and masks, and the receive mode of each buffer. -/
structure Gate where
  file : FilterFile
  mode : Fin 2 → RxmMode

/-- The gate that the registers are. -/
def Chip.gate (c : Chip) : Gate := ⟨c.filterFile, c.rxMode⟩

/-- A frame matches a filter of a buffer. -/
def FilterFile.Matches (f : FilterFile) (n : Fin 2) (id : CanId) : Prop :=
  ∃ j ∈ hardwareSlots, bankOf j = n ∧ Accepts (f.filter j) (f.mask n) id

/-- The calls of a client. -/
inductive GateCall
  | set (id : CanId) (mask : BitVec 32)
  | clear (filterId : ℕ)
  | disable

namespace GateCall

/-- What the driver does. -/
def body : GateCall → Io ℤ
  | set id mask => canSetFilter id mask
  | clear filterId => do
      canClearFilter filterId
      return 0
  | disable => do
      canDisableFiltering
      return 0

/-- `can_clear_filter` is for a filter of the controller. -/
def Valid : GateCall → Prop
  | clear filterId => filterId ∈ hardwareSlots
  | _ => True

instance : DecidablePred Valid := fun a =>
  match a with
  | set _ _ | disable => .isTrue trivial
  | clear filterId => inferInstanceAs (Decidable (filterId ∈ hardwareSlots))

/-- A call, and what it returns. -/
def Step (d : Driver) (a : GateCall) (ret : ℤ) (d' : Driver) : Prop :=
  a.body.run exec d = some (ret, d')

end GateCall

namespace Gate

/-- A buffer takes a frame. -/
def Takes (g : Gate) (n : Fin 2) (id : CanId) : Prop :=
  match g.mode n with
  | .both => g.file.Matches n id
  | .sidOnly => g.file.Matches n id ∧ id.exide = false
  | .eidOnly => g.file.Matches n id ∧ id.exide = true
  | .any => True

/-- A frame comes in. -/
def Passes (g : Gate) (id : CanId) : Prop := ∃ n, g.Takes n id

/-- What a call does with the gate. -/
def call (g : Gate) : GateCall → ℤ × Gate
  | .set id mask => ((g.file.place id mask).1, ⟨(g.file.place id mask).2, fun _ => .both⟩)
  | .clear filterId => (0, ⟨g.file.clear filterId, g.mode⟩)
  | .disable => (0, ⟨⟨g.file.filter, fun _ => zeroRegs⟩, fun _ => .any⟩)

/-- The gate after some calls. -/
def after (g : Gate) (as : List GateCall) : Gate := as.foldl (fun g a => (g.call a).2) g

/-- The same filters, masks and modes. -/
structure Same (g g' : Gate) : Prop where
  file : g.file.Same g'.file
  mode : g.mode = g'.mode

variable {g g' g'' : Gate} {id : CanId}

theorem Same.refl (g : Gate) : g.Same g := ⟨⟨fun _ _ => rfl, fun _ _ => rfl⟩, rfl⟩

theorem Same.trans (h : g.Same g') (h' : g'.Same g'') : g.Same g'' :=
  ⟨h.file.trans h'.file, h.mode.trans h'.mode⟩

theorem Same.call (h : g.Same g') (a : GateCall) :
    (g.call a).1 = (g'.call a).1 ∧ (g.call a).2.Same (g'.call a).2 := by
  cases a with
  | set id mask =>
      obtain ⟨hret, hplace⟩ := @FilterFile.place_congr _ _ id mask h.file
      exact ⟨hret, hplace, rfl⟩
  | clear filterId => exact ⟨rfl, FilterFile.clear_congr h.file filterId, h.mode⟩
  | disable => exact ⟨rfl, ⟨h.file.filter, fun _ _ => rfl⟩, rfl⟩

theorem Same.matches (h : g.Same g') (n : Fin 2) :
    g.file.Matches n id ↔ g'.file.Matches n id := by
  have hmask : g.file.mask n = g'.file.mask n := by
    refine h.file.mask n ?_
    revert n
    decide
  unfold FilterFile.Matches
  refine exists_congr fun j => and_congr_right fun hj => ?_
  rw [h.file.filter j hj, hmask]

theorem Same.passes (h : g.Same g') : g.Passes id ↔ g'.Passes id := by
  refine exists_congr fun n => ?_
  unfold Takes
  rw [h.mode]
  cases g'.mode n with
  | both | sidOnly | eidOnly => simp only [h.matches n]
  | any => rfl

end Gate

/-! ## The calls of the driver -/

section Programs

open Prog

variable {d d' : Driver}

theorem bankOf_mem (j : ℕ) : bankOf j ∈ [0, 1] := by
  unfold bankOf
  split <;> decide

/-- The receive control registers are not among those of a filter or a mask. -/
theorem not_inBlock_rxbctrl {a : Addr} (h : Chip.IsBlock a) (n : Fin 2) :
    ¬ InBlock a (toAddr (rxbctrl n)) := by
  have hfilter := h.1
  have hval := Chip.val_rxbctrl n
  unfold Chip.isFilter at hfilter
  rintro ⟨-, hlt⟩
  omega

/-- Neither are the transmit control registers. -/
theorem not_inBlock_txbctrl {a : Addr} (h : Chip.IsBlock a) (i : Fin 3) :
    ¬ InBlock a (toAddr (txbctrl i)) := by
  have hfilter := h.1
  have hval := Chip.val_txbctrl i
  unfold Chip.isFilter at hfilter
  rintro ⟨-, hlt⟩
  omega

/-- A change of mode has nothing to do with the gate. -/
theorem run_setMode (d : Driver) (mode : OpMode) :
    ∃ chip, (setMode mode).run exec d = some ((), { d with chip := chip }) ∧
      chip.filterFile.Same d.chip.filterFile ∧ chip.rxMode = d.chip.rxMode ∧
      chip.requested = d.chip.requested ∧ (mode = .config → chip.inConfig) := by
  have hctrl : ¬ Chip.isFilter (toAddr canctrl) := by decide
  have hne : ∀ n : Fin 2, toAddr (rxbctrl n) ≠ toAddr canctrl := by decide
  have hne' : ∀ i : Fin 3, toAddr (txbctrl i) ≠ toAddr canctrl := by decide
  refine ⟨_, rfl, Chip.same_write hctrl _, funext fun n => Chip.rxMode_write (hne n) _,
    Chip.requested_write hne' _, ?_⟩
  rintro rfl
  exact opmod_config _ _

/-- Installing a filter requests no transmission. -/
theorem requested_writeToFilter (hconfig : d.chip.inConfig) {j : ℕ} (hj : j ∈ hardwareSlots)
    {id : CanId} {mask : BitVec 32}
    (hrun : (writeToFilter (BitVec.ofNat 8 j) id mask).run exec d = some ((), d')) :
    d'.chip.requested = d.chip.requested := by
  have hlt := lt_of_mem_hardwareSlots hj
  have hidx : (BitVec.ofNat 8 j).toNat = j := Nat.mod_eq_of_lt (by omega)
  by_cases hmask : mask = 0
  · subst hmask
    rw [writeToFilter, hidx] at hrun
    obtain ⟨-, rfl⟩ := Prod.mk.inj (Option.some.inj hrun)
    exact Chip.requested_writeFrom (Chip.block_filter hj) hconfig rfl
  · have hblock := Chip.block_mask (bankOf_mem j)
    have hlen : (maskRegs id.exide mask).length = 4 := rfl
    have hmasked := Chip.inConfig_write hblock hconfig hlen
    rw [writeToFilter, writeMask_eq hlt id hmask, hidx] at hrun
    obtain ⟨-, rfl⟩ := Prod.mk.inj (Option.some.inj hrun)
    exact (Chip.requested_writeFrom (Chip.block_filter hj) hmasked rfl).trans
      (Chip.requested_writeFrom hblock hconfig rfl)

theorem requested_setRxFilter (hconfig : d.chip.inConfig) {id : CanId} {mask : BitVec 32} {ret : ℤ}
    (hrun : (setRxFilter id mask).run exec d = some (ret, d')) :
    d'.chip.requested = d.chip.requested := by
  rw [setRxFilter, run_setRxFilterLoop hconfig id mask fun _ h => h] at hrun
  split at hrun
  · rename_i i hchoose
    obtain ⟨hi, -⟩ := FilterFile.mem_of_fresh hchoose
    obtain ⟨_, d₁, hstore, hrest⟩ := of_run_bind hrun
    obtain ⟨-, rfl⟩ := Prod.mk.inj (Option.some.inj hrest)
    exact requested_writeToFilter hconfig
      (mem_hardwareSlots_of_slotsOf (fresh_mem_slotsOf hi)) hstore
  · rename_i j hchoose
    obtain ⟨i, -, hslot, -⟩ := FilterFile.mem_of_shared hchoose
    obtain ⟨_, d₁, hstore, hrest⟩ := of_run_bind hrun
    obtain ⟨-, rfl⟩ := Prod.mk.inj (Option.some.inj hrest)
    exact requested_writeToFilter hconfig (mem_hardwareSlots_of_slotsOf hslot) hstore
  · obtain ⟨-, rfl⟩ := Prod.mk.inj (Option.some.inj hrun)
    rfl

theorem run_set (d : Driver) (id : CanId) (mask : BitVec 32) :
    ∃ chip, (canSetFilter id mask).run exec d =
        some ((d.chip.filterFile.place id mask).1, { d with chip := chip }) ∧
      chip.filterFile.Same (d.chip.filterFile.place id mask).2 ∧ (chip.rxMode = fun _ => .both) ∧
      chip.requested = d.chip.requested := by
  obtain ⟨c₁, hrun₁, hsame₁, -, hreq₁, hconfig⟩ := run_setMode d .config
  have hconfig := hconfig rfl
  obtain ⟨c₂, hrun₂, -, hsame₂⟩ := run_setRxFilter (d := { d with chip := c₁ }) hconfig id mask
  have hreq₂ := requested_setRxFilter (d := { d with chip := c₁ }) hconfig hrun₂
  obtain ⟨hret, hplace⟩ := @FilterFile.place_congr _ _ id mask hsame₁
  refine ⟨c₂.withModes .both, ?_, (c₂.same_withModes .both).trans (hsame₂.trans hplace),
    funext (c₂.rxMode_withModes .both), (c₂.requested_withModes .both).trans (hreq₂.trans hreq₁)⟩
  rw [← hret]
  simp only [canSetFilter, bind_eq, run_bind, hrun₁, hrun₂, Option.bind_some]
  rfl

theorem run_clear (d : Driver) {filterId : ℕ} (h : filterId ∈ hardwareSlots) :
    ∃ chip, (canClearFilter filterId).run exec d = some ((), { d with chip := chip }) ∧
      chip.filterFile.Same (d.chip.filterFile.clear filterId) ∧ chip.rxMode = d.chip.rxMode ∧
      chip.requested = d.chip.requested := by
  obtain ⟨c₁, hrun₁, hsame₁, hmode₁, hreq₁, hconfig⟩ := run_setMode d .config
  have hconfig := hconfig rfl
  obtain ⟨c₂, hrun₂, -, hsame₂⟩ := run_clearRxFilter (d := { d with chip := c₁ }) hconfig h
  have hcleared : c₂ = c₁.clearedFilter filterId :=
    congrArg (fun rd => rd.2.chip)
      (Option.some.inj (hrun₂.symm.trans (run_clearRxFilter_at hconfig h)))
  have hmode₂ : c₂.rxMode = c₁.rxMode := by
    refine hcleared ▸ funext fun n => Chip.rxMode_congr (reg_clearedFilter hconfig h ?_ ?_)
    · exact not_inBlock_rxbctrl (Chip.block_filter h) n
    · exact not_inBlock_rxbctrl (Chip.block_mask (bankOf_mem filterId)) n
  have hreq₂ : c₂.requested = c₁.requested := by
    subst hcleared
    funext i
    rw [Chip.requested, reg_clearedFilter hconfig h ?_ ?_, Chip.requested]
    · exact not_inBlock_txbctrl (Chip.block_filter h) i
    · exact not_inBlock_txbctrl (Chip.block_mask (bankOf_mem filterId)) i
  obtain ⟨c₃, hrun₃, hsame₃, hmode₃, hreq₃, -⟩ := run_setMode { d with chip := c₂ } .normal
  refine ⟨c₃, ?_, hsame₃.trans (hsame₂.trans (FilterFile.clear_congr hsame₁ filterId)),
    hmode₃.trans (hmode₂.trans hmode₁), hreq₃.trans (hreq₂.trans hreq₁)⟩
  simp only [canClearFilter, bind_eq, BitVec.ofInt_natCast, run_bind, hrun₁, hrun₂, hrun₃,
    Option.bind_some]

theorem run_disable (d : Driver) :
    ∃ chip, canDisableFiltering.run exec d = some ((), { d with chip := chip }) ∧
      chip.filterFile.Same ⟨d.chip.filterFile.filter, fun _ => zeroRegs⟩ ∧
      (chip.rxMode = fun _ => .any) ∧ chip.requested = d.chip.requested := by
  obtain ⟨c₁, hrun₁, hsame₁, -, hreq₁, hconfig⟩ := run_setMode d .config
  have hconfig := hconfig rfl
  let c₂ := c₁.writeFrom (toAddr (rxmsidh 0)) zeroRegs
  let c₃ := c₂.writeFrom (toAddr (rxmsidh 1)) zeroRegs
  have hmem₀ : 0 ∈ [0, 1] := by decide
  have hmem₁ : 1 ∈ [0, 1] := by decide
  have hconfig₂ : c₂.inConfig := Chip.inConfig_write (Chip.block_mask hmem₀) hconfig rfl
  have hsame₂ : c₂.filterFile.Same _ := filterFile_writeMask hconfig hmem₀ rfl
  have hsame₃ : c₃.filterFile.Same _ := filterFile_writeMask hconfig₂ hmem₁ rfl
  have hreq₂ : c₂.requested = c₁.requested :=
    Chip.requested_writeFrom (Chip.block_mask hmem₀) hconfig rfl
  have hreq₃ : c₃.requested = c₂.requested :=
    Chip.requested_writeFrom (Chip.block_mask hmem₁) hconfig₂ rfl
  refine ⟨c₃.withModes .any, ?_, (c₃.same_withModes .any).trans ?_,
    funext (c₃.rxMode_withModes .any),
    (c₃.requested_withModes .any).trans (hreq₃.trans (hreq₂.trans hreq₁))⟩
  · simp only [canDisableFiltering, bind_eq, run_bind, hrun₁, Option.bind_some]
    rfl
  · have hfilter : ∀ j ∈ hardwareSlots, c₂.filterFile.filter j = d.chip.filterFile.filter j :=
      fun j hj => (hsame₂.filter j hj).trans (hsame₁.filter j hj)
    refine hsame₃.trans ⟨hfilter, fun i hi => ?_⟩
    show Function.update c₂.filterFile.mask 1 zeroRegs i = zeroRegs
    by_cases h : i = 1
    · rw [h, Function.update_self]
    · rw [Function.update_of_ne h, hsame₂.mask i hi]
      have hi₀ : i = 0 := by simpa [h] using hi
      exact hi₀ ▸ Function.update_self ..

/-- A call of the driver does with the gate what it should do, and requests no transmission. -/
theorem run_gateCall (d : Driver) {a : GateCall} (h : a.Valid) :
    ∃ chip, GateCall.Step d a (d.chip.gate.call a).1 { d with chip := chip } ∧
      chip.gate.Same (d.chip.gate.call a).2 ∧ chip.requested = d.chip.requested := by
  cases a with
  | set id mask =>
      obtain ⟨chip, hrun, hsame, hmode, hreq⟩ := run_set d id mask
      exact ⟨chip, hrun, ⟨hsame, hmode⟩, hreq⟩
  | clear filterId =>
      obtain ⟨chip, hrun, hsame, hmode, hreq⟩ := run_clear d h
      refine ⟨chip, ?_, ⟨hsame, hmode⟩, hreq⟩
      simp only [GateCall.Step, GateCall.body, bind_eq, run_bind, hrun, Option.bind_some]
      rfl
  | disable =>
      obtain ⟨chip, hrun, hsame, hmode, hreq⟩ := run_disable d
      refine ⟨chip, ?_, ⟨hsame, hmode⟩, hreq⟩
      simp only [GateCall.Step, GateCall.body, bind_eq, run_bind, hrun, Option.bind_some]
      rfl

/-- The end of `can_setup`. -/
theorem run_openGate (d : Driver) :
    ∃ chip, ((setRxMode 0 .any).bind fun _ => (setMode .normal).bind fun _ => .ret (0 : ℤ)).run exec
        d = some (0, { d with chip := chip }) ∧
      chip.rxMode 0 = .any :=
  ⟨_, rfl, (Chip.rxMode_write (by decide) _).trans (ofCtrl_modify _ .any)⟩

theorem rxMode_canSetup {reads : ℕ} {baudrate : BitVec 32} {ret : ℤ}
    (hrun : (canSetup reads baudrate).run exec d = some (ret, d')) :
    d'.chip.rxMode 0 = .any := by
  simp only [canSetup, bind_eq, pure_eq] at hrun
  obtain ⟨_, d₁, -, hrun⟩ := of_run_bind hrun
  obtain ⟨_, d₂, -, hrun⟩ := of_run_bind hrun
  obtain ⟨_, d₃, -, hrun⟩ := of_run_bind hrun
  obtain ⟨_, d₄, -, hrun⟩ := of_run_bind hrun
  obtain ⟨chip, hopen, hmode⟩ := run_openGate d₄
  obtain ⟨-, rfl⟩ := Prod.mk.inj (Option.some.inj (hopen.symm.trans hrun))
  exact hmode

end Programs

/-! ## Runs -/

namespace Gate

variable {d d' : Driver} {g : Gate} {as : List GateCall} {rets : List ℤ} {id : CanId}

/-- One call of a run. -/
theorem step_iff (d : Driver) {a : GateCall} (h : a.Valid) (hg : d.chip.gate.Same g) :
    ∃ chip, (∀ ret d', GateCall.Step d a ret d' ↔
        ret = (g.call a).1 ∧ d' = { d with chip := chip }) ∧ chip.gate.Same (g.call a).2 ∧
      chip.requested = d.chip.requested := by
  obtain ⟨chip, hstep, hsame, hreq⟩ := run_gateCall d h
  obtain ⟨hret, hcall⟩ := hg.call a
  refine ⟨chip, fun ret d' => ⟨fun hs => ?_, ?_⟩, hsame.trans hcall, hreq⟩
  · obtain ⟨rfl, rfl⟩ := Prod.mk.inj (Option.some.inj (hs.symm.trans hstep))
    exact ⟨hret, rfl⟩
  · rintro ⟨rfl, rfl⟩
    exact hret ▸ hstep

/-- The gate from which a run starts may be known only up to what matters. -/
theorem run_iff (d : Driver) (h : ∀ a ∈ as, a.Valid) (hg : d.chip.gate.Same g) :
    ∃ chip, (∀ rets d', Run GateCall.Step d as rets d' ↔
        rets = answers call g as ∧ d' = { d with chip := chip }) ∧
      chip.gate.Same (g.after as) ∧ chip.requested = d.chip.requested := by
  induction as generalizing d g with
  | nil =>
      refine ⟨d.chip, fun rets d' => ⟨fun hrun => ?_, ?_⟩, hg, rfl⟩
      · cases hrun
        exact ⟨rfl, rfl⟩
      · rintro ⟨rfl, rfl⟩
        exact .nil d
  | cons a as ih =>
      obtain ⟨ha, has⟩ := List.forall_mem_cons.1 h
      obtain ⟨chip₁, hstep, hsame, hreq₁⟩ := step_iff d ha hg
      obtain ⟨chip, hrun, hafter, hreq⟩ := ih { d with chip := chip₁ } has hsame
      refine ⟨chip, fun rets d' => ⟨fun hs => ?_, ?_⟩, hafter, hreq.trans hreq₁⟩
      · cases hs with
        | cons hs hrest =>
            obtain ⟨rfl, rfl⟩ := (hstep _ _).1 hs
            obtain ⟨rfl, rfl⟩ := (hrun _ _).1 hrest
            exact ⟨rfl, rfl⟩
      · rintro ⟨rfl, rfl⟩
        exact .cons ((hstep _ _).2 ⟨rfl, rfl⟩) ((hrun _ _).2 ⟨rfl, rfl⟩)

/-- Any calls, in any state of the controller in which no transmission is requested, return what the
gate returns, and leave the registers of the gate behind.  They change nothing but the registers of
the controller, and request no transmission: the controller is never kept from its mode. -/
theorem calls_refine (d : Driver) (h : ∀ a ∈ as, a.Valid)
    (hidle : ∀ i, d.chip.requested i = false) :
    ∃ chip, (∀ rets d', Run GateCall.Step d as rets d' ↔
        rets = answers call d.chip.gate as ∧ d' = { d with chip := chip }) ∧
      chip.gate.Same (d.chip.gate.after as) ∧ ∀ i, chip.requested i = false := by
  obtain ⟨chip, hrun, hafter, hreq⟩ := run_iff d h (.refl _)
  exact ⟨chip, hrun, hafter, fun i => (congrFun hreq i).trans (hidle i)⟩

/-- Set a filter, disable filtering, clear the filter. -/
def threeCalls : List GateCall := [.set ⟨0x123, false, false⟩ 0x7FF, .disable, .clear 0]

/-- The driver with a controller whose registers are all zero. -/
def zeroDriver : Driver := (System.booted ⟨fun _ => 0⟩ fun _ => .bare 0).driver

theorem calls_refine_three :
    ∃ chip, (∀ rets d', Run GateCall.Step zeroDriver threeCalls rets d' ↔
        rets = [0, 0, 0] ∧ d' = { zeroDriver with chip := chip }) ∧
      chip.gate.Same (zeroDriver.chip.gate.after threeCalls) ∧ ∀ i, chip.requested i = false :=
  calls_refine zeroDriver (by decide) (by decide)

/-! ### What comes in -/

/-- With filters in both buffers, a frame comes in if one of them matches. -/
theorem passes_iff_matches (h : g.mode = fun _ => .both) :
    g.Passes id ↔
      ∃ j ∈ hardwareSlots, Accepts (g.file.filter j) (g.file.mask (bankOf j)) id := by
  unfold Passes Takes
  simp only [h, FilterFile.Matches]
  constructor
  · rintro ⟨n, j, hj, hbank, haccepts⟩
    exact ⟨j, hj, hbank ▸ haccepts⟩
  · rintro ⟨j, hj, haccepts⟩
    have hlt : bankOf j < 2 := by
      unfold bankOf
      split <;> decide
    exact ⟨⟨bankOf j, hlt⟩, j, hj, rfl, haccepts⟩

theorem passes_of_any (h : g.mode 0 = .any) (id : CanId) : g.Passes id := by
  refine ⟨0, ?_⟩
  unfold Takes
  rw [h]
  trivial

/-- Every `can_set_filter` has been followed by a `can_disable_filtering`. -/
def Open (as : List GateCall) : Prop :=
  ∀ as₁ id mask as₂, as = as₁ ++ .set id mask :: as₂ → .disable ∈ as₂

theorem open_concat (as : List GateCall) (a : GateCall) :
    Open (as ++ [a]) ↔ a = .disable ∨ Open as ∧ ∀ id mask, a ≠ .set id mask := by
  constructor
  · intro h
    by_cases ha : a = .disable
    · exact .inl ha
    · refine .inr ⟨fun as₁ id mask as₂ heq => ?_, fun id mask heq => ?_⟩
      · have hmem := h as₁ id mask (as₂ ++ [a]) (by rw [heq]; simp)
        simpa [Ne.symm ha] using hmem
      · exact List.not_mem_nil (h as id mask [] (by rw [heq]))
  · rintro h as₁ id mask as₂ heq
    obtain rfl | ⟨as₃, b, rfl⟩ := as₂.eq_nil_or_concat'
    · obtain ⟨-, hlast⟩ := List.append_inj' heq rfl
      obtain rfl := List.singleton_inj.1 hlast
      obtain h | ⟨-, hne⟩ := h
      · cases h
      · exact absurd rfl (hne id mask)
    · rw [← List.cons_append, ← List.append_assoc] at heq
      obtain ⟨rfl, hb⟩ := List.append_inj' heq rfl
      obtain rfl := List.singleton_inj.1 hb
      obtain rfl | ⟨hopen, -⟩ := h
      · simp
      · exact List.mem_append_left _ (hopen as₁ id mask as₃ rfl)

theorem after_concat (g : Gate) (as : List GateCall) (a : GateCall) :
    g.after (as ++ [a]) = ((g.after as).call a).2 :=
  List.foldl_concat ..

/-- The receive modes after some calls, if the gate is open at first. -/
theorem mode_after (hg : g.mode 0 = .any) (as : List GateCall) :
    Open as ∧ (g.after as).mode 0 = .any ∨ ¬ Open as ∧ (g.after as).mode = fun _ => .both := by
  induction as using List.reverseRecOn with
  | nil => exact .inl ⟨fun as₁ id mask as₂ heq => absurd heq (by simp), hg⟩
  | append_singleton as a ih =>
      rw [open_concat, after_concat]
      cases a with
      | set id mask => exact .inr ⟨by simp, rfl⟩
      | clear filterId => simpa [call] using ih
      | disable => exact .inl ⟨.inl rfl, rfl⟩

/-- After `can_setup` and any calls, a frame comes in if no `can_set_filter` has come after the last
`can_disable_filtering`, or if one of the filters in the registers matches it. -/
theorem passes_iff_open {d₀ : Driver} {reads : ℕ} {baudrate : BitVec 32} {ret : ℤ}
    (hsetup : (canSetup reads baudrate).run exec d = some (ret, d₀)) (h : ∀ a ∈ as, a.Valid)
    (hrun : Run GateCall.Step d₀ as rets d') (id : CanId) :
    d'.chip.gate.Passes id ↔ Open as ∨ d'.chip.Admits id := by
  obtain ⟨chip, hiff, hsame, -⟩ := run_iff d₀ h (.refl _)
  obtain ⟨-, rfl⟩ := (hiff rets d').1 hrun
  have hstart : d₀.chip.gate.mode 0 = .any := rxMode_canSetup hsetup
  obtain ⟨hopen, hmode⟩ | ⟨hclosed, hmode⟩ := mode_after hstart as
  · refine iff_of_true (passes_of_any ?_ id) (.inl hopen)
    rw [hsame.mode]
    exact hmode
  · rw [or_iff_right hclosed]
    exact passes_iff_matches (hsame.mode.trans hmode)

theorem passes_iff_open_three :
    ∃ (ret : ℤ) (d₀ : Driver) (rets : List ℤ) (d' : Driver),
      (canSetup 1 125000).run exec zeroDriver = some (ret, d₀) ∧
        Run GateCall.Step d₀ threeCalls rets d' ∧
        ∀ id, d'.chip.gate.Passes id ↔ Open threeCalls ∨ d'.chip.Admits id := by
  have hsome : ((canSetup 1 125000).run exec zeroDriver).isSome := rfl
  obtain ⟨⟨ret, d₀⟩, hsetup⟩ := Option.isSome_iff_exists.1 hsome
  have hvalid : ∀ a ∈ threeCalls, a.Valid := by decide
  obtain ⟨chip, hiff, -⟩ := run_iff d₀ hvalid (.refl _)
  have hrun := (hiff _ _).2 ⟨rfl, rfl⟩
  exact ⟨ret, d₀, _, _, hsetup, hrun, passes_iff_open hsetup hvalid hrun⟩

/-- A filter under a mask without bits matches all frames of its kind. -/
theorem accepts_under_zeroRegs {filter : List (BitVec 8)} :
    Accepts filter zeroRegs id ↔ exideOf filter = id.exide := by
  have hboth : bothOf zeroRegs = 0 := by decide
  have hsid : sidOf zeroRegs = 0 := by decide
  refine and_iff_left ?_
  rw [hboth, hsid]
  split
  · exact BitVec.and_zero.trans BitVec.and_zero.symm
  · exact BitVec.and_zero.trans BitVec.and_zero.symm

/-- Where both masks are zero, a filter goes to the first slot of the first bank. -/
theorem place_zeroRegs (filter : ℕ → List (BitVec 8)) (id : CanId) {mask : BitVec 32}
    (hmask : mask ≠ 0) :
    FilterFile.place ⟨filter, fun _ => zeroRegs⟩ id mask =
      (0, ⟨Function.update filter 0 id.regs,
        Function.update (fun _ => zeroRegs) 0 (maskRegs id.exide mask)⟩) := by
  have hcur : ∀ exide, (curMask zeroRegs exide).1 = 0 ∧ (curMask zeroRegs exide).2 = 0 := by decide
  have hchoose : FilterFile.choose ⟨filter, fun _ => zeroRegs⟩ id.exide mask [0, 1] = .fresh 0 :=
    if_pos (hcur id.exide)
  unfold FilterFile.place
  rw [hchoose]
  show (_, FilterFile.store _ 0 id mask) = _
  rw [FilterFile.store, if_pos hmask]
  rfl

/-- What comes in when filtering has been disabled, in whatever state in which no transmission is
requested, and then one filter is set: the frames that are asked for, those that the old filter 1
matches under the new mask, and all frames that are of the kind of an old filter of the second
bank. -/
theorem set_after_disable {mask : BitVec 32} (hargs : FilterArgs id mask) (hmask : mask ≠ 0)
    (hidle : ∀ i, d.chip.requested i = false)
    (hrun : Run GateCall.Step d [.disable, .set id mask] rets d') :
    rets = [0, 0] ∧ (∀ i, d'.chip.requested i = false) ∧ ∀ id' : CanId, id'.Valid →
      (d'.chip.gate.Passes id' ↔ Asked id mask id' ∨
        Accepts (d.chip.filterFile.filter 1) (maskRegs id.exide mask) id' ∨
        ∃ j ∈ [2, 4, 5, 6], exideOf (d.chip.filterFile.filter j) = id'.exide) := by
  have hvalid : ∀ a ∈ [GateCall.disable, .set id mask], a.Valid := by
    simp [GateCall.Valid]
  obtain ⟨chip, hiff, hsame, hreq⟩ := run_iff d hvalid (.refl _)
  obtain ⟨rfl, rfl⟩ := (hiff rets d').1 hrun
  have hplace := place_zeroRegs d.chip.filterFile.filter id hmask
  refine ⟨?_, fun i => (congrFun hreq i).trans (hidle i), fun id' hid' => ?_⟩
  · show [0, (FilterFile.place ⟨d.chip.filterFile.filter, fun _ => zeroRegs⟩ id mask).1] = [0, 0]
    rw [hplace]
  · have hasked := encodes_regs (maskIs_maskRegs hargs) id' hid'
    refine hsame.passes.trans ((passes_iff_matches rfl).trans ?_)
    show (∃ j ∈ hardwareSlots, Accepts
        ((FilterFile.place ⟨d.chip.filterFile.filter, fun _ => zeroRegs⟩ id mask).2.filter j)
        ((FilterFile.place ⟨d.chip.filterFile.filter, fun _ => zeroRegs⟩ id mask).2.mask (bankOf j))
        id') ↔ _
    rw [hplace]
    simp [hardwareSlots, bankOf, filtsOfMask0, accepts_under_zeroRegs, hasked]

/-- The filter asks for one standard identifier, and another one comes in as well. -/
theorem set_after_disable_standard :
    ∃ (rets : List ℤ) (d' : Driver),
      Run GateCall.Step zeroDriver [.disable, .set ⟨0x123, false, false⟩ 0x7FF] rets d' ∧
        rets = [0, 0] ∧ (∀ i, d'.chip.requested i = false) ∧
        d'.chip.gate.Passes ⟨0x456, false, false⟩ := by
  have hvalid : ∀ a ∈ [GateCall.disable, .set ⟨0x123, false, false⟩ 0x7FF], a.Valid := by decide
  obtain ⟨chip, hiff, -⟩ := run_iff zeroDriver hvalid (.refl _)
  have hrun := (hiff _ _).2 ⟨rfl, rfl⟩
  obtain ⟨hrets, hreq, hpasses⟩ := set_after_disable (by decide) (by decide) (by decide) hrun
  refine ⟨_, _, hrun, hrets, hreq, (hpasses ⟨0x456, false, false⟩ (by decide)).2 ?_⟩
  exact .inr (.inr ⟨2, List.mem_cons_self, rfl⟩)

end Gate

end Can
end Tk1Bsp
