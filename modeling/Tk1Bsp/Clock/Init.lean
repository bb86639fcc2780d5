import Mathlib.Tactic.IntervalCases
import Tk1Bsp.Framework.MaskedWrite
import Tk1Bsp.Clock.Forward

/-!
# The initialization of the clocks

This file embeds `components/clkcar/src/clkcar.c`.  The SPI driver and the UART drivers have the
clock of their device initialized when they first need it.  Each initialization reads and writes
the reset and the enable register of a bank of devices, and the register that selects the clock of
its own device.  `clkcar_spi_clk_init` names the registers by raw offsets, and the functions for
the UARTs by the members of `tk1_car_regs_t`.

All that an initialization leaves is a masked write to three registers (`ClkDevice.effect`), and
different devices own different bits.  So the order of the initializations does not matter.  The
register that selects the clock of SPI1 is not cleared before its fields are set, so these fields
are right only if the boot loader has left the other bits clear (`initsReachTarget_iff`).
-/

namespace Tk1Bsp
namespace Clock

open MaskedWrite

/-! ## Registers -/

/-- `BIT(n)`. -/
def bit (n : ℕ) : BitVec 32 := 1#32 <<< n

/-- `CLK_RST_CONTROLLER_RST_DEVICES_H_0_OFFSET`. -/
def rstDevicesHOffset : ℕ := 0x8

/-- `CLK_RST_CONTROLLER_CLK_OUT_ENB_H_0`. -/
def clkOutEnbH : ℕ := 0x14

/-- `CLK_RST_CONTROLLER_CLK_SOURCE_SPI1_0_OFFSET`. -/
def clkSourceSpi1Offset : ℕ := 0x134

/-- `CLK_RST_CONTROLLER_CLK_SOURCE_SHIFT`. -/
def clkSourceShift : ℕ := 29

/-- `SWR_SPI1_RST_SHIFT`. -/
def swrSpi1RstShift : ℕ := 9

/-- `CLK_ENB_SPI1_SHIFT`. -/
def clkEnbSpi1Shift : ℕ := 9

/-- `TK1_RESET_DEVICES_L0_UARTA_SHIFT` and `TK1_CLKOUT_ENABLE_L0_UARTA_SHIFT`. -/
def uartaShift : ℕ := 6

/-- `TK1_RESET_DEVICES_L0_UARTB_SHIFT` and `TK1_CLKOUT_ENABLE_L0_UARTB_SHIFT`. -/
def uartbShift : ℕ := 7

/-- `TK1_RESET_DEVICES_H0_UARTC_SHIFT` and `TK1_CLKOUT_ENABLE_H0_UARTC_SHIFT`. -/
def uartcShift : ℕ := 23

/-- `PAD_STRUCT_BETWEEN`: what is between the member of `size` bytes at `start` and `stop`. -/
def padStructBetween (start stop size : ℕ) : ℕ := stop - start - size

-- the offsets of the members of `tk1_car_regs_t`, by the order and the padding in the source
/-- `car_rst_devices_l0`. -/
def carRstDevicesL0 : ℕ := 1 * 4

/-- `car_rst_devices_h0`. -/
def carRstDevicesH0 : ℕ := 2 * 4

/-- `car_clkout_enable_l0`. -/
def carClkoutEnableL0 : ℕ := 4 * 4

/-- `car_clkout_enable_h0`. -/
def carClkoutEnableH0 : ℕ := 5 * 4

/-- `car_clk_source_uarta`. -/
def carClkSourceUarta : ℕ := 7 * 4 + padStructBetween 0x18 0x178 4

/-- `car_clk_source_uartb`. -/
def carClkSourceUartb : ℕ := carClkSourceUarta + 4

/-- `car_clk_source_uartc`. -/
def carClkSourceUartc : ℕ := carClkSourceUartb + 4 + padStructBetween 0x17c 0x1a0 4

/-! ## The functions -/

/-- `clkcar_spi_clk_init`. -/
def clkcarSpiClkInit (regs : Regs) : Regs :=
  -- disable the controller
  let clkResetReg := regs rstDevicesHOffset ||| 1#32 <<< swrSpi1RstShift
  let regs := Function.update regs rstDevicesHOffset clkResetReg
  -- enable the clock
  let clkEnbReg := regs clkOutEnbH ||| 1#32 <<< clkEnbSpi1Shift
  let regs := Function.update regs clkOutEnbH clkEnbReg
  -- set input clock and divisor
  let clkSourceSpiReg := regs clkSourceSpi1Offset ||| 6#32 <<< clkSourceShift
  let clkSourceSpiReg := clkSourceSpiReg ||| 1
  let regs := Function.update regs clkSourceSpi1Offset clkSourceSpiReg
  -- enable the controller
  let clkResetReg := regs rstDevicesHOffset &&& ~~~(1#32 <<< swrSpi1RstShift)
  Function.update regs rstDevicesHOffset clkResetReg

/-- `tk1_clk_source_uart_encode`. -/
def tk1ClkSourceUartEncode (clksource : BitVec 8) (divisor : BitVec 16) (enableDivisor : Bool) :
    BitVec 32 :=
  (clksource.setWidth 32 &&& 0x7) <<< 29
    ||| ((BitVec.ofBool enableDivisor).setWidth 32 &&& 0x1) <<< 24
    ||| (divisor.setWidth 32 &&& 0xFF)

/-- `clock_uart_init`, without its messages. -/
def clockUartInit (carResetReg carResetRegShift carClkoutReg carClkoutRegShift
    carClksrcSwitchReg : ℕ) (regs : Regs) : Regs :=
  -- disable the device
  let carResetRegval := regs carResetReg ||| bit carResetRegShift
  let regs := Function.update regs carResetReg carResetRegval
  -- disable the clock source
  let carClkoutRegval := regs carClkoutReg &&& ~~~(bit carClkoutRegShift)
  let regs := Function.update regs carClkoutReg carClkoutRegval
  -- program the clock source
  let regs := Function.update regs carClksrcSwitchReg (tk1ClkSourceUartEncode 0 2 false)
  -- re-enable the clock source
  let carClkoutRegval := regs carClkoutReg ||| bit carClkoutRegShift
  let regs := Function.update regs carClkoutReg carClkoutRegval
  -- re-enable the device
  let carResetRegval := regs carResetReg &&& ~~~(bit carResetRegShift)
  Function.update regs carResetReg carResetRegval

/-- `clock_uarta_init`. -/
def clockUartaInit (regs : Regs) : Regs :=
  clockUartInit carRstDevicesL0 uartaShift carClkoutEnableL0 uartaShift carClkSourceUarta regs

/-- `clock_uartb_init`. -/
def clockUartbInit (regs : Regs) : Regs :=
  clockUartInit carRstDevicesL0 uartbShift carClkoutEnableL0 uartbShift carClkSourceUartb regs

/-- `clock_uartc_init`. -/
def clockUartcInit (regs : Regs) : Regs :=
  clockUartInit carRstDevicesH0 uartcShift carClkoutEnableH0 uartcShift carClkSourceUartc regs

/-- `clkcar_uart_clk_init`; nothing if its assertion fails.  `NV_UARTB_ASYNC`, `NV_UARTC_ASYNC` and
`NV_UARTD_ASYNC` follow `NV_UARTA_ASYNC`. -/
def clkcarUartClkInit (nvUartaAsync id : ℤ) (regs : Regs) : Option (ℤ × Regs) :=
  if id ≥ nvUartaAsync ∧ id < nvUartaAsync + 3 then
    if id = nvUartaAsync then some (0, clockUartaInit regs)
    else if id = nvUartaAsync + 1 then some (0, clockUartbInit regs)
    else some (0, clockUartcInit regs)
  else none

/-- The initializations. -/
inductive ClkInit
  | spi
  | uarta
  | uartb
  | uartc
  deriving DecidableEq

namespace ClkInit

/-- The registers after one initialization; nothing if it fails an assertion. -/
def exec (nvUartaAsync : ℤ) (regs : Regs) : ClkInit → Option Regs
  | spi => some (clkcarSpiClkInit regs)
  | uarta => (clkcarUartClkInit nvUartaAsync nvUartaAsync regs).map Prod.snd
  | uartb => (clkcarUartClkInit nvUartaAsync (nvUartaAsync + 1) regs).map Prod.snd
  | uartc => (clkcarUartClkInit nvUartaAsync (nvUartaAsync + 2) regs).map Prod.snd

/-- The registers after a sequence of initializations. -/
def run (nvUartaAsync : ℤ) (regs : Regs) (cs : List ClkInit) : Option Regs :=
  cs.foldlM (exec nvUartaAsync) regs

end ClkInit

/-! ## What an initialization leaves -/

/-- Where the controller has the bits of a device, and what is written to the register that selects
its clock. -/
structure ClkDevice where
  resetReg : ℕ
  resetShift : ℕ
  enableReg : ℕ
  enableShift : ℕ
  sourceReg : ℕ
  source : MaskedWrite 32
  distinct : resetReg ≠ enableReg ∧ sourceReg ≠ resetReg ∧ sourceReg ≠ enableReg
  enableShift_lt : enableShift < 32

namespace ClkDevice

variable {d d' : ClkDevice} {regs : Regs} {a i : ℕ}

/-- What is left of the accesses of an initialization. -/
def effect (d : ClkDevice) (a : ℕ) : MaskedWrite 32 :=
  if a = d.resetReg then ⟨bit d.resetShift, 0⟩
  else if a = d.enableReg then ⟨0, bit d.enableShift⟩
  else if a = d.sourceReg then d.source
  else idle

/-- The bits that belong to a device. -/
def Owns (d : ClkDevice) (a i : ℕ) : Prop :=
  (a = d.resetReg ∧ i = d.resetShift) ∨ (a = d.enableReg ∧ i = d.enableShift) ∨ a = d.sourceReg

instance (d : ClkDevice) (a i : ℕ) : Decidable (d.Owns a i) :=
  inferInstanceAs (Decidable (_ ∨ _))

/-- The device has its clock and is out of reset, its source register is right, and all bits that
are not its own are as they were. -/
structure Running (d : ClkDevice) (Source : BitVec 32 → Prop) (regs₀ regs : Regs) : Prop where
  source : Source (regs d.sourceReg)
  enabled : (regs d.enableReg).getLsbD d.enableShift = true
  released : (regs d.resetReg).getLsbD d.resetShift = false
  frame : ∀ a i, ¬ d.Owns a i → (regs a).getLsbD i = (regs₀ a).getLsbD i

theorem getLsbD_bit (n i : ℕ) : (bit n).getLsbD i = (decide (n < 32) && decide (n = i)) :=
  BitVec.getLsbD_twoPow n i

theorem effect_resetReg : d.effect d.resetReg = ⟨bit d.resetShift, 0⟩ := if_pos rfl

theorem effect_enableReg : d.effect d.enableReg = ⟨0, bit d.enableShift⟩ := by
  rw [effect, if_neg d.distinct.1.symm, if_pos rfl]

theorem effect_sourceReg : d.effect d.sourceReg = d.source := by
  rw [effect, if_neg d.distinct.2.1, if_neg d.distinct.2.2, if_pos rfl]

/-- An initialization touches only what belongs to its device. -/
theorem owns_of_touches (h : (d.effect a).Touches i) : d.Owns a i := by
  unfold effect at h
  split at h
  · rename_i ha
    simp only [Touches, getLsbD_bit, Bool.and_eq_true, decide_eq_true_eq, BitVec.ofNat_eq_ofNat,
      BitVec.getLsbD_zero, Bool.false_eq_true, or_false] at h
    exact .inl ⟨ha, h.2.symm⟩
  · split at h
    · rename_i ha
      simp only [Touches, getLsbD_bit, Bool.and_eq_true, decide_eq_true_eq, BitVec.ofNat_eq_ofNat,
        BitVec.getLsbD_zero, Bool.false_eq_true, false_or] at h
      exact .inr (.inl ⟨ha, h.2.symm⟩)
    · split at h
      · rename_i ha
        exact .inr (.inr ha)
      · exact absurd h (not_touches_idle i)

/-- Everything but the source register is as it should be after any initialization. -/
theorem running_iff {Source : BitVec 32 → Prop} :
    d.Running Source regs (applyAll d.effect regs) ↔
      Source (d.source.apply (regs d.sourceReg)) := by
  have hsource : applyAll d.effect regs d.sourceReg = d.source.apply (regs d.sourceReg) := by
    rw [applyAll, effect_sourceReg]
  constructor
  · exact fun h => hsource ▸ h.source
  · refine fun h => ⟨hsource ▸ h, ?_, ?_, fun a i hi => ?_⟩
    · rw [applyAll, effect_enableReg, getLsbD_apply, getLsbD_bit, decide_eq_true d.enableShift_lt,
        decide_eq_true rfl, Bool.and_true, Bool.or_true]
    · rw [applyAll, effect_resetReg, getLsbD_apply, getLsbD_bit]
      by_cases hshift : d.resetShift < 32
      · simp [hshift]
      · rw [BitVec.getLsbD_of_ge _ _ (Nat.not_lt.1 hshift)]
        simp
    · exact getLsbD_apply_of_not_touches (fun h => hi (owns_of_touches h)) _

/-- Registers are told apart from the effect of an initialization at its three registers only. -/
theorem eq_applyAll_effect {regs' : Regs}
    (hreset : regs' d.resetReg = (⟨bit d.resetShift, 0⟩ : MaskedWrite 32).apply (regs d.resetReg))
    (henable :
      regs' d.enableReg = (⟨0, bit d.enableShift⟩ : MaskedWrite 32).apply (regs d.enableReg))
    (hsource : regs' d.sourceReg = d.source.apply (regs d.sourceReg))
    (hrest : ∀ a, a ≠ d.resetReg → a ≠ d.enableReg → a ≠ d.sourceReg → regs' a = regs a) :
    regs' = applyAll d.effect regs := by
  funext a
  rw [applyAll]
  by_cases hr : a = d.resetReg
  · rw [hr, effect_resetReg, hreset]
  · by_cases he : a = d.enableReg
    · rw [he, effect_enableReg, henable]
    · by_cases hs : a = d.sourceReg
      · rw [hs, effect_sourceReg, hsource]
      · rw [effect, if_neg hr, if_neg he, if_neg hs, apply_idle, hrest a hr he hs]

/-- Devices that have no bit in common. -/
def Separate (d d' : ClkDevice) : Prop := ∀ a i, d.Owns a i → ¬ d'.Owns a i

theorem Separate.applyAll_comm (h : d.Separate d') (regs : Regs) :
    applyAll d.effect (applyAll d'.effect regs) = applyAll d'.effect (applyAll d.effect regs) :=
  MaskedWrite.applyAll_comm
    (fun a i hd hd' => h a i (owns_of_touches hd) (owns_of_touches hd')) regs

end ClkDevice

/-! ## The initializations as masked writes -/

/-- `clock_uart_init`: in each register, what the last access leaves. -/
theorem clockUartInit_eq {d : ClkDevice}
    (hsource : d.source = whole (tk1ClkSourceUartEncode 0 2 false)) (regs : Regs) :
    clockUartInit d.resetReg d.resetShift d.enableReg d.enableShift d.sourceReg regs =
      applyAll d.effect regs := by
  obtain ⟨hre, hsr, hse⟩ := d.distinct
  refine ClkDevice.eq_applyAll_effect ?_ ?_ ?_ fun a hr he hs => ?_
  · rw [← or_and_not]
    simp [clockUartInit, hre, hsr.symm]
  · rw [← and_not_or]
    simp [clockUartInit, hre.symm, hse.symm]
  · rw [hsource, apply_whole]
    simp [clockUartInit, hsr, hse]
  · simp [clockUartInit, hr, he, hs]

/-- Three registers, and a bit in the first two. -/
def Placed (resetReg enableReg sourceReg shift : ℕ) : Prop :=
  (resetReg ≠ enableReg ∧ sourceReg ≠ resetReg ∧ sourceReg ≠ enableReg) ∧ shift < 32

instance (resetReg enableReg sourceReg shift : ℕ) :
    Decidable (Placed resetReg enableReg sourceReg shift) :=
  inferInstanceAs (Decidable (_ ∧ _))

theorem placed_spi :
    Placed rstDevicesHOffset clkOutEnbH clkSourceSpi1Offset swrSpi1RstShift := by decide
theorem placed_uarta :
    Placed carRstDevicesL0 carClkoutEnableL0 carClkSourceUarta uartaShift := by decide
theorem placed_uartb :
    Placed carRstDevicesL0 carClkoutEnableL0 carClkSourceUartb uartbShift := by decide
theorem placed_uartc :
    Placed carRstDevicesH0 carClkoutEnableH0 carClkSourceUartc uartcShift := by decide

/-- A UART with its registers and its bit. -/
def uartDevice (resetReg enableReg sourceReg shift : ℕ)
    (h : Placed resetReg enableReg sourceReg shift) : ClkDevice :=
  ⟨resetReg, shift, enableReg, shift, sourceReg, whole (tk1ClkSourceUartEncode 0 2 false), h.1, h.2⟩

namespace ClkInit

/-- The device that an initialization is for. -/
def device : ClkInit → ClkDevice
  | spi => ⟨rstDevicesHOffset, swrSpi1RstShift, clkOutEnbH, clkEnbSpi1Shift, clkSourceSpi1Offset,
      ⟨0, 6#32 <<< clkSourceShift ||| 1⟩, placed_spi.1, placed_spi.2⟩
  | uarta => uartDevice carRstDevicesL0 carClkoutEnableL0 carClkSourceUarta uartaShift placed_uarta
  | uartb => uartDevice carRstDevicesL0 carClkoutEnableL0 carClkSourceUartb uartbShift placed_uartb
  | uartc => uartDevice carRstDevicesH0 carClkoutEnableH0 carClkSourceUartc uartcShift placed_uartc

end ClkInit

/-- `clkcar_spi_clk_init`. -/
theorem clkcarSpiClkInit_eq (regs : Regs) :
    clkcarSpiClkInit regs = applyAll ClkInit.spi.device.effect regs := by
  obtain ⟨⟨hre, hsr, hse⟩, -⟩ := placed_spi
  refine @ClkDevice.eq_applyAll_effect ClkInit.spi.device regs _ ?_ ?_ ?_ fun a hr he hs => ?_
  · rw [← or_and_not]
    simp [clkcarSpiClkInit, ClkInit.device, bit, hre, hsr.symm]
  · rw [← or_eq_apply]
    simp [clkcarSpiClkInit, ClkInit.device, bit, hre.symm, hse.symm]
  · refine Eq.trans ?_ (or_eq_apply _ _)
    simp [clkcarSpiClkInit, ClkInit.device, hsr, hse, BitVec.or_assoc]
  · simp only [ClkInit.device] at hr he hs
    simp [clkcarSpiClkInit, hr, he, hs]

namespace ClkInit

variable {nvUartaAsync : ℤ} {regs : Regs} {c c' : ClkInit} {cs cs' : List ClkInit}

theorem exec_eq (nvUartaAsync : ℤ) (regs : Regs) (c : ClkInit) :
    c.exec nvUartaAsync regs = some (applyAll c.device.effect regs) := by
  cases c with
  | spi => exact congrArg some (clkcarSpiClkInit_eq regs)
  | uarta =>
      rw [exec, clkcarUartClkInit, if_pos (by omega), if_pos rfl]
      exact congrArg some (clockUartInit_eq (d := uarta.device) rfl regs)
  | uartb =>
      rw [exec, clkcarUartClkInit, if_pos (by omega), if_neg (by omega), if_pos rfl]
      exact congrArg some (clockUartInit_eq (d := uartb.device) rfl regs)
  | uartc =>
      rw [exec, clkcarUartClkInit, if_pos (by omega), if_neg (by omega), if_neg (by omega)]
      exact congrArg some (clockUartInit_eq (d := uartc.device) rfl regs)

/-- One initialization, as an action on the registers. -/
def act (regs : Regs) (c : ClkInit) : Regs := applyAll c.device.effect regs

theorem run_eq (nvUartaAsync : ℤ) (regs : Regs) (cs : List ClkInit) :
    run nvUartaAsync regs cs = some (cs.foldl act regs) := by
  induction cs generalizing regs with
  | nil => rfl
  | cons c cs ih =>
      rw [run, List.foldlM_cons, exec_eq]
      exact ih (act regs c)

/-- Different devices have different bits, though they share registers. -/
theorem separate_of_ne (h : c ≠ c') : c.device.Separate c'.device := by
  intro a i howns howns'
  cases c <;> cases c' <;> first | exact h rfl | skip
  all_goals
    simp only [ClkDevice.Owns, device, uartDevice, rstDevicesHOffset, clkOutEnbH,
      clkSourceSpi1Offset, swrSpi1RstShift, clkEnbSpi1Shift, uartaShift, uartbShift, uartcShift,
      padStructBetween, carRstDevicesL0, carRstDevicesH0, carClkoutEnableL0, carClkoutEnableH0,
      carClkSourceUarta, carClkSourceUartb, carClkSourceUartc] at howns howns'
    omega

theorem act_act (regs : Regs) (c : ClkInit) : act (act regs c) c = act regs c :=
  applyAll_applyAll _ _

theorem act_comm (regs : Regs) (c c' : ClkInit) : act (act regs c) c' = act (act regs c') c := by
  by_cases h : c = c'
  · rw [h]
  · exact ClkDevice.Separate.applyAll_comm (separate_of_ne (Ne.symm h)) regs

instance : RightCommutative act := ⟨act_comm⟩

/-- Two sequences in which the same initializations occur leave the same registers.  So an
initialization can be repeated, and any two can be exchanged. -/
theorem inits_independent (nvUartaAsync : ℤ) (regs : Regs) :
    (∀ cs cs' : List ClkInit, (∀ c, c ∈ cs ↔ c ∈ cs') →
      ∃ final, run nvUartaAsync regs cs = some final ∧ run nvUartaAsync regs cs' = some final) ∧
      (∀ c, run nvUartaAsync regs [c, c] = run nvUartaAsync regs [c]) ∧
      ∀ c c', run nvUartaAsync regs [c, c'] = run nvUartaAsync regs [c', c] := by
  refine ⟨fun cs cs' h => ⟨cs.foldl act regs, run_eq _ _ _, ?_⟩, fun c => ?_, fun c c' => ?_⟩
  · rw [run_eq, foldl_eq_of_mem_iff act_act h]
  · rw [run_eq, run_eq]
    exact congrArg some (act_act regs c)
  · rw [run_eq, run_eq]
    exact congrArg some (act_comm regs c c')

/-- Both devices of the H bank, where SPI1 is initialized once more. -/
theorem inits_independent_h_bank :
    (∀ c, c ∈ [spi, uartc, spi] ↔ c ∈ [uartc, spi]) ∧
      ∃ final, run 0 (fun _ => 0) [spi, uartc, spi] = some final ∧
        run 0 (fun _ => 0) [uartc, spi] = some final :=
  have hsame : ∀ c, c ∈ [spi, uartc, spi] ↔ c ∈ [uartc, spi] := fun c => by cases c <;> decide
  ⟨hsame, (inits_independent 0 fun _ => 0).1 _ _ hsame⟩

/-! ## The target of an initialization -/

/-- The source register is to have this after an initialization: clock source 6 and divisor 1 for
SPI1, and what `tk1_clk_source_uart_encode(0, 2, false)` returns for a UART. -/
def Source (c : ClkInit) (x : BitVec 32) : Prop :=
  match c with
  | spi => x.extractLsb' clkSourceShift 3 = 6 ∧ x.extractLsb' 0 8 = 1
  | uarta | uartb | uartc => x = tk1ClkSourceUartEncode 0 2 false

/-- Every initialization returns and leaves its device running, with nothing else changed. -/
def InitsReachTarget (nvUartaAsync : ℤ) (regs : Regs) : Prop :=
  ∀ c : ClkInit, ∃ regs', c.exec nvUartaAsync regs = some regs' ∧
    c.device.Running c.Source regs regs'

/-- A field of a word, bit by bit. -/
theorem field_eq_iff {n w : ℕ} {x : BitVec 32} {y : BitVec w} :
    x.extractLsb' n w = y ↔ ∀ i < w, x.getLsbD (n + i) = y.getLsbD i := by
  constructor
  · rintro rfl i hi
    rw [BitVec.getLsbD_extractLsb', decide_eq_true hi, Bool.true_and]
  · intro h
    apply BitVec.eq_of_getLsbD_eq
    intro i hi
    rw [BitVec.getLsbD_extractLsb', decide_eq_true hi, Bool.true_and, h i hi]

theorem source_spi_iff (x : BitVec 32) :
    spi.Source (spi.device.source.apply x) ↔
      x.getLsbD 29 = false ∧ ∀ i, 0 < i → i < 8 → x.getLsbD i = false := by
  have hbit : ∀ i, (spi.device.source.apply x).getLsbD i =
      (x.getLsbD i || (0xC0000001#32).getLsbD i) := by
    intro i
    rw [getLsbD_apply]
    show (x.getLsbD i && !(0#32).getLsbD i || (0xC0000001#32).getLsbD i) = _
    rw [BitVec.getLsbD_zero, Bool.not_false, Bool.and_true]
  unfold Source
  simp only [field_eq_iff, hbit, clkSourceShift]
  refine and_congr ⟨fun h => ?_, fun h i hi => ?_⟩ ⟨fun h i hpos hi => ?_, fun h i hi => ?_⟩
  · simpa using h 0 (by decide)
  · interval_cases i
    · rw [h]
      rfl
    · exact Bool.or_true _
    · exact Bool.or_true _
  · have hfield := h i hi
    interval_cases i <;> simpa using hfield
  · rw [Nat.zero_add]
    rcases Nat.eq_zero_or_pos i with rfl | hpos
    · exact Bool.or_true _
    · rw [h i hpos hi, Bool.false_or]
      interval_cases i <;> rfl

/-- The initializations reach their target exactly where the boot loader has left bit 29 of the
source register of SPI1 clear, and all bits of its divisor but the lowest. -/
theorem initsReachTarget_iff (nvUartaAsync : ℤ) (regs : Regs) :
    InitsReachTarget nvUartaAsync regs ↔
      (regs clkSourceSpi1Offset).getLsbD 29 = false ∧
        ∀ i, 0 < i → i < 8 → (regs clkSourceSpi1Offset).getLsbD i = false := by
  have hone : ∀ c : ClkInit, (∃ regs', c.exec nvUartaAsync regs = some regs' ∧
      c.device.Running c.Source regs regs') ↔
        c.Source (c.device.source.apply (regs c.device.sourceReg)) := by
    intro c
    simp only [exec_eq, Option.some.injEq, exists_eq_left', ClkDevice.running_iff]
  unfold InitsReachTarget
  simp only [hone]
  refine Iff.trans ⟨fun h => h spi, fun h c => ?_⟩ (source_spi_iff _)
  cases c with
  | spi => exact h
  | uarta | uartb | uartc => exact apply_whole _ _

/-- The boot loader has selected source 1 and divisor 2 for SPI1: the fields become 7 and 3. -/
theorem not_initsReachTarget_bootloader :
    ¬ InitsReachTarget 0 (fun a => if a = 0x134 then 0x20000002 else 0) ∧
      clkcarSpiClkInit (fun a => if a = 0x134 then 0x20000002 else 0) 0x134 = 0xE0000003 := by
  refine ⟨fun h => ?_, by decide⟩
  obtain ⟨regs', hexec, hrunning⟩ := h spi
  obtain rfl := Option.some.inj hexec
  obtain ⟨hsource, -⟩ := hrunning.source
  exact absurd hsource (by decide)

end ClkInit

end Clock
end Tk1Bsp
