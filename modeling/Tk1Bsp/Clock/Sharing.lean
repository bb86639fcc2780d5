import Tk1Bsp.Clock.Init
import Tk1Bsp.Framework.ReadModifyWrite
import Tk1Bsp.Framework.Refinement

/-!
# The guest and the initializations share the clock controller

`clkcar` serves two interfaces, each with a thread of its own: the initializations of `clkcar.c`,
and the accesses of the guest that `fwd_driver.c` forwards.  There is no lock.  An access of the
guest is one access to a register.  An initialization is a sequence of accesses, and it changes the
registers that all devices share by reading them and writing them back.

What the guest changes in such a register in between is lost; apart from this, the initialization
might as well change it at once (`Car.atomic_outside_windows`).  And as long as no write of the
guest does harm, the guest does not disturb the initializations: all protected bits are what the
initializations leave when they run alone, one after the other (`Car.inits_undisturbed`).
-/

namespace Tk1Bsp
namespace Clock

open ReadModifyWrite Transition

/-! ## The initializations, access by access -/

/-- Programs that access the registers of the controller. -/
abbrev CarIo := ReadModifyWrite.Io ℕ (BitVec 32)

namespace CarIo

/-- `clkcar_spi_clk_init`. -/
def clkcarSpiClkInit : CarIo Unit := do
  -- disable the controller
  let clkResetReg ← op (.read rstDevicesHOffset)
  op (.write rstDevicesHOffset (clkResetReg ||| 1#32 <<< swrSpi1RstShift))
  -- enable the clock
  let clkEnbReg ← op (.read clkOutEnbH)
  op (.write clkOutEnbH (clkEnbReg ||| 1#32 <<< clkEnbSpi1Shift))
  -- set input clock and divisor
  let clkSourceSpiReg ← op (.read clkSourceSpi1Offset)
  op (.write clkSourceSpi1Offset (clkSourceSpiReg ||| 6#32 <<< clkSourceShift ||| 1))
  -- enable the controller
  let clkResetReg ← op (.read rstDevicesHOffset)
  op (.write rstDevicesHOffset (clkResetReg &&& ~~~(1#32 <<< swrSpi1RstShift)))

/-- `clock_uart_init`, without its messages. -/
def clockUartInit (carResetReg carResetRegShift carClkoutReg carClkoutRegShift
    carClksrcSwitchReg : ℕ) : CarIo Unit := do
  -- disable the device
  let carResetRegval ← op (.read carResetReg)
  op (.write carResetReg (carResetRegval ||| bit carResetRegShift))
  -- disable the clock source
  let carClkoutRegval ← op (.read carClkoutReg)
  op (.write carClkoutReg (carClkoutRegval &&& ~~~(bit carClkoutRegShift)))
  -- program the clock source
  op (.write carClksrcSwitchReg (tk1ClkSourceUartEncode 0 2 false))
  -- re-enable the clock source
  let carClkoutRegval ← op (.read carClkoutReg)
  op (.write carClkoutReg (carClkoutRegval ||| bit carClkoutRegShift))
  -- re-enable the device
  let carResetRegval ← op (.read carResetReg)
  op (.write carResetReg (carResetRegval &&& ~~~(bit carResetRegShift)))

/-- `clock_uarta_init`. -/
def clockUartaInit : CarIo Unit :=
  clockUartInit carRstDevicesL0 uartaShift carClkoutEnableL0 uartaShift carClkSourceUarta

/-- `clock_uartb_init`. -/
def clockUartbInit : CarIo Unit :=
  clockUartInit carRstDevicesL0 uartbShift carClkoutEnableL0 uartbShift carClkSourceUartb

/-- `clock_uartc_init`. -/
def clockUartcInit : CarIo Unit :=
  clockUartInit carRstDevicesH0 uartcShift carClkoutEnableH0 uartcShift carClkSourceUartc

/-- The `switch` of `clkcar_uart_clk_init`. -/
def clkcarUartSwitch (nvUartaAsync id : ℤ) : CarIo Unit :=
  if id = nvUartaAsync then clockUartaInit
  else if id = nvUartaAsync + 1 then clockUartbInit
  else clockUartcInit

/-- `clkcar_uart_clk_init`. -/
def clkcarUartClkInit (nvUartaAsync id : ℤ) : CarIo ℤ := do
  op (.assert (decide (id ≥ nvUartaAsync ∧ id < nvUartaAsync + 3)))
  clkcarUartSwitch nvUartaAsync id
  return 0

end CarIo

namespace ClkInit

/-- The call that a driver makes. -/
def body (nvUartaAsync : ℤ) : ClkInit → CarIo Unit
  | spi => CarIo.clkcarSpiClkInit
  | uarta => do
      let _ ← CarIo.clkcarUartClkInit nvUartaAsync nvUartaAsync
  | uartb => do
      let _ ← CarIo.clkcarUartClkInit nvUartaAsync (nvUartaAsync + 1)
  | uartc => do
      let _ ← CarIo.clkcarUartClkInit nvUartaAsync (nvUartaAsync + 2)

/-- Set bits of a register. -/
def setBits (a : ℕ) (x : BitVec 32) : Task ℕ (BitVec 32) := .modify ⟨a, (· ||| x)⟩

/-- Clear bits of a register. -/
def clearBits (a : ℕ) (x : BitVec 32) : Task ℕ (BitVec 32) := .modify ⟨a, (· &&& ~~~x)⟩

/-- The steps of the initialization of a UART. -/
def uartTasks (d : ClkDevice) : List (Task ℕ (BitVec 32)) :=
  [.check, setBits d.resetReg (bit d.resetShift), clearBits d.enableReg (bit d.enableShift),
    .put d.sourceReg (tk1ClkSourceUartEncode 0 2 false), setBits d.enableReg (bit d.enableShift),
    clearBits d.resetReg (bit d.resetShift)]

/-- The steps of an initialization. -/
def tasks : ClkInit → List (Task ℕ (BitVec 32))
  | spi =>
      [setBits spi.device.resetReg (bit spi.device.resetShift),
        setBits spi.device.enableReg (bit spi.device.enableShift),
        .modify ⟨spi.device.sourceReg, fun w => w ||| 6#32 <<< clkSourceShift ||| 1⟩,
        clearBits spi.device.resetReg (bit spi.device.resetShift)]
  | uarta => uartTasks uarta.device
  | uartb => uartTasks uartb.device
  | uartc => uartTasks uartc.device

end ClkInit

theorem makes_clockUartInit (d : ClkDevice) :
    Makes (CarIo.clockUartInit d.resetReg d.resetShift d.enableReg d.enableShift d.sourceReg)
      (ClkInit.uartTasks d).tail := by
  simp only [CarIo.clockUartInit, op, Prog.bind_eq, Prog.perform_bind]
  refine .modify (c := ⟨d.resetReg, _⟩) (fun _ => rfl) ?_
  refine .modify (c := ⟨d.enableReg, _⟩) (fun _ => rfl) (.put ?_)
  refine .modify (c := ⟨d.enableReg, _⟩) (fun _ => rfl) ?_
  exact .modify (c := ⟨d.resetReg, _⟩) (fun _ => rfl) (.ret ())

theorem makes_clkcarSpiClkInit : Makes CarIo.clkcarSpiClkInit ClkInit.spi.tasks := by
  simp only [CarIo.clkcarSpiClkInit, op, Prog.bind_eq, Prog.perform_bind]
  refine .modify (c := ⟨rstDevicesHOffset, _⟩) (fun _ => rfl) ?_
  refine .modify (c := ⟨clkOutEnbH, _⟩) (fun _ => rfl) ?_
  refine .modify (c := ⟨clkSourceSpi1Offset, _⟩) (fun _ => rfl) ?_
  exact .modify (c := ⟨rstDevicesHOffset, _⟩) (fun _ => rfl) (.ret ())

/-- `clkcar_uart_clk_init` for a UART that it knows, with its answer dropped. -/
theorem makes_uart {nvUartaAsync id : ℤ} {d : ClkDevice}
    (hid : id ≥ nvUartaAsync ∧ id < nvUartaAsync + 3)
    (hswitch : Makes (CarIo.clkcarUartSwitch nvUartaAsync id) (ClkInit.uartTasks d).tail) :
    Makes (do let _ ← CarIo.clkcarUartClkInit nvUartaAsync id) (ClkInit.uartTasks d) := by
  simp only [CarIo.clkcarUartClkInit, op, Prog.bind_eq, Prog.perform_bind, Prog.call_bind]
  refine .check (decide_eq_true hid) ?_
  have h := (hswitch.bind fun _ => Makes.ret (0 : ℤ)).bind fun _ => Makes.ret ()
  rwa [List.append_nil, List.append_nil] at h

/-- What a driver asks for is a list of tasks. -/
theorem makes_body (nvUartaAsync : ℤ) (c : ClkInit) : Makes (c.body nvUartaAsync) c.tasks := by
  have hinit := makes_clockUartInit
  cases c with
  | spi => exact makes_clkcarSpiClkInit
  | uarta =>
      refine makes_uart (by omega) ?_
      rw [CarIo.clkcarUartSwitch, if_pos rfl]
      exact hinit ClkInit.uarta.device
  | uartb =>
      refine makes_uart (by omega) ?_
      rw [CarIo.clkcarUartSwitch, if_neg (by omega), if_pos rfl]
      exact hinit ClkInit.uartb.device
  | uartc =>
      refine makes_uart (by omega) ?_
      rw [CarIo.clkcarUartSwitch, if_neg (by omega), if_neg (by omega)]
      exact hinit ClkInit.uartc.device

theorem run_clkcarUartClkInit (nvUartaAsync id : ℤ) (regs : Regs) :
    (CarIo.clkcarUartClkInit nvUartaAsync id).run exec regs =
      clkcarUartClkInit nvUartaAsync id regs := by
  simp only [CarIo.clkcarUartClkInit, op, Prog.bind_eq, Prog.perform_bind, clkcarUartClkInit]
  by_cases hid : id ≥ nvUartaAsync ∧ id < nvUartaAsync + 3
  · have hassert : exec (.assert (decide (id ≥ nvUartaAsync ∧ id < nvUartaAsync + 3))) regs =
        some ((), regs) := if_pos (decide_eq_true hid)
    rw [Prog.run_call_of_exec hassert, if_pos hid, Prog.run_bind, CarIo.clkcarUartSwitch]
    split
    · rfl
    · split <;> rfl
  · rw [Prog.run_call_of_none (if_neg (by simpa using hid)), if_neg hid]

/-- Running alone, it is the function of `clkcar.c`. -/
theorem run_body (nvUartaAsync : ℤ) (c : ClkInit) (regs : Regs) :
    ((c.body nvUartaAsync).run exec regs).map Prod.snd = c.exec nvUartaAsync regs := by
  have huart : ∀ id, ((do let _ ← CarIo.clkcarUartClkInit nvUartaAsync id : CarIo Unit).run exec
      regs).map Prod.snd = (clkcarUartClkInit nvUartaAsync id regs).map Prod.snd := by
    intro id
    rw [Prog.bind_eq, Prog.run_bind, run_clkcarUartClkInit]
    cases clkcarUartClkInit nvUartaAsync id regs <;> rfl
  cases c with
  | spi => rfl
  | uarta | uartb | uartc => exact huart _

/-! ## The component -/

namespace Platform

variable (P : Platform)

/-- The change that an access of the guest makes. -/
def change : Access → Option (Change ℕ (BitVec 32))
  | .read _ => none
  | .write addr value =>
      if addr < pageSize ∧ addr % 4 = 0 ∧
          P.accessHandler ⟨addr, .writeAccess, value⟩ (P.tk1ClkRegisters (addr / 4)) = true then
        match P.effect addr with
        | .store => some ⟨addr, fun _ => value⟩
        | .setBits t => some ⟨t, (· ||| value)⟩
        | .clearBits t => some ⟨t, (· &&& ~~~value)⟩
      else none

theorem step_eq (regs : Regs) (a : Access) :
    P.step regs a = match P.change a with
      | none => regs
      | some c => c.apply regs := by
  cases a with
  | read addr => exact genFwdRead_regs regs addr
  | write addr value =>
      rw [step, genFwdWrite_eq, change]
      split
      · rw [store]
        cases P.effect addr <;> rfl
      · rfl

end Platform

/-- `clkcar` with its two threads: the registers, and the initialization that is under way. -/
structure Car where
  regs : Regs
  inits : Option (ClkInit × CarIo Unit)

/-- What can happen: a driver calls, its call makes an access or returns, or the guest makes an
access. -/
inductive CarAct
  | call (c : ClkInit)
  | init
  | reply
  | access (a : Access)

/-- The initialization that is called for. -/
def CarAct.asked : CarAct → Option ClkInit
  | .call c => some c
  | _ => none

namespace Car

variable (P : Platform) (nvUartaAsync : ℤ)

/-- One step; nothing if it cannot be taken. -/
def step (s : Car) : CarAct → Option Car
  | .call c =>
      match s.inits with
      | none => some { s with inits := some (c, c.body nvUartaAsync) }
      | some _ => none
  | .init =>
      match s.inits with
      | none => none
      | some (c, p) =>
          (p.advance exec s.regs).map fun pr => { regs := pr.2, inits := some (c, pr.1) }
  | .reply =>
      match s.inits with
      | some (_, .ret ()) => some { s with inits := none }
      | _ => none
  | .access a => some { s with regs := P.step s.regs a }

/-- The step relation. -/
def Step (s : Car) (a : CarAct) (_ : Unit) (s' : Car) : Prop := s.step P nvUartaAsync a = some s'

/-- No call has been made. -/
def booted (regs : Regs) : Car := ⟨regs, none⟩

/-- What a step can be. -/
inductive Moves (s : Car) : CarAct → Car → Prop
  | call (c : ClkInit) (hidle : s.inits = none) :
      Moves s (.call c) { s with inits := some (c, c.body nvUartaAsync) }
  | init {c : ClkInit} {p p' : CarIo Unit} {regs : Regs} (hinits : s.inits = some (c, p))
      (hadv : p.advance exec s.regs = some (p', regs)) : Moves s .init ⟨regs, some (c, p')⟩
  | reply {c : ClkInit} (hinits : s.inits = some (c, .ret ())) :
      Moves s .reply { s with inits := none }
  | access (a : Access) : Moves s (.access a) { s with regs := P.step s.regs a }

variable {P nvUartaAsync}

theorem moves_of_step {s s' : Car} {a : CarAct} (h : s.step P nvUartaAsync a = some s') :
    Moves P nvUartaAsync s a s' := by
  cases a with
  | call c =>
      simp only [step] at h
      split at h
      · rename_i hidle
        obtain rfl := Option.some.inj h
        exact .call c hidle
      · cases h
  | init =>
      simp only [step] at h
      split at h
      · cases h
      · rename_i hinits
        obtain ⟨⟨p', regs⟩, hadv, rfl⟩ := Option.map_eq_some_iff.1 h
        exact .init hinits hadv
  | reply =>
      simp only [step] at h
      split at h
      · rename_i hinits
        obtain rfl := Option.some.inj h
        exact .reply hinits
      · cases h
  | access a =>
      obtain rfl := Option.some.inj h
      exact .access a

end Car

/-! ## Changes at once -/

/-- A component in which an initialization changes each register at once. -/
structure AtomicCar where
  regs : Regs
  inits : Option (ClkInit × Position ℕ (BitVec 32))

namespace AtomicCar

variable (P : Platform)

/-- The register that the initialization has read and not yet written back. -/
def window (t : AtomicCar) : Option ℕ := t.inits.bind fun cq => cq.2.window

/-- One step.  A write of the guest to the register that the initialization has read is lost. -/
def step (t : AtomicCar) : CarAct → Option AtomicCar
  | .call c =>
      match t.inits with
      | none => some { t with inits := some (c, ⟨c.tasks, false⟩) }
      | some _ => none
  | .init =>
      match t.inits with
      | none => none
      | some (c, q) => (q.next t.regs).map fun qr => { regs := qr.2, inits := some (c, qr.1) }
  | .reply =>
      match t.inits with
      | some (_, ⟨[], _⟩) => some { t with inits := none }
      | _ => none
  | .access a =>
      match P.change a with
      | none => some t
      | some c =>
          some { t with regs := if t.window = some c.target then t.regs else c.apply t.regs }

/-- The step relation. -/
def Step (t : AtomicCar) (a : CarAct) (_ : Unit) (t' : AtomicCar) : Prop := t.step P a = some t'

/-- No call has been made. -/
def booted (regs : Regs) : AtomicCar := ⟨regs, none⟩

end AtomicCar

namespace Car

/-- The component, and the one that changes registers at once. -/
inductive Shows : Car → AtomicCar → Prop
  | idle (regs : Regs) : Shows ⟨regs, none⟩ ⟨regs, none⟩
  | busy {c : ClkInit} {p : CarIo Unit} {q : Position ℕ (BitVec 32)} {regs regs' : Regs}
      (h : Follows p regs q regs') : Shows ⟨regs, some (c, p)⟩ ⟨regs', some (c, q)⟩

variable {P : Platform} {nvUartaAsync : ℤ} {s s' : Car} {t : AtomicCar}

theorem Shows.agree (h : s.Shows t) {a : ℕ} (ha : t.window ≠ some a) : s.regs a = t.regs a := by
  cases h with
  | idle regs => rfl
  | busy h => exact h.agree ha

theorem Shows.step (h : s.Shows t) {a : CarAct} {o : Unit} (hs : Step P nvUartaAsync s a o s') :
    ∃ t', AtomicCar.Step P t a o t' ∧ s'.Shows t' := by
  cases moves_of_step hs with
  | call c hidle =>
      cases h with
      | idle regs => exact ⟨_, rfl, .busy (.closed (makes_body nvUartaAsync c))⟩
      | busy h => cases hidle
  | init hinits hadv =>
      cases h with
      | idle regs => cases hinits
      | busy h =>
          cases hinits
          obtain ⟨q', regs', hnext, h'⟩ := h.advance hadv
          exact ⟨⟨regs', _⟩, congrArg (Option.map _) hnext, .busy h'⟩
  | reply hinits =>
      cases h with
      | idle regs => cases hinits
      | busy h =>
          cases hinits
          obtain ⟨rfl, rfl⟩ := h.eq_of_ret
          exact ⟨_, rfl, .idle _⟩
  | access a =>
      rw [P.step_eq]
      cases hchange : P.change a with
      | none => exact ⟨t, by rw [AtomicCar.Step, AtomicCar.step, hchange], h⟩
      | some c =>
          refine ⟨{ t with regs := if t.window = some c.target then t.regs else c.apply t.regs },
            by rw [AtomicCar.Step, AtomicCar.step, hchange], ?_⟩
          cases h with
          | idle regs => exact .idle (c.apply regs)
          | busy h => exact .busy (h.change c)

/-- The threads may be interleaved in any way.  What is in the registers is what is in them after
the same steps, if an initialization changed each register at once when it writes it back, and the
writes of the guest to a register that the initialization has read were lost.  Only the register
that the initialization has read may still show such a write. -/
theorem atomic_outside_windows {regs : Regs} {as : List CarAct} {os : List Unit}
    (h : Run (Step P nvUartaAsync) (booted regs) as os s) :
    ∃ t, Run (AtomicCar.Step P) (.booted regs) as os t ∧
      (∀ a, t.window ≠ some a → s.regs a = t.regs a) ∧ (s.inits = none → s.regs = t.regs) := by
  have hstep : ∀ s t a o s', Shows s t → Step P nvUartaAsync s a o s' →
      ∃ t', AtomicCar.Step P t a o t' ∧ s'.Shows t' := fun _ _ _ _ _ hR hs => hR.step hs
  obtain ⟨t, hrun, hshows⟩ := h.simulated hstep (.idle regs)
  refine ⟨t, hrun, fun a => hshows.agree, fun hidle => ?_⟩
  cases hshows with
  | idle regs => rfl
  | busy h => cases hidle

/-- The guest enables USB2 in `CLK_OUT_ENB_H` after `clkcar_spi_clk_init` has read this register.
The write is lost. -/
theorem atomic_outside_windows_lost :
    ∃ s t os, Run (Step .tk1 0) (booted fun _ => 0)
        [.call .spi, .init, .init, .init, .access (.write 0x14 0x04000000), .init] os s ∧
      Run (AtomicCar.Step .tk1) (.booted fun _ => 0)
        [.call .spi, .init, .init, .init, .access (.write 0x14 0x04000000), .init] os t ∧
      (∀ a, t.window ≠ some a → s.regs a = t.regs a) ∧ s.regs 0x14 = 0x200 := by
  obtain ⟨s, hs, hreg⟩ := (Option.any_eq_true (fun s : Car => s.regs 0x14 == 0x200) _).1
    (show ([.call .spi, .init, .init, .init, .access (.write 0x14 0x04000000), .init].foldlM
      (Car.step .tk1 0) (booted fun _ => 0)).any _ = true by decide +kernel)
  have hstep : ∀ s a s', Car.step .tk1 0 s a = some s' → ∃ o, Step .tk1 0 s a o s' :=
    fun _ _ _ h => ⟨(), h⟩
  obtain ⟨os, hrun⟩ := Run.of_foldlM hstep hs
  obtain ⟨t, hrun', hagree, -⟩ := atomic_outside_windows hrun
  exact ⟨s, t, os, hrun, hrun', hagree, beq_iff_eq.1 hreg⟩

end Car

/-! ## What the guest does not disturb -/

namespace Platform

variable {P : Platform}

/-- Words of a register that differ only where the guest may change it. -/
def Agrees (P : Platform) (a : ℕ) (w w' : BitVec 32) : Prop :=
  ∀ i, P.Protected a i → w'.getLsbD i = w.getLsbD i

theorem respects_setBits (a : ℕ) (x : BitVec 32) : (ClkInit.setBits a x).Respects P.Agrees := by
  intro w w' h i hi
  rw [BitVec.getLsbD_or, BitVec.getLsbD_or, h i hi]

theorem respects_clearBits (a : ℕ) (x : BitVec 32) :
    (ClkInit.clearBits a x).Respects P.Agrees := by
  intro w w' h i hi
  rw [BitVec.getLsbD_and, BitVec.getLsbD_and, h i hi]

/-- What an initialization writes has protected bits that depend on protected bits only. -/
theorem respects_tasks (c : ClkInit) : ∀ t ∈ c.tasks, t.Respects P.Agrees := by
  have huart : ∀ d, ∀ t ∈ ClkInit.uartTasks d, t.Respects P.Agrees := by
    intro d
    simp only [ClkInit.uartTasks, List.forall_mem_cons]
    exact ⟨trivial, respects_setBits _ _, respects_clearBits _ _, fun _ _ => rfl,
      respects_setBits _ _, respects_clearBits _ _, fun _ ht => absurd ht List.not_mem_nil⟩
  cases c with
  | spi =>
      simp only [ClkInit.tasks, List.forall_mem_cons]
      refine ⟨respects_setBits _ _, respects_setBits _ _, fun w w' h i hi => ?_,
        respects_clearBits _ _, fun _ ht => absurd ht List.not_mem_nil⟩
      rw [BitVec.getLsbD_or, BitVec.getLsbD_or, BitVec.getLsbD_or, BitVec.getLsbD_or, h i hi]
  | uarta | uartb | uartc => exact huart _

end Platform

namespace Car

variable {P : Platform} {nvUartaAsync : ℤ} {s s' : Car} {regs : Regs} {cs : List ClkInit}

/-- A step, where an access of the guest does no harm. -/
def HarmlessStep (P : Platform) (nvUartaAsync : ℤ) (s : Car) (a : CarAct) (o : Unit) (s' : Car) :
    Prop :=
  Step P nvUartaAsync s a o s' ∧ ∀ x, a = .access x → P.Harmless s.regs x

/-- The protected bits are those that the initializations leave when they run alone.  The one under
way is to lead to them. -/
def Undisturbed (P : Platform) (regs : Regs) (cs : List ClkInit) (s : Car) : Prop :=
  match s.inits with
  | none => P.SameProtected (cs.foldl ClkInit.act regs) s.regs
  | some (_, p) => ∃ p₀ regs₀, Beside P.Agrees p₀ regs₀ p s.regs ∧
      (p₀.run exec regs₀).map Prod.snd = some (cs.foldl ClkInit.act regs)

theorem Undisturbed.step (hP : P.Documented) (h : Undisturbed P regs cs s) {a : CarAct} {o : Unit}
    (hs : HarmlessStep P nvUartaAsync s a o s') :
    Undisturbed P regs (cs ++ a.asked.toList) s' := by
  obtain ⟨hs, hharmless⟩ := hs
  cases moves_of_step hs with
  | call c hidle =>
      simp only [Undisturbed, hidle] at h
      refine ⟨c.body nvUartaAsync, cs.foldl ClkInit.act regs,
        .same (makes_body nvUartaAsync c) (Platform.respects_tasks c) h, ?_⟩
      rw [run_body, ClkInit.exec_eq, CarAct.asked, Option.toList_some, List.foldl_append]
      rfl
  | @init c p p' regs' hinits hadv =>
      simp only [Undisturbed, hinits] at h
      obtain ⟨p₀, regs₀, hbeside, hrun⟩ := h
      obtain ⟨p₁, regs₁, hadv₁, hbeside₁⟩ := hbeside.advance hadv
      refine ⟨p₁, regs₁, hbeside₁, ?_⟩
      rw [← run_of_advance hadv₁]
      simpa [CarAct.asked] using hrun
  | @reply c hinits =>
      simp only [Undisturbed, hinits] at h
      obtain ⟨p₀, regs₀, hbeside, hrun⟩ := h
      obtain rfl := hbeside.eq_of_ret
      obtain rfl : regs₀ = _ := Option.some.inj hrun
      have hsame : P.SameProtected (cs.foldl ClkInit.act regs) s.regs := hbeside.agree
      simpa [Undisturbed, CarAct.asked] using hsame
  | access x =>
      have hkeeps : P.SameProtected s.regs (P.step s.regs x) :=
        (hP.sameProtected_step_iff (fun _ _ _ => rfl) x).2 (hharmless x rfl)
      have hnil : (CarAct.access x).asked.toList = [] := rfl
      rw [hnil, List.append_nil]
      unfold Undisturbed at h ⊢
      cases hinits : s.inits with
      | none =>
          simp only [hinits] at h ⊢
          exact fun a i hi => (hkeeps a i hi).trans (h a i hi)
      | some cp =>
          simp only [hinits] at h ⊢
          obtain ⟨p₀, regs₀, hbeside, hrun⟩ := h
          exact ⟨p₀, regs₀, hbeside.change fun a ha i hi => (hkeeps a i hi).trans (ha i hi), hrun⟩

/-- A device that has been initialized has its clock and is out of reset. -/
theorem enabled_of_mem {c : ClkInit} (hc : c ∈ cs) :
    ((cs.foldl ClkInit.act regs) c.device.enableReg).getLsbD c.device.enableShift = true ∧
      ((cs.foldl ClkInit.act regs) c.device.resetReg).getLsbD c.device.resetShift = false := by
  -- the same initializations are made if that of `c` is made once more
  have hagain : cs.foldl ClkInit.act regs =
      MaskedWrite.applyAll c.device.effect (cs.foldl ClkInit.act regs) := by
    have hmem : ∀ c', c' ∈ cs ↔ c' ∈ cs ++ [c] := by
      intro c'
      rw [List.mem_append, List.mem_singleton]
      exact ⟨.inl, fun h => h.elim id (· ▸ hc)⟩
    refine (foldl_eq_of_mem_iff ClkInit.act_act hmem regs).trans ?_
    rw [List.foldl_append]
    rfl
  have hrunning :=
    (@ClkDevice.running_iff c.device (cs.foldl ClkInit.act regs) fun _ => True).2 trivial
  rw [hagain]
  exact ⟨hrunning.enabled, hrunning.released⟩

/-- The threads may be interleaved in any way.  As long as no write of the guest does harm, the
protected bits are those that the initializations leave when they run alone and one after the other.
So a device whose bits are protected has its clock and is out of reset once it has been
initialized. -/
theorem inits_undisturbed (hP : P.Documented) {as : List CarAct} {os : List Unit}
    (h : Run (HarmlessStep P nvUartaAsync) (booted regs) as os s) (hrest : s.inits = none) :
    ∃ final, ClkInit.run nvUartaAsync regs (as.filterMap CarAct.asked) = some final ∧
      P.SameProtected final s.regs ∧
      ∀ c ∈ as.filterMap CarAct.asked, (∀ a i, c.device.Owns a i → P.Protected a i) →
        (s.regs c.device.enableReg).getLsbD c.device.enableShift = true ∧
          (s.regs c.device.resetReg).getLsbD c.device.resetShift = false := by
  have hstep : ∀ as s a o s', Undisturbed P regs (as.filterMap CarAct.asked) s →
      HarmlessStep P nvUartaAsync s a o s' →
        Undisturbed P regs ((as ++ [a]).filterMap CarAct.asked) s' := by
    intro as s a o s' hI hs
    have hasked : [a].filterMap CarAct.asked = a.asked.toList := by
      cases ha : a.asked <;> simp [ha]
    rw [List.filterMap_append, hasked]
    exact hI.step hP hs
  have h₀ : Undisturbed P regs ([].filterMap CarAct.asked) (booted regs) := fun _ _ _ => rfl
  have hinv : Undisturbed P regs (([] ++ as).filterMap CarAct.asked) s :=
    h.invariant_along hstep h₀
  simp only [List.nil_append, Undisturbed, hrest] at hinv
  refine ⟨_, ClkInit.run_eq .., hinv, fun c hc howns => ?_⟩
  obtain ⟨henabled, hreleased⟩ := @enabled_of_mem regs _ _ hc
  rw [hinv _ _ (howns _ _ (.inr (.inl ⟨rfl, rfl⟩))), hinv _ _ (howns _ _ (.inl ⟨rfl, rfl⟩))]
  exact ⟨henabled, hreleased⟩

/-- A write of the guest to a register that is zero does no harm. -/
def clearStep (P : Platform) (nvUartaAsync : ℤ) (s : Car) (a : CarAct) : Option Car :=
  match a with
  | .access (.write addr _) => if s.regs addr = 0 then s.step P nvUartaAsync a else none
  | _ => s.step P nvUartaAsync a

theorem harmlessStep_of_clearStep {a : CarAct} (h : clearStep P nvUartaAsync s a = some s') :
    HarmlessStep P nvUartaAsync s a () s' := by
  unfold clearStep at h
  split at h
  · rename_i addr value
    obtain ⟨hzero, hs⟩ := Option.ite_none_right_eq_some.1 h
    refine ⟨hs, ?_⟩
    rintro _ ⟨⟩ _ _ _ _ _ _ i _
    rw [hzero, BitVec.ofNat_eq_ofNat, BitVec.getLsbD_zero]
  · rename_i hother
    refine ⟨h, ?_⟩
    rintro (addr | ⟨addr, value⟩) rfl
    · trivial
    · exact absurd rfl (hother addr value)

/-- The bits of SPI1 are protected. -/
theorem protected_spi {a i : ℕ} (h : ClkInit.spi.device.Owns a i) :
    Platform.tk1.Protected a i := by
  obtain ⟨rfl, rfl⟩ | ⟨rfl, rfl⟩ | rfl := h
  · exact Platform.documented_tk1.protected_spi1_uartB.2.1
  · exact Platform.documented_tk1.protected_spi1_uartB.1
  · trivial

/-- The guest enables USB2 while SPI1 is initialized, and UARTD later. -/
theorem inits_undisturbed_usb2 :
    ∃ s, (s.regs 0x14).getLsbD 9 = true ∧ (s.regs 0x14).getLsbD 26 = true ∧ ∃ os,
      Run (HarmlessStep .tk1 0) (booted fun _ => 0)
        [.call .spi, .init, .init, .access (.write 0x14 0x04000000), .init, .init, .init, .init,
          .init, .init, .reply, .access (.write 0x18 2)] os s := by
  obtain ⟨s, hs, hstate⟩ := (Option.any_eq_true
    (fun s : Car => s.inits.isNone && (s.regs 0x14).getLsbD 26) _).1
    (show ([.call .spi, .init, .init, .access (.write 0x14 0x04000000), .init, .init, .init, .init,
      .init, .init, .reply, .access (.write 0x18 2)].foldlM (clearStep .tk1 0)
        (booted fun _ => 0)).any _ = true by decide +kernel)
  obtain ⟨hrest, husb2⟩ := (Bool.and_eq_true _ _).mp hstate
  have hstep : ∀ s a s', clearStep .tk1 0 s a = some s' → ∃ o, HarmlessStep .tk1 0 s a o s' :=
    fun _ _ _ h => ⟨(), harmlessStep_of_clearStep h⟩
  obtain ⟨os, hrun⟩ := Run.of_foldlM hstep hs
  obtain ⟨final, -, -, hdevices⟩ := inits_undisturbed Platform.documented_tk1 hrun
    (Option.isNone_iff_eq_none.1 hrest)
  have hspi := hdevices .spi (by decide) fun a i => protected_spi
  exact ⟨s, hspi.1, husb2, os, hrun⟩

end Car

end Clock
end Tk1Bsp
