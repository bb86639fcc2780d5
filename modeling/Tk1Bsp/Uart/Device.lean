import Mathlib.Algebra.Group.Nat.Defs
import Mathlib.Data.Nat.Notation
import Mathlib.Logic.Function.Basic
import Tk1Bsp.Framework.Process

/-!
# The UART driver

`tk1_uart.c` makes synchronous calls of the asynchronous platform driver.  A call hands its request
to the platform driver and waits on a mutex that is always held; the callback asks for a release,
and the interrupt handler unlocks the mutex when it has given back the state mutex.

The platform driver is outside: what it does next is an `Outcome`.  It completes a request only in
`ps_cdev_handle_irq`, only if it has accepted it, and once; the descriptor that the callback finds
is a part of the outcome.
-/

namespace Tk1Bsp
namespace Uart

/-! ## Data -/

/-- The two directions of a UART. -/
inductive Channel
  | write
  | read
  deriving DecidableEq

/-- The part of `struct cdev_desc` for one direction: whether the dataport is connected, the mutex
on which a call waits, the request to release it, and the descriptor of the platform driver. -/
structure Line where
  buff : Bool
  syncMtx : Bool
  doRelease : Bool
  pending : Bool
  bytesRequested : ℕ
  bytesTransfered : BitVec 32

/-- `cdevs`. -/
structure Cdevs where
  pinst : Fin 3 → Bool
  stateMtx : Fin 3 → Bool
  line : Fin 3 → Channel → Line

/-- Replace one line. -/
def Cdevs.setLine (d : Cdevs) (u : Fin 3) (c : Channel) (l : Line) : Cdevs :=
  { d with line := Function.update d.line u (Function.update (d.line u) c l) }

@[simp] theorem Cdevs.line_setLine_self (d : Cdevs) (u : Fin 3) (c : Channel) (l : Line) :
    (d.setLine u c l).line u c = l := by
  simp [setLine]

theorem Cdevs.line_setLine_of_ne {d : Cdevs} {u u' : Fin 3} {c c' : Channel} {l : Line}
    (h : (u', c') ≠ (u, c)) : (d.setLine u' c' l).line u c = d.line u c := by
  by_cases hu : u = u'
  · subst hu
    have hc : c ≠ c' := fun hc => h (hc ▸ rfl)
    simp [setLine, hc]
  · simp [setLine, hu]

/-- `tk1_uart_write_cb` and `tk1_uart_read_cb`. -/
def Line.callback (l : Line) : Line :=
  if 0 < l.bytesRequested then { l with doRelease := true } else l

/-- The end of a request, with what the descriptor then says. -/
structure Completion where
  channel : Channel
  bytesRequested : ℕ
  bytesTransfered : BitVec 32

/-- What one run of `ps_cdev_handle_irq` completes, in order: each direction at most once. -/
structure Completions where
  list : List Completion
  nodup : (list.map Completion.channel).Nodup

/-- What the platform driver does next: whether `ps_cdev_init` finds a device, what `ps_cdev_write`
or `ps_cdev_read` returns, and the requests that `ps_cdev_handle_irq` completes. -/
structure Outcome where
  init : Bool
  ret : ℤ
  completions : Completions

/-! ## Operations -/

/-- The atomic operations. -/
inductive Op
  | getBuff (u : Fin 3) (c : Channel)
  | stateLock (u : Fin 3)
  | stateUnlock (u : Fin 3)
  | getPinst (u : Fin 3)
  | clkInit (u : Fin 3)
  | cdevInit (u : Fin 3)
  | cdevStart (u : Fin 3) (c : Channel) (nbytes : ℤ)
  | syncLock (u : Fin 3) (c : Channel)
  | syncUnlock (u : Fin 3) (c : Channel)
  | bytesTransfered (u : Fin 3) (c : Channel)
  | cdevHandleIrq (u : Fin 3)
  | callback (u : Fin 3) (e : Completion)
  | getRelease (u : Fin 3) (c : Channel)
  | clearRelease (u : Fin 3) (c : Channel)
  | irqAcknowledge (u : Fin 3)
  | assert (holds : Bool)

/-- What an operation returns. -/
@[reducible] def Ans : Op → Type
  | .getBuff _ _ | .getPinst _ | .cdevInit _ | .getRelease _ _ => Bool
  | .cdevStart _ _ _ => ℤ
  | .bytesTransfered _ _ => BitVec 32
  | .cdevHandleIrq _ => Completions
  | _ => Unit

theorem nonempty_ans (o : Op) : Nonempty (Ans o) := by
  cases o with
  | getBuff | getPinst | cdevInit | getRelease => exact ⟨true⟩
  | cdevStart => exact ⟨(0 : ℤ)⟩
  | bytesTransfered => exact ⟨(0 : BitVec 32)⟩
  | cdevHandleIrq => exact ⟨(⟨[], List.nodup_nil⟩ : Completions)⟩
  | _ => exact ⟨()⟩

/-- Programs of the driver. -/
abbrev Io := Prog Op Ans

/-- The meaning of the operations. -/
def exec (x : Outcome) : (o : Op) → Cdevs → Option (Ans o × Cdevs)
  | .getBuff u c, d => some ((d.line u c).buff, d)
  | .stateLock u, d =>
      if d.stateMtx u then none
      else some ((), { d with stateMtx := Function.update d.stateMtx u true })
  | .stateUnlock u, d => some ((), { d with stateMtx := Function.update d.stateMtx u false })
  | .getPinst u, d => some (d.pinst u, d)
  | .clkInit _, d => some ((), d)
  | .cdevInit u, d => some (x.init, { d with pinst := Function.update d.pinst u x.init })
  | .cdevStart u c _, d =>
      if 0 ≤ x.ret then some (x.ret, d.setLine u c { d.line u c with pending := true })
      else some (x.ret, d)
  | .syncLock u c, d =>
      if (d.line u c).syncMtx then none
      else some ((), d.setLine u c { d.line u c with syncMtx := true })
  | .syncUnlock u c, d => some ((), d.setLine u c { d.line u c with syncMtx := false })
  | .bytesTransfered u c, d => some ((d.line u c).bytesTransfered, d)
  | .cdevHandleIrq u, d =>
      if ∀ e ∈ x.completions.list, (d.line u e.channel).pending then some (x.completions, d)
      else none
  | .callback u e, d =>
      let l : Line :=
        { d.line u e.channel with
          pending := false
          bytesRequested := e.bytesRequested
          bytesTransfered := e.bytesTransfered }
      some ((), d.setLine u e.channel l.callback)
  | .getRelease u c, d => some ((d.line u c).doRelease, d)
  | .clearRelease u c, d => some ((), d.setLine u c { d.line u c with doRelease := false })
  | .irqAcknowledge _, d => some ((), d)
  | .assert holds, d => if holds then some ((), d) else none

/-- Perform an operation. -/
def op (o : Op) : Io (Ans o) := Prog.perform o

/-! ## Initialization -/

/-- The state after `memset`, with mutexes that nobody holds. -/
def cleared (buff : Fin 3 → Channel → Bool) : Cdevs where
  pinst := fun _ => false
  stateMtx := fun _ => false
  line := fun u c => ⟨buff u c, false, false, false, 0, 0⟩

/-- The locking of the mutexes in `tk1_uart__init`. -/
def tk1UartInit : Io Unit := do
  op (.syncLock 0 .write)
  op (.syncLock 1 .write)
  op (.syncLock 2 .write)
  op (.syncLock 0 .read)
  op (.syncLock 1 .read)
  op (.syncLock 2 .read)

/-! ## Calls -/

/-- The initialization of a device in its first call. -/
def initDevice (u : Fin 3) : Io Bool := do
  let pinst ← op (.getPinst u)
  if pinst then return true
  else do
    op (.clkInit u)
    op (.cdevInit u)

/-- `tk1_uart_write` and `tk1_uart_read`, for a UART of the driver. -/
def tk1UartTransfer (c : Channel) (u : Fin 3) (nbytes : ℤ) : Io ℤ := do
  let buff ← op (.getBuff u c)
  if buff then do
    op (.stateLock u)
    let ready ← initDevice u
    if ready then do
      let ret ← op (.cdevStart u c nbytes)
      op (.stateUnlock u)
      if ret < 0 then return ret
      else do
        op (.syncLock u c)
        let bytes ← op (.bytesTransfered u c)
        return bytes.toInt
    else return -1
  else return -1

/-- The UART that a number names.  `NV_UARTB_ASYNC`, `NV_UARTC_ASYNC` and `NV_UARTD_ASYNC` follow
`NV_UARTA_ASYNC`. -/
def uartIndex (nvUartaAsync uartNum : ℤ) : Option (Fin 3) :=
  if uartNum < nvUartaAsync ∨ uartNum ≥ nvUartaAsync + 3 then none
  else some (Fin.ofNat 3 (uartNum - nvUartaAsync).toNat)

/-- The common part of `tk1_uart_write` and `tk1_uart_read`. -/
def tk1UartCall (nvUartaAsync : ℤ) (c : Channel) (uartNum nbytes : ℤ) : Io ℤ :=
  match uartIndex nvUartaAsync uartNum with
  | none => return -1
  | some u => tk1UartTransfer c u nbytes

/-- `tk1_uart_write`. -/
def tk1UartWrite (nvUartaAsync uartNum nbytes : ℤ) : Io ℤ :=
  tk1UartCall nvUartaAsync .write uartNum nbytes

/-- `tk1_uart_read`. -/
def tk1UartRead (nvUartaAsync uartNum nbytes : ℤ) : Io ℤ :=
  tk1UartCall nvUartaAsync .read uartNum nbytes

/-! ## Interrupts -/

/-- The callbacks that `ps_cdev_handle_irq` makes. -/
def runCallbacks (u : Fin 3) : List Completion → Io Unit
  | [] => return
  | e :: rest => do
      op (.callback u e)
      runCallbacks u rest

/-- The release of a caller. -/
def releaseCaller (u : Fin 3) (c : Channel) : Io Unit := do
  let release ← op (.getRelease u c)
  if release then do
    op (.clearRelease u c)
    op (.syncUnlock u c)
  else return

/-- `tk1_uart_irq_handler`. -/
def tk1UartIrqHandler (u : Fin 3) : Io Unit := do
  let pinst ← op (.getPinst u)
  op (.assert pinst)
  op (.stateLock u)
  let completions ← op (.cdevHandleIrq u)
  runCallbacks u completions.list
  op (.stateUnlock u)
  releaseCaller u .write
  releaseCaller u .read

/-- `tk1_uarta_irq_handle`, `tk1_uartb_irq_handle` and `tk1_uartc_irq_handle`. -/
def tk1UartIrqHandle (u : Fin 3) : Io Unit := do
  tk1UartIrqHandler u
  op (.irqAcknowledge u)

/-! ## What a program concerns -/

/-- An operation that concerns one UART, and of its lines only those of some directions. -/
def Op.About (u : Fin 3) (C : Channel → Prop) : Op → Prop
  | .getBuff u' c | .cdevStart u' c _ | .syncLock u' c | .syncUnlock u' c | .bytesTransfered u' c
  | .getRelease u' c | .clearRelease u' c => u' = u ∧ C c
  | .callback u' e => u' = u ∧ C e.channel
  | .stateLock u' | .stateUnlock u' | .getPinst u' | .clkInit u' | .cdevInit u'
  | .cdevHandleIrq u' | .irqAcknowledge u' => u' = u
  | .assert _ => True

section About

variable {u : Fin 3} {c : Channel} {C : Channel → Prop}

theorem about_initDevice (u : Fin 3) (C : Channel → Prop) :
    (initDevice u).Every (Op.About u C) := by
  refine ⟨rfl, fun pinst => ?_⟩
  cases pinst with
  | false => exact ⟨rfl, fun _ => ⟨rfl, fun _ => trivial⟩⟩
  | true => trivial

/-- A call concerns its own line only. -/
theorem about_transfer (c : Channel) (u : Fin 3) (nbytes : ℤ) :
    (tk1UartTransfer c u nbytes).Every (Op.About u (· = c)) := by
  simp only [tk1UartTransfer, op, Prog.bind_eq, Prog.perform_bind]
  refine ⟨⟨rfl, rfl⟩, fun buff => ?_⟩
  cases buff with
  | false => trivial
  | true =>
      refine ⟨rfl, fun _ => (about_initDevice u _).bind fun ready => ?_⟩
      cases ready with
      | false => trivial
      | true =>
          refine ⟨⟨rfl, rfl⟩, fun ret => ⟨rfl, fun _ => ?_⟩⟩
          dsimp only
          split
          · trivial
          · exact ⟨⟨rfl, rfl⟩, fun _ => ⟨⟨rfl, rfl⟩, fun _ => trivial⟩⟩

theorem about_runCallbacks {es : List Completion} (h : ∀ e ∈ es, C e.channel) :
    (runCallbacks u es).Every (Op.About u C) := by
  induction es with
  | nil => trivial
  | cons e es ih =>
      exact ⟨⟨rfl, h e List.mem_cons_self⟩,
        fun _ => ih fun e' he' => h e' (List.mem_cons_of_mem e he')⟩

theorem about_releaseCaller (h : C c) : (releaseCaller u c).Every (Op.About u C) := by
  refine ⟨⟨rfl, h⟩, fun release => ?_⟩
  cases release with
  | false => trivial
  | true => exact ⟨⟨rfl, h⟩, fun _ => ⟨⟨rfl, h⟩, fun _ => trivial⟩⟩

/-- A handler concerns its UART. -/
theorem about_irqHandle (u : Fin 3) :
    (tk1UartIrqHandle u).Every (Op.About u fun _ => True) := by
  simp only [tk1UartIrqHandle, tk1UartIrqHandler, op, Prog.bind_eq, Prog.perform_bind]
  refine Prog.Every.bind ?_ fun _ => ⟨rfl, fun _ => trivial⟩
  refine ⟨rfl, fun pinst => ⟨trivial, fun _ => ⟨rfl, fun _ => ⟨rfl, fun l => ?_⟩⟩⟩⟩
  refine (about_runCallbacks fun _ _ => trivial).bind fun _ => ⟨rfl, fun _ => ?_⟩
  exact (about_releaseCaller trivial).bind fun _ => about_releaseCaller trivial

end About

end Uart
end Tk1Bsp
