import Tk1Bsp.Can.Controller

/-!
# The interrupt handler of `irq.c` and the calls of `dev.c`

The handler and the calls as programs over the operations of the driver.  A `do ... while` loop of
the source that ends by what other threads do is given by its body; the thread that runs it starts
the body again (`Can.System`).  Log messages are left out.
-/

namespace Tk1Bsp
namespace Can

/-! ## Errors -/

/-- `report_message_error`. -/
def reportMessageError : Io Unit := do
  let mode ← getMode
  if mode = OpMode.listen.code then do
    setMode .config
    setMode .listen
    mcp2515BitModify canintf 0x80 0
  else mcp2515BitModify canintf 0x80 0

/-- `report_error`. -/
def reportError : Io Unit := do
  let flags ← mcp2515ReadReg eflg
  if flags &&& eflgRxovr ≠ 0 then do
    mcp2515BitModify eflg (flags &&& eflgRxovr) 0
    mcp2515BitModify canintf canintfErrif 0
  else mcp2515BitModify canintf canintfErrif 0

/-! ## Transmission -/

/-- The body of the loop of `transmit_message` for a buffer whose flag was set.  The mask of the
control bit is inside the parentheses of the read, so the wait is for a register that is no
transmit control register. -/
def serveTxb (i : Fin 3) (rts : BitVec 8) : Io (BitVec 8) := do
  canidClearCache i
  op (.txbAck i)
  let popped ← txQueuePop
  match popped with
  | some frame => do
      op (.spinWhileNonzero (txbctrl i &&& txbctrlTxreq))
      loadTxb i frame
      return rts ||| 1#8 <<< i.val
  | none => do
      op .txbLock
      op (.setXmitStopped true)
      op .txbUnlock
      return rts

/-- The loop of `transmit_message`. -/
def transmitLoop (tx : BitVec 8) : List (Fin 3) → BitVec 8 → Io (BitVec 8)
  | [], rts => return rts
  | i :: is, rts =>
      if tx.getLsbD i then do
        let rts ← serveTxb i rts
        transmitLoop tx is rts
      else transmitLoop tx is rts

/-- `transmit_message`. -/
def transmitMessage (tx : BitVec 8) : Io Unit := do
  mcp2515BitModify canintf (tx <<< 2) 0
  let rts ← transmitLoop tx [2, 1, 0] 0
  mcp2515Rts rts

/-! ## Reception -/

/-- The body of `receive_message` for one receive buffer. -/
def receiveRxb (rxbIdx : ℤ) (frame : CanFrame) : Io CanFrame := do
  let frame ← recvRxb rxbIdx frame
  let _ ← rxQueuePush frame
  op .queueLockPost
  return frame

/-- `if (rx & BIT(i))` around the body of `receive_message`. -/
def receiveIf (rx : BitVec 8) (i : ℕ) (frame : CanFrame) : Io CanFrame :=
  if rx.getLsbD i then receiveRxb i frame else return frame

/-- `receive_message`.  The local `frame` starts with whatever is on the stack. -/
def receiveMessage (rx : BitVec 8) (frame : CanFrame) : Io Unit := do
  let frame ← receiveIf rx 0 frame
  let _ ← receiveIf rx 1 frame

/-! ## The handler -/

/-- `if (flags & mask)`. -/
def onFlag (flags mask : BitVec 8) (p : Io Unit) : Io Unit :=
  if flags &&& mask ≠ 0 then p else return

/-- The part of `irq_handler` after the flags have been read. -/
def handleFlags (flags : BitVec 8) (frame : CanFrame) : Io Unit := do
  onFlag flags canintfMerrf reportMessageError
  onFlag flags canintfWakif (mcp2515BitModify canintf canintfWakif 0)
  onFlag flags canintfErrif reportError
  onFlag flags txifMask (transmitMessage ((flags &&& txifMask) >>> 2))
  onFlag flags rxifMask (receiveMessage (flags &&& rxifMask) frame)
  op .intAck

/-- `irq_handler`. -/
def irqHandler (frame : CanFrame) : Io Unit := do
  let flags ← mcp2515ReadReg canintf
  handleFlags flags frame

/-! ## Calls -/

/-- The loop of `start_xmit`. -/
def raiseLoop : List (Fin 3) → Io Unit
  | [] => return
  | i :: is => do
      let ctrl ← mcp2515ReadReg (txbctrl i)
      if ctrl &&& txbctrlTxreq = 0 then do
        mcp2515BitModify canintf (canintfTx0if <<< i.val) 0xFF
        op (.setXmitStopped false)
        raiseLoop is
      else raiseLoop is

/-- `start_xmit`. -/
def startXmit : Io Unit := do
  let stopped ← op .getXmitStopped
  if stopped then do
    op .txbLock
    raiseLoop [0, 1, 2]
    op .txbUnlock
  else return

/-- The body of the loop of `can_send`, which runs again while this returns a negative number. -/
def canSend (frame : CanFrame) : Io ℤ := do
  let ret ← txQueuePush frame
  startXmit
  return ret

/-- `can_sendto`. -/
def canSendto (txbIdx : ℤ) (frame : CanFrame) : Io ℤ := do
  let status ← txbStatus txbIdx
  if status = .idle then do
    let prio ← getFramePriority txbIdx frame.ident
    loadTxb txbIdx { frame with prio := BitVec.ofInt 2 prio }
    mcp2515Rts (1#8 <<< txbIdx.toNat)
    return 0
  else return -1

/-- `can_recv`: the frame it fills in, or nothing where it leaves the caller's frame alone. -/
def canRecv : Io (Option CanFrame) := do
  op .queueLockWait
  rxQueuePop

/-! ## Initialization -/

/-- `mq_init`, where memory can be had. -/
def mqInit (size : ℕ) (h : 0 < size) (d : Driver) : Driver :=
  { d with txq := .empty 0 size h, rxq := .empty size size h }

/-- `MSG_QUEUE_SIZE`. -/
def msgQueueSize : ℕ := 128

theorem msgQueueSize_pos : 0 < msgQueueSize := by decide

/-- `can__init`, which takes the semaphore; nothing if it has to wait. -/
def canInit (d : Driver) : Option Driver :=
  (exec .queueLockWait d).map fun rs => mqInit msgQueueSize msgQueueSize_pos rs.2

end Can
end Tk1Bsp
