import Tk1Bsp.Can.Mcp2515
import Tk1Bsp.Framework.Process
import Tk1Bsp.Framework.RingBuffer

/-!
# The state of the CAN driver and its atomic operations

What the threads of the CAN component share: the controller, the two message queues of `queue.c`,
the identifier cache of `prio.c`, `xmit_stopped` and `txb_lock` of `irq.c`, and the semaphore
`queue_lock`.  The driver is a program over atomic operations on this state (`Io`): an SPI
transaction, which `spi_lock` makes indivisible; the test and the locked update of a queue; an
access to the cache or to `xmit_stopped`; taking and giving back a lock or a semaphore; and the
emission of an event.

Two operations are loops or worse.  `spinWhileNonzero` is `while (mcp2515_read_reg(reg));`, which
ends with a read that returns zero and leaves no trace of the reads before.  `undefined` is an
access outside of an array, from which the model does not go on.
-/

namespace Tk1Bsp
namespace Can

/-! ## State -/

/-- `struct mq_cb`: `frames` is the index of the first slot in the shared allocation.  Its lock is
part of the operations. -/
abbrev MqCb := Ring

/-- Which of the two queues. -/
inductive QueueId
  | tx
  | rx
  deriving DecidableEq

/-- `struct canid_cache`. -/
structure CanidCache where
  canid : BitVec 29
  exide : Bool
  priority : BitVec 2
  deriving DecidableEq

/-- `txb_cache`. -/
abbrev TxbCache := Fin 3 → CanidCache

/-- The state the threads share. -/
structure Driver where
  chip : Chip
  txq : MqCb
  rxq : MqCb
  frames : ℕ → CanFrame
  txbCache : TxbCache
  xmitStopped : Bool
  txbLock : Bool
  queueLock : ℕ
  txbAck : Fin 3 → ℕ
  intAck : ℕ

namespace Driver

/-- The control block of a queue. -/
def queue (d : Driver) : QueueId → MqCb
  | .tx => d.txq
  | .rx => d.rxq

/-- Replace the control block of a queue. -/
def setQueue (d : Driver) (cb : MqCb) : QueueId → Driver
  | .tx => { d with txq := cb }
  | .rx => { d with rxq := cb }

/-- The frames in a queue, oldest first. -/
def queued (d : Driver) (q : QueueId) : List CanFrame := (d.queue q).contents d.frames

end Driver

/-! ## The queue primitives of `queue.c` -/

/-- `mq_is_full`. -/
def mqIsFull (cb : MqCb) : Bool := cb.succ cb.tail == cb.head

/-- `mq_is_empty`. -/
def mqIsEmpty (cb : MqCb) : Bool := cb.tail == cb.head

/-- `mq_append_msg`. -/
def mqAppendMsg (d : Driver) (q : QueueId) (frame : CanFrame) : Driver :=
  let cb := d.queue q
  { d with frames := Function.update d.frames (cb.base + cb.tail) frame }.setQueue cb.push q

/-- `mq_remove_msg`. -/
def mqRemoveMsg (d : Driver) (q : QueueId) : CanFrame × Driver :=
  let cb := d.queue q
  (d.frames (cb.base + cb.head), d.setQueue cb.pop q)

/-! ## Operations -/

/-- The atomic operations. -/
inductive Op
  | spi (txbuf : List (BitVec 8)) (rcount : ℕ)
  | spinWhileNonzero (reg : BitVec 8)
  | mqIsFull (q : QueueId)
  | mqIsEmpty (q : QueueId)
  | mqAppend (q : QueueId) (frame : CanFrame)
  | mqRemove (q : QueueId)
  | txbCache (f : TxbCache → TxbCache)
  | getXmitStopped
  | setXmitStopped (b : Bool)
  | txbLock
  | txbUnlock
  | queueLockWait
  | queueLockPost
  | txbAck (i : Fin 3)
  | intAck
  | undefined

/-- What an operation returns. -/
@[reducible] def Ans : Op → Type
  | .spi _ _ => List (BitVec 8)
  | .mqIsFull _ | .mqIsEmpty _ | .getXmitStopped => Bool
  | .mqRemove _ => CanFrame
  | .txbCache _ => TxbCache
  | .undefined => Empty
  | _ => Unit

/-- Programs of the driver. -/
abbrev Io := Prog Op Ans

/-- The meaning of the operations: the answer and the state afterwards, or nothing if the
operation has to wait. -/
def exec : (o : Op) → Driver → Option (Ans o × Driver)
  | .spi txbuf rcount, d =>
      let (received, chip) := d.chip.spi txbuf rcount
      some (received, { d with chip := chip })
  | .spinWhileNonzero reg, d => if d.chip.read (toAddr reg) = 0 then some ((), d) else none
  | .mqIsFull q, d => some (Can.mqIsFull (d.queue q), d)
  | .mqIsEmpty q, d => some (Can.mqIsEmpty (d.queue q), d)
  | .mqAppend q frame, d => some ((), mqAppendMsg d q frame)
  | .mqRemove q, d => some (mqRemoveMsg d q)
  | .txbCache f, d => some (d.txbCache, { d with txbCache := f d.txbCache })
  | .getXmitStopped, d => some (d.xmitStopped, d)
  | .setXmitStopped b, d => some ((), { d with xmitStopped := b })
  | .txbLock, d => if d.txbLock then none else some ((), { d with txbLock := true })
  | .txbUnlock, d => some ((), { d with txbLock := false })
  | .queueLockWait, d =>
      if d.queueLock = 0 then none else some ((), { d with queueLock := d.queueLock - 1 })
  | .queueLockPost, d => some ((), { d with queueLock := d.queueLock + 1 })
  | .txbAck i, d => some ((), { d with txbAck := Function.update d.txbAck i (d.txbAck i + 1) })
  | .intAck, d => some ((), { d with intAck := d.intAck + 1 })
  | .undefined, _ => none

/-! ## The SPI instructions of `spi_cmd.c` -/

/-- Perform an operation. -/
def op (o : Op) : Io (Ans o) := Prog.perform o

/-- `mcp2515_read_reg`. -/
def mcp2515ReadReg (reg : BitVec 8) : Io (BitVec 8) := do
  let rxbuf ← op (.spi [0x03, reg] 1)
  return rxbuf.headD 0

/-- `mcp2515_read_nregs`. -/
def mcp2515ReadNregs (reg : BitVec 8) (count : ℕ) : Io (List (BitVec 8)) :=
  op (.spi [0x03, reg] count)

/-- `mcp2515_write_nregs`. -/
def mcp2515WriteNregs (reg : BitVec 8) (buf : List (BitVec 8)) : Io Unit := do
  let _ ← op (.spi (0x02 :: reg :: buf) 0)

/-- `mcp2515_bit_modify`. -/
def mcp2515BitModify (reg mask val : BitVec 8) : Io Unit := do
  let _ ← op (.spi [0x05, reg, mask, val] 0)

/-- `mcp2515_rts`. -/
def mcp2515Rts (mask : BitVec 8) : Io Unit := do
  let _ ← op (.spi [0x80 ||| mask] 0)

/-- `mcp2515_load_txb`. -/
def mcp2515LoadTxb (buf : List (BitVec 8)) (idx flag : BitVec 8) : Io Unit := do
  let mask := (idx * 2) ||| flag
  let _ ← op (.spi ((0x40 ||| mask) :: buf) 0)

/-- `mcp2515_read_rxb`.  The mask ignores the buffer index and the flag. -/
def mcp2515ReadRxb (len : ℕ) (_idx _flag : BitVec 8) : Io (List (BitVec 8)) := do
  let mask := 0
  op (.spi [0x90 ||| mask] len)

/-! ## The queues of `queue.c` -/

/-- `tx_queue_push` and `rx_queue_push`. -/
def queuePush (q : QueueId) (frame : CanFrame) : Io ℤ := do
  let full ← op (.mqIsFull q)
  if full then
    return -1
  else do
    op (.mqAppend q frame)
    return 0

/-- `tx_queue_pop` and `rx_queue_pop`. -/
def queuePop (q : QueueId) : Io (Option CanFrame) := do
  let empty ← op (.mqIsEmpty q)
  if empty then
    return none
  else do
    let frame ← op (.mqRemove q)
    return some frame

/-- `tx_queue_push`. -/
def txQueuePush : CanFrame → Io ℤ := queuePush .tx
/-- `tx_queue_pop`. -/
def txQueuePop : Io (Option CanFrame) := queuePop .tx
/-- `rx_queue_push`. -/
def rxQueuePush : CanFrame → Io ℤ := queuePush .rx
/-- `rx_queue_pop`. -/
def rxQueuePop : Io (Option CanFrame) := queuePop .rx

end Can
end Tk1Bsp
