import Mathlib.Data.Int.Notation
import Mathlib.Data.List.Basic
import Tk1Bsp.Framework.Process

/-!
# The SPI component of `spi.c`

The component runs three kinds of code: `spi__init` once, `spi_transfer` for each call of a client,
and `spi1_int_handle` for each interrupt.  They share the buffers of the client's data port, the
bus, the mutex `spi_mutex` and the semaphore `bus_sem`, on which a transfer waits for its end.  Each
access to them is one atomic operation.

The bus driver is not part of this component.  Of `spi_xfer` the model has what the component is
promised: it refuses with a negative number, or it starts a transfer that ends in an interrupt, and
the handler for that interrupt stores what was received and calls back with a status.  What the
driver returns or reports is up to the driver, and is a parameter of an operation.
-/

namespace Tk1Bsp
namespace Spi

/-- `SPI_TRANS_MAX_SIZE`. -/
def spiTransMaxSize : ℕ := 255

/-- `CAN_APP_ID`. -/
def canAppId : ℤ := 1

/-! ## The slaves -/

/-- `spi_slave_config_t`. -/
structure SpiSlaveConfig where
  speedHz : ℕ
  nssUdelay : ℕ
  fbDelay : ℕ
  deriving DecidableEq

/-- `struct spi_slave`.  The port is the same for all, and the chip select of the table is not
used. -/
structure SpiSlave where
  id : ℤ
  cfg : SpiSlaveConfig
  deriving DecidableEq

/-- The entry of `slave_params` for the CAN controller. -/
def canSlave : SpiSlave := ⟨canAppId, ⟨10000000, 10, 1⟩⟩

/-- `slave_params`. -/
def slaveParams : List SpiSlave := [canSlave]

/-- `get_slave`. -/
def getSlave (id : ℤ) : Option SpiSlave := slaveParams.find? fun slave => slave.id = id

/-! ## State -/

/-- Where the bytes to send are. -/
inductive TxBuf
  | port
  | loopback
  deriving DecidableEq

/-- `loopback_tx`. -/
def loopbackTx : List (BitVec 8) :=
  [0x40, 0x24, 0x60, 0, 0, 0x8, 0x1, 0x2, 0x3, 0x4, 0x5, 0x6, 0x7, 0x8]

/-- What the bus does.  While the bytes go out, others come in (`echo`); the reply follows them. -/
inductive Bus
  | idle
  | shifting (txbuf : TxBuf) (wcount rcount : ℕ)
  | done (echo : ℕ → BitVec 8) (wcount : ℕ) (reply : List (BitVec 8))

/-- The state the threads of the component share, and the two buffers of `spi_dev_port_t`. -/
structure Component where
  txbuf : ℕ → BitVec 8
  rxbuf : ℕ → BitVec 8
  bus : Bus
  cfg : Option SpiSlaveConfig
  curSlaveId : ℤ
  status : ℤ
  spiMutex : Bool
  busSem : ℕ

namespace Component

/-- The state before `spi__init`, with the semaphore as the component framework makes it.  The
buffers and the local variable `status` hold anything. -/
def boot (txbuf rxbuf : ℕ → BitVec 8) (status : ℤ) : Component where
  txbuf := txbuf
  rxbuf := rxbuf
  bus := .idle
  cfg := none
  curSlaveId := -1
  status := status
  spiMutex := false
  busSem := 1

/-- The bytes that a transfer sends. -/
def outgoing (d : Component) (wcount : ℕ) : TxBuf → List (BitVec 8)
  | .port => (List.range wcount).map d.txbuf
  | .loopback => loopbackTx.take wcount

/-- Store what a transfer has received. -/
def receive (d : Component) (echo : ℕ → BitVec 8) (wcount : ℕ) (reply : List (BitVec 8)) :
    Component :=
  { d with
    bus := .idle
    rxbuf := fun i =>
      if i < wcount then echo i
      else if i < wcount + reply.length then reply.getD (i - wcount) 0
      else d.rxbuf i }

end Component

/-! ## Operations -/

/-- The atomic operations. -/
inductive Op
  | clkcarSpiClkInit
  | tegraSpiInit
  | getCurSlaveId
  | setCurSlaveId (id : ℤ)
  | spiPrepareTransfer (cfg : SpiSlaveConfig)
  | spiXfer (txbuf : TxBuf) (wcount rcount : ℕ)
  | spiHandleIrq
  | getStatus
  | setStatus (status : ℤ)
  | spiMutexLock
  | spiMutexUnlock
  | busSemWait
  | busSemPost
  | spi1IntAcknowledge

/-- What an operation returns.  `spi_handle_irq` returns the status with which it calls back, if a
transfer has ended. -/
@[reducible] def Ans : Op → Type
  | .getCurSlaveId | .getStatus | .spiXfer _ _ _ => ℤ
  | .spiHandleIrq => Option ℤ
  | _ => Unit

/-- Programs of the component. -/
abbrev Io := Prog Op Ans

/-- Perform an operation. -/
def op (o : Op) : Io (Ans o) := Prog.perform o

/-- The meaning of the operations, where the bus driver answers with `code`: the answer and the
state afterwards, or nothing if the operation has to wait, or is one that the driver is never asked
for. -/
def exec (code : ℤ) : (o : Op) → Component → Option (Ans o × Component)
  | .clkcarSpiClkInit, d => some ((), d)
  | .tegraSpiInit, d => some ((), d)
  | .getCurSlaveId, d => some (d.curSlaveId, d)
  | .setCurSlaveId id, d => some ((), { d with curSlaveId := id })
  | .spiPrepareTransfer cfg, d => some ((), { d with cfg := some cfg })
  | .spiXfer txbuf wcount rcount, d =>
      if code < 0 then some (code, d)
      else
        match d.bus with
        | .idle =>
            if wcount + rcount ≤ spiTransMaxSize then
              some (code, { d with bus := .shifting txbuf wcount rcount })
            else none
        | _ => none
  | .spiHandleIrq, d =>
      match d.bus with
      | .done echo wcount reply => some (some code, d.receive echo wcount reply)
      | _ => some (none, d)
  | .getStatus, d => some (d.status, d)
  | .setStatus status, d => some ((), { d with status := status })
  | .spiMutexLock, d => if d.spiMutex then none else some ((), { d with spiMutex := true })
  | .spiMutexUnlock, d => some ((), { d with spiMutex := false })
  | .busSemWait, d => if d.busSem = 0 then none else some ((), { d with busSem := d.busSem - 1 })
  | .busSemPost, d => some ((), { d with busSem := d.busSem + 1 })
  | .spi1IntAcknowledge, d => some ((), d)

/-! ## The code -/

/-- The end of `do_spi_transfer`. -/
def awaitStatus (ret : ℤ) : Io ℤ :=
  if 0 ≤ ret then do
    op .busSemWait
    op .getStatus
  else return ret

/-- `do_spi_transfer` from the comment "Begin the transfer" on. -/
def beginTransfer (txbuf : TxBuf) (wcount rcount : ℕ) : Io ℤ := do
  op .spiMutexLock
  let ret ← op (.spiXfer txbuf wcount rcount)
  op .spiMutexUnlock
  awaitStatus ret

/-- `do_spi_transfer`. -/
def doSpiTransfer (slave : SpiSlave) (txbuf : TxBuf) (wcount rcount : ℕ) : Io ℤ := do
  let cur ← op .getCurSlaveId
  if cur ≠ slave.id then do
    op (.spiPrepareTransfer slave.cfg)
    op (.setCurSlaveId slave.id)
    beginTransfer txbuf wcount rcount
  else beginTransfer txbuf wcount rcount

/-- `spi_transfer`.  The slave is the same for all values of `id`. -/
def spiTransfer (id : ℤ) (wcount rcount : ℕ) : Io ℤ :=
  match getSlave 1 with
  | none => return -1
  | some slave =>
      if id = 99 then do
        let _ ← doSpiTransfer slave .loopback 14 rcount
        doSpiTransfer slave .port wcount rcount
      else doSpiTransfer slave .port wcount rcount

/-- `spi_complete_callback`, if the driver calls it. -/
def spiCompleteCallback : Option ℤ → Io Unit
  | some status => do
      op (.setStatus status)
      op .busSemPost
  | none => return

/-- `spi1_int_handle`. -/
def spi1IntHandle : Io Unit := do
  op .spiMutexLock
  let completed ← op .spiHandleIrq
  spiCompleteCallback completed
  op .spiMutexUnlock
  op .spi1IntAcknowledge

/-- `spi__init`, where the bus can be initialised. -/
def spiInit : Io Unit := do
  op .clkcarSpiClkInit
  op .tegraSpiInit
  op .busSemWait

end Spi
end Tk1Bsp
