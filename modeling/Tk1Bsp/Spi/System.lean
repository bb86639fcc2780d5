import Tk1Bsp.Can.System
import Tk1Bsp.Spi.Server

/-!
# The CAN component on the SPI component

In `Can.System` an SPI transaction is one operation.  In the code it is many: the thread takes
`spi_lock`, stores the bytes of its command into the shared buffer one after the other, calls
`spi_transfer` in the other component, copies the reply out of the shared buffer, and gives the
lock back (`transact`).  This is the system that takes these steps one at a time.  The two threads
of the CAN component, the thread that serves the calls of `spi_transfer`, the thread that handles
the SPI interrupts, the bus and the controller all go on in any order.

The programs of the CAN threads are those of `Can.System`.  A thread that has come to an SPI
operation runs a command in its place (`System.cmd`), and goes on with the reply.
-/

namespace Tk1Bsp
namespace Spi

open Can (CanFrame ChipEvent)

/-! ## The commands of `spi_cmd.c` -/

/-- What a command does to the lock and to the shared buffer, and the call of the other component,
which has a beginning and an end. -/
inductive CmdOp
  | spiLockLock
  | spiLockUnlock
  | setTxbuf (i : ℕ) (byte : BitVec 8)
  | spiTransfer (id : ℤ) (wcount rcount : ℕ)
  | spiTransferReturn
  | getRxbuf (i : ℕ)

/-- What an operation returns. -/
@[reducible] def CmdAns : CmdOp → Type
  | .spiTransferReturn => ℤ
  | .getRxbuf _ => BitVec 8
  | _ => Unit

/-- Programs of a command. -/
abbrev Cmd := Prog CmdOp CmdAns

/-- Perform an operation. -/
def cmdOp (o : CmdOp) : Cmd (CmdAns o) := Prog.perform o

/-- Store bytes into `spi_dev->txbuf` from an index on. -/
def storeTxbuf : ℕ → List (BitVec 8) → Cmd Unit
  | _, [] => return
  | i, byte :: bytes => do
      cmdOp (.setTxbuf i byte)
      storeTxbuf (i + 1) bytes

/-- Read bytes from `spi_dev->rxbuf` from an index on, behind those read already. -/
def loadRxbuf : ℕ → ℕ → List (BitVec 8) → Cmd (List (BitVec 8))
  | _, 0, bytes => return bytes
  | i, n + 1, bytes => do
      let byte ← cmdOp (.getRxbuf i)
      loadRxbuf (i + 1) n (bytes ++ [byte])

/-- `DEV_ID`. -/
def devId : ℤ := canAppId

/-- What all functions of `spi_cmd.c` do: send a command and return the reply.  They ignore what
`spi_transfer` returns. -/
def transact (txbuf : List (BitVec 8)) (rcount : ℕ) : Cmd (List (BitVec 8)) := do
  cmdOp .spiLockLock
  storeTxbuf 0 txbuf
  cmdOp (.spiTransfer devId txbuf.length rcount)
  let _ ← cmdOp .spiTransferReturn
  let reply ← loadRxbuf txbuf.length rcount []
  cmdOp .spiLockUnlock
  return reply

/-! ## The threads of the CAN component -/

/-- The two threads. -/
inductive Tid
  | client
  | handler
  deriving DecidableEq

/-- The step of a thread in `Can.System`. -/
def Tid.act : Tid → Can.Act
  | client => .client
  | handler => .handler

/-- The command that a program has come to, if it has come to one. -/
def command {α : Type} : Can.Io α → Option (List (BitVec 8) × ℕ)
  | .call (.spi txbuf rcount) _ => some (txbuf, rcount)
  | .call (.spinWhileNonzero reg) _ => some ([0x03, reg], 1)
  | _ => none

/-- What is left of a program when the reply to its command is there.  The loop
`while (mcp2515_read_reg(reg));` goes round once more if a register was not zero. -/
def proceed {α : Type} (reply : List (BitVec 8)) : Can.Io α → Can.Io α
  | .call (.spi _ _) k => k reply
  | .call (.spinWhileNonzero reg) k =>
      if reply.headD 0 = 0 then k () else .call (.spinWhileNonzero reg) k
  | p => p

/-- The command that a thread has come to. -/
def commandOf (s : Can.System) : Tid → Option (List (BitVec 8) × ℕ)
  | .client => s.client.bind fun cp => command cp.2
  | .handler => command s.handler

/-- Let a thread go on with the reply to its command. -/
def answer (s : Can.System) (reply : List (BitVec 8)) : Tid → Can.System
  | .client => { s with client := s.client.map fun cp => (cp.1, proceed reply cp.2) }
  | .handler => { s with handler := proceed reply s.handler }

/-! ## The system -/

/-- The call of `spi_transfer` on its way between the components. -/
inductive Rpc
  | idle
  | called (id : ℤ) (wcount rcount : ℕ)
  | running
  | returned (ret : ℤ)

/-- Both components and the hardware: what is left of the command of each CAN thread, of the call
that is being served, and of the interrupt handler. -/
structure System where
  can : Can.System
  cmd : Tid → Option (Cmd (List (BitVec 8)))
  spiLock : Bool
  rpc : Rpc
  server : Option (Io ℤ)
  interrupt : Io Unit
  spi : Component

/-- What can happen.  The bus driver answers the SPI component with `code`. -/
inductive Act
  | call (c : Can.Call)
  | irq (frame : CanFrame)
  | chip (e : ChipEvent)
  | thread (t : Tid)
  | server (code : ℤ)
  | interrupt (code : ℤ)
  | exchange (echo : ℕ → BitVec 8)

namespace System

/-- Perform an operation of a command. -/
def execCmd : (o : CmdOp) → System → Option (CmdAns o × System)
  | .spiLockLock, s => if s.spiLock then none else some ((), { s with spiLock := true })
  | .spiLockUnlock, s => some ((), { s with spiLock := false })
  | .setTxbuf i byte, s =>
      if i < spiTransMaxSize then
        some ((), { s with spi := { s.spi with txbuf := Function.update s.spi.txbuf i byte } })
      else none
  | .spiTransfer id wcount rcount, s =>
      match s.rpc with
      | .idle => some ((), { s with rpc := .called id wcount rcount })
      | _ => none
  | .spiTransferReturn, s =>
      match s.rpc with
      | .returned ret => some (ret, { s with rpc := .idle })
      | _ => none
  | .getRxbuf i, s => if i < spiTransMaxSize then some (s.spi.rxbuf i, s) else none

/-- Go on with a command, or with the program behind it if it has returned. -/
def resume (s : System) (t : Tid) : Cmd (List (BitVec 8)) → System
  | .ret reply => { s with can := answer s.can reply t, cmd := Function.update s.cmd t none }
  | p => { s with cmd := Function.update s.cmd t (some p) }

/-- A step of a thread of the CAN component. -/
def stepThread (s : System) (t : Tid) : Option System :=
  match s.cmd t with
  | none =>
      match commandOf s.can t with
      | some (txbuf, rcount) => some (s.resume t (transact txbuf rcount))
      | none => (s.can.step t.act).map fun can => { s with can := can }
  | some (.ret _) => none
  | some (.call o k) => (execCmd o s).map fun rs => rs.2.resume t (k rs.1)

/-- A step of the thread that serves the calls of `spi_transfer`. -/
def stepServer (s : System) (code : ℤ) : Option System :=
  match s.server with
  | none =>
      match s.rpc with
      | .called id wcount rcount =>
          some { s with rpc := .running, server := some (spiTransfer id wcount rcount) }
      | _ => none
  | some (.ret ret) => some { s with rpc := .returned ret, server := none }
  | some (.call o k) =>
      (exec code o s.spi).map fun rd => { s with server := some (k rd.1), spi := rd.2 }

/-- A step of the thread that handles the SPI interrupts.  One can come at any time. -/
def stepInterrupt (s : System) (code : ℤ) : Option System :=
  match s.interrupt with
  | .ret () => some { s with interrupt := spi1IntHandle }
  | .call o k => (exec code o s.spi).map fun rd => { s with interrupt := k rd.1, spi := rd.2 }

/-- The bus exchanges the bytes of a transfer with the controller. -/
def stepExchange (s : System) (echo : ℕ → BitVec 8) : Option System :=
  match s.spi.bus with
  | .shifting txbuf wcount rcount =>
      let sent := s.spi.outgoing wcount txbuf
      let (reply, chip) := s.can.driver.chip.spi sent rcount
      some { s with
        can := { s.can with
          driver := { s.can.driver with chip := chip }
          history := s.can.history.record (.spi sent rcount) }
        spi := { s.spi with bus := .done echo wcount reply } }
  | _ => none

/-- One step; nothing if it cannot be taken. -/
def step (s : System) : Act → Option System
  | .call c => (s.can.step (.call c)).map fun can => { s with can := can }
  | .irq frame => (s.can.step (.irq frame)).map fun can => { s with can := can }
  | .chip e => (s.can.step (.chip e)).map fun can => { s with can := can }
  | .thread t => s.stepThread t
  | .server code => s.stepServer code
  | .interrupt code => s.stepInterrupt code
  | .exchange echo => s.stepExchange echo

/-- The step relation. -/
def Step (s : System) (a : Act) (_ : Unit) (s' : System) : Prop := s.step a = some s'

/-- Both components with all threads at rest. -/
def atRest (can : Can.System) (spi : Component) : System where
  can := can
  cmd _ := none
  spiLock := false
  rpc := .idle
  server := none
  interrupt := .ret ()
  spi := spi

/-- The start: the CAN component has been started, and `spi__init` has been run. -/
def Starts (can : Can.System) (s : System) : Prop :=
  ∃ txbuf rxbuf status code spi,
    spiInit.run (exec code) (Component.boot txbuf rxbuf status) = some ((), spi) ∧
      s = atRest can spi

end System

end Spi
end Tk1Bsp
