import Tk1Bsp.Can.Irq

/-!
# Setting up the controller, and the other calls of `dev.c`

Reset, bit timing, interrupts and receive modes, and the calls of the client that do not send or
receive through a queue.  The bit timing is computed in machine integers, with the stores into
variables of eight bits; a division by zero has no result.  The registration of the interrupt
handler belongs to the component framework and is left out.
-/

namespace Tk1Bsp
namespace Can

/-! ## Instructions -/

/-- `mcp2515_reset`. -/
def mcp2515Reset : Io Unit := do
  let _ ← op (.spi [0xC0] 0)

/-- `mcp2515_write_reg`. -/
def mcp2515WriteReg (reg val : BitVec 8) : Io Unit := do
  let _ ← op (.spi [0x02, reg, val] 0)

/-! ## Bit timing -/

/-- `CNF3`; `CNF2` and `CNF1` follow. -/
def cnf3 : BitVec 8 := 0x28

/-- `CNF2_BTLMODE`. -/
def cnf2Btlmode : BitVec 8 := 0x80

/-- `hw_set_bit_timing`. -/
def hwSetBitTiming (sjw brp propseg phseg1 phseg2 : BitVec 8) : Io Unit :=
  mcp2515WriteNregs cnf3
    [phseg2 - 1, cnf2Btlmode ||| (phseg1 - 1) <<< 3 ||| (propseg - 1), (sjw - 1) <<< 6 ||| (brp - 1)]

/-- `DIV_ROUND`, for a divisor that is not zero. -/
def divRound (n d : BitVec 32) : BitVec 32 := (n + d / 2) / d

/-- `NS_IN_S`. -/
def nsInS : BitVec 32 := 1000000000

/-- `OSC_FREQ`. -/
def oscFreq : BitVec 32 := 20000000

/-- `TIME_PER_TICK`. -/
def timePerTick : BitVec 32 := divRound nsInS oscFreq

/-- `MIN_TQ_NUM`. -/
def minTqNum : ℕ := 8

/-- `MAX_TQ_NUM`. -/
def maxTqNum : ℕ := 25

/-- `SAMPLE_POINT`. -/
def samplePoint : ℕ := 30

/-- `error` in `set_baudrate`. -/
def tickError (tqTime : BitVec 32) : BitVec 32 :=
  let error := tqTime % timePerTick
  if 2 * error > timePerTick then timePerTick - error else error

/-- The loop of `set_baudrate`: the first number of quanta with the smallest error. -/
def bestTqNum (bitTime : BitVec 32) : BitVec 8 :=
  let consider (best : BitVec 32 × BitVec 8) (i : ℕ) : BitVec 32 × BitVec 8 :=
    let error := tickError (divRound bitTime (BitVec.ofNat 32 i))
    if error < best.1 then (error, BitVec.ofNat 8 i) else best
  ((List.range' minTqNum (maxTqNum + 1 - minTqNum)).foldl consider
    (0xFFFFFFFF, BitVec.ofNat 8 minTqNum)).2

/-- The segments that `set_baudrate` makes of the quanta: `propseg`, `phseg1` and `phseg2`. -/
def segments (tqNum : BitVec 8) : BitVec 8 × BitVec 8 × BitVec 8 :=
  let phseg2 := BitVec.ofNat 8 ((tqNum.toNat * samplePoint + 50) / 100)
  let propseg := tqNum - 1 - phseg2 - phseg2
  if propseg > 2 then (2, phseg2 + (propseg - 2), phseg2) else (propseg, phseg2, phseg2)

/-- `set_baudrate`. -/
def setBaudrate (baudrate : BitVec 32) : Io Unit :=
  let tqNum := bestTqNum (divRound nsInS baudrate)
  let divisor := 2 * baudrate * tqNum.setWidth 32
  if baudrate = 0 ∨ divisor = 0 then do
    let absurd ← op .undefined
    nomatch absurd
  else
    let brp := (divRound oscFreq divisor).setWidth 8
    let (propseg, phseg1, phseg2) := segments tqNum
    hwSetBitTiming 1 brp propseg phseg1 phseg2

/-! ## Modes -/

/-- `rxm_mode_t`. -/
inductive RxmMode
  | both
  | sidOnly
  | eidOnly
  | any
  deriving DecidableEq

/-- The value of a mode in `RXBCTRL`. -/
def RxmMode.code : RxmMode → BitVec 8
  | both => 0
  | sidOnly => 1
  | eidOnly => 2
  | any => 3

/-- `RXBCTRL_RXM_MASK`. -/
def rxbctrlRxmMask : BitVec 8 := 0x60

/-- `set_rx_mode`. -/
def setRxMode (rxbIdx : ℤ) (mode : RxmMode) : Io Unit :=
  if rxbIdx > 1 then return
  else mcp2515BitModify (rxbctrl rxbIdx) rxbctrlRxmMask (mode.code <<< 5)

/-- `enable_intrrupt`. -/
def enableIntrrupt : Io Unit := mcp2515WriteReg caninte (0x03 ||| 0x1C ||| 0x80 ||| 0x20)

/-- The loop that waits for a mode.  It has no result if `reads` reads are not enough. -/
def awaitMode (mode : OpMode) : ℕ → Io Unit
  | 0 => do
      let absurd ← op .undefined
      nomatch absurd
  | reads + 1 => do
      let current ← getMode
      if current = mode.code then return else awaitMode mode reads

/-! ## Calls -/

/-- `can_setup`, where the loop may read the mode `reads` times. -/
def canSetup (reads : ℕ) (baudrate : BitVec 32) : Io ℤ := do
  mcp2515Reset
  awaitMode .config reads
  setBaudrate baudrate
  enableIntrrupt
  setRxMode 0 .any
  setMode .normal
  return 0

/-- `can_setup_loopback`, where each of its loops may read the mode `reads` times. -/
def canSetupLoopback (reads : ℕ) (baudrate : BitVec 32) : Io ℤ := do
  mcp2515Reset
  awaitMode .config reads
  setBaudrate baudrate
  setRxMode 0 .any
  setMode .loop
  awaitMode .loop reads
  return 0

/-- `can_recv_rxb`. -/
def canRecvRxb (rxbIdx : ℤ) (frame : CanFrame) : Io CanFrame := recvRxb rxbIdx frame

/-- `CANINTF_RX1IF`. -/
def canintfRx1if : BitVec 8 := 0x02

/-- `CANINTF_RX0IF`. -/
def canintfRx0if : BitVec 8 := 0x01

/-- `poll_rxbuf`. -/
def pollRxbuf : Io ℤ := do
  let status ← mcp2515ReadReg canintf
  return if status &&& canintfRx1if ≠ 0 then 1 else if status &&& canintfRx0if ≠ 0 then 0 else -1

/-- `can_poll_rxbuf`. -/
def canPollRxbuf : Io ℤ := pollRxbuf

/-- `abort_tx`. -/
def abortTx (txbIdx : ℤ) : Io Unit := mcp2515BitModify (txbctrl txbIdx) txbctrlTxreq 0

/-- `can_abort`. -/
def canAbort (txbIdx : ℤ) : Io Unit := abortTx txbIdx

/-- `can_set_filter`. -/
def canSetFilter (id : CanId) (mask : BitVec 32) : Io ℤ := do
  setMode .config
  let ret ← setRxFilter id mask
  setRxMode 0 .both
  setRxMode 1 .both
  setMode .normal
  return ret

/-- `can_clear_filter`. -/
def canClearFilter (filterId : ℤ) : Io Unit := do
  setMode .config
  clearRxFilter (BitVec.ofInt 8 filterId)
  setMode .normal

/-- `clear_filter_mask`. -/
def clearFilterMask (rxbIdx : BitVec 8) : Io Unit :=
  if 2 ≤ rxbIdx.toNat then mcp2515WriteNregs (rxmsidh 0) (List.replicate (filterBytes * 2) 0)
  else mcp2515WriteNregs (rxmsidh rxbIdx.toNat) (List.replicate filterBytes 0)

/-- `can_disable_filtering`. -/
def canDisableFiltering : Io Unit := do
  setMode .config
  clearFilterMask 2
  setRxMode 0 .any
  setRxMode 1 .any
  setMode .normal

end Can
end Tk1Bsp
