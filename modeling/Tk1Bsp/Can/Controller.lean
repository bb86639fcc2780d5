import Tk1Bsp.Can.Driver

/-!
# The controller functions of `controller.c` and the priorities of `prio.c`
-/

namespace Tk1Bsp
namespace Can

/-- `FILTER_BYTES`. -/
def filterBytes : ℕ := 4

/-- `FILTS_OF_MASK0`. -/
def filtsOfMask0 : ℕ := 2

/-- `FILTS_OF_MASK1`. -/
def filtsOfMask1 : ℕ := 4

/-! ## Receive filters -/

/-- `is_filter_empty`. -/
def isFilterEmpty (idx : BitVec 8) : Io Bool := do
  let buf ← mcp2515ReadNregs (rxfsidh idx.toNat) filterBytes
  return buf.foldl (· ||| ·) 0 == 0

/-- The writing of the mask registers in `write_to_filter`. -/
def writeMask (idx : BitVec 8) (canId : CanId) (mask : BitVec 32) : Io Unit :=
  if mask ≠ 0 then
    let (sid, eid) := splitId canId.exide mask
    let buf := idRegs sid eid false
    if idx.toNat < filtsOfMask0 then mcp2515WriteNregs (rxmsidh 0) buf
    else mcp2515WriteNregs (rxmsidh 1) buf
  else return

/-- `write_to_filter`. -/
def writeToFilter (idx : BitVec 8) (canId : CanId) (mask : BitVec 32) : Io Unit := do
  writeMask idx canId mask
  let (sid, eid) := splitId canId.exide (canId.id.setWidth 32)
  mcp2515WriteNregs (rxfsidh idx.toNat) (idRegs sid eid canId.exide)

/-- `(buf[SIDH] << SIDH_SHF) | (buf[SIDL] >> SIDL_SHF)`. -/
def sidOfRegs (buf : List (BitVec 8)) : BitVec 32 :=
  (buf.getD 0 0).setWidth 32 <<< 3 ||| (buf.getD 1 0).setWidth 32 >>> 5

/-- `cur_mask` in `set_rx_filter`, and its `eid`.  Both parts of the mask go through variables of
eight bits. -/
def curMask (buf : List (BitVec 8)) (exide : Bool) : BitVec 32 × BitVec 8 :=
  let sid : BitVec 8 := (sidOfRegs buf).setWidth 8
  let eid : BitVec 8 := ((buf.getD 1 0).setWidth 32 <<< 16 ||| (buf.getD 2 0).setWidth 32 <<< 8 |||
    (buf.getD 3 0).setWidth 32).setWidth 8
  let cur := sid.setWidth 32 <<< canEidBits ||| eid.setWidth 32
  (if exide then cur else cur >>> canEidBits, eid)

/-- The filters that use mask `i`: `i * FILTS_OF_MASK0` up to `i * FILTS_OF_MASK1 +
FILTS_OF_MASK0`. -/
def filtersOfMask (i : ℕ) : List ℕ :=
  List.range' (i * filtsOfMask0) (i * filtsOfMask1 + filtsOfMask0 - i * filtsOfMask0)

/-- The inner loop of `set_rx_filter`: the first of the filters that is empty. -/
def firstEmpty : List ℕ → Io (Option ℕ)
  | [] => return none
  | j :: js => do
      let empty ← isFilterEmpty (BitVec.ofNat 8 j)
      if empty then return some j else firstEmpty js

/-- The loop of `set_rx_filter` over the masks. -/
def setRxFilterLoop (canId : CanId) (mask : BitVec 32) : List ℕ → Io ℤ
  | [] => return -1
  | i :: is => do
      let buf ← mcp2515ReadNregs (rxmsidh i) filterBytes
      let (cur, eid) := curMask buf canId.exide
      if cur = 0 ∧ eid = 0 then do
        writeToFilter (BitVec.ofNat 8 (i * filtsOfMask0)) canId mask
        return i * filtsOfMask0
      else if cur = mask then do
        let free ← firstEmpty (filtersOfMask i)
        match free with
        | some j => do
            writeToFilter (BitVec.ofNat 8 j) canId 0
            return j
        | none => setRxFilterLoop canId mask is
      else setRxFilterLoop canId mask is

/-- `set_rx_filter`. -/
def setRxFilter (canId : CanId) (mask : BitVec 32) : Io ℤ := setRxFilterLoop canId mask [0, 1]

/-- The loop of `clear_rx_filter`: all the filters are empty. -/
def allEmpty : List ℕ → Io Bool
  | [] => return true
  | j :: js => do
      let empty ← isFilterEmpty (BitVec.ofNat 8 j)
      if empty then allEmpty js else return false

/-- `clear_rx_filter`. -/
def clearRxFilter (idx : BitVec 8) : Io Unit := do
  let buf := List.replicate filterBytes 0
  mcp2515WriteNregs (rxfsidh idx.toNat) buf
  let maskIdx := if idx.toNat < filtsOfMask0 then 0 else 1
  let empty ← allEmpty (filtersOfMask maskIdx)
  if empty then mcp2515WriteNregs (rxmsidh maskIdx) buf else return

/-! ## Modes -/

/-- `set_mode`. -/
def setMode (mode : OpMode) : Io Unit := mcp2515BitModify canctrl 0xE0 (mode.code <<< 5)

/-- `get_mode`. -/
def getMode : Io (BitVec 8) := do
  let stat ← mcp2515ReadReg canstat
  return stat >>> 5

/-! ## Buffers -/

/-- The register image of a frame in `load_txb`, without the payload. -/
def frameHeader (frame : CanFrame) : List (BitVec 8) :=
  let (sid, eid) := splitId frame.ident.exide (frame.ident.id.setWidth 32)
  idRegs sid eid frame.ident.exide ++ [flagBit frame.ident.rtr 6 ||| frame.dlc.setWidth 8]

/-- `load_txb`.  A data length above 8 makes `memcpy` leave `data` and `buf`. -/
def loadTxb (txbIdx : ℤ) (frame : CanFrame) : Io Unit :=
  if frame.dlc.toNat ≤ 8 then do
    let buf := frameHeader frame ++ frame.data.toList.take frame.dlc.toNat
    mcp2515LoadTxb buf (BitVec.ofInt 8 txbIdx) 0
    mcp2515BitModify (txbctrl txbIdx) txbctrlTxpMask (frame.prio.setWidth 8)
  else do
    let absurd ← op .undefined
    nomatch absurd

/-- What `recv_rxb` makes of the 13 bytes of a receive buffer.  What the frame held before stays
where nothing is stored. -/
def decodeFrame (buf : List (BitVec 8)) (frame : CanFrame) : CanFrame :=
  let sid := sidOfRegs buf
  let sidl := buf.getD 1 0
  let exide := sidl.getLsbD 3
  let eid := (sidl &&& 0x3).setWidth 32 <<< 16 ||| (buf.getD 2 0).setWidth 32 <<< 8 |||
    (buf.getD 3 0).setWidth 32
  let id := if exide then sid <<< canEidBits ||| eid else sid
  let rtr := (buf.getD 4 0).getLsbD 6
  let dlc : BitVec 4 := if rtr then 0 else (buf.getD 4 0).setWidth 4
  { ident := ⟨id.setWidth 29, exide, rtr⟩
    prio := frame.prio
    dlc := dlc
    data := Vector.ofFn fun k => if k.val < dlc.toNat then buf.getD (5 + k) 0 else frame.data.get k }

/-- `recv_rxb`.  A data length above 8 makes `memcpy` leave `data`. -/
def recvRxb (rxbIdx : ℤ) (frame : CanFrame) : Io CanFrame := do
  let buf ← mcp2515ReadRxb 13 (BitVec.ofInt 8 rxbIdx) 0
  let frame := decodeFrame buf frame
  if frame.dlc.toNat ≤ 8 then return frame
  else do
    let absurd ← op .undefined
    nomatch absurd

/-- `can_txb_status_t`. -/
inductive TxbStatus
  | idle
  | pending
  | lost
  | err
  | abort
  deriving DecidableEq

/-- The status that `txb_status` reads off a control register. -/
def statusOfCtrl (ctrl : BitVec 8) : TxbStatus :=
  if ctrl &&& txbctrlTxreq ≠ 0 then
    if ctrl &&& txbctrlMloa ≠ 0 then .lost
    else if ctrl &&& txbctrlTxerr ≠ 0 then .err
    else if ctrl &&& txbctrlAbtf ≠ 0 then .abort
    else .pending
  else .idle

/-- `txb_status`. -/
def txbStatus (txbIdx : ℤ) : Io TxbStatus := do
  let ctrl ← mcp2515ReadReg (txbctrl txbIdx)
  return statusOfCtrl ctrl

/-! ## Priorities -/

/-- An entry of the cache after `memset`. -/
def CanidCache.zero : CanidCache := ⟨0, false, 0⟩

/-- `canid_clear_cache`. -/
def canidClearCache (txbIdx : Fin 3) : Io Unit := do
  let _ ← op (.txbCache fun cache => Function.update cache txbIdx .zero)

/-- `canid_cache_is_valid`. -/
def CanidCache.isValid (entry : CanidCache) : Bool := entry.canid ≠ 0

/-- Raise the priority of an entry by one. -/
def bump (cache : TxbCache) (i : Fin 3) : TxbCache :=
  Function.update cache i { cache i with priority := (cache i).priority + 1 }

/-- Compare two entries: the one with the smaller identifier moves up. -/
def comparePair (cache : TxbCache) (ij : Fin 3 × Fin 3) : TxbCache :=
  if (cache ij.1).canid < (cache ij.2).canid then bump cache ij.1
  else if (cache ij.1).canid > (cache ij.2).canid then bump cache ij.2
  else cache

/-- The computation of `get_frame_priority` on the cache: store the identifier, and rank all. -/
def rankCache (b : Fin 3) (id : CanId) (cache : TxbCache) : TxbCache :=
  let stored := Function.update cache b { cache b with canid := id.id, exide := id.exide }
  [(0, 1), (0, 2), (1, 2)].foldl comparePair fun i => { stored i with priority := 0 }

/-- The last loop of `get_frame_priority`: update the priorities of the other buffers. -/
def updatePriorities (b : Fin 3) : List (Fin 3) → Io Unit
  | [] => return
  | i :: is => do
      let cache ← op (.txbCache id)
      if (cache i).isValid ∧ i ≠ b then do
        mcp2515BitModify (txbctrl i) txbctrlTxpMask ((cache i).priority.setWidth 8)
        updatePriorities b is
      else updatePriorities b is

/-- `get_frame_priority` for a buffer of the cache. -/
def getFramePriorityAt (b : Fin 3) (id : CanId) : Io ℤ := do
  let cache ← op (.txbCache fun cache => if (cache b).isValid then cache else rankCache b id cache)
  if (cache b).isValid then return -1
  else do
    updatePriorities b [0, 1, 2]
    let cache ← op (.txbCache fun cache => cache)
    return (cache b).priority.toNat

/-- `get_frame_priority`.  Any other index is outside of the cache. -/
def getFramePriority (txbIdx : ℤ) (id : CanId) : Io ℤ :=
  if txbIdx = 0 then getFramePriorityAt 0 id
  else if txbIdx = 1 then getFramePriorityAt 1 id
  else if txbIdx = 2 then getFramePriorityAt 2 id
  else do
    let absurd ← op .undefined
    nomatch absurd

end Can
end Tk1Bsp
