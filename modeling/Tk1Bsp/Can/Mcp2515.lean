import Mathlib.Data.Fintype.Basic
import Mathlib.Logic.Function.Basic
import Tk1Bsp.Can.Frame

/-!
# The MCP2515 controller

The register addresses and bits of `mcp2515.h`, and the controller as the driver meets it: a file
of 128 registers that is read and written by SPI instructions.  A transaction is a list of bytes to
send and a number of bytes to receive (`Chip.spi`).

Of the hardware, the model has what the driver depends on.  The mode in `CANSTAT` follows the
request in `CANCTRL` at once.  The MCP2515 first ends the transmissions that are pending: what is
said of the filters after a change of mode is about a controller in which no `TXREQ` is set.
Filters, masks and bit timing can only be written in configuration mode, and filters and masks read
as zero outside it.  Of a transmit control register only the request and the priority can be
written.
-/

namespace Tk1Bsp
namespace Can

/-! ## Registers -/

/-- A register address; an instruction ignores the highest bit of its address byte. -/
abbrev Addr := Fin 128

/-- The register an address byte names. -/
def toAddr (a : BitVec 8) : Addr := ⟨a.toNat % 128, Nat.mod_lt _ (by decide)⟩

/-- `TXBCTRL(n)`, passed as a `uint8_t`. -/
def txbctrl (n : ℤ) : BitVec 8 := BitVec.ofInt 8 ((n + 3) * 16)

/-- `RXBCTRL(n)`. -/
def rxbctrl (n : ℤ) : BitVec 8 := BitVec.ofInt 8 ((n + 6) * 16)

/-- `RXFSIDH(n)`. -/
def rxfsidh (n : ℤ) : BitVec 8 := BitVec.ofInt 8 (n * 4)

/-- `RXMSIDH(n)`. -/
def rxmsidh (n : ℤ) : BitVec 8 := BitVec.ofInt 8 (n * 4 + 0x20)

/-- `CANSTAT`. -/
def canstat : BitVec 8 := 0x0E
/-- `CANCTRL`. -/
def canctrl : BitVec 8 := 0x0F
/-- `CANINTE`. -/
def caninte : BitVec 8 := 0x2B
/-- `CANINTF`. -/
def canintf : BitVec 8 := 0x2C
/-- `EFLG`. -/
def eflg : BitVec 8 := 0x2D

/-- `TXBCTRL_TXREQ`. -/
def txbctrlTxreq : BitVec 8 := 0x08
/-- `TXBCTRL_ABTF`. -/
def txbctrlAbtf : BitVec 8 := 0x40
/-- `TXBCTRL_MLOA`. -/
def txbctrlMloa : BitVec 8 := 0x20
/-- `TXBCTRL_TXERR`. -/
def txbctrlTxerr : BitVec 8 := 0x10
/-- `TXBCTRL_TXP_MASK`. -/
def txbctrlTxpMask : BitVec 8 := 0x03

/-- `CANINTF_MERRF`. -/
def canintfMerrf : BitVec 8 := 0x80
/-- `CANINTF_WAKIF`. -/
def canintfWakif : BitVec 8 := 0x40
/-- `CANINTF_ERRIF`. -/
def canintfErrif : BitVec 8 := 0x20
/-- `CANINTF_TX0IF`. -/
def canintfTx0if : BitVec 8 := 0x04
/-- `TXIF_MASK`. -/
def txifMask : BitVec 8 := 0x1C
/-- `RXIF_MASK`. -/
def rxifMask : BitVec 8 := 0x03
/-- `EFLG_RX0OVR | EFLG_RX1OVR`. -/
def eflgRxovr : BitVec 8 := 0xC0

/-- `op_mode_t`. -/
inductive OpMode
  | normal
  | sleep
  | loop
  | listen
  | config
  deriving DecidableEq

/-- The value of a mode in `CANCTRL` and `CANSTAT`. -/
def OpMode.code : OpMode → BitVec 8
  | normal => 0
  | sleep => 1
  | loop => 2
  | listen => 3
  | config => 4

/-! ## The controller -/

/-- The register file. -/
structure Chip where
  reg : Addr → BitVec 8

namespace Chip

variable (c : Chip)

/-- The controller is in configuration mode. -/
def inConfig : Prop := c.reg (toAddr canstat) >>> 5 = OpMode.config.code

instance : Decidable c.inConfig := inferInstanceAs (Decidable (_ = _))

/-- An acceptance filter or mask register. -/
def isFilter (a : Addr) : Prop := a.val < 0x0C ∨ (0x10 ≤ a.val ∧ a.val < 0x1C) ∨
  (0x20 ≤ a.val ∧ a.val < 0x28)

instance : DecidablePred isFilter := fun _ => inferInstanceAs (Decidable (_ ∨ _))

/-- A bit timing register. -/
def isTiming (a : Addr) : Prop := 0x28 ≤ a.val ∧ a.val < 0x2B

instance : DecidablePred isTiming := fun _ => inferInstanceAs (Decidable (_ ∧ _))

/-- A transmit control register. -/
def isTxbctrl (a : Addr) : Prop := a.val = 0x30 ∨ a.val = 0x40 ∨ a.val = 0x50

instance : DecidablePred isTxbctrl := fun _ => inferInstanceAs (Decidable (_ ∨ _))

/-- The byte the controller returns for a register.  `CANSTAT` and `CANCTRL` appear at the end of
every row of sixteen addresses. -/
def read (a : Addr) : BitVec 8 :=
  if a.val % 16 = 14 then c.reg (toAddr canstat)
  else if a.val % 16 = 15 then c.reg (toAddr canctrl)
  else if isFilter a ∧ ¬ c.inConfig then 0
  else c.reg a

/-- Replace one register. -/
def set (a : Addr) (v : BitVec 8) : Chip := ⟨Function.update c.reg a v⟩

/-- The effect of writing a byte to a register.  The mode follows `CANCTRL` at once, also with a
transmission pending, for which the MCP2515 waits. -/
def write (a : Addr) (v : BitVec 8) : Chip :=
  if a.val % 16 = 14 then c
  else if a.val % 16 = 15 then
    (c.set (toAddr canctrl) v).set (toAddr canstat)
      ((v &&& 0xE0) ||| (c.reg (toAddr canstat) &&& 0x1F))
  else if (isFilter a ∨ isTiming a) ∧ ¬ c.inConfig then c
  else if isTxbctrl a then c.set a ((c.reg a &&& 0xF4) ||| (v &&& 0x0B))
  else c.set a v

/-- Read registers in sequence. -/
def readFrom (a : Addr) (count : ℕ) : List (BitVec 8) :=
  (List.range count).map fun k => c.read (a + Fin.ofNat 128 k)

/-- Write registers in sequence. -/
def writeFrom (c : Chip) : Addr → List (BitVec 8) → Chip
  | _, [] => c
  | a, v :: vs => (c.write a v).writeFrom (a + 1) vs

/-- Request the transmission of buffer `i`; this resets the status of the last one. -/
def request (i : Fin 3) : Chip :=
  let a := toAddr (txbctrl i)
  c.set a ((c.reg a &&& 0x03) ||| txbctrlTxreq)

/-- Request the transmission of the buffers in a mask. -/
def requestAll (mask : BitVec 8) : Chip :=
  (List.finRange 3).foldl (fun c (i : Fin 3) => if mask.getLsbD i then c.request i else c) c

/-- The state after a reset: configuration mode, nothing requested, nothing flagged. -/
def reset : Chip :=
  ⟨fun a =>
    if a = toAddr canctrl then 0x87
    else if a = toAddr canstat then 0x80
    else if isTxbctrl a ∨ isTiming a ∨ a.val = 0x60 ∨ a.val = 0x70 ∨
        (0x2B ≤ a.val ∧ a.val < 0x2E) then 0
    else c.reg a⟩

/-- One SPI transaction: the bytes received after those sent, and the controller afterwards. -/
def spi (txbuf : List (BitVec 8)) (rcount : ℕ) : List (BitVec 8) × Chip :=
  match txbuf with
  | [] => ([], c)
  | cmd :: rest =>
      if cmd = 0xC0 then ([], c.reset)
      else if cmd = 0x03 then
        match rest with
        | a :: _ => (c.readFrom (toAddr a) rcount, c)
        | [] => ([], c)
      else if cmd = 0x02 then
        match rest with
        | a :: vs => ([], c.writeFrom (toAddr a) vs)
        | [] => ([], c)
      else if cmd = 0x05 then
        match rest with
        | [a, m, v] => ([], c.write (toAddr a) ((c.reg (toAddr a) &&& ~~~m) ||| (v &&& m)))
        | _ => ([], c)
      else if cmd &&& 0xF8 = 0x80 then ([], c.requestAll cmd)
      else if cmd &&& 0xF9 = 0x90 then
        -- READ RX BUFFER; bit 2 selects the buffer, bit 1 the payload
        let n := cmd.getLsbD 2
        let start := (if n then 0x71 else 0x61) + if cmd.getLsbD 1 then 5 else 0
        (c.readFrom start rcount,
          c.write (toAddr canintf) (c.reg (toAddr canintf) &&& if n then 0xFD else 0xFE))
      else if cmd &&& 0xF8 = 0x40 ∧ cmd &&& 0x07 < 6 then
        -- LOAD TX BUFFER; bits 2 and 1 select the buffer, bit 0 the payload
        let start : Addr := 0x31 + Fin.ofNat 128 (16 * ((cmd &&& 0x07).toNat / 2)) +
          if cmd.getLsbD 0 then 5 else 0
        ([], c.writeFrom start rest)
      else ([], c)

end Chip

end Can
end Tk1Bsp
