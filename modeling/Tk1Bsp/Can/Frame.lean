import Mathlib.Algebra.Group.Nat.Defs
import Mathlib.Data.Nat.Notation

/-!
# CAN frames

The data types of `can_inf.h`, and the bytes in which the MCP2515 holds an identifier.  A bit field
is a bit vector of its width.  The error flag of an identifier is left out: nothing reads it.
-/

namespace Tk1Bsp
namespace Can

-- the sizes of the index types: receive buffers, transmit buffers, registers
scoped instance neZero_two : @NeZero ℕ Zero.ofOfNat0 2 := Nat.instNeZeroSucc
scoped instance neZero_three : @NeZero ℕ Zero.ofOfNat0 3 := Nat.instNeZeroSucc
scoped instance neZero_128 : @NeZero ℕ Zero.ofOfNat0 128 := Nat.instNeZeroSucc

/-- `CAN_EID_BITS`. -/
def canEidBits : ℕ := 18

/-- `CAN_EID_MASK`. -/
def canEidMask : BitVec 32 := 0x3FFFF

/-- `struct can_id`. -/
structure CanId where
  id : BitVec 29
  exide : Bool
  rtr : Bool
  deriving DecidableEq

/-- `struct can_frame`. -/
structure CanFrame where
  ident : CanId
  prio : BitVec 2
  dlc : BitVec 4
  data : Vector (BitVec 8) 8
  deriving DecidableEq

/-- A standard data frame without payload. -/
def CanFrame.bare (id : BitVec 29) : CanFrame := ⟨⟨id, false, false⟩, 0, 0, Vector.replicate 8 0⟩

/-- A one-bit field among the bits of a byte. -/
def flagBit (b : Bool) (shift : ℕ) : BitVec 8 := if b then 1#8 <<< shift else 0

/-- The split of an identifier, or of a mask, into its standard and its extended part. -/
def splitId (exide : Bool) (id : BitVec 32) : BitVec 32 × BitVec 32 :=
  if exide then (id >>> canEidBits, id &&& canEidMask) else (id, 0)

/-- The registers SIDH, SIDL, EID8 and EID0 that hold an identifier. -/
def idRegs (sid eid : BitVec 32) (exide : Bool) : List (BitVec 8) :=
  [(sid >>> 3).setWidth 8,
    (sid <<< 5).setWidth 8 ||| flagBit exide 3 ||| (eid >>> 16).setWidth 8,
    (eid >>> 8).setWidth 8,
    (eid &&& 0xFF).setWidth 8]

end Can
end Tk1Bsp
