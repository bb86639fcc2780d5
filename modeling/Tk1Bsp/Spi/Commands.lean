import Tk1Bsp.Can.Device
import Tk1Bsp.Can.Effects
import Tk1Bsp.Spi.System

/-!
# The commands of the CAN driver

Every SPI operation in a program of the driver is one that the shared buffers have room for, with
the command and the reply one behind the other, and that the controller answers with as many bytes
as the driver reads (`Fits`).  The longest are `load_txb` and `read_rxb` with 14 bytes.
-/

namespace Tk1Bsp
namespace Spi

open Can Prog

/-- There is room for the command and the reply, and the reply is as long as it is read. -/
def Fits : Can.Op → Prop
  | .spi txbuf rcount =>
      txbuf.length + rcount ≤ spiTransMaxSize ∧ ∀ c : Chip, (c.spi txbuf rcount).1.length = rcount
  | _ => True

/-! ## Kinds of commands -/

theorem length_readFrom (c : Chip) (a : Addr) (n : ℕ) : (c.readFrom a n).length = n := by
  rw [Chip.readFrom, List.length_map, List.length_range]

/-- Whoever reads nothing gets nothing. -/
theorem spi_zero (c : Chip) (txbuf : List (BitVec 8)) : (c.spi txbuf 0).1 = [] := by
  cases txbuf with
  | nil => rfl
  | cons cmd rest =>
      simp only [Chip.spi]
      split_ifs
      · rfl
      · split <;> rfl
      · split <;> rfl
      · split <;> rfl
      all_goals rfl

theorem fits_send {txbuf : List (BitVec 8)} (h : txbuf.length ≤ spiTransMaxSize) :
    Fits (.spi txbuf 0) :=
  ⟨h, fun c => congrArg List.length (spi_zero c txbuf)⟩

theorem fits_of_length {txbuf : List (BitVec 8)} {n : ℕ} (hlen : txbuf.length = n) (h : n ≤ 15) :
    Fits (.spi txbuf 0) :=
  fits_send (hlen ▸ h.trans (by decide))

theorem fits_bitModify (reg mask val : BitVec 8) : Fits (.spi [0x05, reg, mask, val] 0) :=
  fits_of_length (n := 4) rfl (by decide)

theorem fits_read {n : ℕ} (reg : BitVec 8) (h : n ≤ 13) : Fits (.spi [0x03, reg] n) := by
  refine ⟨?_, fun c => length_readFrom c _ n⟩
  have hmax : spiTransMaxSize = 255 := rfl
  rw [List.length_cons, List.length_singleton]
  omega

theorem fits_readRxb : Fits (.spi [0x90 ||| 0] 13) := ⟨by decide, fun c => length_readFrom c _ 13⟩

theorem fits_loadTxbOp {buf : List (BitVec 8)} (mask : BitVec 8) (h : buf.length ≤ 13) :
    Fits (.spi ((0x40 ||| mask) :: buf) 0) :=
  fits_of_length rfl ((Nat.add_le_add_right h 1).trans (by decide))

/-! ## Parts of programs -/

theorem fits_undefined {α : Type} (k : Empty → Can.Io α) :
    ((Can.op .undefined).bind k).Every Fits :=
  (every_perform trivial).bind fun absurd => nomatch absurd

theorem fits_readReg (reg : BitVec 8) : (mcp2515ReadReg reg).Every Fits :=
  every_readReg (fits_read reg (by decide))

theorem fits_modify (reg mask val : BitVec 8) : (mcp2515BitModify reg mask val).Every Fits :=
  every_bitModify (fits_bitModify reg mask val)

theorem fits_rts (mask : BitVec 8) : (mcp2515Rts mask).Every Fits :=
  (every_perform (fits_of_length (n := 1) rfl (by decide))).bind fun _ => trivial

theorem fits_setMode (mode : OpMode) : (setMode mode).Every Fits := fits_modify _ _ _

theorem fits_getMode : getMode.Every Fits := (fits_readReg _).bind fun _ => trivial

theorem fits_txbStatus (txbIdx : ℤ) : (txbStatus txbIdx).Every Fits :=
  (fits_readReg _).bind fun _ => trivial

theorem fits_recvRxb (rxbIdx : ℤ) (frame : CanFrame) : (recvRxb rxbIdx frame).Every Fits :=
  every_recvRxb fits_readRxb trivial rxbIdx frame

theorem fits_loadTxb (txbIdx : ℤ) (frame : CanFrame) : (loadTxb txbIdx frame).Every Fits := by
  unfold loadTxb
  split
  · rename_i hdlc
    refine Every.bind ?_ fun _ => fits_modify _ _ _
    exact (every_perform (fits_loadTxbOp _ (length_txbImage_le hdlc))).bind fun _ => trivial
  · exact fits_undefined _

theorem fits_queuePush (q : QueueId) (frame : CanFrame) : (queuePush q frame).Every Fits :=
  every_queuePush trivial (fun _ => trivial) frame

theorem fits_queuePop (q : QueueId) : (queuePop q).Every Fits := every_queuePop trivial trivial

/-! ## The threads -/

theorem fits_updatePriorities (b : Fin 3) (is : List (Fin 3)) :
    (updatePriorities b is).Every Fits := by
  induction is with
  | nil => trivial
  | cons i is ih =>
      refine (every_perform trivial).bind fun cache => ?_
      split
      · exact (fits_modify _ _ _).bind fun _ => ih
      · exact ih

theorem fits_getFramePriorityAt (b : Fin 3) (id : CanId) :
    (getFramePriorityAt b id).Every Fits := by
  refine (every_perform trivial).bind fun cache => ?_
  split
  · trivial
  · exact (fits_updatePriorities b _).bind fun _ => (every_perform trivial).bind fun _ => trivial

theorem fits_getFramePriority (txbIdx : ℤ) (id : CanId) :
    (getFramePriority txbIdx id).Every Fits := by
  unfold getFramePriority
  split_ifs
  · exact fits_getFramePriorityAt 0 id
  · exact fits_getFramePriorityAt 1 id
  · exact fits_getFramePriorityAt 2 id
  · exact fits_undefined _

theorem fits_raiseLoop (is : List (Fin 3)) : (raiseLoop is).Every Fits := by
  induction is with
  | nil => trivial
  | cons i is ih =>
      refine (fits_readReg _).bind fun ctrl => ?_
      split
      · exact (fits_modify _ _ _).bind fun _ => (every_perform trivial).bind fun _ => ih
      · exact ih

theorem fits_canSend (frame : CanFrame) : (canSend frame).Every Fits := by
  refine (fits_queuePush .tx frame).bind fun ret => Every.bind ?_ fun _ => trivial
  refine (every_perform trivial).bind fun stopped => ?_
  split
  · refine (every_perform trivial).bind fun _ => ?_
    exact (fits_raiseLoop _).bind fun _ => every_perform trivial
  · trivial

theorem fits_canSendto (txbIdx : ℤ) (frame : CanFrame) : (canSendto txbIdx frame).Every Fits := by
  refine (fits_txbStatus txbIdx).bind fun status => ?_
  split
  · refine (fits_getFramePriority txbIdx frame.ident).bind fun prio => ?_
    exact (fits_loadTxb txbIdx _).bind fun _ => (fits_rts _).bind fun _ => trivial
  · trivial

theorem fits_canRecv : canRecv.Every Fits := (every_perform trivial).bind fun _ => fits_queuePop .rx

theorem fits_body (c : Call) : c.body.Every Fits := by
  cases c with
  | send frame => exact (fits_canSend frame).bind fun _ => trivial
  | sendto txbIdx frame => exact (fits_canSendto txbIdx frame).bind fun _ => trivial
  | recv => exact fits_canRecv.bind fun _ => trivial

theorem fits_serveTxb (i : Fin 3) (rts : BitVec 8) : (serveTxb i rts).Every Fits := by
  refine Every.bind ((every_perform trivial).bind fun _ => trivial) fun _ => ?_
  refine (every_perform trivial).bind fun _ => (fits_queuePop .tx).bind fun popped => ?_
  cases popped with
  | some frame =>
      exact (every_perform trivial).bind fun _ => (fits_loadTxb i frame).bind fun _ => trivial
  | none =>
      exact (every_perform trivial).bind fun _ => (every_perform trivial).bind fun _ =>
        (every_perform trivial).bind fun _ => trivial

theorem fits_transmitLoop (tx : BitVec 8) (is : List (Fin 3)) (rts : BitVec 8) :
    (transmitLoop tx is rts).Every Fits := by
  induction is generalizing rts with
  | nil => trivial
  | cons i is ih =>
      unfold transmitLoop
      split
      · exact (fits_serveTxb i rts).bind fun rts => ih rts
      · exact ih rts

theorem fits_transmitMessage (tx : BitVec 8) : (transmitMessage tx).Every Fits :=
  (fits_modify _ _ _).bind fun _ => (fits_transmitLoop tx _ 0).bind fun rts => fits_rts rts

theorem fits_receiveIf (rx : BitVec 8) (i : ℕ) (frame : CanFrame) :
    (receiveIf rx i frame).Every Fits := by
  unfold receiveIf
  split
  · refine (fits_recvRxb i frame).bind fun frame => (fits_queuePush .rx frame).bind fun _ => ?_
    exact (every_perform trivial).bind fun _ => trivial
  · trivial

theorem fits_reportMessageError : reportMessageError.Every Fits := by
  refine fits_getMode.bind fun mode => ?_
  split
  · exact (fits_setMode _).bind fun _ => (fits_setMode _).bind fun _ => fits_modify _ _ _
  · exact fits_modify _ _ _

theorem fits_reportError : reportError.Every Fits := by
  refine (fits_readReg _).bind fun flags => ?_
  split
  · exact (fits_modify _ _ _).bind fun _ => fits_modify _ _ _
  · exact fits_modify _ _ _

theorem fits_irqHandler (frame : CanFrame) : (irqHandler frame).Every Fits := by
  refine (fits_readReg _).bind fun flags => ?_
  refine (every_onFlag fits_reportMessageError).bind fun _ => ?_
  refine (every_onFlag (fits_modify _ _ _)).bind fun _ => ?_
  refine (every_onFlag fits_reportError).bind fun _ => ?_
  refine (every_onFlag (fits_transmitMessage _)).bind fun _ => ?_
  refine Every.bind (every_onFlag ?_) fun _ => every_perform trivial
  refine (fits_receiveIf _ 0 frame).bind fun frame => ?_
  exact (fits_receiveIf _ 1 frame).bind fun _ => trivial

/-! ## Both threads together -/

section Threads

variable {φ : Can.Op → Prop} {can : Can.System}

theorem every_proceed {α : Type} {p : Can.Io α} (reply : List (BitVec 8)) (h : p.Every φ) :
    (proceed reply p).Every φ := by
  unfold proceed
  split
  · exact h.2 reply
  · split
    · exact h.2 ()
    · exact h
  · exact h

theorem every_answer (h : can.Every φ) (reply : List (BitVec 8)) (t : Tid) :
    (answer can reply t).Every φ := by
  cases t with
  | client =>
      refine ⟨fun c p hp => ?_, h.2⟩
      obtain ⟨⟨c', p'⟩, hclient, hcp⟩ := Option.map_eq_some_iff.1 hp
      obtain ⟨rfl, rfl⟩ := Prod.mk.inj hcp
      exact every_proceed reply (h.1 c' p' hclient)
  | handler => exact ⟨h.1, every_proceed reply h.2⟩

end Threads

end Spi
end Tk1Bsp
