import Tk1Bsp.Can.Codec
import Tk1Bsp.Can.Device

/-!
# What reception makes of the receive buffers

`receive_message` and `can_recv_rxb` name a receive buffer, but the index does not reach the
instruction: `mcp2515_read_rxb` always reads buffer 0, and clears its flag.  Both functions are
right exactly where this makes no difference.
-/

namespace Tk1Bsp
namespace Can

/-! ## Messages -/

/-- The number of payload bytes of the message in a receive buffer. -/
def lengthOf (r : List (BitVec 8)) : BitVec 4 :=
  if (r.getD 4 0).getLsbD 6 then 0 else (r.getD 4 0).setWidth 4

/-- The message in a receive buffer: identifier, length and payload. -/
def messageOf (r : List (BitVec 8)) : CanId × BitVec 4 × List (BitVec 8) :=
  (⟨idOf r, exideOf r, (r.getD 4 0).getLsbD 6⟩, lengthOf r,
    (List.range (lengthOf r).toNat).map fun k => r.getD (5 + k) 0)

/-- The message in a frame. -/
def CanFrame.message (frame : CanFrame) : CanId × BitVec 4 × List (BitVec 8) :=
  (frame.ident, frame.dlc, frame.data.toList.take frame.dlc.toNat)

/-- `recv_rxb` decodes the message, whatever was in the frame before. -/
theorem message_decodeFrame {r : List (BitVec 8)} (h : (lengthOf r).toNat ≤ 8) (old : CanFrame) :
    (decodeFrame r old).message = messageOf r := by
  have hdlc : (decodeFrame r old).dlc = lengthOf r := rfl
  rw [CanFrame.message, messageOf, ident_decodeFrame, hdlc]
  refine Prod.ext rfl (Prod.ext rfl (List.ext_getElem ?_ fun k hk hk' => ?_))
  · simp [h]
  · have hlt : k < (lengthOf r).toNat := by simpa using hk'
    have hget := data_decodeFrame r old ⟨k, by omega⟩
    rw [hdlc, if_pos hlt] at hget
    simpa [Vector.get] using hget

/-! ## Runs -/

section Runs

open Prog

variable {d : Driver} {rx : BitVec 8} {frame : CanFrame}

/-- The driver after READ RX BUFFER. -/
def Driver.readRxb (d : Driver) : Driver :=
  { d with chip := (d.chip.spi [0x90 ||| 0] 13).2 }

theorem received_readRxb (d : Driver) (n : Fin 2) :
    d.readRxb.chip.received n = (d.chip.received n && decide (n ≠ 0)) := by
  show Chip.received (d.chip.spi [0x90 ||| 0] 13).2 n = _
  rw [Chip.spi_readRxb, Chip.received, Chip.reg_write_canintf, Chip.received, BitVec.getLsbD_and]
  fin_cases n <;> simp

/-- The driver after the body of `receive_message` for one buffer. -/
def Driver.receivedInto (d : Driver) (frame : CanFrame) : Driver :=
  let d' := mqAppendMsg d.readRxb .rx frame
  { d' with queueLock := d'.queueLock + 1 }

theorem run_receiveRxb (hroom : mqIsFull d.rxq = false) (rxbIdx : ℤ) (frame : CanFrame) :
    (receiveRxb rxbIdx frame).run exec d =
      if (lengthOf (d.chip.rxbImage 0)).toNat ≤ 8 then
        some (decodeFrame (d.chip.rxbImage 0) frame,
          d.receivedInto (decodeFrame (d.chip.rxbImage 0) frame))
      else none := by
  have hdlc : (decodeFrame (d.chip.rxbImage 0) frame).dlc = lengthOf (d.chip.rxbImage 0) := rfl
  rw [receiveRxb, bind_eq, run_bind, run_recvRxb, hdlc]
  split
  · rw [Option.bind_some]
    have hfull : exec (.mqIsFull .rx) d.readRxb = some (false, d.readRxb) := by
      rw [← hroom]
      rfl
    exact run_call_of_exec hfull
  · rfl

theorem queued_receivedInto (hroom : mqIsFull d.rxq = false) (frame : CanFrame) :
    (d.receivedInto frame).queued .rx = d.queued .rx ++ [frame] :=
  @queued_mqAppendMsg d.readRxb .rx frame hroom

theorem received_receivedInto (d : Driver) (frame : CanFrame) (n : Fin 2) :
    (d.receivedInto frame).chip.received n = (d.chip.received n && decide (n ≠ 0)) :=
  received_readRxb d n

/-- Room for two frames is room for one after the first. -/
theorem room_receivedInto (hroom : d.rxq.length + 2 < d.rxq.size) (frame : CanFrame) :
    mqIsFull (d.receivedInto frame).rxq = false := by
  have hne : d.rxq.succ d.rxq.tail ≠ d.rxq.head := by
    rw [Ne, ← Ring.length_eq_iff_full]
    omega
  have hlen : d.rxq.push.length = d.rxq.length + 1 := Ring.length_push hne
  rw [← Bool.not_eq_true, mqIsFull_iff]
  show d.rxq.push.length + 1 ≠ d.rxq.size
  omega

/-! ## The condition -/

/-- The receive buffers that `rx` names. -/
def named (rx : BitVec 8) : List (Fin 2) := [0, 1].filter fun n => rx.getLsbD n

theorem named_eq (rx : BitVec 8) : named rx =
    (if rx.getLsbD 0 = true then [0] else []) ++ if rx.getLsbD 1 = true then [1] else [] := by
  unfold named
  simp only [List.filter_cons, List.filter_nil]
  show (if rx.getLsbD 0 = true then _ else if rx.getLsbD 1 = true then _ else _) = _
  split <;> rfl

/-- `receive_message` pushes the messages of the buffers that `rx` names, in order, and clears their
flags and no other. -/
def ReceivesRight (rx : BitVec 8) (frame : CanFrame) (d : Driver) : Prop :=
  ∃ d' fs, (receiveMessage rx frame).run exec d = some ((), d') ∧
    d'.queued .rx = d.queued .rx ++ fs ∧
    fs.map CanFrame.message = (named rx).map (fun n => messageOf (d.chip.rxbImage n)) ∧
    ∀ n : Fin 2, d'.chip.received n = (d.chip.received n && !rx.getLsbD n)

/-- `can_recv_rxb` returns the message of the buffer it is called for. -/
def RecvRxbRight (n : Fin 2) (frame : CanFrame) (d : Driver) : Prop :=
  ∃ f d', (canRecvRxb n frame).run exec d = some (f, d') ∧ f.message = messageOf (d.chip.rxbImage n)

theorem recvRxbRight_iff (n : Fin 2) (frame : CanFrame) (d : Driver) :
    RecvRxbRight n frame d ↔ (lengthOf (d.chip.rxbImage 0)).toNat ≤ 8 ∧
      messageOf (d.chip.rxbImage 0) = messageOf (d.chip.rxbImage n) := by
  have hdlc : (decodeFrame (d.chip.rxbImage 0) frame).dlc = lengthOf (d.chip.rxbImage 0) := rfl
  rw [RecvRxbRight, canRecvRxb, run_recvRxb, hdlc]
  constructor
  · rintro ⟨f, d', hrun, hmessage⟩
    split at hrun
    · rename_i hlen
      obtain ⟨rfl, -⟩ := Prod.mk.inj (Option.some.inj hrun)
      exact ⟨hlen, (message_decodeFrame hlen frame).symm.trans hmessage⟩
    · cases hrun
  · rintro ⟨hlen, hsame⟩
    exact ⟨_, _, if_pos hlen, (message_decodeFrame hlen frame).trans hsame⟩

theorem room_of_lt (h : d.rxq.length + 1 < d.rxq.size) : mqIsFull d.rxq = false := by
  rw [← Bool.not_eq_true, mqIsFull_iff]
  omega

/-- The flag of receive buffer 1 is never cleared. -/
theorem received_of_receiveIf {d' : Driver} {f : CanFrame} {k : ℕ} (hroom : mqIsFull d.rxq = false)
    (hrun : (receiveIf rx k frame).run exec d = some (f, d')) :
    d'.chip.received 1 = d.chip.received 1 := by
  unfold receiveIf at hrun
  split at hrun
  · rw [run_receiveRxb hroom] at hrun
    split at hrun
    · obtain ⟨-, rfl⟩ := Prod.mk.inj (Option.some.inj hrun)
      rw [received_receivedInto]
      simp
    · cases hrun
  · obtain ⟨-, rfl⟩ := Prod.mk.inj (Option.some.inj hrun)
    rfl

/-- There is room for the second frame. -/
theorem room_of_receiveIf {d' : Driver} {f : CanFrame}
    (hroom : d.rxq.length + (named rx).length < d.rxq.size) (h1 : rx.getLsbD 1 = true)
    (hrun : (receiveIf rx 0 frame).run exec d = some (f, d')) : mqIsFull d'.rxq = false := by
  unfold receiveIf at hrun
  split at hrun
  · rename_i h0
    have hlen : (named rx).length = 2 := by rw [named_eq, if_pos h0, if_pos h1]; rfl
    rw [hlen] at hroom
    rw [run_receiveRxb (room_of_lt (by omega))] at hrun
    split at hrun
    · obtain ⟨-, rfl⟩ := Prod.mk.inj (Option.some.inj hrun)
      exact room_receivedInto hroom _
    · cases hrun
  · rename_i h0
    have hlen : (named rx).length = 1 := by rw [named_eq, if_neg h0, if_pos h1]; rfl
    rw [hlen] at hroom
    obtain ⟨-, rfl⟩ := Prod.mk.inj (Option.some.inj hrun)
    exact room_of_lt hroom

theorem receivesRight_iff (hflags : ∀ n : Fin 2, rx.getLsbD n = true → d.chip.received n = true)
    (hroom : d.rxq.length + (named rx).length < d.rxq.size) :
    ReceivesRight rx frame d ↔ rx.getLsbD 1 = false ∧
      (rx.getLsbD 0 = true → (lengthOf (d.chip.rxbImage 0)).toNat ≤ 8) := by
  constructor
  · rintro ⟨d', fs, hrun, -, -, hcleared⟩
    simp only [receiveMessage, bind_eq, run_bind, Option.bind_eq_some_iff] at hrun
    obtain ⟨⟨f₁, d₁⟩, hfirst, ⟨f₂, d₂⟩, hsecond, hret⟩ := hrun
    obtain ⟨-, rfl⟩ := Prod.mk.inj (Option.some.inj hret)
    cases h1 : rx.getLsbD 1 with
    | true =>
        have hroom₀ : mqIsFull d.rxq = false := by
          have hmem : (1 : Fin 2) ∈ named rx := List.mem_filter.2 ⟨by decide, h1⟩
          have hlen := List.length_pos_of_mem hmem
          exact room_of_lt (by omega)
        have hset := (received_of_receiveIf (room_of_receiveIf hroom h1 hfirst) hsecond).trans
          (received_of_receiveIf hroom₀ hfirst)
        have hone : d₂.chip.received 1 = (d.chip.received 1 && !rx.getLsbD 1) := hcleared 1
        rw [hset, hflags 1 h1, h1] at hone
        cases hone
    | false =>
        refine ⟨rfl, fun h0 => ?_⟩
        have hlen : (named rx).length = 1 := by rw [named_eq, if_pos h0, h1]; rfl
        rw [hlen] at hroom
        rw [receiveIf, if_pos h0, run_receiveRxb (room_of_lt hroom)] at hfirst
        split at hfirst
        · assumption
        · cases hfirst
  · rintro ⟨h1, h0⟩
    cases hbit : rx.getLsbD 0 with
    | true =>
        have hnamed : named rx = [0] := by rw [named_eq, hbit, h1]; rfl
        rw [hnamed] at hroom
        have hfree := room_of_lt hroom
        refine ⟨_, [decodeFrame (d.chip.rxbImage 0) frame], ?_, queued_receivedInto hfree _, ?_,
          Fin.forall_fin_two.2 ⟨?_, ?_⟩⟩
        · simp only [receiveMessage, receiveIf, hbit, h1, if_true, bind_eq, run_bind,
            run_receiveRxb hfree, if_pos (h0 hbit)]
          rfl
        · rw [hnamed, List.map_singleton, message_decodeFrame (h0 hbit)]
          rfl
        · show _ = (_ && !rx.getLsbD 0)
          rw [received_receivedInto, hbit]
          rfl
        · show _ = (_ && !rx.getLsbD 1)
          rw [received_receivedInto, h1]
          rfl
    | false =>
        have hnamed : named rx = [] := by rw [named_eq, hbit, h1]; rfl
        refine ⟨d, [], ?_, (List.append_nil _).symm, by rw [hnamed]; rfl,
          Fin.forall_fin_two.2 ⟨?_, ?_⟩⟩
        · simp only [receiveMessage, receiveIf, hbit, h1]
          rfl
        · show _ = (_ && !rx.getLsbD 0)
          rw [hbit, Bool.not_false, Bool.and_true]
        · show _ = (_ && !rx.getLsbD 1)
          rw [h1, Bool.not_false, Bool.and_true]

/-- Reception is right exactly where the index of the buffer makes no difference: `receive_message`
as long as buffer 1 is not named, `can_recv_rxb` if the buffer it is called for has the message of
buffer 0; and the length must be one that the payload can have.  That the flags named are set, as
`irq_handler` finds them, is for the one direction only: a flag that is clear already is cleared by
any call. -/
theorem reception_right_iff (rx : BitVec 8) (n : Fin 2) (frame : CanFrame) (d : Driver) :
    ((∀ n : Fin 2, rx.getLsbD n = true → d.chip.received n = true) →
      d.rxq.length + (named rx).length < d.rxq.size →
      (ReceivesRight rx frame d ↔ rx.getLsbD 1 = false ∧
        (rx.getLsbD 0 = true → (lengthOf (d.chip.rxbImage 0)).toNat ≤ 8))) ∧
    (RecvRxbRight n frame d ↔ (lengthOf (d.chip.rxbImage 0)).toNat ≤ 8 ∧
      messageOf (d.chip.rxbImage 0) = messageOf (d.chip.rxbImage n)) :=
  ⟨receivesRight_iff, recvRxbRight_iff n frame d⟩

/-- The component after messages with the given flags have been received: the first byte of the
identifier in buffer 0 is 1, that in buffer 1 is 2. -/
def twoMessages (flags : BitVec 8) : Driver :=
  (System.booted ⟨fun a => if a = toAddr canintf then flags else if a.val = 0x61 then 1
    else if a.val = 0x71 then 2 else 0⟩ fun _ => .bare 0).driver

/-- A message in buffer 0 is received. -/
theorem reception_right_first : ReceivesRight 1 (.bare 0) (twoMessages 1) :=
  ((reception_right_iff 1 0 (.bare 0) (twoMessages 1)).1 (by decide) (by decide)).2
    ⟨rfl, fun _ => Nat.zero_le 8⟩

/-- For the message in buffer 1, the content of buffer 0 is pushed, and the flag stays. -/
theorem run_second_buffer :
    ((receiveMessage 2 (.bare 0)).run exec (twoMessages 2)).map (fun r =>
      ((r.2.queued .rx).map fun f => f.ident.id, r.2.chip.received 1)) = some ([8], true) := rfl

theorem not_receivesRight_second_buffer : ¬ ReceivesRight 2 (.bare 0) (twoMessages 2) := by
  rintro ⟨d', fs, hrun, -, -, hcleared⟩
  have hset := run_second_buffer
  rw [hrun] at hset
  have hreceived : d'.chip.received 1 = true := congrArg (fun r => r.2) (Option.some.inj hset)
  rw [hcleared 1] at hreceived
  exact absurd hreceived (by decide)

end Runs

end Can
end Tk1Bsp
