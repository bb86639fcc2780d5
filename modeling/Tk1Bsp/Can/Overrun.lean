import Tk1Bsp.Can.Settings
import Tk1Bsp.Can.Transmit

/-!
# A frame that is too long stops the queue

`load_txb` copies as many bytes as the data length of a frame says, and the controller stores what it
gets from the transmit buffer on.  Behind the identifier, the length and the payload of transmit
buffer 0 stand `CANSTAT` and `CANCTRL`.  So a length above nine writes `CANCTRL`, with a byte that
happens to lie behind the frame in memory, and one bit of it aborts all pending transmissions.  Then no
buffer is requested, no flag says so, and nothing takes the next frame from the queue.

In `loadTxbOver` the copy goes on behind the payload, where `loadTxb` ends, and `System.stepOver` is
the component with it.  While all lengths fit, both do the same (`mirrors_irqHandler`), and the
transmit path does not stall (`queue_attended`).
-/

namespace Tk1Bsp
namespace Can

open Prog

/-! ## The copy -/

/-- What is in memory behind a frame, as far as a data length can reach. -/
abbrev Behind := Vector (BitVec 8) 7

/-- `load_txb`, where the copy goes on behind the payload. -/
def loadTxbOver (behind : Behind) (txbIdx : ℤ) (frame : CanFrame) : Io Unit := do
  let buf := frameHeader frame ++ (frame.data.toList ++ behind.toList).take frame.dlc.toNat
  mcp2515LoadTxb buf (BitVec.ofInt 8 txbIdx) 0
  mcp2515BitModify (txbctrl txbIdx) txbctrlTxpMask (frame.prio.setWidth 8)

/-- `serveTxb` with this copy. -/
def serveTxbOver (behind : Behind) (i : Fin 3) (rts : BitVec 8) : Io (BitVec 8) := do
  canidClearCache i
  op (.txbAck i)
  let popped ← txQueuePop
  match popped with
  | some frame => do
      op (.spinWhileNonzero (txbctrl i &&& txbctrlTxreq))
      loadTxbOver behind i frame
      return rts ||| 1#8 <<< i.val
  | none => do
      op .txbLock
      op (.setXmitStopped true)
      op .txbUnlock
      return rts

/-- `transmitLoop` with this copy. -/
def transmitLoopOver (behind : Behind) (tx : BitVec 8) : List (Fin 3) → BitVec 8 → Io (BitVec 8)
  | [], rts => return rts
  | i :: is, rts =>
      if tx.getLsbD i then do
        let rts ← serveTxbOver behind i rts
        transmitLoopOver behind tx is rts
      else transmitLoopOver behind tx is rts

/-- `transmit_message` with this copy. -/
def transmitMessageOver (behind : Behind) (tx : BitVec 8) : Io Unit := do
  mcp2515BitModify canintf (tx <<< 2) 0
  let rts ← transmitLoopOver behind tx [2, 1, 0] 0
  mcp2515Rts rts

/-- `irq_handler` with this copy. -/
def irqHandlerOver (behind : Behind) (frame : CanFrame) : Io Unit := do
  let flags ← mcp2515ReadReg canintf
  onFlag flags canintfMerrf reportMessageError
  onFlag flags canintfWakif (mcp2515BitModify canintf canintfWakif 0)
  onFlag flags canintfErrif reportError
  onFlag flags txifMask (transmitMessageOver behind ((flags &&& txifMask) >>> 2))
  onFlag flags rxifMask (receiveMessage (flags &&& rxifMask) frame)
  op .intAck

variable {behind : Behind}

theorem loadTxbOver_of_short (i : ℤ) {frame : CanFrame} (h : frame.Short) :
    loadTxbOver behind i frame = loadTxb i frame := by
  have hdlc : frame.dlc.toNat ≤ 8 := h
  have hlen : frame.dlc.toNat ≤ frame.data.toList.length := by
    rw [Vector.length_toList]
    exact hdlc
  rw [loadTxb, if_pos hdlc, loadTxbOver, List.take_append_of_le_length hlen]

theorem mirrors_serveTxb (i : Fin 3) (rts : BitVec 8) :
    (serveTxb i rts).Mirrors Fit (serveTxbOver behind i rts) := by
  refine (Mirrors.refl _).bind fun _ => (Mirrors.refl _).bind fun _ => ⟨_, rfl, ?_⟩
  rintro (_ | _) -
  · -- the frame that is taken from the queue is short
    refine ⟨_, rfl, fun frame hframe => ⟨_, rfl, fun _ _ => ?_⟩⟩
    show ((loadTxb i frame).bind _).Mirrors Fit ((loadTxbOver behind i frame).bind _)
    rw [loadTxbOver_of_short i (show frame.Short from hframe)]
    exact .refl _
  · exact .refl _

theorem mirrors_transmitLoop (tx : BitVec 8) (is : List (Fin 3)) (rts : BitVec 8) :
    (transmitLoop tx is rts).Mirrors Fit (transmitLoopOver behind tx is rts) := by
  induction is generalizing rts with
  | nil => exact .refl _
  | cons i is ih =>
      unfold transmitLoop transmitLoopOver
      split
      · exact (mirrors_serveTxb i rts).bind ih
      · exact ih rts

theorem mirrors_onFlag {flags mask : BitVec 8} {p q : Io Unit} (h : p.Mirrors Fit q) :
    (onFlag flags mask p).Mirrors Fit (onFlag flags mask q) := by
  unfold onFlag
  split
  · exact h
  · exact .refl _

/-- The two handlers do the same, as long as the lengths fit. -/
theorem mirrors_irqHandler (frame : CanFrame) :
    (irqHandler frame).Mirrors Fit (irqHandlerOver behind frame) := by
  refine (Mirrors.refl _).bind fun flags => (Mirrors.refl _).bind fun _ => ?_
  refine (Mirrors.refl _).bind fun _ => (Mirrors.refl _).bind fun _ => ?_
  refine Mirrors.bind (mirrors_onFlag ?_) fun _ => .refl _
  exact (Mirrors.refl _).bind fun _ => (mirrors_transmitLoop _ _ 0).bind fun _ => .refl _

/-! ## The controller -/

/-- `CANCTRL_ABAT`. -/
def canctrlAbat : BitVec 8 := 0x10

namespace Chip

/-- The controller is told to abort all pending transmissions. -/
def aborting (c : Chip) : Prop := c.reg (toAddr canctrl) &&& canctrlAbat ≠ 0

instance : DecidablePred aborting := fun _ => inferInstanceAs (Decidable (_ ≠ _))

/-- It has aborted them. -/
def abortAll (c : Chip) : Chip :=
  ⟨fun a =>
    if isTxbctrl a ∧ c.reg a &&& txbctrlTxreq ≠ 0 then
      (c.reg a &&& ~~~txbctrlTxreq) ||| txbctrlAbtf
    else c.reg a⟩

variable {c c' : Chip}

theorem aborting_of_reg (h : c'.reg (toAddr canctrl) = c.reg (toAddr canctrl)) :
    c'.aborting ↔ c.aborting := by
  rw [aborting, aborting, h]

theorem aborting_write {a : Addr} (h : a.val % 16 < 14) (v : BitVec 8) :
    (c.write a v).aborting ↔ c.aborting := aborting_of_reg (canctrl_write h)

/-- Setting the mode leaves the other bits of `CANCTRL` alone. -/
theorem aborting_mode (val : BitVec 8) :
    (c.spi [0x05, canctrl, 0xE0, val] 0).2.aborting ↔ c.aborting := by
  have hreg : (c.spi [0x05, canctrl, 0xE0, val] 0).2.reg (toAddr canctrl) =
      (c.reg (toAddr canctrl) &&& ~~~0xE0) ||| (val &&& 0xE0) := rfl
  have hbit : ∀ v w : BitVec 8, ((v &&& ~~~0xE0) ||| (w &&& 0xE0)) &&& canctrlAbat =
      v &&& canctrlAbat := by
    intro v w
    rw [BitVec.and_or_distrib_right, BitVec.and_assoc, BitVec.and_assoc]
    simp [canctrlAbat]
  rw [aborting, aborting, hreg, hbit]

theorem txbctrl_ne_canctrl (i : Fin 3) : toAddr canctrl ≠ toAddr (txbctrl i) := by
  revert i
  decide

theorem aborting_event {e : ChipEvent} (h : c.event e = some c') : c'.aborting ↔ c.aborting := by
  refine aborting_of_reg ?_
  cases e with
  | sent i =>
      obtain ⟨-, hc⟩ := Option.ite_none_right_eq_some.1 h
      obtain rfl := Option.some.inj hc
      rw [reg_set_of_ne (by decide), reg_set_of_ne (txbctrl_ne_canctrl i)]
  | receive n buf =>
      obtain ⟨-, hc⟩ := Option.ite_none_left_eq_some.1 h
      obtain rfl := Option.some.inj hc
      rw [reg_set_of_ne (by decide), reg_fill_of_lt n buf (by decide)]
  | error flags e =>
      obtain rfl := Option.some.inj h
      rw [reg_set_of_ne (by decide), reg_set_of_ne (by decide)]

end Chip

theorem aborting_of_traffic {o : Op} (h : o.Traffic) {d d' : Driver} {r : Ans o}
    (hexec : exec o d = some (r, d')) : d'.chip.aborting ↔ d.chip.aborting := by
  cases h with
  | plain h =>
      obtain h | h := h
      · cases h with
        | mode val =>
            obtain ⟨-, rfl⟩ := exec_spi hexec
            exact Chip.aborting_mode val
        | read reg n =>
            obtain ⟨-, rfl⟩ := exec_spi hexec
            exact Iff.rfl
        | readRxb n | flags mask h =>
            obtain ⟨-, rfl⟩ := exec_spi hexec
            exact @Chip.aborting_write _ (toAddr canintf) (by decide) _
        | errors mask =>
            obtain ⟨-, rfl⟩ := exec_spi hexec
            exact @Chip.aborting_write _ (toAddr eflg) (by decide) _
        | priority i val =>
            obtain ⟨-, rfl⟩ := exec_spi hexec
            have hval := Chip.val_txbctrl i
            exact Chip.aborting_write (by omega) _
        | spin | txbCache | txbAck | intAck | undefined =>
            rw [chip_of_offline (by trivial) hexec]
      · rw [chip_of_offline h hexec]
  | flags mask val =>
      obtain ⟨-, rfl⟩ := exec_spi hexec
      exact @Chip.aborting_write _ (toAddr canintf) (by decide) _
  | load i buf hbuf =>
      obtain ⟨-, rfl⟩ := exec_spi hexec
      refine Chip.aborting_of_reg ?_
      have hval : (toAddr canctrl).val = 0x0F := rfl
      rw [Chip.reg_load _ i hbuf, if_neg (by omega)]
  | request mask hmask =>
      obtain ⟨-, rfl⟩ := exec_spi hexec
      rw [Chip.spi_rts _ hmask]
      exact Chip.aborting_of_reg (Chip.reg_requestAll_of_ne _ _ fun i _ => Chip.txbctrl_ne_canctrl i)

/-! ## The component -/

/-- What can happen: the steps of the component, where the handler starts with some memory behind
its frame, and the end of the pending transmissions. -/
inductive OverAct
  | act (a : Act) (behind : Behind)
  | abortAll

namespace System

/-- One step with the copy that goes on; nothing if it cannot be taken. -/
def stepOver (s : System) : OverAct → Option System
  | .act (.irq frame) behind =>
      match s.handler with
      | .ret () => some { s with handler := irqHandlerOver behind frame }
      | .call _ _ => none
  | .act a _ => s.step a
  | .abortAll =>
      if s.driver.chip.aborting then
        some { s with driver := { s.driver with chip := s.driver.chip.abortAll } }
      else none

/-- The step relation. -/
def StepOver (s : System) (a : OverAct) (_ : Unit) (s' : System) : Prop := s.stepOver a = some s'

/-- The condition on a step. -/
def shortOver (s : System) : OverAct → Bool
  | .act a _ => s.short a
  | .abortAll => true

/-- A step that meets the condition. -/
def ShortStepOver (s : System) (a : OverAct) (u : Unit) (s' : System) : Prop :=
  s.StepOver a u s' ∧ s.shortOver a = true

/-- Nothing to send, nothing being sent, and nothing to be aborted. -/
structure Still (s : System) : Prop extends s.Silent where
  aborting : ¬ s.driver.chip.aborting

/-- Whenever both threads are at rest and a frame is queued, a transmit buffer is about to be sent or
has its flag set. -/
def QueueAttended (s : System) : Prop :=
  s.AtRest → s.driver.queued .tx ≠ [] →
    ∃ i, s.driver.chip.requested i = true ∨ s.driver.chip.flagged i = true

/-- The state in which the handler is the one that ends where `load_txb` leaves an array. -/
def withHandler (s : System) (p : Io Unit) : System := { s with handler := p }

variable {s s' : System} {p : Io Unit}

/-- What the component does with the copy that goes on, it does with the other handler as well. -/
theorem step_withHandler {a : OverAct} {u : Unit} (h : p.Mirrors Fit s.handler)
    (hquiet : ¬ s.driver.chip.aborting) (hstep : s.ShortStepOver a u s') :
    ∃ a' p', (s.withHandler p).short a' = true ∧
      (s.withHandler p).step a' = some (s'.withHandler p') ∧ p'.Mirrors Fit s'.handler := by
  obtain ⟨hstep, hshort⟩ := hstep
  cases a with
  | abortAll =>
      obtain ⟨habort, -⟩ := Option.ite_none_right_eq_some.1 hstep
      exact absurd habort hquiet
  | act a behind =>
      cases a with
      | irq frame =>
          obtain ⟨driver, client, handler, history⟩ := s
          cases handler with
          | call o k => cases hstep
          | ret u =>
              cases hstep
              obtain rfl := h.of_ret
              exact ⟨.irq frame, irqHandler frame, rfl, rfl, mirrors_irqHandler frame⟩
      | call c =>
          cases @moves_of_step s s' (.call c) hstep with
          | call c hidle => exact ⟨.call c, p, hshort, step_of_moves (.call c hidle), h⟩
      | client =>
          cases @moves_of_step s s' .client hstep with
          | @reply c r hprog =>
              refine ⟨.client, p, rfl, ?_, by cases r <;> exact h⟩
              have hsame : (s.reply c r).withHandler p = (s.withHandler p).reply c r := by
                cases r <;> rfl
              rw [hsame]
              exact step_of_moves (.reply hprog)
          | client hprog hexec => exact ⟨.client, p, rfl, step_of_moves (.client hprog hexec), h⟩
      | handler =>
          cases @moves_of_step s s' .handler hstep with
          | @handler o k r d hprog hexec =>
              rw [hprog] at h
              obtain ⟨k', rfl, hk⟩ := h.of_call
              have hnext : o.short s.driver = true := by
                rw [shortOver, short, hprog] at hshort
                exact hshort
              exact ⟨.handler, k' r, hnext, step_of_moves (.handler rfl hexec),
                hk r (fit_of_short hnext hexec)⟩
      | chip e =>
          cases @moves_of_step s s' (.chip e) hstep with
          | chip hevent => exact ⟨.chip e, p, rfl, step_of_moves (.chip hevent), h⟩

/-- Nothing that the component does sets the bit. -/
theorem aborting_step {a : Act} (h : s.Every Op.Traffic) (hstep : s.step a = some s') :
    s'.driver.chip.aborting ↔ s.driver.chip.aborting := by
  cases moves_of_step hstep with
  | call c hidle => exact Iff.rfl
  | @reply c r hprog => cases r <;> exact Iff.rfl
  | client hprog hexec => exact aborting_of_traffic (h.1 _ _ hprog).1 hexec
  | irq frame hrest => exact Iff.rfl
  | handler hprog hexec =>
      have hcall : (Prog.call _ _ : Io Unit).Every Op.Traffic := hprog ▸ h.2
      exact aborting_of_traffic hcall.1 hexec
  | chip hevent => exact Chip.aborting_event hevent

/-- The invariant of short runs: the component with the other handler can be in the same state. -/
structure Shadowed (s : System) (p : Io Unit) : Prop where
  mirrors : p.Mirrors Fit s.handler
  reachable : Transition.Reachable Step Silent (s.withHandler p)
  defined : (s.withHandler p).Defined
  traffic : (s.withHandler p).Every Op.Traffic
  aborting : ¬ s.driver.chip.aborting

theorem Still.shadowed (h : s.Still) : s.Shadowed s.handler where
  mirrors := .refl _
  reachable := .of_init h.toSilent
  defined := defined_of_atRest h.atRest
  traffic := every_of_atRest h.atRest
  aborting := h.aborting

theorem Shadowed.step {a : OverAct} {u : Unit} (h : s.Shadowed p) (hstep : s.ShortStepOver a u s') :
    ∃ p', s'.Shadowed p' := by
  obtain ⟨a', p', hshort, hstep', hmirrors⟩ := step_withHandler h.mirrors h.aborting hstep
  have hsame := aborting_step h.traffic hstep'
  exact ⟨p', hmirrors, h.reachable.next (show Step _ a' () _ from hstep'), h.defined.step hshort hstep',
    h.traffic.moves traffic_body traffic_irqHandler (moves_of_step hstep'),
    fun habort => h.aborting (hsame.1 habort)⟩

theorem Shadowed.not_astray (h : s.Shadowed p) : ¬ s.Astray := by
  rintro (⟨k, hprog⟩ | hclient)
  · have hmirrors := h.mirrors
    rw [hprog] at hmirrors
    obtain ⟨k', rfl, -⟩ := hmirrors.of_call
    exact h.defined.not_astray (.inl ⟨k', rfl⟩)
  · exact h.defined.not_astray (.inr hclient)

/-- In runs in which all lengths fit, the transmit path never stalls. -/
theorem queue_attended (h : Transition.Reachable ShortStepOver Still s) :
    s.QueueAttended ∧ ¬ s.Astray := by
  obtain ⟨p, hshadowed⟩ := h.invariant (I := fun s => ∃ p, s.Shadowed p)
    (fun _ hs => ⟨_, hs.shadowed⟩) fun _ _ _ _ ⟨_, hI⟩ hstep => hI.step hstep
  refine ⟨fun hrest hqueued => ?_, hshadowed.not_astray⟩
  have hmirrors := hshadowed.mirrors
  rw [hrest.2] at hmirrors
  obtain rfl := hmirrors.of_ret
  exact @attended_of_queued (s.withHandler (.ret ())) hshadowed.reachable ⟨hrest.1, rfl⟩ hqueued

/-! ### Two runs -/

/-- Memory in which the second byte behind the frame has the bit set. -/
def abortingMemory : Behind := #v[0, canctrlAbat, 0, 0, 0, 0, 0]

/-- Four frames are put into the queue, and the handler loads the first three of them. -/
def fourSends (third : CanFrame) : List OverAct :=
  let first : List Act := .call (.send (.bare 1)) :: List.replicate 15 .client
  let others : List Act := [.bare 2, third, .bare 4].flatMap fun frame =>
    .call (.send frame) :: List.replicate 4 .client
  let served : List Act := .irq (.bare 0) :: List.replicate 25 .handler
  (first ++ others ++ served).map fun a => .act a abortingMemory

theorem still_booted : (booted ⟨fun _ => 0⟩ fun _ => .bare 0).Still :=
  ⟨silent_booted (by decide) (by decide) _, by decide⟩

/-- A short step, as a function. -/
def shortly (s : System) (a : OverAct) : Option System :=
  if s.shortOver a then s.stepOver a else none

theorem shortStepOver_of_shortly {a : OverAct} (h : s.shortly a = some s') :
    s.ShortStepOver a () s' := by
  unfold shortly at h
  split at h
  · exact ⟨h, ‹_›⟩
  · cases h

/-- Four frames without payload. -/
theorem run_four_sends :
    ((fourSends (.bare 3)).foldlM shortly (booted ⟨fun _ => 0⟩ fun _ => .bare 0)).map
        (fun s => (s.client, s.handler, mqIsEmpty (s.driver.queue .tx))) =
      some (none, .ret (), false) := rfl

theorem queue_attended_four_sends :
    ∃ s : System, s.AtRest ∧ s.driver.queued .tx ≠ [] ∧
      ∃ i, s.driver.chip.requested i = true ∨ s.driver.chip.flagged i = true := by
  obtain ⟨s, hrun, hs⟩ := Option.map_eq_some_iff.1 run_four_sends
  obtain ⟨hclient, hs⟩ := Prod.mk.inj hs
  obtain ⟨hhandler, hempty⟩ := Prod.mk.inj hs
  have hreach : Transition.Reachable ShortStepOver Still s :=
    Transition.Reachable.foldlM_of (fun _ _ _ h => ⟨(), shortStepOver_of_shortly h⟩) hrun
      (.of_init still_booted)
  have hne : s.driver.queued .tx ≠ [] := by
    rw [Ne, ← mqIsEmpty_iff, hempty]
    exact Bool.false_ne_true
  exact ⟨s, ⟨hclient, hhandler⟩, hne, (queue_attended hreach).1 ⟨hclient, hhandler⟩ hne⟩

/-- The third frame has a data length of ten. -/
theorem run_long_frame :
    ((fourSends { CanFrame.bare 3 with dlc := 10 } ++ [OverAct.abortAll]).foldlM stepOver
        (booted ⟨fun _ => 0⟩ fun _ => .bare 0)).map
        (fun s => (s.client, s.handler, mqIsEmpty (s.driver.queue .tx),
          (List.finRange 3).map s.driver.chip.requested,
          (List.finRange 3).map s.driver.chip.flagged)) =
      some (none, .ret (), false, [false, false, false], [false, false, false]) := rfl

theorem not_queueAttended_long_frame :
    ¬ ∀ s, Transition.Reachable StepOver Still s → s.QueueAttended := by
  intro h
  obtain ⟨s, hrun, hs⟩ := Option.map_eq_some_iff.1 run_long_frame
  simp only [Prod.mk.injEq] at hs
  obtain ⟨hclient, hhandler, hempty, hrequested, hflagged⟩ := hs
  have hreach : Transition.Reachable StepOver Still s :=
    Transition.Reachable.foldlM hrun (.of_init still_booted)
  have hne : s.driver.queued .tx ≠ [] := by
    rw [Ne, ← mqIsEmpty_iff, hempty]
    exact Bool.false_ne_true
  have hnone : ∀ f : Fin 3 → Bool, (List.finRange 3).map f = [false, false, false] →
      ∀ i, f i = false := by
    intro f hf i
    have hmem : f i ∈ (List.finRange 3).map f := List.mem_map_of_mem (List.mem_finRange i)
    rw [hf] at hmem
    simpa using hmem
  obtain ⟨i, hi | hi⟩ := h s hreach ⟨hclient, hhandler⟩ hne
  · exact absurd (hi.symm.trans (hnone _ hrequested i)) Bool.true_eq_false.mp
  · exact absurd (hi.symm.trans (hnone _ hflagged i)) Bool.true_eq_false.mp

end System

end Can
end Tk1Bsp
