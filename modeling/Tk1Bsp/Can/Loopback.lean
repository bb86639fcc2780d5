import Tk1Bsp.Can.Interrupt
import Tk1Bsp.Can.Receive
import Tk1Bsp.Can.Reception
import Tk1Bsp.Can.Settings
import Tk1Bsp.Can.Whole

/-!
# Loopback and polling

`can_setup_loopback` does not enable the interrupts of the controller, as `can_setup` does.  Since
nothing else does either, the INT pin stays high, so that the interrupt handler has no reason to
run, and a `can_recv` waits for ever (`System.loopback_is_silent`).  What is to come out of the
controller must be fetched with `can_poll_rxbuf` and `can_recv_rxb`.

This works as long as messages come into the first buffer only.  `can_recv_rxb` always reads the
first one, and so a message in the second is never released, and all polls after it return the index
of the second buffer (`polling_sticks`).
-/

namespace Tk1Bsp
namespace Can

open Prog

/-! ## Setting up -/

/-- An operation of `can_setup_loopback` after the reset. -/
def Op.Loops : Op → Prop
  | .spi txbuf rcount =>
      ∀ c : Chip, (c.spi txbuf rcount).2.reg (toAddr caninte) = c.reg (toAddr caninte)
  | .undefined => True
  | _ => False

/-- The same interrupts are enabled, and the semaphore has the same count. -/
structure Driver.SameEnabled (d d' : Driver) : Prop where
  inte : d'.chip.reg (toAddr caninte) = d.chip.reg (toAddr caninte)
  lock : d'.queueLock = d.queueLock

section Programs

variable {d d' d'' : Driver}

theorem Driver.SameEnabled.refl (d : Driver) : d.SameEnabled d := ⟨rfl, rfl⟩

theorem Driver.SameEnabled.trans (h : d.SameEnabled d') (h' : d'.SameEnabled d'') :
    d.SameEnabled d'' := ⟨h'.inte.trans h.inte, h'.lock.trans h.lock⟩

theorem Op.Loops.exec {o : Op} {r : Ans o} (h : o.Loops) (hexec : Can.exec o d = some (r, d')) :
    d.SameEnabled d' := by
  cases o with
  | spi txbuf rcount =>
      obtain ⟨-, rfl⟩ := exec_spi hexec
      exact ⟨h d.chip, rfl⟩
  | undefined => cases hexec
  | _ => exact h.elim

theorem queueLock_of_other {o : Op} {r : Ans o} (ho : ¬ o.ConcernsRx)
    (hexec : Can.exec o d = some (r, d')) : d'.queueLock = d.queueLock := by
  cases o with
  | mqAppend q frame =>
      cases hexec
      cases q <;> rfl
  | mqRemove q =>
      cases hexec
      cases q <;> rfl
  | queueLockWait | queueLockPost => exact absurd trivial ho
  | spinWhileNonzero | txbLock =>
      simp only [Can.exec] at hexec
      split at hexec <;> cases hexec
      rfl
  | undefined => cases hexec
  | _ =>
      cases hexec
      rfl

/-- A register other than `CANINTE`. -/
theorem reg_caninte_write (c : Chip) {a : Addr} (h : toAddr caninte ≠ a) (v : BitVec 8) :
    (c.write a v).reg (toAddr caninte) = c.reg (toAddr caninte) :=
  Chip.reg_write_of_ne h (by decide)

theorem loops_bitModify {reg : BitVec 8} (h : toAddr caninte ≠ toAddr reg) (mask val : BitVec 8) :
    (mcp2515BitModify reg mask val).Every Op.Loops :=
  every_bitModify fun c => reg_caninte_write c h _

theorem loops_awaitMode (mode : OpMode) (reads : ℕ) : (awaitMode mode reads).Every Op.Loops := by
  induction reads with
  | zero => exact (every_perform trivial).bind fun absurd => nomatch absurd
  | succ reads ih =>
      have hget : getMode.Every Op.Loops := (every_readReg fun _ => rfl).bind fun _ => trivial
      refine hget.bind fun current => ?_
      split
      · trivial
      · exact ih

theorem loops_setBaudrate (baudrate : BitVec 32) : (setBaudrate baudrate).Every Op.Loops := by
  unfold setBaudrate
  dsimp only
  split
  · exact (every_perform trivial).bind fun absurd => nomatch absurd
  · refine (every_perform fun c => ?_).bind fun _ => trivial
    exact (reg_caninte_write _ (by decide) _).trans
      ((reg_caninte_write _ (by decide) _).trans (reg_caninte_write _ (by decide) _))

/-- `can_setup_loopback` after the reset. -/
def configureLoopback (reads : ℕ) (baudrate : BitVec 32) : Io ℤ := do
  awaitMode .config reads
  setBaudrate baudrate
  setRxMode 0 .any
  setMode .loop
  awaitMode .loop reads
  return 0

theorem loops_configureLoopback (reads : ℕ) (baudrate : BitVec 32) :
    (configureLoopback reads baudrate).Every Op.Loops := by
  refine (loops_awaitMode .config reads).bind fun _ => ?_
  refine (loops_setBaudrate baudrate).bind fun _ => ?_
  refine (loops_bitModify (by decide) _ _).bind fun _ => ?_
  refine (loops_bitModify (by decide) _ _).bind fun _ => ?_
  exact (loops_awaitMode .loop reads).bind fun _ => trivial

/-- No interrupt is enabled after `can_setup_loopback`. -/
theorem caninte_canSetupLoopback {reads : ℕ} {baudrate : BitVec 32} {ret : ℤ}
    (hrun : (canSetupLoopback reads baudrate).run exec d = some (ret, d')) :
    d'.chip.reg (toAddr caninte) = 0 ∧ d'.queueLock = d.queueLock := by
  have hrun : (configureLoopback reads baudrate).run exec { d with chip := d.chip.reset } =
      some (ret, d') := hrun
  have hkeep : ∀ (o : Op) (d : Driver) (r : Ans o) (d' : Driver), o.Loops →
      exec o d = some (r, d') → d.SameEnabled d' := fun _ _ _ _ h => h.exec
  have hsame : Driver.SameEnabled { d with chip := d.chip.reset } d' :=
    (loops_configureLoopback reads baudrate).run .refl (fun _ _ _ h => h.trans) hkeep hrun
  exact ⟨hsame.inte, hsame.lock⟩

end Programs

/-! ## Runs -/

namespace System

/-- A step where the interrupt handler starts only when the INT pin is low. -/
def LevelStep (s : System) (a : Act) (o : Unit) (s' : System) : Prop :=
  Step s a o s' ∧ ∀ frame, a = .irq frame → s.driver.chip.intLow = true

/-- `can_setup_loopback` has been called, and the semaphore of the received frames is zero. -/
structure InLoopback (s : System) : Prop where
  setup : ∃ d reads baudrate ret, d.queueLock = 0 ∧
    (canSetupLoopback reads baudrate).run exec d = some (ret, s.driver)
  client : s.client = none
  handler : s.handler = .ret ()

/-- What is known of the client: a `can_recv` has not begun, and a call that sends does not concern
the frames received. -/
def Sends : Option (Call × Io Reply) → Prop
  | none => True
  | some (.recv, p) => p = Call.recv.body
  | some (_, p) => p.Every Op.Spares ∧ p.Every fun o => ¬ o.ConcernsRx

/-- The invariant. -/
structure Quiet (s : System) : Prop where
  disabled : s.driver.chip.reg (toAddr caninte) = 0
  handler : s.handler = .ret ()
  lock : s.driver.queueLock = 0
  client : Sends s.client

theorem sends_body (c : Call) : Sends (some (c, c.body)) := by
  have hspares := spares_body c
  cases c with
  | send frame => exact ⟨hspares, (other_canSend frame).bind fun _ => trivial⟩
  | sendto txbIdx frame =>
      exact ⟨hspares, (other_canSendto txbIdx frame).bind fun _ => trivial⟩
  | recv => exact rfl

theorem caninte_of_sameSettings {c c' : Chip} (h : c.SameSettings c') :
    c'.reg (toAddr caninte) = c.reg (toAddr caninte) :=
  h (toAddr caninte) (by decide)

namespace Quiet

variable {s s' : System} {a : Act}

theorem of_inLoopback (h : s.InLoopback) : Quiet s := by
  obtain ⟨⟨d, reads, baudrate, ret, hlock, hrun⟩, hclient, hhandler⟩ := h
  obtain ⟨hdisabled, hsame⟩ := caninte_canSetupLoopback hrun
  exact ⟨hdisabled, hhandler, hsame.trans hlock, hclient ▸ trivial⟩

theorem intLow (h : Quiet s) : s.driver.chip.intLow = false := by
  simp [Chip.intLow, h.disabled]

/-- A `can_recv` waits for the semaphore. -/
theorem recv_waits (h : Quiet s) {p : Io Reply} (hprog : s.client = some (.recv, p)) :
    s.step .client = none := by
  have hsends := h.client
  rw [hprog] at hsends
  obtain rfl : p = Call.recv.body := hsends
  have hwait : exec .queueLockWait s.driver = none := if_pos h.lock
  simp only [step, hprog]
  exact congrArg (Option.map _) (congrArg (Option.map _) hwait)

/-- One operation of a call that sends. -/
theorem client_step {c : Call} {o : Op} {k : Ans o → Io Reply} {r : Ans o} {d : Driver}
    {history : History} (h : Quiet s) (hprog : s.client = some (c, .call o k)) (hc : c ≠ .recv)
    (hexec : exec o s.driver = some (r, d)) :
    Quiet { s with driver := d, client := some (c, k r), history := history } := by
  have hsends := h.client
  rw [hprog] at hsends
  cases c with
  | recv => exact absurd rfl hc
  | send | sendto =>
      obtain ⟨⟨hspares, hsparing⟩, ⟨hother, hothers⟩⟩ := hsends
      exact ⟨(caninte_of_sameSettings (hspares.exec hexec)).trans h.disabled, h.handler,
        (queueLock_of_other hother hexec).trans h.lock, hsparing r, hothers r⟩

theorem step {o : Unit} (h : Quiet s) (hs : LevelStep s a o s') : Quiet s' := by
  obtain ⟨hstep, hlow⟩ := hs
  cases moves_of_step hstep with
  | call c hidle => exact ⟨h.disabled, h.handler, h.lock, sends_body c⟩
  | @reply c r hprog =>
      cases r with
      | again => exact ⟨h.disabled, h.handler, h.lock, sends_body c⟩
      | done | status | frame => exact ⟨h.disabled, h.handler, h.lock, trivial⟩
  | @client c o k r d hprog hexec =>
      refine h.client_step hprog ?_ hexec
      rintro rfl
      exact absurd (h.recv_waits hprog) (by rw [hstep]; exact Option.some_ne_none _)
  | irq frame hrest =>
      have hhigh := h.intLow.symm.trans (hlow frame rfl)
      cases hhigh
  | handler hprog hexec =>
      rw [h.handler] at hprog
      cases hprog
  | chip hevent =>
      have hsame := caninte_of_sameSettings (Chip.sameSettings_event hevent)
      exact ⟨hsame.trans h.disabled, h.handler, h.lock, h.client⟩

end Quiet

/-- After `can_setup_loopback`, whatever is sent and whatever the controller does, the INT pin is
high, the handler is at rest, and a client in `can_recv` waits. -/
theorem loopback_is_silent {s : System} (h : Transition.Reachable LevelStep InLoopback s) :
    s.driver.chip.intLow = false ∧ s.handler = .ret () ∧
      ∀ p, s.client = some (.recv, p) → s.step .client = none := by
  have hquiet : Quiet s :=
    h.invariant (fun _ hs => .of_inLoopback hs) fun _ _ _ _ hs hstep => hs.step hstep
  exact ⟨hquiet.intLow, hquiet.handler, fun _ => hquiet.recv_waits⟩

/-- The component with a controller whose registers are all zero. -/
def zeroed : System := booted ⟨fun _ => 0⟩ fun _ => .bare 0

theorem loopback_is_silent_receiving :
    ∃ s : System, s.client = some (.recv, Call.recv.body) ∧ s.driver.chip.intLow = false ∧
      s.step .client = none := by
  have hsome : ((canSetupLoopback 1 125000).run exec zeroed.driver).isSome := rfl
  obtain ⟨⟨ret, d⟩, hrun⟩ := Option.isSome_iff_exists.1 hsome
  have hinit : InLoopback { zeroed with driver := d } :=
    ⟨⟨zeroed.driver, 1, 125000, ret, rfl, hrun⟩, rfl, rfl⟩
  have hstep : LevelStep { zeroed with driver := d } (.call .recv) ()
      { zeroed with driver := d, client := some (.recv, Call.recv.body) } :=
    ⟨rfl, (by rintro _ ⟨⟩)⟩
  obtain ⟨hhigh, -, hwaits⟩ := loopback_is_silent ((Transition.Reachable.of_init hinit).next hstep)
  exact ⟨_, rfl, hhigh, hwaits _ rfl⟩

end System

/-! ## Polling -/

/-- The calls of a client that polls, and what the controller does meanwhile. -/
inductive PollAct
  | poll
  | recv (rxbIdx : ℤ) (frame : CanFrame)
  | chip (e : ChipEvent)

/-- What comes back. -/
inductive PollAns
  | index (ret : ℤ)
  | frame (frame : CanFrame)
  | silence

/-- One call or event. -/
def PollAct.Step (d : Driver) : PollAct → PollAns → Driver → Prop
  | .poll, .index n, d' => canPollRxbuf.run exec d = some (n, d')
  | .recv rxbIdx frame, .frame frame', d' =>
      (canRecvRxb rxbIdx frame).run exec d = some (frame', d')
  | .chip e, .silence, d' => ∃ chip, d.chip.event e = some chip ∧ d' = { d with chip := chip }
  | _, _, _ => False

/-- No event takes a message out of a receive buffer. -/
theorem Chip.received_event {c c' : Chip} {e : ChipEvent} {n : Fin 2} (h : c.event e = some c')
    (hn : c.received n = true) : c'.received n = true := by
  unfold Chip.received at hn ⊢
  cases e with
  | sent i =>
      simp only [Chip.event] at h
      split at h <;> cases h
      rw [Chip.reg_set_self, BitVec.getLsbD_or, hn, Bool.true_or]
  | receive m buf =>
      simp only [Chip.event] at h
      split at h <;> cases h
      rw [Chip.reg_set_self, BitVec.getLsbD_or, hn, Bool.true_or]
  | error flags e =>
      cases h
      have hne : toAddr canintf ≠ toAddr eflg := by decide
      rw [Chip.reg_set_of_ne hne, Chip.reg_set_self, BitVec.getLsbD_or, hn, Bool.true_or]

section Polling

variable {d d' : Driver}

/-- `can_poll_rxbuf` looks at the second buffer first. -/
theorem run_canPollRxbuf (d : Driver) :
    canPollRxbuf.run exec d =
      some (if d.chip.received 1 then 1 else if d.chip.received 0 then 0 else -1, d) := by
  have hrx1 : ∀ v : BitVec 8, v &&& canintfRx1if ≠ 0 ↔ v.getLsbD 1 = true := by decide
  have hrx0 : ∀ v : BitVec 8, v &&& canintfRx0if ≠ 0 ↔ v.getLsbD 0 = true := by decide
  have hrun : canPollRxbuf.run exec d =
      some (if d.chip.reg (toAddr canintf) &&& canintfRx1if ≠ 0 then 1
        else if d.chip.reg (toAddr canintf) &&& canintfRx0if ≠ 0 then 0 else -1, d) := rfl
  rw [hrun]
  simp only [hrx1, hrx0]
  rfl

/-- A message stays in the second buffer. -/
theorem PollAct.Step.sticks {a : PollAct} {o : PollAns} (h : PollAct.Step d a o d')
    (hfull : d.chip.received 1 = true) :
    d'.chip.received 1 = true ∧ ∀ ret, o = .index ret → ret = 1 := by
  cases a with
  | poll =>
      cases o with
      | index ret =>
          have hrun : canPollRxbuf.run exec d = some (1, d) := by
            rw [run_canPollRxbuf, if_pos hfull]
          obtain ⟨rfl, rfl⟩ := Prod.mk.inj (Option.some.inj (hrun.symm.trans h))
          exact ⟨hfull, fun _ heq => (PollAns.index.inj heq).symm⟩
      | frame | silence => exact h.elim
  | recv rxbIdx frame =>
      cases o with
      | frame frame' =>
          have hrun : (recvRxb rxbIdx frame).run exec d = some (frame', d') := h
          rw [run_recvRxb] at hrun
          split at hrun
          · obtain ⟨-, rfl⟩ := Prod.mk.inj (Option.some.inj hrun)
            refine ⟨(received_readRxb d 1).trans ?_, (by rintro _ ⟨⟩)⟩
            rw [hfull]
            rfl
          · cases hrun
      | index | silence => exact h.elim
  | chip e =>
      cases o with
      | silence =>
          obtain ⟨chip, hevent, rfl⟩ := h
          exact ⟨Chip.received_event hevent hfull, (by rintro _ ⟨⟩)⟩
      | index | frame => exact h.elim

/-- Once a message is in the second buffer, all polls return its index, whatever the client reads
and whatever comes in. -/
theorem polling_sticks {as : List PollAct} {os : List PollAns} (hfull : d.chip.received 1 = true)
    (hrun : Transition.Run PollAct.Step d as os d') :
    d'.chip.received 1 = true ∧ ∀ ret, PollAns.index ret ∈ os → ret = 1 := by
  induction hrun with
  | nil => exact ⟨hfull, fun _ hmem => absurd hmem List.not_mem_nil⟩
  | cons hstep _ ih =>
      obtain ⟨hfull', hindex⟩ := hstep.sticks hfull
      obtain ⟨hend, hrest⟩ := ih hfull'
      refine ⟨hend, fun ret hmem => ?_⟩
      obtain heq | hmem := List.mem_cons.1 hmem
      · exact hindex ret heq.symm
      · exact hrest ret hmem

/-- A message is in the second buffer. -/
def fullDriver : Driver :=
  (System.booted ⟨fun a => if a = toAddr canintf then 2 else 0⟩ fun _ => .bare 0).driver

/-- A client polls, reads, and polls again. -/
theorem polling_sticks_read :
    ∃ (d d' : Driver) (frame' : CanFrame),
      Transition.Run PollAct.Step d [.poll, .recv 1 (.bare 0), .poll]
        [.index 1, .frame frame', .index 1] d' ∧ d'.chip.received 1 = true := by
  have hfull : fullDriver.chip.received 1 = true := rfl
  have hlen : (decodeFrame (fullDriver.chip.rxbImage 0) (.bare 0)).dlc.toNat ≤ 8 := by decide
  have hread : PollAct.Step fullDriver (.recv 1 (.bare 0))
      (.frame (decodeFrame (fullDriver.chip.rxbImage 0) (.bare 0))) fullDriver.readRxb :=
    (run_recvRxb 1 (.bare 0) fullDriver).trans (if_pos hlen)
  have hfirst : PollAct.Step fullDriver .poll (.index 1) fullDriver := run_canPollRxbuf fullDriver
  have hagain : PollAct.Step fullDriver.readRxb .poll (.index 1) fullDriver.readRxb :=
    run_canPollRxbuf fullDriver.readRxb
  have hrun := Transition.Run.cons hfirst (.cons hread (.single hagain))
  exact ⟨_, _, _, hrun, (polling_sticks hfull hrun).1⟩

end Polling

end Can
end Tk1Bsp
