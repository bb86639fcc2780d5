import Tk1Bsp.Can.Lengths

/-!
# The way of an interrupt

The controller holds its INT pin low while a flag in `CANINTF` is set that `CANINTE` enables.  The
GPIO block latches the pin only when it falls.  Between the two and the driver go an interrupt, which
stays masked until it is acknowledged, and two notifications: `CAN1Int` to the driver and `CANIntAck`
back.  `gpio_pending_clear` forgets the latch at the end, whatever the pin is; where the pin is high
then, no flag is ever without a latch.
-/

namespace Tk1Bsp
namespace Can

/-! ## The GPIO component -/

/-- What the handlers of `gpio.c` do. -/
inductive GpioOp
  | isPending
  | pendingClear
  | acknowledge
  | emitInt

/-- What an operation returns. -/
@[reducible] def GpioAns : GpioOp → Type
  | .isPending => Bool
  | _ => Unit

/-- Programs of the GPIO component. -/
abbrev GpioIo := Prog GpioOp GpioAns

/-- Perform an operation. -/
def gpioOp (o : GpioOp) : GpioIo (GpioAns o) := Prog.perform o

/-- `irq_grp5_int_handle`. -/
def irqGrp5IntHandle : GpioIo Unit := do
  let pending ← gpioOp .isPending
  if pending then gpioOp .emitInt
  else do
    gpioOp .pendingClear
    gpioOp .acknowledge

/-- `CANIntAck_handler`. -/
def canIntAckHandler : GpioIo Unit := do
  gpioOp .pendingClear
  gpioOp .acknowledge

/-- The INT pin is low: a flag is set and enabled. -/
def Chip.intLow (c : Chip) : Bool :=
  c.reg (toAddr canintf) &&& c.reg (toAddr caninte) ≠ 0

/-! ## The path -/

/-- The driver and the GPIO component: the latch of the pin, whether the interrupt has been
acknowledged, the notifications in flight, and what is left of the three handlers. -/
structure IntPath where
  driver : Driver
  pending : Bool
  acknowledged : Bool
  int : Bool
  intAck : Bool
  irqHandler : Io Unit
  grp5Handle : GpioIo Unit
  ackHandler : GpioIo Unit

/-- What can happen.  The interrupt is one of a group of pins. -/
inductive IntAct
  | chip (e : ChipEvent)
  | interrupt
  | grp5
  | int (frame : CanFrame)
  | handler
  | intAck
  | ack

/-- The meaning of the operations of the GPIO component. -/
def gpioExec : (o : GpioOp) → IntPath → GpioAns o × IntPath
  | .isPending, s => (s.pending, s)
  | .pendingClear, s => ((), { s with pending := false })
  | .acknowledge, s => ((), { s with acknowledged := true })
  | .emitInt, s => ((), { s with int := true })

namespace IntPath

/-- The controller has changed; the pin is latched if it fell. -/
def withDriver (s : IntPath) (d : Driver) : IntPath :=
  { s with driver := d, pending := s.pending || (!s.driver.chip.intLow && d.chip.intLow) }

/-- One step; nothing if it cannot be taken. -/
def step (s : IntPath) : IntAct → Option IntPath
  | .chip e => (s.driver.chip.event e).map fun chip => s.withDriver { s.driver with chip := chip }
  | .interrupt =>
      match s.acknowledged, s.grp5Handle with
      | true, .ret () => some { s with acknowledged := false, grp5Handle := irqGrp5IntHandle }
      | _, _ => none
  | .grp5 =>
      match s.grp5Handle with
      | .ret () => none
      | .call o k =>
          let rs := gpioExec o s
          some { rs.2 with grp5Handle := k rs.1 }
  | .int frame =>
      match s.int, s.irqHandler with
      | true, .ret () => some { s with int := false, irqHandler := Can.irqHandler frame }
      | _, _ => none
  | .handler =>
      match s.irqHandler with
      | .ret () => none
      | .call o k =>
          (exec o s.driver).map fun rd =>
            { s.withDriver rd.2 with
              irqHandler := k rd.1
              intAck := s.intAck || (match o with | .intAck => true | _ => false) }
  | .intAck =>
      match s.intAck, s.ackHandler with
      | true, .ret () => some { s with intAck := false, ackHandler := canIntAckHandler }
      | _, _ => none
  | .ack =>
      match s.ackHandler with
      | .ret () => none
      | .call o k =>
          let rs := gpioExec o s
          some { rs.2 with ackHandler := k rs.1 }

/-- The step relation. -/
def Step (s : IntPath) (a : IntAct) (_ : Unit) (s' : IntPath) : Prop := s.step a = some s'

/-- No handler is running, no notification is in flight, and the interrupt has been acknowledged. -/
structure Idle (s : IntPath) : Prop where
  irqHandler : s.irqHandler = .ret ()
  grp5Handle : s.grp5Handle = .ret ()
  ackHandler : s.ackHandler = .ret ()
  int : s.int = false
  intAck : s.intAck = false
  acknowledged : s.acknowledged = true

/-- Nothing has happened yet, and the pin is high. -/
structure Initial (s : IntPath) : Prop where
  idle : s.Idle
  high : s.driver.chip.intLow = false

/-- A thread of the GPIO component is about to clear the latch. -/
def Clears (s : IntPath) : IntAct → Prop
  | .grp5 => ∃ k, s.grp5Handle = .call .pendingClear k
  | .ack => ∃ k, s.ackHandler = .call .pendingClear k
  | _ => False

/-- The condition on a step: the latch is cleared only while the pin is high, so when no enabled flag
is set. -/
def ClearsHigh (s : IntPath) (a : IntAct) : Prop := s.Clears a → s.driver.chip.intLow = false

/-- The length of a message that the handler reads, or of a frame that it takes from the TX queue,
fits. -/
def short (s : IntPath) : IntAct → Bool
  | .handler => nextShort s.driver s.irqHandler
  | _ => true

/-- A step that meets both conditions. -/
def HighStep (s : IntPath) (a : IntAct) (u : Unit) (s' : IntPath) : Prop :=
  s.Step a u s' ∧ s.ClearsHigh a ∧ s.short a = true

/-- The invariant: a low pin is latched. -/
def Latched (s : IntPath) : Prop := s.driver.chip.intLow = true → s.pending = true

theorem Latched.withDriver {s : IntPath} (h : s.Latched) (d : Driver) : (s.withDriver d).Latched := by
  intro hlow
  show (s.pending || (!s.driver.chip.intLow && d.chip.intLow)) = true
  cases hwas : s.driver.chip.intLow with
  | true => rw [h hwas, Bool.true_or]
  | false =>
      have hlow : d.chip.intLow = true := hlow
      rw [hlow]
      exact Bool.or_true _

/-- An operation of the GPIO component. -/
theorem Latched.gpioExec {s : IntPath} (h : s.Latched) {o : GpioOp}
    (hclear : o = .pendingClear → s.driver.chip.intLow = false) : (gpioExec o s).2.Latched := by
  cases o with
  | pendingClear =>
      intro hlow
      cases hlow.symm.trans (hclear rfl)
  | _ => exact h

theorem Latched.step {s s' : IntPath} {a : IntAct} (h : s.Latched) (hstep : s.step a = some s')
    (hhigh : s.ClearsHigh a) : s'.Latched := by
  cases a with
  | chip e =>
      simp only [IntPath.step, Option.map_eq_some_iff] at hstep
      obtain ⟨chip, -, rfl⟩ := hstep
      exact h.withDriver _
  | handler =>
      simp only [IntPath.step] at hstep
      split at hstep
      · cases hstep
      · obtain ⟨rd, -, rfl⟩ := Option.map_eq_some_iff.1 hstep
        exact h.withDriver rd.2
  | grp5 | ack =>
      simp only [IntPath.step] at hstep
      split at hstep
      · cases hstep
      · rename_i o k hprog
        cases hstep
        refine h.gpioExec fun ho => ?_
        subst ho
        exact hhigh ⟨k, hprog⟩
  | interrupt | int _ | intAck =>
      simp only [IntPath.step] at hstep
      split at hstep <;> cases hstep
      exact h

/-- What is left of `irq_handler` does not lead outside of an array as long as the lengths fit. -/
def Defined (s : IntPath) : Prop := s.irqHandler.Each Fit Heeds fun _ => True

theorem Defined.step {s s' : IntPath} {a : IntAct} (h : s.Defined) (hstep : s.step a = some s')
    (hshort : s.short a = true) : s'.Defined := by
  cases a with
  | chip e =>
      simp only [IntPath.step, Option.map_eq_some_iff] at hstep
      obtain ⟨chip, -, rfl⟩ := hstep
      exact h
  | handler =>
      simp only [IntPath.step] at hstep
      split at hstep
      · cases hstep
      · rename_i o k hprog
        obtain ⟨rd, hexec, rfl⟩ := Option.map_eq_some_iff.1 hstep
        rw [short, hprog] at hshort
        rw [Defined, hprog] at h
        exact h.2 rd.1 (fit_of_short hshort hexec)
  | grp5 | ack =>
      simp only [IntPath.step] at hstep
      split at hstep
      · cases hstep
      · rename_i o k hprog
        cases hstep
        cases o <;> exact h
  | int frame =>
      simp only [IntPath.step] at hstep
      split at hstep <;> cases hstep
      exact heeds_irqHandler frame
  | interrupt | intAck =>
      simp only [IntPath.step] at hstep
      split at hstep <;> cases hstep
      exact h

theorem Defined.ne_undefined {s : IntPath} (h : s.Defined) :
    ∀ k, s.irqHandler ≠ .call .undefined k := by
  intro k hprog
  rw [Defined, hprog] at h
  exact h.1

/-- While all is idle and an enabled flag is set, the pin is latched, and the interrupt leads to
another run of `irq_handler`. -/
def Serves (s : IntPath) : Prop :=
  s.Idle → s.driver.chip.intLow = true → s.pending = true ∧
    ∀ frame, ∃ s', Transition.Run HighStep s [.interrupt, .grp5, .grp5, .int frame] [(), (), (), ()] s' ∧
      s'.irqHandler = Can.irqHandler frame

theorem Latched.serves {s : IntPath} (h : s.Latched) : s.Serves := by
  intro hidle hlow
  have hpending := h hlow
  refine ⟨hpending, fun frame => ?_⟩
  obtain ⟨driver, pending, acknowledged, int, intAck, handler, grp5, ack⟩ := s
  obtain ⟨rfl, rfl, rfl, rfl, rfl, rfl⟩ := hidle
  obtain rfl : pending = true := hpending
  let emit : GpioIo Unit := .call .emitInt .ret
  have h₁ : HighStep ⟨driver, true, true, false, false, .ret (), .ret (), .ret ()⟩ .interrupt ()
      ⟨driver, true, false, false, false, .ret (), irqGrp5IntHandle, .ret ()⟩ := ⟨rfl, nofun, rfl⟩
  have h₂ : HighStep ⟨driver, true, false, false, false, .ret (), irqGrp5IntHandle, .ret ()⟩ .grp5 ()
      ⟨driver, true, false, false, false, .ret (), emit, .ret ()⟩ :=
    ⟨rfl, (fun ⟨_, hk⟩ => nomatch hk), rfl⟩
  have h₃ : HighStep ⟨driver, true, false, false, false, .ret (), emit, .ret ()⟩ .grp5 ()
      ⟨driver, true, false, true, false, .ret (), .ret (), .ret ()⟩ :=
    ⟨rfl, (fun ⟨_, hk⟩ => nomatch hk), rfl⟩
  have h₄ : HighStep ⟨driver, true, false, true, false, .ret (), .ret (), .ret ()⟩ (.int frame) ()
      ⟨driver, true, false, false, false, Can.irqHandler frame, .ret (), .ret ()⟩ :=
    ⟨rfl, nofun, rfl⟩
  exact ⟨_, .cons h₁ (.cons h₂ (.cons h₃ (.single h₄))), rfl⟩

theorem Initial.latched {s : IntPath} (h : s.Initial) : s.Latched := by
  intro hlow
  rw [h.high] at hlow
  cases hlow

theorem Initial.defined {s : IntPath} (h : s.Initial) : s.Defined := by
  rw [Defined, h.idle.irqHandler]
  trivial

/-- Where the latch is cleared only while the pin is high, and the lengths fit, no interrupt is lost,
and `irq_handler` does not come to an access outside of an array. -/
theorem no_interrupt_lost {s : IntPath} (h : Transition.Reachable HighStep Initial s) :
    s.Serves ∧ ∀ k, s.irqHandler ≠ .call .undefined k := by
  obtain ⟨hlatched, hdefined⟩ := h.invariant (I := fun s => s.Latched ∧ s.Defined)
    (fun _ hs => ⟨hs.latched, hs.defined⟩) fun _ _ _ _ hI hstep =>
      ⟨hI.1.step hstep.1 hstep.2.1, hI.2.step hstep.1 hstep.2.2⟩
  exact ⟨hlatched.serves, hdefined.ne_undefined⟩

/-- The registers after `can_setup`: all interrupts but the wake-up are enabled. -/
def enabledChip : Chip := ⟨fun a => if a = toAddr caninte then 0xBF else 0⟩

/-- The path before anything has happened. -/
def quiet : IntPath where
  driver := (System.booted enabledChip fun _ => .bare 0).driver
  pending := false
  acknowledged := true
  int := false
  intAck := false
  irqHandler := .ret ()
  grp5Handle := .ret ()
  ackHandler := .ret ()

theorem quiet_initial : quiet.Initial := ⟨⟨rfl, rfl, rfl, rfl, rfl, rfl⟩, rfl⟩

/-- A message without payload arrives in receive buffer `n`. -/
def arrival (n : Fin 2) : IntAct := .chip (.receive n (Vector.replicate 13 0))

/-- The first message leads to a run of `irq_handler`. -/
theorem no_interrupt_lost_first :
    ∃ s, quiet.step (arrival 0) = some s ∧ s.pending = true ∧
      ∃ s' : IntPath, s'.irqHandler = Can.irqHandler (.bare 0) := by
  have hstep : quiet.HighStep (arrival 0) () (quiet.withDriver { quiet.driver with
      chip := (quiet.driver.chip.fill 0 (Vector.replicate 13 0)).set (toAddr canintf) 1 }) :=
    ⟨rfl, nofun, rfl⟩
  obtain ⟨hpending, hserves⟩ := (no_interrupt_lost
    (Transition.Reachable.next (.of_init quiet_initial) hstep)).1 ⟨rfl, rfl, rfl, rfl, rfl, rfl⟩ rfl
  obtain ⟨s', -, hrun⟩ := hserves (.bare 0)
  exact ⟨_, hstep.1, hpending, s', hrun⟩

/-- A message for receive buffer 1 arrives after the handler has read the flags for the one in
receive buffer 0. -/
theorem run_second_message :
    ([arrival 0, .interrupt, .grp5, .grp5, .int (.bare 0), .handler, arrival 1, .handler,
      .handler, .handler, .handler, .handler, .intAck, .ack, .ack].foldlM step quiet).map
      (fun s => (s.irqHandler, s.grp5Handle, s.ackHandler, s.int, s.intAck, s.acknowledged,
        s.driver.chip.intLow, s.pending)) =
      some (.ret (), .ret (), .ret (), false, false, true, true, false) := rfl

/-- The second message stays in its buffer, and no interrupt will tell. -/
theorem not_serves_second_message : ¬ ∀ s, Transition.Reachable Step Initial s → s.Serves := by
  intro h
  obtain ⟨s, hrun, hs⟩ := Option.map_eq_some_iff.1 run_second_message
  simp only [Prod.mk.injEq] at hs
  obtain ⟨hhandler, hgrp5, hack, hint, hintAck, hacknowledged, hlow, hpending⟩ := hs
  have hserves := h s (Transition.Reachable.foldlM hrun (.of_init quiet_initial))
    ⟨hhandler, hgrp5, hack, hint, hintAck, hacknowledged⟩ hlow
  rw [hpending] at hserves
  exact Bool.false_ne_true hserves.1

end IntPath

end Can
end Tk1Bsp
