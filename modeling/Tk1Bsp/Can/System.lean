import Tk1Bsp.Can.Irq
import Tk1Bsp.Framework.Protocol
import Tk1Bsp.Framework.Transition

/-!
# The CAN component and its hardware

Two threads run in the component: one serves the calls of the client, one runs `irq_handler` again
and again.  A step of the system is one atomic operation of one of them, the start or the return
of a call or of the handler, or something the controller does by itself.  `System.step` computes
steps; `System.Moves` lists them.

`History` remembers what the shared state does not: the bytes last loaded into each transmit buffer
that have not been sent, the frames put into the RX queue, and what the calls of `can_recv` gave.
-/

namespace Tk1Bsp
namespace Can

/-! ## The hardware -/

namespace Chip

variable (c : Chip)

/-- `TXREQ` of transmit buffer `i`: its frame waits to be sent. -/
def requested (i : Fin 3) : Bool := (c.reg (toAddr (txbctrl i))).getLsbD 3

/-- `TXiIF` in `CANINTF`. -/
def flagged (i : Fin 3) : Bool := (c.reg (toAddr canintf)).getLsbD (i + 2)

/-- `RXnIF` in `CANINTF`: receive buffer `n` holds a message. -/
def received (n : Fin 2) : Bool := (c.reg (toAddr canintf)).getLsbD n

/-- Put a message into receive buffer `n`. -/
def fill (n : Fin 2) (buf : Vector (BitVec 8) 13) : Chip :=
  ⟨fun a =>
    if h : 0x61 + 16 * n.val ≤ a.val ∧ a.val < 0x6E + 16 * n.val then
      buf.get ⟨a.val - (0x61 + 16 * n.val), by omega⟩
    else c.reg a⟩

/-- The bytes of transmit buffer `i`: identifier, length and payload. -/
def txb (i : Fin 3) (k : ℕ) : BitVec 8 := c.reg (Fin.ofNat 128 (0x31 + 16 * i + k))

end Chip

/-- What the controller does by itself. -/
inductive ChipEvent
  | sent (i : Fin 3)
  | receive (n : Fin 2) (buf : Vector (BitVec 8) 13)
  | error (flags eflg : BitVec 8)

/-- The effect on the registers.  A message goes into a receive buffer only if that is free. -/
def Chip.event (c : Chip) : ChipEvent → Option Chip
  | .sent i =>
      if c.requested i then
        let a := toAddr (txbctrl i)
        some ((c.set a (c.reg a &&& 0xF7)).set (toAddr canintf)
          (c.reg (toAddr canintf) ||| canintfTx0if <<< i.val))
      else none
  | .receive n buf =>
      if c.received n then none
      else
        some ((c.fill n buf).set (toAddr canintf) (c.reg (toAddr canintf) ||| 1#8 <<< n.val))
  | .error flags e =>
      some ((c.set (toAddr canintf) (c.reg (toAddr canintf) ||| (flags &&& 0xE0))).set
        (toAddr eflg) e)

/-! ## History -/

/-- What has been done so far. -/
structure History where
  loaded : Fin 3 → Option (List (BitVec 8))
  received : List CanFrame
  delivered : List (Option CanFrame)

/-- The transmit buffer that an operation loads, and the bytes. -/
def Op.load : Op → Option (Fin 3 × List (BitVec 8))
  | .spi (0x40 :: buf) _ => some (0, buf)
  | .spi (0x42 :: buf) _ => some (1, buf)
  | .spi (0x44 :: buf) _ => some (2, buf)
  | _ => none

namespace History

/-- Remember an operation. -/
def record (h : History) (o : Op) : History :=
  match o with
  | .spi _ _ =>
      match o.load with
      | some (i, buf) => { h with loaded := Function.update h.loaded i (some buf) }
      | none => h
  | .mqAppend .rx frame => { h with received := h.received ++ [frame] }
  | _ => h

/-- Remember what the controller did: a frame that has been sent is no longer in its buffer. -/
def event (h : History) : ChipEvent → History
  | .sent i => { h with loaded := Function.update h.loaded i none }
  | _ => h

end History

/-! ## Threads -/

/-- The calls of the client. -/
inductive Call
  | send (frame : CanFrame)
  | sendto (txbIdx : ℤ) (frame : CanFrame)
  | recv

/-- How the body of a call ends. -/
inductive Reply
  | again
  | done
  | status (ret : ℤ)
  | frame (frame : Option CanFrame)

/-- The body of a call. -/
def Call.body : Call → Io Reply
  | .send frame => do
      let ret ← canSend frame
      return if ret < 0 then .again else .done
  | .sendto txbIdx frame => do
      let ret ← canSendto txbIdx frame
      return .status ret
  | .recv => do
      let frame ← canRecv
      return .frame frame

/-- The component with its two threads: the call the client is in and what is left of it, and what
is left of the interrupt handler. -/
structure System where
  driver : Driver
  client : Option (Call × Io Reply)
  handler : Io Unit
  history : History

/-- What can happen. -/
inductive Act
  | call (c : Call)
  | client
  | irq (frame : CanFrame)
  | handler
  | chip (e : ChipEvent)

namespace System

/-- Neither thread is inside an operation. -/
def AtRest (s : System) : Prop := s.client = none ∧ s.handler = .ret ()

/-- The body of a call has ended: start it again, or return from the call. -/
def reply (s : System) (c : Call) : Reply → System
  | .again => { s with client := some (c, c.body) }
  | .frame frame =>
      { s with client := none, history :=
          { s.history with delivered := s.history.delivered ++ [frame] } }
  | _ => { s with client := none }

/-- Perform an operation. -/
def perform (s : System) (o : Op) : Option (Ans o × System) :=
  (exec o s.driver).map fun rs =>
    (rs.1, { s with driver := rs.2, history := s.history.record o })

/-- One step; nothing if it cannot be taken. -/
def step (s : System) : Act → Option System
  | .call c =>
      match s.client with
      | none => some { s with client := some (c, c.body) }
      | some _ => none
  | .client =>
      match s.client with
      | none => none
      | some (c, .ret reply) => some (s.reply c reply)
      | some (c, .call o k) =>
          (s.perform o).map fun rs => { rs.2 with client := some (c, k rs.1) }
  | .irq frame =>
      match s.handler with
      | .ret () => some { s with handler := irqHandler frame }
      | .call _ _ => none
  | .handler =>
      match s.handler with
      | .ret () => none
      | .call o k => (s.perform o).map fun rs => { rs.2 with handler := k rs.1 }
  | .chip e =>
      (s.driver.chip.event e).map fun chip =>
        { s with driver := { s.driver with chip := chip }, history := s.history.event e }

/-- The step relation. -/
def Step (s : System) (a : Act) (_ : Unit) (s' : System) : Prop := s.step a = some s'

/-- What a step can be. -/
inductive Moves (s : System) : Act → System → Prop
  | call (c : Call) (hidle : s.client = none) :
      Moves s (.call c) { s with client := some (c, c.body) }
  | reply {c : Call} {r : Reply} (hprog : s.client = some (c, .ret r)) :
      Moves s .client (s.reply c r)
  | client {c : Call} {o : Op} {k : Ans o → Io Reply} {r : Ans o} {d : Driver}
      (hprog : s.client = some (c, .call o k)) (hexec : exec o s.driver = some (r, d)) :
      Moves s .client
        { s with driver := d, client := some (c, k r), history := s.history.record o }
  | irq (frame : CanFrame) (hrest : s.handler = .ret ()) :
      Moves s (.irq frame) { s with handler := irqHandler frame }
  | handler {o : Op} {k : Ans o → Io Unit} {r : Ans o} {d : Driver}
      (hprog : s.handler = .call o k) (hexec : exec o s.driver = some (r, d)) :
      Moves s .handler { s with driver := d, handler := k r, history := s.history.record o }
  | chip {e : ChipEvent} {chip : Chip} (hevent : s.driver.chip.event e = some chip) :
      Moves s (.chip e)
        { s with driver := { s.driver with chip := chip }, history := s.history.event e }

theorem moves_of_step {s s' : System} {a : Act} (h : s.step a = some s') : Moves s a s' := by
  cases a with
  | call c =>
      simp only [step] at h
      split at h
      · rename_i hidle
        obtain rfl := Option.some.inj h
        exact .call c hidle
      · cases h
  | client =>
      simp only [step] at h
      split at h
      · cases h
      · rename_i hprog
        obtain rfl := Option.some.inj h
        exact .reply hprog
      · rename_i hprog
        simp only [perform, Option.map_map, Option.map_eq_some_iff] at h
        obtain ⟨rs, hexec, rfl⟩ := h
        exact .client hprog hexec
  | irq frame =>
      simp only [step] at h
      split at h
      · rename_i hrest
        obtain rfl := Option.some.inj h
        exact .irq frame hrest
      · cases h
  | handler =>
      simp only [step] at h
      split at h
      · cases h
      · rename_i hprog
        simp only [perform, Option.map_map, Option.map_eq_some_iff] at h
        obtain ⟨rs, hexec, rfl⟩ := h
        exact .handler hprog hexec
  | chip e =>
      simp only [step, Option.map_eq_some_iff] at h
      obtain ⟨chip, hevent, rfl⟩ := h
      exact .chip hevent

theorem step_of_moves {s s' : System} {a : Act} (h : Moves s a s') : s.step a = some s' := by
  cases h with
  | call c hidle => simp only [step, hidle]
  | reply hprog => simp only [step, hprog]
  | client hprog hexec => simp only [step, hprog, perform, hexec, Option.map_some]
  | irq frame hrest => simp only [step, hrest]
  | handler hprog hexec => simp only [step, hprog, perform, hexec, Option.map_some]
  | chip hevent => simp only [step, hevent, Option.map_some]

/-- All operations that the threads may still perform satisfy `φ`. -/
def Every (s : System) (φ : Op → Prop) : Prop :=
  (∀ c p, s.client = some (c, p) → p.Every φ) ∧ s.handler.Every φ

theorem Every.moves {φ : Op → Prop} (hbody : ∀ c : Call, c.body.Every φ)
    (hirq : ∀ frame, (irqHandler frame).Every φ) {s s' : System} {a : Act} (h : s.Every φ)
    (hmoves : s.Moves a s') : s'.Every φ := by
  obtain ⟨hclient, hhandler⟩ := h
  cases hmoves with
  | call c hidle =>
      refine ⟨?_, hhandler⟩
      rintro _ _ ⟨⟩
      exact hbody c
  | @reply c r hprog =>
      cases r with
      | again =>
          refine ⟨?_, hhandler⟩
          rintro _ _ ⟨⟩
          exact hbody c
      | done | status _ | frame _ => exact ⟨(by rintro _ _ ⟨⟩), hhandler⟩
  | client hprog hexec =>
      refine ⟨?_, hhandler⟩
      rintro _ _ ⟨⟩
      exact (hclient _ _ hprog).2 _
  | irq frame hrest => exact ⟨hclient, hirq frame⟩
  | handler hprog hexec =>
      have hcall : (Prog.call _ _ : Io Unit).Every φ := hprog ▸ hhandler
      exact ⟨hclient, hcall.2 _⟩
  | chip hevent => exact ⟨hclient, hhandler⟩

theorem every_of_atRest {φ : Op → Prop} {s : System} (h : s.AtRest) : s.Every φ := by
  refine ⟨fun c p hp => absurd (hp.symm.trans h.1) (Option.some_ne_none _), ?_⟩
  rw [h.2]
  trivial

/-- The component after `can__init`, with its static variables at their initial values. -/
def booted (chip : Chip) (frames : ℕ → CanFrame) : System where
  driver :=
    { chip := chip
      txq := .empty 0 msgQueueSize msgQueueSize_pos
      rxq := .empty msgQueueSize msgQueueSize msgQueueSize_pos
      frames := frames
      txbCache := fun _ => .zero
      xmitStopped := true
      txbLock := false
      queueLock := 0
      txbAck := fun _ => 0
      intAck := 0 }
  client := none
  handler := .ret ()
  history := ⟨fun _ => none, [], []⟩

/-- Take steps one after the other, as long as they pass a check. -/
def run (check : System → Act → Bool) (s : System) : List Act → Option System
  | [] => some s
  | a :: as => if check s a then (s.step a).bind fun s' => s'.run check as else none

/-- The check that lets every step pass. -/
def anyStep (_ : System) (_ : Act) : Bool := true

theorem step_of_anyStep (s : System) (a : Act) (s' : System) (_ : anyStep s a = true)
    (hstep : s.step a = some s') : s.Step a () s' := hstep

theorem reachable_of_run {check : System → Act → Bool} {step : System → Act → Unit → System → Prop}
    (hcheck : ∀ s a s', check s a = true → s.step a = some s' → step s a () s')
    {init : System → Prop} {s s' : System} {as : List Act} (h : s.run check as = some s')
    (hs : Transition.Reachable step init s) : Transition.Reachable step init s' := by
  induction as generalizing s with
  | nil => exact Option.some.inj h ▸ hs
  | cons a as ih =>
      simp only [run] at h
      split at h
      · rename_i hpass
        obtain ⟨s₁, hstep, hrun⟩ := Option.bind_eq_some_iff.1 h
        exact ih hrun (hs.next (hcheck s a s₁ hpass hstep))
      · cases h

/-- The handler may run to its end without the other thread. -/
theorem reachable_of_handler {init : System → Prop} {s : System} {d : Driver} {u : Unit}
    (hrun : s.handler.run exec s.driver = some (u, d)) (hs : Transition.Reachable Step init s) :
    ∃ h, Transition.Reachable Step init { s with driver := d, handler := .ret u, history := h } := by
  obtain ⟨driver, client, handler, history⟩ := s
  induction handler generalizing driver history with
  | ret u' =>
      cases hrun
      exact ⟨history, hs⟩
  | call o k ih =>
      simp only [Prog.run] at hrun
      cases hexec : exec o driver with
      | none =>
          rw [hexec] at hrun
          cases hrun
      | some rs =>
          rw [hexec] at hrun
          have hstep : Step ⟨driver, client, .call o k, history⟩ .handler ()
              ⟨rs.2, client, k rs.1, history.record o⟩ := by
            simp only [Step, step, perform, hexec, Option.map_some]
          exact ih rs.1 rs.2 (history.record o) hrun (hs.next hstep)

end System

/-- The thread of the client obeys a protocol in which it is at rest in the ghost state `idle`. -/
def Obeys {G : Type} (next : G → (o : Op) → Ans o → G → Prop) (idle : G) :
    Option (Call × Io Reply) → G → Prop
  | none, g => g = idle
  | some (_, p), g => p.Follows next g fun _ g' => g' = idle

end Can
end Tk1Bsp
