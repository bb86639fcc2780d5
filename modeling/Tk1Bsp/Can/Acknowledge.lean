import Tk1Bsp.Can.Restart

/-!
# Acknowledgements of transmissions

The handler acknowledges a buffer when its flag is set.  A completed transmission sets the flag, and so
does `start_xmit`, for the buffers that are idle; an acknowledgement stands for a completed
transmission where `start_xmit` finds no buffer idle (`Quiet`).
-/

namespace Tk1Bsp
namespace Can

namespace Transmitter

variable {t : Transmitter} {flags : Fin 3 → Bool} {is : List (Fin 3)}

end Transmitter

namespace Session

variable {s s' s'' : Session} {a : TxAct} {ret : ℤ} {frame : CanFrame}

/-- The number of frames sent from a buffer. -/
def sentFrom (s : Session) (n : Fin 3) : ℕ := s.sent.countP fun p => p.1 = n

/-- No buffer has been acknowledged more often than frames were sent from it. -/
def Acknowledged (s : Session) : Prop := ∀ n, s.driver.txbAck n ≤ s.sentFrom n

/-- The operations by which frames are sent. -/
def Sending (_ : Session) : TxAct → Prop
  | .setup _ _ | .abort _ => False
  | .send _ | .sendto _ _ | .complete _ | .irq _ => True

instance (s : Session) : (a : TxAct) → Decidable (s.Sending a)
  | .setup _ _ | .abort _ => isFalse id
  | .send _ | .sendto _ _ | .complete _ | .irq _ => isTrue trivial

/-- Such an operation, where `can_send` raises no flag: while transmission has stopped, every buffer is
on its way already. -/
def Quiet (s : Session) : TxAct → Prop
  | .setup _ _ | .abort _ => False
  | .send _ => s.driver.transmitter.stopped = true → ∀ n, s.driver.transmitter.Busy n
  | .sendto _ _ | .complete _ | .irq _ => True

instance (s : Session) : (a : TxAct) → Decidable (s.Quiet a)
  | .setup _ _ | .abort _ => isFalse id
  | .send _ => inferInstanceAs (Decidable (_ = true → ∀ n : Fin 3, s.driver.transmitter.Busy n))
  | .sendto _ _ | .complete _ | .irq _ => isTrue trivial

/-- The acknowledgements that the flags promise are counted too. -/
def Covered (s : Session) : Prop :=
  ∀ n, s.driver.transmitter.acks n + (s.driver.transmitter.flagged n).toNat ≤ s.sentFrom n

theorem Covered.acknowledged (h : s.Covered) : s.Acknowledged :=
  fun n => (Nat.le_add_right _ _).trans (h n)

end Session

end Can
end Tk1Bsp
