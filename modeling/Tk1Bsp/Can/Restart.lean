import Tk1Bsp.Can.Session

/-!
# The restart flag

`xmit_stopped` tells `start_xmit` whether it has to raise the flags of the idle buffers.  While it is
clear every buffer should be on its way, waiting to be sent or flagged, and while frames are queued
some buffer should be.  `can_setup` and `can_abort` take requests back and leave the flag alone, so
both facts survive them only from some states (`Careful`).
-/

namespace Tk1Bsp
namespace Can

namespace Transmitter

variable {t t' : Transmitter}

/-- A buffer that waits to be sent, or whose flag is set. -/
def Busy (t : Transmitter) (i : Fin 3) : Prop := t.requested i = true ∨ t.flagged i = true

instance (t : Transmitter) (i : Fin 3) : Decidable (t.Busy i) := inferInstanceAs (Decidable (_ ∨ _))

/-- The restart flag agrees with the controller. -/
structure Restarts (t : Transmitter) : Prop where
  running : t.stopped = false → ∀ i, t.Busy i
  waiting : t.queue ≠ [] → ∃ i, t.Busy i

/-- An operation after which the same buffers are busy. -/
theorem Restarts.of_busy (h : t.Restarts) (hbusy : ∀ i, t.Busy i → t'.Busy i)
    (hstopped : t'.stopped = t.stopped) (hqueue : t'.queue = t.queue) : t'.Restarts where
  running hrun i := hbusy i (h.running (hstopped ▸ hrun) i)
  waiting hne := by
    obtain ⟨i, hi⟩ := h.waiting (hqueue ▸ hne)
    exact ⟨i, hbusy i hi⟩

theorem Restarts.send (h : t.Restarts) (frame : CanFrame) : (t.send frame).Restarts := by
  have hbusy : ∀ i, (t.send frame).Busy i := by
    intro i
    rw [Busy, send_eq]
    cases hstopped : t.stopped with
    | false =>
        have hi := h.running hstopped i
        exact hi.imp id fun hf => by simp [hf]
    | true =>
        cases hreq : t.requested i with
        | true => exact .inl rfl
        | false => exact .inr (by simp [hreq])
  exact ⟨fun _ => hbusy, fun _ => ⟨0, hbusy 0⟩⟩

theorem Restarts.sendto (h : t.Restarts) (i : Fin 3) (frame : CanFrame) :
    (t.sendto i frame).2.Restarts := by
  cases hreq : t.requested i with
  | true =>
      rw [sendto_of_requested hreq]
      exact h
  | false =>
      rw [sendto_of_not_requested hreq, rank_snd]
      refine h.of_busy (fun j hj => ?_) rfl rfl
      exact hj.imp (fun hr => Bool.or_eq_true_iff.2 (.inl hr)) id

theorem Restarts.complete (h : t.Restarts) (i : Fin 3) : (t.complete i).Restarts := by
  refine h.of_busy (fun j hj => ?_) rfl rfl
  by_cases hji : j = i
  · exact .inr (by simp [Transmitter.complete, hji])
  · exact hj.imp (fun hr => by simp [Transmitter.complete, hji, hr])
      fun hf => by simp [Transmitter.complete, hf]

/-- While there were frames for all flagged buffers, the handler requests them again. -/
theorem busy_irq {i : Fin 3} (h : t.Busy i) (hframes : t.irq.stopped = false ∨ t.irq.queue ≠ []) :
    t.irq.Busy i :=
  .inl (h.elim requested_irq (requested_irq_of_flagged hframes))

theorem Restarts.irq (h : t.Restarts) : t.irq.Restarts where
  running hrun i := by
    have hstopped : t.stopped = false := by
      by_contra hne
      exact Bool.false_ne_true (hrun.symm.trans (stopped_irq (Bool.not_eq_false _ ▸ hne)))
    exact busy_irq (h.running hstopped i) (.inl hrun)
  waiting hne := by
    obtain ⟨i, hi⟩ := h.waiting fun hnil => hne (queue_irq hnil)
    exact ⟨i, busy_irq hi (.inr hne)⟩

/-- What an abort of buffer `i` needs: if the buffer is on its way only by its request, the flag says
that transmission has stopped, and no frame is queued or another buffer is busy. -/
def Spared (t : Transmitter) (i : Fin 3) : Prop :=
  t.requested i = true → t.flagged i = false →
    t.stopped = true ∧ (t.queue = [] ∨ ∃ j, j ≠ i ∧ t.Busy j)

instance (t : Transmitter) (i : Fin 3) : Decidable (t.Spared i) := inferInstanceAs (Decidable (_ → _))

end Transmitter

namespace Session

variable {s s' : Session} {a : TxAct} {ret : ℤ}

/-- A step that does not strand a frame. -/
def Careful (s : Session) : TxAct → Prop
  | .setup _ _ => s.driver.transmitter.stopped = true ∧ s.driver.transmitter.queue = []
  | .abort n => ∀ i : Fin 3, (n - i) % 8 = 0 → s.driver.transmitter.Spared i
  | _ => True

instance (s : Session) : (a : TxAct) → Decidable (s.Careful a)
  | .setup _ _ => inferInstanceAs (Decidable (_ ∧ _))
  | .abort n => inferInstanceAs (Decidable (∀ i : Fin 3, (n - i) % 8 = 0 →
      s.driver.transmitter.Spared i))
  | .send _ | .sendto _ _ | .complete _ | .irq _ => isTrue trivial

end Session

end Can
end Tk1Bsp
