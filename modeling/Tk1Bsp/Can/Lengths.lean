import Tk1Bsp.Can.Flags

/-!
# Lengths that fit

The data length of a frame has four bits, and its payload has eight bytes.  `load_txb` and `recv_rxb`
copy as many bytes as the length says.  Beyond eight, the one reads behind the frame and sends what it
finds to the registers behind the transmit buffer, and the other stores behind the frame.  There the
programs of the model end (`Op.undefined`), and so does a `can_sendto` for a buffer without an entry in
the cache.

What is said about runs is said of those in which every length fits.  They never come to such a place
(`Defined.not_astray`).
-/

namespace Tk1Bsp
namespace Can

open Prog

/-- The payload has room for the length. -/
def CanFrame.Short (frame : CanFrame) : Prop := frame.dlc.toNat ≤ 8

instance : DecidablePred CanFrame.Short := fun frame =>
  inferInstanceAs (Decidable (frame.dlc.toNat ≤ 8))

/-- The frame that a call is given is short, and the transmit buffer exists. -/
def Call.Fits : Call → Prop
  | .send frame => frame.Short
  | .sendto txbIdx frame => (∃ i : Fin 3, txbIdx = i) ∧ frame.Short
  | .recv => True

instance : DecidablePred Call.Fits
  | .send frame => inferInstanceAs (Decidable frame.Short)
  | .sendto txbIdx frame => inferInstanceAs (Decidable ((∃ i : Fin 3, txbIdx = i) ∧ frame.Short))
  | .recv => isTrue trivial

/-- The message that is read, or the frame that is taken from the TX queue, is short. -/
def Op.short (d : Driver) : Op → Bool
  | .spi [0x90] n => decide ((lengthOf (d.chip.readFrom 0x61 n)).toNat ≤ 8)
  | .mqRemove .tx => decide (mqRemoveMsg d .tx).1.Short
  | _ => true

/-- The same for the next operation of a program. -/
def nextShort {α : Type} (d : Driver) : Io α → Bool
  | .ret _ => true
  | .call o _ => o.short d

theorem fit_of_short {o : Op} {d d' : Driver} {r : Ans o} (h : o.short d = true)
    (hexec : exec o d = some (r, d')) : Fit o r := by
  unfold Fit
  split
  · obtain ⟨rfl, -⟩ := exec_spi hexec
    exact of_decide_eq_true h
  · cases hexec
    exact of_decide_eq_true h
  · trivial

/-! ## The calls -/

/-- The operation is no access outside of an array. -/
def Op.Defined (o : Op) : Prop := o ≠ .undefined

theorem defined_queuePush (q : QueueId) (frame : CanFrame) : (queuePush q frame).Every Op.Defined :=
  every_queuePush (by rintro ⟨⟩) (fun _ => by rintro ⟨⟩) frame

theorem defined_raiseLoop (is : List (Fin 3)) : (raiseLoop is).Every Op.Defined := by
  induction is with
  | nil => trivial
  | cons i is ih =>
      refine (every_readReg (by rintro ⟨⟩)).bind fun ctrl => ?_
      split
      · exact (every_bitModify (by rintro ⟨⟩)).bind fun _ =>
          (every_perform (by rintro ⟨⟩)).bind fun _ => ih
      · exact ih

theorem defined_startXmit : startXmit.Every Op.Defined := by
  refine (every_perform (by rintro ⟨⟩)).bind fun stopped => ?_
  cases stopped with
  | false => trivial
  | true =>
      refine (every_perform (by rintro ⟨⟩)).bind fun _ => ?_
      exact (defined_raiseLoop [0, 1, 2]).bind fun _ => every_perform (by rintro ⟨⟩)

theorem defined_updatePriorities (b : Fin 3) (is : List (Fin 3)) :
    (updatePriorities b is).Every Op.Defined := by
  induction is with
  | nil => trivial
  | cons i is ih =>
      refine (every_perform (by rintro ⟨⟩)).bind fun cache => ?_
      split
      · exact (every_bitModify (by rintro ⟨⟩)).bind fun _ => ih
      · exact ih

theorem defined_getFramePriority (i : Fin 3) (id : CanId) :
    (getFramePriority i id).Every Op.Defined := by
  rw [getFramePriority_fin]
  refine (every_perform (by rintro ⟨⟩)).bind fun cache => ?_
  split
  · trivial
  · refine (defined_updatePriorities i _).bind fun _ => ?_
    exact (every_perform (by rintro ⟨⟩)).bind fun _ => trivial

/-- A frame that fits is loaded without an access outside of an array. -/
theorem defined_loadTxb (i : Fin 3) {frame : CanFrame} (h : frame.Short) :
    (loadTxb i frame).Every Op.Defined := by
  have hdlc : frame.dlc.toNat ≤ 8 := h
  rw [loadTxb, if_pos hdlc]
  exact (every_mcp2515LoadTxb (by rintro ⟨⟩)).bind fun _ => every_bitModify (by rintro ⟨⟩)

theorem defined_body {c : Call} (h : c.Fits) : c.body.Every Op.Defined := by
  cases c with
  | send frame =>
      refine Every.bind ?_ fun _ => trivial
      exact (defined_queuePush .tx frame).bind fun _ => defined_startXmit.bind fun _ => trivial
  | sendto txbIdx frame =>
      obtain ⟨⟨i, rfl⟩, hframe⟩ := h
      refine Every.bind ?_ fun _ => trivial
      refine (every_txbStatus (by rintro ⟨⟩)).bind fun status => ?_
      split
      · refine (defined_getFramePriority i _).bind fun prio => ?_
        have hload := @defined_loadTxb i { frame with prio := BitVec.ofInt 2 prio } hframe
        exact hload.bind fun _ => (every_perform (by rintro ⟨⟩)).bind fun _ => trivial
      · trivial
  | recv =>
      refine Every.bind ?_ fun _ => trivial
      exact (every_perform (by rintro ⟨⟩)).bind fun _ =>
        every_queuePop (by rintro ⟨⟩) (by rintro ⟨⟩)

/-! ## Runs -/

namespace System

/-- The condition on a step: the lengths that it meets fit. -/
def short (s : System) : Act → Bool
  | .call c => decide c.Fits
  | .handler => nextShort s.driver s.handler
  | _ => true

/-- A thread is about to access something outside of an array. -/
def Astray (s : System) : Prop :=
  (∃ k, s.handler = .call .undefined k) ∨ ∃ c k, s.client = some (c, .call .undefined k)

/-- The call fits, and nothing in what is left of the two threads leads outside of an array as long as
the lengths fit. -/
structure Defined (s : System) : Prop where
  client : ∀ c p, s.client = some (c, p) → c.Fits ∧ p.Every Op.Defined
  handler : s.handler.Each Fit Heeds fun _ => True

variable {s s' : System} {a : Act}

theorem defined_of_atRest (h : s.AtRest) : s.Defined where
  client c p hc := by
    rw [h.1] at hc
    cases hc
  handler := by
    rw [h.2]
    trivial

theorem Defined.step (h : s.Defined) (hshort : s.short a = true) (hstep : s.step a = some s') :
    s'.Defined := by
  cases moves_of_step hstep with
  | call c hidle =>
      refine ⟨fun c' p hc => ?_, h.handler⟩
      cases hc
      exact ⟨of_decide_eq_true hshort, defined_body (of_decide_eq_true hshort)⟩
  | @reply c r hprog =>
      have hfits := (h.client c _ hprog).1
      cases r with
      | again =>
          refine ⟨fun c' p hc => ?_, h.handler⟩
          cases hc
          exact ⟨hfits, defined_body hfits⟩
      | done | status _ | frame _ => exact ⟨(by rintro c p ⟨⟩), h.handler⟩
  | @client c o k r d hprog hexec =>
      obtain ⟨hfits, hevery⟩ := h.client c _ hprog
      refine ⟨fun c' p hc => ?_, h.handler⟩
      cases hc
      exact ⟨hfits, hevery.2 r⟩
  | irq frame hrest => exact ⟨h.client, heeds_irqHandler frame⟩
  | @handler o k r d hprog hexec =>
      have heach := h.handler
      rw [hprog] at heach
      have hnext : o.short s.driver = true := by
        rw [short, hprog] at hshort
        exact hshort
      exact ⟨h.client, heach.2 r (fit_of_short hnext hexec)⟩
  | chip hevent => exact ⟨h.client, h.handler⟩

theorem Defined.not_astray (h : s.Defined) : ¬ s.Astray := by
  rintro (⟨k, hprog⟩ | ⟨c, k, hprog⟩)
  · have heach := h.handler
    rw [hprog] at heach
    exact heach.1
  · exact (h.client c _ hprog).2.1 rfl

end System

end Can
end Tk1Bsp
