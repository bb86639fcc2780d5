import Mathlib.Data.Fintype.Pi
import Tk1Bsp.Can.Session

/-!
# The order in which queued frames leave

Frames of one priority leave the buffers from the highest to the lowest, and `transmit_message` fills
the buffers that have become free in the same direction.  Together they keep the order of the queue as
long as every buffer that is filled lies below all that still wait (`Below`): then the frames sent,
the pending ones and the queued ones are, in this sequence, the accepted ones.
-/

namespace Tk1Bsp
namespace Can

/-- The bytes of a buffer show a frame: they are its image, and the rest is not sent. -/
def Shows (content : Fin 13 → BitVec 8) (frame : CanFrame) : Prop :=
  ∀ k : Fin 13, k.val < frame.image.length → content k = frame.image.getD k 0

namespace Transmitter

variable {t : Transmitter} {p : BitVec 2} {sent : List (Fin 13 → BitVec 8)}
  {accepted : List CanFrame} {frame : CanFrame} {i : Fin 3}

/-- The contents of the pending buffers, in the order in which they will be sent. -/
def pending (t : Transmitter) : List (Fin 13 → BitVec 8) :=
  ([2, 1, 0].filter t.requested).map t.content

/-- The frames sent, pending and queued are the accepted ones, all of one priority. -/
structure InLine (p : BitVec 2) (sent : List (Fin 13 → BitVec 8)) (accepted : List CanFrame)
    (t : Transmitter) : Prop where
  queued : ∀ f ∈ t.queue, f.prio = p
  txp : ∀ i, t.requested i = true → t.txp i = p
  loaded : ∃ loaded, accepted = loaded ++ t.queue ∧ List.Forall₂ Shows (sent ++ t.pending) loaded

/-- A buffer below all pending ones is the last to be sent. -/
theorem filter_requested_below : ∀ (i : Fin 3) (r : Fin 3 → Bool), (∀ j, r j = true → i < j) →
    [2, 1, 0].filter (fun j => r j || decide (j = i)) = [2, 1, 0].filter r ++ [i] := by
  decide

/-- The highest pending buffer is the first. -/
theorem filter_requested_highest : ∀ (i : Fin 3) (r : Fin 3 → Bool), r i = true →
    (∀ j, r j = true → j ≤ i) →
      [2, 1, 0].filter r = i :: [2, 1, 0].filter fun j => r j && decide (j ≠ i) := by
  decide

theorem shows_load : Shows ((t.load i frame).content i) frame := by
  intro k hk
  show (Function.update t.content i _ : Fin 3 → Fin 13 → BitVec 8) i k = _
  rw [Function.update_self]
  exact if_pos hk

/-- Loading a buffer below all pending ones. -/
theorem pending_load (h : ∀ j, t.requested j = true → i < j) :
    ((t.load i frame).request fun j => j = i).pending =
      t.pending ++ [(t.load i frame).content i] := by
  have hkept : ∀ j ∈ [2, 1, 0].filter t.requested, (t.load i frame).content j = t.content j := by
    intro j hj
    have hlt := h j (List.mem_filter.1 hj).2
    exact Function.update_of_ne (Fin.ne_of_gt hlt) _ _
  show ([2, 1, 0].filter fun j => t.requested j || decide (j = i)).map (t.load i frame).content = _
  rw [filter_requested_below i t.requested h, List.map_append, List.map_congr_left hkept]
  rfl

/-- One round of the loop of `transmit_message`. -/
theorem InLine.serve (h : t.InLine p sent accepted)
    (hbelow : t.queue ≠ [] → ∀ j, t.requested j = true → i < j) :
    (t.serve i).InLine p sent accepted := by
  obtain ⟨loaded, haccepted, hshows⟩ := h.loaded
  cases hqueue : t.queue with
  | nil =>
      rw [serve_of_nil hqueue]
      exact ⟨h.queued, h.txp, loaded, haccepted, hshows⟩
  | cons frame rest =>
      have hbelow := hbelow (hqueue ▸ List.cons_ne_nil _ _)
      have hqueued := h.queued
      rw [hqueue] at hqueued haccepted
      rw [serve_of_cons hqueue]
      refine ⟨fun f hf => hqueued f (List.mem_cons_of_mem _ hf), fun j hj => ?_,
        loaded ++ [frame], ?_, ?_⟩
      · show (Function.update t.txp i frame.prio : Fin 3 → BitVec 2) j = p
        by_cases hji : j = i
        · subst hji
          rw [Function.update_self]
          exact hqueued frame List.mem_cons_self
        · rw [Function.update_of_ne hji]
          have hj : (t.requested j || decide (j = i)) = true := hj
          rw [decide_eq_false hji, Bool.or_false] at hj
          exact h.txp j hj
      · rw [haccepted, List.append_assoc]
        rfl
      · have hpending := @pending_load { t.acknowledge i with queue := rest } frame i hbelow
        rw [hpending, ← List.append_assoc]
        exact List.rel_append hshows (.cons shows_load .nil)

/-- The loop itself: each free buffer lies below those filled before it. -/
theorem InLine.serveAll {flags : Fin 3 → Bool} {is : List (Fin 3)} (h : t.InLine p sent accepted)
    (hsorted : is.Pairwise (· > ·))
    (hbelow : t.queue ≠ [] → ∀ i ∈ is, flags i = true → ∀ j, t.requested j = true → i < j) :
    (t.serveAll flags is).InLine p sent accepted := by
  induction is generalizing t with
  | nil => exact h
  | cons i is ih =>
      obtain ⟨hgt, hsorted⟩ := List.pairwise_cons.1 hsorted
      rw [serveAll_cons]
      split
      · rename_i hflag
        refine ih (h.serve fun hne => hbelow hne i List.mem_cons_self hflag) hsorted ?_
        intro hne k hk hflagk j hj
        have hne : t.queue ≠ [] := by
          rintro hnil
          rw [queue_serve, hnil] at hne
          exact hne rfl
        rw [requested_serve, Bool.or_eq_true, Bool.and_eq_true, decide_eq_true_eq] at hj
        rcases hj with hj | ⟨-, rfl⟩
        · exact hbelow hne k (List.mem_cons_of_mem _ hk) hflagk j hj
        · exact hgt k hk
      · exact ih h hsorted fun hne k hk => hbelow hne k (List.mem_cons_of_mem _ hk)

theorem InLine.irq (h : t.InLine p sent accepted)
    (hbelow : t.queue ≠ [] → ∀ i j, t.flagged i = true → t.requested j = true → i < j) :
    t.irq.InLine p sent accepted := by
  have hstart : ({ t with flagged := fun _ => false } : Transmitter).InLine p sent accepted :=
    ⟨h.queued, h.txp, h.loaded⟩
  exact hstart.serveAll (by decide) fun hne i _ hflag j hj => hbelow hne i j hflag hj

theorem InLine.send (h : t.InLine p sent accepted) (hprio : frame.prio = p) :
    (t.send frame).InLine p sent (accepted ++ [frame]) := by
  obtain ⟨loaded, haccepted, hshows⟩ := h.loaded
  rw [send_eq]
  refine ⟨fun f hf => ?_, h.txp, loaded, ?_, hshows⟩
  · rcases List.mem_append.1 hf with hf | hf
    · exact h.queued f hf
    · rw [List.mem_singleton.1 hf]
      exact hprio
  · rw [haccepted, List.append_assoc]

/-- The highest pending buffer is sent. -/
theorem InLine.complete (h : t.InLine p sent accepted) (hreq : t.requested i = true)
    (hfirst : ∀ j, t.requested j = true → j ≤ i) :
    (t.complete i).InLine p (sent ++ [t.content i]) accepted := by
  obtain ⟨loaded, haccepted, hshows⟩ := h.loaded
  have hpending : t.pending = t.content i :: (t.complete i).pending := by
    rw [pending, filter_requested_highest i t.requested hreq hfirst, List.map_cons]
    rfl
  refine ⟨h.queued, fun j hj => h.txp j (Bool.and_eq_true_iff.1 hj).1, loaded, haccepted, ?_⟩
  rw [List.append_assoc, List.singleton_append, ← hpending]
  exact hshows

end Transmitter

namespace Session

variable {s s' : Session} {a : TxAct} {ret : ℤ} {p : BitVec 2}

/-- The operations where all frames have priority `p`, and among the pending buffers of one priority
the highest is sent first. -/
def Queued (p : BitVec 2) (s : Session) : TxAct → Prop
  | .setup _ _ | .sendto _ _ | .abort _ => False
  | .send frame => frame.prio = p
  | .complete i => ∀ j, s.driver.transmitter.requested j = true →
      s.driver.transmitter.txp j = s.driver.transmitter.txp i → j ≤ i
  | .irq _ => True

instance (p : BitVec 2) (s : Session) : (a : TxAct) → Decidable (s.Queued p a)
  | .setup _ _ | .sendto _ _ | .abort _ => isFalse id
  | .send frame => inferInstanceAs (Decidable (frame.prio = p))
  | .complete i => inferInstanceAs (Decidable (∀ j, s.driver.transmitter.requested j = true →
      s.driver.transmitter.txp j = s.driver.transmitter.txp i → j ≤ i))
  | .irq _ => isTrue trivial

/-- When the handler finds frames in the queue, the buffers it will fill lie below all pending ones. -/
def Below (s : Session) : TxAct → Prop
  | .irq _ => s.driver.transmitter.queue ≠ [] → ∀ i j, s.driver.transmitter.flagged i = true →
      s.driver.transmitter.requested j = true → i < j
  | _ => True

instance (s : Session) : (a : TxAct) → Decidable (s.Below a)
  | .irq _ => inferInstanceAs (Decidable (_ → ∀ i j : Fin 3, s.driver.transmitter.flagged i = true →
      s.driver.transmitter.requested j = true → i < j))
  | .setup _ _ | .sendto _ _ | .abort _ | .send _ | .complete _ => isTrue trivial

/-- The frames are sent in the order in which they were accepted. -/
def SentInOrder (s : Session) : Prop :=
  List.Forall₂ Shows (s.sent.map Prod.snd) (s.accepted.take s.sent.length)

/-- The frames sent, pending and queued are the accepted ones. -/
def InLine (p : BitVec 2) (s : Session) : Prop :=
  s.driver.transmitter.InLine p (s.sent.map Prod.snd) s.accepted

theorem InLine.sentInOrder (h : s.InLine p) : s.SentInOrder := by
  obtain ⟨loaded, haccepted, hshows⟩ := h.loaded
  have hlen := hshows.length_eq
  rw [List.length_append, List.length_map] at hlen
  have htake := List.forall₂_take s.sent.length hshows
  rw [List.take_left' (List.length_map _)] at htake
  rw [SentInOrder, haccepted, List.take_append_of_le_length (by omega)]
  exact htake

theorem Fresh.inLine (h : s.Fresh) : s.InLine p := by
  have hrequested : s.driver.transmitter.requested = fun _ => false := funext h.requested
  have hpending : s.driver.transmitter.pending = [] := by
    rw [Transmitter.pending, hrequested]
    rfl
  refine ⟨fun f hf => ?_, fun i hi => ?_, [], ?_, ?_⟩
  · rw [h.queue] at hf
    cases hf
  · rw [h.requested] at hi
    cases hi
  · rw [h.accepted, h.queue]
    rfl
  · rw [h.sent, hpending]
    exact .nil

theorem inLine_moves (h : s.InLine p) (hmoves : s.Moves a ret s') (hqueued : s.Queued p a)
    (hbelow : s.Below a) : s'.InLine p := by
  cases hmoves with
  | setup => exact hqueued.elim
  | @send frame ret d htx =>
      have hsend := Transmitter.InLine.send h hqueued
      rw [← htx] at hsend
      exact hsend
  | sendto => exact hqueued.elim
  | nowhere => exact hqueued.elim
  | abort => exact hqueued.elim
  | @complete i d hreq htx =>
      have hfirst : ∀ j, s.driver.transmitter.requested j = true → j ≤ i := fun j hj =>
        hqueued j hj ((h.txp j hj).trans (h.txp i hreq).symm)
      have hcomplete := Transmitter.InLine.complete h hreq hfirst
      rw [← htx] at hcomplete
      show d.transmitter.InLine p
        ((s.sent ++ [(i, s.driver.transmitter.content i)]).map Prod.snd) s.accepted
      rw [List.map_append]
      exact hcomplete
  | @irq frame d htx =>
      have hirq := Transmitter.InLine.irq h hbelow
      rw [← htx] at hirq
      exact hirq

/-- In runs in which the handler fills only buffers below the pending ones, and the lengths fit, frames
of one priority are sent in the order in which they were accepted. -/
theorem frames_leave_in_order
    (h : Transition.Reachable (StepIf (Fitting fun s a => s.Queued p a ∧ s.Below a)) SetUp s) :
    s.SentInOrder ∧ s.Short := by
  obtain ⟨-, hline⟩ := invariant (I := InLine p) (fun _ => Fresh.inLine)
    (fun _ _ _ _ hI hmoves hp => inLine_moves hI hmoves hp.1.1 hp.1.2) h
  exact ⟨hline.sentInOrder, queue_short h⟩

/-- Two frames leave, and the second buffer is free when the third frame comes. -/
theorem after_three_frames : (after (Fitting fun s a => s.Queued 0 a ∧ s.Below a) [.send (.bare 1),
    .send (.bare 2), .irq (.bare 0), .complete 2, .complete 1, .send (.bare 3), .irq (.bare 0),
    .complete 2]).map (fun s => s.sent.length) = some 3 := rfl

theorem frames_leave_in_order_three : ∃ s, after (Fitting fun s a => s.Queued 0 a ∧ s.Below a)
    [.send (.bare 1), .send (.bare 2), .irq (.bare 0), .complete 2, .complete 1, .send (.bare 3),
      .irq (.bare 0), .complete 2] = some s ∧ s.SentInOrder := by
  obtain ⟨s, hafter, -⟩ := Option.map_eq_some_iff.1 after_three_frames
  exact ⟨s, hafter, (frames_leave_in_order (reachable_of_after hafter)).1⟩

/-- The second frame still waits when the third one is loaded into the highest buffer. -/
theorem after_overtaking : (after (Queued 0) [.send (.bare 1), .send (.bare 2), .irq (.bare 0),
    .complete 2, .send (.bare 3), .irq (.bare 0), .complete 2]).map (fun s =>
      (s.sent.map (fun p => p.2 1), s.accepted)) =
    some ([0x20, 0x60], [.bare 1, .bare 2, .bare 3]) := rfl

/-- The third frame is sent before the second. -/
theorem not_in_order_overtaking :
    ¬ ∀ p s, Transition.Reachable (StepIf (Queued p)) SetUp s → s.SentInOrder := by
  intro h
  obtain ⟨s, hafter, hs⟩ := Option.map_eq_some_iff.1 after_overtaking
  obtain ⟨hsent, haccepted⟩ := Prod.mk.inj hs
  have horder := h 0 s (reachable_of_after hafter)
  have hlen := congrArg List.length hsent
  rw [List.length_map] at hlen
  rw [SentInOrder, haccepted, hlen] at horder
  -- the second byte has the low bits of the identifier
  have hbyte : ∀ content frame, Shows content frame → content 1 = frame.image.getD 1 0 := by
    intro content frame hshows
    refine hshows 1 ?_
    rw [CanFrame.image, List.length_append, length_frameHeader]
    exact Nat.lt_add_right _ (by decide)
  have hbytes : List.Forall₂ (fun b (frame : CanFrame) => b = frame.image.getD 1 0)
      (s.sent.map fun p => p.2 1) [.bare 1, .bare 2] := by
    rw [List.forall₂_map_left_iff] at horder ⊢
    exact List.Forall₂.imp (fun (q : Fin 3 × (Fin 13 → BitVec 8)) frame => hbyte q.2 frame) horder
  rw [hsent] at hbytes
  simp only [List.forall₂_cons] at hbytes
  exact absurd hbytes.2.1 (by decide)

end Session

end Can
end Tk1Bsp
