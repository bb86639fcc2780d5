import Tk1Bsp.Can.Lengths
import Tk1Bsp.Can.Whole
import Tk1Bsp.Framework.Transition

/-!
# Runs of whole operations

Sequences in which each call, each completed transmission and each run of the handler happens as a
whole.  A session remembers, beside the driver, which frames `can_send` has accepted, what has been
sent from which buffer, and the identifier of the frame that `can_sendto` has put last into each
buffer.  `Session.Moves` says what a step does to the transmit side; nothing after it looks at the
programs again.
-/

namespace Tk1Bsp
namespace Can

/-- The operations. -/
inductive TxAct
  | setup (reads : ℕ) (baudrate : BitVec 32)
  | send (frame : CanFrame)
  | sendto (txbIdx : ℤ) (frame : CanFrame)
  | abort (txbIdx : ℤ)
  | complete (i : Fin 3)
  | irq (frame : CanFrame)

/-- The frame that is given to `can_send` or `can_sendto` is short, and the transmit buffer exists. -/
def TxAct.Fits : TxAct → Prop
  | .send frame => frame.Short
  | .sendto txbIdx frame => (∃ i : Fin 3, txbIdx = i) ∧ frame.Short
  | _ => True

instance : DecidablePred TxAct.Fits
  | .send frame => inferInstanceAs (Decidable frame.Short)
  | .sendto txbIdx frame => inferInstanceAs (Decidable ((∃ i : Fin 3, txbIdx = i) ∧ frame.Short))
  | .setup _ _ | .abort _ | .complete _ | .irq _ => isTrue trivial

/-- The component and its history. -/
structure Session where
  driver : Driver
  accepted : List CanFrame
  sent : List (Fin 3 × (Fin 13 → BitVec 8))
  idents : Fin 3 → BitVec 29

namespace Session

variable (s : Session)

/-- The identifiers after a call of `can_sendto`. -/
def keepIdent (txbIdx : ℤ) (frame : CanFrame) (ret : ℤ) : Fin 3 → BitVec 29 :=
  if ret = 0 then fun i => if txbIdx = i then frame.ident.id else s.idents i else s.idents

/-- Perform an operation as a whole; nothing if it does not end.  `can_send` tries again while the
queue is full, and nothing else runs, so it has to succeed the first time. -/
def perform : TxAct → Option (ℤ × Session)
  | .setup reads baudrate => ((canSetup reads baudrate).run exec s.driver).map fun rd =>
      (rd.1, { s with driver := rd.2 })
  | .send frame => ((canSend frame).run exec s.driver).bind fun rd =>
      if rd.1 < 0 then none
      else some (rd.1, { s with driver := rd.2, accepted := s.accepted ++ [frame] })
  | .sendto txbIdx frame => ((canSendto txbIdx frame).run exec s.driver).map fun rd =>
      (rd.1, { s with driver := rd.2, idents := s.keepIdent txbIdx frame rd.1 })
  | .abort txbIdx => ((canAbort txbIdx).run exec s.driver).map fun rd =>
      (0, { s with driver := rd.2 })
  | .complete i => (s.driver.chip.event (.sent i)).map fun chip =>
      (0, { s with
        driver := { s.driver with chip := chip }
        sent := s.sent ++ [(i, s.driver.transmitter.content i)] })
  | .irq frame => ((irqHandler frame).run exec s.driver).map fun rd => (0, { s with driver := rd.2 })

/-- The step relation. -/
def Step (s : Session) (a : TxAct) (ret : ℤ) (s' : Session) : Prop := s.perform a = some (ret, s')

/-- A step from a state in which a condition holds. -/
def StepIf (p : Session → TxAct → Prop) (s : Session) (a : TxAct) (ret : ℤ) (s' : Session) : Prop :=
  s.Step a ret s' ∧ p s a

/-- What a step does. -/
inductive Moves (s : Session) : TxAct → ℤ → Session → Prop
  | setup {reads : ℕ} {baudrate : BitVec 32} {ret : ℤ} {d : Driver}
      (htx : d.transmitter = s.driver.transmitter.setup) :
      Moves s (.setup reads baudrate) ret { s with driver := d }
  | send {frame : CanFrame} {ret : ℤ} {d : Driver}
      (htx : d.transmitter = s.driver.transmitter.send frame) :
      Moves s (.send frame) ret { s with driver := d, accepted := s.accepted ++ [frame] }
  | sendto {i : Fin 3} {frame : CanFrame} {ret : ℤ} {d : Driver}
      (htx : (ret, d.transmitter) = s.driver.transmitter.sendto i frame) :
      Moves s (.sendto i frame) ret { s with driver := d, idents := s.keepIdent i frame ret }
  | nowhere {n : ℤ} {frame : CanFrame} (hn : ∀ i : Fin 3, n ≠ i) : Moves s (.sendto n frame) (-1) s
  | abort {n : ℤ} {d : Driver} (htx : d.transmitter = s.driver.transmitter.abort n) :
      Moves s (.abort n) 0 { s with driver := d }
  | complete {i : Fin 3} {d : Driver} (hreq : s.driver.transmitter.requested i = true)
      (htx : d.transmitter = s.driver.transmitter.complete i) :
      Moves s (.complete i) 0
        { s with driver := d, sent := s.sent ++ [(i, s.driver.transmitter.content i)] }
  | irq {frame : CanFrame} {d : Driver} (htx : d.transmitter = s.driver.transmitter.irq) :
      Moves s (.irq frame) 0 { s with driver := d }

theorem moves_of_step {s s' : Session} {a : TxAct} {ret : ℤ} (hapart : s.driver.Apart)
    (h : s.Step a ret s') : s.Moves a ret s' ∧ s'.driver.Apart := by
  cases a with
  | setup reads baudrate =>
      obtain ⟨⟨ret', d⟩, hrun, heq⟩ := Option.map_eq_some_iff.1 h
      obtain ⟨rfl, rfl⟩ := Prod.mk.inj heq
      exact ⟨.setup (transmitter_canSetup hrun), hapart.run hrun⟩
  | send frame =>
      obtain ⟨⟨ret', d⟩, hrun, heq⟩ := Option.bind_eq_some_iff.1 h
      split at heq
      · cases heq
      · rename_i hret
        obtain ⟨rfl, rfl⟩ := Prod.mk.inj (Option.some.inj heq)
        exact ⟨.send (transmitter_canSend hret hrun), hapart.run hrun⟩
  | sendto n frame =>
      obtain ⟨⟨ret', d⟩, hrun, heq⟩ := Option.map_eq_some_iff.1 h
      obtain ⟨rfl, rfl⟩ := Prod.mk.inj heq
      by_cases hn : ∃ i : Fin 3, n = i
      · obtain ⟨i, rfl⟩ := hn
        exact ⟨.sendto (transmitter_canSendto hrun), hapart.run hrun⟩
      · have hn : ∀ i : Fin 3, n ≠ i := fun i hi => hn ⟨i, hi⟩
        obtain ⟨rfl, rfl⟩ := eq_of_run_canSendto hn hrun
        exact ⟨.nowhere hn, hapart⟩
  | abort n =>
      simp only [Step, perform, Option.map_eq_some_iff] at h
      obtain ⟨⟨_, d⟩, hrun, heq⟩ := h
      obtain ⟨rfl, rfl⟩ := Prod.mk.inj heq
      exact ⟨.abort (transmitter_canAbort hrun), hapart.run hrun⟩
  | complete i =>
      obtain ⟨chip, hevent, heq⟩ := Option.map_eq_some_iff.1 h
      obtain ⟨rfl, rfl⟩ := Prod.mk.inj heq
      obtain ⟨hreq, htx⟩ := transmitter_sent hevent
      exact ⟨.complete hreq htx, hapart⟩
  | irq frame =>
      simp only [Step, perform, Option.map_eq_some_iff] at h
      obtain ⟨⟨_, d⟩, hrun, heq⟩ := h
      obtain ⟨rfl, rfl⟩ := Prod.mk.inj heq
      exact ⟨.irq (transmitter_irqHandler hapart hrun), hapart.run hrun⟩

/-- The component right after the first `can_setup`. -/
def SetUp (s : Session) : Prop :=
  ∃ chip frames reads baudrate ret d,
    (canSetup reads baudrate).run exec (System.booted chip frames).driver = some (ret, d) ∧
      s = ⟨d, [], [], fun _ => 0⟩

/-- The transmit side right after the first `can_setup`. -/
structure Fresh (s : Session) : Prop where
  apart : s.driver.Apart
  requested : ∀ i, s.driver.transmitter.requested i = false
  flagged : ∀ i, s.driver.transmitter.flagged i = false
  queue : s.driver.transmitter.queue = []
  stopped : s.driver.transmitter.stopped = true
  cache : ∀ i, (s.driver.transmitter.cache i).canid = 0
  acks : ∀ i, s.driver.transmitter.acks i = 0
  accepted : s.accepted = []
  sent : s.sent = []

theorem SetUp.fresh {s : Session} (h : s.SetUp) : s.Fresh := by
  obtain ⟨chip, frames, reads, baudrate, ret, d, hrun, rfl⟩ := h
  have htx := transmitter_canSetup hrun
  have hapart : (System.booted chip frames).driver.Apart :=
    .inl (Nat.le_of_eq (Nat.zero_add msgQueueSize))
  have hempty := Ring.contents_empty 0 msgQueueSize msgQueueSize_pos frames
  exact
    { apart := hapart.run hrun
      requested := fun i => congrFun (congrArg Transmitter.requested htx) i
      flagged := fun i => congrFun (congrArg Transmitter.flagged htx) i
      queue := (congrArg Transmitter.queue htx).trans hempty
      stopped := congrArg Transmitter.stopped htx
      cache := fun i => congrArg CanidCache.canid (congrFun (congrArg Transmitter.cache htx) i)
      acks := fun i => congrFun (congrArg Transmitter.acks htx) i
      accepted := rfl
      sent := rfl }

/-- What holds after `can_setup`, and is kept by all moves of a run, holds after the run. -/
theorem invariant {p : Session → TxAct → Prop} {I : Session → Prop} {s : Session}
    (hfresh : ∀ s, s.Fresh → I s)
    (hmoves : ∀ s a ret s', I s → s.Moves a ret s' → p s a → I s')
    (h : Transition.Reachable (StepIf p) SetUp s) : s.driver.Apart ∧ I s := by
  refine Transition.Reachable.invariant (I := fun s => s.driver.Apart ∧ I s)
    (fun s hs => ⟨hs.fresh.apart, hfresh s hs.fresh⟩) (fun s a ret s' hI hstep => ?_) h
  obtain ⟨hmove, hapart⟩ := moves_of_step hI.1 hstep.1
  exact ⟨hapart, hmoves s a ret s' hI.2 hmove hstep.2⟩

/-- A condition, where moreover the lengths fit. -/
def Fitting (p : Session → TxAct → Prop) (s : Session) (a : TxAct) : Prop := p s a ∧ a.Fits

instance (p : Session → TxAct → Prop) [∀ s a, Decidable (p s a)] (s : Session) (a : TxAct) :
    Decidable (Fitting p s a) := inferInstanceAs (Decidable (_ ∧ _))

/-- What `irq_handler` will find in the TX queue is short. -/
def Short (s : Session) : Prop := ∀ frame ∈ s.driver.transmitter.queue, frame.Short

theorem short_moves {s s' : Session} {a : TxAct} {ret : ℤ} (h : s.Short) (hmoves : s.Moves a ret s')
    (hfits : a.Fits) : s'.Short := by
  -- an operation that leaves the queue alone
  have hsame : ∀ {t : Transmitter}, t.queue = s.driver.transmitter.queue →
      ∀ f ∈ t.queue, f.Short := fun hqueue f hf => h f (hqueue ▸ hf)
  cases hmoves with
  | setup htx => exact hsame ((congrArg Transmitter.queue htx).trans rfl)
  | @send frame ret d htx =>
      intro f hf
      have hf : f ∈ d.transmitter.queue := hf
      rw [htx, Transmitter.send_eq] at hf
      rcases List.mem_append.1 hf with hf | hf
      · exact h f hf
      · exact List.mem_singleton.1 hf ▸ hfits
  | @sendto i frame ret d htx =>
      have hqueue := Transmitter.queue_sendto s.driver.transmitter i frame
      rw [← htx] at hqueue
      exact hsame hqueue
  | nowhere hn => exact h
  | abort htx | complete hreq htx => exact hsame ((congrArg Transmitter.queue htx).trans rfl)
  | @irq frame d htx =>
      intro f hf
      have hf : f ∈ d.transmitter.queue := hf
      rw [htx] at hf
      exact h f (Transmitter.mem_queue_irq hf)

/-- Where the lengths fit, no frame comes to `load_txb` that is too long. -/
theorem queue_short {p : Session → TxAct → Prop} {s : Session}
    (h : Transition.Reachable (StepIf (Fitting p)) SetUp s) : s.Short := by
  refine (invariant (I := Short) (fun s hs frame hframe => ?_)
    (fun _ _ _ _ hI hmoves hp => short_moves hI hmoves hp.2) h).2
  rw [hs.queue] at hframe
  cases hframe

/-- The component after `can_setup` from a chip whose registers are zero. -/
def start : Option Session :=
  ((canSetup 1 125000).run exec (System.booted ⟨fun _ => 0⟩ fun _ => .bare 0).driver).map fun rd =>
    ⟨rd.2, [], [], fun _ => 0⟩

theorem setUp_of_start {s : Session} (h : start = some s) : s.SetUp := by
  obtain ⟨⟨ret, d⟩, hrun, rfl⟩ := Option.map_eq_some_iff.1 h
  exact ⟨_, _, _, _, ret, d, hrun, rfl⟩

/-- The component after a list of operations that meet a condition. -/
def after (p : Session → TxAct → Prop) [∀ s a, Decidable (p s a)] (acts : List TxAct) :
    Option Session :=
  start.bind fun s =>
    acts.foldlM (fun s a => if p s a then (s.perform a).map Prod.snd else none) s

theorem reachable_of_after {p : Session → TxAct → Prop} [∀ s a, Decidable (p s a)]
    {acts : List TxAct} {s : Session} (h : after p acts = some s) :
    Transition.Reachable (StepIf p) SetUp s := by
  obtain ⟨s₀, hstart, hrun⟩ := Option.bind_eq_some_iff.1 h
  exact Transition.Reachable.foldlM_if hrun (.of_init (setUp_of_start hstart))

end Session

end Can
end Tk1Bsp
