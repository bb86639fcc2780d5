import Tk1Bsp.Can.Whole

/-!
# The refill of the transmit buffers

`transmit_message` takes one frame from the TX queue for each buffer whose flag was set, from the
highest buffer to the lowest, for as long as there are frames.  It does so exactly where the frames
it takes have a length that the payload can have; nothing between `can_send` and `load_txb` checks
this.
-/

namespace Tk1Bsp
namespace Can

/-! ## What is refilled -/

/-- The buffers of a list that are in a mask. -/
def inMask (tx : BitVec 8) (is : List (Fin 3)) : List (Fin 3) := is.filter fun i => tx.getLsbD i

/-- The buffers in a mask, from the highest to the lowest. -/
def buffersOf (tx : BitVec 8) : List (Fin 3) := inMask tx [2, 1, 0]

/-- The buffers of a list that there is a frame for, each with its frame. -/
def Driver.filled (d : Driver) (bs : List (Fin 3)) : List (Fin 3 × CanFrame) :=
  bs.zip (d.queued .tx)

/-- A register of transmit buffer `i`. -/
def InTxb (i : Fin 3) (a : Addr) : Prop := 0x30 + 16 * i.val ≤ a.val ∧ a.val < 0x3E + 16 * i.val

/-- The loads of the frames: the queue, the registers and the variables of the driver, before the
transmission is requested. -/
structure Drained (bs : List (Fin 3)) (d d' : Driver) : Prop where
  queue : d'.queued .tx = (d.queued .tx).drop (d.filled bs).length
  image : ∀ p ∈ d.filled bs, ∀ k < p.2.image.length, d'.chip.txb p.1 k = p.2.image.getD k 0
  txp : ∀ p ∈ d.filled bs, d'.chip.txp p.1 = p.2.prio
  requested : ∀ i, d'.chip.requested i = d.chip.requested i
  other : ∀ a, (∀ p ∈ d.filled bs, ¬ InTxb p.1 a) → d'.chip.reg a = d.chip.reg a
  cache : ∀ i, d'.txbCache i = if i ∈ bs then .zero else d.txbCache i
  stopped : d'.xmitStopped = (d.xmitStopped || decide ((d.filled bs).length < bs.length))

/-- What `transmit_message` is for: the first frames are in the buffers of the mask, and these are
requested; the flags of the mask are clear, the buffers are not in the cache, and the transmission
is stopped if there were too few frames.  All else is as it was. -/
structure Refilled (tx : BitVec 8) (d d' : Driver) : Prop where
  queue : d'.queued .tx = (d.queued .tx).drop (d.filled (buffersOf tx)).length
  image : ∀ p ∈ d.filled (buffersOf tx), ∀ k < p.2.image.length,
    d'.chip.txb p.1 k = p.2.image.getD k 0
  txp : ∀ p ∈ d.filled (buffersOf tx), d'.chip.txp p.1 = p.2.prio
  requested : ∀ i, d'.chip.requested i =
    (d.chip.requested i || decide (i ∈ (d.filled (buffersOf tx)).map Prod.fst))
  other : ∀ a, a ≠ toAddr canintf → (∀ p ∈ d.filled (buffersOf tx), ¬ InTxb p.1 a) →
    d'.chip.reg a = d.chip.reg a
  flags : d'.chip.reg (toAddr canintf) = d.chip.reg (toAddr canintf) &&& ~~~(tx <<< 2)
  cache : ∀ i, d'.txbCache i = if i ∈ buffersOf tx then .zero else d.txbCache i
  stopped : d'.xmitStopped =
    (d.xmitStopped || decide ((d.filled (buffersOf tx)).length < (buffersOf tx).length))

/-- `transmit_message` comes to its end, and does this. -/
def RefillsRight (tx : BitVec 8) (d : Driver) : Prop :=
  ∃ d', (transmitMessage tx).run Can.exec d = some ((), d') ∧ Refilled tx d d'

/-! ## The registers of a transmit buffer -/

section Registers

variable {i : Fin 3}

theorem inTxb_txbctrl (i : Fin 3) : InTxb i (toAddr (txbctrl i)) := by
  have := Chip.val_txbctrl i
  exact ⟨by omega, by omega⟩

theorem inTxb_txb (i : Fin 3) {k : ℕ} (hk : k < 13) :
    InTxb i (Fin.ofNat 128 (0x31 + 16 * i + k)) := by
  have := Chip.val_txb i hk
  exact ⟨by omega, by omega⟩

theorem InTxb.eq {j : Fin 3} {a : Addr} (h : InTxb i a) (h' : InTxb j a) : i = j := by
  have := h.1
  have := h.2
  have := h'.1
  have := h'.2
  exact Fin.ext (by omega)

theorem not_inTxb_canintf (i : Fin 3) : ¬ InTxb i (toAddr canintf) := fun h =>
  absurd h.1 (by have : (toAddr canintf).val = 0x2C := rfl; omega)

theorem length_image_le (frame : CanFrame) : frame.image.length ≤ 13 := by
  rw [CanFrame.image, List.length_append, length_frameHeader, List.length_take,
    Vector.length_toList]
  omega

theorem reg_loaded_of_not (c : Chip) {frame : CanFrame} {a : Addr} (h : ¬ InTxb i a) :
    (c.loaded i frame).reg a = c.reg a := by
  have hne : a ≠ toAddr (txbctrl i) := by
    rintro rfl
    exact h (inTxb_txbctrl i)
  have hout : ¬ (0x31 + 16 * i.val ≤ a.val ∧ a.val < 0x31 + 16 * i + frame.image.length) := by
    have := length_image_le frame
    intro hin
    exact h ⟨by omega, by omega⟩
  have hwrite : ∀ (c : Chip) (v : BitVec 8), (c.write (toAddr (txbctrl i)) v).reg a = c.reg a := by
    intro c v
    have hval := Chip.val_txbctrl i
    have hctrl : Chip.isTxbctrl (toAddr (txbctrl i)) := by unfold Chip.isTxbctrl; omega
    have hplain : ¬ ((Chip.isFilter (toAddr (txbctrl i)) ∨ Chip.isTiming (toAddr (txbctrl i))) ∧
        ¬ c.inConfig) := by
      unfold Chip.isFilter Chip.isTiming
      omega
    rw [Chip.write, if_neg (by omega), if_neg (by omega), if_neg hplain, if_pos hctrl,
      Chip.reg_set_of_ne hne]
  rw [Chip.loaded, Chip.spi_bitModify, hwrite, Chip.reg_load _ i (length_image_le frame),
    if_neg hout]

end Registers

/-! ## Sequences of loads -/

section Runs

open Prog

variable {d d₁ d' : Driver} {i : Fin 3} {bs : List (Fin 3)} {frame : CanFrame} {tx rts : BitVec 8}

theorem Drained.refl (d : Driver) : Drained [] d d where
  queue := rfl
  image := nofun
  txp := nofun
  requested _ := rfl
  other _ _ := rfl
  cache _ := rfl
  stopped := (Bool.or_false _).symm

theorem filled_cons_of_nil (h : d.queued .tx = []) : d.filled (i :: bs) = [] := by
  rw [Driver.filled, h, List.zip_nil_right]

theorem filled_cons {rest : List CanFrame} (h : d.queued .tx = frame :: rest)
    (hrest : d₁.queued .tx = rest) : d.filled (i :: bs) = (i, frame) :: d₁.filled bs := by
  rw [Driver.filled, h, List.zip_cons_cons, Driver.filled, hrest]

/-- The driver after the service of a buffer for which there is no frame. -/
def Driver.stoppedAt (d : Driver) (i : Fin 3) : Driver :=
  { d.acknowledged i with xmitStopped := true, txbLock := false }

/-- The driver after the service of a buffer that gets the first frame. -/
def Driver.loadedAt (d : Driver) (i : Fin 3) : Driver :=
  let rest := (mqRemoveMsg (d.acknowledged i) .tx).2
  { rest with chip := rest.chip.loaded i (mqRemoveMsg (d.acknowledged i) .tx).1 }

theorem queued_of_cons {rest : List CanFrame} (h : d.queued .tx = frame :: rest) (i : Fin 3) :
    (mqRemoveMsg (d.acknowledged i) .tx).1 = frame ∧ (d.loadedAt i).queued .tx = rest := by
  have hempty : mqIsEmpty d.txq = false := by
    rw [← Bool.not_eq_true]
    intro hempty
    rw [(mqIsEmpty_iff (q := .tx)).1 hempty] at h
    cases h
  have hpop := queued_mqRemoveMsg (d := d.acknowledged i) (q := .tx) hempty
  exact List.cons.inj (hpop.symm.trans h)

theorem Drained.of_nil (h : d.queued .tx = []) (hrest : Drained bs (d.stoppedAt i) d') :
    Drained (i :: bs) d d' := by
  have hnone : d.filled (i :: bs) = [] := filled_cons_of_nil h
  have hnone' : (d.stoppedAt i).filled bs = [] := by
    show bs.zip (d.queued .tx) = []
    rw [h, List.zip_nil_right]
  have hqueue := hrest.queue
  have hstopped := hrest.stopped
  rw [hnone'] at hqueue
  rw [show (d.stoppedAt i).xmitStopped = true from rfl, Bool.true_or] at hstopped
  refine ⟨?_, ?_, ?_, hrest.requested, fun a _ => ?_, fun j => ?_, ?_⟩
  · rw [hnone]
    exact hqueue
  · rw [hnone]
    exact nofun
  · rw [hnone]
    exact nofun
  · exact hrest.other a (by rw [hnone']; exact nofun)
  · rw [hrest.cache j]
    by_cases hj : j = i
    · subst hj
      simp [Driver.stoppedAt, Driver.acknowledged]
    · simp [Driver.stoppedAt, Driver.acknowledged, hj]
  · rw [hstopped, hnone]
    simp

/-- A buffer that is not served keeps its registers. -/
theorem Drained.reg_of_not_mem (h : Drained bs d d') (hi : i ∉ bs) {a : Addr} (ha : InTxb i a) :
    d'.chip.reg a = d.chip.reg a := by
  refine h.other a fun p hp hin => hi ?_
  rw [← hin.eq ha]
  exact (List.of_mem_zip hp).1

theorem Drained.of_cons {rest : List CanFrame} (h : d.queued .tx = frame :: rest) (hi : i ∉ bs)
    (hlen : frame.dlc.toNat ≤ 8) (hrest : Drained bs (d.loadedAt i) d') :
    Drained (i :: bs) d d' := by
  obtain ⟨hframe, hqueued⟩ := queued_of_cons h i
  have hfilled : d.filled (i :: bs) = (i, frame) :: (d.loadedAt i).filled bs :=
    filled_cons h hqueued
  have hchip : (d.loadedAt i).chip = d.chip.loaded i frame := by
    rw [← hframe]
    rfl
  have hkept : ∀ a, InTxb i a → d'.chip.reg a = (d.chip.loaded i frame).reg a :=
    fun a ha => hchip ▸ hrest.reg_of_not_mem hi ha
  have htx := transmitter_loaded (d := d) i hlen
  refine ⟨?_, ?_, ?_, fun j => ?_, fun a ha => ?_, fun j => ?_, ?_⟩
  · rw [hfilled, hrest.queue, hqueued, h]
    rfl
  · rw [hfilled, List.forall_mem_cons]
    refine ⟨fun k hk => ?_, hrest.image⟩
    have hlt : k < 13 := lt_of_lt_of_le hk (length_image_le frame)
    rw [Chip.txb, hkept _ (inTxb_txb i hlt), ← Chip.txb, txb_loaded _ i i hlen hlt,
      if_pos ⟨rfl, hk⟩]
  · rw [hfilled, List.forall_mem_cons]
    refine ⟨?_, hrest.txp⟩
    have htxp := congrFun (congrArg Transmitter.txp htx) i
    rw [Chip.txp, hkept _ (inTxb_txbctrl i)]
    exact htxp.trans (Function.update_self ..)
  · have hreq := congrFun (congrArg Transmitter.requested htx) j
    rw [hrest.requested, hchip]
    exact hreq
  · rw [hfilled, List.forall_mem_cons] at ha
    rw [hrest.other a ha.2, hchip, reg_loaded_of_not _ ha.1]
  · rw [hrest.cache j]
    show (if j ∈ bs then _ else Function.update d.txbCache i .zero j) = _
    by_cases hj : j = i
    · subst hj
      simp [hi]
    · simp [hj]
  · rw [hrest.stopped, hfilled, List.length_cons, List.length_cons]
    show (d.xmitStopped || _) = _
    simp

/-! ## The loop -/

/-- The wait loop of `transmit_message` ends, for each buffer. -/
def Chip.WaitEnds (c : Chip) : Prop := ∀ i : Fin 3, c.read (toAddr (txbctrl i &&& txbctrlTxreq)) = 0

theorem waitEnds_of_reg {c c' : Chip} (h : c.WaitEnds)
    (hreg : ∀ a : Addr, a.val < 0x10 → c'.reg a = c.reg a) :
    c'.WaitEnds := by
  have hzero : ∀ i : Fin 3, toAddr (txbctrl i &&& txbctrlTxreq) = 0 := by decide
  have hmode : c'.inConfig ↔ c.inConfig := by
    unfold Chip.inConfig
    rw [hreg _ (by decide)]
  intro i
  have hread := h i
  rw [hzero i] at hread ⊢
  have hrow : ¬ (0 : Addr).val % 16 = 14 ∧ ¬ (0 : Addr).val % 16 = 15 := by decide
  rw [← hread, Chip.read, Chip.read, if_neg hrow.1, if_neg hrow.2, if_neg hrow.1, if_neg hrow.2,
    hreg 0 (by decide)]
  simp only [hmode]

theorem waitEnds_loadedAt (h : d.chip.WaitEnds) (i : Fin 3) : (d.loadedAt i).chip.WaitEnds :=
  waitEnds_of_reg h fun a ha => reg_loaded_of_not d.chip fun hin => absurd hin.1 (by omega)

theorem run_serveTxb_of_nil (h : d.queued .tx = []) (hlock : d.txbLock = false) :
    (serveTxb i rts).run Can.exec d = some (rts, d.stoppedAt i) := by
  have hempty : mqIsEmpty d.txq = true := (mqIsEmpty_iff (q := .tx)).2 h
  rw [run_serveTxb, if_pos hempty, if_neg (by rw [hlock]; exact Bool.false_ne_true)]
  rfl

theorem run_serveTxb_of_cons {rest : List CanFrame} (h : d.queued .tx = frame :: rest)
    (hwait : d.chip.WaitEnds) :
    (serveTxb i rts).run Can.exec d =
      if frame.dlc.toNat ≤ 8 then some (rts ||| 1#8 <<< i.val, d.loadedAt i) else none := by
  have hempty : ¬ mqIsEmpty d.txq = true := by
    intro hempty
    rw [(mqIsEmpty_iff (q := .tx)).1 hempty] at h
    cases h
  obtain ⟨hframe, -⟩ := queued_of_cons h i
  have hspin : Can.exec (.spinWhileNonzero (txbctrl i &&& txbctrlTxreq))
      (mqRemoveMsg (d.acknowledged i) .tx).2 = some ((), (mqRemoveMsg (d.acknowledged i) .tx).2) :=
    if_pos (hwait i)
  rw [run_serveTxb, if_neg hempty, op, perform_bind, run_call_of_exec hspin, hframe, run_bind]
  split
  · rename_i hlen
    rw [run_loadTxb i hlen, Driver.loadedAt, hframe]
    rfl
  · rename_i hlen
    rw [loadTxb, if_neg hlen]
    rfl

theorem inMask_cons_of_pos {is : List (Fin 3)} (h : tx.getLsbD i = true) :
    inMask tx (i :: is) = i :: inMask tx is := List.filter_cons_of_pos h

theorem inMask_cons_of_neg {is : List (Fin 3)} (h : ¬ tx.getLsbD i = true) :
    inMask tx (i :: is) = inMask tx is := List.filter_cons_of_neg h

/-- Frames that fit are loaded one after the other. -/
theorem run_transmitLoop {is : List (Fin 3)} (hnodup : is.Nodup) (hrts : rts &&& 0xF8 = 0)
    (hwait : d.chip.WaitEnds) (hlock : d.txbLock = false)
    (hlen : ∀ p ∈ d.filled (inMask tx is), p.2.dlc.toNat ≤ 8) :
    ∃ rts' d', (transmitLoop tx is rts).run Can.exec d = some (rts', d') ∧
      Drained (inMask tx is) d d' ∧ rts' &&& 0xF8 = 0 ∧
      ∀ j : Fin 3, rts'.getLsbD j = (rts.getLsbD j ||
        decide (j ∈ (d.filled (inMask tx is)).map Prod.fst)) := by
  induction is generalizing d rts with
  | nil => exact ⟨rts, d, rfl, .refl d, hrts, fun j => (Bool.or_false _).symm⟩
  | cons i is ih =>
      obtain ⟨hi, hnodup⟩ := List.nodup_cons.1 hnodup
      unfold transmitLoop
      by_cases hbit : tx.getLsbD i = true
      · have hi' : i ∉ inMask tx is := fun h => hi (List.mem_filter.1 h).1
        rw [inMask_cons_of_pos hbit] at hlen ⊢
        rw [if_pos hbit]
        cases hqueue : d.queued .tx with
        | nil =>
            have hnone : d.filled (i :: inMask tx is) = [] := filled_cons_of_nil hqueue
            have hnone' : (d.stoppedAt i).filled (inMask tx is) = [] := by
              show List.zip _ (d.queued .tx) = []
              rw [hqueue, List.zip_nil_right]
            obtain ⟨rts', d', hrun, hdrained, hmask, hbits⟩ := ih (d := d.stoppedAt i) hnodup hrts
              hwait rfl fun p hp => absurd (hnone' ▸ hp) List.not_mem_nil
            refine ⟨rts', d', ?_, .of_nil hqueue hdrained, hmask, fun j => ?_⟩
            · rw [bind_eq, run_bind, run_serveTxb_of_nil hqueue hlock]
              exact hrun
            · rw [hbits, hnone', hnone]
        | cons frame rest =>
            obtain ⟨hframe, hqueued⟩ := queued_of_cons hqueue i
            have hfilled : d.filled (i :: inMask tx is) =
              (i, frame) :: (d.loadedAt i).filled (inMask tx is) := filled_cons hqueue hqueued
            rw [hfilled, List.forall_mem_cons] at hlen
            obtain ⟨rts', d', hrun, hdrained, hmask, hbits⟩ := ih (d := d.loadedAt i) hnodup
              (and_or_bit_eq_zero hrts i) (waitEnds_loadedAt hwait i) hlock hlen.2
            refine ⟨rts', d', ?_, .of_cons hqueue hi' hlen.1 hdrained, hmask, fun j => ?_⟩
            · rw [bind_eq, run_bind, run_serveTxb_of_cons hqueue hwait, if_pos hlen.1]
              exact hrun
            · rw [hbits, hfilled, BitVec.getLsbD_or, getLsbD_bit_eq, List.map_cons, Bool.or_assoc]
              simp only [List.mem_cons, Bool.decide_or]
      · rw [inMask_cons_of_neg hbit] at hlen ⊢
        rw [if_neg hbit]
        exact ih hnodup hrts hwait hlock hlen

/-- A loop that ends has loaded frames that fit. -/
theorem fits_of_run {is : List (Fin 3)} {rts' : BitVec 8} (hwait : d.chip.WaitEnds)
    (hrun : (transmitLoop tx is rts).run Can.exec d = some (rts', d')) :
    ∀ p ∈ d.filled (inMask tx is), p.2.dlc.toNat ≤ 8 := by
  induction is generalizing d rts with
  | nil => exact fun _ hp => absurd hp List.not_mem_nil
  | cons i is ih =>
      unfold transmitLoop at hrun
      by_cases hbit : tx.getLsbD i = true
      · rw [inMask_cons_of_pos hbit]
        rw [if_pos hbit, bind_eq, run_bind] at hrun
        cases hqueue : d.queued .tx with
        | nil =>
            rw [filled_cons_of_nil hqueue]
            exact fun _ hp => absurd hp List.not_mem_nil
        | cons frame rest =>
            obtain ⟨-, hqueued⟩ := queued_of_cons hqueue i
            rw [run_serveTxb_of_cons hqueue hwait] at hrun
            split at hrun
            · rename_i hlen
              rw [filled_cons hqueue hqueued, List.forall_mem_cons]
              exact ⟨hlen, ih (waitEnds_loadedAt hwait i) hrun⟩
            · cases hrun
      · rw [inMask_cons_of_neg hbit]
        rw [if_neg hbit] at hrun
        exact ih hwait hrun

/-! ## The whole -/

/-- The driver after the flags of the mask have been cleared. -/
def Driver.cleared (d : Driver) (tx : BitVec 8) : Driver :=
  { d with chip := (d.chip.spi [0x05, canintf, tx <<< 2, 0] 0).2 }

theorem run_transmitMessage (tx : BitVec 8) (d : Driver) :
    (transmitMessage tx).run Can.exec d =
      ((transmitLoop tx [2, 1, 0] 0).run Can.exec (d.cleared tx)).bind fun as =>
        some ((), { as.2 with chip := (as.2.chip.spi [0x80 ||| as.1] 0).2 }) := by
  simp only [transmitMessage, mcp2515BitModify, mcp2515Rts, op, bind_eq, pure_eq, perform_bind,
    call_bind, ret_bind]
  rw [run_spi, run_bind]
  rfl

theorem reg_cleared (d : Driver) (tx : BitVec 8) {a : Addr} (h : a ≠ toAddr canintf) :
    (d.cleared tx).chip.reg a = d.chip.reg a := by
  show (d.chip.spi [0x05, canintf, tx <<< 2, 0] 0).2.reg a = _
  rw [Chip.spi_bitModify, Chip.reg_write_canintf_of_ne _ _ h]

theorem waitEnds_cleared (h : d.chip.WaitEnds) (tx : BitVec 8) : (d.cleared tx).chip.WaitEnds :=
  waitEnds_of_reg h fun a ha => reg_cleared d tx fun hc => by
    have : (toAddr canintf).val = 0x2C := rfl
    rw [hc] at ha
    omega

/-- A request concerns the buffers that have been loaded. -/
theorem reg_rts_of_not {rts' : BitVec 8} {l : List (Fin 3)} {c : Chip} {a : Addr}
    (hmask : rts' &&& 0xF8 = 0) (hbits : ∀ j : Fin 3, rts'.getLsbD j = decide (j ∈ l))
    (h : ∀ j ∈ l, ¬ InTxb j a) : (c.spi [0x80 ||| rts'] 0).2.reg a = c.reg a := by
  rw [Chip.spi_rts _ hmask]
  refine Chip.reg_requestAll_of_ne _ _ fun j hj hc => ?_
  have hbit : (0x80 ||| rts').getLsbD j = rts'.getLsbD j := by fin_cases j <;> simp
  rw [hbit, hbits, decide_eq_true_iff] at hj
  exact h j hj (hc ▸ inTxb_txbctrl j)

/-- The request after the loads. -/
theorem Drained.refilled {rts' : BitVec 8} (h : Drained (buffersOf tx) (d.cleared tx) d')
    (hmask : rts' &&& 0xF8 = 0) (hbits : ∀ j : Fin 3, rts'.getLsbD j =
      decide (j ∈ (d.filled (buffersOf tx)).map Prod.fst)) :
    Refilled tx d { d' with chip := (d'.chip.spi [0x80 ||| rts'] 0).2 } where
  queue := h.queue
  image p hp k hk := (Chip.txb_rts _ hmask _ (lt_of_lt_of_le hk (length_image_le p.2))).trans
    (h.image p hp k hk)
  txp p hp := (Chip.txp_rts _ hmask _).trans (h.txp p hp)
  requested i := by
    show Chip.requested _ i = _
    rw [Chip.requested_rts _ hmask, h.requested, hbits]
    exact congrArg (· || _) (Chip.requested_bitModify_canintf _ _ _ i)
  other a ha hnot := by
    have hloaded : ∀ j ∈ (d.filled (buffersOf tx)).map Prod.fst, ¬ InTxb j a := by
      intro j hj
      obtain ⟨p, hp, rfl⟩ := List.mem_map.1 hj
      exact hnot p hp
    exact (reg_rts_of_not hmask hbits hloaded).trans ((h.other a hnot).trans (reg_cleared d tx ha))
  flags := by
    refine (reg_rts_of_not hmask hbits fun j _ => not_inTxb_canintf j).trans
      ((h.other _ fun p _ => not_inTxb_canintf p.1).trans ?_)
    show (d.chip.spi [0x05, canintf, tx <<< 2, 0] 0).2.reg (toAddr canintf) = _
    rw [Chip.spi_bitModify, Chip.reg_write_canintf]
    simp
  cache := h.cache
  stopped := h.stopped

/-- `transmit_message` refills the buffers exactly where the frames it takes fit. -/
theorem refillsRight_iff (tx : BitVec 8) (hwait : d.chip.WaitEnds) (hlock : d.txbLock = false) :
    RefillsRight tx d ↔ ∀ p ∈ d.filled (buffersOf tx), p.2.dlc.toNat ≤ 8 := by
  have hwait' := waitEnds_cleared hwait tx
  rw [RefillsRight, run_transmitMessage]
  constructor
  · rintro ⟨d', hrun, -⟩
    obtain ⟨⟨rts', d₁⟩, hloop, -⟩ := Option.bind_eq_some_iff.1 hrun
    exact fits_of_run (d := d.cleared tx) hwait' hloop
  · intro hlen
    have hnodup : ([2, 1, 0] : List (Fin 3)).Nodup := by decide
    have hnone : (0 : BitVec 8) &&& 0xF8 = 0 := by decide
    obtain ⟨rts', d₁, hloop, hdrained, hmask, hbits⟩ :=
      run_transmitLoop hnodup hnone hwait' hlock hlen
    rw [hloop]
    refine ⟨_, rfl, hdrained.refilled hmask fun j => ?_⟩
    have hzero : (0 : BitVec 8).getLsbD j = false := BitVec.getLsbD_zero
    rw [hbits, hzero, Bool.false_or]
    rfl

end Runs

/-- The component with one frame in the TX queue. -/
def oneFrame (frame : CanFrame) : Driver :=
  let d := (System.booted ⟨fun _ => 0⟩ fun _ => frame).driver
  { d with txq := d.txq.push }

theorem filled_oneFrame (frame : CanFrame) :
    (oneFrame frame).filled (buffersOf 7) = [(2, frame)] := rfl

theorem waitEnds_oneFrame (frame : CanFrame) : (oneFrame frame).chip.WaitEnds := by
  intro i
  show Chip.read ⟨fun _ => 0⟩ _ = 0
  unfold Chip.read
  split_ifs <;> rfl

theorem refillsRight_iff_oneFrame : RefillsRight 7 (oneFrame (.bare 5)) := by
  refine (refillsRight_iff 7 (waitEnds_oneFrame _) rfl).2 ?_
  rw [filled_oneFrame, List.forall_mem_singleton]
  decide

/-- A frame of nine bytes makes `load_txb` leave its arrays. -/
theorem not_refillsRight_nine : (oneFrame { CanFrame.bare 5 with dlc := 9 }).chip.WaitEnds ∧
    (oneFrame { CanFrame.bare 5 with dlc := 9 }).txbLock = false ∧
      ¬ RefillsRight 7 (oneFrame { CanFrame.bare 5 with dlc := 9 }) := by
  refine ⟨waitEnds_oneFrame _, rfl, ?_⟩
  rintro ⟨d', hrun, -⟩
  have hnone :
      (transmitMessage 7).run Can.exec (oneFrame { CanFrame.bare 5 with dlc := 9 }) = none := rfl
  rw [hnone] at hrun
  cases hrun

end Can
end Tk1Bsp
