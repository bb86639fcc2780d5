import Tk1Bsp.Can.Transmitter

/-!
# The programs of the driver compute the operations of the transmit side

For each program that runs as a whole, and ends: the transmit side of the driver afterwards is the
operation of `Transmitter` applied to the one before.  The loops of `transmit_message`, `start_xmit`
and `get_frame_priority` are followed by induction on their list of buffers.
-/

namespace Tk1Bsp
namespace Can

section Runs

open Prog

variable {d d' : Driver}

/-! ## The handler -/

theorem run_spi {α : Type} (txbuf : List (BitVec 8)) (n : ℕ) (k : List (BitVec 8) → Io α) :
    (Prog.call (.spi txbuf n) k).run exec d =
      (k (d.chip.spi txbuf n).1).run exec { d with chip := (d.chip.spi txbuf n).2 } := rfl

/-- The transmit side as it will be when the buffers in a mask have been requested. -/
def Driver.promised (d : Driver) (rts : BitVec 8) : Transmitter :=
  d.transmitter.request fun j => rts.getLsbD j

/-- The driver after the acknowledgement in the loop of `transmit_message`. -/
def Driver.acknowledged (d : Driver) (i : Fin 3) : Driver :=
  { d with
    txbCache := Function.update d.txbCache i .zero
    txbAck := Function.update d.txbAck i (d.txbAck i + 1) }

theorem run_queuePop (q : QueueId) :
    (queuePop q).run exec d =
      if mqIsEmpty (d.queue q) then some (none, d)
      else some (some (mqRemoveMsg d q).1, (mqRemoveMsg d q).2) := by
  have hempty : exec (.mqIsEmpty q) d = some (mqIsEmpty (d.queue q), d) := rfl
  simp only [queuePop, op, bind_eq, pure_eq, perform_bind]
  rw [run_call_of_exec hempty]
  cases mqIsEmpty (d.queue q) <;> rfl

theorem run_serveTxb (i : Fin 3) (rts : BitVec 8) :
    (serveTxb i rts).run exec d =
      if mqIsEmpty d.txq then
        if d.txbLock then none
        else some (rts, { d.acknowledged i with xmitStopped := true, txbLock := false })
      else
        ((op (.spinWhileNonzero (txbctrl i &&& txbctrlTxreq))).bind fun _ =>
          (loadTxb i (mqRemoveMsg (d.acknowledged i) .tx).1).bind fun _ =>
            .ret (rts ||| 1#8 <<< i.val)).run exec (mqRemoveMsg (d.acknowledged i) .tx).2 := by
  have hclear : exec (.txbCache fun cache => Function.update cache i .zero) d =
      some (d.txbCache, { d with txbCache := Function.update d.txbCache i .zero }) := rfl
  have hack : exec (.txbAck i) { d with txbCache := Function.update d.txbCache i .zero } =
      some ((), d.acknowledged i) := rfl
  simp only [serveTxb, canidClearCache, op, bind_eq, pure_eq, perform_bind, call_bind, ret_bind]
  rw [run_call_of_exec hclear, run_call_of_exec hack, run_bind, txQueuePop, run_queuePop]
  show (if mqIsEmpty d.txq then _ else _ : Option _).bind _ = _
  split
  · simp only [Option.bind_some, run, exec, Driver.acknowledged]
    cases d.txbLock <;> rfl
  · rfl

theorem eq_of_run_spin {reg : BitVec 8} {u : Unit}
    (hrun : (op (.spinWhileNonzero reg)).run exec d = some (u, d')) : d' = d := by
  simp only [op, perform, run, exec] at hrun
  split at hrun
  · cases hrun
  · rename_i hread
    split at hread
    · cases hread
      cases hrun
      rfl
    · cases hread

/-- If `load_txb` has a result, the length is one that the payload can have. -/
theorem eq_of_run_loadTxb {i : Fin 3} {frame : CanFrame} {u : Unit}
    (hrun : (loadTxb i frame).run exec d = some (u, d')) :
    frame.dlc.toNat ≤ 8 ∧ d' = { d with chip := d.chip.loaded i frame } := by
  by_cases hdlc : frame.dlc.toNat ≤ 8
  · rw [run_loadTxb i hdlc] at hrun
    cases hrun
    exact ⟨hdlc, rfl⟩
  · rw [loadTxb, if_neg hdlc] at hrun
    cases hrun

/-- One round of the loop of `transmit_message`. -/
theorem promised_serveTxb {i : Fin 3} {rts rts' : BitVec 8} (hrts : rts &&& 0xF8 = 0)
    (hrun : (serveTxb i rts).run exec d = some (rts', d')) :
    rts' &&& 0xF8 = 0 ∧ d'.promised rts' = (d.promised rts).serve i := by
  rw [run_serveTxb] at hrun
  cases hempty : mqIsEmpty d.txq with
  | true =>
      have hqueue : (d.promised rts).queue = [] := (mqIsEmpty_iff (q := .tx)).1 hempty
      rw [hempty, if_pos rfl] at hrun
      split at hrun
      · cases hrun
      · obtain ⟨rfl, rfl⟩ := Prod.mk.inj (Option.some.inj hrun)
        refine ⟨hrts, ?_⟩
        rw [Transmitter.serve, hqueue]
        rfl
  | false =>
      have hqueue : (d.promised rts).queue = (mqRemoveMsg (d.acknowledged i) .tx).1 ::
          (mqRemoveMsg (d.acknowledged i) .tx).2.queued .tx :=
        queued_mqRemoveMsg (d := d.acknowledged i) (q := .tx) hempty
      rw [hempty, if_neg Bool.false_ne_true] at hrun
      obtain ⟨_, d₁, hspin, hrun⟩ := of_run_bind hrun
      obtain rfl := eq_of_run_spin hspin
      obtain ⟨_, d₂, hload, hret⟩ := of_run_bind hrun
      obtain ⟨hdlc, rfl⟩ := eq_of_run_loadTxb hload
      obtain ⟨rfl, rfl⟩ := Prod.mk.inj (Option.some.inj hret)
      refine ⟨and_or_bit_eq_zero hrts i, ?_⟩
      have hloaded := transmitter_loaded (d := (mqRemoveMsg (d.acknowledged i) .tx).2) i hdlc
      have hrest : (mqRemoveMsg (d.acknowledged i) .tx).2.transmitter =
          { d.transmitter.acknowledge i with
            queue := (mqRemoveMsg (d.acknowledged i) .tx).2.queued .tx } := rfl
      rw [Driver.promised, hloaded, hrest, Transmitter.serve, hqueue]
      refine Transmitter.ext (funext fun j => ?_) rfl rfl rfl rfl rfl rfl rfl
      show (d.chip.requested j || (rts ||| 1#8 <<< i.val).getLsbD j) =
        ((d.chip.requested j || rts.getLsbD j) || decide (j = i))
      rw [BitVec.getLsbD_or, getLsbD_bit_eq, Bool.or_assoc]

theorem promised_transmitLoop {tx : BitVec 8} {is : List (Fin 3)} {rts rts' : BitVec 8}
    (hrts : rts &&& 0xF8 = 0) (hrun : (transmitLoop tx is rts).run exec d = some (rts', d')) :
    rts' &&& 0xF8 = 0 ∧ d'.promised rts' =
      is.foldl (fun t (i : Fin 3) => if tx.getLsbD i then t.serve i else t) (d.promised rts) := by
  induction is generalizing d rts with
  | nil =>
      obtain ⟨rfl, rfl⟩ := Prod.mk.inj (Option.some.inj hrun)
      exact ⟨hrts, rfl⟩
  | cons i is ih =>
      rw [transmitLoop] at hrun
      rw [List.foldl_cons]
      split at hrun
      · rename_i hbit
        rw [bind_eq] at hrun
        obtain ⟨rts₁, d₁, hserve, hrun⟩ := of_run_bind hrun
        obtain ⟨hrts₁, hpromised⟩ := promised_serveTxb hrts hserve
        rw [if_pos hbit, ← hpromised]
        exact ih hrts₁ hrun
      · rename_i hbit
        rw [if_neg hbit]
        exact ih hrts hrun

theorem transmitter_rts {rts : BitVec 8} (hrts : rts &&& 0xF8 = 0) :
    ({ d with chip := (d.chip.spi [0x80 ||| rts] 0).2 } : Driver).transmitter = d.promised rts :=
  Transmitter.ext (funext fun j => Chip.requested_rts _ hrts j)
    (funext fun j => Chip.flagged_rts _ hrts j) (funext fun j => Chip.txp_rts _ hrts j)
    (funext fun j => funext fun k => Chip.txb_rts _ hrts j k.isLt) rfl rfl rfl rfl

/-- `transmit_message` for the buffers whose flag is set. -/
theorem transmitter_transmitMessage {tx : BitVec 8} {u : Unit}
    (htx : ∀ i : Fin 3, tx.getLsbD i = d.chip.flagged i)
    (hrun : (transmitMessage tx).run exec d = some (u, d')) : d'.transmitter = d.transmitter.irq := by
  simp only [transmitMessage, mcp2515BitModify, mcp2515Rts, op, bind_eq, pure_eq, perform_bind,
    call_bind, ret_bind] at hrun
  rw [run_spi] at hrun
  obtain ⟨rts, d₁, hloop, hrts⟩ := of_run_bind hrun
  obtain ⟨hmask, hpromised⟩ := promised_transmitLoop (by decide) hloop
  rw [run_spi] at hrts
  obtain ⟨-, rfl⟩ := Prod.mk.inj (Option.some.inj hrts)
  rw [transmitter_rts hmask, hpromised, Transmitter.irq, Transmitter.serveAll]
  have hstart : ({ d with chip := (d.chip.spi [0x05, canintf, tx <<< 2, 0] 0).2 } : Driver).promised 0 =
      { d.transmitter with flagged := fun _ => false } := by
    refine Transmitter.ext (funext fun j => ?_) (funext fun j => ?_)
      (funext fun j => Chip.txp_write_canintf _ _ j)
      (funext fun j => funext fun k => Chip.txb_bitModify_canintf _ _ _ j k.isLt) rfl rfl rfl rfl
    · show (Chip.requested _ j || (0#8).getLsbD j) = _
      rw [Chip.requested_bitModify_canintf, BitVec.getLsbD_zero, Bool.or_false]
      rfl
    · show Chip.flagged _ j = false
      rw [Chip.flagged_clear, getLsbD_txif, htx]
      exact Bool.and_not_self _
  have hcond : ∀ (t : Transmitter) (i : Fin 3), (if tx.getLsbD i then t.serve i else t) =
      if d.transmitter.flagged i then t.serve i else t := fun t i => by
    rw [htx]
    rfl
  rw [hstart]
  simp only [hcond]

/-- `(flags & TXIF_MASK) >> TXIF_SHF`. -/
theorem getLsbD_txFlags (flags : BitVec 8) (i : Fin 3) :
    ((flags &&& txifMask) >>> 2).getLsbD i = flags.getLsbD (i + 2) := by
  have hmask : ∀ i : Fin 3, txifMask.getLsbD (i + 2) = true := by decide
  rw [BitVec.getLsbD_ushiftRight, BitVec.getLsbD_and, Nat.add_comm 2, hmask i, Bool.and_true]

theorem Transmitter.irq_of_not_flagged {t : Transmitter} (h : ∀ i, t.flagged i = false) :
    t.irq = t := by
  have hflagged : t.flagged = fun _ => false := funext h
  simp only [irq, serveAll_cons, serveAll_nil, h, Bool.false_eq_true, if_false]
  rw [← hflagged]

/-- A part of the handler that has nothing to do with transmission. -/
theorem run_onFlag_beside {flags mask : BitVec 8} {p : Io Unit} {u : Unit}
    (hp : p.Every fun o => o.Beside ∨ o.Rx) (hapart : d.Apart)
    (hrun : (onFlag flags mask p).run exec d = some (u, d')) :
    d'.Apart ∧ d'.transmitter = d.transmitter :=
  ⟨hapart.run hrun, run_beside (every_onFlag hp) hapart hrun⟩

/-- `irq_handler`. -/
theorem transmitter_irqHandler {frame : CanFrame} {u : Unit} (hapart : d.Apart)
    (hrun : (irqHandler frame).run exec d = some (u, d')) : d'.transmitter = d.transmitter.irq := by
  have hbeside : ∀ {p : Io Unit}, p.Every Op.Beside → p.Every fun o => o.Beside ∨ o.Rx :=
    fun h => h.mono fun _ => .inl
  have hflags : (d.chip.spi [0x03, canintf] 1).1.headD 0 = d.chip.reg (toAddr canintf) := rfl
  simp only [irqHandler, handleFlags, mcp2515ReadReg, op, bind_eq, pure_eq, perform_bind, call_bind,
    ret_bind] at hrun
  rw [run_spi, hflags] at hrun
  generalize hreg : d.chip.reg (toAddr canintf) = flags at hrun
  obtain ⟨_, d₁, hmerr, hrun⟩ := of_run_bind hrun
  obtain ⟨hapart₁, heq₁⟩ := run_onFlag_beside (hbeside beside_reportMessageError) hapart hmerr
  obtain ⟨_, d₂, hwake, hrun⟩ := of_run_bind hrun
  obtain ⟨hapart₂, heq₂⟩ := run_onFlag_beside (hbeside (beside_clearFlags _ (by decide))) hapart₁ hwake
  obtain ⟨_, d₃, herr, hrun⟩ := of_run_bind hrun
  obtain ⟨hapart₃, heq₃⟩ := run_onFlag_beside (hbeside beside_reportError) hapart₂ herr
  obtain ⟨_, d₄, htx, hrun⟩ := of_run_bind hrun
  obtain ⟨_, d₅, hrx, hrun⟩ := of_run_bind hrun
  obtain ⟨-, rfl⟩ := Prod.mk.inj (Option.some.inj hrun)
  have heq : d₃.transmitter = d.transmitter := heq₃.trans (heq₂.trans heq₁)
  have hflagged : ∀ i : Fin 3, ((flags &&& txifMask) >>> 2).getLsbD i = d₃.chip.flagged i := by
    intro i
    have h := congrFun (congrArg Transmitter.flagged heq) i
    rw [getLsbD_txFlags, ← hreg]
    exact h.symm
  have hserved : d₄.transmitter = d₃.transmitter.irq := by
    unfold onFlag at htx
    split at htx
    · exact transmitter_transmitMessage hflagged htx
    · rename_i hnone
      obtain ⟨-, rfl⟩ := Prod.mk.inj (Option.some.inj htx)
      refine (Transmitter.irq_of_not_flagged fun i => (hflagged i).symm.trans ?_).symm
      rw [not_not.1 hnone]
      simp
  have hapart₄ : d₄.Apart := hapart₃.run htx
  have hlast := (run_onFlag_beside (beside_receiveMessage _ frame) hapart₄ hrx).2
  exact hlast.trans (hserved.trans (congrArg Transmitter.irq heq))

/-! ## The calls -/

theorem transmitter_raise (i : Fin 3) :
    ({ d with
      chip := (d.chip.spi [0x05, canintf, canintfTx0if <<< i.val, 0xFF] 0).2
      xmitStopped := false } : Driver).transmitter =
      { d.transmitter with
        flagged := fun j => d.transmitter.flagged j || decide (j = i), stopped := false } :=
  Transmitter.ext (funext fun j => Chip.requested_bitModify_canintf _ _ _ j)
    (funext fun j => Chip.flagged_raise _ i j) (funext fun j => Chip.txp_write_canintf _ _ j)
    (funext fun j => funext fun k => Chip.txb_bitModify_canintf _ _ _ j k.isLt) rfl rfl rfl rfl

/-- The byte that the driver reads from a control register. -/
theorem headD_txbctrl (i : Fin 3) :
    (d.chip.spi [0x03, txbctrl i] 1).1.headD 0 = d.chip.reg (toAddr (txbctrl i)) := by
  rw [Chip.spi_read, Chip.readFrom_txbctrl]
  rfl

theorem transmitter_raiseLoop {is : List (Fin 3)} {u : Unit}
    (hrun : (raiseLoop is).run exec d = some (u, d')) :
    d'.transmitter = is.foldl Transmitter.raise d.transmitter := by
  induction is generalizing d with
  | nil =>
      obtain ⟨-, rfl⟩ := Prod.mk.inj (Option.some.inj hrun)
      rfl
  | cons i is ih =>
      simp only [raiseLoop, mcp2515ReadReg, mcp2515BitModify, op, bind_eq, pure_eq, perform_bind,
        call_bind, ret_bind] at hrun
      rw [run_spi, headD_txbctrl] at hrun
      rw [List.foldl_cons, Transmitter.raise]
      split at hrun
      · rename_i hctrl
        have hreq : d.transmitter.requested i = false := (Chip.and_txreq_eq_zero_iff _).1 hctrl
        rw [if_neg (Bool.not_eq_true _ ▸ hreq), ← transmitter_raise]
        exact ih hrun
      · rename_i hctrl
        have hreq : ¬ d.transmitter.requested i = false :=
          fun h => hctrl ((Chip.and_txreq_eq_zero_iff _).2 h)
        rw [if_pos (Bool.not_eq_false _ ▸ hreq)]
        exact ih hrun

theorem transmitter_startXmit {u : Unit} (hrun : startXmit.run exec d = some (u, d')) :
    d'.transmitter = d.transmitter.startXmit := by
  have hstopped : exec .getXmitStopped d = some (d.xmitStopped, d) := rfl
  simp only [startXmit, op, bind_eq, pure_eq, perform_bind] at hrun
  rw [run_call_of_exec hstopped] at hrun
  show d'.transmitter = if d.xmitStopped then _ else _
  split at hrun
  · rename_i h
    rw [if_pos h]
    cases hlock : d.txbLock with
    | true =>
        have hwait : exec .txbLock d = none := if_pos hlock
        rw [run_call_of_none hwait] at hrun
        cases hrun
    | false =>
        have htake : exec .txbLock d = some ((), { d with txbLock := true }) :=
          if_neg (by rw [hlock]; exact Bool.false_ne_true)
        rw [run_call_of_exec htake] at hrun
        obtain ⟨_, d₁, hloop, hrun⟩ := of_run_bind hrun
        obtain ⟨-, rfl⟩ := Prod.mk.inj (Option.some.inj hrun)
        have hraised := transmitter_raiseLoop hloop
        exact hraised
  · rename_i h
    obtain ⟨-, rfl⟩ := Prod.mk.inj (Option.some.inj hrun)
    rw [if_neg h]

/-- `can_send`, when it does not have to try again. -/
theorem transmitter_canSend {frame : CanFrame} {ret : ℤ} (hret : ¬ ret < 0)
    (hrun : (canSend frame).run exec d = some (ret, d')) :
    d'.transmitter = d.transmitter.send frame := by
  have hfull : exec (.mqIsFull .tx) d = some (mqIsFull d.txq, d) := rfl
  simp only [canSend, txQueuePush, queuePush, op, bind_eq, pure_eq, perform_bind, call_bind] at hrun
  rw [run_call_of_exec hfull] at hrun
  obtain ⟨ret₁, d₁, hpush, hrun⟩ := of_run_bind hrun
  obtain ⟨_, d₂, hstart, hrun⟩ := of_run_bind hrun
  obtain ⟨rfl, rfl⟩ := Prod.mk.inj (Option.some.inj hrun)
  have hstart := transmitter_startXmit hstart
  split at hpush
  · obtain ⟨rfl, rfl⟩ := Prod.mk.inj (Option.some.inj hpush)
    exact absurd (show (-1 : ℤ) < 0 by decide) hret
  · rename_i hroom
    obtain ⟨rfl, rfl⟩ := Prod.mk.inj (Option.some.inj hpush)
    have hpushed : (mqAppendMsg d .tx frame).transmitter =
        { d.transmitter with queue := d.transmitter.queue ++ [frame] } :=
      Transmitter.ext rfl rfl rfl rfl
        (queued_mqAppendMsg frame ((Bool.not_eq_true _).mp hroom)) rfl rfl rfl
    rw [hstart, hpushed]
    rfl

theorem statusOfCtrl_eq_idle_iff (ctrl : BitVec 8) :
    statusOfCtrl ctrl = .idle ↔ ctrl.getLsbD 3 = false := by
  rw [← Chip.and_txreq_eq_zero_iff, statusOfCtrl]
  by_cases h : ctrl &&& txbctrlTxreq = 0
  · rw [if_neg (not_not.2 h)]
    exact iff_of_true rfl h
  · rw [if_pos h]
    refine iff_of_false ?_ h
    split_ifs <;> decide

theorem transmitter_priority (i : Fin 3) (val : BitVec 8) :
    ({ d with chip := (d.chip.spi [0x05, txbctrl i, txbctrlTxpMask, val] 0).2 } : Driver).transmitter =
      { d.transmitter with txp := Function.update d.transmitter.txp i (val.setWidth 2) } := by
  have hagrees := d.chip.agrees_priority i val
  refine Transmitter.ext (funext hagrees.requested) (funext hagrees.flagged) (funext fun j => ?_)
    (funext fun j => funext fun k => hagrees.txb j k k.isLt) rfl rfl rfl rfl
  show Chip.txp _ j = Function.update d.chip.txp i _ j
  rw [Chip.txp_priority, Function.update_apply]

/-- The last loop of `get_frame_priority`. -/
theorem transmitter_updatePriorities {b : Fin 3} {is : List (Fin 3)} {u : Unit}
    (hrun : (updatePriorities b is).run exec d = some (u, d')) :
    d'.transmitter = { d.transmitter with
      txp := fun j => if j ∈ is ∧ (d.txbCache j).isValid ∧ j ≠ b then (d.txbCache j).priority
        else d.transmitter.txp j } := by
  induction is generalizing d with
  | nil =>
      obtain ⟨-, rfl⟩ := Prod.mk.inj (Option.some.inj hrun)
      simp
  | cons i is ih =>
      have hcache : exec (.txbCache id) d = some (d.txbCache, d) := rfl
      simp only [updatePriorities, mcp2515BitModify, op, bind_eq, pure_eq, perform_bind, call_bind,
        ret_bind] at hrun
      rw [run_call_of_exec hcache] at hrun
      split at hrun
      · rename_i hset
        rw [run_spi] at hrun
        rw [ih hrun, transmitter_priority]
        refine Transmitter.ext rfl rfl (funext fun j => ?_) rfl rfl rfl rfl rfl
        by_cases hj : j = i
        · subst hj
          simp [hset]
        · simp [hj]
      · rename_i hset
        rw [ih hrun]
        refine Transmitter.ext rfl rfl (funext fun j => ?_) rfl rfl rfl rfl rfl
        by_cases hj : j = i
        · subst hj
          simp [hset]
        · simp [hj]

/-- `get_frame_priority`. -/
theorem transmitter_getFramePriority {b : Fin 3} {id : CanId} {prio : ℤ}
    (hrun : (getFramePriority b id).run exec d = some (prio, d')) :
    (prio, d'.transmitter) = d.transmitter.rank b id := by
  rw [getFramePriority_fin, getFramePriorityAt] at hrun
  have hcache : exec (.txbCache fun cache =>
      if (cache b).isValid then cache else rankCache b id cache) d = some (d.txbCache, { d with
        txbCache := if (d.txbCache b).isValid then d.txbCache else rankCache b id d.txbCache }) := rfl
  simp only [op, bind_eq, pure_eq, perform_bind] at hrun
  rw [run_call_of_exec hcache] at hrun
  show _ = if (d.txbCache b).isValid then _ else _
  split at hrun
  · rename_i hvalid
    obtain ⟨rfl, rfl⟩ := Prod.mk.inj (Option.some.inj hrun)
    rw [if_pos hvalid]
  · rename_i hvalid
    obtain ⟨_, d₁, hupdate, hrun⟩ := of_run_bind hrun
    have hupdated := transmitter_updatePriorities hupdate
    obtain ⟨rfl, rfl⟩ := Prod.mk.inj (Option.some.inj hrun)
    have hall : ∀ j : Fin 3, j ∈ ([0, 1, 2] : List (Fin 3)) := by decide
    have hkept : d₁.txbCache = rankCache b id d.txbCache := congrArg Transmitter.cache hupdated
    rw [if_neg hvalid]
    refine Prod.ext ?_ ?_
    · show ((d₁.txbCache b).priority.toNat : ℤ) = _
      rw [hkept]
      rfl
    · refine Eq.trans ?_ (hupdated.trans ?_)
      · rfl
      · simp only [hall, true_and]
        rfl

/-- `can_sendto` for a transmit buffer. -/
theorem transmitter_canSendto {i : Fin 3} {frame : CanFrame} {ret : ℤ}
    (hrun : (canSendto i frame).run exec d = some (ret, d')) :
    (ret, d'.transmitter) = d.transmitter.sendto i frame := by
  simp only [canSendto, txbStatus, mcp2515ReadReg, mcp2515Rts, op, bind_eq, pure_eq, perform_bind,
    call_bind, ret_bind] at hrun
  rw [run_spi, headD_txbctrl] at hrun
  split at hrun
  · rename_i hidle
    have hreq : d.transmitter.requested i = false := (statusOfCtrl_eq_idle_iff _).1 hidle
    obtain ⟨prio, d₁, hprio, hrun⟩ := of_run_bind hrun
    have hrank : (prio, d₁.transmitter) = d.transmitter.rank i frame.ident :=
      transmitter_getFramePriority hprio
    obtain ⟨_, d₂, hload, hrts⟩ := of_run_bind hrun
    obtain ⟨hdlc, rfl⟩ := eq_of_run_loadTxb hload
    rw [run_spi] at hrts
    obtain ⟨rfl, rfl⟩ := Prod.mk.inj (Option.some.inj hrts)
    have hloaded := transmitter_loaded (d := d₁) i hdlc
    have hrequest := transmitter_rts (d := { d₁ with
      chip := d₁.chip.loaded i { frame with prio := BitVec.ofInt 2 prio } }) (and_bit_eq_zero i)
    have hbits : (fun j : Fin 3 => (1#8 <<< i.val).getLsbD j) = fun j => decide (j = i) :=
      funext (getLsbD_bit_eq i)
    rw [Driver.promised, hloaded, hbits] at hrequest
    rw [Transmitter.sendto, if_neg (Bool.not_eq_true _ ▸ hreq), ← hrank]
    exact Prod.ext rfl hrequest
  · rename_i hbusy
    have hreq : ¬ d.transmitter.requested i = false :=
      fun h => hbusy ((statusOfCtrl_eq_idle_iff _).2 h)
    obtain ⟨rfl, rfl⟩ := Prod.mk.inj (Option.some.inj hrun)
    rw [Transmitter.sendto, if_pos (Bool.not_eq_false _ ▸ hreq)]
    rfl

/-- `can_sendto` for any other index, if it has a result. -/
theorem eq_of_run_canSendto {n : ℤ} (hn : ∀ i : Fin 3, n ≠ i) {frame : CanFrame} {ret : ℤ}
    (hrun : (canSendto n frame).run exec d = some (ret, d')) : ret = -1 ∧ d' = d := by
  simp only [canSendto, txbStatus, mcp2515ReadReg, op, bind_eq, pure_eq, perform_bind, call_bind,
    ret_bind] at hrun
  rw [run_spi] at hrun
  split at hrun
  · obtain ⟨k, hk⟩ := getFramePriority_other hn frame.ident
    rw [hk] at hrun
    cases hrun
  · obtain ⟨rfl, rfl⟩ := Prod.mk.inj (Option.some.inj hrun)
    exact ⟨rfl, rfl⟩

/-- The address of a control register, for any index. -/
theorem val_txbctrl_int (n : ℤ) : ((toAddr (txbctrl n)).val : ℤ) = (n + 3) % 8 * 16 := by
  simp only [toAddr, txbctrl, BitVec.toNat_ofInt]
  omega

theorem transmitter_abortAt (i : Fin 3) (v : BitVec 8) (hv : v.getLsbD 3 = false)
    (hlow : v.setWidth 2 = d.chip.txp i) :
    ({ d with chip := d.chip.write (toAddr (txbctrl i)) v } : Driver).transmitter =
      { d.transmitter with requested := fun j => d.transmitter.requested j && decide (j ≠ i) } := by
  have hother : ∀ {a : Addr}, a ≠ toAddr (txbctrl i) → a.val % 16 < 14 →
      (d.chip.write (toAddr (txbctrl i)) v).reg a = d.chip.reg a := fun h hs =>
    Chip.reg_write_of_ne h hs
  refine Transmitter.ext (funext fun j => ?_) (funext fun j => ?_) (funext fun j => ?_)
    (funext fun j => funext fun k => ?_) rfl rfl rfl rfl
  · show Chip.requested _ j = (d.chip.requested j && decide (j ≠ i))
    by_cases hj : j = i
    · subst hj
      rw [Chip.requested, Chip.reg_write_txbctrl, BitVec.getLsbD_or, BitVec.getLsbD_and,
        BitVec.getLsbD_and, hv]
      simp
    · have hne : toAddr (txbctrl j) ≠ toAddr (txbctrl i) := fun hc => hj (Chip.txbctrl_injective hc)
      rw [Chip.requested, hother hne (Chip.status_of_concerned (Chip.concerned_txbctrl j)),
        decide_eq_true hj, Bool.and_true, Chip.requested]
  · show Chip.flagged _ j = Chip.flagged _ j
    rw [Chip.flagged, hother (Chip.txbctrl_ne_canintf i).symm (by decide), Chip.flagged]
  · show Chip.txp _ j = Chip.txp _ j
    by_cases hj : j = i
    · subst hj
      rw [← hlow, Chip.txp, Chip.reg_write_txbctrl]
      exact Chip.setWidth_two_congr (by simp) (by simp)
    · exact Chip.txp_of_reg (hother (fun hc => hj (Chip.txbctrl_injective hc))
        (Chip.status_of_concerned (Chip.concerned_txbctrl j)))
  · show Chip.txb _ j k = Chip.txb _ j k
    rw [Chip.txb, hother (Chip.txb_ne_txbctrl j i k.isLt)
      (Chip.status_of_concerned (Chip.concerned_txb j k.isLt)), Chip.txb]

/-- `can_abort`. -/
theorem transmitter_canAbort {n : ℤ} {u : Unit} (hrun : (canAbort n).run exec d = some (u, d')) :
    d'.transmitter = d.transmitter.abort n := by
  have hval := val_txbctrl_int n
  simp only [canAbort, abortTx, mcp2515BitModify, op, bind_eq, pure_eq, perform_bind] at hrun
  rw [run_spi] at hrun
  obtain ⟨-, rfl⟩ := Prod.mk.inj (Option.some.inj hrun)
  rw [Chip.spi_bitModify]
  by_cases hbuffer : ∃ i : Fin 3, (n - i) % 8 = 0
  · obtain ⟨i, hi⟩ := hbuffer
    have haddr : toAddr (txbctrl n) = toAddr (txbctrl i) := by
      have hvali := Chip.val_txbctrl i
      exact Fin.ext (by omega)
    rw [haddr]
    refine (transmitter_abortAt i _ ?_ ?_).trans ?_
    · simp [txbctrlTxreq]
    · rw [Chip.txp]
      exact Chip.setWidth_two_congr (by simp [txbctrlTxreq]) (by simp [txbctrlTxreq])
    · refine Transmitter.ext (funext fun j => ?_) rfl rfl rfl rfl rfl rfl rfl
      have hsame : j ≠ i ↔ (n - j) % 8 ≠ 0 := by
        rw [Ne, Fin.ext_iff]
        omega
      show (_ && decide (j ≠ i)) = (_ && decide ((n - j) % 8 ≠ 0))
      rw [decide_eq_decide.2 hsame]
  · have hnone : ∀ i : Fin 3, (n - i) % 8 ≠ 0 := fun i hi => hbuffer ⟨i, hi⟩
    have hconcerned : ¬ Chip.Concerned (toAddr (txbctrl n)) := by
      have h0 := hnone 0
      have h1 := hnone 1
      have h2 := hnone 2
      rintro (h | h)
      · have hc : ((toAddr canintf).val : ℤ) = 0x2C := rfl
        rw [h] at hval
        omega
      · simp at h0 h1 h2
        omega
    rw [transmitter_of_sameTx (Chip.sameTx_write _ hconcerned _)]
    refine Transmitter.ext (funext fun j => ?_) rfl rfl rfl rfl rfl rfl rfl
    show _ = (_ && decide ((n - j) % 8 ≠ 0))
    rw [decide_eq_true (hnone j), Bool.and_true]

/-- A frame has been sent. -/
theorem transmitter_sent {i : Fin 3} {chip : Chip} (h : d.chip.event (.sent i) = some chip) :
    d.transmitter.requested i = true ∧
      ({ d with chip := chip } : Driver).transmitter = d.transmitter.complete i := by
  have hsent := Chip.sent_of_event h
  refine ⟨hsent.was, Transmitter.ext (funext hsent.requested) (funext hsent.flagged)
    (funext fun j => ?_) (funext fun j => funext fun k => hsent.txb j k k.isLt) rfl rfl rfl rfl⟩
  simp only [Chip.event] at h
  split at h
  · cases h
    show Chip.txp _ j = Chip.txp _ j
    rw [Chip.txp, Chip.reg_set_of_ne (Chip.txbctrl_ne_canintf j)]
    by_cases hj : j = i
    · subst hj
      rw [Chip.reg_set_self, Chip.txp]
      exact Chip.setWidth_two_congr (by simp) (by simp)
    · rw [Chip.reg_set_of_ne fun hc => hj (Chip.txbctrl_injective hc), Chip.txp]
  · cases h

/-! ## Setting up -/

/-- An operation of `can_setup` after the reset. -/
inductive Op.Configures : Op → Prop
  | timing (v₁ v₂ v₃ : BitVec 8) : Configures (.spi [0x02, cnf3, v₁, v₂, v₃] 0)
  | interrupts (v : BitVec 8) : Configures (.spi [0x02, caninte, v] 0)
  | rxMode (v : BitVec 8) : Configures (.spi [0x05, rxbctrl 0, rxbctrlRxmMask, v] 0)
  | beside {o : Op} (h : o.Beside) : Configures o

theorem Op.Configures.transmitter {o : Op} {r : Ans o} (h : o.Configures)
    (hexec : exec o d = some (r, d')) : d'.transmitter = d.transmitter := by
  cases h with
  | timing v₁ v₂ v₃ =>
      obtain ⟨-, rfl⟩ := exec_spi hexec
      refine transmitter_of_sameTx (Chip.sameTx_writeFrom _ fun k hk => ?_)
      have hall : ∀ k : Fin 3, ¬ Chip.Concerned (toAddr cnf3 + Fin.ofNat 128 k) := by decide
      exact hall ⟨k, hk⟩
  | interrupts v =>
      obtain ⟨-, rfl⟩ := exec_spi hexec
      have hinte : ¬ Chip.Concerned (toAddr caninte) := by decide
      exact transmitter_of_sameTx (Chip.sameTx_write _ hinte _)
  | rxMode v =>
      obtain ⟨-, rfl⟩ := exec_spi hexec
      have hmode : ¬ Chip.Concerned (toAddr (rxbctrl 0)) := by decide
      exact transmitter_of_sameTx (Chip.sameTx_write _ hmode _)
  | beside h => exact h.transmitter hexec

theorem configures_awaitMode (mode : OpMode) (reads : ℕ) :
    (awaitMode mode reads).Every Op.Configures := by
  induction reads with
  | zero => exact (every_perform (.beside .undefined)).bind fun absurd => nomatch absurd
  | succ reads ih =>
      refine (beside_getMode.mono fun _ => .beside).bind fun current => ?_
      split
      · trivial
      · exact ih

theorem configures_setBaudrate (baudrate : BitVec 32) :
    (setBaudrate baudrate).Every Op.Configures := by
  unfold setBaudrate
  dsimp only
  split
  · exact (every_perform (.beside .undefined)).bind fun absurd => nomatch absurd
  · exact (every_perform (.timing _ _ _)).bind fun _ => trivial

/-- `can_setup` after the reset. -/
def configure (reads : ℕ) (baudrate : BitVec 32) : Io ℤ := do
  awaitMode .config reads
  setBaudrate baudrate
  enableIntrrupt
  setRxMode 0 .any
  setMode .normal
  return 0

theorem configures_configure (reads : ℕ) (baudrate : BitVec 32) :
    (configure reads baudrate).Every Op.Configures := by
  refine (configures_awaitMode .config reads).bind fun _ => ?_
  refine (configures_setBaudrate baudrate).bind fun _ => ?_
  have hinterrupts : enableIntrrupt.Every Op.Configures :=
    (every_perform (.interrupts _)).bind fun _ => trivial
  have hmode : (setRxMode 0 .any).Every Op.Configures := every_bitModify (.rxMode _)
  refine hinterrupts.bind fun _ => hmode.bind fun _ => ?_
  exact ((beside_setMode .normal).mono fun _ => .beside).bind fun _ => trivial

/-- A reset takes back all requests and flags, and leaves the bytes. -/
theorem transmitter_reset :
    ({ d with chip := d.chip.reset } : Driver).transmitter = d.transmitter.setup := by
  have hctrl : ∀ i : Fin 3, d.chip.reset.reg (toAddr (txbctrl i)) = 0 := by
    intro i
    fin_cases i <;> rfl
  refine Transmitter.ext (funext fun i => ?_) (funext fun i => ?_) (funext fun i => ?_)
    (funext fun i => funext fun k => ?_) rfl rfl rfl rfl
  · show Chip.requested _ i = false
    rw [Chip.requested, hctrl]
    rfl
  · show (0#8).getLsbD _ = false
    exact BitVec.getLsbD_zero
  · show Chip.txp _ i = 0
    rw [Chip.txp, hctrl]
    rfl
  · have hval := Chip.val_txb i k.isLt
    have hsame : ∀ (i : Fin 3) (k : Fin 13),
        d.chip.reset.reg (Fin.ofNat 128 (0x31 + 16 * i + k)) =
          d.chip.reg (Fin.ofNat 128 (0x31 + 16 * i + k)) := by
      intro i k
      fin_cases i <;> fin_cases k <;> rfl
    exact hsame i k

/-- `can_setup`. -/
theorem transmitter_canSetup {reads : ℕ} {baudrate : BitVec 32} {ret : ℤ}
    (hrun : (canSetup reads baudrate).run exec d = some (ret, d')) :
    d'.transmitter = d.transmitter.setup := by
  have hreset : (d.chip.spi [0xC0] 0).2 = d.chip.reset := rfl
  have hrun : (configure reads baudrate).run exec { d with chip := d.chip.reset } =
      some (ret, d') := hrun
  rw [← transmitter_reset]
  have hkeep : ∀ (o : Op) (d : Driver) (r : Ans o) (d' : Driver), o.Configures →
      exec o d = some (r, d') → d'.transmitter = d.transmitter := fun _ _ _ _ h => h.transmitter
  have htrans : ∀ d₁ d₂ d₃ : Driver, d₂.transmitter = d₁.transmitter →
      d₃.transmitter = d₂.transmitter → d₃.transmitter = d₁.transmitter :=
    fun _ _ _ h₁ h₂ => h₂.trans h₁
  exact (configures_configure reads baudrate).run (R := fun d d' => d'.transmitter = d.transmitter)
    (fun _ => rfl) htrans hkeep hrun

end Runs

end Can
end Tk1Bsp
