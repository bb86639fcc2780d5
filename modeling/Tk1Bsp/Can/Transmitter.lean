import Tk1Bsp.Can.Codec
import Tk1Bsp.Can.Device

/-!
# The transmit side as whole operations see it

Where each call and each run of the handler runs as a whole, all that matters of the driver is the
state of the three transmit buffers, the TX queue, `xmit_stopped`, the cache and the acknowledgements
(`Transmitter`).  Here the operations are functions on this state, without registers or loops over
SPI transactions, and the programs of the driver are shown to compute them.
-/

namespace Tk1Bsp
namespace Can

/-! ## The state -/

/-- The priority field of transmit buffer `i`. -/
def Chip.txp (c : Chip) (i : Fin 3) : BitVec 2 := (c.reg (toAddr (txbctrl i))).setWidth 2

/-- What matters of the driver for transmission. -/
@[ext] structure Transmitter where
  requested : Fin 3 → Bool
  flagged : Fin 3 → Bool
  txp : Fin 3 → BitVec 2
  content : Fin 3 → Fin 13 → BitVec 8
  queue : List CanFrame
  stopped : Bool
  cache : TxbCache
  acks : Fin 3 → ℕ

/-- The transmit side of the driver. -/
def Driver.transmitter (d : Driver) : Transmitter where
  requested := d.chip.requested
  flagged := d.chip.flagged
  txp := d.chip.txp
  content i k := d.chip.txb i k
  queue := d.queued .tx
  stopped := d.xmitStopped
  cache := d.txbCache
  acks := d.txbAck

namespace Transmitter

variable (t : Transmitter)

/-- Load a frame into a buffer, and set the priority. -/
def load (i : Fin 3) (frame : CanFrame) : Transmitter :=
  { t with
    content := Function.update t.content i fun k =>
      if k.val < frame.image.length then frame.image.getD k 0 else t.content i k
    txp := Function.update t.txp i frame.prio }

/-- Request the transmission of the buffers in a set. -/
def request (rts : Fin 3 → Bool) : Transmitter :=
  { t with requested := fun j => t.requested j || rts j }

/-- Forget the identifier of a buffer and acknowledge it. -/
def acknowledge (i : Fin 3) : Transmitter :=
  { t with
    cache := Function.update t.cache i .zero
    acks := Function.update t.acks i (t.acks i + 1) }

/-- What the handler does for a buffer whose flag was set. -/
def serve (i : Fin 3) : Transmitter :=
  match t.queue with
  | [] => { t.acknowledge i with stopped := true }
  | frame :: rest =>
      (({ t.acknowledge i with queue := rest } : Transmitter).load i frame).request fun j => j = i

/-- Serve the buffers of a list whose flag was set. -/
def serveAll (flags : Fin 3 → Bool) (is : List (Fin 3)) : Transmitter :=
  is.foldl (fun t i => if flags i then t.serve i else t) t

/-- The interrupt handler: the flagged buffers are served from the highest to the lowest. -/
def irq : Transmitter :=
  ({ t with flagged := fun _ => false } : Transmitter).serveAll t.flagged [2, 1, 0]

/-- Raise the flag of a buffer that does not wait to be sent. -/
def raise (i : Fin 3) : Transmitter :=
  if t.requested i then t
  else { t with flagged := fun j => t.flagged j || decide (j = i), stopped := false }

/-- `start_xmit`. -/
def startXmit : Transmitter := if t.stopped then [0, 1, 2].foldl raise t else t

/-- `can_send` into a queue with room. -/
def send (frame : CanFrame) : Transmitter :=
  ({ t with queue := t.queue ++ [frame] } : Transmitter).startXmit

/-- `get_frame_priority`. -/
def rank (b : Fin 3) (id : CanId) : ℤ × Transmitter :=
  if (t.cache b).isValid then (-1, t)
  else
    let cache := rankCache b id t.cache
    (((cache b).priority.toNat : ℤ), { t with
      cache := cache
      txp := fun j => if (cache j).isValid ∧ j ≠ b then (cache j).priority else t.txp j })

/-- `can_sendto` for a transmit buffer. -/
def sendto (i : Fin 3) (frame : CanFrame) : ℤ × Transmitter :=
  if t.requested i then (-1, t)
  else
    let ranked := t.rank i frame.ident
    (0, (ranked.2.load i { frame with prio := BitVec.ofInt 2 ranked.1 }).request fun j => j = i)

/-- `can_abort`: the address of a control register repeats every eight buffers. -/
def abort (n : ℤ) : Transmitter :=
  { t with requested := fun j => t.requested j && decide ((n - j) % 8 ≠ 0) }

/-- The frame in a buffer has been sent. -/
def complete (i : Fin 3) : Transmitter :=
  { t with
    requested := fun j => t.requested j && decide (j ≠ i)
    flagged := fun j => t.flagged j || decide (j = i) }

/-- `can_setup`. -/
def setup : Transmitter :=
  { t with requested := fun _ => false, flagged := fun _ => false, txp := fun _ => 0 }

/-! ### What the operations do -/

variable {t} {frame : CanFrame} {flags : Fin 3 → Bool} {i j : Fin 3} {is : List (Fin 3)}

theorem serve_of_nil (h : t.queue = []) : t.serve i = { t.acknowledge i with stopped := true } := by
  simp only [serve, h]

theorem serve_of_cons {rest : List CanFrame} (h : t.queue = frame :: rest) :
    t.serve i =
      (({ t.acknowledge i with queue := rest } : Transmitter).load i frame).request fun j => j = i := by
  simp only [serve, h]

@[simp] theorem cache_serve : (t.serve i).cache = Function.update t.cache i .zero := by
  unfold serve
  split <;> rfl

@[simp] theorem queue_serve : (t.serve i).queue = t.queue.tail := by
  cases hqueue : t.queue with
  | nil => rw [serve_of_nil hqueue]; exact hqueue
  | cons frame rest => rw [serve_of_cons hqueue]; rfl

@[simp] theorem stopped_serve : (t.serve i).stopped = (t.stopped || t.queue.isEmpty) := by
  cases hqueue : t.queue with
  | nil => rw [serve_of_nil hqueue]; exact (Bool.or_true _).symm
  | cons frame rest => rw [serve_of_cons hqueue]; exact (Bool.or_false _).symm

@[simp] theorem requested_serve :
    (t.serve i).requested j = (t.requested j || (!t.queue.isEmpty && decide (j = i))) := by
  cases hqueue : t.queue with
  | nil => rw [serve_of_nil hqueue]; exact (Bool.or_false _).symm
  | cons frame rest => rw [serve_of_cons hqueue]; rfl

@[simp] theorem serveAll_nil : t.serveAll flags [] = t := rfl

theorem serveAll_cons :
    t.serveAll flags (i :: is) = (if flags i then t.serve i else t).serveAll flags is := rfl

/-- What serving a buffer keeps, serving some of them keeps. -/
theorem serveAll_rec {P : Transmitter → Prop} (hserve : ∀ t i, P t → P (t.serve i)) (h : P t) :
    P (t.serveAll flags is) := by
  induction is generalizing t with
  | nil => exact h
  | cons i is ih =>
      rw [serveAll_cons]
      apply ih
      split
      · exact hserve t i h
      · exact h

theorem requested_serveAll (h : t.requested j = true) :
    (t.serveAll flags is).requested j = true :=
  serveAll_rec (P := fun t => t.requested j = true)
    (fun t i h => by rw [requested_serve, h, Bool.true_or]) h

theorem stopped_serveAll (h : t.stopped = true) : (t.serveAll flags is).stopped = true :=
  serveAll_rec (P := fun t => t.stopped = true)
    (fun t i h => by rw [stopped_serve, h, Bool.true_or]) h

theorem queue_serveAll (h : t.queue = []) : (t.serveAll flags is).queue = [] :=
  serveAll_rec (P := fun t => t.queue = []) (fun t i h => by rw [queue_serve, h, List.tail_nil]) h

/-- While there were frames for all of them, the flagged buffers are requested again. -/
theorem requested_serveAll_of_flags
    (hframes : (t.serveAll flags is).stopped = false ∨ (t.serveAll flags is).queue ≠ [])
    (hmem : i ∈ is) (hflag : flags i = true) : (t.serveAll flags is).requested i = true := by
  induction is generalizing t with
  | nil => cases hmem
  | cons k is ih =>
      rw [serveAll_cons] at hframes ⊢
      rcases List.mem_cons.1 hmem with rfl | hmem
      · rw [if_pos hflag] at hframes ⊢
        apply requested_serveAll
        cases hqueue : t.queue with
        | nil =>
            have hstopped : (t.serve i).stopped = true := by
              rw [stopped_serve, hqueue]
              exact Bool.or_true _
            have hnil : (t.serve i).queue = [] := by rw [queue_serve, hqueue, List.tail_nil]
            rcases hframes with h | h
            · rw [stopped_serveAll hstopped] at h
              cases h
            · exact absurd (queue_serveAll hnil) h
        | cons frame rest => simp [hqueue]
      · exact ih hframes hmem

theorem requested_irq (h : t.requested j = true) : t.irq.requested j = true := by
  unfold irq
  exact requested_serveAll h

theorem stopped_irq (h : t.stopped = true) : t.irq.stopped = true := by
  unfold irq
  exact stopped_serveAll h

theorem queue_irq (h : t.queue = []) : t.irq.queue = [] := by
  unfold irq
  exact queue_serveAll h

/-- The handler only takes frames out of the queue. -/
theorem mem_queue_irq (h : frame ∈ t.irq.queue) : frame ∈ t.queue := by
  revert h
  unfold irq
  refine serveAll_rec (P := fun t' => frame ∈ t'.queue → frame ∈ t.queue) (fun t' i ht' h => ?_) id
  rw [queue_serve] at h
  exact ht' (List.mem_of_mem_tail h)

theorem requested_irq_of_flagged (hframes : t.irq.stopped = false ∨ t.irq.queue ≠ [])
    (hflag : t.flagged i = true) : t.irq.requested i = true := by
  have hall : ∀ i : Fin 3, i ∈ ([2, 1, 0] : List (Fin 3)) := by decide
  exact requested_serveAll_of_flags hframes (hall i) hflag

/-- The flag is raised, and the service resumed, unless the buffer waits to be sent. -/
theorem raise_eq (t : Transmitter) (i : Fin 3) : t.raise i = { t with
    flagged := fun j => t.flagged j || (decide (j = i) && !t.requested i)
    stopped := t.stopped && t.requested i } := by
  unfold raise
  split
  · rename_i hreq
    simp [hreq]
  · rename_i hreq
    simp [hreq]

theorem foldl_raise : is.foldl raise t = { t with
    flagged := fun j => t.flagged j || (decide (j ∈ is) && !t.requested j)
    stopped := t.stopped && is.all t.requested } := by
  induction is generalizing t with
  | nil => simp
  | cons i is ih =>
      rw [List.foldl_cons, ih, raise_eq]
      refine Transmitter.ext rfl (funext fun j => ?_) rfl rfl rfl ?_ rfl rfl
      · by_cases hj : j = i
        · subst hj
          by_cases hreq : t.requested j = true <;> simp [hreq]
        · simp [hj]
      · simp [Bool.and_assoc]

/-- `start_xmit` raises the flags of all buffers that do not wait to be sent. -/
theorem startXmit_eq : t.startXmit = { t with
    flagged := fun j => t.flagged j || (t.stopped && !t.requested j)
    stopped := t.stopped && [0, 1, 2].all t.requested } := by
  have hall : ∀ j : Fin 3, j ∈ ([0, 1, 2] : List (Fin 3)) := by decide
  unfold startXmit
  split
  · rename_i hstopped
    rw [foldl_raise]
    simp only [hall, hstopped, decide_true, Bool.true_and]
  · rename_i hstopped
    simp only [Bool.not_eq_true] at hstopped
    exact Transmitter.ext rfl (funext fun j => by simp [hstopped]) rfl rfl rfl (by simp [hstopped])
      rfl rfl

/-- `can_send` queues the frame and may raise flags. -/
theorem send_eq : t.send frame = { t with
    queue := t.queue ++ [frame]
    flagged := fun j => t.flagged j || (t.stopped && !t.requested j)
    stopped := t.stopped && [0, 1, 2].all t.requested } := startXmit_eq

theorem rank_snd (b : Fin 3) (id : CanId) :
    (t.rank b id).2 = { t with cache := (t.rank b id).2.cache, txp := (t.rank b id).2.txp } := by
  unfold rank
  split <;> rfl

theorem sendto_of_requested (h : t.requested i = true) : t.sendto i frame = (-1, t) := if_pos h

theorem sendto_of_not_requested (h : t.requested i = false) :
    t.sendto i frame = (0, ((t.rank i frame.ident).2.load i
      { frame with prio := BitVec.ofInt 2 (t.rank i frame.ident).1 }).request fun j => j = i) :=
  if_neg (Bool.not_eq_true _ ▸ h)

theorem queue_sendto (t : Transmitter) (i : Fin 3) (frame : CanFrame) :
    (t.sendto i frame).2.queue = t.queue := by
  cases hreq : t.requested i with
  | true => rw [sendto_of_requested hreq]
  | false =>
      rw [sendto_of_not_requested hreq, rank_snd]
      rfl

end Transmitter

/-! ## What concerns the transmit side -/

namespace Chip

variable {c c' : Chip}

/-- The priority field is the lowest two bits. -/
theorem setWidth_two_congr {v w : BitVec 8} (h0 : v.getLsbD 0 = w.getLsbD 0)
    (h1 : v.getLsbD 1 = w.getLsbD 1) : v.setWidth 2 = (w.setWidth 2 : BitVec 2) := by
  apply BitVec.eq_of_getLsbD_eq
  intro k hk
  have hcases : k = 0 ∨ k = 1 := by omega
  rcases hcases with rfl | rfl
  · simpa using h0
  · simpa using h1

/-- The same transmit buffers and flags. -/
structure SameTx (c c' : Chip) : Prop extends c.Agrees c' where
  txp : ∀ i, c'.txp i = c.txp i

theorem SameTx.refl (c : Chip) : c.SameTx c := ⟨.refl c, fun _ => rfl⟩

theorem txp_of_reg {i : Fin 3} (h : c'.reg (toAddr (txbctrl i)) = c.reg (toAddr (txbctrl i))) :
    c'.txp i = c.txp i := by
  rw [txp, txp, h]

theorem sameTx_of_reg (h : ∀ a, Concerned a → c'.reg a = c.reg a) : c.SameTx c' :=
  ⟨agrees_of_reg h, fun i => txp_of_reg (h _ (concerned_txbctrl i))⟩

/-- Writing any other register. -/
theorem sameTx_write (c : Chip) {a : Addr} (h : ¬ Concerned a) (v : BitVec 8) :
    c.SameTx (c.write a v) :=
  sameTx_of_reg fun _ hb => reg_write_of_ne (fun hab => h (hab ▸ hb)) (status_of_concerned hb)

theorem txp_write_canintf (c : Chip) (v : BitVec 8) (i : Fin 3) :
    (c.write (toAddr canintf) v).txp i = c.txp i :=
  txp_of_reg (reg_write_canintf_of_ne c v (txbctrl_ne_canintf i))

theorem sameTx_writeFrom (c : Chip) {a : Addr} {vs : List (BitVec 8)}
    (h : ∀ k < vs.length, ¬ Concerned (a + Fin.ofNat 128 k)) : c.SameTx (c.writeFrom a vs) := by
  refine sameTx_of_reg fun b hb => ?_
  induction vs generalizing c a with
  | nil => rfl
  | cons v vs ih =>
      have hfirst : b ≠ a := fun hba => h 0 (Nat.zero_lt_succ _) (by simpa using hba ▸ hb)
      rw [writeFrom, ih]
      · exact reg_write_of_ne hfirst (status_of_concerned hb)
      · intro k hk
        have hsum : a + 1 + Fin.ofNat 128 k = a + Fin.ofNat 128 (k + 1) := by
          apply Fin.ext
          simp only [Fin.val_add, Fin.ofNat]
          omega
        rw [hsum]
        exact h (k + 1) (Nat.succ_lt_succ hk)

end Chip

section Keeps

variable {d d' : Driver}

theorem transmitter_of_sameTx {chip : Chip} (h : d.chip.SameTx chip) :
    ({ d with chip := chip } : Driver).transmitter = d.transmitter :=
  Transmitter.ext (funext h.requested) (funext h.flagged) (funext h.txp)
    (funext fun i => funext fun k => h.txb i k k.isLt) rfl rfl rfl rfl

theorem Op.Beside.transmitter {o : Op} {r : Ans o} (h : o.Beside) (hexec : exec o d = some (r, d')) :
    d'.transmitter = d.transmitter := by
  cases h with
  | read reg n =>
      obtain ⟨-, rfl⟩ := exec_spi hexec
      exact transmitter_of_sameTx (.refl _)
  | readRxb n =>
      obtain ⟨-, rfl⟩ := exec_spi hexec
      exact transmitter_of_sameTx ⟨Chip.agrees_readRxb _ n, Chip.txp_write_canintf _ _⟩
  | mode val =>
      obtain ⟨-, rfl⟩ := exec_spi hexec
      have hctrl : ¬ Chip.Concerned (toAddr canctrl) := by decide
      exact transmitter_of_sameTx (Chip.sameTx_write _ hctrl _)
  | flags mask h =>
      obtain ⟨-, rfl⟩ := exec_spi hexec
      exact transmitter_of_sameTx ⟨Chip.agrees_clear_of_and_eq _ h, Chip.txp_write_canintf _ _⟩
  | errors mask =>
      obtain ⟨-, rfl⟩ := exec_spi hexec
      have heflg : ¬ Chip.Concerned (toAddr eflg) := by decide
      exact transmitter_of_sameTx (Chip.sameTx_write _ heflg _)
  | intAck =>
      obtain ⟨-, rfl⟩ := Prod.mk.inj (Option.some.inj hexec)
      rfl
  | undefined => cases hexec

theorem Op.Rx.transmitter {o : Op} {r : Ans o} (h : o.Rx) (hapart : d.Apart)
    (hexec : exec o d = some (r, d')) : d'.transmitter = d.transmitter := by
  have hne : QueueId.tx ≠ QueueId.rx := by decide
  cases h with
  | mqIsFull | mqIsEmpty | queueLockPost =>
      obtain ⟨-, rfl⟩ := Prod.mk.inj (Option.some.inj hexec)
      rfl
  | mqAppend frame =>
      obtain ⟨-, rfl⟩ := Prod.mk.inj (Option.some.inj hexec)
      exact Transmitter.ext rfl rfl rfl rfl (queued_mqAppendMsg_of_ne hapart hne frame) rfl rfl rfl
  | mqRemove =>
      obtain ⟨-, rfl⟩ := Prod.mk.inj (Option.some.inj hexec)
      exact Transmitter.ext rfl rfl rfl rfl (queued_mqRemoveMsg_of_ne hne) rfl rfl rfl
  | queueLockWait =>
      simp only [exec] at hexec
      split at hexec
      · cases hexec
      · obtain ⟨-, rfl⟩ := Prod.mk.inj (Option.some.inj hexec)
        rfl

/-- No program moves a queue. -/
theorem Driver.Apart.run {α : Type} {p : Io α} {a : α} (h : d.Apart)
    (hrun : p.run Can.exec d = some (a, d')) : d'.Apart := by
  have hall : p.Every fun _ => True := by
    clear hrun
    induction p with
    | ret a => trivial
    | call o k ih => exact ⟨trivial, ih⟩
  have hstep : ∀ (o : Op) (d : Driver) (r : Ans o) (d' : Driver), True →
      Can.exec o d = some (r, d') → d.Apart → d'.Apart := fun _ _ _ _ _ hexec h => h.exec hexec
  exact hall.run (R := fun d d' => d.Apart → d'.Apart) (fun _ => id)
    (fun _ _ _ h₁ h₂ h => h₂ (h₁ h)) hstep hrun h

/-- A program for errors or reception leaves the transmit side alone. -/
theorem run_beside {α : Type} {p : Io α} {a : α} (hp : p.Every fun o => o.Beside ∨ o.Rx)
    (hapart : d.Apart) (hrun : p.run exec d = some (a, d')) : d'.transmitter = d.transmitter := by
  refine (hp.run (R := fun d d' => d.Apart → d'.Apart ∧ d'.transmitter = d.transmitter)
    (fun _ h => ⟨h, rfl⟩) (fun d₁ d₂ d₃ h₁₂ h₂₃ h => ?_) (fun o d r d' ho hexec h => ?_) hrun hapart).2
  · obtain ⟨h₂, heq₂⟩ := h₁₂ h
    obtain ⟨h₃, heq₃⟩ := h₂₃ h₂
    exact ⟨h₃, heq₃.trans heq₂⟩
  · exact ⟨h.exec hexec, ho.elim (fun ho => ho.transmitter hexec) fun ho => ho.transmitter h hexec⟩

end Keeps

/-! ## Loads, priorities and requests -/

namespace Chip

variable (c : Chip)

theorem txp_priority (i j : Fin 3) (val : BitVec 8) :
    (c.spi [0x05, txbctrl i, txbctrlTxpMask, val] 0).2.txp j =
      if j = i then val.setWidth 2 else c.txp j := by
  rw [spi_bitModify]
  by_cases h : j = i
  · subst h
    rw [if_pos rfl, txp, reg_write_txbctrl]
    exact setWidth_two_congr (by simp [txbctrlTxpMask]) (by simp [txbctrlTxpMask])
  · have hne : toAddr (txbctrl j) ≠ toAddr (txbctrl i) := fun hc => h (txbctrl_injective hc)
    rw [if_neg h]
    exact txp_of_reg (reg_write_of_ne hne (status_of_concerned (concerned_txbctrl j)))

theorem txp_load (i j : Fin 3) {buf : List (BitVec 8)} (hbuf : buf.length ≤ 13) :
    (c.spi ((0x40 ||| (BitVec.ofInt 8 i * 2 ||| 0)) :: buf) 0).2.txp j = c.txp j := by
  have := val_txbctrl j
  refine txp_of_reg ?_
  rw [reg_load c i hbuf, if_neg (by omega)]

theorem txp_request (i j : Fin 3) : (c.request i).txp j = c.txp j := by
  by_cases h : j = i
  · subst h
    rw [txp, request, reg_set_self, txp]
    exact setWidth_two_congr (by simp [txbctrlTxreq]) (by simp [txbctrlTxreq])
  · exact txp_of_reg (reg_set_of_ne fun hc => h (txbctrl_injective hc))

theorem txp_requestAll (mask : BitVec 8) (j : Fin 3) : (c.requestAll mask).txp j = c.txp j := by
  exact requestAll_of_request c (fun c => c.txp j) fun c i _ => txp_request c i j

theorem txp_rts {mask : BitVec 8} (h : mask &&& 0xF8 = 0) (j : Fin 3) :
    (c.spi [0x80 ||| mask] 0).2.txp j = c.txp j := by
  rw [spi_rts c h]
  exact txp_requestAll c _ j

end Chip

section Runs

open Prog

variable {d d' : Driver}

/-- `load_txb`. -/
theorem transmitter_loaded (i : Fin 3) {frame : CanFrame} (h : frame.dlc.toNat ≤ 8) :
    ({ d with chip := d.chip.loaded i frame } : Driver).transmitter = d.transmitter.load i frame := by
  have hlen : frame.image.length ≤ 13 := by
    rw [length_image frame h]
    omega
  have hprio := Chip.agrees_priority (d.chip.spi
    ((0x40 ||| (BitVec.ofInt 8 i * 2 ||| 0)) :: frame.image) 0).2 i (frame.prio.setWidth 8)
  refine Transmitter.ext ?_ ?_ ?_ ?_ rfl rfl rfl rfl
  · exact funext fun j => (hprio.requested j).trans (Chip.requested_load _ i j hlen)
  · exact funext fun j => (hprio.flagged j).trans (Chip.flagged_load _ i j hlen)
  · funext j
    show Chip.txp (Chip.loaded _ i frame) j = Function.update d.chip.txp i frame.prio j
    rw [Chip.loaded, Chip.txp_priority, Chip.txp_load _ i j hlen, Function.update_apply,
      BitVec.setWidth_setWidth_of_le _ (by decide), BitVec.setWidth_eq]
  · funext j k
    show Chip.txb (Chip.loaded _ i frame) j k.val = Function.update d.transmitter.content i
      (fun k => if k.val < frame.image.length then frame.image.getD k 0 else d.chip.txb i k) j k
    rw [txb_loaded _ i j h k.isLt]
    by_cases hj : j = i
    · subst hj
      simp only [Function.update_self, true_and]
    · rw [Function.update_of_ne hj, if_neg fun h => hj h.1]
      rfl

end Runs

end Can
end Tk1Bsp
