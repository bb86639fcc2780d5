import Tk1Bsp.Can.Clearing
import Tk1Bsp.Can.Overrun
import Tk1Bsp.Can.Ranking

/-!
# The indices of the clients

Five calls pass an index of the client on to the address macros, unchecked.  `Confined` says what
such a call may do to the registers and to the cache: an index is good for the buffer or the filter
that it names, and for nothing else.  With an index that is right, a call can still write other
registers: `can_sendto` those behind the buffer, if the frame is too long, and the priority of a
buffer whose entry is in the cache although nothing is pending in it; and `can_clear_filter` those of
another filter.
-/

namespace Tk1Bsp
namespace Can

open Prog

/-- `can_sendto`, where the copy of `load_txb` goes on behind the payload. -/
def canSendtoOver (behind : Behind) (txbIdx : ℤ) (frame : CanFrame) : Io ℤ := do
  let status ← txbStatus txbIdx
  if status = .idle then do
    let prio ← getFramePriority txbIdx frame.ident
    loadTxbOver behind txbIdx { frame with prio := BitVec.ofInt 2 prio }
    mcp2515Rts (1#8 <<< txbIdx.toNat)
    return 0
  else return -1

theorem canSendtoOver_of_short {behind : Behind} (txbIdx : ℤ) {frame : CanFrame}
    (h : frame.Short) : canSendtoOver behind txbIdx frame = canSendto txbIdx frame := by
  have hload : ∀ prio, loadTxbOver behind txbIdx { frame with prio := prio } =
      loadTxb txbIdx { frame with prio := prio } := fun prio =>
    @loadTxbOver_of_short behind txbIdx { frame with prio := prio } h
  simp only [canSendtoOver, canSendto, hload]

/-- `can_status`. -/
def canStatus (txbIdx : ℤ) : Io TxbStatus := txbStatus txbIdx

/-- The calls that take an index. -/
inductive IndexCall
  | sendto (n : ℤ) (frame : CanFrame)
  | abort (n : ℤ)
  | status (n : ℤ)
  | recvRxb (n : ℤ) (frame : CanFrame)
  | clearFilter (n : ℤ)

/-! ## What an instruction writes -/

/-- A number of registers, from one on. -/
def addrsFrom (a : Addr) (count : ℕ) : List Addr :=
  (List.range count).map fun k => Fin.ofNat 128 (a.val + k)

/-- The registers that a transaction writes, with the bits that it can change.  The controller
clears a receive flag by itself when the buffer is read. -/
def spiWrites (txbuf : List (BitVec 8)) : List (Addr × BitVec 8) :=
  match txbuf with
  | [] => []
  | cmd :: rest =>
      if cmd = 0xC0 then (List.finRange 128).map fun a => (a, 0xFF)
      else if cmd = 0x03 then []
      else if cmd = 0x02 then
        match rest with
        | a :: vs => (addrsFrom (toAddr a) vs.length).map fun a => (a, 0xFF)
        | [] => []
      else if cmd = 0x05 then
        match rest with
        | [a, m, _] => [(toAddr a, m)]
        | _ => []
      else if cmd &&& 0xF8 = 0x80 then
        ((List.finRange 3).filter fun i : Fin 3 => cmd.getLsbD i).map fun i : Fin 3 =>
          (toAddr (txbctrl i), txbctrlTxreq)
      else if cmd &&& 0xF9 = 0x90 then []
      else if cmd &&& 0xF8 = 0x40 ∧ cmd &&& 0x07 < 6 then
        let start : Addr := 0x31 + Fin.ofNat 128 (16 * ((cmd &&& 0x07).toNat / 2)) +
          if cmd.getLsbD 0 then 5 else 0
        (addrsFrom start rest.length).map fun a => (a, 0xFF)
      else []

/-- The registers that an operation writes. -/
def Op.writes : Op → List (Addr × BitVec 8)
  | .spi txbuf _ => spiWrites txbuf
  | _ => []

namespace Chip

variable {c : Chip} {a : Addr}

theorem reg_writeFrom_of_not_mem {vs : List (BitVec 8)} (hstatus : a.val % 16 < 14) {b : Addr}
    (h : ∀ k < vs.length, (b.val + k) % 128 ≠ a.val) : (c.writeFrom b vs).reg a = c.reg a := by
  induction vs generalizing c b with
  | nil => rfl
  | cons v vs ih =>
      have hfirst : a ≠ b := by
        rintro rfl
        exact h 0 (Nat.succ_pos _) (Nat.mod_eq_of_lt a.isLt)
      rw [writeFrom, ih fun k hk => ?_, reg_write_of_ne hfirst hstatus]
      have hnext := h (k + 1) (Nat.succ_lt_succ hk)
      have hval : (b + 1).val = (b.val + 1) % 128 := Fin.val_add b 1
      omega

theorem reg_writeFrom_of_addrsFrom {vs : List (BitVec 8)} (hstatus : a.val % 16 < 14) {b : Addr}
    (h : ∀ w ∈ (addrsFrom b vs.length).map fun a => (a, (0xFF : BitVec 8)), w.1 ≠ a) :
    (c.writeFrom b vs).reg a = c.reg a := by
  refine reg_writeFrom_of_not_mem hstatus fun k hk hval => ?_
  exact h _ (List.mem_map_of_mem (List.mem_map_of_mem (List.mem_range.2 hk))) (Fin.ext hval)

/-- A transaction changes no register but those it writes, the mode, and the interrupt flags. -/
theorem reg_spi_of_not_written {txbuf : List (BitVec 8)} (n : ℕ) (hstatus : a.val % 16 < 14)
    (hflags : a ≠ toAddr canintf) (h : ∀ w ∈ spiWrites txbuf, w.1 ≠ a) :
    (c.spi txbuf n).2.reg a = c.reg a := by
  cases txbuf with
  | nil => rfl
  | cons cmd rest =>
      unfold spiWrites at h
      unfold spi
      dsimp only at h ⊢
      by_cases hreset : cmd = 0xC0
      · rw [if_pos hreset] at h
        exact absurd rfl (h (a, 0xFF) (List.mem_map_of_mem (List.mem_finRange a)))
      rw [if_neg hreset] at h ⊢
      by_cases hread : cmd = 0x03
      · rw [if_pos hread]
        cases rest <;> rfl
      rw [if_neg hread] at h ⊢
      by_cases hwrite : cmd = 0x02
      · rw [if_pos hwrite] at h ⊢
        cases rest with
        | nil => rfl
        | cons b vs => exact reg_writeFrom_of_addrsFrom hstatus h
      rw [if_neg hwrite] at h ⊢
      by_cases hmodify : cmd = 0x05
      · rw [if_pos hmodify] at h ⊢
        -- only a command with three bytes after it changes a register
        rcases rest with _ | ⟨b, _ | ⟨m, _ | ⟨v, _ | ⟨w, ws⟩⟩⟩⟩
        case cons.cons.cons.nil =>
          exact reg_write_of_ne (h _ (List.mem_singleton.2 rfl)).symm hstatus
        all_goals rfl
      rw [if_neg hmodify] at h ⊢
      by_cases hrts : cmd &&& 0xF8 = 0x80
      · rw [if_pos hrts] at h ⊢
        refine reg_requestAll_of_ne c cmd fun i hi => ?_
        have hmem : i ∈ (List.finRange 3).filter fun i : Fin 3 => cmd.getLsbD i :=
          List.mem_filter.2 ⟨List.mem_finRange i, hi⟩
        exact (h _ (List.mem_map_of_mem hmem)).symm
      rw [if_neg hrts] at h ⊢
      by_cases hrxb : cmd &&& 0xF9 = 0x90
      · rw [if_pos hrxb]
        exact reg_write_of_ne hflags hstatus
      rw [if_neg hrxb] at h ⊢
      by_cases hload : cmd &&& 0xF8 = 0x40 ∧ cmd &&& 0x07 < 6
      · rw [if_pos hload] at h ⊢
        exact reg_writeFrom_of_addrsFrom hstatus h
      · rw [if_neg hload]

end Chip

/-- An operation changes no register of the controller but those it writes, the mode, and the
interrupt flags. -/
theorem reg_exec_of_not_written {o : Op} {d d' : Driver} {r : Ans o} {a : Addr}
    (hstatus : a.val % 16 < 14) (hflags : a ≠ toAddr canintf) (h : ∀ w ∈ o.writes, w.1 ≠ a)
    (hexec : exec o d = some (r, d')) : d'.chip.reg a = d.chip.reg a := by
  cases o with
  | spi txbuf n =>
      obtain ⟨-, rfl⟩ := exec_spi hexec
      exact Chip.reg_spi_of_not_written n hstatus hflags h
  | spinWhileNonzero reg =>
      simp only [exec] at hexec
      split at hexec
      · obtain ⟨-, rfl⟩ := Prod.mk.inj (Option.some.inj hexec)
        rfl
      · cases hexec
  | txbLock | queueLockWait =>
      simp only [exec] at hexec
      split at hexec
      · cases hexec
      · obtain ⟨-, rfl⟩ := Prod.mk.inj (Option.some.inj hexec)
        rfl
  | mqAppend q frame | mqRemove q =>
      obtain ⟨-, rfl⟩ := Prod.mk.inj (Option.some.inj hexec)
      cases q <;> rfl
  | undefined => cases hexec
  | mqIsFull | mqIsEmpty | txbCache | getXmitStopped | setXmitStopped | txbUnlock | queueLockPost
  | txbAck | intAck =>
      obtain ⟨-, rfl⟩ := Prod.mk.inj (Option.some.inj hexec)
      rfl

/-! ## What a call may do -/

/-- A register of the buffers, the filters and masks, the bit timing or the interrupt enables. -/
def Guarded (a : Addr) : Prop :=
  Chip.isFilter a ∨ Chip.isTiming a ∨ a = toAddr caninte ∨ (0x30 ≤ a.val ∧ a.val % 16 < 14)

namespace IndexCall

/-- The call, without what it returns. -/
def program (behind : Behind) : IndexCall → Io Unit
  | sendto n frame => do let _ ← canSendtoOver behind n frame
  | abort n => canAbort n
  | status n => do let _ ← canStatus n
  | recvRxb n frame => do let _ ← canRecvRxb n frame
  | clearFilter n => canClearFilter n

/-- The index names a buffer or a filter. -/
def Named : IndexCall → Prop
  | sendto n _ | abort n | status n => ∃ i : Fin 3, n = i
  | recvRxb n _ => ∃ i : Fin 2, n = i
  | clearFilter n => ∃ i : Fin 6, n = i

/-- A register of the transmit buffer, or of the filter and its mask, that the index names. -/
def Own : IndexCall → Addr → Prop
  | sendto n _, a | abort n, a | status n, a =>
      ∃ i : Fin 3, n = i ∧ 0x30 + 16 * i.val ≤ a.val ∧ a.val < 0x3E + 16 * i
  | recvRxb _ _, _ => False
  | clearFilter n, a => ∃ i : Fin 6, n = i ∧
      (InBlock (toAddr (rxfsidh (hardwareSlot i))) a ∨ InBlock (toAddr (rxmsidh (bankOf i))) a)

/-- Such a register, the mode in `CANCTRL`, or the priority field of a pending buffer. -/
def MayWrite (c : IndexCall) (d : Driver) (w : Addr × BitVec 8) : Prop :=
  c.Own w.1 ∨ (w.1 = toAddr canctrl ∧ w.2 &&& ~~~0xE0 = 0) ∨
    ∃ k : Fin 3, w.1 = toAddr (txbctrl k) ∧ d.chip.requested k = true ∧
      w.2 &&& ~~~txbctrlTxpMask = 0

/-- The cache is used at an index inside of it, or not at all. -/
def CacheInBounds (d : Driver) : IndexCall → Prop
  | sendto n frame => ∀ d', (txbStatus n).run exec d = some (.idle, d') →
      Op.undefined ∉ (getFramePriority n frame.ident).trace exec d'
  | c => ∀ behind f, Op.txbCache f ∉ (c.program behind).trace exec d

/-- A call stays with the buffer or the filter that its index names, whatever is in memory behind its
frame. -/
structure Confined (c : IndexCall) (d : Driver) : Prop where
  cache : c.CacheInBounds d
  writes : ∀ behind, ∀ o ∈ (c.program behind).trace exec d, ∀ w ∈ o.writes, c.MayWrite d w
  unnamed : ¬ c.Named → ∀ behind d', (c.program behind).run exec d = some ((), d') →
    ∀ a, Guarded a → d'.chip.reg a = d.chip.reg a

/-- The register that `can_sendto` takes for the control register of the buffer reads as busy; or the
index names a buffer, the frame is short, and the entry of the buffer is in the cache or those of the
other buffers are there for pending ones only.  The index of `can_abort` names a buffer, and that of
`can_clear_filter` one of the first three filters. -/
def Safe (d : Driver) : IndexCall → Prop
  | sendto n frame => d.chip.read (toAddr (txbctrl n)) &&& txbctrlTxreq ≠ 0 ∨
      ∃ i : Fin 3, n = i ∧ frame.Short ∧ ((d.txbCache i).isValid = false →
        ∀ k ≠ i, (d.txbCache k).isValid = true → d.chip.requested k = true)
  | abort n => ∃ i : Fin 3, n = i
  | status _ | recvRxb _ _ => True
  | clearFilter n => n = 0 ∨ n = 1 ∨ n = 2

end IndexCall

/-! ## Calls that write nothing -/

section Quiet

variable {d d' : Driver} {n : ℤ}

theorem Guarded.status {a : Addr} (h : Guarded a) : a.val % 16 < 14 ∧ a ≠ toAddr canintf := by
  have hinte : (toAddr caninte).val = 0x2B := rfl
  have hintf : (toAddr canintf).val = 0x2C := rfl
  unfold Guarded Chip.isFilter Chip.isTiming at h
  rw [Ne, Fin.ext_iff, hintf]
  rw [Fin.ext_iff, hinte] at h
  omega

/-- A program that writes nothing leaves the registers alone. -/
theorem reg_run_of_every {α : Type} {p : Io α} {r : α} (hp : p.Every fun o => o.writes = [])
    (hrun : p.run exec d = some (r, d')) {a : Addr} (ha : Guarded a) :
    d'.chip.reg a = d.chip.reg a := by
  have htrans : ∀ d₁ d₂ d₃ : Driver, d₂.chip.reg a = d₁.chip.reg a → d₃.chip.reg a = d₂.chip.reg a →
      d₃.chip.reg a = d₁.chip.reg a := fun _ _ _ h₁ h₂ => h₂.trans h₁
  refine hp.run (R := fun d d' => d'.chip.reg a = d.chip.reg a) (fun _ => rfl) htrans
    (fun o s r s' hnone hexec => ?_) hrun
  refine reg_exec_of_not_written ha.status.1 ha.status.2 (fun w hw => ?_) hexec
  rw [hnone] at hw
  cases hw

theorem run_txbStatus (n : ℤ) (d : Driver) : (txbStatus n).run exec d =
    some (statusOfCtrl (d.chip.read (toAddr (txbctrl n))), d) := by
  have hread : ∀ a : Addr, d.chip.readFrom a 1 = [d.chip.read a] := by
    intro a
    have hzero : a + Fin.ofNat 128 0 = a := Fin.ext (Nat.mod_eq_of_lt a.isLt)
    exact congrArg (fun a => [d.chip.read a]) hzero
  show some (statusOfCtrl ((d.chip.readFrom (toAddr (txbctrl n)) 1).headD 0), d) = _
  rw [hread]
  rfl

end Quiet

/-! ## The calls -/

namespace IndexCall

variable {d : Driver} {n : ℤ} {frame : CanFrame} {behind : Behind}

/-- A call all of whose operations only read. -/
theorem confined_of_every {c : IndexCall} {d : Driver} (hcache : c.CacheInBounds d)
    (h : ∀ behind, (c.program behind).Every fun o => o.writes = []) : c.Confined d where
  cache := hcache
  writes behind o ho w hw := by
    rw [(h behind).forall_trace d o ho] at hw
    cases hw
  unnamed _ behind _ hrun _ ha := reg_run_of_every (h behind) hrun ha

theorem confined_status (n : ℤ) (d : Driver) : (status n).Confined d := by
  refine confined_of_every (fun behind f hf => ?_) fun behind => ?_
  · have hspi : ((status n).program behind).Every fun o => ∀ f, o ≠ .txbCache f :=
      (@every_txbStatus _ n nofun).bind fun _ => trivial
    exact hspi.forall_trace d _ hf f rfl
  · have hread : Op.writes (.spi [0x03, txbctrl n] 1) = [] := rfl
    exact (every_txbStatus hread).bind fun _ => trivial

theorem confined_recvRxb (n : ℤ) (frame : CanFrame) (d : Driver) :
    (recvRxb n frame).Confined d := by
  refine confined_of_every (fun behind f hf => ?_) fun behind => ?_
  · have hspi : ((recvRxb n frame).program behind).Every fun o => ∀ f, o ≠ .txbCache f :=
      (every_recvRxb nofun nofun n frame).bind fun _ => trivial
    exact hspi.forall_trace d _ hf f rfl
  · have hread : Op.writes (.spi [0x90 ||| 0] 13) = [] := rfl
    have hundefined : Op.writes .undefined = [] := rfl
    exact (every_recvRxb hread hundefined n frame).bind fun _ => trivial

/-- `can_abort` writes the control register of the buffer, wherever the index leads. -/
theorem confined_abort_iff (n : ℤ) (d : Driver) : (abort n).Confined d ↔ ∃ i : Fin 3, n = i := by
  have htrace : ∀ behind, ((abort n).program behind).trace exec d =
      [.spi [0x05, txbctrl n, txbctrlTxreq, 0] 0] := fun _ => rfl
  constructor
  · intro h
    have hmay := h.writes default _ (by rw [htrace]; exact List.mem_singleton.2 rfl) _
      (List.mem_singleton.2 rfl)
    have hmode : ¬ txbctrlTxreq &&& ~~~0xE0 = 0 := by decide
    have hprio : ¬ txbctrlTxreq &&& ~~~txbctrlTxpMask = 0 := by decide
    rcases hmay with ⟨i, hi, -⟩ | ⟨-, hmask⟩ | ⟨k, -, -, hmask⟩
    · exact ⟨i, hi⟩
    · exact absurd hmask hmode
    · exact absurd hmask hprio
  · rintro ⟨i, rfl⟩
    refine ⟨fun behind f hf => ?_, fun behind o ho w hw => ?_, fun hn => absurd ⟨i, rfl⟩ hn⟩
    · rw [htrace] at hf
      cases List.mem_singleton.1 hf
    · rw [htrace, List.mem_singleton] at ho
      subst ho
      obtain rfl := List.mem_singleton.1 hw
      have hval := Chip.val_txbctrl i
      exact .inl ⟨i, rfl, hval.ge, by dsimp only; omega⟩

/-! ### `can_sendto` -/

theorem spiWrites_load (i : Fin 3) (buf : List (BitVec 8)) :
    spiWrites ((0x40 ||| (BitVec.ofInt 8 i * 2 ||| 0)) :: buf) =
      (addrsFrom (Fin.ofNat 128 (0x31 + 16 * i)) buf.length).map fun a => (a, 0xFF) := by
  fin_cases i <;> rfl

theorem spiWrites_rts (i : Fin 3) : spiWrites [0x80 ||| (1#8 <<< (i : ℤ).toNat)] =
    [(toAddr (txbctrl i), txbctrlTxreq)] := by
  fin_cases i <;> rfl

theorem own_txbctrl (i : Fin 3) (frame : CanFrame) : (sendto i frame).Own (toAddr (txbctrl i)) := by
  have hval := Chip.val_txbctrl i
  exact ⟨i, rfl, hval.ge, by omega⟩

/-- Loading a buffer and requesting its transmission. -/
theorem every_send (i : Fin 3) (frame frame' : CanFrame) (d : Driver) :
    ((loadTxb i frame').bind fun _ => (mcp2515Rts (1#8 <<< (i : ℤ).toNat)).bind fun _ =>
      (.ret 0 : Io ℤ)).Every fun o => ∀ w ∈ o.writes, (sendto i frame).MayWrite d w := by
  have hctrl : ∀ mask, (sendto i frame).MayWrite d (toAddr (txbctrl i), mask) :=
    fun mask => .inl (own_txbctrl i frame)
  refine Every.bind ?_ fun _ => (every_perform fun w hw => ?_).bind fun _ => trivial
  · unfold loadTxb
    split
    · rename_i hdlc
      have hlen := length_txbImage_le hdlc
      refine (every_mcp2515LoadTxb fun w hw => ?_).bind fun _ => every_bitModify fun w hw => ?_
      · rw [loadOp, Op.writes, spiWrites_load] at hw
        obtain ⟨a, ha, rfl⟩ := List.mem_map.1 hw
        obtain ⟨k, hk, rfl⟩ := List.mem_map.1 ha
        rw [List.mem_range] at hk
        have hstart : (Fin.ofNat 128 (0x31 + 16 * i.val)).val = 0x31 + 16 * i :=
          @Chip.val_txb i 0 (by omega)
        have hval : (Fin.ofNat 128 ((Fin.ofNat 128 (0x31 + 16 * i.val)).val + k)).val =
            0x31 + 16 * i + k := by
          rw [hstart, Fin.val_ofNat]
          omega
        refine .inl ⟨i, rfl, ?_, ?_⟩ <;> dsimp only <;> omega
      · obtain rfl := List.mem_singleton.1 hw
        exact hctrl _
    · exact (every_perform nofun).bind fun absurd => nomatch absurd
  · rw [Op.writes, spiWrites_rts] at hw
    obtain rfl := List.mem_singleton.1 hw
    exact hctrl _

theorem confined_sendto_named (i : Fin 3) (hshort : frame.Short)
    (h : (d.txbCache i).isValid = false →
      ∀ k ≠ i, (d.txbCache k).isValid = true → d.chip.requested k = true) :
    (sendto i frame).Confined d := by
  have hgrades : ∀ o ∈ (getFramePriority i frame.ident).trace exec d,
      Ranking.Grades (fun k => d.chip.requested k = true) o := by
    rw [getFramePriority_fin]
    exact grades_getFramePriorityAt h
  have hstatus : ∀ status d', (txbStatus i).run exec d = some (status, d') → d' = d := by
    intro status d' hrun
    rw [run_txbStatus] at hrun
    exact (Prod.mk.inj (Option.some.inj hrun)).2.symm
  refine ⟨fun d' hrun hundefined => ?_, fun behind => ?_, fun hn => absurd ⟨i, rfl⟩ hn⟩
  · rw [hstatus _ _ hrun] at hundefined
    cases hgrades _ hundefined
  · have hread : Op.writes (.spi [0x03, txbctrl i] 1) = [] := rfl
    rw [program, canSendtoOver_of_short i hshort]
    refine forall_trace_bind.2
      ⟨forall_trace_bind.2 ⟨?_, fun status d' hrun => ?_⟩, fun _ _ _ => nofun⟩
    · exact (every_txbStatus (by rw [hread]; exact nofun)).forall_trace d
    · rw [hstatus _ _ hrun]
      split
      · refine forall_trace_bind.2 ⟨fun o ho w hw => ?_, fun prio d₁ _ => ?_⟩
        · cases hgrades o ho with
          | cache => cases hw
          | priority k hk val =>
              obtain rfl := List.mem_singleton.1 hw
              have hmask : txbctrlTxpMask &&& ~~~txbctrlTxpMask = 0 := by decide
              exact .inr (.inr ⟨k, rfl, hk, hmask⟩)
        · exact (every_send i frame _ d).forall_trace d₁
      · exact nofun

/-- A register that reads as busy stops `can_sendto` after the first read. -/
theorem confined_sendto_busy (h : d.chip.read (toAddr (txbctrl n)) &&& txbctrlTxreq ≠ 0) :
    (sendto n frame).Confined d := by
  have hbusy : statusOfCtrl (d.chip.read (toAddr (txbctrl n))) ≠ .idle := by
    rw [Ne, statusOfCtrl_eq_idle_iff, ← Chip.and_txreq_eq_zero_iff]
    exact h
  have hread : Op.writes (.spi [0x03, txbctrl n] 1) = [] := rfl
  refine ⟨fun d' hrun => ?_, fun behind => ?_, fun _ behind d' hrun a _ => ?_⟩
  · rw [run_txbStatus] at hrun
    exact absurd (Prod.mk.inj (Option.some.inj hrun)).1 hbusy
  · refine forall_trace_bind.2
      ⟨forall_trace_bind.2 ⟨?_, fun status d' hrun => ?_⟩, fun _ _ _ => nofun⟩
    · exact (every_txbStatus (by rw [hread]; exact nofun)).forall_trace d
    · rw [run_txbStatus] at hrun
      obtain ⟨rfl, -⟩ := Prod.mk.inj (Option.some.inj hrun)
      rw [if_neg hbusy]
      exact nofun
  · have hstop : ((sendto n frame).program behind).run exec d = some ((), d) := by
      rw [program, canSendtoOver]
      simp only [bind_eq, run_bind, run_txbStatus, Option.bind_some, if_neg hbusy]
      rfl
    rw [hstop] at hrun
    obtain ⟨-, rfl⟩ := Prod.mk.inj (Option.some.inj hrun)
    rfl

/-- The first register behind the buffer is written if the length is above eight. -/
theorem short_of_writes (i : Fin 3) {frame' : CanFrame} {d₁ : Driver}
    (h : ∀ o ∈ (loadTxbOver behind i frame').trace exec d₁, ∀ w ∈ o.writes,
      (sendto i frame).MayWrite d w) : frame'.Short := by
  by_contra hlong
  have hdlc : 8 < frame'.dlc.toNat := not_le.1 hlong
  have hlt := frame'.dlc.isLt
  have hlen : (frameHeader frame' ++ (frame'.data.toList ++ behind.toList).take
      frame'.dlc.toNat).length = 5 + frame'.dlc.toNat := by
    rw [List.length_append, List.length_take, List.length_append, Vector.length_toList,
      Vector.length_toList]
    have hheader : (frameHeader frame').length = 5 := rfl
    omega
  have hwrite := h _ (.head _) (Fin.ofNat 128 ((Fin.ofNat 128 (0x31 + 16 * i.val)).val + 13), 0xFF)
  rw [Op.writes, spiWrites_load] at hwrite
  have hmay := hwrite (List.mem_map_of_mem (List.mem_map_of_mem (List.mem_range.2 (by omega))))
  have hbehind : ∀ i : Fin 3, (Fin.ofNat 128 ((Fin.ofNat 128 (0x31 + 16 * i.val)).val + 13)).val =
      0x3E + 16 * i := by decide
  have hval := hbehind i
  have hmode : ¬ (0xFF : BitVec 8) &&& ~~~0xE0 = 0 := by decide
  have hprio : ¬ (0xFF : BitVec 8) &&& ~~~txbctrlTxpMask = 0 := by decide
  rcases hmay with ⟨j, hj, -, hown⟩ | ⟨-, hmask⟩ | ⟨k, -, -, hmask⟩
  · obtain rfl : i = j := Fin.ext (by omega)
    dsimp only at hown
    omega
  · exact hmode hmask
  · exact hprio hmask

/-- The priority of a buffer is written only if it is pending. -/
theorem requested_of_writes {i k : Fin 3} (hne : k ≠ i) (val : BitVec 8)
    (h : ∀ w ∈ (Op.spi [0x05, txbctrl k, txbctrlTxpMask, val] 0).writes,
      (sendto i frame).MayWrite d w) : d.chip.requested k = true := by
  have hval := Chip.val_txbctrl k
  rcases h _ (List.mem_singleton.2 rfl) with ⟨j, hj, hle, hlt⟩ | ⟨hctrl, -⟩ | ⟨k', hk, hreq, -⟩
  · obtain rfl : i = j := Fin.ext (by omega)
    have hki : k.val ≠ i.val := fun hc => hne (Fin.ext hc)
    dsimp only at hle hlt
    omega
  · have hcolumn : (toAddr canctrl).val = 0x0F := rfl
    dsimp only at hctrl
    rw [hctrl] at hval
    omega
  · obtain rfl := Chip.txbctrl_injective hk
    exact hreq

theorem exists_run_getFramePriorityAt (b : Fin 3) (id : CanId) (d : Driver) :
    ∃ prio d', (getFramePriorityAt b id).run exec d = some (prio, d') := by
  obtain ⟨⟨ret, d'⟩, hrun⟩ := Option.isSome_iff_exists.1 (isSome_rankAndWrite b id d)
  rw [rankAndWrite_eq] at hrun
  obtain ⟨prio, d₁, hrank, -⟩ := of_run_bind hrun
  exact ⟨prio, d₁, hrank⟩

theorem confined_sendto_iff (n : ℤ) (frame : CanFrame) (d : Driver) :
    (sendto n frame).Confined d ↔ (sendto n frame).Safe d := by
  constructor
  · intro h
    by_cases hbusy : d.chip.read (toAddr (txbctrl n)) &&& txbctrlTxreq ≠ 0
    · exact .inl hbusy
    have hstatus := run_txbStatus n d
    have hidle : statusOfCtrl (d.chip.read (toAddr (txbctrl n))) = .idle := by
      rw [statusOfCtrl_eq_idle_iff, ← Chip.and_txreq_eq_zero_iff]
      exact not_not.1 hbusy
    rw [hidle] at hstatus
    obtain ⟨i, rfl⟩ : ∃ i : Fin 3, n = i := by
      by_contra hn
      obtain ⟨k, hk⟩ := getFramePriority_other (fun i hi => hn ⟨i, hi⟩) frame.ident
      have hbound := h.cache d hstatus
      rw [hk] at hbound
      exact hbound (List.mem_singleton.2 rfl)
    have hcall := (forall_trace_bind.1 (h.writes default)).1
    have hsend := (forall_trace_bind.1 hcall).2 _ _ hstatus
    rw [if_pos rfl, getFramePriority_fin] at hsend
    obtain ⟨hrank, hload⟩ := forall_trace_bind.1 hsend
    refine .inr ⟨i, rfl, ?_, fun hfree k hk hvalid => ?_⟩
    · obtain ⟨prio, d₁, hrun⟩ := exists_run_getFramePriorityAt i frame.ident d
      have hshort := short_of_writes i (forall_trace_bind.1 (hload prio d₁ hrun)).1
      exact hshort
    · have hfree' : ¬ (d.txbCache i).isValid = true := by
        rw [hfree]
        exact Bool.false_ne_true
      have hupdate := (List.forall_mem_cons.1 hrank).2
      dsimp only [ret_bind] at hupdate
      simp only [if_neg hfree'] at hupdate
      have hall : ∀ j : Fin 3, j ∈ ([0, 1, 2] : List (Fin 3)) := by decide
      obtain ⟨val, hval⟩ := priority_of_forall_trace (forall_trace_bind.1 hupdate).1 (hall k) hk
        ((isValid_rankCache hk).trans hvalid)
      exact requested_of_writes hk val hval
  · rintro (hbusy | ⟨i, rfl, hshort, hpending⟩)
    · exact confined_sendto_busy hbusy
    · exact confined_sendto_named i hshort hpending

/-! ### `can_clear_filter` -/

theorem every_allEmpty {φ : Op → Prop} (h : ∀ reg, φ (.spi [0x03, reg] filterBytes)) (js : List ℕ) :
    (allEmpty js).Every φ := by
  induction js with
  | nil => trivial
  | cons j js ih =>
      refine Every.bind ((every_perform (h _)).bind fun _ => trivial) fun empty => ?_
      split
      · exact ih
      · trivial

/-- The bank that `clear_rx_filter` takes a filter to be in. -/
def bankAt (n : ℤ) : ℕ := if (BitVec.ofInt 8 n).toNat < filtsOfMask0 then 0 else 1

/-- The operations of `can_clear_filter`. -/
theorem every_canClearFilter {φ : Op → Prop} {n : ℤ}
    (hmode : ∀ val, φ (.spi [0x05, canctrl, 0xE0, val] 0))
    (hread : ∀ reg, φ (.spi [0x03, reg] filterBytes))
    (hfilter : φ (.spi (0x02 :: rxfsidh (BitVec.ofInt 8 n).toNat :: zeroRegs) 0))
    (hmask : φ (.spi (0x02 :: rxmsidh (bankAt n) :: zeroRegs) 0)) :
    (canClearFilter n).Every φ := by
  have hmode' : ∀ mode, (setMode mode).Every φ := fun mode => every_bitModify (hmode _)
  refine (hmode' _).bind fun _ => Every.bind ?_ fun _ => hmode' _
  refine Every.bind ((every_perform hfilter).bind fun _ => trivial) fun _ => ?_
  refine (every_allEmpty hread _).bind fun empty => ?_
  split
  · exact (every_perform hmask).bind fun _ => trivial
  · trivial

/-- Where the filters that the driver can clear have their registers. -/
theorem own_filter : ∀ j ∈ [0, 1, 2], ∀ a ∈ addrsFrom (toAddr (rxfsidh (j : ℕ))) 4,
    InBlock (toAddr (rxfsidh (hardwareSlot j))) a := by
  decide

theorem own_mask : ∀ j ∈ [0, 1, 2], ∀ a ∈ addrsFrom (toAddr (rxmsidh (bankOf j))) 4,
    InBlock (toAddr (rxmsidh (bankOf j))) a := by
  decide

theorem confined_clearFilter_of_mem {j : ℕ} (hj : j ∈ [0, 1, 2]) (d : Driver) :
    (clearFilter j).Confined d := by
  have hlt : ∀ j ∈ [0, 1, 2], j < 6 := by decide
  have hidx : (BitVec.ofInt 8 j).toNat = j := by
    revert j
    decide
  have hbank : bankAt j = bankOf j := by
    rw [bankAt, hidx]
    rfl
  have hnamed : (clearFilter j).Named := ⟨⟨j, hlt j hj⟩, rfl⟩
  refine ⟨fun behind f hf => ?_, fun behind => ?_, fun hn => absurd hnamed hn⟩
  · have hspi : (canClearFilter j).Every fun o => ∀ f, o ≠ .txbCache f :=
      every_canClearFilter (fun _ => nofun) (fun _ => nofun) nofun nofun
    exact hspi.forall_trace d _ hf f rfl
  · suffices h : (canClearFilter j).Every fun o : Op =>
        ∀ w ∈ o.writes, (clearFilter j).MayWrite d w from h.forall_trace d
    refine every_canClearFilter (fun val w hw => ?_) (fun reg w hw => ?_) (fun w hw => ?_)
      fun w hw => ?_
    · obtain rfl := List.mem_singleton.1 hw
      have hmode : (0xE0 : BitVec 8) &&& ~~~0xE0 = 0 := by decide
      exact .inr (.inl ⟨rfl, hmode⟩)
    · cases hw
    · rw [hidx] at hw
      obtain ⟨a, ha, rfl⟩ := List.mem_map.1 hw
      exact .inl ⟨⟨j, hlt j hj⟩, rfl, .inl (own_filter j hj a ha)⟩
    · rw [hbank] at hw
      obtain ⟨a, ha, rfl⟩ := List.mem_map.1 hw
      exact .inl ⟨⟨j, hlt j hj⟩, rfl, .inr (own_mask j hj a ha)⟩

/-- The first register that is cleared is one of the filter or its mask for these filters only. -/
theorem eq_of_own_first : ∀ i : Fin 6,
    let a : Addr := Fin.ofNat 128 ((toAddr (rxfsidh (BitVec.ofInt 8 i).toNat)).val + 0)
    InBlock (toAddr (rxfsidh (hardwareSlot i))) a ∨ InBlock (toAddr (rxmsidh (bankOf i))) a →
    (i : ℤ) = 0 ∨ (i : ℤ) = 1 ∨ (i : ℤ) = 2 := by
  decide

/-- Whatever the index, `can_clear_filter` clears four registers. -/
theorem confined_clearFilter_iff (n : ℤ) (d : Driver) :
    (clearFilter n).Confined d ↔ (clearFilter n).Safe d := by
  constructor
  · intro h
    have hmem : Op.spi (0x02 :: rxfsidh (BitVec.ofInt 8 n).toNat :: zeroRegs) 0 ∈
        ((clearFilter n).program default).trace exec d := .tail _ (.head _)
    have hmay := h.writes default _ hmem _ (.head _)
    have hmode : ¬ (0xFF : BitVec 8) &&& ~~~0xE0 = 0 := by decide
    have hprio : ¬ (0xFF : BitVec 8) &&& ~~~txbctrlTxpMask = 0 := by decide
    rcases hmay with ⟨i, rfl, hown⟩ | ⟨-, hmask⟩ | ⟨k, -, -, hmask⟩
    · exact eq_of_own_first i hown
    · exact absurd hmask hmode
    · exact absurd hmask hprio
  · rintro (rfl | rfl | rfl)
    · exact confined_clearFilter_of_mem (j := 0) (by decide) d
    · exact confined_clearFilter_of_mem (j := 1) (by decide) d
    · exact confined_clearFilter_of_mem (j := 2) (by decide) d

/-- A call stays with what its index names exactly if the index is safe. -/
theorem confined_iff (c : IndexCall) (d : Driver) : c.Confined d ↔ c.Safe d := by
  cases c with
  | sendto n frame => exact confined_sendto_iff n frame d
  | abort n => exact confined_abort_iff n d
  | status n => exact iff_of_true (confined_status n d) trivial
  | recvRxb n frame => exact iff_of_true (confined_recvRxb n frame d) trivial
  | clearFilter n => exact confined_clearFilter_iff n d

/-- In place of a fourth transmit buffer there is the control register of a receive buffer, and it
reads as idle. -/
theorem not_confined_sendto_three :
    ¬ (sendto 3 (.bare 5)).Confined (System.booted ⟨fun _ => 0⟩ fun _ => .bare 0).driver := by
  rw [confined_sendto_iff]
  rintro (hbusy | ⟨i, hi, -⟩)
  · exact hbusy rfl
  · omega

end IndexCall

end Can
end Tk1Bsp
