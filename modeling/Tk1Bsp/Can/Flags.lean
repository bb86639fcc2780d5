import Tk1Bsp.Can.Reception
import Tk1Bsp.Can.System

/-!
# What the interrupt handler acknowledges

The flags in `CANINTF` change while `irq_handler` runs: between any two of its transactions the
controller may finish a transmission, receive a message, lose one for want of a free buffer, or see
a faulty one.  The handler clears a transmit flag before it serves the buffer, and a receive flag
with the read that takes the message.  `report_error` reads `EFLG`, clears what it has read, and
only then clears `ERRIF`: a message that is lost in between is acknowledged without having been
seen.
-/

namespace Tk1Bsp
namespace Can

open Prog

/-! ## The hardware between two transactions -/

/-- What the controller does by itself while the handler runs. -/
inductive Hardware
  | sent (i : Fin 3)
  | receive (n : Fin 2) (buf : Vector (BitVec 8) 13)
  | overflow (n : Fin 2)
  | messageError

namespace Chip

variable (c : Chip)

/-- `ERRIF` in `CANINTF`. -/
def erring : Bool := (c.reg (toAddr canintf)).getLsbD 5

/-- `RXnOVR` in `EFLG`. -/
def overrun (n : Fin 2) : Bool := (c.reg (toAddr eflg)).getLsbD (n + 6)

/-- The effect on the registers.  A message overflows a receive buffer that is not free. -/
def hardware : Hardware → Option Chip
  | .sent i => c.event (.sent i)
  | .receive n buf => c.event (.receive n buf)
  | .overflow n =>
      if c.received n then c.event (.error canintfErrif (c.reg (toAddr eflg) ||| 0x40 <<< n.val))
      else none
  | .messageError => c.event (.error canintfMerrf (c.reg (toAddr eflg)))

/-- The same flags for transmission, reception and errors, and the same `EFLG`. -/
structure SameFlags (c c' : Chip) : Prop where
  canintf : ∀ k < 6, (c'.reg (toAddr canintf)).getLsbD k = (c.reg (toAddr canintf)).getLsbD k
  eflg : c'.reg (toAddr eflg) = c.reg (toAddr eflg)

end Chip

/-! ## Runs of the handler -/

/-- The driver, what is left of the handler, and whether `report_error` has read `EFLG` and not yet
cleared `ERRIF`. -/
structure Handling where
  driver : Driver
  handler : Io Unit
  reporting : Bool

/-- What can happen. -/
inductive Interruption
  | irq (frame : CanFrame)
  | handler
  | hardware (e : Hardware)

/-- Whether `report_error` is between the two transactions after an operation. -/
def Op.reports (b : Bool) : Op → Bool
  | .spi (cmd :: rest) _ =>
      if cmd = 0x03 ∧ rest = [eflg] then true
      else if cmd = 0x05 ∧ rest = [canintf, canintfErrif, 0] then false
      else b
  | _ => b

/-- The length of a frame that is taken from the TX queue, or of the message that is read, is one
that the payload can have, and a register that is waited for reads zero. -/
def Op.fits (d : Driver) : Op → Bool
  | .spi (cmd :: _) _ => cmd ≠ 0x90 || decide ((lengthOf (d.chip.rxbImage 0)).toNat ≤ 8)
  | .mqRemove .tx => decide ((mqRemoveMsg d .tx).1.dlc.toNat ≤ 8)
  | .spinWhileNonzero reg => d.chip.read (toAddr reg) = 0
  | _ => true

namespace Handling

/-- One step; nothing if it cannot be taken. -/
def step (s : Handling) : Interruption → Option Handling
  | .irq frame =>
      match s.handler with
      | .ret () => some { s with handler := irqHandler frame }
      | .call _ _ => none
  | .handler =>
      match s.handler with
      | .ret () => none
      | .call o k => (exec o s.driver).map fun rs => ⟨rs.2, k rs.1, o.reports s.reporting⟩
  | .hardware e => (s.driver.chip.hardware e).map fun chip =>
      { s with driver := { s.driver with chip := chip } }

/-- The condition on a step: no message overflows while `report_error` is between the read of `EFLG`
and the clear of `ERRIF`, and the operation of the handler is fit. -/
def careful (s : Handling) : Interruption → Bool
  | .handler =>
      match s.handler with
      | .ret () => true
      | .call o _ => o.fits s.driver
  | .hardware (.overflow _) => !s.reporting
  | _ => true

/-- The step relation. -/
def Step (s : Handling) (a : Interruption) (_ : Unit) (s' : Handling) : Prop := s.step a = some s'

/-- A step that meets the condition. -/
def CarefulStep (s : Handling) (a : Interruption) (u : Unit) (s' : Handling) : Prop :=
  s.Step a u s' ∧ s.careful a = true

/-- The handler is not running, and nobody has `txb_lock`. -/
structure Waiting (s : Handling) : Prop where
  handler : s.handler = .ret ()
  reporting : s.reporting = false
  txbLock : s.driver.txbLock = false

/-- The service of buffer `n` is a part of the loop of `transmit_message`. -/
def InLoop (n : Fin 3) (loop : Io (BitVec 8)) : Prop :=
  ∃ (before : Io (BitVec 8)) (after : BitVec 8 → Io (BitVec 8)),
    loop = before.bind fun rts => (serveTxb n rts).bind after

/-- What a step acknowledges is serviced.  If it clears `TXnIF`, the loop of `transmit_message` is
what the handler does next, and it serves buffer `n`; if it clears `ERRIF`, no receive buffer has
overflowed; if it clears `RXnIF`, the handler pushes the message in receive buffer `n` next. -/
structure Serviced (s s' : Handling) : Prop where
  tx : ∀ n, s.driver.chip.flagged n = true → s'.driver.chip.flagged n = false →
    ∃ (tx : BitVec 8) (rest : BitVec 8 → Io Unit), InLoop n (transmitLoop tx [2, 1, 0] 0) ∧
      s'.handler = (transmitLoop tx [2, 1, 0] 0).bind rest
  err : s.driver.chip.erring = true → s'.driver.chip.erring = false →
    ∀ n, s.driver.chip.overrun n = false
  rx : ∀ n, s.driver.chip.received n = true → s'.driver.chip.received n = false →
    ∃ (frame : CanFrame) (rest : ℤ → Io Unit),
      frame.message = messageOf (s.driver.chip.rxbImage n) ∧
        s'.handler = (rxQueuePush frame).bind rest

end Handling

/-! ## Operations that acknowledge nothing -/

/-- A bit of the mask is not set in a byte that has none of them. -/
theorem getLsbD_of_and_eq_zero {v m : BitVec 8} (h : v &&& m = 0) {k : ℕ}
    (hk : m.getLsbD k = true) : v.getLsbD k = false := by
  have hbit : (v &&& m).getLsbD k = false := by
    rw [h]
    exact BitVec.getLsbD_zero
  rwa [BitVec.getLsbD_and, hk, Bool.and_true] at hbit

namespace Chip

variable {c c' : Chip}

theorem SameFlags.refl (c : Chip) : c.SameFlags c := ⟨fun _ _ => rfl, rfl⟩

theorem SameFlags.overrun (h : c.SameFlags c') (n : Fin 2) : c'.overrun n = c.overrun n := by
  rw [Chip.overrun, h.eflg]
  rfl

theorem sameFlags_of_reg (h : ∀ a, a = toAddr canintf ∨ a = toAddr eflg → c'.reg a = c.reg a) :
    c.SameFlags c' :=
  ⟨fun _ _ => by rw [h _ (.inl rfl)], h _ (.inr rfl)⟩

/-- Writing any other register. -/
theorem sameFlags_write (c : Chip) {a : Addr} (ha : a ≠ toAddr canintf ∧ a ≠ toAddr eflg)
    (v : BitVec 8) : c.SameFlags (c.write a v) := by
  refine sameFlags_of_reg ?_
  rintro b (rfl | rfl)
  · exact reg_write_of_ne ha.1.symm (by decide)
  · exact reg_write_of_ne ha.2.symm (by decide)

/-- Clearing flags in `CANINTF`. -/
theorem canintf_clear (c : Chip) (mask : BitVec 8) {k : ℕ} (hk : k < 8) :
    ((c.spi [0x05, canintf, mask, 0] 0).2.reg (toAddr canintf)).getLsbD k =
      ((c.reg (toAddr canintf)).getLsbD k && !mask.getLsbD k) := by
  rw [spi_bitModify, reg_write_canintf, BitVec.getLsbD_or, BitVec.getLsbD_and, BitVec.getLsbD_not,
    decide_eq_true hk, Bool.true_and, BitVec.and_comm]
  simp

theorem canintf_clear_of_other (c : Chip) {mask : BitVec 8} (h : mask &&& 0x3F = 0) {k : ℕ}
    (hk : k < 6) :
    ((c.spi [0x05, canintf, mask, 0] 0).2.reg (toAddr canintf)).getLsbD k =
      (c.reg (toAddr canintf)).getLsbD k := by
  have hone : ∀ k : Fin 6, BitVec.getLsbD (0x3F : BitVec 8) k = true := by decide
  have hbit : mask.getLsbD k = false := getLsbD_of_and_eq_zero h (hone ⟨k, hk⟩)
  rw [canintf_clear _ _ (by omega), hbit, Bool.not_false, Bool.and_true]

theorem eflg_clear (c : Chip) (mask : BitVec 8) :
    (c.spi [0x05, canintf, mask, 0] 0).2.reg (toAddr eflg) = c.reg (toAddr eflg) := by
  rw [spi_bitModify, reg_write_canintf_of_ne _ _ (by decide)]

theorem ordinary_eflg (c : Chip) : c.Ordinary (toAddr eflg) where
  status := by decide
  control := by decide
  config h := absurd h (by decide)

/-- Clearing flags in `EFLG`. -/
theorem overrun_clear (c : Chip) (mask : BitVec 8) (n : Fin 2) :
    Chip.overrun (c.spi [0x05, eflg, mask, 0] 0).2 n = (c.overrun n && !mask.getLsbD (n + 6)) := by
  have hlt : n.val + 6 < 8 := by omega
  rw [overrun, spi_bitModify, (ordinary_eflg c).write_eq, reg_set_self, BitVec.getLsbD_or,
    BitVec.getLsbD_and, BitVec.getLsbD_not, decide_eq_true hlt, Bool.true_and]
  simp [overrun]

theorem canintf_clear_eflg (c : Chip) (mask : BitVec 8) :
    (c.spi [0x05, eflg, mask, 0] 0).2.reg (toAddr canintf) = c.reg (toAddr canintf) := by
  rw [spi_bitModify, reg_write_of_ne (by decide) (by decide)]

/-- Loading a buffer and requesting a transmission. -/
theorem sameFlags_load (c : Chip) (i : Fin 3) {buf : List (BitVec 8)} (hbuf : buf.length ≤ 13) :
    c.SameFlags (c.spi ((0x40 ||| (BitVec.ofInt 8 i * 2 ||| 0)) :: buf) 0).2 := by
  have hlow : (toAddr canintf).val < 0x31 ∧ (toAddr eflg).val < 0x31 := by decide
  refine sameFlags_of_reg ?_
  rintro a (rfl | rfl)
  · rw [reg_load _ i hbuf, if_neg (by omega)]
  · rw [reg_load _ i hbuf, if_neg (by omega)]

theorem sameFlags_request (c : Chip) {mask : BitVec 8} (h : mask &&& 0xF8 = 0) :
    c.SameFlags (c.spi [0x80 ||| mask] 0).2 := by
  have hne : ∀ i : Fin 3,
      toAddr canintf ≠ toAddr (txbctrl i) ∧ toAddr eflg ≠ toAddr (txbctrl i) := by decide
  refine sameFlags_of_reg ?_
  rintro a (rfl | rfl)
  · rw [spi_rts _ h, reg_requestAll_of_ne _ _ fun i _ => (hne i).1]
  · rw [spi_rts _ h, reg_requestAll_of_ne _ _ fun i _ => (hne i).2]

/-- READ RX BUFFER clears one flag. -/
theorem canintf_readRxb (c : Chip) {k : ℕ} (hk : k < 8) :
    ((c.spi [0x90 ||| 0] 13).2.reg (toAddr canintf)).getLsbD k =
      ((c.reg (toAddr canintf)).getLsbD k && decide (k ≠ 0)) := by
  have hmask : ∀ k : Fin 8, BitVec.getLsbD (0xFE : BitVec 8) k = decide (k.val ≠ 0) := by decide
  rw [spi_readRxb, reg_write_canintf, BitVec.getLsbD_and, hmask ⟨k, hk⟩]

end Chip

/-- The operations inside the component, but for those on the lock. -/
def Op.Inner : Op → Prop
  | .spi _ _ | .txbLock | .txbUnlock | .queueLockWait | .undefined => False
  | _ => True

/-- The operations of the handler that acknowledge nothing. -/
inductive Op.Inert : Op → Prop
  | read (reg : BitVec 8) (n : ℕ) (h : reg ≠ eflg) : Inert (.spi [0x03, reg] n)
  | mode (val : BitVec 8) : Inert (.spi [0x05, canctrl, 0xE0, val] 0)
  | flags (mask : BitVec 8) (h : mask &&& 0x3F = 0) : Inert (.spi [0x05, canintf, mask, 0] 0)
  | priority (i : Fin 3) (val : BitVec 8) : Inert (.spi [0x05, txbctrl i, txbctrlTxpMask, val] 0)
  | load (i : Fin 3) (buf : List (BitVec 8)) (hbuf : buf.length ≤ 13) : Inert (loadOp i buf)
  | request (mask : BitVec 8) (h : mask &&& 0xF8 = 0) : Inert (.spi [0x80 ||| mask] 0)
  | inner {o : Op} (h : o.Inner) : Inert o

theorem reports_of_cmd {cmd : BitVec 8} {rest : List (BitVec 8)} {n : ℕ} (b : Bool)
    (h : cmd ≠ 0x03 ∧ cmd ≠ 0x05) : (Op.spi (cmd :: rest) n).reports b = b := by
  rw [Op.reports, if_neg fun hc => h.1 hc.1, if_neg fun hc => h.2 hc.1]

theorem reports_of_modify {reg mask val : BitVec 8} (b : Bool)
    (h : reg ≠ canintf ∨ mask ≠ canintfErrif) :
    (Op.spi [0x05, reg, mask, val] 0).reports b = b := by
  rw [Op.reports, if_neg (by simp), if_neg]
  rintro ⟨-, heq⟩
  simp only [List.cons.injEq] at heq
  exact h.elim (fun h => h heq.1) fun h => h heq.2.1

/-- An inert operation keeps the flags, the lock, and the place in `report_error`. -/
theorem Op.Inert.exec {o : Op} (h : o.Inert) {d d' : Driver} {r : Ans o} (b : Bool)
    (hexec : Can.exec o d = some (r, d')) :
    d.chip.SameFlags d'.chip ∧ d'.txbLock = d.txbLock ∧ o.reports b = b := by
  cases h with
  | read reg n hreg =>
      obtain ⟨-, rfl⟩ := exec_spi hexec
      refine ⟨.refl _, rfl, ?_⟩
      rw [reports, if_neg (by simpa using hreg), if_neg (by simp)]
  | mode val =>
      obtain ⟨-, rfl⟩ := exec_spi hexec
      have hne : toAddr canctrl ≠ toAddr canintf ∧ toAddr canctrl ≠ toAddr eflg := by decide
      exact ⟨Chip.sameFlags_write _ hne _, rfl, reports_of_modify b (.inl (by decide))⟩
  | flags mask hmask =>
      obtain ⟨-, rfl⟩ := exec_spi hexec
      have hne : mask ≠ canintfErrif := by
        rintro rfl
        exact absurd hmask (by decide)
      exact ⟨⟨fun k hk => Chip.canintf_clear_of_other _ hmask hk, Chip.eflg_clear _ _⟩, rfl,
        reports_of_modify b (.inr hne)⟩
  | priority i val =>
      obtain ⟨-, rfl⟩ := exec_spi hexec
      have hne : ∀ i : Fin 3,
          toAddr (txbctrl i) ≠ toAddr canintf ∧ toAddr (txbctrl i) ≠ toAddr eflg ∧
          txbctrl i ≠ canintf := by decide
      exact ⟨Chip.sameFlags_write _ ⟨(hne i).1, (hne i).2.1⟩ _, rfl,
        reports_of_modify b (.inl (hne i).2.2)⟩
  | load i buf hbuf =>
      obtain ⟨-, rfl⟩ := exec_spi hexec
      have hcmd : ∀ i : Fin 3, (0x40 ||| (BitVec.ofInt 8 i * 2 ||| 0) : BitVec 8) ≠ 0x03 ∧
          (0x40 ||| (BitVec.ofInt 8 i * 2 ||| 0) : BitVec 8) ≠ 0x05 := by decide
      exact ⟨Chip.sameFlags_load _ i hbuf, rfl, reports_of_cmd b (hcmd i)⟩
  | request mask hmask =>
      obtain ⟨-, rfl⟩ := exec_spi hexec
      have hbit : (0x80 ||| mask).getLsbD 7 = true := by simp
      refine ⟨Chip.sameFlags_request _ hmask, rfl, reports_of_cmd b ⟨?_, ?_⟩⟩
      · intro hc
        rw [hc] at hbit
        exact absurd hbit (by decide)
      · intro hc
        rw [hc] at hbit
        exact absurd hbit (by decide)
  | inner h =>
      cases o with
      | spi | txbLock | txbUnlock | queueLockWait | undefined => exact h.elim
      | spinWhileNonzero =>
          simp only [Can.exec] at hexec
          split at hexec <;> cases hexec
          exact ⟨.refl _, rfl, rfl⟩
      | mqAppend q frame | mqRemove q =>
          cases hexec
          cases q <;> exact ⟨.refl _, rfl, rfl⟩
      | _ =>
          cases hexec
          exact ⟨.refl _, rfl, rfl⟩

/-! ## The protocol of the handler -/

/-- Where the handler is: the overflow flags that `report_error` has read and not yet cleared, if it
is between the read of `EFLG` and the clear of `ERRIF`, and whether the handler has `txb_lock`. -/
structure Stage where
  seen : Option (BitVec 8)
  locked : Bool

/-- The protocol. -/
inductive Acknowledges : Stage → (o : Op) → Ans o → Stage → Prop
  | inert {g : Stage} {o : Op} {r : Ans o} (h : o.Inert) : Acknowledges g o r g
  | look {l : Bool} (r : List (BitVec 8)) :
      Acknowledges ⟨none, l⟩ (.spi [0x03, eflg] 1) r ⟨some (r.headD 0 &&& eflgRxovr), l⟩
  | clear {l : Bool} (m : BitVec 8) (r : List (BitVec 8)) :
      Acknowledges ⟨some m, l⟩ (.spi [0x05, eflg, m, 0] 0) r ⟨some 0, l⟩
  | done {l : Bool} (r : List (BitVec 8)) :
      Acknowledges ⟨some 0, l⟩ (.spi [0x05, canintf, canintfErrif, 0] 0) r ⟨none, l⟩
  | take {g : Stage} (tx : BitVec 8) (r : List (BitVec 8)) (h : tx &&& 0xF8 = 0) :
      Acknowledges g (.spi [0x05, canintf, tx <<< 2, 0] 0) r g
  | readRxb {g : Stage} (r : List (BitVec 8)) : Acknowledges g (.spi [0x90 ||| 0] 13) r g
  | lock {e : Option (BitVec 8)} : Acknowledges ⟨e, false⟩ .txbLock () ⟨e, true⟩
  | unlock {e : Option (BitVec 8)} : Acknowledges ⟨e, true⟩ .txbUnlock () ⟨e, false⟩

/-- The answers that the condition on a step allows. -/
def Fit : (o : Op) → Ans o → Prop
  | .spi [0x90] _, r => (lengthOf r).toNat ≤ 8
  | .mqRemove .tx, frame => frame.dlc.toNat ≤ 8
  | _, _ => True

/-- What comes after an operation that clears a flag: the loop of `transmit_message` with the bits
of the transmit flags, or the push of the message that has been read.  No access leaves an array. -/
def Heeds (α : Type) : (o : Op) → (Ans o → Io α) → Prop
  | .spi txbuf n, k =>
      (∀ mask, txbuf = [0x05, canintf, mask, 0] → ∀ i : Fin 3, mask.getLsbD (i + 2) = true →
        ∃ (tx : BitVec 8) (rest : BitVec 8 → Io α), tx.getLsbD i = true ∧
          ∀ r, k r = (transmitLoop tx [2, 1, 0] 0).bind rest) ∧
      (txbuf = [0x90] → n = 13 ∧ ∀ r, (lengthOf r).toNat ≤ 8 →
        ∃ (frame : CanFrame) (rest : ℤ → Io α),
          frame.message = messageOf r ∧ k r = (rxQueuePush frame).bind rest)
  | .undefined, _ => False
  | _, _ => True

section Programs

variable {α : Type}

theorem Heeds.bind (α β : Type) (o : Op) (k : Ans o → Io α) (f : α → Io β) (h : Heeds α o k) :
    Heeds β o fun r => (k r).bind f := by
  cases o with
  | spi txbuf n =>
      refine ⟨fun mask heq i hi => ?_, fun heq => ⟨(h.2 heq).1, fun r hr => ?_⟩⟩
      · obtain ⟨tx, rest, htx, hk⟩ := h.1 mask heq i hi
        exact ⟨tx, fun rts => (rest rts).bind f, htx, fun r =>
          (congrArg (·.bind f) (hk r)).trans (bind_assoc _ _ _)⟩
      · obtain ⟨frame, rest, hmessage, hk⟩ := (h.2 heq).2 r hr
        exact ⟨frame, fun ret => (rest ret).bind f, hmessage,
          (congrArg (·.bind f) hk).trans (bind_assoc _ _ _)⟩
  | undefined => exact h
  | _ => trivial

theorem heeds_of_cmd {cmd : BitVec 8} {rest : List (BitVec 8)} {n : ℕ}
    {k : List (BitVec 8) → Io α} (h : cmd ≠ 0x05 ∧ cmd ≠ 0x90) :
    Heeds α (.spi (cmd :: rest) n) k := by
  constructor
  · intro mask heq
    exact absurd (List.cons.inj heq).1 h.1
  · intro heq
    exact absurd (List.cons.inj heq).1 h.2

theorem heeds_of_modify {reg mask val : BitVec 8} {k : List (BitVec 8) → Io α}
    (h : reg ≠ canintf ∨ ∀ i : Fin 3, mask.getLsbD (i + 2) = false) :
    Heeds α (.spi [0x05, reg, mask, val] 0) k := by
  refine ⟨fun mask' heq i hi => ?_, fun heq => absurd (List.cons.inj heq).1 (by decide)⟩
  simp only [List.cons.injEq] at heq
  rcases h with h | h
  · exact absurd heq.2.1 h
  · rw [← heq.2.2.1, h i] at hi
    cases hi

theorem Op.Inert.heeds {o : Op} (k : Ans o → Io α) (h : o.Inert) : Heeds α o k := by
  cases h with
  | read reg n hreg => exact heeds_of_cmd (by decide)
  | mode val => exact heeds_of_modify (.inl (by decide))
  | flags mask hmask =>
      refine heeds_of_modify (.inr fun i => ?_)
      have hone : ∀ i : Fin 3, BitVec.getLsbD (0x3F : BitVec 8) (i + 2) = true := by decide
      exact getLsbD_of_and_eq_zero hmask (hone i)
  | priority i val =>
      have hne : ∀ i : Fin 3, txbctrl i ≠ canintf := by decide
      exact heeds_of_modify (.inl (hne i))
  | load i buf hbuf =>
      have hcmd : ∀ i : Fin 3, (0x40 ||| (BitVec.ofInt 8 i * 2 ||| 0) : BitVec 8) ≠ 0x05 ∧
          (0x40 ||| (BitVec.ofInt 8 i * 2 ||| 0) : BitVec 8) ≠ 0x90 := by decide
      exact heeds_of_cmd (hcmd i)
  | request mask hmask =>
      have hseven : (0x80 ||| mask).getLsbD 7 = true := by simp
      have hfour : (0x80 ||| mask).getLsbD 4 = false := by
        have hbit : mask.getLsbD 4 = false := getLsbD_of_and_eq_zero hmask (by decide)
        simpa using hbit
      refine heeds_of_cmd ⟨fun hc => ?_, fun hc => ?_⟩
      · rw [hc] at hseven
        exact absurd hseven (by decide)
      · rw [hc] at hfour
        exact absurd hfour (by decide)
  | inner h =>
      cases o with
      | spi | txbLock | txbUnlock | queueLockWait | undefined => exact h.elim
      | _ => trivial

/-- A program whose operations are inert. -/
theorem heeds_of_inert {p : Io α} (h : p.Every Op.Inert) : p.Each Fit Heeds fun _ => True :=
  h.each fun _ k ho => ho.heeds k

theorem acknowledges_of_inert {p : Io α} (h : p.Every Op.Inert) (g : Stage) :
    p.Follows Acknowledges g fun _ g' => g' = g :=
  h.follows fun _ _ => .inert

/-! ### The parts of the handler -/

theorem inert_clearFlags {mask : BitVec 8} (h : mask &&& 0x3F = 0) :
    (mcp2515BitModify canintf mask 0).Every Op.Inert := every_bitModify (.flags mask h)

theorem inert_reportMessageError : reportMessageError.Every Op.Inert := by
  have hread : getMode.Every Op.Inert :=
    (every_readReg (.read _ _ (by decide))).bind fun _ => trivial
  have hmode : ∀ mode, (setMode mode).Every Op.Inert := fun _ => every_bitModify (.mode _)
  have hclear : (mcp2515BitModify canintf 0x80 0).Every Op.Inert := inert_clearFlags (by decide)
  refine hread.bind fun mode => ?_
  split
  · exact (hmode _).bind fun _ => (hmode _).bind fun _ => hclear
  · exact hclear

theorem heeds_reportError : reportError.Each Fit Heeds fun _ => True := by
  have hmodify : ∀ {reg mask : BitVec 8},
      (reg ≠ canintf ∨ ∀ i : Fin 3, mask.getLsbD (i + 2) = false) →
      (mcp2515BitModify reg mask 0).Each Fit Heeds fun _ => True :=
    fun h => ⟨heeds_of_modify h, fun _ _ => trivial⟩
  have hclear := @hmodify canintf canintfErrif (.inr (by decide))
  refine ⟨heeds_of_cmd (by decide), fun r _ => ?_⟩
  show Each Fit Heeds (if r.headD 0 &&& eflgRxovr ≠ 0 then _ else _) _
  split
  · exact (hmodify (.inl (by decide))).bind Heeds.bind fun _ _ => hclear
  · exact hclear

/-- `report_error` clears `ERRIF` when it has cleared the overflow flags it has read. -/
theorem acknowledges_reportError (l : Bool) :
    reportError.Follows Acknowledges ⟨none, l⟩ fun _ g => g = ⟨none, l⟩ := by
  refine fun r => ⟨_, .look r, ?_⟩
  show Follows Acknowledges (if r.headD 0 &&& eflgRxovr ≠ 0 then _ else _) _ _
  split
  · exact fun r' => ⟨_, .clear _ r', fun r'' => ⟨_, .done r'', rfl⟩⟩
  · rename_i hzero
    rw [not_not.1 hzero]
    exact fun r' => ⟨_, .done r', rfl⟩

theorem inert_loadTxb (i : Fin 3) {frame : CanFrame} (h : frame.dlc.toNat ≤ 8) :
    (loadTxb i frame).Every Op.Inert := by
  rw [loadTxb, if_pos h]
  exact (every_mcp2515LoadTxb (.load i _ (length_txbImage_le h))).bind fun _ =>
    every_bitModify (.priority i _)

theorem acknowledges_loadTxb (i : Fin 3) (frame : CanFrame) (g : Stage) :
    (loadTxb i frame).Follows Acknowledges g fun _ g' => g' = g := by
  by_cases h : frame.dlc.toNat ≤ 8
  · exact acknowledges_of_inert (inert_loadTxb i h) g
  · rw [loadTxb, if_neg h]
    exact fun r => Empty.elim r

/-- The service of a buffer: an access leaves an array only if the frame does not fit. -/
theorem heeds_serveTxb (i : Fin 3) {rts : BitVec 8} (hrts : rts &&& 0xF8 = 0) :
    (serveTxb i rts).Each Fit Heeds fun rts' => rts' &&& 0xF8 = 0 := by
  refine ⟨trivial, fun _ _ => ⟨trivial, fun _ _ => ⟨trivial, fun empty _ => ?_⟩⟩⟩
  cases empty with
  | true => exact ⟨trivial, fun _ _ => ⟨trivial, fun _ _ => ⟨trivial, fun _ _ => hrts⟩⟩⟩
  | false =>
      refine ⟨trivial, fun frame hfit => ⟨trivial, fun _ _ => ?_⟩⟩
      exact (heeds_of_inert (inert_loadTxb i hfit)).bind Heeds.bind fun _ _ =>
        and_or_bit_eq_zero hrts i

theorem acknowledges_serveTxb (i : Fin 3) {rts : BitVec 8} (hrts : rts &&& 0xF8 = 0)
    {e : Option (BitVec 8)} :
    (serveTxb i rts).Follows Acknowledges ⟨e, false⟩ fun rts' g =>
      g = ⟨e, false⟩ ∧ rts' &&& 0xF8 = 0 := by
  have hinner : ∀ {o : Op} {r : Ans o} {g : Stage}, o.Inner → Acknowledges g o r g :=
    fun h => .inert (.inner h)
  refine fun _ => ⟨_, hinner trivial, fun _ => ⟨_, hinner trivial, fun empty =>
    ⟨_, hinner trivial, ?_⟩⟩⟩
  cases empty with
  | true =>
      exact fun _ => ⟨_, .lock, fun _ => ⟨_, hinner trivial, fun _ => ⟨_, .unlock, rfl, hrts⟩⟩⟩
  | false =>
      refine fun frame => ⟨_, hinner trivial, fun _ => ⟨_, hinner trivial, ?_⟩⟩
      exact (acknowledges_loadTxb i frame _).seq fun _ => ⟨rfl, and_or_bit_eq_zero hrts i⟩

/-- The loop of `transmit_message` ends with a mask of transmit buffers. -/
theorem heeds_transmitLoop (tx : BitVec 8) (is : List (Fin 3)) {rts : BitVec 8}
    (hrts : rts &&& 0xF8 = 0) :
    (transmitLoop tx is rts).Each Fit Heeds fun rts' => rts' &&& 0xF8 = 0 := by
  induction is generalizing rts with
  | nil => exact hrts
  | cons i is ih =>
      unfold transmitLoop
      split
      · exact (heeds_serveTxb i hrts).bind Heeds.bind fun _ => ih
      · exact ih hrts

theorem acknowledges_transmitLoop (tx : BitVec 8) (is : List (Fin 3)) {rts : BitVec 8}
    (hrts : rts &&& 0xF8 = 0) {e : Option (BitVec 8)} :
    (transmitLoop tx is rts).Follows Acknowledges ⟨e, false⟩ fun rts' g =>
      g = ⟨e, false⟩ ∧ rts' &&& 0xF8 = 0 := by
  induction is generalizing rts with
  | nil => exact ⟨rfl, hrts⟩
  | cons i is ih =>
      unfold transmitLoop
      split
      · refine Follows.bind ((acknowledges_serveTxb i hrts).mono ?_)
        rintro rts' _ ⟨rfl, hrts'⟩
        exact ih hrts'
      · exact ih hrts

theorem transmitLoop_append (tx : BitVec 8) (is js : List (Fin 3)) (rts : BitVec 8) :
    transmitLoop tx (is ++ js) rts = (transmitLoop tx is rts).bind (transmitLoop tx js) := by
  induction is generalizing rts with
  | nil => rfl
  | cons i is ih =>
      rw [List.cons_append]
      unfold transmitLoop
      split
      · rw [bind_eq, bind_eq, bind_assoc]
        exact congrArg (serveTxb i rts).bind (funext ih)
      · exact ih rts

/-- The loop serves every buffer in the mask. -/
theorem inLoop_transmitLoop {tx : BitVec 8} {n : Fin 3} (h : tx.getLsbD n = true) :
    Handling.InLoop n (transmitLoop tx [2, 1, 0] 0) := by
  have hsplit : ∃ is js : List (Fin 3), [2, 1, 0] = is ++ n :: js := by
    have hmem : ∀ n : Fin 3, n ∈ ([2, 1, 0] : List (Fin 3)) := by decide
    exact List.append_of_mem (hmem n)
  obtain ⟨is, js, heq⟩ := hsplit
  refine ⟨transmitLoop tx is 0, transmitLoop tx js, ?_⟩
  rw [heq, transmitLoop_append]
  refine congrArg (transmitLoop tx is 0).bind (funext fun rts => ?_)
  rw [transmitLoop, if_pos h]
  rfl

/-- `transmit_message` clears the flags first, and goes on with the loop. -/
theorem heeds_transmitMessage (tx : BitVec 8) :
    (transmitMessage tx).Each Fit Heeds fun _ => True := by
  refine ⟨⟨fun mask heq i hi => ⟨tx, mcp2515Rts, ?_, fun _ => rfl⟩,
    fun heq => absurd (List.cons.inj heq).1 (by decide)⟩, fun _ _ => ?_⟩
  · simp only [List.cons.injEq] at heq
    rwa [← heq.2.2.1, getLsbD_txif] at hi
  · have hloop := @heeds_transmitLoop tx [2, 1, 0] 0 (by decide)
    exact hloop.bind Heeds.bind fun rts hrts =>
      ⟨Op.Inert.heeds _ (.request rts hrts), fun _ _ => trivial⟩

theorem acknowledges_transmitMessage {tx : BitVec 8} (htx : tx &&& 0xF8 = 0)
    {e : Option (BitVec 8)} :
    (transmitMessage tx).Follows Acknowledges ⟨e, false⟩ fun _ g => g = ⟨e, false⟩ := by
  have hloop := @acknowledges_transmitLoop tx [2, 1, 0] 0 (by decide) e
  have hrest : ((transmitLoop tx [2, 1, 0] 0).bind mcp2515Rts).Follows Acknowledges ⟨e, false⟩
      fun _ g => g = ⟨e, false⟩ := by
    refine Follows.bind (hloop.mono ?_)
    rintro rts _ ⟨rfl, hrts⟩
    exact fun r => ⟨_, .inert (.request rts hrts), rfl⟩
  exact fun r => ⟨_, .take tx r htx, hrest⟩

theorem heeds_rxQueuePush (frame : CanFrame) :
    (rxQueuePush frame).Each Fit Heeds fun _ => True := by
  refine ⟨trivial, fun full _ => ?_⟩
  cases full with
  | true => exact trivial
  | false => exact ⟨trivial, fun _ _ => trivial⟩

/-- A message is pushed right after it has been read. -/
theorem heeds_receiveRxb (rxbIdx : ℤ) (frame : CanFrame) :
    (receiveRxb rxbIdx frame).Each Fit Heeds fun _ => True := by
  have hpush : ∀ (r : List (BitVec 8)) (p : Io CanFrame), (lengthOf r).toNat ≤ 8 →
      ((if (decodeFrame r frame).dlc.toNat ≤ 8 then Prog.ret (decodeFrame r frame)
        else p).bind fun frame => (rxQueuePush frame).bind fun _ =>
          (op .queueLockPost).bind fun _ => .ret frame : Io CanFrame) =
      (rxQueuePush (decodeFrame r frame)).bind fun _ =>
        (op .queueLockPost).bind fun _ => .ret (decodeFrame r frame) := by
    intro r p hr
    have hdlc : (decodeFrame r frame).dlc = lengthOf r := rfl
    rw [hdlc, if_pos hr]
    rfl
  refine ⟨⟨fun mask heq => absurd (List.cons.inj heq).1 (by decide),
      fun _ => ⟨rfl, fun r hr => ?_⟩⟩,
    fun r hr => ?_⟩
  · exact ⟨_, _, message_decodeFrame hr frame, hpush r _ hr⟩
  · refine cast (congrArg (Each Fit Heeds · fun _ => True) (hpush r _ hr).symm) ?_
    exact (heeds_rxQueuePush _).bind Heeds.bind fun _ _ => ⟨trivial, fun _ _ => trivial⟩

theorem acknowledges_receiveRxb (rxbIdx : ℤ) (frame : CanFrame) (g : Stage) :
    (receiveRxb rxbIdx frame).Follows Acknowledges g fun _ g' => g' = g := by
  have hinner : ∀ {o : Op} {r : Ans o}, o.Inner → Acknowledges g o r g := fun h => .inert (.inner h)
  have hrecv : (recvRxb rxbIdx frame).Follows Acknowledges g fun _ g' => g' = g := by
    refine fun r => ⟨_, .readRxb r, ?_⟩
    show Follows Acknowledges (if (decodeFrame r frame).dlc.toNat ≤ 8 then _ else _) _ _
    split
    · rfl
    · exact fun r => Empty.elim r
  have hpush : ∀ frame, (rxQueuePush frame).Follows Acknowledges g fun _ g' => g' = g := by
    refine fun frame full => ⟨_, hinner trivial, ?_⟩
    cases full with
    | true => rfl
    | false => exact fun _ => ⟨_, hinner trivial, rfl⟩
  exact hrecv.seq fun frame => (hpush frame).seq fun _ _ => ⟨_, hinner trivial, rfl⟩

theorem heeds_receiveMessage (rx : BitVec 8) (frame : CanFrame) :
    (receiveMessage rx frame).Each Fit Heeds fun _ => True := by
  have hif : ∀ k frame, (receiveIf rx k frame).Each Fit Heeds fun _ => True := by
    intro k frame
    unfold receiveIf
    split
    · exact heeds_receiveRxb k frame
    · trivial
  exact (hif 0 frame).bind Heeds.bind fun frame _ =>
    (hif 1 frame).bind Heeds.bind fun _ _ => trivial

theorem acknowledges_receiveMessage (rx : BitVec 8) (frame : CanFrame) (g : Stage) :
    (receiveMessage rx frame).Follows Acknowledges g fun _ g' => g' = g := by
  have hif : ∀ k frame, (receiveIf rx k frame).Follows Acknowledges g fun _ g' => g' = g := by
    intro k frame
    unfold receiveIf
    split
    · exact acknowledges_receiveRxb k frame g
    · rfl
  exact (hif 0 frame).seq fun frame => (hif 1 frame).seq fun _ => rfl

/-- The transmit flags of a byte, as `transmit_message` takes them. -/
theorem txif_and_eq_zero (flags : BitVec 8) : (flags &&& txifMask) >>> 2 &&& 0xF8 = 0 := by
  have hmask : txifMask >>> 2 &&& 0xF8 = 0 := by decide
  rw [BitVec.ushiftRight_and_distrib, BitVec.and_assoc, hmask]
  exact BitVec.and_zero

theorem each_onFlag {flags mask : BitVec 8} {p : Io Unit} (h : p.Each Fit Heeds fun _ => True) :
    (onFlag flags mask p).Each Fit Heeds fun _ => True := by
  unfold onFlag
  split
  · exact h
  · trivial

theorem heeds_irqHandler (frame : CanFrame) : (irqHandler frame).Each Fit Heeds fun _ => True := by
  have hwake : (mcp2515BitModify canintf canintfWakif 0).Every Op.Inert :=
    inert_clearFlags (by decide)
  refine ⟨heeds_of_cmd (by decide), fun r _ => ?_⟩
  refine (each_onFlag (heeds_of_inert inert_reportMessageError)).bind Heeds.bind fun _ _ => ?_
  refine (each_onFlag (heeds_of_inert hwake)).bind Heeds.bind fun _ _ => ?_
  refine (each_onFlag heeds_reportError).bind Heeds.bind fun _ _ => ?_
  refine (each_onFlag (heeds_transmitMessage _)).bind Heeds.bind fun _ _ => ?_
  refine (each_onFlag (heeds_receiveMessage _ frame)).bind Heeds.bind fun _ _ => ?_
  exact ⟨trivial, fun _ _ => trivial⟩

theorem acknowledges_irqHandler (frame : CanFrame) :
    (irqHandler frame).Follows Acknowledges ⟨none, false⟩ fun _ g => g = ⟨none, false⟩ := by
  have hwake : (mcp2515BitModify canintf canintfWakif 0).Every Op.Inert :=
    inert_clearFlags (by decide)
  refine fun r => ⟨_, .inert (.read canintf 1 (by decide)), ?_⟩
  refine (follows_onFlag (acknowledges_of_inert inert_reportMessageError _) rfl).seq fun _ => ?_
  refine (follows_onFlag (acknowledges_of_inert hwake _) rfl).seq fun _ => ?_
  refine (follows_onFlag (acknowledges_reportError false) rfl).seq fun _ => ?_
  refine (follows_onFlag (acknowledges_transmitMessage (txif_and_eq_zero _)) rfl).seq fun _ => ?_
  refine (follows_onFlag (acknowledges_receiveMessage _ frame _) rfl).seq fun _ => ?_
  exact fun _ => ⟨_, .inert (.inner trivial), rfl⟩

end Programs

/-! ## Steps -/

/-- What an operation that clears a flag must be. -/
structure Op.Lowers (o : Op) (c c' : Chip) : Prop where
  tx : ∀ i, c.flagged i = true → c'.flagged i = false →
    ∃ mask, o = .spi [0x05, canintf, mask, 0] 0 ∧ mask.getLsbD (i + 2) = true
  err : c.erring = true → c'.erring = false → ∀ n, c.overrun n = false
  rx : ∀ n, c.received n = true → c'.received n = false → n = 0 ∧ o = .spi [0x90 ||| 0] 13

/-- No flag is cleared. -/
def Chip.Keeps (c c' : Chip) : Prop := ∀ k < 6,
  (c.reg (toAddr canintf)).getLsbD k = true → (c'.reg (toAddr canintf)).getLsbD k = true

theorem Chip.Keeps.elim {c c' : Chip} (h : c.Keeps c') {k : ℕ} (hk : k < 6)
    (hset : (c.reg (toAddr canintf)).getLsbD k = true)
    (hclear : (c'.reg (toAddr canintf)).getLsbD k = false) {p : Prop} : p :=
  absurd ((h k hk hset).symm.trans hclear) Bool.true_eq_false.mp

theorem Chip.Keeps.lowers {o : Op} {c c' : Chip} (h : c.Keeps c') : o.Lowers c c' where
  tx _ hi hi' := h.elim (by omega) hi hi'
  err he he' := h.elim (by decide) he he'
  rx _ hn hn' := h.elim (by omega) hn hn'

theorem Chip.SameFlags.keeps {c c' : Chip} (h : c.SameFlags c') : c.Keeps c' :=
  fun k hk => (h.canintf k hk).trans

theorem Op.lowers_of_clear {c : Chip} {mask : BitVec 8}
    (hrx : ∀ n : Fin 2, mask.getLsbD n = false)
    (herr : mask.getLsbD 5 = true → ∀ n, c.overrun n = false) :
    (Op.spi [0x05, canintf, mask, 0] 0).Lowers c (c.spi [0x05, canintf, mask, 0] 0).2 where
  tx i hi hi' := by
    have hflag := c.canintf_clear mask (k := i + 2) (by omega)
    rw [Chip.flagged] at hi hi'
    rw [hi', hi, Bool.true_and] at hflag
    exact ⟨mask, rfl, by simpa using hflag⟩
  err he he' := by
    have hflag := c.canintf_clear mask (k := 5) (by decide)
    rw [Chip.erring] at he he'
    rw [he', he, Bool.true_and] at hflag
    exact herr (by simpa using hflag)
  rx n hn hn' := by
    have hflag := c.canintf_clear mask (k := n) (by omega)
    rw [Chip.received] at hn hn'
    rw [hn', hn, hrx n] at hflag
    cases hflag

/-- READ RX BUFFER clears the flag of buffer 0 only. -/
theorem Op.lowers_readRxb (c : Chip) :
    (Op.spi [0x90 ||| 0] 13).Lowers c (c.spi [0x90 ||| 0] 13).2 := by
  have hkeep : ∀ k, k < 8 → k ≠ 0 → (c.reg (toAddr canintf)).getLsbD k = true →
      ¬ ((c.spi [0x90 ||| 0] 13).2.reg (toAddr canintf)).getLsbD k = false := by
    intro k hk hne hset hclear
    rw [Chip.canintf_readRxb _ hk, hset, decide_eq_true hne] at hclear
    cases hclear
  refine ⟨fun i hi hi' => ?_, fun he he' => ?_, fun n hn hn' => ⟨?_, rfl⟩⟩
  · exact absurd hi' (hkeep _ (by omega) (by omega) hi)
  · exact absurd he' (hkeep 5 (by decide) (by decide) he)
  · by_contra hne
    exact hkeep n (by omega) (fun hc => hne (Fin.ext hc)) hn hn'

namespace Handling

/-- The ghost state fits the state: `report_error` has seen all overflows there are. -/
structure At (g : Stage) (d : Driver) (reporting : Bool) : Prop where
  locked : d.txbLock = g.locked
  reporting : reporting = g.seen.isSome
  seen : ∀ m, g.seen = some m → ∀ n : Fin 2, d.chip.overrun n = true → m.getLsbD (n + 6) = true

theorem At.of_sameFlags {g : Stage} {d d' : Driver} {b : Bool} (h : At g d b)
    (hflags : d.chip.SameFlags d'.chip) (hlock : d'.txbLock = d.txbLock) : At g d' b where
  locked := hlock.trans h.locked
  reporting := h.reporting
  seen m hm n hn := h.seen m hm n ((hflags.overrun n).symm.trans hn)

/-- One operation of the handler. -/
theorem At.exec {g g' : Stage} {o : Op} {r : Ans o} {d d' : Driver} {b : Bool} (h : At g d b)
    (hnext : Acknowledges g o r g') (hexec : Can.exec o d = some (r, d')) :
    At g' d' (o.reports b) ∧ o.Lowers d.chip d'.chip := by
  cases hnext with
  | inert ho =>
      obtain ⟨hflags, hlock, hreports⟩ := ho.exec b hexec
      rw [hreports]
      exact ⟨h.of_sameFlags hflags hlock, hflags.keeps.lowers⟩
  | look r =>
      obtain ⟨rfl, rfl⟩ := exec_spi hexec
      refine ⟨⟨h.locked, rfl, ?_⟩, (Chip.SameFlags.refl _).keeps.lowers⟩
      rintro m hm n hn
      have hone : ∀ n : Fin 2, eflgRxovr.getLsbD (n + 6) = true := by decide
      rw [← Option.some.inj hm, BitVec.getLsbD_and, hone n, Bool.and_true]
      exact hn
  | clear m r =>
      obtain ⟨-, rfl⟩ := exec_spi hexec
      refine ⟨⟨h.locked, (reports_of_modify b (.inl (by decide))).trans h.reporting, ?_⟩,
        Chip.Keeps.lowers fun k _ hk => ?_⟩
      · intro m' _ n hn
        rw [Chip.overrun_clear, Bool.and_eq_true] at hn
        rw [h.seen m rfl n hn.1] at hn
        exact absurd hn.2 Bool.false_ne_true
      · rwa [Chip.canintf_clear_eflg]
  | done r =>
      obtain ⟨-, rfl⟩ := exec_spi hexec
      refine ⟨⟨h.locked, rfl, nofun⟩, Op.lowers_of_clear (by decide) fun _ n => ?_⟩
      rw [← Bool.not_eq_true]
      intro hn
      exact absurd (h.seen 0 rfl n hn) (by simp)
  | take tx r htx =>
      obtain ⟨-, rfl⟩ := exec_spi hexec
      have hthree : tx.getLsbD 3 = false := getLsbD_of_and_eq_zero htx (by decide)
      have herr : (tx <<< 2).getLsbD 5 = false := by simpa using hthree
      have hne : tx <<< 2 ≠ canintfErrif := by
        intro hc
        rw [hc] at herr
        exact absurd herr (by decide)
      rw [reports_of_modify b (.inr hne)]
      refine ⟨⟨h.locked, h.reporting, fun m hm n hn => h.seen m hm n ?_⟩,
        Op.lowers_of_clear (fun n => ?_) fun hc => ?_⟩
      · rwa [Chip.overrun, Chip.eflg_clear, ← Chip.overrun] at hn
      · rw [BitVec.getLsbD_shiftLeft, decide_eq_true (show n.val < 2 from n.isLt)]
        simp
      · rw [herr] at hc
        cases hc
  | readRxb r =>
      obtain ⟨-, rfl⟩ := exec_spi hexec
      rw [reports_of_cmd b (by decide)]
      refine ⟨⟨h.locked, h.reporting, fun m hm n hn => h.seen m hm n ?_⟩, Op.lowers_readRxb _⟩
      rwa [Chip.overrun, Chip.spi_readRxb, Chip.reg_write_canintf_of_ne _ _ (by decide)] at hn
  | lock =>
      simp only [Can.exec] at hexec
      split at hexec <;> cases hexec
      exact ⟨⟨rfl, h.reporting, h.seen⟩, (Chip.SameFlags.refl _).keeps.lowers⟩
  | unlock =>
      cases hexec
      exact ⟨⟨rfl, h.reporting, h.seen⟩, (Chip.SameFlags.refl _).keeps.lowers⟩

/-- Hardware clears no flag, and sets no overflow flag where a step is careful. -/
theorem hardware_mono {c c' : Chip} {e : Hardware} (h : c.hardware e = some c') :
    c.Keeps c' ∧ ((∀ n, e ≠ .overflow n) → c'.reg (toAddr eflg) = c.reg (toAddr eflg)) := by
  have hor : ∀ (v w : BitVec 8) (k : ℕ), v.getLsbD k = true → (v ||| w).getLsbD k = true := by
    intro v w k hv
    rw [BitVec.getLsbD_or, hv, Bool.true_or]
  have herror : ∀ {flags v : BitVec 8}, c.event (.error flags v) = some c' →
      (∀ k, (c.reg (toAddr canintf)).getLsbD k = true →
        (c'.reg (toAddr canintf)).getLsbD k = true) ∧
        c'.reg (toAddr eflg) = v := by
    intro flags v hevent
    cases hevent
    refine ⟨fun k hk => ?_, Chip.reg_set_self ..⟩
    rw [Chip.reg_set_of_ne (by decide), Chip.reg_set_self]
    exact hor _ _ k hk
  cases e with
  | sent i =>
      simp only [Chip.hardware, Chip.event] at h
      split at h <;> cases h
      have hne : ∀ i : Fin 3, toAddr eflg ≠ toAddr (txbctrl i) := by decide
      refine ⟨fun k _ hk => ?_, fun _ => ?_⟩
      · rw [Chip.reg_set_self]
        exact hor _ _ k hk
      · rw [Chip.reg_set_of_ne (by decide), Chip.reg_set_of_ne (hne i)]
  | receive n buf =>
      simp only [Chip.hardware, Chip.event] at h
      split at h <;> cases h
      refine ⟨fun k _ hk => ?_, fun _ => ?_⟩
      · rw [Chip.reg_set_self]
        exact hor _ _ k hk
      · rw [Chip.reg_set_of_ne (by decide), Chip.reg_fill_of_lt _ _ (by decide)]
  | overflow n =>
      simp only [Chip.hardware] at h
      split at h
      · exact ⟨fun k _ => (herror h).1 k, fun hne => absurd rfl (hne n)⟩
      · cases h
  | messageError => exact ⟨fun k _ => (herror h).1 k, fun _ => (herror h).2⟩

/-- The invariant: what is left of the handler obeys the protocol, from a ghost state that fits. -/
structure Sound (g : Stage) (s : Handling) : Prop where
  here : At g s.driver s.reporting
  follows : s.handler.Follows Acknowledges g fun _ g' => g' = ⟨none, false⟩
  heeds : s.handler.Each Fit Heeds fun _ => True

theorem sound_waiting {s : Handling} (h : s.Waiting) : Sound ⟨none, false⟩ s := by
  refine ⟨⟨h.txbLock, h.reporting, nofun⟩, ?_, ?_⟩
  · rw [h.handler]
    rfl
  · rw [h.handler]
    trivial

theorem fit_of_fits {α : Type} {o : Op} {k : Ans o → Io α} {d d' : Driver} {r : Ans o}
    (hheeds : Heeds α o k) (h : o.fits d = true) (hexec : Can.exec o d = some (r, d')) :
    Fit o r := by
  unfold Fit
  split
  · obtain ⟨rfl, -⟩ := exec_spi hexec
    rw [(hheeds.2 rfl).1]
    exact of_decide_eq_true h
  · cases hexec
    exact of_decide_eq_true h
  · trivial

/-- The handler waits for nothing else than the registers it polls. -/
theorem isSome_of_fits {g : Stage} {o : Op} {k : Ans o → Io Unit} {d : Driver} {b : Bool}
    (hat : At g d b) (hfollows : ∀ r, ∃ g', Acknowledges g o r g') (hheeds : Heeds Unit o k)
    (h : o.fits d = true) : (Can.exec o d).isSome = true := by
  cases o with
  | spinWhileNonzero reg =>
      have hzero : d.chip.read (toAddr reg) = 0 := of_decide_eq_true h
      simp only [Can.exec, if_pos hzero, Option.isSome_some]
  | txbLock =>
      obtain ⟨g', hnext⟩ := hfollows ()
      cases hnext with
      | inert h =>
          cases h with
          | inner h => exact h.elim
      | lock =>
          have hfree : ¬ d.txbLock = true := by rw [hat.locked]; exact Bool.false_ne_true
          simp only [Can.exec, if_neg hfree, Option.isSome_some]
  | queueLockWait =>
      obtain ⟨g', hnext⟩ := hfollows ()
      cases hnext with
      | inert h =>
          cases h with
          | inner h => exact h.elim
  | undefined => exact hheeds.elim
  | _ => rfl

theorem serviced_of_keeps {s s' : Handling} (h : s.driver.chip.Keeps s'.driver.chip) :
    Serviced s s' where
  tx _ hi hi' := h.elim (by omega) hi hi'
  err he he' := h.elim (by decide) he he'
  rx _ hn hn' := h.elim (by omega) hn hn'

/-- Between the read of `EFLG` and the clear of `ERRIF`, a careful step leaves `EFLG` alone. -/
theorem At.of_hardware {g : Stage} {d : Driver} {b : Bool} {chip : Chip} {e : Hardware}
    (h : At g d b)
    (hevent : d.chip.hardware e = some chip) (hcareful : b = true → ∀ n, e ≠ .overflow n) :
    At g { d with chip := chip } b where
  locked := h.locked
  reporting := h.reporting
  seen m hm n hn := by
    have hb : b = true := by rw [h.reporting, hm, Option.isSome_some]
    refine h.seen m hm n ?_
    rw [Chip.overrun] at hn
    rwa [(hardware_mono hevent).2 (hcareful hb)] at hn

/-- One step. -/
theorem Sound.step {g : Stage} {s s' : Handling} {a : Interruption} {u : Unit} (h : Sound g s)
    (hstep : s.CarefulStep a u s') : (∃ g', Sound g' s') ∧ Serviced s s' := by
  obtain ⟨⟨hat, hfollows, hheeds⟩, hstep, hcareful⟩ := h, hstep
  obtain ⟨d, p, b⟩ := s
  cases a with
  | irq frame =>
      cases p with
      | call o k => cases hstep
      | ret u =>
          cases hstep
          have hg : g = ⟨none, false⟩ := hfollows
          exact ⟨⟨g, hat, hg ▸ acknowledges_irqHandler frame, heeds_irqHandler frame⟩,
            serviced_of_keeps (Chip.SameFlags.refl _).keeps⟩
  | handler =>
      cases p with
      | ret u => cases hstep
      | call o k =>
          obtain ⟨⟨r, d'⟩, hexec, rfl⟩ := Option.map_eq_some_iff.1 hstep
          obtain ⟨g', hnext, hrest⟩ := hfollows r
          obtain ⟨hat', hclears⟩ := hat.exec hnext hexec
          have hfit : Fit o r := fit_of_fits hheeds.1 hcareful hexec
          refine ⟨⟨g', hat', hrest, hheeds.2 r hfit⟩, fun n hn hn' => ?_, hclears.err,
            fun n hn hn' => ?_⟩
          · obtain ⟨mask, rfl, hmask⟩ := hclears.tx n hn hn'
            obtain ⟨tx, rest, htx, hk⟩ := hheeds.1.1 mask rfl n hmask
            exact ⟨tx, rest, inLoop_transmitLoop htx, hk r⟩
          · obtain ⟨rfl, rfl⟩ := hclears.rx n hn hn'
            obtain ⟨frame, rest, hmessage, hk⟩ := (hheeds.1.2 rfl).2 r hfit
            obtain ⟨rfl, -⟩ := exec_spi hexec
            exact ⟨frame, rest, hmessage, hk⟩
  | hardware e =>
      obtain ⟨chip, hevent, rfl⟩ := Option.map_eq_some_iff.1 hstep
      refine ⟨⟨g, hat.of_hardware hevent ?_, hfollows, hheeds⟩,
        serviced_of_keeps (hardware_mono hevent).1⟩
      rintro rfl n rfl
      cases hcareful

/-- In runs in which no message overflows between the read of `EFLG` and the clear of `ERRIF`, and
all operations are fit, what is acknowledged is serviced; and the handler gets on. -/
theorem events_serviced {s : Handling} (h : Transition.Reachable CarefulStep Waiting s) :
    (∀ a u s', s.CarefulStep a u s' → Serviced s s') ∧
      ∀ o k, s.handler = .call o k → o.fits s.driver = true →
        (Can.exec o s.driver).isSome = true := by
  obtain ⟨g, hsound⟩ := h.invariant (I := fun s => ∃ g, Sound g s)
    (fun _ hw => ⟨_, sound_waiting hw⟩) fun _ _ _ _ hI hstep => (hI.choose_spec.step hstep).1
  refine ⟨fun a u s' hstep => (hsound.step hstep).2, fun o k hcall hfits => ?_⟩
  obtain ⟨hat, hfollows, hheeds⟩ := hsound
  rw [hcall] at hfollows hheeds
  exact isSome_of_fits hat (fun r => (hfollows r).imp fun _ h => h.1) hheeds.1 hfits

/-! ### Two runs -/

/-- The handler waits, with some flags set. -/
def flagsSet (flags : BitVec 8) : Handling where
  driver :=
    (System.booted ⟨fun a => if a = toAddr canintf then flags else 0⟩ fun _ => .bare 0).driver
  handler := .ret ()
  reporting := false

theorem waiting_flagsSet (flags : BitVec 8) : (flagsSet flags).Waiting := ⟨rfl, rfl, rfl⟩

/-- A careful step, as a function. -/
def carefully (s : Handling) (a : Interruption) : Option Handling :=
  if s.careful a then s.step a else none

theorem carefulStep_of_carefully {s s' : Handling} {a : Interruption}
    (h : s.carefully a = some s') :
    s.CarefulStep a () s' := by
  unfold carefully at h
  split at h
  · exact ⟨h, ‹_›⟩
  · cases h

/-- A message is in receive buffer 0, and the handler comes to read it. -/
theorem run_message :
    (([.irq (.bare 0), .handler].foldlM carefully (flagsSet 0x01)).bind fun s =>
      (s.carefully .handler).map fun s' => (s.driver.chip.received 0, s'.driver.chip.received 0)) =
    some (true, false) := rfl

theorem events_serviced_message : ∃ s s' frame rest, Transition.Reachable CarefulStep Waiting s ∧
    s.CarefulStep .handler () s' ∧ s'.handler = (rxQueuePush frame).bind rest ∧
      frame.message = messageOf (s.driver.chip.rxbImage 0) := by
  obtain ⟨s, hrun, hs⟩ := Option.bind_eq_some_iff.1 run_message
  obtain ⟨s', hstep, hflags⟩ := Option.map_eq_some_iff.1 hs
  obtain ⟨hset, hclear⟩ := Prod.mk.inj hflags
  have hreach : Transition.Reachable CarefulStep Waiting s :=
    Transition.Reachable.foldlM_of (fun _ _ _ h => ⟨(), carefulStep_of_carefully h⟩) hrun
      (.of_init (waiting_flagsSet 0x01))
  have hcareful := carefulStep_of_carefully hstep
  obtain ⟨frame, rest, hmessage, hpush⟩ :=
    ((events_serviced hreach).1 _ _ _ hcareful).rx 0 hset hclear
  exact ⟨s, s', frame, rest, hreach, hcareful, hpush, hmessage⟩

/-- A message is lost after `report_error` has read `EFLG`, and before it clears `ERRIF`. -/
theorem run_overflow :
    (([.irq (.bare 0), .handler, .handler, .hardware (.overflow 0)].foldlM step
      (flagsSet 0x21)).bind
      fun s => (s.step .handler).map fun s' =>
        (s.driver.chip.erring, s'.driver.chip.erring, s.driver.chip.overrun 0)) =
    some (true, false, true) := rfl

theorem overflow_not_serviced :
    ¬ ∀ s, Transition.Reachable Step Waiting s → ∀ a u s', s.Step a u s' → Serviced s s' := by
  intro h
  obtain ⟨s, hrun, hs⟩ := Option.bind_eq_some_iff.1 run_overflow
  obtain ⟨s', hstep, hflags⟩ := Option.map_eq_some_iff.1 hs
  simp only [Prod.mk.injEq] at hflags
  have hreach : Transition.Reachable Step Waiting s :=
    Transition.Reachable.foldlM hrun (.of_init (waiting_flagsSet 0x21))
  have hseen := (h s hreach .handler () s' hstep).err hflags.1 hflags.2.1 0
  exact absurd (hflags.2.2.symm.trans hseen) Bool.true_eq_false.mp

end Handling

end Can
end Tk1Bsp
