import Tk1Bsp.Can.Device
import Tk1Bsp.Can.Ownership

/-!
# Traffic leaves the settings alone

Acceptance filters and masks, bit timing, the enabled interrupts and the receive modes are written
when the controller is set up.  None of the operations of the two threads, and nothing that the
controller does by itself, changes them (`spares_body`, `spares_irqHandler`, `sameSettings_event`).
This is so for each operation as it stands, whatever the thread has read before.
-/

namespace Tk1Bsp
namespace Can

open Prog

namespace Chip

/-- A receive control register. -/
def isRxbctrl (a : Addr) : Prop := a = toAddr (rxbctrl 0) ∨ a = toAddr (rxbctrl 1)

instance : DecidablePred isRxbctrl := fun _ => inferInstanceAs (Decidable (_ ∨ _))

/-- A register that holds a setting.  Besides the named ones these are the two that set up the
pins. -/
def isSetting (a : Addr) : Prop :=
  isFilter a ∨ isTiming a ∨ isRxbctrl a ∨ a = toAddr caninte ∨ a.val = 0x0C ∨ a.val = 0x0D

instance : DecidablePred isSetting := fun _ => inferInstanceAs (Decidable (_ ∨ _))

/-- What a register sets; in a receive control register, that is the receive mode. -/
def setting (c : Chip) (a : Addr) : BitVec 8 :=
  if isRxbctrl a then c.reg a &&& rxbctrlRxmMask else c.reg a

/-- The same settings. -/
def SameSettings (c c' : Chip) : Prop := ∀ a, isSetting a → c'.setting a = c.setting a

variable {c c' c'' : Chip}

theorem SameSettings.refl (c : Chip) : c.SameSettings c := fun _ _ => rfl

theorem SameSettings.trans (h : c.SameSettings c') (h' : c'.SameSettings c'') :
    c.SameSettings c'' := fun a ha => (h' a ha).trans (h a ha)

theorem sameSettings_of_reg (h : ∀ a, isSetting a → c'.reg a = c.reg a) : c.SameSettings c' := by
  intro a ha
  rw [setting, setting, h a ha]

/-- Where the settings are. -/
theorem val_of_isSetting {a : Addr} (h : isSetting a) :
    a.val < 0x0E ∨ 0x10 ≤ a.val ∧ a.val < 0x1C ∨ 0x20 ≤ a.val ∧ a.val < 0x2C ∨ a.val = 0x60 ∨
      a.val = 0x70 := by
  revert h
  revert a
  decide

theorem sameSettings_write (c : Chip) {a : Addr} (h : ¬ isSetting a) (v : BitVec 8) :
    c.SameSettings (c.write a v) := by
  refine sameSettings_of_reg fun b hb => reg_write_of_ne (fun hab => h (hab ▸ hb)) ?_
  have := val_of_isSetting hb
  omega

theorem sameSettings_set (c : Chip) {a : Addr} (h : ¬ isSetting a) (v : BitVec 8) :
    c.SameSettings (c.set a v) :=
  sameSettings_of_reg fun _ hb => reg_set_of_ne fun hab => h (hab ▸ hb)

theorem not_isSetting_txbctrl (i : Fin 3) : ¬ isSetting (toAddr (txbctrl i)) := by
  revert i
  decide

theorem sameSettings_load (c : Chip) (i : Fin 3) {buf : List (BitVec 8)} (hbuf : buf.length ≤ 13) :
    c.SameSettings (c.spi ((0x40 ||| (BitVec.ofInt 8 i * 2 ||| 0)) :: buf) 0).2 := by
  refine sameSettings_of_reg fun a ha => ?_
  have hval := val_of_isSetting ha
  rw [reg_load c i hbuf, if_neg]
  omega

theorem sameSettings_rts (c : Chip) {mask : BitVec 8} (h : mask &&& 0xF8 = 0) :
    c.SameSettings (c.spi [0x80 ||| mask] 0).2 := by
  rw [spi_rts c h]
  refine sameSettings_of_reg fun a ha => reg_requestAll_of_ne c _ fun i _ hi => ?_
  exact not_isSetting_txbctrl i (hi ▸ ha)

/-- What the controller does by itself. -/
theorem sameSettings_event {e : ChipEvent} (h : c.event e = some c') : c.SameSettings c' := by
  cases e with
  | sent i =>
      obtain ⟨-, hc⟩ := Option.ite_none_right_eq_some.1 h
      obtain rfl := Option.some.inj hc
      exact (sameSettings_set _ (not_isSetting_txbctrl i) _).trans
        (sameSettings_set _ (by decide) _)
  | receive n buf =>
      obtain ⟨-, hc⟩ := Option.ite_none_left_eq_some.1 h
      obtain rfl := Option.some.inj hc
      refine SameSettings.trans (sameSettings_of_reg fun a ha => ?_)
        (sameSettings_set _ (by decide) _)
      have hval := val_of_isSetting ha
      exact dif_neg (by omega)
  | error flags e =>
      obtain rfl := Option.some.inj h
      exact (sameSettings_set _ (by decide) _).trans (sameSettings_set _ (by decide) _)

end Chip

/-! ## Operations -/

/-- The operations of the two threads, as far as the controller is concerned. -/
inductive Op.Traffic : Op → Prop
  | plain {o : Op} (h : o.Plain ∨ o.Offline) : o.Traffic
  | flags (mask val : BitVec 8) : Op.Traffic (.spi [0x05, canintf, mask, val] 0)
  | load (i : Fin 3) (buf : List (BitVec 8)) (hbuf : buf.length ≤ 13) : (loadOp i buf).Traffic
  | request (mask : BitVec 8) (hmask : mask &&& 0xF8 = 0) : Op.Traffic (.spi [0x80 ||| mask] 0)

theorem nonempty_of_not_traffic (o : Op) (h : ¬ o.Traffic) : Nonempty (Ans o) := by
  cases o with
  | spi txbuf rcount => exact ⟨[]⟩
  | _ => exact absurd (.plain (.inr trivial)) h

theorem traffic_body (c : Call) : c.body.Every Op.Traffic := by
  refine (directs_body c).every nonempty_of_not_traffic fun g o r g' h => ?_
  cases h with
  | plain h => exact .plain h
  | aim i r h => exact .plain (.inl (.read _ 1))
  | load i buf r hbuf => exact .load i buf hbuf
  | request i r => exact .request _ (and_bit_eq_zero i)
  | raise i r => exact .flags _ _

theorem traffic_irqHandler (frame : CanFrame) : (irqHandler frame).Every Op.Traffic := by
  refine (handles_irqHandler frame).every nonempty_of_not_traffic fun g o r g' h => ?_
  cases h with
  | plain h => exact .plain h
  | notice r => exact .plain (.inl (.read _ 1))
  | take mask r h => exact .flags _ _
  | load i buf r hbuf h => exact .load i buf hbuf
  | request mask r hmask h => exact .request mask hmask

/-- An operation that leaves the settings alone. -/
def Op.Spares : Op → Prop
  | .spi txbuf rcount => ∀ c : Chip, c.SameSettings (c.spi txbuf rcount).2
  | _ => True

theorem spares_bitModify {reg : BitVec 8} (h : ¬ Chip.isSetting (toAddr reg)) (mask val : BitVec 8) :
    Op.Spares (.spi [0x05, reg, mask, val] 0) :=
  fun c => Chip.sameSettings_write c h _

theorem spares_plain {o : Op} (h : o.Plain ∨ o.Offline) : o.Spares := by
  obtain h | h := h
  · cases h with
    | read reg n => exact fun c => .refl c
    | readRxb n =>
        have hflags : ¬ Chip.isSetting (toAddr canintf) := by decide
        exact fun c => Chip.sameSettings_write c hflags _
    | mode val => exact spares_bitModify (by decide) _ _
    | flags mask h => exact spares_bitModify (by decide) _ _
    | errors mask => exact spares_bitModify (by decide) _ _
    | priority i val => exact spares_bitModify (Chip.not_isSetting_txbctrl i) _ _
    | spin | txbCache | txbAck | intAck | undefined => trivial
  · cases o with
    | spi txbuf rcount => exact h.elim
    | _ => trivial

theorem Op.Traffic.spares {o : Op} (h : o.Traffic) : o.Spares := by
  cases h with
  | plain h => exact spares_plain h
  | flags mask val => exact spares_bitModify (by decide) _ _
  | load i buf hbuf => exact fun c => Chip.sameSettings_load c i hbuf
  | request mask hmask => exact fun c => Chip.sameSettings_rts c hmask

/-! ## The threads -/

theorem spares_body (c : Call) : c.body.Every Op.Spares :=
  (traffic_body c).mono fun _ => Op.Traffic.spares

theorem spares_irqHandler (frame : CanFrame) : (irqHandler frame).Every Op.Spares :=
  (traffic_irqHandler frame).mono fun _ => Op.Traffic.spares

/-- What an operation that spares the settings does to the controller. -/
theorem Op.Spares.exec {o : Op} (h : o.Spares) {d d' : Driver} {r : Ans o}
    (hexec : Can.exec o d = some (r, d')) : d.chip.SameSettings d'.chip := by
  cases o with
  | spi txbuf rcount =>
      obtain ⟨-, rfl⟩ := exec_spi hexec
      exact h d.chip
  | _ =>
      rw [chip_of_offline (by trivial) hexec]
      exact .refl _

end Can
end Tk1Bsp
