import Mathlib.Data.List.FinRange
import Mathlib.Tactic.FinCases
import Tk1Bsp.Can.System

/-!
# What the operations do to the transmit buffers

The invariants of the transmit path speak about three things in the controller: `TXREQ` and the
bytes of each transmit buffer, and the flags `TXnIF`.  Here is what each SPI transaction of the
driver does to them.  Most leave all three alone (`Op.Plain`).
-/

namespace Tk1Bsp
namespace Can

/-! ## Registers -/

namespace Chip

variable {c : Chip} {a b : Addr} {v : BitVec 8}

@[simp] theorem reg_set_self : (c.set a v).reg a = v := Function.update_self ..

theorem reg_set_of_ne (h : b ≠ a) : (c.set a v).reg b = c.reg b := Function.update_of_ne h ..

/-- A register that is written as it is. -/
structure Ordinary (c : Chip) (a : Addr) : Prop where
  status : a.val % 16 < 14
  control : ¬ isTxbctrl a
  config : isFilter a ∨ isTiming a → c.inConfig

theorem Ordinary.write_eq (h : c.Ordinary a) : c.write a v = c.set a v := by
  have hstatus := h.status
  have hconfig : ¬ ((isFilter a ∨ isTiming a) ∧ ¬ c.inConfig) := fun hc => hc.2 (h.config hc.1)
  rw [write, if_neg (by omega), if_neg (by omega), if_neg hconfig, if_neg h.control]

theorem ne_of_status {a : Addr} (h : a.val % 16 < 14) :
    a ≠ toAddr canstat ∧ a ≠ toAddr canctrl := by
  constructor <;> rintro rfl <;> exact absurd h (by decide)

theorem Ordinary.inConfig_set (h : c.Ordinary a) : (c.set a v).inConfig ↔ c.inConfig := by
  unfold inConfig
  rw [reg_set_of_ne (ne_of_status h.status).1.symm]

/-- Writing to ordinary registers in sequence stores the bytes. -/
theorem reg_writeFrom {c : Chip} {a : Addr} {vs : List (BitVec 8)} (hlen : a.val + vs.length < 128)
    (hord : ∀ b : Addr, a.val ≤ b.val → b.val < a.val + vs.length → c.Ordinary b) (b : Addr) :
    (c.writeFrom a vs).reg b =
      if a.val ≤ b.val ∧ b.val < a.val + vs.length then vs.getD (b.val - a.val) 0 else c.reg b := by
  induction vs generalizing c a with
  | nil =>
      rw [List.length_nil, if_neg (by omega)]
      rfl
  | cons v vs ih =>
      rw [List.length_cons] at hlen hord
      have hnext : (a + 1).val = a.val + 1 := by
        rw [Fin.val_add_one_of_lt' (by omega)]
      have ha : c.Ordinary a := hord a le_rfl (by omega)
      rw [writeFrom, ha.write_eq, ih (by omega) ?_]
      · simp only [hnext, List.length_cons]
        by_cases hb : b = a
        · subst hb
          simp
        · have hne : b.val ≠ a.val := fun h => hb (Fin.ext h)
          rw [reg_set_of_ne hb]
          by_cases hin : a.val + 1 ≤ b.val ∧ b.val < a.val + 1 + vs.length
          · have hsub : b.val - a.val = (b.val - (a.val + 1)) + 1 := by omega
            rw [if_pos hin, if_pos (by omega), hsub, List.getD_cons_succ]
          · rw [if_neg hin, if_neg (by omega)]
      · intro b' hle hlt
        have hb' := hord b' (by omega) (by omega)
        exact ⟨hb'.status, hb'.control, fun h => ha.inConfig_set.2 (hb'.config h)⟩

/-- A write concerns the register that is written, and perhaps the mode. -/
theorem reg_write_of_ne (h : b ≠ a) (hstatus : b.val % 16 < 14) :
    (c.write a v).reg b = c.reg b := by
  unfold write
  split_ifs
  · rfl
  · rw [reg_set_of_ne (ne_of_status hstatus).1, reg_set_of_ne (ne_of_status hstatus).2]
  · rfl
  · exact reg_set_of_ne h
  · exact reg_set_of_ne h

/-- A write in another column concerns no mode. -/
theorem canctrl_write (h : a.val % 16 < 14) :
    (c.write a v).reg (toAddr canctrl) = c.reg (toAddr canctrl) := by
  have hne : toAddr canctrl ≠ a := (ne_of_status h).2.symm
  unfold write
  rw [if_neg (by omega), if_neg (by omega)]
  split_ifs
  · rfl
  · exact reg_set_of_ne hne
  · exact reg_set_of_ne hne

/-! ## The transmit buffers -/

theorem val_txbctrl (i : Fin 3) : (toAddr (txbctrl i)).val = 0x30 + 16 * i := by
  revert i
  decide

theorem txbctrl_injective {i j : Fin 3} (h : toAddr (txbctrl i) = toAddr (txbctrl j)) : i = j := by
  have hval := congrArg Fin.val h
  rw [val_txbctrl, val_txbctrl] at hval
  exact Fin.ext (by omega)

theorem reg_write_txbctrl (c : Chip) (i : Fin 3) (v : BitVec 8) :
    (c.write (toAddr (txbctrl i)) v).reg (toAddr (txbctrl i)) =
      (c.reg (toAddr (txbctrl i)) &&& 0xF4) ||| (v &&& 0x0B) := by
  fin_cases i <;> rfl

/-- A register of a transmit buffer, or the interrupt flags. -/
def Concerned (a : Addr) : Prop :=
  a = toAddr canintf ∨ (0x30 ≤ a.val ∧ a.val < 0x5E ∧ a.val % 16 < 14)

instance : DecidablePred Concerned := fun _ => inferInstanceAs (Decidable (_ ∨ _))

/-- The same requests, flags and bytes in the transmit buffers. -/
structure Agrees (c c' : Chip) : Prop where
  requested : ∀ i, c'.requested i = c.requested i
  flagged : ∀ i, c'.flagged i = c.flagged i
  txb : ∀ i k, k < 13 → c'.txb i k = c.txb i k

theorem Agrees.refl (c : Chip) : c.Agrees c := ⟨fun _ => rfl, fun _ => rfl, fun _ _ _ => rfl⟩

theorem concerned_txbctrl (i : Fin 3) : Concerned (toAddr (txbctrl i)) := by
  have := val_txbctrl i
  exact .inr (by omega)

theorem val_txb (i : Fin 3) {k : ℕ} (hk : k < 13) :
    (Fin.ofNat 128 (0x31 + 16 * i + k)).val = 0x31 + 16 * i + k :=
  Nat.mod_eq_of_lt (by omega)

theorem concerned_txb (i : Fin 3) {k : ℕ} (hk : k < 13) :
    Concerned (Fin.ofNat 128 (0x31 + 16 * i + k)) := by
  have := val_txb i hk
  exact .inr (by omega)

theorem agrees_of_reg {c c' : Chip} (h : ∀ a, Concerned a → c'.reg a = c.reg a) :
    c.Agrees c' where
  requested i := by rw [requested, requested, h _ (concerned_txbctrl i)]
  flagged i := by rw [flagged, flagged, h _ (.inl rfl)]
  txb i k hk := by rw [txb, txb, h _ (concerned_txb i hk)]

theorem status_of_concerned {a : Addr} (h : Concerned a) : a.val % 16 < 14 := by
  rcases h with rfl | h
  · decide
  · exact h.2.2

/-- Writing any other register. -/
theorem agrees_write (c : Chip) {a : Addr} (h : ¬ Concerned a) (v : BitVec 8) :
    c.Agrees (c.write a v) := by
  apply agrees_of_reg
  intro b hb
  exact reg_write_of_ne (fun hab => h (hab ▸ hb)) (status_of_concerned hb)

theorem ordinary_canintf (c : Chip) : c.Ordinary (toAddr canintf) where
  status := by decide
  control := by decide
  config h := absurd h (by decide)

@[simp] theorem reg_write_canintf (c : Chip) (v : BitVec 8) :
    (c.write (toAddr canintf) v).reg (toAddr canintf) = v := by
  rw [(ordinary_canintf c).write_eq, reg_set_self]

/-- Writing the interrupt flags concerns nothing else. -/
theorem reg_write_canintf_of_ne (c : Chip) (v : BitVec 8) {a : Addr} (h : a ≠ toAddr canintf) :
    (c.write (toAddr canintf) v).reg a = c.reg a := by
  rw [(ordinary_canintf c).write_eq, reg_set_of_ne h]

theorem txbctrl_ne_canintf (i : Fin 3) : toAddr (txbctrl i) ≠ toAddr canintf := by
  revert i
  decide

theorem txb_ne_canintf (i : Fin 3) {k : ℕ} (hk : k < 13) :
    Fin.ofNat 128 (0x31 + 16 * i + k) ≠ toAddr canintf := by
  intro h
  have := val_txb i hk
  have : (toAddr canintf).val = 0x2C := rfl
  rw [h] at *
  omega

theorem txb_ne_txbctrl (i j : Fin 3) {k : ℕ} (hk : k < 13) :
    Fin.ofNat 128 (0x31 + 16 * i + k) ≠ toAddr (txbctrl j) := by
  intro h
  have hval := congrArg Fin.val h
  rw [val_txb i hk, val_txbctrl] at hval
  omega

@[simp] theorem requested_write_canintf (c : Chip) (v : BitVec 8) (i : Fin 3) :
    (c.write (toAddr canintf) v).requested i = c.requested i := by
  rw [requested, reg_write_canintf_of_ne c v (txbctrl_ne_canintf i)]
  rfl

@[simp] theorem flagged_write_canintf (c : Chip) (v : BitVec 8) (i : Fin 3) :
    (c.write (toAddr canintf) v).flagged i = v.getLsbD (i + 2) := by
  rw [flagged, reg_write_canintf]

theorem txb_write_canintf (c : Chip) (v : BitVec 8) (i : Fin 3) {k : ℕ} (hk : k < 13) :
    (c.write (toAddr canintf) v).txb i k = c.txb i k := by
  rw [txb, reg_write_canintf_of_ne c v (txb_ne_canintf i hk)]
  rfl

/-! ## Transactions -/

variable (c : Chip)

theorem spi_read (reg : BitVec 8) (n : ℕ) :
    c.spi [0x03, reg] n = (c.readFrom (toAddr reg) n, c) := rfl

theorem spi_bitModify (reg mask val : BitVec 8) :
    c.spi [0x05, reg, mask, val] 0 =
      ([], c.write (toAddr reg) ((c.reg (toAddr reg) &&& ~~~mask) ||| (val &&& mask))) := rfl

theorem spi_readRxb (n : ℕ) :
    c.spi [0x90 ||| 0] n =
      (c.readFrom 0x61 n, c.write (toAddr canintf) (c.reg (toAddr canintf) &&& 0xFE)) := rfl

theorem spi_load (i : Fin 3) (buf : List (BitVec 8)) :
    c.spi ((0x40 ||| (BitVec.ofInt 8 i * 2 ||| 0)) :: buf) 0 =
      ([], c.writeFrom (Fin.ofNat 128 (0x31 + 16 * i)) buf) := by
  fin_cases i <;> rfl

theorem spi_rts {mask : BitVec 8} (h : mask &&& 0xF8 = 0) :
    c.spi [0x80 ||| mask] 0 = ([], c.requestAll (0x80 ||| mask)) := by
  have hcmd : (0x80 ||| mask) &&& 0xF8 = 0x80 := by
    rw [BitVec.and_or_distrib_right, h]
    rfl
  have hne : ∀ v : BitVec 8, v &&& 0xF8 ≠ 0x80 → 0x80 ||| mask ≠ v := by
    rintro v hv rfl
    exact hv hcmd
  rw [spi, if_neg (hne _ (by decide)), if_neg (hne _ (by decide)), if_neg (hne _ (by decide)),
    if_neg (hne _ (by decide)), if_pos hcmd]

/-- The test of `TXREQ` in the source. -/
theorem and_txreq_eq_zero_iff (v : BitVec 8) : v &&& txbctrlTxreq = 0 ↔ v.getLsbD 3 = false := by
  have hbit : txbctrlTxreq = BitVec.twoPow 8 3 := rfl
  rw [hbit, BitVec.and_twoPow]
  cases v.getLsbD 3 <;> decide

/-- The byte at a transmit control register. -/
theorem readFrom_txbctrl (i : Fin 3) :
    c.readFrom (toAddr (txbctrl i)) 1 = [c.reg (toAddr (txbctrl i))] := by
  fin_cases i <;> rfl

/-- The byte with the interrupt flags. -/
theorem readFrom_canintf : c.readFrom (toAddr canintf) 1 = [c.reg (toAddr canintf)] := rfl

theorem requested_request (i j : Fin 3) :
    (c.request i).requested j = (c.requested j || decide (j = i)) := by
  by_cases h : j = i
  · subst h
    simp [requested, request, txbctrlTxreq]
  · have hne : toAddr (txbctrl j) ≠ toAddr (txbctrl i) := fun hc => h (txbctrl_injective hc)
    rw [requested, request, reg_set_of_ne hne, decide_eq_false h, Bool.or_false, requested]

theorem requested_requestAll (mask : BitVec 8) (j : Fin 3) :
    (c.requestAll mask).requested j = (c.requested j || mask.getLsbD j) := by
  have hfold : ∀ (is : List (Fin 3)) (c : Chip),
      (is.foldl (fun c (i : Fin 3) => if mask.getLsbD i then c.request i else c) c).requested j =
        (c.requested j || (decide (j ∈ is) && mask.getLsbD j)) := by
    intro is
    induction is with
    | nil => simp
    | cons i is ih =>
        intro c
        rw [List.foldl_cons, ih]
        by_cases hj : j = i
        · subst hj
          by_cases hm : mask.getLsbD j <;> simp [hm, requested_request]
        · by_cases hm : mask.getLsbD i <;> simp [hm, hj, requested_request]
  rw [requestAll, hfold]
  simp

/-- What is kept by the request of each buffer in a mask is kept by the request of them all. -/
theorem requestAll_of_request {α : Type*} (f : Chip → α) {mask : BitVec 8}
    (h : ∀ (c : Chip) (i : Fin 3), mask.getLsbD i = true → f (c.request i) = f c) :
    f (c.requestAll mask) = f c := by
  unfold requestAll
  induction List.finRange 3 generalizing c with
  | nil => rfl
  | cons i is ih =>
      rw [List.foldl_cons, ih]
      split
      · exact h c i ‹_›
      · rfl

/-- A request concerns the control registers of the buffers in the mask only. -/
theorem reg_requestAll_of_ne (mask : BitVec 8) {a : Addr}
    (h : ∀ i : Fin 3, mask.getLsbD i = true → a ≠ toAddr (txbctrl i)) :
    (c.requestAll mask).reg a = c.reg a :=
  requestAll_of_request c (fun c => c.reg a) fun _ i hi => reg_set_of_ne (h i hi)

/-! ## Flags, requests and bytes after a transaction -/

theorem flagged_clear (mask : BitVec 8) (i : Fin 3) :
    (c.spi [0x05, canintf, mask, 0] 0).2.flagged i = (c.flagged i && !mask.getLsbD (i + 2)) := by
  have hi : i.val + 2 < 8 := by omega
  rw [spi_bitModify, flagged_write_canintf]
  simp [flagged, hi]

theorem flagged_raise (i j : Fin 3) :
    (c.spi [0x05, canintf, canintfTx0if <<< i.val, 0xFF] 0).2.flagged j =
      (c.flagged j || decide (j = i)) := by
  rw [spi_bitModify, flagged_write_canintf, flagged]
  fin_cases i <;> fin_cases j <;> simp [canintfTx0if]

theorem requested_bitModify_canintf (mask val : BitVec 8) (i : Fin 3) :
    (c.spi [0x05, canintf, mask, val] 0).2.requested i = c.requested i :=
  requested_write_canintf ..

theorem txb_bitModify_canintf (mask val : BitVec 8) (i : Fin 3) {k : ℕ} (hk : k < 13) :
    (c.spi [0x05, canintf, mask, val] 0).2.txb i k = c.txb i k :=
  txb_write_canintf _ _ i hk

theorem agrees_clear_of_and_eq {mask : BitVec 8} (h : mask &&& txifMask = 0) :
    c.Agrees (c.spi [0x05, canintf, mask, 0] 0).2 where
  requested := requested_bitModify_canintf c mask 0
  flagged i := by
    have hbit : (mask &&& txifMask).getLsbD (i + 2) = false := by rw [h]; simp
    have htx : ∀ i : Fin 3, txifMask.getLsbD (i + 2) = true := by decide
    rw [BitVec.getLsbD_and, htx i, Bool.and_true] at hbit
    rw [flagged_clear, hbit, Bool.not_false, Bool.and_true]
  txb i _ hk := txb_bitModify_canintf c mask 0 i hk

theorem agrees_readRxb (n : ℕ) : c.Agrees (c.spi [0x90 ||| 0] n).2 where
  requested i := by rw [spi_readRxb, requested_write_canintf]
  flagged i := by
    have htx : ∀ i : Fin 3, BitVec.getLsbD (0xFE : BitVec 8) (i + 2) = true := by decide
    rw [spi_readRxb, flagged_write_canintf, BitVec.getLsbD_and, htx i, Bool.and_true, flagged]
  txb i _ hk := by rw [spi_readRxb, txb_write_canintf _ _ i hk]

/-- Setting the priority of a transmit buffer leaves its request alone. -/
theorem agrees_priority (i : Fin 3) (val : BitVec 8) :
    c.Agrees (c.spi [0x05, txbctrl i, txbctrlTxpMask, val] 0).2 := by
  rw [spi_bitModify]
  constructor
  · intro j
    rw [requested, requested]
    by_cases h : toAddr (txbctrl j) = toAddr (txbctrl i)
    · rw [h, reg_write_txbctrl]
      simp [txbctrlTxpMask]
    · rw [reg_write_of_ne h (status_of_concerned (concerned_txbctrl j))]
  · intro j
    rw [flagged, flagged, reg_write_of_ne (txbctrl_ne_canintf i).symm (by decide)]
  · intro j k hk
    rw [txb, txb, reg_write_of_ne (txb_ne_txbctrl j i hk) (status_of_concerned (concerned_txb j hk))]

theorem requested_rts {mask : BitVec 8} (h : mask &&& 0xF8 = 0) (i : Fin 3) :
    (c.spi [0x80 ||| mask] 0).2.requested i = (c.requested i || mask.getLsbD i) := by
  have hbit : (0x80 ||| mask).getLsbD i = mask.getLsbD i := by fin_cases i <;> simp
  rw [spi_rts c h, requested_requestAll, hbit]

theorem flagged_rts {mask : BitVec 8} (h : mask &&& 0xF8 = 0) (i : Fin 3) :
    (c.spi [0x80 ||| mask] 0).2.flagged i = c.flagged i := by
  rw [spi_rts c h, flagged, reg_requestAll_of_ne _ _ fun j _ => (txbctrl_ne_canintf j).symm]
  rfl

theorem txb_rts {mask : BitVec 8} (h : mask &&& 0xF8 = 0) (i : Fin 3) {k : ℕ} (hk : k < 13) :
    (c.spi [0x80 ||| mask] 0).2.txb i k = c.txb i k := by
  rw [spi_rts c h, txb, reg_requestAll_of_ne _ _ fun j _ => txb_ne_txbctrl i j hk]
  rfl

/-- Loading a transmit buffer stores the bytes there. -/
theorem reg_load (i : Fin 3) {buf : List (BitVec 8)} (hbuf : buf.length ≤ 13) (a : Addr) :
    (c.spi ((0x40 ||| (BitVec.ofInt 8 i * 2 ||| 0)) :: buf) 0).2.reg a =
      if 0x31 + 16 * i.val ≤ a.val ∧ a.val < 0x31 + 16 * i + buf.length then
        buf.getD (a.val - (0x31 + 16 * i)) 0
      else c.reg a := by
  have hstart : (Fin.ofNat 128 (0x31 + 16 * i.val)).val = 0x31 + 16 * i := @val_txb i 0 (by omega)
  rw [spi_load, reg_writeFrom (by omega) ?_ a, hstart]
  intro b hle hlt
  exact
    { status := by omega
      control := by unfold isTxbctrl; omega
      config := by unfold isFilter isTiming; omega }

theorem requested_load (i j : Fin 3) {buf : List (BitVec 8)} (hbuf : buf.length ≤ 13) :
    (c.spi ((0x40 ||| (BitVec.ofInt 8 i * 2 ||| 0)) :: buf) 0).2.requested j = c.requested j := by
  have := val_txbctrl j
  rw [requested, reg_load c i hbuf, if_neg (by omega), requested]

theorem flagged_load (i j : Fin 3) {buf : List (BitVec 8)} (hbuf : buf.length ≤ 13) :
    (c.spi ((0x40 ||| (BitVec.ofInt 8 i * 2 ||| 0)) :: buf) 0).2.flagged j = c.flagged j := by
  have : (toAddr canintf).val = 0x2C := rfl
  rw [flagged, reg_load c i hbuf, if_neg (by omega), flagged]

theorem txb_load (i j : Fin 3) {buf : List (BitVec 8)} (hbuf : buf.length ≤ 13) {k : ℕ}
    (hk : k < 13) :
    (c.spi ((0x40 ||| (BitVec.ofInt 8 i * 2 ||| 0)) :: buf) 0).2.txb j k =
      if j = i ∧ k < buf.length then buf.getD k 0 else c.txb j k := by
  have hval := val_txb j hk
  rw [txb, reg_load c i hbuf, hval, txb]
  by_cases h : j = i ∧ k < buf.length
  · obtain ⟨rfl, hlt⟩ := h
    rw [if_pos ⟨by omega, by omega⟩, if_pos ⟨rfl, hlt⟩, Nat.add_sub_cancel_left]
  · have hout : ¬ (0x31 + 16 * i.val ≤ 0x31 + 16 * j.val + k ∧
        0x31 + 16 * j.val + k < 0x31 + 16 * i.val + buf.length) := by
      intro hin
      have hij : j = i := Fin.ext (by omega)
      subst hij
      exact h ⟨rfl, by omega⟩
    rw [if_neg h, if_neg hout]

/-! ## What the controller does by itself -/

/-- A frame has been sent: the request is over, and the flag is set. -/
structure Sent (c c' : Chip) (i : Fin 3) : Prop where
  was : c.requested i = true
  requested : ∀ j, c'.requested j = (c.requested j && decide (j ≠ i))
  flagged : ∀ j, c'.flagged j = (c.flagged j || decide (j = i))
  txb : ∀ j k, k < 13 → c'.txb j k = c.txb j k

theorem sent_of_event {c c' : Chip} {i : Fin 3} (h : c.event (.sent i) = some c') :
    c.Sent c' i := by
  simp only [event] at h
  split at h <;> cases h
  rename_i hreq
  refine ⟨hreq, fun j => ?_, fun j => ?_, fun j k hk => ?_⟩
  · rw [requested, reg_set_of_ne (txbctrl_ne_canintf j)]
    by_cases hji : j = i
    · subst hji
      simp
    · have hne : toAddr (txbctrl j) ≠ toAddr (txbctrl i) := fun hc => hji (txbctrl_injective hc)
      rw [reg_set_of_ne hne, decide_eq_true hji, Bool.and_true, requested]
  · rw [flagged, reg_set_self, flagged]
    fin_cases i <;> fin_cases j <;> simp [canintfTx0if]
  · rw [txb, reg_set_of_ne (txb_ne_canintf j hk), reg_set_of_ne (txb_ne_txbctrl j i hk), txb]

theorem reg_fill_of_lt {c : Chip} (n : Fin 2) (buf : Vector (BitVec 8) 13) {a : Addr}
    (h : a.val < 0x61) : (c.fill n buf).reg a = c.reg a := dif_neg (by omega)

theorem reg_fill {c : Chip} (n : Fin 2) (buf : Vector (BitVec 8) 13) {a : Addr} {k : ℕ} (hk : k < 13)
    (h : a.val = 0x61 + 16 * n.val + k) : (c.fill n buf).reg a = buf[k] := by
  have hin : 0x61 + 16 * n.val ≤ a.val ∧ a.val < 0x6E + 16 * n.val := by omega
  have hidx : a.val - (0x61 + 16 * n.val) = k := by omega
  refine (dif_pos hin).trans ?_
  show buf[a.val - (0x61 + 16 * n.val)] = buf[k]
  simp only [hidx]

theorem agrees_of_event {c c' : Chip} {e : ChipEvent} (he : ∀ i, e ≠ .sent i)
    (h : c.event e = some c') : c.Agrees c' := by
  cases e with
  | sent i => exact absurd rfl (he i)
  | receive n buf =>
      simp only [event] at h
      split at h <;> cases h
      refine ⟨fun i => ?_, fun i => ?_, fun i k hk => ?_⟩
      · have hval := val_txbctrl i
        rw [requested, reg_set_of_ne (txbctrl_ne_canintf i), reg_fill_of_lt _ _ (by omega), requested]
      · rw [flagged, reg_set_self, flagged]
        fin_cases i <;> fin_cases n <;> simp
      · have hval := val_txb i hk
        rw [txb, reg_set_of_ne (txb_ne_canintf i hk), reg_fill_of_lt _ _ (by omega), txb]
  | error flags v =>
      cases h
      refine ⟨fun i => ?_, fun i => ?_, fun i k hk => ?_⟩
      · have hne : toAddr (txbctrl i) ≠ toAddr eflg := by revert i; decide
        rw [requested, reg_set_of_ne hne, reg_set_of_ne (txbctrl_ne_canintf i), requested]
      · have hne : toAddr canintf ≠ toAddr eflg := by decide
        rw [flagged, reg_set_of_ne hne, reg_set_self, flagged]
        fin_cases i <;> simp
      · have hval := val_txb i hk
        have hne : Fin.ofNat 128 (0x31 + 16 * i.val + k) ≠ toAddr eflg := by
          intro hc
          rw [hc] at hval
          exact absurd hval (by simp [toAddr, eflg]; omega)
        rw [txb, reg_set_of_ne hne, reg_set_of_ne (txb_ne_canintf i hk), txb]

end Chip

/-! ## Queues -/

/-- The slots of the two queues are different ones. -/
def Driver.Apart (d : Driver) : Prop :=
  d.txq.base + d.txq.size ≤ d.rxq.base ∨ d.rxq.base + d.rxq.size ≤ d.txq.base

theorem apart_mqInit {size : ℕ} (h : 0 < size) (d : Driver) : (mqInit size h d).Apart :=
  .inl (Nat.le_of_eq (Nat.zero_add size))

theorem mqIsFull_iff {cb : MqCb} : mqIsFull cb = true ↔ cb.length + 1 = cb.size := by
  rw [mqIsFull, beq_iff_eq, Ring.length_eq_iff_full]

theorem mqIsEmpty_iff {d : Driver} {q : QueueId} :
    mqIsEmpty (d.queue q) = true ↔ d.queued q = [] := by
  rw [mqIsEmpty, beq_iff_eq, Driver.queued, Ring.contents_eq_nil_iff]

/-- There is room after a frame has been removed. -/
theorem mqIsFull_pop {cb : MqCb} (h : mqIsEmpty cb = false) : mqIsFull cb.pop = false := by
  have hlen := @Ring.length_lt cb
  have hpop : cb.length = cb.pop.length + 1 := Ring.length_pop (by simpa [mqIsEmpty] using h)
  rw [← Bool.not_eq_true, mqIsFull_iff]
  show cb.pop.length + 1 ≠ cb.size
  omega

variable {d : Driver}

theorem queued_mqAppendMsg {q : QueueId} (frame : CanFrame)
    (h : mqIsFull (d.queue q) = false) :
    (mqAppendMsg d q frame).queued q = d.queued q ++ [frame] := by
  have hroom : (d.queue q).succ (d.queue q).tail ≠ (d.queue q).head := by
    simpa [mqIsFull] using h
  cases q <;> exact Ring.contents_push d.frames frame hroom

theorem queued_mqAppendMsg_of_ne (hapart : d.Apart) {q q' : QueueId} (h : q' ≠ q)
    (frame : CanFrame) : (mqAppendMsg d q frame).queued q' = d.queued q' := by
  have htx := d.txq.tail_lt
  have hrx := d.rxq.tail_lt
  unfold Driver.Apart at hapart
  cases q <;> cases q' <;> try exact absurd rfl h
  · have hout : d.txq.base + d.txq.tail < d.rxq.base ∨
        d.rxq.base + d.rxq.size ≤ d.txq.base + d.txq.tail := by omega
    exact Ring.contents_update_outside d.frames frame hout
  · have hout : d.rxq.base + d.rxq.tail < d.txq.base ∨
        d.txq.base + d.txq.size ≤ d.rxq.base + d.rxq.tail := by omega
    exact Ring.contents_update_outside d.frames frame hout

theorem queued_mqRemoveMsg {q : QueueId} (h : mqIsEmpty (d.queue q) = false) :
    d.queued q = (mqRemoveMsg d q).1 :: (mqRemoveMsg d q).2.queued q := by
  have hne : (d.queue q).tail ≠ (d.queue q).head := by
    simpa [mqIsEmpty] using h
  cases q <;> exact Ring.contents_pop d.frames hne

theorem queued_mqRemoveMsg_of_ne {q q' : QueueId} (h : q' ≠ q) :
    (mqRemoveMsg d q).2.queued q' = d.queued q' := by
  cases q <;> cases q' <;> first | rfl | exact absurd rfl h

/-- No operation moves a queue. -/
theorem Driver.Apart.exec (h : d.Apart) {o : Op} {r : Ans o} {d' : Driver}
    (hexec : exec o d = some (r, d')) : d'.Apart := by
  have hstep : d'.txq.base = d.txq.base ∧ d'.txq.size = d.txq.size ∧
      d'.rxq.base = d.rxq.base ∧ d'.rxq.size = d.rxq.size := by
    cases o with
    | spinWhileNonzero | txbLock | queueLockWait =>
        simp only [Can.exec] at hexec
        split at hexec <;> cases hexec
        exact ⟨rfl, rfl, rfl, rfl⟩
    | mqAppend q frame | mqRemove q =>
        cases hexec
        cases q <;> exact ⟨rfl, rfl, rfl, rfl⟩
    | undefined => cases hexec
    | _ =>
        cases hexec
        exact ⟨rfl, rfl, rfl, rfl⟩
  obtain ⟨htb, hts, hrb, hrs⟩ := hstep
  unfold Driver.Apart at h ⊢
  rwa [htb, hts, hrb, hrs]

/-! ## Masks of single buffers -/

theorem and_bit_eq_zero (i : Fin 3) : 1#8 <<< i.val &&& 0xF8 = 0 := by
  revert i
  decide

theorem and_or_bit_eq_zero {rts : BitVec 8} (hrts : rts &&& 0xF8 = 0) (i : Fin 3) :
    (rts ||| 1#8 <<< i.val) &&& 0xF8 = 0 := by
  rw [BitVec.and_or_distrib_right, hrts, and_bit_eq_zero, BitVec.or_self]

/-- `tx << TXIF_SHF`. -/
theorem getLsbD_txif (tx : BitVec 8) (i : Fin 3) : (tx <<< 2).getLsbD (i + 2) = tx.getLsbD i := by
  have hlt : i.val + 2 < 8 := by omega
  have hge : ¬ i.val + 2 < 2 := by omega
  rw [BitVec.getLsbD_shiftLeft, decide_eq_true hlt, decide_eq_false hge, Nat.add_sub_cancel]
  rfl

theorem getLsbD_bit_eq (i j : Fin 3) : (1#8 <<< i.val).getLsbD j = decide (j = i) := by
  have htwoPow : (1#8 <<< i.val).getLsbD j = (decide (i.val < 8) && decide (i.val = j.val)) :=
    BitVec.getLsbD_twoPow i.val j
  rw [htwoPow, decide_eq_true (by omega), Bool.true_and, decide_eq_decide, Fin.ext_iff, eq_comm]

/-! ## Operations that do not concern transmission -/

/-- The same transmit buffers, queues, locks and semaphore. -/
structure Driver.Quiet (d d' : Driver) : Prop where
  chip : d.chip.Agrees d'.chip
  queue : ∀ q, d'.queue q = d.queue q
  frames : d'.frames = d.frames
  xmitStopped : d'.xmitStopped = d.xmitStopped
  txbLock : d'.txbLock = d.txbLock
  queueLock : d'.queueLock = d.queueLock

/-- Reading registers, setting the mode, clearing error and receive flags, setting a priority, the
cache, and the events. -/
inductive Op.Plain : Op → Prop
  | read (reg : BitVec 8) (n : ℕ) : Plain (.spi [0x03, reg] n)
  | readRxb (n : ℕ) : Plain (.spi [0x90 ||| 0] n)
  | mode (val : BitVec 8) : Plain (.spi [0x05, canctrl, 0xE0, val] 0)
  | flags (mask : BitVec 8) (h : mask &&& txifMask = 0) : Plain (.spi [0x05, canintf, mask, 0] 0)
  | errors (mask : BitVec 8) : Plain (.spi [0x05, eflg, mask, 0] 0)
  | priority (i : Fin 3) (val : BitVec 8) : Plain (.spi [0x05, txbctrl i, txbctrlTxpMask, val] 0)
  | spin (reg : BitVec 8) : Plain (.spinWhileNonzero reg)
  | txbCache (f : TxbCache → TxbCache) : Plain (.txbCache f)
  | txbAck (i : Fin 3) : Plain (.txbAck i)
  | intAck : Plain .intAck
  | undefined : Plain .undefined

/-- Those among them with which the handler serves errors and reception: none of them sets a
priority or changes the cache. -/
inductive Op.Beside : Op → Prop
  | read (reg : BitVec 8) (n : ℕ) : Beside (.spi [0x03, reg] n)
  | readRxb (n : ℕ) : Beside (.spi [0x90 ||| 0] n)
  | mode (val : BitVec 8) : Beside (.spi [0x05, canctrl, 0xE0, val] 0)
  | flags (mask : BitVec 8) (h : mask &&& txifMask = 0) : Beside (.spi [0x05, canintf, mask, 0] 0)
  | errors (mask : BitVec 8) : Beside (.spi [0x05, eflg, mask, 0] 0)
  | intAck : Beside .intAck
  | undefined : Beside .undefined

theorem Op.Beside.plain {o : Op} (h : o.Beside) : o.Plain := by
  cases h with
  | read reg n => exact .read reg n
  | readRxb n => exact .readRxb n
  | mode val => exact .mode val
  | flags mask h => exact .flags mask h
  | errors mask => exact .errors mask
  | intAck => exact .intAck
  | undefined => exact .undefined

theorem exec_spi {txbuf : List (BitVec 8)} {n : ℕ} {d d' : Driver} {r : List (BitVec 8)}
    (h : exec (.spi txbuf n) d = some (r, d')) :
    r = (d.chip.spi txbuf n).1 ∧ d' = { d with chip := (d.chip.spi txbuf n).2 } := by
  have h := Prod.mk.inj (Option.some.inj h)
  exact ⟨h.1.symm, h.2.symm⟩

theorem Driver.quiet_of_agrees {d : Driver} {chip : Chip} (h : d.chip.Agrees chip) :
    d.Quiet { d with chip := chip } :=
  ⟨h, fun q => by cases q <;> rfl, rfl, rfl, rfl, rfl⟩

theorem Op.Plain.quiet {o : Op} (h : o.Plain) {d d' : Driver} {r : Ans o}
    (hexec : exec o d = some (r, d')) : d.Quiet d' := by
  cases h with
  | read reg n =>
      obtain ⟨-, rfl⟩ := exec_spi hexec
      exact Driver.quiet_of_agrees (.refl _)
  | readRxb n =>
      obtain ⟨-, rfl⟩ := exec_spi hexec
      exact Driver.quiet_of_agrees (Chip.agrees_readRxb _ n)
  | mode val =>
      obtain ⟨-, rfl⟩ := exec_spi hexec
      have hctrl : ¬ Chip.Concerned (toAddr canctrl) := by decide
      exact Driver.quiet_of_agrees (Chip.agrees_write _ hctrl _)
  | flags mask h =>
      obtain ⟨-, rfl⟩ := exec_spi hexec
      exact Driver.quiet_of_agrees (Chip.agrees_clear_of_and_eq _ h)
  | errors mask =>
      obtain ⟨-, rfl⟩ := exec_spi hexec
      have heflg : ¬ Chip.Concerned (toAddr eflg) := by decide
      exact Driver.quiet_of_agrees (Chip.agrees_write _ heflg _)
  | priority i val =>
      obtain ⟨-, rfl⟩ := exec_spi hexec
      exact Driver.quiet_of_agrees (Chip.agrees_priority _ i val)
  | spin reg =>
      simp only [exec] at hexec
      split at hexec
      · obtain ⟨-, rfl⟩ := Prod.mk.inj (Option.some.inj hexec)
        exact Driver.quiet_of_agrees (.refl _)
      · cases hexec
  | txbCache _ | txbAck _ | intAck =>
      obtain ⟨-, rfl⟩ := Prod.mk.inj (Option.some.inj hexec)
      exact ⟨.refl _, fun q => by cases q <;> rfl, rfl, rfl, rfl, rfl⟩
  | undefined => cases hexec

/-- The operations on the RX queue and its semaphore. -/
inductive Op.Rx : Op → Prop
  | mqIsFull : Rx (.mqIsFull .rx)
  | mqIsEmpty : Rx (.mqIsEmpty .rx)
  | mqAppend (frame : CanFrame) : Rx (.mqAppend .rx frame)
  | mqRemove : Rx (.mqRemove .rx)
  | queueLockWait : Rx .queueLockWait
  | queueLockPost : Rx .queueLockPost

/-- The operation that loads a transmit buffer. -/
def loadOp (i : Fin 3) (buf : List (BitVec 8)) : Op :=
  .spi ((0x40 ||| (BitVec.ofInt 8 i * 2 ||| 0)) :: buf) 0

/-! ## Programs that do not concern transmission -/

section Programs

open Prog

theorem every_readReg {φ : Op → Prop} {reg : BitVec 8} (h : φ (.spi [0x03, reg] 1)) :
    (mcp2515ReadReg reg).Every φ := (every_perform h).bind fun _ => trivial

theorem every_bitModify {φ : Op → Prop} {reg mask val : BitVec 8}
    (h : φ (.spi [0x05, reg, mask, val] 0)) : (mcp2515BitModify reg mask val).Every φ :=
  (every_perform h).bind fun _ => trivial

theorem beside_setMode (mode : OpMode) : (setMode mode).Every Op.Beside := every_bitModify (.mode _)

theorem beside_getMode : getMode.Every Op.Beside :=
  (every_readReg (.read _ _)).bind fun _ => trivial

theorem beside_clearFlags (mask : BitVec 8) (h : mask &&& txifMask = 0) :
    (mcp2515BitModify canintf mask 0).Every Op.Beside := every_bitModify (.flags mask h)

theorem beside_reportMessageError : reportMessageError.Every Op.Beside := by
  have hclear := beside_clearFlags 0x80 (by decide)
  refine beside_getMode.bind fun mode => ?_
  split
  · exact (beside_setMode _).bind fun _ => (beside_setMode _).bind fun _ => hclear
  · exact hclear

theorem beside_reportError : reportError.Every Op.Beside := by
  have hclear := beside_clearFlags canintfErrif (by decide)
  refine (every_readReg (.read _ _)).bind fun flags => ?_
  split
  · exact (every_bitModify (.errors _)).bind fun _ => hclear
  · exact hclear

theorem every_recvRxb {φ : Op → Prop} (h : φ (.spi [0x90 ||| 0] 13)) (hundefined : φ .undefined)
    (i : ℤ) (frame : CanFrame) : (recvRxb i frame).Every φ := by
  refine (every_perform h).bind fun buf => ?_
  dsimp only
  split
  · trivial
  · exact (every_perform hundefined).bind fun absurd => nomatch absurd

theorem beside_recvRxb (i : ℤ) (frame : CanFrame) : (recvRxb i frame).Every Op.Beside :=
  every_recvRxb (.readRxb _) .undefined i frame

theorem every_onFlag {φ : Op → Prop} {flags mask : BitVec 8} {p : Io Unit} (h : p.Every φ) :
    (onFlag flags mask p).Every φ := by
  unfold onFlag
  split
  · exact h
  · trivial

/-- A part of the handler obeys a protocol that it may also leave out. -/
theorem follows_onFlag {G : Type} {next : G → (o : Op) → Ans o → G → Prop} {g : G}
    {Q : Unit → G → Prop} {flags mask : BitVec 8} {p : Io Unit} (h : p.Follows next g Q)
    (hskip : Q () g) : (onFlag flags mask p).Follows next g Q := by
  unfold onFlag
  split
  · exact h
  · exact hskip

theorem plain_clearFlags (mask : BitVec 8) (h : mask &&& txifMask = 0) :
    (mcp2515BitModify canintf mask 0).Every Op.Plain :=
  (beside_clearFlags mask h).mono fun _ => Op.Beside.plain

theorem plain_reportMessageError : reportMessageError.Every Op.Plain :=
  beside_reportMessageError.mono fun _ => Op.Beside.plain

theorem plain_reportError : reportError.Every Op.Plain :=
  beside_reportError.mono fun _ => Op.Beside.plain

theorem plain_canidClearCache (i : Fin 3) : (canidClearCache i).Every Op.Plain :=
  (every_perform (.txbCache _)).bind fun _ => trivial

theorem plain_recvRxb (i : ℤ) (frame : CanFrame) : (recvRxb i frame).Every Op.Plain :=
  (beside_recvRxb i frame).mono fun _ => Op.Beside.plain

theorem plain_updatePriorities (b : Fin 3) (is : List (Fin 3)) :
    (updatePriorities b is).Every Op.Plain := by
  induction is with
  | nil => trivial
  | cons i is ih =>
      refine (every_perform (.txbCache _)).bind fun cache => ?_
      split
      · exact (every_bitModify (.priority i _)).bind fun _ => ih
      · exact ih

theorem plain_getFramePriorityAt (b : Fin 3) (id : CanId) :
    (getFramePriorityAt b id).Every Op.Plain := by
  refine (every_perform (.txbCache _)).bind fun cache => ?_
  split
  · trivial
  · refine (plain_updatePriorities b _).bind fun _ => ?_
    exact (every_perform (.txbCache _)).bind fun _ => trivial

theorem getFramePriority_fin (i : Fin 3) (id : CanId) :
    getFramePriority i id = getFramePriorityAt i id := by
  fin_cases i <;> rfl

/-- Any other index leads out of the cache. -/
theorem getFramePriority_other {txbIdx : ℤ} (h : ∀ i : Fin 3, txbIdx ≠ i) (id : CanId) :
    ∃ k, getFramePriority txbIdx id = .call .undefined k := by
  have h₀ : txbIdx ≠ 0 := h 0
  have h₁ : txbIdx ≠ 1 := h 1
  have h₂ : txbIdx ≠ 2 := h 2
  rw [getFramePriority, if_neg h₀, if_neg h₁, if_neg h₂]
  exact ⟨_, rfl⟩

theorem every_txbStatus {φ : Op → Prop} {txbIdx : ℤ} (h : φ (.spi [0x03, txbctrl txbIdx] 1)) :
    (txbStatus txbIdx).Every φ := (every_readReg h).bind fun _ => trivial

theorem plain_txbStatus (txbIdx : ℤ) : (txbStatus txbIdx).Every Op.Plain :=
  every_txbStatus (.read _ _)

theorem length_frameHeader (frame : CanFrame) : (frameHeader frame).length = 5 := rfl

theorem length_txbImage_le {frame : CanFrame} (h : frame.dlc.toNat ≤ 8) :
    (frameHeader frame ++ frame.data.toList.take frame.dlc.toNat).length ≤ 13 := by
  rw [List.length_append, length_frameHeader, List.length_take]
  omega

theorem every_mcp2515LoadTxb {φ : Op → Prop} {i : Fin 3} {buf : List (BitVec 8)}
    (h : φ (loadOp i buf)) : (mcp2515LoadTxb buf (BitVec.ofInt 8 i) 0).Every φ :=
  (every_perform h).bind fun _ => trivial

/-- Loading a transmit buffer: at most 13 bytes, and the priority. -/
theorem every_loadTxb {φ : Op → Prop} (i : Fin 3) (frame : CanFrame) (hplain : ∀ o, o.Plain → φ o)
    (hload : ∀ buf : List (BitVec 8), buf.length ≤ 13 → φ (loadOp i buf)) :
    (loadTxb i frame).Every φ := by
  unfold loadTxb
  split
  · rename_i hdlc
    exact (every_mcp2515LoadTxb (hload _ (length_txbImage_le hdlc))).bind fun _ =>
      every_bitModify (hplain _ (.priority i _))
  · exact (every_perform (hplain _ .undefined)).bind fun absurd => nomatch absurd

theorem every_queuePush {q : QueueId} {φ : Op → Prop} (hfull : φ (.mqIsFull q))
    (happend : ∀ frame, φ (.mqAppend q frame)) (frame : CanFrame) : (queuePush q frame).Every φ := by
  refine (every_perform hfull).bind fun full => ?_
  cases full with
  | true => trivial
  | false => exact (every_perform (happend frame)).bind fun _ => trivial

theorem every_queuePop {q : QueueId} {φ : Op → Prop} (hempty : φ (.mqIsEmpty q))
    (hremove : φ (.mqRemove q)) : (queuePop q).Every φ := by
  refine (every_perform hempty).bind fun empty => ?_
  cases empty with
  | true => trivial
  | false => exact (every_perform hremove).bind fun _ => trivial

theorem beside_receiveRxb (i : ℤ) (frame : CanFrame) :
    (receiveRxb i frame).Every fun o => o.Beside ∨ o.Rx := by
  refine ((beside_recvRxb i frame).mono fun _ => .inl).bind fun frame => ?_
  refine (every_queuePush (.inr .mqIsFull) (fun _ => .inr (.mqAppend _)) frame).bind fun _ => ?_
  exact (every_perform (.inr .queueLockPost)).bind fun _ => trivial

theorem beside_receiveIf (rx : BitVec 8) (i : ℕ) (frame : CanFrame) :
    (receiveIf rx i frame).Every fun o => o.Beside ∨ o.Rx := by
  unfold receiveIf
  split
  · exact beside_receiveRxb i frame
  · trivial

theorem beside_receiveMessage (rx : BitVec 8) (frame : CanFrame) :
    (receiveMessage rx frame).Every fun o => o.Beside ∨ o.Rx :=
  (beside_receiveIf rx 0 frame).bind fun frame => (beside_receiveIf rx 1 frame).bind fun _ => trivial

theorem rx_receiveMessage (rx : BitVec 8) (frame : CanFrame) :
    (receiveMessage rx frame).Every fun o => o.Plain ∨ o.Rx :=
  (beside_receiveMessage rx frame).mono fun _ => Or.imp_left Op.Beside.plain

theorem rx_canRecv : canRecv.Every fun o => o.Plain ∨ o.Rx :=
  (every_perform (.inr .queueLockWait)).bind fun _ =>
    every_queuePop (.inr .mqIsEmpty) (.inr .mqRemove)

end Programs

end Can
end Tk1Bsp
