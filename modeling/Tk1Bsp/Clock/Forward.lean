import Mathlib.Data.List.Basic
import Mathlib.Logic.Function.Basic

/-!
# The clock-controller accesses forwarded for the virtual machine

This file embeds `components/clkcar/src/fwd_driver.c`.  The guest's reads and writes of the clock
and reset controller go through `gen_fwd_read` and `gen_fwd_write`, which look the register up in
`tk1_clk_registers` and let a handler for its type decide.  What the platform library defines is a
parameter here (`Platform`): the register table, the address ranges of the PLLs, the numbers of
the devices and clocks the handlers name, and which registers of the controller store what is
written to them, and which set or clear bits of another register instead.

The handler of the enable and reset registers looks at the bits of the value to be written.  That
is right for the registers that set or clear bits.  A plain register takes the whole word, so a
write that passes the check clears the bits of all other devices.  `Platform.safe_iff` says when
this does no harm: exactly when those bits were clear to begin with.
-/

namespace Tk1Bsp
namespace Clock

/-! ## Data -/

/-- The registers of the controller, by their offset in its frame. -/
abbrev Regs := ℕ → BitVec 32

/-- `clk_register_t`: the type of a register, with the bank of an enable or reset register and the
clock of a source register. -/
inductive ClkRegister
  | reserved
  | pll
  | enbrstDevices (rb : ℕ)
  | source (clks : ℕ)
  | misc
  deriving DecidableEq

/-- What the hardware does with a word written to a register. -/
inductive WriteEffect
  | store
  | setBits (target : ℕ)
  | clearBits (target : ℕ)
  deriving DecidableEq

/-- `access_type_t`. -/
inductive AccessType
  | readAccess
  | writeAccess
  deriving DecidableEq

/-- `access_request_t`. -/
structure AccessRequest where
  addr : ℕ
  accessType : AccessType
  value : BitVec 32

/-- The definitions of the platform library and of the hardware that the driver relies on. -/
structure Platform where
  tk1ClkRegisters : ℕ → ClkRegister
  pllC : ℕ × ℕ
  pllM : ℕ × ℕ
  pllP : ℕ × ℕ
  pllP1 : ℕ × ℕ
  pllPReshift : ℕ
  clkEnbUartD : ℕ
  clkEnbSdmmc4 : ℕ
  clkEnbUsb2 : ℕ
  clkEnbUsb3 : ℕ
  uartdRClk : ℕ
  sdmmc4RClk : ℕ
  effect : ℕ → WriteEffect

/-- `PLLP_BASE_0`. -/
def pllpBase : ℕ := 0xa0

/-- `PLLP_MISC_0`. -/
def pllpMisc : ℕ := 0xac

/-- `PAGE_SIZE`. -/
def pageSize : ℕ := 4096

/-- `PLLCON`. -/
def pllCon (a : ℕ) (range : ℕ × ℕ) : Prop := range.1 ≤ a ∧ a < range.2

instance (a : ℕ) (range : ℕ × ℕ) : Decidable (pllCon a range) :=
  inferInstanceAs (Decidable (_ ∧ _))

namespace Platform

variable (P : Platform)

/-! ## The handlers -/

/-- `allow_pll`.  The branches for the PLLs after PLLP only log. -/
def allowPll (ar : AccessRequest) : Bool :=
  if pllCon ar.addr P.pllC then true
  else if pllCon ar.addr P.pllM then true
  else if pllCon ar.addr P.pllP ∨ pllCon ar.addr P.pllP1 ∨ ar.addr = P.pllPReshift then
    !decide ((ar.addr = pllpBase ∨ ar.addr = pllpMisc) ∧ ar.accessType = .writeAccess)
  else true

/-- The devices that the guest may enable and reset. -/
def allowedDevice (device : ℕ) : Prop :=
  device = P.clkEnbUartD ∨ device = P.clkEnbSdmmc4 ∨ device = P.clkEnbUsb2 ∨
    device = P.clkEnbUsb3

instance : DecidablePred P.allowedDevice := fun _ => inferInstanceAs (Decidable (_ ∨ _))

/-- The loop of `allow_enbrst`, with the iterations left: take the lowest bit that is set, look at
its device, and clear it. -/
def enbrstLoop (baseId : ℕ) : ℕ → BitVec 32 → Bool
  | 0, _ => true
  | n + 1, value =>
      if value = 0 then true
      else
        let pos := value.ctz.toNat
        if P.allowedDevice (baseId + pos) then enbrstLoop baseId n (value &&& ~~~(1#32 <<< pos))
        else false

/-- `allow_enbrst`. -/
def allowEnbrst (ar : AccessRequest) (rb : ℕ) : Bool :=
  if ar.accessType = .writeAccess then P.enbrstLoop (rb * 32) 32 ar.value else true

/-- `allow_source`. -/
def allowSource (ar : AccessRequest) (clks : ℕ) : Bool :=
  if clks = P.uartdRClk ∨ clks = P.sdmmc4RClk then true
  else if ar.accessType = .writeAccess then false else true

/-- `allow_misc`. -/
def allowMisc (ar : AccessRequest) : Bool := decide (ar.accessType = .readAccess)

/-- `access_handlers`.  A reserved register is refused before the lookup. -/
def accessHandler (ar : AccessRequest) : ClkRegister → Bool
  | .reserved => false
  | .pll => P.allowPll ar
  | .enbrstDevices rb => P.allowEnbrst ar rb
  | .source clks => P.allowSource ar clks
  | .misc => allowMisc ar

/-- A word is written to a register. -/
def store (regs : Regs) (addr : ℕ) (value : BitVec 32) : Regs :=
  match P.effect addr with
  | .store => Function.update regs addr value
  | .setBits t => Function.update regs t (regs t ||| value)
  | .clearBits t => Function.update regs t (regs t &&& ~~~value)

/-- `handle_register`; the first component is `*value` afterwards. -/
def handleRegister (regs : Regs) (addr : ℕ) (value : BitVec 32) (accessType : AccessType) :
    BitVec 32 × Regs :=
  if addr % 4 ≠ 0 then (value, regs)
  else if P.accessHandler ⟨addr, accessType, value⟩ (P.tk1ClkRegisters (addr / 4)) then
    match accessType with
    | .readAccess => (regs addr, regs)
    | .writeAccess => (value, P.store regs addr value)
  else (value, regs)

/-- `gen_fwd_read`. -/
def genFwdRead (regs : Regs) (addr : ℕ) : BitVec 32 × Regs :=
  if addr ≥ pageSize then (0, regs) else P.handleRegister regs addr 0 .readAccess

/-- `gen_fwd_write`. -/
def genFwdWrite (regs : Regs) (addr : ℕ) (value : BitVec 32) : Regs :=
  if addr ≥ pageSize then regs else (P.handleRegister regs addr value .writeAccess).2

end Platform

/-- An access of the guest. -/
inductive Access
  | read (addr : ℕ)
  | write (addr : ℕ) (value : BitVec 32)

namespace Platform

variable (P : Platform)

/-- The registers after one access. -/
def step (regs : Regs) : Access → Regs
  | .read addr => (P.genFwdRead regs addr).2
  | .write addr value => P.genFwdWrite regs addr value

/-- The registers after a sequence of accesses. -/
def run (regs : Regs) (as : List Access) : Regs := as.foldl P.step regs

/-! ## What is to be protected -/

/-- Bit `i` of the register at `addr` is not the guest's to change. -/
def Protected (addr i : ℕ) : Prop :=
  match P.tk1ClkRegisters (addr / 4) with
  | .pll => addr = pllpBase ∨ addr = pllpMisc
  | .enbrstDevices rb => ¬ P.allowedDevice (rb * 32 + i)
  | .source clks => ¬ (clks = P.uartdRClk ∨ clks = P.sdmmc4RClk)
  | .misc | .reserved => True

/-- No protected bit differs. -/
def SameProtected (regs₀ regs : Regs) : Prop :=
  ∀ addr i, P.Protected addr i → (regs addr).getLsbD i = (regs₀ addr).getLsbD i

/-- No access of the sequence has changed protected state, and reads change nothing at all. -/
def Safe (regs₀ : Regs) (as : List Access) : Prop :=
  (∀ pre, pre <+: as → P.SameProtected regs₀ (P.run regs₀ pre)) ∧
    ∀ regs addr, (P.genFwdRead regs addr).2 = regs

/-- What the platform library and the hardware manual document. -/
structure Documented : Prop where
  pllp : ∀ addr, addr = pllpBase ∨ addr = pllpMisc →
    pllCon addr P.pllP ∧ ¬ pllCon addr P.pllC ∧ ¬ pllCon addr P.pllM
  plain : ∀ rb < 3, ∀ addr, addr = 0x4 + 4 * rb ∨ addr = 0x10 + 4 * rb →
    P.tk1ClkRegisters (addr / 4) = .enbrstDevices rb ∧ P.effect addr = .store
  target : ∀ addr t, P.effect addr = .setBits t ∨ P.effect addr = .clearBits t →
    ∃ rb, P.tk1ClkRegisters (addr / 4) = .enbrstDevices rb ∧
      P.tk1ClkRegisters (t / 4) = .enbrstDevices rb
  spi1_uartB : ¬ P.allowedDevice (1 * 32 + 9) ∧ ¬ P.allowedDevice (0 * 32 + 7)

/-- A write of device bits to a plain enable or reset register does no harm if the bits of the
devices that are not the guest's are clear. -/
def Harmless (regs₀ : Regs) : Access → Prop
  | .read _ => True
  | .write addr value => ∀ rb, addr < pageSize → addr % 4 = 0 → P.effect addr = .store →
      P.tk1ClkRegisters (addr / 4) = .enbrstDevices rb →
        P.allowEnbrst ⟨addr, .writeAccess, value⟩ rb = true →
          ∀ i, ¬ P.allowedDevice (rb * 32 + i) → (regs₀ addr).getLsbD i = false

/-! ## The check of device bits -/

/-- Clearing a bit clears no other. -/
theorem getLsbD_clear (value : BitVec 32) (pos i : ℕ) :
    (value &&& ~~~(1#32 <<< pos)).getLsbD i = (value.getLsbD i && decide (i ≠ pos)) := by
  have hone : (1#32 <<< pos).getLsbD i = (decide (pos < 32) && decide (pos = i)) :=
    BitVec.getLsbD_twoPow pos i
  rw [BitVec.getLsbD_and, BitVec.getLsbD_not, hone]
  by_cases hi : i < 32
  · by_cases heq : pos = i
    · subst heq
      simp [hi]
    · simp [hi, heq, Ne.symm heq]
  · simp [BitVec.getLsbD_of_ge _ _ (Nat.not_lt.1 hi)]

/-- If the bits below `k` are clear, the lowest bit is not among them, and without it the bits up to
it are clear. -/
theorem lowest_of_low {value : BitVec 32} (hzero : value ≠ 0) {k : ℕ}
    (hlow : ∀ i < k, value.getLsbD i = false) :
    k ≤ value.ctz.toNat ∧
      ∀ i < value.ctz.toNat + 1, (value &&& ~~~(1#32 <<< value.ctz.toNat)).getLsbD i = false := by
  have hpos : value.getLsbD value.ctz.toNat = true := BitVec.getLsbD_true_ctz_of_ne_zero hzero
  constructor
  · by_contra hc
    rw [hlow _ (by omega)] at hpos
    cases hpos
  · intro i hi
    rw [getLsbD_clear]
    by_cases heq : i = value.ctz.toNat
    · simp [heq]
    · rw [BitVec.getLsbD_false_of_lt_ctz (by omega), Bool.false_and]

/-- The loop accepts a value if every bit set in it names an allowed device.  The bits below `k`
have been looked at and cleared, so the iterations left suffice. -/
theorem enbrstLoop_iff {P : Platform} {baseId : ℕ} :
    ∀ {n k : ℕ} {value : BitVec 32}, (∀ i < k, value.getLsbD i = false) → 32 ≤ n + k →
      (P.enbrstLoop baseId n value = true ↔
        ∀ i, value.getLsbD i = true → P.allowedDevice (baseId + i))
  | 0, k, value, hlow, hn => by
      refine iff_of_true rfl fun i hi => ?_
      have hlt := BitVec.lt_of_getLsbD hi
      rw [hlow i (by omega)] at hi
      cases hi
  | n + 1, k, value, hlow, hn => by
      unfold enbrstLoop
      by_cases hzero : value = 0
      · rw [if_pos hzero, hzero]
        simp
      · have hpos : value.getLsbD value.ctz.toNat = true :=
          BitVec.getLsbD_true_ctz_of_ne_zero hzero
        obtain ⟨hk, hlow'⟩ := lowest_of_low hzero hlow
        rw [if_neg hzero]
        by_cases hdev : P.allowedDevice (baseId + value.ctz.toNat)
        · rw [if_pos hdev, enbrstLoop_iff hlow' (by omega)]
          refine forall_congr' fun i => ?_
          rw [getLsbD_clear]
          by_cases heq : i = value.ctz.toNat
          · simp [heq, hdev]
          · simp [heq]
        · rw [if_neg hdev]
          simp only [Bool.false_eq_true, false_iff]
          exact fun hall => hdev (hall _ hpos)

theorem allowEnbrst_write_iff {P : Platform} {addr rb : ℕ} {value : BitVec 32} :
    P.allowEnbrst ⟨addr, .writeAccess, value⟩ rb = true ↔
      ∀ i, value.getLsbD i = true → P.allowedDevice (rb * 32 + i) :=
  enbrstLoop_iff (k := 0) (by simp) (Nat.le_refl 32)

/-! ## One access -/

variable {P : Platform} {regs₀ regs : Regs} {addr : ℕ} {value : BitVec 32}

theorem genFwdRead_regs (regs : Regs) (addr : ℕ) : (P.genFwdRead regs addr).2 = regs := by
  unfold genFwdRead handleRegister
  split
  · rfl
  · split
    · rfl
    · split <;> rfl

/-- A write reaches the register if the address is good and the handler of its type agrees. -/
theorem genFwdWrite_eq (regs : Regs) (addr : ℕ) (value : BitVec 32) :
    P.genFwdWrite regs addr value =
      if addr < pageSize ∧ addr % 4 = 0 ∧
          P.accessHandler ⟨addr, .writeAccess, value⟩ (P.tk1ClkRegisters (addr / 4)) = true then
        P.store regs addr value
      else regs := by
  unfold genFwdWrite handleRegister
  by_cases hpage : addr < pageSize
  · by_cases halign : addr % 4 = 0
    · by_cases hallow :
          P.accessHandler ⟨addr, .writeAccess, value⟩ (P.tk1ClkRegisters (addr / 4)) = true
      · simp [hpage, halign, hallow, Nat.not_le.2 hpage]
      · simp [halign, hallow]
    · simp [halign]
  · simp [hpage, Nat.not_lt.1 hpage]

/-- Replacing one register keeps the protected bits where the new word agrees on them. -/
theorem sameProtected_update_iff (h : P.SameProtected regs₀ regs) :
    P.SameProtected regs₀ (Function.update regs addr value) ↔
      ∀ i, P.Protected addr i → value.getLsbD i = (regs₀ addr).getLsbD i := by
  constructor
  · intro h' i hi
    have := h' addr i hi
    rwa [Function.update_self] at this
  · intro h' a i hi
    by_cases ha : a = addr
    · subst ha
      rw [Function.update_self]
      exact h' i hi
    · rw [Function.update_of_ne ha]
      exact h a i hi

/-- Writing the bits of allowed devices to a register that sets or clears bits is safe. -/
theorem Documented.sameProtected_store (hP : P.Documented) (h : P.SameProtected regs₀ regs)
    {rb : ℕ} (hreg : P.tk1ClkRegisters (addr / 4) = .enbrstDevices rb)
    (hvalue : ∀ i, value.getLsbD i = true → P.allowedDevice (rb * 32 + i))
    (heffect : P.effect addr ≠ .store) : P.SameProtected regs₀ (P.store regs addr value) := by
  have hbits : ∀ t, P.effect addr = .setBits t ∨ P.effect addr = .clearBits t →
      ∀ i, P.Protected t i → value.getLsbD i = false := by
    intro t ht i hi
    obtain ⟨rb', hreg', htarget⟩ := hP.target addr t ht
    rw [hreg'] at hreg
    obtain rfl := ClkRegister.enbrstDevices.inj hreg
    simp only [Protected, htarget] at hi
    by_contra hc
    exact hi (hvalue i (Bool.not_eq_false _ ▸ hc))
  unfold store
  cases heff : P.effect addr with
  | store => exact absurd heff heffect
  | setBits t =>
      refine (sameProtected_update_iff h).2 fun i hi => ?_
      rw [BitVec.getLsbD_or, hbits t (.inl heff) i hi, Bool.or_false]
      exact h t i hi
  | clearBits t =>
      refine (sameProtected_update_iff h).2 fun i hi => ?_
      rw [BitVec.getLsbD_and, BitVec.getLsbD_not, hbits t (.inr heff) i hi, ← h t i hi]
      by_cases hi32 : i < 32
      · simp [hi32]
      · simp [BitVec.getLsbD_of_ge _ _ (Nat.not_lt.1 hi32)]

theorem Documented.store_of_not_enbrst (hP : P.Documented)
    (hreg : ∀ rb, P.tk1ClkRegisters (addr / 4) ≠ .enbrstDevices rb) :
    P.store regs addr value = Function.update regs addr value := by
  unfold store
  cases heff : P.effect addr with
  | store => rfl
  | setBits t =>
      obtain ⟨rb, hrb, -⟩ := hP.target addr t (.inl heff)
      exact absurd hrb (hreg rb)
  | clearBits t =>
      obtain ⟨rb, hrb, -⟩ := hP.target addr t (.inr heff)
      exact absurd hrb (hreg rb)

/-- Outside the enable and reset registers the handlers let nothing protected be written. -/
theorem Documented.not_protected_of_handler (hP : P.Documented)
    (hreg : ∀ rb, P.tk1ClkRegisters (addr / 4) ≠ .enbrstDevices rb)
    (hallow : P.accessHandler ⟨addr, .writeAccess, value⟩ (P.tk1ClkRegisters (addr / 4)) = true)
    (i : ℕ) : ¬ P.Protected addr i := by
  intro hi
  cases hr : P.tk1ClkRegisters (addr / 4) with
  | reserved =>
      rw [hr] at hallow
      cases hallow
  | misc =>
      rw [hr] at hallow
      cases hallow
  | pll =>
      have hpllp : addr = pllpBase ∨ addr = pllpMisc := by
        simpa only [Protected, hr] using hi
      obtain ⟨hP', hC, hM⟩ := hP.pllp addr hpllp
      rw [hr] at hallow
      simp [accessHandler, allowPll, hC, hM, hP', hpllp] at hallow
  | source clks =>
      have hclks : ¬ (clks = P.uartdRClk ∨ clks = P.sdmmc4RClk) := by
        simpa only [Protected, hr] using hi
      rw [hr] at hallow
      simp [accessHandler, allowSource, hclks] at hallow
  | enbrstDevices rb => exact hreg rb hr

/-- A write keeps the protected bits exactly if it is harmless. -/
theorem Documented.sameProtected_write_iff (hP : P.Documented) (h : P.SameProtected regs₀ regs) :
    P.SameProtected regs₀ (P.genFwdWrite regs addr value) ↔
      P.Harmless regs₀ (.write addr value) := by
  rw [genFwdWrite_eq]
  by_cases hok : addr < pageSize ∧ addr % 4 = 0 ∧
      P.accessHandler ⟨addr, .writeAccess, value⟩ (P.tk1ClkRegisters (addr / 4)) = true
  · rw [if_pos hok]
    obtain ⟨hpage, halign, hallow⟩ := hok
    by_cases henbrst : ∃ rb, P.tk1ClkRegisters (addr / 4) = .enbrstDevices rb
    · obtain ⟨rb, hreg⟩ := henbrst
      rw [hreg] at hallow
      have hvalue := allowEnbrst_write_iff.1 hallow
      by_cases heffect : P.effect addr = .store
      · have hstore : P.store regs addr value = Function.update regs addr value := by
          simp [store, heffect]
        have hclear : ∀ i, ¬ P.allowedDevice (rb * 32 + i) → value.getLsbD i = false := by
          intro i hi
          by_contra hc
          exact hi (hvalue i (Bool.not_eq_false _ ▸ hc))
        have hprot : ∀ i, P.Protected addr i ↔ ¬ P.allowedDevice (rb * 32 + i) := by
          intro i
          simp [Protected, hreg]
        rw [hstore, sameProtected_update_iff h]
        constructor
        · intro hsame rb' _ _ _ hreg' _ i hi
          rw [hreg] at hreg'
          obtain rfl := ClkRegister.enbrstDevices.inj hreg'
          rw [← hsame i ((hprot i).2 hi), hclear i hi]
        · intro hharm i hi
          rw [hprot] at hi
          rw [hclear i hi, hharm rb hpage halign heffect hreg hallow i hi]
      · refine iff_of_true (hP.sameProtected_store h hreg hvalue heffect) ?_
        exact fun _ _ _ hstore => absurd hstore heffect
    · have hreg : ∀ rb, P.tk1ClkRegisters (addr / 4) ≠ .enbrstDevices rb :=
        fun rb hrb => henbrst ⟨rb, hrb⟩
      rw [hP.store_of_not_enbrst hreg, sameProtected_update_iff h]
      refine iff_of_true (fun i hi => absurd hi (hP.not_protected_of_handler hreg hallow i)) ?_
      exact fun rb _ _ _ hrb => absurd hrb (hreg rb)
  · rw [if_neg hok]
    refine iff_of_true h fun rb hpage halign _ hreg hallow => ?_
    refine absurd ⟨hpage, halign, ?_⟩ hok
    rw [hreg]
    exact hallow

theorem Documented.sameProtected_step_iff (hP : P.Documented) (h : P.SameProtected regs₀ regs)
    (a : Access) : P.SameProtected regs₀ (P.step regs a) ↔ P.Harmless regs₀ a := by
  cases a with
  | read addr =>
      refine iff_of_true ?_ trivial
      show P.SameProtected regs₀ (P.genFwdRead regs addr).2
      rwa [genFwdRead_regs]
  | write addr value => exact hP.sameProtected_write_iff h

/-! ## Sequences of accesses -/

/-- From a state with the initial protected bits, they stay as long as all accesses do no harm. -/
theorem Documented.sameProtected_run_iff (hP : P.Documented) :
    ∀ {as : List Access} {regs : Regs}, P.SameProtected regs₀ regs →
      ((∀ pre, pre <+: as → P.SameProtected regs₀ (P.run regs pre)) ↔
        ∀ a ∈ as, P.Harmless regs₀ a)
  | [], regs, h => by
      refine iff_of_true (fun pre hpre => ?_) nofun
      rw [List.prefix_nil.1 hpre]
      exact h
  | a :: as, regs, h => by
      rw [List.forall_mem_cons, ← hP.sameProtected_step_iff h a]
      constructor
      · intro hall
        have hfirst := hall [a] (by simp)
        refine ⟨hfirst, (hP.sameProtected_run_iff hfirst).1 fun pre hpre => ?_⟩
        exact hall (a :: pre) (by simpa using hpre)
      · rintro ⟨hfirst, hrest⟩ pre hpre
        cases pre with
        | nil => exact h
        | cons b pre =>
            obtain ⟨rfl, hpre'⟩ := List.cons_prefix_cons.1 hpre
            exact (hP.sameProtected_run_iff hfirst).2 hrest pre hpre'

/-- When the forwarded accesses leave protected state alone: exactly when every write to a plain
enable or reset register that passes the check finds the bits of all other devices clear. -/
theorem safe_iff (hP : P.Documented) (as : List Access) :
    P.Safe regs₀ as ↔ ∀ a ∈ as, P.Harmless regs₀ a := by
  rw [← hP.sameProtected_run_iff (fun _ _ _ => rfl)]
  exact and_iff_left genFwdRead_regs

/-- The registers of the Tegra K1 that are named above, all others taken as miscellaneous. -/
def tk1 : Platform where
  tk1ClkRegisters w :=
    if 1 ≤ w ∧ w ≤ 6 then .enbrstDevices ((w - 1) % 3)
    else if w = pllpBase / 4 ∨ w = pllpMisc / 4 then .pll
    else .misc
  pllC := (0x80, 0x90)
  pllM := (0x90, 0xa0)
  pllP := (0xa0, 0xb0)
  pllP1 := (0x670, 0x680)
  pllPReshift := 0x698
  clkEnbUartD := 65
  clkEnbSdmmc4 := 15
  clkEnbUsb2 := 58
  clkEnbUsb3 := 59
  uartdRClk := 0
  sdmmc4RClk := 1
  effect _ := .store

theorem documented_tk1 : tk1.Documented where
  pllp := by
    rintro addr (rfl | rfl)
    · decide
    · decide
  plain := by
    rintro rb hrb addr haddr
    have hrb' : rb = 0 ∨ rb = 1 ∨ rb = 2 := by omega
    rcases hrb' with rfl | rfl | rfl <;> rcases haddr with rfl | rfl <;> decide
  target := by
    rintro addr t (h | h)
    · cases h
    · cases h
  spi1_uartB := by decide

/-- Where no device is enabled, an access that enables only UARTD is safe. -/
theorem safe_uartD :
    tk1.Safe (fun _ => 0) [.write 0x18 2, .read 0x18, .write 0xa0 1] := by
  rw [safe_iff documented_tk1]
  intro a _
  cases a with
  | read addr => trivial
  | write addr value => simp [Harmless]

/-- The guest disables the clock of SPI1 by writing zero to `CLK_OUT_ENB_H`. -/
theorem not_safe_clk_out_enb_H :
    tk1.Documented ∧ tk1.Protected 0x14 9 ∧
      ¬ tk1.Safe (fun addr => if addr = 0x14 then 0x200 else 0) [.write 0x14 0] := by
  have hprot : tk1.Protected 0x14 9 := documented_tk1.spi1_uartB.1
  refine ⟨documented_tk1, hprot, fun hsafe => ?_⟩
  have hsame := hsafe.1 _ (List.prefix_refl _) 0x14 9 hprot
  revert hsame
  decide

/-- The enable and reset bits of SPI1 and UARTB are protected. -/
theorem Documented.protected_spi1_uartB (hP : P.Documented) :
    P.Protected 0x14 9 ∧ P.Protected 0x8 9 ∧ P.Protected 0x10 7 ∧ P.Protected 0x4 7 := by
  obtain ⟨hspi1, huartB⟩ := hP.spi1_uartB
  have hH := hP.plain 1 (by decide)
  have hL := hP.plain 0 (by decide)
  refine ⟨?_, ?_, ?_, ?_⟩
  · simpa only [Protected, (hH 0x14 (.inr rfl)).1] using hspi1
  · simpa only [Protected, (hH 0x8 (.inl rfl)).1] using hspi1
  · simpa only [Protected, (hL 0x10 (.inr rfl)).1] using huartB
  · simpa only [Protected, (hL 0x4 (.inl rfl)).1] using huartB

end Platform

end Clock
end Tk1Bsp
