import Tk1Bsp.Framework.ByteMemory

/-!
# The forwarder of UART D

`fwd_driver.c` lets a virtual machine read and write the registers of one of the UARTs that share a
device page.  The table has a mask for each of the sixteen registers, and the test is on the address
where an access begins.  An access is four bytes wide, so the last three addresses that pass the
test lead out of the registers.
-/

namespace Tk1Bsp
namespace Uart

/-- `struct access_mask`. -/
structure AccessMask where
  start : ℕ
  size : ℕ
  mask : List (BitVec 32)

/-- `ALL_ONE`. -/
def allOne : BitVec 32 := 0xFFFFFFFF

/-- `uart_mask_registers`. -/
def uartMaskRegisters : List (BitVec 32) := List.replicate 16 allOne

/-- `uart_mask`. -/
def uartMask : AccessMask where
  start := 0x300
  size := 0x40
  mask := uartMaskRegisters

/-- The address passes the test. -/
def InRange (addr : ℕ) : Prop := uartMask.start ≤ addr ∧ addr < uartMask.start + uartMask.size

instance (addr : ℕ) : Decidable (InRange addr) := inferInstanceAs (Decidable (_ ∧ _))

/-- The index into the masks. -/
def maskIndex (addr : ℕ) : ℕ := (addr - uartMask.start) / 4

section

variable (pageSize : ℕ) (page : ByteMemory) (addr : ℕ)

/-- `gen_fwd_read`.  There is no result if the index is outside of the table. -/
def genFwdRead : Option (BitVec 32) :=
  if pageSize ≤ addr then some 0
  else if InRange addr then uartMask.mask[maskIndex addr]?.map fun mask => page.load addr &&& mask
  else some 0

/-- `gen_fwd_write`. -/
def genFwdWrite (value : BitVec 32) : Option ByteMemory :=
  if pageSize ≤ addr then some page
  else if InRange addr then uartMask.mask[maskIndex addr]?.map fun mask =>
    page.store addr ((page.load addr &&& ~~~mask) ||| (value &&& mask))
  else some page

end

/-- The registers of UART D. -/
def UartD (a : ℕ) : Prop := 0x300 ≤ a ∧ a ≤ 0x33F

/-- An access at this address does not leave the registers of UART D. -/
structure FwdConfined (pageSize addr : ℕ) : Prop where
  write : ∀ page value, ∃ page', genFwdWrite pageSize page addr value = some page' ∧
    ∀ a, ¬ UartD a → page' a = page a
  read : ∀ page page', (∀ a, UartD a → page a = page' a) →
    ∃ value, genFwdRead pageSize page addr = some value ∧
      genFwdRead pageSize page' addr = some value
  outside : ¬ (InRange addr ∧ addr < pageSize) → ∀ page value,
    genFwdWrite pageSize page addr value = some page ∧ genFwdRead pageSize page addr = some 0
  index : InRange addr → maskIndex addr < 16 ∧ uartMask.mask.length = 16

variable {pageSize addr : ℕ} {page : ByteMemory} {value : BitVec 32}

/-- The index is inside of the table. -/
theorem maskIndex_lt (h : InRange addr) : maskIndex addr < 16 := by
  obtain ⟨hlow, hhigh⟩ := h
  have hstart : uartMask.start = 0x300 := rfl
  have hsize : uartMask.size = 0x40 := rfl
  unfold maskIndex
  omega

theorem getElem?_mask (h : InRange addr) : uartMask.mask[maskIndex addr]? = some allOne :=
  List.getElem?_replicate_of_lt (maskIndex_lt h)

theorem genFwd_of_not_inRange (h : ¬ (InRange addr ∧ addr < pageSize)) :
    genFwdWrite pageSize page addr value = some page ∧ genFwdRead pageSize page addr = some 0 := by
  unfold genFwdWrite genFwdRead
  by_cases hpage : pageSize ≤ addr
  · rw [if_pos hpage, if_pos hpage]
    exact ⟨rfl, rfl⟩
  · have hrange : ¬ InRange addr := fun hr => h ⟨hr, Nat.not_le.1 hpage⟩
    rw [if_neg hpage, if_neg hpage, if_neg hrange, if_neg hrange]
    exact ⟨rfl, rfl⟩

theorem genFwdRead_of_inRange (h : InRange addr) (hpage : addr < pageSize) :
    genFwdRead pageSize page addr = some (page.load addr) := by
  rw [genFwdRead, if_neg (Nat.not_le.2 hpage), if_pos h, getElem?_mask h]
  exact congrArg some (BitVec.and_allOnes ..)

/-- All bits of the mask are set: the word is replaced. -/
theorem genFwdWrite_of_inRange (h : InRange addr) (hpage : addr < pageSize) :
    genFwdWrite pageSize page addr value = some (page.store addr value) := by
  have hword : ∀ old : BitVec 32, (old &&& ~~~allOne) ||| (value &&& allOne) = value := by
    intro old
    have hone : allOne = BitVec.allOnes 32 := rfl
    rw [hone, BitVec.not_allOnes, BitVec.and_zero, BitVec.zero_or, BitVec.and_allOnes]
  rw [genFwdWrite, if_neg (Nat.not_le.2 hpage), if_pos h, getElem?_mask h, Option.map_some, hword]

/-- An access that ends within the registers. -/
theorem fwdConfined_of_le (h : InRange addr) (hpage : addr < pageSize) (hend : addr + 4 ≤ 0x340) :
    FwdConfined pageSize addr where
  write page value := by
    refine ⟨_, genFwdWrite_of_inRange h hpage, fun a ha => ByteMemory.store_of_not_mem ?_ _⟩
    have hlow : 0x300 ≤ addr := h.1
    rintro ⟨hle, hlt⟩
    exact ha ⟨by omega, by omega⟩
  read page page' hsame := by
    have hlow : 0x300 ≤ addr := h.1
    have hload : page.load addr = page'.load addr :=
      ByteMemory.load_congr fun b hle hlt => hsame b ⟨by omega, by omega⟩
    refine ⟨page.load addr, genFwdRead_of_inRange h hpage, ?_⟩
    rw [hload]
    exact genFwdRead_of_inRange h hpage
  outside hout := absurd ⟨h, hpage⟩ hout
  index _ := ⟨maskIndex_lt h, rfl⟩

/-- An address that fails the test. -/
theorem fwdConfined_of_not_inRange (h : ¬ (InRange addr ∧ addr < pageSize)) :
    FwdConfined pageSize addr where
  write page _ := ⟨page, (genFwd_of_not_inRange h).1, fun _ _ => rfl⟩
  read page page' _ :=
    ⟨0, (@genFwd_of_not_inRange pageSize addr page 0 h).2,
      (@genFwd_of_not_inRange pageSize addr page' 0 h).2⟩
  outside hout _ _ := genFwd_of_not_inRange hout
  index hrange := ⟨maskIndex_lt hrange, rfl⟩

/-- An access at one of the last three addresses reaches the byte after the registers. -/
theorem not_fwdConfined_of_last (h : 0x33D ≤ addr ∧ addr ≤ 0x33F) (hpage : addr < pageSize) :
    ¬ FwdConfined pageSize addr := by
  have hstart : uartMask.start = 0x300 := rfl
  have hsize : uartMask.size = 0x40 := rfl
  have hrange : InRange addr := ⟨by omega, by omega⟩
  intro hconfined
  obtain ⟨page', hwrite, hsame⟩ := hconfined.write (fun _ => 0) allOne
  rw [genFwdWrite_of_inRange hrange hpage] at hwrite
  have hout : ¬ UartD 0x340 := by
    rintro ⟨-, hhigh⟩
    omega
  have hzero := hsame 0x340 hout
  rw [← Option.some.inj hwrite, ByteMemory.store_of_mem (by omega)] at hzero
  have hones : ∀ k ∈ [1, 2, 3], allOne.extractLsb' (8 * k) 8 ≠ 0 := by decide
  refine hones (0x340 - addr) ?_ hzero
  have hk : 0x340 - addr = 1 ∨ 0x340 - addr = 2 ∨ 0x340 - addr = 3 := by omega
  rcases hk with hk | hk | hk <;> rw [hk] <;> decide

/-- The virtual machine is confined to UART D, except at the last three addresses. -/
theorem fwdConfined_iff (pageSize addr : ℕ) :
    FwdConfined pageSize addr ↔ ¬ (0x33D ≤ addr ∧ addr ≤ 0x33F ∧ addr < pageSize) := by
  constructor
  · rintro hconfined ⟨hlow, hhigh, hpage⟩
    exact not_fwdConfined_of_last ⟨hlow, hhigh⟩ hpage hconfined
  · intro h
    by_cases hin : InRange addr ∧ addr < pageSize
    · have hend : addr < 0x300 + 0x40 := hin.1.2
      exact fwdConfined_of_le hin.1 hin.2 (by omega)
    · exact fwdConfined_of_not_inRange hin

theorem not_fwdConfined_33D : ¬ FwdConfined 4096 0x33D :=
  not_fwdConfined_of_last (by decide) (by decide)

end Uart
end Tk1Bsp
