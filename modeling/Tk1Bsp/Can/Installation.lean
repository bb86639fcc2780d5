import Tk1Bsp.Can.Filter

/-!
# Runs of the filter functions

The calls of a client in configuration mode, with the filters that are in use kept beside the
registers.  A filter keeps its meaning while the decisions of the driver, which are made on the
registers alone, are right about the filters in use.  They are wrong when a mask in use decodes to
zero or to another mask, which the eight-bit variables of `set_rx_filter` make possible, and when a
filter in use is all zero.
-/

namespace Tk1Bsp
namespace Can

/-- A filter that `set_rx_filter` has returned and that has not been cleared. -/
structure Installed where
  slot : ℕ
  id : CanId
  mask : BitVec 32
  deriving DecidableEq

/-- The calls. -/
inductive Request
  | set (id : CanId) (mask : BitVec 32)
  | clear (j : ℕ)

namespace FilterFile

variable (f : FilterFile) (live : List Installed)

/-- The registers of a filter in use. -/
structure Holds (e : Installed) : Prop where
  slot : ∃ i ∈ [0, 1], e.slot ∈ slotsOf i
  filter : f.filter e.slot = e.id.regs
  mask : MaskIs (f.mask (bankOf e.slot)) e.id.exide e.mask

/-- `set_rx_filter` is right about the filters in use.  A mask that it takes for free belongs to
none of them, and is really zero if it is not going to be written; a slot that it takes for free is
free, and the mask that it takes for the same one is. -/
structure JudgesSet (id : CanId) (mask : BitVec 32) : Prop where
  fresh : ∀ i, f.choose id.exide mask [0, 1] = .fresh i →
    (∀ e ∈ live, bankOf e.slot ≠ i) ∧ (mask = 0 → MaskIs (f.mask i) id.exide 0)
  shared : ∀ j, f.choose id.exide mask [0, 1] = .shared j →
    (∀ e ∈ live, e.slot ≠ j) ∧ MaskIs (f.mask (bankOf j)) id.exide mask

/-- `clear_rx_filter` is right about the filters in use: where it takes the other slots of the first
mask for free, they are. -/
def JudgesClear (j : ℕ) : Prop :=
  bankOf j = 0 → (∀ k ∈ slotsOf 0, k ≠ j → isBlank (f.filter k) = true) →
    ∀ e ∈ live, e.slot ≠ j → bankOf e.slot ≠ 0

/-- The decisions of a call are right about the filters in use. -/
def Judges : Request → Prop
  | .set id mask => f.JudgesSet live id mask
  | .clear j => f.JudgesClear live j

variable {f} {live} {e : Installed}

theorem Holds.encodes (h : f.Holds e) :
    Encodes (f.filter e.slot) (f.mask (bankOf e.slot)) e.id e.mask := by
  rw [h.filter]
  exact encodes_regs h.mask

theorem bankOf_mem (j : ℕ) : bankOf j ∈ [0, 1] := by
  unfold bankOf
  split <;> decide

theorem Holds.of_same {g : FilterFile} (hsame : g.Same f) (h : f.Holds e) : g.Holds e := by
  obtain ⟨i, hi, hslot⟩ := h.slot
  refine ⟨h.slot, ?_, ?_⟩
  · rw [hsame.filter _ (mem_hardwareSlots_of_slotsOf hslot), h.filter]
  · rw [hsame.mask _ (bankOf_mem _)]
    exact h.mask

theorem store_mask_of_ne {i j : ℕ} {mask : BitVec 32} (id : CanId) (h : mask = 0 ∨ i ≠ bankOf j) :
    (f.store j id mask).mask i = f.mask i := by
  by_cases hmask : mask = 0
  · rw [store, if_neg (not_not_intro hmask)]
  · rw [store, if_pos hmask]
    exact Function.update_of_ne (h.resolve_left hmask) _ _

theorem store_mask_self {j : ℕ} {mask : BitVec 32} (id : CanId) (h : mask ≠ 0) :
    (f.store j id mask).mask (bankOf j) = maskRegs id.exide mask := by
  rw [store, if_pos h]
  exact Function.update_self ..

/-- Storing a filter in another slot, whose mask is not written or not shared. -/
theorem Holds.store (h : f.Holds e) {j : ℕ} (hj : e.slot ≠ j) (id : CanId) {mask : BitVec 32}
    (hmask : mask = 0 ∨ bankOf e.slot ≠ bankOf j) : (f.store j id mask).Holds e := by
  refine ⟨h.slot, ?_, ?_⟩
  · show Function.update f.filter j id.regs e.slot = _
    rw [Function.update_of_ne hj, h.filter]
  · rw [store_mask_of_ne id hmask]
    exact h.mask

/-- A filter that was stored is held. -/
theorem holds_store {i j : ℕ} (hi : i ∈ [0, 1]) (hj : j ∈ slotsOf i) {id : CanId}
    {mask stored : BitVec 32}
    (hmask : MaskIs ((f.store j id stored).mask (bankOf j)) id.exide mask) :
    (f.store j id stored).Holds ⟨j, id, mask⟩ :=
  ⟨⟨i, hi, hj⟩, Function.update_self .., hmask⟩

/-- What `set_rx_filter` does when its decision is right. -/
theorem place_of_judges {id : CanId} {mask : BitVec 32} (hargs : FilterArgs id mask)
    (hjudge : f.JudgesSet live id mask) (hlive : ∀ e ∈ live, f.Holds e) :
    (∀ e ∈ live, (f.place id mask).2.Holds e ∧ (f.place id mask).1 ≠ e.slot ∧
      (f.place id mask).2.mask (bankOf e.slot) = f.mask (bankOf e.slot)) ∧
    ∀ j : ℕ, (f.place id mask).1 = j → (f.place id mask).2.Holds ⟨j, id, mask⟩ := by
  unfold place
  cases hchoose : f.choose id.exide mask [0, 1] with
  | fresh i =>
      obtain ⟨hi, -⟩ := mem_of_fresh hchoose
      obtain ⟨hfree, hzero⟩ := hjudge.fresh i hchoose
      have hslot := fresh_mem_slotsOf hi
      have hbank := bankOf_eq hi hslot
      refine ⟨fun e he => ?_, fun j hj => ?_⟩
      · have hne : bankOf e.slot ≠ bankOf (i * filtsOfMask0) := by
          rw [hbank]
          exact hfree e he
        have hslots : e.slot ≠ i * filtsOfMask0 := fun h => hne (congrArg bankOf h)
        exact ⟨(hlive e he).store hslots id (.inr hne), fun h => hslots (Int.ofNat.inj h).symm,
          store_mask_of_ne id (.inr hne)⟩
      · obtain rfl : i * filtsOfMask0 = j := Int.ofNat.inj hj
        refine holds_store hi hslot ?_
        by_cases hmask : mask = 0
        · rw [store_mask_of_ne id (.inl hmask), hbank, hmask]
          exact hzero hmask
        · rw [store_mask_self id hmask]
          exact maskIs_maskRegs hargs
  | shared k =>
      obtain ⟨i, hi, hslot, -⟩ := mem_of_shared hchoose
      obtain ⟨hfree, hmask⟩ := hjudge.shared k hchoose
      refine ⟨fun e he => ?_, fun j hj => ?_⟩
      · exact ⟨(hlive e he).store (hfree e he) id (.inl rfl),
          fun h => hfree e he (Int.ofNat.inj h).symm, rfl⟩
      · obtain rfl : k = j := Int.ofNat.inj hj
        exact holds_store hi hslot hmask
  | refuse =>
      refine ⟨fun e he => ⟨hlive e he, fun h => ?_, rfl⟩, fun j hj => ?_⟩
      · have h : (-1 : ℤ) = e.slot := h
        omega
      · have hj : (-1 : ℤ) = j := hj
        omega

/-- What `clear_rx_filter` does when its decision is right. -/
theorem clear_of_judges {j : ℕ} (hjudge : f.JudgesClear live j) (hlive : ∀ e ∈ live, f.Holds e) :
    ∀ e ∈ live, e.slot ≠ j → (f.clear j).Holds e ∧
      (f.clear j).mask (bankOf e.slot) = f.mask (bankOf e.slot) := by
  intro e he hne
  have hfilter : (f.clear j).filter e.slot = f.filter e.slot := Function.update_of_ne hne _ _
  have hmask : (f.clear j).mask (bankOf e.slot) = f.mask (bankOf e.slot) := by
    by_cases hempty : bankOf j = 0 ∧
        ((slotsOf 0).all fun k => isBlank (Function.update f.filter j zeroRegs k)) = true
    · have hblank : ∀ k ∈ slotsOf 0, k ≠ j → isBlank (f.filter k) = true := by
        intro k hk hkj
        have hk := List.all_eq_true.1 hempty.2 k hk
        rwa [Function.update_of_ne hkj] at hk
      rw [clear, if_pos hempty]
      exact Function.update_of_ne (hjudge hempty.1 hblank e he hne) _ _
    · rw [clear, if_neg hempty]
  exact ⟨⟨(hlive e he).slot, hfilter.trans (hlive e he).filter, hmask ▸ (hlive e he).mask⟩, hmask⟩

end FilterFile

/-! ## Runs -/

/-- The driver, the filters in use, and the slots that have ever been returned. -/
structure Installation where
  driver : Driver
  live : List Installed
  returned : List ℕ

namespace Installation

/-- `set_rx_filter` has returned. -/
def add (s : Installation) (ret : ℤ) (id : CanId) (mask : BitVec 32) (d : Driver) : Installation :=
  if 0 ≤ ret then ⟨d, s.live ++ [⟨ret.toNat, id, mask⟩], ret.toNat :: s.returned⟩
  else { s with driver := d }

/-- A call of the client, and what it returns. -/
inductive Step : Installation → Request → ℤ → Installation → Prop
  | set {s : Installation} {id : CanId} {mask : BitVec 32} {ret : ℤ} {d : Driver}
      (hargs : FilterArgs id mask)
      (hrun : (setRxFilter id mask).run exec s.driver = some (ret, d)) :
      Step s (.set id mask) ret (s.add ret id mask d)
  | clear {s : Installation} {j : ℕ} {d : Driver} (hj : j ∈ s.returned)
      (hrun : (clearRxFilter (BitVec.ofNat 8 j)).run exec s.driver = some ((), d)) :
      Step s (.clear j) 0 ⟨d, s.live.filter (·.slot ≠ j), s.returned⟩

/-- Configuration mode, with zeros in all filter and mask registers. -/
structure Blank (s : Installation) : Prop where
  config : s.driver.chip.inConfig
  zero : ∀ a, Chip.isFilter a → s.driver.chip.reg a = 0
  live : s.live = []
  returned : s.returned = []

/-- The condition on a call: the decisions of the driver are right about the filters in use. -/
def Judged (s : Installation) (a : Request) : Prop := s.driver.chip.filterFile.Judges s.live a

/-- A call that meets the condition. -/
def JudgedStep (s : Installation) (a : Request) (ret : ℤ) (s' : Installation) : Prop :=
  s.Step a ret s' ∧ s.Judged a

/-- Every filter in use has its meaning. -/
def KeepsMeaning (s : Installation) : Prop :=
  ∀ e ∈ s.live, Encodes (s.driver.chip.quad (toAddr (rxfsidh e.slot)))
    (s.driver.chip.quad (toAddr (rxmsidh (bankOf e.slot)))) e.id e.mask

/-- A call does not return the slot of a filter in use, and does not change the mask of one that
stays in use. -/
def Spares (s : Installation) (a : Request) (ret : ℤ) (s' : Installation) : Prop :=
  ∀ e ∈ s.live, ((∃ id mask, a = .set id mask) → ret ≠ e.slot) ∧
    (e ∈ s'.live → s'.driver.chip.quad (toAddr (rxmsidh (bankOf e.slot))) =
      s.driver.chip.quad (toAddr (rxmsidh (bankOf e.slot))))

/-- The invariant. -/
structure Sound (s : Installation) : Prop where
  config : s.driver.chip.inConfig
  holds : ∀ e ∈ s.live, s.driver.chip.filterFile.Holds e
  returned : ∀ j ∈ s.returned, j ∈ hardwareSlots

theorem Blank.sound {s : Installation} (h : s.Blank) : s.Sound where
  config := h.config
  holds e he := by
    rw [h.live] at he
    cases he
  returned j hj := by
    rw [h.returned] at hj
    cases hj

/-- One call. -/
theorem Sound.step {s s' : Installation} {a : Request} {ret : ℤ} (h : s.Sound)
    (hstep : s.JudgedStep a ret s') : s'.Sound ∧ s.Spares a ret s' := by
  obtain ⟨hstep, hjudge⟩ := hstep
  cases hstep with
  | @set id mask _ d hargs hrun =>
      obtain ⟨chip, hspec, hconfig, hsame⟩ := run_setRxFilter h.config id mask
      obtain ⟨hret, rfl⟩ := Prod.mk.inj (Option.some.inj (hrun.symm.trans hspec))
      obtain ⟨hkept, hnew⟩ := FilterFile.place_of_judges hargs hjudge h.holds
      rw [← hret] at hkept hnew
      have hspares : ∀ e ∈ s.live, chip.filterFile.Holds e ∧ ret ≠ e.slot ∧
          chip.filterFile.mask (bankOf e.slot) = s.driver.chip.filterFile.mask (bankOf e.slot) :=
        fun e he => ⟨(hkept e he).1.of_same hsame, (hkept e he).2.1,
          (hsame.mask _ (FilterFile.bankOf_mem _)).trans (hkept e he).2.2⟩
      unfold add
      split
      · rename_i hpos
        have hnew := (hnew ret.toNat (Int.toNat_of_nonneg hpos).symm).of_same hsame
        refine ⟨⟨hconfig, fun e he => ?_, fun j hj => ?_⟩, fun e he => ⟨fun _ => (hspares e he).2.1,
          fun _ => (hspares e he).2.2⟩⟩
        · rcases List.mem_append.1 he with he | he
          · exact (hspares e he).1
          · obtain rfl := List.mem_singleton.1 he
            exact hnew
        · rcases List.mem_cons.1 hj with rfl | hj
          · obtain ⟨i, -, hslot⟩ := hnew.slot
            exact mem_hardwareSlots_of_slotsOf hslot
          · exact h.returned j hj
      · exact ⟨⟨hconfig, fun e he => (hspares e he).1, h.returned⟩,
          fun e he => ⟨fun _ => (hspares e he).2.1, fun _ => (hspares e he).2.2⟩⟩
  | @clear j d hj hrun =>
      obtain ⟨chip, hspec, hconfig, hsame⟩ := run_clearRxFilter h.config (h.returned j hj)
      obtain ⟨-, rfl⟩ := Prod.mk.inj (Option.some.inj (hrun.symm.trans hspec))
      have hkept := FilterFile.clear_of_judges hjudge h.holds
      have hlive : ∀ e ∈ s.live.filter (·.slot ≠ j), e ∈ s.live ∧ e.slot ≠ j := by
        intro e he
        simpa using he
      refine ⟨⟨hconfig, fun e he => ?_, h.returned⟩, fun e he => ⟨nofun, fun he' => ?_⟩⟩
      · obtain ⟨hmem, hne⟩ := hlive e he
        exact (hkept e hmem hne).1.of_same hsame
      · have hne := (hlive e he').2
        exact (hsame.mask _ (FilterFile.bankOf_mem _)).trans (hkept e he hne).2

/-- Where every call meets the condition, the filters in use keep their meaning, their slots and
their masks. -/
theorem filters_keep_meaning {s : Installation} (h : Transition.Reachable JudgedStep Blank s) :
    s.KeepsMeaning ∧ ∀ a ret s', s.JudgedStep a ret s' → s.Spares a ret s' := by
  have hsound : s.Sound :=
    h.invariant (I := Sound) (fun _ => Blank.sound) fun _ _ _ _ hI hstep => (hI.step hstep).1
  exact ⟨fun e he => (hsound.holds e he).encodes, fun a ret s' hstep => (hsound.step hstep).2⟩

/-- The controller in configuration mode, otherwise all zero. -/
def blank : Installation where
  driver := (System.booted ⟨fun a => if a = toAddr canstat then 0x80 else 0⟩ fun _ => .bare 0).driver
  live := []
  returned := []

theorem blank_initial : blank.Blank where
  config := rfl
  zero a ha := by
    have hne : a ≠ toAddr canstat := by
      rintro rfl
      exact absurd ha (by decide)
    exact if_neg hne
  live := rfl
  returned := rfl

/-- A standard identifier. -/
def standard (id : BitVec 29) : CanId := ⟨id, false, false⟩

/-- Two filters under one mask: the second call finds the mask, and takes the second slot. -/
theorem run_two_filters :
    ((setRxFilter (standard 0x123) 0xFF).run exec blank.driver).bind (fun r =>
      ((setRxFilter (standard 0x456) 0xFF).run exec r.2).map fun r' =>
        (r.1, r'.1, r.2.chip.filterFile.choose false 0xFF [0, 1], r.2.chip.filterFile.mask 0,
          isBlank (r'.2.chip.filterFile.filter 1))) =
      some (0, 1, .shared 1, maskRegs false 0xFF, false) := rfl

/-- The second of two filters under one mask keeps its meaning when the first is cleared. -/
theorem filters_keep_meaning_two :
    ∃ s : Installation, s.live = [⟨1, standard 0x456, 0xFF⟩] ∧ s.KeepsMeaning := by
  obtain ⟨⟨ret, d⟩, hfirst, hrest⟩ := Option.bind_eq_some_iff.1 run_two_filters
  obtain ⟨⟨ret', d'⟩, hsecond, hregs⟩ := Option.map_eq_some_iff.1 hrest
  obtain ⟨(hret : ret = 0), hregs⟩ := Prod.mk.inj hregs
  obtain ⟨(hret' : ret' = 1), hregs⟩ := Prod.mk.inj hregs
  obtain ⟨(hchoose : d.chip.filterFile.choose false 0xFF [0, 1] = .shared 1), hregs⟩ :=
    Prod.mk.inj hregs
  obtain ⟨(hmask : d.chip.filterFile.mask 0 = maskRegs false 0xFF),
    (hfilter : isBlank (d'.chip.filterFile.filter 1) = false)⟩ := Prod.mk.inj hregs
  subst hret hret'
  have hblank : blank.driver.chip.filterFile.choose false 0xFF [0, 1] = .fresh 0 := rfl
  have hjudge : blank.Judged (.set (standard 0x123) 0xFF) :=
    ⟨fun i _ => ⟨nofun, fun h => absurd h (by decide)⟩, fun j hj => by cases hblank.symm.trans hj⟩
  have hjudge' : (blank.add 0 (standard 0x123) 0xFF d).Judged (.set (standard 0x456) 0xFF) := by
    refine ⟨fun i hi => (by cases hchoose.symm.trans hi), fun j hj => ?_⟩
    cases hchoose.symm.trans hj
    refine ⟨fun e he => ?_, ?_⟩
    · obtain rfl := List.mem_singleton.1 he
      exact Nat.zero_ne_one
    · show MaskIs (d.chip.filterFile.mask 0) _ _
      rw [hmask]
      decide
  have hboth : Transition.Reachable JudgedStep Blank
      ((blank.add 0 (standard 0x123) 0xFF d).add 1 (standard 0x456) 0xFF d') :=
    ((Transition.Reachable.of_init blank_initial).next ⟨.set (by decide) hfirst, hjudge⟩).next
      ⟨.set (by decide) hsecond, hjudge'⟩
  have hconfig := (hboth.invariant (I := Sound) (fun _ => Blank.sound)
    fun _ _ _ _ hI hstep => (hI.step hstep).1).config
  have hreturned : 0 ∈ [1, 0] := by decide
  obtain ⟨chip, hclear, -⟩ := run_clearRxFilter hconfig (j := 0) (by decide)
  have hjudge'' : ((blank.add 0 (standard 0x123) 0xFF d).add 1 (standard 0x456) 0xFF d').Judged
      (.clear 0) := by
    intro _ hfree
    exact absurd (hfilter.symm.trans (hfree 1 (by decide) (by decide))) Bool.false_ne_true
  exact ⟨_, rfl, (filters_keep_meaning (hboth.next ⟨.clear hreturned hclear, hjudge''⟩)).1⟩

/-- The second call overwrites the slot and the mask of the first, whose mask decodes to zero. -/
theorem run_overwrite :
    ((setRxFilter (standard 0x123) 0x700).run exec blank.driver).bind (fun r =>
      ((setRxFilter (standard 0x456) 0x7FF).run exec r.2).map fun r' =>
        (r.1, r'.1, r'.2.chip.quad (toAddr (rxfsidh 0)), r'.2.chip.quad (toAddr (rxmsidh 0)))) =
      some (0, 0, [0x8A, 0xC0, 0, 0], [0xFF, 0xE0, 0, 0]) := rfl

/-- The filter 0x123 with the mask 0x700 stops to match 0x123. -/
theorem not_keepsMeaning_after_overwrite :
    ¬ ∀ s, Transition.Reachable Step Blank s → s.KeepsMeaning := by
  intro h
  obtain ⟨r, hfirst, hrest⟩ := Option.bind_eq_some_iff.1 run_overwrite
  obtain ⟨r', hsecond, hregs⟩ := Option.map_eq_some_iff.1 hrest
  obtain ⟨ret, d⟩ := r
  obtain ⟨ret', d'⟩ := r'
  obtain ⟨(hret : ret = 0), hrest'⟩ := Prod.mk.inj hregs
  obtain ⟨(hret' : ret' = 0), hquads⟩ := Prod.mk.inj hrest'
  obtain ⟨hfilter, hmask⟩ := Prod.mk.inj hquads
  subst hret hret'
  have hreach : Transition.Reachable Step Blank
      ((blank.add 0 (standard 0x123) 0x700 d).add 0 (standard 0x456) 0x7FF d') :=
    ((Transition.Reachable.of_init blank_initial).next (.set (by decide) hfirst)).next
      (.set (by decide) hsecond)
  have hencodes := h _ hreach ⟨0, standard 0x123, 0x700⟩ (List.mem_cons_self ..)
  have hmatch := (hencodes (standard 0x123) (by decide)).2 (by decide)
  have hnot : ¬ Accepts [0x8A, 0xC0, 0, 0] [0xFF, 0xE0, 0, 0] (standard 0x123) := by decide
  rw [← hfilter, ← hmask] at hnot
  exact hnot hmatch

end Installation

end Can
end Tk1Bsp
