import Tk1Bsp.Can.Priority

/-!
# The ranking of identifiers

`get_frame_priority` on its own, with the write of the priority that follows it, and
`canid_clear_cache`, in any order.  Who is in which entry is known from the calls alone; the entry
of the cache says the same as long as no identifier is zero.  A success ranks all entries anew, and
writes the priorities of those that are in use.
-/

namespace Tk1Bsp
namespace Can

open Prog

/-- `get_frame_priority`, and the write of the priority field with which `can_sendto` follows a
success. -/
def rankAndWrite (b : Fin 3) (id : CanId) : Io ℤ := do
  let prio ← getFramePriority b id
  if prio = -1 then return prio
  else do
    mcp2515BitModify (txbctrl b) txbctrlTxpMask ((BitVec.ofInt 2 prio).setWidth 8)
    return prio

/-- The calls. -/
inductive RankAct
  | rank (b : Fin 3) (id : CanId)
  | clear (b : Fin 3)

/-- The driver, and the identifiers of the entries that are in use. -/
structure Ranking where
  driver : Driver
  occupant : Fin 3 → Option (BitVec 29)

namespace Ranking

/-- A call, and what it returns. -/
def step (s : Ranking) : RankAct → Option (ℤ × Ranking)
  | .rank b id => ((rankAndWrite b id).run exec s.driver).map fun rd =>
      (rd.1, ⟨rd.2, if rd.1 = -1 then s.occupant else Function.update s.occupant b (some id.id)⟩)
  | .clear b => ((canidClearCache b).run exec s.driver).map fun rd =>
      (0, ⟨rd.2, Function.update s.occupant b none⟩)

/-- The identifiers are not zero. -/
def Admissible : RankAct → Prop
  | .rank _ id => id.id ≠ 0
  | .clear _ => True

instance : DecidablePred Admissible
  | .rank _ id => inferInstanceAs (Decidable (id.id ≠ 0))
  | .clear _ => isTrue trivial

/-- The step relation. -/
def Step (s : Ranking) (a : RankAct) (ret : ℤ) (s' : Ranking) : Prop :=
  s.step a = some (ret, s') ∧ Admissible a

/-- The cache after `memset`. -/
structure Cleared (s : Ranking) : Prop where
  cache : ∀ i, s.driver.txbCache i = .zero
  occupant : ∀ i, s.occupant i = none

/-- The identifier of an entry; zero if it is not in use. -/
def idOf (o : Option (BitVec 29)) : BitVec 29 := o.getD 0

variable (s : Ranking)

/-- The number of entries in use with a larger identifier. -/
def rankOf (x : BitVec 29) : ℕ :=
  (List.finRange 3).countP fun j => (s.occupant j).any fun y => x < y

/-- The priority fields of the entries in use are their ranks. -/
def Graded : Prop := ∀ i x, s.occupant i = some x → (s.driver.chip.txp i).toNat = s.rankOf x

/-- The priority fields of the entries in use follow the identifiers. -/
def Follows : Prop := ∀ i j x y, s.occupant i = some x → s.occupant j = some y →
  (x < y → s.driver.chip.txp j < s.driver.chip.txp i) ∧
    (x = y → s.driver.chip.txp i = s.driver.chip.txp j)

/-- What a call for an entry in use does: nothing. -/
def Refused (ret : ℤ) (s' : Ranking) : Prop := ret = -1 ∧ s' = s

/-- A read or an update of the cache, and a write of the priority field of a buffer in use. -/
inductive Grades (used : Fin 3 → Prop) : Op → Prop
  | cache (f : TxbCache → TxbCache) : Grades used (.txbCache f)
  | priority (k : Fin 3) (h : used k) (val : BitVec 8) :
      Grades used (.spi [0x05, txbctrl k, txbctrlTxpMask, val] 0)

/-- What a call for a free entry does.  Every priority computed is the number of larger identifiers,
at most two; the priority fields follow the identifiers, and no register is written but the priority
fields of `b` and of the entries that were in use. -/
structure Accepted (b : Fin 3) (id : CanId) (ret : ℤ) (s' : Ranking) : Prop where
  occupant : s'.occupant = Function.update s.occupant b (some id.id)
  priority : ret = s'.rankOf id.id
  computed : ∀ i, (s'.driver.txbCache i).priority.toNat = s'.rankOf (idOf (s'.occupant i)) ∧
    s'.rankOf (idOf (s'.occupant i)) ≤ 2
  graded : s'.Graded
  follows : s'.Follows
  writes : ∀ o ∈ (rankAndWrite b id).trace exec s.driver,
    Grades (fun k => k = b ∨ s.occupant k ≠ none) o

/-! ### The ranks -/

theorem any_lt_eq (o : Option (BitVec 29)) (x : BitVec 29) :
    (o.any fun y => decide (x < y)) = decide (x < idOf o) := by
  cases o with
  | some y => rfl
  | none =>
      have hnot : ¬ x < idOf none := BitVec.not_lt_zero
      rw [decide_eq_false hnot]
      rfl

theorem toNat_above (canid : Fin 3 → BitVec 29) (k : Fin 3) :
    (above canid k).toNat = (List.finRange 3).countP fun j => canid k < canid j := by
  have hself : ∀ x : BitVec 29, ¬ x < x := BitVec.lt_irrefl
  have hlist : List.finRange 3 = [0, 1, 2] := rfl
  unfold above
  rw [hlist]
  fin_cases k <;> simp only [List.countP_cons, List.countP_nil] <;> simp [hself] <;>
    split_ifs <;> rfl

/-- The priority that the ranking of the identifiers gives to an entry. -/
theorem toNat_above_idOf (occupant : Fin 3 → Option (BitVec 29)) (d : Driver) (i : Fin 3) :
    (above (fun k => idOf (occupant k)) i).toNat = rankOf ⟨d, occupant⟩ (idOf (occupant i)) := by
  rw [toNat_above, rankOf]
  simp only [any_lt_eq]

theorem above_le (canid : Fin 3 → BitVec 29) (k : Fin 3) : (above canid k).toNat ≤ 2 := by
  unfold above
  split_ifs <;> decide

end Ranking

/-! ## The programs -/

section Runs

variable {d : Driver} {b k : Fin 3} {id : CanId}

theorem rankAndWrite_eq (b : Fin 3) (id : CanId) :
    rankAndWrite b id = (getFramePriorityAt b id).bind fun prio =>
      if prio = -1 then .ret prio
      else (mcp2515BitModify (txbctrl b) txbctrlTxpMask ((BitVec.ofInt 2 prio).setWidth 8)).bind
        fun _ => .ret prio := by
  rw [rankAndWrite, getFramePriority_fin]
  rfl

/-- An entry in use is left as it is. -/
theorem run_rankAndWrite_of_valid (h : (d.txbCache b).isValid = true) (id : CanId) :
    (rankAndWrite b id).run exec d = some (-1, d) := by
  have hcache : exec (.txbCache fun cache =>
      if (cache b).isValid then cache else rankCache b id cache) d = some (d.txbCache, d) := by
    show some (d.txbCache, { d with txbCache := if (d.txbCache b).isValid then _ else _ }) = _
    rw [if_pos h]
  rw [rankAndWrite_eq, getFramePriorityAt, run_bind, op, bind_eq, perform_bind,
    run_call_of_exec hcache, if_pos h]
  rfl

/-- The operations of the ranking never wait. -/
theorem isSome_rankAndWrite (b : Fin 3) (id : CanId) (d : Driver) :
    ((rankAndWrite b id).run exec d).isSome = true := by
  have hmodify : ∀ {reg mask val : BitVec 8}, (mcp2515BitModify reg mask val).Every fun o =>
      ∀ s, True → (exec o s).isSome := every_bitModify fun _ _ => rfl
  have hupdate : ∀ is, (updatePriorities b is).Every fun o => ∀ s, True → (exec o s).isSome := by
    intro is
    induction is with
    | nil => trivial
    | cons i is ih =>
        refine ⟨fun _ _ => rfl, fun cache => ?_⟩
        dsimp only [ret_bind]
        split
        · exact hmodify.bind fun _ => ih
        · exact ih
  refine run_isSome_of_trace (φ := fun _ => True) ?_ fun _ _ => trivial
  rw [rankAndWrite_eq]
  refine Every.bind ⟨fun _ _ => rfl, fun cache => ?_⟩ fun prio => ?_
  · dsimp only [ret_bind]
    split
    · trivial
    · exact (hupdate _).bind fun _ => ⟨fun _ _ => rfl, fun _ => trivial⟩
  · split
    · trivial
    · exact hmodify.bind fun _ => trivial

/-- A free entry: all entries are ranked, and the priorities of those in use are written. -/
theorem run_rankAndWrite_of_not_valid {prio : ℤ} {d' : Driver} (h : (d.txbCache b).isValid = false)
    (hrun : (rankAndWrite b id).run exec d = some (prio, d')) :
    prio = ((rankCache b id d.txbCache b).priority.toNat : ℤ) ∧
      d'.txbCache = rankCache b id d.txbCache ∧
      ∀ j, j = b ∨ (rankCache b id d.txbCache j).isValid = true →
        d'.chip.txp j = (rankCache b id d.txbCache j).priority := by
  rw [rankAndWrite_eq, ← getFramePriority_fin] at hrun
  obtain ⟨prio₁, d₁, hrank, hrun⟩ := of_run_bind hrun
  have htx := transmitter_getFramePriority hrank
  rw [Transmitter.rank_of_not_valid h] at htx
  obtain ⟨hprio, hd₁⟩ := Prod.mk.inj htx
  have hne : prio₁ ≠ -1 := by omega
  rw [if_neg hne] at hrun
  obtain ⟨rfl, rfl⟩ := Prod.mk.inj (Option.some.inj hrun)
  have hwritten := transmitter_priority (d := d₁) b ((BitVec.ofInt 2 prio₁).setWidth 8)
  refine ⟨hprio, congrArg Transmitter.cache hd₁, fun j hj => ?_⟩
  have htxp := congrFun (congrArg Transmitter.txp hwritten) j
  refine htxp.trans ?_
  show Function.update d₁.transmitter.txp b _ j = _
  by_cases hjb : j = b
  · subst hjb
    rw [Function.update_self, hprio, BitVec.setWidth_setWidth_of_le _ (by decide),
      BitVec.setWidth_eq, BitVec.ofInt_natCast, BitVec.ofNat_toNat, BitVec.setWidth_eq]
    rfl
  · rw [Function.update_of_ne hjb, hd₁]
    exact if_pos ⟨hj.resolve_left hjb, hjb⟩

theorem isValid_rankCache {cache : TxbCache} (h : ¬ k = b) :
    (rankCache b id cache k).isValid = (cache k).isValid := by
  unfold CanidCache.isValid
  rw [canid_rankCache, if_neg h]

/-- `updatePriorities` writes the priorities of entries in use. -/
theorem grades_updatePriorities {used : Fin 3 → Prop} (is : List (Fin 3))
    (h : ∀ k, k ≠ b → (d.txbCache k).isValid = true → used k) :
    ∀ o ∈ (updatePriorities b is).trace exec d, Ranking.Grades used o := by
  induction is generalizing d with
  | nil => exact fun _ ho => absurd ho List.not_mem_nil
  | cons i is ih =>
      refine List.forall_mem_cons.2 ⟨.cache _, ?_⟩
      dsimp only [ret_bind, id]
      split
      · rename_i hi
        refine forall_trace_bind.2 ⟨List.forall_mem_singleton.2 (.priority i (h i hi.2 hi.1) _), ?_⟩
        intro _ d₁ hrun
        obtain ⟨-, rfl⟩ := Prod.mk.inj (Option.some.inj hrun)
        exact ih h
      · exact ih h

theorem grades_getFramePriorityAt {used : Fin 3 → Prop}
    (h : (d.txbCache b).isValid = false → ∀ k ≠ b, (d.txbCache k).isValid = true → used k) :
    ∀ o ∈ (getFramePriorityAt b id).trace exec d, Ranking.Grades used o := by
  refine List.forall_mem_cons.2 ⟨.cache _, ?_⟩
  dsimp only [ret_bind]
  split
  · exact fun _ ho => absurd ho List.not_mem_nil
  · rename_i hfree
    refine forall_trace_bind.2 ⟨grades_updatePriorities _ fun k hk hused => ?_, fun _ d₁ _ => ?_⟩
    · exact h (Bool.eq_false_iff.2 hfree) k hk ((isValid_rankCache hk).symm.trans hused)
    · exact List.forall_mem_singleton.2 (.cache _)

/-- It writes the priorities of all other entries in use. -/
theorem priority_of_forall_trace {φ : Op → Prop} {is : List (Fin 3)}
    (h : ∀ o ∈ (updatePriorities b is).trace exec d, φ o) (hk : k ∈ is) (hne : k ≠ b)
    (hvalid : (d.txbCache k).isValid = true) :
    ∃ val, φ (.spi [0x05, txbctrl k, txbctrlTxpMask, val] 0) := by
  induction is generalizing d with
  | nil => cases hk
  | cons i is ih =>
      have hrest := (List.forall_mem_cons.1 h).2
      dsimp only [ret_bind, id] at hrest
      have hmem : k ≠ i → k ∈ is := fun hki => (List.mem_cons.1 hk).resolve_left hki
      split at hrest
      · obtain ⟨hwrite, hrest⟩ := forall_trace_bind.1 hrest
        by_cases hki : k = i
        · subst hki
          exact ⟨_, hwrite _ (List.mem_singleton.2 rfl)⟩
        · exact ih (hrest () _ rfl) (hmem hki) hvalid
      · rename_i hother
        refine ih hrest (hmem ?_) hvalid
        rintro rfl
        exact hother ⟨hvalid, hne⟩

/-- The operations of a call. -/
theorem grades_rankAndWrite {used : Fin 3 → Prop} (hb : used b)
    (h : ∀ k, (d.txbCache k).isValid = true → used k) :
    ∀ o ∈ (rankAndWrite b id).trace exec d, Ranking.Grades used o := by
  rw [rankAndWrite_eq]
  refine forall_trace_bind.2 ⟨grades_getFramePriorityAt fun _ k _ => h k, fun prio d₁ _ => ?_⟩
  split
  · exact fun _ ho => absurd ho List.not_mem_nil
  · exact List.forall_mem_singleton.2 (.priority b hb _)

end Runs

/-! ## The invariant -/

namespace Ranking

variable {s s' : Ranking} {a : RankAct} {b : Fin 3} {id : CanId} {ret : ℤ}

/-- The cache has the identifiers of the entries in use, and the priorities follow them. -/
structure Kept (s : Ranking) : Prop where
  canid : ∀ i, (s.driver.txbCache i).canid = idOf (s.occupant i)
  ne_zero : ∀ i x, s.occupant i = some x → x ≠ 0
  follows : s.Follows

theorem Cleared.kept (h : s.Cleared) : s.Kept where
  canid i := by
    rw [h.cache, h.occupant]
    rfl
  ne_zero i x hx := by
    rw [h.occupant] at hx
    cases hx
  follows i j x y hx := by
    rw [h.occupant] at hx
    cases hx

/-- The entries in use are those that `canid_cache_is_valid` finds. -/
theorem Kept.isValid_iff (h : s.Kept) (i : Fin 3) :
    (s.driver.txbCache i).isValid = true ↔ s.occupant i ≠ none := by
  rw [CanidCache.isValid, h.canid, decide_eq_true_eq]
  cases hi : s.occupant i with
  | none => exact ⟨fun hne => absurd rfl hne, fun hne => absurd rfl hne⟩
  | some x => exact ⟨fun _ => Option.some_ne_none x, fun _ => h.ne_zero i x hi⟩

/-- Where the priorities are those of the ranking, they are the ranks and follow the identifiers. -/
theorem graded_and_follows (h : ∀ i x, s.occupant i = some x →
    s.driver.chip.txp i = above (fun k => idOf (s.occupant k)) i) : s.Graded ∧ s.Follows := by
  refine ⟨fun i x hx => ?_, fun i j x y hx hy => ?_⟩
  · have hid : idOf (s.occupant i) = x := by
      rw [hx]
      rfl
    rw [h i x hx, toNat_above_idOf s.occupant s.driver, hid]
  · have horder := above_order (fun k => idOf (s.occupant k)) i j
    rw [h i x hx, h j y hy]
    simp only [hx, hy] at horder
    exact horder

/-- A call for an entry in use. -/
theorem rank_of_occupied (h : s.Kept) (hb : s.occupant b ≠ none) (id : CanId) :
    s.step (.rank b id) = some (-1, s) := by
  rw [step, run_rankAndWrite_of_valid ((h.isValid_iff b).2 hb) id]
  rfl

/-- The identifiers after a call for entry `b`. -/
theorem Kept.canid_entered (h : s.Kept) (b : Fin 3) (id : CanId) (i : Fin 3) :
    idOf (Function.update s.occupant b (some id.id) i) =
      (rankCache b id s.driver.txbCache i).canid := by
  rw [canid_rankCache, Function.update_apply]
  split
  · rfl
  · exact (h.canid i).symm

theorem Kept.ne_zero_entered (h : s.Kept) (hid : id.id ≠ 0) (b i : Fin 3) (x : BitVec 29)
    (hx : Function.update s.occupant b (some id.id) i = some x) : x ≠ 0 := by
  by_cases hib : i = b
  · rw [hib, Function.update_self] at hx
    exact Option.some.inj hx ▸ hid
  · rw [Function.update_of_ne hib] at hx
    exact h.ne_zero i x hx

/-- A call for a free entry. -/
theorem rank_of_free (h : s.Kept) (hid : id.id ≠ 0) (hb : s.occupant b = none) :
    ∃ ret s', s.step (.rank b id) = some (ret, s') ∧ s.Accepted b id ret s' ∧ s'.Kept := by
  obtain ⟨⟨prio, d⟩, hrun⟩ := Option.isSome_iff_exists.1 (isSome_rankAndWrite b id s.driver)
  have hvalid : (s.driver.txbCache b).isValid = false := by
    rw [Bool.eq_false_iff, Ne, h.isValid_iff]
    exact fun hne => hne hb
  obtain ⟨hprio, hcache, htxp⟩ := run_rankAndWrite_of_not_valid hvalid hrun
  have hne : prio ≠ -1 := by omega
  have hpriority : ∀ i, (rankCache b id s.driver.txbCache i).priority =
      above (fun k => idOf (Function.update s.occupant b (some id.id) k)) i := by
    intro i
    simp only [priority_rankCache, h.canid_entered]
  -- the entries in use after the call
  have hused : ∀ i x, Function.update s.occupant b (some id.id) i = some x →
      d.chip.txp i = above (fun k => idOf (Function.update s.occupant b (some id.id) k)) i := by
    intro i x hx
    rw [← hpriority]
    refine htxp i (or_iff_not_imp_left.2 fun hib => ?_)
    rw [isValid_rankCache hib, h.isValid_iff]
    rw [Function.update_of_ne hib] at hx
    rw [hx]
    exact Option.some_ne_none x
  obtain ⟨hgraded, hfollows⟩ :=
    graded_and_follows (s := ⟨d, Function.update s.occupant b (some id.id)⟩) hused
  refine ⟨prio, ⟨d, Function.update s.occupant b (some id.id)⟩, ?_,
    ⟨rfl, ?_, fun i => ?_, hgraded, hfollows, ?_⟩, ⟨fun i => ?_, h.ne_zero_entered hid b, hfollows⟩⟩
  · rw [step, hrun, Option.map_some]
    exact congrArg (fun o => some (prio, (⟨d, o⟩ : Ranking))) (if_neg hne)
  · rw [hprio, hpriority, toNat_above_idOf _ d, Function.update_self]
    rfl
  · have habove := toNat_above_idOf (Function.update s.occupant b (some id.id)) d i
    refine ⟨?_, habove ▸ above_le _ i⟩
    show (d.txbCache i).priority.toNat = _
    rw [hcache, hpriority, habove]
  · exact grades_rankAndWrite (.inl rfl) fun k hk => .inr ((h.isValid_iff k).1 hk)
  · rw [hcache]
    exact (h.canid_entered b id i).symm

/-- `canid_clear_cache`. -/
theorem step_clear (s : Ranking) (b : Fin 3) : s.step (.clear b) = some (0,
    ⟨{ s.driver with txbCache := Function.update s.driver.txbCache b .zero },
      Function.update s.occupant b none⟩) := rfl

theorem Kept.step (h : s.Kept) (hstep : s.Step a ret s') : s'.Kept := by
  obtain ⟨hstep, hid⟩ := hstep
  cases a with
  | rank b id =>
      by_cases hb : s.occupant b = none
      · obtain ⟨_, _, hfree, -, hkept⟩ := rank_of_free h hid hb
        rw [hfree] at hstep
        obtain ⟨-, rfl⟩ := Prod.mk.inj (Option.some.inj hstep)
        exact hkept
      · rw [rank_of_occupied h hb] at hstep
        obtain ⟨-, rfl⟩ := Prod.mk.inj (Option.some.inj hstep)
        exact h
  | clear b =>
      rw [step_clear] at hstep
      obtain ⟨-, rfl⟩ := Prod.mk.inj (Option.some.inj hstep)
      have hsub : ∀ i x, Function.update s.occupant b none i = some x → s.occupant i = some x := by
        intro i x hx
        rw [Function.update_apply] at hx
        split at hx
        · cases hx
        · exact hx
      refine ⟨fun i => ?_, fun i x hx => h.ne_zero i x (hsub i x hx),
        fun i j x y hx hy => h.follows i j x y (hsub i x hx) (hsub j y hy)⟩
      show (Function.update s.driver.txbCache b .zero i).canid = _
      simp only [Function.update_apply]
      split
      · rfl
      · exact h.canid i

/-- In every run the priorities of the entries in use follow their identifiers.  A call for an entry
in use is refused and changes nothing; any other call is accepted. -/
theorem priorities_ranked (h : Transition.Reachable Step Cleared s) :
    s.Follows ∧ ∀ b id, id.id ≠ 0 → ∃ ret s', s.Step (.rank b id) ret s' ∧
      (s.occupant b ≠ none → s.Refused ret s') ∧
      (s.occupant b = none → s.Accepted b id ret s') := by
  have hkept : s.Kept := h.invariant (I := Kept) (fun _ => Cleared.kept) fun _ _ _ _ => Kept.step
  refine ⟨hkept.follows, fun b id hid => ?_⟩
  by_cases hb : s.occupant b = none
  · obtain ⟨ret, s', hstep, haccepted, -⟩ := rank_of_free hkept hid hb
    exact ⟨ret, s', ⟨hstep, hid⟩, fun hne => absurd hb hne, fun _ => haccepted⟩
  · have hstep := rank_of_occupied hkept hb id
    exact ⟨-1, s, ⟨hstep, hid⟩, fun _ => ⟨rfl, rfl⟩, fun hnone => absurd hnone hb⟩

/-- The state after calls, from a cache that has been cleared. -/
def after (acts : List RankAct) : Option Ranking :=
  acts.foldlM (fun s a => if Admissible a then (s.step a).map Prod.snd else none)
    ⟨(System.booted ⟨fun _ => 0⟩ fun _ => .bare 0).driver, fun _ => none⟩

theorem reachable_of_after {acts : List RankAct} (h : after acts = some s) :
    Transition.Reachable Step Cleared s :=
  Transition.Reachable.foldlM_if (p := fun _ => Admissible) h
    (.of_init ⟨fun _ => rfl, fun _ => rfl⟩)

/-- Two equal identifiers, one of which has left the cache. -/
theorem after_tie_and_clear :
    (after [.rank 0 ⟨5, false, false⟩, .rank 1 ⟨5, false, false⟩, .clear 0]).map (fun s =>
      s.occupant 2) = some none := rfl

theorem priorities_ranked_third : ∃ s ret s',
    after [.rank 0 ⟨5, false, false⟩, .rank 1 ⟨5, false, false⟩, .clear 0] = some s ∧
      s.Accepted 2 ⟨3, false, false⟩ ret s' := by
  obtain ⟨s, hafter, hfree⟩ := Option.map_eq_some_iff.1 after_tie_and_clear
  have hne : (⟨3, false, false⟩ : CanId).id ≠ 0 := by decide
  obtain ⟨ret, s', -, -, haccepted⟩ := (priorities_ranked (reachable_of_after hafter)).2 2 _ hne
  exact ⟨s, ret, s', hafter, haccepted hfree⟩

end Ranking

end Can
end Tk1Bsp
