import Tk1Bsp.Can.Session

/-!
# Priorities by identifier

`can_sendto` keeps the priority fields of the pending buffers in the order of their identifiers.  It
ranks the entries of the cache, and an entry stands for its buffer only from `get_frame_priority` to
the interrupt of that transmission, and never for the identifier zero: an entry left behind by an
abort is refused, and a pending buffer without an entry is not ranked (`Ranked`).
-/

namespace Tk1Bsp
namespace Can

/-! ## The ranking -/

section Ranking

variable (cache : TxbCache)

theorem canid_comparePair (ij : Fin 3 × Fin 3) (k : Fin 3) :
    (comparePair cache ij k).canid = (cache k).canid := by
  have hbump : ∀ i, (bump cache i k).canid = (cache k).canid := by
    intro i
    rw [bump, Function.update_apply]
    split
    · rename_i hk
      rw [hk]
    · rfl
  unfold comparePair
  split_ifs
  · exact hbump _
  · exact hbump _
  · rfl

theorem priority_bump (i k : Fin 3) :
    (bump cache i k).priority = (cache k).priority + if k = i then 1 else 0 := by
  rw [bump, Function.update_apply]
  split
  · rename_i hk
    rw [hk]
  · exact (BitVec.add_zero _).symm

/-- A comparison moves the entry with the smaller identifier up by one. -/
theorem priority_comparePair (i j k : Fin 3) :
    (comparePair cache (i, j) k).priority = (cache k).priority +
      if k = i ∧ (cache i).canid < (cache j).canid ∨ k = j ∧ (cache j).canid < (cache i).canid
      then 1 else 0 := by
  unfold comparePair
  by_cases hlt : (cache i).canid < (cache j).canid
  · have hgt : ¬ (cache j).canid < (cache i).canid := fun h => by
      rw [BitVec.lt_def] at h hlt
      omega
    simp only [hlt, hgt, if_true, priority_bump, and_true, and_false, or_false]
  · by_cases hgt : (cache j).canid < (cache i).canid
    · simp only [hlt, hgt, if_true, if_false, priority_bump, and_true, and_false, false_or]
    · simp only [hlt, hgt, if_false, and_false, or_false]
      exact (BitVec.add_zero _).symm

variable {cache} {b : Fin 3} {id : CanId}

/-- The identifiers that `get_frame_priority` ranks. -/
theorem canid_rankCache (k : Fin 3) :
    (rankCache b id cache k).canid = if k = b then id.id else (cache k).canid := by
  simp only [rankCache, List.foldl_cons, List.foldl_nil, canid_comparePair, Function.update_apply]
  split <;> rfl

/-- The number of entries with a larger identifier. -/
def above (canid : Fin 3 → BitVec 29) (k : Fin 3) : BitVec 2 :=
  (if canid k < canid (k + 1) then 1 else 0) + if canid k < canid (k + 2) then 1 else 0

theorem above_order (canid : Fin 3 → BitVec 29) (i j : Fin 3) :
    (canid i < canid j → above canid j < above canid i) ∧
      (canid i = canid j → above canid i = above canid j) := by
  -- the third entry is compared with both
  have hthird : ∀ i j : Fin 3, j = i ∨ (j = i + 1 ∧ j + 1 = i + 2 ∧ j + 2 = i) ∨
      (j = i + 2 ∧ j + 1 = i ∧ j + 2 = i + 1) := by decide
  unfold above
  rcases hthird i j with rfl | ⟨rfl, h₁, h₂⟩ | ⟨rfl, h₁, h₂⟩
  · exact ⟨fun h => absurd h (BitVec.lt_irrefl _), fun _ => rfl⟩
  all_goals
    rw [h₁, h₂]
    simp only [BitVec.lt_def, ← BitVec.toNat_inj]
    refine ⟨fun h => ?_, fun h => ?_⟩ <;> split_ifs <;> first | decide | omega

/-- The priority of an entry is the number of entries with a larger identifier. -/
theorem priority_rankCache (k : Fin 3) :
    (rankCache b id cache k).priority = above (fun k => (rankCache b id cache k).canid) k := by
  unfold above rankCache
  simp only [List.foldl_cons, List.foldl_nil, canid_comparePair, priority_comparePair]
  fin_cases k
  · simp
  · simp [BitVec.add_comm]
  · simp

end Ranking

/-! ## Runs -/

namespace Transmitter

variable {t : Transmitter} {i : Fin 3} {frame : CanFrame}

/-- A frame for a buffer whose entry is empty gets its rank. -/
theorem rank_of_not_valid {id : CanId} (h : (t.cache i).isValid = false) :
    t.rank i id = (((rankCache i id t.cache i).priority.toNat : ℤ), { t with
      cache := rankCache i id t.cache
      txp := fun j => if (rankCache i id t.cache j).isValid ∧ j ≠ i
        then (rankCache i id t.cache j).priority else t.txp j }) :=
  if_neg (by rw [h]; exact Bool.false_ne_true)

/-- `can_sendto` where the entry of the buffer is empty. -/
theorem sendto_of_not_valid (hreq : t.requested i = false) (hentry : (t.cache i).isValid = false) :
    ∃ t', t.sendto i frame = (0, t') ∧ t'.queue = t.queue ∧
      (∀ j, t'.requested j = (t.requested j || decide (j = i))) ∧
      t'.cache = rankCache i frame.ident t.cache ∧
      ∀ j, j = i ∨ (t'.cache j).isValid = true → t'.txp j = (t'.cache j).priority := by
  rw [sendto_of_not_requested hreq, rank_of_not_valid hentry]
  generalize rankCache i frame.ident t.cache = ranked
  refine ⟨_, rfl, rfl, fun j => rfl, rfl, fun j hj => ?_⟩
  show (Function.update _ i (BitVec.ofInt 2 _) : Fin 3 → BitVec 2) j = (ranked j).priority
  by_cases hji : j = i
  · subst hji
    rw [Function.update_self, BitVec.ofInt_natCast, BitVec.ofNat_toNat, BitVec.setWidth_eq]
  · rw [Function.update_of_ne hji]
    exact if_pos ⟨hj.resolve_left hji, hji⟩

/-- Without frames to load the handler requests nothing. -/
theorem requested_irq_of_nil (h : t.queue = []) : t.irq.requested = t.requested := by
  have hkept : t.irq.queue = [] ∧ t.irq.requested = t.requested := by
    unfold irq
    refine serveAll_rec (P := fun t' => t'.queue = [] ∧ t'.requested = t.requested)
      (fun t' i ht' => ?_) ⟨h, rfl⟩
    rw [serve_of_nil ht'.1]
    exact ht'
  exact hkept.2

/-- The handler empties entries. -/
theorem cache_irq (j : Fin 3) : t.irq.cache j = t.cache j ∨ t.irq.cache j = .zero := by
  unfold irq
  refine serveAll_rec (P := fun t' => t'.cache j = t.cache j ∨ t'.cache j = .zero)
    (fun t' i ht' => ?_) (.inl rfl)
  rw [cache_serve, Function.update_apply]
  split
  · exact .inr rfl
  · exact ht'

end Transmitter

namespace Session

variable {s s' : Session} {a : TxAct} {ret n : ℤ} {frame : CanFrame}

/-- The operations of a client that does not use the queue. -/
def Direct (_ : Session) : TxAct → Prop
  | .setup _ _ | .send _ => False
  | .sendto _ _ | .abort _ | .complete _ | .irq _ => True

instance (s : Session) : (a : TxAct) → Decidable (s.Direct a)
  | .setup _ _ | .send _ => isFalse id
  | .sendto _ _ | .abort _ | .complete _ | .irq _ => isTrue trivial

/-- Such an operation, where an idle buffer that `can_sendto` takes has an empty entry, and every
pending buffer has an entry. -/
def Ranked (s : Session) : TxAct → Prop
  | .setup _ _ | .send _ => False
  | .sendto n _ => ∀ i : Fin 3, n = i → s.driver.transmitter.requested i = false →
      (s.driver.transmitter.cache i).isValid = false ∧ ∀ j,
        s.driver.transmitter.requested j = true → (s.driver.transmitter.cache j).isValid = true
  | .abort _ | .complete _ | .irq _ => True

instance (s : Session) : (a : TxAct) → Decidable (s.Ranked a)
  | .setup _ _ | .send _ => isFalse id
  | .sendto n _ => inferInstanceAs (Decidable (∀ i : Fin 3, n = i → _ = false → _ = false ∧ ∀ j : Fin 3,
      s.driver.transmitter.requested j = true → (s.driver.transmitter.cache j).isValid = true))
  | .abort _ | .complete _ | .irq _ => isTrue trivial

/-- The priorities of the pending buffers follow the identifiers. -/
def Ordered (s : Session) : Prop :=
  ∀ i j, s.driver.chip.requested i = true → s.driver.chip.requested j = true →
    (s.idents i < s.idents j → s.driver.chip.txp j < s.driver.chip.txp i) ∧
    (s.idents i = s.idents j → s.driver.chip.txp i = s.driver.chip.txp j)

/-- The entries of pending buffers are those of their frames. -/
structure Entered (s : Session) : Prop where
  queue : s.driver.transmitter.queue = []
  entry : ∀ i, s.driver.transmitter.requested i = true →
    (s.driver.transmitter.cache i).isValid = true →
      (s.driver.transmitter.cache i).canid = s.idents i

theorem Fresh.entered (h : s.Fresh) : s.Entered :=
  ⟨h.queue, fun i hreq => absurd ((h.requested i).symm.trans hreq) Bool.false_ne_true⟩

/-- After `can_sendto` the entries and the priorities of the pending buffers are those of their
frames. -/
theorem ranked_sendto {i : Fin 3} {d : Driver} (h : s.Entered)
    (hreq : s.driver.transmitter.requested i = false) (hranked : s.Ranked (.sendto i frame))
    (htx : (ret, d.transmitter) = s.driver.transmitter.sendto i frame) :
    ret = 0 ∧ d.transmitter.queue = [] ∧
      d.transmitter.cache = rankCache i frame.ident s.driver.transmitter.cache ∧
      ∀ j, d.transmitter.requested j = true →
        (d.transmitter.cache j).canid = s.keepIdent i frame ret j ∧
          d.transmitter.txp j = (d.transmitter.cache j).priority := by
  obtain ⟨hentry, hpending⟩ := hranked i rfl hreq
  obtain ⟨t', hsendto, hqueue, hrequested, hcache, htxp⟩ :=
    @Transmitter.sendto_of_not_valid _ i frame hreq hentry
  rw [hsendto] at htx
  obtain ⟨rfl, rfl⟩ := Prod.mk.inj htx
  refine ⟨rfl, hqueue.trans h.queue, hcache, fun j hj => ?_⟩
  have hcanid := @canid_rankCache s.driver.transmitter.cache i frame.ident j
  rw [← hcache] at hcanid
  rw [hrequested, Bool.or_eq_true, decide_eq_true_eq] at hj
  rw [keepIdent, if_pos rfl, hcanid]
  by_cases hji : j = i
  · subst hji
    exact ⟨by rw [if_pos rfl, if_pos rfl], htxp j (.inl rfl)⟩
  · have hreqj := hj.resolve_right hji
    have hvalid := hpending j hreqj
    have hkept : (i : ℤ) ≠ j := fun hc => hji (Fin.ext (by omega))
    rw [if_neg hji] at hcanid
    rw [if_neg hji, if_neg hkept]
    refine ⟨h.entry j hreqj hvalid, htxp j (.inr ?_)⟩
    rw [CanidCache.isValid, hcanid]
    exact hvalid

theorem entered_moves (h : s.Entered) (hmoves : s.Moves a ret s') (hranked : s.Ranked a) :
    s'.Entered := by
  cases hmoves with
  | setup => exact hranked.elim
  | send => exact hranked.elim
  | @sendto i frame ret d htx =>
      cases hreq : s.driver.transmitter.requested i with
      | true =>
          rw [Transmitter.sendto_of_requested hreq] at htx
          obtain ⟨rfl, hd⟩ := Prod.mk.inj htx
          exact ⟨hd ▸ h.queue, hd ▸ h.entry⟩
      | false =>
          obtain ⟨-, hqueue, -, hpending⟩ := ranked_sendto h hreq hranked htx
          exact ⟨hqueue, fun j hj _ => (hpending j hj).1⟩
  | nowhere hn => exact h
  | @abort n d htx =>
      refine ⟨htx ▸ h.queue, fun j hj => ?_⟩
      rw [htx] at hj ⊢
      exact h.entry j (Bool.and_eq_true_iff.1 hj).1
  | @complete i d hreq htx =>
      refine ⟨htx ▸ h.queue, fun j hj => ?_⟩
      rw [htx] at hj ⊢
      exact h.entry j (Bool.and_eq_true_iff.1 hj).1
  | @irq frame d htx =>
      refine ⟨htx ▸ Transmitter.queue_irq h.queue, fun j hj hvalid => ?_⟩
      rw [htx] at hj hvalid ⊢
      rw [Transmitter.requested_irq_of_nil h.queue] at hj
      rcases @Transmitter.cache_irq s.driver.transmitter j with hsame | hzero
      · rw [hsame] at hvalid ⊢
        exact h.entry j hj hvalid
      · rw [hzero] at hvalid
        cases hvalid

/-- In runs of ranked operations with lengths that fit, after every `can_sendto` that takes a buffer
the priorities follow the identifiers, and `get_frame_priority` had one for the frame. -/
theorem priorities_follow_identifiers (h : Transition.Reachable (StepIf (Fitting Ranked)) SetUp s)
    (hstep : s.StepIf (Fitting Ranked) (.sendto n frame) 0 s') :
    s'.Ordered ∧ ∀ prio d, (getFramePriority n frame.ident).run exec s.driver = some (prio, d) →
      prio ≠ -1 := by
  obtain ⟨hapart, hentered⟩ := invariant (I := Entered) (fun _ => Fresh.entered)
    (fun _ _ _ _ hI hmoves hp => entered_moves hI hmoves hp.1) h
  obtain ⟨hmoves, -⟩ := moves_of_step hapart hstep.1
  generalize hret : (0 : ℤ) = ret at hmoves
  cases hmoves with
  | nowhere hn => cases hret
  | @sendto i frame ret d htx =>
      subst hret
      have hreq : s.driver.transmitter.requested i = false := by
        by_contra hbusy
        rw [Transmitter.sendto_of_requested (Bool.not_eq_false _ ▸ hbusy)] at htx
        cases congrArg Prod.fst htx
      obtain ⟨-, -, hcache, hpending⟩ := ranked_sendto hentered hreq hstep.2.1 htx
      have habove : ∀ j, d.transmitter.requested j = true →
          d.transmitter.txp j = above (fun k => (d.transmitter.cache k).canid) j := by
        intro j hj
        rw [(hpending j hj).2, hcache, priority_rankCache]
      refine ⟨fun j k hj hk => ?_, fun prio d₁ hrun hprio => ?_⟩
      · show (s.keepIdent i frame 0 j < s.keepIdent i frame 0 k →
            d.transmitter.txp k < d.transmitter.txp j) ∧
          (s.keepIdent i frame 0 j = s.keepIdent i frame 0 k →
            d.transmitter.txp j = d.transmitter.txp k)
        rw [habove j hj, habove k hk, ← (hpending j hj).1, ← (hpending k hk).1]
        exact above_order (fun k => (d.transmitter.cache k).canid) j k
      · have hrank := transmitter_getFramePriority hrun
        rw [Transmitter.rank_of_not_valid (hstep.2.1 i rfl hreq).1] at hrank
        have hfst := congrArg Prod.fst hrank
        dsimp only at hfst
        omega

/-- Two pending frames. -/
theorem after_two_frames : (after (Fitting Ranked) [.sendto 0 (.bare 5)]).map (fun s =>
    (decide (s.Ranked (.sendto 1 (.bare 3))), (s.perform (.sendto 1 (.bare 3))).map Prod.fst)) =
    some (true, some 0) := rfl

theorem priorities_follow_identifiers_two : ∃ s s',
    after (Fitting Ranked) [.sendto 0 (.bare 5)] = some s ∧ s.Step (.sendto 1 (.bare 3)) 0 s' ∧
      s'.Ordered := by
  obtain ⟨s, hafter, hs⟩ := Option.map_eq_some_iff.1 after_two_frames
  obtain ⟨hranked, hperform⟩ := Prod.mk.inj hs
  obtain ⟨⟨ret, s'⟩, hstep, hret⟩ := Option.map_eq_some_iff.1 hperform
  obtain rfl : ret = 0 := hret
  exact ⟨s, s', hafter, hstep, (priorities_follow_identifiers (reachable_of_after hafter)
    ⟨hstep, of_decide_eq_true hranked, by decide⟩).1⟩

/-- A buffer is used again after an abort, and another one after that. -/
theorem after_abort_and_sendto :
    (after Direct [.sendto 0 (.bare 5), .abort 0, .sendto 0 (.bare 7)]).map (fun s =>
      (s.perform (.sendto 1 (.bare 6))).map fun rs => (rs.1, rs.2.driver.chip.requested 0,
        rs.2.driver.chip.requested 1, rs.2.idents 0, rs.2.idents 1, rs.2.driver.chip.txp 0,
        rs.2.driver.chip.txp 1)) = some (some (0, true, true, 7, 6, 1, 0)) := rfl

/-- The frame with the smaller identifier has the lower priority. -/
theorem not_ordered_after_abort :
    ¬ ∀ s n frame s', Transition.Reachable (StepIf Direct) SetUp s → s.Step (.sendto n frame) 0 s' →
      s'.Ordered ∧ ∀ prio d, (getFramePriority n frame.ident).run exec s.driver = some (prio, d) →
        prio ≠ -1 := by
  intro h
  obtain ⟨s, hafter, hs⟩ := Option.map_eq_some_iff.1 after_abort_and_sendto
  obtain ⟨⟨ret, s'⟩, hstep, hview⟩ := Option.map_eq_some_iff.1 hs
  simp only [Prod.mk.injEq] at hview
  obtain ⟨rfl, hreq₀, hreq₁, hid₀, hid₁, htxp₀, htxp₁⟩ := hview
  have hordered := (h s 1 (.bare 6) s' (reachable_of_after hafter) hstep).1
  have hlt := (hordered 1 0 hreq₁ hreq₀).1
  rw [hid₀, hid₁, htxp₀, htxp₁] at hlt
  exact absurd (hlt (by decide)) (by decide)

end Session

end Can
end Tk1Bsp
