import Tk1Bsp.TimeServer.Invariant

/-!
# When the interrupt returns

The loop of `signal_clients` refills the list it drains: a periodic timer is put back one period
later, modulo `2 ^ 64`.  How often a timer is served before it leaves the due range depends on
that timer alone, so the loop ends exactly when the deadlines of every periodic timer eventually
pass the clock (`Server.AtRest.ends_iff`).

Modulo `2 ^ 64` they do so if the largest deadline they can ever take, `2 ^ 64 - g + d % g` with
`g` the greatest common divisor of the period and `2 ^ 64`, is past the clock (`Bank.Drains`).  A
period of zero never moves, and is not rejected by `_periodic`; below a clock of `2 ^ 63` it is
the only period that hangs the server (`Bank.drains_of_periods`).
-/

namespace Tk1Bsp
namespace TimeServer

open Transition

variable {nc nt : ℕ}

/-! ## Orbits of entries -/

namespace Entry

theorem iterate_fire_periodic (d p : BitVec 64) (k : ℕ) :
    fire^[k] (periodic d p) = periodic (d + BitVec.ofNat 64 k * p) p := by
  induction k with
  | zero => simp
  | succ k ih =>
      rw [Function.iterate_succ_apply', ih]
      simp only [fire, Entry.periodic.injEq, and_true]
      rw [BitVec.ofNat_add, BitVec.add_mul, BitVec.add_assoc]
      simp

theorem iterate_fire_off (k : ℕ) : fire^[k] off = off := Function.iterate_fixed rfl k

theorem iterate_fire_oneShot (d : BitVec 64) (k : ℕ) : fire^[k + 1] (oneShot d) = off :=
  iterate_fire_off k

/-- The deadline a periodic timer has after `k` signals, as a number. -/
theorem toNat_deadline (d p : BitVec 64) (k : ℕ) :
    (d + BitVec.ofNat 64 k * p).toNat = (d.toNat + k * p.toNat) % 2 ^ 64 := by
  simp [BitVec.toNat_add, BitVec.toNat_mul]

/-- An entry is eventually idle at time `now`. -/
def Escapes (now : BitVec 64) (e : Entry) : Prop := ∃ k, ¬ Due now (fire^[k] e)

theorem escapes_periodic_iff (now d p : BitVec 64) :
    (periodic d p).Escapes now ↔
      now.toNat < 2 ^ 64 - Nat.gcd p.toNat (2 ^ 64) + d.toNat % Nat.gcd p.toNat (2 ^ 64) := by
  rw [← Wrap.exists_gt_iff (by norm_num) d.toNat p.toNat now.toNat]
  unfold Escapes
  refine exists_congr fun k => ?_
  rw [iterate_fire_periodic, ← toNat_deadline]
  exact BitVec.not_le

theorem escapes_of_not_periodic {e : Entry} (h : ∀ d p, e ≠ periodic d p) (now : BitVec 64) :
    e.Escapes now := by
  cases e with
  | off => exact ⟨0, fun hdue => hdue⟩
  | oneShot d => exact ⟨1, fun hdue => hdue⟩
  | periodic d p => exact absurd rfl (h d p)

end Entry

/-! ## The loop -/

/-- Every armed periodic timer can leave the range of the next interrupt: the largest deadline
in its residue class is past the clock. -/
def Bank.Drains (b : Bank nc nt) : Prop :=
  ∀ t d p, b.entry t = .periodic d p →
    b.nextNow.toNat < 2 ^ 64 - Nat.gcd p.toNat (2 ^ 64) + d.toNat % Nat.gcd p.toNat (2 ^ 64)

theorem Bank.drains_iff {b : Bank nc nt} :
    b.Drains ↔ ∀ t, (b.entry t).Escapes b.nextNow := by
  constructor
  · intro h t
    by_cases hp : ∃ d p, b.entry t = .periodic d p
    · obtain ⟨d, p, he⟩ := hp
      rw [he, Entry.escapes_periodic_iff]
      exact h t d p he
    · exact Entry.escapes_of_not_periodic (fun d p he => hp ⟨d, p, he⟩) _
  · intro h t d p he
    rw [← Entry.escapes_periodic_iff, ← he]
    exact h t

/-- As long as the clock is below `2 ^ 63`, no period but zero hangs the loop. -/
theorem Bank.drains_of_periods {b : Bank nc nt} (hnow : b.nextNow.toNat < 2 ^ 63)
    (hp : ∀ t d p, b.entry t = .periodic d p → p ≠ 0) : b.Drains := by
  intro t d p he
  have hpos : 0 < p.toNat := by
    have := hp t d p he
    rw [ne_eq, ← BitVec.toNat_inj] at this
    exact Nat.pos_of_ne_zero this
  have hlt : Nat.gcd p.toNat (2 ^ 64) < 2 ^ 64 :=
    lt_of_le_of_lt (Nat.gcd_le_left _ hpos) p.isLt
  -- a proper divisor of a power of two is at most half of it
  obtain ⟨c, hc⟩ := Nat.gcd_dvd_right p.toNat (2 ^ 64)
  have hc2 : 2 ≤ c := by
    rcases c with _ | _ | c
    · simp at hc
    · omega
    · omega
  have := Nat.mul_le_mul_left (Nat.gcd p.toNat (2 ^ 64)) hc2
  omega

/-! ## Along a run -/

/-- An event that does not give a timer the period zero. -/
def Event.Moving : Event nc → Prop
  | .call _ (.periodic _ ns) => ns ≠ 0
  | _ => True

namespace Bank

variable {b b' : Bank nc nt}

theorem toNat_nextNow : b.nextNow.toNat = (b.now.toNat + 1000000) % 2 ^ 64 := by
  rw [nextNow, BitVec.toNat_add, timerPeriod_toNat]

theorem write_now (b : Bank nc nt) (cid : Fin nc) (tid : ℤ) (e : Entry) :
    (b.write cid tid e).2.now = b.now := by
  unfold write
  cases timerIndex nt tid <;> rfl

/-- A client call does not touch the clock. -/
theorem serve_now (b : Bank nc nt) (cid : Fin nc) (op : Call) :
    (b.serve cid op).2.now = b.now := by
  cases op with
  | oneshotRelative tid ns => exact write_now ..
  | oneshotAbsolute tid ns => exact write_now ..
  | periodic tid ns => exact write_now ..
  | stop tid => exact write_now ..
  | completed => rfl
  | time => rfl
  | tscFrequency => rfl

theorem Step.now_eq {e : Event nc} {o : Output nc nt} (h : b.Step e o b') :
    b'.now = if e = .tick then b.nextNow else b.now := by
  cases e with
  | call cid op =>
      have hb : b' = (b.serve cid op).2 := congrArg Prod.snd h
      rw [hb, serve_now]
      simp
  | tick =>
      obtain ⟨log, htick, -⟩ := h
      simpa using htick.drained.now_eq

/-- The clock counts the interrupts. -/
theorem toNat_now_of_run {es : List (Event nc)} {os : List (Output nc nt)}
    (hrun : Run Step b es os b') :
    b'.now.toNat = (b.now.toNat + es.count .tick * 1000000) % 2 ^ 64 := by
  induction hrun with
  | nil b => rw [List.count_nil, Nat.zero_mul, Nat.add_zero, Nat.mod_eq_of_lt b.now.isLt]
  | @cons b b₁ b₂ e o es os hs _ ih =>
      rw [ih, hs.now_eq]
      by_cases he : e = .tick
      · rw [if_pos he, he, List.count_cons_self, toNat_nextNow]
        omega
      · rw [if_neg he, List.count_cons_of_ne he]

/-- No armed timer has the period zero. -/
def Moving (b : Bank nc nt) : Prop := ∀ t d p, b.entry t = .periodic d p → p ≠ 0

theorem Moving.write (h : b.Moving) (cid : Fin nc) (tid : ℤ) {e : Entry}
    (he : ∀ d p, e = .periodic d p → p ≠ 0) : (b.write cid tid e).2.Moving := by
  unfold Bank.write
  cases timerIndex nt tid with
  | none => exact h
  | some j =>
      intro t d p ht
      by_cases htj : t = (cid, j)
      · subst htj
        exact he d p (by simpa using ht)
      · refine h t d p ?_
        simpa [Function.update_of_ne htj] using ht

theorem Moving.step (h : b.Moving) {e : Event nc} {o : Output nc nt} (he : e.Moving)
    (hs : b.Step e o b') : b'.Moving := by
  cases e with
  | call cid op =>
      have hb : b' = (b.serve cid op).2 := congrArg Prod.snd hs
      rw [hb]
      cases op with
      | oneshotRelative tid ns => exact h.write cid tid nofun
      | oneshotAbsolute tid ns => exact h.write cid tid nofun
      | periodic tid ns =>
          refine h.write cid tid fun d p heq => ?_
          obtain ⟨-, rfl⟩ := Entry.periodic.inj heq
          exact he
      | stop tid => exact h.write cid tid nofun
      | completed => exact h
      | time => exact h
      | tscFrequency => exact h
  | tick =>
      obtain ⟨log, htick, -⟩ := hs
      intro t d p ht
      obtain ⟨n, -, hn, -⟩ := htick.drained.fires.at_component t
      -- serving a timer does not change its period
      cases hb : b.entry t with
      | off =>
          rw [hn, hb, Entry.iterate_fire_off] at ht
          cases ht
      | oneShot d₀ =>
          rw [hn, hb] at ht
          cases n with
          | zero => cases ht
          | succ n =>
              rw [Entry.iterate_fire_oneShot] at ht
              cases ht
      | periodic d₀ p₀ =>
          rw [hn, hb, Entry.iterate_fire_periodic] at ht
          obtain ⟨-, rfl⟩ := Entry.periodic.inj ht
          exact h t d₀ p₀ hb

theorem Moving.run (h : b.Moving) {es : List (Event nc)} {os : List (Output nc nt)}
    (hes : ∀ e ∈ es, e.Moving) (hrun : Run Step b es os b') : b'.Moving := by
  induction hrun with
  | nil => exact h
  | cons hs _ ih =>
      rw [List.forall_mem_cons] at hes
      exact ih (h.step hes.1 hs) hes.2

end Bank

namespace Server

variable {s : Server nc nt}

/-- The loop of the next interrupt ends, within some number of iterations, exactly when every
armed periodic timer can leave its range. -/
theorem AtRest.ends_iff (h : s.AtRest) :
    (∃ fuel r, s.irqHandle fuel = .ok r) ↔ s.bank.Drains := by
  rw [Bank.drains_iff]
  constructor
  · rintro ⟨fuel, r, hr⟩ t
    rcases h.irqHandle fuel with ⟨log, s', -, -, htick⟩ | ⟨_, _, herr, -⟩
    · obtain ⟨n, -, hn, -⟩ := htick.drained.fires.at_component t
      have hidle := htick.idle t
      rw [hn] at hidle
      exact ⟨n, hidle⟩
    · rw [herr] at hr
      cases hr
  · intro hesc
    choose bound hbound using hesc
    let fuel := ∑ t, bound t + 1
    rcases h.irqHandle fuel with ⟨log, s', hok, -⟩ | ⟨log, b, -, hdr, hlen⟩
    · exact ⟨fuel, _, hok⟩
    · have hle := hdr.fires.length_le hbound
      omega

/-- A server at rest whose loop ends takes the interrupt. -/
theorem AtRest.exists_tick (h : s.AtRest) (hdrains : s.bank.Drains) :
    ∃ o s', Step s .tick o s' ∧ s'.AtRest ∧ s.bank.Step .tick o s'.bank := by
  obtain ⟨fuel, ⟨sigs, s'⟩, hr⟩ := h.ends_iff.2 hdrains
  have hs : Step s .tick (.signals sigs) s' := by
    refine ⟨fuel, ?_⟩
    simp [exec, hr, bind, Except.bind, pure, Except.pure]
  exact ⟨_, s', hs, h.step hs⟩

/-- Without zero periods, and below a clock of `2 ^ 63`, every list of events can happen. -/
theorem AtRest.exists_run :
    ∀ {es : List (Event nc)} {s : Server nc nt}, s.AtRest → s.bank.Moving →
      (∀ e ∈ es, e.Moving) → s.bank.now.toNat + 1000000 * es.count .tick < 2 ^ 63 →
        ∃ os s', Run Step s es os s'
  | [], s, _, _, _, _ => ⟨[], s, .nil s⟩
  | e :: es, s, h, hm, hes, hclock => by
      rw [List.forall_mem_cons] at hes
      have hnext : ∃ o s', Step s e o s' ∧ s'.AtRest ∧ s.bank.Step e o s'.bank := by
        cases e with
        | call cid op =>
            obtain ⟨s', hs, -⟩ := h.exists_call cid op
            exact ⟨_, s', hs, h.step hs⟩
        | tick =>
            refine h.exists_tick (Bank.drains_of_periods ?_ hm)
            have hle := Nat.mod_le (s.bank.now.toNat + 1000000) (2 ^ 64)
            rw [List.count_cons_self] at hclock
            rw [Bank.toNat_nextNow]
            omega
      obtain ⟨o, s₁, hs, hrest, hstep⟩ := hnext
      have hnow : s₁.bank.now.toNat + 1000000 * es.count .tick < 2 ^ 63 := by
        rw [hstep.now_eq]
        by_cases he : e = .tick
        · have hle := Nat.mod_le (s.bank.now.toNat + 1000000) (2 ^ 64)
          rw [he, List.count_cons_self] at hclock
          rw [if_pos he, Bank.toNat_nextNow]
          omega
        · rw [List.count_cons_of_ne he] at hclock
          rwa [if_neg he]
      obtain ⟨os, s', hrun⟩ := AtRest.exists_run hrest (hm.step hes.1 hstep) hes.2 hnow
      exact ⟨o :: os, s', .cons hs hrun⟩

/-- When interrupt handling terminates.  In a reachable state the next interrupt ends exactly
when the armed periodic timers can leave its range.  That is so in every run in which no timer
is given the period zero, until the clock reaches `2 ^ 63` nanoseconds. -/
theorem irqHandle_ends_iff_drains :
    (∀ s : Server nc nt, s.Reachable →
      ((∃ fuel r, s.irqHandle fuel = .ok r) ↔ s.bank.Drains)) ∧
    ∀ (s₀ s : Server nc nt) (es : List (Event nc)) (os : List (Output nc nt)), s₀.Initial →
      Run Step s₀ es os s → (∀ e ∈ es, e.Moving) → 1000000 * (es.count .tick + 1) < 2 ^ 63 →
        ∃ fuel r, s.irqHandle fuel = .ok r := by
  refine ⟨fun s h => (Reachable.atRest h).ends_iff, fun s₀ s es os h₀ hrun hes hclock => ?_⟩
  obtain ⟨hrest, hbank⟩ := (atRest_of_initial h₀).run hrun
  rw [hrest.ends_iff]
  rw [bank_of_initial h₀] at hbank
  have hnow : s.bank.now.toNat = es.count .tick * 1000000 := by
    have hlt : es.count .tick * 1000000 < 2 ^ 64 := by omega
    have hcount := Bank.toNat_now_of_run hbank
    simp only [BitVec.ofNat_eq_ofNat, BitVec.toNat_ofNat, Nat.zero_mod, Nat.zero_add] at hcount
    rw [hcount, Nat.mod_eq_of_lt hlt]
  refine Bank.drains_of_periods ?_ (Bank.Moving.run (fun _ _ _ h => by cases h) hes hbank)
  have hle := Nat.mod_le (es.count .tick * 1000000 + 1000000) (2 ^ 64)
  rw [Bank.toNat_nextNow, hnow]
  omega

/-- A period of five nanoseconds makes for an interrupt of 200000 signals, but it ends. -/
theorem irqHandle_ends_five_ns :
    ∃ s : Server 1 1, s.Reachable ∧ s.bank.entry (0, 0) = .periodic 5 5 ∧
      (∃ fuel r, s.irqHandle fuel = .ok r) ∧ s.bank.Drains := by
  have hinit : (postInit (fun k => k) 0 : Server 1 1).Initial := ⟨fun k => k, 0, rfl⟩
  obtain ⟨s, hs, -, hbank⟩ := (atRest_of_initial hinit).exists_call 0 (.periodic 0 5)
  rw [bank_of_initial hinit] at hbank
  have hreach := (Transition.Reachable.of_init hinit).next hs
  have hends := irqHandle_ends_iff_drains.2 _ _ _ _ hinit (.single hs)
    (by simp [Event.Moving]) (by simp)
  refine ⟨s, hreach, ?_, hends, (irqHandle_ends_iff_drains.1 _ hreach).1 hends⟩
  rw [hbank]
  rfl

/-- A client that arms a timer with the period zero right after initialisation hangs the server
in the next interrupt. -/
theorem irqHandle_never_ends_zero_period :
    ∃ s : Server 1 1, s.Reachable ∧ ∀ fuel r, s.irqHandle fuel ≠ .ok r := by
  have hinit : (postInit (fun k => k) 0 : Server 1 1).Initial := ⟨fun k => k, 0, rfl⟩
  obtain ⟨s, hs, hrest, hbank⟩ := (atRest_of_initial hinit).exists_call 0 (.periodic 0 0)
  rw [bank_of_initial hinit] at hbank
  refine ⟨s, (Transition.Reachable.of_init hinit).next hs, fun fuel r hr => ?_⟩
  have hentry : s.bank.entry (0, 0) = .periodic 0 0 := by
    rw [hbank]
    rfl
  have hdrains := hrest.ends_iff.1 ⟨fuel, r, hr⟩ (0, 0) 0 0 hentry
  simp at hdrains

end Server

end TimeServer
end Tk1Bsp
