import Mathlib.Data.Finset.Card
import Tk1Bsp.TimeServer.Termination

/-!
# The time server as independent alarms

`Spec` is what the time server is for: each timer of each client is an `Alarm`, set to a time or
to a series of times in ℕ; a call overwrites one alarm; an interrupt advances the clock by one
timer period, and every alarm goes off as often as it fell due, at once and independently of all
others; and for each client the set of timers that have gone off is kept until the client asks.

`Spec.Fits` are the runs in which the 64-bit clock can stand for the natural numbers: every period
is nonzero and no sum the server forms reaches `2 ^ 64`.  In these the linked list is a correct
implementation (`Server.refines_spec`).
-/

namespace Tk1Bsp
namespace TimeServer

open Transition

variable {nc nt : ℕ}

/-! ## Alarms -/

/-- What one timer is set to, in unbounded time. -/
inductive Alarm
  | off
  | oneShot (d : ℕ)
  | periodic (d p : ℕ)
  deriving DecidableEq

namespace Alarm

/-- How often the alarm goes off in an interrupt at time `now`. -/
def expiries (now : ℕ) : Alarm → ℕ
  | off => 0
  | oneShot d => if d ≤ now then 1 else 0
  | periodic d p => if d ≤ now then (now - d) / p + 1 else 0

/-- What an interrupt at time `now` leaves the alarm set to. -/
def after (now : ℕ) : Alarm → Alarm
  | off => off
  | oneShot d => if d ≤ now then off else oneShot d
  | periodic d p => periodic (d + expiries now (periodic d p) * p) p

/-- The deadlines of an alarm are 64-bit numbers and its period is not zero. -/
def Fits : Alarm → Prop
  | off => True
  | oneShot d => d < 2 ^ 64
  | periodic d p => d < 2 ^ 64 ∧ p ≠ 0

instance : DecidablePred Fits
  | off => inferInstanceAs (Decidable True)
  | oneShot d => inferInstanceAs (Decidable (d < 2 ^ 64))
  | periodic d p => inferInstanceAs (Decidable (d < 2 ^ 64 ∧ p ≠ 0))

end Alarm

/-! ## The abstract time server -/

/-- All alarms, the timers that have gone off since their client last asked, and the time. -/
structure Spec (nc nt : ℕ) where
  alarm : TimerRef nc nt → Alarm
  expired : Fin nc → Finset (Fin nt)
  now : ℕ

/-- What the abstract server lets the outside see of an event. -/
inductive Answer (nc : ℕ)
  | ret (r : ℤ)
  | mask (m : BitVec 32)
  | ns (t : ℕ)
  | emits (n : Fin nc → ℕ)

/-- The bit mask of a set of timers. -/
def maskOf (ts : Finset (Fin nt)) : BitVec 32 :=
  ((List.finRange nt).filter (fun j => j ∈ ts)).foldl (fun m (j : Fin nt) => m ||| bit j) 0

namespace Spec

/-- A call that sets a timer overwrites its alarm, unless the timer number is out of range. -/
def write (a : Spec nc nt) (cid : Fin nc) (tid : ℤ) (x : Alarm) : Answer nc × Spec nc nt :=
  match timerIndex nt tid with
  | none => (.ret (-1), a)
  | some j => (.ret 0, { a with alarm := Function.update a.alarm (cid, j) x })

/-- The client calls. -/
def serve (a : Spec nc nt) (cid : Fin nc) : Call → Answer nc × Spec nc nt
  | .oneshotRelative tid ns => a.write cid tid (.oneShot (a.now + ns.toNat))
  | .oneshotAbsolute tid ns => a.write cid tid (.oneShot ns.toNat)
  | .periodic tid ns => a.write cid tid (.periodic (a.now + ns.toNat) ns.toNat)
  | .stop tid => a.write cid tid .off
  | .completed =>
      (.mask (maskOf (a.expired cid)), { a with expired := Function.update a.expired cid ∅ })
  | .time => (.ns a.now, a)
  | .tscFrequency => (.ns timerFrequency, a)

/-- The time the next interrupt works at. -/
def nextNow (a : Spec nc nt) : ℕ := a.now + nsInS / timerFrequency

/-- The interrupt. -/
def tick (a : Spec nc nt) : Answer nc × Spec nc nt :=
  (.emits fun c => ∑ j, (a.alarm (c, j)).expiries a.nextNow,
    { alarm := fun t => (a.alarm t).after a.nextNow
      expired := fun c => a.expired c ∪
        Finset.univ.filter fun j => 0 < (a.alarm (c, j)).expiries a.nextNow
      now := a.nextNow })

/-- One event of the abstract server. -/
def next (a : Spec nc nt) : Event nc → Answer nc × Spec nc nt
  | .call cid op => a.serve cid op
  | .tick => a.tick

/-- Nothing is set, nothing has expired, and it is time zero. -/
def initial (nc nt : ℕ) : Spec nc nt := ⟨fun _ => .off, fun _ => ∅, 0⟩

/-- Every armed period is nonzero, and neither a deadline nor the time reaches `2 ^ 64`. -/
def InRange (a : Spec nc nt) : Prop := a.now < 2 ^ 64 ∧ ∀ t, (a.alarm t).Fits

instance : DecidablePred (InRange : Spec nc nt → Prop) := fun a =>
  inferInstanceAs (Decidable (a.now < 2 ^ 64 ∧ ∀ t, (a.alarm t).Fits))

/-- The event stays in that range. -/
def Fits (a : Spec nc nt) (e : Event nc) : Prop := (a.next e).2.InRange

instance (a : Spec nc nt) (e : Event nc) : Decidable (a.Fits e) :=
  inferInstanceAs (Decidable (a.next e).2.InRange)

end Spec

/-! ## Masks -/

theorem getLsbD_bit (n i : ℕ) : (bit n).getLsbD i = decide (n < 32 ∧ i = n) := by
  have htwoPow : (bit n).getLsbD i = (decide (n < 32) && decide (n = i)) :=
    BitVec.getLsbD_twoPow n i
  rw [htwoPow, Bool.decide_and, show decide (n = i) = decide (i = n) from
    decide_eq_decide.2 eq_comm]

theorem getLsbD_maskOf (ts : Finset (Fin nt)) (i : ℕ) :
    (maskOf ts).getLsbD i = decide (∃ j ∈ ts, (bit j).getLsbD i) := by
  unfold maskOf
  rw [getLsbD_foldl_or (fun j : Fin nt => bit j), Bool.eq_iff_iff]
  simp

/-- As long as there are at most 32 timers per client, a mask tells exactly which have expired. -/
theorem getLsbD_maskOf_of_le (hnt : nt ≤ 32) (ts : Finset (Fin nt)) (j : Fin nt) :
    (maskOf ts).getLsbD j = decide (j ∈ ts) := by
  rw [getLsbD_maskOf]
  refine decide_eq_decide.2 ⟨?_, fun hj => ⟨j, hj, ?_⟩⟩
  · rintro ⟨k, hk, hbit⟩
    simp only [getLsbD_bit, decide_eq_true_eq] at hbit
    rwa [Fin.ext hbit.2]
  · simp [getLsbD_bit]
    omega

/-! ## Entries as alarms -/

namespace Entry

/-- The alarm an entry stands for, its deadline read as a number. -/
def toAlarm : Entry → Alarm
  | off => .off
  | oneShot d => .oneShot d.toNat
  | periodic d p => .periodic d.toNat p.toNat

theorem due_iff_expiries (now : BitVec 64) (e : Entry) :
    e.Due now ↔ 0 < e.toAlarm.expiries now.toNat := by
  cases e with
  | off => simp [Due, toAlarm, Alarm.expiries]
  | oneShot d =>
      by_cases h : d.toNat ≤ now.toNat <;> simp [Due, toAlarm, Alarm.expiries, BitVec.le_def, h]
  | periodic d p =>
      by_cases h : d.toNat ≤ now.toNat <;> simp [Due, toAlarm, Alarm.expiries, BitVec.le_def, h]

/-- Serving a due entry whose alarm fits uses up one of its expiries. -/
theorem toAlarm_fire {now : BitVec 64} {e : Entry} (hdue : e.Due now)
    (hfits : (e.toAlarm.after now.toNat).Fits) :
    e.toAlarm.expiries now.toNat = e.fire.toAlarm.expiries now.toNat + 1 ∧
      e.toAlarm.after now.toNat = e.fire.toAlarm.after now.toNat := by
  cases e with
  | off => exact hdue.elim
  | oneShot d =>
      have hd : d.toNat ≤ now.toNat := hdue
      simp [toAlarm, fire, Alarm.expiries, Alarm.after, hd]
  | periodic d p =>
      have hd : d.toNat ≤ now.toNat := hdue
      simp only [toAlarm, Alarm.after, Alarm.expiries, Alarm.Fits, if_pos hd] at hfits
      obtain ⟨hlt, hp⟩ := hfits
      have hsum : (d + p).toNat = d.toNat + p.toNat := by
        rw [Nat.add_mul, Nat.one_mul] at hlt
        rw [BitVec.toNat_add]
        exact Nat.mod_eq_of_lt (by omega)
      simp only [toAlarm, fire, Alarm.expiries, Alarm.after, hsum, if_pos hd]
      by_cases hd' : d.toNat + p.toNat ≤ now.toNat
      · have hq : (now.toNat - d.toNat) / p.toNat =
            (now.toNat - (d.toNat + p.toNat)) / p.toNat + 1 := by
          rw [← Nat.add_div_right _ (Nat.pos_of_ne_zero hp)]
          congr 1
          omega
        rw [if_pos hd', hq]
        refine ⟨rfl, ?_⟩
        rw [Nat.add_mul _ 1, Nat.one_mul, Nat.add_comm _ p.toNat, ← Nat.add_assoc]
      · have hq : (now.toNat - d.toNat) / p.toNat = 0 := Nat.div_eq_of_lt (by omega)
        rw [if_neg hd', hq]
        simp

theorem after_of_not_due {now : BitVec 64} {e : Entry} (h : ¬ e.Due now) :
    e.toAlarm.expiries now.toNat = 0 ∧ e.toAlarm.after now.toNat = e.toAlarm := by
  have hzero : e.toAlarm.expiries now.toNat = 0 := by
    rw [due_iff_expiries] at h
    omega
  refine ⟨hzero, ?_⟩
  cases e with
  | off => rfl
  | oneShot d => exact if_neg h
  | periodic d p =>
      have hexp : (Alarm.periodic d.toNat p.toNat).expiries now.toNat = 0 := hzero
      simp [toAlarm, Alarm.after, hexp]

/-- An entry is served as often as its alarm goes off, and ends up as the alarm does. -/
theorem iterate_fire_toAlarm {now : BitVec 64} (n : ℕ) :
    ∀ {e : Entry}, (∀ k < n, Due now (fire^[k] e)) → ¬ Due now (fire^[n] e) →
      (e.toAlarm.after now.toNat).Fits →
        n = e.toAlarm.expiries now.toNat ∧ (fire^[n] e).toAlarm = e.toAlarm.after now.toNat := by
  induction n with
  | zero =>
      intro e _ hidle _
      obtain ⟨hzero, hafter⟩ := after_of_not_due hidle
      exact ⟨hzero.symm, hafter.symm⟩
  | succ n ih =>
      intro e hdue hidle hfits
      have hdue₀ : e.Due now := hdue 0 (Nat.succ_pos n)
      obtain ⟨hexp, hafter⟩ := toAlarm_fire hdue₀ hfits
      rw [hafter] at hfits
      obtain ⟨hn, hlast⟩ := ih (fun k hk => hdue (k + 1) (by omega)) hidle hfits
      exact ⟨by omega, by rw [hafter, ← hlast]; rfl⟩

/-- An entry whose alarm fits is idle after finitely many signals. -/
theorem escapes_of_fits {now : BitVec 64} (m : ℕ) :
    ∀ {e : Entry}, e.toAlarm.expiries now.toNat = m → (e.toAlarm.after now.toNat).Fits →
      e.Escapes now := by
  induction m with
  | zero =>
      intro e hm _
      refine ⟨0, fun hdue => ?_⟩
      have := (due_iff_expiries now e).1 hdue
      omega
  | succ m ih =>
      intro e hm hfits
      have hdue : e.Due now := (due_iff_expiries now e).2 (by omega)
      obtain ⟨hexp, hafter⟩ := toAlarm_fire hdue hfits
      obtain ⟨k, hk⟩ := ih (e := e.fire) (by omega) (hafter ▸ hfits)
      exact ⟨k + 1, hk⟩

end Entry

/-! ## The bank implements the specification -/

/-- The output of the server that corresponds to an answer of the specification. -/
def Output.answer : Output nc nt → Answer nc
  | .ret r => .ret r
  | .mask m => .mask m
  | .ns t => .ns t.toNat
  | o@(.signals _) => .emits fun c => o.emits c

/-- A bank represents a state of the specification that is in range. -/
structure Bank.Represents (b : Bank nc nt) (a : Spec nc nt) : Prop where
  alarm : ∀ t, (b.entry t).toAlarm = a.alarm t
  completed : ∀ c, b.completed c = maskOf (a.expired c)
  now : b.now.toNat = a.now
  inRange : a.InRange

namespace Bank.Represents

variable {b b' : Bank nc nt} {a : Spec nc nt}

theorem initial :
    Represents (⟨fun _ => .off, fun _ => 0, 0⟩ : Bank nc nt) (Spec.initial nc nt) where
  alarm _ := rfl
  completed _ := by simp [Spec.initial, maskOf]
  now := rfl
  inRange := ⟨by simp [Spec.initial], fun _ => trivial⟩

/-- Setting an alarm that fits. -/
theorem write (h : b.Represents a) (cid : Fin nc) (tid : ℤ) {e : Entry} {x : Alarm}
    (hfits : (a.write cid tid x).2.InRange) (hx : x.Fits → e.toAlarm = x) :
    (b.write cid tid e).1.answer = (a.write cid tid x).1 ∧
      (b.write cid tid e).2.Represents (a.write cid tid x).2 := by
  unfold Bank.write Spec.write at *
  cases hj : timerIndex nt tid with
  | none => exact ⟨rfl, h⟩
  | some j =>
      simp only [hj] at hfits
      refine ⟨rfl, fun t => ?_, h.completed, h.now, hfits⟩
      by_cases ht : t = (cid, j)
      · subst ht
        have hfits' := hfits.2 (cid, j)
        simp only [Function.update_self] at hfits' ⊢
        exact hx hfits'
      · simp only [Function.update_of_ne ht]
        exact h.alarm t

theorem toNat_add (h : b.Represents a) {ns : BitVec 64} (hlt : a.now + ns.toNat < 2 ^ 64) :
    (b.now + ns).toNat = a.now + ns.toNat := by
  rw [BitVec.toNat_add, h.now, Nat.mod_eq_of_lt hlt]

theorem serve (h : b.Represents a) (cid : Fin nc) (op : Call)
    (hfits : (a.serve cid op).2.InRange) :
    (b.serve cid op).1.answer = (a.serve cid op).1 ∧
      (b.serve cid op).2.Represents (a.serve cid op).2 := by
  cases op with
  | oneshotRelative tid ns =>
      refine h.write cid tid hfits fun hx => ?_
      rw [Entry.toAlarm, h.toNat_add hx]
  | oneshotAbsolute tid ns => exact h.write cid tid hfits fun _ => rfl
  | periodic tid ns =>
      refine h.write cid tid hfits fun hx => ?_
      rw [Entry.toAlarm, h.toNat_add hx.1]
  | stop tid => exact h.write cid tid hfits fun _ => rfl
  | completed =>
      refine ⟨congrArg Answer.mask (h.completed cid), h.alarm, fun c => ?_, h.now, hfits⟩
      by_cases hc : c = cid
      · subst hc
        simp [Bank.serve, Spec.serve, maskOf]
      · simp [Bank.serve, Spec.serve, Function.update_of_ne hc, h.completed c]
  | time => exact ⟨congrArg Answer.ns h.now, h⟩
  | tscFrequency => exact ⟨rfl, h⟩

theorem nextNow (h : b.Represents a) (hlt : a.nextNow < 2 ^ 64) : b.nextNow.toNat = a.nextNow := by
  rw [Bank.toNat_nextNow, h.now]
  exact Nat.mod_eq_of_lt hlt

theorem tick (h : b.Represents a) (hfits : a.tick.2.InRange)
    {log : List (TimerRef nc nt × Entry)} (hb : b.Tick log b') :
    (Output.signals (log.map (signalOf b.nextNow))).answer = a.tick.1 ∧
      b'.Represents a.tick.2 := by
  have hnow := h.nextNow hfits.1
  have hat : ∀ t, (Fires.served t log).length = (a.alarm t).expiries a.nextNow ∧
      (b'.entry t).toAlarm = (a.alarm t).after a.nextNow := by
    intro t
    obtain ⟨n, hserved, hlast, hdue⟩ := hb.drained.fires.at_component t
    have hidle := hb.idle t
    have hafter : ((b.entry t).toAlarm.after b.nextNow.toNat).Fits := by
      rw [h.alarm t, hnow]
      exact hfits.2 t
    rw [hlast] at hidle
    obtain ⟨hn, hlast'⟩ := Entry.iterate_fire_toAlarm n hdue hidle hafter
    rw [hserved, hlast, List.length_iterate, ← h.alarm t, ← hnow]
    exact ⟨hn, hlast'⟩
  refine ⟨congrArg Answer.emits (funext fun c => ?_), fun t => (hat t).2, fun c => ?_, ?_, hfits⟩
  · rw [emits_signals]
    exact Finset.sum_congr rfl fun j _ => (hat (c, j)).1
  · refine BitVec.eq_of_getLsbD_eq fun i _ => ?_
    rw [hb.drained.getLsbD_completed, getLsbD_maskOf, h.completed c, getLsbD_maskOf]
    simp only [← List.length_pos_iff, (hat _).1, Spec.tick]
    rw [Bool.eq_iff_iff]
    simp [or_and_right, exists_or]
  · rw [hb.drained.now_eq]
    exact hnow

/-- Every outcome of an event that stays in range is the one specified. -/
theorem step (h : b.Represents a) {e : Event nc} {o : Output nc nt} (hfits : a.Fits e)
    (hb : b.Step e o b') : o.answer = (a.next e).1 ∧ b'.Represents (a.next e).2 := by
  cases e with
  | call cid op =>
      obtain ⟨rfl, rfl⟩ := Prod.ext_iff.1 (show (o, b') = b.serve cid op from hb)
      exact h.serve cid op hfits
  | tick =>
      obtain ⟨log, htick, rfl⟩ := hb
      exact h.tick hfits htick

/-- An interrupt that stays in range ends. -/
theorem drains (h : b.Represents a) (hfits : a.tick.2.InRange) : b.Drains := by
  rw [Bank.drains_iff]
  intro t
  refine Entry.escapes_of_fits _ rfl ?_
  rw [h.alarm t, h.nextNow hfits.1]
  exact hfits.2 t

end Bank.Represents

namespace Server

variable {s s' : Server nc nt}

/-- The refinement.  Let the events keep the specification in range, and a client have at most 32
timers.  Then the server handles them all, and in whatever run it does, it returns what the
specification returns and signals each client as often in each interrupt; and a mask that
`_completed` returns tells exactly which timers have gone off since the last one. -/
theorem refines_spec (hnt : nt ≤ 32) (hs : s.Initial) {es : List (Event nc)}
    (hfits : AllOk Spec.next Spec.Fits (Spec.initial nc nt) es) :
    (∃ os s', Run Step s es os s') ∧
      (∀ os s', Run Step s es os s' →
        os.map Output.answer = answers Spec.next (Spec.initial nc nt) es) ∧
      ∀ (ts : Finset (Fin nt)) (j : Fin nt), (maskOf ts).getLsbD j = decide (j ∈ ts) := by
  let R : Server nc nt → Spec nc nt → Prop := fun s a => s.AtRest ∧ s.bank.Represents a
  have hinit : R s (Spec.initial nc nt) := by
    refine ⟨atRest_of_initial hs, ?_⟩
    rw [bank_of_initial hs]
    exact .initial
  have hall : ∀ s a e o s', R s a → Spec.Fits a e → Step s e o s' →
      o.answer = (Spec.next a e).1 ∧ R s' (Spec.next a e).2 := by
    intro s a e o s' hR hok hstep
    obtain ⟨hrest, hbank⟩ := hR.1.step hstep
    obtain ⟨hans, hrep⟩ := hR.2.step hok hbank
    exact ⟨hans, hrest, hrep⟩
  have hmatch : ∀ s a e, R s a → Spec.Fits a e →
      ∃ o s', Step s e o s' ∧ o.answer = (Spec.next a e).1 ∧ R s' (Spec.next a e).2 := by
    intro s a e hR hok
    have hexists : ∃ o s', Step s e o s' := by
      cases e with
      | call cid op =>
          obtain ⟨s', hs, -⟩ := hR.1.exists_call cid op
          exact ⟨_, s', hs⟩
      | tick =>
          obtain ⟨o, s', hs, -⟩ := hR.1.exists_tick (hR.2.drains hok)
          exact ⟨o, s', hs⟩
    obtain ⟨o, s', hstep⟩ := hexists
    exact ⟨o, s', hstep, hall s a e o s' hR hok hstep⟩
  obtain ⟨os, s', hrun, -⟩ := Run.simulates hmatch hinit hfits
  exact ⟨⟨os, s', hrun⟩, fun os s' hrun => hrun.answers_eq hall hinit hfits,
    getLsbD_maskOf_of_le hnt⟩

/-- A timer with a period of 400 microseconds goes off twice in the first interrupt and three times
in the second, after which its client finds it expired once. -/
theorem refines_spec_400_us :
    ∃ (s s' : Server 1 1) (os : List (Output 1 1)),
      Run Step s [.call 0 (.periodic 0 400000), .tick, .tick, .call 0 .completed] os s' ∧
        os.map Output.answer =
          [.ret 0, .emits fun _ => 2, .emits fun _ => 3, .mask (maskOf {(0 : Fin 1)})] := by
  have hinit : (postInit (fun k => k) 0 : Server 1 1).Initial := ⟨fun k => k, 0, rfl⟩
  have hfits : AllOk Spec.next Spec.Fits (Spec.initial 1 1)
      [.call 0 (.periodic 0 400000), .tick, .tick, .call 0 .completed] :=
    ⟨by decide, by decide, by decide, by decide, trivial⟩
  obtain ⟨⟨os, s', hrun⟩, hans, -⟩ := refines_spec (by decide) hinit hfits
  refine ⟨_, s', os, hrun, (hans os s' hrun).trans ?_⟩
  have hone : ∀ c : Fin 1, c = 0 := fun c => Subsingleton.elim c 0
  simp only [answers, List.cons.injEq, and_true]
  refine ⟨rfl, congrArg Answer.emits (funext fun c => ?_),
    congrArg Answer.emits (funext fun c => ?_), congrArg (fun ts => Answer.mask (maskOf ts)) ?_⟩
  · rw [hone c]
    decide
  · rw [hone c]
    decide
  · decide

end Server

end TimeServer
end Tk1Bsp
