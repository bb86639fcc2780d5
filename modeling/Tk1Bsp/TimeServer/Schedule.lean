import Tk1Bsp.TimeServer.Timeliness

/-!
# Timers do not drift

A timer that a client has armed is signalled for each deadline that has passed and for no other:
after `k` interrupts, a timer with a period of `ns` nanoseconds has been signalled
`k * 1000000 / ns` times, for the deadlines one, two, three periods after it was armed, and each
signal has come in the first interrupt at or after its deadline (`Server.signals_on_schedule`).
Nothing in this depends on the other timers, on what other clients do, or on how many deadlines fall
between two interrupts.
-/

namespace Tk1Bsp
namespace TimeServer

open Transition

variable {nc nt : ℕ}

/-! ## One timer -/

/-- What a timer is set to after `n` signals; the first argument says if it is a one-shot timer. -/
inductive Entry.After : Bool → Entry → ℕ → Prop
  | armed (d : BitVec 64) : After true (oneShot d) 0
  | spent : After true off 1
  | periodic (d p : BitVec 64) (n : ℕ) : After false (periodic d p) n

theorem Entry.After.fire {once : Bool} {e : Entry} {n : ℕ} {now : BitVec 64}
    (h : e.After once n) (hdue : e.Due now) : e.fire.After once (n + 1) := by
  cases h with
  | armed d => exact .spent
  | spent => exact hdue.elim
  | periodic d p n => exact .periodic _ _ _

/-- The signals of a timer that was armed at time `t₀` for `ns` nanoseconds, at time `now`: they are
on schedule, and each has come at most one timer period after its deadline, as the next one still
can. -/
structure Ledger (once : Bool) (t₀ ns : ℕ) (now : BitVec 64) (e : Entry)
    (sigs : List (Signal nc nt)) : Prop where
  onSchedule : OnSchedule (t₀ + ns) ns e sigs
  after : e.After once sigs.length
  sent : ∀ sig ∈ sigs, sig.currentTime ≤ now
  prompt : ∀ sig ∈ sigs, sig.currentTime.toNat ≤ sig.timeoutTime.toNat + 1000000
  ahead : e ≠ .off → now.toNat ≤ e.deadline.toNat + 1000000

namespace Ledger

variable {once : Bool} {t₀ ns : ℕ} {now : BitVec 64} {e : Entry} {t : TimerRef nc nt}
  {sigs : List (Signal nc nt)}

theorem fire (h : Ledger once t₀ ns now e sigs) (hdue : e.Due now) (hfits : e.Fits now) :
    Ledger once t₀ ns now e.fire (sigs ++ [signalOf now (t, e)]) := by
  obtain ⟨hoff, -⟩ := OnSchedule.deadline_le hdue
  refine ⟨h.onSchedule.fire hdue hfits, ?_, fun sig hsig => ?_, fun sig hsig => ?_, fun hon => ?_⟩
  · rw [List.length_append, List.length_singleton]
    exact h.after.fire hdue
  · obtain hsig | hsig := List.mem_append.1 hsig
    · exact h.sent sig hsig
    · obtain rfl := List.mem_singleton.1 hsig
      exact BitVec.le_refl now
  · obtain hsig | hsig := List.mem_append.1 hsig
    · exact h.prompt sig hsig
    · obtain rfl := List.mem_singleton.1 hsig
      exact h.ahead hoff
  · cases e with
    | off => exact absurd rfl hoff
    | oneShot d => exact absurd rfl hon
    | periodic d p =>
        have hahead := h.ahead hoff
        have hsum : (d + p).toNat = d.toNat + p.toNat := hfits.no_wrap hdue
        change now.toNat ≤ (d + p).toNat + 1000000
        change now.toNat ≤ d.toNat + 1000000 at hahead
        omega

/-- All iterations of an interrupt's loop. -/
theorem fires {x y : TimerRef nc nt → Entry} {log : List (TimerRef nc nt × Entry)}
    (hlog : Fires (Entry.Due now) Entry.fire x log y) (h : Ledger once t₀ ns now (x t) sigs)
    (hfits : (x t).Fits now) :
    Ledger once t₀ ns now (y t)
      (sigs ++ (log.map (signalOf now)).filter (fun sig => sig.timer = t)) := by
  induction hlog generalizing sigs with
  | nil x => simpa using h
  | @cons x y i log hdue _ ih =>
      by_cases hi : i = t
      · subst hi
        have hstep := h.fire (t := i) hdue hfits
        have hfits' := hfits.fire hdue
        have hrest := ih (by rwa [Function.update_self]) (by rwa [Function.update_self])
        simpa [signalOf, Signal.timer] using hrest
      · have hrest := ih (by rwa [Function.update_of_ne (Ne.symm hi)])
          (by rwa [Function.update_of_ne (Ne.symm hi)])
        have hne : ¬ (signalOf now (i, x i)).timer = t := hi
        rwa [List.map_cons, List.filter_cons_of_neg (by simpa using hne)]

end Ledger

/-! ## Runs -/

/-- The timer `k` interrupts after it was armed at time `t₀`. -/
structure Kept (once : Bool) (t₀ ns k : ℕ) (t : TimerRef nc nt) (b : Bank nc nt)
    (sigs : List (Signal nc nt)) : Prop where
  ledger : Ledger once t₀ ns b.now (b.entry t) sigs
  now : b.now.toNat = t₀ + k * 1000000
  idle : k ≠ 0 → ¬ (b.entry t).Due b.now
  fresh : k = 0 → sigs = []

namespace Kept

variable {once : Bool} {t₀ ns k : ℕ} {t : TimerRef nc nt} {b b' : Bank nc nt}
  {sigs : List (Signal nc nt)}

/-- Between two interrupts no deadline has been passed. -/
theorem now_le (h : Kept once t₀ ns k t b sigs) (hon : b.entry t ≠ .off) :
    b.now.toNat ≤ (b.entry t).deadline.toNat := by
  by_cases hk : k = 0
  · have hnext := h.ledger.onSchedule.next hon
    have hnow := h.now
    rw [hk] at hnow
    omega
  · have hidle := h.idle hk
    cases hentry : b.entry t with
    | off => exact absurd hentry hon
    | oneShot d | periodic d p =>
        rw [hentry] at hidle
        exact Nat.le_of_lt (BitVec.not_le.1 hidle)

/-- There is room for the deadlines of the next interrupt. -/
theorem fits (h : Kept once t₀ ns k t b sigs) (hroom : b.nextNow.toNat + ns < 2 ^ 64) :
    (b.entry t).Fits b.nextNow := by
  cases hentry : b.entry t with
  | off | oneShot d => trivial
  | periodic d p =>
      refine Entry.fits_of_add_lt ?_
      rwa [h.ledger.onSchedule.period d p hentry]

theorem call (h : Kept once t₀ ns k t b sigs) {cid : Fin nc} {op : Call}
    (hsets : ¬ Event.Sets t (.call cid op)) :
    Kept once t₀ ns k t (b.serve cid op).2 sigs where
  ledger := by
    rw [Bank.entry_serve_of_not_sets hsets, Bank.serve_now]
    exact h.ledger
  now := by
    rw [Bank.serve_now]
    exact h.now
  idle := by
    rw [Bank.entry_serve_of_not_sets hsets, Bank.serve_now]
    exact h.idle
  fresh := h.fresh

theorem tick (h : Kept once t₀ ns k t b sigs) {log : List (TimerRef nc nt × Entry)}
    (htick : b.Tick log b') (hroom : t₀ + (k + 1) * 1000000 + ns < 2 ^ 64) :
    Kept once t₀ ns (k + 1) t b'
      (sigs ++ (log.map (signalOf b.nextNow)).filter (fun sig => sig.timer = t)) := by
  have hnext : b.nextNow.toNat = t₀ + (k + 1) * 1000000 := by
    have := h.now
    rw [Bank.toNat_nextNow]
    omega
  have hnow : b'.now = b.nextNow := htick.drained.now_eq
  have hentered : Ledger once t₀ ns b.nextNow (b.entry t) sigs :=
    { h.ledger with
      sent := fun sig hsig => by
        have hsent : sig.currentTime.toNat ≤ b.now.toNat := h.ledger.sent sig hsig
        have := h.now
        rw [BitVec.le_def]
        omega
      ahead := fun hon => by
        have := h.now_le hon
        have := h.now
        omega }
  refine ⟨?_, hnow ▸ hnext, fun _ => hnow ▸ htick.idle t, nofun⟩
  rw [hnow]
  exact hentered.fires htick.drained.fires (h.fits (by omega))

theorem step (h : Kept once t₀ ns k t b sigs) {e : Event nc} {o : Output nc nt}
    (hs : b.Step e o b') (hsets : ¬ e.Sets t)
    (hroom : t₀ + (k + [e].count .tick) * 1000000 + ns < 2 ^ 64) :
    Kept once t₀ ns (k + [e].count .tick) t b' (sigs ++ o.signalsOf t) := by
  cases e with
  | call cid op =>
      obtain ⟨rfl, rfl⟩ := Prod.ext_iff.1 (show (o, b') = b.serve cid op from hs)
      rw [Bank.signalsOf_serve, List.append_nil]
      exact h.call hsets
  | tick =>
      obtain ⟨log, htick, rfl⟩ := hs
      exact h.tick htick hroom

theorem run {es : List (Event nc)} {os : List (Output nc nt)} (hrun : Run Bank.Step b es os b')
    (hsets : ∀ e ∈ es, ¬ e.Sets t)
    (hroom : t₀ + (k + es.count .tick) * 1000000 + ns < 2 ^ 64) (h : Kept once t₀ ns k t b sigs) :
    Kept once t₀ ns (k + es.count .tick) t b' (sigs ++ os.flatMap (Output.signalsOf t)) := by
  induction hrun generalizing k sigs with
  | nil b => simpa using h
  | @cons b b₁ b₂ e o es os hs _ ih =>
      obtain ⟨he, hes⟩ := List.forall_mem_cons.1 hsets
      have hcount : ([e] ++ es).count .tick = [e].count .tick + es.count .tick :=
        List.count_append
      rw [List.singleton_append] at hcount
      rw [hcount, ← Nat.add_assoc] at hroom
      have hle := Nat.le_add_right (k + [e].count .tick) (es.count .tick)
      have hmul := Nat.mul_le_mul_right 1000000 hle
      have hroom₁ : t₀ + (k + [e].count .tick) * 1000000 + ns < 2 ^ 64 :=
        (Nat.add_le_add_right (Nat.add_le_add_left hmul t₀) ns).trans_lt hroom
      have hrest := ih hes hroom (h.step hs he hroom₁)
      rwa [Nat.add_assoc, ← hcount, List.append_assoc] at hrest

/-- The deadlines so far are those that have passed. -/
theorem le_now (h : Kept once t₀ ns k t b sigs) : sigs.length * ns ≤ k * 1000000 := by
  cases hlen : sigs.length with
  | zero => omega
  | succ n =>
      have hn : n < sigs.length := by omega
      have hdeadline := h.ledger.onSchedule.timeoutTime_getElem hn
      have hpunctual : sigs[n].timeoutTime.toNat ≤ sigs[n].currentTime.toNat :=
        h.ledger.onSchedule.punctual _ (List.getElem_mem hn)
      have hsent : sigs[n].currentTime.toNat ≤ b.now.toNat :=
        h.ledger.sent _ (List.getElem_mem hn)
      have hnow := h.now
      rw [Nat.add_mul, Nat.one_mul]
      omega

/-- The next deadline has not passed. -/
theorem lt_next (h : Kept once t₀ ns k t b sigs) (hk : k ≠ 0) (hon : b.entry t ≠ .off) :
    k * 1000000 < (sigs.length + 1) * ns := by
  have hnext := h.ledger.onSchedule.next hon
  have hnow := h.now
  have hidle := h.idle hk
  have hlt : b.now.toNat < (b.entry t).deadline.toNat := by
    cases hentry : b.entry t with
    | off => exact absurd hentry hon
    | oneShot d | periodic d p =>
        rw [hentry] at hidle
        exact BitVec.not_le.1 hidle
  rw [Nat.add_mul, Nat.one_mul]
  omega

end Kept

/-- The deadlines that have passed `k` interrupts after the call was made at time `t₀`. -/
def Call.deadlines (t₀ k : ℕ) : Call → List ℕ
  | .periodic _ ns => (List.range (k * 1000000 / ns.toNat)).map fun i => t₀ + (i + 1) * ns.toNat
  | .oneshotRelative _ ns => if k ≠ 0 ∧ ns.toNat ≤ k * 1000000 then [t₀ + ns.toNat] else []
  | _ => []

theorem Kept.deadlines_periodic {t₀ k : ℕ} {ns : BitVec 64} {t : TimerRef nc nt} {b : Bank nc nt}
    {sigs : List (Signal nc nt)} (h : Kept false t₀ ns.toNat k t b sigs) (tid : ℤ) :
    sigs.map (fun sig => sig.timeoutTime.toNat) = (Call.periodic tid ns).deadlines t₀ k := by
  have hlen : sigs.length = k * 1000000 / ns.toNat := by
    by_cases hk : k = 0
    · rw [h.fresh hk, hk]
      simp
    · have hon : b.entry t ≠ .off := by
        intro hoff
        have hafter := h.ledger.after
        rw [hoff] at hafter
        cases hafter
      exact (Nat.div_eq_of_lt_le h.le_now (h.lt_next hk hon)).symm
  rw [h.ledger.onSchedule.deadlines, hlen, Call.deadlines]
  refine List.map_congr_left fun i _ => ?_
  rw [Nat.add_mul, Nat.one_mul]
  omega

theorem Kept.deadlines_oneshotRelative {t₀ k : ℕ} {ns : BitVec 64} {t : TimerRef nc nt}
    {b : Bank nc nt} {sigs : List (Signal nc nt)} (h : Kept true t₀ ns.toNat k t b sigs) (tid : ℤ) :
    sigs.map (fun sig => sig.timeoutTime.toNat) = (Call.oneshotRelative tid ns).deadlines t₀ k := by
  rw [h.ledger.onSchedule.deadlines, Call.deadlines]
  have hle := h.le_now
  cases hentry : b.entry t with
  | oneShot d =>
      have hafter := h.ledger.after
      rw [hentry] at hafter
      obtain hlen : sigs.length = 0 := by
        generalize sigs.length = n at hafter
        cases hafter
        rfl
      rw [hlen, if_neg]
      · rfl
      · rintro ⟨hk, hns⟩
        have hlt := h.lt_next hk (by rw [hentry]; exact nofun)
        rw [hlen] at hlt
        omega
  | off =>
      have hafter := h.ledger.after
      rw [hentry] at hafter
      obtain hlen : sigs.length = 1 := by
        generalize sigs.length = n at hafter
        cases hafter
        rfl
      have hk : k ≠ 0 := by
        intro hk
        rw [h.fresh hk] at hlen
        cases hlen
      rw [hlen] at hle ⊢
      rw [if_pos ⟨hk, by omega⟩]
      simp
  | periodic d p =>
      have hafter := h.ledger.after
      rw [hentry] at hafter
      cases hafter

namespace Server

variable {s s₁ s₂ : Server nc nt} {cid : Fin nc} {tid : ℤ} {j : Fin nt} {ns : BitVec 64}
  {op : Call} {o : Output nc nt} {es : List (Event nc)} {os : List (Output nc nt)}

/-- Right after the call. -/
theorem kept_of_arms {once : Bool} (hop : op.Arms tid ns) (hj : timerIndex nt tid = some j)
    (hroom : s.theCurrentTime.toNat + ns.toNat < 2 ^ 64)
    (hs : s.bank.Step (.call cid op) o s₁.bank)
    (hafter : (s₁.bank.entry (cid, j)).After once 0) :
    Kept once s.theCurrentTime.toNat ns.toNat 0 (cid, j) s₁.bank [] := by
  have hnow : s₁.bank.now = s.theCurrentTime := by
    rw [hs.now_eq, if_neg nofun]
    rfl
  have hschedule := onSchedule_of_arms hop hj hroom hs
  refine ⟨⟨hschedule, hafter, nofun, nofun, fun hon => ?_⟩, ?_, fun hk => absurd rfl hk,
    fun _ => rfl⟩
  · have hnext := hschedule.next hon
    rw [hnow, hnext]
    omega
  · rw [hnow]
    omega

/-- Let a client arm a timer for `ns` nanoseconds, and let any run follow that does not set this
timer again, as long as the clock does not come near its end.  Then the timer has been signalled
for exactly the deadlines that have passed, in their order, and for each of them in the first
interrupt at or after it. -/
theorem signals_on_schedule (h : s.Reachable) (hop : op.Arms tid ns)
    (hj : timerIndex nt tid = some j) (harm : Step s (.call cid op) o s₁)
    (hrun : Run Step s₁ es os s₂) (hsets : ∀ e ∈ es, ¬ e.Sets (cid, j))
    (hroom : s.theCurrentTime.toNat + es.count .tick * 1000000 + ns.toNat < 2 ^ 64) :
    let sigs := os.flatMap (Output.signalsOf (cid, j))
    sigs.map (fun sig => sig.timeoutTime.toNat) =
        op.deadlines s.theCurrentTime.toNat (es.count .tick) ∧
      ∀ sig ∈ sigs, sig.timeoutTime ≤ sig.currentTime ∧
        sig.currentTime.toNat ≤ sig.timeoutTime.toNat + 1000000 := by
  obtain ⟨hrest₁, hbank⟩ := (Reachable.atRest h).step harm
  obtain ⟨-, hbanks⟩ := hrest₁.run hrun
  have hb : s₁.bank = (s.bank.serve cid op).2 := congrArg Prod.snd hbank
  have hkept : ∀ once, (s₁.bank.entry (cid, j)).After once 0 →
      Kept once s.theCurrentTime.toNat ns.toNat (es.count .tick) (cid, j) s₂.bank
        (os.flatMap (Output.signalsOf (cid, j))) := by
    intro once hafter
    have harmed := kept_of_arms hop hj (by omega) hbank hafter
    have hkept := harmed.run hbanks hsets (by rwa [Nat.zero_add])
    rwa [Nat.zero_add, List.nil_append] at hkept
  obtain rfl | rfl := hop
  · have honce := hkept true (by rw [hb]; simp [Bank.serve, Bank.write, hj, Entry.After.armed])
    exact ⟨honce.deadlines_oneshotRelative tid,
      fun sig hsig => ⟨honce.ledger.onSchedule.punctual sig hsig, honce.ledger.prompt sig hsig⟩⟩
  · have hmany := hkept false (by rw [hb]; simp [Bank.serve, Bank.write, hj, Entry.After.periodic])
    exact ⟨hmany.deadlines_periodic tid,
      fun sig hsig => ⟨hmany.ledger.onSchedule.punctual sig hsig, hmany.ledger.prompt sig hsig⟩⟩

/-- A period of 400 microseconds comes five times in two milliseconds. -/
theorem signals_on_schedule_400_us :
    ∃ (s s₁ s₂ : Server 1 1) (os : List (Output 1 1)),
      Step s (.call 0 (.periodic 0 400000)) (.ret 0) s₁ ∧ Run Step s₁ [.tick, .tick] os s₂ ∧
        (os.flatMap (Output.signalsOf (0, 0))).map (fun sig => sig.timeoutTime.toNat) =
          [400000, 800000, 1200000, 1600000, 2000000] := by
  have hinit : (postInit (fun k => k) 0 : Server 1 1).Initial := ⟨fun k => k, 0, rfl⟩
  obtain ⟨s₁, hs, hrest, hbank⟩ := (atRest_of_initial hinit).exists_call 0 (.periodic 0 400000)
  rw [bank_of_initial hinit] at hbank
  have hmoving : s₁.bank.Moving := by
    intro t d p hentry
    rw [hbank, Subsingleton.elim t (0, 0)] at hentry
    cases hentry
    decide
  obtain ⟨os, s₂, hrun⟩ : ∃ os s₂, Run Step s₁ [.tick, .tick] os s₂ := by
    refine hrest.exists_run hmoving ?_ ?_
    · exact List.forall_mem_cons.2 ⟨trivial, List.forall_mem_singleton.2 trivial⟩
    · rw [hbank]
      decide
  refine ⟨_, s₁, s₂, os, hs, hrun, ?_⟩
  exact (signals_on_schedule (.of_init hinit) (.inr rfl) (show timerIndex 1 0 = some 0 from rfl) hs
    hrun (List.forall_mem_cons.2 ⟨id, List.forall_mem_singleton.2 id⟩) (by decide)).1.trans
      (by decide)

end Server

end TimeServer
end Tk1Bsp
