import Tk1Bsp.TimeServer.Termination

/-!
# When a timer is signalled

A timer armed at time `t₀` for `ns` nanoseconds has its first deadline at `t₀ + ns`, and a
periodic one its next at `t₀ + 2 * ns`, and so on.  `OnSchedule` says that the signals a timer has
sent so far have exactly these deadlines, that none was sent before its deadline, and that the
timer is set to the next one.

Both sums are taken in `uint64_t` and neither is checked.  As long as they fit, no signal is early
(`Server.no_early_signal`).  When the first does not, the timer is armed in the past and the next
interrupt signals it (`Server.early_signal_of_overflow`).
-/

namespace Tk1Bsp
namespace TimeServer

open Transition

variable {nc nt : ℕ}

/-! ## The signals of one timer -/

/-- The timer a signal is for. -/
def Signal.timer (sig : Signal nc nt) : TimerRef nc nt := (sig.clientId, sig.id)

/-- The signals of one timer in an output. -/
def Output.signalsOf (t : TimerRef nc nt) : Output nc nt → List (Signal nc nt)
  | .signals sigs => sigs.filter (fun sig => sig.timer = t)
  | _ => []

/-- The timer number of a call that sets or stops a timer. -/
def Call.timer? : Call → Option ℤ
  | .oneshotRelative tid _ | .oneshotAbsolute tid _ | .periodic tid _ | .stop tid => some tid
  | _ => none

/-- The call arms timer `tid` to go off `ns` nanoseconds from now. -/
def Call.Arms (tid : ℤ) (ns : BitVec 64) (op : Call) : Prop :=
  op = .oneshotRelative tid ns ∨ op = .periodic tid ns

/-- The event sets or stops the timer. -/
def Event.Sets (t : TimerRef nc nt) : Event nc → Prop
  | .call cid op => ∃ tid ∈ op.timer?, ∃ j ∈ timerIndex nt tid, (cid, j) = t
  | .tick => False

/-! ## Deadlines that fit -/

namespace Entry

/-- The reinsertions of an interrupt at time `now` do not wrap: the first deadline past `now`
fits into 64 bits. -/
def Fits (now : BitVec 64) : Entry → Prop
  | periodic d p =>
      d ≤ now → d.toNat + ((now.toNat - d.toNat) / p.toNat + 1) * p.toNat < 2 ^ 64
  | _ => True

variable {now : BitVec 64} {e : Entry}

theorem Fits.no_wrap {d p : BitVec 64} (h : (periodic d p).Fits now) (hd : d ≤ now) :
    (d + p).toNat = d.toNat + p.toNat := by
  have hsum := h hd
  rw [Nat.add_mul, Nat.one_mul] at hsum
  rw [BitVec.toNat_add]
  exact Nat.mod_eq_of_lt (by omega)

/-- With room for one period past the clock, no reinsertion wraps. -/
theorem fits_of_add_lt {d p : BitVec 64} (h : now.toNat + p.toNat < 2 ^ 64) :
    (periodic d p).Fits now := by
  intro hd
  rw [BitVec.le_def] at hd
  have := Nat.div_mul_le_self (now.toNat - d.toNat) p.toNat
  rw [Nat.add_mul, Nat.one_mul]
  omega

theorem Fits.fire (h : e.Fits now) (hdue : e.Due now) : e.fire.Fits now := by
  cases e with
  | off => trivial
  | oneShot d => trivial
  | periodic d p =>
      intro hd'
      have hsum := h hdue
      rw [BitVec.le_def, h.no_wrap hdue] at hd'
      rw [h.no_wrap hdue]
      by_cases hp : p.toNat = 0
      · simpa [hp] using d.isLt
      · -- one period further the quotient is one less
        have hq : (now.toNat - d.toNat) / p.toNat =
            (now.toNat - (d.toNat + p.toNat)) / p.toNat + 1 := by
          rw [← Nat.add_div_right _ (Nat.pos_of_ne_zero hp)]
          congr 1
          omega
        rw [hq, Nat.add_mul, Nat.one_mul] at hsum
        omega

end Entry

/-! ## The schedule -/

/-- The signals sent by a timer are those due at `d`, `d + p`, `d + 2 * p` and so on, each sent
at or after its deadline; and the timer is off or set to the next one. -/
structure OnSchedule (d p : ℕ) (e : Entry) (sigs : List (Signal nc nt)) : Prop where
  deadlines : sigs.map (fun sig => sig.timeoutTime.toNat) =
    (List.range sigs.length).map (fun i => d + i * p)
  punctual : ∀ sig ∈ sigs, sig.timeoutTime ≤ sig.currentTime
  next : e ≠ .off → e.deadline.toNat = d + sigs.length * p
  period : ∀ d' p', e = .periodic d' p' → p'.toNat = p

namespace OnSchedule

variable {d p : ℕ} {e : Entry} {now : BitVec 64} {t : TimerRef nc nt}
  {sigs : List (Signal nc nt)}

/-- The deadline of each signal, by its place in the order of signals. -/
theorem timeoutTime_getElem (h : OnSchedule d p e sigs) {i : ℕ} (hi : i < sigs.length) :
    sigs[i].timeoutTime.toNat = d + i * p := by
  have := congrArg (fun l => l[i]?) h.deadlines
  simpa [hi] using this

/-- No signal comes before the first deadline. -/
theorem le_currentTime (h : OnSchedule d p e sigs) {sig : Signal nc nt} (hsig : sig ∈ sigs) :
    d ≤ sig.currentTime.toNat := by
  obtain ⟨i, hi, rfl⟩ := List.getElem_of_mem hsig
  have hd := h.timeoutTime_getElem hi
  have hle : sigs[i].timeoutTime.toNat ≤ sigs[i].currentTime.toNat := h.punctual _ hsig
  omega

/-- Successive deadlines are one period apart. -/
theorem isChain (h : OnSchedule d p e sigs) :
    sigs.IsChain (fun sig sig' => sig.timeoutTime.toNat + p ≤ sig'.timeoutTime.toNat) := by
  rw [List.isChain_iff_getElem]
  intro i hi
  rw [h.timeoutTime_getElem (by omega), h.timeoutTime_getElem hi, Nat.add_mul]
  omega

theorem deadline_le (hdue : e.Due now) : e ≠ .off ∧ e.deadline ≤ now := by
  cases e with
  | off => exact hdue.elim
  | oneShot d => exact ⟨nofun, hdue⟩
  | periodic d p => exact ⟨nofun, hdue⟩

/-- One signal, sent when it is due, keeps the timer on schedule. -/
theorem fire (h : OnSchedule d p e sigs) (hdue : e.Due now) (hfits : e.Fits now) :
    OnSchedule d p e.fire (sigs ++ [signalOf now (t, e)]) := by
  obtain ⟨hoff, hle⟩ := deadline_le hdue
  have hnext := h.next hoff
  refine ⟨?_, ?_, ?_, ?_⟩
  · rw [List.map_append, h.deadlines, List.length_append, List.length_singleton, List.range_succ,
      List.map_append]
    simp [signalOf, hnext]
  · intro sig hsig
    rcases List.mem_append.1 hsig with hsig | hsig
    · exact h.punctual sig hsig
    · obtain rfl := List.mem_singleton.1 hsig
      exact hle
  · intro hon
    cases e with
    | off => exact absurd rfl hoff
    | oneShot d' => exact absurd rfl hon
    | periodic d' p' =>
        have hd' : d'.toNat = d + sigs.length * p := hnext
        have hsum : (d' + p').toNat = d'.toNat + p'.toNat := hfits.no_wrap hdue
        show (d' + p').toNat = _
        rw [hsum, hd', h.period d' p' rfl, List.length_append, List.length_singleton, Nat.add_mul]
        omega
  · intro d' p' heq
    cases e with
    | off => cases heq
    | oneShot d₁ => cases heq
    | periodic d₁ p₁ =>
        obtain ⟨-, rfl⟩ := Entry.periodic.inj heq
        exact h.period d₁ p₁ rfl

/-- So do all the iterations of an interrupt's loop. -/
theorem fires {x y : TimerRef nc nt → Entry} {log : List (TimerRef nc nt × Entry)}
    (hlog : Fires (Entry.Due now) Entry.fire x log y) :
    ∀ {sigs : List (Signal nc nt)}, OnSchedule d p (x t) sigs → (x t).Fits now →
      OnSchedule d p (y t)
        (sigs ++ (log.map (signalOf now)).filter (fun sig => sig.timer = t)) := by
  induction hlog with
  | nil x =>
      intro sigs h _
      simpa using h
  | @cons x y i log hdue _ ih =>
      intro sigs h hfits
      by_cases hi : i = t
      · subst hi
        have hstep := h.fire (t := i) hdue hfits
        have := ih (by rwa [Function.update_self]) (by
          rw [Function.update_self]
          exact hfits.fire hdue)
        simpa [signalOf, Signal.timer] using this
      · have := @ih sigs (by rwa [Function.update_of_ne (Ne.symm hi)])
          (by rwa [Function.update_of_ne (Ne.symm hi)])
        have hne : ¬ (signalOf now (i, x i)).timer = t := hi
        rwa [List.map_cons, List.filter_cons_of_neg (by simpa using hne)]

end OnSchedule

/-! ## Banks -/

namespace Bank

variable {b b' : Bank nc nt} {t : TimerRef nc nt}

/-- The step neither sets the timer nor makes its deadline wrap. -/
def Steady (t : TimerRef nc nt) (b : Bank nc nt) : Event nc → Prop
  | .call cid op => ¬ Event.Sets t (.call cid op)
  | .tick => (b.entry t).Fits b.nextNow

/-- A call that does not set the timer leaves its entry alone. -/
theorem entry_serve_of_not_sets {cid : Fin nc} {op : Call}
    (h : ¬ Event.Sets t (.call cid op)) : (b.serve cid op).2.entry t = b.entry t := by
  have hwrite : ∀ tid e, tid ∈ op.timer? → (b.write cid tid e).2.entry t = b.entry t := by
    intro tid e htid
    unfold write
    cases hj : timerIndex nt tid with
    | none => rfl
    | some j => exact Function.update_of_ne (fun hc => h ⟨tid, htid, j, hj, hc.symm⟩) _ _
  cases op with
  | oneshotRelative tid ns => exact hwrite _ _ rfl
  | oneshotAbsolute tid ns => exact hwrite _ _ rfl
  | periodic tid ns => exact hwrite _ _ rfl
  | stop tid => exact hwrite _ _ rfl
  | completed => rfl
  | time => rfl
  | tscFrequency => rfl

/-- The output of a call has no signals. -/
theorem signalsOf_serve (cid : Fin nc) (op : Call) : (b.serve cid op).1.signalsOf t = [] := by
  have hwrite : ∀ tid e, (b.write cid tid e).1.signalsOf t = [] := by
    intro tid e
    unfold write
    cases timerIndex nt tid <;> rfl
  cases op with
  | oneshotRelative tid ns => exact hwrite _ _
  | oneshotAbsolute tid ns => exact hwrite _ _
  | periodic tid ns => exact hwrite _ _
  | stop tid => exact hwrite _ _
  | completed => rfl
  | time => rfl
  | tscFrequency => rfl

/-- A call that arms a timer sets its first deadline. -/
theorem entry_of_arms {cid : Fin nc} {tid : ℤ} {ns : BitVec 64} {op : Call} {j : Fin nt}
    {o : Output nc nt} (hop : op.Arms tid ns) (hj : timerIndex nt tid = some j)
    (hs : b.Step (.call cid op) o b') :
    b'.entry (cid, j) = .oneShot (b.now + ns) ∨ b'.entry (cid, j) = .periodic (b.now + ns) ns := by
  have hb : b' = (b.serve cid op).2 := congrArg Prod.snd hs
  rw [hb]
  rcases hop with rfl | rfl
  · left
    simp [serve, write, hj]
  · right
    simp [serve, write, hj]

/-- A steady step keeps the timer on schedule. -/
theorem Step.onSchedule {d p : ℕ} {e : Event nc} {o : Output nc nt} {sigs : List (Signal nc nt)}
    (hs : b.Step e o b') (hsteady : b.Steady t e) (h : OnSchedule d p (b.entry t) sigs) :
    OnSchedule d p (b'.entry t) (sigs ++ o.signalsOf t) := by
  cases e with
  | call cid op =>
      have hb : (o, b') = b.serve cid op := hs
      obtain ⟨rfl, rfl⟩ := Prod.ext_iff.1 hb
      rw [entry_serve_of_not_sets hsteady, signalsOf_serve, List.append_nil]
      exact h
  | tick =>
      obtain ⟨log, htick, rfl⟩ := hs
      exact OnSchedule.fires htick.drained.fires h hsteady

end Bank

namespace Server

variable {s s₁ s₂ s₃ s₄ : Server nc nt} {cid : Fin nc} {tid : ℤ} {j : Fin nt} {ns : BitVec 64}
  {op : Call} {o : Output nc nt} {es : List (Event nc)} {os : List (Output nc nt)}

/-- A step of the server that is steady for the timer. -/
def SteadyStep (t : TimerRef nc nt) (s : Server nc nt) (e : Event nc) (o : Output nc nt)
    (s' : Server nc nt) : Prop :=
  Step s e o s' ∧ s.bank.Steady t e

/-- A freshly armed timer is on schedule, provided its first deadline fits. -/
theorem onSchedule_of_arms (hop : op.Arms tid ns) (hj : timerIndex nt tid = some j)
    (hfit : s.theCurrentTime.toNat + ns.toNat < 2 ^ 64)
    (hs : s.bank.Step (.call cid op) o s₁.bank) :
    OnSchedule (s.theCurrentTime.toNat + ns.toNat) ns.toNat (s₁.bank.entry (cid, j))
      ([] : List (Signal nc nt)) := by
  have hsum : (s.theCurrentTime + ns).toNat = s.theCurrentTime.toNat + ns.toNat := by
    rw [BitVec.toNat_add, Nat.mod_eq_of_lt hfit]
  refine ⟨rfl, nofun, fun _ => ?_, fun d' p' heq => ?_⟩
  · rcases Bank.entry_of_arms hop hj hs with hentry | hentry
    · rw [hentry]
      show (s.theCurrentTime + ns).toNat = _
      simp [hsum]
    · rw [hentry]
      show (s.theCurrentTime + ns).toNat = _
      simp [hsum]
  · rcases Bank.entry_of_arms hop hj hs with hentry | hentry
    · rw [hentry] at heq
      cases heq
    · rw [hentry] at heq
      obtain ⟨-, rfl⟩ := Entry.periodic.inj heq
      rfl

/-- Steady runs keep a timer on schedule. -/
theorem onSchedule_of_run {t : TimerRef nc nt} {d p : ℕ} (hrest : s₁.AtRest)
    (hrun : Run (SteadyStep t) s₁ es os s₂) :
    ∀ {sigs : List (Signal nc nt)}, OnSchedule d p (s₁.bank.entry t) sigs →
      OnSchedule d p (s₂.bank.entry t) (sigs ++ os.flatMap (Output.signalsOf t)) := by
  induction hrun with
  | nil =>
      intro sigs h
      simpa using h
  | cons hs _ ih =>
      intro sigs h
      obtain ⟨hrest', hstep⟩ := hrest.step hs.1
      have := ih hrest' (hstep.onSchedule hs.2 h)
      rwa [List.append_assoc] at this

/-- No signal is early as long as the sums fit.  Let a timer be armed for `ns` nanoseconds in a
reachable state, the deadline not wrapping; let a run follow that does not set the timer again and
in which no interrupt makes its deadline wrap; and let the next interrupt go through any number of
iterations.  Then every signal of the timer comes at least `ns` nanoseconds after the timer was
armed, by the clock and by the number of interrupts since, and the deadlines of successive signals
are at least `ns` apart. -/
theorem no_early_signal (h : s.Reachable) (hop : op.Arms tid ns) (hj : timerIndex nt tid = some j)
    (hfit : s.theCurrentTime.toNat + ns.toNat < 2 ^ 64) (harm : Step s (.call cid op) o s₁)
    (hrun : Run (SteadyStep (cid, j)) s₁ es os s₂) (hsteady : s₂.bank.Steady (cid, j) .tick)
    (henter : s₂.irqEnter = .ok s₃) {n : ℕ} {sigs : List (Signal nc nt)}
    (hdrain : drain s₃.theCurrentTime n s₃ = .ok (sigs, s₄)) :
    let last := sigs.filter (fun sig => sig.timer = (cid, j))
    let all := os.flatMap (Output.signalsOf (cid, j)) ++ last
    (∀ sig ∈ all, s.theCurrentTime.toNat + ns.toNat ≤ sig.currentTime.toNat) ∧
      (∀ sig ∈ last, ns.toNat ≤ (es.count .tick + 1) * 1000000) ∧
      all.IsChain (fun sig sig' => sig.timeoutTime.toNat + ns.toNat ≤ sig'.timeoutTime.toNat) := by
  obtain ⟨hrest₁, hbank⟩ := (Reachable.atRest h).step harm
  have hrun' : Run Step s₁ es os s₂ := hrun.mono fun _ _ _ _ hs => hs.1
  obtain ⟨hrest₂, hbanks⟩ := hrest₁.run hrun'
  have hpre := onSchedule_of_run hrest₁ hrun (onSchedule_of_arms hop hj hfit hbank)
  -- the iterations of the last interrupt
  obtain rfl : s₂.entered = s₃ := Except.ok.inj (hrest₂.irqEnter.symm.trans henter)
  obtain ⟨log, s', hok, -, hdr, -⟩ := hrest₂.entered.drain s₂.entered.theCurrentTime n
  obtain ⟨rfl, rfl⟩ := Prod.ext_iff.1 (Except.ok.inj (hok.symm.trans hdrain))
  rw [bank_entered, theCurrentTime_entered] at hdr
  rw [theCurrentTime_entered]
  have hall := OnSchedule.fires hdr.fires hpre hsteady
  rw [List.nil_append] at hall
  refine ⟨fun sig hsig => hall.le_currentTime hsig, fun sig hsig => ?_, hall.isChain⟩
  -- the clock has not advanced by more than the interrupts since
  have hle := hall.le_currentTime (List.mem_append_right _ hsig)
  obtain ⟨entry, -, rfl⟩ := List.mem_map.1 (List.mem_filter.1 hsig).1
  have hclock := Bank.toNat_now_of_run hbanks
  have harmed := hbank.now_eq
  rw [if_neg nofun] at harmed
  rw [harmed] at hclock
  have hnow : (signalOf s₂.bank.nextNow entry).currentTime.toNat =
      (s₂.bank.now.toNat + 1000000) % 2 ^ 64 := Bank.toNat_nextNow
  rw [hnow, hclock] at hle
  have : s.bank.now.toNat = s.theCurrentTime.toNat := rfl
  omega

/-- The first two signals of a timer with a period of five nanoseconds. -/
theorem no_early_signal_five_ns :
    ∃ (s s₁ s₃ s₄ : Server 1 1) (sigs : List (Signal 1 1)),
      Step s (.call 0 (.periodic 0 5)) (.ret 0) s₁ ∧ s₁.irqEnter = .ok s₃ ∧
        drain s₃.theCurrentTime 2 s₃ = .ok (sigs, s₄) ∧
        ∀ sig ∈ sigs.filter (fun sig => sig.timer = ((0, 0) : TimerRef 1 1)),
          5 ≤ sig.currentTime.toNat := by
  have hinit : (postInit (fun k => k) 0 : Server 1 1).Initial := ⟨fun k => k, 0, rfl⟩
  obtain ⟨s₁, hs, hrest, hbank⟩ := (atRest_of_initial hinit).exists_call 0 (.periodic 0 5)
  rw [bank_of_initial hinit] at hs hbank
  obtain ⟨log, s₄, hok, -⟩ := hrest.entered.drain s₁.entered.theCurrentTime 2
  have hsteady : s₁.bank.Steady (0, 0) .tick := by
    rw [hbank]
    refine Entry.fits_of_add_lt (d := 5) (p := 5) ?_
    rw [Bank.toNat_nextNow]
    decide
  have hearly := no_early_signal (.of_init hinit) (.inr rfl) (show timerIndex 1 0 = some 0 from rfl)
    (by decide) hs (.nil _) hsteady hrest.irqEnter hok
  exact ⟨_, s₁, _, _, _, hs, hrest.irqEnter, hok, fun sig hsig => hearly.1 sig hsig⟩

/-- When the first deadline wraps, the next interrupt signals the timer, although the clock has
advanced by one timer period only. -/
theorem early_signal_of_overflow (h : s.Reachable) (hop : op.Arms tid ns)
    (hj : timerIndex nt tid = some j) (hover : 2 ^ 64 ≤ s.theCurrentTime.toNat + ns.toNat)
    (hclock : s.theCurrentTime.toNat + 1000000 < 2 ^ 64) (harm : Step s (.call cid op) o s₁)
    {o' : Output nc nt} (htick : Step s₁ .tick o' s₂) :
    ∃ sig ∈ o'.signalsOf (cid, j),
      sig.currentTime.toNat = s.theCurrentTime.toNat + 1000000 ∧ 1000000 < ns.toNat := by
  obtain ⟨hrest₁, hbank⟩ := (Reachable.atRest h).step harm
  obtain ⟨-, log, hloop, rfl⟩ := hrest₁.step htick
  have harmed : s₁.bank.now = s.theCurrentTime := by
    rw [hbank.now_eq, if_neg nofun]
    rfl
  have hnow : s₁.bank.nextNow.toNat = s.theCurrentTime.toNat + 1000000 := by
    rw [Bank.toNat_nextNow, harmed, Nat.mod_eq_of_lt hclock]
  have hns := ns.isLt
  have hle : s.theCurrentTime + ns ≤ s₁.bank.nextNow := by
    rw [BitVec.le_def, hnow, BitVec.toNat_add]
    omega
  have hdue : (s₁.bank.entry (cid, j)).Due s₁.bank.nextNow := by
    rcases Bank.entry_of_arms hop hj hbank with hentry | hentry
    · rwa [hentry]
    · rwa [hentry]
  -- the interrupt cannot end without having served the timer
  obtain ⟨n, hserved, hlast, -⟩ := hloop.drained.fires.at_component (cid, j)
  have hn : n ≠ 0 := by
    rintro rfl
    exact hloop.idle (cid, j) (hlast ▸ hdue)
  have hmem : s₁.bank.entry (cid, j) ∈ Fires.served (cid, j) log := by
    rw [hserved]
    exact List.mem_iterate.2 ⟨0, Nat.pos_of_ne_zero hn, rfl⟩
  obtain ⟨entry, hentry, -⟩ := List.mem_map.1 hmem
  obtain ⟨hentry, htimer⟩ := List.mem_filter.1 hentry
  refine ⟨signalOf s₁.bank.nextNow entry, ?_, hnow, by omega⟩
  exact List.mem_filter.2 ⟨List.mem_map_of_mem hentry, htimer⟩

/-- One interrupt after initialisation a client arms a one-shot timer for the longest time there
is, and the next interrupt signals it. -/
theorem early_signal_longest_timeout :
    ∃ (s s₁ s₂ : Server 1 1) (o : Output 1 1), s.Reachable ∧ s.theCurrentTime.toNat = 1000000 ∧
      Step s (.call 0 (.oneshotRelative 0 (BitVec.allOnes 64))) (.ret 0) s₁ ∧
      Step s₁ .tick o s₂ ∧ ∃ sig ∈ o.signalsOf (0, 0),
        ¬ s.theCurrentTime.toNat + (BitVec.allOnes 64).toNat ≤ sig.currentTime.toNat := by
  have hinit : (postInit (fun k => k) 0 : Server 1 1).Initial := ⟨fun k => k, 0, rfl⟩
  have hoff := bank_of_initial hinit
  -- the first interrupt finds no timer
  obtain ⟨o, s, htick, hrest, hbank⟩ := (atRest_of_initial hinit).exists_tick (by
    rw [hoff]
    exact nofun)
  have hnow : s.theCurrentTime.toNat = 1000000 := by
    have := hbank.now_eq
    rw [if_pos rfl] at this
    have htime : s.theCurrentTime = (Server.bank _).nextNow := this
    rw [htime, Bank.toNat_nextNow, hoff]
    rfl
  -- then the timer is armed, and the second interrupt finds nothing else
  obtain ⟨s₁, hcall, hrest₁, hbank₁⟩ :=
    hrest.exists_call 0 (.oneshotRelative 0 (BitVec.allOnes 64))
  obtain ⟨o₂, s₂, htick₂, -, -⟩ := hrest₁.exists_tick (by
    intro t d p hentry
    have hone : s₁.bank.entry t = .oneShot (s.bank.now + BitVec.allOnes 64) := by
      rw [hbank₁, Subsingleton.elim t (0, 0)]
      rfl
    rw [hone] at hentry
    cases hentry)
  have hreach := (Transition.Reachable.of_init hinit).next htick
  obtain ⟨sig, hsig, htime, -⟩ := early_signal_of_overflow hreach (.inl rfl)
    (show timerIndex 1 0 = some 0 from rfl) (by rw [hnow]; decide) (by rw [hnow]; decide) hcall htick₂
  refine ⟨s, s₁, s₂, o₂, hreach, hnow, hcall, htick₂, sig, hsig, ?_⟩
  rw [htime, hnow]
  decide

end Server

end TimeServer
end Tk1Bsp
