import Tk1Bsp.TimeServer.Bank

/-!
# The invariant of the time server

A server that has been initialised successfully is at rest between operations: well formed, with
the mutex free.  Calls and interrupts keep it so, and each step of the server is a step of its
bank (`Server.step_refines`).  In particular no assert of the source can fail and no operation
ever blocks on the mutex; an interrupt whose loop has not ended within its allowance is the only
way for a step not to happen.
-/

namespace Tk1Bsp
namespace TimeServer

open Transition

variable {nc nt : ℕ}

namespace Server

variable {s s' : Server nc nt}

/-- Between two operations: the list is well formed and nobody holds the mutex. -/
structure AtRest (s : Server nc nt) : Prop where
  wellFormed : s.WellFormed
  free : s.timeServerHeld = false

/-- The states a run of client calls and interrupts can reach after a successful `post_init`. -/
def Reachable (s : Server nc nt) : Prop := Transition.Reachable Step Initial s

theorem postInit_eq (tmr : Fin 10 → ℤ) (k : Fin 10) :
    (postInit tmr (tmr k) : Server nc nt) = (booted nc nt).timeServerUnlock :=
  if_pos ⟨k, rfl⟩

theorem atRest_of_initial (h : s.Initial) : s.AtRest := by
  obtain ⟨tmr, k, rfl⟩ := h
  rw [postInit_eq]
  exact ⟨wellFormed_booted.congr rfl rfl, rfl⟩

theorem bank_of_initial (h : s.Initial) :
    s.bank = { entry := fun _ => .off, completed := fun _ => 0, now := 0 } := by
  obtain ⟨tmr, k, rfl⟩ := h
  rw [postInit_eq]
  rfl

/-! ## The interrupt -/

/-- The state in which the loop of the next interrupt starts. -/
def entered (s : Server nc nt) : Server nc nt := s.locked.updateCurrentTimeNs timerPeriod

theorem AtRest.irqEnter (h : s.AtRest) : s.irqEnter = .ok s.entered := by
  simp [Server.irqEnter, timeServerLock_eq h.free, entered, bind, Except.bind, pure, Except.pure]

-- for any number of nanoseconds, so that the checker need not compute with the period
theorem links_updateCurrentTimeNs (ns : BitVec 64) :
    (s.updateCurrentTimeNs ns).links = s.links := rfl
theorem body_updateCurrentTimeNs (ns : BitVec 64) : (s.updateCurrentTimeNs ns).body = s.body := rfl
theorem bank_updateCurrentTimeNs (ns : BitVec 64) :
    (s.updateCurrentTimeNs ns).bank = { s.bank with now := s.bank.now + ns } := rfl

theorem AtRest.entered (h : s.AtRest) : s.entered.WellFormed := by
  have hwf : s.locked.WellFormed := h.wellFormed.congr rfl rfl
  exact hwf.congr (links_updateCurrentTimeNs _) (body_updateCurrentTimeNs _)

theorem bank_entered : s.entered.bank = { s.bank with now := s.bank.nextNow } :=
  bank_updateCurrentTimeNs (s := s.locked) timerPeriod

theorem theCurrentTime_entered : s.entered.theCurrentTime = s.bank.nextNow :=
  congrArg Bank.now bank_entered

/-- What a given allowance of iterations achieves: either the whole interrupt, or as many
iterations as were allowed with the loop still to go on. -/
theorem AtRest.irqHandle (h : s.AtRest) (fuel : ℕ) :
    (∃ log s', s.irqHandle fuel = .ok (log.map (signalOf s.bank.nextNow), s') ∧
      s'.AtRest ∧ s.bank.Tick log s'.bank) ∨
    (∃ log b, s.irqHandle fuel = .error .noReturn ∧
      Bank.Drained s.bank.nextNow { s.bank with now := s.bank.nextNow } log b ∧
      fuel ≤ log.length) := by
  obtain ⟨log, s₁, hok, hwf, hdr, -, hstop⟩ := h.entered.drain s.bank.nextNow fuel
  rw [bank_entered] at hdr
  have hirq : s.irqHandle fuel =
      if (s₁.dueHead s.bank.nextNow).isSome then .error .noReturn
      else .ok (log.map (signalOf s.bank.nextNow), s₁.timeServerUnlock) := by
    simp only [Server.irqHandle, h.irqEnter, signalClients, theCurrentTime_entered, hok, bind,
      Except.bind, pure, Except.pure]
    by_cases hd : (s₁.dueHead s.bank.nextNow).isSome = true <;> simp [hd]
  cases hd : s₁.dueHead s.bank.nextNow with
  | none =>
      left
      refine ⟨log, s₁.timeServerUnlock, ?_, ⟨hwf.congr rfl rfl, rfl⟩, hdr, fun t => ?_⟩
      · rw [hirq, hd]
        rfl
      · exact hwf.idle_of_dueHead hd t
  | some t =>
      right
      refine ⟨log, s₁.bank, ?_, hdr, ?_⟩
      · rw [hirq, hd]
        rfl
      · by_contra hc
        rw [hstop (by omega)] at hd
        cases hd

/-! ## Steps -/

/-- Every step of the server at rest is a step of its bank, and leaves the server at rest. -/
theorem AtRest.step (h : s.AtRest) {e : Event nc} {o : Output nc nt} (hs : Step s e o s') :
    s'.AtRest ∧ s.bank.Step e o s'.bank := by
  obtain ⟨fuel, hs⟩ := hs
  cases e with
  | call cid op =>
      obtain ⟨o₁, s₁, hok, hwf, hfree, href⟩ := serve_refines h.wellFormed h.free cid op
      have heq : s.serve cid op = .ok (o, s') := hs
      rw [hok] at heq
      cases heq
      exact ⟨⟨hwf, hfree⟩, href⟩
  | tick =>
      rcases h.irqHandle fuel with ⟨log, s₁, hok, hrest, htick⟩ | ⟨_, _, herr, -⟩
      · simp only [exec, hok, bind, Except.bind, pure, Except.pure] at hs
        cases hs
        exact ⟨hrest, log, htick, rfl⟩
      · simp only [exec, herr, bind, Except.bind] at hs
        cases hs

/-- A server at rest serves every call, with the result the bank gives. -/
theorem AtRest.exists_call (h : s.AtRest) (cid : Fin nc) (op : Call) :
    ∃ s', Step s (.call cid op) (s.bank.serve cid op).1 s' ∧ s'.AtRest ∧
      s'.bank = (s.bank.serve cid op).2 := by
  obtain ⟨o, s', hok, hwf, hfree, href⟩ := serve_refines h.wellFormed h.free cid op
  obtain ⟨rfl, hbank⟩ := Prod.ext_iff.1 href
  exact ⟨s', ⟨0, hok⟩, ⟨hwf, hfree⟩, hbank⟩

theorem Reachable.atRest (h : s.Reachable) : s.AtRest :=
  Transition.Reachable.invariant (I := AtRest) (fun _ => atRest_of_initial)
    (fun _ _ _ _ hI hs => (AtRest.step hI hs).1) h

/-- Runs of the server are runs of its bank. -/
theorem AtRest.run (h : s.AtRest) {es : List (Event nc)} {os : List (Output nc nt)}
    (hrun : Run Step s es os s') : s'.AtRest ∧ Run Bank.Step s.bank es os s'.bank := by
  induction hrun with
  | nil => exact ⟨h, .nil _⟩
  | cons hs _ ih =>
      obtain ⟨hrest, hstep⟩ := h.step hs
      obtain ⟨hrest', hrun'⟩ := ih hrest
      exact ⟨hrest', .cons hstep hrun'⟩

/-! ## The representation invariant, everywhere -/

/-- In every reachable state, and after every iteration of the loop of the next interrupt, the
list from `timer_head` spells exactly the armed timers, sorted by deadline, in both directions.
No assert fails on the way: every call returns, and so does every iteration. -/
theorem wellFormed_of_reachable (h : s.Reachable) :
    s.WellFormed ∧ (∀ cid op, ∃ r, s.serve cid op = .ok r) ∧
      ∃ s₁, s.irqEnter = .ok s₁ ∧
        ∀ n, ∃ r, drain s₁.theCurrentTime n s₁ = .ok r ∧ r.2.WellFormed := by
  have hrest := Reachable.atRest h
  refine ⟨hrest.wellFormed, fun cid op => ?_, s.entered, hrest.irqEnter, fun n => ?_⟩
  · obtain ⟨o, s₁, hok, -⟩ := serve_refines hrest.wellFormed hrest.free cid op
    exact ⟨_, hok⟩
  · obtain ⟨log, s₁, hok, hwf, -⟩ := hrest.entered.drain s.entered.theCurrentTime n
    exact ⟨_, hok, hwf⟩

/-- The invariant of a server on which a periodic timer of one client and an earlier one-shot
timer of the other are armed. -/
theorem wellFormed_of_reachable_two_clients :
    ∃ s : Server 2 2, s.Reachable ∧ s.timerHead = some (1, 0) ∧
      (s.timers (1, 0)).next = some (0, 1) ∧ s.WellFormed :=
  have hinit : (postInit (fun k => k) 3 : Server 2 2).Initial := ⟨fun k => k, 3, rfl⟩
  have h₁ := (Transition.Reachable.of_init hinit).next
    (⟨0, rfl⟩ : Step _ (.call 0 (.periodic 1 5000000)) _ _)
  have h₂ := h₁.next (⟨0, rfl⟩ : Step _ (.call 1 (.oneshotRelative 0 7)) _ _)
  ⟨_, h₂, by decide, by decide, (wellFormed_of_reachable h₂).1⟩

/-! ## The mutex -/

/-- Nobody holds the mutex, and no operation blocks on it. -/
structure Unlocked (s : Server nc nt) : Prop where
  free : s.timeServerHeld = false
  not_blocked : ∀ fuel e, s.exec fuel e ≠ .error .blocked

theorem AtRest.unlocked (h : s.AtRest) : s.Unlocked := by
  refine ⟨h.free, fun fuel e => ?_⟩
  cases e with
  | call cid op =>
      obtain ⟨o, s', hok, -⟩ := serve_refines h.wellFormed h.free cid op
      rw [exec, hok]
      simp
  | tick =>
      rcases h.irqHandle fuel with ⟨log, s₁, hok, -⟩ | ⟨log, b, herr, -⟩
      · simp [exec, hok, bind, Except.bind, pure, Except.pure]
      · simp [exec, herr, bind, Except.bind]

/-- `post_init` returns with the mutex free, and so does every operation of every run after it. -/
def KeepsUnlocked (nc nt : ℕ) (tmr : Fin 10 → ℤ) (nvtmrNumber : ℤ) : Prop :=
  ∀ (es : List (Event nc)) (os : List (Output nc nt)) (s : Server nc nt),
    Run Step (postInit tmr nvtmrNumber) es os s → s.Unlocked

/-- The mutex is given back exactly if the configured device is one of `TMR0 .. TMR9`.  If it is
none of them, `post_init` keeps it. -/
theorem keepsUnlocked_iff (nc nt : ℕ) (tmr : Fin 10 → ℤ) (nvtmrNumber : ℤ) :
    KeepsUnlocked nc nt tmr nvtmrNumber ↔ ∃ k, tmr k = nvtmrNumber := by
  constructor
  · intro h
    by_contra hk
    have hfree := (h [] [] _ (.nil _)).free
    rw [postInit, if_neg hk] at hfree
    cases hfree
  · rintro ⟨k, rfl⟩ es os s hrun
    exact ((atRest_of_initial ⟨tmr, k, rfl⟩).run hrun).1.unlocked

/-- Device 10 is configured, and the first call that takes the mutex blocks. -/
theorem not_keepsUnlocked_ten :
    ¬ KeepsUnlocked 1 1 (fun k => k) 10 ∧
      (postInit (fun k => k) 10 : Server 1 1).exec 0 (.call 0 .completed) = .error .blocked := by
  have hblocked :
      (postInit (fun k => k) 10 : Server 1 1).exec 0 (.call 0 .completed) = .error .blocked := rfl
  exact ⟨fun h => (h [] [] _ (.nil _)).not_blocked 0 _ hblocked, hblocked⟩

end Server

end TimeServer
end Tk1Bsp
