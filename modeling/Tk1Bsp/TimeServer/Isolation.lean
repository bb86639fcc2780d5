import Tk1Bsp.TimeServer.Termination

/-!
# Clients cannot see each other

All clients share one list and one clock, but not one timer.  Two banks that agree on a client's
entries, on its mask and on the clock (`Bank.AgreesFor`) give this client the same answers and the
same number of signals, whatever the other clients have armed: an entry is served on its own
account, and the clock does not depend on the clients.  What other clients call meanwhile keeps
the agreement, so the client's view of a run is the same in any other run in which it does the
same (`Server.isolation`).
-/

namespace Tk1Bsp
namespace TimeServer

open Transition

variable {nc nt : ℕ}

/-- The events a client takes part in: its own calls, and the interrupts. -/
def Event.visibleTo (c : Fin nc) : Event nc → Bool
  | .call cid _ => cid = c
  | .tick => true

/-- What a client sees of an event it takes part in. -/
inductive Seen (nc nt : ℕ)
  | returned (o : Output nc nt)
  | emitted (n : ℕ)
  deriving DecidableEq

/-- A call shows its return value, an interrupt the number of `the_timer_emit` to the client. -/
def seenBy (c : Fin nc) : Event nc → Output nc nt → Seen nc nt
  | .call _ _, o => .returned o
  | .tick, o => .emitted (o.emits c)

namespace Bank

variable {b b' d d' : Bank nc nt} {c : Fin nc}

/-- Two banks that a client cannot tell apart. -/
structure AgreesFor (c : Fin nc) (b b' : Bank nc nt) : Prop where
  entry : ∀ j, b.entry (c, j) = b'.entry (c, j)
  completed : b.completed c = b'.completed c
  now : b.now = b'.now

theorem AgreesFor.symm (h : AgreesFor c b b') : AgreesFor c b' b where
  entry j := (h.entry j).symm
  completed := h.completed.symm
  now := h.now.symm

theorem AgreesFor.trans (h : AgreesFor c b b') (h' : AgreesFor c b' d) : AgreesFor c b d where
  entry j := (h.entry j).trans (h'.entry j)
  completed := h.completed.trans h'.completed
  now := h.now.trans h'.now

theorem agreesFor_refl (c : Fin nc) (b : Bank nc nt) : AgreesFor c b b := ⟨fun _ => rfl, rfl, rfl⟩

/-! ## Calls -/

/-- Setting a timer of another client does not concern this one. -/
theorem agreesFor_write {cid : Fin nc} (hc : cid ≠ c) (tid : ℤ) (e : Entry) :
    AgreesFor c (b.write cid tid e).2 b := by
  unfold write
  cases timerIndex nt tid with
  | none => exact agreesFor_refl c b
  | some i =>
      refine ⟨fun j => Function.update_of_ne ?_ _ _, rfl, rfl⟩
      intro heq
      exact hc (congrArg Prod.fst heq).symm

theorem agreesFor_serve {cid : Fin nc} (hc : cid ≠ c) (op : Call) :
    AgreesFor c (b.serve cid op).2 b := by
  cases op with
  | oneshotRelative tid ns => exact agreesFor_write hc _ _
  | oneshotAbsolute tid ns => exact agreesFor_write hc _ _
  | periodic tid ns => exact agreesFor_write hc _ _
  | stop tid => exact agreesFor_write hc _ _
  | completed => exact ⟨fun _ => rfl, Function.update_of_ne hc.symm _ _, rfl⟩
  | time => exact agreesFor_refl c b
  | tscFrequency => exact agreesFor_refl c b

/-- Setting a timer of this client returns the same and keeps the agreement. -/
theorem AgreesFor.write (h : AgreesFor c b b') (tid : ℤ) (e : Entry) :
    (b.write c tid e).1 = (b'.write c tid e).1 ∧
      AgreesFor c (b.write c tid e).2 (b'.write c tid e).2 := by
  unfold Bank.write
  cases timerIndex nt tid with
  | none => exact ⟨rfl, h⟩
  | some i =>
      refine ⟨rfl, fun j => ?_, h.completed, h.now⟩
      by_cases hj : j = i
      · subst hj
        simp
      · have hne : (c, j) ≠ (c, i) := fun heq => hj (congrArg Prod.snd heq)
        show Function.update b.entry (c, i) e (c, j) = Function.update b'.entry (c, i) e (c, j)
        rw [Function.update_of_ne hne, Function.update_of_ne hne, h.entry j]

theorem AgreesFor.serve (h : AgreesFor c b b') (op : Call) :
    (b.serve c op).1 = (b'.serve c op).1 ∧ AgreesFor c (b.serve c op).2 (b'.serve c op).2 := by
  cases op with
  | oneshotRelative tid ns =>
      unfold Bank.serve
      rw [h.now]
      exact h.write tid _
  | oneshotAbsolute tid ns => exact h.write tid _
  | periodic tid ns =>
      unfold Bank.serve
      rw [h.now]
      exact h.write tid _
  | stop tid => exact h.write tid _
  | completed => exact ⟨congrArg Output.mask h.completed, h.entry, by simp [Bank.serve], h.now⟩
  | time => exact ⟨congrArg Output.ns h.now, h⟩
  | tscFrequency => exact ⟨rfl, h⟩

/-! ## Interrupts -/

/-- An interrupt serves a client's timers alike in both banks. -/
theorem AgreesFor.tick {log log' : List (TimerRef nc nt × Entry)} (h : AgreesFor c b b')
    (hb : b.Tick log d) (hb' : b'.Tick log' d') :
    (∀ j, Fires.served (c, j) log = Fires.served (c, j) log') ∧ AgreesFor c d d' := by
  have hnow : b.nextNow = b'.nextNow := congrArg (· + timerPeriod) h.now
  have hfires' := hb'.drained.fires
  have hidle' := hb'.idle
  rw [← hnow] at hfires' hidle'
  have hat := fun j => hb.drained.fires.at_eq hfires' (h.entry j) (hb.idle (c, j)) (hidle' (c, j))
  refine ⟨fun j => (hat j).1, fun j => (hat j).2, ?_, ?_⟩
  · refine BitVec.eq_of_getLsbD_eq fun i _ => ?_
    rw [hb.drained.getLsbD_completed, hb'.drained.getLsbD_completed]
    simp only [fun j => (hat j).1, h.completed]
  · rw [hb.drained.now_eq, hb'.drained.now_eq, hnow]

/-- An event the client takes part in looks the same and keeps the agreement. -/
theorem AgreesFor.step {e : Event nc} {o o' : Output nc nt} (h : AgreesFor c b b')
    (he : e.visibleTo c = true) (hb : b.Step e o d) (hb' : b'.Step e o' d') :
    seenBy c e o = seenBy c e o' ∧ AgreesFor c d d' := by
  cases e with
  | call cid op =>
      have hcid : cid = c := by simpa [Event.visibleTo] using he
      subst hcid
      have hb : (o, d) = b.serve cid op := hb
      have hb' : (o', d') = b'.serve cid op := hb'
      obtain ⟨rfl, rfl⟩ := Prod.ext_iff.1 hb
      obtain ⟨rfl, rfl⟩ := Prod.ext_iff.1 hb'
      obtain ⟨hret, hagree⟩ := h.serve op
      exact ⟨congrArg Seen.returned hret, hagree⟩
  | tick =>
      obtain ⟨log, htick, rfl⟩ := hb
      obtain ⟨log', htick', rfl⟩ := hb'
      obtain ⟨hserved, hagree⟩ := h.tick htick htick'
      refine ⟨congrArg Seen.emitted ?_, hagree⟩
      rw [emits_signals, emits_signals]
      exact Finset.sum_congr rfl fun j _ => congrArg List.length (hserved j)

/-- An event the client takes no part in keeps the agreement. -/
theorem Step.agreesFor {e : Event nc} {o : Output nc nt} (hb : b.Step e o d)
    (he : e.visibleTo c = false) : AgreesFor c d b := by
  cases e with
  | call cid op =>
      have hb : d = (b.serve cid op).2 := congrArg Prod.snd hb
      rw [hb]
      exact agreesFor_serve (by simpa [Event.visibleTo] using he) op
  | tick => cases he

end Bank

namespace Server

/-- Isolation of clients.  In two runs of the server that have the same calls of client `c` and
the same interrupts, with arbitrary calls of the other clients in between, all interrupts having
returned, the client sees the same return values and the same number of signals per interrupt. -/
theorem isolation {c : Fin nc} {s s' t t' : Server nc nt} {es fs : List (Event nc)}
    {os ps : List (Output nc nt)} (hs : s.Initial) (hrun : Run Step s es os s') (ht : t.Initial)
    (hrun' : Run Step t fs ps t')
    (hsame : es.filter (Event.visibleTo c) = fs.filter (Event.visibleTo c)) :
    observed (Event.visibleTo c) (seenBy c) es os = observed (Event.visibleTo c) (seenBy c) fs ps := by
  obtain ⟨-, hbank⟩ := (atRest_of_initial hs).run hrun
  obtain ⟨-, hbank'⟩ := (atRest_of_initial ht).run hrun'
  rw [bank_of_initial hs] at hbank
  rw [bank_of_initial ht] at hbank'
  refine observed_eq_of_unwinding (I := fun _ => True) (E := Bank.AgreesFor c) ?_ ?_ ?_ ?_
    hbank hbank' trivial trivial (Bank.agreesFor_refl c _) hsame
  · intros
    trivial
  · intro b b' h
    exact h.symm
  · intro b e o d b' _ hstep he h
    exact (hstep.agreesFor he).trans h
  · intro b e o d b' o' d' _ _ h he hstep hstep'
    exact h.step he hstep hstep'

/-- A client with a one-shot timer sees the same, whether or not the other client has armed a
periodic timer in between. -/
theorem isolation_two_clients :
    ∃ (s : Server 2 1) (es fs : List (Event 2)) (os ps : List (Output 2 1)) (s' t' : Server 2 1),
      es = [.call 0 (.oneshotRelative 0 7), .call 1 (.periodic 0 5), .tick, .call 0 .completed] ∧
      fs = [.call 0 (.oneshotRelative 0 7), .tick, .call 0 .completed] ∧
      Run Step s es os s' ∧ Run Step s fs ps t' ∧
      observed (Event.visibleTo 0) (seenBy 0) es os =
        observed (Event.visibleTo 0) (seenBy 0) fs ps := by
  have hinit : (postInit (fun k => k) 0 : Server 2 1).Initial := ⟨fun k => k, 0, rfl⟩
  have hexists : ∀ es : List (Event 2), (∀ e ∈ es, e.Moving) → es.count .tick = 1 →
      ∃ os s', Run Step (postInit (fun k => k) 0 : Server 2 1) es os s' := by
    intro es hes hcount
    refine (atRest_of_initial hinit).exists_run ?_ hes ?_
    · rw [bank_of_initial hinit]
      exact fun _ _ _ h => by cases h
    · rw [bank_of_initial hinit, hcount]
      decide
  obtain ⟨os, s', hrun⟩ := hexists [.call 0 (.oneshotRelative 0 7), .call 1 (.periodic 0 5), .tick,
    .call 0 .completed] (by simp [Event.Moving]) rfl
  obtain ⟨ps, t', hrun'⟩ := hexists [.call 0 (.oneshotRelative 0 7), .tick, .call 0 .completed]
    (by simp [Event.Moving]) rfl
  exact ⟨_, _, _, os, ps, s', t', rfl, rfl, hrun, hrun', isolation hinit hrun hinit hrun' rfl⟩

end Server

end TimeServer
end Tk1Bsp
