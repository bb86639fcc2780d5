import Mathlib.Logic.Basic
import Mathlib.Tactic.TypeStar

/-!
# Programs made of atomic operations

A `Prog` is a program seen from the outside: it either has returned, or it is about to perform an
operation and goes on according to the answer.  The machine `exec` gives the operations their
meaning: the answer and the next state, or nothing when the operation has to wait.

The same program can be run alone (`Prog.run`) or one operation at a time, between the operations
of other programs (`Prog.advance`).  `Prog.Every` says that all operations a program may ever
perform satisfy a predicate; what such operations preserve, the program preserves, however it is
interleaved.  `Prog.trace` lists those that a run alone performs.
-/

namespace Tk1Bsp

/-- A program over operations `Op`, where an operation `o` is answered by an `Ans o`. -/
inductive Prog (Op : Type) (Ans : Op → Type) (α : Type)
  | ret (a : α)
  | call (o : Op) (k : Ans o → Prog Op Ans α)

namespace Prog

variable {Op : Type} {Ans : Op → Type} {α β γ σ : Type}

/-- Go on with the value a program returns. -/
def bind : Prog Op Ans α → (α → Prog Op Ans β) → Prog Op Ans β
  | ret a, f => f a
  | call o k, f => call o fun r => (k r).bind f

instance : Monad (Prog Op Ans) where
  pure := ret
  bind := bind

/-- The program that performs one operation and returns the answer. -/
def perform (o : Op) : Prog Op Ans (Ans o) := call o ret

@[simp] theorem ret_bind (a : α) (f : α → Prog Op Ans β) : (ret a).bind f = f a := rfl
@[simp] theorem call_bind (o : Op) (k : Ans o → Prog Op Ans α) (f : α → Prog Op Ans β) :
    (call o k).bind f = call o fun r => (k r).bind f := rfl
@[simp] theorem pure_eq (a : α) : (pure a : Prog Op Ans α) = ret a := rfl
@[simp] theorem bind_eq (p : Prog Op Ans α) (f : α → Prog Op Ans β) : p >>= f = p.bind f := rfl
@[simp] theorem perform_bind (o : Op) (f : Ans o → Prog Op Ans β) :
    (perform o).bind f = call o f := rfl

theorem bind_assoc (p : Prog Op Ans α) (f : α → Prog Op Ans β) (g : β → Prog Op Ans γ) :
    (p.bind f).bind g = p.bind fun a => (f a).bind g := by
  induction p with
  | ret a => rfl
  | call o k ih => exact congrArg (call o) (funext ih)

/-! ## Running -/

variable (exec : (o : Op) → σ → Option (Ans o × σ))

/-- Run a program alone; nothing if one of its operations would have to wait. -/
def run : Prog Op Ans α → σ → Option (α × σ)
  | ret a, s => some (a, s)
  | call o k, s =>
      match exec o s with
      | none => none
      | some (r, s') => run (k r) s'

/-- The operations a program performs when it runs alone, with the one that has to wait, if there is
one, at the end. -/
def trace : Prog Op Ans α → σ → List Op
  | ret _, _ => []
  | call o k, s =>
      match exec o s with
      | none => [o]
      | some (r, s') => o :: trace (k r) s'

/-- Perform the next operation of a program; nothing if it has returned or has to wait. -/
def advance : Prog Op Ans α → σ → Option (Prog Op Ans α × σ)
  | ret _, _ => none
  | call o k, s => (exec o s).map fun rs => (k rs.1, rs.2)

@[simp] theorem run_ret (a : α) (s : σ) : (ret a : Prog Op Ans α).run exec s = some (a, s) := rfl

theorem run_bind (p : Prog Op Ans α) (f : α → Prog Op Ans β) (s : σ) :
    (p.bind f).run exec s = (p.run exec s).bind fun as => (f as.1).run exec as.2 := by
  induction p generalizing s with
  | ret a => rfl
  | call o k ih =>
      simp only [call_bind, run]
      cases exec o s with
      | none => rfl
      | some rs => exact ih rs.1 rs.2

variable {exec}

theorem of_run_bind {p : Prog Op Ans α} {f : α → Prog Op Ans β} {b : β} {s s' : σ}
    (h : (p.bind f).run exec s = some (b, s')) :
    ∃ a s₁, p.run exec s = some (a, s₁) ∧ (f a).run exec s₁ = some (b, s') := by
  rw [run_bind] at h
  obtain ⟨⟨a, s₁⟩, hp, hf⟩ := Option.bind_eq_some_iff.1 h
  exact ⟨a, s₁, hp, hf⟩

theorem run_call_of_exec {o : Op} {k : Ans o → Prog Op Ans α} {s s' : σ} {r : Ans o}
    (h : exec o s = some (r, s')) : (call o k).run exec s = (k r).run exec s' := by
  simp only [run, h]

theorem run_call_of_none {o : Op} {k : Ans o → Prog Op Ans α} {s : σ} (h : exec o s = none) :
    (call o k).run exec s = none := by
  simp only [run, h]

/-- A program whose next operation is known performs that one. -/
theorem exec_of_call_eq {o o' : Op} {k : Ans o → Prog Op Ans α} {k' : Ans o' → Prog Op Ans α}
    {s s' : σ} {r : Ans o} (h : call o' k' = call o k) (hexec : exec o s = some (r, s')) :
    ∃ r', exec o' s = some (r', s') ∧ k r = k' r' := by
  obtain ⟨rfl, hk⟩ := call.inj h
  obtain rfl := eq_of_heq hk
  exact ⟨r, hexec, rfl⟩

/-- The operation a program is about to perform is in its trace. -/
theorem mem_trace_call {o : Op} {k : Ans o → Prog Op Ans α} {s : σ} :
    o ∈ (call o k).trace exec s := by
  simp only [trace]
  split <;> exact List.mem_cons_self

theorem mem_trace_of_exec {o o' : Op} {k : Ans o → Prog Op Ans α} {s s' : σ} {r : Ans o}
    (h : exec o s = some (r, s')) (ho' : o' ∈ (k r).trace exec s') :
    o' ∈ (call o k).trace exec s := by
  simp only [trace, h]
  exact List.mem_cons_of_mem o ho'

/-- What advancing a program means: its next operation could be performed. -/
theorem advance_eq_some {p p' : Prog Op Ans α} {s s' : σ}
    (h : p.advance exec s = some (p', s')) :
    ∃ o k r, p = call o k ∧ exec o s = some (r, s') ∧ p' = k r := by
  cases p with
  | ret a => cases h
  | call o k =>
      obtain ⟨rs, hexec, hrs⟩ := Option.map_eq_some_iff.1 h
      obtain ⟨rfl, rfl⟩ := Prod.mk.inj hrs
      exact ⟨o, k, rs.1, rfl, hexec, rfl⟩

/-! ## Programs all of whose operations are of one kind -/

/-- Every operation the program may perform, whatever the answers, satisfies `φ`. -/
def Every (φ : Op → Prop) : Prog Op Ans α → Prop
  | ret _ => True
  | call o k => φ o ∧ ∀ r, (k r).Every φ

theorem Every.bind {φ : Op → Prop} {p : Prog Op Ans α} {f : α → Prog Op Ans β}
    (h : p.Every φ) (hf : ∀ a, (f a).Every φ) : (p.bind f).Every φ := by
  induction p with
  | ret a => exact hf a
  | call o k ih => exact ⟨h.1, fun r => ih r (h.2 r)⟩

theorem every_perform {φ : Op → Prop} {o : Op} (h : φ o) :
    (perform o : Prog Op Ans (Ans o)).Every φ := ⟨h, fun _ => trivial⟩

/-- What each operation does to the state, a run does. -/
theorem Every.run {φ : Op → Prop} {R : σ → σ → Prop} (hrefl : ∀ s, R s s)
    (htrans : ∀ s₁ s₂ s₃, R s₁ s₂ → R s₂ s₃ → R s₁ s₃)
    (hstep : ∀ o s r s', φ o → exec o s = some (r, s') → R s s') {p : Prog Op Ans α} {s s' : σ}
    {a : α} (hp : p.Every φ) (hrun : p.run exec s = some (a, s')) : R s s' := by
  induction p generalizing s with
  | ret b =>
      obtain ⟨-, rfl⟩ := Prod.mk.inj (Option.some.inj hrun)
      exact hrefl s
  | call o k ih =>
      simp only [Prog.run] at hrun
      split at hrun
      · cases hrun
      · rename_i r s₁ hexec
        exact htrans _ _ _ (hstep o s r s₁ hp.1 hexec) (ih r (hp.2 r) hrun)

/-- What all operations satisfy, those of a run do. -/
theorem Every.forall_trace {φ : Op → Prop} {p : Prog Op Ans α} (h : p.Every φ) (s : σ) :
    ∀ o ∈ p.trace exec s, φ o := by
  induction p generalizing s with
  | ret a => exact fun _ ho => absurd ho List.not_mem_nil
  | call o k ih =>
      simp only [trace]
      cases exec o s with
      | none => exact List.forall_mem_singleton.2 h.1
      | some rs => exact List.forall_mem_cons.2 ⟨h.1, ih rs.1 (h.2 rs.1) rs.2⟩

/-- The operations of a sequence are those of its first part and, if that returns, of its second. -/
theorem forall_trace_bind {φ : Op → Prop} {p : Prog Op Ans α} {f : α → Prog Op Ans β} {s : σ} :
    (∀ o ∈ (p.bind f).trace exec s, φ o) ↔ (∀ o ∈ p.trace exec s, φ o) ∧
      ∀ a s', p.run exec s = some (a, s') → ∀ o ∈ (f a).trace exec s', φ o := by
  induction p generalizing s with
  | ret a =>
      refine ⟨fun h => ⟨nofun, fun b s' hrun => ?_⟩, fun h => h.2 a s rfl⟩
      obtain ⟨rfl, rfl⟩ := Prod.mk.inj (Option.some.inj hrun)
      exact h
  | call o k ih =>
      simp only [call_bind, trace, run]
      cases exec o s with
      | none => exact ⟨fun h => ⟨h, nofun⟩, fun h => h.1⟩
      | some rs =>
          simp only [List.forall_mem_cons, ih rs.1]
          exact ⟨fun h => ⟨⟨h.1, h.2.1⟩, h.2.2⟩, fun h => ⟨h.1.1, h.1.2, h.2⟩⟩

/-- A run that comes to its end has performed each of its operations. -/
theorem forall_trace_of_run {φ : Op → Prop} {p : Prog Op Ans α} {s : σ} {as : α × σ}
    (hp : p.Every fun o => ∀ s rs, exec o s = some rs → φ o) (h : p.run exec s = some as) :
    ∀ o ∈ p.trace exec s, φ o := by
  induction p generalizing s with
  | ret a => exact fun _ ho => absurd ho List.not_mem_nil
  | call o k ih =>
      simp only [run] at h
      simp only [trace]
      cases hexec : exec o s with
      | none =>
          rw [hexec] at h
          cases h
      | some rs =>
          rw [hexec] at h
          exact List.forall_mem_cons.2 ⟨hp.1 s rs hexec, ih rs.1 (hp.2 rs.1) h⟩

/-- A run all of whose operations can be performed comes to its end. -/
theorem run_isSome_of_trace {φ : Op → Prop} {p : Prog Op Ans α} {s : σ}
    (hp : p.Every fun o => ∀ s, φ o → (exec o s).isSome) (h : ∀ o ∈ p.trace exec s, φ o) :
    (p.run exec s).isSome := by
  induction p generalizing s with
  | ret a => rfl
  | call o k ih =>
      simp only [trace] at h
      simp only [run]
      cases hexec : exec o s with
      | none =>
          rw [hexec] at h
          have hsome := hp.1 s (h o (List.mem_singleton.2 rfl))
          rw [hexec] at hsome
          cases hsome
      | some rs =>
          rw [hexec] at h
          exact ih rs.1 (hp.2 rs.1) (List.forall_mem_cons.1 h).2

end Prog

end Tk1Bsp
