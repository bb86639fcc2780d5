import Tk1Bsp.Framework.Process

/-!
# Protocols of programs

What a thread may do to a shared state is often a matter of where in its work it is.  A protocol
says this with a ghost state: `next g o r g'` allows the operation `o`, answered by `r`, in the
ghost state `g`, and makes the ghost state `g'`.  `Prog.Follows` says that a program obeys a
protocol, whatever answers it gets, and what is known when it returns; sequences are proved by
their parts (`Follows.bind`).  An invariant of a system of threads then has one case for each rule
of the protocols, and none for each line of the programs.

`Prog.Guarded` says that a program performs no bad operation before a guarding one, `Prog.Each`
says something about every operation together with the program that is left after it, and
`Prog.Mirrors` that another program performs the same operations.
-/

namespace Tk1Bsp
namespace Prog

variable {Op : Type} {Ans : Op → Type} {α β G : Type}

/-- The program obeys the protocol from the ghost state `g`, and `Q` holds when it returns. -/
def Follows (next : G → (o : Op) → Ans o → G → Prop) :
    Prog Op Ans α → G → (α → G → Prop) → Prop
  | ret a, g, Q => Q a g
  | call o k, g, Q => ∀ r, ∃ g', next g o r g' ∧ (k r).Follows next g' Q

variable {next : G → (o : Op) → Ans o → G → Prop} {p : Prog Op Ans α} {g : G}

namespace Follows

theorem bind {f : α → Prog Op Ans β} {Q : β → G → Prop}
    (h : p.Follows next g fun a g' => (f a).Follows next g' Q) : (p.bind f).Follows next g Q := by
  induction p generalizing g with
  | ret a => exact h
  | call o k ih =>
      intro r
      obtain ⟨g', hnext, hk⟩ := h r
      exact ⟨g', hnext, ih r hk⟩

theorem mono {Q Q' : α → G → Prop} (h : p.Follows next g Q) (hQ : ∀ a g', Q a g' → Q' a g') :
    p.Follows next g Q' := by
  induction p generalizing g with
  | ret a => exact hQ a g h
  | call o k ih =>
      intro r
      obtain ⟨g', hnext, hk⟩ := h r
      exact ⟨g', hnext, ih r hk⟩

/-- The sequence rule where the ghost state in the middle is known. -/
theorem seq {g₁ : G} {f : α → Prog Op Ans β} {Q : β → G → Prop}
    (h : p.Follows next g fun _ g' => g' = g₁) (hf : ∀ a, (f a).Follows next g₁ Q) :
    (p.bind f).Follows next g Q :=
  (h.mono fun a _ hg => hg ▸ hf a).bind

end Follows

/-- A program whose operations are all allowed, and change nothing, in a ghost state. -/
theorem Every.follows {φ : Op → Prop} (h : p.Every φ) (hnext : ∀ o r, φ o → next g o r g) :
    p.Follows next g fun _ g' => g' = g := by
  induction p with
  | ret a => rfl
  | call o k ih => exact fun r => ⟨g, hnext o r h.1, ih r (h.2 r)⟩

theorem Every.mono {φ ψ : Op → Prop} (h : p.Every φ) (hφ : ∀ o, φ o → ψ o) : p.Every ψ := by
  induction p with
  | ret a => trivial
  | call o k ih => exact ⟨hφ o h.1, fun r => ih r (h.2 r)⟩

/-- What a protocol says of each operation that it allows holds of all operations of a program that
obeys it, if they have answers. -/
theorem Follows.every {φ : Op → Prop} {Q : α → G → Prop} (h : p.Follows next g Q)
    (hans : ∀ o, ¬ φ o → Nonempty (Ans o)) (hnext : ∀ g o r g', next g o r g' → φ o) :
    p.Every φ := by
  induction p generalizing g with
  | ret a => trivial
  | call o k ih =>
      refine ⟨Classical.byContradiction fun hφ => ?_, fun r => ?_⟩
      · obtain ⟨r⟩ := hans o hφ
        obtain ⟨g', hr, -⟩ := h r
        exact hφ (hnext g o r g' hr)
      · obtain ⟨g', -, hk⟩ := h r
        exact ih r hk

/-! ## Guards -/

/-- No bad operation comes before a guarding one. -/
def Guarded (guard bad : Op → Prop) : Prog Op Ans α → Prop
  | ret _ => True
  | call o k => guard o ∨ (¬ bad o ∧ ∀ r, (k r).Guarded guard bad)

variable {guard bad : Op → Prop}

theorem Guarded.call {o : Op} {k : Ans o → Prog Op Ans α}
    (h : (Prog.call o k).Guarded guard bad) (hguard : ¬ guard o) (r : Ans o) :
    (k r).Guarded guard bad := by
  rcases h with h | h
  · exact absurd h hguard
  · exact h.2 r

/-- A protocol that allows bad operations only in some ghost states, which can be entered only by a
guarding operation, makes a program guarded from all other ghost states. -/
theorem Follows.guarded {closed : G → Prop} {Q : α → G → Prop}
    (hans : ∀ o, bad o → Nonempty (Ans o))
    (hnext : ∀ g o r g', next g o r g' → closed g → ¬ guard o → ¬ bad o ∧ closed g')
    (h : p.Follows next g Q) (hclosed : closed g) : p.Guarded guard bad := by
  induction p generalizing g with
  | ret a => trivial
  | call o k ih =>
      by_cases hguard : guard o
      · exact .inl hguard
      · refine .inr ⟨fun hbad => ?_, fun r => ?_⟩
        · obtain ⟨r⟩ := hans o hbad
          obtain ⟨g', hr, -⟩ := h r
          exact (hnext g o r g' hr hclosed hguard).1 hbad
        · obtain ⟨g', hr, hk⟩ := h r
          exact ih r hk (hnext g o r g' hr hclosed hguard).2

/-! ## What is left after an operation -/

/-- Every operation of the program satisfies `ψ` with the program after it, as long as the answers
are fit, and `Q` holds when it returns. -/
def Each (fit : (o : Op) → Ans o → Prop)
    (ψ : (α : Type) → (o : Op) → (Ans o → Prog Op Ans α) → Prop) :
    Prog Op Ans α → (α → Prop) → Prop
  | ret a, Q => Q a
  | call o k, Q => ψ α o k ∧ ∀ r, fit o r → (k r).Each fit ψ Q

variable {fit : (o : Op) → Ans o → Prop}
  {ψ : (α : Type) → (o : Op) → (Ans o → Prog Op Ans α) → Prop}

/-- The sequence rule, where `ψ` is about what comes first after the operation. -/
theorem Each.bind (hψ : ∀ (α β : Type) (o : Op) (k : Ans o → Prog Op Ans α) (f : α → Prog Op Ans β),
    ψ α o k → ψ β o fun r => (k r).bind f) {f : α → Prog Op Ans β} {Q : α → Prop} {R : β → Prop}
    (h : p.Each fit ψ Q) (hf : ∀ a, Q a → (f a).Each fit ψ R) : (p.bind f).Each fit ψ R := by
  induction p with
  | ret a => exact hf a h
  | call o k ih => exact ⟨hψ _ _ o k f h.1, fun r hr => ih r (h.2 r hr)⟩

theorem Every.each {φ : Op → Prop} (h : p.Every φ)
    (hφ : ∀ o (k : Ans o → Prog Op Ans α), φ o → ψ α o k) :
    p.Each fit ψ fun _ => True := by
  induction p with
  | ret a => trivial
  | call o k ih => exact ⟨hφ o k h.1, fun r _ => ih r (h.2 r)⟩

/-! ## Two programs that do the same -/

/-- The two programs perform the same operations and return the same, as long as the answers are
fit. -/
def Mirrors (fit : (o : Op) → Ans o → Prop) : Prog Op Ans α → Prog Op Ans α → Prop
  | ret a, q => q = ret a
  | call o k, q => ∃ k', q = call o k' ∧ ∀ r, fit o r → (k r).Mirrors fit (k' r)

namespace Mirrors

theorem refl (p : Prog Op Ans α) : p.Mirrors fit p := by
  induction p with
  | ret a => rfl
  | call o k ih => exact ⟨k, rfl, fun r _ => ih r⟩

theorem bind {q : Prog Op Ans α} {f f' : α → Prog Op Ans β} (h : p.Mirrors fit q)
    (hf : ∀ a, (f a).Mirrors fit (f' a)) : (p.bind f).Mirrors fit (q.bind f') := by
  induction p generalizing q with
  | ret a =>
      obtain rfl : q = ret a := h
      exact hf a
  | call o k ih =>
      obtain ⟨k', rfl, hk⟩ := h
      exact ⟨fun r => (k' r).bind f', rfl, fun r hr => ih r (hk r hr)⟩

theorem of_ret {a : α} (h : p.Mirrors fit (ret a)) : p = ret a := by
  cases p with
  | ret b => exact h.symm
  | call o k =>
      obtain ⟨k', hq, -⟩ := h
      cases hq

theorem of_call {o : Op} {k' : Ans o → Prog Op Ans α} (h : p.Mirrors fit (call o k')) :
    ∃ k, p = call o k ∧ ∀ r, fit o r → (k r).Mirrors fit (k' r) := by
  cases p with
  | ret b => cases (h : call o k' = ret b)
  | call o' k =>
      obtain ⟨k'', hq, hk⟩ := h
      obtain ⟨rfl, hk'⟩ := call.inj hq
      obtain rfl := eq_of_heq hk'
      exact ⟨k, rfl, hk⟩

end Mirrors

end Prog

end Tk1Bsp
