import Tk1Bsp.Framework.Transition

/-!
# Refinement of one step relation by another

A system of small steps refines one of large steps if each small step either looks like nothing or
like a large one, as seen through a relation between their states.  What is reachable in the first
is then related to something that is reachable in the second (`Reachable.refines`).  For the other
direction, each large step has to be made of small ones (`Reachable.realized`).

Where each step of the first has a step of the second for the same event, whole runs correspond
(`Run.simulated`).
-/

namespace Tk1Bsp
namespace Transition

variable {σ τ ε ε' ω ω' : Type*} {step : σ → ε → ω → σ → Prop} {step' : τ → ε' → ω' → τ → Prop}
  {init : σ → Prop} {init' : τ → Prop} {R : σ → τ → Prop}

theorem Reachable.run {s s' : σ} {es : List ε} {os : List ω} (h : Reachable step init s)
    (hrun : Run step s es os s') : Reachable step init s' := by
  obtain ⟨i, es', os', hi, hrun'⟩ := h
  exact ⟨i, es' ++ es, os' ++ os, hi, hrun'.append hrun⟩

/-- Forward simulation with stuttering. -/
theorem Reachable.refines (hinit : ∀ s, init s → ∃ t, init' t ∧ R s t)
    (hstep : ∀ s t e o s', R s t → step s e o s' →
      ∃ t', R s' t' ∧ (t' = t ∨ ∃ e' o', step' t e' o' t'))
    {s : σ} (h : Reachable step init s) : ∃ t, Reachable step' init' t ∧ R s t := by
  refine h.invariant (I := fun s => ∃ t, Reachable step' init' t ∧ R s t) (fun s hs => ?_) ?_
  · obtain ⟨t, ht, hR⟩ := hinit s hs
    exact ⟨t, .of_init ht, hR⟩
  · rintro s e o s' ⟨t, ht, hR⟩ hs
    obtain ⟨t', hR', rfl | ⟨e', o', ht'⟩⟩ := hstep s t e o s' hR hs
    · exact ⟨t', ht, hR'⟩
    · exact ⟨t', ht.next ht', hR'⟩

/-- The other direction: each large step can be made of small ones. -/
theorem Reachable.realized (hinit : ∀ t, init' t → ∃ s, init s ∧ R s t)
    (hstep : ∀ s t e o t', R s t → step' t e o t' → ∃ es os s', Run step s es os s' ∧ R s' t')
    {t : τ} (h : Reachable step' init' t) : ∃ s, Reachable step init s ∧ R s t := by
  refine h.invariant (I := fun t => ∃ s, Reachable step init s ∧ R s t) (fun t ht => ?_) ?_
  · obtain ⟨s, hs, hR⟩ := hinit t ht
    exact ⟨s, .of_init hs, hR⟩
  · rintro t e o t' ⟨s, hs, hR⟩ ht
    obtain ⟨es, os, s', hrun, hR'⟩ := hstep s t e o t' hR ht
    exact ⟨s', hs.run hrun, hR'⟩

/-- Forward simulation in lock-step. -/
theorem Run.simulated {step' : τ → ε → ω → τ → Prop}
    (hstep : ∀ s t e o s', R s t → step s e o s' → ∃ t', step' t e o t' ∧ R s' t')
    {s s' : σ} {es : List ε} {os : List ω} (h : Run step s es os s') {t : τ} (hR : R s t) :
    ∃ t', Run step' t es os t' ∧ R s' t' := by
  induction h generalizing t with
  | nil s => exact ⟨t, .nil t, hR⟩
  | cons hs _ ih =>
      obtain ⟨t₁, ht, hR₁⟩ := hstep _ t _ _ _ hR hs
      obtain ⟨t', hrun, hR'⟩ := ih hR₁
      exact ⟨t', .cons ht hrun, hR'⟩

/-- A computed run, if each computed step is one. -/
theorem Run.of_foldlM {f : σ → ε → Option σ} {s s' : σ} {es : List ε}
    (hf : ∀ s e s', f s e = some s' → ∃ o, step s e o s') (h : es.foldlM f s = some s') :
    ∃ os, Run step s es os s' := by
  induction es generalizing s with
  | nil => exact ⟨[], Option.some.inj h ▸ .nil s⟩
  | cons e es ih =>
      rw [List.foldlM_cons] at h
      obtain ⟨s₁, hstep, hrest⟩ := Option.bind_eq_some_iff.1 h
      obtain ⟨o, hstep⟩ := hf s e s₁ hstep
      obtain ⟨os, hrun⟩ := ih hrest
      exact ⟨o :: os, .cons hstep hrun⟩

/-- An invariant that speaks of what has happened so far. -/
theorem Run.invariant_along {I : List ε → σ → Prop}
    (hstep : ∀ es s e o s', I es s → step s e o s' → I (es ++ [e]) s')
    {s s' : σ} {es : List ε} {os : List ω} (h : Run step s es os s') {fs : List ε} (h₀ : I fs s) :
    I (fs ++ es) s' := by
  induction h generalizing fs with
  | nil s => rwa [List.append_nil]
  | cons hs _ ih =>
      have h := ih (hstep fs _ _ _ _ h₀ hs)
      rwa [List.append_assoc] at h

end Transition
end Tk1Bsp
