import Mathlib.Data.List.Basic

/-!
# Labelled runs, their invariants, and what an observer sees of them

A component is a step relation `step s e o s'`: in state `s` the event `e` may return `o` and
leave the state `s'`.  This file has the three arguments that are made about such a relation
once its single steps are understood.

* `Run.invariant` carries a predicate from one step to a whole run.
* `Run.simulates` builds a run of the component beside the run of a total reference machine.
* `observed_eq_of_unwinding` is the two-run argument: an observer who cannot see some events
  sees the same thing in any two runs that agree on the events it can see.

Nothing here depends on what the states or the events are.
-/

namespace Tk1Bsp
namespace Transition

variable {σ ε ω : Type*}

/-- A run of `step`: the events in order, what each of them returned, and the final state. -/
inductive Run (step : σ → ε → ω → σ → Prop) : σ → List ε → List ω → σ → Prop
  | nil (s : σ) : Run step s [] [] s
  | cons {s s' s'' : σ} {e : ε} {o : ω} {es : List ε} {os : List ω} :
      step s e o s' → Run step s' es os s'' → Run step s (e :: es) (o :: os) s''

variable {step : σ → ε → ω → σ → Prop}

namespace Run

theorem single {s s' : σ} {e : ε} {o : ω} (h : step s e o s') : Run step s [e] [o] s' :=
  .cons h (.nil s')

theorem append {s s' s'' : σ} {es fs : List ε} {os ps : List ω}
    (h : Run step s es os s') (h' : Run step s' fs ps s'') :
    Run step s (es ++ fs) (os ++ ps) s'' := by
  induction h with
  | nil => exact h'
  | cons hstep _ ih => exact .cons hstep (ih h')

/-- The invariance rule: what every step preserves, every run preserves. -/
theorem invariant {I : σ → Prop} (hstep : ∀ s e o s', I s → step s e o s' → I s')
    {s s' : σ} {es : List ε} {os : List ω} (h : Run step s es os s') (h₀ : I s) : I s' := by
  induction h with
  | nil => exact h₀
  | cons hs _ ih => exact ih (hstep _ _ _ _ h₀ hs)

theorem mono {step' : σ → ε → ω → σ → Prop}
    (hsub : ∀ s e o s', step s e o s' → step' s e o s')
    {s s' : σ} {es : List ε} {os : List ω} (h : Run step s es os s') : Run step' s es os s' := by
  induction h with
  | nil => exact .nil _
  | cons hs _ ih => exact .cons (hsub _ _ _ _ hs) ih

end Run

/-- The states a component can be in after any run from one of its initial states. -/
def Reachable (step : σ → ε → ω → σ → Prop) (init : σ → Prop) (s : σ) : Prop :=
  ∃ i es os, init i ∧ Run step i es os s

theorem Reachable.of_init {init : σ → Prop} {s : σ} (h : init s) : Reachable step init s :=
  ⟨s, [], [], h, .nil s⟩

theorem Reachable.next {init : σ → Prop} {s s' : σ} {e : ε} {o : ω}
    (h : Reachable step init s) (hs : step s e o s') : Reachable step init s' := by
  obtain ⟨i, es, os, hi, hrun⟩ := h
  exact ⟨i, es ++ [e], os ++ [o], hi, hrun.append (.single hs)⟩

theorem Reachable.mono {step' : σ → ε → ω → σ → Prop}
    (hsub : ∀ s e o s', step s e o s' → step' s e o s') {init : σ → Prop} {s : σ}
    (h : Reachable step init s) : Reachable step' init s := by
  obtain ⟨i, es, os, hi, hrun⟩ := h
  exact ⟨i, es, os, hi, hrun.mono hsub⟩

theorem Reachable.invariant {init I : σ → Prop} (hinit : ∀ s, init s → I s)
    (hstep : ∀ s e o s', I s → step s e o s' → I s') {s : σ} (h : Reachable step init s) : I s := by
  obtain ⟨i, es, os, hi, hrun⟩ := h
  exact hrun.invariant hstep (hinit i hi)

/-- The end of a computed run is reachable, if each computed step is one. -/
theorem Reachable.foldlM_of {f : σ → ε → Option σ} {init : σ → Prop} {s s' : σ} {es : List ε}
    (hf : ∀ s e s', f s e = some s' → ∃ o, step s e o s') (h : es.foldlM f s = some s')
    (hs : Reachable step init s) : Reachable step init s' := by
  induction es generalizing s with
  | nil => exact Option.some.inj h ▸ hs
  | cons e es ih =>
      rw [List.foldlM_cons] at h
      obtain ⟨s₁, hstep, hrest⟩ := Option.bind_eq_some_iff.1 h
      obtain ⟨o, hstep⟩ := hf s e s₁ hstep
      exact ih hrest (hs.next hstep)

theorem Reachable.foldlM {f : σ → ε → Option σ} {init : σ → Prop} {s s' : σ} {es : List ε}
    (h : es.foldlM f s = some s')
    (hs : Reachable (fun s e (_ : Unit) s' => f s e = some s') init s) :
    Reachable (fun s e (_ : Unit) s' => f s e = some s') init s' :=
  hs.foldlM_of (fun _ _ _ hstep => ⟨(), hstep⟩) h

/-- The same where each step is taken only if a condition holds, and returns something. -/
theorem Reachable.foldlM_if {f : σ → ε → Option (ω × σ)} {p : σ → ε → Prop}
    [∀ s e, Decidable (p s e)] {init : σ → Prop} {s s' : σ} {es : List ε}
    (h : es.foldlM (fun s e => if p s e then (f s e).map Prod.snd else none) s = some s')
    (hs : Reachable (fun s e o s' => f s e = some (o, s') ∧ p s e) init s) :
    Reachable (fun s e o s' => f s e = some (o, s') ∧ p s e) init s' := by
  refine hs.foldlM_of (fun s e s' hstep => ?_) h
  split at hstep
  · rename_i hp
    obtain ⟨⟨o, _⟩, hf, rfl⟩ := Option.map_eq_some_iff.1 hstep
    exact ⟨o, hf, hp⟩
  · cases hstep

/-! ## What a list of events leads through -/

section Visits

variable (step)

/-- The states that a component can be in when it handles the events of the list in order, as far as
they can be handled. -/
def Visits : σ → List ε → σ → Prop
  | s₀, [], s => s = s₀
  | s₀, e :: es, s => s = s₀ ∨ ∃ o s₁, step s₀ e o s₁ ∧ Visits s₁ es s

/-- The component can come to the state `s`, and the event `e` is the next one. -/
def Takes : σ → List ε → σ → ε → Prop
  | _, [], _, _ => False
  | s₀, e :: es, s, a => (s = s₀ ∧ a = e) ∨ ∃ o s₁, step s₀ e o s₁ ∧ Takes s₁ es s a

variable {step}

theorem Visits.start (s₀ : σ) (es : List ε) : Visits step s₀ es s₀ := by
  cases es with
  | nil => rfl
  | cons e es => exact .inl rfl

/-- The end of a computed run is visited. -/
theorem Visits.of_foldlM {f : σ → ε → Option σ} {s₀ s : σ} {es : List ε}
    (h : es.foldlM f s₀ = some s) :
    Visits (fun s e (_ : Unit) s' => f s e = some s') s₀ es s := by
  induction es generalizing s₀ with
  | nil => exact (Option.some.inj h).symm
  | cons e es ih =>
      rw [List.foldlM_cons] at h
      obtain ⟨s₁, hstep, hrest⟩ := Option.bind_eq_some_iff.1 h
      exact .inr ⟨(), s₁, hstep, ih hrest⟩

theorem Takes.mem {s₀ s : σ} {es : List ε} {e : ε} (h : Takes step s₀ es s e) : e ∈ es := by
  induction es generalizing s₀ with
  | nil => exact h.elim
  | cons e' es ih =>
      rcases h with ⟨-, rfl⟩ | ⟨o, s₁, -, hrest⟩
      · exact List.mem_cons_self
      · exact List.mem_cons_of_mem e' (ih hrest)

theorem Takes.run {s₀ s : σ} {es : List ε} {e : ε} (h : Takes step s₀ es s e) :
    ∃ es' os, Run step s₀ es' os s := by
  induction es generalizing s₀ with
  | nil => exact h.elim
  | cons e' es ih =>
      rcases h with ⟨rfl, -⟩ | ⟨o, s₁, hstep, hrest⟩
      · exact ⟨[], [], .nil s⟩
      · obtain ⟨es', os, hrun⟩ := ih hrest
        exact ⟨e' :: es', o :: os, .cons hstep hrun⟩

/-- A property that is lost exactly by bad steps.  The invariant `I` implies it and is kept by all
other steps, and a bad step can be taken and leads to a state without the property. -/
theorem visits_iff {I P : σ → Prop} {Bad : σ → ε → Prop} (hI : ∀ s, I s → P s)
    (hstep : ∀ s e o s', I s → step s e o s' → ¬ Bad s e → I s')
    (hbad : ∀ s e, I s → Bad s e → ∃ o s', step s e o s' ∧ ¬ P s') {s₀ : σ} (h₀ : I s₀)
    {es : List ε} :
    (∀ s, Visits step s₀ es s → P s) ↔ ∀ s e, Takes step s₀ es s e → ¬ Bad s e := by
  induction es generalizing s₀ with
  | nil =>
      refine iff_of_true ?_ fun s e h => h.elim
      rintro s rfl
      exact hI s h₀
  | cons e es ih =>
      constructor
      · intro hP
        have hgood : ¬ Bad s₀ e := fun hBad => by
          obtain ⟨o, s', hs, hno⟩ := hbad s₀ e h₀ hBad
          exact hno (hP s' (.inr ⟨o, s', hs, .start s' es⟩))
        rintro s a (⟨rfl, rfl⟩ | ⟨o, s₁, hs, htakes⟩)
        · exact hgood
        · exact (ih (hstep _ _ _ _ h₀ hs hgood)).1
            (fun s hs' => hP s (.inr ⟨o, s₁, hs, hs'⟩)) s a htakes
      · rintro hgood s (rfl | ⟨o, s₁, hs, hvisits⟩)
        · exact hI s h₀
        · exact (ih (hstep _ _ _ _ h₀ hs (hgood s₀ e (.inl ⟨rfl, rfl⟩)))).2
            (fun s a htakes => hgood s a (.inr ⟨o, s₁, hs, htakes⟩)) s hvisits

end Visits

/-! ## Runs beside a reference machine -/

section Simulation

variable {α ν : Type*} (next : α → ε → ν × α) (ok : α → ε → Prop)

/-- The answers of a total reference machine along a list of events. -/
def answers : α → List ε → List ν
  | _, [] => []
  | a, e :: es => (next a e).1 :: answers (next a e).2 es

/-- Every event of the list satisfies `ok` in the state in which the machine meets it. -/
def AllOk : α → List ε → Prop
  | _, [] => True
  | a, e :: es => ok a e ∧ AllOk (next a e).2 es

variable {next ok}

/-- Forward simulation: where each single event can be matched, so can a whole run. -/
theorem Run.simulates {R : σ → α → Prop} {view : ω → ν}
    (hmatch : ∀ s a e, R s a → ok a e →
      ∃ o s', step s e o s' ∧ view o = (next a e).1 ∧ R s' (next a e).2) :
    ∀ {es : List ε} {s : σ} {a : α}, R s a → AllOk next ok a es →
      ∃ os s', Run step s es os s' ∧ os.map view = answers next a es
  | [], s, _, _, _ => ⟨[], s, .nil s, rfl⟩
  | e :: es, s, a, hR, hok => by
      obtain ⟨o, s', hs, ho, hR'⟩ := hmatch s a e hR hok.1
      obtain ⟨os, s'', hrun, hos⟩ := Run.simulates hmatch hR' hok.2
      exact ⟨o :: os, s'', .cons hs hrun, by simp [answers, ho, hos]⟩

/-- Where every outcome of every event is matched, every run returns the machine's answers. -/
theorem Run.answers_eq {R : σ → α → Prop} {view : ω → ν}
    (hmatch : ∀ s a e o s', R s a → ok a e → step s e o s' →
      view o = (next a e).1 ∧ R s' (next a e).2)
    {s s' : σ} {es : List ε} {os : List ω} (hrun : Run step s es os s') :
    ∀ {a : α}, R s a → AllOk next ok a es → os.map view = answers next a es := by
  induction hrun with
  | nil s =>
      intro a _ _
      rfl
  | cons hs _ ih =>
      intro a hR hok
      obtain ⟨hview, hR'⟩ := hmatch _ _ _ _ _ hR hok.1 hs
      rw [List.map_cons, hview, ih hR' hok.2]
      rfl

end Simulation

/-! ## Two runs and one observer -/

section Unwinding

variable {ν : Type*} (visible : ε → Bool) (view : ε → ω → ν)

/-- What an observer who sees only the `visible` events, through `view`, records of a run. -/
def observed (es : List ε) (os : List ω) : List ν :=
  ((es.zip os).filter (fun p => visible p.1)).map (fun p => view p.1 p.2)

@[simp] theorem observed_nil (os : List ω) : observed visible view [] os = [] := by
  simp [observed]

variable {visible view}

theorem observed_cons_of_visible {e : ε} (he : visible e = true) (o : ω) (es : List ε)
    (os : List ω) :
    observed visible view (e :: es) (o :: os) = view e o :: observed visible view es os := by
  simp [observed, he]

theorem observed_cons_of_hidden {e : ε} (he : visible e = false) (o : ω) (es : List ε)
    (os : List ω) :
    observed visible view (e :: es) (o :: os) = observed visible view es os := by
  simp [observed, he]

/-- The unwinding argument.  `E` relates states the observer cannot tell apart: an invisible
event leaves the left state related to the right one, and a visible event taken on both sides
looks the same and keeps the states related.  `I` is an invariant both sides may rely on. -/
theorem observed_eq_of_unwinding {I : σ → Prop} {E : σ → σ → Prop}
    (hI : ∀ s e o s', I s → step s e o s' → I s')
    (hsymm : ∀ s t, E s t → E t s)
    (hskip : ∀ s e o s' t, I s → step s e o s' → visible e = false → E s t → E s' t)
    (hsync : ∀ s e o s' t o' t', I s → I t → E s t → visible e = true →
      step s e o s' → step t e o' t' → view e o = view e o' ∧ E s' t')
    {s s' : σ} {es : List ε} {os : List ω} (hs : Run step s es os s') :
    ∀ {t t' : σ} {fs : List ε} {ps : List ω}, Run step t fs ps t' → I s → I t → E s t →
      es.filter visible = fs.filter visible →
      observed visible view es os = observed visible view fs ps := by
  induction hs with
  | nil s =>
      intro t t' fs ps ht
      induction ht with
      | nil => intros; rfl
      | @cons t t₁ t₂ e o fs ps hstep _ ih =>
          intro hIs hIt hE hvis
          have he : visible e = false := by
            have := hvis.symm
            simp only [List.filter_nil, List.filter_eq_nil_iff] at this
            simpa using this e (List.mem_cons_self ..)
          rw [observed_cons_of_hidden he]
          refine ih hIs (hI _ _ _ _ hIt hstep) ?_ (by simpa [he] using hvis)
          exact hsymm _ _ (hskip _ _ _ _ _ hIt hstep he (hsymm _ _ hE))
  | @cons s s₁ s₂ e o es os hstep _ ih =>
      intro t t' fs ps ht hIs hIt hE hvis
      cases he : visible e with
      | false =>
          rw [observed_cons_of_hidden he]
          exact ih ht (hI _ _ _ _ hIs hstep) hIt (hskip _ _ _ _ _ hIs hstep he hE)
            (by simpa [he] using hvis)
      | true =>
          -- the right run may first take events the observer does not see
          induction ht with
          | nil => simp [he] at hvis
          | @cons t t₁ t₂ f p fs ps hstep' hrun' ih' =>
              cases hf : visible f with
              | false =>
                  rw [observed_cons_of_hidden hf]
                  refine ih' (hI _ _ _ _ hIt hstep') ?_ (by simpa [hf] using hvis)
                  exact hsymm _ _ (hskip _ _ _ _ _ hIt hstep' hf (hsymm _ _ hE))
              | true =>
                  simp only [List.filter_cons, he, hf, if_true, List.cons.injEq] at hvis
                  obtain ⟨rfl, hvis⟩ := hvis
                  obtain ⟨hview, hE'⟩ := hsync _ _ _ _ _ _ _ hIs hIt hE he hstep hstep'
                  rw [observed_cons_of_visible he, observed_cons_of_visible he, hview,
                    ih hrun' (hI _ _ _ _ hIs hstep) (hI _ _ _ _ hIt hstep') hE' hvis]

end Unwinding

end Transition
end Tk1Bsp
