import Mathlib.Logic.Relation

/-!
# What every run comes to

`Leads step Q s` says that a run from `s` cannot avoid `Q`: it does not get stuck before, nor go on
for ever, whatever it does where it has a choice.
-/

namespace UnnamedOS.Lib

variable {σ : Type*} {step : σ → σ → Prop} {Q Q' : σ → Prop} {s s' : σ}

inductive Leads (step : σ → σ → Prop) (Q : σ → Prop) : σ → Prop
  | done {s : σ} (h : Q s) : Leads step Q s
  | step {s : σ} (h : ∃ s', step s s') (hall : ∀ s', step s s' → Leads step Q s') : Leads step Q s

theorem Leads.mono (h : Leads step Q s) (hQ : ∀ s, Q s → Q' s) : Leads step Q' s := by
  induction h with
  | done h => exact .done (hQ _ h)
  | step h _ ih => exact .step h ih

/-- Where there is no choice. -/
theorem Leads.next (h : step s s') (hone : ∀ t, step s t → t = s') (hs : Leads step Q s') :
    Leads step Q s :=
  .step ⟨s', h⟩ fun t ht => hone t ht ▸ hs

/-- A run that has got to where no step is left has got to `Q`, if `Q` is where no step is left. -/
theorem Leads.at_end (h : Leads step Q s) (hQ : ∀ s, Q s → ∀ t, ¬ step s t)
    (hrun : Relation.ReflTransGen step s s') (hend : ∀ t, ¬ step s' t) : Q s' := by
  induction h with
  | @done s h =>
      rcases hrun.cases_head with rfl | ⟨u, hu, -⟩
      · exact h
      · exact absurd hu (hQ s h u)
  | @step s h _ ih =>
      rcases hrun.cases_head with rfl | ⟨u, hu, hrest⟩
      · obtain ⟨t, ht⟩ := h
        exact absurd ht (hend t)
      · exact ih u hu hrest

/-- Some run gets there. -/
theorem Leads.exists_run (h : Leads step Q s) : ∃ s', Relation.ReflTransGen step s s' ∧ Q s' := by
  induction h with
  | @done s h => exact ⟨s, .refl, h⟩
  | @step s h _ ih =>
      obtain ⟨u, hu⟩ := h
      obtain ⟨s', hrun, hQ⟩ := ih u hu
      exact ⟨s', .head hu hrun, hQ⟩

end UnnamedOS.Lib
