import Mathlib.Data.List.Basic

/-!
# Runs of a labelled transition system

`Run step s ls s'` executes the labels `ls` in order. Labels that have to meet a
side condition in the state they are taken in are `Guarded`. An invariant that
every guarded step keeps holds at the end of every guarded run, and since a
prefix of a guarded run is one, in every state the run passes through.
-/

namespace UnnamedOS.Lib

variable {σ ι : Type*} {step : σ → ι → σ → Prop} {good : σ → ι → Prop} {s s' s'' : σ} {i : ι}
  {ls ls' : List ι}

inductive Run (step : σ → ι → σ → Prop) : σ → List ι → σ → Prop
  | nil (s : σ) : Run step s [] s
  | cons {s s' s'' : σ} {i : ι} {ls : List ι} :
      step s i s' → Run step s' ls s'' → Run step s (i :: ls) s''

/-- A step taken only where the side condition holds. -/
def Guarded (good : σ → ι → Prop) (step : σ → ι → σ → Prop) (s : σ) (i : ι) (s' : σ) : Prop :=
  good s i ∧ step s i s'

theorem run_append : Run step s (ls ++ ls') s'' ↔ ∃ s', Run step s ls s' ∧ Run step s' ls' s'' := by
  induction ls generalizing s with
  | nil =>
      constructor
      · intro h
        exact ⟨s, Run.nil s, h⟩
      · rintro ⟨s', hn, h⟩
        cases hn
        exact h
  | cons i ls ih =>
      constructor
      · intro h
        cases h with
        | cons hs hr =>
            obtain ⟨t, ht, hr'⟩ := ih.mp hr
            exact ⟨t, Run.cons hs ht, hr'⟩
      · rintro ⟨t, ht, hr⟩
        cases ht with
        | cons hs ht => exact Run.cons hs (ih.mpr ⟨t, ht, hr⟩)

theorem run_concat : Run step s (ls ++ [i]) s'' ↔ ∃ s', Run step s ls s' ∧ step s' i s'' := by
  rw [run_append]
  constructor
  · rintro ⟨t, ht, hr⟩
    cases hr with
    | cons hs hn => cases hn; exact ⟨t, ht, hs⟩
  · rintro ⟨t, ht, hs⟩
    exact ⟨t, ht, Run.cons hs (Run.nil s'')⟩

theorem run_of_guarded (h : Run (Guarded good step) s ls s') : Run step s ls s' := by
  induction h with
  | nil s => exact Run.nil s
  | cons hs _ ih => exact Run.cons hs.2 ih

/-- A side condition on the labels alone. -/
theorem run_guarded_iff {good : ι → Prop} :
    Run (Guarded (fun _ => good) step) s ls s' ↔ Run step s ls s' ∧ ∀ i ∈ ls, good i := by
  constructor
  · intro h
    induction h with
    | nil s => exact ⟨Run.nil s, fun i hi => absurd hi List.not_mem_nil⟩
    | cons hs _ ih => exact ⟨Run.cons hs.2 ih.1, List.forall_mem_cons.mpr ⟨hs.1, ih.2⟩⟩
  · rintro ⟨h, hgood⟩
    induction h with
    | nil s => exact Run.nil s
    | cons hs _ ih =>
        obtain ⟨hi, hls⟩ := List.forall_mem_cons.mp hgood
        exact Run.cons ⟨hi, hs⟩ (ih hls)

/-- The induction every safety theorem of this development goes through. -/
theorem run_invariant {inv : σ → Prop}
    (hstep : ∀ s i s', inv s → good s i → step s i s' → inv s')
    (h : Run (Guarded good step) s ls s') (h0 : inv s) : inv s' := by
  induction h with
  | nil s => exact h0
  | cons hs _ ih => exact ih (hstep _ _ _ h0 hs.1 hs.2)

/-- The case without a side condition. -/
theorem run_keeps {inv : σ → Prop} (hstep : ∀ s i s', inv s → step s i s' → inv s')
    (h : Run step s ls s') (h0 : inv s) : inv s' := by
  induction h with
  | nil s => exact h0
  | cons hs _ ih => exact ih (hstep _ _ _ h0 hs)

/-- A deterministic system has one run per label sequence. -/
theorem run_unique (hdet : ∀ s i t t', step s i t → step s i t' → t = t')
    (h : Run step s ls s') (h' : Run step s ls s'') : s' = s'' := by
  induction h with
  | nil s => cases h'; rfl
  | cons hs _ ih =>
      cases h' with
      | cons hs' hr' =>
          obtain rfl := hdet _ _ _ _ hs hs'
          exact ih hr'

/-- A run that leaves the invariant has a first bad label: the prefix before it is
guarded, and the label itself is taken where its side condition fails. -/
theorem run_guarded_or_first_bad (h : Run step s ls s') :
    Run (Guarded good step) s ls s' ∨
      ∃ pre i post t t', ls = pre ++ i :: post ∧ Run (Guarded good step) s pre t ∧
        ¬ good t i ∧ step t i t' := by
  induction h with
  | nil s => exact Or.inl (Run.nil s)
  | @cons s t u i ls hs _ ih =>
      by_cases hg : good s i
      · rcases ih with hrun | ⟨pre, j, post, v, v', rfl, hpre, hbad, hstep⟩
        · exact Or.inl (Run.cons ⟨hg, hs⟩ hrun)
        · exact Or.inr ⟨i :: pre, j, post, v, v', rfl, Run.cons ⟨hg, hs⟩ hpre, hbad, hstep⟩
      · exact Or.inr ⟨[], i, ls, s, t, rfl, Run.nil s, hg, hs⟩

/-- Where good labels keep the invariant and bad ones break the property it implies, a run has the
property in every state exactly if all its labels are good. -/
theorem run_forall_iff_guarded {inv p : σ → Prop}
    (hdet : ∀ s i t t', step s i t → step s i t' → t = t') (hp : ∀ s, inv s → p s)
    (hgood : ∀ s i s', inv s → good s i → step s i s' → inv s')
    (hbad : ∀ s i s', inv s → ¬ good s i → step s i s' → ¬ p s') (h0 : inv s)
    (h : Run step s ls s') :
    (∀ pre post t, ls = pre ++ post → Run step s pre t → p t) ↔
      Run (Guarded good step) s ls s' := by
  constructor
  · intro hall
    have hfirst : Run (Guarded good step) s ls s' ∨ _ := run_guarded_or_first_bad h
    rcases hfirst with hrun | ⟨pre, i, post, t, t', rfl, hpre, hb, hstep⟩
    · exact hrun
    · have hprefix := run_concat.mpr ⟨t, run_of_guarded hpre, hstep⟩
      have hpt := hall (pre ++ [i]) post t' (by simp) hprefix
      exact absurd hpt (hbad t i t' (run_invariant hgood hpre h0) hb hstep)
  · rintro hrun pre post t rfl hpre
    obtain ⟨t', hpre', -⟩ := run_append.mp hrun
    obtain rfl := run_unique hdet hpre (run_of_guarded hpre')
    exact hp t (run_invariant hgood hpre' h0)

/-- Where a step has a property exactly if its label is good, every step of a run has it exactly if
all labels are good. -/
theorem run_steps_iff_guarded {inv : σ → Prop} {p : σ → ι → σ → Prop}
    (hdet : ∀ s i t t', step s i t → step s i t' → t = t')
    (hinv : ∀ s i s', inv s → step s i s' → inv s')
    (hp : ∀ s i s', inv s → step s i s' → (p s i s' ↔ good s i)) (h0 : inv s)
    (h : Run step s ls s') :
    (∀ pre i post t t', ls = pre ++ i :: post → Run step s pre t → step t i t' → p t i t') ↔
      Run (Guarded good step) s ls s' := by
  induction h with
  | nil s =>
      refine iff_of_true (fun pre i post t t' h => ?_) (Run.nil s)
      exact absurd h.symm (by simp)
  | @cons s u s' j ls hs _ ih =>
      have hu := hinv s j u h0 hs
      constructor
      · intro hall
        have hj := (hp s j u h0 hs).mp (hall [] j ls s u rfl (Run.nil s) hs)
        refine Run.cons ⟨hj, hs⟩ ((ih hu).mp fun pre i post t t' heq hpre hstep => ?_)
        exact hall (j :: pre) i post t t' (by rw [heq, List.cons_append]) (Run.cons hs hpre) hstep
      · intro hrun pre i post t t' heq hpre hstep
        cases hrun with
        | cons hj hrest =>
            obtain rfl := hdet s j _ _ hs hj.2
            cases hpre with
            | nil =>
                obtain ⟨rfl, rfl⟩ := List.cons.inj heq
                exact (hp _ _ _ h0 hstep).mpr hj.1
            | cons hs' hpre =>
                obtain ⟨rfl, rfl⟩ := List.cons.inj heq
                obtain rfl := hdet s _ _ _ hs hs'
                exact (ih hu).mpr hrest _ i post t t' rfl hpre hstep

/-- The run along given labels of a system whose steps are computed, if it gets to their end. -/
def follow {ε : Type*} (enabled : σ → ι → Prop) [∀ s i, Decidable (enabled s i)]
    (exec : σ → ι → Except ε σ) : σ → List ι → Option σ
  | s, [] => some s
  | s, i :: ls =>
    if enabled s i then
      match exec s i with
      | .ok s' => follow enabled exec s' ls
      | .error _ => none
    else none

theorem run_of_follow {ε : Type*} {enabled : σ → ι → Prop} [∀ s i, Decidable (enabled s i)]
    {exec : σ → ι → Except ε σ} (hstep : ∀ s i s', enabled s i → exec s i = .ok s' → step s i s')
    (h : follow enabled exec s ls = some s') : Run step s ls s' := by
  induction ls generalizing s with
  | nil =>
      rw [← Option.some.inj h]
      exact Run.nil s
  | cons i ls ih =>
      rw [follow] at h
      split at h
      · rename_i hen
        split at h
        · rename_i t ht
          exact Run.cons (hstep s i t hen ht) (ih h)
        · cases h
      · cases h

end UnnamedOS.Lib
