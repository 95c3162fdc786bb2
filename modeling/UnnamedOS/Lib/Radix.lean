import Mathlib.Data.List.Induction
import Mathlib.Logic.Function.Basic

/-!
# Radix trees in a memory of nodes

A node is an array of cells, and a cell may name a further node. Where no node is at the end of two
paths, a change of one cell changes what is behind that cell and nothing else.
-/

namespace UnnamedOS.Lib

variable {ν ι β : Type*}

/-- The node at the end of a path. -/
def descend (next : β → Option ν) (m : ν → ι → β) : ν → List ι → Option ν
  | r, [] => some r
  | r, i :: is => (next (m r i)).bind fun g => descend next m g is

/-- No node is at the end of two paths that are at most `d` long. -/
def IsTree (next : β → Option ν) (m : ν → ι → β) (r : ν) (d : ℕ) : Prop :=
  ∀ ps qs f, ps.length ≤ d → qs.length ≤ d →
    descend next m r ps = some f → descend next m r qs = some f → ps = qs

section Put

variable [DecidableEq ν] [DecidableEq ι]

/-- One cell is written. -/
def put (m : ν → ι → β) (f : ν) (i : ι) (q : β) : ν → ι → β :=
  Function.update m f (Function.update (m f) i q)

end Put

variable {next : β → Option ν} {m m' : ν → ι → β} {r f g : ν} {i j : ι} {ps qs : List ι} {q : β} {d : ℕ}

theorem descend_append (ps qs : List ι) :
    descend next m r (ps ++ qs) = (descend next m r ps).bind fun g => descend next m g qs := by
  induction ps generalizing r with
  | nil => rfl
  | cons i ps ih =>
      rw [List.cons_append, descend, descend]
      cases next (m r i) with
      | none => rfl
      | some g => exact ih

theorem descend_concat (ps : List ι) (i : ι) :
    descend next m r (ps ++ [i]) = (descend next m r ps).bind fun g => next (m g i) := by
  rw [descend_append]
  cases descend next m r ps with
  | none => rfl
  | some g =>
      rw [Option.bind_some, Option.bind_some, descend]
      cases next (m g i) with
      | none => rfl
      | some h => rfl

theorem descend_concat_some (ps : List ι) (h : descend next m r (ps ++ [i]) = some f) :
    ∃ g, descend next m r ps = some g ∧ next (m g i) = some f := by
  rw [descend_concat] at h
  exact Option.bind_eq_some_iff.mp h

theorem descend_congr
    (h : ∀ qs i f, qs ++ [i] <+: ps → descend next m r qs = some f → next (m' f i) = next (m f i)) :
    descend next m' r ps = descend next m r ps := by
  induction ps using List.reverseRecOn with
  | nil => rfl
  | append_singleton ps i ih =>
      have hps := ih fun qs j f hpre => h qs j f (hpre.trans (List.prefix_append ps [i]))
      rw [descend_concat, descend_concat, hps]
      cases hf : descend next m r ps with
      | none => rfl
      | some f => exact h ps i f List.prefix_rfl hf

section Put

variable [DecidableEq ν] [DecidableEq ι]

theorem put_self (m : ν → ι → β) (f : ν) (i : ι) (q : β) : put m f i q f i = q := by
  rw [put, Function.update_self, Function.update_self]

theorem put_other (h : ¬ (g = f ∧ j = i)) : put m f i q g j = m g j := by
  rw [put]
  by_cases hg : g = f
  · subst hg
    rw [Function.update_self, Function.update_of_ne fun hj => h ⟨rfl, hj⟩]
  · rw [Function.update_of_ne hg]

/-- Paths that do not go through the cell are as they were. -/
theorem descend_put (hT : IsTree next m r d) (hps : descend next m r ps = some f) (hlen : ps.length ≤ d)
    (hqs : qs.length ≤ d + 1) (hout : ¬ ps ++ [i] <+: qs) :
    descend next (put m f i q) r qs = descend next m r qs := by
  apply descend_congr
  intro us j g hpre hg
  rw [put_other]
  rintro ⟨rfl, rfl⟩
  have hshort := hpre.length_le
  rw [List.length_append, List.length_singleton] at hshort
  obtain rfl := hT us ps g (by omega) hlen hg hps
  exact hout hpre

theorem descend_put_path (hT : IsTree next m r d) (hps : descend next m r ps = some f)
    (hlen : ps.length ≤ d) :
    descend next (put m f i q) r ps = some f := by
  rw [descend_put hT hps hlen (by omega), hps]
  intro hpre
  have hshort := hpre.length_le
  rw [List.length_append, List.length_singleton] at hshort
  omega

/-- Paths through the cell. -/
theorem descend_put_through (hT : IsTree next m r d) (hps : descend next m r ps = some f)
    (hlen : ps.length ≤ d) (qs : List ι) :
    descend next (put m f i q) r (ps ++ i :: qs) =
      (next q).bind fun g => descend next (put m f i q) g qs := by
  rw [descend_append, descend_put_path hT hps hlen, Option.bind_some, descend, put_self]

/-- A node that a cell may name: nothing at the bottom of a tree, and a new empty node above. -/
def Linked (next : β → Option ν) (m : ν → ι → β) (r : ν) (d : ℕ) (ps : List ι) (q : β) : Prop :=
  ∀ g, next q = some g → ps.length < d →
    (∀ qs, qs.length ≤ d → descend next m r qs ≠ some g) ∧ ∀ j, next (m g j) = none

/-- Where a path ends when the cell is written. -/
theorem descend_put_cases (hT : IsTree next m r d) (hps : descend next m r ps = some f)
    (hlen : ps.length ≤ d)
    (hq : Linked next m r d ps q) (hqs : qs.length ≤ d)
    (hg : descend next (put m f i q) r qs = some g) :
    (descend next m r qs = some g ∧ ¬ ps ++ [i] <+: qs) ∨
      (qs = ps ++ [i] ∧ ps.length < d ∧ next q = some g) := by
  by_cases hpre : ps ++ [i] <+: qs
  · right
    obtain ⟨rest, rfl⟩ := hpre
    rw [List.length_append, List.length_append, List.length_singleton] at hqs
    rw [List.append_assoc, List.singleton_append, descend_put_through hT hps hlen] at hg
    cases hnext : next q with
    | none =>
        rw [hnext] at hg
        cases hg
    | some h =>
        rw [hnext, Option.bind_some] at hg
        obtain ⟨hfresh, hempty⟩ := hq h hnext (by omega)
        cases rest with
        | nil => exact ⟨List.append_nil _, by omega, hg⟩
        | cons j rest =>
            have hne : h ≠ f := by
              rintro rfl
              exact hfresh ps hlen hps
            rw [descend, put_other fun heq => hne heq.1, hempty j] at hg
            cases hg
  · left
    rw [descend_put hT hps hlen (by omega) hpre] at hg
    exact ⟨hg, hpre⟩

/-- A tree keeps its shape. -/
theorem IsTree.put (hT : IsTree next m r d) (hps : descend next m r ps = some f) (hlen : ps.length ≤ d)
    (hq : Linked next m r d ps q) : IsTree next (put m f i q) r d := by
  intro us vs g hus hvs hu hv
  rcases descend_put_cases hT hps hlen hq hus hu with ⟨hu', -⟩ | ⟨rfl, hd, hnext⟩
  · rcases descend_put_cases hT hps hlen hq hvs hv with ⟨hv', -⟩ | ⟨rfl, hd, hnext⟩
    · exact hT us vs g hus hvs hu' hv'
    · exact absurd hu' ((hq g hnext hd).1 us hus)
  · rcases descend_put_cases hT hps hlen hq hvs hv with ⟨hv', -⟩ | ⟨rfl, -, -⟩
    · exact absurd hv' ((hq g hnext hd).1 vs hvs)
    · rfl

end Put

end UnnamedOS.Lib
