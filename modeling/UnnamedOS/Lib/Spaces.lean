import Mathlib.Logic.Function.Basic

/-!
# Private memories in one store

Several owners reach the cells of one memory, each through a map of its own. Where no cell is
reached twice, an owner finds at every address what it has stored there last.
-/

namespace UnnamedOS.Lib

variable {τ α κ β : Type*} {place place' : τ → α → Option κ} {mem mem' : κ → β}
  {stored : τ → α → Option β} {t u : τ} {a b : α} {k : κ} {x : β}

/-- No cell is reached by two owners or at two addresses. -/
def Apart (place : τ → α → Option κ) : Prop :=
  ∀ t a u b k, place t a = some k → place u b = some k → t = u ∧ a = b

/-- What an owner sees at an address. -/
def view (place : τ → α → Option κ) (mem : κ → β) (t : τ) (a : α) : Option β :=
  (place t a).map mem

/-- Every owner sees what it has stored. -/
def Tracks (place : τ → α → Option κ) (mem : κ → β) (stored : τ → α → Option β) : Prop :=
  ∀ t a x, stored t a = some x → view place mem t a = some x

theorem view_some (h : place t a = some k) : view place mem t a = some (mem k) := by
  rw [view, h, Option.map_some]

theorem view_ne_none (h : view place mem t a = some x) : ∃ k, place t a = some k ∧ mem k = x := by
  rw [view] at h
  exact Option.map_eq_some_iff.mp h

section Store

variable [DecidableEq τ] [DecidableEq α] [DecidableEq κ]

/-- The record of one more store. -/
def recorded (stored : τ → α → Option β) (t : τ) (a : α) (x : β) : τ → α → Option β :=
  Function.update stored t (Function.update (stored t) a (some x))

theorem recorded_self : recorded stored t a x t a = some x := by
  rw [recorded, Function.update_self, Function.update_self]

theorem recorded_other (h : ¬ (u = t ∧ b = a)) : recorded stored t a x u b = stored u b := by
  rw [recorded]
  by_cases hu : u = t
  · subst hu
    rw [Function.update_self, Function.update_of_ne fun hb => h ⟨rfl, hb⟩]
  · rw [Function.update_of_ne hu]

/-- A store is seen by the owner at the address, and by nobody anywhere else. -/
theorem view_store (h : Apart place) (hk : place t a = some k) (u : τ) (b : α) :
    view place (Function.update mem k x) u b =
      if u = t ∧ b = a then some x else view place mem u b := by
  split
  · rename_i hsame
    obtain ⟨rfl, rfl⟩ := hsame
    rw [view_some hk, Function.update_self]
  · rename_i hother
    rw [view, view]
    cases hub : place u b with
    | none => rfl
    | some k' =>
        have hne : k' ≠ k := by
          rintro rfl
          exact hother (h u b t a k' hub hk)
        rw [Option.map_some, Option.map_some, Function.update_of_ne hne]

theorem Tracks.store (h : Tracks place mem stored) (hapart : Apart place)
    (hk : place t a = some k) : Tracks place (Function.update mem k x) (recorded stored t a x) := by
  intro u b y hy
  rw [view_store hapart hk]
  split
  · rename_i hsame
    obtain ⟨rfl, rfl⟩ := hsame
    rwa [recorded_self] at hy
  · rename_i hother
    rw [recorded_other hother] at hy
    exact h u b y hy

end Store

/-- Maps that grow, and writes to cells that nobody reaches. -/
theorem Tracks.grow (h : Tracks place mem stored)
    (hplace : ∀ t a k, place t a = some k → place' t a = some k)
    (hmem : ∀ t a k, place t a = some k → mem' k = mem k) : Tracks place' mem' stored := by
  intro t a x hx
  obtain ⟨k, hk, rfl⟩ := view_ne_none (h t a x hx)
  rw [view_some (hplace t a k hk), hmem t a k hk]

end UnnamedOS.Lib
