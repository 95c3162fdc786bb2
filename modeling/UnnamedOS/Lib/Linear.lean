import Mathlib.Init

/-!
# Slots that own what they hold

A thing is in one slot at most, and a slot holds live things only. Giving a fresh thing to a slot,
dropping a thing with its slot, and moving one between slots keep this.
-/

namespace UnnamedOS.Lib

/-- `holds i a`: slot `i` holds `a`. -/
structure Linear {ι α : Type} (holds : ι → α → Prop) (live : α → Prop) : Prop where
  live : ∀ {i a}, holds i a → live a
  unique : ∀ {i j a}, holds i a → holds j a → i = j

namespace Linear

variable {ι α : Type} {holds holds' : ι → α → Prop} {live live' : α → Prop} {a : α} {i j : ι}

theorem restrict (h : Linear holds live) (hsub : ∀ k b, holds' k b → holds k b) :
    Linear holds' live where
  live := fun hk => h.live (hsub _ _ hk)
  unique := fun hk hl => h.unique (hsub _ _ hk) (hsub _ _ hl)

/-- A slot gets a thing that was not live. -/
theorem give (h : Linear holds live) (ha : ¬ live a)
    (hsub : ∀ k b, holds' k b → k = i ∧ b = a ∨ holds k b) (hnew : live' a)
    (hlive : ∀ b, live b → live' b) : Linear holds' live' where
  live := by
    intro k b hk
    rcases hsub k b hk with ⟨-, rfl⟩ | hold
    · exact hnew
    · exact hlive b (h.live hold)
  unique := by
    intro k l b hk hl
    rcases hsub k b hk with ⟨rfl, rfl⟩ | hold
    · rcases hsub l b hl with ⟨rfl, -⟩ | hold'
      · rfl
      · exact absurd (h.live hold') ha
    · rcases hsub l b hl with ⟨rfl, rfl⟩ | hold'
      · exact absurd (h.live hold) ha
      · exact h.unique hold hold'

/-- A slot loses its thing, which dies. -/
theorem drop (h : Linear holds live) (hi : holds i a)
    (hsub : ∀ k b, holds' k b → k ≠ i ∧ holds k b) (hlive : ∀ b, b ≠ a → live b → live' b) :
    Linear holds' live' where
  live := by
    intro k b hk
    obtain ⟨hne, hold⟩ := hsub k b hk
    have hother : b ≠ a := fun heq => hne (h.unique (heq ▸ hold) hi)
    exact hlive b hother (h.live hold)
  unique := fun hk hl => h.unique (hsub _ _ hk).2 (hsub _ _ hl).2

/-- Slot `j` gets what slot `i` held, and slot `i` is empty then. -/
theorem move (h : Linear holds live)
    (hsub : ∀ k b, holds' k b → k = j ∧ holds i b ∨ k ≠ i ∧ holds k b) : Linear holds' live where
  live := by
    intro k b hk
    rcases hsub k b hk with ⟨-, hold⟩ | ⟨-, hold⟩
    · exact h.live hold
    · exact h.live hold
  unique := by
    intro k l b hk hl
    rcases hsub k b hk with ⟨rfl, hold⟩ | ⟨hne, hold⟩
    · rcases hsub l b hl with ⟨rfl, -⟩ | ⟨hne', hold'⟩
      · rfl
      · exact absurd (h.unique hold' hold) hne'
    · rcases hsub l b hl with ⟨rfl, hold'⟩ | ⟨-, hold'⟩
      · exact absurd (h.unique hold hold') hne
      · exact h.unique hold hold'

end Linear

end UnnamedOS.Lib
