import Mathlib.Data.List.Basic

/-!
# Words between cuts

A scanner turns a text into items, cuts between words, and marks that belong to no word. Where it
takes several cuts on end for one, the words between them are lost, all of them empty.
-/

namespace UnnamedOS.Lib

inductive Piece (α : Type*) where
  | item (a : α)
  | mark
  | cut

variable {α : Type*} {ps qs : List (Piece α)} {a : α} {w : List α} {ws : List (List α)}

def Piece.isCut : Piece α → Bool
  | .cut => true
  | _ => false

/-- The word in front of the first cut. -/
def firstWord : List (Piece α) → List α
  | [] => []
  | .item a :: ps => a :: firstWord ps
  | .mark :: ps => firstWord ps
  | .cut :: _ => []

/-- The words behind the first cut. -/
def laterWords : List (Piece α) → List (List α)
  | [] => []
  | .item _ :: ps => laterWords ps
  | .mark :: ps => laterWords ps
  | .cut :: ps => firstWord ps :: laterWords ps

def words (ps : List (Piece α)) : List (List α) := firstWord ps :: laterWords ps

/-- One cut for any number of cuts on end. -/
def squeeze : List (Piece α) → List (Piece α)
  | [] => []
  | .cut :: .cut :: ps => squeeze (.cut :: ps)
  | p :: ps => p :: squeeze ps

theorem length_laterWords (ps : List (Piece α)) : (laterWords ps).length = ps.countP Piece.isCut := by
  induction ps with
  | nil => rfl
  | cons p ps ih => cases p <;> simp [laterWords, List.countP_cons, Piece.isCut, ih]

@[simp] theorem squeeze_item : squeeze (.item a :: ps) = .item a :: squeeze ps := by
  rw [squeeze]
  exact fun _ h => by cases h

@[simp] theorem squeeze_mark : squeeze (.mark :: ps : List (Piece α)) = .mark :: squeeze ps := by
  rw [squeeze]
  exact fun _ h => by cases h

/-- A run of cuts, and what is behind it. -/
theorem squeeze_cut (ps : List (Piece α)) :
    squeeze (.cut :: ps) = .cut :: squeeze (ps.dropWhile Piece.isCut) := by
  induction ps with
  | nil => rfl
  | cons p ps ih =>
      cases p with
      | cut => rw [squeeze, ih, List.dropWhile_cons_of_pos rfl]
      | item a =>
          rw [List.dropWhile_cons_of_neg (by simp [Piece.isCut]), squeeze]
          exact fun _ _ h => by cases h
      | mark =>
          rw [List.dropWhile_cons_of_neg (by simp [Piece.isCut]), squeeze]
          exact fun _ _ h => by cases h

theorem firstWord_squeeze (ps : List (Piece α)) : firstWord (squeeze ps) = firstWord ps := by
  induction ps using squeeze.induct with
  | case1 => rfl
  | case2 ps ih =>
      rw [squeeze, ih]
      rfl
  | case3 p ps hne ih =>
      rw [squeeze.eq_3 _ _ hne]
      cases p <;> simp [firstWord, ih]

/-- Only empty words are lost. -/
theorem laterWords_squeeze (ps : List (Piece α)) :
    (laterWords (squeeze ps)).Sublist (laterWords ps) := by
  induction ps using squeeze.induct with
  | case1 => exact List.Sublist.refl _
  | case2 ps ih =>
      rw [squeeze]
      exact List.Sublist.cons _ ih
  | case3 p ps hne ih =>
      rw [squeeze.eq_3 _ _ hne]
      cases p with
      | item a => exact ih
      | mark => exact ih
      | cut =>
          rw [laterWords, laterWords, firstWord_squeeze]
          exact List.Sublist.cons_cons _ ih

theorem squeeze_eq_self (h : ∀ w ∈ laterWords ps, w ≠ []) : squeeze ps = ps := by
  induction ps using squeeze.induct with
  | case1 => rfl
  | case2 ps ih => exact absurd rfl (h [] List.mem_cons_self)
  | case3 p ps hne ih =>
      rw [squeeze.eq_3 _ _ hne]
      congr 1
      apply ih
      cases p with
      | item a => exact h
      | mark => exact h
      | cut => exact fun w hw => h w (List.mem_cons_of_mem _ hw)

/-- No word is lost and none is empty exactly when none was empty before. -/
theorem words_squeeze_iff (ps : List (Piece α)) :
    ((words (squeeze ps)).length = (words ps).length ∧ ∀ w ∈ words (squeeze ps), w ≠ []) ↔
      ∀ w ∈ words ps, w ≠ [] := by
  constructor
  · rintro ⟨hlen, hne⟩
    have hlater : (laterWords (squeeze ps)).length = (laterWords ps).length := by
      simpa [words] using hlen
    have heq : words (squeeze ps) = words ps := by
      rw [words, words, firstWord_squeeze, (laterWords_squeeze ps).eq_of_length hlater]
    rw [← heq]
    exact hne
  · intro h
    rw [squeeze_eq_self fun w hw => h w (List.mem_cons_of_mem _ hw)]
    exact ⟨rfl, h⟩

end UnnamedOS.Lib
