import Mathlib.Data.List.Induction
import Mathlib.Logic.Function.Basic

/-!
# The last entry for a key

A table that is written entry by entry holds for every key what the last entry for it says.
-/

namespace UnnamedOS.Lib

variable {α β κ : Type*} {k : α → κ} {v : α → β} {l l' : List α} {c d : α} {x : κ} {y : β}

/-- `c` is the last entry for `x`. -/
def LastWith (k : α → κ) (x : κ) (l : List α) (c : α) : Prop :=
  ∃ before after, l = before ++ c :: after ∧ k c = x ∧ ∀ d ∈ after, k d ≠ x

theorem LastWith.mem (h : LastWith k x l c) : c ∈ l := by
  obtain ⟨before, after, rfl, -, -⟩ := h
  exact List.mem_append_right before List.mem_cons_self

theorem LastWith.key (h : LastWith k x l c) : k c = x := by
  obtain ⟨-, -, -, hkey, -⟩ := h
  exact hkey

theorem not_lastWith_nil : ¬ LastWith k x [] c := fun h => List.not_mem_nil h.mem

theorem lastWith_concat : LastWith k x (l ++ [d]) c ↔
    (k d = x ∧ c = d) ∨ (k d ≠ x ∧ LastWith k x l c) := by
  constructor
  · rintro ⟨before, after, heq, hkey, hafter⟩
    rcases List.eq_nil_or_concat after with rfl | ⟨after', d', rfl⟩
    · obtain ⟨rfl, hd⟩ := List.append_inj' heq rfl
      obtain rfl := (List.cons.inj hd).1
      exact .inl ⟨hkey, rfl⟩
    · have heq' : l ++ [d] = (before ++ c :: after') ++ [d'] := by
        rw [heq, List.append_assoc, List.cons_append, List.concat_eq_append]
      obtain ⟨rfl, hd⟩ := List.append_inj' heq' rfl
      obtain rfl := (List.cons.inj hd).1
      rw [List.concat_eq_append] at hafter
      exact .inr ⟨hafter d (List.mem_append_right after' List.mem_cons_self),
        before, after', rfl, hkey, fun e he => hafter e (List.mem_append_left _ he)⟩
  · rintro (⟨hkey, rfl⟩ | ⟨hne, before, after, rfl, hkey, hafter⟩)
    · exact ⟨l, [], rfl, hkey, fun e he => absurd he List.not_mem_nil⟩
    · refine ⟨before, after ++ [d], List.append_assoc .., hkey, fun e he => ?_⟩
      rcases List.mem_append.mp he with he | he
      · exact hafter e he
      · rw [List.mem_singleton.mp he]
        exact hne

theorem exists_lastWith (k : α → κ) (x : κ) (l : List α) :
    (∀ c ∈ l, k c ≠ x) ∨ ∃ c, LastWith k x l c := by
  induction l with
  | nil => exact .inl fun c hc => absurd hc List.not_mem_nil
  | cons d l ih =>
      rcases ih with hnone | ⟨c, before, after, rfl, hkey, hafter⟩
      · by_cases hd : k d = x
        · exact .inr ⟨d, [], l, rfl, hd, hnone⟩
        · exact .inl (List.forall_mem_cons.mpr ⟨hd, hnone⟩)
      · exact .inr ⟨c, d :: before, after, rfl, hkey, hafter⟩

/-- The table after all entries. -/
def writeAll [DecidableEq κ] (k : α → κ) (v : α → β) (m : κ → Option β) (l : List α) :
    κ → Option β :=
  l.foldl (fun m c => Function.update m (k c) (some (v c))) m

theorem writeAll_eq_some_iff [DecidableEq κ] {m : κ → Option β} (hm : m x = none) :
    writeAll k v m l x = some y ↔ ∃ c, LastWith k x l c ∧ v c = y := by
  induction l using List.reverseRecOn with
  | nil =>
      rw [writeAll, List.foldl_nil, hm]
      exact iff_of_false (fun h => (by cases h)) fun ⟨c, hc, _⟩ => not_lastWith_nil hc
  | append_singleton l d ih =>
      rw [writeAll, List.foldl_append]
      change Function.update (writeAll k v m l) (k d) (some (v d)) x = _ ↔ _
      by_cases hkey : k d = x
      · subst hkey
        rw [Function.update_self, Option.some.injEq]
        constructor
        · exact fun hval => ⟨d, lastWith_concat.mpr (.inl ⟨rfl, rfl⟩), hval⟩
        · rintro ⟨c, hc, hval⟩
          rcases lastWith_concat.mp hc with ⟨-, rfl⟩ | ⟨hne, -⟩
          · exact hval
          · exact absurd rfl hne
      · rw [Function.update_of_ne (Ne.symm hkey), ih]
        constructor
        · exact fun ⟨c, hc, hval⟩ => ⟨c, lastWith_concat.mpr (.inr ⟨hkey, hc⟩), hval⟩
        · rintro ⟨c, hc, hval⟩
          rcases lastWith_concat.mp hc with ⟨heq, -⟩ | ⟨-, hl⟩
          · exact absurd heq hkey
          · exact ⟨c, hl, hval⟩

end UnnamedOS.Lib
