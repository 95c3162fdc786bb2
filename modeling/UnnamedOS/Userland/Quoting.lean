import UnnamedOS.Userland.Arguments

/-!
# What quotes and backslashes say

`pieces` reads a string as the bytes of its arguments, the spaces that separate them, and the quotes
around them. Both scanners follow it, but the one that splits takes a run of spaces for one.
-/

namespace UnnamedOS.Userland.Arguments

open UnnamedOS.Lib

/-- There is none for a string that ends in a backslash outside of quotes. -/
def pieces : Quote → List UInt8 → Option (List (Piece UInt8))
  | _, [] => some []
  | q, c :: rest =>
    if c = backslash then
      match rest with
      | [] => if q = .closed then none else some [.item c]
      | d :: rest =>
        if q = .closed ∨ q.ends d ∨ d = backslash then (pieces q rest).map (.item d :: ·)
        else (pieces q (d :: rest)).map (.item c :: ·)
    else if c = quotationMark ∨ c = apostrophe then
      if q.ends c then (pieces .closed rest).map (.mark :: ·)
      else if q = .closed then
        (pieces (if c = apostrophe then .single else .double) rest).map (.mark :: ·)
      else (pieces q rest).map (.item c :: ·)
    else if c = space ∧ q = .closed then (pieces .closed rest).map (.cut :: ·)
    else (pieces q rest).map (.item c :: ·)

variable {q : Quote} {c d : UInt8} {rest s : List UInt8} {ps : List (Piece UInt8)}

/-! ## One byte -/

theorem pieces_nil : pieces q [] = some [] := by
  rw [pieces]

theorem pieces_escape (h : q = .closed ∨ q.ends d ∨ d = backslash) :
    pieces q (backslash :: d :: rest) = (pieces q rest).map (.item d :: ·) := by
  rw [pieces, if_pos rfl, if_pos h]

theorem pieces_backslash (h : ¬ (q = .closed ∨ q.ends d ∨ d = backslash)) :
    pieces q (backslash :: d :: rest) = (pieces q (d :: rest)).map (.item backslash :: ·) := by
  rw [pieces, if_pos rfl, if_neg h]

/-- A byte that stands for itself. -/
def Plain (q : Quote) (c : UInt8) : Prop :=
  c ≠ backslash ∧ (q = .closed → c ≠ quotationMark ∧ c ≠ apostrophe ∧ c ≠ space) ∧ q.ends c = false

theorem plain_of_not (h : ¬ (q = .closed ∨ q.ends c ∨ c = backslash)) : Plain q c := by
  rw [not_or, not_or] at h
  exact ⟨h.2.2, fun hq => absurd hq h.1, Bool.eq_false_iff.mpr h.2.1⟩

theorem pieces_plain (h : Plain q c) : pieces q (c :: rest) = (pieces q rest).map (.item c :: ·) := by
  obtain ⟨hb, hclosed, hends⟩ := h
  rw [pieces.eq_def]
  dsimp only
  rw [if_neg hb]
  by_cases hq : q = .closed
  · obtain ⟨hquot, hapo, hspace⟩ := hclosed hq
    rw [if_neg (not_or_intro hquot hapo), if_neg fun h => hspace h.1]
  · have hnot : ¬ q.ends c = true := by rw [hends]; decide
    have hspace : ¬ (c = space ∧ q = .closed) := fun h => hq h.2
    by_cases hquote : c = quotationMark ∨ c = apostrophe
    · rw [if_pos hquote, if_neg hnot, if_neg hq]
    · rw [if_neg hquote, if_neg hspace]

theorem pieces_open (h : c = quotationMark ∨ c = apostrophe) : pieces .closed (c :: rest) =
    (pieces (if c = apostrophe then .single else .double) rest).map (.mark :: ·) := by
  have hb : c ≠ backslash := by rcases h with rfl | rfl <;> decide
  have hends : ¬ Quote.closed.ends c = true := by simp [Quote.ends]
  rw [pieces.eq_def]
  dsimp only
  rw [if_neg hb, if_pos h, if_neg hends, if_pos rfl]

theorem pieces_close (h : q.ends c = true) :
    pieces q (c :: rest) = (pieces .closed rest).map (.mark :: ·) := by
  have hc : c = quotationMark ∨ c = apostrophe := by
    simp only [Quote.ends, Bool.or_eq_true, Bool.and_eq_true, beq_iff_eq] at h
    rcases h with ⟨rfl, -⟩ | ⟨rfl, -⟩
    · exact .inr rfl
    · exact .inl rfl
  have hb : c ≠ backslash := by rcases hc with rfl | rfl <;> decide
  rw [pieces.eq_def]
  dsimp only
  rw [if_neg hb, if_pos hc, if_pos h]

theorem pieces_space : pieces .closed (space :: rest) = (pieces .closed rest).map (.cut :: ·) := by
  rw [pieces.eq_def]
  dsimp only
  rw [if_neg (by decide), if_neg (by decide), if_pos ⟨rfl, rfl⟩]

/-- Outside of quotes every byte is one of five kinds, inside of them one of four. -/
theorem byte_cases (q : Quote) (c : UInt8) : c = backslash ∨ Plain q c ∨
    (q = .closed ∧ (c = quotationMark ∨ c = apostrophe)) ∨ q.ends c = true ∨
    (q = .closed ∧ c = space) := by
  by_cases hb : c = backslash
  · exact .inl hb
  · cases hends : q.ends c with
    | true => exact .inr (.inr (.inr (.inl rfl)))
    | false =>
        by_cases hq : q = .closed
        · by_cases hquote : c = quotationMark ∨ c = apostrophe
          · exact .inr (.inr (.inl ⟨hq, hquote⟩))
          · by_cases hspace : c = space
            · exact .inr (.inr (.inr (.inr ⟨hq, hspace⟩)))
            · rw [not_or] at hquote
              exact .inr (.inl ⟨hb, fun _ => ⟨hquote.1, hquote.2, hspace⟩, hends⟩)
        · exact .inr (.inl ⟨hb, fun h => absurd h hq, hends⟩)

/-! ## The counting scanner -/

theorem step_escaped (q : Quote) (ar : Nat) (c : UInt8) :
    Count.step ⟨q, true, ar⟩ c = ⟨q, false, ar⟩ := rfl

theorem step_backslash (q : Quote) (ar : Nat) :
    Count.step ⟨q, false, ar⟩ backslash = ⟨q, true, ar⟩ := by
  cases q <;> rfl

theorem step_plain (h : Plain q c) (ar : Nat) :
    Count.step ⟨q, false, ar⟩ c = ⟨q, false, ar⟩ := by
  obtain ⟨hb, hclosed, hends⟩ := h
  by_cases hq : q = .closed
  · subst hq
    obtain ⟨hquot, hapo, hspace⟩ := hclosed rfl
    simp [Count.step, hspace, hb, hquot, hapo]
  · simp [Count.step, hq, hb, hends]

theorem step_open (h : c = quotationMark ∨ c = apostrophe) (ar : Nat) :
    Count.step ⟨.closed, false, ar⟩ c =
      ⟨if c = apostrophe then .single else .double, false, ar⟩ := by
  rcases h with rfl | rfl <;> rfl

theorem step_close (h : q.ends c = true) (ar : Nat) :
    Count.step ⟨q, false, ar⟩ c = ⟨.closed, false, ar⟩ := by
  cases q with
  | closed => simp [Quote.ends] at h
  | single =>
      obtain rfl : c = apostrophe := by simpa [Quote.ends] using h
      rfl
  | double =>
      obtain rfl : c = quotationMark := by simpa [Quote.ends] using h
      rfl

theorem step_space (ar : Nat) :
    Count.step ⟨.closed, false, ar⟩ space = ⟨.closed, false, ar + 1⟩ := rfl

/-- In quotes `splitc` skips whatever is behind a backslash, and nothing comes of it. -/
theorem count_run (n : Nat) {ar : Nat} (hn : rest.length < n) (h : pieces q rest = some ps) :
    (rest.foldl Count.step ⟨q, false, ar⟩).ar = ar + ps.countP Piece.isCut := by
  induction n generalizing q rest ps ar with
  | zero => exact absurd hn (Nat.not_lt_zero _)
  | succ n ih =>
      cases rest with
      | nil =>
          rw [pieces_nil] at h
          obtain rfl := Option.some.inj h
          rfl
      | cons c rest =>
          rw [List.length_cons] at hn
          rw [List.foldl_cons]
          rcases byte_cases q c with rfl | hplain | ⟨rfl, hquote⟩ | hends | ⟨rfl, rfl⟩
          · rw [step_backslash]
            cases rest with
            | nil =>
                rw [pieces, if_pos rfl] at h
                split at h
                · cases h
                · obtain rfl := Option.some.inj h
                  rfl
            | cons d rest =>
                rw [List.length_cons] at hn
                rw [List.foldl_cons, step_escaped]
                by_cases hd : q = .closed ∨ q.ends d ∨ d = backslash
                · rw [pieces_escape hd] at h
                  obtain ⟨qs, hqs, rfl⟩ := Option.map_eq_some_iff.mp h
                  rw [ih (by omega) hqs, List.countP_cons]
                  rfl
                · rw [pieces_backslash hd] at h
                  rw [pieces_plain (plain_of_not hd), Option.map_map] at h
                  obtain ⟨qs, hqs, rfl⟩ := Option.map_eq_some_iff.mp h
                  rw [ih (by omega) hqs]
                  simp [Piece.isCut]
          · rw [pieces_plain hplain] at h
            obtain ⟨qs, hqs, rfl⟩ := Option.map_eq_some_iff.mp h
            rw [step_plain hplain, ih (by omega) hqs, List.countP_cons]
            rfl
          · rw [pieces_open hquote] at h
            obtain ⟨qs, hqs, rfl⟩ := Option.map_eq_some_iff.mp h
            rw [step_open hquote, ih (by omega) hqs, List.countP_cons]
            rfl
          · rw [pieces_close hends] at h
            obtain ⟨qs, hqs, rfl⟩ := Option.map_eq_some_iff.mp h
            rw [step_close hends, ih (by omega) hqs, List.countP_cons]
            rfl
          · rw [pieces_space] at h
            obtain ⟨qs, hqs, rfl⟩ := Option.map_eq_some_iff.mp h
            rw [step_space, ih (by omega) hqs, List.countP_cons]
            simp only [Piece.isCut, if_true]
            omega

/-- `splitc` counts every word, the empty ones too. -/
theorem splitc_eq (h : pieces .closed s = some ps) : splitc s = (words ps).length := by
  rw [splitc, count_run (s.length + 1) (Nat.lt_succ_self _) h, words, List.length_cons,
    length_laterWords, Nat.add_comm]

end UnnamedOS.Userland.Arguments
