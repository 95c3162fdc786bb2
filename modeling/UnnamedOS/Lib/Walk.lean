import UnnamedOS.Lib.Chain

/-!
# Loops along a chain

`walk` follows a pointer chain and runs a body on every element. The pointer of an element
is read before its body, which may rewrite it. `walk_rule` is the proof rule for it: a body
may edit the elements it has passed, not those still to come.
-/

namespace UnnamedOS.Lib

variable {α σ ε : Type*}

def walk (next : σ → α → Option α) (visit : σ → α → Except ε σ) (stuck : ε) :
    ℕ → Option α → σ → Except ε σ
  | _, none, s => .ok s
  | 0, some _, _ => .error stuck
  | n + 1, some a, s =>
    match visit s a with
    | .error e => .error e
    | .ok s' => walk next visit stuck n (next s a) s'

variable {next : σ → α → Option α} {visit : σ → α → Except ε σ} {stuck : ε}

theorem walk_none (n : ℕ) (s : σ) : walk next visit stuck n none s = .ok s := by
  cases n <;> rfl

/-- What every body keeps the loop keeps. -/
theorem walk_keeps {P : σ → Prop} (hvisit : ∀ s a s', P s → visit s a = .ok s' → P s') {n : ℕ}
    {p : Option α} {s s' : σ} (hs : P s) (h : walk next visit stuck n p s = .ok s') : P s' := by
  induction n generalizing p s with
  | zero =>
      cases p with
      | none =>
          rw [walk_none] at h
          exact Except.ok.inj h ▸ hs
      | some a => cases h
  | succ n ih =>
      cases p with
      | none =>
          rw [walk_none] at h
          exact Except.ok.inj h ▸ hs
      | some a =>
          rw [walk] at h
          split at h
          · cases h
          · rename_i t ht
            exact ih (hvisit s a t hs ht) h

/-- An error is one of a body, or the loop does not end. -/
theorem walk_error {n : ℕ} {p : Option α} {s : σ} {e : ε}
    (h : walk next visit stuck n p s = .error e) : e = stuck ∨ ∃ s a, visit s a = .error e := by
  induction n generalizing p s with
  | zero =>
      cases p with
      | none =>
          rw [walk_none] at h
          cases h
      | some a => exact .inl (Except.error.inj h).symm
  | succ n ih =>
      cases p with
      | none =>
          rw [walk_none] at h
          cases h
      | some a =>
          rw [walk] at h
          split at h
          · rename_i e' he
            obtain rfl := Except.error.inj h
            exact .inr ⟨s, a, he⟩
          · exact ih h

/-- The invariant `inv done rest` holds before each element, where `done` has been visited and
`rest` has not. A body ends in an `allowed` error or keeps it. -/
theorem walk_rule {inv : List α → List α → σ → Prop} {allowed : ε → Prop}
    (hstep : ∀ done a rest s, inv done (a :: rest) s →
      (∃ s', visit s a = .ok s' ∧ inv (done ++ [a]) rest s' ∧ ∀ x ∈ rest, next s' x = next s x) ∨
        ∃ e, visit s a = .error e ∧ allowed e) :
    ∀ (l done : List α) (p : Option α) (s : σ) (n : ℕ), Chain (next s) p l → l.length ≤ n →
      inv done l s → (∃ s', walk next visit stuck n p s = .ok s' ∧ inv (done ++ l) [] s') ∨
        ∃ e, walk next visit stuck n p s = .error e ∧ allowed e := by
  intro l
  induction l with
  | nil =>
      intro done p s n hc _ hi
      rw [chain_nil.mp hc]
      refine Or.inl ⟨s, walk_none n s, ?_⟩
      rwa [List.append_nil]
  | cons a rest ih =>
      intro done p s n hc hn hi
      obtain ⟨rfl, hrest⟩ := chain_cons.mp hc
      obtain ⟨m, rfl⟩ : ∃ m, n = m + 1 := ⟨n - 1, by simp only [List.length_cons] at hn; omega⟩
      have hm : rest.length ≤ m := by simp only [List.length_cons] at hn; omega
      rcases hstep done a rest s hi with ⟨s', hv, hi', hnext⟩ | ⟨e, hv, he⟩
      · have hc' : Chain (next s') (next s a) rest :=
          (chain_congr hnext).mpr hrest
        have hw : walk next visit stuck (m + 1) (some a) s = walk next visit stuck m (next s a) s' := by
          rw [walk, hv]
        rw [hw]
        have h := ih (done ++ [a]) (next s a) s' m hc' hm hi'
        rwa [List.append_assoc] at h
      · refine Or.inr ⟨e, ?_, he⟩
        rw [walk, hv]

end UnnamedOS.Lib
