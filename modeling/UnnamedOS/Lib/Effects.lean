import Mathlib.Logic.Function.Basic

/-!
# Programs whose state outlives an error

Programs of `EStateM`, which end with a result or an error and a state in either case. `Ends`
says what holds at every end of a run from a given state, and has one rule for each way to put
programs together. `Respects R` says that the state at the end is `R`-related to the state at
the start, whatever the end is.
-/

namespace UnnamedOS.Lib

variable {ε σ α β : Type}

def Ends (x : EStateM ε σ α) (s : σ) (Q : α → σ → Prop) (E : ε → σ → Prop) : Prop :=
  match x s with
  | .ok a s' => Q a s'
  | .error e s' => E e s'

variable {x : EStateM ε σ α} {f : α → EStateM ε σ β} {s s' : σ} {Q Q' : α → σ → Prop}
  {P : β → σ → Prop} {E E' : ε → σ → Prop}

theorem ends_pure {a : α} : Ends (pure a : EStateM ε σ α) s Q E ↔ Q a s := Iff.rfl

theorem ends_throw {e : ε} : Ends (throw e : EStateM ε σ α) s Q E ↔ E e s := Iff.rfl

theorem ends_get {Q : σ → σ → Prop} : Ends (get : EStateM ε σ σ) s Q E ↔ Q s s := Iff.rfl

theorem ends_set {Q : PUnit → σ → Prop} : Ends (set s' : EStateM ε σ PUnit) s Q E ↔ Q ⟨⟩ s' :=
  Iff.rfl

theorem ends_modify {g : σ → σ} {Q : PUnit → σ → Prop} :
    Ends (modify g : EStateM ε σ PUnit) s Q E ↔ Q ⟨⟩ (g s) := Iff.rfl

theorem ends_bind :
    Ends (x >>= f) s P E ↔ Ends x s (fun a s' => Ends (f a) s' P E) E := by
  unfold Ends
  simp only [bind, EStateM.bind]
  cases x s <;> rfl

/-- A program followed by another that is known to go well from where the first ends. -/
theorem Ends.bind (hx : Ends x s Q E) (hf : ∀ a s', Q a s' → Ends (f a) s' P E) :
    Ends (x >>= f) s P E := by
  rw [ends_bind]
  unfold Ends at hx ⊢
  cases h : x s with
  | ok a s' =>
      rw [h] at hx
      exact hf a s' hx
  | error e s' =>
      rw [h] at hx
      exact hx

theorem Ends.mono (hx : Ends x s Q E) (hQ : ∀ a s', Q a s' → Q' a s')
    (hE : ∀ e s', E e s' → E' e s') : Ends x s Q' E' := by
  unfold Ends at *
  cases h : x s with
  | ok a s' =>
      rw [h] at hx
      exact hQ a s' hx
  | error e s' =>
      rw [h] at hx
      exact hE e s' hx

theorem Ends.and (hx : Ends x s Q E) (hx' : Ends x s Q' E') :
    Ends x s (fun a s' => Q a s' ∧ Q' a s') fun e s' => E e s' ∧ E' e s' := by
  unfold Ends at *
  cases h : x s with
  | ok a s' =>
      rw [h] at hx hx'
      exact ⟨hx, hx'⟩
  | error e s' =>
      rw [h] at hx hx'
      exact ⟨hx, hx'⟩

/-- The state at any end is related to the state at the start. -/
def Respects (R : σ → σ → Prop) (x : EStateM ε σ α) : Prop :=
  ∀ s, Ends x s (fun _ s' => R s s') fun _ s' => R s s'

/-- The property holds at any end if it holds at the start. -/
def Keeps (P : σ → Prop) (x : EStateM ε σ α) : Prop :=
  ∀ s, P s → Ends x s (fun _ s' => P s') fun _ s' => P s'

section Keeps

variable {P : σ → Prop}

theorem Keeps.pure (a : α) : Keeps P (pure a : EStateM ε σ α) := fun _ h => h

theorem Keeps.throw (e : ε) : Keeps P (throw e : EStateM ε σ α) := fun _ h => h

theorem Keeps.modify {g : σ → σ} (hg : ∀ s, P s → P (g s)) :
    Keeps P (modify g : EStateM ε σ PUnit) := fun s h => hg s h

theorem Keeps.bind {f : α → EStateM ε σ β} (hx : Keeps P x) (hf : ∀ a, Keeps P (f a)) :
    Keeps P (x >>= f) := fun s h => (hx s h).bind fun a s' h' => hf a s' h'

/-- A program that reads the state and goes on as the state says. -/
theorem Keeps.get_bind {f : σ → EStateM ε σ β}
    (hf : ∀ s, P s → Ends (f s) s (fun _ s' => P s') fun _ s' => P s') :
    Keeps P (get >>= f : EStateM ε σ β) := hf

theorem Respects.keeps {R : σ → σ → Prop} (hT : ∀ s s' s'', R s s' → R s' s'' → R s s'')
    (hx : Respects R x) (s₀ : σ) : Keeps (R s₀) x :=
  fun s h => (hx s).mono (fun _ s' h' => hT s₀ s s' h h') fun _ s' h' => hT s₀ s s' h h'

theorem Respects.of_keeps {R : σ → σ → Prop} (hR : ∀ s, R s s) (hx : ∀ s₀, Keeps (R s₀) x) :
    Respects R x := fun s => hx s s (hR s)

end Keeps

/-- The first result of `body` for `i`, `i+1`, ... with at most `n` rounds. -/
def searchFrom (body : Nat → EStateM ε σ (Option α)) : Nat → Nat → EStateM ε σ (Option α)
  | 0, _ => pure none
  | n + 1, i => do
    match ← body i with
    | some a => pure (some a)
    | none => searchFrom body n (i + 1)

/-- A search that has found something, or gone past everything. -/
def Found (Q : α → σ → Prop) (P : σ → Prop) : Option α → σ → Prop
  | some a, s => Q a s
  | none, s => P s

/-- The proof rule of `searchFrom`: `inv` holds before each round. -/
theorem searchFrom_rule {body : Nat → EStateM ε σ (Option α)} (inv : Nat → σ → Prop)
    {Q : α → σ → Prop} (n : Nat) (i : Nat)
    (hbody : ∀ j s, i ≤ j → j < i + n → inv j s →
      Ends (body j) s (Found Q (inv (j + 1))) E)
    (hs : inv i s) : Ends (searchFrom body n i) s (Found Q (inv (i + n))) E := by
  induction n generalizing i s with
  | zero => exact hs
  | succ n ih =>
      refine (hbody i s (Nat.le_refl i) (by omega) hs).bind fun r s' hr => ?_
      cases r with
      | some a => exact hr
      | none =>
          have h := ih (i + 1) (fun j s hj hjn => hbody j s (by omega) (by omega)) hr
          rwa [show i + 1 + n = i + (n + 1) by omega] at h

theorem Keeps.searchFrom {P : σ → Prop} {body : Nat → EStateM ε σ (Option α)} (n i : Nat)
    (hbody : ∀ j, i ≤ j → Keeps P (body j)) : Keeps P (searchFrom body n i) := by
  induction n generalizing i with
  | zero => exact Keeps.pure _
  | succ n ih =>
      refine Keeps.bind (hbody i (Nat.le_refl i)) fun r => ?_
      cases r with
      | some a => exact Keeps.pure _
      | none => exact ih (i + 1) fun j hj => hbody j (Nat.le_of_succ_le hj)

/-- A result of the first round is that of the search. -/
theorem searchFrom_some {body : Nat → EStateM ε σ (Option α)} {i n : Nat}
    (h : Ends (body i) s (fun r s' => ∃ a, r = some a ∧ Q a s') E) :
    Ends (searchFrom body (n + 1) i) s (fun r s' => ∃ a, r = some a ∧ Q a s') E := by
  rw [searchFrom]
  refine h.bind ?_
  rintro _ s' ⟨a, rfl, ha⟩
  exact ends_pure.mpr ⟨a, rfl, ha⟩

theorem ends_iff : Ends x s Q E ↔
    (∀ a s', x s = .ok a s' → Q a s') ∧ ∀ e s', x s = .error e s' → E e s' := by
  unfold Ends
  cases x s with
  | ok a s' => simp
  | error e s' => simp

theorem Ends.exists_ok (h : Ends x s Q fun _ _ => False) : ∃ a s', x s = .ok a s' ∧ Q a s' := by
  unfold Ends at h
  cases hx : x s with
  | ok a s' =>
      rw [hx] at h
      exact ⟨a, s', rfl, h⟩
  | error e s' =>
      rw [hx] at h
      exact h.elim

-- Otherwise the elaborator runs the programs it is asked about.
attribute [irreducible] Ends

section Except

variable {m : Except ε α} {g : α → Except ε β}

theorem bind_ok {b : β} (h : (m >>= g) = .ok b) : ∃ a, m = .ok a ∧ g a = .ok b := by
  cases m with
  | error e => cases h
  | ok a => exact ⟨a, rfl, h⟩

theorem bind_error {e : ε} (h : (m >>= g) = .error e) :
    m = .error e ∨ ∃ a, m = .ok a ∧ g a = .error e := by
  cases m with
  | error e' => exact Or.inl (congrArg Except.error (Except.error.inj h))
  | ok a => exact Or.inr ⟨a, rfl, h⟩

end Except

end UnnamedOS.Lib
