import Mathlib.Data.List.Infix
import UnnamedOS.Lib.Effects

/-!
# Programs that ask their surroundings

A program puts questions and goes on with the answers: it reads and writes the registers of a device,
or waits for it. The surroundings may answer anything, by what has been asked so far. `Tells x w`
says that `x`, whatever the answers, gives out `w` or, if it ends with an error, a part of it, and asks
nothing where it is not allowed to.
-/

namespace UnnamedOS.Lib

variable {Q : Type} {A : Q → Type} {V ε α β O : Type}

/-- A question that has been answered. -/
structure Exchange (A : Q → Type) where
  question : Q
  answer : A question

structure Dialogue (A : Q → Type) (V : Type) where
  partner : List (Exchange A) → (q : Q) → A q
  past : List (Exchange A)
  vars : V

def ask (q : Q) : EStateM ε (Dialogue A V) (A q) := fun s =>
  .ok (s.partner s.past q) { s with past := s.past ++ [⟨q, s.partner s.past q⟩] }

def getVars : EStateM ε (Dialogue A V) V := fun s => .ok s.vars s

def setVars (vars : V) : EStateM ε (Dialogue A V) PUnit := fun s => .ok ⟨⟩ { s with vars }

/-- Each exchange is allowed by what was before it. -/
def Each (allowed : List (Exchange A) → Exchange A → Prop) (past : List (Exchange A)) : Prop :=
  ∀ before e after, past = before ++ e :: after → allowed before e

variable {out : Exchange A → Option O} {allowed : List (Exchange A) → Exchange A → Prop}
  {past : List (Exchange A)} {e : Exchange A} {s s' s'' : Dialogue A V} {q : Q} {w w' w₁ w₂ : List O}
  {x : EStateM ε (Dialogue A V) α} {f : α → EStateM ε (Dialogue A V) β}
  {P : A q → Dialogue A V → Prop} {E : ε → Dialogue A V → Prop}

theorem each_nil : Each allowed [] := fun before e after h => absurd h.symm (by simp)

theorem each_concat : Each allowed (past ++ [e]) ↔ Each allowed past ∧ allowed past e := by
  constructor
  · intro h
    constructor
    · intro before e' after heq
      exact h before e' (after ++ [e]) (by rw [heq, List.append_assoc, List.cons_append])
    · exact h past e [] rfl
  · intro h before e' after heq
    rcases List.eq_nil_or_concat after with rfl | ⟨after', e'', rfl⟩
    · obtain ⟨rfl, hlast⟩ := List.append_inj' heq rfl
      obtain rfl := List.singleton_inj.mp hlast
      exact h.2
    · rw [List.concat_eq_append, ← List.cons_append, ← List.append_assoc] at heq
      obtain ⟨rfl, -⟩ := List.append_inj' heq rfl
      exact h.1 before e' after' rfl

theorem ends_ask : Ends (ask q : EStateM ε (Dialogue A V) (A q)) s P E ↔
    P (s.partner s.past q) { s with past := s.past ++ [⟨q, s.partner s.past q⟩] } := by
  rw [ends_iff]
  constructor
  · intro h
    exact h.1 _ _ rfl
  · intro h
    refine ⟨fun a s' hrun => ?_, fun e s' hrun => (by cases hrun)⟩
    cases hrun
    exact h

/-! ## What a program tells -/

/-- What has been given out between two states. -/
structure Told (out : Exchange A → Option O) (allowed : List (Exchange A) → Exchange A → Prop)
    (s s' : Dialogue A V) (w : List O) : Prop where
  partner : s'.partner = s.partner
  given : s'.past.filterMap out = s.past.filterMap out ++ w
  each : Each allowed s.past → Each allowed s'.past

theorem Told.refl (s : Dialogue A V) : Told out allowed s s [] :=
  ⟨rfl, (List.append_nil _).symm, id⟩

theorem Told.trans (h : Told out allowed s s' w) (h' : Told out allowed s' s'' w') :
    Told out allowed s s'' (w ++ w') where
  partner := h'.partner.trans h.partner
  given := by rw [h'.given, h.given, List.append_assoc]
  each hs := h'.each (h.each hs)

/-- The same with the variables unchanged. -/
structure Spoke (out : Exchange A → Option O) (allowed : List (Exchange A) → Exchange A → Prop)
    (s s' : Dialogue A V) (w : List O) : Prop extends Told out allowed s s' w where
  vars : s'.vars = s.vars

theorem Spoke.refl (s : Dialogue A V) : Spoke out allowed s s [] := ⟨.refl s, rfl⟩

theorem Spoke.trans (h : Spoke out allowed s s' w) (h' : Spoke out allowed s' s'' w') :
    Spoke out allowed s s'' (w ++ w') :=
  ⟨h.toTold.trans h'.toTold, h'.vars.trans h.vars⟩

/-- An end with an error, in the middle of what is to be said. -/
def Broken (out : Exchange A → Option O) (allowed : List (Exchange A) → Exchange A → Prop)
    (s : Dialogue A V) (w : List O) (s' : Dialogue A V) : Prop :=
  ∃ w', w' <+: w ∧ Spoke out allowed s s' w'

theorem Broken.mono (h : Broken out allowed s w s') (w' : List O) :
    Broken out allowed s (w ++ w') s' := by
  obtain ⟨u, hu, hspoke⟩ := h
  exact ⟨u, hu.trans (List.prefix_append w w'), hspoke⟩

theorem Spoke.broken (h : Spoke out allowed s s' w) (h' : Broken out allowed s' w' s'') :
    Broken out allowed s (w ++ w') s'' := by
  obtain ⟨u, hu, hspoke⟩ := h'
  exact ⟨w ++ u, (List.prefix_append_right_inj w).mpr hu, h.trans hspoke⟩

/-- Started where `pre` holds, `x` gives out `w` and ends where `post` holds. -/
def Says (out : Exchange A → Option O) (allowed : List (Exchange A) → Exchange A → Prop)
    (pre : Dialogue A V → Prop) (x : EStateM ε (Dialogue A V) α) (w : List O)
    (post : α → Dialogue A V → Prop) : Prop :=
  ∀ s, pre s → Ends x s (fun a s' => Spoke out allowed s s' w ∧ post a s')
    fun _ s' => Broken out allowed s w s'

variable {pre pre' : Dialogue A V → Prop} {post post' : α → Dialogue A V → Prop}
  {last : β → Dialogue A V → Prop}

theorem Says.bind {mid : α → Dialogue A V → Prop} (hx : Says out allowed pre x w₁ mid)
    (hf : ∀ a, Says out allowed (mid a) (f a) w₂ last) :
    Says out allowed pre (x >>= f) (w₁ ++ w₂) last := by
  intro s hs
  have hx' := (hx s hs).mono (fun _ _ h => h) fun _ s' (h : Broken out allowed s w₁ s') => h.mono w₂
  refine hx'.bind fun a s' h => ?_
  exact (hf a s' h.2).mono (fun _ _ h' => ⟨h.1.trans h'.1, h'.2⟩) fun _ _ h' => h.1.broken h'

theorem Says.mono (h : Says out allowed pre x w post) (hpre : ∀ s, pre' s → pre s)
    (hpost : ∀ a s, post a s → post' a s) : Says out allowed pre' x w post' := fun s hs =>
  (h s (hpre s hs)).mono (fun a s' h' => ⟨h'.1, hpost a s' h'.2⟩) fun _ _ h' => h'

theorem Says.pure {a : α} (h : ∀ s, pre s → post a s) :
    Says out allowed pre (pure a : EStateM ε (Dialogue A V) α) [] post :=
  fun s hs => ends_pure.mpr ⟨.refl s, h s hs⟩

theorem Says.throw (e : ε) (w : List O) :
    Says out allowed pre (throw e : EStateM ε (Dialogue A V) α) w post :=
  fun s _ => ends_throw.mpr ⟨[], List.nil_prefix, .refl s⟩

/-- What is known of the state before and of the answer is known behind a question. -/
theorem Says.ask {post : A q → Dialogue A V → Prop}
    (hallowed : ∀ s a, pre s → allowed s.past ⟨q, a⟩) (hout : ∀ a, (out ⟨q, a⟩).toList = w)
    (hpost : ∀ s a, pre s → post a { s with past := s.past ++ [⟨q, a⟩] }) :
    Says out allowed pre (ask q : EStateM ε (Dialogue A V) (A q)) w post := by
  intro s hs
  refine ends_ask.mpr ⟨⟨⟨rfl, ?_, fun h => each_concat.mpr ⟨h, hallowed s _ hs⟩⟩, rfl⟩, hpost s _ hs⟩
  rw [List.filterMap_append, ← hout (s.partner s.past q)]
  cases h : out ⟨q, s.partner s.past q⟩ with
  | none => rw [List.filterMap_cons_none h, List.filterMap_nil, Option.toList_none]
  | some o => rw [List.filterMap_cons_some h, List.filterMap_nil, Option.toList_some]

/-- The case where nothing has to be known. -/
def Tells (out : Exchange A → Option O) (allowed : List (Exchange A) → Exchange A → Prop)
    (x : EStateM ε (Dialogue A V) α) (w : List O) : Prop :=
  Says out allowed (fun _ => True) x w fun _ _ => True

theorem Says.tells (h : Says out allowed (fun _ => True) x w post) : Tells out allowed x w :=
  h.mono (fun _ h' => h') fun _ _ _ => trivial

theorem Tells.weaken (h : Tells out allowed x w) (pre : Dialogue A V → Prop) :
    Says out allowed pre x w fun _ _ => True :=
  h.mono (fun _ _ => trivial) fun _ _ h' => h'

theorem Tells.bind (hx : Tells out allowed x w₁) (hf : ∀ a, Tells out allowed (f a) w₂) :
    Tells out allowed (x >>= f) (w₁ ++ w₂) := Says.bind hx hf

theorem Tells.bind_nil (hx : Tells out allowed x []) (hf : ∀ a, Tells out allowed (f a) w) :
    Tells out allowed (x >>= f) w := hx.bind hf

theorem Tells.bind_last (hx : Tells out allowed x w) (hf : ∀ a, Tells out allowed (f a) []) :
    Tells out allowed (x >>= f) w := by
  have h := hx.bind hf
  rwa [List.append_nil] at h

theorem Tells.pure (a : α) : Tells out allowed (pure a : EStateM ε (Dialogue A V) α) [] :=
  Says.pure fun _ _ => trivial

theorem Tells.throw (e : ε) (w : List O) :
    Tells out allowed (throw e : EStateM ε (Dialogue A V) α) w := Says.throw e w

/-- A question that is always allowed. -/
theorem Tells.ask (hallowed : ∀ past a, allowed past ⟨q, a⟩) (hout : ∀ a, (out ⟨q, a⟩).toList = w) :
    Tells out allowed (ask q : EStateM ε (Dialogue A V) (A q)) w :=
  Says.ask (fun s a _ => hallowed s.past a) hout fun _ _ _ => trivial

/-! ## Variables -/

/-- Started with the variables `v`, `x` gives out `w` and ends with the variables `v'`, or ends with an
error in the middle of `w`. -/
def Does (out : Exchange A → Option O) (allowed : List (Exchange A) → Exchange A → Prop) (v : V)
    (x : EStateM ε (Dialogue A V) α) (w : List O) (v' : V) : Prop :=
  ∀ s, s.vars = v → Ends x s (fun _ s' => Told out allowed s s' w ∧ s'.vars = v')
    fun _ s' => ∃ w', w' <+: w ∧ Told out allowed s s' w'

variable {v v' v'' : V}

theorem Tells.does (h : Tells out allowed x w) (v : V) : Does out allowed v x w v := by
  intro s hs
  refine (h s trivial).mono (fun _ s' h' => ⟨h'.1.toTold, h'.1.vars.trans hs⟩) fun _ s' h' => ?_
  obtain ⟨w', hw', hspoke⟩ := h'
  exact ⟨w', hw', hspoke.toTold⟩

theorem Does.bind (hx : Does out allowed v x w₁ v') (hf : ∀ a, Does out allowed v' (f a) w₂ v'') :
    Does out allowed v (x >>= f) (w₁ ++ w₂) v'' := by
  intro s hs
  have hx' := (hx s hs).mono (fun _ _ h => h) fun _ s'
      (h : ∃ w', w' <+: w₁ ∧ Told out allowed s s' w') =>
    show ∃ w', w' <+: w₁ ++ w₂ ∧ Told out allowed s s' w' from
      h.imp fun _ h' => ⟨h'.1.trans (List.prefix_append w₁ w₂), h'.2⟩
  refine hx'.bind fun a s' h => ?_
  refine (hf a s' h.2).mono (fun _ _ h' => ⟨h.1.trans h'.1, h'.2⟩) fun _ s'' h' => ?_
  obtain ⟨w', hw', htold⟩ := h'
  exact ⟨w₁ ++ w', (List.prefix_append_right_inj w₁).mpr hw', h.1.trans htold⟩

theorem Does.bind_nil (hx : Does out allowed v x [] v')
    (hf : ∀ a, Does out allowed v' (f a) w v'') : Does out allowed v (x >>= f) w v'' := hx.bind hf

theorem Does.bind_last (hx : Does out allowed v x w v')
    (hf : ∀ a, Does out allowed v' (f a) [] v'') : Does out allowed v (x >>= f) w v'' := by
  have h := hx.bind hf
  rwa [List.append_nil] at h

theorem Does.pure (a : α) (v : V) :
    Does out allowed v (pure a : EStateM ε (Dialogue A V) α) [] v := (Tells.pure a).does v

theorem Does.throw (e : ε) (w : List O) (v' : V) :
    Does out allowed v (throw e : EStateM ε (Dialogue A V) α) w v' :=
  fun s _ => ends_throw.mpr ⟨[], List.nil_prefix, .refl s⟩

theorem Does.set (v v' : V) :
    Does out allowed v (setVars v' : EStateM ε (Dialogue A V) PUnit) [] v' := by
  intro s _
  rw [ends_iff]
  refine ⟨fun a s' hrun => ?_, fun e s' hrun => (by cases hrun)⟩
  cases hrun
  exact ⟨⟨rfl, (List.append_nil _).symm, id⟩, rfl⟩

theorem Does.get {f : V → EStateM ε (Dialogue A V) β} (hf : Does out allowed v (f v) w v') :
    Does out allowed v (getVars >>= f) w v' := by
  intro s hs
  have hget : Ends (getVars : EStateM ε (Dialogue A V) V) s (fun a s' => a = v ∧ s' = s)
      fun _ s' => ∃ w', w' <+: w ∧ Told out allowed s s' w' := by
    rw [ends_iff]
    refine ⟨fun a s' hrun => ?_, fun e s' hrun => (by cases hrun)⟩
    cases hrun
    exact ⟨hs, rfl⟩
  refine hget.bind fun a s' h => ?_
  rw [h.1, h.2]
  exact hf s hs

/-! ## What the answers decide -/

/-- Everything that has been answered has been answered by the surroundings. -/
def Genuine (s : Dialogue A V) : Prop :=
  ∀ e ∈ s.past, ∃ before, e.answer = s.partner before e.question

/-- What a program may make of a state. -/
structure Later (s s' : Dialogue A V) : Prop where
  partner : s'.partner = s.partner
  past : s.past <+: s'.past
  genuine : Genuine s → Genuine s'

theorem Later.refl (s : Dialogue A V) : Later s s := ⟨rfl, List.prefix_rfl, id⟩

theorem Later.trans (h : Later s s') (h' : Later s' s'') : Later s s'' where
  partner := h'.partner.trans h.partner
  past := h.past.trans h'.past
  genuine hs := h'.genuine (h.genuine hs)

theorem Later.ask (s : Dialogue A V) (q : Q) :
    Later s { s with past := s.past ++ [⟨q, s.partner s.past q⟩] } where
  partner := rfl
  past := List.prefix_append _ _
  genuine hs e he := by
    rcases List.mem_append.mp he with he | he
    · exact hs e he
    · rw [List.mem_singleton.mp he]
      exact ⟨s.past, rfl⟩

/-- Where `p` holds, `x` ends with an error only if some answer is not one of the `good`. -/
def Fares (good : Exchange A → Prop) (p : Prop) (x : EStateM ε (Dialogue A V) α)
    (s : Dialogue A V) (P : α → Prop) : Prop :=
  Ends x s (fun a s' => Later s s' ∧ (p → (∀ e ∈ s'.past, good e) → P a))
    fun _ s' => Later s s' ∧ (p → ¬ ∀ e ∈ s'.past, good e)

/-- The same from every state. -/
def Through (good : Exchange A → Prop) (p : Prop) (x : EStateM ε (Dialogue A V) α)
    (P : α → Prop) : Prop := ∀ s : Dialogue A V, Fares good p x s P

variable {good : Exchange A → Prop} {p p' : Prop} {R R' : α → Prop} {S : β → Prop}

/-- The bad answers of a part are bad answers of the whole. -/
theorem Fares.bind (hx : Fares good p x s R)
    (hf : ∀ a s', x s = .ok a s' → Fares good (p ∧ R a) (f a) s' S) :
    Fares good p (x >>= f) s S := by
  have hx' : Ends x s (fun a s' => (Later s s' ∧ (p → (∀ e ∈ s'.past, good e) → R a)) ∧
      Fares good (p ∧ R a) (f a) s' S) fun _ s' => Later s s' ∧ (p → ¬ ∀ e ∈ s'.past, good e) :=
    ends_iff.mpr ⟨fun a s' hrun => ⟨(ends_iff.mp hx).1 a s' hrun, hf a s' hrun⟩, (ends_iff.mp hx).2⟩
  refine hx'.bind fun a s' h => ?_
  obtain ⟨⟨hlater, hR⟩, hfares⟩ := h
  have hbefore : ∀ s'', Later s' s'' → p → (∀ e ∈ s''.past, good e) → p ∧ R a :=
    fun s'' hlater' hp hgood =>
      ⟨hp, hR hp fun e he => hgood e (hlater'.past.subset he)⟩
  refine hfares.mono (fun b s'' h' => ⟨hlater.trans h'.1, fun hp hgood => ?_⟩)
    fun e s'' h' => ⟨hlater.trans h'.1, fun hp hgood => ?_⟩
  · exact h'.2 (hbefore s'' h'.1 hp hgood) hgood
  · exact h'.2 (hbefore s'' h'.1 hp hgood) hgood

theorem Through.bind (hx : Through good p x R) (hf : ∀ a, Through good (p ∧ R a) (f a) S) :
    Through good p (x >>= f) S := fun s => (hx s).bind fun a s' _ => hf a s'

theorem Through.pure {a : α} (h : p → R a) :
    Through good p (pure a : EStateM ε (Dialogue A V) α) R :=
  fun s => ends_pure.mpr ⟨.refl s, fun hp _ => h hp⟩

/-- An error that `p` excludes. -/
theorem Through.throw {e : ε} (h : ¬ p) :
    Through good p (throw e : EStateM ε (Dialogue A V) α) R :=
  fun s => ends_throw.mpr ⟨.refl s, fun hp => absurd hp h⟩

theorem Through.ask {R : A q → Prop} (h : ∀ a, good ⟨q, a⟩ → R a) :
    Through good p (ask q : EStateM ε (Dialogue A V) (A q)) R := fun s =>
  ends_ask.mpr ⟨.ask s q, fun _ hgood =>
    h _ (hgood _ (List.mem_append_right _ (List.mem_singleton_self _)))⟩

theorem Fares.get {g : V → EStateM ε (Dialogue A V) β} (h : Fares good p (g s.vars) s S) :
    Fares good p (getVars >>= g) s S := by
  unfold Fares at h ⊢
  rw [ends_iff] at h ⊢
  exact h

theorem Through.get {g : V → EStateM ε (Dialogue A V) β} (h : ∀ v, Through good p (g v) S) :
    Through good p (getVars >>= g) S := fun s => .get (h s.vars s)

theorem Through.set (v : V) :
    Through good p (setVars v : EStateM ε (Dialogue A V) PUnit) fun _ => True := by
  intro s
  unfold Fares
  rw [ends_iff]
  refine ⟨fun a s' hrun => ?_, fun e s' hrun => (by cases hrun)⟩
  cases hrun
  exact ⟨⟨rfl, List.prefix_rfl, id⟩, fun _ _ => trivial⟩

end UnnamedOS.Lib
