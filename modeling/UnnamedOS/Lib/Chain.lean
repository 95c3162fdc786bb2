import Mathlib.Data.List.Nodup
import Mathlib.Data.List.Basic

/-!
# Singly linked chains over a partial successor function

A heap of records with a `next` pointer is a function `next : α → Option α`.
`Seg next p l q` says that following `next` from `p` visits exactly `l` and
arrives at `q`; `Chain` is the segment that ends at the null pointer. The
lemmas below describe what one pointer write does to a segment.
-/

namespace UnnamedOS.Lib

variable {α : Type*} {next next' : α → Option α} {p q r : Option α} {a b : α} {l l' : List α}

def Seg (next : α → Option α) : Option α → List α → Option α → Prop
  | p, [], q => p = q
  | p, a :: l, q => p = some a ∧ Seg next (next a) l q

/-- The null-terminated case. -/
def Chain (next : α → Option α) (p : Option α) (l : List α) : Prop := Seg next p l none

@[simp] theorem seg_nil : Seg next p [] q ↔ p = q := Iff.rfl

@[simp] theorem seg_cons : Seg next p (a :: l) q ↔ p = some a ∧ Seg next (next a) l q := Iff.rfl

theorem seg_append : Seg next p (l ++ l') q ↔ ∃ r, Seg next p l r ∧ Seg next r l' q := by
  induction l generalizing p with
  | nil => simp
  | cons a l ih =>
      simp only [List.cons_append, seg_cons, ih]
      constructor
      · rintro ⟨rfl, r, hl, hr⟩
        exact ⟨r, ⟨rfl, hl⟩, hr⟩
      · rintro ⟨r, ⟨rfl, hl⟩, hr⟩
        exact ⟨rfl, r, hl, hr⟩

/-- A segment that visits a last element leaves through that element's pointer. -/
theorem seg_concat : Seg next p (l ++ [a]) q ↔ Seg next p l (some a) ∧ next a = q := by
  rw [seg_append]
  constructor
  · rintro ⟨r, hl, rfl, hq⟩
    exact ⟨hl, hq⟩
  · rintro ⟨hl, hq⟩
    exact ⟨some a, hl, rfl, hq⟩

theorem seg_congr (h : ∀ x ∈ l, next x = next' x) : Seg next p l q ↔ Seg next' p l q := by
  induction l generalizing p with
  | nil => rfl
  | cons a l ih =>
      rw [seg_cons, seg_cons, h a List.mem_cons_self,
        ih (fun x hx => h x (List.mem_cons_of_mem a hx))]

theorem seg_update_of_notMem [DecidableEq α] {v : Option α} (h : a ∉ l) :
    Seg (Function.update next a v) p l q ↔ Seg next p l q := by
  apply seg_congr
  intro x hx
  have hne : x ≠ a := fun he => h (he ▸ hx)
  exact Function.update_of_ne hne v next

theorem chain_nil : Chain next p [] ↔ p = none := Iff.rfl

theorem chain_cons : Chain next p (a :: l) ↔ p = some a ∧ Chain next (next a) l := Iff.rfl

theorem chain_none : Chain next none l ↔ l = [] := by
  cases l with
  | nil => simp [chain_nil]
  | cons a l => simp [chain_cons]

theorem chain_some : Chain next (some a) l ↔ ∃ l', l = a :: l' ∧ Chain next (next a) l' := by
  cases l with
  | nil => simp [chain_nil]
  | cons b l =>
      simp only [chain_cons, Option.some.injEq, List.cons.injEq]
      constructor
      · rintro ⟨rfl, h⟩
        exact ⟨l, ⟨rfl, rfl⟩, h⟩
      · rintro ⟨l', ⟨rfl, rfl⟩, h⟩
        exact ⟨rfl, h⟩

theorem chain_congr (h : ∀ x ∈ l, next x = next' x) : Chain next p l ↔ Chain next' p l :=
  seg_congr h

theorem chain_update_of_notMem [DecidableEq α] {v : Option α} (h : a ∉ l) :
    Chain (Function.update next a v) p l ↔ Chain next p l := seg_update_of_notMem h

/-- A pointer determines the whole chain behind it. -/
theorem chain_unique (h : Chain next p l) (h' : Chain next p l') : l = l' := by
  induction l generalizing p l' with
  | nil =>
      rw [chain_nil] at h
      subst h
      exact (chain_none.mp h').symm
  | cons a l ih =>
      obtain ⟨rfl, hl⟩ := chain_cons.mp h
      obtain ⟨m, rfl, hm⟩ := chain_some.mp h'
      rw [ih hl hm]

/-- A segment up to the first visit of its end is determined by where it starts. -/
theorem seg_unique (h : Seg next p l (some a)) (h' : Seg next p l' (some a)) (ha : a ∉ l)
    (ha' : a ∉ l') : l = l' := by
  induction l generalizing p l' with
  | nil =>
      rw [seg_nil] at h
      subst h
      cases l' with
      | nil => rfl
      | cons b l' =>
          obtain ⟨hb, -⟩ := seg_cons.mp h'
          exact absurd (Option.some.inj hb ▸ List.mem_cons_self) ha'
  | cons b l ih =>
      obtain ⟨rfl, hl⟩ := seg_cons.mp h
      cases l' with
      | nil =>
          rw [seg_nil] at h'
          exact absurd (Option.some.inj h' ▸ List.mem_cons_self) ha
      | cons c l' =>
          obtain ⟨hc, hl'⟩ := seg_cons.mp h'
          obtain rfl := Option.some.inj hc
          rw [ih hl hl' (fun hm => ha (List.mem_cons_of_mem b hm))
            (fun hm => ha' (List.mem_cons_of_mem b hm))]

/-- The tail of a chain from any element it visits is a proper suffix. -/
theorem chain_suffix (h : Chain next p (l ++ a :: l')) : Chain next (next a) l' := by
  obtain ⟨r, _, hr⟩ := seg_append.mp h
  exact (seg_cons.mp hr).2

/-- What can be reached through the pointers, chain or not. -/
inductive Reach (next : α → Option α) (p : Option α) : α → Prop
  | first {a : α} : p = some a → Reach next p a
  | next {a b : α} : Reach next p a → next a = some b → Reach next p b

theorem reach_of_next (hp : p = some a) (h : Reach next (next a) b) : Reach next p b := by
  induction h with
  | first hb => exact Reach.next (Reach.first hp) hb
  | next _ hb ih => exact Reach.next ih hb

theorem chain_mem_iff (h : Chain next p l) : a ∈ l ↔ Reach next p a := by
  constructor
  · intro hmem
    induction l generalizing p with
    | nil => cases hmem
    | cons b l ih =>
        obtain ⟨hp, hl⟩ := chain_cons.mp h
        rcases List.mem_cons.mp hmem with rfl | hmem
        · exact Reach.first hp
        · exact reach_of_next hp (ih hl hmem)
  · intro hr
    induction hr with
    | first hp =>
        obtain ⟨l', rfl, _⟩ := chain_some.mp (hp ▸ h)
        exact List.mem_cons_self
    | next _ hb ih =>
        obtain ⟨s, t, rfl⟩ := List.append_of_mem ih
        obtain ⟨l', rfl, _⟩ := chain_some.mp (hb ▸ chain_suffix h)
        exact List.mem_append_right s (List.mem_cons_of_mem _ List.mem_cons_self)

/-- A null-terminated chain visits no element twice: the suffixes behind the two
visits would be the same list of different lengths. -/
theorem chain_nodup (h : Chain next p l) : l.Nodup := by
  induction l generalizing p with
  | nil => exact List.nodup_nil
  | cons a l ih =>
      obtain ⟨-, hl⟩ := chain_cons.mp h
      refine List.nodup_cons.mpr ⟨?_, ih hl⟩
      intro hmem
      obtain ⟨s, t, rfl⟩ := List.append_of_mem hmem
      have heq := chain_unique hl (chain_suffix hl)
      have hlen := congrArg List.length heq
      simp only [List.length_append, List.length_cons] at hlen
      omega

/-- Writing the last element's pointer and then the new element's pointer appends it. -/
theorem seg_snoc [DecidableEq α] (h : Seg next p (l ++ [b]) q) (hb : b ∉ l) :
    Seg (Function.update next b (some a)) p (l ++ [b]) (some a) := by
  obtain ⟨hl, -⟩ := seg_concat.mp h
  exact seg_concat.mpr ⟨(seg_update_of_notMem hb).mpr hl, Function.update_self b (some a) next⟩

end UnnamedOS.Lib
