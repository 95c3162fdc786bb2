import UnnamedOS.Lib.Bits
import UnnamedOS.Paging.Pager

/-!
# The frame bitmap

What `PL_SV` and `PL_FN` do to the bits of the list at `PL_MAP_START`. The `1` that they shift is
an `int`, so a shift by 31 or 63 reaches bits 31 to 63 of the word, and any other shift by 32 or
more reaches a bit of the lower half.
-/

namespace UnnamedOS.Paging

open UnnamedOS.Lib

/-- Bit `n` of the list, where a page that is not there yet counts as zeroed. -/
def Pager.marked (s : Pager) (n : Nat) : Bool :=
  match s.chain[n / 64 / 511]? with
  | none => false
  | some page => (page (n / 64 % 511)).getLsbD (n % 64)

/-- The list has the quad of frame `n`. -/
def Pager.Covers (s : Pager) (n : Nat) : Prop := n / 64 / 511 < s.chain.length

/-- The bits of its word that the mask for frame `n` consists of. -/
def Reaches (n b : Nat) : Prop := if n % 32 = 31 then 31 ≤ b else b = n % 32

instance (n b : Nat) : Decidable (Reaches n b) := by
  unfold Reaches
  infer_instance

theorem getLsbD_bit {n b : Nat} (hb : b < 64) :
    (bit (n % 64)).getLsbD b = decide (Reaches n b) := by
  have hk := getLsbD_one_signExtend (Nat.mod_lt n (by decide)) hb
  have hmod : n % 64 % 32 = n % 32 := by omega
  rw [bit, hmod, hk]
  unfold Reaches
  rfl

/-- A word after `PL_SV` has stored into it. -/
theorem getLsbD_stored (word : BitVec 64) (v : Bool) {n b : Nat} (hb : b < 64) :
    (if v then word ||| bit (n % 64) else word &&& ~~~bit (n % 64)).getLsbD b =
      if Reaches n b then v else word.getLsbD b := by
  have hbit := getLsbD_bit (n := n) hb
  cases v with
  | true =>
      rw [if_pos rfl, BitVec.getLsbD_or, hbit]
      by_cases h : Reaches n b <;> simp [h]
  | false =>
      rw [if_neg Bool.false_ne_true, BitVec.getLsbD_and, BitVec.getLsbD_not, hbit]
      by_cases h : Reaches n b <;> simp [h, hb]

variable {kpalloc : PageM UInt64} {s s' : Pager} {n : Nat} {v : Bool}

section Words

variable {chain : List (Nat → BitVec 64)}

theorem llNv_spec (fuel index p : Nat) (hfuel : index < 511 * fuel)
    (hin : p + index / 511 < s.chain.length) :
    Ends (llNv kpalloc fuel index p) s
      (fun r s' => s' = s ∧ r = (p + index / 511, index % 511)) fun _ _ => False := by
  induction fuel generalizing index p with
  | zero => omega
  | succ fuel ih =>
      rw [llNv]
      by_cases hpage : index > 510
      · rw [if_pos hpage]
        have hlast : ¬ s.chain.length ≤ p + 1 := by omega
        rw [ends_bind, extendLast, ends_bind, ends_get, if_neg hlast, ends_pure]
        have h := ih (index - 511) (p + 1) (by omega) (by omega)
        have hpage' : p + 1 + (index - 511) / 511 = p + index / 511 := by omega
        have hword : (index - 511) % 511 = index % 511 := by omega
        rwa [hpage', hword] at h
      · rw [if_neg hpage, ends_pure]
        have hpage' : p + index / 511 = p := by omega
        have hword : index % 511 = index := by omega
        rw [hpage', hword]
        exact ⟨rfl, rfl⟩

end Words

/-- The state with a word of its bitmap changed as `PL_SV` changes it. -/
def Pager.withFrame (s : Pager) (n : Nat) (v : Bool) : Pager :=
  { s with
    chain := s.chain.modify (n / 64 / 511) fun page =>
      Function.update page (n / 64 % 511)
        (if v then page (n / 64 % 511) ||| bit (n % 64) else page (n / 64 % 511) &&& ~~~bit (n % 64)) }

theorem plSv_spec (hin : s.Covers n) :
    Ends (plSv kpalloc n v) s (fun _ s' => s' = s.withFrame n v) fun _ _ => False := by
  unfold plSv
  refine (llNv_spec (n / 64 + 1) (n / 64) 0 (by omega) (by rw [Nat.zero_add]; exact hin)).bind ?_
  rintro r s' ⟨rfl, rfl⟩
  rw [ends_modify, Nat.zero_add]
  rfl

theorem length_withFrame : (s.withFrame n v).chain.length = s.chain.length :=
  List.length_modify _ _ _

/-- The bits that `PL_SV` sets are the reached ones of its word. -/
theorem marked_withFrame (hin : s.Covers n) (m : Nat) :
    (s.withFrame n v).marked m =
      if m / 64 = n / 64 ∧ Reaches n (m % 64) then v else s.marked m := by
  unfold Pager.marked Pager.withFrame
  simp only [List.getElem?_modify]
  by_cases hword : m / 64 = n / 64
  · obtain ⟨page, hpage⟩ : ∃ page, s.chain[n / 64 / 511]? = some page :=
      ⟨_, List.getElem?_eq_getElem hin⟩
    rw [hword, hpage]
    simp only [Option.map_eq_map, Option.map_some, ↓reduceIte, Function.update_self, true_and]
    exact getLsbD_stored _ v (Nat.mod_lt m (by decide))
  · rw [if_neg (fun h => hword h.1)]
    by_cases hpage : n / 64 / 511 = m / 64 / 511
    · have hplace : m / 64 % 511 ≠ n / 64 % 511 := by omega
      simp only [hpage, ↓reduceIte]
      cases s.chain[m / 64 / 511]? with
      | none => rfl
      | some page => simp [Function.update_of_ne hplace]
    · simp only [hpage, ↓reduceIte]
      cases s.chain[m / 64 / 511]? <;> rfl

/-! ## The search -/

/-- The lowest frame that is not marked. -/
structure Pager.FirstFree (s : Pager) (n : Nat) : Prop where
  below : ∀ m < n, s.marked m = true
  free : s.marked n = false

/-- `PL_FN` can tell that the bit of the frame is clear. -/
structure Pager.Visible (s : Pager) (n : Nat) : Prop where
  low : n % 64 ≤ 31
  above : n % 64 = 31 → ∀ b, 31 ≤ b → b < 64 → s.marked (64 * (n / 64) + b) = false

section Search

variable {page : Nat → BitVec 64}

theorem marked_of_page {p w b : Nat} (hpage : s.chain[p]? = some page) (hw : w < 511)
    (hb : b < 64) : s.marked (64 * (511 * p + w) + b) = (page w).getLsbD b := by
  have h1 : (64 * (511 * p + w) + b) / 64 / 511 = p := by omega
  have h2 : (64 * (511 * p + w) + b) / 64 % 511 = w := by omega
  have h3 : (64 * (511 * p + w) + b) % 64 = b := by omega
  rw [Pager.marked, h1, h2, h3, hpage]

/-- A word whose frames are all marked. -/
theorem word_full {p w : Nat} (hpage : s.chain[p]? = some page) (hw : w < 511)
    (h : ∀ b < 64, s.marked (64 * (511 * p + w) + b) = true) : page w = 0xFFFFFFFFFFFFFFFF := by
  apply BitVec.eq_of_getLsbD_eq
  intro b hb
  have hones : ∀ b < 64, (0xFFFFFFFFFFFFFFFF : BitVec 64).getLsbD b = true := by decide
  rw [hones b hb, ← marked_of_page hpage hw hb, h b hb]

theorem and_bit_eq_zero_iff {word : BitVec 64} {m : Nat} (hm : m < 32) :
    word &&& bit m = 0 ↔ ∀ b < 64, Reaches m b → word.getLsbD b = false := by
  have hmod : bit m = bit (m % 64) := by rw [Nat.mod_eq_of_lt (by omega)]
  rw [show (0 : BitVec 64) = 0#64 from rfl, and_eq_zero_iff, hmod]
  constructor
  · intro h b hb hreach
    exact h b hb (by rw [getLsbD_bit hb, decide_eq_true hreach])
  · intro h b hb hbit
    rw [getLsbD_bit hb, decide_eq_true_eq] at hbit
    exact h b hb hbit

theorem firstClear_eq {word : BitVec 64} {m : Nat} (hm : m < 32)
    (hbelow : ∀ b < m, word.getLsbD b = true)
    (hclear : ∀ b < 64, Reaches m b → word.getLsbD b = false) : firstClear word = some m := by
  unfold firstClear
  rw [List.find?_range_eq_some]
  refine ⟨by rw [decide_eq_true_eq]; exact (and_bit_eq_zero_iff hm).mpr hclear,
    List.mem_range.mpr hm, fun k hk => ?_⟩
  have hset : ¬ word &&& bit k = 0 := by
    intro hzero
    have hk' := (and_bit_eq_zero_iff (by omega)).mp hzero k (by omega)
      (by unfold Reaches; rw [if_neg (by omega)]; omega)
    rw [hbelow k hk] at hk'
    cases hk'
  simpa using hset

theorem ctzll_eq {word : BitVec 64} {m : Nat} (hm : m < 64)
    (hbelow : ∀ b < m, word.getLsbD b = true) (hclear : word.getLsbD m = false) :
    ctzll (~~~word) = some m := by
  unfold ctzll
  rw [List.find?_range_eq_some]
  refine ⟨by rw [BitVec.getLsbD_not, hclear]; simp [hm], List.mem_range.mpr hm, fun k hk => ?_⟩
  simp [hbelow k hk]

/-- The word of the lowest frame that is free, as the inner loops see it. -/
theorem Pager.FirstFree.word (h : s.FirstFree n) (hv : s.Visible n)
    (hpage : s.chain[n / 64 / 511]? = some page) :
    (List.range 511).find? (fun j => page j ≠ 0xFFFFFFFFFFFFFFFF) = some (n / 64 % 511) ∧
      firstClear (page (n / 64 % 511)) = some (n % 64) ∧
      ctzll (~~~page (n / 64 % 511)) = some (n % 64) := by
  have hw : n / 64 % 511 < 511 := Nat.mod_lt _ (by decide)
  have hlow := hv.low
  have hbit : ∀ b < 64, (page (n / 64 % 511)).getLsbD b = s.marked (64 * (n / 64) + b) := by
    intro b hb
    rw [← marked_of_page hpage hw hb]
    congr 1
    omega
  have hbelow : ∀ b < n % 64, (page (n / 64 % 511)).getLsbD b = true := by
    intro b hb
    rw [hbit b (by omega)]
    exact h.below _ (by omega)
  have hfree : (page (n / 64 % 511)).getLsbD (n % 64) = false := by
    rw [hbit _ (by omega), Nat.div_add_mod]
    exact h.free
  refine ⟨?_, firstClear_eq (by omega) hbelow fun b hb hreach => ?_,
    ctzll_eq (by omega) hbelow hfree⟩
  · rw [List.find?_range_eq_some]
    refine ⟨?_, List.mem_range.mpr hw, fun j hj => ?_⟩
    · have hne : page (n / 64 % 511) ≠ 0xFFFFFFFFFFFFFFFF := by
        intro hfull
        have hones : ∀ b < 64, (0xFFFFFFFFFFFFFFFF : BitVec 64).getLsbD b = true := by decide
        rw [hfull, hones _ (by omega)] at hfree
        cases hfree
      simpa using hne
    · have hfull := word_full hpage (by omega : j < 511) fun b hb => h.below _ (by omega)
      simp [hfull]
  · unfold Reaches at hreach
    by_cases h31 : n % 64 = 31
    · rw [if_pos (by omega)] at hreach
      rw [hbit b hb]
      exact hv.above h31 b hreach hb
    · rw [if_neg (by omega)] at hreach
      have heq : b = n % 64 := by omega
      rw [heq]
      exact hfree

/-- A page of the list whose frames are all marked is passed over. -/
theorem page_full {p : Nat} (hpage : s.chain[p]? = some page)
    (h : ∀ m < 64 * (511 * (p + 1)), s.marked m = true) :
    (List.range 511).find? (fun j => page j ≠ 0xFFFFFFFFFFFFFFFF) = none := by
  rw [List.find?_range_eq_none]
  intro j hj
  have hfull := word_full hpage hj fun b hb => h _ (by omega)
  simp [hfull]

theorem plFnLoop_spec (h : s.FirstFree n) (hv : s.Visible n) (hin : s.Covers n) (fuel p : Nat)
    (hp : p ≤ n / 64 / 511) (hfuel : n / 64 / 511 < p + fuel) :
    Ends (plFnLoop kpalloc fuel p (64 * 511 * p)) s (fun f s' => f = n ∧ s' = s)
      fun _ _ => False := by
  induction fuel generalizing p with
  | zero => omega
  | succ fuel ih =>
      unfold Pager.Covers at hin
      have hpage : s.chain[p]? = some s.chain[p] := List.getElem?_eq_getElem (by omega)
      refine Ends.bind (Q := fun t s' => t = s ∧ s' = s) (ends_get.mpr ⟨rfl, rfl⟩) ?_
      rintro t s' ⟨rfl, rfl⟩
      rw [hpage]
      dsimp only
      rcases Nat.lt_or_eq_of_le hp with hlt | rfl
      · rw [page_full hpage fun m hm => h.below m (by omega)]
        dsimp only
        rw [ends_bind, extendLast, ends_bind, ends_get, if_neg (by omega), ends_pure]
        have hrest := ih (p + 1) (by omega) (by omega)
        rwa [show 64 * 511 * (p + 1) = 64 * 511 * p + 64 * 511 by omega] at hrest
      · obtain ⟨hfind, hclear, hctz⟩ := h.word hv hpage
        rw [hfind]
        dsimp only
        rw [hclear]
        dsimp only
        rw [hctz, if_neg (fun hne => hne rfl), ends_pure]
        exact ⟨by omega, rfl⟩

end Search

theorem plFn_spec (h : s.FirstFree n) (hv : s.Visible n) (hin : s.Covers n) :
    Ends (plFn kpalloc) s (fun f s' => f = n ∧ s' = s) fun _ _ => False := by
  rw [plFn, ends_bind, ends_get]
  unfold Pager.Covers at hin
  exact plFnLoop_spec h hv hin _ 0 (Nat.zero_le _) (by omega)

/-! ## A new page behind the last -/

theorem covers_of_marked (h : s.marked n = true) : s.Covers n := by
  by_contra hout
  rw [Pager.marked, List.getElem?_eq_none (Nat.le_of_not_lt hout)] at h
  cases h

theorem marked_of_not_covers (h : ¬ s.Covers n) : s.marked n = false := by
  rw [← Bool.not_eq_true]
  exact fun hm => h (covers_of_marked hm)

/-- Zeroed pages at the end change no bit. -/
theorem marked_append {k : Nat} (h : s'.chain = s.chain ++ List.replicate k fun _ => 0) (m : Nat) :
    s'.marked m = s.marked m := by
  unfold Pager.marked
  rw [h]
  by_cases hin : m / 64 / 511 < s.chain.length
  · rw [List.getElem?_append_left hin]
  · rw [List.getElem?_append_right (by omega), List.getElem?_eq_none (Nat.le_of_not_lt hin)]
    by_cases hk : m / 64 / 511 - s.chain.length < k
    · rw [List.getElem?_replicate, if_pos hk]
      simp
    · rw [List.getElem?_replicate, if_neg hk]

/-- What `KPALLOC` has linked behind the last page is dropped. -/
def Pager.relinked (s : Pager) (len : Nat) : Pager :=
  { s with chain := s.chain.take len ++ [fun _ => 0] }

theorem relinked_of_eq {s t : Pager} (h : t.chain = s.chain) :
    t.relinked s.chain.length = { t with chain := s.chain ++ [fun _ => 0] } := by
  rw [Pager.relinked, h, List.take_length]

theorem extendLast_last {p : Nat} {Q : Pager → Prop} {E : Halt → Pager → Prop}
    (hp : s.chain.length = p + 1) (hk : Ends kpalloc s (fun _ t => Q t) E) :
    Ends (extendLast kpalloc p) s (fun _ u => ∃ t, Q t ∧ u = t.relinked s.chain.length) E := by
  rw [extendLast, ends_bind, ends_get, if_pos (by omega), extend]
  refine hk.bind fun _ t ht => ?_
  rw [ends_modify, hp]
  exact ⟨t, ht, rfl⟩

/-- With every frame of the list marked the loop comes to the last page. -/
theorem plFnLoop_last {Q : Nat → Pager → Prop} {E : Halt → Pager → Prop}
    (hfull : ∀ m < 64 * (511 * s.chain.length), s.marked m = true)
    (hlast : ∀ fuel p, s.chain.length = p + 1 → Ends (extendLast kpalloc p) s
      (fun _ t => Ends (plFnLoop kpalloc (fuel + 1) (p + 1) (64 * 511 * (p + 1))) t Q E) E)
    (fuel p : Nat) (hp : p < s.chain.length) (hfuel : s.chain.length < p + fuel) :
    Ends (plFnLoop kpalloc fuel p (64 * 511 * p)) s Q E := by
  induction fuel generalizing p with
  | zero => omega
  | succ fuel ih =>
      have hpage : s.chain[p]? = some s.chain[p] := List.getElem?_eq_getElem hp
      have hnext : 64 * 511 * (p + 1) = 64 * 511 * p + 64 * 511 := by omega
      refine Ends.bind (Q := fun t s' => t = s ∧ s' = s) (ends_get.mpr ⟨rfl, rfl⟩) ?_
      rintro t s' ⟨rfl, rfl⟩
      rw [hpage]
      dsimp only
      rw [page_full hpage fun m hm => hfull m (by omega)]
      dsimp only
      by_cases hmore : p + 1 < s'.chain.length
      · rw [ends_bind, extendLast, ends_bind, ends_get, if_neg (by omega), ends_pure, ← hnext]
        exact ih (p + 1) hmore (by omega)
      · obtain ⟨more, rfl⟩ : ∃ more, fuel = more + 1 := ⟨fuel - 1, by omega⟩
        rw [ends_bind, ← hnext]
        exact hlast more p (by omega)

theorem marked_relinked {t : Pager} {len m : Nat} (hlen : len ≤ t.chain.length) :
    (t.relinked len).marked m = if m / 64 / 511 < len then t.marked m else false := by
  have htake : (t.chain.take len).length = len := by rw [List.length_take, Nat.min_eq_left hlen]
  unfold Pager.marked Pager.relinked
  by_cases hm : m / 64 / 511 < len
  · rw [if_pos hm, List.getElem?_append_left (by omega), List.getElem?_take, if_pos hm]
  · rw [if_neg hm, List.getElem?_append_right (by omega), htake]
    cases m / 64 / 511 - len with
    | zero => simp
    | succ k => simp

theorem length_relinked {t : Pager} {len : Nat} (hlen : len ≤ t.chain.length) :
    (t.relinked len).chain.length = len + 1 := by
  rw [Pager.relinked, List.length_append, List.length_take, Nat.min_eq_left hlen]
  rfl

/-- With every frame of the list marked, the first one of a new page is found. -/
theorem plFnLoop_extends {Q : Pager → Prop} {E : Halt → Pager → Prop}
    (hk : Ends kpalloc s (fun _ t => (s.chain.length ≤ t.chain.length ∧
      ∀ m < 64 * (511 * s.chain.length), t.marked m = true) ∧ Q t) E)
    (hfull : ∀ m < 64 * (511 * s.chain.length), s.marked m = true) (fuel p : Nat)
    (hp : p < s.chain.length) (hfuel : s.chain.length < p + fuel) :
    Ends (plFnLoop kpalloc fuel p (64 * 511 * p)) s
      (fun f u => f = 64 * (511 * s.chain.length) ∧ ∃ t, s.chain.length ≤ t.chain.length ∧ Q t ∧
        u = t.relinked s.chain.length) E := by
  refine plFnLoop_last hfull (fun fuel p hlen => ?_) fuel p hp hfuel
  refine (extendLast_last hlen hk).mono ?_ fun _ _ he => he
  rintro _ _ ⟨t, ⟨⟨hle, hmarked⟩, hQ⟩, rfl⟩
  rw [hlen] at hle hmarked ⊢
  have hfirst : (t.relinked (p + 1)).FirstFree (64 * (511 * (p + 1))) := by
    refine ⟨fun m hm => ?_, ?_⟩
    · rw [marked_relinked hle, if_pos (by omega)]
      exact hmarked m hm
    · rw [marked_relinked hle, if_neg (by omega)]
  have hvisible : (t.relinked (p + 1)).Visible (64 * (511 * (p + 1))) :=
    ⟨by omega, fun h31 => by omega⟩
  have hcovers : (t.relinked (p + 1)).Covers (64 * (511 * (p + 1))) := by
    unfold Pager.Covers
    rw [length_relinked hle]
    omega
  have hfound : Ends (plFnLoop kpalloc (fuel + 1) (p + 1) (64 * 511 * (p + 1))) (t.relinked (p + 1))
      (fun f u => f = 64 * (511 * (p + 1)) ∧ u = t.relinked (p + 1)) fun _ _ => False :=
    plFnLoop_spec hfirst hvisible hcovers (fuel + 1) (p + 1) (by omega) (by omega)
  refine hfound.mono ?_ fun _ _ hf => hf.elim
  rintro f u ⟨rfl, rfl⟩
  exact ⟨rfl, t, hle, hQ, rfl⟩

/-- Without a free frame the first free one is that of a new page. -/
theorem Pager.FirstFree.full (h : s.FirstFree n) (hne : s.chain ≠ []) (hout : ¬ s.Covers n) :
    n = 64 * (511 * s.chain.length) ∧ ∀ m < 64 * (511 * s.chain.length), s.marked m = true := by
  have hpos : 0 < s.chain.length := List.length_pos_iff.mpr hne
  have hn : n = 64 * (511 * s.chain.length) := by
    have hle : n ≤ 64 * (511 * s.chain.length) := by
      by_contra hlt
      have hmark := covers_of_marked (h.below _ (Nat.lt_of_not_le hlt))
      unfold Pager.Covers at hmark
      omega
    have hpast : ¬ n / 64 / 511 < s.chain.length := hout
    omega
  exact ⟨hn, fun m hm => h.below m (by omega)⟩

/-- `PL_FN` finds the lowest frame that is free, in a new page if need be. -/
theorem plFn_firstFree {Q : Pager → Prop} (hne : s.chain ≠ []) (h : s.FirstFree n)
    (hv : s.Visible n)
    (hk : ¬ s.Covers n → Ends kpalloc s (fun _ s' => s'.chain = s.chain ∧ Q s') fun _ _ => False)
    (hQ : ∀ t, Q t → ∀ chain, Q { t with chain := chain }) :
    Ends (plFn kpalloc) s
      (fun f s' => f = n ∧ s'.Covers n ∧ (∀ m, s'.marked m = s.marked m) ∧
        (s' = s ∨ ¬ s.Covers n ∧ s'.chain = s.chain ++ [fun _ => 0] ∧ Q s'))
      fun _ _ => False := by
  by_cases hin : s.Covers n
  · refine (plFn_spec h hv hin).mono ?_ fun _ _ hf => hf
    rintro f t ⟨rfl, rfl⟩
    exact ⟨rfl, hin, fun _ => rfl, .inl rfl⟩
  · obtain ⟨hn, hfull⟩ := h.full hne hin
    have hpos : 0 < s.chain.length := List.length_pos_iff.mpr hne
    rw [plFn, ends_bind, ends_get]
    have hk' : Ends kpalloc s (fun _ t => (s.chain.length ≤ t.chain.length ∧
        ∀ m < 64 * (511 * s.chain.length), t.marked m = true) ∧ t.chain = s.chain ∧ Q t)
        fun _ _ => False := by
      refine (hk hin).mono ?_ fun _ _ hf => hf
      rintro _ t ⟨hchain, hQt⟩
      refine ⟨⟨by rw [hchain], fun m hm => ?_⟩, hchain, hQt⟩
      rw [Pager.marked, hchain]
      exact hfull m hm
    refine (plFnLoop_extends hk' hfull _ 0 hpos (by omega)).mono ?_ fun _ _ hf => hf
    rintro _ _ ⟨rfl, t, -, ⟨hchain, hQt⟩, rfl⟩
    rw [relinked_of_eq hchain]
    refine ⟨hn.symm, ?_, marked_append (k := 1) rfl, .inr ⟨hin, rfl, hQ t hQt _⟩⟩
    change n / 64 / 511 < (s.chain ++ [fun _ => 0]).length
    rw [List.length_append, List.length_singleton]
    omega

/-! ## What `PL_SV` gets right -/

/-- The next `k` pages that `KPALLOC` takes out of the pool are mapped and do not make it refill
the pool. -/
def Pager.Supplies (s : Pager) : Nat → (Nat → UInt64) → Prop
  | 0, _ => True
  | k + 1, pool => ∃ AN, (List.range 512).find? (fun i => pool i ≠ 0) = some AN ∧
      (AN < 32 ∨ s.paCalling = true) ∧ s.mapped (pageOf (pool AN)) ≠ none ∧
      s.Supplies k (Function.update pool AN 0)

/-- The pages that the list lacks for the quad of frame `n` can be had. -/
def Pager.Reachable (s : Pager) (n : Nat) : Prop :=
  s.chain ≠ [] ∧ s.Supplies (n / 64 / 511 + 1 - s.chain.length) s.pool

theorem Pager.Supplies.withPool {k : Nat} {pool : Nat → UInt64} (h : s.Supplies k pool)
    (pool' : Nat → UInt64) (chain : List (Nat → BitVec 64)) :
    ({ s with pool := pool', chain := chain } : Pager).Supplies k pool := by
  induction k generalizing pool with
  | zero => trivial
  | succ k ih =>
      obtain ⟨AN, hfind, hquiet, hmapped, hrest⟩ := h
      exact ⟨AN, hfind, hquiet, hmapped, ih hrest⟩

/-- A page out of the pool, with no refill behind it. -/
theorem kpallocWith_quiet {kpAlloc3 : PageM UInt64} {AN : Nat}
    (hfind : (List.range 512).find? (fun i => s.pool i ≠ 0) = some AN)
    (hquiet : AN < 32 ∨ s.paCalling = true) (hmapped : s.mapped (pageOf (s.pool AN)) ≠ none) :
    Ends (kpallocWith kpAlloc3) s
      (fun k s' => k = s.pool AN ∧ s' = { s with pool := Function.update s.pool AN 0 })
      fun _ _ => False := by
  refine Ends.bind (Q := fun t s' => t = s ∧ s' = s) (ends_get.mpr ⟨rfl, rfl⟩) ?_
  rintro t s' ⟨rfl, rfl⟩
  rw [hfind]
  dsimp only
  rw [ends_bind, ends_set, ends_bind, refillBehind, ends_bind, ends_get]
  have hno : ¬ (AN ≥ 32 ∧ s'.paCalling = false) := by
    rintro ⟨hge, hpa⟩
    rcases hquiet with hlt | htrue
    · omega
    · rw [htrue] at hpa
      cases hpa
  rw [if_neg hno, ends_pure, memfill, ends_bind, ends_bind, ends_get]
  have hpage : ¬ ({ s' with pool := Function.update s'.pool AN 0 } : Pager).mapped
      (pageOf (s'.pool AN)) = none := hmapped
  rw [if_neg hpage, ends_pure, ends_pure]
  exact ⟨rfl, rfl⟩

theorem KPALLOC_quiet {k : Nat} (h : s.Supplies (k + 1) s.pool) :
    Ends KPALLOC s (fun _ s' => s'.chain = s.chain ∧ s'.Supplies k s'.pool) fun _ _ => False := by
  obtain ⟨AN, hfind, hquiet, hmapped, hrest⟩ := h
  unfold KPALLOC kpallocDepth
  refine (kpallocWith_quiet hfind hquiet hmapped).mono ?_ fun _ _ hf => hf
  rintro _ t ⟨-, rfl⟩
  exact ⟨rfl, hrest.withPool _ _⟩

theorem llNv_extends (fuel index p : Nat) (hfuel : index < 511 * fuel) (hp : p < s.chain.length)
    (h : s.Supplies (p + index / 511 + 1 - s.chain.length) s.pool) :
    Ends (llNv KPALLOC fuel index p) s
      (fun r s' => r = (p + index / 511, index % 511) ∧
        s'.chain = s.chain ++ List.replicate (p + index / 511 + 1 - s.chain.length) fun _ => 0)
      fun _ _ => False := by
  induction fuel generalizing index p s with
  | zero => omega
  | succ fuel ih =>
      rw [llNv]
      by_cases hpage : index > 510
      · rw [if_pos hpage]
        have hpage' : p + 1 + (index - 511) / 511 = p + index / 511 := by omega
        have hword : (index - 511) % 511 = index % 511 := by omega
        have hgo := fun (t : Pager) => ih (s := t) (index - 511) (p + 1) (by omega)
        rw [hpage', hword] at hgo
        by_cases hlast : p + 1 < s.chain.length
        · rw [ends_bind, extendLast, ends_bind, ends_get, if_neg (by omega), ends_pure]
          exact hgo s hlast h
        · have hlen : s.chain.length = p + 1 := by omega
          obtain ⟨k, hk⟩ : ∃ k, p + index / 511 + 1 - s.chain.length = k + 1 :=
            ⟨p + index / 511 - s.chain.length, by omega⟩
          rw [hk] at h ⊢
          refine (extendLast_last hlen (KPALLOC_quiet h)).bind ?_
          rintro _ t ⟨u, ⟨hu, hsupplies⟩, htu⟩
          have ht : t.chain = s.chain ++ [fun _ => 0] := by rw [htu, relinked_of_eq hu]
          have hsupplies' : t.Supplies k t.pool := by
            rw [htu]
            exact hsupplies.withPool _ _
          have hlen' : t.chain.length = p + 2 := by
            rw [ht, List.length_append, hlen]
            rfl
          have hcount : p + index / 511 + 1 - t.chain.length = k := by omega
          have hrest := hgo t (by omega) (by rw [hcount]; exact hsupplies')
          rw [hcount] at hrest
          refine hrest.mono ?_ fun _ _ hf => hf
          rintro r u ⟨hr, hu⟩
          refine ⟨hr, ?_⟩
          rw [hu, ht, List.append_assoc, List.replicate_succ]
          rfl
      · rw [if_neg hpage, ends_pure]
        have hpage' : p + index / 511 = p := by omega
        have hword : index % 511 = index := by omega
        have hcount : p + 1 - s.chain.length = 0 := by omega
        rw [hpage', hword, hcount, List.replicate_zero, List.append_nil]
        exact ⟨rfl, rfl⟩

/-- What `PL_SV` does to the bits, with the pages that it adds. -/
theorem plSv_marked (h : s.Reachable n) :
    Ends (plSv KPALLOC n v) s (fun _ s' => s'.Covers n ∧ ∀ m, s'.marked m =
      if m / 64 = n / 64 ∧ Reaches n (m % 64) then v else s.marked m) fun _ _ => False := by
  have hpos : 0 < s.chain.length := List.length_pos_iff.mpr h.1
  unfold plSv
  refine (llNv_extends (n / 64 + 1) (n / 64) 0 (by omega) hpos (by
    rw [Nat.zero_add]
    exact h.2)).bind ?_
  rintro r t ⟨rfl, ht⟩
  rw [Nat.zero_add] at ht ⊢
  rw [ends_modify]
  have hin : t.Covers n := by
    unfold Pager.Covers
    rw [ht, List.length_append, List.length_replicate]
    omega
  have hin' : (t.withFrame n v).Covers n := by
    unfold Pager.Covers
    rw [length_withFrame]
    exact hin
  exact ⟨hin', fun m => (marked_withFrame hin m).trans (by rw [marked_append ht])⟩

/-- `PL_SV` makes bit `n` equal to `v` and keeps the others, and a frame that it frees is found
again as soon as it is the lowest one. -/
def SetsExactly (s : Pager) (n : Nat) (v : Bool) : Prop :=
  ∃ s', plSv KPALLOC n v s = .ok ⟨⟩ s' ∧
    (∀ m, s'.marked m = if m = n then v else s.marked m) ∧
    (v = false → (∀ m < n, s'.marked m = true) → plFn KPALLOC s' = .ok n s')

/-- The bits that the mask reaches besides bit `n` have the value already, and so has bit `n`
where the mask does not reach it. -/
structure ReachesOnly (s : Pager) (n : Nat) (v : Bool) : Prop where
  others : ∀ b < 64, b ≠ n % 64 → Reaches n b → s.marked (64 * (n / 64) + b) = v
  own : ¬ Reaches n (n % 64) → s.marked n = v

/-- For a bit below 31 the mask is right. -/
theorem ReachesOnly.of_low (h : n % 64 < 31) : ReachesOnly s n v := by
  have hmod : n % 32 = n % 64 := by omega
  have hreach : ∀ b, Reaches n b ↔ b = n % 64 := by
    intro b
    unfold Reaches
    rw [if_neg (by omega), hmod]
  exact ⟨fun b _ hne hb => absurd ((hreach b).mp hb) hne, fun hn => absurd ((hreach _).mpr rfl) hn⟩

theorem setsExactly_iff (h : s.Reachable n) : SetsExactly s n v ↔ ReachesOnly s n v := by
  obtain ⟨u, s', hrun, hin, hmarked⟩ := (plSv_marked (v := v) h).exists_ok
  have hquad : ∀ b < 64, (64 * (n / 64) + b) / 64 = n / 64 ∧ (64 * (n / 64) + b) % 64 = b := by
    intro b hb
    omega
  constructor
  · rintro ⟨t, ht, hexact, -⟩
    obtain ⟨-, rfl⟩ := EStateM.Result.ok.inj (hrun.symm.trans ht)
    refine ⟨fun b hb hne hreach => ?_, fun hmiss => ?_⟩
    · have h1 := hmarked (64 * (n / 64) + b)
      rw [if_pos ⟨(hquad b hb).1, by rw [(hquad b hb).2]; exact hreach⟩, hexact,
        if_neg (by omega)] at h1
      exact h1
    · have h1 := hmarked n
      rw [if_neg (fun h' => hmiss h'.2), hexact, if_pos rfl] at h1
      exact h1.symm
  · intro honly
    have hexact : ∀ m, s'.marked m = if m = n then v else s.marked m := by
      intro m
      rw [hmarked]
      by_cases hmn : m = n
      · subst hmn
        rw [if_pos rfl]
        by_cases hreach : Reaches m (m % 64)
        · rw [if_pos ⟨rfl, hreach⟩]
        · rw [if_neg (fun h' => hreach h'.2)]
          exact honly.own hreach
      · rw [if_neg hmn]
        by_cases hreach : m / 64 = n / 64 ∧ Reaches n (m % 64)
        · rw [if_pos hreach]
          have hother := honly.others (m % 64) (by omega) (by omega) hreach.2
          rw [← hreach.1, Nat.div_add_mod] at hother
          exact hother.symm
        · rw [if_neg hreach]
    refine ⟨s', hrun, hexact, fun hv hbelow => ?_⟩
    subst hv
    have hclear : ∀ b < 64, Reaches n b → s'.marked (64 * (n / 64) + b) = false := by
      intro b hb hreach
      rw [hmarked, if_pos ⟨(hquad b hb).1, by rw [(hquad b hb).2]; exact hreach⟩]
    have hfirst : s'.FirstFree n := ⟨hbelow, by rw [hexact, if_pos rfl]⟩
    -- a cleared bit below bit n would leave a lower frame free
    have hnone : ∀ b < n % 64, ¬ Reaches n b := by
      intro b hb hreach
      have hlow := hbelow (64 * (n / 64) + b) (by omega)
      rw [hclear b (by omega) hreach] at hlow
      cases hlow
    have hvisible : s'.Visible n := by
      refine ⟨?_, fun h31 b hb hb64 => hclear b hb64 ?_⟩
      · by_contra hhigh
        by_cases h63 : n % 32 = 31
        · refine hnone 31 (by omega) ?_
          unfold Reaches
          rw [if_pos h63]
        · refine hnone (n % 32) (by omega) ?_
          unfold Reaches
          rw [if_neg h63]
      · unfold Reaches
        rw [if_pos (by omega)]
        exact hb
    have hfind : Ends (plFn KPALLOC) s' (fun f t => f = n ∧ t = s') fun _ _ => False :=
      plFn_spec hfirst hvisible hin
    obtain ⟨f, t, hfound, rfl, rfl⟩ := hfind.exists_ok
    exact hfound

/-- One page of bits, none of them set. -/
def clearMap : Pager where
  pml4 := fun _ => none
  pdpt := fun _ _ => none
  pde := fun _ _ _ => none
  pt := fun _ => none
  pool := fun _ => 0
  chain := [fun _ => 0]
  paCalling := false

theorem clearMap_reachable : clearMap.Reachable 40 ∧ clearMap.Reachable 5 :=
  ⟨⟨List.cons_ne_nil _ _, trivial⟩, List.cons_ne_nil _ _, trivial⟩

theorem clearMap_sets_five : SetsExactly clearMap 5 true :=
  (setsExactly_iff clearMap_reachable.2).mpr (ReachesOnly.of_low (by decide))

/-- Marking frame 40 marks frame 8 instead. -/
theorem frame_forty_not_set : ¬ ∀ (s : Pager) (n : Nat) (v : Bool), s.chain ≠ [] →
    SetsExactly s n v := by
  intro h
  obtain ⟨s', hrun, hexact, -⟩ := h clearMap 40 true (List.cons_ne_nil _ _)
  obtain ⟨u, t, ht, -, hmarked⟩ := (plSv_marked (v := true) clearMap_reachable.1).exists_ok
  obtain ⟨-, rfl⟩ := EStateM.Result.ok.inj (hrun.symm.trans ht)
  have h1 := (hexact 40).symm.trans (hmarked 40)
  exact absurd h1 (by decide)

end UnnamedOS.Paging
