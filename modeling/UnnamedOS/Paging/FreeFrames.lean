import UnnamedOS.Paging.KernelAllocation

/-!
# Free frames in any tables

Whatever tables there are and whatever the pool holds: as long as the pool is not refilled while the
bitmap is extended, a page that an allocation maps gets a frame that was not marked, and is the only
new page that gets it.
-/

namespace UnnamedOS.Paging

open UnnamedOS.Lib

/-- What is in the pool is mapped. -/
def PoolMapped (s : Pager) : Prop := ∀ i < 512, s.pool i ≠ 0 → s.mapped (pageOf (s.pool i)) ≠ none

/-- Slots of the pool have been emptied at most. -/
def Fewer (s t : Pager) : Prop := ∀ i, t.pool i = s.pool i ∨ t.pool i = 0

/-- Nothing but the pool has changed. -/
structure Drained (s t : Pager) : Prop where
  pool : Fewer s t
  rest : t = { s with pool := t.pool }

/-- The tables on the way to the page are there. -/
structure Pager.Leads (s : Pager) (p : Page) : Prop where
  pml4 : s.pml4 p.pml4 ≠ none
  pdpt : s.pdpt p.pml4 p.pdpt ≠ none
  pde : s.pde p.pml4 p.pdpt p.pde ≠ none

/-- Tables have been linked to absent entries at most. -/
structure Prepares (s t : Pager) : Prop where
  mapped : ∀ p, t.mapped p = s.mapped p
  pml4 : ∀ i, s.pml4 i ≠ none → t.pml4 i ≠ none
  pdpt : ∀ i j, s.pml4 i ≠ none → s.pdpt i j ≠ none → t.pdpt i j ≠ none
  pde : ∀ p, s.Leads p → t.pde p.pml4 p.pdpt p.pde ≠ none
  marked : ∀ m, t.marked m = s.marked m
  calling : t.paCalling = s.paCalling
  pool : Fewer s t

/-- The search has put the frame `ad` into a page that was not mapped. -/
def Placed (s : Pager) (ad : Nat) (v : UInt64) (s' : Pager) : Prop :=
  ∃ t p, Prepares s t ∧ t.Leads p ∧ t.pt p = none ∧ p.InTables ∧ v = constructVirtualAddress p ∧
    s' = t.withPage p ad

variable {s s' s'' t u : Pager} {p q : Page} {i j k n m f ad : Nat} {flags : UInt8} {v : UInt64}

/-! ## Tables -/

theorem Fewer.refl (s : Pager) : Fewer s s := fun _ => .inl rfl

theorem Fewer.trans (h : Fewer s s') (h' : Fewer s' s'') : Fewer s s'' := by
  intro i
  rcases h' i with hsame | hzero
  · rw [hsame]
    exact h i
  · exact .inr hzero

theorem Drained.of_pop (s : Pager) (a : Nat) : Drained s (s.pop a) := by
  refine ⟨fun i => ?_, rfl⟩
  by_cases hi : i = a
  · exact .inr (by rw [hi]; exact Function.update_self ..)
  · exact .inl (Function.update_of_ne hi ..)

theorem Drained.sameTables (h : Drained s t) : SameTables s t := by
  rw [h.rest]
  exact ⟨rfl, rfl, rfl, rfl⟩

theorem Drained.chain (h : Drained s t) : t.chain = s.chain := by rw [h.rest]

theorem Drained.calling (h : Drained s t) : t.paCalling = s.paCalling := by rw [h.rest]

theorem Pager.Leads.mapped (h : s.Leads p) : s.mapped p = s.pt p := by
  rw [Pager.mapped, if_neg]
  rintro (h0 | h0 | h0)
  · exact h.pml4 h0
  · exact h.pdpt h0
  · exact h.pde h0

theorem Prepares.refl (s : Pager) : Prepares s s :=
  ⟨fun _ => rfl, fun _ h => h, fun _ _ _ h => h, fun _ h => h.pde, fun _ => rfl, rfl,
    .refl s⟩

theorem Prepares.leads (h : Prepares s t) (hp : s.Leads p) : t.Leads p :=
  ⟨h.pml4 _ hp.pml4, h.pdpt _ _ hp.pml4 hp.pdpt, h.pde p hp⟩

theorem Prepares.trans (h : Prepares s t) (h' : Prepares t u) : Prepares s u where
  mapped p := (h'.mapped p).trans (h.mapped p)
  pml4 i hi := h'.pml4 i (h.pml4 i hi)
  pdpt i j hi hj := h'.pdpt i j (h.pml4 i hi) (h.pdpt i j hi hj)
  pde p hp := h'.pde p (h.leads hp)
  marked m := (h'.marked m).trans (h.marked m)
  calling := h'.calling.trans h.calling
  pool := h.pool.trans h'.pool

theorem Drained.prepares (h : Drained s t) : Prepares s t := by
  have ht := h.sameTables
  refine ⟨ht.mapped, fun i hi => ?_, fun i j _ hj => ?_, fun p hp => ?_, fun m => ?_, h.calling,
    h.pool⟩
  · rwa [ht.pml4]
  · rwa [ht.pdpt]
  · rw [ht.pde]
    exact hp.pde
  · rw [Pager.marked, Pager.marked, h.chain]

theorem prepares_linkPml4 (h : s.pml4 i = none) (M : Entry) : Prepares s (linkPml4 i M s) := by
  have hne : ∀ j, s.pml4 j ≠ none → j ≠ i := by
    rintro j hj rfl
    exact hj h
  refine ⟨fun p => mapped_linkPml4_absent h, fun j hj => ?_, fun j l hj hl => ?_, fun p hp => hp.pde,
    fun _ => rfl, rfl, .refl s⟩
  · simpa [linkPml4, hne j hj] using hj
  · simpa [linkPml4, hne j hj] using hl

theorem prepares_linkPdpt (h : s.pdpt i j = none) (M : Entry) : Prepares s (linkPdpt i j M s) := by
  refine ⟨fun p => mapped_linkPdpt_absent h, fun _ hi => hi, fun i' j' _ hj => ?_, fun p hp => ?_,
    fun _ => rfl, rfl, .refl s⟩
  · by_cases hi : i' = i
    · subst hi
      by_cases hjj : j' = j
      · subst hjj
        exact absurd h hj
      · simpa [linkPdpt, hjj] using hj
    · simpa [linkPdpt, hi] using hj
  · by_cases hi : p.pml4 = i
    · by_cases hj : p.pdpt = j
      · exact absurd (by rw [hi, hj]; exact h) hp.pdpt
      · simpa [linkPdpt, hi, hj] using hp.pde
    · simpa [linkPdpt, hi] using hp.pde

theorem prepares_linkPde (h : s.pde i j k = none) (M : Entry) : Prepares s (linkPde i j k M s) := by
  refine ⟨fun p => mapped_linkPde_absent h, fun _ hi => hi, fun _ _ _ hj => hj, fun p hp => ?_,
    fun _ => rfl, rfl, .refl s⟩
  have hpde := hp.pde
  by_cases hi : p.pml4 = i
  · by_cases hj : p.pdpt = j
    · by_cases hk : p.pde = k
      · simp [linkPde, hi, hj, hk]
      · simpa [linkPde, hi, hj, hk] using hpde
    · simpa [linkPde, hi, hj] using hpde
  · simpa [linkPde, hi] using hpde

theorem inTables_mk (hi : i < 512) (hj : j < 512) (hk : k < 512) (hn : n < 512) :
    (⟨i, j, k, n⟩ : Page).InTables := ⟨hi, hj, hk, hn⟩

theorem freePt_lt (h : s.freePt i j k = some n) : n < 512 := by
  rw [Pager.freePt, List.find?_range_eq_some] at h
  exact List.mem_range.mp h.2.1

section Search

variable {kpalloc : PageM UInt64} {Q : Pager → Prop}

theorem newTable_any (h : Ends kpalloc s (fun _ t => Q t) fun _ _ => True) :
    Ends (newTable kpalloc flags) s (fun _ t => Q t) fun _ _ => True := by
  refine h.bind fun M t ht => ?_
  rw [ends_bind, ends_get]
  split
  · exact ends_throw.mpr trivial
  · exact ends_pure.mpr ht

theorem install_placed (h : Prepares s t) (hp : t.Leads p) (hpt : t.pt p = none)
    (hin : p.InTables) :
    Ends (install ad p) t (fun r s' => Found (Placed s ad) (Prepares s) r s') fun _ _ => True := by
  rw [install, ends_bind, ends_modify, ends_pure]
  exact ⟨t, p, h, hp, hpt, hin, rfl, rfl⟩

theorem Placed.after (h : Prepares s t) : Placed t ad v s' → Placed s ad v s' := by
  rintro ⟨u, p, hu, hp⟩
  exact ⟨u, p, h.trans hu, hp⟩

theorem found_after {r : Option UInt64} (h : Prepares s t)
    (hr : Found (Placed t ad) (Prepares t) r s') : Found (Placed s ad) (Prepares s) r s' := by
  cases r with
  | some v => exact Placed.after h hr
  | none => exact h.trans hr

variable (hk : ∀ s : Pager, s.paCalling = true →
  Ends kpalloc s (fun _ t => Drained s t) fun _ _ => True)

include hk

theorem ensurePml4_prepares (hcall : s.paCalling = true) :
    Ends (ensurePml4 kpalloc flags i) s (fun _ t => Prepares s t ∧ t.pml4 i ≠ none)
      fun _ _ => True := by
  rw [ensurePml4, ends_bind, ends_get]
  split
  · rename_i hnone
    refine (newTable_any (hk s hcall)).bind fun M t ht => ?_
    have hnone' : t.pml4 i = none := by
      rw [ht.sameTables.pml4]
      exact hnone
    exact ends_modify.mpr ⟨ht.prepares.trans (prepares_linkPml4 hnone' M), by simp [linkPml4]⟩
  · rename_i hthere
    exact ends_pure.mpr ⟨.refl s, hthere⟩

theorem ensurePdpt_prepares (hcall : s.paCalling = true) :
    Ends (ensurePdpt kpalloc flags i j) s (fun _ t => Prepares s t ∧ t.pdpt i j ≠ none)
      fun _ _ => True := by
  rw [ensurePdpt, ends_bind, ends_get]
  split
  · rename_i hnone
    refine (newTable_any (hk s hcall)).bind fun M t ht => ?_
    have hnone' : t.pdpt i j = none := by
      rw [ht.sameTables.pdpt]
      exact hnone
    exact ends_modify.mpr ⟨ht.prepares.trans (prepares_linkPdpt hnone' M), by simp [linkPdpt]⟩
  · rename_i hthere
    exact ends_pure.mpr ⟨.refl s, hthere⟩

theorem ensurePde_prepares (hcall : s.paCalling = true) :
    Ends (ensurePde kpalloc flags i j k) s (fun _ t => Prepares s t ∧ t.pde i j k ≠ none)
      fun _ _ => True := by
  rw [ensurePde, ends_bind, ends_get]
  split
  · rename_i hnone
    refine (newTable_any (hk s hcall)).bind fun M t ht => ?_
    have hnone' : t.pde i j k = none := by
      rw [ht.sameTables.pde]
      exact hnone
    exact ends_modify.mpr ⟨ht.prepares.trans (prepares_linkPde hnone' M), by simp [linkPde]⟩
  · rename_i hthere
    exact ends_pure.mpr ⟨.refl s, hthere⟩

/-- Behind a full page table: the first page of a new one, with the tables above it. -/
theorem nextTable_placed (hcall : s.paCalling = true) (hi : i < 512) (hj : j < 512)
    (hpml4 : s.pml4 i ≠ none) (hpdpt : s.pdpt i j ≠ none) :
    Ends (nextTable kpalloc ad i j k) s (fun r s' => Found (Placed s ad) (Prepares s) r s')
      fun _ _ => True := by
  rw [nextTable, ends_bind, ends_get]
  split
  · split
    · rename_i hlt hnone
      refine (newTable_any (hk s hcall)).bind fun M t ht => ?_
      have hnone' : t.pde i j (k + 1) = none := by
        rw [ht.sameTables.pde]
        exact hnone
      have hlink := ht.prepares.trans (prepares_linkPde hnone' M)
      rw [ends_bind, ends_modify]
      exact install_placed hlink ⟨hlink.pml4 i hpml4, hlink.pdpt i j hpml4 hpdpt, by simp [linkPde]⟩
        (by simp [linkPde]) (inTables_mk hi hj (by omega) (by decide))
    · exact ends_pure.mpr (.refl s)
  · split
    · split
      · rename_i hlt hnone
        refine (newTable_any (hk s hcall)).bind fun M t ht => ?_
        refine (newTable_any (hk t (ht.calling.trans hcall))).bind fun M2 u hu => ?_
        have htwo := ht.prepares.trans hu.prepares
        have hnone' : u.pdpt i (j + 1) = none := by
          rw [hu.sameTables.pdpt, ht.sameTables.pdpt]
          exact hnone
        have hlink := htwo.trans (prepares_linkPdpt hnone' M)
        have hlink₂ := hlink.trans
          (prepares_linkPde (i := i) (j := j + 1) (k := 0) (by simp [linkPdpt]) M2)
        rw [ends_bind, ends_modify]
        exact install_placed hlink₂
          ⟨hlink₂.pml4 i hpml4, by simp [linkPde, linkPdpt], by simp [linkPde]⟩
          (by simp [linkPde]) (inTables_mk hi (by omega) (by decide) (by decide))
      · exact ends_pure.mpr (.refl s)
    · split
      · split
        · rename_i hlt hnone
          refine (newTable_any (hk s hcall)).bind fun M t ht => ?_
          refine (newTable_any (hk t (ht.calling.trans hcall))).bind fun M2 u hu => ?_
          have htwo := ht.prepares.trans hu.prepares
          refine (newTable_any (hk u (htwo.calling.trans hcall))).bind fun M3 w hw => ?_
          have hthree := htwo.trans hw.prepares
          have hnone' : w.pml4 (i + 1) = none := by
            rw [hw.sameTables.pml4, hu.sameTables.pml4, ht.sameTables.pml4]
            exact hnone
          have hlink := hthree.trans (prepares_linkPml4 hnone' M)
          have hlink₂ := hlink.trans
            (prepares_linkPdpt (i := i + 1) (j := 0) (by simp [linkPml4]) M2)
          have hlink₃ := hlink₂.trans
            (prepares_linkPde (i := i + 1) (j := 0) (k := 0) (by simp [linkPdpt]) M3)
          rw [ends_bind, ends_modify]
          exact install_placed hlink₃
            ⟨by simp [linkPde, linkPdpt, linkPml4], by simp [linkPde, linkPdpt], by simp [linkPde]⟩
            (by simp [linkPde]) (inTables_mk (by omega) (by decide) (by decide) (by decide))
        · exact ends_pure.mpr (.refl s)
      · exact ends_throw.mpr trivial

theorem searchPde_placed (hcall : s.paCalling = true) (hi : i < 512) (hj : j < 512) (hk' : k < 512)
    (hpml4 : s.pml4 i ≠ none) (hpdpt : s.pdpt i j ≠ none) :
    Ends (searchPde kpalloc ad i j k) s (fun r s' => Found (Placed s ad) (Prepares s) r s')
      fun _ _ => True := by
  refine (ensurePde_prepares hk hcall).bind ?_
  rintro _ t ⟨ht, hpde⟩
  rw [ends_bind, ends_get]
  cases hfree : t.freePt i j k with
  | some pt =>
      have hpt := freePt_lt hfree
      exact install_placed ht ⟨ht.pml4 i hpml4, ht.pdpt i j hpml4 hpdpt, hpde⟩
        (KernelKeeps.freePt_absent hfree) ⟨hi, hj, hk', hpt⟩
  | none =>
      exact (nextTable_placed hk (ht.calling.trans hcall) hi hj (ht.pml4 i hpml4)
        (ht.pdpt i j hpml4 hpdpt)).mono (fun _ _ h => found_after ht h) fun _ _ h => h

theorem searchPdpt_placed (hcall : s.paCalling = true) (hi : i < 512) (hj : j < 512)
    (hpml4 : s.pml4 i ≠ none) :
    Ends (searchPdpt kpalloc ad i j) s (fun r s' => Found (Placed s ad) (Prepares s) r s')
      fun _ _ => True := by
  refine (ensurePdpt_prepares hk hcall).bind ?_
  rintro _ t ⟨ht, hpdpt⟩
  refine searchFrom_rule (Q := Placed s ad)
    (fun _ u => Prepares s u ∧ u.pml4 i ≠ none ∧ u.pdpt i j ≠ none) 512 0
    (fun l u _ hl hu => ?_) ⟨ht, ht.pml4 i hpml4, hpdpt⟩ |>.mono (fun r w h => ?_) fun _ _ h => h
  · obtain ⟨hsu, hpml4', hpdpt'⟩ := hu
    refine (searchPde_placed hk (hsu.calling.trans hcall) hi hj (by omega) hpml4' hpdpt').mono
      (fun r w h => ?_) fun _ _ h => h
    cases r with
    | some v => exact Placed.after hsu h
    | none => exact ⟨hsu.trans h, h.pml4 i hpml4', h.pdpt i j hpml4' hpdpt'⟩
  · cases r with
    | some v => exact h
    | none => exact h.1

theorem searchPml4_placed (hcall : s.paCalling = true) (hi : i < 512) :
    Ends (searchPml4 kpalloc ad i) s (fun r s' => Found (Placed s ad) (Prepares s) r s')
      fun _ _ => True := by
  refine (ensurePml4_prepares hk hcall).bind ?_
  rintro _ t ⟨ht, hpml4⟩
  refine searchFrom_rule (Q := Placed s ad) (fun _ u => Prepares s u ∧ u.pml4 i ≠ none) 512 0
    (fun l u _ hl hu => ?_) ⟨ht, hpml4⟩ |>.mono (fun r w h => ?_) fun _ _ h => h
  · obtain ⟨hsu, hpml4'⟩ := hu
    refine (searchPdpt_placed hk (hsu.calling.trans hcall) hi (by omega) hpml4').mono
      (fun r w h => ?_) fun _ _ h => h
    cases r with
    | some v => exact Placed.after hsu h
    | none => exact ⟨hsu.trans h, h.pml4 i hpml4'⟩
  · cases r with
    | some v => exact h
    | none => exact h.1

/-- The search of `KP_ALLOC3`. -/
theorem search_placed (hcall : s.paCalling = true) :
    Ends (searchFrom (searchPml4 kpalloc ad) 511 1) s
      (fun r s' => Found (Placed s ad) (Prepares s) r s') fun _ _ => True := by
  refine searchFrom_rule (fun _ u => Prepares s u) 511 1 (fun i u _ hi hu => ?_) (.refl s)
  exact (searchPml4_placed hk (hu.calling.trans hcall) (by omega)).mono
    (fun _ _ h => found_after hu h) fun _ _ h => h

end Search

/-! ## The bitmap -/

/-- All frames of the bitmap are marked, so that `PL_FN` extends it. -/
def Pager.AllMarked (s : Pager) : Prop := ∀ m < 64 * (511 * s.chain.length), s.marked m = true

theorem page_ones {page : Nat → BitVec 64} {l : Nat} (hpage : s.chain[l]? = some page)
    (hones : (List.range 511).find? (fun j => page j ≠ 0xFFFFFFFFFFFFFFFF) = none)
    (hlow : 64 * (511 * l) ≤ m) (hm : m < 64 * (511 * (l + 1))) : s.marked m = true := by
  rw [List.find?_range_eq_none] at hones
  have hw : m / 64 - 511 * l < 511 := by omega
  have hword := hones (m / 64 - 511 * l) hw
  rw [Bool.not_eq_true', decide_eq_false_iff_not, not_not] at hword
  have hones : ∀ b < 64, (0xFFFFFFFFFFFFFFFF : BitVec 64).getLsbD b = true := by decide
  have hbit := marked_of_page (b := m % 64) hpage hw (Nat.mod_lt m (by decide))
  rw [hword, hones _ (Nat.mod_lt m (by decide))] at hbit
  have heq : 64 * (511 * l + (m / 64 - 511 * l)) + m % 64 = m := by omega
  rwa [heq] at hbit

/-- The bit that the inner loop stops at is clear. -/
theorem firstClear_free {word : BitVec 64} (h : firstClear word = some m) :
    m < 32 ∧ word.getLsbD m = false := by
  have hlt : m < 32 := List.mem_range.mp (List.mem_of_find?_eq_some h)
  have hzero := List.find?_some h
  rw [decide_eq_true_iff, and_bit_eq_zero_iff hlt] at hzero
  refine ⟨hlt, hzero m (by omega) ?_⟩
  unfold Reaches
  split
  · omega
  · omega

section Frames

variable {kpalloc : PageM UInt64} {Q : (Nat → UInt64) → Prop}

/-- `PL_FN` from page `l` on. A page that it adds has no frame marked. -/
theorem plFnLoop_free (fuel l : Nat)
    (hk : s.AllMarked → Ends kpalloc s (fun _ t => Drained s t ∧ Q t.pool) fun _ _ => True)
    (hQ : Q s.pool) (hbefore : ∀ m < 64 * (511 * l), s.marked m = true) :
    Ends (plFnLoop kpalloc fuel l (64 * 511 * l)) s
      (fun f t => (Prepares s t ∧ Q t.pool) ∧ t.Covers f ∧ s.marked f = false ∧ f % 64 ≤ 31)
      fun _ _ => True := by
  induction fuel generalizing l s with
  | zero => exact ends_throw.mpr trivial
  | succ fuel ih =>
      refine Ends.bind (Q := fun t s' => t = s ∧ s' = s) (ends_get.mpr ⟨rfl, rfl⟩) ?_
      rintro _ s ⟨rfl, rfl⟩
      cases hpage : s.chain[l]? with
      | none => exact ends_throw.mpr trivial
      | some page =>
          dsimp only
          obtain ⟨hl, -⟩ := List.getElem?_eq_some_iff.mp hpage
          cases hword : (List.range 511).find? fun j => page j ≠ 0xFFFFFFFFFFFFFFFF with
          | some j =>
              obtain ⟨-, hmem, -⟩ := List.find?_range_eq_some.mp hword
              have hj := List.mem_range.mp hmem
              dsimp only
              cases hbit : firstClear (page j) with
              | none => exact ends_throw.mpr trivial
              | some m =>
                  obtain ⟨hm, hclear⟩ := firstClear_free hbit
                  have heq : 64 * 511 * l + 64 * j + m = 64 * (511 * l + j) + m := by omega
                  dsimp only
                  split
                  · exact ends_throw.mpr trivial
                  · rw [ends_pure, heq]
                    refine ⟨⟨.refl s, hQ⟩, ?_, ?_, by omega⟩
                    · unfold Pager.Covers
                      omega
                    · rw [marked_of_page hpage hj (by omega)]
                      exact hclear
          | none =>
              have hnext : ∀ m < 64 * (511 * (l + 1)), s.marked m = true := by
                intro m hm
                by_cases hlow : 64 * (511 * l) ≤ m
                · exact page_ones hpage hword hlow hm
                · exact hbefore m (by omega)
              have hstep : 64 * 511 * l + 64 * 511 = 64 * 511 * (l + 1) := by omega
              dsimp only
              rw [hstep]
              by_cases hlast : s.chain.length ≤ l + 1
              · have hlen : s.chain.length = l + 1 := by omega
                have hall : s.AllMarked := by
                  unfold Pager.AllMarked
                  rwa [hlen]
                refine (extendLast_last hlen (hk hall)).bind ?_
                rintro _ _ ⟨t, ⟨ht, hQt⟩, rfl⟩
                rw [relinked_of_eq ht.chain]
                have hmarked : ∀ m, ({ t with chain := s.chain ++ [fun _ => 0] } : Pager).marked m =
                    s.marked m := marked_append (k := 1) rfl
                have hprep : Prepares s { t with chain := s.chain ++ [fun _ => 0] } := by
                  have hp := ht.prepares
                  exact ⟨hp.mapped, hp.pml4, hp.pdpt, hp.pde, hmarked, hp.calling, hp.pool⟩
                have hopen : ¬ ({ t with chain := s.chain ++ [fun _ => 0] } : Pager).AllMarked := by
                  intro hall'
                  have hout : ¬ s.Covers (64 * (511 * (l + 1))) := by
                    unfold Pager.Covers
                    omega
                  have hbit := hall' (64 * (511 * (l + 1))) (by
                    rw [List.length_append, List.length_singleton]
                    omega)
                  rw [hmarked, marked_of_not_covers hout] at hbit
                  cases hbit
                refine (ih (l + 1) (fun h => absurd h hopen) hQt fun m hm => ?_).mono ?_
                  fun _ _ h => h
                · rw [hmarked]
                  exact hnext m hm
                · rintro f u ⟨⟨hu, hQu⟩, hcovers, hfree, hlow⟩
                  exact ⟨⟨hprep.trans hu, hQu⟩, hcovers, (hmarked f).symm.trans hfree, hlow⟩
              · rw [ends_bind, extendLast, ends_bind, ends_get, if_neg hlast, ends_pure]
                exact ih (l + 1) hk hQ hnext

theorem plFn_free
    (hk : s.AllMarked → Ends kpalloc s (fun _ t => Drained s t ∧ Q t.pool) fun _ _ => True)
    (hQ : Q s.pool) : Ends (plFn kpalloc) s
      (fun f t => (Prepares s t ∧ Q t.pool) ∧ t.Covers f ∧ s.marked f = false ∧ f % 64 ≤ 31)
      fun _ _ => True := by
  rw [plFn, ends_bind, ends_get]
  exact plFnLoop_free _ 0 hk hQ fun m hm => absurd hm (Nat.not_lt_zero m)

end Frames

/-- Of the bits that `PL_SV` sets for a frame of the lower half of a word one is in a lower half. -/
theorem marked_low (hcovers : s.Covers f) (hf : f % 64 ≤ 31) (hm : m % 64 ≤ 31) :
    (s.withFrame f true).marked m = true ↔ m = f ∨ s.marked m = true := by
  rw [marked_withFrame hcovers]
  by_cases hmf : m = f
  · subst hmf
    have hreach : Reaches m (m % 64) := by
      unfold Reaches
      split
      · omega
      · omega
    rw [if_pos ⟨rfl, hreach⟩]
    exact iff_of_true rfl (.inl rfl)
  · have hmiss : ¬ (m / 64 = f / 64 ∧ Reaches f (m % 64)) := by
      rintro ⟨hword, hreach⟩
      unfold Reaches at hreach
      split at hreach
      · omega
      · omega
    rw [if_neg hmiss]
    exact ⟨.inr, fun h => h.resolve_left hmf⟩

theorem marks_withFrame (hcovers : s.Covers f) (hm : s.marked m = true) :
    (s.withFrame f true).marked m = true := by
  rw [marked_withFrame hcovers]
  split
  · rfl
  · exact hm

/-- `PL_FN` and `PL_SV`. -/
structure Reserves (s t : Pager) (f : Nat) : Prop where
  marks : MarksFrame s t f
  low : f % 64 ≤ 31
  only : ∀ m, m % 64 ≤ 31 → t.marked m = true → m = f ∨ s.marked m = true
  pool : Fewer s t
  calling : t.paCalling = s.paCalling

theorem Prepares.reserves (h : Prepares s t) (hcovers : t.Covers f) (hfree : s.marked f = false)
    (hlow : f % 64 ≤ 31) : Reserves s (t.withFrame f true) f where
  marks := by
    refine ⟨h.mapped, fun m hm => ?_, hfree, (marked_low hcovers hlow hlow).mpr (.inl rfl)⟩
    exact marks_withFrame hcovers ((h.marked m).trans hm)
  low := hlow
  only m hm hmarked := by
    rw [← h.marked m]
    exact (marked_low hcovers hlow hm).mp hmarked
  pool := h.pool
  calling := h.calling

/-! ## Pages with free frames -/

/-- New pages get frames that were free, and only their frames are newly marked in the lower halves of
the words, where `PL_FN` looks. -/
structure Takes (s t : Pager) : Prop extends TakesFree s t where
  low : ∀ p e, s.mapped p = none → t.mapped p = some e → e.frame % 64 ≤ 31
  only : ∀ m, m % 64 ≤ 31 → t.marked m = true → s.marked m = true ∨
    ∃ p e, p.InTables ∧ s.mapped p = none ∧ t.mapped p = some e ∧ e.frame = m

/-- `KP_ALLOC3` has mapped the page at `v`. -/
structure Allots (s t : Pager) (v : UInt64) : Prop where
  takes : Takes s t
  fresh : s.mapped (pageOf v) = none
  mapped : t.mapped (pageOf v) ≠ none
  pool : Fewer s t
  calling : t.paCalling = false

/-- A page has been mapped. -/
def Gains (s t : Pager) : Prop := ∃ p : Page, p.InTables ∧ s.mapped p = none ∧ t.mapped p ≠ none

theorem Takes.of_same (h : ∀ p, t.mapped p = s.mapped p) (hm : ∀ m, t.marked m = s.marked m) :
    Takes s t := by
  refine ⟨.of_same h hm, fun p e hnone he => ?_, fun m _ hmarked => .inl ?_⟩
  · rw [h, hnone] at he
    cases he
  · rwa [← hm]

theorem Prepares.takes (h : Prepares s t) : Takes s t := .of_same h.mapped h.marked

theorem Takes.refl (s : Pager) : Takes s s := (Prepares.refl s).takes

theorem Takes.trans (h : Takes s t) (h' : Takes t u) : Takes s u := by
  have hfree := h.toTakesFree.trans h'.toTakesFree
  refine ⟨hfree, fun p e hnone he => ?_, fun m hm hmarked => ?_⟩
  · rcases h'.old_or_new he with hmid | hmid
    · exact h.low p e hnone hmid
    · exact h'.low p e hmid he
  · rcases h'.only m hm hmarked with hmid | ⟨p, e, hp, hnone, he, heq⟩
    · rcases h.only m hm hmid with hold | ⟨p, e, hp, hnone, he, heq⟩
      · exact .inl hold
      · exact .inr ⟨p, e, hp, hnone, h'.stays p e he, heq⟩
    · refine .inr ⟨p, e, hp, ?_, he, heq⟩
      by_contra hthere
      obtain ⟨e₀, he₀⟩ := Option.ne_none_iff_exists'.mp hthere
      rw [h.stays p e₀ he₀] at hnone
      cases hnone

theorem TakesFree.mapped (h : TakesFree s t) (hp : s.mapped p ≠ none) : t.mapped p ≠ none := by
  obtain ⟨e, he⟩ := Option.ne_none_iff_exists'.mp hp
  rw [h.stays p e he]
  exact Option.some_ne_none e

theorem PoolMapped.takes (h : PoolMapped s) (ht : TakesFree s t) (hpool : Fewer s t) :
    PoolMapped t := by
  intro i hi hne
  rcases hpool i with hsame | hzero
  · rw [hsame] at hne ⊢
    exact ht.mapped (h i hi hne)
  · exact absurd hzero hne

theorem mapped_put {e : Entry} (hp : u.Leads p) : (setPt p (some e) u).mapped p = some e :=
  mapped_setPt hp.pml4 hp.pdpt hp.pde

/-- The reserved frame is put into a page. -/
theorem Reserves.put {e : Entry} (h : Reserves s t f) (ht : Takes t u) (hp : u.Leads p)
    (hnone : u.mapped p = none) (hin : p.InTables) (he : e.frame = f) :
    Takes s (setPt p (some e) u) := by
  have hother : ∀ q, q ≠ p → (setPt p (some e) u).mapped q = u.mapped q := fun q hq =>
    mapped_setPt_of_ne hq
  have hsp : s.mapped p = none := by
    by_contra hthere
    rw [← h.marks.mapped] at hthere
    exact ht.mapped hthere hnone
  refine ⟨h.marks.put ht.toTakesFree hnone he, fun q e' hq he' => ?_, fun m hm hmarked => ?_⟩
  · by_cases hqp : q = p
    · subst hqp
      obtain rfl := Option.some.inj ((mapped_put hp).symm.trans he')
      rw [he]
      exact h.low
    · rw [hother q hqp] at he'
      exact ht.low q e' (by rw [h.marks.mapped]; exact hq) he'
  · rcases ht.only m hm hmarked with hmid | ⟨q, e', hq, hqnone, he', heq⟩
    · rcases h.only m hm hmid with rfl | hold
      · exact .inr ⟨p, e, hin, hsp, mapped_put hp, he⟩
      · exact .inl hold
    · refine .inr ⟨q, e', hq, by rwa [← h.marks.mapped], ?_, heq⟩
      rw [hother q ?_]
      · exact he'
      · rintro rfl
        rw [hnone] at he'
        cases he'

section Allocation

variable {kpalloc : PageM UInt64}

theorem kpAlloc3_allots (hk : ∀ s : Pager, s.paCalling = true →
      Ends kpalloc s (fun _ t => Drained s t) fun _ _ => True) (s : Pager) :
    Ends (kpAlloc3 kpalloc) s (fun v t => Allots s t v) fun _ _ => True := by
  have hstart : Prepares s s := .refl s
  rw [kpAlloc3, ends_bind, ends_modify]
  generalize hs₁ : ({ s with paCalling := true } : Pager) = s₁
  have hcall : s₁.paCalling = true := by rw [← hs₁]
  have hmap : ∀ p, s₁.mapped p = s.mapped p := by
    rw [← hs₁]
    exact fun _ => rfl
  have hbits : ∀ m, s₁.marked m = s.marked m := by
    rw [← hs₁]
    exact fun _ => rfl
  have hslots : Fewer s s₁ := by
    rw [← hs₁]
    exact .refl s
  refine (plFn_free (Q := fun _ => True)
    (fun _ => (hk s₁ hcall).mono (fun _ _ h => ⟨h, trivial⟩) fun _ _ h => h) trivial).bind ?_
  rintro f t ⟨⟨ht, -⟩, hcovers, hfree, hlow⟩
  refine ((plSv_spec hcovers).mono (fun _ _ h => h) fun _ _ _ => trivial).bind ?_
  rintro _ _ rfl
  have hres := ht.reserves hcovers hfree hlow
  refine (search_placed hk (hres.calling.trans hcall)).bind fun r s' hr => ?_
  cases r with
  | none => exact ends_throw.mpr trivial
  | some v =>
      obtain ⟨u, p, hu, hp, hpt, hin, rfl, rfl⟩ := hr
      have hpage := pageOf_constructVirtualAddress hin
      have hnone : u.mapped p = none := by
        rw [hp.mapped]
        exact hpt
      have hput : Takes s₁ (setPt p (some ⟨f, 0x1⟩) u) := hres.put hu.takes hp hnone hin rfl
      have hbefore : Takes s s₁ := .of_same hmap hbits
      have hafter : Takes (setPt p (some ⟨f, 0x1⟩) u) (u.withPage p f) :=
        .of_same (fun _ => rfl) fun _ => rfl
      refine ends_pure.mpr ⟨(hbefore.trans hput).trans hafter, ?_, ?_, ?_, rfl⟩
      · rw [hpage, ← hmap, ← hres.marks.mapped, ← hu.mapped]
        exact hnone
      · rw [hpage]
        change (setPt p (some ⟨f, 0x1⟩) u).mapped p ≠ none
        rw [mapped_put hp]
        exact Option.some_ne_none _
      · exact hslots.trans (hres.pool.trans hu.pool)

/-- The slots of a refill get pages that are mapped. -/
theorem refill_takes {kpAlloc3 : PageM UInt64}
    (hk : ∀ s : Pager, Ends kpAlloc3 s (fun v t => Allots s t v) fun _ _ => True) (todo i : Nat)
    (h : PoolMapped s) :
    Ends (refill kpAlloc3 todo i) s
      (fun _ t => Takes s t ∧ PoolMapped t ∧ (0 < todo → s.pool i = 0 → Gains s t))
      fun _ _ => True := by
  induction todo generalizing i s with
  | zero => exact ends_pure.mpr ⟨.refl s, h, fun h0 => absurd h0 (Nat.lt_irrefl 0)⟩
  | succ todo ih =>
      rw [refill, fillSlot, bind_assoc, ends_bind, ends_get]
      by_cases hne : s.pool i ≠ 0
      · rw [if_pos hne]
        refine (ih (i + 1) h).mono ?_ fun _ _ h => h
        rintro _ t ⟨ht, hpool, -⟩
        exact ⟨ht, hpool, fun _ hzero => absurd hzero hne⟩
      · rw [if_neg hne, bind_assoc]
        refine (hk s).bind fun v t ht => ?_
        rw [ends_bind, ends_modify]
        have hstored : PoolMapped { t with pool := Function.update t.pool i v } := by
          intro j hj hslot
          by_cases hji : j = i
          · subst hji
            have hself : Function.update t.pool j v j = v := Function.update_self ..
            change t.mapped (pageOf (Function.update t.pool j v j)) ≠ none
            rw [hself]
            exact ht.mapped
          · have hother : Function.update t.pool i v j = t.pool j := Function.update_of_ne hji ..
            change Function.update t.pool i v j ≠ 0 at hslot
            change t.mapped (pageOf (Function.update t.pool i v j)) ≠ none
            rw [hother] at hslot ⊢
            exact h.takes ht.takes.toTakesFree ht.pool j hj hslot
        refine (ih (i + 1) hstored).mono ?_ fun _ _ h => h
        rintro _ u ⟨hu, hpool, -⟩
        have hput : Takes t { t with pool := Function.update t.pool i v } :=
          .of_same (fun _ => rfl) fun _ => rfl
        refine ⟨(ht.takes.trans hput).trans hu, hpool, fun _ _ => ?_⟩
        exact ⟨pageOf v, pageOf_inTables v, ht.fresh, hu.toTakesFree.mapped ht.mapped⟩

end Allocation

/-- Without a refill `KPALLOC` empties a slot. -/
theorem kpallocWith_drained {kpAlloc3 : PageM UInt64}
    (h : ∀ a, (List.range 512).find? (fun i => s.pool i ≠ 0) = some a → a < 32 ∨ s.paCalling = true) :
    Ends (kpallocWith kpAlloc3) s (fun _ t => ∃ a, a < 512 ∧ t = s.pop a) fun _ _ => True := by
  cases hfind : (List.range 512).find? fun i => s.pool i ≠ 0 with
  | none =>
      rw [kpallocWith, ends_bind, ends_get, hfind]
      exact ends_throw.mpr trivial
  | some a =>
      by_cases hpage : s.mapped (pageOf (s.pool a)) = none
      · have hno : ¬ (a ≥ 32 ∧ s.paCalling = false) := by
          rintro ⟨hge, hclear⟩
          rcases h a hfind with hlt | hset
          · omega
          · rw [hset] at hclear
            cases hclear
        have hpage' : (s.pop a).mapped (pageOf (s.pool a)) = none := hpage
        rw [kpallocWith, ends_bind, ends_get, hfind]
        dsimp only
        rw [ends_bind, ends_set, refillBehind, bind_assoc, ends_bind, ends_get, if_neg hno, ends_bind,
          ends_pure, memfill, bind_assoc, ends_bind, ends_get]
        change Ends (ite ((s.pop a).mapped (pageOf (s.pool a)) = none) _ _ >>= _) _ _ _
        rw [if_pos hpage']
        exact ends_throw.mpr trivial
      · refine (kpallocWith_quiet hfind (h a hfind) hpage).mono ?_ fun _ _ hf => hf.elim
        rintro _ t ⟨-, rfl⟩
        exact ⟨a, (pop_bound hfind).1, rfl⟩

theorem kpallocDepth_drained (n : Nat) (s : Pager) (hcall : s.paCalling = true) :
    Ends (kpallocDepth n) s (fun _ t => Drained s t) fun _ _ => True := by
  cases n with
  | zero => exact ends_throw.mpr trivial
  | succ n =>
      rw [kpallocDepth]
      refine (kpallocWith_drained fun _ _ => .inr hcall).mono ?_ fun _ _ h => h
      rintro _ t ⟨a, -, rfl⟩
      exact .of_pop s a

/-- `KPALLOC`, with the refill if there is one. -/
theorem KPALLOC_takes (h : PoolMapped s) :
    Ends KPALLOC s (fun _ t => Takes s t ∧ PoolMapped t ∧ ∀ a,
      (List.range 512).find? (fun i => s.pool i ≠ 0) = some a → 32 ≤ a → s.paCalling = false →
        Gains s t) fun _ _ => True := by
  unfold KPALLOC kpallocDepth
  rw [kpallocWith, ends_bind, ends_get]
  cases hfind : (List.range 512).find? fun i => s.pool i ≠ 0 with
  | none => exact ends_throw.mpr trivial
  | some a =>
      have hsame : Takes s (s.pop a) := .of_same (fun _ => rfl) fun _ => rfl
      have hpop : PoolMapped (s.pop a) := h.takes hsame.toTakesFree (Drained.of_pop s a).pool
      have hrefill : Ends (refillBehind (kpAlloc3 (kpallocDepth 1)) a) (s.pop a)
          (fun _ t => Takes s t ∧ PoolMapped t ∧ (32 ≤ a → s.paCalling = false → Gains s t))
          fun _ _ => True := by
        rw [refillBehind, ends_bind, ends_get]
        split
        · rename_i hge
          refine (refill_takes (kpAlloc3_allots (kpallocDepth_drained 1)) 64 0 hpop).mono ?_
            fun _ _ h => h
          rintro _ t ⟨ht, hpool, hgains⟩
          refine ⟨hsame.trans ht, hpool, fun _ _ => hgains (by decide) ?_⟩
          change Function.update s.pool a 0 0 = 0
          rw [Function.update_of_ne (by omega)]
          exact (pop_bound hfind).2.2 0 (by omega)
        · rename_i hno
          exact ends_pure.mpr ⟨hsame, hpop, fun hge hclear => absurd ⟨hge, hclear⟩ hno⟩
      dsimp only
      rw [ends_bind, ends_set]
      refine hrefill.bind ?_
      rintro _ t ⟨ht, hpool, hgains⟩
      rw [memfill, bind_assoc, ends_bind, ends_get, ends_bind]
      split
      · exact ends_throw.mpr trivial
      · refine ends_pure.mpr (ends_pure.mpr ⟨ht, hpool, fun a' ha' => ?_⟩)
        obtain rfl := Option.some.inj ha'
        exact hgains

/-- No later write unlinks a table. -/
theorem leads_keeps (p : Page) : KernelKeeps fun t => t.Leads p where
  chain _ _ h := ⟨h.pml4, h.pdpt, h.pde⟩
  pool _ _ h := ⟨h.pml4, h.pdpt, h.pde⟩
  calling _ _ h := ⟨h.pml4, h.pdpt, h.pde⟩
  linkPml4 s t i e _ hs hnone h := by
    have hi : p.pml4 ≠ i := by
      rintro rfl
      exact hs.pml4 hnone
    refine ⟨?_, ?_, h.pde⟩
    · simpa [linkPml4, hi] using h.pml4
    · simpa [linkPml4, hi] using h.pdpt
  linkPdpt s t i j e _ hs hnone h := by
    by_cases hi : p.pml4 = i
    · subst hi
      have hj : p.pdpt ≠ j := by
        rintro rfl
        exact hs.pdpt hnone
      refine ⟨h.pml4, ?_, ?_⟩
      · simpa [linkPdpt, hj] using h.pdpt
      · simpa [linkPdpt, hj] using h.pde
    · refine ⟨h.pml4, ?_, ?_⟩
      · simpa [linkPdpt, hi] using h.pdpt
      · simpa [linkPdpt, hi] using h.pde
  linkPde s t i j k e _ hs hnone h := by
    refine ⟨h.pml4, h.pdpt, ?_⟩
    have hpde := h.pde
    by_cases hi : p.pml4 = i
    · by_cases hj : p.pdpt = j
      · by_cases hk : p.pde = k
        · simp [linkPde, hi, hj, hk]
        · simpa [linkPde, hi, hj, hk] using hpde
      · simpa [linkPde, hi, hj] using hpde
    · simpa [linkPde, hi] using hpde
  setPt _ _ _ _ _ h := ⟨h.pml4, h.pdpt, h.pde⟩

theorem KPALLOC_leads (h : s.Leads p) :
    Ends KPALLOC s (fun _ t => t.Leads p) fun _ _ => True := by
  unfold KPALLOC
  exact ((leads_keeps p).kpallocDepth 2 s h).mono (fun _ _ h => h) fun _ _ _ => trivial

end UnnamedOS.Paging
