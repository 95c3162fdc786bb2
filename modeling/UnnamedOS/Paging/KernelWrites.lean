import UnnamedOS.Paging.Pager

/-!
# What the nested calls write

They add tables and pages to the kernel half, and write to the bitmap and to the pool. A table is
linked only to an entry that has been seen to be absent, and a page is put only into an absent one.
-/

namespace UnnamedOS.Paging

open UnnamedOS.Lib

/-- A property that these writes keep. The entry of a new table has been absent in a state in which
the property held. -/
structure KernelKeeps (P : Pager → Prop) : Prop where
  chain : ∀ s c, P s → P { s with chain := c }
  pool : ∀ s q, P s → P { s with pool := q }
  calling : ∀ s b, P s → P { s with paCalling := b }
  linkPml4 : ∀ s t i e, 1 ≤ i → P s → s.pml4 i = none → P t → P (linkPml4 i e t)
  linkPdpt : ∀ s t i j e, 1 ≤ i → P s → s.pdpt i j = none → P t → P (linkPdpt i j e t)
  linkPde : ∀ s t i j k e, 1 ≤ i → P s → s.pde i j k = none → P t → P (linkPde i j k e t)
  setPt : ∀ s p f, 1 ≤ p.pml4 → s.pt p = none → P s → P (setPt p (some ⟨f, 0x1⟩) s)

namespace KernelKeeps

variable {P : Pager → Prop} {kpalloc : PageM UInt64}

theorem extendLast (h : KernelKeeps P) (hk : Keeps P kpalloc) (p : Nat) :
    Keeps P (extendLast kpalloc p) := by
  refine Keeps.get_bind fun s hs => ?_
  split
  · exact (hk.bind fun _ => Keeps.modify fun s hs => h.chain s _ hs) s hs
  · exact ends_pure.mpr hs

theorem llNv (h : KernelKeeps P) (hk : Keeps P kpalloc) (n index p : Nat) :
    Keeps P (llNv kpalloc n index p) := by
  induction n generalizing index p with
  | zero => exact Keeps.throw _
  | succ n ih =>
      rw [Paging.llNv]
      split
      · exact (h.extendLast hk p).bind fun _ => ih _ _
      · exact Keeps.pure _

theorem plSv (h : KernelKeeps P) (hk : Keeps P kpalloc) (index : Nat) (val : Bool) :
    Keeps P (plSv kpalloc index val) :=
  (h.llNv hk _ _ _).bind fun _ => Keeps.modify fun s hs => h.chain s _ hs

theorem plFnLoop (h : KernelKeeps P) (hk : Keeps P kpalloc) (n p i : Nat) :
    Keeps P (plFnLoop kpalloc n p i) := by
  induction n generalizing p i with
  | zero => exact Keeps.throw _
  | succ n ih =>
      refine Keeps.get_bind fun s hs => ?_
      split
      · exact ends_throw.mpr hs
      · split
        · split
          · exact ends_throw.mpr hs
          · split
            · exact ends_throw.mpr hs
            · exact ends_pure.mpr hs
        · exact ((h.extendLast hk p).bind fun _ => ih _ _) s hs

theorem plFn (h : KernelKeeps P) (hk : Keeps P kpalloc) : Keeps P (plFn kpalloc) :=
  Keeps.get_bind fun s hs => h.plFnLoop hk _ _ _ s hs

theorem newTable (hk : Keeps P kpalloc) (flags : UInt8) : Keeps P (newTable kpalloc flags) := by
  refine hk.bind fun M => Keeps.get_bind fun s hs => ?_
  split
  · exact ends_throw.mpr hs
  · exact ends_pure.mpr hs

theorem install (h : KernelKeeps P) (ad : Nat) {p : Page} {s : Pager} (hp : 1 ≤ p.pml4)
    (hnone : s.pt p = none) (hs : P s) :
    Ends (install ad p) s (fun _ s' => P s') fun _ s' => P s' := by
  rw [Paging.install, ends_bind, ends_modify, ends_pure]
  exact h.calling _ false (h.setPt s p ad hp hnone hs)

variable {i j k : Nat}

theorem freePt_absent {s : Pager} {pt : Nat} (h : s.freePt i j k = some pt) :
    s.pt ⟨i, j, k, pt⟩ = none := by
  have hfound := List.find?_some h
  exact of_decide_eq_true hfound

theorem ensurePml4 (h : KernelKeeps P) (hk : Keeps P kpalloc) (flags : UInt8) (hi : 1 ≤ i) :
    Keeps P (ensurePml4 kpalloc flags i) := by
  refine Keeps.get_bind fun s hs => ?_
  split
  · rename_i hnone
    exact ((newTable hk flags).bind fun M => Keeps.modify fun t ht =>
      h.linkPml4 s t i M hi hs hnone ht) s hs
  · exact ends_pure.mpr hs

theorem ensurePdpt (h : KernelKeeps P) (hk : Keeps P kpalloc) (flags : UInt8) (hi : 1 ≤ i) :
    Keeps P (ensurePdpt kpalloc flags i j) := by
  refine Keeps.get_bind fun s hs => ?_
  split
  · rename_i hnone
    exact ((newTable hk flags).bind fun M => Keeps.modify fun t ht =>
      h.linkPdpt s t i j M hi hs hnone ht) s hs
  · exact ends_pure.mpr hs

theorem ensurePde (h : KernelKeeps P) (hk : Keeps P kpalloc) (flags : UInt8) (hi : 1 ≤ i) :
    Keeps P (ensurePde kpalloc flags i j k) := by
  refine Keeps.get_bind fun s hs => ?_
  split
  · rename_i hnone
    exact ((newTable hk flags).bind fun M => Keeps.modify fun t ht =>
      h.linkPde s t i j k M hi hs hnone ht) s hs
  · exact ends_pure.mpr hs

/-- A table is linked to each entry of the one that has been linked before. -/
theorem nextTable (h : KernelKeeps P) (hk : Keeps P kpalloc) (ad : Nat) (hi : 1 ≤ i) :
    Keeps P (nextTable kpalloc ad i j k) := by
  have hi' : 1 ≤ i + 1 := Nat.le_succ_of_le hi
  refine Keeps.get_bind fun s hs => ?_
  split
  · split
    · rename_i hnone
      refine ((newTable hk _).bind fun M t ht => ?_) s hs
      rw [ends_bind, ends_modify]
      exact h.install ad hi (by simp [Paging.linkPde]) (h.linkPde s t i j (k + 1) M hi hs hnone ht)
    · exact ends_pure.mpr hs
  · split
    · split
      · rename_i hnone
        refine ((newTable hk _).bind fun M => (newTable hk _).bind fun M2 t ht => ?_) s hs
        have hlink := h.linkPdpt s t i (j + 1) M hi hs hnone ht
        rw [ends_bind, ends_modify]
        exact h.install ad hi (by simp [Paging.linkPde])
          (h.linkPde _ _ i (j + 1) 0 M2 hi hlink (by simp [Paging.linkPdpt]) hlink)
      · exact ends_pure.mpr hs
    · split
      · split
        · rename_i hnone
          refine ((newTable hk _).bind fun M => (newTable hk _).bind fun M2 =>
            (newTable hk _).bind fun M3 t ht => ?_) s hs
          have hlink := h.linkPml4 s t (i + 1) M hi' hs hnone ht
          have hlink₂ := h.linkPdpt _ _ (i + 1) 0 M2 hi' hlink (by simp [Paging.linkPml4]) hlink
          rw [ends_bind, ends_modify]
          exact h.install ad hi' (by simp [Paging.linkPde])
            (h.linkPde _ _ (i + 1) 0 0 M3 hi' hlink₂ (by simp [Paging.linkPdpt]) hlink₂)
        · exact ends_pure.mpr hs
      · exact ends_throw.mpr hs

theorem searchPde (h : KernelKeeps P) (hk : Keeps P kpalloc) (ad : Nat) (hi : 1 ≤ i) :
    Keeps P (searchPde kpalloc ad i j k) := by
  refine (h.ensurePde hk _ hi).bind fun _ => Keeps.get_bind fun s hs => ?_
  cases hfree : s.freePt i j k with
  | some pt => exact h.install ad hi (freePt_absent hfree) hs
  | none => exact h.nextTable hk ad hi s hs

theorem searchPml4 (h : KernelKeeps P) (hk : Keeps P kpalloc) (ad : Nat) (hi : 1 ≤ i) :
    Keeps P (searchPml4 kpalloc ad i) := by
  refine (h.ensurePml4 hk _ hi).bind fun _ => Keeps.searchFrom 512 0 fun j _ => ?_
  exact (h.ensurePdpt hk _ hi).bind fun _ => Keeps.searchFrom 512 0 fun k _ => h.searchPde hk ad hi

theorem kpAlloc3 (h : KernelKeeps P) (hk : Keeps P kpalloc) : Keeps P (kpAlloc3 kpalloc) := by
  have hsearch : ∀ ad, Keeps P (searchFrom (Paging.searchPml4 kpalloc ad) 511 1) :=
    fun ad => Keeps.searchFrom _ _ fun i hi => h.searchPml4 hk ad hi
  refine (Keeps.modify fun s hs => h.calling s true hs).bind fun _ => (h.plFn hk).bind fun ad =>
    (h.plSv hk ad true).bind fun _ => (hsearch ad).bind fun r => ?_
  cases r with
  | some v => exact Keeps.pure v
  | none => exact Keeps.throw _

theorem refill (h : KernelKeeps P) {kpAlloc3 : PageM UInt64} (hk : Keeps P kpAlloc3)
    (n i : Nat) : Keeps P (refill kpAlloc3 n i) := by
  induction n generalizing i with
  | zero => exact Keeps.pure _
  | succ n ih =>
      refine Keeps.bind (Keeps.get_bind fun s hs => ?_) fun _ => ih (i + 1)
      split
      · exact ends_pure.mpr hs
      · exact (hk.bind fun v => Keeps.modify fun s hs => h.pool s _ hs) s hs

/-- Whatever end an allocation of a kernel page comes to. -/
theorem kpallocDepth (h : KernelKeeps P) (n : Nat) : Keeps P (kpallocDepth n) := by
  induction n with
  | zero => exact Keeps.throw _
  | succ n ih =>
      rw [Paging.kpallocDepth, kpallocWith]
      refine Keeps.get_bind fun s hs => ?_
      split
      · exact ends_throw.mpr hs
      · rename_i AN _
        have hrest : Keeps P (do
            refillBehind (Paging.kpAlloc3 (Paging.kpallocDepth n)) AN
            memfill (s.pool AN)
            return s.pool AN) := by
          refine Keeps.bind (Keeps.get_bind fun t ht => ?_) fun _ =>
            Keeps.bind (Keeps.get_bind fun t ht => ?_) fun _ => Keeps.pure _
          · split
            · exact h.refill (h.kpAlloc3 ih) _ _ t ht
            · exact ends_pure.mpr ht
          · split
            · exact ends_throw.mpr ht
            · exact ends_pure.mpr ht
        rw [ends_bind, ends_set]
        exact hrest _ (h.pool s _ hs)

end KernelKeeps

/-- What the writes of the nested calls have in common: they are to the bitmap, to the pool, or to
tables of the kernel half. -/
structure KernelWrites (R : Pager → Pager → Prop) : Prop where
  refl : ∀ s, R s s
  trans : ∀ s s' s'', R s s' → R s' s'' → R s s''
  chain : ∀ s c, R s { s with chain := c }
  pool : ∀ s q, R s { s with pool := q }
  calling : ∀ s b, R s { s with paCalling := b }
  linkPml4 : ∀ s i e, 1 ≤ i → R s (linkPml4 i e s)
  linkPdpt : ∀ s i j e, 1 ≤ i → R s (linkPdpt i j e s)
  linkPde : ∀ s i j k e, 1 ≤ i → R s (linkPde i j k e s)
  setPt : ∀ s p f, 1 ≤ p.pml4 → R s (setPt p (some ⟨f, 0x1⟩) s)

namespace KernelWrites

variable {R : Pager → Pager → Prop} {kpalloc : PageM UInt64}

/-- Being related to a state is such a property. -/
theorem keeps (h : KernelWrites R) (s₀ : Pager) : KernelKeeps (R s₀) where
  chain s c hs := h.trans _ _ _ hs (h.chain s c)
  pool s q hs := h.trans _ _ _ hs (h.pool s q)
  calling s b hs := h.trans _ _ _ hs (h.calling s b)
  linkPml4 _ t i e hi _ _ ht := h.trans _ _ _ ht (h.linkPml4 t i e hi)
  linkPdpt _ t i j e hi _ _ ht := h.trans _ _ _ ht (h.linkPdpt t i j e hi)
  linkPde _ t i j k e hi _ _ ht := h.trans _ _ _ ht (h.linkPde t i j k e hi)
  setPt s p f hp _ hs := h.trans _ _ _ hs (h.setPt s p f hp)

theorem plSv (h : KernelWrites R) (hk : Respects R kpalloc) (index : Nat) (val : Bool) :
    Respects R (plSv kpalloc index val) :=
  .of_keeps h.refl fun s₀ => (h.keeps s₀).plSv (hk.keeps h.trans s₀) index val

theorem plFn (h : KernelWrites R) (hk : Respects R kpalloc) : Respects R (plFn kpalloc) :=
  .of_keeps h.refl fun s₀ => (h.keeps s₀).plFn (hk.keeps h.trans s₀)

theorem newTable (h : KernelWrites R) (hk : Respects R kpalloc) (flags : UInt8) :
    Respects R (newTable kpalloc flags) :=
  .of_keeps h.refl fun s₀ => KernelKeeps.newTable (hk.keeps h.trans s₀) flags

theorem kpallocDepth (h : KernelWrites R) (n : Nat) : Respects R (kpallocDepth n) :=
  .of_keeps h.refl fun s₀ => (h.keeps s₀).kpallocDepth n

end KernelWrites

end UnnamedOS.Paging
