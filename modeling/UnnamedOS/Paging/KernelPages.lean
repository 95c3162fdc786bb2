import Mathlib.Data.Finset.Card
import Mathlib.Data.Nat.Find
import UnnamedOS.Paging.FrameSafety
import UnnamedOS.Paging.Translation
import UnnamedOS.Paging.UserHalf

/-!
# The first GiB of the kernel half

Its page tables are filled from the lowest on. `KP_ALLOC3` maps the lowest page that is not mapped,
in a new page table if those there are full.
-/

namespace UnnamedOS.Paging

open UnnamedOS.Lib

/-- The pages of a GiB. -/
def gib : Nat := 262144

def kernelPage (n : Nat) : Page := ⟨1, 0, n / 512, n % 512⟩

def kernelAddress (n : Nat) : UInt64 := constructVirtualAddress (kernelPage n)

/-- The entries of the first `N` page tables are there, and none beyond the first GiB. -/
structure KernelTables (s : Pager) (N : Nat) : Prop where
  pml4 : s.pml4 1 ≠ none
  pdpt : s.pdpt 1 0 ≠ none
  beyond : s.pdpt 1 1 = none
  pos : 0 < N
  le : N ≤ 512
  pde : ∀ k < 512, s.pde 1 0 k ≠ none ↔ k < N

/-- The page that `KP_ALLOC3` maps, if a table has one. -/
structure Lowest (s : Pager) (N n : Nat) : Prop where
  table : n < 512 * N
  free : s.pt (kernelPage n) = none
  below : ∀ m < n, s.pt (kernelPage m) ≠ none

/-- Every page of the tables is mapped. -/
def Full (s : Pager) (N : Nat) : Prop := ∀ m < 512 * N, s.pt (kernelPage m) ≠ none

/-- A page out of slot `a` of the pool. -/
def Pager.pop (s : Pager) (a : Nat) : Pager := { s with pool := Function.update s.pool a 0 }

/-- The end of `KP_ALLOC3`. -/
def Pager.withPage (s : Pager) (p : Page) (ad : Nat) : Pager :=
  { setPt p (some ⟨ad, 0x1⟩) s with paCalling := false }

/-- There are `m` frames in the pages of the bitmap that are free. -/
def RoomyFrames (s : Pager) (m : Nat) : Prop :=
  ∃ F : Finset Nat, m ≤ F.card ∧ ∀ f ∈ F, s.Covers f ∧ f % 64 ≤ 31 ∧ s.marked f = false

/-- There are `m` pages in the page tables that are not mapped. -/
def RoomyPages (s : Pager) (m : Nat) : Prop :=
  ∃ F : Finset Nat, m ≤ F.card ∧
    ∀ n ∈ F, n < gib ∧ s.pde 1 0 (n / 512) ≠ none ∧ s.pt (kernelPage n) = none

/-- How many of the first `k` slots are full. -/
def slotsBelow (k : Nat) (pool : Nat → UInt64) : Nat :=
  ((Finset.range k).filter fun i => pool i ≠ 0).card

/-- Slots are emptied from the lowest on, `q` of them. -/
inductive Pops : Nat → (Nat → UInt64) → (Nat → UInt64) → Prop
  | none (pool : Nat → UInt64) : Pops 0 pool pool
  | next {q a : Nat} {pool pool' : Nat → UInt64} :
      (List.range 512).find? (fun i => pool i ≠ 0) = some a →
        Pops q (Function.update pool a 0) pool' → Pops (q + 1) pool pool'

/-- What is in the pool is mapped. -/
def Stock (s : Pager) : Prop :=
  ∀ i < 512, s.pool i ≠ 0 →
    ∃ n < gib, s.pool i = kernelAddress n ∧ s.mapped (kernelPage n) ≠ none

/-- A page beyond the first GiB is mapped, the lowest one. -/
structure Left (s : Pager) : Prop where
  pml4 : s.pml4 1 ≠ none
  pdpt : s.pdpt 1 1 ≠ none
  pde : s.pde 1 1 0 ≠ none
  pt : s.pt ⟨1, 1, 0, 0⟩ ≠ none

variable {s s' : Pager} {N n m k ad a q : Nat} {pool pool' : Nat → UInt64} {kpAlloc3 : PageM UInt64}
  {T : Nat → Prop}

/-! ## Addresses -/

theorem kernelPage_inTables (hn : n < gib) : (kernelPage n).InTables where
  pml4 := show 1 < 512 by decide
  pdpt := show 0 < 512 by decide
  pde := by
    change n / 512 < 512
    unfold gib at hn
    omega
  pt := Nat.mod_lt n (by decide)

theorem pageOf_kernelAddress (hn : n < gib) : pageOf (kernelAddress n) = kernelPage n :=
  pageOf_constructVirtualAddress (kernelPage_inTables hn)

theorem kernelPage_inj (h : kernelPage m = kernelPage n) : m = n := by
  have hpde : m / 512 = n / 512 := congrArg Page.pde h
  have hpt : m % 512 = n % 512 := congrArg Page.pt h
  omega

theorem kernelAddress_inj (hm : m < gib) (hn : n < gib) (h : kernelAddress m = kernelAddress n) :
    m = n := by
  apply kernelPage_inj
  rw [← pageOf_kernelAddress hm, h, pageOf_kernelAddress hn]

theorem toNat_kernelAddress (hn : n < gib) :
    (kernelAddress n).toNat = 549755813888 + 4096 * n := by
  unfold gib at hn
  have hsum : n % 512 * 0x1000 + n / 512 * 0x1000 * 512 + 0 * 0x1000 * 512 * 512 +
      1 * 0x1000 * 512 * 512 * 512 = 549755813888 + 4096 * n := by omega
  change (UInt64.ofNat (n % 512 * 0x1000 + n / 512 * 0x1000 * 512 + 0 * 0x1000 * 512 * 512 +
      1 * 0x1000 * 512 * 512 * 512)).toNat = _
  rw [hsum]
  exact UInt64.toNat_ofNat_of_lt' (by change _ < 18446744073709551616; omega)

theorem kernelAddress_ne_zero (hn : n < gib) : kernelAddress n ≠ 0 := by
  intro h
  have hnat := toNat_kernelAddress hn
  rw [h] at hnat
  change 0 = _ at hnat
  omega

/-- In the first GiB the mask of `V2P` does no harm. -/
theorem v2pPage_kernelAddress (hn : n < gib) : v2pPage (kernelAddress n) = kernelPage n := by
  have hpdpt : ((kernelAddress n &&& 0x7FB0000000) >>> 30).toNat = 0 := by
    have hshift : (549755813888 + 4096 * n) >>> 30 = 512 := by
      rw [Nat.shiftRight_eq_div_pow]
      unfold gib at hn
      omega
    rw [UInt64.toNat_shiftRight, UInt64.toNat_and, toNat_kernelAddress hn]
    change (_ &&& 0x7FB0000000) >>> 30 = 0
    rw [Nat.shiftRight_and_distrib, hshift]
    rfl
  rw [v2pPage, hpdpt, pageOf_kernelAddress hn]
  rfl

theorem kernelPage_split (hk : a < 512) : kernelPage (512 * k + a) = ⟨1, 0, k, a⟩ := by
  have hdiv : (512 * k + a) / 512 = k := by omega
  have hmod : (512 * k + a) % 512 = a := by omega
  rw [kernelPage, hdiv, hmod]

/-! ## Tables -/

theorem mapped_kernelPage (h : KernelTables s N) (hn : n < gib) :
    s.mapped (kernelPage n) = if n < 512 * N then s.pt (kernelPage n) else none := by
  have hk : n / 512 < 512 := (kernelPage_inTables hn).pde
  have hpde := h.pde (n / 512) hk
  change (if s.pml4 1 = none ∨ s.pdpt 1 0 = none ∨ s.pde 1 0 (n / 512) = none then none
    else s.pt (kernelPage n)) = _
  by_cases hin : n < 512 * N
  · have hthere : s.pde 1 0 (n / 512) ≠ none := hpde.mpr (by omega)
    rw [if_pos hin, if_neg]
    rintro (h1 | h2 | h3)
    · exact h.pml4 h1
    · exact h.pdpt h2
    · exact hthere h3
  · have hnone : s.pde 1 0 (n / 512) = none := by
      by_contra hthere
      have := hpde.mp hthere
      omega
    rw [if_neg hin, if_pos (.inr (.inr hnone))]

/-- The tables of two states are the same. -/
structure SameTables (s s' : Pager) : Prop where
  pml4 : s'.pml4 = s.pml4
  pdpt : s'.pdpt = s.pdpt
  pde : s'.pde = s.pde
  pt : s'.pt = s.pt

theorem SameTables.tables (h : SameTables s s') (ht : KernelTables s N) : KernelTables s' N where
  pml4 := by rw [h.pml4]; exact ht.pml4
  pdpt := by rw [h.pdpt]; exact ht.pdpt
  beyond := by rw [h.pdpt]; exact ht.beyond
  pos := ht.pos
  le := ht.le
  pde := by rw [h.pde]; exact ht.pde

theorem SameTables.mapped (h : SameTables s s') (p : Page) : s'.mapped p = s.mapped p := by
  rw [Pager.mapped, Pager.mapped, h.pml4, h.pdpt, h.pde, h.pt]

theorem SameTables.lowest (h : SameTables s s') (hl : Lowest s N n) : Lowest s' N n where
  table := hl.table
  free := by rw [h.pt]; exact hl.free
  below := by rw [h.pt]; exact hl.below

theorem SameTables.full (h : SameTables s s') (hf : Full s N) : Full s' N := by
  rw [Full, h.pt]
  exact hf

/-- The tables are full, or one of their pages is the lowest that is free. -/
theorem full_or_lowest (s : Pager) (N : Nat) : Full s N ∨ ∃ n, Lowest s N n := by
  by_cases hfree : ∃ n, n < 512 * N ∧ s.pt (kernelPage n) = none
  · classical
    obtain ⟨hlt, hnone⟩ := Nat.find_spec hfree
    refine .inr ⟨Nat.find hfree, hlt, hnone, fun m hm hfm => ?_⟩
    exact Nat.find_min hfree hm ⟨hm.trans hlt, hfm⟩
  · exact .inl fun m hm hnone => hfree ⟨m, hm, hnone⟩

theorem freePt_none (hfull : ∀ m < 512 * (k + 1), s.pt (kernelPage m) ≠ none) :
    s.freePt 1 0 k = none := by
  rw [Pager.freePt, List.find?_range_eq_none]
  intro pt hpt
  have hpage := hfull (512 * k + pt) (by omega)
  rw [kernelPage_split hpt] at hpage
  simpa using hpage

theorem Lowest.freePt (h : Lowest s N n) : s.freePt 1 0 (n / 512) = some (n % 512) := by
  rw [Pager.freePt, List.find?_range_eq_some]
  refine ⟨decide_eq_true h.free, List.mem_range.mpr (Nat.mod_lt n (by decide)), fun pt hpt => ?_⟩
  have hpage := h.below (512 * (n / 512) + pt) (by omega)
  rw [kernelPage_split (by omega)] at hpage
  simpa using hpage

/-! ## One page table in the search -/

section Search

variable {kpalloc : PageM UInt64}

theorem ensurePde_there {flags : UInt8} (h : KernelTables s N) (hN : k < N) :
    Ends (ensurePde kpalloc flags 1 0 k) s (fun _ s' => s' = s) fun _ _ => False := by
  have hle := h.le
  have hthere : s.pde 1 0 k ≠ none := (h.pde k (by omega)).mpr hN
  rw [ensurePde, ends_bind, ends_get, if_neg hthere, ends_pure]

theorem searchPde_full (h : KernelTables s N) (hN : k + 1 < N)
    (hfull : ∀ m < 512 * (k + 1), s.pt (kernelPage m) ≠ none) :
    Ends (searchPde kpalloc ad 1 0 k) s (fun r s' => r = none ∧ s' = s) fun _ _ => False := by
  have hle := h.le
  have hnext : s.pde 1 0 (k + 1) ≠ none := (h.pde (k + 1) (by omega)).mpr hN
  refine (ensurePde_there h (by omega)).bind ?_
  rintro _ t rfl
  rw [ends_bind, ends_get, freePt_none hfull, usePt, nextTable, ends_bind, ends_get,
    if_pos (by omega), if_neg hnext, ends_pure]
  exact ⟨rfl, rfl⟩

theorem searchPde_lowest (h : KernelTables s N) (hn : Lowest s N n) :
    Ends (searchPde kpalloc ad 1 0 (n / 512)) s
      (fun r s' => r = some (kernelAddress n) ∧ s' = s.withPage (kernelPage n) ad)
      fun _ _ => False := by
  have htable := hn.table
  refine (ensurePde_there h (by omega)).bind ?_
  rintro _ t rfl
  rw [ends_bind, ends_get, hn.freePt, usePt, install, ends_bind, ends_modify, ends_pure]
  exact ⟨rfl, rfl⟩

/-- A new page table, in the page that `KPALLOC` returns. -/
theorem searchPde_next {Q : Entry → Pager → Prop} (h : KernelTables s N) (hN : k + 1 = N)
    (hlt : N < 512) (hfull : Full s N)
    (hM : Ends (newTable kpalloc 0x23) s Q fun _ _ => False) :
    Ends (searchPde kpalloc ad 1 0 k) s
      (fun r s' => r = some (kernelAddress (512 * N)) ∧
        ∃ M t, Q M t ∧ s' = (linkPde 1 0 N M t).withPage (kernelPage (512 * N)) ad)
      fun _ _ => False := by
  subst hN
  have hnext : s.pde 1 0 (k + 1) = none := by
    by_contra hthere
    have := (h.pde (k + 1) hlt).mp hthere
    omega
  refine (ensurePde_there h (Nat.lt_succ_self k)).bind ?_
  rintro _ t rfl
  rw [ends_bind, ends_get, freePt_none hfull, usePt, nextTable, ends_bind, ends_get,
    if_pos (by omega), if_pos hnext]
  refine hM.bind fun M t ht => ?_
  have hpage := kernelPage_split (k := k + 1) (a := 0) (by decide)
  rw [ends_bind, ends_modify, install, ends_bind, ends_modify, ends_pure, kernelAddress, ← hpage]
  exact ⟨rfl, M, t, ht, rfl⟩

/-- The search ends at the first page table that is not passed over. -/
theorem search_ends {Q : UInt64 → Pager → Prop} {E : Halt → Pager → Prop} (h : KernelTables s N)
    (hk : k < 512)
    (hpast : ∀ j < k, Ends (searchPde kpalloc ad 1 0 j) s (fun r s' => r = none ∧ s' = s)
      fun _ _ => False)
    (hhere : Ends (searchPde kpalloc ad 1 0 k) s (fun r s' => ∃ v, r = some v ∧ Q v s') E) :
    Ends (searchFrom (searchPml4 kpalloc ad) 511 1) s (fun r s' => ∃ v, r = some v ∧ Q v s') E := by
  have hpde : Ends (searchFrom (searchPde kpalloc ad 1 0) 512 0) s
      (Found Q fun t => t = s ∧ 512 ≤ k) E := by
    refine searchFrom_rule (fun j t => t = s ∧ j ≤ k) 512 0 (fun j t _ _ hinv => ?_)
      ⟨rfl, Nat.zero_le k⟩
    obtain ⟨rfl, hj⟩ := hinv
    rcases Nat.lt_or_eq_of_le hj with hlt | rfl
    · refine (hpast j hlt).mono ?_ fun _ _ hf => hf.elim
      rintro _ s' ⟨rfl, rfl⟩
      exact ⟨rfl, hlt⟩
    · refine hhere.mono ?_ fun _ _ he => he
      rintro _ s' ⟨v, rfl, hv⟩
      exact hv
  have hpdpt : Ends (searchPdpt kpalloc ad 1 0) s (fun r s' => ∃ v, r = some v ∧ Q v s') E := by
    rw [searchPdpt, ends_bind, ensurePdpt, ends_bind, ends_get, if_neg h.pdpt, ends_pure]
    refine hpde.mono (fun r s' hfound => ?_) fun _ _ he => he
    cases r with
    | some v => exact ⟨v, rfl, hfound⟩
    | none => exact absurd hfound.2 (Nat.not_le_of_lt hk)
  refine searchFrom_some ?_
  rw [searchPml4, ends_bind, ensurePml4, ends_bind, ends_get, if_neg h.pml4, ends_pure]
  exact searchFrom_some hpdpt

theorem search_lowest (h : KernelTables s N) (hn : Lowest s N n) :
    Ends (searchFrom (searchPml4 kpalloc ad) 511 1) s
      (fun r s' => ∃ v, r = some v ∧ v = kernelAddress n ∧ s' = s.withPage (kernelPage n) ad)
      fun _ _ => False := by
  have hle := h.le
  have htable := hn.table
  have hk : n / 512 < 512 := by omega
  refine search_ends h hk (fun j hj => searchPde_full h (by omega) fun m hm => ?_) ?_
  · exact hn.below m (by omega)
  · refine (searchPde_lowest h hn).mono ?_ fun _ _ hf => hf
    rintro _ s' ⟨rfl, hs'⟩
    exact ⟨_, rfl, rfl, hs'⟩

theorem search_next {Q : Entry → Pager → Prop} (h : KernelTables s N) (hlt : N < 512)
    (hfull : Full s N) (hM : Ends (newTable kpalloc 0x23) s Q fun _ _ => False) :
    Ends (searchFrom (searchPml4 kpalloc ad) 511 1) s
      (fun r s' => ∃ v, r = some v ∧ v = kernelAddress (512 * N) ∧
        ∃ M t, Q M t ∧ s' = (linkPde 1 0 N M t).withPage (kernelPage (512 * N)) ad)
      fun _ _ => False := by
  have hpos := h.pos
  have hlast : N - 1 + 1 = N := by omega
  have hk : N - 1 < 512 := by omega
  refine search_ends h hk (fun j hj => searchPde_full h (by omega) fun m hm => ?_) ?_
  · exact hfull m (by omega)
  · refine (searchPde_next h hlast hlt hfull hM).mono ?_ fun _ _ hf => hf
    rintro _ s' ⟨rfl, hs'⟩
    exact ⟨_, rfl, rfl, hs'⟩

/-- Behind the last page table of the GiB there are two new tables. -/
theorem searchPde_beyond (h : KernelTables s 512) (hfull : Full s 512)
    (hM : Ends (newTable kpalloc 0x23) s
      (fun _ t => SameTables s t ∧
        Ends (newTable kpalloc 0x23) t (fun _ t' => SameTables t t') fun _ _ => False)
      fun _ _ => False) :
    Ends (searchPde kpalloc ad 1 0 511) s (fun r s' => ∃ v, r = some v ∧ Left s')
      fun _ _ => False := by
  refine (ensurePde_there h (by omega)).bind ?_
  rintro _ t rfl
  rw [ends_bind, ends_get, freePt_none hfull, usePt, nextTable, ends_bind, ends_get,
    if_neg (by decide), if_pos (by decide), if_pos h.beyond]
  refine hM.bind fun M t ⟨ht, hM2⟩ => hM2.bind fun M2 t' ht' => ?_
  have hpml4 : t'.pml4 1 ≠ none := by
    rw [ht'.pml4, ht.pml4]
    exact h.pml4
  rw [ends_bind, ends_modify, install, ends_bind, ends_modify, ends_pure]
  refine ⟨_, rfl, hpml4, ?_, ?_, ?_⟩
  · simp [setPt, linkPde, linkPdpt]
  · simp [setPt, linkPde]
  · simp [setPt]

theorem search_beyond (h : KernelTables s 512) (hfull : Full s 512)
    (hM : Ends (newTable kpalloc 0x23) s
      (fun _ t => SameTables s t ∧
        Ends (newTable kpalloc 0x23) t (fun _ t' => SameTables t t') fun _ _ => False)
      fun _ _ => False) :
    Ends (searchFrom (searchPml4 kpalloc ad) 511 1) s (fun r s' => ∃ v, r = some v ∧ Left s')
      fun _ _ => False :=
  search_ends h (by decide) (fun j hj => searchPde_full h (by omega) fun m hm => hfull m (by omega))
    (searchPde_beyond h hfull hM)

end Search

/-! ## Pages out of the pool -/

theorem pop_bound (h : (List.range 512).find? (fun i => pool i ≠ 0) = some a) :
    a < 512 ∧ pool a ≠ 0 ∧ ∀ i < a, pool i = 0 := by
  obtain ⟨hne, hlt, hbelow⟩ := List.find?_range_eq_some.mp h
  refine ⟨List.mem_range.mp hlt, of_decide_eq_true hne, fun i hi => ?_⟩
  have hi' := hbelow i hi
  simpa using hi'

theorem sameTables_pop (s : Pager) (a : Nat) : SameTables s (s.pop a) := ⟨rfl, rfl, rfl, rfl⟩

theorem Stock.pop (h : Stock s) (a : Nat) : Stock (s.pop a) := by
  intro i hi hne
  by_cases hia : i = a
  · subst hia
    exact absurd (Function.update_self ..) hne
  · have hsame : (s.pop a).pool i = s.pool i := Function.update_of_ne hia ..
    rw [hsame] at hne ⊢
    exact h i hi hne

/-- Below slot 32, and while `PA_CALLING` is set, `KPALLOC` only takes a page out. -/
theorem kpalloc_pop (hquiet : a < 32 ∨ s.paCalling = true) (hstock : Stock s)
    (hfind : (List.range 512).find? (fun i => s.pool i ≠ 0) = some a) :
    Ends (kpallocWith kpAlloc3) s (fun M t => M = s.pool a ∧ t = s.pop a) fun _ _ => False := by
  obtain ⟨ha, hne, -⟩ := pop_bound hfind
  obtain ⟨n, hn, hpool, hmapped⟩ := hstock a ha hne
  refine kpallocWith_quiet hfind hquiet ?_
  rw [hpool, pageOf_kernelAddress hn]
  exact hmapped

theorem newTable_pop {flags : UInt8} (hcall : s.paCalling = true) (hstock : Stock s)
    (hfind : (List.range 512).find? (fun i => s.pool i ≠ 0) = some a) :
    Ends (newTable (kpallocWith kpAlloc3) flags) s
      (fun M t => t = s.pop a ∧ ∃ n < gib, s.pool a = kernelAddress n ∧
        ∃ e, s.mapped (kernelPage n) = some e ∧ M = ⟨e.frame, flags⟩)
      fun _ _ => False := by
  obtain ⟨ha, hne, -⟩ := pop_bound hfind
  obtain ⟨n, hn, hpool, hmapped⟩ := hstock a ha hne
  obtain ⟨e, he⟩ := Option.ne_none_iff_exists'.mp hmapped
  refine (kpalloc_pop (.inr hcall) hstock hfind).bind ?_
  rintro _ t ⟨rfl, rfl⟩
  have hmap : (s.pop a).mapped (kernelPage n) = some e := he
  have hframe : (s.pop a).v2pFrame (s.pool a) = e.frame := by
    rw [Pager.v2pFrame, hpool, v2pPage_kernelAddress hn, hmap]
  have hsome : ¬ ((s.pop a).mapped (pageOf (s.pool a))).map Entry.frame ≠
      some ((s.pop a).v2pFrame (s.pool a)) := by
    rw [hframe, hpool, pageOf_kernelAddress hn, hmap]
    exact fun hn => hn rfl
  rw [ends_bind, ends_get, if_neg hsome, ends_pure, hframe]
  exact ⟨rfl, n, hn, hpool, e, he, rfl⟩

end UnnamedOS.Paging
