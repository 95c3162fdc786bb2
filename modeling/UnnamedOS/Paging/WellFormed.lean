import UnnamedOS.Paging.ContiguousRuns
import UnnamedOS.Paging.FreeFrames

/-!
# No frame twice

`ALSP`, `KP_ALLOC3` and `KPALLOC`, each with all the calls nested in it, give out a frame that is
free. While the bitmap is extended, a refill extends it a second time, and the outer extension
then drops what the inner one has marked.
-/

namespace UnnamedOS.Paging

open UnnamedOS.Lib

/-- The frames of the pages are marked, no two pages have the same one, and what is in the pool is
mapped. -/
structure WellFormed (s : Pager) : Prop where
  marked : ∀ p : Page, p.InTables → ∀ e, s.mapped p = some e → s.marked e.frame = true
  sole : ∀ p q : Page, p.InTables → q.InTables → ∀ e e', s.mapped p = some e →
    s.mapped q = some e' → e.frame = e'.frame → p = q
  pool : ∀ i < 512, s.pool i ≠ 0 → s.mapped (pageOf (s.pool i)) ≠ none

inductive AllocCall where
  | alsp (v : UInt64) (flags magic1 magic2 : UInt8)
  | kpAlloc3
  | kpalloc

def AllocCall.run : AllocCall → PageM Unit
  | .alsp v flags magic1 magic2 => ALSP v flags magic1 magic2
  | .kpAlloc3 => do
    let _ ← KP_ALLOC3
    return
  | .kpalloc => do
    let _ ← KPALLOC
    return

/-- `ALSP` is for a page that is not mapped. -/
def AllocCall.Admits (s : Pager) : AllocCall → Prop
  | .alsp v _ _ _ => s.mapped (pageOf v) = none
  | _ => True

/-- `k` calls of `KPALLOC` find a page, and none of them refills the pool. -/
def QuietFor (s : Pager) (k : Nat) : Prop :=
  k ≤ lowSlots s.pool ∨ s.paCalling = true ∧ k ≤ slotsBelow 512 s.pool

/-- There are so many frames and pages of the first GiB to be had, and in the pool `k` pages besides
those that the bitmap and a page table need for that. -/
def Provided (s : Pager) (frames pages k : Nat) : Prop :=
  ∃ c < 2, ∃ d < 2, k + c + d ≤ slotsBelow 512 s.pool ∧ (c = 0 → RoomyFrames s frames) ∧
    (RoomyPages s pages ∨ d = 1 ∧ MoreTables s)

/-- A refill makes no table on the way to the page. -/
def Clear (s : Pager) (p : Page) : Prop :=
  p.pml4 ≠ 1 ∨ 2 ≤ p.pdpt ∨
    p.pdpt = 0 ∧ (RoomyPages s 64 ∨ 0 < p.pde ∧ s.pde 1 0 (p.pde - 1) = none)

/-- The tables, the words of the bitmap and the pool as the allocator leaves them. -/
def Sound (s : Pager) : Prop := ∃ T, PoolCore s T fun _ => False

/-- All frames are marked, and the page for the bitmap comes from slot 32 or above, so that the pool is
refilled while the bitmap is extended. -/
def Overrun (s : Pager) : Prop :=
  s.AllMarked ∧ s.paCalling = false ∧
    ∃ a, 32 ≤ a ∧ (List.range 512).find? (fun i => s.pool i ≠ 0) = some a

/-- `ALSP` extends the bitmap outside of `KP_ALLOC3`. -/
def AllocCall.Overruns (s : Pager) : AllocCall → Prop
  | .alsp _ _ _ _ => Overrun s
  | _ => False

/-- Whatever the calls of `KPALLOC` do, they make no table on the way to the page that is missing. -/
def Undisturbed (s : Pager) (p : Page) : Prop :=
  p.pml4 = 0 ∨ s.missingTables p = 0 ∨ s.paCalling = true ∨ s.missingTables p < lowSlots s.pool

def AllocCall.Regular (s : Pager) : AllocCall → Prop
  | .alsp v _ _ _ => Undisturbed s (pageOf v)
  | _ => True

/-- `PL_FN` finds the lowest free frame without an extension. -/
def FrameAtHand (s : Pager) : Prop := ∃ f, s.FirstFree f ∧ s.Visible f ∧ s.Covers f

/-- What the call takes is at hand, and if the pool is refilled, then neither while the bitmap is
extended nor while a table is made that the refill may make too. -/
def AllocCall.Meets (s : Pager) : AllocCall → Prop
  | .alsp v _ _ _ => s.missingTables (pageOf v) = 0 ∧ FrameAtHand s ∨
      Sound s ∧ ∃ b, (b = 0 ∧ RoomyFrames s 1 ∨ b = 1 ∧ QuietFor s 1) ∧
        (QuietFor s (b + s.missingTables (pageOf v)) ∨
          Provided s 65 64 (b + s.missingTables (pageOf v)) ∧ Clear s (pageOf v))
  | .kpAlloc3 => Sound s ∧ Provided s 1 1 0
  | .kpalloc => QuietFor s 1 ∨ Sound s ∧ Provided s 64 64 1

variable {s s₁ s' t : Pager} {T out : Nat → Prop} {p : Page} {n a c f k : Nat}

theorem Stock.poolMapped (h : Stock s) : PoolMapped s := by
  intro i hi hne
  obtain ⟨n, hn, hpool, hmapped⟩ := h i hi hne
  rw [hpool, pageOf_kernelAddress hn]
  exact hmapped

theorem Pager.Leads.missingTables (h : s.Leads p) : s.missingTables p = 0 := by
  rw [Pager.missingTables, if_neg h.pml4, if_neg h.pdpt, if_neg h.pde]

theorem leads_of_missing (h : s.missingTables p = 0) : s.Leads p := by
  unfold Pager.missingTables at h
  split at h
  · cases h
  · split at h
    · cases h
    · split at h
      · cases h
      · exact ⟨by assumption, by assumption, by assumption⟩

theorem Prepares.missingTables (h : Prepares s t) (p : Page) :
    t.missingTables p ≤ s.missingTables p := by
  by_cases hpml4 : s.pml4 p.pml4 = none
  · rw [show s.missingTables p = 3 from if_pos hpml4]
    exact missingTables_le t p
  · have hpml4' := h.pml4 _ hpml4
    by_cases hpdpt : s.pdpt p.pml4 p.pdpt = none
    · rw [show s.missingTables p = 2 by rw [Pager.missingTables, if_neg hpml4, if_pos hpdpt]]
      exact missingTables_of_pml4 hpml4'
    · have hpdpt' := h.pdpt _ _ hpml4 hpdpt
      by_cases hpde : s.pde p.pml4 p.pdpt p.pde = none
      · rw [show s.missingTables p = 1 by
          rw [Pager.missingTables, if_neg hpml4, if_neg hpdpt, if_pos hpde]]
        exact missingTables_of_pdpt hpml4' hpdpt'
      · rw [(h.leads ⟨hpml4, hpdpt, hpde⟩).missingTables]
        exact Nat.zero_le _

/-! ## `KP_ALLOC3` -/

theorem Allocates.stock {d : Nat} (h : Allocates s s' T n f c d) (hs : Stock s) : Stock s' := by
  intro i hi hne
  rcases h.pops.fewer i with hsame | hzero
  · obtain ⟨m, hm, hpool, hmapped⟩ := hs i hi (hsame ▸ hne)
    obtain ⟨e, he⟩ := Option.ne_none_iff_exists'.mp hmapped
    refine ⟨m, hm, hsame.trans hpool, ?_⟩
    rw [h.kept hm he]
    exact Option.some_ne_none e
  · exact absurd hzero hne

theorem PoolCore.kp_alloc3 (h : PoolCore s T out) (hp : Provided s 1 1 0) :
    Ends KP_ALLOC3 s (fun _ s' => TakesFree s s' ∧ Stock s') fun _ _ => False := by
  obtain ⟨c, -, d, hd, hsupply, hframes, hpages⟩ := hp
  obtain ⟨N, hN⟩ := h.tables
  unfold KP_ALLOC3 KPALLOC kpallocDepth
  refine (Paging.kpAlloc3_spec hN h.stock h.frames (show c + d ≤ _ by omega) hframes
    fun _ => hpages).mono ?_ fun _ _ hf => hf
  rintro _ s' (⟨n, f, c', d', -, ha⟩ | ⟨htwo, -⟩)
  · exact ⟨ha.takes, ha.stock h.stock⟩
  · exact absurd htwo (Nat.not_le_of_lt hd)

/-! ## `KPALLOC` -/

theorem QuietFor.slot (h : QuietFor s (k + 1)) :
    ∃ a, (List.range 512).find? (fun i => s.pool i ≠ 0) = some a ∧ (a < 32 ∨ s.paCalling = true) := by
  rcases h with hlow | ⟨hcall, hslots⟩
  · have hpos : 0 < lowSlots s.pool := by omega
    obtain ⟨a, ha, hfind⟩ := exists_slot (by decide) hpos
    exact ⟨a, hfind, .inl ha⟩
  · obtain ⟨a, -, hfind⟩ := exists_slot (Nat.le_refl 512) (Nat.lt_of_lt_of_le (Nat.succ_pos k) hslots)
    exact ⟨a, hfind, .inr hcall⟩

theorem QuietFor.mono {j : Nat} (h : QuietFor s k) (hle : j ≤ k) : QuietFor s j :=
  h.imp hle.trans fun hset => ⟨hset.1, hle.trans hset.2⟩

theorem QuietFor.fewer (h : QuietFor s (c + k)) (hpops : Pops c s.pool t.pool)
    (hcall : t.paCalling = s.paCalling) : QuietFor t k := by
  have hlow : lowSlots s.pool ≤ lowSlots t.pool + c := hpops.slotsBelow 32
  have hall := hpops.slotsBelow 512
  rcases h with hle | ⟨hset, hle⟩
  · exact .inl (by omega)
  · exact .inr ⟨hcall.trans hset, by omega⟩

theorem Provided.fewer {j m frames : Nat} (h : Provided s m 64 (c + k)) (ht : SameTables s t)
    (hpops : Pops j s.pool t.pool) (hj : j ≤ c)
    (hroom : RoomyFrames s m → RoomyFrames t frames) : Provided t frames 64 k := by
  obtain ⟨c', hc', d, hd, hsupply, hframes, hpages⟩ := h
  have hall := hpops.slotsBelow 512
  refine ⟨c', hc', d, hd, by omega, fun h0 => hroom (hframes h0), ?_⟩
  unfold RoomyPages MoreTables at hpages ⊢
  rwa [ht.pde, ht.pt]

theorem Clear.same (h : Clear s p) (ht : SameTables s t) : Clear t p := by
  unfold Clear RoomyPages at h ⊢
  rwa [ht.pde, ht.pt]

/-- `k` calls of `KPALLOC` find a page, and what is absent on the way to the page `p` stays so. -/
def Serves (s : Pager) (p : Page) (k : Nat) : Prop :=
  QuietFor s k ∨ (∃ T, PoolCore s T fun _ => False) ∧ Provided s 64 64 k ∧ Clear s p

/-- One call of `KPALLOC` with a page `n` for a table. -/
structure Served (s t : Pager) (p : Page) (n k : Nat) : Prop where
  page : n < gib
  mapped : t.mapped (kernelPage n) ≠ none
  stock : Stock t
  takes : TakesFree s t
  serves : Serves t p k
  pml4 : t.pml4 = s.pml4
  pdpt : t.pdpt = s.pdpt
  pde : p.InTables → s.pde p.pml4 p.pdpt p.pde = none → t.pde p.pml4 p.pdpt p.pde = none

theorem served_pop (hstock : Stock s) (h : Serves s p (k + 1))
    (hfind : (List.range 512).find? (fun i => s.pool i ≠ 0) = some a) :
    ∃ n, s.pool a = kernelAddress n ∧ Served s (s.pop a) p n k := by
  obtain ⟨ha, hne, -⟩ := pop_bound hfind
  obtain ⟨n, hn, hpool, hmapped⟩ := hstock a ha hne
  have hpops : Pops 1 s.pool (s.pop a).pool := Pops.one hfind
  refine ⟨n, hpool, hn, hmapped, hstock.pop a, .of_same (fun _ => rfl) fun _ => rfl, ?_, rfl, rfl,
    fun _ hnone => hnone⟩
  rw [Nat.add_comm] at h
  rcases h with hquiet | ⟨⟨T, hcore⟩, hp, hclear⟩
  · exact .inl (hquiet.fewer hpops rfl)
  · exact .inr ⟨⟨T, hcore.drop ha⟩, hp.fewer (sameTables_pop s a) hpops (Nat.le_refl 1) fun h => h,
      hclear.same (sameTables_pop s a)⟩

/-- The page tables that a refill makes are not those that are missing. -/
theorem Clear.pde_absent {d : Nat} {N : Nat} (h : Clear s p) (hN : KernelTables s N)
    (hadds : AddsTables s t d) (hd : d = 0 ∨ d = 1 ∧ ¬ RoomyPages s 64) (hp : p.InTables)
    (hnone : s.pde p.pml4 p.pdpt p.pde = none) : t.pde p.pml4 p.pdpt p.pde = none := by
  by_cases hfirst : p.pml4 = 1 ∧ p.pdpt = 0
  · obtain ⟨hpml4, hpdpt⟩ := hfirst
    obtain ⟨N', hle, -, hN'⟩ := hadds.count N hN
    rw [hpml4, hpdpt] at hnone ⊢
    have hout : N ≤ p.pde := by
      by_contra hlt
      exact (hN.pde p.pde hp.pde).mpr (Nat.lt_of_not_le hlt) hnone
    have hbound : N' ≤ p.pde := by
      rcases hd with rfl | ⟨rfl, hfull⟩
      · omega
      · rcases h with hne | htwo | ⟨-, hroom | ⟨hpos, hbefore⟩⟩
        · exact absurd hpml4 hne
        · omega
        · exact absurd hroom hfull
        · have hpde := hp.pde
          have hless : N ≤ p.pde - 1 := by
            by_contra hlt
            exact (hN.pde (p.pde - 1) (by omega)).mpr (Nat.lt_of_not_le hlt) hbefore
          omega
    by_contra hthere
    exact absurd ((hN'.pde p.pde hp.pde).mp hthere) (Nat.not_lt_of_le hbound)
  · rw [hadds.pde _ _ hfirst]
    exact hnone

/-- With a page table to be made only if it has to be. -/
theorem Provided.least {frames : Nat} (h : Provided s frames 64 k) :
    ∃ c < 2, ∃ d, (d = 0 ∨ d = 1 ∧ ¬ RoomyPages s 64) ∧ k + c + d ≤ slotsBelow 512 s.pool ∧
      (c = 0 → RoomyFrames s frames) ∧ (RoomyPages s 64 ∨ d = 1 ∧ MoreTables s) := by
  obtain ⟨c, hc, d, hd, hsupply, hframes, hpages⟩ := h
  by_cases hroom : RoomyPages s 64
  · exact ⟨c, hc, 0, .inl rfl, by omega, hframes, .inl hroom⟩
  · have hone := hpages.resolve_left hroom
    exact ⟨c, hc, d, .inr ⟨hone.1, hroom⟩, hsupply, hframes, hpages⟩

/-- `KPALLOC` takes the page `n` from slot 32 or above, and fills the lower slots. -/
structure Refills (s t : Pager) (n : Nat) : Prop where
  page : n < gib
  mapped : t.mapped (kernelPage n) ≠ none
  stock : Stock t
  filled : ∀ j, 2 ≤ j → j < 64 → t.pool j ≠ 0
  adds : ∃ d, (d = 0 ∨ d = 1 ∧ ¬ RoomyPages s 64) ∧ AddsTables s t d
  takes : TakesFree s t

theorem PoolCore.refills (h : PoolCore s T fun _ => False) (hquiet : ¬ QuietFor s 1)
    (hp : Provided s 64 64 (k + 1)) :
    Ends KPALLOC s (fun v t => ∃ n, v = kernelAddress n ∧ Refills s t n) fun _ _ => False := by
  obtain ⟨c, hc, d, hd, hsupply, hframes, hpages⟩ := hp.least
  have hd2 : d < 2 := by omega
  obtain ⟨a, -, hfind⟩ := exists_slot (Nat.le_refl 512) (show 0 < slotsBelow 512 s.pool by omega)
  obtain ⟨ha, hne, hbelow⟩ := pop_bound hfind
  obtain ⟨n, hn, hpool, -⟩ := h.stock a ha hne
  have hge : 32 ≤ a := by
    by_contra hlt
    have hslot : ∀ j, a ≤ j → j < a + 1 → s.pool j ≠ 0 := by
      intro j hj hlt'
      obtain rfl : j = a := by omega
      exact hne
    have hone := slotsBelow_of_filled (k := 32) (by omega) hslot
    exact hquiet (.inl (show 1 ≤ slotsBelow 32 s.pool by omega))
  have hcall : s.paCalling = false := by
    by_contra hset
    exact hquiet (.inr ⟨Bool.eq_true_of_not_eq_false hset, by omega⟩)
  have hrest := slotsBelow_update 512 s.pool a 0
  refine (h.kpalloc hcall hfind hn hpool fun _ =>
    ⟨show c + d ≤ slotsBelow 512 (Function.update s.pool a 0) by omega, hframes,
      fun _ => hpages⟩).mono ?_ fun _ _ hleft => absurd hleft.1 (Nat.not_le_of_lt hd2)
  rintro _ t (⟨rfl, ⟨hlt, -⟩ | ⟨-, ⟨T', P, hcore, hP, hslots, hgrows⟩, hadds, htakes, -⟩⟩ | ⟨htwo, -⟩)
  · exact absurd hge (Nat.not_le_of_lt hlt)
  · have hfilled : ∀ j, 2 ≤ j → j < 64 → t.pool j ≠ 0 :=
      fun j hj hlt => hslots.filled j (by omega) hlt
    exact ⟨n, rfl, hn, (hcore.handed n (.inl rfl)).2.1, hcore.stock, hfilled, ⟨d, hd, hadds⟩, htakes⟩
  · exact absurd htwo (Nat.not_le_of_lt hd2)

theorem kpalloc_served (hstock : Stock s) (h : Serves s p (k + 1)) (hk : k ≤ 29) :
    Ends KPALLOC s (fun v t => ∃ n, v = kernelAddress n ∧ Served s t p n k) fun _ _ => False := by
  by_cases hquiet : QuietFor s 1
  · obtain ⟨a, hfind, hslot⟩ := hquiet.slot
    unfold KPALLOC kpallocDepth
    refine (kpalloc_pop hslot hstock hfind).mono ?_ fun _ _ hf => hf
    rintro _ _ ⟨rfl, rfl⟩
    exact served_pop hstock h hfind
  · rcases h with hmany | ⟨⟨T, hcore⟩, hp, hclear⟩
    · exact absurd (hmany.mono (Nat.le_add_left 1 k)) hquiet
    · obtain ⟨N, hN⟩ := hcore.tables
      refine (hcore.refills hquiet hp).mono ?_ fun _ _ hf => hf
      rintro _ t ⟨n, rfl, hn⟩
      obtain ⟨d, hd, hadds⟩ := hn.adds
      have hslots := lowSlots_of_filled fun j hj hlt => hn.filled j (by omega) hlt
      exact ⟨n, rfl, hn.page, hn.mapped, hn.stock, hn.takes, .inl (.inl (hk.trans hslots)),
        hadds.pml4, hadds.pdpt, fun hp' hnone => hclear.pde_absent hN hadds hd hp' hnone⟩

/-! ## `ALSP` -/

/-- The page is still to be mapped, and `KPALLOC` can be called for each table that is missing. -/
structure Underway (s₁ s : Pager) (p : Page) : Prop where
  takes : TakesFree s₁ s
  stock : Stock s
  absent : s.mapped p = none
  serves : Serves s p (s.missingTables p)

theorem newTable_served (flags : UInt8) (hstock : Stock s) (h : Serves s p (k + 1)) (hk : k ≤ 29) :
    Ends (newTable KPALLOC flags) s (fun _ t => ∃ n, Served s t p n k) fun _ _ => False := by
  refine newTable_in_gib flags ((kpalloc_served hstock h hk).mono ?_ fun _ _ hf => hf)
  rintro _ t ⟨n, rfl, hn⟩
  exact ⟨⟨n, hn.page, rfl, hn.mapped⟩, n, hn⟩

/-- A table linked to an absent entry outside of the first GiB. -/
theorem Serves.linked (h : Serves s p k) (hsame : ∀ T, PoolCore s T (fun _ => False) → Clear s p →
      SameKernel s s' ∧ s'.pde 1 0 = s.pde 1 0)
    (hpt : ∀ n, s'.pt (kernelPage n) = s.pt (kernelPage n)) (hpool : s'.pool = s.pool)
    (hchain : s'.chain = s.chain) (hcall : s'.paCalling = s.paCalling) : Serves s' p k := by
  rcases h with hquiet | ⟨⟨T, hcore⟩, hp, hclear⟩
  · refine .inl ?_
    unfold QuietFor
    rwa [hpool, hcall]
  · have hframes : FrameInv s' T := hcore.frames.of_marked
      (by rw [hchain]; exact hcore.frames.nonempty) fun m => by rw [Pager.marked, Pager.marked, hchain]
    obtain ⟨hkernel, hpde⟩ := hsame T hcore hclear
    refine .inr ⟨⟨T, hcore.same hkernel hframes fun _ _ _ _ hT => hT⟩, ?_, ?_⟩
    · unfold Provided RoomyFrames RoomyPages MoreTables Pager.Covers Pager.marked at hp ⊢
      simpa only [hpool, hchain, hpde, hpt] using hp
    · unfold Clear RoomyPages at hclear ⊢
      simpa only [hpde, hpt] using hclear

theorem Stock.stays (h : Stock s) (hpool : s'.pool = s.pool)
    (hm : ∀ p, s.mapped p ≠ none → s'.mapped p ≠ none) : Stock s' := by
  intro i hi hne
  rw [hpool] at hne ⊢
  obtain ⟨n, hn, heq, hmapped⟩ := h i hi hne
  exact ⟨n, hn, heq, hm _ hmapped⟩

theorem Serves.linkPml4 (h : Serves s p k) (hnone : s.pml4 p.pml4 = none) (M : Entry) :
    Serves (linkPml4 p.pml4 M s) p k := by
  refine h.linked (fun T hcore _ => ⟨?_, rfl⟩) (fun _ => rfl) rfl rfl rfl
  obtain ⟨N, hN⟩ := hcore.tables
  have hne : 1 ≠ p.pml4 := by
    intro heq
    rw [← heq] at hnone
    exact hN.pml4 hnone
  exact .of_eq (Function.update_of_ne hne _ _) (congrFun (Function.update_of_ne hne _ _) 0)
    (congrFun (Function.update_of_ne hne _ _) 1) rfl (fun _ => mapped_linkPml4_absent hnone) rfl

theorem Serves.linkPdpt (h : Serves s p k) (hnone : s.pdpt p.pml4 p.pdpt = none) (M : Entry) :
    Serves (linkPdpt p.pml4 p.pdpt M s) p k := by
  -- the page is not in the first two GiB
  have hpdpt : Clear s p → s.pdpt 1 0 ≠ none → ∀ j < 2,
      (Paging.linkPdpt p.pml4 p.pdpt M s).pdpt 1 j = s.pdpt 1 j ∧
        (Paging.linkPdpt p.pml4 p.pdpt M s).pde 1 j = s.pde 1 j := by
    intro hclear hfirst j hj
    by_cases hi : 1 = p.pml4
    · have hjne : j ≠ p.pdpt := by
        rintro rfl
        rcases hclear with hne | htwo | ⟨hzero, -⟩
        · exact hne hi.symm
        · omega
        · rw [← hi, hzero] at hnone
          exact hfirst hnone
      simp [Paging.linkPdpt, ← hi, hjne]
    · simp [Paging.linkPdpt, hi]
  refine h.linked (fun T hcore hclear => ?_) (fun _ => rfl) rfl rfl rfl
  obtain ⟨N, hN⟩ := hcore.tables
  have hsame := hpdpt hclear hN.pdpt
  exact ⟨.of_eq rfl (hsame 0 (by decide)).1 (hsame 1 (by decide)).1 (hsame 0 (by decide)).2
    (fun _ => mapped_linkPdpt_absent hnone) rfl, (hsame 0 (by decide)).2⟩

theorem Underway.ensurePml4 (h : Underway s₁ s p) (flags : UInt8) :
    Ends (ensurePml4 KPALLOC flags p.pml4) s
      (fun _ t => Underway s₁ t p ∧ t.pml4 p.pml4 ≠ none) fun _ _ => False := by
  rw [Paging.ensurePml4, ends_bind, ends_get]
  split
  · rename_i hnone
    have hmissing : s.missingTables p = 3 := if_pos hnone
    refine (newTable_served flags h.stock (hmissing ▸ h.serves) (by decide)).bind ?_
    rintro M t ⟨n, ht⟩
    rw [ends_modify]
    have hnone' : t.pml4 p.pml4 = none := by
      rw [ht.pml4]
      exact hnone
    have hmapped : ∀ q, (linkPml4 p.pml4 M t).mapped q = t.mapped q :=
      fun q => mapped_linkPml4_absent hnone'
    have htwo : (linkPml4 p.pml4 M t).missingTables p = 2 := by
      simp [Pager.missingTables, linkPml4]
    refine ⟨⟨(h.takes.trans ht.takes).trans (.of_same hmapped fun _ => rfl),
      ht.stock.stays rfl fun q hq => (hmapped q).symm ▸ hq, ?_, htwo ▸ ht.serves.linkPml4 hnone' M⟩, ?_⟩
    · rw [hmapped, Pager.mapped, if_pos (.inl hnone')]
    · simp [linkPml4]
  · rename_i hthere
    exact ends_pure.mpr ⟨h, hthere⟩

theorem Underway.ensurePdpt (h : Underway s₁ s p) (hpml4 : s.pml4 p.pml4 ≠ none) (flags : UInt8) :
    Ends (ensurePdpt KPALLOC flags p.pml4 p.pdpt) s
      (fun _ t => Underway s₁ t p ∧ t.pml4 p.pml4 ≠ none ∧ t.pdpt p.pml4 p.pdpt ≠ none)
      fun _ _ => False := by
  rw [Paging.ensurePdpt, ends_bind, ends_get]
  split
  · rename_i hnone
    have hmissing : s.missingTables p = 2 := by
      rw [Pager.missingTables, if_neg hpml4, if_pos hnone]
    refine (newTable_served flags h.stock (hmissing ▸ h.serves) (by decide)).bind ?_
    rintro M t ⟨n, ht⟩
    rw [ends_modify]
    have hpml4' : t.pml4 p.pml4 ≠ none := by
      rw [ht.pml4]
      exact hpml4
    have hnone' : t.pdpt p.pml4 p.pdpt = none := by
      rw [ht.pdpt]
      exact hnone
    have hmapped : ∀ q, (linkPdpt p.pml4 p.pdpt M t).mapped q = t.mapped q :=
      fun q => mapped_linkPdpt_absent hnone'
    have hone : (linkPdpt p.pml4 p.pdpt M t).missingTables p = 1 := by
      simp [Pager.missingTables, linkPdpt, hpml4']
    refine ⟨⟨(h.takes.trans ht.takes).trans (.of_same hmapped fun _ => rfl),
      ht.stock.stays rfl fun q hq => (hmapped q).symm ▸ hq, ?_, hone ▸ ht.serves.linkPdpt hnone' M⟩,
        hpml4', ?_⟩
    · rw [hmapped, Pager.mapped, if_pos (.inr (.inl hnone'))]
    · simp [linkPdpt]
  · rename_i hthere
    exact ends_pure.mpr ⟨h, hpml4, hthere⟩

/-- After the last table. -/
structure Reached (s₁ s : Pager) (p : Page) : Prop where
  takes : TakesFree s₁ s
  stock : Stock s
  absent : s.mapped p = none
  pml4 : s.pml4 p.pml4 ≠ none
  pdpt : s.pdpt p.pml4 p.pdpt ≠ none
  pde : s.pde p.pml4 p.pdpt p.pde ≠ none

theorem Underway.ensurePde (h : Underway s₁ s p) (hp : p.InTables) (hpml4 : s.pml4 p.pml4 ≠ none)
    (hpdpt : s.pdpt p.pml4 p.pdpt ≠ none) (flags : UInt8) :
    Ends (ensurePde KPALLOC flags p.pml4 p.pdpt p.pde) s (fun _ t => Reached s₁ t p)
      fun _ _ => False := by
  rw [Paging.ensurePde, ends_bind, ends_get]
  split
  · rename_i hnone
    have hmissing : s.missingTables p = 1 := by
      rw [Pager.missingTables, if_neg hpml4, if_neg hpdpt, if_pos hnone]
    refine (newTable_served flags h.stock (hmissing ▸ h.serves) (by decide)).bind ?_
    rintro M t ⟨n, ht⟩
    rw [ends_modify]
    have hnone' := ht.pde hp hnone
    have hmapped : ∀ q, (linkPde p.pml4 p.pdpt p.pde M t).mapped q = t.mapped q :=
      fun q => mapped_linkPde_absent hnone'
    refine ⟨(h.takes.trans ht.takes).trans (.of_same hmapped fun _ => rfl),
      ht.stock.stays rfl fun q hq => (hmapped q).symm ▸ hq, ?_, ?_, ?_, ?_⟩
    · rw [hmapped, Pager.mapped, if_pos (.inr (.inr hnone'))]
    · change t.pml4 p.pml4 ≠ none
      rw [ht.pml4]
      exact hpml4
    · change t.pdpt p.pml4 p.pdpt ≠ none
      rw [ht.pdpt]
      exact hpdpt
    · simp [linkPde]
  · rename_i hthere
    exact ends_pure.mpr ⟨h.takes, h.stock, h.absent, hpml4, hpdpt, hthere⟩

/-- When the frame has been taken. -/
theorem PoolCore.underway {b : Nat} (h : PoolCore s T fun _ => False) (ht : TookFrame s t T f c)
    (hnone : s.mapped p = none) (hb : b = 0 ∧ RoomyFrames s 1 ∨ b = 1 ∧ QuietFor s 1)
    (hserves : QuietFor s (b + s.missingTables p) ∨
      Provided s 65 64 (b + s.missingTables p) ∧ Clear s p) : Underway t t p := by
  have hcb : c ≤ b := by
    rcases hb with ⟨rfl, hthere⟩ | ⟨rfl, -⟩
    · rcases ht.room with ⟨rfl, -⟩ | ⟨-, hroom, -⟩
      · exact Nat.le_refl 0
      · exact absurd hthere hroom
    · rcases ht.room with ⟨rfl, -⟩ | ⟨rfl, -, -⟩
      · exact Nat.zero_le 1
      · exact Nat.le_refl 1
  have hsame : t.missingTables p = s.missingTables p := by
    rw [Pager.missingTables, Pager.missingTables, ht.tables.pml4, ht.tables.pdpt, ht.tables.pde]
  refine ⟨.of_same (fun _ => rfl) fun _ => rfl, h.stock.sameTables ht.tables ht.pops, ?_, ?_⟩
  · rw [ht.tables.mapped]
    exact hnone
  · rw [hsame]
    rcases hserves with hquiet | ⟨hp, hclear⟩
    · exact .inl ((hquiet.mono (Nat.add_le_add_right hcb _)).fewer ht.pops ht.calling)
    · refine .inr ⟨⟨_, h.took ht⟩, hp.fewer ht.tables ht.pops hcb fun hroom => ?_,
        hclear.same ht.tables⟩
      rcases ht.room with ⟨-, htake⟩ | ⟨-, -, hnew⟩
      · exact htake 64 hroom
      · exact hnew.mono (by decide)

theorem Reached.pt_absent (h : Reached s₁ s p) : s.pt p = none := by
  have habsent := h.absent
  rwa [Pager.mapped, if_neg] at habsent
  rintro (h0 | h0 | h0)
  · exact h.pml4 h0
  · exact h.pdpt h0
  · exact h.pde h0

theorem PoolCore.alsp {v : UInt64} (h : PoolCore s T fun _ => False) (flags magic1 magic2 : UInt8)
    (hnone : s.mapped (pageOf v) = none)
    (hm : ∃ b, (b = 0 ∧ RoomyFrames s 1 ∨ b = 1 ∧ QuietFor s 1) ∧
      (QuietFor s (b + s.missingTables (pageOf v)) ∨
        Provided s 65 64 (b + s.missingTables (pageOf v)) ∧ Clear s (pageOf v))) :
    Ends (ALSP v flags magic1 magic2) s (fun _ s' => TakesFree s s' ∧ Stock s' ∧
        ∃ ad, s'.mapped (pageOf v) = some ⟨ad, magic2 ||| flags⟩)
      fun _ _ => False := by
  obtain ⟨b, hb, hserves⟩ := hm
  have hslot : ¬ RoomyFrames s 1 → ∃ a,
      (List.range 512).find? (fun i => s.pool i ≠ 0) = some a ∧ (a < 32 ∨ s.paCalling = true) := by
    intro hroom
    rcases hb with ⟨-, hthere⟩ | ⟨-, hquiet⟩
    · exact absurd hthere hroom
    · exact hquiet.slot
  rw [ALSP]
  refine (takesFrame h.stock h.frames hslot).bind fun f u hu => hu.bind ?_
  rintro _ t ⟨c, ht⟩
  have hstart := h.underway ht hnone hb hserves
  refine (hstart.ensurePml4 magic1).bind ?_
  rintro _ t₁ ⟨h₁, hpml4⟩
  refine (h₁.ensurePdpt hpml4 magic1).bind ?_
  rintro _ t₂ ⟨h₂, hpml4', hpdpt⟩
  refine (h₂.ensurePde (pageOf_inTables v) hpml4' hpdpt magic1).bind fun _ t₃ h₃ => ?_
  rw [ends_bind, ends_get, if_neg (fun hne => hne h₃.pt_absent), ends_modify]
  refine ⟨(ht.marksFrame h.frames).put h₃.takes h₃.absent rfl, h₃.stock.stays rfl fun q hq => ?_,
    _, mapped_setPt h₃.pml4 h₃.pdpt h₃.pde⟩
  have hne : q ≠ pageOf v := by
    rintro rfl
    exact hq h₃.absent
  rwa [mapped_setPt_of_ne hne]

/-! ## Any tables -/

/-- So many calls of `KPALLOC` leave the tables on the way to the page alone. -/
def Keeping (s : Pager) (p : Page) (k : Nat) : Prop :=
  p.pml4 = 0 ∨ s.paCalling = true ∨ k ≤ lowSlots s.pool

/-- The tables of the page's part of the address space are the same. -/
structure SamePart (s t : Pager) (p : Page) : Prop where
  pml4 : t.pml4 p.pml4 = s.pml4 p.pml4
  pdpt : t.pdpt p.pml4 = s.pdpt p.pml4
  pde : t.pde p.pml4 = s.pde p.pml4

/-- On the way to the page, from a state `s₁`. -/
structure Halfway (s₁ s : Pager) (p : Page) : Prop where
  takes : Takes s₁ s
  pool : PoolMapped s
  keeping : Keeping s p (s.missingTables p)

theorem Keeping.mono {i : Nat} (h : Keeping s p k) (hle : i ≤ k) : Keeping s p i :=
  h.imp_right (Or.imp_right hle.trans)

theorem SameTables.samePart (h : SameTables s t) : SamePart s t p :=
  ⟨by rw [h.pml4], by rw [h.pdpt], by rw [h.pde]⟩

theorem KPALLOC_keeping (h : PoolMapped s) (hp : Keeping s p (k + 1)) :
    Ends KPALLOC s (fun _ t => Takes s t ∧ PoolMapped t ∧ SamePart s t p ∧ Keeping t p k)
      fun _ _ => True := by
  have hquiet : (s.paCalling = true ∨ k + 1 ≤ lowSlots s.pool) →
      Ends KPALLOC s (fun _ t => Takes s t ∧ PoolMapped t ∧ SamePart s t p ∧ Keeping t p k)
        fun _ _ => True := by
    intro hcase
    unfold KPALLOC kpallocDepth
    refine (kpallocWith_drained fun a hfind => ?_).mono ?_ fun _ _ h => h
    · rcases hcase with hcall | hslots
      · exact .inr hcall
      · obtain ⟨a', ha', hfind'⟩ := exists_slot (k := 32) (by decide)
          (show 0 < slotsBelow 32 s.pool from Nat.lt_of_lt_of_le (Nat.succ_pos k) hslots)
        obtain rfl := Option.some.inj (hfind'.symm.trans hfind)
        exact .inl ha'
    · rintro _ _ ⟨a, -, rfl⟩
      have htakes : Takes s (s.pop a) := .of_same (fun _ => rfl) fun _ => rfl
      refine ⟨htakes, h.takes htakes.toTakesFree (Drained.of_pop s a).pool,
        (sameTables_pop s a).samePart, .inr ?_⟩
      have hless := lowSlots_update s.pool a
      rcases hcase with hcall | hslots
      · exact .inl hcall
      · exact .inr (show k ≤ lowSlots (Function.update s.pool a 0) by omega)
  rcases hp with hzero | hcase
  · refine ((KPALLOC_takes h).and ((respects_KPALLOC s).mono (fun _ _ h => h)
      fun _ _ _ => trivial)).mono ?_ fun _ _ h => h.1
    rintro _ t ⟨⟨htakes, hpool, -⟩, hside⟩
    exact ⟨htakes, hpool, ⟨by rw [hzero, hside.pml4], by rw [hzero, hside.pdpt],
      by rw [hzero, hside.pde]⟩, .inl hzero⟩
  · exact hquiet hcase

theorem Halfway.newTable {s₁ : Pager} (h : Halfway s₁ s p) (hm : s.missingTables p = k + 1)
    (flags : UInt8) :
    Ends (newTable KPALLOC flags) s
      (fun _ t => SamePart s t p ∧ ∀ u, Prepares t u → u.pool = t.pool → u.missingTables p ≤ k →
        Halfway s₁ u p) fun _ _ => True := by
  have hkeeping := h.keeping
  rw [hm] at hkeeping
  refine newTable_any ((KPALLOC_keeping h.pool hkeeping).mono ?_ fun _ _ h => h)
  rintro _ t ⟨htakes, hpool, hpart, hkeep⟩
  refine ⟨hpart, fun u hu hsame hmiss => ⟨(h.takes.trans htakes).trans hu.takes,
    hpool.takes hu.takes.toTakesFree hu.pool, ?_⟩⟩
  have hless := hkeep.mono hmiss
  unfold Keeping at hless ⊢
  rwa [hu.calling, hsame]

theorem Halfway.ensurePml4 {s₁ : Pager} (h : Halfway s₁ s p) (flags : UInt8) :
    Ends (ensurePml4 KPALLOC flags p.pml4) s
      (fun _ t => Halfway s₁ t p ∧ t.pml4 p.pml4 ≠ none) fun _ _ => True := by
  rw [Paging.ensurePml4, ends_bind, ends_get]
  split
  · rename_i hnone
    refine (h.newTable (k := 2) (if_pos hnone) flags).bind ?_
    rintro M t ⟨hpart, hlinked⟩
    have hnone' : t.pml4 p.pml4 = none := hpart.pml4.trans hnone
    have hthere : (linkPml4 p.pml4 M t).pml4 p.pml4 ≠ none := by simp [linkPml4]
    exact ends_modify.mpr ⟨hlinked _ (prepares_linkPml4 hnone' M) rfl (missingTables_of_pml4 hthere),
      hthere⟩
  · rename_i hthere
    exact ends_pure.mpr ⟨h, hthere⟩

theorem Halfway.ensurePdpt {s₁ : Pager} (h : Halfway s₁ s p) (hpml4 : s.pml4 p.pml4 ≠ none)
    (flags : UInt8) :
    Ends (ensurePdpt KPALLOC flags p.pml4 p.pdpt) s
      (fun _ t => Halfway s₁ t p ∧ t.pml4 p.pml4 ≠ none ∧ t.pdpt p.pml4 p.pdpt ≠ none)
      fun _ _ => True := by
  rw [Paging.ensurePdpt, ends_bind, ends_get]
  split
  · rename_i hnone
    have hmissing : s.missingTables p = 1 + 1 := by
      rw [Pager.missingTables, if_neg hpml4, if_pos hnone]
    refine (h.newTable hmissing flags).bind ?_
    rintro M t ⟨hpart, hlinked⟩
    have hnone' : t.pdpt p.pml4 p.pdpt = none := by
      rw [hpart.pdpt]
      exact hnone
    have hpml4' : (linkPdpt p.pml4 p.pdpt M t).pml4 p.pml4 ≠ none := by
      change t.pml4 p.pml4 ≠ none
      rw [hpart.pml4]
      exact hpml4
    have hthere : (linkPdpt p.pml4 p.pdpt M t).pdpt p.pml4 p.pdpt ≠ none := by simp [linkPdpt]
    exact ends_modify.mpr ⟨hlinked _ (prepares_linkPdpt hnone' M) rfl
      (missingTables_of_pdpt hpml4' hthere), hpml4', hthere⟩
  · rename_i hthere
    exact ends_pure.mpr ⟨h, hpml4, hthere⟩

theorem Halfway.ensurePde {s₁ : Pager} (h : Halfway s₁ s p) (hpml4 : s.pml4 p.pml4 ≠ none)
    (hpdpt : s.pdpt p.pml4 p.pdpt ≠ none) (flags : UInt8) :
    Ends (ensurePde KPALLOC flags p.pml4 p.pdpt p.pde) s
      (fun _ t => Halfway s₁ t p ∧ t.Leads p) fun _ _ => True := by
  rw [Paging.ensurePde, ends_bind, ends_get]
  split
  · rename_i hnone
    have hmissing : s.missingTables p = 0 + 1 := by
      rw [Pager.missingTables, if_neg hpml4, if_neg hpdpt, if_pos hnone]
    refine (h.newTable hmissing flags).bind ?_
    rintro M t ⟨hpart, hlinked⟩
    have hnone' : t.pde p.pml4 p.pdpt p.pde = none := by
      rw [hpart.pde]
      exact hnone
    have hleads : (linkPde p.pml4 p.pdpt p.pde M t).Leads p := by
      refine ⟨?_, ?_, by simp [linkPde]⟩
      · change t.pml4 p.pml4 ≠ none
        rw [hpart.pml4]
        exact hpml4
      · change t.pdpt p.pml4 p.pdpt ≠ none
        rw [hpart.pdpt]
        exact hpdpt
    exact ends_modify.mpr ⟨hlinked _ (prepares_linkPde hnone' M) rfl
      (Nat.le_of_eq hleads.missingTables), hleads⟩
  · rename_i hthere
    exact ends_pure.mpr ⟨h, hpml4, hpdpt, hthere⟩

/-- What `ALSP` does behind `PL_FN`: the frame is marked, the tables are made, and the frame is put into
the page. -/
theorem ALSP_rule {v : UInt64} {A : Nat → Pager → Prop} (flags magic1 magic2 : UInt8)
    (hfn : Ends (plFn KPALLOC) s (fun f t => A f t ∧ t.Covers f ∧ PoolMapped t ∧
      Keeping t (pageOf v) (t.missingTables (pageOf v))) fun _ _ => True) :
    Ends (ALSP v flags magic1 magic2) s
      (fun _ s' => ∃ f t u, A f t ∧ t.Covers f ∧ Takes (t.withFrame f true) u ∧ PoolMapped u ∧
        u.Leads (pageOf v) ∧ u.mapped (pageOf v) = none ∧
        s' = setPt (pageOf v) (some ⟨f, magic2 ||| flags⟩) u) fun _ _ => True := by
  rw [ALSP]
  refine hfn.bind ?_
  rintro f t ⟨hA, hcovers, hpool, hkeeping⟩
  refine ((plSv_spec hcovers).mono (fun _ _ h => h) fun _ _ _ => trivial).bind ?_
  rintro _ _ rfl
  have hstart : Halfway (t.withFrame f true) (t.withFrame f true) (pageOf v) :=
    ⟨.refl _, hpool, hkeeping⟩
  refine (hstart.ensurePml4 magic1).bind ?_
  rintro _ t₁ ⟨h₁, hpml4⟩
  refine (h₁.ensurePdpt hpml4 magic1).bind ?_
  rintro _ t₂ ⟨h₂, hpml4', hpdpt⟩
  refine (h₂.ensurePde hpml4' hpdpt magic1).bind ?_
  rintro _ u ⟨h₃, hleads⟩
  rw [ends_bind, ends_get]
  split
  · exact ends_throw.mpr trivial
  · rename_i hfree
    refine ends_modify.mpr ⟨f, t, u, hA, hcovers, h₃.takes, h₃.pool, hleads, ?_, rfl⟩
    rw [hleads.mapped]
    by_contra hne
    exact hfree hne

/-- The tables that are missing can be made after `PL_FN` as before it. -/
theorem Undisturbed.keeping (h : Undisturbed s p) (ht : Prepares s t)
    (hslots : lowSlots s.pool ≤ lowSlots t.pool + 1) : Keeping t p (t.missingTables p) := by
  have hmissing : t.missingTables p ≤ s.missingTables p := ht.missingTables p
  rcases h with hzero | hnone | hcall | hmore
  · exact .inl hzero
  · exact .inr (.inr (by omega))
  · exact .inr (.inl (ht.calling.trans hcall))
  · exact .inr (.inr (by omega))

/-- Without a refill in an extension. -/
theorem alsp_takes {v : UInt64} (flags magic1 magic2 : UInt8) (h : PoolMapped s)
    (hover : ¬ Overrun s) (hu : Undisturbed s (pageOf v)) :
    Ends (ALSP v flags magic1 magic2) s (fun _ s' => Takes s s' ∧ PoolMapped s') fun _ _ => True := by
  have hk : s.AllMarked → Ends KPALLOC s
      (fun _ t => Drained s t ∧ lowSlots s.pool ≤ lowSlots t.pool + 1) fun _ _ => True := by
    intro hall
    unfold KPALLOC kpallocDepth
    refine (kpallocWith_drained fun a hfind => ?_).mono ?_ fun _ _ h => h
    · by_contra hneither
      obtain ⟨hge, hcall⟩ := not_or.mp hneither
      exact hover ⟨hall, Bool.eq_false_of_not_eq_true hcall, a, Nat.le_of_not_lt hge, hfind⟩
    · rintro _ _ ⟨a, -, rfl⟩
      exact ⟨.of_pop s a, lowSlots_update s.pool a⟩
  have hfn : Ends (plFn KPALLOC) s
      (fun f t => (Prepares s t ∧ s.marked f = false ∧ f % 64 ≤ 31) ∧ t.Covers f ∧ PoolMapped t ∧
        Keeping t (pageOf v) (t.missingTables (pageOf v))) fun _ _ => True := by
    refine (plFn_free (Q := fun pool => lowSlots s.pool ≤ lowSlots pool + 1) hk
      (Nat.le_succ _)).mono ?_ fun _ _ h => h
    rintro f t ⟨⟨ht, hslots⟩, hcovers, hfree, hlow⟩
    exact ⟨⟨ht, hfree, hlow⟩, hcovers, h.takes ht.takes.toTakesFree ht.pool, hu.keeping ht hslots⟩
  refine (ALSP_rule flags magic1 magic2 hfn).mono ?_ fun _ _ h => h
  rintro _ _ ⟨f, t, u, ⟨ht, hfree, hlow⟩, hcovers, htakes, hpool, hleads, hnone, rfl⟩
  refine ⟨(ht.reserves hcovers hfree hlow).put htakes hleads hnone (pageOf_inTables v) rfl,
    fun i hi hne => ?_⟩
  have hpage := hpool i hi hne
  have hother : pageOf (u.pool i) ≠ pageOf v := by
    intro heq
    rw [heq] at hpage
    exact hpage hnone
  change (setPt _ _ u).mapped (pageOf (u.pool i)) ≠ none
  rwa [mapped_setPt_of_ne hother]

/-! ## A refill while the bitmap is extended -/

/-- A page has a frame that is not marked, or another page has the same. -/
def Aliased (s : Pager) : Prop :=
  ∃ p e, p.InTables ∧ s.mapped p = some e ∧ e.frame % 64 ≤ 31 ∧
    (s.marked e.frame = false ∨
      ∃ q e', q.InTables ∧ q ≠ p ∧ s.mapped q = some e' ∧ e'.frame = e.frame)

theorem Aliased.not_wellFormed (h : Aliased s) : ¬ WellFormed s := by
  intro hwell
  obtain ⟨p, e, hp, he, -, hfree | ⟨q, e', hq, hne, he', heq⟩⟩ := h
  · rw [hwell.marked p hp e he] at hfree
    cases hfree
  · exact hne (hwell.sole q p hq hp e' e he' he heq)

/-- A frame that is not marked stays so, or is given out again. -/
theorem Aliased.takes (h : Aliased s) (ht : Takes s t) : Aliased t := by
  obtain ⟨p, e, hp, he, hlow, hbad⟩ := h
  refine ⟨p, e, hp, ht.stays p e he, hlow, ?_⟩
  rcases hbad with hfree | ⟨q, e', hq, hne, he', heq⟩
  · cases hmarked : t.marked e.frame with
    | false => exact .inl rfl
    | true =>
        rcases ht.only _ hlow hmarked with hold | ⟨q, e', hq, hnone, he', heq⟩
        · rw [hold] at hfree
          cases hfree
        · refine .inr ⟨q, e', hq, ?_, he', heq⟩
          rintro rfl
          rw [he] at hnone
          cases hnone
  · exact .inr ⟨q, e', hq, hne, ht.stays q e' he', heq⟩

theorem plFnLoop_nil {Q : Nat → Pager → Prop} (h : s.chain = []) (fuel : Nat) :
    Ends (plFnLoop KPALLOC (fuel + 1) 0 0) s Q fun _ _ => True := by
  refine Ends.bind (Q := fun t s' => t = s ∧ s' = s) (ends_get.mpr ⟨rfl, rfl⟩) ?_
  rintro _ t ⟨rfl, rfl⟩
  rw [h]
  exact ends_throw.mpr trivial

/-- Behind the refill the extension finds the first frame of its own page, and the page that the
refill has mapped has a frame that is not marked. -/
theorem Overrun.plFn (h : Overrun s) (hpool : PoolMapped s) (hu : Undisturbed s p) :
    Ends (plFn KPALLOC) s
      (fun f t => (f % 64 ≤ 31 ∧ ∃ q e, q.InTables ∧ t.mapped q = some e ∧ e.frame % 64 ≤ 31 ∧
        t.marked e.frame = false) ∧ t.Covers f ∧ PoolMapped t ∧ Keeping t p (t.missingTables p))
      fun _ _ => True := by
  obtain ⟨hall, hcall, a, ha, hfind⟩ := h
  have hempty : lowSlots s.pool = 0 := by
    by_contra hne
    obtain ⟨a', ha', hfind'⟩ := exists_slot (k := 32) (by decide) (Nat.pos_of_ne_zero hne)
    obtain rfl := Option.some.inj (hfind.symm.trans hfind')
    omega
  have hkeep : p.pml4 = 0 ∨ s.Leads p := by
    rcases hu with hzero | hnone | hset | hmore
    · exact .inl hzero
    · exact .inr (leads_of_missing hnone)
    · rw [hcall] at hset
      cases hset
    · omega
  have hk : Ends KPALLOC s (fun _ t => (s.chain.length ≤ t.chain.length ∧
      ∀ m < 64 * (511 * s.chain.length), t.marked m = true) ∧ Takes s t ∧ PoolMapped t ∧ Gains s t ∧
        (p.pml4 = 0 ∨ t.Leads p)) fun _ _ => True := by
    have htables : Ends KPALLOC s (fun _ t => p.pml4 = 0 ∨ t.Leads p) fun _ _ => True := by
      rcases hkeep with hzero | hleads
      · exact (ends_any KPALLOC s).mono (fun _ _ _ => .inl hzero) fun _ _ h => h
      · exact (KPALLOC_leads hleads).mono (fun _ _ h => .inr h) fun _ _ h => h
    refine ((KPALLOC_takes hpool).and htables).mono ?_ fun _ _ h => h.1
    rintro _ t ⟨⟨ht, hmapped, hgains⟩, hleads⟩
    have hmarks : ∀ m < 64 * (511 * s.chain.length), t.marked m = true :=
      fun m hm => ht.marks m (hall m hm)
    refine ⟨⟨?_, hmarks⟩, ht, hmapped, hgains a hfind ha hcall, hleads⟩
    rcases Nat.eq_zero_or_pos s.chain.length with hzero | hpos
    · omega
    · have hlast := covers_of_marked (hmarks (64 * (511 * s.chain.length) - 1) (by omega))
      unfold Pager.Covers at hlast
      omega
  by_cases hpos : 0 < s.chain.length
  · rw [Paging.plFn, ends_bind, ends_get]
    refine (plFnLoop_extends hk hall _ 0 hpos (by omega)).mono ?_ fun _ _ h => h
    rintro _ _ ⟨rfl, t, hlen, ⟨ht, hmapped, ⟨q, hq, hnone, hthere⟩, hleads⟩, rfl⟩
    obtain ⟨e, he⟩ := Option.ne_none_iff_exists'.mp hthere
    have hfree := (ht.fresh q e hnone he).1
    have hhigh : 64 * (511 * s.chain.length) ≤ e.frame := by
      by_contra hlt
      rw [hall _ (Nat.lt_of_not_le hlt)] at hfree
      cases hfree
    refine ⟨⟨by omega, q, e, hq, he, ht.low q e hnone he, ?_⟩, ?_, hmapped, ?_⟩
    · rw [marked_relinked hlen, if_neg (by omega)]
    · unfold Pager.Covers
      rw [length_relinked hlen]
      omega
    · rcases hleads with hzero | hleads
      · exact .inl hzero
      · have hrelinked : (t.relinked s.chain.length).Leads p := ⟨hleads.pml4, hleads.pdpt, hleads.pde⟩
        rw [hrelinked.missingTables]
        exact .inr (.inr (Nat.zero_le _))
  · have hnil : s.chain = [] := List.eq_nil_of_length_eq_zero (by omega)
    refine Ends.bind (Q := fun t s' => t = s ∧ s' = s) (ends_get.mpr ⟨rfl, rfl⟩) ?_
    rintro _ s ⟨rfl, rfl⟩
    exact plFnLoop_nil hnil _

theorem Overrun.alsp {v : UInt64} (h : Overrun s) (flags magic1 magic2 : UInt8)
    (hpool : PoolMapped s) (hu : Undisturbed s (pageOf v)) :
    Ends (ALSP v flags magic1 magic2) s (fun _ s' => ¬ WellFormed s') fun _ _ => True := by
  refine (ALSP_rule flags magic1 magic2 (h.plFn hpool hu)).mono ?_ fun _ _ h => h
  rintro _ _ ⟨f, t, u, ⟨hlow, q, e, hq, he, helow, hfree⟩, hcovers, htakes, -, hleads, hnone, rfl⟩
  have hput := mapped_put (e := ⟨f, magic2 ||| flags⟩) hleads
  have hother : ∀ r e', u.mapped r = some e' → r ≠ pageOf v ∧
      (setPt (pageOf v) (some ⟨f, magic2 ||| flags⟩) u).mapped r = some e' := by
    intro r e' hr
    have hne : r ≠ pageOf v := by
      rintro rfl
      rw [hnone] at hr
      cases hr
    rw [mapped_setPt_of_ne hne]
    exact ⟨hne, hr⟩
  have hkept : (t.withFrame f true).mapped q = some e := he
  refine Aliased.not_wellFormed ?_
  by_cases hef : e.frame = f
  · -- the frame of the page of the refill is given out again
    obtain ⟨hne, hq'⟩ := hother q e (htakes.stays q e hkept)
    exact ⟨q, e, hq, hq', helow, .inr ⟨_, _, pageOf_inTables v, hne.symm, hput, hef.symm⟩⟩
  · have hstart : Aliased (t.withFrame f true) := by
      refine ⟨q, e, hq, hkept, helow, .inl ?_⟩
      by_contra hmarked
      rw [Bool.not_eq_false, marked_low hcovers hlow helow] at hmarked
      rcases hmarked with heq | hmarked
      · exact hef heq
      · rw [hmarked] at hfree
        cases hfree
    obtain ⟨r, e', hr, he', hrlow, hbad⟩ := hstart.takes htakes
    refine ⟨r, e', hr, (hother r e' he').2, hrlow, ?_⟩
    rcases hbad with hunmarked | ⟨w, e'', hw, hne, hew, heq⟩
    · exact .inl hunmarked
    · exact .inr ⟨w, e'', hw, hne, (hother w e'' hew).2, heq⟩

/-! ## The calls -/

theorem WellFormed.of_takes (h : WellFormed s) (ht : TakesFree s t) (hpool : PoolMapped t) :
    WellFormed t := by
  constructor
  case marked =>
    intro p hp e he
    rcases ht.old_or_new he with hold | hnone
    · exact ht.marks _ (h.marked p hp e hold)
    · exact (ht.fresh p e hnone he).2
  case sole =>
    intro p q hp hq e e' he he' heq
    rcases ht.old_or_new he with hold | hnone
    · rcases ht.old_or_new he' with hold' | hnone'
      · exact h.sole p q hp hq e e' hold hold' heq
      · have hmarked := h.marked p hp e hold
        rw [heq, (ht.fresh q e' hnone' he').1] at hmarked
        cases hmarked
    · rcases ht.old_or_new he' with hold' | hnone'
      · have hmarked := h.marked q hq e' hold'
        rw [← heq, (ht.fresh p e hnone he).1] at hmarked
        cases hmarked
      · exact ht.sole p q e e' hnone hnone' he he' heq
  case pool => exact hpool

/-- A call that ends well ends in a well-formed state, unless it refills the pool in an extension. -/
theorem AllocCall.run_wellFormed (call : AllocCall) (h : WellFormed s) (hr : call.Regular s)
    (ho : ¬ call.Overruns s) :
    Ends call.run s (fun _ s' => WellFormed s') fun _ _ => True := by
  cases call with
  | alsp v flags magic1 magic2 =>
      refine (alsp_takes flags magic1 magic2 h.pool ho hr).mono ?_ fun _ _ h => h
      rintro _ s' ⟨ht, hpool⟩
      exact h.of_takes ht.toTakesFree hpool
  | kpAlloc3 =>
      refine (kpAlloc3_allots (kpallocDepth_drained 2) s).bind fun v t ht => ends_pure.mpr ?_
      exact h.of_takes ht.takes.toTakesFree (PoolMapped.takes h.pool ht.takes.toTakesFree ht.pool)
  | kpalloc =>
      refine (KPALLOC_takes h.pool).bind ?_
      rintro _ t ⟨ht, hpool, -⟩
      exact ends_pure.mpr (h.of_takes ht.toTakesFree hpool)

theorem AllocCall.Overruns.not_wellFormed {call : AllocCall} (h : call.Overruns s)
    (hpool : PoolMapped s) (hr : call.Regular s) :
    Ends call.run s (fun _ s' => ¬ WellFormed s') fun _ _ => True := by
  cases call with
  | alsp v flags magic1 magic2 => exact Overrun.alsp h flags magic1 magic2 hpool hr
  | kpAlloc3 => exact h.elim
  | kpalloc => exact h.elim

/-- With the tables there and a free frame nothing else is needed. -/
theorem alsp_at_hand {v : UInt64} (flags magic1 magic2 : UInt8)
    (htables : s.missingTables (pageOf v) = 0) (hframe : FrameAtHand s)
    (hnone : s.mapped (pageOf v) = none) :
    Ends (ALSP v flags magic1 magic2) s (fun _ _ => True) fun _ _ => False := by
  obtain ⟨f, hfirst, hvisible, hcovers⟩ := hframe
  have hleads := leads_of_missing htables
  rw [ALSP]
  have hpt : s.pt (pageOf v) = none := hleads.mapped.symm.trans hnone
  refine (plFn_spec hfirst hvisible hcovers).bind ?_
  rintro f' s ⟨rfl, rfl⟩
  refine (plSv_spec hcovers).bind ?_
  rintro _ _ rfl
  have hleads' : (s.withFrame f' true).Leads (pageOf v) := ⟨hleads.pml4, hleads.pdpt, hleads.pde⟩
  have hpt' : ¬ (s.withFrame f' true).pt (pageOf v) ≠ none := not_not.mpr hpt
  rw [ends_bind, ensurePml4, ends_bind, ends_get, if_neg hleads'.pml4, ends_pure,
    ends_bind, ensurePdpt, ends_bind, ends_get, if_neg hleads'.pdpt, ends_pure, ends_bind, ensurePde,
    ends_bind, ends_get, if_neg hleads'.pde, ends_pure, ends_bind, ends_get, if_neg hpt', ends_modify]
  trivial

/-- The first 544 pages of the kernel half are mapped, three of them are in the pool from slot 32 on,
and the bitmap has one page, with all frames marked. -/
def brimful : Pager where
  pml4 i := if i = 1 then some ⟨0x31, 0x3⟩ else if i = 0 then some ⟨515, 0x7⟩ else none
  pdpt i j := if i = 1 ∧ j = 0 then some ⟨0x32, 0x3⟩
    else if i = 0 ∧ j = 0 then some ⟨516, 0x7⟩ else none
  pde i j k := if i = 1 ∧ j = 0 ∧ k < 2 then some ⟨0x33 + k, 0x3⟩
    else if i = 0 ∧ j = 0 ∧ k = 0 then some ⟨517, 0x7⟩ else none
  pt p := if p.pml4 = 1 ∧ p.pdpt = 0 ∧ 512 * p.pde + p.pt < 544 then
    some ⟨512 * p.pde + p.pt, 0x3⟩ else none
  pool i := if 32 ≤ i ∧ i < 35 then kernelAddress (480 + i) else 0
  chain := [fun _ => 0xFFFFFFFFFFFFFFFF]
  paCalling := false

theorem brimful_marked (m : Nat) : brimful.marked m = true ↔ m < 32704 := by
  have hones : ∀ b < 64, (0xFFFFFFFFFFFFFFFF : BitVec 64).getLsbD b = true := by decide
  by_cases hm : m / 64 / 511 = 0
  · have hpage : brimful.chain[m / 64 / 511]? = some fun _ => 0xFFFFFFFFFFFFFFFF := by
      rw [hm]
      rfl
    rw [Pager.marked, hpage]
    exact iff_of_true (hones _ (Nat.mod_lt m (by decide))) (by omega)
  · have hnone : ¬ brimful.Covers m := by
      unfold Pager.Covers
      change ¬ m / 64 / 511 < 1
      omega
    rw [marked_of_not_covers hnone]
    exact iff_of_false Bool.false_ne_true (by omega)

theorem brimful_mapped (p : Page) (e : Entry) : brimful.mapped p = some e ↔
    (p.pml4 = 1 ∧ p.pdpt = 0 ∧ 512 * p.pde + p.pt < 544) ∧ e = ⟨512 * p.pde + p.pt, 0x3⟩ := by
  by_cases hp : p.pml4 = 1 ∧ p.pdpt = 0 ∧ 512 * p.pde + p.pt < 544
  · obtain ⟨hpml4, hpdpt, hlt⟩ := hp
    have hpde : brimful.pde 1 0 p.pde = some ⟨0x33 + p.pde, 0x3⟩ :=
      if_pos ⟨rfl, rfl, by omega⟩
    have hpt : brimful.pt p = some ⟨512 * p.pde + p.pt, 0x3⟩ := if_pos ⟨hpml4, hpdpt, hlt⟩
    have hmapped : brimful.mapped p = some ⟨512 * p.pde + p.pt, 0x3⟩ := by
      rw [Pager.mapped, hpml4, hpdpt, hpde, hpt]
      rfl
    rw [hmapped]
    exact ⟨fun he => ⟨⟨hpml4, hpdpt, hlt⟩, (Option.some.inj he).symm⟩, fun he => by rw [he.2]⟩
  · have hnone : brimful.pt p = none := if_neg hp
    rw [Pager.mapped, hnone, ite_self]
    exact iff_of_false (fun h => by cases h) fun h => hp h.1

theorem brimful_kernelPage (n : Nat) (e : Entry) : brimful.mapped (kernelPage n) = some e ↔
    n < 544 ∧ e = ⟨n, 0x3⟩ := by
  have hn : 512 * (kernelPage n).pde + (kernelPage n).pt = n := Nat.div_add_mod n 512
  rw [brimful_mapped, hn]
  exact ⟨fun h => ⟨h.1.2.2, h.2⟩, fun h => ⟨⟨rfl, rfl, h.1⟩, h.2⟩⟩

theorem brimful_there (hn : n < 544) : brimful.mapped (kernelPage n) ≠ none := by
  rw [(brimful_kernelPage n _).mpr ⟨hn, rfl⟩]
  exact Option.some_ne_none _

theorem brimful_slot {i : Nat} (h : brimful.pool i ≠ 0) :
    (32 ≤ i ∧ i < 35) ∧ brimful.pool i = kernelAddress (480 + i) := by
  have hi : 32 ≤ i ∧ i < 35 := by
    by_contra hi
    exact h (if_neg hi)
  exact ⟨hi, if_pos hi⟩

theorem brimful_slot_eq {i : Nat} (hn : n < gib) (h : brimful.pool i = kernelAddress n) :
    (32 ≤ i ∧ i < 35) ∧ n = 480 + i := by
  obtain ⟨hi, heq⟩ := brimful_slot (h ▸ kernelAddress_ne_zero hn)
  exact ⟨hi, kernelAddress_inj hn (by unfold gib; omega) (h.symm.trans heq)⟩

theorem brimful_stock : Stock brimful := by
  intro i _ hne
  obtain ⟨hi, heq⟩ := brimful_slot hne
  exact ⟨480 + i, by unfold gib; omega, heq, brimful_there (by omega)⟩

theorem brimful_wellFormed : WellFormed brimful := by
  constructor
  case marked =>
    intro p _ e he
    obtain ⟨⟨-, -, hlt⟩, rfl⟩ := (brimful_mapped p e).mp he
    exact (brimful_marked _).mpr (hlt.trans (by decide))
  case sole =>
    intro p q hp hq e e' he he' heq
    obtain ⟨⟨hpml4, hpdpt, -⟩, rfl⟩ := (brimful_mapped p e).mp he
    obtain ⟨⟨hpml4', hpdpt', -⟩, rfl⟩ := (brimful_mapped q e').mp he'
    have hsum : 512 * p.pde + p.pt = 512 * q.pde + q.pt := heq
    have hpt := hp.pt
    have hpt' := hq.pt
    obtain ⟨pml4, pdpt, pde, pt⟩ := p
    rw [Page.mk.injEq]
    dsimp only at *
    omega
  case pool =>
    intro i hi hne
    obtain ⟨n, hn, hpool, hmapped⟩ := brimful_stock i hi hne
    rw [hpool, pageOf_kernelAddress hn]
    exact hmapped

theorem brimful_tables : KernelTables brimful 2 where
  pml4 := Option.some_ne_none _
  pdpt := Option.some_ne_none _
  beyond := rfl
  pos := by decide
  le := by decide
  pde k _ := by
    change (if 1 = 1 ∧ 0 = 0 ∧ k < 2 then some (⟨0x33 + k, 0x3⟩ : Entry) else
      if 1 = 0 ∧ 0 = 0 ∧ k = 0 then some ⟨517, 0x7⟩ else none) ≠ none ↔ k < 2
    simp

theorem brimful_sound : Sound brimful := by
  refine ⟨(· < 32704), ?_⟩
  constructor
  case tables => exact ⟨2, brimful_tables⟩
  case frames =>
    refine ⟨List.cons_ne_nil _ _, fun m _ => brimful_marked m, fun m hm => ?_⟩
    rw [Bool.eq_iff_iff, brimful_marked, brimful_marked]
    omega
  case boot => exact fun n hn => brimful_there (by omega)
  case held =>
    intro n _ e he
    obtain ⟨hlt, rfl⟩ := (brimful_kernelPage n e).mp he
    exact hlt.trans (by decide)
  case sole =>
    intro m _ n _ e e' he he' heq
    obtain ⟨-, rfl⟩ := (brimful_kernelPage m e).mp he
    obtain ⟨-, rfl⟩ := (brimful_kernelPage n e').mp he'
    exact heq
  case low =>
    intro n _ h512 e he
    obtain ⟨hlt, rfl⟩ := (brimful_kernelPage n e).mp he
    change n % 64 ≤ 31
    omega
  case stock => exact brimful_stock
  case distinct =>
    intro i _ j _ hne heq
    obtain ⟨hi, hpool⟩ := brimful_slot hne
    have hj := brimful_slot_eq (show 480 + i < gib by unfold gib; omega) (heq.symm.trans hpool)
    omega
  case added =>
    intro i _ n hn hpool
    have hi := brimful_slot_eq hn hpool
    omega
  case handed => exact fun n hn => hn.elim
  case tableFrames =>
    have hlow : ∀ n, 0x31 ≤ n → n < 0x35 → ∃ m < gib, ∃ e, brimful.mapped (kernelPage m) = some e ∧
        e.frame = n ∧ ¬ False ∧ NotPooled brimful m := by
      intro n _ hn
      have hgib : n < gib := by
        unfold gib
        omega
      refine ⟨n, hgib, _, (brimful_kernelPage n _).mpr ⟨by omega, rfl⟩, rfl, not_false,
        fun i _ heq => ?_⟩
      have hi := brimful_slot_eq hgib heq
      omega
    rintro g (⟨e, he, rfl⟩ | ⟨e, he, rfl⟩ | ⟨k, hk, e, he, rfl⟩)
    · obtain rfl := Option.some.inj he
      exact hlow 0x31 (by decide) (by decide)
    · obtain rfl := Option.some.inj he
      exact hlow 0x32 (by decide) (by decide)
    · have hlt := (brimful_tables.pde k hk).mp (by rw [he]; exact Option.some_ne_none e)
      have hentry : brimful.pde 1 0 k = some ⟨0x33 + k, 0x3⟩ := if_pos ⟨rfl, rfl, hlt⟩
      obtain rfl := Option.some.inj (he.symm.trans hentry)
      exact hlow (0x33 + k) (by omega) (by omega)

theorem brimful_roomyPages : RoomyPages brimful 64 := by
  refine ⟨(Finset.range 64).image fun w => 544 + w, ?_, fun g hg => ?_⟩
  · rw [Finset.card_image_of_injective _ (fun v w h => by
      have h' : 544 + v = 544 + w := h
      omega), Finset.card_range]
  · obtain ⟨w, hw, rfl⟩ := Finset.mem_image.mp hg
    have hw' := Finset.mem_range.mp hw
    refine ⟨by unfold gib; omega, (brimful_tables.pde _ (by omega)).mpr (by omega), if_neg ?_⟩
    rintro ⟨-, -, hlt⟩
    have hn : 512 * ((544 + w) / 512) + (544 + w) % 512 = 544 + w := Nat.div_add_mod _ 512
    change 512 * ((544 + w) / 512) + (544 + w) % 512 < 544 at hlt
    omega

theorem brimful_provided : Provided brimful 64 64 1 := by
  have hfull : ∀ j, 32 ≤ j → j < 35 → brimful.pool j ≠ 0 := by
    intro j hj hlt
    have heq : brimful.pool j = kernelAddress (480 + j) := if_pos ⟨hj, hlt⟩
    rw [heq]
    exact kernelAddress_ne_zero (by unfold gib; omega)
  have hslots := slotsBelow_of_filled (k := 512) (by decide) hfull
  exact ⟨1, by decide, 0, by decide, by omega, fun h0 => absurd h0 Nat.one_ne_zero,
    .inl brimful_roomyPages⟩

/-- The same with a second page of the bitmap, which is empty. -/
def extended : Pager := { brimful with chain := brimful.chain ++ List.replicate 1 fun _ => 0 }

theorem extended_marked (m : Nat) : extended.marked m = brimful.marked m := marked_append rfl m

theorem extended_wellFormed : WellFormed extended where
  marked p hp e he := (extended_marked e.frame).trans (brimful_wellFormed.marked p hp e he)
  sole := brimful_wellFormed.sole
  pool := brimful_wellFormed.pool

theorem extended_frameAtHand : FrameAtHand extended := by
  have hmarked : ∀ m, extended.marked m = true ↔ m < 32704 := by
    intro m
    rw [extended_marked]
    exact brimful_marked m
  refine ⟨32704, ⟨fun m hm => (hmarked m).mpr hm, ?_⟩, ⟨by decide, fun h => absurd h (by decide)⟩,
    show 32704 / 64 / 511 < 2 by decide⟩
  rw [← Bool.not_eq_true, hmarked]
  decide

end UnnamedOS.Paging
