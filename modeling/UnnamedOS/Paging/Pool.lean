import UnnamedOS.Paging.KernelAllocation

/-!
# The pool of kernel pages

`KPALLOC` empties the slots from the lowest on, and fills those below 64 when it comes to slot 32.
While it does, nested calls may empty up to three slots again.
-/

namespace UnnamedOS.Paging

open UnnamedOS.Lib

/-- After `P` pages have been taken in a refill that is at slot `i`: the slots it has passed are
filled but for the lowest `P`, and of the `B` pages that can be taken the others are left. -/
structure Slots (pool : Nat → UInt64) (i B P : Nat) : Prop where
  filled : ∀ j, P ≤ j → j < i → pool j ≠ 0
  reserve : B ≤ P + slotsBelow 512 pool

/-- No slot of the pool has the page. -/
def NotPooled (s : Pager) (n : Nat) : Prop := ∀ i < 512, s.pool i ≠ kernelAddress n

/-- Pages and frames between two steps of a refill. The pages of `out` have been handed out. -/
structure PoolCore (s : Pager) (T out : Nat → Prop) : Prop where
  tables : ∃ N, KernelTables s N
  frames : FrameInv s T
  boot : ∀ n < 512, s.mapped (kernelPage n) ≠ none
  held : ∀ n < gib, ∀ e, s.mapped (kernelPage n) = some e → T e.frame
  sole : ∀ m < gib, ∀ n < gib, ∀ e e', s.mapped (kernelPage m) = some e →
    s.mapped (kernelPage n) = some e' → e.frame = e'.frame → m = n
  low : ∀ n < gib, 512 ≤ n → ∀ e, s.mapped (kernelPage n) = some e → e.frame % 64 ≤ 31
  stock : Stock s
  distinct : ∀ i < 512, ∀ j < 512, s.pool i ≠ 0 → s.pool i = s.pool j → i = j
  added : ∀ i < 64, ∀ n < gib, s.pool i = kernelAddress n → 512 ≤ n
  handed : ∀ n, out n → n < gib ∧ s.mapped (kernelPage n) ≠ none ∧ NotPooled s n
  tableFrames : ∀ g, TableFrame s g → ∃ n < gib, ∃ e, s.mapped (kernelPage n) = some e ∧
    e.frame = g ∧ ¬ out n ∧ NotPooled s n

/-- What has been mapped stays, and what is new in the pool has not been mapped before. -/
structure Grows (s s' : Pager) : Prop where
  mapped : ∀ n < gib, ∀ e, s.mapped (kernelPage n) = some e → s'.mapped (kernelPage n) = some e
  pooled : ∀ i < 512, s'.pool i ≠ 0 → s'.pool i = s.pool i ∨
    ∃ n < gib, s'.pool i = kernelAddress n ∧ s.mapped (kernelPage n) = none
  calling : s.paCalling = false → s'.paCalling = false

variable {s s' s'' t : Pager} {T out : Nat → Prop} {i a n f c d q P B : Nat}
  {pool pool' : Nat → UInt64} {kpAlloc3 : PageM UInt64}

/-! ## Slots -/

/-- The lowest slot is one of the lowest `P + 1`, or has not been passed. -/
theorem Slots.pops (h : Slots pool i B P) (hpops : Pops q pool pool') :
    Slots pool' i B (P + q) := by
  induction hpops generalizing P with
  | none => exact h
  | @next q a pool pool' hfind _ ih =>
      obtain ⟨-, -, hbelow⟩ := pop_bound hfind
      have hone := slotsBelow_update 512 pool a 0
      have hreserve := h.reserve
      have hnext : Slots (Function.update pool a 0) i B (P + 1) := by
        refine ⟨fun j hj hlt => ?_, by omega⟩
        have hja : j ≠ a := by
          rintro rfl
          exact h.filled P (Nat.le_refl P) (by omega) (hbelow P (by omega))
        rw [Function.update_of_ne hja]
        exact h.filled j (by omega) hlt
      have hdone := ih hnext
      rwa [Nat.add_assoc, Nat.add_comm 1 q] at hdone

/-- The next slot is filled. -/
theorem Slots.fill {v : UInt64} (h : Slots pool i B P) (hv : v ≠ 0) :
    Slots (Function.update pool i v) (i + 1) B P := by
  refine ⟨fun j hj hlt => ?_, ?_⟩
  · by_cases hji : j = i
    · rw [hji, Function.update_self]
      exact hv
    · rw [Function.update_of_ne hji]
      exact h.filled j hj (by omega)
  · have hmore := slotsBelow_fill hv 512 pool i
    have hreserve := h.reserve
    omega

theorem Slots.skip (h : Slots pool i B P) (hne : pool i ≠ 0) : Slots pool (i + 1) B P := by
  refine ⟨fun j hj hlt => ?_, h.reserve⟩
  rcases Nat.lt_succ_iff_lt_or_eq.mp hlt with hji | rfl
  · exact h.filled j hj hji
  · exact hne

/-! ## Growing -/

theorem Grows.refl (s : Pager) : Grows s s :=
  ⟨fun _ _ _ h => h, fun _ _ _ => .inl rfl, fun h => h⟩

theorem Grows.trans (h : Grows s s') (h' : Grows s' s'') : Grows s s'' := by
  refine ⟨fun n hn e he => h'.mapped n hn e (h.mapped n hn e he), fun i hi hne => ?_,
    fun hc => h'.calling (h.calling hc)⟩
  rcases h'.pooled i hi hne with heq | ⟨n, hn, hpool, hnone⟩
  · rcases h.pooled i hi (heq ▸ hne) with heq' | ⟨n, hn, hpool, hnone⟩
    · exact .inl (heq.trans heq')
    · exact .inr ⟨n, hn, heq.trans hpool, hnone⟩
  · refine .inr ⟨n, hn, hpool, ?_⟩
    by_contra hmapped
    obtain ⟨e, he⟩ := Option.ne_none_iff_exists'.mp hmapped
    rw [h.mapped n hn e he] at hnone
    cases hnone

theorem Allocates.kept {m : Nat} (h : Allocates s s' T n f c d) (hm : m < gib) {e : Entry}
    (he : s.mapped (kernelPage m) = some e) : s'.mapped (kernelPage m) = some e := by
  have hne : m ≠ n := by
    rintro rfl
    rw [h.fresh] at he
    cases he
  rw [h.others m hm hne]
  exact he

/-- A page that `KP_ALLOC3` has mapped, put into a slot. -/
def Pager.stored (s : Pager) (i n : Nat) : Pager :=
  { s with pool := Function.update s.pool i (kernelAddress n) }

theorem Allocates.stored_pool (h : Allocates s s' T n f c d) (j : Nat) :
    (s'.stored i n).pool j = kernelAddress n ∧ j = i ∨
      j ≠ i ∧ ((s'.stored i n).pool j = s.pool j ∨ (s'.stored i n).pool j = 0) := by
  by_cases hj : j = i
  · subst hj
    exact .inl ⟨Function.update_self .., rfl⟩
  · have hsame : (s'.stored i n).pool j = s'.pool j := Function.update_of_ne hj ..
    rw [hsame]
    exact .inr ⟨hj, h.pops.fewer j⟩

theorem Allocates.grows (h : Allocates s s' T n f c d) (i : Nat) : Grows s (s'.stored i n) := by
  refine ⟨fun m hm e he => h.kept hm he, fun j hj hne => ?_, fun _ => h.calling⟩
  rcases h.stored_pool (i := i) j with ⟨hnew, -⟩ | ⟨-, hsame | hzero⟩
  · exact .inr ⟨n, h.page, hnew, h.fresh⟩
  · exact .inl hsame
  · exact absurd hzero hne

/-! ## One step of a refill -/

theorem kernelAddress_mem {m : Nat} (hs : Stock s) (hi : i < 512) (hm : m < gib)
    (h : s.pool i = kernelAddress m) : s.mapped (kernelPage m) ≠ none := by
  obtain ⟨n, hn, hpool, hmapped⟩ := hs i hi (h ▸ kernelAddress_ne_zero hm)
  obtain rfl := kernelAddress_inj hm hn (h.symm.trans hpool)
  exact hmapped

/-- The page of a slot is in no other. -/
theorem PoolCore.slot_unique {j m : Nat} (h : PoolCore s T out) (hi : i < 512) (hj : j < 512)
    (hm : m < gib) (hpi : s.pool i = kernelAddress m) (hpj : s.pool j = kernelAddress m) :
    i = j :=
  h.distinct i hi j hj (hpi ▸ kernelAddress_ne_zero hm) (hpi.trans hpj.symm)

theorem PoolCore.taken_notPooled {m : Nat} (h : PoolCore s T out) (ha : Allocates s s' T n f c d)
    (hm : TakenFrom s s' m) :
    NotPooled (s'.stored i n) m := by
  obtain ⟨hgib, a, hlt, hpool, hempty⟩ := hm
  have hmapped := kernelAddress_mem h.stock hlt hgib hpool
  intro j hj heq
  rcases ha.stored_pool (i := i) j with ⟨hnew, -⟩ | ⟨hne, hsame | hnone⟩
  · obtain rfl := kernelAddress_inj ha.page hgib (hnew.symm.trans heq)
    exact hmapped ha.fresh
  · obtain rfl := h.slot_unique hj hlt hgib (hsame.symm.trans heq) hpool
    have hkept : (s'.stored i n).pool j = s'.pool j := Function.update_of_ne hne ..
    rw [hkept, hempty] at heq
    exact kernelAddress_ne_zero hgib heq.symm
  · rw [hnone] at heq
    exact kernelAddress_ne_zero hgib heq.symm

/-- What is mapped and not in the pool does not come into it. -/
theorem Allocates.notPooled {m : Nat} (ha : Allocates s s' T n f c d) (hm : m < gib)
    (hmapped : s.mapped (kernelPage m) ≠ none) (hnot : NotPooled s m) :
    NotPooled (s'.stored i n) m := by
  intro j hj heq
  rcases ha.stored_pool (i := i) j with ⟨hnew, -⟩ | ⟨-, hsame | hnone⟩
  · obtain rfl := kernelAddress_inj ha.page hm (hnew.symm.trans heq)
    exact hmapped ha.fresh
  · exact hnot j hj (hsame.symm.trans heq)
  · rw [hnone] at heq
    exact kernelAddress_ne_zero hm heq.symm

/-- What is mapped after the step. -/
theorem Allocates.entry {m : Nat} (ha : Allocates s s' T n f c d) (hm : m < gib) {e : Entry}
    (he : (s'.stored i n).mapped (kernelPage m) = some e) :
    m = n ∧ e = ⟨f, 1⟩ ∨ m ≠ n ∧ s.mapped (kernelPage m) = some e := by
  change s'.mapped (kernelPage m) = some e at he
  by_cases hmn : m = n
  · subst hmn
    exact .inl ⟨rfl, Option.some.inj (he.symm.trans ha.mapped)⟩
  · rw [ha.others m hm hmn] at he
    exact .inr ⟨hmn, he⟩

theorem Allocates.stays_mapped {m : Nat} (ha : Allocates s s' T n f c d) (hm : m < gib)
    (hmapped : s.mapped (kernelPage m) ≠ none) : (s'.stored i n).mapped (kernelPage m) ≠ none := by
  obtain ⟨e, he⟩ := Option.ne_none_iff_exists'.mp hmapped
  change s'.mapped (kernelPage m) ≠ none
  rw [ha.kept hm he]
  exact Option.some_ne_none e

/-- The new page holds a frame that no page had. -/
theorem PoolCore.step_sole (h : PoolCore s T out) (ha : Allocates s s' T n f c d) (i : Nat) :
    ∀ m < gib, ∀ m' < gib, ∀ e e', (s'.stored i n).mapped (kernelPage m) = some e →
      (s'.stored i n).mapped (kernelPage m') = some e' → e.frame = e'.frame → m = m' := by
  have hfresh : ∀ m < gib, ∀ e, s.mapped (kernelPage m) = some e → e.frame ≠ f := by
    rintro m hm e he rfl
    exact ha.frame.1 (h.held m hm e he)
  intro m hm m' hm' e e' he he' heq
  rcases ha.entry hm he with ⟨rfl, rfl⟩ | ⟨-, hold⟩
  · rcases ha.entry hm' he' with ⟨rfl, -⟩ | ⟨-, hold'⟩
    · rfl
    · exact absurd heq.symm (hfresh m' hm' e' hold')
  · rcases ha.entry hm' he' with ⟨-, rfl⟩ | ⟨-, hold'⟩
    · exact absurd heq (hfresh m hm e hold)
    · exact h.sole m hm m' hm' e e' hold hold' heq

theorem PoolCore.step_stock (h : PoolCore s T out) (ha : Allocates s s' T n f c d) (i : Nat) :
    Stock (s'.stored i n) := by
  intro j hj hne
  rcases ha.stored_pool (i := i) j with ⟨hnew, -⟩ | ⟨-, hsame | hnone⟩
  · refine ⟨n, ha.page, hnew, ?_⟩
    change s'.mapped (kernelPage n) ≠ none
    rw [ha.mapped]
    exact Option.some_ne_none _
  · obtain ⟨m, hm, hpool, hmapped⟩ := h.stock j hj (hsame ▸ hne)
    exact ⟨m, hm, hsame.trans hpool, ha.stays_mapped hm hmapped⟩
  · exact absurd hnone hne

/-- The new page was in no slot. -/
theorem PoolCore.step_distinct (h : PoolCore s T out) (ha : Allocates s s' T n f c d) (i : Nat) :
    ∀ j < 512, ∀ k < 512, (s'.stored i n).pool j ≠ 0 →
      (s'.stored i n).pool j = (s'.stored i n).pool k → j = k := by
  have hnew : ∀ j < 512, s.pool j ≠ kernelAddress n := fun j hj hpool =>
    absurd ha.fresh (kernelAddress_mem h.stock hj ha.page hpool)
  intro j hj k hk hne heq
  rcases ha.stored_pool (i := i) j with ⟨hself, rfl⟩ | ⟨-, hsame | hnone⟩
  · rcases ha.stored_pool (i := j) k with ⟨-, rfl⟩ | ⟨-, hsame' | hnone'⟩
    · rfl
    · exact absurd (hsame'.symm.trans (heq.symm.trans hself)) (hnew k hk)
    · exact absurd (heq.trans hnone') hne
  · rcases ha.stored_pool (i := i) k with ⟨hself', -⟩ | ⟨-, hsame' | hnone'⟩
    · exact absurd (hsame.symm.trans (heq.trans hself')) (hnew j hj)
    · exact h.distinct j hj k hk (hsame ▸ hne) (hsame.symm.trans (heq.trans hsame'))
    · exact absurd (heq.trans hnone') hne
  · exact absurd hnone hne

theorem PoolCore.step_added (h : PoolCore s T out) (ha : Allocates s s' T n f c d) (i : Nat) :
    ∀ j < 64, ∀ m < gib, (s'.stored i n).pool j = kernelAddress m → 512 ≤ m := by
  intro j hj m hm hpool
  rcases ha.stored_pool (i := i) j with ⟨hnew, -⟩ | ⟨-, hsame | hnone⟩
  · obtain rfl := kernelAddress_inj ha.page hm (hnew.symm.trans hpool)
    by_contra hlt
    exact h.boot n (Nat.lt_of_not_le hlt) ha.fresh
  · exact h.added j hj m hm (hsame.symm.trans hpool)
  · exact absurd (hpool.symm.trans hnone) (kernelAddress_ne_zero hm)

/-- A new table is in a page that was taken from the pool. -/
theorem PoolCore.step_tableFrames (h : PoolCore s T out) (ha : Allocates s s' T n f c d) (i g : Nat)
    (hg : TableFrame (s'.stored i n) g) :
    ∃ m < gib, ∃ e, (s'.stored i n).mapped (kernelPage m) = some e ∧ e.frame = g ∧ ¬ out m ∧
      NotPooled (s'.stored i n) m := by
  rcases ha.table g hg with hold | ⟨m, e, htaken, he, heg⟩
  · obtain ⟨m, hm, e, he, heg, hout, hnot⟩ := h.tableFrames g hold
    have hmapped : s.mapped (kernelPage m) ≠ none := by
      rw [he]
      exact Option.some_ne_none e
    exact ⟨m, hm, e, ha.kept hm he, heg, hout, ha.notPooled hm hmapped hnot⟩
  · obtain ⟨hgib, a, hlt, hpool, -⟩ := id htaken
    refine ⟨m, hgib, e, ha.kept hgib he, heg, fun hout => ?_, h.taken_notPooled ha htaken⟩
    exact (h.handed m hout).2.2 a hlt hpool

theorem PoolCore.step (h : PoolCore s T out) (ha : Allocates s s' T n f c d) (i : Nat) :
    PoolCore (s'.stored i n) (fun m => m = f ∨ T m) out := by
  constructor
  case tables =>
    obtain ⟨N, hN⟩ := ha.tables
    exact ⟨N, hN.pml4, hN.pdpt, hN.beyond, hN.pos, hN.le, hN.pde⟩
  case frames => exact ha.frames.of_marked ha.frames.nonempty fun _ => rfl
  case boot => exact fun m hm => ha.stays_mapped (hm.trans (by decide)) (h.boot m hm)
  case held =>
    intro m hm e he
    rcases ha.entry hm he with ⟨-, rfl⟩ | ⟨-, hold⟩
    · exact .inl rfl
    · exact .inr (h.held m hm e hold)
  case sole => exact h.step_sole ha i
  case low =>
    intro m hm h512 e he
    rcases ha.entry hm he with ⟨-, rfl⟩ | ⟨-, hold⟩
    · exact ha.frame.2.1
    · exact h.low m hm h512 e hold
  case stock => exact h.step_stock ha i
  case distinct => exact h.step_distinct ha i
  case added => exact h.step_added ha i
  case handed =>
    intro m hm
    obtain ⟨hgib, hmapped, hnot⟩ := h.handed m hm
    exact ⟨hgib, ha.stays_mapped hgib hmapped, ha.notPooled hgib hmapped hnot⟩
  case tableFrames => exact h.step_tableFrames ha i

/-! ## A refill -/

theorem RoomyFrames.mono {k m : Nat} (h : RoomyFrames s m) (hle : k ≤ m) : RoomyFrames s k := by
  obtain ⟨F, hcard, hF⟩ := h
  exact ⟨F, hle.trans hcard, hF⟩

/-- No later write unmaps the page beyond the first GiB. -/
theorem left_keeps : KernelKeeps Left where
  chain _ _ h := ⟨h.pml4, h.pdpt, h.pde, h.pt⟩
  pool _ _ h := ⟨h.pml4, h.pdpt, h.pde, h.pt⟩
  calling _ _ h := ⟨h.pml4, h.pdpt, h.pde, h.pt⟩
  linkPml4 s t i e _ hs hnone h := by
    have hi : 1 ≠ i := by
      rintro rfl
      exact hs.pml4 hnone
    refine ⟨?_, ?_, h.pde, h.pt⟩
    · simpa [linkPml4, hi] using h.pml4
    · simpa [linkPml4, hi] using h.pdpt
  linkPdpt s t i j e _ hs hnone h := by
    by_cases hi : 1 = i
    · subst hi
      have hj : 1 ≠ j := by
        rintro rfl
        exact hs.pdpt hnone
      refine ⟨h.pml4, ?_, ?_, h.pt⟩
      · simpa [linkPdpt, hj] using h.pdpt
      · simpa [linkPdpt, hj] using h.pde
    · refine ⟨h.pml4, ?_, ?_, h.pt⟩
      · simpa [linkPdpt, hi] using h.pdpt
      · simpa [linkPdpt, hi] using h.pde
  linkPde s t i j k e _ hs hnone h := by
    have hne : ¬ (1 = i ∧ 1 = j ∧ 0 = k) := by
      rintro ⟨rfl, rfl, rfl⟩
      exact hs.pde hnone
    refine ⟨h.pml4, h.pdpt, ?_, ?_⟩
    · have hpde : (linkPde i j k e t).pde 1 1 0 = t.pde 1 1 0 := by
        by_cases hi : 1 = i
        · subst hi
          by_cases hj : 1 = j
          · subst hj
            have hk : 0 ≠ k := fun hk => hne ⟨rfl, rfl, hk⟩
            simp [linkPde, hk]
          · simp [linkPde, hj]
        · simp [linkPde, hi]
      rw [hpde]
      exact h.pde
    · change (if 1 = i ∧ 1 = j ∧ 0 = k then none else t.pt ⟨1, 1, 0, 0⟩) ≠ none
      rw [if_neg hne]
      exact h.pt
  setPt s p f _ _ h := by
    refine ⟨h.pml4, h.pdpt, h.pde, ?_⟩
    change Function.update s.pt p (some ⟨f, 0x1⟩) ⟨1, 1, 0, 0⟩ ≠ none
    by_cases hp : (⟨1, 1, 0, 0⟩ : Page) = p
    · rw [hp, Function.update_self]
      exact Option.some_ne_none _
    · rw [Function.update_of_ne hp]
      exact h.pt

/-- The slots up to 64 are filled but for the lowest that nested calls have emptied. -/
def Refilled (s s' : Pager) (out : Nat → Prop) (B : Nat) : Prop :=
  ∃ T P, PoolCore s' T out ∧ P ≤ B ∧ Slots s'.pool 64 B P ∧ Grows s s'

theorem PoolCore.kpAlloc3_spec (h : PoolCore s T out) (hsupply : c + d ≤ slotsBelow 512 s.pool)
    (hc : c = 0 → RoomyFrames s 1) (hd : d < 2 → RoomyPages s 1 ∨ d = 1 ∧ MoreTables s) :
    Ends (Paging.kpAlloc3 (kpallocDepth 1)) s
      (fun v s' => (∃ n f c' d', v = kernelAddress n ∧ Allocates s s' T n f c' d') ∨
        2 ≤ d ∧ Left s')
      fun _ _ => False := by
  obtain ⟨N, hN⟩ := h.tables
  exact Paging.kpAlloc3_spec hN h.stock h.frames hsupply hc hd

/-- The nested calls of a refill take at most `c` pages for the bitmap and `d` for tables. -/
theorem refill_spec (todo : Nat) (hi : i + todo = 64) (h : PoolCore s T out)
    (hslots : Slots s.pool i B P) (hB : P + c + d ≤ B)
    (hc : c = 0 → RoomyFrames s todo) (hd : d < 2 → RoomyPages s todo ∨ d = 1 ∧ MoreTables s) :
    Ends (refill (Paging.kpAlloc3 (kpallocDepth 1)) todo i) s
      (fun _ s' => Refilled s s' out B ∧ AddsTables s s' d ∧ TakesFree s s' ∧
        PagesLeft s s' todo ∨ 2 ≤ d ∧ Left s')
      fun _ s' => 2 ≤ d ∧ Left s' := by
  induction todo generalizing i s T P c d with
  | zero =>
      obtain rfl : i = 64 := hi
      exact ends_pure.mpr (.inl ⟨⟨T, P, h, by omega, hslots, Grows.refl s⟩,
        SameTables.adds ⟨rfl, rfl, rfl, rfl⟩ d, .of_same (fun _ => rfl) fun _ => rfl,
        SameTables.pagesLeft ⟨rfl, rfl, rfl, rfl⟩ 0⟩)
  | succ todo ih =>
      have hd₁ : ∀ k ≤ todo + 1, d < 2 → RoomyPages s k ∨ d = 1 ∧ MoreTables s :=
        fun k hk h2 => (hd h2).imp_left fun hroom => hroom.mono hk
      rw [refill, fillSlot, bind_assoc, ends_bind, ends_get]
      by_cases hne : s.pool i ≠ 0
      · rw [if_pos hne]
        refine (ih (by omega) h (hslots.skip hne) hB (fun h0 => (hc h0).mono (Nat.le_succ todo))
          (hd₁ todo (Nat.le_succ todo))).mono (fun _ s' hdone => ?_) fun _ _ hleft => hleft
        exact hdone.imp_left fun hall =>
          ⟨hall.1, hall.2.1, hall.2.2.1, hall.2.2.2.mono (Nat.le_succ todo)⟩
      · rw [if_neg hne, bind_assoc]
        have hreserve := hslots.reserve
        have hsupply : c + d ≤ slotsBelow 512 s.pool := by omega
        refine ((h.kpAlloc3_spec hsupply (fun h0 => (hc h0).mono (by omega))
          (hd₁ 1 (by omega))).mono (fun _ _ h => h) fun _ _ hf => hf.elim).bind ?_
        rintro v t (⟨n, f, c', d', rfl, ha⟩ | ⟨h2, hleft⟩)
        · have hc' : c' ≤ c ∧ (c - c' = 0 → RoomyFrames t todo) := by
            rcases ha.frameRoom with ⟨rfl, hroom⟩ | ⟨rfl, hnone, hroom⟩
            · exact ⟨Nat.zero_le c, fun h0 => hroom todo (hc h0)⟩
            · have hpos : c ≠ 0 := fun h0 => hnone ((hc h0).mono (by omega))
              exact ⟨by omega, fun _ => hroom.mono (by omega)⟩
          have hd' : d' ≤ d ∧ (d - d' < 2 → RoomyPages t todo ∨ d - d' = 1 ∧ MoreTables t) := by
            rcases ha.pageRoom with ⟨rfl, hroom, hmore⟩ | ⟨rfl, hnone, hroom⟩
            · exact ⟨Nat.zero_le d, fun h2 => (hd h2).imp (hroom todo) fun h1 => ⟨h1.1, hmore h1.2⟩⟩
            · have hpos : 1 ≤ d := by
                by_contra h0
                rcases hd₁ 1 (by omega) (by omega) with hpage | ⟨h1, -⟩
                · exact hnone hpage
                · omega
              exact ⟨hpos, fun _ => .inl (hroom.mono (by omega))⟩
          have hfill : Slots (t.stored i n).pool (i + 1) B (P + (c' + d')) :=
            (hslots.pops ha.pops).fill (kernelAddress_ne_zero ha.page)
          rw [ends_bind, ends_modify]
          refine (ih (s := t.stored i n) (c := c - c') (d := d - d') (by omega) (h.step ha i) hfill
            (by omega) hc'.2 hd'.2).mono ?_ fun _ _ hleft => ⟨by omega, hleft.2⟩
          rintro _ s' (⟨⟨T', P', hcore, hle, hdone, hgrows⟩, hadds, htakes, hpages⟩ | ⟨h2, hleft⟩)
          · have hstored : SameTables t (t.stored i n) := ⟨rfl, rfl, rfl, rfl⟩
            have hbefore : AddsTables s (t.stored i n) d' := ha.adds.trans (hstored.adds 0) (by omega)
            have hput : TakesFree t (t.stored i n) := .of_same (fun _ => rfl) fun _ => rfl
            exact .inl ⟨⟨T', P', hcore, hle, hdone, (ha.grows i).trans hgrows⟩,
              hbefore.trans hadds (by omega), (ha.takes.trans hput).trans htakes,
              ((ha.left.trans (hstored.pagesLeft 0)).trans hpages).mono (by omega)⟩
          · exact .inr ⟨by omega, hleft⟩
        · rw [ends_bind, ends_modify]
          have hrest := left_keeps.refill (left_keeps.kpAlloc3 (left_keeps.kpallocDepth 1))
            todo (i + 1) _ (left_keeps.pool t (Function.update t.pool i v) hleft)
          exact hrest.mono (fun _ _ h => .inr ⟨h2, h⟩) fun _ _ h => ⟨h2, h⟩

/-! ## A page handed out -/

/-- A page leaves the pool. -/
theorem PoolCore.pop (h : PoolCore s T out) (ha : a < 512) (hn : n < gib)
    (hpool : s.pool a = kernelAddress n) : PoolCore (s.pop a) T fun m => m = n ∨ out m := by
  have hother : ∀ j, (s.pop a).pool j = s.pool j ∧ j ≠ a ∨ (s.pop a).pool j = 0 := by
    intro j
    by_cases hj : j = a
    · subst hj
      exact .inr (Function.update_self ..)
    · exact .inl ⟨Function.update_of_ne hj .., hj⟩
  have hmapped : s.mapped (kernelPage n) ≠ none := kernelAddress_mem h.stock ha hn hpool
  have hnot : ∀ m < gib, NotPooled s m → NotPooled (s.pop a) m := by
    intro m hm hnot j hj heq
    rcases hother j with ⟨hsame, -⟩ | hzero
    · exact hnot j hj (hsame.symm.trans heq)
    · exact kernelAddress_ne_zero hm (heq.symm.trans hzero)
  constructor
  case tables =>
    obtain ⟨N, hN⟩ := h.tables
    exact ⟨N, (sameTables_pop s a).tables hN⟩
  case frames => exact h.frames.of_marked h.frames.nonempty fun _ => rfl
  case boot => exact h.boot
  case held => exact h.held
  case sole => exact h.sole
  case low => exact h.low
  case stock => exact h.stock.pop a
  case distinct =>
    intro j hj k hk hne heq
    rcases hother j with ⟨hsame, -⟩ | hzero
    · rcases hother k with ⟨hsame', -⟩ | hzero'
      · exact h.distinct j hj k hk (hsame ▸ hne) (hsame.symm.trans (heq.trans hsame'))
      · exact absurd (heq.trans hzero') hne
    · exact absurd hzero hne
  case added =>
    intro j hj m hm heq
    rcases hother j with ⟨hsame, -⟩ | hzero
    · exact h.added j hj m hm (hsame.symm.trans heq)
    · exact absurd (heq.symm.trans hzero) (kernelAddress_ne_zero hm)
  case handed =>
    rintro m (rfl | hm)
    · refine ⟨hn, hmapped, fun j hj heq => ?_⟩
      rcases hother j with ⟨hsame, hne⟩ | hzero
      · exact hne (h.slot_unique hj ha hn (hsame.symm.trans heq) hpool)
      · exact kernelAddress_ne_zero hn (heq.symm.trans hzero)
    · obtain ⟨hgib, hmapped, hout⟩ := h.handed m hm
      exact ⟨hgib, hmapped, hnot m hgib hout⟩
  case tableFrames =>
    intro g hg
    obtain ⟨m, hm, e, he, heg, hout, hpooled⟩ := h.tableFrames g hg
    refine ⟨m, hm, e, he, heg, ?_, hnot m hm hpooled⟩
    rintro (rfl | hout')
    · exact hpooled a ha hpool
    · exact hout hout'

/-- `KPALLOC` takes the page out of the lowest slot that has one. From slot 32 on a refill follows,
for which there has to be enough behind the slot. -/
theorem PoolCore.kpalloc (h : PoolCore s T out) (hcall : s.paCalling = false)
    (hfind : (List.range 512).find? (fun i => s.pool i ≠ 0) = some a) (hn : n < gib)
    (hpool : s.pool a = kernelAddress n)
    (hroom : 32 ≤ a → c + d ≤ slotsBelow 512 (s.pop a).pool ∧
      (c = 0 → RoomyFrames s 64) ∧ (d < 2 → RoomyPages s 64 ∨ d = 1 ∧ MoreTables s)) :
    Ends KPALLOC s
      (fun k s' => k = kernelAddress n ∧ (a < 32 ∧ s' = s.pop a ∨
        32 ≤ a ∧ Refilled (s.pop a) s' (fun m => m = n ∨ out m) (c + d) ∧ AddsTables s s' d ∧
          TakesFree s s' ∧ PagesLeft s s' 64) ∨ 2 ≤ d ∧ Left s')
      fun _ s' => 2 ≤ d ∧ Left s' := by
  obtain ⟨ha, -, -⟩ := pop_bound hfind
  have hcore := h.pop ha hn hpool
  have hmapped := kernelAddress_mem h.stock ha hn hpool
  by_cases hlt : a < 32
  · have hpage : s.mapped (pageOf (s.pool a)) ≠ none := by
      rw [hpool, pageOf_kernelAddress hn]
      exact hmapped
    unfold KPALLOC kpallocDepth
    refine (kpallocWith_quiet hfind (.inl hlt) hpage).mono ?_ fun _ _ hf => hf.elim
    rintro _ t ⟨rfl, rfl⟩
    exact .inl ⟨hpool, .inl ⟨hlt, rfl⟩⟩
  · have ha32 : 32 ≤ a := Nat.le_of_not_lt hlt
    obtain ⟨hsupply, hc, hd⟩ := hroom ha32
    have hslots : Slots (s.pop a).pool 0 (c + d) 0 :=
      ⟨fun j _ hj => absurd hj (Nat.not_lt_zero j), by rwa [Nat.zero_add]⟩
    unfold KPALLOC kpallocDepth
    rw [kpallocWith, ends_bind, ends_get, hfind]
    dsimp only
    rw [ends_bind, ends_set, refillBehind, bind_assoc, ends_bind, ends_get,
      if_pos (show a ≥ 32 ∧ s.paCalling = false from ⟨ha32, hcall⟩)]
    have hrefill := refill_spec (s := s.pop a) 64 (by decide) hcore hslots
      (show 0 + c + d ≤ c + d by omega) hc hd
    refine hrefill.bind ?_
    rintro _ t (⟨hdone, hadds, htakes, hpages⟩ | ⟨h2, hleft⟩)
    · obtain ⟨T', P', hcore', -⟩ := id hdone
      have hpage : t.mapped (pageOf (s.pool a)) ≠ none := by
        rw [hpool, pageOf_kernelAddress hn]
        exact (hcore'.handed n (.inl rfl)).2.1
      rw [memfill, bind_assoc, ends_bind, ends_get, if_neg hpage, ends_bind, ends_pure, ends_pure]
      have hpop : TakesFree s (s.pop a) := .of_same (fun _ => rfl) fun _ => rfl
      exact .inl ⟨hpool, .inr ⟨ha32, hdone,
        ((sameTables_pop s a).adds 0).trans hadds (Nat.le_of_eq (Nat.zero_add d)),
        hpop.trans htakes, (((sameTables_pop s a).pagesLeft 0).trans hpages).mono (by omega)⟩⟩
    · rw [memfill, bind_assoc, ends_bind, ends_get, ends_bind]
      split
      · exact ends_throw.mpr ⟨h2, hleft⟩
      · exact ends_pure.mpr (ends_pure.mpr (.inr ⟨h2, hleft⟩))

end UnnamedOS.Paging
