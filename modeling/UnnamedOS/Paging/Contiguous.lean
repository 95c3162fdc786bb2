import UnnamedOS.Paging.PoolSafety

/-!
# Consecutive kernel pages

`KP_ALLOC4` looks for a run of absent entries in the page tables that exist, from `MBASE` on, and
then maps the pages of the run one by one. A missing page table is an obstacle like a mapped page.
-/

namespace UnnamedOS.Paging

open UnnamedOS.Lib

def Pager.doesPDEEExist (s : Pager) (v_add : UInt64) : Bool :=
  let p := pageOf v_add
  s.pml4 p.pml4 ≠ none ∧ s.pdpt p.pml4 p.pdpt ≠ none ∧ s.pde p.pml4 p.pdpt p.pde ≠ none ∧
    s.pt p = none

/-- The first loop of `KP_ALLOC4`, for at most so many rounds. -/
def Pager.findRun (s : Pager) (size_pages : Nat) : Nat → UInt64 → Nat → Option UInt64
  | 0, _, _ => none
  | rounds + 1, ini, t =>
    if t = size_pages then some ini
    else if s.doesPDEEExist (ini + .ofNat (t <<< 12)) then
      s.findRun size_pages rounds ini (t + 1)
    else s.findRun size_pages rounds (ini + .ofNat ((t + 1) <<< 12)) 0

/-- The second loop, over the pages from `t` on. -/
def mapRun (ini : UInt64) : Nat → Nat → PageM Unit
  | 0, _ => return
  | n + 1, t => do
    ALSP (ini + .ofNat (t <<< 12)) 0x0 0x1 0x1
    mapRun ini n (t + 1)

/-- `KP_ALLOC4` for a size that is not negative, with so many rounds of its first loop. -/
def KP_ALLOC4 (rounds size_pages : Nat) : PageM UInt64 := do
  if size_pages = 0 then throw (.error .alNop 0)
  else if size_pages = 1 then KPALLOC
  else
    let s ← get
    match s.findRun size_pages rounds MBASE 0 with
    | none => throw .diverges
    | some ini =>
      mapRun ini size_pages 0
      return ini

def KPALLOCS (rounds size : Nat) : PageM UInt64 := KP_ALLOC4 rounds size

/-- A page that is not mapped, in a page table that exists. -/
def Absent (s : Pager) (n : Nat) : Prop :=
  s.pde 1 0 (n / 512) ≠ none ∧ s.pt (kernelPage n) = none

/-- There are `n` pages in a row that are not mapped, in page tables that exist. -/
def HasRun (s : Pager) (n : Nat) : Prop := ∃ m, m + n ≤ gib ∧ ∀ i < n, Absent s (m + i)

variable {s s' t : Pager} {T out : Nat → Prop} {N n m a f i j k : Nat}

/-! ## The search -/

theorem kernelAddress_add (h : n + k < gib) :
    kernelAddress n + .ofNat (k <<< 12) = kernelAddress (n + k) := by
  apply UInt64.toNat_inj.mp
  have hn := toNat_kernelAddress (n := n) (by omega)
  have hk := toNat_kernelAddress h
  unfold gib at h
  have hshift : k <<< 12 = 4096 * k := by
    rw [Nat.shiftLeft_eq]
    omega
  have hof : (UInt64.ofNat (4096 * k)).toNat = 4096 * k :=
    UInt64.toNat_ofNat_of_lt' (by change _ < 18446744073709551616; omega)
  rw [UInt64.toNat_add, hshift, hof, hn, hk, Nat.mod_eq_of_lt (by omega)]
  omega

theorem doesPDEEExist_iff (h : KernelTables s N) (hn : n < gib) :
    s.doesPDEEExist (kernelAddress n) = true ↔ Absent s n := by
  rw [Pager.doesPDEEExist, pageOf_kernelAddress hn, decide_eq_true_iff]
  constructor
  · rintro ⟨-, -, hpde, hpt⟩
    exact ⟨hpde, hpt⟩
  · rintro ⟨hpde, hpt⟩
    exact ⟨h.pml4, h.pdpt, hpde, hpt⟩

/-- The search ends at a run if there is one ahead. What it has passed is an obstacle or belongs to the
run that it is looking at. -/
theorem findRun_ends (h : KernelTables s N) (hm : m + n ≤ gib) (hrun : ∀ i < n, Absent s (m + i))
    (hn : 0 < n) (rounds : Nat) (hj : j ≤ m) (hk : k ≤ n) (hrounds : m + n < j + k + rounds)
    (hseen : ∀ i < k, Absent s (j + i)) :
    ∃ b, b + n ≤ gib ∧ (∀ i < n, Absent s (b + i)) ∧
      s.findRun n rounds (kernelAddress j) k = some (kernelAddress b) := by
  induction rounds generalizing j k with
  | zero => omega
  | succ rounds ih =>
      rw [Pager.findRun]
      by_cases hdone : k = n
      · rw [if_pos hdone]
        exact ⟨j, by omega, fun i hi => hseen i (hdone ▸ hi), rfl⟩
      · have hin : j + k < gib := by omega
        rw [if_neg hdone, kernelAddress_add hin]
        by_cases habsent : Absent s (j + k)
        · rw [if_pos ((doesPDEEExist_iff h hin).mpr habsent)]
          refine ih hj (by omega) (by omega) fun i hi => ?_
          rcases Nat.lt_or_eq_of_le (Nat.le_of_lt_succ hi) with hlt | rfl
          · exact hseen i hlt
          · exact habsent
        · have hpast : j + k < m := by
            by_contra hge
            have hoff := hrun (j + k - m) (by omega)
            rw [show m + (j + k - m) = j + k by omega] at hoff
            exact habsent hoff
          rw [if_neg (fun hex => habsent ((doesPDEEExist_iff h hin).mp hex)),
            kernelAddress_add (by omega)]
          exact ih (by omega) (Nat.zero_le n) (by omega) fun i hi => absurd hi (Nat.not_lt_zero i)

theorem findRun_more {rounds more : Nat} {ini v : UInt64} (h : s.findRun n rounds ini k = some v)
    (hle : rounds ≤ more) : s.findRun n more ini k = some v := by
  induction rounds generalizing ini k more with
  | zero => cases h
  | succ rounds ih =>
      obtain ⟨more, rfl⟩ : ∃ r, more = r + 1 := ⟨more - 1, by omega⟩
      have hless := Nat.le_of_succ_le_succ hle
      rw [Pager.findRun] at h ⊢
      by_cases hdone : k = n
      · rw [if_pos hdone] at h ⊢
        exact h
      · rw [if_neg hdone] at h ⊢
        by_cases hex : s.doesPDEEExist (ini + .ofNat (k <<< 12)) = true
        · rw [if_pos hex] at h ⊢
          exact ih h hless
        · rw [if_neg hex] at h ⊢
          exact ih h hless

theorem findRun_unique {r r' : Nat} {ini v w : UInt64} (h : s.findRun n r ini k = some v)
    (h' : s.findRun n r' ini k = some w) : v = w := by
  have hv := findRun_more h (Nat.le_max_left r r')
  have hw := findRun_more h' (Nat.le_max_right r r')
  exact Option.some.inj (hv.symm.trans hw)

/-- What the search finds is a run of absent entries. -/
theorem findRun_sound {rounds : Nat} {ini v : UInt64} (h : s.findRun n rounds ini k = some v)
    (hseen : ∀ i < k, s.doesPDEEExist (ini + .ofNat (i <<< 12)) = true) :
    ∀ i < n, s.doesPDEEExist (v + .ofNat (i <<< 12)) = true := by
  induction rounds generalizing ini k with
  | zero => cases h
  | succ rounds ih =>
      rw [Pager.findRun] at h
      split at h
      · rename_i hdone
        obtain rfl := Option.some.inj h
        rw [← hdone]
        exact hseen
      · split at h
        · rename_i hex
          refine ih h fun i hi => ?_
          rcases Nat.lt_or_eq_of_le (Nat.le_of_lt_succ hi) with hlt | rfl
          · exact hseen i hlt
          · exact hex
        · exact ih h fun i hi => absurd hi (Nat.not_lt_zero i)

/-! ## One page -/

/-- How many of the slots whose pages `KPALLOC` takes without a refill are full. -/
def lowSlots (pool : Nat → UInt64) : Nat := slotsBelow 32 pool

/-- The bitmap has room for `n` frames, counting the pages that it can be given without a refill. -/
def Framed (s : Pager) (n : Nat) : Prop :=
  ∃ m, RoomyFrames s m ∧ n ≤ m + 16352 * lowSlots s.pool

theorem lowSlots_update (pool : Nat → UInt64) (a : Nat) :
    lowSlots pool ≤ lowSlots (Function.update pool a 0) + 1 := slotsBelow_update 32 pool a 0

/-- Without room in the bitmap one of the lower slots is full. -/
theorem Framed.slot (h : Framed s (n + 1)) (hnone : ¬ RoomyFrames s 1) :
    ∃ a < 32, (List.range 512).find? (fun i => s.pool i ≠ 0) = some a := by
  obtain ⟨m, hroom, hle⟩ := h
  have hm : m = 0 := by
    by_contra hne
    exact hnone (hroom.mono (by omega))
  have hpos : 0 < lowSlots s.pool := by omega
  exact exists_slot (by decide) hpos

theorem Pops.zero {pool pool' : Nat → UInt64} (h : Pops 0 pool pool') : pool' = pool := by
  cases h
  rfl

theorem Pops.inv {pool pool' : Nat → UInt64} (h : Pops 1 pool pool') :
    ∃ a, (List.range 512).find? (fun i => pool i ≠ 0) = some a ∧
      pool' = Function.update pool a 0 := by
  cases h with
  | next hfind hrest =>
      cases hrest
      exact ⟨_, hfind, rfl⟩

theorem Framed.took {c : Nat} (h : Framed s (n + 1)) (ht : TookFrame s t T f c) : Framed t n := by
  obtain ⟨m, hroom, hle⟩ := h
  have hpops := ht.pops
  rcases ht.room with ⟨rfl, htake⟩ | ⟨rfl, hnone, hnew⟩
  · have hpool := hpops.zero
    cases m with
    | zero => exact ⟨0, ⟨∅, Nat.le_refl 0, fun g hg => absurd hg (Finset.notMem_empty g)⟩, by
        rw [hpool]
        omega⟩
    | succ m => exact ⟨m, htake m hroom, by
        rw [hpool]
        omega⟩
  · obtain ⟨a, -, hpool⟩ := hpops.inv
    have hm : m = 0 := by
      by_contra hne
      exact hnone (hroom.mono (by omega))
    have hslots := lowSlots_update s.pool a
    rw [← hpool] at hslots
    exact ⟨16351, hnew, by omega⟩

/-- The page that has been mapped is handed out. -/
theorem PoolCore.hand {c : Nat} (h : PoolCore s T out) (ha : Allocates s s' T n f c 0) :
    PoolCore s' (fun m => m = f ∨ T m) fun m => m = n ∨ out m := by
  -- a slot that `KPALLOC` does not look at
  have hcore := h.step ha 512
  have hpool : ∀ i < 512, (s'.stored 512 n).pool i = s'.pool i :=
    fun i hi => Function.update_of_ne (Nat.ne_of_lt hi) ..
  have hnot : ∀ m, NotPooled (s'.stored 512 n) m → NotPooled s' m :=
    fun m hm i hi => hpool i hi ▸ hm i hi
  have hfresh : NotPooled s' n := by
    intro i hi heq
    rcases ha.pops.fewer i with hsame | hzero
    · exact kernelAddress_mem h.stock hi ha.page (hsame.symm.trans heq) ha.fresh
    · exact kernelAddress_ne_zero ha.page (heq.symm.trans hzero)
  constructor
  case tables => exact ha.tables
  case frames => exact ha.frames
  case boot => exact hcore.boot
  case held => exact hcore.held
  case sole => exact hcore.sole
  case low => exact hcore.low
  case stock =>
    intro i hi hne
    rw [← hpool i hi] at hne ⊢
    exact hcore.stock i hi hne
  case distinct =>
    intro i hi j hj hne heq
    rw [← hpool i hi] at hne heq
    rw [← hpool j hj] at heq
    exact hcore.distinct i hi j hj hne heq
  case added =>
    intro i hi m hm heq
    rw [← hpool i (by omega)] at heq
    exact hcore.added i hi m hm heq
  case handed =>
    rintro m (rfl | hm)
    · exact ⟨ha.page, by rw [ha.mapped]; exact Option.some_ne_none _, hfresh⟩
    · obtain ⟨hgib, hmapped, hpooled⟩ := hcore.handed m hm
      exact ⟨hgib, hmapped, hnot m hpooled⟩
  case tableFrames =>
    intro g hg
    obtain ⟨m, hm, e, he, heg, hout, hpooled⟩ := hcore.tableFrames g hg
    refine ⟨m, hm, e, he, heg, ?_, hnot m hpooled⟩
    rintro (rfl | hout')
    · -- the frame was not taken before, but a table was in it
      have heq : e = ⟨f, 1⟩ := Option.some.inj (he.symm.trans ha.mapped)
      have hgf : g = f := by rw [← heg, heq]
      rw [hgf] at hg
      rcases ha.table f hg with hold | ⟨k, e', ⟨hk, -⟩, he', hf⟩
      · obtain ⟨k, hk, e', he', hf, -⟩ := h.tableFrames f hold
        exact ha.frame.1 (hf ▸ h.held k hk e' he')
      · exact ha.frame.1 (hf ▸ h.held k hk e' he')
    · exact hout hout'

/-- The bitmap gets its pages from the lower slots, so nothing is refilled. -/
structure TookQuietly (s t : Pager) (T : Nat → Prop) (f c : Nat) : Prop where
  took : TookFrame s t T f c
  low : c = 0 ∧ t.pool = s.pool ∨ ∃ a < 32, t.pool = Function.update s.pool a 0

theorem Absent.unmapped (h : Absent s n) : s.mapped (kernelPage n) = none := by
  rw [Pager.mapped, h.2, ite_self]

/-- The pages of the boot loader are mapped. -/
theorem PoolInv.absent_high (h : PoolInv s T out) (habsent : Absent s n) : 512 ≤ n := by
  by_contra hlt
  exact h.core.boot n (Nat.lt_of_not_le hlt) habsent.unmapped

theorem PoolInv.map {c : Nat} (h : PoolInv s T out) (hn : n < gib) (habsent : Absent s n)
    (ht : TookQuietly s t T f c) :
    PoolInv (t.withPage (kernelPage n) f) (fun m => m = f ∨ T m) fun m => m = n ∨ out m := by
  obtain ⟨N, hN⟩ := h.core.tables
  have hk := (hN.pde (n / 512) (kernelPage_inTables hn).pde).mp habsent.1
  have ha := allocates_page hN (by omega) habsent.2 h.core.frames ht.took
  refine ⟨h.core.hand ha, fun j hj hj' => ?_, rfl, ?_⟩
  · change t.pool j ≠ 0
    rcases ht.low with ⟨-, hpool⟩ | ⟨a, ha', hpool⟩
    · rw [hpool]
      exact h.full j hj hj'
    · rw [hpool, Function.update_of_ne (by omega)]
      exact h.full j hj hj'
  · rintro m (rfl | hm)
    · exact h.absent_high habsent
    · exact h.high m hm

theorem takesFrame (hstock : Stock s) (hframes : FrameInv s T)
    (hslot : ¬ RoomyFrames s 1 → ∃ a,
      (List.range 512).find? (fun i => s.pool i ≠ 0) = some a ∧ (a < 32 ∨ s.paCalling = true)) :
    Ends (plFn KPALLOC) s
      (fun f u => Ends (plSv KPALLOC f true) u (fun _ t => ∃ c, TookFrame s t T f c)
        fun _ _ => False)
      fun _ _ => False := by
  unfold KPALLOC kpallocDepth
  exact tookFrame hstock hframes hslot

/-- `PL_FN` and `PL_SV` outside `KP_ALLOC3`. -/
theorem PoolInv.takes (h : PoolInv s T out)
    (hslot : ¬ RoomyFrames s 1 → ∃ a < 32,
      (List.range 512).find? (fun i => s.pool i ≠ 0) = some a) :
    Ends (plFn KPALLOC) s
      (fun f u => Ends (plSv KPALLOC f true) u (fun _ t => ∃ c, TookQuietly s t T f c)
        fun _ _ => False)
      fun _ _ => False := by
  refine (takesFrame h.core.stock h.core.frames fun hnone => ?_).mono (fun f u hu => ?_)
    fun _ _ hf => hf
  · obtain ⟨a, ha, hfind⟩ := hslot hnone
    exact ⟨a, hfind, .inl ha⟩
  · refine hu.mono ?_ fun _ _ hf => hf
    rintro _ t ⟨c, ht⟩
    refine ⟨c, ht, ?_⟩
    have hpops := ht.pops
    rcases ht.room with ⟨rfl, -⟩ | ⟨rfl, hnone, -⟩
    · exact .inl ⟨rfl, hpops.zero⟩
    · obtain ⟨a, hfind, hpool⟩ := hpops.inv
      obtain ⟨a', ha', hfind'⟩ := hslot hnone
      obtain rfl := Option.some.inj (hfind.symm.trans hfind')
      exact .inr ⟨a, ha', hpool⟩

/-- `ALSP` on a page of a run. -/
theorem PoolInv.alsp (h : PoolInv s T out) (hn : n < gib) (habsent : Absent s n)
    (hframed : Framed s (k + 1)) :
    Ends (ALSP (kernelAddress n) 0x0 0x1 0x1) s
      (fun _ s' => ∃ t f c, TookQuietly s t T f c ∧ s' = t.withPage (kernelPage n) f)
      fun _ _ => False := by
  have hpage := pageOf_kernelAddress hn
  obtain ⟨N, hN⟩ := h.core.tables
  rw [ALSP]
  refine (h.takes fun hnone => hframed.slot hnone).bind fun f u hu => hu.bind ?_
  rintro _ t ⟨c, ht⟩
  have htab := ht.took.tables.tables hN
  have hpml4 : t.pml4 (kernelPage n).pml4 ≠ none := htab.pml4
  have hpdpt : t.pdpt (kernelPage n).pml4 (kernelPage n).pdpt ≠ none := htab.pdpt
  have hpde : t.pde (kernelPage n).pml4 (kernelPage n).pdpt (kernelPage n).pde ≠ none := by
    rw [ht.took.tables.pde]
    exact habsent.1
  have hpt : ¬ t.pt (kernelPage n) ≠ none := by
    rw [ht.took.tables.pt]
    exact fun hne => hne habsent.2
  have hcall : t.paCalling = false := ht.took.calling.trans h.calling
  rw [hpage, ends_bind, ensurePml4, ends_bind, ends_get, if_neg hpml4, ends_pure, ends_bind,
    ensurePdpt, ends_bind, ends_get, if_neg hpdpt, ends_pure, ends_bind, ensurePde, ends_bind,
    ends_get, if_neg hpde, ends_pure, ends_bind, ends_get, if_neg hpt, ends_modify]
  refine ⟨t, f, c, ht, ?_⟩
  rw [Pager.withPage, ← hcall]
  rfl

/-! ## The run -/

/-- The pages from `lo` on and before `hi` have been mapped, and nothing else. -/
structure MapsRun (s s' : Pager) (out : Nat → Prop) (lo hi : Nat) : Prop where
  inv : ∃ T, PoolInv s' T fun m => (lo ≤ m ∧ m < hi) ∨ out m
  others : ∀ p : Page, (∀ m, lo ≤ m → m < hi → p ≠ kernelPage m) → s'.mapped p = s.mapped p

theorem TookQuietly.others {c : Nat} (ht : TookQuietly s t T f c) {p : Page}
    (hp : p ≠ kernelPage n) : (t.withPage (kernelPage n) f).mapped p = s.mapped p := by
  have hset : (t.withPage (kernelPage n) f).mapped p =
      (setPt (kernelPage n) (some ⟨f, 0x1⟩) t).mapped p := rfl
  rw [hset, mapped_setPt_of_ne hp, ht.took.tables.mapped]

theorem TookQuietly.absent {c : Nat} (ht : TookQuietly s t T f c) (hm : Absent s m) (hne : m ≠ n) :
    Absent (t.withPage (kernelPage n) f) m := by
  constructor
  · change t.pde 1 0 (m / 512) ≠ none
    rw [ht.took.tables.pde]
    exact hm.1
  · rw [withPage_pt, if_neg hne, ht.took.tables.pt]
    exact hm.2

theorem PoolInv.mapRun (todo : Nat) (h : PoolInv s T out) (hgib : m + k + todo ≤ gib)
    (hrun : ∀ i, k ≤ i → i < k + todo → Absent s (m + i)) (hframed : Framed s todo) :
    Ends (mapRun (kernelAddress m) todo k) s
      (fun _ s' => MapsRun s s' out (m + k) (m + k + todo)) fun _ _ => False := by
  induction todo generalizing s T out k with
  | zero =>
      refine ends_pure.mpr ⟨⟨T, ?_⟩, fun _ _ => rfl⟩
      have hout : (fun i => (m + k ≤ i ∧ i < m + k + 0) ∨ out i) = out := by
        funext i
        apply propext
        constructor
        · rintro (⟨hle, hlt⟩ | hi)
          · omega
          · exact hi
        · exact .inr
      rwa [hout]
  | succ todo ih =>
      have hn : m + k < gib := by omega
      have habsent := hrun k (Nat.le_refl k) (by omega)
      rw [Paging.mapRun, kernelAddress_add hn]
      refine (h.alsp hn habsent hframed).bind ?_
      rintro _ s' ⟨t, f, c, ht, rfl⟩
      have hnext := h.map hn habsent ht
      have htook : Framed t todo := hframed.took ht.took
      have hframed' : Framed (t.withPage (kernelPage (m + k)) f) todo := htook
      refine (ih hnext (k := k + 1) (by omega) (fun i hi hi' => ?_) hframed').mono ?_
        fun _ _ hf => hf
      · exact ht.absent (hrun i (by omega) (by omega)) (by omega)
      rintro _ u ⟨⟨T', hinv⟩, hothers⟩
      refine ⟨⟨T', ?_⟩, fun p hp => ?_⟩
      · have hout : (fun i => (m + (k + 1) ≤ i ∧ i < m + (k + 1) + todo) ∨ i = m + k ∨ out i) =
            fun i => (m + k ≤ i ∧ i < m + k + (todo + 1)) ∨ out i := by
          funext i
          apply propext
          constructor
          · rintro (⟨hle, hlt⟩ | rfl | hi)
            · exact .inl ⟨by omega, by omega⟩
            · exact .inl ⟨by omega, by omega⟩
            · exact .inr hi
          · rintro (⟨hle, hlt⟩ | hi)
            · by_cases heq : i = m + k
              · exact .inr (.inl heq)
              · exact .inl ⟨by omega, by omega⟩
            · exact .inr (.inr hi)
        rwa [hout] at hinv
      · rw [hothers p fun i hi hi' => hp i (by omega) (by omega)]
        exact ht.others (hp (m + k) (Nat.le_refl _) (by omega))

/-- What relates the states before and after each page of the run does so for the run. -/
theorem PoolInv.mapRun_rel {R : Pager → Pager → Prop} (hrefl : ∀ s, R s s)
    (htrans : ∀ s t u, R s t → R t u → R s u)
    (hpage : ∀ {s t : Pager} {T out : Nat → Prop} {n f c : Nat}, PoolInv s T out → n < gib →
      Absent s n → TookQuietly s t T f c → R s (t.withPage (kernelPage n) f))
    (todo : Nat) (h : PoolInv s T out) (hgib : m + k + todo ≤ gib)
    (hrun : ∀ i, k ≤ i → i < k + todo → Absent s (m + i)) (hframed : Framed s todo) :
    Ends (Paging.mapRun (kernelAddress m) todo k) s (fun _ s' => R s s') fun _ _ => False := by
  induction todo generalizing s T out k with
  | zero => exact ends_pure.mpr (hrefl s)
  | succ todo ih =>
      have hn : m + k < gib := by omega
      have habsent := hrun k (Nat.le_refl k) (by omega)
      rw [Paging.mapRun, kernelAddress_add hn]
      apply (h.alsp hn habsent hframed).bind
      rintro _ s' ⟨t, f, c, ht, rfl⟩
      have htook : Framed t todo := hframed.took ht.took
      have hframed' : Framed (t.withPage (kernelPage (m + k)) f) todo := htook
      have hrest := ih (h.map hn habsent ht) (k := k + 1) (by omega)
        (fun i hi hi' => ht.absent (hrun i (by omega) (by omega)) (by omega)) hframed'
      exact hrest.mono (fun _ _ hR => htrans _ _ _ (hpage h hn habsent ht) hR) fun _ _ hf => hf

theorem TookQuietly.kernelSide {c : Nat} (ht : TookQuietly s t T f c) :
    KernelSide s (t.withPage (kernelPage n) f) := by
  have hside := kernelWrites_kernelSide
  have htables := ht.took.tables
  have htook : KernelSide s t :=
    .of_tables htables.pml4 htables.pdpt htables.pde htables.pt
  exact hside.trans _ _ _ (hside.trans _ _ _ htook (hside.setPt t (kernelPage n) f (Nat.le_refl 1)))
    (hside.calling _ false)

/-! ## One page out of the pool -/

/-- So many calls of `KPALLOC` do not leave the first GiB: they find the lower slots full, or a refill
finds room there. -/
def Prepared (s : Pager) (k : Nat) : Prop :=
  MoreTables s ∨ RoomyPages s 64 ∨ k ≤ lowSlots s.pool

theorem lowSlots_of_filled {pool : Nat → UInt64} (h : ∀ j, 3 ≤ j → j < 64 → pool j ≠ 0) :
    29 ≤ lowSlots pool :=
  slotsBelow_of_filled (Nat.le_refl 32) fun j hj hlt => h j hj (by omega)

theorem Drawn.prepared (h : Drawn s s') (hp : Prepared s (k + 1)) (hk : k ≤ 29) :
    Prepared s' k := by
  rcases h with ⟨a, -, rfl⟩ | hfilled
  · rcases hp with hmore | hroom | hslots
    · exact .inl hmore
    · exact .inr (.inl hroom)
    · have hle := lowSlots_update s.pool a
      refine .inr (.inr ?_)
      change k ≤ lowSlots (Function.update s.pool a 0)
      omega
  · exact .inr (.inr (hk.trans (lowSlots_of_filled hfilled)))

theorem PoolInv.kpalloc_prepared (h : PoolInv s T out) (hp : Prepared s (k + 1)) (hk : k ≤ 29) :
    Ends KPALLOC s
      (fun v s' => ∃ n, v = kernelAddress n ∧ HandsOut s s' T out n ∧ Prepared s' k)
      fun _ _ => False := by
  have hdraws : ∃ d < 2, (∀ i < 32, s.pool i = 0) → d < 2 →
      RoomyPages s 64 ∨ d = 1 ∧ MoreTables s := by
    rcases hp with hmore | hroom | hslots
    · exact ⟨1, by decide, fun _ _ => .inr ⟨rfl, hmore⟩⟩
    · exact ⟨0, by decide, fun _ _ => .inl hroom⟩
    · have hpos : 0 < lowSlots s.pool := by omega
      obtain ⟨a, ha, hfind⟩ := exists_slot (by decide) hpos
      exact ⟨0, by decide, fun hempty => absurd (hempty a ha) (pop_bound hfind).2.1⟩
  obtain ⟨d, hd, hroom⟩ := hdraws
  refine (h.kpalloc_draws (Nat.le_of_lt hd) hroom).mono ?_
    fun _ _ hleft => absurd hleft.1 (Nat.not_le_of_lt hd)
  rintro v s' (⟨n, hv, hn, hdrawn⟩ | ⟨htwo, -⟩)
  · exact ⟨n, hv, hn, hdrawn.prepared hp hk⟩
  · exact absurd htwo (Nat.not_le_of_lt hd)

/-- No nested write unmaps a page or gives it another frame. -/
theorem mapped_stays (s₀ : Pager) :
    KernelKeeps fun t => ∀ p, s₀.mapped p ≠ none → t.mapped p = s₀.mapped p where
  chain _ _ h := h
  pool _ _ h := h
  calling _ _ h := h
  linkPml4 s t i e _ hs hnone ht := by
    intro p hp
    rw [mapped_linkPml4, if_neg, ht p hp]
    rintro rfl
    have hold := hs p hp
    rw [Pager.mapped, if_pos (.inl hnone)] at hold
    exact hp hold.symm
  linkPdpt s t i j e _ hs hnone ht := by
    intro p hp
    rw [mapped_linkPdpt, if_neg, ht p hp]
    rintro ⟨rfl, rfl⟩
    have hold := hs p hp
    rw [Pager.mapped, if_pos (.inr (.inl hnone))] at hold
    exact hp hold.symm
  linkPde s t i j k e _ hs hnone ht := by
    intro p hp
    rw [mapped_linkPde, if_neg, ht p hp]
    rintro ⟨rfl, rfl, rfl⟩
    have hold := hs p hp
    rw [Pager.mapped, if_pos (.inr (.inr hnone))] at hold
    exact hp hold.symm
  setPt s p f _ hnone hs := by
    intro q hq
    have hqp : q ≠ p := by
      rintro rfl
      have hold := hs q hq
      rw [Pager.mapped, hnone, ite_self] at hold
      exact hq hold.symm
    rw [mapped_setPt_of_ne hqp, hs q hq]

/-- What a call of `KPALLOC` may do to the page tables. -/
structure OnlyAdds (s s' : Pager) : Prop where
  stays : ∀ p, s.mapped p ≠ none → s'.mapped p = s.mapped p
  user : ∀ p, p.pml4 = 0 → s'.mapped p = s.mapped p

theorem KPALLOC_onlyAdds (s : Pager) :
    Ends KPALLOC s (fun _ s' => OnlyAdds s s') fun _ s' => OnlyAdds s s' := by
  have hstays := (mapped_stays s).kpallocDepth 2 s fun _ _ => rfl
  have huser : ∀ s', KernelSide s s' → ∀ p : Page, p.pml4 = 0 → s'.mapped p = s.mapped p := by
    intro s' hside p hp
    rcases hside.quiet p with hsame | ⟨hne, -⟩
    · exact hsame
    · exact absurd hp hne
  exact (hstays.and (respects_KPALLOC s)).mono (fun _ s' h => ⟨h.1, huser s' h.2⟩)
    fun _ s' h => ⟨h.1, huser s' h.2⟩

/-! ## What is promised -/

/-- The address of page `i` of a run at `v`. -/
def pageAt (v : UInt64) (i : Nat) : UInt64 := v + .ofNat (i <<< 12)

/-- `KPALLOCS` has returned `v` for `n` pages. -/
structure Contiguous (s : Pager) (n : Nat) (v : UInt64) (s' : Pager) : Prop where
  aligned : v &&& 0xFFF = 0
  inside : v.toNat + 0x1000 * n ≤ 2 ^ 48
  kernel : ∀ i < n, (pageOf (pageAt v i)).Kernel
  before : n = 1 ∧ Pooled s.pool (pageOf v) ∨ ∀ i < n, s.mapped (pageOf (pageAt v i)) = none
  mapped : ∀ i < n, s'.mapped (pageOf (pageAt v i)) ≠ none
  /-- What else is new has been put into the pool by the nested calls. -/
  others : ∀ p : Page, p.InTables → (∀ i < n, p ≠ pageOf (pageAt v i)) →
    s'.mapped p = s.mapped p ∨ s.mapped p = none ∧ (Pooled s'.pool p ∨ NestedTake s s' p)

theorem kernelPage_kernel (hn : n < gib) : (kernelPage n).Kernel :=
  ⟨kernelPage_inTables hn, Nat.le_refl 1⟩

theorem pageOf_pageAt (h : m + i < gib) : pageOf (pageAt (kernelAddress m) i) = kernelPage (m + i) := by
  rw [pageAt, kernelAddress_add h, pageOf_kernelAddress h]

theorem kernelAddress_aligned (hn : n < gib) : kernelAddress n &&& 0xFFF = 0 := by
  apply UInt64.toNat_inj.mp
  rw [and_offset, UInt64.toNat_mod, toNat_kernelAddress hn]
  change _ % 4096 = 0
  omega

/-- For a run in the first GiB. -/
theorem Contiguous.of_pages (hn : 0 < n) (hm : m + n ≤ gib)
    (hbefore : n = 1 ∧ Pooled s.pool (kernelPage m) ∨ ∀ i < n, s.mapped (kernelPage (m + i)) = none)
    (hmapped : ∀ i < n, s'.mapped (kernelPage (m + i)) ≠ none)
    (hothers : ∀ p : Page, p.InTables → (∀ i < n, p ≠ kernelPage (m + i)) →
      s'.mapped p = s.mapped p ∨ s.mapped p = none ∧ (Pooled s'.pool p ∨ NestedTake s s' p)) :
    Contiguous s n (kernelAddress m) s' := by
  have hpage : ∀ i < n, pageOf (pageAt (kernelAddress m) i) = kernelPage (m + i) :=
    fun i hi => pageOf_pageAt (by omega)
  have hgib : m < gib := by omega
  constructor
  case aligned => exact kernelAddress_aligned hgib
  case inside =>
    rw [toNat_kernelAddress hgib]
    unfold gib at hm
    omega
  case kernel =>
    intro i hi
    rw [hpage i hi]
    exact kernelPage_kernel (by omega)
  case before =>
    rw [pageOf_kernelAddress hgib]
    refine hbefore.imp_right fun hnone i hi => ?_
    rw [hpage i hi]
    exact hnone i hi
  case mapped =>
    intro i hi
    rw [hpage i hi]
    exact hmapped i hi
  case others =>
    intro p hp hne
    exact hothers p hp fun i hi heq => hne i hi (by rw [hpage i hi]; exact heq)

/-! ## One call -/

/-- The call neither leaves the first GiB nor refills the pool while the bitmap is extended. -/
structure Stocked (s : Pager) (n : Nat) : Prop where
  one : n = 1 → Prepared s 1
  run : n ≠ 1 → Framed s n

/-- The pages at `v` are handed out. -/
def HandsRun (s' : Pager) (out : Nat → Prop) (n : Nat) (v : UInt64) : Prop :=
  ∃ m, m + n ≤ gib ∧ v = kernelAddress m ∧
    ∃ T, PoolInv s' T fun i => (m ≤ i ∧ i < m + n) ∨ out i

theorem MBASE_eq : MBASE = kernelAddress 32 := by decide

theorem PoolInv.kpallocs_one (h : PoolInv s T out) (hp : Prepared s 1) (rounds : Nat) :
    Ends (KPALLOCS rounds 1) s (fun v s' => Contiguous s 1 v s' ∧ HandsRun s' out 1 v)
      fun _ _ => False := by
  have hone : KPALLOCS rounds 1 = KPALLOC := rfl
  rw [hone]
  refine ((h.kpalloc_prepared hp (Nat.zero_le 29)).and (KPALLOC_onlyAdds s)).mono ?_
    fun _ _ hf => hf.1
  rintro _ s' ⟨⟨n, rfl, hn, -⟩, hadds⟩
  have hgib := hn.page
  obtain ⟨a, ha, hfind, hslot⟩ := hn.slot
  obtain ⟨T', hT'⟩ := hn.inv
  have hmapped := (hT'.core.handed n (.inl rfl)).2.1
  constructor
  · refine .of_pages Nat.one_pos hgib (.inl ⟨rfl, a, ha, (pop_bound hfind).2.1, ?_⟩)
      (fun i hi => ?_) fun p hp hne => ?_
    · rw [hslot, pageOf_kernelAddress hgib]
    · obtain rfl : i = 0 := by omega
      exact hmapped
    · by_cases hold : s.mapped p = none
      · by_cases hnew : s'.mapped p = none
        · exact .inl (hnew.trans hold.symm)
        · have hkernel : 1 ≤ p.pml4 := by
            by_contra hlt
            exact hnew ((hadds.user p (by omega)).trans hold)
          by_cases hpool : Pooled s'.pool p
          · exact .inr ⟨hold, .inl hpool⟩
          · exact .inr ⟨hold, .inr ⟨⟨hp, hkernel⟩, .inr hold, hnew, hpool⟩⟩
      · exact .inl (hadds.stays p hold)
  · refine ⟨n, hgib, rfl, T', ?_⟩
    have hout : (fun i => (n ≤ i ∧ i < n + 1) ∨ out i) = fun i => i = n ∨ out i := by
      funext i
      have hiff : (n ≤ i ∧ i < n + 1) ↔ i = n := by omega
      rw [hiff]
    rwa [hout]

/-- The run that the first loop has found is mapped. -/
theorem PoolInv.kpallocs_found {b rounds : Nat} (h : PoolInv s T out) (hn : 2 ≤ n)
    (hframed : Framed s n) (hb : b + n ≤ gib) (hfree : ∀ i < n, Absent s (b + i))
    (hfind : s.findRun n rounds MBASE 0 = some (kernelAddress b)) :
    Ends (KPALLOCS rounds n) s (fun v s' => Contiguous s n v s' ∧ HandsRun s' out n v)
      fun _ _ => False := by
  rw [KPALLOCS, KP_ALLOC4, if_neg (by omega), if_neg (by omega), ends_bind, ends_get, hfind]
  dsimp only
  have hmaps := h.mapRun n (m := b) (k := 0) (by omega)
    (fun i _ hi => hfree i (by omega)) hframed
  refine hmaps.bind ?_
  rintro _ s' ⟨⟨T', hinv⟩, hothers⟩
  rw [ends_pure]
  constructor
  · refine .of_pages (by omega) hb (.inr fun i hi => (hfree i hi).unmapped) (fun i hi => ?_)
      fun p _ hne => .inl (hothers p fun j hj hj' => ?_)
    · exact (hinv.core.handed (b + i) (.inl ⟨by omega, by omega⟩)).2.1
    · have hpage := hne (j - b) (by omega)
      rwa [show b + (j - b) = j by omega] at hpage
  · exact ⟨b, hb, rfl, T', hinv⟩

theorem PoolInv.finds (h : PoolInv s T out) (hn : 2 ≤ n) (hrun : HasRun s n) :
    ∃ rounds b, b + n ≤ gib ∧ (∀ i < n, Absent s (b + i)) ∧
      s.findRun n rounds MBASE 0 = some (kernelAddress b) := by
  obtain ⟨m, hm, habsent⟩ := hrun
  obtain ⟨N, hN⟩ := h.core.tables
  have hhigh := h.absent_high (habsent 0 (by omega))
  rw [MBASE_eq]
  exact ⟨m + n + 1, findRun_ends hN hm habsent (by omega) (m + n + 1) (by omega) (Nat.zero_le n)
    (by omega) fun i hi => absurd hi (Nat.not_lt_zero i)⟩

/-- With fewer rounds the first loop does not end, and nothing has changed. -/
theorem PoolInv.kpallocs_any (h : PoolInv s T out) (hn : 1 ≤ n) (hstocked : Stocked s n)
    (hrun : n = 1 ∨ HasRun s n) (rounds : Nat) :
    Ends (KPALLOCS rounds n) s (fun v s' => Contiguous s n v s' ∧ HandsRun s' out n v)
      fun e s' => e = .diverges ∧ s' = s := by
  by_cases hone : n = 1
  · subst hone
    exact (h.kpallocs_one (hstocked.one rfl) rounds).mono (fun _ _ h => h) fun _ _ hf => hf.elim
  · have htwo : 2 ≤ n := by omega
    obtain ⟨enough, b, hb, hfree, hfind⟩ := h.finds htwo (hrun.resolve_left hone)
    cases hfound : s.findRun n rounds MBASE 0 with
    | none =>
        rw [KPALLOCS, KP_ALLOC4, if_neg (by omega), if_neg hone, ends_bind, ends_get, hfound]
        exact ends_throw.mpr ⟨rfl, rfl⟩
    | some v =>
        obtain rfl := findRun_unique hfound hfind
        exact (h.kpallocs_found htwo (hstocked.run hone) hb hfree hfound).mono (fun _ _ h => h)
          fun _ _ hf => hf.elim

theorem PoolInv.kpallocs (h : PoolInv s T out) (hn : 1 ≤ n) (hstocked : Stocked s n)
    (hrun : n = 1 ∨ HasRun s n) :
    ∃ rounds, Ends (KPALLOCS rounds n) s (fun v s' => Contiguous s n v s' ∧ HandsRun s' out n v)
      fun _ _ => False := by
  by_cases hone : n = 1
  · subst hone
    exact ⟨0, h.kpallocs_one (hstocked.one rfl) 0⟩
  · obtain ⟨rounds, b, hb, hfree, hfind⟩ := h.finds (by omega) (hrun.resolve_left hone)
    exact ⟨rounds, h.kpallocs_found (by omega) (hstocked.run hone) hb hfree hfind⟩

/-- What relates the states before and after each page does so for the call. -/
theorem PoolInv.kpallocs_rel {R : Pager → Pager → Prop} (hrefl : ∀ s, R s s)
    (htrans : ∀ s t u, R s t → R t u → R s u)
    (hpage : ∀ {s t : Pager} {T out : Nat → Prop} {n f c : Nat}, PoolInv s T out → n < gib →
      Absent s n → TookQuietly s t T f c → R s (t.withPage (kernelPage n) f))
    (hone : Prepared s 1 → Ends KPALLOC s (fun _ s' => R s s') fun _ _ => True)
    (h : PoolInv s T out) (hn : 1 ≤ n) (hstocked : Stocked s n) (hrun : n = 1 ∨ HasRun s n)
    (rounds : Nat) : Ends (KPALLOCS rounds n) s (fun _ s' => R s s') fun _ _ => True := by
  by_cases h1 : n = 1
  · subst h1
    exact hone (hstocked.one rfl)
  · obtain ⟨enough, b, hb, hfree, hfind⟩ := h.finds (by omega) (hrun.resolve_left h1)
    rw [KPALLOCS, KP_ALLOC4, if_neg (by omega), if_neg h1, ends_bind, ends_get]
    split
    · exact ends_throw.mpr trivial
    · rename_i ini hini
      obtain rfl := findRun_unique hini hfind
      have hrun' : ∀ i, 0 ≤ i → i < 0 + n → Absent s (b + i) := fun i _ hi => hfree i (by omega)
      have hmaps := h.mapRun_rel hrefl htrans hpage n (m := b) (k := 0) (by omega) hrun'
        (hstocked.run h1)
      exact (hmaps.mono (fun _ _ h => h) fun _ _ _ => trivial).bind fun _ _ hR => ends_pure.mpr hR

end UnnamedOS.Paging
