import UnnamedOS.Paging.Contiguous

/-!
# Consecutive kernel pages in every state

The calls of `KPALLOCS` and `P_FREE` between whatever else is done with pages: a task gets a page with
`UPALLOC` and loses it, and the user half is exchanged for that of another task.
-/

namespace UnnamedOS.Paging

open UnnamedOS.Lib

/-- Everything but the tables of the user half is the same. -/
structure UserSide (s s' : Pager) : Prop where
  pml4 : ∀ i, i ≠ 0 → s'.pml4 i = s.pml4 i
  pdpt : ∀ i, i ≠ 0 → s'.pdpt i = s.pdpt i
  pde : ∀ i, i ≠ 0 → s'.pde i = s.pde i
  pt : ∀ p : Page, p.pml4 ≠ 0 → s'.pt p = s.pt p
  pool : s'.pool = s.pool
  chain : s'.chain = s.chain
  calling : s'.paCalling = s.paCalling

structure KernelState where
  pager : Pager
  /-- The pages that `KPALLOCS` has returned and that have not been freed. -/
  out : Set UInt64

inductive KernelOp where
  | allocs (size : Nat)
  | free (v : UInt64)
  /-- A page of `UPALLOC`. -/
  | user (v : UInt64) (flags : UInt8)
  /-- `P_FREE` of a page of the user half. -/
  | userFree (v : UInt64)
  /-- Another user half. -/
  | switch

def KernelOp.step (s : KernelState) (op : KernelOp) (s' : KernelState) : Prop :=
  match op with
  | .allocs size => ∃ rounds v, KPALLOCS rounds size s.pager = .ok v s'.pager ∧
      s'.out = s.out ∪ {w | ∃ i < size, w = pageAt v i}
  | .free v => v ∈ s.out ∧ P_FREE v s.pager = .ok ⟨⟩ s'.pager ∧ s'.out = s.out \ {v}
  | .user v flags => (pageOf v).pml4 = 0 ∧ ALSP v flags 0x7 0x5 s.pager = .ok ⟨⟩ s'.pager ∧
      s'.out = s.out
  | .userFree v => (pageOf v).pml4 = 0 ∧ P_FREE v s.pager = .ok ⟨⟩ s'.pager ∧ s'.out = s.out
  | .switch => UserSide s.pager s'.pager ∧ s'.out = s.out

/-- After `P_ALLOC3_SETUP`. -/
def KernelState.start (p : Pager) : KernelState := ⟨p, ∅⟩

/-- A frame that is marked and that no kernel page is in. -/
structure UserFrame (s : Pager) (f : Nat) : Prop where
  low : f % 64 ≤ 31
  marked : s.marked f = true
  user : ∀ p : Page, p.Kernel → ∀ e, s.mapped p = some e → e.frame ≠ f

/-- The condition on a step: the pages and frames that it takes are at hand, and what a task frees is
the frame of a page of its own. -/
def KernelOp.Meets (s : KernelState) : KernelOp → Prop
  | .allocs size => 1 ≤ size ∧ Stocked s.pager size ∧ (size = 1 ∨ HasRun s.pager size)
  | .free _ => True
  | .user _ _ => Framed s.pager 1 ∧ Prepared s.pager 4
  | .userFree v => UserFrame s.pager (s.pager.v2pFrame v)
  | .switch => True

variable {s s' t : Pager} {T T' out out' : Nat → Prop} {n m f i j k : Nat}

/-! ## The user half -/

theorem UserSide.mapped (h : UserSide s s') {p : Page} (hp : p.pml4 ≠ 0) :
    s'.mapped p = s.mapped p := by
  rw [Pager.mapped, Pager.mapped, h.pml4 _ hp, h.pdpt _ hp, h.pde _ hp, h.pt p hp]

theorem UserSide.kernelPage (h : UserSide s s') (n : Nat) :
    s'.mapped (kernelPage n) = s.mapped (kernelPage n) := h.mapped Nat.one_ne_zero

theorem UserSide.marked (h : UserSide s s') (m : Nat) : s'.marked m = s.marked m := by
  rw [Pager.marked, Pager.marked, h.chain]

/-- The first GiB and the pool in one state, and the same in another with more frames taken. -/
structure SameKernel (s s' : Pager) : Prop where
  tables : ∀ N, KernelTables s N → KernelTables s' N
  mapped : ∀ n, s'.mapped (kernelPage n) = s.mapped (kernelPage n)
  pool : s'.pool = s.pool
  table : ∀ g, TableFrame s' g → TableFrame s g

theorem SameKernel.of_eq (hpml4 : s'.pml4 1 = s.pml4 1) (hpdpt : s'.pdpt 1 0 = s.pdpt 1 0)
    (hbeyond : s'.pdpt 1 1 = s.pdpt 1 1) (hpde : s'.pde 1 0 = s.pde 1 0)
    (hmapped : ∀ n, s'.mapped (kernelPage n) = s.mapped (kernelPage n)) (hpool : s'.pool = s.pool) :
    SameKernel s s' := by
  refine ⟨fun N ht => ?_, hmapped, hpool, fun g hg => ?_⟩
  · exact ⟨hpml4 ▸ ht.pml4, hpdpt ▸ ht.pdpt, hbeyond.trans ht.beyond, ht.pos, ht.le,
      fun k hk => hpde ▸ ht.pde k hk⟩
  · unfold TableFrame at hg ⊢
    rwa [hpml4, hpdpt, hpde] at hg

theorem UserSide.same (h : UserSide s s') : SameKernel s s' :=
  .of_eq (h.pml4 1 Nat.one_ne_zero) (congrFun (h.pdpt 1 Nat.one_ne_zero) 0)
    (congrFun (h.pdpt 1 Nat.one_ne_zero) 1) (congrFun (h.pde 1 Nat.one_ne_zero) 0) h.kernelPage h.pool

theorem PoolCore.same (h : PoolCore s T out) (hs : SameKernel s s') (hf : FrameInv s' T')
    (hT : ∀ n < gib, ∀ e, s.mapped (kernelPage n) = some e → T e.frame → T' e.frame) :
    PoolCore s' T' out := by
  have hnot : ∀ m, NotPooled s m → NotPooled s' m := by
    intro m hm i hi
    rw [hs.pool]
    exact hm i hi
  constructor
  case tables =>
    obtain ⟨N, hN⟩ := h.tables
    exact ⟨N, hs.tables N hN⟩
  case frames => exact hf
  case boot =>
    intro n hn
    rw [hs.mapped]
    exact h.boot n hn
  case held =>
    intro n hn e he
    rw [hs.mapped] at he
    exact hT n hn e he (h.held n hn e he)
  case sole =>
    intro m hm n hn e e' he he'
    rw [hs.mapped] at he he'
    exact h.sole m hm n hn e e' he he'
  case low =>
    intro n hn h512 e he
    rw [hs.mapped] at he
    exact h.low n hn h512 e he
  case stock =>
    intro i hi hne
    rw [hs.pool] at hne ⊢
    obtain ⟨n, hn, hpool, hmapped⟩ := h.stock i hi hne
    exact ⟨n, hn, hpool, by rwa [hs.mapped]⟩
  case distinct =>
    rw [hs.pool]
    exact h.distinct
  case added =>
    rw [hs.pool]
    exact h.added
  case handed =>
    intro n hn
    obtain ⟨hgib, hmapped, hpooled⟩ := h.handed n hn
    exact ⟨hgib, by rwa [hs.mapped], hnot n hpooled⟩
  case tableFrames =>
    intro g hg
    obtain ⟨m, hm, e, he, heg, hout, hpooled⟩ := h.tableFrames g (hs.table g hg)
    exact ⟨m, hm, e, by rwa [hs.mapped], heg, hout, hnot m hpooled⟩

theorem PoolCore.weaken (h : PoolCore s T out) (hout : ∀ n, out' n → out n) : PoolCore s T out' where
  tables := h.tables
  frames := h.frames
  boot := h.boot
  held := h.held
  sole := h.sole
  low := h.low
  stock := h.stock
  distinct := h.distinct
  added := h.added
  handed n hn := h.handed n (hout n hn)
  tableFrames g hg := by
    obtain ⟨m, hm, e, he, heg, hnot, hpooled⟩ := h.tableFrames g hg
    exact ⟨m, hm, e, he, heg, fun hm' => hnot (hout m hm'), hpooled⟩

theorem PoolInv.sound (h : PoolInv s T out) : PoolCore s T fun _ => False :=
  h.core.weaken fun _ hf => hf.elim

theorem PoolInv.user (h : PoolInv s T out) (hu : UserSide s s') : PoolInv s' T out := by
  have hframes : FrameInv s' T := h.core.frames.of_marked
    (by rw [hu.chain]; exact h.core.frames.nonempty) hu.marked
  refine ⟨h.core.same hu.same hframes fun _ _ _ _ hT => hT, ?_, hu.calling.trans h.calling, h.high⟩
  rw [hu.pool]
  exact h.full

theorem Prepared.user (h : Prepared s k) (hu : UserSide s s') : Prepared s' k := by
  unfold Prepared MoreTables RoomyPages at h ⊢
  rw [hu.pool, hu.pde 1 Nat.one_ne_zero]
  refine h.imp_right (Or.imp_left ?_)
  rintro ⟨F, hcard, hF⟩
  refine ⟨F, hcard, fun n hn => ?_⟩
  rw [hu.pt (kernelPage n) Nat.one_ne_zero]
  exact hF n hn

theorem userSide_linkPml4 (s : Pager) (M : Entry) : UserSide s (linkPml4 0 M s) :=
  ⟨fun _ hi => Function.update_of_ne hi _ _, fun _ hi => Function.update_of_ne hi _ _,
    fun _ _ => rfl, fun _ _ => rfl, rfl, rfl, rfl⟩

theorem userSide_linkPdpt (s : Pager) (j : Nat) (M : Entry) : UserSide s (linkPdpt 0 j M s) :=
  ⟨fun _ _ => rfl, fun _ hi => Function.update_of_ne hi _ _,
    fun _ hi => Function.update_of_ne hi _ _, fun _ _ => rfl, rfl, rfl, rfl⟩

theorem userSide_linkPde (s : Pager) (j k : Nat) (M : Entry) : UserSide s (linkPde 0 j k M s) :=
  ⟨fun _ _ => rfl, fun _ _ => rfl, fun _ hi => Function.update_of_ne hi _ _,
    fun _ hp => if_neg fun hc => hp hc.1, rfl, rfl, rfl⟩

theorem userSide_setPt (s : Pager) {p : Page} (hp : p.pml4 = 0) (e : Option Entry) :
    UserSide s (setPt p e s) := by
  refine ⟨fun _ _ => rfl, fun _ _ => rfl, fun _ _ => rfl, fun q hq => ?_, rfl, rfl, rfl⟩
  refine Function.update_of_ne ?_ _ _
  rintro rfl
  exact hq hp

/-! ## A frame for a task -/

theorem PoolCore.drop {a : Nat} (h : PoolCore s T out) (ha : a < 512) : PoolCore (s.pop a) T out := by
  by_cases hzero : s.pool a = 0
  · have hsame : s.pop a = s := by
      rw [Pager.pop, ← hzero, Function.update_eq_self]
    rwa [hsame]
  · obtain ⟨n, hn, hpool, -⟩ := h.stock a ha hzero
    exact (h.pop ha hn hpool).weaken fun _ => .inr

theorem SameTables.same (h : SameTables s s') (hpool : s'.pool = s.pool) : SameKernel s s' :=
  .of_eq (congrFun h.pml4 1) (by rw [h.pdpt]) (by rw [h.pdpt]) (by rw [h.pde])
    (fun n => h.mapped _) hpool

/-- The pages that slots have been emptied of are gone. -/
theorem PoolCore.popped {pool : Nat → UInt64} (h : PoolCore s T out) (hp : Pops k s.pool pool) :
    PoolCore { s with pool := pool } T out := by
  generalize hq : s.pool = start at hp
  induction hp generalizing s with
  | none =>
      subst hq
      exact h
  | @next q a pool pool' hfind _ ih =>
      subst hq
      exact ih (s := s.pop a) (h.drop (pop_bound hfind).1) rfl

theorem PoolCore.took {c : Nat} (h : PoolCore s T out) (ht : TookFrame s t T f c) :
    PoolCore t (fun m => m = f ∨ T m) out := by
  have htab := ht.tables
  have htables : SameTables { s with pool := t.pool } t := ⟨htab.pml4, htab.pdpt, htab.pde, htab.pt⟩
  exact (h.popped ht.pops).same (htables.same rfl) ht.frames fun _ _ _ _ => .inr

theorem PoolInv.took {c : Nat} (h : PoolInv s T out) (ht : TookQuietly s t T f c) :
    PoolInv t (fun m => m = f ∨ T m) out := by
  refine ⟨h.core.took ht.took, fun j hj hj' => ?_, ht.took.calling.trans h.calling, h.high⟩
  rcases ht.low with ⟨-, hpool⟩ | ⟨a, ha, hpool⟩
  · rw [hpool]
    exact h.full j hj hj'
  · rw [hpool, Function.update_of_ne (by omega)]
    exact h.full j hj hj'

theorem Prepared.same (h : Prepared s k) (hs : SameTables s t) (hpool : t.pool = s.pool) :
    Prepared t k := by
  unfold Prepared MoreTables RoomyPages at h ⊢
  rwa [hs.pde, hs.pt, hpool]

theorem Prepared.took {c : Nat} (h : Prepared s (k + 1)) (ht : TookQuietly s t T f c) :
    Prepared t k := by
  have htables := ht.took.tables
  rcases h with ⟨j, hj, hnone⟩ | ⟨F, hcard, hF⟩ | hslots
  · exact .inl ⟨j, hj, by rw [htables.pde]; exact hnone⟩
  · refine .inr (.inl ⟨F, hcard, fun n hn => ?_⟩)
    rw [htables.pde, htables.pt]
    exact hF n hn
  · refine .inr (.inr ?_)
    rcases ht.low with ⟨-, hpool⟩ | ⟨a, -, hpool⟩
    · rw [hpool]
      omega
    · have hle := lowSlots_update s.pool a
      rw [hpool]
      omega

/-! ## Tables for a task -/

theorem Prepared.mono (h : Prepared s k) (hle : i ≤ k) : Prepared s i :=
  h.imp_right (Or.imp_right hle.trans)

/-- How many tables are missing on the way to the page. -/
def Pager.missingTables (s : Pager) (p : Page) : Nat :=
  if s.pml4 p.pml4 = none then 3
  else if s.pdpt p.pml4 p.pdpt = none then 2
  else if s.pde p.pml4 p.pdpt p.pde = none then 1
  else 0

theorem missingTables_le (s : Pager) (p : Page) : s.missingTables p ≤ 3 := by
  unfold Pager.missingTables
  split
  · exact Nat.le_refl 3
  · split
    · decide
    · split
      · decide
      · decide

theorem missingTables_of_pml4 {p : Page} (h : s.pml4 p.pml4 ≠ none) : s.missingTables p ≤ 2 := by
  rw [Pager.missingTables, if_neg h]
  split
  · exact Nat.le_refl 2
  · split
    · decide
    · decide

theorem missingTables_of_pdpt {p : Page} (h : s.pml4 p.pml4 ≠ none)
    (h' : s.pdpt p.pml4 p.pdpt ≠ none) : s.missingTables p ≤ 1 := by
  rw [Pager.missingTables, if_neg h, if_neg h']
  split
  · exact Nat.le_refl 1
  · decide

/-- A frame for the page is free, or the bitmap gets its page without a refill, and the tables that are
missing can be made. -/
def Granted (s : Pager) (p : Page) : Prop :=
  ∃ b, (b = 0 ∧ RoomyFrames s 1 ∨ b = 1 ∧ 0 < lowSlots s.pool) ∧ Prepared s (b + s.missingTables p)

theorem Framed.granted {p : Page} (h : Framed s 1) (hp : Prepared s 4) : Granted s p := by
  have hmissing := missingTables_le s p
  by_cases hroom : RoomyFrames s 1
  · exact ⟨0, .inl ⟨rfl, hroom⟩, hp.mono (by omega)⟩
  · obtain ⟨a, ha, hfind⟩ := h.slot hroom
    have hslot : ∀ j, a ≤ j → j < a + 1 → s.pool j ≠ 0 := by
      intro j hj hlt
      obtain rfl : j = a := by omega
      exact (pop_bound hfind).2.1
    have hlow : a + 1 - a ≤ lowSlots s.pool := slotsBelow_of_filled (by omega) hslot
    exact ⟨1, .inr ⟨rfl, by omega⟩, hp.mono (by omega)⟩

/-- The pages handed out are still sound, and so many calls of `KPALLOC` can follow. -/
structure Ready (s : Pager) (out : Nat → Prop) (k : Nat) : Prop where
  inv : ∃ T out', (∀ n, out n → out' n) ∧ PoolInv s T out'
  prepared : Prepared s k

theorem Ready.user (h : Ready s out k) (hu : UserSide s s') : Ready s' out k := by
  obtain ⟨T, out', hout, hinv⟩ := h.inv
  exact ⟨⟨T, out', hout, hinv.user hu⟩, h.prepared.user hu⟩

theorem Ready.mono (h : Ready s out k) (hle : i ≤ k) : Ready s out i :=
  ⟨h.inv, h.prepared.mono hle⟩

/-- In the first GiB `V2P` finds the frame of the page. -/
theorem newTable_in_gib {kpalloc : PageM UInt64} {Q : Pager → Prop} (flags : UInt8)
    (h : Ends kpalloc s (fun v t => (∃ n < gib, v = kernelAddress n ∧
      t.mapped (kernelPage n) ≠ none) ∧ Q t) fun _ _ => False) :
    Ends (newTable kpalloc flags) s (fun _ t => Q t) fun _ _ => False := by
  refine h.bind ?_
  rintro _ t ⟨⟨n, hn, rfl, hmapped⟩, hQ⟩
  obtain ⟨e, he⟩ := Option.ne_none_iff_exists'.mp hmapped
  have hframe : t.v2pFrame (kernelAddress n) = e.frame := by
    rw [Pager.v2pFrame, v2pPage_kernelAddress hn, he]
  have hsome : ¬ (t.mapped (pageOf (kernelAddress n))).map Entry.frame ≠
      some (t.v2pFrame (kernelAddress n)) := by
    rw [hframe, pageOf_kernelAddress hn, he]
    exact fun hne => hne rfl
  rw [ends_bind, ends_get, if_neg hsome, ends_pure]
  exact hQ

theorem Ready.newTable (h : Ready s out (k + 1)) (hk : k ≤ 29) (flags : UInt8) :
    Ends (newTable KPALLOC flags) s (fun _ s' => Ready s' out k ∧ KernelSide s s')
      fun _ _ => False := by
  obtain ⟨T, out', hout, hinv⟩ := h.inv
  have hcall := (hinv.kpalloc_prepared h.prepared hk).and (respects_KPALLOC s)
  refine newTable_in_gib flags (hcall.mono ?_ fun _ _ hf => hf.1)
  rintro _ t ⟨⟨n, rfl, hn, hp⟩, hside⟩
  obtain ⟨T', hT'⟩ := hn.inv
  exact ⟨⟨n, hn.page, rfl, (hT'.core.handed n (.inl rfl)).2.1⟩,
    ⟨⟨T', _, fun m hm => .inr (hout m hm), hT'⟩, hp⟩, hside⟩

section UserTables

variable {p : Page}

theorem Ready.ensurePml4 (h : Ready s out (s.missingTables p)) (hp : p.pml4 = 0) (flags : UInt8) :
    Ends (ensurePml4 KPALLOC flags 0) s
      (fun _ s' => Ready s' out (s'.missingTables p) ∧ s'.pml4 p.pml4 ≠ none) fun _ _ => False := by
  rw [Paging.ensurePml4, ends_bind, ends_get]
  split
  · rename_i hnone
    have hmissing : s.missingTables p = 2 + 1 := if_pos (hp ▸ hnone)
    refine ((hmissing ▸ h).newTable (by decide) flags).bind ?_
    rintro M t ⟨ht, -⟩
    rw [ends_modify]
    have hthere : (linkPml4 0 M t).pml4 p.pml4 ≠ none := by simp [linkPml4, hp]
    exact ⟨(ht.user (userSide_linkPml4 t M)).mono (missingTables_of_pml4 hthere), hthere⟩
  · rename_i hthere
    exact ends_pure.mpr ⟨h, hp ▸ hthere⟩

theorem Ready.ensurePdpt (h : Ready s out (s.missingTables p)) (hp : p.pml4 = 0)
    (hpml4 : s.pml4 p.pml4 ≠ none) (flags : UInt8) :
    Ends (ensurePdpt KPALLOC flags 0 p.pdpt) s
      (fun _ s' => Ready s' out (s'.missingTables p) ∧ s'.pml4 p.pml4 ≠ none ∧
        s'.pdpt p.pml4 p.pdpt ≠ none) fun _ _ => False := by
  rw [Paging.ensurePdpt, ends_bind, ends_get]
  split
  · rename_i hnone
    have hmissing : s.missingTables p = 1 + 1 := by
      rw [Pager.missingTables, if_neg hpml4, if_pos (hp ▸ hnone)]
    refine ((hmissing ▸ h).newTable (by decide) flags).bind ?_
    rintro M t ⟨ht, hside⟩
    rw [ends_modify]
    have hpml4' : (linkPdpt 0 p.pdpt M t).pml4 p.pml4 ≠ none := by
      change t.pml4 p.pml4 ≠ none
      rw [hp, hside.pml4, ← hp]
      exact hpml4
    have hthere : (linkPdpt 0 p.pdpt M t).pdpt p.pml4 p.pdpt ≠ none := by simp [linkPdpt, hp]
    exact ⟨(ht.user (userSide_linkPdpt t p.pdpt M)).mono (missingTables_of_pdpt hpml4' hthere),
      hpml4', hthere⟩
  · rename_i hthere
    exact ends_pure.mpr ⟨h, hpml4, hp ▸ hthere⟩

theorem Ready.ensurePde (h : Ready s out (s.missingTables p)) (hp : p.pml4 = 0)
    (hpml4 : s.pml4 p.pml4 ≠ none) (hpdpt : s.pdpt p.pml4 p.pdpt ≠ none) (flags : UInt8) :
    Ends (ensurePde KPALLOC flags 0 p.pdpt p.pde) s (fun _ s' => Ready s' out 0)
      fun _ _ => False := by
  rw [Paging.ensurePde, ends_bind, ends_get]
  split
  · rename_i hnone
    have hmissing : s.missingTables p = 0 + 1 := by
      rw [Pager.missingTables, if_neg hpml4, if_neg hpdpt, if_pos (hp ▸ hnone)]
    refine ((hmissing ▸ h).newTable (by decide) flags).bind ?_
    rintro M t ⟨ht, -⟩
    rw [ends_modify]
    exact ht.user (userSide_linkPde t p.pdpt p.pde M)
  · exact ends_pure.mpr (h.mono (Nat.zero_le _))

end UserTables

/-- Behind the frame the tables can still be made. -/
theorem Granted.ready {p : Page} {b c : Nat} (h : PoolInv s T out)
    (hb : b = 0 ∧ RoomyFrames s 1 ∨ b = 1 ∧ 0 < lowSlots s.pool)
    (hp : Prepared s (b + s.missingTables p)) (ht : TookQuietly s t T f c) :
    Ready t out (t.missingTables p) := by
  have htables := ht.took.tables
  have hsame : t.missingTables p = s.missingTables p := by
    rw [Pager.missingTables, Pager.missingTables, htables.pml4, htables.pdpt, htables.pde]
  refine ⟨⟨_, out, fun _ hn => hn, h.took ht⟩, ?_⟩
  rw [hsame]
  rcases hb with ⟨rfl, hroom⟩ | ⟨rfl, -⟩
  · rcases ht.took.room with ⟨rfl, -⟩ | ⟨-, hnone, -⟩
    · have hpool : t.pool = s.pool := ht.took.pops.zero
      rw [Nat.zero_add] at hp
      exact hp.same htables hpool
    · exact absurd hroom hnone
  · rw [Nat.add_comm] at hp
    exact hp.took ht

/-- `UPALLOC` of one page. -/
theorem PoolInv.user_alsp {v : UInt64} (h : PoolInv s T out) (flags : UInt8)
    (hv : (pageOf v).pml4 = 0) (hg : Granted s (pageOf v)) :
    Ends (ALSP v flags 0x7 0x5) s (fun _ s' => Ready s' out 0)
      fun e _ => e = .error .ptExistsAlready v := by
  obtain ⟨b, hb, hp⟩ := hg
  have hslot : ¬ RoomyFrames s 1 → ∃ a < 32,
      (List.range 512).find? (fun i => s.pool i ≠ 0) = some a := by
    intro hnone
    rcases hb with ⟨-, hroom⟩ | ⟨-, hpos⟩
    · exact absurd hroom hnone
    · exact exists_slot (by decide) hpos
  rw [ALSP, hv]
  refine ((h.takes hslot).mono (fun _ _ h => h) fun _ _ hf => hf.elim).bind fun f u hu => ?_
  refine (hu.mono (fun _ _ h => h) fun _ _ hf => hf.elim).bind ?_
  rintro _ t ⟨c, ht⟩
  have hready := Granted.ready h hb hp ht
  refine ((hready.ensurePml4 hv 0x7).mono (fun _ _ h => h) fun _ _ hf => hf.elim).bind ?_
  rintro _ t₁ ⟨h₁, hpml4⟩
  refine ((h₁.ensurePdpt hv hpml4 0x7).mono (fun _ _ h => h) fun _ _ hf => hf.elim).bind ?_
  rintro _ t₂ ⟨h₂, hpml4', hpdpt⟩
  refine ((h₂.ensurePde hv hpml4' hpdpt 0x7).mono (fun _ _ h => h) fun _ _ hf => hf.elim).bind
    fun _ t₃ h₃ => ?_
  rw [ends_bind, ends_get]
  split
  · exact ends_throw.mpr rfl
  · rw [ends_modify]
    exact h₃.user (userSide_setPt t₃ hv _)

/-- `P_FREE` of one page. -/
theorem PoolInv.user_free {v : UInt64} (h : PoolInv s T out) (hv : (pageOf v).pml4 = 0)
    (hf : UserFrame s (s.v2pFrame v)) :
    Ends (P_FREE v) s (fun _ s' => ∃ T', PoolInv s' T' out) fun _ _ => False := by
  have hcovers := covers_of_marked hf.marked
  rw [P_FREE, ends_bind, ends_get]
  refine (plSv_spec hcovers).bind ?_
  rintro _ t rfl
  rw [ends_modify]
  have hstore := h.core.frames.store (v := false) hcovers hf.low
  have hsame : SameKernel s (s.withFrame (s.v2pFrame v) false) :=
    ⟨fun _ ht => ⟨ht.pml4, ht.pdpt, ht.beyond, ht.pos, ht.le, ht.pde⟩, fun _ => rfl, rfl,
      fun _ hg => hg⟩
  have hcore := h.core.same hsame hstore fun n hn e he hT => by
    rw [if_neg (hf.user _ (kernelPage_kernel hn) e he)]
    exact hT
  have hinv : PoolInv (s.withFrame (s.v2pFrame v) false) _ out := ⟨hcore, h.full, h.calling, h.high⟩
  exact ⟨_, hinv.user (userSide_setPt _ hv none)⟩

/-! ## Runs -/

/-- The pages that are out are no longer in the pool, nor needed for a table. -/
structure KernelState.Inv (s : KernelState) : Prop where
  pager : ∃ T out, PoolInv s.pager T out ∧ ∀ v ∈ s.out, ∃ n, v = kernelAddress n ∧ out n

theorem KernelState.Inv.start (hT : PoolInv t T fun _ => False) : (KernelState.start t).Inv :=
  ⟨T, _, hT, fun _ hv => absurd hv (Set.notMem_empty _)⟩

theorem KernelState.Inv.allocs {s s' : KernelState} (h : s.Inv)
    (hm : KernelOp.Meets s (.allocs n)) (hs : KernelOp.step s (.allocs n) s') : s'.Inv := by
  obtain ⟨T, out, hinv, hout⟩ := h.pager
  obtain ⟨rounds, v, hex, hout'⟩ := hs
  obtain ⟨hn, hstocked, hrun⟩ := hm
  have hends := hinv.kpallocs_any hn hstocked hrun rounds
  rw [Ends, hex] at hends
  obtain ⟨-, b, hb, rfl, T', hT'⟩ := hends
  refine ⟨T', _, hT', fun w hw => ?_⟩
  rw [hout'] at hw
  rcases hw with hw | ⟨i, hi, rfl⟩
  · obtain ⟨m, hwm, hm'⟩ := hout w hw
    exact ⟨m, hwm, .inr hm'⟩
  · exact ⟨b + i, kernelAddress_add (by omega), .inl ⟨by omega, by omega⟩⟩

theorem KernelState.Inv.step {s s' : KernelState} {op : KernelOp} (h : s.Inv)
    (hm : op.Meets s) (hs : op.step s s') : s'.Inv := by
  obtain ⟨T, out, hinv, hout⟩ := h.pager
  cases op with
  | allocs size => exact h.allocs hm hs
  | free v =>
      obtain ⟨hv, hfree, hout'⟩ := hs
      obtain ⟨n, rfl, hn⟩ := hout v hv
      have hends := hinv.p_free hn
      rw [Ends, hfree] at hends
      obtain ⟨⟨T', hT'⟩, -, -⟩ := hends
      refine ⟨T', _, hT', fun w hw => ?_⟩
      rw [hout'] at hw
      obtain ⟨m, rfl, hm'⟩ := hout w hw.1
      refine ⟨m, rfl, hm', ?_⟩
      rintro rfl
      exact hw.2 rfl
  | user v flags =>
      obtain ⟨hv, halsp, hout'⟩ := hs
      have hends := hinv.user_alsp flags hv (hm.1.granted hm.2)
      rw [Ends, halsp] at hends
      obtain ⟨T', out', hsub, hT'⟩ := hends.inv
      refine ⟨T', out', hT', fun w hw => ?_⟩
      rw [hout'] at hw
      obtain ⟨m, hwm, hm'⟩ := hout w hw
      exact ⟨m, hwm, hsub m hm'⟩
  | userFree v =>
      obtain ⟨hv, hfree, hout'⟩ := hs
      have hends := hinv.user_free hv hm
      rw [Ends, hfree] at hends
      obtain ⟨T', hT'⟩ := hends
      exact ⟨T', out, hT', by rw [hout']; exact hout⟩
  | switch =>
      obtain ⟨hside, hout'⟩ := hs
      exact ⟨T, out, hinv.user hside, by rw [hout']; exact hout⟩

/-- With most of a page table free, two pages in a row are. -/
theorem SetUp.two_pages {s₀ : Pager} (h : SetUp s₀ s) : HasRun s 2 := by
  obtain ⟨F, hcard, hF⟩ := h.room
  obtain ⟨N, hN, ht⟩ := h.tables
  obtain ⟨T, hT⟩ := h.inv
  have hrange : ∀ n ∈ F, n / 2 ∈ Finset.Ico 256 512 := by
    intro n hn
    obtain ⟨hgib, htable, hfree⟩ := hF n hn
    have hlt := (ht.pde (n / 512) (kernelPage_inTables hgib).pde).mp htable
    have hge : 512 ≤ n := hT.absent_high ⟨htable, hfree⟩
    exact Finset.mem_Ico.mpr (by omega)
  have hmany : (Finset.Ico 256 512).card < F.card := by
    rw [Nat.card_Ico]
    omega
  obtain ⟨n, hn, m, hm, hne, hhalf⟩ :=
    Finset.exists_ne_map_eq_of_card_lt_of_maps_to hmany fun n hn => hrange n hn
  have hmem : 2 * (n / 2) ∈ F ∧ 2 * (n / 2) + 1 ∈ F := by
    rcases Nat.mod_two_eq_zero_or_one n with h0 | h1
    · have hn' : 2 * (n / 2) = n := by omega
      have hm' : 2 * (n / 2) + 1 = m := by omega
      exact ⟨by rw [hn']; exact hn, by rw [hm']; exact hm⟩
    · have hm' : 2 * (n / 2) = m := by omega
      have hn' : 2 * (n / 2) + 1 = n := by omega
      exact ⟨by rw [hm']; exact hm, by rw [hn']; exact hn⟩
  refine ⟨2 * (n / 2), ?_, fun i hi => ?_⟩
  · have hlt := (hF _ hmem.2).1
    omega
  · rcases Nat.lt_succ_iff_lt_or_eq.mp hi with h0 | rfl
    · obtain rfl := Nat.lt_one_iff.mp h0
      exact (hF _ hmem.1).2
    · exact (hF _ hmem.2).2

/-- The setup leaves absent entries in the second page table only. -/
theorem SetUp.second (h : SetUp bootTables s) {v : UInt64} (hex : s.doesPDEEExist v = true) :
    v.toNat / 2097152 % 512 = 1 := by
  obtain ⟨N, hN, ht⟩ := h.tables
  obtain ⟨T, hinv⟩ := h.inv
  rw [Pager.doesPDEEExist, pageOf_eq, decide_eq_true_iff] at hex
  dsimp only at hex
  obtain ⟨hpml4, hpdpt, hpde, hpt⟩ := hex
  have hone : v.toNat / 549755813888 % 512 = 1 := by
    rw [h.pml4] at hpml4
    by_contra hne
    by_cases hzero : v.toNat / 549755813888 % 512 = 0
    · rw [hzero, Function.update_self] at hpml4
      exact hpml4 rfl
    · rw [Function.update_of_ne hzero] at hpml4
      exact hpml4 (if_neg (by omega))
  have hfirst : v.toNat / 1073741824 % 512 = 0 := by
    rw [h.pdpt] at hpdpt
    by_contra hne
    exact hpdpt (if_neg fun hc => hne hc.2)
  rw [hone, hfirst] at hpde hpt
  have hlt := (ht.pde _ (Nat.mod_lt _ (by decide))).mp hpde
  by_contra hne
  -- the first page table is full
  have hboot : Absent s (v.toNat / 4096 % 512) := by
    have hzero : v.toNat / 2097152 % 512 = 0 := by omega
    have hdiv : v.toNat / 4096 % 512 / 512 = 0 := Nat.div_eq_of_lt (Nat.mod_lt _ (by decide))
    rw [hzero] at hpde hpt
    rw [Absent, kernelPage, hdiv, Nat.mod_mod]
    exact ⟨hpde, hpt⟩
  exact absurd (hinv.absent_high hboot) (Nat.not_le_of_lt (Nat.mod_lt _ (by decide)))

theorem SetUp.no_run (h : SetUp bootTables s) (rounds : Nat) :
    s.findRun 513 rounds MBASE 0 = none := by
  by_contra hne
  obtain ⟨v, hfind⟩ := Option.ne_none_iff_exists'.mp hne
  have hrun := findRun_sound hfind fun i hi => absurd hi (Nat.not_lt_zero i)
  have hfrom := h.second (hrun 0 (by decide))
  have hlast := h.second (hrun 512 (by decide))
  have hzero : (v + .ofNat (0 <<< 12)).toNat = v.toNat := by
    rw [UInt64.toNat_add]
    exact Nat.mod_eq_of_lt v.toNat_lt
  have hstep : (UInt64.ofNat (512 <<< 12)).toNat = 2097152 := by decide
  rw [hzero] at hfrom
  rw [UInt64.toNat_add, hstep] at hlast
  omega

end UnnamedOS.Paging
