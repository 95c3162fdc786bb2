import Mathlib.Order.Interval.Finset.Nat
import UnnamedOS.Paging.KernelPages

/-!
# One call of KP_ALLOC3

What it does to the first GiB, the bitmap and the pool. Nested calls of `KPALLOC` take pages out of
the pool: one when every frame of the bitmap is taken, and one when all page tables are full.
-/

namespace UnnamedOS.Paging

open UnnamedOS.Lib

/-- A frame has been taken, with `c` pages of the pool for the bitmap. -/
structure TookFrame (s t : Pager) (T : Nat → Prop) (f c : Nat) : Prop where
  tables : SameTables s t
  calling : t.paCalling = s.paCalling
  pops : Pops c s.pool t.pool
  free : ¬ T f ∧ f % 64 ≤ 31 ∧ t.Covers f
  frames : FrameInv t fun m => m = f ∨ T m
  covers : ∀ m, s.Covers m → t.Covers m
  room : c = 0 ∧ (∀ m, RoomyFrames s (m + 1) → RoomyFrames t m) ∨
    c = 1 ∧ ¬ RoomyFrames s 1 ∧ RoomyFrames t 16351

/-- The frame of a table. -/
def TableFrame (s : Pager) (f : Nat) : Prop :=
  (∃ e, s.pml4 1 = some e ∧ e.frame = f) ∨ (∃ e, s.pdpt 1 0 = some e ∧ e.frame = f) ∨
    ∃ k < 512, ∃ e, s.pde 1 0 k = some e ∧ e.frame = f

/-- A page that has left the pool. -/
def TakenFrom (s s' : Pager) (n : Nat) : Prop :=
  n < gib ∧ ∃ i < 512, s.pool i = kernelAddress n ∧ s'.pool i = 0

/-- The first GiB can get another page table. -/
def MoreTables (s : Pager) : Prop := ∃ k < 512, s.pde 1 0 k = none

/-- What is mapped and what is marked stays so, and the new pages hold frames that were free, each one
its own. -/
structure TakesFree (s s' : Pager) : Prop where
  stays : ∀ p e, s.mapped p = some e → s'.mapped p = some e
  marks : ∀ m, s.marked m = true → s'.marked m = true
  fresh : ∀ p e, s.mapped p = none → s'.mapped p = some e →
    s.marked e.frame = false ∧ s'.marked e.frame = true
  sole : ∀ p q e e', s.mapped p = none → s.mapped q = none → s'.mapped p = some e →
    s'.mapped q = some e' → e.frame = e'.frame → p = q

/-- A frame that was free has been marked. -/
structure MarksFrame (s t : Pager) (f : Nat) : Prop where
  mapped : ∀ p, t.mapped p = s.mapped p
  marks : ∀ m, s.marked m = true → t.marked m = true
  free : s.marked f = false
  marked : t.marked f = true

/-- The first GiB has got at most `d` page tables, and nothing has changed elsewhere. -/
structure AddsTables (s s' : Pager) (d : Nat) : Prop where
  pml4 : s'.pml4 = s.pml4
  pdpt : s'.pdpt = s.pdpt
  pde : ∀ i j, ¬ (i = 1 ∧ j = 0) → s'.pde i j = s.pde i j
  pt : ∀ p : Page, ¬ (p.pml4 = 1 ∧ p.pdpt = 0) → s'.pt p = s.pt p
  count : ∀ N, KernelTables s N → ∃ N' ≤ N + d, N ≤ N' ∧ KernelTables s' N'

/-- `q` pages have been mapped, in the page tables that there were or in a new one. -/
def PagesLeft (s s' : Pager) (q : Nat) : Prop :=
  s'.pde 1 0 = s.pde 1 0 ∧ (∀ m, RoomyPages s (m + q) → RoomyPages s' m) ∨ RoomyPages s' (512 - q)

/-- The page `n` has been mapped to the frame `f`, with `c` pages of the pool for the bitmap and `d`
for page tables. -/
structure Allocates (s s' : Pager) (T : Nat → Prop) (n f c d : Nat) : Prop where
  page : n < gib
  fresh : s.mapped (kernelPage n) = none
  mapped : s'.mapped (kernelPage n) = some ⟨f, 1⟩
  others : ∀ m < gib, m ≠ n → s'.mapped (kernelPage m) = s.mapped (kernelPage m)
  calling : s'.paCalling = false
  tables : ∃ N, KernelTables s' N
  pops : Pops (c + d) s.pool s'.pool
  frame : ¬ T f ∧ f % 64 ≤ 31 ∧ s'.Covers f
  frames : FrameInv s' fun m => m = f ∨ T m
  covers : ∀ m, s.Covers m → s'.Covers m
  frameRoom : c = 0 ∧ (∀ m, RoomyFrames s (m + 1) → RoomyFrames s' m) ∨
    c = 1 ∧ ¬ RoomyFrames s 1 ∧ RoomyFrames s' 16351
  pageRoom : d = 0 ∧ (∀ m, RoomyPages s (m + 1) → RoomyPages s' m) ∧ (MoreTables s → MoreTables s') ∨
    d = 1 ∧ ¬ RoomyPages s 1 ∧ RoomyPages s' 64
  left : PagesLeft s s' 1
  table : ∀ g, TableFrame s' g → TableFrame s g ∨
    ∃ m e, TakenFrom s s' m ∧ s.mapped (kernelPage m) = some e ∧ e.frame = g
  adds : AddsTables s s' d
  takes : TakesFree s s'

variable {s s' t : Pager} {N n m f a c d q : Nat} {pool pool' : Nat → UInt64}
  {kpAlloc3 : PageM UInt64} {T : Nat → Prop}

/-! ## Slots -/

theorem Pops.fewer (h : Pops q pool pool') (i : Nat) : pool' i = pool i ∨ pool' i = 0 := by
  induction h with
  | none => exact .inl rfl
  | @next q a pool pool' _ _ ih =>
      rcases ih with hsame | hzero
      · by_cases hia : i = a
        · subst hia
          exact .inr (hsame.trans (Function.update_self ..))
        · exact .inl (hsame.trans (Function.update_of_ne hia ..))
      · exact .inr hzero

theorem Pops.append {r : Nat} {pool'' : Nat → UInt64} (h : Pops q pool pool')
    (h' : Pops r pool' pool'') : Pops (q + r) pool pool'' := by
  induction h with
  | none =>
      rw [Nat.zero_add]
      exact h'
  | @next q a pool pool' hfind _ ih =>
      rw [Nat.succ_add_eq_add_succ]
      exact .next hfind (ih h')

theorem slotsBelow_update (k : Nat) (pool : Nat → UInt64) (a : Nat) (v : UInt64) :
    slotsBelow k pool ≤ slotsBelow k (Function.update pool a v) + 1 := by
  have hsub : ((Finset.range k).filter fun i => pool i ≠ 0).erase a ⊆
      (Finset.range k).filter fun i => Function.update pool a v i ≠ 0 := by
    intro i hi
    obtain ⟨hne, hmem⟩ := Finset.mem_erase.mp hi
    obtain ⟨hlt, hfull⟩ := Finset.mem_filter.mp hmem
    refine Finset.mem_filter.mpr ⟨hlt, ?_⟩
    rwa [Function.update_of_ne hne]
  have hcard := Finset.card_le_card hsub
  have hpred := Finset.pred_card_le_card_erase
    (s := (Finset.range k).filter fun i => pool i ≠ 0) (a := a)
  unfold slotsBelow
  omega

theorem slotsBelow_fill {v : UInt64} (hv : v ≠ 0) (k : Nat) (pool : Nat → UInt64) (a : Nat) :
    slotsBelow k pool ≤ slotsBelow k (Function.update pool a v) := by
  refine Finset.card_le_card fun i hi => ?_
  obtain ⟨hlt, hfull⟩ := Finset.mem_filter.mp hi
  refine Finset.mem_filter.mpr ⟨hlt, ?_⟩
  by_cases hia : i = a
  · rw [hia, Function.update_self]
    exact hv
  · rwa [Function.update_of_ne hia]

theorem slotsBelow_of_filled {k lo hi : Nat} (hle : hi ≤ k)
    (h : ∀ j, lo ≤ j → j < hi → pool j ≠ 0) : hi - lo ≤ slotsBelow k pool := by
  have hsub : Finset.Ico lo hi ⊆ (Finset.range k).filter fun i => pool i ≠ 0 := by
    intro i hi
    obtain ⟨hlo, hlt⟩ := Finset.mem_Ico.mp hi
    exact Finset.mem_filter.mpr ⟨Finset.mem_range.mpr (by omega), h i hlo hlt⟩
  have hcard := Finset.card_le_card hsub
  rwa [Nat.card_Ico] at hcard

/-- The lowest slot that is full. -/
theorem exists_slot {k : Nat} (hk : k ≤ 512) (h : 0 < slotsBelow k pool) :
    ∃ a < k, (List.range 512).find? (fun i => pool i ≠ 0) = some a := by
  obtain ⟨i, hi⟩ := Finset.card_pos.mp h
  obtain ⟨hlt, hne⟩ := Finset.mem_filter.mp hi
  have hik := Finset.mem_range.mp hlt
  have hsome : ((List.range 512).find? fun i => pool i ≠ 0).isSome := by
    rw [List.find?_isSome]
    exact ⟨i, List.mem_range.mpr (by omega), by simpa using hne⟩
  obtain ⟨a, hfind⟩ := Option.isSome_iff_exists.mp hsome
  obtain ⟨-, -, hbelow⟩ := pop_bound hfind
  refine ⟨a, ?_, hfind⟩
  by_contra hge
  exact hne (hbelow i (by omega))

theorem Pops.slotsBelow (h : Pops q pool pool') (k : Nat) :
    slotsBelow k pool ≤ slotsBelow k pool' + q := by
  induction h with
  | none => exact Nat.le_refl _
  | @next q a pool pool' _ _ ih =>
      have hone := slotsBelow_update k pool a 0
      omega

theorem Pops.one (h : (List.range 512).find? (fun i => pool i ≠ 0) = some a) :
    Pops 1 pool (Function.update pool a 0) := .next h (.none _)

/-! ## The frame -/

theorem RoomyFrames.first (h : RoomyFrames s 1) (hfirst : s.FirstFree f) : s.Covers f := by
  obtain ⟨F, hcard, hF⟩ := h
  obtain ⟨g, hg⟩ := Finset.card_pos.mp hcard
  obtain ⟨hcovers, -, hfree⟩ := hF g hg
  have hle : f ≤ g := by
    by_contra hlt
    rw [hfirst.below g (Nat.lt_of_not_le hlt)] at hfree
    cases hfree
  unfold Pager.Covers at hcovers ⊢
  omega

/-- One frame of the room is taken. -/
theorem RoomyFrames.take (h : RoomyFrames s (m + 1)) (hs : FrameInv s T)
    (ht : FrameInv t fun m => m = f ∨ T m) (hcovers : ∀ m, s.Covers m → t.Covers m) :
    RoomyFrames t m := by
  obtain ⟨F, hcard, hF⟩ := h
  refine ⟨F.erase f, ?_, fun g hg => ?_⟩
  · have hpred := Finset.pred_card_le_card_erase (s := F) (a := f)
    omega
  · obtain ⟨hne, hmem⟩ := Finset.mem_erase.mp hg
    obtain ⟨hin, hlow, hfree⟩ := hF g hmem
    refine ⟨hcovers g hin, hlow, Bool.eq_false_of_not_eq_true fun hmarked => ?_⟩
    rcases (ht.low g hlow).mp hmarked with heq | hT
    · exact hne heq
    · have hset := (hs.low g hlow).mpr hT
      rw [hfree] at hset
      cases hset

/-- A new page of the bitmap has room for the 32 lower frames of each of its words, and one of them
has been taken. -/
theorem roomy_of_new_page (hfirst : s.FirstFree f) (hout : ¬ s.Covers f)
    (hchain : t.chain.length = s.chain.length + 1) (hs : FrameInv s T)
    (ht : FrameInv t fun m => m = f ∨ T m) : RoomyFrames t 16351 := by
  have hbase := (hfirst.full hs.nonempty hout).1
  refine ⟨(Finset.range 16351).image fun w => f + 64 * ((w + 1) / 32) + (w + 1) % 32, ?_,
    fun g hg => ?_⟩
  · rw [Finset.card_image_of_injective _ (fun v w h => by
      have h' : f + 64 * ((v + 1) / 32) + (v + 1) % 32 = f + 64 * ((w + 1) / 32) + (w + 1) % 32 := h
      omega), Finset.card_range]
  · obtain ⟨w, hw, rfl⟩ := Finset.mem_image.mp hg
    have hw' := Finset.mem_range.mp hw
    refine ⟨?_, by omega, Bool.eq_false_of_not_eq_true fun hmarked => ?_⟩
    · unfold Pager.Covers
      omega
    · rcases (ht.low _ (by omega)).mp hmarked with heq | hT
      · omega
      · have hcov := covers_of_marked ((hs.low _ (by omega)).mpr hT)
        unfold Pager.Covers at hcov
        omega

/-- The frame is marked, and at most one page more of the bitmap has been made for it. -/
theorem tookFrame (hstock : Stock s) (hframes : FrameInv s T)
    (hsupply : ¬ RoomyFrames s 1 → ∃ a,
      (List.range 512).find? (fun i => s.pool i ≠ 0) = some a ∧ (a < 32 ∨ s.paCalling = true)) :
    Ends (plFn (kpallocWith kpAlloc3)) s
      (fun f u => Ends (plSv (kpallocWith kpAlloc3) f true) u
        (fun _ t => ∃ c, TookFrame s t T f c) fun _ _ => False)
      fun _ _ => False := by
  have hpop : ∀ n, s.FirstFree n → ¬ s.Covers n → Ends (kpallocWith kpAlloc3) s
      (fun _ u => u.chain = s.chain ∧ ∃ a chain,
        (List.range 512).find? (fun i => s.pool i ≠ 0) = some a ∧
          u = { s.pop a with chain := chain })
      fun _ _ => False := by
    intro n hfirst hout
    obtain ⟨a, hfind, hquiet⟩ := hsupply fun hroom => hout (hroom.first hfirst)
    refine (kpalloc_pop hquiet hstock hfind).mono ?_ fun _ _ hf => hf
    rintro _ u ⟨-, rfl⟩
    exact ⟨rfl, a, s.chain, hfind, rfl⟩
  refine (hframes.plFn_ends hpop
    fun u ⟨a, _, hfind, hu⟩ chain => ⟨a, chain, hfind, by rw [hu]⟩).mono ?_ fun _ _ hf => hf
  rintro f u ⟨hfirst, ⟨hfree, hlow, hin, hinv⟩, hpage⟩
  refine (plSv_spec hin).mono ?_ fun _ _ hf => hf
  rintro _ t rfl
  have hmark : FrameInv (u.withFrame f true) fun m => m = f ∨ T m := by
    refine (hinv.store hin hlow).congr fun m => ?_
    by_cases hm : m = f
    · simp [hm]
    · simp [hm]
  have hcov : ∀ m, u.Covers m → (u.withFrame f true).Covers m := by
    intro m hm
    unfold Pager.Covers
    rw [length_withFrame]
    exact hm
  rcases hpage with rfl | ⟨hout, hchain, a, chain, hfind, hu⟩
  · exact ⟨0, ⟨rfl, rfl, rfl, rfl⟩, rfl, .none _, ⟨hfree, hlow, hcov f hin⟩, hmark, hcov,
      .inl ⟨rfl, fun m hroom => hroom.take hframes hmark hcov⟩⟩
  · have hlen : u.chain.length = s.chain.length + 1 := by
      rw [hchain, List.length_append, List.length_singleton]
    have hgrows : ∀ m, s.Covers m → (u.withFrame f true).Covers m := by
      intro m hm
      refine hcov m ?_
      unfold Pager.Covers at hm ⊢
      omega
    have hroom : RoomyFrames (u.withFrame f true) 16351 :=
      roomy_of_new_page hfirst hout (by rw [length_withFrame, hlen]) hframes hmark
    have hnone : ¬ RoomyFrames s 1 := fun hr => hout (hr.first hfirst)
    have htables : SameTables s u := by
      rw [hu]
      exact ⟨rfl, rfl, rfl, rfl⟩
    have hpops : Pops 1 s.pool u.pool := by
      rw [hu]
      exact Pops.one hfind
    have hsame : u.paCalling = s.paCalling := by rw [hu]; rfl
    exact ⟨1, ⟨htables.pml4, htables.pdpt, htables.pde, htables.pt⟩, hsame, hpops,
      ⟨hfree, hlow, hcov f hin⟩, hmark, hgrows, .inr ⟨rfl, hnone, hroom⟩⟩

/-! ## New pages -/

/-- With the tables and the bitmap as they are. -/
theorem TakesFree.of_same (h : ∀ p, s'.mapped p = s.mapped p) (hm : ∀ m, s'.marked m = s.marked m) :
    TakesFree s s' := by
  refine ⟨fun p e he => ?_, fun m hm' => ?_, fun p e hnone he => ?_, fun p q e e' hnone _ he => ?_⟩
  · rw [h]
    exact he
  · rw [hm]
    exact hm'
  · rw [h, hnone] at he
    cases he
  · rw [h, hnone] at he
    cases he

theorem TakesFree.refl (s : Pager) : TakesFree s s := .of_same (fun _ => rfl) fun _ => rfl

theorem TakesFree.old_or_new (h : TakesFree s s') {p : Page} {e : Entry}
    (he : s'.mapped p = some e) : s.mapped p = some e ∨ s.mapped p = none := by
  cases hs : s.mapped p with
  | none => exact .inr rfl
  | some e₀ => exact .inl (Option.some.inj ((h.stays p e₀ hs).symm.trans he) ▸ rfl)

theorem TakesFree.trans {s'' : Pager} (h : TakesFree s s') (h' : TakesFree s' s'') :
    TakesFree s s'' := by
  constructor
  case stays => exact fun p e he => h'.stays p e (h.stays p e he)
  case marks => exact fun m hm => h'.marks m (h.marks m hm)
  case fresh =>
    intro p e hnone he
    rcases h'.old_or_new he with hmid | hmid
    · obtain ⟨hfree, hmarked⟩ := h.fresh p e hnone hmid
      exact ⟨hfree, h'.marks _ hmarked⟩
    · obtain ⟨hfree, hmarked⟩ := h'.fresh p e hmid he
      exact ⟨Bool.eq_false_of_not_eq_true fun hm => by simp [h.marks _ hm] at hfree, hmarked⟩
  case sole =>
    intro p q e e' hp hq he he' heq
    rcases h'.old_or_new he with hmid | hmid
    · rcases h'.old_or_new he' with hmid' | hmid'
      · exact h.sole p q e e' hp hq hmid hmid' heq
      · -- the first frame was marked before the second was taken
        have hmarked := (h.fresh p e hp hmid).2
        rw [heq, (h'.fresh q e' hmid' he').1] at hmarked
        cases hmarked
    · rcases h'.old_or_new he' with hmid' | hmid'
      · have hmarked := (h.fresh q e' hq hmid').2
        rw [← heq, (h'.fresh p e hmid he).1] at hmarked
        cases hmarked
      · exact h'.sole p q e e' hmid hmid' he he' heq

theorem FrameInv.marks_grow {T' : Nat → Prop} (h : FrameInv s T) (h' : FrameInv s' T')
    (hT : ∀ m, T m → T' m) (m : Nat) (hm : s.marked m = true) : s'.marked m = true := by
  have hlow : ∀ m, m % 64 ≤ 31 → s.marked m = true → s'.marked m = true :=
    fun m hle hm => (h'.low m hle).mpr (hT m ((h.low m hle).mp hm))
  by_cases hle : m % 64 ≤ 31
  · exact hlow m hle hm
  · rw [h.high m (by omega)] at hm
    rw [h'.high m (by omega)]
    exact hlow _ (by omega) hm

theorem TookFrame.marks (ht : TookFrame s t T f c) (hs : FrameInv s T) (m : Nat)
    (hm : s.marked m = true) : t.marked m = true :=
  hs.marks_grow ht.frames (fun _ => .inr) m hm

theorem TookFrame.free_before (ht : TookFrame s t T f c) (hs : FrameInv s T) :
    s.marked f = false :=
  Bool.eq_false_of_not_eq_true fun hm => ht.free.1 ((hs.low f ht.free.2.1).mp hm)

theorem TookFrame.marked_after (ht : TookFrame s t T f c) : t.marked f = true :=
  (ht.frames.low f ht.free.2.1).mpr (.inl rfl)

theorem TookFrame.marksFrame (ht : TookFrame s t T f c) (hs : FrameInv s T) : MarksFrame s t f :=
  ⟨ht.tables.mapped, ht.marks hs, ht.free_before hs, ht.marked_after⟩

/-- The frame that has been taken is put into a page. -/
theorem MarksFrame.put {e : Entry} {p : Page} (ht : MarksFrame s t f) (h : TakesFree t s')
    (hnone : s'.mapped p = none) (he : e.frame = f) : TakesFree s (setPt p (some e) s') := by
  have hsame := ht.mapped
  have hold : ∀ q, s.mapped q ≠ none → q ≠ p := by
    rintro q hq rfl
    obtain ⟨e₀, he₀⟩ := Option.ne_none_iff_exists'.mp hq
    rw [h.stays q e₀ (by rw [hsame]; exact he₀)] at hnone
    cases hnone
  have hself : ∀ e', (setPt p (some e) s').mapped p = some e' → e' = e := by
    intro e' he'
    rw [Pager.mapped] at he'
    split at he'
    · cases he'
    · change Function.update s'.pt p (some e) p = some e' at he'
      rw [Function.update_self] at he'
      exact (Option.some.inj he').symm
  have hother : ∀ q e', q ≠ p → (setPt p (some e) s').mapped q = some e' → s'.mapped q = some e' := by
    intro q e' hq he'
    rwa [mapped_setPt_of_ne hq] at he'
  have hmarked : ∀ m, (setPt p (some e) s').marked m = s'.marked m := fun _ => rfl
  constructor
  case stays =>
    intro q e₀ he₀
    have hq := hold q (by rw [he₀]; exact Option.some_ne_none _)
    rw [mapped_setPt_of_ne hq]
    exact h.stays q e₀ (by rw [hsame]; exact he₀)
  case marks => exact fun m hm => h.marks m (ht.marks m hm)
  case fresh =>
    intro q e' hq he'
    by_cases hqp : q = p
    · subst hqp
      rw [hself e' he', he]
      exact ⟨ht.free, h.marks f ht.marked⟩
    · obtain ⟨hfree, hnow⟩ := h.fresh q e' (by rw [hsame]; exact hq) (hother q e' hqp he')
      exact ⟨Bool.eq_false_of_not_eq_true fun hm => by simp [ht.marks _ hm] at hfree, hnow⟩
  case sole =>
    intro q r e₁ e₂ hq hr he₁ he₂ heq
    -- a page that is new before the last step does not hold the frame
    have hne : ∀ w e', w ≠ p → s.mapped w = none → (setPt p (some e) s').mapped w = some e' →
        e'.frame ≠ f := by
      rintro w e' hw hwn hwe rfl
      have hfree := (h.fresh w e' (by rw [hsame]; exact hwn) (hother w e' hw hwe)).1
      rw [ht.marked] at hfree
      cases hfree
    by_cases hqp : q = p
    · by_cases hrp : r = p
      · rw [hqp, hrp]
      · subst hqp
        rw [hself e₁ he₁, he] at heq
        exact absurd heq.symm (hne r e₂ hrp hr he₂)
    · by_cases hrp : r = p
      · subst hrp
        rw [hself e₂ he₂, he] at heq
        exact absurd heq (hne q e₁ hqp hq he₁)
      · exact h.sole q r e₁ e₂ (by rw [hsame]; exact hq) (by rw [hsame]; exact hr)
          (hother q e₁ hqp he₁) (hother r e₂ hrp he₂) heq

/-! ## The page -/

theorem withPage_tables (h : KernelTables s N) (p : Page) (f : Nat) :
    KernelTables (s.withPage p f) N := ⟨h.pml4, h.pdpt, h.beyond, h.pos, h.le, h.pde⟩

theorem withPage_pt (s : Pager) (n f m : Nat) : (s.withPage (kernelPage n) f).pt (kernelPage m) =
    if m = n then some ⟨f, 1⟩ else s.pt (kernelPage m) := by
  change Function.update s.pt (kernelPage n) (some ⟨f, 0x1⟩) (kernelPage m) = _
  by_cases hm : m = n
  · rw [hm, if_pos rfl, Function.update_self]
  · rw [if_neg hm, Function.update_of_ne fun h => hm (kernelPage_inj h)]

theorem linkPde_pde (s : Pager) (e : Entry) (k : Nat) :
    (linkPde 1 0 N e s).pde 1 0 k = if k = N then some e else s.pde 1 0 k := by
  by_cases hk : k = N
  · simp [linkPde, hk]
  · simp [linkPde, hk]

theorem linkPde_pt (s : Pager) (e : Entry) (m : Nat) :
    (linkPde 1 0 N e s).pt (kernelPage m) = if m / 512 = N then none else s.pt (kernelPage m) := by
  by_cases hm : m / 512 = N
  · simp [linkPde, kernelPage, hm]
  · simp [linkPde, kernelPage, hm]

theorem linkPde_tables (h : KernelTables s N) (hlt : N < 512) (e : Entry) :
    KernelTables (linkPde 1 0 N e s) (N + 1) where
  pml4 := h.pml4
  pdpt := h.pdpt
  beyond := h.beyond
  pos := Nat.succ_pos N
  le := hlt
  pde := by
    intro k hk
    rw [linkPde_pde]
    by_cases hkN : k = N
    · rw [if_pos hkN]
      exact iff_of_true (Option.some_ne_none e) (by omega)
    · rw [if_neg hkN, h.pde k hk]
      omega

theorem not_roomy_of_full (h : KernelTables s N) (hfull : Full s N) : ¬ RoomyPages s 1 := by
  rintro ⟨F, hcard, hF⟩
  obtain ⟨n, hn⟩ := Finset.card_pos.mp hcard
  obtain ⟨hgib, htable, hfree⟩ := hF n hn
  have hk := (h.pde (n / 512) (kernelPage_inTables hgib).pde).mp htable
  exact hfull n (by omega) hfree

theorem KernelTables.unique (h : KernelTables s N) {N' : Nat} (h' : KernelTables s N') : N = N' := by
  have hle := h.le
  have hle' := h'.le
  rcases Nat.lt_trichotomy N N' with hlt | rfl | hlt
  · exact absurd ((h.pde N (by omega)).mp ((h'.pde N (by omega)).mpr hlt)) (Nat.lt_irrefl N)
  · rfl
  · exact absurd ((h'.pde N' (by omega)).mp ((h.pde N' (by omega)).mpr hlt)) (Nat.lt_irrefl N')

theorem SameTables.adds (h : SameTables s s') (d : Nat) : AddsTables s s' d :=
  ⟨h.pml4, h.pdpt, fun _ _ _ => by rw [h.pde], fun _ _ => by rw [h.pt],
    fun N hN => ⟨N, Nat.le_add_right N d, Nat.le_refl N, h.tables hN⟩⟩

theorem AddsTables.trans {d d' k : Nat} (h : AddsTables s t d) (h' : AddsTables t s' d')
    (hk : d + d' ≤ k) : AddsTables s s' k := by
  refine ⟨h'.pml4.trans h.pml4, h'.pdpt.trans h.pdpt,
    fun i j hij => (h'.pde i j hij).trans (h.pde i j hij),
    fun p hp => (h'.pt p hp).trans (h.pt p hp), fun N hN => ?_⟩
  obtain ⟨N₁, hle, hge, hN₁⟩ := h.count N hN
  obtain ⟨N₂, hle', hge', hN₂⟩ := h'.count N₁ hN₁
  exact ⟨N₂, by omega, hge.trans hge', hN₂⟩

/-- A page in the tables that there are. -/
theorem withPage_room (ht : SameTables s t) (m : Nat) (hroom : RoomyPages s (m + 1)) :
    RoomyPages (t.withPage (kernelPage n) f) m := by
  have hpde : (t.withPage (kernelPage n) f).pde = s.pde := ht.pde
  obtain ⟨F, hcard, hF⟩ := hroom
  refine ⟨F.erase n, ?_, fun g hg => ?_⟩
  · have hpred := Finset.pred_card_le_card_erase (s := F) (a := n)
    omega
  · obtain ⟨hne, hmem⟩ := Finset.mem_erase.mp hg
    obtain ⟨hgib', htable, hfree⟩ := hF g hmem
    refine ⟨hgib', ?_, ?_⟩
    · rw [hpde]
      exact htable
    · rw [withPage_pt, if_neg hne, ht.pt]
      exact hfree

theorem RoomyPages.mono {k m : Nat} (h : RoomyPages s m) (hle : k ≤ m) : RoomyPages s k := by
  obtain ⟨F, hcard, hF⟩ := h
  exact ⟨F, hle.trans hcard, hF⟩

theorem PagesLeft.trans {q q' : Nat} (h : PagesLeft s t q) (h' : PagesLeft t s' q') :
    PagesLeft s s' (q + q') := by
  rcases h' with ⟨hpde', hroom'⟩ | hnew'
  · rcases h with ⟨hpde, hroom⟩ | hnew
    · refine .inl ⟨hpde'.trans hpde, fun m hm => hroom' m (hroom (m + q') ?_)⟩
      rwa [Nat.add_assoc, Nat.add_comm q' q]
    · by_cases hle : q + q' ≤ 512
      · exact .inr (hroom' _ (hnew.mono (by omega)))
      · exact .inr ⟨∅, by omega, fun n hn => absurd hn (Finset.notMem_empty n)⟩
  · exact .inr (hnew'.mono (by omega))

theorem PagesLeft.mono {q q' : Nat} (h : PagesLeft s s' q) (hle : q ≤ q') : PagesLeft s s' q' :=
  h.imp (fun hold => ⟨hold.1, fun m hm => hold.2 m (hm.mono (by omega))⟩)
    fun hnew => hnew.mono (by omega)

theorem SameTables.pagesLeft (h : SameTables s s') (q : Nat) : PagesLeft s s' q := by
  refine .inl ⟨by rw [h.pde], fun m hm => ?_⟩
  obtain ⟨F, hcard, hF⟩ := hm.mono (Nat.le_add_right m q)
  refine ⟨F, hcard, fun n hn => ?_⟩
  rw [h.pde, h.pt]
  exact hF n hn

/-- What has changed until the page is mapped. -/
theorem allocates_page (h : KernelTables s N) (hin : n < 512 * N)
    (hfree : s.pt (kernelPage n) = none) (hframes : FrameInv s T) (ht : TookFrame s t T f c) :
    Allocates s (t.withPage (kernelPage n) f) T n f c 0 := by
  have htab := ht.tables.tables h
  have hle := h.le
  have hgib : n < gib := by
    unfold gib
    omega
  have hmap : ∀ m < gib, (t.withPage (kernelPage n) f).mapped (kernelPage m) =
      if m = n then some ⟨f, 1⟩ else s.mapped (kernelPage m) := by
    intro m hm
    rw [mapped_kernelPage (withPage_tables htab _ f) hm, mapped_kernelPage h hm, withPage_pt,
      ht.tables.pt]
    by_cases hmn : m = n
    · rw [if_pos hmn, if_pos hmn, if_pos (hmn ▸ hin)]
    · rw [if_neg hmn, if_neg hmn]
  constructor
  case page => exact hgib
  case fresh => rw [mapped_kernelPage h hgib, if_pos hin, hfree]
  case mapped => rw [hmap n hgib, if_pos rfl]
  case others =>
    intro m hm hne
    rw [hmap m hm, if_neg hne]
  case calling => rfl
  case tables => exact ⟨N, withPage_tables htab _ f⟩
  case pops => exact ht.pops
  case frame => exact ht.free
  case frames => exact ht.frames.of_marked ht.frames.nonempty fun _ => rfl
  case covers => exact ht.covers
  case frameRoom => exact ht.room
  case pageRoom =>
    have hpde : (t.withPage (kernelPage n) f).pde = s.pde := ht.tables.pde
    exact .inl ⟨rfl, withPage_room ht.tables, fun hmore => by rwa [MoreTables, hpde]⟩
  case left => exact .inl ⟨by rw [← ht.tables.pde]; rfl, withPage_room ht.tables⟩
  case table =>
    intro g hg
    refine .inl ?_
    change TableFrame t g at hg
    unfold TableFrame at hg ⊢
    rwa [ht.tables.pml4, ht.tables.pdpt, ht.tables.pde] at hg
  case adds =>
    refine ⟨ht.tables.pml4, ht.tables.pdpt, fun i j _ => ?_, fun p hp => ?_, fun N' hN' =>
      ⟨N', Nat.le_refl N', Nat.le_refl N', withPage_tables (ht.tables.tables hN') _ f⟩⟩
    · exact congrFun (congrFun ht.tables.pde i) j
    · have hne : p ≠ kernelPage n := by
        rintro rfl
        exact hp ⟨rfl, rfl⟩
      exact (Function.update_of_ne hne _ _).trans (congrFun ht.tables.pt p)
  case takes =>
    have hput := (ht.marksFrame hframes).put (e := ⟨f, 0x1⟩) (p := kernelPage n)
      (.of_same (fun _ => rfl) fun _ => rfl) (by
        rw [mapped_kernelPage htab hgib, if_pos hin, ht.tables.pt, hfree]) rfl
    exact hput.trans (.of_same (fun _ => rfl) fun _ => rfl)

section NextTable

variable {M e : Entry}

/-- The first page of a new page table. -/
def Pager.withNext (t : Pager) (N a : Nat) (M : Entry) (f : Nat) : Pager :=
  (linkPde 1 0 N M (t.pop a)).withPage (kernelPage (512 * N)) f

theorem next_tables (h : KernelTables t N) (hlt : N < 512) :
    KernelTables (t.withNext N a M f) (N + 1) :=
  withPage_tables (linkPde_tables ((sameTables_pop t a).tables h) hlt M) _ f

theorem next_pt (ht : SameTables s t) (m : Nat) : (t.withNext N a M f).pt (kernelPage m) =
    if m = 512 * N then some ⟨f, 1⟩ else if m / 512 = N then none else s.pt (kernelPage m) := by
  rw [Pager.withNext, withPage_pt, linkPde_pt, ← ht.pt]
  rfl

theorem next_mapped (h : KernelTables s N) (hlt : N < 512) (ht : SameTables s t) (hm : m < gib) :
    (t.withNext N a M f).mapped (kernelPage m) =
      if m = 512 * N then some ⟨f, 1⟩ else s.mapped (kernelPage m) := by
  rw [mapped_kernelPage (next_tables (ht.tables h) hlt) hm, mapped_kernelPage h hm, next_pt ht]
  by_cases hmn : m = 512 * N
  · rw [if_pos hmn, if_pos hmn, if_pos (by omega)]
  · rw [if_neg hmn, if_neg hmn]
    by_cases hin : m < 512 * N
    · rw [if_pos (by omega), if_pos hin, if_neg (by omega)]
    · rw [if_neg hin]
      by_cases hrow : m / 512 = N
      · rw [if_pos (by omega), if_pos hrow]
      · rw [if_neg (by omega)]

/-- The other pages of the new table are not mapped. -/
theorem next_room (h : KernelTables s N) (hlt : N < 512) (ht : SameTables s t) :
    RoomyPages (t.withNext N a M f) 511 := by
  refine ⟨(Finset.range 511).image fun w => 512 * N + (w + 1), ?_, fun g hg => ?_⟩
  · rw [Finset.card_image_of_injective _ (fun v w h => by
      have h' : 512 * N + (v + 1) = 512 * N + (w + 1) := h
      omega), Finset.card_range]
  · obtain ⟨w, hw, rfl⟩ := Finset.mem_image.mp hg
    have hw' := Finset.mem_range.mp hw
    refine ⟨by unfold gib; omega, ?_, ?_⟩
    · exact ((next_tables (ht.tables h) hlt).pde _ (by omega)).mpr (by omega)
    · rw [next_pt ht, if_neg (by omega), if_pos (by omega)]

/-- Its frame is that of a page out of the pool. -/
theorem next_table (ht : TookFrame s t T f c)
    (hfind : (List.range 512).find? (fun i => t.pool i ≠ 0) = some a) (hm : m < gib)
    (hpage : t.pool a = kernelAddress m) (he : t.mapped (kernelPage m) = some e)
    (hM : M.frame = e.frame) {g : Nat} (hg : TableFrame (t.withNext N a M f) g) :
    TableFrame s g ∨ ∃ m e, TakenFrom s (t.withNext N a M f) m ∧
      s.mapped (kernelPage m) = some e ∧ e.frame = g := by
  obtain ⟨ha, hne, -⟩ := pop_bound hfind
  rcases hg with ⟨x, hx, hxg⟩ | ⟨x, hx, hxg⟩ | ⟨k, hk, x, hx, hxg⟩
  · refine .inl (.inl ⟨x, ?_, hxg⟩)
    rw [← ht.tables.pml4]
    exact hx
  · refine .inl (.inr (.inl ⟨x, ?_, hxg⟩))
    rw [← ht.tables.pdpt]
    exact hx
  · change (linkPde 1 0 N M (t.pop a)).pde 1 0 k = some x at hx
    rw [linkPde_pde] at hx
    by_cases hkN : k = N
    · rw [if_pos hkN] at hx
      obtain rfl := Option.some.inj hx
      refine .inr ⟨m, e, ⟨hm, a, ha, ?_, Function.update_self ..⟩, ?_, hM.symm.trans hxg⟩
      · rcases ht.pops.fewer a with hsame | hzero
        · exact hsame.symm.trans hpage
        · exact absurd hzero hne
      · rw [← ht.tables.mapped]
        exact he
    · rw [if_neg hkN] at hx
      refine .inl (.inr (.inr ⟨k, hk, x, ?_, hxg⟩))
      rw [← ht.tables.pde]
      exact hx

theorem next_adds (h : KernelTables s N) (hlt : N < 512) (ht : SameTables s t) :
    AddsTables s (t.withNext N a M f) 1 := by
  refine ⟨ht.pml4, ht.pdpt, fun i j hij => ?_, fun p hp => ?_, fun N' hN' => ?_⟩
  · change (linkPde 1 0 N M (t.pop a)).pde i j = s.pde i j
    rw [← ht.pde]
    by_cases hi : i = 1
    · have hj : j ≠ 0 := fun hj => hij ⟨hi, hj⟩
      simp [linkPde, hi, hj, Pager.pop]
    · simp [linkPde, hi, Pager.pop]
  · have hne : p ≠ kernelPage (512 * N) := by
      rintro rfl
      exact hp ⟨rfl, rfl⟩
    refine (Function.update_of_ne hne _ _).trans ?_
    change (if p.pml4 = 1 ∧ p.pdpt = 0 ∧ p.pde = N then none else t.pt p) = s.pt p
    rw [if_neg fun hc => hp ⟨hc.1, hc.2.1⟩, ht.pt]
  · obtain rfl := h.unique hN'
    exact ⟨N + 1, Nat.le_refl _, Nat.le_succ N, next_tables (ht.tables h) hlt⟩

theorem next_takes (h : KernelTables s N) (hlt : N < 512) (hframes : FrameInv s T)
    (ht : TookFrame s t T f c) : TakesFree s (t.withNext N a M f) := by
  have htab := ht.tables.tables h
  have hgib : 512 * N < gib := by
    unfold gib
    omega
  have hnone : (t.pop a).pde 1 0 N = none := by
    by_contra hthere
    exact absurd ((((sameTables_pop t a).tables htab).pde N hlt).mp hthere) (Nat.lt_irrefl N)
  have hlinked : TakesFree t (linkPde 1 0 N M (t.pop a)) :=
    .of_same (fun p => mapped_linkPde_absent hnone) fun _ => rfl
  have hput := (ht.marksFrame hframes).put (e := ⟨f, 0x1⟩) (p := kernelPage (512 * N)) hlinked (by
    rw [mapped_linkPde_absent hnone]
    change t.mapped (kernelPage (512 * N)) = none
    rw [mapped_kernelPage htab hgib, if_neg (Nat.lt_irrefl _)]) rfl
  exact hput.trans (.of_same (fun _ => rfl) fun _ => rfl)

/-- What has changed until the page is mapped in a new table. -/
theorem allocates_next (h : KernelTables s N) (hlt : N < 512) (hfull : Full s N)
    (hframes : FrameInv s T) (ht : TookFrame s t T f c)
    (hfind : (List.range 512).find? (fun i => t.pool i ≠ 0) = some a) (hm : m < gib)
    (hpage : t.pool a = kernelAddress m) (he : t.mapped (kernelPage m) = some e)
    (hM : M.frame = e.frame) : Allocates s (t.withNext N a M f) T (512 * N) f c 1 := by
  have hgib : 512 * N < gib := by
    unfold gib
    omega
  have hroom : RoomyPages (t.withNext N a M f) 511 := next_room h hlt ht.tables
  constructor
  case page => exact hgib
  case fresh => rw [mapped_kernelPage h hgib, if_neg (Nat.lt_irrefl _)]
  case mapped => rw [next_mapped h hlt ht.tables hgib, if_pos rfl]
  case others =>
    intro m hm hne
    rw [next_mapped h hlt ht.tables hm, if_neg hne]
  case calling => rfl
  case tables => exact ⟨N + 1, next_tables (ht.tables.tables h) hlt⟩
  case pops => exact ht.pops.append (Pops.one hfind)
  case frame => exact ht.free
  case frames => exact ht.frames.of_marked ht.frames.nonempty fun _ => rfl
  case covers => exact ht.covers
  case frameRoom => exact ht.room
  case pageRoom => exact .inr ⟨rfl, not_roomy_of_full h hfull, hroom.mono (by decide)⟩
  case left => exact .inr hroom
  case table => exact fun g hg => next_table ht hfind hm hpage he hM hg
  case adds => exact next_adds h hlt ht.tables
  case takes => exact next_takes h hlt hframes ht

end NextTable

/-- `PA_CALLING` at the start makes no difference. -/
theorem Allocates.of_calling {b : Bool} (h : Allocates { s with paCalling := b } s' T n f c d) :
    Allocates s s' T n f c d :=
  ⟨h.page, h.fresh, h.mapped, h.others, h.calling, h.tables, h.pops, h.frame, h.frames, h.covers,
    h.frameRoom, h.pageRoom, h.left, h.table,
      ⟨h.adds.pml4, h.adds.pdpt, h.adds.pde, h.adds.pt, fun N hN =>
      h.adds.count N ⟨hN.pml4, hN.pdpt, hN.beyond, hN.pos, hN.le, hN.pde⟩⟩,
    ⟨h.takes.stays, h.takes.marks, h.takes.fresh, h.takes.sole⟩⟩

theorem Stock.sameTables (h : Stock s) (ht : SameTables s t) (hpops : Pops q s.pool t.pool) :
    Stock t := by
  intro i hi hne
  rcases hpops.fewer i with hsame | hzero
  · rw [hsame] at hne ⊢
    obtain ⟨n, hn, hpool, hmapped⟩ := h i hi hne
    exact ⟨n, hn, hpool, by rw [ht.mapped]; exact hmapped⟩
  · exact absurd hzero hne

/-- A page is mapped, in the first GiB or, when that is full, behind it. -/
theorem kpAlloc3_spec (h : KernelTables s N) (hstock : Stock s) (hframes : FrameInv s T)
    (hsupply : c + d ≤ slotsBelow 512 s.pool) (hc : c = 0 → RoomyFrames s 1)
    (hd : d < 2 → RoomyPages s 1 ∨ d = 1 ∧ MoreTables s) :
    Ends (Paging.kpAlloc3 (kpallocWith kpAlloc3)) s
      (fun v s' => (∃ n f c' d', v = kernelAddress n ∧ Allocates s s' T n f c' d') ∨
        2 ≤ d ∧ Left s')
      fun _ _ => False := by
  rw [Paging.kpAlloc3, ends_bind, ends_modify]
  have h' : KernelTables { s with paCalling := true } N :=
    ⟨h.pml4, h.pdpt, h.beyond, h.pos, h.le, h.pde⟩
  have hframes' : FrameInv { s with paCalling := true } T :=
    hframes.of_marked hframes.nonempty fun _ => rfl
  have hstock' : Stock { s with paCalling := true } := hstock
  have hslot : ¬ RoomyFrames { s with paCalling := true } 1 → ∃ a,
      (List.range 512).find? (fun i => s.pool i ≠ 0) = some a ∧ (a < 32 ∨ true = true) := by
    intro hnone
    have hc0 : c ≠ 0 := fun hzero => hnone (hc hzero)
    obtain ⟨a, -, hfind⟩ := exists_slot (Nat.le_refl 512) (Nat.lt_of_lt_of_le (by omega) hsupply)
    exact ⟨a, hfind, .inr rfl⟩
  refine (tookFrame hstock' hframes' hslot).bind fun f u hu => ?_
  refine hu.bind ?_
  rintro _ t ⟨c', ht⟩
  have htab := ht.tables.tables h'
  have htstock := hstock'.sameTables ht.tables ht.pops
  have hcle : c' ≤ c := by
    rcases ht.room with ⟨hzero, -⟩ | ⟨hone, hnone, -⟩
    · omega
    · have hpos : c ≠ 0 := fun hzero => hnone (hc hzero)
      omega
  rcases full_or_lowest s N with hfull | ⟨n, hn⟩
  · have hd2 : 2 ≤ d ∨ d = 1 ∧ MoreTables s := by
      by_contra hnot
      rcases hd (Nat.lt_of_not_le fun hle => hnot (.inl hle)) with hroom | hmore
      · exact not_roomy_of_full h hfull hroom
      · exact hnot (.inr hmore)
    have hd1 : 1 ≤ d := by
      rcases hd2 with hle | ⟨rfl, -⟩
      · omega
      · exact Nat.le_refl 1
    have htfull : Full t N := ht.tables.full hfull
    have hleft : slotsBelow 512 s.pool ≤ slotsBelow 512 t.pool + c' := ht.pops.slotsBelow 512
    obtain ⟨b, -, hb⟩ := exists_slot (Nat.le_refl 512) (show 0 < slotsBelow 512 t.pool by omega)
    have hnew : ∀ flags, Ends (newTable (kpallocWith kpAlloc3) flags) t _ fun _ _ => False :=
      fun flags => newTable_pop ht.calling htstock hb
    rcases Nat.lt_or_eq_of_le h.le with hlt | rfl
    · refine (search_next htab hlt htfull (hnew 0x23)).bind ?_
      rintro _ s' ⟨v, rfl, rfl, M, _, ⟨rfl, m, hm, hpage, e, he, rfl⟩, rfl⟩
      have hall := allocates_next h' hlt hfull hframes' ht hb hm hpage he (M := ⟨e.frame, 0x23⟩) rfl
      exact ends_pure.mpr (.inl ⟨_, f, c', 1, rfl, hall.of_calling⟩)
    · have htwo : 2 ≤ d := by
        rcases hd2 with hle | ⟨-, k, hk, hnone⟩
        · exact hle
        · exact absurd hnone ((h.pde k hk).mpr hk)
      have hstock₂ : Stock (t.pop b) := htstock.pop b
      have hleft' := (Pops.one hb).slotsBelow 512
      obtain ⟨b', -, hb'⟩ := exists_slot (Nat.le_refl 512)
        (show 0 < slotsBelow 512 (Function.update t.pool b 0) by omega)
      have hnew₂ : Ends (newTable (kpallocWith kpAlloc3) 0x23) t (fun _ w => SameTables t w ∧
          Ends (newTable (kpallocWith kpAlloc3) 0x23) w (fun _ w' => SameTables w w')
            fun _ _ => False) fun _ _ => False := by
        refine (hnew 0x23).mono ?_ fun _ _ hf => hf
        rintro _ w ⟨rfl, -⟩
        refine ⟨sameTables_pop t b, ?_⟩
        refine (newTable_pop (s := t.pop b) ht.calling hstock₂ hb').mono ?_ fun _ _ hf => hf
        rintro _ w ⟨rfl, -⟩
        exact sameTables_pop _ b'
      refine (search_beyond htab htfull hnew₂).bind ?_
      rintro _ s' ⟨v, rfl, hleft⟩
      exact ends_pure.mpr (.inr ⟨htwo, hleft⟩)
  · have hn' : Lowest { s with paCalling := true } N n := ⟨hn.table, hn.free, hn.below⟩
    have htn : Lowest t N n := ht.tables.lowest hn'
    refine (search_lowest htab htn).bind ?_
    rintro _ s' ⟨v, rfl, rfl, rfl⟩
    have hall := allocates_page h' hn'.table hn'.free hframes' ht
    exact ends_pure.mpr (.inl ⟨n, f, c', 0, rfl, hall.of_calling⟩)

end UnnamedOS.Paging
