import Mathlib.Data.Finset.Option
import UnnamedOS.Files.Release

/-!
# The accounts of a whole call

A call is held against what was live before it. It may keep the inode that it returns, the array of
the inode cache, if that has grown, and the semaphore of the disc, if there was none.
-/

namespace UnnamedOS.Files

open UnnamedOS.Lib

variable {A : Allocator} {s s' s'' t : Store} {l l' : Holdings} {base : Finset Nat}
  {own : List Nat} {a name : List UInt8} {v v' : Volume} {g n m p : Nat} {dir : Inode}

namespace Store

variable (s s' : Store)

def newDisk0 : Finset Nat := if s.disk0 = none then s'.disk0.toFinset else ∅

def newArray : Finset Nat :=
  if s'.volume.cache.kINb_sz = s.volume.cache.kINb_sz then ∅ else s'.array

/-- `s'` is reached from `s`, and `kept` is the block that the caller gets. -/
structure Balanced (kept : Option Nat) : Prop where
  fresh : ∀ n ∈ kept, n ∉ s.live.blocks
  blocks : s'.live.blocks = s.live.blocks ∪ s.newDisk0 s' ∪ kept.toFinset
  pages : s'.live.pages = s.live.pages ∪ s.newArray s'

/-- A call that stops in an `ERROR` does not return. -/
def Accounted : Except Fault (Option (List UInt8 × Nat) × Store) → Prop
  | .error (.halt _) => True
  | .error (.dead _) => False
  | .ok (kept, s') => s.Balanced s' (kept.map Prod.snd)

end Store

/-! ## The blocks of a call -/

/-- The blocks of a call are new, and all different. -/
structure Owns (base : Finset Nat) (l : Holdings) (own : List Nat) : Prop where
  blocks : l.blocks = base ∪ own.toFinset
  nodup : own.Nodup
  apart : ∀ p ∈ own, p ∉ base

theorem Owns.start (l : Holdings) : Owns l.blocks l [] where
  blocks := (Finset.union_empty _).symm
  nodup := List.nodup_nil
  apart := nofun

theorem Owns.live (h : Owns base l own) (hp : p ∈ own) : p ∈ l.blocks := by
  rw [h.blocks]
  exact Finset.mem_union_right _ (List.mem_toFinset.mpr hp)

theorem Owns.insert (h : Owns base l own) (hp : p ∉ l.blocks)
    (hblocks : l'.blocks = insert p l.blocks) : Owns base l' (p :: own) := by
  rw [h.blocks, Finset.mem_union, List.mem_toFinset, not_or] at hp
  constructor
  · rw [hblocks, h.blocks, List.toFinset_cons, Finset.union_insert]
  · exact List.nodup_cons.mpr ⟨hp.2, h.nodup⟩
  · exact List.forall_mem_cons.mpr ⟨hp.1, h.apart⟩

theorem Owns.malloc (A : Allocator) (h : Owns base l own) :
    Owns base (l.malloc A).2 ((l.malloc A).1 :: own) :=
  h.insert (malloc_fresh A l) rfl

theorem Owns.of_blocks (h : Owns base l own) (hblocks : l'.blocks = l.blocks) : Owns base l' own :=
  ⟨hblocks.trans h.blocks, h.nodup, h.apart⟩

theorem Owns.perm {own' : List Nat} (h : Owns base l own) (hperm : own.Perm own') :
    Owns base l own' where
  blocks := by rw [h.blocks, List.toFinset_eq_of_perm _ _ hperm]
  nodup := hperm.nodup h.nodup
  apart := fun p hp => h.apart p (hperm.mem_iff.mpr hp)

theorem Owns.erase (h : Owns base l (p :: own)) : l.blocks.erase p = base ∪ own.toFinset := by
  obtain ⟨hp, -⟩ := List.nodup_cons.mp h.nodup
  rw [h.blocks, List.toFinset_cons, Finset.union_insert, Finset.erase_insert]
  rw [Finset.mem_union, List.mem_toFinset, not_or]
  exact ⟨h.apart p (List.mem_cons_self ..), hp⟩

theorem Owns.free (h : Owns base l (p :: own)) : ∃ l', l.free p = .ok l' ∧ l'.pages = l.pages ∧
    Owns base l' own :=
  ⟨_, free_of_mem (h.live (List.mem_cons_self ..)), rfl, h.erase,
    (List.nodup_cons.mp h.nodup).2, fun q hq => h.apart q (List.mem_cons_of_mem _ hq)⟩

theorem freeEach_ok {ps : List Nat} (h : Owns base l (ps ++ own)) :
    ∃ l', Store.freeEach ps l = .ok l' ∧ l'.pages = l.pages ∧ Owns base l' own := by
  induction ps generalizing l with
  | nil => exact ⟨l, rfl, rfl, h⟩
  | cons p ps ih =>
      obtain ⟨l₁, hfree, hpages, hrest⟩ := Owns.free h
      obtain ⟨l₂, heach, hpages₂, hlast⟩ := ih hrest
      refine ⟨l₂, ?_, hpages₂.trans hpages, hlast⟩
      rw [Store.freeEach, hfree]
      exact heach

theorem mallocEach_owns (A : Allocator) (directories : List (List UInt8))
    (h : Owns base l own) : (Store.mallocEach A directories l).2.pages = l.pages ∧
      Owns base (Store.mallocEach A directories l).2
        ((Store.mallocEach A directories l).1.reverse ++ own) := by
  induction directories generalizing l own with
  | nil => exact ⟨rfl, h⟩
  | cons directory directories ih =>
      obtain ⟨hpages, hrest⟩ := ih (h.malloc A)
      refine ⟨hpages, ?_⟩
      change Owns base (Store.mallocEach A directories (l.malloc A).2).2 (((l.malloc A).1 ::
        (Store.mallocEach A directories (l.malloc A).2).1).reverse ++ own)
      rw [List.reverse_cons, List.append_assoc]
      exact hrest

theorem mallocDirectories_owns (A : Allocator) (directories : List (List UInt8))
    (h : Owns base l own) : (Store.mallocDirectories A directories l).2.pages = l.pages ∧
      Owns base (Store.mallocDirectories A directories l).2
        ((Store.mallocDirectories A directories l).1.toList ++ own) := by
  unfold Store.mallocDirectories
  split
  · exact ⟨rfl, h⟩
  · exact ⟨rfl, h.malloc A⟩

/-! ## The semaphore of the disc -/

structure Opened (s s' : Store) : Prop where
  volume : s'.volume = s.volume
  blocks : s'.live.blocks = s.live.blocks ∪ s.newDisk0 s'
  fresh : Disjoint (s.newDisk0 s') s.live.blocks
  disk0 : s'.disk0 ≠ none
  same : s.disk0 ≠ none → s'.disk0 = s.disk0
  grown : Grown s s' 0

theorem withDisk0_opened (A : Allocator) (s : Store) : Opened s (s.withDisk0 A) := by
  cases hdisk : s.disk0 with
  | some d =>
      have hsome : s.disk0 ≠ none := by simp [hdisk]
      have hnew : s.newDisk0 s = ∅ := if_neg hsome
      rw [withDisk0_of_some hsome]
      refine ⟨rfl, ?_, ?_, hsome, fun _ => rfl, Grown.refl s⟩
      · rw [hnew, Finset.union_empty]
      · rw [hnew]
        exact Finset.disjoint_empty_left _
  | none =>
      have hopen : s.withDisk0 A =
          { s with live := (s.live.malloc A).2, disk0 := some (s.live.malloc A).1 } := by
        simp only [Store.withDisk0, hdisk]
      have hnew : s.newDisk0 (s.withDisk0 A) = {(s.live.malloc A).1} := by
        rw [hopen]
        exact if_pos hdisk
      refine ⟨by rw [hopen], ?_, ?_, by rw [hopen]; exact Option.some_ne_none _,
        fun hne => absurd hdisk hne, ?_⟩
      · rw [hnew, hopen, Finset.union_comm]
        rfl
      · rw [hnew, Finset.disjoint_singleton_left]
        exact malloc_fresh A s.live
      · rw [hopen]
        exact (Grown.refl s).congr rfl rfl rfl

theorem Owns.opened (h : Owns base s.live own) (ho : Opened s s') :
    Owns (base ∪ s.newDisk0 s') s'.live own where
  blocks := by rw [ho.blocks, h.blocks, Finset.union_right_comm]
  nodup := h.nodup
  apart := by
    intro p hp hin
    rcases Finset.mem_union.mp hin with hbase | hnew
    · exact h.apart p hp hbase
    · exact Finset.disjoint_left.mp ho.fresh hnew (h.live hp)

theorem InodeRead_of_live (A : Allocator) {curdir : Nat} (h : curdir ∈ s.live.blocks) (a : Inode)
    (position len : UInt64) : s.InodeRead A a curdir position len =
      (unpriced (InodeRead s.volume.disc a position len)).map fun m => (m, s.withDisk0 A) := by
  have huse : s.live.use curdir = .ok () := if_pos h
  have hvolume := (withDisk0_opened A s).volume
  simp only [Store.InodeRead, huse, bind, Except.bind, hvolume]
  cases unpriced (InodeRead s.volume.disc a position len) with
  | error e => rfl
  | ok b => rfl

/-! ## The page of a call -/

/-- With the page of the call. -/
def Store.scratch (s : Store) (m : Nat) : Store :=
  { s with live := { s.live with pages := s.live.pages ∪ pagesFrom m 1 } }

theorem mem_pagesFrom_one : p ∈ pagesFrom m 1 ↔ p = m := by
  rw [pagesFrom, Finset.mem_Ico]
  omega

theorem newArray_of_same (h : Grown (s.scratch m) t 0) : s.newArray t = ∅ := by
  have hsize := h.size
  rw [Nat.pow_zero, Nat.one_mul] at hsize
  exact if_pos (Nat.succ.inj hsize)

theorem newArray_of_grown (h : Grown (s.scratch m) t g) (hg : g ≠ 0) :
    s.newArray t = t.array := by
  refine if_neg fun hsame => ?_
  have hsize : t.volume.cache.kINb_sz + 1 = 2 ^ g * (s.volume.cache.kINb_sz + 1) := h.size
  have hpow : 2 ≤ 2 ^ g := Nat.le_self_pow hg 2
  have := Nat.mul_le_mul_right (s.volume.cache.kINb_sz + 1) hpow
  omega

/-- A page that is not given back is in no account. -/
theorem pages_lost (h : Grown (s.scratch m) t g) (hm : m ∉ s.live.pages) :
    t.live.pages ≠ s.live.pages ∪ s.newArray t := by
  intro heq
  have hscratch : m ∈ (s.scratch m).live.pages :=
    Finset.mem_union_right _ (mem_pagesFrom_one.mpr rfl)
  have hlive := h.keeps hscratch
  rw [heq, Finset.mem_union] at hlive
  rcases hlive with hold | harray
  · exact hm hold
  · by_cases hg : g = 0
    · subst hg
      rw [newArray_of_same h] at harray
      exact absurd harray (Finset.notMem_empty m)
    · rw [newArray_of_grown h hg] at harray
      exact Finset.disjoint_left.mp (h.apart hg) harray hscratch

/-- When the page is given back the accounts are even, unless the array has grown twice. -/
theorem pages_even_iff (h : Grown (s.scratch m) t g) (hm : m ∉ s.live.pages) :
    t.live.pages \ pagesFrom m 1 = s.live.pages ∪ s.newArray t ↔
      t.volume.cache.kINb_sz ≤ 2 * s.volume.cache.kINb_sz + 1 := by
  have hiff : t.volume.cache.kINb_sz ≤ 2 * s.volume.cache.kINb_sz + 1 ↔ g ≤ 1 := h.size_le_iff
  have hpage : Disjoint (pagesFrom m 1) s.live.pages := by
    rw [Finset.disjoint_left]
    intro q hq
    rwa [mem_pagesFrom_one.mp hq]
  rw [hiff]
  constructor
  · intro heq
    by_contra hg
    obtain ⟨q, hq, hnot, harray⟩ := h.lost (by omega)
    have hleft : q ∈ t.live.pages \ pagesFrom m 1 :=
      Finset.mem_sdiff.mpr ⟨hq, fun hin => hnot (Finset.mem_union_right _ hin)⟩
    rw [heq, newArray_of_grown h (by omega), Finset.mem_union] at hleft
    rcases hleft with hold | hin
    · exact hnot (Finset.mem_union_left _ hold)
    · exact harray hin
  · intro hg
    obtain rfl | rfl : g = 0 ∨ g = 1 := by omega
    · rw [newArray_of_same h, (h.none rfl).1, Finset.union_empty]
      exact sdiff_pages hpage
    · have hapart : Disjoint t.array (pagesFrom m 1) :=
        Finset.disjoint_of_subset_right Finset.subset_union_right (h.apart Nat.one_ne_zero)
      have hpages : t.live.pages = s.live.pages ∪ t.array ∪ pagesFrom m 1 := by
        rw [h.once rfl, Finset.union_right_comm]
        rfl
      rw [newArray_of_grown h Nat.one_ne_zero, hpages]
      exact sdiff_pages (Finset.disjoint_union_right.mpr ⟨hpage, hapart.symm⟩)

/-! ## In the middle of a call -/

/-- `own` are the blocks of the call and `m` is its page. -/
structure During (s t : Store) (own : List Nat) (m : Nat) : Prop where
  owns : Owns (s.live.blocks ∪ s.newDisk0 t) t.live own
  disk0 : s.disk0 ≠ none → t.disk0 = s.disk0
  grown : ∃ g, Grown (s.scratch m) t g

theorem During.perm {own' : List Nat} (h : During s t own m) (hperm : own.Perm own') :
    During s t own' m := ⟨h.owns.perm hperm, h.disk0, h.grown⟩

/-- A semaphore that is there stays, and one that is not is new. -/
theorem newDisk0_union (h : s.disk0 ≠ none → t.disk0 = s.disk0) (ho : Opened t s') :
    s.newDisk0 t ∪ t.newDisk0 s' = s.newDisk0 s' := by
  unfold Store.newDisk0
  by_cases hs : s.disk0 = none
  · rw [if_pos hs, if_pos hs]
    by_cases ht : t.disk0 = none
    · rw [if_pos ht, ht]
      exact Finset.empty_union _
    · rw [if_neg ht, ho.same ht]
      exact Finset.union_empty _
  · rw [if_neg hs, if_neg hs, if_neg (by rw [h hs]; exact hs)]
    exact Finset.union_empty _

theorem During.opened (h : During s t own m) (ho : Opened t s') : During s s' own m := by
  obtain ⟨g, hg⟩ := h.grown
  refine ⟨?_, fun hs => ?_, g + 0, hg.trans ho.grown⟩
  · rw [← newDisk0_union h.disk0 ho, ← Finset.union_assoc]
    exact h.owns.opened ho
  · rw [ho.same (by rw [h.disk0 hs]; exact hs), h.disk0 hs]

theorem newDisk0_congr (h : s'.disk0 = t.disk0) : s.newDisk0 s' = s.newDisk0 t := by
  rw [Store.newDisk0, h, Store.newDisk0]

theorem newDisk0_of_same (h : t.disk0 = s.disk0) : s.newDisk0 t = ∅ := by
  unfold Store.newDisk0
  split
  · rename_i hnone
    rw [h, hnone]
    rfl
  · rfl

theorem During.grabbed (h : During s t own m) (hgrab : Grabbed t s' n v') :
    During s s' (n :: own) m := by
  obtain ⟨g, hg⟩ := h.grown
  obtain ⟨k, hk⟩ := hgrab.grown
  refine ⟨?_, fun hs => hgrab.disk0.trans (h.disk0 hs), g + k, hg.trans hk⟩
  rw [newDisk0_congr hgrab.disk0]
  exact h.owns.insert hgrab.fresh hgrab.blocks

theorem During.free (h : During s t (n :: own) m) :
    ∃ live, t.live.free n = .ok live ∧ During s { t with live } own m := by
  obtain ⟨live, hfree, hpages, howns⟩ := h.owns.free
  obtain ⟨g, hg⟩ := h.grown
  exact ⟨live, hfree, howns, h.disk0, g, hg.congr hpages rfl rfl⟩

/-! ## The last lookup -/

/-- The outcome of a lookup in the values and in what is live. -/
inductive Looked (s : Store) (m : Nat) : Except Halt (Option (List UInt8) × Volume) →
    Except Fault (Option (List UInt8 × Nat) × Store) → Prop
  | halt (e : Halt) : Looked s m (.error e) (.error (.halt e))
  | found {a : List UInt8} {v' : Volume} {n : Nat} {t : Store} {live : Holdings}
      (hvolume : t.volume = v') (hgrown : ∃ g, Grown (s.scratch m) t g)
      (hfresh : n ∉ s.live.blocks)
      (hblocks : live.blocks = s.live.blocks ∪ s.newDisk0 t ∪ {n})
      (hpages : live.pages = t.live.pages \ pagesFrom m 1) :
      Looked s m (.ok (some a, v')) (.ok (some (a, n), { t with live }))
  | missed {v' : Volume} {t : Store} (hgrown : ∃ g, Grown (s.scratch m) t g) :
      Looked s m (.ok (none, v')) (.ok (none, t))

theorem not_balanced_of_lost {kept : Option Nat} (h : ∃ g, Grown (s.scratch m) t g)
    (hm : m ∉ s.live.pages) : ¬ s.Balanced t kept := by
  obtain ⟨g, hg⟩ := h
  exact fun hb => pages_lost hg hm hb.pages

theorem Looked.accounted_iff {x : Except Halt (Option (List UInt8) × Volume)}
    {y : Except Fault (Option (List UInt8 × Nat) × Store)} (h : Looked s m x y)
      (hm : m ∉ s.live.pages) :
    s.Accounted y ↔ ∀ r v', x = .ok (r, v') →
      r ≠ none ∧ v'.cache.kINb_sz ≤ 2 * s.volume.cache.kINb_sz + 1 := by
  cases h with
  | halt e => exact iff_of_true trivial nofun
  | missed hgrown =>
      apply iff_of_false
      · exact not_balanced_of_lost hgrown hm
      · intro hall
        exact (hall _ _ rfl).1 rfl
  | @found a v' n t live hvolume hgrown hfresh hblocks hpages =>
      obtain ⟨g, hg⟩ := hgrown
      have heven := pages_even_iff hg hm
      rw [← hpages, hvolume] at heven
      constructor
      · intro hb r v₁ hx
        obtain ⟨rfl, rfl⟩ := Prod.mk.inj (Except.ok.inj hx)
        exact ⟨Option.some_ne_none _, heven.mp hb.pages⟩
      · intro hall
        refine ⟨fun n' hn' => ?_, hblocks, heven.mpr (hall _ _ rfl).2⟩
        obtain rfl := Option.some.inj hn'
        exact hfresh

theorem release_ok {directories : List Nat} {array : Option Nat} {name curdir : Nat}
    (h : During s t (directories ++ (array.toList ++ name :: curdir :: own)) m) :
    ∃ live, t.release m directories array name curdir = .ok { t with live } ∧
      live.pages = t.live.pages \ pagesFrom m 1 ∧
      Owns (s.live.blocks ∪ s.newDisk0 t) live own := by
  obtain ⟨g, hg⟩ := h.grown
  have hpage : pagesFrom m 1 ⊆ t.live.pages := Finset.subset_union_right.trans hg.keeps
  have hP : t.live.P_FREES m 1 = .ok { t.live with pages := t.live.pages \ pagesFrom m 1 } :=
    (if_neg (by decide)).trans (if_pos hpage)
  obtain ⟨l₁, heach, hpages₁, h₁⟩ := freeEach_ok
    (l := { t.live with pages := t.live.pages \ pagesFrom m 1 }) (h.owns.of_blocks rfl)
  obtain ⟨l₂, harray, hpages₂, h₂⟩ : ∃ l₂, ({ t with live := l₁ } : Store).freeNonNull array =
      .ok { t with live := l₂ } ∧ l₂.pages = l₁.pages ∧
      Owns (s.live.blocks ∪ s.newDisk0 t) l₂ (name :: curdir :: own) := by
    cases array with
    | none => exact ⟨l₁, rfl, rfl, h₁⟩
    | some p =>
        obtain ⟨l₂, hfree, hpages, hrest⟩ := Owns.free h₁
        refine ⟨l₂, ?_, hpages, hrest⟩
        simp only [Store.freeNonNull, hfree, bind, Except.bind, pure, Except.pure]
  obtain ⟨l₃, hname, hpages₃, h₃⟩ := h₂.free
  obtain ⟨l₄, hcurdir, hpages₄, h₄⟩ := h₃.free
  refine ⟨l₄, ?_, ?_, h₄⟩
  · simp only [Store.release, hP, heach, harray, hname, hcurdir, bind, Except.bind, pure,
      Except.pure]
  · rw [hpages₄, hpages₃, hpages₂, hpages₁]

/-- A search behind an `InodeRead`. -/
theorem findEntry_cases {v : Volume} (dir : Inode) (name : List UInt8) :
    (∃ e, InodeRead v.disc dir 0x0 0x200 = .error e ∧ findEntry v dir name = .error e) ∨
      ∃ b, InodeRead v.disc dir 0x0 0x200 = .ok b ∧
        findEntry v dir name = searchIds v name (idList b) := by
  cases hread : InodeRead v.disc dir 0x0 0x200 with
  | error e => exact .inl ⟨e, rfl, by simp only [findEntry, hread, bind, Except.bind]⟩
  | ok b => exact .inr ⟨b, rfl, by simp only [findEntry, hread, bind, Except.bind]⟩

theorem During.grown_trans (h : During s t own m) (hg : ∃ g, Grown t s' g) :
    ∃ g, Grown (s.scratch m) s' g := by
  obtain ⟨g, hg'⟩ := h.grown
  obtain ⟨k, hk⟩ := hg
  exact ⟨g + k, hg'.trans hk⟩

theorem lookupLast_looked (A : Allocator) {directories : List Nat} {array : Option Nat}
    {nameBlock curdir : Nat} (text : List UInt8) (dir : Inode)
    (h : During s t (directories ++ (array.toList ++ nameBlock :: curdir :: [])) m) :
    Looked s m (findEntry t.volume dir text)
      (t.lookupLast A text m directories array nameBlock dir curdir) := by
  have hlive : curdir ∈ t.live.blocks := h.owns.live (by simp)
  have hopen := withDisk0_opened A t
  have hduring := h.opened hopen
  rw [Store.lookupLast, InodeRead_of_live A hlive]
  rcases findEntry_cases dir text with ⟨e, hread, hfind⟩ | ⟨b, hread, hfind⟩
  · rw [hread, hfind]
    exact .halt e
  · rw [hread, hfind, ← hopen.volume]
    have hsearch := searchLast_searched A text (idList b) hopen.disk0
    simp only [unpriced, Except.mapError, Except.map, bind, Except.bind]
    generalize searchIds (t.withDisk0 A).volume text (idList b) = x at hsearch
    generalize (t.withDisk0 A).searchLast A text (idList b) = y at hsearch
    cases hsearch with
    | halt e => exact .halt e
    | missed hvolume hgrown => exact .missed (hduring.grown_trans hgrown)
    | @found s₂ a n v' hgrab =>
        have hown := hduring.grabbed hgrab
        have hperm : (n :: (directories ++ (array.toList ++ nameBlock :: curdir :: []))).Perm
            (directories ++ (array.toList ++ nameBlock :: curdir :: [n])) := by
          have hlast := List.perm_append_singleton n
            (directories ++ (array.toList ++ nameBlock :: curdir :: []))
          rw [List.append_assoc, List.append_assoc] at hlast
          exact hlast.symm
        obtain ⟨live, hrelease, hpages, howns⟩ := release_ok (hown.perm hperm)
        have hnew := howns.apart n (List.mem_singleton_self n)
        rw [Finset.mem_union, not_or] at hnew
        simp only [hrelease, pure, Except.pure]
        exact .found hgrab.volume hown.grown hnew.1 howns.blocks hpages

/-! ## The directories on the way -/

/-- The first directory: no inode has been grabbed yet. -/
theorem walk_first (A : Allocator) (directory : List UInt8) (directories : List (List UInt8))
    (dir : Inode) {curdir : Nat} (h : During s t (curdir :: own) m) :
    (∃ e, findEntry t.volume dir directory = .error e ∧
        Store.walk A (directory :: directories) dir curdir none t = .error (.halt e)) ∨
      (∃ v' t', findEntry t.volume dir directory = .ok (none, v') ∧
        Store.walk A (directory :: directories) dir curdir none t = .ok (none, t') ∧
        ∃ g, Grown (s.scratch m) t' g) ∨
      ∃ a v' n t', findEntry t.volume dir directory = .ok (some a, v') ∧
        Store.walk A (directory :: directories) dir curdir none t =
          Store.walk A directories (.ofPacked a) n (some n) t' ∧
        t'.volume = v' ∧ During s t' (n :: own) m := by
  have hlive : curdir ∈ t.live.blocks := h.owns.live (List.mem_cons_self ..)
  have hopen := withDisk0_opened A t
  have hduring := h.opened hopen
  rw [Store.walk, InodeRead_of_live A hlive]
  rcases findEntry_cases dir directory with ⟨e, hread, hfind⟩ | ⟨b, hread, hfind⟩
  · rw [hread, hfind]
    exact .inl ⟨e, rfl, rfl⟩
  · rw [hread, hfind, ← hopen.volume]
    have hsearch := searchDirectory_searched A directory (idList b) (n := none) hopen.disk0 rfl
    simp only [unpriced, Except.mapError, Except.map, bind, Except.bind]
    generalize searchIds (t.withDisk0 A).volume directory (idList b) = x at hsearch
    generalize Store.searchDirectory A directory (idList b) none (t.withDisk0 A) = y at hsearch
    cases hsearch with
    | halt e => exact .inl ⟨e, rfl, rfl⟩
    | @missed t' v' hvolume hgrown =>
        exact .inr (.inl ⟨v', t', rfl, rfl, hduring.grown_trans hgrown⟩)
    | @found s₂ a n v' hgrab =>
        have hown := (hduring.grabbed hgrab).perm (List.Perm.swap curdir n own)
        obtain ⟨live, hfree, hnext⟩ := hown.free
        refine .inr (.inr ⟨a, v', n, { s₂ with live }, rfl, ?_, hgrab.volume, hnext⟩)
        simp only [hfree]

/-- Any further directory: `n` still points to `curdir`, which is freed with the first inode that is
grabbed, and once more at the end. Where its address has been given to the new inode by then, that
one is freed. -/
theorem walk_second (A : Allocator) (directory : List UInt8) (directories : List (List UInt8))
    (dir : Inode) {curdir : Nat} (h : During s t (curdir :: own) m) :
    (∃ e, findEntry t.volume dir directory = .error e ∧
        Store.walk A (directory :: directories) dir curdir (some curdir) t = .error (.halt e)) ∨
      (∃ v' t', findEntry t.volume dir directory = .ok (none, v') ∧
        Store.walk A (directory :: directories) dir curdir (some curdir) t = .ok (none, t') ∧
        ∃ g, Grown (s.scratch m) t' g) ∨
      ∃ a v' n t', findEntry t.volume dir directory = .ok (some a, v') ∧
        (Store.walk A (directory :: directories) dir curdir (some curdir) t = .error (.dead curdir) ∨
          Store.walk A (directory :: directories) dir curdir (some curdir) t =
            Store.walk A directories (.ofPacked a) n (some n) t') ∧ n ∉ t'.live.blocks := by
  have hlive : curdir ∈ t.live.blocks := h.owns.live (List.mem_cons_self ..)
  have hopen := withDisk0_opened A t
  have hduring := h.opened hopen
  obtain ⟨live, hfree, hfreed⟩ := hduring.free
  have hstart : (t.withDisk0 A).freeNonNull (some curdir) = .ok { t.withDisk0 A with live } := by
    simp only [Store.freeNonNull, hfree, bind, Except.bind, pure, Except.pure]
  rw [Store.walk, InodeRead_of_live A hlive]
  rcases findEntry_cases dir directory with ⟨e, hread, hfind⟩ | ⟨b, hread, hfind⟩
  · rw [hread, hfind]
    exact .inl ⟨e, rfl, rfl⟩
  · rw [hread, hfind, ← hopen.volume]
    have hsearch := searchDirectory_searched A directory (idList b) hopen.disk0 hstart
    simp only [unpriced, Except.mapError, Except.map, bind, Except.bind]
    generalize searchIds (t.withDisk0 A).volume directory (idList b) = x at hsearch
    generalize Store.searchDirectory A directory (idList b) (some curdir) (t.withDisk0 A) = y
      at hsearch
    cases hsearch with
    | halt e => exact .inl ⟨e, rfl, rfl⟩
    | @missed t' v' hvolume hgrown =>
        exact .inr (.inl ⟨v', t', rfl, rfl, hfreed.grown_trans hgrown⟩)
    | @found s₂ a n v' hgrab =>
        have hnot : curdir ∉ live.blocks := by
          obtain ⟨hout, hnodup⟩ := List.nodup_cons.mp hduring.owns.nodup
          rw [hfreed.owns.blocks, Finset.mem_union, List.mem_toFinset, not_or]
          exact ⟨hduring.owns.apart curdir (List.mem_cons_self ..), hout⟩
        by_cases hreuse : curdir = n
        · subst hreuse
          have hmem : curdir ∈ s₂.live.blocks := by
            rw [hgrab.blocks]
            exact Finset.mem_insert_self ..
          refine .inr (.inr ⟨a, v', curdir, { s₂ with
            live := { s₂.live with blocks := s₂.live.blocks.erase curdir } }, rfl, .inr ?_, ?_⟩)
          · simp only [free_of_mem hmem]
          · exact Finset.notMem_erase curdir s₂.live.blocks
        · have hdead : curdir ∉ s₂.live.blocks := by
            rw [hgrab.blocks, Finset.mem_insert, not_or]
            exact ⟨hreuse, hnot⟩
          refine .inr (.inr ⟨a, v', curdir, { s₂ with live }, rfl, .inl ?_, hnot⟩)
          simp only [free_of_not_mem hdead]

/-- What has been freed is used in the next directory, or in the last one. -/
theorem walk_dead (A : Allocator) {directories : List (List UInt8)} {text : List UInt8}
    {ps : List Nat} {array n' : Option Nat} {nameBlock : Nat} (h : n ∉ t.live.blocks) :
    ((Store.walk A directories dir n n' t >>= Store.afterWalk A text m ps array nameBlock :
      Except Fault (Option (List UInt8 × Nat) × Store)) = .error (.dead n)) := by
  have huse : t.live.use n = .error (.dead n) := if_neg h
  cases directories with
  | nil =>
      change t.lookupLast A text m ps array nameBlock dir n = _
      simp only [Store.lookupLast, Store.InodeRead, huse, bind, Except.bind]
  | cons directory directories =>
      simp only [Store.walk, Store.InodeRead, huse, bind, Except.bind]

end UnnamedOS.Files
