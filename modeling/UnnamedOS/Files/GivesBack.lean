import Mathlib.Order.Lattice.Nat
import UnnamedOS.Files.Accounts
import UnnamedOS.Files.Paths
import UnnamedOS.Files.Slots

/-!
# When a call gives back what it took

A lookup does when the file is found at most one directory down and the array of the inode cache
grows at most once. `addtoD` does for a directory of one sector, and does not get to its end for one
without sectors.
-/

namespace UnnamedOS.Files

open UnnamedOS.Lib

variable {A : Allocator} {s s' t : Store} {own : List Nat} {a name : List UInt8} {v v' : Volume}
  {g n m p T z : Nat} {dir basedir : Inode}

/-- A lookup that ends finds something. -/
def Found (v : Volume) (dir : Inode) (name : List UInt8) (next : Inode → Volume → Prop) : Prop :=
  ∀ r v', findEntry v dir name = .ok (r, v') → ∃ a, r = some a ∧ next (.ofPacked a) v'

/-- An array of `T` pages has room for the inodes that the lookup grabs. -/
def InRange (T : Nat) (v : Volume) (dir : Inode) (name : List UInt8) : Prop :=
  ∀ b, InodeRead v.disc dir 0x0 0x200 = .ok b → Grabs T name v (idList b)

/-- With two directories on the way there is no end that gives everything back. -/
def LookupGivesBack (v : Volume) (basedir : Inode) (name : List UInt8) : List (List UInt8) → Prop
  | [] => Found v basedir name fun _ _ => InRange (2 * v.cache.kINb_sz + 1) v basedir name
  | [directory] => Found v basedir directory fun a v₁ => Found v₁ a name fun _ _ =>
      InRange (2 * v.cache.kINb_sz + 1) v basedir directory ∧
        InRange (2 * v.cache.kINb_sz + 1) v₁ a name
  | first :: second :: _ => Found v basedir first fun a v₁ => Found v₁ a second fun _ _ => False

theorem findEntry_size {r : Option (List UInt8)} (hT : T = 2 * z + 1)
    (hv : v.cache.kINb_sz = z ∨ v.cache.kINb_sz = T) (h : findEntry v dir name = .ok (r, v')) :
    v'.cache.kINb_sz ≤ T ↔ InRange T v dir name := by
  rcases findEntry_cases dir name with ⟨e, hread, hfind⟩ | ⟨b, hread, hfind⟩
  · rw [hfind] at h
    cases h
  · rw [hfind] at h
    rw [searchIds_size hT hv h]
    constructor
    · intro hg b' hb'
      obtain rfl := Except.ok.inj (hread.symm.trans hb')
      exact hg
    · exact fun hr => hr b hread

theorem findEntry_sizeGrown {r : Option (List UInt8)} (h : findEntry v dir name = .ok (r, v')) :
    SizeGrown v v' := by
  rcases findEntry_cases dir name with ⟨e, hread, hfind⟩ | ⟨b, hread, hfind⟩
  · rw [hfind] at h
    cases h
  · rw [hfind] at h
    exact searchIds_sizeGrown h

/-! ## The start of a call -/

theorem entered_perm {ps array : List Nat} {nameBlock curdir : Nat} :
    (curdir :: nameBlock :: (ps.reverse ++ array)).Perm
      (ps ++ (array ++ nameBlock :: curdir :: [])) := by
  rw [List.perm_iff_count]
  intro q
  simp only [List.count_cons, List.count_append, List.count_reverse, List.count_nil]
  omega

theorem unpriced_ok_bind {α β : Type} (b : α) (f : α → Except Fault β) :
    (unpriced (.ok b) >>= f) = f b := rfl

/-- When the path has been taken apart the call has all its blocks but those of inodes. -/
theorem getFileFromFilename_entered (A : Allocator) (s : Store) (basedir : Inode)
    {filename : Filename} {p : List UInt8} {slashcount : Nat} {i : Int}
    (htext : textFrom filename intRange 0 = .ok p) (hruns : slashRuns p false = .ok slashcount)
    (hstart : nameStart filename (p.length + intRange) p.length = .ok i) :
    ∃ ps array nameBlock curdir m t, s.getFileFromFilename A basedir filename =
        (Store.walk A (directoriesOf (slashcount - 1) (p.drop 1)) basedir curdir none t >>=
          Store.afterWalk A (nameBetween filename i p.length) m ps array nameBlock) ∧
      t.volume = s.volume ∧ m ∉ s.live.pages ∧
      During s t (curdir :: nameBlock :: (ps.reverse ++ array.toList)) m := by
  obtain ⟨hpages₁, h₁⟩ := mallocDirectories_owns A (directoriesOf (slashcount - 1) (p.drop 1))
    (Owns.start s.live)
  generalize harray : Store.mallocDirectories A (directoriesOf (slashcount - 1) (p.drop 1)) s.live =
    start at hpages₁ h₁
  obtain ⟨array, l₁⟩ := start
  rw [List.append_nil] at h₁
  obtain ⟨hpages₂, h₂⟩ := mallocEach_owns A (directoriesOf (slashcount - 1) (p.drop 1)) h₁
  generalize heach : Store.mallocEach A (directoriesOf (slashcount - 1) (p.drop 1)) l₁ = rest
    at hpages₂ h₂
  obtain ⟨ps, l₂⟩ := rest
  have h₃ := (h₂.malloc A).malloc A
  have hpages : ((l₂.malloc A).2.malloc A).2.pages = s.live.pages := hpages₂.trans hpages₁
  have hpage := KPALLOCS_fresh A ((l₂.malloc A).2.malloc A).2 1
  rw [hpages] at hpage
  refine ⟨ps, array, (l₂.malloc A).1, ((l₂.malloc A).2.malloc A).1,
    (((l₂.malloc A).2.malloc A).2.KPALLOCS A 1).1,
    { s with live := (((l₂.malloc A).2.malloc A).2.KPALLOCS A 1).2 }, ?_, rfl, ?_, ?_⟩
  · rw [Store.getFileFromFilename, htext, unpriced_ok_bind, hruns, unpriced_ok_bind]
    dsimp only
    rw [harray]
    dsimp only
    rw [heach]
    dsimp only
    rw [hstart, unpriced_ok_bind]
  · exact Finset.disjoint_left.mp hpage (mem_pagesFrom_one.mpr rfl)
  · have hnone : s.newDisk0 { s with
        live := (((l₂.malloc A).2.malloc A).2.KPALLOCS A 1).2 } = ∅ := newDisk0_of_same rfl
    refine ⟨?_, fun _ => rfl, 0, (Grown.refl _).congr ?_ rfl rfl⟩
    · rw [hnone, Finset.union_empty]
      exact h₃.of_blocks rfl
    · exact congrArg (· ∪ pagesFrom (((l₂.malloc A).2.malloc A).2.KPALLOCS A 1).1 1) hpages

/-! ## The ends of a lookup -/

theorem found_of_error {next : Inode → Volume → Prop} {e : Halt}
    (h : findEntry v dir name = .error e) : Found v dir name next := by
  intro r v' hfind
  rw [h] at hfind
  cases hfind

theorem not_found_of_missed {next : Inode → Volume → Prop}
    (h : findEntry v dir name = .ok (none, v')) : ¬ Found v dir name next := by
  intro hfound
  obtain ⟨a, ha, -⟩ := hfound _ _ h
  cases ha

theorem found_iff_of_some {next : Inode → Volume → Prop}
    (h : findEntry v dir name = .ok (some a, v')) :
    Found v dir name next ↔ next (.ofPacked a) v' := by
  constructor
  · intro hfound
    obtain ⟨a', ha', hnext⟩ := hfound _ _ h
    obtain rfl := Option.some.inj ha'
    exact hnext
  · intro hnext r v₁ hfind
    obtain ⟨rfl, rfl⟩ := Prod.mk.inj (Except.ok.inj (h.symm.trans hfind))
    exact ⟨a, rfl, hnext⟩

/-- What an even account asks for behind the last lookup. -/
theorem found_iff {P : Prop} (h : ∀ r v', findEntry v dir name = .ok (r, v') →
      (v'.cache.kINb_sz ≤ T ↔ P)) :
    (∀ r v', findEntry v dir name = .ok (r, v') → r ≠ none ∧ v'.cache.kINb_sz ≤ T) ↔
      Found v dir name fun _ _ => P := by
  constructor
  · intro hall r v' hfind
    obtain ⟨hsome, hsize⟩ := hall r v' hfind
    obtain ⟨a, rfl⟩ := Option.ne_none_iff_exists'.mp hsome
    exact ⟨a, rfl, (h _ _ hfind).mp hsize⟩
  · intro hfound r v' hfind
    obtain ⟨a, rfl, hP⟩ := hfound r v' hfind
    exact ⟨Option.some_ne_none a, (h _ _ hfind).mpr hP⟩

section Depths

variable {ps : List Nat} {array : Option Nat} {nameBlock curdir : Nat}
  {directory : List UInt8} {directories : List (List UInt8)} {text : List UInt8}

/-- A file of the directory that the call starts from. -/
theorem accounted_here (h : During s t (curdir :: nameBlock :: (ps.reverse ++ array.toList)) m)
    (hvolume : t.volume = s.volume) (hm : m ∉ s.live.pages) :
    s.Accounted (Store.walk A [] basedir curdir none t >>=
        Store.afterWalk A text m ps array nameBlock) ↔
      LookupGivesBack s.volume basedir text [] := by
  have hlooked := lookupLast_looked A text basedir (h.perm entered_perm)
  rw [hvolume] at hlooked
  refine (hlooked.accounted_iff hm).trans (found_iff fun r v' hfind => ?_)
  exact findEntry_size rfl (.inl rfl) hfind

/-- A file one directory down. -/
theorem accounted_below (h : During s t (curdir :: nameBlock :: (ps.reverse ++ array.toList)) m)
    (hvolume : t.volume = s.volume) (hm : m ∉ s.live.pages) :
    s.Accounted (Store.walk A [directory] basedir curdir none t >>=
        Store.afterWalk A text m ps array nameBlock) ↔
      LookupGivesBack s.volume basedir text [directory] := by
  have hfirst := walk_first A directory [] basedir h
  rw [hvolume] at hfirst
  rw [LookupGivesBack]
  rcases hfirst with ⟨e, hfind, hwalk⟩ | ⟨v', t', hfind, hwalk, hgrown⟩ |
    ⟨a, v', n, t', hfind, hwalk, hvolume', hduring⟩
  · rw [hwalk]
    exact iff_of_true trivial (found_of_error hfind)
  · rw [hwalk]
    exact iff_of_false (not_balanced_of_lost hgrown hm) (not_found_of_missed hfind)
  · have hlooked := lookupLast_looked A text (.ofPacked a) (hduring.perm entered_perm)
    rw [hvolume'] at hlooked
    rw [hwalk]
    refine Iff.trans ((hlooked.accounted_iff hm).trans ?_) (found_iff_of_some hfind).symm
    apply found_iff
    intro r v'' hfind'
    have hsize := findEntry_size rfl (.inl rfl) hfind
    have hgrown := findEntry_sizeGrown hfind
    constructor
    · intro hle
      have hle' := Nat.le_trans (findEntry_sizeGrown hfind').mono hle
      have hnext := findEntry_size rfl (hgrown.small rfl (.inl rfl) hle') hfind'
      exact ⟨hsize.mp hle', hnext.mp hle⟩
    · intro hrange
      have hle' := hsize.mpr hrange.1
      have hnext := findEntry_size rfl (hgrown.small rfl (.inl rfl) hle') hfind'
      exact hnext.mpr hrange.2

/-- A file further down. -/
theorem accounted_deep {second : List UInt8}
    (h : During s t (curdir :: nameBlock :: (ps.reverse ++ array.toList)) m)
    (hvolume : t.volume = s.volume) (hm : m ∉ s.live.pages) :
    s.Accounted (Store.walk A (directory :: second :: directories) basedir curdir none t >>=
        Store.afterWalk A text m ps array nameBlock) ↔
      LookupGivesBack s.volume basedir text (directory :: second :: directories) := by
  have hfirst := walk_first A directory (second :: directories) basedir h
  rw [hvolume] at hfirst
  rw [LookupGivesBack]
  rcases hfirst with ⟨e, hfind, hwalk⟩ | ⟨v', t', hfind, hwalk, hgrown⟩ |
    ⟨a, v', n, t', hfind, hwalk, hvolume', hduring⟩
  · rw [hwalk]
    exact iff_of_true trivial (found_of_error hfind)
  · rw [hwalk]
    exact iff_of_false (not_balanced_of_lost hgrown hm) (not_found_of_missed hfind)
  · rw [hwalk]
    refine Iff.trans ?_ (found_iff_of_some hfind).symm
    have hsecond := walk_second A second directories (.ofPacked a) hduring
    rw [hvolume'] at hsecond
    rcases hsecond with ⟨e, hfind', hwalk'⟩ | ⟨v'', t'', hfind', hwalk', hgrown⟩ |
      ⟨a', v'', n', t'', hfind', hwalk', hfreed⟩
    · rw [hwalk']
      exact iff_of_true trivial (found_of_error hfind')
    · rw [hwalk']
      exact iff_of_false (not_balanced_of_lost hgrown hm) (not_found_of_missed hfind')
    · apply iff_of_false
      · rcases hwalk' with hdead | hnext
        · rw [hdead]
          exact fun hf => hf
        · rw [hnext, walk_dead A hfreed]
          exact fun hf => hf
      · exact (found_iff_of_some hfind').not.mpr (fun hf => hf)

end Depths

theorem getFileFromFilename_accounted_iff (A : Allocator) (s : Store) (basedir : Inode)
    (filename : Filename) : s.Accounted (s.getFileFromFilename A basedir filename) ↔
      ∀ p slashcount i, textFrom filename intRange 0 = .ok p →
        slashRuns p false = .ok slashcount →
        nameStart filename (p.length + intRange) p.length = .ok i →
        LookupGivesBack s.volume basedir (nameBetween filename i p.length)
          (directoriesOf (slashcount - 1) (p.drop 1)) := by
  cases htext : textFrom filename intRange 0 with
  | error e =>
      apply iff_of_true
      · rw [Store.getFileFromFilename, htext]
        trivial
      · intro p slashcount i h
        cases h
  | ok p =>
      cases hruns : slashRuns p false with
      | error e =>
          apply iff_of_true
          · rw [Store.getFileFromFilename, htext, unpriced_ok_bind, hruns]
            trivial
          · intro p' slashcount i h h'
            obtain rfl := Except.ok.inj h
            rw [hruns] at h'
            cases h'
      | ok slashcount =>
          cases hstart : nameStart filename (p.length + intRange) p.length with
          | error e =>
              apply iff_of_true
              · rw [Store.getFileFromFilename, htext, unpriced_ok_bind, hruns, unpriced_ok_bind]
                dsimp only
                rw [hstart]
                trivial
              · intro p' slashcount' i h h' h''
                obtain rfl := Except.ok.inj h
                rw [hstart] at h''
                cases h''
          | ok i =>
              obtain ⟨ps, array, nameBlock, curdir, m, t, hcall, hvolume, hm, hduring⟩ :=
                getFileFromFilename_entered A s basedir htext hruns hstart
              have hiff : s.Accounted (s.getFileFromFilename A basedir filename) ↔
                  LookupGivesBack s.volume basedir (nameBetween filename i p.length)
                    (directoriesOf (slashcount - 1) (p.drop 1)) := by
                rw [hcall]
                cases hdirs : directoriesOf (slashcount - 1) (p.drop 1) with
                | nil => exact accounted_here hduring hvolume hm
                | cons directory rest =>
                    cases rest with
                    | nil => exact accounted_below hduring hvolume hm
                    | cons second directories => exact accounted_deep hduring hvolume hm
              rw [hiff]
              constructor
              · intro hback p' slashcount' i' h h' h''
                obtain rfl := Except.ok.inj h
                obtain rfl := Except.ok.inj (hruns.symm.trans h')
                obtain rfl := Except.ok.inj (hstart.symm.trans h'')
                exact hback
              · intro hall
                exact hall p slashcount i rfl hruns hstart

/-! ## Adding to a directory -/

/-- Pages are given back evenly in the number that was taken. -/
theorem P_FREES_even_iff (A : Allocator) (l : Holdings) (size : Nat) {k : Nat} (hk : k ≠ 0) :
    (∃ l', (l.KPALLOCS A size).2.P_FREES (l.KPALLOCS A size).1 k = .ok l' ∧ l'.pages = l.pages) ↔
      k = size := by
  have hfresh := KPALLOCS_fresh A l size
  generalize hb : (l.KPALLOCS A size).1 = b at hfresh
  have hpages : (l.KPALLOCS A size).2.pages = l.pages ∪ pagesFrom b size := by
    rw [← hb]
    rfl
  constructor
  · rintro ⟨l', hfree, heven⟩
    rw [Holdings.P_FREES, if_neg (by omega)] at hfree
    split at hfree
    · rename_i hsub
      obtain rfl := Except.ok.inj hfree
      change (l.KPALLOCS A size).2.pages \ pagesFrom b k = l.pages at heven
      rw [hpages] at hsub heven
      rcases Nat.lt_trichotomy k size with hlt | heq | hgt
      · -- the first page that is not given back
        have hmem : b + k ∈ (l.pages ∪ pagesFrom b size) \ pagesFrom b k := by
          apply Finset.mem_sdiff.mpr
          refine ⟨Finset.mem_union_right _ (Finset.mem_Ico.mpr (by omega)), fun hin => ?_⟩
          have := Finset.mem_Ico.mp hin
          omega
        rw [heven] at hmem
        exact absurd hmem (Finset.disjoint_left.mp hfresh (Finset.mem_Ico.mpr (by omega)))
      · exact heq
      · -- a page of someone else
        have hin : b + size ∈ pagesFrom b k := Finset.mem_Ico.mpr (by omega)
        rcases Finset.mem_union.mp (hsub hin) with hold | hnew
        · rw [← heven] at hold
          exact absurd hin (Finset.mem_sdiff.mp hold).2
        · have := Finset.mem_Ico.mp hnew
          omega
    · cases hfree
  · rintro rfl
    have hsub : pagesFrom b k ⊆ (l.KPALLOCS A k).2.pages := by
      rw [hpages]
      exact Finset.subset_union_right
    refine ⟨_, (if_neg (by omega)).trans (if_pos hsub), ?_⟩
    change (l.KPALLOCS A k).2.pages \ pagesFrom b k = l.pages
    rw [hpages]
    exact sdiff_pages hfresh

theorem P_FREES_cases (l : Holdings) (b : Nat) {k : Nat} (hk : k ≠ 0) :
    l.P_FREES b k = .error (.dead b) ∨ ∃ l', l.P_FREES b k = .ok l' ∧ l'.blocks = l.blocks := by
  rw [Holdings.P_FREES, if_neg (by omega)]
  split
  · exact .inr ⟨_, rfl, rfl⟩
  · exact .inl rfl

/-- Nothing but pages is taken on the way. -/
theorem accounted_pages_iff {live : Holdings} (hblocks : live.blocks = s.live.blocks)
    (hsize : v.cache.kINb_sz = s.volume.cache.kINb_sz) :
    s.Accounted (.ok (none, { s with volume := v, live })) ↔ live.pages = s.live.pages := by
  have hnew : s.newDisk0 { s with volume := v, live } = ∅ := newDisk0_of_same rfl
  have harray : s.newArray { s with volume := v, live } = ∅ := if_pos hsize
  constructor
  · intro hb
    have hpages := hb.pages
    rw [harray, Finset.union_empty] at hpages
    exact hpages
  · intro hpages
    refine ⟨nofun, ?_, ?_⟩
    · rw [hnew, Finset.union_empty]
      exact hblocks.trans (Finset.union_empty _).symm
    · rw [harray, Finset.union_empty]
      exact hpages

theorem addtoD_returns {dir : Vnode} (v : Volume) (toadd : UInt64) (hdisk : dir.disk = 0)
    (hlen : (dir.a.chunklen <<< 9).toUInt16 &&& 511 = 0) :
    ∃ v', addtoD v dir toadd = .ok v' ∧ v'.cache.kINb_sz = v.cache.kINb_sz := by
  have hread : read v.disc dir.a.chunkaddr1 dir.disk (dir.a.chunklen <<< 9).toUInt16 =
      .ok (stretch v.disc (512 * dir.a.chunkaddr1.toNat)
        (dir.a.chunklen <<< 9).toUInt16.toNat) := by
    rw [read, if_neg (fun h => h hdisk), if_neg (fun h => h hlen)]
  have hwrite : ∀ data, write v.disc dir.a.chunkaddr1 dir.disk
      (dir.a.chunklen <<< 9).toUInt16 data = .ok (overwrite v.disc
        (512 * dir.a.chunkaddr1.toNat) (data.take (dir.a.chunklen <<< 9).toUInt16.toNat)) := by
    intro data
    rw [write, if_neg (fun h => h hdisk), if_neg (fun h => h hlen)]
  refine ⟨_, by simp only [addtoD, hread, hwrite, bind, Except.bind, pure, Except.pure]; rfl, ?_⟩
  change (v.cache.kINb_invalidate dir.id).kINb_sz = _
  unfold Cache.kINb_invalidate
  split
  · rfl
  · rfl

section Directory

variable {dir : Vnode} {toadd : UInt64}

theorem directory_bytes (a : Inode) :
    (a.chunklen <<< 9).toUInt16.toNat = 512 * (a.chunklen.toNat % 128) := by
  rw [UInt64.toNat_toUInt16, toNat_shiftLeft_nine]
  omega

/-- What `addtoD` gives back. -/
theorem directory_pages (a : Inode) : (a.chunklen >>> 3).toNat +
      (if (a.chunklen <<< 9) &&& 0xfff = 0 then 0 else 1) =
    a.chunklen.toNat / 8 + if a.chunklen.toNat % 8 = 0 then 0 else 1 := by
  have hshift : (a.chunklen >>> 3).toNat = a.chunklen.toNat / 8 := by
    rw [UInt64.toNat_shiftRight, Nat.shiftRight_eq_div_pow]
    rfl
  have hmask : ((a.chunklen <<< 9) &&& 0xfff).toNat = 512 * (a.chunklen.toNat % 8) := by
    have hand : ((a.chunklen <<< 9) &&& 0xfff).toNat = (a.chunklen <<< 9).toNat % 4096 := by
      rw [UInt64.toNat_and]
      exact Nat.and_two_pow_sub_one_eq_mod _ 12
    rw [hand, toNat_shiftLeft_nine]
    omega
  have hzero : (a.chunklen <<< 9) &&& 0xfff = 0 ↔ a.chunklen.toNat % 8 = 0 := by
    rw [← UInt64.toNat_inj, hmask]
    change 512 * (a.chunklen.toNat % 8) = 0 ↔ _
    omega
  rw [hshift]
  simp only [hzero]

theorem directory_pages_zero_iff (a : Inode) :
    a.chunklen.toNat / 8 + (if a.chunklen.toNat % 8 = 0 then 0 else 1) = 0 ↔ a.chunklen = 0 := by
  rw [← UInt64.toNat_inj]
  change _ ↔ a.chunklen.toNat = 0
  split <;> omega

theorem directory_pages_one_iff (a : Inode) (hshort : ¬ 2 ≤ a.chunklen.toNat % 128) :
    a.chunklen.toNat / 8 + (if a.chunklen.toNat % 8 = 0 then 0 else 1) = 1 ↔ a.chunklen = 1 := by
  rw [← UInt64.toNat_inj]
  change _ ↔ a.chunklen.toNat = 1
  split <;> omega

theorem chunklen_le_one_iff (a : Inode) : a.chunklen ≤ 1 ↔ a.chunklen = 0 ∨ a.chunklen = 1 := by
  rw [UInt64.le_iff_toNat_le, ← UInt64.toNat_inj, ← UInt64.toNat_inj]
  change a.chunklen.toNat ≤ 1 ↔ a.chunklen.toNat = 0 ∨ a.chunklen.toNat = 1
  omega

/-- A list of two sectors or more is not written back. -/
theorem writable_directory (a : Inode) : Store.writable (a.chunklen <<< 9).toUInt16 =
    if 2 ≤ a.chunklen.toNat % 128 then
      .error (.error (.other 0x7) (a.chunklen <<< 9).toUInt16.toUInt64)
    else .ok () := by
  have hiff : ((a.chunklen <<< 9).toUInt16 = 0 ∨ (a.chunklen <<< 9).toUInt16 = 512) ↔
      ¬ 2 ≤ a.chunklen.toNat % 128 := by
    rw [← UInt16.toNat_inj, ← UInt16.toNat_inj, directory_bytes]
    change 512 * (a.chunklen.toNat % 128) = 0 ∨ 512 * (a.chunklen.toNat % 128) = 512 ↔ _
    omega
  unfold Store.writable
  by_cases hlong : 2 ≤ a.chunklen.toNat % 128
  · rw [if_pos hlong, if_neg (fun h => hiff.mp h hlong)]
  · rw [if_neg hlong, if_pos (hiff.mpr hlong)]

theorem read_directory (s : Store) (hdisk : dir.disk = 0) :
    read s.volume.disc dir.a.chunkaddr1 dir.disk (dir.a.chunklen <<< 9).toUInt16 =
      .ok (stretch s.volume.disc (512 * dir.a.chunkaddr1.toNat)
        (dir.a.chunklen <<< 9).toUInt16.toNat) := by
  have hmask : (dir.a.chunklen <<< 9).toUInt16 &&& 511 = 0 :=
    and_sector_eq_zero ⟨_, directory_bytes dir.a⟩
  rw [read, if_neg (fun h => h hdisk), if_neg (fun h => h hmask)]

/-- A list of at most one sector comes back in its one page. -/
theorem addtoD_short_accounted_iff (A : Allocator) (s : Store) (toadd : UInt64)
    (hdisk : dir.disk = 0) (hshort : ¬ 2 ≤ dir.a.chunklen.toNat % 128) :
    s.Accounted ((s.addtoD A dir toadd).map fun s' => (none, s')) ↔ dir.a.chunklen ≤ 1 := by
  have hbytes := directory_bytes dir.a
  have hmask : (dir.a.chunklen <<< 9).toUInt16 &&& 511 = 0 := and_sector_eq_zero ⟨_, hbytes⟩
  have hread := read_directory s hdisk
  have hwritable := writable_directory dir.a
  rw [if_neg hshort] at hwritable
  obtain ⟨v', hadd, hsize⟩ := addtoD_returns s.volume toadd hdisk hmask
  have hcount : (dir.a.chunklen <<< 9).toUInt16.toNat / 4096 + 1 = 1 := by omega
  have hpages := directory_pages_zero_iff dir.a
  have hone := directory_pages_one_iff dir.a hshort
  simp only [Store.addtoD, hread, hwritable, hadd, hcount, directory_pages, unpriced,
    Except.mapError, bind, Except.bind]
  generalize dir.a.chunklen.toNat / 8 +
    (if dir.a.chunklen.toNat % 8 = 0 then 0 else 1) = k at hpages hone
  rw [chunklen_le_one_iff]
  by_cases hzero : dir.a.chunklen = 0
  · -- the number of pages is refused
    have hnone : k = 0 := hpages.mpr hzero
    have hstop : (s.live.KPALLOCS A 1).2.P_FREES (s.live.KPALLOCS A 1).1 k =
        .error (.halt (.error (.other 0x55) (.ofNat k))) := if_pos (by omega)
    apply iff_of_true _ (.inl hzero)
    simp only [hstop, Except.map]
    trivial
  · have hk : k ≠ 0 := fun h => hzero (hpages.mp h)
    rw [or_iff_right hzero, ← hone, ← P_FREES_even_iff A s.live 1 hk]
    rcases P_FREES_cases (s.live.KPALLOCS A 1).2 (s.live.KPALLOCS A 1).1 hk with
      hfree | ⟨live, hfree, hblocks⟩
    · simp only [hfree, Except.map]
      apply iff_of_false (fun hf => hf)
      rintro ⟨l', hl', -⟩
      cases hl'
    · simp only [hfree, Except.map, pure, Except.pure]
      rw [accounted_pages_iff hblocks hsize]
      constructor
      · exact fun hpages => ⟨live, rfl, hpages⟩
      · rintro ⟨l', hl', hpages⟩
        obtain rfl := Except.ok.inj hl'
        exact hpages

theorem addtoD_accounted_iff (A : Allocator) (s : Store) (dir : Vnode) (toadd : UInt64) :
    s.Accounted ((s.addtoD A dir toadd).map fun s' => (none, s')) ↔
      dir.disk ≠ 0 ∨ 2 ≤ dir.a.chunklen.toNat % 128 ∨ dir.a.chunklen ≤ 1 := by
  by_cases hdisk : dir.disk = 0
  case neg =>
    apply iff_of_true _ (.inl hdisk)
    have hread : read s.volume.disc dir.a.chunkaddr1 dir.disk (dir.a.chunklen <<< 9).toUInt16 =
        .error (.error .readDiskinv dir.disk) := if_pos hdisk
    simp only [Store.addtoD, hread, unpriced, Except.mapError, bind, Except.bind, Except.map]
    trivial
  case pos =>
    by_cases hlong : 2 ≤ dir.a.chunklen.toNat % 128
    case pos =>
      apply iff_of_true _ (.inr (.inl hlong))
      have hread := read_directory s hdisk
      have hwritable := writable_directory dir.a
      rw [if_pos hlong] at hwritable
      simp only [Store.addtoD, hread, hwritable, unpriced, Except.mapError, bind, Except.bind,
        Except.map]
      trivial
    case neg =>
      rw [addtoD_short_accounted_iff A s toadd hdisk hlong, or_iff_right (not_not.mpr hdisk),
        or_iff_right hlong]

end Directory

/-- A lookup, and a call of `addtoD`, that return at all. -/
theorem calls_accounted_iff (A : Allocator) (s : Store) (basedir : Inode) (filename : Filename)
    (dir : Vnode) (toadd : UInt64) :
    (s.Accounted (s.getFileFromFilename A basedir filename) ↔
      ∀ p slashcount i, textFrom filename intRange 0 = .ok p →
        slashRuns p false = .ok slashcount →
        nameStart filename (p.length + intRange) p.length = .ok i →
        LookupGivesBack s.volume basedir (nameBetween filename i p.length)
          (directoriesOf (slashcount - 1) (p.drop 1))) ∧
    (s.Accounted ((s.addtoD A dir toadd).map fun s' => (none, s')) ↔
      dir.disk ≠ 0 ∨ 2 ≤ dir.a.chunklen.toNat % 128 ∨ dir.a.chunklen ≤ 1) :=
  ⟨getFileFromFilename_accounted_iff A s basedir filename, addtoD_accounted_iff A s dir toadd⟩

/-- Everything is allocated behind what is live. -/
def bumping : Allocator where
  block := fun _ live => live.sup id + 1
  pages := fun _ live _ => live.sup id + 1
  block_fresh := by
    intro t live hin
    have : live.sup id + 1 ≤ live.sup id := Finset.le_sup (f := id) hin
    omega
  pages_fresh := by
    intro t live k
    rw [Finset.disjoint_left]
    intro p hp hin
    have hle : p ≤ live.sup id := Finset.le_sup (f := id) hin
    have := (Finset.mem_Ico.mp hp).1
    omega

/-- After the start, when nothing has been allocated. -/
def freshStore (disc : Disc) : Store := ⟨⟨disc, .null⟩, ⟨∅, ∅, 0⟩, none, 0⟩

/-- The page of a lookup that finds nothing stays. -/
theorem not_accounted_of_missing {filename : Filename} (h : Spells filename (0x2f :: name))
    (hname : name ≠ []) (hlen : name.length + 1 < intRange) (hslash : ∀ c ∈ name, c ≠ 0x2f)
    (hmissed : findEntry s.volume basedir name = .ok (none, v')) :
    ¬ s.Accounted (s.getFileFromFilename A basedir filename) := by
  intro haccounted
  have htext : textFrom filename intRange 0 = .ok (0x2f :: name) := by
    rw [textFrom_eq h (Nat.zero_le _) (by rw [List.length_cons]; omega), List.drop_zero]
  have hruns : slashRuns (0x2f :: name) false = .ok 1 := by
    cases name with
    | nil => exact absurd rfl hname
    | cons c name => exact slashRuns_component hslash
  have hstart : nameStart filename ((0x2f :: name).length + intRange)
      ((0x2f :: name).length : Nat) = .ok 1 :=
    component_start h hname hslash (by rw [List.length_cons]; omega)
  have hback := (getFileFromFilename_accounted_iff A s basedir filename).mp haccounted _ _ _
    htext hruns hstart
  rw [component_name h, Nat.sub_self, directoriesOf, LookupGivesBack] at hback
  exact not_found_of_missed hmissed hback

theorem missing_file_keeps_page : ∃ b, buildImage oneByte (fun _ => 0) 1474560 = some b ∧
    ¬ (freshStore (discOf b)).Accounted ((freshStore (discOf b)).getFileFromFilename bumping
      (.ofPacked (slotBytes (discOf b) 0)) (pathOf [0x2f, 0x7a])) := by
  obtain ⟨b, hget, hb⟩ : ∃ b, b = (buildImage oneByte (fun _ => 0) 1474560).get oneByte_isSome ∧
      buildImage oneByte (fun _ => 0) 1474560 = some b :=
        ⟨_, rfl, (Option.some_get oneByte_isSome).symm⟩
  have hmiss : (findEntry ⟨discOf b, .null⟩ (.ofPacked (slotBytes (discOf b) 0)) [0x7a]).map
      (·.1) = .ok none := by
    subst hget
    decide +kernel
  refine ⟨b, hb, ?_⟩
  cases hfind : findEntry ⟨discOf b, .null⟩ (.ofPacked (slotBytes (discOf b) 0)) [0x7a] with
  | error e =>
      rw [hfind] at hmiss
      cases hmiss
  | ok r =>
      obtain ⟨found, v'⟩ := r
      rw [hfind] at hmiss
      obtain rfl := Except.ok.inj hmiss
      exact not_accounted_of_missing (pathOf_spells (by simp)) (List.cons_ne_nil _ _)
        (by decide) (by simp) hfind

end UnnamedOS.Files
