import UnnamedOS.Files.BuilderLayout
import UnnamedOS.Files.InodeCache

/-!
# The tree on a built image

Every file and directory has its inode at its index, in the order in which `cDF` comes to them, and
its bytes in the region of that inode. The bytes of a directory are the indices of its entries.
-/

namespace UnnamedOS.Files

open UnnamedOS.Lib

/-- The indices of entries that begin with index `i`. -/
def indicesFrom : List DirORfile → Nat → List Nat
  | [], _ => []
  | a :: entries, i => i :: indicesFrom entries (i + numinodes a)

/-- Inode `i`, and its region between two sectors with its bytes. -/
def Record (inbase image : Nat → UInt8) (first last i b : Nat) (perms : UInt16) (name : List UInt8)
    (bytes : List UInt8) : Prop :=
  ∃ st, st + b < 2147483648 ∧ first ≤ st ∧ st + b ≤ last ∧
    tableInode inbase i = constructInode st b perms name ∧
    stretch image (0x200 * LBA_FS_BASE + 0x200 * st) (0x200 * b) = padded (0x200 * b) bytes

section Stored

variable (inbase image : Nat → UInt8) (first last : Nat)

mutual

/-- A part of the tree whose first index is `i`. -/
def Stored : DirORfile → Nat → Prop
  | .file name contents _, i =>
    Record inbase image first last i (sectorCount contents.length) 0x1 name contents
  | .dir name entries, i =>
    Record inbase image first last i (sectorCount (entries.length * sizeofInode)) 0x8 name
      ((indicesFrom entries (i + 1)).flatMap fun id => toBytes 8 id) ∧
    StoredAll entries (i + 1)

def StoredAll : List DirORfile → Nat → Prop
  | [], _ => True
  | a :: entries, i => Stored a i ∧ StoredAll entries (i + numinodes a)

end

end Stored

variable {s s' s'' : Builder} {inbase inbase' image image' : Nat → UInt8}
  {first last first' last' i b : Nat} {perms : UInt16} {name bytes : List UInt8}

theorem tableInode_congr (h : ∀ x, sizeofInode * i ≤ x → x < sizeofInode * i + sizeofInode →
    inbase' x = inbase x) : tableInode inbase' i = tableInode inbase i := by
  rw [tableInode, tableInode, stretch_congr]
  intro j hj
  exact h _ (by omega) (by omega)

/-- Nothing has happened to the slots and the sectors of a part. -/
structure SameIn (inbase image inbase' image' : Nat → UInt8) (lo hi first last : Nat) : Prop where
  slots : ∀ x, sizeofInode * lo ≤ x → x < sizeofInode * hi → inbase' x = inbase x
  sectors : ∀ x, 0x200 * LBA_FS_BASE + 0x200 * first ≤ x → x < 0x200 * LBA_FS_BASE + 0x200 * last →
    image' x = image x

theorem SameIn.mono {lo hi lo' hi' : Nat}
    (h : SameIn inbase image inbase' image' lo hi first last) (hlo : lo ≤ lo') (hhi : hi' ≤ hi)
    (hfirst : first ≤ first') (hlast : last' ≤ last) :
    SameIn inbase image inbase' image' lo' hi' first' last' := by
  have hlo' : sizeofInode * lo ≤ sizeofInode * lo' := Nat.mul_le_mul_left _ hlo
  have hhi' : sizeofInode * hi' ≤ sizeofInode * hi := Nat.mul_le_mul_left _ hhi
  exact ⟨fun x h1 h2 => h.slots x (by omega) (by omega),
    fun x h1 h2 => h.sectors x (by omega) (by omega)⟩

theorem Record.same {lo hi : Nat} (h : Record inbase image first last i b perms name bytes)
    (hsame : SameIn inbase image inbase' image' lo hi first last) (hlo : lo ≤ i) (hhi : i < hi) :
    Record inbase' image' first last i b perms name bytes := by
  obtain ⟨st, hint, hfirst, hlast, hinode, hbytes⟩ := h
  have hlo' : sizeofInode * lo ≤ sizeofInode * i := Nat.mul_le_mul_left _ hlo
  have hhi' : sizeofInode * (i + 1) ≤ sizeofInode * hi := Nat.mul_le_mul_left _ hhi
  rw [Nat.mul_add] at hhi'
  refine ⟨st, hint, hfirst, hlast, ?_, ?_⟩
  · rw [← hinode]
    exact tableInode_congr fun x h1 h2 => hsame.slots x (by omega) (by omega)
  · rw [← hbytes]
    apply stretch_congr
    intro k hk
    exact hsame.sectors _ (by omega) (by omega)

theorem Record.mono (h : Record inbase image first last i b perms name bytes)
    (hfirst : first' ≤ first) (hlast : last ≤ last') :
    Record inbase image first' last' i b perms name bytes := by
  obtain ⟨st, hint, hst, hst', hinode, hbytes⟩ := h
  exact ⟨st, hint, by omega, by omega, hinode, hbytes⟩

mutual

theorem stored_same : ∀ (a : DirORfile) (i : Nat), Stored inbase image first last a i →
    SameIn inbase image inbase' image' i (i + numinodes a) first last →
    Stored inbase' image' first last a i
  | .file name contents int, i, h, hsame => by
      have hrecord : Record inbase image first last i _ 0x1 name contents := h
      exact hrecord.same hsame (Nat.le_refl i) (Nat.lt_succ_self i)
  | .dir name entries, i, h, hsame => by
      obtain ⟨hrecord, hentries⟩ := h
      rw [numinodes] at hsame
      refine ⟨hrecord.same hsame (Nat.le_refl i) (by omega), storedAll_same entries (i + 1) hentries ?_⟩
      exact hsame.mono (by omega) (by omega) (Nat.le_refl _) (Nat.le_refl _)

theorem storedAll_same : ∀ (entries : List DirORfile) (i : Nat),
    StoredAll inbase image first last entries i →
    SameIn inbase image inbase' image' i (i + numinodesOf entries) first last →
    StoredAll inbase' image' first last entries i
  | [], _, _, _ => trivial
  | a :: entries, i, h, hsame => by
      rw [numinodesOf] at hsame
      exact ⟨stored_same a i h.1 (hsame.mono (Nat.le_refl _) (by omega) (Nat.le_refl _)
          (Nat.le_refl _)),
        storedAll_same entries _ h.2 (hsame.mono (by omega) (by omega) (Nat.le_refl _)
          (Nat.le_refl _))⟩

end

mutual

theorem stored_mono (hfirst : first' ≤ first) (hlast : last ≤ last') : ∀ (a : DirORfile) (i : Nat),
    Stored inbase image first last a i → Stored inbase image first' last' a i
  | .file _ _ _, _, h => Record.mono h hfirst hlast
  | .dir _ entries, i, h =>
    ⟨Record.mono h.1 hfirst hlast, storedAll_mono hfirst hlast entries (i + 1) h.2⟩

theorem storedAll_mono (hfirst : first' ≤ first) (hlast : last ≤ last') :
    ∀ (entries : List DirORfile) (i : Nat), StoredAll inbase image first last entries i →
      StoredAll inbase image first' last' entries i
  | [], _, _ => trivial
  | a :: entries, i, h =>
    ⟨stored_mono hfirst hlast a i h.1, storedAll_mono hfirst hlast entries _ h.2⟩

end

/-! ## What `cDF` leaves -/

/-- Only the new regions have been written to. -/
def ImageKept (s s' : Builder) : Prop :=
  ∀ x, x < 0x200 * LBA_FS_BASE + 0x200 * s.FIRST_UNU ∨
    0x200 * LBA_FS_BASE + 0x200 * s'.FIRST_UNU ≤ x → s'.image x = s.image x

/-- The record at the end of `cDF`, when the entries have been built. -/
structure Finished (s s2 s' : Builder) (b : Nat) (perms : UInt16) (name bytes : List UInt8) :
    Prop where
  kept : ImageKept s s'
  record : Record s'.inbase s'.image s.FIRST_UNU s'.FIRST_UNU s.lastfucker b perms name bytes
  entries : SameIn s2.inbase s2.image s'.inbase s'.image (s.lastfucker + 1) s2.lastfucker
    (s.FIRST_UNU + b) s2.FIRST_UNU

theorem recorded_finished {s2 : Builder} {n sec : Nat} (perms : UInt16) (name bytes : List UInt8)
    (h : Adds (begun s b) s2 n sec) (hkept : ImageKept (begun s b) s2)
    (hint : s.FIRST_UNU + b < 2147483648) :
    Finished s s2 (s2.recorded s.FIRST_UNU b s.lastfucker (padded (0x200 * b) bytes) perms name) b
      perms name bytes := by
  have hfirst : s2.FIRST_UNU = s.FIRST_UNU + b + sec := h.first
  have hregion (x : Nat) (hx : ¬ Within (0x200 * LBA_FS_BASE + 0x200 * s.FIRST_UNU) (0x200 * b) x) :
      (s2.recorded s.FIRST_UNU b s.lastfucker (padded (0x200 * b) bytes) perms name).image x =
        s2.image x :=
    overwrite_outside (Nat.le_of_eq (padded_length bytes)) hx
  have hslot (x : Nat) (hx : ¬ Within (sizeofInode * s.lastfucker) sizeofInode x) :
      (s2.recorded s.FIRST_UNU b s.lastfucker (padded (0x200 * b) bytes) perms name).inbase x =
        s2.inbase x :=
    overwrite_outside (Nat.le_of_eq (length_packed _)) hx
  constructor
  case kept =>
    intro x hx
    have hx' : x < 0x200 * LBA_FS_BASE + 0x200 * s.FIRST_UNU ∨
        0x200 * LBA_FS_BASE + 0x200 * s2.FIRST_UNU ≤ x := hx
    have hold : s2.image x = s.image x := by
      apply hkept
      change x < 0x200 * LBA_FS_BASE + 0x200 * (s.FIRST_UNU + b) ∨ _
      omega
    rw [← hold]
    apply hregion
    rintro ⟨hge, hlt⟩
    omega
  case record =>
    refine ⟨s.FIRST_UNU, hint, Nat.le_refl _, ?_, tableInode_overwrite _ _ _, ?_⟩
    · change _ ≤ s2.FIRST_UNU
      omega
    · have hbytes := stretch_overwrite s2.image (0x200 * LBA_FS_BASE + 0x200 * s.FIRST_UNU)
        (padded (0x200 * b) bytes)
      rwa [padded_length] at hbytes
  case entries =>
    constructor
    · intro x hlo hhi
      apply hslot
      rintro ⟨-, hlt⟩
      rw [Nat.mul_add] at hlo
      omega
    · intro x hlo hhi
      apply hregion
      rintro ⟨-, hlt⟩
      omega

theorem Adds.sectors_le {n sec : Nat} (h : Adds s s' n sec) : s.FIRST_UNU ≤ s'.FIRST_UNU := by
  have := h.first
  omega

mutual

theorem cDF_stored : ∀ (a : DirORfile) (s : Builder) (id : Nat) (s' : Builder),
    cDF a s = some (id, s') → id = s.lastfucker ∧ ImageKept s s' ∧
      Stored s'.inbase s'.image s.FIRST_UNU s'.FIRST_UNU a s.lastfucker
  | .file name contents int, s, id, s', h => by
      rw [cDF] at h
      obtain ⟨b, hb, h1⟩ := Option.bind_eq_some_iff.mp h
      obtain ⟨⟨st, s1⟩, hregion, h2⟩ := Option.bind_eq_some_iff.mp h1
      obtain ⟨s3, hfinish, h3⟩ := Option.bind_eq_some_iff.mp h2
      obtain ⟨rfl, rfl⟩ := Prod.mk.inj (Option.some.inj h3)
      obtain ⟨rfl, -⟩ := toInt_eq hb
      obtain ⟨hint, rfl, rfl⟩ := getdiskregion_ok hregion
      have hfits : ¬ contents.length > sectorCount contents.length * 0x200 :=
        Nat.not_lt.mpr (le_sectorCount _)
      rw [if_neg hfits] at hfinish
      obtain ⟨-, rfl⟩ := finish_some (padded_length contents) hfinish
      have hfin := recorded_finished (s := s) 0x1 name contents
        (Adds.refl (begun s (sectorCount contents.length))) (fun _ _ => rfl) hint
      exact ⟨rfl, hfin.kept, hfin.record⟩
  | .dir name entries, s, id, s', h => by
      rw [cDF] at h
      obtain ⟨b, hb, h1⟩ := Option.bind_eq_some_iff.mp h
      obtain ⟨⟨st, s1⟩, hregion, h2⟩ := Option.bind_eq_some_iff.mp h1
      obtain ⟨⟨ids, s2⟩, hentries, h3⟩ := Option.bind_eq_some_iff.mp h2
      obtain ⟨s3, hfinish, h4⟩ := Option.bind_eq_some_iff.mp h3
      obtain ⟨rfl, rfl⟩ := Prod.mk.inj (Option.some.inj h4)
      obtain ⟨rfl, -⟩ := toInt_eq hb
      obtain ⟨hint, rfl, rfl⟩ := getdiskregion_ok hregion
      obtain ⟨-, rfl⟩ := finish_some (padded_length _) hfinish
      have hadds := cDFs_adds entries (begun s _) ids s2 hentries
      obtain ⟨rfl, hkept, hstored⟩ := cDFs_stored entries (begun s _) ids s2 hentries
      have hfin := recorded_finished 0x8 name
        ((indicesFrom entries (s.lastfucker + 1)).flatMap fun id => toBytes 8 id) hadds hkept hint
      have hlast : s2.lastfucker = s.lastfucker + 1 + numinodesOf entries := hadds.last
      refine ⟨rfl, hfin.kept, hfin.record, ?_⟩
      apply storedAll_mono (Nat.le_add_right _ _) (Nat.le_refl _)
      apply storedAll_same entries _ hstored
      have hsame := hfin.entries
      rw [hlast] at hsame
      exact hsame

theorem cDFs_stored : ∀ (entries : List DirORfile) (s : Builder) (ids : List Nat) (s' : Builder),
    cDFs entries s = some (ids, s') → ids = indicesFrom entries s.lastfucker ∧ ImageKept s s' ∧
      StoredAll s'.inbase s'.image s.FIRST_UNU s'.FIRST_UNU entries s.lastfucker
  | [], s, ids, s', h => by
      rw [cDFs] at h
      obtain ⟨rfl, rfl⟩ := Prod.mk.inj (Option.some.inj h)
      exact ⟨rfl, fun _ _ => rfl, trivial⟩
  | a :: entries, s, ids, s', h => by
      rw [cDFs] at h
      obtain ⟨⟨id, s1⟩, ha, h1⟩ := Option.bind_eq_some_iff.mp h
      obtain ⟨⟨ids', s2⟩, hentries, h2⟩ := Option.bind_eq_some_iff.mp h1
      obtain ⟨rfl, rfl⟩ := Prod.mk.inj (Option.some.inj h2)
      have hadds := cDF_adds a s id s1 ha
      have hadds' := cDFs_adds entries s1 ids' s2 hentries
      have hle := hadds.sectors_le
      have hle' := hadds'.sectors_le
      obtain ⟨rfl, hkept, hstored⟩ := cDF_stored a s id s1 ha
      obtain ⟨rfl, hkept', hstored'⟩ := cDFs_stored entries s1 ids' s2 hentries
      rw [hadds.last] at hstored' ⊢
      refine ⟨rfl, fun x hx => ?_, ?_, storedAll_mono hle (Nat.le_refl _) _ _ hstored'⟩
      · rw [hkept' x (by omega), hkept x (by omega)]
      · apply stored_mono (Nat.le_refl _) hle'
        apply stored_same a _ hstored
        refine ⟨fun x _ hx => hadds'.kept x (Or.inl ?_), fun x _ hx => hkept' x (Or.inl hx)⟩
        rw [hadds.last]
        exact hx

end

/-! ## The disc -/

/-- The cache's `int` index reaches every inode. -/
theorem buildImage_inodes {root : DirORfile} {image : Nat → UInt8} {flll : UInt64} {built : Builder}
    (h : buildImage root image flll = some built) :
    sizeofVnode * numinodes root < 2147483648 := by
  obtain ⟨id, s, hcdf, -⟩ := buildImage_some h
  have hreach := cDF_reach root (Builder.begun root image flll) id s hcdf
  change 512 * (LBA_FS_BASE + lnb root) + _ < _ at hreach
  have htable := le_sectorCount (sizeofInode * numinodes root)
  rw [← lnb] at htable
  unfold sizeofInode at htable hreach
  unfold sizeofVnode
  omega

/-- The sectors behind the boot sectors. -/
def discOf (built : Builder) : Disc := fun b => built.image (0x200 * LBA_FS_BASE + b)

/-- The image as the file system finds it: the table, its free slots, and the tree. -/
structure Carries (root : DirORfile) (built : Builder) : Prop where
  table : ∀ x < 0x200 * lnb root, discOf built x = built.inbase x
  free : ∀ x, sizeofInode * numinodes root ≤ x → built.inbase x = 0
  tree : Stored built.inbase built.image (lnb root) (totalSectors root) root 0

theorem buildImage_carries {root : DirORfile} {image : Nat → UInt8} {flll : UInt64}
    {built : Builder} (h : buildImage root image flll = some built) : Carries root built := by
  obtain ⟨id, s, hcdf, rfl⟩ := buildImage_some h
  have hadds := cDF_adds _ _ _ _ hcdf
  have htotal : s.FIRST_UNU = totalSectors root := hadds.first
  have hlast : s.lastfucker = numinodes root := hadds.last.trans (Nat.zero_add _)
  obtain ⟨-, -, hstored⟩ := cDF_stored _ _ _ _ hcdf
  constructor
  case table =>
    intro x hx
    have hlen : x < (stretch s.inbase 0 (lnb root * 0x200)).length := by
      rw [length_stretch]
      omega
    have hbyte : overwrite s.image (0x200 * LBA_FS_BASE) _ (0x200 * LBA_FS_BASE + x) = _ :=
      overwrite_add hlen
    rw [getElem_stretch, Nat.zero_add] at hbyte
    rw [discOf, Builder.wdiskr, Nat.mul_zero, Nat.add_zero, Nat.mul_comm LBA_FS_BASE]
    exact hbyte
  case free =>
    intro x hx
    exact hadds.kept x (Or.inr (by rw [hlast]; exact hx))
  case tree =>
    rw [htotal] at hstored
    apply stored_same root 0 hstored
    refine ⟨fun _ _ _ => rfl, fun x hx _ => overwrite_of_ge ?_⟩
    change 0x200 * LBA_FS_BASE + 0x200 * lnb root ≤ x at hx
    rw [length_stretch, Nat.mul_comm LBA_FS_BASE]
    omega

end UnnamedOS.Files
