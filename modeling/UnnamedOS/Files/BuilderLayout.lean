import UnnamedOS.Files.Builder
import UnnamedOS.Files.Regions

/-!
# Layout of a built image

The regions follow one another from the end of the inode table on. The last of them ends where the
tree's sectors are used up, and the bound check leaves out the boot sectors before them.
-/

namespace UnnamedOS.Files

open UnnamedOS.Lib

mutual

/-- The sectors of all regions of a tree. -/
def regionSectors : DirORfile → Nat
  | .file _ contents _ => sectorCount contents.length
  | .dir _ entries => sectorCount (entries.length * sizeofInode) + regionSectorsOf entries

def regionSectorsOf : List DirORfile → Nat
  | [] => 0
  | a :: entries => regionSectors a + regionSectorsOf entries

end

/-- The sectors of the table and the regions. -/
def totalSectors (root : DirORfile) : Nat := lnb root + regionSectors root

/-- The first sector of an inode's region, and the one behind its last. -/
def firstSector (inbase : Nat → UInt8) (i : Nat) : Nat := (tableInode inbase i).chunkaddr1.toNat

def endSector (inbase : Nat → UInt8) (i : Nat) : Nat :=
  firstSector inbase i + (tableInode inbase i).chunklen.toNat

/-- The regions of inodes `lo` to `hi` lie apart between two sectors. -/
structure Placed (inbase : Nat → UInt8) (lo hi first last : Nat) : Prop where
  inside : ∀ i, lo ≤ i → i < hi → first ≤ firstSector inbase i ∧ endSector inbase i ≤ last
  apart : ∀ i j, lo ≤ i → i < j → j < hi →
    endSector inbase i ≤ firstSector inbase j ∨ endSector inbase j ≤ firstSector inbase i

/-- What building a part of the tree does. -/
structure Adds (s s' : Builder) (inodes sectors : Nat) : Prop where
  nothing : inodes = 0 → sectors = 0
  first : s'.FIRST_UNU = s.FIRST_UNU + sectors
  last : s'.lastfucker = s.lastfucker + inodes
  flll : s'.flll = s.flll
  placed : Placed s'.inbase s.lastfucker s'.lastfucker s.FIRST_UNU s'.FIRST_UNU
  kept : ∀ x, x < sizeofInode * s.lastfucker ∨ sizeofInode * s'.lastfucker ≤ x →
    s'.inbase x = s.inbase x
  written : ∃ new, s'.written = s.written ++ new ∧ (∀ w ∈ new, w.1 + w.2 ≤ s'.FIRST_UNU) ∧
    (sectors ≠ 0 → ∃ w ∈ new, w.2 ≠ 0 ∧ w.1 + w.2 = s'.FIRST_UNU)
  errc : s'.errc = 0 ↔ s.errc = 0 ∧ (inodes ≠ 0 → 512 * s'.FIRST_UNU ≤ s.flll.toNat)

variable {s s' s'' : Builder} {n m sec sec' : Nat}

theorem le_sectorCount (n : Nat) : n ≤ sectorCount n * 512 := by
  rw [sectorCount]
  split <;> omega

theorem toInt_eq {n m : Nat} (h : toInt n = some m) : m = n ∧ n < 2147483648 := by
  rw [toInt] at h
  split at h
  · rename_i hn
    exact ⟨(Option.some.inj h).symm, hn⟩
  · cases h

theorem placed_congr {inbase inbase' : Nat → UInt8} {lo hi first last : Nat}
    (h : Placed inbase lo hi first last)
    (hsame : ∀ x, sizeofInode * lo ≤ x → x < sizeofInode * hi → inbase' x = inbase x) :
    Placed inbase' lo hi first last := by
  have hinode : ∀ i, lo ≤ i → i < hi → tableInode inbase' i = tableInode inbase i := by
    intro i hi' hi''
    rw [tableInode, tableInode, stretch_congr]
    intro j hj
    have hlow : sizeofInode * lo ≤ sizeofInode * i := Nat.mul_le_mul_left _ hi'
    have hhigh : sizeofInode * (i + 1) ≤ sizeofInode * hi := Nat.mul_le_mul_left _ hi''
    exact hsame _ (by omega) (by rw [Nat.mul_add] at hhigh; omega)
  constructor
  · intro i hlo hhi
    rw [endSector, firstSector, hinode i hlo hhi]
    exact h.inside i hlo hhi
  · intro i j hlo hij hhi
    rw [endSector, endSector, firstSector, firstSector, hinode i hlo (by omega),
      hinode j (by omega) hhi]
    exact h.apart i j hlo hij hhi

/-- One part after another. -/
theorem placed_append {inbase : Nat → UInt8} {lo mid hi first second last : Nat}
    (h1 : Placed inbase lo mid first second) (h2 : Placed inbase mid hi second last)
    (hfirst : first ≤ second) (hlast : second ≤ last) : Placed inbase lo hi first last := by
  constructor
  · intro i hlo hhi
    by_cases hmid : i < mid
    · have := h1.inside i hlo hmid
      omega
    · have := h2.inside i (by omega) hhi
      omega
  · intro i j hlo hij hhi
    by_cases hjmid : j < mid
    · exact h1.apart i j hlo hij hjmid
    · by_cases himid : i < mid
      · have hi := h1.inside i hlo himid
        have hj := h2.inside j (by omega) hhi
        omega
      · exact h2.apart i j (by omega) hij hhi

theorem Adds.refl (s : Builder) : Adds s s 0 0 where
  nothing := fun _ => rfl
  first := rfl
  last := rfl
  flll := rfl
  placed := ⟨fun i hlo hhi => by omega, fun i j hlo hij hhi => by omega⟩
  kept := fun _ _ => rfl
  written := ⟨[], by simp, by simp, by simp⟩
  errc := by simp

theorem Adds.trans (h1 : Adds s s' n sec) (h2 : Adds s' s'' m sec') :
    Adds s s'' (n + m) (sec + sec') where
  nothing := by
    intro h
    rw [h1.nothing (by omega), h2.nothing (by omega)]
  first := by rw [h2.first, h1.first, Nat.add_assoc]
  last := by rw [h2.last, h1.last, Nat.add_assoc]
  flll := h2.flll.trans h1.flll
  placed := by
    have hf := h1.first
    have hf' := h2.first
    have hl' := h2.last
    have hold : Placed s''.inbase s.lastfucker s'.lastfucker s.FIRST_UNU s'.FIRST_UNU :=
      placed_congr h1.placed fun x _ hx => h2.kept x (Or.inl hx)
    exact placed_append hold h2.placed (by omega) (by omega)
  kept := by
    intro x hx
    have hl := h1.last
    have hl' := h2.last
    have hmono : sizeofInode * s.lastfucker ≤ sizeofInode * s'.lastfucker :=
      Nat.mul_le_mul_left _ (by omega)
    have hmono' : sizeofInode * s'.lastfucker ≤ sizeofInode * s''.lastfucker :=
      Nat.mul_le_mul_left _ (by omega)
    rw [h2.kept x (by omega), h1.kept x (by omega)]
  written := by
    obtain ⟨new, hnew, hin, htop⟩ := h1.written
    obtain ⟨new', hnew', hin', htop'⟩ := h2.written
    have hf := h2.first
    refine ⟨new ++ new', by rw [hnew', hnew, List.append_assoc], fun w hw => ?_, fun hsec => ?_⟩
    · rcases List.mem_append.mp hw with hw | hw
      · have := hin w hw
        omega
      · exact hin' w hw
    · by_cases hsec' : sec' = 0
      · obtain ⟨w, hw, hpos, hend⟩ := htop (by omega)
        exact ⟨w, List.mem_append_left _ hw, hpos, by omega⟩
      · obtain ⟨w, hw, hpos, hend⟩ := htop' hsec'
        exact ⟨w, List.mem_append_right _ hw, hpos, hend⟩
  errc := by
    have hf := h2.first
    have hnone := h2.nothing
    rw [h2.errc, h1.errc, h1.flll]
    by_cases hm : m = 0
    · rw [hnone hm] at hf
      simp only [hm, hf, Nat.add_zero, ne_eq, not_true_eq_false, false_implies, and_true]
    · have hnm : n + m ≠ 0 := by omega
      constructor
      · rintro ⟨⟨h, -⟩, h'⟩
        exact ⟨h, fun _ => h' hm⟩
      · rintro ⟨h, h'⟩
        have := h' hnm
        exact ⟨⟨h, fun _ => by omega⟩, fun _ => this⟩

/-- The state in which `cDF` turns to the contents. -/
def begun (s : Builder) (b : Nat) : Builder :=
  { s with FIRST_UNU := s.FIRST_UNU + b, lastfucker := s.lastfucker + 1 }

theorem padded_length {k : Nat} (bytes : List UInt8) : (padded k bytes).length = k := by
  rw [padded, List.length_append, List.length_take, List.length_replicate]
  omega

theorem constructInode_chunk {st b : Nat} (hst : st < 2147483648) (hb : b < 2147483648)
    (perms : UInt16) (name : List UInt8) :
    (constructInode st b perms name).chunkaddr1.toNat = st ∧
      (constructInode st b perms name).chunklen.toNat = b :=
  ⟨UInt64.toNat_ofNat_of_lt' (Nat.lt_trans hst (by decide)),
    UInt64.toNat_ofNat_of_lt' (Nat.lt_trans hb (by decide))⟩

/-- The inode in its slot of the table. -/
theorem tableInode_overwrite (inbase : Nat → UInt8) (i : Nat) (a : Inode) :
    tableInode (overwrite inbase (sizeofInode * i) a.packed) i = a := by
  have hbytes := stretch_overwrite inbase (sizeofInode * i) a.packed
  rw [length_packed] at hbytes
  rw [tableInode, hbytes, Inode.ofPacked_packed]

/-- What is left when the region has been written, and read back as it was written. -/
def Builder.recorded (s : Builder) (st b ourindex : Nat) (m : List UInt8) (perms : UInt16)
    (name : List UInt8) : Builder :=
  { s.wdiskr st b m with
    inbase := overwrite s.inbase (sizeofInode * ourindex) (constructInode st b perms name).packed }

theorem finish_eq {b st : Nat} {m : List UInt8} (hm : m.length = 0x200 * b) (ourindex : Nat)
    (perms : UInt16) (name : List UInt8) : s.finish st b ourindex m perms name =
      if 0x200 * LBA_FS_BASE + 0x200 * st < 2147483648 then
        some (s.recorded st b ourindex m perms name) else none := by
  have hread : stretch (s.wdiskr st b m).image (0x200 * LBA_FS_BASE + 0x200 * st) (0x200 * b) =
      m := by
    have hbytes := stretch_overwrite s.image (0x200 * LBA_FS_BASE + 0x200 * st) m
    rw [hm] at hbytes
    rwa [Builder.wdiskr, Nat.mul_comm LBA_FS_BASE]
  unfold Builder.finish toInt
  split
  · simp only [Option.bind_eq_bind, Option.bind_some, hread, ne_eq, not_true_eq_false, if_false]
    rfl
  · rfl

theorem finish_some {b st : Nat} {m : List UInt8} (hm : m.length = 0x200 * b) {ourindex : Nat}
    {perms : UInt16} {name : List UInt8} (h : s.finish st b ourindex m perms name = some s') :
    0x200 * LBA_FS_BASE + 0x200 * st < 2147483648 ∧
      s' = s.recorded st b ourindex m perms name := by
  rw [finish_eq hm] at h
  split at h
  · rename_i hseek
    exact ⟨hseek, (Option.some.inj h).symm⟩
  · cases h

section Recorded

variable {s2 : Builder} {b : Nat} (m : List UInt8) (perms : UInt16) (name : List UInt8)

/-- The new inode's region comes before those of the entries. -/
theorem Adds.placed_recorded (h : Adds (begun s b) s2 n sec)
    (hint : s.FIRST_UNU + b < 2147483648) :
    Placed (s2.recorded s.FIRST_UNU b s.lastfucker m perms name).inbase s.lastfucker s2.lastfucker
      s.FIRST_UNU s2.FIRST_UNU := by
  have hfirst : s2.FIRST_UNU = s.FIRST_UNU + b + sec := h.first
  have hchildren : Placed s2.inbase (s.lastfucker + 1) s2.lastfucker (s.FIRST_UNU + b)
      s2.FIRST_UNU := h.placed
  have hstart : s.FIRST_UNU < 2147483648 := by omega
  have hcount : b < 2147483648 := by omega
  obtain ⟨hst, hb⟩ := constructInode_chunk hstart hcount perms name
  have hslot : firstSector (overwrite s2.inbase (sizeofInode * s.lastfucker)
        (constructInode s.FIRST_UNU b perms name).packed) s.lastfucker = s.FIRST_UNU ∧
      endSector (overwrite s2.inbase (sizeofInode * s.lastfucker)
        (constructInode s.FIRST_UNU b perms name).packed) s.lastfucker = s.FIRST_UNU + b := by
    rw [endSector, firstSector, tableInode_overwrite, hst, hb]
    exact ⟨rfl, rfl⟩
  have hown : Placed (overwrite s2.inbase (sizeofInode * s.lastfucker)
      (constructInode s.FIRST_UNU b perms name).packed) s.lastfucker (s.lastfucker + 1)
      s.FIRST_UNU (s.FIRST_UNU + b) := by
    constructor
    · intro i hlo hhi
      obtain rfl : i = s.lastfucker := by omega
      rw [hslot.1, hslot.2]
      omega
    · intro i j hlo hij hhi
      omega
  refine placed_append hown (placed_congr hchildren fun x hx _ => overwrite_of_ge ?_) (by omega)
    (by omega)
  rw [length_packed]
  rw [Nat.mul_add] at hx
  omega

/-- No other slot of the table is written to. -/
theorem Adds.kept_recorded (h : Adds (begun s b) s2 n sec) {x : Nat}
    (hx : x < sizeofInode * s.lastfucker ∨ sizeofInode * s2.lastfucker ≤ x) :
    (s2.recorded s.FIRST_UNU b s.lastfucker m perms name).inbase x = s.inbase x := by
  have hlast : s2.lastfucker = s.lastfucker + 1 + n := h.last
  have hlen := length_packed (constructInode s.FIRST_UNU b perms name)
  have hmono : sizeofInode * (s.lastfucker + 1) ≤ sizeofInode * s2.lastfucker :=
    Nat.mul_le_mul_left _ (by omega)
  rw [Nat.mul_add] at hmono
  have houter : s2.inbase x = s.inbase x := by
    refine h.kept x ?_
    change x < sizeofInode * (s.lastfucker + 1) ∨ _
    rw [Nat.mul_add]
    omega
  rw [← houter]
  rcases hx with hx | hx
  · exact overwrite_of_lt hx
  · exact overwrite_of_ge (by rw [hlen]; omega)

/-- The new region ends where the entries' begin. -/
theorem Adds.written_recorded (h : Adds (begun s b) s2 n sec) : ∃ new,
    (s2.recorded s.FIRST_UNU b s.lastfucker m perms name).written = s.written ++ new ∧
      (∀ w ∈ new, w.1 + w.2 ≤ s2.FIRST_UNU) ∧
      (b + sec ≠ 0 → ∃ w ∈ new, w.2 ≠ 0 ∧ w.1 + w.2 = s2.FIRST_UNU) := by
  have hfirst : s2.FIRST_UNU = s.FIRST_UNU + b + sec := h.first
  obtain ⟨new, hnew, hin, htop⟩ := h.written
  refine ⟨new ++ [(s.FIRST_UNU, b)], ?_, fun w hw => ?_, fun hsec => ?_⟩
  · change s2.written ++ _ = _
    rw [hnew, List.append_assoc]
    rfl
  · rcases List.mem_append.mp hw with hw | hw
    · exact hin w hw
    · rw [List.mem_singleton.mp hw]
      dsimp only
      omega
  · by_cases hsec0 : sec = 0
    · refine ⟨(s.FIRST_UNU, b), List.mem_append_right _ (List.mem_singleton.mpr rfl), ?_, ?_⟩
      · dsimp only
        omega
      · dsimp only
        omega
    · obtain ⟨w, hw, hpos, hend⟩ := htop hsec0
      exact ⟨w, List.mem_append_left _ hw, hpos, hend⟩

/-- The check of a region is weaker than that of the entries behind it. -/
theorem Adds.errc_recorded (h : Adds (begun s b) s2 n sec) :
    (s2.recorded s.FIRST_UNU b s.lastfucker m perms name).errc = 0 ↔
      s.errc = 0 ∧ 512 * s2.FIRST_UNU ≤ s.flll.toNat := by
  have hfirst : s2.FIRST_UNU = s.FIRST_UNU + b + sec := h.first
  have hflll : s2.flll = s.flll := h.flll
  have hnothing := h.nothing
  have hchildren : s2.errc = 0 ↔ s.errc = 0 ∧ (n ≠ 0 → 512 * s2.FIRST_UNU ≤ s.flll.toNat) := h.errc
  have herrc : (s2.recorded s.FIRST_UNU b s.lastfucker m perms name).errc =
      if 0x200 * s.FIRST_UNU + 0x200 * b > s.flll.toNat then s2.errc + 1 else s2.errc := by
    rw [← hflll]
    rfl
  rw [herrc]
  by_cases hfit : 0x200 * s.FIRST_UNU + 0x200 * b > s.flll.toNat
  · rw [if_pos hfit]
    omega
  · rw [if_neg hfit, hchildren]
    omega

theorem adds_recorded (h : Adds (begun s b) s2 n sec) (hint : s.FIRST_UNU + b < 2147483648) :
    Adds s (s2.recorded s.FIRST_UNU b s.lastfucker m perms name) (n + 1) (b + sec) where
  nothing := fun hnone => absurd hnone (Nat.succ_ne_zero n)
  first := h.first.trans (Nat.add_assoc ..)
  last := h.last.trans (by rw [begun, Nat.add_assoc, Nat.add_comm 1])
  flll := h.flll
  placed := h.placed_recorded m perms name hint
  kept := fun _ hx => h.kept_recorded m perms name hx
  written := h.written_recorded m perms name
  errc := (h.errc_recorded m perms name).trans
    (and_congr_right fun _ => ⟨fun hfit _ => hfit, fun hfit => hfit (Nat.succ_ne_zero n)⟩)

end Recorded

theorem getdiskregion_ok {b st : Nat} (h : s.getdiskregion b = some (st, s')) :
    s.FIRST_UNU + b < 2147483648 ∧ st = s.FIRST_UNU ∧
      s' = { s with FIRST_UNU := s.FIRST_UNU + b } := by
  rw [Builder.getdiskregion] at h
  obtain ⟨first, hfirst, hlast⟩ := Option.bind_eq_some_iff.mp h
  obtain ⟨rfl, hint⟩ := toInt_eq hfirst
  obtain ⟨rfl, rfl⟩ := Prod.mk.inj (Option.some.inj hlast)
  exact ⟨hint, rfl, rfl⟩

mutual

theorem cDF_adds : ∀ (a : DirORfile) (s : Builder) (id : Nat) (s' : Builder),
    cDF a s = some (id, s') → Adds s s' (numinodes a) (regionSectors a)
  | .file name contents int, s, id, s', h => by
      rw [cDF] at h
      obtain ⟨b, hb, h1⟩ := Option.bind_eq_some_iff.mp h
      obtain ⟨⟨st, s1⟩, hregion, h2⟩ := Option.bind_eq_some_iff.mp h1
      obtain ⟨s3, hfinish, h3⟩ := Option.bind_eq_some_iff.mp h2
      obtain ⟨-, rfl⟩ := Prod.mk.inj (Option.some.inj h3)
      obtain ⟨rfl, -⟩ := toInt_eq hb
      obtain ⟨hint, rfl, rfl⟩ := getdiskregion_ok hregion
      have hfits : ¬ contents.length > sectorCount contents.length * 0x200 :=
        Nat.not_lt.mpr (le_sectorCount _)
      rw [if_neg hfits] at hfinish
      obtain ⟨-, rfl⟩ := finish_some (padded_length contents) hfinish
      exact adds_recorded _ 0x1 name (Adds.refl (begun s (sectorCount contents.length))) hint
  | .dir name entries, s, id, s', h => by
      rw [cDF] at h
      obtain ⟨b, hb, h1⟩ := Option.bind_eq_some_iff.mp h
      obtain ⟨⟨st, s1⟩, hregion, h2⟩ := Option.bind_eq_some_iff.mp h1
      obtain ⟨⟨ids, s2⟩, hentries, h3⟩ := Option.bind_eq_some_iff.mp h2
      obtain ⟨s3, hfinish, h4⟩ := Option.bind_eq_some_iff.mp h3
      obtain ⟨-, rfl⟩ := Prod.mk.inj (Option.some.inj h4)
      obtain ⟨rfl, -⟩ := toInt_eq hb
      obtain ⟨hint, rfl, rfl⟩ := getdiskregion_ok hregion
      obtain ⟨-, rfl⟩ := finish_some (padded_length _) hfinish
      exact adds_recorded _ 0x8 name (cDFs_adds entries (begun s _) ids s2 hentries) hint

theorem cDFs_adds : ∀ (entries : List DirORfile) (s : Builder) (ids : List Nat) (s' : Builder),
    cDFs entries s = some (ids, s') → Adds s s' (numinodesOf entries) (regionSectorsOf entries)
  | [], s, ids, s', h => by
      rw [cDFs] at h
      obtain ⟨-, rfl⟩ := Prod.mk.inj (Option.some.inj h)
      exact Adds.refl s
  | a :: entries, s, ids, s', h => by
      rw [cDFs] at h
      obtain ⟨⟨id, s1⟩, ha, h1⟩ := Option.bind_eq_some_iff.mp h
      obtain ⟨⟨ids', s2⟩, hentries, h2⟩ := Option.bind_eq_some_iff.mp h1
      obtain ⟨-, rfl⟩ := Prod.mk.inj (Option.some.inj h2)
      exact (cDF_adds a s id s1 ha).trans (cDFs_adds entries s1 ids' s2 hentries)

end

theorem toInt_some {n : Nat} (h : n < 2147483648) : toInt n = some n := if_pos h

mutual

/-- The builder gets to its end as long as all of its regions lie in the first 2 GiB. -/
theorem cDF_isSome : ∀ (a : DirORfile) (s : Builder),
    512 * (LBA_FS_BASE + s.FIRST_UNU + regionSectors a) < 2147483648 → (cDF a s).isSome
  | .file name contents int, s, h => by
      rw [regionSectors] at h
      have hfits : ¬ contents.length > sectorCount contents.length * 0x200 :=
        Nat.not_lt.mpr (le_sectorCount _)
      rw [cDF, getsizeofDOF, toInt_some (by omega)]
      simp only [Builder.getdiskregion, toInt_some (show s.FIRST_UNU + sectorCount contents.length <
        2147483648 by omega), Option.bind_eq_bind, Option.bind_some, pure, if_neg hfits]
      rw [finish_eq (padded_length contents), if_pos (by omega)]
      rfl
  | .dir name entries, s, h => by
      rw [regionSectors] at h
      obtain ⟨⟨ids, s2⟩, hentries⟩ := Option.isSome_iff_exists.mp
        (cDFs_isSome entries (begun s (sectorCount (entries.length * sizeofInode)))
          (by
            change 512 * (LBA_FS_BASE + (s.FIRST_UNU + sectorCount (entries.length * sizeofInode)) +
              _) < _
            omega))
      rw [begun] at hentries
      rw [cDF, getsizeofDOF, toInt_some (by omega)]
      simp only [Builder.getdiskregion, toInt_some (show s.FIRST_UNU + sectorCount
        (entries.length * sizeofInode) < 2147483648 by omega), Option.bind_eq_bind,
        Option.bind_some, pure, hentries]
      rw [finish_eq (padded_length _), if_pos (by omega)]
      rfl

theorem cDFs_isSome : ∀ (entries : List DirORfile) (s : Builder),
    512 * (LBA_FS_BASE + s.FIRST_UNU + regionSectorsOf entries) < 2147483648 →
      (cDFs entries s).isSome
  | [], s, _ => rfl
  | a :: entries, s, h => by
      rw [regionSectorsOf] at h
      obtain ⟨⟨id, s1⟩, ha⟩ := Option.isSome_iff_exists.mp (cDF_isSome a s (by omega))
      have hfirst := (cDF_adds a s id s1 ha).first
      obtain ⟨⟨ids, s2⟩, hentries⟩ := Option.isSome_iff_exists.mp
        (cDFs_isSome entries s1 (by omega))
      simp only [cDFs, ha, hentries, Option.bind_eq_bind, Option.bind_some]
      rfl

end

/-! ## The number of inodes -/

mutual

/-- A directory has room for its entries. -/
theorem numinodes_le : ∀ a : DirORfile,
    sizeofInode * numinodes a ≤ 512 * regionSectors a + sizeofInode
  | .file name contents int => by
      rw [numinodes]
      omega
  | .dir name entries => by
      have hroom := le_sectorCount (entries.length * sizeofInode)
      have hentries := numinodesOf_le entries
      rw [Nat.mul_comm entries.length] at hroom
      rw [numinodes, regionSectors, Nat.mul_succ, Nat.mul_comm entries.length]
      omega

theorem numinodesOf_le : ∀ entries : List DirORfile,
    sizeofInode * numinodesOf entries ≤ 512 * regionSectorsOf entries + sizeofInode * entries.length
  | [] => Nat.zero_le _
  | a :: entries => by
      have ha := numinodes_le a
      have hentries := numinodesOf_le entries
      rw [numinodesOf, regionSectorsOf, List.length_cons, Nat.mul_add sizeofInode, Nat.mul_succ]
      omega

end

mutual

/-- The region that comes last begins in the first 2 GiB, behind the directories. -/
theorem cDF_reach : ∀ (a : DirORfile) (s : Builder) (id : Nat) (s' : Builder),
    cDF a s = some (id, s') →
      512 * (LBA_FS_BASE + s.FIRST_UNU) + sizeofInode * numinodes a < 2147483648 + sizeofInode
  | .file name contents int, s, id, s', h => by
      rw [cDF] at h
      obtain ⟨b, -, h1⟩ := Option.bind_eq_some_iff.mp h
      obtain ⟨⟨st, s1⟩, hregion, h2⟩ := Option.bind_eq_some_iff.mp h1
      obtain ⟨s3, hfinish, -⟩ := Option.bind_eq_some_iff.mp h2
      obtain ⟨-, rfl, -⟩ := getdiskregion_ok hregion
      obtain ⟨hseek, -⟩ := finish_some (padded_length contents) hfinish
      rw [numinodes]
      omega
  | .dir name entries, s, id, s', h => by
      rw [cDF] at h
      obtain ⟨b, hb, h1⟩ := Option.bind_eq_some_iff.mp h
      obtain ⟨⟨st, s1⟩, hregion, h2⟩ := Option.bind_eq_some_iff.mp h1
      obtain ⟨⟨ids, s2⟩, hentries, h3⟩ := Option.bind_eq_some_iff.mp h2
      obtain ⟨s3, hfinish, -⟩ := Option.bind_eq_some_iff.mp h3
      obtain ⟨rfl, -⟩ := toInt_eq hb
      obtain ⟨-, rfl, rfl⟩ := getdiskregion_ok hregion
      obtain ⟨hseek, -⟩ := finish_some (padded_length _) hfinish
      have hroom := le_sectorCount (entries.length * sizeofInode)
      have hreach := cDFs_reach entries (begun s _) ids s2 hentries
      change entries = [] ∨ 512 * (LBA_FS_BASE + (s.FIRST_UNU + _)) + _ < _ at hreach
      rw [numinodes, Nat.mul_succ]
      rcases hreach with rfl | hreach
      · rw [numinodesOf]
        omega
      · rw [Nat.mul_comm entries.length] at hroom hreach
        omega

theorem cDFs_reach : ∀ (entries : List DirORfile) (s : Builder) (ids : List Nat) (s' : Builder),
    cDFs entries s = some (ids, s') → entries = [] ∨
      512 * (LBA_FS_BASE + s.FIRST_UNU) + sizeofInode * numinodesOf entries <
        2147483648 + sizeofInode * entries.length
  | [], s, ids, s', h => .inl rfl
  | a :: entries, s, ids, s', h => by
      rw [cDFs] at h
      obtain ⟨⟨id, s1⟩, ha, h1⟩ := Option.bind_eq_some_iff.mp h
      obtain ⟨⟨ids', s2⟩, hentries, -⟩ := Option.bind_eq_some_iff.mp h1
      have hfirst := (cDF_adds a s id s1 ha).first
      have hsize := numinodes_le a
      have hone := cDF_reach a s id s1 ha
      rw [numinodesOf, List.length_cons, Nat.mul_add sizeofInode, Nat.mul_succ]
      rcases cDFs_reach entries s1 ids' s2 hentries with rfl | hrest
      · rw [numinodesOf, List.length_nil]
        omega
      · omega

end

/-! ## The whole image -/

/-- The table and the regions are apart, and nothing is written behind the end of the image. -/
structure LayoutSound (root : DirORfile) (built : Builder) : Prop where
  table : ∀ i < numinodes root, lnb root ≤ firstSector built.inbase i
  regions : ∀ i j, i < j → j < numinodes root →
    endSector built.inbase i ≤ firstSector built.inbase j ∨
      endSector built.inbase j ≤ firstSector built.inbase i
  inside : ∀ w ∈ built.written, ∀ k < w.2,
    512 * (LBA_FS_BASE + (w.1 + k)) + 512 ≤ built.flll.toNat

variable {root : DirORfile} {image : Nat → UInt8} {flll : UInt64} {built : Builder}

theorem numinodes_pos (root : DirORfile) : 0 < numinodes root := by
  cases root with
  | file name contents int => exact Nat.one_pos
  | dir name entries => exact Nat.succ_pos _

theorem lnb_pos (root : DirORfile) : 0 < lnb root := by
  have hle := le_sectorCount (sizeofInode * numinodes root)
  have hpos := numinodes_pos root
  have hbytes : 0 < sizeofInode * numinodes root := Nat.mul_pos (by decide) hpos
  rw [lnb]
  omega

/-- What `main` has done when it ends. -/
structure Built (root : DirORfile) (flll : UInt64) (built : Builder) : Prop where
  size : built.flll = flll
  placed : Placed built.inbase 0 (numinodes root) (lnb root) (totalSectors root)
  below : ∀ w ∈ built.written, w.1 + w.2 ≤ totalSectors root
  top : ∃ w ∈ built.written, w.2 ≠ 0 ∧ w.1 + w.2 = totalSectors root
  errc : built.errc = 0 ↔ 512 * totalSectors root ≤ flll.toNat

/-- What `main` gives to `cDF`. -/
def Builder.begun (root : DirORfile) (image : Nat → UInt8) (flll : UInt64) : Builder where
  image := image
  flll := flll
  errc := if lnb root = 0 then 1 else 0
  FIRST_UNU := lnb root
  lastfucker := 0
  inbase := fun _ => 0
  written := []

theorem buildImage_some (h : buildImage root image flll = some built) :
    ∃ id s, cDF root (Builder.begun root image flll) = some (id, s) ∧
      built = s.wdiskr 0 (lnb root) (stretch s.inbase 0 (lnb root * 0x200)) := by
  rw [buildImage] at h
  obtain ⟨count, -, h1⟩ := Option.bind_eq_some_iff.mp h
  obtain ⟨size, hsize, h2⟩ := Option.bind_eq_some_iff.mp h1
  obtain ⟨first, hfirst, h3⟩ := Option.bind_eq_some_iff.mp h2
  obtain ⟨⟨id, s⟩, hcdf, h4⟩ := Option.bind_eq_some_iff.mp h3
  obtain rfl := Option.some.inj h4
  obtain ⟨rfl, -⟩ := toInt_eq hsize
  obtain ⟨rfl, -⟩ := toInt_eq hfirst
  exact ⟨id, s, hcdf, rfl⟩

theorem buildImage_built (h : buildImage root image flll = some built) : Built root flll built := by
  have hpos := numinodes_pos root
  have hlnb := lnb_pos root
  obtain ⟨id, s, hcdf, rfl⟩ := buildImage_some h
  have hadds := cDF_adds _ _ _ _ hcdf
  have htotal : s.FIRST_UNU = totalSectors root := hadds.first
  have hlast : s.lastfucker = numinodes root := hadds.last.trans (Nat.zero_add _)
  have hflll : s.flll = flll := hadds.flll
  have hbegun : (Builder.begun root image flll).errc = 0 := if_neg (by omega)
  have herrc := hadds.errc
  rw [hbegun] at herrc
  change s.errc = 0 ↔ 0 = 0 ∧ (numinodes root ≠ 0 → 512 * s.FIRST_UNU ≤ flll.toNat) at herrc
  obtain ⟨new, hnew, hin, htop⟩ := hadds.written
  have hwritten : s.written = new := hnew.trans (List.nil_append _)
  have hle : lnb root ≤ totalSectors root := Nat.le_add_right _ _
  constructor
  case size => exact hflll
  case placed =>
    have hplaced := hadds.placed
    rwa [hlast, htotal] at hplaced
  case below =>
    intro w hw
    rcases List.mem_append.mp hw with hw | hw
    · rw [← htotal]
      exact hin w (hwritten ▸ hw)
    · rw [List.mem_singleton.mp hw]
      dsimp only
      omega
  case top =>
    by_cases hsec : regionSectors root = 0
    · refine ⟨(0, lnb root), List.mem_append_right _ (List.mem_singleton.mpr rfl), ?_, ?_⟩
      · dsimp only
        omega
      · dsimp only
        rw [totalSectors]
        omega
    · obtain ⟨w, hw, hw0, hend⟩ := htop hsec
      exact ⟨w, List.mem_append_left _ (hwritten ▸ hw), hw0, by rw [hend, htotal]⟩
  case errc =>
    have hbound : (s.wdiskr 0 (lnb root) (stretch s.inbase 0 (lnb root * 0x200))).errc =
        if 0x200 * lnb root > flll.toNat then s.errc + 1 else s.errc := by
      rw [← hflll]
      show (if 0x200 * 0 + _ > _ then _ else _) = _
      rw [Nat.mul_zero, Nat.zero_add]
    rw [hbound]
    by_cases hfit : 0x200 * lnb root > flll.toNat
    · rw [if_pos hfit]
      omega
    · rw [if_neg hfit, herrc, htotal]
      omega

/-- The layout is sound exactly for trees that leave room for the boot sectors, or that do not even
pass the check. -/
theorem builder_layout_iff (h : buildImage root image flll = some built) :
    (built.errc = 0 → LayoutSound root built) ↔
      flll.toNat < 512 * totalSectors root ∨
        512 * (LBA_FS_BASE + totalSectors root) ≤ flll.toNat := by
  have hbuilt := buildImage_built h
  constructor
  · intro hsound
    by_cases herr : built.errc = 0
    · obtain ⟨w, hw, hw0, hend⟩ := hbuilt.top
      have hinside := (hsound herr).inside w hw (w.2 - 1) (by omega)
      rw [hbuilt.size] at hinside
      exact Or.inr (by omega)
    · rw [hbuilt.errc] at herr
      exact Or.inl (by omega)
  · rintro hroom herr
    rw [hbuilt.errc] at herr
    refine ⟨fun i hi => (hbuilt.placed.inside i (Nat.zero_le i) hi).1,
      fun i j hij hj => hbuilt.placed.apart i j (Nat.zero_le i) hij hj, fun w hw k hk => ?_⟩
    have hbelow := hbuilt.below w hw
    rw [hbuilt.size]
    omega

theorem buildImage_isSome (root : DirORfile) (image : Nat → UInt8) (flll : UInt64)
    (htotal : 512 * (LBA_FS_BASE + totalSectors root) < 2147483648) :
    ∃ built, buildImage root image flll = some built := by
  rw [totalSectors, ← Nat.add_assoc] at htotal
  have hcount : numinodes root < 2147483648 := by
    have htable := le_sectorCount (sizeofInode * numinodes root)
    rw [← lnb] at htable
    unfold sizeofInode at htable
    omega
  obtain ⟨⟨id, s⟩, hs⟩ := Option.isSome_iff_exists.mp (cDF_isSome root
    { image, flll, errc := if lnb root = 0 then 1 else 0, FIRST_UNU := lnb root, lastfucker := 0,
      inbase := fun _ => 0, written := [] } htotal)
  rw [buildImage]
  simp only [toInt_some hcount, toInt_some (show lnb root < 2147483648 by omega),
    Option.bind_eq_bind, Option.bind_some, hs]
  exact ⟨_, rfl⟩

/-- A root directory with a directory that has a file and an empty directory in it, and a file. -/
def sampleRoot : DirORfile :=
  .dir [] [
    .dir [0x64] [.file [0x66] [0x68, 0x69] (by decide), .dir [0x65] []],
    .file [0x67] [0x68, 0x65, 0x6c, 0x6c, 0x6f] (by decide)]

theorem builder_layout_sampleRoot : ∃ built,
    buildImage sampleRoot (fun _ => 0) 1474560 = some built ∧ built.errc = 0 ∧
      LayoutSound sampleRoot built := by
  obtain ⟨built, h⟩ := buildImage_isSome sampleRoot (fun _ => 0) 1474560 (by decide)
  have herrc : built.errc = 0 := (buildImage_built h).errc.mpr (by decide)
  exact ⟨built, h, herrc, (builder_layout_iff h).mpr (.inr (by decide)) herrc⟩

/-- A root directory with one file. -/
def oneFile (contents : List UInt8) (int : contents.length < 2147483648) : DirORfile :=
  .dir [] [.file [0x61] contents int]

theorem totalSectors_oneFile (contents : List UInt8) (int : contents.length < 2147483648) :
    totalSectors (oneFile contents int) = sectorCount contents.length + 2 := by
  have htable : sectorCount (sizeofInode * (1 + 0 + 1)) = 1 := by decide
  have hroot : sectorCount (1 * sizeofInode) = 1 := by decide
  simp only [totalSectors, lnb, oneFile, numinodes, numinodesOf, regionSectors, regionSectorsOf,
    List.length_singleton, htable, hroot]
  omega

/-- With the table and the root directory the file takes all 2880 sectors of a floppy. -/
theorem full_floppy (contents : List UInt8) (int : contents.length < 2147483648)
    (hlen : contents.length = 1473536) : ∃ built,
    buildImage (oneFile contents int) (fun _ => 0) 1474560 = some built ∧ built.errc = 0 ∧
      ¬ LayoutSound (oneFile contents int) built := by
  have htotal : totalSectors (oneFile contents int) = 2880 := by
    rw [totalSectors_oneFile, hlen]
    decide
  obtain ⟨built, h⟩ := buildImage_isSome (oneFile contents int) (fun _ => 0) 1474560
    (by rw [htotal]; decide)
  have hbuilt := buildImage_built h
  refine ⟨built, h, hbuilt.errc.mpr (by rw [htotal]; decide), fun hsound => ?_⟩
  obtain ⟨w, hw, hw0, hend⟩ := hbuilt.top
  have hinside := hsound.inside w hw (w.2 - 1) (by omega)
  have hbytes : (1474560 : UInt64).toNat = 1474560 := rfl
  rw [hbuilt.size, hbytes, LBA_FS_BASE] at hinside
  omega

theorem full_floppy_overflows : ∃ built,
    buildImage (oneFile (List.replicate 1473536 0x62) (by rw [List.length_replicate]; decide))
      (fun _ => 0) 1474560 = some built ∧ built.errc = 0 ∧
      ¬ LayoutSound (oneFile (List.replicate 1473536 0x62) (by rw [List.length_replicate]; decide))
        built :=
  full_floppy _ _ List.length_replicate

end UnnamedOS.Files
