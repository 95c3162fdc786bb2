import UnnamedOS.Files.PathLookup

/-!
# Every file of a tree is read back

The lookup of a file comes to the inode that the builder wrote for it, and to the sectors with its
bytes. The regions of a tree end in the first 2 GiB or soon behind them, so that the inode cache can
hold all of its inodes.
-/

namespace UnnamedOS.Files

open UnnamedOS.Lib

/-- What is at the names, below entries whose first index is `i`, and its index. -/
inductive At : List DirORfile → Nat → List (List UInt8) → DirORfile → Nat → Prop
  | entry (pre : List DirORfile) (a : DirORfile) (post : List DirORfile) (i : Nat) :
      At (pre ++ a :: post) i [a.name] a (i + numinodesOf pre)
  | inside {entries : List DirORfile} {names : List (List UInt8)} {a : DirORfile} {j : Nat}
      (pre : List DirORfile) (name : List UInt8) (post : List DirORfile) (i : Nat) :
      At entries (i + numinodesOf pre + 1) names a j →
        At (pre ++ .dir name entries :: post) i (name :: names) a j

mutual

/-- No slash in a name, no name twice in a directory, no file of more than 127 sectors. -/
def Proper : DirORfile → Prop
  | .file _ contents _ => sectorCount contents.length ≤ 127
  | .dir _ entries => (entries.map DirORfile.name).Nodup ∧ ProperAll entries

def ProperAll : List DirORfile → Prop
  | [] => True
  | a :: entries => (∀ c ∈ a.name, c ≠ 0x2f) ∧ Proper a ∧ ProperAll entries

end

/-- `/c1/.../cn`. -/
def slashed (names : List (List UInt8)) : List UInt8 := names.flatMap (0x2f :: ·)

/-- The lookup from the root finds an inode with the name, whose sectors hold the contents and zeros
behind them. -/
def Retrieved (v : Volume) (filename : Filename) (name contents : List UInt8) : Prop :=
  ∃ r v₁ b v₂, GrabInode v 0 = .ok (r, v₁) ∧
    getFileFromFilename v₁ (.ofPacked r) filename = .ok (some b, v₂) ∧
    cString (Inode.ofPacked b).name.toList = name ∧
    InodeRead v₂.disc (.ofPacked b) 0 ((Inode.ofPacked b).chunklen <<< 9) =
      .ok (contents ++ List.replicate (512 * sectorCount contents.length - contents.length) 0)

variable {root a : DirORfile} {entries pre post : List DirORfile} {built : Builder}
  {first last i j k : Nat} {names : List (List UInt8)} {name contents rootName : List UInt8}
  {v : Volume}

/-! ## One entry of a directory -/

theorem wellNamedAll_entry (h : WellNamedAll (pre ++ a :: post)) : GoodName a.name ∧ WellNamed a := by
  induction pre with
  | nil => exact ⟨h.1, h.2.1⟩
  | cons b pre ih => exact ih h.2.2

theorem properAll_entry (h : ProperAll (pre ++ a :: post)) :
    (∀ c ∈ a.name, c ≠ 0x2f) ∧ Proper a := by
  induction pre with
  | nil => exact ⟨h.1, h.2.1⟩
  | cons b pre ih => exact ih h.2.2

theorem storedAll_entry (h : StoredAll built.inbase built.image first last (pre ++ a :: post) i) :
    Stored built.inbase built.image first last a (i + numinodesOf pre) := by
  induction pre generalizing i with
  | nil => exact h.1
  | cons b pre ih =>
      rw [numinodesOf, ← Nat.add_assoc]
      exact ih h.2

theorem numinodesOf_entry (pre : List DirORfile) (a : DirORfile) (post : List DirORfile) :
    numinodesOf pre + numinodes a ≤ numinodesOf (pre ++ a :: post) := by
  induction pre with
  | nil =>
      rw [List.nil_append, numinodesOf, numinodesOf]
      omega
  | cons b pre ih =>
      rw [List.cons_append, numinodesOf, numinodesOf]
      omega

/-- No entry before it has its name. -/
theorem name_ne_of_nodup {b : DirORfile}
    (h : ((b :: pre ++ a :: post).map DirORfile.name).Nodup) :
    b.name ≠ a.name ∧ ((pre ++ a :: post).map DirORfile.name).Nodup := by
  rw [List.cons_append, List.map_cons, List.nodup_cons] at h
  refine ⟨fun heq => h.1 ?_, h.2⟩
  rw [heq]
  exact List.mem_map_of_mem (by simp)

theorem entryNamed_entry (h : ((pre ++ a :: post).map DirORfile.name).Nodup) (i : Nat) :
    entryNamed a.name (pre ++ a :: post) i = some (a, i + numinodesOf pre) := by
  induction pre generalizing i with
  | nil => rw [List.nil_append, entryNamed, if_pos rfl, numinodesOf, Nat.add_zero]
  | cons b pre ih =>
      obtain ⟨hne, hrest⟩ := name_ne_of_nodup h
      rw [List.cons_append, entryNamed, if_neg hne, ih hrest, numinodesOf, Nat.add_assoc]

theorem subdirectory_entry {sub : List UInt8} (hproper : Proper (.dir name
    (pre ++ .dir sub entries :: post))) (k : Nat) :
    entryOf sub (.dir name (pre ++ .dir sub entries :: post)) k =
      some (.dir sub entries, k + 1 + numinodesOf pre) :=
  entryNamed_entry (a := .dir sub entries) hproper.1 (k + 1)

/-! ## The whole path -/

theorem At.le (h : At entries i names a j) : i + names.length ≤ j + 1 := by
  induction h with
  | entry pre a post i =>
      rw [List.length_singleton]
      omega
  | inside pre name post i _ ih =>
      rw [List.length_cons]
      omega

/-- Where a directory is whose entries begin with the next index. -/
theorem At.follow (h : At entries i names a j) (hproper : Proper (.dir name entries))
    (hi : i = k + 1) : Files.follow names (.dir name entries) k = some j := by
  induction h generalizing name k with
  | entry pre a post i =>
      rw [Files.follow, entryOf, ← hi, entryNamed_entry hproper.1]
      rfl
  | inside pre sub post i _ ih =>
      subst hi
      rw [Files.follow, subdirectory_entry hproper]
      exact ih (properAll_entry hproper.2).2 rfl

theorem At.readable (h : At entries i names a j) (hproper : Proper (.dir name entries))
    (hi : i = k + 1) : ReadableAlong names (.dir name entries) k := by
  induction h generalizing name k with
  | entry pre a post i =>
      exact ⟨List.append_ne_nil_of_right_ne_nil _ (List.cons_ne_nil _ _), fun _ _ => trivial⟩
  | inside pre sub post i _ ih =>
      subst hi
      refine ⟨List.append_ne_nil_of_right_ne_nil _ (List.cons_ne_nil _ _), fun r hr => ?_⟩
      rw [subdirectory_entry hproper] at hr
      obtain rfl := Option.some.inj hr
      exact ih (properAll_entry hproper.2).2 rfl

/-- What is at the names, as the builder has stored it. -/
structure Located (built : Builder) (first last : Nat) (names : List (List UInt8)) (a : DirORfile)
    (j : Nat) : Prop where
  stored : Stored built.inbase built.image first last a j
  good : GoodName a.name
  proper : Proper a
  parts : ∃ dirs part, SingleSlashes dirs ∧ part.slashes = 0 ∧ part.name = a.name ∧
    componentNames dirs part = names
  short : ∀ name ∈ names, name.length ≤ 31

/-- A name as a component with one slash in front of it. -/
def partOf (name : List UInt8) (hgood : GoodName name) (hslash : ∀ c ∈ name, c ≠ 0x2f) : Part where
  slashes := 0
  name := name
  nonempty := List.length_pos_iff.mp hgood.1
  no_slash := hslash
  no_zero := hgood.2.2

theorem At.found (h : At entries i names a j) (hnamed : WellNamedAll entries)
    (hproper : ProperAll entries)
    (hstored : StoredAll built.inbase built.image first last entries i) :
    Located built first last names a j ∧ j + numinodes a ≤ i + numinodesOf entries := by
  induction h with
  | entry pre a post i =>
      obtain ⟨hgood, -⟩ := wellNamedAll_entry hnamed
      obtain ⟨hslash, ha⟩ := properAll_entry hproper
      have hroom := numinodesOf_entry pre a post
      refine ⟨⟨storedAll_entry hstored, hgood, ha, ⟨[], partOf a.name hgood hslash, ?_, rfl, rfl,
        rfl⟩, ?_⟩, by omega⟩
      · exact fun _ hmem => absurd hmem List.not_mem_nil
      · intro name hname
        rw [List.mem_singleton.mp hname]
        exact hgood.2.1
  | @inside entries names a j pre sub post i _ ih =>
      obtain ⟨hgood, hsub⟩ := wellNamedAll_entry hnamed
      obtain ⟨hslash, hdir⟩ := properAll_entry hproper
      have hroom := numinodesOf_entry pre (.dir sub entries) post
      rw [numinodes] at hroom
      obtain ⟨hfound, hle⟩ := ih hsub.2 hdir.2 (storedAll_entry hstored).2
      obtain ⟨dirs, part, hsingle, hpart, hname, hnames⟩ := hfound.parts
      refine ⟨⟨hfound.stored, hfound.good, hfound.proper, ⟨partOf sub hgood hslash :: dirs, part,
        List.forall_mem_cons.mpr ⟨rfl, hsingle⟩, hpart, hname, ?_⟩,
        List.forall_mem_cons.mpr ⟨hgood.2.1, hfound.short⟩⟩, by omega⟩
      rw [← hnames]
      rfl

/-! ## The file -/

theorem pathText_single {dirs : List Part} {part : Part} (hsingle : SingleSlashes dirs)
    (hpart : part.slashes = 0) :
    pathText (dirs ++ [part]) = slashed (componentNames dirs part) := by
  induction dirs with
  | nil =>
      simp [pathText, slashed, componentNames, Part.text, Part.tail, hpart]
  | cons b dirs ih =>
      obtain ⟨hb, hdirs⟩ := List.forall_mem_cons.mp hsingle
      rw [List.cons_append, pathText_cons, ih hdirs, Part.text, Part.tail, hb]
      rfl

theorem length_slashed (h : ∀ name ∈ names, name.length ≤ 31) :
    (slashed names).length ≤ 32 * names.length := by
  induction names with
  | nil => exact Nat.le_refl 0
  | cons name names ih =>
      obtain ⟨hname, hrest⟩ := List.forall_mem_cons.mp h
      have hle := ih hrest
      rw [slashed] at hle ⊢
      rw [List.flatMap_cons, List.length_append, List.length_cons, List.length_cons]
      omega

/-- The sectors of an inode are the bytes of its file. -/
theorem Record.read {b : Nat} {perms : UInt16} {bytes : List UInt8} {disc : Disc}
    (h : Record built.inbase built.image first last j b perms name bytes) (hb : b ≤ 127)
    (hfits : bytes.length ≤ 512 * b) (hdisc : disc = discOf built) :
    InodeRead disc (tableInode built.inbase j) 0 ((tableInode built.inbase j).chunklen <<< 9) =
      .ok (bytes ++ List.replicate (512 * b - bytes.length) 0) := by
  obtain ⟨st, hint, -, -, hinode, hbytes⟩ := h
  have hst : st < 2147483648 := by omega
  have hb' : b < 2147483648 := by omega
  obtain ⟨haddr, hlen⟩ := constructInode_chunk hst hb' perms name
  have hsize : ((tableInode built.inbase j).chunklen <<< 9).toNat = 512 * b := by
    rw [hinode, toNat_shiftLeft_nine, hlen]
    omega
  have hroom : (0 : UInt64).toNat + ((tableInode built.inbase j).chunklen <<< 9).toNat ≤
      ((tableInode built.inbase j).chunklen <<< 9).toNat := Nat.le_of_eq (Nat.zero_add _)
  have hwhole : 512 ∣ ((tableInode built.inbase j).chunklen <<< 9).toNat := by
    rw [hsize]
    exact Nat.dvd_mul_right ..
  have hfirst : (tableInode built.inbase j).chunkaddr1.toNat = st := by rw [hinode, haddr]
  have hreach : (tableInode built.inbase j).chunkaddr1.toNat + (0 : UInt64).toNat / 512 <
      18446744073709551616 := by
    rw [hfirst]
    change st + 0 / 512 < _
    omega
  have hread : InodeRead disc _ _ _ = _ :=
    InodeRead_eq hroom (Nat.dvd_zero 512) hwhole (by omega) hreach
  have hbytes' : stretch (discOf built) (512 * st) (512 * b) = padded (512 * b) bytes := by
    rw [stretch_discOf]
    exact hbytes
  rw [hread, hsize, hfirst, hdisc]
  change Except.ok (stretch (discOf built) (512 * st + 0) (512 * b)) = _
  rw [Nat.add_zero, hbytes', padded, List.take_of_length_le hfits]

section Built

variable {image : Nat → UInt8} {flll : UInt64} {int : contents.length < 2147483648}
  {filename : Filename}

/-- The path of a file in the form that the lookup lemmas take. -/
theorem At.lookup_path (hcarries : Carries (.dir rootName entries) built)
    (hnamed : WellNamed (.dir rootName entries)) (hproper : Proper (.dir rootName entries))
    (hat : At entries 1 names a j) (hspells : Spells filename (slashed names)) :
    ∃ dirs part, lookedUp dirs part ++ [part.name] = names ∧
      Spells filename (pathText (dirs ++ [part])) ∧
      (pathText (dirs ++ [part])).length ≤ 32 * names.length := by
  obtain ⟨hfound, -⟩ := hat.found hnamed.2 hproper.2 hcarries.tree.2
  obtain ⟨dirs, part, hsingle, hpart, -, hnames⟩ := hfound.parts
  have htext := pathText_single hsingle hpart
  rw [hnames] at htext
  refine ⟨dirs, part, ?_, htext.symm ▸ hspells, htext.symm ▸ length_slashed hfound.short⟩
  rw [← hnames, lookedUp, take_pathNames_single hsingle, componentNames]

/-- Every file of a tree that has been built is read back. -/
theorem file_read_back (hbuilt : buildImage (.dir rootName entries) image flll = some built)
    (hnamed : WellNamed (.dir rootName entries)) (hproper : Proper (.dir rootName entries))
    (hv : Agrees v) (hdisc : v.disc = discOf built)
    (hat : At entries 1 names (.file name contents int) j)
    (hspells : Spells filename (slashed names)) : Retrieved v filename name contents := by
  have hcarries := buildImage_carries hbuilt
  have hcount := buildImage_inodes hbuilt
  obtain ⟨hfound, hroom⟩ := hat.found hnamed.2 hproper.2 hcarries.tree.2
  obtain ⟨dirs, part, hlooked, hpath, hlen⟩ := hat.lookup_path hcarries hnamed hproper hspells
  have hin : j < numinodes (.dir rootName entries) := by
    have hone := numinodes_pos (.file name contents int)
    rw [numinodes.eq_def]
    dsimp only
    omega
  have hzero : Indexable 0 := by decide
  obtain ⟨v₁, hgrab, hdisc₁, hv₁, -⟩ := GrabInode_spec hv hzero
  have hcarried : v₁.disc = discOf built := hdisc₁.trans hdisc
  have hshort : (pathText (dirs ++ [part])).length < intRange := by
    have hle := hat.le
    unfold sizeofVnode at hcount
    unfold intRange
    omega
  have halong : ReadableAlong (lookedUp dirs part ++ [part.name]) (.dir rootName entries) 0 := by
    rw [hlooked]
    exact hat.readable hproper rfl
  obtain ⟨v₂, hlookup, hdisc₂⟩ := hcarries.lookup_eq hcount hnamed hv₁ hcarried hpath hshort halong
  have hslot : Inode.ofPacked (slotBytes v.disc j) = tableInode built.inbase j := by
    rw [hdisc]
    exact hcarries.tableInode (inTable_of_lt hin)
  rw [hlooked, hat.follow hproper rfl, hdisc₁] at hlookup
  refine ⟨_, v₁, slotBytes v.disc j, v₂, hgrab, hlookup, ?_, ?_⟩
  · obtain ⟨st, b, perms, hinode⟩ := hfound.stored.tableInode
    rw [hslot, hinode]
    exact hfound.good.cString_field st b perms
  · have hrecord : Record built.inbase built.image _ _ j (sectorCount contents.length) 0x1 name
      contents := hfound.stored
    have hfits := le_sectorCount contents.length
    rw [hslot]
    exact hrecord.read hfound.proper (by omega) (hdisc₂.trans hcarried)

end Built

theorem twoLevels_proper : Proper twoLevels := by
  have hd : ∀ c ∈ ([0x64] : List UInt8), c ≠ 0x2f := by simp
  have hf : ∀ c ∈ ([0x66] : List UInt8), c ≠ 0x2f := by simp
  have hsize : sectorCount 2 ≤ 127 := by decide
  exact ⟨List.nodup_singleton _, hd, ⟨List.nodup_singleton _, hf, hsize, trivial⟩, trivial⟩

/-- The file of a tree with two levels is. -/
theorem file_read_back_twoLevels : ∃ built, buildImage twoLevels (fun _ => 0) 1474560 = some built ∧
    Retrieved ⟨discOf built, .null⟩ (pathOf (slashed [[0x64], [0x66]])) [0x66] [0x68, 0x69] := by
  obtain ⟨built, hbuilt⟩ := Option.isSome_iff_exists.mp twoLevels_isSome
  have hat : At [.dir [0x64] [.file [0x66] [0x68, 0x69] (by decide)]] 1 [[0x64], [0x66]]
      (.file [0x66] [0x68, 0x69] (by decide)) 2 :=
    .inside [] [0x64] [] 1 (.entry [] _ [] 2)
  have hspells : Spells (pathOf (slashed [[0x64], [0x66]])) (slashed [[0x64], [0x66]]) :=
    pathOf_spells (by simp [slashed])
  exact ⟨built, hbuilt, file_read_back hbuilt twoLevels_wellNamed twoLevels_proper
    (agrees_null _) rfl hat hspells⟩

end UnnamedOS.Files
