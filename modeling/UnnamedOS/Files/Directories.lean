import UnnamedOS.Files.Lookup
import UnnamedOS.Files.Slots

/-!
# The directories of a built image

The ids that a lookup reads in a directory are the indices of its entries, and the names behind them
are the names of the entries.
-/

namespace UnnamedOS.Files

open UnnamedOS.Lib

variable {v : Volume} {id : UInt64} {i : Nat}

/-! ## Lists of ids -/

theorem ofBytes_zeros (n : Nat) : ofBytes (List.replicate n 0) = 0 := by
  induction n with
  | zero => rfl
  | succ n ih => rw [List.replicate_succ, ofBytes, ih]; rfl

theorem quad_zeros (n l : Nat) : quad (List.replicate n 0) l = 0 := by
  rw [quad, List.drop_replicate, List.take_replicate, ofBytes_zeros]
  rfl

theorem quad_toBytes (id : Nat) (m : List UInt8) :
    quad (toBytes 8 id ++ m) 0 = .ofNat id := by
  have h256 : (256 : Nat) ^ 8 = 18446744073709551616 := by decide
  rw [quad, Nat.mul_zero, List.drop_zero, List.take_left' (length_toBytes 8 id), ofBytes_toBytes,
    h256]
  exact UInt64.ofNat_mod_size ..

theorem quad_toBytes_succ (id : Nat) (m : List UInt8) (l : Nat) :
    quad (toBytes 8 id ++ m) (l + 1) = quad m l := by
  have hdrop : (toBytes 8 id ++ m).drop (8 * (l + 1)) = m.drop (8 * l) := by
    rw [Nat.mul_add, Nat.add_comm, ← List.drop_drop, List.drop_left' (length_toBytes 8 id)]
  rw [quad, hdrop, quad]

/-- The quads of ids with zeros behind them. -/
theorem quads_eq (ids : List Nat) (n : Nat) :
    (List.range (ids.length + n)).map
        (quad ((ids.flatMap fun id => toBytes 8 id) ++ List.replicate (8 * n) 0)) =
      ids.map UInt64.ofNat ++ List.replicate n 0 := by
  induction ids with
  | nil =>
      apply List.ext_getElem
      · simp
      · intro l hl hl'
        simp only [List.flatMap_nil, List.nil_append, List.map_nil, List.getElem_map,
          List.getElem_range, List.getElem_replicate, quad_zeros]
  | cons id ids ih =>
      have htail (m : List UInt8) : (List.range (ids.length + n)).map
          (quad (toBytes 8 id ++ m) ∘ Nat.succ) = (List.range (ids.length + n)).map (quad m) :=
        List.map_congr_left fun l _ => quad_toBytes_succ id m l
      rw [List.length_cons, Nat.add_right_comm, List.range_succ_eq_map, List.map_cons,
        List.map_map, List.flatMap_cons, List.append_assoc, quad_toBytes, htail, ih, List.map_cons,
        List.cons_append]

/-- The list of a directory of a sector, or of the first sector of a longer one. -/
theorem idList_eq {ids : List Nat} {n : Nat} (hn : ids.length + n = 64)
    (hids : ∀ id ∈ ids, 0 < id ∧ id < 18446744073709551616) :
    idList ((ids.flatMap fun id => toBytes 8 id) ++ List.replicate (8 * n) 0) =
      ids.map UInt64.ofNat := by
  have hquads := quads_eq ids n
  rw [hn] at hquads
  have hall : ∀ x ∈ ids.map UInt64.ofNat, decide (x ≠ 0) = true := by
    intro x hx
    obtain ⟨id, hid, rfl⟩ := List.mem_map.mp hx
    obtain ⟨hpos, hlt⟩ := hids id hid
    rw [decide_eq_true_iff]
    intro hzero
    have hnat := congrArg UInt64.toNat hzero
    rw [UInt64.toNat_ofNat_of_lt' hlt] at hnat
    exact absurd hnat (Nat.ne_of_gt hpos)
  rw [idList, hquads, List.takeWhile_append_of_pos hall]
  cases n with
  | zero => exact List.append_nil _
  | succ n => exact List.append_nil _

/-- A list that begins with zero has no ids. -/
theorem idList_nil {m : List UInt8} (h : m.take 8 = List.replicate 8 0) : idList m = [] := by
  have hquad : quad m 0 = 0 := by
    have hzero := quad_zeros 8 0
    rwa [quad, Nat.mul_zero, List.drop_zero, List.take_replicate, Nat.min_self, ← h] at hzero
  have hrange : List.range 64 = 0 :: (List.range 63).map Nat.succ := List.range_succ_eq_map
  rw [idList, hrange, List.map_cons, hquad]
  rfl

/-! ## The entries of a directory -/

def DirORfile.name : DirORfile → List UInt8
  | .file name .. => name
  | .dir name _ => name

/-- The first entry of that name, and its index. -/
def entryNamed (name : List UInt8) : List DirORfile → Nat → Option (DirORfile × Nat)
  | [], _ => none
  | a :: entries, i =>
    if a.name = name then some (a, i) else entryNamed name entries (i + numinodes a)

/-- A name that the inode holds with its terminator. -/
def GoodName (name : List UInt8) : Prop :=
  0 < name.length ∧ name.length ≤ 31 ∧ ∀ c ∈ name, c ≠ 0

mutual

def WellNamed : DirORfile → Prop
  | .file .. => True
  | .dir _ entries => entries.length ≤ 64 ∧ WellNamedAll entries

def WellNamedAll : List DirORfile → Prop
  | [] => True
  | a :: entries => GoodName a.name ∧ WellNamed a ∧ WellNamedAll entries

end

theorem cString_append_zero {name rest : List UInt8} (h : ∀ c ∈ name, c ≠ 0) :
    cString (name ++ 0 :: rest) = name := by
  induction name with
  | nil => rfl
  | cons c name ih =>
      obtain ⟨hc, hname⟩ := List.forall_mem_cons.mp h
      rw [List.cons_append, cString_cons hc, ih hname]

theorem GoodName.cString_field {name : List UInt8} (h : GoodName name) (chunkaddr1 chunklen : Nat)
    (perms : UInt16) :
    cString (constructInode chunkaddr1 chunklen perms name).name.toList = name := by
  obtain ⟨-, hlen, hzero⟩ := h
  have hlist : (constructInode chunkaddr1 chunklen perms name).name.toList =
      List.ofFn fun i : Fin 32 => name.getD i 0 := Vector.toList_ofFn
  have hfield : (List.ofFn fun i : Fin 32 => name.getD i 0) =
      name ++ 0 :: List.replicate (31 - name.length) 0 := by
    apply List.ext_getElem
    · rw [List.length_ofFn, List.length_append, List.length_cons, List.length_replicate]
      omega
    · intro l hl hl'
      rw [List.getElem_ofFn]
      by_cases hin : l < name.length
      · rw [List.getD_eq_getElem _ _ hin, List.getElem_append_left hin]
      · rw [List.getD_eq_default _ _ (Nat.not_lt.mp hin), List.getElem_append_right (Nat.not_lt.mp hin)]
        simp only [← List.replicate_succ, List.getElem_replicate]
  rw [hlist, hfield, cString_append_zero hzero]

section Built

variable {root a : DirORfile} {entries : List DirORfile} {built : Builder} {first last : Nat}

theorem Stored.tableInode (h : Stored built.inbase built.image first last a i) :
    ∃ st b perms, tableInode built.inbase i = constructInode st b perms a.name := by
  cases a with
  | file name contents int =>
      obtain ⟨st, -, -, -, hinode, -⟩ :
        Record built.inbase built.image first last i _ 0x1 name contents := h
      exact ⟨st, _, _, hinode⟩
  | dir name entries =>
      obtain ⟨⟨st, -, -, -, hinode, -⟩, -⟩ := h
      exact ⟨st, _, _, hinode⟩

/-- The name that a lookup compares with is that of the entry. -/
theorem Carries.nameOf (h : Carries root built)
    (hstored : Stored built.inbase built.image first last a i) (hi : i < numinodes root)
    (hname : GoodName a.name) : nameOf (discOf built) i = a.name := by
  obtain ⟨st, b, perms, hinode⟩ := hstored.tableInode
  have htable := h.tableInode (inTable_of_lt hi)
  rw [hinode] at htable
  have hslot : Inode.ofPacked (slotBytes (discOf built) i) = constructInode st b perms a.name := htable
  rw [Files.nameOf, hslot, hname.cString_field]

/-- The loop over the ids of a built directory. -/
theorem Carries.searchIds {name : List UInt8} (h : Carries root built)
    (hcount : sizeofVnode * numinodes root < 2147483648) (hname : ∀ c ∈ name, c ≠ 0)
    (hnamed : WellNamedAll entries)
    (hstored : StoredAll built.inbase built.image first last entries i)
    (hi : i + numinodesOf entries ≤ numinodes root) (hv : Agrees v)
    (hdisc : v.disc = discOf built) :
    ∃ v', searchIds v name ((indicesFrom entries i).map UInt64.ofNat) =
        .ok ((entryNamed name entries i).map fun r => slotBytes v.disc r.2, v') ∧
      v'.disc = discOf built ∧ Agrees v' := by
  induction entries generalizing i v with
  | nil => exact ⟨v, rfl, hdisc, hv⟩
  | cons a entries ih =>
      obtain ⟨hgood, -, hrest⟩ := hnamed
      obtain ⟨ha, hentries⟩ := hstored
      rw [numinodesOf] at hi
      have hpos := numinodes_pos a
      have hindex : sizeofVnode * i < 2147483648 :=
        Nat.lt_of_le_of_lt (Nat.mul_le_mul_left _ (by omega)) hcount
      have hnat : (UInt64.ofNat i).toNat = i := UInt64.toNat_ofNat_of_lt' (by
        change i < 18446744073709551616
        unfold sizeofVnode at hindex
        omega)
      have hindexable : Indexable (UInt64.ofNat i) := by
        rw [Indexable, hnat]
        exact hindex
      obtain ⟨v₁, hgrab, hdisc₁, hv₁, -⟩ := GrabInode_spec hv hindexable
      rw [hnat] at hgrab
      have hsame : Files.nameOf v.disc i = a.name := by
        rw [hdisc]
        exact h.nameOf ha (by omega) hgood
      have hcompare : strcmp (Inode.ofPacked (slotBytes v.disc i)).name.toList name = 0 ↔
          a.name = name := by
        rw [strcmp_eq_zero, cString_of_no_zero hname, ← hsame]
        rfl
      rw [indicesFrom, List.map_cons, Files.searchIds, entryNamed]
      simp only [hgrab, bind, Except.bind, pure, Except.pure, hcompare]
      rw [hdisc] at hdisc₁
      by_cases heq : a.name = name
      · rw [if_pos heq, if_pos heq]
        exact ⟨v₁, rfl, hdisc₁, hv₁⟩
      · rw [if_neg heq, if_neg heq]
        obtain ⟨v₂, hsearch, hdisc₂, hv₂⟩ :=
          ih hrest hentries (i := i + numinodes a) (by omega) hv₁ hdisc₁
        exact ⟨v₂, by rw [hsearch, hdisc₁, hdisc], hdisc₂, hv₂⟩

/-! ## Looking into a directory or a file -/

theorem stretch_discOf (built : Builder) (a n : Nat) :
    stretch (discOf built) a n = stretch built.image (0x200 * LBA_FS_BASE + a) n :=
  List.map_congr_left fun x _ => by rw [discOf, Nat.add_assoc]

/-- The inode and the first sector of what is not empty. -/
theorem Record.opened {b : Nat} {perms : UInt16} {name bytes : List UInt8}
    (h : Record built.inbase built.image first last i b perms name bytes) (hb : b ≠ 0) :
    512 ≤ ((Files.tableInode built.inbase i).chunklen <<< 9).toNat ∧
      stretch (discOf built) (512 * (Files.tableInode built.inbase i).chunkaddr1.toNat) 512 =
        (padded (0x200 * b) bytes).take 512 := by
  obtain ⟨st, hint, -, -, hinode, hbytes⟩ := h
  have hst : st < 2147483648 := by omega
  have hint' : b < 2147483648 := by omega
  obtain ⟨haddr, hlen⟩ := constructInode_chunk hst hint' perms name
  rw [hinode]
  constructor
  · rw [toNat_shiftLeft_nine, hlen]
    omega
  · have hfirst : ((stretch built.image (0x200 * LBA_FS_BASE + 0x200 * st) (0x200 * b)).drop 0).take
        512 = stretch built.image (0x200 * LBA_FS_BASE + 0x200 * st + 0) 512 :=
      take_drop_stretch (by omega)
    rw [List.drop_zero, hbytes, Nat.add_zero] at hfirst
    rw [hfirst, haddr, stretch_discOf]

theorem Record.empty {perms : UInt16} {name bytes : List UInt8}
    (h : Record built.inbase built.image first last i 0 perms name bytes) :
    (Files.tableInode built.inbase i).chunklen = 0 := by
  obtain ⟨st, -, -, -, hinode, -⟩ := h
  rw [hinode]
  rfl

/-- A directory or a file without a sector stops the lookup. -/
theorem findEntry_stops {curdir : Inode} (name : List UInt8) (h : curdir.chunklen = 0) :
    findEntry v curdir name = .error (.error .filePastbound 0x0) := by
  have hread : InodeRead v.disc curdir 0x0 0x200 = .error (.error .filePastbound 0x0) := by
    rw [InodeRead, h]
    exact if_pos (by decide)
  rw [findEntry, hread]
  rfl

theorem padded_short {bytes : List UInt8} {b n : Nat} (hb : b ≠ 0)
    (hn : bytes.length + n = 512) :
    (padded (0x200 * b) bytes).take 512 = bytes ++ List.replicate n 0 := by
  have hle : bytes.length ≤ 0x200 * b := by omega
  have hrest : min (512 - bytes.length) (0x200 * b - bytes.length) = n := by omega
  rw [padded, List.take_of_length_le hle, List.take_append, List.take_of_length_le (by omega),
    List.take_replicate, hrest]

theorem length_indicesFrom (entries : List DirORfile) (i : Nat) :
    (indicesFrom entries i).length = entries.length := by
  induction entries generalizing i with
  | nil => rfl
  | cons a entries ih => rw [indicesFrom, List.length_cons, ih, List.length_cons]

theorem mem_indicesFrom {j : Nat} (h : j ∈ indicesFrom entries i) :
    i ≤ j ∧ j < i + numinodesOf entries := by
  induction entries generalizing i with
  | nil => cases h
  | cons a entries ih =>
      have hpos := numinodes_pos a
      rw [numinodesOf]
      rw [indicesFrom] at h
      rcases List.mem_cons.mp h with rfl | hrest
      · omega
      · have := ih hrest
        omega

theorem length_flatMap_toBytes (ids : List Nat) :
    (ids.flatMap fun id => toBytes 8 id).length = 8 * ids.length := by
  induction ids with
  | nil => rfl
  | cons id ids ih =>
      rw [List.flatMap_cons, List.length_append, length_toBytes, ih, List.length_cons]
      omega

/-- The ids of a directory are the indices of its entries. -/
theorem Carries.findEntry_dir {dirName name : List UInt8} (h : Carries root built)
    (hcount : sizeofVnode * numinodes root < 2147483648)
    (hstored : Stored built.inbase built.image first last (.dir dirName entries) i)
    (hi : i + numinodesOf entries < numinodes root) (hentries : entries ≠ [])
    (hlen : entries.length ≤ 64) (hdisc : v.disc = discOf built) :
    findEntry v (.ofPacked (slotBytes v.disc i)) name =
      Files.searchIds v name ((indicesFrom entries (i + 1)).map UInt64.ofNat) := by
  obtain ⟨hrecord, -⟩ := hstored
  have hpos : 0 < entries.length := List.length_pos_iff.mpr hentries
  have hb : sectorCount (entries.length * sizeofInode) ≠ 0 :=
    sectorCount_ne_zero (Nat.mul_ne_zero (by omega) (by decide))
  obtain ⟨hsize, hsector⟩ := hrecord.opened hb
  have hslot : Inode.ofPacked (slotBytes v.disc i) = Files.tableInode built.inbase i := by
    rw [hdisc]
    exact h.tableInode (inTable_of_lt (by omega))
  have hids : ∀ id ∈ indicesFrom entries (i + 1), 0 < id ∧ id < 18446744073709551616 := by
    intro id hid
    have := mem_indicesFrom hid
    unfold sizeofVnode at hcount
    omega
  have hquads := length_indicesFrom entries (i + 1)
  have hbytes := length_flatMap_toBytes (indicesFrom entries (i + 1))
  rw [hslot, findEntry_eq name hsize, listedIds, hdisc, hsector,
    padded_short (n := 8 * (64 - entries.length)) hb (by omega), idList_eq (by omega) hids]

/-- A file that begins with a zero quad looks like a directory without entries. -/
theorem Carries.findEntry_file {fileName name contents : List UInt8}
    {int : contents.length < 2147483648} (h : Carries root built)
    (hstored : Stored built.inbase built.image first last (.file fileName contents int) i)
    (hi : i < numinodes root) (hcontents : contents ≠ []) (hzero : ∀ c ∈ contents.take 8, c = 0)
    (hdisc : v.disc = discOf built) :
    findEntry v (.ofPacked (slotBytes v.disc i)) name = .ok (none, v) := by
  have hrecord : Record built.inbase built.image first last i (sectorCount contents.length) 0x1
    fileName contents := hstored
  have hpos : 0 < contents.length := List.length_pos_iff.mpr hcontents
  have hb : sectorCount contents.length ≠ 0 := sectorCount_ne_zero (by omega)
  obtain ⟨hsize, hsector⟩ := hrecord.opened hb
  have hslot : Inode.ofPacked (slotBytes v.disc i) = Files.tableInode built.inbase i := by
    rw [hdisc]
    exact h.tableInode (inTable_of_lt hi)
  have hquad : ((padded (0x200 * sectorCount contents.length) contents).take 512).take 8 =
      List.replicate 8 0 := by
    rw [List.eq_replicate_iff, List.take_take]
    constructor
    · rw [List.length_take, padded_length]
      omega
    · intro c hc
      rw [padded, List.take_append, List.take_take, List.mem_append] at hc
      rcases hc with hc | hc
      · rw [Nat.min_eq_left (by omega)] at hc
        exact hzero c hc
      · exact (List.mem_replicate.mp (List.mem_of_mem_take hc)).2
  rw [hslot, findEntry_eq name hsize, listedIds, hdisc, hsector, idList_nil hquad]
  rfl

end Built

end UnnamedOS.Files
