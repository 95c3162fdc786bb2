import UnnamedOS.Files.Lookup

/-!
# A new file is found

`mkFile` writes the inode, the data and the id in the list of the directory, in this order. What it
writes over the list is one quad, and the lookup afterwards goes through the cache.
-/

namespace UnnamedOS.Files

open UnnamedOS.Lib

/-- Quad `l` of the sectors from `s` on. -/
def quadAt (disc : Disc) (s l : Nat) : UInt64 := .ofNat (ofBytes (stretch disc (512 * s + 8 * l) 8))

/-- The list of a directory. It ends at the first zero, or with the chunk. -/
def dirIds (disc : Disc) (a : Inode) : List UInt64 :=
  ((List.range (64 * a.chunklen.toNat)).map (quadAt disc a.chunkaddr1.toNat)).takeWhile (· ≠ 0)

/-- All that an inode holds. -/
def contentOf (disc : Disc) (n : Inode) : Except Halt (List UInt8) :=
  InodeRead disc n 0 (n.chunklen <<< 9)

def InChunk (a : Inode) (b : Nat) : Prop :=
  Within (512 * a.chunkaddr1.toNat) (512 * a.chunklen.toNat) b

/-! ## Lists that end at a zero -/

theorem takeWhile_map_range {α : Type} {f : Nat → α} {p : α → Bool} {n k : Nat} (hk : k ≤ n)
    (hbefore : ∀ l < k, p (f l) = true) (hstop : k < n → p (f k) = false) :
    ((List.range n).map f).takeWhile p = (List.range k).map f := by
  obtain ⟨m, rfl⟩ : ∃ m, n = k + m := ⟨n - k, by omega⟩
  have hall : ∀ a ∈ (List.range k).map f, p a = true := by
    intro a ha
    obtain ⟨l, hl, rfl⟩ := List.mem_map.mp ha
    exact hbefore l (List.mem_range.mp hl)
  rw [List.range_add, List.map_append, List.takeWhile_append_of_pos hall]
  cases m with
  | zero => rw [List.range_zero, List.map_nil, List.map_nil, List.takeWhile_nil, List.append_nil]
  | succ m =>
      rw [List.range_succ_eq_map, List.map_cons, List.map_cons, Nat.add_zero,
        List.takeWhile_cons_of_neg (by rw [hstop (by omega)]; decide), List.append_nil]

/-- The list of `quads` quads from sector `s` on has `k` ids. -/
structure ListEnds (disc : Disc) (s quads k : Nat) : Prop where
  bound : k ≤ quads
  ids : ∀ l < k, quadAt disc s l ≠ 0
  stop : k < quads → quadAt disc s k = 0

theorem exists_listEnds (disc : Disc) (s quads : Nat) : ∃ k, ListEnds disc s quads k := by
  induction quads with
  | zero =>
      exact ⟨0, Nat.le_refl 0, fun l hl => absurd hl (Nat.not_lt_zero l),
        fun h => absurd h (Nat.lt_irrefl 0)⟩
  | succ quads ih =>
      obtain ⟨k, hbound, hids, hstop⟩ := ih
      by_cases hk : k < quads
      · exact ⟨k, by omega, hids, fun _ => hstop hk⟩
      · obtain rfl : k = quads := by omega
        by_cases hzero : quadAt disc s k = 0
        · exact ⟨k, by omega, hids, fun _ => hzero⟩
        · refine ⟨k + 1, Nat.le_refl _, fun l hl => ?_, fun h => absurd h (Nat.lt_irrefl _)⟩
          by_cases hlast : l = k
          · rw [hlast]
            exact hzero
          · exact hids l (by omega)

namespace ListEnds

variable {disc : Disc} {s quads k : Nat} {a : Inode}

theorem takeWhile (h : ListEnds disc s quads k) :
    ((List.range quads).map (quadAt disc s)).takeWhile (· ≠ 0) =
      (List.range k).map (quadAt disc s) := by
  apply takeWhile_map_range h.bound
  · intro l hl
    simpa using h.ids l hl
  · intro hk
    simpa using h.stop hk

theorem dirIds_eq (h : ListEnds disc a.chunkaddr1.toNat (64 * a.chunklen.toNat) k) :
    dirIds disc a = (List.range k).map (quadAt disc a.chunkaddr1.toNat) := h.takeWhile

theorem quad_stretch {n l : Nat} (h : 8 * l + 8 ≤ n) :
    quad (stretch disc (512 * s) n) l = quadAt disc s l := by
  rw [quad, take_drop_stretch h, quadAt]

/-- What the lookup sees of a list that ends in the first sector, or with it. -/
theorem listedIds_eq (h : ListEnds disc a.chunkaddr1.toNat (64 * a.chunklen.toNat) k)
    (hlen : 1 ≤ a.chunklen.toNat) (hk : k ≤ 64) : listedIds disc a = dirIds disc a := by
  have hfirst : ListEnds disc a.chunkaddr1.toNat 64 k := ⟨hk, h.ids, fun hlt => h.stop (by omega)⟩
  have hquads : (List.range 64).map (quad (stretch disc (512 * a.chunkaddr1.toNat) 512)) =
      (List.range 64).map (quadAt disc a.chunkaddr1.toNat) := by
    apply List.map_congr_left
    intro l hl
    exact quad_stretch (by have := List.mem_range.mp hl; omega)
  rw [listedIds, idList, hquads, hfirst.takeWhile, h.dirIds_eq]

theorem listEnd_eq (h : ListEnds disc s quads k) (hk : k < quads) {n : Nat} (hn : n = 8 * quads) :
    listEnd (stretch disc (512 * s) n) quads = some k := by
  have hquad : ∀ l < quads, quad (stretch disc (512 * s) n) l = quadAt disc s l :=
    fun l hl => quad_stretch (by omega)
  rw [listEnd, List.find?_range_eq_some]
  refine ⟨?_, List.mem_range.mpr hk, fun l hl => ?_⟩
  · rw [hquad k hk, h.stop hk]
    rfl
  · rw [hquad l (by omega)]
    simpa using h.ids l hl

end ListEnds

/-- `addtoD` puts the id where the list ends. -/
theorem addtoD_eq {v : Volume} {dir : Vnode} {toadd : UInt64} {k : Nat} (hdisk : dir.disk = 0)
    (hlen : dir.a.chunklen.toNat ≤ 127)
    (h : ListEnds v.disc dir.a.chunkaddr1.toNat (64 * dir.a.chunklen.toNat) k)
    (hk : k < 64 * dir.a.chunklen.toNat) :
    addtoD v dir toadd = .ok {
      disc := overwrite v.disc (512 * dir.a.chunkaddr1.toNat + 8 * k) (toBytes 8 toadd.toNat)
      cache := v.cache.kINb_invalidate dir.id } := by
  have hbytes : (dir.a.chunklen <<< 9).toUInt16.toNat = 512 * dir.a.chunklen.toNat := by
    rw [UInt64.toNat_toUInt16, toNat_shiftLeft_nine]
    omega
  have hdvd : 512 ∣ (dir.a.chunklen <<< 9).toUInt16.toNat := ⟨_, hbytes⟩
  have hquads : (dir.a.chunklen <<< 9).toUInt16.toNat / 8 = 64 * dir.a.chunklen.toNat := by omega
  have hend := h.listEnd_eq hk (n := (dir.a.chunklen <<< 9).toUInt16.toNat) (by omega)
  have hroom : 8 * k + (toBytes 8 toadd.toNat).length ≤ (dir.a.chunklen <<< 9).toUInt16.toNat := by
    rw [length_toBytes]
    omega
  simp only [addtoD, hdisk, read_eq hdvd, hquads, hend, write_splice hdvd hroom, bind, Except.bind,
    pure, Except.pure]

/-! ## The disc afterwards -/

/-- The slot and the data. -/
def fileDisc (disc : Disc) (a : Inode) (id : UInt64) (data : List UInt8) : Disc :=
  overwrite (overwrite disc (sizeofInode * id.toNat) a.packed) (512 * a.chunkaddr1.toNat) data

/-- The quad of the list at `last` too. -/
def newDisc (disc : Disc) (a : Inode) (id : UInt64) (data : List UInt8) (last : Nat) : Disc :=
  overwrite (fileDisc disc a id data) last (toBytes 8 id.toNat)

/-- The three of them are apart: the slot is in the table, the others are behind it. -/
structure Apart (table : Nat) (dir a : Inode) (id : UInt64) (data : List UInt8) (k : Nat) :
    Prop where
  slot : id.toNat < table
  dirBehind : sizeofInode * table ≤ 512 * dir.chunkaddr1.toNat
  dataBehind : sizeofInode * table ≤ 512 * a.chunkaddr1.toNat
  dirApart : ∀ b, Within (512 * a.chunkaddr1.toNat) data.length b → ¬ InChunk dir b
  last : k < 64 * dir.chunklen.toNat

namespace Apart

variable {table k : Nat} {dir a : Inode} {id : UInt64} {data : List UInt8} {disc : Disc}

theorem last_within (h : Apart table dir a id data k) {b : Nat}
    (hb : Within (512 * dir.chunkaddr1.toNat + 8 * k) 8 b) : InChunk dir b := by
  obtain ⟨hge, hlt⟩ := hb
  have := h.last
  exact ⟨by omega, by omega⟩

/-- Nothing else changes. -/
theorem newDisc_elsewhere (h : Apart table dir a id data k) {b : Nat}
    (hslot : ¬ Within (sizeofInode * id.toNat) sizeofInode b)
    (hdata : ¬ Within (512 * a.chunkaddr1.toNat) data.length b) (hdir : ¬ InChunk dir b) :
    newDisc disc a id data (512 * dir.chunkaddr1.toNat + 8 * k) b = disc b := by
  have hlast : ¬ Within (512 * dir.chunkaddr1.toNat + 8 * k) 8 b := fun hb => hdir (h.last_within hb)
  rw [newDisc, overwrite_outside (by rw [length_toBytes]) hlast, fileDisc,
    overwrite_outside (Nat.le_refl _) hdata, overwrite_outside (by rw [length_packed]) hslot]

theorem slots_before (h : Apart table dir a id data k) {i b : Nat} (hi : i < table)
    (hb : Within (sizeofInode * i) sizeofInode b) :
    b < 512 * dir.chunkaddr1.toNat ∧ b < 512 * a.chunkaddr1.toNat := by
  obtain ⟨hge, hlt⟩ := hb
  have hdir := h.dirBehind
  have hdata := h.dataBehind
  unfold sizeofInode at *
  omega

theorem newDisc_slot (h : Apart table dir a id data k) :
    slotBytes (newDisc disc a id data (512 * dir.chunkaddr1.toNat + 8 * k)) id.toNat = a.packed := by
  have hsame : slotBytes (newDisc disc a id data (512 * dir.chunkaddr1.toNat + 8 * k)) id.toNat =
      slotBytes (overwrite disc (sizeofInode * id.toNat) a.packed) id.toNat := by
    apply slotBytes_congr
    intro b hb
    obtain ⟨hdir, hdata⟩ := h.slots_before h.slot hb
    rw [newDisc, overwrite_of_lt (by omega), fileDisc, overwrite_of_lt hdata]
  rw [hsame, slotBytes, ← length_packed a, stretch_overwrite]

theorem newDisc_slots (h : Apart table dir a id data k) {i : Nat} (hi : i < table)
    (hne : i ≠ id.toNat) :
    slotBytes (newDisc disc a id data (512 * dir.chunkaddr1.toNat + 8 * k)) i =
      slotBytes disc i := by
  apply slotBytes_congr
  intro b hb
  obtain ⟨hdir, hdata⟩ := h.slots_before hi hb
  apply h.newDisc_elsewhere
  · intro hslot
    obtain ⟨hge, hlt⟩ := hb
    obtain ⟨hge', hlt'⟩ := hslot
    unfold sizeofInode at *
    omega
  · exact fun hin => by have := hin.1; omega
  · exact fun hin => by have := hin.1; omega

theorem newDisc_data (h : Apart table dir a id data k) :
    stretch (newDisc disc a id data (512 * dir.chunkaddr1.toNat + 8 * k))
      (512 * a.chunkaddr1.toNat) data.length = data := by
  have hsame : stretch (newDisc disc a id data (512 * dir.chunkaddr1.toNat + 8 * k))
      (512 * a.chunkaddr1.toNat) data.length =
      stretch (fileDisc disc a id data) (512 * a.chunkaddr1.toNat) data.length := by
    apply stretch_congr
    intro i hi
    have hdir := h.dirApart _ ⟨Nat.le_add_right _ i, by omega⟩
    exact overwrite_outside (by rw [length_toBytes]) fun hb => hdir (h.last_within hb)
  rw [hsame, fileDisc, stretch_overwrite]

theorem fileDisc_quads (h : Apart table dir a id data k) {l : Nat}
    (hl : l < 64 * dir.chunklen.toNat) :
    quadAt (fileDisc disc a id data) dir.chunkaddr1.toNat l = quadAt disc dir.chunkaddr1.toNat l := by
  have hbytes : stretch (fileDisc disc a id data) (512 * dir.chunkaddr1.toNat + 8 * l) 8 =
      stretch disc (512 * dir.chunkaddr1.toNat + 8 * l) 8 := by
    apply stretch_congr
    intro i hi
    have hin : InChunk dir (512 * dir.chunkaddr1.toNat + 8 * l + i) := ⟨by omega, by omega⟩
    have hslot : ¬ Within (sizeofInode * id.toNat) sizeofInode
        (512 * dir.chunkaddr1.toNat + 8 * l + i) := by
      intro hb
      have := (h.slots_before h.slot hb).1
      omega
    rw [fileDisc, overwrite_outside (Nat.le_refl _) (fun hb => h.dirApart _ hb hin),
      overwrite_outside (by rw [length_packed]) hslot]
  rw [quadAt, hbytes, quadAt]

theorem fileDisc_listEnds (h : Apart table dir a id data k)
    (hold : ListEnds disc dir.chunkaddr1.toNat (64 * dir.chunklen.toNat) k) :
    ListEnds (fileDisc disc a id data) dir.chunkaddr1.toNat (64 * dir.chunklen.toNat) k := by
  refine ⟨hold.bound, fun l hl => ?_, fun hlt => ?_⟩
  · rw [h.fileDisc_quads (Nat.lt_of_lt_of_le hl hold.bound)]
    exact hold.ids l hl
  · rw [h.fileDisc_quads hlt]
    exact hold.stop hlt

theorem newDisc_quads (h : Apart table dir a id data k) {l : Nat}
    (hl : l < 64 * dir.chunklen.toNat) (hne : l ≠ k) :
    quadAt (newDisc disc a id data (512 * dir.chunkaddr1.toNat + 8 * k)) dir.chunkaddr1.toNat l =
      quadAt disc dir.chunkaddr1.toNat l := by
  have hbytes : stretch (newDisc disc a id data (512 * dir.chunkaddr1.toNat + 8 * k))
      (512 * dir.chunkaddr1.toNat + 8 * l) 8 =
      stretch (fileDisc disc a id data) (512 * dir.chunkaddr1.toNat + 8 * l) 8 := by
    apply stretch_congr
    intro i hi
    apply overwrite_outside (Nat.le_of_eq (length_toBytes 8 id.toNat))
    exact fun hb => by have := hb.1; have := hb.2; omega
  rw [quadAt, hbytes]
  exact h.fileDisc_quads hl

theorem newDisc_last : quadAt (newDisc disc a id data (512 * dir.chunkaddr1.toNat + 8 * k))
    dir.chunkaddr1.toNat k = id := by
  have hbytes : stretch (newDisc disc a id data (512 * dir.chunkaddr1.toNat + 8 * k))
      (512 * dir.chunkaddr1.toNat + 8 * k) (toBytes 8 id.toNat).length = toBytes 8 id.toNat :=
    stretch_overwrite _ _ _
  rw [length_toBytes] at hbytes
  rw [quadAt, hbytes, ofNat_ofBytes_toBytes]

/-- The list has become longer by one, unless something stands behind its end. -/
theorem newDisc_listEnds (h : Apart table dir a id data k) (hid : id ≠ 0)
    (hold : ListEnds disc dir.chunkaddr1.toNat (64 * dir.chunklen.toNat) k)
    (hzero : k + 1 < 64 * dir.chunklen.toNat → quadAt disc dir.chunkaddr1.toNat (k + 1) = 0) :
    ListEnds (newDisc disc a id data (512 * dir.chunkaddr1.toNat + 8 * k)) dir.chunkaddr1.toNat
      (64 * dir.chunklen.toNat) (k + 1) := by
  have hlast := h.last
  refine ⟨hlast, fun l hl => ?_, fun hlt => ?_⟩
  · by_cases heq : l = k
    · rw [heq, newDisc_last]
      exact hid
    · rw [h.newDisc_quads (by omega) heq]
      exact hold.ids l (by omega)
  · rw [h.newDisc_quads hlt (by omega)]
    exact hzero hlt

theorem newDisc_dirIds (h : Apart table dir a id data k) (hid : id ≠ 0)
    (hold : ListEnds disc dir.chunkaddr1.toNat (64 * dir.chunklen.toNat) k)
    (hzero : k + 1 < 64 * dir.chunklen.toNat → quadAt disc dir.chunkaddr1.toNat (k + 1) = 0) :
    dirIds (newDisc disc a id data (512 * dir.chunkaddr1.toNat + 8 * k)) dir =
      dirIds disc dir ++ [id] := by
  have hlast := h.last
  have hquads : (List.range k).map (quadAt (newDisc disc a id data
      (512 * dir.chunkaddr1.toNat + 8 * k)) dir.chunkaddr1.toNat) =
      (List.range k).map (quadAt disc dir.chunkaddr1.toNat) := by
    apply List.map_congr_left
    intro l hl
    have := List.mem_range.mp hl
    exact h.newDisc_quads (by omega) (by omega)
  rw [(h.newDisc_listEnds hid hold hzero).dirIds_eq, hold.dirIds_eq, List.range_succ,
    List.map_append, hquads, List.map_singleton, newDisc_last]

end Apart

/-! ## Creating a file -/

/-- A name that fits an inode and a path. -/
structure IsName (name : List UInt8) : Prop where
  nonempty : name ≠ []
  fits : name.length ≤ 31
  chars : ∀ c ∈ name, c ≠ 0 ∧ c ≠ 0x2f

/-- A disc with `table` slots for inodes, and a directory on it. The cache has read only slots, and
the chunks are behind the table, those of the entries apart from the one of the directory. -/
structure Image (v : Volume) (table : Nat) (dir : Inode) : Prop where
  agrees : Agrees v
  held : ∀ i, v.cache.Holds i → i < table
  behind : sizeofInode * table ≤ 512 * dir.chunkaddr1.toNat
  entries : ∀ id ∈ dirIds v.disc dir, id.toNat < table ∧
    ∀ b, InChunk (tableInode v.disc id.toNat) b → sizeofInode * table ≤ b ∧ ¬ InChunk dir b

/-- A slot that has never been read, and a region in which nothing is. Slot 0 is the root. -/
structure Unused (v : Volume) (table : Nat) (dir : Inode) (start id : UInt64) (length : Nat) :
    Prop where
  slot : id.toNat < table
  notRoot : id ≠ 0
  never : ¬ v.cache.Holds id.toNat
  notListed : id ∉ dirIds v.disc dir
  behind : sizeofInode * table ≤ 512 * start.toNat
  region : ∀ b, Within (512 * start.toNat) length b → ¬ InChunk dir b ∧
    ∀ i ∈ dirIds v.disc dir, ¬ InChunk (tableInode v.disc i.toNat) b

/-- A call of `mkFile` that puts a new name into a directory with room in its first sector. -/
structure Creates (v : Volume) (table : Nat) (dir : Vnode) (start id : UInt64) (data : List UInt8)
    (length : UInt16) (name : List UInt8) : Prop where
  image : Image v table dir.a
  unused : Unused v table dir.a start id length.toNat
  disk : dir.disk = 0
  chunk : 1 ≤ dir.a.chunklen.toNat ∧ dir.a.chunklen.toNat ≤ 127
  room : (dirIds v.disc dir.a).length < 64
  isName : IsName name
  fresh : ∀ i ∈ dirIds v.disc dir.a, nameOf v.disc i.toNat ≠ name
  data : data.length = length.toNat
  sectors : 512 ∣ length.toNat ∧ 0 < length.toNat

theorem isName_singleton {c : UInt8} (h : c ≠ 0 ∧ c ≠ 0x2f) : IsName [c] where
  nonempty := List.cons_ne_nil c []
  fits := Nat.le_add_left 1 30
  chars := fun _ hd => List.mem_singleton.mp hd ▸ h

/-- What a path resolves to. -/
def Resolves (v : Volume) (dir : Inode) (filename : Filename) (r : Option (List UInt8)) : Prop :=
  ∃ w, getFileFromFilename v dir filename = .ok (r, w)

theorem nameField_cString {name : List UInt8} (h : IsName name) :
    cString (nameField name).toList = name := by
  have hlen := h.fits
  have hfield : (nameField name).toList = name ++ List.replicate (32 - name.length) 0 := by
    rw [nameField, Vector.toList_ofFn]
    apply List.ext_getElem
    · rw [List.length_ofFn, List.length_append, List.length_replicate]
      omega
    · intro i hi hi'
      rw [List.getElem_ofFn]
      by_cases hin : i < name.length
      · rw [List.getElem_append_left hin, List.getD_eq_getElem _ _ hin]
      · rw [List.getElem_append_right (by omega), List.getElem_replicate,
          List.getD_eq_default _ _ (Nat.not_lt.mp hin)]
  have hchars : ∀ c ∈ name, (decide (c ≠ 0)) = true :=
    fun c hc => by simpa using (h.chars c hc).1
  obtain ⟨m, hm⟩ : ∃ m, 32 - name.length = m + 1 := ⟨31 - name.length, by omega⟩
  rw [hfield, cString, List.takeWhile_append_of_pos hchars, hm, List.replicate_succ,
    List.takeWhile_cons_of_neg (by decide), List.append_nil]

/-- The content depends on the chunk only. -/
theorem contentOf_congr {disc disc' : Disc} {n : Inode} (h : ∀ b, InChunk n b → disc' b = disc b) :
    contentOf disc' n = contentOf disc n := by
  have hzero : ((0 : UInt64) >>> 9) = 0 := rfl
  have hbytes : stretch disc' (512 * n.chunkaddr1.toNat) (n.chunklen <<< 9).toUInt16.toNat =
      stretch disc (512 * n.chunkaddr1.toNat) (n.chunklen <<< 9).toUInt16.toNat := by
    apply stretch_congr
    intro i hi
    rw [UInt64.toNat_toUInt16, toNat_shiftLeft_nine] at hi
    exact h _ ⟨by omega, by omega⟩
  simp only [contentOf, InodeRead, read, hzero, UInt64.add_zero, hbytes]

theorem contentOf_eq {disc : Disc} {n : Inode} (h : n.chunklen.toNat ≤ 127) :
    contentOf disc n =
      .ok (stretch disc (512 * n.chunkaddr1.toNat) (512 * n.chunklen.toNat)) := by
  have hlen : (n.chunklen <<< 9).toNat = 512 * n.chunklen.toNat := by
    rw [toNat_shiftLeft_nine]
    omega
  have h0 : (0 : UInt64).toNat = 0 := rfl
  have haddr := n.chunkaddr1.toNat_lt
  have hread : InodeRead disc n 0 (n.chunklen <<< 9) = .ok (stretch disc
      (512 * n.chunkaddr1.toNat + (0 : UInt64).toNat) (n.chunklen <<< 9).toNat) :=
    InodeRead_eq (by rw [h0]; omega) (by rw [h0]; exact Nat.dvd_zero _) ⟨_, hlen⟩
      (by rw [hlen]; omega) (by rw [h0]; omega)
  rw [contentOf, hread, hlen, h0, Nat.add_zero]

theorem firstNamed_congr {disc disc' : Disc} {name : List UInt8} {ids : List UInt64}
    (h : ∀ i ∈ ids, nameOf disc' i.toNat = nameOf disc i.toNat) :
    firstNamed disc' name ids = firstNamed disc name ids := by
  induction ids with
  | nil => rw [firstNamed, firstNamed, List.find?_nil, List.find?_nil]
  | cons i ids ih =>
      obtain ⟨hi, hids⟩ := List.forall_mem_cons.mp h
      by_cases hname : nameOf disc i.toNat = cString name
      · have hname' : nameOf disc' i.toNat = cString name := hi.trans hname
        rw [firstNamed_cons_pos ids hname, firstNamed_cons_pos ids hname']
      · have hname' : nameOf disc' i.toNat ≠ cString name := by
          rw [hi]
          exact hname
        rw [firstNamed_cons_neg ids hname, firstNamed_cons_neg ids hname', ih hids]

/-- A lookup goes through the ids of the list, as far as they fit the first sector. -/
theorem resolves_component {v : Volume} (h : Agrees v) {dir : Inode} {k : Nat}
    (hk : ListEnds v.disc dir.chunkaddr1.toNat (64 * dir.chunklen.toNat) k) (hroom : k ≤ 64)
    (hchunk : 1 ≤ dir.chunklen.toNat ∧ dir.chunklen.toNat ≤ 127)
    (hids : ∀ id ∈ dirIds v.disc dir, Indexable id) {filename : Filename} {name : List UInt8}
    (hspells : Spells filename (0x2f :: name)) (hname : IsName name) :
    Resolves v dir filename ((firstNamed v.disc name (dirIds v.disc dir)).map
      fun id => slotBytes v.disc id.toNat) := by
  have hlen : 512 ≤ (dir.chunklen <<< 9).toNat := by
    rw [toNat_shiftLeft_nine]
    omega
  have hlisted := hk.listedIds_eq hchunk.1 hroom
  have hfits : name.length + 1 < intRange := by
    have := hname.fits
    rw [intRange]
    omega
  obtain ⟨w, hfind, -⟩ := findEntry_spec h name hlen (by rw [hlisted]; exact hids)
  refine ⟨w, ?_⟩
  rw [getFileFromFilename_component hspells hname.nonempty hfits fun c hc => (hname.chars c hc).2,
    hfind, hlisted]

section Creates

variable {v : Volume} {table k : Nat} {dir : Vnode} {start id : UInt64} {data name : List UInt8}
  {length perms : UInt16}

theorem sectorsOf_toNat (h : 512 ∣ length.toNat) : 512 * (sectorsOf length).toNat = length.toNat := by
  have hmask : length &&& 0x1ff = 0 := and_sector_eq_zero h
  have hshift : (length >>> 9).toNat = length.toNat / 512 := by
    rw [UInt16.toNat_shiftRight, Nat.shiftRight_eq_div_pow]
    rfl
  rw [sectorsOf, if_pos hmask, UInt64.add_zero, UInt16.toNat_toUInt64, hshift]
  omega

theorem Creates.apart (perms : UInt16) (h : Creates v table dir start id data length name)
    (hk : ListEnds v.disc dir.a.chunkaddr1.toNat (64 * dir.a.chunklen.toNat) k) :
    Apart table dir.a (newInode start length name perms) id data k where
  slot := h.unused.slot
  dirBehind := h.image.behind
  dataBehind := h.unused.behind
  dirApart := fun b hb => (h.unused.region b (h.data ▸ hb)).1
  last := by
    have hroom := h.room
    have hchunk := h.chunk
    rw [hk.dirIds_eq, List.length_map, List.length_range] at hroom
    omega

/-- The volume afterwards. -/
def newVolume (v : Volume) (dir : Vnode) (a : Inode) (id : UInt64) (data : List UInt8) (k : Nat) :
    Volume where
  disc := newDisc v.disc a id data (512 * dir.a.chunkaddr1.toNat + 8 * k)
  cache := v.cache.kINb_invalidate dir.id

theorem Creates.mkFileAt_eq (h : Creates v table dir start id data length name)
    (hid : id.toNat < 35791395)
    (hk : ListEnds v.disc dir.a.chunkaddr1.toNat (64 * dir.a.chunklen.toNat) k) :
    mkFileAt start id v data length 0 name perms [dir] =
      .ok ({ a := newInode start length name perms, id, disk := 0 },
        newVolume v dir (newInode start length name perms) id data k) := by
  have hapart := h.apart perms hk
  have htake : data.take length.toNat = data := by rw [← h.data, List.take_length]
  have hadd : addtoD { v with disc := fileDisc v.disc (newInode start length name perms) id data }
      dir id = .ok (newVolume v dir (newInode start length name perms) id data k) :=
    addtoD_eq h.disk h.chunk.2 (hapart.fileDisc_listEnds hk) hapart.last
  rw [Files.mkFileAt_eq hid h.sectors.1, htake]
  show ([dir].foldlM (fun v dir => addtoD v dir id)
    { v with disc := fileDisc v.disc (newInode start length name perms) id data } >>= _) = _
  rw [List.foldlM_cons, hadd]
  rfl

theorem Creates.agrees (perms : UInt16) (h : Creates v table dir start id data length name)
    (hk : ListEnds v.disc dir.a.chunkaddr1.toNat (64 * dir.a.chunklen.toNat) k) :
    Agrees (newVolume v dir (newInode start length name perms) id data k) := by
  obtain ⟨hclean, hgone, hdiff⟩ := Cache.kINb_invalidate_spec h.image.agrees.clean dir.id
  refine ⟨hclean, fun i hi => ?_⟩
  have hne : i ≠ dir.id.toNat := by
    rintro rfl
    exact hgone hi
  have hheld := hdiff.holds i hne hi
  have hnew : i ≠ id.toNat := by
    rintro rfl
    exact h.unused.never hheld
  have hslot : slotBytes (newVolume v dir (newInode start length name perms) id data k).disc i =
      slotBytes v.disc i := (h.apart perms hk).newDisc_slots (h.image.held i hheld) hnew
  rw [hslot, ← h.image.agrees.same i hheld]
  exact hdiff.same i hne

/-- A zero behind the zero that ends the list. -/
def ZeroBehind (disc : Disc) (a : Inode) : Prop :=
  (dirIds disc a).length + 1 < 64 * a.chunklen.toNat →
    quadAt disc a.chunkaddr1.toNat ((dirIds disc a).length + 1) = 0

theorem Creates.listEnds (h : Creates v table dir start id data length name)
    (hzero : ZeroBehind v.disc dir.a) :
    ∃ k, ListEnds v.disc dir.a.chunkaddr1.toNat (64 * dir.a.chunklen.toNat) k ∧ k < 64 ∧
      (k + 1 < 64 * dir.a.chunklen.toNat → quadAt v.disc dir.a.chunkaddr1.toNat (k + 1) = 0) := by
  obtain ⟨k, hk⟩ := exists_listEnds v.disc dir.a.chunkaddr1.toNat (64 * dir.a.chunklen.toNat)
  have hlen : (dirIds v.disc dir.a).length = k := by
    rw [hk.dirIds_eq, List.length_map, List.length_range]
  have hroom := h.room
  rw [ZeroBehind, hlen] at hzero
  exact ⟨k, hk, by omega, hzero⟩

section Afterwards

variable (perms) (h : Creates v table dir start id data length name)
  (hk : ListEnds v.disc dir.a.chunkaddr1.toNat (64 * dir.a.chunklen.toNat) k)

include h hk

theorem Creates.slot_new : slotBytes (newVolume v dir (newInode start length name perms) id data
    k).disc id.toNat = (newInode start length name perms).packed :=
  (h.apart perms hk).newDisc_slot

theorem Creates.slot_old {i : UInt64} (hi : i ∈ dirIds v.disc dir.a) :
    slotBytes (newVolume v dir (newInode start length name perms) id data k).disc i.toNat =
      slotBytes v.disc i.toNat := by
  have hne : i.toNat ≠ id.toNat := by
    intro heq
    exact h.unused.notListed (UInt64.toNat_inj.mp heq ▸ hi)
  exact (h.apart perms hk).newDisc_slots (h.image.entries i hi).1 hne

theorem Creates.nameOf_new :
    nameOf (newVolume v dir (newInode start length name perms) id data k).disc id.toNat = name := by
  rw [nameOf, h.slot_new perms hk, Inode.ofPacked_packed]
  exact nameField_cString h.isName

/-- The ids of old come first, and none of them has the new name. -/
theorem Creates.firstNamed_new :
    firstNamed (newVolume v dir (newInode start length name perms) id data k).disc name
      (dirIds v.disc dir.a ++ [id]) = some id := by
  have hname : cString name = name := cString_of_no_zero fun c hc => (h.isName.chars c hc).1
  have hold : firstNamed (newVolume v dir (newInode start length name perms) id data k).disc name
      (dirIds v.disc dir.a) = none := by
    rw [firstNamed, List.find?_eq_none]
    intro i hi
    have hother : nameOf (newVolume v dir (newInode start length name perms) id data k).disc
        i.toNat ≠ name := by
      rw [nameOf, h.slot_old perms hk hi]
      exact h.fresh i hi
    simpa [hname] using hother
  have hnew := h.nameOf_new perms hk
  rw [firstNamed] at hold ⊢
  rw [List.find?_append, hold, Option.none_or]
  exact List.find?_cons_of_pos (by rw [hnew, hname]; exact decide_eq_true rfl)

/-- Another name is found where it was. -/
theorem Creates.firstNamed_old {other : List UInt8} (hother : IsName other) (hne : other ≠ name) :
    firstNamed (newVolume v dir (newInode start length name perms) id data k).disc other
      (dirIds v.disc dir.a ++ [id]) = firstNamed v.disc other (dirIds v.disc dir.a) := by
  have hname : cString other = other := cString_of_no_zero fun c hc => (hother.chars c hc).1
  have hnew : firstNamed (newVolume v dir (newInode start length name perms) id data k).disc other
      [id] = none := by
    rw [firstNamed, List.find?_eq_none]
    intro i hi
    obtain rfl := List.mem_singleton.mp hi
    rw [h.nameOf_new perms hk, hname]
    simpa using hne.symm
  have hold : firstNamed (newVolume v dir (newInode start length name perms) id data k).disc other
      (dirIds v.disc dir.a) = firstNamed v.disc other (dirIds v.disc dir.a) := by
    apply firstNamed_congr
    intro i hi
    rw [nameOf, h.slot_old perms hk hi, nameOf]
  rw [firstNamed] at hnew
  rw [← hold, firstNamed, firstNamed, List.find?_append, hnew, Option.or_none]

/-- The content of an entry is where `mkFile` does not write. -/
theorem Creates.content_old {i : UInt64} (hi : i ∈ dirIds v.disc dir.a) :
    contentOf (newVolume v dir (newInode start length name perms) id data k).disc
      (tableInode v.disc i.toNat) = contentOf v.disc (tableInode v.disc i.toNat) := by
  apply contentOf_congr
  intro b hb
  obtain ⟨hbehind, hdir⟩ := (h.image.entries i hi).2 b hb
  apply (h.apart perms hk).newDisc_elsewhere
  · intro hslot
    have hend := hslot.2
    have hin := h.unused.slot
    unfold sizeofInode at *
    omega
  · intro hdata
    exact (h.unused.region b (h.data ▸ hdata)).2 i hi hb
  · exact hdir

theorem Creates.content_new :
    contentOf (newVolume v dir (newInode start length name perms) id data k).disc
      (newInode start length name perms) = .ok data := by
  have hlen : 512 * (newInode start length name perms).chunklen.toNat = data.length :=
    (sectorsOf_toNat h.sectors.1).trans h.data.symm
  have hword := length.toNat_lt
  have hdata := h.data
  rw [contentOf_eq (by omega), hlen]
  exact congrArg Except.ok (h.apart perms hk).newDisc_data

end Afterwards

/-- A new file is found under its name with its data, and everything else where it was. -/
theorem mkFile_readable (perms : UInt16) (h : Creates v table dir start id data length name)
    (hindex : ∀ i < table, sizeofVnode * i < 2147483648) (hzero : ZeroBehind v.disc dir.a) :
    ∃ cons v', mkFileAt start id v data length 0 name perms [dir] = .ok (cons, v') ∧
      dirIds v'.disc dir.a = dirIds v.disc dir.a ++ [id] ∧
      (∀ filename, Spells filename (0x2f :: name) → ∃ n, Resolves v' dir.a filename (some n) ∧
        cString (Inode.ofPacked n).name.toList = name ∧ contentOf v'.disc (.ofPacked n) = .ok data) ∧
      ∀ filename other, Spells filename (0x2f :: other) → IsName other → other ≠ name →
        ∃ r, Resolves v dir.a filename r ∧ Resolves v' dir.a filename r ∧
          ∀ n ∈ r, contentOf v'.disc (.ofPacked n) = contentOf v.disc (.ofPacked n) := by
  obtain ⟨k, hk, hroom, hquad⟩ := h.listEnds hzero
  have hslot := hindex id.toNat h.unused.slot
  have hid : id.toNat < 35791395 := by
    unfold sizeofVnode at hslot
    omega
  have hlist : dirIds (newVolume v dir (newInode start length name perms) id data k).disc dir.a =
      dirIds v.disc dir.a ++ [id] :=
    (h.apart perms hk).newDisc_dirIds h.unused.notRoot hk hquad
  have hends := (h.apart perms hk).newDisc_listEnds h.unused.notRoot hk hquad
  have hagrees := h.agrees perms hk
  have hold : ∀ i ∈ dirIds v.disc dir.a, Indexable i :=
    fun i hi => hindex i.toNat (h.image.entries i hi).1
  have hnew : ∀ i ∈ dirIds v.disc dir.a ++ [id], Indexable i := by
    intro i hi
    rcases List.mem_append.mp hi with hi | hi
    · exact hold i hi
    · exact List.mem_singleton.mp hi ▸ hslot
  refine ⟨_, _, h.mkFileAt_eq hid hk, hlist, fun filename hspells => ?_,
    fun filename other hspells hother hne => ?_⟩
  · have hresolves := resolves_component hagrees hends hroom h.chunk (hlist ▸ hnew) hspells h.isName
    rw [hlist, h.firstNamed_new perms hk, Option.map_some] at hresolves
    refine ⟨_, hresolves, ?_, ?_⟩
    · exact h.nameOf_new perms hk
    · rw [h.slot_new perms hk, Inode.ofPacked_packed]
      exact h.content_new perms hk
  · have hbefore := resolves_component h.image.agrees hk (Nat.le_of_lt hroom) h.chunk hold hspells
      hother
    have hafter := resolves_component hagrees hends hroom h.chunk (hlist ▸ hnew) hspells hother
    rw [hlist, h.firstNamed_old perms hk hother hne] at hafter
    cases hfound : firstNamed v.disc other (dirIds v.disc dir.a) with
    | none =>
        rw [hfound] at hbefore hafter
        exact ⟨none, hbefore, hafter, fun n hn => nomatch hn⟩
    | some i =>
        have hi : i ∈ dirIds v.disc dir.a := List.mem_of_find?_eq_some hfound
        rw [hfound] at hbefore hafter
        rw [Option.map_some, h.slot_old perms hk hi] at hafter
        refine ⟨_, hbefore, hafter, fun n hn => ?_⟩
        obtain rfl := Option.some.inj hn
        exact h.content_old perms hk hi

end Creates

/-! ## Small images -/

def rootInode (s : UInt64) : Inode where
  chunkaddr1 := s
  chunklen := 1
  perms := 8
  owner := 0
  group := 0
  timestamp := 0
  name := nameField []

/-- A root with its list in sector `s`, nothing else. -/
def rootOnly (s : UInt64) (list : List UInt8) : Volume where
  disc := overwrite (overwrite (fun _ => 0) 0 (rootInode s).packed) (512 * s.toNat) list
  cache := .null

def rootDir (s : UInt64) : Vnode where
  a := rootInode s
  id := 0
  disk := 0

theorem not_holds_null (i : Nat) : ¬ Cache.null.Holds i := by
  intro h
  have hnone : i < 0 * 4096 / sizeofVnode := h.1
  rw [Nat.zero_mul, Nat.zero_div] at hnone
  exact Nat.not_lt_zero i hnone

/-- The first file in a root that lists nothing. -/
theorem rootOnly_creates {s start id : UInt64} {list data name : List UInt8} {length : UInt16}
    {table : Nat} (hempty : quadAt (rootOnly s list).disc s.toNat 0 = 0) (hid : id ≠ 0)
    (hslot : id.toNat < table) (hs : sizeofInode * table ≤ 512 * s.toNat)
    (hstart : s.toNat < start.toNat) (hname : IsName name) (hdata : data.length = length.toNat)
    (hlength : 512 ∣ length.toNat ∧ 0 < length.toNat) :
    Creates (rootOnly s list) table (rootDir s) start id data length name := by
  have hends : ListEnds (rootOnly s list).disc s.toNat (64 * 1) 0 :=
    ⟨Nat.zero_le _, fun l hl => absurd hl (Nat.not_lt_zero l), fun _ => hempty⟩
  have hids : dirIds (rootOnly s list).disc (rootDir s).a = [] :=
    ListEnds.dirIds_eq (a := (rootDir s).a) hends
  have hchunk : (rootDir s).a.chunklen.toNat = 1 := rfl
  have haddr : (rootDir s).a.chunkaddr1 = s := rfl
  refine ⟨⟨agrees_null _, fun i hi => absurd hi (not_holds_null i), hs, ?_⟩,
    ⟨hslot, hid, not_holds_null _, ?_, by omega, fun b hb => ⟨fun hin => ?_, ?_⟩⟩, rfl,
    ⟨by omega, by omega⟩, ?_, hname, ?_, hdata, hlength⟩
  · rw [hids]
    exact fun i hi => nomatch hi
  · rw [hids]
    exact List.not_mem_nil
  · have hlow := hb.1
    have hhigh := hin.2
    rw [haddr, hchunk] at hhigh
    omega
  · rw [hids]
    exact fun i hi => nomatch hi
  · rw [hids]
    decide
  · rw [hids]
    exact fun i hi => nomatch hi

def fileA : Inode := newInode 2 512 [0x61] 0

/-- A root in sector 1 that lists inode 1, whose chunk is sector 2. -/
def oneEntry : Volume where
  disc := overwrite (overwrite (overwrite (fun _ => 0) 0 (rootInode 1).packed) 60 fileA.packed) 512
    (toBytes 8 1)
  cache := .null

theorem oneEntry_listEnds : ListEnds oneEntry.disc 1 64 1 where
  bound := by decide
  ids := by decide
  stop := fun _ => by decide

theorem oneEntry_dirIds : dirIds oneEntry.disc (rootDir 1).a = [1] := by
  rw [oneEntry_listEnds.dirIds_eq (a := (rootDir 1).a)]
  decide

theorem oneEntry_fileA : tableInode oneEntry.disc 1 = fileA := by decide

/-- A second file beside the first. -/
theorem oneEntry_creates : Creates oneEntry 3 (rootDir 1) 3 2 (List.replicate 512 0x34) 512 [0x62] := by
  have hentry : ∀ i ∈ dirIds oneEntry.disc (rootDir 1).a, tableInode oneEntry.disc i.toNat = fileA ∧
      i = 1 := by
    rw [oneEntry_dirIds]
    intro i hi
    obtain rfl := List.mem_singleton.mp hi
    exact ⟨oneEntry_fileA, rfl⟩
  have hroot : 512 * (rootDir 1).a.chunkaddr1.toNat = 512 ∧
      512 * (rootDir 1).a.chunklen.toNat = 512 := ⟨rfl, rfl⟩
  have hfile : 512 * fileA.chunkaddr1.toNat = 1024 ∧ 512 * fileA.chunklen.toNat = 512 := ⟨rfl, rfl⟩
  have hstart : 512 * (3 : UInt64).toNat = 1536 := rfl
  refine ⟨⟨agrees_null _, fun i hi => absurd hi (not_holds_null i), by decide, fun i hi => ?_⟩,
    ⟨by decide, by decide, not_holds_null _, ?_, by decide,
      fun b hb => ⟨fun hin => ?_, fun i hi hin => ?_⟩⟩, rfl, by decide, ?_,
    isName_singleton (by decide), fun i hi => ?_, ?_, by decide⟩
  · obtain ⟨hi, rfl⟩ := hentry i hi
    refine ⟨by decide, fun b hb => ⟨?_, fun hin => ?_⟩⟩
    · rw [hi] at hb
      have := hb.1
      unfold sizeofInode
      omega
    · rw [hi] at hb
      have := hb.1
      have := hin.2
      omega
  · rw [oneEntry_dirIds]
    decide
  · have := hb.1
    have := hin.2
    omega
  · rw [(hentry i hi).1] at hin
    have := hb.1
    have := hin.2
    omega
  · rw [oneEntry_dirIds]
    decide
  · obtain ⟨-, rfl⟩ := hentry i hi
    decide
  · rw [List.length_replicate]
    rfl

theorem oneEntry_readable : ∃ cons v', mkFileAt 3 2 oneEntry (List.replicate 512 0x34) 512 0 [0x62] 0
    [rootDir 1] = .ok (cons, v') ∧ dirIds v'.disc (rootDir 1).a = [1, 2] := by
  have hindex : ∀ i < 3, sizeofVnode * i < 2147483648 := by decide
  have hzero : ZeroBehind oneEntry.disc (rootDir 1).a := by
    rw [ZeroBehind, oneEntry_dirIds]
    decide
  obtain ⟨cons, v', hmake, hlist, -⟩ := mkFile_readable 0 oneEntry_creates hindex hzero
  refine ⟨cons, v', hmake, ?_⟩
  rw [hlist, oneEntry_dirIds]
  rfl

/-- The slot is in the table, and its vnode would begin behind the largest `int`. -/
theorem GrabInode_overflow {v : Volume} {id : UInt64} (hid : sizeofInode * id.toNat < 2147483648)
    (hfar : ¬ Indexable id) (hnew : v.cache.kINb_gb id.toUInt32 = none) :
    GrabInode v id = .error .overflow := by
  have hmul : 60 * id.toNat < 2147483648 := hid
  have hproduct : product sizeofInode id = .ok (sizeofInode * id.toNat) :=
    Cache.product_eq (by decide) hid
  have hoffset : (UInt64.ofNat (sizeofInode * id.toNat)).toNat = sizeofInode * id.toNat := by
    apply UInt64.toNat_ofNat_of_lt'
    show 60 * id.toNat < 18446744073709551616
    omega
  have h60 : (60 : UInt64).toNat = 60 := rfl
  have hread : readPLUS v.disc (.ofNat (sizeofInode * id.toNat)) 60 0 = .ok (stretch v.disc _ _) :=
    readPLUS_eq (by rw [h60]; omega) (by rw [hoffset, h60]; unfold sizeofInode; omega)
  have hnarrow : id.toUInt32.toNat = id.toNat := by
    rw [UInt64.toNat_toUInt32, Nat.mod_eq_of_lt (by omega)]
  have hfail : product sizeofVnode id = .error .overflow := by
    rw [product, hnarrow]
    exact if_neg hfar
  simp only [GrabInode, hnew, hproduct, hread, Cache.kINb_ad, hfail, bind, Except.bind]

theorem firstFile_isName : IsName [0x61] := isName_singleton (by decide)

/-- A quad that nothing has been written to. -/
theorem rootOnly_quadAt {s l : Nat} (hs : 60 ≤ 512 * s + 8 * l) {root : UInt64} {list : List UInt8}
    (hlist : 512 * root.toNat + list.length ≤ 512 * s + 8 * l) :
    quadAt (rootOnly root list).disc s l = 0 := by
  have hzero : ∀ b < 8, (rootOnly root list).disc (512 * s + 8 * l + b) = 0 := by
    intro b _
    show overwrite (overwrite (fun _ => 0) 0 (rootInode root).packed) _ list _ = 0
    rw [overwrite_of_ge (by omega),
      overwrite_of_ge (by rw [length_packed]; unfold sizeofInode; omega)]
  rw [quadAt, stretch_zero hzero]
  rfl

/-- The first vnode that an `int` does not reach. -/
def farSlot : Volume := rootOnly 2859753 []

def farSlotAfter : Volume :=
  newVolume farSlot (rootDir 2859753) (newInode 2859754 512 [0x61] 0) 24403224
    (List.replicate 512 0) 0

/-- A quad behind the zero. -/
def hiddenId : Volume := rootOnly 1 (toBytes 8 0 ++ toBytes 8 5)

def hiddenIdAfter : Volume :=
  newVolume hiddenId (rootDir 1) (newInode 2 512 [0x61] 0) 1 (List.replicate 512 0) 0

theorem farSlot_quadAt (l : Nat) : quadAt farSlot.disc (2859753 : UInt64).toNat l = 0 := by
  have hs : (2859753 : UInt64).toNat = 2859753 := rfl
  exact rootOnly_quadAt (by rw [hs]; omega) (by rw [hs, List.length_nil]; omega)

theorem farSlot_creates : Creates farSlot 24403225 (rootDir 2859753) 2859754 24403224
    (List.replicate 512 0) 512 [0x61] :=
  rootOnly_creates (farSlot_quadAt 0) (by decide) (by decide) (by decide) (by decide)
    firstFile_isName (by rw [List.length_replicate]; rfl) (by decide)

theorem farSlot_listEnds : ListEnds farSlot.disc (rootDir 2859753).a.chunkaddr1.toNat
    (64 * (rootDir 2859753).a.chunklen.toNat) 0 :=
  ⟨Nat.zero_le _, fun l hl => absurd hl (Nat.not_lt_zero l), fun _ => farSlot_quadAt 0⟩

theorem farSlot_listed : listedIds farSlotAfter.disc (rootDir 2859753).a = [24403224] := by
  have hapart := farSlot_creates.apart 0 farSlot_listEnds
  have hids : dirIds farSlotAfter.disc (rootDir 2859753).a =
      dirIds farSlot.disc (rootDir 2859753).a ++ [24403224] :=
    hapart.newDisc_dirIds (by decide) farSlot_listEnds fun _ => farSlot_quadAt 1
  have hends := hapart.newDisc_listEnds (by decide) farSlot_listEnds fun _ => farSlot_quadAt 1
  have hlisted : listedIds farSlotAfter.disc (rootDir 2859753).a =
      dirIds farSlotAfter.disc (rootDir 2859753).a := hends.listedIds_eq (by decide) (by decide)
  rw [hlisted, hids, farSlot_listEnds.dirIds_eq]
  rfl

theorem hiddenId_creates : Creates hiddenId 8 (rootDir 1) 2 1 (List.replicate 512 0) 512 [0x61] :=
  rootOnly_creates (by decide) (by decide) (by decide) (by decide) (by decide) firstFile_isName
    (by rw [List.length_replicate]; rfl) (by decide)

theorem hiddenId_listEnds : ListEnds hiddenId.disc (rootDir 1).a.chunkaddr1.toNat
    (64 * (rootDir 1).a.chunklen.toNat) 0 :=
  ⟨Nat.zero_le _, fun l hl => absurd hl (Nat.not_lt_zero l), fun _ => by decide⟩

theorem hiddenId_dirIds : dirIds hiddenIdAfter.disc (rootDir 1).a = [1, 5] := by
  have hapart := hiddenId_creates.apart 0 hiddenId_listEnds
  have hfirst : quadAt hiddenIdAfter.disc (rootDir 1).a.chunkaddr1.toNat 0 = 1 := Apart.newDisc_last
  have hrest : ∀ l, l ≠ 0 → l < 64 → quadAt hiddenIdAfter.disc (rootDir 1).a.chunkaddr1.toNat l =
      quadAt hiddenId.disc (rootDir 1).a.chunkaddr1.toNat l :=
    fun l hne hl => hapart.newDisc_quads hl hne
  have hsecond : quadAt hiddenIdAfter.disc (rootDir 1).a.chunkaddr1.toNat 1 = 5 :=
    (hrest 1 (by decide) (by decide)).trans (by decide)
  have hends : ListEnds hiddenIdAfter.disc (rootDir 1).a.chunkaddr1.toNat
      (64 * (rootDir 1).a.chunklen.toNat) 2 := by
    refine ⟨by decide, fun l hl => ?_, fun _ => (hrest 2 (by decide) (by decide)).trans (by decide)⟩
    obtain rfl | rfl : l = 0 ∨ l = 1 := by omega
    · rw [hfirst]
      decide
    · rw [hsecond]
      decide
  have hrange : List.range 2 = [0, 1] := rfl
  rw [hends.dirIds_eq, hrange, List.map_cons, List.map_singleton, hfirst, hsecond]

/-- Neither the width of the index nor the zero behind the list can be left out. -/
theorem mkFile_lost :
    (Creates farSlot 24403225 (rootDir 2859753) 2859754 24403224 (List.replicate 512 0) 512 [0x61] ∧
      ∃ cons, mkFileAt 2859754 24403224 farSlot (List.replicate 512 0) 512 0 [0x61] 0
          [rootDir 2859753] = .ok (cons, farSlotAfter) ∧
        ∀ filename, Spells filename [0x2f, 0x61] →
          getFileFromFilename farSlotAfter (rootDir 2859753).a filename = .error .overflow) ∧
    Creates hiddenId 8 (rootDir 1) 2 1 (List.replicate 512 0) 512 [0x61] ∧
      ∃ cons, mkFileAt 2 1 hiddenId (List.replicate 512 0) 512 0 [0x61] 0 [rootDir 1] =
          .ok (cons, hiddenIdAfter) ∧
        dirIds hiddenId.disc (rootDir 1).a = [] ∧ dirIds hiddenIdAfter.disc (rootDir 1).a = [1, 5] := by
  refine ⟨⟨farSlot_creates, _, farSlot_creates.mkFileAt_eq (by decide) farSlot_listEnds,
    fun filename hspells => ?_⟩, hiddenId_creates, _,
    hiddenId_creates.mkFileAt_eq (by decide) hiddenId_listEnds, hiddenId_listEnds.dirIds_eq,
    hiddenId_dirIds⟩
  have hgrab : GrabInode farSlotAfter 24403224 = .error .overflow :=
    GrabInode_overflow (by decide) (by decide) (by decide)
  rw [getFileFromFilename_component hspells (by decide) (by decide)
    (fun c hc => (firstFile_isName.chars c hc).2), findEntry_eq _ (by decide), farSlot_listed,
      searchIds, hgrab]
  rfl

end UnnamedOS.Files
