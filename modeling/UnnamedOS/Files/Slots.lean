import UnnamedOS.Files.BuilderTree
import UnnamedOS.Files.MakeFile
import UnnamedOS.Lib.Run

/-!
# Free slots

`getI` takes the first record without a chunk for a free slot. In an image without empty files and
directories that is the one behind the last inode, and it is a slot of the table as long as the
table has room: its end is recorded nowhere.
-/

namespace UnnamedOS.Files

open UnnamedOS.Lib

/-- The arguments of `mkFile`. -/
structure Creation where
  data : List UInt8
  length : UInt16
  disk : UInt64
  name : List UInt8
  perms : UInt16
  links : List Vnode

/-- A volume with the slots of its files and directories. -/
structure Population where
  volume : Volume
  slots : List Nat

/-- An image that has just been built. -/
def built (root : DirORfile) (image : Builder) : Population :=
  ⟨⟨discOf image, .null⟩, List.range (numinodes root)⟩

def Population.mkFile (s : Population) (c : Creation) : Except Halt Population := do
  let (cons, v) ← Files.mkFile s.volume c.data c.length c.disk c.name c.perms c.links
  return ⟨v, s.slots ++ [cons.id.toNat]⟩

theorem Population.mkFile_of_ok {s : Population} {c : Creation} {cons : Vnode} {v : Volume}
    (h : Files.mkFile s.volume c.data c.length c.disk c.name c.perms c.links = .ok (cons, v)) :
    s.mkFile c = .ok ⟨v, s.slots ++ [cons.id.toNat]⟩ := by
  rw [Population.mkFile, h]
  rfl

def Population.Step (s : Population) (c : Creation) (s' : Population) : Prop := s.mkFile c = .ok s'

/-- The slot lies in the sectors of the table. -/
def InTable (sectors i : Nat) : Prop := sizeofInode * (i + 1) ≤ 512 * sectors

/-- Whatever `getI` returns is a slot of the table that nothing lives in. -/
def Population.FindsFresh (s : Population) (sectors : Nat) : Prop :=
  ∀ disk id, getI s.volume.disc disk = .ok id → InTable sectors id.toNat ∧ id.toNat ∉ s.slots

mutual

/-- No file and no directory is empty. -/
def Full : DirORfile → Prop
  | .file _ contents _ => contents ≠ []
  | .dir _ entries => entries ≠ [] ∧ FullAll entries

def FullAll : List DirORfile → Prop
  | [] => True
  | a :: entries => Full a ∧ FullAll entries

end

/-- A region behind the first sectors, which does not wrap around. -/
def Behind (sectors : Nat) (start len : UInt64) : Prop :=
  sectors ≤ start.toNat ∧ start.toNat + len.toNat ≤ 2 ^ 64

/-- The new file is not empty, the table has room, and the table is not written to as data or as
the list of a directory. -/
structure Careful (sectors : Nat) (s : Population) (c : Creation) : Prop where
  nonempty : c.length ≠ 0
  room : InTable sectors s.slots.length
  data : ∀ start, getIS s.volume.disc c.disk (sectorsOf c.length) = .ok start →
    Behind sectors start (sectorsOf c.length)
  links : ∀ dir ∈ c.links, Behind sectors dir.a.chunkaddr1 dir.a.chunklen

variable {disc : Disc} {disk id : UInt64} {s s' : Population} {c : Creation} {sectors i : Nat}

/-! ## The slot that is returned -/

/-- The first slot without a chunk. -/
structure FirstFree (disc : Disc) (i : Nat) : Prop where
  free : (tableInode disc i).chunklen = 0
  used : ∀ j < i, (tableInode disc j).chunklen ≠ 0

theorem FirstFree.unique {i j : Nat} (h : FirstFree disc i) (h' : FirstFree disc j) : i = j := by
  rcases Nat.lt_trichotomy i j with hlt | heq | hlt
  · exact absurd h.free (h'.used i hlt)
  · exact heq
  · exact absurd h'.free (h.used j hlt)

theorem readPLUS_disk {offset size : UInt64} {b : List UInt8}
    (h : readPLUS disc offset size disk = .ok b) : disk = 0 := by
  obtain ⟨buffer2, hread, -⟩ := bind_ok h
  by_contra hdisk
  rw [read, if_pos hdisk] at hread
  cases hread

theorem readPLUS_slot (hi : i < 35791395) :
    readPLUS disc (.ofNat (sizeofInode * i)) 60 0 =
      .ok (stretch disc (sizeofInode * i) sizeofInode) := by
  have hoffset : (UInt64.ofNat (sizeofInode * i)).toNat = sizeofInode * i := by
    apply UInt64.toNat_ofNat_of_lt'
    show 60 * i < 18446744073709551616
    omega
  rw [readPLUS_eq, hoffset]
  · rfl
  · show _ % 512 + 60 < 65024
    omega
  · rw [hoffset]
    show 60 * i + 60 < 1099511627776
    omega

theorem getIFrom_ok {todo : Nat} (hi : i + todo ≤ 35791395)
    (hused : ∀ j < i, (tableInode disc j).chunklen ≠ 0)
    (h : getIFrom disc disk todo i = .ok id) : disk = 0 ∧ FirstFree disc id.toNat := by
  induction todo generalizing i with
  | zero => cases h
  | succ todo ih =>
      rw [getIFrom] at h
      obtain ⟨b, hread, hnext⟩ := bind_ok h
      obtain rfl := readPLUS_disk hread
      rw [readPLUS_slot (by omega)] at hread
      obtain rfl := Except.ok.inj hread
      change (if (tableInode disc i).chunklen = 0 then _ else _) = _ at hnext
      by_cases hfree : (tableInode disc i).chunklen = 0
      · rw [if_pos hfree] at hnext
        obtain rfl := Except.ok.inj hnext
        rw [UInt64.toNat_ofNat_of_lt' (show i < 18446744073709551616 by omega)]
        exact ⟨rfl, hfree, hused⟩
      · rw [if_neg hfree] at hnext
        apply ih (by omega) _ hnext
        intro j hj
        rcases Nat.lt_succ_iff_lt_or_eq.mp hj with hlt | rfl
        · exact hused j hlt
        · exact hfree

theorem getI_ok (h : getI disc disk = .ok id) : disk = 0 ∧ FirstFree disc id.toNat :=
  getIFrom_ok (Nat.le_refl _) (fun j hj => absurd hj (Nat.not_lt_zero j)) h

/-! ## What `mkFile` does to the table -/

theorem sector_dvd {len : UInt16} (h : len &&& 511 = 0) : 512 ∣ len.toNat := by
  have hmod := congrArg UInt16.toNat h
  rw [UInt16.toNat_and] at hmod
  exact Nat.dvd_of_mod_eq_zero ((Nat.and_two_pow_sub_one_eq_mod len.toNat 9).symm.trans hmod)

theorem write_dvd {disc' : Disc} {LBA : UInt64} {len : UInt16} {data : List UInt8}
    (h : write disc LBA disk len data = .ok disc') : 512 ∣ len.toNat := by
  rw [write] at h
  split at h
  · cases h
  · split at h
    · cases h
    · rename_i hlen
      exact sector_dvd (Decidable.not_not.mp hlen)

/-- A created file: its slot, and what has become of the bytes in front of the regions. -/
structure Made (v v' : Volume) (c : Creation) (start id : UInt64) (cons : Vnode) : Prop where
  region : getIS v.disc c.disk (sectorsOf c.length) = .ok start
  slot : getI v.disc c.disk = .ok id
  same : cons.id = id
  dvd : 512 ∣ c.length.toNat
  front : ∀ b < 512 * start.toNat, (∀ dir ∈ c.links, b < 512 * dir.a.chunkaddr1.toNat) →
    v'.disc b = overwrite v.disc (sizeofInode * id.toNat)
      (newInode start c.length c.name c.perms).packed b

theorem mkFile_made {v v' : Volume} {cons : Vnode}
    (h : Files.mkFile v c.data c.length c.disk c.name c.perms c.links = .ok (cons, v')) :
    ∃ start id, Made v v' c start id cons := by
  unfold Files.mkFile at h
  obtain ⟨start, hstart, h1⟩ := bind_ok h
  obtain ⟨id, hid, h2⟩ := bind_ok h1
  unfold mkFileAt at h2
  obtain ⟨disc1, hdisc1, h3⟩ := bind_ok h2
  obtain ⟨disc2, hdisc2, h4⟩ := bind_ok h3
  obtain ⟨w, hw, h5⟩ := bind_ok h4
  obtain ⟨rfl, rfl⟩ := Prod.mk.inj (Except.ok.inj h5)
  have hdvd := write_dvd hdisc2
  obtain ⟨-, rfl⟩ := writeIN_ok (getIFrom_lt (Nat.le_refl _) hid) hdisc1
  obtain ⟨-, rfl⟩ := write_ok hdisc2
  refine ⟨start, id, hstart, hid, rfl, hdvd, fun b hb hlinks => ?_⟩
  have hkeep := (links_keep hw).disc b (fun ⟨dir, hdir, hin⟩ => by
    have := hin.1
    have := hlinks dir hdir
    omega)
  rw [hkeep]
  exact overwrite_of_lt hb

/-! ## Every slot up to the last -/

/-- The slots are those up to the last, all of them with a chunk, and the rest of the table is
free. -/
structure Compact (sectors : Nat) (s : Population) : Prop where
  slots : s.slots = List.range s.slots.length
  used : ∀ i < s.slots.length, (tableInode s.volume.disc i).chunklen ≠ 0
  free : ∀ i, s.slots.length ≤ i → InTable sectors i → (tableInode s.volume.disc i).chunklen = 0

theorem Compact.firstFree (h : Compact sectors s) (hroom : InTable sectors s.slots.length) :
    FirstFree s.volume.disc s.slots.length :=
  ⟨h.free _ (Nat.le_refl _) hroom, h.used⟩

/-- With room left, the slot behind the last is the one that is returned. -/
theorem Compact.findsFresh (h : Compact sectors s) (hroom : InTable sectors s.slots.length) :
    s.FindsFresh sectors := by
  intro disk id hid
  rw [(getI_ok hid).2.unique (h.firstFree hroom), h.slots, List.length_range]
  exact ⟨hroom, List.not_mem_range_self⟩

/-- Without room, what is returned is not in the table. -/
theorem Compact.not_findsFresh (h : Compact sectors s) (hroom : ¬ InTable sectors s.slots.length)
    (hid : getI s.volume.disc disk = .ok id) : ¬ s.FindsFresh sectors := by
  intro hfresh
  have hin := (hfresh disk id hid).1
  have hlast : s.slots.length ≤ id.toNat := by
    by_contra hlt
    exact h.used _ (Nat.not_le.mp hlt) (getI_ok hid).2.free
  have hle : sizeofInode * (s.slots.length + 1) ≤ sizeofInode * (id.toNat + 1) :=
    Nat.mul_le_mul_left _ (by omega)
  exact hroom (Nat.le_trans hle hin)

theorem sectorsOf_ne_zero {length : UInt16} (hdvd : 512 ∣ length.toNat) (hne : length ≠ 0) :
    sectorsOf length ≠ 0 := by
  intro hzero
  have hbytes := sectorsOf_toNat hdvd
  rw [hzero] at hbytes
  apply hne
  rw [← UInt16.toNat_inj]
  change 512 * 0 = length.toNat at hbytes
  change _ = 0
  omega

/-- One more file. -/
theorem Compact.mkFile (h : Compact sectors s) (hc : Careful sectors s c)
    (hstep : s.mkFile c = .ok s') : Compact sectors s' := by
  obtain ⟨⟨cons, v⟩, hmake, hlast⟩ := bind_ok hstep
  obtain rfl := Except.ok.inj hlast
  obtain ⟨start, id, hmade⟩ := mkFile_made hmake
  have hid : id.toNat = s.slots.length :=
    (getI_ok hmade.slot).2.unique (h.firstFree hc.room)
  have hcount : (s.slots ++ [cons.id.toNat]).length = s.slots.length + 1 := by
    rw [List.length_append, List.length_singleton]
  -- the table, but for the new slot, is as it was
  have hfront (b : Nat) (hb : b < 512 * sectors) : v.disc b = overwrite s.volume.disc
      (sizeofInode * s.slots.length) (newInode start c.length c.name c.perms).packed b := by
    have hdata := (hc.data start hmade.region).1
    rw [← hid]
    apply hmade.front b (by omega)
    intro dir hdir
    have := (hc.links dir hdir).1
    omega
  have hroom := hc.room
  unfold InTable at hroom
  rw [Nat.mul_add] at hroom
  have hnew : tableInode v.disc s.slots.length = newInode start c.length c.name c.perms := by
    rw [← tableInode_overwrite s.volume.disc s.slots.length (newInode start c.length c.name c.perms)]
    exact tableInode_congr fun x _ hx => hfront x (by omega)
  have hold (i : Nat) (hne : i ≠ s.slots.length) (hi : InTable sectors i) :
      tableInode v.disc i = tableInode s.volume.disc i := by
    apply tableInode_congr
    intro x hx hx'
    unfold InTable at hi
    rw [Nat.mul_add] at hi
    rw [hfront x (by omega)]
    apply overwrite_outside (Nat.le_of_eq (length_packed _))
    rintro ⟨hge, hlt⟩
    unfold sizeofInode at *
    omega
  constructor
  · rw [hcount, hmade.same, hid, List.range_succ, ← h.slots]
  · intro i hi
    rw [hcount] at hi
    rcases Nat.lt_succ_iff_lt_or_eq.mp hi with hlt | rfl
    · have hin : InTable sectors i := by
        unfold InTable
        have hle : sizeofInode * (i + 1) ≤ sizeofInode * (s.slots.length + 1) :=
          Nat.mul_le_mul_left _ (by omega)
        rw [Nat.mul_add sizeofInode s.slots.length] at hle
        omega
      change (tableInode v.disc i).chunklen ≠ 0
      rw [hold i (Nat.ne_of_lt hlt) hin]
      exact h.used i hlt
    · change (tableInode v.disc s.slots.length).chunklen ≠ 0
      rw [hnew]
      exact sectorsOf_ne_zero hmade.dvd hc.nonempty
  · intro i hi hin
    rw [hcount] at hi
    change (tableInode v.disc i).chunklen = 0
    rw [hold i (by omega) hin]
    exact h.free i (by omega) hin

/-! ## The image of a tree without empty files -/

theorem sectorCount_ne_zero {n : Nat} (h : n ≠ 0) : sectorCount n ≠ 0 := by
  have := le_sectorCount n
  omega

theorem Record.chunklen {inbase image : Nat → UInt8} {first last i b : Nat} {perms : UInt16}
    {name bytes : List UInt8} (h : Record inbase image first last i b perms name bytes)
    (hb : b ≠ 0) : (tableInode inbase i).chunklen ≠ 0 := by
  obtain ⟨st, hint, -, -, hinode, -⟩ := h
  have hst : st < 2147483648 := by omega
  have hint' : b < 2147483648 := by omega
  have hchunk := (constructInode_chunk hst hint' perms name).2
  rw [hinode]
  intro hzero
  rw [hzero] at hchunk
  exact hb hchunk.symm

section Full

variable {inbase image : Nat → UInt8} {first last : Nat}

mutual

theorem Full.used : ∀ (a : DirORfile) (i : Nat), Full a → Stored inbase image first last a i →
    ∀ j, i ≤ j → j < i + numinodes a → (tableInode inbase j).chunklen ≠ 0
  | .file name contents int, i, hfull, hstored, j, hlo, hhi => by
      rw [numinodes] at hhi
      obtain rfl : j = i := by omega
      have hrecord : Record inbase image first last j _ 0x1 name contents := hstored
      exact hrecord.chunklen (sectorCount_ne_zero fun h0 => hfull (List.length_eq_zero_iff.mp h0))
  | .dir name entries, i, hfull, hstored, j, hlo, hhi => by
      obtain ⟨hne, hall⟩ := hfull
      obtain ⟨hrecord, hentries⟩ := hstored
      rw [numinodes] at hhi
      by_cases hj : j = i
      · have hpos := List.length_pos_iff.mpr hne
        rw [hj]
        refine hrecord.chunklen (sectorCount_ne_zero ?_)
        unfold sizeofInode
        omega
      · exact FullAll.used entries (i + 1) hall hentries j (by omega) (by omega)

theorem FullAll.used : ∀ (entries : List DirORfile) (i : Nat), FullAll entries →
    StoredAll inbase image first last entries i →
    ∀ j, i ≤ j → j < i + numinodesOf entries → (tableInode inbase j).chunklen ≠ 0
  | [], i, _, _, j, hlo, hhi => by
      rw [numinodesOf] at hhi
      omega
  | a :: entries, i, hfull, hstored, j, hlo, hhi => by
      rw [numinodesOf] at hhi
      by_cases hj : j < i + numinodes a
      · exact Full.used a i hfull.1 hstored.1 j hlo hj
      · exact FullAll.used entries _ hfull.2 hstored.2 j (by omega) (by omega)

end

end Full

section Built

variable {root : DirORfile} {image : Nat → UInt8} {flll : UInt64} {b : Builder}

/-- A slot of the table, as the builder has set it. -/
theorem Carries.tableInode (h : Carries root b) (hi : InTable (lnb root) i) :
    tableInode (discOf b) i = Files.tableInode b.inbase i := by
  apply tableInode_congr
  intro x _ hx
  unfold InTable at hi
  rw [Nat.mul_add] at hi
  exact h.table x (by omega)

theorem inTable_of_lt (h : i < numinodes root) : InTable (lnb root) i := by
  have hle := le_sectorCount (sizeofInode * numinodes root)
  have hmono : sizeofInode * (i + 1) ≤ sizeofInode * numinodes root := Nat.mul_le_mul_left _ h
  unfold InTable lnb
  omega

theorem Carries.compact (h : Carries root b) (hfull : Full root) :
    Compact (lnb root) (built root b) := by
  have hcount : (built root b).slots.length = numinodes root := List.length_range
  constructor
  · rw [hcount]
    rfl
  · intro i hi
    rw [hcount] at hi
    change (Files.tableInode (discOf b) i).chunklen ≠ 0
    rw [h.tableInode (inTable_of_lt hi)]
    exact hfull.used root 0 h.tree i (Nat.zero_le i) (by omega)
  · intro i hi hin
    rw [hcount] at hi
    change (Files.tableInode (discOf b) i).chunklen = 0
    have hzero : stretch b.inbase (sizeofInode * i) sizeofInode = List.replicate sizeofInode 0 := by
      apply stretch_zero
      intro x _
      apply h.free
      exact Nat.le_trans (Nat.mul_le_mul_left _ hi) (Nat.le_add_right _ _)
    rw [h.tableInode hin, Files.tableInode, hzero]
    rfl

end Built

/-- From the image of a tree without empty files and directories, in every state that careful calls
of `mkFile` lead to, the slot that `getI` returns is a fresh one of the table exactly if the table
has room left, or if there is none that it returns. -/
theorem slots_fresh_iff (root : DirORfile) (image : Nat → UInt8) (flll : UInt64) (b : Builder)
    (hbuilt : buildImage root image flll = some b) (hfull : Full root) (cs : List Creation)
    (s : Population) (hrun : Run (Guarded (Careful (lnb root)) Population.Step) (built root b) cs s) :
    s.FindsFresh (lnb root) ↔ InTable (lnb root) s.slots.length ∨
      ∀ disk id, getI s.volume.disc disk ≠ .ok id := by
  have hcompact : Compact (lnb root) s :=
    run_invariant (fun s c s' hs hc hstep => hs.mkFile hc hstep) hrun
      ((buildImage_carries hbuilt).compact hfull)
  constructor
  · intro hfresh
    by_contra hnot
    obtain ⟨hroom, hsome⟩ := not_or.mp hnot
    apply hsome
    intro disk id hid
    exact hcompact.not_findsFresh hroom hid hfresh
  · rintro (hroom | hnone)
    · exact hcompact.findsFresh hroom
    · intro disk id hid
      exact absurd hid (hnone disk id)

/-- A root directory with a file of one byte, on a floppy. -/
def oneByte : DirORfile := oneFile [0x62] (by decide)

theorem oneByte_isSome : (buildImage oneByte (fun _ => 0) 1474560).isSome := by decide

/-- A second file of one sector, which no directory lists. -/
def secondFile : Creation := ⟨List.replicate 512 0x63, 512, 0, [0x63], 1, []⟩

theorem oneByte_slots_fresh : ∃ b s, buildImage oneByte (fun _ => 0) 1474560 = some b ∧
    Run (Guarded (Careful (lnb oneByte)) Population.Step) (built oneByte b) [secondFile] s ∧
    (s.FindsFresh (lnb oneByte) ↔ InTable (lnb oneByte) s.slots.length ∨
      ∀ disk id, getI s.volume.disc disk ≠ .ok id) := by
  obtain ⟨b, hget, hb⟩ : ∃ b, b = (buildImage oneByte (fun _ => 0) 1474560).get oneByte_isSome ∧
      buildImage oneByte (fun _ => 0) 1474560 = some b :=
        ⟨_, rfl, (Option.some_get oneByte_isSome).symm⟩
  have hfull : Full oneByte := ⟨List.cons_ne_nil _ _, List.cons_ne_nil _ _, trivial⟩
  have hsectors : sectorsOf 512 = 1 := by decide
  have hregion : getIS (discOf b) 0 (sectorsOf 512) = .ok 2 := by
    subst hget
    rw [hsectors]
    exact getIS_ok.mpr ⟨2, ⟨by decide, by decide +kernel, by decide +kernel⟩, by decide +kernel⟩
  have hslot : getI (discOf b) 0 = .ok 2 := by
    subst hget
    exact getIFrom_eq (Nat.zero_le 2) (by decide) (Nat.le_refl _) (by decide +kernel)
      (by decide +kernel)
  obtain ⟨cons, v, hmade⟩ : ∃ cons v, Files.mkFile ⟨discOf b, .null⟩ secondFile.data 512 0 [0x63] 1 []
      = .ok (cons, v) := by
    have hmake : Files.mkFile ⟨discOf b, .null⟩ secondFile.data 512 0 [0x63] 1 [] =
        mkFileAt 2 2 ⟨discOf b, .null⟩ secondFile.data 512 0 [0x63] 1 [] := mkFile_eq hregion hslot
    rw [hmake, mkFileAt_eq (by decide) (by decide)]
    exact ⟨_, _, rfl⟩
  have hs := Population.mkFile_of_ok (s := built oneByte b) (c := secondFile) hmade
  have hcareful : Careful (lnb oneByte) (built oneByte b) secondFile := by
    have hroom : InTable (lnb oneByte) (numinodes oneByte) := by
      unfold InTable
      decide
    refine ⟨by decide, ?_, fun start hstart => ?_, fun dir hdir => absurd hdir List.not_mem_nil⟩
    · rw [built, List.length_range]
      exact hroom
    · obtain rfl := Except.ok.inj (hregion.symm.trans hstart)
      exact ⟨by decide, by decide⟩
  have hrun : Run (Guarded (Careful (lnb oneByte)) Population.Step) (built oneByte b)
      [secondFile] _ := Run.cons ⟨hcareful, hs⟩ (Run.nil _)
  exact ⟨b, _, hb, hrun, slots_fresh_iff oneByte _ _ b hb hfull [secondFile] _ hrun⟩

/-- A root directory with an empty file. -/
def emptyFile : DirORfile := oneFile [] (by decide)

theorem emptyFile_isSome : (buildImage emptyFile (fun _ => 0) 1474560).isSome := by decide

/-- The slot that is returned is that of the empty file. -/
theorem empty_file_slot : ∃ b, buildImage emptyFile (fun _ => 0) 1474560 = some b ∧ b.errc = 0 ∧
    getI (discOf b) 0 = .ok 1 ∧ ¬ (built emptyFile b).FindsFresh (lnb emptyFile) := by
  obtain ⟨b, hget, hb⟩ : ∃ b, b = (buildImage emptyFile (fun _ => 0) 1474560).get emptyFile_isSome ∧
      buildImage emptyFile (fun _ => 0) 1474560 = some b :=
        ⟨_, rfl, (Option.some_get emptyFile_isSome).symm⟩
  have herrc := (buildImage_built hb).errc.mpr (by decide)
  have hslot : getI (discOf b) 0 = .ok 1 := by
    subst hget
    exact getIFrom_eq (Nat.zero_le 1) (by decide) (Nat.le_refl _) (by decide +kernel)
      (by decide +kernel)
  refine ⟨b, hb, herrc, hslot, fun hfresh => ?_⟩
  exact (hfresh 0 1 hslot).2 (List.mem_range.mpr (by decide))

end UnnamedOS.Files
