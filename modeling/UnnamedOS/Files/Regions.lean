import UnnamedOS.Files.Sectors

/-!
# Fresh regions

`getIS` looks for the end of the last chunk. It reads eight records of every sector, although the
60-byte records of the table run across the sector boundaries, and it returns a start that lies
`size` sectors below the greatest end it has seen.
-/

namespace UnnamedOS.Files

open UnnamedOS.Lib

/-- `chunkaddr1+chunklen`. -/
def Inode.chunkEnd (n : Inode) : UInt64 := n.chunkaddr1 + n.chunklen

/-- `lbamax = MAX(lbamax, chunkaddr1+chunklen)`, where `lbamax` is an `unsigned int`. -/
def maxEnd (lbamax : UInt32) (n : Inode) : UInt32 :=
  if lbamax.toUInt64 > n.chunkEnd then lbamax else n.chunkEnd.toUInt32

/-- `((inode*)b)[j]`. -/
def slot (b : List UInt8) (j : Nat) : Inode :=
  .ofPacked ((b.drop (sizeofInode * j)).take sizeofInode)

/-- The inner loop: on the left what is returned, on the right what the next sector starts with. -/
def scanSlots (b : List UInt8) : Nat → Nat → UInt32 → UInt32 ⊕ UInt32
  | 0, _, lbamax => .inr lbamax
  | todo + 1, j, lbamax =>
    if (slot b j).chunklen = 0 then .inl lbamax
    else scanSlots b todo (j + 1) (maxEnd lbamax (slot b j))

/-- The outer loop, which has no bound but the range of its `int`. -/
def scanSectors (disc : Disc) (disk : UInt64) : Nat → Nat → UInt32 → Except Halt UInt32
  | 0, _, _ => .error .overflow
  | todo + 1, i, lbamax => do
    let b ← read disc (.ofNat i) disk 0x400
    match scanSlots b 8 0 lbamax with
    | .inl lbamax => return lbamax
    | .inr lbamax => scanSectors disc disk todo (i + 1) lbamax

def getIS (disc : Disc) (disk size : UInt64) : Except Halt UInt64 := do
  let lbamax ← scanSectors disc disk 2147483648 0 0
  return lbamax.toUInt64 - size

/-! ## What is live -/

/-- The `i`-th inode of the table. -/
def tableInode (disc : Disc) (i : Nat) : Inode :=
  .ofPacked (stretch disc (sizeofInode * i) sizeofInode)

structure InodeTable (disc : Disc) (n : Nat) : Prop where
  live : ∀ i < n, (tableInode disc i).chunklen ≠ 0
  last : ∀ b < sizeofInode, disc (sizeofInode * n + b) = 0

/-- The sectors `start`, `start + 1`, ... of a region. -/
def InRegion (start len q : UInt64) : Prop := ∃ j < len.toNat, q = start + .ofNat j

/-- A sector with data in it, or with a part of the table. -/
def Live (disc : Disc) (n : Nat) (q : UInt64) : Prop :=
  (∃ i < n, InRegion (tableInode disc i).chunkaddr1 (tableInode disc i).chunklen q) ∨
    512 * q.toNat < sizeofInode * n

def Free (disc : Disc) (n : Nat) (start size : UInt64) : Prop :=
  ∀ q, InRegion start size q → ¬ Live disc n q

def FindsFree (disc : Disc) (n : Nat) (size : UInt64) : Prop :=
  ∃ start, getIS disc 0 size = .ok start ∧ Free disc n start size

/-! ## What the scan reads -/

/-- Where the `t`-th record that the scan decodes starts. -/
def recordOffset (t : Nat) : Nat := 512 * (t / 8) + sizeofInode * (t % 8)

def scanned (disc : Disc) (t : Nat) : Inode :=
  .ofPacked (stretch disc (recordOffset t) sizeofInode)

/-- `lbamax` when the first `m` records have been passed. -/
def mark (disc : Disc) : Nat → UInt32
  | 0 => 0
  | m + 1 => maxEnd (mark disc m) (scanned disc m)

/-- The scan stops at its record `m`. -/
structure ScanEnds (disc : Disc) (m : Nat) : Prop where
  range : m < 17179869184
  passed : ∀ t < m, (scanned disc t).chunklen ≠ 0
  stop : (scanned disc m).chunklen = 0

/-- Record `t` is the one that gave `lbamax` its last value. -/
structure Tops (disc : Disc) (m t : Nat) : Prop where
  seen : t < m
  raises : (mark disc t).toUInt64 ≤ (scanned disc t).chunkEnd
  above : ∀ u, t < u → u < m →
    (scanned disc u).chunkEnd < (scanned disc t).chunkEnd.toUInt32.toUInt64

/-- The record is an inode of the table, and its end fits into `lbamax`. -/
def FromTable (disc : Disc) (n t : Nat) : Prop :=
  (∃ i < n, recordOffset t = sizeofInode * i) ∧ (scanned disc t).chunkEnd.toNat < 4294967296

/-- The scan ends, and what it takes for the last chunk is none of the table. -/
def StrayTop (disc : Disc) (n : Nat) : Prop :=
  ∃ m t, ScanEnds disc m ∧ Tops disc m t ∧ ¬ FromTable disc n t

variable {disc : Disc} {n : Nat} {size : UInt64}

theorem slot_eq {i j : Nat} (hj : j < 8) :
    slot (stretch disc (512 * i) 1024) j = scanned disc (8 * i + j) := by
  have hoffset : 512 * i + sizeofInode * j = recordOffset (8 * i + j) := by
    unfold recordOffset sizeofInode
    omega
  rw [slot, take_drop_stretch (by unfold sizeofInode; omega), hoffset]
  rfl

/-- The records from `a` on, up to the stop at `m`. -/
structure Stops (disc : Disc) (a m : Nat) : Prop where
  le : a ≤ m
  passed : ∀ t, a ≤ t → t < m → (scanned disc t).chunklen ≠ 0
  stop : (scanned disc m).chunklen = 0

theorem Stops.unique {a m m' : Nat} (h : Stops disc a m) (h' : Stops disc a m') : m = m' := by
  rcases Nat.lt_trichotomy m m' with hlt | heq | hlt
  · exact absurd h.stop (h'.passed m h.le hlt)
  · exact heq
  · exact absurd h'.stop (h.passed m' h'.le hlt)

theorem scanSlots_spec (disc : Disc) (i todo j : Nat) (hj : j + todo = 8) :
    (∃ m, m < 8 * i + 8 ∧ Stops disc (8 * i + j) m ∧
      scanSlots (stretch disc (512 * i) 1024) todo j (mark disc (8 * i + j)) = .inl (mark disc m)) ∨
    (∀ t, 8 * i + j ≤ t → t < 8 * i + 8 → (scanned disc t).chunklen ≠ 0) ∧
      scanSlots (stretch disc (512 * i) 1024) todo j (mark disc (8 * i + j)) =
        .inr (mark disc (8 * i + 8)) := by
  induction todo generalizing j with
  | zero =>
      have hend : 8 * i + j = 8 * i + 8 := by omega
      rw [hend]
      exact Or.inr ⟨fun t ht ht' => absurd ht' (by omega), rfl⟩
  | succ todo ih =>
      rw [scanSlots, slot_eq (by omega)]
      by_cases hz : (scanned disc (8 * i + j)).chunklen = 0
      · rw [if_pos hz]
        exact Or.inl ⟨8 * i + j, by omega, ⟨Nat.le_refl _, fun t ht ht' => absurd ht' (by omega), hz⟩,
          rfl⟩
      · rw [if_neg hz]
        have hpassed : ∀ t, 8 * i + j ≤ t → t = 8 * i + j ∨ 8 * i + (j + 1) ≤ t := by omega
        rcases ih (j + 1) (by omega) with ⟨m, hm, hstops, hscan⟩ | ⟨hall, hscan⟩
        · refine Or.inl ⟨m, hm, ⟨?_, fun t ht ht' => ?_, hstops.stop⟩, hscan⟩
          · have := hstops.le
            omega
          · rcases hpassed t ht with rfl | hlater
            · exact hz
            · exact hstops.passed t hlater ht'
        · refine Or.inr ⟨fun t ht ht' => ?_, hscan⟩
          rcases hpassed t ht with rfl | hlater
          · exact hz
          · exact hall t hlater ht'

theorem read_sector {i : Nat} (hi : i < 2147483648) :
    read disc (.ofNat i) 0 0x400 = .ok (stretch disc (512 * i) 1024) := by
  have hsector : (UInt64.ofNat i).toNat = i := UInt64.toNat_ofNat_of_lt' (by
    show i < 18446744073709551616
    omega)
  rw [read_eq (by decide), hsector]
  rfl

theorem scanSectors_ok (disc : Disc) (lbamax : UInt32) (todo i : Nat) (hrange : i + todo ≤ 2147483648) :
    scanSectors disc 0 todo i (mark disc (8 * i)) = .ok lbamax ↔
      ∃ m, m < 8 * (i + todo) ∧ Stops disc (8 * i) m ∧ lbamax = mark disc m := by
  induction todo generalizing i with
  | zero =>
      rw [scanSectors]
      constructor
      · intro h
        cases h
      · rintro ⟨m, hm, hstops, -⟩
        have := hstops.le
        omega
  | succ todo ih =>
      rw [scanSectors, read_sector (by omega)]
      have hbody := scanSlots_spec disc i 8 0 rfl
      simp only [Nat.add_zero] at hbody
      rcases hbody with ⟨m, hm, hstops, hscan⟩ | ⟨hall, hscan⟩
      · simp only [bind, Except.bind, hscan]
        constructor
        · intro h
          exact ⟨m, by omega, hstops, (Except.ok.inj h).symm⟩
        · rintro ⟨m', -, hstops', rfl⟩
          rw [hstops'.unique hstops]
          rfl
      · simp only [bind, Except.bind, hscan]
        have hnext : 8 * i + 8 = 8 * (i + 1) := by omega
        rw [hnext, ih (i + 1) (by omega)]
        constructor
        · rintro ⟨m, hm, hstops, rfl⟩
          refine ⟨m, by omega, ⟨by have := hstops.le; omega, fun t ht ht' => ?_, hstops.stop⟩, rfl⟩
          by_cases hfirst : t < 8 * i + 8
          · exact hall t ht hfirst
          · exact hstops.passed t (by omega) ht'
        · rintro ⟨m, hm, hstops, rfl⟩
          have hlater : 8 * (i + 1) ≤ m := by
            by_contra hlt
            exact hall m hstops.le (by omega) hstops.stop
          exact ⟨m, by omega, ⟨hlater, fun t ht ht' => hstops.passed t (by omega) ht', hstops.stop⟩,
            rfl⟩

/-- The scan ends with the mark of the records that it has passed. -/
theorem getIS_ok {start : UInt64} :
    getIS disc 0 size = .ok start ↔
      ∃ m, ScanEnds disc m ∧ start = (mark disc m).toUInt64 - size := by
  have hscan := fun lbamax => scanSectors_ok disc lbamax 2147483648 0 (Nat.le_refl _)
  unfold getIS
  constructor
  · intro h
    cases hs : scanSectors disc 0 2147483648 0 0 with
    | error e =>
        rw [hs] at h
        cases h
    | ok lbamax =>
        rw [hs] at h
        obtain ⟨m, hm, hstops, rfl⟩ := (hscan lbamax).mp hs
        exact ⟨m, ⟨by omega, fun t ht => hstops.passed t (Nat.zero_le t) ht, hstops.stop⟩,
          (Except.ok.inj h).symm⟩
  · rintro ⟨m, hm, rfl⟩
    have hs := (hscan (mark disc m)).mpr ⟨m, by have := hm.range; omega,
      ⟨Nat.zero_le m, fun t _ ht => hm.passed t ht, hm.stop⟩, rfl⟩
    rw [show mark disc (8 * 0) = 0 from rfl] at hs
    rw [hs]
    rfl

theorem toNat_sub_one {x : UInt64} (hx : x ≠ 0) : (x - 1).toNat = x.toNat - 1 := by
  have h1 : 1 ≤ x := by
    rw [UInt64.le_iff_toNat_le]
    have : x.toNat ≠ 0 := fun h => hx (UInt64.toNat_inj.mp h)
    show 1 ≤ x.toNat
    omega
  exact UInt64.toNat_sub_of_le x 1 h1

/-- The last sector of a region. -/
theorem inRegion_last (start : UInt64) {len : UInt64} (hlen : len ≠ 0) :
    InRegion start len (start + (len - 1)) := by
  have hpos : len.toNat ≠ 0 := fun h => hlen (UInt64.toNat_inj.mp h)
  refine ⟨len.toNat - 1, by omega, ?_⟩
  rw [← toNat_sub_one hlen, UInt64.ofNat_toNat]

theorem Tops.mark_eq {m t : Nat} (h : Tops disc m t) :
    mark disc m = (scanned disc t).chunkEnd.toUInt32 := by
  have hafter : ∀ d, t + 1 + d ≤ m → mark disc (t + 1 + d) = (scanned disc t).chunkEnd.toUInt32 := by
    intro d
    induction d with
    | zero =>
        intro _
        have hraise : ¬ (mark disc t).toUInt64 > (scanned disc t).chunkEnd := by
          rw [gt_iff_lt, UInt64.not_lt]
          exact h.raises
        rw [Nat.add_zero, mark, maxEnd, if_neg hraise]
    | succ d ih =>
        intro hd
        have hbelow := h.above (t + 1 + d) (by omega) (by omega)
        rw [show t + 1 + (d + 1) = t + 1 + d + 1 from rfl, mark, maxEnd, ih (by omega),
          if_pos hbelow]
  have hm := hafter (m - (t + 1)) (by have := h.seen; omega)
  rwa [show t + 1 + (m - (t + 1)) = m by have := h.seen; omega] at hm

theorem exists_tops (disc : Disc) {m : Nat} (hm : 0 < m) : ∃ t, Tops disc m t := by
  induction m with
  | zero => omega
  | succ m ih =>
      by_cases hmax : (mark disc m).toUInt64 > (scanned disc m).chunkEnd
      · have hpos : 0 < m := by
          apply Nat.pos_of_ne_zero
          rintro rfl
          exact absurd hmax (UInt64.not_lt.mpr (UInt64.le_iff_toNat_le.mpr (Nat.zero_le _)))
        obtain ⟨t, ht⟩ := ih hpos
        refine ⟨t, Nat.lt_succ_of_lt ht.seen, ht.raises, fun u htu hu => ?_⟩
        rcases Nat.lt_succ_iff_lt_or_eq.mp hu with hlt | rfl
        · exact ht.above u htu hlt
        · rw [← ht.mark_eq]
          exact hmax
      · exact ⟨m, Nat.lt_succ_self m, UInt64.not_lt.mp hmax, fun u hmu hu => by omega⟩

theorem recordOffset_first {t : Nat} (ht : t < 8) : recordOffset t = sizeofInode * t := by
  unfold recordOffset
  rw [Nat.div_eq_of_lt ht, Nat.mod_eq_of_lt ht]
  omega

theorem stretch_zero {a m : Nat} (h : ∀ b < m, disc (a + b) = 0) :
    stretch disc a m = List.replicate m 0 := by
  apply List.ext_getElem
  · rw [length_stretch, List.length_replicate]
  · intro b hb _
    rw [length_stretch] at hb
    rw [getElem_stretch, List.getElem_replicate]
    exact h b hb

/-- The scan stops where the length field of a record is zero. -/
theorem scanned_stop {m : Nat} (h : ∀ b < 8, disc (recordOffset m + 8 + b) = 0) :
    (scanned disc m).chunklen = 0 := by
  have hfield : ((stretch disc (recordOffset m) sizeofInode).drop 8).take 8 =
      List.replicate 8 0 := by
    rw [take_drop_stretch (by decide)]
    exact stretch_zero h
  rw [scanned, Inode.ofPacked]
  simp only [hfield]
  rfl

/-- Up to eight inodes the scan ends with the table, if not before. -/
theorem InodeTable.stop (h : InodeTable disc n) (hn : n ≤ 8) : (scanned disc n).chunklen = 0 := by
  have hinside : ∃ b, b + 16 ≤ sizeofInode ∧ recordOffset n = sizeofInode * n + b := by
    rcases Nat.lt_or_eq_of_le hn with hlt | rfl
    · exact ⟨0, by decide, recordOffset_first hlt⟩
    · exact ⟨32, by decide, rfl⟩
  obtain ⟨b, hb, hoffset⟩ := hinside
  refine scanned_stop fun c hc => ?_
  rw [hoffset, Nat.add_assoc, Nat.add_assoc]
  exact h.last _ (by omega)

theorem InodeTable.scanEnds_zero (h : InodeTable disc 0) : ScanEnds disc 0 where
  range := by decide
  passed := fun t ht => absurd ht (Nat.not_lt_zero t)
  stop := h.stop (by decide)

theorem ScanEnds.pos {m : Nat} (h : ScanEnds disc m) (ht : InodeTable disc n) (hn : 0 < n) :
    0 < m := by
  apply Nat.pos_of_ne_zero
  rintro rfl
  exact ht.live 0 hn h.stop

/-- The start that the scan computes from an inode of the table is inside that inode's chunk. -/
theorem FromTable.not_free {t : Nat} (h : FromTable disc n t) (ht : InodeTable disc n)
    (hsize : size ≠ 0) :
    ¬ Free disc n ((scanned disc t).chunkEnd.toUInt32.toUInt64 - size) size := by
  obtain ⟨⟨i, hi, hoffset⟩, hsmall⟩ := h
  have hinode : scanned disc t = tableInode disc i := by rw [scanned, hoffset, tableInode]
  have hwhole : (scanned disc t).chunkEnd.toUInt32.toUInt64 = (scanned disc t).chunkEnd := by
    rw [← UInt64.toNat_inj, UInt32.toNat_toUInt64, UInt64.toNat_toUInt32, Nat.mod_eq_of_lt hsmall]
  intro hfree
  rw [hwhole, hinode] at hfree
  have hlast : (tableInode disc i).chunkEnd - size + (size - 1) =
      (tableInode disc i).chunkaddr1 + ((tableInode disc i).chunklen - 1) := by
    unfold Inode.chunkEnd
    grind
  have hfresh := inRegion_last ((tableInode disc i).chunkEnd - size) hsize
  rw [hlast] at hfresh
  exact hfree _ hfresh (Or.inl ⟨i, hi, inRegion_last _ (ht.live i hi)⟩)

/-- `getIS` finds room when there are no inodes. With inodes it does not, unless it takes its mark from
a record that is none of them, or from an inode whose end its mark cannot hold: then it is the cut
record that decides. -/
theorem getIS_free_cases (ht : InodeTable disc n) (hsize : size ≠ 0) :
    (n = 0 → FindsFree disc n size) ∧ (FindsFree disc n size → n = 0 ∨ StrayTop disc n) := by
  constructor
  · rintro rfl
    refine ⟨_, getIS_ok.mpr ⟨0, ht.scanEnds_zero, rfl⟩, fun q _ hlive => ?_⟩
    rcases hlive with ⟨i, hi, -⟩ | hsector
    · exact absurd hi (Nat.not_lt_zero i)
    · omega
  · rintro ⟨start, hok, hfree⟩
    obtain ⟨m, hm, rfl⟩ := getIS_ok.mp hok
    by_cases hn : n = 0
    · exact Or.inl hn
    · obtain ⟨t, htop⟩ := exists_tops disc (hm.pos ht (Nat.pos_of_ne_zero hn))
      rw [htop.mark_eq] at hfree
      exact Or.inr ⟨m, t, hm, htop, fun hfrom => hfrom.not_free ht hsize hfree⟩

/-- A table of one to eight inodes whose ends fit into 32 bits: `getIS` never finds room. -/
theorem getIS_few_not_free (ht : InodeTable disc n) (hsize : size ≠ 0) (hn : 0 < n) (h8 : n ≤ 8)
    (hends : ∀ i < n, (tableInode disc i).chunkEnd.toNat < 4294967296) :
    ¬ FindsFree disc n size := by
  rintro ⟨start, hok, hfree⟩
  obtain ⟨m, hm, rfl⟩ := getIS_ok.mp hok
  obtain ⟨t, htop⟩ := exists_tops disc (hm.pos ht hn)
  have hmn : m ≤ n := by
    by_contra hlt
    exact hm.passed n (by omega) (ht.stop h8)
  have htn : t < n := Nat.lt_of_lt_of_le htop.seen hmn
  have hoffset := recordOffset_first (Nat.lt_of_lt_of_le htn h8)
  have hfrom : FromTable disc n t := by
    refine ⟨⟨t, htn, hoffset⟩, ?_⟩
    rw [scanned, hoffset]
    exact hends t htn
  rw [htop.mark_eq] at hfree
  exact hfrom.not_free ht hsize hfree

/-- One inode, whose chunk is sector 1. -/
def oneInode : Disc := fun b => if b = 0 ∨ b = 8 then 1 else 0

theorem oneInode_table : InodeTable oneInode 1 where
  live := by decide
  last := by decide

theorem getIS_free_cases_oneInode : FindsFree (fun _ => 0) 0 1 ∧
    (FindsFree oneInode 1 1 → 1 = 0 ∨ StrayTop oneInode 1) := by
  have hempty : InodeTable (fun _ => 0) 0 := ⟨fun i hi => absurd hi (Nat.not_lt_zero i), fun _ _ => rfl⟩
  exact ⟨(getIS_free_cases hempty (by decide)).1 rfl,
    (getIS_free_cases oneInode_table (by decide)).2⟩

/-- The region that `getIS` returns is the chunk of the only file. -/
theorem getIS_not_free : ¬ ∀ (disc : Disc) (n : Nat) (size : UInt64), InodeTable disc n →
    size ≠ 0 → FindsFree disc n size := by
  intro h
  exact getIS_few_not_free oneInode_table (by decide) (by decide) (by decide) (by decide)
    (h oneInode 1 1 oneInode_table (by decide))

end UnnamedOS.Files
