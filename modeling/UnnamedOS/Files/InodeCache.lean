import UnnamedOS.Files.Inodes
import UnnamedOS.Lib.Run

/-!
# What the inode cache returns

The cache keeps the inodes that it has read. It agrees with the disc as long as `mkFile` writes to
none of them.
-/

namespace UnnamedOS.Files

open UnnamedOS.Lib

/-- The index of a vnode in bytes is an `int`. -/
def Indexable (id : UInt64) : Prop := sizeofVnode * id.toNat < 2147483648

instance (id : UInt64) : Decidable (Indexable id) :=
  inferInstanceAs (Decidable (sizeofVnode * id.toNat < 2147483648))

namespace Cache

variable {c : Cache} {a : List UInt8} {id : UInt64} {i j : Nat}

/-- The vnode exists. -/
def Holds (c : Cache) (i : Nat) : Prop :=
  i < c.capacity ∧ c.kINb (sizeofVnode * i + 80) ≠ 0

/-- The bytes of the inode in a vnode. -/
def inodeAt (c : Cache) (i : Nat) : List UInt8 := stretch c.kINb (sizeofVnode * i) sizeofInode

/-- Nothing has been written behind the last whole vnode. -/
def Clean (c : Cache) : Prop := ∀ k, sizeofVnode * c.capacity ≤ k → c.kINb k = 0

theorem capacity_le (c : Cache) : sizeofVnode * c.capacity ≤ c.kINb_sz * 4096 :=
  Nat.mul_div_le _ _

/-- The copy brings over everything that a clean array has. -/
theorem Clean.grow_kINb (h : c.Clean) : c.grow.kINb = c.kINb := by
  funext k
  show overwrite (fun _ => 0) 0 (stretch c.kINb 0 (c.kINb_sz * 4096)) k = c.kINb k
  by_cases hk : k < c.kINb_sz * 4096
  · have hlen : k < (stretch c.kINb 0 (c.kINb_sz * 4096)).length := by rwa [length_stretch]
    have hin : overwrite (fun _ => 0) 0 (stretch c.kINb 0 (c.kINb_sz * 4096)) (0 + k) = _ :=
      overwrite_add hlen
    rw [Nat.zero_add] at hin
    rw [hin, getElem_stretch, Nat.zero_add]
  · rw [overwrite_of_ge (by rw [length_stretch]; omega)]
    exact (h k (by have := c.capacity_le; omega)).symm

theorem capacity_grow (c : Cache) : c.capacity ≤ c.grow.capacity := by
  apply Nat.div_le_div_right
  show c.kINb_sz * 4096 ≤ (c.kINb_sz * 2 + 1) * 4096
  omega

theorem Clean.grow (h : c.Clean) : c.grow.Clean := by
  intro k hk
  rw [h.grow_kINb]
  exact h k (Nat.le_trans (Nat.mul_le_mul_left _ c.capacity_grow) hk)

theorem growFor_spec (rounds i : Nat) (h : c.Clean) :
    (growFor rounds c i).Clean ∧ (growFor rounds c i).kINb = c.kINb ∧
      c.capacity ≤ (growFor rounds c i).capacity := by
  induction rounds generalizing c with
  | zero => exact ⟨h, rfl, Nat.le_refl _⟩
  | succ rounds ih =>
      rw [growFor]
      split
      · obtain ⟨hclean, hbytes, hcap⟩ := ih h.grow
        exact ⟨hclean, hbytes.trans h.grow_kINb, Nat.le_trans c.capacity_grow hcap⟩
      · exact ⟨h, rfl, Nat.le_refl _⟩

/-- Each round doubles `kINb_sz + 1`, and a page has room for 46 vnodes. -/
theorem growFor_room (rounds : Nat) (h : i + 46 < 46 * (2 ^ rounds * (c.kINb_sz + 1))) :
    i < (growFor rounds c i).capacity := by
  induction rounds generalizing c with
  | zero =>
      rw [growFor, capacity, sizeofVnode]
      omega
  | succ rounds ih =>
      rw [growFor]
      split
      · apply ih
        show i + 46 < 46 * (2 ^ rounds * (c.kINb_sz * 2 + 1 + 1))
        have hdouble : 2 * (c.kINb_sz + 1) = c.kINb_sz * 2 + 1 + 1 := by omega
        rwa [Nat.pow_succ, Nat.mul_assoc, hdouble] at h
      · omega

theorem growFor_power (rounds i : Nat) (c : Cache) :
    ∃ g, (growFor rounds c i).kINb_sz + 1 = 2 ^ g * (c.kINb_sz + 1) := by
  induction rounds generalizing c with
  | zero => exact ⟨0, (Nat.one_mul _).symm⟩
  | succ rounds ih =>
      rw [growFor]
      split
      · obtain ⟨g, hg⟩ := ih c.grow
        refine ⟨g + 1, hg.trans ?_⟩
        change 2 ^ g * (c.kINb_sz * 2 + 1 + 1) = _
        rw [Nat.pow_succ, Nat.mul_assoc]
        congr 1
        omega
      · exact ⟨0, (Nat.one_mul _).symm⟩

theorem kINb_ad_size {c' : Cache} (h : c.kINb_ad a id = .ok c') :
    c'.kINb_sz = (growFor 52 c id.toNat).kINb_sz := by
  obtain ⟨M, -, hlast⟩ := bind_ok h
  obtain rfl := Except.ok.inj hlast
  split
  · rfl
  · rfl

theorem product_eq {s : Nat} (hs : 0 < s) (h : s * id.toNat < 2147483648) :
    product s id = .ok (s * id.toNat) := by
  have hid : id.toNat < 2147483648 := Nat.lt_of_le_of_lt (Nat.le_mul_of_pos_left _ hs) h
  have hnarrow : id.toUInt32.toNat = id.toNat := by
    rw [UInt64.toNat_toUInt32, Nat.mod_eq_of_lt (by omega)]
  rw [product, hnarrow, if_pos h]

/-- The index that `kINb_gb` computes. -/
theorem index_eq (h : Indexable id) :
    id.toUInt32.toNat = id.toNat ∧ (88 * id.toUInt32).toNat = sizeofVnode * id.toNat := by
  have h' : 88 * id.toNat < 2147483648 := h
  have hnarrow : id.toUInt32.toNat = id.toNat := by
    rw [UInt64.toNat_toUInt32, Nat.mod_eq_of_lt (by omega)]
  refine ⟨hnarrow, ?_⟩
  rw [UInt32.toNat_mul, hnarrow]
  show 88 * id.toNat % 4294967296 = 88 * id.toNat
  omega

theorem kINb_gb_of_holds (hid : Indexable id) (h : c.Holds id.toNat) :
    c.kINb_gb id.toUInt32 = some (c.inodeAt id.toNat) := by
  obtain ⟨hnarrow, hindex⟩ := index_eq hid
  rw [kINb_gb, hnarrow, hindex, if_neg (by have := h.1; omega), if_neg h.2]
  rfl

theorem kINb_gb_of_not_holds (hid : Indexable id) (h : ¬ c.Holds id.toNat) :
    c.kINb_gb id.toUInt32 = none := by
  obtain ⟨hnarrow, hindex⟩ := index_eq hid
  rw [kINb_gb, hnarrow, hindex]
  by_cases hcap : c.capacity ≤ id.toNat
  · exact if_pos hcap
  · have hflag : c.kINb (sizeofVnode * id.toNat + 80) = 0 := by
      by_contra hne
      exact h ⟨by omega, hne⟩
    rw [if_neg hcap, if_pos hflag]

/-- Two memories that agree on a vnode hold the same. -/
theorem inodeAt_congr {c' : Cache}
    (h : ∀ k, sizeofVnode * j ≤ k → k < sizeofVnode * j + sizeofInode → c'.kINb k = c.kINb k) :
    c'.inodeAt j = c.inodeAt j := by
  apply stretch_congr
  intro k hk
  exact h _ (Nat.le_add_right _ _) (by omega)

/-- What `kINb_ad` and `kINb_invalidate` leave of the other vnodes. -/
structure Differs (c c' : Cache) (i : Nat) : Prop where
  holds : ∀ j, j ≠ i → c'.Holds j → c.Holds j
  same : ∀ j, j ≠ i → c'.inodeAt j = c.inodeAt j

theorem length_vnodeTail : (vnodeTail id).length = 17 := by
  simp only [vnodeTail, List.length_append, length_toBytes, List.length_singleton]

/-- A new vnode does not reach its neighbours. -/
theorem overwrite_vnode {m : Nat → UInt8} {k : Nat} (ha : a.length = sizeofInode)
    (hk : k < sizeofVnode * i ∨ sizeofVnode * (i + 1) ≤ k) :
    overwrite (overwrite m (sizeofVnode * i + 64) (vnodeTail id)) (sizeofVnode * i) a k = m k := by
  unfold sizeofVnode sizeofInode at *
  rcases hk with hk | hk
  · rw [overwrite_of_lt hk, overwrite_of_lt (by omega)]
  · rw [overwrite_of_ge (by omega), overwrite_of_ge (by rw [length_vnodeTail]; omega)]

theorem kINb_ad_spec (h : c.Clean) (hid : Indexable id) (ha : a.length = sizeofInode)
    (hnew : ¬ c.Holds id.toNat) :
    ∃ c', c.kINb_ad a id = .ok c' ∧ c'.Clean ∧ c'.Holds id.toNat ∧ c'.inodeAt id.toNat = a ∧
      Differs c c' id.toNat := by
  have hid' : 88 * id.toNat < 2147483648 := hid
  obtain ⟨hclean, hbytes, hmono⟩ := growFor_spec 52 id.toNat h
  have hroom := growFor_room 52 (c := c) (i := id.toNat) (by omega)
  obtain ⟨grown, hgrown⟩ : ∃ grown, grown = growFor 52 c id.toNat := ⟨_, rfl⟩
  rw [← hgrown] at hclean hbytes hmono hroom
  have hflag : grown.kINb (sizeofVnode * id.toNat + 80) = 0 := by
    rw [hbytes]
    by_cases hcap : id.toNat < c.capacity
    · by_contra hne
      exact hnew ⟨hcap, hne⟩
    · exact h _ (Nat.le_trans (Nat.mul_le_mul_left _ (Nat.not_lt.mp hcap)) (Nat.le_add_right _ _))
  have hold : ∀ j, grown.Holds j → c.Holds j := by
    intro j hj
    by_cases hcap : j < c.capacity
    · exact ⟨hcap, by rw [← hbytes]; exact hj.2⟩
    · refine absurd ?_ hj.2
      rw [hbytes]
      exact h _ (Nat.le_trans (Nat.mul_le_mul_left _ (Nat.not_lt.mp hcap)) (Nat.le_add_right _ _))
  obtain ⟨filled, hfilled⟩ : ∃ filled, filled = overwrite
      (overwrite grown.kINb (sizeofVnode * id.toNat + 64) (vnodeTail id))
      (sizeofVnode * id.toNat) a := ⟨_, rfl⟩
  have houtside : ∀ k, k < sizeofVnode * id.toNat ∨ sizeofVnode * (id.toNat + 1) ≤ k →
      filled k = c.kINb k := by
    intro k hk
    rw [hfilled, overwrite_vnode ha hk, hbytes]
  refine ⟨{ grown with kINb := filled }, ?_, fun k hk => ?_, ⟨hroom, ?_⟩, ?_, fun j hj hholds => ?_,
    fun j hj => inodeAt_congr fun k hk hk' => houtside k ?_⟩
  · rw [kINb_ad, ← hgrown, product_eq (by decide) hid, hfilled]
    simp only [bind, Except.bind, pure, Except.pure, if_pos hflag]
  · have hafter : sizeofVnode * (id.toNat + 1) ≤ k :=
      Nat.le_trans (Nat.mul_le_mul_left _ hroom) hk
    rw [← hclean k hk, hbytes]
    exact houtside k (Or.inr hafter)
  · have hlast : overwrite grown.kINb (sizeofVnode * id.toNat + 64) (vnodeTail id)
        (sizeofVnode * id.toNat + 64 + 16) = 1 := by
      rw [overwrite_add (by rw [length_vnodeTail]; decide)]
      simp [vnodeTail, length_toBytes]
    show filled (sizeofVnode * id.toNat + 80) ≠ 0
    rw [hfilled, overwrite_of_ge (by rw [ha]; unfold sizeofInode; omega), hlast]
    decide
  · apply List.ext_getElem
    · rw [inodeAt, length_stretch, ha]
    · intro k hk hk'
      simp only [inodeAt, getElem_stretch, hfilled]
      exact overwrite_add hk'
  · have hsame := houtside (sizeofVnode * j + 80) (by unfold sizeofVnode; omega)
    refine hold j ⟨hholds.1, ?_⟩
    rw [hbytes, ← hsame]
    exact hholds.2
  · unfold sizeofVnode sizeofInode at *
    omega

theorem kINb_invalidate_spec (h : c.Clean) (id : UInt64) :
    (c.kINb_invalidate id).Clean ∧ ¬ (c.kINb_invalidate id).Holds id.toNat ∧
      Differs c (c.kINb_invalidate id) id.toNat := by
  rw [kINb_invalidate]
  split
  · rename_i hcap
    exact ⟨h, fun hholds => absurd hholds.1 (by omega), fun j _ hj => hj, fun j _ => rfl⟩
  · rename_i hcap
    have houtside : ∀ k, k < sizeofVnode * id.toNat ∨ sizeofVnode * (id.toNat + 1) ≤ k →
        overwrite c.kINb (sizeofVnode * id.toNat) (List.replicate sizeofVnode 0) k = c.kINb k := by
      intro k hk
      rcases hk with hk | hk
      · exact overwrite_of_lt hk
      · exact overwrite_of_ge (by rw [List.length_replicate]; exact hk)
    refine ⟨fun k hk => ?_, fun hholds => hholds.2 ?_, fun j hj hholds => ?_, fun j hj => ?_⟩
    · have hafter : sizeofVnode * (id.toNat + 1) ≤ k :=
        Nat.le_trans (Nat.mul_le_mul_left _ (Nat.not_le.mp hcap)) hk
      exact (houtside k (Or.inr hafter)).trans (h k hk)
    · show overwrite c.kINb _ (List.replicate sizeofVnode 0) (sizeofVnode * id.toNat + 80) = 0
      rw [overwrite_add (by rw [List.length_replicate]; decide), List.getElem_replicate]
    · have hsame := houtside (sizeofVnode * j + 80) (by unfold sizeofVnode; omega)
      refine ⟨hholds.1, ?_⟩
      rw [← hsame]
      exact hholds.2
    · apply inodeAt_congr
      intro k hk hk'
      apply houtside
      unfold sizeofVnode sizeofInode at *
      omega

end Cache

/-! ## Agreement with the disc -/

/-- The bytes that the disc holds for an inode. -/
def slotBytes (disc : Disc) (i : Nat) : List UInt8 := stretch disc (sizeofInode * i) sizeofInode

structure Agrees (v : Volume) : Prop where
  clean : v.cache.Clean
  same : ∀ i, v.cache.Holds i → v.cache.inodeAt i = slotBytes v.disc i

variable {v v' : Volume} {id start disk : UInt64} {length : UInt16} {b : Nat}

theorem agrees_null (disc : Disc) : Agrees { disc, cache := .null } where
  clean := fun _ _ => rfl
  same := by
    intro i h
    have hnone : i < 0 * 4096 / sizeofVnode := h.1
    rw [Nat.zero_mul, Nat.zero_div] at hnone
    exact absurd hnone (Nat.not_lt_zero i)

/-- `GrabInode` reads an inode once and keeps it. -/
theorem GrabInode_spec (h : Agrees v) {id : UInt64} (hid : Indexable id) :
    ∃ v', GrabInode v id = .ok (slotBytes v.disc id.toNat, v') ∧ v'.disc = v.disc ∧ Agrees v' ∧
      v'.cache.Holds id.toNat ∧ ∀ i, i ≠ id.toNat → v'.cache.Holds i → v.cache.Holds i := by
  have hid' : 88 * id.toNat < 2147483648 := hid
  unfold GrabInode
  by_cases hheld : v.cache.Holds id.toNat
  · rw [Cache.kINb_gb_of_holds hid hheld, h.same _ hheld]
    exact ⟨v, rfl, rfl, h, hheld, fun i _ hi => hi⟩
  · have hoffset : (UInt64.ofNat (sizeofInode * id.toNat)).toNat = sizeofInode * id.toNat := by
      apply UInt64.toNat_ofNat_of_lt'
      show 60 * id.toNat < 18446744073709551616
      omega
    have hread : readPLUS v.disc (.ofNat (sizeofInode * id.toNat)) 60 0 =
        .ok (slotBytes v.disc id.toNat) := by
      rw [readPLUS_eq, hoffset]
      · rfl
      · show _ % 512 + 60 < 65024
        omega
      · rw [hoffset]
        show 60 * id.toNat + 60 < 1099511627776
        omega
    have hlen : (slotBytes v.disc id.toNat).length = sizeofInode := length_stretch
    have hproduct : product sizeofInode id = .ok (sizeofInode * id.toNat) :=
      Cache.product_eq (by decide) (show 60 * id.toNat < 2147483648 by omega)
    obtain ⟨cache, had, hclean, hholds, hnew, hdiff⟩ :=
      Cache.kINb_ad_spec h.clean hid hlen hheld
    rw [Cache.kINb_gb_of_not_holds hid hheld, hproduct]
    refine ⟨{ v with cache }, ?_, rfl, ⟨hclean, fun i hi => ?_⟩, hholds, hdiff.holds⟩
    · show (readPLUS v.disc (.ofNat (sizeofInode * id.toNat)) 60 0 >>= _) = _
      rw [hread]
      show (v.cache.kINb_ad (slotBytes v.disc id.toNat) id >>= _) = _
      rw [had]
      rfl
    · by_cases heq : i = id.toNat
      · rw [heq]
        exact hnew
      · exact (hdiff.same i heq).trans (h.same i (hdiff.holds i heq hi))

/-! ## What `mkFile` writes -/

/-- The bytes from `first` on, `n` of them. -/
def Within (first n b : Nat) : Prop := first ≤ b ∧ b < first + n

/-- A byte of the slot, of the data, or of a directory that `mkFile` adds to. -/
def Written (v : Volume) (length : UInt16) (disk : UInt64) (links : List Vnode) (b : Nat) : Prop :=
  (∃ id, getI v.disc disk = .ok id ∧ Within (sizeofInode * id.toNat) sizeofInode b) ∨
    (∃ start, getIS v.disc disk (sectorsOf length) = .ok start ∧
      Within (512 * start.toNat) length.toNat b) ∨
    ∃ dir ∈ links, Within (512 * dir.a.chunkaddr1.toNat) (dir.a.chunklen <<< 9).toUInt16.toNat b

theorem overwrite_outside {memory : Nat → UInt8} {a n : Nat} {bytes : List UInt8}
    (hlen : bytes.length ≤ n) (h : ¬ Within a n b) : overwrite memory a bytes b = memory b := by
  by_cases hlt : b < a
  · exact overwrite_of_lt hlt
  · refine overwrite_of_ge ?_
    by_contra hin
    exact h ⟨by omega, by omega⟩

theorem getIFrom_lt {todo i : Nat} (hi : i + todo ≤ 35791395)
    (h : getIFrom v.disc disk todo i = .ok id) : id.toNat < 35791395 := by
  induction todo generalizing i with
  | zero => cases h
  | succ todo ih =>
      rw [getIFrom] at h
      obtain ⟨bytes, -, hnext⟩ := bind_ok h
      split at hnext
      · obtain rfl := Except.ok.inj hnext
        rw [UInt64.toNat_ofNat_of_lt' (show i < 18446744073709551616 by omega)]
        omega
      · exact ih (by omega) hnext

/-- `getI` returns the first slot that has no chunk. -/
theorem getIFrom_eq {disc : Disc} {todo i n : Nat} (hin : i ≤ n) (hn : n < i + todo)
    (hrange : i + todo ≤ 35791395) (hused : ∀ j, i ≤ j → j < n → (tableInode disc j).chunklen ≠ 0)
    (hfree : (tableInode disc n).chunklen = 0) :
    getIFrom disc 0 todo i = .ok (.ofNat n) := by
  induction todo generalizing i with
  | zero => omega
  | succ todo ih =>
      have hoffset : (UInt64.ofNat (sizeofInode * i)).toNat = sizeofInode * i := by
        apply UInt64.toNat_ofNat_of_lt'
        show 60 * i < 18446744073709551616
        omega
      have hread : readPLUS disc (.ofNat (sizeofInode * i)) 60 0 =
          .ok (stretch disc (sizeofInode * i) sizeofInode) := by
        rw [readPLUS_eq, hoffset]
        · rfl
        · show _ % 512 + 60 < 65024
          omega
        · rw [hoffset]
          show 60 * i + 60 < 1099511627776
          omega
      have hslot : Inode.ofPacked (stretch disc (sizeofInode * i) sizeofInode) = tableInode disc i :=
        rfl
      simp only [getIFrom, hread, bind, Except.bind, pure, Except.pure, hslot]
      by_cases heq : i = n
      · rw [heq, if_pos hfree]
      · rw [if_neg (hused i (Nat.le_refl i) (by omega))]
        exact ih (by omega) (by omega) (by omega) (fun j hj => hused j (by omega))

theorem writeIN_eq {disc : Disc} {a : Inode} (hid : id.toNat < 35791395) :
    writeIN disc a 0 id = .ok (overwrite disc (sizeofInode * id.toNat) a.packed) := by
  have hoffset : (id * 60).toNat = sizeofInode * id.toNat := by
    rw [UInt64.toNat_mul]
    show id.toNat * 60 % 18446744073709551616 = 60 * id.toNat
    omega
  rw [writeIN, writePLUS_eq (length_packed a), hoffset]
  · show _ % 512 + 60 < 65024
    omega
  · rw [hoffset]
    show 60 * id.toNat + 60 < 1099511627776
    omega

theorem writeIN_ok {disc disc' : Disc} {a : Inode} (hid : id.toNat < 35791395)
    (h : writeIN disc a disk id = .ok disc') :
    disk = 0 ∧ disc' = overwrite disc (sizeofInode * id.toNat) a.packed := by
  have hdisk : disk = 0 := by
    unfold writeIN writePLUS at h
    obtain ⟨buffer2, -, hwrite⟩ := bind_ok h
    obtain ⟨written, hwritten, -⟩ := bind_ok hwrite
    exact (write_ok hwritten).1
  rw [hdisk, writeIN_eq hid] at h
  exact ⟨hdisk, (Except.ok.inj h).symm⟩

theorem mkFileAt_eq {data name : List UInt8} {perms : UInt16} {links : List Vnode}
    (hid : id.toNat < 35791395) (hlen : 512 ∣ length.toNat) :
    mkFileAt start id v data length 0 name perms links =
      (links.foldlM (fun v dir => addtoD v dir id) { v with
        disc := overwrite (overwrite v.disc (sizeofInode * id.toNat)
          (newInode start length name perms).packed) (512 * start.toNat) (data.take length.toNat) } >>=
      fun v => pure ({ a := newInode start length name perms, id, disk := 0 }, v)) := by
  simp only [mkFileAt, writeIN_eq hid, write_eq hlen, bind, Except.bind]

theorem mkFile_eq {data name : List UInt8} {perms : UInt16} {links : List Vnode}
    (hstart : getIS v.disc disk (sectorsOf length) = .ok start)
    (hid : getI v.disc disk = .ok id) :
    mkFile v data length disk name perms links =
      mkFileAt start id v data length disk name perms links := by
  simp only [mkFile, hstart, hid, bind, Except.bind]

/-- `addtoD` writes the directory and forgets its inode. -/
theorem addtoD_ok {dir : Vnode} {toadd : UInt64} (h : addtoD v dir toadd = .ok v') :
    v'.cache = v.cache.kINb_invalidate dir.id ∧
      ∀ b, ¬ Within (512 * dir.a.chunkaddr1.toNat) (dir.a.chunklen <<< 9).toUInt16.toNat b →
        v'.disc b = v.disc b := by
  unfold addtoD at h
  obtain ⟨list, -, hwrite⟩ := bind_ok h
  obtain ⟨disc, hdisc, hlast⟩ := bind_ok hwrite
  obtain rfl := Except.ok.inj hlast
  obtain ⟨-, rfl⟩ := write_ok hdisc
  refine ⟨rfl, fun b hb => ?_⟩
  exact overwrite_outside (by rw [List.length_take]; omega) hb

/-- What a step may do to a volume: lose vnodes, and change the bytes of `W` on the disc. -/
structure Keeps (W : Nat → Prop) (v v' : Volume) : Prop where
  disc : ∀ b, ¬ W b → v'.disc b = v.disc b
  clean : v.cache.Clean → v'.cache.Clean
  holds : v.cache.Clean → ∀ i, v'.cache.Holds i →
    v.cache.Holds i ∧ v'.cache.inodeAt i = v.cache.inodeAt i

theorem links_keep {links : List Vnode} {toadd : UInt64}
    (h : links.foldlM (fun v dir => addtoD v dir toadd) v = .ok v') :
    Keeps (fun b => ∃ dir ∈ links, Within (512 * dir.a.chunkaddr1.toNat)
      (dir.a.chunklen <<< 9).toUInt16.toNat b) v v' := by
  induction links generalizing v with
  | nil =>
      obtain rfl := Except.ok.inj h
      exact ⟨fun b _ => rfl, fun hclean => hclean, fun _ i hi => ⟨hi, rfl⟩⟩
  | cons dir links ih =>
      rw [List.foldlM_cons] at h
      obtain ⟨w, hadd, hrest⟩ := bind_ok h
      obtain ⟨hcache, hdisc⟩ := addtoD_ok hadd
      have hkeep := ih hrest
      have hinvalidate := fun hclean => Cache.kINb_invalidate_spec (c := v.cache) hclean dir.id
      rw [← hcache] at hinvalidate
      refine ⟨fun b hb => ?_, fun hclean => hkeep.clean (hinvalidate hclean).1,
        fun hclean i hi => ?_⟩
      · rw [hkeep.disc b (fun ⟨d, hd, hin⟩ => hb ⟨d, List.mem_cons_of_mem _ hd, hin⟩)]
        exact hdisc b (fun hin => hb ⟨dir, List.mem_cons_self, hin⟩)
      · obtain ⟨hclean', hgone, hdiff⟩ := hinvalidate hclean
        obtain ⟨hholds, hsame⟩ := hkeep.holds hclean' i hi
        have hne : i ≠ dir.id.toNat := by
          rintro rfl
          exact hgone hholds
        exact ⟨hdiff.holds i hne hholds, hsame.trans (hdiff.same i hne)⟩

theorem mkFile_keeps {data name : List UInt8} {perms : UInt16} {links : List Vnode} {cons : Vnode}
    (h : mkFile v data length disk name perms links = .ok (cons, v')) :
    Keeps (Written v length disk links) v v' := by
  unfold mkFile at h
  obtain ⟨start, hstart, h1⟩ := bind_ok h
  obtain ⟨id, hid, h2⟩ := bind_ok h1
  unfold mkFileAt at h2
  obtain ⟨disc1, hdisc1, h3⟩ := bind_ok h2
  obtain ⟨disc2, hdisc2, h4⟩ := bind_ok h3
  obtain ⟨w, hw, h5⟩ := bind_ok h4
  obtain ⟨-, rfl⟩ := Prod.mk.inj (Except.ok.inj h5)
  obtain ⟨-, rfl⟩ := writeIN_ok (getIFrom_lt (Nat.le_refl _) hid) hdisc1
  obtain ⟨-, rfl⟩ := write_ok hdisc2
  have hkeep := links_keep hw
  refine ⟨fun b hb => ?_, hkeep.clean, hkeep.holds⟩
  rw [hkeep.disc b (fun hdir => hb (Or.inr (Or.inr hdir)))]
  have hdata : ¬ Within (512 * start.toNat) length.toNat b :=
    fun hin => hb (Or.inr (Or.inl ⟨start, hstart, hin⟩))
  have hslot : ¬ Within (sizeofInode * id.toNat) sizeofInode b :=
    fun hin => hb (Or.inl ⟨id, hid, hin⟩)
  show overwrite (overwrite v.disc _ _) _ _ b = v.disc b
  rw [overwrite_outside (by rw [List.length_take]; omega) hdata,
    overwrite_outside (by rw [length_packed]) hslot]

/-! ## Runs -/

inductive VolumeOp where
  | grabInode (id : UInt64)
  | mkFile (data : List UInt8) (length : UInt16) (disk : UInt64) (name : List UInt8)
      (perms : UInt16) (links : List Vnode)

def VolumeOp.step (v : Volume) : VolumeOp → Volume → Prop
  | .grabInode id, v' => ∃ a, GrabInode v id = .ok (a, v')
  | .mkFile data length disk name perms links, v' =>
    ∃ cons, Files.mkFile v data length disk name perms links = .ok (cons, v')

/-- The index is an `int`, and `mkFile` writes to no inode that the cache holds. -/
def Spares (v : Volume) : VolumeOp → Prop
  | .grabInode id => Indexable id
  | .mkFile _ length disk _ _ links => ∀ i, v.cache.Holds i →
    ∀ b, Within (sizeofInode * i) sizeofInode b → ¬ Written v length disk links b

/-- `GrabInode` returns what the disc holds for the inode at this moment. -/
def Transparent (v : Volume) (id : UInt64) : Prop :=
  ∃ v', GrabInode v id = .ok (slotBytes v.disc id.toNat, v')

theorem slotBytes_congr {disc disc' : Disc} {i : Nat}
    (h : ∀ b, Within (sizeofInode * i) sizeofInode b → disc' b = disc b) :
    slotBytes disc' i = slotBytes disc i := by
  apply stretch_congr
  intro k hk
  exact h _ ⟨Nat.le_add_right _ _, by omega⟩

theorem agrees_step {op : VolumeOp} (h : Agrees v) (hop : Spares v op) (hs : op.step v v') :
    Agrees v' := by
  cases op with
  | grabInode id =>
      obtain ⟨a, ha⟩ := hs
      obtain ⟨w, hw, -, hagrees, -⟩ := GrabInode_spec h hop
      rw [hw] at ha
      obtain ⟨-, rfl⟩ := Prod.mk.inj (Except.ok.inj ha)
      exact hagrees
  | mkFile data length disk name perms links =>
      obtain ⟨cons, hcons⟩ := hs
      have hkeep := mkFile_keeps hcons
      refine ⟨hkeep.clean h.clean, fun i hi => ?_⟩
      obtain ⟨hheld, hsame⟩ := hkeep.holds h.clean i hi
      rw [hsame, h.same i hheld]
      exact (slotBytes_congr fun b hb => hkeep.disc b (hop i hheld b hb)).symm

theorem oneInode_getI : getI oneInode 0 = .ok 1 := by
  have hused : ∀ j, 0 ≤ j → j < 1 → (tableInode oneInode j).chunklen ≠ 0 :=
    fun j _ hj => oneInode_table.live j hj
  exact getIFrom_eq (Nat.zero_le 1) (by decide) (by decide) hused (by decide)

theorem oneInode_getIS : getIS oneInode 0 1 = .ok 1 :=
  getIS_ok.mpr ⟨1, ⟨by decide, by decide, by decide⟩, by decide⟩

/-- A file of one sector goes into slot 1 of `oneInode`. -/
theorem oneInode_mkFile (hdisc : v.disc = oneInode) : Files.mkFile v [] 512 0 [0x61] 0 [] =
    .ok ({ a := newInode 1 512 [0x61] 0, id := 1, disk := 0 },
      { v with disc := overwrite (overwrite v.disc 60 (newInode 1 512 [0x61] 0).packed) 512 [] }) := by
  rw [mkFile_eq (by rw [hdisc]; exact oneInode_getIS) (by rw [hdisc]; exact oneInode_getI),
    mkFileAt_eq (by decide) (by decide)]
  rfl

theorem oneInode_written (hdisc : v.disc = oneInode) {b : Nat} (h : Written v 512 0 [] b) :
    60 ≤ b := by
  rw [Written, hdisc] at h
  obtain ⟨id, hid, hin⟩ | ⟨start, hstart, hin⟩ | ⟨dir, hdir, -⟩ := h
  · obtain rfl : 1 = id := Except.ok.inj (oneInode_getI.symm.trans hid)
    exact hin.1
  · obtain rfl : 1 = start := Except.ok.inj (oneInode_getIS.symm.trans hstart)
    exact Nat.le_trans (by decide) hin.1
  · cases hdir

/-- As long as `mkFile` takes no slot that has been read before, and writes nothing over one, the
cache cannot be told from the disc. -/
theorem cache_transparent {disc : Disc} {ops : List VolumeOp}
    (h : Run (Guarded Spares fun v op v' => op.step v v') { disc, cache := .null } ops v)
    (hid : Indexable id) : Transparent v id := by
  have hagrees : Agrees v := run_invariant (fun _ _ _ => agrees_step) h (agrees_null disc)
  obtain ⟨v', hgrab, -⟩ := GrabInode_spec hagrees hid
  exact ⟨v', hgrab⟩

/-- Inode 0 is read, a file is made in slot 1, and then both are read. -/
theorem cache_transparent_oneInode : ∃ v w,
    Run (fun v op v' => VolumeOp.step v op v') { disc := oneInode, cache := .null }
        [.grabInode 0, .mkFile [] 512 0 [0x61] 0 [], .grabInode 1] v ∧
      VolumeOp.step v (.grabInode 0) w ∧ Transparent w 0 ∧ Transparent w 1 := by
  have hzero : Indexable 0 := by decide
  have hone : Indexable 1 := by decide
  obtain ⟨v, hgrab, hdisc, hagrees, -, hkept⟩ := GrabInode_spec (agrees_null oneInode) hzero
  have hmake := oneInode_mkFile hdisc
  have hspares : Spares v (.mkFile [] 512 0 [0x61] 0 []) := by
    intro i hi b hb hwritten
    have hempty : ¬ Cache.null.Holds i := by
      rintro ⟨hroom, -⟩
      simp [Cache.capacity, Cache.null] at hroom
    obtain rfl : i = 0 := by
      by_contra hne
      exact hempty (hkept i hne hi)
    have hfirst := oneInode_written hdisc hwritten
    have hlast : b < 60 := hb.2
    omega
  have hagrees' := agrees_step hagrees hspares ⟨_, hmake⟩
  obtain ⟨v', hgrab', -, hagrees'', -, -⟩ := GrabInode_spec hagrees' hone
  obtain ⟨w, hagain, -⟩ := GrabInode_spec hagrees'' hzero
  have hrun : Run (Guarded Spares fun v op v' => VolumeOp.step v op v')
      { disc := oneInode, cache := .null }
      [.grabInode 0, .mkFile [] 512 0 [0x61] 0 [], .grabInode 1, .grabInode 0] w :=
    Run.cons ⟨hzero, _, hgrab⟩ (Run.cons ⟨hspares, _, hmake⟩ (Run.cons ⟨hone, _, hgrab'⟩
      (Run.cons ⟨hzero, _, hagain⟩ (Run.nil _))))
  exact ⟨v', w, Run.cons ⟨_, hgrab⟩ (Run.cons ⟨_, hmake⟩ (Run.cons ⟨_, hgrab'⟩ (Run.nil _))),
    ⟨_, hagain⟩, cache_transparent hrun hzero, cache_transparent hrun hone⟩

/-- Inode 1 is read while its slot is free, and is not read again after `mkFile` has taken it. -/
theorem stale_inode : ∃ v, Run (fun v op v' => VolumeOp.step v op v')
    { disc := oneInode, cache := .null } [.grabInode 1, .mkFile [] 512 0 [0x61] 0 []] v ∧
      ¬ Transparent v 1 := by
  obtain ⟨v, hgrab, hdisc, hagrees, hheld, -⟩ := GrabInode_spec (agrees_null oneInode)
    (show Indexable 1 by decide)
  have hmake := oneInode_mkFile hdisc
  refine ⟨_, Run.cons ⟨_, hgrab⟩ (Run.cons ⟨_, hmake⟩ (Run.nil _)), ?_⟩
  rintro ⟨w, hw⟩
  simp only [GrabInode, Cache.kINb_gb_of_holds (by decide) hheld, hagrees.same _ hheld, hdisc] at hw
  have hbytes := congrArg (fun bytes => bytes[8]?) (Prod.mk.inj (Except.ok.inj hw)).1
  revert hbytes
  decide

end UnnamedOS.Files
