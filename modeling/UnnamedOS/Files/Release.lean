import UnnamedOS.Files.Holdings

/-!
# Every call gives back what it took

A lookup gives back everything but the inode on one of its ways out only: when it has found the file
in the directory that it started from, or in one below. What the inode cache grows by is kept, and an
array that grows twice in a call leaves one behind.
-/

namespace UnnamedOS.Files

open UnnamedOS.Lib

variable {A : Allocator} {s s' s'' : Store} {l : Holdings} {id : UInt64} {a name : List UInt8}
  {v' : Volume} {g h k n m : Nat}

/-! ## One allocation -/

theorem malloc_fresh (A : Allocator) (l : Holdings) : (l.malloc A).1 ∉ l.blocks :=
  A.block_fresh l.time l.blocks

theorem free_of_mem {ptr : Nat} (h : ptr ∈ l.blocks) :
    l.free ptr = .ok { l with blocks := l.blocks.erase ptr } := if_pos h

theorem free_of_not_mem {ptr : Nat} (h : ptr ∉ l.blocks) : l.free ptr = .error (.dead ptr) := if_neg h

/-- The pages from `p` on, `k` of them. -/
abbrev pagesFrom (p k : Nat) : Finset Nat := Finset.Ico p (p + k)

theorem KPALLOCS_fresh (A : Allocator) (l : Holdings) (k : Nat) :
    Disjoint (pagesFrom (l.KPALLOCS A k).1 k) l.pages :=
  A.pages_fresh l.time l.pages k

theorem sdiff_pages {t u : Finset Nat} (h : Disjoint t u) : (u ∪ t) \ t = u := by
  rw [Finset.union_sdiff_right]
  exact Finset.sdiff_eq_self_of_disjoint h.symm

/-- The cache's array in its pages. -/
def Store.array (s : Store) : Finset Nat := pagesFrom s.kINb s.volume.cache.kINb_sz

/-- The array has grown `g` times. -/
structure Grown (s s' : Store) (g : Nat) : Prop where
  size : s'.volume.cache.kINb_sz + 1 = 2 ^ g * (s.volume.cache.kINb_sz + 1)
  keeps : s.live.pages ⊆ s'.live.pages
  none : g = 0 → s'.live.pages = s.live.pages ∧ s'.kINb = s.kINb
  once : g = 1 → s'.live.pages = s.live.pages ∪ s'.array
  held : g ≠ 0 → s'.array ⊆ s'.live.pages
  apart : g ≠ 0 → Disjoint s'.array s.live.pages
  lost : 2 ≤ g → ∃ p ∈ s'.live.pages, p ∉ s.live.pages ∧ p ∉ s'.array

theorem Grown.refl (s : Store) : Grown s s 0 where
  size := (Nat.one_mul _).symm
  keeps := Finset.Subset.refl _
  none := fun _ => ⟨rfl, rfl⟩
  once := fun h => absurd h (by decide)
  held := fun h => absurd rfl h
  apart := fun h => absurd rfl h
  lost := fun h => absurd h (by decide)

/-- A change of the pages, the array and its size only goes unnoticed elsewhere. -/
theorem Grown.congr (h : Grown s s' g) (hpages : s''.live.pages = s'.live.pages)
    (hsize : s''.volume.cache.kINb_sz = s'.volume.cache.kINb_sz) (harray : s''.kINb = s'.kINb) :
    Grown s s'' g := by
  have hsame : s''.array = s'.array := by rw [Store.array, hsize, harray, Store.array]
  constructor
  · rw [hsize]
    exact h.size
  · rw [hpages]
    exact h.keeps
  · rw [hpages, harray]
    exact h.none
  · rw [hpages, hsame]
    exact h.once
  · rw [hpages, hsame]
    exact h.held
  · rw [hsame]
    exact h.apart
  · rw [hpages, hsame]
    exact h.lost

theorem Grown.same (h : Grown s s' 0) : s'.array = s.array := by
  have hsize := h.size
  rw [Nat.pow_zero, Nat.one_mul] at hsize
  rw [Store.array, Store.array, (h.none rfl).2, Nat.succ.inj hsize]

theorem Grown.trans (h₁ : Grown s s' g) (h₂ : Grown s' s'' h) : Grown s s'' (g + h) := by
  have hkeeps : s.live.pages ⊆ s''.live.pages := h₁.keeps.trans h₂.keeps
  constructor
  case size => rw [h₂.size, h₁.size, Nat.add_comm g h, Nat.pow_add, Nat.mul_assoc]
  case keeps => exact hkeeps
  case none =>
    intro h0
    obtain ⟨rfl, rfl⟩ := Nat.add_eq_zero_iff.mp h0
    obtain ⟨hp₁, ha₁⟩ := h₁.none rfl
    obtain ⟨hp₂, ha₂⟩ := h₂.none rfl
    exact ⟨hp₂.trans hp₁, ha₂.trans ha₁⟩
  case once =>
    intro h1
    rcases Nat.eq_zero_or_pos h with rfl | hpos
    · rw [(h₂.none rfl).1, h₂.same]
      exact h₁.once h1
    · obtain rfl : g = 0 := by omega
      rw [← (h₁.none rfl).1]
      exact h₂.once (by omega)
  case held =>
    intro h0
    rcases Nat.eq_zero_or_pos h with rfl | hpos
    · rw [(h₂.none rfl).1, h₂.same]
      exact h₁.held h0
    · exact h₂.held (by omega)
  case apart =>
    intro h0
    rcases Nat.eq_zero_or_pos h with rfl | hpos
    · rw [h₂.same]
      exact h₁.apart h0
    · exact Finset.disjoint_of_subset_right h₁.keeps (h₂.apart (by omega))
  case lost =>
    intro h2
    rcases Nat.lt_or_ge h 2 with hlt | hge
    · by_cases hh : h = 0
      · subst hh
        obtain ⟨p, hp, hnot, harray⟩ := h₁.lost h2
        exact ⟨p, h₂.keeps hp, hnot, by rw [h₂.same]; exact harray⟩
      · -- the array that the first part has left is the one that is lost
        have hg : g ≠ 0 := by omega
        have hsize := h₁.size
        have hpow : 2 ≤ 2 ^ g := Nat.le_self_pow hg 2
        have hpos : 0 < s'.volume.cache.kINb_sz := by
          have := Nat.mul_le_mul hpow (Nat.le_add_left 1 s.volume.cache.kINb_sz)
          omega
        have hfirst : s'.kINb ∈ s'.array := Finset.mem_Ico.mpr ⟨Nat.le_refl _, by omega⟩
        have hlive := h₁.held hg hfirst
        exact ⟨s'.kINb, h₂.keeps hlive, Finset.disjoint_left.mp (h₁.apart hg) hfirst,
          fun hin => Finset.disjoint_left.mp (h₂.apart hh) hin hlive⟩
    · obtain ⟨p, hp, hnot, harray⟩ := h₂.lost hge
      exact ⟨p, hp, fun hin => hnot (h₁.keeps hin), harray⟩

theorem Grown.size_le_iff (h : Grown s s' g) :
    s'.volume.cache.kINb_sz ≤ 2 * s.volume.cache.kINb_sz + 1 ↔ g ≤ 1 := by
  have hsize := h.size
  constructor
  · intro hle
    by_contra hg
    have hpow : 2 ^ 2 ≤ 2 ^ g := Nat.pow_le_pow_right (by decide) (by omega)
    have := Nat.mul_le_mul_right (s.volume.cache.kINb_sz + 1) hpow
    omega
  · intro hg
    obtain rfl | rfl : g = 0 ∨ g = 1 := by omega
    · omega
    · omega

/-! ## Growing the array -/

/-- The vnodes that an array of `T` pages has room for. -/
def roomOf (T : Nat) : Nat := T * 4096 / sizeofVnode

theorem roomOf_mono {T T' : Nat} (h : T ≤ T') : roomOf T ≤ roomOf T' :=
  Nat.div_le_div_right (Nat.mul_le_mul_right _ h)

/-- One round. -/
theorem grow_grown (A : Allocator) (s : Store) : Grown s
    { s with
      volume := { s.volume with cache := s.volume.cache.grow }
      live := (s.live.KPALLOCS A (s.volume.cache.kINb_sz * 2 + 1)).2
      kINb := (s.live.KPALLOCS A (s.volume.cache.kINb_sz * 2 + 1)).1 } 1 where
  size := by
    change s.volume.cache.kINb_sz * 2 + 1 + 1 = _
    omega
  keeps := Finset.subset_union_left
  none := fun h => absurd h (by decide)
  once := fun _ => rfl
  held := fun _ => Finset.subset_union_right
  apart := fun _ => KPALLOCS_fresh A s.live _
  lost := fun h => absurd h (by decide)

/-- The array has grown, and nothing else has changed. -/
structure GrewFor (s s' : Store) (cache : Cache) : Prop where
  grown : ∃ g, Grown s s' g
  disc : s'.volume.disc = s.volume.disc
  cache : s'.volume.cache = cache
  blocks : s'.live.blocks = s.live.blocks
  disk0 : s'.disk0 = s.disk0

theorem growFor_grewFor (A : Allocator) (rounds : Nat) (s : Store) (i : Nat) :
    GrewFor s (s.growFor A rounds i) (Cache.growFor rounds s.volume.cache i) := by
  induction rounds generalizing s with
  | zero => exact ⟨⟨0, Grown.refl s⟩, rfl, rfl, rfl, rfl⟩
  | succ rounds ih =>
      rw [Store.growFor, Cache.growFor]
      by_cases hcap : s.volume.cache.capacity ≤ i
      · rw [if_pos hcap, if_pos hcap]
        have hrest := ih { s with
          volume := { s.volume with cache := s.volume.cache.grow }
          live := (s.live.KPALLOCS A (s.volume.cache.kINb_sz * 2 + 1)).2
          kINb := (s.live.KPALLOCS A (s.volume.cache.kINb_sz * 2 + 1)).1 }
        obtain ⟨g, hg⟩ := hrest.grown
        exact ⟨⟨1 + g, (grow_grown A s).trans hg⟩, hrest.disc, hrest.cache, hrest.blocks,
          hrest.disk0⟩
      · rw [if_neg hcap, if_neg hcap]
        exact ⟨⟨0, Grown.refl s⟩, rfl, rfl, rfl, rfl⟩

theorem growFor_size_mono (rounds i : Nat) (c : Cache) :
    c.kINb_sz ≤ (Cache.growFor rounds c i).kINb_sz := by
  induction rounds generalizing c with
  | zero => exact Nat.le_refl _
  | succ rounds ih =>
      rw [Cache.growFor]
      split
      · have := ih c.grow
        change c.kINb_sz * 2 + 1 ≤ _ at this
        omega
      · exact Nat.le_refl _

/-- The array still has `T` pages at most, or has not grown to them, when `i` is in it then. -/
theorem growFor_size_iff {T z : Nat} (hT : T = 2 * z + 1) {c : Cache}
    (hc : c.kINb_sz = z ∨ c.kINb_sz = T)
    (rounds i : Nat) : (Cache.growFor (rounds + 2) c i).kINb_sz ≤ T ↔ i < roomOf T := by
  have hroom : c.capacity = roomOf c.kINb_sz := rfl
  have hgrow : c.grow.capacity = roomOf (c.kINb_sz * 2 + 1) := rfl
  rw [Cache.growFor, hroom]
  rcases hc with hz | hz
  · have hle : roomOf z ≤ roomOf T := roomOf_mono (by omega)
    have hnext : c.kINb_sz * 2 + 1 = T := by omega
    rw [hz]
    by_cases hcap : roomOf z ≤ i
    · rw [if_pos hcap, Cache.growFor, hgrow, hnext]
      by_cases hcap' : roomOf T ≤ i
      · rw [if_pos hcap']
        have hmono := growFor_size_mono rounds i c.grow.grow
        change (c.kINb_sz * 2 + 1) * 2 + 1 ≤ _ at hmono
        exact iff_of_false (by omega) (by omega)
      · rw [if_neg hcap']
        exact iff_of_true (Nat.le_of_eq hnext) (by omega)
    · rw [if_neg hcap]
      exact iff_of_true (by omega) (by omega)
  · rw [hz]
    by_cases hcap : roomOf T ≤ i
    · rw [if_pos hcap]
      have hmono := growFor_size_mono (rounds + 1) i c.grow
      change c.kINb_sz * 2 + 1 ≤ _ at hmono
      exact iff_of_false (by omega) (by omega)
    · rw [if_neg hcap]
      exact iff_of_true (Nat.le_of_eq hz) (by omega)

/-! ## Grabbing an inode -/

/-- An inode that the cache does not have is in the range of an array of `T` pages. -/
def Fits (T : Nat) (v : Volume) (id : UInt64) : Prop :=
  v.cache.kINb_gb id.toUInt32 = none → id.toNat < roomOf T

theorem GrabInode_size {v : Volume} {T z : Nat} (hT : T = 2 * z + 1)
    (hv : v.cache.kINb_sz = z ∨ v.cache.kINb_sz = T) (h : GrabInode v id = .ok (a, v')) :
    v'.cache.kINb_sz ≤ T ↔ Fits T v id := by
  unfold GrabInode at h
  unfold Fits
  cases hgb : v.cache.kINb_gb id.toUInt32 with
  | some a' =>
      rw [hgb] at h
      obtain ⟨rfl, rfl⟩ := Prod.mk.inj (Except.ok.inj h)
      exact iff_of_true (by omega) nofun
  | none =>
      rw [hgb] at h
      obtain ⟨m, -, h1⟩ := bind_ok h
      obtain ⟨b, -, h2⟩ := bind_ok h1
      obtain ⟨cache, had, h3⟩ := bind_ok h2
      obtain ⟨rfl, rfl⟩ := Prod.mk.inj (Except.ok.inj h3)
      change cache.kINb_sz ≤ T ↔ _
      rw [Cache.kINb_ad_size had, growFor_size_iff hT hv 50]
      exact ⟨fun hlt _ => hlt, fun hfits => hfits rfl⟩

/-- What has been grabbed is in a new block. -/
structure Grabbed (s s' : Store) (n : Nat) (v' : Volume) : Prop where
  volume : s'.volume = v'
  fresh : n ∉ s.live.blocks
  blocks : s'.live.blocks = insert n s.live.blocks
  disk0 : s'.disk0 = s.disk0
  grown : ∃ g, Grown s s' g

theorem withDisk0_of_some (hd : s.disk0 ≠ none) : s.withDisk0 A = s := by
  unfold Store.withDisk0
  cases hdisk : s.disk0 with
  | none => exact absurd hdisk hd
  | some d => rfl

/-- The buffer of an inode has one page. -/
theorem bufferPages_pos {m : Nat} (hm : m < 2147483648) :
    0 < bufferPages (UInt64.ofNat m >>> 9).toUInt32 ((UInt64.ofNat m + 60) >>> 9).toUInt32 := by
  have hoffset : (UInt64.ofNat m).toNat = m := UInt64.toNat_ofNat_of_lt' (Nat.lt_trans hm (by decide))
  have hsize : (60 : UInt64).toNat = 60 := rfl
  have hspans : Spans (2 ^ 31) (.ofNat m) 60 :=
    ⟨by rw [hoffset, hsize]; omega, by rw [hoffset, hsize]; omega⟩
  obtain ⟨len, hspan⟩ := hspans.spanOf (Nat.le_refl _)
  have hroom := hspan.room
  have hpages := hspan.pages
  rw [hsize] at hroom
  omega

/-- The buffer pages are given back, and the block is kept. -/
theorem readPLUS_grabbed (A : Allocator) (hd : s.disk0 ≠ none) {offset size drive : UInt64}
    (hpos : 0 < bufferPages (offset >>> 9).toUInt32 ((offset + size) >>> 9).toUInt32)
    (h : readPLUS s.volume.disc offset size drive = .ok a) :
    ∃ n s', s.readPLUS A offset size drive = .ok (a, n, s') ∧ Grabbed s s' n s.volume ∧
      Grown s s' 0 ∧ s'.kINb = s.kINb := by
  generalize hcount : (bufferPages (offset >>> 9).toUInt32
    ((offset + size) >>> 9).toUInt32).toNat = count
  have hfree : ((s.live.KPALLOCS A count).2.malloc A).2.P_FREES (s.live.KPALLOCS A count).1 count =
      .ok { ((s.live.KPALLOCS A count).2.malloc A).2 with
        pages := (s.live.pages ∪ pagesFrom (s.live.KPALLOCS A count).1 count) \
          pagesFrom (s.live.KPALLOCS A count).1 count } := by
    rw [Holdings.P_FREES, if_neg (by omega)]
    exact if_pos Finset.subset_union_right
  rw [sdiff_pages (KPALLOCS_fresh A s.live count)] at hfree
  refine ⟨((s.live.KPALLOCS A count).2.malloc A).1, { s with
      live := { ((s.live.KPALLOCS A count).2.malloc A).2 with pages := s.live.pages } }, ?_,
    ⟨rfl, malloc_fresh A (s.live.KPALLOCS A count).2, rfl, rfl, 0, ?_⟩, ?_, rfl⟩
  · simp only [Store.readPLUS, withDisk0_of_some hd, hcount, unpriced, h, Except.mapError, bind,
      Except.bind, hfree, pure, Except.pure]
  · exact (Grown.refl s).congr rfl rfl rfl
  · exact (Grown.refl s).congr rfl rfl rfl

theorem readPLUS_halt (hd : s.disk0 ≠ none) {offset size drive : UInt64} {e : Halt}
    (h : readPLUS s.volume.disc offset size drive = .error e) :
    s.readPLUS A offset size drive = .error (.halt e) := by
  simp only [Store.readPLUS, withDisk0_of_some hd, unpriced, h, Except.mapError, bind, Except.bind]

theorem product_lt {k m : Nat} (h : product k id = .ok m) : m < 2147483648 := by
  unfold product at h
  split at h
  · rename_i hlt
    rwa [← Except.ok.inj h]
  · cases h

theorem GrabInode_grabbed (A : Allocator) (hd : s.disk0 ≠ none)
    (h : GrabInode s.volume id = .ok (a, v')) :
    ∃ n s', s.GrabInode A id = .ok (a, n, s') ∧ Grabbed s s' n v' := by
  unfold GrabInode at h
  unfold Store.GrabInode
  cases hgb : s.volume.cache.kINb_gb id.toUInt32 with
  | some a' =>
      rw [hgb] at h
      obtain ⟨rfl, rfl⟩ := Prod.mk.inj (Except.ok.inj h)
      exact ⟨_, _, rfl, rfl, malloc_fresh A s.live, rfl, rfl, 0, (Grown.refl s).congr rfl rfl rfl⟩
  | none =>
      rw [hgb] at h
      obtain ⟨m, hm, h1⟩ := bind_ok h
      obtain ⟨b, hb, h2⟩ := bind_ok h1
      obtain ⟨cache, had, h3⟩ := bind_ok h2
      obtain ⟨rfl, rfl⟩ := Prod.mk.inj (Except.ok.inj h3)
      obtain ⟨n, s₁, hread, hgrab, hzero, harray⟩ := readPLUS_grabbed A hd
        (bufferPages_pos (product_lt hm)) hb
      have hgrew := growFor_grewFor A 52 s₁ id.toNat
      obtain ⟨g, hg⟩ := hgrew.grown
      rw [← hgrab.volume] at had
      have hsize : cache.kINb_sz = (s₁.growFor A 52 id.toNat).volume.cache.kINb_sz := by
        rw [Cache.kINb_ad_size had, hgrew.cache]
      refine ⟨n, { s₁.growFor A 52 id.toNat with
        volume := { (s₁.growFor A 52 id.toNat).volume with cache } }, ?_, ?_, hgrab.fresh, ?_, ?_, ?_⟩
      · simp only [unpriced, hm, Except.mapError, bind, Except.bind, hread, had, pure, Except.pure]
      · change Volume.mk (s₁.growFor A 52 id.toNat).volume.disc cache = _
        rw [hgrew.disc, hgrab.volume]
      · exact hgrew.blocks.trans hgrab.blocks
      · exact hgrew.disk0.trans hgrab.disk0
      · exact ⟨0 + g, hzero.trans (hg.congr rfl hsize rfl)⟩

theorem GrabInode_halt (hd : s.disk0 ≠ none) {e : Halt}
    (h : GrabInode s.volume id = .error e) : s.GrabInode A id = .error (.halt e) := by
  unfold GrabInode at h
  unfold Store.GrabInode
  cases hgb : s.volume.cache.kINb_gb id.toUInt32 with
  | some a' =>
      rw [hgb] at h
      cases h
  | none =>
      rw [hgb] at h
      dsimp only at h ⊢
      cases hm : product sizeofInode id with
      | error e' =>
          rw [hm] at h
          obtain rfl := Except.error.inj h
          rfl
      | ok m =>
          rw [hm] at h
          change (readPLUS s.volume.disc (.ofNat m) 60 0 >>= _) = _ at h
          change (s.readPLUS A (.ofNat m) 60 0 >>= _) = _
          cases hb : readPLUS s.volume.disc (.ofNat m) 60 0 with
          | error e' =>
              rw [hb] at h
              obtain rfl := Except.error.inj h
              rw [readPLUS_halt hd hb]
              rfl
          | ok b =>
              obtain ⟨n, s₁, hread, hgrab, -, -⟩ :=
                readPLUS_grabbed A hd (bufferPages_pos (product_lt hm)) hb
              rw [hb] at h
              rw [hread]
              change (s.volume.cache.kINb_ad b id >>= _) = _ at h
              change (unpriced (s₁.volume.cache.kINb_ad b id) >>= _) = _
              rw [hgrab.volume]
              cases had : s.volume.cache.kINb_ad b id with
              | error e' =>
                  rw [had] at h
                  obtain rfl := Except.error.inj h
                  rfl
              | ok cache =>
                  rw [had] at h
                  cases h

/-! ## Searching -/

/-- The array of one volume has grown into that of the other. -/
def SizeGrown (v v' : Volume) : Prop := ∃ g, v'.cache.kINb_sz + 1 = 2 ^ g * (v.cache.kINb_sz + 1)

theorem SizeGrown.trans {v v₁ : Volume} (h : SizeGrown v v₁) (h' : SizeGrown v₁ v') :
    SizeGrown v v' := by
  obtain ⟨g, hg⟩ := h
  obtain ⟨k, hk⟩ := h'
  exact ⟨k + g, by rw [hk, hg, Nat.pow_add, Nat.mul_assoc]⟩

theorem SizeGrown.mono {v : Volume} (h : SizeGrown v v') :
    v.cache.kINb_sz ≤ v'.cache.kINb_sz := by
  obtain ⟨g, hg⟩ := h
  have := Nat.le_mul_of_pos_left (v.cache.kINb_sz + 1) (Nat.two_pow_pos g)
  omega

/-- An array that has grown to `T` pages at most has grown once or not at all. -/
theorem SizeGrown.small {v : Volume} {T z : Nat} (h : SizeGrown v v') (hT : T = 2 * z + 1)
    (hv : v.cache.kINb_sz = z ∨ v.cache.kINb_sz = T) (hle : v'.cache.kINb_sz ≤ T) :
    v'.cache.kINb_sz = z ∨ v'.cache.kINb_sz = T := by
  obtain ⟨g, hg⟩ := h
  rcases Nat.lt_or_ge g 2 with hlt | hge
  · obtain rfl | rfl : g = 0 ∨ g = 1 := by omega
    · omega
    · omega
  · have hpow : 2 ^ 2 ≤ 2 ^ g := Nat.pow_le_pow_right (by decide) hge
    have := Nat.mul_le_mul_right (v.cache.kINb_sz + 1) hpow
    omega

theorem GrabInode_sizeGrown {v : Volume} (h : GrabInode v id = .ok (a, v')) : SizeGrown v v' := by
  unfold GrabInode at h
  cases hgb : v.cache.kINb_gb id.toUInt32 with
  | some a' =>
      rw [hgb] at h
      obtain ⟨rfl, rfl⟩ := Prod.mk.inj (Except.ok.inj h)
      exact ⟨0, (Nat.one_mul _).symm⟩
  | none =>
      rw [hgb] at h
      obtain ⟨m, -, h1⟩ := bind_ok h
      obtain ⟨b, -, h2⟩ := bind_ok h1
      obtain ⟨cache, had, h3⟩ := bind_ok h2
      obtain ⟨rfl, rfl⟩ := Prod.mk.inj (Except.ok.inj h3)
      obtain ⟨g, hg⟩ := Cache.growFor_power 52 id.toNat v.cache
      exact ⟨g, by change cache.kINb_sz + 1 = _; rw [Cache.kINb_ad_size had, hg]⟩

/-- The comparison of a search. -/
abbrev Named (a name : List UInt8) : Prop := strcmp (Inode.ofPacked a).name.toList name = 0

/-- One step of a search. -/
theorem searchIds_cons {v : Volume} {ids : List UInt64} (name : List UInt8)
    (h : GrabInode v id = .ok (a, v')) :
    searchIds v name (id :: ids) =
      if Named a name then .ok (some a, v') else searchIds v' name ids := by
  simp only [searchIds, h, bind, Except.bind, pure, Except.pure]

theorem searchIds_halt {v : Volume} {ids : List UInt64} {e : Halt} (name : List UInt8)
    (h : GrabInode v id = .error e) : searchIds v name (id :: ids) = .error e := by
  simp only [searchIds, h, bind, Except.bind]

/-- All inodes that a search reads from the disc are in the range of an array of `T` pages. -/
def Grabs (T : Nat) (name : List UInt8) : Volume → List UInt64 → Prop
  | _, [] => True
  | v, id :: ids => Fits T v id ∧
    ∀ a v', GrabInode v id = .ok (a, v') → ¬ Named a name → Grabs T name v' ids

theorem searchIds_sizeGrown {v : Volume} {ids : List UInt64} {r : Option (List UInt8)}
    (h : searchIds v name ids = .ok (r, v')) : SizeGrown v v' := by
  induction ids generalizing v with
  | nil =>
      obtain ⟨-, rfl⟩ := Prod.mk.inj (Except.ok.inj h)
      exact ⟨0, (Nat.one_mul _).symm⟩
  | cons id ids ih =>
      cases hgrab : GrabInode v id with
      | error e =>
          rw [searchIds_halt name hgrab] at h
          cases h
      | ok grabbed =>
          obtain ⟨a, v₁⟩ := grabbed
          rw [searchIds_cons name hgrab] at h
          have hgrown := GrabInode_sizeGrown hgrab
          by_cases hname : Named a name
          · rw [if_pos hname] at h
            obtain ⟨-, rfl⟩ := Prod.mk.inj (Except.ok.inj h)
            exact hgrown
          · rw [if_neg hname] at h
            exact hgrown.trans (ih h)

theorem searchIds_size {v : Volume} {T z : Nat} {ids : List UInt64} {r : Option (List UInt8)}
    (hT : T = 2 * z + 1) (hv : v.cache.kINb_sz = z ∨ v.cache.kINb_sz = T)
    (h : searchIds v name ids = .ok (r, v')) :
    v'.cache.kINb_sz ≤ T ↔ Grabs T name v ids := by
  induction ids generalizing v with
  | nil =>
      obtain ⟨-, rfl⟩ := Prod.mk.inj (Except.ok.inj h)
      exact iff_of_true (by omega) trivial
  | cons id ids ih =>
      cases hgrab : GrabInode v id with
      | error e =>
          rw [searchIds_halt name hgrab] at h
          cases h
      | ok grabbed =>
          obtain ⟨a, v₁⟩ := grabbed
          rw [searchIds_cons name hgrab] at h
          have hgrown := GrabInode_sizeGrown hgrab
          have hfits := GrabInode_size hT hv hgrab
          by_cases hname : Named a name
          · rw [if_pos hname] at h
            obtain ⟨-, rfl⟩ := Prod.mk.inj (Except.ok.inj h)
            refine hfits.trans ⟨fun hf => ⟨hf, fun a' v₂ h' hne => ?_⟩, fun hg => hg.1⟩
            obtain ⟨rfl, -⟩ := Prod.mk.inj (Except.ok.inj (hgrab.symm.trans h'))
            exact absurd hname hne
          · rw [if_neg hname] at h
            constructor
            · intro hle
              have hle₁ := Nat.le_trans (searchIds_sizeGrown h).mono hle
              refine ⟨hfits.mp hle₁, fun a' v₂ h' _ => ?_⟩
              obtain ⟨rfl, rfl⟩ := Prod.mk.inj (Except.ok.inj (hgrab.symm.trans h'))
              exact (ih (hgrown.small hT hv hle₁) h).mp hle
            · rintro ⟨hf, hrest⟩
              have hle := hfits.mpr hf
              exact (ih (hgrown.small hT hv hle) h).mpr (hrest a v₁ hgrab hname)

/-! ## The two loops over ids -/

/-- Like `Grabbed`, but nothing is kept. -/
structure Passed (s s' : Store) (v' : Volume) : Prop where
  volume : s'.volume = v'
  blocks : s'.live.blocks = s.live.blocks
  disk0 : s'.disk0 = s.disk0
  grown : ∃ g, Grown s s' g

theorem Passed.trans_grabbed {v : Volume} (h : Passed s s' v) (h' : Grabbed s' s'' n v') :
    Grabbed s s'' n v' := by
  obtain ⟨g, hg⟩ := h.grown
  obtain ⟨k, hk⟩ := h'.grown
  refine ⟨h'.volume, ?_, ?_, h'.disk0.trans h.disk0, g + k, hg.trans hk⟩
  · rw [← h.blocks]
    exact h'.fresh
  · rw [h'.blocks, h.blocks]

/-- What has been grabbed is freed. -/
theorem Grabbed.freed (h : Grabbed s s' n v') :
    s'.live.free n = .ok { s'.live with blocks := s'.live.blocks.erase n } ∧
      Passed s { s' with live := { s'.live with blocks := s'.live.blocks.erase n } } v' := by
  obtain ⟨g, hg⟩ := h.grown
  have hmem : n ∈ s'.live.blocks := by
    rw [h.blocks]
    exact Finset.mem_insert_self n _
  refine ⟨free_of_mem hmem, h.volume, ?_, h.disk0, g, hg.congr rfl rfl rfl⟩
  change s'.live.blocks.erase n = s.live.blocks
  rw [h.blocks, Finset.erase_insert h.fresh]

/-- The outcome of a search in the values and in the blocks. -/
inductive Searched (s : Store) : Except Halt (Option (List UInt8) × Volume) →
    Except Fault (Option (List UInt8 × Nat) × Store) → Prop
  | halt (e : Halt) : Searched s (.error e) (.error (.halt e))
  | found {s' : Store} {a : List UInt8} {n : Nat} {v' : Volume} (h : Grabbed s s' n v') :
      Searched s (.ok (some a, v')) (.ok (some (a, n), s'))
  | missed {s' : Store} {v' : Volume} (hvolume : s'.volume = v') (hgrown : ∃ g, Grown s s' g) :
      Searched s (.ok (none, v')) (.ok (none, s'))

theorem Searched.after {v : Volume} {x : Except Halt (Option (List UInt8) × Volume)}
    {y : Except Fault (Option (List UInt8 × Nat) × Store)} (h : Passed s s' v)
    (hs : Searched s' x y) : Searched s x y := by
  cases hs with
  | halt e => exact .halt e
  | found hgrab => exact .found (h.trans_grabbed hgrab)
  | missed hvolume hgrown =>
      obtain ⟨g, hg⟩ := h.grown
      obtain ⟨k, hk⟩ := hgrown
      exact .missed hvolume ⟨g + k, hg.trans hk⟩

theorem searchLast_searched (A : Allocator) (name : List UInt8) (ids : List UInt64)
    (hd : s.disk0 ≠ none) :
    Searched s (searchIds s.volume name ids) (s.searchLast A name ids) := by
  induction ids generalizing s with
  | nil => exact .missed rfl ⟨0, Grown.refl s⟩
  | cons id ids ih =>
      rw [Store.searchLast]
      cases hgrab : GrabInode s.volume id with
      | error e =>
          rw [searchIds_halt name hgrab, GrabInode_halt hd hgrab]
          exact .halt e
      | ok grabbed =>
          obtain ⟨a, v₁⟩ := grabbed
          obtain ⟨n, s₁, hgrab₁, hkept⟩ := GrabInode_grabbed A hd hgrab
          obtain ⟨hfree, hpassed⟩ := hkept.freed
          rw [searchIds_cons name hgrab, hgrab₁]
          by_cases hname : Named a name
          · rw [if_pos hname]
            simp only [bind, Except.bind, if_pos hname]
            exact .found hkept
          · rw [if_neg hname]
            simp only [bind, Except.bind, if_neg hname, hfree]
            have hrest := ih (s := { s₁ with
              live := { s₁.live with blocks := s₁.live.blocks.erase n } })
              (by rw [hpassed.disk0]; exact hd)
            have hvolume : v₁ = s₁.volume := hpassed.volume.symm
            rw [hvolume]
            exact hrest.after hpassed

theorem freeNonNull_ok {n : Option Nat} {s₀ : Store} (h : s.freeNonNull n = .ok s₀) :
    s₀.volume = s.volume ∧ s₀.disk0 = s.disk0 ∧ Grown s₀ s 0 := by
  cases n with
  | none =>
      obtain rfl := Except.ok.inj h
      exact ⟨rfl, rfl, Grown.refl s⟩
  | some n =>
      obtain ⟨live, hfree, hlast⟩ : ∃ live, s.live.free n = .ok live ∧ { s with live } = s₀ := by
        rw [Store.freeNonNull] at h
        cases hfree : s.live.free n with
        | error f =>
            rw [hfree] at h
            cases h
        | ok live =>
            rw [hfree] at h
            exact ⟨live, rfl, Except.ok.inj h⟩
      rw [← hlast]
      unfold Holdings.free at hfree
      split at hfree
      · obtain rfl := Except.ok.inj hfree
        exact ⟨rfl, rfl, (Grown.refl _).congr rfl rfl rfl⟩
      · cases hfree

/-- The loop on the way starts with the freeing of what `n` still points to. -/
theorem searchDirectory_searched (A : Allocator) (name : List UInt8) (ids : List UInt64)
    {n : Option Nat} {s₀ : Store} (hd : s.disk0 ≠ none) (hfree : s.freeNonNull n = .ok s₀) :
    Searched s₀ (searchIds s.volume name ids) (s.searchDirectory A name ids n) := by
  induction ids generalizing s n s₀ with
  | nil => exact .missed rfl ⟨0, (freeNonNull_ok hfree).2.2⟩
  | cons id ids ih =>
      obtain ⟨hvolume, hdisk, -⟩ := freeNonNull_ok hfree
      have hd₀ : s₀.disk0 ≠ none := by rw [hdisk]; exact hd
      rw [Store.searchDirectory, hfree, ← hvolume]
      cases hgrab : GrabInode s₀.volume id with
      | error e =>
          rw [searchIds_halt name hgrab]
          simp only [bind, Except.bind, GrabInode_halt hd₀ hgrab]
          exact .halt e
      | ok grabbed =>
          obtain ⟨a, v₁⟩ := grabbed
          obtain ⟨n₁, s₁, hgrab₁, hkept⟩ := GrabInode_grabbed A hd₀ hgrab
          obtain ⟨hfree₁, hpassed⟩ := hkept.freed
          rw [searchIds_cons name hgrab]
          simp only [bind, Except.bind, hgrab₁]
          by_cases hname : Named a name
          · rw [if_pos hname, if_pos hname]
            exact .found hkept
          · rw [if_neg hname, if_neg hname]
            have hnext : s₁.freeNonNull (some n₁) = .ok { s₁ with
                live := { s₁.live with blocks := s₁.live.blocks.erase n₁ } } := by
              simp only [Store.freeNonNull, hfree₁, bind, Except.bind, pure, Except.pure]
            have hrest := ih (s := s₁) (by rw [hkept.disk0]; exact hd₀) hnext
            have hvolume₁ : v₁ = s₁.volume := hkept.volume.symm
            rw [hvolume₁]
            exact hrest.after hpassed

end UnnamedOS.Files
