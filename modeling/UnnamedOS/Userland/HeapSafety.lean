import UnnamedOS.Lib.Run
import UnnamedOS.Userland.HeapLayout

/-!
# Safety of the user heap

A program calls `malloc`, `free` and `realloc`, and stores into its blocks. Every request is below
2^31 bytes, also the one that `realloc` makes.
-/

namespace UnnamedOS.Userland

open UnnamedOS.Lib

variable {base : Nat} {h h' : Heap} {live : List Block} {cap : UInt64 → Option Nat}
  {lists : Fin 4 → List UInt64} {b : Block} {n k p : UInt64}

/-! ## `malloc` -/

theorem toNat_lt_of_not_large (h : ¬ n > 4096) : n.toNat ≤ 4096 := by
  rw [gt_iff_lt, UInt64.lt_iff_toNat_lt] at h
  exact Nat.le_of_not_lt h

/-- A block has room for what was asked for. -/
theorem size_le_capacity (n : UInt64) : n.toNat ≤ capacity n := by
  rw [capacity]
  split
  · exact Nat.le_refl _
  · rename_i hsmall
    have h4096 := toNat_lt_of_not_large hsmall
    rw [bucketFor]
    split
    · split
      · exact h4096
      · rename_i h512
        rw [gt_iff_lt, UInt64.lt_iff_toNat_lt] at h512
        exact Nat.le_of_not_lt h512
    · rename_i h64
      rw [gt_iff_lt, UInt64.lt_iff_toNat_lt] at h64
      split
      · exact Nat.le_of_not_lt h64
      · rename_i h8
        rw [gt_iff_lt, UInt64.lt_iff_toNat_lt] at h8
        exact Nat.le_of_not_lt h8

theorem capacity_small (hsmall : ¬ n > 4096) : capacity n = (bucketBytes (bucketFor n)).toNat :=
  if_neg hsmall

theorem capacity_large (hlarge : n > 4096) : capacity n = n.toNat := if_pos hlarge

theorem bucketBytes_le (s : Fin 4) : (bucketBytes s).toNat ≤ 4096 := by
  revert s
  decide

/-- The end of a block with `size` bytes above the old end, as `malloc` computes it. -/
theorem sbrk_block {size : UInt64} {r : UInt64 × Heap} (hsize : size.toNat < 2147483648)
    (hr : sbrk h (size + 16) = some r) :
    (r.1 - size).toNat = h.brk.toNat + 16 ∧ r.1.toNat = (r.1 - size).toNat + size.toNat ∧
      r.2 = { h with brk := r.1 } := by
  rw [sbrk] at hr
  split at hr
  · rename_i hroom
    obtain rfl := Option.some.inj hr
    have hask : (size + 16).toNat = size.toNat + 16 := by
      rw [UInt64.toNat_add]
      show (size.toNat + 16) % 18446744073709551616 = size.toNat + 16
      omega
    have htop : (h.brk + (size + 16)).toNat = h.brk.toNat + (size.toNat + 16) := by
      rw [UInt64.toNat_add, hask, Nat.mod_eq_of_lt (by rw [hask] at hroom; exact hroom)]
    have hk : (h.brk + (size + 16) - size).toNat = h.brk.toNat + 16 := by
      rw [toNat_sub_const _ (by omega), htop]
      omega
    exact ⟨hk, by rw [hk, htop]; omega, rfl⟩
  · cases hr

/-- The header of a block that is about to become live. -/
theorem Layout.setHeader (L : Layout base h live cap lists) (hcap : cap k = some (capacity n))
    (hlive : k ∉ live.map Block.ptr) (hlists : ∀ s, k ∉ lists s) :
    Layout base { h with mem := Userland.setHeader h.mem k n (bucketCode n) } (⟨k, n⟩ :: live)
        cap lists ∧
      Only h.mem (Userland.setHeader h.mem k n (bucketCode n)) k (capacity n) := by
  have honly : Only h.mem (Userland.setHeader h.mem k n (bucketCode n)) k (capacity n) :=
    only_setHeader (L.ptr_ge hcap)
  refine ⟨?_, honly⟩
  apply (L.write hcap hlive hlists honly).add (b := ⟨k, n⟩) hcap
  · exact code_setHeader
  · exact recorded_setHeader (L.ptr_ge hcap)
  · exact hlive
  · exact hlists

theorem takeBlock_spec (L : Layout base h live cap lists) {s : Fin 4} {r : UInt64 × Heap}
    (hr : takeBlock h s = some r) :
    ∃ cap' lists', Layout base r.2 live cap' lists' ∧ cap' r.1 = some (bucketBytes s).toNat ∧
      r.1 ∉ live.map Block.ptr ∧ (∀ t, r.1 ∉ lists' t) ∧ r.2.mem = h.mem := by
  rw [takeBlock] at hr
  split at hr
  · rename_i hhead
    obtain rfl := Option.some.inj hr
    have hchain := L.chain s
    rw [Layout.pointer_ne_zero hhead] at hchain
    obtain ⟨rest, hlist, -⟩ := chain_some.mp hchain
    have hmem : h.malloc_bucket s ∈ lists s := by rw [hlist]; exact List.mem_cons_self
    exact ⟨cap, _, L.pop hlist, L.list_cap s _ hmem, L.not_live s _ hmem,
      L.pop_not_listed hlist, rfl⟩
  · obtain ⟨r', hr', rfl⟩ := Option.map_eq_some_iff.mp hr
    have hbytes := bucketBytes_le s
    obtain ⟨hk, htop, hheap⟩ := sbrk_block (by omega) hr'
    obtain ⟨L', hlive, hlists⟩ := L.carve hk htop
    rw [hheap]
    exact ⟨_, lists, L', Function.update_self .., hlive, hlists, rfl⟩

theorem malloc_spec (L : Layout base h live cap lists) (hn : n.toNat < 2147483648)
    (hm : malloc h n = some (k, h')) :
    ∃ cap' lists', Layout base h' (⟨k, n⟩ :: live) cap' lists' ∧
      Only h.mem h'.mem k (capacity n) := by
  rw [malloc] at hm
  split at hm
  · rename_i hlarge
    obtain ⟨r, hr, hres⟩ := Option.map_eq_some_iff.mp hm
    obtain ⟨rfl, rfl⟩ := Prod.mk.inj hres
    obtain ⟨hk, htop, hheap⟩ := sbrk_block hn hr
    obtain ⟨L', hlive, hlists⟩ := L.carve hk htop
    have hcode : bucketCode n = 4 := if_pos hlarge
    have hdone := L'.setHeader (n := n) (by rw [Function.update_self, capacity_large hlarge])
      hlive hlists
    rw [hcode] at hdone
    rw [hheap]
    exact ⟨_, _, hdone⟩
  · rename_i hsmall
    obtain ⟨r, hr, hres⟩ := Option.map_eq_some_iff.mp hm
    obtain ⟨rfl, rfl⟩ := Prod.mk.inj hres
    obtain ⟨cap', lists', L', hcap, hlive, hlists, hmem⟩ := takeBlock_spec L hr
    have hcode : bucketCode n = .ofNat (bucketFor n).val := if_neg hsmall
    have hdone := L'.setHeader (n := n) (by rw [hcap, capacity_small hsmall]) hlive hlists
    rw [hcode] at hdone
    refine ⟨cap', lists', hdone.1, ?_⟩
    rw [← hmem]
    exact hdone.2

theorem malloc_isSome (hn : n.toNat < 2147483648)
    (hroom : h.brk.toNat + n.toNat + 4112 < 18446744073709551616) : (malloc h n).isSome := by
  have hask : ∀ size : UInt64, size.toNat < 2147483648 → (size + 16).toNat = size.toNat + 16 := by
    intro size hsize
    rw [UInt64.toNat_add]
    show (size.toNat + 16) % 18446744073709551616 = size.toNat + 16
    omega
  rw [malloc]
  split
  · rw [Option.isSome_map, sbrk, if_pos (by rw [hask n hn]; omega)]
    rfl
  · rw [Option.isSome_map, takeBlock]
    have hbytes := bucketBytes_le (bucketFor n)
    split
    · rfl
    · rw [Option.isSome_map, sbrk, if_pos (by rw [hask _ (by omega)]; omega)]
      rfl

/-! ## `free` -/

/-- The counter of `free` stays an `int` for a block below 2^31 bytes. -/
theorem breakDown_some {todo size i : Nat} (hsize : size < 2147483648)
    (htodo : size < i + todo + 1) : breakDown (todo + 1) size i = some () := by
  induction todo generalizing i with
  | zero => rw [breakDown, if_neg (by omega)]
  | succ todo ih =>
      rw [breakDown]
      split
      · rw [if_pos (by omega)]
        exact ih (by omega)
      · rfl

theorem only_store_link {x : UInt64} (hp : 16 ≤ p.toNat) :
    Only h.mem (store64 h.mem (p - 8) x) p 0 := by
  have hoffset : (p - 8).toNat = p.toNat - 8 := toNat_sub_const p (Nat.le_trans (by decide) hp)
  intro y hy
  rw [store64, hoffset]
  rcases hy with hy | hy
  · exact overwrite_of_lt (by omega)
  · exact overwrite_of_ge (by rw [length_toBytes]; omega)

theorem Only.mono {mem mem' : Nat → UInt8} {c d : Nat} (h : Only mem mem' p c) (hcd : c ≤ d) :
    Only mem mem' p d := fun x hx => h x (by omega)

/-- `free` serves every live block and writes at most its link. -/
theorem free_spec (L : Layout base h live cap lists) (hb : b ∈ live)
    (hsize : b.size.toNat < 2147483648) :
    ∃ h' lists', free h b.ptr = some h' ∧ Layout base h' (live.erase b) cap lists' ∧
      Only h.mem h'.mem b.ptr 0 := by
  obtain ⟨L', hgone⟩ := L.drop hb
  have hcap := L.live_cap b hb
  rw [free]
  simp only [L.code b hb, L.recorded b hb]
  by_cases hlarge : b.size > 4096
  · have hcode : (bucketCode b.size).toNat = 4 := by
      rw [bucketCode, if_pos hlarge]
      rfl
    have hrecorded : b.size.toUInt32.toNat = b.size.toNat := by
      rw [UInt64.toNat_toUInt32, Nat.mod_eq_of_lt (by omega)]
    rw [if_pos hcode, hrecorded, breakDown_some hsize (by omega)]
    exact ⟨h, lists, rfl, L', fun x _ => rfl⟩
  · have hcode : (bucketCode b.size).toNat = (bucketFor b.size).val := by
      rw [bucketCode, if_neg hlarge]
      exact UInt32.toNat_ofNat_of_lt' (Nat.lt_trans (bucketFor b.size).isLt (by decide))
    have hlt := (bucketFor b.size).isLt
    have hs : (⟨(bucketCode b.size).toNat, by omega⟩ : Fin 4) = bucketFor b.size := Fin.ext hcode
    rw [capacity_small hlarge] at hcap
    have honly : Only h.mem (store64 h.mem (b.ptr - 8) (h.malloc_bucket (bucketFor b.size)))
        b.ptr 0 := only_store_link (L.ptr_ge hcap)
    have hnot : ∀ s, b.ptr ∉ lists s :=
      fun s hs => L.not_live s _ hs (List.mem_map.mpr ⟨b, hb, rfl⟩)
    have L2 := (L'.write hcap hgone hnot (honly.mono (Nat.zero_le _))).push hcap hgone
      (congrArg pointer (load64_store64 h.mem (b.ptr - 8) _))
    rw [if_neg (by omega), dif_pos (by omega), hs]
    exact ⟨_, _, rfl, L2, honly⟩

/-! ## `realloc` -/

/-- A copy between places that do not overlap. -/
theorem memcpy_spec (mem : Nat → UInt8) {a : UInt64} {m : Nat}
    (hapart : a.toNat + m ≤ k.toNat ∨ k.toNat + m ≤ a.toNat) (x : Nat) :
    memcpy mem k a m x =
      if k.toNat ≤ x ∧ x < k.toNat + m then mem (a.toNat + (x - k.toNat)) else mem x := by
  induction m generalizing x with
  | zero => rw [memcpy, if_neg (by omega)]
  | succ m ih =>
      have ih' := ih (by omega)
      rw [memcpy]
      by_cases hx : x = k.toNat + m
      · subst hx
        rw [Function.update_self, ih', if_neg (by omega), if_pos (by omega), Nat.add_sub_cancel_left]
      · rw [Function.update_of_ne hx, ih']
        by_cases hin : k.toNat ≤ x ∧ x < k.toNat + m
        · rw [if_pos hin, if_pos (by omega)]
        · rw [if_neg hin, if_neg (by omega)]

/-- The bytes of two blocks do not overlap. -/
theorem Layout.apart_bytes (L : Layout base h live cap lists) {b' : Block} (hb : b ∈ live)
    (hb' : b' ∈ live) (hne : b.ptr ≠ b'.ptr) :
    b.ptr.toNat + capacity b.size + 16 ≤ b'.ptr.toNat ∨
      b'.ptr.toNat + capacity b'.size + 16 ≤ b.ptr.toNat :=
  L.apart _ _ _ _ (L.live_cap b hb) (L.live_cap b' hb') hne

theorem Layout.same_live (L : Layout base h live cap lists) {mem mem' : Nat → UInt8} {b' : Block}
    (hb : b ∈ live) (hb' : b' ∈ live) (hne : b.ptr ≠ b'.ptr)
    (hmem : Only mem mem' b.ptr (capacity b.size)) :
    Same mem mem' b'.ptr (capacity b'.size) :=
  L.same (L.live_cap b hb) (L.live_cap b' hb') hne hmem

theorem realloc_spec (L : Layout base h live cap lists) (hb : b ∈ live)
    (hsize : b.size.toNat < 2147483648) (hn : n.toNat < 2147483648)
    (hgrow : (load32 h.mem (b.ptr - 12)).toNat ≤ n.toNat) {h1 : Heap}
    (hmalloc : malloc h n = some (k, h1)) :
    ∃ h', realloc h b.ptr n = some (k, h') ∧
      (∃ cap' lists', Layout base h' (⟨k, n⟩ :: live.erase b) cap' lists') ∧
      stretch h'.mem k.toNat b.size.toNat = stretch h.mem b.ptr.toNat b.size.toNat ∧
      ∀ b' ∈ live, b' ≠ b → Same h.mem h'.mem b'.ptr (capacity b'.size) := by
  obtain ⟨cap1, lists1, L1, honly⟩ := malloc_spec L hn hmalloc
  have hfresh : k ∉ live.map Block.ptr := (List.nodup_cons.mp L1.nodup).1
  have hne : ∀ b' ∈ live, k ≠ b'.ptr := by
    rintro b' hb' rfl
    exact hfresh (List.mem_map.mpr ⟨b', hb', rfl⟩)
  have hnew : (⟨k, n⟩ : Block) ∈ (⟨k, n⟩ : Block) :: live := List.mem_cons_self
  have hold : ∀ b' ∈ live, b' ∈ (⟨k, n⟩ : Block) :: live := fun b' => List.mem_cons_of_mem _
  have hsame1 : ∀ b' ∈ live, Same h.mem h1.mem b'.ptr (capacity b'.size) := fun b' hb' =>
    L1.same_live hnew (hold b' hb') (hne b' hb') honly
  -- the size that `free` and `memcpy` find is the one asked for
  have hrecorded : (load32 h.mem (b.ptr - 12)).toNat = b.size.toNat := by
    rw [L.recorded b hb, UInt64.toNat_toUInt32, Nat.mod_eq_of_lt (by omega)]
  have hrecorded1 : (load32 h1.mem (b.ptr - 12)).toNat = b.size.toNat := by
    rw [(hsame1 b hb).recorded (L.ptr_ge (L.live_cap b hb)), hrecorded]
  have hroom := size_le_capacity n
  have hroomb := size_le_capacity b.size
  have hapart := L1.apart_bytes hnew (hold b hb) (hne b hb)
  dsimp only at hapart
  have hcopy := memcpy_spec h1.mem (a := b.ptr) (k := k) (m := b.size.toNat) (by omega)
  have hfill : ∀ x, x < k.toNat ∨ k.toNat + capacity n ≤ x →
      memcpy h1.mem k b.ptr b.size.toNat x = h1.mem x := by
    intro x hx
    rw [hcopy, if_neg (by omega)]
  have L2 := L1.fill hnew hfill
  obtain ⟨h3, lists3, hfree, L3, hlink⟩ := free_spec L2 (hold b hb) hsize
  have hb_ne : b ≠ ⟨k, n⟩ := by
    rintro rfl
    exact hne _ hb rfl
  rw [List.erase_cons_tail (by simpa using fun he => hb_ne he.symm)] at L3
  have hrun : realloc h b.ptr n = some (k, h3) := by
    simp only [realloc, hmalloc, Option.bind_eq_bind, Option.bind_some, hrecorded1, hfree]
    rfl
  refine ⟨h3, hrun, ⟨_, _, L3⟩, ?_, fun b' hb' hbb' => ?_⟩
  · apply List.ext_getElem
    · rw [length_stretch, length_stretch]
    · intro i hi _
      rw [length_stretch] at hi
      rw [getElem_stretch, getElem_stretch, hlink _ (by omega)]
      show memcpy h1.mem k b.ptr b.size.toNat _ = _
      rw [hcopy, if_pos (by omega), Nat.add_sub_cancel_left]
      exact hsame1 b hb _ (by omega) (by omega)
  · intro x hx hx'
    have hb'_ne : b.ptr ≠ b'.ptr := fun he => hbb' (L.ptr_injective hb' hb he.symm)
    have hapart' := L1.apart_bytes hnew (hold b' hb') (hne b' hb')
    have hapartb := L.apart_bytes hb hb' hb'_ne
    dsimp only at hapart'
    rw [hlink x (by omega)]
    show memcpy h1.mem k b.ptr b.size.toNat x = _
    rw [hfill x (by omega)]
    exact hsame1 b' hb' x hx hx'

/-! ## Runs -/

/-- The heap and the blocks that the program has not given back. -/
structure Program where
  heap : Heap
  live : List Block

inductive HeapOp where
  | malloc (n : UInt64)
  | free (b : Block)
  | realloc (b : Block) (n : UInt64)
  | store (b : Block) (i : Nat) (byte : UInt8)

def HeapOp.step (s : Program) : HeapOp → Program → Prop
  | .malloc n, s' => n.toNat < 2147483648 ∧
    ∃ k heap, Userland.malloc s.heap n = some (k, heap) ∧ s' = { heap, live := ⟨k, n⟩ :: s.live }
  | .free b, s' => b ∈ s.live ∧
    ∃ heap, Userland.free s.heap b.ptr = some heap ∧ s' = { heap, live := s.live.erase b }
  | .realloc b n, s' => b ∈ s.live ∧ n.toNat < 2147483648 ∧
    (load32 s.heap.mem (b.ptr - 12)).toNat ≤ n.toNat ∧
    ∃ k heap, Userland.realloc s.heap b.ptr n = some (k, heap) ∧
      s' = { heap, live := ⟨k, n⟩ :: s.live.erase b }
  | .store b i byte, s' => b ∈ s.live ∧ i < b.size.toNat ∧
    s' = { s with heap.mem := Function.update s.heap.mem (b.ptr.toNat + i) byte }

/-- `n` bytes at `p` and `m` bytes at `q`, with their headers. -/
def Apart (p : UInt64) (n : Nat) (q : UInt64) (m : Nat) : Prop :=
  p.toNat + n + 16 ≤ q.toNat ∨ q.toNat + m + 16 ≤ p.toNat

structure HeapSafe (base : Nat) (s : Program) (lists : Fin 4 → List UInt64) : Prop where
  inside : ∀ b ∈ s.live,
    base + 16 ≤ b.ptr.toNat ∧ b.ptr.toNat + b.size.toNat ≤ s.heap.brk.toNat
  disjoint : s.live.Pairwise fun b c => Apart b.ptr b.size.toNat c.ptr c.size.toNat
  finite : ∀ t, Chain (link s.heap.mem) (pointer (s.heap.malloc_bucket t)) (lists t)
  lists_live : ∀ t, ∀ p ∈ lists t, ∀ b ∈ s.live,
    Apart p (bucketBytes t).toNat b.ptr b.size.toNat
  lists_disjoint : ∀ t, ∀ p ∈ lists t, ∀ u, ∀ q ∈ lists u, t ≠ u ∨ p ≠ q →
    Apart p (bucketBytes t).toNat q (bucketBytes u).toNat

/-- What one call does to the contents of the live blocks. -/
structure StepSafe (s : Program) (op : HeapOp) (s' : Program) : Prop where
  others : ∀ b ∈ s.live, b ∈ s'.live → (∀ i byte, op ≠ .store b i byte) →
    ∀ x, b.ptr.toNat ≤ x + 16 → x < b.ptr.toNat + b.size.toNat → s'.heap.mem x = s.heap.mem x
  copied : ∀ b n, op = .realloc b n → ∃ k, Userland.realloc s.heap b.ptr n = some (k, s'.heap) ∧
    s'.live = ⟨k, n⟩ :: s.live.erase b ∧
    stretch s'.heap.mem k.toNat b.size.toNat = stretch s.heap.mem b.ptr.toNat b.size.toNat

/-- Every call is answered when `sbrk` has room. -/
structure Served (s : Program) : Prop where
  malloc : ∀ n : UInt64, n.toNat < 2147483648 →
    s.heap.brk.toNat + n.toNat + 4112 < 18446744073709551616 → (Userland.malloc s.heap n).isSome
  free : ∀ b ∈ s.live, (Userland.free s.heap b.ptr).isSome
  realloc : ∀ b ∈ s.live, ∀ n : UInt64, n.toNat < 2147483648 →
    (load32 s.heap.mem (b.ptr - 12)).toNat ≤ n.toNat →
    s.heap.brk.toNat + n.toNat + 4112 < 18446744073709551616 →
    (Userland.realloc s.heap b.ptr n).isSome

/-- The invariant of the runs. -/
structure Inv (base : Nat) (s : Program) : Prop where
  layout : ∃ cap lists, Layout base s.heap s.live cap lists
  small : ∀ b ∈ s.live, b.size.toNat < 2147483648

variable {s s' : Program}

theorem Layout.safe (L : Layout base s.heap s.live cap lists) : HeapSafe base s lists where
  inside := by
    intro b hb
    have hin := L.inside _ _ (L.live_cap b hb)
    have hroom := size_le_capacity b.size
    omega
  disjoint := by
    refine (List.pairwise_map.mp L.nodup).imp_of_mem fun {b c} hb hc hne => ?_
    have hapart := L.apart_bytes hb hc hne
    have hroomb := size_le_capacity b.size
    have hroomc := size_le_capacity c.size
    unfold Apart
    omega
  finite := L.chain
  lists_live := by
    intro t p hp b hb
    have hne : p ≠ b.ptr := by
      rintro rfl
      exact L.not_live t _ hp (List.mem_map.mpr ⟨b, hb, rfl⟩)
    have hapart := L.apart _ _ _ _ (L.list_cap t p hp) (L.live_cap b hb) hne
    have hroom := size_le_capacity b.size
    unfold Apart
    omega
  lists_disjoint := by
    intro t p hp u q hq hdiff
    have hne : p ≠ q := by
      rintro rfl
      exact hdiff.elim (fun htu => htu (L.one_list hp hq)) (fun hpp => hpp rfl)
    exact L.apart _ _ _ _ (L.list_cap t p hp) (L.list_cap u q hq) hne

theorem inv_init (mem : Nat → UInt8) (brk : UInt64) :
    Inv brk.toNat { heap := initMalloc mem brk, live := [] } where
  layout := ⟨fun _ => none, fun _ => [], {
    start := Nat.le_refl _
    inside := fun _ _ h => nomatch h
    apart := fun _ _ _ _ h => nomatch h
    live_cap := fun _ h => nomatch h
    code := fun _ h => nomatch h
    recorded := fun _ h => nomatch h
    nodup := List.nodup_nil
    list_cap := fun _ _ h => nomatch h
    chain := fun _ => rfl
    not_live := fun _ _ h => nomatch h }⟩
  small := fun _ h => nomatch h

/-- A store behind the header of a live block. -/
theorem store_only {i : Nat} (hi : i < b.size.toNat) (byte : UInt8) {x : Nat}
    (hx : x < b.ptr.toNat ∨ b.ptr.toNat + capacity b.size ≤ x) :
    Function.update s.heap.mem (b.ptr.toNat + i) byte x = s.heap.mem x := by
  have hroom := size_le_capacity b.size
  exact Function.update_of_ne (by omega) ..

theorem inv_step {op : HeapOp} (hinv : Inv base s) (hs : op.step s s') :
    Inv base s' ∧ StepSafe s op s' := by
  obtain ⟨⟨cap, lists, L⟩, hsmall⟩ := hinv
  have hroom : ∀ b : Block, b.size.toNat ≤ capacity b.size := fun b => size_le_capacity b.size
  cases op with
  | malloc n =>
      obtain ⟨hn, k, heap, hm, rfl⟩ := hs
      obtain ⟨cap', lists', L', honly⟩ := malloc_spec L hn hm
      have hinv' : Inv base { heap, live := ⟨k, n⟩ :: s.live } :=
        ⟨⟨cap', lists', L'⟩, List.forall_mem_cons.mpr ⟨hn, hsmall⟩⟩
      refine ⟨hinv', fun b hb _ _ x hx hx' => ?_, fun b n he => nomatch he⟩
      have hne : k ≠ b.ptr := by
        rintro rfl
        exact (List.nodup_cons.mp L'.nodup).1 (List.mem_map.mpr ⟨b, hb, rfl⟩)
      have hsame := L'.same_live List.mem_cons_self (List.mem_cons_of_mem _ hb) hne honly
      exact hsame x hx (by have := hroom b; omega)
  | free b =>
      obtain ⟨hb, heap, hf, rfl⟩ := hs
      obtain ⟨heap', lists', hf', L', honly⟩ := free_spec L hb (hsmall b hb)
      obtain rfl := Option.some.inj (hf'.symm.trans hf)
      have hinv' : Inv base { heap := heap', live := s.live.erase b } :=
        ⟨⟨cap, lists', L'⟩, fun c hc => hsmall c (List.mem_of_mem_erase hc)⟩
      refine ⟨hinv', fun c hc hc' _ x hx hx' => ?_, fun b n he => nomatch he⟩
      have hne : b.ptr ≠ c.ptr := by
        intro he
        obtain rfl := L.ptr_injective hb hc he
        exact List.Nodup.not_mem_erase L.nodup_live hc'
      have hsame := L.same_live hb hc hne (honly.mono (Nat.zero_le _))
      exact hsame x hx (by have := hroom c; omega)
  | realloc b n =>
      obtain ⟨hb, hn, hgrow, k, heap, hr, rfl⟩ := hs
      obtain ⟨⟨k', h1⟩, hm, -⟩ := Option.bind_eq_some_iff.mp hr
      obtain ⟨heap', hr', ⟨cap', lists', L'⟩, hcopied, hsame⟩ :=
        realloc_spec L hb (hsmall b hb) hn hgrow hm
      obtain ⟨rfl, rfl⟩ := Prod.mk.inj (Option.some.inj (hr'.symm.trans hr))
      have hinv' : Inv base { heap := heap', live := ⟨k', n⟩ :: s.live.erase b } :=
        ⟨⟨cap', lists', L'⟩, List.forall_mem_cons.mpr
          ⟨hn, fun c hc => hsmall c (List.mem_of_mem_erase hc)⟩⟩
      refine ⟨hinv', fun c hc hc' _ x hx hx' => ?_, fun b' n' he => ?_⟩
      · have hne : c ≠ b := by
          rintro rfl
          rcases List.mem_cons.mp hc' with heq | hmem
          · obtain ⟨cap1, lists1, L1, -⟩ := malloc_spec L hn hm
            refine (List.nodup_cons.mp L1.nodup).1 (List.mem_map.mpr ⟨c, hc, ?_⟩)
            rw [heq]
          · exact List.Nodup.not_mem_erase L.nodup_live hmem
        exact hsame c hc hne x hx (by have := hroom c; omega)
      · obtain ⟨rfl, rfl⟩ := HeapOp.realloc.inj he
        exact ⟨k', hr', rfl, hcopied⟩
  | store b i byte =>
      obtain ⟨hb, hi, rfl⟩ := hs
      have L' := L.fill hb fun x hx => store_only hi byte hx
      refine ⟨⟨⟨cap, lists, L'⟩, hsmall⟩, fun c hc _ hop x hx hx' => ?_, fun b n he => nomatch he⟩
      have hne : b.ptr ≠ c.ptr := by
        intro he
        obtain rfl := L.ptr_injective hb hc he
        exact hop i byte rfl
      have hapart := L.apart_bytes hb hc hne
      exact store_only hi byte (by have := hroom c; omega)

theorem inv_served (hinv : Inv base s) : Served s := by
  obtain ⟨⟨cap, lists, L⟩, hsmall⟩ := hinv
  refine ⟨fun n hn hroom => malloc_isSome hn hroom, fun b hb => ?_, fun b hb n hn hgrow hroom => ?_⟩
  · obtain ⟨heap, lists', hf, -⟩ := free_spec L hb (hsmall b hb)
    rw [hf]
    rfl
  · obtain ⟨⟨k, h1⟩, hm⟩ := Option.isSome_iff_exists.mp (malloc_isSome hn hroom)
    obtain ⟨heap, hr, -⟩ := realloc_spec L hb (hsmall b hb) hn hgrow hm
    rw [hr]
    rfl

/-- In every state that a program reaches the blocks and the lists are apart, every further call
is answered, and it leaves the contents of the other blocks alone. -/
theorem user_heap_safe {mem : Nat → UInt8} {brk : UInt64} {ops : List HeapOp}
    (hrun : Run (fun s op s' => HeapOp.step s op s')
      { heap := initMalloc mem brk, live := [] } ops s) :
    (∃ lists, HeapSafe brk.toNat s lists) ∧ Served s ∧
      ∀ op s', HeapOp.step s op s' → StepSafe s op s' := by
  have hinv : Inv brk.toNat s :=
    run_keeps (fun _ _ _ hinv hs => (inv_step hinv hs).1) hrun (inv_init mem brk)
  obtain ⟨cap, lists, L⟩ := hinv.layout
  exact ⟨⟨lists, L.safe⟩, inv_served hinv, fun op s' hs => (inv_step hinv hs).2⟩

/-- Two blocks of eight bytes, the first of them given back and the second moved to a block of
64 bytes. -/
theorem requests_served : ∃ k₁ h₁ k₂ h₂ h₃ k₄ h₄,
    malloc (initMalloc (fun _ => 0) 0x1000) 5 = some (k₁, h₁) ∧ malloc h₁ 7 = some (k₂, h₂) ∧
      free h₂ k₁ = some h₃ ∧ (load32 h₃.mem (k₂ - 12)).toNat ≤ (9 : UInt64).toNat ∧
      realloc h₃ k₂ 9 = some (k₄, h₄) :=
  ⟨_, _, _, _, _, _, _, rfl, rfl, rfl, by decide, rfl⟩

/-- A program that allocates five bytes and seven, frees the five and enlarges the seven. -/
theorem user_heap_safe_five_bytes : ∃ s, s.live.length = 1 ∧
    (∃ lists, HeapSafe (0x1000 : UInt64).toNat s lists) ∧ Served s ∧
      ∀ op s', HeapOp.step s op s' → StepSafe s op s' := by
  obtain ⟨k₁, h₁, k₂, h₂, h₃, k₄, h₄, hfive, hseven, hfree, hgrow, hmove⟩ := requests_served
  have hstart : HeapOp.step { heap := initMalloc (fun _ => 0) 0x1000, live := [] } (.malloc 5)
      { heap := h₁, live := [⟨k₁, 5⟩] } := ⟨by decide, k₁, h₁, hfive, rfl⟩
  have hsecond : HeapOp.step { heap := h₁, live := [⟨k₁, 5⟩] } (.malloc 7)
      { heap := h₂, live := [⟨k₂, 7⟩, ⟨k₁, 5⟩] } := ⟨by decide, k₂, h₂, hseven, rfl⟩
  have hback : HeapOp.step { heap := h₂, live := [⟨k₂, 7⟩, ⟨k₁, 5⟩] } (.free ⟨k₁, 5⟩)
      { heap := h₃, live := [⟨k₂, 7⟩] } :=
    ⟨List.mem_cons_of_mem _ List.mem_cons_self, h₃, hfree, by
      rw [List.erase_cons_tail (by simp), List.erase_cons_head]⟩
  have hlast : HeapOp.step { heap := h₃, live := [⟨k₂, 7⟩] } (.realloc ⟨k₂, 7⟩ 9)
      { heap := h₄, live := [⟨k₄, 9⟩] } :=
    ⟨List.mem_cons_self, by decide, hgrow, k₄, h₄, hmove, by rw [List.erase_cons_head]⟩
  exact ⟨_, rfl, user_heap_safe (Run.cons hstart (Run.cons hsecond (Run.cons hback
    (Run.cons hlast (Run.nil _)))))⟩

end UnnamedOS.Userland
