import UnnamedOS.Lib.Chain
import UnnamedOS.Userland.Malloc
import Mathlib.Data.List.Basic

/-!
# Blocks of the user heap

Every block that has ever been taken from `sbrk` keeps its place and its capacity. The blocks do
not overlap, and each is live, in the list of its bucket, or neither.
-/

namespace UnnamedOS.Userland

open UnnamedOS.Lib

/-- A block as the program knows it: where it is and how many bytes were asked for. -/
structure Block where
  ptr : UInt64
  size : UInt64
  deriving DecidableEq

/-- The bytes behind the header of a block of that size. -/
def capacity (size : UInt64) : Nat :=
  if size > 4096 then size.toNat else (bucketBytes (bucketFor size)).toNat

/-- What `malloc` stores as its bucket. -/
def bucketCode (size : UInt64) : UInt32 := if size > 4096 then 4 else .ofNat (bucketFor size).val

def pointer (a : UInt64) : Option UInt64 := if a = 0 then none else some a

/-- The next block of a list. -/
def link (mem : Nat → UInt8) (p : UInt64) : Option UInt64 := pointer (load64 mem (p - 8))

/-- Where every block is (`cap`), and which blocks the lists hold. -/
structure Layout (base : Nat) (h : Heap) (live : List Block) (cap : UInt64 → Option Nat)
    (lists : Fin 4 → List UInt64) : Prop where
  start : base ≤ h.brk.toNat
  inside : ∀ p c, cap p = some c → base + 16 ≤ p.toNat ∧ p.toNat + c ≤ h.brk.toNat
  apart : ∀ p c q d, cap p = some c → cap q = some d → p ≠ q →
    p.toNat + c + 16 ≤ q.toNat ∨ q.toNat + d + 16 ≤ p.toNat
  live_cap : ∀ b ∈ live, cap b.ptr = some (capacity b.size)
  code : ∀ b ∈ live, load32 h.mem (b.ptr - 16) = bucketCode b.size
  recorded : ∀ b ∈ live, load32 h.mem (b.ptr - 12) = b.size.toUInt32
  nodup : (live.map Block.ptr).Nodup
  list_cap : ∀ s, ∀ p ∈ lists s, cap p = some (bucketBytes s).toNat
  chain : ∀ s, Chain (link h.mem) (pointer (h.malloc_bucket s)) (lists s)
  not_live : ∀ s, ∀ p ∈ lists s, p ∉ live.map Block.ptr

/-! ## Words in memory -/

variable {mem mem' : Nat → UInt8} {a p q : UInt64} {n c d : Nat}

theorem load32_store32 (mem : Nat → UInt8) (a : UInt64) (x : UInt32) :
    load32 (store32 mem a x) a = x := by
  have hx : x.toNat < 256 ^ 4 := Nat.lt_of_lt_of_eq x.toNat_lt (by decide)
  have hbytes : stretch (overwrite mem a.toNat (toBytes 4 x.toNat)) a.toNat 4 =
      toBytes 4 x.toNat := by
    have h := stretch_overwrite mem a.toNat (toBytes 4 x.toNat)
    rwa [length_toBytes] at h
  rw [load32, store32, hbytes, ofBytes_toBytes, Nat.mod_eq_of_lt hx, UInt32.ofNat_toNat]

theorem load64_store64 (mem : Nat → UInt8) (a x : UInt64) :
    load64 (store64 mem a x) a = x := by
  have hx : x.toNat < 256 ^ 8 := Nat.lt_of_lt_of_eq x.toNat_lt (by decide)
  have hbytes : stretch (overwrite mem a.toNat (toBytes 8 x.toNat)) a.toNat 8 =
      toBytes 8 x.toNat := by
    have h := stretch_overwrite mem a.toNat (toBytes 8 x.toNat)
    rwa [length_toBytes] at h
  rw [load64, store64, hbytes, ofBytes_toBytes, Nat.mod_eq_of_lt hx, UInt64.ofNat_toNat]

theorem toNat_sub_const (p : UInt64) {k : UInt64} (h : k.toNat ≤ p.toNat) :
    (p - k).toNat = p.toNat - k.toNat :=
  UInt64.toNat_sub_of_le p k (UInt64.le_iff_toNat_le.mpr h)

/-- Nothing outside of the block at `p`, header included, is different. -/
def Only (mem mem' : Nat → UInt8) (p : UInt64) (c : Nat) : Prop :=
  ∀ x, x + 16 < p.toNat ∨ p.toNat + c ≤ x → mem' x = mem x

/-- The block at `p`, header included, is the same. -/
def Same (mem mem' : Nat → UInt8) (p : UInt64) (c : Nat) : Prop :=
  ∀ x, p.toNat ≤ x + 16 → x < p.toNat + c → mem' x = mem x

theorem Same.code (h : Same mem mem' p c) (hp : 16 ≤ p.toNat) :
    load32 mem' (p - 16) = load32 mem (p - 16) := by
  have hoffset : (p - 16).toNat = p.toNat - 16 := toNat_sub_const p hp
  rw [load32, load32, hoffset, stretch_congr fun i hi => h _ (by omega) (by omega)]

theorem Same.recorded (h : Same mem mem' p c) (hp : 16 ≤ p.toNat) :
    load32 mem' (p - 12) = load32 mem (p - 12) := by
  have hoffset : (p - 12).toNat = p.toNat - 12 :=
    toNat_sub_const p (Nat.le_trans (by decide) hp)
  rw [load32, load32, hoffset, stretch_congr fun i hi => h _ (by omega) (by omega)]

theorem Same.link (h : Same mem mem' p c) (hp : 16 ≤ p.toNat) : link mem' p = link mem p := by
  have hoffset : (p - 8).toNat = p.toNat - 8 := toNat_sub_const p (Nat.le_trans (by decide) hp)
  rw [Userland.link, Userland.link, load64, load64, hoffset,
    stretch_congr fun i hi => h _ (by omega) (by omega)]

theorem only_store32 {x : UInt32} {k : UInt64} (hk : k.toNat = 12 ∨ k.toNat = 16)
    (hp : 16 ≤ p.toNat) : Only mem (store32 mem (p - k) x) p c := by
  have hoffset : (p - k).toNat = p.toNat - k.toNat := toNat_sub_const p (by omega)
  intro y hy
  rw [store32, hoffset]
  rcases hy with hy | hy
  · exact overwrite_of_lt (by omega)
  · exact overwrite_of_ge (by rw [length_toBytes]; omega)

theorem only_setHeader {size : UInt64} {s2 : UInt32} (hp : 16 ≤ p.toNat) :
    Only mem (setHeader mem p size s2) p c := by
  intro y hy
  rw [setHeader, only_store32 (c := c) (Or.inr rfl) hp y hy,
    only_store32 (c := c) (Or.inl rfl) hp y hy]

theorem code_setHeader {size : UInt64} {s2 : UInt32} :
    load32 (setHeader mem p size s2) (p - 16) = s2 :=
  load32_store32 _ _ _

theorem recorded_setHeader {size : UInt64} {s2 : UInt32} (hp : 16 ≤ p.toNat) :
    load32 (setHeader mem p size s2) (p - 12) = size.toUInt32 := by
  have h12 : (p - 12).toNat = p.toNat - 12 := toNat_sub_const p (Nat.le_trans (by decide) hp)
  have h16 : (p - 16).toNat = p.toNat - 16 := toNat_sub_const p hp
  have hkept : load32 (setHeader mem p size s2) (p - 12) =
      load32 (store32 mem (p - 12) size.toUInt32) (p - 12) := by
    rw [load32, load32, setHeader, stretch_congr]
    intro i hi
    rw [store32, h12, h16]
    exact overwrite_of_ge (by rw [length_toBytes]; omega)
  rw [hkept, load32_store32]

/-! ## How the layout changes -/

namespace Layout

variable {base : Nat} {h : Heap} {live : List Block} {cap : UInt64 → Option Nat}
  {lists : Fin 4 → List UInt64} {s : Fin 4} {b : Block} {rest : List UInt64}

theorem ptr_ge (L : Layout base h live cap lists) (hp : cap p = some c) : 16 ≤ p.toNat := by
  have := L.inside p c hp
  omega

/-- What happens inside of one block leaves the others as they are. -/
theorem same (L : Layout base h live cap lists) (hp : cap p = some c) (hq : cap q = some d)
    (hne : p ≠ q) (hmem : Only mem mem' p c) : Same mem mem' q d := by
  intro x hx hx'
  have hapart := L.apart p c q d hp hq hne
  exact hmem x (by omega)

theorem bucketBytes_injective {t : Fin 4} (h : (bucketBytes s).toNat = (bucketBytes t).toNat) :
    s = t := by
  revert h
  revert s t
  decide

/-- A block is in one list. -/
theorem one_list (L : Layout base h live cap lists) {t : Fin 4} (hs : p ∈ lists s)
    (ht : p ∈ lists t) : s = t := by
  have h1 := L.list_cap s p hs
  have h2 := L.list_cap t p ht
  exact bucketBytes_injective (Option.some.inj (h1.symm.trans h2))

/-- A block that is neither live nor in a list may be written to. -/
theorem write (L : Layout base h live cap lists) (hp : cap p = some c)
    (hlive : p ∉ live.map Block.ptr) (hlists : ∀ s, p ∉ lists s) (hmem : Only h.mem mem' p c) :
    Layout base { h with mem := mem' } live cap lists where
  start := L.start
  inside := L.inside
  apart := L.apart
  live_cap := L.live_cap
  code := by
    intro b hb
    have hne : p ≠ b.ptr := fun he => hlive (List.mem_map.mpr ⟨b, hb, he.symm⟩)
    rw [← L.code b hb]
    exact (L.same hp (L.live_cap b hb) hne hmem).code (L.ptr_ge (L.live_cap b hb))
  recorded := by
    intro b hb
    have hne : p ≠ b.ptr := fun he => hlive (List.mem_map.mpr ⟨b, hb, he.symm⟩)
    rw [← L.recorded b hb]
    exact (L.same hp (L.live_cap b hb) hne hmem).recorded (L.ptr_ge (L.live_cap b hb))
  nodup := L.nodup
  list_cap := L.list_cap
  chain := by
    intro s
    refine (chain_congr fun q hq => ?_).mp (L.chain s)
    have hne : p ≠ q := fun he => hlists s (he ▸ hq)
    exact ((L.same hp (L.list_cap s q hq) hne hmem).link (L.ptr_ge (L.list_cap s q hq))).symm
  not_live := L.not_live

/-- What happens behind the header of a live block leaves all headers as they are. -/
theorem same_header (L : Layout base h live cap lists) (hb : b ∈ live) (hq : cap q = some d)
    (hmem : ∀ x, x < b.ptr.toNat ∨ b.ptr.toNat + capacity b.size ≤ x → mem' x = mem x) :
    Same mem mem' q 0 := by
  intro x hx hx'
  apply hmem
  by_cases he : b.ptr = q
  · rw [he]
    omega
  · have hapart := L.apart b.ptr _ q d (L.live_cap b hb) hq he
    omega

/-- The bytes behind the header of a live block may be written to. -/
theorem fill (L : Layout base h live cap lists) (hb : b ∈ live)
    (hmem : ∀ x, x < b.ptr.toNat ∨ b.ptr.toNat + capacity b.size ≤ x → mem' x = h.mem x) :
    Layout base { h with mem := mem' } live cap lists where
  start := L.start
  inside := L.inside
  apart := L.apart
  live_cap := L.live_cap
  code := by
    intro b' hb'
    rw [← L.code b' hb']
    exact (L.same_header hb (L.live_cap b' hb') hmem).code (L.ptr_ge (L.live_cap b' hb'))
  recorded := by
    intro b' hb'
    rw [← L.recorded b' hb']
    exact (L.same_header hb (L.live_cap b' hb') hmem).recorded (L.ptr_ge (L.live_cap b' hb'))
  nodup := L.nodup
  list_cap := L.list_cap
  chain := by
    intro s
    refine (chain_congr fun q hq => ?_).mp (L.chain s)
    exact ((L.same_header hb (L.list_cap s q hq) hmem).link (L.ptr_ge (L.list_cap s q hq))).symm
  not_live := L.not_live

theorem pointer_ne_zero (hp : p ≠ 0) : pointer p = some p := if_neg hp

/-- The first block leaves its list. -/
theorem pop (L : Layout base h live cap lists) (hlist : lists s = p :: rest) :
    Layout base (setBucket h s (load64 h.mem (p - 8))) live cap (Function.update lists s rest) where
  start := L.start
  inside := L.inside
  apart := L.apart
  live_cap := L.live_cap
  code := L.code
  recorded := L.recorded
  nodup := L.nodup
  list_cap := by
    intro t q hq
    by_cases ht : t = s
    · subst ht
      rw [Function.update_self] at hq
      exact L.list_cap t q (by rw [hlist]; exact List.mem_cons_of_mem p hq)
    · rw [Function.update_of_ne ht] at hq
      exact L.list_cap t q hq
  chain := by
    intro t
    by_cases ht : t = s
    · subst ht
      have hchain := L.chain t
      rw [hlist, chain_cons] at hchain
      rw [Function.update_self, setBucket_self]
      exact hchain.2
    · rw [Function.update_of_ne ht, setBucket_of_ne h _ ht]
      exact L.chain t
  not_live := by
    intro t q hq
    by_cases ht : t = s
    · subst ht
      rw [Function.update_self] at hq
      exact L.not_live t q (by rw [hlist]; exact List.mem_cons_of_mem p hq)
    · rw [Function.update_of_ne ht] at hq
      exact L.not_live t q hq

/-- The block that has left its list is in none. -/
theorem pop_not_listed (L : Layout base h live cap lists) (hlist : lists s = p :: rest) (t : Fin 4) :
    p ∉ Function.update lists s rest t := by
  have hmem : p ∈ lists s := by rw [hlist]; exact List.mem_cons_self
  by_cases ht : t = s
  · subst ht
    rw [Function.update_self]
    have hnodup := chain_nodup (L.chain t)
    rw [hlist] at hnodup
    exact (List.nodup_cons.mp hnodup).1
  · rw [Function.update_of_ne ht]
    exact fun hq => ht (L.one_list hq hmem)

/-- A new block above all others. -/
theorem carve (L : Layout base h live cap lists) {brk : UInt64} (hp : p.toNat = h.brk.toNat + 16)
    (hbrk : brk.toNat = p.toNat + c) :
    Layout base { h with brk } live (Function.update cap p (some c)) lists ∧
      p ∉ live.map Block.ptr ∧ ∀ s, p ∉ lists s := by
  have hnew : ∀ q d, cap q = some d → q ≠ p := by
    rintro q d hq rfl
    have := L.inside _ d hq
    omega
  have hkeep : ∀ q d, cap q = some d → Function.update cap p (some c) q = some d := by
    intro q d hq
    rw [Function.update_of_ne (hnew q d hq)]
    exact hq
  have hcases : ∀ q d, Function.update cap p (some c) q = some d →
      q = p ∧ d = c ∨ q ≠ p ∧ cap q = some d := by
    intro q d hq
    by_cases he : q = p
    · subst he
      rw [Function.update_self] at hq
      exact Or.inl ⟨rfl, (Option.some.inj hq).symm⟩
    · rw [Function.update_of_ne he] at hq
      exact Or.inr ⟨he, hq⟩
  refine ⟨{
    start := ?_
    inside := ?_
    apart := ?_
    live_cap := fun b hb => hkeep _ _ (L.live_cap b hb)
    code := L.code
    recorded := L.recorded
    nodup := L.nodup
    list_cap := fun s q hq => hkeep _ _ (L.list_cap s q hq)
    chain := L.chain
    not_live := L.not_live }, ?_, fun s hs => hnew p _ (L.list_cap s p hs) rfl⟩
  · have := L.start
    show base ≤ brk.toNat
    omega
  · intro q d hq
    show base + 16 ≤ q.toNat ∧ q.toNat + d ≤ brk.toNat
    rcases hcases q d hq with ⟨rfl, rfl⟩ | ⟨-, hold⟩
    · have := L.start
      omega
    · have := L.inside q d hold
      omega
  · intro q d q' d' hq hq' hne
    rcases hcases q d hq with ⟨rfl, rfl⟩ | ⟨-, hold⟩
    · rcases hcases q' d' hq' with ⟨rfl, rfl⟩ | ⟨-, hold'⟩
      · exact absurd rfl hne
      · have := L.inside q' d' hold'
        omega
    · rcases hcases q' d' hq' with ⟨rfl, rfl⟩ | ⟨-, hold'⟩
      · have := L.inside q d hold
        omega
      · exact L.apart q d q' d' hold hold' hne
  · intro hmem
    obtain ⟨b, hb, he⟩ := List.mem_map.mp hmem
    exact hnew _ _ (L.live_cap b hb) he

/-- A block in no list becomes live. -/
theorem add (L : Layout base h live cap lists) (hcap : cap b.ptr = some (capacity b.size))
    (hcode : load32 h.mem (b.ptr - 16) = bucketCode b.size)
    (hrecorded : load32 h.mem (b.ptr - 12) = b.size.toUInt32)
    (hlive : b.ptr ∉ live.map Block.ptr) (hlists : ∀ s, b.ptr ∉ lists s) :
    Layout base h (b :: live) cap lists where
  start := L.start
  inside := L.inside
  apart := L.apart
  live_cap := List.forall_mem_cons.mpr ⟨hcap, L.live_cap⟩
  code := List.forall_mem_cons.mpr ⟨hcode, L.code⟩
  recorded := List.forall_mem_cons.mpr ⟨hrecorded, L.recorded⟩
  nodup := List.nodup_cons.mpr ⟨hlive, L.nodup⟩
  list_cap := L.list_cap
  chain := L.chain
  not_live := by
    intro s q hq hmem
    rcases List.mem_cons.mp hmem with rfl | hmem
    · exact hlists s hq
    · exact L.not_live s q hq hmem

theorem nodup_live (L : Layout base h live cap lists) : live.Nodup := L.nodup.of_map _

/-- A live block is found by its pointer. -/
theorem ptr_injective (L : Layout base h live cap lists) {b' : Block} (hb : b ∈ live)
    (hb' : b' ∈ live) (he : b.ptr = b'.ptr) : b = b' :=
  List.inj_on_of_nodup_map L.nodup hb hb' he

/-- A live block becomes neither live nor free. -/
theorem drop (L : Layout base h live cap lists) (hb : b ∈ live) :
    Layout base h (live.erase b) cap lists ∧ b.ptr ∉ (live.erase b).map Block.ptr := by
  have hsub : ∀ b', b' ∈ live.erase b → b' ∈ live := fun b' => List.mem_of_mem_erase
  have hgone : b.ptr ∉ (live.erase b).map Block.ptr := by
    intro hmem
    obtain ⟨b', hb', he⟩ := List.mem_map.mp hmem
    have heq := L.ptr_injective (hsub b' hb') hb he
    rw [heq] at hb'
    exact (List.Nodup.not_mem_erase L.nodup_live) hb'
  refine ⟨{
    start := L.start
    inside := L.inside
    apart := L.apart
    live_cap := fun b' hb' => L.live_cap b' (hsub b' hb')
    code := fun b' hb' => L.code b' (hsub b' hb')
    recorded := fun b' hb' => L.recorded b' (hsub b' hb')
    nodup := L.nodup.sublist (List.erase_sublist.map _)
    list_cap := L.list_cap
    chain := L.chain
    not_live := ?_ }, hgone⟩
  intro s q hq hmem
  obtain ⟨b', hb', he⟩ := List.mem_map.mp hmem
  exact L.not_live s q hq (List.mem_map.mpr ⟨b', hsub b' hb', he⟩)

/-- A block becomes the first of its list. -/
theorem push (L : Layout base h live cap lists) (hcap : cap p = some (bucketBytes s).toNat)
    (hlive : p ∉ live.map Block.ptr) (hlink : link h.mem p = pointer (h.malloc_bucket s)) :
    Layout base (setBucket h s p) live cap (Function.update lists s (p :: lists s)) where
  start := L.start
  inside := L.inside
  apart := L.apart
  live_cap := L.live_cap
  code := L.code
  recorded := L.recorded
  nodup := L.nodup
  list_cap := by
    intro t q hq
    by_cases ht : t = s
    · subst ht
      rw [Function.update_self] at hq
      rcases List.mem_cons.mp hq with rfl | hq
      · exact hcap
      · exact L.list_cap t q hq
    · rw [Function.update_of_ne ht] at hq
      exact L.list_cap t q hq
  chain := by
    intro t
    by_cases ht : t = s
    · subst ht
      have hne : p ≠ 0 := by
        rintro rfl
        exact absurd (L.ptr_ge hcap) (by decide)
      rw [Function.update_self, setBucket_self, pointer_ne_zero hne, chain_cons, setBucket_mem, hlink]
      exact ⟨rfl, L.chain t⟩
    · rw [Function.update_of_ne ht, setBucket_of_ne h _ ht]
      exact L.chain t
  not_live := by
    intro t q hq
    by_cases ht : t = s
    · subst ht
      rw [Function.update_self] at hq
      rcases List.mem_cons.mp hq with rfl | hq
      · exact hlive
      · exact L.not_live t q hq
    · rw [Function.update_of_ne ht] at hq
      exact L.not_live t q hq

end Layout

end UnnamedOS.Userland
