import Mathlib.Data.List.Nodup
import Mathlib.Data.List.Pairwise
import UnnamedOS.Memory.Tables

/-!
# Blocks and bitmaps

`HeapOk` is what the heap is for: bitmaps that say which units are free, and live blocks that
are disjoint and stay inside their pages. `HeapInv` adds what `free` reads back, the tables
and the headers.
-/

namespace UnnamedOS.Memory

open UnnamedOS.Lib Heap

/-- The bytes of a block's units, the header unit before its pointer included. -/
def Block.Owns (B : Block) (a : Nat) : Prop := B.ptr ≤ a + 64 ∧ a + 64 < B.ptr + 64 * units B.len

def Block.Disjoint (B C : Block) : Prop := ∀ a, ¬ (B.Owns a ∧ C.Owns a)

instance : Std.Symm Block.Disjoint := ⟨fun _ _ h a ha => h a ha.symm⟩

/-- The bits of attached bitmaps are exactly the unowned units; live blocks are pairwise
disjoint and inside their page. -/
structure HeapOk (s : HeapState) : Prop where
  exact : ∀ e P, s.Attached e P → ∀ b < 64,
    ((s.mem e).getLsbD b = true ↔ ∀ B ∈ s.live, ¬ B.Owns (P + 64 * b))
  disjoint : s.live.Pairwise Block.Disjoint
  inside : ∀ B ∈ s.live, ∃ e P, s.Attached e P ∧ ∀ a, B.Owns a → InPage P a

/-- A block of at most 31 units from unit `st` of the page at `P`, and its header. -/
structure Placed (h : Heap) (D : List (Nat × Nat)) (B : Block) (e P st : Nat) : Prop where
  attached : (e, P) ∈ D
  ptr : B.ptr = P + 64 * st + 64
  fits : st + units B.len ≤ 64
  pos : 1 ≤ B.len
  small : units B.len < 32
  slot : h.mem (B.ptr - 8) = BitVec.ofNat 64 (e + 8)
  last : h.mem (B.ptr - 16) = BitVec.ofNat 64 (st + units B.len - 1)
  size : h.mem (B.ptr - 24) = BitVec.ofNat 64 (units B.len)

structure HeapInv (s : HeapState) (T : List Nat) (D : List (Nat × Nat)) : Prop
    extends Layout s.toHeap T D where
  exact : ∀ e P, (e, P) ∈ D → ∀ b < 64,
    ((s.mem e).getLsbD b = true ↔ ∀ B ∈ s.live, ¬ B.Owns (P + 64 * b))
  disjoint : s.live.Pairwise Block.Disjoint
  placed : ∀ B ∈ s.live, ∃ e P st, Placed s.toHeap D B e P st

variable {h h' : Heap} {s s' : HeapState} {T : List Nat} {D : List (Nat × Nat)} {B C : Block}
  {e P st a b n : Nat}

namespace Placed

theorem owns_inPage (hB : Placed h D B e P st) (ha : B.Owns a) : InPage P a := by
  obtain ⟨hlo, hhi⟩ := ha
  have hptr := hB.ptr
  have hfits := hB.fits
  constructor <;> omega

theorem owns_unit (hB : Placed h D B e P st) :
    B.Owns (P + 64 * b) ↔ st ≤ b ∧ b < st + units B.len := by
  have hptr := hB.ptr
  unfold Block.Owns
  omega

/-- The header lies in the block's own first unit. -/
theorem owns_header (hB : Placed h D B e P st) {k : Nat} (hk : 1 ≤ k) (hk' : k ≤ 64) :
    B.Owns (B.ptr - k) := by
  have hptr := hB.ptr
  have htwo := two_le_units hB.pos
  unfold Block.Owns
  omega

theorem congr (hB : Placed h D B e P st) {D' : List (Nat × Nat)} (hD : (e, P) ∈ D')
    (hmem : ∀ a, B.Owns a → h'.mem a = h.mem a) : Placed h' D' B e P st where
  attached := hD
  ptr := hB.ptr
  fits := hB.fits
  pos := hB.pos
  small := hB.small
  slot := (hmem _ (hB.owns_header (by omega) (by omega))).trans hB.slot
  last := (hmem _ (hB.owns_header (by omega) (by omega))).trans hB.last
  size := (hmem _ (hB.owns_header (by omega) (by omega))).trans hB.size

/-- The mask of the header's `size` and `j` is the block's own run. -/
theorem getLsbD_mask (hB : Placed h D B e P st) (hb : b < 64) :
    (jshift (h.mem (B.ptr - 24)) (h.mem (B.ptr - 16))).getLsbD b = true ↔
      B.Owns (P + 64 * b) := by
  have hfits := hB.fits
  have htwo := two_le_units hB.pos
  rw [hB.size, hB.last, getLsbD_jshift_small hB.small (by omega) (by omega) hb, hB.owns_unit,
    decide_eq_true_iff]
  omega

end Placed

namespace HeapInv

theorem heapOk (hi : HeapInv s T D) : HeapOk s where
  exact e P h := hi.exact e P ((hi.attached e P).mpr h)
  disjoint := hi.disjoint
  inside B hB := by
    obtain ⟨e, P, st, hp⟩ := hi.placed B hB
    exact ⟨e, P, (hi.attached e P).mp hp.attached, fun a => hp.owns_inPage⟩

theorem live_disjoint (hi : HeapInv s T D) (hB : B ∈ s.live) (hC : C ∈ s.live) (hne : B ≠ C) :
    B.Disjoint C :=
  hi.disjoint.forall hB hC hne

/-- Two live blocks do not share a pointer. -/
theorem live_ptr (hi : HeapInv s T D) (hB : B ∈ s.live) (hC : C ∈ s.live)
    (hptr : B.ptr = C.ptr) : B = C := by
  by_contra hne
  obtain ⟨_, _, _, hpB⟩ := hi.placed B hB
  obtain ⟨_, _, _, hpC⟩ := hi.placed C hC
  apply hi.live_disjoint hB hC hne (B.ptr - 8)
  exact ⟨hpB.owns_header (by omega) (by omega), hptr ▸ hpC.owns_header (by omega) (by omega)⟩

/-- A block keeps its place as long as nobody writes to its own units. -/
theorem placed_frame (hi : HeapInv s T D) (hC : C ∈ s.live) (hBC : B.Disjoint C)
    (he : (e, P) ∈ D) (hmem : ∀ a, a ≠ e → ¬ B.Owns a → h'.mem a = s.mem a) :
    ∃ e P st, Placed h' D C e P st := by
  obtain ⟨e', P', st', hp⟩ := hi.placed C hC
  refine ⟨e', P', st', hp.congr hp.attached fun a ha => hmem a ?_ fun hB => hBC a ⟨hB, ha⟩⟩
  exact (hi.entry_sep he hp.attached (hp.owns_inPage ha)).symm

end HeapInv

/-- A caller's write inside its block. -/
theorem store_good {i : Nat} {v : BitVec 64} (hi : HeapInv s T D) (hB : B ∈ s.live)
    (hlt : 8 * i < B.len) :
    HeapInv { s with toHeap := s.toHeap.poke (B.ptr + 8 * i) v } T D := by
  obtain ⟨e, P, st, hp⟩ := hi.placed B hB
  have howns : B.Owns (B.ptr + 8 * i) := by
    unfold Block.Owns units
    omega
  have hmem : ∀ a, a ≠ B.ptr + 8 * i → (s.toHeap.poke (B.ptr + 8 * i) v).mem a = s.mem a :=
    fun a ha => poke_other ha
  have hlayout : Layout (s.toHeap.poke (B.ptr + 8 * i) v) T D := by
    refine hi.toLayout.frame hp.attached poke_ml1 poke_pages fun a _ hin => ?_
    apply hmem
    rintro rfl
    exact hin (hp.owns_inPage howns)
  refine ⟨hlayout, fun e' P' hD b hb => ?_, hi.disjoint, fun C hC => ?_⟩
  · have hbit : (s.toHeap.poke (B.ptr + 8 * i) v).mem e' = s.mem e' :=
      hmem e' (hi.entry_sep hD hp.attached (hp.owns_inPage howns))
    change ((s.toHeap.poke (B.ptr + 8 * i) v).mem e').getLsbD b = true ↔ _
    rw [hbit]
    exact hi.exact e' P' hD b hb
  · by_cases hCB : C = B
    · subst hCB
      have hhead : ∀ k, 1 ≤ k → k ≤ 64 → C.ptr - k ≠ C.ptr + 8 * i := by
        have hptr := hp.ptr
        intro k h1 h64
        omega
      exact ⟨e, P, st, hp.attached, hp.ptr, hp.fits, hp.pos, hp.small,
        (hmem _ (hhead 8 (by omega) (by omega))).trans hp.slot,
        (hmem _ (hhead 16 (by omega) (by omega))).trans hp.last,
        (hmem _ (hhead 24 (by omega) (by omega))).trans hp.size⟩
    · apply hi.placed_frame hC (hi.live_disjoint hB hC (Ne.symm hCB)) hp.attached
      intro a _ hnot
      apply hmem
      rintro rfl
      exact hnot howns

end UnnamedOS.Memory
