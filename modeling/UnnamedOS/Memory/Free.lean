import UnnamedOS.Memory.Blocks

/-!
# Freeing a block

The header of a live block leads `free` back to the bitmap and to the block's own run of bits,
all of them 0, so the call succeeds and sets exactly them.
-/

namespace UnnamedOS.Memory

open UnnamedOS.Lib Heap

variable {h h' : Heap} {s s' : HeapState} {T : List Nat} {D : List (Nat × Nat)} {B C : Block}
  {e P st a b n p : Nat} {x y z : BitVec 64}

namespace Heap

theorem header_outside (ha : ¬ (p ≤ a + 64 ∧ a < p)) (hp : 64 ≤ p) :
    (h.header p x y z).mem a = h.mem a := by
  rw [header, poke_other (by omega), poke_other (by omega), poke_other (by omega)]

theorem header_slot (hp : 64 ≤ p) : (h.header p x y z).mem (p - 8) = x := by
  rw [header, poke_other (by omega), poke_other (by omega), poke_same]

theorem header_last (hp : 64 ≤ p) : (h.header p x y z).mem (p - 16) = y := by
  rw [header, poke_other (by omega), poke_same]

theorem header_size : (h.header p x y z).mem (p - 24) = z := by
  rw [header, poke_same]

/-- Bits `m` of the bitmap at `e` are flipped and a header is written before `p`: what both
`malloc` on an attached page and `free` do to memory. -/
def flipped (h : Heap) (e : Nat) (m : BitVec 64) (p : Nat) (x y z : BitVec 64) : Heap :=
  (h.poke e (h.mem e ^^^ m)).header p x y z

end Heap

/-- Outside the bitmap and the block a flip changes nothing. -/
theorem flipped_frame {m : BitVec 64} (hptr : B.ptr = P + 64 * st + 64) (hpos : 1 ≤ B.len)
    (hae : a ≠ e) (hnot : ¬ B.Owns a) : (h.flipped e m B.ptr x y z).mem a = h.mem a := by
  have htwo := two_le_units hpos
  rw [flipped, header_outside (fun ha => hnot ⟨ha.1, by omega⟩) (by omega), poke_other hae]

theorem flipped_bitmap {m : BitVec 64} (hl : Layout h T D) (hD : (e, P) ∈ D)
    (hptr : p = P + 64 * st + 64) (hst : st < 64) :
    (h.flipped e m p x y z).mem e = h.mem e ^^^ m := by
  have hnot : ¬ (p ≤ e + 64 ∧ e < p) := by
    intro hin
    exact hl.entry_sep hD hD (b := e) ⟨by omega, by omega⟩ rfl
  rw [flipped, header_outside hnot (by omega), poke_same]

theorem Heap.Layout.flipped {m : BitVec 64} (hl : Layout h T D) (hD : (e, P) ∈ D)
    (hptr : p = P + 64 * st + 64) (hst : st < 64) : Layout (h.flipped e m p x y z) T D := by
  refine hl.frame hD rfl rfl fun a hae hin => ?_
  have hnot : ¬ (p ≤ a + 64 ∧ a < p) := by
    intro ha
    exact hin ⟨by omega, by omega⟩
  rw [Heap.flipped, header_outside hnot (by omega), poke_other hae]

/-- Units of another page than the block's are not its own. -/
theorem Placed.not_owns_other (hp : Placed h D B e P st) (hl : Layout h T D) {e' P' : Nat}
    (hD : (e', P') ∈ D) (hne : e' ≠ e) (hb : b < 64) : ¬ B.Owns (P' + 64 * b) := by
  intro howns
  have hPP : P' = P := by
    by_contra hPne
    exact InPage.ne (x := P') ⟨by omega, by omega⟩ (hp.owns_inPage howns) (hl.page_aligned hD)
      (hl.page_aligned hp.attached) hPne rfl
  subst hPP
  exact hne (hl.entry_unique hD hp.attached)

/-- The bits of a live block are 0. -/
theorem HeapInv.mask_clear (hi : HeapInv s T D) (hB : B ∈ s.live)
    (hp : Placed s.toHeap D B e P st) :
    s.mem e &&& jshift (s.mem (B.ptr - 24)) (s.mem (B.ptr - 16)) = 0#64 := by
  rw [and_eq_zero_iff]
  intro b hb hmask
  have howns := (hp.getLsbD_mask hb).mp hmask
  rw [Bool.eq_false_iff]
  intro hbit
  exact (hi.exact e P hp.attached b hb).mp hbit B hB howns

/-- `free` finds the bitmap word of the block through its header. -/
theorem free_eq (hi : HeapInv s T D) (hB : B ∈ s.live) (hp : Placed s.toHeap D B e P st) :
    s.toHeap.free B.ptr = .ok (s.toHeap.flipped e
      (jshift (s.mem (B.ptr - 24)) (s.mem (B.ptr - 16))) B.ptr 0 0 0) := by
  obtain ⟨t, ht, i, hi', he⟩ := hi.entry hp.attached
  obtain ⟨-, htpos, htlt⟩ := hi.table_aligned ht
  have hptr := hp.ptr
  have hback : s.mem (B.ptr - 8) - 8#64 = BitVec.ofNat 64 e := by
    rw [hp.slot, BitVec.ofNat_add, BitVec.add_sub_cancel]
  have htoNat : (BitVec.ofNat 64 e).toNat = e := toNat_ofNat_of_lt (by omega)
  have hbm : BitVec.ofNat 64 e ≠ 0#64 := ofNat_ne_zero_of_lt (by omega) (by omega)
  have htwo := two_le_units hp.pos
  have hsmall := hp.small
  have hsize : s.mem (B.ptr - 24) ≠ 0#64 := by
    rw [hp.size]
    exact ofNat_ne_zero_of_lt (by omega) (by omega)
  simp only [Heap.free, if_neg (show ¬ B.ptr = 0 by omega), hback, if_neg hbm, if_neg hsize,
    htoNat, hi.mask_clear hB hp, if_true, flipped]

/-- What a split of the live list at a block says about the others. -/
theorem HeapInv.split (hi : HeapInv s T D) {l l' : List Block} (hl : s.live = l ++ B :: l') :
    (l ++ l').Pairwise Block.Disjoint ∧ ∀ C ∈ l ++ l', C ∈ s.live ∧ B.Disjoint C := by
  have hpw := hi.disjoint
  rw [hl, List.pairwise_append] at hpw
  obtain ⟨h1, h2, h12⟩ := hpw
  obtain ⟨hB, h2⟩ := List.pairwise_cons.mp h2
  constructor
  · exact List.pairwise_append.mpr
      ⟨h1, h2, fun C hC C' hC' => h12 C hC C' (List.mem_cons_of_mem B hC')⟩
  · intro C hC
    rw [hl]
    rcases List.mem_append.mp hC with hC | hC
    · exact ⟨List.mem_append_left _ hC, Std.Symm.symm _ _ (h12 C hC B List.mem_cons_self)⟩
    · exact ⟨List.mem_append_right _ (List.mem_cons_of_mem B hC), hB C hC⟩

/-- The bits of a bitmap after the block has gone. -/
theorem freed_exact (hi : HeapInv s T D) (hp : Placed s.toHeap D B e P st) {l l' : List Block}
    (hl : s.live = l ++ B :: l') {e' P' : Nat} (hD : (e', P') ∈ D) (hb : b < 64) :
    ((s.toHeap.flipped e (jshift (s.mem (B.ptr - 24)) (s.mem (B.ptr - 16))) B.ptr 0 0 0).mem
      e').getLsbD b = true ↔ ∀ C ∈ l ++ l', ¬ C.Owns (P' + 64 * b) := by
  have hB : B ∈ s.live := hl ▸ List.mem_append_right l List.mem_cons_self
  obtain ⟨-, hothers⟩ := hi.split hl
  have hiff : (∀ C ∈ s.live, ¬ C.Owns (P' + 64 * b)) ↔
      ¬ B.Owns (P' + 64 * b) ∧ ∀ C ∈ l ++ l', ¬ C.Owns (P' + 64 * b) := by
    simp only [hl, List.forall_mem_append, List.forall_mem_cons]
    tauto
  have hfits := hp.fits
  have htwo := two_le_units hp.pos
  by_cases hee : e' = e
  · subst hee
    obtain rfl := hi.page_unique hp.attached hD
    rw [flipped_bitmap hi.toLayout hD hp.ptr (by omega), BitVec.getLsbD_xor]
    by_cases howns : B.Owns (P + 64 * b)
    · have hmask := (hp.getLsbD_mask hb).mpr howns
      rw [hmask, and_eq_zero_iff.mp (hi.mask_clear hB hp) b hb hmask]
      exact ⟨fun _ C hC hown => (hothers C hC).2 _ ⟨howns, hown⟩, fun _ => rfl⟩
    · have hmask : (jshift (s.mem (B.ptr - 24)) (s.mem (B.ptr - 16))).getLsbD b = false := by
        rw [Bool.eq_false_iff]
        exact fun hm => howns ((hp.getLsbD_mask hb).mp hm)
      rw [hmask, Bool.xor_false, hi.exact e' P hD b hb, hiff]
      exact ⟨fun hall => hall.2, fun hall => ⟨howns, hall⟩⟩
  · have hnot : ¬ B.Owns e' := fun howns =>
      hi.entry_sep hD hp.attached (hp.owns_inPage howns) rfl
    rw [flipped_frame hp.ptr hp.pos hee hnot, hi.exact e' P' hD b hb, hiff]
    exact ⟨fun hall => hall.2, fun hall => ⟨hp.not_owns_other hi.toLayout hD hee hb, hall⟩⟩

theorem free_good (hi : HeapInv s T D) (hB : B ∈ s.live) :
    ∃ s', (HeapOp.free B.ptr).exec s = .ok s' ∧ HeapInv s' T D := by
  obtain ⟨e, P, st, hp⟩ := hi.placed B hB
  have hfound : decide (B.ptr = B.ptr) = true := decide_eq_true rfl
  obtain ⟨B', l, l', -, hB', hlive, herase⟩ :=
    List.exists_of_eraseP (p := fun B' => decide (B'.ptr = B.ptr)) hB hfound
  have hmem' : B' ∈ s.live := hlive ▸ List.mem_append_right l List.mem_cons_self
  obtain rfl : B' = B := hi.live_ptr hmem' hB (of_decide_eq_true hB')
  obtain ⟨hpw, hothers⟩ := hi.split hlive
  have hfits := hp.fits
  have htwo := two_le_units hp.pos
  refine ⟨⟨_, l ++ l'⟩, by rw [HeapOp.exec, free_eq hi hB hp, ← herase], ?_⟩
  refine ⟨hi.toLayout.flipped hp.attached hp.ptr (by omega),
    fun e' P' hD b hb => freed_exact hi hp hlive hD hb, hpw, fun C hC => ?_⟩
  obtain ⟨hC, hdis⟩ := hothers C hC
  exact hi.placed_frame hC hdis hp.attached fun a => flipped_frame hp.ptr hp.pos

end UnnamedOS.Memory
