import UnnamedOS.Memory.Free

/-!
# Taking units

`malloc` takes a run of an attached page or the first units of a page it attaches, on a new
table if it has to. Below 32 units either keeps the invariant; from 32 units on either leaves
a bitmap that is wrong at the last unit of the new block.
-/

namespace UnnamedOS.Memory

open UnnamedOS.Lib Heap

variable {h h' : Heap} {s s' : HeapState} {T : List Nat} {D D' : List (Nat × Nat)} {B C N : Block}
  {e P st a b n p j mcp : Nat} {x y z : BitVec 64}

theorem Placed.owns_iff_unit (hB : Placed h D B e P st) (ha : InPage P a) :
    B.Owns a ↔ B.Owns (P + 64 * ((a - P) / 64)) := by
  obtain ⟨hlo, hhi⟩ := ha
  have hptr := hB.ptr
  unfold Block.Owns
  omega

/-- Two placed blocks that share no unit share no byte. -/
theorem Placed.disjoint (hB : Placed h D B e P st) {h₀ : Heap} {D₀ : List (Nat × Nat)}
    {e' P' st' : Nat} (hC : Placed h₀ D₀ C e' P' st') (hP : PageAddr P) (hP' : PageAddr P')
    (hunit : ∀ b < 64, B.Owns (P + 64 * b) → ¬ C.Owns (P + 64 * b)) : B.Disjoint C := by
  rintro a ⟨hBa, hCa⟩
  have hPP : P = P' := by
    by_contra hne
    exact InPage.ne (hB.owns_inPage hBa) (hC.owns_inPage hCa) hP hP' hne rfl
  subst hPP
  have hin := hB.owns_inPage hBa
  have hlt : (a - P) / 64 < 64 := by
    obtain ⟨hlo, hhi⟩ := hin
    omega
  exact hunit ((a - P) / 64) hlt ((hB.owns_iff_unit hin).mp hBa) ((hC.owns_iff_unit hin).mp hCa)

/-- A new block whose units were free, with the bitmaps updated for it. -/
theorem HeapInv.insert (hi : HeapInv s T D) (hl : Layout h' T D')
    (hsub : ∀ x ∈ D, x ∈ D') (hN : Placed h' D' N e P st)
    (hdis : ∀ C ∈ s.live, N.Disjoint C)
    (hmem : ∀ C ∈ s.live, ∀ a, C.Owns a → h'.mem a = s.mem a)
    (hexact : ∀ e P, (e, P) ∈ D' → ∀ b < 64, ((h'.mem e).getLsbD b = true ↔
      ¬ N.Owns (P + 64 * b) ∧ ∀ C ∈ s.live, ¬ C.Owns (P + 64 * b))) :
    HeapInv ⟨h', N :: s.live⟩ T D' := by
  refine ⟨hl, fun e P hD b hb => ?_, List.pairwise_cons.mpr ⟨hdis, hi.disjoint⟩, fun C hC => ?_⟩
  · rw [hexact e P hD b hb, List.forall_mem_cons]
  · rcases List.mem_cons.mp hC with rfl | hC
    · exact ⟨e, P, st, hN⟩
    · obtain ⟨e', P', st', hp⟩ := hi.placed C hC
      exact ⟨e', P', st', hp.congr (hsub _ hp.attached) (hmem C hC)⟩

/-- The pointer and memory that a run of `units n` units ending at `j` gives. -/
theorem takeRun_ok (hfit : units n ≤ j + 1) (hj : j < 64)
    (hP : P = (h.mem (e + 8)).toNat)
    (hok : h.takeRun (BitVec.ofNat 64 (units n)) e j = .ok (p, h')) :
    ~~~h.mem e &&& jshift (BitVec.ofNat 64 (units n)) (BitVec.ofNat 64 j) = 0#64 ∧
      p = P + 64 * (j + 1 - units n) + 64 ∧
      h' = h.flipped e (jshift (BitVec.ofNat 64 (units n)) (BitVec.ofNat 64 j)) p
        (BitVec.ofNat 64 (e + 8)) (BitVec.ofNat 64 j) (BitVec.ofNat 64 (units n)) := by
  rw [takeRun] at hok
  split at hok
  · rename_i hset
    dsimp only at hok
    split at hok
    · cases hok
    · obtain ⟨hp, hh⟩ := Prod.mk.inj (Except.ok.inj hok)
      rw [poke_other (by omega), ← hP, toNat_runStart hfit hj] at hp
      refine ⟨hset, by omega, ?_⟩
      rw [← hh, flipped, ← hp, poke_other (by omega), ← hP, toNat_runStart hfit hj]
  · cases hok

theorem takeRun_layout (hl : Layout h T D) (hD : (e, P) ∈ D) (hn : 1 ≤ n)
    (hfit : units n ≤ j + 1) (hj : j < 64)
    (hok : h.takeRun (BitVec.ofNat 64 (units n)) e j = .ok (p, h')) : Layout h' T D := by
  obtain ⟨-, hp, rfl⟩ := takeRun_ok hfit hj (hl.entry_page hD).2 hok
  have htwo := two_le_units hn
  exact hl.flipped hD hp (by omega)

/-- The header `takeRun` writes places the block. -/
theorem takeRun_placed (hl : Layout h T D) (hD : (e, P) ∈ D) (hn : 1 ≤ n)
    (hsmall : units n < 32) (hfit : units n ≤ j + 1) (hj : j < 64)
    (hok : h.takeRun (BitVec.ofNat 64 (units n)) e j = .ok (p, h')) :
    Placed h' D ⟨p, n⟩ e P (j + 1 - units n) := by
  obtain ⟨-, hp, rfl⟩ := takeRun_ok hfit hj (hl.entry_page hD).2 hok
  have hge : 64 ≤ p := by omega
  have hlast : j + 1 - units n + units n - 1 = j := by omega
  refine ⟨hD, hp, ?_, hn, hsmall, header_slot hge, ?_, header_size⟩
  · change j + 1 - units n + units n ≤ 64
    omega
  · change (h.flipped e _ p _ _ _).mem (p - 16) = BitVec.ofNat 64 (j + 1 - units n + units n - 1)
    rw [hlast]
    exact header_last hge

theorem takeRun_good (hi : HeapInv s T D) (hD : (e, P) ∈ D) (hn : 1 ≤ n) (hsmall : units n < 32)
    (hfit : units n ≤ j + 1) (hj : j < 64)
    (hok : s.toHeap.takeRun (BitVec.ofNat 64 (units n)) e j = .ok (p, h')) :
    HeapInv ⟨h', ⟨p, n⟩ :: s.live⟩ T D := by
  have hN := takeRun_placed hi.toLayout hD hn hsmall hfit hj hok
  have hl := takeRun_layout hi.toLayout hD hn hfit hj hok
  obtain ⟨hset, hp, rfl⟩ := takeRun_ok hfit hj (hi.entry_page hD).2 hok
  have htwo := two_le_units hn
  have hmask : ∀ b < 64, ((jshift (BitVec.ofNat 64 (units n)) (BitVec.ofNat 64 j)).getLsbD b =
      true ↔ Block.Owns ⟨p, n⟩ (P + 64 * b)) := by
    intro b hb
    rw [getLsbD_jshift_small hsmall hfit hj hb, hN.owns_unit, decide_eq_true_iff]
    change _ ↔ _ ∧ b < j + 1 - units n + units n
    omega
  have hfree : ∀ b < 64, Block.Owns ⟨p, n⟩ (P + 64 * b) →
      ∀ C ∈ s.live, ¬ C.Owns (P + 64 * b) := by
    intro b hb howns
    have hbit := not_and_eq_zero_iff.mp hset b hb ((hmask b hb).mpr howns)
    exact (hi.exact e P hD b hb).mp hbit
  have hdis : ∀ C ∈ s.live, Block.Disjoint ⟨p, n⟩ C := by
    intro C hC
    obtain ⟨e', P', st', hpC⟩ := hi.placed C hC
    exact hN.disjoint hpC (hi.page_aligned hD) (hi.page_aligned hpC.attached)
      fun b hb howns => hfree b hb howns C hC
  refine hi.insert hl (fun x hx => hx) hN hdis (fun C hC a ha => ?_) fun e' P' hD' b hb => ?_
  · obtain ⟨e', P', st', hpC⟩ := hi.placed C hC
    exact flipped_frame (B := ⟨p, n⟩) hp hn
      (hi.entry_sep hD hpC.attached (hpC.owns_inPage ha)).symm fun ho => hdis C hC a ⟨ho, ha⟩
  · by_cases hee : e' = e
    · subst hee
      obtain rfl := hi.page_unique hD hD'
      rw [flipped_bitmap hi.toLayout hD hp (by omega), BitVec.getLsbD_xor]
      by_cases howns : Block.Owns ⟨p, n⟩ (P + 64 * b)
      · have hm := (hmask b hb).mpr howns
        rw [hm, not_and_eq_zero_iff.mp hset b hb hm]
        constructor
        · intro hff
          cases hff
        · intro hno
          exact absurd howns hno.1
      · have hm : (jshift (BitVec.ofNat 64 (units n)) (BitVec.ofNat 64 j)).getLsbD b = false := by
          rw [Bool.eq_false_iff]
          exact fun hm => howns ((hmask b hb).mp hm)
        rw [hm, Bool.xor_false, hi.exact e' P hD b hb]
        exact ⟨fun hall => ⟨howns, hall⟩, fun hall => hall.2⟩
    · have hnot : ¬ Block.Owns ⟨p, n⟩ e' := fun howns =>
        hi.entry_sep hD' hD (hN.owns_inPage howns) rfl
      rw [flipped_frame (B := ⟨p, n⟩) hp hn hee hnot, hi.exact e' P' hD' b hb]
      exact ⟨fun hall => ⟨hN.not_owns_other hl hD' hee hb, hall⟩, fun hall => hall.2⟩

/-- From 32 units on the last unit of the run stays marked as it was: as free, or as the unit
of another live block. -/
theorem takeRun_bad (hi : HeapInv s T D) (hD : (e, P) ∈ D) (hn : 1 ≤ n) (hlarge : 32 ≤ units n)
    (hfit : units n ≤ j + 1) (hj : j < 64)
    (hok : s.toHeap.takeRun (BitVec.ofNat 64 (units n)) e j = .ok (p, h')) :
    ¬ HeapOk ⟨h', ⟨p, n⟩ :: s.live⟩ := by
  intro hgood
  have hl := takeRun_layout hi.toLayout hD hn hfit hj hok
  obtain ⟨-, hp, rfl⟩ := takeRun_ok hfit hj (hi.entry_page hD).2 hok
  have howns : Block.Owns ⟨p, n⟩ (P + 64 * j) := by
    change p ≤ P + 64 * j + 64 ∧ P + 64 * j + 64 < p + 64 * units n
    omega
  have hnew := hgood.exact e P ((hl.attached e P).mp hD) j hj
  change (((s.toHeap.flipped e _ p _ _ _).mem e).getLsbD j = true ↔ _) at hnew
  rw [flipped_bitmap hi.toLayout hD hp (by omega), BitVec.getLsbD_xor,
    getLsbD_jshift_large hlarge hfit hj, Bool.xor_false, hi.exact e P hD j hj] at hnew
  have hold : ¬ ∀ C ∈ s.live, ¬ C.Owns (P + 64 * j) := fun hall =>
    hnew.mp hall _ List.mem_cons_self howns
  apply hold
  intro C hC hown
  exact (List.pairwise_cons.mp hgood.disjoint).1 C hC _ ⟨howns, hown⟩

end UnnamedOS.Memory
