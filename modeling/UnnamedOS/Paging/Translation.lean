import UnnamedOS.Paging.Pager

/-!
# Addresses and the page walk

`V2P`, and the index splits of `ALSP`, `P_FREE` and `construct_virtual_address`, over the quads of
the tables in physical memory.
-/

namespace UnnamedOS.Paging

/-- The quads of the top table, and of the physical page at an address. -/
structure Tables where
  top : Nat → UInt64
  page : UInt64 → Nat → UInt64

namespace Tables

variable (t : Tables)

def get_pml4V (pml4 : Nat) : UInt64 := t.top pml4

def get_pdptV (pml4 pdpt : Nat) : UInt64 := t.page (t.get_pml4V pml4 &&& ~~~0xFFF) pdpt

def get_pdeV (pml4 pdpt pde : Nat) : UInt64 := t.page (t.get_pdptV pml4 pdpt &&& ~~~0xFFF) pde

def get_ptV (p : Page) : UInt64 := t.page (t.get_pdeV p.pml4 p.pdpt p.pde &&& ~~~0xFFF) p.pt

def V2P (V : UInt64) : UInt64 :=
  let offset := V &&& 0xFFF
  let pt := (V &&& 0x1FF000) >>> 12
  let pde := (V &&& 0x3FE00000) >>> 21
  let pdpt := (V &&& 0x7FB0000000) >>> 30
  let pml4 := (V &&& 0xFF8000000000) >>> 39
  (t.get_ptV ⟨pml4.toNat, pdpt.toNat, pde.toNat, pt.toNat⟩ &&& ~~~0xFFF) + offset

/-- The frame number that `P_FREE` gives to `PL_SV`. -/
def frameFreed (v_add : UInt64) : UInt64 := t.V2P v_add >>> 12

/-- The frame address in the leaf entry that `ALSP` fills and `P_FREE` removes. -/
def leafFrame (v_add : UInt64) : UInt64 := t.get_ptV (pageOf v_add) &&& ~~~0xFFF

/-- The four levels of the walk to an address are present. -/
structure Present (v : UInt64) : Prop where
  pml4 : t.get_pml4V (pageOf v).pml4 &&& 1 ≠ 0
  pdpt : t.get_pdptV (pageOf v).pml4 (pageOf v).pdpt &&& 1 ≠ 0
  pde : t.get_pdeV (pageOf v).pml4 (pageOf v).pdpt (pageOf v).pde &&& 1 ≠ 0
  pt : t.get_ptV (pageOf v) &&& 1 ≠ 0

end Tables

/-- The indices of a page are those of entries. -/
structure Page.InTables (p : Page) : Prop where
  pml4 : p.pml4 < 512
  pdpt : p.pdpt < 512
  pde : p.pde < 512
  pt : p.pt < 512

/-- `V2P` agrees with the walk, `P_FREE` frees the frame it unmaps, and the split undoes
`construct_virtual_address`. -/
structure Tables.Translates (t : Tables) (v : UInt64) : Prop where
  address : t.V2P v = t.leafFrame v + v % 4096
  freed : t.frameFreed v = t.leafFrame v >>> 12
  split : ∀ p : Page, p.InTables → pageOf (constructVirtualAddress p) = p

/-- The fields of an address, as the mask of each selects them. -/
theorem toNat_field {v mask shift : UInt64} {k d : Nat} (hs : shift.toNat % 64 = k)
    (hm : mask.toNat >>> k = 511) (hd : ∀ n : Nat, n >>> k = n / d) :
    ((v &&& mask) >>> shift).toNat = v.toNat / d % 512 := by
  rw [UInt64.toNat_shiftRight, UInt64.toNat_and, hs, Nat.shiftRight_and_distrib, hm, hd]
  exact Nat.and_two_pow_sub_one_eq_mod _ 9

theorem pageOf_eq (v : UInt64) : pageOf v =
    ⟨v.toNat / 549755813888 % 512, v.toNat / 1073741824 % 512, v.toNat / 2097152 % 512,
      v.toNat / 4096 % 512⟩ := by
  unfold pageOf
  rw [toNat_field (d := 549755813888) (k := 39) rfl (by decide)
      (fun n => Nat.shiftRight_eq_div_pow n 39),
    toNat_field (d := 1073741824) (k := 30) rfl (by decide)
      (fun n => Nat.shiftRight_eq_div_pow n 30),
    toNat_field (d := 2097152) (k := 21) rfl (by decide)
      (fun n => Nat.shiftRight_eq_div_pow n 21),
    toNat_field (d := 4096) (k := 12) rfl (by decide)
      (fun n => Nat.shiftRight_eq_div_pow n 12)]

theorem pageOf_inTables (v : UInt64) : (pageOf v).InTables := by
  rw [pageOf_eq]
  exact ⟨Nat.mod_lt _ (by decide), Nat.mod_lt _ (by decide), Nat.mod_lt _ (by decide),
    Nat.mod_lt _ (by decide)⟩

theorem pageOf_constructVirtualAddress {p : Page} (hp : p.InTables) :
    pageOf (constructVirtualAddress p) = p := by
  obtain ⟨h1, h2, h3, h4⟩ := hp
  obtain ⟨pml4, pdpt, pde, pt⟩ := p
  dsimp only at h1 h2 h3 h4
  have hv : (constructVirtualAddress ⟨pml4, pdpt, pde, pt⟩).toNat =
      pt * 0x1000 + pde * 0x1000 * 512 + pdpt * 0x1000 * 512 * 512
        + pml4 * 0x1000 * 512 * 512 * 512 := by
    unfold constructVirtualAddress
    exact UInt64.toNat_ofNat_of_lt' (by
      show pt * 0x1000 + pde * 0x1000 * 512 + pdpt * 0x1000 * 512 * 512
        + pml4 * 0x1000 * 512 * 512 * 512 < 18446744073709551616
      omega)
  rw [pageOf_eq, hv, Page.mk.injEq]
  omega

/-- What the mask of the second index makes `V2P` look up. -/
theorem V2P_eq (t : Tables) (v : UInt64) :
    t.V2P v = t.leafFrame (v &&& ~~~0x40000000) + (v &&& 0xFFF) := by
  have hkeep : ∀ m : UInt64, ~~~0x40000000 &&& m = m → v &&& ~~~0x40000000 &&& m = v &&& m := by
    intro m hm
    rw [UInt64.and_assoc, hm]
  have hpdpt : (v &&& ~~~0x40000000 &&& 0x7FC0000000) >>> 30 = (v &&& 0x7FB0000000) >>> 30 := by
    have hmask : (~~~0x40000000 &&& 0x7FC0000000 : UInt64) >>> 30 = (0x7FB0000000 : UInt64) >>> 30 := by
      decide
    rw [UInt64.and_assoc, UInt64.shiftRight_and, hmask, ← UInt64.shiftRight_and]
  unfold Tables.V2P Tables.leafFrame pageOf
  rw [hkeep 0xFF8000000000 (by decide), hkeep 0x3FE00000 (by decide), hkeep 0x1FF000 (by decide),
    hpdpt]

theorem and_offset (v : UInt64) : v &&& 0xFFF = v % 4096 := by
  rw [← UInt64.toNat_inj, UInt64.toNat_and, UInt64.toNat_mod]
  exact Nat.and_two_pow_sub_one_eq_mod v.toNat 12

/-- An offset does not carry into a frame address. -/
theorem frame_add_offset (x v : UInt64) :
    ((x &&& ~~~0xFFF) + v % 4096) >>> 12 = (x &&& ~~~0xFFF) >>> 12 := by
  have hoffset : (v % 4096).toNat < 4096 := by
    rw [UInt64.toNat_mod]
    exact Nat.mod_lt _ (by decide)
  have hframe : (x &&& ~~~0xFFF).toNat % 4096 = 0 := by
    have hnone : (x &&& ~~~0xFFF) &&& 0xFFF = 0 := by
      rw [UInt64.and_assoc]
      exact UInt64.and_zero
    rw [and_offset] at hnone
    exact (UInt64.toNat_mod _ _).symm.trans (congrArg UInt64.toNat hnone)
  have hlt := (x &&& ~~~0xFFF).toNat_lt
  rw [← UInt64.toNat_inj, UInt64.toNat_shiftRight, UInt64.toNat_shiftRight, UInt64.toNat_add,
    Nat.mod_eq_of_lt (by omega)]
  show ((x &&& ~~~0xFFF).toNat + (v % 4096).toNat) >>> 12 = (x &&& ~~~0xFFF).toNat >>> 12
  rw [Nat.shiftRight_eq_div_pow, Nat.shiftRight_eq_div_pow]
  omega

/-- The translation is right exactly for the addresses whose bit 30 is clear, and for those whose
frame is also the one at the address without that bit. -/
theorem translates_iff (t : Tables) (v : UInt64) :
    t.Translates v ↔
      v &&& 0x40000000 = 0 ∨ t.leafFrame (v &&& ~~~0x40000000) = t.leafFrame v := by
  have hclear : v &&& 0x40000000 = 0 → v &&& ~~~0x40000000 = v := by
    intro h
    rw [← UInt64.toBitVec_inj] at h ⊢
    apply BitVec.eq_of_getLsbD_eq
    intro b hb
    have hbit := congrArg (fun x => x.getLsbD b) h
    simp only [UInt64.toBitVec_and, BitVec.getLsbD_and] at hbit
    rw [UInt64.toBitVec_and, UInt64.toBitVec_not, BitVec.getLsbD_and, BitVec.getLsbD_not]
    cases hv : v.toBitVec.getLsbD b
    · rfl
    · rw [hv, Bool.true_and] at hbit
      rw [hbit]
      simp [hb]
  have hV2P : t.V2P v = t.leafFrame (v &&& ~~~0x40000000) + v % 4096 := by
    rw [V2P_eq, and_offset]
  constructor
  · intro h
    have haddr := h.address
    rw [hV2P] at haddr
    exact Or.inr ((UInt64.add_left_inj _).mp haddr)
  · intro h
    have hframe : t.leafFrame (v &&& ~~~0x40000000) = t.leafFrame v := by
      rcases h with hbit | hsame
      · rw [hclear hbit]
      · exact hsame
    have haddr : t.V2P v = t.leafFrame v + v % 4096 := by rw [hV2P, hframe]
    refine ⟨haddr, ?_, fun p hp => pageOf_constructVirtualAddress hp⟩
    rw [Tables.frameFreed, haddr]
    exact frame_add_offset _ v

/-- The pages of every second GiB are mapped to one frame, the others to another. -/
def twoFrames : Tables where
  top := fun _ => 0x1001
  page := fun AD i => if AD = 0x1000 then (if i = 1 then 0x3001 else 0x2001)
    else if AD = 0x3000 then 0x5001 else if AD = 0x2000 then 0x4001
    else if AD = 0x5000 then 0x7001 else 0x6001

theorem secondGiB_not_translated : twoFrames.Present 0x40000000 ∧
    ¬ twoFrames.Translates 0x40000000 := by
  refine ⟨⟨by decide, by decide, by decide, by decide⟩, fun h => ?_⟩
  exact absurd h.address (by decide)

end UnnamedOS.Paging
