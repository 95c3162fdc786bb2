import Mathlib.Data.List.Perm.Basic
import UnnamedOS.Memory.Take

/-!
# Attaching a page

What `malloc` does when no attached page has room: a page for an unallocated entry, after a
new table if every entry of the chain is attached.
-/

namespace UnnamedOS.Memory

open UnnamedOS.Lib Heap

variable {h h' : Heap} {s s' : HeapState} {T : List Nat} {D : List (Nat × Nat)} {C : Block}
  {e P a b n p mcp : Nat} {ps : List Nat} {v : BitVec 64} {size : BitVec 64}

theorem kpalloc_ok (hok : h.kpalloc = .ok (p, h')) :
    ∃ ps, h.pages = p :: ps ∧ h' = { h with pages := ps }.memfill p := by
  rw [kpalloc] at hok
  split at hok
  · cases hok
  · rename_i q ps hpages
    obtain ⟨rfl, rfl⟩ := Prod.mk.inj (Except.ok.inj hok)
    exact ⟨ps, hpages, rfl⟩

/-- The page `q` as a table behind `mcp`. -/
def Heap.withTable (h : Heap) (mcp q : Nat) (ps : List Nat) : Heap :=
  ((({ h with pages := ps } : Heap).memfill q).poke (mcp + 8 * 511) (BitVec.ofNat 64 q)).memfill q

namespace Heap.Layout

/-- A page that has not been handed out is none of the others. -/
theorem fresh (hl : Layout h T D) (hpages : h.pages = p :: ps) :
    PageAddr p ∧ p ∉ T ∧ p ∉ D.map Prod.snd := by
  have hnd := hl.nodup
  have hal := hl.aligned
  rw [hpages] at hnd hal
  obtain ⟨-, hrest, hT⟩ := List.nodup_append.mp hnd
  obtain ⟨-, -, hDp⟩ := List.nodup_append.mp hrest
  refine ⟨hal p (by simp), fun hmem => ?_, fun hmem => ?_⟩
  · exact hT p hmem p (by simp) rfl
  · exact hDp p hmem p List.mem_cons_self rfl

theorem fresh_sep (hl : Layout h T D) (hpages : h.pages = p :: ps) {t : Nat} (ht : t ∈ T)
    (ha : InPage t a) : ¬ InPage p a := by
  obtain ⟨hp, hT, -⟩ := hl.fresh hpages
  intro hin
  exact ha.ne hin (hl.table_aligned ht) hp (fun he => hT (he ▸ ht)) rfl

theorem fresh_entry_sep (hl : Layout h T D) (hpages : h.pages = p :: ps)
    (he : h.Unallocated T e) {o : Nat} (ho : o < 16) : ¬ InPage p (e + o) := by
  obtain ⟨t, ht, i, hi, rfl, -⟩ := he
  exact hl.fresh_sep hpages ht ⟨by omega, by omega⟩

theorem unallocated_not_mem (hl : Layout h T D) (he : h.Unallocated T e) : (e, P) ∉ D := by
  obtain ⟨t, ht, i, hi, rfl, hz⟩ := he
  intro hD
  exact (hl.entry_page hD).1 hz

/-- An entry is attached by storing a fresh page in its second word. -/
theorem addPage (hl : Layout h T D) (hpages : h.pages = p :: ps) (he : h.Unallocated T e)
    (hml1 : h'.ml1 = h.ml1) (hpages' : h'.pages = ps)
    (hslot : h'.mem (e + 8) = BitVec.ofNat 64 p)
    (hmem : ∀ a, a ≠ e → a ≠ e + 8 → ¬ InPage p a → h'.mem a = h.mem a) :
    Layout h' T ((e, p) :: D) := by
  obtain ⟨hp, hpT, hpD⟩ := hl.fresh hpages
  have hp64 : p < 2 ^ 64 := by
    obtain ⟨_, _, hlt⟩ := hp
    omega
  have hpne : BitVec.ofNat 64 p ≠ 0#64 := ofNat_ne_zero_of_lt hp64 hp.2.1
  obtain ⟨t₀, ht₀, i₀, hi₀, he₀, hz⟩ := he
  -- Words of the tables other than the two of `e` are as they were.
  have htab : ∀ t ∈ T, ∀ o < 4096, t + o ≠ e → t + o ≠ e + 8 → h'.mem (t + o) = h.mem (t + o) :=
    fun t ht o ho hne hne' =>
      hmem _ hne hne' (hl.fresh_sep hpages ht ⟨by omega, by omega⟩)
  have hsame : ∀ t ∈ T, ∀ o < 4096, ∀ o' < 4096, t + o = t₀ + o' → o = o' := by
    intro t ht o ho o' ho' heq
    by_cases hne : t = t₀
    · omega
    · exact absurd heq (InPage.ne ⟨by omega, by omega⟩ ⟨by omega, by omega⟩ (hl.table_aligned ht)
        (hl.table_aligned ht₀) hne)
  have hnext : ∀ t ∈ T, h.nextTable t = h'.nextTable t := by
    intro t ht
    have hw : h'.mem (t + 8 * 511) = h.mem (t + 8 * 511) := by
      apply htab t ht (8 * 511) (by omega)
      · intro heq
        have ho := hsame t ht (8 * 511) (by omega) (16 * i₀) (by omega) (by omega)
        omega
      · intro heq
        have ho := hsame t ht (8 * 511) (by omega) (16 * i₀ + 8) (by omega) (by omega)
        omega
    rw [nextTable, nextTable, hw]
  have hchain : Chain h'.nextTable (some h'.ml1) T := by
    rw [hml1]
    exact (chain_congr hnext).mp hl.chain
  have hword : ∀ t ∈ T, ∀ i < 255, t + 16 * i ≠ e → h'.mem (t + 16 * i + 8) =
      h.mem (t + 16 * i + 8) := by
    intro t ht i hi hne
    apply htab t ht (16 * i + 8) (by omega)
    · intro heq
      have ho := hsame t ht (16 * i + 8) (by omega) (16 * i₀) (by omega) (by omega)
      omega
    · intro heq
      omega
  have hperm : (T ++ (((e, p) :: D).map Prod.snd ++ ps)).Perm
      (T ++ (D.map Prod.snd ++ h.pages)) := by
    rw [hpages, List.map_cons, List.cons_append]
    exact List.Perm.append_left T List.perm_middle.symm
  refine ⟨hchain, fun e' P' => ?_, hpages' ▸ hperm.nodup_iff.mpr hl.nodup,
    hpages' ▸ fun x hx => hl.aligned x (hperm.mem_iff.mp hx)⟩
  rw [List.mem_cons, hl.attached]
  constructor
  · rintro (heq | ⟨t, i, ht, hi, rfl, hne, hP⟩)
    · obtain ⟨rfl, rfl⟩ := Prod.mk.inj heq
      refine ⟨t₀, i₀, (chain_mem_iff hchain).mp ht₀, hi₀, he₀, ?_, ?_⟩
      · rwa [hslot]
      · rw [hslot, toNat_ofNat_of_lt hp64]
    · have htT := hl.isTable_iff.mp ht
      have hte : t + 16 * i ≠ e := by
        rintro rfl
        exact hne hz
      rw [← hword t htT i hi hte] at hne hP
      exact ⟨t, i, (chain_mem_iff hchain).mp htT, hi, rfl, hne, hP⟩
  · rintro ⟨t, i, ht, hi, rfl, hne, hP⟩
    have htT : t ∈ T := (chain_mem_iff hchain).mpr ht
    by_cases hte : t + 16 * i = e
    · rw [hte, hslot, toNat_ofNat_of_lt hp64] at hP
      exact Or.inl (by rw [hte, hP])
    · rw [hword t htT i hi hte] at hne hP
      exact Or.inr ⟨t, i, hl.isTable_iff.mpr htT, hi, rfl, hne, hP⟩

/-- The table without a successor is the last one. -/
theorem last_table (hl : Layout h T D) (hmem : mcp ∈ T) (hnone : h.nextTable mcp = none) :
    ∃ l, T = l ++ [mcp] := by
  obtain ⟨l, l', rfl⟩ := List.append_of_mem hmem
  have hc := chain_suffix hl.chain
  rw [hnone, chain_none] at hc
  exact ⟨l, by rw [hc]⟩

/-- A zeroed page becomes the last table. -/
theorem addTable (hl : Layout h T D) (hpages : h.pages = p :: ps) (hmcp : mcp ∈ T)
    (hnone : h.nextTable mcp = none) (hml1 : h'.ml1 = h.ml1) (hpages' : h'.pages = ps)
    (hlink : h'.mem (mcp + 8 * 511) = BitVec.ofNat 64 p)
    (hzero : ∀ a, InPage p a → h'.mem a = 0#64)
    (hmem : ∀ a, a ≠ mcp + 8 * 511 → ¬ InPage p a → h'.mem a = h.mem a) :
    Layout h' (T ++ [p]) D := by
  obtain ⟨hp, hpT, hpD⟩ := hl.fresh hpages
  have hp64 : p < 2 ^ 64 := by
    obtain ⟨_, _, hlt⟩ := hp
    omega
  have hpne : BitVec.ofNat 64 p ≠ 0#64 := ofNat_ne_zero_of_lt hp64 hp.2.1
  obtain ⟨l, hTl⟩ := hl.last_table hmcp hnone
  have htab : ∀ t ∈ T, ∀ o < 4096, (t ≠ mcp ∨ o ≠ 8 * 511) → h'.mem (t + o) = h.mem (t + o) := by
    intro t ht o ho hne
    apply hmem
    · intro heq
      by_cases htm : t = mcp
      · omega
      · exact InPage.ne (x := t) (y := mcp) ⟨by omega, by omega⟩ ⟨by omega, by omega⟩
          (hl.table_aligned ht) (hl.table_aligned hmcp) htm heq
    · exact hl.fresh_sep hpages ht ⟨by omega, by omega⟩
  have hnd : mcp ∉ l := by
    have hTnd := chain_nodup hl.chain
    rw [hTl] at hTnd
    intro hm
    exact (List.nodup_append.mp hTnd).2.2 mcp hm mcp List.mem_cons_self rfl
  have hnext : ∀ t ∈ l, h.nextTable t = h'.nextTable t := by
    intro t ht
    have htT : t ∈ T := hTl ▸ List.mem_append_left _ ht
    have hw := htab t htT (8 * 511) (by omega) (Or.inl fun he => hnd (he ▸ ht))
    rw [nextTable, nextTable, hw]
  have hlast : h'.nextTable mcp = some p := by
    rw [nextTable, hlink, if_neg hpne, toNat_ofNat_of_lt hp64]
  have hend : h'.nextTable p = none := by
    rw [nextTable, hzero _ ⟨by omega, by omega⟩, if_pos rfl]
  have hchain : Chain h'.nextTable (some h'.ml1) (T ++ [p]) := by
    have hseg : Seg h.nextTable (some h.ml1) l (some mcp) := by
      have hc := hl.chain
      rw [hTl] at hc
      exact (seg_concat.mp hc).1
    rw [hml1, hTl]
    exact seg_concat.mpr ⟨seg_concat.mpr ⟨(seg_congr hnext).mp hseg, hlast⟩, hend⟩
  have hslot : ∀ t ∈ T, ∀ i < 255, h'.mem (t + 16 * i + 8) = h.mem (t + 16 * i + 8) :=
    fun t ht i hi => htab t ht (16 * i + 8) (by omega) (Or.inr (by omega))
  have hperm : (T ++ [p] ++ (D.map Prod.snd ++ ps)).Perm (T ++ (D.map Prod.snd ++ h.pages)) := by
    rw [hpages, List.append_assoc, List.singleton_append]
    exact List.Perm.append_left T List.perm_middle.symm
  refine ⟨hchain, fun e P => ?_, hpages' ▸ hperm.nodup_iff.mpr hl.nodup,
    hpages' ▸ fun x hx => hl.aligned x (hperm.mem_iff.mp hx)⟩
  rw [hl.attached]
  constructor
  · rintro ⟨t, i, ht, hi, rfl, hne, hP⟩
    have htT := hl.isTable_iff.mp ht
    rw [← hslot t htT i hi] at hne hP
    exact ⟨t, i, (chain_mem_iff hchain).mp (List.mem_append_left _ htT), hi, rfl, hne, hP⟩
  · rintro ⟨t, i, ht, hi, rfl, hne, hP⟩
    rcases List.mem_append.mp ((chain_mem_iff hchain).mpr ht) with htT | htp
    · rw [hslot t htT i hi] at hne hP
      exact ⟨t, i, hl.isTable_iff.mpr htT, hi, rfl, hne, hP⟩
    · obtain rfl := List.mem_singleton.mp htp
      exact absurd (hzero _ ⟨by omega, by omega⟩) hne

end Heap.Layout

/-- A fresh page holds no live block. -/
theorem HeapInv.owns_not_fresh (hi : HeapInv s T D) (hpages : s.pages = p :: ps)
    (hC : C ∈ s.live) (ha : C.Owns a) : ¬ InPage p a := by
  obtain ⟨hp, -, hpD⟩ := hi.fresh hpages
  obtain ⟨e, P, st, hpC⟩ := hi.placed C hC
  intro hin
  apply InPage.ne hin (hpC.owns_inPage ha) hp (hi.page_aligned hpC.attached) _ rfl
  rintro rfl
  exact hpD (Layout.mem_pages hpC.attached)

theorem withTable_mem (hne : a ≠ mcp + 8 * 511) (hout : ¬ InPage p a) :
    (h.withTable mcp p ps).mem a = h.mem a := by
  rw [withTable, memfill_outside hout, poke_other hne, memfill_outside hout]

/-- A new table keeps the attached pages, and its own entries are unallocated. -/
theorem Heap.Layout.withTable (hl : Layout h T D) (hpages : h.pages = p :: ps) (hmcp : mcp ∈ T)
    (hnone : h.nextTable mcp = none) : Layout (h.withTable mcp p ps) (T ++ [p]) D ∧
      (h.withTable mcp p ps).Unallocated (T ++ [p]) p := by
  have hlink : ¬ InPage p (mcp + 8 * 511) := hl.fresh_sep hpages hmcp ⟨by omega, by omega⟩
  constructor
  · have hword : (h.withTable mcp p ps).mem (mcp + 8 * 511) = BitVec.ofNat 64 p := by
      rw [Heap.withTable, memfill_outside hlink, poke_same]
    exact hl.addTable hpages hmcp hnone rfl rfl hword (fun a ha => memfill_inside ha)
      fun a => withTable_mem
  · exact ⟨p, List.mem_append_right T List.mem_cons_self, 0, by omega, by omega,
      memfill_inside ⟨by omega, by omega⟩⟩

/-- An attached entry is not the link of a table. -/
theorem Heap.Layout.entry_ne_link (hl : Layout h T D) (hD : (e, P) ∈ D) (hmcp : mcp ∈ T) :
    e ≠ mcp + 8 * 511 := by
  obtain ⟨t, ht, i, hi, rfl⟩ := hl.entry hD
  intro heq
  by_cases htm : t = mcp
  · omega
  · exact InPage.ne (x := t) (y := mcp) ⟨by omega, by omega⟩ ⟨by omega, by omega⟩
      (hl.table_aligned ht) (hl.table_aligned hmcp) htm heq

theorem newEntry_good (hi : HeapInv s T D) (hmcp : mcp ∈ T) (hnone : s.nextTable mcp = none)
    {NA : Option Nat} (hNA : ∀ e, NA = some e → s.Unallocated T e)
    (hok : s.toHeap.newEntry mcp NA = .ok (e, h')) :
    ∃ T', HeapInv ⟨h', s.live⟩ T' D ∧ h'.Unallocated T' e := by
  cases NA with
  | some e' =>
      obtain ⟨rfl, rfl⟩ := Prod.mk.inj (Except.ok.inj hok)
      exact ⟨T, hi, hNA e' rfl⟩
  | none =>
      rw [newEntry] at hok
      split at hok
      · cases hok
      · rename_i q h₁ hk
        obtain ⟨rfl, rfl⟩ := Prod.mk.inj (Except.ok.inj hok)
        obtain ⟨ps, hpages, rfl⟩ := kpalloc_ok hk
        obtain ⟨hl, hun⟩ := hi.toLayout.withTable hpages hmcp hnone
        refine ⟨T ++ [q], ⟨hl, fun e P hD b hb => ?_, hi.disjoint, fun C hC => ?_⟩, hun⟩
        · have hbit : (s.toHeap.withTable mcp q ps).mem e = s.mem e := by
            apply withTable_mem (hi.entry_ne_link hD hmcp)
            obtain ⟨t, ht, i, hi', rfl⟩ := hi.entry hD
            exact hi.fresh_sep hpages ht ⟨by omega, by omega⟩
          change ((s.toHeap.withTable mcp q ps).mem e).getLsbD b = true ↔ _
          rw [hbit]
          exact hi.exact e P hD b hb
        · obtain ⟨e, P, st, hpC⟩ := hi.placed C hC
          refine ⟨e, P, st, hpC.congr hpC.attached fun a ha => ?_⟩
          have hlink : a ≠ mcp + 8 * 511 := fun heq =>
            hi.table_page_sep hmcp hpC.attached (a := a) ⟨by omega, by omega⟩
              (hpC.owns_inPage ha) rfl
          exact withTable_mem hlink (hi.owns_not_fresh hpages hC ha)

end UnnamedOS.Memory
