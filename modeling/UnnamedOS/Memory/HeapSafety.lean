import UnnamedOS.Lib.Run
import UnnamedOS.Memory.Attach

/-!
# The heap over runs

Every request of at most 1920 bytes keeps the bitmaps exact, whatever has been taken and freed
before; the first larger one that succeeds breaks them.
-/

namespace UnnamedOS.Memory

open UnnamedOS.Lib Heap

variable {h h' : Heap} {s s' s₀ : HeapState} {T : List Nat} {D : List (Nat × Nat)} {B C : Block}
  {e P a b n p mcp : Nat} {size : BitVec 64} {ops : List HeapOp}

/-- What `takePage` leaves in memory. -/
structure PageTaken (h h' : Heap) (size : BitVec 64) (e q : Nat) : Prop where
  ml1 : h'.ml1 = h.ml1
  pages : h.pages = q :: h'.pages
  bitmap : h'.mem e = 0xFFFFFFFFFFFFFFFF#64 ^^^ sizebitmask size
  entry : h'.mem (e + 8) = BitVec.ofNat 64 q
  slot : h'.mem (q + 56) = BitVec.ofNat 64 (e + 8)
  last : h'.mem (q + 48) = size - 1#64
  size : h'.mem (q + 40) = size
  rest : ∀ a, a ≠ e → a ≠ e + 8 → ¬ InPage q a → h'.mem a = h.mem a

theorem takePage_ok (hl : Layout h T D) (he : h.Unallocated T e)
    (hok : h.takePage size e = .ok (p, h')) : ∃ q, p = q + 64 ∧ PageTaken h h' size e q := by
  rw [takePage] at hok
  split at hok
  · cases hok
  · rename_i q h₁ hk
    obtain ⟨rfl, rfl⟩ := Prod.mk.inj (Except.ok.inj hok)
    obtain ⟨ps, hpages, rfl⟩ := kpalloc_ok hk
    have hpages' : h.pages = q :: ps := hpages
    have hne : ¬ InPage q e := hl.fresh_entry_sep hpages' he (o := 0) (by omega)
    have hne' : ¬ InPage q (e + 8) := hl.fresh_entry_sep hpages' he (by omega)
    have hout : ∀ {a}, ¬ InPage q a → ¬ (q + 64 ≤ a + 64 ∧ a < q + 64) := by
      intro a hq hin
      exact hq ⟨by omega, by omega⟩
    refine ⟨q, rfl, rfl, hpages', ?_, ?_, header_slot (by omega), header_last (by omega),
      header_size, fun a hae hae' hq => ?_⟩
    · rw [header_outside (hout hne) (by omega), memfill_outside hne, poke_other (by omega),
        memfill_outside hne]
      exact poke_same
    · rw [header_outside (hout hne') (by omega), memfill_outside hne', poke_same]
    · rw [header_outside (hout hq) (by omega), memfill_outside hq, poke_other hae',
        memfill_outside hq]
      exact poke_other hae

theorem PageTaken.layout {q : Nat} (hl : Layout h T D) (he : h.Unallocated T e)
    (ht : PageTaken h h' size e q) : Layout h' T ((e, q) :: D) :=
  hl.addPage ht.pages he ht.ml1 rfl ht.entry ht.rest

/-- Bit `b` of the bitmap of a page that has just been attached. -/
theorem PageTaken.getLsbD_bitmap {q : Nat} (ht : PageTaken h h' (BitVec.ofNat 64 (units n)) e q)
    (hn : n ≤ 3968) (hb : b < 64) :
    (h'.mem e).getLsbD b = true ↔ units n % 32 ≤ b := by
  have hlt := units_lt hn
  have htoNat : (BitVec.ofNat 64 (units n)).toNat = units n := toNat_ofNat_of_lt (by omega)
  have hones : (0xFFFFFFFFFFFFFFFF#64).getLsbD b = true := by
    have hall : 0xFFFFFFFFFFFFFFFF#64 = BitVec.allOnes 64 := by decide
    rw [hall, BitVec.getLsbD_allOnes, decide_eq_true_iff]
    exact hb
  rw [ht.bitmap, BitVec.getLsbD_xor, hones, getLsbD_sizebitmask, htoNat, Bool.true_xor,
    Bool.not_eq_true', decide_eq_false_iff_not, Nat.not_lt]

theorem takePage_good (hi : HeapInv s T D) (he : s.Unallocated T e) (h1 : 1 ≤ n)
    (hn : n ≤ 3968) (hsmall : units n < 32)
    (hok : s.toHeap.takePage (BitVec.ofNat 64 (units n)) e = .ok (p, h')) :
    ∃ D', HeapInv ⟨h', ⟨p, n⟩ :: s.live⟩ T D' := by
  obtain ⟨q, rfl, ht⟩ := takePage_ok hi.toLayout he hok
  have hl := ht.layout hi.toLayout he
  have htwo := two_le_units h1
  have hlast : BitVec.ofNat 64 (units n) - 1#64 = BitVec.ofNat 64 (0 + units n - 1) := by
    have hsucc : units n = (units n - 1) + 1 := by omega
    rw [Nat.zero_add]
    conv_lhs => rw [hsucc, BitVec.ofNat_add, BitVec.add_sub_cancel]
  have hN : Placed h' ((e, q) :: D) ⟨q + 64, n⟩ e q 0 :=
    ⟨List.mem_cons_self, rfl, by change 0 + units n ≤ 64; omega, h1, hsmall, ht.slot,
      ht.last.trans hlast, ht.size⟩
  have hq := hl.page_aligned List.mem_cons_self
  have hfresh : ∀ C ∈ s.live, ∀ a, C.Owns a → ¬ InPage q a :=
    fun C hC a ha => hi.owns_not_fresh ht.pages hC ha
  have hdis : ∀ C ∈ s.live, Block.Disjoint ⟨q + 64, n⟩ C := by
    rintro C hC a ⟨hNa, hCa⟩
    exact hfresh C hC a hCa (hN.owns_inPage hNa)
  refine ⟨_, hi.insert hl (fun x hx => List.mem_cons_of_mem _ hx) hN hdis
    (fun C hC a ha => ?_) fun e' P' hD b hb => ?_⟩
  · obtain ⟨e', P', st, hpC⟩ := hi.placed C hC
    obtain ⟨t, htT, i, hi', rfl, hz⟩ := he
    apply ht.rest a _ _ (hfresh C hC a ha)
    · exact (hi.table_page_sep htT hpC.attached ⟨by omega, by omega⟩ (hpC.owns_inPage ha)).symm
    · exact (hi.table_page_sep htT hpC.attached ⟨by omega, by omega⟩ (hpC.owns_inPage ha)).symm
  · rcases List.mem_cons.mp hD with heq | hD'
    · obtain ⟨rfl, rfl⟩ := Prod.mk.inj heq
      have hun : ∀ C ∈ s.live, ¬ C.Owns (P' + 64 * b) := fun C hC ho =>
        hfresh C hC _ ho ⟨by omega, by omega⟩
      rw [ht.getLsbD_bitmap hn hb, hN.owns_unit, Nat.mod_eq_of_lt hsmall]
      change _ ↔ ¬ (0 ≤ b ∧ b < 0 + units n) ∧ _
      constructor
      · intro hle
        exact ⟨by omega, hun⟩
      · intro hno
        have hlt := hno.1
        omega
    · have hee : e' ≠ e := by
        rintro rfl
        exact hi.unallocated_not_mem he hD'
      have hword : h'.mem e' = s.mem e' := by
        obtain ⟨t, htT, i, hi', rfl⟩ := hi.entry hD'
        apply ht.rest _ hee _ (hi.fresh_sep ht.pages htT ⟨by omega, by omega⟩)
        intro heq
        obtain ⟨t₀, ht₀, i₀, hi₀, rfl, -⟩ := he
        by_cases htt : t = t₀
        · omega
        · exact InPage.ne (x := t) (y := t₀) ⟨by omega, by omega⟩ ⟨by omega, by omega⟩
            (hi.table_aligned htT) (hi.table_aligned ht₀) htt heq
      rw [hword, hi.exact e' P' hD' b hb]
      exact ⟨fun hall => ⟨hN.not_owns_other hl hD hee hb, hall⟩, fun hall => hall.2⟩

/-- From 32 units on the bitmap of the new page leaves the last unit of the block free. -/
theorem takePage_bad {l : List Block} (hl : Layout h T D) (he : h.Unallocated T e)
    (hn : n ≤ 3968) (hlarge : 32 ≤ units n)
    (hok : h.takePage (BitVec.ofNat 64 (units n)) e = .ok (p, h')) :
    ¬ HeapOk ⟨h', ⟨p, n⟩ :: l⟩ := by
  obtain ⟨q, rfl, ht⟩ := takePage_ok hl he hok
  have hlt := units_lt hn
  have hatt := ((ht.layout hl he).attached e q).mp List.mem_cons_self
  intro hgood
  have hbit := (hgood.exact e q hatt (units n - 1) (by omega)).mp
    ((ht.getLsbD_bitmap hn (by omega)).mpr (by omega))
  apply hbit _ List.mem_cons_self
  change q + 64 ≤ q + 64 * (units n - 1) + 64 ∧
    q + 64 * (units n - 1) + 64 < q + 64 + 64 * units n
  omega

/-- Tables are different pages, so the table loop has fuel for all of them. -/
theorem tables_length_le (hl : Layout h T D) : T.length ≤ tableFuel := by
  have hinj : ∀ x ∈ T, ∀ y ∈ T, x / 4096 = y / 4096 → x = y := by
    intro x hx y hy hxy
    obtain ⟨hx, -, -⟩ := hl.table_aligned hx
    obtain ⟨hy, -, -⟩ := hl.table_aligned hy
    omega
  have hnd : (T.map (· / 4096)).Nodup := (List.nodup_map_iff_inj_on (chain_nodup hl.chain)).mpr hinj
  have hsub : T.map (· / 4096) ⊆ List.range tableFuel := by
    intro k hk
    obtain ⟨x, hx, rfl⟩ := List.mem_map.mp hk
    obtain ⟨-, -, hlt⟩ := hl.table_aligned hx
    rw [List.mem_range, tableFuel]
    omega
  have hle := (List.subperm_of_subset hnd hsub).length_le
  rwa [List.length_map, List.length_range] at hle

/-- How a request can end: an error of `takeRun` or `KPALLOC`, a run of an attached page, or a
page that is attached for it. -/
theorem malloc_found (hl : Layout h T D) (h1 : 1 ≤ n) (hn : n ≤ 3968)
    (hok : h.malloc (BitVec.ofNat 64 n) = .ok (p, h')) :
    (∃ e P j, (e, P) ∈ D ∧ units n ≤ j + 1 ∧ j < 64 ∧
        h.takeRun (BitVec.ofNat 64 (units n)) e j = .ok (p, h')) ∨
      ∃ mcp NA h₁ e, mcp ∈ T ∧ h.nextTable mcp = none ∧
        (∀ e, NA = some e → h.Unallocated T e) ∧ h.newEntry mcp NA = .ok (e, h₁) ∧
        h₁.takePage (BitVec.ofNat 64 (units n)) e = .ok (p, h') := by
  have hlt := units_lt hn
  rw [malloc, unitsOf_ofNat h1 hn] at hok
  dsimp only at hok
  rcases scanTables_spec (BitVec.ofNat 64 (units n)) none hl.chain (fun t ht => ht)
      (tables_length_le hl) (fun e he => by cases he) with
    ⟨e, j, hs, ⟨t, ht, i, hi', he⟩, hslot, hj⟩ | ⟨mcp, NA, hs, hmcp, hnone, hNA⟩
  · rw [hs] at hok
    obtain ⟨hsize, hjlt⟩ := matchBits_some hj (Nat.zero_le _) (by omega)
    rw [toNat_ofNat_of_lt (by omega)] at hsize
    have hD : (e, (h.mem (e + 8)).toNat) ∈ D :=
      (hl.attached _ _).mpr ⟨t, i, hl.isTable_iff.mpr ht, hi', he, hslot, rfl⟩
    exact Or.inl ⟨e, _, j, hD, hsize, by omega, hok⟩
  · rw [hs] at hok
    dsimp only at hok
    cases hnew : h.newEntry mcp NA with
    | error x =>
        rw [hnew] at hok
        cases hok
    | ok r =>
        obtain ⟨e, h₁⟩ := r
        rw [hnew] at hok
        exact Or.inr ⟨mcp, NA, h₁, e, hmcp, hnone, hNA, hnew, hok⟩

theorem malloc_cases (hi : HeapInv s T D) (h1 : 1 ≤ n) (hn : n ≤ 3968)
    (hok : s.toHeap.malloc (BitVec.ofNat 64 n) = .ok (p, h')) :
    (∃ e P j, (e, P) ∈ D ∧ units n ≤ j + 1 ∧ j < 64 ∧
        s.toHeap.takeRun (BitVec.ofNat 64 (units n)) e j = .ok (p, h')) ∨
      ∃ T' h₁ e, HeapInv ⟨h₁, s.live⟩ T' D ∧ h₁.Unallocated T' e ∧
        h₁.takePage (BitVec.ofNat 64 (units n)) e = .ok (p, h') := by
  rcases malloc_found hi.toLayout h1 hn hok with
    hrun | ⟨mcp, NA, h₁, e, hmcp, hnone, hNA, hnew, hpage⟩
  · exact Or.inl hrun
  · obtain ⟨T', hinv, hun⟩ := newEntry_good hi hmcp hnone hNA hnew
    exact Or.inr ⟨T', h₁, e, hinv, hun, hpage⟩

def HeapGood (s : HeapState) : Prop := ∃ T D, HeapInv s T D

/-- A request the masks are exact for. -/
def HeapOp.Small : HeapOp → Prop
  | .malloc n => n ≤ 1920
  | .free _ => True
  | .store _ _ _ => True

theorem heapStep_good {op : HeapOp} (hg : HeapGood s) (hsmall : op.Small)
    (hstep : op.step s s') : HeapGood s' := by
  obtain ⟨T, D, hi⟩ := hg
  obtain ⟨hen, hex⟩ := hstep
  cases op with
  | malloc n =>
      rw [HeapOp.exec] at hex
      split at hex
      · cases hex
      · rename_i p h' hok
        rw [← Except.ok.inj hex]
        rcases malloc_cases hi hen.1 hen.2 hok with
          ⟨e, P, j, hD, hfit, hj, hrun⟩ | ⟨T', h₁, e, hinv, hun, hpage⟩
        · exact ⟨T, D, takeRun_good hi hD hen.1 (units_lt_32_iff.mpr hsmall) hfit hj hrun⟩
        · obtain ⟨D', hgood⟩ := takePage_good hinv hun hen.1 hen.2
            (units_lt_32_iff.mpr hsmall) hpage
          exact ⟨T', D', hgood⟩
  | free p =>
      obtain ⟨B, hB, rfl⟩ := hen
      obtain ⟨s'', hex', hgood⟩ := free_good hi hB
      obtain rfl := Except.ok.inj (hex'.symm.trans hex)
      exact ⟨T, D, hgood⟩
  | store p i v =>
      obtain ⟨B, hB, rfl, hlt⟩ := hen
      rw [← Except.ok.inj hex]
      exact ⟨T, D, store_good hi hB hlt⟩

theorem heapStep_bad (hg : HeapGood s) (hlarge : ¬ n ≤ 1920)
    (hstep : (HeapOp.malloc n).step s s') : ¬ HeapOk s' := by
  obtain ⟨T, D, hi⟩ := hg
  obtain ⟨hen, hex⟩ := hstep
  have hunits : 32 ≤ units n := by
    rw [← units_lt_32_iff] at hlarge
    omega
  rw [HeapOp.exec] at hex
  split at hex
  · cases hex
  · rename_i p h' hok
    rw [← Except.ok.inj hex]
    rcases malloc_cases hi hen.1 hen.2 hok with
      ⟨e, P, j, hD, hfit, hj, hrun⟩ | ⟨T', h₁, e, hinv, hun, hpage⟩
    · exact takeRun_bad hi hD hen.1 hunits hfit hj hrun
    · exact takePage_bad hinv.toLayout hun hen.2 hunits hpage

/-- `initMalloc` has run on pages that are fresh. -/
structure HeapState.Start (s : HeapState) : Prop where
  init : ∃ h : Heap, h.pages.Nodup ∧ (∀ p ∈ h.pages, PageAddr p) ∧ h.initMalloc = .ok s.toHeap
  live : s.live = []

theorem HeapState.Start.good (h0 : s.Start) : HeapGood s := by
  obtain ⟨⟨h, hnd, hal, hinit⟩, hlive⟩ := h0
  rw [initMalloc] at hinit
  split at hinit
  · cases hinit
  · rename_i q h₁ hk
    obtain ⟨ps, hpages, rfl⟩ := kpalloc_ok hk
    have hs : s.toHeap = _ := (Except.ok.inj hinit).symm
    have hzero : ∀ a, InPage q a → s.mem a = 0#64 := by
      intro a ha
      rw [hs]
      by_cases h510 : a = q + 8 * 510
      · rw [h510]
        exact poke_same
      · rw [poke_other h510]
        by_cases h511 : a = q + 8 * 511
        · rw [h511]
          exact poke_same
        · rw [poke_other h511]
          exact memfill_inside ha
    have hml1 : s.ml1 = q := by rw [hs]; rfl
    have hps : s.pages = ps := by rw [hs]; rfl
    have hnext : s.nextTable q = none := by
      rw [nextTable, hzero _ ⟨by omega, by omega⟩, if_pos rfl]
    have hchain : Chain s.nextTable (some s.ml1) [q] := by
      rw [hml1]
      exact ⟨rfl, hnext⟩
    rw [hpages] at hnd hal
    refine ⟨[q], [], ⟨hchain, fun e P => ?_, ?_, ?_⟩, fun e P hD => ?_, ?_, ?_⟩
    · constructor
      · intro hD
        cases hD
      · rintro ⟨t, i, ht, hi, rfl, hne, -⟩
        obtain rfl := List.mem_singleton.mp ((chain_mem_iff hchain).mpr ht)
        exact absurd (hzero _ ⟨by omega, by omega⟩) hne
    · rw [hps]
      exact hnd
    · rw [hps]
      exact hal
    · cases hD
    · rw [hlive]
      exact List.Pairwise.nil
    · rw [hlive]
      intro B hB
      cases hB

/-- The heap invariant holds throughout a run exactly when no request in it is larger than
1920 bytes, the most that 31 units can serve. -/
theorem heap_ok_iff_small_requests (h0 : s₀.Start) (h : Run HeapOp.step s₀ ops s) :
    (∀ pre t, pre <+: ops → Run HeapOp.step s₀ pre t → HeapOk t) ↔
      ∀ n, HeapOp.malloc n ∈ ops → n ≤ 1920 := by
  have hrun : ∀ {pre t}, Run (Guarded (fun _ => HeapOp.Small) HeapOp.step) s₀ pre t →
      HeapGood t := fun hr =>
    run_invariant (fun _ _ _ hg hsmall hstep => heapStep_good hg hsmall hstep) hr h0.good
  constructor
  · intro hok n hn
    have hfirst : Run (Guarded (fun _ => HeapOp.Small) HeapOp.step) s₀ ops s ∨ _ :=
      run_guarded_or_first_bad h
    rcases hfirst with hgr | ⟨pre, op, post, t, t', rfl, hpre, hbad, hstep⟩
    · exact (run_guarded_iff.mp hgr).2 _ hn
    · exfalso
      have hlast := hok (pre ++ [op]) t' ⟨post, by simp⟩
        (run_concat.mpr ⟨t, run_of_guarded hpre, hstep⟩)
      cases op with
      | malloc m => exact heapStep_bad (hrun hpre) hbad hstep hlast
      | free p => exact hbad trivial
      | store p i v => exact hbad trivial
  · intro hsmall pre t hpre hr
    have hall : ∀ op ∈ pre, op.Small := by
      intro op hop
      cases op with
      | malloc m => exact hsmall m (hpre.subset hop)
      | free p => trivial
      | store p i v => trivial
    obtain ⟨T, D, hi⟩ := hrun (run_guarded_iff.mpr ⟨hr, hall⟩)
    exact hi.heapOk

/-- The heap right after `initMalloc` on three free pages. -/
def bootHeap : HeapState where
  toHeap := (({ mem := fun _ => 0, ml1 := 0x1000, pages := [0x2000, 0x3000] } : Heap).poke
    (0x1000 + 8 * 511) 0).poke (0x1000 + 8 * 510) 0
  live := []

theorem bootHeap_start : bootHeap.Start where
  init := by
    refine ⟨{ mem := fun _ => 0, ml1 := 0, pages := [0x1000, 0x2000, 0x3000] }, by decide, ?_, ?_⟩
    · simp only [List.forall_mem_cons, PageAddr]
      decide
    · have hfill : ({ mem := fun _ => 0, ml1 := 0, pages := [0x2000, 0x3000] } : Heap).memfill
          0x1000 = { mem := fun _ => 0, ml1 := 0, pages := [0x2000, 0x3000] } := by
        simp only [memfill, ite_self]
      simp only [initMalloc, kpalloc, hfill, bootHeap]
  live := rfl

instance : DecidablePred (Block.Owns ⟨p, n⟩) := fun a =>
  inferInstanceAs (Decidable (p ≤ a + 64 ∧ a + 64 < p + 64 * units n))

/-- The block of 32 units that `malloc(1921)` returns leaves bit 0 of its page set. -/
theorem heap_bitmap_wrong_after_1921 : ∃ s, bootHeap.Start ∧
    Run HeapOp.step bootHeap [.malloc 1921] s ∧ ¬ HeapOk s := by
  have hall : ((follow HeapOp.Enabled HeapOp.exec bootHeap [.malloc 1921]).map
      fun s => (s.ml1, s.mem 0x1008, s.mem 0x1000, s.live)) =
        some (0x1000, 0x2000#64, 0xFFFFFFFFFFFFFFFF#64, [⟨0x2040, 1921⟩]) := by
    decide +kernel
  obtain ⟨s, hs, hobs⟩ := Option.map_eq_some_iff.mp hall
  simp only [Prod.mk.injEq] at hobs
  obtain ⟨hml1, hslot, hword, hlive⟩ := hobs
  refine ⟨s, bootHeap_start, run_of_follow (fun _ _ _ h h' => ⟨h, h'⟩) hs, fun hgood => ?_⟩
  have hatt : s.Attached 0x1000 0x2000 := by
    refine ⟨0x1000, 0, Reach.first (by rw [hml1]), by omega, rfl, ?_, ?_⟩
    · rw [hslot]
      decide
    · rw [hslot]
      decide
  have hbit := (hgood.exact 0x1000 0x2000 hatt 0 (by omega)).mp (by rw [hword]; decide)
  rw [hlive] at hbit
  apply hbit _ List.mem_cons_self
  decide

/-- Blocks of 2, 31 and 3 units, a write and a free. -/
def smallRequests : List HeapOp :=
  [.malloc 64, .malloc 1920, .store 0x2040 7 5, .malloc 100, .free 0x20c0, .malloc 1]

theorem heap_ok_small_requests : ∃ s, Run HeapOp.step bootHeap smallRequests s ∧
    ∀ pre t, pre <+: smallRequests → Run HeapOp.step bootHeap pre t → HeapOk t := by
  have hall : (follow HeapOp.Enabled HeapOp.exec bootHeap smallRequests).isSome := by
    decide +kernel
  obtain ⟨s, hs⟩ := Option.isSome_iff_exists.mp hall
  have hrun : Run HeapOp.step bootHeap smallRequests s :=
    run_of_follow (fun _ _ _ h h' => ⟨h, h'⟩) hs
  refine ⟨s, hrun, (heap_ok_iff_small_requests bootHeap_start hrun).mpr ?_⟩
  simp only [smallRequests, List.mem_cons, HeapOp.malloc.injEq]
  grind

end UnnamedOS.Memory
