import UnnamedOS.Paging.Window

/-!
# The tables that the model keeps by their indices

What `page.c` reads and stores through its window are the entries of `Pager`, and the processor
translates by them. The one entry that the model does not follow is that of the window.
-/

namespace UnnamedOS.Paging

open UnnamedOS.Lib

variable {s s' t : Mmu} {v q AD P : UInt64} {f g n : ℕ} {p : Page} {i j k l : Fin 512}
  {ps qs : List (Fin 512)} {m m' m'' : ℕ → Fin 512 → UInt64} {low : Prop}

/-! ## Marks -/

theorem used_and_one (q : UInt64) : (q ||| 0x60) &&& 1 = q &&& 1 := by
  rw [← UInt64.toBitVec_inj]
  apply BitVec.eq_of_getLsbD_eq
  intro b hb
  have hnone : ∀ b < 64,
      ((0x60 : UInt64).toBitVec.getLsbD b && (1 : UInt64).toBitVec.getLsbD b) = false := by
    decide
  simp only [UInt64.toBitVec_and, UInt64.toBitVec_or, BitVec.getLsbD_and, BitVec.getLsbD_or,
    Bool.and_or_distrib_right, hnone b hb, Bool.or_false]

theorem entryFrame_used (q : UInt64) : entryFrame (q ||| 0x60) = entryFrame q := by
  have hshift : (q ||| 0x60) >>> 12 = q >>> 12 := by
    rw [UInt64.shiftRight_or, show (0x60 : UInt64) >>> 12 = 0 by decide, UInt64.or_zero]
  rw [entryFrame, entryFrame, used_and_one, hshift]

/-- Entries that are the same but for the accessed and the dirty bit name the same frame. -/
theorem entryFrame_congr {q q' : UInt64} (h : q' ||| 0x60 = q ||| 0x60) :
    entryFrame q' = entryFrame q := by
  rw [← entryFrame_used, h, entryFrame_used]

def IsTable (m : ℕ → Fin 512 → UInt64) (f : ℕ) : Prop :=
  ∃ ps, ps.length ≤ 3 ∧ descend entryFrame m rootFrame ps = some f

/-- What the processor may do to the memory by itself. -/
structure Marked (m m' : ℕ → Fin 512 → UInt64) : Prop where
  entries : ∀ f i, m' f i ||| 0x60 = m f i ||| 0x60
  memory : ∀ f, ¬ IsTable m f → m' f = m f

theorem Marked.descend (h : Marked m m') (ps : List (Fin 512)) :
    Lib.descend entryFrame m' rootFrame ps = Lib.descend entryFrame m rootFrame ps :=
  descend_congr fun _ i f _ _ => entryFrame_congr (h.entries f i)

theorem Marked.isTable (h : Marked m m') : IsTable m' f ↔ IsTable m f := by
  unfold IsTable
  simp only [h.descend]

theorem Marked.refl (m : ℕ → Fin 512 → UInt64) : Marked m m := ⟨fun _ _ => rfl, fun _ _ => rfl⟩

theorem Marked.trans (h : Marked m m') (h' : Marked m' m'') : Marked m m'' :=
  ⟨fun f i => (h'.entries f i).trans (h.entries f i),
    fun f hf => (h'.memory f fun hm => hf (h.isTable.mp hm)).trans (h.memory f hf)⟩

theorem marked_mark (m : ℕ → Fin 512 → UInt64) (k : Mark) : Marked m (mark m k) := by
  have hbits : ∀ q b : UInt64, q ||| b &&& 0x60 ||| 0x60 = q ||| 0x60 := by
    intro q b
    have hsub : b &&& 0x60 ||| 0x60 = 0x60 := by
      rw [← UInt64.toBitVec_inj]
      apply BitVec.eq_of_getLsbD_eq
      intro n _
      simp only [UInt64.toBitVec_and, UInt64.toBitVec_or, BitVec.getLsbD_and, BitVec.getLsbD_or]
      cases b.toBitVec.getLsbD n <;> simp
    rw [UInt64.or_assoc, hsub]
  unfold mark
  split
  · rename_i hlen
    split
    · exact .refl m
    · rename_i f hf
      split
      · exact .refl m
      · constructor
        · intro g i
          by_cases hcell : g = f ∧ i = k.index
          · obtain ⟨rfl, rfl⟩ := hcell
            rw [put_self, hbits]
          · rw [put_other hcell]
        · intro g hg
          have hne : g ≠ f := by
            rintro rfl
            exact hg ⟨k.table, hlen, hf⟩
          exact Function.update_of_ne hne ..
  · exact .refl m

theorem marked_foldl (ks : List Mark) (m : ℕ → Fin 512 → UInt64) : Marked m (ks.foldl mark m) := by
  induction ks generalizing m with
  | nil => exact .refl m
  | cons k ks ih => exact (marked_mark m k).trans (ih (mark m k))

/-! ## Accesses -/

/-- The memory is as it was but for marks, and so is what may be cached. -/
structure Mmu.Same (s s' : Mmu) : Prop where
  marked : Marked s.phys s'.phys
  cached : s'.cached = s.cached

theorem Mmu.Same.walk (h : s.Same s') (ps : List (Fin 512)) : s'.walk ps = s.walk ps :=
  h.marked.descend ps

/-- An access goes to one of the candidates. -/
theorem translate_some (h : s.candidates (pageOf v) ≠ []) :
    Ends (translate v) s (fun g s' => g ∈ s.candidates (pageOf v) ∧ s.Same s') fun _ _ => False := by
  have hlt : s.oracle s.accesses % (s.candidates (pageOf v)).length <
      (s.candidates (pageOf v)).length := Nat.mod_lt _ (List.length_pos_of_ne_nil h)
  have hget := List.getElem?_eq_getElem hlt
  unfold translate
  rw [ends_bind, ends_get]
  dsimp only
  rw [hget, ends_bind, ends_modify]
  exact ends_pure.mpr ⟨List.getElem_mem hlt, marked_foldl _ _, rfl⟩

/-- A page that the tables map, and for which nothing else is cached. -/
structure Mmu.Maps (s : Mmu) (p : Page) (f : ℕ) : Prop where
  walk : s.walk p.path = some f
  cached : ∀ g ∈ s.cached p, g = f

theorem Mmu.Maps.mem_candidates (h : s.Maps p f) : g ∈ s.candidates p ↔ g = f := by
  rw [Mmu.candidates, h.walk, Option.toList_some, List.mem_append, List.mem_singleton]
  exact ⟨fun hg => hg.elim (h.cached g) id, .inr⟩

theorem translate_spec (h : s.Maps (pageOf v) f) :
    Ends (translate v) s (fun g s' => g = f ∧ s.Same s') fun _ _ => False := by
  have hne : s.candidates (pageOf v) ≠ [] := List.ne_nil_of_mem (h.mem_candidates.mpr rfl)
  exact (translate_some hne).mono (fun _ _ hg => ⟨h.mem_candidates.mp hg.1, hg.2⟩) fun _ _ hf => hf

theorem load_spec (h : s.Maps (pageOf v) f) :
    Ends (load v) s (fun q s' => q = s'.phys f (quadIndex v) ∧ s.Same s') fun _ _ => False := by
  apply (translate_spec h).bind
  rintro g s' ⟨rfl, hsame⟩
  rw [ends_bind, ends_get, ends_pure]
  exact ⟨rfl, hsame⟩

/-- The state behind a store, over the one behind its translation. -/
structure Mmu.Stored (t : Mmu) (f : ℕ) (i : Fin 512) (q : UInt64) (s' : Mmu) : Prop where
  phys : s'.phys = put t.phys f i q
  cached : s'.cached = t.candidates

theorem store_some (h : s.candidates (pageOf v) ≠ []) :
    Ends (store v q) s
      (fun _ s' => ∃ f ∈ s.candidates (pageOf v), ∃ t, s.Same t ∧ t.Stored f (quadIndex v) q s')
      fun _ _ => False := by
  apply (translate_some h).bind
  rintro f t ⟨hf, hsame⟩
  exact ends_modify.mpr ⟨f, hf, t, hsame, rfl, rfl⟩

theorem store_spec (h : s.Maps (pageOf v) f) :
    Ends (store v q) s (fun _ s' => ∃ t, s.Same t ∧ t.Stored f (quadIndex v) q s')
      fun _ _ => False := by
  have hne : s.candidates (pageOf v) ≠ [] := List.ne_nil_of_mem (h.mem_candidates.mpr rfl)
  apply (store_some hne).mono _ fun _ _ hf => hf
  rintro _ s' ⟨g, hg, hstored⟩
  obtain rfl := h.mem_candidates.mp hg
  exact hstored

/-! ## Addresses of quads -/

theorem toNat_at8 (h : P.toNat + 4096 ≤ 2 ^ 64) (i : Fin 512) : (at8 P i).toNat = P.toNat + 8 * i := by
  have hi := i.isLt
  have hnat : (UInt64.ofNat i).toNat = i := UInt64.toNat_ofNat_of_lt' (hi.trans (by decide))
  have hmul : (8 * UInt64.ofNat i).toNat = 8 * i := by
    rw [UInt64.toNat_mul, hnat]
    exact Nat.mod_eq_of_lt (by change 8 * (i : ℕ) < 2 ^ 64; omega)
  rw [at8, UInt64.toNat_add, hmul]
  exact Nat.mod_eq_of_lt (by omega)

theorem pageOf_at8 (h : P.toNat + 4096 ≤ 2 ^ 64) (hP : P.toNat % 4096 = 0) (i : Fin 512) :
    pageOf (at8 P i) = pageOf P := by
  have hi := i.isLt
  rw [pageOf_eq, pageOf_eq, toNat_at8 h, Page.mk.injEq]
  omega

theorem quadIndex_at8 (h : P.toNat + 4096 ≤ 2 ^ 64) (hP : P.toNat % 4096 = 0) (i : Fin 512) :
    quadIndex (at8 P i) = i := by
  have hi := i.isLt
  have hdiv : (P.toNat + 8 * i) % 4096 / 8 = i := by omega
  rw [quadIndex, toNat_at8 h, hdiv]
  exact Fin.ofNat_val_eq_self i

/-! ## The window -/

/-- The page at `MBASE+0x1c000`, and its entry in the first page table of the kernel half. -/
def windowPage : Page := kernelPage 0x3C

def windowPath : List (Fin 512) := windowPage.path

/-- The top table and the first page table of the kernel half can be reached, no frame holds two
tables, and nothing cached is out of date, if `low` for the pages of the first top entry too. -/
structure Mmu.Ready (s : Mmu) (low : Prop) : Prop where
  tree : IsTree entryFrame s.phys rootFrame 3
  home : s.walk [1, 0, 0] = some 0x33
  top : entryFrame (s.phys 0x33 0x30) = some rootFrame
  tables : entryFrame (s.phys 0x33 0x33) = some 0x33
  fresh : ∀ p, p.InTables → (p.pml4 = 0 → low) → ∀ f ∈ s.cached p, s.walk p.path = some f

/-- Only the entry of the window is different, but for marks. -/
structure Mmu.Looked (s : Mmu) (low : Prop) (s' : Mmu) : Prop where
  ready : s'.Ready low
  others : ∀ f i, ¬ (f = 0x33 ∧ i = 0x3C) → s'.phys f i ||| 0x60 = s.phys f i ||| 0x60
  memory : ∀ f, ¬ IsTable s.phys f → s'.phys f = s.phys f

theorem Mmu.Ready.maps (h : s.Ready low) (hin : p.InTables) (hlow : p.pml4 = 0 → low)
    (hp : s.walk p.path = some f) : s.Maps p f :=
  ⟨hp, fun g hg => (Option.some.inj (hp.symm.trans (h.fresh p hin hlow g hg))).symm⟩

theorem walk_kernelPage (h : s.walk [1, 0, 0] = some 0x33) (hn : n < 512) :
    s.walk (kernelPage n).path = entryFrame (s.phys 0x33 (.ofNat 512 n)) := by
  have hdiv : n / 512 = 0 := Nat.div_eq_of_lt hn
  have hmod : n % 512 = n := Nat.mod_eq_of_lt hn
  have hpath : (kernelPage n).path = [1, 0, 0] ++ [.ofNat 512 n] := by
    rw [kernelPage, hdiv, hmod]
    rfl
  rw [hpath, Mmu.walk, descend_concat]
  rw [Mmu.walk] at h
  rw [h, Option.bind_some]

theorem Mmu.Ready.maps_kernelPage (h : s.Ready low) (hn : n < 512)
    (he : entryFrame (s.phys 0x33 (.ofNat 512 n)) = some f) : s.Maps (kernelPage n) f :=
  h.maps (kernelPage_inTables (by unfold gib; omega)) (fun hz => absurd hz Nat.one_ne_zero)
    ((walk_kernelPage h.home hn).trans he)

theorem Mmu.Ready.maps_top (h : s.Ready low) : s.Maps (kernelPage 0x30) rootFrame :=
  h.maps_kernelPage (by decide) h.top

theorem Mmu.Ready.maps_tables (h : s.Ready low) : s.Maps (kernelPage 0x33) 0x33 :=
  h.maps_kernelPage (by decide) h.tables

/-- The window's entry is at the bottom of the tree. -/
theorem Mmu.Ready.walk_window (h : s.Ready low) (hps : ps.length ≤ 3) :
    Lib.descend entryFrame (put s.phys 0x33 0x3C q) rootFrame ps = s.walk ps := by
  apply descend_put h.tree h.home (Nat.le_refl 3) (by omega)
  intro hpre
  have hlen := hpre.length_le
  have hfour : ([1, 0, 0] ++ [0x3C] : List (Fin 512)).length = 4 := rfl
  omega

/-- A change of the window's entry, with nothing cached behind it. -/
theorem Mmu.Ready.looked (h : s.Ready low) (hphys : s'.phys = put s.phys 0x33 0x3C q)
    (hcached : s'.cached = fun _ => []) : s.Looked True s' := by
  have hlinked : Linked entryFrame s.phys rootFrame 3 [1, 0, 0] q :=
    fun _ _ hlt => absurd hlt (by decide)
  have hcells : ∀ f i, ¬ (f = 0x33 ∧ i = 0x3C) → s'.phys f i = s.phys f i := by
    intro f i hne
    rw [hphys]
    exact put_other hne
  refine ⟨?_, fun f i hne => by rw [hcells f i hne], fun f hf => ?_⟩
  · constructor
    case tree =>
      rw [hphys]
      exact h.tree.put h.home (Nat.le_refl 3) hlinked
    case home =>
      rw [Mmu.walk, hphys, h.walk_window (by decide)]
      exact h.home
    case top =>
      rw [hcells _ _ (by decide)]
      exact h.top
    case tables =>
      rw [hcells _ _ (by decide)]
      exact h.tables
    case fresh =>
      rw [hcached]
      exact fun p _ _ f hf => absurd hf List.not_mem_nil
  · funext i
    refine hcells f i ?_
    rintro ⟨rfl, -⟩
    exact hf ⟨[1, 0, 0], Nat.le_refl 3, h.home⟩

theorem Mmu.Ready.same (h : s.Ready low) (hs : s.Same s') : s.Looked low s' := by
  refine ⟨?_, fun f i _ => hs.marked.entries f i, hs.marked.memory⟩
  constructor
  case tree =>
    intro us vs g hus hvs hu hv
    rw [hs.marked.descend] at hu hv
    exact h.tree us vs g hus hvs hu hv
  case home =>
    rw [hs.walk]
    exact h.home
  case top => exact (entryFrame_congr (hs.marked.entries _ _)).trans h.top
  case tables => exact (entryFrame_congr (hs.marked.entries _ _)).trans h.tables
  case fresh =>
    rw [hs.cached]
    intro p hp hlow f hf
    rw [hs.walk]
    exact h.fresh p hp hlow f hf

/-- Tables are found as before. -/
theorem Mmu.Looked.walk {low' : Prop} (h : s.Looked low s') (hs : s.Ready low') (hps : ps.length ≤ 3) :
    s'.walk ps = s.walk ps := by
  apply descend_congr
  intro us a g hpre hg
  have hlen := hpre.length_le
  rw [List.length_append, List.length_singleton] at hlen
  apply entryFrame_congr
  apply h.others
  rintro ⟨rfl, rfl⟩
  have hus := hs.tree us [1, 0, 0] _ (by omega) (Nat.le_refl 3) hg hs.home
  rw [hus] at hlen
  exact absurd hps (by change 4 ≤ ps.length at hlen; omega)

theorem Mmu.Looked.isTable {low' : Prop} (h : s.Looked low s') (hs : s.Ready low') :
    IsTable s'.phys f ↔ IsTable s.phys f :=
  exists_congr fun _ => and_congr_right fun hps => by
    have hwalk := h.walk hs hps
    rw [Mmu.walk, Mmu.walk] at hwalk
    rw [hwalk]

theorem Mmu.Looked.trans {low' low'' : Prop} (h : s.Looked low s') (h' : s'.Looked low' t)
    (hs : s.Ready low'') : s.Looked low' t :=
  ⟨h'.ready, fun f i hne => (h'.others f i hne).trans (h.others f i hne),
    fun f hf => (h'.memory f fun hm => hf ((h.isTable hs).mp hm)).trans (h.memory f hf)⟩

/-- The window shows the frame of the entry that it is set to. -/
theorem manualptVlookup_spec (h : s.Ready low) (hq : entryFrame (AD ||| 0x3) = some g) :
    Ends (manualptVlookup AD) s
      (fun P s' => P = MBASE + 0x1c000 ∧ s.Looked True s' ∧ s'.Maps windowPage g) fun _ _ => False := by
  have hpage : pageOf (MBASE + 0x13000 + windowOffset) = kernelPage 0x33 := by decide
  have hindex : quadIndex (MBASE + 0x13000 + windowOffset) = 0x3C := by decide
  have hbound : ¬ windowOffset ≥ 0x1000 := by decide
  have hmaps : s.Maps (pageOf (MBASE + 0x13000 + windowOffset)) 0x33 := by
    rw [hpage]
    exact h.maps_tables
  rw [manualptVlookup, if_neg hbound]
  apply (store_spec hmaps).bind
  rintro _ s1 ⟨t, hsame, h1⟩
  rw [hindex] at h1
  rw [ends_bind, FLUSH_TLB, ends_modify]
  apply ends_pure.mpr
  have hready := h.same hsame
  have hlooked : t.Looked True { s1 with cached := fun _ => [] } := hready.ready.looked h1.phys rfl
  refine ⟨rfl, hready.trans hlooked h, ?_, fun g hg => absurd hg List.not_mem_nil⟩
  rw [windowPage, walk_kernelPage hlooked.ready.home (by decide)]
  change entryFrame (s1.phys 0x33 0x3C) = _
  rw [h1.phys, put_self, hq]

theorem walk_concat_eq (h : s.walk ps = some f) (a : Fin 512) :
    s.walk (ps ++ [a]) = entryFrame (s.phys f a) := by
  rw [Mmu.walk] at h
  rw [Mmu.walk, descend_concat, h, Option.bind_some]

/-! ## Reads -/

theorem shiftRight_toNat_lt (e : UInt64) : (e >>> 12).toNat < 2 ^ 52 := by
  have hlt := e.toNat_lt
  have hshift : (12 : UInt64).toNat % 64 = 12 := rfl
  rw [UInt64.toNat_shiftRight, hshift, Nat.shiftRight_eq_div_pow]
  omega

/-- The bits below a frame are shifted out. -/
theorem base_shiftRight (e : UInt64) : (e &&& ~~~0xFFF) >>> 12 = e >>> 12 := by
  have hmask : ((~~~0xFFF : UInt64) >>> 12).toNat = 2 ^ 52 - 1 := by decide
  rw [UInt64.shiftRight_and]
  apply UInt64.toNat_inj.mp
  rw [UInt64.toNat_and, hmask, Nat.and_two_pow_sub_one_eq_mod]
  exact Nat.mod_eq_of_lt (shiftRight_toNat_lt e)

theorem or_three_present (e : UInt64) : (e ||| 0x3) &&& 1 = 1 := by
  have hone : (1 : UInt64).toNat = 1 := rfl
  have hthree : (3 : UInt64).toNat = 3 := rfl
  apply UInt64.toNat_inj.mp
  apply Nat.eq_of_testBit_eq
  intro n
  rw [UInt64.toNat_and, UInt64.toNat_or, Nat.testBit_and, Nat.testBit_or, hone, hthree]
  cases n with
  | zero => simp
  | succ n => simp [Nat.testBit_succ]

/-- The window gets the frame of the entry. -/
theorem entryFrame_window {e : UInt64} (h : entryFrame e = some f) :
    entryFrame (e &&& ~~~0xFFF ||| 0x3) = some f := by
  rw [entryFrame] at h
  split_ifs at h with hpresent
  have hframe : (e &&& ~~~0xFFF ||| 0x3) >>> 12 = e >>> 12 := by
    rw [UInt64.shiftRight_or, base_shiftRight, show (0x3 : UInt64) >>> 12 = 0 by decide, UInt64.or_zero]
  rw [entryFrame, or_three_present, if_neg (by decide), hframe]
  exact h

/-- The top table, which is reached without the window. -/
theorem maps_at8_top (h : s.Ready low) (i : Fin 512) :
    s.Maps (pageOf (at8 (MBASE + 0x10000) i)) rootFrame ∧
      quadIndex (at8 (MBASE + 0x10000) i) = i := by
  have hP : (MBASE + 0x10000).toNat = 0x8000030000 := by decide
  have hpage : pageOf (at8 (MBASE + 0x10000) i) = kernelPage 0x30 := by
    rw [pageOf_at8 (by rw [hP]; omega) (by rw [hP])]
    decide
  rw [hpage]
  exact ⟨h.maps_top, quadIndex_at8 (by rw [hP]; omega) (by rw [hP]) i⟩

theorem get_pml4V_spec (h : s.Ready low) (i : Fin 512) :
    Ends (get_pml4V i) s (fun q s' => s.Looked low s' ∧ q = s'.phys rootFrame i) fun _ _ => False := by
  obtain ⟨hmaps, hindex⟩ := maps_at8_top h i
  apply (load_spec hmaps).mono _ fun _ _ hf => hf
  rintro q s' ⟨rfl, hsame⟩
  rw [hindex]
  exact ⟨h.same hsame, rfl⟩

/-- Addresses in the window. -/
theorem maps_window (h : s.Maps windowPage f) (i : Fin 512) :
    s.Maps (pageOf (at8 (MBASE + 0x1c000) i)) f ∧ quadIndex (at8 (MBASE + 0x1c000) i) = i := by
  have hP : (MBASE + 0x1c000).toNat = 0x800003c000 := by decide
  have hpage : pageOf (MBASE + 0x1c000) = windowPage := by decide
  rw [pageOf_at8 (by rw [hP]; omega) (by rw [hP]), hpage]
  exact ⟨h, quadIndex_at8 (by rw [hP]; omega) (by rw [hP]) i⟩

theorem load_window (h : s.Ready low) (hw : s.Maps windowPage f) (i : Fin 512) :
    Ends (load (at8 (MBASE + 0x1c000) i)) s (fun q s' => s.Looked low s' ∧ q = s'.phys f i)
      fun _ _ => False := by
  obtain ⟨hmaps, hindex⟩ := maps_window hw i
  apply (load_spec hmaps).mono _ fun _ _ hf => hf
  rintro q s' ⟨rfl, hsame⟩
  rw [hindex]
  exact ⟨h.same hsame, rfl⟩

/-- The array of a table whose entry has been read. -/
theorem array_spec {low' : Prop} {read : MmuM UInt64} (ps : List (Fin 512)) (h : s.Ready low)
    (hps : ps.length ≤ 2) (hwalk : s.walk (ps ++ [i]) = some f)
    (hread : ∃ g, s.walk ps = some g ∧
      Ends read s (fun q s' => s.Looked low' s' ∧ q = s'.phys g i) fun _ _ => False) :
    Ends (read >>= fun q => manualptVlookup (q &&& ~~~0xFFF)) s
      (fun P s' => P = MBASE + 0x1c000 ∧ s.Looked True s' ∧ s'.Maps windowPage f) fun _ _ => False := by
  obtain ⟨g, hg, hread⟩ := hread
  apply hread.bind
  rintro q s1 ⟨h1, rfl⟩
  have hentry : entryFrame (s1.phys g i) = some f := by
    have hlen : (ps ++ [i]).length ≤ 3 := by
      rw [List.length_append, List.length_singleton]
      omega
    rw [← walk_concat_eq ((h1.walk h (by omega)).trans hg), h1.walk h hlen, hwalk]
  apply (manualptVlookup_spec h1.ready (entryFrame_window hentry)).mono _ fun _ _ hf => hf
  rintro P s2 ⟨rfl, h2, hw⟩
  exact ⟨rfl, h1.trans h2 h, hw⟩

/-- A quad of the array. -/
theorem quad_spec {array : MmuM UInt64} (a : Fin 512) (h : s.Ready low)
    (harray : Ends array s (fun P s' => P = MBASE + 0x1c000 ∧ s.Looked True s' ∧ s'.Maps windowPage f)
      fun _ _ => False) :
    Ends (array >>= fun P => load (at8 P a)) s (fun q s' => s.Looked True s' ∧ q = s'.phys f a)
      fun _ _ => False := by
  apply harray.bind
  rintro P s1 ⟨rfl, h1, hw⟩
  apply (load_window h1.ready hw a).mono _ fun _ _ hf => hf
  rintro q s2 ⟨h2, rfl⟩
  exact ⟨h1.trans h2 h, rfl⟩

theorem get_pml4VP_spec (h : s.Ready low) (hwalk : s.walk [i] = some f) :
    Ends (get_pml4VP i) s
      (fun P s' => P = MBASE + 0x1c000 ∧ s.Looked True s' ∧ s'.Maps windowPage f) fun _ _ => False :=
  array_spec [] h (by decide) hwalk ⟨rootFrame, rfl, get_pml4V_spec h i⟩

theorem get_pdptV_spec (h : s.Ready low) (hwalk : s.walk [i] = some f) (j : Fin 512) :
    Ends (get_pdptV i j) s (fun q s' => s.Looked True s' ∧ q = s'.phys f j) fun _ _ => False := by
  have hquad := quad_spec j h (get_pml4VP_spec h hwalk)
  rw [get_pml4VP, bind_assoc] at hquad
  exact hquad

theorem get_pdptVP_spec (h : s.Ready low) (hwalk : s.walk [i, j] = some f) :
    Ends (get_pdptVP i j) s
      (fun P s' => P = MBASE + 0x1c000 ∧ s.Looked True s' ∧ s'.Maps windowPage f) fun _ _ => False := by
  obtain ⟨g, hg, -⟩ := descend_concat_some [i] hwalk
  exact array_spec [i] h (Nat.le_succ 1) hwalk ⟨g, hg, get_pdptV_spec h hg j⟩

theorem get_pdeV_spec (h : s.Ready low) (hwalk : s.walk [i, j] = some f) (k : Fin 512) :
    Ends (get_pdeV i j k) s (fun q s' => s.Looked True s' ∧ q = s'.phys f k) fun _ _ => False := by
  have hquad := quad_spec k h (get_pdptVP_spec h hwalk)
  rw [get_pdptVP, bind_assoc] at hquad
  exact hquad

theorem get_pdeVP_spec (h : s.Ready low) (hwalk : s.walk [i, j, k] = some f) :
    Ends (get_pdeVP i j k) s
      (fun P s' => P = MBASE + 0x1c000 ∧ s.Looked True s' ∧ s'.Maps windowPage f) fun _ _ => False := by
  obtain ⟨g, hg, -⟩ := descend_concat_some [i, j] hwalk
  exact array_spec [i, j] h (Nat.le_refl 2) hwalk ⟨g, hg, get_pdeV_spec h hg k⟩

theorem get_ptV_spec (h : s.Ready low) (hwalk : s.walk [i, j, k] = some f) (l : Fin 512) :
    Ends (get_ptV i j k l) s (fun q s' => s.Looked True s' ∧ q = s'.phys f l) fun _ _ => False := by
  have hquad := quad_spec l h (get_pdeVP_spec h hwalk)
  rw [get_pdeVP, bind_assoc] at hquad
  exact hquad

end UnnamedOS.Paging
