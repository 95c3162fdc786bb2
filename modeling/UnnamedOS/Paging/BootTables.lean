import UnnamedOS.Paging.TableRuns

/-!
# The tables of the boot loader

They are where every run of table updates begins. What the processor has cached by the entry that
`P_ALLOC3_SETUP` removes stays until the next flush.
-/

namespace UnnamedOS.Paging

open UnnamedOS.Lib

variable {s s' : Mmu} {p p' : Pager} {q : UInt64} {f : ℕ} {i j k l : Fin 512}
  {ps : List (Fin 512)} {ops : List TableOp} {e : Entry} {low low' : Prop}

local instance neZero_entries : NeZero 512 := ⟨by decide⟩

/-- The table loop of `_PMMain`, from place 0 of the page table on. -/
def pageTableLoop (m : ℕ → Fin 512 → UInt64) (n : ℕ) : ℕ → Fin 512 → UInt64 :=
  (List.range n).foldl (fun m a => put m 0x33 (.ofNat 512 a) (.ofNat (0x1000 * a + 3))) m

/-- What `_PMMain` leaves in the memory, of which it clears four pages first. -/
def PMMainTables (m : ℕ → Fin 512 → UInt64) : ℕ → Fin 512 → UInt64 :=
  let cleared : ℕ → Fin 512 → UInt64 := fun f i => if 0x30 ≤ f ∧ f < 0x34 then 0 else m f i
  let top := put (put cleared 0x30 1 0x31003) 0x30 0 0x31003
  let linked := put (put top 0x31 0 0x32003) 0x32 0 0x33003
  pageTableLoop linked 512

/-- Without the first entry, which `P_ALLOC3_SETUP` removes. -/
def bootMemory (m : ℕ → Fin 512 → UInt64) : ℕ → Fin 512 → UInt64 := put (PMMainTables m) 0x30 0 0

/-- The processor may have cached whatever the tables have, and anything of the pages of the first
entry. -/
structure Mmu.Booted (m : ℕ → Fin 512 → UInt64) (s : Mmu) : Prop where
  marked : Marked (bootMemory m) s.phys
  cached : ∀ a, a.InTables → a.pml4 ≠ 0 → ∀ f ∈ s.cached a,
    descend entryFrame (PMMainTables m) rootFrame a.path = some f

/-- The tables of the model. -/
def Pager.boot : Pager := { bootTables with pml4 := Function.update bootTables.pml4 0 none }

section Boot

variable (m : ℕ → Fin 512 → UInt64)

theorem pageTableLoop_table {n : ℕ} (hn : n ≤ 512) (i : Fin 512) :
    pageTableLoop m n 0x33 i = if i < n then .ofNat (0x1000 * i + 3) else m 0x33 i := by
  induction n with
  | zero => rfl
  | succ n ih =>
      have hnat : ((Fin.ofNat 512 n : Fin 512) : ℕ) = n := Nat.mod_eq_of_lt hn
      have hstep : pageTableLoop m (n + 1) = put (pageTableLoop m n) 0x33 (.ofNat 512 n)
          (.ofNat (0x1000 * n + 3)) := by
        rw [pageTableLoop, List.range_succ, List.foldl_append]
        rfl
      rw [hstep]
      by_cases hi : (i : ℕ) = n
      · have heq : i = .ofNat 512 n := Fin.ext (hi.trans hnat.symm)
        rw [heq, put_self, hnat, if_pos (Nat.lt_succ_self n)]
      · have hne : i ≠ .ofNat 512 n := fun heq => hi ((congrArg Fin.val heq).trans hnat)
        rw [put_other fun h => hne h.2, ih (by omega)]
        by_cases hlt : (i : ℕ) < n
        · rw [if_pos hlt, if_pos (by omega)]
        · rw [if_neg hlt, if_neg (by omega)]

theorem pageTableLoop_other (n : ℕ) {f : ℕ} (hf : f ≠ 0x33) (i : Fin 512) :
    pageTableLoop m n f i = m f i := by
  induction n with
  | zero => rfl
  | succ n ih =>
      rw [pageTableLoop, List.range_succ, List.foldl_append]
      exact (put_other fun h => hf h.1).trans ih

/-- The quads of the four tables. -/
theorem PMMain_quads (i : Fin 512) :
    PMMainTables m 0x30 i = (if i = 0 ∨ i = 1 then 0x31003 else 0) ∧
    PMMainTables m 0x31 i = (if i = 0 then 0x32003 else 0) ∧
    PMMainTables m 0x32 i = (if i = 0 then 0x33003 else 0) ∧
    PMMainTables m 0x33 i = .ofNat (0x1000 * i + 3) := by
  simp only [PMMainTables]
  refine ⟨?_, ?_, ?_, ?_⟩
  · rw [pageTableLoop_other _ _ (by decide), put_other (by simp), put_other (by simp)]
    by_cases h0 : i = 0
    · subst h0
      rw [put_self, if_pos (.inl rfl)]
    · rw [put_other fun h => h0 h.2]
      by_cases h1 : i = 1
      · subst h1
        rw [put_self, if_pos (.inr rfl)]
      · rw [put_other fun h => h1 h.2, if_neg (not_or.mpr ⟨h0, h1⟩)]
        rfl
  · rw [pageTableLoop_other _ _ (by decide), put_other (by simp)]
    by_cases h0 : i = 0
    · subst h0
      rw [put_self]
      rfl
    · rw [put_other fun h => h0 h.2, put_other (by simp), put_other (by simp), if_neg h0]
      rfl
  · rw [pageTableLoop_other _ _ (by decide)]
    by_cases h0 : i = 0
    · subst h0
      rw [put_self]
      rfl
    · rw [put_other fun h => h0 h.2, put_other (by simp), put_other (by simp), put_other (by simp),
        if_neg h0]
      rfl
  · rw [pageTableLoop_table _ (Nat.le_refl 512), if_pos i.isLt]

theorem boot_quads (i : Fin 512) :
    bootMemory m 0x30 i = (if i = 1 then 0x31003 else 0) ∧
    bootMemory m 0x31 i = (if i = 0 then 0x32003 else 0) ∧
    bootMemory m 0x32 i = (if i = 0 then 0x33003 else 0) ∧
    bootMemory m 0x33 i = .ofNat (0x1000 * i + 3) := by
  obtain ⟨h30, h31, h32, h33⟩ := PMMain_quads m i
  unfold bootMemory
  rw [put_other (f := 0x30) (g := 0x31) (by simp), put_other (f := 0x30) (g := 0x32) (by simp),
    put_other (f := 0x30) (g := 0x33) (by simp)]
  refine ⟨?_, h31, h32, h33⟩
  by_cases h0 : i = 0
  · subst h0
    rw [put_self]
    rfl
  · rw [put_other fun h => h0 h.2, h30]
    simp only [h0, false_or]

theorem boot_frames (f : ℕ) (i : Fin 512) (hf : f < 0x30 ∨ 0x34 ≤ f) : bootMemory m f i = m f i := by
  have hother : ∀ n : ℕ, 0x30 ≤ n → n < 0x34 → f ≠ n := by omega
  have hcleared : ¬ (0x30 ≤ f ∧ f < 0x34) := by omega
  simp only [bootMemory, PMMainTables]
  rw [put_other fun h => hother 0x30 (by decide) (by decide) h.1,
    pageTableLoop_other _ _ (hother 0x33 (by decide) (by decide)),
    put_other fun h => hother 0x32 (by decide) (by decide) h.1,
    put_other fun h => hother 0x31 (by decide) (by decide) h.1,
    put_other fun h => hother 0x30 (by decide) (by decide) h.1,
    put_other fun h => hother 0x30 (by decide) (by decide) h.1, if_neg hcleared]

/-- The table at each level. -/
theorem PMMain_walk (hps : ps.length ≤ 3)
    (h : descend entryFrame (PMMainTables m) rootFrame ps = some f) : f = 0x30 + ps.length := by
  induction ps using List.reverseRecOn generalizing f with
  | nil => exact (Option.some.inj h).symm
  | append_singleton ps i ih =>
      rw [List.length_append, List.length_singleton] at hps ⊢
      obtain ⟨g, hg, hnext⟩ := descend_concat_some _ h
      obtain ⟨h30, h31, h32, -⟩ := PMMain_quads m i
      have hgf := ih (by omega) hg
      have hlevel : ps.length = 0 ∨ ps.length = 1 ∨ ps.length = 2 := by omega
      rcases hlevel with hlen | hlen | hlen <;> rw [hlen] at hgf ⊢ <;> subst hgf
      · rw [h30] at hnext
        split_ifs at hnext
        · exact (Option.some.inj hnext).symm
        · cases hnext
      · rw [h31] at hnext
        split_ifs at hnext
        · exact (Option.some.inj hnext).symm
        · cases hnext
      · rw [h32] at hnext
        split_ifs at hnext
        · exact (Option.some.inj hnext).symm
        · cases hnext

/-- The paths to the four tables. -/
theorem boot_walk (hps : ps.length ≤ 3)
    (h : descend entryFrame (bootMemory m) rootFrame ps = some f) :
    (ps = [] ∧ f = 0x30) ∨ (ps = [1] ∧ f = 0x31) ∨ (ps = [1, 0] ∧ f = 0x32) ∨
      (ps = [1, 0, 0] ∧ f = 0x33) := by
  induction ps using List.reverseRecOn generalizing f with
  | nil => exact .inl ⟨rfl, (Option.some.inj h).symm⟩
  | append_singleton ps i ih =>
      rw [List.length_append, List.length_singleton] at hps
      obtain ⟨g, hg, hnext⟩ := descend_concat_some _ h
      obtain ⟨h30, h31, h32, -⟩ := boot_quads m i
      rcases ih (by omega) hg with ⟨rfl, rfl⟩ | ⟨rfl, rfl⟩ | ⟨rfl, rfl⟩ | ⟨rfl, rfl⟩
      · rw [h30] at hnext
        split_ifs at hnext with hi
        · subst hi
          exact .inr (.inl ⟨rfl, (Option.some.inj hnext).symm⟩)
        · cases hnext
      · rw [h31] at hnext
        split_ifs at hnext with hi
        · subst hi
          exact .inr (.inr (.inl ⟨rfl, (Option.some.inj hnext).symm⟩))
        · cases hnext
      · rw [h32] at hnext
        split_ifs at hnext with hi
        · subst hi
          exact .inr (.inr (.inr ⟨rfl, (Option.some.inj hnext).symm⟩))
        · cases hnext
      · exact absurd hps (by simp)

theorem boot_not_table (hf : f < 0x30 ∨ 0x34 ≤ f) : ¬ IsTable (bootMemory m) f := by
  rintro ⟨ps, hps, hwalk⟩
  rcases boot_walk m hps hwalk with ⟨-, rfl⟩ | ⟨-, rfl⟩ | ⟨-, rfl⟩ | ⟨-, rfl⟩ <;> omega

/-- Behind any other top entry the removal changes nothing. -/
theorem boot_stays {a : Page} (ha : a.InTables) (h0 : a.pml4 ≠ 0) :
    descend entryFrame (bootMemory m) rootFrame a.path =
      descend entryFrame (PMMainTables m) rootFrame a.path := by
  apply descend_congr
  intro us i g hpre hg
  have hlen := hpre.length_le
  rw [List.length_append, List.length_singleton] at hlen
  have hgf := PMMain_walk m (show us.length ≤ 3 from Nat.le_of_succ_le_succ hlen) hg
  have hother : ¬ (g = 0x30 ∧ i = 0) := by
    rintro ⟨rfl, rfl⟩
    obtain rfl : us = [] := List.eq_nil_of_length_eq_zero (by omega)
    have hhead : Fin.ofNat 512 a.pml4 = 0 := by
      obtain ⟨rest, hrest⟩ := hpre
      exact (List.cons.inj hrest).1.symm
    have hval := congrArg Fin.val hhead
    rw [Fin.val_ofNat, Nat.mod_eq_of_lt ha.pml4] at hval
    exact h0 hval
  unfold bootMemory
  rw [put_other hother]

/-- The leaf entries of the boot loader. -/
theorem entryOf_leaf (i : Fin 512) :
    entryOf (.ofNat (0x1000 * i + 3)) = some (Entry.used ⟨i, 0x3⟩) := by
  have hi := i.isLt
  have hquad : UInt64.ofNat (0x1000 * i + 3) = quadOf ⟨i, 0x3⟩ := by
    have hlow : (0x3 : UInt8).toUInt64.toNat = 3 := rfl
    have hleft : (UInt64.ofNat (0x1000 * i + 3)).toNat = 2 ^ 12 * i + 3 :=
      UInt64.toNat_ofNat_of_lt' (show 0x1000 * (i : ℕ) + 3 < 2 ^ 64 by omega)
    have hright : (UInt64.ofNat (0x1000 * i)).toNat = 2 ^ 12 * i :=
      UInt64.toNat_ofNat_of_lt' (show 0x1000 * (i : ℕ) < 2 ^ 64 by omega)
    apply UInt64.toNat_inj.mp
    rw [quadOf, UInt64.toNat_or, hleft, hright, hlow]
    exact Nat.two_pow_add_eq_or_of_lt (by decide) _
  rw [hquad]
  exact entryOf_quadOf ⟨show (0x3 : UInt8) &&& 1 = 1 by decide, show (i : ℕ) < 2 ^ 52 by omega⟩

/-- The entries of the boot loader are those of the model. -/
theorem boot_represents : Represents (bootMemory m) Pager.boot := by
  intro us i g hus hwindow hg
  obtain ⟨h30, h31, h32, h33⟩ := boot_quads m i
  rcases boot_walk m hus hg with ⟨rfl, rfl⟩ | ⟨rfl, rfl⟩ | ⟨rfl, rfl⟩ | ⟨rfl, rfl⟩
  · rw [h30]
    change entryOf _ = (Function.update bootTables.pml4 0 none (i : ℕ)).map Entry.used
    by_cases h0 : i = 0
    · subst h0
      rfl
    · have hne : (i : ℕ) ≠ 0 := fun heq => h0 (Fin.ext heq)
      rw [Function.update_of_ne hne]
      by_cases h1 : i = 1
      · subst h1
        rfl
      · have hge : ¬ (i : ℕ) < 2 := by omega
        have hnone : bootTables.pml4 i = none := if_neg hge
        rw [if_neg h1, hnone]
        rfl
  · rw [h31]
    change entryOf _ = (bootTables.pdpt 1 i).map Entry.used
    by_cases h0 : i = 0
    · subst h0
      rfl
    · have hnone : bootTables.pdpt 1 i = none := if_neg fun h => h0 (Fin.ext h.2)
      rw [if_neg h0, hnone]
      rfl
  · rw [h32]
    change entryOf _ = (bootTables.pde 1 0 i).map Entry.used
    by_cases h0 : i = 0
    · subst h0
      rfl
    · have hnone : bootTables.pde 1 0 i = none := if_neg fun h => h0 (Fin.ext h.2.2)
      rw [if_neg h0, hnone]
      rfl
  · rw [h33, entryOf_leaf]
    rfl

theorem boot_home : descend entryFrame (bootMemory m) rootFrame [1, 0, 0] = some 0x33 := by
  have h1 : entryFrame (bootMemory m 0x30 1) = some 0x31 := by
    rw [(boot_quads m 1).1]
    rfl
  have h2 : entryFrame (bootMemory m 0x31 0) = some 0x32 := by
    rw [(boot_quads m 0).2.1]
    rfl
  have h3 : entryFrame (bootMemory m 0x32 0) = some 0x33 := by
    rw [(boot_quads m 0).2.2.1]
    rfl
  rw [descend, rootFrame, h1, Option.bind_some, descend, h2, Option.bind_some, descend, h3,
    Option.bind_some, descend]

theorem boot_leaf (i : Fin 512) : entryFrame (bootMemory m 0x33 i) = some i := by
  have hframe := entryOf_frame (.ofNat (0x1000 * i + 3))
  rw [entryOf_leaf, Option.map_some] at hframe
  obtain ⟨-, -, -, h33⟩ := boot_quads m i
  exact (congrArg entryFrame h33).trans hframe.symm

theorem boot_tree : IsTree entryFrame (bootMemory m) rootFrame 3 := by
  intro us vs g hus hvs hu hv
  rcases boot_walk m hus hu with ⟨rfl, rfl⟩ | ⟨rfl, rfl⟩ | ⟨rfl, rfl⟩ | ⟨rfl, rfl⟩ <;>
    rcases boot_walk m hvs hv with ⟨rfl, hg⟩ | ⟨rfl, hg⟩ | ⟨rfl, hg⟩ | ⟨rfl, hg⟩ <;>
    first
    | rfl
    | cases hg

variable {m}

/-- The model starts with the tables of the boot loader. -/
theorem Mmu.Booted.refined (h : s.Booted m) : Refined False s Pager.boot := by
  have htop : entryFrame (bootMemory m 0x33 0x30) = some rootFrame := boot_leaf m 0x30
  have htables : entryFrame (bootMemory m 0x33 0x33) = some 0x33 := boot_leaf m 0x33
  obtain ⟨t, ht, hcached⟩ : ∃ t : Mmu, t.phys = bootMemory m ∧ t.cached = s.cached :=
    ⟨{ s with phys := bootMemory m }, rfl, rfl⟩
  have hready : t.Ready False := by
    constructor
    case tree =>
      rw [ht]
      exact boot_tree m
    case home =>
      rw [Mmu.walk, ht]
      exact boot_home m
    case top =>
      rw [ht]
      exact htop
    case tables =>
      rw [ht]
      exact htables
    case fresh =>
      intro a ha hlow g hg
      rw [hcached] at hg
      rw [Mmu.walk, ht, boot_stays m ha hlow]
      exact h.cached a ha hlow g hg
  have hrepresents : Represents t.phys Pager.boot := by
    rw [ht]
    exact boot_represents m
  have hsame : t.Same s := by
    refine ⟨?_, hcached.symm⟩
    rw [ht]
    exact h.marked
  exact Refined.looked ⟨hready, hrepresents⟩ (hready.same hsame)

end Boot

/-! ## A run -/

/-- The processor has cached all that the tables of the boot loader had, and marks the entry of the
first kernel table again and again. -/
def bootedMmu : Mmu where
  phys := bootMemory fun _ _ => 0
  cached a := (descend entryFrame (PMMainTables fun _ _ => 0) rootFrame a.path).toList
  oracle n := n
  marks _ := [⟨[], 1, 0x20⟩]
  accesses := 0

theorem bootedMmu_booted : bootedMmu.Booted fun _ _ => 0 :=
  ⟨.refl _, fun _ _ _ _ hf => Option.mem_toList.mp hf⟩

/-- A user table, and one behind it, which is stored through the window. -/
def userTable : Entry := ⟨0x40, 0x7⟩

def userDirectory : Entry := ⟨0x41, 0x7⟩

def linkedPager : Pager := linkPdpt 0 0 userDirectory (linkPml4 0 userTable Pager.boot)

theorem zero_frame {f : ℕ} (hf : 0x34 ≤ f) :
    ¬ IsTable bootedMmu.phys f ∧ ∀ j, bootedMmu.phys f j = 0 :=
  ⟨boot_not_table _ (.inr hf), fun j => boot_frames _ f j (.inr hf)⟩

theorem Refined.walk_top (h : Refined low s p) (i : Fin 512) :
    s.walk [i] = (p.pml4 i).map Entry.frame := by
  have hroot : s.walk [] = some rootFrame := rfl
  have hwindow : [] ++ [i] ≠ windowPath := by
    intro heq
    exact absurd (congrArg List.length heq) (show ¬ 1 = 4 by decide)
  exact h.walk_concat hroot (Nat.zero_le 3) hwindow

/-- The frames of the tables of the model. -/
theorem Refined.isTable (h : Refined low s p) (hf : IsTable s.phys f) :
    f = rootFrame ∨ ∃ ps e, ps.length ≤ 3 ∧ p.entry ps = some e ∧ e.frame = f := by
  obtain ⟨ps, hlen, hwalk⟩ := hf
  induction ps using List.reverseRecOn with
  | nil => exact .inl (Option.some.inj hwalk).symm
  | append_singleton ps i _ =>
      obtain ⟨g, hg, -⟩ := descend_concat_some ps hwalk
      have hwindow : ps ++ [i] ≠ windowPath := by
        intro heq
        rw [heq] at hlen
        exact absurd hlen (by decide)
      have hshort : ps.length ≤ 3 := by
        rw [List.length_append] at hlen
        omega
      have hstep := h.walk_concat hg hshort hwindow
      obtain ⟨e, he, hframe⟩ := Option.map_eq_some_iff.mp (hstep.symm.trans hwalk)
      exact .inr ⟨ps ++ [i], e, hlen, he, hframe⟩

theorem userTable_links : Links bootedMmu Pager.boot [] 0 userTable where
  short := by decide
  parent := ⟨rootFrame, rfl⟩
  absent := rfl
  window := by decide
  fits := ⟨by decide, by decide⟩
  fresh _ := zero_frame (by decide)

/-- No table of the model is in frame `0x41`. -/
theorem userTable_frames (h : (linkPml4 0 userTable Pager.boot).entry ps = some e)
    (hlen : ps.length ≤ 3) :
    e.frame ≠ 0x41 := by
  rcases ps with _ | ⟨a, _ | ⟨b, _ | ⟨c, _ | ⟨_, _⟩⟩⟩⟩
  case nil => cases h
  case cons.nil =>
    simp only [Pager.entry, linkPml4, Pager.boot, Function.update_apply, bootTables] at h
    split_ifs at h <;> cases h <;> decide
  case cons.cons.nil =>
    change Function.update bootTables.pdpt 0 (fun _ => none) (a : ℕ) b = some e at h
    by_cases ha : (a : ℕ) = 0
    · rw [ha, Function.update_self] at h
      cases h
    · rw [Function.update_of_ne ha] at h
      simp only [bootTables] at h
      split_ifs at h
      cases h
      decide
  case cons.cons.cons.nil =>
    simp only [Pager.entry, linkPml4, Pager.boot, bootTables] at h
    split_ifs at h
    cases h
    decide
  case cons.cons.cons.cons => exact absurd hlen (by simp)

theorem linked_run : ∃ t, Run TableOp.step (bootedMmu, Pager.boot)
    [.link [] 0 userTable, .link [0] 0 userDirectory] (t, linkedPager) := by
  obtain ⟨⟨⟩, t, ht, hrefined, hspares⟩ :=
    (userTable_links.setV_spec bootedMmu_booted.refined).exists_ok
  have hframe : ¬ IsTable bootedMmu.phys 0x41 ∧ ∀ j, bootedMmu.phys 0x41 j = 0 := zero_frame (by decide)
  have hl : Links t (linkPml4 0 userTable Pager.boot) [0] 0 userDirectory := by
    constructor
    case short => decide
    case parent => exact ⟨_, hrefined.walk_top 0⟩
    case absent => exact (linkPml4_stores Pager.boot 0 userTable).children (by decide) 0
    case window => decide
    case fits => exact ⟨by decide, by decide⟩
    case fresh =>
      intro _
      refine ⟨fun htable => ?_, fun j => ?_⟩
      · rcases hrefined.isTable htable with hroot | ⟨ps, e, hlen, he, hframe⟩
        · cases hroot
        · exact userTable_frames he hlen hframe
      · change t.phys 0x41 j = 0
        rw [hspares _ hframe.1]
        exact hframe.2 j
  obtain ⟨⟨⟩, u, hu, -⟩ := (hl.setV_spec hrefined).exists_ok
  have hfirst : TableOp.step (bootedMmu, Pager.boot) (.link [] 0 userTable)
      (t, linkPml4 0 userTable Pager.boot) := ⟨userTable_links, ht, rfl⟩
  have hsecond : TableOp.step (t, linkPml4 0 userTable Pager.boot) (.link [0] 0 userDirectory)
      (u, linkedPager) := ⟨hl, hu, rfl⟩
  exact ⟨u, .cons hfirst (.cons hsecond (.nil _))⟩

/-- The second update forgets, for the window. -/
theorem linked_forgotten :
    Forgotten False [.link [] 0 userTable, .link [0] 0 userDirectory] :=
  .inr (List.cons_ne_nil 0 [])

/-! ## What accesses go to -/

/-- In every run from the tables of the boot loader on, whatever the processor has cached and marks, an
access to any page but the window goes to the frame that the model maps it to, and the next update does
not fault. The pages of the first top entry are excepted until the processor has been made to forget
what it has cached of them while the boot loader's entry was there. -/
theorem tables_refined {m : ℕ → Fin 512 → UInt64} {s₀ : Mmu} {s : Mmu × Pager} (h : s₀.Booted m)
    (hrun : Run TableOp.step (s₀, Pager.boot) ops s) :
    (∀ a : Page, a.InTables → a ≠ windowPage → (a.pml4 = 0 → Forgotten False ops) →
      ∀ f, f ∈ s.1.candidates a ↔ ∃ e, s.2.mapped a = some e ∧ e.frame = f) ∧
    ∀ op : TableOp, op.Meets s.1 s.2 → ∃ t, op.code s.1 = .ok ⟨⟩ t := by
  have hr := Refined.run hrun h.refined
  refine ⟨fun a ha hne hlow f => hr.candidates ha hne hlow, fun op hm => ?_⟩
  obtain ⟨_, t, ht, -⟩ := (op.spec hr hm).exists_ok
  exact ⟨t, ht⟩

/-- The second table is behind the first, and the user half is translated by them. -/
theorem tables_refined_linked : ∃ t : Mmu, Run TableOp.step (bootedMmu, Pager.boot)
      [.link [] 0 userTable, .link [0] 0 userDirectory] (t, linkedPager) ∧
    (∀ a : Page, a.InTables → a ≠ windowPage → ∀ f, f ∈ t.candidates a ↔
      ∃ e, linkedPager.mapped a = some e ∧ e.frame = f) ∧
    ∃ u, (TableOp.lookup [0] 0).code t = .ok ⟨⟩ u := by
  obtain ⟨t, hrun⟩ := linked_run
  obtain ⟨hpages, hnext⟩ := tables_refined bootedMmu_booted hrun
  have hrefined := Refined.run hrun bootedMmu_booted.refined
  have hmeets : (TableOp.lookup [0] 0).Meets t linkedPager :=
    ⟨by decide, _, hrefined.walk_top 0⟩
  exact ⟨t, hrun, fun a ha hne => hpages a ha hne fun _ => linked_forgotten, hnext _ hmeets⟩

/-! ## What the lookups return -/

/-- The lookups return the entries of the model but for the accessed and the dirty bit, `V2P` the
physical address by the page that it looks up, and all leave the tables as they were. -/
structure Reads (low : Prop) (s : Mmu) (p : Pager) : Prop where
  pml4 : ∀ i, Ends (get_pml4V i) s
    (fun q s' => entryOf q = (p.pml4 i).map Entry.used ∧ Refined low s' p) fun _ _ => False
  pdpt : ∀ i j : Fin 512, p.pml4 i ≠ none →
    Ends (get_pdptV i j) s
      (fun q s' => entryOf q = (p.pdpt i j).map Entry.used ∧ Refined True s' p) fun _ _ => False
  pde : ∀ i j k : Fin 512, p.pml4 i ≠ none → p.pdpt i j ≠ none →
    Ends (get_pdeV i j k) s
      (fun q s' => entryOf q = (p.pde i j k).map Entry.used ∧ Refined True s' p) fun _ _ => False
  pt : ∀ i j k l : Fin 512, p.pml4 i ≠ none → p.pdpt i j ≠ none → p.pde i j k ≠ none →
    (⟨i, j, k, l⟩ : Page) ≠ windowPage →
    Ends (get_ptV i j k l) s
      (fun q s' => entryOf q = (p.pt ⟨i, j, k, l⟩).map Entry.used ∧ Refined True s' p)
      fun _ _ => False
  address : ∀ v e, p.mapped (v2pPage v) = some e → v2pPage v ≠ windowPage →
    Ends (V2P v) s (fun r s' => r.toNat = 0x1000 * e.frame + v.toNat % 4096 ∧ Refined True s' p)
      fun _ _ => False

theorem Refined.read (h : Refined low s p) {read : MmuM UInt64} (hps : s.walk ps = some f)
    (hlen : ps.length ≤ 3) (hi : ps ++ [i] ≠ windowPath)
    (hread : Ends read s (fun q s' => s.Looked low' s' ∧ q = s'.phys f i) fun _ _ => False) :
    Ends read s (fun q s' => entryOf q = (p.entry (ps ++ [i])).map Entry.used ∧ Refined low' s' p)
      fun _ _ => False := by
  apply hread.mono _ fun _ _ hf => hf
  rintro q s' ⟨hl, rfl⟩
  have h' := h.looked hl
  exact ⟨(h'.entry ((hl.walk h.ready hlen).trans hps) hlen hi).symm, h'⟩

theorem Refined.walk_some (h : Refined low s p) (hps : s.walk ps = some f) (hlen : ps.length ≤ 2)
    (hne : p.entry (ps ++ [i]) ≠ none) : ∃ g, s.walk (ps ++ [i]) = some g := by
  have hshort : (ps ++ [i]).length ≤ 3 := by
    rw [List.length_append, List.length_singleton]
    omega
  have hi : ps ++ [i] ≠ windowPath := by
    intro heq
    rw [heq] at hshort
    exact absurd hshort (by decide)
  obtain ⟨a, ha⟩ := Option.ne_none_iff_exists'.mp hne
  rw [h.walk_concat hps (by omega) hi, ha]
  exact ⟨_, rfl⟩

/-- The address of a frame. -/
theorem base_toNat (q : UInt64) : (q &&& ~~~0xFFF).toNat = 0x1000 * (q >>> 12).toNat := by
  have hlow : (q &&& ~~~0xFFF).toNat % 4096 = 0 := by
    have hnone : (q &&& ~~~0xFFF) &&& 0xFFF = 0 := by
      rw [UInt64.and_assoc]
      exact UInt64.and_zero
    rw [and_offset] at hnone
    exact (UInt64.toNat_mod _ _).symm.trans (congrArg UInt64.toNat hnone)
  have hhigh : (q &&& ~~~0xFFF).toNat / 4096 = (q >>> 12).toNat := by
    rw [← base_shiftRight, UInt64.toNat_shiftRight]
    exact (Nat.shiftRight_eq_div_pow _ 12).symm
  omega

/-- The page that `V2P` looks up is that of the address without bit 30. -/
theorem v2pPage_eq (v : UInt64) : v2pPage v = pageOf (v &&& ~~~0x40000000) := by
  have hkeep : ∀ m : UInt64, ~~~0x40000000 &&& m = m → v &&& ~~~0x40000000 &&& m = v &&& m := by
    intro m hm
    rw [UInt64.and_assoc, hm]
  have hpdpt : (v &&& ~~~0x40000000 &&& 0x7FC0000000) >>> 30 = (v &&& 0x7FB0000000) >>> 30 := by
    have hmask : (~~~0x40000000 &&& 0x7FC0000000 : UInt64) >>> 30 = (0x7FB0000000 : UInt64) >>> 30 := by
      decide
    rw [UInt64.and_assoc, UInt64.shiftRight_and, hmask, ← UInt64.shiftRight_and]
  unfold v2pPage pageOf
  rw [hkeep 0xFF8000000000 (by decide), hkeep 0x3FE00000 (by decide), hkeep 0x1FF000 (by decide), hpdpt]

theorem mapped_eq_some {a : Page} (h : p.mapped a = some e) :
    p.pml4 a.pml4 ≠ none ∧ p.pdpt a.pml4 a.pdpt ≠ none ∧ p.pde a.pml4 a.pdpt a.pde ≠ none ∧
      p.pt a = some e := by
  rw [Pager.mapped] at h
  split_ifs at h with hnone
  · rw [not_or, not_or] at hnone
    exact ⟨hnone.1, hnone.2.1, hnone.2.2, h⟩

theorem Refined.reads (h : Refined low s p) : Reads low s p := by
  have hroot : s.walk [] = some rootFrame := rfl
  have hshort : ∀ us : List (Fin 512), us.length < 4 → us ≠ windowPath := by
    rintro us hlt rfl
    exact absurd hlt (by decide)
  have h1 : ∀ i : Fin 512, p.pml4 i ≠ none → ∃ f, s.walk [i] = some f :=
    fun i hi => h.walk_some hroot (Nat.zero_le 2) hi
  have h2 : ∀ i j : Fin 512, p.pml4 i ≠ none → p.pdpt i j ≠ none → ∃ f, s.walk [i, j] = some f := by
    intro i j hi hj
    obtain ⟨f, hf⟩ := h1 i hi
    exact h.walk_some hf (Nat.le_succ 1) hj
  have h3 : ∀ i j k : Fin 512, p.pml4 i ≠ none → p.pdpt i j ≠ none → p.pde i j k ≠ none →
      ∃ f, s.walk [i, j, k] = some f := by
    intro i j k hi hj hk
    obtain ⟨f, hf⟩ := h2 i j hi hj
    exact h.walk_some hf (Nat.le_refl 2) hk
  have hpt : ∀ i j k l : Fin 512, p.pml4 i ≠ none → p.pdpt i j ≠ none → p.pde i j k ≠ none →
      (⟨i, j, k, l⟩ : Page) ≠ windowPage →
      Ends (get_ptV i j k l) s
        (fun q s' => entryOf q = (p.pt ⟨i, j, k, l⟩).map Entry.used ∧ Refined True s' p)
        fun _ _ => False := by
    intro i j k l hi hj hk hne
    obtain ⟨f, hf⟩ := h3 i j k hi hj hk
    exact h.read hf (Nat.le_refl 3) (path_ne_window hne) (get_ptV_spec h.ready hf l)
  constructor
  case pml4 =>
    intro i
    have hread := (get_pml4V_spec h.ready i)
    exact h.read hroot (Nat.zero_le 3) (hshort [i] (by simp)) hread
  case pdpt =>
    intro i j hi
    obtain ⟨f, hf⟩ := h1 i hi
    exact h.read hf (by simp) (hshort [i, j] (by simp)) (get_pdptV_spec h.ready hf j)
  case pde =>
    intro i j k hi hj
    obtain ⟨f, hf⟩ := h2 i j hi hj
    exact h.read hf (by simp) (hshort [i, j, k] (by simp)) (get_pdeV_spec h.ready hf k)
  case pt => exact hpt
  case address =>
    intro v e he hne
    have hin : (v2pPage v).InTables := by
      rw [v2pPage_eq]
      exact pageOf_inTables _
    obtain ⟨i, j, k, l, hpage⟩ := hin.exists_mk
    have hindex : ∀ x : ℕ, ∀ a : Fin 512, x = a → Fin.ofNat 512 x = a := by
      rintro x a rfl
      exact Fin.ofNat_val_eq_self a
    have hi := hindex _ i (congrArg Page.pml4 hpage)
    have hj := hindex _ j (congrArg Page.pdpt hpage)
    have hk := hindex _ k (congrArg Page.pde hpage)
    have hl := hindex _ l (congrArg Page.pt hpage)
    rw [hpage] at he hne
    obtain ⟨hpml4, hpdpt, hpde, hleaf⟩ := mapped_eq_some he
    have hread := hpt i j k l hpml4 hpdpt hpde hne
    have hcode : V2P v =
        get_ptV i j k l >>= fun q => pure ((q &&& ~~~0xFFF) + (v &&& 0xFFF)) := by
      rw [← hi, ← hj, ← hk, ← hl]
      rfl
    rw [hcode]
    apply hread.bind
    rintro q s' ⟨hq, h'⟩
    rw [hleaf] at hq
    have hframe : (q >>> 12).toNat = e.frame := by
      have hmap := congrArg (Option.map Entry.frame) hq
      rw [entryOf_frame, used_frame, entryFrame] at hmap
      split_ifs at hmap with hpresent
      · cases hmap
      · exact Option.some.inj hmap
    apply ends_pure.mpr
    refine ⟨?_, h'⟩
    have hoffset : (v &&& 0xFFF).toNat = v.toNat % 4096 := by
      rw [and_offset, UInt64.toNat_mod]
      rfl
    have hbase := base_toNat q
    have hlt := shiftRight_toNat_lt q
    rw [UInt64.toNat_add, hbase, hoffset, hframe]
    rw [hframe] at hlt
    exact Nat.mod_eq_of_lt (by omega)

/-- In every run from the tables of the boot loader on, the lookups of the code return what the model
has. -/
theorem lookups_refined {m : ℕ → Fin 512 → UInt64} {s₀ : Mmu} {s : Mmu × Pager} (h : s₀.Booted m)
    (hrun : Run TableOp.step (s₀, Pager.boot) ops s) :
    Reads (Forgotten False ops) s.1 s.2 :=
  (Refined.run hrun h.refined).reads

theorem lookups_refined_linked : ∃ t, Reads True t linkedPager ∧
    Ends (get_pdptV 0 0) t (fun q _ => entryOf q = some userDirectory.used) fun _ _ => False := by
  obtain ⟨t, hrun⟩ := linked_run
  have hreads := lookups_refined bootedMmu_booted hrun
  rw [eq_true linked_forgotten] at hreads
  have hentry : linkedPager.pdpt 0 0 = some userDirectory :=
    (linkPdpt_stores (linkPml4 0 userTable Pager.boot) 0 0 userDirectory).here
  have htop : linkedPager.pml4 0 ≠ none := by
    have hlink : linkedPager.pml4 0 = some userTable := (linkPml4_stores Pager.boot 0 userTable).here
    rw [hlink]
    exact Option.some_ne_none _
  refine ⟨t, hreads, (hreads.pdpt 0 0 htop).mono ?_ fun _ _ hf => hf⟩
  rintro q _ ⟨hq, -⟩
  exact hq.trans (congrArg (Option.map Entry.used) hentry)

end UnnamedOS.Paging
