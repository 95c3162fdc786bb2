import UnnamedOS.Paging.WindowRefines

/-!
# Runs of table updates

`ALSP`, `KP_ALLOC3` and `P_FREE` link tables, fill leaf entries and remove them, through the window
and through the pages of new tables, with lookups and with other memory written in between.
-/

namespace UnnamedOS.Paging

open UnnamedOS.Lib

/-- The entry in a quad, with the accessed and the dirty bit as if they were set. -/
def entryOf (q : UInt64) : Option Entry :=
  (entryFrame q).map fun f => ⟨f, (q ||| 0x60).toUInt8⟩

def Entry.used (e : Entry) : Entry := { e with flags := e.flags ||| 0x60 }

/-- The quad that is stored for an entry. -/
def quadOf (e : Entry) : UInt64 := .ofNat (0x1000 * e.frame) ||| e.flags.toUInt64

/-- The entry at the end of a path. -/
def Pager.entry (s : Pager) : List (Fin 512) → Option Entry
  | [i] => s.pml4 i
  | [i, j] => s.pdpt i j
  | [i, j, k] => s.pde i j k
  | [i, j, k, l] => s.pt ⟨i, j, k, l⟩
  | _ => none

/-- An entry is stored in the table at the end of a path. -/
def Pager.link (s : Pager) (i : Fin 512) (e : Entry) : List (Fin 512) → Pager
  | [] => linkPml4 i e s
  | [a] => linkPdpt a i e s
  | [a, b] => linkPde a b i e s
  | [a, b, c] => setPt ⟨a, b, c, i⟩ (some e) s
  | _ => s

/-- The quads of the tables are the entries of the model, but for the window's and for the accessed and
the dirty bit. -/
def Represents (phys : ℕ → Fin 512 → UInt64) (s : Pager) : Prop :=
  ∀ ps i f, ps.length ≤ 3 → ps ++ [i] ≠ windowPath → descend entryFrame phys rootFrame ps = some f →
    entryOf (phys f i) = (s.entry (ps ++ [i])).map Entry.used

inductive TableOp where
  /-- A store through the window, to the table at the end of a path. -/
  | link (ps : List (Fin 512)) (i : Fin 512) (e : Entry)
  /-- A store of `KP_ALLOC3` to a table that it has just linked, through the page `M`. -/
  | direct (M : UInt64) (ps : List (Fin 512)) (i : Fin 512) (e : Entry)
  /-- The store of `P_FREE`. -/
  | clearPt (i j k l : Fin 512)
  | lookup (ps : List (Fin 512)) (i : Fin 512)
  /-- A store to memory that is no table, through any page. -/
  | memory (v q : UInt64)
  | flush
  /-- Until `P_ALLOC3_SETUP` removes the first top entry, without a flush, the processor may cache
  anything of its pages. The rest of the code does not use them, and the model leaves them out. -/
  | identity (cached : Page → List ℕ)

def setV (i : Fin 512) (q : UInt64) : List (Fin 512) → MmuM Unit
  | [] => setPml4V i q
  | [a] => setPdptV a i q
  | [a, b] => setPdeV a b i q
  | [a, b, c] => setPtV a b c i q
  | _ => return

def getV (i : Fin 512) : List (Fin 512) → MmuM UInt64
  | [] => get_pml4V i
  | [a] => get_pdptV a i
  | [a, b] => get_pdeV a b i
  | [a, b, c] => get_ptV a b c i
  | _ => return 0

namespace TableOp

def code : TableOp → MmuM Unit
  | link ps i e => setV i (quadOf e) ps
  | direct M _ i e => store (at8 M i) (quadOf e)
  | clearPt i j k l => do
    setPtV i j k l 0
    FLUSH_TLB
  | lookup ps i => do
    let _ ← getV i ps
    return
  | memory v q => store v q
  | flush => FLUSH_TLB
  | identity cached => modify fun s => { s with
      cached := fun a => if a.pml4 = 0 then cached a else s.cached a }

def model (s : Pager) : TableOp → Pager
  | link ps i e => s.link i e ps
  | direct _ ps i e => s.link i e ps
  | clearPt i j k l => setPt ⟨i, j, k, l⟩ none s
  | _ => s

/-- Whether nothing is cached of the pages of the first top entry that is out of date. All is forgotten
at a flush, by itself or for the window. -/
def forgets (low : Prop) : TableOp → Prop
  | link ps _ _ => low ∨ ps ≠ []
  | lookup ps _ => low ∨ ps ≠ []
  | clearPt _ _ _ _ => True
  | flush => True
  | identity _ => False
  | direct _ _ _ _ => low
  | memory _ _ => low

end TableOp

/-- The same behind a run. -/
def Forgotten (low : Prop) : List TableOp → Prop
  | [] => low
  | op :: ops => Forgotten (op.forgets low) ops

/-- An entry that has room in a quad. -/
structure Entry.Fits (e : Entry) : Prop where
  present : e.flags &&& 1 = 1
  frame : e.frame < 2 ^ 52

/-- An absent entry of a table is stored, not that of the window. What is linked as a table is a page of
zeroes that is no table yet. -/
structure Links (s : Mmu) (p : Pager) (ps : List (Fin 512)) (i : Fin 512) (e : Entry) : Prop where
  short : ps.length ≤ 3
  parent : ∃ f, s.walk ps = some f
  absent : p.entry (ps ++ [i]) = none
  window : ps ++ [i] ≠ windowPath
  fits : e.Fits
  fresh : ps.length < 3 → ¬ IsTable s.phys e.frame ∧ ∀ j, s.phys e.frame j = 0

/-- The condition on an update. The leaf entries of the two tables that the code reaches without the
window stay, and it does not use the page of the window for anything else. -/
def TableOp.Meets (s : Mmu) (p : Pager) : TableOp → Prop
  | .link ps i e => Links s p ps i e
  | .direct M ps i e => Links s p ps i e ∧ s.walk (pageOf M).path = s.walk ps ∧
      (pageOf M).pml4 ≠ 0 ∧ M.toNat % 4096 = 0
  | .clearPt i j k l => (∃ f, s.walk [i, j, k] = some f) ∧
      ∀ n ∈ [0x30, 0x33, 0x3C], [i, j, k, l] ≠ (kernelPage n).path
  | .lookup ps _ => ps.length ≤ 3 ∧ ∃ f, s.walk ps = some f
  | .memory v _ => s.candidates (pageOf v) ≠ [] ∧
      ∀ f ∈ s.candidates (pageOf v), ¬ IsTable s.phys f
  | .flush => True
  | .identity _ => True

/-- A run of the code beside one of the model. -/
def TableOp.step (s : Mmu × Pager) (op : TableOp) (s' : Mmu × Pager) : Prop :=
  op.Meets s.1 s.2 ∧ op.code s.1 = .ok ⟨⟩ s'.1 ∧ s'.2 = op.model s.2

/-- What an update stores at its path, with the table that it links found empty. -/
structure Stores (p p' : Pager) (path : List (Fin 512)) (e : Option Entry) : Prop where
  here : p'.entry path = e
  children : path.length ≤ 3 → ∀ j, p'.entry (path ++ [j]) = none
  others : ∀ qs, ¬ path <+: qs → p'.entry qs = p.entry qs

variable {s s' t : Mmu} {p p' : Pager} {e : Entry} {q q' : UInt64} {f g : ℕ} {i j k l : Fin 512}
  {ps qs : List (Fin 512)} {phys : ℕ → Fin 512 → UInt64} {op : TableOp} {ops : List TableOp}
  {low low' : Prop}

theorem linkPml4_stores (p : Pager) (i : Fin 512) (e : Entry) :
    Stores p (linkPml4 i e p) [i] (some e) where
  here := Function.update_self ..
  children _ j := congrFun (Function.update_self (i : ℕ) _ p.pdpt) j
  others qs hout := by
    rcases qs with _ | ⟨a, _ | ⟨b, _ | ⟨c, _ | ⟨d, _ | ⟨_, _⟩⟩⟩⟩⟩
    case cons.nil =>
      have ha : (a : ℕ) ≠ i := fun heq => hout ⟨[], by rw [Fin.ext heq, List.append_nil]⟩
      exact Function.update_of_ne ha ..
    case cons.cons.nil =>
      have ha : (a : ℕ) ≠ i := fun heq => hout ⟨[b], by rw [Fin.ext heq]; rfl⟩
      exact congrFun (Function.update_of_ne ha _ p.pdpt) (b : ℕ)
    all_goals rfl

theorem linkPdpt_stores (p : Pager) (i j : Fin 512) (e : Entry) :
    Stores p (linkPdpt i j e p) [i, j] (some e) where
  here := by
    simp only [Pager.entry, linkPdpt, Function.update_self]
  children _ k := by
    simp only [Pager.entry, linkPdpt, List.cons_append, List.nil_append, Function.update_self]
  others qs hout := by
    rcases qs with _ | ⟨a, _ | ⟨b, _ | ⟨c, _ | ⟨d, _ | ⟨_, _⟩⟩⟩⟩⟩
    case cons.cons.nil =>
      simp only [Pager.entry, linkPdpt]
      by_cases ha : (a : ℕ) = i
      · have hb : (b : ℕ) ≠ j := fun heq => hout ⟨[], by rw [Fin.ext ha, Fin.ext heq]; rfl⟩
        rw [ha, Function.update_self, Function.update_of_ne hb]
      · rw [Function.update_of_ne ha]
    case cons.cons.cons.nil =>
      simp only [Pager.entry, linkPdpt]
      by_cases ha : (a : ℕ) = i
      · have hb : (b : ℕ) ≠ j := fun heq => hout ⟨[c], by rw [Fin.ext ha, Fin.ext heq]; rfl⟩
        rw [ha, Function.update_self, Function.update_of_ne hb]
      · rw [Function.update_of_ne ha]
    all_goals rfl

theorem linkPde_stores (p : Pager) (i j k : Fin 512) (e : Entry) :
    Stores p (linkPde i j k e p) [i, j, k] (some e) where
  here := by
    simp only [Pager.entry, linkPde, Function.update_self]
  children _ l := by
    simp only [Pager.entry, linkPde, List.cons_append, List.nil_append, true_and, if_true]
  others qs hout := by
    rcases qs with _ | ⟨a, _ | ⟨b, _ | ⟨c, _ | ⟨d, _ | ⟨_, _⟩⟩⟩⟩⟩
    case cons.cons.cons.nil =>
      have hne : ¬ ((a : ℕ) = i ∧ (b : ℕ) = j ∧ (c : ℕ) = k) := fun heq =>
        hout ⟨[], by rw [Fin.ext heq.1, Fin.ext heq.2.1, Fin.ext heq.2.2]; rfl⟩
      simp only [Pager.entry, linkPde]
      by_cases ha : (a : ℕ) = i
      · by_cases hb : (b : ℕ) = j
        · have hc : (c : ℕ) ≠ k := fun heq => hne ⟨ha, hb, heq⟩
          rw [ha, hb, Function.update_self, Function.update_self, Function.update_of_ne hc]
        · rw [ha, Function.update_self, Function.update_of_ne hb]
      · rw [Function.update_of_ne ha]
    case cons.cons.cons.cons.nil =>
      have hne : ¬ ((a : ℕ) = i ∧ (b : ℕ) = j ∧ (c : ℕ) = k) := fun heq =>
        hout ⟨[d], by rw [Fin.ext heq.1, Fin.ext heq.2.1, Fin.ext heq.2.2]; rfl⟩
      exact if_neg hne
    all_goals rfl

theorem setPt_stores (p : Pager) (i j k l : Fin 512) (e : Option Entry) :
    Stores p (setPt ⟨i, j, k, l⟩ e p) [i, j, k, l] e where
  here := Function.update_self ..
  children hlen := absurd hlen (by simp)
  others qs hout := by
    rcases qs with _ | ⟨a, _ | ⟨b, _ | ⟨c, _ | ⟨d, _ | ⟨_, _⟩⟩⟩⟩⟩
    case cons.cons.cons.cons.nil =>
      have hne : (⟨a, b, c, d⟩ : Page) ≠ ⟨i, j, k, l⟩ := by
        intro heq
        rw [Page.mk.injEq] at heq
        exact hout ⟨[], by
          rw [Fin.ext heq.1, Fin.ext heq.2.1, Fin.ext heq.2.2.1, Fin.ext heq.2.2.2]; rfl⟩
      exact Function.update_of_ne hne ..
    all_goals rfl

/-- One for each level. -/
theorem link_stores (p : Pager) (e : Entry) (h : ps.length ≤ 3) :
    Stores p (p.link i e ps) (ps ++ [i]) (some e) := by
  rcases ps with _ | ⟨a, _ | ⟨b, _ | ⟨c, _ | ⟨_, _⟩⟩⟩⟩
  case nil => exact linkPml4_stores p i e
  case cons.nil => exact linkPdpt_stores p a i e
  case cons.cons.nil => exact linkPde_stores p a b i e
  case cons.cons.cons.nil => exact setPt_stores p a b c i (some e)
  case cons.cons.cons.cons =>
    exact absurd h (by simp)

/-! ## One store -/

theorem entryOf_eq_none : entryOf q = none ↔ entryFrame q = none := Option.map_eq_none_iff

theorem entryOf_congr (h : q' ||| 0x60 = q ||| 0x60) : entryOf q' = entryOf q := by
  rw [entryOf, entryOf, entryFrame_congr h, h]

theorem entryOf_frame (q : UInt64) : (entryOf q).map Entry.frame = entryFrame q := by
  rw [entryOf, Option.map_map]
  exact Option.map_id'

theorem used_frame (e : Option Entry) : (e.map Entry.used).map Entry.frame = e.map Entry.frame := by
  rw [Option.map_map]
  rfl

/-- A store keeps the representation. -/
theorem Represents.put {e : Option Entry} (h : Represents phys p)
    (hT : IsTree entryFrame phys rootFrame 3)
    (hps : descend entryFrame phys rootFrame ps = some f) (hlen : ps.length ≤ 3)
    (hq : Linked entryFrame phys rootFrame 3 ps q) (hst : Stores p p' (ps ++ [i]) e)
    (he : entryOf q = e.map Entry.used) : Represents (put phys f i q) p' := by
  intro us j g hus hwindow hg
  rcases descend_put_cases hT hps hlen hq hus hg with ⟨hold, hout⟩ | ⟨rfl, hd, hnext⟩
  · by_cases hself : us ++ [j] = ps ++ [i]
    · obtain ⟨rfl, hj⟩ := List.append_inj' hself rfl
      obtain rfl := (List.cons.inj hj).1
      obtain rfl := Option.some.inj (hold.symm.trans hps)
      rw [put_self, hst.here]
      exact he
    · have hother : ¬ (g = f ∧ j = i) := by
        rintro ⟨rfl, rfl⟩
        exact hself (congrArg (· ++ [j]) (hT us ps g hus hlen hold hps))
      have hpre : ¬ ps ++ [i] <+: us ++ [j] := by
        intro hpre
        rcases List.prefix_concat_iff.mp hpre with heq | hpre'
        · exact hself heq.symm
        · exact hout hpre'
      rw [put_other hother, hst.others _ hpre]
      exact h us j g hus hwindow hold
  · obtain ⟨hfresh, hempty⟩ := hq g hnext hd
    have hother : ¬ (g = f ∧ j = i) := by
      rintro ⟨rfl, rfl⟩
      exact hfresh ps hlen hps
    rw [put_other hother, hst.children hus j]
    exact entryOf_eq_none.mpr (hempty j)

/-- What a lookup leaves represents the same. -/
theorem Represents.looked (h : Represents s.phys p) (hs : s.Ready low) (hl : s.Looked low' s') :
    Represents s'.phys p := by
  intro us j g hus hwindow hg
  have hg' : s.walk us = some g := (hl.walk hs hus).symm.trans hg
  have hother : ¬ (g = 0x33 ∧ j = 0x3C) := by
    rintro ⟨rfl, rfl⟩
    have heq := hs.tree us [1, 0, 0] _ hus (Nat.le_refl 3) hg' hs.home
    rw [heq] at hwindow
    exact hwindow rfl
  rw [entryOf_congr (hl.others g j hother)]
  exact h us j g hus hwindow hg'

/-- The store leaves the way to the tables alone. -/
structure Harmless (path : List (Fin 512)) : Prop where
  home : ¬ path <+: [1, 0, 0]
  top : path ≠ [1, 0, 0, 0x30]
  tables : path ≠ [1, 0, 0, 0x33]

/-- Nothing that is cached goes through what is stored, or it has been forgotten. -/
theorem Mmu.Ready.put (h : s.Ready low) (hps : s.walk ps = some f) (hlen : ps.length ≤ 3)
    (hq : Linked entryFrame s.phys rootFrame 3 ps q) (hpath : Harmless (ps ++ [i]))
    (hphys : s'.phys = Lib.put s.phys f i q)
    (hfresh : ∀ a, a.InTables → (a.pml4 = 0 → low') → ∀ g ∈ s'.cached a, s'.walk a.path = some g) :
    s'.Ready low' := by
  have hcell : ∀ j : Fin 512, ps ++ [i] ≠ [1, 0, 0] ++ [j] → s'.phys 0x33 j = s.phys 0x33 j := by
    intro j hne
    rw [hphys]
    apply put_other
    rintro ⟨rfl, rfl⟩
    exact hne (congrArg (· ++ [j]) (h.tree ps [1, 0, 0] _ hlen (Nat.le_refl 3) hps h.home))
  constructor
  case tree =>
    rw [hphys]
    exact h.tree.put hps hlen hq
  case home =>
    have hshort : ([1, 0, 0] : List (Fin 512)).length ≤ 3 + 1 := Nat.le_succ 3
    rw [Mmu.walk, hphys, descend_put h.tree hps hlen hshort hpath.home]
    exact h.home
  case top =>
    rw [hcell _ hpath.top]
    exact h.top
  case tables =>
    rw [hcell _ hpath.tables]
    exact h.tables
  case fresh => exact hfresh

/-- The code and the model agree. -/
structure Refined (low : Prop) (s : Mmu) (p : Pager) : Prop where
  ready : s.Ready low
  represents : Represents s.phys p

theorem Refined.looked (h : Refined low s p) (hl : s.Looked low' s') : Refined low' s' p :=
  ⟨hl.ready, h.represents.looked h.ready hl⟩

theorem Refined.entry (h : Refined low s p) (hps : s.walk ps = some f) (hlen : ps.length ≤ 3)
    (hi : ps ++ [i] ≠ windowPath) : (p.entry (ps ++ [i])).map Entry.used = entryOf (s.phys f i) :=
  (h.represents ps i f hlen hi hps).symm

/-- One step of a walk. -/
theorem Refined.walk_concat (h : Refined low s p) (hps : s.walk ps = some f) (hlen : ps.length ≤ 3)
    (hi : ps ++ [i] ≠ windowPath) : s.walk (ps ++ [i]) = (p.entry (ps ++ [i])).map Entry.frame := by
  rw [walk_concat_eq hps, ← entryOf_frame, ← h.entry hps hlen hi, used_frame]

/-- What is no table is as it was. -/
def Mmu.Spares (s s' : Mmu) : Prop := ∀ f, ¬ IsTable s.phys f → s'.phys f = s.phys f

theorem Mmu.Looked.spares (h : s.Looked low s') (hs : s.Ready low') (h' : s'.Spares t) : s.Spares t :=
  fun f hf => (h' f fun hm => hf ((h.isTable hs).mp hm)).trans (h.memory f hf)

theorem put_spares (hps : s.walk ps = some f) (hlen : ps.length ≤ 3)
    (hphys : s'.phys = put s.phys f i q) : s.Spares s' := by
  intro g hg
  have hne : g ≠ f := by
    rintro rfl
    exact hg ⟨ps, hlen, hps⟩
  rw [hphys]
  exact Function.update_of_ne hne ..

/-! ## Entries that are stored -/

/-- An entry that is stored is read back. -/
theorem entryOf_quadOf (h : e.Fits) : entryOf (quadOf e) = some e.used := by
  have hshift : (UInt64.ofNat (0x1000 * e.frame)).toNat = 2 ^ 12 * e.frame :=
    UInt64.toNat_ofNat_of_lt' (show 0x1000 * e.frame < 2 ^ 64 by have := h.frame; omega)
  have hlow : e.flags.toUInt64.toNat = e.flags.toNat := UInt8.toNat_toUInt64 _
  have hlt : e.flags.toNat < 2 ^ 12 := e.flags.toNat_lt.trans (by decide)
  have hquad : (quadOf e).toNat = 2 ^ 12 * e.frame + e.flags.toNat := by
    rw [quadOf, UInt64.toNat_or, hshift, hlow]
    exact (Nat.two_pow_add_eq_or_of_lt hlt _).symm
  have hodd : e.flags.toNat % 2 = 1 := by
    have hnat := congrArg UInt8.toNat h.present
    rw [UInt8.toNat_and] at hnat
    exact (Nat.and_one_is_mod _).symm.trans hnat
  have hpresent : ¬ quadOf e &&& 1 = 0 := by
    intro hzero
    have hnat := congrArg UInt64.toNat hzero
    rw [UInt64.toNat_and, hquad] at hnat
    have hmod : (2 ^ 12 * e.frame + e.flags.toNat) % 2 = 0 := (Nat.and_one_is_mod _).symm.trans hnat
    omega
  have hup : (quadOf e >>> 12).toNat = e.frame := by
    have htwelve : (12 : UInt64).toNat % 64 = 12 := rfl
    rw [UInt64.toNat_shiftRight, hquad, htwelve, Nat.shiftRight_eq_div_pow]
    omega
  have hbyte : (quadOf e).toUInt8 = e.flags := by
    apply UInt8.toNat_inj.mp
    rw [UInt64.toNat_toUInt8, hquad]
    have h8 := e.flags.toNat_lt
    omega
  rw [entryOf, entryFrame, if_neg hpresent, hup, UInt64.toUInt8_or, hbyte]
  rfl

/-- What is absent in the model is so in the memory. -/
theorem Links.walk_none (hl : Links s p ps i e) (h : Refined low s p) : s.walk (ps ++ [i]) = none := by
  obtain ⟨f, hf⟩ := hl.parent
  rw [h.walk_concat hf hl.short hl.window, hl.absent]
  rfl

theorem walk_append_none (h : s.walk ps = none) (hpre : ps <+: qs) : s.walk qs = none := by
  obtain ⟨rest, rfl⟩ := hpre
  rw [Mmu.walk] at h
  rw [Mmu.walk, descend_append, h, Option.bind_none]

/-- What is linked does not cut the way to the tables. -/
theorem Links.harmless (hl : Links s p ps i e) (h : Refined low s p) : Harmless (ps ++ [i]) := by
  have hnone := hl.walk_none h
  have hthere : ∀ n : Fin 512, entryFrame (s.phys 0x33 n) ≠ none → ps ++ [i] ≠ [1, 0, 0, n] := by
    intro n hn heq
    rw [heq] at hnone
    exact hn ((walk_concat_eq h.ready.home n).symm.trans hnone)
  constructor
  · intro hpre
    have hhome := h.ready.home
    rw [walk_append_none hnone hpre] at hhome
    cases hhome
  · apply hthere
    rw [h.ready.top]
    exact Option.some_ne_none _
  · apply hthere
    rw [h.ready.tables]
    exact Option.some_ne_none _

theorem Links.linked (hl : Links s p ps i e) : Linked entryFrame s.phys rootFrame 3 ps (quadOf e) := by
  intro g hnext hd
  have hframe := entryOf_quadOf hl.fits
  have hg : g = e.frame := by
    rw [entryOf, hnext] at hframe
    exact congrArg Entry.frame (Option.some.inj hframe)
  obtain ⟨hfresh, hzero⟩ := hl.fresh hd
  rw [hg]
  refine ⟨fun qs hqs hwalk => hfresh ⟨qs, hqs, hwalk⟩, fun j => ?_⟩
  rw [hzero j]
  rfl

theorem Links.looked (hl : Links s p ps i e) (hs : s.Ready low) (hlook : s.Looked low' s') :
    Links s' p ps i e where
  short := hl.short
  parent := by
    obtain ⟨f, hf⟩ := hl.parent
    exact ⟨f, (hlook.walk hs hl.short).trans hf⟩
  absent := hl.absent
  window := hl.window
  fits := hl.fits
  fresh hd := by
    obtain ⟨hfresh, hzero⟩ := hl.fresh hd
    refine ⟨fun hm => hfresh ((hlook.isTable hs).mp hm), fun j => ?_⟩
    rw [hlook.memory _ hfresh]
    exact hzero j

/-- A store through an address of the entry. What is cached did not go through it, as it was absent. -/
theorem Links.store_spec (hl : Links s p ps i e) (h : Refined low s p) {v : UInt64}
    (hv : s.Maps (pageOf v) f) (hi : quadIndex v = i) (hps : s.walk ps = some f) :
    Ends (store v (quadOf e)) s (fun _ s' => Refined low s' (p.link i e ps) ∧ s.Spares s')
      fun _ _ => False := by
  apply (Paging.store_spec hv).mono _ fun _ _ hf => hf
  rintro _ s' ⟨t, hsame, hstored⟩
  rw [hi] at hstored
  have hlook := h.ready.same hsame
  have ht := h.looked hlook
  have hlt := hl.looked h.ready hlook
  have hpt : t.walk ps = some f := (hsame.walk ps).trans hps
  have hst := link_stores (i := i) p e hl.short
  refine ⟨⟨ht.ready.put hpt hl.short hlt.linked (hlt.harmless ht) hstored.phys ?_, ?_⟩,
    hlook.spares h.ready (put_spares hpt hl.short hstored.phys)⟩
  · intro a ha hlow g hg
    have hwalk : t.walk a.path = some g := by
      rw [hstored.cached, Mmu.candidates, List.mem_append, Option.mem_toList] at hg
      exact hg.elim (ht.ready.fresh a ha hlow g) id
    have hfour : a.path.length ≤ 3 + 1 := Nat.le_refl 4
    rw [Mmu.walk, hstored.phys, descend_put ht.ready.tree hpt hl.short hfour]
    · exact hwalk
    · intro hpre
      rw [walk_append_none (hlt.walk_none ht) hpre] at hwalk
      cases hwalk
  · rw [hstored.phys]
    exact ht.represents.put ht.ready.tree hpt hl.short hlt.linked hst (entryOf_quadOf hl.fits)

/-- A store to a table in the window. -/
theorem Links.array_spec (hl : Links s p ps i e) (h : Refined low s p) {array : MmuM UInt64}
    (hps : s.walk ps = some f)
    (harray : Ends array s (fun P s' => P = MBASE + 0x1c000 ∧ s.Looked True s' ∧ s'.Maps windowPage f)
      fun _ _ => False) :
    Ends (array >>= fun P => store (at8 P i) (quadOf e)) s
      (fun _ s' => Refined True s' (p.link i e ps) ∧ s.Spares s') fun _ _ => False := by
  apply harray.bind
  rintro P s1 ⟨rfl, h1, hw⟩
  obtain ⟨hmaps, hindex⟩ := maps_window hw i
  apply ((hl.looked h.ready h1).store_spec (h.looked h1) hmaps hindex
    ((h1.walk h.ready hl.short).trans hps)).mono _ fun _ _ hf => hf
  rintro _ s' ⟨hs', hspares⟩
  exact ⟨hs', h1.spares h.ready hspares⟩

/-- One case for each level. -/
theorem Links.setV_spec (hl : Links s p ps i e) (h : Refined low s p) :
    Ends (setV i (quadOf e) ps) s
      (fun _ s' => Refined (low ∨ ps ≠ []) s' (p.link i e ps) ∧ s.Spares s') fun _ _ => False := by
  obtain ⟨f, hf⟩ := hl.parent
  have hnonempty : ∀ a us, low ∨ a :: us ≠ ([] : List (Fin 512)) ↔ True :=
    fun a us => iff_of_true (.inr (List.cons_ne_nil a us)) trivial
  have hshort := hl.short
  rcases ps with _ | ⟨a, _ | ⟨b, _ | ⟨c, _ | ⟨_, _⟩⟩⟩⟩
  case nil =>
    obtain rfl := Option.some.inj (show some rootFrame = some f from hf)
    obtain ⟨hmaps, hindex⟩ := maps_at8_top h.ready i
    have hlow : (low ∨ ([] : List (Fin 512)) ≠ []) = low := by simp
    rw [hlow]
    exact hl.store_spec h hmaps hindex hf
  case cons.nil =>
    rw [hnonempty]
    exact hl.array_spec h hf (get_pml4VP_spec h.ready hf)
  case cons.cons.nil =>
    rw [hnonempty]
    exact hl.array_spec h hf (get_pdptVP_spec h.ready hf)
  case cons.cons.cons.nil =>
    rw [hnonempty]
    exact hl.array_spec h hf (get_pdeVP_spec h.ready hf)
  case cons.cons.cons.cons => exact absurd hshort (by simp)

/-! ## The other steps -/

theorem at8_maps {M : UInt64} (hM : M.toNat % 4096 = 0) (hm : s.Maps (pageOf M) f) (i : Fin 512) :
    s.Maps (pageOf (at8 M i)) f ∧ quadIndex (at8 M i) = i := by
  have hend : M.toNat + 4096 ≤ 2 ^ 64 := by
    have hlt := M.toNat_lt
    omega
  rw [pageOf_at8 hend hM]
  exact ⟨hm, quadIndex_at8 hend hM i⟩

theorem direct_spec {M : UInt64} (h : Refined low s p) (hm : (TableOp.direct M ps i e).Meets s p) :
    Ends (store (at8 M i) (quadOf e)) s (fun _ s' => Refined low s' (p.link i e ps) ∧ s.Spares s')
      fun _ _ => False := by
  obtain ⟨hl, hwalk, hkernel, hM⟩ := hm
  obtain ⟨f, hf⟩ := hl.parent
  have hmaps : s.Maps (pageOf M) f :=
    h.ready.maps (pageOf_inTables M) (fun hz => absurd hz hkernel) (hwalk.trans hf)
  obtain ⟨hat, hindex⟩ := at8_maps hM hmaps i
  exact hl.store_spec h hat hindex hf

/-- Everything cached is forgotten. -/
theorem flush_spec (h : Refined low s p) :
    Ends FLUSH_TLB s (fun _ s' => Refined True s' p ∧ s.Spares s') fun _ _ => False := by
  rw [FLUSH_TLB, ends_modify]
  have hnone : ∀ a : Page, ∀ g ∈ (fun _ => [] : Page → List ℕ) a,
      Mmu.walk { s with cached := fun _ => [] } a.path = some g :=
    fun a g hg => absurd hg List.not_mem_nil
  exact ⟨⟨⟨h.ready.tree, h.ready.home, h.ready.top, h.ready.tables, fun a _ _ => hnone a⟩,
    h.represents⟩, fun _ _ => rfl⟩

theorem clearPt_spec (h : Refined low s p) (hm : (TableOp.clearPt i j k l).Meets s p) :
    Ends (TableOp.clearPt i j k l).code s
      (fun _ s' => Refined True s' (setPt ⟨i, j, k, l⟩ none p) ∧ s.Spares s') fun _ _ => False := by
  obtain ⟨⟨f, hf⟩, hpages⟩ := hm
  have hlen : ([i, j, k] : List (Fin 512)).length ≤ 3 := Nat.le_refl 3
  have hharmless : Harmless ([i, j, k] ++ [l]) := by
    refine ⟨fun hpre => ?_, hpages 0x30 (by simp), hpages 0x33 (by simp)⟩
    have hfour := hpre.length_le
    simp at hfour
  have hzero : ∀ phys, Linked entryFrame phys rootFrame 3 [i, j, k] 0 :=
    fun _ _ _ hlt => absurd hlt (by simp)
  change Ends ((get_pdeVP i j k >>= fun P => store (at8 P l) 0) >>= fun _ => FLUSH_TLB) s _ _
  rw [bind_assoc]
  apply (get_pdeVP_spec h.ready hf).bind
  rintro P s1 ⟨rfl, h1, hw⟩
  obtain ⟨hmaps, hindex⟩ := maps_window hw l
  apply (store_spec hmaps).bind
  rintro _ s2 ⟨t, hsame, h2⟩
  rw [hindex] at h2
  have hlook : s.Looked True t := h1.trans (h1.ready.same hsame) h.ready
  have ht := h.looked hlook
  have hpt : t.walk [i, j, k] = some f := (hlook.walk h.ready hlen).trans hf
  rw [FLUSH_TLB, ends_modify]
  refine ⟨⟨ht.ready.put hpt hlen (hzero _) hharmless h2.phys fun a _ _ g hg =>
      absurd hg List.not_mem_nil, ?_⟩, hlook.spares h.ready (put_spares hpt hlen h2.phys)⟩
  change Represents s2.phys _
  rw [h2.phys]
  exact ht.represents.put ht.ready.tree hpt hlen (hzero _) (setPt_stores p i j k l none) rfl

theorem lookup_spec (h : Refined low s p) (hlen : ps.length ≤ 3) (hf : s.walk ps = some f)
    (i : Fin 512) :
    Ends (getV i ps) s (fun q s' => s.Looked (low ∨ ps ≠ []) s' ∧ q = s'.phys f i)
      fun _ _ => False := by
  have hnonempty : ∀ a us, low ∨ a :: us ≠ ([] : List (Fin 512)) ↔ True :=
    fun a us => iff_of_true (.inr (List.cons_ne_nil a us)) trivial
  rcases ps with _ | ⟨a, _ | ⟨b, _ | ⟨c, _ | ⟨_, _⟩⟩⟩⟩
  case nil =>
    obtain rfl := Option.some.inj (show some rootFrame = some f from hf)
    have hlow : (low ∨ ([] : List (Fin 512)) ≠ []) = low := by simp
    rw [hlow]
    exact get_pml4V_spec h.ready i
  case cons.nil =>
    simp only [hnonempty]
    exact get_pdptV_spec h.ready hf i
  case cons.cons.nil =>
    simp only [hnonempty]
    exact get_pdeV_spec h.ready hf i
  case cons.cons.cons.nil =>
    simp only [hnonempty]
    exact get_ptV_spec h.ready hf i
  case cons.cons.cons.cons => exact absurd hlen (by simp)

/-- A frame that is no table. -/
theorem memory_spec {v : UInt64} (h : Refined low s p) (hm : (TableOp.memory v q).Meets s p) :
    Ends (store v q) s (fun _ s' => Refined low s' p) fun _ _ => False := by
  obtain ⟨hne, hno⟩ := hm
  apply (store_some hne).mono _ fun _ _ hfalse => hfalse
  rintro _ s' ⟨f, hf, t, hsame, hstored⟩
  have ht := h.looked (h.ready.same hsame)
  have htable : ∀ us g, us.length ≤ 3 → t.walk us = some g → g ≠ f := by
    rintro us g hus hg rfl
    exact hno g hf (hsame.marked.isTable.mp ⟨us, hus, hg⟩)
  have hcell : ∀ g a, g ≠ f → s'.phys g a = t.phys g a := by
    intro g a hg
    rw [hstored.phys]
    exact put_other fun heq => hg heq.1
  have hwalk : ∀ us, us.length ≤ 4 → s'.walk us = t.walk us := by
    intro us hus
    apply descend_congr
    intro vs a g hpre hg
    have hlen := hpre.length_le
    rw [List.length_append, List.length_singleton] at hlen
    rw [hcell g a (htable vs g (by omega) hg)]
  constructor
  · constructor
    case tree =>
      intro us vs g hus hvs hu hv
      have hsu := hwalk us (by omega)
      have hsv := hwalk vs (by omega)
      rw [Mmu.walk] at hsu hsv
      exact ht.ready.tree us vs g hus hvs (hsu.symm.trans hu) (hsv.symm.trans hv)
    case home =>
      rw [hwalk _ (by decide)]
      exact ht.ready.home
    case top =>
      rw [hcell _ _ (htable [1, 0, 0] _ (by decide) ht.ready.home)]
      exact ht.ready.top
    case tables =>
      rw [hcell _ _ (htable [1, 0, 0] _ (by decide) ht.ready.home)]
      exact ht.ready.tables
    case fresh =>
      intro a ha hlow g hg
      rw [hwalk a.path (Nat.le_refl 4)]
      rw [hstored.cached, Mmu.candidates, List.mem_append, Option.mem_toList] at hg
      exact hg.elim (ht.ready.fresh a ha hlow g) id
  · intro us a g hus hwindow hg
    have hold : t.walk us = some g := (hwalk us (by omega)).symm.trans hg
    rw [hcell g a (htable us g hus hold)]
    exact ht.represents us a g hus hwindow hold

theorem identity_spec (h : Refined low s p) (cached : Page → List ℕ) :
    Ends (TableOp.identity cached).code s (fun _ s' => Refined False s' p) fun _ _ => False := by
  apply ends_modify.mpr
  refine ⟨⟨h.ready.tree, h.ready.home, h.ready.top, h.ready.tables, ?_⟩, h.represents⟩
  intro a ha hlow f hf
  change f ∈ (if a.pml4 = 0 then cached a else s.cached a) at hf
  rw [if_neg hlow] at hf
  exact h.ready.fresh a ha (fun hz => absurd hz hlow) f hf

theorem TableOp.spec (h : Refined low s p) (op : TableOp) (hm : op.Meets s p) :
    Ends op.code s (fun _ s' => Refined (op.forgets low) s' (op.model p)) fun _ _ => False := by
  cases op with
  | link ps i e => exact (Links.setV_spec hm h).mono (fun _ _ ht => ht.1) fun _ _ hf => hf
  | direct M ps i e => exact (direct_spec h hm).mono (fun _ _ ht => ht.1) fun _ _ hf => hf
  | clearPt i j k l => exact (clearPt_spec h hm).mono (fun _ _ ht => ht.1) fun _ _ hf => hf
  | lookup ps i =>
      obtain ⟨hlen, f, hf⟩ := hm
      exact (lookup_spec h hlen hf i).bind fun _ _ ht => ends_pure.mpr (h.looked ht.1)
  | memory v q => exact memory_spec h hm
  | flush => exact (flush_spec h).mono (fun _ _ ht => ht.1) fun _ _ hf => hf
  | identity cached => exact identity_spec h cached

/-! ## Runs -/

theorem walk_concat_none (h : s.walk ps = none) (i : Fin 512) : s.walk (ps ++ [i]) = none := by
  rw [Mmu.walk] at h
  rw [Mmu.walk, Lib.descend_concat, h, Option.bind_none]

theorem path_mk (i j k l : Fin 512) : Page.path ⟨i, j, k, l⟩ = [i, j, k, l] := by
  simp only [Page.path, Fin.ofNat_val_eq_self]

theorem Page.InTables.exists_mk {a : Page} (h : a.InTables) :
    ∃ i j k l : Fin 512, a = ⟨i, j, k, l⟩ :=
  ⟨⟨a.pml4, h.pml4⟩, ⟨a.pdpt, h.pdpt⟩, ⟨a.pde, h.pde⟩, ⟨a.pt, h.pt⟩, rfl⟩

theorem path_ne_window (hne : (⟨i, j, k, l⟩ : Page) ≠ windowPage) :
    [i, j, k, l] ≠ windowPath := by
  intro heq
  apply hne
  have hwindow : windowPath = [1, 0, 0, 0x3C] := by decide
  rw [hwindow] at heq
  simp only [List.cons.injEq, and_true] at heq
  obtain ⟨rfl, rfl, rfl, rfl⟩ := heq
  decide

/-- The walk to a page is what the model says. -/
theorem Refined.walk_page (h : Refined low s p) (hne : (⟨i, j, k, l⟩ : Page) ≠ windowPage) :
    s.walk [i, j, k, l] = (p.mapped ⟨i, j, k, l⟩).map Entry.frame := by
  have hshort : ∀ us : List (Fin 512), us.length < 4 → us ≠ windowPath := by
    rintro us hlt rfl
    exact absurd hlt (by decide)
  have hroot : s.walk [] = some rootFrame := rfl
  have h1 := h.walk_concat (i := i) hroot (Nat.zero_le 3) (hshort [i] (by simp))
  rw [Pager.mapped]
  cases hi : p.pml4 i with
  | none =>
      rw [if_pos (.inl rfl)]
      have hnone : s.walk [i] = none := h1.trans (by rw [List.nil_append, Pager.entry, hi]; rfl)
      exact walk_concat_none (walk_concat_none (walk_concat_none hnone j) k) l
  | some a =>
      have hw1 : s.walk [i] = some a.frame := h1.trans (by rw [List.nil_append, Pager.entry, hi]; rfl)
      have h2 := h.walk_concat (i := j) hw1 (by simp) (hshort [i, j] (by simp))
      cases hj : p.pdpt i j with
      | none =>
          rw [if_pos (.inr (.inl rfl))]
          have hnone : s.walk [i, j] = none := h2.trans (by
            rw [List.singleton_append, Pager.entry, hj]
            rfl)
          exact walk_concat_none (walk_concat_none hnone k) l
      | some b =>
          have hw2 : s.walk [i, j] = some b.frame := h2.trans (by
            rw [List.singleton_append, Pager.entry, hj]
            rfl)
          have h3 := h.walk_concat (i := k) hw2 (by simp) (hshort [i, j, k] (by simp))
          cases hk : p.pde i j k with
          | none =>
              rw [if_pos (.inr (.inr rfl))]
              have hnone : s.walk [i, j, k] = none := h3.trans (by
                rw [List.cons_append, List.singleton_append, Pager.entry, hk]
                rfl)
              exact walk_concat_none hnone l
          | some c =>
              have hw3 : s.walk [i, j, k] = some c.frame := h3.trans (by
                rw [List.cons_append, List.singleton_append, Pager.entry, hk]
                rfl)
              have h4 := h.walk_concat (i := l) hw3 (by simp) (path_ne_window hne)
              have hpresent : ¬ ((some a : Option Entry) = none ∨ (some b : Option Entry) = none ∨
                  (some c : Option Entry) = none) := by simp
              rw [if_neg hpresent]
              exact h4

theorem Refined.candidates (h : Refined low s p) {a : Page} (ha : a.InTables)
    (hne : a ≠ windowPage) (hlow : a.pml4 = 0 → low) :
    f ∈ s.candidates a ↔ ∃ e, p.mapped a = some e ∧ e.frame = f := by
  obtain ⟨i, j, k, l, rfl⟩ := ha.exists_mk
  have hwalk := h.walk_page hne
  rw [← path_mk] at hwalk
  rw [Mmu.candidates, List.mem_append, Option.mem_toList]
  constructor
  · intro hf
    have hpath : s.walk (Page.path ⟨i, j, k, l⟩) = some f := hf.elim (h.ready.fresh _ ha hlow f) id
    exact Option.map_eq_some_iff.mp (hwalk.symm.trans hpath)
  · intro he
    exact .inr (hwalk.trans (Option.map_eq_some_iff.mpr he))

/-- Up to a flush the pages of the first top entry may be translated as they once were. -/
theorem Refined.run {s s' : Mmu × Pager} (hrun : Run TableOp.step s ops s')
    (h : Refined low s.1 s.2) : Refined (Forgotten low ops) s'.1 s'.2 := by
  induction hrun generalizing low with
  | nil s => exact h
  | cons hs _ ih =>
      obtain ⟨hm, hcode, hmodel⟩ := hs
      have hspec := TableOp.spec h _ hm
      rw [Ends, hcode] at hspec
      rw [← hmodel] at hspec
      exact ih hspec

end UnnamedOS.Paging
