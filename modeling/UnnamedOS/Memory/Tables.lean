import UnnamedOS.Lib.Chain
import UnnamedOS.Memory.Units

/-!
# Tables and pages

The tables are chained from `ml1`; an entry whose second word is not zero is attached to a
page. `Layout` says that tables, attached pages and the pages still to be handed out are all
different, so that writes to one of them leave the others alone.
-/

namespace UnnamedOS.Memory

open UnnamedOS.Lib

def PageAddr (x : Nat) : Prop := x % 4096 = 0 ∧ 0 < x ∧ x + 4096 ≤ 2 ^ 64

def InPage (x a : Nat) : Prop := x ≤ a ∧ a < x + 4096

theorem InPage.ne {x y a b : Nat} (ha : InPage x a) (hb : InPage y b) (hx : PageAddr x)
    (hy : PageAddr y) (hne : x ≠ y) : a ≠ b := by
  obtain ⟨hx, _, _⟩ := hx
  obtain ⟨hy, _, _⟩ := hy
  obtain ⟨ha, ha'⟩ := ha
  obtain ⟨hb, hb'⟩ := hb
  omega

theorem toNat_ofNat_of_lt {a : Nat} (ha : a < 2 ^ 64) : (BitVec.ofNat 64 a).toNat = a := by
  rw [BitVec.toNat_ofNat, Nat.mod_eq_of_lt ha]

theorem ofNat_ne_zero_of_lt {a : Nat} (ha : a < 2 ^ 64) (h0 : 0 < a) :
    BitVec.ofNat 64 a ≠ 0#64 := by
  intro h
  have htoNat := congrArg BitVec.toNat h
  rw [toNat_ofNat_of_lt ha, BitVec.toNat_ofNat] at htoNat
  omega

namespace Heap

variable {h h' : Heap} {T : List Nat} {D : List (Nat × Nat)} {size : BitVec 64}
  {a e j t mcp P p : Nat} {v : BitVec 64}

@[simp] theorem poke_ml1 : (h.poke a v).ml1 = h.ml1 := rfl
@[simp] theorem poke_pages : (h.poke a v).pages = h.pages := rfl
@[simp] theorem memfill_pages : (h.memfill p).pages = h.pages := rfl
@[simp] theorem poke_same : (h.poke a v).mem a = v := by simp [poke]

theorem poke_other {b : Nat} (hne : b ≠ a) : (h.poke a v).mem b = h.mem b := by
  simp [poke, hne]

theorem memfill_inside (ha : InPage p a) : (h.memfill p).mem a = 0#64 := if_pos ha

theorem memfill_outside (ha : ¬ InPage p a) : (h.memfill p).mem a = h.mem a := if_neg ha

def IsTable (h : Heap) (t : Nat) : Prop := Reach h.nextTable (some h.ml1) t

/-- The entry at `e` describes the page at `P`. -/
def Attached (h : Heap) (e P : Nat) : Prop :=
  ∃ t i, h.IsTable t ∧ i < 255 ∧ e = t + 16 * i ∧ h.mem (e + 8) ≠ 0#64 ∧
    P = (h.mem (e + 8)).toNat

structure Layout (h : Heap) (T : List Nat) (D : List (Nat × Nat)) : Prop where
  chain : Chain h.nextTable (some h.ml1) T
  attached : ∀ e P, (e, P) ∈ D ↔ h.Attached e P
  nodup : (T ++ (D.map Prod.snd ++ h.pages)).Nodup
  aligned : ∀ x ∈ T ++ (D.map Prod.snd ++ h.pages), PageAddr x

namespace Layout

theorem isTable_iff (hl : Layout h T D) : h.IsTable t ↔ t ∈ T := (chain_mem_iff hl.chain).symm

theorem table_aligned (hl : Layout h T D) (ht : t ∈ T) : PageAddr t :=
  hl.aligned t (List.mem_append_left _ ht)

theorem mem_pages (hD : (e, P) ∈ D) : P ∈ D.map Prod.snd := List.mem_map.mpr ⟨(e, P), hD, rfl⟩

theorem page_aligned (hl : Layout h T D) (hD : (e, P) ∈ D) : PageAddr P :=
  hl.aligned P (List.mem_append_right _ (List.mem_append_left _ (mem_pages hD)))

theorem table_ne_page (hl : Layout h T D) (ht : t ∈ T) (hD : (e, P) ∈ D) : t ≠ P :=
  (List.nodup_append.mp hl.nodup).2.2 t ht P (List.mem_append_left _ (mem_pages hD))

/-- An attached entry lies in a table. -/
theorem entry (hl : Layout h T D) (hD : (e, P) ∈ D) : ∃ t ∈ T, ∃ i < 255, e = t + 16 * i := by
  obtain ⟨t, i, ht, hi, he, _⟩ := (hl.attached e P).mp hD
  exact ⟨t, hl.isTable_iff.mp ht, i, hi, he⟩

theorem entry_page (hl : Layout h T D) (hD : (e, P) ∈ D) :
    h.mem (e + 8) ≠ 0#64 ∧ P = (h.mem (e + 8)).toNat := by
  obtain ⟨t, i, _, _, _, hne, hP⟩ := (hl.attached e P).mp hD
  exact ⟨hne, hP⟩

theorem page_unique (hl : Layout h T D) {P' : Nat} (hD : (e, P) ∈ D) (hD' : (e, P') ∈ D) :
    P = P' := (hl.entry_page hD).2.trans (hl.entry_page hD').2.symm

theorem entry_unique (hl : Layout h T D) {e' : Nat} (hD : (e, P) ∈ D) (hD' : (e', P) ∈ D) :
    e = e' := by
  have hnd := (List.nodup_append.mp (List.nodup_append.mp hl.nodup).2.1).1
  have heq := List.inj_on_of_nodup_map hnd hD hD' rfl
  exact (Prod.mk.inj heq).1

theorem table_page_sep (hl : Layout h T D) {b : Nat} (ht : t ∈ T) (hD : (e, P) ∈ D)
    (ha : InPage t a) (hb : InPage P b) : a ≠ b :=
  ha.ne hb (hl.table_aligned ht) (hl.page_aligned hD) (hl.table_ne_page ht hD)

/-- The words of an entry are not in any attached page. -/
theorem entry_sep (hl : Layout h T D) {e' P' b : Nat} (hD : (e, P) ∈ D) (hD' : (e', P') ∈ D)
    (hb : InPage P' b) : e ≠ b := by
  obtain ⟨t, ht, i, hi, rfl⟩ := hl.entry hD
  exact hl.table_page_sep ht hD' ⟨by omega, by omega⟩ hb

/-- Bitmaps apart, the words of the tables decide the layout. -/
theorem congr (hl : Layout h T D) (hml1 : h'.ml1 = h.ml1) (hpages : h'.pages = h.pages)
    (hmem : ∀ t ∈ T, ∀ o < 4096, (∀ i < 255, o ≠ 16 * i) → h'.mem (t + o) = h.mem (t + o)) :
    Layout h' T D := by
  have hnext : ∀ t ∈ T, h.nextTable t = h'.nextTable t := by
    intro t ht
    have hw := hmem t ht (8 * 511) (by omega) (fun i _ => by omega)
    rw [nextTable, nextTable, hw]
  have hchain : Chain h'.nextTable (some h'.ml1) T := by
    rw [hml1]
    exact (chain_congr hnext).mp hl.chain
  have hslot : ∀ t ∈ T, ∀ i < 255, h'.mem (t + 16 * i + 8) = h.mem (t + 16 * i + 8) := by
    intro t ht i hi
    exact hmem t ht (16 * i + 8) (by omega) (fun i _ => by omega)
  refine ⟨hchain, fun e P => ?_, hpages ▸ hl.nodup, hpages ▸ hl.aligned⟩
  rw [hl.attached]
  constructor
  · rintro ⟨t, i, ht, hi, rfl, hne, hP⟩
    have ht' := hl.isTable_iff.mp ht
    rw [← hslot t ht' i hi] at hne hP
    exact ⟨t, i, (chain_mem_iff hchain).mp ht', hi, rfl, hne, hP⟩
  · rintro ⟨t, i, ht, hi, rfl, hne, hP⟩
    have ht' : t ∈ T := (chain_mem_iff hchain).mpr ht
    rw [hslot t ht' i hi] at hne hP
    exact ⟨t, i, hl.isTable_iff.mpr ht', hi, rfl, hne, hP⟩

/-- A bitmap and the inside of an attached page can be written. -/
theorem frame (hl : Layout h T D) (hD : (e, P) ∈ D) (hml1 : h'.ml1 = h.ml1)
    (hpages : h'.pages = h.pages)
    (hmem : ∀ a, a ≠ e → ¬ InPage P a → h'.mem a = h.mem a) : Layout h' T D := by
  apply hl.congr hml1 hpages
  intro t ht o ho hbitmap
  obtain ⟨t', ht', i, hi, rfl⟩ := hl.entry hD
  apply hmem
  · intro heq
    by_cases hne : t = t'
    · exact hbitmap i hi (by omega)
    · exact InPage.ne (x := t) (y := t') ⟨by omega, by omega⟩ ⟨by omega, by omega⟩ (hl.table_aligned ht)
        (hl.table_aligned ht') hne heq
  · intro hin
    exact hl.table_page_sep ht hD ⟨by omega, by omega⟩ hin rfl

end Layout

/-- A table pass stops at a run of an allocated entry. -/
theorem scanTable_fits {k i : Nat} {NA : Option Nat} (hk : i + k ≤ 255)
    (hs : h.scanTable size mcp k i NA = .fits e j) :
    ∃ i' < 255, e = mcp + 16 * i' ∧ h.mem (e + 8) ≠ 0#64 ∧
      matchBits (h.mem e) size 64 0 0#8 = some j := by
  induction k generalizing i NA with
  | zero => cases hs
  | succ k ih =>
      rw [scanTable] at hs
      split at hs
      · exact ih (by omega) hs
      · rename_i hslot
        split at hs
        · exact ih (by omega) hs
        · split at hs
          · rename_i j' hj
            obtain ⟨rfl, rfl⟩ := Scan.fits.inj hs
            exact ⟨i, by omega, rfl, hslot, hj⟩
          · exact ih (by omega) hs

/-- A pass that finds no run hands on the first unallocated entry. -/
theorem scanTable_full {k i mcp' : Nat} {NA NA' : Option Nat} (hk : i + k ≤ 255)
    (hs : h.scanTable size mcp k i NA = .full mcp' NA') :
    mcp' = mcp ∧ ∀ e, NA' = some e → NA = some e ∨
      ∃ i' < 255, e = mcp + 16 * i' ∧ h.mem (e + 8) = 0#64 := by
  induction k generalizing i NA with
  | zero =>
      obtain ⟨rfl, rfl⟩ := Scan.full.inj hs
      exact ⟨rfl, fun e he => Or.inl he⟩
  | succ k ih =>
      rw [scanTable] at hs
      split at hs
      · rename_i hslot
        obtain ⟨hmcp, hNA⟩ := ih (by omega) hs
        refine ⟨hmcp, fun e he => ?_⟩
        rcases hNA e he with hor | hnew
        · cases NA with
          | none =>
              obtain rfl := Option.some.inj hor
              exact Or.inr ⟨i, by omega, rfl, hslot⟩
          | some x => exact Or.inl hor
        · exact Or.inr hnew
      · split at hs
        · exact ih (by omega) hs
        · split at hs
          · cases hs
          · exact ih (by omega) hs

/-- An unallocated entry of a table. -/
def Unallocated (h : Heap) (T : List Nat) (e : Nat) : Prop :=
  ∃ t ∈ T, ∃ i < 255, e = t + 16 * i ∧ h.mem (e + 8) = 0#64

theorem nextTable_getD_mem {l : List Nat} (hc : Chain h.nextTable (some mcp) l) :
    ∃ l', Chain h.nextTable (some ((h.nextTable mcp).getD mcp)) l' ∧ (∀ t ∈ l', t ∈ l) ∧
      (h.nextTable ((h.nextTable mcp).getD mcp) ≠ none → l'.length < l.length) := by
  obtain ⟨l', rfl, hl'⟩ := chain_some.mp hc
  cases hnext : h.nextTable mcp with
  | none =>
      refine ⟨mcp :: l', hc, fun t ht => ht, fun hne => ?_⟩
      rw [Option.getD_none, hnext] at hne
      exact absurd rfl hne
  | some t =>
      rw [hnext] at hl'
      exact ⟨l', hl', fun t ht => List.mem_cons_of_mem mcp ht, fun _ => Nat.lt_succ_self _⟩

/-- The table loop ends, with a run in one of the tables or with the last table. -/
theorem scanTables_spec (size : BitVec 64) {fuel : Nat} :
    ∀ {l : List Nat} {mcp : Nat} (NA : Option Nat), Chain h.nextTable (some mcp) l →
      (∀ t ∈ l, t ∈ T) → l.length ≤ fuel → (∀ e, NA = some e → h.Unallocated T e) →
      (∃ e j, h.scanTables size fuel mcp NA = .ok (.fits e j) ∧ (∃ t ∈ T, ∃ i < 255,
          e = t + 16 * i) ∧ h.mem (e + 8) ≠ 0#64 ∧
          matchBits (h.mem e) size 64 0 0#8 = some j) ∨
        ∃ mcp' NA', h.scanTables size fuel mcp NA = .ok (.full mcp' NA') ∧ mcp' ∈ T ∧
          h.nextTable mcp' = none ∧ ∀ e, NA' = some e → h.Unallocated T e := by
  induction fuel with
  | zero =>
      intro l mcp NA hc _ hlen
      obtain ⟨l', rfl, _⟩ := chain_some.mp hc
      simp at hlen
  | succ fuel ih =>
      intro l mcp NA hc hT hlen hNA
      have hmcp : mcp ∈ T := by
        obtain ⟨l', rfl, _⟩ := chain_some.mp hc
        exact hT mcp List.mem_cons_self
      rw [scanTables]
      cases hs : h.scanTable size mcp 255 0 NA with
      | fits e j =>
          obtain ⟨i, hi, he, hslot, hj⟩ := scanTable_fits (by omega) hs
          exact Or.inl ⟨e, j, rfl, ⟨mcp, hmcp, i, hi, he⟩, hslot, hj⟩
      | full m NA' =>
          obtain ⟨rfl, hfull⟩ := scanTable_full (by omega) hs
          have hNA' : ∀ e, NA' = some e → h.Unallocated T e := by
            intro e he
            rcases hfull e he with hold | ⟨i, hi, hei, hslot⟩
            · exact hNA e hold
            · exact ⟨m, hmcp, i, hi, hei, hslot⟩
          obtain ⟨l', hc', hsub, hlt⟩ := nextTable_getD_mem hc
          dsimp only
          cases hnext : h.nextTable ((h.nextTable m).getD m) with
          | none =>
              obtain ⟨l'', rfl, _⟩ := chain_some.mp hc'
              exact Or.inr ⟨_, NA', rfl, hT _ (hsub _ List.mem_cons_self), hnext, hNA'⟩
          | some t =>
              have hne : h.nextTable ((h.nextTable m).getD m) ≠ none := by
                rw [hnext]
                exact Option.some_ne_none t
              have hlt := hlt hne
              exact ih NA' hc' (fun t ht => hT t (hsub t ht)) (by omega) hNA'

end Heap

end UnnamedOS.Memory
