import UnnamedOS.Memory.Search

/-!
# Finding space

Where the request would be served from, and when the search of `malloc` sees it.
-/

namespace UnnamedOS.Memory

open UnnamedOS.Lib Heap

variable {h h' h₁ : Heap} {s s' s₀ : HeapState} {T : List Nat} {D : List (Nat × Nat)} {B C : Block}
  {e P st a b j k n p q mcp : Nat} {NA : Option Nat} {ops : List HeapOp}

/-- Units `st` to `st + k - 1` of a page are free. -/
def FreeRun (B : BitVec 64) (k st : Nat) : Prop :=
  st + k ≤ 64 ∧ ∀ i < k, B.getLsbD (st + i) = true

instance (B : BitVec 64) (k st : Nat) : Decidable (FreeRun B k st) :=
  inferInstanceAs (Decidable (_ ∧ _))

/-- An attached page has room for `n` bytes and the header. -/
def HasRoom (h : Heap) (D : List (Nat × Nat)) (n : Nat) : Prop :=
  ∃ e P st, (e, P) ∈ D ∧ FreeRun (h.mem e) (units n) st

/-- Free units of an attached page are returned and no page is taken from `KPALLOC`. -/
def ReturnsRun (h : Heap) (D : List (Nat × Nat)) (n : Nat) : Prop :=
  ∃ h' e P st, (e, P) ∈ D ∧ FreeRun (h.mem e) (units n) st ∧
    h.malloc (BitVec.ofNat 64 n) = .ok (P + 64 * st + 64, h') ∧ h'.pages = h.pages

/-- The first units of a page that is attached for them are returned. A table comes before it only
if there is no unallocated entry. -/
def AttachesPage (h : Heap) (T : List Nat) (D : List (Nat × Nat)) (n : Nat) : Prop :=
  ∃ h' e q, h.malloc (BitVec.ofNat 64 n) = .ok (q + 64, h') ∧
    (h.Unallocated T e ∧ h.pages = q :: h'.pages ∧ Layout h' T ((e, q) :: D) ∨
      ∃ t, (∀ e, ¬ h.Unallocated T e) ∧ h.pages = t :: q :: h'.pages ∧
        Layout h' (T ++ [t]) ((e, q) :: D))

def FindsSpace (h : Heap) (T : List Nat) (D : List (Nat × Nat)) (n : Nat) : Prop :=
  (HasRoom h D n → ReturnsRun h D n) ∧ (¬ HasRoom h D n → AttachesPage h T D n)

/-- The first unit of the run the bits of the entry are taken for. -/
def seemingStart (B : BitVec 64) (k : Nat) : Nat := (firstRun B k).getD 0 + 1 - k

/-- The first page in the searched tables whose bits test as a run has that run and is not the last
page of the address space. If there is no such page, none has room, and an unallocated entry, if
there is one, is in the searched tables too. -/
def SearchSees (h : Heap) (T : List Nat) (D : List (Nat × Nat)) (n : Nat) : Prop :=
  (∀ e, (entries (searched T)).find? (fun e => h.Fits (units n) e) = some e →
    FreeRun (h.mem e) (units n) (seemingStart (h.mem e) (units n)) ∧
      (h.mem (e + 8)).toNat + 4096 < 2 ^ 64) ∧
  ((entries (searched T)).find? (fun e => h.Fits (units n) e) = none →
    ¬ HasRoom h D n ∧ ((∃ e, h.Unallocated T e) → ∃ e, h.Unallocated (searched T) e))

theorem mem_entries {ts : List Nat} : e ∈ entries ts ↔ ∃ t ∈ ts, ∃ i < 255, e = t + 16 * i := by
  simp [entries, eq_comm]

theorem mem_of_searched {t : Nat} (ht : t ∈ searched T) : t ∈ T := by
  unfold searched at ht
  split at ht
  · exact ht
  · exact List.dropLast_subset T ht

theorem unallocated_of_searched (he : h.Unallocated (searched T) e) : h.Unallocated T e := by
  obtain ⟨t, ht, hrest⟩ := he
  exact ⟨t, mem_of_searched ht, hrest⟩

theorem find_unallocated {ts : List Nat}
    (hf : (entries ts).find? (fun e => h.mem (e + 8) = 0#64) = some e) : h.Unallocated ts e := by
  obtain ⟨t, ht, i, hi, rfl⟩ := mem_entries.mp (List.mem_of_find?_eq_some hf)
  exact ⟨t, ht, i, hi, rfl, by simpa using List.find?_some hf⟩

theorem not_unallocated {ts : List Nat}
    (hf : (entries ts).find? (fun e => h.mem (e + 8) = 0#64) = none) : ¬ h.Unallocated ts e := by
  rintro ⟨t, ht, i, hi, rfl, hz⟩
  have hne := List.find?_eq_none.mp hf _ (mem_entries.mpr ⟨t, ht, i, hi, rfl⟩)
  exact hne (by simpa using hz)

/-- `malloc` by the entry its search ends with. -/
theorem malloc_eq (hl : Layout h T D) (h1 : 1 ≤ n) (hn : n ≤ 3968) :
    ∃ mcp ∈ T, h.nextTable mcp = none ∧ h.malloc (BitVec.ofNat 64 n) =
      match (entries (searched T)).find? (fun e => h.Fits (units n) e) with
      | some e => h.takeRun (BitVec.ofNat 64 (units n)) e ((firstRun (h.mem e) (units n)).getD 0)
      | none =>
        match h.newEntry mcp ((entries (searched T)).find? fun e => h.mem (e + 8) = 0#64) with
        | .error x => .error x
        | .ok (e, h₁) => h₁.takePage (BitVec.ofNat 64 (units n)) e := by
  have hlt := units_lt hn
  have htwo := two_le_units h1
  obtain ⟨mcp, hs, hmcp, hnone⟩ := scanTables_eq (by omega) hlt none hl.chain
    (tables_length_le hl)
  refine ⟨mcp, hmcp, hnone, ?_⟩
  rw [malloc, unitsOf_ofNat h1 hn]
  dsimp only
  rw [hs, search]
  cases (entries (searched T)).find? (fun e => h.Fits (units n) e) with
  | some e => rfl
  | none => rfl

/-- The entry the search stops at, its page and the end of the run its bits test as. -/
theorem found_entry (hl : Layout h T D)
    (hf : (entries (searched T)).find? (fun e => h.Fits (units n) e) = some e) :
    (e, (h.mem (e + 8)).toNat) ∈ D ∧ ∃ j < 64, (firstRun (h.mem e) (units n)).getD 0 = j ∧
      units n ≤ j + 1 ∧ seemingStart (h.mem e) (units n) = j + 1 - units n := by
  obtain ⟨t, ht, i, hi, rfl⟩ := mem_entries.mp (List.mem_of_find?_eq_some hf)
  obtain ⟨hslot, hsome⟩ : h.Fits (units n) (t + 16 * i) := by simpa using List.find?_some hf
  obtain ⟨j, hj⟩ := Option.isSome_iff_exists.mp hsome
  obtain ⟨hlt, hfit, -⟩ := firstRun_some hj
  constructor
  · exact (hl.attached _ _).mpr
      ⟨t, i, hl.isTable_iff.mpr (mem_of_searched ht), hi, rfl, hslot, rfl⟩
  · refine ⟨j, hlt, by rw [hj, Option.getD_some], hfit, ?_⟩
    rw [seemingStart, hj, Option.getD_some]

theorem takePage_cons {ps : List Nat} (hp : h.pages = q :: ps) (size : BitVec 64) (e : Nat) :
    ∃ h', h.takePage size e = .ok (q + 64, h') := by
  rw [takePage, kpalloc, poke_pages, hp]
  exact ⟨_, rfl⟩

theorem newEntry_none {ps : List Nat} (hp : h.pages = q :: ps) :
    h.newEntry mcp none = .ok (q, h.withTable mcp q ps) := by
  rw [newEntry, kpalloc, hp]
  rfl

theorem newEntry_none_ok (hok : h.newEntry mcp none = .ok (e, h')) :
    ∃ ps, h.pages = e :: ps ∧ h' = h.withTable mcp e ps := by
  cases hp : h.pages with
  | nil =>
      rw [newEntry, kpalloc, hp] at hok
      cases hok
  | cons q ps =>
      rw [newEntry_none hp] at hok
      obtain ⟨rfl, rfl⟩ := Prod.mk.inj (Except.ok.inj hok)
      exact ⟨ps, rfl, rfl⟩

/-- The end of a run of free units below the last page of the address space is within the page. -/
theorem overalloc_iff (hP : PageAddr P) (hfit : k ≤ j + 1) (hj : j < 64) (hk : 2 ≤ k) :
    (BitVec.ofNat 64 P + 0x1000#64 < BitVec.ofNat 64 (P + (j + 1 - k) * 64 + 64) +
      BitVec.ofNat 64 k * 8#64 - 64#64) ↔ ¬ P + 4096 < 2 ^ 64 := by
  obtain ⟨-, hpos, hle⟩ := hP
  have hsum : BitVec.ofNat 64 (P + (j + 1 - k) * 64 + 64) + BitVec.ofNat 64 k * 8#64 - 64#64 =
      BitVec.ofNat 64 (P + (j + 1 - k) * 64 + k * 8) := by
    have hmul : BitVec.ofNat 64 k * 8#64 = BitVec.ofNat 64 (k * 8) := by
      rw [BitVec.ofNat_mul]
    have hadd : BitVec.ofNat 64 (P + (j + 1 - k) * 64 + 64) + BitVec.ofNat 64 (k * 8) =
        BitVec.ofNat 64 (P + (j + 1 - k) * 64 + k * 8) + 64#64 := by
      rw [← BitVec.ofNat_add, ← BitVec.ofNat_add]
      congr 1
      omega
    rw [hmul, hadd, BitVec.add_sub_cancel]
  have hlim : BitVec.ofNat 64 P + 0x1000#64 = BitVec.ofNat 64 (P + 4096) := by
    rw [BitVec.ofNat_add]
  rw [hsum, hlim, BitVec.lt_def, BitVec.toNat_ofNat, BitVec.toNat_ofNat,
    Nat.mod_eq_of_lt (show P + (j + 1 - k) * 64 + k * 8 < 2 ^ 64 by omega)]
  omega

/-- A run of units that are all free is taken, except on the last page of the address space. -/
theorem takeRun_free (hP : PageAddr P) (hPe : P = (h.mem (e + 8)).toNat) (htwo : 2 ≤ k)
    (hfit : k ≤ j + 1) (hj : j < 64) (hrun : FreeRun (h.mem e) k (j + 1 - k))
    (hlast : P + 4096 < 2 ^ 64) :
    ∃ h', h.takeRun (BitVec.ofNat 64 k) e j = .ok (P + 64 * (j + 1 - k) + 64, h') ∧
      h'.pages = h.pages := by
  have hset : ~~~h.mem e &&& jshift (BitVec.ofNat 64 k) (BitVec.ofNat 64 j) = 0#64 := by
    rw [not_and_eq_zero_iff]
    intro b hb hm
    rw [getLsbD_jshift hfit hj hb, decide_eq_true_iff] at hm
    have hfree := hrun.2 (b - (j + 1 - k)) (by omega)
    have hb' : j + 1 - k + (b - (j + 1 - k)) = b := by omega
    rwa [hb'] at hfree
  have hslot : h.mem (e + 8) = BitVec.ofNat 64 P := by rw [hPe, BitVec.ofNat_toNat, BitVec.setWidth_eq]
  rw [takeRun, if_pos hset]
  dsimp only
  rw [poke_other (show e + 8 ≠ e by omega), hslot, toNat_runStart hfit hj,
    toNat_ofNat_of_lt (by omega), if_neg (by rw [overalloc_iff hP hfit hj htwo]; omega)]
  have hptr : P + (j + 1 - k) * 64 + 64 = P + 64 * (j + 1 - k) + 64 := by omega
  rw [hptr]
  exact ⟨_, rfl, rfl⟩

theorem takeRun_last (hP : PageAddr P) (hPe : P = (h.mem (e + 8)).toNat) (htwo : 2 ≤ k)
    (hfit : k ≤ j + 1) (hj : j < 64)
    (hok : h.takeRun (BitVec.ofNat 64 k) e j = .ok (p, h')) : P + 4096 < 2 ^ 64 := by
  have hslot : h.mem (e + 8) = BitVec.ofNat 64 P := by rw [hPe, BitVec.ofNat_toNat, BitVec.setWidth_eq]
  rw [takeRun] at hok
  split at hok
  · dsimp only at hok
    split at hok
    · cases hok
    · rename_i hno
      have hle := hP.2.2
      rw [poke_other (show e + 8 ≠ e by omega), hslot, toNat_runStart hfit hj,
        toNat_ofNat_of_lt (by omega), overalloc_iff hP hfit hj htwo] at hno
      omega
  · cases hok

/-- The search saw what there is to see, so the request is served as it should be. -/
theorem findsSpace_of_sees (hl : Layout h T D) (h1 : 1 ≤ n) (hn : n ≤ 3968)
    (hpages : 2 ≤ h.pages.length) (hsees : SearchSees h T D n) : FindsSpace h T D n := by
  have htwo := two_le_units h1
  obtain ⟨mcp, hmcp, hnone, hmalloc⟩ := malloc_eq hl h1 hn
  obtain ⟨p₁, p₂, ps, hps⟩ : ∃ p₁ p₂ ps, h.pages = p₁ :: p₂ :: ps := by
    match hp : h.pages with
    | [] => simp [hp] at hpages
    | [_] => simp [hp] at hpages
    | p₁ :: p₂ :: ps => exact ⟨p₁, p₂, ps, rfl⟩
  cases hf : (entries (searched T)).find? (fun e => h.Fits (units n) e) with
  | some e =>
      obtain ⟨hrun, hlast⟩ := hsees.1 e hf
      obtain ⟨hD, j, hj, hend, hfit, hstart⟩ := found_entry hl hf
      rw [hstart] at hrun
      constructor
      · intro _
        obtain ⟨h', hok, hpg⟩ := takeRun_free (hl.page_aligned hD) rfl htwo hfit hj hrun hlast
        refine ⟨h', e, _, j + 1 - units n, hD, hrun, ?_, hpg⟩
        rw [hmalloc, hf]
        dsimp only
        rw [hend, hok]
      · intro hno
        exact absurd ⟨e, _, _, hD, hrun⟩ hno
  | none =>
      obtain ⟨hno, hun⟩ := hsees.2 hf
      constructor
      · intro hroom
        exact absurd hroom hno
      · intro _
        rw [hf] at hmalloc
        cases hna : (entries (searched T)).find? (fun e => h.mem (e + 8) = 0#64) with
        | some e =>
            have he := unallocated_of_searched (find_unallocated hna)
            rw [hna] at hmalloc
            dsimp only [newEntry] at hmalloc
            obtain ⟨h', hok⟩ := takePage_cons hps (BitVec.ofNat 64 (units n)) e
            obtain ⟨q, hq, ht⟩ := takePage_ok hl he hok
            refine ⟨h', e, q, ?_, Or.inl ⟨he, ht.pages, ht.layout hl he⟩⟩
            rw [hmalloc, hok, hq]
        | none =>
            have hfull : ∀ e, ¬ h.Unallocated T e := by
              intro e he
              obtain ⟨e', he'⟩ := hun ⟨e, he⟩
              exact not_unallocated hna he'
            obtain ⟨hl₁, he⟩ := hl.withTable hps hmcp hnone
            rw [hna, newEntry_none hps] at hmalloc
            dsimp only at hmalloc
            obtain ⟨h', hok⟩ := takePage_cons
              (show (h.withTable mcp p₁ (p₂ :: ps)).pages = p₂ :: ps from rfl)
              (BitVec.ofNat 64 (units n)) p₁
            obtain ⟨q, hq, ht⟩ := takePage_ok hl₁ he hok
            refine ⟨h', p₁, q, ?_, Or.inr ⟨p₁, hfull, ?_, ht.layout hl₁ he⟩⟩
            · rw [hmalloc, hok, hq]
            · rw [hps, ← ht.pages]
              rfl

/-- Two units with the same pointer are the same. -/
theorem unit_unique (hl : Layout h T D) {e' P' st' : Nat} (hD : (e, P) ∈ D) (hD' : (e', P') ∈ D)
    (hst : st < 64) (hst' : st' < 64) (heq : P + 64 * st = P' + 64 * st') :
    e = e' ∧ st = st' := by
  have hP := (hl.page_aligned hD).1
  have hP' := (hl.page_aligned hD').1
  have hPP : P = P' := by omega
  subst hPP
  exact ⟨hl.entry_unique hD hD', by omega⟩

/-- A run that the search finds is taken without a page of `KPALLOC`. -/
theorem found_pages (hl : Layout h T D) (h1 : 1 ≤ n) (hn : n ≤ 3968)
    (hf : (entries (searched T)).find? (fun e => h.Fits (units n) e) = some e)
    (hok : h.malloc (BitVec.ofNat 64 n) = .ok (p, h')) : h'.pages = h.pages := by
  obtain ⟨mcp, -, -, hmalloc⟩ := malloc_eq hl h1 hn
  obtain ⟨-, j, hj, hend, hfit, -⟩ := found_entry hl hf
  rw [hf] at hmalloc
  dsimp only at hmalloc
  rw [hmalloc, hend] at hok
  obtain ⟨-, -, rfl⟩ := takeRun_ok hfit hj rfl hok
  rfl

/-- The run that the search finds is one of the page. -/
theorem found_run (hl : Layout h T D) (h1 : 1 ≤ n) (hn : n ≤ 3968) (hfinds : FindsSpace h T D n)
    (hf : (entries (searched T)).find? (fun e => h.Fits (units n) e) = some e) :
    FreeRun (h.mem e) (units n) (seemingStart (h.mem e) (units n)) ∧
      (h.mem (e + 8)).toNat + 4096 < 2 ^ 64 := by
  have htwo := two_le_units h1
  have hroom : HasRoom h D n := by
    by_contra hroom
    obtain ⟨h', e', q, hok, hatt⟩ := hfinds.2 hroom
    have hsame := congrArg List.length (found_pages hl h1 hn hf hok)
    rcases hatt with ⟨-, hpg, -⟩ | ⟨t, -, hpg, -⟩ <;> rw [hpg] at hsame <;>
      simp only [List.length_cons] at hsame <;> omega
  obtain ⟨mcp, -, -, hmalloc⟩ := malloc_eq hl h1 hn
  obtain ⟨hD, j, hj, hend, hfit, hstart⟩ := found_entry hl hf
  obtain ⟨h', e', P', st', hD', hrun, hok, -⟩ := hfinds.1 hroom
  rw [hf] at hmalloc
  dsimp only at hmalloc
  rw [hmalloc, hend] at hok
  obtain ⟨-, hp, -⟩ := takeRun_ok hfit hj rfl hok
  have hlast := takeRun_last (hl.page_aligned hD) rfl htwo hfit hj hok
  have hfit' := hrun.1
  obtain ⟨rfl, hst⟩ := unit_unique hl hD' hD (by omega) (by omega) (Nat.add_right_cancel hp)
  rw [hstart]
  exact ⟨hst ▸ hrun, hlast⟩

/-- Without a run, a page is attached to the entry that is unallocated. -/
theorem unallocated_pages (hl : Layout h T D) (h1 : 1 ≤ n) (hn : n ≤ 3968)
    (hf : (entries (searched T)).find? (fun e => h.Fits (units n) e) = none)
    (hna : (entries (searched T)).find? (fun e => h.mem (e + 8) = 0#64) = some e)
    (hok : h.malloc (BitVec.ofNat 64 n) = .ok (p, h')) :
    h.pages.length = h'.pages.length + 1 := by
  obtain ⟨mcp, -, -, hmalloc⟩ := malloc_eq hl h1 hn
  rw [hf] at hmalloc
  dsimp only at hmalloc
  rw [hmalloc, hna] at hok
  obtain ⟨q, -, ht⟩ := takePage_ok hl (unallocated_of_searched (find_unallocated hna)) hok
  rw [ht.pages, List.length_cons]

/-- Without one a table is added first. -/
theorem full_pages (hl : Layout h T D) (h1 : 1 ≤ n) (hn : n ≤ 3968)
    (hf : (entries (searched T)).find? (fun e => h.Fits (units n) e) = none)
    (hna : (entries (searched T)).find? (fun e => h.mem (e + 8) = 0#64) = none)
    (hok : h.malloc (BitVec.ofNat 64 n) = .ok (p, h')) :
    h.pages.length = h'.pages.length + 2 := by
  obtain ⟨mcp, hmcp, hnone, hmalloc⟩ := malloc_eq hl h1 hn
  rw [hf] at hmalloc
  dsimp only at hmalloc
  rw [hmalloc, hna] at hok
  cases hnew : h.newEntry mcp none with
  | error x =>
      rw [hnew] at hok
      cases hok
  | ok r =>
      obtain ⟨e, h₁⟩ := r
      rw [hnew] at hok
      obtain ⟨ps, hpg, rfl⟩ := newEntry_none_ok hnew
      obtain ⟨hl₁, he⟩ := hl.withTable hpg hmcp hnone
      obtain ⟨q, -, ht⟩ := takePage_ok hl₁ he hok
      have hlen := congrArg List.length ht.pages
      rw [hpg, List.length_cons]
      simpa [Heap.withTable] using hlen

theorem sees_of_findsSpace (hl : Layout h T D) (h1 : 1 ≤ n) (hn : n ≤ 3968)
    (hfinds : FindsSpace h T D n) : SearchSees h T D n := by
  refine ⟨fun e hf => found_run hl h1 hn hfinds hf, fun hf => ?_⟩
  -- a call that keeps the pages would have found a run
  have hroom : ¬ HasRoom h D n := by
    intro hroom
    obtain ⟨h', e', P', st', -, -, hok, hpg⟩ := hfinds.1 hroom
    have hsame := congrArg List.length hpg
    cases hna : (entries (searched T)).find? (fun e => h.mem (e + 8) = 0#64) with
    | some e =>
        have hlen := unallocated_pages hl h1 hn hf hna hok
        omega
    | none =>
        have hlen := full_pages hl h1 hn hf hna hok
        omega
  refine ⟨hroom, fun hex => ?_⟩
  obtain ⟨e, he⟩ := hex
  cases hna : (entries (searched T)).find? (fun e => h.mem (e + 8) = 0#64) with
  | some e' => exact ⟨e', find_unallocated hna⟩
  | none =>
      obtain ⟨h', e', q, hok, hatt⟩ := hfinds.2 hroom
      have hlen := full_pages hl h1 hn hf hna hok
      rcases hatt with ⟨-, hpg, -⟩ | ⟨t, hfull, -, -⟩
      · rw [hpg, List.length_cons] at hlen
        omega
      · exact absurd he (hfull e)

theorem findsSpace_iff (hl : Layout h T D) (h1 : 1 ≤ n) (hn : n ≤ 3968)
    (hpages : 2 ≤ h.pages.length) : FindsSpace h T D n ↔ SearchSees h T D n :=
  ⟨sees_of_findsSpace hl h1 hn, findsSpace_of_sees hl h1 hn hpages⟩

/-- The words before a block lead back to the entry of its page, or it has been freed. -/
structure LeadsBack (h : Heap) (D : List (Nat × Nat)) (p e P st : Nat) : Prop where
  attached : (e, P) ∈ D
  ptr : p = P + 64 * st + 64
  unit : st < 64
  slot : h.mem (p - 24) = 0#64 ∨ h.mem (p - 8) = BitVec.ofNat 64 (e + 8)

/-- What calls of `malloc` and `free` keep for requests of every size: the tables, and headers
that are good enough for `free` not to write outside the bitmap and the header. -/
structure Listed (s : HeapState) (T : List Nat) (D : List (Nat × Nat)) : Prop
    extends Layout s.toHeap T D where
  back : ∀ B ∈ s.live, ∃ e P st, LeadsBack s.toHeap D B.ptr e P st

theorem LeadsBack.congr {D' : List (Nat × Nat)} (hb : LeadsBack h D p e P st)
    (hD : (e, P) ∈ D') (hmem : ∀ a, p ≤ a + 64 → a < p → h'.mem a = h.mem a) :
    LeadsBack h' D' p e P st where
  attached := hD
  ptr := hb.ptr
  unit := hb.unit
  slot := by
    have hptr := hb.ptr
    rw [hmem (p - 24) (by omega) (by omega), hmem (p - 8) (by omega) (by omega)]
    exact hb.slot

/-- A new header leaves the blocks of other units alone and leads back for its own. -/
theorem LeadsBack.flipped {m x y z : BitVec 64} {e' P' st' p' : Nat} (hl : Layout h T D)
    (hb : LeadsBack h D p e P st) (hD : (e', P') ∈ D) (hp : p' = P' + 64 * st' + 64)
    (hst : st' < 64) (hx : z = 0#64 ∨ x = BitVec.ofNat 64 (e' + 8)) :
    LeadsBack (h.flipped e' m p' x y z) D p e P st := by
  have hptr := hb.ptr
  have hunit := hb.unit
  by_cases hpp : p = p'
  · obtain ⟨rfl, rfl⟩ := unit_unique hl hb.attached hD hb.unit hst (by omega)
    have hslot : (h.flipped e m p x y z).mem (p - 8) = x := header_slot (by omega)
    have hsize : (h.flipped e m p x y z).mem (p - 24) = z := header_size
    subst hpp
    refine ⟨hb.attached, hptr, hunit, ?_⟩
    rw [hslot, hsize]
    exact hx
  · apply hb.congr hb.attached
    intro a hlo hhi
    have hP := (hl.page_aligned hb.attached).1
    have hP' := (hl.page_aligned hD).1
    have hne : a ≠ e' := (hl.entry_sep hD hb.attached ⟨by omega, by omega⟩).symm
    rw [Heap.flipped, header_outside (by omega) (by omega), poke_other hne]

theorem takeRun_listed (hg : Listed s T D) (hD : (e, P) ∈ D) (hn : 1 ≤ n)
    (hfit : units n ≤ j + 1) (hj : j < 64)
    (hok : s.toHeap.takeRun (BitVec.ofNat 64 (units n)) e j = .ok (p, h')) :
    Listed ⟨h', ⟨p, n⟩ :: s.live⟩ T D := by
  have htwo := two_le_units hn
  have hl := takeRun_layout hg.toLayout hD hn hfit hj hok
  obtain ⟨-, hp, rfl⟩ := takeRun_ok hfit hj (hg.entry_page hD).2 hok
  refine ⟨hl, List.forall_mem_cons.mpr ⟨?_, fun B hB => ?_⟩⟩
  · have hslot : ∀ {x y z}, ((s.toHeap.poke e (s.mem e ^^^ x)).header p y x z).mem (p - 8) = y :=
      header_slot (by omega)
    exact ⟨e, P, j + 1 - units n, hD, hp, by omega, Or.inr (header_slot (by omega))⟩
  · obtain ⟨e', P', st, hb⟩ := hg.back B hB
    exact ⟨e', P', st, hb.flipped hg.toLayout hD hp (by omega) (Or.inr rfl)⟩

theorem newEntry_listed (hg : Listed s T D) (hmcp : mcp ∈ T) (hnone : s.nextTable mcp = none)
    (hNA : ∀ e, NA = some e → s.Unallocated T e)
    (hok : s.toHeap.newEntry mcp NA = .ok (e, h')) :
    ∃ T', Listed ⟨h', s.live⟩ T' D ∧ h'.Unallocated T' e := by
  cases NA with
  | some e' =>
      obtain ⟨rfl, rfl⟩ := Prod.mk.inj (Except.ok.inj hok)
      exact ⟨T, hg, hNA e' rfl⟩
  | none =>
      obtain ⟨ps, hpages, rfl⟩ := newEntry_none_ok hok
      obtain ⟨hl, hun⟩ := hg.toLayout.withTable hpages hmcp hnone
      refine ⟨T ++ [e], ⟨hl, fun B hB => ?_⟩, hun⟩
      obtain ⟨e', P', st, hb⟩ := hg.back B hB
      refine ⟨e', P', st, hb.congr hb.attached fun a hlo hhi => ?_⟩
      have hptr := hb.ptr
      have hunit := hb.unit
      have hin : InPage P' a := ⟨by omega, by omega⟩
      obtain ⟨hq, -, hqD⟩ := hg.fresh hpages
      apply withTable_mem
      · intro heq
        exact hg.table_page_sep hmcp hb.attached (a := a) ⟨by omega, by omega⟩ hin rfl
      · intro hin'
        exact InPage.ne hin' hin hq (hg.page_aligned hb.attached)
          (fun heq => hqD (heq ▸ Layout.mem_pages hb.attached)) rfl

theorem takePage_listed (hg : Listed s T D) (he : s.Unallocated T e)
    (hok : s.toHeap.takePage (BitVec.ofNat 64 (units n)) e = .ok (p, h')) :
    ∃ D', Listed ⟨h', ⟨p, n⟩ :: s.live⟩ T D' := by
  obtain ⟨q, rfl, ht⟩ := takePage_ok hg.toLayout he hok
  refine ⟨(e, q) :: D, ht.layout hg.toLayout he, List.forall_mem_cons.mpr ⟨?_, fun B hB => ?_⟩⟩
  · exact ⟨e, q, 0, List.mem_cons_self, rfl, by omega, Or.inr ht.slot⟩
  · obtain ⟨e', P', st, hb⟩ := hg.back B hB
    refine ⟨e', P', st, hb.congr (List.mem_cons_of_mem _ hb.attached) fun a hlo hhi => ?_⟩
    have hptr := hb.ptr
    have hunit := hb.unit
    have hin : InPage P' a := ⟨by omega, by omega⟩
    obtain ⟨hq, -, hqD⟩ := hg.fresh ht.pages
    obtain ⟨t, htT, i, hi, rfl, -⟩ := he
    apply ht.rest a
    · exact (hg.table_page_sep htT hb.attached ⟨by omega, by omega⟩ hin).symm
    · exact (hg.table_page_sep htT hb.attached ⟨by omega, by omega⟩ hin).symm
    · intro hin'
      exact InPage.ne hin' hin hq (hg.page_aligned hb.attached)
        (fun heq => hqD (heq ▸ Layout.mem_pages hb.attached)) rfl

/-- `free` of a block that leads back flips bits of its own page and clears its own header. -/
theorem free_listed (hg : Listed s T D) (hB : B ∈ s.live)
    (hok : s.toHeap.free B.ptr = .ok h') {l : List Block} (hsub : l ⊆ s.live) :
    Listed ⟨h', l⟩ T D := by
  obtain ⟨e, P, st, hb⟩ := hg.back B hB
  obtain ⟨t, ht, i, hi', he⟩ := hg.entry hb.attached
  obtain ⟨-, htpos, htlt⟩ := hg.table_aligned ht
  have hptr := hb.ptr
  rw [Heap.free] at hok
  split at hok
  · cases hok
  · dsimp only at hok
    split at hok
    · cases hok
    · split at hok
      · cases hok
      · rename_i hsize
        split at hok
        · have hslot := hb.slot.resolve_left hsize
          have hword : (s.mem (B.ptr - 8) - 8#64).toNat = e := by
            rw [hslot, BitVec.ofNat_add, BitVec.add_sub_cancel, toNat_ofNat_of_lt (by omega)]
          rw [hword] at hok
          obtain rfl := (Except.ok.inj hok).symm
          refine ⟨hg.toLayout.flipped hb.attached hptr hb.unit, fun C hC => ?_⟩
          obtain ⟨e', P', st', hc⟩ := hg.back C (hsub hC)
          exact ⟨e', P', st',
            hc.flipped hg.toLayout hb.attached hptr hb.unit (Or.inl rfl)⟩
        · cases hok

/-- The calls the heap itself makes of a run: no caller writes to its block. -/
def HeapOp.NoStore : HeapOp → Prop
  | .malloc _ => True
  | .free _ => True
  | .store _ _ _ => False

def HeapListed (s : HeapState) : Prop := ∃ T D, Listed s T D

theorem heapStep_listed {op : HeapOp} (hg : HeapListed s) (hop : op.NoStore)
    (hstep : op.step s s') : HeapListed s' := by
  obtain ⟨T, D, hg⟩ := hg
  obtain ⟨hen, hex⟩ := hstep
  cases op with
  | malloc n =>
      rw [HeapOp.exec] at hex
      split at hex
      · cases hex
      · rename_i p h' hok
        rw [← Except.ok.inj hex]
        rcases malloc_found hg.toLayout hen.1 hen.2 hok with
          ⟨e, P, j, hD, hfit, hj, hrun⟩ | ⟨mcp, NA, h₁, e, hmcp, hnone, hNA, hnew, hpage⟩
        · exact ⟨T, D, takeRun_listed hg hD hen.1 hfit hj hrun⟩
        · obtain ⟨T', hg', hun⟩ := newEntry_listed hg hmcp hnone hNA hnew
          obtain ⟨D', hg''⟩ := takePage_listed hg' hun hpage
          exact ⟨T', D', hg''⟩
  | free p =>
      obtain ⟨B, hB, rfl⟩ := hen
      rw [HeapOp.exec] at hex
      split at hex
      · cases hex
      · rename_i h' hok
        rw [← Except.ok.inj hex]
        exact ⟨T, D, free_listed hg hB hok List.eraseP_subset⟩
  | store p i v => exact absurd hop id

theorem HeapState.Start.listed (h0 : s.Start) : HeapListed s := by
  obtain ⟨T, D, hi⟩ := h0.good
  refine ⟨T, D, hi.toLayout, fun B hB => ?_⟩
  rw [h0.live] at hB
  cases hB

theorem HeapState.Start.listed_run (h0 : s₀.Start) (hrun : Run HeapOp.step s₀ ops s)
    (hops : ∀ op ∈ ops, op.NoStore) : HeapListed s := by
  have hguarded := run_guarded_iff.mpr ⟨hrun, hops⟩
  exact run_invariant (fun _ _ _ hg hop hstep => heapStep_listed hg hop hstep) hguarded h0.listed

/-- In a heap reached by `malloc` and `free`, with two pages left for it, a request finds the space
there is and attaches a page otherwise exactly when the search sees that space. -/
theorem malloc_finds_space_iff (h0 : s₀.Start) (hrun : Run HeapOp.step s₀ ops s)
    (hops : ∀ op ∈ ops, op.NoStore) (h1 : 1 ≤ n) (hn : n ≤ 3968) (hpages : 2 ≤ s.pages.length) :
    ∃ T D, Layout s.toHeap T D ∧ (FindsSpace s.toHeap T D n ↔ SearchSees s.toHeap T D n) := by
  obtain ⟨T, D, hg⟩ := h0.listed_run hrun hops
  exact ⟨T, D, hg.toLayout, findsSpace_iff hg.toLayout h1 hn hpages⟩

/-- The heap right after `initMalloc` on four free pages. -/
def bootHeap4 : HeapState := { bootHeap with pages := [0x2000, 0x3000, 0x4000] }

theorem bootHeap4_start : bootHeap4.Start where
  init := by
    refine ⟨{ mem := fun _ => 0, ml1 := 0, pages := [0x1000, 0x2000, 0x3000, 0x4000] },
      by decide, ?_, ?_⟩
    · simp only [List.forall_mem_cons, PageAddr]
      decide
    · have hfill : ({ mem := fun _ => 0, ml1 := 0, pages := [0x2000, 0x3000, 0x4000] } :
          Heap).memfill 0x1000 =
            { mem := fun _ => 0, ml1 := 0, pages := [0x2000, 0x3000, 0x4000] } := by
        simp only [memfill, ite_self]
      simp only [initMalloc, kpalloc, hfill, bootHeap4, bootHeap, Heap.poke]
  live := rfl

/-- A block of 31 units leaves units 31 to 63 of its page free, and a request for 2 units attaches
another page. -/
theorem malloc_misses_upper_units : ∃ s T D, bootHeap4.Start ∧
    Run HeapOp.step bootHeap4 [.malloc 1920] s ∧ 2 ≤ s.pages.length ∧ Layout s.toHeap T D ∧
      ¬ FindsSpace s.toHeap T D 64 := by
  have hall : ((follow HeapOp.Enabled HeapOp.exec bootHeap4 [.malloc 1920]).map fun s =>
      (s.ml1, s.mem 0x1008, s.mem 0x1000, s.pages,
        (s.malloc (BitVec.ofNat 64 64)).toOption.map fun r => r.2.pages)) =
          some (0x1000, 0x2000#64, 0xFFFFFFFF80000000#64, [0x3000, 0x4000], some [0x4000]) := by
    decide +kernel
  obtain ⟨s, hs, hobs⟩ := Option.map_eq_some_iff.mp hall
  simp only [Prod.mk.injEq] at hobs
  obtain ⟨hml1, hslot, hword, hpages, hmalloc⟩ := hobs
  have hrun : Run HeapOp.step bootHeap4 [.malloc 1920] s :=
    run_of_follow (fun _ _ _ h h' => ⟨h, h'⟩) hs
  obtain ⟨T, D, hg⟩ := bootHeap4_start.listed_run hrun (by simp [HeapOp.NoStore])
  refine ⟨s, T, D, bootHeap4_start, hrun, by simp [hpages], hg.toLayout, fun hfinds => ?_⟩
  have hatt : (0x1000, 0x2000) ∈ D := by
    refine (hg.attached _ _).mpr ⟨0x1000, 0, Reach.first (by rw [hml1]), by omega, rfl, ?_, ?_⟩
    · rw [hslot]
      decide
    · rw [hslot]
      decide
  have hfree : FreeRun (s.mem 0x1000) (units 64) 31 := by
    rw [hword]
    decide
  obtain ⟨h', e, P, st, -, -, hok, hsame⟩ := hfinds.1 ⟨0x1000, 0x2000, 31, hatt, hfree⟩
  rw [hok] at hmalloc
  simp [Except.toOption, hsame, hpages] at hmalloc

theorem malloc_finds_space_small : ∃ s T D, Run HeapOp.step bootHeap4 [.malloc 64] s ∧
    Layout s.toHeap T D ∧ (FindsSpace s.toHeap T D 64 ↔ SearchSees s.toHeap T D 64) := by
  have hall : ((follow HeapOp.Enabled HeapOp.exec bootHeap4 [.malloc 64]).map fun s => s.pages) =
      some [0x3000, 0x4000] := by
    decide +kernel
  obtain ⟨s, hs, hpages⟩ := Option.map_eq_some_iff.mp hall
  have hrun : Run HeapOp.step bootHeap4 [.malloc 64] s :=
    run_of_follow (fun _ _ _ h h' => ⟨h, h'⟩) hs
  obtain ⟨T, D, hl, hiff⟩ := malloc_finds_space_iff bootHeap4_start hrun
    (by simp [HeapOp.NoStore]) (by omega : 1 ≤ 64) (by omega) (by simp [hpages])
  exact ⟨s, T, D, hrun, hl, hiff⟩

end UnnamedOS.Memory
