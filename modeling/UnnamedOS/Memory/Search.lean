import UnnamedOS.Memory.HeapSafety

/-!
# Looking for room

The bits are tested with `1<<j` on an `int`. It is bit `j` below 31, the sign at 31, which reaches
all the higher bits, and from 32 on it starts again with bit 0.
-/

namespace UnnamedOS.Memory

open UnnamedOS.Lib Heap

variable {h h' : Heap} {T : List Nat} {D : List (Nat × Nat)} {B : BitVec 64}
  {e P s st j k n p mcp : Nat} {NA : Option Nat}

/-- What the test of bit `j` looks at. -/
def SeemsFree (B : BitVec 64) (j : Nat) : Prop :=
  ∃ b < 64, (if j % 32 = 31 then 31 ≤ b else b = j % 32) ∧ B.getLsbD b = true

instance (B : BitVec 64) (j : Nat) : Decidable (SeemsFree B j) :=
  inferInstanceAs (Decidable (∃ b < 64, (if j % 32 = 31 then 31 ≤ b else b = j % 32) ∧
    B.getLsbD b = true))

/-- `s` tests in a row that end with bit `j`. -/
def SeemsRun (B : BitVec 64) (s j : Nat) : Prop :=
  s ≤ j + 1 ∧ ∀ b < j + 1, j + 1 - s ≤ b → SeemsFree B b

instance (B : BitVec 64) (s j : Nat) : Decidable (SeemsRun B s j) :=
  inferInstanceAs (Decidable (s ≤ j + 1 ∧ ∀ b < j + 1, j + 1 - s ≤ b → SeemsFree B b))

def firstRun (B : BitVec 64) (s : Nat) : Option Nat :=
  (List.range 64).find? fun j => SeemsRun B s j

theorem bit_test (B : BitVec 64) (j : Nat) :
    B &&& (intShift j).signExtend 64 = 0#64 ↔ ¬ SeemsFree B j := by
  rw [and_eq_zero_iff]
  have hbit : ∀ b < 64, ((intShift j).signExtend 64).getLsbD b = true ↔
      if j % 32 = 31 then 31 ≤ b else b = j % 32 := by
    intro b hb
    rw [intShift, getLsbD_one_signExtend (Nat.mod_lt j (by decide)) hb, decide_eq_true_iff]
  constructor
  · rintro h ⟨b, hb, htest, hset⟩
    rw [h b hb ((hbit b hb).mpr htest)] at hset
    cases hset
  · intro h b hb htest
    rw [Bool.eq_false_iff]
    exact fun hset => h ⟨b, hb, (hbit b hb).mp htest, hset⟩

/-- What the loop knows when it comes to bit `j` with `m` matches. -/
structure Matching (B : BitVec 64) (s j m : Nat) : Prop where
  few : m < s
  le : m ≤ j
  matched : ∀ b < j, j - m ≤ b → SeemsFree B b
  before : m < j → ¬ SeemsFree B (j - m - 1)
  noRun : ∀ i < j, ¬ SeemsRun B s i

theorem Matching.miss (hm : Matching B s j k) (hj : ¬ SeemsFree B j) : Matching B s (j + 1) 0 where
  few := Nat.lt_of_le_of_lt (Nat.zero_le k) hm.few
  le := Nat.zero_le _
  matched := fun b hb hb' => by omega
  before := fun _ => hj
  noRun := by
    intro i hi hrun
    by_cases heq : i = j
    · subst heq
      have hfew := hm.few
      exact hj (hrun.2 i (by omega) (by omega))
    · exact hm.noRun i (by omega) hrun

theorem Matching.found (hm : Matching B s j k) (hj : SeemsFree B j) (hk : k + 1 = s) :
    SeemsRun B s j := by
  have hle := hm.le
  refine ⟨by omega, fun b hb hb' => ?_⟩
  by_cases heq : b = j
  · rw [heq]
    exact hj
  · exact hm.matched b (by omega) (by omega)

theorem Matching.next (hm : Matching B s j k) (hj : SeemsFree B j) (hk : k + 1 ≠ s) :
    Matching B s (j + 1) (k + 1) where
  few := by
    have hfew := hm.few
    omega
  le := by
    have hle := hm.le
    omega
  matched := by
    intro b hb hb'
    by_cases heq : b = j
    · rw [heq]
      exact hj
    · exact hm.matched b (by omega) (by omega)
  before := by
    intro hlt
    have hsub : j + 1 - (k + 1) - 1 = j - k - 1 := by omega
    rw [hsub]
    exact hm.before (by omega)
  noRun := by
    intro i hi hrun
    by_cases heq : i = j
    · -- a run of `s` would reach back to the test that failed
      subst heq
      have hfew := hm.few
      have hfit := hrun.1
      exact hm.before (by omega) (hrun.2 (i - k - 1) (by omega) (by omega))
    · exact hm.noRun i (by omega) hrun

/-- The loop stops at the end of the first run. -/
theorem matchBits_spec (hs : s < 64) (todo : Nat) {m : Nat} (hm : Matching B s j m) :
    (∀ i, matchBits B (BitVec.ofNat 64 s) todo j (BitVec.ofNat 8 m) = some i →
      i < j + todo ∧ SeemsRun B s i ∧ ∀ i' < i, ¬ SeemsRun B s i') ∧
    (matchBits B (BitVec.ofNat 64 s) todo j (BitVec.ofNat 8 m) = none →
      ∀ i < j + todo, ¬ SeemsRun B s i) := by
  induction todo generalizing j m with
  | zero =>
      constructor
      · intro i hi
        cases hi
      · intro _ i hi
        exact hm.noRun i hi
  | succ todo ih =>
      have hfew := hm.few
      have hcount : BitVec.ofNat 8 m + 1#8 = BitVec.ofNat 8 (m + 1) := by
        rw [BitVec.ofNat_add]
      have hsize : (BitVec.ofNat 8 (m + 1)).setWidth 64 = BitVec.ofNat 64 s ↔ m + 1 = s := by
        rw [← BitVec.toNat_inj, BitVec.toNat_setWidth, BitVec.toNat_ofNat, BitVec.toNat_ofNat]
        omega
      have hend : j + (todo + 1) = j + 1 + todo := by omega
      rw [matchBits, hcount, hend]
      by_cases hj : SeemsFree B j
      · rw [if_neg (fun h0 => (bit_test B j).mp h0 hj)]
        by_cases hk : m + 1 = s
        · rw [if_pos (hsize.mpr hk)]
          constructor
          · intro i hi
            obtain rfl := Option.some.inj hi
            exact ⟨by omega, hm.found hj hk, hm.noRun⟩
          · intro h0
            cases h0
        · rw [if_neg (fun h0 => hk (hsize.mp h0))]
          exact ih (hm.next hj hk)
      · rw [if_pos ((bit_test B j).mpr hj)]
        exact ih (hm.miss hj)

theorem matchBits_eq (h1 : 1 ≤ s) (hs : s < 64) :
    matchBits B (BitVec.ofNat 64 s) 64 0 0#8 = firstRun B s := by
  have hstart : Matching B s 0 0 :=
    ⟨h1, Nat.le_refl 0, fun b hb => absurd hb (Nat.not_lt_zero b),
      fun h0 => absurd h0 (Nat.lt_irrefl 0), fun i hi => absurd hi (Nat.not_lt_zero i)⟩
  obtain ⟨hsome, hnone⟩ := matchBits_spec hs 64 hstart
  cases hm : matchBits B (BitVec.ofNat 64 s) 64 0 0#8 with
  | none =>
      symm
      rw [firstRun, List.find?_eq_none]
      intro j hj
      have hrun := hnone hm j (by have := List.mem_range.mp hj; omega)
      simpa using hrun
  | some i =>
      obtain ⟨hi, hrun, hfirst⟩ := hsome i hm
      symm
      rw [firstRun, List.find?_range_eq_some]
      refine ⟨by simpa using hrun, List.mem_range.mpr (by omega), fun i' hi' => ?_⟩
      simpa using hfirst i' hi'

theorem firstRun_some (hj : firstRun B s = some j) : j < 64 ∧ SeemsRun B s j := by
  rw [firstRun, List.find?_range_eq_some] at hj
  exact ⟨List.mem_range.mp hj.2.1, by simpa using hj.1⟩

/-- The numeric test before the loop lets every bitmap through that has a run. -/
theorem pretest_of_run (h1 : 1 ≤ s) (hs : s < 64) (hrun : SeemsRun B s j) :
    ¬ B < sizebitmask (BitVec.ofNat 64 s) := by
  intro hlt
  have hsize : (BitVec.ofNat 64 s).toNat = s := by
    rw [BitVec.toNat_ofNat]
    omega
  have hmask : sizebitmask (BitVec.ofNat 64 s) = BitVec.ofNat 64 (2 ^ (s % 32) - 1) := by
    apply BitVec.eq_of_getLsbD_eq
    intro b hb
    rw [getLsbD_sizebitmask, hsize, ← BitVec.testBit_toNat, BitVec.toNat_ofNat,
      Nat.testBit_mod_two_pow, Nat.testBit_two_pow_sub_one]
    simp [hb]
  have hpow : 2 ^ (s % 32) ≤ 2 ^ 31 := Nat.pow_le_pow_right (by omega) (by omega)
  rw [hmask, BitVec.lt_def, BitVec.toNat_ofNat, Nat.mod_eq_of_lt (by omega)] at hlt
  -- Above `s % 32` all bits are clear, and below one of them is.
  have hhigh : ∀ b, s % 32 ≤ b → B.getLsbD b = false := by
    intro b hb
    rw [← BitVec.testBit_toNat]
    apply Nat.testBit_lt_two_pow
    have hle : 2 ^ (s % 32) ≤ 2 ^ b := Nat.pow_le_pow_right (by omega) hb
    omega
  have hlow : ∃ b < s % 32, B.getLsbD b = false := by
    by_contra hall
    push Not at hall
    have heq : B.toNat = 2 ^ (s % 32) - 1 := by
      apply Nat.eq_of_testBit_eq
      intro b
      rw [Nat.testBit_two_pow_sub_one, BitVec.testBit_toNat]
      by_cases hb : b < s % 32
      · simpa [hb] using hall b hb
      · simpa [hb] using hhigh b (by omega)
    omega
  have hclear : ∀ b, s % 32 ≤ b % 32 → ¬ SeemsFree B b := by
    rintro b hb ⟨c, hc, htest, hset⟩
    split at htest
    · rw [hhigh c (by omega)] at hset
      cases hset
    · rw [hhigh c (by omega)] at hset
      cases hset
  obtain ⟨hfit, hall⟩ := hrun
  obtain ⟨b, hb, hoff⟩ := hlow
  by_cases hwrap : (j + 1 - s) % 32 + s ≤ s % 32
  · -- the run is all of the low bits
    have hzero : (j + 1 - s) % 32 = 0 := by omega
    obtain ⟨c, hc, htest, hset⟩ := hall (j + 1 - s + b) (by omega) (by omega)
    have hres : (j + 1 - s + b) % 32 = b := by omega
    rw [hres, if_neg (by omega)] at htest
    rw [htest, hoff] at hset
    cases hset
  · by_cases hstart : s % 32 ≤ (j + 1 - s) % 32
    · exact hclear (j + 1 - s) hstart (hall (j + 1 - s) (by omega) (by omega))
    · have hnext : j + 1 - s + (s % 32 - (j + 1 - s) % 32) < j + 1 := by omega
      exact hclear _ (by omega) (hall _ hnext (by omega))

/-- The entries of the tables in the order of the search. -/
def entries (ts : List Nat) : List Nat :=
  ts.flatMap fun t => (List.range 255).map fun i => t + 16 * i

/-- The tables the search gets to: the last one only where it is the first. -/
def searched (T : List Nat) : List Nat := if T.length = 1 then T else T.dropLast

namespace Heap

/-- The search stops at an attached page with a run of bits that test as set. -/
def Fits (h : Heap) (s e : Nat) : Prop := h.mem (e + 8) ≠ 0#64 ∧ (firstRun (h.mem e) s).isSome

instance (h : Heap) (s e : Nat) : Decidable (h.Fits s e) :=
  inferInstanceAs (Decidable (_ ∧ _))

/-- What a search of the entries `es` comes back with. -/
def search (h : Heap) (s : Nat) (es : List Nat) (mcp : Nat) (NA : Option Nat) : Scan :=
  match es.find? fun e => h.Fits s e with
  | some e => .fits e ((firstRun (h.mem e) s).getD 0)
  | none => .full mcp (NA.or (es.find? fun e => h.mem (e + 8) = 0#64))

theorem search_append (es es' : List Nat) (mcp mcp' : Nat) (NA : Option Nat) :
    h.search s (es ++ es') mcp' NA =
      match h.search s es mcp NA with
      | .fits e j => .fits e j
      | .full _ NA' => h.search s es' mcp' NA' := by
  simp only [search, List.find?_append]
  cases es.find? fun e => h.Fits s e with
  | some e => rfl
  | none => simp only [Option.none_or, Option.or_assoc]

theorem scanTable_eq (h1 : 1 ≤ s) (hs : s < 64) {i : Nat} :
    h.scanTable (BitVec.ofNat 64 s) mcp k i NA =
      h.search s ((List.range' i k).map fun i => mcp + 16 * i) mcp NA := by
  induction k generalizing i NA with
  | zero => simp [scanTable, search]
  | succ k ih =>
      have hsplit : ((List.range' i (k + 1)).map fun i => mcp + 16 * i) =
          [mcp + 16 * i] ++ (List.range' (i + 1) k).map fun i => mcp + 16 * i := by
        rw [List.range'_succ]
        rfl
      rw [scanTable, hsplit, search_append _ _ mcp, matchBits_eq h1 hs, ih, ih]
      by_cases hz : h.mem (mcp + 16 * i + 8) = 0#64
      · simp [search, Fits, hz]
      · cases hrun : firstRun (h.mem (mcp + 16 * i)) s with
        | none => simp [search, Fits, hz, hrun]
        | some j =>
            have hpre := pretest_of_run h1 hs (firstRun_some hrun).2
            simp [search, Fits, hz, hrun, hpre]

theorem search_full {es : List Nat} {m : Nat} {NA' : Option Nat}
    (hs : h.search s es mcp NA = .full m NA') : m = mcp := by
  rw [search] at hs
  split at hs
  · cases hs
  · exact (Scan.full.inj hs).1.symm

/-- The table handed back is all that depends on the table named. -/
theorem search_last (es : List Nat) (mcp mcp' : Nat) (NA : Option Nat) :
    h.search s es mcp' NA = match h.search s es mcp NA with
      | .fits e j => .fits e j
      | .full _ NA' => .full mcp' NA' := by
  rw [search, search]
  cases es.find? fun e => h.Fits s e with
  | some e => rfl
  | none => rfl

theorem scanTables_eq (h1 : 1 ≤ s) (hs : s < 64) {fuel : Nat} {l : List Nat} (NA : Option Nat)
    (hc : Chain h.nextTable (some mcp) l) (hlen : l.length ≤ fuel) :
    ∃ mcp', h.scanTables (BitVec.ofNat 64 s) fuel mcp NA =
        .ok (h.search s (entries (searched l)) mcp' NA) ∧
      mcp' ∈ l ∧ h.nextTable mcp' = none := by
  induction fuel generalizing l mcp NA with
  | zero =>
      obtain ⟨l', rfl, _⟩ := chain_some.mp hc
      simp at hlen
  | succ fuel ih =>
      obtain ⟨l', rfl, hl'⟩ := chain_some.mp hc
      have hone : (List.range' 0 255).map (fun i => mcp + 16 * i) = entries [mcp] := by
        rw [entries, List.flatMap_singleton, List.range_eq_range']
      rw [scanTables, scanTable_eq h1 hs, hone]
      cases hnext : h.nextTable mcp with
      | none =>
          -- the only table
          rw [hnext, chain_none] at hl'
          subst hl'
          refine ⟨mcp, ?_, List.mem_singleton_self mcp, hnext⟩
          change _ = Except.ok (h.search s (entries [mcp]) mcp NA)
          cases hscan : h.search s (entries [mcp]) mcp NA with
          | fits e j => rfl
          | full m NA' =>
              obtain rfl := search_full hscan
              simp only [hnext, Option.getD_none]
      | some t =>
          rw [hnext] at hl'
          obtain ⟨l'', rfl, hl''⟩ := chain_some.mp hl'
          cases hlast : h.nextTable t with
          | none =>
              -- the table before the last
              rw [hlast, chain_none] at hl''
              subst hl''
              refine ⟨t, ?_, by simp, hlast⟩
              change _ = Except.ok (h.search s (entries [mcp]) t NA)
              rw [search_last _ mcp t]
              cases hscan : h.search s (entries [mcp]) mcp NA with
              | fits e j => rfl
              | full m NA' =>
                  obtain rfl := search_full hscan
                  simp only [hnext, hlast, Option.getD_some]
          | some t' =>
              rw [hlast] at hl''
              obtain ⟨rest, rfl, -⟩ := chain_some.mp hl''
              have hsearched : entries (searched (mcp :: t :: t' :: rest)) =
                  entries [mcp] ++ entries (searched (t :: t' :: rest)) := by
                simp [searched, entries]
              rw [hsearched]
              cases hscan : h.search s (entries [mcp]) mcp NA with
              | fits e j =>
                  obtain ⟨m, -, hm, hmnone⟩ := ih NA hl' (by simpa using hlen)
                  refine ⟨m, ?_, List.mem_cons_of_mem _ hm, hmnone⟩
                  rw [h.search_append _ _ mcp, hscan]
              | full m NA' =>
                  obtain rfl := search_full hscan
                  obtain ⟨m', hm', hmem, hmnone⟩ := ih NA' hl' (by simpa using hlen)
                  refine ⟨m', ?_, List.mem_cons_of_mem _ hmem, hmnone⟩
                  rw [h.search_append _ _ m, hscan]
                  simpa only [hnext, hlast, Option.getD_some] using hm'

end Heap

end UnnamedOS.Memory
