import Mathlib.Algebra.Order.Ring.Nat
import UnnamedOS.Loader.Flat

/-!
# What the loader touches

The tests compare a sum that may have wrapped around. Where it has not, every copy is in bounds and
inside of the region of its moment.
-/

namespace UnnamedOS.Loader

open UnnamedOS.Lib

variable {s : Loading} {M : PFH} {b : ProgMem} {c : Copy} {VADD END START filesize : UInt64}
  {fi memory : UInt64 → UInt8} {arguments : List UInt8} {brk : Option ProgMem} {r : Loaded}

namespace Copy

/-- A copy of a segment reads bytes of the file. -/
def Reads (c : Copy) (filesize : UInt64) : Prop :=
  ∀ start, c.offset = some start → ∀ i < c.len, start.toNat + i.toNat < filesize.toNat

/-- A copy of a segment writes to the user half. -/
def Low (c : Copy) : Prop := c.offset ≠ none → ∀ i < c.len, c.dest + i < CBASE

/-- A page fault at any address of the copy is in the region. -/
def Served (c : Copy) : Prop := ∀ i < c.len, c.brk.start ≤ c.dest + i ∧ c.dest + i ≤ c.brk.end'

structure InBounds (c : Copy) (filesize : UInt64) : Prop where
  reads : c.Reads filesize
  low : c.Low
  served : c.Served

end Copy

/-- The end of a segment is an address. -/
def NoWrap (VADD START END : UInt64) : Prop := VADD.toNat + (END.toNat - START.toNat) < 2 ^ 64

namespace PFH

/-- The region as the text leaves it. -/
def textRegion (M : PFH) (brk : Option ProgMem) : ProgMem :=
  (brk.getD ⟨CBASE, 0⟩).grow M.TEXT_VADD (M.TEXT_VADD + M.TEXT_END - M.TEXT_START)

/-- The region as the data leaves it. -/
def dataRegion (M : PFH) (filesize : UInt64) (brk : Option ProgMem) : ProgMem :=
  if M.DATA_EXISTS filesize then
    (M.textRegion brk).grow M.DATA_VADD (M.DATA_VADD + M.DATA_END - M.DATA_START)
  else M.textRegion brk

/-- The region without the arguments. -/
def region (M : PFH) (filesize : UInt64) (brk : Option ProgMem) : ProgMem :=
  if M.BSS_EXISTS then (M.dataRegion filesize brk).grow M.BSS_VADD (M.BSS_VADD + M.BSS_SIZE)
  else M.dataRegion filesize brk

end PFH

/-- No end of what is copied wraps around: not of an accepted segment, and not of arguments that
are put above the region. -/
structure Unwrapped (M : PFH) (filesize : UInt64) (brk : Option ProgMem) (arguments : List UInt8) :
    Prop where
  text : NoWrap M.TEXT_VADD M.TEXT_START M.TEXT_END
  data : M.DATA_EXISTS filesize = true → NoWrap M.DATA_VADD M.DATA_START M.DATA_END
  arguments : (M.region filesize brk).start ≤ argumentsSize arguments →
    (M.region filesize brk).end'.toNat + (argumentsSize arguments).toNat < 2 ^ 64

theorem toNat_MIN (a b : UInt64) : (MIN a b).toNat = min a.toNat b.toNat := by
  rw [MIN]
  split
  · rename_i h
    rw [UInt64.lt_iff_toNat_lt] at h
    omega
  · rename_i h
    rw [UInt64.lt_iff_toNat_lt] at h
    omega

theorem toNat_MAX (a b : UInt64) : (MAX a b).toNat = max a.toNat b.toNat := by
  rw [MAX]
  split
  · rename_i h
    rw [gt_iff_lt, UInt64.lt_iff_toNat_lt] at h
    omega
  · rename_i h
    rw [gt_iff_lt, UInt64.lt_iff_toNat_lt] at h
    omega

theorem CBASE_toNat : CBASE.toNat = 549755813888 := rfl

/-- What the tests on a segment say. -/
structure Segment (VADD END START filesize : UInt64) : Prop where
  order : START.toNat < END.toNat
  low : (VADD + END - START).toNat < CBASE.toNat
  file : END.toNat < filesize.toNat

theorem segExists_iff : segExists VADD END START filesize = true ↔ Segment VADD END START filesize := by
  rw [segExists, decide_eq_true_iff]
  constructor
  · rintro ⟨-, hord, hlow, hfile⟩
    exact ⟨UInt64.lt_iff_toNat_lt.mp hord, UInt64.lt_iff_toNat_lt.mp hlow,
      UInt64.lt_iff_toNat_lt.mp hfile⟩
  · rintro ⟨hord, hlow, hfile⟩
    refine ⟨?_, UInt64.lt_iff_toNat_lt.mpr hord, UInt64.lt_iff_toNat_lt.mpr hlow,
      UInt64.lt_iff_toNat_lt.mpr hfile⟩
    intro hz
    have htoNat := congrArg UInt64.toNat hz
    rw [UInt64.toNat_sub_of_le END START (UInt64.le_iff_toNat_le.mpr (Nat.le_of_lt hord))] at htoNat
    change _ = 0 at htoNat
    omega

namespace Segment

theorem size (h : Segment VADD END START filesize) :
    (END - START).toNat = END.toNat - START.toNat :=
  UInt64.toNat_sub_of_le END START (UInt64.le_iff_toNat_le.mpr (Nat.le_of_lt h.order))

/-- The end of the segment, as it is computed. -/
theorem top (h : Segment VADD END START filesize) :
    (VADD + END - START).toNat = (VADD.toNat + (END.toNat - START.toNat)) % 2 ^ 64 := by
  have hord := h.order
  have hS := START.toNat_lt
  rw [UInt64.toNat_sub, UInt64.toNat_add]
  omega

/-- The copy of an accepted segment is in bounds exactly if its end does not wrap around. -/
theorem inBounds_iff (h : Segment VADD END START filesize) (b : ProgMem) :
    Copy.InBounds ⟨VADD, END - START, some START, b.grow VADD (VADD + END - START)⟩ filesize ↔
      NoWrap VADD START END := by
  have hsize := h.size
  have htop := h.top
  have hlow := h.low
  have hord := h.order
  have hfile := h.file
  rw [CBASE_toNat] at hlow
  constructor
  · rintro ⟨-, hin, -⟩
    by_contra hwrap
    have hwrap' : 2 ^ 64 ≤ VADD.toNat + (END.toNat - START.toNat) := Nat.le_of_not_lt hwrap
    -- the copy passes the end of the user half
    have hbad : ∃ i : UInt64, i.toNat < END.toNat - START.toNat ∧
        ¬ (VADD.toNat + i.toNat) % 2 ^ 64 < 549755813888 := by
      by_cases hhigh : VADD.toNat < 549755813888
      · have hEnd := END.toNat_lt
        refine ⟨.ofNat (549755813888 - VADD.toNat), ?_, ?_⟩
        · rw [UInt64.toNat_ofNat']
          omega
        · rw [UInt64.toNat_ofNat']
          omega
      · have hV := VADD.toNat_lt
        refine ⟨0, ?_, ?_⟩
        · change 0 < _
          omega
        · change ¬ (VADD.toNat + 0) % _ < _
          omega
    obtain ⟨i, hi, hno⟩ := hbad
    have hlt := hin (by simp) i (by rw [UInt64.lt_iff_toNat_lt, hsize]; exact hi)
    rw [UInt64.lt_iff_toNat_lt, UInt64.toNat_add, CBASE_toNat] at hlt
    exact hno hlt
  · intro hno
    have hno' : VADD.toNat + (END.toNat - START.toNat) < 2 ^ 64 := hno
    have hi : ∀ i : UInt64, i < END - START → i.toNat < END.toNat - START.toNat ∧
        (VADD + i).toNat = VADD.toNat + i.toNat := by
      intro i hi
      rw [UInt64.lt_iff_toNat_lt, hsize] at hi
      rw [UInt64.toNat_add]
      omega
    refine ⟨fun start hstart i hlt => ?_, fun _ i hlt => ?_, fun i hlt => ⟨?_, ?_⟩⟩
    · obtain rfl := Option.some.inj hstart
      have h1 := (hi i hlt).1
      omega
    · obtain ⟨h1, h2⟩ := hi i hlt
      rw [UInt64.lt_iff_toNat_lt, h2, CBASE_toNat]
      omega
    · obtain ⟨h1, h2⟩ := hi i hlt
      rw [UInt64.le_iff_toNat_le, h2, ProgMem.grow, toNat_MIN]
      omega
    · obtain ⟨h1, h2⟩ := hi i hlt
      rw [UInt64.le_iff_toNat_le, h2, ProgMem.grow, toNat_MAX]
      omega

end Segment

namespace ProgMem

/-- The addresses from `lo` to `hi` are in the region. -/
def Holds (b : ProgMem) (lo hi : Nat) : Prop := b.start.toNat ≤ lo ∧ hi ≤ b.end'.toNat

/-- The region `b` is a part of `b'`. -/
def Within (b b' : ProgMem) : Prop := b'.Holds b.start.toNat b.end'.toNat

theorem Within.refl (b : ProgMem) : b.Within b := ⟨Nat.le_refl _, Nat.le_refl _⟩

theorem Within.trans {b₁ b₂ b₃ : ProgMem} (h : b₁.Within b₂) (h' : b₂.Within b₃) : b₁.Within b₃ :=
  ⟨Nat.le_trans h'.1 h.1, Nat.le_trans h.2 h'.2⟩

theorem Within.holds {b b' : ProgMem} {lo hi : Nat} (h : b.Within b') (hb : b.Holds lo hi) :
    b'.Holds lo hi :=
  ⟨Nat.le_trans h.1 hb.1, Nat.le_trans hb.2 h.2⟩

theorem within_grow (b : ProgMem) (VADD top : UInt64) : b.Within (b.grow VADD top) := by
  rw [Within, Holds, grow, toNat_MIN, toNat_MAX]
  omega

theorem grow_holds (b : ProgMem) (VADD top : UInt64) :
    (b.grow VADD top).Holds VADD.toNat top.toNat := by
  rw [Holds, grow, toNat_MIN, toNat_MAX]
  omega

end ProgMem

namespace PFH

theorem text_within_data (M : PFH) (filesize : UInt64) (brk : Option ProgMem) :
    (M.textRegion brk).Within (M.dataRegion filesize brk) := by
  rw [dataRegion]
  split
  · exact ProgMem.within_grow _ _ _
  · exact ProgMem.Within.refl _

theorem data_within_region (M : PFH) (filesize : UInt64) (brk : Option ProgMem) :
    (M.dataRegion filesize brk).Within (M.region filesize brk) := by
  rw [region]
  split
  · exact ProgMem.within_grow _ _ _
  · exact ProgMem.Within.refl _

/-- The text stays in the region. -/
theorem region_holds_text (M : PFH) (filesize : UInt64) (brk : Option ProgMem) :
    (M.region filesize brk).Holds M.TEXT_VADD.toNat
      (M.TEXT_VADD + M.TEXT_END - M.TEXT_START).toNat := by
  have htext := (M.text_within_data filesize brk).trans (M.data_within_region filesize brk)
  exact htext.holds (ProgMem.grow_holds _ _ _)

end PFH

theorem loadSegments_brk (M : PFH) (filesize : UInt64) (fi : UInt64 → UInt8)
    (brk : Option ProgMem) (memory : UInt64 → UInt8) :
    (loadSegments M filesize fi ⟨brk.getD ⟨CBASE, 0⟩, memory, []⟩).brk = M.region filesize brk := by
  unfold loadSegments PFH.region PFH.dataRegion
  by_cases hdata : M.DATA_EXISTS filesize
  · by_cases hbss : M.BSS_EXISTS
    · simp only [hdata, hbss, if_true]
      rfl
    · simp only [hdata, hbss, if_true]
      rfl
  · by_cases hbss : M.BSS_EXISTS
    · simp only [hdata, hbss, if_true]
      rfl
    · simp only [hdata, hbss]
      rfl

/-- The copies of the segments are the one of the text and, if it is accepted, the one of the
data. -/
theorem loadSegments_copies (M : PFH) (filesize : UInt64) (fi : UInt64 → UInt8)
    (brk : Option ProgMem) (memory : UInt64 → UInt8) :
    (loadSegments M filesize fi ⟨brk.getD ⟨CBASE, 0⟩, memory, []⟩).copies =
      ⟨M.TEXT_VADD, M.TEXT_END - M.TEXT_START, some M.TEXT_START, M.textRegion brk⟩ ::
      (if M.DATA_EXISTS filesize then
        [⟨M.DATA_VADD, M.DATA_END - M.DATA_START, some M.DATA_START, M.dataRegion filesize brk⟩]
      else []) := by
  unfold loadSegments PFH.dataRegion
  by_cases hdata : M.DATA_EXISTS filesize
  · by_cases hbss : M.BSS_EXISTS
    · simp only [hdata, hbss, if_true]
      rfl
    · simp only [hdata, hbss, if_true]
      rfl
  · by_cases hbss : M.BSS_EXISTS
    · simp only [hdata, hbss, if_true]
      rfl
    · simp only [hdata, hbss]
      rfl

/-- The copy of the arguments. -/
def argumentsCopy (b : ProgMem) (arguments : List UInt8) : Copy :=
  let k := argumentsSize arguments
  if b.start > k then ⟨b.start - k, k, none, ⟨b.start - k, b.end'⟩⟩
  else ⟨b.end' + k - k, k, none, ⟨b.start, b.end' + k⟩⟩

theorem copyArguments_copies (s : Loading) (arguments : List UInt8) :
    (copyArguments s arguments).1.copies = s.copies ++ [argumentsCopy s.brk arguments] := by
  unfold copyArguments argumentsCopy
  by_cases hroom : s.brk.start > argumentsSize arguments
  · simp only [hroom, if_true]
  · simp only [hroom, if_false]

/-- The copy of the arguments is in bounds exactly if the region does not wrap around when it is
extended upwards. -/
theorem argumentsCopy_inBounds_iff {b : ProgMem} (hord : b.start.toNat ≤ b.end'.toNat)
    (arguments : List UInt8) (filesize : UInt64) :
    (argumentsCopy b arguments).InBounds filesize ↔
      (b.start ≤ argumentsSize arguments →
        b.end'.toNat + (argumentsSize arguments).toNat < 2 ^ 64) := by
  generalize hk : argumentsSize arguments = k
  have hk32 : k.toNat < 2 ^ 32 := by
    rw [← hk, argumentsSize, UInt32.toNat_toUInt64]
    exact UInt32.toNat_lt _
  have hE := b.end'.toNat_lt
  have hS := b.start.toNat_lt
  unfold argumentsCopy
  rw [hk]
  by_cases hroom : b.start > k
  · have hroom' : ¬ b.start ≤ k := UInt64.not_le.mpr hroom
    have hlt : k.toNat < b.start.toNat := UInt64.lt_iff_toNat_lt.mp hroom
    have hsub : (b.start - k).toNat = b.start.toNat - k.toNat :=
      UInt64.toNat_sub_of_le b.start k (UInt64.le_iff_toNat_le.mpr (Nat.le_of_lt hlt))
    simp only [if_pos hroom]
    refine ⟨fun _ hle => absurd hle hroom', fun _ => ⟨nofun, fun hnone => absurd rfl hnone, ?_⟩⟩
    intro i hi
    have hi' : i.toNat < k.toNat := UInt64.lt_iff_toNat_lt.mp hi
    rw [UInt64.le_iff_toNat_le, UInt64.le_iff_toNat_le]
    change (b.start - k).toNat ≤ (b.start - k + i).toNat ∧ (b.start - k + i).toNat ≤ b.end'.toNat
    rw [UInt64.toNat_add, hsub]
    omega
  · have hle : b.start ≤ k := UInt64.not_lt.mp hroom
    have hback : b.end' + k - k = b.end' := UInt64.add_sub_cancel _ _
    simp only [if_neg hroom, hback]
    constructor
    · intro hin _
      by_contra hwrap
      have hpos : (0 : UInt64) < k := by
        rw [UInt64.lt_iff_toNat_lt]
        change 0 < k.toNat
        omega
      have hzero : (b.end' + 0).toNat ≤ (b.end' + k).toNat :=
        UInt64.le_iff_toNat_le.mp (hin.served 0 hpos).2
      rw [UInt64.add_zero, UInt64.toNat_add] at hzero
      omega
    · intro hno
      have hno' := hno hle
      refine ⟨nofun, fun hnone => absurd rfl hnone, ?_⟩
      intro i hi
      have hi' : i.toNat < k.toNat := UInt64.lt_iff_toNat_lt.mp hi
      rw [UInt64.le_iff_toNat_le, UInt64.le_iff_toNat_le]
      change b.start.toNat ≤ (b.end' + i).toNat ∧ (b.end' + i).toNat ≤ (b.end' + k).toNat
      rw [UInt64.toNat_add, UInt64.toNat_add]
      omega

/-- What is left of an accepted file. -/
theorem PF_ok (hr : PF brk memory fi filesize arguments = .ok r) :
    (PFH.ofFile fi).TEXT_EXISTS filesize = true ∧
      copyArguments (loadSegments (PFH.ofFile fi) filesize fi
        ⟨brk.getD ⟨CBASE, 0⟩, memory, []⟩) arguments = (r.loading, r.argv) := by
  unfold PF at hr
  by_cases htext : (PFH.ofFile fi).TEXT_EXISTS filesize = false
  · rw [if_pos htext] at hr
    cases hr
  · rw [if_neg htext] at hr
    generalize copyArguments _ _ = p at hr ⊢
    rw [← Except.ok.inj hr]
    exact ⟨Bool.eq_true_of_not_eq_false htext, rfl⟩

/-- An accepted file is loaded in bounds exactly if nothing that is copied wraps around. -/
theorem loader_in_bounds_iff (brk : Option ProgMem) (memory fi : UInt64 → UInt8) (filesize : UInt64)
    (arguments : List UInt8) (r : Loaded) (hr : PF brk memory fi filesize arguments = .ok r) :
    (∀ c ∈ r.loading.copies, c.InBounds filesize) ↔
      Unwrapped (PFH.ofFile fi) filesize brk arguments := by
  obtain ⟨htext, hload⟩ := PF_ok hr
  generalize PFH.ofFile fi = M at htext hload ⊢
  have hseg := segExists_iff.mp htext
  have hcopies := copyArguments_copies
    (loadSegments M filesize fi ⟨brk.getD ⟨CBASE, 0⟩, memory, []⟩) arguments
  rw [hload, loadSegments_copies, loadSegments_brk] at hcopies
  change r.loading.copies = _ at hcopies
  have hdata (hexists : M.DATA_EXISTS filesize = true) :
      Copy.InBounds ⟨M.DATA_VADD, M.DATA_END - M.DATA_START, some M.DATA_START,
        M.dataRegion filesize brk⟩ filesize ↔ NoWrap M.DATA_VADD M.DATA_START M.DATA_END := by
    rw [PFH.dataRegion, if_pos hexists]
    exact (segExists_iff.mp hexists).inBounds_iff _
  -- the region is not empty, since the text is in it
  have hord (hno : NoWrap M.TEXT_VADD M.TEXT_START M.TEXT_END) :
      (M.region filesize brk).start.toNat ≤ (M.region filesize brk).end'.toNat := by
    have hholds := M.region_holds_text filesize brk
    have htop := hseg.top
    rw [Nat.mod_eq_of_lt hno] at htop
    have h1 := hholds.1
    have h2 := hholds.2
    omega
  constructor
  · intro hall
    have htext' : NoWrap M.TEXT_VADD M.TEXT_START M.TEXT_END :=
      (hseg.inBounds_iff _).mp (hall _ (by rw [hcopies]; exact List.mem_cons_self))
    refine ⟨htext', ?_, ?_⟩
    · intro hexists
      apply (hdata hexists).mp
      apply hall
      rw [hcopies, if_pos hexists]
      simp
    · apply (argumentsCopy_inBounds_iff (hord htext') arguments filesize).mp
      apply hall
      rw [hcopies]
      simp
  · intro hun c hc
    rw [hcopies, List.cons_append, List.mem_cons, List.mem_append, List.mem_singleton] at hc
    rcases hc with rfl | hc | rfl
    · exact (hseg.inBounds_iff _).mpr hun.text
    · by_cases hexists : M.DATA_EXISTS filesize = true
      · rw [if_pos hexists, List.mem_singleton] at hc
        rw [hc]
        exact (hdata hexists).mpr (hun.data hexists)
      · rw [if_neg hexists] at hc
        cases hc
    · exact (argumentsCopy_inBounds_iff (hord hun.text) arguments filesize).mpr hun.arguments

/-- A file of two bytes of text at `VADD`. -/
def twoBytes (VADD : UInt64) (a : UInt64) : UInt8 :=
  if a = 8 then 2 else if 16 ≤ a ∧ a < 24 then (VADD >>> (8 * (a - 16))).toUInt8 else 0

theorem twoBytes_in_bounds :
    ∃ r, PF none (fun _ => 0) (twoBytes 4096) 64 [97] = .ok r ∧
      ((∀ c ∈ r.loading.copies, c.InBounds 64) ↔
        Unwrapped (PFH.ofFile (twoBytes 4096)) 64 none [97]) :=
  ⟨_, rfl, loader_in_bounds_iff none (fun _ => 0) (twoBytes 4096) 64 [97] _ rfl⟩

/-- Text on the last byte of the address space passes the tests. -/
theorem last_byte_out_of_bounds :
    ∃ r, PF none (fun _ => 0) (twoBytes 0xFFFFFFFFFFFFFFFF) 64 [97] = .ok r ∧
      ∃ c ∈ r.loading.copies, ¬ c.Low ∧ ¬ c.Served := by
  refine ⟨_, rfl, ⟨0xFFFFFFFFFFFFFFFF, 2, some 0, ⟨CBASE, 1⟩⟩, List.mem_cons_self, ?_, ?_⟩
  · intro hlow
    exact absurd (hlow (by decide) 0 (by decide)) (by decide)
  · intro hserved
    exact absurd (hserved 0 (by decide)).2 (by decide)

end UnnamedOS.Loader
