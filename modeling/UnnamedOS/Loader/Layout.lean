import Mathlib.Algebra.Order.Ring.Nat
import UnnamedOS.Loader.Bounds

/-!
# Where the arguments end up

The region starts at the lowest accepted range and ends with the highest one. The arguments go
directly below the lowest range if there is room for them, and directly above the highest one
otherwise. Their address is stored through an `int *`.
-/

namespace UnnamedOS.Loader

open UnnamedOS.Lib

variable {s : Loading} {M : PFH} {b : ProgMem} {c : Copy} {filesize : UInt64}
  {fi memory : UInt64 → UInt8} {arguments : List UInt8} {brk : Option ProgMem} {r : Loaded}

/-- A range of user memory, with the address after it. -/
abbrev Range := Nat × Nat

/-- The ranges of an accepted file. -/
def PFH.ranges (M : PFH) (filesize : UInt64) : List Range :=
  (M.TEXT_VADD.toNat, M.TEXT_VADD.toNat + (M.TEXT_END.toNat - M.TEXT_START.toNat)) ::
    ((if M.DATA_EXISTS filesize then
      [(M.DATA_VADD.toNat, M.DATA_VADD.toNat + (M.DATA_END.toNat - M.DATA_START.toNat))] else []) ++
    (if M.BSS_EXISTS then [(M.BSS_VADD.toNat, M.BSS_VADD.toNat + M.BSS_SIZE.toNat)] else []))

/-- Of what an accepted file asks for, no end wraps around. -/
def PFH.Flat (M : PFH) (filesize : UInt64) : Prop := ∀ p ∈ M.ranges filesize, p.2 < 2 ^ 64

def lowest (ranges : List Range) : Nat := ranges.foldl (fun a p => min p.1 a) CBASE.toNat

def highest (ranges : List Range) : Nat := ranges.foldl (fun a p => max p.2 a) 0

/-- The arguments stand next to the ranges, at the address in `*argv`. -/
structure Consistent (M : PFH) (filesize : UInt64) (arguments : List UInt8) (r : Loaded) (c : Copy) :
    Prop where
  /-- It is the copy of the arguments. -/
  last : r.loading.copies.getLast? = some c
  offset : c.offset = none
  size : c.len.toNat = arguments.length + 1
  bytes : ∀ i ≤ arguments.length,
    r.loading.memory (c.dest + .ofNat i) = (arguments ++ [0]).getD i 0
  ranges : ∀ p ∈ M.ranges filesize, r.loading.brk.Holds p.1 p.2
  held : r.loading.brk.Holds c.dest.toNat (c.dest.toNat + (arguments.length + 1))
  apart : ∀ p ∈ M.ranges filesize, c.dest.toNat + (arguments.length + 1) ≤ p.1 ∨ p.2 ≤ c.dest.toNat
  argv : r.argv.toInt = c.dest.toNat

/-- The room for the arguments is measured in an `unsigned int`, and they begin below 2 GiB. -/
structure Addressable (M : PFH) (filesize : UInt64) (arguments : List UInt8) : Prop where
  size : arguments.length + 1 < 2 ^ 32
  below : arguments.length + 1 < lowest (M.ranges filesize) →
    lowest (M.ranges filesize) - (arguments.length + 1) < 2 ^ 31
  above : lowest (M.ranges filesize) ≤ arguments.length + 1 → highest (M.ranges filesize) < 2 ^ 31

/-- An address survives an `int` exactly if it is below 2 GiB. -/
theorem toInt_eq_iff (a : UInt64) : a.toUInt32.toInt32.toInt = (a.toNat : Int) ↔ a.toNat < 2 ^ 31 := by
  have hint : a.toUInt32.toInt32.toInt = ((a.toNat % 2 ^ 32 : Nat) : Int).bmod (2 ^ 32) := by
    change (a.toUInt32.toInt32.toBitVec).toInt = _
    rw [UInt32.toBitVec_toInt32, BitVec.toInt_eq_toNat_bmod]
    rfl
  rw [hint, Int.bmod_def]
  omega

theorem foldl_min_le {p : Range} {ranges : List Range} (hp : p ∈ ranges) (a : Nat) :
    ranges.foldl (fun a p => min p.1 a) a ≤ p.1 := by
  have hinit : ∀ (l : List Range) (a : Nat), l.foldl (fun a p => min p.1 a) a ≤ a := by
    intro l
    induction l with
    | nil => exact fun a => Nat.le_refl a
    | cons q l ih =>
      intro a
      exact Nat.le_trans (ih _) (Nat.min_le_right _ _)
  induction ranges generalizing a with
  | nil => cases hp
  | cons q l ih =>
    rcases List.mem_cons.mp hp with rfl | hp
    · exact Nat.le_trans (hinit l _) (Nat.min_le_left _ _)
    · exact ih hp _

theorem le_foldl_max {p : Range} {ranges : List Range} (hp : p ∈ ranges) (a : Nat) :
    p.2 ≤ ranges.foldl (fun a p => max p.2 a) a := by
  have hinit : ∀ (l : List Range) (a : Nat), a ≤ l.foldl (fun a p => max p.2 a) a := by
    intro l
    induction l with
    | nil => exact fun a => Nat.le_refl a
    | cons q l ih =>
      intro a
      exact Nat.le_trans (Nat.le_max_right _ _) (ih _)
  induction ranges generalizing a with
  | nil => cases hp
  | cons q l ih =>
    rcases List.mem_cons.mp hp with rfl | hp
    · exact Nat.le_trans (Nat.le_max_left _ _) (hinit l _)
    · exact ih hp _

/-- The region is from the lowest to the highest of the ranges. -/
structure Spans (b : ProgMem) (ranges : List Range) : Prop where
  start : b.start.toNat = lowest ranges
  top : b.end'.toNat = highest ranges

namespace Spans

theorem nil : Spans ⟨CBASE, 0⟩ [] := ⟨rfl, rfl⟩

/-- A range whose end is an address is added as it is. -/
theorem grow {ranges : List Range} {VADD top : UInt64} (h : Spans b ranges) :
    Spans (b.grow VADD top) (ranges ++ [(VADD.toNat, top.toNat)]) := by
  constructor
  · rw [lowest, List.foldl_append, ProgMem.grow, toNat_MIN, h.start]
    rfl
  · rw [highest, List.foldl_append, ProgMem.grow, toNat_MAX, h.top]
    rfl

theorem holds {ranges : List Range} (h : Spans b ranges) {p : Range} (hp : p ∈ ranges) :
    b.Holds p.1 p.2 := by
  constructor
  · rw [h.start]
    exact foldl_min_le hp _
  · rw [h.top]
    exact le_foldl_max hp _

end Spans

namespace PFH.Flat

theorem text (hflat : M.Flat filesize) : NoWrap M.TEXT_VADD M.TEXT_START M.TEXT_END :=
  hflat _ List.mem_cons_self

theorem data (hflat : M.Flat filesize) (hexists : M.DATA_EXISTS filesize = true) :
    NoWrap M.DATA_VADD M.DATA_START M.DATA_END := by
  apply hflat (M.DATA_VADD.toNat, _)
  rw [PFH.ranges, if_pos hexists]
  simp

theorem bss (hflat : M.Flat filesize) (hexists : M.BSS_EXISTS = true) :
    (M.BSS_VADD + M.BSS_SIZE).toNat = M.BSS_VADD.toNat + M.BSS_SIZE.toNat := by
  rw [UInt64.toNat_add]
  apply Nat.mod_eq_of_lt
  apply hflat (M.BSS_VADD.toNat, _)
  rw [PFH.ranges, if_pos hexists]
  simp

end PFH.Flat

/-- The end of an accepted segment that does not wrap around. -/
theorem Segment.top_of_noWrap {VADD END START : UInt64} (h : Segment VADD END START filesize)
    (hno : NoWrap VADD START END) :
    (VADD + END - START).toNat = VADD.toNat + (END.toNat - START.toNat) := by
  rw [h.top]
  exact Nat.mod_eq_of_lt hno

/-- A task without a region gets the one of its ranges. -/
theorem region_spans (htext : M.TEXT_EXISTS filesize = true) (hflat : M.Flat filesize) :
    Spans (M.region filesize none) (M.ranges filesize) := by
  have htop := (segExists_iff.mp htext).top_of_noWrap hflat.text
  have hspans : Spans (M.textRegion none)
      [(M.TEXT_VADD.toNat, M.TEXT_VADD.toNat + (M.TEXT_END.toNat - M.TEXT_START.toNat))] := by
    rw [← htop]
    exact Spans.nil.grow
  have hdata : Spans (M.dataRegion filesize none)
      ([(M.TEXT_VADD.toNat, M.TEXT_VADD.toNat + (M.TEXT_END.toNat - M.TEXT_START.toNat))] ++
        (if M.DATA_EXISTS filesize then
          [(M.DATA_VADD.toNat, M.DATA_VADD.toNat + (M.DATA_END.toNat - M.DATA_START.toNat))]
        else [])) := by
    rw [PFH.dataRegion]
    by_cases hexists : M.DATA_EXISTS filesize = true
    · rw [if_pos hexists, if_pos hexists,
        ← (segExists_iff.mp hexists).top_of_noWrap (hflat.data hexists)]
      exact hspans.grow
    · rw [if_neg hexists, if_neg hexists, List.append_nil]
      exact hspans
  rw [PFH.region, PFH.ranges, ← List.singleton_append, ← List.append_assoc]
  by_cases hexists : M.BSS_EXISTS = true
  · rw [if_pos hexists, if_pos hexists, ← hflat.bss hexists]
    exact hdata.grow
  · rw [if_neg hexists, if_neg hexists, List.append_nil]
    exact hdata

theorem grow_end_lt {VADD top : UInt64} (htop : top.toNat < CBASE.toNat)
    (hb : b.end'.toNat < CBASE.toNat) : (b.grow VADD top).end'.toNat < CBASE.toNat := by
  rw [ProgMem.grow, toNat_MAX]
  omega

/-- The tests keep the region of a new task in the user half. -/
theorem region_end_lt (htext : M.TEXT_EXISTS filesize = true) :
    (M.region filesize none).end'.toNat < CBASE.toNat := by
  have hinit : (M.textRegion none).end'.toNat < CBASE.toNat :=
    grow_end_lt (segExists_iff.mp htext).low (by decide)
  have hdata : (M.dataRegion filesize none).end'.toNat < CBASE.toNat := by
    rw [PFH.dataRegion]
    split
    · rename_i hexists
      exact grow_end_lt (segExists_iff.mp hexists).low hinit
    · exact hinit
  rw [PFH.region]
  split
  · rename_i hexists
    rw [PFH.BSS_EXISTS, decide_eq_true_iff] at hexists
    exact grow_end_lt (UInt64.lt_iff_toNat_lt.mp hexists.2) hdata
  · exact hdata

/-- Where the arguments go, next to a region in the user half. -/
structure ArgumentsAt (b : ProgMem) (s : Loading) (arguments : List UInt8) (t : Loading)
    (argv : Int32) (c : Copy) : Prop where
  copies : t.copies = s.copies ++ [c]
  offset : c.offset = none
  size : c.len = argumentsSize arguments
  memory : t.memory = memcpy s.memory c.dest (stringBytes arguments) c.len
  argv : argv = c.dest.toUInt32.toInt32
  below : (argumentsSize arguments).toNat < b.start.toNat →
    c.dest.toNat + c.len.toNat = b.start.toNat ∧ t.brk = ⟨c.dest, b.end'⟩
  above : b.start.toNat ≤ (argumentsSize arguments).toNat →
    c.dest = b.end' ∧ t.brk.start = b.start ∧ t.brk.end'.toNat = c.dest.toNat + c.len.toNat

theorem copyArguments_spec (s : Loading) (arguments : List UInt8)
    (hend : s.brk.end'.toNat < CBASE.toNat) :
    ArgumentsAt s.brk s arguments (copyArguments s arguments).1 (copyArguments s arguments).2
      (argumentsCopy s.brk arguments) := by
  generalize hk : argumentsSize arguments = k
  have hk32 : k.toNat < 2 ^ 32 := by
    rw [← hk, argumentsSize, UInt32.toNat_toUInt64]
    exact UInt32.toNat_lt _
  rw [CBASE_toNat] at hend
  unfold copyArguments argumentsCopy
  rw [hk]
  by_cases hroom : s.brk.start > k
  · have hlt : k.toNat < s.brk.start.toNat := UInt64.lt_iff_toNat_lt.mp hroom
    have hsub : (s.brk.start - k).toNat = s.brk.start.toNat - k.toNat :=
      UInt64.toNat_sub_of_le _ k (UInt64.le_iff_toNat_le.mpr (Nat.le_of_lt hlt))
    simp only [if_pos hroom]
    refine ⟨rfl, rfl, hk.symm, rfl, rfl, fun _ => ⟨?_, rfl⟩, fun hle => ?_⟩
    · change (s.brk.start - k).toNat + k.toNat = _
      omega
    · rw [hk] at hle
      omega
  · have hle : s.brk.start.toNat ≤ k.toNat := UInt64.le_iff_toNat_le.mp (UInt64.not_lt.mp hroom)
    have hback : s.brk.end' + k - k = s.brk.end' := UInt64.add_sub_cancel _ _
    simp only [if_neg hroom, hback]
    refine ⟨rfl, rfl, hk.symm, rfl, rfl, fun hlt => ?_, fun _ => ⟨rfl, rfl, ?_⟩⟩
    · rw [hk] at hlt
      omega
    · change (s.brk.end' + k).toNat = s.brk.end'.toNat + k.toNat
      rw [UInt64.toNat_add]
      omega

namespace ArgumentsAt

variable {t : Loading} {argv : Int32}

/-- The arguments and what was there before are in the region. -/
theorem held (h : ArgumentsAt b s arguments t argv c) (hord : b.start.toNat ≤ b.end'.toNat) :
    b.Within t.brk ∧ t.brk.Holds c.dest.toNat (c.dest.toNat + c.len.toNat) := by
  rcases Nat.lt_or_ge (argumentsSize arguments).toNat b.start.toNat with hroom | hroom
  · obtain ⟨hdest, hgrown⟩ := h.below hroom
    rw [hgrown]
    refine ⟨⟨?_, Nat.le_refl _⟩, Nat.le_refl _, ?_⟩
    · change c.dest.toNat ≤ b.start.toNat
      omega
    · change _ ≤ b.end'.toNat
      omega
  · obtain ⟨hdest, hstart, htop⟩ := h.above hroom
    have hdest' : c.dest.toNat = b.end'.toNat := congrArg UInt64.toNat hdest
    have hstart' : t.brk.start.toNat = b.start.toNat := congrArg UInt64.toNat hstart
    refine ⟨⟨?_, ?_⟩, ?_, ?_⟩
    · omega
    · omega
    · omega
    · omega

/-- The arguments are not in what was there before. -/
theorem apart (h : ArgumentsAt b s arguments t argv c) :
    c.dest.toNat + c.len.toNat ≤ b.start.toNat ∨ b.end'.toNat ≤ c.dest.toNat := by
  rcases Nat.lt_or_ge (argumentsSize arguments).toNat b.start.toNat with hroom | hroom
  · exact .inl (Nat.le_of_eq (h.below hroom).1)
  · rw [(h.above hroom).1]
    exact .inr (Nat.le_refl _)

theorem argv_iff (h : ArgumentsAt b s arguments t argv c) :
    argv.toInt = (c.dest.toNat : Int) ↔ c.dest.toNat < 2 ^ 31 := by
  rw [h.argv]
  exact toInt_eq_iff _

end ArgumentsAt

theorem stringBytes_ofNat {i : Nat} (hi : i < 2 ^ 64) :
    stringBytes arguments (.ofNat i) = (arguments ++ [0]).getD i 0 := by
  rw [stringBytes, UInt64.toNat_ofNat', Nat.mod_eq_of_lt hi, List.getD_eq_getElem?_getD,
    List.getD_eq_getElem?_getD, List.getElem?_append]
  split
  · rfl
  · rename_i hlen
    rw [List.getElem?_eq_none (Nat.le_of_not_lt hlen)]
    cases i - arguments.length with
    | zero => rfl
    | succ j => rfl

theorem argumentsSize_toNat (arguments : List UInt8) :
    (argumentsSize arguments).toNat = (arguments.length + 1) % 2 ^ 32 := by
  rw [argumentsSize, UInt32.toNat_toUInt64, UInt32.toNat_add, UInt32.toNat_ofNat']
  change (arguments.length % 2 ^ 32 + 1) % 2 ^ 32 = _
  omega

/-- The layout of a new task is consistent exactly if the address of the arguments survives the
`int` that it is stored in. -/
theorem loader_layout_iff (memory fi : UInt64 → UInt8) (filesize : UInt64) (arguments : List UInt8)
    (r : Loaded) (hr : PF none memory fi filesize arguments = .ok r)
    (hflat : (PFH.ofFile fi).Flat filesize) :
    (∃ c, Consistent (PFH.ofFile fi) filesize arguments r c) ↔
      Addressable (PFH.ofFile fi) filesize arguments := by
  obtain ⟨htext, hload⟩ := PF_ok hr
  generalize PFH.ofFile fi = M at htext hload hflat ⊢
  have hspans := region_spans htext hflat
  have hend := region_end_lt htext
  have hbrk := loadSegments_brk M filesize fi none memory
  have hspec := copyArguments_spec (loadSegments M filesize fi
    ⟨(none : Option ProgMem).getD ⟨CBASE, 0⟩, memory, []⟩) arguments (by rw [hbrk]; exact hend)
  rw [hload, hbrk] at hspec
  generalize loadSegments M filesize fi _ = s at hspec
  generalize M.region filesize none = b at hspans hend hspec
  generalize argumentsCopy b arguments = c at hspec
  change ArgumentsAt b s arguments r.loading r.argv c at hspec
  have hlast : r.loading.copies.getLast? = some c := by
    rw [hspec.copies, List.getLast?_concat]
  have hk := argumentsSize_toNat arguments
  have hlow := hspans.start
  have hhigh := hspans.top
  constructor
  · rintro ⟨c', hcons⟩
    obtain rfl : c' = c := Option.some.inj (hcons.last.symm.trans hlast)
    have hsize := hcons.size
    rw [hspec.size] at hsize
    have hdest : c'.dest.toNat < 2 ^ 31 := hspec.argv_iff.mp hcons.argv
    refine ⟨by omega, fun hroom => ?_, fun hroom => ?_⟩
    · have hbelow := (hspec.below (by omega)).1
      rw [hspec.size] at hbelow
      omega
    · rw [← hhigh, ← (hspec.above (by omega)).1]
      exact hdest
  · intro hadd
    have hfit := hadd.size
    have hsize : (argumentsSize arguments).toNat = arguments.length + 1 := by
      rw [hk]
      exact Nat.mod_eq_of_lt hfit
    have hlen : c.len.toNat = arguments.length + 1 := by rw [hspec.size, hsize]
    have hord : b.start.toNat ≤ b.end'.toNat := by
      have hholds := hspans.holds (p := (M.TEXT_VADD.toNat, _)) List.mem_cons_self
      have h1 := hholds.1
      have h2 := hholds.2
      omega
    obtain ⟨hwithin, hheld⟩ := hspec.held hord
    rw [hlen] at hheld
    have hapart := hspec.apart
    rw [hlen] at hapart
    have hdest : c.dest.toNat < 2 ^ 31 := by
      rcases Nat.lt_or_ge (argumentsSize arguments).toNat b.start.toNat with hroom | hroom
      · have hbelow := (hspec.below hroom).1
        have := hadd.below (by omega)
        omega
      · rw [(hspec.above hroom).1, hhigh]
        exact hadd.above (by omega)
    have hbytes (i : Nat) (hi : i ≤ arguments.length) :
        r.loading.memory (c.dest + .ofNat i) = (arguments ++ [0]).getD i 0 := by
      have hi' : i < 2 ^ 64 := by omega
      have hoff : c.dest + .ofNat i - c.dest = UInt64.ofNat i := by
        rw [UInt64.add_comm, UInt64.add_sub_cancel]
      have hlt : UInt64.ofNat i < c.len := by
        rw [UInt64.lt_iff_toNat_lt, UInt64.toNat_ofNat', hlen, Nat.mod_eq_of_lt hi']
        omega
      rw [hspec.memory, memcpy, hoff, if_pos hlt, stringBytes_ofNat hi']
    have hranges (p : Range) (hp : p ∈ M.ranges filesize) :
        c.dest.toNat + (arguments.length + 1) ≤ p.1 ∨ p.2 ≤ c.dest.toNat := by
      have hholds := hspans.holds hp
      have h1 := hholds.1
      have h2 := hholds.2
      omega
    exact ⟨c, hlast, hspec.offset, hlen, hbytes, fun p hp => hwithin.holds (hspans.holds hp), hheld,
      hranges, hspec.argv_iff.mpr hdest⟩

instance (M : PFH) (filesize : UInt64) : Decidable (M.Flat filesize) :=
  inferInstanceAs (Decidable (∀ p ∈ M.ranges filesize, p.2 < 2 ^ 64))

theorem twoBytes_layout :
    ∃ r, PF none (fun _ => 0) (twoBytes 4096) 64 [97] = .ok r ∧
      ((∃ c, Consistent (PFH.ofFile (twoBytes 4096)) 64 [97] r c) ↔
        Addressable (PFH.ofFile (twoBytes 4096)) 64 [97]) :=
  ⟨_, rfl, loader_layout_iff (fun _ => 0) (twoBytes 4096) 64 [97] _ rfl (by decide)⟩

/-- Text from 2 GiB on has its arguments at an address that `*argv` does not hold. -/
theorem arguments_above_int :
    (PFH.ofFile (twoBytes 0x80001000)).Flat 64 ∧
      ∃ r, PF none (fun _ => 0) (twoBytes 0x80001000) 64 [97] = .ok r ∧
        ¬ ∃ c, Consistent (PFH.ofFile (twoBytes 0x80001000)) 64 [97] r c := by
  refine ⟨by decide, _, rfl, ?_⟩
  rintro ⟨c, hcons⟩
  have hlast := hcons.last
  obtain rfl := Option.some.inj hlast
  exact absurd hcons.argv (by decide)

end UnnamedOS.Loader
