import UnnamedOS.Memory.Malloc

/-!
# Sizes and masks

A request for `n` bytes takes `units n` units. The masks are exact below 32 units; from there
on the shift count wraps around and the last unit of the run is never in the mask.
-/

namespace UnnamedOS.Memory

open UnnamedOS.Lib

/-- The units of a block of `n` bytes, header included. -/
def units (n : Nat) : Nat := (n + 63) / 64 + 1

theorem units_lt {n : Nat} (hn : n ≤ 3968) : units n < 64 := by
  unfold units
  omega

theorem two_le_units {n : Nat} (hn : 1 ≤ n) : 2 ≤ units n := by
  unfold units
  omega

theorem units_lt_32_iff {n : Nat} : units n < 32 ↔ n ≤ 1920 := by
  unfold units
  omega

theorem divMod64_ofNat {n : Nat} (hn : n < 2 ^ 32) :
    divMod64 (BitVec.ofNat 64 n) = .ok (BitVec.ofNat 64 (n / 64), BitVec.ofNat 64 (n % 64)) := by
  have htoNat : (BitVec.ofNat 64 n).toNat = n := by
    rw [BitVec.toNat_ofNat, Nat.mod_eq_of_lt (by omega)]
  have h64 : (64#64).toNat = 64 := rfl
  have hq : BitVec.ofNat 64 n / 64#64 = BitVec.ofNat 64 (n / 64) := by
    apply BitVec.eq_of_toNat_eq
    rw [BitVec.toNat_udiv, htoNat, h64, BitVec.toNat_ofNat, Nat.mod_eq_of_lt (by omega)]
  have hr : BitVec.ofNat 64 n % 64#64 = BitVec.ofNat 64 (n % 64) := by
    apply BitVec.eq_of_toNat_eq
    rw [BitVec.toNat_umod, htoNat, h64, BitVec.toNat_ofNat,
      Nat.mod_eq_of_lt (show n % 64 < 2 ^ 64 by omega)]
  rw [divMod64, htoNat, if_pos (by omega), hq, hr]

theorem ofNat_eq_zero {n : Nat} (hn : n < 2 ^ 32) : BitVec.ofNat 64 n = 0#64 ↔ n = 0 := by
  constructor
  · intro h
    have htoNat := congrArg BitVec.toNat h
    rw [BitVec.toNat_ofNat, BitVec.toNat_ofNat] at htoNat
    omega
  · rintro rfl
    rfl

/-- The size after rounding up to a whole number of units. -/
theorem rounded_ofNat {n : Nat} (hn : n ≤ 3968) :
    (if BitVec.ofNat 64 (n % 64) = 0#64 then BitVec.ofNat 64 n
      else BitVec.ofNat 64 n + (64#64 - BitVec.ofNat 64 (n % 64))) =
      BitVec.ofNat 64 (64 * ((n + 63) / 64)) := by
  apply BitVec.eq_of_toNat_eq
  split
  · rename_i h
    rw [ofNat_eq_zero (by omega)] at h
    rw [BitVec.toNat_ofNat, BitVec.toNat_ofNat]
    omega
  · rename_i h
    rw [ofNat_eq_zero (by omega)] at h
    rw [BitVec.toNat_add, BitVec.toNat_sub, BitVec.toNat_ofNat, BitVec.toNat_ofNat,
      BitVec.toNat_ofNat, BitVec.toNat_ofNat]
    omega

theorem unitsOf_ofNat {n : Nat} (h1 : 1 ≤ n) (hn : n ≤ 3968) :
    unitsOf (BitVec.ofNat 64 n) = .ok (BitVec.ofNat 64 (units n)) := by
  have hne : ¬ BitVec.ofNat 64 n = 0#64 := by
    rw [ofNat_eq_zero (by omega)]
    omega
  have hle : ¬ 4032#64 ≤ BitVec.ofNat 64 (64 * ((n + 63) / 64)) := by
    rw [BitVec.le_def, BitVec.toNat_ofNat, BitVec.toNat_ofNat]
    omega
  have hdiv : 64 * ((n + 63) / 64) / 64 = (n + 63) / 64 := Nat.mul_div_cancel_left _ (by omega)
  simp only [unitsOf, if_neg hne, divMod64_ofNat (show n < 2 ^ 32 by omega), rounded_ofNat hn,
    if_neg hle, divMod64_ofNat (show 64 * ((n + 63) / 64) < 2 ^ 32 by omega), hdiv]
  rw [units, BitVec.ofNat_add]

theorem getLsbD_sizebitmask (size : BitVec 64) (b : Nat) :
    (sizebitmask size).getLsbD b = decide (b < size.toNat % 32) :=
  getLsbD_ones_signExtend (Nat.mod_lt _ (by omega)) (by omega) b

/-- The first unit of a run of `n` units that ends at `j`. -/
theorem toNat_runStart {n j : Nat} (hn : n ≤ j + 1) (hj : j < 64) :
    (BitVec.ofNat 64 j - BitVec.ofNat 64 n + 1#64).toNat = j + 1 - n := by
  rw [BitVec.toNat_add, BitVec.toNat_sub, BitVec.toNat_ofNat, BitVec.toNat_ofNat,
    BitVec.toNat_ofNat]
  omega

theorem getLsbD_jshift {n j b : Nat} (hn : n ≤ j + 1) (hj : j < 64) (hb : b < 64) :
    (jshift (BitVec.ofNat 64 n) (BitVec.ofNat 64 j)).getLsbD b =
      decide (j + 1 - n ≤ b ∧ b < j + 1 - n + n % 32) := by
  have hk : (j + 1 - n) % 64 = j + 1 - n ∨ n = 0 := by omega
  have hmask : ∀ b, (sizebitmask (BitVec.ofNat 64 n)).getLsbD b = decide (b < n % 32) := by
    intro b
    rw [getLsbD_sizebitmask, BitVec.toNat_ofNat, Nat.mod_eq_of_lt (by omega : n < 2 ^ 64)]
  rw [jshift, toNat_runStart hn hj, getLsbD_run_shiftLeft hmask _ _ hb, decide_eq_decide]
  omega

/-- Below 32 units the mask is exactly the run. -/
theorem getLsbD_jshift_small {n j b : Nat} (hsmall : n < 32) (hn : n ≤ j + 1) (hj : j < 64)
    (hb : b < 64) :
    (jshift (BitVec.ofNat 64 n) (BitVec.ofNat 64 j)).getLsbD b =
      decide (j + 1 - n ≤ b ∧ b ≤ j) := by
  rw [getLsbD_jshift hn hj hb, decide_eq_decide]
  omega

theorem getLsbD_jshift_large {n j : Nat} (hlarge : 32 ≤ n) (hn : n ≤ j + 1) (hj : j < 64) :
    (jshift (BitVec.ofNat 64 n) (BitVec.ofNat 64 j)).getLsbD j = false := by
  rw [getLsbD_jshift hn hj hj, decide_eq_false_iff_not]
  omega

/-- `m` counts bits that have been passed, so a run that is found fits below its end. -/
theorem matchBits_some {bitmap size : BitVec 64} {j' : Nat} :
    ∀ {k j : Nat} {m : BitVec 8}, matchBits bitmap size k j m = some j' → m.toNat ≤ j →
      j + k ≤ 64 → size.toNat ≤ j' + 1 ∧ j' < j + k := by
  intro k
  induction k with
  | zero =>
      intro j m h
      cases h
  | succ k ih =>
      intro j m h hm hk
      have hsucc : (m + 1#8).toNat = m.toNat + 1 := by
        rw [BitVec.toNat_add, BitVec.toNat_ofNat]
        omega
      rw [matchBits] at h
      split at h
      · have hrec := ih h (Nat.zero_le _) (by omega)
        omega
      · split at h
        · rename_i hsize
          obtain rfl := Option.some.inj h
          rw [← hsize, BitVec.toNat_setWidth, hsucc]
          omega
        · have hrec := ih h (by omega) (by omega)
          omega

end UnnamedOS.Memory
