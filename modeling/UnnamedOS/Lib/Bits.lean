import Mathlib.Data.Nat.Bitwise

/-!
# Words as sets of bits

A run of ones built by shift and decrement, its placement inside a word, and what the
mask tests `x &&& m = 0` and `~~~x &&& m = 0` say bit by bit.
-/

namespace UnnamedOS.Lib

variable {w : ℕ} {x m : BitVec w}

/-- `(1 << n) - 1`. -/
def ones (w n : ℕ) : BitVec w := (1#w <<< n) - 1#w

theorem toNat_ones {n : ℕ} (hn : n < w) : (ones w n).toNat = 2 ^ n - 1 := by
  have hw : 1 < 2 ^ w := Nat.one_lt_two_pow (by omega)
  have hlt : 2 ^ n < 2 ^ w := Nat.pow_lt_pow_right (by omega) hn
  have hpos : 0 < 2 ^ n := Nat.two_pow_pos n
  have hone : (1#w).toNat = 1 := by rw [BitVec.toNat_ofNat, Nat.mod_eq_of_lt hw]
  have hshift : (1#w <<< n).toNat = 2 ^ n := by
    rw [BitVec.toNat_shiftLeft, hone, Nat.shiftLeft_eq, Nat.one_mul, Nat.mod_eq_of_lt hlt]
  rw [ones, BitVec.toNat_sub, hshift, hone]
  have heq : 2 ^ w - 1 + 2 ^ n = 2 ^ n - 1 + 2 ^ w := by omega
  rw [heq, Nat.add_mod_right, Nat.mod_eq_of_lt (by omega)]

theorem getLsbD_ones {n : ℕ} (hn : n < w) (b : ℕ) : (ones w n).getLsbD b = decide (b < n) := by
  rw [← BitVec.testBit_toNat, toNat_ones hn, Nat.testBit_two_pow_sub_one]

/-- Such a run is positive as a signed number, so extending it adds no bits. -/
theorem getLsbD_ones_signExtend {n v : ℕ} (hn : n < w) (hv : w ≤ v) (b : ℕ) :
    ((ones w n).signExtend v).getLsbD b = decide (b < n) := by
  have hmsb : (ones w n).msb = false := by
    rw [BitVec.msb_eq_getLsbD_last, getLsbD_ones hn, decide_eq_false_iff_not]
    omega
  rw [BitVec.signExtend_eq_setWidth_of_msb_false hmsb, BitVec.getLsbD_setWidth, getLsbD_ones hn]
  by_cases hb : b < n
  · have hbv : b < v := by omega
    simp [hb, hbv]
  · simp [hb]

/-- `1 << k` on an `int` of 32 bits: bit 31 is its sign and reaches all the higher bits. -/
theorem getLsbD_one_signExtend {k b : ℕ} (hk : k < 32) (hb : b < 64) :
    ((1#32 <<< k).signExtend 64).getLsbD b = decide (if k = 31 then 31 ≤ b else b = k) := by
  have hall : ∀ k < 32, ∀ b < 64,
      ((1#32 <<< k).signExtend 64).getLsbD b = decide (if k = 31 then 31 ≤ b else b = k) := by
    decide +kernel
  exact hall k hk b hb

/-- A word whose low `n` bits are its ones, moved up by `k` places. -/
theorem getLsbD_run_shiftLeft {n : ℕ} (hm : ∀ b, m.getLsbD b = decide (b < n)) (k b : ℕ)
    (hb : b < w) : (m <<< k).getLsbD b = decide (k ≤ b ∧ b < k + n) := by
  rw [BitVec.getLsbD_shiftLeft, hm]
  by_cases hk : k ≤ b
  · by_cases hn : b < k + n
    · have hsub : b - k < n := by omega
      simp [hb, hk, hn, hsub]
    · have hsub : ¬ b - k < n := by omega
      simp [hk, hn, hsub]
  · have hlt : b < k := by omega
    simp [hk, hlt]

theorem and_eq_zero_iff :
    x &&& m = 0#w ↔ ∀ b < w, m.getLsbD b = true → x.getLsbD b = false := by
  constructor
  · intro h b _ hm
    have hbit := congrArg (fun y => y.getLsbD b) h
    simpa [hm] using hbit
  · intro h
    apply BitVec.eq_of_getLsbD_eq
    intro b hb
    cases hm : m.getLsbD b
    · simp [hm]
    · simp [h b hb hm]

theorem not_and_eq_zero_iff :
    ~~~x &&& m = 0#w ↔ ∀ b < w, m.getLsbD b = true → x.getLsbD b = true := by
  rw [and_eq_zero_iff]
  constructor
  · intro h b hb hm
    have hx := h b hb hm
    simpa [hb] using hx
  · intro h b hb hm
    simp [hb, h b hb hm]

end UnnamedOS.Lib
