import Mathlib.Algebra.Order.Ring.Nat
import Mathlib.Data.List.GetD
import Mathlib.Logic.Function.Basic

/-!
# Bytes and what they spell

Little-endian numbers, stretches of a memory as lists of bytes, and strings that end at their
first zero.
-/

namespace UnnamedOS.Lib

/-- The number with the given little-endian bytes. -/
def ofBytes : List UInt8 → ℕ
  | [] => 0
  | b :: bs => b.toNat + 256 * ofBytes bs

/-- The `w` little-endian bytes of `n`. -/
def toBytes : ℕ → ℕ → List UInt8
  | 0, _ => []
  | w + 1, n => UInt8.ofNat (n % 256) :: toBytes w (n / 256)

theorem length_toBytes (w n : ℕ) : (toBytes w n).length = w := by
  induction w generalizing n with
  | zero => rfl
  | succ w ih => rw [toBytes, List.length_cons, ih]

theorem ofBytes_toBytes (w n : ℕ) : ofBytes (toBytes w n) = n % 256 ^ w := by
  induction w generalizing n with
  | zero => rw [toBytes, ofBytes, pow_zero, Nat.mod_one]
  | succ w ih =>
      have hbyte : (UInt8.ofNat (n % 256)).toNat = n % 256 := by
        rw [UInt8.toNat_ofNat']
        omega
      rw [toBytes, ofBytes, ih, hbyte, pow_succ', Nat.mod_mul]

/-- `n` bytes of a memory from address `a` on. -/
def stretch (memory : ℕ → UInt8) (a n : ℕ) : List UInt8 :=
  (List.range n).map fun i => memory (a + i)

variable {memory : ℕ → UInt8} {a n i : ℕ}

theorem length_stretch : (stretch memory a n).length = n := by
  rw [stretch, List.length_map, List.length_range]

theorem getElem_stretch (hi : i < (stretch memory a n).length) :
    (stretch memory a n)[i] = memory (a + i) := by
  simp only [stretch, List.getElem_map, List.getElem_range]

theorem take_drop_stretch {m : ℕ} (h : i + m ≤ n) :
    ((stretch memory a n).drop i).take m = stretch memory (a + i) m := by
  apply List.ext_getElem
  · rw [List.length_take, List.length_drop, length_stretch, length_stretch]
    omega
  · intro j hj hj'
    rw [List.getElem_take, List.getElem_drop, getElem_stretch, getElem_stretch, Nat.add_assoc]

theorem stretch_congr {memory' : ℕ → UInt8} (h : ∀ i < n, memory' (a + i) = memory (a + i)) :
    stretch memory' a n = stretch memory a n := by
  apply List.map_congr_left
  intro i hi
  exact h i (List.mem_range.mp hi)

/-- Put `bytes` over a memory from address `a` on. -/
def overwrite (memory : ℕ → UInt8) (a : ℕ) (bytes : List UInt8) : ℕ → UInt8 := fun k =>
  if a ≤ k then bytes.getD (k - a) (memory k) else memory k

theorem overwrite_of_lt {bytes : List UInt8} {k : ℕ} (hk : k < a) :
    overwrite memory a bytes k = memory k := by
  rw [overwrite, if_neg (by omega)]

theorem overwrite_of_ge {bytes : List UInt8} {k : ℕ} (hk : a + bytes.length ≤ k) :
    overwrite memory a bytes k = memory k := by
  rw [overwrite]
  split
  · rw [List.getD_eq_default _ _ (by omega)]
  · rfl

theorem overwrite_add {bytes : List UInt8} (hi : i < bytes.length) :
    overwrite memory a bytes (a + i) = bytes[i] := by
  rw [overwrite, if_pos (by omega), Nat.add_sub_cancel_left, List.getD_eq_getElem _ _ hi]

theorem overwrite_nil : overwrite memory a [] = memory := by
  funext k
  rw [overwrite, List.getD_nil, ite_self]

theorem stretch_overwrite (memory : ℕ → UInt8) (a : ℕ) (bytes : List UInt8) :
    stretch (overwrite memory a bytes) a bytes.length = bytes := by
  apply List.ext_getElem
  · rw [length_stretch]
  · intro i hi hi'
    rw [getElem_stretch, overwrite_add hi']

/-- A buffer after `data` has been copied over it from index `i` on. -/
def splice (buffer : List UInt8) (i : ℕ) (data : List UInt8) : List UInt8 :=
  buffer.take i ++ data ++ buffer.drop (i + data.length)

theorem length_splice {buffer data : List UInt8} (h : i + data.length ≤ buffer.length) :
    (splice buffer i data).length = buffer.length := by
  rw [splice, List.length_append, List.length_append, List.length_take, List.length_drop]
  omega

/-- Reading a stretch, copying over it and putting it back changes what was copied and no more. -/
theorem overwrite_splice {data : List UInt8} (h : i + data.length ≤ n) :
    overwrite memory a (splice (stretch memory a n) i data) = overwrite memory (a + i) data := by
  have htake : ((stretch memory a n).take i).length = i := by
    rw [List.length_take, length_stretch]
    omega
  have hlen : (splice (stretch memory a n) i data).length = n := by
    rw [length_splice (by rw [length_stretch]; omega), length_stretch]
  funext k
  by_cases hlt : k < a
  · rw [overwrite_of_lt hlt, overwrite_of_lt (by omega)]
  by_cases hge : a + n ≤ k
  · rw [overwrite_of_ge (by omega), overwrite_of_ge (by omega)]
  obtain ⟨j, rfl⟩ : ∃ j, k = a + j := ⟨k - a, by omega⟩
  have hj : j < (splice (stretch memory a n) i data).length := by omega
  rw [overwrite_add hj]
  by_cases hbefore : j < i
  · rw [overwrite_of_lt (by omega)]
    simp only [splice, List.append_assoc]
    rw [List.getElem_append_left (by omega), List.getElem_take, getElem_stretch]
  by_cases hafter : i + data.length ≤ j
  · rw [overwrite_of_ge (by omega)]
    simp only [splice]
    rw [List.getElem_append_right (by rw [List.length_append]; omega), List.getElem_drop,
      getElem_stretch]
    congr 1
    rw [List.length_append]
    omega
  · obtain ⟨m, rfl⟩ : ∃ m, j = i + m := ⟨j - i, by omega⟩
    have hm : m < data.length := by omega
    rw [← Nat.add_assoc, overwrite_add hm]
    simp only [splice, List.append_assoc]
    rw [List.getElem_append_right (by omega), List.getElem_append_left (by omega)]
    congr 1
    omega

/-- What stands before the first zero. -/
def cString (bytes : List UInt8) : List UInt8 := bytes.takeWhile (· ≠ 0)

end UnnamedOS.Lib
