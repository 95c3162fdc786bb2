import Mathlib.Data.Nat.Find
import Mathlib.Data.List.GetD

/-!
# Strings that end in a zero byte

What a `char *` points to: the bytes from there on, one of which is zero. Those behind the first
zero belong to no string.
-/

namespace UnnamedOS.Lib

structure CString where
  byte : Nat → UInt8
  terminated : ∃ i, byte i = 0

namespace CString

variable (s : CString) {i j : Nat}

/-- `for(;a[i];i++);` -/
def strlen : Nat := Nat.find s.terminated

theorem byte_strlen : s.byte s.strlen = 0 := Nat.find_spec s.terminated

variable {s}

theorem byte_ne_zero (h : i < s.strlen) : s.byte i ≠ 0 := Nat.find_min s.terminated h

theorem strlen_le (h : s.byte i = 0) : s.strlen ≤ i := Nat.find_min' s.terminated h

theorem strlen_eq (hzero : s.byte i = 0) (hbefore : ∀ j < i, s.byte j ≠ 0) : s.strlen = i := by
  apply Nat.le_antisymm (strlen_le hzero)
  by_contra hlt
  exact hbefore s.strlen (Nat.lt_of_not_le hlt) s.byte_strlen

/-- The string from a later place on. -/
def drop (s : CString) (i : Nat) (h : i ≤ s.strlen) : CString where
  byte j := s.byte (i + j)
  terminated := ⟨s.strlen - i, by rw [Nat.add_sub_cancel' h]; exact s.byte_strlen⟩

theorem strlen_drop (h : i ≤ s.strlen) : (s.drop i h).strlen = s.strlen - i := by
  apply strlen_eq
  · change s.byte (i + (s.strlen - i)) = 0
    rw [Nat.add_sub_cancel' h]
    exact s.byte_strlen
  · intro j hj
    change s.byte (i + j) ≠ 0
    exact byte_ne_zero (by omega)

/-- The string of a list, with zeros behind it. -/
def ofList (l : List UInt8) : CString where
  byte i := l.getD i 0
  terminated := ⟨l.length, by simp⟩

theorem strlen_ofList {l : List UInt8} (h : ∀ c ∈ l, c ≠ 0) : (ofList l).strlen = l.length := by
  apply strlen_eq
  · change l.getD l.length 0 = 0
    simp
  · intro j hj
    change l.getD j 0 ≠ 0
    rw [List.getD_eq_getElem l 0 hj]
    exact h _ (List.getElem_mem hj)

end CString

end UnnamedOS.Lib
