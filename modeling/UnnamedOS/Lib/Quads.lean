import UnnamedOS.Lib.Bytes

/-!
# Quads in a memory of bytes

Loads and stores of eight bytes at any address, aligned or not. What is apart from a store is not
changed by it.
-/

namespace UnnamedOS.Lib

variable {m m' : ℕ → UInt8} {a b k n : ℕ} {v w : UInt64} {x : UInt8} {vs ws : List UInt64}

def read64 (m : ℕ → UInt8) (a : ℕ) : UInt64 := .ofNat (ofBytes (stretch m a 8))

def write64 (m : ℕ → UInt8) (a : ℕ) (v : UInt64) : ℕ → UInt8 := overwrite m a (toBytes 8 v.toNat)

theorem read64_congr (h : ∀ i < 8, m' (a + i) = m (a + i)) : read64 m' a = read64 m a := by
  rw [read64, read64, stretch_congr h]

@[simp] theorem read64_write64 (m : ℕ → UInt8) (a : ℕ) (v : UInt64) : read64 (write64 m a v) a = v := by
  have hstretch : stretch (write64 m a v) a 8 = toBytes 8 v.toNat := by
    have hlen := length_toBytes 8 v.toNat
    have hover := stretch_overwrite m a (toBytes 8 v.toNat)
    rwa [hlen] at hover
  have hlt : v.toNat < 256 ^ 8 := v.toNat_lt
  rw [read64, hstretch, ofBytes_toBytes, Nat.mod_eq_of_lt hlt, UInt64.ofNat_toNat]

theorem write64_apart (h : k < a ∨ a + 8 ≤ k) : write64 m a v k = m k := by
  rcases h with hlt | hge
  · exact overwrite_of_lt hlt
  · apply overwrite_of_ge
    rwa [length_toBytes]

/-- The byte at `k` depends on no other byte. -/
theorem write64_congr (h : m' k = m k) : write64 m' a v k = write64 m a v k := by
  unfold write64 overwrite
  rw [h]

/-- The quads from address `a` on. -/
def Frame (m : ℕ → UInt8) : ℕ → List UInt64 → Prop
  | _, [] => True
  | a, v :: vs => read64 m a = v ∧ Frame m (a + 8) vs

theorem Frame.congr (h : Frame m a vs) (hm : ∀ k, a ≤ k → k < a + 8 * vs.length → m' k = m k) :
    Frame m' a vs := by
  induction vs generalizing a with
  | nil => trivial
  | cons v vs ih =>
      rw [List.length_cons] at hm
      constructor
      · rw [← h.1]
        exact read64_congr fun i hi => hm (a + i) (by omega) (by omega)
      · exact ih h.2 fun k hk hk' => hm k (by omega) (by omega)

/-- A store below the frame. -/
theorem Frame.push (h : Frame m a vs) (ha : b + 8 = a) : Frame (write64 m b v) b (v :: vs) := by
  refine ⟨read64_write64 m b v, ?_⟩
  rw [ha]
  exact h.congr fun k hk _ => write64_apart (by omega)

theorem frame_append : Frame m a (vs ++ ws) ↔ Frame m a vs ∧ Frame m (a + 8 * vs.length) ws := by
  induction vs generalizing a with
  | nil => exact (and_iff_right trivial).symm
  | cons v vs ih =>
      have hlen : a + 8 + 8 * vs.length = a + 8 * (v :: vs).length := by
        rw [List.length_cons]
        omega
      rw [List.cons_append, Frame, Frame, ih, hlen, and_assoc]

/-- A memory with a frame stored at address `a`. -/
def putFrame (m : ℕ → UInt8) : ℕ → List UInt64 → ℕ → UInt8
  | _, [] => m
  | a, v :: vs => write64 (putFrame m (a + 8) vs) a v

theorem putFrame_apart (h : k < a ∨ a + 8 * vs.length ≤ k) : putFrame m a vs k = m k := by
  induction vs generalizing a with
  | nil => rfl
  | cons v vs ih =>
      rw [List.length_cons] at h
      rw [putFrame, write64_apart (by omega)]
      exact ih (by omega)

theorem frame_putFrame (m : ℕ → UInt8) (a : ℕ) (vs : List UInt64) : Frame (putFrame m a vs) a vs := by
  induction vs generalizing a with
  | nil => trivial
  | cons v vs ih => exact (ih (a + 8)).push rfl

end UnnamedOS.Lib
