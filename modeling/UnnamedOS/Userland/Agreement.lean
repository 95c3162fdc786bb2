import UnnamedOS.Userland.Splitting

/-!
# The count and the arguments

A program is started with the count of `splitc` and the array of `splitv`.
-/

namespace UnnamedOS.Userland.Arguments

open UnnamedOS.Lib

/-- A string without its terminator. -/
structure Text where
  bytes : List UInt8
  noZero : 0 ∉ bytes

def Block.Terminated (b : Block) : Prop := ∃ i < b.size, b.data i = 0

/-- Whatever is in new blocks, `splitv` ends within the string and stores the counted entries, each
a string, and no other. -/
def Agree (s : Text) : Prop :=
  ∀ contents, ∃ argv, splitv contents (splitc s.bytes) s.bytes = .ok argv ∧
    (∀ k < splitc s.bytes, ∃ b, argv k = some b ∧ b.Terminated) ∧
    ∀ k, splitc s.bytes ≤ k → argv k = none

/-- Between the cuts, and in front of the first and behind the last, there is something. -/
def Text.Full (s : Text) : Prop := ∃ ps, pieces .closed s.bytes = some ps ∧ ∀ w ∈ words ps, w ≠ []

variable {contents : Nat → Nat → UInt8} {s : Text} {ps : List (Piece UInt8)} {w : List UInt8}
  {ws : List (List UInt8)} {b : Block} {argv : Nat → Option Block} {k : Nat}

theorem Block.Holds.terminated (h : b.Holds w) : b.Terminated := ⟨w.length, h.1, h.2.2⟩

/-- A new block need not end anywhere. -/
theorem filled_ones (h : Filled (fun _ _ => 1) b w) (hb : b.Terminated) : w ≠ [] := by
  intro hnil
  rcases h with ⟨-, m, rfl⟩ | ⟨hne, -⟩
  · obtain ⟨i, -, hzero⟩ := hb
    have hone : (1 : UInt8) = 0 := hzero
    exact absurd hone (by decide)
  · exact hne hnil

theorem squeezed_le (ps : List (Piece UInt8)) :
    (words (squeeze ps)).length ≤ (words ps).length := by
  rw [words, words, List.length_cons, List.length_cons]
  exact Nat.succ_le_succ (laterWords_squeeze ps).length_le

/-- The entries are those of the words that are left of the runs of spaces. -/
theorem splitv_counted (contents : Nat → Nat → UInt8) (h : pieces .closed s.bytes = some ps) :
    ∃ argv, splitv contents (splitc s.bytes) s.bytes = .ok argv ∧
      (∀ k, (hk : k < (words (squeeze ps)).length) →
        ∃ b, argv k = some b ∧ Filled contents b (words (squeeze ps))[k]) ∧
      ∀ k, (words (squeeze ps)).length ≤ k → argv k = none := by
  have hroom : (words (squeeze ps)).length ≤ splitc s.bytes := by
    rw [splitc_eq h]
    exact squeezed_le ps
  obtain ⟨argv, hok, hstored⟩ := splitv_spec contents h hroom
  refine ⟨argv, hok, fun k hk => ?_, fun k hk => hstored.none (by omega)⟩
  obtain ⟨b, hb, hfilled⟩ := hstored.entry hk
  rw [Nat.zero_add] at hb
  exact ⟨b, hb, hfilled⟩

theorem Text.Full.agree (h : s.Full) : Agree s := by
  obtain ⟨ps, hps, hne⟩ := h
  obtain ⟨hlen, hwords⟩ := (words_squeeze_iff ps).mpr hne
  intro contents
  obtain ⟨argv, hok, hentries, hnone⟩ := splitv_counted contents hps
  have hcount : splitc s.bytes = (words (squeeze ps)).length := (splitc_eq hps).trans hlen.symm
  refine ⟨argv, hok, fun k hk => ?_, fun k hk => hnone k (hcount ▸ hk)⟩
  have hk' : k < (words (squeeze ps)).length := hcount ▸ hk
  obtain ⟨b, hb, hfilled⟩ := hentries k hk'
  exact ⟨b, hb, (hfilled.holds (hwords _ (List.getElem_mem hk'))).terminated⟩

theorem Agree.full (h : Agree s) : s.Full := by
  obtain ⟨argv, hok, hin, -⟩ := h fun _ _ => 1
  cases hps : pieces .closed s.bytes with
  | none => exact absurd hok (splitv_never hps)
  | some ps =>
      obtain ⟨argv', hok', hentries, hnone⟩ := splitv_counted (fun _ _ => 1) hps
      obtain rfl : argv = argv' := Except.ok.inj (hok.symm.trans hok')
      rw [splitc_eq hps] at hin
      have hle : (words ps).length ≤ (words (squeeze ps)).length := by
        by_contra hlt
        obtain ⟨b, hb, -⟩ := hin _ (Nat.lt_of_not_le hlt)
        rw [hnone _ (Nat.le_refl _)] at hb
        cases hb
      have hlen := Nat.le_antisymm (squeezed_le ps) hle
      refine ⟨ps, hps, (words_squeeze_iff ps).mp ⟨hlen, fun w hw => ?_⟩⟩
      obtain ⟨k, hk, rfl⟩ := List.getElem_of_mem hw
      obtain ⟨b, hb, hfilled⟩ := hentries k hk
      obtain ⟨b', hb', hend⟩ := hin k (hlen ▸ hk)
      obtain rfl : b = b' := Option.some.inj (hb.symm.trans hb')
      exact filled_ones hfilled hend

/-- The count and the array agree exactly when no part of the string is empty and no backslash
outside of quotes is the last byte. -/
theorem arguments_agree_iff (s : Text) : Agree s ↔ s.Full := by
  constructor
  · exact Agree.full
  · exact Text.Full.agree

/-- Two spaces between `a` and `b`: the count is three, and the third entry holds no pointer. -/
theorem two_spaces_leave_entry : ¬ ∀ s : Text, Agree s := by
  intro h
  obtain ⟨argv, hok, hin, -⟩ := h ⟨[0x61, space, space, 0x62], by decide⟩ fun _ _ => 0
  obtain ⟨b, hb, -⟩ := hin 2 (by decide)
  have hthird : (splitv (fun _ _ => 0) 3 [0x61, space, space, 0x62]).map (fun argv => argv 2) =
      .ok none := rfl
  have hmap := congrArg (Except.map fun argv => argv 2) hok
  rw [Except.map, hb] at hmap
  cases hthird.symm.trans hmap

end UnnamedOS.Userland.Arguments
