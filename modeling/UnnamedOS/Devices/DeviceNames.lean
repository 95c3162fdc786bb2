import Mathlib.Data.Nat.Find
import Mathlib.Logic.Function.Basic
import UnnamedOS.Lib.CString

/-!
# The name in a path of a device

`getStreamDescriptor` copies the last component of a path to a block of the heap, and `openDEV` and
`dOpen` compare what is there. `strcpy` stops in front of the terminator.
-/

namespace UnnamedOS.Devices

open UnnamedOS.Lib

/-- `for(int i = 0; from[i]; i++) to[i] = from[i];`, for as many rounds as there are characters. -/
def strcpyFrom (source : CString) : Nat → Nat → (Nat → UInt8) → Nat → UInt8
  | 0, _, dest => dest
  | n + 1, i, dest =>
    if source.byte i = 0 then dest
    else strcpyFrom source n (i + 1) (Function.update dest i (source.byte i))

def strcpy (dest : Nat → UInt8) (source : CString) : Nat → UInt8 :=
  strcpyFrom source source.strlen 0 dest

/-- The difference of two `char`s. -/
def charDiff (a b : UInt8) : Int := a.toInt8.toInt - b.toInt8.toInt

/-- `strcmp`, which does not get beyond the end of its second string. -/
def strcmpFrom (a : Nat → UInt8) (b : CString) : Nat → Nat → Int
  | 0, i => charDiff (a i) (b.byte i)
  | n + 1, i =>
    if a i ≠ 0 ∧ b.byte i ≠ 0 then
      if charDiff (a i) (b.byte i) ≠ 0 then charDiff (a i) (b.byte i) else strcmpFrom a b n (i + 1)
    else charDiff (a i) (b.byte i)

def strcmp (a : Nat → UInt8) (b : CString) : Int := strcmpFrom a b b.strlen 0

/-- `while(name[i] != '/' && i>0) i--;` -/
def backToSlash (name : CString) : Nat → Nat
  | 0 => 0
  | i + 1 => if name.byte (i + 1) ≠ 0x2f then backToSlash name i else i + 1

/-- Where the copied part begins: the two lines behind `strlen`. -/
def nameIndex (name : CString) : Nat :=
  let i := backToSlash name name.strlen
  if i ≠ 0 then i + 1 else i

variable {name : CString} {block args : Nat → UInt8} {i n : Nat}

theorem backToSlash_le (name : CString) (n : Nat) : backToSlash name n ≤ n := by
  induction n with
  | zero => exact Nat.le_refl 0
  | succ n ih =>
      rw [backToSlash]
      split
      · exact Nat.le_succ_of_le ih
      · exact Nat.le_refl _

/-- The scan ends at the last slash, or at the start. -/
theorem backToSlash_spec (name : CString) (n : Nat) :
    (backToSlash name n = 0 ∨ name.byte (backToSlash name n) = 0x2f) ∧
      ∀ j, backToSlash name n < j → j ≤ n → name.byte j ≠ 0x2f := by
  induction n with
  | zero => exact ⟨.inl rfl, fun j hj hj' => absurd (Nat.lt_of_lt_of_le hj hj') (Nat.lt_irrefl _)⟩
  | succ n ih =>
      rw [backToSlash]
      by_cases hslash : name.byte (n + 1) = 0x2f
      · rw [if_neg (not_not.mpr hslash)]
        exact ⟨.inr hslash, fun j hj hj' => absurd (Nat.lt_of_lt_of_le hj hj') (Nat.lt_irrefl _)⟩
      · rw [if_pos hslash]
        refine ⟨ih.1, fun j hj hj' => ?_⟩
        rcases Nat.le_succ_iff.mp hj' with hle | rfl
        · exact ih.2 j hj hle
        · exact hslash

theorem nameIndex_le (name : CString) : nameIndex name ≤ name.strlen := by
  have hle := backToSlash_le name name.strlen
  unfold nameIndex
  dsimp only
  split
  · rename_i hpos
    rcases Nat.lt_or_eq_of_le hle with hlt | heq
    · exact hlt
    · rcases (backToSlash_spec name name.strlen).1 with hzero | hslash
      · exact absurd hzero hpos
      · rw [heq, name.byte_strlen] at hslash
        exact absurd hslash (by decide)
  · exact hle

/-- The `arguments` of the descriptor, in a block that `malloc` returned with these contents. -/
def getStreamDescriptor (name : CString) (block : Nat → UInt8) : Nat → UInt8 :=
  strcpy block (name.drop (nameIndex name) (nameIndex_le name))

/-- The index behind the last slash, 0 if there is none. -/
def componentStart (name : CString) : Nat :=
  Nat.findGreatest (fun i => 0 < i ∧ name.byte (i - 1) = 0x2f) name.strlen

theorem componentStart_le (name : CString) : componentStart name ≤ name.strlen :=
  Nat.findGreatest_le _

/-- The part of the path behind its last slash. -/
def component (name : CString) : CString := name.drop (componentStart name) (componentStart_le name)

/-- `arguments` is the component, up to its terminator, and compares as it does. -/
structure Survives (args : Nat → UInt8) (component : CString) : Prop where
  copied : ∀ k ≤ component.strlen, args k = component.byte k
  compared : ∀ d : CString, strcmp args d = 0 ↔ ∀ k ≤ d.strlen, component.byte k = d.byte k

/-! ## Copying and comparing -/

theorem strcpyFrom_spec (source : CString) (dest : Nat → UInt8) (h : i + n = source.strlen) (j : Nat) :
    strcpyFrom source n i dest j = if i ≤ j ∧ j < source.strlen then source.byte j else dest j := by
  induction n generalizing i dest with
  | zero => rw [strcpyFrom, if_neg (by omega)]
  | succ n ih =>
      rw [strcpyFrom, if_neg (CString.byte_ne_zero (by omega)), ih _ (by omega)]
      by_cases hj : j = i
      · subst hj
        rw [if_neg (by omega), if_pos (by omega), Function.update_self]
      · rw [Function.update_of_ne hj]
        by_cases hrange : i ≤ j ∧ j < source.strlen
        · rw [if_pos (by omega), if_pos hrange]
        · rw [if_neg (by omega), if_neg hrange]

theorem strcpy_eq (dest : Nat → UInt8) (source : CString) (j : Nat) :
    strcpy dest source j = if j < source.strlen then source.byte j else dest j := by
  rw [strcpy, strcpyFrom_spec source dest (Nat.zero_add _)]
  simp

theorem charDiff_eq_zero {a b : UInt8} : charDiff a b = 0 ↔ a = b := by
  rw [charDiff, Int.sub_eq_zero, Int8.toInt_inj]
  constructor
  · intro h
    simpa using congrArg Int8.toUInt8 h
  · rintro rfl
    rfl

theorem strcmpFrom_eq_zero (a : Nat → UInt8) (b : CString) (h : i + n = b.strlen) :
    strcmpFrom a b n i = 0 ↔ ∀ k, i ≤ k → k ≤ b.strlen → a k = b.byte k := by
  induction n generalizing i with
  | zero =>
      rw [strcmpFrom, charDiff_eq_zero]
      constructor
      · intro heq k hk hk'
        obtain rfl : k = i := by omega
        exact heq
      · exact fun hall => hall i (Nat.le_refl i) (by omega)
  | succ n ih =>
      have hb : b.byte i ≠ 0 := CString.byte_ne_zero (by omega)
      rw [strcmpFrom]
      by_cases heq : a i = b.byte i
      · rw [if_pos ⟨heq ▸ hb, hb⟩, if_neg (not_not.mpr (charDiff_eq_zero.mpr heq)), ih (by omega)]
        constructor
        · intro hall k hk hk'
          rcases Nat.eq_or_lt_of_le hk with rfl | hlt
          · exact heq
          · exact hall k hlt hk'
        · exact fun hall k hk hk' => hall k (by omega) hk'
      · refine iff_of_false ?_ fun hall => heq (hall i (Nat.le_refl i) (by omega))
        have hdiff : charDiff (a i) (b.byte i) ≠ 0 := fun hz => heq (charDiff_eq_zero.mp hz)
        split
        · exact hdiff
        · exact hdiff

theorem strcmp_eq_zero (a : Nat → UInt8) (b : CString) :
    strcmp a b = 0 ↔ ∀ k ≤ b.strlen, a k = b.byte k := by
  rw [strcmp, strcmpFrom_eq_zero a b (Nat.zero_add _)]
  exact ⟨fun h k hk => h k (Nat.zero_le k) hk, fun h k _ hk => h k hk⟩

/-- Two strings that agree up to the terminator of one end at the same place. -/
theorem agree_iff {s : CString} (h : ∀ k ≤ s.strlen, args k = s.byte k) (d : CString) :
    (∀ k ≤ d.strlen, args k = d.byte k) ↔ ∀ k ≤ d.strlen, s.byte k = d.byte k := by
  constructor
  · intro hall k hk
    rcases Nat.lt_or_ge s.strlen k with hlt | hle
    · have hend : d.byte s.strlen = 0 := by
        rw [← hall s.strlen (by omega), h s.strlen (Nat.le_refl _), s.byte_strlen]
      exact absurd hend (CString.byte_ne_zero (by omega))
    · rw [← h k hle, hall k hk]
  · intro hall k hk
    rcases Nat.lt_or_ge s.strlen k with hlt | hle
    · have hend : d.byte s.strlen = 0 := by
        rw [← hall s.strlen (by omega), s.byte_strlen]
      exact absurd hend (CString.byte_ne_zero (by omega))
    · rw [h k hle, hall k hk]

theorem survives_iff_copied {s : CString} :
    Survives args s ↔ ∀ k ≤ s.strlen, args k = s.byte k :=
  ⟨fun h => h.copied, fun h => ⟨h, fun d => (strcmp_eq_zero args d).trans (agree_iff h d)⟩⟩

/-! ## Paths -/

/-- The copy begins behind the last slash, but for one that begins the path. -/
theorem nameIndex_eq (name : CString) :
    nameIndex name = if componentStart name = 1 then 0 else componentStart name := by
  obtain ⟨hslash, hafter⟩ := backToSlash_spec name name.strlen
  have hle := nameIndex_le name
  generalize hj : backToSlash name name.strlen = j at hslash hafter
  have hindex : nameIndex name = if j ≠ 0 then j + 1 else j := by
    rw [nameIndex, hj]
  by_cases hpos : j = 0
  · subst hpos
    have hnone : ∀ i, 1 < i → i ≤ name.strlen → ¬ (0 < i ∧ name.byte (i - 1) = 0x2f) :=
      fun i hi hi' h => hafter (i - 1) (by omega) (by omega) h.2
    rw [hindex, if_neg (by simp)]
    by_cases hfirst : name.byte 0 = 0x2f
    · have hlen : 1 ≤ name.strlen := by
        rcases Nat.eq_zero_or_pos name.strlen with hzero | hpos
        · have hend := name.byte_strlen
          rw [hzero, hfirst] at hend
          exact absurd hend (by decide)
        · exact hpos
      have hstart : componentStart name = 1 :=
        Nat.findGreatest_eq_iff.mpr ⟨hlen, fun _ => ⟨Nat.one_pos, hfirst⟩, fun i => hnone i⟩
      rw [if_pos hstart]
    · have hstart : componentStart name = 0 := by
        refine Nat.findGreatest_eq_iff.mpr ⟨Nat.zero_le _, fun h => absurd rfl h, fun i hi hi' h => ?_⟩
        rcases Nat.eq_or_lt_of_le hi with heq | hlt
        · obtain rfl : i = 1 := heq.symm
          exact hfirst h.2
        · exact hnone i hlt hi' h
      rw [hstart]
      rfl
  · rw [if_pos hpos] at hindex
    have hslash' : name.byte j = 0x2f := hslash.resolve_left hpos
    have hstart : componentStart name = j + 1 :=
      Nat.findGreatest_eq_iff.mpr ⟨hindex ▸ hle, fun _ => ⟨Nat.succ_pos j, hslash'⟩,
        fun i hi hi' h => hafter (i - 1) (by omega) (by omega) h.2⟩
    rw [hindex, hstart, if_neg (by omega)]

theorem getStreamDescriptor_eq (h : componentStart name ≠ 1) (block : Nat → UInt8) :
    getStreamDescriptor name block = strcpy block (component name) := by
  have hindex := nameIndex_eq name
  rw [if_neg h] at hindex
  unfold getStreamDescriptor component
  congr 2

/-- A path whose last slash is its first byte is copied with the slash. -/
theorem first_slash_copied (h : componentStart name = 1) (block : Nat → UInt8) :
    getStreamDescriptor name block 0 = 0x2f ∧ (component name).byte 0 ≠ 0x2f := by
  obtain ⟨hlen, hP, hmax⟩ := Nat.findGreatest_eq_iff.mp h
  obtain ⟨-, hfirst⟩ := hP Nat.one_ne_zero
  have hindex := nameIndex_eq name
  rw [if_pos h] at hindex
  constructor
  · rw [getStreamDescriptor, strcpy_eq, CString.strlen_drop, if_pos (by omega)]
    change name.byte (nameIndex name + 0) = 0x2f
    rw [hindex]
    exact hfirst
  · intro hslash
    change name.byte (componentStart name + 0) = 0x2f at hslash
    rw [h] at hslash
    have hlong : 2 ≤ name.strlen := by
      rcases Nat.eq_or_lt_of_le hlen with heq | hlt
      · have hend := name.byte_strlen
        rw [← heq] at hend
        rw [hend] at hslash
        exact absurd hslash (by decide)
      · exact hlt
    exact hmax (by decide : 1 < 2) hlong ⟨by decide, hslash⟩

/-! ## What is opened -/

inductive Opened where
  | tty
  | device (i : Nat)
  | ERR_DEV_NF
  deriving DecidableEq

/-- The loop over `DEVICE_LIST`, up to `LAST_DEVICE`. -/
def dOpenFrom (name : Nat → UInt8) : List CString → Nat → Opened
  | [], _ => .ERR_DEV_NF
  | DEV_NAME :: devices, i =>
    if strcmp name DEV_NAME = 0 then .device i else dOpenFrom name devices (i + 1)

def openDEV (DEVICE_LIST : List CString) (name : Nat → UInt8) : Opened :=
  if strcmp name (.ofList [0x74, 0x74, 0x79]) = 0 then .tty else dOpenFrom name DEVICE_LIST 0

/-- A name that survives opens what it would open where it stands in the path. -/
theorem openDEV_survives {s : CString} (h : Survives args s) (DEVICE_LIST : List CString) :
    openDEV DEVICE_LIST args = openDEV DEVICE_LIST s.byte := by
  have hsame : ∀ d, strcmp args d = 0 ↔ strcmp s.byte d = 0 := fun d =>
    (h.compared d).trans (strcmp_eq_zero s.byte d).symm
  have hfrom : ∀ i, dOpenFrom args DEVICE_LIST i = dOpenFrom s.byte DEVICE_LIST i := by
    induction DEVICE_LIST with
    | nil => exact fun i => rfl
    | cons d devices ih =>
        intro i
        rw [dOpenFrom, dOpenFrom, ih (i + 1)]
        simp only [hsame]
  unfold openDEV
  rw [hfrom 0]
  simp only [hsame]

/-- The name in `arguments` is the one asked for, and opens what it should, exactly if the last slash
of the path is not its first byte and the block has a zero where the name ends. -/
theorem device_name_survives_iff (name : CString) (block : Nat → UInt8) :
    (Survives (getStreamDescriptor name block) (component name) ∧
        ∀ DEVICE_LIST, openDEV DEVICE_LIST (getStreamDescriptor name block) =
          openDEV DEVICE_LIST (component name).byte) ↔
      componentStart name ≠ 1 ∧ block (component name).strlen = 0 := by
  rw [and_iff_left_of_imp fun h => openDEV_survives h, survives_iff_copied]
  constructor
  · intro h
    have hstart : componentStart name ≠ 1 := by
      intro hone
      obtain ⟨hslash, hne⟩ := first_slash_copied hone block
      exact hne ((h 0 (Nat.zero_le _)).symm.trans hslash)
    have hend := h (component name).strlen (Nat.le_refl _)
    rw [getStreamDescriptor_eq hstart, strcpy_eq, if_neg (Nat.lt_irrefl _),
      CString.byte_strlen] at hend
    exact ⟨hstart, hend⟩
  · rintro ⟨hstart, hend⟩ k hk
    rw [getStreamDescriptor_eq hstart, strcpy_eq]
    rcases Nat.lt_or_eq_of_le hk with hlt | rfl
    · rw [if_pos hlt]
    · rw [if_neg (Nat.lt_irrefl _), hend, CString.byte_strlen]

/-- `"/dev/tty"` -/
def ttyPath : CString := .ofList [0x2f, 0x64, 0x65, 0x76, 0x2f, 0x74, 0x74, 0x79]

/-- The block was used before, for something without a zero at its fourth byte. -/
theorem used_block_spoils_name :
    ¬ Survives (getStreamDescriptor ttyPath fun _ => 0x78) (component ttyPath) := by
  intro h
  have hlen : ttyPath.strlen = 8 := CString.strlen_ofList (by simp)
  have hstart : componentStart ttyPath ≠ 1 := by
    rw [componentStart, hlen]
    decide
  have hend := h.copied (component ttyPath).strlen (Nat.le_refl _)
  rw [getStreamDescriptor_eq hstart, strcpy_eq, if_neg (Nat.lt_irrefl _), CString.byte_strlen] at hend
  exact absurd hend (by decide)

end UnnamedOS.Devices
