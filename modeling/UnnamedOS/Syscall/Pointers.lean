import UnnamedOS.Files.Sectors

/-!
# Pointers in system calls

What `INT0x80C` and the functions behind it read and write through the pointers that a program
passes: buffers, strings, and the descriptor of `exec`. A string goes on to its first zero, and
`getFileFromFilename` walks back from that zero to a slash.
-/

namespace UnnamedOS.Syscall

open UnnamedOS.Lib UnnamedOS.Files

def CBASE : UInt64 := 0x8000000000

/-- The number of addresses. -/
def addresses : Nat := 18446744073709551616

structure Region where
  start : UInt64
  len : Nat

/-- Every byte of the region is user memory. -/
def Region.Inside (r : Region) : Prop := ∀ i < r.len, r.start + .ofNat i < CBASE

/-- What an open slot of the table is, as far as a transfer depends on it. -/
inductive Stream where
  | file (chunklen position : UInt64)
  /-- A `stdIO`, with another one in `pairIn` or none. -/
  | stdio (pairIn : Bool)

structure Env where
  mem : UInt64 → UInt8
  PL : UInt8
  /-- The mask of the calling process. -/
  PM : UInt64
  brk : Bool
  kernelFd : UInt64 → Option Stream
  /-- The `ERROR` that a part of the call raises which follows none of its pointers. -/
  rest : Option Halt

/-- The regions a call touches through its pointers, or the `ERROR` it ends in. -/
abbrev Touched := Except Halt (List Region)

def VERIFY_USER (rdx : UInt64) : Except Halt UInt64 :=
  if rdx > CBASE then .error (.error .verifyUserFail rdx) else .ok rdx

/-! ## Strings -/

def strlenFrom (mem : UInt64 → UInt8) : Nat → UInt64 → Option Nat
  | 0, _ => none
  | fuel + 1, a => if mem a = 0 then some 0 else (strlenFrom mem fuel (a + 1)).map (· + 1)

/-- `none` where there is no zero at all. -/
def strlen (mem : UInt64 → UInt8) (a : UInt64) : Option Nat := strlenFrom mem addresses a

/-- The bytes of a string with its terminator. -/
def stringAt (mem : UInt64 → UInt8) (a : UInt64) : Region :=
  match strlen mem a with
  | none => ⟨a, addresses⟩
  | some n => ⟨a, n + 1⟩

/-- `while(filename[i-1] != '/') i--;` from the address `e` on: the bytes that it reads. -/
def scanBackFrom (mem : UInt64 → UInt8) : Nat → UInt64 → Option Nat
  | 0, _ => none
  | fuel + 1, e => if mem (e - 1) = 0x2f then some 1 else (scanBackFrom mem fuel (e - 1)).map (· + 1)

def scanBack (mem : UInt64 → UInt8) (e : UInt64) : Region :=
  match scanBackFrom mem addresses e with
  | none => ⟨e, addresses⟩
  | some k => ⟨e - .ofNat k, k⟩

/-- `getFileFromFilename` on a string, which is an `ERROR` where a run of slashes ends it. -/
def pathAccesses (mem : UInt64 → UInt8) (filename : UInt64) : Touched :=
  match strlen mem filename with
  | none => .ok [⟨filename, addresses⟩]
  | some n =>
    if 0 < n ∧ mem (filename + .ofNat n - 1) = 0x2f then
      .error (.error .fileDirstream filename)
    else .ok [⟨filename, n + 1⟩, scanBack mem (filename + .ofNat n)]

/-! ## The calls -/

namespace Env

variable (env : Env)

/-- The checks on a descriptor. -/
def stream (fd : UInt64) : Except Halt Stream :=
  if fd > 128 then .error (.error .fdToohigh fd)
  else
    match env.kernelFd fd with
    | none => .error (.error .fdDne fd)
    | some f => .ok f

/-- `memfill` counts down before it compares with zero. A file is read whole sectors of 16-bit
length, and into pages of the kernel's own for a null buffer. -/
def READ (fd buffer len : UInt64) : Touched := do
  match ← env.stream fd with
  | .file chunklen position =>
    if position + len > chunklen <<< 9 then .error (.error .filePastbound position)
    else if len.toUInt16 &&& 511 ≠ 0 then .error (.error .readSize len.toUInt16.toUInt64)
    else if buffer = 0 then .ok []
    else .ok [⟨buffer, len.toUInt16.toNat⟩]
  | .stdio false => .ok [⟨buffer, if len = 0 then addresses else len.toNat⟩]
  | .stdio true => .ok [⟨buffer, len.toNat⟩]

def WRITE (fd buffer len : UInt64) : Touched := do
  match ← env.stream fd with
  | .file chunklen position =>
    if position + len < chunklen <<< 9 then .ok [⟨buffer, len.toNat⟩]
    else .error (.error .fwsUnimp 0)
  | .stdio _ => .ok [⟨buffer, len.toNat⟩]

def OPEN (filename : UInt64) : Touched := pathAccesses env.mem filename

/-- A `uint64_t` in memory. -/
def quadAt (a : UInt64) : UInt64 :=
  .ofNat (ofBytes ((List.range 8).map fun i => env.mem (a + .ofNat i)))

/-- `target` is read and written without a check. -/
def VERIFY_PERMS_EXEC (target : UInt64) : Touched := do
  let chrootfname ← VERIFY_USER (env.quadAt target)
  let PM := env.quadAt (target + 8)
  if PM &&& env.PM ≠ PM then .error (.error .todoProcErr 1)
  else do
    let path ← pathAccesses env.mem chrootfname
    return ⟨target, 16⟩ :: stringAt env.mem chrootfname :: path

def exec (rsi rdx rcx : UInt64) : Touched := do
  let A ← VERIFY_USER rsi
  let argv ← VERIFY_USER rdx
  let perms ← env.VERIFY_PERMS_EXEC rcx
  return stringAt env.mem A :: stringAt env.mem argv :: perms

/-- The slot is tested without a check of the descriptor. -/
def isStdio (fd : UInt64) : Bool :=
  match env.kernelFd fd with
  | some (.stdio _) => true
  | _ => false

/-- The `switch` of `INT0x80C`. -/
def dispatch (rdi rsi rdx rcx : UInt64) : Touched :=
  match rdi.toNat with
  | 0x0 => do env.READ rsi (← VERIFY_USER rdx) rcx
  | 0x1 => do env.WRITE rsi (← VERIFY_USER rdx) rcx
  | 0x2 => do env.OPEN (← VERIFY_USER rsi)
  | 0x3 => (env.stream rsi).map fun _ => []
  | 0x4 => (env.stream rsi).map fun _ => []
  | 0x5 => if env.brk then .ok [] else .error (.error .binfmtBroken 0)
  | 0x6 => (env.stream rsi).map fun _ => []
  | 0x7 => env.exec rsi rdx rcx
  | 0x8 => if env.isStdio rsi ∧ env.isStdio rdx then .ok [] else .error (.error .mispBindh 0)
  | 0x9 => if env.PL ≠ 0x3 then .error (.error .plCleanup env.PL.toUInt64) else .ok []
  | 0xa => .ok []
  | 0xb => .ok []
  | 0xc => .ok []
  | 0xd => .ok (if env.PL = 2 then [stringAt env.mem rsi] else [])
  | 0xe => .ok (if env.PL = 2 then [stringAt env.mem rdx] else [])
  | 0xf => .ok []
  | 0x10 => (env.stream rsi).map fun _ => []
  | 0x11 => .ok []
  | 0x12 => .ok []
  | _ => .error (.error .int rdi)

def INT0x80C (rdi rsi rdx rcx : UInt64) : Touched := do
  let regions ← env.dispatch rdi rsi rdx rcx
  match env.rest with
  | some e => .error e
  | none => return regions

end Env

/-- The range that a transfer is asked for. -/
def wholeRange (rdi rdx rcx : UInt64) : List Region :=
  if rdi = 0 ∨ rdi = 1 then [⟨rdx, rcx.toNat⟩] else []

/-- A call that is not rejected stays in user memory with all that its pointers name. -/
def UserMemoryOnly (env : Env) (rdi rsi rdx rcx : UInt64) : Prop :=
  ∀ regions, env.INT0x80C rdi rsi rdx rcx = .ok regions →
    ∀ r ∈ wholeRange rdi rdx rcx ++ regions, r.Inside

/-! ## What the arguments have to be -/

def RangeBelow (a len : UInt64) : Prop := len = 0 ∨ a.toNat + len.toNat ≤ CBASE.toNat

/-- The string ends below `CBASE`. -/
def StringBelow (mem : UInt64 → UInt8) (a : UInt64) : Prop :=
  ∃ z, a.toNat ≤ z ∧ z < CBASE.toNat ∧ mem (.ofNat z) = 0

/-- The string ends below `CBASE`, and there is a slash before its end. -/
def PathBelow (mem : UInt64 → UInt8) (a : UInt64) : Prop :=
  ∃ z, a.toNat ≤ z ∧ z < CBASE.toNat ∧ mem (.ofNat z) = 0 ∧
    (∀ i, a.toNat ≤ i → i < z → mem (.ofNat i) ≠ 0) ∧ ∃ y < z, mem (.ofNat y) = 0x2f

/-- The stream is a `stdIO` that is bound to nothing. -/
def ClosedStdin (env : Env) (fd : UInt64) : Prop := env.kernelFd fd = some (.stdio false)

/-- The pointers of a call stay below `CBASE`. -/
def PointersBelow (env : Env) (rdi rsi rdx rcx : UInt64) : Prop :=
  match rdi.toNat with
  | 0x0 => RangeBelow rdx rcx ∧ (ClosedStdin env rsi → rcx ≠ 0)
  | 0x1 => RangeBelow rdx rcx
  | 0x2 => PathBelow env.mem rsi
  | 0x7 => StringBelow env.mem rsi ∧ StringBelow env.mem rdx ∧ rcx.toNat + 16 ≤ CBASE.toNat ∧
      PathBelow env.mem (env.quadAt rcx)
  | 0xd => env.PL = 2 → StringBelow env.mem rsi
  | 0xe => env.PL = 2 → StringBelow env.mem rdx
  | _ => True

/-! ## Addresses -/

variable {mem : UInt64 → UInt8} {a b e : UInt64} {n : Nat}

theorem add_ofNat (a : UInt64) (i : Nat) : a + .ofNat i = .ofNat (a.toNat + i) := by
  rw [UInt64.ofNat_add, UInt64.ofNat_toNat]

theorem sub_ofNat {j : Nat} (h : j ≤ e.toNat) : e - .ofNat j = .ofNat (e.toNat - j) := by
  rw [UInt64.ofNat_sub h, UInt64.ofNat_toNat]

theorem add_one_add (a : UInt64) (i : Nat) : a + 1 + .ofNat i = a + .ofNat (i + 1) := by
  rw [UInt64.ofNat_add, UInt64.add_assoc, UInt64.add_comm 1]
  rfl

theorem sub_one_sub (e : UInt64) (j : Nat) : e - 1 - .ofNat j = e - .ofNat (j + 1) := by
  rw [UInt64.ofNat_add]
  show e - 1 - .ofNat j = e - (.ofNat j + 1)
  grind

theorem toNat_ofNat (h : n < addresses) : (UInt64.ofNat n).toNat = n := UInt64.toNat_ofNat_of_lt' h

theorem lt_CBASE_iff : a < CBASE ↔ a.toNat < 549755813888 := UInt64.lt_iff_toNat_lt

/-- A region is user memory when it ends there; it cannot wrap around. -/
theorem inside_iff (a : UInt64) (len : Nat) :
    (Region.mk a len).Inside ↔ len = 0 ∨ a.toNat + len ≤ CBASE.toNat := by
  show (∀ i < len, a + .ofNat i < CBASE) ↔ len = 0 ∨ a.toNat + len ≤ 549755813888
  constructor
  · intro h
    by_cases hlen : len = 0
    · exact Or.inl hlen
    · refine Or.inr ?_
      by_contra hlt
      have h0 := lt_CBASE_iff.mp (h 0 (by omega))
      rw [add_ofNat, toNat_ofNat (by unfold addresses; have := a.toNat_lt; omega)] at h0
      have htop := lt_CBASE_iff.mp (h (549755813888 - a.toNat) (by omega))
      rw [add_ofNat, toNat_ofNat (by unfold addresses; omega)] at htop
      omega
  · rintro (rfl | h) i hi
    · exact absurd hi (Nat.not_lt_zero i)
    · rw [lt_CBASE_iff, add_ofNat, toNat_ofNat (by unfold addresses; omega)]
      omega

theorem strlenFrom_some {fuel : Nat} (h : strlenFrom mem fuel a = some n) :
    mem (a + .ofNat n) = 0 ∧ ∀ i < n, mem (a + .ofNat i) ≠ 0 := by
  induction fuel generalizing a n with
  | zero => cases h
  | succ fuel ih =>
      rw [strlenFrom] at h
      split at h
      · rename_i hzero
        obtain rfl := Option.some.inj h
        rw [show a + UInt64.ofNat 0 = a from UInt64.add_zero a]
        exact ⟨hzero, fun i hi => absurd hi (Nat.not_lt_zero i)⟩
      · rename_i hne
        obtain ⟨m, hm, rfl⟩ := Option.map_eq_some_iff.mp h
        obtain ⟨hend, hbefore⟩ := ih hm
        rw [add_one_add] at hend
        refine ⟨hend, fun i hi => ?_⟩
        cases i with
        | zero =>
            rw [show a + UInt64.ofNat 0 = a from UInt64.add_zero a]
            exact hne
        | succ i =>
            rw [← add_one_add]
            exact hbefore i (by omega)

theorem strlenFrom_none {fuel : Nat} (h : strlenFrom mem fuel a = none) :
    ∀ i < fuel, mem (a + .ofNat i) ≠ 0 := by
  induction fuel generalizing a with
  | zero => exact fun i hi => absurd hi (Nat.not_lt_zero i)
  | succ fuel ih =>
      rw [strlenFrom] at h
      split at h
      · cases h
      · rename_i hne
        intro i hi
        cases i with
        | zero =>
            rw [show a + UInt64.ofNat 0 = a from UInt64.add_zero a]
            exact hne
        | succ i =>
            rw [← add_one_add]
            exact ih (Option.map_eq_none_iff.mp h) i (by omega)

theorem scanBackFrom_some {fuel k : Nat} (h : scanBackFrom mem fuel e = some k) :
    0 < k ∧ k ≤ fuel ∧ mem (e - .ofNat k) = 0x2f ∧
      ∀ j, 0 < j → j < k → mem (e - .ofNat j) ≠ 0x2f := by
  induction fuel generalizing e k with
  | zero => cases h
  | succ fuel ih =>
      rw [scanBackFrom] at h
      split at h
      · rename_i hslash
        obtain rfl := Option.some.inj h
        exact ⟨by omega, by omega, hslash, fun j hj hj' => by omega⟩
      · rename_i hne
        obtain ⟨m, hm, rfl⟩ := Option.map_eq_some_iff.mp h
        obtain ⟨hpos, hle, hslash, hbefore⟩ := ih hm
        rw [sub_one_sub] at hslash
        refine ⟨by omega, by omega, hslash, fun j hj hj' => ?_⟩
        obtain ⟨i, rfl⟩ : ∃ i, j = i + 1 := ⟨j - 1, by omega⟩
        by_cases hi : i = 0
        · rw [hi]
          exact hne
        · rw [← sub_one_sub]
          exact hbefore i (by omega) (by omega)

theorem scanBackFrom_none {fuel : Nat} (h : scanBackFrom mem fuel e = none) :
    ∀ j, 0 < j → j ≤ fuel → mem (e - .ofNat j) ≠ 0x2f := by
  induction fuel generalizing e with
  | zero => exact fun j hj hj' => by omega
  | succ fuel ih =>
      rw [scanBackFrom] at h
      split at h
      · cases h
      · rename_i hne
        intro j hj hj'
        obtain ⟨i, rfl⟩ : ∃ i, j = i + 1 := ⟨j - 1, by omega⟩
        by_cases hi : i = 0
        · rw [hi]
          exact hne
        · rw [← sub_one_sub]
          exact ih (Option.map_eq_none_iff.mp h) i (by omega) (by omega)

/-! ## Strings and paths below `CBASE` -/

theorem stringAt_some (h : strlen mem a = some n) : stringAt mem a = ⟨a, n + 1⟩ := by
  rw [stringAt, h]

theorem stringAt_none (h : strlen mem a = none) : stringAt mem a = ⟨a, addresses⟩ := by
  rw [stringAt, h]

theorem not_inside_all (a : UInt64) : ¬ (Region.mk a addresses).Inside := by
  rw [inside_iff]
  show ¬ (18446744073709551616 = 0 ∨ a.toNat + 18446744073709551616 ≤ 549755813888)
  omega

/-- The end of a string below `CBASE` is the first zero. -/
theorem StringBelow.strlen_some (h : StringBelow mem a) :
    ∃ n, strlen mem a = some n ∧ a.toNat + n < CBASE.toNat := by
  obtain ⟨z, haz, hz, hzero⟩ := h
  have hz' : z < 549755813888 := hz
  have hend : mem (a + .ofNat (z - a.toNat)) = 0 := by
    rw [add_ofNat, Nat.add_sub_cancel' haz]
    exact hzero
  cases hs : strlen mem a with
  | none =>
      have hnone := strlenFrom_none hs (z - a.toNat) (by unfold addresses; omega)
      exact absurd hend hnone
  | some n =>
      refine ⟨n, rfl, ?_⟩
      by_contra hlt
      have hlt' : ¬ a.toNat + n < 549755813888 := hlt
      exact (strlenFrom_some hs).2 (z - a.toNat) (by omega) hend

theorem stringAt_inside : (stringAt mem a).Inside ↔ StringBelow mem a := by
  constructor
  · intro h
    cases hs : strlen mem a with
    | none =>
        rw [stringAt_none hs] at h
        exact absurd h (not_inside_all a)
    | some n =>
        rw [stringAt_some hs, inside_iff] at h
        refine ⟨a.toNat + n, Nat.le_add_right _ _, by omega, ?_⟩
        rw [← add_ofNat]
        exact (strlenFrom_some hs).1
  · intro h
    obtain ⟨n, hs, hn⟩ := h.strlen_some
    rw [stringAt_some hs, inside_iff]
    exact Or.inr (by omega)

/-- The walk back stays in user memory when there is a slash on its way to address 0. -/
theorem scanBack_inside (he : e.toNat < CBASE.toNat) :
    (scanBack mem e).Inside ↔ ∃ y < e.toNat, mem (.ofNat y) = 0x2f := by
  have he' : e.toNat < 549755813888 := he
  rw [scanBack]
  cases hb : scanBackFrom mem addresses e with
  | none =>
      have hnone := scanBackFrom_none hb
      refine ⟨fun h => absurd h (not_inside_all e), fun h => ?_⟩
      obtain ⟨y, hy, hslash⟩ := h
      have hmiss := hnone (e.toNat - y) (by omega) (by unfold addresses; omega)
      rw [sub_ofNat (by omega), Nat.sub_sub_self (by omega)] at hmiss
      exact absurd hslash hmiss
  | some k =>
      obtain ⟨hpos, hle, hslash, hbefore⟩ := scanBackFrom_some hb
      dsimp only
      rw [inside_iff]
      by_cases hk : k ≤ e.toNat
      · have hstart : (e - .ofNat k).toNat = e.toNat - k := by
          rw [sub_ofNat hk, toNat_ofNat (by unfold addresses; omega)]
        rw [hstart]
        refine ⟨fun _ => ⟨e.toNat - k, by omega, by rwa [← sub_ofNat hk]⟩, fun _ => Or.inr ?_⟩
        show e.toNat - k + k ≤ 549755813888
        omega
      · constructor
        · intro h
          have hsum : (e - .ofNat k).toNat + k ≤ 549755813888 :=
            h.resolve_left (Nat.ne_of_gt hpos)
          have hk64 : k < addresses := by unfold addresses; omega
          have hwrap : (e - .ofNat k).toNat = (18446744073709551616 - k + e.toNat) %
              18446744073709551616 := by
            rw [UInt64.toNat_sub, toNat_ofNat hk64]
          unfold addresses at hk64
          omega
        · rintro ⟨y, hy, hy'⟩
          have hmiss := hbefore (e.toNat - y) (by omega) (by omega)
          rw [sub_ofNat (by omega), Nat.sub_sub_self (by omega)] at hmiss
          exact absurd hy' hmiss

theorem pathAccesses_inside {regions : List Region} (h : pathAccesses mem a = .ok regions) :
    (∀ r ∈ regions, r.Inside) ↔ PathBelow mem a := by
  rw [pathAccesses] at h
  cases hs : strlen mem a with
  | none =>
      rw [hs] at h
      obtain rfl := Except.ok.inj h
      constructor
      · intro hall
        exact absurd (hall _ (List.mem_singleton.mpr rfl)) (not_inside_all a)
      · rintro ⟨z, haz, hz, hzero, -⟩
        obtain ⟨n, hn, -⟩ := StringBelow.strlen_some ⟨z, haz, hz, hzero⟩
        rw [hs] at hn
        cases hn
  | some n =>
      rw [hs] at h
      dsimp only at h
      split at h
      · cases h
      obtain rfl := Except.ok.inj h
      obtain ⟨hend, hbefore⟩ := strlenFrom_some hs
      have hstring : (Region.mk a (n + 1)).Inside ↔ a.toNat + n < CBASE.toNat := by
        rw [inside_iff]
        omega
      have hsum : a.toNat + n < CBASE.toNat → (a + .ofNat n).toNat = a.toNat + n := by
        intro hlt
        have hlt' : a.toNat + n < 549755813888 := hlt
        rw [add_ofNat, toNat_ofNat (by unfold addresses; omega)]
      rw [List.forall_mem_cons, List.forall_mem_singleton, hstring]
      constructor
      · rintro ⟨hlt, hback⟩
        rw [scanBack_inside (by rw [hsum hlt]; exact hlt), hsum hlt] at hback
        refine ⟨a.toNat + n, Nat.le_add_right _ _, hlt, by rwa [← add_ofNat], fun i hi hin => ?_, hback⟩
        have hne := hbefore (i - a.toNat) (by omega)
        rwa [add_ofNat, Nat.add_sub_cancel' hi] at hne
      · rintro ⟨z, haz, hz, hzero, hfirst, y, hy, hslash⟩
        have hz' : z < 549755813888 := hz
        obtain ⟨m, hm, hlt⟩ := StringBelow.strlen_some ⟨z, haz, hz, hzero⟩
        obtain rfl := Option.some.inj (hs.symm.trans hm)
        have hzn : z = a.toNat + n := by
          rcases Nat.lt_trichotomy z (a.toNat + n) with hlt' | heq | hgt
          · have hne := hbefore (z - a.toNat) (by omega)
            rw [add_ofNat, Nat.add_sub_cancel' haz] at hne
            exact absurd hzero hne
          · exact heq
          · have hne := hfirst (a.toNat + n) (by omega) hgt
            rw [← add_ofNat] at hne
            exact absurd hend hne
        refine ⟨hlt, ?_⟩
        rw [scanBack_inside (by rw [hsum hlt]; exact hlt), hsum hlt]
        exact ⟨y, by omega, hslash⟩

/-! ## The calls one by one -/

section Calls

variable {env : Env} {fd buffer len rdi rsi rdx rcx : UInt64} {regions : List Region}

theorem verified (h : VERIFY_USER a = .ok b) : b = a := by
  rw [VERIFY_USER] at h
  split at h
  · cases h
  · exact (Except.ok.inj h).symm

theorem rangeBelow_iff : RangeBelow buffer len ↔ (Region.mk buffer len.toNat).Inside := by
  rw [inside_iff, RangeBelow]
  show len = 0 ∨ _ ↔ len.toNat = (0 : UInt64).toNat ∨ _
  rw [UInt64.toNat_inj]

theorem stream_ok {f : Stream} (h : env.stream fd = .ok f) : env.kernelFd fd = some f := by
  rw [Env.stream] at h
  split at h
  · cases h
  · split at h
    · cases h
    · rename_i hf
      rw [hf, Except.ok.inj h]

/-- A part of a region that is user memory. -/
theorem Region.Inside.take {m : Nat} (h : (Region.mk a n).Inside) (hm : m ≤ n) :
    (Region.mk a m).Inside := fun i hi => h i (Nat.lt_of_lt_of_le hi hm)

theorem READ_inside (h : env.READ fd buffer len = .ok regions) :
    (∀ r ∈ ⟨buffer, len.toNat⟩ :: regions, r.Inside) ↔
      RangeBelow buffer len ∧ (ClosedStdin env fd → len ≠ 0) := by
  unfold Env.READ at h
  cases hf : env.stream fd with
  | error e =>
      rw [hf] at h
      cases h
  | ok f =>
      rw [hf] at h
      have hslot := stream_ok hf
      simp only [bind, Except.bind] at h
      rw [List.forall_mem_cons, rangeBelow_iff]
      cases f with
      | file chunklen position =>
          have hopen : ¬ ClosedStdin env fd := by
            rw [ClosedStdin, hslot]
            simp
          have hpart : (Region.mk buffer len.toNat).Inside →
              (Region.mk buffer len.toUInt16.toNat).Inside := by
            intro hwhole
            refine hwhole.take ?_
            rw [UInt64.toNat_toUInt16]
            exact Nat.mod_le _ _
          dsimp only at h
          split at h
          · cases h
          · split at h
            · cases h
            · split at h
              · obtain rfl := Except.ok.inj h
                simp [hopen]
              · obtain rfl := Except.ok.inj h
                rw [List.forall_mem_singleton]
                exact ⟨fun hi => ⟨hi.1, fun hc => absurd hc hopen⟩, fun hi => ⟨hi.1, hpart hi.1⟩⟩
      | stdio pairIn =>
          cases pairIn with
          | false =>
              obtain rfl := Except.ok.inj h
              have hclosed : ClosedStdin env fd := hslot
              rw [List.forall_mem_singleton]
              by_cases hlen : len = 0
              · rw [if_pos hlen]
                exact ⟨fun hi => absurd hi.2 (not_inside_all buffer),
                  fun hi => absurd hlen (hi.2 hclosed)⟩
              · rw [if_neg hlen]
                exact ⟨fun hi => ⟨hi.1, fun _ => hlen⟩, fun hi => ⟨hi.1, hi.1⟩⟩
          | true =>
              obtain rfl := Except.ok.inj h
              have hopen : ¬ ClosedStdin env fd := by
                rw [ClosedStdin, hslot]
                simp
              rw [List.forall_mem_singleton]
              exact ⟨fun hi => ⟨hi.1, fun hc => absurd hc hopen⟩, fun hi => ⟨hi.1, hi.1⟩⟩

theorem WRITE_inside (h : env.WRITE fd buffer len = .ok regions) :
    (∀ r ∈ ⟨buffer, len.toNat⟩ :: regions, r.Inside) ↔ RangeBelow buffer len := by
  have hregions : regions = [⟨buffer, len.toNat⟩] := by
    unfold Env.WRITE at h
    cases hf : env.stream fd with
    | error e =>
        rw [hf] at h
        cases h
    | ok f =>
        rw [hf] at h
        simp only [bind, Except.bind] at h
        cases f with
        | file chunklen position =>
            dsimp only at h
            split at h
            · exact (Except.ok.inj h).symm
            · cases h
        | stdio pairIn => exact (Except.ok.inj h).symm
  rw [hregions, rangeBelow_iff, List.forall_mem_cons, List.forall_mem_singleton, and_self]

theorem VERIFY_PERMS_EXEC_ok (h : env.VERIFY_PERMS_EXEC a = .ok regions) :
    ∃ path, pathAccesses env.mem (env.quadAt a) = .ok path ∧
      regions = ⟨a, 16⟩ :: stringAt env.mem (env.quadAt a) :: path := by
  unfold Env.VERIFY_PERMS_EXEC at h
  obtain ⟨chrootfname, hname, hrest⟩ := bind_ok h
  obtain rfl := verified hname
  dsimp only at hrest
  split at hrest
  · cases hrest
  · obtain ⟨path, hpath, hlist⟩ := bind_ok hrest
    exact ⟨path, hpath, (Except.ok.inj hlist).symm⟩

theorem exec_inside (h : env.exec rsi rdx rcx = .ok regions) :
    (∀ r ∈ regions, r.Inside) ↔ StringBelow env.mem rsi ∧ StringBelow env.mem rdx ∧
      rcx.toNat + 16 ≤ CBASE.toNat ∧ PathBelow env.mem (env.quadAt rcx) := by
  unfold Env.exec at h
  obtain ⟨A, hA, h2⟩ := bind_ok h
  obtain ⟨argv, hargv, h3⟩ := bind_ok h2
  obtain ⟨perms, hperms, h4⟩ := bind_ok h3
  obtain ⟨path, hpath, rfl⟩ := VERIFY_PERMS_EXEC_ok hperms
  obtain rfl := Except.ok.inj h4
  obtain rfl := verified hA
  obtain rfl := verified hargv
  have hdesc : (Region.mk rcx 16).Inside ↔ rcx.toNat + 16 ≤ CBASE.toNat := by
    rw [inside_iff]
    exact or_iff_right (by decide)
  have hstring : PathBelow env.mem (env.quadAt rcx) → StringBelow env.mem (env.quadAt rcx) := by
    rintro ⟨z, haz, hz, hzero, -⟩
    exact ⟨z, haz, hz, hzero⟩
  rw [List.forall_mem_cons, List.forall_mem_cons, List.forall_mem_cons, List.forall_mem_cons,
    stringAt_inside, stringAt_inside, stringAt_inside, hdesc, pathAccesses_inside hpath]
  constructor
  · rintro ⟨h1, h2, h3, -, h5⟩
    exact ⟨h1, h2, h3, h5⟩
  · rintro ⟨h1, h2, h3, h5⟩
    exact ⟨h1, h2, h3, hstring h5, h5⟩

theorem INT0x80C_ok :
    env.INT0x80C rdi rsi rdx rcx = .ok regions ↔
      env.dispatch rdi rsi rdx rcx = .ok regions ∧ env.rest = none := by
  unfold Env.INT0x80C
  constructor
  · intro h
    obtain ⟨touched, htouched, hlast⟩ := bind_ok h
    cases hrest : env.rest with
    | some e =>
        rw [hrest] at hlast
        cases hlast
    | none =>
        rw [hrest] at hlast
        obtain rfl := Except.ok.inj hlast
        exact ⟨htouched, rfl⟩
  · rintro ⟨h, hrest⟩
    rw [h, hrest]
    rfl

/-- The descriptor calls and the others that pass no pointer on. -/
theorem no_pointers (h : (env.stream fd).map (fun _ => ([] : List Region)) = .ok regions) :
    regions = [] := by
  cases hf : env.stream fd with
  | error e =>
      rw [hf] at h
      cases h
  | ok f =>
      rw [hf] at h
      exact (Except.ok.inj h).symm

theorem INT0x80C_inside (h : env.INT0x80C rdi rsi rdx rcx = .ok regions) :
    (∀ r ∈ wholeRange rdi rdx rcx ++ regions, r.Inside) ↔ PointersBelow env rdi rsi rdx rcx := by
  have hd := (INT0x80C_ok.mp h).1
  have h0 : rdi = 0 ↔ rdi.toNat = 0 := UInt64.toNat_inj.symm
  have h1 : rdi = 1 ↔ rdi.toNat = 1 := UInt64.toNat_inj.symm
  simp only [wholeRange, h0, h1]
  rw [Env.dispatch] at hd
  rw [PointersBelow]
  clear h h0 h1
  generalize rdi.toNat = n at hd ⊢
  split at hd
  case h_1 =>
    obtain ⟨buffer, hbuffer, hread⟩ := bind_ok hd
    obtain rfl := verified hbuffer
    exact READ_inside hread
  case h_2 =>
    obtain ⟨buffer, hbuffer, hwrite⟩ := bind_ok hd
    obtain rfl := verified hbuffer
    exact WRITE_inside hwrite
  case h_3 =>
    obtain ⟨filename, hfilename, hopen⟩ := bind_ok hd
    obtain rfl := verified hfilename
    exact pathAccesses_inside hopen
  case h_4 | h_5 | h_7 | h_17 =>
    obtain rfl := no_pointers hd
    simp
  case h_6 =>
    split at hd
    · obtain rfl := Except.ok.inj hd
      simp
    · cases hd
  case h_8 => exact exec_inside hd
  case h_9 =>
    split at hd
    · obtain rfl := Except.ok.inj hd
      simp
    · cases hd
  case h_10 =>
    split at hd
    · cases hd
    · obtain rfl := Except.ok.inj hd
      simp
  case h_11 | h_12 | h_13 | h_16 | h_18 | h_19 =>
    obtain rfl := Except.ok.inj hd
    simp
  case h_14 | h_15 =>
    obtain rfl := Except.ok.inj hd
    by_cases hPL : env.PL = 2 <;> simp [hPL, stringAt_inside]
  case h_20 => cases hd

end Calls

/-- A program whose descriptor 0 is a pipe. -/
def pipedProcess : Env where
  mem := fun _ => 0
  PL := 3
  PM := 0
  brk := true
  kernelFd := fun fd => if fd = 0 then some (.stdio true) else none
  rest := none

end UnnamedOS.Syscall
