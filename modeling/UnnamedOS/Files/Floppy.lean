import UnnamedOS.Files.Sectors

/-!
# Block transfers

`read` and `write` of `chs_qfs_if.c` sector by sector. A sector that passes the checks of
`floppy_read` or `floppy_write` is transferred. The loop of `write` hands its own length down to
the layer below, which takes one sector at a time.
-/

namespace UnnamedOS.Files.Floppy

open UnnamedOS.Lib

inductive Halt where
  | readDiskinv (disk : UInt64)
  | readSize (len : UInt16)
  | writeDiskinv (disk : UInt64)
  | writeSize (len : UInt16)
  | fwdl (data : UInt64)
  | frlx (len : UInt16)
  deriving DecidableEq

abbrev Sector := Fin 512 → UInt8

structure Machine where
  sectors : UInt64 → Sector
  memory : UInt64 → UInt8

def LBA_FS_BASE : UInt64 := 108

namespace Machine

variable (s : Machine)

/-- The 512 bytes at `data`. -/
def sectorAt (data : UInt64) : Sector := fun o => s.memory (data + .ofNat o)

def floppyRead (LBA : UInt64) (len : UInt16) (data : UInt64) : Except Halt Machine :=
  if len ≠ 512 then .error (.frlx len)
  else
    .ok { s with memory := fun a =>
      if h : (a - data).toNat < 512 then s.sectors LBA ⟨(a - data).toNat, h⟩ else s.memory a }

def floppyWrite (LBA : UInt64) (len : UInt16) (data : UInt64) : Except Halt Machine :=
  if data &&& 0xFFF ≠ 0 then .error (.fwdl data)
  else if len ≠ 512 then .error (.frlx len)
  else .ok { s with sectors := Function.update s.sectors LBA (s.sectorAt data) }

/-- The loop of `read` over its first `n` sectors. -/
def readSectors (LBA m : UInt64) (n : Nat) : Except Halt Machine :=
  (List.range n).foldlM
    (fun s i => s.floppyRead (LBA_FS_BASE + LBA + .ofNat i) 512 (m + .ofNat (512 * i))) s

/-- `read` into the buffer `m`, or into pages at `pages` that `KPALLOCS` gives for a `NULL`. -/
def read (pages LBA disk : UInt64) (len : UInt16) (m : UInt64) : Except Halt (UInt64 × Machine) :=
  if disk ≠ 0 then .error (.readDiskinv disk)
  else if len &&& 511 ≠ 0 then .error (.readSize len)
  else
    let m := if m = 0 then pages else m
    match s.readSectors LBA m (len.toNat / 512) with
    | .error e => .error e
    | .ok s => .ok (m, s)

def write (LBA disk : UInt64) (len : UInt16) (data : UInt64) : Except Halt Machine :=
  if disk ≠ 0 then .error (.writeDiskinv disk)
  else if len &&& 511 ≠ 0 then .error (.writeSize len)
  else
    (List.range (len.toNat / 512)).foldlM
      (fun s i => s.floppyWrite (LBA_FS_BASE + LBA + .ofNat i) len (data + .ofNat (512 * i))) s

/-- The disc as its bytes from `LBA_FS_BASE` on. -/
def disc : Disc := fun b => s.sectors (LBA_FS_BASE + .ofNat (b / 512)) ⟨b % 512, by omega⟩

end Machine

variable {s s' : Machine} {LBA m a data pages : UInt64} {len : UInt16} {n o i : Nat}

theorem foldlM_range_succ (f : Machine → Nat → Except Halt Machine) (s : Machine) (n : Nat) :
    (List.range (n + 1)).foldlM f s = (List.range n).foldlM f s >>= fun s' => f s' n := by
  rw [List.range_succ, List.foldlM_append]
  simp

theorem sub_address (m : UInt64) {o i : Nat} (ho : o < 2 ^ 32) (hi : i < 2 ^ 32) :
    (m + .ofNat o - (m + .ofNat i)).toNat = if i ≤ o then o - i else 2 ^ 64 - (i - o) := by
  have hm := m.toNat_lt
  rw [UInt64.toNat_sub, UInt64.toNat_add, UInt64.toNat_add, UInt64.toNat_ofNat', UInt64.toNat_ofNat']
  split <;> omega

/-- What `n` sectors in a row are after they have been read. -/
structure SectorsRead (s : Machine) (LBA m : UInt64) (n : Nat) (s' : Machine) : Prop where
  sectors : s'.sectors = s.sectors
  memory : ∀ o, (ho : o < 512 * n) → s'.memory (m + .ofNat o) =
    s.sectors (LBA_FS_BASE + LBA + .ofNat (o / 512)) ⟨o % 512, by omega⟩

theorem readSectors_spec (s : Machine) (LBA m : UInt64) (hn : n ≤ 127) :
    ∃ s', s.readSectors LBA m n = .ok s' ∧ SectorsRead s LBA m n s' := by
  induction n with
  | zero => exact ⟨s, rfl, rfl, fun o ho => absurd ho (Nat.not_lt_zero o)⟩
  | succ n ih =>
      obtain ⟨s₁, hs₁, h₁⟩ := ih (by omega)
      have hread : s.readSectors LBA m (n + 1) =
          s₁.floppyRead (LBA_FS_BASE + LBA + .ofNat n) 512 (m + .ofNat (512 * n)) := by
        rw [Machine.readSectors] at hs₁
        rw [Machine.readSectors, foldlM_range_succ, hs₁]
        rfl
      rw [hread, Machine.floppyRead, if_neg (by decide)]
      refine ⟨_, rfl, h₁.sectors, fun o ho => ?_⟩
      have hsub := sub_address m (o := o) (i := 512 * n) (by omega) (by omega)
      dsimp only
      by_cases hlast : 512 * n ≤ o
      · rw [if_pos hlast] at hsub
        have hdiv : o / 512 = n := by omega
        have hmod : o - 512 * n = o % 512 := by omega
        rw [dif_pos (by omega), h₁.sectors, hdiv]
        congr 2
        omega
      · rw [if_neg hlast] at hsub
        rw [dif_neg (by omega)]
        exact h₁.memory o (by omega)

/-- `read` brings the sectors into the buffer, as the bytes of the disc. -/
theorem read_ok (s : Machine) (pages LBA m : UInt64) (hm : m ≠ 0) (hlen : 512 ∣ len.toNat) :
    ∃ s', s.read pages LBA 0 len m = .ok (m, s') ∧ SectorsRead s LBA m (len.toNat / 512) s' := by
  have hlt := len.toNat_lt
  obtain ⟨s', hs', h⟩ := readSectors_spec s LBA m (n := len.toNat / 512) (by omega)
  refine ⟨s', ?_, h⟩
  rw [Machine.read, if_neg (fun h0 => h0 rfl), if_neg (fun h0 => h0 (and_sector_eq_zero hlen)),
    if_neg hm]
  dsimp only
  rw [hs']

/-- The loop does what the file system takes for a transfer, into any buffer. -/
def ReadsDisc (s : Machine) (LBA : UInt64) (len : UInt16) : Prop :=
  ∀ pages m bytes, m ≠ 0 → Files.read s.disc LBA 0 len = .ok bytes →
    ∃ s', s.read pages LBA 0 len m = .ok (m, s') ∧ s'.disc = s.disc ∧
      ∀ o, (ho : o < bytes.length) → s'.memory (m + .ofNat o) = bytes[o]

theorem read_refines (s : Machine) (LBA : UInt64) (len : UInt16) : ReadsDisc s LBA len := by
  intro pages m bytes hm hread
  have hsize : len &&& 511 = 0 := by
    by_contra hne
    rw [Files.read, if_neg (fun h0 => h0 rfl), if_pos hne] at hread
    cases hread
  have hlen : 512 ∣ len.toNat := by
    have hmod := congrArg UInt16.toNat hsize
    rw [UInt16.toNat_and] at hmod
    exact Nat.dvd_of_mod_eq_zero ((Nat.and_two_pow_sub_one_eq_mod len.toNat 9).symm.trans hmod)
  rw [read_eq hlen] at hread
  obtain rfl := Except.ok.inj hread
  obtain ⟨s', hs', h⟩ := read_ok s pages LBA m hm hlen
  refine ⟨s', hs', ?_, fun o ho => ?_⟩
  · funext b
    rw [Machine.disc, Machine.disc, h.sectors]
  · rw [length_stretch] at ho
    rw [h.memory o (by omega), getElem_stretch, Machine.disc]
    have hdiv : (512 * LBA.toNat + o) / 512 = LBA.toNat + o / 512 := by omega
    have hmod : (512 * LBA.toNat + o) % 512 = o % 512 := by omega
    simp only [hdiv, hmod, UInt64.ofNat_add, UInt64.ofNat_toNat, UInt64.add_assoc]

/-- The sectors of the range hold the data, no other sector changes, and what is read back is the
data. -/
def WritesBack (s : Machine) (LBA : UInt64) (len : UInt16) (data : UInt64) : Prop :=
  ∃ s', s.write LBA 0 len data = .ok s' ∧
    (∀ i < len.toNat / 512,
      s'.sectors (LBA_FS_BASE + LBA + .ofNat i) = s.sectorAt (data + .ofNat (512 * i))) ∧
    (∀ x, (∀ i < len.toNat / 512, x ≠ LBA_FS_BASE + LBA + .ofNat i) →
      s'.sectors x = s.sectors x) ∧
    ∀ pages m, m ≠ 0 → ∃ s'', s'.read pages LBA 0 len m = .ok (m, s'') ∧
      ∀ o < len.toNat, s''.memory (m + .ofNat o) = s.memory (data + .ofNat o)

/-- More than one sector is refused at the first. -/
theorem write_long (hlen : 512 ∣ len.toNat) (hlong : 512 < len.toNat) (hdata : data &&& 0xFFF = 0) :
    s.write LBA 0 len data = .error (.frlx len) := by
  have hne : len ≠ 512 := by
    rintro rfl
    exact absurd hlong (by decide)
  obtain ⟨k, hk⟩ : ∃ k, len.toNat / 512 = k + 1 := ⟨len.toNat / 512 - 1, by omega⟩
  have haddr : data + .ofNat (512 * 0) = data := UInt64.add_zero data
  rw [Machine.write, if_neg (fun h0 => h0 rfl), if_neg (fun h0 => h0 (and_sector_eq_zero hlen)), hk,
    List.range_succ_eq_map, List.foldlM_cons, haddr, Machine.floppyWrite,
    if_neg (fun h0 => h0 hdata), if_pos hne]
  rfl

theorem write_one (s : Machine) (LBA : UInt64) (hdata : data &&& 0xFFF = 0) :
    s.write LBA 0 512 data = .ok { s with
      sectors := Function.update s.sectors (LBA_FS_BASE + LBA) (s.sectorAt data) } := by
  have haddr : data + .ofNat (512 * 0) = data := UInt64.add_zero data
  have hLBA : LBA_FS_BASE + LBA + .ofNat 0 = LBA_FS_BASE + LBA := UInt64.add_zero _
  rw [Machine.write, if_neg (fun h0 => h0 rfl), if_neg (by decide)]
  change List.foldlM _ s [0] = _
  rw [List.foldlM_cons, haddr, hLBA, Machine.floppyWrite, if_neg (fun h0 => h0 hdata),
    if_neg (fun h0 => h0 rfl)]
  rfl

/-- A transfer of whole sectors from a page-aligned buffer is written, and read back, exactly if it
is at most one sector long. What is read is what the disc holds, for every length. -/
theorem write_back_iff (s : Machine) (LBA : UInt64) (hlen : 512 ∣ len.toNat)
    (hdata : data &&& 0xFFF = 0) :
    ReadsDisc s LBA len ∧ (WritesBack s LBA len data ↔ len.toNat ≤ 512) := by
  refine ⟨read_refines s LBA len, ?_⟩
  constructor
  · rintro ⟨s', hs', -⟩
    by_contra hlong
    rw [write_long hlen (by omega) hdata] at hs'
    cases hs'
  · intro hshort
    have hcases : len = 0 ∨ len = 512 := by
      rcases hlen with ⟨k, hk⟩
      have hk' : k = 0 ∨ k = 1 := by omega
      rcases hk' with rfl | rfl
      · exact Or.inl (UInt16.toNat_inj.mp hk)
      · exact Or.inr (UInt16.toNat_inj.mp hk)
    rcases hcases with rfl | rfl
    · refine ⟨s, rfl, fun i hi => absurd hi (Nat.not_lt_zero i), fun x _ => rfl, fun pages m hm => ?_⟩
      obtain ⟨s'', hs'', -⟩ := read_ok s pages LBA m hm hlen
      exact ⟨s'', hs'', fun o ho => absurd ho (Nat.not_lt_zero o)⟩
    · have hLBA : LBA_FS_BASE + LBA + .ofNat 0 = LBA_FS_BASE + LBA := UInt64.add_zero _
      have haddr : data + .ofNat (512 * 0) = data := UInt64.add_zero data
      have hone : (512 : UInt16).toNat / 512 = 1 := by decide
      refine ⟨_, write_one s LBA hdata, fun i hi => ?_, fun x hx => ?_, fun pages m hm => ?_⟩
      · obtain rfl : i = 0 := by omega
        rw [hLBA, haddr]
        exact Function.update_self _ _ _
      · have hne : x ≠ LBA_FS_BASE + LBA := by
          rw [← hLBA]
          exact hx 0 (by omega)
        exact Function.update_of_ne hne _ _
      · have hdvd : 512 ∣ (512 : UInt16).toNat := ⟨1, rfl⟩
        obtain ⟨s'', hs'', h⟩ := read_ok { s with
          sectors := Function.update s.sectors (LBA_FS_BASE + LBA) (s.sectorAt data) }
          pages LBA m hm hdvd
        refine ⟨s'', hs'', fun o ho => ?_⟩
        have ho512 : o < 512 := ho
        have hdiv : o / 512 = 0 := by omega
        rw [h.memory o (by omega), hdiv, hLBA]
        simp only [Function.update_self, Machine.sectorAt, Nat.mod_eq_of_lt ho512]

/-- A page that counts its bytes, to be written to sector 0. -/
def counting : Machine := ⟨fun _ _ => 0, fun a => a.toUInt8⟩

theorem write_back_sector : WritesBack counting 0 512 0x1000 :=
  (write_back_iff counting 0 ⟨1, rfl⟩ (by decide)).2.mpr (by decide)

theorem write_back_fails_on_two : 512 ∣ (1024 : UInt16).toNat ∧ (0x1000 : UInt64) &&& 0xFFF = 0 ∧
    ¬ WritesBack counting 0 1024 0x1000 := by
  refine ⟨⟨2, rfl⟩, by decide, ?_⟩
  rintro ⟨s', hs', -⟩
  have hstop : counting.write 0 0 1024 0x1000 = .error (.frlx 1024) :=
    write_long ⟨2, rfl⟩ (by decide) (by decide)
  rw [hstop] at hs'
  cases hs'

end UnnamedOS.Files.Floppy
