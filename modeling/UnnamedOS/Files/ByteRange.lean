import UnnamedOS.Files.Sectors

/-!
# Byte ranges and their buffers

`readPLUS` and `writePLUS` with the memory they work in: the caller's data, the pages that
`KPALLOCS` gives them and the bytes they put into these pages.
-/

namespace UnnamedOS.Files

open UnnamedOS.Lib

abbrev Memory := Nat → UInt8

/-- `lba2-lba1+1` as an `int`. -/
def spanSectors (lba1 lba2 : UInt32) : Int := (lba2 - lba1 + 1).toInt32.toInt

/-- The argument of `KPALLOCS` and `P_FREES`. -/
def bufferPages (lba1 lba2 : UInt32) : Int :=
  (spanSectors lba1 lba2 >>> (3 : Nat)) + if spanSectors lba1 lba2 % 8 ≠ 0 then 1 else 0

/-- `read` into the buffer at `m`. -/
def readInto (disc : Disc) (memory : Memory) (LBA disk : UInt64) (len : UInt16) (m : Nat) :
    Except Halt Memory := do
  let bytes ← read disc LBA disk len
  return overwrite memory m bytes

/-- `write` from the buffer at `data`. -/
def writeFrom (disc : Disc) (memory : Memory) (LBA disk : UInt64) (len : UInt16) (data : Nat) :
    Except Halt Disc :=
  write disc LBA disk len (stretch memory data len.toNat)

def memcpy (memory : Memory) (dest src count : Nat) : Memory :=
  overwrite memory dest (stretch memory src count)

/-- `readPLUS` with the pages at `buffer2` that `KPALLOCS` returned. -/
def readPLUSInto (disc : Disc) (memory : Memory) (offset size drive : UInt64)
    (buffer buffer2 : Nat) : Except Halt Memory := do
  let lba1 := (offset >>> 9).toUInt32
  let lba2 := ((offset + size) >>> 9).toUInt32
  let memory ← readInto disc memory (widen lba1) drive (spanLength lba1 lba2) buffer2
  return memcpy memory buffer (buffer2 + (offset &&& 0x1ff).toNat) size.toNat

/-- `writePLUS` with the pages at `buffer2` that `KPALLOCS` returned. -/
def writePLUSFrom (disc : Disc) (memory : Memory) (offset size drive : UInt64)
    (data buffer2 : Nat) : Except Halt (Disc × Memory) := do
  let lba1 := (offset >>> 9).toUInt32
  let lba2 := ((offset + size) >>> 9).toUInt32
  let memory ← readInto disc memory (widen lba1) drive (spanLength lba1 lba2) buffer2
  let memory := memcpy memory (buffer2 + (offset &&& 0x1ff).toNat) data size.toNat
  let disc ← writeFrom disc memory (widen lba1) drive (spanLength lba1 lba2) buffer2
  let memory ← readInto disc memory (widen lba1) drive (spanLength lba1 lba2) buffer2
  return (disc, memory)

/-- The sectors from that of `offset` to that of `offset+size` are on a disc of `sectors` sectors,
and one transfer moves them. -/
structure Spans (sectors : Nat) (offset size : UInt64) : Prop where
  onDisc : (offset.toNat + size.toNat) / 512 < sectors
  few : (offset.toNat + size.toNat) / 512 - offset.toNat / 512 + 1 ≤ 127

variable {disc : Disc} {memory : Memory} {offset size : UInt64} {sectors a data buffer buffer2 : Nat}

/-- What the shifts compute for such a range. -/
structure SpanOf (offset size : UInt64) (len : Nat) : Prop where
  lba1 : (widen (offset >>> 9).toUInt32).toNat = offset.toNat / 512
  span : (spanLength (offset >>> 9).toUInt32 ((offset + size) >>> 9).toUInt32).toNat = len
  sectors : 512 ∣ len
  room : offset.toNat % 512 + size.toNat ≤ len
  pages : (len : Int) ≤ 4096 * bufferPages (offset >>> 9).toUInt32 ((offset + size) >>> 9).toUInt32

theorem spanSectors_eq (lba1 lba2 : UInt32) (hle : lba1.toNat ≤ lba2.toNat)
    (h : lba2.toNat - lba1.toNat < 127) :
    spanSectors lba1 lba2 = (lba2.toNat - lba1.toNat + 1 : Nat) := by
  have hb := lba2.toNat_lt
  have hn : (lba2 - lba1 + 1).toNat = lba2.toNat - lba1.toNat + 1 := by
    rw [UInt32.toNat_add, UInt32.toNat_sub_of_le lba2 lba1 (UInt32.le_iff_toNat_le.mpr hle)]
    show (lba2.toNat - lba1.toNat + 1) % 4294967296 = _
    omega
  have hmsb : 2 * (lba2 - lba1 + 1).toBitVec.toNat < 2 ^ 32 := by
    change 2 * (lba2 - lba1 + 1).toNat < 2 ^ 32
    omega
  rw [spanSectors]
  change (lba2 - lba1 + 1).toBitVec.toInt = _
  rw [BitVec.toInt_eq_toNat_of_lt hmsb]
  exact congrArg Nat.cast hn

theorem Spans.spanOf (hs : Spans sectors offset size) (hdisc : sectors ≤ 2 ^ 31) :
    ∃ len, SpanOf offset size len := by
  have hon := hs.onDisc
  have hfew := hs.few
  have hint : offset.toNat + size.toNat < 1099511627776 := by omega
  obtain ⟨hfirst, hlast⟩ := spanSectors_toNat hint
  have hlen := spanLength_toNat (a := (offset >>> 9).toUInt32)
    (b := ((offset + size) >>> 9).toUInt32) (by omega) (by omega)
  have hspan := spanSectors_eq (offset >>> 9).toUInt32 ((offset + size) >>> 9).toUInt32
    (by omega) (by omega)
  rw [hfirst, hlast] at hlen hspan
  refine ⟨_, ?_, hlen, ⟨_, rfl⟩, by omega, ?_⟩
  · rw [widen_toNat (by omega), hfirst]
  · rw [bufferPages, hspan, Int.shiftRight_eq_div_pow]
    split <;> omega

/-- A read into the buffer stays in its pages. -/
theorem SpanOf.read {len : Nat} (h : SpanOf offset size len) (disc : Disc) (memory : Memory)
    (m : Nat) :
    readInto disc memory (widen (offset >>> 9).toUInt32) 0
      (spanLength (offset >>> 9).toUInt32 ((offset + size) >>> 9).toUInt32) m =
        .ok (overwrite memory m (stretch disc (512 * (offset.toNat / 512)) len)) := by
  rw [readInto, read_eq (by rw [h.span]; exact h.sectors), h.lba1, h.span]
  rfl

/-- Memory that is not in the pages at `buffer2` that the range gets. -/
def OutsideBuffer (offset size : UInt64) (buffer2 a : Nat) : Prop :=
  a < buffer2 ∨
    buffer2 + 4096 * bufferPages (offset >>> 9).toUInt32 ((offset + size) >>> 9).toUInt32 ≤ (a : Int)

theorem SpanOf.outside {n i : Nat} (h : SpanOf offset size n) (ha : OutsideBuffer offset size buffer2 a)
    {bytes : List UInt8} (hin : i + bytes.length ≤ n) :
    overwrite memory (buffer2 + i) bytes a = memory a := by
  have hpages := h.pages
  rcases ha with hlt | hge
  · exact overwrite_of_lt (by omega)
  · exact overwrite_of_ge (by omega)

theorem SpanOf.outside_start {n : Nat} (h : SpanOf offset size n)
    (ha : OutsideBuffer offset size buffer2 a) {bytes : List UInt8} (hin : bytes.length ≤ n) :
    overwrite memory buffer2 bytes a = memory a :=
  h.outside (i := 0) ha (by omega)

/-- The sectors in the buffer with `bytes` copied over them. -/
theorem stretch_copied {n i : Nat} (memory : Memory) (m : Nat) {sectors bytes : List UInt8}
    (hn : sectors.length = n)
    (hin : i + bytes.length ≤ n) :
    stretch (overwrite (overwrite memory m sectors) (m + i) bytes) m n = splice sectors i bytes := by
  have hback : stretch (overwrite memory m sectors) m n = sectors := by
    rw [← hn]
    exact stretch_overwrite memory m sectors
  have hlen : (splice sectors i bytes).length = n := by
    rw [length_splice (by omega), hn]
  rw [← overwrite_splice (n := n) hin, hback]
  conv_lhs => rw [← hlen]
  exact stretch_overwrite _ m _

theorem SpanOf.write {n : Nat} (h : SpanOf offset size n) {bytes : List UInt8} {m : Nat}
    (hlen : bytes.length = size.toNat)
    (hmem : stretch memory m n =
      splice (stretch disc (512 * (offset.toNat / 512)) n) (offset.toNat % 512) bytes) :
    writeFrom disc memory (widen (offset >>> 9).toUInt32) 0
      (spanLength (offset >>> 9).toUInt32 ((offset + size) >>> 9).toUInt32) m =
        .ok (overwrite disc offset.toNat bytes) := by
  have hstart : 512 * (offset.toNat / 512) + offset.toNat % 512 = offset.toNat := by omega
  have hroom := h.room
  have hput : ∀ {LBA : UInt64} {len : UInt16}, LBA.toNat = offset.toNat / 512 → len.toNat = n →
      Files.write disc LBA 0 len (stretch memory m n) = .ok (overwrite disc offset.toNat bytes) := by
    intro LBA len hLBA hn
    subst hn
    rw [hmem, ← hLBA, write_splice h.sectors (by omega), hLBA, hstart]
  rw [writeFrom, h.span]
  exact hput h.lba1 h.span

/-- What `writePLUS` does to the disc and to memory. -/
theorem writePLUSFrom_eq {n : Nat} (disc : Disc) (memory : Memory) (h : SpanOf offset size n)
    (hfar : ∀ i < size.toNat, OutsideBuffer offset size buffer2 (data + i)) :
    ∃ memory', writePLUSFrom disc memory offset size 0 data buffer2 =
        .ok (overwrite disc offset.toNat (stretch memory data size.toNat), memory') ∧
      ∀ a, OutsideBuffer offset size buffer2 a → memory' a = memory a := by
  have hsize : (stretch memory data size.toNat).length = size.toNat := length_stretch
  have hroom := h.room
  have hsame : ∀ {sectors : List UInt8}, sectors.length = n →
      stretch (overwrite memory buffer2 sectors) data size.toNat =
        stretch memory data size.toNat := by
    intro sectors hn
    apply stretch_congr
    intro i hi
    exact h.outside_start (hfar i hi) (by omega)
  have hsectors : (stretch disc (512 * (offset.toNat / 512)) n).length = n := length_stretch
  have hcopied := stretch_copied memory buffer2 hsectors
    (show offset.toNat % 512 + (stretch memory data size.toNat).length ≤ n by rw [hsize]; exact hroom)
  unfold writePLUSFrom
  simp only [h.read, bind, Except.bind, memcpy, toNat_and_sector, hsame length_stretch,
    h.write hsize hcopied, pure, Except.pure]
  refine ⟨_, rfl, fun a ha => ?_⟩
  have hlen : ∀ disc₁ : Disc, (stretch disc₁ (512 * (offset.toNat / 512)) n).length ≤ n :=
    fun disc₁ => Nat.le_of_eq length_stretch
  rw [h.outside_start ha (hlen _), h.outside ha (by rw [hsize]; exact hroom),
    h.outside_start ha (hlen _)]

theorem readPLUSInto_eq {n : Nat} (h : SpanOf offset size n) :
    ∃ memory', readPLUSInto disc memory offset size 0 buffer buffer2 = .ok memory' ∧
      stretch memory' buffer size.toNat = stretch disc offset.toNat size.toNat := by
  have hstart : 512 * (offset.toNat / 512) + offset.toNat % 512 = offset.toNat := by omega
  have hroom := h.room
  have hbytes : stretch (overwrite memory buffer2 (stretch disc (512 * (offset.toNat / 512)) n))
      (buffer2 + offset.toNat % 512) size.toNat = stretch disc offset.toNat size.toNat := by
    have hall := stretch_overwrite memory buffer2 (stretch disc (512 * (offset.toNat / 512)) n)
    rw [length_stretch] at hall
    rw [← take_drop_stretch hroom, hall, take_drop_stretch hroom, hstart]
  unfold readPLUSInto
  simp only [h.read, bind, Except.bind, memcpy, toNat_and_sector, hbytes, pure, Except.pure]
  refine ⟨_, rfl, ?_⟩
  have hback := stretch_overwrite
    (overwrite memory buffer2 (stretch disc (512 * (offset.toNat / 512)) n)) buffer
    (stretch disc offset.toNat size.toNat)
  rwa [length_stretch] at hback

/-- A write of a byte range changes these bytes of the disc and no others, and memory only in the
buffer's pages; a read of a byte range brings its bytes. -/
theorem byte_range_update (disc : Disc) (memory : Memory) (hdisc : sectors ≤ 2 ^ 31)
    (hs : Spans sectors offset size)
    (hfar : ∀ i < size.toNat, OutsideBuffer offset size buffer2 (data + i)) :
    ∃ disc' memory', writePLUSFrom disc memory offset size 0 data buffer2 = .ok (disc', memory') ∧
      stretch disc' offset.toNat size.toNat = stretch memory data size.toNat ∧
      (∀ a, a < offset.toNat ∨ offset.toNat + size.toNat ≤ a → disc' a = disc a) ∧
      (∀ a, OutsideBuffer offset size buffer2 a → memory' a = memory a) ∧
      ∀ (disc₁ : Disc) memory₁ offset₁ size₁ buffer buffer₁, Spans sectors offset₁ size₁ →
        ∃ memory₂, readPLUSInto disc₁ memory₁ offset₁ size₁ 0 buffer buffer₁ = .ok memory₂ ∧
          stretch memory₂ buffer size₁.toNat = stretch disc₁ offset₁.toNat size₁.toNat := by
  obtain ⟨n, h⟩ := hs.spanOf hdisc
  obtain ⟨memory', hw, hmem⟩ := writePLUSFrom_eq disc memory h hfar
  have hsize : (stretch memory data size.toNat).length = size.toNat := length_stretch
  refine ⟨_, memory', hw, ?_, ?_, hmem, ?_⟩
  · have hback := stretch_overwrite disc offset.toNat (stretch memory data size.toNat)
    rwa [hsize] at hback
  · rintro a (hlt | hge)
    · exact overwrite_of_lt hlt
    · exact overwrite_of_ge (by rw [hsize]; exact hge)
  · intro disc₁ memory₁ offset₁ size₁ buffer buffer₁ hs₁
    obtain ⟨n₁, h₁⟩ := hs₁.spanOf hdisc
    exact readPLUSInto_eq h₁

/-- A range of 600 bytes that ends on a sector boundary, on a floppy disc. -/
theorem byte_range_600 : ∃ disc' memory',
    writePLUSFrom (fun _ => 0) (fun a => .ofNat a) 424 600 0 100 8192 = .ok (disc', memory') ∧
      stretch disc' 424 600 = stretch (fun a => .ofNat a) 100 600 := by
  have hs : Spans 2880 424 600 := ⟨by decide, by decide⟩
  have hfar : ∀ i < (600 : UInt64).toNat, OutsideBuffer 424 600 8192 (100 + i) := by
    intro i hi
    have hlt : i < 600 := hi
    exact Or.inl (by omega)
  obtain ⟨disc', memory', hw, hbytes, -⟩ := byte_range_update (fun _ => 0) (fun a => .ofNat a)
    (by decide) hs hfar
  exact ⟨disc', memory', hw, hbytes⟩

end UnnamedOS.Files
