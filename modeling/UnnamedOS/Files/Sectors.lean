import UnnamedOS.Lib.Bytes
import UnnamedOS.Lib.Effects

/-!
# Sectors and inodes

The block transfers of `chs_qfs_if.c` and what `qfs.c` builds on them. A disc is its bytes from
`LBA_FS_BASE` on, and a transfer moves exactly the bytes it is asked for. Page allocation always
succeeds here, and a copy of an inode is a value.
-/

namespace UnnamedOS.Files

open UnnamedOS.Lib

/-- The members of `enum ERROR_CODES` that these files raise. -/
inductive ErrorCode where
  | filePastbound | fileDirstream | fdToohigh | fdDne | writeDiskinv | readDiskinv
  | filestreamRw | readSize | writeSize | verifyUserFail | plCleanup | mispBindh | int
  | binfmtBroken | fwsUnimp | todoProcErr | devNf | other (code : Nat)
  deriving DecidableEq

inductive Halt where
  | error (code : ErrorCode) (type : UInt64)
  /-- A signed computation leaves its type, which C does not define. -/
  | overflow
  deriving DecidableEq

abbrev Disc := Nat → UInt8

structure Inode where
  chunkaddr1 : UInt64
  chunklen : UInt64
  perms : UInt16
  owner : UInt8
  group : UInt8
  timestamp : UInt64
  name : Vector UInt8 32
  deriving DecidableEq

def sizeofInode : Nat := 60

/-- A packed inode, as it lies on the disc. -/
def Inode.ofPacked (b : List UInt8) : Inode where
  chunkaddr1 := .ofNat (ofBytes (b.take 8))
  chunklen := .ofNat (ofBytes ((b.drop 8).take 8))
  perms := .ofNat (ofBytes ((b.drop 16).take 2))
  owner := b.getD 18 0
  group := b.getD 19 0
  timestamp := .ofNat (ofBytes ((b.drop 20).take 8))
  name := Vector.ofFn fun i : Fin 32 => b.getD (28 + i) 0

def Inode.packed (n : Inode) : List UInt8 :=
  toBytes 8 n.chunkaddr1.toNat ++ toBytes 8 n.chunklen.toNat ++ toBytes 2 n.perms.toNat
    ++ [n.owner, n.group] ++ toBytes 8 n.timestamp.toNat ++ n.name.toList

/-- `read` of `chs_qfs_if.c`: what it puts into the buffer. -/
def read (disc : Disc) (LBA disk : UInt64) (len : UInt16) : Except Halt (List UInt8) :=
  if disk ≠ 0 then .error (.error .readDiskinv disk)
  else if len &&& 511 ≠ 0 then .error (.error .readSize len.toUInt64)
  else .ok (stretch disc (512 * LBA.toNat) len.toNat)

/-- `write` of `chs_qfs_if.c`, from a buffer of at least `len` bytes. -/
def write (disc : Disc) (LBA disk : UInt64) (len : UInt16) (data : List UInt8) :
    Except Halt Disc :=
  if disk ≠ 0 then .error (.error .writeDiskinv disk)
  else if len &&& 511 ≠ 0 then .error (.error .writeSize len.toUInt64)
  else .ok (overwrite disc (512 * LBA.toNat) (data.take len.toNat))

/-- An `int`, kept as its bits, where a `uint64_t` is expected. -/
def widen (i : UInt32) : UInt64 := i.toInt32.toInt64.toUInt64

/-- `(1+(lba2-lba1))<<9` on `int`s, where a `uint16_t` is expected. -/
def spanLength (lba1 lba2 : UInt32) : UInt16 := ((1 + (lba2 - lba1)) <<< 9).toUInt16

def readPLUS (disc : Disc) (offset size drive : UInt64) : Except Halt (List UInt8) := do
  let lba1 := (offset >>> 9).toUInt32
  let lba2 := ((offset + size) >>> 9).toUInt32
  let buffer2 ← read disc (widen lba1) drive (spanLength lba1 lba2)
  return (buffer2.drop (offset &&& 0x1ff).toNat).take size.toNat

/-- The read after the write only refills the buffer. -/
def writePLUS (disc : Disc) (offset : UInt64) (data : List UInt8) (size drive : UInt64) :
    Except Halt Disc := do
  let lba1 := (offset >>> 9).toUInt32
  let lba2 := ((offset + size) >>> 9).toUInt32
  let buffer2 ← read disc (widen lba1) drive (spanLength lba1 lba2)
  let disc' ← write disc (widen lba1) drive (spanLength lba1 lba2)
    (splice buffer2 (offset &&& 0x1ff).toNat (data.take size.toNat))
  let _ ← read disc' (widen lba1) drive (spanLength lba1 lba2)
  return disc'

def InodeRead (disc : Disc) (n : Inode) (position len : UInt64) : Except Halt (List UInt8) :=
  if position + len > n.chunklen <<< 9 then .error (.error .filePastbound position)
  else read disc (n.chunkaddr1 + (position >>> 9)) 0 len.toUInt16

theorem length_packed (n : Inode) : n.packed.length = sizeofInode := by
  simp only [Inode.packed, List.length_append, length_toBytes, List.length_cons, List.length_nil,
    Vector.length_toList]
  rfl

theorem field_of_append {before field after : List UInt8} {i w : Nat} (hi : before.length = i)
    (hw : field.length = w) : ((before ++ (field ++ after)).drop i).take w = field := by
  rw [List.drop_left' hi, List.take_left' hw]

theorem ofNat_ofBytes_toBytes (x : UInt64) : UInt64.ofNat (ofBytes (toBytes 8 x.toNat)) = x := by
  have hx : x.toNat < 256 ^ 8 := Nat.lt_of_lt_of_eq x.toNat_lt (by decide)
  rw [ofBytes_toBytes, Nat.mod_eq_of_lt hx, UInt64.ofNat_toNat]

theorem Inode.ofPacked_packed (n : Inode) : Inode.ofPacked n.packed = n := by
  obtain ⟨a, l, p, o, g, t, name⟩ := n
  have hperms : UInt16.ofNat (ofBytes (toBytes 2 p.toNat)) = p := by
    have hx : p.toNat < 256 ^ 2 := Nat.lt_of_lt_of_eq p.toNat_lt (by decide)
    rw [ofBytes_toBytes, Nat.mod_eq_of_lt hx, UInt16.ofNat_toNat]
  have h8 := fun x : UInt64 => length_toBytes 8 x.toNat
  have h2 := length_toBytes 2 p.toNat
  simp only [Inode.packed, Inode.ofPacked, List.append_assoc, Inode.mk.injEq]
  refine ⟨?_, ?_, ?_, ?_, ?_, ?_, ?_⟩
  · rw [List.take_left' (h8 a), ofNat_ofBytes_toBytes]
  · rw [field_of_append (h8 a) (h8 l), ofNat_ofBytes_toBytes]
  · rw [← List.append_assoc, field_of_append (by rw [List.length_append, h8, h8]) h2, hperms]
  · simp [h8, h2]
  · simp [h8, h2]
  · rw [← List.append_assoc, ← List.append_assoc, ← List.append_assoc,
      field_of_append (by simp [h8, h2]) (h8 t), ofNat_ofBytes_toBytes]
  · apply Vector.ext
    intro i hi
    rw [← List.append_assoc, ← List.append_assoc, ← List.append_assoc, ← List.append_assoc,
      Vector.getElem_ofFn, List.getD_append_right _ _ _ _ (by simp [h8, h2])]
    simp [h8, h2]
    rw [Vector.getElem?_eq_getElem hi]
    rfl

theorem toNat_shiftRight_nine (x : UInt64) : (x >>> 9).toNat = x.toNat / 512 := by
  rw [UInt64.toNat_shiftRight, Nat.shiftRight_eq_div_pow]
  rfl

theorem toNat_shiftLeft_nine (x : UInt64) :
    (x <<< 9).toNat = x.toNat * 512 % 18446744073709551616 := by
  rw [UInt64.toNat_shiftLeft, Nat.shiftLeft_eq]
  rfl

theorem toNat_and_sector (x : UInt64) : (x &&& 0x1ff).toNat = x.toNat % 512 := by
  rw [UInt64.toNat_and]
  exact Nat.and_two_pow_sub_one_eq_mod x.toNat 9

theorem and_sector_eq_zero {len : UInt16} (h : 512 ∣ len.toNat) : len &&& 511 = 0 := by
  rw [← UInt16.toNat_inj, UInt16.toNat_and]
  exact (Nat.and_two_pow_sub_one_eq_mod len.toNat 9).trans (Nat.mod_eq_zero_of_dvd h)

theorem widen_toNat {i : UInt32} (h : i.toNat < 2147483648) : (widen i).toNat = i.toNat := by
  unfold widen
  have hmsb : i.toBitVec.msb = false := by
    rw [BitVec.msb_eq_false_iff_two_mul_lt]
    have : i.toBitVec.toNat = i.toNat := rfl
    omega
  show (BitVec.signExtend 64 i.toBitVec).toNat = _
  rw [BitVec.signExtend_eq_setWidth_of_msb_false hmsb, BitVec.toNat_setWidth]
  have := i.toNat_lt
  have h2 : i.toBitVec.toNat = i.toNat := rfl
  omega

theorem spanLength_toNat {a b : UInt32} (hab : a.toNat ≤ b.toNat)
    (h : b.toNat - a.toNat < 127) : (spanLength a b).toNat = 512 * (b.toNat - a.toNat + 1) := by
  unfold spanLength
  have hb := b.toNat_lt
  rw [UInt32.toNat_toUInt16, UInt32.toNat_shiftLeft, Nat.shiftLeft_eq, UInt32.toNat_add,
    UInt32.toNat_sub_of_le b a (UInt32.le_iff_toNat_le.mpr hab)]
  show (1 + (b.toNat - a.toNat)) % 4294967296 * 512 % 4294967296 % 65536 = _
  omega

theorem read_eq {disc : Disc} {LBA : UInt64} {len : UInt16} (h : 512 ∣ len.toNat) :
    read disc LBA 0 len = .ok (stretch disc (512 * LBA.toNat) len.toNat) := by
  rw [read, if_neg (fun h0 => h0 rfl), if_neg (fun h0 => h0 (and_sector_eq_zero h))]

theorem write_eq {disc : Disc} {LBA : UInt64} {len : UInt16} {data : List UInt8}
    (h : 512 ∣ len.toNat) :
    write disc LBA 0 len data = .ok (overwrite disc (512 * LBA.toNat) (data.take len.toNat)) := by
  rw [write, if_neg (fun h0 => h0 rfl), if_neg (fun h0 => h0 (and_sector_eq_zero h))]

theorem write_ok {disc disc' : Disc} {LBA disk : UInt64} {len : UInt16} {data : List UInt8}
    (h : write disc LBA disk len data = .ok disc') :
    disk = 0 ∧ disc' = overwrite disc (512 * LBA.toNat) (data.take len.toNat) := by
  rw [write] at h
  split at h
  · cases h
  · rename_i hdisk
    split at h
    · cases h
    · exact ⟨Decidable.not_not.mp hdisk, (Except.ok.inj h).symm⟩

/-- Writing back what has been read, with something copied over it. -/
theorem write_splice {disc : Disc} {LBA : UInt64} {len : UInt16} {data : List UInt8} {i : Nat}
    (h : 512 ∣ len.toNat) (hroom : i + data.length ≤ len.toNat) :
    write disc LBA 0 len (splice (stretch disc (512 * LBA.toNat) len.toNat) i data) =
      .ok (overwrite disc (512 * LBA.toNat + i) data) := by
  have hlen : (splice (stretch disc (512 * LBA.toNat) len.toNat) i data).length = len.toNat := by
    rw [length_splice (by rw [length_stretch]; exact hroom), length_stretch]
  rw [write, if_neg (fun h0 => h0 rfl), if_neg (fun h0 => h0 (and_sector_eq_zero h)),
    List.take_of_length_le (Nat.le_of_eq hlen), overwrite_splice hroom]

/-- A read of whole sectors from a sector boundary. -/
theorem InodeRead_eq {disc : Disc} {k : Inode} {p len : UInt64}
    (hin : p.toNat + len.toNat ≤ (k.chunklen <<< 9).toNat) (hp : 512 ∣ p.toNat)
    (hlen : 512 ∣ len.toNat) (h16 : len.toNat < 65536)
    (haddr : k.chunkaddr1.toNat + p.toNat / 512 < 18446744073709551616) :
    InodeRead disc k p len =
      .ok (stretch disc (512 * k.chunkaddr1.toNat + p.toNat) len.toNat) := by
  have hsum : (p + len).toNat = p.toNat + len.toNat := by
    have := (k.chunklen <<< 9).toNat_lt
    rw [UInt64.toNat_add, Nat.mod_eq_of_lt (by omega)]
  have hbound : ¬ p + len > k.chunklen <<< 9 := by
    rw [gt_iff_lt, UInt64.lt_iff_toNat_lt, hsum]
    omega
  have hsector : (k.chunkaddr1 + (p >>> 9)).toNat = k.chunkaddr1.toNat + p.toNat / 512 := by
    rw [UInt64.toNat_add, toNat_shiftRight_nine, Nat.mod_eq_of_lt haddr]
  have hnarrow : len.toUInt16.toNat = len.toNat := by
    rw [UInt64.toNat_toUInt16, Nat.mod_eq_of_lt h16]
  have hstart : 512 * (k.chunkaddr1.toNat + p.toNat / 512) = 512 * k.chunkaddr1.toNat + p.toNat := by
    omega
  rw [InodeRead, if_neg hbound, read_eq (by rw [hnarrow]; exact hlen), hsector, hnarrow, hstart]

theorem InodeRead_nothing {disc : Disc} {k : Inode} {p : UInt64}
    (hin : p.toNat ≤ (k.chunklen <<< 9).toNat) : InodeRead disc k p 0 = .ok [] := by
  have hbound : ¬ p + (0 : UInt64) > k.chunklen <<< 9 := by
    rw [UInt64.add_zero, gt_iff_lt, UInt64.lt_iff_toNat_lt]
    omega
  rw [InodeRead, if_neg hbound, read_eq (by exact Nat.dvd_zero 512)]
  rfl

/-- The first and the last sector of a span that starts in the first 2^40 bytes and ends there. -/
theorem spanSectors_toNat {offset size : UInt64}
    (hint : offset.toNat + size.toNat < 1099511627776) :
    ((offset >>> 9).toUInt32).toNat = offset.toNat / 512 ∧
      (((offset + size) >>> 9).toUInt32).toNat = (offset.toNat + size.toNat) / 512 := by
  have hsum : (offset + size).toNat = offset.toNat + size.toNat := by
    rw [UInt64.toNat_add, Nat.mod_eq_of_lt (by omega)]
  constructor
  · rw [UInt64.toNat_toUInt32, toNat_shiftRight_nine, Nat.mod_eq_of_lt (by omega)]
  · rw [UInt64.toNat_toUInt32, toNat_shiftRight_nine, hsum, Nat.mod_eq_of_lt (by omega)]

/-- The bytes asked for, out of the sectors that hold them. -/
theorem readPLUS_eq {disc : Disc} {offset size : UInt64}
    (hspan : offset.toNat % 512 + size.toNat < 65024)
    (hint : offset.toNat + size.toNat < 1099511627776) :
    readPLUS disc offset size 0 = .ok (stretch disc offset.toNat size.toNat) := by
  obtain ⟨hfirst, hlast⟩ := spanSectors_toNat hint
  have hlen := spanLength_toNat (a := (offset >>> 9).toUInt32)
    (b := ((offset + size) >>> 9).toUInt32) (by omega) (by omega)
  rw [hfirst, hlast] at hlen
  have hstart : 512 * (offset.toNat / 512) + offset.toNat % 512 = offset.toNat := by omega
  unfold readPLUS
  simp only [read_eq ⟨_, hlen⟩, toNat_and_sector, widen_toNat (i := (offset >>> 9).toUInt32) (by omega),
    hfirst, hlen, bind, Except.bind, pure, Except.pure]
  rw [take_drop_stretch (by omega), hstart]

theorem writePLUS_of_span {disc : Disc} {offset size : UInt64} {data : List UInt8}
    (hdata : data.length = size.toNat)
    (hdvd : 512 ∣ (spanLength (offset >>> 9).toUInt32 ((offset + size) >>> 9).toUInt32).toNat)
    (hroom : offset.toNat % 512 + data.length ≤
      (spanLength (offset >>> 9).toUInt32 ((offset + size) >>> 9).toUInt32).toNat) :
    writePLUS disc offset data size 0 = .ok (overwrite disc
      (512 * (widen (offset >>> 9).toUInt32).toNat + offset.toNat % 512) data) := by
  have htake : data.take size.toNat = data := by rw [← hdata, List.take_length]
  unfold writePLUS
  simp only [read_eq hdvd, toNat_and_sector, htake, bind, Except.bind, write_splice hdvd hroom,
    pure, Except.pure]

/-- Read, copy over, write back: nothing but the data changes. -/
theorem writePLUS_eq {disc : Disc} {offset size : UInt64} {data : List UInt8}
    (hdata : data.length = size.toNat) (hspan : offset.toNat % 512 + size.toNat < 65024)
    (hint : offset.toNat + size.toNat < 1099511627776) :
    writePLUS disc offset data size 0 = .ok (overwrite disc offset.toNat data) := by
  obtain ⟨hfirst, hlast⟩ := spanSectors_toNat hint
  have hlen := spanLength_toNat (a := (offset >>> 9).toUInt32)
    (b := ((offset + size) >>> 9).toUInt32) (by omega) (by omega)
  rw [hfirst, hlast] at hlen
  rw [writePLUS_of_span hdata ⟨_, hlen⟩ (by omega), widen_toNat (by omega), hfirst]
  have hstart : 512 * (offset.toNat / 512) + offset.toNat % 512 = offset.toNat := by omega
  rw [hstart]

/-- Nothing to write still costs a sector, wherever it is. -/
theorem writePLUS_nothing {disc : Disc} {offset : UInt64} :
    writePLUS disc offset [] 0 0 = .ok disc := by
  have hsum : offset + 0 = offset := UInt64.add_zero offset
  have hlen := spanLength_toNat (a := (offset >>> 9).toUInt32) (b := (offset >>> 9).toUInt32)
    (Nat.le_refl _) (by omega)
  rw [writePLUS_of_span rfl (by rw [hsum]; exact ⟨_, hlen⟩)
    (by rw [hsum, hlen, List.length_nil]; omega), overwrite_nil]

end UnnamedOS.Files
