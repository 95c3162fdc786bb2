import UnnamedOS.Files.Sectors

/-!
# Open files

`READ`, `WRITE`, `SEEK` and `TELL` on the streams of regular files, against what such a stream is
for: an array of bytes with a cursor. A read moves whole sectors from a sector boundary and a
length of 16 bits; a write rewrites the sectors it touches, with sector numbers that are `int`s.
-/

namespace UnnamedOS.Files

open UnnamedOS.Lib

/-- A `stream` whose function is `FileStream`, with the inode that its argument points to. -/
structure OpenFile where
  inode : Inode
  position : UInt64

structure FileSystem where
  disc : Disc
  /-- `none` where the function is null. -/
  kernelFd : UInt64 → Option OpenFile

/-- What `InitKernelFd` makes of a page of streams. -/
def kernelFdLen : UInt64 := 128

def FileReaderStream (disc : Disc) (k : Inode) (position len : UInt64) :
    Except Halt (List UInt8 × UInt64) := do
  let bytes ← InodeRead disc k position len
  return (bytes, position + len)

def FileWriterStream (disc : Disc) (k : Inode) (position : UInt64) (buffer : Nat → UInt8)
    (len : UInt64) : Except Halt (Disc × UInt64) :=
  if position + len < k.chunklen <<< 9 then do
    let disc' ← writePLUS disc ((k.chunkaddr1 <<< 9) + position) (stretch buffer 0 len.toNat) len 0
    return (disc', position + len)
  else .error (.error .fwsUnimp 0)

namespace FileSystem

variable (s : FileSystem)

/-- The checks that every call makes first. -/
def stream (limit fd : UInt64) : Except Halt OpenFile :=
  if fd > limit then .error (.error .fdToohigh fd)
  else
    match s.kernelFd fd with
    | none => .error (.error .fdDne fd)
    | some f => .ok f

def setPosition (fd : UInt64) (f : OpenFile) (position : UInt64) : FileSystem :=
  { s with kernelFd := Function.update s.kernelFd fd (some { f with position := position }) }

/-- With what ends up in the buffer. -/
def READ (fd len : UInt64) : Except Halt (List UInt8 × FileSystem) := do
  let f ← s.stream 128 fd
  let (bytes, position) ← FileReaderStream s.disc f.inode f.position len
  return (bytes, s.setPosition fd f position)

def WRITE (fd : UInt64) (buffer : Nat → UInt8) (len : UInt64) : Except Halt FileSystem := do
  let f ← s.stream 128 fd
  let (disc', position) ← FileWriterStream s.disc f.inode f.position buffer len
  return { s with disc := disc' }.setPosition fd f position

def SEEK (fd pos WHENCE : UInt64) : Except Halt FileSystem := do
  let f ← s.stream kernelFdLen fd
  return s.setPosition fd f
    (if WHENCE = 0 then pos else if WHENCE = 1 then f.position + pos else f.inode.chunklen <<< 9)

def TELL (fd : UInt64) : Except Halt UInt64 := do
  let f ← s.stream kernelFdLen fd
  return f.position

end FileSystem

inductive FileOp where
  | seek (pos WHENCE : UInt64)
  | read (len : UInt64)
  | write (buffer : Nat → UInt8) (len : UInt64)

/-- With the bytes that the call delivers. -/
def FileOp.exec (s : FileSystem) (fd : UInt64) : FileOp → Except Halt (List UInt8 × FileSystem)
  | .seek pos WHENCE => (s.SEEK fd pos WHENCE).map fun s' => ([], s')
  | .read len => s.READ fd len
  | .write buffer len => (s.WRITE fd buffer len).map fun s' => ([], s')

/-- The calls in order, with what each of them delivers. -/
def FileOp.execAll (s : FileSystem) (fd : UInt64) :
    List FileOp → Except Halt (List (List UInt8) × FileSystem)
  | [] => .ok ([], s)
  | op :: ops => do
    let (bytes, s') ← op.exec s fd
    let (rest, s'') ← FileOp.execAll s' fd ops
    return (bytes :: rest, s'')

/-! ## An array of bytes with a cursor -/

structure ByteArrayFile where
  bytes : Nat → UInt8
  cursor : UInt64

/-- Where the cursor of a file of `512 * chunklen` bytes goes. -/
def FileOp.cursor (chunklen cursor : UInt64) : FileOp → UInt64
  | .seek pos WHENCE =>
    if WHENCE = 0 then pos else if WHENCE = 1 then cursor + pos else chunklen <<< 9
  | .read len => cursor + len
  | .write _ len => cursor + len

namespace ByteArrayFile

/-- What a call delivers, and the file after it. -/
def step (chunklen : UInt64) (f : ByteArrayFile) (op : FileOp) : List UInt8 × ByteArrayFile :=
  match op with
  | .seek _ _ => ([], { f with cursor := op.cursor chunklen f.cursor })
  | .read len =>
    (stretch f.bytes f.cursor.toNat len.toNat, { f with cursor := op.cursor chunklen f.cursor })
  | .write buffer len =>
    ([], ⟨overwrite f.bytes f.cursor.toNat (stretch buffer 0 len.toNat),
      op.cursor chunklen f.cursor⟩)

def steps (chunklen : UInt64) : ByteArrayFile → List FileOp → List (List UInt8) × ByteArrayFile
  | f, [] => ([], f)
  | f, op :: ops =>
    ((f.step chunklen op).1 :: (steps chunklen (f.step chunklen op).2 ops).1,
      (steps chunklen (f.step chunklen op).2 ops).2)

end ByteArrayFile

/-- A transfer that does not go past the end of the file. -/
def FileOp.Within (chunklen p : UInt64) : FileOp → Prop
  | .seek _ _ => True
  | .read len | .write _ len => p.toNat + len.toNat ≤ 512 * chunklen.toNat

/-- Every call of a sequence meets a condition on the cursor it finds. -/
def FileOp.All (good : UInt64 → FileOp → Prop) (chunklen : UInt64) : UInt64 → List FileOp → Prop
  | _, [] => True
  | p, op :: ops => good p op ∧ FileOp.All good chunklen (op.cursor chunklen p) ops

/-- The stream at `fd` is on the inode `k`, whose bytes and position are those of `f`. -/
structure Represents (s : FileSystem) (fd : UInt64) (k : Inode) (f : ByteArrayFile) : Prop where
  stream : s.kernelFd fd = some ⟨k, f.cursor⟩
  bytes : ∀ i < 512 * k.chunklen.toNat, s.disc (512 * k.chunkaddr1.toNat + i) = f.bytes i

/-- The discs agree outside the file. -/
def SameOutside (k : Inode) (disc disc' : Disc) : Prop :=
  ∀ b, b < 512 * k.chunkaddr1.toNat ∨
    512 * k.chunkaddr1.toNat + 512 * k.chunklen.toNat ≤ b → disc' b = disc b

/-- The calls are carried out, deliver what the byte array delivers, and leave it on the disc. `TELL`
answers where its cursor is. -/
def ActsAs (s : FileSystem) (fd : UInt64) (k : Inode) (f : ByteArrayFile) (ops : List FileOp) :
    Prop :=
  ∃ s', FileOp.execAll s fd ops = .ok ((f.steps k.chunklen ops).1, s') ∧
    Represents s' fd k (f.steps k.chunklen ops).2 ∧
    s'.TELL fd = .ok (f.steps k.chunklen ops).2.cursor ∧ SameOutside k s.disc s'.disc

/-- What the block transfers and the sector numbers leave of a transfer within the file. -/
def FileOp.Carried (k : Inode) (p : UInt64) : FileOp → Prop
  | .seek _ _ => True
  | .read len =>
    p.toNat + len.toNat ≤ (k.chunklen <<< 9).toNat ∧ (len = 0 ∨
      512 ∣ p.toNat ∧ 512 ∣ len.toNat ∧ len.toNat < 65536 ∧
        k.chunkaddr1.toNat + p.toNat / 512 < 18446744073709551616)
  | .write _ len =>
    p.toNat + len.toNat < (k.chunklen <<< 9).toNat ∧ (len = 0 ∨
      p.toNat % 512 + len.toNat < 65024 ∧
        512 * k.chunkaddr1.toNat + p.toNat + len.toNat < 1099511627776)

variable {s s' : FileSystem} {fd : UInt64} {k : Inode} {f : ByteArrayFile} {ops : List FileOp}

theorem stream_eq (hfd : fd ≤ 128) (hs : s.kernelFd fd = some ⟨k, f.cursor⟩) :
    s.stream 128 fd = .ok ⟨k, f.cursor⟩ := by
  have hle : ¬ fd > 128 := by
    rw [gt_iff_lt, UInt64.not_lt]
    exact hfd
  rw [FileSystem.stream, if_neg hle, hs]

theorem chunklen_bytes_le (k : Inode) : (k.chunklen <<< 9).toNat ≤ 512 * k.chunklen.toNat := by
  rw [toNat_shiftLeft_nine, Nat.mul_comm]
  exact Nat.mod_le _ _

/-- The bytes of the file that a transfer covers. -/
theorem Represents.stretch_eq (h : Represents s fd k f) {p n : Nat}
    (hin : p + n ≤ 512 * k.chunklen.toNat) :
    stretch s.disc (512 * k.chunkaddr1.toNat + p) n = stretch f.bytes p n := by
  apply List.ext_getElem (by rw [length_stretch, length_stretch])
  intro i hi _
  rw [length_stretch] at hi
  rw [getElem_stretch, getElem_stretch, Nat.add_assoc, h.bytes (p + i) (by omega)]

theorem FileReaderStream_eq (h : Represents s fd k f) {len : UInt64}
    (hc : (FileOp.read len).Carried k f.cursor) :
    FileReaderStream s.disc k f.cursor len =
      .ok (stretch f.bytes f.cursor.toNat len.toNat, f.cursor + len) := by
  obtain ⟨hin, rfl | ⟨hp, hlen, h16, haddr⟩⟩ := hc
  · rw [FileReaderStream, InodeRead_nothing hin]
    rfl
  · rw [FileReaderStream, InodeRead_eq hin hp hlen h16 haddr,
      h.stretch_eq (Nat.le_trans hin (chunklen_bytes_le k))]
    rfl

theorem FileWriterStream_eq {disc : Disc} {p len : UInt64} {buffer : Nat → UInt8}
    (hc : (FileOp.write buffer len).Carried k p) :
    FileWriterStream disc k p buffer len = .ok (overwrite disc
      (512 * k.chunkaddr1.toNat + p.toNat) (stretch buffer 0 len.toNat), p + len) := by
  obtain ⟨hin, hzero⟩ := hc
  have hsum : (p + len).toNat = p.toNat + len.toNat := by
    have := (k.chunklen <<< 9).toNat_lt
    rw [UInt64.toNat_add, Nat.mod_eq_of_lt (by omega)]
  have hbound : p + len < k.chunklen <<< 9 := by
    rw [UInt64.lt_iff_toNat_lt, hsum]
    exact hin
  rw [FileWriterStream, if_pos hbound]
  rcases hzero with rfl | ⟨hspan, hint⟩
  · have hnone : stretch buffer 0 (0 : UInt64).toNat = [] := rfl
    rw [hnone, writePLUS_nothing, overwrite_nil]
    rfl
  · have haddr : (k.chunkaddr1 <<< 9).toNat = 512 * k.chunkaddr1.toNat := by
      rw [toNat_shiftLeft_nine, Nat.mod_eq_of_lt (by omega), Nat.mul_comm]
    have hoffset : ((k.chunkaddr1 <<< 9) + p).toNat = 512 * k.chunkaddr1.toNat + p.toNat := by
      rw [UInt64.toNat_add, haddr, Nat.mod_eq_of_lt (by omega)]
    rw [writePLUS_eq length_stretch (by rw [hoffset]; omega) (by rw [hoffset]; omega), hoffset]
    rfl

theorem Represents.setPosition (h : Represents s fd k f) (position : UInt64) :
    Represents (s.setPosition fd ⟨k, f.cursor⟩ position) fd k { f with cursor := position } where
  stream := Function.update_self fd _ _
  bytes := h.bytes

theorem READ_eq (h : Represents s fd k f) (hfd : fd ≤ 128) {len : UInt64}
    (hc : (FileOp.read len).Carried k f.cursor) :
    s.READ fd len = .ok (stretch f.bytes f.cursor.toNat len.toNat,
      s.setPosition fd ⟨k, f.cursor⟩ (f.cursor + len)) := by
  unfold FileSystem.READ
  rw [stream_eq hfd h.stream]
  simp only [bind, Except.bind, FileReaderStream_eq h hc]
  rfl

theorem WRITE_eq (h : Represents s fd k f) (hfd : fd ≤ 128) {buffer : Nat → UInt8} {len : UInt64}
    (hc : (FileOp.write buffer len).Carried k f.cursor) :
    s.WRITE fd buffer len = .ok ({ s with
      disc := overwrite s.disc (512 * k.chunkaddr1.toNat + f.cursor.toNat)
        (stretch buffer 0 len.toNat) }.setPosition fd ⟨k, f.cursor⟩ (f.cursor + len)) := by
  unfold FileSystem.WRITE
  rw [stream_eq hfd h.stream]
  simp only [bind, Except.bind, FileWriterStream_eq hc]
  rfl

theorem SEEK_eq (h : Represents s fd k f) (hfd : fd ≤ 128) (pos WHENCE : UInt64) :
    s.SEEK fd pos WHENCE = .ok (s.setPosition fd ⟨k, f.cursor⟩
      ((FileOp.seek pos WHENCE).cursor k.chunklen f.cursor)) := by
  unfold FileSystem.SEEK
  rw [show kernelFdLen = 128 from rfl, stream_eq hfd h.stream]
  rfl

theorem TELL_eq (h : Represents s fd k f) (hfd : fd ≤ 128) : s.TELL fd = .ok f.cursor := by
  unfold FileSystem.TELL
  rw [show kernelFdLen = 128 from rfl, stream_eq hfd h.stream]
  rfl

/-- A write inside the file changes the bytes of the array that it changes on the disc. -/
theorem overwrite_bytes {bytes : Nat → UInt8} {disc : Disc} {base p i : Nat} {data : List UInt8}
    (h : disc (base + i) = bytes i) :
    overwrite disc (base + p) data (base + i) = overwrite bytes p data i := by
  by_cases hlt : i < p
  · rw [overwrite_of_lt hlt, overwrite_of_lt (by omega), h]
  by_cases hge : p + data.length ≤ i
  · rw [overwrite_of_ge hge, overwrite_of_ge (by omega), h]
  · obtain ⟨j, rfl⟩ : ∃ j, i = p + j := ⟨i - p, by omega⟩
    have hj : j < data.length := by omega
    rw [overwrite_add hj, ← Nat.add_assoc, overwrite_add hj]

/-- One call does to the disc what it does to the array. -/
theorem exec_actsAs (h : Represents s fd k f) (hfd : fd ≤ 128) {op : FileOp}
    (hc : op.Carried k f.cursor) :
    ∃ s', op.exec s fd = .ok ((f.step k.chunklen op).1, s') ∧
      Represents s' fd k (f.step k.chunklen op).2 ∧ SameOutside k s.disc s'.disc := by
  cases op with
  | seek pos WHENCE =>
      have hex := congrArg (Except.map fun s' => (([] : List UInt8), s')) (SEEK_eq h hfd pos WHENCE)
      exact ⟨_, hex, h.setPosition _, fun b _ => rfl⟩
  | read len => exact ⟨_, READ_eq h hfd hc, h.setPosition _, fun b _ => rfl⟩
  | write buffer len =>
      have hin := Nat.lt_of_lt_of_le hc.1 (chunklen_bytes_le k)
      have hex := congrArg (Except.map fun s' => (([] : List UInt8), s')) (WRITE_eq h hfd hc)
      refine ⟨_, hex, ⟨Function.update_self fd _ _, fun i hi => ?_⟩, fun b hb => ?_⟩
      · exact overwrite_bytes (h.bytes i hi)
      · rcases hb with hb | hb
        · exact overwrite_of_lt (by omega)
        · exact overwrite_of_ge (by rw [length_stretch]; omega)

/-- In every sequence of calls whose transfers are all `Carried`, each of them is carried out and
delivers the bytes last written, and the file and its position are those of a byte array. -/
theorem file_is_byte_array (hfd : fd ≤ 128) (h : Represents s fd k f)
    (hc : FileOp.All (FileOp.Carried k) k.chunklen f.cursor ops) : ActsAs s fd k f ops := by
  induction ops generalizing s f with
  | nil => exact ⟨s, rfl, h, TELL_eq h hfd, fun _ _ => rfl⟩
  | cons op ops ih =>
      obtain ⟨hop, hops⟩ := hc
      obtain ⟨s', hex, hr, hout⟩ := exec_actsAs h hfd hop
      have hcursor : (f.step k.chunklen op).2.cursor = op.cursor k.chunklen f.cursor := by
        cases op <;> rfl
      obtain ⟨s'', hexs, hr', htell, hout'⟩ := ih hr (by rw [hcursor]; exact hops)
      refine ⟨s'', ?_, hr', htell, fun b hb => (hout' b hb).trans (hout b hb)⟩
      rw [FileOp.execAll, hex]
      simp only [bind, Except.bind, hexs]
      rfl

/-- One sector of zeros behind the inode table. -/
def smallFile : Inode where
  chunkaddr1 := 1
  chunklen := 1
  perms := 0
  owner := 0
  group := 0
  timestamp := 0
  name := Vector.replicate 32 0

def smallSystem : FileSystem where
  disc := fun _ => 0
  kernelFd := fun _ => some ⟨smallFile, 0⟩

theorem smallSystem_represents : Represents smallSystem 0 smallFile ⟨fun _ => 0, 0⟩ where
  stream := rfl
  bytes := fun _ _ => rfl

/-- Three bytes are written, and the sector is read back. -/
theorem file_is_byte_array_small : ActsAs smallSystem 0 smallFile ⟨fun _ => 0, 0⟩
    [.write (fun i => .ofNat i) 3, .seek 0 0, .read 512] :=
  file_is_byte_array (by decide) smallSystem_represents
    ⟨⟨by decide, Or.inr ⟨by decide, by decide⟩⟩, trivial,
      ⟨by decide, Or.inr ⟨by decide, by decide, by decide, by decide⟩⟩, trivial⟩

/-- A read of one byte ends in `ERR_READ_SIZE`. -/
theorem file_is_not_byte_array : ¬ ∀ (s : FileSystem) (fd : UInt64) (k : Inode) (f : ByteArrayFile)
    (ops : List FileOp), fd ≤ 128 → Represents s fd k f →
      FileOp.All (FileOp.Within k.chunklen) k.chunklen f.cursor ops → ActsAs s fd k f ops := by
  intro h
  obtain ⟨s', hex, -⟩ := h smallSystem 0 smallFile ⟨fun _ => 0, 0⟩ [.read 1] (by decide)
    smallSystem_represents ⟨show 0 + 1 ≤ 512 * 1 by decide, trivial⟩
  have herror : FileOp.execAll smallSystem 0 [.read 1] = .error (.error .readSize 1) := rfl
  rw [herror] at hex
  cases hex

end UnnamedOS.Files
