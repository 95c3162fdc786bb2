import Mathlib.Order.Interval.Finset.Nat
import UnnamedOS.Files.ByteRange
import UnnamedOS.Files.Lookup

/-!
# What the file system takes and gives back

`getFileFromFilename` and `addtoD` again, with the blocks and pages that are live. `malloc` and
`KPALLOCS` return what is not live, whatever that is. The semaphore of the disc and the array of the
inode cache are never given back.
-/

namespace UnnamedOS.Files

open UnnamedOS.Lib

/-- The choices of the allocators, at the `t`-th allocation. -/
structure Allocator where
  block : Nat → Finset Nat → Nat
  pages : Nat → Finset Nat → Nat → Nat
  block_fresh : ∀ t live, block t live ∉ live
  pages_fresh : ∀ t live k, Disjoint (Finset.Ico (pages t live k) (pages t live k + k)) live

inductive Fault where
  | halt (h : Halt)
  /-- What is freed or used is not live. -/
  | dead (address : Nat)
  deriving DecidableEq

structure Holdings where
  blocks : Finset Nat
  pages : Finset Nat
  /-- The number of allocations so far. -/
  time : Nat

namespace Holdings

variable (A : Allocator) (l : Holdings)

def malloc : Nat × Holdings :=
  let p := A.block l.time l.blocks
  (p, { l with blocks := insert p l.blocks, time := l.time + 1 })

def KPALLOCS (size : Nat) : Nat × Holdings :=
  let p := A.pages l.time l.pages size
  (p, { l with pages := l.pages ∪ Finset.Ico p (p + size), time := l.time + 1 })

/-- A dereference of `ptr`. -/
def use (ptr : Nat) : Except Fault Unit := if ptr ∈ l.blocks then .ok () else .error (.dead ptr)

def free (ptr : Nat) : Except Fault Holdings :=
  if ptr ∈ l.blocks then .ok { l with blocks := l.blocks.erase ptr } else .error (.dead ptr)

def P_FREES (v_add size : Nat) : Except Fault Holdings :=
  if size < 1 then .error (.halt (.error (.other 0x55) (.ofNat size)))
  else if Finset.Ico v_add (v_add + size) ⊆ l.pages then
    .ok { l with pages := l.pages \ Finset.Ico v_add (v_add + size) }
  else .error (.dead v_add)

end Holdings

/-- A volume, what is live, and the blocks and pages that stay. -/
structure Store where
  volume : Volume
  live : Holdings
  disk0 : Option Nat
  kINb : Nat

/-- What does not take or give back anything. -/
def unpriced {α : Type} (x : Except Halt α) : Except Fault α := x.mapError .halt

namespace Store

variable (A : Allocator) (s : Store)

/-- `if(!disk0) disk0 = create_semaphore(1);` -/
def withDisk0 : Store :=
  match s.disk0 with
  | some _ => s
  | none => { s with live := (s.live.malloc A).2, disk0 := some (s.live.malloc A).1 }

/-- `readPLUS` into a block of its own. -/
def readPLUS (offset size drive : UInt64) : Except Fault (List UInt8 × Nat × Store) := do
  let s := s.withDisk0 A
  let count := (bufferPages (offset >>> 9).toUInt32 ((offset + size) >>> 9).toUInt32).toNat
  let (buffer2, live) := s.live.KPALLOCS A count
  let bytes ← unpriced (Files.readPLUS s.volume.disc offset size drive)
  let (buffer, live) := live.malloc A
  let live ← live.P_FREES buffer2 count
  return (bytes, buffer, { s with live })

/-- The loop of `kINb_ad`: an array of twice the size, and the old one is left as it is. -/
def growFor : Nat → Store → Nat → Store
  | 0, s, _ => s
  | rounds + 1, s, id =>
    if s.volume.cache.capacity ≤ id then
      let (kINb2, live) := s.live.KPALLOCS A (s.volume.cache.kINb_sz * 2 + 1)
      growFor rounds
        { s with volume := { s.volume with cache := s.volume.cache.grow }, live, kINb := kINb2 } id
    else s

/-- The inode, and the block that it is in. -/
def GrabInode (id : UInt64) : Except Fault (List UInt8 × Nat × Store) :=
  match s.volume.cache.kINb_gb id.toUInt32 with
  | some a =>
    let (mb, live) := s.live.malloc A
    .ok (a, mb, { s with live })
  | none => do
    let m ← unpriced (product sizeofInode id)
    let (a, buffer, s) ← s.readPLUS A (.ofNat m) 60 0
    let cache ← unpriced (s.volume.cache.kINb_ad a id)
    let s := growFor A 52 s id.toNat
    return (a, buffer, { s with volume := { s.volume with cache } })

/-- `InodeRead` into a page, of an inode in the block `n`. -/
def InodeRead (a : Inode) (n : Nat) (position len : UInt64) : Except Fault (List UInt8 × Store) := do
  s.live.use n
  let s := s.withDisk0 A
  let m ← unpriced (Files.InodeRead s.volume.disc a position len)
  return (m, s)

/-- `if(n!=NULL) free(n);` -/
def freeNonNull (n : Option Nat) : Except Fault Store :=
  match n with
  | none => .ok s
  | some n => do
    let live ← s.live.free n
    return { s with live }

/-- The loop over the ids of a directory on the way. It frees `n` before it grabs the next inode. -/
def searchDirectory (name : List UInt8) :
    List UInt64 → Option Nat → Store → Except Fault (Option (List UInt8 × Nat) × Store)
  | [], _, s => .ok (none, s)
  | id :: ids, n, s => do
    let s ← s.freeNonNull n
    let (a, n, s) ← s.GrabInode A id
    if strcmp (Inode.ofPacked a).name.toList name = 0 then return (some (a, n), s)
    else searchDirectory name ids (some n) s

/-- The loop over the ids of the last directory. It frees `n` behind the comparison. -/
def searchLast (name : List UInt8) :
    List UInt64 → Store → Except Fault (Option (List UInt8 × Nat) × Store)
  | [], s => .ok (none, s)
  | id :: ids, s => do
    let (a, n, s) ← s.GrabInode A id
    if strcmp (Inode.ofPacked a).name.toList name = 0 then return (some (a, n), s)
    else
      let live ← s.live.free n
      searchLast name ids { s with live }

/-- The loop over `directories`. When it is through with one, `curdir` and `n` are the same. -/
def walk : List (List UInt8) → Inode → Nat → Option Nat → Store →
    Except Fault (Option (Inode × Nat) × Store)
  | [], a, curdir, _, s => .ok (some (a, curdir), s)
  | directory :: directories, a, curdir, n, s => do
    let (m, s) ← s.InodeRead A a curdir 0x0 0x200
    let (found, s) ← searchDirectory A directory (idList m) n s
    match found with
    | none => return (none, s)
    | some (a, n) =>
      let live ← s.live.free curdir
      walk directories (.ofPacked a) n (some n) { s with live }

/-- One block for each component, in their order. -/
def mallocEach : List (List UInt8) → Holdings → List Nat × Holdings
  | [], l => ([], l)
  | _ :: directories, l =>
    let (p, l) := l.malloc A
    let (ps, l) := mallocEach directories l
    (p :: ps, l)

def freeEach : List Nat → Holdings → Except Fault Holdings
  | [], l => .ok l
  | p :: ps, l => do
    let l ← l.free p
    freeEach ps l

/-- `malloc(slashcount*sizeof(char*))`, for at least one directory. -/
def mallocDirectories (directories : List (List UInt8)) (l : Holdings) : Option Nat × Holdings :=
  if directories = [] then (none, l)
  else
    let (p, l) := l.malloc A
    (some p, l)

/-- The last part of a call that has found its file. -/
def release (m : Nat) (directories : List Nat) (array : Option Nat) (name curdir : Nat) :
    Except Fault Store := do
  let live ← s.live.P_FREES m 1
  let live ← freeEach directories live
  let s ← ({ s with live } : Store).freeNonNull array
  let live ← s.live.free name
  let live ← live.free curdir
  return { s with live }

/-- The lookup in the last directory, and what is given back when it finds the file. -/
def lookupLast (text : List UInt8) (m : Nat) (directories : List Nat) (array : Option Nat)
    (name : Nat) (a : Inode) (curdir : Nat) :
    Except Fault (Option (List UInt8 × Nat) × Store) := do
  let (ids, s) ← s.InodeRead A a curdir 0x0 0x200
  let (found, s) ← searchLast A text (idList ids) s
  match found with
  | none => return (none, s)
  | some n =>
    let s ← s.release m directories array name curdir
    return (some n, s)

/-- What follows the loop over `directories`. -/
def afterWalk (text : List UInt8) (m : Nat) (directories : List Nat) (array : Option Nat)
    (name : Nat) :
    Option (Inode × Nat) × Store → Except Fault (Option (List UInt8 × Nat) × Store)
  | (none, s) => .ok (none, s)
  | (some (a, curdir), s) => s.lookupLast A text m directories array name a curdir

/-- The bytes of the inode and its block, or nothing for `NULL`. `curdir` is never the block of
`basedir`. -/
def getFileFromFilename (basedir : Inode) (filename : Filename) :
    Except Fault (Option (List UInt8 × Nat) × Store) := do
  let p ← unpriced (textFrom filename intRange 0)
  let slashcount ← unpriced (slashRuns p false)
  let directories := directoriesOf (slashcount - 1) (p.drop 1)
  let (array, live) := mallocDirectories A directories s.live
  let (blocks, live) := mallocEach A directories live
  let i ← unpriced (nameStart filename (p.length + intRange) p.length)
  let (name, live) := live.malloc A
  let (curdir, live) := live.malloc A
  let (m, live) := live.KPALLOCS A 1
  let last ← walk A directories basedir curdir none { s with live }
  afterWalk A (nameBetween filename i p.length) m blocks array name last

/-- `write` hands the length of the whole transfer down to `floppy_write`, which takes one sector. -/
def writable (len : UInt16) : Except Halt Unit :=
  if len = 0 ∨ len = 512 then .ok () else .error (.error (.other 0x7) len.toUInt64)

/-- `read` gets one page more than the whole ones of the list, `P_FREES` gives back those that the
list begins. -/
def addtoD (dir : Vnode) (toadd : UInt64) : Except Fault Store := do
  let len := (dir.a.chunklen <<< 9).toUInt16
  let _ ← unpriced (read s.volume.disc dir.a.chunkaddr1 dir.disk len)
  let (b, live) := s.live.KPALLOCS A (len.toNat / 4096 + 1)
  let _ ← unpriced (writable len)
  let volume ← unpriced (Files.addtoD s.volume dir toadd)
  let live ← live.P_FREES b ((dir.a.chunklen >>> 3).toNat +
    if (dir.a.chunklen <<< 9) &&& 0xfff = 0 then 0 else 1)
  return { s with volume, live }

end Store

end UnnamedOS.Files
