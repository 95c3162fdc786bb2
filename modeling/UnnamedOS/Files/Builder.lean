import UnnamedOS.Files.Sectors

/-!
# The image builder

`insertFileSystem` puts a directory tree behind the boot sectors of an image: the inode table first,
then one region for each file and directory, in the order in which `cDF` comes to them.
-/

namespace UnnamedOS.Files

open UnnamedOS.Lib

/-- What `readFile` and `readDir` have built. The length of a file has gone through an `int`. -/
inductive DirORfile where
  | file (name contents : List UInt8) (int : contents.length < 2147483648)
  | dir (name : List UInt8) (entries : List DirORfile)

def LBA_FS_BASE : Nat := 108

structure Builder where
  image : Nat → UInt8
  flll : UInt64
  errc : Nat
  FIRST_UNU : Nat
  lastfucker : Nat
  inbase : Nat → UInt8
  /-- The sectors given to `wdiskr`: the first one and their number. -/
  written : List (Nat × Nat)

/-- A value that an `int` takes. There is no result where it does not hold it. -/
def toInt (n : Nat) : Option Nat := if n < 2147483648 then some n else none

/-- `(n>>9) + ((n&0x1ff)?1:0)`. -/
def sectorCount (n : Nat) : Nat := n / 512 + if n % 512 = 0 then 0 else 1

def getsizeofDOF : DirORfile → Option Nat
  | .file _ contents _ => toInt (sectorCount contents.length)
  | .dir _ entries => toInt (sectorCount (entries.length * sizeofInode))

mutual

/-- `numinodes` when `readDir` has returned. -/
def numinodes : DirORfile → Nat
  | .file .. => 1
  | .dir _ entries => numinodesOf entries + 1

def numinodesOf : List DirORfile → Nat
  | [] => 0
  | a :: entries => numinodes a + numinodesOf entries

end

/-- A buffer of `n` bytes from `calloc` with something copied to its start. -/
def padded (n : Nat) (bytes : List UInt8) : List UInt8 :=
  bytes.take n ++ List.replicate (n - bytes.length) 0

/-- A name longer than its field has no terminator there. -/
def constructInode (chunkaddr1 chunklen : Nat) (perms : UInt16) (name : List UInt8) : Inode where
  chunkaddr1 := .ofNat chunkaddr1
  chunklen := .ofNat chunklen
  perms
  owner := 0
  group := 0
  timestamp := 0
  name := Vector.ofFn fun i : Fin 32 => name.getD i 0

namespace Builder

/-- The bound is checked without the `LBA_FS_BASE` of the seek. -/
def wdiskr (s : Builder) (lba len : Nat) (mrg : List UInt8) : Builder where
  image := overwrite s.image (LBA_FS_BASE * 0x200 + 0x200 * lba) mrg
  flll := s.flll
  errc := if 0x200 * lba + 0x200 * len > s.flll.toNat then s.errc + 1 else s.errc
  FIRST_UNU := s.FIRST_UNU
  lastfucker := s.lastfucker
  inbase := s.inbase
  written := s.written ++ [(lba, len)]

def getdiskregion (s : Builder) (size : Nat) : Option (Nat × Builder) := do
  let FIRST_UNU ← toInt (s.FIRST_UNU + size)
  return (s.FIRST_UNU, { s with FIRST_UNU })

/-- The last part of `cDF`: the buffer is written and read back, and the inode is set. The place from
which it is read back is an `int`, and so no region begins behind the first 2 GiB. -/
def finish (s : Builder) (st b ourindex : Nat) (m : List UInt8) (perms : UInt16)
    (name : List UInt8) : Option Builder := do
  let s := s.wdiskr st b m
  let offset ← toInt (0x200 * LBA_FS_BASE + 0x200 * st)
  let m2 := stretch s.image offset (0x200 * b)
  return { s with
    errc := if m2 ≠ m then s.errc + 1 else s.errc
    inbase := overwrite s.inbase (sizeofInode * ourindex) (constructInode st b perms name).packed }

end Builder

mutual

/-- The index of the inode, which the directory stores. -/
def cDF : DirORfile → Builder → Option (Nat × Builder)
  | .file name contents int, s => do
    let b ← getsizeofDOF (.file name contents int)
    let (st, s) ← s.getdiskregion b
    let ourindex := s.lastfucker
    let s := { s with
      lastfucker := ourindex + 1
      errc := if contents.length > b * 0x200 then s.errc + 1 else s.errc }
    let s ← s.finish st b ourindex (padded (0x200 * b) contents) 0x1 name
    return (ourindex, s)
  | .dir name entries, s => do
    let b ← getsizeofDOF (.dir name entries)
    let (st, s) ← s.getdiskregion b
    let ourindex := s.lastfucker
    let (ids, s) ← cDFs entries { s with lastfucker := ourindex + 1 }
    let m := padded (0x200 * b) (ids.flatMap fun id => toBytes 8 id)
    let s ← s.finish st b ourindex m 0x8 name
    return (ourindex, s)

/-- The loop over the entries of a directory. -/
def cDFs : List DirORfile → Builder → Option (List Nat × Builder)
  | [], s => some ([], s)
  | a :: entries, s => do
    let (id, s) ← cDF a s
    let (ids, s) ← cDFs entries s
    return (id :: ids, s)

end

/-- The sectors of the inode table. -/
def lnb (root : DirORfile) : Nat := sectorCount (sizeofInode * numinodes root)

/-- `main` from `readDir` on, for an image of `flll` bytes. -/
def buildImage (root : DirORfile) (image : Nat → UInt8) (flll : UInt64) : Option Builder := do
  let _ ← toInt (numinodes root)
  let lnb ← toInt (lnb root)
  let FIRST_UNU ← toInt lnb
  let (_, s) ← cDF root {
    image
    flll
    errc := if lnb = 0 then 1 else 0
    FIRST_UNU
    lastfucker := 0
    inbase := fun _ => 0
    written := [] }
  return s.wdiskr 0 lnb (stretch s.inbase 0 (lnb * 0x200))

end UnnamedOS.Files
