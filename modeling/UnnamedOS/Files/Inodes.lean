import UnnamedOS.Files.Regions

/-!
# The inode cache and new files

`GrabInode` with the array `kINb` behind it, and `mkFile`, which takes a slot of the inode table and
a region, and adds the new id to the directories that it is given.
-/

namespace UnnamedOS.Files

open UnnamedOS.Lib

/-- `sizeof(struct vnode)`: the inode, padding, `id` at 64, `disk` at 72, `exists` at 80. -/
def sizeofVnode : Nat := 88

/-- The bytes behind `kINb` and their number of pages, none for a null pointer. -/
structure Cache where
  kINb : Nat → UInt8
  kINb_sz : Nat

/-- `kINb = NULL`. -/
def Cache.null : Cache where
  kINb := fun _ => 0
  kINb_sz := 0

structure Volume where
  disc : Disc
  cache : Cache

/-- `struct vnode`, as the callers of `mkFile` hold it. -/
structure Vnode where
  a : Inode
  id : UInt64
  disk : UInt64

/-- `s*id` where `id` has become an `int`. A negative one is no index either. -/
def product (s : Nat) (id : UInt64) : Except Halt Nat :=
  if s * id.toUInt32.toNat < 2147483648 then .ok (s * id.toUInt32.toNat) else .error .overflow

namespace Cache

/-- `DIV64_32(kINb_sz<<12,s)`. -/
def capacity (c : Cache) : Nat := c.kINb_sz * 4096 / sizeofVnode

/-- The product of an `int` with a `uint32_t` is a `uint32_t`. -/
def kINb_gb (c : Cache) (id : UInt32) : Option (List UInt8) :=
  if c.capacity ≤ id.toNat then none
  else if c.kINb ((88 * id).toNat + 80) = 0 then none
  else some (stretch c.kINb (88 * id).toNat sizeofInode)

/-- Pages of zeros with the old pages copied to their start. -/
def grow (c : Cache) : Cache where
  kINb := overwrite (fun _ => 0) 0 (stretch c.kINb 0 (c.kINb_sz * 4096))
  kINb_sz := c.kINb_sz * 2 + 1

/-- The loop of `kINb_ad`. Its size is doubled at most 52 times before `kINb_sz<<12` is lost. -/
def growFor : Nat → Cache → Nat → Cache
  | 0, c, _ => c
  | rounds + 1, c, id => if c.capacity ≤ id then growFor rounds c.grow id else c

/-- What stands behind the padding: `id`, `disk` and `exists`. -/
def vnodeTail (id : UInt64) : List UInt8 := toBytes 8 id.toNat ++ toBytes 8 0 ++ [1]

def kINb_ad (c : Cache) (a : List UInt8) (id : UInt64) : Except Halt Cache := do
  let c := growFor 52 c id.toNat
  let M ← product sizeofVnode id
  return if c.kINb (M + 80) = 0 then
    { c with kINb := overwrite (overwrite c.kINb (M + 64) (vnodeTail id)) M a } else c

def kINb_invalidate (c : Cache) (id : UInt64) : Cache :=
  if c.capacity ≤ id.toNat then c
  else { c with kINb := overwrite c.kINb (sizeofVnode * id.toNat) (List.replicate sizeofVnode 0) }

end Cache

/-- The bytes of the inode that the caller gets. -/
def GrabInode (v : Volume) (id : UInt64) : Except Halt (List UInt8 × Volume) :=
  match v.cache.kINb_gb id.toUInt32 with
  | some a => .ok (a, v)
  | none => do
    let m ← product sizeofInode id
    let a ← readPLUS v.disc (.ofNat m) 60 0
    let cache ← v.cache.kINb_ad a id
    return (a, { v with cache })

/-- The loop of `getI`, as long as `i*s` is an `int`. -/
def getIFrom (disc : Disc) (disk : UInt64) : Nat → Nat → Except Halt UInt64
  | 0, _ => .error .overflow
  | todo + 1, i => do
    let b ← readPLUS disc (.ofNat (sizeofInode * i)) 60 disk
    if (Inode.ofPacked b).chunklen = 0 then return .ofNat i else getIFrom disc disk todo (i + 1)

def getI (disc : Disc) (disk : UInt64) : Except Halt UInt64 := getIFrom disc disk 35791395 0

def writeIN (disc : Disc) (a : Inode) (disk no : UInt64) : Except Halt Disc :=
  writePLUS disc (no * 60) a.packed 60 disk

/-- `b[l]` of an array of `uint64_t`. -/
def quad (b : List UInt8) (l : Nat) : UInt64 := .ofNat (ofBytes ((b.drop (8 * l)).take 8))

/-- The end of the ids in a list of `quads` quads. -/
def listEnd (b : List UInt8) (quads : Nat) : Option Nat := (List.range quads).find? (quad b · = 0)

/-- In a list without an end the id goes behind what is written back. -/
def addtoD (v : Volume) (dir : Vnode) (toadd : UInt64) : Except Halt Volume := do
  let len := (dir.a.chunklen <<< 9).toUInt16
  let b ← read v.disc dir.a.chunkaddr1 dir.disk len
  let b' := match listEnd b (len.toNat / 8) with
    | none => b
    | some last => splice b (8 * last) (toBytes 8 toadd.toNat)
  let disc ← write v.disc dir.a.chunkaddr1 dir.disk len b'
  return { disc, cache := v.cache.kINb_invalidate dir.id }

/-- `(length>>9)+!!(length&0x1FF)`. -/
def sectorsOf (length : UInt16) : UInt64 :=
  (length >>> 9).toUInt64 + if length &&& 0x1ff = 0 then 0 else 1

/-- `memfill` and `strcpy` into the field. What is too long for it is not written to the disc. -/
def nameField (name : List UInt8) : Vector UInt8 32 := Vector.ofFn fun i : Fin 32 => name.getD i 0

/-- The inode that `mkFile` sets up. -/
def newInode (start : UInt64) (length : UInt16) (name : List UInt8) (perms : UInt16) : Inode where
  chunkaddr1 := start
  chunklen := sectorsOf length
  perms
  owner := 0
  group := 0
  timestamp := 0
  name := nameField name

/-- `mkFile` after `getIS` has returned `start` and `getI` has returned `id`. -/
def mkFileAt (start id : UInt64) (v : Volume) (data : List UInt8) (length : UInt16) (disk : UInt64)
    (name : List UInt8) (perms : UInt16) (links : List Vnode) : Except Halt (Vnode × Volume) := do
  let a := newInode start length name perms
  let disc ← writeIN v.disc a disk id
  let disc ← write disc start disk length data
  let v ← links.foldlM (fun v dir => addtoD v dir id) { v with disc }
  return ({ a, id, disk }, v)

def mkFile (v : Volume) (data : List UInt8) (length : UInt16) (disk : UInt64) (name : List UInt8)
    (perms : UInt16) (links : List Vnode) : Except Halt (Vnode × Volume) := do
  let start ← getIS v.disc disk (sectorsOf length)
  let id ← getI v.disc disk
  mkFileAt start id v data length disk name perms links

end UnnamedOS.Files
