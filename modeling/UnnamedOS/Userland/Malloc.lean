import UnnamedOS.Lib.Bytes

/-!
# The heap of a program

`malloc`, `free` and `realloc` of `libc.c`. A block has its bucket at `[-16]`, its size at `[-12]`
and, while it is free, the next block of its list at `[-8]`.
-/

namespace UnnamedOS.Userland

open UnnamedOS.Lib

/-- `malloc_bucket8bytes`, `malloc_bucket64bytes`, `malloc_bucket512bytes` and
`malloc_bucket4096bytes` are buckets 0 to 3. -/
structure Heap where
  mem : Nat → UInt8
  brk : UInt64
  malloc_bucket : Fin 4 → UInt64

def load32 (mem : Nat → UInt8) (a : UInt64) : UInt32 := .ofNat (ofBytes (stretch mem a.toNat 4))

def load64 (mem : Nat → UInt8) (a : UInt64) : UInt64 := .ofNat (ofBytes (stretch mem a.toNat 8))

def store32 (mem : Nat → UInt8) (a : UInt64) (x : UInt32) : Nat → UInt8 :=
  overwrite mem a.toNat (toBytes 4 x.toNat)

def store64 (mem : Nat → UInt8) (a x : UInt64) : Nat → UInt8 :=
  overwrite mem a.toNat (toBytes 8 x.toNat)

/-- One region grows upwards. There is no result where it would leave the address space. -/
def sbrk (h : Heap) (size : UInt64) : Option (UInt64 × Heap) :=
  if h.brk.toNat + size.toNat < 18446744073709551616 then
    some (h.brk + size, { h with brk := h.brk + size })
  else none

def initMalloc (mem : Nat → UInt8) (brk : UInt64) : Heap where
  mem
  brk
  malloc_bucket := fun _ => 0

/-- `s2`. -/
def bucketFor (size : UInt64) : Fin 4 :=
  if size > 64 then (if size > 512 then 3 else 2) else if size > 8 then 1 else 0

/-- `s3`. -/
def bucketBytes : Fin 4 → UInt64
  | 0 => 8
  | 1 => 64
  | 2 => 512
  | 3 => 4096

def setHeader (mem : Nat → UInt8) (k size : UInt64) (s2 : UInt32) : Nat → UInt8 :=
  store32 (store32 mem (k - 12) size.toUInt32) (k - 16) s2

/-- `*mp = k`. -/
def setBucket (h : Heap) (s2 : Fin 4) (k : UInt64) : Heap :=
  { h with malloc_bucket := Function.update h.malloc_bucket s2 k }

@[simp] theorem setBucket_self (h : Heap) (s2 : Fin 4) (k : UInt64) :
    (setBucket h s2 k).malloc_bucket s2 = k := Function.update_self ..

theorem setBucket_of_ne (h : Heap) {s2 t : Fin 4} (k : UInt64) (ht : t ≠ s2) :
    (setBucket h s2 k).malloc_bucket t = h.malloc_bucket t := Function.update_of_ne ht ..

@[simp] theorem setBucket_mem (h : Heap) (s2 : Fin 4) (k : UInt64) :
    (setBucket h s2 k).mem = h.mem := rfl

/-- The first block of a list, or a new one. -/
def takeBlock (h : Heap) (s2 : Fin 4) : Option (UInt64 × Heap) :=
  let k := h.malloc_bucket s2
  if k ≠ 0 then some (k, setBucket h s2 (load64 h.mem (k - 8)))
  else (sbrk h (bucketBytes s2 + 16)).map fun r => (r.1 - bucketBytes s2, r.2)

def malloc (h : Heap) (size : UInt64) : Option (UInt64 × Heap) :=
  if size > 4096 then
    (sbrk h (size + 16)).map fun r =>
      (r.1 - size, { r.2 with mem := setHeader r.2.mem (r.1 - size) size 4 })
  else
    (takeBlock h (bucketFor size)).map fun r =>
      (r.1, { r.2 with mem := setHeader r.2.mem r.1 size (.ofNat (bucketFor size).val) })

/-- The loop of `free` over a large block, whose counter is an `int`. -/
def breakDown : Nat → Nat → Nat → Option Unit
  | 0, _, _ => none
  | todo + 1, size, i =>
    if size - i > 4096 + 16 then
      if i + (4096 + 16) < 2147483648 then breakDown todo size (i + (4096 + 16)) else none
    else some ()

/-- A block of no bucket is a write through a null pointer. -/
def free (h : Heap) (a : UInt64) : Option Heap :=
  let s2 := (load32 h.mem (a - 16)).toNat
  if s2 = 4 then (breakDown 2147483648 (load32 h.mem (a - 12)).toNat 0).map fun _ => h
  else if hs : s2 < 4 then
    some (setBucket { h with mem := store64 h.mem (a - 8) (h.malloc_bucket ⟨s2, hs⟩) } ⟨s2, hs⟩ a)
  else none

def memcpy (mem : Nat → UInt8) (b a : UInt64) : Nat → Nat → UInt8
  | 0 => mem
  | i + 1 => Function.update (memcpy mem b a i) (b.toNat + i) (memcpy mem b a i (a.toNat + i))

def realloc (h : Heap) (a size : UInt64) : Option (UInt64 × Heap) := do
  let (b, h) ← malloc h size
  let h ← free { h with mem := memcpy h.mem b a (load32 h.mem (a - 12)).toNat } a
  return (b, h)

end UnnamedOS.Userland
