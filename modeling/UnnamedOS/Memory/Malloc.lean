import UnnamedOS.Lib.Bits

/-!
# The kernel heap

`malloc` and `free` over memory words. A table page holds 255 entries of two words, a bitmap
of free 64-byte units and the page it describes, and the next table page in word 511. The
three words before a block are its header.
-/

namespace UnnamedOS.Memory

/-- What stops the machine in the middle of a call. -/
inductive Halt where
  | mallocSize0
  | mallocSizeMax
  | mallocOveralloc (p : BitVec 64)
  | freeSizeMismatch (bitmap : BitVec 64)
  | freeInvalidPtr
  | freeInvalidPtr2 (p : BitVec 64)
  | doubleFree (p : BitVec 64)
  | freeBadMetadata (bits : BitVec 64)
  | kpallocNoFree
  /-- `div` with a quotient of more than 32 bits. -/
  | divideError
  /-- The chain of tables does not end. -/
  | endless
  deriving DecidableEq

/-- The memory words by address, `ml1`, and the pages `KPALLOC` has still to hand out. -/
structure Heap where
  mem : Nat → BitVec 64
  ml1 : Nat
  pages : List Nat

namespace Heap

variable (h : Heap)

def poke (a : Nat) (v : BitVec 64) : Heap := { h with mem := Function.update h.mem a v }

/-- `memfill` of a page. -/
def memfill (p : Nat) : Heap :=
  { h with mem := fun a => if p ≤ a ∧ a < p + 0x1000 then 0 else h.mem a }

def kpalloc : Except Halt (Nat × Heap) :=
  match h.pages with
  | [] => .error .kpallocNoFree
  | p :: ps => .ok (p, { h with pages := ps }.memfill p)

def initMalloc : Except Halt Heap :=
  match h.kpalloc with
  | .error e => .error e
  | .ok (p, h) => .ok (({ h with ml1 := p }.poke (p + 8 * 511) 0).poke (p + 8 * 510) 0)

end Heap

/-- `1<<n` on an `int`. -/
def intShift (n : Nat) : BitVec 32 := 1#32 <<< (n % 32)

/-- `(1<<size)-1`, extended to the `uint64_t` it is assigned to. -/
def sizebitmask (size : BitVec 64) : BitVec 64 := (intShift size.toNat - 1#32).signExtend 64

/-- `sizebitmask<<(j-size+1)`. -/
def jshift (size j : BitVec 64) : BitVec 64 :=
  sizebitmask size <<< ((j - size + 1#64).toNat % 64)

/-- `DIV64_32` and `MOD64_32` by 64. -/
def divMod64 (size : BitVec 64) : Except Halt (BitVec 64 × BitVec 64) :=
  if size.toNat / 64 < 2 ^ 32 then .ok (size / 64#64, size % 64#64) else .error .divideError

/-- The size in units, header included. -/
def unitsOf (size : BitVec 64) : Except Halt (BitVec 64) :=
  if size = 0#64 then .error .mallocSize0
  else
    match divMod64 size with
    | .error e => .error e
    | .ok (_, r) =>
      let size := if r = 0#64 then size else size + (64#64 - r)
      if 4032#64 ≤ size then .error .mallocSizeMax
      else
        match divMod64 size with
        | .error e => .error e
        | .ok (q, _) => .ok (q + 1#64)

/-- The `j` loop, from `j` over `k` more bits, with `m` bits matched so far. -/
def matchBits (bitmap size : BitVec 64) : (k j : Nat) → (m : BitVec 8) → Option Nat
  | 0, _, _ => none
  | k + 1, j, m =>
    if bitmap &&& (intShift j).signExtend 64 = 0#64 then matchBits bitmap size k (j + 1) 0#8
    else if (m + 1#8).setWidth 64 = size then some j
    else matchBits bitmap size k (j + 1) (m + 1#8)

/-- What a scan comes back with: the entry and bit a run of `size` units ends at, or the last
table and the first unallocated entry. -/
inductive Scan where
  | fits (entry j : Nat)
  | full (mcp : Nat) (NA : Option Nat)
  deriving DecidableEq

namespace Heap

variable (h : Heap)

/-- The `i` loop over the table `mcp`, from entry `i` over `k` more entries. -/
def scanTable (size : BitVec 64) (mcp : Nat) : (k i : Nat) → (NA : Option Nat) → Scan
  | 0, _, NA => .full mcp NA
  | k + 1, i, NA =>
    let entry := mcp + 16 * i
    if h.mem (entry + 8) = 0#64 then scanTable size mcp k (i + 1) (NA.or (some entry))
    else if h.mem entry < sizebitmask size then scanTable size mcp k (i + 1) NA
    else
      match matchBits (h.mem entry) size 64 0 0#8 with
      | some j => .fits entry j
      | none => scanTable size mcp k (i + 1) NA

/-- The address in word 511 of a table. -/
def nextTable (mcp : Nat) : Option Nat :=
  if h.mem (mcp + 8 * 511) = 0#64 then none else some (h.mem (mcp + 8 * 511)).toNat

/-- The loop over the tables. The test at its end is on the table it has just moved to, so
the last of several tables is not scanned. -/
def scanTables (size : BitVec 64) : (fuel mcp : Nat) → (NA : Option Nat) → Except Halt Scan
  | 0, _, _ => .error .endless
  | fuel + 1, mcp, NA =>
    match h.scanTable size mcp 255 0 NA with
    | .fits entry j => .ok (.fits entry j)
    | .full mcp NA =>
      let mcp := (h.nextTable mcp).getD mcp
      match h.nextTable mcp with
      | none => .ok (.full mcp NA)
      | some _ => scanTables size fuel mcp NA

/-- The three words before the block. -/
def header (p : Nat) (slot j size : BitVec 64) : Heap :=
  ((h.poke (p - 8) slot).poke (p - 16) j).poke (p - 24) size

/-- A run of `size` free units that ends at bit `j` of the entry's bitmap is taken. -/
def takeRun (size : BitVec 64) (entry j : Nat) : Except Halt (Nat × Heap) :=
  let shifted := jshift size (BitVec.ofNat 64 j)
  if ~~~h.mem entry &&& shifted = 0#64 then
    let h' := h.poke entry (h.mem entry ^^^ shifted)
    let first := (BitVec.ofNat 64 j - size + 1#64).toNat
    let memoryaddress := (h'.mem (entry + 8)).toNat + first * 64 + 64
    if h'.mem (entry + 8) + 0x1000#64 < BitVec.ofNat 64 memoryaddress + size * 8#64 - 64#64 then
      .error (.mallocOveralloc (BitVec.ofNat 64 memoryaddress))
    else
      .ok (memoryaddress,
        h'.header memoryaddress (BitVec.ofNat 64 (entry + 8)) (BitVec.ofNat 64 j) size)
  else .error (.freeSizeMismatch (h.mem entry))

/-- `NA`, on a new table behind `mcp` when no entry was unallocated. -/
def newEntry (mcp : Nat) : Option Nat → Except Halt (Nat × Heap)
  | some entry => .ok (entry, h)
  | none =>
    match h.kpalloc with
    | .error e => .error e
    | .ok (p, h) => .ok (p, (h.poke (mcp + 8 * 511) (BitVec.ofNat 64 p)).memfill p)

/-- A page for the unallocated entry `NA`, its first `size` units taken. -/
def takePage (size : BitVec 64) (NA : Nat) : Except Halt (Nat × Heap) :=
  match (h.poke NA (0xFFFFFFFFFFFFFFFF#64 ^^^ sizebitmask size)).kpalloc with
  | .error e => .error e
  | .ok (p, h) =>
    let h := (h.poke (NA + 8) (BitVec.ofNat 64 p)).memfill p
    .ok (p + 64, h.header (p + 64) (BitVec.ofNat 64 (NA + 8)) (size - 1#64) size)

/-- There are no more page addresses than this. -/
def tableFuel : Nat := 2 ^ 52

def malloc (size : BitVec 64) : Except Halt (Nat × Heap) :=
  match unitsOf size with
  | .error e => .error e
  | .ok size =>
    match h.scanTables size tableFuel h.ml1 none with
    | .error e => .error e
    | .ok (.fits entry j) => h.takeRun size entry j
    | .ok (.full mcp NA) =>
      match h.newEntry mcp NA with
      | .error e => .error e
      | .ok (entry, h) => h.takePage size entry

def free (ptr : Nat) : Except Halt Heap :=
  if ptr = 0 then .error .freeInvalidPtr
  else
    let bitmaskptr := h.mem (ptr - 8) - 8#64
    if bitmaskptr = 0#64 then .error (.freeInvalidPtr2 (BitVec.ofNat 64 ptr))
    else
      let j := h.mem (ptr - 16)
      let size := h.mem (ptr - 24)
      if size = 0#64 then .error (.doubleFree (BitVec.ofNat 64 ptr))
      else
        let bits := h.mem bitmaskptr.toNat &&& jshift size j
        if bits = 0#64 then
          .ok ((h.poke bitmaskptr.toNat (h.mem bitmaskptr.toNat ^^^ jshift size j)).header ptr 0 0 0)
        else .error (.freeBadMetadata bits)

end Heap

/-- A block as its caller sees it: the pointer and the bytes asked for. -/
structure Block where
  ptr : Nat
  len : Nat
  deriving DecidableEq

/-- The heap and the blocks that have been returned and not freed. -/
structure HeapState extends Heap where
  live : List Block

inductive HeapOp where
  | malloc (n : Nat)
  | free (p : Nat)
  /-- A caller writes word `i` of its block. -/
  | store (p i : Nat) (v : BitVec 64)
  deriving DecidableEq

namespace HeapOp

def exec (s : HeapState) : HeapOp → Except Halt HeapState
  | malloc n =>
    match s.toHeap.malloc (BitVec.ofNat 64 n) with
    | .error e => .error e
    | .ok (p, h) => .ok { toHeap := h, live := ⟨p, n⟩ :: s.live }
  | free p =>
    match s.toHeap.free p with
    | .error e => .error e
    | .ok h => .ok { toHeap := h, live := s.live.eraseP (fun B => B.ptr = p) }
  | store p i v => .ok { s with toHeap := s.toHeap.poke (p + 8 * i) v }

def Enabled (s : HeapState) : HeapOp → Prop
  | malloc n => 1 ≤ n ∧ n ≤ 3968
  | free p => ∃ B ∈ s.live, B.ptr = p
  | store p i _ => ∃ B ∈ s.live, B.ptr = p ∧ 8 * i < B.len

instance (s : HeapState) : ∀ op : HeapOp, Decidable (op.Enabled s)
  | malloc n => inferInstanceAs (Decidable (1 ≤ n ∧ n ≤ 3968))
  | free p => inferInstanceAs (Decidable (∃ B ∈ s.live, B.ptr = p))
  | store p i _ => inferInstanceAs (Decidable (∃ B ∈ s.live, B.ptr = p ∧ 8 * i < B.len))

def step (s : HeapState) (op : HeapOp) (s' : HeapState) : Prop :=
  op.Enabled s ∧ op.exec s = .ok s'

end HeapOp

end UnnamedOS.Memory
