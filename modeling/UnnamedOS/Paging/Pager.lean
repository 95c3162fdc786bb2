import Mathlib.Data.List.Basic
import UnnamedOS.Lib.Effects

/-!
# Pages and their frames

`page.c`. The page tables are a tree: the entries of a table are kept by the indices that lead to
it, and a table linked to an absent entry is the zeroed page that the entry is made to hold. The
pages of the frame bitmap are kept in the order of their links. An `ERROR` ends the computation
in the state it was raised in.
-/

namespace UnnamedOS.Paging

open UnnamedOS.Lib

/-- The members of `enum ERROR_CODES` that `page.c` and `pf.c` raise, and the sbrk of `syscall.c`. -/
inductive ErrorCode where
  | kpallocNofree | plFnMismatch | pageNofreespace | pageAllocShouldnotexist | ptExistsAlready
  | alNop | ualNop | upaBin | pageFault | pageFaultPv | binfmtBroken
  deriving DecidableEq

inductive Halt where
  | error (code : ErrorCode) (type : UInt64)
  /-- The kernel touches a page that is not mapped. -/
  | fault
  | diverges
  /-- `V2P` has read the entry of another page. The code goes on and links the memory of that page,
  where the tables are no tree any more and end to describe it. -/
  | strayTable
  deriving DecidableEq

def CBASE : UInt64 := 0x8000000000

/-- A present entry: the frame in bits 12 and up, and the flags below. -/
structure Entry where
  frame : Nat
  flags : UInt8
  deriving DecidableEq

/-- The four indices of a virtual page. -/
structure Page where
  pml4 : Nat
  pdpt : Nat
  pde : Nat
  pt : Nat
  deriving DecidableEq

structure Pager where
  pml4 : Nat → Option Entry
  pdpt : Nat → Nat → Option Entry
  pde : Nat → Nat → Nat → Option Entry
  pt : Page → Option Entry
  /-- The 512 quads at `MBASE+0x16000`. -/
  pool : Nat → UInt64
  /-- The 511 words of each page of the list that starts at `PL_MAP_START`. -/
  chain : List (Nat → BitVec 64)
  paCalling : Bool

abbrev PageM := EStateM Halt Pager

/-- The entry that a table access of the processor to the page ends at. -/
def Pager.mapped (s : Pager) (p : Page) : Option Entry :=
  if s.pml4 p.pml4 = none ∨ s.pdpt p.pml4 p.pdpt = none ∨ s.pde p.pml4 p.pdpt p.pde = none then none
  else s.pt p

def pageOf (v : UInt64) : Page where
  pml4 := ((v &&& 0xFF8000000000) >>> 39).toNat
  pdpt := ((v &&& 0x7FC0000000) >>> 30).toNat
  pde := ((v &&& 0x3FE00000) >>> 21).toNat
  pt := ((v &&& 0x1FF000) >>> 12).toNat

/-- The page that `V2P` looks up, with the mask it has for the second index. -/
def v2pPage (v : UInt64) : Page := { pageOf v with pdpt := ((v &&& 0x7FB0000000) >>> 30).toNat }

/-- `V2P(V)>>12`. An absent entry is a zero word. Behind an absent table the code reads a word of
the frame 0, which zero stands for. -/
def Pager.v2pFrame (s : Pager) (v : UInt64) : Nat :=
  match s.mapped (v2pPage v) with
  | none => 0
  | some e => e.frame

def constructVirtualAddress (p : Page) : UInt64 :=
  .ofNat (p.pt * 0x1000 + p.pde * 0x1000 * 512 + p.pdpt * 0x1000 * 512 * 512 +
    p.pml4 * 0x1000 * 512 * 512 * 512)

/-- `1 << n` on an `int`, converted to `uint64_t`. -/
def bit (n : Nat) : BitVec 64 := (1#32 <<< (n % 32)).signExtend 64

section Bitmap

variable (kpalloc : PageM UInt64)

/-- `PT[511] = KPALLOC();` and the `memfill` behind it, on page `p` of the list. What the call has
linked behind `p` meanwhile is lost. -/
def extend (p : Nat) : PageM Unit := do
  let _ ← kpalloc
  modify fun s => { s with chain := s.chain.take (p + 1) ++ [fun _ => 0] }

/-- `if(PT[511] == 0x0)` with its branch, on page `p`. -/
def extendLast (p : Nat) : PageM Unit := do
  let s ← get
  if s.chain.length ≤ p + 1 then extend kpalloc p else return

/-- `LL_NV(index, PLM)` with `PLM` the page `p`: the page and the place in it. -/
def llNv : Nat → Nat → Nat → PageM (Nat × Nat)
  | 0, _, _ => throw .diverges
  | n + 1, index, p => do
    if index > 510 then
      extendLast kpalloc p
      llNv n (index - 511) (p + 1)
    else return (p, index)

def plSv (index : Nat) (val : Bool) : PageM Unit := do
  let (p, w) ← llNv kpalloc (index / 64 + 1) (index / 64) 0
  let mask := bit (index % 64)
  modify fun s => { s with
    chain := s.chain.modify p fun page =>
      Function.update page w (if val then page w ||| mask else page w &&& ~~~mask) }

/-- `while((PT[j]&(1<<m)) != 0x0) m++;`, which comes back to bit 0 after bit 31. -/
def firstClear (word : BitVec 64) : Option Nat :=
  (List.range 32).find? fun m => word &&& bit m = 0

/-- `__builtin_ctzll`. -/
def ctzll (word : BitVec 64) : Option Nat := (List.range 64).find? fun b => word.getLsbD b

/-- The loop of `PL_FN` from page `p` on, whose first bit is number `i`. -/
def plFnLoop : Nat → Nat → Nat → PageM Nat
  | 0, _, _ => throw .diverges
  | n + 1, p, i => do
    let s ← get
    match s.chain[p]? with
    | none => throw .fault
    | some page =>
      match (List.range 511).find? fun j => page j ≠ 0xFFFFFFFFFFFFFFFF with
      | some j =>
        match firstClear (page j) with
        | none => throw .diverges
        | some m =>
          if ctzll (~~~page j) ≠ some m then throw (.error .plFnMismatch (.ofNat m))
          else return i + 64 * j + m
      | none =>
        extendLast kpalloc p
        plFnLoop n (p + 1) (i + 64 * 511)

def plFn : PageM Nat := do
  let s ← get
  plFnLoop kpalloc (s.chain.length + 1) 0 0

/-- A new page for a table, zeroed, and the entry that is made for it. -/
def newTable (flags : UInt8) : PageM Entry := do
  let M ← kpalloc
  let s ← get
  if (s.mapped (pageOf M)).map Entry.frame ≠ some (s.v2pFrame M) then throw .strayTable
  else return ⟨s.v2pFrame M, flags⟩

end Bitmap

def linkPml4 (i : Nat) (e : Entry) (s : Pager) : Pager :=
  { s with
    pml4 := Function.update s.pml4 i (some e)
    pdpt := Function.update s.pdpt i fun _ => none }

def linkPdpt (i j : Nat) (e : Entry) (s : Pager) : Pager :=
  { s with
    pdpt := Function.update s.pdpt i (Function.update (s.pdpt i) j (some e))
    pde := Function.update s.pde i (Function.update (s.pde i) j fun _ => none) }

def linkPde (i j k : Nat) (e : Entry) (s : Pager) : Pager :=
  { s with
    pde := Function.update s.pde i
      (Function.update (s.pde i) j (Function.update (s.pde i j) k (some e)))
    pt := fun p => if p.pml4 = i ∧ p.pdpt = j ∧ p.pde = k then none else s.pt p }

def setPt (p : Page) (e : Option Entry) (s : Pager) : Pager :=
  { s with pt := Function.update s.pt p e }

section Ensure

variable (kpalloc : PageM UInt64) (flags : UInt8) (i j k : Nat)

/-- An absent entry gets a new table. -/
def ensurePml4 : PageM Unit := do
  let s ← get
  if s.pml4 i = none then
    let M ← newTable kpalloc flags
    modify (linkPml4 i M)
  else return

def ensurePdpt : PageM Unit := do
  let s ← get
  if s.pdpt i j = none then
    let M ← newTable kpalloc flags
    modify (linkPdpt i j M)
  else return

def ensurePde : PageM Unit := do
  let s ← get
  if s.pde i j k = none then
    let M ← newTable kpalloc flags
    modify (linkPde i j k M)
  else return

end Ensure

section Search

variable (kpalloc : PageM UInt64) (ad : Nat)

/-- The end of `KP_ALLOC3`: the page `p` gets the frame `ad`. -/
def install (p : Page) : PageM (Option UInt64) := do
  modify fun s => { setPt p (some ⟨ad, 0x1⟩) s with paCalling := false }
  return some (constructVirtualAddress p)

/-- What `KP_ALLOC3` does behind a full page table: it looks at the next entry of the lowest
table that has one. -/
def nextTable (pml4 pdpt pde : Nat) : PageM (Option UInt64) := do
  let s ← get
  if pde < 511 then
    if s.pde pml4 pdpt (pde + 1) = none then
      let M ← newTable kpalloc 0x23
      modify (linkPde pml4 pdpt (pde + 1) M)
      install ad ⟨pml4, pdpt, pde + 1, 0⟩
    else return none
  else if pdpt < 511 then
    if s.pdpt pml4 (pdpt + 1) = none then
      let M ← newTable kpalloc 0x23
      let M2 ← newTable kpalloc 0x23
      modify fun s => linkPde pml4 (pdpt + 1) 0 M2 (linkPdpt pml4 (pdpt + 1) M s)
      install ad ⟨pml4, pdpt + 1, 0, 0⟩
    else return none
  else if pml4 < 511 then
    if s.pml4 (pml4 + 1) = none then
      let M ← newTable kpalloc 0x23
      let M2 ← newTable kpalloc 0x23
      let M3 ← newTable kpalloc 0x23
      modify fun s =>
        linkPde (pml4 + 1) 0 0 M3 (linkPdpt (pml4 + 1) 0 M2 (linkPml4 (pml4 + 1) M s))
      install ad ⟨pml4 + 1, 0, 0, 0⟩
    else return none
  else throw (.error .pageNofreespace 0)

/-- The first absent entry of a page table. -/
def Pager.freePt (s : Pager) (pml4 pdpt pde : Nat) : Option Nat :=
  (List.range 512).find? fun pt => s.pt ⟨pml4, pdpt, pde, pt⟩ = none

/-- A page table with an absent entry ends the search. -/
def usePt (pml4 pdpt pde : Nat) : Option Nat → PageM (Option UInt64)
  | some pt => install ad ⟨pml4, pdpt, pde, pt⟩
  | none => nextTable kpalloc ad pml4 pdpt pde

def searchPde (pml4 pdpt pde : Nat) : PageM (Option UInt64) := do
  ensurePde kpalloc 0x1 pml4 pdpt pde
  let s ← get
  usePt kpalloc ad pml4 pdpt pde (s.freePt pml4 pdpt pde)

def searchPdpt (pml4 pdpt : Nat) : PageM (Option UInt64) := do
  ensurePdpt kpalloc 0x1 pml4 pdpt
  searchFrom (searchPde kpalloc ad pml4 pdpt) 512 0

def searchPml4 (pml4 : Nat) : PageM (Option UInt64) := do
  ensurePml4 kpalloc 0x1 pml4
  searchFrom (searchPdpt kpalloc ad pml4) 512 0

end Search

/-- `KP_ALLOC3` with the `KPALLOC` that it calls. -/
def kpAlloc3 (kpalloc : PageM UInt64) : PageM UInt64 := do
  modify fun s => { s with paCalling := true }
  let ad ← plFn kpalloc
  plSv kpalloc ad true
  match ← searchFrom (searchPml4 kpalloc ad) 511 1 with
  | some v => return v
  | none => throw (.error .pageAllocShouldnotexist 0)

def fillSlot (kpAlloc3 : PageM UInt64) (i : Nat) : PageM Unit := do
  let s ← get
  if s.pool i ≠ 0 then return
  else
    let v ← kpAlloc3
    modify fun s => { s with pool := Function.update s.pool i v }

/-- The loop of `KPALLOC` that fills the empty ones of the first 64 slots. -/
def refill (kpAlloc3 : PageM UInt64) : Nat → Nat → PageM Unit
  | 0, _ => return
  | n + 1, i => do
    fillSlot kpAlloc3 i
    refill kpAlloc3 n (i + 1)

/-- `memfill(k, 0x1000)`. -/
def memfill (k : UInt64) : PageM Unit := do
  let s ← get
  if s.mapped (pageOf k) = none then throw .fault else return

/-- The slots are filled when the page came from slot `AN`. -/
def refillBehind (kpAlloc3 : PageM UInt64) (AN : Nat) : PageM Unit := do
  let s ← get
  if AN ≥ 32 ∧ s.paCalling = false then refill kpAlloc3 64 0 else return

/-- `KPALLOC` with the `KP_ALLOC3` that it calls. -/
def kpallocWith (kpAlloc3 : PageM UInt64) : PageM UInt64 := do
  let s ← get
  match (List.range 512).find? fun i => s.pool i ≠ 0 with
  | none => throw (.error .kpallocNofree 0)
  | some AN =>
    let k := s.pool AN
    set { s with pool := Function.update s.pool AN 0 }
    refillBehind kpAlloc3 AN
    memfill k
    return k

/-- `KPALLOC` with its nested calls down to a depth. -/
def kpallocDepth : Nat → PageM UInt64
  | 0 => throw .diverges
  | n + 1 => kpallocWith (kpAlloc3 (kpallocDepth n))

/-- Under `KP_ALLOC3` there is no deeper `KP_ALLOC3`, as `PA_CALLING` is set. -/
def KPALLOC : PageM UInt64 := kpallocDepth 2

def KP_ALLOC3 : PageM UInt64 := kpAlloc3 KPALLOC

def ALSP (v : UInt64) (flags magic1 magic2 : UInt8) : PageM Unit := do
  let p := pageOf v
  let ad ← plFn KPALLOC
  plSv KPALLOC ad true
  ensurePml4 KPALLOC magic1 p.pml4
  ensurePdpt KPALLOC magic1 p.pml4 p.pdpt
  ensurePde KPALLOC magic1 p.pml4 p.pdpt p.pde
  let s ← get
  if s.pt p ≠ none then throw (.error .ptExistsAlready v)
  else modify (setPt p (some ⟨ad, magic2 ||| flags⟩))

/-- The loop of `UP_ALLOC4` over the pages from `i` on. -/
def alspFrom (flags : UInt8) (initial : UInt64) : Nat → Nat → PageM Unit
  | 0, _ => return
  | n + 1, i => do
    ALSP (initial + .ofNat (0x1000 * i)) flags 0x7 0x5
    alspFrom flags initial n (i + 1)

def UP_ALLOC4 (flags : UInt8) (initial : UInt64) (sizePages : Int) : PageM UInt64 := do
  if sizePages = 0 then throw (.error .ualNop 0)
  else if initial + .ofInt (0x1000 * sizePages) > CBASE ∨ initial &&& 0xfff ≠ 0 then
    throw (.error .upaBin initial)
  else
    alspFrom flags initial sizePages.toNat 0
    return initial

def UPALLOC (flags : UInt8) (initial : UInt64) (sizePages : Int) : PageM UInt64 :=
  UP_ALLOC4 flags initial sizePages

def P_FREE (v : UInt64) : PageM Unit := do
  let s ← get
  plSv KPALLOC (s.v2pFrame v) false
  modify (setPt (pageOf v) none)

end UnnamedOS.Paging
