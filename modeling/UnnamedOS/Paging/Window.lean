import UnnamedOS.Lib.Radix
import UnnamedOS.Paging.PoolSafety

/-!
# The page tables through their window

`manualptVlookup` and the accesses of `page.c` behind it, over the quads of physical memory. The
processor may translate an address by a walk of the tables or by a translation that it has cached,
and it may have cached any translation since it has been made to forget them. At an access it may mark
entries as accessed or dirty.
-/

namespace UnnamedOS.Paging

open UnnamedOS.Lib

/-- An entry of the table at the end of a path, and the bits that the processor sets there. -/
structure Mark where
  table : List (Fin 512)
  index : Fin 512
  bits : UInt64

/-- `phys` has the quads of each frame. A page is `cached` with the frames that it may be translated to
besides the one in the tables, `oracle` says which of all these is taken at an access, and `marks` what
is marked then. -/
structure Mmu where
  phys : ℕ → Fin 512 → UInt64
  cached : Page → List ℕ
  oracle : ℕ → ℕ
  marks : ℕ → List Mark
  accesses : ℕ

inductive Trap where
  | pageFault (v : UInt64)
  | mbaseToohigh (offset : UInt64)
  deriving DecidableEq

abbrev MmuM := EStateM Trap Mmu

def Page.path (p : Page) : List (Fin 512) :=
  [.ofNat 512 p.pml4, .ofNat 512 p.pdpt, .ofNat 512 p.pde, .ofNat 512 p.pt]

/-- The frame that a present entry names. -/
def entryFrame (q : UInt64) : Option ℕ := if q &&& 1 = 0 then none else some (q >>> 12).toNat

/-- The frame of `PML4T_A`, which is in `%cr3`. -/
def rootFrame : ℕ := 0x30

/-- The accessed and the dirty bit are 5 and 6. Absent entries are left alone. -/
def mark (phys : ℕ → Fin 512 → UInt64) (m : Mark) : ℕ → Fin 512 → UInt64 :=
  if m.table.length ≤ 3 then
    match Lib.descend entryFrame phys rootFrame m.table with
    | none => phys
    | some f =>
      if phys f m.index &&& 1 = 0 then phys
      else put phys f m.index (phys f m.index ||| m.bits &&& 0x60)
  else phys

namespace Mmu

variable (s : Mmu)

def walk (ps : List (Fin 512)) : Option ℕ := Lib.descend entryFrame s.phys rootFrame ps

/-- The frames that an access to the page may go to. -/
def candidates (p : Page) : List ℕ := s.cached p ++ (s.walk p.path).toList

end Mmu

def translate (v : UInt64) : MmuM ℕ := do
  let s ← get
  let frames := s.candidates (pageOf v)
  match frames[s.oracle s.accesses % frames.length]? with
  | none => throw (.pageFault v)
  | some f =>
    modify fun s => { s with
      phys := (s.marks s.accesses).foldl mark s.phys
      accesses := s.accesses + 1 }
    return f

def quadIndex (v : UInt64) : Fin 512 := .ofNat 512 (v.toNat % 4096 / 8)

def load (v : UInt64) : MmuM UInt64 := do
  let f ← translate v
  let s ← get
  return s.phys f (quadIndex v)

/-- Any translation may have been cached before the store. -/
def store (v q : UInt64) : MmuM Unit := do
  let f ← translate v
  modify fun s => { s with
    phys := put s.phys f (quadIndex v) q
    cached := s.candidates }

def FLUSH_TLB : MmuM Unit := modify fun s => { s with cached := fun _ => [] }

/-- The variable `offset` of `manualptVlookup`. -/
def windowOffset : UInt64 := (((MBASE - CBASE) >>> 12) + 0x1c) <<< 3

def manualptVlookup (AD : UInt64) : MmuM UInt64 := do
  if windowOffset ≥ 0x1000 then throw (.mbaseToohigh windowOffset)
  else
    store (MBASE + 0x13000 + windowOffset) (AD ||| 0x3)
    FLUSH_TLB
    return MBASE + 0x1c000

/-- The address of quad `i` of an array. -/
def at8 (P : UInt64) (i : Fin 512) : UInt64 := P + 8 * .ofNat i

section Lookup

variable (pml4 pdpt pde pt : Fin 512)

def get_pml4V : MmuM UInt64 := load (at8 (MBASE + 0x10000) pml4)

def get_pml4VP : MmuM UInt64 := do
  let q ← get_pml4V pml4
  manualptVlookup (q &&& ~~~0xFFF)

def get_pdptV : MmuM UInt64 := do
  let q ← get_pml4V pml4
  let P ← manualptVlookup (q &&& ~~~0xFFF)
  load (at8 P pdpt)

def get_pdptVP : MmuM UInt64 := do
  let q ← get_pdptV pml4 pdpt
  manualptVlookup (q &&& ~~~0xFFF)

def get_pdeV : MmuM UInt64 := do
  let q ← get_pdptV pml4 pdpt
  let P ← manualptVlookup (q &&& ~~~0xFFF)
  load (at8 P pde)

def get_pdeVP : MmuM UInt64 := do
  let q ← get_pdeV pml4 pdpt pde
  manualptVlookup (q &&& ~~~0xFFF)

def get_ptV : MmuM UInt64 := do
  let q ← get_pdeV pml4 pdpt pde
  let P ← manualptVlookup (q &&& ~~~0xFFF)
  load (at8 P pt)

end Lookup

def V2P (V : UInt64) : MmuM UInt64 := do
  let offset := V &&& 0xFFF
  let pt := (V &&& 0x1FF000) >>> 12
  let pde := (V &&& 0x3FE00000) >>> 21
  let pdpt := (V &&& 0x7FB0000000) >>> 30
  let pml4 := (V &&& 0xFF8000000000) >>> 39
  let q ← get_ptV (.ofNat 512 pml4.toNat) (.ofNat 512 pdpt.toNat) (.ofNat 512 pde.toNat)
    (.ofNat 512 pt.toNat)
  return (q &&& ~~~0xFFF) + offset

section Stores

variable (pml4 pdpt pde pt : Fin 512) (q : UInt64)

/-! The stores to the tables. The compiler has the value before the place. -/

def setPml4V : MmuM Unit := store (at8 (MBASE + 0x10000) pml4) q

def setPdptV : MmuM Unit := do
  let P ← get_pml4VP pml4
  store (at8 P pdpt) q

def setPdeV : MmuM Unit := do
  let P ← get_pdptVP pml4 pdpt
  store (at8 P pde) q

def setPtV : MmuM Unit := do
  let P ← get_pdeVP pml4 pdpt pde
  store (at8 P pt) q

end Stores

end UnnamedOS.Paging
