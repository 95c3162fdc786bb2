import UnnamedOS.Lib.Bytes

/-!
# Flat binaries

`PF` checks the header of a file, copies its segments into user memory and puts the argument
string below or above them. The region that page faults are served in, `brk`, grows with each of
them. Sums are 64-bit and wrap around.
-/

namespace UnnamedOS.Loader

open UnnamedOS.Lib

def CBASE : UInt64 := 0x8000000000

inductive Halt where
  | ERR_FLAT_INV
  deriving DecidableEq

structure ProgMem where
  (start end' : UInt64)

structure PFH where
  TEXT_START : UInt64
  TEXT_END : UInt64
  TEXT_VADD : UInt64
  DATA_START : UInt64
  DATA_END : UInt64
  DATA_VADD : UInt64
  BSS_SIZE : UInt64
  BSS_VADD : UInt64

/-- The header at the start of a file. -/
def PFH.ofFile (fi : UInt64 → UInt8) : PFH :=
  let field (i : Nat) : UInt64 := .ofNat (ofBytes ((List.range 8).map fun o => fi (.ofNat (8 * i + o))))
  { TEXT_START := field 0
    TEXT_END := field 1
    TEXT_VADD := field 2
    DATA_START := field 3
    DATA_END := field 4
    DATA_VADD := field 5
    BSS_SIZE := field 6
    BSS_VADD := field 7 }

/-- A copy by `PF`, from an offset of the file or of the arguments, and the region of that moment. -/
structure Copy where
  dest : UInt64
  len : UInt64
  offset : Option UInt64
  brk : ProgMem

structure Loading where
  brk : ProgMem
  memory : UInt64 → UInt8
  copies : List Copy

def MIN (a b : UInt64) : UInt64 := if a < b then a else b

def MAX (a b : UInt64) : UInt64 := if a > b then a else b

def memcpy (memory : UInt64 → UInt8) (dest : UInt64) (src : UInt64 → UInt8) (count : UInt64) :
    UInt64 → UInt8 :=
  fun a => if a - dest < count then src (a - dest) else memory a

/-- `brk` after a range of user memory has been added. -/
def ProgMem.grow (b : ProgMem) (VADD top : UInt64) : ProgMem :=
  ⟨MIN VADD b.start, MAX top b.end'⟩

def alseg (s : Loading) (VADD END START : UInt64) (fi : UInt64 → UInt8) : Loading :=
  let brk := s.brk.grow VADD (VADD + END - START)
  { brk
    memory := memcpy s.memory VADD (fun i => fi (START + i)) (END - START)
    copies := s.copies ++ [⟨VADD, END - START, some START, brk⟩] }

/-- The tests on a segment of the file. -/
def segExists (VADD END START filesize : UInt64) : Bool :=
  END - START ≠ 0 ∧ END > START ∧ VADD + END - START < CBASE ∧ END < filesize

namespace PFH

variable (M : PFH)

def TEXT_EXISTS (filesize : UInt64) : Bool := segExists M.TEXT_VADD M.TEXT_END M.TEXT_START filesize

def DATA_EXISTS (filesize : UInt64) : Bool := segExists M.DATA_VADD M.DATA_END M.DATA_START filesize

def BSS_EXISTS : Bool := M.BSS_SIZE ≠ 0 ∧ M.BSS_VADD + M.BSS_SIZE < CBASE

end PFH

/-- The string with its terminator, as what stands at its address. -/
def stringBytes (arguments : List UInt8) (i : UInt64) : UInt8 := arguments.getD i.toNat 0

/-- `strlen(arguments)+1` as an `unsigned int`. -/
def argumentsSize (arguments : List UInt8) : UInt64 := (UInt32.ofNat arguments.length + 1).toUInt64

/-- The arguments go below the region if there is room, and else above it. The address is stored as
an `int`. -/
def copyArguments (s : Loading) (arguments : List UInt8) : Loading × Int32 :=
  let k := argumentsSize arguments
  if s.brk.start > k then
    let brk : ProgMem := ⟨s.brk.start - k, s.brk.end'⟩
    ({ brk
       memory := memcpy s.memory brk.start (stringBytes arguments) k
       copies := s.copies ++ [⟨brk.start, k, none, brk⟩] }, brk.start.toUInt32.toInt32)
  else
    let brk : ProgMem := ⟨s.brk.start, s.brk.end' + k⟩
    ({ brk
       memory := memcpy s.memory (brk.end' - k) (stringBytes arguments) k
       copies := s.copies ++ [⟨brk.end' - k, k, none, brk⟩] }, (brk.end' - k).toUInt32.toInt32)

/-- What `PF` leaves: the region, memory and copies, `*argv`, and the entry point. -/
structure Loaded where
  loading : Loading
  argv : Int32
  entry : UInt64

/-- The segments, in the order in which they are copied. -/
def loadSegments (M : PFH) (filesize : UInt64) (fi : UInt64 → UInt8) (s : Loading) : Loading :=
  let s := alseg s M.TEXT_VADD M.TEXT_END M.TEXT_START fi
  let s := if M.DATA_EXISTS filesize then alseg s M.DATA_VADD M.DATA_END M.DATA_START fi else s
  if M.BSS_EXISTS then { s with brk := s.brk.grow M.BSS_VADD (M.BSS_VADD + M.BSS_SIZE) } else s

/-- `brk` is made for a task that has none. -/
def PF (brk : Option ProgMem) (memory fi : UInt64 → UInt8) (filesize : UInt64)
    (arguments : List UInt8) : Except Halt Loaded :=
  let M := PFH.ofFile fi
  let brk := brk.getD ⟨CBASE, 0⟩
  if M.TEXT_EXISTS filesize = false then .error .ERR_FLAT_INV
  else
    let (loading, argv) :=
      copyArguments (loadSegments M filesize fi { brk, memory, copies := [] }) arguments
    .ok { loading, argv, entry := M.TEXT_VADD }

end UnnamedOS.Loader
