import Mathlib.Logic.Function.Basic
import UnnamedOS.Lib.Linear
import UnnamedOS.Lib.Run

/-!
# Tables of streams

`OPEN` and `CLOSE`, `d0xD`, and the ways in which a stream goes from one task to another: `BINDR`,
and the hand-over when a child dies. Memory is seen as streams, 128 to a page, so that descriptor
128, which `CLOSE` lets pass, is the first stream of the next page.
-/

namespace UnnamedOS.Descriptors

open UnnamedOS.Lib

abbrev Task := Nat

/-- What stands where a stream has its function. -/
inductive Function where
  | NULL
  | StdIOStream
  | FileStream
  | other (address : UInt64)
  deriving DecidableEq

/-- `arguments` is the address of a `stdIO` or of a pointer to an inode. -/
structure Stream where
  function : Function
  arguments : Nat
  position : UInt64
  flags : UInt64
  deriving DecidableEq

/-- What `memfill` leaves. -/
def Stream.zero : Stream where
  function := .NULL
  arguments := 0
  position := 0
  flags := 0

/-- What `inSO` makes of a stream, and `openDEV` for the terminal. -/
def Stream.inSO (p : Nat) : Stream where
  function := .StdIOStream
  arguments := p
  position := 0
  flags := 0

/-- `DIV64_32(0x1000,sizeof(stream))`. -/
def kernelFdLen : Nat := 128

/-- `alive` stands for all states but these three. -/
inductive TaskState where
  | alive
  | STATE_WAITING_FOR_DEATH
  | STATE_DEAD
  | STATE_BURIED
  deriving DecidableEq

structure Device where
  DEV_NAME : List UInt8
  streamID : Nat

structure Kernel where
  stream : Nat → Stream
  /-- The page, `none` for a null pointer. -/
  file_descriptors : Task → Option Nat
  parent : Task → Option Task
  /-- `none` where there is no task. -/
  state : Task → Option TaskState
  DEAD_TASKS : List Task
  kernelFdLastClosed : Nat
  /-- As long as `LAST_DEVICE`. -/
  DEVICE_LIST : List Device
  allocated : Nat → Bool

inductive Halt where
  | ERR_FD_TOOHIGH
  | ERR_FD_DNE
  | ERR_DEV_NF
  | ERR_FCPID
  | ERR_DOUBLE_FREE
  /-- An access that the source does not define. -/
  | undefined
  deriving DecidableEq

namespace Kernel

variable (k : Kernel)

def put (i : Nat) (m : Stream) : Kernel := { k with stream := Function.update k.stream i m }

def setState (t : Task) (s : TaskState) : Kernel :=
  { k with state := Function.update k.state t (some s) }

/-- `malloc` has returned `p`. -/
def malloc (p : Nat) : Kernel := { k with allocated := Function.update k.allocated p true }

def free (p : Nat) : Except Halt Kernel :=
  if k.allocated p then .ok { k with allocated := Function.update k.allocated p false }
  else .error .ERR_DOUBLE_FREE

/-- The address of a task's table. -/
def kernelFd (t : Task) : Except Halt Nat :=
  match k.file_descriptors t with
  | none => .error .undefined
  | some page => .ok (kernelFdLen * page)

/-- `while(fd<kernelFdLen && kernelFd[fd].function != NULL) fd++;` -/
def firstClosed (base : Nat) : Nat → Nat → Nat
  | 0, fd => fd
  | todo + 1, fd =>
    if (k.stream (base + fd)).function = .NULL then fd else firstClosed base todo (fd + 1)

/-- The search from where it last ended, and once more from the start. -/
def closedFd (base : Nat) : Nat :=
  let fd := k.firstClosed base (kernelFdLen - k.kernelFdLastClosed) k.kernelFdLastClosed
  if fd = kernelFdLen then k.firstClosed base kernelFdLen 0 else fd

/-- `"tty"`. -/
def tty : List UInt8 := [0x74, 0x74, 0x79]

/-- The stream that `dOpen` makes has the function of the device's, whatever that is. -/
def dOpen (name : List UInt8) (p : Nat) : Except Halt Stream :=
  match k.DEVICE_LIST.find? (·.DEV_NAME = name) with
  | none => .error .ERR_DEV_NF
  | some d => .ok { Stream.inSO p with function := (k.stream d.streamID).function }

def openDEV (name : List UInt8) (p : Nat) : Except Halt Stream :=
  if name = tty then .ok (.inSO p) else k.dOpen name p

/-- What `openFilename` finds: an inode, or the last component of a name. -/
inductive Target where
  | file
  | stream (name : List UInt8)

def Target.opened (flags : UInt64) (p : Nat) : Target → Except Halt Stream
  | .file => .ok { function := .FileStream, arguments := p, position := 0, flags }
  | .stream name => k.openDEV name p

/-- The two loops of `OPEN`. -/
def search (base : Nat) : Except Halt Kernel :=
  let fd := k.closedFd base
  if fd = kernelFdLen then .error .ERR_FD_TOOHIGH else .ok { k with kernelFdLastClosed := fd }

/-- `memcpy(kernelFd+kernelFdLastClosed, m, sizeof(stream));` -/
def copyStream (base : Nat) (m : Stream) : Kernel := k.put (base + k.kernelFdLastClosed) m

/-- With `p` for the arguments of the new stream. What it returns is the hint it leaves. -/
def OPEN (t : Task) (target : Target) (flags : UInt64) (p : Nat) : Except Halt Kernel := do
  let base ← k.kernelFd t
  let m ← target.opened k flags p
  let k ← (k.malloc p).search base
  return k.copyStream base m

/-- `CLOSE` but for the hint. Both functions free the arguments when a stream is closed. -/
def closeSlot (t : Task) (fd : Nat) : Except Halt Kernel := do
  let base ← k.kernelFd t
  if fd > kernelFdLen then .error .ERR_FD_TOOHIGH
  else
    let m := k.stream (base + fd)
    match m.function with
    | .NULL => .error .ERR_FD_DNE
    | .other _ => .error .undefined
    | .StdIOStream | .FileStream => do
      let k ← k.free m.arguments
      return k.put (base + fd) { m with function := .NULL }

def CLOSE (t : Task) (fd : Nat) : Except Halt Kernel := do
  let k ← k.closeSlot t fd
  return { k with kernelFdLastClosed := fd }

/-- Only a task that waits for a death is of interest here. -/
def unblock_task (t : Task) : Kernel :=
  if k.state t = some .STATE_WAITING_FOR_DEATH then k.setState t .alive else k

/-- With `p` for a new `stdIO`. -/
def d0xD (t : Task) (name : List UInt8) (p : Nat) : Except Halt Kernel := do
  let base ← k.kernelFd t
  let K : Device := { DEV_NAME := name, streamID := base }
  let k := { k with DEVICE_LIST := k.DEVICE_LIST ++ [K] }
  let k := if (k.stream base).function = .NULL then (k.malloc p).put base (.inSO p) else k
  match k.parent t with
  | none => .error .undefined
  | some parent => return k.unblock_task parent

def InitKernelFd (t : Task) (page : Nat) : Kernel :=
  { k with
    stream := fun i => if i / kernelFdLen = page then .zero else k.stream i
    file_descriptors := Function.update k.file_descriptors t (some page)
    kernelFdLastClosed := 0 }

/-- A recipient without a table has its stream at address 0, in the user half. `lost` says whether
what stands there is taken for a stream without a `stdIO`. -/
def giveSTDIOback (recipient donor : Task) (dfdn : Nat) (lost : Bool) : Except Halt Kernel := do
  let dfd ← k.kernelFd donor
  match k.file_descriptors recipient with
  | none => return if lost then k.put (dfd + dfdn) .zero else k
  | some page =>
    let rfd := kernelFdLen * page
    if (k.stream rfd).function ≠ .StdIOStream then
      return (k.put rfd (k.stream (dfd + dfdn))).put (dfd + dfdn) .zero
    else return k

def BINDR (t b : Task) (fd : Nat) (lost : Bool) : Except Halt Kernel :=
  if k.parent b = some t ∧ k.state b ≠ none then k.giveSTDIOback b t fd lost
  else .error .ERR_FCPID

def murderChild (t mother : Task) (lost : Bool) : Except Halt Kernel :=
  if k.state mother = none then .error .undefined
  else if k.state mother ≠ some .STATE_WAITING_FOR_DEATH ∨ k.state t = some .STATE_BURIED then .ok k
  else do
    let k ← k.giveSTDIOback mother t 0 lost
    return k.unblock_task mother

/-- `if(task->parent) murderChild(task);` -/
def mourn (t : Task) (lost : Bool) : Except Halt Kernel :=
  match k.parent t with
  | none => .ok k
  | some mother => k.murderChild t mother lost

/-- What `reap` does for one task: its table and its TCB are given back. -/
def reapTask (t : Task) (lost : Bool) : Except Halt Kernel := do
  let k ← k.mourn t lost
  return { k with
    file_descriptors := Function.update k.file_descriptors t none
    state := Function.update k.state t none }

def reap (lost : Task → Bool) : Except Halt Kernel := do
  let k ← k.DEAD_TASKS.foldlM (fun k t => k.reapTask t (lost t)) k
  return { k with DEAD_TASKS := [] }

/-- `PROC_EXIT`, as far as `schedule` goes. With `buried` there is nobody else to run, and the
mother takes over at once. -/
def PROC_EXIT (t : Task) (buried : Bool) (lost : Task → Bool) : Except Halt Kernel := do
  let k ← (k.setState t .STATE_DEAD).reap lost
  let k := { k with DEAD_TASKS := t :: k.DEAD_TASKS }
  if buried then
    match k.parent t with
    | none => .error .undefined
    | some mother =>
      if k.state mother = some .STATE_WAITING_FOR_DEATH then do
        let k ← (k.setState t .STATE_BURIED).giveSTDIOback mother t 0 (lost t)
        return k.setState mother .alive
      else .error .undefined
  else return k

def ckprocA (t M : Task) : Kernel :=
  { k with
    file_descriptors := Function.update k.file_descriptors M none
    parent := Function.update k.parent M (some t)
    state := Function.update k.state M (some .alive) }

/-- A page that is no table gets other contents. -/
def fill (page : Nat) (contents : Nat → Stream) : Kernel :=
  { k with stream := fun i =>
      if i / kernelFdLen = page then contents (i % kernelFdLen) else k.stream i }

end Kernel

open Kernel

/-- With what `malloc` and `KPALLOC` return. -/
inductive Op where
  | ckprocA (t M : Task)
  | InitKernelFd (t : Task) (page : Nat)
  | OPEN (t : Task) (target : Target) (flags : UInt64) (p : Nat)
  | CLOSE (t : Task) (fd : Nat)
  | d0xD (t : Task) (name : List UInt8) (p : Nat)
  | BINDR (t b : Task) (fd : Nat) (lost : Bool)
  | waitForChildToDie (t : Task)
  | unblock_task (t : Task)
  | schedule (lost : Task → Bool)
  | PROC_EXIT (t : Task) (buried : Bool) (lost : Task → Bool)
  | fill (page : Nat) (contents : Nat → Stream)

/-- A function that `CLOSE` can call. -/
def Function.IsStream (f : Function) : Prop := f = .StdIOStream ∨ f = .FileStream

/-- A page that is nobody's table. -/
def Kernel.FreePage (k : Kernel) (page : Nat) : Prop := ∀ t, k.file_descriptors t ≠ some page

/-- A task makes its system calls while it is alive. `malloc` returns what is not allocated, and
`KPALLOC` a page that is nobody's table. No other page spells a stream. -/
def Op.step (k : Kernel) : Op → Kernel → Prop
  | .ckprocA t M, k' => k.state t = some .alive ∧ k.state M = none ∧ k' = k.ckprocA t M
  | .InitKernelFd t page, k' =>
    k.state t = some .alive ∧ k.FreePage page ∧ k' = k.InitKernelFd t page
  | .OPEN t target flags p, k' =>
    k.state t = some .alive ∧ k.allocated p = false ∧ k.OPEN t target flags p = .ok k'
  | .CLOSE t fd, k' => k.state t = some .alive ∧ k.CLOSE t fd = .ok k'
  | .d0xD t name p, k' =>
    k.state t = some .alive ∧ k.allocated p = false ∧ k.d0xD t name p = .ok k'
  | .BINDR t b fd lost, k' => k.state t = some .alive ∧ k.BINDR t b fd lost = .ok k'
  | .waitForChildToDie t, k' =>
    k.state t = some .alive ∧ k' = k.setState t .STATE_WAITING_FOR_DEATH
  | .unblock_task t, k' => k' = k.unblock_task t
  | .schedule lost, k' => k.reap lost = .ok k'
  | .PROC_EXIT t buried lost, k' =>
    k.state t = some .alive ∧ k.PROC_EXIT t buried lost = .ok k'
  | .fill page contents, k' =>
    k.FreePage page ∧ (∀ i, ¬ (contents i).function.IsStream) ∧ k' = k.fill page contents

/-- The descriptor that a child is bound to is in range. -/
def Op.InRange : Op → Prop
  | .BINDR _ _ fd _ => fd < kernelFdLen
  | _ => True

end UnnamedOS.Descriptors
