import Mathlib.Logic.Function.Basic
import Mathlib.Data.List.Basic

/-!
# Task control blocks and the scheduler

`proc.c`, `switch_to_task` of `asmbridge.S` and `loadRSP0` of `usermode.c`. The
memory holding the task control blocks is one map per structure field, indexed by
the address of the block; freed blocks keep their contents until `ckprocA` takes
the address again. `ERROR` never returns, so it ends the computation.
-/

namespace UnnamedOS.Proc

/-- The address of a `thread_control_block`; `NULL` is `none`. -/
abbrev Tid := Nat

/-- `enum task_states`. -/
inductive TaskState where
  | running | ready | waiting | dead | paused | waitingForIrq | waitingForProcUpdate
  | waitingForLock | waitingForPoke | waitingForDeath | buried
  deriving DecidableEq, Repr

/-- The members of `enum ERROR_CODES` that `proc.c` and `usermode.c` raise. -/
inductive ErrorCode where
  | notUm | ttNt | pitWfiMisp | tfnttnnz | pokeNullp | taskShouldBeRunning | taskBadunblock
  | shouldNotBeReady | shouldNotBeReady2 | shouldNotBeReady3 | amberAlert
  deriving DecidableEq, Repr

/-- The ways a kernel computation stops for good. -/
inductive Halt where
  | error (code : ErrorCode) (type : Nat)
  | fault
  | nullPointer
  | diverges
  deriving DecidableEq, Repr

structure Kernel where
  rsp0 : Tid → UInt64
  next : Tid → Option Tid
  state : Tid → TaskState
  ttn : Tid → UInt64
  timeUsed : Tid → UInt64
  irqWaitingFor : Tid → UInt8
  pl : Tid → UInt8
  timeoutFunction : Tid → Option UInt64
  cr3 : Tid → UInt64
  pid : Tid → UInt64
  parent : Tid → Option Tid
  children : Tid → List Tid
  /-- The quad at `rsp+48` of a task that is switched out, once overwritten. -/
  returnAddress : Tid → Option UInt64
  /-- `IRQ_disable_counter` decrements left on the stack of a task that is switched out. -/
  stackUnlocks : Tid → Nat
  /-- Blocks that `malloc` handed out and `free` did not take back. -/
  allocated : List Tid
  /-- Pages that `KPALLOC` handed out and `P_FREE` did not take back. -/
  pages : List UInt64
  currentTaskTCB : Option Tid
  /-- The variable `task` of `schedule` while it waits in the idle loop. -/
  idleTask : Option Tid
  firstThread : Option Tid
  lastThread : Option Tid
  deadTasks : Option Tid
  sleepingTaskList : Option Tid
  irqwaiting : Option Tid
  irqDisableCounter : Int
  postponeTaskSwitchesCounter : Int
  taskSwitchesPostponedFlag : Bool
  timeSliceRemaining : UInt64
  lastCount : UInt64
  cpuIdleTime : UInt64
  time : UInt64
  nextPID : UInt64
  irqscalled : UInt64
  iopl : UInt8
  /-- `rsp0` of the task state segment. -/
  tssRsp0 : UInt64
  /-- Entry 0 of the live top-level page table, and the first quad of each `cr3` page. -/
  pml4Slot0 : UInt64
  cr3Word : UInt64 → UInt64

namespace Kernel

variable (k : Kernel)

def setNext (t : Tid) (p : Option Tid) : Kernel := { k with next := Function.update k.next t p }

def setState (t : Tid) (s : TaskState) : Kernel :=
  { k with state := Function.update k.state t s }

def lockScheduler : Kernel := { k with irqDisableCounter := k.irqDisableCounter + 1 }

def unlockScheduler : Kernel := { k with irqDisableCounter := k.irqDisableCounter - 1 }

def lockStuff : Kernel :=
  { k with
    irqDisableCounter := k.irqDisableCounter + 1
    postponeTaskSwitchesCounter := k.postponeTaskSwitchesCounter + 1 }

/-- A call of `schedule` that is followed by one decrement of `IRQ_disable_counter`. The
decrement is made when the task runs again. -/
def pushUnlock : Kernel :=
  match k.currentTaskTCB with
  | none => k
  | some c => { k with stackUnlocks := Function.update k.stackUnlocks c (k.stackUnlocks c + 1) }

/-- The running task returns from the scheduler and makes the decrements it left behind. -/
def resume : Kernel :=
  match k.currentTaskTCB with
  | none => k
  | some c =>
    { k with
      irqDisableCounter := k.irqDisableCounter - k.stackUnlocks c
      stackUnlocks := Function.update k.stackUnlocks c 0 }

def updateTimeUsed : Kernel :=
  let elapsed := k.lastCount - k.time
  match k.currentTaskTCB with
  | none => { k with lastCount := k.time, cpuIdleTime := k.cpuIdleTime + elapsed }
  | some c =>
    { k with
      lastCount := k.time
      timeUsed := Function.update k.timeUsed c (k.timeUsed c + elapsed) }

/-- The two writes of `loadRSP0`, to the task `c` and to the task state segment. -/
def setRSP0 (c : Tid) (rsp : UInt64) : Kernel :=
  { k with rsp0 := Function.update k.rsp0 c rsp, tssRsp0 := rsp }

def loadRSP0 (rsp : UInt64) : Except Halt Kernel :=
  match k.currentTaskTCB with
  | none => .error .nullPointer
  | some c => .ok (k.setRSP0 c rsp)

/-- `LAST_THREAD->next = task; LAST_THREAD = task;` -/
def appendThread (task : Tid) : Except Halt Kernel :=
  match k.lastThread with
  | none => .error .nullPointer
  | some last => .ok { k.setNext last (some task) with lastThread := some task }

/-- The exchange of the user half of the address space in `switch_to_task`. -/
def swapUserMemory (old task : Tid) : Kernel :=
  if k.cr3 task = k.cr3 old then k
  else
    let words := Function.update k.cr3Word (k.cr3 old) k.pml4Slot0
    { k with cr3Word := words, pml4Slot0 := words (k.cr3 task) }

/-- The first half of `switch_to_task`: a task that still runs goes back on the list. -/
def requeue (old : Tid) : Except Halt Kernel :=
  if k.state old = .running then
    match (k.setState old .ready).appendThread old with
    | .error e => .error e
    | .ok k => .ok (k.setNext old none)
  else .ok k

def switchToTask (task : Tid) : Except Halt Kernel :=
  match k.currentTaskTCB with
  | none => .error .nullPointer
  | some old =>
    match k.requeue old with
    | .error e => .error e
    | .ok k =>
      .ok ({ k.setState task .running with currentTaskTCB := some task }.swapUserMemory old task)

def switchToTaskWrapper (task : Tid) : Except Halt Kernel :=
  if k.postponeTaskSwitchesCounter ≠ 0 then .ok { k with taskSwitchesPostponedFlag := true }
  else
    match k.currentTaskTCB with
    | none => .error .nullPointer
    | some c =>
      if k.state c = .ready then .error (.error .shouldNotBeReady2 c)
      else
        let slice : UInt64 := if k.firstThread = none ∧ k.state c ≠ .running then 0 else 50000000
        let k := { k with timeSliceRemaining := slice }.updateTimeUsed
        let k := { k with iopl := if k.pl task = 2 then 3 else 0 }
        match k.loadRSP0 (k.rsp0 task) with
        | .error e => .error e
        | .ok k => k.switchToTask task

def unblockTask (task : Tid) : Except Halt Kernel :=
  let k := k.lockScheduler
  if k.state task = .running then .error (.error .taskShouldBeRunning task)
  else if k.state task = .ready then .error (.error .taskBadunblock task)
  else
    let k := k.setState task .ready
    -- the branches for an idle and for a running processor do the same to the list
    match k.firstThread with
    | none =>
      let k := { k with lastThread := some task }.setNext task none
      .ok { k with firstThread := k.lastThread }.unlockScheduler
    | some _ =>
      match k.appendThread task with
      | .error e => .error e
      | .ok k => .ok k.unlockScheduler

def appendChild (a b : Tid) : Kernel :=
  { k with
    children := Function.update k.children a (b :: k.children a)
    parent := if k.parent b = none then Function.update k.parent b (some a) else k.parent }

def murderChild (child : Tid) : Except Halt Kernel :=
  match k.parent child with
  | none => .error .nullPointer
  | some mother =>
    if child ∉ k.children mother then .error (.error .amberAlert child)
    else
      let k :=
        { k with children := Function.update k.children mother ((k.children mother).erase child) }
      if k.state mother ≠ .waitingForDeath ∨ k.state child = .buried then .ok k
      else k.unblockTask mother

/-- `if(task->cr3) P_FREE(task->cr3);` -/
def freeCr3 (task : Tid) : Kernel :=
  if k.cr3 task = 0 then k else { k with pages := k.pages.erase (k.cr3 task) }

/-- `if(task->pid != 0x0) free(task);` -/
def freeTask (task : Tid) : Kernel :=
  if k.pid task = 0 then k else { k with allocated := k.allocated.erase task }

/-- The body of `ckprocA` up to the ready list: `M` is the block `malloc` returns, `M2` and
`cr3` are the two pages. -/
def initTask (cur M : Tid) (M2 cr3 : UInt64) : Kernel :=
  { k with
    rsp0 := Function.update k.rsp0 M (M2 + 0xFF8)
    next := Function.update k.next M none
    state := Function.update k.state M .ready
    ttn := Function.update k.ttn M 0
    timeUsed := Function.update k.timeUsed M 0
    irqWaitingFor := Function.update k.irqWaitingFor M 0
    pl := Function.update k.pl M 0
    timeoutFunction := Function.update k.timeoutFunction M none
    cr3 := Function.update k.cr3 M cr3
    pid := Function.update k.pid M k.nextPID
    parent := Function.update k.parent M none
    children := Function.update k.children M []
    returnAddress := Function.update k.returnAddress M none
    stackUnlocks := Function.update k.stackUnlocks M 0
    cr3Word := Function.update k.cr3Word cr3 0
    nextPID := k.nextPID + 1
    allocated := M :: k.allocated
    pages := cr3 :: M2 :: k.pages }.appendChild cur M

def ckprocA (M : Tid) (M2 cr3 : UInt64) : Except Halt Kernel :=
  match k.currentTaskTCB with
  | none => .error .nullPointer
  | some cur =>
    let k := k.initTask cur M M2 cr3
    match k.firstThread with
    | some _ => k.appendThread M
    | none => .ok { k with firstThread := some M, lastThread := some M }

end Kernel

/-- The loop of `reap`. The bound is the number of blocks: the list of dead tasks is no longer. -/
def reapLoop : Nat → Option Tid → Kernel → Except Halt Kernel
  | _, none, k => .ok k
  | 0, some _, _ => .error .diverges
  | n + 1, some task, k =>
    match (if k.parent task = none then .ok k else k.murderChild task) with
    | .error e => .error e
    | .ok k =>
      let k := k.freeCr3 task
      reapLoop n (k.next task) (k.freeTask task)

namespace Kernel

variable (k : Kernel)

def reap : Except Halt Kernel :=
  match reapLoop (k.allocated.length + 1) k.deadTasks k with
  | .error e => .error e
  | .ok k => .ok { k with deadTasks := none }

/-- `current_task_TCB->next = DEAD_TASKS; DEAD_TASKS = current_task_TCB;` -/
def buryLater (c : Tid) : Kernel :=
  if k.state c = .dead then { k.setNext c k.deadTasks with deadTasks := some c } else k

/-- `schedule` has nothing to switch to and waits for an interrupt. -/
def goIdle (c : Tid) : Kernel :=
  { k with currentTaskTCB := none, idleTask := some c, timeSliceRemaining := 0 }

/-- `schedule` entered by task `c`, after `reap` and with a dead `c` on the reaper's list. The
last case is the entry of the idle loop, which interrupt handlers leave `FIRST_THREAD` set for. -/
def pickNext (c : Tid) : Except Halt Kernel :=
  match k.firstThread with
  | some task => { k with firstThread := k.next task }.switchToTaskWrapper task
  | none =>
    if k.state c = .running then .ok k
    else if k.state c = .dead then
      match k.parent c with
      | none => .error .nullPointer
      | some p =>
        if k.state p = .waitingForDeath then (k.setState c .buried).switchToTaskWrapper p
        else .ok (k.goIdle c)
    else if k.state c = .ready then .error (.error .shouldNotBeReady c)
    else .ok (k.goIdle c)

def schedule : Except Halt Kernel :=
  if k.postponeTaskSwitchesCounter ≠ 0 then .ok { k with taskSwitchesPostponedFlag := true }
  else
    match k.currentTaskTCB with
    | none => .error .nullPointer
    | some c =>
      if k.state c = .ready then .error (.error .shouldNotBeReady3 c)
      else
        match k.reap with
        | .error e => .error e
        | .ok k => (k.buryLater c).pickNext c

/-- The end of `schedule` once the idle loop has seen a ready task. -/
def leaveIdle : Except Halt Kernel :=
  match k.idleTask, k.firstThread with
  | some c, some task =>
    let k := { k with currentTaskTCB := some c, idleTask := none, firstThread := k.next task }
    if task ≠ c then
      match k.switchToTaskWrapper task with
      | .error e => .error e
      | .ok k => .ok k.resume
    else .ok (k.setState c .running).resume
  | _, _ => .error .nullPointer

/-- A call of `schedule` with one unlock behind it, up to where the next running task has
returned from the scheduler. -/
def scheduleThenUnlock : Except Halt Kernel :=
  match k.pushUnlock.schedule with
  | .error e => .error e
  | .ok k => .ok k.resume

def unlockStuff : Except Halt Kernel :=
  if k.postponeTaskSwitchesCounter = 0 then .error .fault
  else
    let k := { k with postponeTaskSwitchesCounter := k.postponeTaskSwitchesCounter - 1 }
    if k.postponeTaskSwitchesCounter = 0 ∧ k.taskSwitchesPostponedFlag = true then
      if k.currentTaskTCB = none then .error .fault
      else { k with taskSwitchesPostponedFlag := false }.scheduleThenUnlock
    else .ok k.unlockScheduler

def blockTask (reason : TaskState) : Except Halt Kernel :=
  match k.currentTaskTCB with
  | none => .error .nullPointer
  | some c => (k.lockScheduler.setState c reason).scheduleThenUnlock

def procExit : Except Halt Kernel :=
  match k.currentTaskTCB with
  | none => .error .nullPointer
  | some c =>
    match (k.lockScheduler.setState c .dead).unlockScheduler.schedule with
    | .error e => .error e
    | .ok k => .ok k.resume

/-- The state after `initialize_multitasking`: the boot task `t` at `MBASE+0x1d000` with the
page `cr3`. Memory that holds no task control block yet is `junk`. -/
def initializeMultitasking (junk : Kernel) (t : Tid) (cr3 : UInt64) : Kernel :=
  { junk with
    rsp0 := Function.update junk.rsp0 t 0x8000007bff
    next := Function.update junk.next t none
    state := Function.update junk.state t .running
    ttn := Function.update junk.ttn t 0
    timeUsed := Function.update junk.timeUsed t 0
    irqWaitingFor := Function.update junk.irqWaitingFor t 0
    pl := Function.update junk.pl t 0
    timeoutFunction := Function.update junk.timeoutFunction t none
    cr3 := Function.update junk.cr3 t cr3
    pid := Function.update junk.pid t 1
    parent := Function.update junk.parent t none
    children := Function.update junk.children t []
    returnAddress := Function.update junk.returnAddress t none
    stackUnlocks := Function.update junk.stackUnlocks t 0
    allocated := [t]
    pages := [cr3]
    currentTaskTCB := some t
    idleTask := none
    firstThread := none
    lastThread := none
    deadTasks := none
    sleepingTaskList := none
    irqwaiting := none
    irqDisableCounter := 0
    postponeTaskSwitchesCounter := 0
    taskSwitchesPostponedFlag := false
    timeSliceRemaining := 50000000
    lastCount := 0
    cpuIdleTime := 0
    time := 0
    nextPID := 2
    irqscalled := 0
    iopl := 0
    tssRsp0 := 0x8000040000
    pml4Slot0 := 0
    cr3Word := Function.update junk.cr3Word cr3 0 }

/-- Memory full of zeroes, before `initialize_multitasking`. -/
def zeroed : Kernel where
  rsp0 _ := 0
  next _ := none
  state _ := .running
  ttn _ := 0
  timeUsed _ := 0
  irqWaitingFor _ := 0
  pl _ := 0
  timeoutFunction _ := none
  cr3 _ := 0
  pid _ := 0
  parent _ := none
  children _ := []
  returnAddress _ := none
  stackUnlocks _ := 0
  allocated := []
  pages := []
  currentTaskTCB := none
  idleTask := none
  firstThread := none
  lastThread := none
  deadTasks := none
  sleepingTaskList := none
  irqwaiting := none
  irqDisableCounter := 0
  postponeTaskSwitchesCounter := 0
  taskSwitchesPostponedFlag := false
  timeSliceRemaining := 50000000
  lastCount := 0
  cpuIdleTime := 0
  time := 0
  nextPID := 1
  irqscalled := 0
  iopl := 0
  tssRsp0 := 0x8000040000
  pml4Slot0 := 0
  cr3Word _ := 0

end Kernel

end UnnamedOS.Proc
