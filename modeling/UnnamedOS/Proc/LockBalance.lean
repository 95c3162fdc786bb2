import UnnamedOS.Lib.Run
import UnnamedOS.Proc.Passes

/-!
# Balanced locks

`IRQ_disable_counter` is one number for the whole machine, while lock calls are matched on the
stack of each task. Every task is given the steps it still has to make to the end of its call, so
that a switch leaves the unlocks of the outgoing task to be made when it runs again.
-/

namespace UnnamedOS.Proc

open UnnamedOS.Lib

namespace Kernel

variable (k : Kernel)

/-- The loop of `unblock_child`. -/
def unblockChildren (m : UInt64) : List Tid → Kernel → Except Halt Kernel
  | [], k => .ok k
  | ch :: w, k =>
    if k.pid ch = m then
      match k.unblockTask ch with
      | .error e => .error e
      | .ok k => unblockChildren m w k
    else unblockChildren m w k

def unblockChild (m : UInt64) : Except Halt Kernel :=
  match k.currentTaskTCB with
  | none => .error .nullPointer
  | some c => unblockChildren m (k.children c) k

/-- `unlock_stuff` up to the decrement of `IRQ_disable_counter`. -/
def releaseSwitches : Except Halt Kernel :=
  if k.postponeTaskSwitchesCounter = 0 then .error .fault
  else
    let k := { k with postponeTaskSwitchesCounter := k.postponeTaskSwitchesCounter - 1 }
    if k.postponeTaskSwitchesCounter = 0 ∧ k.taskSwitchesPostponedFlag = true then
      if k.currentTaskTCB = none then .error .fault
      else schedule { k with taskSwitchesPostponedFlag := false }
    else .ok k

/-- The end of `schedule` once the idle loop has seen a ready task. -/
def endIdle : Except Halt Kernel :=
  match k.currentTaskTCB, k.idleTask, k.firstThread with
  | none, some c, some task =>
    let k := { k with currentTaskTCB := some c, idleTask := none, firstThread := k.next task }
    if task ≠ c then k.switchToTaskWrapper task else .ok (k.setState c .running)
  | _, _, _ => .error .nullPointer

/-- The task on whose stack the processor is. -/
def context : Option Tid := k.currentTaskTCB.or k.idleTask

/-- The parent that `schedule` hands the processor of the exiting task `c` to. -/
def heir (c : Tid) : Option Tid :=
  if k.state c = .dead then
    match k.parent c with
    | none => none
    | some p => if k.state p = .waitingForDeath then some p else none
  else none

/-- The task that a call of `schedule` gives the processor to: the head of the ready list once
`reap` has run, or the parent that waits for the exiting task. -/
def picked : Option Tid :=
  match k.currentTaskTCB, k.reap with
  | some c, .ok k => k.firstThread.or (k.heir c)
  | _, _ => none

end Kernel

/-- The steps of the calls that lock, unlock and switch. -/
inductive Micro where
  | lockScheduler | unlockScheduler | lockStuff
  | releaseSwitches
  /-- The decrement at the end of `unlock_stuff`. -/
  | unlockStuff
  | setState (s : TaskState)
  | schedule
  | unblockTask (t : Tid)
  | unblockChild (m : UInt64)
  | endIdle
  deriving DecidableEq

namespace Micro

def exec (k : Kernel) : Micro → Except Halt Kernel
  | lockScheduler => .ok k.lockScheduler
  | unlockScheduler | unlockStuff => .ok k.unlockScheduler
  | lockStuff => .ok k.lockStuff
  | releaseSwitches => k.releaseSwitches
  | setState s =>
    match k.currentTaskTCB with
    | none => .error .nullPointer
    | some c => .ok (k.setState c s)
  | schedule => k.schedule
  | unblockTask t => k.unblockTask t
  | unblockChild m => k.unblockChild m
  | endIdle => k.endIdle

/-- Lock calls made, less those matched. -/
def locks : Micro → Int
  | lockScheduler | lockStuff => 1
  | unlockScheduler | unlockStuff => -1
  | releaseSwitches | setState _ | schedule | unblockTask _ | unblockChild _ | endIdle => 0

/-- The task that gets the processor in a step. -/
def switchesTo (k : Kernel) : Micro → Option Tid
  | schedule => if k.postponeTaskSwitchesCounter = 0 then k.picked else none
  | releaseSwitches =>
    if k.postponeTaskSwitchesCounter = 1 ∧ k.taskSwitchesPostponedFlag = true then
      Kernel.picked { k with postponeTaskSwitchesCounter := 0, taskSwitchesPostponedFlag := false }
    else none
  | endIdle => if k.postponeTaskSwitchesCounter = 0 then k.firstThread else none
  | lockScheduler | unlockScheduler | lockStuff | unlockStuff | setState _ | unblockTask _
  | unblockChild _ => none

end Micro

/-- The calls by a task that no other call is in progress of. -/
inductive LockCall where
  | lockScheduler | unlockScheduler | lockStuff | unlockStuff
  | blockTask (reason : TaskState)
  /-- `acquire_semaphore` with nothing left to acquire. -/
  | blockInSection (reason : TaskState)
  | unblockTask (t : Tid)
  | uwait (m : UInt64)
  | procExit

namespace LockCall

def blockTaskSteps (reason : TaskState) : List Micro :=
  [.lockScheduler, .setState reason, .schedule, .unlockScheduler]

def steps : LockCall → List Micro
  | lockScheduler => [.lockScheduler]
  | unlockScheduler => [.unlockScheduler]
  | lockStuff => [.lockStuff]
  | unlockStuff => [.releaseSwitches, .unlockStuff]
  | blockTask reason => blockTaskSteps reason
  | blockInSection reason =>
    .lockStuff :: blockTaskSteps reason ++ [.releaseSwitches, .unlockStuff]
  | unblockTask t => [.unblockTask t]
  | uwait m =>
    .lockScheduler :: .unblockChild m :: blockTaskSteps .waitingForDeath ++ [.unlockScheduler]
  | procExit => [.lockScheduler, .setState .dead, .unlockScheduler, .schedule]

end LockCall

/-- The calls that match an earlier one. -/
def LockCall.unlocks : LockCall → Bool
  | unlockScheduler | unlockStuff => true
  | lockScheduler | lockStuff | blockTask _ | blockInSection _ | unblockTask _ | uwait _
  | procExit => false

/-- `PIT_IRQ_handler` and `unblockirq`: the tasks they wake, and whether a time slice ends. -/
def handlerSteps (woken : List Tid) (slice : Bool) : List Micro :=
  .lockStuff :: woken.map .unblockTask ++ (if slice then [.schedule] else []) ++
    [.releaseSwitches, .unlockStuff]

structure Balance where
  kernel : Kernel
  /-- Lock calls the task and the handlers on top of it have made, less those matched. -/
  locks : Tid → Int
  todo : Tid → List Micro

namespace Balance

def boot (junk : Kernel) (t : Tid) (cr3 : UInt64) : Balance where
  kernel := junk.initializeMultitasking t cr3
  locks _ := 0
  todo _ := []

def context (s : Balance) : Option Tid := s.kernel.context

end Balance

inductive BalanceOp where
  | ckprocA (M : Tid) (M2 cr3 : UInt64)
  | call (f : LockCall)
  | interrupt (woken : List Tid) (slice : Bool)
  /-- The next step of the call that is in progress. -/
  | advance

namespace BalanceOp

/-- A task that goes idle in `schedule` has the end of the idle loop before it. -/
def afterIdle (k k' : Kernel) (rest : List Micro) : List Micro :=
  if k.currentTaskTCB ≠ none ∧ k'.currentTaskTCB = none then .endIdle :: rest else rest

def exec (s : Balance) : BalanceOp → Except Halt Balance
  | ckprocA M M2 cr3 =>
    match s.kernel.ckprocA M M2 cr3 with
    | .error e => .error e
    | .ok k =>
      .ok { kernel := k, locks := Function.update s.locks M 0, todo := Function.update s.todo M [] }
  | call f =>
    match s.kernel.currentTaskTCB with
    | none => .error .nullPointer
    | some c => .ok { s with todo := Function.update s.todo c f.steps }
  | interrupt woken slice =>
    match s.context with
    | none => .error .nullPointer
    | some c =>
      .ok { s with todo := Function.update s.todo c (handlerSteps woken slice ++ s.todo c) }
  | advance =>
    match s.context with
    | none => .error .nullPointer
    | some c =>
      match s.todo c with
      | [] => .error .nullPointer
      | m :: rest =>
        match m.exec s.kernel with
        | .error e => .error e
        | .ok k =>
          .ok {
            kernel := k
            locks := Function.update s.locks c (s.locks c + m.locks)
            todo := Function.update s.todo c (afterIdle s.kernel k rest) }

/-- Calls are made between calls, only what is locked is unlocked, and `malloc` returns a block
that is not in use. -/
def Enabled (s : Balance) : BalanceOp → Prop
  | ckprocA M _ _ => M ∉ s.kernel.allocated ∧ s.context ≠ some M ∧ ∀ c ∈ s.context, s.todo c = []
  | call f => ∀ c ∈ s.context, s.todo c = [] ∧ (f.unlocks = true → 0 < s.locks c)
  | interrupt _ _ | advance => True

instance (s : Balance) : ∀ op : BalanceOp, Decidable (op.Enabled s)
  | ckprocA M _ _ => inferInstanceAs (Decidable
      (M ∉ s.kernel.allocated ∧ s.context ≠ some M ∧ ∀ c ∈ s.context, s.todo c = []))
  | call f => inferInstanceAs (Decidable
      (∀ c ∈ s.context, s.todo c = [] ∧ (f.unlocks = true → 0 < s.locks c)))
  | interrupt _ _ | advance => inferInstanceAs (Decidable True)

def step (s : Balance) (op : BalanceOp) (s' : Balance) : Prop := op.Enabled s ∧ op.exec s = .ok s'

/-- At a switch both tasks have made as many lock calls that are not matched yet. -/
def Level (s : Balance) : BalanceOp → Prop
  | advance => ∀ c ∈ s.context, ∀ m ∈ (s.todo c).head?, ∀ t ∈ m.switchesTo s.kernel,
      s.locks t = s.locks c
  | ckprocA _ _ _ | call _ | interrupt _ _ => True

instance (s : Balance) : ∀ op : BalanceOp, Decidable (op.Level s)
  | advance => inferInstanceAs (Decidable (∀ c ∈ s.context, ∀ m ∈ (s.todo c).head?,
      ∀ t ∈ m.switchesTo s.kernel, s.locks t = s.locks c))
  | ckprocA _ _ _ | call _ | interrupt _ _ => inferInstanceAs (Decidable True)

end BalanceOp

namespace Balance

/-- The counter is the number of lock calls of the running task that are not matched yet. -/
def Balanced (s : Balance) : Prop :=
  ∀ c ∈ s.context, s.kernel.irqDisableCounter = s.locks c

end Balance

variable {k k' : Kernel} {c t : Tid} {m : Micro} {s s' : Balance} {op : BalanceOp}
  {ops : List BalanceOp}

/-- The fields that say who runs and how deep interrupts are disabled. -/
structure SameContext (k k' : Kernel) : Prop where
  counter : k'.irqDisableCounter = k.irqDisableCounter
  current : k'.currentTaskTCB = k.currentTaskTCB
  idle : k'.idleTask = k.idleTask
  postpone : k'.postponeTaskSwitchesCounter = k.postponeTaskSwitchesCounter

namespace SameContext

theorem context (h : SameContext k k') : k'.context = k.context := by
  rw [Kernel.context, Kernel.context, h.current, h.idle]

end SameContext

/-- The fields that a wake-up and a funeral write. -/
structure Lists where
  next : Tid → Option Tid
  state : Tid → TaskState
  firstThread : Option Tid
  lastThread : Option Tid
  deadTasks : Option Tid
  children : Tid → List Tid
  pages : List UInt64
  allocated : List Tid

def Kernel.withLists (k : Kernel) (L : Lists) : Kernel :=
  { k with
    next := L.next
    state := L.state
    firstThread := L.firstThread
    lastThread := L.lastThread
    deadTasks := L.deadTasks
    children := L.children
    pages := L.pages
    allocated := L.allocated }

def Kernel.lists (k : Kernel) : Lists :=
  ⟨k.next, k.state, k.firstThread, k.lastThread, k.deadTasks, k.children, k.pages, k.allocated⟩

/-- `k'` differs from `k` in the lists alone. -/
def ListsOnly (k k' : Kernel) : Prop := k' = k.withLists k'.lists

namespace ListsOnly

theorem refl (k : Kernel) : ListsOnly k k := rfl

theorem trans {k'' : Kernel} (h : ListsOnly k k') (h' : ListsOnly k' k'') : ListsOnly k k'' := by
  unfold ListsOnly at *
  rw [h', h]
  rfl

theorem exists_lists (h : ListsOnly k k') : ∃ L, k' = k.withLists L := ⟨k'.lists, h⟩

theorem sameContext (h : ListsOnly k k') : SameContext k k' := by
  obtain ⟨L, rfl⟩ := h.exists_lists
  exact ⟨rfl, rfl, rfl, rfl⟩

end ListsOnly

theorem unblockTask_listsOnly (h : k.unblockTask t = .ok k') : ListsOnly k k' := by
  obtain ⟨-, -, ⟨-, rfl⟩ | ⟨f, l, -, -, rfl⟩⟩ := Kernel.unblockTask_ok h
  · rfl
  · rfl

theorem unblockChildren_listsOnly {m : UInt64} {w : List Tid}
    (h : Kernel.unblockChildren m w k = .ok k') : ListsOnly k k' := by
  induction w generalizing k with
  | nil =>
      rw [← Except.ok.inj h]
      exact ListsOnly.refl k
  | cons ch w ih =>
      rw [Kernel.unblockChildren] at h
      split at h
      · split at h
        · cases h
        · rename_i k₁ hk₁
          exact (unblockTask_listsOnly hk₁).trans (ih h)
      · exact ih h

theorem reapTask_listsOnly (h : k.reapTask t = .ok k') : ListsOnly k k' := by
  obtain ⟨-, pg, ⟨-, rfl⟩ | ⟨p, k₁, -, hk₁, rfl⟩⟩ := Kernel.reapTask_ok h
  · rfl
  · obtain ⟨L, rfl⟩ := (unblockTask_listsOnly hk₁).exists_lists
    rfl

theorem reapLoop_listsOnly {n : Nat} {p : Option Tid} (h : reapLoop n p k = .ok k') :
    ListsOnly k k' := by
  induction n generalizing p k with
  | zero =>
      cases p with
      | none =>
          rw [Kernel.reapLoop_none] at h
          rw [← Except.ok.inj h]
          exact ListsOnly.refl k
      | some t => cases h
  | succ n ih =>
      cases p with
      | none =>
          rw [Kernel.reapLoop_none] at h
          rw [← Except.ok.inj h]
          exact ListsOnly.refl k
      | some t =>
          obtain ⟨k₁, hk₁, hrest⟩ := Kernel.reapLoop_some n k t h
          exact (reapTask_listsOnly hk₁).trans (ih hrest)

theorem reap_listsOnly (h : k.reap = .ok k') : ListsOnly k k' := by
  rw [Kernel.reap] at h
  split at h
  · cases h
  · rename_i k₁ hk₁
    obtain ⟨L, rfl⟩ := (reapLoop_listsOnly hk₁).exists_lists
    rw [← Except.ok.inj h]
    rfl

/-- The processor goes to `t`, or stays on the stack of `c` if there is no `t`. -/
structure HandedTo (k k' : Kernel) (c : Tid) (t : Option Tid) : Prop where
  counter : k'.irqDisableCounter = k.irqDisableCounter
  context : k'.context = some (t.getD c)

theorem wrapper_handedTo (hp : k.postponeTaskSwitchesCounter = 0) (hc : k.currentTaskTCB = some c)
    (h : k.switchToTaskWrapper t = .ok k') : HandedTo k k' c (some t) := by
  obtain ⟨-, slot, word, ⟨-, rfl⟩ | ⟨-, l, -, rfl⟩⟩ := Kernel.switchToTaskWrapper_ok hp hc h
  · exact ⟨rfl, rfl⟩
  · exact ⟨rfl, rfl⟩

theorem heir_some {p : Tid} : k.heir c = some p ↔
    k.state c = .dead ∧ k.parent c = some p ∧ k.state p = .waitingForDeath := by
  unfold Kernel.heir
  cases hp : k.parent c with
  | none => simp
  | some p' =>
      simp only [Option.some.injEq]
      constructor
      · intro h
        split at h
        · split at h
          · rename_i hd hw
            obtain rfl := Option.some.inj h
            exact ⟨hd, rfl, hw⟩
          · cases h
        · cases h
      · rintro ⟨hd, rfl, hw⟩
        rw [if_pos hd, if_pos hw]

theorem pickNext_cases (h : k.pickNext c = .ok k') :
    ∃ k₁, ListsOnly k k₁ ∧
      ((∃ t, k.firstThread.or (k.heir c) = some t ∧ k₁.switchToTaskWrapper t = .ok k') ∨
        (k.firstThread.or (k.heir c) = none ∧ (k' = k ∨ k' = k.goIdle c))) := by
  cases hh : k.heir c with
  | some p =>
      obtain ⟨hd, hpar, hw⟩ := heir_some.mp hh
      cases hf : k.firstThread with
      | some t =>
          rw [Kernel.pickNext, hf] at h
          exact ⟨{ k with firstThread := k.next t }, rfl, .inl ⟨t, rfl, h⟩⟩
      | none =>
          rw [Kernel.pickNext, hf] at h
          simp only [hd, reduceCtorEq, if_false, if_true, hpar, hw] at h
          exact ⟨k.setState c .buried, rfl, .inl ⟨p, rfl, h⟩⟩
  | none =>
      rcases Kernel.pickNext_ok h with ⟨t, hf, hsw⟩ | ⟨hf, hrun, rfl⟩ |
        ⟨hf, hd, p, hpar, hw, hsw⟩ | ⟨hf, -, -, rfl⟩
      · exact ⟨{ k with firstThread := k.next t }, rfl, .inl ⟨t, by rw [hf, Option.some_or], hsw⟩⟩
      · exact ⟨k', rfl, .inr ⟨by rw [hf, Option.none_or], .inl rfl⟩⟩
      · rw [heir_some.mpr ⟨hd, hpar, hw⟩] at hh
        cases hh
      · exact ⟨k, rfl, .inr ⟨by rw [hf, Option.none_or], .inr rfl⟩⟩

/-- A call of `schedule` writes the lists, then it switches to the task that is picked, stays, or
goes idle. -/
theorem schedule_cases (hp : k.postponeTaskSwitchesCounter = 0) (hc : k.currentTaskTCB = some c)
    (h : k.schedule = .ok k') :
    ∃ k₁, ListsOnly k k₁ ∧ ((∃ t, k.picked = some t ∧ k₁.switchToTaskWrapper t = .ok k') ∨
      (k.picked = none ∧ (k' = k₁ ∨ k' = k₁.goIdle c))) := by
  obtain ⟨-, k₁, hreap, hpick⟩ := Kernel.schedule_ok hp hc h
  have hbury : ListsOnly k₁ (k₁.buryLater c) ∧
      (k₁.buryLater c).firstThread = k₁.firstThread ∧ (k₁.buryLater c).heir c = k₁.heir c := by
    unfold Kernel.buryLater
    split
    · exact ⟨rfl, rfl, rfl⟩
    · exact ⟨rfl, rfl, rfl⟩
  obtain ⟨hb, hf, hh⟩ := hbury
  have hall := (reap_listsOnly hreap).trans hb
  have hpicked : k.picked = k₁.firstThread.or (k₁.heir c) := by
    rw [Kernel.picked, hc, hreap]
  obtain ⟨k₂, hk₂, hcase⟩ := pickNext_cases hpick
  rw [hf, hh, ← hpicked] at hcase
  rcases hcase with hsw | ⟨hnone, hstay⟩
  · exact ⟨k₂, hall.trans hk₂, .inl hsw⟩
  · exact ⟨k₁.buryLater c, hall, .inr ⟨hnone, hstay⟩⟩

theorem schedule_handedTo (hp : k.postponeTaskSwitchesCounter = 0) (hc : k.currentTaskTCB = some c)
    (h : k.schedule = .ok k') : HandedTo k k' c k.picked := by
  obtain ⟨k₁, hk₁, ⟨t, ht, hsw⟩ | ⟨hnone, hstay⟩⟩ := schedule_cases hp hc h
  · have hs := hk₁.sameContext
    have hto := wrapper_handedTo (hs.postpone.trans hp) (hs.current.trans hc) hsw
    rw [ht]
    exact ⟨hto.counter.trans hs.counter, hto.context⟩
  · obtain ⟨L, rfl⟩ := hk₁.exists_lists
    rw [hnone]
    rcases hstay with rfl | rfl
    · refine ⟨rfl, ?_⟩
      change (k.currentTaskTCB.or k.idleTask) = some c
      rw [hc, Option.some_or]
    · exact ⟨rfl, rfl⟩

theorem context_of_current (hc : k.currentTaskTCB = some c) : k.context = some c := by
  rw [Kernel.context, hc]
  rfl

theorem schedule_postponed_handedTo (hp : k.postponeTaskSwitchesCounter ≠ 0)
    (hctx : k.context = some c) (h : k.schedule = .ok k') : HandedTo k k' c none := by
  rw [Kernel.schedule_postponed hp] at h
  rw [← Except.ok.inj h]
  exact ⟨rfl, hctx⟩

theorem schedule_context (hp : k.postponeTaskSwitchesCounter = 0) (h : k.schedule = .ok k') :
    ∃ c, k.currentTaskTCB = some c := by
  cases hc : k.currentTaskTCB with
  | none => simp [Kernel.schedule, hp, hc] at h
  | some c => exact ⟨c, rfl⟩

/-- The kernel in which the outermost `unlock_stuff` makes up for a switch. -/
def Kernel.switchesDue (k : Kernel) : Kernel :=
  { k with postponeTaskSwitchesCounter := 0, taskSwitchesPostponedFlag := false }

theorem releaseSwitches_cases (h : k.releaseSwitches = .ok k') :
    (∃ c, k.currentTaskTCB = some c ∧
      Micro.switchesTo k .releaseSwitches = k.switchesDue.picked ∧
      k.switchesDue.schedule = .ok k') ∨
    (Micro.switchesTo k .releaseSwitches = none ∧
      k' = { k with postponeTaskSwitchesCounter := k.postponeTaskSwitchesCounter - 1 }) := by
  rw [Kernel.releaseSwitches] at h
  split at h
  · cases h
  · by_cases hsw : k.postponeTaskSwitchesCounter = 1 ∧ k.taskSwitchesPostponedFlag = true
    · simp only [hsw.1, hsw.2, Int.sub_self, and_self, if_true] at h
      split at h
      · cases h
      · obtain ⟨c, hc⟩ := schedule_context rfl h
        rw [Micro.switchesTo, if_pos hsw]
        exact .inl ⟨c, hc, rfl, h⟩
    · have hno : ¬ (k.postponeTaskSwitchesCounter - 1 = 0 ∧
          k.taskSwitchesPostponedFlag = true) := fun h => hsw ⟨by omega, h.2⟩
      rw [if_neg hno] at h
      rw [Micro.switchesTo, if_neg hsw]
      exact .inr ⟨rfl, (Except.ok.inj h).symm⟩

/-- Behind the idle loop the task `c` is current again and `t` is off the ready list. -/
def Kernel.idleOver (k : Kernel) (c t : Tid) : Kernel :=
  { k with currentTaskTCB := some c, idleTask := none, firstThread := k.next t }

theorem endIdle_cases (h : k.endIdle = .ok k') :
    ∃ c t, k.currentTaskTCB = none ∧ k.idleTask = some c ∧ k.firstThread = some t ∧
      ((t ≠ c ∧ (k.idleOver c t).switchToTaskWrapper t = .ok k') ∨
        (t = c ∧ k' = (k.idleOver c t).setState c .running)) := by
  rw [Kernel.endIdle] at h
  split at h
  · rename_i c t hcur hidle hf
    refine ⟨c, t, hcur, hidle, hf, ?_⟩
    split at h
    · rename_i hne
      exact .inl ⟨hne, h⟩
    · rename_i htc
      exact .inr ⟨not_not.mp htc, (Except.ok.inj h).symm⟩
  · cases h

/-- What one step does to the counter and to the stack the processor is on. -/
theorem micro_spec (hctx : k.context = some c) (h : m.exec k = .ok k') :
    k'.irqDisableCounter = k.irqDisableCounter + m.locks ∧
      k'.context = some ((m.switchesTo k).getD c) ∧ (m.switchesTo k ≠ none → m.locks = 0) := by
  have hstay : ∀ {k₁ : Kernel}, SameContext k k₁ → k₁.irqDisableCounter = k.irqDisableCounter + 0 ∧
      k₁.context = some c := by
    intro k₁ hs
    exact ⟨hs.counter.trans (Int.add_zero _).symm, hs.context.trans hctx⟩
  cases m with
  | lockScheduler =>
      obtain rfl := Except.ok.inj h
      exact ⟨rfl, hctx, fun hne => absurd rfl hne⟩
  | unlockScheduler =>
      obtain rfl := Except.ok.inj h
      exact ⟨rfl, hctx, fun hne => absurd rfl hne⟩
  | unlockStuff =>
      obtain rfl := Except.ok.inj h
      exact ⟨rfl, hctx, fun hne => absurd rfl hne⟩
  | lockStuff =>
      obtain rfl := Except.ok.inj h
      exact ⟨rfl, hctx, fun hne => absurd rfl hne⟩
  | setState st =>
      simp only [Micro.exec] at h
      split at h
      · cases h
      · rename_i cur _
        obtain rfl := Except.ok.inj h
        have hset : SameContext k (k.setState cur st) := ⟨rfl, rfl, rfl, rfl⟩
        obtain ⟨h1, h2⟩ := hstay hset
        exact ⟨h1, h2, fun hne => absurd rfl hne⟩
  | unblockTask t =>
      obtain ⟨h1, h2⟩ := hstay (unblockTask_listsOnly h).sameContext
      exact ⟨h1, h2, fun hne => absurd rfl hne⟩
  | unblockChild pid =>
      simp only [Micro.exec, Kernel.unblockChild] at h
      split at h
      · cases h
      · obtain ⟨h1, h2⟩ := hstay (unblockChildren_listsOnly h).sameContext
        exact ⟨h1, h2, fun hne => absurd rfl hne⟩
  | schedule =>
      have hsw : HandedTo k k' c (Micro.switchesTo k .schedule) := by
        by_cases hp : k.postponeTaskSwitchesCounter = 0
        · rw [Micro.switchesTo, if_pos hp]
          obtain ⟨c', hc'⟩ := schedule_context hp h
          obtain rfl := Option.some.inj (hctx.symm.trans (context_of_current hc'))
          exact schedule_handedTo hp hc' h
        · rw [Micro.switchesTo, if_neg hp]
          exact schedule_postponed_handedTo hp hctx h
      exact ⟨hsw.counter.trans (Int.add_zero _).symm, hsw.context, fun _ => rfl⟩
  | releaseSwitches =>
      have hsw : HandedTo k k' c (Micro.switchesTo k .releaseSwitches) := by
        rcases releaseSwitches_cases h with ⟨c', hc', hto, hsch⟩ | ⟨hto, rfl⟩
        · obtain rfl := Option.some.inj (hctx.symm.trans (context_of_current hc'))
          have hs := schedule_handedTo (k := k.switchesDue) rfl hc' hsch
          rw [hto]
          exact ⟨hs.counter, hs.context⟩
        · rw [hto]
          exact ⟨rfl, hctx⟩
      exact ⟨hsw.counter.trans (Int.add_zero _).symm, hsw.context, fun _ => rfl⟩
  | endIdle =>
      have hsw : HandedTo k k' c (Micro.switchesTo k .endIdle) := by
        obtain ⟨c', t, hcur, hidle, hf, hcase⟩ := endIdle_cases h
        obtain rfl : c' = c := by
          rw [Kernel.context, hcur, hidle] at hctx
          exact Option.some.inj hctx
        rw [Micro.switchesTo, hf]
        rcases hcase with ⟨-, hsw⟩ | ⟨rfl, rfl⟩
        · by_cases hp : k.postponeTaskSwitchesCounter = 0
          · rw [if_pos hp]
            have hs := wrapper_handedTo (k := k.idleOver c' t) hp rfl hsw
            exact ⟨hs.counter, hs.context⟩
          · rw [if_neg hp]
            have hpost := Kernel.switchToTaskWrapper_postponed (t := t) (k := k.idleOver c' t) hp
            rw [← Except.ok.inj (hpost.symm.trans hsw)]
            exact ⟨rfl, rfl⟩
        · refine ⟨rfl, ?_⟩
          split <;> rfl
      exact ⟨hsw.counter.trans (Int.add_zero _).symm, hsw.context, fun _ => rfl⟩

theorem ckprocA_sameContext {M : Tid} {M2 cr3 : UInt64} (h : k.ckprocA M M2 cr3 = .ok k') :
    SameContext k k' := by
  obtain ⟨cur, -, ⟨-, rfl⟩ | ⟨f, l, -, -, rfl⟩⟩ := ckprocA_ok h
  · exact ⟨rfl, rfl, rfl, rfl⟩
  · exact ⟨rfl, rfl, rfl, rfl⟩

/-- A step keeps the balance exactly if it is level. -/
theorem step_balanced_iff (hb : s.Balanced) (hs : op.step s s') : s'.Balanced ↔ op.Level s := by
  obtain ⟨hen, hex⟩ := hs
  cases op with
  | ckprocA M M2 cr3 =>
      rw [BalanceOp.exec] at hex
      split at hex
      · cases hex
      · rename_i k' hk'
        rw [← Except.ok.inj hex]
        have hsame := ckprocA_sameContext hk'
        refine iff_of_true (fun c hc => ?_) trivial
        have hc' : s.context = some c := hsame.context.symm.trans hc
        have hcM : c ≠ M := fun he => hen.2.1 (he ▸ hc')
        change k'.irqDisableCounter = Function.update s.locks M 0 c
        rw [hsame.counter, Function.update_of_ne hcM]
        exact hb c hc'
  | call f =>
      rw [BalanceOp.exec] at hex
      split at hex
      · cases hex
      · rw [← Except.ok.inj hex]
        exact iff_of_true hb trivial
  | interrupt woken slice =>
      rw [BalanceOp.exec] at hex
      split at hex
      · cases hex
      · rw [← Except.ok.inj hex]
        exact iff_of_true hb trivial
  | advance =>
      rw [BalanceOp.exec] at hex
      split at hex
      · cases hex
      · rename_i c hc
        split at hex
        · cases hex
        · rename_i m rest hm
          split at hex
          · cases hex
          · rename_i k' hk'
            rw [← Except.ok.inj hex]
            obtain ⟨hcount, hctx, hzero⟩ := micro_spec hc hk'
            have hlevel : BalanceOp.Level s .advance ↔
                ∀ t ∈ m.switchesTo s.kernel, s.locks t = s.locks c := by
              have hhead : (s.todo c).head? = some m := by rw [hm, List.head?_cons]
              constructor
              · intro h
                exact h c hc m hhead
              · intro h c' hc' m' hm'
                obtain rfl := Option.some.inj (hc.symm.trans hc')
                obtain rfl := Option.some.inj (hhead.symm.trans hm')
                exact h
            have hbal : ∀ x, k'.context = some x → (Balance.Balanced {
                kernel := k'
                locks := Function.update s.locks c (s.locks c + m.locks)
                todo := Function.update s.todo c (BalanceOp.afterIdle s.kernel k' rest) } ↔
                  s.kernel.irqDisableCounter + m.locks =
                    Function.update s.locks c (s.locks c + m.locks) x) := by
              intro x hx
              rw [← hcount]
              constructor
              · intro h
                exact h x hx
              · intro h y hy
                obtain rfl := Option.some.inj (hx.symm.trans hy)
                exact h
            rw [hlevel, hbal _ hctx, hb c hc]
            cases hsw : m.switchesTo s.kernel with
            | none =>
                rw [Option.getD_none, Function.update_self]
                exact iff_of_true rfl (fun t ht => absurd ht (by simp))
            | some t =>
                rw [hzero (by simp [hsw]), Int.add_zero, Function.update_eq_self, Option.getD_some]
                constructor
                · rintro h x ⟨⟩
                  exact h.symm
                · intro h
                  exact (h t rfl).symm

theorem balanceStep_deterministic (s : Balance) (op : BalanceOp) (s₁ s₂ : Balance)
    (h₁ : op.step s s₁) (h₂ : op.step s s₂) : s₁ = s₂ :=
  Except.ok.inj (h₁.2.symm.trans h₂.2)

theorem boot_balanced (junk : Kernel) (t : Tid) (cr3 : UInt64) :
    (Balance.boot junk t cr3).Balanced := fun _ _ => rfl

/-- Along a run the counter is right in every state exactly if every switch is level. -/
theorem lock_counter_balanced_iff_level (junk : Kernel) (t : Tid) (cr3 : UInt64)
    (h : Run BalanceOp.step (Balance.boot junk t cr3) ops s) :
    (∀ pre post s', ops = pre ++ post →
        Run BalanceOp.step (Balance.boot junk t cr3) pre s' → s'.Balanced) ↔
      Run (Guarded BalanceOp.Level BalanceOp.step) (Balance.boot junk t cr3) ops s :=
  run_forall_iff_guarded balanceStep_deterministic (fun _ hb => hb)
    (fun _ _ _ hb hl hs => (step_balanced_iff hb hs).mpr hl)
    (fun _ _ _ hb hl hs => fun hb' => hl ((step_balanced_iff hb hs).mp hb'))
    (boot_balanced junk t cr3) h

/-- The boot task creates one task and blocks. -/
def firstRun : List BalanceOp :=
  [.ckprocA 2 0x2000 0x3000, .call (.blockTask .waiting), .advance, .advance, .advance]

/-- The new task runs with interrupts disabled and no lock of its own. -/
theorem new_task_starts_locked : ¬ ∀ (junk : Kernel) (t : Tid) (cr3 : UInt64)
    (ops : List BalanceOp) (s : Balance),
    Run BalanceOp.step (Balance.boot junk t cr3) ops s → s.Balanced := by
  intro hall
  have hlast : (follow BalanceOp.Enabled BalanceOp.exec (Balance.boot Kernel.zeroed 1 0x1000)
      firstRun).map (fun s => decide (s.context = some 2 ∧ s.locks 2 = 0 ∧
        s.kernel.irqDisableCounter = 1)) = some true := by
    decide +kernel
  obtain ⟨s, hs, hfields⟩ := Option.map_eq_some_iff.mp hlast
  obtain ⟨hc, hlocks, hcount⟩ := of_decide_eq_true hfields
  have hR : Run BalanceOp.step (Balance.boot Kernel.zeroed 1 0x1000) firstRun s :=
    run_of_follow (fun _ _ _ h h' => ⟨h, h'⟩) hs
  have hb := hall _ _ _ _ s hR 2 hc
  rw [hlocks, hcount] at hb
  cases hb

/-- Nested locks, a time slice with nobody ready, and an exit that a new task follows. -/
def nested : List BalanceOp :=
  [.call .lockScheduler, .advance, .call .lockStuff, .advance, .call .unlockStuff, .advance,
    .advance, .call .unlockScheduler, .advance, .interrupt [] true, .advance, .advance, .advance,
    .advance, .ckprocA 2 0x2000 0x3000, .call .procExit, .advance, .advance, .advance, .advance]

theorem lock_counter_balanced_nested : ∃ s,
    Run BalanceOp.step (Balance.boot Kernel.zeroed 1 0x1000) nested s ∧
    ∀ pre post s', nested = pre ++ post →
      Run BalanceOp.step (Balance.boot Kernel.zeroed 1 0x1000) pre s' → s'.Balanced := by
  have hlast : (follow (fun s op => BalanceOp.Level s op ∧ BalanceOp.Enabled s op) BalanceOp.exec
      (Balance.boot Kernel.zeroed 1 0x1000) nested).isSome := by
    decide +kernel
  obtain ⟨s, hs⟩ := Option.isSome_iff_exists.mp hlast
  have hR : Run (Guarded BalanceOp.Level BalanceOp.step) (Balance.boot Kernel.zeroed 1 0x1000)
      nested s := run_of_follow (fun _ _ _ h h' => ⟨h.1, h.2, h'⟩) hs
  exact ⟨s, run_of_guarded hR,
    (lock_counter_balanced_iff_level Kernel.zeroed 1 0x1000 (run_of_guarded hR)).mpr hR⟩

end UnnamedOS.Proc
