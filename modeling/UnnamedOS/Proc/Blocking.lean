import UnnamedOS.Lib.Run
import UnnamedOS.Proc.Timer

/-!
# Blocking and waking up

`nano_sleep_until`, `wait_for_irq` and `wfPokeT` lock, publish the running task on a list or in
a slot, unlock, and only then block. Interrupts and other tasks run between these steps
wherever `IRQ_disable_counter` is zero. A waker that comes between the unlock and
`block_task` finds a task that is not yet in its waiting state.
-/

namespace UnnamedOS.Proc

open UnnamedOS.Lib

/-- What a task blocks for. -/
inductive Reason where
  | sleep | irq | poke
  deriving DecidableEq

def Reason.state : Reason → TaskState
  | .sleep => .waiting
  | .irq => .waitingForIrq
  | .poke => .waitingForPoke

/-- A call of `nano_sleep_until`, `wait_for_irq` or `wfPokeT`. -/
inductive WaitCall where
  | nanoSleepUntil (t : UInt64)
  | waitForIrq (irq : UInt8) (timeout : UInt64) (timeoutFunction : Option UInt64)
  | wfPokeT (p : Option Nat)
  deriving DecidableEq

/-- How far a task has come in such a call. -/
inductive Pc where
  /-- Outside. -/
  | user
  /-- Behind `lock_stuff`. -/
  | locked (call : WaitCall)
  /-- Behind the list update. -/
  | updated (reason : Reason)
  /-- Behind the test that there is nothing to wait for. -/
  | leaving
  /-- Behind `unlock_stuff`, before `block_task`. -/
  | window (reason : Reason)
  deriving DecidableEq

/-- The kernel, the tasks' places in their calls, and the poke slots by address. -/
structure WaitState where
  kernel : Kernel
  pc : Tid → Pc
  slot : Nat → Option Tid

inductive WaitOp where
  | lock (call : WaitCall)
  | update
  | unlock
  | block
  | timer
  | deviceIrq (irq : UInt8)
  | pokeT (p : Option Nat)
  | leaveIdle

namespace WaitState

variable (s : WaitState)

def Runnable (t : Tid) : Prop := s.kernel.state t = .running ∨ s.kernel.state t = .ready

/-- The part of a call between its locks. -/
def runUpdate (c : Tid) : WaitCall → Except Halt WaitState
  | .nanoSleepUntil t =>
    let (waits, k) := s.kernel.nanoSleepUpdate c t
    .ok ⟨k, Function.update s.pc c (if waits then .updated .sleep else .leaving), s.slot⟩
  | .waitForIrq irq timeout f =>
    let (waits, k) := s.kernel.waitForIrqUpdate c irq timeout f
    .ok ⟨k, Function.update s.pc c (if waits then .updated .irq else .leaving), s.slot⟩
  | .wfPokeT none => .error (.error .pokeNullp 0)
  | .wfPokeT (some p) =>
    match s.slot p with
    | some _ => .error (.error .pokeNullp p)
    | none =>
      .ok ⟨s.kernel, Function.update s.pc c (.updated .poke), Function.update s.slot p (some c)⟩

def pokeT : Option Nat → Except Halt WaitState
  | none => .error (.error .pokeNullp 0)
  | some p =>
    let k := s.kernel.lockStuff
    match s.slot p with
    | none =>
      match k.unlockStuff with
      | .error e => .error e
      | .ok k => .ok { s with kernel := k }
    | some t =>
      match k.unblockTask t with
      | .error e => .error e
      | .ok k =>
        match k.unlockStuff with
        | .error e => .error e
        | .ok k => .ok { s with kernel := k, slot := Function.update s.slot p none }

/-- The step with a new kernel and a new place for the running task. -/
def advance (c : Tid) (pc : Pc) : Except Halt Kernel → Except Halt WaitState
  | .error e => .error e
  | .ok k => .ok { s with kernel := k, pc := Function.update s.pc c pc }

def withKernel : Except Halt Kernel → Except Halt WaitState
  | .error e => .error e
  | .ok k => .ok { s with kernel := k }

end WaitState

namespace WaitOp

def exec (s : WaitState) (op : WaitOp) : Except Halt WaitState :=
  match op, s.kernel.currentTaskTCB with
  | timer, _ => s.withKernel s.kernel.pitIrqHandler
  | deviceIrq irq, _ => s.withKernel (s.kernel.unblockirq irq)
  | leaveIdle, _ => s.withKernel s.kernel.leaveIdle
  | pokeT p, _ => s.pokeT p
  | lock call, some c => s.advance c (.locked call) (.ok s.kernel.lockStuff)
  | update, some c =>
    match s.pc c with
    | .locked call => s.runUpdate c call
    | _ => .error .fault
  | unlock, some c =>
    match s.pc c with
    | .updated reason => s.advance c (.window reason) s.kernel.unlockStuff
    | .leaving => s.advance c .user s.kernel.unlockStuff
    | _ => .error .fault
  | block, some c =>
    match s.pc c with
    | .window reason => s.advance c .user (s.kernel.blockTask reason.state)
    | _ => .error .fault
  | _, none => .error .nullPointer

/-- A task goes through its call step by step; interrupts come when they are enabled, which
they are in the idle loop, too. -/
def Enabled (s : WaitState) : WaitOp → Prop
  | lock _ | pokeT _ => ∃ c, s.kernel.currentTaskTCB = some c ∧ s.pc c = .user
  | update => ∃ c call, s.kernel.currentTaskTCB = some c ∧ s.pc c = .locked call
  | unlock => ∃ c, s.kernel.currentTaskTCB = some c ∧
      (s.pc c = .leaving ∨ ∃ reason, s.pc c = .updated reason)
  | block => ∃ c reason, s.kernel.currentTaskTCB = some c ∧ s.pc c = .window reason
  | timer | deviceIrq _ =>
    s.kernel.irqDisableCounter = 0 ∨ s.kernel.currentTaskTCB = none
  | leaveIdle => s.kernel.currentTaskTCB = none

def step (s : WaitState) (op : WaitOp) (s' : WaitState) : Prop := op.Enabled s ∧ op.exec s = .ok s'

/-- The last of the tasks woken behind the ready list brings no stale `next`: it becomes the
only ready task, or its pointer is null. -/
def CleanTail (k : Kernel) (W : List Tid) : Prop :=
  ∀ t, W.getLast? = some t → (k.firstThread = none ∧ W.length = 1) ∨ k.next t = none

/-- No waker comes between the unlock and `block_task` of a task it looks at, and no wake-up
brings a stale `next` to the end of the ready list. A switch at the end of a time slice
repairs that end. -/
def Safe (s : WaitState) : WaitOp → Prop
  | timer =>
    (∀ c, s.kernel.currentTaskTCB = some c →
      s.pc c ≠ .window .sleep ∧ s.pc c ≠ .window .irq) ∧
    (s.kernel.SliceEnds ∨ ∀ sl il, Chain s.kernel.next s.kernel.sleepingTaskList sl →
      Chain s.kernel.next s.kernel.irqwaiting il →
        CleanTail s.kernel (timerWakes s.kernel.enterTimer sl il))
  | deviceIrq irq =>
    (∀ c, s.kernel.currentTaskTCB = some c → s.pc c ≠ .window .irq) ∧
    ∀ il, Chain s.kernel.next s.kernel.irqwaiting il →
      CleanTail s.kernel (il.filter (s.kernel.waitsFor irq))
  | pokeT p =>
    ∀ a t, p = some a → s.slot a = some t →
      s.pc t ≠ .window .poke ∧ (s.kernel.firstThread = none ∨ s.kernel.next t = none)
  | _ => True

/-- What a waker finds is blocked for it. -/
def FindsWaiting (s : WaitState) : WaitOp → Prop
  | timer =>
    (∀ sl, Chain s.kernel.next s.kernel.sleepingTaskList sl →
      ∀ t ∈ sl, s.kernel.state t = .waiting) ∧
    ∀ il, Chain s.kernel.next s.kernel.irqwaiting il → ∀ t ∈ il, s.kernel.state t = .waitingForIrq
  | deviceIrq _ =>
    ∀ il, Chain s.kernel.next s.kernel.irqwaiting il → ∀ t ∈ il, s.kernel.state t = .waitingForIrq
  | pokeT p => ∀ a t, p = some a → s.slot a = some t → s.kernel.state t = .waitingForPoke
  | _ => True

/-- What a waker does for the tasks it is there for. An interrupt that nobody waits for is
remembered for `wait_for_irq`. -/
def Delivers (s s' : WaitState) : WaitOp → Prop
  | timer => ∀ sl il, Chain s.kernel.next s.kernel.sleepingTaskList sl →
      Chain s.kernel.next s.kernel.irqwaiting il →
        ∀ t ∈ timerWakes s.kernel.enterTimer sl il, s'.Runnable t
  | deviceIrq irq => ∀ il, Chain s.kernel.next s.kernel.irqwaiting il →
      (∀ t ∈ il, s.kernel.waitsFor irq t = true → s'.Runnable t) ∧
      ((∀ t ∈ il, s.kernel.waitsFor irq t = false) →
        s'.kernel.irqscalled = s.kernel.irqscalled ||| Kernel.irqBit irq)
  | pokeT p => ∀ a t, p = some a → s.slot a = some t → s'.Runnable t ∧ s'.slot a = none
  | _ => True

end WaitOp

/-- The errors with which a handler reports a task that is not blocked. -/
def Misplaced (e : Halt) : Prop :=
  ∃ t, e = .error .pitWfiMisp t ∨ e = .error .taskShouldBeRunning t ∨ e = .error .taskBadunblock t

/-- The lists end, and every blocked task is on the list or in a slot where its waker looks. -/
def Registered (s : WaitState) : Prop :=
  ∃ sl il, Chain s.kernel.next s.kernel.sleepingTaskList sl ∧
    Chain s.kernel.next s.kernel.irqwaiting il ∧
    ∀ t ∈ s.kernel.allocated,
      (s.kernel.state t = .waiting → t ∈ sl) ∧ (s.kernel.state t = .waitingForIrq → t ∈ il) ∧
      (s.kernel.state t = .waitingForPoke → ∃ a, s.slot a = some t)

/-- The locks a task holds at a place in its call. -/
def Pc.locks : Pc → Int
  | .locked _ | .updated _ | .leaving => 1
  | .user | .window _ => 0

/-- The task is published for `reason` and not blocked yet. -/
def Pc.Pending (pc : Pc) (reason : Reason) : Prop := pc = .updated reason ∨ pc = .window reason

/-- The task is blocked for `reason` or is about to be. -/
def WaitState.Waits (s : WaitState) (t : Tid) (reason : Reason) : Prop :=
  (t ∈ s.kernel.allocated ∧ s.kernel.state t = reason.state) ∨ (s.pc t).Pending reason

/-- The lists and slots hold exactly the tasks that wait. -/
structure Published (s : WaitState) (sl il : List Tid) : Prop where
  sleeping : ∀ t, t ∈ sl ↔ s.Waits t .sleep
  waiting : ∀ t, t ∈ il ↔ s.Waits t .irq
  poked : ∀ t, (∃ a, s.slot a = some t) ↔ s.Waits t .poke
  once : ∀ a b t, s.slot a = some t → s.slot b = some t → a = b

/-- Only the running task is inside a call, except that a task may be preempted between the
unlock and `block_task` of `wfPokeT`. -/
structure Places (s : WaitState) : Prop where
  pcs : ∀ t, s.pc t = .user ∨ s.pc t = .window .poke ∨ s.kernel.currentTaskTCB = some t
  preempted : ∀ t, s.pc t = .window .poke → t ∈ s.kernel.allocated ∧ s.Runnable t
  running : ∀ c, s.kernel.currentTaskTCB = some c →
    c ∈ s.kernel.allocated ∧ s.kernel.state c = .running
  idle : s.kernel.currentTaskTCB = none → s.kernel.timeSliceRemaining = 0 ∧
    ∀ c, s.kernel.idleTask = some c → s.kernel.state c ≠ .running

/-- The counters follow the place of the running task. -/
structure Counters (s : WaitState) : Prop where
  flag : s.kernel.taskSwitchesPostponedFlag = false
  dead : s.kernel.deadTasks = none
  postpone : ∀ c, s.kernel.currentTaskTCB = some c →
    s.kernel.postponeTaskSwitchesCounter = (s.pc c).locks ∧
      (s.pc c).locks ≤ s.kernel.irqDisableCounter ∧ s.kernel.stackUnlocks c = 0
  idle : s.kernel.currentTaskTCB = none →
    s.kernel.postponeTaskSwitchesCounter = 0 ∧ 1 ≤ s.kernel.irqDisableCounter
  unlocks : ∀ t, s.kernel.stackUnlocks t ≤ 1

structure BlockInv (s : WaitState) (r sl il : List Tid) : Prop extends
    Published s sl il, Places s where
  ready : QueueSeg s.kernel r none
  sleepers : Chain s.kernel.next s.kernel.sleepingTaskList sl
  irqs : Chain s.kernel.next s.kernel.irqwaiting il
  counters : Counters s

/-- A task that waits for a lock keeps its pointer and goes on waiting, and a ready task goes on
to be ready until it runs. -/
structure Untouched (k k' : Kernel) : Prop where
  blocked : ∀ t, k.state t = .waitingForLock →
    k'.state t = .waitingForLock ∧ k'.next t = k.next t
  ready : ∀ t, k.state t = .ready → k'.state t = .ready ∨ k'.currentTaskTCB = some t
  allocated : k'.allocated = k.allocated

theorem Untouched.of_eq {k k' : Kernel} (hs : k'.state = k.state) (hn : k'.next = k.next)
    (ha : k'.allocated = k.allocated) : Untouched k k' := by
  refine ⟨fun t ht => ?_, fun t ht => ?_, ha⟩
  · rw [hs, hn]
    exact ⟨ht, rfl⟩
  · rw [hs]
    exact Or.inl ht

/-- What every step establishes. -/
def Good (s : WaitState) (op : WaitOp) : Prop :=
  (∃ s' r sl il, op.exec s = .ok s' ∧ BlockInv s' r sl il ∧
    Untouched s.kernel s'.kernel ∧ op.Delivers s s') ∨
    ∃ e, op.exec s = .error e ∧ ¬ Misplaced e

variable {s s' : WaitState} {r sl il : List Tid} {c t : Tid} {reason : Reason} {pc : Pc}

theorem Reason.state_blocked (reason : Reason) :
    reason.state ≠ .running ∧ reason.state ≠ .ready ∧ reason.state ≠ .dead := by
  cases reason <;> decide

theorem Reason.state_inj {reason' : Reason} (h : reason.state = reason'.state) :
    reason = reason' := by
  cases reason <;> cases reason' <;> first | rfl | cases h

theorem Pc.Pending.unique {reason' : Reason} (h : pc.Pending reason) (h' : pc.Pending reason') :
    reason = reason' := by
  rcases h with h | h <;> rcases h' with h' | h' <;> rw [h] at h' <;> cases h' <;> rfl

/-- A task that runs or is ready waits only if it is about to block. -/
theorem WaitState.waits_iff_pending (h : s.Runnable t) :
    s.Waits t reason ↔ (s.pc t).Pending reason := by
  obtain ⟨hrun, hready, -⟩ := reason.state_blocked
  refine or_iff_right fun hs => ?_
  rcases h with h | h
  · exact hrun (hs.2.symm.trans h)
  · exact hready (hs.2.symm.trans h)

theorem not_misplaced_tfnttnnz (t : Tid) : ¬ Misplaced (.error .tfnttnnz t) := by
  intro h
  obtain ⟨t', h | h | h⟩ := h <;> cases h

namespace Places

/-- A task that is about to block still runs, or has been preempted. -/
theorem pending_runnable (h : Places s) (hp : (s.pc t).Pending reason) : s.Runnable t := by
  rcases h.pcs t with hu | hu | hu
  · rw [hu] at hp
    rcases hp with hp | hp <;> cases hp
  · exact (h.preempted t hu).2
  · exact Or.inl (h.running t hu).2

theorem waits_unique {reason' : Reason} (h : Places s) (hw : s.Waits t reason)
    (hw' : s.Waits t reason') : reason = reason' := by
  have hlift : ∀ reason reason', (s.pc t).Pending reason → s.Waits t reason' →
      reason = reason' := by
    intro reason reason' hp hw'
    exact hp.unique ((WaitState.waits_iff_pending (h.pending_runnable hp)).mp hw')
  rcases hw with ⟨hal, hs⟩ | hp
  · rcases hw' with ⟨-, hs'⟩ | hp'
    · exact Reason.state_inj (hs.symm.trans hs')
    · exact (hlift _ _ hp' (Or.inl ⟨hal, hs⟩)).symm
  · exact hlift _ _ hp hw'

/-- Only the running task is about to go to sleep or to wait for an interrupt. -/
theorem ready_not_waits (h : Places s) (ht : s.kernel.state t = .ready) (hr : reason ≠ .poke) :
    ¬ s.Waits t reason := by
  rw [WaitState.waits_iff_pending (Or.inr ht)]
  intro hp
  rcases h.pcs t with hu | hu | hu
  · rw [hu] at hp
    rcases hp with hp | hp <;> cases hp
  · exact hr (hp.unique (Or.inr hu))
  · rw [(h.running t hu).2] at ht
    cases ht

end Places

namespace BlockInv

theorem ready_not_listed (h : BlockInv s r sl il) (ht : t ∈ r) : t ∉ sl ∧ t ∉ il := by
  have hs := (h.ready.ready t ht).2
  exact ⟨fun hm => h.ready_not_waits hs (by decide) ((h.sleeping t).mp hm),
    fun hm => h.ready_not_waits hs (by decide) ((h.waiting t).mp hm)⟩

theorem sleeping_not_irq (h : BlockInv s r sl il) (ht : t ∈ sl) : t ∉ il := by
  intro hm
  have he := h.waits_unique ((h.sleeping t).mp ht) ((h.waiting t).mp hm)
  cases he

/-- The running task is on no list unless it is pending there. -/
theorem running_not_listed (h : BlockInv s r sl il) (hc : s.kernel.currentTaskTCB = some c)
    (hp : ¬ (s.pc c).Pending .sleep ∧ ¬ (s.pc c).Pending .irq) : c ∉ sl ∧ c ∉ il := by
  have hrun := (h.running c hc).2
  rw [h.sleeping, h.waiting, WaitState.waits_iff_pending (Or.inl hrun),
    WaitState.waits_iff_pending (Or.inl hrun)]
  exact hp

/-- Where interrupts come, the running task holds no lock. -/
theorem not_locked (h : BlockInv s r sl il)
    (hen : s.kernel.irqDisableCounter = 0 ∨ s.kernel.currentTaskTCB = none) :
    s.kernel.postponeTaskSwitchesCounter = 0 ∧
      ∀ c, s.kernel.currentTaskTCB = some c → s.pc c = .user ∨ ∃ reason, s.pc c = .window reason := by
  have hlock : ∀ c, s.kernel.currentTaskTCB = some c → (s.pc c).locks ≤ 0 := by
    intro c hc
    rcases hen with hen | hen
    · have hle := (h.counters.postpone c hc).2.1
      rwa [hen] at hle
    · rw [hen] at hc
      cases hc
  have hplace : ∀ c, s.kernel.currentTaskTCB = some c →
      s.pc c = .user ∨ ∃ reason, s.pc c = .window reason := by
    intro c hc
    have hle := hlock c hc
    cases hpc : s.pc c with
    | user => exact Or.inl rfl
    | window reason => exact Or.inr ⟨reason, rfl⟩
    | locked | updated | leaving =>
        rw [hpc] at hle
        exact absurd hle (by simp [Pc.locks])
  refine ⟨?_, hplace⟩
  rcases Option.eq_none_or_eq_some s.kernel.currentTaskTCB with hn | ⟨c, hc⟩
  · exact (h.counters.idle hn).1
  · rw [(h.counters.postpone c hc).1]
    rcases hplace c hc with hpc | ⟨reason, hpc⟩ <;> rw [hpc] <;> rfl

end BlockInv

/-- The lists stay right when nobody starts or stops to wait. -/
theorem Published.congr (h : Published s sl il) (hw : ∀ t reason, s'.Waits t reason ↔ s.Waits t reason)
    (hslot : s'.slot = s.slot) : Published s' sl il := by
  refine ⟨fun t => ?_, fun t => ?_, fun t => ?_, ?_⟩
  · rw [hw]
    exact h.sleeping t
  · rw [hw]
    exact h.waiting t
  · rw [hw, hslot]
    exact h.poked t
  · rw [hslot]
    exact h.once

/-- A step of the running task `c` that keeps the processor. It moves from one place to another
and may put itself on a list or into a slot. -/
theorem BlockInv.move (h : BlockInv s r sl il) (s' : WaitState)
    (hc : s.kernel.currentTaskTCB = some c)
    (hs' : s'.pc = Function.update s.pc c pc) (hcur : s'.kernel.currentTaskTCB = some c)
    (hstate : s'.kernel.state = s.kernel.state) (hal : s'.kernel.allocated = s.kernel.allocated)
    {sl' il' : List Tid} (hpub : Published s' sl' il') (hctr : Counters s')
    (hready : QueueSeg s'.kernel r none)
    (hsl : Chain s'.kernel.next s'.kernel.sleepingTaskList sl')
    (hil : Chain s'.kernel.next s'.kernel.irqwaiting il') : BlockInv s' r sl' il' := by
  refine ⟨hpub, ⟨?_, ?_, ?_, ?_⟩, hready, hsl, hil, hctr⟩
  · intro t
    by_cases htc : t = c
    · exact Or.inr (Or.inr (htc ▸ hcur))
    · rw [hs', Function.update_of_ne htc]
      rcases h.pcs t with hp | hp | hp
      · exact Or.inl hp
      · exact Or.inr (Or.inl hp)
      · exact absurd (Option.some.inj (hp.symm.trans hc)) htc
  · intro t ht
    rw [WaitState.Runnable, hal, hstate]
    by_cases htc : t = c
    · obtain ⟨hca, hrun⟩ := h.running c hc
      exact htc ▸ ⟨hca, Or.inl hrun⟩
    · rw [hs', Function.update_of_ne htc] at ht
      exact h.preempted t ht
  · intro d hd
    obtain rfl : c = d := Option.some.inj (hcur.symm.trans hd)
    rw [hal, hstate]
    exact h.running c hc
  · intro hn
    rw [hcur] at hn
    cases hn

/-- The running task moves between places without publishing itself. -/
theorem WaitState.waits_move (s' : WaitState) (hs' : s'.pc = Function.update s.pc c pc)
    (hstate : s'.kernel.state = s.kernel.state) (hal : s'.kernel.allocated = s.kernel.allocated)
    (hsame : ∀ reason, pc.Pending reason ↔ (s.pc c).Pending reason) :
    s'.Waits t reason ↔ s.Waits t reason := by
  unfold WaitState.Waits
  rw [hstate, hal, hs']
  by_cases htc : t = c
  · rw [htc, Function.update_self, hsame]
  · rw [Function.update_of_ne htc]

/-- A counter state that only moves the running task between places with the same locks. -/
theorem Counters.move (h : Counters s) (s' : WaitState)
    (hc : s.kernel.currentTaskTCB = some c) (hs' : s'.pc = Function.update s.pc c pc)
    (hcur : s'.kernel.currentTaskTCB = some c) (hlocks : pc.locks = (s.pc c).locks)
    (hf : s'.kernel.taskSwitchesPostponedFlag = s.kernel.taskSwitchesPostponedFlag)
    (hd : s'.kernel.deadTasks = s.kernel.deadTasks)
    (hp : s'.kernel.postponeTaskSwitchesCounter = s.kernel.postponeTaskSwitchesCounter)
    (hi : s'.kernel.irqDisableCounter = s.kernel.irqDisableCounter)
    (hu : s'.kernel.stackUnlocks = s.kernel.stackUnlocks) : Counters s' := by
  refine ⟨hf.trans h.flag, hd.trans h.dead, ?_, ?_, fun t => by rw [hu]; exact h.unlocks t⟩
  · intro d hd
    obtain rfl : c = d := Option.some.inj (hcur.symm.trans hd)
    rw [hs', Function.update_self, hlocks, hp, hi, hu]
    exact h.postpone c hc
  · intro hn
    rw [hcur] at hn
    cases hn

theorem lock_good {call : WaitCall} (h : BlockInv s r sl il)
    (hen : WaitOp.Enabled s (.lock call)) : Good s (.lock call) := by
  obtain ⟨c, hc, hpc⟩ := hen
  let s₁ : WaitState := { s with
    kernel := s.kernel.lockStuff, pc := Function.update s.pc c (.locked call) }
  have hex : WaitOp.exec s (.lock call) = .ok s₁ := by
    simp [WaitOp.exec, hc, WaitState.advance, s₁]
  refine Or.inl ⟨s₁, r, sl, il, hex, ?_, .of_eq rfl rfl rfl, trivial⟩
  refine h.move s₁ hc rfl hc rfl rfl ?_ ?_ (h.ready.frame rfl rfl rfl rfl rfl) h.sleepers h.irqs
  · refine h.toPublished.congr (fun t reason => WaitState.waits_move s₁ rfl rfl rfl ?_) rfl
    intro reason
    simp [Pc.Pending, hpc]
  · obtain ⟨hp, hle, hu⟩ := h.counters.postpone c hc
    rw [hpc] at hp hle
    refine ⟨h.counters.flag, h.counters.dead, ?_, ?_, h.counters.unlocks⟩
    · intro d hd
      obtain rfl : c = d := Option.some.inj (hc.symm.trans hd)
      simp only [Pc.locks] at hp hle
      simp only [s₁, Function.update_self, Pc.locks, Kernel.lockStuff]
      omega
    · intro hn
      exact absurd (hc.symm.trans hn) (by simp)

theorem unlock_good (h : BlockInv s r sl il) (hen : WaitOp.Enabled s .unlock) :
    Good s .unlock := by
  obtain ⟨c, hc, hpc⟩ := hen
  have hlocks : (s.pc c).locks = 1 := by
    rcases hpc with hpc | ⟨reason, hpc⟩ <;> rw [hpc] <;> rfl
  obtain ⟨hp, hle, hu⟩ := h.counters.postpone c hc
  rw [hlocks] at hp hle
  obtain ⟨pc, hpc0, hsame, hex⟩ : ∃ pc : Pc, pc.locks = 0 ∧
      (∀ reason, pc.Pending reason ↔ (s.pc c).Pending reason) ∧
      WaitOp.exec s .unlock = s.advance c pc s.kernel.unlockStuff := by
    rcases hpc with hpc | ⟨reason, hpc⟩
    · exact ⟨.user, rfl, by simp [Pc.Pending, hpc], by simp [WaitOp.exec, hc, hpc]⟩
    · exact ⟨.window reason, rfl, by simp [Pc.Pending, hpc], by simp [WaitOp.exec, hc, hpc]⟩
  rw [Kernel.unlockStuff_plain hp h.counters.flag] at hex
  let s₁ : WaitState := { s with
    kernel := s.kernel.unlocked
    pc := Function.update s.pc c pc }
  refine Or.inl ⟨s₁, r, sl, il, hex, ?_, .of_eq rfl rfl rfl, trivial⟩
  refine h.move s₁ hc rfl hc rfl rfl ?_ ?_ (h.ready.frame rfl rfl rfl rfl rfl) h.sleepers h.irqs
  · exact h.toPublished.congr (fun t reason => WaitState.waits_move s₁ rfl rfl rfl hsame) rfl
  · refine ⟨h.counters.flag, h.counters.dead, ?_, ?_, h.counters.unlocks⟩
    · intro d hd
      obtain rfl : c = d := Option.some.inj (hc.symm.trans hd)
      simp only [s₁, Function.update_self, hpc0, Kernel.unlocked, Kernel.unlockScheduler]
      exact ⟨trivial, by omega, hu⟩
    · intro hn
      exact absurd (hc.symm.trans hn) (by simp)

/-- The running task publishes itself for `reason`. -/
theorem WaitState.waits_publish {reason' : Reason} (s' : WaitState)
    (hrun : s.kernel.state c = .running) (hpc : ∀ reason, ¬ (s.pc c).Pending reason)
    (hs' : s'.pc = Function.update s.pc c (.updated reason))
    (hstate : s'.kernel.state = s.kernel.state) (hal : s'.kernel.allocated = s.kernel.allocated) :
    s'.Waits t reason' ↔ s.Waits t reason' ∨ t = c ∧ reason' = reason := by
  by_cases htc : t = c
  · subst htc
    rw [WaitState.waits_iff_pending (Or.inl hrun),
      WaitState.waits_iff_pending (Or.inl ((congrFun hstate t).trans hrun)), hs',
      Function.update_self, or_iff_right (hpc reason')]
    simp [Pc.Pending, eq_comm]
  · unfold WaitState.Waits
    rw [hstate, hal, hs', Function.update_of_ne htc]
    simp [htc]

theorem pushWait_chain {l : List Tid} {p : Option Tid} (k : Kernel) (c : Tid) (w : WaitList)
    (h : Chain k.next p l) (hc : c ∉ l) : Chain (k.pushWait c w).next p l := by
  rw [pushWait_next]
  exact (chain_update_of_notMem hc).mpr h

theorem pushWait_pushed {l : List Tid} (k : Kernel) (c : Tid) (w : WaitList)
    (h : Chain k.next (k.waitHead w) l) (hc : c ∉ l) :
    Chain (k.pushWait c w).next ((k.pushWait c w).waitHead w) (c :: l) := by
  rw [pushWait_head, pushWait_next]
  refine chain_cons.mpr ⟨rfl, ?_⟩
  rw [Function.update_self]
  exact (chain_update_of_notMem hc).mpr h

theorem Untouched.pushWait {k : Kernel} {w : WaitList} (hc : k.state c = .running) :
    Untouched k (k.pushWait c w) := by
  refine ⟨fun t ht => ?_, fun t ht => ?_, ?_⟩
  · have htc : t ≠ c := by
      intro he
      rw [he, hc] at ht
      cases ht
    rw [pushWait_state, pushWait_next, Function.update_of_ne htc]
    exact ⟨ht, rfl⟩
  · rw [pushWait_state]
    exact Or.inl ht
  · cases w <;> rfl

/-- A task behind `lock_stuff` waits for nothing. -/
structure Calling (s : WaitState) (r sl il : List Tid) (c : Tid) : Prop where
  running : s.kernel.state c = .running
  pending : ∀ reason, ¬ (s.pc c).Pending reason
  ready : c ∉ r
  sleeping : c ∉ sl
  waiting : c ∉ il

section Update

variable {call : WaitCall}

theorem BlockInv.calling (h : BlockInv s r sl il) (hc : s.kernel.currentTaskTCB = some c)
    (hpc : s.pc c = .locked call) : Calling s r sl il c := by
  have hnot : ∀ reason, ¬ (s.pc c).Pending reason := by
    intro reason
    simp [Pc.Pending, hpc]
  obtain ⟨hcs, hci⟩ := h.running_not_listed hc ⟨hnot .sleep, hnot .irq⟩
  have hrun := (h.running c hc).2
  exact ⟨hrun, hnot, h.ready.not_mem (by simp [hrun]), hcs, hci⟩

theorem exec_update (hc : s.kernel.currentTaskTCB = some c) (hpc : s.pc c = .locked call) :
    WaitOp.exec s .update = s.runUpdate c call := by
  simp [WaitOp.exec, hc, hpc]

/-- The task leaves without waiting. -/
theorem leave_good (irqs : UInt64) (h : BlockInv s r sl il)
    (hc : s.kernel.currentTaskTCB = some c) (hpc : s.pc c = .locked call)
    (he : WaitOp.exec s .update = .ok { s with
      kernel := { s.kernel with irqscalled := irqs }, pc := Function.update s.pc c .leaving }) :
    Good s .update := by
  let s₁ : WaitState := { s with
    kernel := { s.kernel with irqscalled := irqs }, pc := Function.update s.pc c .leaving }
  refine Or.inl ⟨s₁, r, sl, il, he, ?_, .of_eq rfl rfl rfl, trivial⟩
  refine h.move s₁ hc rfl hc rfl rfl ?_ ?_ (h.ready.frame rfl rfl rfl rfl rfl) h.sleepers h.irqs
  · refine h.toPublished.congr (fun t reason => WaitState.waits_move s₁ rfl rfl rfl ?_) rfl
    intro reason
    simp [Pc.Pending, hpc]
  · exact h.counters.move s₁ hc rfl hc (by rw [hpc]; rfl) rfl rfl rfl rfl rfl

theorem nanoSleepUpdate_good {t : UInt64} (h : BlockInv s r sl il)
    (hc : s.kernel.currentTaskTCB = some c) (hpc : s.pc c = .locked (.nanoSleepUntil t)) :
    Good s .update := by
  have hex := exec_update hc hpc
  have hcall := h.calling hc hpc
  by_cases ht : t < s.kernel.time
  · apply leave_good s.kernel.irqscalled h hc hpc
    rw [hex]
    simp [WaitState.runUpdate, Kernel.nanoSleepUpdate, ht]
  · let k₁ : Kernel := { s.kernel with ttn := Function.update s.kernel.ttn c t }
    let s₁ : WaitState := { s with
      kernel := k₁.pushWait c .sleeping, pc := Function.update s.pc c (.updated .sleep) }
    have hw : ∀ t reason, s₁.Waits t reason ↔ s.Waits t reason ∨ t = c ∧ reason = .sleep :=
      fun t reason => WaitState.waits_publish s₁ hcall.running hcall.pending rfl rfl rfl
    have hun : Untouched k₁ (k₁.pushWait c .sleeping) := .pushWait hcall.running
    refine Or.inl ⟨s₁, r, c :: sl, il, ?_, ?_, ⟨hun.blocked, hun.ready, hun.allocated⟩, trivial⟩
    · rw [hex]
      simp [WaitState.runUpdate, Kernel.nanoSleepUpdate, ht, s₁, k₁]
    refine h.move s₁ hc rfl hc rfl rfl ⟨?_, ?_, ?_, h.once⟩ ?_ ?_ ?_ ?_
    · intro t
      rw [hw, List.mem_cons, h.sleeping, or_comm]
      simp
    · intro t
      rw [hw, h.waiting]
      simp
    · intro t
      rw [hw]
      simpa using h.poked t
    · exact h.counters.move s₁ hc rfl hc (by rw [hpc]; rfl) rfl rfl rfl rfl rfl
    · exact QueueSeg.pushWait (k := k₁) (w := .sleeping) (h.ready.frame rfl rfl rfl rfl rfl) hcall.ready
    · exact pushWait_pushed k₁ c .sleeping h.sleepers hcall.sleeping
    · exact pushWait_chain k₁ c .sleeping h.irqs hcall.waiting

theorem waitForIrqUpdate_good {irq : UInt8} {timeout : UInt64} {f : Option UInt64}
    (h : BlockInv s r sl il) (hc : s.kernel.currentTaskTCB = some c)
    (hpc : s.pc c = .locked (.waitForIrq irq timeout f)) : Good s .update := by
  have hex := exec_update hc hpc
  have hcall := h.calling hc hpc
  by_cases hb : s.kernel.irqscalled &&& Kernel.irqBit irq ≠ 0
  · apply leave_good (s.kernel.irqscalled &&& ~~~ Kernel.irqBit irq) h hc hpc
    rw [hex]
    simp [WaitState.runUpdate, Kernel.waitForIrqUpdate, hb]
  · let k₁ : Kernel := { s.kernel with
      irqWaitingFor := Function.update s.kernel.irqWaitingFor c irq
      ttn := Function.update s.kernel.ttn c (if timeout = 0 then 0 else s.kernel.time + timeout)
      timeoutFunction := Function.update s.kernel.timeoutFunction c f }
    let s₁ : WaitState := { s with
      kernel := k₁.pushWait c .irq, pc := Function.update s.pc c (.updated .irq) }
    have hw : ∀ t reason, s₁.Waits t reason ↔ s.Waits t reason ∨ t = c ∧ reason = .irq :=
      fun t reason => WaitState.waits_publish s₁ hcall.running hcall.pending rfl rfl rfl
    have hun : Untouched k₁ (k₁.pushWait c .irq) := .pushWait hcall.running
    refine Or.inl ⟨s₁, r, sl, c :: il, ?_, ?_, ⟨hun.blocked, hun.ready, hun.allocated⟩, trivial⟩
    · rw [hex]
      simp only [WaitState.runUpdate, Kernel.waitForIrqUpdate, if_neg hb]
      rfl
    refine h.move s₁ hc rfl hc rfl rfl ⟨?_, ?_, ?_, h.once⟩ ?_ ?_ ?_ ?_
    · intro t
      rw [hw, h.sleeping]
      simp
    · intro t
      rw [hw, List.mem_cons, h.waiting, or_comm]
      simp
    · intro t
      rw [hw]
      simpa using h.poked t
    · exact h.counters.move s₁ hc rfl hc (by rw [hpc]; rfl) rfl rfl rfl rfl rfl
    · exact QueueSeg.pushWait (k := k₁) (w := .irq) (h.ready.frame rfl rfl rfl rfl rfl) hcall.ready
    · exact pushWait_chain k₁ c .irq h.sleepers hcall.sleeping
    · exact pushWait_pushed k₁ c .irq h.irqs hcall.waiting

theorem wfPokeUpdate_good {p : Option Nat} (h : BlockInv s r sl il)
    (hc : s.kernel.currentTaskTCB = some c) (hpc : s.pc c = .locked (.wfPokeT p)) :
    Good s .update := by
  have hex := exec_update hc hpc
  have hcall := h.calling hc hpc
  have herr : ∀ n, ¬ Misplaced (.error .pokeNullp n) := by
    intro n hm
    obtain ⟨t, hm | hm | hm⟩ := hm <;> cases hm
  cases p with
  | none => exact Or.inr ⟨_, hex, herr 0⟩
  | some p =>
      cases hp : s.slot p with
      | some t =>
          refine Or.inr ⟨.error .pokeNullp p, ?_, herr p⟩
          rw [hex]
          simp [WaitState.runUpdate, hp]
      | none =>
          let s₁ : WaitState := { s with
            pc := Function.update s.pc c (.updated .poke)
            slot := Function.update s.slot p (some c) }
          have hw : ∀ t reason, s₁.Waits t reason ↔ s.Waits t reason ∨ t = c ∧ reason = .poke :=
            fun t reason => WaitState.waits_publish s₁ hcall.running hcall.pending rfl rfl rfl
          -- the running task was in no slot
          have hfree : ∀ a, s.slot a ≠ some c := by
            intro a ha
            have hwc := (h.poked c).mp ⟨a, ha⟩
            rw [WaitState.waits_iff_pending (Or.inl hcall.running)] at hwc
            exact hcall.pending .poke hwc
          have hslot : ∀ a t, s₁.slot a = some t ↔ s.slot a = some t ∨ a = p ∧ t = c := by
            intro a t
            change Function.update s.slot p (some c) a = some t ↔ _
            by_cases hap : a = p
            · rw [hap, Function.update_self, hp]
              simp [eq_comm]
            · rw [Function.update_of_ne hap]
              simp [hap]
          refine Or.inl ⟨s₁, r, sl, il, ?_, ?_, .of_eq rfl rfl rfl, trivial⟩
          · rw [hex]
            simp [WaitState.runUpdate, hp, s₁]
          refine h.move s₁ hc rfl hc rfl rfl ⟨?_, ?_, ?_, ?_⟩ ?_ h.ready h.sleepers h.irqs
          · intro t
            rw [hw, h.sleeping]
            simp
          · intro t
            rw [hw, h.waiting]
            simp
          · intro t
            rw [hw, ← h.poked]
            simp only [hslot, exists_or]
            simp
          · intro a b t ha hb
            rw [hslot] at ha hb
            rcases ha with ha | ⟨rfl, rfl⟩ <;> rcases hb with hb | ⟨rfl, hbt⟩
            · exact h.once a b t ha hb
            · exact absurd (hbt ▸ ha) (hfree a)
            · exact absurd hb (hfree b)
            · rfl
          · exact h.counters.move s₁ hc rfl hc (by rw [hpc]; rfl) rfl rfl rfl rfl rfl

theorem update_good (h : BlockInv s r sl il) (hen : WaitOp.Enabled s .update) :
    Good s .update := by
  obtain ⟨c, call, hc, hpc⟩ := hen
  cases call with
  | nanoSleepUntil t => exact nanoSleepUpdate_good h hc hpc
  | waitForIrq irq timeout f => exact waitForIrqUpdate_good h hc hpc
  | wfPokeT p => exact wfPokeUpdate_good h hc hpc

end Update

end UnnamedOS.Proc
