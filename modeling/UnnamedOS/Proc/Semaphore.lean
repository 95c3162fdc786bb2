import UnnamedOS.Proc.Atomicity

/-!
# Semaphores

`acquire_semaphore` and `release_semaphore` over the scheduler. The waiters of a semaphore are
linked through the `next` field of their task control blocks. A release grants the semaphore
by putting the first waiter on the ready list; a task that gets the processor while it is in
`acquire_semaphore` returns from it, granted or not.
-/

namespace UnnamedOS.Proc

open UnnamedOS.Lib

/-- `SEMAPHORE`. -/
structure Semaphore where
  maxCount : Int
  currentCount : Int
  firstWaiting : Option Tid
  lastWaiting : Option Tid

def createSemaphore (maxCount : Int) : Semaphore where
  maxCount := maxCount
  currentCount := 0
  firstWaiting := none
  lastWaiting := none

namespace Semaphore

variable (m : Semaphore) (k : Kernel)

/-- The waiter's part of `acquire_semaphore` up to `block_task`. -/
def enqueue (c : Tid) : Except Halt (Semaphore × Kernel) :=
  let k := k.setNext c none
  match m.firstWaiting with
  | none => .ok ({ m with firstWaiting := some c, lastWaiting := some c }, k)
  | some _ =>
    match m.lastWaiting with
    | none => .error .nullPointer
    | some l => .ok ({ m with lastWaiting := some c }, k.setNext l (some c))

def acquire : Except Halt (Semaphore × Kernel) :=
  let k := k.lockStuff
  if m.currentCount < m.maxCount then
    match k.unlockStuff with
    | .error e => .error e
    | .ok k => .ok ({ m with currentCount := m.currentCount + 1 }, k)
  else
    match k.currentTaskTCB with
    | none => .error .nullPointer
    | some c =>
      match m.enqueue k c with
      | .error e => .error e
      | .ok (m, k) =>
        match k.blockTask .waitingForLock with
        | .error e => .error e
        | .ok k =>
          match k.unlockStuff with
          | .error e => .error e
          | .ok k => .ok (m, k)

def release : Except Halt (Semaphore × Kernel) :=
  let k := k.lockStuff
  match m.firstWaiting with
  | some task =>
    match k.unblockTask task with
    | .error e => .error e
    | .ok k' =>
      match k'.unlockStuff with
      | .error e => .error e
      | .ok k' => .ok ({ m with firstWaiting := k.next task }, k')
  | none =>
    match k.unlockStuff with
    | .error e => .error e
    | .ok k => .ok ({ m with currentCount := m.currentCount - 1 }, k)

end Semaphore

/-- The semaphores by address, and what has happened to them: who is inside
`acquire_semaphore`, who has returned from it without a release, who has been granted the
semaphore and has not run since, and the orders of queueing and granting. -/
structure SemState extends WaitState where
  sem : Nat → Option Semaphore
  acquiring : Tid → Option Nat
  holders : Nat → List Tid
  granted : Nat → List Tid
  queued : Nat → List Tid
  grants : Nat → List Tid

inductive SemOp where
  | create (a : Nat) (maxCount : Int)
  | acquire (a : Nat)
  | release (a : Nat)
  /-- `nano_sleep_until` up to its `unlock_stuff`. -/
  | sleep (t : UInt64)
  /-- `block_task` at the end of `nano_sleep_until`. -/
  | block
  | timer
  | leaveIdle

/-- Interrupts are off from `lock_stuff` to `unlock_stuff`. -/
def WaitState.sleepUntil (s : WaitState) (t : UInt64) : Except Halt WaitState :=
  match (WaitOp.lock (.nanoSleepUntil t)).exec s with
  | .error e => .error e
  | .ok s =>
    match WaitOp.update.exec s with
    | .error e => .error e
    | .ok s => WaitOp.unlock.exec s

namespace SemState

variable (s : SemState)

/-- A task that gets the processor inside `acquire_semaphore` returns from it. -/
def settle : SemState :=
  match s.kernel.currentTaskTCB with
  | none => s
  | some t =>
    match s.acquiring t with
    | none => s
    | some a =>
      { s with
        acquiring := Function.update s.acquiring t none
        holders := Function.update s.holders a (t :: s.holders a)
        granted := Function.update s.granted a ((s.granted a).erase t) }

def withWait : Except Halt WaitState → Except Halt SemState
  | .error e => .error e
  | .ok w => .ok { s with toWaitState := w }.settle

def acquire (a : Nat) (m : Semaphore) (c : Tid) : Except Halt SemState :=
  match m.acquire s.kernel with
  | .error e => .error e
  | .ok (m', k) =>
    let s := { s with kernel := k, sem := Function.update s.sem a (some m') }
    if m.currentCount < m.maxCount then
      .ok { s with holders := Function.update s.holders a (c :: s.holders a) }
    else
      .ok { s with
        acquiring := Function.update s.acquiring c (some a)
        queued := Function.update s.queued a (s.queued a ++ [c]) }.settle

def release (a : Nat) (m : Semaphore) (c : Tid) : Except Halt SemState :=
  match m.release s.kernel with
  | .error e => .error e
  | .ok (m', k) =>
    let s := { s with
      kernel := k
      sem := Function.update s.sem a (some m')
      holders := Function.update s.holders a ((s.holders a).erase c) }
    match m.firstWaiting with
    | none => .ok s
    | some t =>
      .ok { s with
        granted := Function.update s.granted a (t :: s.granted a)
        grants := Function.update s.grants a (s.grants a ++ [t]) }

end SemState

namespace SemOp

def exec (s : SemState) : SemOp → Except Halt SemState
  | create a n => .ok { s with sem := Function.update s.sem a (some (createSemaphore n)) }
  | acquire a =>
    match s.sem a, s.kernel.currentTaskTCB with
    | some m, some c => s.acquire a m c
    | _, _ => .error .nullPointer
  | release a =>
    match s.sem a, s.kernel.currentTaskTCB with
    | some m, some c => s.release a m c
    | _, _ => .error .nullPointer
  | sleep t => s.withWait (s.sleepUntil t)
  | block => s.withWait (WaitOp.block.exec s.toWaitState)
  | timer => s.withWait (WaitOp.timer.exec s.toWaitState)
  | leaveIdle => s.withWait (WaitOp.leaveIdle.exec s.toWaitState)

/-- Semaphores are created at fresh addresses and released by their holders. -/
def Enabled (s : SemState) : SemOp → Prop
  | create a _ => (∃ c, s.kernel.currentTaskTCB = some c ∧ s.pc c = .user) ∧ s.sem a = none
  | acquire a => (∃ c, s.kernel.currentTaskTCB = some c ∧ s.pc c = .user) ∧ s.sem a ≠ none
  | release a => ∃ c, s.kernel.currentTaskTCB = some c ∧ s.pc c = .user ∧ c ∈ s.holders a
  | sleep _ => ∃ c, s.kernel.currentTaskTCB = some c ∧ s.pc c = .user
  | block => ∃ c, s.kernel.currentTaskTCB = some c ∧ s.pc c = .window .sleep
  | timer => s.kernel.irqDisableCounter = 0 ∨ s.kernel.currentTaskTCB = none
  | leaveIdle => s.kernel.currentTaskTCB = none

instance currentDecidable (o : Option Tid) (P : Tid → Prop) [DecidablePred P] :
    Decidable (∃ c, o = some c ∧ P c) :=
  match o with
  | none => isFalse fun ⟨_, h, _⟩ => nomatch h
  | some c => decidable_of_iff (P c)
      ⟨fun h => ⟨c, rfl, h⟩, fun ⟨_, hc, h⟩ => Option.some.inj hc ▸ h⟩

instance enabledDecidable (s : SemState) : (op : SemOp) → Decidable (op.Enabled s)
  | create a _ => inferInstanceAs (Decidable
      ((∃ c, s.kernel.currentTaskTCB = some c ∧ s.pc c = .user) ∧ s.sem a = none))
  | acquire a => inferInstanceAs (Decidable
      ((∃ c, s.kernel.currentTaskTCB = some c ∧ s.pc c = .user) ∧ s.sem a ≠ none))
  | release a => inferInstanceAs (Decidable
      (∃ c, s.kernel.currentTaskTCB = some c ∧ s.pc c = .user ∧ c ∈ s.holders a))
  | sleep _ => inferInstanceAs (Decidable
      (∃ c, s.kernel.currentTaskTCB = some c ∧ s.pc c = .user))
  | block => inferInstanceAs (Decidable
      (∃ c, s.kernel.currentTaskTCB = some c ∧ s.pc c = .window .sleep))
  | timer => inferInstanceAs (Decidable
      (s.kernel.irqDisableCounter = 0 ∨ s.kernel.currentTaskTCB = none))
  | leaveIdle => inferInstanceAs (Decidable (s.kernel.currentTaskTCB = none))

def step (s : SemState) (op : SemOp) (s' : SemState) : Prop := op.Enabled s ∧ op.exec s = .ok s'

/-- No wake-up leaves a stale `next` behind the ready list. -/
def Safe (s : SemState) : SemOp → Prop
  | release a => ∀ m t, s.sem a = some m → m.firstWaiting = some t →
      s.kernel.firstThread = none ∨ s.kernel.next t = none
  | timer => s.kernel.SliceEnds ∨ ∀ sl il, Chain s.kernel.next s.kernel.sleepingTaskList sl →
      Chain s.kernel.next s.kernel.irqwaiting il →
        WaitOp.CleanTail s.kernel (timerWakes s.kernel.enterTimer sl il)
  | _ => True

end SemOp

/-- The waiters, the granted tasks and the counts of all semaphores. -/
structure SemQueues (s : SemState) (queue : Nat → List Tid) : Prop where
  chain : ∀ a m, s.sem a = some m → Chain s.kernel.next m.firstWaiting (queue a)
  last : ∀ a m, s.sem a = some m → queue a ≠ [] → m.lastWaiting = (queue a).getLast?
  absent : ∀ a, s.sem a = none → queue a = [] ∧ s.granted a = [] ∧ s.holders a = []
  waiting : ∀ a, ∀ t ∈ queue a, t ∈ s.kernel.allocated ∧ s.kernel.state t = .waitingForLock ∧
    s.acquiring t = some a
  granted : ∀ a, ∀ t ∈ s.granted a, s.acquiring t = some a ∧
    (s.kernel.state t = .ready ∨ s.kernel.currentTaskTCB = some t)
  once : ∀ a, (s.granted a).Nodup
  inside : ∀ t a, s.acquiring t = some a → t ∈ queue a ∨ t ∈ s.granted a
  count : ∀ a m, s.sem a = some m →
    m.currentCount = (s.holders a).length + (s.granted a).length ∧
      (1 ≤ m.maxCount → m.currentCount ≤ m.maxCount)
  order : ∀ a, s.queued a = s.grants a ++ queue a

structure SemInv (s : SemState) (queue : Nat → List Tid) (r sl il : List Tid) : Prop extends
    SemQueues s queue where
  block : BlockInv s.toWaitState r sl il
  settled : ∀ c, s.kernel.currentTaskTCB = some c → s.acquiring c = none
  places : ∀ t, s.pc t = .user ∨ s.pc t = .window .sleep
  head : ∀ c, s.kernel.currentTaskTCB = some c → s.pc c = .window .sleep →
    s.kernel.sleepingTaskList = some c

def SemGood (s : SemState) : Prop := ∃ queue r sl il, SemInv s queue r sl il

variable {s s' : SemState} {queue : Nat → List Tid} {r sl il : List Tid} {c t : Tid} {a : Nat}
  {m m' : Semaphore} {k k' : Kernel}

theorem settle_toWaitState : s.settle.toWaitState = s.toWaitState := by
  unfold SemState.settle
  split
  · rfl
  · split <;> rfl

/-- A running task waits in no queue. -/
theorem SemQueues.not_mem_of_running (h : SemQueues s queue)
    (ht : s.kernel.state t = .running) (a : Nat) : t ∉ queue a := by
  intro hq
  have hw := (h.waiting a t hq).2.1
  rw [ht] at hw
  cases hw

/-- Who has been granted a place besides the task that takes its own. -/
theorem SemQueues.mem_erase_granted (h : SemQueues s queue) {x : Tid} {b : Nat}
    (hacq : s.acquiring t = some a) :
    x ∈ Function.update s.granted a ((s.granted a).erase t) b ↔ x ≠ t ∧ x ∈ s.granted b := by
  by_cases hba : b = a
  · rw [hba, Function.update_self, (h.once a).mem_erase_iff]
  · rw [Function.update_of_ne hba]
    refine (and_iff_right_of_imp fun hx hxt => hba ?_).symm
    have hb := (h.granted b x hx).1
    rw [hxt, hacq] at hb
    exact (Option.some.inj hb).symm

theorem SemState.settle_eq (ht : s.kernel.currentTaskTCB = some t)
    (hacq : s.acquiring t = some a) :
    s.settle = { s with
      acquiring := Function.update s.acquiring t none
      holders := Function.update s.holders a (t :: s.holders a)
      granted := Function.update s.granted a ((s.granted a).erase t) } := by
  simp only [SemState.settle, ht, hacq]

/-- The task that takes its place was granted it. -/
theorem SemQueues.take (h : SemQueues s queue)
    (ht : s.kernel.currentTaskTCB = some t) (hrun : s.kernel.state t = .running)
    (hacq : s.acquiring t = some a) : SemQueues s.settle queue := by
  have hgr : t ∈ s.granted a := (h.inside t a hacq).resolve_left (h.not_mem_of_running hrun a)
  rw [SemState.settle_eq ht hacq]
  refine ⟨h.chain, h.last, fun b hb => ?_, fun b x hx => ?_, fun b x hx => ?_, fun b => ?_,
    fun x b hx => ?_, fun b m hb => ?_, h.order⟩
  · have hba : b ≠ a := by
      intro hba
      rw [← hba, (h.absent b hb).2.1] at hgr
      cases hgr
    simp only [Function.update_of_ne hba]
    exact h.absent b hb
  · obtain ⟨hxa, hxs, hxq⟩ := h.waiting b x hx
    have hxt : x ≠ t := fun he => h.not_mem_of_running hrun b (he ▸ hx)
    exact ⟨hxa, hxs, (Function.update_of_ne hxt _ _).trans hxq⟩
  · obtain ⟨hxt, hx⟩ := (h.mem_erase_granted hacq).mp hx
    obtain ⟨hacq', hst⟩ := h.granted b x hx
    exact ⟨(Function.update_of_ne hxt _ _).trans hacq', hst⟩
  · by_cases hba : b = a
    · simp only [hba, Function.update_self]
      exact (h.once a).erase t
    · simp only [Function.update_of_ne hba]
      exact h.once b
  · by_cases hxt : x = t
    · simp only [hxt, Function.update_self] at hx
      cases hx
    · simp only [Function.update_of_ne hxt] at hx
      exact (h.inside x b hx).imp_right fun hm => (h.mem_erase_granted hacq).mpr ⟨hxt, hm⟩
  · by_cases hba : b = a
    · subst hba
      obtain ⟨hcount, hmax⟩ := h.count b m hb
      have hlen := List.length_erase_of_mem hgr
      have hpos := List.length_pos_of_mem hgr
      simp only [Function.update_self, List.length_cons, hlen]
      refine ⟨?_, hmax⟩
      rw [hcount]
      omega
    · simp only [Function.update_of_ne hba]
      exact h.count b m hb

/-- The running task has left the queue; when it returns from `acquire_semaphore`, it moves
from the granted tasks to the holders. -/
theorem SemQueues.settle (h : SemQueues s queue)
    (hrun : ∀ c, s.kernel.currentTaskTCB = some c → s.kernel.state c = .running) :
    SemQueues s.settle queue ∧
      ∀ c, s.settle.kernel.currentTaskTCB = some c → s.settle.acquiring c = none := by
  rcases Option.eq_none_or_eq_some s.kernel.currentTaskTCB with hn | ⟨t, ht⟩
  · have he : s.settle = s := by
      rw [SemState.settle, hn]
    rw [he]
    refine ⟨h, fun c hc => ?_⟩
    rw [hn] at hc
    cases hc
  rcases Option.eq_none_or_eq_some (s.acquiring t) with hacq | ⟨a, hacq⟩
  · have he : s.settle = s := by
      simp only [SemState.settle, ht, hacq]
    rw [he]
    refine ⟨h, fun c hc => ?_⟩
    rw [← Option.some.inj (ht.symm.trans hc)]
    exact hacq
  · refine ⟨h.take ht (hrun t ht) hacq, fun c hc => ?_⟩
    rw [SemState.settle_eq ht hacq] at hc ⊢
    obtain rfl := Option.some.inj (ht.symm.trans hc)
    exact Function.update_self _ _ _

end UnnamedOS.Proc
