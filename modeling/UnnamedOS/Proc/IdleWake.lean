import UnnamedOS.Proc.Timer

/-!
# Waking from the idle loop

`schedule` idles with no current task while interrupts fill the ready list. The handlers are
followed on the lists themselves: a `Vigil` holds the clock, the two lists of blocked tasks and
the tasks woken so far, in order. What the loop leaves to is the first of them. The task that
idles is made current again before the switch, which stops the kernel if it is ready by then.
-/

namespace UnnamedOS.Proc

open UnnamedOS.Lib

/-- What arrives while the processor idles. -/
inductive Interrupt where
  | timer
  | device (irq : UInt8)
  deriving DecidableEq

def Interrupt.handle (k : Kernel) : Interrupt → Except Halt Kernel
  | timer => k.pitIrqHandler
  | device irq => k.unblockirq irq

/-- The idle loop of `schedule` under the given interrupts. -/
def idleLoop (k : Kernel) : List Interrupt → Except Halt Kernel
  | [] => .ok k
  | i :: ls =>
    match i.handle k with
    | .error e => .error e
    | .ok k => idleLoop k ls

/-- The clock, the blocked tasks and the tasks woken so far. -/
structure Vigil where
  time : UInt64
  sleepers : List Tid
  irqs : List Tid
  woken : List Tid

/-- An interrupt on the lists. `k` holds what the tasks wait for. -/
def Vigil.take (k : Kernel) (v : Vigil) : Interrupt → Vigil
  | .timer =>
    let k := { k with time := v.time + 10000000 }
    { time := k.time
      sleepers := (v.sleepers.filter fun t => !dueSleeper k t).reverse
      irqs := (v.irqs.filter fun t => !dueTimeout k t).reverse
      woken := v.woken ++ timerWakes k v.sleepers v.irqs }
  | .device irq =>
    { v with
      irqs := (v.irqs.filter fun t => !k.waitsFor irq t).reverse
      woken := v.woken ++ v.irqs.filter (k.waitsFor irq) }

/-- The tasks that the interrupts wake, in order. -/
def idleWakes (k : Kernel) (sl il : List Tid) (ls : List Interrupt) : List Tid :=
  (ls.foldl (Vigil.take k) ⟨k.time, sl, il, []⟩).woken

/-- Task `c` has entered the idle loop: nobody is ready, the tasks `sl` sleep and the tasks `il`
wait for an interrupt. -/
structure Idling (k : Kernel) (c : Tid) (sl il : List Tid) : Prop where
  lists : WaitLists k [] none sl il
  current : k.currentTaskTCB = none
  idle : k.idleTask = some c
  blocked : k.state c ≠ .running ∧ k.state c ≠ .ready
  postpone : k.postponeTaskSwitchesCounter = 0
  flag : k.taskSwitchesPostponedFlag = false
  slice : k.timeSliceRemaining = 0

/-- The first ready task runs, and every other task woken since `k₀` is on the ready list. -/
def LeavesCleanly (k₀ k : Kernel) : Prop :=
  ∃ f k', k.firstThread = some f ∧ k.leaveIdle = .ok k' ∧
    k'.currentTaskTCB = some f ∧ k'.state f = .running ∧
    ∀ t, k₀.state t ≠ .ready → k.state t = .ready → t ≠ f →
      k'.state t = .ready ∧ Reach k'.next k'.firstThread t

/-- The errors about a task that is ready too early. -/
def ReadyError (e : Halt) : Prop :=
  ∃ t, e = .error .shouldNotBeReady t ∨ e = .error .shouldNotBeReady2 t ∨
    e = .error .taskBadunblock t

/-- The interrupts `ls` wake the processor as they should. -/
def WakesUp (k : Kernel) (ls : List Interrupt) : Prop :=
  (∀ e, idleLoop k ls = .error e → ¬ ReadyError e) ∧
    ∀ k', idleLoop k ls = .ok k' → k'.firstThread ≠ none → LeavesCleanly k k'

variable {k k' k₀ : Kernel} {c f t : Tid} {sl il r W : List Tid} {q : Option Tid} {v : Vigil}
  {ls : List Interrupt} {irq : UInt8} {reason : TaskState}

/-- A task that blocks while nobody is ready comes to the loop. -/
theorem Idling.of_block (h : WaitLists (k.setState c reason) [] none sl il)
    (hc : k.currentTaskTCB = some c) (hp : k.postponeTaskSwitchesCounter = 0)
    (hf : k.taskSwitchesPostponedFlag = false) (hd : k.deadTasks = none)
    (hs : reason ≠ .running ∧ reason ≠ .ready ∧ reason ≠ .dead) :
    ∃ k', k.blockTask reason = .ok k' ∧ Idling k' c sl il := by
  have hq : QueueSeg k [] none := ⟨h.ready.seg, List.nodup_nil,
    fun t ht => absurd ht List.not_mem_nil, fun hne => absurd rfl hne, fun _ => rfl⟩
  rcases Kernel.blockTask_spec reason hp hd hc hq hs with ⟨-, hk⟩ | ⟨t, r', w, hr, -⟩
  · refine ⟨_, hk, ⟨h.toQueueLists.frame rfl rfl rfl rfl rfl rfl rfl, h.sleeping⟩, rfl, rfl, ?_, hp,
      hf, rfl⟩
    rw [show (k.parkIdle c reason).state c = reason from Function.update_self c _ _]
    exact ⟨hs.1, hs.2.1⟩
  · cases hr

/-- The kernel in the loop next to the lists: the tasks woken are the ready list, whose end may
be stale. -/
structure Keeps (k₀ : Kernel) (c : Tid) (v : Vigil) (k : Kernel) : Prop where
  lists : ∃ q, WaitLists k v.woken q v.sleepers v.irqs
  state : ∀ x, k.state x = if x ∈ v.woken then .ready else k₀.state x
  time : k.time = v.time
  ttn : k.ttn = k₀.ttn
  irqWaitingFor : k.irqWaitingFor = k₀.irqWaitingFor
  current : k.currentTaskTCB = none
  idle : k.idleTask = some c
  postpone : k.postponeTaskSwitchesCounter = 0
  flag : k.taskSwitchesPostponedFlag = false
  slice : k.timeSliceRemaining = 0

theorem Idling.keeps (h : Idling k c sl il) : Keeps k c ⟨k.time, sl, il, []⟩ k :=
  ⟨⟨none, h.lists⟩, fun _ => rfl, rfl, rfl, rfl, h.current, h.idle, h.postpone, h.flag, h.slice⟩

/-- The lists after the loops of a handler. What was kept is still blocked. -/
theorem WaitLists.after {sl' il' : List Tid} (h : WaitLists k r q sl il)
    (hw : WakesDone k r q sl il W sl' il' k') (hsl : ∀ x ∈ sl', x ∈ sl ∧ x ∉ W)
    (hil : ∀ x ∈ il', x ∈ il ∧ x ∉ W) :
    WaitLists k' (r ++ W) (staleTail k r W q) sl' il' := by
  have hal : k'.allocated = k.allocated := by
    rw [hw.rest]
    rfl
  refine ⟨⟨hw.queue, hw.sleepers, hw.irqs, fun x hx => ?_, fun x hx => ?_⟩, fun x hx => ?_⟩
  · rw [hal, hw.state, if_neg (hil x hx).2]
    exact h.waiting x (hil x hx).1
  · obtain ⟨hxs, hxW⟩ := hsl x hx
    rw [List.mem_append, not_or]
    exact ⟨⟨(h.apart x hxs).1, hxW⟩, fun hi => (h.apart x hxs).2 (hil x hi).1⟩
  · rw [hal, hw.state, if_neg (hsl x hx).2]
    exact h.sleeping x (hsl x hx).1

theorem Keeps.state_append (h : Keeps k₀ c v k)
    (hs : ∀ x, k'.state x = if x ∈ W then .ready else k.state x) (x : Tid) :
    k'.state x = if x ∈ v.woken ++ W then .ready else k₀.state x := by
  rw [hs, h.state]
  by_cases hx : x ∈ W <;> simp [hx]

/-- The timer interrupt in the loop. -/
theorem Keeps.timer (h : Keeps k₀ c v k) :
    (∃ k', k.pitIrqHandler = .ok k' ∧ Keeps k₀ c (v.take k₀ .timer) k') ∨
      ∃ t, k.pitIrqHandler = .error (.error .tfnttnnz t) := by
  obtain ⟨q, hl⟩ := h.lists
  have hcur : ∀ d, k.currentTaskTCB = some d →
      k.state d = .running ∧ d ∉ v.sleepers ∧ d ∉ v.irqs := by
    intro d hd
    rw [h.current] at hd
    cases hd
  rcases pitIrqHandler_spec hl h.postpone h.flag (fun hne => absurd h.current hne) hcur
    (fun _ => h.slice) with ⟨k₂, hw, ⟨-, slice, hslice, hk⟩ | ⟨hends, -⟩⟩ | ⟨t, ht⟩
  · refine Or.inl ⟨_, hk, ?_⟩
    obtain ⟨Q, rfl⟩ := hw.rest.exists_queues
    have hdueS : dueSleeper k.enterTimer = dueSleeper { k₀ with time := v.time + 10000000 } := by
      funext x
      simp only [dueSleeper, Kernel.enterTimer, Kernel.lockStuff, h.ttn, h.time]
    have hdueI : dueTimeout k.enterTimer = dueTimeout { k₀ with time := v.time + 10000000 } := by
      funext x
      simp only [dueTimeout, Kernel.enterTimer, Kernel.lockStuff, h.ttn, h.time]
    have hwakes : timerWakes k.enterTimer v.sleepers v.irqs =
        timerWakes { k₀ with time := v.time + 10000000 } v.sleepers v.irqs := by
      rw [timerWakes, hdueS, hdueI, ← timerWakes]
    have hl' : WaitLists k.enterTimer v.woken q v.sleepers v.irqs :=
      ⟨hl.toQueueLists.frame rfl rfl rfl rfl rfl rfl rfl, hl.sleeping⟩
    have hkeptS : ∀ x ∈ (v.sleepers.filter fun t => !dueSleeper k.enterTimer t).reverse,
        x ∈ v.sleepers ∧ x ∉ timerWakes k.enterTimer v.sleepers v.irqs := by
      intro x hx
      obtain ⟨hxs, hxd⟩ := List.mem_filter.mp (List.mem_reverse.mp hx)
      refine ⟨hxs, fun hm => ?_⟩
      rcases List.mem_append.mp hm with hm | hm
      · simp [(List.mem_filter.mp hm).2] at hxd
      · exact (hl.apart x hxs).2 (List.mem_of_mem_filter hm)
    have hkeptI : ∀ x ∈ (v.irqs.filter fun t => !dueTimeout k.enterTimer t).reverse,
        x ∈ v.irqs ∧ x ∉ timerWakes k.enterTimer v.sleepers v.irqs := by
      intro x hx
      obtain ⟨hxi, hxd⟩ := List.mem_filter.mp (List.mem_reverse.mp hx)
      refine ⟨hxi, fun hm => ?_⟩
      rcases List.mem_append.mp hm with hm | hm
      · exact hl.irq_not_sleeper hxi (List.mem_of_mem_filter hm)
      · simp [(List.mem_filter.mp hm).2] at hxd
    have hafter := hl'.after hw hkeptS hkeptI
    have hstate := h.state_append hw.state
    rw [hwakes] at hafter hstate
    rw [hdueS, hdueI] at hafter
    refine ⟨⟨_, hafter.toQueueLists.frame rfl rfl rfl rfl rfl rfl rfl, hafter.sleeping⟩, hstate,
      ?_, h.ttn, h.irqWaitingFor, h.current, h.idle, rfl, h.flag, hslice h.current⟩
    exact congrArg (· + 10000000) h.time
  · exact absurd h.slice hends.1
  · exact Or.inr ⟨t, ht⟩

/-- A device interrupt in the loop. -/
theorem Keeps.device (h : Keeps k₀ c v k) (irq : UInt8) :
    ∃ k', k.unblockirq irq = .ok k' ∧ Keeps k₀ c (v.take k₀ (.device irq)) k' := by
  obtain ⟨q, hl⟩ := h.lists
  obtain ⟨k₂, irqs, hk, -, hw⟩ := unblockirq_spec irq hl.toQueueLists h.postpone h.flag
  obtain ⟨Q, rfl⟩ := hw.rest.exists_queues
  refine ⟨_, hk, ?_⟩
  have hdue : k.waitsFor irq = k₀.waitsFor irq := by
    funext x
    simp only [Kernel.waitsFor, h.irqWaitingFor]
  have hl' : WaitLists k.lockStuff v.woken q v.sleepers v.irqs :=
    ⟨hl.toQueueLists.frame rfl rfl rfl rfl rfl rfl rfl, hl.sleeping⟩
  have hkeptI : ∀ x ∈ (v.irqs.filter fun t => !k.waitsFor irq t).reverse,
      x ∈ v.irqs ∧ x ∉ v.irqs.filter (k.waitsFor irq) := by
    intro x hx
    obtain ⟨hxi, hxd⟩ := List.mem_filter.mp (List.mem_reverse.mp hx)
    refine ⟨hxi, fun hm => ?_⟩
    simp [(List.mem_filter.mp hm).2] at hxd
  have hafter := hl'.after hw
    (fun x hx => ⟨hx, fun hm => (hl.apart x hx).2 (List.mem_of_mem_filter hm)⟩) hkeptI
  have hstate := h.state_append hw.state
  rw [hdue] at hafter hstate
  exact ⟨⟨_, hafter.toQueueLists.frame rfl rfl rfl rfl rfl rfl rfl, hafter.sleeping⟩, hstate,
    h.time, h.ttn, h.irqWaitingFor, h.current, h.idle, rfl, h.flag, h.slice⟩

theorem Keeps.handle (h : Keeps k₀ c v k) (i : Interrupt) :
    (∃ k', i.handle k = .ok k' ∧ Keeps k₀ c (v.take k₀ i) k') ∨
      ∃ t, i.handle k = .error (.error .tfnttnnz t) := by
  cases i with
  | timer => exact h.timer
  | device irq => exact Or.inl (h.device irq)

/-- Whatever the interrupts are, the ready list is the list of the tasks they have woken. -/
theorem Keeps.loop (h : Keeps k₀ c v k) (ls : List Interrupt) :
    (∃ k', idleLoop k ls = .ok k' ∧ Keeps k₀ c (ls.foldl (Vigil.take k₀) v) k') ∨
      ∃ t, idleLoop k ls = .error (.error .tfnttnnz t) := by
  induction ls generalizing k v with
  | nil => exact Or.inl ⟨k, rfl, h⟩
  | cons i ls ih =>
      rcases h.handle i with ⟨k', hk', h'⟩ | ⟨t, ht⟩
      · rw [idleLoop, hk']
        exact ih h'
      · refine Or.inr ⟨t, ?_⟩
        rw [idleLoop, ht]

theorem seg_reach {next : Tid → Option Tid} {p : Option Tid} (h : Seg next p r q) (ht : t ∈ r) :
    Reach next p t := by
  induction r generalizing p with
  | nil => exact absurd ht List.not_mem_nil
  | cons a r ih =>
      obtain ⟨hp, hr⟩ := seg_cons.mp h
      rcases List.mem_cons.mp ht with rfl | ht
      · exact Reach.first hp
      · exact reach_of_next hp (ih hr ht)

/-- The loop hands the processor over unless the task that idles is ready and not the first. -/
theorem leaveIdle_exists_iff (hp : k.postponeTaskSwitchesCounter = 0) (hi : k.idleTask = some c)
    (hs : k.state c ≠ .running) (hf : k.firstThread = some f) :
    (∃ k', k.leaveIdle = .ok k') ↔ (k.state c = .ready → f = c) := by
  let k₁ : Kernel := { k with
    currentTaskTCB := some c, idleTask := none, firstThread := k.next f }
  by_cases hfc : f = c
  · refine iff_of_true ?_ fun _ => hfc
    simp [Kernel.leaveIdle, hi, hf, hfc]
  · have hk : k.leaveIdle = match k₁.switchToTaskWrapper f with
        | .error e => .error e
        | .ok k => .ok k.resume := by
      rw [Kernel.leaveIdle, hi, hf]
      simp only [ne_eq, hfc, not_false_eq_true, if_true]
      rfl
    rw [hk]
    by_cases hr : k.state c = .ready
    · refine iff_of_false ?_ fun h => hfc (h hr)
      intro hex
      obtain ⟨k', hk'⟩ := hex
      have hp' : ¬ k₁.postponeTaskSwitchesCounter ≠ 0 := fun hne => hne hp
      have he : k₁.switchToTaskWrapper f = .error (.error .shouldNotBeReady2 c) := by
        rw [Kernel.switchToTaskWrapper, if_neg hp']
        exact if_pos hr
      rw [he] at hk'
      cases hk'
    · refine iff_of_true ?_ fun h => absurd h hr
      obtain ⟨k₂, hk₂⟩ := Kernel.switchToTaskWrapper_exists (k := k₁) (c := c) (t := f) hp rfl hr
        (fun hrun => absurd hrun hs)
      rw [hk₂]
      exact ⟨_, rfl⟩

namespace Keeps

theorem ready_iff (h : Keeps k₀ c v k) (hs : k₀.state t ≠ .ready) :
    k.state t = .ready ↔ t ∈ v.woken := by
  rw [h.state]
  by_cases ht : t ∈ v.woken <;> simp [ht, hs]

theorem not_running (h : Keeps k₀ c v k) (hs : k₀.state c ≠ .running) : k.state c ≠ .running := by
  rw [h.state]
  split
  · decide
  · exact hs

theorem first_eq (h : Keeps k₀ c v k) : k.firstThread = v.woken.head? := by
  obtain ⟨q, hl⟩ := h.lists
  have hq := hl.ready
  cases hr : v.woken with
  | nil => exact hq.first_none.mpr hr
  | cons t r =>
      rw [hr] at hq
      exact (seg_cons.mp hq.seg).1

/-- What the loop leaves behind, once it hands the processor over. -/
theorem leaves (h : Keeps k₀ c v k) (hs : k₀.state c ≠ .running) (hk : k.leaveIdle = .ok k') :
    LeavesCleanly k₀ k := by
  obtain ⟨q, hl⟩ := h.lists
  obtain ⟨f, r', w, hr, rfl⟩ :=
    Kernel.leaveIdle_spec h.postpone h.idle hl.ready (h.not_running hs) hk
  have hq := hl.ready
  rw [hr] at hq
  obtain ⟨hf, hseg⟩ := seg_cons.mp hq.seg
  refine ⟨f, _, hf, hk, rfl, Function.update_self f _ _, fun t ht₀ ht htf => ?_⟩
  have htr : t ∈ r' := by
    have hw : t ∈ v.woken := (h.ready_iff ht₀).mp ht
    rw [hr] at hw
    exact (List.mem_cons.mp hw).resolve_left htf
  exact ⟨(Function.update_of_ne htf _ _).trans ht, seg_reach hseg htr⟩

/-- The loop ends well exactly if the task that idles is not woken behind another. -/
theorem leaves_iff (h : Keeps k₀ c v k) (hs : k₀.state c ≠ .running ∧ k₀.state c ≠ .ready)
    (hne : k.firstThread ≠ none) : LeavesCleanly k₀ k ↔ (c ∈ v.woken → v.woken.head? = some c) := by
  obtain ⟨f, hf⟩ := Option.ne_none_iff_exists'.mp hne
  have hex := leaveIdle_exists_iff h.postpone h.idle (h.not_running hs.1) hf
  rw [h.ready_iff hs.2] at hex
  rw [← h.first_eq, hf, Option.some.injEq, ← hex]
  constructor
  · intro hl
    obtain ⟨f', k', -, hk', -⟩ := hl
    exact ⟨k', hk'⟩
  · intro hl
    obtain ⟨k', hk'⟩ := hl
    exact h.leaves hs.1 hk'

end Keeps

/-- Whenever the loop ends, the first task woken runs and the others stay on the ready list,
unless the task that idles was woken behind another. -/
theorem wakesUp_iff (h : Idling k c sl il) (ls : List Interrupt) :
    WakesUp k ls ↔ ∀ k', idleLoop k ls = .ok k' → c ∈ idleWakes k sl il ls →
      (idleWakes k sl il ls).head? = some c := by
  rcases h.keeps.loop ls with ⟨k', hk', hkeeps⟩ | ⟨t, ht⟩
  · have hiff := hkeeps.leaves_iff h.blocked
    rw [← idleWakes] at hiff
    constructor
    · intro hw k₁ hk₁ hc
      have hne : k'.firstThread ≠ none := by
        rw [hkeeps.first_eq, ← idleWakes]
        intro hn
        rw [List.head?_eq_none_iff.mp hn] at hc
        exact absurd hc List.not_mem_nil
      exact (hiff hne).mp (hw.2 k' hk' hne) hc
    · intro hc
      refine ⟨fun e he => ?_, fun k₁ hk₁ hne => ?_⟩
      · rw [hk'] at he
        cases he
      · obtain rfl : k' = k₁ := Except.ok.inj (hk'.symm.trans hk₁)
        exact (hiff hne).mpr (hc k' hk')
  · have hok : ∀ k', idleLoop k ls ≠ .ok k' := by
      intro k' hk'
      rw [ht] at hk'
      cases hk'
    refine iff_of_true ⟨fun e he hr => ?_, fun k' hk' => absurd hk' (hok k')⟩
      fun k' hk' => absurd hk' (hok k')
    obtain rfl := Except.error.inj (ht.symm.trans he)
    obtain ⟨t', hr | hr | hr⟩ := hr <;> cases hr

/-- The boot task 1 makes task 2 and sleeps until `t`, and task 2 is about to do so. -/
def oneAsleep (t : UInt64) : Except Halt Kernel := do
  let k ← (Kernel.initializeMultitasking Kernel.zeroed 1 0x1000).ckprocA 2 0x2000 0x3000
  let k ← (k.nanoSleepUpdate 1 t).2.blockTask .waiting
  pure (k.nanoSleepUpdate 2 t).2

def bothAsleep (t : UInt64) : Except Halt Kernel := do
  let k ← oneAsleep t
  k.blockTask .waiting

theorem oneAsleep_lists (ht : t = 10000000 ∨ t = 20000000) :
    ∃ k, oneAsleep (.ofNat t) = .ok k ∧ WaitLists (k.setState 2 .waiting) [] none [2, 1] [] ∧
      k.currentTaskTCB = some 2 ∧ k.postponeTaskSwitchesCounter = 0 ∧
      k.taskSwitchesPostponedFlag = false ∧ k.deadTasks = none := by
  have hnil : ∀ {p : Tid → Prop} (x : Tid), x ∈ [] → p x := fun x hx => absurd hx List.not_mem_nil
  rcases ht with rfl | rfl <;>
    exact ⟨_, rfl, ⟨⟨⟨rfl, List.nodup_nil, hnil, fun hne => absurd rfl hne, fun _ => rfl⟩,
      ⟨rfl, rfl, rfl⟩, rfl, hnil, fun _ _ => ⟨List.not_mem_nil, List.not_mem_nil⟩⟩, by decide⟩,
      rfl, rfl, rfl, rfl⟩

theorem bothAsleep_idling (ht : t = 10000000 ∨ t = 20000000) :
    ∃ k, bothAsleep (.ofNat t) = .ok k ∧ Idling k 2 [2, 1] [] := by
  obtain ⟨k, hk, hlists, hc, hp, hf, hd⟩ := oneAsleep_lists ht
  have hlast : bothAsleep (.ofNat t) = k.blockTask .waiting := by
    rw [bothAsleep, hk]
    rfl
  rw [hlast]
  exact Idling.of_block hlists hc hp hf hd (by decide)

/-- Both are due at the first tick, which wakes the task that idles before the boot task. -/
theorem idler_woken_first : ∃ k k', bothAsleep 10000000 = .ok k ∧ Idling k 2 [2, 1] [] ∧
    idleLoop k [.timer] = .ok k' ∧ k'.firstThread = some 2 ∧ WakesUp k [.timer] := by
  obtain ⟨k, hk, h⟩ := bothAsleep_idling (Or.inl rfl)
  have hrun : ∃ k', idleLoop k [.timer] = .ok k' ∧ k'.firstThread = some 2 ∧
      idleWakes k [2, 1] [] [.timer] = [2, 1] := by
    cases hk
    exact ⟨_, rfl, rfl, by decide⟩
  obtain ⟨k', hk', hf, hw⟩ := hrun
  refine ⟨k, k', hk, h, hk', hf, (wakesUp_iff h [.timer]).mpr fun _ _ _ => ?_⟩
  rw [hw]
  rfl

/-- The first tick turns the list of sleepers round, and the second wakes the boot task before
the one that idles. -/
theorem idler_woken_second : ∃ k k', bothAsleep 20000000 = .ok k ∧ Idling k 2 [2, 1] [] ∧
    idleLoop k [.timer, .timer] = .ok k' ∧
    k'.leaveIdle = .error (.error .shouldNotBeReady2 2) ∧ ¬ WakesUp k [.timer, .timer] := by
  obtain ⟨k, hk, h⟩ := bothAsleep_idling (Or.inr rfl)
  have hrun : ∃ k', idleLoop k [.timer, .timer] = .ok k' ∧ k'.firstThread ≠ none ∧
      k'.leaveIdle = .error (.error .shouldNotBeReady2 2) := by
    cases hk
    exact ⟨_, rfl, by decide, rfl⟩
  obtain ⟨k', hk', hne, hleave⟩ := hrun
  refine ⟨k, k', hk, h, hk', hleave, fun hw => ?_⟩
  obtain ⟨f, k₂, -, hk₂, -⟩ := hw.2 k' hk' hne
  rw [hleave] at hk₂
  cases hk₂

end UnnamedOS.Proc
