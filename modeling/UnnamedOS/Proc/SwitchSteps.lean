import UnnamedOS.Proc.IdleWake
import UnnamedOS.Proc.LockBalance

/-!
# The calls around a switch

What one call of a task, or one part of a handler, does to `postpone_task_switches_counter`, to
`task_switches_postponed_flag` and to the current task. `FAULT` is called in `unlock_stuff` alone.
-/

namespace UnnamedOS.Proc

open UnnamedOS.Lib

/-- The part of `unblockirq` between the locks. -/
def Kernel.wakeIrq (k : Kernel) (irq : UInt8) : Except Halt Kernel :=
  match walk (fun s => s.1.next) (Kernel.visitIrq irq) .diverges k.loopBound k.irqwaiting
      ({ k with irqwaiting := none }, false) with
  | .error e => .error e
  | .ok (k, haveweunblocked) =>
    .ok (if haveweunblocked then k else
      { k with irqscalled := k.irqscalled ||| Kernel.irqBit irq })

/-- What a task calls, and the parts of the handlers. -/
inductive SwitchStep where
  | lockStuff | unlockStuff | lockScheduler | unlockScheduler
  | schedule
  | switchToTaskWrapper (t : Tid)
  | blockTask (reason : TaskState)
  | unblockTask (t : Tid)
  | advanceTime
  | wakeSleepers
  | wakeTimeouts
  | tickSlice
  | wakeIrq (irq : UInt8)
  deriving DecidableEq

namespace SwitchStep

/-- The caller of a bare `schedule` or `switch_to_task_wrapper` goes on when it runs again. -/
def thenResume (x : Except Halt Kernel) : Except Halt Kernel :=
  match x with
  | .error e => .error e
  | .ok k => .ok k.resume

def exec (k : Kernel) : SwitchStep → Except Halt Kernel
  | lockStuff => .ok k.lockStuff
  | unlockStuff => k.unlockStuff
  | lockScheduler => .ok k.lockScheduler
  | unlockScheduler => .ok k.unlockScheduler
  | schedule => thenResume k.schedule
  | switchToTaskWrapper t => thenResume (k.switchToTaskWrapper t)
  | blockTask reason => k.blockTask reason
  | unblockTask t => k.unblockTask t
  | advanceTime => .ok { k with time := k.time + 10000000 }
  | wakeSleepers => k.wakeSleepers
  | wakeTimeouts => k.wakeTimeouts
  | tickSlice => k.tickSlice
  | wakeIrq irq => k.wakeIrq irq

/-- The calls that a task makes itself. -/
def ofTask : SwitchStep → Bool
  | lockStuff | unlockStuff | lockScheduler | unlockScheduler | schedule | switchToTaskWrapper _
  | blockTask _ | unblockTask _ => true
  | advanceTime | wakeSleepers | wakeTimeouts | tickSlice | wakeIrq _ => false

/-- The steps that handlers are made of. -/
def ofHandler : SwitchStep → Bool
  | lockStuff | unlockStuff | advanceTime | wakeSleepers | wakeTimeouts | tickSlice
  | wakeIrq _ => true
  | lockScheduler | unlockScheduler | schedule | switchToTaskWrapper _ | blockTask _
  | unblockTask _ => false

/-- Calls of `lock_stuff` made, less those matched. -/
def nesting : SwitchStep → Int
  | lockStuff => 1
  | unlockStuff => -1
  | lockScheduler | unlockScheduler | schedule | switchToTaskWrapper _ | blockTask _ | unblockTask _
  | advanceTime | wakeSleepers | wakeTimeouts | tickSlice | wakeIrq _ => 0

/-- A switch is requested while switches are postponed. -/
def Requests (k : Kernel) : SwitchStep → Prop
  | schedule | switchToTaskWrapper _ | blockTask _ => k.postponeTaskSwitchesCounter ≠ 0
  | tickSlice => k.postponeTaskSwitchesCounter ≠ 0 ∧ k.timeSliceRemaining ≠ 0 ∧
      k.timeSliceRemaining ≤ 10000000
  | lockStuff | unlockStuff | lockScheduler | unlockScheduler | unblockTask _ | advanceTime
  | wakeSleepers | wakeTimeouts | wakeIrq _ => False

/-- `unlock_stuff` calls `schedule`. -/
def Answers (k : Kernel) (m : SwitchStep) : Prop :=
  m = unlockStuff ∧ k.postponeTaskSwitchesCounter = 1 ∧ k.taskSwitchesPostponedFlag = true

instance (k : Kernel) : ∀ m : SwitchStep, Decidable (m.Requests k)
  | schedule | switchToTaskWrapper _ | blockTask _ =>
    inferInstanceAs (Decidable (k.postponeTaskSwitchesCounter ≠ 0))
  | tickSlice => inferInstanceAs (Decidable (_ ∧ _ ∧ _))
  | lockStuff | unlockStuff | lockScheduler | unlockScheduler | unblockTask _ | advanceTime
  | wakeSleepers | wakeTimeouts | wakeIrq _ => inferInstanceAs (Decidable False)

instance (k : Kernel) (m : SwitchStep) : Decidable (m.Answers k) :=
  inferInstanceAs (Decidable (_ ∧ _ ∧ _))

/-- One step after the other. -/
def execAll : List SwitchStep → Kernel → Except Halt Kernel
  | [], k => .ok k
  | m :: ms, k =>
    match m.exec k with
    | .error e => .error e
    | .ok k => execAll ms k

end SwitchStep

/-- `PIT_IRQ_handler` and `unblockirq`. -/
def Interrupt.steps : Interrupt → List SwitchStep
  | timer => [.lockStuff, .advanceTime, .wakeSleepers, .wakeTimeouts, .tickSlice, .unlockStuff]
  | device irq => [.lockStuff, .wakeIrq irq, .unlockStuff]

theorem execAll_ok {k k' : Kernel} {m : SwitchStep} (ms : List SwitchStep) (h : m.exec k = .ok k') :
    SwitchStep.execAll (m :: ms) k = SwitchStep.execAll ms k' := by
  rw [SwitchStep.execAll, h]

theorem execAll_error {k : Kernel} {m : SwitchStep} {e : Halt} (ms : List SwitchStep)
    (h : m.exec k = .error e) : SwitchStep.execAll (m :: ms) k = .error e := by
  rw [SwitchStep.execAll, h]

theorem execAll_last (k : Kernel) (m : SwitchStep) : SwitchStep.execAll [m] k = m.exec k := by
  cases h : m.exec k with
  | error e => exact execAll_error [] h
  | ok k' => exact execAll_ok [] h

/-- The steps of a handler are the handler. -/
theorem Interrupt.execAll_steps (k : Kernel) (i : Interrupt) :
    SwitchStep.execAll i.steps k = i.handle k := by
  cases i with
  | timer =>
      rw [handle, Kernel.pitIrqHandler, steps, execAll_ok (m := .lockStuff) _ rfl,
        execAll_ok (m := .advanceTime) _ rfl]
      cases hs : Kernel.wakeSleepers { k.lockStuff with time := k.lockStuff.time + 10000000 } with
      | error e => rw [execAll_error (m := .wakeSleepers) _ hs]
      | ok k₁ =>
          rw [execAll_ok (m := .wakeSleepers) _ hs]
          dsimp only
          cases ht : k₁.wakeTimeouts with
          | error e => rw [execAll_error (m := .wakeTimeouts) _ ht]
          | ok k₂ =>
              rw [execAll_ok (m := .wakeTimeouts) _ ht]
              dsimp only
              cases hk : k₂.tickSlice with
              | error e => rw [execAll_error (m := .tickSlice) _ hk]
              | ok k₃ =>
                  rw [execAll_ok (m := .tickSlice) _ hk, execAll_last]
                  rfl
  | device irq =>
      rw [handle, Kernel.unblockirq, steps, execAll_ok (m := .lockStuff) _ rfl]
      cases hw : walk (fun s => s.1.next) (Kernel.visitIrq irq) .diverges k.lockStuff.loopBound
          k.lockStuff.irqwaiting ({ k.lockStuff with irqwaiting := none }, false) with
      | error e =>
          have hstep : SwitchStep.exec k.lockStuff (.wakeIrq irq) = .error e := by
            rw [SwitchStep.exec, Kernel.wakeIrq, hw]
          rw [execAll_error _ hstep]
      | ok r =>
          have hstep : SwitchStep.exec k.lockStuff (.wakeIrq irq) = .ok (if r.2 then r.1 else
              { r.1 with irqscalled := r.1.irqscalled ||| Kernel.irqBit irq }) := by
            rw [SwitchStep.exec, Kernel.wakeIrq, hw]
          rw [execAll_ok _ hstep, execAll_last]
          rfl

/-- The scheduler has left these fields alone. -/
structure SameSwitching (k k' : Kernel) : Prop where
  current : k'.currentTaskTCB = k.currentTaskTCB
  idle : k'.idleTask = k.idleTask
  counter : k'.postponeTaskSwitchesCounter = k.postponeTaskSwitchesCounter
  flag : k'.taskSwitchesPostponedFlag = k.taskSwitchesPostponedFlag
  slice : k'.timeSliceRemaining = k.timeSliceRemaining

instance (k k' : Kernel) : Decidable (SameSwitching k k') :=
  decidable_of_iff (k'.currentTaskTCB = k.currentTaskTCB ∧ k'.idleTask = k.idleTask ∧
    k'.postponeTaskSwitchesCounter = k.postponeTaskSwitchesCounter ∧
    k'.taskSwitchesPostponedFlag = k.taskSwitchesPostponedFlag ∧
    k'.timeSliceRemaining = k.timeSliceRemaining)
    ⟨fun ⟨h1, h2, h3, h4, h5⟩ => ⟨h1, h2, h3, h4, h5⟩,
      fun ⟨h1, h2, h3, h4, h5⟩ => ⟨h1, h2, h3, h4, h5⟩⟩

variable {k k' k₁ k₂ : Kernel} {c t : Tid} {m : SwitchStep}

/-! ## What leaves the scheduler's fields alone -/

namespace SameSwitching

theorem refl (k : Kernel) : SameSwitching k k := ⟨rfl, rfl, rfl, rfl, rfl⟩

theorem trans (h : SameSwitching k k₁) (h' : SameSwitching k₁ k') : SameSwitching k k' :=
  ⟨h'.current.trans h.current, h'.idle.trans h.idle, h'.counter.trans h.counter,
    h'.flag.trans h.flag, h'.slice.trans h.slice⟩

theorem context (h : SameSwitching k k') : k'.context = k.context := by
  rw [Kernel.context, Kernel.context, h.current, h.idle]

theorem of_listsOnly (h : ListsOnly k k') : SameSwitching k k' := by
  obtain ⟨L, rfl⟩ := h.exists_lists
  exact ⟨rfl, rfl, rfl, rfl, rfl⟩

theorem of_sameRest (h : SameRest k k') : SameSwitching k k' := by
  obtain ⟨Q, rfl⟩ := h.exists_queues
  exact ⟨rfl, rfl, rfl, rfl, rfl⟩

theorem resume (k : Kernel) : SameSwitching k k.resume := by
  obtain ⟨n, un, h⟩ := Kernel.resume_eq k
  rw [h]
  exact ⟨rfl, rfl, rfl, rfl, rfl⟩

theorem pushUnlock (k : Kernel) : SameSwitching k k.pushUnlock := by
  unfold Kernel.pushUnlock
  split
  · exact refl k
  · exact ⟨rfl, rfl, rfl, rfl, rfl⟩

theorem unblockTask (h : k.unblockTask t = .ok k') : SameSwitching k k' :=
  of_listsOnly (unblockTask_listsOnly h)

theorem visitSleeper (h : k.visitSleeper t = .ok k') : SameSwitching k k' := by
  unfold Kernel.visitSleeper at h
  split at h
  · cases h
  · split at h
    · cases h
    · split at h
      · exact unblockTask h
      · rw [← Except.ok.inj h]
        exact of_sameRest (SameRest.pushWait k t .sleeping)

theorem visitTimeout (h : k.visitTimeout t = .ok k') : SameSwitching k k' := by
  unfold Kernel.visitTimeout at h
  split at h
  · split at h
    · cases h
    · have hwake := unblockTask h
      exact ⟨hwake.current, hwake.idle, hwake.counter, hwake.flag, hwake.slice⟩
  · rw [← Except.ok.inj h]
    exact of_sameRest (SameRest.pushWait k t .irq)

theorem visitIrq {irq : UInt8} {r r' : Kernel × Bool} (h : Kernel.visitIrq irq r t = .ok r') :
    SameSwitching r.1 r'.1 := by
  unfold Kernel.visitIrq at h
  split at h
  · split at h
    · cases h
    · rename_i k₁ hk₁
      rw [← Except.ok.inj h]
      exact unblockTask hk₁
  · rw [← Except.ok.inj h]
    exact of_sameRest (SameRest.pushWait r.1 t .irq)

theorem wakeSleepers (h : k.wakeSleepers = .ok k') : SameSwitching k k' := by
  have hs : SameSwitching k { k with sleepingTaskList := none } := ⟨rfl, rfl, rfl, rfl, rfl⟩
  exact walk_keeps (P := SameSwitching k) (fun _ _ _ hs hv => hs.trans (visitSleeper hv)) hs h

theorem wakeTimeouts (h : k.wakeTimeouts = .ok k') : SameSwitching k k' := by
  have hs : SameSwitching k { k with irqwaiting := none } := ⟨rfl, rfl, rfl, rfl, rfl⟩
  exact walk_keeps (P := SameSwitching k) (fun _ _ _ hs hv => hs.trans (visitTimeout hv)) hs h

theorem wakeIrq {irq : UInt8} (h : k.wakeIrq irq = .ok k') : SameSwitching k k' := by
  unfold Kernel.wakeIrq at h
  split at h
  · cases h
  · rename_i k₁ woken hw
    have hk₁ : SameSwitching k k₁ :=
      walk_keeps (P := fun r : Kernel × Bool => SameSwitching k r.1)
        (fun _ _ _ hs hv => hs.trans (visitIrq hv)) ⟨rfl, rfl, rfl, rfl, rfl⟩ hw
    rw [← Except.ok.inj h]
    split
    · exact hk₁
    · exact ⟨hk₁.current, hk₁.idle, hk₁.counter, hk₁.flag, hk₁.slice⟩

end SameSwitching

/-! ## What a step does -/

/-- Switches are postponed if there is a flag, and nobody has asked for one in the idle loop. -/
structure SwitchInv (k : Kernel) : Prop where
  context : k.context ≠ none
  counter : 0 ≤ k.postponeTaskSwitchesCounter
  flag : k.taskSwitchesPostponedFlag = true → 0 < k.postponeTaskSwitchesCounter
  idle : k.currentTaskTCB = none → k.taskSwitchesPostponedFlag = false ∧ k.timeSliceRemaining = 0

theorem SameSwitching.switchInv (h : SameSwitching k k') (hk : SwitchInv k) : SwitchInv k' where
  context := by
    rw [h.context]
    exact hk.context
  counter := by
    rw [h.counter]
    exact hk.counter
  flag := by
    rw [h.flag, h.counter]
    exact hk.flag
  idle := by
    rw [h.current, h.flag, h.slice]
    exact hk.idle

/-- A call that switches, or only sets the flag. -/
structure Rescheduled (k k' : Kernel) : Prop where
  inv : SwitchInv k'
  counter : k'.postponeTaskSwitchesCounter = k.postponeTaskSwitchesCounter
  postponed : k.postponeTaskSwitchesCounter ≠ 0 → k'.context = k.context ∧
    k'.currentTaskTCB = k.currentTaskTCB ∧ k'.taskSwitchesPostponedFlag = true

theorem Rescheduled.of_same (h : SameSwitching k k₁) (hp : Rescheduled k₁ k₂)
    (h' : SameSwitching k₂ k') : Rescheduled k k' := by
  refine ⟨h'.switchInv hp.inv, h'.counter.trans (hp.counter.trans h.counter), fun hne => ?_⟩
  obtain ⟨hctx, hcur, hflag⟩ := hp.postponed (by rw [h.counter]; exact hne)
  exact ⟨h'.context.trans (hctx.trans h.context), h'.current.trans (hcur.trans h.current),
    h'.flag.trans hflag⟩

/-- The flag is set by a task. -/
theorem Rescheduled.flagged (h : SwitchInv k) (hp : k.postponeTaskSwitchesCounter ≠ 0)
    (hc : k.currentTaskTCB ≠ none) :
    Rescheduled k { k with taskSwitchesPostponedFlag := true } := by
  have hpos : 0 < k.postponeTaskSwitchesCounter := by
    have := h.counter
    omega
  exact ⟨⟨h.context, h.counter, fun _ => hpos, fun hnone => absurd hnone hc⟩, rfl,
    fun _ => ⟨rfl, rfl, rfl⟩⟩

theorem Rescheduled.of_zero (h : SwitchInv k') (hp : k.postponeTaskSwitchesCounter = 0)
    (hcount : k'.postponeTaskSwitchesCounter = k.postponeTaskSwitchesCounter) : Rescheduled k k' :=
  ⟨h, hcount, fun hne => absurd hp hne⟩

theorem SwitchInv.unflagged (h : SwitchInv k) (hp : k.postponeTaskSwitchesCounter = 0) :
    k.taskSwitchesPostponedFlag = false := by
  cases hflag : k.taskSwitchesPostponedFlag with
  | false => rfl
  | true =>
      have hpos := h.flag hflag
      omega

theorem wrapper_rescheduled (h : SwitchInv k) (hc : k.currentTaskTCB = some c)
    (hex : k.switchToTaskWrapper t = .ok k') : Rescheduled k k' := by
  by_cases hp : k.postponeTaskSwitchesCounter = 0
  · have hflag := h.unflagged hp
    obtain ⟨-, slot, word, ⟨-, rfl⟩ | ⟨-, l, -, rfl⟩⟩ := Kernel.switchToTaskWrapper_ok hp hc hex
    · exact .of_zero ⟨by simp [Kernel.context, Kernel.withFrame, Kernel.handOver], h.counter,
        h.flag, fun hnone => by cases hnone⟩ hp rfl
    · exact .of_zero ⟨by simp [Kernel.context, Kernel.withFrame, Kernel.preempt], h.counter,
        h.flag, fun hnone => by cases hnone⟩ hp rfl
  · rw [Kernel.switchToTaskWrapper_postponed hp] at hex
    rw [← Except.ok.inj hex]
    exact .flagged h hp (by rw [hc]; exact Option.some_ne_none c)

theorem schedule_rescheduled (h : SwitchInv k) (hc : k.currentTaskTCB = some c)
    (hex : k.schedule = .ok k') : Rescheduled k k' := by
  by_cases hp : k.postponeTaskSwitchesCounter = 0
  · obtain ⟨k₁, hlists, ⟨t, -, hsw⟩ | ⟨-, rfl | rfl⟩⟩ := schedule_cases hp hc hex
    · have hs := SameSwitching.of_listsOnly hlists
      have hto := wrapper_rescheduled (hs.switchInv h) (hs.current.trans hc) hsw
      exact Rescheduled.of_same hs hto (.refl k')
    · have hs := SameSwitching.of_listsOnly hlists
      exact .of_zero (hs.switchInv h) hp hs.counter
    · have hs := SameSwitching.of_listsOnly hlists
      have hk₁ := hs.switchInv h
      have hflag := hk₁.unflagged (hs.counter.trans hp)
      refine .of_zero ⟨?_, hk₁.counter, hk₁.flag, fun _ => ⟨hflag, rfl⟩⟩ hp hs.counter
      simp [Kernel.context, Kernel.goIdle]
  · rw [Kernel.schedule_postponed hp] at hex
    rw [← Except.ok.inj hex]
    exact .flagged h hp (by rw [hc]; exact Option.some_ne_none c)

theorem scheduleThenUnlock_rescheduled (h : SwitchInv k) (hc : k.currentTaskTCB = some c)
    (hex : k.scheduleThenUnlock = .ok k') : Rescheduled k k' := by
  have hpush := SameSwitching.pushUnlock k
  rw [Kernel.scheduleThenUnlock] at hex
  split at hex
  · cases hex
  · rename_i k₁ hk₁
    rw [← Except.ok.inj hex]
    exact .of_same hpush (schedule_rescheduled (hpush.switchInv h) (hpush.current.trans hc) hk₁)
      (.resume k₁)

theorem thenResume_ok {x : Except Halt Kernel} (h : SwitchStep.thenResume x = .ok k') :
    ∃ k₁, x = .ok k₁ ∧ k' = k₁.resume := by
  cases x with
  | error e => cases h
  | ok k₁ => exact ⟨k₁, rfl, (Except.ok.inj h).symm⟩

theorem blockTask_rescheduled {reason : TaskState} (h : SwitchInv k)
    (hex : k.blockTask reason = .ok k') : Rescheduled k k' := by
  unfold Kernel.blockTask at hex
  split at hex
  · cases hex
  · rename_i c hc
    have hs : SameSwitching k (k.lockScheduler.setState c reason) := ⟨rfl, rfl, rfl, rfl, rfl⟩
    exact .of_same hs (scheduleThenUnlock_rescheduled (hs.switchInv h) (hs.current.trans hc) hex)
      (.refl k')

/-- What a step does to the counter, and what else it does only once the counter is 0. -/
structure Stepped (k k' : Kernel) (m : SwitchStep) : Prop where
  inv : SwitchInv k'
  counter : k'.postponeTaskSwitchesCounter = k.postponeTaskSwitchesCounter + m.nesting
  context : k'.postponeTaskSwitchesCounter ≠ 0 → k'.context = k.context
  current : k'.postponeTaskSwitchesCounter ≠ 0 → k'.currentTaskTCB = k.currentTaskTCB
  requested : m.Requests k → k'.taskSwitchesPostponedFlag = true
  unanswered : ¬ m.Answers k → k.taskSwitchesPostponedFlag = true →
    k'.taskSwitchesPostponedFlag = true

theorem SameSwitching.stepped (h : SameSwitching k k') (hk : SwitchInv k) (hn : m.nesting = 0)
    (hr : ¬ m.Requests k) : Stepped k k' m where
  inv := h.switchInv hk
  counter := by rw [hn, h.counter, Int.add_zero]
  context := fun _ => h.context
  current := fun _ => h.current
  requested := fun hreq => absurd hreq hr
  unanswered := fun _ hflag => h.flag.trans hflag

theorem Rescheduled.stepped (h : Rescheduled k k') (hk : SwitchInv k) (hn : m.nesting = 0)
    (hr : m.Requests k → k.postponeTaskSwitchesCounter ≠ 0) : Stepped k k' m := by
  refine ⟨h.inv, by rw [hn, h.counter, Int.add_zero], fun hne => ?_, fun hne => ?_, fun hreq => ?_,
    fun _ hflag => ?_⟩
  · exact (h.postponed (by rwa [h.counter] at hne)).1
  · exact (h.postponed (by rwa [h.counter] at hne)).2.1
  · exact (h.postponed (hr hreq)).2.2
  · have hpos := hk.flag hflag
    exact (h.postponed (by omega)).2.2

theorem lockStuff_stepped (hk : SwitchInv k) : Stepped k k.lockStuff .lockStuff := by
  have hpos := hk.counter
  refine ⟨⟨hk.context, ?_, fun _ => ?_, hk.idle⟩, rfl, fun _ => rfl, fun _ => rfl,
    fun hr => hr.elim, fun _ hflag => hflag⟩
  · change 0 ≤ k.postponeTaskSwitchesCounter + 1
    omega
  · change 0 < k.postponeTaskSwitchesCounter + 1
    omega

/-- The outermost `unlock_stuff` calls `schedule` if the flag is set. -/
theorem unlockStuff_stepped (hk : SwitchInv k) (hex : k.unlockStuff = .ok k') :
    Stepped k k' .unlockStuff := by
  have hpos := hk.counter
  have hne : k.postponeTaskSwitchesCounter ≠ 0 := by
    intro hzero
    rw [Kernel.unlockStuff, if_pos hzero] at hex
    cases hex
  by_cases hans : SwitchStep.Answers k .unlockStuff
  · obtain ⟨-, hone, hflag⟩ := id hans
    have hcur : k.currentTaskTCB ≠ none := by
      intro hnone
      rw [(hk.idle hnone).1] at hflag
      cases hflag
    obtain ⟨c, hc⟩ := Option.ne_none_iff_exists'.mp hcur
    rw [Kernel.unlockStuff_switch hone hflag hc] at hex
    have hdue : SwitchInv k.switchesDue :=
      ⟨hk.context, Int.le_refl 0, fun h => absurd h Bool.false_ne_true,
        fun hnone => absurd hnone hcur⟩
    have hpass := scheduleThenUnlock_rescheduled hdue hc hex
    have hzero : k'.postponeTaskSwitchesCounter = 0 := hpass.counter
    refine ⟨hpass.inv, ?_, fun h => absurd hzero h, fun h => absurd hzero h, fun hr => hr.elim,
      fun hno => absurd hans hno⟩
    rw [hzero, hone]
    rfl
  · have hno : ¬ (k.postponeTaskSwitchesCounter - 1 = 0 ∧ k.taskSwitchesPostponedFlag = true) :=
      fun h => hans ⟨rfl, by omega, h.2⟩
    rw [Kernel.unlockStuff, if_neg hne, if_neg hno] at hex
    rw [← Except.ok.inj hex]
    refine ⟨⟨hk.context, ?_, fun hflag => ?_, hk.idle⟩, rfl, fun _ => rfl, fun _ => rfl,
      fun hr => hr.elim, fun _ hflag => hflag⟩
    · change 0 ≤ k.postponeTaskSwitchesCounter - 1
      omega
    · change 0 < k.postponeTaskSwitchesCounter - 1
      have hmore : k.postponeTaskSwitchesCounter - 1 ≠ 0 := fun h => hno ⟨h, hflag⟩
      omega

/-- In the idle loop the slice is over, so that the timer asks for nothing. -/
theorem tickSlice_stepped (hk : SwitchInv k) (hex : k.tickSlice = .ok k') :
    Stepped k k' .tickSlice := by
  unfold Kernel.tickSlice at hex
  split at hex
  · rename_i hslice
    have hcur : k.currentTaskTCB ≠ none := fun hnone => hslice (hk.idle hnone).2
    split at hex
    · obtain ⟨c, hc⟩ := Option.ne_none_iff_exists'.mp hcur
      exact (schedule_rescheduled hk hc hex).stepped hk rfl fun hr => hr.1
    · rename_i hlong
      rw [← Except.ok.inj hex]
      exact ⟨⟨hk.context, hk.counter, hk.flag, fun hnone => absurd hnone hcur⟩,
        (Int.add_zero _).symm, fun _ => rfl, fun _ => rfl, fun hr => absurd hr.2.2 hlong,
        fun _ hflag => hflag⟩
  · rename_i hzero
    rw [← Except.ok.inj hex]
    exact (SameSwitching.refl k).stepped hk rfl fun hr => hzero hr.2.1

theorem step_stepped (hk : SwitchInv k) (hm : k.currentTaskTCB ≠ none ∨ m.ofHandler = true)
    (hex : m.exec k = .ok k') : Stepped k k' m := by
  cases m with
  | lockStuff =>
      rw [← Except.ok.inj hex]
      exact lockStuff_stepped hk
  | unlockStuff => exact unlockStuff_stepped hk hex
  | lockScheduler | unlockScheduler | advanceTime =>
      rw [← Except.ok.inj hex]
      exact SameSwitching.stepped ⟨rfl, rfl, rfl, rfl, rfl⟩ hk rfl id
  | schedule =>
      obtain ⟨k₁, hk₁, rfl⟩ := thenResume_ok hex
      obtain ⟨c, hc⟩ := Option.ne_none_iff_exists'.mp (hm.resolve_right Bool.false_ne_true)
      have hcall := schedule_rescheduled hk hc hk₁
      exact (Rescheduled.of_same (.refl k) hcall (.resume k₁)).stepped hk rfl id
  | switchToTaskWrapper t =>
      obtain ⟨k₁, hk₁, rfl⟩ := thenResume_ok hex
      obtain ⟨c, hc⟩ := Option.ne_none_iff_exists'.mp (hm.resolve_right Bool.false_ne_true)
      have hcall := wrapper_rescheduled hk hc hk₁
      exact (Rescheduled.of_same (.refl k) hcall (.resume k₁)).stepped hk rfl id
  | blockTask reason => exact (blockTask_rescheduled hk hex).stepped hk rfl id
  | unblockTask t => exact (SameSwitching.unblockTask hex).stepped hk rfl id
  | wakeSleepers => exact (SameSwitching.wakeSleepers hex).stepped hk rfl id
  | wakeTimeouts => exact (SameSwitching.wakeTimeouts hex).stepped hk rfl id
  | tickSlice => exact tickSlice_stepped hk hex
  | wakeIrq irq => exact (SameSwitching.wakeIrq hex).stepped hk rfl id

/-- Behind the idle loop another task runs, or the one that idled. -/
theorem leaveIdle_switches (hk : SwitchInv k) (hp : k.postponeTaskSwitchesCounter = 0)
    (hex : k.leaveIdle = .ok k') : SwitchInv k' ∧ k'.postponeTaskSwitchesCounter = 0 := by
  unfold Kernel.leaveIdle at hex
  split at hex
  · rename_i c task _ _
    have hover : SwitchInv (k.idleOver c task) :=
      ⟨by simp [Kernel.context, Kernel.idleOver], hk.counter, hk.flag, fun hnone => by cases hnone⟩
    dsimp only at hex
    split at hex
    · split at hex
      · cases hex
      · rename_i k₁ hk₁
        have hs := SameSwitching.resume k₁
        have hpass := wrapper_rescheduled (k := k.idleOver c task) hover rfl hk₁
        rw [← Except.ok.inj hex]
        exact ⟨hs.switchInv hpass.inv, hs.counter.trans (hpass.counter.trans hp)⟩
    · have hs := SameSwitching.resume ((k.idleOver c task).setState c .running)
      rw [← Except.ok.inj hex]
      refine ⟨hs.switchInv ?_, hs.counter.trans hp⟩
      exact ⟨by simp [Kernel.context, Kernel.idleOver, Kernel.setState], hk.counter, hk.flag,
        fun hnone => by cases hnone⟩
  · cases hex

/-! ## Only unlock_stuff calls FAULT -/

section NoFault

open Kernel

theorem appendThread_ne_fault : k.appendThread t ≠ .error .fault := by
  unfold appendThread
  split <;> simp

theorem unblockTask_ne_fault : k.unblockTask t ≠ .error .fault := by
  intro h
  unfold Kernel.unblockTask at h
  dsimp only at h
  split at h
  · cases h
  · split at h
    · cases h
    · split at h
      · cases h
      · split at h
        · rename_i e he
          rw [h] at he
          exact appendThread_ne_fault he
        · cases h

theorem murderChild_ne_fault : k.murderChild c ≠ .error .fault := by
  intro h
  unfold murderChild at h
  split at h
  · cases h
  · split at h
    · cases h
    · dsimp only at h
      split at h
      · cases h
      · exact unblockTask_ne_fault h

theorem reapLoop_ne_fault (n : Nat) (p : Option Tid) : reapLoop n p k ≠ .error .fault := by
  induction n generalizing p k with
  | zero => cases p <;> simp [reapLoop]
  | succ n ih =>
      cases p with
      | none => simp [reapLoop]
      | some d =>
          intro h
          rw [reapLoop] at h
          split at h
          · rename_i e he
            split at he
            · cases he
            · rw [h] at he
              exact murderChild_ne_fault he
          · exact ih _ h

theorem reap_ne_fault : k.reap ≠ .error .fault := by
  intro h
  unfold Kernel.reap at h
  split at h
  · rename_i e he
    rw [h] at he
    exact reapLoop_ne_fault _ _ he
  · cases h

theorem switchToTask_ne_fault : k.switchToTask t ≠ .error .fault := by
  intro h
  unfold switchToTask at h
  split at h
  · cases h
  · split at h
    · rename_i e he
      rw [h] at he
      unfold requeue at he
      split at he
      · split at he
        · rename_i e' he'
          rw [he] at he'
          exact appendThread_ne_fault he'
        · cases he
      · cases he
    · cases h

theorem wrapper_ne_fault : k.switchToTaskWrapper t ≠ .error .fault := by
  intro h
  unfold Kernel.switchToTaskWrapper at h
  split at h
  · cases h
  · split at h
    · cases h
    · split at h
      · cases h
      · dsimp only at h
        split at h
        · rename_i e he
          rw [h] at he
          unfold Kernel.loadRSP0 at he
          split at he
          · cases he
          · cases he
        · exact switchToTask_ne_fault h

theorem schedule_ne_fault : k.schedule ≠ .error .fault := by
  intro h
  unfold Kernel.schedule at h
  split at h
  · cases h
  · split at h
    · cases h
    · split at h
      · cases h
      · split at h
        · rename_i e he
          rw [h] at he
          exact reap_ne_fault he
        · unfold pickNext at h
          split at h
          · exact wrapper_ne_fault h
          · split at h
            · cases h
            · split at h
              · split at h
                · cases h
                · split at h
                  · exact wrapper_ne_fault h
                  · cases h
              · split at h
                · cases h
                · cases h

theorem scheduleThenUnlock_ne_fault : k.scheduleThenUnlock ≠ .error .fault := by
  intro h
  unfold scheduleThenUnlock at h
  split at h
  · rename_i e he
    rw [h] at he
    exact schedule_ne_fault he
  · cases h

theorem thenResume_ne_fault {x : Except Halt Kernel} (hx : x ≠ .error .fault) :
    SwitchStep.thenResume x ≠ .error .fault := by
  cases x with
  | error e => exact hx
  | ok k => exact fun h => by cases h

theorem unlockStuff_ne_fault (hk : SwitchInv k) (hne : k.postponeTaskSwitchesCounter ≠ 0) :
    k.unlockStuff ≠ .error .fault := by
  intro h
  unfold Kernel.unlockStuff at h
  rw [if_neg hne] at h
  dsimp only at h
  split at h
  · rename_i hdue
    split at h
    · rename_i hnone
      rw [(hk.idle hnone).1] at hdue
      cases hdue.2
    · exact scheduleThenUnlock_ne_fault h
  · cases h

theorem visitSleeper_ne_fault : k.visitSleeper t ≠ .error .fault := by
  intro h
  unfold visitSleeper at h
  split at h
  · cases h
  · split at h
    · cases h
    · split at h
      · exact unblockTask_ne_fault h
      · cases h

theorem visitTimeout_ne_fault : k.visitTimeout t ≠ .error .fault := by
  intro h
  unfold visitTimeout at h
  split at h
  · split at h
    · cases h
    · exact unblockTask_ne_fault h
  · cases h

theorem visitIrq_ne_fault {irq : UInt8} {r : Kernel × Bool} :
    Kernel.visitIrq irq r t ≠ .error .fault := by
  intro h
  unfold visitIrq at h
  split at h
  · split at h
    · rename_i e he
      rw [Except.error.inj h] at he
      exact unblockTask_ne_fault he
    · cases h
  · cases h

/-- A loop over a list of waiting tasks. -/
theorem walk_ne_fault {σ : Type} {next : σ → Tid → Option Tid} {visit : σ → Tid → Except Halt σ}
    {n : Nat} {p : Option Tid} {s : σ} (hvisit : ∀ s t, visit s t ≠ .error .fault) :
    walk next visit .diverges n p s ≠ .error .fault := by
  intro h
  rcases walk_error h with hstuck | ⟨s, t, hv⟩
  · cases hstuck
  · exact hvisit s t hv

theorem wakeIrq_ne_fault {irq : UInt8} : k.wakeIrq irq ≠ .error .fault := by
  intro h
  unfold Kernel.wakeIrq at h
  split at h
  · rename_i e he
    rw [Except.error.inj h] at he
    exact walk_ne_fault (fun _ _ => visitIrq_ne_fault) he
  · cases h

theorem tickSlice_ne_fault : k.tickSlice ≠ .error .fault := by
  unfold Kernel.tickSlice
  split
  · split
    · exact schedule_ne_fault
    · exact fun h => by cases h
  · exact fun h => by cases h

theorem blockTask_ne_fault {reason : TaskState} : k.blockTask reason ≠ .error .fault := by
  unfold Kernel.blockTask
  split
  · exact fun h => by cases h
  · exact scheduleThenUnlock_ne_fault

theorem leaveIdle_ne_fault : k.leaveIdle ≠ .error .fault := by
  intro h
  unfold Kernel.leaveIdle at h
  split at h
  · dsimp only at h
    split at h
    · split at h
      · rename_i e he
        rw [h] at he
        exact wrapper_ne_fault he
      · cases h
    · cases h
  · cases h

theorem step_ne_fault (hk : SwitchInv k)
    (hm : m = .unlockStuff → k.postponeTaskSwitchesCounter ≠ 0) : m.exec k ≠ .error .fault := by
  cases m with
  | lockStuff | lockScheduler | unlockScheduler | advanceTime => exact fun h => by cases h
  | unlockStuff => exact unlockStuff_ne_fault hk (hm rfl)
  | schedule => exact thenResume_ne_fault schedule_ne_fault
  | switchToTaskWrapper t => exact thenResume_ne_fault wrapper_ne_fault
  | blockTask reason => exact blockTask_ne_fault
  | unblockTask t => exact unblockTask_ne_fault
  | wakeSleepers => exact walk_ne_fault fun _ _ => visitSleeper_ne_fault
  | wakeTimeouts => exact walk_ne_fault fun _ _ => visitTimeout_ne_fault
  | tickSlice => exact tickSlice_ne_fault
  | wakeIrq irq => exact wakeIrq_ne_fault

end NoFault

end UnnamedOS.Proc
