import UnnamedOS.Proc.Kernel

/-!
# What one scheduler call does

One inversion lemma for each function of `Kernel`, guards included. Fields that a
call changes and no list depends on are existentially quantified: every other
field of the result is the one before the call.
-/

namespace UnnamedOS.Proc.Kernel

variable {k k' : Kernel} {c p t : Tid}

/-- `unblock_task` with an empty ready list. -/
def wakeAlone (k : Kernel) (t : Tid) : Kernel :=
  { k with
    state := Function.update k.state t .ready
    next := Function.update k.next t none
    firstThread := some t
    lastThread := some t }

/-- `unblock_task` behind the last ready task `l`. The pointer of `t` itself is not written. -/
def wakeAfter (k : Kernel) (l t : Tid) : Kernel :=
  { k with
    state := Function.update k.state t .ready
    next := Function.update k.next l (some t)
    lastThread := some t }

theorem unblockTask_of_empty (hr : k.state t ≠ .running) (hd : k.state t ≠ .ready)
    (hf : k.firstThread = none) : k.unblockTask t = .ok (k.wakeAlone t) := by
  simp [unblockTask, lockScheduler, unlockScheduler, setState, setNext, wakeAlone, hr, hd, hf]

theorem unblockTask_of_last {f l : Tid} (hr : k.state t ≠ .running) (hd : k.state t ≠ .ready)
    (hf : k.firstThread = some f) (hl : k.lastThread = some l) :
    k.unblockTask t = .ok (k.wakeAfter l t) := by
  simp [unblockTask, lockScheduler, unlockScheduler, setState, setNext, appendThread, wakeAfter,
    hr, hd, hf, hl]

theorem unblockTask_running (h : k.state t = .running) :
    k.unblockTask t = .error (.error .taskShouldBeRunning t) := by
  simp [unblockTask, lockScheduler, h]

theorem unblockTask_ready (h : k.state t = .ready) :
    k.unblockTask t = .error (.error .taskBadunblock t) := by
  simp [unblockTask, lockScheduler, h]

theorem unblockTask_ok (h : k.unblockTask t = .ok k') :
    k.state t ≠ .running ∧ k.state t ≠ .ready ∧
      ((k.firstThread = none ∧ k' = k.wakeAlone t) ∨
        ∃ f l, k.firstThread = some f ∧ k.lastThread = some l ∧ k' = k.wakeAfter l t) := by
  by_cases hr : k.state t = .running
  · rw [unblockTask_running hr] at h
    cases h
  by_cases hd : k.state t = .ready
  · rw [unblockTask_ready hd] at h
    cases h
  refine ⟨hr, hd, ?_⟩
  cases hf : k.firstThread with
  | none =>
      rw [unblockTask_of_empty hr hd hf] at h
      exact Or.inl ⟨rfl, (Except.ok.inj h).symm⟩
  | some f =>
      cases hl : k.lastThread with
      | none =>
          simp [unblockTask, lockScheduler, setState, appendThread, hr, hd, hf, hl] at h
      | some l =>
          rw [unblockTask_of_last hr hd hf hl] at h
          exact Or.inr ⟨f, l, rfl, rfl, (Except.ok.inj h).symm⟩

theorem swapUserMemory_eq (k : Kernel) (old task : Tid) :
    ∃ word slot, k.swapUserMemory old task = { k with cr3Word := word, pml4Slot0 := slot } := by
  unfold swapUserMemory
  split
  · exact ⟨k.cr3Word, k.pml4Slot0, rfl⟩
  · exact ⟨_, _, rfl⟩

/-- The fields a switch writes that belong to no list. -/
structure SwitchFrame where
  rsp0 : Tid → UInt64
  timeUsed : Tid → UInt64
  timeSliceRemaining : UInt64
  lastCount : UInt64
  iopl : UInt8
  tssRsp0 : UInt64
  pml4Slot0 : UInt64
  cr3Word : UInt64 → UInt64

def withFrame (k : Kernel) (w : SwitchFrame) : Kernel :=
  { k with
    rsp0 := w.rsp0
    timeUsed := w.timeUsed
    timeSliceRemaining := w.timeSliceRemaining
    lastCount := w.lastCount
    iopl := w.iopl
    tssRsp0 := w.tssRsp0
    pml4Slot0 := w.pml4Slot0
    cr3Word := w.cr3Word }

/-- A switch away from a task that no longer runs. -/
def handOver (k : Kernel) (task : Tid) : Kernel :=
  { k with state := Function.update k.state task .running, currentTaskTCB := some task }

/-- A switch away from the task `c`, which goes back behind the last ready task `l`. -/
def preempt (k : Kernel) (c l task : Tid) : Kernel :=
  { k with
    state := Function.update (Function.update k.state c .ready) task .running
    next := Function.update (Function.update k.next l (some c)) c none
    lastThread := some c
    currentTaskTCB := some task }

theorem switchToTask_ok (hc : k.currentTaskTCB = some c) (h : k.switchToTask t = .ok k') :
    ∃ word slot,
      (k.state c ≠ .running ∧ k' = { k.handOver t with cr3Word := word, pml4Slot0 := slot }) ∨
      (k.state c = .running ∧ ∃ l, k.lastThread = some l ∧
        k' = { k.preempt c l t with cr3Word := word, pml4Slot0 := slot }) := by
  simp only [switchToTask, hc] at h
  by_cases hr : k.state c = .running
  · cases hl : k.lastThread with
    | none => simp [requeue, hr, appendThread, setState, hl] at h
    | some l =>
        simp only [requeue, hr, appendThread, setState, setNext, hl, if_true,
          Except.ok.injEq] at h
        obtain ⟨word, slot, he⟩ := swapUserMemory_eq _ c t
        rw [he] at h
        exact ⟨word, slot, Or.inr ⟨hr, l, rfl, h.symm⟩⟩
  · simp only [requeue, hr, setState, if_false, Except.ok.injEq] at h
    obtain ⟨word, slot, he⟩ := swapUserMemory_eq _ c t
    rw [he] at h
    exact ⟨word, slot, Or.inl ⟨hr, h.symm⟩⟩

theorem switchToTaskWrapper_postponed (hp : k.postponeTaskSwitchesCounter ≠ 0) :
    k.switchToTaskWrapper t = .ok { k with taskSwitchesPostponedFlag := true } := by
  simp [switchToTaskWrapper, hp]

/-- What `switch_to_task_wrapper` and the two swaps of `switch_to_task` leave in those fields. -/
def switchFrame (k : Kernel) (c t : Tid) (slot : UInt64) (word : UInt64 → UInt64) :
    SwitchFrame where
  rsp0 := Function.update k.rsp0 c (k.rsp0 t)
  timeUsed := Function.update k.timeUsed c (k.timeUsed c + (k.lastCount - k.time))
  timeSliceRemaining := if k.firstThread = none ∧ k.state c ≠ .running then 0 else 50000000
  lastCount := k.time
  iopl := if k.pl t = 2 then 3 else 0
  tssRsp0 := k.rsp0 t
  pml4Slot0 := slot
  cr3Word := word

theorem switchToTaskWrapper_ok (hp : k.postponeTaskSwitchesCounter = 0)
    (hc : k.currentTaskTCB = some c) (h : k.switchToTaskWrapper t = .ok k') :
    k.state c ≠ .ready ∧ ∃ slot word,
      (k.state c ≠ .running ∧ k' = (k.handOver t).withFrame (k.switchFrame c t slot word)) ∨
      (k.state c = .running ∧ ∃ l, k.lastThread = some l ∧
        k' = (k.preempt c l t).withFrame (k.switchFrame c t slot word)) := by
  have hp' : ¬ k.postponeTaskSwitchesCounter ≠ 0 := fun hne => hne hp
  rw [switchToTaskWrapper, if_neg hp', hc] at h
  by_cases hd : k.state c = .ready
  · simp [hd] at h
  refine ⟨hd, ?_⟩
  simp only [hd, if_false, updateTimeUsed, loadRSP0] at h
  obtain ⟨word, slot, hsw⟩ := switchToTask_ok (c := c) rfl h
  refine ⟨slot, word, ?_⟩
  rcases hsw with ⟨hr, rfl⟩ | ⟨hr, l, hl, rfl⟩
  · exact Or.inl ⟨hr, rfl⟩
  · exact Or.inr ⟨hr, l, hl, rfl⟩

/-- The parent that `reap` wakes on behalf of the dead task at the head of its list. -/
def reapWakes (k : Kernel) : Option Tid :=
  match k.deadTasks with
  | none => none
  | some d =>
    match k.parent d with
    | none => none
    | some p => if k.state p = .waitingForDeath ∧ k.state d ≠ .buried then some p else none

/-- The fields `reap` writes that no queue depends on. -/
def buryAll (k : Kernel) (children : Tid → List Tid) (pages : List UInt64)
    (allocated : List Tid) : Kernel :=
  { k with children := children, pages := pages, allocated := allocated, deadTasks := none }

/-- The reaper's list holds at most one task, which no ready list runs through. -/
structure OneDead (k : Kernel) (d : Tid) : Prop where
  next : k.next d = none
  last : k.firstThread ≠ none → k.lastThread ≠ some d

theorem murderChild_ok (hp : k.parent c = some p) (h : k.murderChild c = .ok k') :
    c ∈ k.children p ∧ ∃ ch : Tid → List Tid,
      ((k.state p ≠ .waitingForDeath ∨ k.state c = .buried) ∧ k' = { k with children := ch }) ∨
      (k.state p = .waitingForDeath ∧ k.state c ≠ .buried ∧
        ∃ k₁, k.unblockTask p = .ok k₁ ∧ k' = { k₁ with children := ch }) := by
  simp only [murderChild, hp] at h
  by_cases hm : c ∈ k.children p
  · refine ⟨hm, Function.update k.children p ((k.children p).erase c), ?_⟩
    simp only [hm, not_true_eq_false, if_false] at h
    by_cases hw : k.state p ≠ .waitingForDeath ∨ k.state c = .buried
    · rw [if_pos hw, Except.ok.injEq] at h
      exact Or.inl ⟨hw, h.symm⟩
    · rw [if_neg hw] at h
      push Not at hw
      refine Or.inr ⟨hw.1, hw.2, ?_⟩
      obtain ⟨hr, hd, ⟨hf, rfl⟩ | ⟨f, l, hf, hl, rfl⟩⟩ := unblockTask_ok h
      · exact ⟨k.wakeAlone p, unblockTask_of_empty hr hd hf, rfl⟩
      · exact ⟨k.wakeAfter l p, unblockTask_of_last hr hd hf hl, rfl⟩
  · simp [hm] at h

theorem freeCr3_eq (k : Kernel) (t : Tid) : ∃ pg, k.freeCr3 t = { k with pages := pg } := by
  unfold freeCr3
  split
  · exact ⟨k.pages, rfl⟩
  · exact ⟨_, rfl⟩

theorem freeTask_eq (k : Kernel) (t : Tid) :
    ∃ al, (al = k.allocated ∨ al = k.allocated.erase t) ∧
      k.freeTask t = { k with allocated := al } := by
  unfold freeTask
  split
  · exact ⟨k.allocated, Or.inl rfl, rfl⟩
  · exact ⟨_, Or.inr rfl, rfl⟩

/-- The body of the loop of `reap`. -/
def reapTask (k : Kernel) (task : Tid) : Except Halt Kernel :=
  match (if k.parent task = none then .ok k else k.murderChild task) with
  | .error e => .error e
  | .ok k => .ok ((k.freeCr3 task).freeTask task)

theorem reapLoop_none (n : Nat) (k : Kernel) : reapLoop n none k = .ok k := by
  cases n <;> rfl

/-- One round of `reapLoop`. `free` does not write the pointer that is read before it. -/
theorem reapLoop_some (n : Nat) (k : Kernel) (t : Tid) (h : reapLoop (n + 1) (some t) k = .ok k') :
    ∃ k₁, k.reapTask t = .ok k₁ ∧ reapLoop n (k₁.next t) k₁ = .ok k' := by
  rw [reapLoop] at h
  split at h
  · cases h
  · rename_i k₁ hk₁
    refine ⟨(k₁.freeCr3 t).freeTask t, by rw [reapTask, hk₁], ?_⟩
    have hnext : ((k₁.freeCr3 t).freeTask t).next = (k₁.freeCr3 t).next := by
      obtain ⟨al, -, hf⟩ := freeTask_eq (k₁.freeCr3 t) t
      rw [hf]
    rw [hnext]
    exact h

theorem reap_none (hd : k.deadTasks = none) : k.reap = .ok { k with deadTasks := none } := by
  rw [reap, hd, reapLoop_none]

/-- The rest of a round of `reapLoop` whose task ends the list. -/
theorem reapLoop_last {n : Nat} {d : Tid} (hd : k.next d = none)
    (h : reapLoop n ((k.freeCr3 d).next d) ((k.freeCr3 d).freeTask d) = .ok k') :
    ∃ pg al, (al = k.allocated ∨ al = k.allocated.erase d) ∧
      k' = { k with pages := pg, allocated := al } := by
  obtain ⟨pg, hpg⟩ := freeCr3_eq k d
  obtain ⟨al, hal, hf⟩ := freeTask_eq { k with pages := pg } d
  rw [hpg, hf] at h
  change reapLoop n (k.next d) _ = _ at h
  rw [hd, reapLoop_none] at h
  exact ⟨pg, al, hal, (Except.ok.inj h).symm⟩

/-- `reap` on a list of one: the corpse leaves the tables, and its parent may be woken. -/
theorem reap_one {d : Tid} (hd : k.deadTasks = some d) (ho : OneDead k d)
    (h : k.reap = .ok k') :
    ∃ ch pg al, (al = k.allocated ∨ al = k.allocated.erase d) ∧
      ((k.reapWakes = none ∧ k' = k.buryAll ch pg al) ∨
        ∃ p k₁, k.reapWakes = some p ∧ k.parent d = some p ∧ k.unblockTask p = .ok k₁ ∧
          k' = k₁.buryAll ch pg al) := by
  rw [reap, hd] at h
  split at h
  · cases h
  rename_i k₂ hk₂
  obtain rfl := Except.ok.inj h
  rw [reapLoop] at hk₂
  cases hp : k.parent d with
  | none =>
      rw [if_pos hp] at hk₂
      obtain ⟨pg, al, hal, rfl⟩ := reapLoop_last ho.next hk₂
      exact ⟨k.children, pg, al, hal, Or.inl ⟨by simp [reapWakes, hd, hp], rfl⟩⟩
  | some p =>
      rw [if_neg (by simp [hp])] at hk₂
      cases hm : k.murderChild d with
      | error e => rw [hm] at hk₂; cases hk₂
      | ok k₁ =>
          rw [hm] at hk₂
          obtain ⟨-, ch, ⟨hw, rfl⟩ | ⟨hw, hb, k₃, hk₃, rfl⟩⟩ := murderChild_ok hp hm
          · obtain ⟨pg, al, hal, rfl⟩ := reapLoop_last (k := { k with children := ch }) ho.next hk₂
            refine ⟨ch, pg, al, hal, Or.inl ⟨?_, rfl⟩⟩
            have hnot : ¬ (k.state p = .waitingForDeath ∧ k.state d ≠ .buried) := by
              rintro ⟨h1, h2⟩
              exact hw.elim (fun h3 => h3 h1) h2
            simp only [reapWakes, hd, hp, if_neg hnot]
          · have hnext : k₃.next d = none ∧ k₃.allocated = k.allocated := by
              obtain ⟨-, -, ⟨-, rfl⟩ | ⟨f, l, hf, hl, rfl⟩⟩ := unblockTask_ok hk₃
              · refine ⟨?_, rfl⟩
                by_cases hdp : d = p
                · rw [hdp]; exact Function.update_self p _ _
                · exact (Function.update_of_ne hdp _ _).trans ho.next
              · refine ⟨?_, rfl⟩
                have hne : d ≠ l := by
                  rintro rfl
                  exact ho.last (by simp [hf]) hl
                exact (Function.update_of_ne hne _ _).trans ho.next
            obtain ⟨pg, al, hal, rfl⟩ :=
              reapLoop_last (k := { k₃ with children := ch }) hnext.1 hk₂
            refine ⟨ch, pg, al, ?_, Or.inr ⟨p, k₃, ?_, rfl, hk₃, rfl⟩⟩
            · rwa [← hnext.2]
            · simp only [reapWakes, hd, hp, hw, hb, ne_eq, not_false_eq_true, and_self, if_true]

theorem pickNext_ok (h : k.pickNext c = .ok k') :
    (∃ t, k.firstThread = some t ∧
      { k with firstThread := k.next t }.switchToTaskWrapper t = .ok k') ∨
    (k.firstThread = none ∧ k.state c = .running ∧ k' = k) ∨
    (k.firstThread = none ∧ k.state c = .dead ∧ ∃ p, k.parent c = some p ∧
      k.state p = .waitingForDeath ∧ (k.setState c .buried).switchToTaskWrapper p = .ok k') ∨
    (k.firstThread = none ∧ k.state c ≠ .running ∧ k.state c ≠ .ready ∧ k' = k.goIdle c) := by
  rw [pickNext] at h
  cases hf : k.firstThread with
  | some t =>
      rw [hf] at h
      exact Or.inl ⟨t, rfl, h⟩
  | none =>
      rw [hf] at h
      refine Or.inr ?_
      by_cases hr : k.state c = .running
      · rw [if_pos hr, Except.ok.injEq] at h
        exact Or.inl ⟨rfl, hr, h.symm⟩
      rw [if_neg hr] at h
      refine Or.inr ?_
      by_cases hd : k.state c = .dead
      · rw [if_pos hd] at h
        cases hp : k.parent c with
        | none => simp [hp] at h
        | some p =>
            simp only [hp] at h
            by_cases hw : k.state p = .waitingForDeath
            · rw [if_pos hw] at h
              exact Or.inl ⟨rfl, hd, p, rfl, hw, h⟩
            · rw [if_neg hw, Except.ok.injEq] at h
              exact Or.inr ⟨rfl, hr, by simp [hd], h.symm⟩
      · rw [if_neg hd] at h
        by_cases hy : k.state c = .ready
        · rw [if_pos hy] at h
          cases h
        · rw [if_neg hy, Except.ok.injEq] at h
          exact Or.inr ⟨rfl, hr, hy, h.symm⟩

theorem schedule_ok (hp : k.postponeTaskSwitchesCounter = 0) (hc : k.currentTaskTCB = some c)
    (h : k.schedule = .ok k') :
    k.state c ≠ .ready ∧ ∃ k₁, k.reap = .ok k₁ ∧ (k₁.buryLater c).pickNext c = .ok k' := by
  have hp' : ¬ k.postponeTaskSwitchesCounter ≠ 0 := fun hne => hne hp
  simp only [schedule, if_neg hp', hc] at h
  by_cases hy : k.state c = .ready
  · simp [hy] at h
  rw [if_neg hy] at h
  refine ⟨hy, ?_⟩
  cases hr : k.reap with
  | error e => simp [hr] at h
  | ok k₁ =>
      rw [hr] at h
      exact ⟨k₁, rfl, h⟩

theorem schedule_postponed (hp : k.postponeTaskSwitchesCounter ≠ 0) :
    k.schedule = .ok { k with taskSwitchesPostponedFlag := true } := by
  rw [schedule, if_pos hp]

/-- A call of `schedule` and the unlock behind it, as a call of `schedule` alone. -/
theorem scheduleThenUnlock_ok (hc : k.currentTaskTCB = some c)
    (h : k.scheduleThenUnlock = .ok k') :
    ∃ un k₁, { k with stackUnlocks := un }.schedule = .ok k₁ ∧ k' = k₁.resume := by
  have hpush : k.pushUnlock =
      { k with stackUnlocks := Function.update k.stackUnlocks c (k.stackUnlocks c + 1) } := by
    rw [pushUnlock, hc]
  rw [scheduleThenUnlock, hpush] at h
  split at h
  · cases h
  · rename_i k₁ hk₁
    exact ⟨_, k₁, hk₁, (Except.ok.inj h).symm⟩

/-- The outermost `unlock_stuff` makes the switch that was asked for meanwhile. -/
theorem unlockStuff_switch (hp : k.postponeTaskSwitchesCounter = 1)
    (hf : k.taskSwitchesPostponedFlag = true) (hc : k.currentTaskTCB = some c) :
    k.unlockStuff = { k with
      postponeTaskSwitchesCounter := 0, taskSwitchesPostponedFlag := false }.scheduleThenUnlock := by
  simp [unlockStuff, hp, hf, hc]

theorem unlockStuff_idle (hp : k.postponeTaskSwitchesCounter = 1)
    (hf : k.taskSwitchesPostponedFlag = true) (hc : k.currentTaskTCB = none) :
    k.unlockStuff = .error .fault := by
  simp [unlockStuff, hp, hf, hc]

/-- The end of a locked section that no switch was put off in. -/
def unlocked (k : Kernel) : Kernel := { k with postponeTaskSwitchesCounter := 0 }.unlockScheduler

theorem unlockStuff_plain (hp : k.postponeTaskSwitchesCounter = 1)
    (hf : k.taskSwitchesPostponedFlag = false) :
    k.unlockStuff = .ok k.unlocked := by
  simp [unlockStuff, unlocked, hp, hf]

theorem resume_eq (k : Kernel) :
    ∃ n un, k.resume = { k with irqDisableCounter := n, stackUnlocks := un } := by
  unfold resume
  split
  · exact ⟨k.irqDisableCounter, k.stackUnlocks, rfl⟩
  · exact ⟨_, _, rfl⟩

end UnnamedOS.Proc.Kernel
