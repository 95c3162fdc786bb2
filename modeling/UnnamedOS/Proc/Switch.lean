import UnnamedOS.Proc.ReadyList

/-!
# Switches when nobody has died

With an empty reaper's list `schedule` only pops a task or goes idle. The lemmas give the
resulting kernel in full, so that what a switch leaves alone holds by definition.
-/

namespace UnnamedOS.Proc.Kernel

variable {k k' : Kernel} {r : List Tid} {q : Option Tid} {c t : Tid} {reason : TaskState}

/-- The running task `c` blocks while nobody is ready. -/
def parkIdle (k : Kernel) (c : Tid) (reason : TaskState) : Kernel :=
  { k with
    state := Function.update k.state c reason
    stackUnlocks := Function.update k.stackUnlocks c (k.stackUnlocks c + 1)
    irqDisableCounter := k.irqDisableCounter + 1
    currentTaskTCB := none
    idleTask := some c
    timeSliceRemaining := 0 }

/-- The running task `c` blocks, and `t` runs. -/
def park (k : Kernel) (c t : Tid) (reason : TaskState) (w : SwitchFrame) : Kernel :=
  { k with
    state := Function.update (Function.update k.state c reason) t .running
    stackUnlocks := Function.update (Function.update k.stackUnlocks c (k.stackUnlocks c + 1)) t 0
    irqDisableCounter :=
      k.irqDisableCounter + 1 - Function.update k.stackUnlocks c (k.stackUnlocks c + 1) t
    currentTaskTCB := some t
    firstThread := k.next t }.withFrame w

/-- The running task `c` loses the processor to `t` and goes behind `l` on the ready list. -/
def rotate (k : Kernel) (c l t : Tid) (w : SwitchFrame) : Kernel :=
  { { k with firstThread := k.next t }.preempt c l t with
    stackUnlocks := Function.update (Function.update k.stackUnlocks c (k.stackUnlocks c + 1)) t 0
    irqDisableCounter :=
      k.irqDisableCounter - Function.update k.stackUnlocks c (k.stackUnlocks c + 1) t }.withFrame w

/-- The running task `c` goes through `schedule` and keeps the processor. -/
def stay (k : Kernel) (c : Tid) : Kernel :=
  { k with
    stackUnlocks := Function.update k.stackUnlocks c 0
    irqDisableCounter := k.irqDisableCounter - (k.stackUnlocks c + 1 : ℕ) }

theorem reap_eq (hd : k.deadTasks = none) : k.reap = .ok k := by
  rw [reap_none hd, ← hd]

theorem buryLater_eq (h : k.state c ≠ .dead) : k.buryLater c = k := by
  rw [buryLater, if_neg h]

theorem schedule_eq (hp : k.postponeTaskSwitchesCounter = 0) (hd : k.deadTasks = none)
    (hc : k.currentTaskTCB = some c) (hr : k.state c ≠ .ready) (hdead : k.state c ≠ .dead) :
    k.schedule = k.pickNext c := by
  have hp' : ¬ k.postponeTaskSwitchesCounter ≠ 0 := fun hne => hne hp
  rw [schedule, if_neg hp', hc]
  simp only [if_neg hr, reap_eq hd, buryLater_eq hdead]

theorem switchToTask_exists (hc : k.currentTaskTCB = some c)
    (hl : k.state c = .running → k.lastThread ≠ none) : ∃ k', k.switchToTask t = .ok k' := by
  simp only [switchToTask, hc]
  by_cases hr : k.state c = .running
  · obtain ⟨l, hl⟩ := Option.ne_none_iff_exists'.mp (hl hr)
    simp [requeue, hr, appendThread, setState, hl]
  · simp [requeue, hr]

theorem switchToTaskWrapper_exists (hp : k.postponeTaskSwitchesCounter = 0)
    (hc : k.currentTaskTCB = some c) (hr : k.state c ≠ .ready)
    (hl : k.state c = .running → k.lastThread ≠ none) :
    ∃ k', k.switchToTaskWrapper t = .ok k' := by
  have hp' : ¬ k.postponeTaskSwitchesCounter ≠ 0 := fun hne => hne hp
  rw [switchToTaskWrapper, if_neg hp', hc]
  simp only [if_neg hr, updateTimeUsed, loadRSP0]
  exact switchToTask_exists (c := c) rfl hl

theorem pushUnlock_eq (hc : k.currentTaskTCB = some c) : k.pushUnlock =
    { k with stackUnlocks := Function.update k.stackUnlocks c (k.stackUnlocks c + 1) } := by
  rw [pushUnlock, hc]

theorem resume_some (hc : k.currentTaskTCB = some c) : k.resume =
    { k with
      irqDisableCounter := k.irqDisableCounter - k.stackUnlocks c
      stackUnlocks := Function.update k.stackUnlocks c 0 } := by
  rw [resume, hc]

/-- A call of `schedule` by `c` that comes to pick the next task. -/
theorem scheduleThenUnlock_eq (hp : k.postponeTaskSwitchesCounter = 0) (hd : k.deadTasks = none)
    (hc : k.currentTaskTCB = some c) (hr : k.state c ≠ .ready) (hdead : k.state c ≠ .dead)
    (hk : pickNext { k with
      stackUnlocks := Function.update k.stackUnlocks c (k.stackUnlocks c + 1) } c = .ok k') :
    k.scheduleThenUnlock = .ok k'.resume := by
  let k₁ : Kernel := { k with
    stackUnlocks := Function.update k.stackUnlocks c (k.stackUnlocks c + 1) }
  have hsch : k₁.schedule = .ok k' := (schedule_eq (k := k₁) hp hd hc hr hdead).trans hk
  rw [scheduleThenUnlock, pushUnlock_eq hc, hsch]

/-- The running task `c` blocks. -/
theorem blockTask_spec (reason : TaskState) (hp : k.postponeTaskSwitchesCounter = 0)
    (hd : k.deadTasks = none)
    (hc : k.currentTaskTCB = some c) (hq : QueueSeg k r q)
    (hs : reason ≠ .running ∧ reason ≠ .ready ∧ reason ≠ .dead) :
    (r = [] ∧ k.blockTask reason = .ok (k.parkIdle c reason)) ∨
      ∃ t r' w, r = t :: r' ∧ k.blockTask reason = .ok (k.park c t reason w) := by
  obtain ⟨hs1, hs2, hs3⟩ := hs
  let k₁ : Kernel := { k.lockScheduler.setState c reason with
    stackUnlocks := Function.update k.stackUnlocks c (k.stackUnlocks c + 1) }
  have hst : k₁.state c = reason := Function.update_self c _ _
  have hblock : ∀ k₂, k₁.pickNext c = .ok k₂ → k.blockTask reason = .ok k₂.resume := by
    intro k₂ hk₂
    rw [blockTask, hc]
    exact scheduleThenUnlock_eq (k := k.lockScheduler.setState c reason) hp hd hc
      (by rw [show (k.lockScheduler.setState c reason).state c = reason from hst]; exact hs2)
      (by rw [show (k.lockScheduler.setState c reason).state c = reason from hst]; exact hs3) hk₂
  cases r with
  | nil =>
      have hf : k₁.firstThread = none := hq.first_none.mpr rfl
      refine Or.inl ⟨rfl, ?_⟩
      have hpick : k₁.pickNext c = .ok (k₁.goIdle c) := by
        rw [pickNext, hf]
        simp only [hst, if_neg hs1, if_neg hs2, if_neg hs3]
      rw [hblock _ hpick]
      rfl
  | cons t r' =>
      have hf : k₁.firstThread = some t := (Lib.seg_cons.mp hq.seg).1
      have hpick : k₁.pickNext c = { k₁ with firstThread := k₁.next t }.switchToTaskWrapper t := by
        rw [pickNext, hf]
      obtain ⟨k₂, hk₂⟩ := switchToTaskWrapper_exists (c := c) (t := t)
        (k := { k₁ with firstThread := k₁.next t }) hp hc (by rw [hst]; exact hs2)
        (fun hrun => absurd (hst.symm.trans hrun) hs1)
      obtain ⟨-, slot, word, ⟨-, he⟩ | ⟨hrun, -⟩⟩ := switchToTaskWrapper_ok
        (k := { k₁ with firstThread := k₁.next t }) hp hc hk₂
      · refine Or.inr ⟨t, r', switchFrame { k₁ with firstThread := k₁.next t } c t slot word, rfl, ?_⟩
        rw [hblock k₂ (hpick.trans hk₂), he]
        rw [resume_some (c := t)]
        · rfl
        · rfl
      · exact absurd (hst.symm.trans hrun) hs1

/-- The running task `c` calls `schedule`. -/
theorem scheduleThenUnlock_running (hp : k.postponeTaskSwitchesCounter = 0)
    (hd : k.deadTasks = none) (hc : k.currentTaskTCB = some c) (hs : k.state c = .running)
    (hq : QueueSeg k r q) :
    (r = [] ∧ k.scheduleThenUnlock = .ok (k.stay c)) ∨
      ∃ t r' l w, r = t :: r' ∧ k.lastThread = some l ∧
        k.scheduleThenUnlock = .ok (k.rotate c l t w) := by
  let k₁ : Kernel := { k with
    stackUnlocks := Function.update k.stackUnlocks c (k.stackUnlocks c + 1) }
  have hall : ∀ k₂, k₁.pickNext c = .ok k₂ → k.scheduleThenUnlock = .ok k₂.resume :=
    fun k₂ hk₂ => scheduleThenUnlock_eq hp hd hc (by simp [hs]) (by simp [hs]) hk₂
  cases r with
  | nil =>
      have hf : k₁.firstThread = none := hq.first_none.mpr rfl
      have hpick : k₁.pickNext c = .ok k₁ := by
        rw [pickNext, hf]
        simp only [if_pos (show k₁.state c = .running from hs)]
      refine Or.inl ⟨rfl, ?_⟩
      rw [hall _ hpick, resume_some (k := k₁) hc]
      simp [k₁, stay]
  | cons t r' =>
      have hf : k₁.firstThread = some t := (Lib.seg_cons.mp hq.seg).1
      have hpick : k₁.pickNext c = { k₁ with firstThread := k₁.next t }.switchToTaskWrapper t := by
        rw [pickNext, hf]
      obtain ⟨l, hl⟩ : ∃ l, k.lastThread = some l := by
        rw [hq.last (by simp)]
        exact ⟨_, List.getLast?_eq_some_getLast (by simp)⟩
      obtain ⟨k₂, hk₂⟩ := switchToTaskWrapper_exists (c := c) (t := t)
        (k := { k₁ with firstThread := k₁.next t }) hp hc (by change k.state c ≠ _; simp [hs])
        (fun _ => by change k.lastThread ≠ none; simp [hl])
      obtain ⟨-, slot, word, ⟨hrun, -⟩ | ⟨-, l', hl', he⟩⟩ := switchToTaskWrapper_ok
        (k := { k₁ with firstThread := k₁.next t }) hp hc hk₂
      · exact absurd hs hrun
      · refine Or.inr ⟨t, r', l',
          switchFrame { k₁ with firstThread := k₁.next t } c t slot word, rfl, hl', ?_⟩
        rw [hall k₂ (hpick.trans hk₂), he]
        rw [resume_some (c := t)]
        · rfl
        · rfl

/-- The idle loop ends, and `t` runs. -/
def leave (k : Kernel) (t : Tid) (w : SwitchFrame) : Kernel :=
  { k with
    state := Function.update k.state t .running
    stackUnlocks := Function.update k.stackUnlocks t 0
    irqDisableCounter := k.irqDisableCounter - k.stackUnlocks t
    currentTaskTCB := some t
    idleTask := none
    firstThread := k.next t }.withFrame w

theorem leaveIdle_spec (hp : k.postponeTaskSwitchesCounter = 0) (hi : k.idleTask = some c)
    (hq : QueueSeg k r q) (hs : k.state c ≠ .running) (hk : k.leaveIdle = .ok k') :
    ∃ t r' w, r = t :: r' ∧ k' = k.leave t w := by
  cases r with
  | nil =>
      have hf : k.firstThread = none := hq.first_none.mpr rfl
      simp [leaveIdle, hi, hf] at hk
  | cons t r' =>
      have hf : k.firstThread = some t := (Lib.seg_cons.mp hq.seg).1
      simp only [leaveIdle, hi, hf] at hk
      refine ⟨t, r', ?_⟩
      split at hk
      · split at hk
        · cases hk
        · rename_i k₁ hk₁
          obtain ⟨-, slot, word, ⟨-, rfl⟩ | ⟨hrun, -⟩⟩ := switchToTaskWrapper_ok
            (k := { k with currentTaskTCB := some c, idleTask := none, firstThread := k.next t })
            hp rfl hk₁
          · rw [resume_some (c := t) rfl] at hk
            exact ⟨switchFrame { k with
              currentTaskTCB := some c, idleTask := none, firstThread := k.next t } c t slot word, rfl,
              (Except.ok.inj hk).symm⟩
          · exact absurd hrun hs
      · rename_i htc
        obtain rfl := not_not.mp htc
        refine ⟨⟨k.rsp0, k.timeUsed, k.timeSliceRemaining, k.lastCount, k.iopl, k.tssRsp0,
          k.pml4Slot0, k.cr3Word⟩, rfl, ?_⟩
        rw [resume_some (c := t)] at hk
        · exact (Except.ok.inj hk).symm
        · rfl

theorem leaveIdle_error {e : Halt} (hp : k.postponeTaskSwitchesCounter = 0)
    (hs : ∀ c, k.idleTask = some c → k.state c ≠ .running)
    (hk : k.leaveIdle = .error e) :
    e = .nullPointer ∨ ∃ c, e = .error .shouldNotBeReady2 c := by
  unfold leaveIdle at hk
  split at hk
  · rename_i c t hi hf
    dsimp only at hk
    split at hk
    · split at hk
      · rename_i e' he'
        cases hk
        by_cases hr : k.state c = .ready
        · have hp' : ¬ k.postponeTaskSwitchesCounter ≠ 0 := fun hne => hne hp
          simp only [switchToTaskWrapper, if_neg hp', if_pos hr] at he'
          exact Or.inr ⟨c, (Except.error.inj he').symm⟩
        · obtain ⟨k', hk'⟩ := switchToTaskWrapper_exists (c := c) (t := t)
            (k := { k with currentTaskTCB := some c, idleTask := none, firstThread := k.next t })
            hp rfl hr (fun hrun => absurd hrun (hs c hi))
          cases he'.symm.trans hk'
      · cases hk
    · cases hk
  · exact Or.inl (Except.error.inj hk).symm

end UnnamedOS.Proc.Kernel

/-- The ready list after a time slice. The only ready task is popped and the running one is
lost behind it; the list of two or more tasks goes on. -/
theorem UnnamedOS.Proc.QueueSeg.rotate {k : Kernel} {r : List Tid} {q : Option Tid} {c l t : Tid}
    {w : Kernel.SwitchFrame} (h : QueueSeg k (t :: r) q) (hq : r = [] → q = none)
    (hl : k.lastThread = some l) (hc : c ∈ k.allocated) (hs : k.state c = .running) :
    QueueSeg (k.rotate c l t w) (if r = [] then [] else r ++ [c]) none := by
  by_cases hr : r = []
  · rw [if_pos hr]
    have hf : k.next t = none := by
      have hseg := (Lib.seg_cons.mp h.seg).2
      rwa [hr, Lib.seg_nil, hq hr] at hseg
    exact ⟨hf, List.nodup_nil, fun x hx => absurd hx List.not_mem_nil, fun hne => absurd rfl hne,
      fun _ => rfl⟩
  · rw [if_neg hr]
    exact (h.preempt hr hl hc hs).frame rfl rfl rfl rfl rfl
