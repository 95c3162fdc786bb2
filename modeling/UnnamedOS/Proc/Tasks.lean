import UnnamedOS.Lib.Run
import UnnamedOS.Proc.Schedule

/-!
# The ready list over whole runs

The operations that edit the ready list, one step each, from the state that
`initialize_multitasking` leaves. Two of them can break the list: a time slice that
ends with one task ready, and an append of a task whose `next` still points into
another list. `Safe` says that a step does neither.
-/

namespace UnnamedOS.Proc

open UnnamedOS.Lib

inductive TaskOp where
  | ckprocA (M : Tid) (M2 cr3 : UInt64)
  | blockTask (reason : TaskState)
  | unblockTask (t : Tid)
  | timeSlice
  | procExit
  /-- The idle loop of `schedule` finds `FIRST_THREAD` set. -/
  | leaveIdle

/-- The states that `block_task` is called with. -/
def TaskState.Blocked : TaskState → Prop
  | .running | .ready | .dead | .buried => False
  | _ => True

namespace TaskOp

/-- The end of a time slice as `PIT_IRQ_handler` makes it: `schedule` between `lock_stuff`
and `unlock_stuff`. -/
def endTimeSlice (k : Kernel) : Except Halt Kernel :=
  match k.lockStuff.schedule with
  | .error e => .error e
  | .ok k => k.unlockStuff

def exec (k : Kernel) : TaskOp → Except Halt Kernel
  | ckprocA M M2 cr3 => k.ckprocA M M2 cr3
  | blockTask reason => k.blockTask reason
  | unblockTask t => k.unblockTask t
  | timeSlice => endTimeSlice k
  | procExit => k.procExit
  | leaveIdle => k.leaveIdle

/-- `malloc` returns a block that is not in use, and only a blocked task is unblocked. -/
def Enabled (k : Kernel) : TaskOp → Prop
  | ckprocA M _ _ => M ∉ k.allocated
  | blockTask reason => reason.Blocked
  | unblockTask t => t ∈ k.allocated ∧ (k.state t).Blocked
  | leaveIdle => k.currentTaskTCB = none
  | timeSlice | procExit => True

def step (k : Kernel) (op : TaskOp) (k' : Kernel) : Prop := op.Enabled k ∧ op.exec k = .ok k'

def Safe (k : Kernel) : TaskOp → Prop
  | unblockTask t => k.firstThread = none ∨ k.next t = none
  | timeSlice =>
    match k.firstThread with
    | none => k.reapWakes = none
    | some t => k.next t = none → k.reapWakes ≠ none
  | blockTask _ | procExit =>
    ∀ p, k.reapWakes = some p → k.firstThread = none ∨ k.next p = none
  | ckprocA _ _ _ | leaveIdle => True

end TaskOp

variable {k k' : Kernel} {r : List Tid} {q : Option Tid} {c p t : Tid}

theorem ckprocA_ok {M : Tid} {M2 cr3 : UInt64} (hk : k.ckprocA M M2 cr3 = .ok k') :
    ∃ cur, k.currentTaskTCB = some cur ∧
      ((k.firstThread = none ∧ k' = { k.initTask cur M M2 cr3 with
          firstThread := some M, lastThread := some M }) ∨
        ∃ f l, k.firstThread = some f ∧ k.lastThread = some l ∧
          k' = { (k.initTask cur M M2 cr3).setNext l (some M) with lastThread := some M }) := by
  unfold Kernel.ckprocA at hk
  cases hc : k.currentTaskTCB with
  | none => simp [hc] at hk
  | some cur =>
      simp only [hc] at hk
      refine ⟨cur, rfl, ?_⟩
      cases hf : k.firstThread with
      | none =>
          have hf' : (k.initTask cur M M2 cr3).firstThread = none := hf
          rw [hf', Except.ok.injEq] at hk
          exact Or.inl ⟨rfl, hk.symm⟩
      | some f =>
          have hf' : (k.initTask cur M M2 cr3).firstThread = some f := hf
          rw [hf'] at hk
          cases hl : k.lastThread with
          | none => simp [Kernel.appendThread, Kernel.initTask, Kernel.appendChild, hl] at hk
          | some l =>
              have hl' : (k.initTask cur M M2 cr3).lastThread = some l := hl
              simp only [Kernel.appendThread, hl', Except.ok.injEq] at hk
              exact Or.inr ⟨f, l, rfl, rfl, hk.symm⟩

/-- The tables of a new task do not depend on the branch taken for the list. -/
theorem TaskInv.initTask {cur M : Tid} {M2 cr3 : UInt64} {first last : Option Tid}
    {next' : Tid → Option Tid} (h : TaskInv k) (hc : k.currentTaskTCB = some cur)
    (hM : M ∉ k.allocated) (hnext : ∀ d, k.deadTasks = some d → next' d = k.next d) :
    TaskInv { k.initTask cur M M2 cr3 with
      firstThread := first, lastThread := last, next := next' } := by
  obtain ⟨hca, hrun⟩ := h.running cur hc
  have hne : ∀ t ∈ k.allocated, t ≠ M := fun t ht he => hM (he ▸ ht)
  refine ⟨⟨h.postpone, h.flag, ?_, ?_⟩, ?_, ?_⟩
  · intro t ht p htp
    change p ∈ M :: k.allocated ∨ _
    by_cases htM : t = M
    · subst htM
      have : p = cur := by simpa [Kernel.initTask, Kernel.appendChild] using htp.symm
      exact Or.inl (List.mem_cons_of_mem _ (this ▸ hca))
    · have hta : t ∈ k.allocated := (List.mem_cons.mp ht).resolve_left htM
      have hkp : k.parent t = some p := by
        simpa [Kernel.initTask, Kernel.appendChild, htM] using htp
      by_cases hpM : p = M
      · exact Or.inl (by simp [hpM])
      · rcases h.parents t hta p hkp with hp | hp
        · exact Or.inl (List.mem_cons_of_mem _ hp)
        · exact Or.inr (hp.congr (Function.update_of_ne hpM _ _))
  · intro d hd
    obtain ⟨hda, hg, hn⟩ := h.corpse d hd
    refine ⟨List.mem_cons_of_mem _ hda, hg.congr (Function.update_of_ne (hne d hda) _ _), ?_⟩
    exact (hnext d hd).trans hn
  · intro d hd
    obtain rfl : cur = d := Option.some.inj (hc.symm.trans hd)
    exact ⟨List.mem_cons_of_mem _ hca, (Function.update_of_ne (hne cur hca) _ _).trans hrun⟩
  · intro hn
    have hn' : k.currentTaskTCB = none := hn
    rw [hc] at hn'
    cases hn'

/-- A new task goes to the end of the queue, which it ends. -/
theorem ckprocA_queue {M : Tid} {M2 cr3 : UInt64} (h : TaskInv k) (hq : QueueSeg k r none)
    (hM : M ∉ k.allocated) (hk : k.ckprocA M M2 cr3 = .ok k') :
    TaskInv k' ∧ QueueSeg k' (r ++ [M]) none := by
  obtain ⟨cur, hc, hcase⟩ := ckprocA_ok hk
  have hne : ∀ t ∈ k.allocated, t ≠ M := fun t ht he => hM (he ▸ ht)
  have hMr : M ∉ r := fun hm => hM (hq.ready M hm).1
  have hready : ∀ x ∈ r ++ [M],
      x ∈ M :: k.allocated ∧ Function.update k.state M .ready x = .ready := by
    intro x hx
    by_cases hxM : x = M
    · simp [hxM]
    · obtain ⟨hxa, hxs⟩ := hq.ready x (by simpa [hxM] using hx)
      exact ⟨List.mem_cons_of_mem M hxa, (Function.update_of_ne hxM _ _).trans hxs⟩
  have hnd : (r ++ [M]).Nodup := by
    rw [List.nodup_append]
    refine ⟨hq.nodup, List.nodup_singleton M, ?_⟩
    rintro a ha b hb rfl
    exact hMr (List.mem_singleton.mp hb ▸ ha)
  have hnextd : ∀ d, k.deadTasks = some d → Function.update k.next M none d = k.next d :=
    fun d hd => Function.update_of_ne (hne d (h.corpse d hd).1) _ _
  rcases hcase with ⟨hf, rfl⟩ | ⟨f, l, hf, hl, rfl⟩
  · obtain rfl := hq.first_none.mp hf
    refine ⟨h.initTask hc hM hnextd, ?_, hnd, hready, fun _ => rfl, by simp⟩
    exact seg_cons.mpr ⟨rfl, Function.update_self M _ _⟩
  · have hrne : r ≠ [] := fun he => by simp [hq.first_none.mpr he] at hf
    obtain ⟨s, rfl⟩ := hq.exists_last hl hrne
    have hls : l ∉ s := by
      intro hm
      exact (List.nodup_append.mp hq.nodup).2.2 l hm l List.mem_cons_self rfl
    have hlM : M ≠ l := fun he => hMr (by simp [he])
    refine ⟨h.initTask hc hM ?_, ?_, hnd, hready, by simp, by simp⟩
    · intro d hd
      have hdl : d ≠ l := fun he => (h.corpse d hd).2.1.not_ready
        (he ▸ (hq.ready l (by simp)).2)
      exact (Function.update_of_ne hdl _ _).trans (hnextd d hd)
    · refine seg_concat.mpr ⟨?_, ?_⟩
      · exact seg_snoc ((seg_update_of_notMem hMr).mpr hq.seg) hls
      · exact (Function.update_of_ne hlM _ _).trans (Function.update_self M _ _)

theorem ckprocA_spec {M : Tid} {M2 cr3 : UInt64} (h : TaskInv k) (hr : ReadyList k r)
    (hM : M ∉ k.allocated) (hk : k.ckprocA M M2 cr3 = .ok k') :
    Kept k' := by
  obtain ⟨hI, hQ⟩ := ckprocA_queue h hr.toQueueSeg hM hk
  refine ⟨hI, r ++ [M], hQ, ?_⟩
  have hframe : k'.allocated = M :: k.allocated ∧ k'.state = Function.update k.state M .ready := by
    obtain ⟨cur, -, ⟨-, rfl⟩ | ⟨f, l, -, -, rfl⟩⟩ := ckprocA_ok hk <;> exact ⟨rfl, rfl⟩
  intro x hxa hxs
  rw [hframe.1] at hxa
  rw [hframe.2] at hxs
  by_cases hx : x = M
  · simp [hx]
  · rw [Function.update_of_ne hx] at hxs
    exact List.mem_append_left _ (hr.complete x ((List.mem_cons.mp hxa).resolve_left hx) hxs)

theorem endTimeSlice_ok (hp : k.postponeTaskSwitchesCounter = 0)
    (hk : TaskOp.endTimeSlice k = .ok k') :
    ∃ c un n k₁, k.currentTaskTCB = some c ∧
      { k with
        stackUnlocks := un
        irqDisableCounter := n
        postponeTaskSwitchesCounter := 0
        taskSwitchesPostponedFlag := false }.schedule = .ok k₁ ∧ k' = k₁.resume := by
  have hlock : k.lockStuff.schedule = .ok { k.lockStuff with taskSwitchesPostponedFlag := true } :=
    Kernel.schedule_postponed (by simp [Kernel.lockStuff, hp])
  rw [TaskOp.endTimeSlice, hlock] at hk
  have hone : k.lockStuff.postponeTaskSwitchesCounter = 1 := by simp [Kernel.lockStuff, hp]
  cases hc : k.currentTaskTCB with
  | none =>
      have hu := Kernel.unlockStuff_idle
        (k := { k.lockStuff with taskSwitchesPostponedFlag := true }) hone rfl hc
      cases hu.symm.trans hk
  | some c =>
      have hu := Kernel.unlockStuff_switch
        (k := { k.lockStuff with taskSwitchesPostponedFlag := true }) hone rfl hc
      obtain ⟨un, k₁, hsch, rfl⟩ :=
        Kernel.scheduleThenUnlock_ok (c := c) (by exact hc) (hu.symm.trans hk)
      refine ⟨c, un, k.irqDisableCounter + 1, k₁, rfl, ?_, rfl⟩
      rw [← hc]
      exact hsch

theorem timeSlice_spec (h : TaskInv k) (hr : ReadyList k r)
    (hk : TaskOp.endTimeSlice k = .ok k') : Outcome (TaskOp.Safe k .timeSlice) k' := by
  obtain ⟨c, un, n, k₁, hc, hsch, rfl⟩ := endTimeSlice_ok h.postpone hk
  obtain ⟨hca, hrun⟩ := h.running c hc
  have hT : Tables { k with
      stackUnlocks := un
      irqDisableCounter := n
      postponeTaskSwitchesCounter := 0
      taskSwitchesPostponedFlag := false } := ⟨rfl, rfl, h.parents, h.corpse⟩
  have hR : ReadyList { k with
      stackUnlocks := un
      irqDisableCounter := n
      postponeTaskSwitchesCounter := 0
      taskSwitchesPostponedFlag := false } r := hr.frame rfl rfl rfl rfl rfl
  obtain ⟨-, hout⟩ := schedule_spec hT hR hc hca (h.corpse_ne hc) hsch
  refine (hout.imp ?_).resume
  rw [Kernel.SafeSchedule, if_pos hrun]
  rfl

theorem leaveIdle_spec (h : TaskInv k) (hr : ReadyList k r) (hn : k.currentTaskTCB = none)
    (hk : k.leaveIdle = .ok k') : Kept k' := by
  unfold Kernel.leaveIdle at hk
  cases hi : k.idleTask with
  | none => simp [hi] at hk
  | some c =>
    cases r with
    | nil => simp [hi, hr.first_none.mpr rfl] at hk
    | cons t r =>
      have hf : k.firstThread = some t := (seg_cons.mp hr.seg).1
      obtain ⟨hta, hts⟩ := (hr.mem t).mp List.mem_cons_self
      have htg : ¬ k.Gone t := fun hg => hg.not_ready hts
      have hrun := h.idle hn c hi
      simp only [hi, hf] at hk
      set k₀ : Kernel := { k with
        currentTaskTCB := some c, idleTask := none, firstThread := k.next t } with hk₀
      have hT : Tables k₀ := ⟨h.postpone, h.flag, h.parents, h.corpse⟩
      have hR : ∀ w, ReadyList ((k₀.handOver t).withFrame w) r := by
        intro w
        have hR := hr.handOver (fun _ => rfl)
        exact hR.frame rfl rfl rfl rfl rfl
      have hdone : ∀ w, Outcome True ((k₀.handOver t).withFrame w).resume :=
        fun w => Outcome.resume (Or.inl ⟨trivial, TaskInv.handOver hT htg hta w, r, hR w⟩)
      have hgoal : Outcome True k' := by
        split at hk
        · split at hk
          · cases hk
          · rename_i k₁ hsw
            rw [Except.ok.injEq] at hk
            subst hk
            obtain ⟨-, slot, word, ⟨-, rfl⟩ | ⟨hrun', -⟩⟩ :=
              Kernel.switchToTaskWrapper_ok (c := c) (by exact h.postpone) rfl hsw
            · exact hdone _
            · exact absurd hrun' hrun
        · rename_i hct
          obtain rfl := not_not.mp hct
          rw [Except.ok.injEq] at hk
          subst hk
          exact hdone ⟨k.rsp0, k.timeUsed, k.timeSliceRemaining, k.lastCount, k.iopl, k.tssRsp0,
            k.pml4Slot0, k.cr3Word⟩
      rcases hgoal with ⟨-, hgood⟩ | ⟨hbad, -⟩
      · exact hgood
      · exact absurd trivial hbad

theorem TaskState.Blocked.not_gone (hb : (k.state t).Blocked) : ¬ k.Gone t := by
  rintro (hg | hg) <;> simp [hg, TaskState.Blocked] at hb

theorem TaskInv.wake (h : TaskInv k) (hq : QueueSeg k r q) (hb : (k.state t).Blocked)
    (hk : k.unblockTask t = .ok k') : TaskInv k' := by
  have hT := h.toTables.unblockTask hq hb.not_gone hk
  have hframe : k'.currentTaskTCB = k.currentTaskTCB ∧ k'.idleTask = k.idleTask ∧
      k'.allocated = k.allocated ∧ k'.state = Function.update k.state t .ready := by
    obtain ⟨-, -, ⟨-, rfl⟩ | ⟨f, l, -, -, rfl⟩⟩ := Kernel.unblockTask_ok hk <;>
      exact ⟨rfl, rfl, rfl, rfl⟩
  obtain ⟨hcur, hidle, hal, hst⟩ := hframe
  refine ⟨hT, ?_, ?_⟩
  · intro c hc
    rw [hcur] at hc
    obtain ⟨hca, hrun⟩ := h.running c hc
    have hct : c ≠ t := fun he => by rw [← he, hrun] at hb; exact hb
    rw [hal, hst, Function.update_of_ne hct]
    exact ⟨hca, hrun⟩
  · rw [hcur, hidle]
    intro hn c hc
    rw [hst]
    by_cases hct : c = t
    · simp [hct]
    · rw [Function.update_of_ne hct]
      exact h.idle hn c hc

theorem unblockTask_spec (h : TaskInv k) (hr : ReadyList k r) (ht : t ∈ k.allocated)
    (hb : (k.state t).Blocked) (hk : k.unblockTask t = .ok k') :
    Outcome (TaskOp.Safe k (.unblockTask t)) k' := by
  have hI := h.wake hr.toQueueSeg hb hk
  have hR := hr.wake ht hk
  by_cases hf : k.firstThread = none
  · rw [if_pos hf] at hR
    exact Or.inl ⟨Or.inl hf, hI, _, hR⟩
  rw [if_neg hf] at hR
  cases hn : k.next t with
  | none =>
      rw [hn] at hR
      exact Or.inl ⟨Or.inr hn, hI, _, hR⟩
  | some x =>
      rw [hn] at hR
      refine Or.inr ⟨?_, hR.not_wellFormed⟩
      rintro (hs | hs)
      · exact hf hs
      · rw [hn] at hs
        cases hs

/-- One step keeps the lists exactly if it is safe. -/
theorem step_outcome {op : TaskOp} (h : TaskInv k) (hr : ReadyList k r)
    (hs : TaskOp.step k op k') : Outcome (op.Safe k) k' := by
  obtain ⟨hen, hk⟩ := hs
  cases op with
  | ckprocA M M2 cr3 => exact Or.inl ⟨trivial, ckprocA_spec h hr hen hk⟩
  | blockTask reason =>
      simp only [TaskOp.exec, Kernel.blockTask] at hk
      cases hc : k.currentTaskTCB with
      | none => simp [hc] at hk
      | some c =>
          simp only [hc] at hk
          obtain ⟨un, k₁, hsch, rfl⟩ := Kernel.scheduleThenUnlock_ok (c := c) (by exact hc) hk
          have hreason : reason ≠ .ready ∧ reason ≠ .running := by
            constructor <;> rintro rfl <;> exact hen
          exact (giveUp_spec h hr hc hreason hsch).resume
  | unblockTask t => exact unblockTask_spec h hr hen.1 hen.2 hk
  | timeSlice => exact timeSlice_spec h hr hk
  | procExit =>
      simp only [TaskOp.exec, Kernel.procExit] at hk
      cases hc : k.currentTaskTCB with
      | none => simp [hc] at hk
      | some c =>
          simp only [hc] at hk
          split at hk
          · cases hk
          · rename_i k₁ hsch
            rw [Except.ok.injEq] at hk
            subst hk
            have hdead : { k.setState c .dead with
                stackUnlocks := k.stackUnlocks
                irqDisableCounter := k.irqDisableCounter }.schedule = .ok k₁ := by
              rw [← hsch]
              simp [Kernel.setState, Kernel.lockScheduler, Kernel.unlockScheduler]
            exact (giveUp_spec h hr hc (by simp) hdead).resume
  | leaveIdle => exact Or.inl ⟨trivial, leaveIdle_spec h hr hen hk⟩

theorem boot_taskInv (junk : Kernel) (t : Tid) (cr3 : UInt64) :
    TaskInv (junk.initializeMultitasking t cr3) ∧
      ReadyList (junk.initializeMultitasking t cr3) [] := by
  refine ⟨⟨⟨rfl, rfl, ?_, fun d hd => by cases hd⟩, ?_, fun hn => by cases hn⟩,
    ReadySeg.of_mem rfl List.nodup_nil ?_ (fun hne => absurd rfl hne) (fun _ => rfl)⟩
  · intro x hx p hp
    obtain rfl := List.mem_singleton.mp hx
    simp [Kernel.initializeMultitasking] at hp
  · intro c hc
    obtain rfl : t = c := Option.some.inj hc
    exact ⟨List.mem_singleton_self t, Function.update_self t _ _⟩
  · intro x
    simp only [Kernel.initializeMultitasking, List.not_mem_nil, List.mem_singleton, false_iff]
    rintro ⟨rfl, hx⟩
    rw [Function.update_self] at hx
    cases hx

theorem step_deterministic (k : Kernel) (op : TaskOp) (k₁ k₂ : Kernel)
    (h₁ : TaskOp.step k op k₁) (h₂ : TaskOp.step k op k₂) : k₁ = k₂ :=
  Except.ok.inj (h₁.2.symm.trans h₂.2)

/-- The invariant at the end of a run whose steps are all safe. -/
theorem safe_run_inv {ls : List TaskOp} (h : TaskInv k) (hr : ReadyList k r)
    (hrun : Run (Guarded TaskOp.Safe TaskOp.step) k ls k') : Kept k' := by
  have hstep : ∀ k op k', Kept k → TaskOp.Safe k op → TaskOp.step k op k' → Kept k' := by
    intro k op k' hinv hsafe hstep
    obtain ⟨hT, r, hr⟩ := hinv
    rcases step_outcome hT hr hstep with ⟨-, hgood⟩ | ⟨hbad, -⟩
    · exact hgood
    · exact absurd hsafe hbad
  exact run_invariant hstep hrun ⟨h, r, hr⟩

/-- Along a run of the scheduler from boot, the ready list is right in every state exactly if
every step is taken where it is safe. -/
theorem ready_list_wellFormed_iff_safe (junk : Kernel) (t : Tid) (cr3 : UInt64)
    (ls : List TaskOp) (k : Kernel)
    (h : Run TaskOp.step (junk.initializeMultitasking t cr3) ls k) :
    (∀ pre post k', ls = pre ++ post →
        Run TaskOp.step (junk.initializeMultitasking t cr3) pre k' → WellFormedReadyList k') ↔
      Run (Guarded TaskOp.Safe TaskOp.step) (junk.initializeMultitasking t cr3) ls k := by
  obtain ⟨hT, hr⟩ := boot_taskInv junk t cr3
  constructor
  · intro hall
    have hfirst : Run (Guarded TaskOp.Safe TaskOp.step) _ ls k ∨ _ := run_guarded_or_first_bad h
    rcases hfirst with hgood | ⟨pre, op, post, k₁, k₂, rfl, hpre, hbad, hstep⟩
    · exact hgood
    · obtain ⟨hT₁, r₁, hr₁⟩ := safe_run_inv hT hr hpre
      rcases step_outcome hT₁ hr₁ hstep with ⟨hsafe, -⟩ | ⟨-, hwrong⟩
      · exact absurd hsafe hbad
      · have hrun := run_concat.mpr ⟨k₁, run_of_guarded hpre, hstep⟩
        exact absurd (hall (pre ++ [op]) post k₂ (by simp) hrun) hwrong
  · rintro hgood pre post k' rfl hpre
    obtain ⟨k₁, hpre₁, -⟩ := run_append.mp hgood
    obtain rfl := run_unique step_deterministic hpre (run_of_guarded hpre₁)
    obtain ⟨-, r', hr'⟩ := safe_run_inv hT hr hpre₁
    exact wellFormed_of_readyList hr'

/-- The boot task creates one task, whose two pages are the first free ones, and its time slice
ends: the popped task is appended to itself, and the boot task is ready on no list. -/
theorem ready_list_broken_by_time_slice : ¬ ∀ (junk : Kernel) (t : Tid) (cr3 : UInt64)
    (ls : List TaskOp) (k : Kernel),
    Run TaskOp.step (junk.initializeMultitasking t cr3) ls k → WellFormedReadyList k := by
  intro hall
  have hrun : ∃ k, Run TaskOp.step (Kernel.zeroed.initializeMultitasking 1 0x1000)
      [.ckprocA 2 0x2000 0x3000, .timeSlice] k ∧
      k.firstThread = none ∧ 1 ∈ k.allocated ∧ k.state 1 = .ready := by
    refine ⟨_, Run.cons ⟨?_, rfl⟩ (Run.cons ⟨trivial, rfl⟩ (Run.nil _)), ?_⟩
    · simp [TaskOp.Enabled, Kernel.initializeMultitasking]
    · refine ⟨rfl, by decide, rfl⟩
  obtain ⟨k, hk, hf, hm, hs⟩ := hrun
  obtain ⟨r, hr, -, hmem, -⟩ := hall _ _ _ _ _ hk
  rw [hf, chain_none] at hr
  subst hr
  exact List.not_mem_nil ((hmem 1).mpr ⟨hm, hs⟩)

/-- A run of safe steps: two tasks are created, and the boot task is preempted by the first. -/
theorem ready_list_wellFormed_two_tasks : ∃ k,
    Run TaskOp.step (Kernel.zeroed.initializeMultitasking 1 0x1000)
      [.ckprocA 2 0x2000 0x3000, .ckprocA 3 0x4000 0x5000, .timeSlice] k ∧
    ∀ pre post k', [.ckprocA 2 0x2000 0x3000, .ckprocA 3 0x4000 0x5000, .timeSlice] = pre ++ post →
      Run TaskOp.step (Kernel.zeroed.initializeMultitasking 1 0x1000) pre k' →
      WellFormedReadyList k' := by
  have hrun : ∃ k, Run (Guarded TaskOp.Safe TaskOp.step)
      (Kernel.zeroed.initializeMultitasking 1 0x1000)
      [.ckprocA 2 0x2000 0x3000, .ckprocA 3 0x4000 0x5000, .timeSlice] k := by
    refine ⟨_, Run.cons ⟨trivial, ?_, rfl⟩ (Run.cons ⟨trivial, ?_, rfl⟩
      (Run.cons ⟨?_, trivial, rfl⟩ (Run.nil _)))⟩
    · exact (by decide : (2 : Tid) ∉ [1])
    · exact (by decide : (3 : Tid) ∉ [2, 1])
    · intro hn
      cases hn
  obtain ⟨k, hk⟩ := hrun
  have hk' := run_of_guarded hk
  exact ⟨k, hk', (ready_list_wellFormed_iff_safe Kernel.zeroed 1 0x1000 _ k hk').mpr hk⟩

end UnnamedOS.Proc
