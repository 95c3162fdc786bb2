import UnnamedOS.Lib.Run
import UnnamedOS.Proc.Wakeups

/-!
# Blocking is atomic outside the windows

The wakers that never switch tasks, and the runs. Where a waker comes into the window between
an unlock and `block_task`, the timer interrupt stops the kernel.
-/

namespace UnnamedOS.Proc

open UnnamedOS.Lib

variable {s s' : WaitState} {r sl il W : List Tid} {c t : Tid} {op : WaitOp}

theorem deviceIrq_good {irq : UInt8} (h : BlockInv s r sl il)
    (hen : WaitOp.Enabled s (.deviceIrq irq)) (hs : WaitOp.Safe s (.deviceIrq irq)) :
    Good s (.deviceIrq irq) := by
  obtain ⟨hp, hplace⟩ := h.not_locked hen
  obtain ⟨hwin, htail⟩ := hs
  have hpend : ∀ c, s.kernel.currentTaskTCB = some c → ¬ (s.pc c).Pending .irq := by
    intro c hc hpend
    rcases hplace c hc with hu | ⟨reason, hw⟩
    · rw [hu] at hpend
      rcases hpend with hx | hx <;> cases hx
    · obtain rfl := hpend.unique (Or.inr hw)
      exact hwin c hc hw
  have hl := h.queueLists hpend
  obtain ⟨k₂, irqs, hk, hirqs, hw⟩ := unblockirq_spec irq hl hp h.counters.flag
  obtain ⟨Q, rfl⟩ := hw.rest.exists_queues
  let s₁ : WaitState := { s with
    kernel := (s.kernel.lockStuff.withQueues Q).release s.kernel.timeSliceRemaining irqs }
  have hex : WaitOp.exec s (.deviceIrq irq) = .ok s₁ := by
    simp [WaitOp.exec, WaitState.withKernel, hk, s₁]
  have hdue : ∀ x ∈ il, x ∈ il.filter (s.kernel.waitsFor irq) ↔ s.kernel.waitsFor irq x = true := by
    intro x hx
    simp [hx]
  obtain ⟨hpub, hpl⟩ := h.woken s₁ sl _ ⟨rfl, rfl⟩ hw.state
    (fun x => (and_iff_left_of_imp fun hx hm =>
      h.sleeping_not_irq hx (List.mem_of_mem_filter hm)).symm)
    (mem_kept hdue)
    (fun x hx => ⟨.irq, by decide, hl.waiting x (List.mem_of_mem_filter hx)⟩) rfl rfl rfl
    (fun hn => (h.idle hn).1)
  refine Or.inl ⟨s₁, r ++ il.filter (s.kernel.waitsFor irq), sl, _, hex,
    ⟨hpub, hpl, ?_, hw.sleepers, hw.irqs, ?_⟩, ?_, ?_⟩
  · have hq := hw.queue
    rw [staleTail_clean (k := s.kernel.lockStuff) (h.ready.frame rfl rfl rfl rfl rfl)
      (htail il h.irqs)] at hq
    exact hq.frame rfl rfl rfl rfl rfl
  · exact h.counters.frame rfl rfl rfl rfl hp.symm (Int.add_sub_cancel _ _) rfl
  · have hun := h.untouched_wakes hw rfl rfl rfl fun x hx => Or.inr (List.mem_of_mem_filter hx)
    exact ⟨hun.blocked, hun.ready, hun.allocated⟩
  · intro il₂ hil₂
    rw [chain_unique hil₂ h.irqs]
    constructor
    · intro x hx hd
      exact Or.inr ((hw.state x).trans (if_pos (List.mem_filter.mpr ⟨hx, hd⟩)))
    · intro hnone
      have hany : il.any (s.kernel.waitsFor irq) = false := List.any_eq_false.mpr fun x hx => by
        rw [hnone x hx]
        decide
      rw [hany] at hirqs
      exact hirqs

/-- A waker that may poke finds the task in the slot blocked. -/
theorem BlockInv.poked_blocked {a : Nat} (h : BlockInv s r sl il)
    (hc : s.kernel.currentTaskTCB = some c) (hpc : s.pc c = .user) (ha : s.slot a = some t)
    (hwin : s.pc t ≠ .window .poke) :
    t ∈ s.kernel.allocated ∧ s.kernel.state t = .waitingForPoke := by
  rcases (h.poked t).mp ⟨a, ha⟩ with hw | hp
  · exact hw
  · exfalso
    rcases h.pcs t with hx | hx | hx
    · rw [hx] at hp
      rcases hp with hp | hp <;> cases hp
    · exact hwin hx
    · rw [Option.some.inj (hx.symm.trans hc), hpc] at hp
      rcases hp with hp | hp <;> cases hp

/-- A locked section that does nothing. -/
theorem BlockInv.relock (h : BlockInv s r sl il) (hc : s.kernel.currentTaskTCB = some c)
    (hpc : s.pc c = .user) :
    BlockInv { s with kernel := s.kernel.lockStuff.unlocked } r sl il := by
  have hp := (h.counters.postpone c hc).1
  rw [hpc] at hp
  refine ⟨?_, ⟨h.pcs, h.preempted, h.running, h.idle⟩, ?_, h.sleepers, h.irqs, ?_⟩
  · exact h.toPublished.congr (fun x reason => WaitState.waits_congr rfl rfl (Or.inl rfl)) rfl
  · exact h.ready.frame rfl rfl rfl rfl rfl
  · exact h.counters.frame rfl rfl rfl rfl hp.symm (Int.add_sub_cancel _ _) rfl

/-- A locked section of the running task in which it has woken `t`. -/
structure WokenOne (s : WaitState) (r : List Tid) (t : Tid) (s' : WaitState) : Prop where
  places : Places s'
  counters : Counters s'
  queue : QueueSeg s'.kernel (r ++ [t]) none
  waits : ∀ x reason, s'.Waits x reason ↔ s.Waits x reason ∧ x ≠ t
  state : ∀ x, s'.kernel.state x = if x = t then .ready else s.kernel.state x
  next : ∀ x, x ≠ t → x ∉ r → s'.kernel.next x = s.kernel.next x
  sleepers : s'.kernel.sleepingTaskList = s.kernel.sleepingTaskList
  irqs : s'.kernel.irqwaiting = s.kernel.irqwaiting
  current : s'.kernel.currentTaskTCB = s.kernel.currentTaskTCB
  allocated : s'.kernel.allocated = s.kernel.allocated

theorem BlockInv.wakeOne (h : BlockInv s r sl il) (hc : s.kernel.currentTaskTCB = some c)
    (hpc : s.pc c = .user) (hta : t ∈ s.kernel.allocated) (hts : ¬ s.Runnable t)
    (hclean : s.kernel.firstThread = none ∨ s.kernel.next t = none) :
    ∃ k', s.kernel.lockStuff.unblockTask t = .ok k' ∧ k'.unlockStuff = .ok k'.unlocked ∧
      ∀ slot, WokenOne s r t ⟨k'.unlocked, s.pc, slot⟩ := by
  have hp := (h.counters.postpone c hc).1
  rw [hpc] at hp
  have hp₁ : s.kernel.lockStuff.postponeTaskSwitchesCounter = 1 := by
    change s.kernel.postponeTaskSwitchesCounter + 1 = 1
    rw [hp]
    rfl
  obtain ⟨k₂, hk₂, hw⟩ := unblockTask_woken (k := s.kernel.lockStuff) (t := t)
    (h.ready.frame rfl rfl rfl rfl rfl) hta
    ⟨fun hs => hts (Or.inl hs), fun hs => hts (Or.inr hs)⟩
  obtain ⟨Q, rfl⟩ := hw.rest.exists_queues
  refine ⟨_, hk₂, Kernel.unlockStuff_plain (k := s.kernel.lockStuff.withQueues Q) hp₁
    h.counters.flag, fun slot => ?_⟩
  let s₁ : WaitState := ⟨(s.kernel.lockStuff.withQueues Q).unlocked, s.pc, slot⟩
  have hstate : ∀ x, s₁.kernel.state x = if x ∈ [t] then .ready else s.kernel.state x := by
    intro x
    have hx : s₁.kernel.state x = Function.update s.kernel.state t .ready x :=
      congrFun hw.state x
    rw [hx, Function.update_apply]
    simp only [List.mem_singleton]
  obtain ⟨hwaits, hpl⟩ := h.waits_woken s₁ rfl hstate
    (fun x hx => by rw [List.mem_singleton.mp hx]; exact hts) rfl rfl rfl
    (fun hn => absurd (hc.symm.trans hn) (by simp))
  refine ⟨hpl, h.counters.frame rfl rfl rfl rfl hp.symm (Int.add_sub_cancel _ _) rfl, ?_, ?_, ?_,
    hw.next, hw.head .sleeping, hw.head .irq, rfl, rfl⟩
  · have hq := hw.queue
    have htail : (if r = [] then none else s.kernel.lockStuff.next t) = none := by
      rcases hclean with hf | hn
      · rw [if_pos (h.ready.first_none.mp hf)]
      · exact ite_eq_left_iff.mpr fun _ => hn
    rw [htail] at hq
    exact hq.frame rfl rfl rfl rfl rfl
  · intro x reason
    rw [hwaits, List.mem_singleton]
  · intro x
    rw [show (⟨(s.kernel.lockStuff.withQueues Q).unlocked, s.pc, slot⟩ : WaitState).kernel.state x =
      if x ∈ [t] then .ready else s.kernel.state x from hstate x]
    simp only [List.mem_singleton]

namespace WokenOne

/-- The lists of the scheduler do not hold `t` and stay. -/
theorem chain {p : Option Tid} {L : List Tid} (hw : WokenOne s r t s')
    (hL : Chain s.kernel.next p L) (hnot : ∀ x ∈ L, x ≠ t ∧ x ∉ r) : Chain s'.kernel.next p L := by
  refine (chain_congr fun x hx => ?_).mpr hL
  obtain ⟨hxt, hxr⟩ := hnot x hx
  exact hw.next x hxt hxr

theorem untouched (hw : WokenOne s r t s') (h : BlockInv s r sl il)
    (hx : ∀ x, s.kernel.state x = .waitingForLock → x ≠ t) : Untouched s.kernel s'.kernel := by
  refine ⟨fun x hs => ?_, fun x hs => Or.inl ?_, hw.allocated⟩
  · have hxt := hx x hs
    rw [hw.state, if_neg hxt]
    exact ⟨hs, hw.next x hxt (h.lock_not_listed hs).1⟩
  · rw [hw.state, hs, ite_self]

theorem waits_of_not {reason : Reason} {x : Tid} (hw : WokenOne s r t s')
    (ht : ¬ s.Waits t reason) : s'.Waits x reason ↔ s.Waits x reason := by
  rw [hw.waits]
  refine and_iff_left_of_imp fun hx he => ht ?_
  rwa [← he]

/-- The lists of the scheduler, when `t` was on none. -/
theorem lists (hw : WokenOne s r t s') (h : BlockInv s r sl il)
    (hsl : ¬ s.Waits t .sleep) (hil : ¬ s.Waits t .irq) :
    Chain s'.kernel.next s'.kernel.sleepingTaskList sl ∧
      Chain s'.kernel.next s'.kernel.irqwaiting il := by
  constructor
  · rw [hw.sleepers]
    refine hw.chain h.sleepers fun x hx => ⟨fun he => ?_, fun hr => (h.ready_not_listed hr).1 hx⟩
    exact hsl ((h.sleeping t).mp (he ▸ hx))
  · rw [hw.irqs]
    refine hw.chain h.irqs fun x hx => ⟨fun he => ?_, fun hr => (h.ready_not_listed hr).2 hx⟩
    exact hil ((h.waiting t).mp (he ▸ hx))

end WokenOne

theorem pokeT_good {p : Option Nat} (h : BlockInv s r sl il)
    (hen : WaitOp.Enabled s (.pokeT p)) (hs : WaitOp.Safe s (.pokeT p)) : Good s (.pokeT p) := by
  obtain ⟨c, hc, hpc⟩ := hen
  have hp := (h.counters.postpone c hc).1
  rw [hpc] at hp
  have hp₁ : s.kernel.lockStuff.postponeTaskSwitchesCounter = 1 := by
    change s.kernel.postponeTaskSwitchesCounter + 1 = 1
    rw [hp]
    rfl
  have hex : WaitOp.exec s (.pokeT p) = s.pokeT p := by
    simp [WaitOp.exec]
  cases p with
  | none =>
      refine Or.inr ⟨.error .pokeNullp 0, hex, ?_⟩
      intro hm
      obtain ⟨t, hm | hm | hm⟩ := hm <;> cases hm
  | some a =>
      rcases Option.eq_none_or_eq_some (s.slot a) with hslot | ⟨t, hslot⟩
      · let s₁ : WaitState := { s with kernel := s.kernel.lockStuff.unlocked }
        refine Or.inl ⟨s₁, r, sl, il, ?_, h.relock hc hpc, .of_eq rfl rfl rfl, ?_⟩
        · rw [hex, WaitState.pokeT, hslot]
          simp only [Kernel.unlockStuff_plain (k := s.kernel.lockStuff) hp₁ h.counters.flag]
          rfl
        · intro b t hb ht
          obtain rfl := Option.some.inj hb
          rw [hslot] at ht
          cases ht
      · obtain ⟨hwin, hclean⟩ := hs a t rfl hslot
        obtain ⟨hta, hts⟩ := h.poked_blocked hc hpc hslot hwin
        have hrun : ¬ s.Runnable t := by
          intro hr
          rcases hr with hr | hr <;> rw [hts] at hr <;> cases hr
        obtain ⟨k', hk', hunlock, hone⟩ := h.wakeOne hc hpc hta hrun hclean
        let s₁ : WaitState := ⟨k'.unlocked, s.pc, Function.update s.slot a none⟩
        have hw : WokenOne s r t s₁ := hone _
        have hpoke : s.Waits t .poke := Or.inl ⟨hta, hts⟩
        have hsl : ¬ s.Waits t .sleep := fun hx => by cases h.waits_unique hx hpoke
        have hil : ¬ s.Waits t .irq := fun hx => by cases h.waits_unique hx hpoke
        have hcleared : ∀ b x, s₁.slot b = some x ↔ b ≠ a ∧ s.slot b = some x := by
          intro b x
          change Function.update s.slot a none b = some x ↔ _
          by_cases hba : b = a
          · simp [hba]
          · simp [hba]
        obtain ⟨hsleepers, hirqs⟩ := hw.lists h hsl hil
        refine Or.inl ⟨s₁, r ++ [t], sl, il, ?_,
          ⟨⟨?_, ?_, ?_, ?_⟩, hw.places, hw.queue, hsleepers, hirqs, hw.counters⟩,
          hw.untouched h fun x hx he => ?_, ?_⟩
        · rw [hex, WaitState.pokeT, hslot]
          simp only [hk', hunlock]
          rfl
        · exact fun x => (h.sleeping x).trans (hw.waits_of_not hsl).symm
        · exact fun x => (h.waiting x).trans (hw.waits_of_not hil).symm
        · intro x
          rw [hw.waits, ← h.poked]
          constructor
          · intro hx
            obtain ⟨b, hb⟩ := hx
            obtain ⟨hba, hb⟩ := (hcleared b x).mp hb
            exact ⟨⟨b, hb⟩, fun he => hba (h.once b a t (he ▸ hb) hslot)⟩
          · intro hx
            obtain ⟨⟨b, hb⟩, hxt⟩ := hx
            refine ⟨b, (hcleared b x).mpr ⟨fun he => ?_, hb⟩⟩
            rw [he, hslot] at hb
            exact hxt (Option.some.inj hb).symm
        · intro b d x hb hd
          exact h.once b d x ((hcleared b x).mp hb).2 ((hcleared d x).mp hd).2
        · rw [he, hts] at hx
          cases hx
        · intro b x hb hx
          obtain rfl := Option.some.inj hb
          obtain rfl : t = x := Option.some.inj (hslot.symm.trans hx)
          exact ⟨Or.inr ((hw.state t).trans (if_pos rfl)), Function.update_self _ _ _⟩

/-- What every step keeps, errors of other kinds aside. -/
theorem step_good (h : BlockInv s r sl il) (hen : op.Enabled s) (hs : op.Safe s) : Good s op := by
  cases op with
  | lock call => exact lock_good h hen
  | update => exact update_good h hen
  | unlock => exact unlock_good h hen
  | block => exact block_good h hen
  | timer => exact timer_good h hen hs
  | deviceIrq irq => exact deviceIrq_good h hen hs
  | pokeT p => exact pokeT_good h hen hs
  | leaveIdle => exact leaveIdle_good h hen

theorem BlockInv.findsWaiting (h : BlockInv s r sl il) (hen : op.Enabled s) (hs : op.Safe s) :
    op.FindsWaiting s := by
  -- the running task is on no list that the waker looks at
  have hidle : ∀ reason, reason ≠ .poke →
      (s.kernel.irqDisableCounter = 0 ∨ s.kernel.currentTaskTCB = none) →
      (∀ c, s.kernel.currentTaskTCB = some c → s.pc c ≠ .window reason) → ∀ t, s.Waits t reason →
        s.kernel.state t = reason.state := by
    intro reason hr hen hwin t hw
    refine (h.blocked_of_waits reason hr hw fun hc hp => ?_).2
    rcases (h.not_locked hen).2 t hc with hu | ⟨reason', hu⟩
    · rw [hu] at hp
      rcases hp with hp | hp <;> cases hp
    · obtain rfl := hp.unique (Or.inr hu)
      exact hwin t hc hu
  cases op with
  | lock _ | update | unlock | block | leaveIdle => trivial
  | timer =>
      constructor
      · intro sl₂ hsl₂ t ht
        rw [chain_unique hsl₂ h.sleepers, h.sleeping] at ht
        exact hidle .sleep (by decide) hen (fun c hc => (hs.1 c hc).1) t ht
      · intro il₂ hil₂ t ht
        rw [chain_unique hil₂ h.irqs, h.waiting] at ht
        exact hidle .irq (by decide) hen (fun c hc => (hs.1 c hc).2) t ht
  | deviceIrq irq =>
      intro il₂ hil₂ t ht
      rw [chain_unique hil₂ h.irqs, h.waiting] at ht
      exact hidle .irq (by decide) hen hs.1 t ht
  | pokeT p =>
      intro a t ha ht
      obtain ⟨c, hc, hpc⟩ := hen
      exact (h.poked_blocked hc hpc ht (hs a t ha ht).1).2

theorem BlockInv.registered (h : BlockInv s r sl il) : Registered s :=
  ⟨sl, il, h.sleepers, h.irqs, fun t ht => ⟨fun hw => (h.sleeping t).mpr (Or.inl ⟨ht, hw⟩),
    fun hw => (h.waiting t).mpr (Or.inl ⟨ht, hw⟩), fun hw => (h.poked t).mpr (Or.inl ⟨ht, hw⟩)⟩⟩

/-- Some task runs, any others are ready, nobody has begun a call and the counters are zero. -/
structure WaitState.Start (s : WaitState) : Prop where
  irq : s.kernel.irqDisableCounter = 0
  postpone : s.kernel.postponeTaskSwitchesCounter = 0
  flag : s.kernel.taskSwitchesPostponedFlag = false
  dead : s.kernel.deadTasks = none
  running : ∃ c, s.kernel.currentTaskTCB = some c ∧ c ∈ s.kernel.allocated ∧
    s.kernel.state c = .running ∧ s.kernel.stackUnlocks c = 0
  unlocks : ∀ t, s.kernel.stackUnlocks t ≤ 1
  ready : ∃ r, QueueSeg s.kernel r none
  lists : s.kernel.sleepingTaskList = none ∧ s.kernel.irqwaiting = none ∧ ∀ a, s.slot a = none
  blocked : ∀ t ∈ s.kernel.allocated, ∀ reason : Reason, s.kernel.state t ≠ reason.state
  outside : ∀ t, s.pc t = .user

theorem WaitState.Start.blockInv (h : s.Start) : ∃ r, BlockInv s r [] [] := by
  obtain ⟨c, hc, hca, hrun, hu⟩ := h.running
  obtain ⟨r, hr⟩ := h.ready
  have hnobody : ∀ t reason, ¬ s.Waits t reason := by
    intro t reason hw
    rcases hw with hw | hp
    · exact h.blocked t hw.1 reason hw.2
    · rw [h.outside t] at hp
      rcases hp with hp | hp <;> cases hp
  have hcur : ∀ d, s.kernel.currentTaskTCB = some d → c = d :=
    fun d hd => Option.some.inj (hc.symm.trans hd)
  refine ⟨r, ⟨?_, ?_, ?_, ?_⟩, ⟨fun t => Or.inl (h.outside t), ?_, ?_, ?_⟩, hr, h.lists.1,
    h.lists.2.1, ⟨h.flag, h.dead, ?_, ?_, h.unlocks⟩⟩
  · exact fun t => iff_of_false List.not_mem_nil (hnobody t _)
  · exact fun t => iff_of_false List.not_mem_nil (hnobody t _)
  · refine fun t => iff_of_false (fun hs => ?_) (hnobody t _)
    obtain ⟨a, ha⟩ := hs
    rw [h.lists.2.2 a] at ha
    cases ha
  · intro a b t ha _
    rw [h.lists.2.2 a] at ha
    cases ha
  · intro t ht
    rw [h.outside t] at ht
    cases ht
  · intro d hd
    obtain rfl := hcur d hd
    exact ⟨hca, hrun⟩
  · intro hn
    rw [hc] at hn
    cases hn
  · intro d hd
    obtain rfl := hcur d hd
    rw [h.outside c, h.postpone, h.irq]
    exact ⟨rfl, Int.le_refl _, hu⟩
  · intro hn
    rw [hc] at hn
    cases hn

def BlockState (s : WaitState) : Prop := ∃ r sl il, BlockInv s r sl il

/-- What a run of steps outside the windows keeps. -/
theorem blockInv_of_run {ops : List WaitOp} {s₀ : WaitState} (h0 : s₀.Start)
    (h : Run (Guarded WaitOp.Safe WaitOp.step) s₀ ops s) : BlockState s := by
  obtain ⟨r, hr⟩ := h0.blockInv
  have hstep : ∀ (s : WaitState) (op : WaitOp) (s' : WaitState), BlockState s → op.Safe s →
      op.step s s' → BlockState s' := by
    intro s op s' hinv hs hstep
    obtain ⟨r, sl, il, hinv⟩ := hinv
    obtain ⟨hen, hex⟩ := hstep
    rcases step_good hinv hen hs with ⟨s'', r', sl', il', hex', hinv', -, -⟩ | ⟨e, he, -⟩
    · rw [hex] at hex'
      cases hex'
      exact ⟨r', sl', il', hinv'⟩
    · rw [hex] at he
      cases he
  exact run_invariant hstep h ⟨r, [], [], hr⟩

/-- As long as no waker comes into a window and no wake-up leaves a stale pointer behind the
ready list, every blocked task stays where its waker looks, every waker finds blocked tasks
and makes those that are due runnable, and none of the three errors is raised. -/
theorem blocking_atomic_outside_windows {ops : List WaitOp} {s₀ : WaitState} (h0 : s₀.Start)
    (h : Run (Guarded WaitOp.Safe WaitOp.step) s₀ ops s) :
    Registered s ∧ ∀ op : WaitOp, op.Enabled s → op.Safe s → op.FindsWaiting s ∧
      (∀ e, op.exec s = .error e → ¬ Misplaced e) ∧
      ∀ s', op.exec s = .ok s' → op.Delivers s s' := by
  obtain ⟨r, sl, il, hinv⟩ := blockInv_of_run h0 h
  refine ⟨hinv.registered, fun op hen hs => ⟨hinv.findsWaiting hen hs, ?_⟩⟩
  rcases step_good hinv hen hs with ⟨s', -, -, -, hex, -, -, hd⟩ | ⟨e, hex, he⟩
  · refine ⟨fun e' he' => ?_, fun s'' hs'' => ?_⟩
    · rw [hex] at he'
      cases he'
    · rw [hex] at hs''
      cases hs''
      exact hd
  · refine ⟨fun e' he' => ?_, fun s'' hs'' => ?_⟩
    · rw [hex] at he'
      cases he'
      exact he
    · rw [hex] at hs''
      cases hs''

/-- The state left by `initialize_multitasking`, with the boot task 1. -/
def bootWait : WaitState where
  kernel := Kernel.initializeMultitasking Kernel.zeroed 1 0x1000
  pc _ := .user
  slot _ := none

theorem bootWait_start : bootWait.Start where
  irq := rfl
  postpone := rfl
  flag := rfl
  dead := rfl
  running := ⟨1, rfl, List.mem_cons_self, rfl, rfl⟩
  unlocks t := by
    change Function.update (fun _ => 0) 1 0 t ≤ 1
    rw [Function.update_apply]
    split <;> exact Nat.zero_le 1
  ready := ⟨[], rfl, List.nodup_nil, fun _ ht => absurd ht List.not_mem_nil,
    fun h => absurd rfl h, fun _ => rfl⟩
  lists := ⟨rfl, rfl, fun _ => rfl⟩
  blocked t ht reason := by
    obtain rfl := List.mem_singleton.mp ht
    cases reason <;> decide
  outside _ := rfl

/-- The boot task goes to sleep, and the timer interrupt comes before `block_task`. -/
theorem sleep_interrupted_in_window : ∃ s, bootWait.Start ∧
    Run WaitOp.step bootWait [.lock (.nanoSleepUntil 100000000), .update, .unlock] s ∧
    WaitOp.timer.Enabled s ∧ ¬ WaitOp.timer.FindsWaiting s ∧
    WaitOp.timer.exec s = .error (.error .pitWfiMisp 1) := by
  refine ⟨_, bootWait_start, Run.cons ⟨⟨1, rfl, rfl⟩, rfl⟩ (Run.cons ⟨⟨1, _, rfl, rfl⟩, rfl⟩
    (Run.cons ⟨⟨1, rfl, Or.inr ⟨.sleep, rfl⟩⟩, rfl⟩ (Run.nil _))), Or.inl rfl, ?_, rfl⟩
  intro h
  have hw := h.1 [1] ⟨rfl, rfl⟩ 1 List.mem_cons_self
  revert hw
  decide

theorem sleep_to_the_end : ∃ s, Run WaitOp.step bootWait
      [.lock (.nanoSleepUntil 100000000), .update, .unlock, .block] s ∧ Registered s ∧
    s.kernel.state 1 = .waiting := by
  have hrun : Run (Guarded WaitOp.Safe WaitOp.step) bootWait
      [.lock (.nanoSleepUntil 100000000), .update, .unlock, .block] _ :=
    Run.cons ⟨trivial, ⟨1, rfl, rfl⟩, rfl⟩ (Run.cons ⟨trivial, ⟨1, _, rfl, rfl⟩, rfl⟩
      (Run.cons ⟨trivial, ⟨1, rfl, Or.inr ⟨.sleep, rfl⟩⟩, rfl⟩
        (Run.cons ⟨trivial, ⟨1, .sleep, rfl, rfl⟩, rfl⟩ (Run.nil _))))
  exact ⟨_, run_of_guarded hrun, (blocking_atomic_outside_windows bootWait_start hrun).1, rfl⟩

end UnnamedOS.Proc
