import UnnamedOS.Proc.LockBalance

/-!
# CPU time

`update_time_used` is called by `switch_to_task_wrapper` alone. It subtracts `TIME` from `last_count`
and charges the result to `current_task_TCB`, which by then is a task again, also behind the idle
loop.
-/

namespace UnnamedOS.Proc

open UnnamedOS.Lib

/-- The step calls `update_time_used`. The idle loop does not if it returns to its own task. -/
def Micro.Updates (k : Kernel) (m : Micro) : Prop :=
  m.switchesTo k ≠ none ∧ (m = .endIdle → k.firstThread ≠ k.idleTask)

instance (k : Kernel) (m : Micro) : Decidable (m.Updates k) :=
  inferInstanceAs (Decidable (_ ∧ _))

structure Clock extends Balance where
  /-- All amounts that were added to the `time_used` of a task. -/
  charged : UInt64
  /-- The time since the last call of `update_time_used` in which no task was current. -/
  idled : UInt64

def Clock.boot (junk : Kernel) (t : Tid) (cr3 : UInt64) : Clock where
  toBalance := Balance.boot junk t cr3
  charged := 0
  idled := 0

inductive ClockOp where
  | act (op : BalanceOp)
  /-- `PIT_IRQ_handler`. -/
  | timer (woken : List Tid) (slice : Bool)

namespace ClockOp

def tick (k : Kernel) : Kernel := { k with time := k.time + 10000000 }

/-- The amount that was added to the `time_used` of the task on whose stack the processor is. -/
def amount (k k' : Kernel) : UInt64 :=
  match k.context with
  | none => 0
  | some c => k'.timeUsed c - k.timeUsed c

def Updates (s : Clock) : ClockOp → Prop
  | act .advance => ∃ c ∈ s.context, ∃ m ∈ (s.todo c).head?, m.Updates s.kernel
  | act (.ckprocA _ _ _) | act (.call _) | act (.interrupt _ _) | timer _ _ => False

instance (s : Clock) : ∀ op : ClockOp, Decidable (op.Updates s)
  | act .advance => inferInstanceAs (Decidable
      (∃ c ∈ s.context, ∃ m ∈ (s.todo c).head?, m.Updates s.kernel))
  | act (.ckprocA _ _ _) | act (.call _) | act (.interrupt _ _) | timer _ _ =>
    inferInstanceAs (Decidable False)

def exec (s : Clock) (op : ClockOp) : Except Halt Clock :=
  match op with
  | timer woken slice =>
    match BalanceOp.exec { s.toBalance with kernel := tick s.kernel } (.interrupt woken slice) with
    | .error e => .error e
    | .ok b =>
      .ok { s with
        toBalance := b
        idled := if s.kernel.currentTaskTCB = none then s.idled + 10000000 else s.idled }
  | act o =>
    match o.exec s.toBalance with
    | .error e => .error e
    | .ok b =>
      if op.Updates s then .ok ⟨b, s.charged + amount s.kernel b.kernel, 0⟩
      else .ok { s with toBalance := b }

def Enabled (s : Clock) : ClockOp → Prop
  | act op => op.Enabled s.toBalance
  | timer _ _ => True

instance (s : Clock) : ∀ op : ClockOp, Decidable (op.Enabled s)
  | act op => inferInstanceAs (Decidable (op.Enabled s.toBalance))
  | timer _ _ => inferInstanceAs (Decidable True)

def step (s : Clock) (op : ClockOp) (s' : Clock) : Prop := op.Enabled s ∧ op.exec s = .ok s'

/-- After a call of `update_time_used` all of `TIME` is accounted for, and the time in which nobody
ran has been added to `CPU_idle_time`. -/
def Accounted (s : Clock) (op : ClockOp) (s' : Clock) : Prop :=
  op.Updates s → s'.kernel.cpuIdleTime + s'.charged = s'.kernel.time ∧
    s'.kernel.cpuIdleTime - s.kernel.cpuIdleTime = s.idled

/-- Only the task on whose stack the processor is when `update_time_used` is called is charged, and
`charged` counts it. A new task starts from 0. -/
def Charges (s : Clock) (op : ClockOp) (s' : Clock) : Prop :=
  ∀ t, s'.kernel.timeUsed t ≠ s.kernel.timeUsed t →
    (op.Updates s ∧ s.kernel.context = some t ∧
        s'.kernel.timeUsed t = s.kernel.timeUsed t + (s'.charged - s.charged)) ∨
      (∃ M2 cr3, op = act (.ckprocA t M2 cr3)) ∧ s'.kernel.timeUsed t = 0

/-- `TIME` is its own negative, and somebody ran all the time since the last call. -/
def Harmless (s : Clock) (op : ClockOp) : Prop :=
  op.Updates s → s.kernel.time + s.kernel.time = 0 ∧ s.idled = 0

instance (s : Clock) (op : ClockOp) : Decidable (op.Harmless s) :=
  inferInstanceAs (Decidable (op.Updates s → s.kernel.time + s.kernel.time = 0 ∧ s.idled = 0))

end ClockOp

variable {k k' k₁ : Kernel} {c t : Tid} {m : Micro} {s s' : Clock} {op : ClockOp}
  {ops : List ClockOp} {called : Prop}

/-! ## One call -/

structure SameTimes (k k' : Kernel) : Prop where
  time : k'.time = k.time
  lastCount : k'.lastCount = k.lastCount
  idle : k'.cpuIdleTime = k.cpuIdleTime
  used : k'.timeUsed = k.timeUsed

/-- What `update_time_used` does while the task `c` is current. -/
structure Charged (k k' : Kernel) (c : Tid) : Prop where
  time : k'.time = k.time
  lastCount : k'.lastCount = k.time
  idle : k'.cpuIdleTime = k.cpuIdleTime
  used : k'.timeUsed = Function.update k.timeUsed c (k.timeUsed c + (k.lastCount - k.time))

/-- A step by the task `c` that calls `update_time_used`, or does not. -/
structure Timed (k k' : Kernel) (c : Tid) (called : Prop) : Prop where
  charged : called → Charged k k' c
  same : ¬ called → SameTimes k k'

theorem ListsOnly.sameTimes (h : ListsOnly k k') : SameTimes k k' := by
  obtain ⟨L, rfl⟩ := h.exists_lists
  exact ⟨rfl, rfl, rfl, rfl⟩

theorem SameTimes.charged (h : SameTimes k k₁) (h' : Charged k₁ k' c) : Charged k k' c := by
  refine ⟨h'.time.trans h.time, h'.lastCount.trans h.time, h'.idle.trans h.idle, ?_⟩
  rw [h'.used, h.used, h.lastCount, h.time]

theorem SameTimes.timed (h : SameTimes k k') (hno : ¬ called) : Timed k k' c called :=
  ⟨fun hc => absurd hc hno, fun _ => h⟩

theorem wrapper_charged (hp : k.postponeTaskSwitchesCounter = 0) (hc : k.currentTaskTCB = some c)
    (h : k.switchToTaskWrapper t = .ok k') : Charged k k' c := by
  obtain ⟨-, slot, word, ⟨-, rfl⟩ | ⟨-, l, -, rfl⟩⟩ := Kernel.switchToTaskWrapper_ok hp hc h
  · exact ⟨rfl, rfl, rfl, rfl⟩
  · exact ⟨rfl, rfl, rfl, rfl⟩

theorem schedule_timed (hp : k.postponeTaskSwitchesCounter = 0) (hc : k.currentTaskTCB = some c)
    (h : k.schedule = .ok k') : Timed k k' c (k.picked ≠ none) := by
  obtain ⟨k₁, hk₁, ⟨t, ht, hsw⟩ | ⟨hnone, hstay⟩⟩ := schedule_cases hp hc h
  · have hs := hk₁.sameContext
    have hto := wrapper_charged (hs.postpone.trans hp) (hs.current.trans hc) hsw
    exact ⟨fun _ => hk₁.sameTimes.charged hto, fun hno => absurd (by rw [ht]; simp) hno⟩
  · have hsame := hk₁.sameTimes
    refine SameTimes.timed ?_ (not_not.mpr hnone)
    rcases hstay with rfl | rfl
    · exact hsame
    · exact ⟨hsame.time, hsame.lastCount, hsame.idle, hsame.used⟩

theorem not_updates (h : m.switchesTo k = none) : ¬ m.Updates k := fun hu => hu.1 h

theorem updates_iff (h : m ≠ .endIdle) : m.Updates k ↔ m.switchesTo k ≠ none :=
  and_iff_left fun he => absurd he h

theorem scheduleMicro_timed (hctx : k.context = some c) (h : k.schedule = .ok k') :
    Timed k k' c (Micro.Updates k .schedule) := by
  by_cases hp : k.postponeTaskSwitchesCounter = 0
  · obtain ⟨c', hc'⟩ := schedule_context hp h
    obtain rfl := Option.some.inj (hctx.symm.trans (context_of_current hc'))
    have hto := schedule_timed hp hc' h
    rw [updates_iff (by decide), Micro.switchesTo, if_pos hp]
    exact hto
  · rw [Kernel.schedule_postponed hp] at h
    rw [← Except.ok.inj h]
    exact SameTimes.timed ⟨rfl, rfl, rfl, rfl⟩ (not_updates (by rw [Micro.switchesTo, if_neg hp]))

theorem releaseSwitches_timed (hctx : k.context = some c) (h : k.releaseSwitches = .ok k') :
    Timed k k' c (Micro.Updates k .releaseSwitches) := by
  rcases releaseSwitches_cases h with ⟨c', hc', hto, hsch⟩ | ⟨hto, rfl⟩
  · obtain rfl := Option.some.inj (hctx.symm.trans (context_of_current hc'))
    have hs := schedule_timed (k := k.switchesDue) rfl hc' hsch
    have hdue : SameTimes k k.switchesDue := ⟨rfl, rfl, rfl, rfl⟩
    rw [updates_iff (by decide), hto]
    exact ⟨fun hcalled => hdue.charged (hs.charged hcalled), fun hno =>
      ⟨(hs.same hno).time, (hs.same hno).lastCount, (hs.same hno).idle, (hs.same hno).used⟩⟩
  · exact SameTimes.timed ⟨rfl, rfl, rfl, rfl⟩ (not_updates hto)

/-- The idle loop has made its task current again before the call. -/
theorem endIdle_timed (hctx : k.context = some c) (h : k.endIdle = .ok k') :
    Timed k k' c (Micro.Updates k .endIdle) := by
  obtain ⟨c', t, hcur, hidle, hf, hcase⟩ := endIdle_cases h
  obtain rfl : c' = c := by
    rw [Kernel.context, hcur, hidle] at hctx
    exact Option.some.inj hctx
  have hover : SameTimes k (k.idleOver c' t) := ⟨rfl, rfl, rfl, rfl⟩
  rcases hcase with ⟨htc, hsw⟩ | ⟨rfl, rfl⟩
  · by_cases hp : k.postponeTaskSwitchesCounter = 0
    · have hcalled : Micro.Updates k .endIdle := by
        refine ⟨?_, fun _ => ?_⟩
        · rw [Micro.switchesTo, if_pos hp, hf]
          simp
        · rw [hf, hidle]
          simpa using htc
      exact ⟨fun _ => hover.charged (wrapper_charged (k := k.idleOver c' t) hp rfl hsw),
        fun hno => absurd hcalled hno⟩
    · have hpost := Kernel.switchToTaskWrapper_postponed (t := t) (k := k.idleOver c' t) hp
      rw [← Except.ok.inj (hpost.symm.trans hsw)]
      exact SameTimes.timed ⟨rfl, rfl, rfl, rfl⟩ (not_updates (by rw [Micro.switchesTo, if_neg hp]))
  · exact SameTimes.timed ⟨rfl, rfl, rfl, rfl⟩ fun hu => hu.2 rfl (hf.trans hidle.symm)

theorem micro_timed (hctx : k.context = some c) (h : m.exec k = .ok k') :
    Timed k k' c (m.Updates k) := by
  cases m with
  | lockScheduler | unlockScheduler | unlockStuff | lockStuff =>
      obtain rfl := Except.ok.inj h
      exact SameTimes.timed ⟨rfl, rfl, rfl, rfl⟩ (not_updates rfl)
  | setState st =>
      rw [Micro.exec] at h
      split at h
      · cases h
      · obtain rfl := Except.ok.inj h
        exact SameTimes.timed ⟨rfl, rfl, rfl, rfl⟩ (not_updates rfl)
  | unblockTask t => exact (unblockTask_listsOnly h).sameTimes.timed (not_updates rfl)
  | unblockChild pid =>
      rw [Micro.exec, Kernel.unblockChild] at h
      split at h
      · cases h
      · exact (unblockChildren_listsOnly h).sameTimes.timed (not_updates rfl)
  | schedule => exact scheduleMicro_timed hctx h
  | releaseSwitches => exact releaseSwitches_timed hctx h
  | endIdle => exact endIdle_timed hctx h

/-! ## Runs -/

/-- Stated for any time, which the kernel need not compare with the old one. -/
theorem sameAmounts_time (k : Kernel) (n : UInt64) :
    { k with time := n }.lastCount = k.lastCount ∧ { k with time := n }.cpuIdleTime = k.cpuIdleTime ∧
      { k with time := n }.timeUsed = k.timeUsed := ⟨rfl, rfl, rfl⟩

theorem ckprocA_times {M : Tid} {M2 cr3 : UInt64} (h : k.ckprocA M M2 cr3 = .ok k') :
    k'.lastCount = k.lastCount ∧ k'.cpuIdleTime = k.cpuIdleTime ∧
      k'.timeUsed = Function.update k.timeUsed M 0 := by
  obtain ⟨cur, -, ⟨-, rfl⟩ | ⟨f, l, -, -, rfl⟩⟩ := ckprocA_ok h
  · exact ⟨rfl, rfl, rfl⟩
  · exact ⟨rfl, rfl, rfl⟩

theorem advance_timed {b : Balance} (h : BalanceOp.exec s.toBalance .advance = .ok b) :
    ∃ c, s.kernel.context = some c ∧
      Timed s.kernel b.kernel c (ClockOp.Updates s (.act .advance)) := by
  rw [BalanceOp.exec] at h
  split at h
  · cases h
  · rename_i c hc
    split at h
    · cases h
    · rename_i m rest hm
      split at h
      · cases h
      · rename_i k' hk'
        have hcalled : ClockOp.Updates s (.act .advance) ↔ m.Updates s.kernel := by
          have hhead : (s.todo c).head? = some m := by rw [hm, List.head?_cons]
          constructor
          · intro hu
            obtain ⟨c', hc', m', hm', hu⟩ := hu
            obtain rfl := Option.some.inj (hc.symm.trans hc')
            obtain rfl := Option.some.inj (hhead.symm.trans hm')
            exact hu
          · exact fun hu => ⟨c, hc, m, hhead, hu⟩
        rw [← Except.ok.inj h, hcalled]
        exact ⟨c, hc, micro_timed hc hk'⟩

/-- The outcome of a step that calls `update_time_used`. -/
structure Paid (s s' : Clock) (c : Tid) : Prop extends Charged s.kernel s'.kernel c where
  context : s.kernel.context = some c
  total : s'.charged = s.charged + (s.kernel.lastCount - s.kernel.time)

structure Unpaid (s : Clock) (op : ClockOp) (s' : Clock) : Prop where
  lastCount : s'.kernel.lastCount = s.kernel.lastCount
  idle : s'.kernel.cpuIdleTime = s.kernel.cpuIdleTime
  total : s'.charged = s.charged
  used : ∀ t, s'.kernel.timeUsed t ≠ s.kernel.timeUsed t →
    (∃ M2 cr3, op = .act (.ckprocA t M2 cr3)) ∧ s'.kernel.timeUsed t = 0

theorem paid_of_updates {o : BalanceOp} {b : Balance} (hu : (ClockOp.act o).Updates s)
    (h : o.exec s.toBalance = .ok b) :
    ∃ c, s.kernel.context = some c ∧ Charged s.kernel b.kernel c := by
  cases o with
  | advance =>
      obtain ⟨c, hc, htimed⟩ := advance_timed h
      exact ⟨c, hc, htimed.charged hu⟩
  | ckprocA M M2 cr3 => exact absurd hu fun hu => hu
  | call f => exact absurd hu fun hu => hu
  | interrupt woken slice => exact absurd hu fun hu => hu

theorem unpaid_of_not_updates {o : BalanceOp} {b : Balance} (hu : ¬ (ClockOp.act o).Updates s)
    (h : o.exec s.toBalance = .ok b) : Unpaid s (.act o) { s with toBalance := b } := by
  cases o with
  | advance =>
      obtain ⟨c, hc, htimed⟩ := advance_timed h
      have hsame := htimed.same hu
      exact ⟨hsame.lastCount, hsame.idle, rfl, fun t hne => absurd (congrFun hsame.used t) hne⟩
  | ckprocA M M2 cr3 =>
      rw [BalanceOp.exec] at h
      split at h
      · cases h
      · rename_i k' hk'
        obtain ⟨hlast, hidle, hused⟩ := ckprocA_times hk'
        rw [← Except.ok.inj h]
        refine ⟨hlast, hidle, rfl, fun t hne => ?_⟩
        change k'.timeUsed t ≠ _ at hne
        by_cases htM : t = M
        · refine ⟨⟨M2, cr3, by rw [htM]⟩, ?_⟩
          change k'.timeUsed t = 0
          rw [hused, htM, Function.update_self]
        · rw [hused, Function.update_of_ne htM] at hne
          exact absurd rfl hne
  | call f =>
      rw [BalanceOp.exec] at h
      split at h
      · cases h
      · rw [← Except.ok.inj h]
        exact ⟨rfl, rfl, rfl, fun t hne => absurd rfl hne⟩
  | interrupt woken slice =>
      rw [BalanceOp.exec] at h
      split at h
      · cases h
      · rw [← Except.ok.inj h]
        exact ⟨rfl, rfl, rfl, fun t hne => absurd rfl hne⟩

theorem step_paid (hs : op.step s s') :
    (op.Updates s ∧ ∃ c, Paid s s' c) ∨ (¬ op.Updates s ∧ Unpaid s op s') := by
  obtain ⟨-, hex⟩ := hs
  cases op with
  | timer woken slice =>
      rw [ClockOp.exec] at hex
      split at hex
      · cases hex
      · rename_i b hb
        rw [← Except.ok.inj hex]
        rw [BalanceOp.exec] at hb
        split at hb
        · cases hb
        · rw [← Except.ok.inj hb]
          obtain ⟨hlast, hidle, hused⟩ := sameAmounts_time s.kernel (s.kernel.time + 10000000)
          exact .inr ⟨fun hu => hu, hlast, hidle, rfl, fun t hne => absurd (congrFun hused t) hne⟩
  | act o =>
      rw [ClockOp.exec] at hex
      split at hex
      · cases hex
      · rename_i b hb
        split at hex
        · rename_i hu
          obtain ⟨c, hc, hpaid⟩ := paid_of_updates hu hb
          have hamount : ClockOp.amount s.kernel b.kernel = s.kernel.lastCount - s.kernel.time := by
            rw [ClockOp.amount, hc]
            change b.kernel.timeUsed c - s.kernel.timeUsed c = _
            rw [hpaid.used, Function.update_self]
            grind
          rw [← Except.ok.inj hex, hamount]
          exact .inl ⟨hu, c, hpaid, hc, rfl⟩
        · rename_i hu
          rw [← Except.ok.inj hex]
          exact .inr ⟨hu, unpaid_of_not_updates hu hb⟩

/-- No amount goes anywhere but to the task that `charged` counts it for. -/
theorem used_of_step (hs : op.step s s') : op.Charges s s' := by
  intro t hne
  rcases step_paid hs with ⟨hu, c, hpaid⟩ | ⟨-, hunpaid⟩
  · by_cases htc : t = c
    · refine .inl ⟨hu, by rw [htc]; exact hpaid.context, ?_⟩
      rw [hpaid.used, hpaid.total, htc, Function.update_self]
      grind
    · rw [hpaid.used, Function.update_of_ne htc] at hne
      exact absurd rfl hne
  · exact .inr (hunpaid.used t hne)

/-- Nothing is counted as idle, and the tasks are charged the negative of the time. -/
structure Reversed (s : Clock) : Prop where
  idle : s.kernel.cpuIdleTime = 0
  total : s.charged + s.kernel.lastCount = 0

theorem reversed_step (h : Reversed s) (hs : op.step s s') : Reversed s' := by
  obtain ⟨hidle, htotal⟩ := h
  rcases step_paid hs with ⟨-, c, hpaid⟩ | ⟨-, hunpaid⟩
  · refine ⟨hpaid.idle.trans hidle, ?_⟩
    rw [hpaid.total, hpaid.lastCount]
    grind
  · refine ⟨hunpaid.idle.trans hidle, ?_⟩
    rw [hunpaid.total, hunpaid.lastCount]
    exact htotal

/-- A call accounts for the time only where it can do no harm. -/
theorem accounted_iff (h : Reversed s) (hs : op.step s s') :
    op.Accounted s s' ↔ op.Harmless s := by
  have hrev := reversed_step h hs
  rcases step_paid hs with ⟨hu, c, hpaid⟩ | ⟨hno, -⟩
  · have hcharged : s'.charged + s.kernel.time = 0 := by
      rw [← hpaid.lastCount]
      exact hrev.total
    have hboth : op.Accounted s s' ↔ s'.charged = s.kernel.time ∧ 0 = s.idled := by
      rw [ClockOp.Accounted, hrev.idle, h.idle, hpaid.time]
      constructor
      · intro ha
        obtain ⟨hsum, hidle⟩ := ha hu
        exact ⟨(UInt64.zero_add _).symm.trans hsum, hidle⟩
      · intro ha _
        exact ⟨(UInt64.zero_add _).trans ha.1, ha.2⟩
    rw [hboth]
    constructor
    · intro ha _
      exact ⟨by rw [← ha.1] at hcharged ⊢; exact hcharged, ha.2.symm⟩
    · intro hh
      obtain ⟨htime, hidled⟩ := hh hu
      exact ⟨by grind, hidled.symm⟩
  · exact iff_of_true (fun hu => absurd hu hno) fun hu => absurd hu hno

theorem boot_reversed (junk : Kernel) (t : Tid) (cr3 : UInt64) :
    Reversed (Clock.boot junk t cr3) := ⟨rfl, rfl⟩

theorem clockStep_deterministic (s : Clock) (op : ClockOp) (s₁ s₂ : Clock)
    (h₁ : op.step s s₁) (h₂ : op.step s s₂) : s₁ = s₂ :=
  Except.ok.inj (h₁.2.symm.trans h₂.2)

/-- Along a run every call of `update_time_used` accounts for all the time exactly if `TIME` is its
own negative at each of them and nobody has been idle. The amounts that the run counts are all that
any task is charged. -/
theorem time_accounted_iff (junk : Kernel) (t : Tid) (cr3 : UInt64)
    (h : Run ClockOp.step (Clock.boot junk t cr3) ops s) :
    (∀ (op : ClockOp) (s' : Clock), op.step s s' → op.Charges s s') ∧
      ((∀ pre op post s₁ s₂, ops = pre ++ op :: post →
          Run ClockOp.step (Clock.boot junk t cr3) pre s₁ → op.step s₁ s₂ → op.Accounted s₁ s₂) ↔
        Run (Guarded ClockOp.Harmless ClockOp.step) (Clock.boot junk t cr3) ops s) := by
  refine ⟨fun op s' hs => used_of_step hs, ?_⟩
  exact run_steps_iff_guarded clockStep_deterministic (fun _ _ _ => reversed_step)
    (fun _ _ _ => accounted_iff) (boot_reversed junk t cr3) h

/-- Before the first tick the boot task blocks and hands over to a new task. -/
def firstSwitch : List ClockOp :=
  [.act (.ckprocA 2 0x2000 0x3000), .act (.call (.blockTask .waiting)), .act .advance,
    .act .advance, .act .advance, .timer [] false]

theorem time_accounted_firstSwitch : ∃ s,
    Run ClockOp.step (Clock.boot Kernel.zeroed 1 0x1000) firstSwitch s ∧
    ∀ pre op post s₁ s₂, firstSwitch = pre ++ op :: post →
      Run ClockOp.step (Clock.boot Kernel.zeroed 1 0x1000) pre s₁ → op.step s₁ s₂ →
        op.Accounted s₁ s₂ := by
  have hlast : (follow (fun s op => ClockOp.Harmless s op ∧ ClockOp.Enabled s op) ClockOp.exec
      (Clock.boot Kernel.zeroed 1 0x1000) firstSwitch).isSome := by
    decide +kernel
  obtain ⟨s, hs⟩ := Option.isSome_iff_exists.mp hlast
  have hR : Run (Guarded ClockOp.Harmless ClockOp.step) (Clock.boot Kernel.zeroed 1 0x1000)
      firstSwitch s := run_of_follow (fun _ _ _ h h' => ⟨h.1, h.2, h'⟩) hs
  exact ⟨s, run_of_guarded hR,
    (time_accounted_iff Kernel.zeroed 1 0x1000 (run_of_guarded hR)).2.mpr hR⟩

/-- Both tasks block, and the tick that wakes the first comes to an idle processor. -/
def idleTick : List ClockOp :=
  [.act (.ckprocA 2 0x2000 0x3000), .act (.call (.blockTask .waiting)), .act .advance,
    .act .advance, .act .advance, .act (.call (.blockTask .waiting)), .act .advance,
    .act .advance, .act .advance, .timer [1] false, .act .advance, .act .advance,
    .act .advance, .act .advance]

/-- All of the tick is idle time. The task that idled is charged its negative. -/
theorem idle_tick_charged_to_task : ¬ ∀ (junk : Kernel) (t : Tid) (cr3 : UInt64)
    (ops : List ClockOp) (s : Clock), Run ClockOp.step (Clock.boot junk t cr3) ops s →
      ∀ pre op post s₁ s₂, ops = pre ++ op :: post →
        Run ClockOp.step (Clock.boot junk t cr3) pre s₁ → op.step s₁ s₂ →
          op.Accounted s₁ s₂ := by
  intro hall
  have hbefore : (follow ClockOp.Enabled ClockOp.exec (Clock.boot Kernel.zeroed 1 0x1000)
      idleTick).bind (fun s => if ClockOp.Updates s (.act .advance) ∧ s.idled = 10000000 then
        (ClockOp.exec s (.act .advance)).toOption.map fun s' =>
          decide (s'.kernel.cpuIdleTime = 0 ∧ s.kernel.cpuIdleTime = 0) else none) = some true := by
    decide +kernel
  obtain ⟨s₁, hs₁, hafter⟩ := Option.bind_eq_some_iff.mp hbefore
  split at hafter
  · rename_i hidle
    obtain ⟨s₂, hs₂, hfields⟩ := Option.map_eq_some_iff.mp hafter
    obtain ⟨hidle₂, hidle₁⟩ := of_decide_eq_true hfields
    have hR : Run ClockOp.step (Clock.boot Kernel.zeroed 1 0x1000) idleTick s₁ :=
      run_of_follow (fun _ _ _ h h' => ⟨h, h'⟩) hs₁
    have hstep : ClockOp.step s₁ (.act .advance) s₂ := by
      refine ⟨trivial, ?_⟩
      cases hex : ClockOp.exec s₁ (.act .advance) with
      | error e =>
          rw [hex] at hs₂
          cases hs₂
      | ok s' =>
          rw [hex] at hs₂
          rw [Option.some.inj hs₂]
    have hacc := hall _ _ _ _ s₂ (run_concat.mpr ⟨s₁, hR, hstep⟩) idleTick (.act .advance) [] s₁ s₂
      rfl hR hstep
    have hcounted := (hacc hidle.1).2
    rw [hidle₂, hidle₁, hidle.2] at hcounted
    exact absurd hcounted (by decide)
  · cases hafter

end UnnamedOS.Proc
