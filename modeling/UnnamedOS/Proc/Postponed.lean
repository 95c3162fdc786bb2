import UnnamedOS.Proc.SwitchSteps

/-!
# Postponed switches

While `postpone_task_switches_counter` is positive `schedule` and `switch_to_task_wrapper` only set
a flag, which the outermost `unlock_stuff` answers. The tasks nest their calls as they like, and
handlers come at any time, in the idle loop as well.
-/

namespace UnnamedOS.Proc

open UnnamedOS.Lib

structure Switches where
  kernel : Kernel
  /-- The calls of `lock_stuff` that a task has still to match. -/
  locks : Tid → Int
  /-- What is left of the handlers on the stack of a task. -/
  handlers : Tid → List SwitchStep
  /-- A switch has been requested and `schedule` has not been called since. -/
  requested : Bool

namespace Switches

def boot (junk : Kernel) (t : Tid) (cr3 : UInt64) : Switches where
  kernel := junk.initializeMultitasking t cr3
  locks _ := 0
  handlers _ := []
  requested := false

def perform (s : Switches) (m : SwitchStep) : Except Halt Switches :=
  match m.exec s.kernel with
  | .error e => .error e
  | .ok k =>
    .ok { s with
      kernel := k
      requested := if m.Requests s.kernel then true
        else if m.Answers s.kernel then false else s.requested }

end Switches

inductive SwitchOp where
  | call (m : SwitchStep)
  /-- A handler comes on top of what the processor does. -/
  | interrupt (i : Interrupt)
  /-- The next step of the handler on top. -/
  | advance
  | leaveIdle
  /-- Whatever else kernel code does, the creation of tasks included. -/
  | other (k : Kernel)

namespace SwitchOp

def exec (s : Switches) : SwitchOp → Except Halt Switches
  | call m =>
    match s.kernel.currentTaskTCB with
    | none => .error .nullPointer
    | some c => { s with locks := Function.update s.locks c (s.locks c + m.nesting) }.perform m
  | interrupt i =>
    match s.kernel.context with
    | none => .error .nullPointer
    | some c => .ok { s with handlers := Function.update s.handlers c (i.steps ++ s.handlers c) }
  | advance =>
    match s.kernel.context with
    | none => .error .nullPointer
    | some c =>
      match s.handlers c with
      | [] => .error .nullPointer
      | m :: rest => { s with handlers := Function.update s.handlers c rest }.perform m
  | leaveIdle =>
    match s.kernel.leaveIdle with
    | .error e => .error e
    | .ok k => .ok { s with kernel := k }
  | other k => .ok { s with kernel := k }

/-- A task calls nothing under a handler, and unlocks what it has locked. The idle loop goes on when
its handlers have returned. -/
def Enabled (s : Switches) : SwitchOp → Prop
  | call m => m.ofTask = true ∧ ∀ c ∈ s.kernel.currentTaskTCB, s.handlers c = [] ∧
      (m = .unlockStuff → 0 < s.locks c)
  | interrupt _ | advance => True
  | leaveIdle => s.kernel.currentTaskTCB = none ∧ ∀ c ∈ s.kernel.idleTask, s.handlers c = []
  | other k => SameSwitching s.kernel k

instance (s : Switches) : ∀ op : SwitchOp, Decidable (op.Enabled s)
  | call m => inferInstanceAs (Decidable (m.ofTask = true ∧ ∀ c ∈ s.kernel.currentTaskTCB,
      s.handlers c = [] ∧ (m = .unlockStuff → 0 < s.locks c)))
  | interrupt _ | advance => inferInstanceAs (Decidable True)
  | leaveIdle => inferInstanceAs (Decidable (s.kernel.currentTaskTCB = none ∧
      ∀ c ∈ s.kernel.idleTask, s.handlers c = []))
  | other k => inferInstanceAs (Decidable (SameSwitching s.kernel k))

def step (s : Switches) (op : SwitchOp) (s' : Switches) : Prop :=
  op.Enabled s ∧ op.exec s = .ok s'

end SwitchOp

/-- Switches are neither early nor lost in the state, and no `FAULT` call is ahead. -/
structure Switches.Punctual (s : Switches) : Prop where
  early : ∀ op s', SwitchOp.step s op s' →
    s'.kernel.currentTaskTCB ≠ s.kernel.currentTaskTCB → s'.kernel.postponeTaskSwitchesCounter = 0
  flag : s.kernel.taskSwitchesPostponedFlag = true → 0 < s.kernel.postponeTaskSwitchesCounter
  lost : s.requested = true → 0 < s.kernel.postponeTaskSwitchesCounter
  answered : s.requested = true → s.kernel.postponeTaskSwitchesCounter = 1 →
    s.kernel.unlockStuff = s.kernel.switchesDue.scheduleThenUnlock
  fault : ∀ op : SwitchOp, op.Enabled s → op.exec s ≠ .error .fault

variable {k : Kernel} {c t : Tid} {m : SwitchStep} {s s' : Switches} {op : SwitchOp}
  {ops : List SwitchOp}

/-! ## Handlers match their locks -/

/-- Locks taken by the steps, less those released. -/
def depth : List SwitchStep → Int
  | [] => 0
  | m :: ms => m.nesting + depth ms

/-- What is left of some handlers: no lock in it is left open. -/
def Matched : List SwitchStep → Prop
  | [] => True
  | m :: ms => m.ofHandler = true ∧ depth (m :: ms) ≤ 0 ∧ Matched ms

theorem nesting_nonneg (hm : m ≠ .unlockStuff) : 0 ≤ m.nesting := by
  cases m with
  | unlockStuff => exact absurd rfl hm
  | lockStuff => decide
  | _ => exact Int.le_refl 0

theorem Matched.depth_le {ms : List SwitchStep} (h : Matched ms) : depth ms ≤ 0 := by
  cases ms with
  | nil => exact Int.le_refl 0
  | cons m ms => exact h.2.1

theorem depth_append (i : Interrupt) (ms : List SwitchStep) : depth (i.steps ++ ms) = depth ms := by
  cases i with
  | timer =>
      simp only [Interrupt.steps, List.cons_append, List.nil_append, depth, SwitchStep.nesting]
      omega
  | device irq =>
      simp only [Interrupt.steps, List.cons_append, List.nil_append, depth, SwitchStep.nesting]
      omega

theorem Matched.push {ms : List SwitchStep} (i : Interrupt) (h : Matched ms) :
    Matched (i.steps ++ ms) := by
  have hle := h.depth_le
  cases i with
  | timer =>
      simp only [Interrupt.steps, List.cons_append, List.nil_append, Matched, depth,
        SwitchStep.nesting, SwitchStep.ofHandler, true_and]
      refine ⟨by omega, by omega, by omega, by omega, by omega, by omega, h⟩
  | device irq =>
      simp only [Interrupt.steps, List.cons_append, List.nil_append, Matched, depth,
        SwitchStep.nesting, SwitchStep.ofHandler, true_and]
      exact ⟨by omega, by omega, by omega, h⟩

/-! ## Runs -/

/-- The counter is what the task at hand and the handlers on its stack have locked, and no other
task has locked anything. -/
structure Switches.Inv (s : Switches) : Prop where
  kernel : SwitchInv s.kernel
  locks : ∀ t, 0 ≤ s.locks t
  matched : ∀ t, Matched (s.handlers t)
  here : ∀ c, s.kernel.context = some c →
    s.kernel.postponeTaskSwitchesCounter = s.locks c - depth (s.handlers c)
  away : ∀ t, s.kernel.context ≠ some t → s.locks t = 0 ∧ depth (s.handlers t) = 0
  idle : s.kernel.currentTaskTCB = none → ∀ c, s.kernel.context = some c → s.locks c = 0
  requested : s.requested = true → s.kernel.taskSwitchesPostponedFlag = true

/-- The processor is on the stack of the task `c`, which has `l` locks and the handlers `ms` behind
the step. -/
theorem Switches.Inv.perform {l : Int} {ms : List SwitchStep} (h : s.Inv)
    (hc : s.kernel.context = some c) (hl : 0 ≤ l) (hms : Matched ms)
    (hsum : l - depth ms = s.kernel.postponeTaskSwitchesCounter + m.nesting)
    (hidle : s.kernel.currentTaskTCB = none → l = 0)
    (hm : s.kernel.currentTaskTCB ≠ none ∨ m.ofHandler = true)
    (hex : Switches.perform { s with
      locks := Function.update s.locks c l
      handlers := Function.update s.handlers c ms } m = .ok s') :
    s'.Inv ∧ (s'.kernel.postponeTaskSwitchesCounter ≠ 0 →
      s'.kernel.currentTaskTCB = s.kernel.currentTaskTCB) := by
  unfold Switches.perform at hex
  split at hex
  · cases hex
  · rename_i k hk
    have hstep : Stepped s.kernel k m := step_stepped h.kernel hm hk
    have hcount : k.postponeTaskSwitchesCounter = l - depth ms := hstep.counter.trans hsum.symm
    have hle := hms.depth_le
    rw [← Except.ok.inj hex]
    refine ⟨?_, hstep.current⟩
    constructor
    case kernel => exact hstep.inv
    case locks =>
      intro t
      by_cases ht : t = c
      · subst ht
        simpa using hl
      · simpa [ht] using h.locks t
    case matched =>
      intro t
      by_cases ht : t = c
      · subst ht
        simpa using hms
      · simpa [ht] using h.matched t
    case here =>
      intro x hx
      change k.postponeTaskSwitchesCounter = _
      by_cases hxc : x = c
      · subst hxc
        simpa using hcount
      · -- another task has got the processor, which takes the counter to be 0
        have hzero : k.postponeTaskSwitchesCounter = 0 := by
          by_contra hne
          have hctx := (hstep.context hne).symm.trans hx
          exact hxc (Option.some.inj (hctx.symm.trans hc))
        obtain ⟨hl0, hd0⟩ := h.away x fun hx' => hxc (Option.some.inj (hx'.symm.trans hc))
        simp [hxc, hl0, hd0, hzero]
    case away =>
      intro t ht
      by_cases htc : t = c
      · subst htc
        have hzero : k.postponeTaskSwitchesCounter = 0 := by
          by_contra hne
          exact ht ((hstep.context hne).trans hc)
        simp only [Function.update_self]
        omega
      · have haway := h.away t fun hx => htc (Option.some.inj (hx.symm.trans hc))
        simpa [htc] using haway
    case idle =>
      intro hnone x hx
      by_cases hxc : x = c
      · subst hxc
        simp only [Function.update_self]
        by_cases hzero : k.postponeTaskSwitchesCounter = 0
        · omega
        · exact hidle ((hstep.current hzero).symm.trans hnone)
      · have haway := h.away x fun hx' => hxc (Option.some.inj (hx'.symm.trans hc))
        simpa [hxc] using haway.1
    case requested =>
      intro hreq
      dsimp only at hreq
      split at hreq
      · rename_i hr
        exact hstep.requested hr
      · split at hreq
        · cases hreq
        · rename_i hans
          exact hstep.unanswered hans (h.requested hreq)

theorem Switches.Inv.call (h : s.Inv) (hen : (SwitchOp.call m).Enabled s)
    (hex : (SwitchOp.call m).exec s = .ok s') :
    s'.Inv ∧ (s'.kernel.postponeTaskSwitchesCounter ≠ 0 →
      s'.kernel.currentTaskTCB = s.kernel.currentTaskTCB) := by
  rw [SwitchOp.exec] at hex
  split at hex
  · cases hex
  · rename_i c hcur
    obtain ⟨-, hcall⟩ := hen
    obtain ⟨hnil, hunlock⟩ := hcall c hcur
    have hctx := context_of_current hcur
    have hcount := h.here c hctx
    have hpos := h.locks c
    rw [hnil] at hcount
    have hl : 0 ≤ s.locks c + m.nesting := by
      by_cases hm : m = .unlockStuff
      · have hlock := hunlock hm
        rw [hm]
        change 0 ≤ s.locks c + -1
        omega
      · have hn := nesting_nonneg hm
        omega
    have hsame : Function.update s.handlers c [] = s.handlers := by
      rw [← hnil]
      exact Function.update_eq_self c s.handlers
    have hdone : Matched [] := trivial
    refine h.perform hctx hl hdone ?_ (fun hnone => ?_) (.inl ?_) (by rw [hsame]; exact hex)
    · change s.locks c + m.nesting - 0 = _
      rw [hcount]
      change s.locks c + m.nesting - 0 = s.locks c - 0 + m.nesting
      omega
    · rw [hcur] at hnone
      cases hnone
    · rw [hcur]
      exact Option.some_ne_none c

theorem Switches.Inv.interrupt {i : Interrupt} (h : s.Inv)
    (hex : (SwitchOp.interrupt i).exec s = .ok s') :
    s'.Inv ∧ (s'.kernel.postponeTaskSwitchesCounter ≠ 0 →
      s'.kernel.currentTaskTCB = s.kernel.currentTaskTCB) := by
  rw [SwitchOp.exec] at hex
  split at hex
  · cases hex
  · rename_i c hctx
    rw [← Except.ok.inj hex]
    refine ⟨⟨h.kernel, h.locks, fun t => ?_, fun x hx => ?_, fun t ht => ?_, h.idle,
      h.requested⟩, fun _ => rfl⟩
    · by_cases ht : t = c
      · subst ht
        simpa using (h.matched t).push i
      · simpa [ht] using h.matched t
    · have hxc : x = c := Option.some.inj (hx.symm.trans hctx)
      subst hxc
      simpa [depth_append] using h.here x hx
    · have htc : t ≠ c := by
        rintro rfl
        exact ht hctx
      simpa [htc] using h.away t ht

theorem Switches.Inv.advance (h : s.Inv) (hex : SwitchOp.advance.exec s = .ok s') :
    s'.Inv ∧ (s'.kernel.postponeTaskSwitchesCounter ≠ 0 →
      s'.kernel.currentTaskTCB = s.kernel.currentTaskTCB) := by
  rw [SwitchOp.exec] at hex
  split at hex
  · cases hex
  · rename_i c hctx
    split at hex
    · cases hex
    · rename_i m rest hhead
      have hall := h.matched c
      rw [hhead] at hall
      obtain ⟨hm, -, hrest⟩ := hall
      have hcount := h.here c hctx
      rw [hhead] at hcount
      refine h.perform (l := s.locks c) hctx (h.locks c) hrest ?_ (fun hnone => ?_) (.inr hm)
        (by rw [Function.update_eq_self]; exact hex)
      · rw [hcount, depth]
        omega
      · exact h.idle hnone c hctx

theorem Switches.Inv.leaveIdle (h : s.Inv) (hen : SwitchOp.leaveIdle.Enabled s)
    (hex : SwitchOp.leaveIdle.exec s = .ok s') :
    s'.Inv ∧ (s'.kernel.postponeTaskSwitchesCounter ≠ 0 →
      s'.kernel.currentTaskTCB = s.kernel.currentTaskTCB) := by
  rw [SwitchOp.exec] at hex
  split at hex
  · cases hex
  · rename_i k hk
    obtain ⟨hnone, hdone⟩ := hen
    have hctx : s.kernel.context = s.kernel.idleTask := by
      rw [Kernel.context, hnone]
      rfl
    obtain ⟨c, hc⟩ := Option.ne_none_iff_exists'.mp h.kernel.context
    have hnil := hdone c (hctx.symm.trans hc)
    have hl := h.idle hnone c hc
    have hzero : s.kernel.postponeTaskSwitchesCounter = 0 := by
      rw [h.here c hc, hl, hnil]
      rfl
    obtain ⟨hinv, hzero'⟩ := leaveIdle_switches h.kernel hzero hk
    have hall : ∀ t, s.locks t = 0 ∧ depth (s.handlers t) = 0 := by
      intro t
      by_cases ht : s.kernel.context = some t
      · obtain rfl := Option.some.inj (hc.symm.trans ht)
        rw [hl, hnil]
        exact ⟨rfl, rfl⟩
      · exact h.away t ht
    rw [← Except.ok.inj hex]
    refine ⟨⟨hinv, h.locks, h.matched, fun x _ => ?_, fun t _ => hall t,
      fun _ x _ => (hall x).1, fun hreq => ?_⟩, fun hne => absurd hzero' hne⟩
    · rw [(hall x).1, (hall x).2]
      exact hzero'
    · have hflag := h.kernel.unflagged hzero
      rw [h.requested hreq] at hflag
      cases hflag

theorem Switches.Inv.other (h : s.Inv) (hen : (SwitchOp.other k).Enabled s)
    (hex : (SwitchOp.other k).exec s = .ok s') :
    s'.Inv ∧ (s'.kernel.postponeTaskSwitchesCounter ≠ 0 →
      s'.kernel.currentTaskTCB = s.kernel.currentTaskTCB) := by
  have hk : SameSwitching s.kernel k := hen
  rw [← Except.ok.inj hex]
  refine ⟨⟨hk.switchInv h.kernel, h.locks, h.matched, fun x hx => ?_, fun t ht => ?_,
    fun hnone x hx => ?_, fun hreq => hk.flag.trans (h.requested hreq)⟩, fun _ => hk.current⟩
  · exact hk.counter.trans (h.here x (hk.context.symm.trans hx))
  · exact h.away t fun ht' => ht (hk.context.trans ht')
  · exact h.idle (hk.current.symm.trans hnone) x (hk.context.symm.trans hx)

/-- A step changes the current task only if it leaves the counter at 0. -/
theorem Switches.Inv.step (h : s.Inv) (hs : op.step s s') :
    s'.Inv ∧ (s'.kernel.postponeTaskSwitchesCounter ≠ 0 →
      s'.kernel.currentTaskTCB = s.kernel.currentTaskTCB) := by
  obtain ⟨hen, hex⟩ := hs
  cases op with
  | call m => exact h.call hen hex
  | interrupt i => exact h.interrupt hex
  | advance => exact h.advance hex
  | leaveIdle => exact h.leaveIdle hen hex
  | other k => exact h.other hen hex

theorem boot_switches (junk : Kernel) (t : Tid) (cr3 : UInt64) :
    (Switches.boot junk t cr3).Inv where
  kernel := ⟨fun h => (by cases h), Int.le_refl 0, fun h => (by cases h), fun h => (by cases h)⟩
  locks _ := Int.le_refl 0
  matched _ := trivial
  here _ _ := rfl
  away _ _ := ⟨rfl, rfl⟩
  idle h := by cases h
  requested h := by cases h

theorem perform_ne_fault (hk : SwitchInv s.kernel)
    (hm : m = .unlockStuff → s.kernel.postponeTaskSwitchesCounter ≠ 0) :
    s.perform m ≠ .error .fault := by
  intro hex
  unfold Switches.perform at hex
  split at hex
  · rename_i e he
    rw [Except.error.inj hex] at he
    exact step_ne_fault hk hm he
  · cases hex

/-- The invariant keeps both `FAULT` calls out of reach. -/
theorem Switches.Inv.no_fault (h : s.Inv) (hen : op.Enabled s) : op.exec s ≠ .error .fault := by
  cases op with
  | call m =>
      intro hex
      rw [SwitchOp.exec] at hex
      split at hex
      · cases hex
      · rename_i c hcur
        obtain ⟨hnil, hunlock⟩ := hen.2 c hcur
        have hcount := h.here c (context_of_current hcur)
        rw [hnil] at hcount
        refine absurd hex (perform_ne_fault h.kernel fun hm => ?_)
        have hlock := hunlock hm
        change s.kernel.postponeTaskSwitchesCounter ≠ 0
        rw [hcount]
        change s.locks c - 0 ≠ 0
        omega
  | interrupt i =>
      intro hex
      rw [SwitchOp.exec] at hex
      split at hex
      · cases hex
      · cases hex
  | advance =>
      intro hex
      rw [SwitchOp.exec] at hex
      split at hex
      · cases hex
      · rename_i c hctx
        split at hex
        · cases hex
        · rename_i m rest hhead
          have hall := h.matched c
          rw [hhead] at hall
          have hle := hall.2.2.depth_le
          have hpos := h.locks c
          have hcount := h.here c hctx
          rw [hhead, depth] at hcount
          refine absurd hex (perform_ne_fault h.kernel fun hm => ?_)
          change s.kernel.postponeTaskSwitchesCounter ≠ 0
          rw [hcount, hm]
          change s.locks c - (-1 + depth rest) ≠ 0
          omega
  | leaveIdle =>
      intro hex
      rw [SwitchOp.exec] at hex
      split at hex
      · rename_i e he
        rw [Except.error.inj hex] at he
        exact leaveIdle_ne_fault he
      · cases hex
  | other k =>
      intro hex
      rw [SwitchOp.exec] at hex
      cases hex

theorem Switches.Inv.punctual (h : s.Inv) : s.Punctual where
  early op s' hs hne := by
    by_contra hzero
    exact hne ((h.step hs).2 hzero)
  flag := h.kernel.flag
  lost hreq := h.kernel.flag (h.requested hreq)
  answered hreq hone := by
    have hflag := h.requested hreq
    cases hcur : s.kernel.currentTaskTCB with
    | none =>
        rw [(h.kernel.idle hcur).1] at hflag
        cases hflag
    | some c => exact Kernel.unlockStuff_switch hone hflag hcur
  fault _ hen := h.no_fault hen

/-- In every state of every run. A handler that comes there and is not interrupted is one of the two
handlers as a whole. -/
theorem postponed_switches_punctual (junk : Kernel) (t : Tid) (cr3 : UInt64)
    (h : Run SwitchOp.step (Switches.boot junk t cr3) ops s) :
    s.Punctual ∧ ∀ i : Interrupt, SwitchStep.execAll i.steps s.kernel = i.handle s.kernel := by
  have hinv : s.Inv := run_keeps (fun _ _ _ hi hs => (hi.step hs).1) h (boot_switches junk t cr3)
  exact ⟨hinv.punctual, fun i => i.execAll_steps s.kernel⟩

/-- The boot task has created a second one. -/
def withSecondTask : Kernel :=
  ((Kernel.zeroed.initializeMultitasking 1 0x1000).ckprocA 2 0x2000 0x3000).toOption.getD
    Kernel.zeroed

/-- A task that blocks in a locked section, the timer in the same section, and an interrupt in the
idle loop behind it. -/
def blocksLocked : List SwitchOp :=
  [.other withSecondTask, .call .lockStuff, .call (.blockTask .waitingForLock), .interrupt .timer,
    .advance, .advance, .advance, .advance, .advance, .advance, .call .unlockStuff,
    .call (.blockTask .waiting), .interrupt (.device 1), .advance, .advance, .advance]

theorem postponed_switches_punctual_blocksLocked : ∃ s,
    Run SwitchOp.step (Switches.boot Kernel.zeroed 1 0x1000) blocksLocked s ∧
      s.kernel.context = some 2 ∧ s.Punctual := by
  have hlast : (follow SwitchOp.Enabled SwitchOp.exec (Switches.boot Kernel.zeroed 1 0x1000)
      blocksLocked).map (fun s => decide (s.kernel.context = some 2)) = some true := by
    decide +kernel
  obtain ⟨s, hs, hfields⟩ := Option.map_eq_some_iff.mp hlast
  have hR : Run SwitchOp.step (Switches.boot Kernel.zeroed 1 0x1000) blocksLocked s :=
    run_of_follow (fun _ _ _ h h' => ⟨h, h'⟩) hs
  exact ⟨s, hR, of_decide_eq_true hfields,
    (postponed_switches_punctual Kernel.zeroed 1 0x1000 hR).1⟩

end UnnamedOS.Proc
