import UnnamedOS.Proc.Semaphore

/-!
# Semaphores count their holders

Every step keeps the queues and the counts of all semaphores as long as no wake-up leaves a
stale pointer behind the ready list. A release with two waiters and a non-empty ready list
leaves one: the second waiter then runs without a grant.
-/

namespace UnnamedOS.Proc

open UnnamedOS.Lib

variable {s s' : SemState} {queue : Nat → List Tid} {r sl il : List Tid} {c t : Tid} {a : Nat}
  {m m' : Semaphore} {k k' : Kernel} {w w' : WaitState}

/-- A step of the scheduler that leaves the tasks in the queues alone. -/
theorem SemQueues.frame (h : SemQueues s queue)
    (hset : ∀ c, s.kernel.currentTaskTCB = some c → s.acquiring c = none)
    (hun : Untouched s.kernel w.kernel) : SemQueues { s with toWaitState := w } queue := by
  refine ⟨fun a m hm => ?_, h.last, h.absent, fun a t ht => ?_, fun a t ht => ?_, h.once, h.inside,
    h.count, h.order⟩
  · refine (chain_congr fun x hx => ?_).mpr (h.chain a m hm)
    exact (hun.blocked x (h.waiting a x hx).2.1).2
  · obtain ⟨hta, hts, htq⟩ := h.waiting a t ht
    exact ⟨hun.allocated ▸ hta, (hun.blocked t hts).1, htq⟩
  · obtain ⟨htq, hts⟩ := h.granted a t ht
    refine ⟨htq, ?_⟩
    rcases hts with hts | hts
    · exact hun.ready t hts
    · rw [hset t hts] at htq
      cases htq

/-- A step of the scheduler, with the return from `acquire_semaphore` that may follow it. -/
theorem SemInv.withWait {r' sl' il' : List Tid} (h : SemInv s queue r sl il)
    (hb : BlockInv w r' sl' il') (hun : Untouched s.kernel w.kernel)
    (hpl : ∀ t, w.pc t = .user ∨ w.pc t = .window .sleep)
    (hhead : ∀ c, w.kernel.currentTaskTCB = some c → w.pc c = .window .sleep →
      w.kernel.sleepingTaskList = some c) :
    ∃ s', s.withWait (.ok w) = .ok s' ∧ SemInv s' queue r' sl' il' := by
  refine ⟨_, rfl, ?_⟩
  have hq := h.toSemQueues.frame h.settled hun
  obtain ⟨hq', hset⟩ := hq.settle fun c hc => (hb.running c hc).2
  have hw : ({ s with toWaitState := w } : SemState).settle.toWaitState = w := settle_toWaitState
  refine ⟨hq', ?_, hset, ?_, ?_⟩
  · rw [hw]
    exact hb
  · rw [hw]
    exact hpl
  · rw [hw]
    exact hhead

theorem Good.of_exec {op : WaitOp} (h : Good w op) (hex : op.exec w = .ok w') :
    (∃ r sl il, BlockInv w' r sl il) ∧ Untouched w.kernel w'.kernel := by
  rcases h with ⟨w₁, r, sl, il, hex', hb, hun, -⟩ | ⟨e, he, -⟩
  · obtain rfl := Except.ok.inj (hex.symm.trans hex')
    exact ⟨⟨r, sl, il, hb⟩, hun⟩
  · rw [hex] at he
    cases he

theorem Untouched.trans {k'' : Kernel} (h : Untouched k k') (h' : Untouched k' k'')
    (hcur : k''.currentTaskTCB = k'.currentTaskTCB) : Untouched k k'' := by
  refine ⟨fun t ht => ?_, fun t ht => ?_, h'.allocated.trans h.allocated⟩
  · obtain ⟨hs, hn⟩ := h.blocked t ht
    obtain ⟨hs', hn'⟩ := h'.blocked t hs
    exact ⟨hs', hn'.trans hn⟩
  · rcases h.ready t ht with hs | hs
    · exact h'.ready t hs
    · exact Or.inr (hcur.trans hs)

/-- What `nano_sleep_until` does up to its `unlock_stuff`. -/
theorem sleepUntil_spec {u : UInt64} (h : BlockInv w r sl il)
    (hc : w.kernel.currentTaskTCB = some c) (hpc : w.pc c = .user) :
    ∃ w', w.sleepUntil u = .ok w' ∧ (∃ r sl il, BlockInv w' r sl il) ∧
      Untouched w.kernel w'.kernel ∧ w'.kernel.currentTaskTCB = some c ∧
      (∀ t, t ≠ c → w'.pc t = w.pc t) ∧
      (w'.pc c = .user ∨ w'.pc c = .window .sleep ∧ w'.kernel.sleepingTaskList = some c) := by
  have hp := (h.counters.postpone c hc).1
  rw [hpc] at hp
  have hp₁ : w.kernel.lockStuff.postponeTaskSwitchesCounter = 1 := by
    change w.kernel.postponeTaskSwitchesCounter + 1 = 1
    rw [hp]
    rfl
  let w₁ : WaitState := { w with
    kernel := w.kernel.lockStuff, pc := Function.update w.pc c (.locked (.nanoSleepUntil u)) }
  have hex₁ : WaitOp.exec w (.lock (.nanoSleepUntil u)) = .ok w₁ := by
    simp [WaitOp.exec, hc, WaitState.advance, w₁]
  have hpc₁ : w₁.pc c = .locked (.nanoSleepUntil u) := Function.update_self _ _ _
  have hex₁' : WaitOp.update.exec w₁ = w₁.runUpdate c (.nanoSleepUntil u) := by
    simp only [WaitOp.exec, show w₁.kernel.currentTaskTCB = some c from hc, hpc₁]
  obtain ⟨⟨r₁, sl₁, il₁, hb₁⟩, hun₁⟩ := Good.of_exec (lock_good h ⟨c, hc, hpc⟩) hex₁
  -- both ways out of the list update
  have hrest : ∀ (k₂ : Kernel) (pc₂ pc₃ : Pc),
      WaitOp.update.exec w₁ = .ok { w₁ with kernel := k₂, pc := Function.update w₁.pc c pc₂ } →
      k₂.currentTaskTCB = some c → k₂.postponeTaskSwitchesCounter = 1 →
      k₂.taskSwitchesPostponedFlag = false → k₂.state = w.kernel.state →
      (pc₂ = .leaving ∧ pc₃ = .user ∨ pc₂ = .updated .sleep ∧ pc₃ = .window .sleep) →
      ∃ w', w.sleepUntil u = .ok w' ∧ (∃ r sl il, BlockInv w' r sl il) ∧
        Untouched w.kernel w'.kernel ∧ w'.kernel = k₂.unlocked ∧
        (∀ t, t ≠ c → w'.pc t = w.pc t) ∧ w'.pc c = pc₃ := by
    intro k₂ pc₂ pc₃ hex₂ hc₂ hp₂ hf₂ hs₂ hpc₂
    let w₂ : WaitState := { w₁ with kernel := k₂, pc := Function.update w₁.pc c pc₂ }
    let w₃ : WaitState := { w₂ with kernel := k₂.unlocked, pc := Function.update w₂.pc c pc₃ }
    have hpcc : w₂.pc c = pc₂ := Function.update_self _ _ _
    have hex₃ : WaitOp.unlock.exec w₂ = .ok w₃ := by
      have hunl := Kernel.unlockStuff_plain hp₂ hf₂
      rcases hpc₂ with ⟨h2, h3⟩ | ⟨h2, h3⟩ <;>
        simp [WaitOp.exec, w₂, w₃, hc₂, hunl, h2, h3, WaitState.advance]
    obtain ⟨⟨r₂, sl₂, il₂, hb₂⟩, hun₂⟩ :=
      Good.of_exec (update_good hb₁ ⟨c, _, hc, hpc₁⟩) hex₂
    have hen₃ : WaitOp.Enabled w₂ .unlock := by
      refine ⟨c, hc₂, ?_⟩
      rcases hpc₂ with ⟨h2, -⟩ | ⟨h2, -⟩
      · exact Or.inl (hpcc.trans h2)
      · exact Or.inr ⟨.sleep, hpcc.trans h2⟩
    obtain ⟨hb₃, hun₃⟩ := Good.of_exec (unlock_good hb₂ hen₃) hex₃
    refine ⟨w₃, ?_, hb₃, (hun₁.trans hun₂ ?_).trans hun₃ rfl, rfl, fun t ht => ?_,
      Function.update_self _ _ _⟩
    · rw [WaitState.sleepUntil, hex₁]
      simp only [hex₂]
      exact hex₃
    · exact hc₂.trans hc.symm
    · change Function.update (Function.update (Function.update w.pc c _) c _) c _ t = _
      rw [Function.update_of_ne ht, Function.update_of_ne ht, Function.update_of_ne ht]
  by_cases hu : u < w.kernel.time
  · obtain ⟨w', hw', hb', hun', hk', ho', hc'⟩ := hrest w.kernel.lockStuff .leaving .user (by
      rw [hex₁']
      simp [WaitState.runUpdate, Kernel.nanoSleepUpdate, w₁, Kernel.lockStuff, hu])
      hc hp₁ h.counters.flag rfl (Or.inl ⟨rfl, rfl⟩)
    refine ⟨w', hw', hb', hun', ?_, ho', Or.inl hc'⟩
    rw [hk']
    exact hc
  · obtain ⟨w', hw', hb', hun', hk', ho', hc'⟩ := hrest
      ({ w.kernel.lockStuff with
        ttn := Function.update w.kernel.ttn c u }.pushWait c .sleeping)
      (.updated .sleep) (.window .sleep) (by
      rw [hex₁']
      simp [WaitState.runUpdate, Kernel.nanoSleepUpdate, w₁, Kernel.lockStuff, hu])
      hc hp₁ h.counters.flag rfl (Or.inr ⟨rfl, rfl⟩)
    refine ⟨w', hw', hb', hun', ?_, ho', Or.inr ⟨hc', ?_⟩⟩
    · rw [hk']
      exact hc
    · rw [hk']
      rfl

/-- Blocking inside a locked section comes to the same as blocking behind it. -/
theorem block_in_lock (st : TaskState) (hp : k.postponeTaskSwitchesCounter = 0)
    (hf : k.taskSwitchesPostponedFlag = false) (hc : k.currentTaskTCB = some c)
    (hu : k.stackUnlocks c = 0) :
    ∃ k', k.lockStuff.blockTask st = .ok k' ∧ k'.unlockStuff = k.blockTask st := by
  let k₁ : Kernel := { k.lockStuff.lockScheduler.setState c st with
    stackUnlocks := Function.update k.stackUnlocks c (k.stackUnlocks c + 1)
    taskSwitchesPostponedFlag := true }
  have hsch : k.lockStuff.blockTask st = .ok k₁.resume := by
    have hc₁ : (k.lockStuff.lockScheduler.setState c st).currentTaskTCB = some c := hc
    have hp₁ : k.postponeTaskSwitchesCounter + 1 ≠ 0 := by
      rw [hp]
      decide
    have hpost := Kernel.schedule_postponed (k := { k.lockStuff.lockScheduler.setState c st with
      stackUnlocks := Function.update k.stackUnlocks c (k.stackUnlocks c + 1) }) hp₁
    rw [Kernel.blockTask, show k.lockStuff.currentTaskTCB = some c from hc]
    simp only [Kernel.scheduleThenUnlock, Kernel.pushUnlock_eq hc₁]
    rw [show (k.lockStuff.lockScheduler.setState c st).stackUnlocks = k.stackUnlocks from rfl,
      hpost]
  let k₂ : Kernel := { k₁ with
    irqDisableCounter := k₁.irqDisableCounter - k₁.stackUnlocks c
    stackUnlocks := Function.update k₁.stackUnlocks c 0 }
  have hirq : k₂.irqDisableCounter = k.irqDisableCounter + 1 := by
    change k.irqDisableCounter + 1 + 1 -
      (Function.update k.stackUnlocks c (k.stackUnlocks c + 1) c : ℕ) = _
    rw [Function.update_self, hu]
    omega
  have hun : k₂.stackUnlocks = k.stackUnlocks := by
    change Function.update (Function.update k.stackUnlocks c _) c 0 = _
    rw [Function.update_idem, ← hu, Function.update_eq_self]
  have hp₂ : k₂.postponeTaskSwitchesCounter = 1 := by
    change k.postponeTaskSwitchesCounter + 1 = 1
    rw [hp]
    rfl
  have hsame : ({ k₂ with
      postponeTaskSwitchesCounter := 0, taskSwitchesPostponedFlag := false } : Kernel) =
      k.lockScheduler.setState c st := by
    rw [hirq, hun, ← hp, ← hf]
    rfl
  refine ⟨k₂, ?_, ?_⟩
  · rw [hsch, Kernel.resume_some (k := k₁) hc]
  · rw [Kernel.unlockStuff_switch (k := k₂) hp₂ rfl hc, hsame, Kernel.blockTask, hc]

/-- The waiter `c` goes behind the queue `q`. -/
structure Enqueued (m : Semaphore) (next : Tid → Option Tid) (q : List Tid) (c : Tid)
    (m' : Semaphore) (next' : Tid → Option Tid) : Prop where
  chain : Chain next' m'.firstWaiting (q ++ [c])
  last : m'.lastWaiting = some c
  maxCount : m'.maxCount = m.maxCount
  currentCount : m'.currentCount = m.currentCount
  next : ∀ x, x ∉ q → x ≠ c → next' x = next x

theorem enqueue_spec {q : List Tid} (hch : Chain k.next m.firstWaiting q)
    (hlast : q ≠ [] → m.lastWaiting = q.getLast?) (hc : c ∉ q) :
    ∃ m' next', m.enqueue k c = .ok (m', { k with next := next' }) ∧
      Enqueued m k.next q c m' next' := by
  rcases List.eq_nil_or_concat q with rfl | ⟨u, l, rfl⟩
  · have hf : m.firstWaiting = none := chain_nil.mp hch
    refine ⟨{ m with firstWaiting := some c, lastWaiting := some c },
      Function.update k.next c none, ?_, ?_, rfl, rfl, rfl, fun x _ hx => ?_⟩
    · rw [Semaphore.enqueue, hf]
      rfl
    · exact chain_cons.mpr ⟨rfl, chain_nil.mpr (Function.update_self _ _ _)⟩
    · exact Function.update_of_ne hx _ _
  · rw [List.concat_eq_append] at *
    have hl : m.lastWaiting = some l := by
      rw [hlast (by simp), List.getLast?_concat]
    obtain ⟨f, hf⟩ : ∃ f, m.firstWaiting = some f := by
      cases u with
      | nil => exact ⟨l, (chain_cons.mp hch).1⟩
      | cons f u => exact ⟨f, (chain_cons.mp hch).1⟩
    have hcl : c ≠ l := fun he => hc (by simp [he])
    have hlu : l ∉ u := by
      intro hm
      exact (List.nodup_append.mp (chain_nodup hch)).2.2 l hm l List.mem_cons_self rfl
    refine ⟨{ m with lastWaiting := some c },
      Function.update (Function.update k.next c none) l (some c), ?_, ?_, rfl, rfl, rfl,
      fun x hx hxc => ?_⟩
    · rw [Semaphore.enqueue, hf, hl]
      rfl
    · refine seg_concat.mpr ⟨seg_snoc ((seg_update_of_notMem hc).mpr hch) hlu, ?_⟩
      rw [Function.update_of_ne hcl, Function.update_self]
    · have hxl : x ≠ l := fun he => hx (by simp [he])
      rw [Function.update_of_ne hxl, Function.update_of_ne hxc]

theorem SemInv.user (h : SemInv s queue r sl il)
    (hc : ∀ c, s.kernel.currentTaskTCB = some c → s.pc c = .user) (t : Tid) : s.pc t = .user := by
  rcases h.block.pcs t with hp | hp | hp
  · exact hp
  · rcases h.places t with hu | hu
    · exact hu
    · rw [hu] at hp
      cases hp
  · exact hc t hp

theorem SemInv.user_of_current (h : SemInv s queue r sl il) (hc : s.kernel.currentTaskTCB = some c)
    (hpc : s.pc c = .user) (t : Tid) : s.pc t = .user := by
  refine h.user (fun d hd => ?_) t
  rw [← Option.some.inj (hc.symm.trans hd)]
  exact hpc

/-- Writes to pointers of tasks that are on no list of the scheduler. -/
theorem BlockInv.relink (h : BlockInv w r sl il) (next' : Tid → Option Tid)
    (hn : ∀ x, x ∈ r ∨ x ∈ sl ∨ x ∈ il → next' x = w.kernel.next x) :
    BlockInv { w with kernel := { w.kernel with next := next' } } r sl il := by
  refine ⟨⟨h.sleeping, h.waiting, h.poked, h.once⟩, ⟨h.pcs, h.preempted, h.running, h.idle⟩, ?_, ?_,
    ?_, ⟨h.counters.flag, h.counters.dead, h.counters.postpone, h.counters.idle,
      h.counters.unlocks⟩⟩
  · refine ⟨?_, h.ready.nodup, h.ready.ready, h.ready.last, h.ready.empty⟩
    exact (seg_congr fun x hx => hn x (Or.inl hx)).mpr h.ready.seg
  · exact (chain_congr fun x hx => hn x (Or.inr (Or.inl hx))).mpr h.sleepers
  · exact (chain_congr fun x hx => hn x (Or.inr (Or.inr hx))).mpr h.irqs

/-- The running task blocks for a lock. -/
theorem BlockInv.blockForLock (h : BlockInv w r sl il) (hc : w.kernel.currentTaskTCB = some c)
    (hpc : w.pc c = .user) : ∃ k' r', w.kernel.blockTask .waitingForLock = .ok k' ∧
      BlockInv { w with kernel := k' } r' sl il ∧ Untouched w.kernel k' ∧
      k'.state c = .waitingForLock ∧ k'.next = w.kernel.next := by
  have hrun := (h.running c hc).2
  have hloc : (w.pc c).locks = 0 := by
    rw [hpc]
    rfl
  have hp := (h.counters.postpone c hc).1
  rw [hloc] at hp
  have hpcs : Function.update w.pc c .user = w.pc := by
    rw [← hpc, Function.update_eq_self]
  -- the running task waited for nothing, and waits for none of the three reasons now
  have hwaits : ∀ k' : Kernel, k'.allocated = w.kernel.allocated →
      k'.state c = .waitingForLock →
      (∀ x, x ≠ c → k'.state x = w.kernel.state x ∨
        (w.Runnable x ∧ WaitState.Runnable { w with kernel := k' } x)) →
      ∀ x reason, WaitState.Waits { w with kernel := k' } x reason ↔ w.Waits x reason := by
    intro k' hal hcs hother x reason
    by_cases hxc : x = c
    · rw [hxc, WaitState.waits_iff_pending (Or.inl hrun)]
      refine or_iff_right fun hs => ?_
      rw [hcs] at hs
      cases reason <;> cases hs.2
    · exact WaitState.waits_congr rfl hal (hother x hxc)
  rcases Kernel.blockTask_spec .waitingForLock hp h.counters.dead hc h.ready
    (by decide) with ⟨rfl, hb⟩ | ⟨t, r', f, rfl, hb⟩
  · have hcs : (w.kernel.parkIdle c .waitingForLock).state c = .waitingForLock :=
      Function.update_self _ _ _
    have hinv := h.block_idle .waitingForLock hc hloc (by decide) (by
      rw [hpcs]
      exact hwaits _ rfl hcs fun x hx => Or.inl (Function.update_of_ne hx _ _))
    rw [hpcs] at hinv
    exact ⟨_, [], hb, hinv, untouched_parkIdle hrun, hcs, rfl⟩
  · have hts := (h.ready.ready t List.mem_cons_self).2
    have hct : c ≠ t := by
      intro he
      rw [← he, hrun] at hts
      cases hts
    have hcs : (w.kernel.park c t .waitingForLock f).state c = .waitingForLock :=
      (Function.update_of_ne hct _ _).trans (Function.update_self _ _ _)
    have hinv := h.block_switch (w := f) .waitingForLock hc hloc (by
      rw [hpcs]
      refine hwaits _ rfl hcs fun x hx => ?_
      by_cases hxt : x = t
      · rw [hxt]
        exact Or.inr ⟨Or.inr hts, Or.inl (Function.update_self _ _ _)⟩
      · exact Or.inl ((Function.update_of_ne hxt _ _).trans (Function.update_of_ne hx _ _)))
    rw [hpcs] at hinv
    exact ⟨_, r', hb, hinv, untouched_park hrun hts, hcs, rfl⟩

/-- A semaphore that is held by as many tasks as it admits. -/
theorem acquire_full {q : List Tid} (h : BlockInv w r sl il)
    (hc : w.kernel.currentTaskTCB = some c) (hpc : w.pc c = .user)
    (hch : Chain w.kernel.next m.firstWaiting q) (hlast : q ≠ [] → m.lastWaiting = q.getLast?)
    (hq : ∀ x ∈ q, w.kernel.state x = .waitingForLock)
    (hfull : ¬ m.currentCount < m.maxCount) :
    ∃ m' k' r', m.acquire w.kernel = .ok (m', k') ∧ BlockInv { w with kernel := k' } r' sl il ∧
      Enqueued m w.kernel.next q c m' k'.next ∧ k'.state c = .waitingForLock ∧
      k'.allocated = w.kernel.allocated ∧
      (∀ x, w.kernel.state x = .waitingForLock → k'.state x = .waitingForLock) ∧
      ∀ x, w.kernel.state x = .ready → k'.state x = .ready ∨ k'.currentTaskTCB = some x := by
  have hrun := (h.running c hc).2
  obtain ⟨hp, -, hu⟩ := h.counters.postpone c hc
  rw [hpc] at hp
  have hcq : c ∉ q := by
    intro hm
    have hs := hq c hm
    rw [hrun] at hs
    cases hs
  obtain ⟨m', next', henq, hE⟩ := enqueue_spec (k := w.kernel.lockStuff) hch hlast hcq
  let k₁ : Kernel := { w.kernel with next := next' }
  have hnot : ∀ x, x ∈ r ∨ x ∈ sl ∨ x ∈ il → next' x = w.kernel.next x := by
    intro x hx
    refine hE.next x (fun hm => ?_) (fun he => ?_)
    · obtain ⟨hr, hn⟩ := h.lock_not_listed (hq x hm)
      rcases hx with hx | hx | hx
      · exact hr hx
      · exact hn _ ((h.sleeping x).mp hx)
      · exact hn _ ((h.waiting x).mp hx)
    · have hnp : ∀ reason, ¬ (w.pc c).Pending reason := by
        intro reason
        simp [hpc, Pc.Pending]
      obtain ⟨hcs, hci⟩ := h.running_not_listed hc ⟨hnp .sleep, hnp .irq⟩
      rw [he] at hx
      rcases hx with hx | hx | hx
      · exact h.ready.not_mem (by simp [hrun]) hx
      · exact hcs hx
      · exact hci hx
  obtain ⟨k', r', hblock, hinv, hun, hcs, hnext⟩ := (h.relink next' hnot).blockForLock hc hpc
  obtain ⟨k₂, hk₂, hunl⟩ := block_in_lock (k := k₁) .waitingForLock hp h.counters.flag hc hu
  refine ⟨m', k', r', ?_, hinv, ?_, hcs, hun.allocated, fun x hx => (hun.blocked x hx).1, hun.ready⟩
  · have henq' : m.enqueue w.kernel.lockStuff c = .ok (m', k₁.lockStuff) := henq
    have hunl' : k₂.unlockStuff = .ok k' := hunl.trans hblock
    rw [Semaphore.acquire, if_neg hfull]
    simp only [show w.kernel.lockStuff.currentTaskTCB = some c from hc, henq', hk₂, hunl']
  · rw [hnext]
    exact hE

/-- `s'` differs from `s` in the semaphore at `a` alone, which is `m'` there. -/
structure OnlyAt (s s' : SemState) (queue queue' : Nat → List Tid) (a : Nat) (m' : Semaphore) :
    Prop where
  sem : s'.sem = Function.update s.sem a (some m')
  holders : ∀ b, b ≠ a → s'.holders b = s.holders b
  granted : ∀ b, b ≠ a → s'.granted b = s.granted b
  queued : ∀ b, b ≠ a → s'.queued b = s.queued b
  grants : ∀ b, b ≠ a → s'.grants b = s.grants b
  queue : ∀ b, b ≠ a → queue' b = queue b

theorem SemQueues.of_onlyAt {queue' : Nat → List Tid} (h : SemQueues s queue)
    (ho : OnlyAt s s' queue queue' a m')
    (hchains : ∀ b, b ≠ a → ∀ x ∈ queue b, s'.kernel.next x = s.kernel.next x)
    (hchain : Chain s'.kernel.next m'.firstWaiting (queue' a))
    (hlast : queue' a ≠ [] → m'.lastWaiting = (queue' a).getLast?)
    (hwaiting : ∀ b, ∀ t ∈ queue' b, t ∈ s'.kernel.allocated ∧
      s'.kernel.state t = .waitingForLock ∧ s'.acquiring t = some b)
    (hgranted : ∀ b, ∀ t ∈ s'.granted b, s'.acquiring t = some b ∧
      (s'.kernel.state t = .ready ∨ s'.kernel.currentTaskTCB = some t))
    (honce : (s'.granted a).Nodup)
    (hinside : ∀ t b, s'.acquiring t = some b → t ∈ queue' b ∨ t ∈ s'.granted b)
    (hcount : m'.currentCount = (s'.holders a).length + (s'.granted a).length ∧
      (1 ≤ m'.maxCount → m'.currentCount ≤ m'.maxCount))
    (horder : s'.queued a = s'.grants a ++ queue' a) : SemQueues s' queue' := by
  have hself : ∀ m, s'.sem a = some m → m = m' := by
    intro m hm
    rw [ho.sem, Function.update_self] at hm
    exact (Option.some.inj hm).symm
  have hother : ∀ b, b ≠ a → s'.sem b = s.sem b := by
    intro b hb
    rw [ho.sem, Function.update_of_ne hb]
  refine ⟨fun b m hb => ?_, fun b m hb => ?_, fun b hb => ?_, hwaiting, hgranted, fun b => ?_,
    hinside, fun b m hb => ?_, fun b => ?_⟩ <;> by_cases hba : b = a
  · subst hba
    rw [hself m hb]
    exact hchain
  · rw [hother b hba] at hb
    rw [ho.queue b hba]
    exact (chain_congr (hchains b hba)).mpr (h.chain b m hb)
  · subst hba
    rw [hself m hb]
    exact hlast
  · rw [hother b hba] at hb
    rw [ho.queue b hba]
    exact h.last b m hb
  · rw [hba, ho.sem, Function.update_self] at hb
    cases hb
  · rw [hother b hba] at hb
    rw [ho.queue b hba, ho.granted b hba, ho.holders b hba]
    exact h.absent b hb
  · exact hba ▸ honce
  · rw [ho.granted b hba]
    exact h.once b
  · subst hba
    rw [hself m hb]
    exact hcount
  · rw [hother b hba] at hb
    rw [ho.holders b hba, ho.granted b hba]
    exact h.count b m hb
  · subst hba
    exact horder
  · rw [ho.queued b hba, ho.grants b hba, ho.queue b hba]
    exact h.order b

/-- The queue of another semaphore has no task in common. -/
theorem SemQueues.apart {b : Nat} (h : SemQueues s queue) (hb : b ≠ a) (ht : t ∈ queue b) :
    t ∉ queue a := by
  intro hm
  have hq := (h.waiting b t ht).2.2
  rw [(h.waiting a t hm).2.2] at hq
  exact hb (Option.some.inj hq).symm

theorem create_good {n : Int} (h : SemInv s queue r sl il) (hen : SemOp.Enabled s (.create a n)) :
    ∃ s', SemOp.exec s (.create a n) = .ok s' ∧ SemGood s' := by
  obtain ⟨-, hfresh⟩ := hen
  obtain ⟨hqa, hga, hha⟩ := h.absent a hfresh
  let s₁ : SemState := { s with sem := Function.update s.sem a (some (createSemaphore n)) }
  have ho : OnlyAt s s₁ queue queue a (createSemaphore n) :=
    ⟨rfl, fun _ _ => rfl, fun _ _ => rfl, fun _ _ => rfl, fun _ _ => rfl, fun _ _ => rfl⟩
  refine ⟨s₁, rfl, queue, r, sl, il, ⟨?_, h.block, h.settled, h.places, h.head⟩⟩
  refine h.of_onlyAt ho (fun _ _ _ _ => rfl) ?_ ?_ h.waiting h.granted (h.once a) h.inside ?_
    (h.order a)
  · rw [hqa]
    exact chain_nil.mpr rfl
  · exact fun hne => absurd hqa hne
  · simp only [s₁, hga, hha, createSemaphore, List.length_nil]
    omega

/-- A semaphore that still admits a task. -/
theorem acquire_free_good (h : SemInv s queue r sl il) (hc : s.kernel.currentTaskTCB = some c)
    (hpc : s.pc c = .user) (hm : s.sem a = some m) (hfree : m.currentCount < m.maxCount) :
    ∃ s', s.acquire a m c = .ok s' ∧ SemGood s' := by
  obtain ⟨hp, -, -⟩ := h.block.counters.postpone c hc
  rw [hpc] at hp
  have hp₁ : s.kernel.lockStuff.postponeTaskSwitchesCounter = 1 := by
    change s.kernel.postponeTaskSwitchesCounter + 1 = 1
    rw [hp]
    rfl
  have hunl := Kernel.unlockStuff_plain (k := s.kernel.lockStuff) hp₁ h.block.counters.flag
  obtain ⟨hcount, -⟩ := h.count a m hm
  let s₁ : SemState := { s with
    kernel := s.kernel.lockStuff.unlocked
    sem := Function.update s.sem a (some { m with currentCount := m.currentCount + 1 })
    holders := Function.update s.holders a (c :: s.holders a) }
  have ho : OnlyAt s s₁ queue queue a { m with currentCount := m.currentCount + 1 } :=
    ⟨rfl, fun b hb => Function.update_of_ne hb _ _, fun _ _ => rfl, fun _ _ => rfl, fun _ _ => rfl,
      fun _ _ => rfl⟩
  refine ⟨s₁, ?_, queue, r, sl, il, ⟨?_, h.block.relock hc hpc, h.settled, h.places, h.head⟩⟩
  · rw [SemState.acquire, Semaphore.acquire, if_pos hfree]
    simp only [hunl, if_pos hfree]
    rfl
  · refine h.of_onlyAt ho (fun _ _ _ _ => rfl) (h.chain a m hm) (h.last a m hm) h.waiting h.granted
      (h.once a) h.inside ?_ (h.order a)
    simp only [s₁, Function.update_self, List.length_cons]
    omega

/-- The task `c` waits at the end of the queue of `a`. -/
def SemState.join (s : SemState) (a : Nat) (m : Semaphore) (c : Tid) (k : Kernel) : SemState :=
  { s with
    kernel := k
    sem := Function.update s.sem a (some m)
    acquiring := Function.update s.acquiring c (some a)
    queued := Function.update s.queued a (s.queued a ++ [c]) }

/-- The queues then. -/
def joined (queue : Nat → List Tid) (a : Nat) (c : Tid) : Nat → List Tid :=
  Function.update queue a (queue a ++ [c])

theorem joined_self : joined queue a c a = queue a ++ [c] := Function.update_self ..

theorem mem_joined {b : Nat} : t ∈ joined queue a c b ↔ t ∈ queue b ∨ t = c ∧ b = a := by
  by_cases hba : b = a
  · subst hba
    rw [joined_self, List.mem_append, List.mem_singleton, and_iff_left rfl]
  · rw [joined, Function.update_of_ne hba, or_iff_left fun h => hba h.2]

theorem join_onlyAt (s : SemState) (queue : Nat → List Tid) (a : Nat) (m : Semaphore) (c : Tid)
    (k : Kernel) : OnlyAt s (s.join a m c k) queue (joined queue a c) a m :=
  ⟨rfl, fun _ _ => rfl, fun _ _ => rfl, fun _ hb => Function.update_of_ne hb _ _, fun _ _ => rfl,
    fun _ hb => Function.update_of_ne hb _ _⟩

/-- A task that runs is in no queue. -/
theorem SemQueues.running_not_mem (h : SemQueues s queue) (hrun : s.kernel.state c = .running)
    (b : Nat) : c ∉ queue b := by
  intro hb
  have hs := (h.waiting b c hb).2.1
  rw [hrun] at hs
  cases hs

/-- What the kernel has to leave for the queues to be as they should. -/
theorem SemInv.join_queues (h : SemInv s queue r sl il) (hc : s.kernel.currentTaskTCB = some c)
    (hm : s.sem a = some m) (hE : Enqueued m s.kernel.next (queue a) c m' k.next)
    (hcs : k.state c = .waitingForLock) (hal : k.allocated = s.kernel.allocated)
    (hblocked : ∀ x, s.kernel.state x = .waitingForLock → k.state x = .waitingForLock)
    (hready : ∀ x, s.kernel.state x = .ready → k.state x = .ready ∨ k.currentTaskTCB = some x) :
    SemQueues (s.join a m' c k) (joined queue a c) := by
  obtain ⟨hca, hrun⟩ := h.block.running c hc
  have hcq := h.running_not_mem hrun
  have hacquiring : ∀ x, x ≠ c → (s.join a m' c k).acquiring x = s.acquiring x :=
    fun x hx => Function.update_of_ne hx _ _
  have hself : (s.join a m' c k).acquiring c = some a := Function.update_self _ _ _
  refine h.of_onlyAt (join_onlyAt s queue a m' c k) (fun b hb x hx => ?_) ?_ (fun _ => ?_)
    (fun b t ht => ?_) (fun b t ht => ?_) (h.once a) (fun t b ht => ?_) ?_ ?_
  · exact hE.next x (h.apart hb hx) fun he => hcq b (he ▸ hx)
  · rw [joined_self]
    exact hE.chain
  · rw [joined_self, List.getLast?_concat]
    exact hE.last
  · rcases mem_joined.mp ht with hmem | ⟨rfl, rfl⟩
    · obtain ⟨hta, hts, htq⟩ := h.waiting b t hmem
      have htc : t ≠ c := fun he => hcq b (he ▸ hmem)
      exact ⟨hal ▸ hta, hblocked t hts, (hacquiring t htc).trans htq⟩
    · exact ⟨hal ▸ hca, hcs, hself⟩
  · obtain ⟨htq, hts⟩ := h.granted b t ht
    have htc : t ≠ c := by
      intro he
      rw [he, h.settled c hc] at htq
      cases htq
    refine ⟨(hacquiring t htc).trans htq, ?_⟩
    rcases hts with hts | hts
    · exact hready t hts
    · exact absurd (Option.some.inj (hts.symm.trans hc)) htc
  · by_cases htc : t = c
    · subst htc
      obtain rfl : a = b := Option.some.inj (hself.symm.trans ht)
      exact Or.inl (mem_joined.mpr (Or.inr ⟨rfl, rfl⟩))
    · exact (h.inside t b ((hacquiring t htc).symm.trans ht)).imp_left fun hmem =>
        mem_joined.mpr (Or.inl hmem)
  · rw [hE.currentCount, hE.maxCount]
    exact h.count a m hm
  · have hqueued : (s.join a m' c k).queued a = s.queued a ++ [c] := Function.update_self _ _ _
    rw [joined_self, hqueued, h.order a, List.append_assoc]
    rfl

/-- A semaphore that admits no further task. -/
theorem acquire_full_good (h : SemInv s queue r sl il) (hc : s.kernel.currentTaskTCB = some c)
    (hpc : s.pc c = .user) (hm : s.sem a = some m) (hfull : ¬ m.currentCount < m.maxCount) :
    ∃ s', s.acquire a m c = .ok s' ∧ SemGood s' := by
  obtain ⟨m', k', r', hacq, hinv, hE, hcs, hal, hblocked, hready⟩ := acquire_full h.block hc hpc
    (h.chain a m hm) (h.last a m hm) (fun x hx => (h.waiting a x hx).2.1) hfull
  have hq := h.join_queues hc hm hE hcs hal hblocked hready
  obtain ⟨hq', hset⟩ := hq.settle fun d hd => (hinv.running d hd).2
  have hw : (s.join a m' c k').settle.toWaitState = (s.join a m' c k').toWaitState :=
    settle_toWaitState
  have huser := h.user_of_current hc hpc
  refine ⟨(s.join a m' c k').settle, ?_, joined queue a c, r', sl, il, ⟨hq', ?_, hset, ?_, ?_⟩⟩
  · rw [SemState.acquire, hacq]
    simp only [if_neg hfull]
    rfl
  · rw [hw]
    exact hinv
  · rw [hw]
    exact h.places
  · rw [hw]
    intro d _ hd
    have hpcd : (s.join a m' c k').pc d = .user := huser d
    rw [hpcd] at hd
    cases hd

theorem acquire_good (h : SemInv s queue r sl il) (hen : SemOp.Enabled s (.acquire a)) :
    ∃ s', SemOp.exec s (.acquire a) = .ok s' ∧ SemGood s' := by
  obtain ⟨⟨c, hc, hpc⟩, hsem⟩ := hen
  obtain ⟨m, hm⟩ := Option.ne_none_iff_exists'.mp hsem
  have hex : SemOp.exec s (.acquire a) = s.acquire a m c := by
    simp only [SemOp.exec, hm, hc]
  rw [hex]
  by_cases hfree : m.currentCount < m.maxCount
  · exact acquire_free_good h hc hpc hm hfree
  · exact acquire_full_good h hc hpc hm hfree

/-- A release that finds nobody waiting. -/
theorem release_free_good (h : SemInv s queue r sl il) (hc : s.kernel.currentTaskTCB = some c)
    (hpc : s.pc c = .user) (hm : s.sem a = some m) (hheld : c ∈ s.holders a)
    (hf : m.firstWaiting = none) : ∃ s', s.release a m c = .ok s' ∧ SemGood s' := by
  obtain ⟨hp, -, -⟩ := h.block.counters.postpone c hc
  rw [hpc] at hp
  have hp₁ : s.kernel.lockStuff.postponeTaskSwitchesCounter = 1 := by
    change s.kernel.postponeTaskSwitchesCounter + 1 = 1
    rw [hp]
    rfl
  have hunl := Kernel.unlockStuff_plain (k := s.kernel.lockStuff) hp₁ h.block.counters.flag
  obtain ⟨hcount, hmax⟩ := h.count a m hm
  let s₁ : SemState := { s with
    kernel := s.kernel.lockStuff.unlocked
    sem := Function.update s.sem a (some { m with currentCount := m.currentCount - 1 })
    holders := Function.update s.holders a ((s.holders a).erase c) }
  have ho : OnlyAt s s₁ queue queue a { m with currentCount := m.currentCount - 1 } :=
    ⟨rfl, fun b hb => Function.update_of_ne hb _ _, fun _ _ => rfl, fun _ _ => rfl, fun _ _ => rfl,
      fun _ _ => rfl⟩
  refine ⟨s₁, ?_, queue, r, sl, il, ⟨?_, h.block.relock hc hpc, h.settled, h.places, h.head⟩⟩
  · rw [SemState.release, Semaphore.release, hf]
    simp only [hunl, s₁, hf]
  · refine h.of_onlyAt ho (fun _ _ _ _ => rfl) (h.chain a m hm) (h.last a m hm) h.waiting h.granted
      (h.once a) h.inside ?_ (h.order a)
    have hlen := List.length_erase_of_mem hheld
    have hpos := List.length_pos_of_mem hheld
    simp only [s₁, Function.update_self, hlen]
    omega

/-- The first waiter, and those behind it. -/
theorem SemQueues.first_waiter (h : SemQueues s queue) (hm : s.sem a = some m)
    (hf : m.firstWaiting = some t) :
    ∃ q, queue a = t :: q ∧ Chain s.kernel.next (s.kernel.next t) q ∧ t ∉ q := by
  have hch := h.chain a m hm
  rw [hf] at hch
  obtain ⟨q, hqa, hq⟩ := chain_some.mp hch
  have hnd := chain_nodup hch
  rw [hqa] at hnd
  exact ⟨q, hqa, hq, (List.nodup_cons.mp hnd).1⟩

/-- The task `c` gives the semaphore at `a` to `t`. -/
def SemState.grant (s : SemState) (a : Nat) (m : Semaphore) (c t : Tid) (k : Kernel) : SemState :=
  { s with
    kernel := k
    sem := Function.update s.sem a (some m)
    holders := Function.update s.holders a ((s.holders a).erase c)
    granted := Function.update s.granted a (t :: s.granted a)
    grants := Function.update s.grants a (s.grants a ++ [t]) }

theorem grant_onlyAt (s : SemState) (queue : Nat → List Tid) (a : Nat) (m : Semaphore) (c t : Tid)
    (k : Kernel) (q : List Tid) :
    OnlyAt s (s.grant a m c t k) queue (Function.update queue a q) a m :=
  ⟨rfl, fun _ hb => Function.update_of_ne hb _ _, fun _ hb => Function.update_of_ne hb _ _,
    fun _ _ => rfl, fun _ hb => Function.update_of_ne hb _ _, fun _ hb => Function.update_of_ne hb _ _⟩

theorem grant_granted_self : (s.grant a m c t k).granted a = t :: s.granted a :=
  Function.update_self ..

theorem mem_grant_granted {b : Nat} {x : Tid} :
    x ∈ (s.grant a m c t k).granted b ↔ x = t ∧ b = a ∨ x ∈ s.granted b := by
  by_cases hba : b = a
  · subst hba
    rw [grant_granted_self, List.mem_cons, and_iff_left rfl]
  · have hsame : (s.grant a m c t k).granted b = s.granted b := Function.update_of_ne hba _ _
    rw [hsame, or_iff_right fun h => hba h.2]

/-- Those that wait on. -/
theorem SemQueues.mem_rest {q : List Tid} {b : Nat} {x : Tid} (h : SemQueues s queue)
    (hqa : queue a = t :: q) (htq : t ∉ q) :
    x ∈ Function.update queue a q b ↔ x ∈ queue b ∧ x ≠ t := by
  have hta : t ∈ queue a := hqa ▸ List.mem_cons_self
  by_cases hba : b = a
  · subst hba
    rw [Function.update_self, hqa, List.mem_cons]
    constructor
    · exact fun hx => ⟨Or.inr hx, fun he => htq (he ▸ hx)⟩
    · exact fun hx => hx.1.resolve_left hx.2
  · rw [Function.update_of_ne hba]
    exact ⟨fun hx => ⟨hx, fun he => h.apart hba hx (he ▸ hta)⟩, fun hx => hx.1⟩

/-- The other waiters keep their state and their pointers. -/
theorem SemInv.waits_on {slot : Nat → Option Tid} {b : Nat} {x : Tid} (h : SemInv s queue r sl il)
    (hw : WokenOne s.toWaitState r t ⟨k, s.pc, slot⟩) (hx : x ∈ queue b) (hxt : x ≠ t) :
    k.state x = .waitingForLock ∧ k.next x = s.kernel.next x := by
  have hxs := (h.waiting b x hx).2.1
  exact ⟨(hw.state x).trans ((if_neg hxt).trans hxs), hw.next x hxt (h.block.lock_not_listed hxs).1⟩

/-- A place goes from a holder to a waiter. -/
theorem SemQueues.grant_count (h : SemQueues s queue) (hm : s.sem a = some m)
    (hheld : c ∈ s.holders a) (k : Kernel) (first : Option Tid) :
    let s' := s.grant a { m with firstWaiting := first } c t k
    m.currentCount = (s'.holders a).length + (s'.granted a).length ∧
      (1 ≤ m.maxCount → m.currentCount ≤ m.maxCount) := by
  obtain ⟨hcount, hmax⟩ := h.count a m hm
  have hlen := List.length_erase_of_mem hheld
  have hpos := List.length_pos_of_mem hheld
  refine ⟨?_, hmax⟩
  simp only [SemState.grant, Function.update_self, hlen, List.length_cons]
  omega

/-- The queues behind a grant. -/
theorem SemInv.grant_queues {slot : Nat → Option Tid} {q : List Tid} (h : SemInv s queue r sl il)
    (hm : s.sem a = some m) (hheld : c ∈ s.holders a) (hqa : queue a = t :: q)
    (hq : Chain s.kernel.next (s.kernel.next t) q) (htq : t ∉ q)
    (hw : WokenOne s.toWaitState r t ⟨k, s.pc, slot⟩) :
    SemQueues (s.grant a { m with firstWaiting := s.kernel.next t } c t k)
      (Function.update queue a q) := by
  have hta : t ∈ queue a := hqa ▸ List.mem_cons_self
  obtain ⟨-, hts, htacq⟩ := h.waiting a t hta
  have hrest : ∀ {b x}, x ∈ Function.update queue a q b ↔ x ∈ queue b ∧ x ≠ t :=
    h.mem_rest hqa htq
  have hself : Function.update queue a q a = q := Function.update_self ..
  have htg : t ∉ s.granted a := by
    intro hg
    rcases (h.granted a t hg).2 with hs | hs
    · rw [hts] at hs
      cases hs
    · exact h.running_not_mem (h.block.running t hs).2 a hta
  refine h.of_onlyAt (grant_onlyAt s queue a _ c t k q)
    (fun b hb x hx => (h.waits_on hw hx fun he => h.apart hb hx (he ▸ hta)).2) ?_ (fun hne => ?_)
    (fun b x hx => ?_) (fun b x hx => ?_) ?_ (fun x b hx => ?_) (h.grant_count hm hheld k _) ?_
  · rw [hself]
    refine (chain_congr fun x hx => ?_).mpr hq
    obtain ⟨hxa, hxt⟩ := hrest.mp (show x ∈ Function.update queue a q a from hself.symm ▸ hx)
    exact (h.waits_on hw hxa hxt).2
  · rw [hself] at hne ⊢
    have hlast := h.last a m hm (hqa ▸ List.cons_ne_nil t q)
    rw [hqa, List.getLast?_cons_of_ne_nil hne] at hlast
    exact hlast
  · obtain ⟨hxb, hxt⟩ := hrest.mp hx
    obtain ⟨hxa, -, hxq⟩ := h.waiting b x hxb
    exact ⟨hw.allocated ▸ hxa, (h.waits_on hw hxb hxt).1, hxq⟩
  · rcases mem_grant_granted.mp hx with ⟨rfl, rfl⟩ | hmem
    · exact ⟨htacq, Or.inl ((hw.state x).trans (if_pos rfl))⟩
    · obtain ⟨hxq, hxs⟩ := h.granted b x hmem
      refine ⟨hxq, hxs.imp (fun hready => (hw.state x).trans ?_) fun hcur => hw.current.trans hcur⟩
      rw [hready, ite_self]
  · rw [grant_granted_self]
    exact List.nodup_cons.mpr ⟨htg, h.once a⟩
  · by_cases hxt : x = t
    · subst hxt
      obtain rfl : a = b := Option.some.inj (htacq.symm.trans hx)
      exact Or.inr (mem_grant_granted.mpr (Or.inl ⟨rfl, rfl⟩))
    · exact (h.inside x b hx).imp (fun hmem => hrest.mpr ⟨hmem, hxt⟩) fun hmem =>
        mem_grant_granted.mpr (Or.inr hmem)
  · have hgrants : (s.grant a { m with firstWaiting := s.kernel.next t } c t k).grants a =
        s.grants a ++ [t] := Function.update_self ..
    have hqueued := h.order a
    rw [hqa, List.append_cons] at hqueued
    rw [hself, hgrants]
    exact hqueued

/-- A release that grants the semaphore to the first waiter. -/
theorem release_grant_good (h : SemInv s queue r sl il) (hc : s.kernel.currentTaskTCB = some c)
    (hpc : s.pc c = .user) (hm : s.sem a = some m) (hheld : c ∈ s.holders a)
    (hf : m.firstWaiting = some t)
    (hclean : s.kernel.firstThread = none ∨ s.kernel.next t = none) :
    ∃ s', s.release a m c = .ok s' ∧ SemGood s' := by
  obtain ⟨q, hqa, hq, htq⟩ := h.first_waiter hm hf
  obtain ⟨hta, hts, -⟩ := h.waiting a t (hqa ▸ List.mem_cons_self)
  have hnrun : ¬ s.Runnable t := by
    intro hr
    rcases hr with hr | hr <;> rw [hts] at hr <;> cases hr
  obtain ⟨k', hk', hunl, hone⟩ := h.block.wakeOne hc hpc hta hnrun hclean
  have hw := hone s.slot
  have hnwaits := (h.block.lock_not_listed hts).2
  obtain ⟨hsleepers, hirqs⟩ := hw.lists h.block (hnwaits .sleep) (hnwaits .irq)
  have hb : BlockInv { s.toWaitState with kernel := k'.unlocked } (r ++ [t]) sl il := by
    refine ⟨?_, hw.places, hw.queue, hsleepers, hirqs, hw.counters⟩
    exact h.block.toPublished.congr (fun x reason => hw.waits_of_not (hnwaits reason)) rfl
  have hq' := h.grant_queues hm hheld hqa hq htq hw
  have huser := h.user_of_current hc hpc
  refine ⟨s.grant a { m with firstWaiting := s.kernel.next t } c t k'.unlocked, ?_,
    Function.update queue a q, r ++ [t], sl, il, ⟨hq', hb, fun d hd => ?_, h.places, fun d _ hd => ?_⟩⟩
  · rw [SemState.release, Semaphore.release, hf]
    simp only [hk', hunl]
    rfl
  · exact h.settled d (hw.current.symm.trans hd)
  · have hpcd : (s.grant a { m with firstWaiting := s.kernel.next t } c t k'.unlocked).pc d = .user :=
      huser d
    rw [hpcd] at hd
    cases hd

theorem release_good (h : SemInv s queue r sl il) (hen : SemOp.Enabled s (.release a))
    (hs : SemOp.Safe s (.release a)) : ∃ s', SemOp.exec s (.release a) = .ok s' ∧ SemGood s' := by
  obtain ⟨c, hc, hpc, hheld⟩ := hen
  obtain ⟨m, hm⟩ : ∃ m, s.sem a = some m := by
    rcases Option.eq_none_or_eq_some (s.sem a) with hn | hm
    · rw [(h.absent a hn).2.2] at hheld
      cases hheld
    · exact hm
  have hex : SemOp.exec s (.release a) = s.release a m c := by
    simp only [SemOp.exec, hm, hc]
  rw [hex]
  rcases Option.eq_none_or_eq_some m.firstWaiting with hf | ⟨t, hf⟩
  · exact release_free_good h hc hpc hm hheld hf
  · exact release_grant_good h hc hpc hm hheld hf (hs m t hm hf)

theorem withWait_user {r' sl' il' : List Tid} (h : SemInv s queue r sl il)
    (hb : BlockInv w r' sl' il') (hun : Untouched s.kernel w.kernel)
    (huser : ∀ t, w.pc t = .user) : ∃ s', s.withWait (.ok w) = .ok s' ∧ SemGood s' := by
  obtain ⟨s', hs', hinv⟩ := h.withWait hb hun (fun t => Or.inl (huser t)) fun c _ hc => by
    rw [huser c] at hc
    cases hc
  exact ⟨s', hs', queue, _, _, _, hinv⟩

theorem sleep_good {u : UInt64} (h : SemInv s queue r sl il) (hen : SemOp.Enabled s (.sleep u)) :
    ∃ s', SemOp.exec s (.sleep u) = .ok s' ∧ SemGood s' := by
  obtain ⟨c, hc, hpc⟩ := hen
  have huser := h.user_of_current hc hpc
  obtain ⟨w, hw, ⟨r', sl', il', hb⟩, hun, hcw, hother, hplace⟩ :=
    sleepUntil_spec (u := u) h.block hc hpc
  have hpl : ∀ t, w.pc t = .user ∨ t = c := by
    intro t
    by_cases htc : t = c
    · exact Or.inr htc
    · exact Or.inl ((hother t htc).trans (huser t))
  have hcur : ∀ t, w.pc t = .window .sleep → w.kernel.sleepingTaskList = some t := by
    intro t ht
    rcases hpl t with hu | htc
    · rw [hu] at ht
      cases ht
    · rw [htc] at ht ⊢
      rcases hplace with hu | hu
      · rw [hu] at ht
        cases ht
      · exact hu.2
  have hplaces : ∀ t, w.pc t = .user ∨ w.pc t = .window .sleep := by
    intro t
    rcases hpl t with hu | htc
    · exact Or.inl hu
    · exact htc ▸ hplace.imp_right fun hu => hu.1
  obtain ⟨s', hs', hinv⟩ := h.withWait hb hun hplaces fun t _ ht => hcur t ht
  refine ⟨s', ?_, queue, r', sl', il', hinv⟩
  rw [SemOp.exec, hw]
  exact hs'

/-- A step of the scheduler behind which nobody is in a call. -/
theorem waitOp_good {op : WaitOp} (h : SemInv s queue r sl il) (hg : Good s.toWaitState op)
    (huser : ∀ w, op.exec s.toWaitState = .ok w → ∀ t, w.pc t = .user)
    (hex : s.withWait (op.exec s.toWaitState) = .ok s') : SemGood s' := by
  rcases hg with ⟨w, r', sl', il', hw, hb, hun, -⟩ | ⟨e, he, -⟩
  · obtain ⟨s'', hs'', hgood⟩ := withWait_user h hb hun (huser w hw)
    rw [hw, hs''] at hex
    rw [← Except.ok.inj hex]
    exact hgood
  · rw [he] at hex
    cases hex

theorem semBlock_good (h : SemInv s queue r sl il) (hen : SemOp.Enabled s .block)
    (hex : SemOp.exec s .block = .ok s') : SemGood s' := by
  obtain ⟨c, hc, hpc⟩ := hen
  refine waitOp_good h (block_good h.block ⟨c, .sleep, hc, hpc⟩) (fun w hw t => ?_) hex
  have hadv : s.advance c .user (s.kernel.blockTask .waiting) = .ok w := by
    have hw' := hw
    simp only [WaitOp.exec, hc, hpc] at hw'
    exact hw'
  unfold WaitState.advance at hadv
  split at hadv
  · cases hadv
  · rw [← Except.ok.inj hadv]
    change Function.update s.pc c .user t = _
    by_cases htc : t = c
    · rw [htc, Function.update_self]
    · rw [Function.update_of_ne htc]
      rcases h.block.toPlaces.other (t := t) (fun he => htc (Option.some.inj (he.symm.trans hc))) with
        hp | ⟨hp, -⟩
      · exact hp
      · rcases h.places t with hu | hu
        · exact hu
        · rw [hu] at hp
          cases hp

/-- The timer interrupt stops the kernel when it finds the running task asleep. -/
theorem timer_in_window (hc : k.sleepingTaskList = some c) (hs : k.state c = .running) :
    ∃ e, k.pitIrqHandler = .error e := by
  have hvisit : ∀ k' : Kernel, k'.state c = .running → ∃ e, k'.visitSleeper c = .error e := by
    intro k' hs'
    by_cases hn : k'.next c = some c
    · exact ⟨_, by rw [Kernel.visitSleeper, if_pos hn]⟩
    · exact ⟨_, by rw [Kernel.visitSleeper, if_neg hn, if_pos (by rw [hs']; decide)]⟩
  obtain ⟨e, he⟩ := hvisit { k.enterTimer with sleepingTaskList := none } hs
  have hwalk : k.enterTimer.wakeSleepers = .error e := by
    unfold Kernel.wakeSleepers Kernel.loopBound
    rw [show k.enterTimer.sleepingTaskList = some c from hc, walk, he]
  refine ⟨e, ?_⟩
  rw [Kernel.pitIrqHandler]
  have hw : Kernel.wakeSleepers { k.lockStuff with time := k.lockStuff.time + 10000000 } = .error e :=
    hwalk
  rw [hw]

theorem withKernel_pc {e : Except Halt Kernel} (h : w.withKernel e = .ok w') : w'.pc = w.pc := by
  unfold WaitState.withKernel at h
  split at h
  · cases h
  · rw [← Except.ok.inj h]

theorem semTimer_good (h : SemInv s queue r sl il) (hen : SemOp.Enabled s .timer)
    (hs : SemOp.Safe s .timer) (hex : SemOp.exec s .timer = .ok s') : SemGood s' := by
  have hwait : WaitOp.timer.exec s.toWaitState = s.withKernel s.kernel.pitIrqHandler := by
    simp [WaitOp.exec]
  have huser : ∀ c, s.kernel.currentTaskTCB = some c → s.pc c = .user := by
    intro c hc
    refine (h.places c).resolve_right fun hw => ?_
    obtain ⟨e, he⟩ := timer_in_window (h.head c hc hw) (h.block.running c hc).2
    rw [SemOp.exec, hwait, he] at hex
    cases hex
  have hsafe : WaitOp.Safe s.toWaitState .timer := by
    refine ⟨fun c hc => ?_, hs⟩
    rw [huser c hc]
    exact ⟨by simp, by simp⟩
  refine waitOp_good h (timer_good h.block hen hsafe) (fun w hw t => ?_) hex
  rw [hwait] at hw
  rw [withKernel_pc hw]
  exact h.user huser t

theorem semLeaveIdle_good (h : SemInv s queue r sl il) (hen : SemOp.Enabled s .leaveIdle)
    (hex : SemOp.exec s .leaveIdle = .ok s') : SemGood s' := by
  have hwait : WaitOp.leaveIdle.exec s.toWaitState = s.withKernel s.kernel.leaveIdle := by
    simp [WaitOp.exec]
  refine waitOp_good h (leaveIdle_good h.block hen) (fun w hw t => ?_) hex
  rw [hwait] at hw
  rw [withKernel_pc hw]
  refine h.user (fun c hc => ?_) t
  rw [show s.kernel.currentTaskTCB = none from hen] at hc
  cases hc

theorem semStep_good {op : SemOp} (h : SemGood s) (hs : op.Safe s) (hstep : op.step s s') :
    SemGood s' := by
  obtain ⟨queue, r, sl, il, h⟩ := h
  obtain ⟨hen, hex⟩ := hstep
  have hdone : (∃ s'', op.exec s = .ok s'' ∧ SemGood s'') → SemGood s' := by
    intro hd
    obtain ⟨s'', hs'', hgood⟩ := hd
    rw [hex] at hs''
    rw [Except.ok.inj hs'']
    exact hgood
  cases op with
  | create a n => exact hdone (create_good h hen)
  | acquire a => exact hdone (acquire_good h hen)
  | release a => exact hdone (release_good h hen hs)
  | sleep u => exact hdone (sleep_good h hen)
  | block => exact semBlock_good h hen hex
  | timer => exact semTimer_good h hen hs hex
  | leaveIdle => exact semLeaveIdle_good h hen hex

/-- No semaphore has been created. -/
structure SemState.Start (s : SemState) : Prop extends s.toWaitState.Start where
  sem : ∀ a, s.sem a = none
  acquiring : ∀ t, s.acquiring t = none
  logs : ∀ a, s.holders a = [] ∧ s.granted a = [] ∧ s.queued a = [] ∧ s.grants a = []

theorem SemState.Start.semGood (h : s.Start) : SemGood s := by
  obtain ⟨r, hr⟩ := h.toStart.blockInv
  have habs : ∀ {a} {m : Semaphore}, s.sem a ≠ some m := by
    intro a m hm
    rw [h.sem a] at hm
    cases hm
  refine ⟨fun _ => [], r, [], [], ⟨⟨fun a m hm => absurd hm habs, fun a m hm => absurd hm habs,
    fun a _ => ⟨rfl, (h.logs a).2.1, (h.logs a).1⟩, fun a t ht => absurd ht List.not_mem_nil,
    fun a t ht => ?_, fun a => ?_, fun t a ht => ?_, fun a m hm => absurd hm habs, fun a => ?_⟩,
    hr, fun c _ => h.acquiring c, fun t => Or.inl (h.outside t), fun c _ hc => ?_⟩⟩
  · rw [(h.logs a).2.1] at ht
    cases ht
  · rw [(h.logs a).2.1]
    exact List.nodup_nil
  · rw [h.acquiring t] at ht
    cases ht
  · rw [(h.logs a).2.2.1, (h.logs a).2.2.2]
    rfl
  · rw [h.outside c] at hc
    cases hc

/-- As long as no wake-up leaves a stale pointer behind the ready list, at most `maxCount` tasks
hold a semaphore, its counter counts the holders and the granted tasks, and the tasks that are
still in its queue are the last ones that have queued, in order. -/
theorem semaphore_safe_of_clean_wakes {ops : List SemOp} {s₀ : SemState} (h0 : s₀.Start)
    (h : Run (Guarded SemOp.Safe SemOp.step) s₀ ops s) :
    ∀ a m, s.sem a = some m → 1 ≤ m.maxCount →
      ((s.holders a).length : Int) ≤ m.maxCount ∧
      m.currentCount = (s.holders a).length + (s.granted a).length ∧
      ∃ q, Chain s.kernel.next m.firstWaiting q ∧ s.queued a = s.grants a ++ q := by
  have hgood : SemGood s :=
    run_invariant (fun _ _ _ hinv hs hstep => semStep_good hinv hs hstep) h h0.semGood
  obtain ⟨queue, r, sl, il, hinv⟩ := hgood
  intro a m hm hpos
  obtain ⟨hcount, hmax⟩ := hinv.count a m hm
  have hle := hmax hpos
  exact ⟨by omega, hcount, queue a, hinv.chain a m hm, hinv.order a⟩

/-- Task 1 runs; the tasks 2, 3 and 4 are ready and have run before. -/
def fourTasks : SemState where
  kernel := { Kernel.initializeMultitasking Kernel.zeroed 1 0x1000 with
    state := fun t => if t = 1 then .running else .ready
    next := fun t => if t = 2 then some 3 else if t = 3 then some 4 else none
    stackUnlocks := fun t => if t = 1 then 0 else 1
    firstThread := some 2
    lastThread := some 4
    allocated := [1, 2, 3, 4] }
  pc _ := .user
  slot _ := none
  sem _ := none
  acquiring _ := none
  holders _ := []
  granted _ := []
  queued _ := []
  grants _ := []

theorem fourTasks_start : fourTasks.Start where
  irq := rfl
  postpone := rfl
  flag := rfl
  dead := rfl
  running := ⟨1, rfl, List.mem_cons_self, rfl, rfl⟩
  unlocks t := by
    change (if t = 1 then 0 else 1) ≤ 1
    split <;> decide
  ready := by
    refine ⟨[2, 3, 4], ⟨rfl, rfl, rfl, rfl⟩, by decide, fun t ht => ?_, fun _ => rfl, fun h => ?_⟩
    · rcases List.mem_cons.mp ht with rfl | ht
      · decide
      · rcases List.mem_cons.mp ht with rfl | ht
        · decide
        · obtain rfl := List.mem_singleton.mp ht
          decide
    · cases h
  lists := ⟨rfl, rfl, fun _ => rfl⟩
  blocked t _ reason := by
    change (if t = 1 then TaskState.running else .ready) ≠ _
    split <;> cases reason <;> decide
  outside _ := rfl
  sem _ := rfl
  acquiring _ := rfl
  logs _ := ⟨rfl, rfl, rfl, rfl⟩

/-- Task 1 holds the semaphore, 2 and 3 queue, and 1 releases it while 4 is ready: behind 4 the
ready list goes on with the granted task 2 and, through its `next`, with 3. -/
def releaseToTwoWaiters : List SemOp :=
  [.create 0 1, .acquire 0, .sleep 0, .block, .acquire 0, .acquire 0, .timer, .sleep 20000000,
    .block, .timer, .release 0, .sleep 90000000, .block, .sleep 90000000, .block,
    .sleep 90000000, .block]

theorem semaphore_held_twice : ∃ s m, fourTasks.Start ∧
    Run SemOp.step fourTasks releaseToTwoWaiters s ∧ s.sem 0 = some m ∧ 1 ≤ m.maxCount ∧
    ¬ ((s.holders 0).length : Int) ≤ m.maxCount := by
  have hall : ((follow SemOp.Enabled (fun s op => op.exec s) fourTasks releaseToTwoWaiters).map
      fun s => ((s.sem 0).map Semaphore.maxCount, s.holders 0)) = some (some 1, [3, 2]) := by
    decide
  obtain ⟨s, hs, hobs⟩ := Option.map_eq_some_iff.mp hall
  obtain ⟨hsem, hhold⟩ := Prod.mk.inj hobs
  obtain ⟨m, hm, hmax⟩ := Option.map_eq_some_iff.mp hsem
  refine ⟨s, m, fourTasks_start, run_of_follow (fun _ _ _ h h' => ⟨h, h'⟩) hs, hm, ?_, ?_⟩
  · exact Int.le_of_eq hmax.symm
  · rw [hhold, hmax]
    decide

theorem semaphore_two_tasks_queue : ∃ s, Run SemOp.step fourTasks
      [.create 0 1, .acquire 0, .sleep 0, .block, .acquire 0] s ∧
    ∀ a m, s.sem a = some m → 1 ≤ m.maxCount → ((s.holders a).length : Int) ≤ m.maxCount ∧
      m.currentCount = (s.holders a).length + (s.granted a).length ∧
      ∃ q, Chain s.kernel.next m.firstWaiting q ∧ s.queued a = s.grants a ++ q := by
  have hrun : Run (Guarded SemOp.Safe SemOp.step) fourTasks
      [.create 0 1, .acquire 0, .sleep 0, .block, .acquire 0] _ :=
    Run.cons ⟨trivial, by decide, rfl⟩ (Run.cons ⟨trivial, by decide, rfl⟩
      (Run.cons ⟨trivial, by decide, rfl⟩ (Run.cons ⟨trivial, by decide, rfl⟩
        (Run.cons ⟨trivial, by decide, rfl⟩ (Run.nil _)))))
  exact ⟨_, run_of_guarded hrun, semaphore_safe_of_clean_wakes fourTasks_start hrun⟩

end UnnamedOS.Proc
