import UnnamedOS.Proc.Blocking

/-!
# Switches and wakers in the middle of blocking calls

`block_task` completes a call, the wakers undo one. Both may switch tasks. In every run in
which no waker comes into a window between an unlock and `block_task`, every waker finds
blocked tasks and no wake-up is lost.
-/

namespace UnnamedOS.Proc

open UnnamedOS.Lib

variable {s s' : WaitState} {r sl il sl' il' W : List Tid} {c t : Tid} {reason : Reason}
  {op : WaitOp}

/-- `t` is the running task now, and the others are outside or preempted. -/
theorem Places.of_running (hcur : s.kernel.currentTaskTCB = some t)
    (ht : t ∈ s.kernel.allocated ∧ s.kernel.state t = .running)
    (hother : ∀ x, x ≠ t → s.pc x = .user ∨
      s.pc x = .window .poke ∧ x ∈ s.kernel.allocated ∧ s.Runnable x) : Places s := by
  refine ⟨fun x => ?_, fun x hx => ?_, fun d hd => ?_, fun hn => ?_⟩
  · by_cases hxt : x = t
    · exact Or.inr (Or.inr (hxt ▸ hcur))
    · rcases hother x hxt with hp | hp
      · exact Or.inl hp
      · exact Or.inr (Or.inl hp.1)
  · by_cases hxt : x = t
    · exact hxt ▸ ⟨ht.1, Or.inl ht.2⟩
    · rcases hother x hxt with hp | hp
      · rw [hp] at hx
        cases hx
      · exact hp.2
  · obtain rfl := Option.some.inj (hcur.symm.trans hd)
    exact ht
  · rw [hcur] at hn
    cases hn

/-- The places of the tasks that do not run. -/
theorem Places.other (h : Places s) (ht : s.kernel.currentTaskTCB ≠ some t) :
    s.pc t = .user ∨ s.pc t = .window .poke ∧ t ∈ s.kernel.allocated ∧ s.Runnable t := by
  rcases h.pcs t with hp | hp | hp
  · exact Or.inl hp
  · exact Or.inr ⟨hp, h.preempted t hp⟩
  · exact absurd hp ht

/-- Tasks that move between running and ready do not start or stop to wait. -/
theorem WaitState.waits_congr (hpc : s'.pc = s.pc) (hal : s'.kernel.allocated = s.kernel.allocated)
    (hstate : s'.kernel.state t = s.kernel.state t ∨ (s.Runnable t ∧ s'.Runnable t)) :
    s'.Waits t reason ↔ s.Waits t reason := by
  rcases hstate with he | ⟨hs, hs'⟩
  · unfold WaitState.Waits
    rw [hpc, hal, he]
  · rw [WaitState.waits_iff_pending hs, WaitState.waits_iff_pending hs', hpc]

/-- The tasks `W` are made ready. -/
theorem WaitState.waits_wake (hpc : s'.pc = s.pc) (hal : s'.kernel.allocated = s.kernel.allocated)
    (hstate : ∀ x, s'.kernel.state x = if x ∈ W then .ready else s.kernel.state x)
    (hW : ∀ x ∈ W, ∀ reason, ¬ (s.pc x).Pending reason) :
    s'.Waits t reason ↔ s.Waits t reason ∧ t ∉ W := by
  by_cases ht : t ∈ W
  · have hready : s'.Runnable t := Or.inr (by rw [hstate, if_pos ht])
    rw [WaitState.waits_iff_pending hready, hpc]
    exact iff_of_false (hW t ht reason) (fun h => h.2 ht)
  · unfold WaitState.Waits
    rw [hpc, hal, hstate, if_neg ht]
    exact (and_iff_left ht).symm

theorem Places.wake (h : Places s) (hpc : s'.pc = s.pc)
    (hal : s'.kernel.allocated = s.kernel.allocated)
    (hcur : s'.kernel.currentTaskTCB = s.kernel.currentTaskTCB)
    (hstate : ∀ x, s'.kernel.state x = if x ∈ W then .ready else s.kernel.state x)
    (hrun : ∀ c, s.kernel.currentTaskTCB = some c → c ∉ W)
    (hidle : s'.kernel.idleTask = s.kernel.idleTask)
    (hslice : s.kernel.currentTaskTCB = none → s'.kernel.timeSliceRemaining = 0) : Places s' := by
  have hrunnable : ∀ x, s.Runnable x → s'.Runnable x := by
    intro x hx
    by_cases hxW : x ∈ W
    · exact Or.inr (by rw [hstate, if_pos hxW])
    · unfold WaitState.Runnable
      rw [hstate, if_neg hxW]
      exact hx
  refine ⟨?_, ?_, ?_, ?_⟩
  · rw [hpc, hcur]
    exact h.pcs
  · intro x hx
    rw [hpc] at hx
    obtain ⟨hxa, hxs⟩ := h.preempted x hx
    exact ⟨hal ▸ hxa, hrunnable x hxs⟩
  · intro d hd
    rw [hcur] at hd
    rw [hal, hstate, if_neg (hrun d hd)]
    exact h.running d hd
  · intro hn
    rw [hcur] at hn
    refine ⟨hslice hn, fun d hd => ?_⟩
    rw [hidle] at hd
    rw [hstate]
    split
    · decide
    · exact (h.idle hn).2 d hd

/-- A task that blocks waits as before: the state replaces the place in the window. -/
theorem WaitState.waits_block {reason' : Reason} (s' : WaitState) (hca : c ∈ s.kernel.allocated)
    (hrun : s.kernel.state c = .running) (hpc : s.pc c = .window reason)
    (hpc' : s'.pc = Function.update s.pc c .user)
    (hal : s'.kernel.allocated = s.kernel.allocated) (hcs : s'.kernel.state c = reason.state)
    (hother : ∀ x, x ≠ c →
      s'.kernel.state x = s.kernel.state x ∨ (s.Runnable x ∧ s'.Runnable x)) :
    s'.Waits t reason' ↔ s.Waits t reason' := by
  by_cases htc : t = c
  · rw [htc, WaitState.waits_iff_pending (Or.inl hrun), hpc]
    unfold WaitState.Waits
    rw [hpc', Function.update_self, hal, hcs]
    constructor
    · intro hw
      rcases hw with hw | hw | hw
      · rw [Reason.state_inj hw.2]
        exact Or.inr rfl
      · cases hw
      · cases hw
    · intro hw
      rcases hw with hw | hw
      · cases hw
      · exact Or.inl ⟨hca, by rw [Pc.window.inj hw]⟩
  · rcases hother t htc with he | ⟨hr, hr'⟩
    · unfold WaitState.Waits
      rw [hpc', Function.update_of_ne htc, hal, he]
    · rw [WaitState.waits_iff_pending hr, WaitState.waits_iff_pending hr', hpc',
        Function.update_of_ne htc]

/-- The decrement that a task leaves on its stack when it is switched out. -/
theorem Counters.push_le (h : Counters s) (hc : s.kernel.currentTaskTCB = some c) (x : Tid) :
    Function.update s.kernel.stackUnlocks c (s.kernel.stackUnlocks c + 1) x ≤ 1 := by
  by_cases hxc : x = c
  · simp [hxc, (h.postpone c hc).2.2]
  · rw [Function.update_of_ne hxc]
    exact h.unlocks x

theorem Counters.frame (h : Counters s) (hpc : s'.pc = s.pc)
    (hcur : s'.kernel.currentTaskTCB = s.kernel.currentTaskTCB)
    (hf : s'.kernel.taskSwitchesPostponedFlag = s.kernel.taskSwitchesPostponedFlag)
    (hd : s'.kernel.deadTasks = s.kernel.deadTasks)
    (hp : s'.kernel.postponeTaskSwitchesCounter = s.kernel.postponeTaskSwitchesCounter)
    (hi : s'.kernel.irqDisableCounter = s.kernel.irqDisableCounter)
    (hu : s'.kernel.stackUnlocks = s.kernel.stackUnlocks) : Counters s' := by
  refine ⟨hf.trans h.flag, hd.trans h.dead, ?_, ?_, ?_⟩
  · rw [hpc, hcur, hp, hi, hu]
    exact h.postpone
  · rw [hcur, hp, hi]
    exact h.idle
  · rw [hu]
    exact h.unlocks

/-- Blocking while nobody is ready. -/
theorem BlockInv.block_idle (st : TaskState) (h : BlockInv s [] sl il)
    (hc : s.kernel.currentTaskTCB = some c) (hloc : (s.pc c).locks = 0) (hst : st ≠ .running)
    (hwaits : ∀ x reason, WaitState.Waits { s with
      kernel := s.kernel.parkIdle c st, pc := Function.update s.pc c .user } x reason ↔
        s.Waits x reason) :
    BlockInv { s with
      kernel := s.kernel.parkIdle c st
      pc := Function.update s.pc c .user } [] sl il := by
  obtain ⟨hp, hle, -⟩ := h.counters.postpone c hc
  rw [hloc] at hp hle
  let s₁ : WaitState := { s with
    kernel := s.kernel.parkIdle c st, pc := Function.update s.pc c .user }
  have hcs : s₁.kernel.state c = st := Function.update_self _ _ _
  have hstate : ∀ x, x ≠ c → s₁.kernel.state x = s.kernel.state x :=
    fun x hx => Function.update_of_ne hx _ _
  have hplace : ∀ x, x ≠ c → s₁.pc x = s.pc x := fun x hx => Function.update_of_ne hx _ _
  have hother : ∀ x, x ≠ c → s.pc x = .user ∨
      s.pc x = .window .poke ∧ x ∈ s.kernel.allocated ∧ s.Runnable x :=
    fun x hx => h.toPlaces.other fun he => hx (Option.some.inj (he.symm.trans hc))
  refine ⟨?_, ⟨?_, ?_, ?_, ?_⟩, ?_, h.sleepers, h.irqs, ?_⟩
  · exact h.toPublished.congr hwaits rfl
  · intro x
    by_cases hxc : x = c
    · exact Or.inl (by rw [hxc]; exact Function.update_self _ _ _)
    · rcases hother x hxc with hx | hx
      · exact Or.inl ((hplace x hxc).trans hx)
      · exact Or.inr (Or.inl ((hplace x hxc).trans hx.1))
  · intro x hx
    by_cases hxc : x = c
    · rw [hxc] at hx
      have hu : s₁.pc c = .user := Function.update_self _ _ _
      cases hu.symm.trans hx
    · obtain ⟨hxa, hxs⟩ := h.preempted x ((hplace x hxc).symm.trans hx)
      refine ⟨hxa, ?_⟩
      unfold WaitState.Runnable
      rw [show s₁.kernel.state x = s.kernel.state x from hstate x hxc]
      exact hxs
  · intro d hd
    cases hd
  · intro _
    refine ⟨rfl, fun d hd => ?_⟩
    obtain rfl := Option.some.inj hd
    rw [show s₁.kernel.state c = st from hcs]
    exact hst
  · exact ⟨h.ready.seg, List.nodup_nil, fun x hx => absurd hx List.not_mem_nil,
      fun hne => absurd rfl hne, fun _ => rfl⟩
  · refine ⟨h.counters.flag, h.counters.dead, ?_, fun _ => ⟨hp, ?_⟩, h.counters.push_le hc⟩
    · intro d hd
      cases hd
    · change 1 ≤ s.kernel.irqDisableCounter + 1
      omega

/-- The task `t` gets the processor and makes the decrement it has left on its stack, after
the counter went up by one. -/
theorem Counters.of_switch {i : Int}
    (hloc : s'.pc t = .user ∨ s'.pc t = .window .poke)
    (hcur : s'.kernel.currentTaskTCB = some t)
    (hf : s'.kernel.taskSwitchesPostponedFlag = false) (hd : s'.kernel.deadTasks = none)
    (hp : s'.kernel.postponeTaskSwitchesCounter = 0) (hi : 0 ≤ i)
    {u : Tid → ℕ} (hu : ∀ x, u x ≤ 1)
    (hirq : s'.kernel.irqDisableCounter = i + 1 - (u t : ℕ))
    (hun : s'.kernel.stackUnlocks = Function.update u t 0) : Counters s' := by
  refine ⟨hf, hd, ?_, ?_, ?_⟩
  · intro d hd
    obtain rfl := Option.some.inj (hcur.symm.trans hd)
    have hl : (s'.pc t).locks = 0 := by
      rcases hloc with hl | hl <;> rw [hl] <;> rfl
    have hut := hu t
    rw [hl, hp, hirq, hun, Function.update_self]
    exact ⟨rfl, by omega, rfl⟩
  · intro hn
    rw [hcur] at hn
    cases hn
  · intro x
    rw [hun]
    by_cases hxt : x = t
    · rw [hxt, Function.update_self]
      exact Nat.zero_le 1
    · rw [Function.update_of_ne hxt]
      exact hu x

/-- Blocking while `t` is the first ready task. -/
theorem BlockInv.block_switch (st : TaskState) {w : Kernel.SwitchFrame}
    (h : BlockInv s (t :: r) sl il) (hc : s.kernel.currentTaskTCB = some c)
    (hloc : (s.pc c).locks = 0)
    (hwaits : ∀ x reason, WaitState.Waits { s with
      kernel := s.kernel.park c t st w, pc := Function.update s.pc c .user } x reason ↔
        s.Waits x reason) :
    BlockInv { s with
      kernel := s.kernel.park c t st w
      pc := Function.update s.pc c .user } r sl il := by
  have hrun := (h.running c hc).2
  obtain ⟨hp, hle, -⟩ := h.counters.postpone c hc
  rw [hloc] at hp hle
  let s₁ : WaitState := { s with
    kernel := s.kernel.park c t st w, pc := Function.update s.pc c .user }
  obtain ⟨hta, hts⟩ := h.ready.ready t List.mem_cons_self
  have htc : t ≠ c := by
    intro he
    rw [he, hrun] at hts
    cases hts
  have htr : t ∉ r := (List.nodup_cons.mp h.ready.nodup).1
  have hstate : ∀ x, x ≠ c → x ≠ t → s₁.kernel.state x = s.kernel.state x :=
    fun x hx hxt => (Function.update_of_ne hxt _ _).trans (Function.update_of_ne hx _ _)
  have hplace : ∀ x, x ≠ c → s₁.pc x = s.pc x := fun x hx => Function.update_of_ne hx _ _
  have hts₁ : s₁.kernel.state t = .running := Function.update_self _ _ _
  have hother : ∀ x, x ≠ c → s.pc x = .user ∨
      s.pc x = .window .poke ∧ x ∈ s.kernel.allocated ∧ s.Runnable x :=
    fun x hx => h.toPlaces.other fun he => hx (Option.some.inj (he.symm.trans hc))
  refine ⟨?_, ?_, ?_, h.sleepers, h.irqs, ?_⟩
  · exact h.toPublished.congr hwaits rfl
  · refine Places.of_running (t := t) rfl ⟨hta, hts₁⟩ fun x hxt => ?_
    by_cases hxc : x = c
    · exact Or.inl (by rw [hxc]; exact Function.update_self _ _ _)
    · rcases hother x hxc with hx | ⟨hx, hxa, hxs⟩
      · exact Or.inl ((hplace x hxc).trans hx)
      · refine Or.inr ⟨(hplace x hxc).trans hx, hxa, ?_⟩
        unfold WaitState.Runnable
        rw [show s₁.kernel.state x = s.kernel.state x from hstate x hxc hxt]
        exact hxs
  · refine h.ready.pop rfl rfl rfl rfl fun x hx => ?_
    have hxr := (h.ready.ready x (List.mem_cons_of_mem t hx)).2
    exact hstate x (fun he => by rw [he, hrun] at hxr; cases hxr) (fun he => htr (he ▸ hx))
  · refine Counters.of_switch (t := t) ?_ rfl h.counters.flag h.counters.dead hp hle
      (h.counters.push_le hc) rfl rfl
    have hpt : s₁.pc t = s.pc t := hplace t htc
    rcases hother t htc with hx | hx
    · exact Or.inl (hpt.trans hx)
    · exact Or.inr (hpt.trans hx.1)

/-- What a blocking task leaves alone. -/
theorem untouched_parkIdle {k : Kernel} {st : TaskState} (hrun : k.state c = .running) :
    Untouched k (k.parkIdle c st) := by
  have hne : ∀ x, k.state x ≠ .running → (k.parkIdle c st).state x = k.state x :=
    fun x hx => Function.update_of_ne (fun he => hx (by rw [he, hrun])) _ _
  refine ⟨fun x hx => ⟨?_, rfl⟩, fun x hx => Or.inl ?_, rfl⟩
  · rw [hne x (by rw [hx]; decide), hx]
  · rw [hne x (by rw [hx]; decide), hx]

theorem untouched_park {k : Kernel} {st : TaskState} {w : Kernel.SwitchFrame}
    (hrun : k.state c = .running) (ht : k.state t = .ready) : Untouched k (k.park c t st w) := by
  have hne : ∀ x, x ≠ t → k.state x ≠ .running → (k.park c t st w).state x = k.state x :=
    fun x hxt hx => (Function.update_of_ne hxt _ _).trans
      (Function.update_of_ne (fun he => hx (by rw [he, hrun])) _ _)
  refine ⟨fun x hx => ⟨?_, rfl⟩, fun x hx => ?_, rfl⟩
  · have hxt : x ≠ t := fun he => by
      rw [he, ht] at hx
      cases hx
    rw [hne x hxt (by rw [hx]; decide), hx]
  · by_cases hxt : x = t
    · exact Or.inr (by rw [hxt]; rfl)
    · exact Or.inl (by rw [hne x hxt (by rw [hx]; decide), hx])

theorem block_good (h : BlockInv s r sl il) (hen : WaitOp.Enabled s .block) : Good s .block := by
  obtain ⟨c, reason, hc, hpc⟩ := hen
  obtain ⟨hca, hrun⟩ := h.running c hc
  have hloc : (s.pc c).locks = 0 := by
    rw [hpc]
    rfl
  have hp := (h.counters.postpone c hc).1
  rw [hloc] at hp
  have hex : WaitOp.exec s .block = s.advance c .user (s.kernel.blockTask reason.state) := by
    simp [WaitOp.exec, hc, hpc]
  rcases Kernel.blockTask_spec reason.state hp h.counters.dead hc h.ready reason.state_blocked with
    ⟨rfl, hb⟩ | ⟨t, r', w, rfl, hb⟩
  · let s₁ : WaitState := { s with
      kernel := s.kernel.parkIdle c reason.state, pc := Function.update s.pc c .user }
    have hwaits : ∀ x reason', s₁.Waits x reason' ↔ s.Waits x reason' := by
      intro x reason'
      refine WaitState.waits_block s₁ hca hrun hpc rfl rfl (Function.update_self _ _ _) ?_
      exact fun y hy => Or.inl (Function.update_of_ne hy _ _)
    rw [hb] at hex
    exact Or.inl ⟨s₁, [], sl, il, hex, h.block_idle reason.state hc hloc reason.state_blocked.1 hwaits,
      untouched_parkIdle hrun, trivial⟩
  · let s₁ : WaitState := { s with
      kernel := s.kernel.park c t reason.state w, pc := Function.update s.pc c .user }
    have hts := (h.ready.ready t List.mem_cons_self).2
    have hct : c ≠ t := by
      intro he
      rw [← he, hrun] at hts
      cases hts
    have hwaits : ∀ x reason', s₁.Waits x reason' ↔ s.Waits x reason' := by
      intro x reason'
      refine WaitState.waits_block s₁ hca hrun hpc rfl rfl
        ((Function.update_of_ne hct _ _).trans (Function.update_self _ _ _)) fun y hy => ?_
      by_cases hyt : y = t
      · exact Or.inr (hyt ▸ ⟨Or.inr hts, Or.inl (Function.update_self _ _ _)⟩)
      · exact Or.inl ((Function.update_of_ne hyt _ _).trans (Function.update_of_ne hy _ _))
    rw [hb] at hex
    exact Or.inl ⟨s₁, r', sl, il, hex, h.block_switch reason.state hc hloc hwaits,
      untouched_park hrun hts, trivial⟩

theorem leaveIdle_good (h : BlockInv s r sl il) (hen : WaitOp.Enabled s .leaveIdle) :
    Good s .leaveIdle := by
  have hc : s.kernel.currentTaskTCB = none := hen
  obtain ⟨hp, hle⟩ := h.counters.idle hc
  have hidle := (h.idle hc).2
  have hex : WaitOp.exec s .leaveIdle = s.withKernel s.kernel.leaveIdle := by
    simp [WaitOp.exec]
  cases hk : s.kernel.leaveIdle with
  | error e =>
      refine Or.inr ⟨e, by rw [hex, hk]; rfl, ?_⟩
      intro hm
      rcases Kernel.leaveIdle_error hp hidle hk with rfl | ⟨c, rfl⟩ <;>
        obtain ⟨t, hm | hm | hm⟩ := hm <;> cases hm
  | ok k' =>
      obtain ⟨c, hi⟩ : ∃ c, s.kernel.idleTask = some c := by
        rcases Option.eq_none_or_eq_some s.kernel.idleTask with hn | hs
        · simp [Kernel.leaveIdle, hn] at hk
        · exact hs
      obtain ⟨t, r', w, rfl, rfl⟩ := Kernel.leaveIdle_spec hp hi h.ready (hidle c hi) hk
      let s₁ : WaitState := { s with kernel := s.kernel.leave t w }
      obtain ⟨hta, hts⟩ := h.ready.ready t List.mem_cons_self
      have htr : t ∉ r' := (List.nodup_cons.mp h.ready.nodup).1
      have hts₁ : s₁.kernel.state t = .running := Function.update_self _ _ _
      have hstate : ∀ x, x ≠ t → s₁.kernel.state x = s.kernel.state x :=
        fun x hx => Function.update_of_ne hx _ _
      have hother : ∀ x, s.pc x = .user ∨
          s.pc x = .window .poke ∧ x ∈ s.kernel.allocated ∧ s.Runnable x :=
        fun x => h.toPlaces.other (by rw [hc]; simp)
      rw [hk] at hex
      have hun : Untouched s.kernel s₁.kernel := by
        refine ⟨fun x hx => ⟨?_, rfl⟩, fun x hx => ?_, rfl⟩
        · rw [hstate x (fun he => by rw [he, hts] at hx; cases hx), hx]
        · by_cases hxt : x = t
          · exact Or.inr (by rw [hxt]; rfl)
          · exact Or.inl (by rw [hstate x hxt, hx])
      refine Or.inl ⟨s₁, r', sl, il, hex, ⟨?_, ?_, ?_, h.sleepers, h.irqs, ?_⟩, hun, trivial⟩
      · refine h.toPublished.congr (fun x reason' => WaitState.waits_congr rfl rfl ?_) rfl
        by_cases hxt : x = t
        · exact Or.inr ⟨Or.inr (hxt ▸ hts), Or.inl (hxt ▸ hts₁)⟩
        · exact Or.inl (hstate x hxt)
      · refine Places.of_running (t := t) rfl ⟨hta, hts₁⟩ fun x hxt => ?_
        rcases hother x with hx | ⟨hx, hxa, hxs⟩
        · exact Or.inl hx
        · refine Or.inr ⟨hx, hxa, ?_⟩
          unfold WaitState.Runnable
          rw [hstate x hxt]
          exact hxs
      · exact h.ready.pop rfl rfl rfl rfl fun x hx => hstate x fun he => htr (he ▸ hx)
      · refine Counters.of_switch (t := t) (i := s.kernel.irqDisableCounter - 1) ?_ rfl
          h.counters.flag h.counters.dead hp (by omega) h.counters.unlocks ?_ rfl
        · rcases hother t with hx | hx
          · exact Or.inl hx
          · exact Or.inr hx.1
        · change s.kernel.irqDisableCounter - (s.kernel.stackUnlocks t : ℕ) = _
          omega

/-- A task on a list is blocked unless it is the running one, about to block. -/
theorem BlockInv.blocked_of_waits (h : BlockInv s r sl il) (reason : Reason) (hr : reason ≠ .poke)
    (hw : s.Waits t reason)
    (hn : s.kernel.currentTaskTCB = some t → ¬ (s.pc t).Pending reason) :
    t ∈ s.kernel.allocated ∧ s.kernel.state t = reason.state := by
  rcases hw with hw | hpend
  · exact hw
  · exfalso
    rcases h.pcs t with hx | hx | hx
    · rw [hx] at hpend
      rcases hpend with hx | hx <;> cases hx
    · exact hr (hpend.unique (Or.inr hx))
    · exact hn hx hpend

/-- What `unblockirq` needs to know about the lists. -/
theorem BlockInv.queueLists (h : BlockInv s r sl il)
    (hp : ∀ c, s.kernel.currentTaskTCB = some c → ¬ (s.pc c).Pending .irq) :
    QueueLists s.kernel r none sl il := by
  refine ⟨h.ready, h.sleepers, h.irqs, fun t ht => ?_, fun t ht => ⟨fun hr => ?_, ?_⟩⟩
  · exact h.blocked_of_waits .irq (by decide) ((h.waiting t).mp ht) (hp t)
  · exact (h.ready_not_listed hr).1 ht
  · exact h.sleeping_not_irq ht

/-- What the timer interrupt needs to know about the lists. -/
theorem BlockInv.waitLists (h : BlockInv s r sl il)
    (hp : ∀ c, s.kernel.currentTaskTCB = some c →
      ¬ (s.pc c).Pending .sleep ∧ ¬ (s.pc c).Pending .irq) : WaitLists s.kernel r none sl il := by
  refine ⟨h.queueLists fun c hc => (hp c hc).2, fun t ht => ?_⟩
  exact h.blocked_of_waits .sleep (by decide) ((h.sleeping t).mp ht)
    fun hc => (hp t hc).1

/-- A waker has made the blocked tasks `W` ready. -/
theorem BlockInv.waits_woken (h : BlockInv s r sl il) (s' : WaitState) (hpc : s'.pc = s.pc)
    (hstate : ∀ x, s'.kernel.state x = if x ∈ W then .ready else s.kernel.state x)
    (hW : ∀ x ∈ W, ¬ s.Runnable x)
    (hal : s'.kernel.allocated = s.kernel.allocated)
    (hcur : s'.kernel.currentTaskTCB = s.kernel.currentTaskTCB)
    (hidle : s'.kernel.idleTask = s.kernel.idleTask)
    (hslice : s.kernel.currentTaskTCB = none → s'.kernel.timeSliceRemaining = 0) :
    (∀ x reason, s'.Waits x reason ↔ s.Waits x reason ∧ x ∉ W) ∧ Places s' := by
  have hnot : ∀ x ∈ W, ∀ reason, ¬ (s.pc x).Pending reason :=
    fun x hx reason hp => hW x hx (h.pending_runnable hp)
  refine ⟨fun x reason => WaitState.waits_wake hpc hal hstate hnot, ?_⟩
  exact h.toPlaces.wake hpc hal hcur hstate
    (fun c hc hx => hW c hx (Or.inl (h.running c hc).2)) hidle hslice

theorem Reason.not_runnable (h : ∃ reason : Reason, reason ≠ .poke ∧
    t ∈ s.kernel.allocated ∧ s.kernel.state t = reason.state) : ¬ s.Runnable t := by
  obtain ⟨reason, -, -, hs⟩ := h
  obtain ⟨hs1, hs2, -⟩ := reason.state_blocked
  exact fun hr => hr.elim (fun hr => hs1 (hs.symm.trans hr)) fun hr => hs2 (hs.symm.trans hr)

/-- A waker has made the tasks `W` ready and taken them off the lists. -/
theorem BlockInv.woken (h : BlockInv s r sl il) (s' : WaitState) (sl' il' : List Tid)
    (hs' : s'.pc = s.pc ∧ s'.slot = s.slot)
    (hstate : ∀ x, s'.kernel.state x = if x ∈ W then .ready else s.kernel.state x)
    (hsl : ∀ x, x ∈ sl' ↔ x ∈ sl ∧ x ∉ W) (hil : ∀ x, x ∈ il' ↔ x ∈ il ∧ x ∉ W)
    (hW : ∀ x ∈ W, ∃ reason : Reason, reason ≠ .poke ∧
      x ∈ s.kernel.allocated ∧ s.kernel.state x = reason.state)
    (hal : s'.kernel.allocated = s.kernel.allocated)
    (hcur : s'.kernel.currentTaskTCB = s.kernel.currentTaskTCB)
    (hidle : s'.kernel.idleTask = s.kernel.idleTask)
    (hslice : s.kernel.currentTaskTCB = none → s'.kernel.timeSliceRemaining = 0) :
    Published s' sl' il' ∧ Places s' := by
  obtain ⟨hwaits, hpl⟩ := h.waits_woken s' hs'.1 hstate
    (fun x hx => Reason.not_runnable (hW x hx)) hal hcur hidle hslice
  refine ⟨⟨fun x => ?_, fun x => ?_, fun x => ?_, ?_⟩, hpl⟩
  · rw [hwaits, hsl, h.sleeping]
  · rw [hwaits, hil, h.waiting]
  · rw [hwaits, hs'.2, h.poked]
    refine (and_iff_left_of_imp fun hp hx => ?_).symm
    obtain ⟨reason', hr, hs⟩ := hW x hx
    exact hr (h.waits_unique (Or.inl hs) hp)
  · rw [hs'.2]
    exact h.once

/-- A task that waits for a lock is on no list of the scheduler. -/
theorem BlockInv.lock_not_listed (h : BlockInv s r sl il)
    (ht : s.kernel.state t = .waitingForLock) : t ∉ r ∧ ∀ reason, ¬ s.Waits t reason := by
  refine ⟨h.ready.not_mem (by rw [ht]; decide), fun reason hw => ?_⟩
  rcases hw with ⟨-, hs⟩ | hp
  · rw [ht] at hs
    cases reason <;> cases hs
  · rcases h.pending_runnable hp with hs | hs <;> rw [ht] at hs <;> cases hs

/-- What the loops of a waker leave alone. -/
theorem BlockInv.untouched_wakes {k₀ k₂ : Kernel} (h : BlockInv s r sl il)
    (hw : WakesDone k₀ r none sl il W sl' il' k₂) (hs : k₀.state = s.kernel.state)
    (hn : k₀.next = s.kernel.next) (ha : k₂.allocated = s.kernel.allocated)
    (hW : ∀ x ∈ W, x ∈ sl ∨ x ∈ il) : Untouched s.kernel k₂ := by
  refine ⟨fun x hx => ?_, fun x hx => Or.inl ?_, ha⟩
  · obtain ⟨hr, hnot⟩ := h.lock_not_listed hx
    have hsl : x ∉ sl := fun hm => hnot _ ((h.sleeping x).mp hm)
    have hil : x ∉ il := fun hm => hnot _ ((h.waiting x).mp hm)
    have hxW : x ∉ W := fun hm => (hW x hm).elim hsl hil
    rw [hw.state, if_neg hxW, hs, hw.next x hr hsl hil, hn]
    exact ⟨hx, rfl⟩
  · rw [hw.state, hs, hx, ite_self]

/-- A loop keeps the tasks that it does not wake. -/
theorem mem_kept {L W : List Tid} {due : Tid → Bool} (hW : ∀ x ∈ L, x ∈ W ↔ due x = true)
    (x : Tid) : x ∈ (L.filter fun t => !due t).reverse ↔ x ∈ L ∧ x ∉ W := by
  rw [List.mem_reverse, List.mem_filter]
  refine and_congr_right fun hx => ?_
  rw [hW x hx]
  simp

/-- A clean wake-up leaves no stale pointer behind the ready list. -/
theorem staleTail_clean {k : Kernel} (hq : QueueSeg k r none) (h : WaitOp.CleanTail k W) :
    staleTail k r W none = none := by
  unfold staleTail
  split
  · rfl
  · rename_i t ht
    rcases h t ht with ⟨hf, hlen⟩ | hn
    · rw [if_pos ⟨hq.first_none.mp hf, hlen⟩]
    · rw [hn, ite_self]

/-- The running task `c` loses the processor to the first ready task `t`. -/
theorem BlockInv.of_rotate {q : Option Tid} {l : Tid} {w : Kernel.SwitchFrame}
    (hpub : Published s sl il) (hpl : Places s) (hq : QueueSeg s.kernel (t :: r) q)
    (hnone : r = [] → q = none) (hsl : Chain s.kernel.next s.kernel.sleepingTaskList sl)
    (hil : Chain s.kernel.next s.kernel.irqwaiting il)
    (hc : s.kernel.currentTaskTCB = some c) (huser : s.pc c = .user ∨ s.pc c = .window .poke)
    (hl : s.kernel.lastThread = some l) (hf : s.kernel.taskSwitchesPostponedFlag = false)
    (hd : s.kernel.deadTasks = none) (hp : s.kernel.postponeTaskSwitchesCounter = 0)
    (hi : 1 ≤ s.kernel.irqDisableCounter)
    (hu : ∀ x, Function.update s.kernel.stackUnlocks c (s.kernel.stackUnlocks c + 1) x ≤ 1) :
    BlockInv { s with kernel := s.kernel.rotate c l t w } (if r = [] then [] else r ++ [c]) sl il := by
  let s₁ : WaitState := { s with kernel := s.kernel.rotate c l t w }
  obtain ⟨hca, hrun⟩ := hpl.running c hc
  obtain ⟨hta, hts⟩ := hq.ready t List.mem_cons_self
  have hct : c ≠ t := by
    intro he
    rw [he, hts] at hrun
    cases hrun
  have hts₁ : s₁.kernel.state t = .running := Function.update_self _ _ _
  have hcs₁ : s₁.kernel.state c = .ready :=
    (Function.update_of_ne hct _ _).trans (Function.update_self _ _ _)
  have hstate : ∀ x, x ≠ c → x ≠ t → s₁.kernel.state x = s.kernel.state x :=
    fun x hx hxt => (Function.update_of_ne hxt _ _).trans (Function.update_of_ne hx _ _)
  have hrunnable : ∀ x, s₁.kernel.state x = s.kernel.state x ∨ (s.Runnable x ∧ s₁.Runnable x) := by
    intro x
    by_cases hxc : x = c
    · exact Or.inr (hxc ▸ ⟨Or.inl hrun, Or.inr hcs₁⟩)
    · by_cases hxt : x = t
      · exact Or.inr (hxt ▸ ⟨Or.inr hts, Or.inl hts₁⟩)
      · exact Or.inl (hstate x hxc hxt)
  -- neither end of the ready list is on a list of blocked tasks
  have hlr : l ∈ t :: r := by
    obtain ⟨u, hu⟩ := hq.exists_last hl (by simp)
    rw [hu]
    simp
  have hlist : ∀ x, x = l ∨ x = c → x ∉ sl ∧ x ∉ il := by
    intro x hx
    rw [hpub.sleeping, hpub.waiting]
    rcases hx with rfl | rfl
    · have hs := (hq.ready x hlr).2
      exact ⟨hpl.ready_not_waits hs (by decide), hpl.ready_not_waits hs (by decide)⟩
    · rw [WaitState.waits_iff_pending (Or.inl hrun), WaitState.waits_iff_pending (Or.inl hrun)]
      rcases huser with hx | hx <;> rw [hx] <;> simp [Pc.Pending]
  have hchain : ∀ p (L : List Tid), l ∉ L → c ∉ L → Chain s.kernel.next p L →
      Chain s₁.kernel.next p L := by
    intro p L hlL hcL h
    exact (chain_update_of_notMem hcL).mpr ((chain_update_of_notMem hlL).mpr h)
  refine ⟨?_, ?_, hq.rotate hnone hl hca hrun, ?_, ?_, ?_⟩
  · exact hpub.congr (fun x reason => WaitState.waits_congr rfl rfl (hrunnable x)) rfl
  · refine Places.of_running (t := t) rfl ⟨hta, hts₁⟩ fun x hxt => ?_
    have hx : s.pc x = .user ∨
        s.pc x = .window .poke ∧ x ∈ s.kernel.allocated ∧ s.Runnable x := by
      by_cases hxc : x = c
      · rw [hxc]
        exact huser.imp_right fun hx => ⟨hx, hca, Or.inl hrun⟩
      · exact hpl.other fun he => hxc (Option.some.inj (he.symm.trans hc))
    refine hx.imp_right fun hx => ⟨hx.1, hx.2.1, ?_⟩
    rcases hrunnable x with he | he
    · unfold WaitState.Runnable
      rw [show (s.kernel.rotate c l t w).state x = s.kernel.state x from he]
      exact hx.2.2
    · exact he.2
  · exact hchain _ sl (hlist l (Or.inl rfl)).1 (hlist c (Or.inr rfl)).1 hsl
  · exact hchain _ il (hlist l (Or.inl rfl)).2 (hlist c (Or.inr rfl)).2 hil
  · refine Counters.of_switch (t := t) (i := s.kernel.irqDisableCounter - 1) ?_ rfl hf hd hp
      (by omega) hu ?_ rfl
    · rcases hpl.other (t := t) (fun he => hct (Option.some.inj (hc.symm.trans he))) with hx | hx
      · exact Or.inl hx
      · exact Or.inr hx.1
    · change s.kernel.irqDisableCounter - _ = _
      omega

/-- What a task leaves alone that loses the processor. -/
theorem untouched_rotate {k : Kernel} {q : Option Tid} {l : Tid} {w : Kernel.SwitchFrame}
    (hrun : s.kernel.state c = .running) (hq : QueueSeg s.kernel (t :: r) q)
    (hl : s.kernel.lastThread = some l) (h : Untouched k s.kernel)
    (hcur : ∀ x, k.state x = .ready → s.kernel.state x = .ready) :
    Untouched k (s.kernel.rotate c l t w) := by
  have hls : s.kernel.state l = .ready := by
    obtain ⟨u, hu⟩ := hq.exists_last hl (by simp)
    exact (hq.ready l (by rw [hu]; simp)).2
  have hts := (hq.ready t List.mem_cons_self).2
  have hstate : ∀ x, x ≠ c → x ≠ t → (s.kernel.rotate c l t w).state x = s.kernel.state x :=
    fun x hx hxt => (Function.update_of_ne hxt _ _).trans (Function.update_of_ne hx _ _)
  refine ⟨fun x hx => ?_, fun x hx => ?_, h.allocated⟩
  · obtain ⟨hxs, hxn⟩ := h.blocked x hx
    have hxc : x ≠ c := fun he => by rw [he, hrun] at hxs; cases hxs
    have hxt : x ≠ t := fun he => by rw [he, hts] at hxs; cases hxs
    have hxl : x ≠ l := fun he => by rw [he, hls] at hxs; cases hxs
    refine ⟨(hstate x hxc hxt).trans hxs, Eq.trans ?_ hxn⟩
    exact (Function.update_of_ne hxc _ _).trans (Function.update_of_ne hxl _ _)
  · have hxs := hcur x hx
    by_cases hxt : x = t
    · exact Or.inr (by rw [hxt]; rfl)
    · have hxc : x ≠ c := fun he => by rw [he, hrun] at hxs; cases hxs
      exact Or.inl ((hstate x hxc hxt).trans hxs)

/-! ## A timer interrupt -/

variable {Q : Kernel.Queues}

/-- The two loops of `PIT_IRQ_handler` have woken the tasks that are due. -/
abbrev TimerWoken (s : WaitState) (r sl il : List Tid) (Q : Kernel.Queues) : Prop :=
  WakesDone s.kernel.enterTimer r none sl il (timerWakes s.kernel.enterTimer sl il)
    (sl.filter fun t => !dueSleeper s.kernel.enterTimer t).reverse
    (il.filter fun t => !dueTimeout s.kernel.enterTimer t).reverse (s.kernel.enterTimer.withQueues Q)

/-- No task is between its entry in a list of waiting tasks and `block_task`. -/
def NonePending (s : WaitState) : Prop := ∀ c, s.kernel.currentTaskTCB = some c →
  ¬ (s.pc c).Pending .sleep ∧ ¬ (s.pc c).Pending .irq

theorem TimerWoken.runnable (hw : TimerWoken s r sl il Q) (hstate : s'.kernel.state = Q.state) :
    ∀ x ∈ timerWakes s.kernel.enterTimer sl il, s'.Runnable x := by
  intro x hx
  exact Or.inr ((congrFun hstate x).trans ((hw.state x).trans (if_pos hx)))

theorem BlockInv.timer_published (h : BlockInv s r sl il) (hpend : NonePending s)
    (hw : TimerWoken s r sl il Q) (s' : WaitState) (hs' : s'.pc = s.pc ∧ s'.slot = s.slot)
    (hstate : s'.kernel.state = Q.state) (hal : s'.kernel.allocated = s.kernel.allocated)
    (hcur : s'.kernel.currentTaskTCB = s.kernel.currentTaskTCB)
    (hidle : s'.kernel.idleTask = s.kernel.idleTask)
    (hslice : s.kernel.currentTaskTCB = none → s'.kernel.timeSliceRemaining = 0) :
    Published s' (sl.filter fun t => !dueSleeper s.kernel.enterTimer t).reverse
      (il.filter fun t => !dueTimeout s.kernel.enterTimer t).reverse ∧ Places s' := by
  have hl := h.waitLists hpend
  have hdueS : ∀ x ∈ sl, x ∈ timerWakes s.kernel.enterTimer sl il ↔
      dueSleeper s.kernel.enterTimer x = true := by
    intro x hx
    simp [timerWakes, hx, h.sleeping_not_irq hx]
  have hdueI : ∀ x ∈ il, x ∈ timerWakes s.kernel.enterTimer sl il ↔
      dueTimeout s.kernel.enterTimer x = true := by
    intro x hx
    simp [timerWakes, hx, hl.irq_not_sleeper hx]
  have hblocked : ∀ x ∈ timerWakes s.kernel.enterTimer sl il, ∃ reason : Reason,
      reason ≠ .poke ∧ x ∈ s.kernel.allocated ∧ s.kernel.state x = reason.state := by
    intro x hx
    rcases List.mem_append.mp hx with hx | hx
    · exact ⟨.sleep, by decide, hl.sleeping x (List.mem_of_mem_filter hx)⟩
    · exact ⟨.irq, by decide, hl.waiting x (List.mem_of_mem_filter hx)⟩
  exact h.woken s' _ _ hs' (fun x => (congrFun hstate x).trans (hw.state x)) (mem_kept hdueS)
    (mem_kept hdueI) hblocked hal hcur hidle hslice

theorem BlockInv.timer_untouched (h : BlockInv s r sl il) (hw : TimerWoken s r sl il Q) :
    Untouched s.kernel (s.kernel.enterTimer.withQueues Q) := by
  refine h.untouched_wakes hw rfl rfl rfl fun x hx => ?_
  exact (List.mem_append.mp hx).imp List.mem_of_mem_filter List.mem_of_mem_filter

theorem BlockInv.timer_delivers (h : BlockInv s r sl il)
    (hr : ∀ x ∈ timerWakes s.kernel.enterTimer sl il, s'.Runnable x) :
    WaitOp.timer.Delivers s s' := by
  intro sl₂ il₂ hsl₂ hil₂
  rw [chain_unique hsl₂ h.sleepers, chain_unique hil₂ h.irqs]
  exact hr

theorem timer_exec {k : Kernel} (hk : s.kernel.pitIrqHandler = .ok k) :
    WaitOp.exec s .timer = .ok { s with kernel := k } := by
  have hex : WaitOp.exec s .timer = s.withKernel s.kernel.pitIrqHandler := by
    simp [WaitOp.exec]
  rw [hex, hk]
  rfl

/-- The slice goes on. -/
theorem BlockInv.timer_goes_on (h : BlockInv s r sl il) (hpend : NonePending s)
    (hp : s.kernel.postponeTaskSwitchesCounter = 0) (hw : TimerWoken s r sl il Q)
    (htail : WaitOp.CleanTail s.kernel (timerWakes s.kernel.enterTimer sl il)) {slice : UInt64}
    (hslice : s.kernel.currentTaskTCB = none → slice = 0)
    (hk : s.kernel.pitIrqHandler =
      .ok ((s.kernel.enterTimer.withQueues Q).release slice s.kernel.irqscalled)) :
    Good s .timer := by
  have hun := h.timer_untouched hw
  obtain ⟨hpub, hpl⟩ := h.timer_published hpend hw { s with
    kernel := (s.kernel.enterTimer.withQueues Q).release slice s.kernel.irqscalled }
    ⟨rfl, rfl⟩ rfl rfl rfl rfl hslice
  refine Or.inl ⟨_, r ++ timerWakes s.kernel.enterTimer sl il, _, _, timer_exec hk,
    ⟨hpub, hpl, ?_, hw.sleepers, hw.irqs, ?_⟩, ⟨hun.blocked, hun.ready, hun.allocated⟩,
    h.timer_delivers (hw.runnable rfl)⟩
  · have hq := hw.queue
    rw [staleTail_clean (k := s.kernel.enterTimer) (h.ready.frame rfl rfl rfl rfl rfl) htail] at hq
    exact hq.frame rfl rfl rfl rfl rfl
  · exact h.counters.frame rfl rfl rfl rfl hp.symm (Int.add_sub_cancel _ _) rfl

/-- The slice ends with nobody ready. -/
theorem BlockInv.timer_stays (h : BlockInv s r sl il) (hpend : NonePending s)
    (hp : s.kernel.postponeTaskSwitchesCounter = 0) (hw : TimerWoken s r sl il Q)
    (hc : s.kernel.currentTaskTCB = some c) (hnil : r ++ timerWakes s.kernel.enterTimer sl il = [])
    (hk : s.kernel.pitIrqHandler =
      .ok ((s.kernel.enterTimer.withQueues Q).beforeSwitch.stay c)) : Good s .timer := by
  have hun := h.timer_untouched hw
  obtain ⟨hpub, hpl⟩ := h.timer_published hpend hw { s with
    kernel := (s.kernel.enterTimer.withQueues Q).beforeSwitch.stay c }
    ⟨rfl, rfl⟩ rfl rfl rfl rfl fun hn => absurd (hc.symm.trans hn) (by simp)
  refine Or.inl ⟨_, [], _, _, timer_exec hk, ⟨hpub, hpl, ?_, hw.sleepers, hw.irqs, ?_⟩,
    ⟨hun.blocked, hun.ready, hun.allocated⟩, h.timer_delivers (hw.runnable rfl)⟩
  · have hq := hw.queue
    rw [hnil] at hq
    rw [hq.empty rfl] at hq
    exact hq.frame rfl rfl rfl rfl rfl
  · have hu := (h.counters.postpone c hc).2.2
    refine h.counters.frame rfl rfl h.counters.flag.symm rfl hp.symm ?_ ?_
    · change s.kernel.irqDisableCounter + 1 - ((s.kernel.stackUnlocks c + 1 : ℕ) : Int) = _
      rw [hu]
      simp
    · change Function.update s.kernel.stackUnlocks c 0 = _
      rw [← hu, Function.update_eq_self]

/-- A single ready task has nothing stale behind it. -/
theorem staleTail_single {k : Kernel} {W : List Tid} (h : r ++ W = [t]) :
    staleTail k r W none = none := by
  rcases List.append_eq_singleton_iff.mp h with ⟨hr, hW⟩ | ⟨-, hW⟩
  · simp [staleTail, hr, hW]
  · rw [hW, staleTail_nil]

/-- The slice ends with a switch. -/
theorem BlockInv.timer_switches {l : Tid} {w : Kernel.SwitchFrame} (h : BlockInv s r sl il)
    (hpend : NonePending s) (hw : TimerWoken s r sl il Q) (hc : s.kernel.currentTaskTCB = some c)
    (huser : s.pc c = .user ∨ s.pc c = .window .poke) {r' : List Tid}
    (hcons : r ++ timerWakes s.kernel.enterTimer sl il = t :: r')
    (hlast : (s.kernel.enterTimer.withQueues Q).lastThread = some l)
    (hk : s.kernel.pitIrqHandler =
      .ok ((s.kernel.enterTimer.withQueues Q).beforeSwitch.rotate c l t w)) : Good s .timer := by
  have hun := h.timer_untouched hw
  let s₂ : WaitState := { s with kernel := (s.kernel.enterTimer.withQueues Q).beforeSwitch }
  obtain ⟨hpub, hpl⟩ := h.timer_published hpend hw s₂ ⟨rfl, rfl⟩ rfl rfl rfl rfl
    fun hn => absurd (hc.symm.trans hn) (by simp)
  have hq : QueueSeg s₂.kernel _ _ := hw.queue.frame rfl rfl rfl rfl rfl
  rw [hcons] at hq
  have hsingle : r' = [] → staleTail s.kernel.enterTimer r (timerWakes s.kernel.enterTimer sl il)
      none = none := fun hr' => staleTail_single (hr' ▸ hcons)
  have hirq : s₂.kernel.irqDisableCounter = s.kernel.irqDisableCounter + 1 := rfl
  have hle := (h.counters.postpone c hc).2.1
  have hlocks : 0 ≤ (s.pc c).locks := by
    rcases huser with hu | hu <;> rw [hu] <;> decide
  have hinv := BlockInv.of_rotate (s := s₂) (t := t) (w := w) hpub hpl hq hsingle hw.sleepers
    hw.irqs hc huser hlast rfl h.counters.dead rfl (by omega) (h.counters.push_le hc)
  refine Or.inl ⟨_, _, _, _, timer_exec hk, hinv, ?_, h.timer_delivers fun x hx => ?_⟩
  · refine untouched_rotate (s := s₂) (hpl.running c hc).2 hq hlast
      ⟨hun.blocked, hun.ready, hun.allocated⟩ fun x hx => ?_
    change (s.kernel.enterTimer.withQueues Q).state x = _
    rw [hw.state]
    exact ite_eq_left_iff.mpr fun _ => hx
  · have hready : s₂.kernel.state x = .ready := (hw.state x).trans (if_pos hx)
    by_cases hxt : x = t
    · exact Or.inl (by rw [hxt]; exact Function.update_self _ _ _)
    · refine Or.inr ((Function.update_of_ne hxt _ _).trans ?_)
      by_cases hxc : x = c
      · rw [hxc]
        exact Function.update_self _ _ _
      · exact (Function.update_of_ne hxc _ _).trans hready

theorem timer_good (h : BlockInv s r sl il) (hen : WaitOp.Enabled s .timer)
    (hs : WaitOp.Safe s .timer) : Good s .timer := by
  obtain ⟨hp, hplace⟩ := h.not_locked hen
  obtain ⟨hwin, htail⟩ := hs
  have huser : ∀ c, s.kernel.currentTaskTCB = some c → s.pc c = .user ∨ s.pc c = .window .poke := by
    intro c hc
    rcases hplace c hc with hu | ⟨reason, hw⟩
    · exact Or.inl hu
    · cases reason with
      | sleep => exact absurd hw (hwin c hc).1
      | irq => exact absurd hw (hwin c hc).2
      | poke => exact Or.inr hw
  have hpend : NonePending s := by
    intro c hc
    rcases huser c hc with hu | hu <;> rw [hu] <;> simp [Pc.Pending]
  have hcur : ∀ c, s.kernel.currentTaskTCB = some c →
      s.kernel.state c = .running ∧ c ∉ sl ∧ c ∉ il :=
    fun c hc => ⟨(h.running c hc).2, h.running_not_listed hc (hpend c hc)⟩
  rcases pitIrqHandler_spec (h.waitLists hpend) hp h.counters.flag (fun _ => h.counters.dead) hcur
    (fun hn => (h.idle hn).1) with ⟨k₂, hw, hcase⟩ | ⟨t, ht⟩
  · obtain ⟨Q, rfl⟩ := hw.rest.exists_queues
    rcases hcase with ⟨hends, slice, hslice, hk⟩ | ⟨-, c, hc, ⟨hnil, hk⟩ | hswitch⟩
    · have hclean := (htail.resolve_left hends) sl il h.sleepers h.irqs
      exact h.timer_goes_on hpend hp hw hclean hslice hk
    · exact h.timer_stays hpend hp hw hc hnil hk
    · obtain ⟨t, r', l, w, hcons, hlast, hk⟩ := hswitch
      exact h.timer_switches hpend hw hc (huser c hc) hcons hlast hk
  · refine Or.inr ⟨_, ?_, not_misplaced_tfnttnnz t⟩
    have hex : WaitOp.exec s .timer = s.withKernel s.kernel.pitIrqHandler := by
      simp [WaitOp.exec]
    rw [hex, ht]
    rfl

end UnnamedOS.Proc
