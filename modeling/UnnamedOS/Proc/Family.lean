import UnnamedOS.Proc.Passes

/-!
# The process tree

Task control blocks hold raw pointers to the block of the mother and to the blocks of the
children, and `reap` frees blocks. `lives` counts how often a block was freed, so that a pointer
that has outlived its target can be told from one to a new task at the same address.
-/

namespace UnnamedOS.Proc

open UnnamedOS.Lib

structure Family where
  kernel : Kernel
  /-- How often `reap` has freed the block. -/
  lives : Tid → Nat
  /-- `lives` of the mother when the task was created. -/
  motherLife : Tid → Nat

/-- The calls that the loop of `reap` makes for the tasks it comes to, and the kernel each of
them finds. -/
inductive ReapReaches : Option Tid → Kernel → Tid → Kernel → Prop
  | here (t : Tid) (k : Kernel) : ReapReaches (some t) k t k
  | next {t t' : Tid} {k k₁ k' : Kernel} : k.reapTask t = .ok k₁ →
      ReapReaches (k₁.next t) k₁ t' k' → ReapReaches (some t) k t' k'

/-- `k₀` is the kernel in which the step calls `schedule`. -/
def CallsSchedule (k : Kernel) (op : TaskOp) (k₀ : Kernel) : Prop :=
  ∃ c s un n, k.currentTaskTCB = some c ∧ op.enters = some s ∧ k₀ = k.entry c s un n ∧
    op.exec k = k₀.schedule.map Kernel.resume

namespace Family

def boot (junk : Kernel) (t : Tid) (cr3 : UInt64) : Family where
  kernel := junk.initializeMultitasking t cr3
  lives _ := 0
  motherLife _ := 0

/-- The kernel after a step, and what the step did to the blocks. -/
def after (s : Family) (op : TaskOp) (k : Kernel) : Family where
  kernel := k
  lives t := if t ∈ s.kernel.allocated ∧ t ∉ k.allocated then s.lives t + 1 else s.lives t
  motherLife t :=
    match op, s.kernel.currentTaskTCB with
    | .ckprocA M _ _, some c => if t = M then s.lives c else s.motherLife t
    | _, _ => s.motherLife t

def exec (s : Family) (op : TaskOp) : Except Halt Family :=
  match op.exec s.kernel with
  | .error e => .error e
  | .ok k => .ok (s.after op k)

def step (s : Family) (op : TaskOp) (s' : Family) : Prop :=
  op.Enabled s.kernel ∧ s.exec op = .ok s'

/-- The mother of `t` has neither exited nor been freed. -/
def MotherLives (s : Family) (t : Tid) : Prop :=
  ∀ p ∈ s.kernel.parent t, s.lives p = s.motherLife t ∧ ¬ s.kernel.Gone p

/-- A task exits before its mother does, and wake-ups are clean. -/
def Safe (s : Family) (op : TaskOp) : Prop :=
  op.CleanWake s.kernel ∧ (op.enters = some .dead → ∀ c ∈ s.kernel.currentTaskTCB, s.MotherLives c)

instance (s : Family) (t : Tid) : Decidable (s.MotherLives t) :=
  inferInstanceAs (Decidable (∀ p ∈ s.kernel.parent t, _))

instance (s : Family) (op : TaskOp) : Decidable (s.Safe op) :=
  inferInstanceAs (Decidable (_ ∧ (_ → ∀ c ∈ s.kernel.currentTaskTCB, s.MotherLives c)))

/-- `murderChild` finds the mother it was created by and itself once among her children. -/
def MurderOk (s : Family) (k : Kernel) (d : Tid) : Prop :=
  ∀ p, k.parent d = some p →
    p ∈ k.allocated ∧ s.lives p = s.motherLife d ∧ (k.children p).count d = 1 ∧
      k.murderChild d ≠ .error (.error .amberAlert d) ∧
      ∀ k', k.murderChild d = .ok k' → k'.children p = (k.children p).erase d

end Family

variable {k k' k₀ k₁ : Kernel} {c d p t x : Tid} {op : TaskOp} {ops : List TaskOp} {s s' : Family}
  {st : TaskState}

/-- What a call of `schedule` does to the tables of the tasks. -/
structure Passed (k k' : Kernel) (c : Tid) (st : TaskState) : Prop where
  parent : k'.parent = k.parent
  children : k'.children = k.deadTasks.elim k.children k.disown
  allocated : k'.allocated = k.deadTasks.elim k.allocated k.freed
  deadTasks : k'.deadTasks = if st = .dead then some c else none
  gone : ∀ t, k.Gone t → k'.Gone t
  mother : ∀ d, k.deadTasks = some d → ∀ p, k.parent d = some p → d ∈ k.children p
  /-- The caller keeps its state, is put behind the ready tasks or is buried at once. -/
  own : k'.state c = st ∨ (st = .running ∧ k'.state c = .ready) ∨
    (st = .dead ∧ k'.state c = .buried)
  other : ∀ t, t ≠ c → k'.state t = k.state t ∨ k'.state t = .ready ∨ k'.state t = .running
  woken : ∀ p, k.reapWakes = some p → k'.state p ≠ .waitingForDeath
  handed : st = .dead → k'.state c = .buried → ∃ p, k.parent c = some p ∧ k'.state p = .running
  /-- A mother that waits has no unburied child on the list of `reap`. -/
  alone : st = .waitingForDeath → ∀ d, k.deadTasks = some d → k.parent d = some c →
    k.state d = .buried

/-- What a pick does to the states. -/
theorem Kernel.Picked.states {r : List Tid} {q : Option Tid} (h : Kernel.Picked k c r k')
    (hq : QueueSeg k r q) :
    (k'.state c = k.state c ∨ (k.state c = .running ∧ k'.state c = .ready) ∨
      (k.state c = .dead ∧ k'.state c = .buried ∧
        ∃ p, k.parent c = some p ∧ k'.state p = .running)) ∧
      ∀ t, t ≠ c → k'.state t = k.state t ∨ k'.state t = .running := by
  have hhead : ∀ {a : Tid} {r' : List Tid}, r = a :: r' → k.state c ≠ .ready → c ≠ a := by
    rintro a r' rfl hc rfl
    exact hc (hq.ready c List.mem_cons_self).2
  have hupdate : ∀ (f : Tid → TaskState) (a t : Tid),
      Function.update f a .running t = f t ∨ Function.update f a .running t = .running := by
    intro f a t
    by_cases hta : t = a
    · rw [hta]
      exact Or.inr (Function.update_self a _ _)
    · exact Or.inl (Function.update_of_ne hta _ _)
  cases h with
  | @pop a r' w hr _ hrdy =>
      exact ⟨Or.inl (Function.update_of_ne (hhead hr hrdy) _ _), fun t _ => hupdate k.state a t⟩
  | @rotate a l r' w hr hrun _ =>
      have hca : c ≠ a := hhead hr (by simp [hrun])
      refine ⟨Or.inr (Or.inl ⟨hrun, ?_⟩), fun t ht => ?_⟩
      · exact (Function.update_of_ne hca _ _).trans (Function.update_self c _ _)
      · have hupd := hupdate (Function.update k.state c .ready) a t
        rwa [Function.update_of_ne ht] at hupd
  | stay => exact ⟨Or.inl rfl, fun t _ => Or.inl rfl⟩
  | @bury p w _ hdead hp hw =>
      have hcp : c ≠ p := fun he => by rw [he, hw] at hdead; cases hdead
      refine ⟨Or.inr (Or.inr ⟨hdead, ?_, p, hp, Function.update_self p _ _⟩), fun t ht => ?_⟩
      · exact (Function.update_of_ne hcp _ _).trans (Function.update_self c _ _)
      · have hupd := hupdate (Function.update k.state c .buried) p t
        rwa [Function.update_of_ne ht] at hupd
  | idle => exact ⟨Or.inl rfl, fun t _ => Or.inl rfl⟩

theorem Kernel.Picked.gone {r : List Tid} {q : Option Tid} (h : Kernel.Picked k c r k')
    (hq : QueueSeg k r q) (ht : k.Gone t) : k'.Gone t := by
  have hhead : ∀ {a : Tid} {r' : List Tid}, r = a :: r' → t ≠ a := by
    rintro a r' rfl rfl
    exact ht.not_ready (hq.ready t List.mem_cons_self).2
  cases h with
  | pop w hr _ _ => exact ht.congr (Function.update_of_ne (hhead hr) _ _)
  | rotate w hr hrun _ =>
      have htc : t ≠ c := fun he => ht.not_running (he ▸ hrun)
      exact ht.congr ((Function.update_of_ne (hhead hr) _ _).trans (Function.update_of_ne htc _ _))
  | stay => exact ht
  | @bury p w _ _ _ hw =>
      have htp : t ≠ p := by
        rintro rfl
        rcases ht with ht | ht <;> rw [hw] at ht <;> cases ht
      by_cases htc : t = c
      · subst htc
        exact Or.inr ((Function.update_of_ne htp _ _).trans (Function.update_self t _ _))
      · exact ht.congr ((Function.update_of_ne htp _ _).trans (Function.update_of_ne htc _ _))
  | idle => exact ht

/-- The states that `reap` leaves: that of the caller, and those of the others but for the mother
that it wakes. -/
theorem AfterReap.states {un : Tid → Nat} {n : Int} {r' : List Tid} {q' : Option Tid}
    (h : AfterReap (k.entry c st un n) k₁ r' q')
    (hwakes : (k.entry c st un n).reapWakes = k.reapWakes) (hwc : k.reapWakes ≠ some c) :
    k₁.state c = st ∧ (∀ p, k.reapWakes = some p → k₁.state p = .ready) ∧
      ∀ t, t ≠ c → k.reapWakes ≠ some t → k₁.state t = k.state t := by
  have hstate := h.state
  rw [hwakes] at hstate
  cases hw : k.reapWakes with
  | none =>
      rw [hw] at hstate
      rw [hstate]
      refine ⟨Function.update_self c _ _, fun p hp => ?_, fun t ht _ => entry_state_ne ht⟩
      cases hp
  | some p =>
      rw [hw] at hstate hwc
      have hcp : c ≠ p := fun he => hwc (he ▸ rfl)
      rw [hstate]
      refine ⟨?_, fun p' hp' => ?_, fun t ht htp => ?_⟩
      · exact (Function.update_of_ne hcp _ _).trans (Function.update_self c _ _)
      · rw [← Option.some.inj hp']
        exact Function.update_self p _ _
      · have hne : t ≠ p := fun he => htp (he ▸ rfl)
        exact (Function.update_of_ne hne _ _).trans (entry_state_ne ht)

theorem reapWakes_not_gone {t : Tid} (h : k.reapWakes = some t) : ¬ k.Gone t := by
  obtain ⟨_, _, _, hwait, _⟩ := reapWakes_some.mp h
  rintro (hgone | hgone) <;> rw [hwait] at hgone <;> cases hgone

/-- A caller that waits for a child has no unburied one on the list of `reap`. -/
theorem Passing.alone {un : Tid → Nat} {n : Int} (h : Passing k) (hc : k.currentTaskTCB = some c)
    (hwakes : (k.entry c .waitingForDeath un n).reapWakes = k.reapWakes)
    (hwc : k.reapWakes ≠ some c) {d : Tid} (hd : k.deadTasks = some d)
    (hp : k.parent d = some c) : k.state d = .buried := by
  by_contra hb
  have hdc : d ≠ c := fun he => h.corpse_ne hc (he ▸ hd)
  have hself : (k.entry c .waitingForDeath un n).reapWakes = some c := by
    refine reapWakes_some.mpr ⟨d, hd, hp, Function.update_self c _ _, ?_⟩
    rwa [entry_state_ne hdc]
  exact hwc (hwakes ▸ hself)

theorem buryLater_tables (k : Kernel) (c : Tid) : (k.buryLater c).parent = k.parent ∧
    (k.buryLater c).children = k.children ∧
    (k.buryLater c).deadTasks = if k.state c = .dead then some c else k.deadTasks := by
  unfold Kernel.buryLater
  split <;> exact ⟨rfl, rfl, rfl⟩

theorem passed_of_schedule {un : Tid → Nat} {n : Int} (h : Passing k)
    (hc : k.currentTaskTCB = some c)
    (hclean : st ≠ .running → ∀ p, k.reapWakes = some p → k.firstThread = none ∨ k.next p = none)
    (hk : (k.entry c st un n).schedule = .ok k') : Passed k k' c st := by
  obtain ⟨-, hwakes, hwc, k₁, r', q', hA, hpick⟩ := pass_spec h hc hclean hk
  have hrun := (h.running c hc).2
  have hT := hpick.tables
  obtain ⟨hst, hwoken, hrest⟩ := hA.states hwakes hwc
  obtain ⟨hparent, hchildren, hdead⟩ := buryLater_tables k₁ c
  rw [hst, hA.empty] at hdead
  obtain ⟨hown, hothers⟩ := hpick.states hA.queue.buryLater
  rw [buryLater_state, hst] at hown
  rw [buryLater_state] at hothers
  refine ⟨hT.parent.trans (hparent.trans hA.parent), hT.children.trans (hchildren.trans hA.children),
    hT.allocated.trans ((buryLater_allocated k₁ c).trans hA.allocated), hT.deadTasks.trans hdead,
    ?_, hA.mother, ?_, ?_, ?_, ?_, ?_⟩
  · intro t ht
    have htc : t ≠ c := fun he => ht.not_running (he ▸ hrun)
    have ht₁ : k₁.Gone t := ht.congr (hrest t htc fun hw => reapWakes_not_gone hw ht)
    refine hpick.gone hA.queue.buryLater (ht₁.congr ?_)
    rw [buryLater_state]
  · rcases hown with ho | ⟨hr, ho⟩ | ⟨hd, ho, -⟩
    · exact Or.inl ho
    · exact Or.inr (Or.inl ⟨hr, ho⟩)
    · exact Or.inr (Or.inr ⟨hd, ho⟩)
  · intro t ht
    rcases hothers t ht with ho | ho
    · by_cases hw : k.reapWakes = some t
      · exact Or.inr (Or.inl (ho.trans (hwoken t hw)))
      · exact Or.inl (ho.trans (hrest t ht hw))
    · exact Or.inr (Or.inr ho)
  · intro p hw
    have hpc : p ≠ c := fun he => hwc (he ▸ hw)
    rcases hothers p hpc with ho | ho
    · simp [ho, hwoken p hw]
    · simp [ho]
  · intro hd hb
    rcases hown with ho | ⟨hr, -⟩ | ⟨-, -, p, hp, hrun'⟩
    · rw [hb, hd] at ho
      cases ho
    · rw [hd] at hr
      cases hr
    · rw [hparent, hA.parent] at hp
      exact ⟨p, hp, hrun'⟩
  · rintro rfl d hd hp
    exact h.alone hc hwakes hwc hd hp

/-- The tables after the creation of `M` by `cur`. -/
structure Born (k k' : Kernel) (M cur : Tid) : Prop where
  current : k.currentTaskTCB = some cur
  fresh : M ∉ k.allocated
  parent : k'.parent = Function.update k.parent M (some cur)
  children : k'.children = Function.update (Function.update k.children M []) cur (M :: k.children cur)
  allocated : k'.allocated = M :: k.allocated
  deadTasks : k'.deadTasks = k.deadTasks
  state : k'.state = Function.update k.state M .ready

/-- What a step does to the tables of the tasks. -/
inductive StepKind (k k' : Kernel) : TaskOp → Prop
  | create {M cur : Tid} {M2 cr3 : UInt64} : Born k k' M cur →
      StepKind k k' (.ckprocA M M2 cr3)
  | pass {op : TaskOp} {c : Tid} {st : TaskState} : k.currentTaskTCB = some c →
      op.enters = some st → Passed k k' c st → StepKind k k' op
  | other {op : TaskOp} : op.enters = none → (∀ M M2 cr3, op ≠ .ckprocA M M2 cr3) →
      Kernel.SameTables k k' → (∀ t, k.Gone t → k'.Gone t) →
      (∀ t, k'.state t = k.state t ∨ k'.state t = .ready ∨ k'.state t = .running) →
      StepKind k k' op

/-- The running task gives the processor away. -/
theorem StepKind.of_enters {st : TaskState} {c : Tid} (h : Passing k) (hop : op.enters = some st)
    (hclean : st ≠ .running → ∀ p, k.reapWakes = some p → k.firstThread = none ∨ k.next p = none)
    (hc : k.currentTaskTCB = some c) (hk : op.exec k = .ok k') : StepKind k k' op := by
  obtain ⟨un, n, he⟩ := exec_enters h.postpone h.flag hc (h.running c hc).2 hop
  rw [he] at hk
  cases hsch : (k.entry c st un n).schedule with
  | error e =>
      rw [hsch] at hk
      cases hk
  | ok k₁ =>
      rw [hsch] at hk
      obtain rfl := Except.ok.inj hk
      have hp := passed_of_schedule h hc hclean hsch
      obtain ⟨m, un', hr⟩ := Kernel.resume_eq k₁
      refine StepKind.pass hc hop ?_
      rw [hr]
      exact ⟨hp.parent, hp.children, hp.allocated, hp.deadTasks, hp.gone, hp.mother, hp.own, hp.other,
        hp.woken, hp.handed, hp.alone⟩

theorem StepKind.of_ckprocA {M : Tid} {M2 cr3 : UInt64} (h : Passing k) (hM : M ∉ k.allocated)
    (hk : k.ckprocA M M2 cr3 = .ok k') : StepKind k k' (.ckprocA M M2 cr3) := by
  obtain ⟨cur, hc, hcase⟩ := ckprocA_ok hk
  have hne : cur ≠ M := fun he => hM (he ▸ (h.running cur hc).1)
  have hpar : (k.initTask cur M M2 cr3).parent = Function.update k.parent M (some cur) := by
    simp [Kernel.initTask, Kernel.appendChild]
  have hch : (k.initTask cur M M2 cr3).children =
      Function.update (Function.update k.children M []) cur (M :: k.children cur) := by
    simp [Kernel.initTask, Kernel.appendChild, hne]
  rcases hcase with ⟨-, rfl⟩ | ⟨f, l, -, -, rfl⟩
  · exact StepKind.create ⟨hc, hM, hpar, hch, rfl, rfl, rfl⟩
  · exact StepKind.create ⟨hc, hM, hpar, hch, rfl, rfl, rfl⟩

/-- A step that changes the state of one task, which is not gone, and no table. -/
theorem StepKind.of_update {t : Tid} {st : TaskState} (hop : op.enters = none)
    (hnew : ∀ M M2 cr3, op ≠ .ckprocA M M2 cr3) (hT : Kernel.SameTables k k') (hng : ¬ k.Gone t)
    (hst : st = .ready ∨ st = .running) (hstate : k'.state = Function.update k.state t st) :
    StepKind k k' op := by
  refine StepKind.other hop hnew hT (fun x hx => ?_) fun x => ?_
  · have hxt : x ≠ t := fun he => hng (he ▸ hx)
    exact hx.congr (by rw [hstate, Function.update_of_ne hxt])
  · rw [hstate]
    by_cases hxt : x = t
    · rw [hxt, Function.update_self]
      exact Or.inr hst
    · exact Or.inl (Function.update_of_ne hxt _ _)

theorem step_kind (h : Passing k) (hw : op.CleanWake k) (hs : TaskOp.step k op k') :
    StepKind k k' op := by
  obtain ⟨hen, hk⟩ := hs
  obtain ⟨r, hq⟩ := h.queue
  cases op with
  | ckprocA M M2 cr3 => exact StepKind.of_ckprocA h hen hk
  | blockTask reason =>
      cases hc : k.currentTaskTCB with
      | none => simp [TaskOp.exec, Kernel.blockTask, hc] at hk
      | some c => exact StepKind.of_enters h rfl (fun _ => hw) hc hk
  | unblockTask t =>
      have hsame : Kernel.SameTables k k' ∧ k'.state = Function.update k.state t .ready := by
        obtain ⟨-, -, ⟨-, rfl⟩ | ⟨f, l, -, -, rfl⟩⟩ := Kernel.unblockTask_ok hk <;>
          exact ⟨⟨rfl, rfl, rfl, rfl⟩, rfl⟩
      exact StepKind.of_update rfl (fun _ _ _ hne => by cases hne) hsame.1 hen.2.not_gone
        (Or.inl rfl) hsame.2
  | timeSlice =>
      cases hc : k.currentTaskTCB with
      | none =>
          obtain ⟨c, -, -, -, hcur, -⟩ := endTimeSlice_ok h.postpone hk
          rw [hc] at hcur
          cases hcur
      | some c => exact StepKind.of_enters h rfl (fun hne => absurd rfl hne) hc hk
  | procExit =>
      cases hc : k.currentTaskTCB with
      | none => simp [TaskOp.exec, Kernel.procExit, hc] at hk
      | some c => exact StepKind.of_enters h rfl (fun _ => hw) hc hk
  | leaveIdle =>
      simp only [TaskOp.exec] at hk
      cases hi : k.idleTask with
      | none => simp [Kernel.leaveIdle, hi] at hk
      | some c =>
          obtain ⟨t, r', w, rfl, rfl⟩ :=
            Kernel.leaveIdle_spec h.postpone hi hq (h.idle hen c hi) hk
          have hng : ¬ k.Gone t := fun hx => hx.not_ready (hq.ready t List.mem_cons_self).2
          exact StepKind.of_update rfl (fun _ _ _ hne => by cases hne) ⟨rfl, rfl, rfl, rfl⟩ hng
            (Or.inr rfl) rfl

/-- The lists of children have no task twice and no task of another mother. -/
structure Siblings (k : Kernel) : Prop where
  nodup : k.allocated.Nodup
  child : ∀ p ∈ k.allocated, ∀ x ∈ k.children p, x ∈ k.allocated ∧ k.parent x = some p
  once : ∀ p ∈ k.allocated, (k.children p).Nodup

namespace Siblings

/-- The children that stay are those of the mother without the dead task. -/
theorem mem_disown (hi : Siblings k) (hp : p ∈ k.allocated) :
    x ∈ k.disown d p ↔ x ∈ k.children p ∧ x ≠ d := by
  unfold Kernel.disown
  cases hpar : k.parent d with
  | none =>
      change x ∈ k.children p ↔ _
      refine ⟨fun hx => ⟨hx, ?_⟩, fun hx => hx.1⟩
      rintro rfl
      have hxp := (hi.child p hp x hx).2
      rw [hpar] at hxp
      cases hxp
  | some m =>
      change x ∈ Function.update k.children m ((k.children m).erase d) p ↔ _
      by_cases hpm : p = m
      · subst hpm
        rw [Function.update_self, (hi.once p hp).mem_erase_iff]
        exact and_comm
      · rw [Function.update_of_ne hpm]
        refine ⟨fun hx => ⟨hx, ?_⟩, fun hx => hx.1⟩
        rintro rfl
        have hxp := (hi.child p hp x hx).2
        rw [hpar] at hxp
        exact hpm (Option.some.inj hxp).symm

theorem nodup_disown (hi : Siblings k) (hp : p ∈ k.allocated) : (k.disown d p).Nodup := by
  unfold Kernel.disown
  cases hpar : k.parent d with
  | none => exact hi.once p hp
  | some m =>
      change (Function.update k.children m ((k.children m).erase d) p).Nodup
      by_cases hpm : p = m
      · subst hpm
        rw [Function.update_self]
        exact (hi.once p hp).erase d
      · rw [Function.update_of_ne hpm]
        exact hi.once p hp

end Siblings

namespace Passed

theorem keep (hP : Passed k k' c st) (ht : t ∈ k.allocated) (hd : k.deadTasks ≠ some t) :
    t ∈ k'.allocated := by
  rw [hP.allocated]
  cases hdead : k.deadTasks with
  | none => exact ht
  | some d => exact mem_freed ht (fun he => hd (he ▸ hdead))

theorem sub (hP : Passed k k' c st) (ht : t ∈ k'.allocated) : t ∈ k.allocated := by
  rw [hP.allocated] at ht
  cases hdead : k.deadTasks with
  | none => rwa [hdead] at ht
  | some d => rw [hdead] at ht; exact mem_of_freed ht

theorem mem_children (hP : Passed k k' c st) (hi : Siblings k) (hp : p ∈ k.allocated) :
    x ∈ k'.children p ↔ x ∈ k.children p ∧ k.deadTasks ≠ some x := by
  rw [hP.children]
  cases hd : k.deadTasks with
  | none => simp
  | some d =>
      refine (hi.mem_disown hp).trans (and_congr_right fun _ => ?_)
      rw [ne_eq, ne_eq, Option.some.injEq, eq_comm]

theorem siblings (hP : Passed k k' c st) (hi : Siblings k) : Siblings k' := by
  refine ⟨?_, ?_, ?_⟩
  · rw [hP.allocated]
    cases hd : k.deadTasks with
    | none => exact hi.nodup
    | some d =>
        rcases freed_eq k d with he | he
        · rw [Option.elim_some, he]
          exact hi.nodup
        · rw [Option.elim_some, he]
          exact hi.nodup.erase d
  · intro p hp x hx
    obtain ⟨hx, hxd⟩ := (hP.mem_children hi (hP.sub hp)).mp hx
    obtain ⟨hxa, hxp⟩ := hi.child p (hP.sub hp) x hx
    rw [hP.parent]
    exact ⟨hP.keep hxa hxd, hxp⟩
  · intro p hp
    rw [hP.children]
    cases hd : k.deadTasks with
    | none => exact hi.once p (hP.sub hp)
    | some d => exact hi.nodup_disown (hP.sub hp)

end Passed

namespace Born

variable {M cur : Tid}

theorem ne (hC : Born k k' M cur) (ht : t ∈ k.allocated) : t ≠ M := fun he => hC.fresh (he ▸ ht)

theorem parent_of_ne (hC : Born k k' M cur) (ht : t ≠ M) : k'.parent t = k.parent t := by
  rw [hC.parent, Function.update_of_ne ht]

theorem state_of_ne (hC : Born k k' M cur) (ht : t ≠ M) : k'.state t = k.state t := by
  rw [hC.state, Function.update_of_ne ht]

/-- The new task is a child of its mother, and the other children are those before it. -/
theorem mem_children (hC : Born k k' M cur) (hcur : cur ∈ k.allocated)
    (hp : p ∈ k'.allocated) : x ∈ k'.children p ↔
      (p = cur ∧ x = M) ∨ (p ∈ k.allocated ∧ x ∈ k.children p) := by
  rw [hC.allocated] at hp
  rw [hC.children]
  by_cases hpc : p = cur
  · subst hpc
    rw [Function.update_self, List.mem_cons]
    simp [hcur]
  · rw [Function.update_of_ne hpc]
    by_cases hpM : p = M
    · subst hpM
      rw [Function.update_self]
      simp [hpc, hC.fresh]
    · rw [Function.update_of_ne hpM]
      simp [hpc, (List.mem_cons.mp hp).resolve_left hpM]

theorem siblings (hC : Born k k' M cur) (hcur : cur ∈ k.allocated) (hi : Siblings k) :
    Siblings k' := by
  refine ⟨?_, ?_, ?_⟩
  · rw [hC.allocated]
    exact List.nodup_cons.mpr ⟨hC.fresh, hi.nodup⟩
  · intro p hp x hx
    rw [hC.allocated]
    rcases (hC.mem_children hcur hp).mp hx with ⟨rfl, rfl⟩ | ⟨hpa, hx⟩
    · rw [hC.parent, Function.update_self]
      exact ⟨List.mem_cons_self, rfl⟩
    · obtain ⟨hxa, hxp⟩ := hi.child p hpa x hx
      rw [hC.parent_of_ne (hC.ne hxa)]
      exact ⟨List.mem_cons_of_mem M hxa, hxp⟩
  · intro p hp
    rw [hC.allocated] at hp
    rw [hC.children]
    by_cases hpc : p = cur
    · subst hpc
      rw [Function.update_self]
      exact List.nodup_cons.mpr ⟨fun hm => hC.fresh (hi.child p hcur M hm).1, hi.once p hcur⟩
    · rw [Function.update_of_ne hpc]
      by_cases hpM : p = M
      · subst hpM
        rw [Function.update_self]
        exact List.nodup_nil
      · rw [Function.update_of_ne hpM]
        exact hi.once p ((List.mem_cons.mp hp).resolve_left hpM)

end Born

theorem Kernel.SameTables.siblings (hT : Kernel.SameTables k k') (hi : Siblings k) :
    Siblings k' := by
  refine ⟨?_, ?_, ?_⟩
  · rw [hT.allocated]
    exact hi.nodup
  · rw [hT.allocated, hT.children, hT.parent]
    exact hi.child
  · rw [hT.allocated, hT.children]
    exact hi.once

/-- Pointers between blocks that are in use lead to the tasks they were made for. -/
structure FamilyInv (s : Family) : Prop where
  passing : Passing s.kernel
  siblings : Siblings s.kernel
  life : ∀ p ∈ s.kernel.allocated, ∀ x ∈ s.kernel.children p, s.motherLife x = s.lives p
  past : ∀ t ∈ s.kernel.allocated, ∀ p, s.kernel.parent t = some p → s.motherLife t ≤ s.lives p
  mother : ∀ t ∈ s.kernel.allocated, (s.kernel.Gone t → s.kernel.deadTasks = some t) → ∀ p,
    s.kernel.parent t = some p → s.motherLife t = s.lives p →
    p ∈ s.kernel.allocated ∧ t ∈ s.kernel.children p
  corpse : ∀ d, s.kernel.deadTasks = some d → ∀ p, s.kernel.parent d = some p →
    s.motherLife d = s.lives p

namespace FamilyInv

theorem other (hi : FamilyInv s) (hp : Passing k') (hT : Kernel.SameTables s.kernel k')
    (hg : ∀ t, s.kernel.Gone t → k'.Gone t) {op : TaskOp}
    (hop : ∀ M M2 cr3, op ≠ .ckprocA M M2 cr3) : FamilyInv (s.after op k') := by
  have hlives : (s.after op k').lives = s.lives := by
    funext t
    refine if_neg ?_
    rw [hT.allocated]
    exact fun ht => ht.2 ht.1
  have hml : (s.after op k').motherLife = s.motherLife := by
    funext t
    cases op with
    | ckprocA M M2 cr3 => exact absurd rfl (hop M M2 cr3)
    | _ => rfl
  have hk : (s.after op k').kernel = k' := rfl
  refine ⟨hp, hT.siblings hi.siblings, ?_, ?_, ?_, ?_⟩
  · rw [hlives, hml, hk, hT.allocated, hT.children]
    exact hi.life
  · rw [hlives, hml, hk, hT.allocated, hT.parent]
    exact hi.past
  · rw [hlives, hml, hk, hT.allocated, hT.children, hT.parent, hT.deadTasks]
    intro t ht hgone
    exact hi.mother t ht (fun h => hgone (hg t h))
  · rw [hlives, hml, hk, hT.deadTasks, hT.parent]
    exact hi.corpse

theorem create (hi : FamilyInv s) (hp : Passing k') {M cur : Tid} {M2 cr3 : UInt64}
    (hC : Born s.kernel k' M cur) : FamilyInv (s.after (.ckprocA M M2 cr3) k') := by
  have hlives : (s.after (.ckprocA M M2 cr3) k').lives = s.lives := by
    funext t
    refine if_neg ?_
    rw [hC.allocated]
    exact fun ht => ht.2 (List.mem_cons_of_mem M ht.1)
  have hml : (s.after (.ckprocA M M2 cr3) k').motherLife =
      Function.update s.motherLife M (s.lives cur) := by
    funext t
    have hval : (s.after (.ckprocA M M2 cr3) k').motherLife t =
        if t = M then s.lives cur else s.motherLife t := by
      simp only [Family.after, hC.current]
    rw [hval, Function.update_apply]
  have hk : (s.after (.ckprocA M M2 cr3) k').kernel = k' := rfl
  have hcur : cur ∈ s.kernel.allocated := (hi.passing.running cur hC.current).1
  have hmlne : ∀ t, t ≠ M → Function.update s.motherLife M (s.lives cur) t = s.motherLife t :=
    fun t ht => Function.update_of_ne ht _ _
  have hold : ∀ t ∈ k'.allocated, t ≠ M → t ∈ s.kernel.allocated := by
    intro t ht htM
    rw [hC.allocated] at ht
    exact (List.mem_cons.mp ht).resolve_left htM
  refine ⟨hp, hC.siblings hcur hi.siblings, ?_, ?_, ?_, ?_⟩
  · rw [hlives, hml, hk]
    intro p hpa x hx
    rcases (hC.mem_children hcur hpa).mp hx with ⟨rfl, rfl⟩ | ⟨hpo, hx⟩
    · exact Function.update_self _ _ _
    · rw [hmlne x (hC.ne (hi.siblings.child p hpo x hx).1)]
      exact hi.life p hpo x hx
  · rw [hlives, hml, hk]
    intro t ht p htp
    by_cases htM : t = M
    · subst htM
      rw [hC.parent, Function.update_self] at htp
      obtain rfl := Option.some.inj htp
      exact Nat.le_of_eq (Function.update_self _ _ _)
    · rw [hC.parent_of_ne htM] at htp
      rw [hmlne t htM]
      exact hi.past t (hold t ht htM) p htp
  · rw [hlives, hml, hk, hC.deadTasks]
    intro t ht hgone p htp hlife
    by_cases htM : t = M
    · subst htM
      rw [hC.parent, Function.update_self] at htp
      obtain rfl := Option.some.inj htp
      have hpa : cur ∈ k'.allocated := by
        rw [hC.allocated]
        exact List.mem_cons_of_mem t hcur
      exact ⟨hpa, (hC.mem_children hcur hpa).mpr (Or.inl ⟨rfl, rfl⟩)⟩
    · rw [hC.parent_of_ne htM] at htp
      rw [hmlne t htM] at hlife
      have hgone' : s.kernel.Gone t → s.kernel.deadTasks = some t :=
        fun hg => hgone (hg.congr (hC.state_of_ne htM))
      obtain ⟨hpo, hm⟩ := hi.mother t (hold t ht htM) hgone' p htp hlife
      have hpa : p ∈ k'.allocated := by
        rw [hC.allocated]
        exact List.mem_cons_of_mem M hpo
      exact ⟨hpa, (hC.mem_children hcur hpa).mpr (Or.inr ⟨hpo, hm⟩)⟩
  · rw [hlives, hml, hk, hC.deadTasks]
    intro d hd p hdp
    have hdM : d ≠ M := hC.ne (hi.passing.corpse d hd).1
    rw [hC.parent_of_ne hdM] at hdp
    rw [hmlne d hdM]
    exact hi.corpse d hd p hdp

theorem pass (hi : FamilyInv s) (hp : Passing k') (hc : s.kernel.currentTaskTCB = some c)
    (hop : op.enters = some st) (hP : Passed s.kernel k' c st)
    (hsafe : st = .dead → s.MotherLives c) : FamilyInv (s.after op k') := by
  have hml : (s.after op k').motherLife = s.motherLife := by
    funext t
    cases op with
    | ckprocA M M2 cr3 => cases hop
    | _ => rfl
  have hk : (s.after op k').kernel = k' := rfl
  obtain ⟨hca, hrun⟩ := hi.passing.running c hc
  have hstay : ∀ t ∈ k'.allocated, (s.after op k').lives t = s.lives t := by
    intro t ht
    exact if_neg fun h => h.2 ht
  have hgrow : ∀ t, s.lives t ≤ (s.after op k').lives t := by
    intro t
    change _ ≤ if t ∈ s.kernel.allocated ∧ t ∉ k'.allocated then s.lives t + 1 else s.lives t
    split <;> omega
  -- the task that died in this step ran until then
  have hearlier : ∀ t, s.kernel.Gone t → (k'.Gone t → k'.deadTasks = some t) → False := by
    intro t hg hgone
    have hd := hgone (hP.gone t hg)
    rw [hP.deadTasks] at hd
    split at hd
    · exact hg.not_running (Option.some.inj hd ▸ hrun)
    · cases hd
  refine ⟨hp, hP.siblings hi.siblings, ?_, ?_, ?_, ?_⟩
  · rw [hml, hk]
    intro p hpa x hx
    rw [hstay p hpa]
    exact hi.life p (hP.sub hpa) x ((hP.mem_children hi.siblings (hP.sub hpa)).mp hx).1
  · rw [hml, hk, hP.parent]
    intro t ht p htp
    exact Nat.le_trans (hi.past t (hP.sub ht) p htp) (hgrow p)
  · rw [hml, hk, hP.parent]
    intro t ht hgone p htp hlife
    have hta := hP.sub ht
    have htd : s.kernel.deadTasks ≠ some t :=
      fun hd => hearlier t (hi.passing.corpse t hd).2.1 hgone
    have hold : s.motherLife t = s.lives p :=
      Nat.le_antisymm (hi.past t hta p htp) (hlife ▸ hgrow p)
    obtain ⟨hpa, hm⟩ := hi.mother t hta (fun hg => (hearlier t hg hgone).elim) p htp hold
    have hpa' : p ∈ k'.allocated := by
      by_contra hpn
      have hfreed : (s.after op k').lives p = s.lives p + 1 := if_pos ⟨hpa, hpn⟩
      rw [hfreed, hold] at hlife
      omega
    exact ⟨hpa', (hP.mem_children hi.siblings hpa).mpr ⟨hm, htd⟩⟩
  · rw [hml, hk, hP.parent]
    intro d hd p hdp
    rw [hP.deadTasks] at hd
    split at hd
    · rename_i hst
      obtain rfl := Option.some.inj hd
      obtain ⟨hlife, hpg⟩ := hsafe hst p hdp
      have hpd : s.kernel.deadTasks ≠ some p := fun he => hpg (hi.passing.corpse p he).2.1
      have hpa : p ∈ s.kernel.allocated :=
        (hi.passing.parents c hca p hdp).resolve_right hpg
      rw [hstay p (hP.keep hpa hpd)]
      exact hlife.symm
    · cases hd

end FamilyInv

theorem family_step (hi : FamilyInv s) (hsafe : s.Safe op) (hs : Family.step s op s') :
    FamilyInv s' := by
  obtain ⟨hen, hex⟩ := hs
  rw [Family.exec] at hex
  split at hex
  · cases hex
  · rename_i k' hk'
    obtain rfl := Except.ok.inj hex
    have hstep : TaskOp.step s.kernel op k' := ⟨hen, hk'⟩
    have hp := passing_step hi.passing hsafe.1 hstep
    cases step_kind hi.passing hsafe.1 hstep with
    | create hC => exact hi.create hp hC
    | pass hc hop hP =>
        refine hi.pass hp hc hop hP ?_
        rintro rfl
        exact hsafe.2 hop _ hc
    | other hop hnew hT hg _ => exact hi.other hp hT hg hnew

theorem boot_siblings (junk : Kernel) (t : Tid) (cr3 : UInt64) :
    Siblings (junk.initializeMultitasking t cr3) := by
  have hch : ∀ p ∈ (junk.initializeMultitasking t cr3).allocated,
      (junk.initializeMultitasking t cr3).children p = [] := by
    intro p hp
    obtain rfl := List.mem_singleton.mp hp
    exact Function.update_self p _ _
  refine ⟨List.nodup_singleton t, fun p hp x hx => ?_, fun p hp => ?_⟩
  · rw [hch p hp] at hx
    cases hx
  · rw [hch p hp]
    exact List.nodup_nil

theorem boot_familyInv (junk : Kernel) (t : Tid) (cr3 : UInt64) :
    FamilyInv (Family.boot junk t cr3) := by
  have hpar : (junk.initializeMultitasking t cr3).parent t = none := Function.update_self t _ _
  refine ⟨boot_passing junk t cr3, boot_siblings junk t cr3, fun _ _ _ _ => rfl,
    fun x hx p hxp => Nat.le_refl _, fun x hx _ p hxp => ?_, fun d hd => by cases hd⟩
  · obtain rfl := List.mem_singleton.mp hx
    change (junk.initializeMultitasking x cr3).parent x = some p at hxp
    rw [hpar] at hxp
    cases hxp

/-- The reaper's list holds at most one task, so `reap` comes to no other. -/
theorem reapReaches_eq (hone : ∀ t, k.deadTasks = some t → Kernel.OneDead k t)
    (h : ReapReaches k.deadTasks k d k₁) : k.deadTasks = some d ∧ k₁ = k := by
  cases hd : k.deadTasks with
  | none =>
      rw [hd] at h
      cases h
  | some t =>
      rw [hd] at h
      cases h with
      | here => exact ⟨rfl, rfl⟩
      | next hk hrest =>
          rw [Kernel.reapTask_next (hone t hd) hk] at hrest
          cases hrest

theorem unblockTask_not_amber (t : Tid) : k.unblockTask t ≠ .error (.error .amberAlert d) := by
  intro h
  by_cases hr : k.state t = .running
  · rw [Kernel.unblockTask_running hr] at h
    cases h
  by_cases hy : k.state t = .ready
  · rw [Kernel.unblockTask_ready hy] at h
    cases h
  cases hf : k.firstThread with
  | none =>
      rw [Kernel.unblockTask_of_empty hr hy hf] at h
      cases h
  | some f =>
      cases hl : k.lastThread with
      | none =>
          simp [Kernel.unblockTask, Kernel.lockScheduler, Kernel.setState, Kernel.appendThread, hr,
            hy, hf, hl] at h
      | some l =>
          rw [Kernel.unblockTask_of_last hr hy hf hl] at h
          cases h

/-- A mother who knows the child loses it, whatever becomes of her own wait. -/
theorem murderChild_known (hp : k.parent d = some p) (hm : d ∈ k.children p) :
    k.murderChild d ≠ .error (.error .amberAlert d) ∧
      ∀ k', k.murderChild d = .ok k' → k'.children p = (k.children p).erase d := by
  rw [Kernel.murderChild, hp]
  simp only [hm, not_true_eq_false, if_false]
  split
  · refine ⟨fun h => (by cases h), ?_⟩
    intro k' h
    rw [← Except.ok.inj h]
    exact Function.update_self p _ _
  · refine ⟨unblockTask_not_amber p, ?_⟩
    intro k' h
    obtain ⟨-, -, ⟨-, rfl⟩ | ⟨f, l, -, -, rfl⟩⟩ := Kernel.unblockTask_ok h
    · exact Function.update_self p _ _
    · exact Function.update_self p _ _

theorem murderOk_of_inv (hi : FamilyInv s) (hd : s.kernel.deadTasks = some d) {st : TaskState}
    {un : Tid → Nat} {n : Int} : s.MurderOk (s.kernel.entry c st un n) d := by
  intro p hp
  have hda := (hi.passing.corpse d hd).1
  have hlife := hi.corpse d hd p hp
  obtain ⟨hpa, hm⟩ := hi.mother d hda (fun _ => hd) p hp hlife
  obtain ⟨hamber, hrest⟩ := murderChild_known (k := s.kernel.entry c st un n) hp hm
  exact ⟨hpa, hlife.symm, List.count_eq_one_of_mem (hi.siblings.once p hpa) hm, hamber, hrest⟩

/-- As long as tasks exit before their mothers, every `murderChild` of a run finds the mother in
use and the dead task once among her children. -/
theorem murderChild_finds_mother (junk : Kernel) (t : Tid) (cr3 : UInt64)
    (h : Run (Guarded Family.Safe Family.step) (Family.boot junk t cr3) ops s)
    (hcall : CallsSchedule s.kernel op k₀) (hreach : ReapReaches k₀.deadTasks k₀ d k₁) :
    s.MurderOk k₁ d := by
  have hi : FamilyInv s := run_invariant (fun _ _ _ hi hsafe hs => family_step hi hsafe hs) h
    (boot_familyInv junk t cr3)
  obtain ⟨c, st, un, n, hc, -, rfl, -⟩ := hcall
  obtain ⟨r, hq⟩ := hi.passing.queue
  have hT : Tables (s.kernel.entry c st un n) := hi.passing.toTaskInv.entry hc
  have hQ : QueueSeg (s.kernel.entry c st un n) r none := hq.entry (hi.passing.running c hc).2
  obtain ⟨hd, rfl⟩ := reapReaches_eq (fun t ht => hT.oneDead hQ ht) hreach
  exact murderOk_of_inv hi hd

/-- Task 2 creates task 4 and exits, its block goes to a new task, and then 4 exits. -/
def orphaned : List TaskOp :=
  [.ckprocA 2 0x2000 0x3000, .ckprocA 3 0x4000 0x5000, .timeSlice, .ckprocA 4 0x6000 0x7000,
    .procExit, .timeSlice, .ckprocA 2 0x8000 0x9000, .timeSlice, .procExit]

/-- The new task at the address of the mother has no such child. -/
theorem orphan_raises_amber_alert : ¬ ∀ (junk : Kernel) (t : Tid) (cr3 : UInt64)
    (ops : List TaskOp) (s : Family) (op : TaskOp) (k₀ : Kernel) (d : Tid) (k₁ : Kernel),
    Run Family.step (Family.boot junk t cr3) ops s → CallsSchedule s.kernel op k₀ →
      ReapReaches k₀.deadTasks k₀ d k₁ → s.MurderOk k₁ d := by
  intro hall
  have hlast : (follow (fun s op => TaskOp.Enabled s.kernel op) Family.exec
      (Family.boot Kernel.zeroed 1 0x1000) orphaned).map (fun s =>
        decide (s.kernel.currentTaskTCB = some 3 ∧ s.kernel.state 3 = .running ∧
          s.kernel.postponeTaskSwitchesCounter = 0 ∧ s.kernel.taskSwitchesPostponedFlag = false ∧
          s.kernel.deadTasks = some 4 ∧ s.kernel.parent 4 = some 2 ∧
          s.kernel.children 2 = [])) = some true := by
    decide +kernel
  obtain ⟨s, hs, hfields⟩ := Option.map_eq_some_iff.mp hlast
  obtain ⟨hc, hrun, hp, hf, hd, hpar, hch⟩ := of_decide_eq_true hfields
  have hR : Run Family.step (Family.boot Kernel.zeroed 1 0x1000) orphaned s :=
    run_of_follow (fun _ _ _ h h' => ⟨h, h'⟩) hs
  obtain ⟨un, n, he⟩ : ∃ un n, TaskOp.exec s.kernel .timeSlice =
      ((s.kernel.entry 3 .running un n).schedule).map Kernel.resume :=
    exec_enters hp hf hc hrun rfl
  have hreach : ReapReaches (s.kernel.entry 3 .running un n).deadTasks
      (s.kernel.entry 3 .running un n) 4 (s.kernel.entry 3 .running un n) := by
    rw [show (s.kernel.entry 3 .running un n).deadTasks = some 4 from hd]
    exact ReapReaches.here 4 _
  have hok := hall _ _ _ _ s .timeSlice _ 4 _ hR ⟨3, .running, un, n, hc, rfl, rfl, he⟩ hreach
  obtain ⟨-, -, hcount, -⟩ := hok 2 hpar
  rw [show (s.kernel.entry 3 .running un n).children 2 = [] from hch] at hcount
  cases hcount

/-- A child exits before its mother, and the next call of `schedule` reaps it. -/
theorem murderChild_finds_boot_task : ∃ s k₀ un n,
    Run (Guarded Family.Safe Family.step) (Family.boot Kernel.zeroed 1 0x1000)
      [.ckprocA 2 0x2000 0x3000, .ckprocA 3 0x4000 0x5000, .timeSlice, .procExit] s ∧
    k₀ = s.kernel.entry 3 .running un n ∧ s.kernel.deadTasks = some 2 ∧ s.MurderOk k₀ 2 := by
  have hlast : (follow (fun s op => s.Safe op ∧ TaskOp.Enabled s.kernel op) Family.exec
      (Family.boot Kernel.zeroed 1 0x1000)
      [.ckprocA 2 0x2000 0x3000, .ckprocA 3 0x4000 0x5000, .timeSlice, .procExit]).map (fun s =>
        decide (s.kernel.currentTaskTCB = some 3 ∧ s.kernel.state 3 = .running ∧
          s.kernel.postponeTaskSwitchesCounter = 0 ∧ s.kernel.taskSwitchesPostponedFlag = false ∧
          s.kernel.deadTasks = some 2)) = some true := by
    decide +kernel
  obtain ⟨s, hs, hfields⟩ := Option.map_eq_some_iff.mp hlast
  obtain ⟨hc, hrun, hp, hf, hd⟩ := of_decide_eq_true hfields
  have hR : Run (Guarded Family.Safe Family.step) (Family.boot Kernel.zeroed 1 0x1000)
      [.ckprocA 2 0x2000 0x3000, .ckprocA 3 0x4000 0x5000, .timeSlice, .procExit] s :=
    run_of_follow (fun _ _ _ h h' => ⟨h.1, h.2, h'⟩) hs
  obtain ⟨un, n, he⟩ : ∃ un n, TaskOp.exec s.kernel .timeSlice =
      ((s.kernel.entry 3 .running un n).schedule).map Kernel.resume :=
    exec_enters hp hf hc hrun rfl
  have hreach : ReapReaches (s.kernel.entry 3 .running un n).deadTasks
      (s.kernel.entry 3 .running un n) 2 (s.kernel.entry 3 .running un n) := by
    rw [show (s.kernel.entry 3 .running un n).deadTasks = some 2 from hd]
    exact ReapReaches.here 2 _
  exact ⟨s, _, un, n, hR, rfl, hd, murderChild_finds_mother Kernel.zeroed 1 0x1000 hR
    ⟨3, .running, un, n, hc, rfl, rfl, he⟩ hreach⟩

end UnnamedOS.Proc
