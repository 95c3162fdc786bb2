import UnnamedOS.Proc.Family

/-!
# Waiting for a child to die

A mother in `STATE_WAITING_FOR_DEATH` is woken by `schedule`, which buries the child at once when
nobody is ready, or by `murderChild` in the next call of `reap`. `answered` counts the waits that
the death of a task has ended.
-/

namespace UnnamedOS.Proc

open UnnamedOS.Lib

structure Mourning where
  kernel : Kernel
  /-- How many waits the death of the task has ended, since the task was created. -/
  answered : Tid → Nat

/-- The task that the step creates. -/
def TaskOp.creates : TaskOp → Option Tid
  | ckprocA M _ _ => some M
  | blockTask _ | unblockTask _ | timeSlice | procExit | leaveIdle => none

/-- The waits that the death of `t` ends in a step: `murderChild` wakes the mother of the dead
task that `reap` comes to, and `schedule` hands the processor of a task it buries to the mother. -/
def answers (k k' : Kernel) (op : TaskOp) (t : Tid) : Nat :=
  (if op.enters ≠ none ∧ k.deadTasks = some t ∧ k.reapWakes ≠ none then 1 else 0) +
    if op.enters = some .dead ∧ k.currentTaskTCB = some t ∧ k'.state t = .buried then 1 else 0

namespace Mourning

def boot (junk : Kernel) (t : Tid) (cr3 : UInt64) : Mourning where
  kernel := junk.initializeMultitasking t cr3
  answered _ := 0

def after (s : Mourning) (op : TaskOp) (k : Kernel) : Mourning where
  kernel := k
  answered t := (if op.creates = some t then 0 else s.answered t) + answers s.kernel k op t

def exec (s : Mourning) (op : TaskOp) : Except Halt Mourning :=
  match op.exec s.kernel with
  | .error e => .error e
  | .ok k => .ok (s.after op k)

def step (s : Mourning) (op : TaskOp) (s' : Mourning) : Prop :=
  op.Enabled s.kernel ∧ s.exec op = .ok s'

def Clean (s : Mourning) (op : TaskOp) : Prop := op.CleanWake s.kernel

instance (s : Mourning) (op : TaskOp) : Decidable (s.Clean op) :=
  inferInstanceAs (Decidable (op.CleanWake s.kernel))

/-- A task waits for a death only while it has a child that is not buried. -/
def WaitSafe (s : Mourning) (op : TaskOp) : Prop :=
  op.enters = some .waitingForDeath → ∀ c ∈ s.kernel.currentTaskTCB,
    ∃ x ∈ s.kernel.children c, s.kernel.state x ≠ .buried

instance (s : Mourning) (op : TaskOp) : Decidable (s.WaitSafe op) :=
  inferInstanceAs (Decidable (_ → ∀ c ∈ s.kernel.currentTaskTCB, ∃ x ∈ s.kernel.children c, _))

/-- No death has ended two waits, and no mother waits whose children have all been reaped. -/
def AllAnswered (s : Mourning) : Prop :=
  (∀ t, s.answered t ≤ 1) ∧
    ∀ p ∈ s.kernel.allocated, s.kernel.state p = .waitingForDeath → s.kernel.children p ≠ []

end Mourning

variable {k k' : Kernel} {c d p t x : Tid} {op : TaskOp} {ops : List TaskOp} {s s' : Mourning}
  {st : TaskState}

structure MourningInv (s : Mourning) : Prop where
  passing : Passing s.kernel
  siblings : Siblings s.kernel
  dead : ∀ p ∈ s.kernel.allocated, ∀ x ∈ s.kernel.children p, s.kernel.Gone x →
    s.kernel.deadTasks = some x
  wait : ∀ p ∈ s.kernel.allocated, s.kernel.state p = .waitingForDeath →
    ∃ x ∈ s.kernel.children p, s.kernel.state x ≠ .buried
  alive : ∀ t ∈ s.kernel.allocated, ¬ s.kernel.Gone t → s.answered t = 0
  corpse : ∀ d, s.kernel.deadTasks = some d → s.kernel.state d ≠ .buried → s.answered d = 0
  once : ∀ t, s.answered t ≤ 1

theorem answers_of_not_enters (hop : op.enters = none) : answers k k' op t = 0 := by
  simp [answers, hop]

/-- A state that changes only to ready or running does not die. -/
theorem gone_of_revived (h : k'.state t = k.state t ∨ k'.state t = .ready ∨ k'.state t = .running)
    (hg : k'.Gone t) : k.Gone t := by
  rcases h with h | h | h
  · exact hg.congr h.symm
  · exact absurd h hg.not_ready
  · exact absurd h hg.not_running

namespace MourningInv

theorem create (hi : MourningInv s) (hp : Passing k') {M cur : Tid} {M2 cr3 : UInt64}
    (hC : Born s.kernel k' M cur) : MourningInv (s.after (.ckprocA M M2 cr3) k') := by
  have hcur : cur ∈ s.kernel.allocated := (hi.passing.running cur hC.current).1
  have hk : (s.after (.ckprocA M M2 cr3) k').kernel = k' := rfl
  have hans : ∀ t, (s.after (.ckprocA M M2 cr3) k').answered t =
      if t = M then 0 else s.answered t := by
    intro t
    change (if some M = some t then 0 else s.answered t) + answers _ _ _ t = _
    rw [answers_of_not_enters rfl, Nat.add_zero]
    simp only [Option.some.injEq, eq_comm]
  have hold : ∀ t ∈ k'.allocated, t ≠ M → t ∈ s.kernel.allocated := by
    intro t ht htM
    rw [hC.allocated] at ht
    exact (List.mem_cons.mp ht).resolve_left htM
  have hM : k'.state M = .ready := by rw [hC.state, Function.update_self]
  refine ⟨hp, hC.siblings hcur hi.siblings, ?_, ?_, ?_, ?_, ?_⟩
  · rw [hk, hC.deadTasks]
    intro p hpa x hx hg
    rcases (hC.mem_children hcur hpa).mp hx with ⟨-, rfl⟩ | ⟨hpo, hx⟩
    · exact absurd hM hg.not_ready
    · have hxM := hC.ne (hi.siblings.child p hpo x hx).1
      exact hi.dead p hpo x hx (hg.congr (hC.state_of_ne hxM).symm)
  · rw [hk]
    intro p hpa hw
    have hpM : p ≠ M := by
      rintro rfl
      rw [hM] at hw
      cases hw
    rw [hC.state_of_ne hpM] at hw
    obtain ⟨x, hx, hxb⟩ := hi.wait p (hold p hpa hpM) hw
    refine ⟨x, (hC.mem_children hcur hpa).mpr (Or.inr ⟨hold p hpa hpM, hx⟩), ?_⟩
    rwa [hC.state_of_ne (hC.ne (hi.siblings.child p (hold p hpa hpM) x hx).1)]
  · rw [hk]
    intro t ht hg
    rw [hans]
    by_cases htM : t = M
    · exact if_pos htM
    · rw [if_neg htM]
      exact hi.alive t (hold t ht htM) (fun hg' => hg (hg'.congr (hC.state_of_ne htM)))
  · rw [hk, hC.deadTasks]
    intro d hd hb
    have hdM : d ≠ M := hC.ne (hi.passing.corpse d hd).1
    rw [hans, if_neg hdM]
    rw [hC.state_of_ne hdM] at hb
    exact hi.corpse d hd hb
  · intro t
    rw [hans]
    split
    · exact Nat.zero_le 1
    · exact hi.once t

theorem other (hi : MourningInv s) (hp : Passing k') (hop : op.enters = none)
    (hnew : op.creates = none) (hT : Kernel.SameTables s.kernel k')
    (hg : ∀ t, s.kernel.Gone t → k'.Gone t)
    (hst : ∀ t, k'.state t = s.kernel.state t ∨ k'.state t = .ready ∨ k'.state t = .running) :
    MourningInv (s.after op k') := by
  have hk : (s.after op k').kernel = k' := rfl
  have hans : ∀ t, (s.after op k').answered t = s.answered t := by
    intro t
    change (if op.creates = some t then 0 else s.answered t) + answers _ _ _ t = _
    rw [answers_of_not_enters hop, hnew, if_neg (by simp), Nat.add_zero]
  refine ⟨hp, hT.siblings hi.siblings, ?_, ?_, ?_, ?_, ?_⟩
  · rw [hk, hT.allocated, hT.children, hT.deadTasks]
    intro p hpa x hx hgx
    exact hi.dead p hpa x hx (gone_of_revived (hst x) hgx)
  · rw [hk, hT.allocated, hT.children]
    intro p hpa hw
    have hwo : s.kernel.state p = .waitingForDeath := by
      rcases hst p with h | h | h
      · rwa [h] at hw
      · rw [h] at hw; cases hw
      · rw [h] at hw; cases hw
    obtain ⟨x, hx, hxb⟩ := hi.wait p hpa hwo
    refine ⟨x, hx, ?_⟩
    rcases hst x with h | h | h
    · rwa [h]
    · simp [h]
    · simp [h]
  · rw [hk, hT.allocated]
    intro t ht hgt
    rw [hans]
    exact hi.alive t ht (fun hgo => hgt (hg t hgo))
  · rw [hk, hT.deadTasks]
    intro d hd hb
    rw [hans]
    apply hi.corpse d hd
    intro hbo
    rcases hst d with h | h | h
    · exact hb (h.trans hbo)
    · exact (hg d (Or.inr hbo)).not_ready h
    · exact (hg d (Or.inr hbo)).not_running h
  · intro t
    rw [hans]
    exact hi.once t

/-- The waits that a call of `schedule` by `c` ends. -/
theorem answered_pass (hc : s.kernel.currentTaskTCB = some c) (hop : op.enters = some st) :
    (s.after op k').answered t = s.answered t +
      ((if s.kernel.deadTasks = some t ∧ s.kernel.reapWakes ≠ none then 1 else 0) +
        if st = .dead ∧ c = t ∧ k'.state t = .buried then 1 else 0) := by
  have hnew : op.creates = none := by
    cases op with
    | ckprocA M M2 cr3 => cases hop
    | _ => rfl
  change (if op.creates = some t then 0 else s.answered t) + answers _ _ _ t = _
  rw [hnew, if_neg (by simp), answers, hop, hc]
  simp

/-- Where a mother waits after a call of `schedule`, a child is left to die. -/
theorem wait_pass (hi : MourningInv s) (hc : s.kernel.currentTaskTCB = some c)
    (hP : Passed s.kernel k' c st) (hb : st ≠ .ready ∧ st ≠ .buried)
    (hsafe : st = .waitingForDeath → ∃ x ∈ s.kernel.children c, s.kernel.state x ≠ .buried)
    (hpa : p ∈ s.kernel.allocated) (hw : k'.state p = .waitingForDeath) :
    ∃ x ∈ k'.children p, k'.state x ≠ .buried := by
  obtain ⟨hca, hrun⟩ := hi.passing.running c hc
  -- the child that is left is not on the list of `reap`
  have hleft : ∃ x ∈ s.kernel.children p, s.kernel.state x ≠ .buried ∧
      s.kernel.deadTasks ≠ some x := by
    by_cases hpc : p = c
    · subst hpc
      have hst : st = .waitingForDeath := by
        rcases hP.own with ho | ⟨-, ho⟩ | ⟨-, ho⟩
        · exact ho.symm.trans hw
        · rw [ho] at hw; cases hw
        · rw [ho] at hw; cases hw
      obtain ⟨x, hx, hxb⟩ := hsafe hst
      exact ⟨x, hx, hxb, fun hd => hxb (hP.alone hst x hd (hi.siblings.child p hpa x hx).2)⟩
    · have hwo : s.kernel.state p = .waitingForDeath := by
        rcases hP.other p hpc with ho | ho | ho
        · exact ho.symm.trans hw
        · rw [ho] at hw; cases hw
        · rw [ho] at hw; cases hw
      obtain ⟨x, hx, hxb⟩ := hi.wait p hpa hwo
      refine ⟨x, hx, hxb, fun hd => ?_⟩
      have hxp := (hi.siblings.child p hpa x hx).2
      exact hP.woken p (reapWakes_some.mpr ⟨x, hd, hxp, hwo, hxb⟩) hw
  obtain ⟨x, hx, hxb, hxd⟩ := hleft
  refine ⟨x, (hP.mem_children hi.siblings hpa).mpr ⟨hx, hxd⟩, ?_⟩
  intro hxb'
  by_cases hxc : x = c
  · subst hxc
    rcases hP.own with ho | ⟨-, ho⟩ | ⟨hst, -⟩
    · exact hb.2 (ho.symm.trans hxb')
    · rw [ho] at hxb'; cases hxb'
    · -- the processor went to the mother, who does not wait any more
      obtain ⟨m, hm, hmr⟩ := hP.handed hst hxb'
      obtain rfl := Option.some.inj (hm.symm.trans (hi.siblings.child p hpa x hx).2)
      rw [hmr] at hw
      cases hw
  · rcases hP.other x hxc with ho | ho | ho
    · exact hxb (ho.symm.trans hxb')
    · rw [ho] at hxb'; cases hxb'
    · rw [ho] at hxb'; cases hxb'

theorem pass (hi : MourningInv s) (hp : Passing k') (hc : s.kernel.currentTaskTCB = some c)
    (hop : op.enters = some st) (hP : Passed s.kernel k' c st) (hb : st ≠ .ready ∧ st ≠ .buried)
    (hsafe : st = .waitingForDeath → ∃ x ∈ s.kernel.children c, s.kernel.state x ≠ .buried) :
    MourningInv (s.after op k') := by
  have hk : (s.after op k').kernel = k' := rfl
  obtain ⟨hca, hrun⟩ := hi.passing.running c hc
  have hcg : ¬ s.kernel.Gone c := fun hg => hg.not_running hrun
  have hcd : s.kernel.deadTasks ≠ some c := hi.passing.corpse_ne hc
  refine ⟨hp, hP.siblings hi.siblings, ?_, ?_, ?_, ?_, ?_⟩
  · rw [hk, hP.deadTasks]
    intro p hpa x hx hg
    obtain ⟨hx, hxd⟩ := (hP.mem_children hi.siblings (hP.sub hpa)).mp hx
    by_cases hxc : x = c
    · subst hxc
      rcases hP.own with ho | ⟨-, ho⟩ | ⟨hst, -⟩
      · rcases hg with hg | hg
        · exact if_pos (ho.symm.trans hg)
        · exact absurd (ho.symm.trans hg) hb.2
      · exact absurd ho hg.not_ready
      · exact if_pos hst
    · exact absurd (hi.dead p (hP.sub hpa) x hx (gone_of_revived (hP.other x hxc) hg)) hxd
  · rw [hk]
    intro p hpa hw
    exact hi.wait_pass hc hP hb hsafe (hP.sub hpa) hw
  · rw [hk]
    intro t ht hg
    have hgo : ¬ s.kernel.Gone t := fun hgo => hg (hP.gone t hgo)
    have htd : s.kernel.deadTasks ≠ some t := fun hd => hgo (hi.passing.corpse t hd).2.1
    rw [answered_pass hc hop, hi.alive t (hP.sub ht) hgo, if_neg (fun h => htd h.1),
      if_neg (fun h => hg (Or.inr h.2.2))]
  · rw [hk, hP.deadTasks]
    intro d hd hbd
    split at hd
    · obtain rfl := Option.some.inj hd
      rw [answered_pass hc hop, hi.alive c hca hcg, if_neg (fun h => hcd h.1),
        if_neg (fun h => hbd h.2.2)]
    · cases hd
  · intro t
    rw [answered_pass hc hop]
    by_cases htc : c = t
    · subst htc
      rw [hi.alive c hca hcg, if_neg (fun h => hcd h.1)]
      split <;> omega
    · have hno : ¬ (st = .dead ∧ c = t ∧ k'.state t = .buried) := fun h => htc h.2.1
      rw [if_neg hno]
      by_cases hd : s.kernel.deadTasks = some t ∧ s.kernel.reapWakes ≠ none
      · obtain ⟨p, hw⟩ := Option.ne_none_iff_exists'.mp hd.2
        obtain ⟨d, hd', -, -, hdb⟩ := reapWakes_some.mp hw
        obtain rfl := Option.some.inj (hd.1.symm.trans hd')
        have hzero := hi.corpse t hd.1 hdb
        rw [if_pos hd]
        omega
      · rw [if_neg hd]
        exact hi.once t

end MourningInv

/-- The states in which a task enters `schedule`. -/
theorem enters_state (hen : op.Enabled k) (hop : op.enters = some st) :
    st ≠ .ready ∧ st ≠ .buried := by
  cases op with
  | blockTask reason =>
      obtain rfl := Option.some.inj hop
      constructor <;> rintro rfl <;> exact hen
  | timeSlice => obtain rfl := Option.some.inj hop; simp
  | procExit => obtain rfl := Option.some.inj hop; simp
  | ckprocA M M2 cr3 => cases hop
  | unblockTask t => cases hop
  | leaveIdle => cases hop

theorem mourning_exec (h : s.step op s') : ∃ k', TaskOp.step s.kernel op k' ∧ s' = s.after op k' := by
  obtain ⟨hen, hex⟩ := h
  rw [Mourning.exec] at hex
  split at hex
  · cases hex
  · rename_i k' hk'
    exact ⟨k', ⟨hen, hk'⟩, (Except.ok.inj hex).symm⟩

theorem mourning_step (hi : MourningInv s) (hclean : s.Clean op) (hsafe : s.WaitSafe op)
    (hs : s.step op s') : MourningInv s' := by
  obtain ⟨k', hstep, rfl⟩ := mourning_exec hs
  have hp := passing_step hi.passing hclean hstep
  cases step_kind hi.passing hclean hstep with
  | create hC => exact hi.create hp hC
  | pass hc hop hP =>
      refine hi.pass hp hc hop hP (enters_state hs.1 hop) ?_
      rintro rfl
      exact hsafe hop _ hc
  | other hop hnew hT hg hst =>
      refine hi.other hp hop ?_ hT hg hst
      cases op with
      | ckprocA M M2 cr3 => exact absurd rfl (hnew M M2 cr3)
      | _ => rfl

/-- A wait without a child that is not buried has no answer to come. -/
theorem wait_unanswered (hi : MourningInv s) (hclean : s.Clean op) (hbad : ¬ s.WaitSafe op)
    (hs : s.step op s') : ¬ s'.AllAnswered := by
  obtain ⟨k', hstep, rfl⟩ := mourning_exec hs
  unfold Mourning.WaitSafe at hbad
  push Not at hbad
  obtain ⟨hop, c, hc, hburied⟩ := hbad
  have hc' : s.kernel.currentTaskTCB = some c := hc
  obtain ⟨hca, hrun⟩ := hi.passing.running c hc'
  cases step_kind hi.passing hclean hstep with
  | create hC => cases hop
  | other hop' hnew hT hg hst => rw [hop'] at hop; cases hop
  | @pass _ c₁ st hc₁ hop₁ hP =>
      obtain rfl := Option.some.inj (hc'.symm.trans hc₁)
      obtain rfl := Option.some.inj (hop.symm.trans hop₁)
      have hst : k'.state c = .waitingForDeath := by
        rcases hP.own with ho | ⟨ho, -⟩ | ⟨ho, -⟩
        · exact ho
        · cases ho
        · cases ho
      have hnone : k'.children c = [] := by
        apply List.eq_nil_iff_forall_not_mem.mpr
        intro x hx
        obtain ⟨hx, hxd⟩ := (hP.mem_children hi.siblings hca).mp hx
        exact hxd (hi.dead c hca x hx (Or.inr (hburied x hx)))
      intro hall
      exact hall.2 c (hP.keep hca (hi.passing.corpse_ne hc')) hst hnone

theorem boot_mourningInv (junk : Kernel) (t : Tid) (cr3 : UInt64) :
    MourningInv (Mourning.boot junk t cr3) := by
  have hS := boot_siblings junk t cr3
  have hch : ∀ p ∈ (junk.initializeMultitasking t cr3).allocated,
      (junk.initializeMultitasking t cr3).state p = .running ∧
        (junk.initializeMultitasking t cr3).children p = [] := by
    intro p hp
    obtain rfl := List.mem_singleton.mp hp
    exact ⟨Function.update_self p _ _, Function.update_self p _ _⟩
  refine ⟨boot_passing junk t cr3, hS, fun p hp x hx => ?_, fun p hp hw => ?_,
    fun _ _ _ => rfl, fun d hd => (by cases hd), fun _ => Nat.zero_le 1⟩
  · have hnil : (Mourning.boot junk t cr3).kernel.children p = [] := (hch p hp).2
    rw [hnil] at hx
    cases hx
  · have hrun : (Mourning.boot junk t cr3).kernel.state p = .running := (hch p hp).1
    rw [hrun] at hw
    cases hw

theorem allAnswered_of_inv (hi : MourningInv s) : s.AllAnswered := by
  refine ⟨hi.once, fun p hp hw hnone => ?_⟩
  obtain ⟨x, hx, -⟩ := hi.wait p hp hw
  rw [hnone] at hx
  cases hx

theorem mourningStep_deterministic (s : Mourning) (op : TaskOp) (s₁ s₂ : Mourning)
    (h₁ : s.step op s₁) (h₂ : s.step op s₂) : s₁ = s₂ :=
  Except.ok.inj (h₁.2.symm.trans h₂.2)

/-- The only child dies while its mother sleeps and is reaped before she waits. -/
def lateWait : List TaskOp :=
  [.ckprocA 2 0x2000 0x3000, .blockTask .waiting, .procExit, .unblockTask 1, .leaveIdle,
    .timeSlice, .blockTask .waitingForDeath]

end UnnamedOS.Proc
