import UnnamedOS.Proc.ReadyList

/-!
# One call of the scheduler

What `schedule` does to the ready list, to the reaper's list and to the running
task, from the inversion lemmas of its parts: `reap` may wake a parent, `pickNext`
pops a task and may append the running one. `SafeSchedule` says
that it does not pop the only ready task away from a running one and wakes no parent
with a stale `next`.
-/

namespace UnnamedOS.Proc

open UnnamedOS.Lib

def Kernel.Gone (k : Kernel) (t : Tid) : Prop := k.state t = .dead ∨ k.state t = .buried

instance (k : Kernel) (t : Tid) : Decidable (k.Gone t) := inferInstanceAs (Decidable (_ ∨ _))

/-- What the steps keep besides the ready list itself. -/
structure Tables (k : Kernel) : Prop where
  postpone : k.postponeTaskSwitchesCounter = 0
  flag : k.taskSwitchesPostponedFlag = false
  parents : ∀ t ∈ k.allocated, ∀ p, k.parent t = some p → p ∈ k.allocated ∨ k.Gone p
  corpse : ∀ d, k.deadTasks = some d → d ∈ k.allocated ∧ k.Gone d ∧ k.next d = none

structure TaskInv (k : Kernel) : Prop extends Tables k where
  running : ∀ c, k.currentTaskTCB = some c → c ∈ k.allocated ∧ k.state c = .running
  idle : k.currentTaskTCB = none → ∀ c, k.idleTask = some c → k.state c ≠ .running

variable {k k' : Kernel} {r : List Tid} {q : Option Tid} {c p t : Tid}

theorem Kernel.Gone.not_running (h : k.Gone t) : k.state t ≠ .running := by
  rcases h with h | h <;> simp [h]

theorem Kernel.Gone.not_ready (h : k.Gone t) : k.state t ≠ .ready := by
  rcases h with h | h <;> simp [h]

theorem Kernel.Gone.congr (h : k.Gone t) (hs : k'.state t = k.state t) : k'.Gone t := by
  rwa [Kernel.Gone, hs]

/-- A step that leaves the dead alone keeps the tables. -/
theorem Tables.frame (h : Tables k) (hp : k'.postponeTaskSwitchesCounter = 0)
    (hf : k'.taskSwitchesPostponedFlag = false) (hpar : k'.parent = k.parent)
    (hd : k'.deadTasks = k.deadTasks) (ha : k'.allocated = k.allocated)
    (hs : ∀ t, k.Gone t → k'.Gone t ∧ k'.next t = k.next t) : Tables k' := by
  have hgone : ∀ t, k.Gone t → k'.Gone t := fun t ht => (hs t ht).1
  refine ⟨hp, hf, ?_, ?_⟩
  · rw [ha, hpar]
    intro t ht p htp
    exact (h.parents t ht p htp).imp id (hgone p)
  · rw [hd, ha]
    intro d hdd
    obtain ⟨hal, hg, hn⟩ := h.corpse d hdd
    exact ⟨hal, hgone d hg, (hs d hg).2.trans hn⟩

/-- The end of the ready list is ready, so `reap` never meets it. -/
theorem Tables.oneDead {d : Tid} (h : Tables k) (hr : QueueSeg k r q)
    (hd : k.deadTasks = some d) : Kernel.OneDead k d := by
  obtain ⟨-, hg, hn⟩ := h.corpse d hd
  refine ⟨hn, ?_⟩
  intro hf hl
  have hne : r ≠ [] := fun he => hf (hr.first_none.mpr he)
  obtain ⟨s, rfl⟩ := hr.exists_last hl hne
  exact hr.not_mem hg.not_ready (by simp)

theorem Tables.unblockTask (h : Tables k) (hr : QueueSeg k r q) (hg : ¬ k.Gone t)
    (hk : k.unblockTask t = .ok k') : Tables k' := by
  obtain ⟨-, -, ⟨-, rfl⟩ | ⟨f, l, hf, hl, rfl⟩⟩ := Kernel.unblockTask_ok hk
  · refine h.frame h.postpone h.flag rfl rfl rfl ?_
    intro x hx
    have hne : x ≠ t := fun he => hg (he ▸ hx)
    exact ⟨hx.congr (Function.update_of_ne hne _ _), Function.update_of_ne hne _ _⟩
  · have hrne : r ≠ [] := fun he => by simp [hr.first_none.mpr he] at hf
    obtain ⟨s, rfl⟩ := hr.exists_last hl hrne
    refine h.frame h.postpone h.flag rfl rfl rfl ?_
    intro x hx
    have hne : x ≠ t := fun he => hg (he ▸ hx)
    have hxl : x ≠ l := fun he => hr.not_mem hx.not_ready (by simp [he])
    exact ⟨hx.congr (Function.update_of_ne hne _ _), Function.update_of_ne hxl _ _⟩

/-- Leaving the dead task out of the tables. -/
theorem Tables.bury {d : Tid} {ch : Tid → List Tid} {pg : List UInt64} {al : List Tid}
    (h : Tables k) (hg : k.Gone d) (hal : al = k.allocated ∨ al = k.allocated.erase d) :
    Tables (k.buryAll ch pg al) := by
  have hsub : ∀ t, t ∈ al → t ∈ k.allocated := by
    rintro t ht
    rcases hal with rfl | rfl
    · exact ht
    · exact List.mem_of_mem_erase ht
  refine ⟨h.postpone, h.flag, ?_, by simp [Kernel.buryAll]⟩
  intro t ht p htp
  change p ∈ al ∨ k.Gone p
  rcases h.parents t (hsub t ht) p htp with hp | hp
  · by_cases hpd : p = d
    · exact Or.inr (hpd ▸ hg)
    · rcases hal with rfl | rfl
      · exact Or.inl hp
      · exact Or.inl ((List.mem_erase_of_ne hpd).mpr hp)
  · exact Or.inr hp

theorem ReadySeg.bury {d : Tid} {ch : Tid → List Tid} {pg : List UInt64} {al : List Tid}
    (h : ReadySeg k r q) (hg : k.Gone d) (hal : al = k.allocated ∨ al = k.allocated.erase d) :
    ReadySeg (k.buryAll ch pg al) r q := by
  refine ReadySeg.of_mem h.seg h.nodup ?_ h.last h.empty
  intro t
  rw [h.mem t]
  change _ ↔ t ∈ al ∧ k.state t = .ready
  rcases hal with rfl | rfl
  · rfl
  · constructor
    · rintro ⟨ht, hs⟩
      have hne : t ≠ d := fun he => hg.not_ready (he ▸ hs)
      exact ⟨(List.mem_erase_of_ne hne).mpr ht, hs⟩
    · rintro ⟨ht, hs⟩
      exact ⟨List.mem_of_mem_erase ht, hs⟩

/-- What `reap` leaves to the rest of `schedule`. -/
structure Reaped (k k' : Kernel) (r' : List Tid) (q' : Option Tid) : Prop extends Tables k' where
  ready : ReadySeg k' r' q'
  empty : k'.deadTasks = none
  current : k'.currentTaskTCB = k.currentTaskTCB
  keep : ∀ t ∈ k.allocated, k.deadTasks ≠ some t → t ∈ k'.allocated
  others : ∀ t, k.reapWakes ≠ some t → k'.state t = k.state t

theorem reapWakes_some : k.reapWakes = some p ↔ ∃ d, k.deadTasks = some d ∧
    k.parent d = some p ∧ k.state p = .waitingForDeath ∧ k.state d ≠ .buried := by
  unfold Kernel.reapWakes
  cases hd : k.deadTasks with
  | none => simp
  | some d =>
      cases hp : k.parent d with
      | none => simp [hp]
      | some p' =>
          simp only [Option.some.injEq, ↓existsAndEq, true_and, hp]
          constructor
          · intro h
            split at h
            · rename_i hw
              obtain rfl := Option.some.inj h
              exact ⟨rfl, hw⟩
            · cases h
          · rintro ⟨rfl, hw⟩
            exact if_pos hw

/-- `reap` keeps the ready list or appends the parent it wakes. -/
theorem reap_spec (h : Tables k) (hr : ReadyList k r) (hk : k.reap = .ok k') :
    (k.reapWakes = none ∧ Reaped k k' r none) ∨
    (∃ p, k.reapWakes = some p ∧
      Reaped k k' (r ++ [p]) (if k.firstThread = none then none else k.next p)) := by
  cases hd : k.deadTasks with
  | none =>
      rw [Kernel.reap_none hd, Except.ok.injEq] at hk
      subst hk
      have hw : k.reapWakes = none := by rw [Kernel.reapWakes, hd]
      refine Or.inl ⟨hw, ⟨h.postpone, h.flag, h.parents, by simp⟩,
        (hr.frame rfl rfl rfl rfl rfl), rfl, rfl, fun t ht _ => ht, fun _ _ => rfl⟩
  | some d =>
      obtain ⟨hda, hg, hn⟩ := h.corpse d hd
      have hkeep : ∀ al, (al = k.allocated ∨ al = k.allocated.erase d) →
          ∀ t ∈ k.allocated, some d ≠ some t → t ∈ al := by
        rintro al (rfl | rfl) t ht hne
        · exact ht
        · exact (List.mem_erase_of_ne fun he => hne (congrArg some he.symm)).mpr ht
      obtain ⟨ch, pg, al, hal, ⟨hw, rfl⟩ | ⟨p, k₁, hw, hp, hk₁, rfl⟩⟩ :=
        Kernel.reap_one hd (h.oneDead hr.toQueueSeg hd) hk
      · refine Or.inl ⟨hw, h.bury hg hal, hr.bury hg hal, rfl, rfl, ?_, fun _ _ => rfl⟩
        rw [hd]
        exact hkeep al hal
      · obtain ⟨-, -, -, hwait, -⟩ := reapWakes_some.mp hw
        have hpg : ¬ k.Gone p := by simp [Kernel.Gone, hwait]
        have hpa : p ∈ k.allocated := (h.parents d hda p hp).resolve_right hpg
        have hT := h.unblockTask hr.toQueueSeg hpg hk₁
        have hR := hr.wake hpa hk₁
        have hstate : k₁.allocated = k.allocated ∧ k₁.currentTaskTCB = k.currentTaskTCB ∧
            k₁.state = Function.update k.state p .ready := by
          obtain ⟨-, -, ⟨-, rfl⟩ | ⟨f, l, -, -, rfl⟩⟩ := Kernel.unblockTask_ok hk₁ <;>
            exact ⟨rfl, rfl, rfl⟩
        obtain ⟨hall, hcur, hst⟩ := hstate
        have hdp : d ≠ p := fun he => hpg (he ▸ hg)
        have hg₁ : k₁.Gone d := by
          rwa [Kernel.Gone, hst, Function.update_of_ne hdp]
        have hal₁ : al = k₁.allocated ∨ al = k₁.allocated.erase d := by rwa [hall]
        refine Or.inr ⟨p, hw, hT.bury hg₁ hal₁, hR.bury hg₁ hal₁, rfl, hcur, ?_, ?_⟩
        · rw [hd]
          exact hkeep al hal
        · intro t ht
          have hne : t ≠ p := fun he => ht (he ▸ hw)
          change k₁.state t = k.state t
          rw [hst, Function.update_of_ne hne]

theorem Tables.buryLater (h : Tables k) (hd : k.deadTasks = none) (hc : c ∈ k.allocated) :
    Tables (k.buryLater c) := by
  unfold Kernel.buryLater
  split
  · rename_i hs
    refine ⟨h.postpone, h.flag, h.parents, ?_⟩
    intro d hdc
    obtain rfl : c = d := Option.some.inj hdc
    refine ⟨hc, Or.inl hs, ?_⟩
    exact (Function.update_self c _ _).trans hd
  · exact h

theorem ReadySeg.buryLater (h : ReadySeg k r q) : ReadySeg (k.buryLater c) r q := by
  unfold Kernel.buryLater
  split
  · rename_i hs
    have hc : c ∉ r := h.not_mem (by simp [hs])
    exact ReadySeg.of_mem ((seg_update_of_notMem hc).mpr h.seg) h.nodup h.mem h.last h.empty
  · exact h

theorem buryLater_state (k : Kernel) (c : Tid) : (k.buryLater c).state = k.state := by
  unfold Kernel.buryLater
  split <;> rfl

theorem buryLater_allocated (k : Kernel) (c : Tid) :
    (k.buryLater c).allocated = k.allocated := by
  unfold Kernel.buryLater
  split <;> rfl

theorem buryLater_current (k : Kernel) (c : Tid) :
    (k.buryLater c).currentTaskTCB = k.currentTaskTCB := by
  unfold Kernel.buryLater
  split <;> rfl

/-- The parent of a task that is buried is there to be switched to. -/
theorem Tables.toParent {p : Tid} (h : Tables k) (hca : c ∈ k.allocated) (hp : k.parent c = some p)
    (hdead : k.state c = .dead) (hw : k.state p = .waitingForDeath) :
    p ∈ k.allocated ∧ c ≠ p ∧ Tables (k.setState c .buried) ∧ ¬ (k.setState c .buried).Gone p := by
  have hpg : ¬ k.Gone p := by simp [Kernel.Gone, hw]
  have hcp : c ≠ p := by
    intro he
    rw [he, hw] at hdead
    cases hdead
  refine ⟨(h.parents c hca p hp).resolve_right hpg, hcp, ?_, fun hg =>
    hpg (hg.congr (Function.update_of_ne hcp.symm _ _).symm)⟩
  refine h.frame h.postpone h.flag rfl rfl rfl ?_
  intro x hx
  refine ⟨?_, rfl⟩
  by_cases hxc : x = c
  · rw [hxc]
    exact Or.inr (Function.update_self c _ _)
  · exact hx.congr (Function.update_of_ne hxc _ _)

/-- A switch to a task that is not dead keeps the tables, and the new task runs. -/
theorem TaskInv.handOver (h : Tables k) (hg : ¬ k.Gone t) (ht : t ∈ k.allocated)
    (w : Kernel.SwitchFrame) : TaskInv ((k.handOver t).withFrame w) := by
  have hT : Tables ((k.handOver t).withFrame w) := by
    refine h.frame h.postpone h.flag rfl rfl rfl ?_
    intro x hx
    have hne : x ≠ t := fun he => hg (he ▸ hx)
    exact ⟨hx.congr (Function.update_of_ne hne _ _), rfl⟩
  refine ⟨hT, ?_, fun hn => by cases hn⟩
  intro c hc
  obtain rfl : t = c := Option.some.inj hc
  exact ⟨ht, Function.update_self t _ _⟩

theorem TaskInv.preempt {l : Tid} (h : Tables k) (hg : ¬ k.Gone t) (ht : t ∈ k.allocated)
    (hl : ¬ k.Gone l) (hc : ¬ k.Gone c) (w : Kernel.SwitchFrame) :
    TaskInv ((k.preempt c l t).withFrame w) := by
  have hT : Tables ((k.preempt c l t).withFrame w) := by
    refine h.frame h.postpone h.flag rfl rfl rfl ?_
    intro x hx
    have hxt : x ≠ t := fun he => hg (he ▸ hx)
    have hxl : x ≠ l := fun he => hl (he ▸ hx)
    have hxc : x ≠ c := fun he => hc (he ▸ hx)
    refine ⟨hx.congr ?_, ?_⟩
    · exact (Function.update_of_ne hxt _ _).trans (Function.update_of_ne hxc _ _)
    · exact (Function.update_of_ne hxc _ _).trans (Function.update_of_ne hxl _ _)
  refine ⟨hT, ?_, fun hn => by cases hn⟩
  intro d hd
  obtain rfl : t = d := Option.some.inj hd
  exact ⟨ht, Function.update_self t _ _⟩

/-- The only ready task was popped, and `switch_to_task` appended `c` behind it: the list is
empty while `c` is ready. -/
theorem preempt_loses {l : Tid} (w : Kernel.SwitchFrame) (hf : k.firstThread = none)
    (hc : c ∈ k.allocated) (hct : c ≠ t) : ¬ WellFormedReadyList ((k.preempt c l t).withFrame w) := by
  rintro ⟨r, hr, -, hm, -⟩
  have hfirst : ((k.preempt c l t).withFrame w).firstThread = none := hf
  rw [hfirst, chain_none] at hr
  subst hr
  have hready : ((k.preempt c l t).withFrame w).state c = .ready :=
    (Function.update_of_ne hct _ _).trans (Function.update_self c _ _)
  exact List.not_mem_nil ((hm c).mpr ⟨hc, hready⟩)

/-- `schedule` after `reap`. A blocked or dead `c` leaves the rest of the list as it is; a running
`c` goes behind it, which takes a list that the pop does not empty. -/
theorem pickNext_spec (h : Tables k) (hr : ReadySeg k r q) (hq : r.length ≤ 1 → q = none)
    (hc : k.currentTaskTCB = some c) (hca : c ∈ k.allocated) (hk : k.pickNext c = .ok k') :
    (k.state c ≠ .running ∧ (r ≠ [] → k.state c ≠ .ready) ∧ TaskInv k' ∧
        ∃ r', ReadySeg k' r' q) ∨
      (k.state c = .running ∧ r.length ≠ 1 ∧ TaskInv k' ∧ ∃ r', ReadyList k' r') ∨
      (k.state c = .running ∧ r.length = 1 ∧ ¬ WellFormedReadyList k') := by
  rcases Kernel.pickNext_ok hk with ⟨t, hf, hsw⟩ | ⟨hf, hrun, rfl⟩ |
    ⟨hf, hdead, p, hp, hw, hsw⟩ | ⟨hf, hrun, hrdy, rfl⟩
  · -- a task is popped
    cases r with
    | nil => simp [hr.first_none.mpr rfl] at hf
    | cons a r =>
        have hat : a = t := by
          rw [(seg_cons.mp hr.seg).1] at hf
          exact Option.some.inj hf
        subst hat
        obtain ⟨ha, has⟩ := (hr.mem a).mp List.mem_cons_self
        have hag : ¬ k.Gone a := fun hg => hg.not_ready has
        have hT : Tables { k with firstThread := k.next a } := ⟨h.postpone, h.flag, h.parents, h.corpse⟩
        obtain ⟨hrdy, slot, word, ⟨hrun, rfl⟩ | ⟨hrun, l, hl, rfl⟩⟩ :=
          Kernel.switchToTaskWrapper_ok (c := c) (by exact h.postpone) (by exact hc) hsw
        · refine Or.inl ⟨hrun, fun _ => hrdy, TaskInv.handOver hT hag ha _, r, ?_⟩
          have hR := hr.handOver (fun he => hq (by simp [he]))
          exact hR.frame rfl rfl rfl rfl rfl
        · have hcr : ¬ k.Gone c := fun hg => hg.not_running hrun
          refine Or.inr ?_
          by_cases hrn : r = []
          · subst hrn
            obtain rfl := hq (by simp)
            have hca' : c ≠ a := fun he => by
              have hrun' : k.state c = .running := hrun
              rw [he, has] at hrun'
              cases hrun'
            refine Or.inr ⟨hrun, rfl, preempt_loses _ ?_ hca hca'⟩
            exact (seg_cons.mp hr.seg).2
          · obtain ⟨s, hs⟩ := hr.exists_last hl (by simp)
            have hlm : l ∈ a :: r := by rw [hs]; simp
            have hlg : ¬ k.Gone l := fun hg => hg.not_ready ((hr.mem l).mp hlm).2
            have hlen : (a :: r).length ≠ 1 := by simpa using hrn
            refine Or.inl ⟨hrun, hlen, TaskInv.preempt hT hag ha hlg hcr _, r ++ [c], ?_⟩
            have hR := hr.preempt hrn hl hca hrun
            exact hR.frame rfl rfl rfl rfl rfl
  · -- nothing else is ready
    obtain rfl := hr.first_none.mp hf
    obtain rfl := hr.empty rfl
    refine Or.inr (Or.inl ⟨hrun, by simp, ⟨h, ?_, ?_⟩, [], hr⟩)
    · intro d hd
      obtain rfl : c = d := Option.some.inj (hc.symm.trans hd)
      exact ⟨hca, hrun⟩
    · intro hn
      rw [hc] at hn
      cases hn
  · -- `c` is dead, and its parent waits for that
    obtain rfl := hr.first_none.mp hf
    obtain ⟨hpa, hcp, hT, hpg'⟩ := h.toParent hca hp hdead hw
    have hcb : (k.setState c .buried).state c = .buried := Function.update_self c _ _
    obtain ⟨-, slot, word, ⟨-, rfl⟩ | ⟨hrun, -⟩⟩ :=
      Kernel.switchToTaskWrapper_ok (c := c) (by exact h.postpone) (by exact hc) hsw
    · refine Or.inl ⟨by simp [hdead], fun hne => absurd rfl hne, TaskInv.handOver hT hpg' hpa _, [], ?_⟩
      refine ReadySeg.of_mem hr.seg List.nodup_nil ?_ (fun hne => absurd rfl hne) hr.empty
      intro x
      have hm := hr.mem x
      by_cases hxp : x = p
      · simp [Kernel.withFrame, Kernel.handOver, hxp]
      · by_cases hxc : x = c
        · simp [Kernel.withFrame, Kernel.handOver, Kernel.setState, hxc, hcp]
        · simpa [Kernel.withFrame, Kernel.handOver, Kernel.setState, hxp, hxc] using hm
    · rw [hcb] at hrun
      cases hrun
  · -- the processor goes idle
    obtain rfl := hr.first_none.mp hf
    have hT : Tables (k.goIdle c) := ⟨h.postpone, h.flag, h.parents, h.corpse⟩
    refine Or.inl ⟨hrun, fun _ => hrdy, ⟨hT, fun d hd => (by cases hd), ?_⟩, [], ?_⟩
    · intro _ d hd
      obtain rfl : c = d := Option.some.inj hd
      exact hrun
    · exact hr.frame rfl rfl rfl rfl rfl

theorem ReadySeg.next_first (h : ReadyList k r) (hf : k.firstThread = some t) :
    k.next t = none ↔ r.length = 1 := by
  cases r with
  | nil => simp [h.first_none.mpr rfl] at hf
  | cons a r =>
      obtain ⟨ha, hs⟩ := seg_cons.mp h.seg
      obtain rfl : t = a := Option.some.inj (hf.symm.trans ha)
      rw [List.length_cons, Nat.add_eq_right, List.length_eq_zero_iff]
      constructor
      · intro hn
        rw [hn] at hs
        exact chain_none.mp hs
      · rintro rfl
        exact hs

/-- `schedule` entered by `c` keeps the ready list. A running `c` needs two ready tasks or
none, counting the parent that `reap` wakes. For any other `c` the woken parent must not bring
a stale pointer behind other tasks. -/
def Kernel.SafeSchedule (k : Kernel) (c : Tid) : Prop :=
  if k.state c = .running then
    match k.firstThread with
    | none => k.reapWakes = none
    | some t => k.next t = none → k.reapWakes ≠ none
  else ∀ p, k.reapWakes = some p → k.firstThread = none ∨ k.next p = none

/-- The tables and the ready list are in order. -/
def Kept (k : Kernel) : Prop := TaskInv k ∧ ∃ r, ReadyList k r

/-- The outcome of a call of `schedule`: the lists are kept exactly if the call is safe. -/
def Outcome (safe : Prop) (k' : Kernel) : Prop :=
  (safe ∧ Kept k') ∨ (¬ safe ∧ ¬ WellFormedReadyList k')

/-- How `schedule` picks the next task, from the ready list `r` with `q` behind it: the current task was
blocked, or ran beside a list that is not of one task, or beside one of one task. -/
def Picked (k k' : Kernel) (c : Tid) (r : List Tid) (q : Option Tid) : Prop :=
  (k.state c ≠ .running ∧ (r ≠ [] → k.state c ≠ .ready) ∧ TaskInv k' ∧ ∃ r', ReadySeg k' r' q) ∨
  (k.state c = .running ∧ r.length ≠ 1 ∧ TaskInv k' ∧ ∃ r', ReadyList k' r') ∨
  (k.state c = .running ∧ r.length = 1 ∧ ¬ WellFormedReadyList k')

theorem Reaped.picked {q : Option Tid} (hR : Reaped k k₁ r q) (hq : r.length ≤ 1 → q = none)
    (hc : k.currentTaskTCB = some c) (hca : c ∈ k.allocated) (hdc : k.deadTasks ≠ some c)
    (hpick : (k₁.buryLater c).pickNext c = .ok k') : Picked k₁ k' c r q := by
  have hca₁ := hR.keep c hca hdc
  have hc₁ := (buryLater_current k₁ c).trans (hR.current.trans hc)
  have hp := pickNext_spec (hR.toTables.buryLater hR.empty hca₁) hR.ready.buryLater hq hc₁
    (by rwa [buryLater_allocated]) hpick
  rwa [buryLater_state] at hp

/-- Nobody is woken for the dead. -/
theorem Picked.outcome_alone (hp : Picked k₁ k' c r none) (hr : ReadyList k r)
    (hw : k.reapWakes = none) (hst : k₁.state c = k.state c) : Outcome (k.SafeSchedule c) k' := by
  rcases hp with ⟨hrun, -, hT, hr'⟩ | ⟨hrun, hlen, hT, hr'⟩ | ⟨hrun, hlen, hbad⟩ <;> rw [hst] at hrun
  · refine Or.inl ⟨?_, hT, hr'⟩
    simp [Kernel.SafeSchedule, hrun, hw]
  · refine Or.inl ⟨?_, hT, hr'⟩
    rw [Kernel.SafeSchedule, if_pos hrun]
    cases hf : k.firstThread with
    | none => exact hw
    | some t => exact fun hn => absurd ((hr.next_first hf).mp hn) hlen
  · refine Or.inr ⟨?_, hbad⟩
    rw [Kernel.SafeSchedule, if_pos hrun]
    cases hf : k.firstThread with
    | none => simp [hr.first_none.mp hf] at hlen
    | some t => exact fun hsafe => hsafe ((hr.next_first hf).mpr hlen) hw

theorem safeSchedule_woken (hrun : k.state c ≠ .running) (hw : k.reapWakes = some t) :
    k.SafeSchedule c ↔ k.firstThread = none ∨ k.next t = none := by
  rw [Kernel.SafeSchedule, if_neg hrun]
  constructor
  · exact fun hs => hs t hw
  · intro hs t' ht'
    obtain rfl : t = t' := Option.some.inj (hw.symm.trans ht')
    exact hs

/-- The mother `t` of a dead task is woken, and the list goes on behind her. -/
theorem Picked.outcome_woken
    (hp : Picked k₁ k' c (r ++ [t]) (if k.firstThread = none then none else k.next t))
    (hr : ReadyList k r) (hw : k.reapWakes = some t) (hready : k₁.state t = .ready)
    (hst : k.reapWakes ≠ some c → k₁.state c = k.state c) :
    k.reapWakes ≠ some c ∧ Outcome (k.SafeSchedule c) k' := by
  have htc : t ≠ c := by
    rintro rfl
    rcases hp with ⟨-, hrdy, -⟩ | ⟨hrun, -⟩ | ⟨hrun, -⟩
    · exact hrdy (by simp) hready
    · rw [hready] at hrun
      cases hrun
    · rw [hready] at hrun
      cases hrun
  have hwc : k.reapWakes ≠ some c := fun he => htc (Option.some.inj (hw.symm.trans he))
  refine ⟨hwc, ?_⟩
  rcases hp with ⟨hrun, -, hT, r', hr'⟩ | ⟨hrun, hlen, hT, hr'⟩ | ⟨hrun, hlen, hbad⟩ <;>
    rw [hst hwc] at hrun
  · have hsafe := safeSchedule_woken hrun hw
    by_cases hf : k.firstThread = none
    · rw [if_pos hf] at hr'
      exact Or.inl ⟨hsafe.mpr (Or.inl hf), hT, r', hr'⟩
    · rw [if_neg hf] at hr'
      cases hn : k.next t with
      | none =>
          rw [hn] at hr'
          exact Or.inl ⟨hsafe.mpr (Or.inr hn), hT, r', hr'⟩
      | some x =>
          rw [hn] at hr'
          refine Or.inr ⟨fun hs => ?_, hr'.not_wellFormed⟩
          rcases hsafe.mp hs with h1 | h1
          · exact hf h1
          · rw [hn] at h1
            cases h1
  · refine Or.inl ⟨?_, hT, hr'⟩
    rw [Kernel.SafeSchedule, if_pos hrun]
    cases hf : k.firstThread with
    | none => simp [hr.first_none.mp hf] at hlen
    | some t => simp [hw]
  · refine Or.inr ⟨?_, hbad⟩
    have hf : k.firstThread = none := hr.first_none.mpr (by simpa using hlen)
    simp [Kernel.SafeSchedule, hrun, hf, hw]

theorem schedule_spec (h : Tables k) (hr : ReadyList k r) (hc : k.currentTaskTCB = some c)
    (hca : c ∈ k.allocated) (hdc : k.deadTasks ≠ some c) (hk : k.schedule = .ok k') :
    k.reapWakes ≠ some c ∧ Outcome (k.SafeSchedule c) k' := by
  obtain ⟨-, k₁, hreap, hpick⟩ := Kernel.schedule_ok h.postpone hc hk
  rcases reap_spec h hr hreap with ⟨hw, hR⟩ | ⟨t, hw, hR⟩
  · have hwc : k.reapWakes ≠ some c := by simp [hw]
    exact ⟨hwc, (hR.picked (fun _ => rfl) hc hca hdc hpick).outcome_alone hr hw (hR.others c hwc)⟩
  · have hready : k₁.state t = .ready := ((hR.ready.mem t).mp (by simp)).2
    have hq : (r ++ [t]).length ≤ 1 → (if k.firstThread = none then none else k.next t) = none :=
      fun hl => if_pos (hr.first_none.mpr (by simpa using hl))
    exact (hR.picked hq hc hca hdc hpick).outcome_woken hr hw hready (hR.others c)

theorem Outcome.imp {safe safe' : Prop} (h : Outcome safe k') (hs : safe ↔ safe') :
    Outcome safe' k' := by
  rwa [Outcome, ← hs]

theorem Outcome.resume {safe : Prop} (h : Outcome safe k') : Outcome safe k'.resume := by
  obtain ⟨n, un, he⟩ := Kernel.resume_eq k'
  rw [he]
  rcases h with ⟨hs, hT, r, hr⟩ | ⟨hs, hbad⟩
  · refine Or.inl ⟨hs, ⟨⟨hT.postpone, hT.flag, hT.parents, hT.corpse⟩, hT.running, hT.idle⟩, r, ?_⟩
    exact hr.frame rfl rfl rfl rfl rfl
  · exact Or.inr ⟨hs, hbad⟩

theorem TaskInv.corpse_ne (h : TaskInv k) (hc : k.currentTaskTCB = some c) :
    k.deadTasks ≠ some c := by
  intro hd
  exact (h.corpse c hd).2.1.not_running (h.running c hc).2

/-- The call of `schedule` by a running task that has just given up the processor. -/
theorem giveUp_spec {s : TaskState} {un : Tid → Nat} {n : Int} (h : TaskInv k)
    (hr : ReadyList k r) (hc : k.currentTaskTCB = some c) (hs : s ≠ .ready ∧ s ≠ .running)
    (hk : { k.setState c s with stackUnlocks := un, irqDisableCounter := n }.schedule = .ok k') :
    Outcome (∀ p, k.reapWakes = some p → k.firstThread = none ∨ k.next p = none) k' := by
  obtain ⟨hca, hrun⟩ := h.running c hc
  have hst : ∀ t, t ≠ c → Function.update k.state c s t = k.state t :=
    fun t ht => Function.update_of_ne ht _ _
  have hgone : ∀ t, k.Gone t → t ≠ c := fun t hg he => hg.not_running (he ▸ hrun)
  set k₀ : Kernel := { k.setState c s with stackUnlocks := un, irqDisableCounter := n } with hk₀
  have hT : Tables k₀ := by
    refine h.toTables.frame h.postpone h.flag rfl rfl rfl ?_
    intro t ht
    exact ⟨ht.congr (hst t (hgone t ht)), rfl⟩
  have hR : ReadyList k₀ r := by
    refine ReadySeg.of_mem hr.seg hr.nodup ?_ hr.last hr.empty
    intro t
    rw [hr.mem t]
    change _ ↔ t ∈ k.allocated ∧ Function.update k.state c s t = .ready
    by_cases htc : t = c
    · simp [htc, hrun, hs.1]
    · rw [hst t htc]
  obtain ⟨hwc, hout⟩ := schedule_spec hT hR hc hca (h.corpse_ne hc) hk
  have hsc : k₀.state c = s := Function.update_self c _ _
  have hwakes : k₀.reapWakes = k.reapWakes := by
    apply Option.ext
    intro p
    by_cases hpc : p = c
    · subst hpc
      refine iff_of_false hwc ?_
      intro hw
      obtain ⟨-, -, -, hwait, -⟩ := reapWakes_some.mp hw
      rw [hrun] at hwait
      cases hwait
    · rw [reapWakes_some, reapWakes_some]
      refine exists_congr fun d => and_congr_right fun hd => ?_
      have hsd : k₀.state d = k.state d := hst d (hgone d (h.corpse d hd).2.1)
      have hsp : k₀.state p = k.state p := hst p hpc
      rw [hsd, hsp]
      rfl
  refine hout.imp ?_
  rw [Kernel.SafeSchedule, if_neg (by rw [hsc]; exact hs.2), hwakes]
  rfl

end UnnamedOS.Proc
