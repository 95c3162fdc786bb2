import UnnamedOS.Proc.Blocking

/-!
# One timer interrupt

`PIT_IRQ_handler` on lists that are well formed, within a time slice. All it can get wrong is the
end of the ready list.
-/

namespace UnnamedOS.Proc

open UnnamedOS.Lib

variable {k k' k₂ : Kernel} {r sl il W : List Tid} {q : Option Tid} {t : Tid}

/-- The due tasks `W` are ready, behind the ready list as it was, and the others keep their
lists. -/
structure Ticked (k : Kernel) (r sl il : List Tid) (k' : Kernel) : Prop where
  ready : QueueSeg k' (r ++ timerWakes k.enterTimer sl il) none
  sleepers : ∃ l, l.Perm (sl.filter fun t => !dueSleeper k.enterTimer t) ∧
    Chain k'.next k'.sleepingTaskList l
  irqs : ∃ l, l.Perm (il.filter fun t => !dueTimeout k.enterTimer t) ∧
    Chain k'.next k'.irqwaiting l
  state : ∀ x, k'.state x = if x ∈ timerWakes k.enterTimer sl il then .ready else k.state x
  ttn : k'.ttn = k.ttn

/-- The end of a queue segment is where its last task points. -/
theorem QueueSeg.end_unique {q' : Option Tid} (h : QueueSeg k r q) (h' : QueueSeg k r q') :
    q = q' := by
  rcases List.eq_nil_or_concat r with rfl | ⟨l, t, rfl⟩
  · rw [h.empty rfl, h'.empty rfl]
  · rw [List.concat_eq_append] at h h'
    exact (seg_concat.mp h.seg).2.symm.trans (seg_concat.mp h'.seg).2

/-- The converse of `staleTail_clean`. -/
theorem cleanTail_iff (hq : QueueSeg k r none) :
    staleTail k r W none = none ↔ WaitOp.CleanTail k W := by
  unfold staleTail WaitOp.CleanTail
  rw [hq.first_none]
  cases hW : W.getLast? with
  | none => simp
  | some t =>
      by_cases hone : r = [] ∧ W.length = 1
      · simp [hone]
      · simp [hone]

/-- A tick within the time slice releases the locks it took. -/
theorem tick_unlocks (hp : 0 ≤ k.postponeTaskSwitchesCounter)
    (hf : k.postponeTaskSwitchesCounter = 0 → k.taskSwitchesPostponedFlag = false)
    (hslice : ¬ k.SliceEnds) (hrest : SameRest k.enterTimer k₂) :
    ∃ k₃ slice, k₂.tickSlice = .ok k₃ ∧ k₃.unlockStuff = .ok ({ k₂ with
      postponeTaskSwitchesCounter := k.postponeTaskSwitchesCounter
      timeSliceRemaining := slice }.unlockScheduler) := by
  have hp₂ : k₂.postponeTaskSwitchesCounter = k.postponeTaskSwitchesCounter + 1 := by
    rw [hrest]
    rfl
  have hf₂ : k₂.taskSwitchesPostponedFlag = k.taskSwitchesPostponedFlag := by
    rw [hrest]
    rfl
  have hs₂ : k₂.timeSliceRemaining = k.timeSliceRemaining := by
    rw [hrest]
    rfl
  have hunlock : ∀ slice, Kernel.unlockStuff { k₂ with timeSliceRemaining := slice } =
      .ok ({ k₂ with
        postponeTaskSwitchesCounter := k.postponeTaskSwitchesCounter
        timeSliceRemaining := slice }.unlockScheduler) := by
    intro slice
    have hne : ¬ k.postponeTaskSwitchesCounter + 1 = 0 := by omega
    have hback : k.postponeTaskSwitchesCounter + 1 - 1 = k.postponeTaskSwitchesCounter := by omega
    have hno : ¬ (k.postponeTaskSwitchesCounter = 0 ∧ k.taskSwitchesPostponedFlag = true) := by
      rintro ⟨h0, h1⟩
      rw [hf h0] at h1
      cases h1
    rw [Kernel.unlockStuff]
    simp only [hp₂, hf₂, if_neg hne, hback, if_neg hno]
  by_cases hz : k.timeSliceRemaining = 0
  · have htick : k₂.tickSlice = .ok k₂ := by
      rw [Kernel.tickSlice, if_neg (by rw [hs₂]; exact not_not.mpr hz)]
    exact ⟨_, _, htick, hunlock k₂.timeSliceRemaining⟩
  · have hgt : ¬ k.timeSliceRemaining ≤ 10000000 := fun hle => hslice ⟨hz, hle⟩
    have htick : k₂.tickSlice =
        .ok { k₂ with timeSliceRemaining := k₂.timeSliceRemaining - 10000000 } := by
      rw [Kernel.tickSlice, if_pos (by rw [hs₂]; exact hz), if_neg (by rw [hs₂]; exact hgt)]
    exact ⟨_, _, htick, hunlock (k₂.timeSliceRemaining - 10000000)⟩

/-- A tick within the time slice wakes exactly the due tasks, and the ready list it leaves is
null-terminated if and only if the last of them brings no stale `next`. -/
theorem timer_tick_iff (h : WaitLists k r none sl il) (hp : 0 ≤ k.postponeTaskSwitchesCounter)
    (hf : k.postponeTaskSwitchesCounter = 0 → k.taskSwitchesPostponedFlag = false)
    (hslice : ¬ k.SliceEnds) (htf : ∀ t ∈ il, k.ttn t ≠ 0 → k.timeoutFunction t ≠ none) :
    (∃ k', k.pitIrqHandler = .ok k' ∧ Ticked k r sl il k') ↔
      WaitOp.CleanTail k (timerWakes k.enterTimer sl il) := by
  have h₁ : WaitLists k.enterTimer r none sl il :=
    ⟨h.toQueueLists.frame rfl rfl rfl rfl rfl rfl rfl, h.sleeping⟩
  obtain ⟨k₁, hk₁, ⟨k₂, hk₂, hw⟩ | ⟨t, ht, hdue, hnone, -⟩⟩ := timerWakes_spec h₁
  · obtain ⟨k₃, slice, htick, hunlock⟩ := tick_unlocks hp hf hslice hw.rest
    have hpit : k.pitIrqHandler = .ok ({ k₂ with
        postponeTaskSwitchesCounter := k.postponeTaskSwitchesCounter
        timeSliceRemaining := slice }.unlockScheduler) := by
      have hsleepers : Kernel.wakeSleepers { k.lockStuff with time := k.lockStuff.time + 10000000 } =
          .ok k₁ := hk₁
      rw [Kernel.pitIrqHandler]
      simp only [hsleepers, hk₂, htick, hunlock]
    have hclean : WaitOp.CleanTail k (timerWakes k.enterTimer sl il) ↔
        staleTail k.enterTimer r (timerWakes k.enterTimer sl il) none = none :=
      (cleanTail_iff h₁.ready).symm
    rw [hclean]
    constructor
    · rintro ⟨k', hk', ht⟩
      obtain rfl := Except.ok.inj (hpit.symm.trans hk')
      have hq : QueueSeg k₂ (r ++ timerWakes k.enterTimer sl il) none :=
        ht.ready.frame rfl rfl rfl rfl rfl
      exact hw.queue.end_unique hq
    · intro hstale
      refine ⟨_, hpit, ?_, ⟨_, List.reverse_perm _, hw.sleepers⟩, ⟨_, List.reverse_perm _, hw.irqs⟩,
        hw.state, ?_⟩
      · have hq := hw.queue
        rw [hstale] at hq
        exact hq.frame rfl rfl rfl rfl rfl
      · have hrest := hw.rest
        change k₂.ttn = k.ttn
        rw [hrest]
        rfl
  · have hne : k.ttn t ≠ 0 := (of_decide_eq_true hdue).2
    exact absurd hnone (htf t ht hne)

/-- Task 1 runs, 4 is ready, and 2 and 3 sleep, 2 until the next tick and 3 until `t`. -/
def twoSleepers (t : UInt64) : Kernel :=
  { Kernel.zeroed with
    allocated := [1, 2, 3, 4]
    currentTaskTCB := some 1
    firstThread := some 4
    lastThread := some 4
    sleepingTaskList := some 2
    next := fun x => if x = 2 then some 3 else none
    state := fun x => if x = 1 then .running else if x = 4 then .ready else .waiting
    ttn := fun x => if x = 3 then t else 10000000 }

theorem twoSleepers_lists (t : UInt64) : WaitLists (twoSleepers t) [4] none [2, 3] [] where
  ready := ⟨⟨rfl, rfl⟩, List.nodup_singleton 4, by simp [twoSleepers], fun _ => rfl, by simp⟩
  sleepers := ⟨rfl, rfl, rfl⟩
  irqs := rfl
  waiting := by simp
  apart := by simp
  sleeping := by simp [twoSleepers]

/-- Both are due, and 3 is the end of the list of sleepers. -/
theorem twoSleepers_wake : ∃ k', (twoSleepers 10000000).pitIrqHandler = .ok k' ∧
    Ticked (twoSleepers 10000000) [4] [2, 3] [] k' := by
  refine (timer_tick_iff (twoSleepers_lists 10000000) (by decide) (fun _ => rfl) ?_ ?_).mpr ?_
  · exact fun h => absurd h.2 (by decide)
  · simp
  · have hW : timerWakes (twoSleepers 10000000).enterTimer [2, 3] [] = [2, 3] := by decide
    rw [hW]
    intro t ht
    obtain rfl := Option.some.inj ht
    exact Or.inr rfl

/-- Only 2 is due: the ready list goes on from it to the sleeper 3. -/
theorem sleeper_stays_reachable : WaitLists (twoSleepers 20000000) [4] none [2, 3] [] ∧
    ¬ (twoSleepers 20000000).SliceEnds ∧
    ¬ ∃ k', (twoSleepers 20000000).pitIrqHandler = .ok k' ∧
      Ticked (twoSleepers 20000000) [4] [2, 3] [] k' := by
  have hslice : ¬ (twoSleepers 20000000).SliceEnds := fun h => absurd h.2 (by decide)
  refine ⟨twoSleepers_lists 20000000, hslice, ?_⟩
  rintro ⟨k', hk', ht⟩
  have hfound : ∃ k₁, (twoSleepers 20000000).pitIrqHandler = .ok k₁ ∧ k₁.next 2 = some 3 :=
    ⟨_, rfl, by decide⟩
  obtain ⟨k₁, hk₁, hnext⟩ := hfound
  obtain rfl := Except.ok.inj (hk₁.symm.trans hk')
  have hW : timerWakes (twoSleepers 20000000).enterTimer [2, 3] [] = [2] := by decide
  have hend := ht.ready.seg
  rw [hW] at hend
  have hnone : k₁.next 2 = none := (seg_concat (l := [4]).mp hend).2
  rw [hnext] at hnone
  cases hnone

end UnnamedOS.Proc
