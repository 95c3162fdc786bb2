import UnnamedOS.Proc.Switch
import UnnamedOS.Proc.Tasks

/-!
# Scheduler passes, whatever the ready list has lost

A time slice that ends with one ready task loses the running one, but what is left of the ready
list stays a list. The lemmas give the kernel after each part of `schedule` in full; `Passing` is
kept by every step that wakes nobody with a stale `next`.
-/

namespace UnnamedOS.Proc

open UnnamedOS.Lib

variable {k k' : Kernel} {r : List Tid} {q : Option Tid} {c d p t : Tid} {s : TaskState}

namespace Kernel

/-- The children of the mother of `d` without `d`. -/
def disown (k : Kernel) (d : Tid) : Tid → List Tid :=
  (k.parent d).elim k.children fun p => Function.update k.children p ((k.children p).erase d)

def freed (k : Kernel) (d : Tid) : List Tid :=
  if k.pid d = 0 then k.allocated else k.allocated.erase d

/-- The mother that waits for the death of `d` to be noticed. -/
def mourner (k : Kernel) (d : Tid) : Option Tid := { k with deadTasks := some d }.reapWakes

theorem reapWakes_eq (hd : k.deadTasks = some d) : k.reapWakes = k.mourner d := by
  rw [mourner, ← hd]

theorem mourner_some : k.mourner d = some p ↔
    k.parent d = some p ∧ k.state p = .waitingForDeath ∧ k.state d ≠ .buried := by
  rw [mourner, reapWakes_some]
  constructor
  · rintro ⟨d', hd, hp⟩
    obtain rfl := Option.some.inj hd
    exact hp
  · exact fun hp => ⟨d, rfl, hp⟩

theorem mourner_none (h : ∀ p, k.parent d = some p →
    ¬ (k.state p = .waitingForDeath ∧ k.state d ≠ .buried)) : k.mourner d = none := by
  rw [Option.eq_none_iff_forall_ne_some]
  intro p hp
  obtain ⟨hpar, hw⟩ := mourner_some.mp hp
  exact h p hpar hw

/-- A dead task loses its page, its block and its place among the children of its mother. -/
def reclaim (k : Kernel) (d : Tid) (children : Tid → List Tid) (pages : List UInt64) : Kernel :=
  { k with children := children, pages := pages, allocated := k.freed d }

theorem freeBoth_eq (k : Kernel) (d : Tid) :
    ∃ pg, (k.freeCr3 d).freeTask d = k.reclaim d k.children pg := by
  obtain ⟨pg, hpg⟩ := freeCr3_eq k d
  refine ⟨pg, ?_⟩
  rw [hpg, freeTask, reclaim, freed]
  split <;> rfl

/-- One round of `reap`. -/
theorem reapTask_ok (h : k.reapTask d = .ok k') :
    (∀ p, k.parent d = some p → d ∈ k.children p) ∧ ∃ pg,
      (k.mourner d = none ∧ k' = k.reclaim d (k.disown d) pg) ∨
      ∃ p k₁, k.mourner d = some p ∧ k.unblockTask p = .ok k₁ ∧
        k' = k₁.reclaim d (k.disown d) pg := by
  unfold reapTask at h
  cases hp : k.parent d with
  | none =>
      rw [if_pos hp] at h
      obtain ⟨pg, hpg⟩ := freeBoth_eq k d
      have hk' : (k.freeCr3 d).freeTask d = k' := Except.ok.inj h
      have hmourner : k.mourner d = none := by
        apply mourner_none
        rw [hp]
        exact fun p hp' => absurd hp' (by simp)
      refine ⟨fun p hp' => absurd hp' (by simp), pg, Or.inl ⟨hmourner, ?_⟩⟩
      rw [disown, hp, ← hk', hpg]
      rfl
  | some p =>
      rw [if_neg (by simp [hp])] at h
      have hdis : k.disown d = Function.update k.children p ((k.children p).erase d) := by
        rw [disown, hp]
        rfl
      split at h
      · cases h
      · rename_i k₁ hk₁
        have hk' := (Except.ok.inj h).symm
        rw [murderChild, hp] at hk₁
        dsimp only at hk₁
        split at hk₁
        · cases hk₁
        · rename_i hm
          have hmem : ∀ p', some p = some p' → d ∈ k.children p' := by
            rintro p' ⟨⟩
            exact not_not.mp hm
          rw [← hdis] at hk₁
          obtain ⟨pg, hpg⟩ := freeBoth_eq k₁ d
          rw [hpg] at hk'
          refine ⟨hmem, pg, ?_⟩
          split at hk₁
          · rename_i hw
            obtain rfl := Except.ok.inj hk₁
            refine Or.inl ⟨?_, hk'⟩
            apply mourner_none
            rintro p' hp' ⟨h1, h2⟩
            obtain rfl := Option.some.inj (hp.symm.trans hp')
            exact hw.elim (fun h3 => h3 h1) h2
          · rename_i hw
            have hw' : k.state p = .waitingForDeath ∧ k.state d ≠ .buried := by
              have hboth := not_or.mp hw
              exact ⟨not_not.mp hboth.1, hboth.2⟩
            refine Or.inr ⟨p, ?_⟩
            obtain ⟨hr, hd, ⟨hf, rfl⟩ | ⟨f, l, hf, hl, rfl⟩⟩ := unblockTask_ok hk₁
            · exact ⟨k.wakeAlone p, mourner_some.mpr ⟨hp, hw'⟩, unblockTask_of_empty hr hd hf, hk'⟩
            · exact ⟨k.wakeAfter l p, mourner_some.mpr ⟨hp, hw'⟩,
                unblockTask_of_last hr hd hf hl, hk'⟩

/-- The round of the only dead task is the last. -/
theorem reapTask_next (ho : OneDead k d) (h : k.reapTask d = .ok k') : k'.next d = none := by
  obtain ⟨-, pg, ⟨-, rfl⟩ | ⟨p, k₁, -, hk₁, rfl⟩⟩ := reapTask_ok h
  · exact ho.next
  · obtain ⟨-, -, ⟨-, rfl⟩ | ⟨f, l, hf, hl, rfl⟩⟩ := unblockTask_ok hk₁
    · by_cases hdp : d = p
      · rw [hdp]
        exact Function.update_self p _ _
      · exact (Function.update_of_ne hdp _ _).trans ho.next
    · have hne : d ≠ l := by
        rintro rfl
        exact ho.last (by simp [hf]) hl
      exact (Function.update_of_ne hne _ _).trans ho.next

/-- `reap` on a list of one is one round. -/
theorem reap_task (hd : k.deadTasks = some d) (ho : OneDead k d) (h : k.reap = .ok k') :
    ∃ k₁, k.reapTask d = .ok k₁ ∧ k' = { k₁ with deadTasks := none } := by
  rw [reap, hd] at h
  split at h
  · cases h
  · rename_i k₂ hk₂
    obtain ⟨k₁, hk₁, hrest⟩ := reapLoop_some _ k d hk₂
    rw [reapTask_next ho hk₁, reapLoop_none] at hrest
    obtain rfl := Except.ok.inj hrest
    exact ⟨k₁, hk₁, (Except.ok.inj h).symm⟩

/-- The task `schedule` picks, and the kernel it then leaves. -/
inductive Picked (k : Kernel) (c : Tid) (r : List Tid) : Kernel → Prop
  | pop {t : Tid} {r' : List Tid} (w : SwitchFrame) : r = t :: r' → k.state c ≠ .running →
      k.state c ≠ .ready →
      Picked k c r (({ k with firstThread := k.next t }.handOver t).withFrame w)
  | rotate {t l : Tid} {r' : List Tid} (w : SwitchFrame) : r = t :: r' → k.state c = .running →
      k.lastThread = some l →
      Picked k c r (({ k with firstThread := k.next t }.preempt c l t).withFrame w)
  | stay : r = [] → k.state c = .running → Picked k c r k
  | bury {p : Tid} (w : SwitchFrame) : r = [] → k.state c = .dead → k.parent c = some p →
      k.state p = .waitingForDeath →
      Picked k c r (((k.setState c .buried).handOver p).withFrame w)
  | idle : r = [] → k.state c ≠ .running → k.state c ≠ .ready → Picked k c r (k.goIdle c)

theorem pickNext_picked (hp : k.postponeTaskSwitchesCounter = 0) (hc : k.currentTaskTCB = some c)
    (hq : QueueSeg k r q) (h : k.pickNext c = .ok k') : Picked k c r k' := by
  rcases pickNext_ok h with ⟨t, hf, hsw⟩ | ⟨hf, hrun, rfl⟩ | ⟨hf, hdead, p, hpar, hw, hsw⟩ |
    ⟨hf, hrun, hrdy, rfl⟩
  · cases r with
    | nil => simp [hq.first_none.mpr rfl] at hf
    | cons a r' =>
        have hat : a = t := by
          rw [(seg_cons.mp hq.seg).1] at hf
          exact Option.some.inj hf
        subst hat
        obtain ⟨hrdy, slot, word, ⟨hrun, rfl⟩ | ⟨hrun, l, hl, rfl⟩⟩ :=
          switchToTaskWrapper_ok (k := { k with firstThread := k.next a }) hp hc hsw
        · exact Picked.pop _ rfl hrun hrdy
        · exact Picked.rotate _ rfl hrun hl
  · exact Picked.stay (hq.first_none.mp hf) hrun
  · have hcb : (k.setState c .buried).state c = .buried := Function.update_self c _ _
    obtain ⟨-, slot, word, ⟨-, rfl⟩ | ⟨hrun, -⟩⟩ :=
      switchToTaskWrapper_ok (k := k.setState c .buried) hp hc hsw
    · exact Picked.bury _ (hq.first_none.mp hf) hdead hpar hw
    · rw [hcb] at hrun
      cases hrun
  · exact Picked.idle (hq.first_none.mp hf) hrun hrdy

/-- A pick leaves the tables of the tasks alone. -/
structure SameTables (k k' : Kernel) : Prop where
  parent : k'.parent = k.parent
  children : k'.children = k.children
  allocated : k'.allocated = k.allocated
  deadTasks : k'.deadTasks = k.deadTasks

theorem Picked.tables (h : Picked k c r k') : SameTables k k' := by
  cases h <;> exact ⟨rfl, rfl, rfl, rfl⟩

/-- The running task `c` as it enters `schedule` in the state `s`. -/
def entry (k : Kernel) (c : Tid) (s : TaskState) (un : Tid → Nat) (n : Int) : Kernel :=
  { k.setState c s with stackUnlocks := un, irqDisableCounter := n }

end Kernel

/-- What `reap` leaves to the rest of `schedule`. -/
structure AfterReap (k k' : Kernel) (r' : List Tid) (q' : Option Tid) : Prop extends Tables k' where
  queue : QueueSeg k' r' q'
  empty : k'.deadTasks = none
  current : k'.currentTaskTCB = k.currentTaskTCB
  parent : k'.parent = k.parent
  children : k'.children = k.deadTasks.elim k.children k.disown
  allocated : k'.allocated = k.deadTasks.elim k.allocated k.freed
  state : k'.state = k.reapWakes.elim k.state fun p => Function.update k.state p .ready
  mother : ∀ d, k.deadTasks = some d → ∀ p, k.parent d = some p → d ∈ k.children p

theorem mem_freed (ht : t ∈ k.allocated) (hne : t ≠ d) : t ∈ k.freed d := by
  unfold Kernel.freed
  split
  · exact ht
  · exact (List.mem_erase_of_ne hne).mpr ht

theorem mem_of_freed (ht : t ∈ k.freed d) : t ∈ k.allocated := by
  unfold Kernel.freed at ht
  split at ht
  · exact ht
  · exact List.mem_of_mem_erase ht

theorem freed_eq (k : Kernel) (d : Tid) :
    k.freed d = k.allocated ∨ k.freed d = k.allocated.erase d := by
  unfold Kernel.freed
  split
  · exact Or.inl rfl
  · exact Or.inr rfl

theorem QueueSeg.bury {ch : Tid → List Tid} {pg : List UInt64} (h : QueueSeg k r q)
    (hg : k.Gone d) : QueueSeg (k.buryAll ch pg (k.freed d)) r q := by
  refine ⟨h.seg, h.nodup, ?_, h.last, h.empty⟩
  intro t ht
  obtain ⟨hta, hts⟩ := h.ready t ht
  have hne : t ≠ d := fun he => hg.not_ready (he ▸ hts)
  exact ⟨mem_freed hta hne, hts⟩

theorem QueueSeg.buryLater (h : QueueSeg k r q) : QueueSeg (k.buryLater c) r q := by
  unfold Kernel.buryLater
  split
  · rename_i hs
    have hc : c ∉ r := h.not_mem (by simp [hs])
    exact ⟨(seg_update_of_notMem hc).mpr h.seg, h.nodup, h.ready, h.last, h.empty⟩
  · exact h

theorem reap_after (h : Tables k) (hq : QueueSeg k r none) (hk : k.reap = .ok k') :
    AfterReap k k' (r ++ k.reapWakes.toList)
      (k.reapWakes.elim none fun p => if k.firstThread = none then none else k.next p) := by
  cases hd : k.deadTasks with
  | none =>
      have hw : k.reapWakes = none := by rw [Kernel.reapWakes, hd]
      obtain rfl : k' = k := by
        rw [Kernel.reap_none hd, ← hd] at hk
        exact (Except.ok.inj hk).symm
      rw [hw, Option.toList_none, List.append_nil]
      refine ⟨h, hq, hd, rfl, rfl, ?_, ?_, ?_, fun d hd' => ?_⟩
      · rw [hd]
        rfl
      · rw [hd]
        rfl
      · rw [hw]
        rfl
      · rw [hd] at hd'
        cases hd'
  | some d =>
      obtain ⟨hda, hg, -⟩ := h.corpse d hd
      obtain ⟨k₁, hk₁, rfl⟩ := Kernel.reap_task hd (h.oneDead hq hd) hk
      obtain ⟨hm, pg, hcase⟩ := Kernel.reapTask_ok hk₁
      have hmother : ∀ d', k.deadTasks = some d' → ∀ p, k.parent d' = some p →
          d' ∈ k.children p := by
        intro d' hd' p hp
        obtain rfl := Option.some.inj (hd.symm.trans hd')
        exact hm p hp
      rw [Kernel.reapWakes_eq hd]
      rcases hcase with ⟨hw, rfl⟩ | ⟨p, k₂, hw, hk₂, rfl⟩
      · rw [hw, Option.toList_none, List.append_nil]
        refine ⟨h.bury hg (freed_eq k d), hq.bury hg, rfl, rfl, rfl, ?_, ?_, ?_, hmother⟩
        · rw [hd]
          rfl
        · rw [hd]
          rfl
        · rw [Kernel.reapWakes_eq hd, hw]
          rfl
      · obtain ⟨hp, hwait, -⟩ := Kernel.mourner_some.mp hw
        have hpg : ¬ k.Gone p := by simp [Kernel.Gone, hwait]
        have hpa : p ∈ k.allocated := (h.parents d hda p hp).resolve_right hpg
        have hT := h.unblockTask hq hpg hk₂
        have hQ := hq.wake hpa hk₂
        have hsame : k₂.allocated = k.allocated ∧ k₂.currentTaskTCB = k.currentTaskTCB ∧
            k₂.state = Function.update k.state p .ready ∧ k₂.parent = k.parent ∧
            k₂.freed d = k.freed d := by
          obtain ⟨-, -, ⟨-, rfl⟩ | ⟨f, l, -, -, rfl⟩⟩ := Kernel.unblockTask_ok hk₂ <;>
            exact ⟨rfl, rfl, rfl, rfl, rfl⟩
        obtain ⟨hall, hcur, hst, hpar, hfr⟩ := hsame
        have hdp : d ≠ p := fun he => hpg (he ▸ hg)
        have hg₂ : k₂.Gone d := by rwa [Kernel.Gone, hst, Function.update_of_ne hdp]
        rw [hw]
        refine ⟨hT.bury hg₂ (freed_eq k₂ d), hQ.bury hg₂, rfl, hcur, hpar, ?_, ?_, ?_, hmother⟩
        · rw [hd]
          rfl
        · rw [hd]
          exact hfr
        · rw [Kernel.reapWakes_eq hd, hw]
          exact hst

/-- What every step keeps that wakes nobody with a stale `next`. -/
structure Passing (k : Kernel) : Prop extends TaskInv k where
  queue : ∃ r, QueueSeg k r none

theorem Passing.resume (h : Passing k) : Passing k.resume := by
  obtain ⟨n, un, he⟩ := Kernel.resume_eq k
  obtain ⟨r, hq⟩ := h.queue
  rw [he]
  exact ⟨⟨⟨h.postpone, h.flag, h.parents, h.corpse⟩, h.running, h.idle⟩, r,
    hq.frame rfl rfl rfl rfl rfl⟩

/-- A pick keeps the queue. A running `c` goes behind it and ends it. -/
theorem Kernel.Picked.passing (hpick : Kernel.Picked k c r k') (h : Tables k)
    (hq : QueueSeg k r q) (hshort : r.length ≤ 1 → q = none)
    (hclean : k.state c ≠ .running → q = none) (hc : k.currentTaskTCB = some c)
    (hca : c ∈ k.allocated) : Passing k' := by
  cases hpick with
  | @pop t r' w hr hrun hrdy =>
      subst hr
      obtain ⟨hta, hts⟩ := hq.ready t List.mem_cons_self
      have htg : ¬ k.Gone t := fun hg => hg.not_ready hts
      have hT : Tables { k with firstThread := k.next t } :=
        ⟨h.postpone, h.flag, h.parents, h.corpse⟩
      have hQ := hq.handOver (fun _ => hclean hrun)
      rw [hclean hrun] at hQ
      exact ⟨TaskInv.handOver hT htg hta w, r', hQ.frame rfl rfl rfl rfl rfl⟩
  | @rotate t l r' w hr hrun hl =>
      subst hr
      obtain ⟨hta, hts⟩ := hq.ready t List.mem_cons_self
      have htg : ¬ k.Gone t := fun hg => hg.not_ready hts
      have hcg : ¬ k.Gone c := fun hg => hg.not_running hrun
      have hT : Tables { k with firstThread := k.next t } :=
        ⟨h.postpone, h.flag, h.parents, h.corpse⟩
      obtain ⟨u, hu⟩ := hq.exists_last hl (by simp)
      have hlm : l ∈ t :: r' := by rw [hu]; simp
      have hlg : ¬ k.Gone l := fun hg => hg.not_ready (hq.ready l hlm).2
      refine ⟨TaskInv.preempt hT htg hta hlg hcg w, ?_⟩
      by_cases hr' : r' = []
      · subst hr'
        obtain rfl := hshort (by simp)
        exact ⟨[], (seg_cons.mp hq.seg).2, List.nodup_nil,
          fun x hx => absurd hx List.not_mem_nil, fun hne => absurd rfl hne, fun _ => rfl⟩
      · exact ⟨r' ++ [c], (hq.preempt hr' hl hca hrun).frame rfl rfl rfl rfl rfl⟩
  | stay hr hrun =>
      subst hr
      obtain rfl := hq.empty rfl
      refine ⟨⟨h, fun d hd => ?_, fun hn => ?_⟩, [], hq⟩
      · obtain rfl : c = d := Option.some.inj (hc.symm.trans hd)
        exact ⟨hca, hrun⟩
      · rw [hc] at hn
        cases hn
  | @bury p w hr hdead hp hw =>
      subst hr
      obtain rfl := hq.empty rfl
      obtain ⟨hpa, -, hT, hpg'⟩ := h.toParent hca hp hdead hw
      exact ⟨TaskInv.handOver hT hpg' hpa w, [], hq.seg, List.nodup_nil,
        fun x hx => absurd hx List.not_mem_nil, fun hne => absurd rfl hne, fun _ => rfl⟩
  | idle hr hrun hrdy =>
      subst hr
      obtain rfl := hq.empty rfl
      have hT : Tables (k.goIdle c) := ⟨h.postpone, h.flag, h.parents, h.corpse⟩
      refine ⟨⟨hT, fun d hd => (by cases hd), ?_⟩, [], hq.frame rfl rfl rfl rfl rfl⟩
      intro _ d hd
      obtain rfl : c = d := Option.some.inj hd
      exact hrun

theorem entry_state_ne {un : Tid → Nat} {n : Int} {x : Tid} (hx : x ≠ c) :
    (k.entry c s un n).state x = k.state x := Function.update_of_ne hx _ _

/-- Entering `schedule` changes nothing about whom `reap` wakes, the running task apart. -/
theorem entry_reapWakes {un : Tid → Nat} {n : Int} (h : TaskInv k) (hc : k.currentTaskTCB = some c)
    (hp : p ≠ c) : (k.entry c s un n).reapWakes = some p ↔ k.reapWakes = some p := by
  rw [reapWakes_some, reapWakes_some]
  apply exists_congr
  intro d
  apply and_congr_right
  intro hd
  have hdc : d ≠ c := fun he => h.corpse_ne hc (he ▸ hd)
  rw [entry_state_ne hp, entry_state_ne hdc]
  rfl

theorem TaskInv.entry {un : Tid → Nat} {n : Int} (h : TaskInv k) (hc : k.currentTaskTCB = some c) :
    Tables (k.entry c s un n) := by
  refine h.toTables.frame h.postpone h.flag rfl rfl rfl ?_
  intro t ht
  have htc : t ≠ c := fun he => ht.not_running (he ▸ (h.running c hc).2)
  exact ⟨ht.congr (entry_state_ne htc), rfl⟩

theorem QueueSeg.entry {un : Tid → Nat} {n : Int} (h : QueueSeg k r q)
    (hrun : k.state c = .running) : QueueSeg (k.entry c s un n) r q := by
  refine ⟨h.seg, h.nodup, ?_, h.last, h.empty⟩
  intro t ht
  obtain ⟨hta, hts⟩ := h.ready t ht
  have htc : t ≠ c := by
    rintro rfl
    rw [hrun] at hts
    cases hts
  exact ⟨hta, (entry_state_ne htc).trans hts⟩

/-- The call of `schedule` by the running task in the state `s`. -/
theorem pass_spec {un : Tid → Nat} {n : Int} (h : Passing k) (hc : k.currentTaskTCB = some c)
    (hclean : s ≠ .running → ∀ p, k.reapWakes = some p → k.firstThread = none ∨ k.next p = none)
    (hk : (k.entry c s un n).schedule = .ok k') :
    Passing k' ∧ (k.entry c s un n).reapWakes = k.reapWakes ∧ k.reapWakes ≠ some c ∧
      ∃ k₁ r' q', AfterReap (k.entry c s un n) k₁ r' q' ∧
        Kernel.Picked (k₁.buryLater c) c r' k' := by
  obtain ⟨r, hq⟩ := h.queue
  obtain ⟨hca, hrun⟩ := h.running c hc
  set k₀ := k.entry c s un n with hk₀
  have hsc : k₀.state c = s := Function.update_self c _ _
  have hT : Tables k₀ := h.toTaskInv.entry hc
  have hQ : QueueSeg k₀ r none := hq.entry hrun
  obtain ⟨hrdy, k₁, hreap, hpick⟩ := Kernel.schedule_ok (k := k₀) h.postpone hc hk
  have hA := reap_after hT hQ hreap
  have hca₁ : c ∈ k₁.allocated := by
    rw [hA.allocated]
    cases hd : k₀.deadTasks with
    | none => exact hca
    | some d => exact mem_freed hca (fun he => h.corpse_ne hc (he ▸ hd))
  have hpicked := Kernel.pickNext_picked (hA.toTables.buryLater hA.empty hca₁).postpone
    ((buryLater_current k₁ c).trans (hA.current.trans hc)) hA.queue.buryLater hpick
  -- a mother that is woken by her own call would be ready while it runs
  have hwc : k₀.reapWakes ≠ some c := by
    intro hw
    have hst : (k₁.buryLater c).state c = .ready := by
      rw [buryLater_state, hA.state, hw]
      exact Function.update_self c _ _
    rw [hw] at hpicked
    cases hpicked with
    | pop w hr hrun' hrdy' => exact hrdy' hst
    | rotate w hr hrun' hl => rw [hst] at hrun'; cases hrun'
    | stay hr hrun' => simp at hr
    | bury w hr hdead hp hw' => simp at hr
    | idle hr hrun' hrdy' => simp at hr
  have hwne : k.reapWakes ≠ some c := by
    intro hw
    obtain ⟨-, -, -, hwait, -⟩ := reapWakes_some.mp hw
    rw [hrun] at hwait
    cases hwait
  have hwakes : k₀.reapWakes = k.reapWakes := by
    apply Option.ext
    intro p
    by_cases hpc : p = c
    · subst hpc
      exact iff_of_false hwc hwne
    · exact entry_reapWakes h.toTaskInv hc hpc
  have hst : k₁.state c = s := by
    rw [hA.state]
    cases hw : k₀.reapWakes with
    | none => exact hsc
    | some p =>
        have hpc : c ≠ p := fun he => hwc (he ▸ hw)
        exact (Function.update_of_ne hpc _ _).trans hsc
  refine ⟨?_, hwakes, hwne, k₁, _, _, hA, hpicked⟩
  refine hpicked.passing (hA.toTables.buryLater hA.empty hca₁) hA.queue.buryLater ?_ ?_
    ((buryLater_current k₁ c).trans (hA.current.trans hc)) (by rwa [buryLater_allocated])
  · intro hlen
    cases hw : k₀.reapWakes with
    | none => rfl
    | some p =>
        have hr : r = [] := by
          rw [hw] at hlen
          simpa using hlen
        exact if_pos (hq.first_none.mpr hr)
  · rw [buryLater_state, hst]
    intro hs
    cases hw : k₀.reapWakes with
    | none => rfl
    | some p =>
        change (if k.firstThread = none then none else k.next p) = none
        rcases hclean hs p (hwakes ▸ hw) with hf | hn
        · exact if_pos hf
        · rw [hn]
          exact ite_self none

namespace TaskOp

/-- The state in which the running task enters `schedule`. -/
def enters : TaskOp → Option TaskState
  | blockTask reason => some reason
  | timeSlice => some .running
  | procExit => some .dead
  | ckprocA _ _ _ | unblockTask _ | leaveIdle => none

/-- No wake-up leaves a stale `next` behind the last ready task. -/
def CleanWake (k : Kernel) : TaskOp → Prop
  | unblockTask t => k.firstThread = none ∨ k.next t = none
  | blockTask _ | procExit => ∀ p, k.reapWakes = some p → k.firstThread = none ∨ k.next p = none
  | ckprocA _ _ _ | timeSlice | leaveIdle => True

instance : DecidablePred TaskState.Blocked
  | .running | .ready | .dead | .buried => inferInstanceAs (Decidable False)
  | .waiting | .paused | .waitingForIrq | .waitingForProcUpdate | .waitingForLock
  | .waitingForPoke | .waitingForDeath => inferInstanceAs (Decidable True)

instance (k : Kernel) : ∀ op : TaskOp, Decidable (op.Enabled k)
  | ckprocA M _ _ => inferInstanceAs (Decidable (M ∉ k.allocated))
  | blockTask reason => inferInstanceAs (Decidable reason.Blocked)
  | unblockTask t => inferInstanceAs (Decidable (t ∈ k.allocated ∧ (k.state t).Blocked))
  | leaveIdle => inferInstanceAs (Decidable (k.currentTaskTCB = none))
  | timeSlice | procExit => inferInstanceAs (Decidable True)

instance (k : Kernel) : ∀ op : TaskOp, Decidable (op.CleanWake k)
  | unblockTask t => inferInstanceAs (Decidable (k.firstThread = none ∨ k.next t = none))
  | blockTask _ | procExit =>
    inferInstanceAs (Decidable (∀ p ∈ k.reapWakes, k.firstThread = none ∨ k.next p = none))
  | ckprocA _ _ _ | timeSlice | leaveIdle => inferInstanceAs (Decidable True)

end TaskOp

/-- Three steps are calls of `schedule`. -/
theorem exec_enters {op : TaskOp} (hp : k.postponeTaskSwitchesCounter = 0)
    (hf : k.taskSwitchesPostponedFlag = false) (hc : k.currentTaskTCB = some c)
    (hrun : k.state c = .running) (hop : op.enters = some s) :
    ∃ un n, op.exec k = ((k.entry c s un n).schedule).map Kernel.resume := by
  cases op with
  | blockTask reason =>
      obtain rfl := Option.some.inj hop
      refine ⟨Function.update k.stackUnlocks c (k.stackUnlocks c + 1), k.irqDisableCounter + 1, ?_⟩
      have hpush : (k.lockScheduler.setState c reason).pushUnlock =
          k.entry c reason (Function.update k.stackUnlocks c (k.stackUnlocks c + 1))
            (k.irqDisableCounter + 1) := Kernel.pushUnlock_eq hc
      simp only [TaskOp.exec, Kernel.blockTask, hc, Kernel.scheduleThenUnlock, hpush]
      cases (k.entry c reason _ _).schedule <;> rfl
  | timeSlice =>
      obtain rfl := Option.some.inj hop
      refine ⟨Function.update k.stackUnlocks c (k.stackUnlocks c + 1), k.irqDisableCounter + 1, ?_⟩
      have hlock : k.lockStuff.schedule =
          .ok { k.lockStuff with taskSwitchesPostponedFlag := true } :=
        Kernel.schedule_postponed (by simp [Kernel.lockStuff, hp])
      have hone : k.lockStuff.postponeTaskSwitchesCounter = 1 := by
        simp [Kernel.lockStuff, hp]
      have hunlock := Kernel.unlockStuff_switch
        (k := { k.lockStuff with taskSwitchesPostponedFlag := true }) hone rfl hc
      have hpush := Kernel.pushUnlock_eq (c := c) (k := { k.lockStuff with
        taskSwitchesPostponedFlag := false, postponeTaskSwitchesCounter := 0 }) hc
      have hentry : ({ k.lockStuff with
          taskSwitchesPostponedFlag := false, postponeTaskSwitchesCounter := 0 }).pushUnlock =
          k.entry c .running (Function.update k.stackUnlocks c (k.stackUnlocks c + 1))
            (k.irqDisableCounter + 1) := by
        have hst : Function.update k.state c .running = k.state := by
          rw [← hrun]
          exact Function.update_eq_self c k.state
        rw [hpush, Kernel.entry, Kernel.setState, hst]
        simp [Kernel.lockStuff, hp, hf]
      simp only [TaskOp.exec, TaskOp.endTimeSlice, hlock, hunlock, Kernel.scheduleThenUnlock,
        hentry]
      cases (k.entry c .running _ _).schedule <;> rfl
  | procExit =>
      obtain rfl := Option.some.inj hop
      refine ⟨k.stackUnlocks, k.irqDisableCounter, ?_⟩
      have hentry : (k.lockScheduler.setState c .dead).unlockScheduler =
          k.entry c .dead k.stackUnlocks k.irqDisableCounter := by
        simp [Kernel.entry, Kernel.setState, Kernel.lockScheduler, Kernel.unlockScheduler]
      simp only [TaskOp.exec, Kernel.procExit, hc, hentry]
      cases (k.entry c .dead _ _).schedule <;> rfl
  | ckprocA M M2 cr3 => cases hop
  | unblockTask t => cases hop
  | leaveIdle => cases hop

theorem Passing.leave {w : Kernel.SwitchFrame} (h : Passing k) (ht : k.firstThread = some t) :
    Passing (k.leave t w) := by
  obtain ⟨r, hq⟩ := h.queue
  cases r with
  | nil => simp [hq.first_none.mpr rfl] at ht
  | cons a r =>
      obtain rfl : t = a := Option.some.inj (ht.symm.trans (seg_cons.mp hq.seg).1)
      obtain ⟨hta, hts⟩ := hq.ready t List.mem_cons_self
      have htg : ¬ k.Gone t := fun hg => hg.not_ready hts
      have hI := TaskInv.handOver h.toTables htg hta w
      have hQ := hq.handOver (fun _ => rfl)
      exact ⟨⟨⟨hI.postpone, hI.flag, hI.parents, hI.corpse⟩, hI.running, fun hn => by cases hn⟩, r,
        hQ.frame rfl rfl rfl rfl rfl⟩

theorem passing_step {op : TaskOp} (h : Passing k) (hw : op.CleanWake k)
    (hs : TaskOp.step k op k') : Passing k' := by
  obtain ⟨hen, hk⟩ := hs
  obtain ⟨r, hq⟩ := h.queue
  -- the three calls of `schedule`
  have hpass : ∀ s, op.enters = some s →
      (s ≠ .running → ∀ p, k.reapWakes = some p → k.firstThread = none ∨ k.next p = none) →
      ∀ c, k.currentTaskTCB = some c → Passing k' := by
    intro s hop hclean c hc
    obtain ⟨un, n, he⟩ := exec_enters h.postpone h.flag hc (h.running c hc).2 hop
    rw [he] at hk
    cases hsch : (k.entry c s un n).schedule with
    | error e => rw [hsch] at hk; cases hk
    | ok k₁ =>
        rw [hsch] at hk
        obtain rfl := Except.ok.inj hk
        exact (pass_spec h hc hclean hsch).1.resume
  cases op with
  | ckprocA M M2 cr3 =>
      obtain ⟨hI, hQ⟩ := ckprocA_queue h.toTaskInv hq hen hk
      exact ⟨hI, _, hQ⟩
  | blockTask reason =>
      cases hc : k.currentTaskTCB with
      | none => simp [TaskOp.exec, Kernel.blockTask, hc] at hk
      | some c => exact hpass reason rfl (fun _ => hw) c hc
  | unblockTask t =>
      have hQ := hq.wake hen.1 hk
      refine ⟨h.wake hq hen.2 hk, r ++ [t], ?_⟩
      have hend : (if k.firstThread = none then none else k.next t) = none := by
        rcases hw with hf | hn
        · exact if_pos hf
        · rw [hn]
          exact ite_self none
      rwa [hend] at hQ
  | timeSlice =>
      cases hc : k.currentTaskTCB with
      | none =>
          obtain ⟨c, -, -, -, hcur, -⟩ := endTimeSlice_ok h.postpone hk
          rw [hc] at hcur
          cases hcur
      | some c => exact hpass .running rfl (fun hne => absurd rfl hne) c hc
  | procExit =>
      cases hc : k.currentTaskTCB with
      | none => simp [TaskOp.exec, Kernel.procExit, hc] at hk
      | some c => exact hpass .dead rfl (fun _ => hw) c hc
  | leaveIdle =>
      simp only [TaskOp.exec] at hk
      cases hi : k.idleTask with
      | none => simp [Kernel.leaveIdle, hi] at hk
      | some c =>
          obtain ⟨t, r', w, rfl, rfl⟩ :=
            Kernel.leaveIdle_spec h.postpone hi hq (h.idle hen c hi) hk
          exact h.leave (seg_cons.mp hq.seg).1

theorem boot_passing (junk : Kernel) (t : Tid) (cr3 : UInt64) :
    Passing (junk.initializeMultitasking t cr3) := by
  obtain ⟨hI, hr⟩ := boot_taskInv junk t cr3
  exact ⟨hI, [], hr.toQueueSeg⟩

end UnnamedOS.Proc
