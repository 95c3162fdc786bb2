import Mathlib.Data.List.Perm.Subperm
import UnnamedOS.Lib.Walk
import UnnamedOS.Proc.Switch

/-!
# Waiting lists and the handlers that wake from them

`nano_sleep_until` and `wait_for_irq` push the running task onto a list that the timer
interrupt and `unblockirq` take apart: a task that is due is woken, any other is pushed
back. The three loops differ in their list and in what makes a task due, and
`wakeLoop_spec` says what all of them do to the ready list.
-/

namespace UnnamedOS.Proc

open UnnamedOS.Lib

/-- The two global lists of blocked tasks. -/
inductive WaitList where
  | sleeping | irq

namespace Kernel

variable (k : Kernel)

def waitHead : WaitList → Option Tid
  | .sleeping => k.sleepingTaskList
  | .irq => k.irqwaiting

def setWaitHead (p : Option Tid) : WaitList → Kernel
  | .sleeping => { k with sleepingTaskList := p }
  | .irq => { k with irqwaiting := p }

/-- `task->next = list; list = task;` -/
def pushWait (t : Tid) (w : WaitList) : Kernel :=
  (k.setNext t (k.waitHead w)).setWaitHead (some t) w

/-- `1<<irq` as an `int`, converted to `uint64_t`. -/
def irqBit (irq : UInt8) : UInt64 :=
  ⟨((1 : BitVec 32) <<< (irq.toNat % 32)).signExtend 64⟩

/-- The bound of the list loops: a loop that follows and reverses a cyclic list ends, too. -/
def loopBound : Nat := 2 * k.allocated.length + 2

/-- The part of `nano_sleep_until` between the locks: false if there is nothing to wait for. -/
def nanoSleepUpdate (c : Tid) (t : UInt64) : Bool × Kernel :=
  if t < k.time then (false, k)
  else (true, { k with ttn := Function.update k.ttn c t }.pushWait c .sleeping)

/-- The part of `wait_for_irq` between the locks. -/
def waitForIrqUpdate (c : Tid) (irq : UInt8) (timeout : UInt64) (timeoutFunction : Option UInt64) :
    Bool × Kernel :=
  if k.irqscalled &&& irqBit irq ≠ 0 then
    (false, { k with irqscalled := k.irqscalled &&& ~~~ irqBit irq })
  else
    (true, { k with
      irqWaitingFor := Function.update k.irqWaitingFor c irq
      ttn := Function.update k.ttn c (if timeout = 0 then 0 else k.time + timeout)
      timeoutFunction := Function.update k.timeoutFunction c timeoutFunction }.pushWait c .irq)

/-- The body of the loop of `PIT_IRQ_handler` over `sleeping_task_list`. -/
def visitSleeper (t : Tid) : Except Halt Kernel :=
  if k.next t = some t then .error (.error .ttNt 0)
  else if k.state t ≠ .waiting then .error (.error .pitWfiMisp t)
  else if k.ttn t ≤ k.time then k.unblockTask t
  else .ok (k.pushWait t .sleeping)

/-- The body of the loop of `PIT_IRQ_handler` over `irqwaiting`. -/
def visitTimeout (t : Tid) : Except Halt Kernel :=
  if k.ttn t ≤ k.time ∧ k.ttn t ≠ 0 then
    match k.timeoutFunction t with
    | none => .error (.error .tfnttnnz t)
    | some f => { k with returnAddress := Function.update k.returnAddress t (some f) }.unblockTask t
  else .ok (k.pushWait t .irq)

/-- The body of the loop of `unblockirq`, with `haveweunblocked`. -/
def visitIrq (irq : UInt8) (s : Kernel × Bool) (t : Tid) : Except Halt (Kernel × Bool) :=
  if s.1.irqWaitingFor t = irq then
    match s.1.unblockTask t with
    | .error e => .error e
    | .ok k => .ok (k, true)
  else .ok (s.1.pushWait t .irq, s.2)

def unblockirq (irq : UInt8) : Except Halt Kernel :=
  let k := k.lockStuff
  match walk (fun s => s.1.next) (visitIrq irq) .diverges k.loopBound k.irqwaiting
      ({ k with irqwaiting := none }, false) with
  | .error e => .error e
  | .ok (k, haveweunblocked) =>
    let k := if haveweunblocked then k else { k with irqscalled := k.irqscalled ||| irqBit irq }
    k.unlockStuff

/-- The time slice part of `PIT_IRQ_handler`. -/
def tickSlice : Except Halt Kernel :=
  if k.timeSliceRemaining ≠ 0 then
    if k.timeSliceRemaining ≤ 10000000 then k.schedule
    else .ok { k with timeSliceRemaining := k.timeSliceRemaining - 10000000 }
  else .ok k

def wakeSleepers : Except Halt Kernel :=
  walk Kernel.next visitSleeper .diverges k.loopBound k.sleepingTaskList
    { k with sleepingTaskList := none }

def wakeTimeouts : Except Halt Kernel :=
  walk Kernel.next visitTimeout .diverges k.loopBound k.irqwaiting { k with irqwaiting := none }

def pitIrqHandler : Except Halt Kernel :=
  let k := k.lockStuff
  let k := { k with time := k.time + 10000000 }
  match k.wakeSleepers with
  | .error e => .error e
  | .ok k =>
    match k.wakeTimeouts with
    | .error e => .error e
    | .ok k =>
      match k.tickSlice with
      | .error e => .error e
      | .ok k => k.unlockStuff

/-- The fields that a wake-up and a push write. -/
structure Queues where
  next : Tid → Option Tid
  state : Tid → TaskState
  firstThread : Option Tid
  lastThread : Option Tid
  sleepingTaskList : Option Tid
  irqwaiting : Option Tid
  returnAddress : Tid → Option UInt64

def withQueues (Q : Queues) : Kernel :=
  { k with
    next := Q.next
    state := Q.state
    firstThread := Q.firstThread
    lastThread := Q.lastThread
    sleepingTaskList := Q.sleepingTaskList
    irqwaiting := Q.irqwaiting
    returnAddress := Q.returnAddress }

def queues : Queues :=
  ⟨k.next, k.state, k.firstThread, k.lastThread, k.sleepingTaskList, k.irqwaiting, k.returnAddress⟩

end Kernel

variable {k k' k₀ : Kernel} {r L W : List Tid} {q : Option Tid} {c t : Tid} {w : WaitList}

/-- `k'` differs from `k` in the queues alone. -/
def SameRest (k k' : Kernel) : Prop := k' = k.withQueues k'.queues

theorem SameRest.refl (k : Kernel) : SameRest k k := rfl

theorem SameRest.trans {k'' : Kernel} (h : SameRest k k') (h' : SameRest k' k'') :
    SameRest k k'' := by
  unfold SameRest at *
  rw [h', h]
  rfl

theorem SameRest.exists_queues (h : SameRest k k') : ∃ Q, k' = k.withQueues Q := ⟨k'.queues, h⟩

/-- What `unblock_task` does to a blocked task, next to a ready list `r`. -/
structure Woken (k k' : Kernel) (r : List Tid) (t : Tid) : Prop where
  rest : SameRest k k'
  queue : QueueSeg k' (r ++ [t]) (if r = [] then none else k.next t)
  state : k'.state = Function.update k.state t .ready
  next : ∀ x, x ≠ t → x ∉ r → k'.next x = k.next x
  head : ∀ w, k'.waitHead w = k.waitHead w

theorem unblockTask_woken (hq : QueueSeg k r q) (ht : t ∈ k.allocated)
    (hs : k.state t ≠ .running ∧ k.state t ≠ .ready) :
    ∃ k', k.unblockTask t = .ok k' ∧ Woken k k' r t := by
  have hqueue : ∀ k', k.unblockTask t = .ok k' →
      QueueSeg k' (r ++ [t]) (if r = [] then none else k.next t) := by
    intro k' hk
    have hw := hq.wake ht hk
    by_cases hr : r = []
    · rw [if_pos (hq.first_none.mpr hr)] at hw
      rwa [if_pos hr]
    · rw [if_neg (fun hf => hr (hq.first_none.mp hf))] at hw
      rwa [if_neg hr]
  cases hf : k.firstThread with
  | none =>
      have hk := Kernel.unblockTask_of_empty hs.1 hs.2 hf
      refine ⟨_, hk, rfl, hqueue _ hk, rfl, ?_, fun w => by cases w <;> rfl⟩
      intro x hx _
      exact Function.update_of_ne hx _ _
  | some f =>
      have hr : r ≠ [] := fun he => by simp [hq.first_none.mpr he] at hf
      obtain ⟨l, hl⟩ : ∃ l, k.lastThread = some l := by
        rw [hq.last hr]
        exact ⟨r.getLast hr, List.getLast?_eq_some_getLast hr⟩
      have hk := Kernel.unblockTask_of_last hs.1 hs.2 hf hl
      refine ⟨_, hk, rfl, hqueue _ hk, rfl, ?_, fun w => by cases w <;> rfl⟩
      intro x _ hxr
      obtain ⟨s, hrs⟩ := hq.exists_last hl hr
      have hxl : x ≠ l := fun he => hxr (by rw [hrs, he]; simp)
      exact Function.update_of_ne hxl _ _

/-- Where the ready list goes on after the tasks `W` were woken behind `r`. -/
def staleTail (k : Kernel) (r W : List Tid) (q : Option Tid) : Option Tid :=
  match W.getLast? with
  | none => q
  | some t => if r = [] ∧ W.length = 1 then none else k.next t

theorem staleTail_nil (k : Kernel) (r : List Tid) (q : Option Tid) : staleTail k r [] q = q := rfl

theorem staleTail_concat (k : Kernel) (r W : List Tid) (q : Option Tid) (t : Tid) :
    staleTail k r (W ++ [t]) q = if r ++ W = [] then none else k.next t := by
  rw [staleTail, List.getLast?_concat]
  simp

/-- A loop that wakes the due tasks of `L` and pushes the others back on the list `w`. -/
structure LoopDone (w : WaitList) (k₀ : Kernel) (r L : List Tid) (q : Option Tid)
    (due : Tid → Bool) (k : Kernel) : Prop where
  rest : SameRest k₀ k
  queue : QueueSeg k (r ++ L.filter due) (staleTail k₀ r (L.filter due) q)
  kept : Chain k.next (k.waitHead w) (L.filter fun t => !due t).reverse
  other : ∀ w', w' ≠ w → k.waitHead w' = k₀.waitHead w'
  state : ∀ x, k.state x = if x ∈ L.filter due then .ready else k₀.state x
  next : ∀ x, x ∉ L → x ∉ r → k.next x = k₀.next x

variable {σ : Type} {κ : σ → Kernel} {visit : σ → Tid → Except Halt σ} {due : Tid → Bool}

/-- What the body of such a loop does to a task `t` that is next on its list. -/
structure WakeBody (w : WaitList) (κ : σ → Kernel) (visit : σ → Tid → Except Halt σ)
    (due : Tid → Bool) (allowed : Halt → Prop) (s : σ) (t : Tid) : Prop where
  wake : due t = true → ∀ k', (κ s).unblockTask t = .ok k' →
    (∃ s' ra, visit s t = .ok s' ∧ κ s' = { k' with returnAddress := ra }) ∨
      ∃ e, visit s t = .error e ∧ allowed e
  keep : due t = false → ∃ s', visit s t = .ok s' ∧ κ s' = (κ s).pushWait t w

theorem pushWait_head (k : Kernel) (t : Tid) (w : WaitList) :
    (k.pushWait t w).waitHead w = some t := by
  cases w <;> rfl

theorem pushWait_other (k : Kernel) (t : Tid) {w w' : WaitList} (h : w' ≠ w) :
    (k.pushWait t w).waitHead w' = k.waitHead w' := by
  cases w <;> cases w' <;> first | rfl | exact absurd rfl h

theorem pushWait_next (k : Kernel) (t : Tid) (w : WaitList) :
    (k.pushWait t w).next = Function.update k.next t (k.waitHead w) := by
  cases w <;> rfl

theorem pushWait_state (k : Kernel) (t : Tid) (w : WaitList) : (k.pushWait t w).state = k.state := by
  cases w <;> rfl

theorem SameRest.pushWait (k : Kernel) (t : Tid) (w : WaitList) : SameRest k (k.pushWait t w) := by
  cases w <;> rfl

theorem QueueSeg.pushWait (h : QueueSeg k r q) (ht : t ∉ r) : QueueSeg (k.pushWait t w) r q := by
  have hseg : Seg (k.pushWait t w).next k.firstThread r q := by
    rw [pushWait_next]
    exact (seg_update_of_notMem ht).mpr h.seg
  cases w <;> exact ⟨hseg, h.nodup, h.ready, h.last, h.empty⟩

theorem filter_concat_due (L : List Tid) (h : due t = true) :
    (L ++ [t]).filter due = L.filter due ++ [t] ∧
      (L ++ [t]).filter (fun t => !due t) = L.filter (fun t => !due t) := by
  constructor <;> simp [List.filter_append, h]

theorem filter_concat_not_due (L : List Tid) (h : due t = false) :
    (L ++ [t]).filter due = L.filter due ∧
      (L ++ [t]).filter (fun t => !due t) = L.filter (fun t => !due t) ++ [t] := by
  constructor <;> simp [List.filter_append, h]

theorem LoopDone.wake {ra : Tid → Option UInt64} (hd : LoopDone w k₀ r L q due k)
    (hdue : due t = true) (htL : t ∉ L) (htr : t ∉ r) (hLr : ∀ x ∈ L, x ∉ r)
    (hw : Woken k k' (r ++ L.filter due) t) :
    LoopDone w k₀ r (L ++ [t]) q due { k' with returnAddress := ra } := by
  obtain ⟨hf, hf'⟩ := filter_concat_due L hdue
  refine ⟨(hd.rest.trans hw.rest).trans rfl, ?_, ?_, ?_, ?_, ?_⟩
  · rw [hf, staleTail_concat, ← List.append_assoc, ← hd.next t htL htr]
    exact hw.queue.frame rfl rfl rfl rfl rfl
  · rw [hf']
    have hhead : Kernel.waitHead { k' with returnAddress := ra } w = k.waitHead w := by
      rw [← hw.head w]
      cases w <;> rfl
    rw [hhead]
    refine (chain_congr fun x hx => ?_).mpr hd.kept
    rw [List.mem_reverse, List.mem_filter] at hx
    obtain ⟨hxL, hxd⟩ := hx
    refine hw.next x (fun he => htL (he ▸ hxL)) ?_
    rw [List.mem_append, List.mem_filter]
    intro hm
    rcases hm with hm | ⟨-, hm⟩
    · exact hLr x hxL hm
    · rw [hm] at hxd
      cases hxd
  · intro w' hne
    rw [← hd.other w' hne, ← hw.head w']
    cases w' <;> rfl
  · intro x
    change k'.state x = _
    rw [hf, hw.state]
    by_cases hxt : x = t
    · simp [hxt]
    · rw [Function.update_of_ne hxt, hd.state x]
      simp [hxt]
  · intro x hx hxr
    rw [List.mem_append, List.mem_singleton, not_or] at hx
    rw [← hd.next x hx.1 hxr]
    refine hw.next x hx.2 ?_
    rw [List.mem_append, not_or]
    exact ⟨hxr, fun hm => hx.1 (List.mem_of_mem_filter hm)⟩

theorem LoopDone.push (hd : LoopDone w k₀ r L q due k) (hdue : due t = false) (htL : t ∉ L)
    (htr : t ∉ r) : LoopDone w k₀ r (L ++ [t]) q due (k.pushWait t w) := by
  obtain ⟨hf, hf'⟩ := filter_concat_not_due L hdue
  have htf : t ∉ r ++ L.filter due := by
    rw [List.mem_append, not_or]
    exact ⟨htr, fun hm => htL (List.mem_of_mem_filter hm)⟩
  refine ⟨hd.rest.trans (SameRest.pushWait k t w), ?_, ?_, ?_, ?_, ?_⟩
  · rw [hf]
    exact hd.queue.pushWait htf
  · have hkept : t ∉ (L.filter fun t => !due t).reverse :=
      fun hm => htL (List.mem_of_mem_filter (List.mem_reverse.mp hm))
    rw [hf', List.reverse_concat, pushWait_head, pushWait_next]
    refine chain_cons.mpr ⟨rfl, ?_⟩
    rw [Function.update_self]
    exact (chain_update_of_notMem hkept).mpr hd.kept
  · intro w' hne
    rw [pushWait_other k t hne]
    exact hd.other w' hne
  · intro x
    rw [pushWait_state, hf]
    exact hd.state x
  · intro x hx hxr
    rw [List.mem_append, List.mem_singleton, not_or] at hx
    rw [pushWait_next, Function.update_of_ne hx.2]
    exact hd.next x hx.1 hxr

/-- The invariant of the loops, with the tasks visited and those still to come. -/
def LoopInv (w : WaitList) (κ : σ → Kernel) (k₀ : Kernel) (r L : List Tid) (q : Option Tid)
    (due : Tid → Bool) (seen : List Tid → σ → Prop) (done rest : List Tid) (s : σ) : Prop :=
  done ++ rest = L ∧ LoopDone w k₀ r done q due (κ s) ∧ seen done s

/-- One round of such a loop. -/
theorem loopInv_step {allowed : Halt → Prop} {seen : List Tid → σ → Prop} (hr : ∀ t ∈ L, t ∉ r)
    (hnd : L.Nodup)
    (hL : ∀ t ∈ L, t ∈ k₀.allocated ∧ k₀.state t ≠ .running ∧ k₀.state t ≠ .ready)
    (hbody : ∀ s t, t ∈ L → SameRest k₀ (κ s) → (κ s).state t = k₀.state t →
      (κ s).next t = k₀.next t → WakeBody w κ visit due allowed s t)
    (hvisit : ∀ done s t s', SameRest k₀ (κ s) → seen done s → visit s t = .ok s' →
      seen (done ++ [t]) s')
    (done : List Tid) (t : Tid) (rest : List Tid) (s : σ)
    (hinv : LoopInv w κ k₀ r L q due seen done (t :: rest) s) :
    (∃ s', visit s t = .ok s' ∧ LoopInv w κ k₀ r L q due seen (done ++ [t]) rest s' ∧
      ∀ x ∈ rest, (κ s').next x = (κ s).next x) ∨ ∃ e, visit s t = .error e ∧ allowed e := by
  obtain ⟨hsplit, hd, hseen⟩ := hinv
  have hmem : ∀ x, x ∈ done ∨ x = t ∨ x ∈ rest → x ∈ L := by
    intro x hx
    rw [← hsplit]
    simpa using hx
  have htL : t ∈ L := hmem t (Or.inr (Or.inl rfl))
  obtain ⟨hnd1, hnd2, hdisj⟩ := List.nodup_append.mp (hsplit ▸ hnd)
  have htd : t ∉ done := fun hm => hdisj t hm t List.mem_cons_self rfl
  have htrest : t ∉ rest := (List.nodup_cons.mp hnd2).1
  have hfil : ∀ x, x ∉ done → x ∉ done.filter due := fun x hx hm => hx (List.mem_of_mem_filter hm)
  have hst : (κ s).state t = k₀.state t := by rw [hd.state, if_neg (hfil t htd)]
  have hbt := hbody s t htL hd.rest hst (hd.next t htd (hr t htL))
  have hassoc : done ++ [t] ++ rest = L := by rw [← hsplit]; simp
  have hal : (κ s).allocated = k₀.allocated := by rw [hd.rest]; rfl
  cases hdue : due t with
  | true =>
      have hsW : (κ s).state t ≠ .running ∧ (κ s).state t ≠ .ready := by
        rw [hst]
        exact (hL t htL).2
      obtain ⟨k', hk', hw⟩ := unblockTask_woken hd.queue (hal ▸ (hL t htL).1) hsW
      rcases hbt.wake hdue k' hk' with ⟨s', ra, hv, hκ⟩ | herr
      · refine Or.inl ⟨s', hv, ⟨hassoc, ?_, hvisit done s t s' hd.rest hseen hv⟩, ?_⟩
        · rw [hκ]
          exact hd.wake hdue htd (hr t htL) (fun x hx => hr x (hmem x (Or.inl hx))) hw
        · intro x hx
          have hxL : x ∈ L := hmem x (Or.inr (Or.inr hx))
          have hxd : x ∉ done := fun hm => hdisj x hm x (List.mem_cons_of_mem t hx) rfl
          rw [hκ]
          refine hw.next x (fun he => htrest (he ▸ hx)) ?_
          rw [List.mem_append, not_or]
          exact ⟨hr x hxL, hfil x hxd⟩
      · exact Or.inr herr
  | false =>
      obtain ⟨s', hv, hκ⟩ := hbt.keep hdue
      refine Or.inl ⟨s', hv, ⟨hassoc, ?_, hvisit done s t s' hd.rest hseen hv⟩, ?_⟩
      · rw [hκ]
        exact hd.push hdue htd (hr t htL)
      · intro x hx
        have hxt : x ≠ t := fun he => htrest (he ▸ hx)
        rw [hκ, pushWait_next]
        exact Function.update_of_ne hxt _ _

/-- The proof rule of the three loops: the list `L` holds blocked tasks, none of them ready. A
property `seen` of the tasks visited may go with the loop. -/
theorem wakeLoop_spec {allowed : Halt → Prop} {n : Nat} (s₀ : σ) (seen : List Tid → σ → Prop)
    {p : Option Tid} (hseen : seen [] s₀)
    (hvisit : ∀ done s t s', SameRest (κ s₀) (κ s) → seen done s → visit s t = .ok s' →
      seen (done ++ [t]) s')
    (hq : QueueSeg (κ s₀) r q) (hnd : L.Nodup) (hlen : L.length ≤ n)
    (hchain : Chain (κ s₀).next p L) (hempty : (κ s₀).waitHead w = none)
    (hL : ∀ t ∈ L, t ∈ (κ s₀).allocated ∧ (κ s₀).state t ≠ .running ∧ (κ s₀).state t ≠ .ready)
    (hbody : ∀ s t, t ∈ L → SameRest (κ s₀) (κ s) → (κ s).state t = (κ s₀).state t →
      (κ s).next t = (κ s₀).next t → WakeBody w κ visit due allowed s t) :
    (∃ s, walk (fun s => (κ s).next) visit .diverges n p s₀ = .ok s ∧
      LoopDone w (κ s₀) r L q due (κ s) ∧ seen L s) ∨
    ∃ e, walk (fun s => (κ s).next) visit .diverges n p s₀ = .error e ∧ allowed e := by
  have hr : ∀ t ∈ L, t ∉ r := fun t ht => hq.not_mem (hL t ht).2.2
  have hstart : LoopInv w κ (κ s₀) r L q due seen [] L s₀ := by
    refine ⟨rfl, ⟨SameRest.refl _, ?_, chain_nil.mpr hempty, fun _ _ => rfl, fun x => ?_,
      fun _ _ _ => rfl⟩, hseen⟩
    · rw [List.filter_nil, List.append_nil, staleTail_nil]
      exact hq
    · rw [List.filter_nil, if_neg List.not_mem_nil]
  rcases walk_rule (loopInv_step hr hnd hL hbody hvisit) L [] p s₀ n hchain hlen hstart with
    ⟨s, hs, -, hd, hsL⟩ | herr
  · exact Or.inl ⟨s, hs, hd, hsL⟩
  · exact Or.inr herr

/-- The ready list and the two lists of blocked tasks. The last task put to sleep may still be
running. -/
structure QueueLists (k : Kernel) (r : List Tid) (q : Option Tid) (sl il : List Tid) : Prop where
  ready : QueueSeg k r q
  sleepers : Chain k.next k.sleepingTaskList sl
  irqs : Chain k.next k.irqwaiting il
  waiting : ∀ t ∈ il, t ∈ k.allocated ∧ k.state t = .waitingForIrq
  apart : ∀ t ∈ sl, t ∉ r ∧ t ∉ il

structure WaitLists (k : Kernel) (r : List Tid) (q : Option Tid) (sl il : List Tid) : Prop
    extends QueueLists k r q sl il where
  sleeping : ∀ t ∈ sl, t ∈ k.allocated ∧ k.state t = .waiting

theorem length_le_loopBound (hnd : L.Nodup) (hL : ∀ t ∈ L, t ∈ k.allocated) :
    L.length ≤ k.loopBound := by
  have hlen := (List.subperm_of_subset hnd hL).length_le
  unfold Kernel.loopBound
  omega

/-- A sleeper that the timer interrupt at `TIME` wakes. -/
def dueSleeper (k : Kernel) (t : Tid) : Bool := decide (k.ttn t ≤ k.time)

/-- A task waiting for an interrupt whose timeout has passed at `TIME`. -/
def dueTimeout (k : Kernel) (t : Tid) : Bool := decide (k.ttn t ≤ k.time ∧ k.ttn t ≠ 0)

/-- The tasks that one timer interrupt wakes, in order. -/
def timerWakes (k : Kernel) (sl il : List Tid) : List Tid :=
  sl.filter (dueSleeper k) ++ il.filter (dueTimeout k)

theorem next_ne_self {p : Option Tid} (h : Chain k.next p L) (ht : t ∈ L) : k.next t ≠ some t := by
  intro he
  obtain ⟨L₁, L₂, rfl⟩ := List.append_of_mem ht
  have h₂ := chain_suffix h
  rw [he] at h₂
  obtain ⟨L₃, rfl, -⟩ := chain_some.mp h₂
  have hnd := chain_nodup h
  exact (List.nodup_cons.mp (List.nodup_append.mp hnd).2.1).1 List.mem_cons_self

theorem wakeSleepers_spec (h : WaitLists k r q L W) : ∃ k', k.wakeSleepers = .ok k' ∧
    LoopDone .sleeping { k with sleepingTaskList := none } r L q (dueSleeper k) k' := by
  have hbody : ∀ s t, t ∈ L → SameRest { k with sleepingTaskList := none } s →
      s.state t = k.state t → s.next t = k.next t →
      WakeBody .sleeping id Kernel.visitSleeper (dueSleeper k) (fun _ => False) s t := by
    intro s t ht hrest hst hnt
    have hn : s.next t ≠ some t := by
      rw [hnt]
      exact next_ne_self h.sleepers ht
    have hw : ¬ s.state t ≠ .waiting := by
      rw [hst]
      exact not_not.mpr (h.sleeping t ht).2
    have hcond : s.ttn t ≤ s.time ↔ dueSleeper k t = true := by
      rw [hrest]
      exact (decide_eq_true_iff).symm
    constructor
    · intro hdue k' hk'
      refine Or.inl ⟨k', k'.returnAddress, ?_, rfl⟩
      rw [Kernel.visitSleeper, if_neg hn, if_neg hw, if_pos (hcond.mpr hdue)]
      exact hk'
    · intro hdue
      have hnot : ¬ s.ttn t ≤ s.time := fun hle => by
        rw [hcond.mp hle] at hdue
        cases hdue
      refine ⟨s.pushWait t .sleeping, ?_, rfl⟩
      rw [Kernel.visitSleeper, if_neg hn, if_neg hw, if_neg hnot]
  have hnd := chain_nodup h.sleepers
  have hspec := wakeLoop_spec (κ := id) (w := .sleeping) { k with sleepingTaskList := none }
    (fun _ _ => True) trivial (fun _ _ _ _ _ _ _ => trivial) (h.ready.frame rfl rfl rfl rfl rfl) hnd
    (length_le_loopBound (k := k) hnd fun t ht => (h.sleeping t ht).1)
    h.sleepers rfl (fun t ht => ⟨(h.sleeping t ht).1, by simp [(h.sleeping t ht).2]⟩) hbody
  rcases hspec with ⟨k', hk', hd, -⟩ | ⟨e, -, he⟩
  · exact ⟨k', hk', hd⟩
  · exact he.elim

theorem wakeTimeouts_spec (hq : QueueSeg k r q) (hc : Chain k.next k.irqwaiting L)
    (hL : ∀ t ∈ L, t ∈ k.allocated ∧ k.state t = .waitingForIrq) :
    (∃ k', k.wakeTimeouts = .ok k' ∧
      LoopDone .irq { k with irqwaiting := none } r L q (dueTimeout k) k') ∨
    ∃ t ∈ L, dueTimeout k t = true ∧ k.timeoutFunction t = none ∧
      k.wakeTimeouts = .error (.error .tfnttnnz t) := by
  have hbody : ∀ s t, t ∈ L → SameRest { k with irqwaiting := none } s →
      s.state t = k.state t → s.next t = k.next t →
      WakeBody .irq id Kernel.visitTimeout (dueTimeout k)
        (fun e => ∃ t ∈ L, dueTimeout k t = true ∧ k.timeoutFunction t = none ∧
          e = .error .tfnttnnz t) s t := by
    intro s t ht hrest hst hnt
    have hcond : (s.ttn t ≤ s.time ∧ s.ttn t ≠ 0) ↔ dueTimeout k t = true := by
      rw [hrest]
      exact (decide_eq_true_iff).symm
    constructor
    · intro hdue k' hk'
      cases hf : s.timeoutFunction t with
      | none =>
          have hnone : k.timeoutFunction t = none := by
            rw [hrest] at hf
            exact hf
          refine Or.inr ⟨_, ?_, t, ht, hdue, hnone, rfl⟩
          rw [Kernel.visitTimeout, if_pos (hcond.mpr hdue), hf]
      | some f =>
          have hs : s.state t ≠ .running ∧ s.state t ≠ .ready := by
            rw [hst, (hL t ht).2]
            simp
          refine Or.inl ⟨{ k' with returnAddress := Function.update s.returnAddress t (some f) },
            Function.update s.returnAddress t (some f), ?_, rfl⟩
          rw [Kernel.visitTimeout, if_pos (hcond.mpr hdue), hf]
          obtain ⟨-, -, ⟨hfirst, he⟩ | ⟨a, l, hfirst, hlast, he⟩⟩ := Kernel.unblockTask_ok hk'
          · simp only
            rw [Kernel.unblockTask_of_empty]
            · rw [he]
              rfl
            · exact hs.1
            · exact hs.2
            · exact hfirst
          · simp only
            rw [Kernel.unblockTask_of_last (f := a) (l := l)]
            · rw [he]
              rfl
            · exact hs.1
            · exact hs.2
            · exact hfirst
            · exact hlast
    · intro hdue
      have hnot : ¬ (s.ttn t ≤ s.time ∧ s.ttn t ≠ 0) := fun hle => by
        rw [hcond.mp hle] at hdue
        cases hdue
      refine ⟨s.pushWait t .irq, ?_, rfl⟩
      rw [Kernel.visitTimeout, if_neg hnot]
  have hnd := chain_nodup hc
  have hspec := wakeLoop_spec (κ := id) (w := .irq) { k with irqwaiting := none }
    (fun _ _ => True) trivial (fun _ _ _ _ _ _ _ => trivial) (hq.frame rfl rfl rfl rfl rfl) hnd
    (length_le_loopBound (k := k) hnd fun t ht => (hL t ht).1)
    hc rfl (fun t ht => ⟨(hL t ht).1, by simp [(hL t ht).2]⟩) hbody
  rcases hspec with ⟨k', hk', hd, -⟩ | ⟨e, hk', t, ht, hdue, hf, rfl⟩
  · exact Or.inl ⟨k', hk', hd⟩
  · exact Or.inr ⟨t, ht, hdue, hf, hk'⟩

/-- A handler has woken the tasks `W` and left the lists `sl` and `il`. -/
structure WakesDone (k : Kernel) (r : List Tid) (q : Option Tid) (sl il W sl' il' : List Tid)
    (k' : Kernel) : Prop where
  rest : SameRest k k'
  queue : QueueSeg k' (r ++ W) (staleTail k r W q)
  sleepers : Chain k'.next k'.sleepingTaskList sl'
  irqs : Chain k'.next k'.irqwaiting il'
  state : ∀ x, k'.state x = if x ∈ W then .ready else k.state x
  next : ∀ x, x ∉ r → x ∉ sl → x ∉ il → k'.next x = k.next x

namespace QueueLists

variable {sl il : List Tid}

theorem irq_not_ready (h : QueueLists k r q sl il) (ht : t ∈ il) : t ∉ r :=
  h.ready.not_mem (by simp [(h.waiting t ht).2])

theorem irq_not_sleeper (h : QueueLists k r q sl il) (ht : t ∈ il) : t ∉ sl :=
  fun hs => (h.apart t hs).2 ht

theorem frame (h : QueueLists k r q sl il) (hn : k'.next = k.next)
    (hf : k'.firstThread = k.firstThread) (hl : k'.lastThread = k.lastThread)
    (hs : k'.state = k.state) (ha : k'.allocated = k.allocated)
    (hsl : k'.sleepingTaskList = k.sleepingTaskList) (hil : k'.irqwaiting = k.irqwaiting) :
    QueueLists k' r q sl il := by
  refine ⟨h.ready.frame hn hf hl hs ha, ?_, ?_, ?_, h.apart⟩
  · rw [hn, hsl]
    exact h.sleepers
  · rw [hn, hil]
    exact h.irqs
  · rw [hs, ha]
    exact h.waiting

end QueueLists

theorem staleTail_append {W₁ W₂ : List Tid} (hnext : ∀ t ∈ W₂, k'.next t = k.next t) :
    staleTail k' (r ++ W₁) W₂ (staleTail k r W₁ q) = staleTail k r (W₁ ++ W₂) q := by
  rcases List.eq_nil_or_concat W₂ with rfl | ⟨W, t, rfl⟩
  · rw [staleTail_nil, List.append_nil]
  · rw [List.concat_eq_append, ← List.append_assoc, staleTail_concat, staleTail_concat,
      hnext t (by simp), List.append_assoc]

/-- The two loops of `PIT_IRQ_handler`. -/
theorem timerWakes_spec {sl il : List Tid} (h : WaitLists k r q sl il) :
    ∃ k₁, k.wakeSleepers = .ok k₁ ∧
      ((∃ k₂, k₁.wakeTimeouts = .ok k₂ ∧
        WakesDone k r q sl il (timerWakes k sl il) (sl.filter fun t => !dueSleeper k t).reverse
          (il.filter fun t => !dueTimeout k t).reverse k₂) ∨
      ∃ t ∈ il, dueTimeout k t = true ∧ k.timeoutFunction t = none ∧
        k₁.wakeTimeouts = .error (.error .tfnttnnz t)) := by
  obtain ⟨k₁, hk₁, hd₁⟩ := wakeSleepers_spec h
  refine ⟨k₁, hk₁, ?_⟩
  have hrest₁ : SameRest k k₁ :=
    (show SameRest k { k with sleepingTaskList := none } from rfl).trans hd₁.rest
  have hil : ∀ x ∈ il, x ∉ r ∧ x ∉ sl :=
    fun x hx => ⟨h.irq_not_ready hx, h.irq_not_sleeper hx⟩
  have hnext₁ : ∀ x ∈ il, k₁.next x = k.next x :=
    fun x hx => hd₁.next x (hil x hx).2 (hil x hx).1
  have hirqs : Chain k₁.next k₁.irqwaiting il := by
    have hhead : k₁.irqwaiting = k.irqwaiting := hd₁.other .irq (by simp)
    rw [hhead]
    exact (chain_congr hnext₁).mpr h.irqs
  have hstate₁ : ∀ x ∈ il, x ∈ k₁.allocated ∧ k₁.state x = .waitingForIrq := by
    intro x hx
    have hal : k₁.allocated = k.allocated := by rw [hrest₁]; rfl
    have hxf : x ∉ sl.filter (dueSleeper k) := fun hm => (hil x hx).2 (List.mem_of_mem_filter hm)
    rw [hal, hd₁.state x, if_neg hxf]
    exact h.waiting x hx
  have hdue : dueTimeout k₁ = dueTimeout k := by
    funext x
    rw [hrest₁]
    rfl
  rcases wakeTimeouts_spec hd₁.queue hirqs hstate₁ with ⟨k₂, hk₂, hd₂⟩ | ⟨t, ht, hdt, hft, hk₂⟩
  · rw [hdue] at hd₂
    refine Or.inl ⟨k₂, hk₂, ?_⟩
    have hrest₂ : SameRest k k₂ :=
      hrest₁.trans ((show SameRest k₁ { k₁ with irqwaiting := none } from rfl).trans hd₂.rest)
    refine ⟨hrest₂, ?_, ?_, ?_, ?_, ?_⟩
    · have hst : staleTail { k₁ with irqwaiting := none } (r ++ sl.filter (dueSleeper k))
          (il.filter (dueTimeout k)) (staleTail { k with sleepingTaskList := none } r
            (sl.filter (dueSleeper k)) q) = staleTail k r (timerWakes k sl il) q :=
        staleTail_append fun t ht => hnext₁ t (List.mem_of_mem_filter ht)
      rw [timerWakes, ← List.append_assoc, ← timerWakes, ← hst]
      exact hd₂.queue
    · have hhead : k₂.sleepingTaskList = k₁.sleepingTaskList := hd₂.other .sleeping (by simp)
      rw [hhead]
      refine (chain_congr fun x hx => ?_).mpr hd₁.kept
      have hxs : x ∈ sl := List.mem_of_mem_filter (List.mem_reverse.mp hx)
      have hxd := (List.mem_filter.mp (List.mem_reverse.mp hx)).2
      refine hd₂.next x (fun hm => (hil x hm).2 hxs) ?_
      rw [List.mem_append, not_or]
      refine ⟨(h.apart x hxs).1, fun hm => ?_⟩
      rw [(List.mem_filter.mp hm).2] at hxd
      cases hxd
    · exact hd₂.kept
    · intro x
      have h₂ := hd₂.state x
      change k₂.state x = if _ then _ else k₁.state x at h₂
      rw [h₂, hd₁.state x, timerWakes]
      by_cases h1 : x ∈ il.filter (dueTimeout k) <;>
        by_cases h2 : x ∈ sl.filter (dueSleeper k) <;> simp [h1, h2]
    · intro x hxr hxs hxi
      have hxf : x ∉ r ++ sl.filter (dueSleeper k) := by
        rw [List.mem_append, not_or]
        exact ⟨hxr, fun hm => hxs (List.mem_of_mem_filter hm)⟩
      exact (hd₂.next x hxi hxf).trans (hd₁.next x hxs hxr)
  · rw [hdue] at hdt
    rw [hrest₁] at hft
    exact Or.inr ⟨t, ht, hdt, hft, hk₂⟩

namespace Kernel

/-- The state in which the loops of `PIT_IRQ_handler` run. -/
def enterTimer (k : Kernel) : Kernel := { k.lockStuff with time := k.time + 10000000 }

/-- A handler releases its locks without a switch. -/
def release (k : Kernel) (slice irqs : UInt64) : Kernel :=
  { k with
    postponeTaskSwitchesCounter := 0
    irqDisableCounter := k.irqDisableCounter - 1
    timeSliceRemaining := slice
    irqscalled := irqs }

/-- A handler is about to make the switch it has put off. -/
def beforeSwitch (k : Kernel) : Kernel :=
  { k with postponeTaskSwitchesCounter := 0, taskSwitchesPostponedFlag := false }

/-- The next timer interrupt ends the time slice. -/
def SliceEnds (k : Kernel) : Prop := k.timeSliceRemaining ≠ 0 ∧ k.timeSliceRemaining ≤ 10000000

/-- A task of `irqwaiting` that `unblockirq(irq)` wakes. -/
def waitsFor (k : Kernel) (irq : UInt8) (t : Tid) : Bool := decide (k.irqWaitingFor t = irq)

end Kernel

section Handlers

variable {sl il : List Tid} {irq : UInt8}

theorem visitIrq_flag {s s' : Kernel × Bool} (hv : Kernel.visitIrq irq s t = .ok s') :
    s'.2 = (s.2 || decide (s.1.irqWaitingFor t = irq)) := by
  unfold Kernel.visitIrq at hv
  split at hv
  · rename_i hw
    split at hv
    · cases hv
    · cases hv
      simp [hw]
  · rename_i hw
    cases hv
    simp [hw]

theorem irqLoop_spec (irq : UInt8) (h : QueueLists k r q sl il) :
    ∃ s, walk (fun s : Kernel × Bool => s.1.next) (Kernel.visitIrq irq) .diverges k.loopBound
        k.irqwaiting ({ k with irqwaiting := none }, false) = .ok s ∧
      WakesDone k r q sl il (il.filter (k.waitsFor irq)) sl
        (il.filter fun t => !k.waitsFor irq t).reverse s.1 ∧ s.2 = il.any (k.waitsFor irq) := by
  have hbody : ∀ (s : Kernel × Bool) t, t ∈ il → SameRest { k with irqwaiting := none } s.1 →
      s.1.state t = k.state t → s.1.next t = k.next t →
      WakeBody .irq Prod.fst (Kernel.visitIrq irq) (k.waitsFor irq) (fun _ => False) s t := by
    intro s t _ hrest _ _
    have hcond : s.1.irqWaitingFor t = irq ↔ k.waitsFor irq t = true := by
      rw [hrest]
      exact (decide_eq_true_iff).symm
    constructor
    · intro hdue k' hk'
      refine Or.inl ⟨(k', true), k'.returnAddress, ?_, rfl⟩
      rw [Kernel.visitIrq, if_pos (hcond.mpr hdue), hk']
    · intro hdue
      have hnot : ¬ s.1.irqWaitingFor t = irq := fun he => by
        rw [hcond.mp he] at hdue
        cases hdue
      refine ⟨(s.1.pushWait t .irq, s.2), ?_, rfl⟩
      rw [Kernel.visitIrq, if_neg hnot]
  have hseen : ∀ (done : List Tid) (s : Kernel × Bool) t s',
      SameRest { k with irqwaiting := none } s.1 → s.2 = done.any (k.waitsFor irq) →
      Kernel.visitIrq irq s t = .ok s' → s'.2 = (done ++ [t]).any (k.waitsFor irq) := by
    intro done s t s' hrest hs hv
    have hw : s.1.irqWaitingFor = k.irqWaitingFor := by
      rw [hrest]
      rfl
    rw [visitIrq_flag hv, hs, List.any_append, hw]
    simp [Kernel.waitsFor]
  have hnd := chain_nodup h.irqs
  have hspec := wakeLoop_spec (κ := Prod.fst) (w := .irq)
    (({ k with irqwaiting := none }, false) : Kernel × Bool)
    (fun done s => s.2 = done.any (k.waitsFor irq)) rfl hseen
    (h.ready.frame rfl rfl rfl rfl rfl) hnd
    (length_le_loopBound (k := k) hnd fun t ht => (h.waiting t ht).1)
    h.irqs rfl (fun t ht => ⟨(h.waiting t ht).1, by simp [(h.waiting t ht).2]⟩) hbody
  rcases hspec with ⟨s, hs, hd, hflag⟩ | ⟨e, -, he⟩
  · refine ⟨s, hs, ⟨(show SameRest k { k with irqwaiting := none } from rfl).trans hd.rest,
      hd.queue, ?_, hd.kept, hd.state, ?_⟩, hflag⟩
    · have hhead : s.1.sleepingTaskList = k.sleepingTaskList := hd.other .sleeping (by simp)
      rw [hhead]
      refine (chain_congr fun x hx => ?_).mpr h.sleepers
      exact hd.next x (fun hi => h.irq_not_sleeper hi hx) (h.apart x hx).1
    · intro x hxr _ hxi
      exact hd.next x hxi hxr
  · exact he.elim

/-- What the loops of a handler leave of the locks, the slice and the current task. -/
structure InHandler (k k₂ : Kernel) : Prop where
  postpone : k₂.postponeTaskSwitchesCounter = 1
  flag : k₂.taskSwitchesPostponedFlag = false
  slice : k₂.timeSliceRemaining = k.timeSliceRemaining
  irqs : k₂.irqscalled = k.irqscalled
  current : k₂.currentTaskTCB = k.currentTaskTCB
  dead : k₂.deadTasks = k.deadTasks

theorem InHandler.of_sameRest {k₂ : Kernel} (h : InHandler k k') (hrest : SameRest k' k₂) :
    InHandler k k₂ := by
  obtain ⟨Q, rfl⟩ := hrest.exists_queues
  exact ⟨h.postpone, h.flag, h.slice, h.irqs, h.current, h.dead⟩

theorem inHandler_lockStuff (hp : k.postponeTaskSwitchesCounter = 0)
    (hf : k.taskSwitchesPostponedFlag = false) : InHandler k k.lockStuff :=
  ⟨by rw [Kernel.lockStuff, hp]; rfl, hf, rfl, rfl, rfl, rfl⟩

/-- `unblockirq` wakes the tasks that wait for the interrupt and switches to nobody. An
interrupt that nobody waits for is remembered. -/
theorem unblockirq_spec (irq : UInt8) (h : QueueLists k r q sl il)
    (hp : k.postponeTaskSwitchesCounter = 0)
    (hf : k.taskSwitchesPostponedFlag = false) :
    ∃ k₂ irqs, k.unblockirq irq = .ok (k₂.release k.timeSliceRemaining irqs) ∧
      irqs = (if il.any (k.waitsFor irq) then k.irqscalled
        else k.irqscalled ||| Kernel.irqBit irq) ∧
      WakesDone k.lockStuff r q sl il (il.filter (k.waitsFor irq)) sl
        (il.filter fun t => !k.waitsFor irq t).reverse k₂ := by
  have h₁ : QueueLists k.lockStuff r q sl il := h.frame rfl rfl rfl rfl rfl rfl rfl
  obtain ⟨⟨k₂, woken⟩, hwalk, hd, hwoken⟩ := irqLoop_spec irq h₁
  have hin : InHandler k k₂ := (inHandler_lockStuff hp hf).of_sameRest hd.rest
  refine ⟨k₂, if woken then k₂.irqscalled else k₂.irqscalled ||| Kernel.irqBit irq, ?_, ?_, hd⟩
  · rw [Kernel.unblockirq]
    simp only [hwalk]
    rw [Kernel.unlockStuff_plain]
    · rw [Kernel.release, ← hin.slice]
      cases woken <;> rfl
    · cases woken <;> exact hin.postpone
    · cases woken <;> exact hin.flag
  · change woken = _ at hwoken
    rw [hin.irqs, hwoken]
    rfl

/-- `PIT_IRQ_handler` behind its first loop. -/
theorem pitIrqHandler_eq {k₁ : Kernel} (hk₁ : k.enterTimer.wakeSleepers = .ok k₁) :
    k.pitIrqHandler = match k₁.wakeTimeouts with
      | .error e => .error e
      | .ok k => match k.tickSlice with
        | .error e => .error e
        | .ok k => k.unlockStuff := by
  rw [Kernel.pitIrqHandler]
  change (match k.enterTimer.wakeSleepers with | .error e => _ | .ok k => _) = _
  rw [hk₁]

/-- The end of `PIT_IRQ_handler` within a time slice. -/
theorem InHandler.goes_on {k₂ : Kernel} (h : InHandler k k₂) (hends : ¬ k.SliceEnds)
    (hidle : k.currentTaskTCB = none → k.timeSliceRemaining = 0) :
    ∃ slice k₃, (k.currentTaskTCB = none → slice = 0) ∧ k₂.tickSlice = .ok k₃ ∧
      k₃.unlockStuff = .ok (k₂.release slice k.irqscalled) := by
  by_cases hz : k.timeSliceRemaining = 0
  · refine ⟨0, k₂, fun _ => rfl, ?_, ?_⟩
    · rw [Kernel.tickSlice, if_neg (by rw [h.slice]; exact not_not.mpr hz)]
    · rw [Kernel.unlockStuff_plain h.postpone h.flag, Kernel.release, ← h.irqs, ← hz, ← h.slice]
      rfl
  · have hgt : ¬ k.timeSliceRemaining ≤ 10000000 := fun hle => hends ⟨hz, hle⟩
    refine ⟨k.timeSliceRemaining - 10000000,
      { k₂ with timeSliceRemaining := k₂.timeSliceRemaining - 10000000 },
      fun hn => absurd (hidle hn) hz, ?_, ?_⟩
    · rw [Kernel.tickSlice, if_pos (by rw [h.slice]; exact hz), if_neg (by rw [h.slice]; exact hgt)]
    · rw [Kernel.unlockStuff_plain]
      · rw [Kernel.release, ← h.irqs, ← h.slice]
        rfl
      · exact h.postpone
      · exact h.flag

/-- The end of `PIT_IRQ_handler` when the slice of a task is over. -/
theorem InHandler.switches {k₂ : Kernel} {r' : List Tid} {q' : Option Tid} (h : InHandler k k₂)
    (hends : k.SliceEnds) (hc : k.currentTaskTCB = some c) (hd : k.deadTasks = none)
    (hrun : k₂.state c = .running) (hq : QueueSeg k₂ r' q') :
    ∃ k₃, k₂.tickSlice = .ok k₃ ∧
      ((r' = [] ∧ k₃.unlockStuff = .ok (k₂.beforeSwitch.stay c)) ∨
        ∃ t r'' l w, r' = t :: r'' ∧ k₂.lastThread = some l ∧
          k₃.unlockStuff = .ok (k₂.beforeSwitch.rotate c l t w)) := by
  have hc₂ : k₂.currentTaskTCB = some c := h.current.trans hc
  refine ⟨{ k₂ with taskSwitchesPostponedFlag := true }, ?_, ?_⟩
  · rw [Kernel.tickSlice, if_pos (by rw [h.slice]; exact hends.1),
      if_pos (by rw [h.slice]; exact hends.2)]
    exact Kernel.schedule_postponed (by rw [h.postpone]; decide)
  · have hunlock : { k₂ with taskSwitchesPostponedFlag := true }.unlockStuff =
        k₂.beforeSwitch.scheduleThenUnlock :=
      Kernel.unlockStuff_switch (k := { k₂ with taskSwitchesPostponedFlag := true }) (c := c)
        h.postpone rfl hc₂
    have hq₂ : QueueSeg k₂.beforeSwitch r' q' := hq.frame rfl rfl rfl rfl rfl
    rw [hunlock]
    exact Kernel.scheduleThenUnlock_running rfl (h.dead.trans hd) hc₂ hrun hq₂

/-- `PIT_IRQ_handler` wakes the due tasks and, at the end of a time slice, switches. -/
theorem pitIrqHandler_spec (h : WaitLists k r q sl il) (hp : k.postponeTaskSwitchesCounter = 0)
    (hf : k.taskSwitchesPostponedFlag = false) (hd : k.currentTaskTCB ≠ none → k.deadTasks = none)
    (hcur : ∀ c, k.currentTaskTCB = some c → k.state c = .running ∧ c ∉ sl ∧ c ∉ il)
    (hidle : k.currentTaskTCB = none → k.timeSliceRemaining = 0) :
    (∃ k₂, WakesDone k.enterTimer r q sl il (timerWakes k.enterTimer sl il)
        (sl.filter fun t => !dueSleeper k.enterTimer t).reverse
        (il.filter fun t => !dueTimeout k.enterTimer t).reverse k₂ ∧
      ((¬ k.SliceEnds ∧ ∃ slice, (k.currentTaskTCB = none → slice = 0) ∧
          k.pitIrqHandler = .ok (k₂.release slice k.irqscalled)) ∨
        (k.SliceEnds ∧ ∃ c, k.currentTaskTCB = some c ∧
          ((r ++ timerWakes k.enterTimer sl il = [] ∧
              k.pitIrqHandler = .ok (k₂.beforeSwitch.stay c)) ∨
            ∃ t r' l w, r ++ timerWakes k.enterTimer sl il = t :: r' ∧ k₂.lastThread = some l ∧
              k.pitIrqHandler = .ok (k₂.beforeSwitch.rotate c l t w))))) ∨
    ∃ t, k.pitIrqHandler = .error (.error .tfnttnnz t) := by
  have h₁ : WaitLists k.enterTimer r q sl il :=
    ⟨h.toQueueLists.frame rfl rfl rfl rfl rfl rfl rfl, h.sleeping⟩
  obtain ⟨k₁, hk₁, ⟨k₂, hk₂, hw⟩ | ⟨t, -, -, -, hk₂⟩⟩ := timerWakes_spec h₁
  · have hlocked := inHandler_lockStuff hp hf
    have henter : InHandler k k.enterTimer :=
      ⟨hlocked.postpone, hlocked.flag, hlocked.slice, hlocked.irqs, hlocked.current, hlocked.dead⟩
    have hin := henter.of_sameRest hw.rest
    have hpit := pitIrqHandler_eq hk₁
    simp only [hk₂] at hpit
    refine Or.inl ⟨k₂, hw, ?_⟩
    by_cases hends : k.SliceEnds
    · obtain ⟨c, hc⟩ : ∃ c, k.currentTaskTCB = some c :=
        Option.ne_none_iff_exists'.mp fun hn => hends.1 (hidle hn)
      obtain ⟨hrun, hcs, hci⟩ := hcur c hc
      have hrun₂ : k₂.state c = .running := by
        rw [hw.state, if_neg]
        · exact hrun
        · rw [timerWakes, List.mem_append, not_or]
          exact ⟨fun hm => hcs (List.mem_of_mem_filter hm), fun hm => hci (List.mem_of_mem_filter hm)⟩
      obtain ⟨k₃, htick, hswitch⟩ := hin.switches hends hc (hd (by simp [hc])) hrun₂ hw.queue
      simp only [htick] at hpit
      rw [hpit]
      exact Or.inr ⟨hends, c, hc, hswitch⟩
    · obtain ⟨slice, k₃, hslice, htick, hunlock⟩ := hin.goes_on hends hidle
      simp only [htick] at hpit
      exact Or.inl ⟨hends, slice, hslice, hpit.trans hunlock⟩
  · have hpit := pitIrqHandler_eq hk₁
    simp only [hk₂] at hpit
    exact Or.inr ⟨t, hpit⟩

end Handlers

end UnnamedOS.Proc
