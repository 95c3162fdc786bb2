import UnnamedOS.Lib.Chain
import UnnamedOS.Proc.Sched

/-!
# The ready list as a list

`ReadySeg k r q` relates the pointers `FIRST_THREAD`, `LAST_THREAD` and `next` to
the list `r` of ready tasks; `q` is what the pointer of the last one holds. An
append repairs any `q`, so a stale pointer does harm only if no append follows.
-/

namespace UnnamedOS.Proc

open UnnamedOS.Lib

/-- The pointers describe the list `r` of ready tasks; `q` is where the list goes on. -/
structure QueueSeg (k : Kernel) (r : List Tid) (q : Option Tid) : Prop where
  seg : Seg k.next k.firstThread r q
  nodup : r.Nodup
  ready : ∀ t ∈ r, t ∈ k.allocated ∧ k.state t = .ready
  last : r ≠ [] → k.lastThread = r.getLast?
  empty : r = [] → q = none

/-- The list has every ready task. -/
structure ReadySeg (k : Kernel) (r : List Tid) (q : Option Tid) : Prop extends QueueSeg k r q where
  complete : ∀ t ∈ k.allocated, k.state t = .ready → t ∈ r

/-- The ready list is finite and null-terminated, holds every ready task once and no other
task, and `LAST_THREAD` is its end. -/
abbrev ReadyList (k : Kernel) (r : List Tid) : Prop := ReadySeg k r none

def WellFormedReadyList (k : Kernel) : Prop :=
  ∃ r, Chain k.next k.firstThread r ∧ r.Nodup ∧
    (∀ t, t ∈ r ↔ t ∈ k.allocated ∧ k.state t = .ready) ∧
    (r ≠ [] → k.lastThread = r.getLast?)

namespace QueueSeg

variable {k k' : Kernel} {r : List Tid} {q : Option Tid} {c l p t : Tid}

theorem frame (h : QueueSeg k r q) (hn : k'.next = k.next) (hf : k'.firstThread = k.firstThread)
    (hl : k'.lastThread = k.lastThread) (hs : k'.state = k.state)
    (ha : k'.allocated = k.allocated) : QueueSeg k' r q := by
  constructor
  · rw [hn, hf]
    exact h.seg
  · exact h.nodup
  · rw [hs, ha]
    exact h.ready
  · rw [hl]
    exact h.last
  · exact h.empty

theorem first_none (h : QueueSeg k r q) : k.firstThread = none ↔ r = [] := by
  cases r with
  | nil => simpa [h.empty rfl] using h.seg
  | cons a r => simp [(seg_cons.mp h.seg).1]

theorem not_mem (h : QueueSeg k r q) (ht : k.state t ≠ .ready) : t ∉ r :=
  fun hm => ht (h.ready t hm).2

/-- A non-empty list as its front and the task `LAST_THREAD` points to. -/
theorem exists_last (h : QueueSeg k r q) (hl : k.lastThread = some l) (hr : r ≠ []) :
    ∃ s, r = s ++ [l] := by
  have hlast := h.last hr
  rw [hl] at hlast
  exact List.getLast?_eq_some_iff.mp hlast.symm

/-- `unblock_task` appends; the pointer of the woken task is cleared only on an empty list. -/
theorem wake (h : QueueSeg k r q) (ht : t ∈ k.allocated) (hk : k.unblockTask t = .ok k') :
    QueueSeg k' (r ++ [t]) (if k.firstThread = none then none else k.next t) := by
  obtain ⟨-, hd, ⟨hf, rfl⟩ | ⟨f, l, hf, hl, rfl⟩⟩ := Kernel.unblockTask_ok hk
  · obtain rfl := h.first_none.mp hf
    refine ⟨?_, List.nodup_singleton t, ?_, ?_, by simp⟩
    · simp [Kernel.wakeAlone, hf]
    · intro x hx
      obtain rfl := List.mem_singleton.mp hx
      exact ⟨ht, Function.update_self x _ _⟩
    · simp [Kernel.wakeAlone]
  · have hne : r ≠ [] := fun he => by simp [h.first_none.mpr he] at hf
    obtain ⟨s, rfl⟩ := h.exists_last hl hne
    have htr : t ∉ s ++ [l] := h.not_mem hd
    have hls : l ∉ s := by
      intro hm
      exact (List.nodup_append.mp h.nodup).2.2 l hm l List.mem_cons_self rfl
    have htl : t ≠ l := fun he => htr (by simp [he])
    refine ⟨?_, ?_, ?_, ?_, by simp⟩
    · rw [if_neg (by simp [hf])]
      exact seg_concat.mpr ⟨seg_snoc h.seg hls, Function.update_of_ne htl _ _⟩
    · rw [List.nodup_append]
      refine ⟨h.nodup, List.nodup_singleton t, ?_⟩
      intro a ha b hb he
      exact htr (List.mem_singleton.mp hb ▸ he ▸ ha)
    · intro x hx
      rcases List.mem_append.mp hx with hx | hx
      · obtain ⟨hxa, hxs⟩ := h.ready x hx
        have hxt : x ≠ t := fun he => htr (he ▸ hx)
        exact ⟨hxa, (Function.update_of_ne hxt _ _).trans hxs⟩
      · obtain rfl := List.mem_singleton.mp hx
        exact ⟨ht, Function.update_self x _ _⟩
    · intro _
      simp [Kernel.wakeAfter]

/-- Popping the first task for a switch away from a task that no longer runs. -/
theorem handOver (h : QueueSeg k (t :: r) q) (hq : r = [] → q = none) :
    QueueSeg ({ k with firstThread := k.next t }.handOver t) r q := by
  obtain ⟨ht, hnd⟩ := List.nodup_cons.mp h.nodup
  refine ⟨(seg_cons.mp h.seg).2, hnd, ?_, ?_, hq⟩
  · intro x hx
    obtain ⟨hxa, hxs⟩ := h.ready x (List.mem_cons_of_mem t hx)
    have hxt : x ≠ t := fun he => ht (he ▸ hx)
    exact ⟨hxa, (Function.update_of_ne hxt _ _).trans hxs⟩
  · intro hr
    change k.lastThread = _
    rw [h.last (by simp), List.getLast?_cons_of_ne_nil hr]

/-- The first task leaves the list, and the states of the others stay. -/
theorem pop (h : QueueSeg k (t :: r) none) (hn : k'.next = k.next)
    (hf : k'.firstThread = k.next t) (hl : k'.lastThread = k.lastThread)
    (ha : k'.allocated = k.allocated) (hs : ∀ x ∈ r, k'.state x = k.state x) :
    QueueSeg k' r none := by
  constructor
  · rw [hn, hf]
    exact (seg_cons.mp h.seg).2
  · exact (List.nodup_cons.mp h.nodup).2
  · intro x hx
    rw [ha, hs x hx]
    exact h.ready x (List.mem_cons_of_mem t hx)
  · intro hr
    rw [hl, h.last (by simp), List.getLast?_cons_of_ne_nil hr]
  · exact fun _ => rfl

/-- Popping the first of several tasks for a switch away from `c`, which is appended. -/
theorem preempt (h : QueueSeg k (t :: r) q) (hr : r ≠ []) (hl : k.lastThread = some l)
    (hc : c ∈ k.allocated) (hs : k.state c = .running) :
    QueueSeg ({ k with firstThread := k.next t }.preempt c l t) (r ++ [c]) none := by
  obtain ⟨ht, hnd⟩ := List.nodup_cons.mp h.nodup
  have hcr : c ∉ t :: r := h.not_mem (by simp [hs])
  have hlast : r.getLast? = some l := by
    rw [← hl, h.last (by simp), List.getLast?_cons_of_ne_nil hr]
  obtain ⟨s, rfl⟩ := List.getLast?_eq_some_iff.mp hlast
  have hls : l ∉ s := by
    intro hm
    exact (List.nodup_append.mp hnd).2.2 l hm l List.mem_cons_self rfl
  have hct : c ≠ t := fun he => hcr (by simp [he])
  have hcs : c ∉ s ++ [l] := fun hm => hcr (List.mem_cons_of_mem t hm)
  refine ⟨?_, ?_, ?_, ?_, by simp⟩
  · refine seg_concat.mpr ⟨?_, by simp [Kernel.preempt]⟩
    exact (seg_update_of_notMem hcs).mpr (seg_snoc (seg_cons.mp h.seg).2 hls)
  · rw [List.nodup_append]
    refine ⟨hnd, List.nodup_singleton c, ?_⟩
    intro a ha b hb he
    exact hcs (List.mem_singleton.mp hb ▸ he ▸ ha)
  · intro x hx
    rcases List.mem_append.mp hx with hx | hx
    · obtain ⟨hxa, hxs⟩ := h.ready x (List.mem_cons_of_mem t hx)
      have hxt : x ≠ t := fun he => ht (he ▸ hx)
      have hxc : x ≠ c := fun he => hcs (he ▸ hx)
      exact ⟨hxa, (Function.update_of_ne hxt _ _).trans ((Function.update_of_ne hxc _ _).trans hxs)⟩
    · obtain rfl := List.mem_singleton.mp hx
      exact ⟨hc, (Function.update_of_ne hct _ _).trans (Function.update_self x _ _)⟩
  · intro _
    simp [Kernel.preempt]

end QueueSeg

theorem wellFormed_of_readyList {k : Kernel} {r : List Tid} (h : ReadyList k r) :
    WellFormedReadyList k :=
  ⟨r, h.seg, h.nodup, fun t => ⟨h.ready t, fun ht => h.complete t ht.1 ht.2⟩, h.last⟩

namespace ReadySeg

variable {k k' : Kernel} {r : List Tid} {q : Option Tid} {c l p t : Tid}

theorem of_mem (hs : Seg k.next k.firstThread r q) (hnd : r.Nodup)
    (hm : ∀ t, t ∈ r ↔ t ∈ k.allocated ∧ k.state t = .ready)
    (hl : r ≠ [] → k.lastThread = r.getLast?) (he : r = [] → q = none) : ReadySeg k r q :=
  ⟨⟨hs, hnd, fun t => (hm t).mp, hl, he⟩, fun t ha hr => (hm t).mpr ⟨ha, hr⟩⟩

theorem mem (h : ReadySeg k r q) (t : Tid) : t ∈ r ↔ t ∈ k.allocated ∧ k.state t = .ready :=
  ⟨h.ready t, fun ht => h.complete t ht.1 ht.2⟩

theorem frame (h : ReadySeg k r q) (hn : k'.next = k.next) (hf : k'.firstThread = k.firstThread)
    (hl : k'.lastThread = k.lastThread) (hs : k'.state = k.state)
    (ha : k'.allocated = k.allocated) : ReadySeg k' r q := by
  refine ⟨h.toQueueSeg.frame hn hf hl hs ha, ?_⟩
  rw [hs, ha]
  exact h.complete

/-- A stale end pointer makes the list run past the ready tasks. -/
theorem not_wellFormed {x : Tid} (h : ReadySeg k r (some x)) : ¬ WellFormedReadyList k := by
  intro hwf
  obtain ⟨r', hc, hnd, hmem, -⟩ := hwf
  have hsame : ∀ t, t ∈ r' ↔ t ∈ r := fun t => (hmem t).trans (h.mem t).symm
  have hsplit : ∀ (p : Option Tid) (r r' : List Tid), Seg k.next p r (some x) →
      Chain k.next p r' → ∃ s, r' = r ++ x :: s := by
    intro p r
    induction r generalizing p with
    | nil =>
        intro r' hs hc
        rw [seg_nil] at hs
        subst hs
        obtain ⟨s, rfl, -⟩ := chain_some.mp hc
        exact ⟨s, rfl⟩
    | cons a r ih =>
        intro r' hs hc
        obtain ⟨rfl, hs'⟩ := seg_cons.mp hs
        obtain ⟨s, rfl, hc'⟩ := chain_some.mp hc
        obtain ⟨u, rfl⟩ := ih _ _ hs' hc'
        exact ⟨u, rfl⟩
  obtain ⟨s, rfl⟩ := hsplit _ _ _ h.seg hc
  have hx : x ∈ r := (hsame x).mp (by simp)
  exact (List.nodup_append.mp hnd).2.2 x hx x List.mem_cons_self rfl

theorem wake (h : ReadySeg k r q) (ht : t ∈ k.allocated) (hk : k.unblockTask t = .ok k') :
    ReadySeg k' (r ++ [t]) (if k.firstThread = none then none else k.next t) := by
  refine ⟨h.toQueueSeg.wake ht hk, ?_⟩
  have hframe : k'.allocated = k.allocated ∧ k'.state = Function.update k.state t .ready := by
    obtain ⟨-, -, ⟨-, rfl⟩ | ⟨f, l, -, -, rfl⟩⟩ := Kernel.unblockTask_ok hk <;> exact ⟨rfl, rfl⟩
  intro x hxa hxs
  rw [hframe.1] at hxa
  rw [hframe.2] at hxs
  by_cases hxt : x = t
  · simp [hxt]
  · rw [Function.update_of_ne hxt] at hxs
    exact List.mem_append_left _ (h.complete x hxa hxs)

theorem handOver (h : ReadySeg k (t :: r) q) (hq : r = [] → q = none) :
    ReadySeg ({ k with firstThread := k.next t }.handOver t) r q := by
  refine ⟨h.toQueueSeg.handOver hq, ?_⟩
  intro x hxa hxs
  have hxs' : Function.update k.state t .running x = .ready := hxs
  by_cases hxt : x = t
  · simp [hxt] at hxs'
  · rw [Function.update_of_ne hxt] at hxs'
    exact (List.mem_cons.mp (h.complete x hxa hxs')).resolve_left hxt

theorem preempt (h : ReadySeg k (t :: r) q) (hr : r ≠ []) (hl : k.lastThread = some l)
    (hc : c ∈ k.allocated) (hs : k.state c = .running) :
    ReadyList ({ k with firstThread := k.next t }.preempt c l t) (r ++ [c]) := by
  refine ⟨h.toQueueSeg.preempt hr hl hc hs, ?_⟩
  intro x hxa hxs
  have hxs' : Function.update (Function.update k.state c .ready) t .running x = .ready := hxs
  by_cases hxt : x = t
  · simp [hxt] at hxs'
  · rw [Function.update_of_ne hxt] at hxs'
    by_cases hxc : x = c
    · simp [hxc]
    · rw [Function.update_of_ne hxc] at hxs'
      have hm := (List.mem_cons.mp (h.complete x hxa hxs')).resolve_left hxt
      exact List.mem_append_left _ hm

end ReadySeg

end UnnamedOS.Proc
