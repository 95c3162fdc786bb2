import UnnamedOS.Lib.Run
import UnnamedOS.Proc.Schedule

/-!
# Kernel entry stacks

`rsp0` of a task is the stack its next entry from user mode starts on. `INT0x80C` and
`switchToUserModeProc` replace it by a fresh page through `loadRSP0`, which writes the
task state segment and the running task. `switch_to_task_wrapper` calls `loadRSP0` too,
while `current_task_TCB` is still the task it switches away from.
-/

namespace UnnamedOS.Proc

open UnnamedOS.Lib

namespace Kernel

/-- The top of a stack page. -/
def stackTop (page : UInt64) : UInt64 := page + 0xff8

def CBASE : UInt64 := 0x8000000000

/-- `INT0x80C` up to `STI`. -/
def int0x80Enter (k : Kernel) (newrsp0 : UInt64) : Except Halt Kernel :=
  { k with pages := newrsp0 :: k.pages }.loadRSP0 (stackTop newrsp0)

/-- `INT0x80C` from the second `CLI`. -/
def int0x80Leave (k : Kernel) (oldrsp0 newrsp0 : UInt64) : Except Halt Kernel :=
  { k with pages := k.pages.erase newrsp0 }.loadRSP0 oldrsp0

def switchToUserModeProc (k : Kernel) (UP page : UInt64) : Except Halt Kernel :=
  if UP > CBASE then .error (.error .notUm UP.toNat)
  else
    match { k with pages := page :: k.pages }.loadRSP0 (stackTop page), k.currentTaskTCB with
    | .ok k, some c => .ok { k with iopl := if k.pl c = 2 then 3 else 0 }
    | .ok _, none => .error .nullPointer
    | .error e, _ => .error e

def Live (k : Kernel) (t : Tid) : Prop := t ∈ k.allocated ∧ ¬ k.Gone t

instance (k : Kernel) (t : Tid) : Decidable (k.Live t) := inferInstanceAs (Decidable (_ ∧ _))

/-- A page `KPALLOC` may return. -/
def FreshPage (k : Kernel) (page : UInt64) : Prop := page ∉ k.pages ∧ page % 4096 = 0

end Kernel

/-- The kernel with the locals `oldrsp0` and `newrsp0` of the system calls each task is inside,
the innermost first. -/
structure EntryState where
  kernel : Kernel
  frames : Tid → List (UInt64 × UInt64)

inductive EntryOp where
  | ckprocA (M : Tid) (M2 cr3 : UInt64)
  | switchTo (t : Tid)
  | enterSyscall (newrsp0 : UInt64)
  | leaveSyscall
  | enterUserMode (UP page : UInt64)
  /-- `PROC_EXIT` marks the running task, which is switched away from later. -/
  | die

namespace EntryOp

def exec (s : EntryState) : EntryOp → Except Halt EntryState
  | ckprocA M M2 cr3 =>
    match s.kernel.ckprocA M M2 cr3 with
    | .error e => .error e
    | .ok k => .ok ⟨k, Function.update s.frames M []⟩
  | switchTo t =>
    match s.kernel.switchToTaskWrapper t with
    | .error e => .error e
    | .ok k => .ok ⟨k, s.frames⟩
  | enterSyscall newrsp0 =>
    match s.kernel.currentTaskTCB, s.kernel.int0x80Enter newrsp0 with
    | some c, .ok k =>
      .ok ⟨k, Function.update s.frames c ((s.kernel.rsp0 c, newrsp0) :: s.frames c)⟩
    | none, _ => .error .nullPointer
    | _, .error e => .error e
  | leaveSyscall =>
    match s.kernel.currentTaskTCB with
    | none => .error .nullPointer
    | some c =>
      match s.frames c with
      | [] => .error .fault
      | (oldrsp0, newrsp0) :: fs =>
        match s.kernel.int0x80Leave oldrsp0 newrsp0 with
        | .error e => .error e
        | .ok k => .ok ⟨k, Function.update s.frames c fs⟩
  | enterUserMode UP page =>
    match s.kernel.switchToUserModeProc UP page with
    | .error e => .error e
    | .ok k => .ok ⟨k, s.frames⟩
  | die =>
    match s.kernel.currentTaskTCB with
    | none => .error .nullPointer
    | some c => .ok ⟨s.kernel.setState c .dead, s.frames⟩

/-- Fresh memory comes from `malloc` and `KPALLOC`, the running task has not exited, and a
switch goes to a live task. -/
def Enabled (s : EntryState) : EntryOp → Prop
  | ckprocA M M2 cr3 =>
    M ∉ s.kernel.allocated ∧ s.kernel.FreshPage M2 ∧ s.kernel.FreshPage cr3 ∧ M2 ≠ cr3
  | switchTo t => s.kernel.Live t
  | enterSyscall newrsp0 =>
    (∀ c, s.kernel.currentTaskTCB = some c → s.kernel.Live c) ∧ s.kernel.FreshPage newrsp0
  | leaveSyscall => ∀ c, s.kernel.currentTaskTCB = some c → s.kernel.Live c
  | enterUserMode _ page =>
    (∀ c, s.kernel.currentTaskTCB = some c → s.kernel.Live c) ∧ s.kernel.FreshPage page
  | die => True

def step (s : EntryState) (op : EntryOp) (s' : EntryState) : Prop :=
  op.Enabled s ∧ op.exec s = .ok s'

/-- The switch does not leave a live task for another one. -/
def Safe (s : EntryState) : EntryOp → Prop
  | switchTo t => ∀ c, s.kernel.currentTaskTCB = some c → s.kernel.Live c → c = t
  | _ => True

/-- The steps that call `loadRSP0`. -/
def Loads : EntryOp → Prop
  | ckprocA _ _ _ | die => False
  | _ => True

end EntryOp

def EntryState.boot (junk : Kernel) (t : Tid) (cr3 : UInt64) : EntryState :=
  ⟨junk.initializeMultitasking t cr3, fun _ => []⟩

/-- No two live tasks share an entry stack. -/
def StacksDistinct (k : Kernel) : Prop :=
  ∀ t t', k.Live t → k.Live t' → k.rsp0 t = k.rsp0 t' → t = t'

/-- The task state segment holds the entry stack of the running task. -/
def TssCurrent (k : Kernel) : Prop := ∀ c, k.currentTaskTCB = some c → k.tssRsp0 = k.rsp0 c

def EntryStacks (k : Kernel) : Prop := StacksDistinct k ∧ TssCurrent k

variable {k k' : Kernel} {s s' : EntryState} {op : EntryOp} {c t M : Tid} {v M2 cr3 page : UInt64}

theorem stackTop_inj {p q : UInt64} (h : Kernel.stackTop p = Kernel.stackTop q) : p = q := by
  have hsub := congrArg (fun x => x - 0xff8) h
  simpa only [Kernel.stackTop, UInt64.add_sub_cancel] using hsub

/-- The stack of the boot task is in no page that `KPALLOC` returns. -/
theorem stackTop_ne_boot (h : page % 4096 = 0) : Kernel.stackTop page ≠ 0x8000007bff := by
  intro he
  have hsub := congrArg (fun x => x - 0xff8) he
  simp only [Kernel.stackTop, UInt64.add_sub_cancel] at hsub
  rw [hsub] at h
  exact absurd h (by decide)

theorem loadRSP0_ok (h : k.loadRSP0 v = .ok k') :
    ∃ c, k.currentTaskTCB = some c ∧ k' = k.setRSP0 c v := by
  unfold Kernel.loadRSP0 at h
  split at h
  · cases h
  · rename_i c hc
    exact ⟨c, hc, (Except.ok.inj h).symm⟩

theorem setRSP0_tss (k : Kernel) (c : Tid) (v : UInt64) :
    (k.setRSP0 c v).tssRsp0 = (k.setRSP0 c v).rsp0 c :=
  (Function.update_self c v k.rsp0).symm

/-- What `ckprocA` does to the fields this module is about. -/
structure Created (k k' : Kernel) (M : Tid) (M2 cr3 : UInt64) : Prop where
  rsp0 : k'.rsp0 = Function.update k.rsp0 M (Kernel.stackTop M2)
  state : k'.state = Function.update k.state M .ready
  allocated : k'.allocated = M :: k.allocated
  pages : k'.pages = cr3 :: M2 :: k.pages
  current : k'.currentTaskTCB = k.currentTaskTCB
  tss : k'.tssRsp0 = k.tssRsp0
  postpone : k'.postponeTaskSwitchesCounter = k.postponeTaskSwitchesCounter

theorem ckprocA_created (h : k.ckprocA M M2 cr3 = .ok k') : Created k k' M M2 cr3 := by
  unfold Kernel.ckprocA at h
  cases hc : k.currentTaskTCB with
  | none => simp [hc] at h
  | some cur =>
      simp only [hc] at h
      split at h
      · unfold Kernel.appendThread at h
        split at h
        · cases h
        · obtain rfl := Except.ok.inj h
          exact ⟨rfl, rfl, rfl, rfl, rfl, rfl, rfl⟩
      · obtain rfl := Except.ok.inj h
        exact ⟨rfl, rfl, rfl, rfl, rfl, rfl, rfl⟩

/-- What a switch from `c` to `t` does to them. -/
structure Switched (k k' : Kernel) (c t : Tid) : Prop where
  rsp0 : k'.rsp0 = Function.update k.rsp0 c (k.rsp0 t)
  gone : ∀ x, k'.Gone x ↔ k.Gone x ∧ x ≠ t
  allocated : k'.allocated = k.allocated
  pages : k'.pages = k.pages
  current : k'.currentTaskTCB = some t
  tss : k'.tssRsp0 = k.rsp0 t
  postpone : k'.postponeTaskSwitchesCounter = k.postponeTaskSwitchesCounter

theorem switchToTaskWrapper_switched (hp : k.postponeTaskSwitchesCounter = 0)
    (hc : k.currentTaskTCB = some c) (h : k.switchToTaskWrapper t = .ok k') :
    Switched k k' c t := by
  have hupd : ∀ (f : Tid → TaskState) x, (Function.update f t .running x = .dead ∨
      Function.update f t .running x = .buried) ↔ (f x = .dead ∨ f x = .buried) ∧ x ≠ t := by
    intro f x
    by_cases hx : x = t <;> simp [hx]
  obtain ⟨-, slot, word, ⟨hrun, rfl⟩ | ⟨hrun, l, hl, rfl⟩⟩ :=
    Kernel.switchToTaskWrapper_ok hp hc h
  · exact ⟨rfl, fun x => hupd k.state x, rfl, rfl, rfl, rfl, rfl⟩
  · refine ⟨rfl, fun x => ?_, rfl, rfl, rfl, rfl, rfl⟩
    refine (hupd (Function.update k.state c .ready) x).trans (and_congr_left fun _ => ?_)
    by_cases hx : x = c
    · simp [Kernel.Gone, hx, hrun]
    · simp [Kernel.Gone, hx]

/-- One step, with the calls of `loadRSP0` carried out. -/
theorem entry_step_cases (h : EntryOp.step s op s') : op.Enabled s ∧
    ((∃ M M2 cr3, op = .ckprocA M M2 cr3 ∧ Created s.kernel s'.kernel M M2 cr3 ∧
        s'.frames = Function.update s.frames M []) ∨
      (∃ t, op = .switchTo t ∧ s.kernel.switchToTaskWrapper t = .ok s'.kernel ∧
        s'.frames = s.frames) ∨
      (∃ c page, op = .enterSyscall page ∧ s.kernel.currentTaskTCB = some c ∧
        s'.kernel = { s.kernel with pages := page :: s.kernel.pages }.setRSP0 c
          (Kernel.stackTop page) ∧
        s'.frames = Function.update s.frames c ((s.kernel.rsp0 c, page) :: s.frames c)) ∨
      (∃ c old new fs, op = .leaveSyscall ∧ s.kernel.currentTaskTCB = some c ∧
        s.frames c = (old, new) :: fs ∧
        s'.kernel = { s.kernel with pages := s.kernel.pages.erase new }.setRSP0 c old ∧
        s'.frames = Function.update s.frames c fs) ∨
      (∃ c UP page io, op = .enterUserMode UP page ∧ s.kernel.currentTaskTCB = some c ∧
        s'.kernel = { { s.kernel with pages := page :: s.kernel.pages }.setRSP0 c
          (Kernel.stackTop page) with iopl := io } ∧ s'.frames = s.frames) ∨
      (∃ c, op = .die ∧ s.kernel.currentTaskTCB = some c ∧
        s'.kernel = s.kernel.setState c .dead ∧ s'.frames = s.frames)) := by
  obtain ⟨hen, hex⟩ := h
  refine ⟨hen, ?_⟩
  cases op with
  | ckprocA M M2 cr3 =>
      simp only [EntryOp.exec] at hex
      split at hex
      · cases hex
      · rename_i k hk
        obtain rfl := Except.ok.inj hex
        exact Or.inl ⟨M, M2, cr3, rfl, ckprocA_created hk, rfl⟩
  | switchTo t =>
      simp only [EntryOp.exec] at hex
      split at hex
      · cases hex
      · rename_i k hk
        obtain rfl := Except.ok.inj hex
        exact Or.inr (Or.inl ⟨t, rfl, hk, rfl⟩)
  | enterSyscall page =>
      simp only [EntryOp.exec] at hex
      split at hex
      · rename_i c k hc hk
        obtain rfl := Except.ok.inj hex
        obtain ⟨d, hd, rfl⟩ := loadRSP0_ok hk
        obtain rfl : c = d := Option.some.inj (hc.symm.trans hd)
        exact Or.inr (Or.inr (Or.inl ⟨c, page, rfl, hc, rfl, rfl⟩))
      · cases hex
      · cases hex
  | leaveSyscall =>
      simp only [EntryOp.exec] at hex
      split at hex
      · cases hex
      · rename_i c hc
        split at hex
        · cases hex
        · rename_i old new fs hfs
          split at hex
          · cases hex
          · rename_i k hk
            obtain rfl := Except.ok.inj hex
            obtain ⟨d, hd, rfl⟩ := loadRSP0_ok hk
            obtain rfl : c = d := Option.some.inj (hc.symm.trans hd)
            exact Or.inr (Or.inr (Or.inr (Or.inl ⟨c, old, new, fs, rfl, hc, hfs, rfl, rfl⟩)))
  | enterUserMode UP page =>
      simp only [EntryOp.exec] at hex
      split at hex
      · cases hex
      · rename_i k hk
        obtain rfl := Except.ok.inj hex
        unfold Kernel.switchToUserModeProc at hk
        split at hk
        · cases hk
        · split at hk
          · rename_i k₁ c hk₁ hc
            obtain rfl := Except.ok.inj hk
            obtain ⟨d, hd, rfl⟩ := loadRSP0_ok hk₁
            obtain rfl : c = d := Option.some.inj (hc.symm.trans hd)
            exact Or.inr (Or.inr (Or.inr (Or.inr (Or.inl
              ⟨c, UP, page, _, rfl, hc, rfl, rfl⟩))))
          · cases hk
          · cases hk
  | die =>
      simp only [EntryOp.exec] at hex
      split at hex
      · cases hex
      · rename_i c hc
        obtain rfl := Except.ok.inj hex
        exact Or.inr (Or.inr (Or.inr (Or.inr (Or.inr ⟨c, rfl, hc, rfl, rfl⟩))))

/-- What every run keeps. -/
structure EntryBase (k : Kernel) : Prop where
  postpone : k.postponeTaskSwitchesCounter = 0
  current : ∃ c, k.currentTaskTCB = some c ∧ c ∈ k.allocated

/-- A step other than a call of `loadRSP0` leaves the running task's stack and the segment. -/
structure SameEntry (k k' : Kernel) : Prop where
  current : k'.currentTaskTCB = k.currentTaskTCB
  tss : k'.tssRsp0 = k.tssRsp0
  rsp0 : ∀ c, k.currentTaskTCB = some c → k'.rsp0 c = k.rsp0 c

theorem entry_step_base (hb : EntryBase s.kernel) (h : EntryOp.step s op s') :
    EntryBase s'.kernel ∧ (op.Loads → TssCurrent s'.kernel) ∧
      (¬ op.Loads → SameEntry s.kernel s'.kernel) := by
  obtain ⟨hp, cur, hcur, hal⟩ := hb
  have hone : ∀ (k' : Kernel) (c : Tid), k'.currentTaskTCB = some c →
      k'.tssRsp0 = k'.rsp0 c → TssCurrent k' := by
    intro k' c hc he d hd
    obtain rfl : c = d := Option.some.inj (hc.symm.trans hd)
    exact he
  obtain ⟨hen, ⟨M, M2, cr3, rfl, hcr, -⟩ | ⟨t, rfl, hsw, -⟩ | ⟨c, page, rfl, hc, hk, -⟩ |
    ⟨c, old, new, fs, rfl, hc, -, hk, -⟩ | ⟨c, UP, page, io, rfl, hc, hk, -⟩ |
    ⟨c, rfl, hc, hk, -⟩⟩ := entry_step_cases h
  · refine ⟨⟨hcr.postpone.trans hp, cur, hcr.current.trans hcur, ?_⟩, fun hl => hl.elim, fun _ => ?_⟩
    · rw [hcr.allocated]
      exact List.mem_cons_of_mem M hal
    · refine ⟨hcr.current, hcr.tss, ?_⟩
      intro c hc
      obtain rfl : cur = c := Option.some.inj (hcur.symm.trans hc)
      have hne : cur ≠ M := fun he => hen.1 (he ▸ hal)
      rw [hcr.rsp0, Function.update_of_ne hne]
  · have hw := switchToTaskWrapper_switched hp hcur hsw
    refine ⟨⟨hw.postpone.trans hp, t, hw.current, ?_⟩, fun _ => ?_, fun hl => absurd trivial hl⟩
    · rw [hw.allocated]
      exact hen.1
    · refine hone _ t hw.current ?_
      rw [hw.tss, hw.rsp0]
      by_cases htc : t = cur
      · rw [htc, Function.update_self]
      · rw [Function.update_of_ne htc]
  all_goals
    obtain rfl : cur = c := Option.some.inj (hcur.symm.trans hc)
    rw [hk]
  · exact ⟨⟨hp, cur, hc, hal⟩, fun _ => hone _ cur hc (setRSP0_tss _ cur _),
      fun hl => absurd trivial hl⟩
  · exact ⟨⟨hp, cur, hc, hal⟩, fun _ => hone _ cur hc (setRSP0_tss _ cur _),
      fun hl => absurd trivial hl⟩
  · exact ⟨⟨hp, cur, hc, hal⟩, fun _ => hone _ cur hc (setRSP0_tss _ cur _),
      fun hl => absurd trivial hl⟩
  · exact ⟨⟨hp, cur, hc, hal⟩, fun hl => hl.elim, fun _ => ⟨rfl, rfl, fun _ _ => rfl⟩⟩

/-- The segment follows the running task from the first call of `loadRSP0` on. -/
theorem run_tss {ls : List EntryOp} (hb : EntryBase s.kernel) (h : Run EntryOp.step s ls s') :
    EntryBase s'.kernel ∧ ((∃ op ∈ ls, op.Loads) → TssCurrent s'.kernel) ∧
      ((∀ op ∈ ls, ¬ op.Loads) → SameEntry s.kernel s'.kernel) := by
  induction h with
  | nil s => exact ⟨hb, fun ⟨op, hm, _⟩ => absurd hm List.not_mem_nil,
      fun _ => ⟨rfl, rfl, fun _ _ => rfl⟩⟩
  | @cons s s₁ s' op ls hs _ ih =>
      obtain ⟨hb₁, hload, hsame⟩ := entry_step_base hb hs
      obtain ⟨hb', hload', hsame'⟩ := ih hb₁
      refine ⟨hb', ?_, ?_⟩
      · intro hex
        by_cases hl : ∃ op ∈ ls, op.Loads
        · exact hload' hl
        · have hnone : ∀ op ∈ ls, ¬ op.Loads := fun op hm ho => hl ⟨op, hm, ho⟩
          have hop : op.Loads := by
            obtain ⟨op', hm, ho⟩ := hex
            rcases List.mem_cons.mp hm with rfl | hm
            · exact ho
            · exact absurd ho (hnone op' hm)
          obtain ⟨hc, ht, hr⟩ := hsame' hnone
          intro c hcc
          have hc₁ : s₁.kernel.currentTaskTCB = some c := hc.symm.trans hcc
          rw [ht, hr c hc₁]
          exact hload hop c hc₁
      · intro hnone
        obtain ⟨hc, ht, hr⟩ := hsame (hnone op List.mem_cons_self)
        obtain ⟨hc', ht', hr'⟩ := hsame' (fun o hm => hnone o (List.mem_cons_of_mem op hm))
        refine ⟨hc'.trans hc, ht'.trans ht, ?_⟩
        intro c hcc
        exact (hr' c (hc.trans hcc)).trans (hr c hcc)

/-- The stack values a task comes back to when it leaves its system calls, and those it leaves. -/
def frameValues : List (UInt64 × UInt64) → List UInt64
  | [] => []
  | (old, new) :: fs => old :: Kernel.stackTop new :: frameValues fs

/-- The page of a system call is no stack of the calls around it. -/
def Nested : List (UInt64 × UInt64) → Prop
  | [] => True
  | (old, new) :: fs =>
    Kernel.stackTop new ≠ old ∧ Kernel.stackTop new ∉ frameValues fs ∧ Nested fs

def EntryState.values (s : EntryState) (t : Tid) : List UInt64 :=
  s.kernel.rsp0 t :: frameValues (s.frames t)

/-- The boot stack, or the top of a page in use. -/
def Backed (k : Kernel) (v : UInt64) : Prop :=
  v = 0x8000007bff ∨ ∃ page ∈ k.pages, v = Kernel.stackTop page

/-- Every stack value of a live task belongs to that task alone. -/
structure Owned (s : EntryState) (owner : UInt64 → Tid) : Prop where
  value : ∀ t, s.kernel.Live t → ∀ v ∈ s.values t, owner v = t ∧ Backed s.kernel v
  nested : ∀ t, s.kernel.Live t → Nested (s.frames t)

variable {owner : UInt64 → Tid}

theorem Owned.distinct (h : Owned s owner) : StacksDistinct s.kernel := by
  intro t t' ht ht' he
  have hv := (h.value t ht _ List.mem_cons_self).1
  have hv' := (h.value t' ht' _ List.mem_cons_self).1
  rw [he] at hv
  exact hv.symm.trans hv'

theorem Backed.mono (h : Backed k v) (hp : ∀ page ∈ k.pages, page ∈ k'.pages) : Backed k' v :=
  h.imp id fun ⟨page, hm, he⟩ => ⟨page, hp page hm, he⟩

theorem Backed.ne_fresh (h : Backed k v) (hf : k.FreshPage page) : v ≠ Kernel.stackTop page := by
  intro he
  rcases h with hb | ⟨q, hq, hb⟩
  · exact stackTop_ne_boot hf.2 (he.symm.trans hb)
  · have hqp : q = page := stackTop_inj (hb.symm.trans he)
    exact hf.1 (hqp ▸ hq)

/-- A task takes a fresh page: its values are the old ones and the top of that page. -/
theorem Owned.grow (h : Owned s owner) (page : UInt64) (hf : s.kernel.FreshPage page)
    (hpages : ∀ q ∈ s.kernel.pages, q ∈ s'.kernel.pages) (hpage : page ∈ s'.kernel.pages)
    (hothers : ∀ t, t ≠ c → s'.kernel.Live t → s.kernel.Live t ∧ s'.values t = s.values t ∧
      s'.frames t = s.frames t)
    (hown : s'.kernel.Live c → ∀ v ∈ s'.values c, v = Kernel.stackTop page ∨
      (s.kernel.Live c ∧ v ∈ s.values c))
    (hnest : s'.kernel.Live c → Nested (s'.frames c)) :
    Owned s' (Function.update owner (Kernel.stackTop page) c) := by
  have hold : ∀ t, s.kernel.Live t → ∀ v ∈ s.values t,
      Function.update owner (Kernel.stackTop page) c v = t ∧ Backed s'.kernel v := by
    intro t ht v hv
    obtain ⟨ho, hb⟩ := h.value t ht v hv
    rw [Function.update_of_ne (hb.ne_fresh hf)]
    exact ⟨ho, hb.mono hpages⟩
  constructor
  · intro t ht v hv
    by_cases htc : t = c
    · subst htc
      rcases hown ht v hv with rfl | ⟨hl, hv⟩
      · exact ⟨Function.update_self _ _ _, Or.inr ⟨page, hpage, rfl⟩⟩
      · exact hold t hl v hv
    · obtain ⟨hl, he, -⟩ := hothers t htc ht
      exact hold t hl v (he ▸ hv)
  · intro t ht
    by_cases htc : t = c
    · subst htc
      exact hnest ht
    · obtain ⟨hl, -, he⟩ := hothers t htc ht
      rw [he]
      exact h.nested t hl

theorem owned_ckprocA (h : Owned s owner) (hfresh : s.kernel.FreshPage M2)
    (hcr : Created s.kernel s'.kernel M M2 cr3) (hfr : s'.frames = Function.update s.frames M []) :
    ∃ owner', Owned s' owner' := by
  refine ⟨_, h.grow M2 hfresh ?_ ?_ (c := M) ?_ ?_ ?_⟩
  · intro q hq
    rw [hcr.pages]
    exact List.mem_cons_of_mem _ (List.mem_cons_of_mem _ hq)
  · rw [hcr.pages]
    exact List.mem_cons_of_mem _ List.mem_cons_self
  · intro t htM ht
    have hstate : s'.kernel.state t = s.kernel.state t := by
      rw [hcr.state, Function.update_of_ne htM]
    have hframes : s'.frames t = s.frames t := by
      rw [hfr, Function.update_of_ne htM]
    obtain ⟨hta, htg⟩ := ht
    rw [hcr.allocated] at hta
    refine ⟨⟨(List.mem_cons.mp hta).resolve_left htM, ?_⟩, ?_, hframes⟩
    · intro hg
      exact htg (hg.congr hstate)
    · rw [EntryState.values, EntryState.values, hframes, hcr.rsp0, Function.update_of_ne htM]
  · intro _ v hv
    rw [EntryState.values, hfr, Function.update_self, hcr.rsp0, Function.update_self] at hv
    exact Or.inl (List.mem_singleton.mp hv)
  · intro _
    rw [hfr, Function.update_self]
    trivial

/-- The task that is switched away from may lose its own stack only if it is dead. -/
theorem owned_switchTo (h : Owned s owner) (hsafe : EntryOp.Safe s (.switchTo t))
    (ht : s.kernel.Live t) (hc : s.kernel.currentTaskTCB = some c)
    (hw : Switched s.kernel s'.kernel c t) (hfr : s'.frames = s.frames) : Owned s' owner := by
  have hlive : ∀ x, s'.kernel.Live x → s.kernel.Live x := by
    intro x hx
    by_cases hxt : x = t
    · exact hxt ▸ ht
    · exact ⟨hw.allocated ▸ hx.1, fun hg => hx.2 ((hw.gone x).mpr ⟨hg, hxt⟩)⟩
  have hvalues : ∀ x, s'.kernel.Live x → s'.values x = s.values x := by
    intro x hx
    rw [EntryState.values, EntryState.values, hfr, hw.rsp0]
    by_cases hxc : x = c
    · subst hxc
      rw [Function.update_self, hsafe x hc (hlive x hx)]
    · rw [Function.update_of_ne hxc]
  constructor
  · intro x hx v hv
    rw [hvalues x hx] at hv
    obtain ⟨ho, hbk⟩ := h.value x (hlive x hx) v hv
    exact ⟨ho, hbk.mono fun q hq => by rwa [hw.pages]⟩
  · intro x hx
    rw [hfr]
    exact h.nested x (hlive x hx)

/-- What a call of `loadRSP0` by the live task `c` changes, besides the pages. -/
structure Loaded (k k' : Kernel) (c : Tid) (v : UInt64) : Prop where
  live : k.Live c
  rsp0 : k'.rsp0 = Function.update k.rsp0 c v
  state : k'.state = k.state
  allocated : k'.allocated = k.allocated

theorem Loaded.live_iff {x : Tid} (h : Loaded k k' c v) : k'.Live x ↔ k.Live x := by
  rw [Kernel.Live, Kernel.Live, Kernel.Gone, Kernel.Gone, h.state, h.allocated]

/-- `loadRSP0` of a fresh page, with or without a system call around it. -/
theorem owned_load (h : Owned s owner) (hfresh : s.kernel.FreshPage page)
    (hl : Loaded s.kernel s'.kernel c (Kernel.stackTop page))
    (hpages : s'.kernel.pages = page :: s.kernel.pages)
    (hfr : s'.frames = s.frames ∨
      s'.frames = Function.update s.frames c ((s.kernel.rsp0 c, page) :: s.frames c)) :
    ∃ owner', Owned s' owner' := by
  have hrsp : s'.kernel.rsp0 c = Kernel.stackTop page := by
    rw [hl.rsp0, Function.update_self]
  have hframes : s'.frames c = s.frames c ∨
      s'.frames c = (s.kernel.rsp0 c, page) :: s.frames c := by
    rcases hfr with hfr | hfr
    · exact Or.inl (by rw [hfr])
    · exact Or.inr (by rw [hfr, Function.update_self])
  refine ⟨_, h.grow (c := c) page hfresh ?_ ?_ ?_ ?_ ?_⟩
  · intro q hq
    rw [hpages]
    exact List.mem_cons_of_mem page hq
  · rw [hpages]
    exact List.mem_cons_self
  · intro t htc ht
    have hft : s'.frames t = s.frames t := by
      rcases hfr with hfr | hfr
      · rw [hfr]
      · rw [hfr, Function.update_of_ne htc]
    refine ⟨hl.live_iff.mp ht, ?_, hft⟩
    rw [EntryState.values, EntryState.values, hft, hl.rsp0, Function.update_of_ne htc]
  · intro _ v hv
    rw [EntryState.values, hrsp] at hv
    have hin : v ∈ frameValues (s.frames c) → v ∈ s.values c := List.mem_cons_of_mem _
    rcases hframes with hf | hf
    · rw [hf] at hv
      rcases List.mem_cons.mp hv with he | hv
      · exact Or.inl he
      · exact Or.inr ⟨hl.live, hin hv⟩
    · rw [hf] at hv
      simp only [frameValues, List.mem_cons] at hv
      rcases hv with he | he | he | hv
      · exact Or.inl he
      · exact Or.inr ⟨hl.live, he ▸ List.mem_cons_self⟩
      · exact Or.inl he
      · exact Or.inr ⟨hl.live, hin hv⟩
  · intro _
    have hnest := h.nested c hl.live
    rcases hframes with hf | hf
    · rwa [hf]
    · have hnot : ∀ v ∈ s.values c, Kernel.stackTop page ≠ v :=
        fun v hv => ((h.value c hl.live v hv).2.ne_fresh hfresh).symm
      rw [hf]
      refine ⟨hnot _ List.mem_cons_self, ?_, hnest⟩
      intro hm
      exact hnot _ (List.mem_cons_of_mem _ hm) rfl

/-- The end of a system call frees its page, which is the stack of no other call. -/
theorem owned_leave {old new : UInt64} {fs : List (UInt64 × UInt64)} (h : Owned s owner)
    (hl : Loaded s.kernel s'.kernel c old) (hpages : s'.kernel.pages = s.kernel.pages.erase new)
    (hfc : s.frames c = (old, new) :: fs) (hfr : s'.frames = Function.update s.frames c fs) :
    Owned s' owner := by
  have hnest := h.nested c hl.live
  rw [hfc] at hnest
  have hsub : ∀ x v, v ∈ s'.values x → v ∈ s.values x ∧ (x = c → v ≠ Kernel.stackTop new) := by
    intro x v hv
    by_cases hxc : x = c
    · subst hxc
      rw [EntryState.values, hfr, Function.update_self, hl.rsp0, Function.update_self] at hv
      rw [EntryState.values, hfc]
      rcases List.mem_cons.mp hv with he | hv
      · exact ⟨by simp [frameValues, he], fun _ => he ▸ hnest.1.symm⟩
      · exact ⟨by simp [frameValues, hv], fun _ he => hnest.2.1 (he ▸ hv)⟩
    · rw [EntryState.values, hfr, Function.update_of_ne hxc, hl.rsp0,
        Function.update_of_ne hxc] at hv
      exact ⟨hv, fun he => absurd he hxc⟩
  have hnew : owner (Kernel.stackTop new) = c :=
    (h.value c hl.live _ (by rw [EntryState.values, hfc]; simp [frameValues])).1
  constructor
  · intro x hx v hv
    obtain ⟨hv', hne⟩ := hsub x v hv
    obtain ⟨ho, hbk⟩ := h.value x (hl.live_iff.mp hx) v hv'
    refine ⟨ho, ?_⟩
    rcases hbk with hbk | ⟨q, hq, hbk⟩
    · exact Or.inl hbk
    · have hqn : q ≠ new := by
        intro he
        rw [he] at hbk
        have hxc : x = c := by rw [← ho, hbk, hnew]
        exact hne hxc hbk
      refine Or.inr ⟨q, ?_, hbk⟩
      rw [hpages]
      exact (List.mem_erase_of_ne hqn).mpr hq
  · intro x hx
    rw [hfr]
    by_cases hxc : x = c
    · rw [hxc, Function.update_self]
      exact hnest.2.2
    · rw [Function.update_of_ne hxc]
      exact h.nested x (hl.live_iff.mp hx)

theorem owned_die (h : Owned s owner) (hk : s'.kernel = s.kernel.setState c .dead)
    (hfr : s'.frames = s.frames) : Owned s' owner := by
  have hlive : ∀ x, s'.kernel.Live x → s.kernel.Live x := by
    intro x hx
    rw [hk] at hx
    refine ⟨hx.1, fun hg => hx.2 ?_⟩
    by_cases hxc : x = c
    · exact Or.inl (by rw [hxc]; exact Function.update_self c _ _)
    · exact hg.congr (Function.update_of_ne hxc _ _)
  constructor
  · intro x hx v hv
    rw [EntryState.values, hfr, hk] at hv
    rw [hk]
    exact h.value x (hlive x hx) v hv
  · intro x hx
    rw [hfr]
    exact h.nested x (hlive x hx)

theorem owned_step (hb : EntryBase s.kernel) (h : Owned s owner) (hsafe : op.Safe s)
    (hs : EntryOp.step s op s') : ∃ owner', Owned s' owner' := by
  obtain ⟨hp, cur, hcur, -⟩ := hb
  obtain ⟨hen, ⟨M, M2, cr3, rfl, hcr, hfr⟩ | ⟨t, rfl, hsw, hfr⟩ | ⟨c, page, rfl, hc, hk, hfr⟩ |
    ⟨c, old, new, fs, rfl, hc, hfc, hk, hfr⟩ | ⟨c, UP, page, io, rfl, hc, hk, hfr⟩ |
    ⟨c, rfl, hc, hk, hfr⟩⟩ := entry_step_cases hs
  · exact owned_ckprocA h hen.2.1 hcr hfr
  · have hw := switchToTaskWrapper_switched hp hcur hsw
    exact ⟨owner, owned_switchTo h hsafe hen hcur hw hfr⟩
  · have hl : Loaded s.kernel s'.kernel c (Kernel.stackTop page) :=
      ⟨hen.1 c hc, by rw [hk]; rfl, by rw [hk]; rfl, by rw [hk]; rfl⟩
    exact owned_load h hen.2 hl (by rw [hk]; rfl) (Or.inr hfr)
  · have hl : Loaded s.kernel s'.kernel c old :=
      ⟨hen c hc, by rw [hk]; rfl, by rw [hk]; rfl, by rw [hk]; rfl⟩
    exact ⟨owner, owned_leave h hl (by rw [hk]; rfl) hfc hfr⟩
  · have hl : Loaded s.kernel s'.kernel c (Kernel.stackTop page) :=
      ⟨hen.1 c hc, by rw [hk]; rfl, by rw [hk]; rfl, by rw [hk]; rfl⟩
    exact owned_load h hen.2 hl (by rw [hk]; rfl) (Or.inl hfr)
  · exact ⟨owner, owned_die h hk hfr⟩

theorem boot_base (junk : Kernel) (t : Tid) (cr3 : UInt64) :
    EntryBase (EntryState.boot junk t cr3).kernel :=
  ⟨rfl, t, rfl, List.mem_singleton_self t⟩

theorem boot_owned (junk : Kernel) (t : Tid) (cr3 : UInt64) :
    Owned (EntryState.boot junk t cr3) (fun _ => t) := by
  constructor
  · intro x hx v hv
    obtain rfl : x = t := List.mem_singleton.mp hx.1
    obtain rfl : v = 0x8000007bff := by
      have hm := List.mem_singleton.mp hv
      rw [hm]
      exact Function.update_self x _ _
    exact ⟨rfl, Or.inl rfl⟩
  · intro x _
    trivial

theorem entry_step_deterministic (s : EntryState) (op : EntryOp) (s₁ s₂ : EntryState)
    (h₁ : EntryOp.step s op s₁) (h₂ : EntryOp.step s op s₂) : s₁ = s₂ :=
  Except.ok.inj (h₁.2.symm.trans h₂.2)

/-- A run that makes no unsafe switch keeps the stacks apart. -/
theorem safe_run_owned {ls : List EntryOp} (hb : EntryBase s.kernel) (h : Owned s owner)
    (hrun : Run (Guarded EntryOp.Safe EntryOp.step) s ls s') :
    EntryBase s'.kernel ∧ ∃ owner', Owned s' owner' := by
  induction hrun generalizing owner with
  | nil s => exact ⟨hb, owner, h⟩
  | cons hs _ ih =>
      obtain ⟨owner', ho⟩ := owned_step hb h hs.1 hs.2
      exact ih (entry_step_base hb hs.2).1 ho

/-- A switch from a live task to another live task leaves both with one stack. -/
theorem unsafe_switch_shares (hb : EntryBase s.kernel) (hbad : ¬ op.Safe s)
    (hs : EntryOp.step s op s') : op.Loads ∧ ¬ StacksDistinct s'.kernel := by
  cases op with
  | switchTo t =>
      refine ⟨trivial, ?_⟩
      obtain ⟨hp, cur, hcur, hal⟩ := hb
      obtain ⟨c, hc, hlive, hct⟩ : ∃ c, s.kernel.currentTaskTCB = some c ∧ s.kernel.Live c ∧
          c ≠ t := by
        by_contra hno
        apply hbad
        intro c hc hlive
        by_contra hct
        exact hno ⟨c, hc, hlive, hct⟩
      obtain ⟨hen, hcase⟩ := entry_step_cases hs
      have hsw : s.kernel.switchToTaskWrapper t = .ok s'.kernel := by
        rcases hcase with ⟨M, M2, cr3, ho, -⟩ | ⟨t', ho, hk, -⟩ | ⟨c, page, ho, -⟩ |
          ⟨c, old, new, fs, ho, -⟩ | ⟨c, UP, page, io, ho, -⟩ | ⟨c, ho, -⟩
        · cases ho
        · cases ho
          exact hk
        all_goals cases ho
      have hw := switchToTaskWrapper_switched hp hc hsw
      intro hd
      have hlive' : ∀ x, s.kernel.Live x → s'.kernel.Live x := by
        intro x hx
        refine ⟨hw.allocated ▸ hx.1, fun hg => hx.2 ((hw.gone x).mp hg).1⟩
      refine hct (hd c t (hlive' c hlive) (hlive' t hen) ?_)
      rw [hw.rsp0, Function.update_self, Function.update_of_ne hct.symm]
  | _ => exact absurd trivial hbad

/-- Along a run from boot, the entry stacks are right in every state after the first call of
`loadRSP0` exactly if no switch leaves a live task for another one. Before that call the task
state segment still holds the value it is assembled with. -/
theorem entry_stacks_iff_no_live_switch (junk : Kernel) (t : Tid) (cr3 : UInt64)
    (ls : List EntryOp) (s : EntryState) (h : Run EntryOp.step (EntryState.boot junk t cr3) ls s) :
    ((∀ pre post s', ls = pre ++ post → Run EntryOp.step (EntryState.boot junk t cr3) pre s' →
        (∃ op ∈ pre, op.Loads) → EntryStacks s'.kernel) ↔
      Run (Guarded EntryOp.Safe EntryOp.step) (EntryState.boot junk t cr3) ls s) ∧
    (∀ pre post s', ls = pre ++ post → Run EntryOp.step (EntryState.boot junk t cr3) pre s' →
        (∀ op ∈ pre, ¬ op.Loads) → ¬ EntryStacks s'.kernel) := by
  have hb := boot_base junk t cr3
  have ho := boot_owned junk t cr3
  refine ⟨⟨?_, ?_⟩, ?_⟩
  · intro hall
    have hfirst : Run (Guarded EntryOp.Safe EntryOp.step) _ ls s ∨ _ := run_guarded_or_first_bad h
    rcases hfirst with hgood | ⟨pre, op, post, s₁, s₂, rfl, hpre, hbad, hstep⟩
    · exact hgood
    · obtain ⟨hb₁, -⟩ := safe_run_owned hb ho hpre
      obtain ⟨hload, hshare⟩ := unsafe_switch_shares hb₁ hbad hstep
      have hrun := run_concat.mpr ⟨s₁, run_of_guarded hpre, hstep⟩
      have hgood := hall (pre ++ [op]) post s₂ (by simp) hrun ⟨op, by simp, hload⟩
      exact absurd hgood.1 hshare
  · intro hgood pre post s' he hpre hload
    subst he
    obtain ⟨s₁, hpre₁, -⟩ := run_append.mp hgood
    obtain rfl := run_unique entry_step_deterministic hpre (run_of_guarded hpre₁)
    obtain ⟨-, owner, hown⟩ := safe_run_owned hb ho hpre₁
    exact ⟨hown.distinct, (run_tss hb hpre).2.1 hload⟩
  · intro pre post s' _ hpre hnone hstacks
    obtain ⟨hc, ht, hr⟩ := (run_tss hb hpre).2.2 hnone
    have htss := hstacks.2 t (hc.trans rfl)
    have hboot : (0x8000040000 : UInt64) = 0x8000007bff :=
      (ht.symm.trans htss).trans ((hr t rfl).trans (Function.update_self t _ _))
    exact absurd hboot (by decide)

/-- The boot task creates a task and is switched away from. -/
theorem entry_stack_shared_by_switch : ∃ s,
    Run EntryOp.step (EntryState.boot Kernel.zeroed 1 0x1000)
      [.ckprocA 2 0x2000 0x3000, .switchTo 2] s ∧
    s.kernel.Live 1 ∧ s.kernel.Live 2 ∧ s.kernel.rsp0 1 = s.kernel.rsp0 2 ∧
    ¬ EntryStacks s.kernel := by
  refine ⟨_, Run.cons ⟨?_, rfl⟩ (Run.cons ⟨?_, rfl⟩ (Run.nil _)), ?_⟩
  · exact ⟨by decide, ⟨by decide, by decide⟩, ⟨by decide, by decide⟩, by decide⟩
  · exact ⟨by decide, by decide⟩
  · refine ⟨by decide, by decide, rfl, fun hs => ?_⟩
    exact absurd (hs.1 1 2 (by decide) (by decide) rfl) (by decide)

/-- A task is created, and the boot task goes through one system call. -/
theorem entry_stacks_one_syscall : ∃ s,
    Run EntryOp.step (EntryState.boot Kernel.zeroed 1 0x1000)
      [.ckprocA 2 0x2000 0x3000, .enterSyscall 0x4000, .leaveSyscall] s ∧ EntryStacks s.kernel := by
  have hrun : ∃ s, Run (Guarded EntryOp.Safe EntryOp.step)
      (EntryState.boot Kernel.zeroed 1 0x1000)
      [.ckprocA 2 0x2000 0x3000, .enterSyscall 0x4000, .leaveSyscall] s := by
    refine ⟨_, Run.cons ⟨trivial, ?_, rfl⟩ (Run.cons ⟨trivial, ?_, rfl⟩
      (Run.cons ⟨trivial, ?_, rfl⟩ (Run.nil _)))⟩
    · exact ⟨by decide, ⟨by decide, by decide⟩, ⟨by decide, by decide⟩, by decide⟩
    · refine ⟨fun c hc => ?_, by decide, by decide⟩
      obtain rfl : 1 = c := Option.some.inj hc
      decide
    · intro c hc
      obtain rfl : 1 = c := Option.some.inj hc
      decide
  obtain ⟨s, hs⟩ := hrun
  have hs' := run_of_guarded hs
  refine ⟨s, hs', ?_⟩
  exact (entry_stacks_iff_no_live_switch Kernel.zeroed 1 0x1000 _ s hs').1.mpr hs _ [] s
    (List.append_nil _).symm hs' ⟨.leaveSyscall, by simp, trivial⟩

end UnnamedOS.Proc
