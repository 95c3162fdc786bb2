import UnnamedOS.Lib.Run
import UnnamedOS.Proc.EntryStack

/-!
# Address spaces

Entry 0 of the live top-level table belongs to the running task; the other tasks keep theirs in
the first word of their `cr3` page. `switch_to_task` swaps them, `ALSP` fills the live one and
`reap` gives the pages of a task back.
-/

namespace UnnamedOS.Proc

open UnnamedOS.Lib

/-- The tables have `frame p` for the page at `p`. The mask of the second index leaves out bit 30. -/
def V2P (frame : UInt64 → UInt64) (V : UInt64) : UInt64 :=
  frame (V &&& 0xFFFFBFFFF000) + (V &&& 0xFFF)

/-- What `ALSP` does to entry 0 for a user page: an absent entry gets the page `M`. -/
def Kernel.alspTop (k : Kernel) (frame : UInt64 → UInt64) (M : UInt64) : Kernel :=
  if k.pml4Slot0 &&& 1 = 0 then { k with pml4Slot0 := V2P frame M ||| 7, pages := M :: k.pages }
  else k

/-- The kernel, the frames that the tables have for the pages of its half, 0 for an absent one, the
tasks that have been created and not reaped, and the entry `ALSP` last filled for each of them. -/
structure SpaceState where
  kernel : Kernel
  frame : UInt64 → UInt64
  tasks : List Tid
  u : Tid → UInt64

inductive SpaceOp where
  | ckprocA (M : Tid) (M2 cr3 f2 fc : UInt64)
  | switchTo (t : Tid)
  /-- With the page that `KPALLOC` returns where the entry is absent, and its frame. -/
  | alsp (M f : UInt64)
  /-- Any other page the kernel takes. -/
  | kpalloc (p f : UInt64)
  /-- `PROC_EXIT` up to `schedule`. -/
  | exit
  | reap (d : Tid)

/-- The new task `M` has no entry yet. -/
def SpaceState.spawn (s : SpaceState) (k : Kernel) (M : Tid) (M2 cr3 f2 fc : UInt64) : SpaceState where
  kernel := k
  frame := Function.update (Function.update s.frame M2 f2) cr3 fc
  tasks := M :: s.tasks
  u := Function.update s.u M 0

namespace SpaceOp

def exec (s : SpaceState) : SpaceOp → Except Halt SpaceState
  | ckprocA M M2 cr3 f2 fc =>
    match s.kernel.ckprocA M M2 cr3 with
    | .error e => .error e
    | .ok k => .ok (s.spawn k M M2 cr3 f2 fc)
  | switchTo t =>
    match s.kernel.switchToTask t with
    | .error e => .error e
    | .ok k => .ok { s with kernel := k }
  | alsp M f =>
    match s.kernel.currentTaskTCB with
    | none => .error .nullPointer
    | some c =>
      if s.kernel.pml4Slot0 &&& 1 = 0 then
        let frame := Function.update s.frame M f
        let k := s.kernel.alspTop frame M
        .ok { s with kernel := k, frame := frame, u := Function.update s.u c k.pml4Slot0 }
      else .ok s
  | kpalloc p f =>
    .ok { s with
      kernel := { s.kernel with pages := p :: s.kernel.pages }
      frame := Function.update s.frame p f }
  | exit =>
    match s.kernel.currentTaskTCB with
    | none => .error .nullPointer
    | some c => .ok { s with kernel := s.kernel.setState c .dead }
  | reap d =>
    match s.kernel.reapTask d with
    | .error e => .error e
    | .ok k =>
      .ok { s with
        kernel := k
        -- `P_FREE` clears the entry of the page
        frame := if s.kernel.cr3 d = 0 then s.frame
          else Function.update s.frame (s.kernel.cr3 d) 0
        tasks := s.tasks.filter (· ≠ d) }

/-- `KPALLOC` hands out a page that is not in use, at a frame that backs no page in use. -/
def Fresh (s : SpaceState) (p f : UInt64) : Prop :=
  s.kernel.FreshPage p ∧ p < 0x1000000000000 ∧ f % 4096 = 0 ∧ ∀ q ∈ s.kernel.pages, s.frame q ≠ f

instance (s : SpaceState) (p f : UInt64) : Decidable (Fresh s p f) :=
  -- the pages in use are a list: not every address is tried
  haveI : Decidable (∀ q ∈ s.kernel.pages, s.frame q ≠ f) := List.decidableBAll _ _
  inferInstanceAs (Decidable ((p ∉ s.kernel.pages ∧ p % 4096 = 0) ∧ p < 0x1000000000000 ∧
    f % 4096 = 0 ∧ ∀ q ∈ s.kernel.pages, s.frame q ≠ f))

def Enabled (s : SpaceState) : SpaceOp → Prop
  | ckprocA M M2 cr3 f2 fc =>
    M ∉ s.kernel.allocated ∧ Fresh s M2 f2 ∧ Fresh s cr3 fc ∧ M2 ≠ cr3 ∧ f2 ≠ fc
  | switchTo t => t ∈ s.tasks ∧ s.kernel.Live t
  | alsp M f => Fresh s M f
  | kpalloc p f => Fresh s p f
  | exit => True
  | reap d => d ∈ s.tasks ∧ s.kernel.Gone d ∧ s.kernel.currentTaskTCB ≠ some d

instance (s : SpaceState) : ∀ op : SpaceOp, Decidable (op.Enabled s)
  | ckprocA M M2 cr3 f2 fc => inferInstanceAs (Decidable
      (M ∉ s.kernel.allocated ∧ Fresh s M2 f2 ∧ Fresh s cr3 fc ∧ M2 ≠ cr3 ∧ f2 ≠ fc))
  | switchTo t => inferInstanceAs (Decidable (t ∈ s.tasks ∧ s.kernel.Live t))
  | alsp M f => inferInstanceAs (Decidable (Fresh s M f))
  | kpalloc p f => inferInstanceAs (Decidable (Fresh s p f))
  | exit => inferInstanceAs (Decidable True)
  | reap d => inferInstanceAs (Decidable
      (d ∈ s.tasks ∧ s.kernel.Gone d ∧ s.kernel.currentTaskTCB ≠ some d))

def step (s : SpaceState) (op : SpaceOp) (s' : SpaceState) : Prop :=
  op.Enabled s ∧ op.exec s = .ok s'

/-- A page that `ALSP` takes for entry 0 lies in a GiB with an even number, counted from address 0. -/
def EvenGiB (s : SpaceState) : SpaceOp → Prop
  | alsp M _ => s.kernel.pml4Slot0 &&& 1 = 0 → M &&& 0x40000000 = 0
  | _ => True

instance (s : SpaceState) : ∀ op : SpaceOp, Decidable (op.EvenGiB s)
  | alsp M _ => inferInstanceAs (Decidable (s.kernel.pml4Slot0 &&& 1 = 0 → M &&& 0x40000000 = 0))
  | ckprocA _ _ _ _ _ | switchTo _ | kpalloc _ _ | exit | reap _ => isTrue trivial

end SpaceOp

def SpaceState.boot (junk : Kernel) (t : Tid) (cr3 : UInt64) (frame : UInt64 → UInt64) :
    SpaceState where
  kernel := junk.initializeMultitasking t cr3
  frame := frame
  tasks := [t]
  u _ := 0

variable {k k' : Kernel} {s s' : SpaceState} {op : SpaceOp} {ops : List SpaceOp} {c d t : Tid}
  {M : Tid} {M2 cr3 f g : UInt64}

theorem or_seven_inj (hf : f % 4096 = 0) (hg : g % 4096 = 0) (h : f ||| 7 = g ||| 7) : f = g := by
  have hor : ∀ x : UInt64, x % 4096 = 0 → (x ||| 7).toNat = x.toNat + 7 := by
    intro x hx
    have hmod : x.toNat % 4096 = 0 := by
      have hn := congrArg UInt64.toNat hx
      simpa using hn
    have hsplit : x.toNat = 2 ^ 12 * (x.toNat / 4096) := by omega
    have hlt : 7 < 2 ^ 12 := by decide
    rw [UInt64.toNat_or, hsplit]
    exact (Nat.two_pow_add_eq_or_of_lt hlt _).symm
  have hnat := congrArg UInt64.toNat h
  rw [hor f hf, hor g hg] at hnat
  exact UInt64.toNat_inj.mp (Nat.add_right_cancel hnat)

/-- In a GiB with an even number, `V2P` looks up the page itself. -/
theorem V2P_page (frame : UInt64 → UInt64) {V : UInt64} (hpage : V % 4096 = 0)
    (hlow : V < 0x1000000000000) (heven : V &&& 0x40000000 = 0) : V2P frame V = frame V := by
  have hoffset : V &&& 0xFFF = 0 := by
    rw [← hpage, ← UInt64.toNat_inj, UInt64.toNat_and, UInt64.toNat_mod]
    exact Nat.and_two_pow_sub_one_eq_mod V.toNat 12
  have hself : V &&& 0xFFFFBFFFF000 = V := by
    have hmask : (0xFFFFFFFFFFFF : Nat) = 0xFFFFBFFFF000 ||| (0xFFF ||| 0x40000000) := by decide
    have hall : V.toNat &&& 0xFFFFFFFFFFFF = V.toNat :=
      (Nat.and_two_pow_sub_one_eq_mod V.toNat 48).trans (Nat.mod_eq_of_lt hlow)
    have hoffset' : V.toNat &&& 0xFFF = 0 := congrArg UInt64.toNat hoffset
    have heven' : V.toNat &&& 0x40000000 = 0 := congrArg UInt64.toNat heven
    rw [hmask, Nat.and_or_distrib_left, Nat.and_or_distrib_left, hoffset', heven', Nat.or_zero,
      Nat.or_zero] at hall
    rw [← UInt64.toNat_inj, UInt64.toNat_and]
    exact hall
  rw [V2P, hoffset, hself, UInt64.add_zero]

/-- A step that leaves the tables and pages alone. -/
structure SameSpace (k k' : Kernel) : Prop where
  current : k'.currentTaskTCB = k.currentTaskTCB
  slot : k'.pml4Slot0 = k.pml4Slot0
  word : k'.cr3Word = k.cr3Word
  cr3 : k'.cr3 = k.cr3
  pages : k'.pages = k.pages
  allocated : k'.allocated = k.allocated

theorem SameSpace.refl (k : Kernel) : SameSpace k k := ⟨rfl, rfl, rfl, rfl, rfl, rfl⟩

theorem unblockTask_sameSpace (h : k.unblockTask t = .ok k') : SameSpace k k' := by
  obtain ⟨-, -, hk⟩ := Kernel.unblockTask_ok h
  rcases hk with ⟨-, rfl⟩ | ⟨f, l, -, -, rfl⟩
  · exact ⟨rfl, rfl, rfl, rfl, rfl, rfl⟩
  · exact ⟨rfl, rfl, rfl, rfl, rfl, rfl⟩

theorem murderChild_sameSpace (h : k.murderChild d = .ok k') : SameSpace k k' := by
  unfold Kernel.murderChild at h
  split at h
  · cases h
  · split at h
    · cases h
    · dsimp only at h
      split at h
      · obtain rfl := Except.ok.inj h
        exact ⟨rfl, rfl, rfl, rfl, rfl, rfl⟩
      · have hs := unblockTask_sameSpace h
        exact ⟨hs.current, hs.slot, hs.word, hs.cr3, hs.pages, hs.allocated⟩

/-- A reaped task's page and block go, and nothing else does. -/
structure Reclaimed (k k' : Kernel) (d : Tid) : Prop where
  current : k'.currentTaskTCB = k.currentTaskTCB
  slot : k'.pml4Slot0 = k.pml4Slot0
  word : k'.cr3Word = k.cr3Word
  cr3 : k'.cr3 = k.cr3
  pages : k'.pages = if k.cr3 d = 0 then k.pages else k.pages.erase (k.cr3 d)
  allocated : ∀ x ∈ k.allocated, x ≠ d → x ∈ k'.allocated

theorem reapTask_reclaimed (h : k.reapTask d = .ok k') : Reclaimed k k' d := by
  have hmid : ∃ k₁, SameSpace k k₁ ∧ k' = (k₁.freeCr3 d).freeTask d := by
    unfold Kernel.reapTask at h
    split at h
    · cases h
    · rename_i k₁ hk₁
      refine ⟨k₁, ?_, (Except.ok.inj h).symm⟩
      split at hk₁
      · obtain rfl := Except.ok.inj hk₁
        exact SameSpace.refl _
      · exact murderChild_sameSpace hk₁
  obtain ⟨k₁, hs, rfl⟩ := hmid
  have hpages : (k₁.freeCr3 d).pages =
      if k₁.cr3 d = 0 then k₁.pages else k₁.pages.erase (k₁.cr3 d) := by
    unfold Kernel.freeCr3
    split
    · rfl
    · rfl
  have hfree : ∀ k₂ : Kernel, SameSpace k₂ { k₂.freeTask d with allocated := k₂.allocated } ∧
      ∀ x ∈ k₂.allocated, x ≠ d → x ∈ (k₂.freeTask d).allocated := by
    intro k₂
    unfold Kernel.freeTask
    split
    · exact ⟨SameSpace.refl _, fun x hx _ => hx⟩
    · exact ⟨⟨rfl, rfl, rfl, rfl, rfl, rfl⟩, fun x hx hne => (List.mem_erase_of_ne hne).mpr hx⟩
  obtain ⟨hsame, halloc⟩ := hfree (k₁.freeCr3 d)
  obtain ⟨pg, hpg⟩ := Kernel.freeCr3_eq k₁ d
  have hcr3 : ∀ (x : Kernel), x = k₁.freeCr3 d → x.currentTaskTCB = k₁.currentTaskTCB ∧
      x.pml4Slot0 = k₁.pml4Slot0 ∧ x.cr3Word = k₁.cr3Word ∧ x.cr3 = k₁.cr3 ∧
      x.allocated = k₁.allocated := by
    rintro x rfl
    rw [hpg]
    exact ⟨rfl, rfl, rfl, rfl, rfl⟩
  obtain ⟨hcur, hslot, hword, hcr, hal⟩ := hcr3 _ rfl
  refine ⟨hsame.current.trans (hcur.trans hs.current), hsame.slot.trans (hslot.trans hs.slot),
    hsame.word.trans (hword.trans hs.word), hsame.cr3.trans (hcr.trans hs.cr3), ?_,
    fun x hx hne => halloc x (by rw [hal, hs.allocated]; exact hx) hne⟩
  have hp : ((k₁.freeCr3 d).freeTask d).pages = (k₁.freeCr3 d).pages := hsame.pages
  rw [hp, hpages, hs.pages, hs.cr3]

/-- What `ckprocA` does to the fields this module is about. -/
structure Spawned (k k' : Kernel) (M : Tid) (M2 cr3 : UInt64) : Prop where
  current : k'.currentTaskTCB = k.currentTaskTCB
  slot : k'.pml4Slot0 = k.pml4Slot0
  word : k'.cr3Word = Function.update k.cr3Word cr3 0
  pages : k'.pages = cr3 :: M2 :: k.pages
  cr3 : k'.cr3 = Function.update k.cr3 M cr3
  allocated : k'.allocated = M :: k.allocated

theorem ckprocA_spawned (h : k.ckprocA M M2 cr3 = .ok k') : Spawned k k' M M2 cr3 := by
  unfold Kernel.ckprocA at h
  split at h
  · cases h
  · dsimp only at h
    split at h
    · unfold Kernel.appendThread at h
      split at h
      · cases h
      · obtain rfl := Except.ok.inj h
        exact ⟨rfl, rfl, rfl, rfl, rfl, rfl⟩
    · obtain rfl := Except.ok.inj h
      exact ⟨rfl, rfl, rfl, rfl, rfl, rfl⟩

theorem requeue_sameSpace (h : k.requeue c = .ok k') : SameSpace k k' := by
  by_cases hr : k.state c = .running
  · cases hl : k.lastThread with
    | none => simp [Kernel.requeue, hr, Kernel.appendThread, Kernel.setState, hl] at h
    | some l =>
        simp only [Kernel.requeue, hr, Kernel.appendThread, Kernel.setState, Kernel.setNext, hl,
          if_true, Except.ok.injEq] at h
        subst h
        exact ⟨rfl, rfl, rfl, rfl, rfl, rfl⟩
  · rw [Kernel.requeue, if_neg hr] at h
    obtain rfl := Except.ok.inj h
    exact SameSpace.refl _

theorem swapUserMemory_same (h : k.cr3 t = k.cr3 c) :
    { k.setState t .running with currentTaskTCB := some t }.swapUserMemory c t =
      { k.setState t .running with currentTaskTCB := some t } := if_pos h

theorem swapUserMemory_other (h : k.cr3 t ≠ k.cr3 c) :
    { k.setState t .running with currentTaskTCB := some t }.swapUserMemory c t =
      { k.setState t .running with
        currentTaskTCB := some t
        cr3Word := Function.update k.cr3Word (k.cr3 c) k.pml4Slot0
        pml4Slot0 := Function.update k.cr3Word (k.cr3 c) k.pml4Slot0 (k.cr3 t) } := if_neg h

/-- The two exchanges of `switch_to_task`. -/
theorem switchToTask_space (hc : k.currentTaskTCB = some c) (h : k.switchToTask t = .ok k') :
    k'.currentTaskTCB = some t ∧ k'.cr3 = k.cr3 ∧ k'.pages = k.pages ∧
      k'.allocated = k.allocated ∧
      ((k.cr3 t = k.cr3 c ∧ k'.cr3Word = k.cr3Word ∧ k'.pml4Slot0 = k.pml4Slot0) ∨
        (k.cr3 t ≠ k.cr3 c ∧
          k'.cr3Word = Function.update k.cr3Word (k.cr3 c) k.pml4Slot0 ∧
          k'.pml4Slot0 = k.cr3Word (k.cr3 t))) := by
  have hmid : ∃ k₁ : Kernel, SameSpace k k₁ ∧
      k' = { k₁.setState t .running with currentTaskTCB := some t }.swapUserMemory c t := by
    simp only [Kernel.switchToTask, hc] at h
    split at h
    · cases h
    · rename_i k₁ hk₁
      exact ⟨k₁, requeue_sameSpace hk₁, (Except.ok.inj h).symm⟩
  obtain ⟨k₁, hs, rfl⟩ := hmid
  by_cases heq : k₁.cr3 t = k₁.cr3 c
  · rw [swapUserMemory_same heq]
    rw [hs.cr3] at heq
    exact ⟨rfl, hs.cr3, hs.pages, hs.allocated, Or.inl ⟨heq, hs.word, hs.slot⟩⟩
  · have hword : Function.update k₁.cr3Word (k₁.cr3 c) k₁.pml4Slot0 =
        Function.update k.cr3Word (k.cr3 c) k.pml4Slot0 := by rw [hs.word, hs.cr3, hs.slot]
    have hslot : Function.update k₁.cr3Word (k₁.cr3 c) k₁.pml4Slot0 (k₁.cr3 t) =
        k.cr3Word (k.cr3 t) := by rw [Function.update_of_ne heq, hs.word, hs.cr3]
    rw [swapUserMemory_other heq]
    rw [hs.cr3] at heq
    exact ⟨rfl, hs.cr3, hs.pages, hs.allocated, Or.inr ⟨heq, hword, hslot⟩⟩

/-- The tasks' pages are different pages in use, and so are the pages their entries lead to. -/
structure SpaceInv (s : SpaceState) : Prop where
  current : ∃ c, s.kernel.currentTaskTCB = some c ∧ c ∈ s.tasks
  slot : ∀ c, s.kernel.currentTaskTCB = some c → s.kernel.pml4Slot0 = s.u c
  word : ∀ t ∈ s.tasks, s.kernel.currentTaskTCB ≠ some t →
    s.kernel.cr3Word (s.kernel.cr3 t) = s.u t
  distinct : ∀ t ∈ s.tasks, ∀ t' ∈ s.tasks, s.u t ≠ 0 → s.u t = s.u t' → t = t'
  allocated : ∀ t ∈ s.tasks, t ∈ s.kernel.allocated
  page : ∀ t ∈ s.tasks, s.kernel.cr3 t ∈ s.kernel.pages
  cr3 : ∀ t ∈ s.tasks, ∀ t' ∈ s.tasks, s.kernel.cr3 t = s.kernel.cr3 t' → t = t'
  top : ∀ t ∈ s.tasks, s.u t ≠ 0 → ∃ M ∈ s.kernel.pages, s.u t = s.frame M ||| 7 ∧
    ∀ t' ∈ s.tasks, s.kernel.cr3 t' ≠ M
  frames : ∀ p ∈ s.kernel.pages, ∀ q ∈ s.kernel.pages, s.frame p = s.frame q → p = q
  aligned : ∀ p ∈ s.kernel.pages, s.frame p % 4096 = 0
  nodup : s.kernel.pages.Nodup

namespace SpaceInv

theorem ne_of_fresh (hf : SpaceOp.Fresh s M2 f) {p : UInt64} (hp : p ∈ s.kernel.pages) :
    p ≠ M2 := fun he => hf.1.1 (he ▸ hp)

/-- Pages in use stay different, aligned frames when a fresh one is taken. -/
theorem grow (hi : SpaceInv s) (hf : SpaceOp.Fresh s M2 f) :
    (∀ p ∈ M2 :: s.kernel.pages, ∀ q ∈ M2 :: s.kernel.pages,
      Function.update s.frame M2 f p = Function.update s.frame M2 f q → p = q) ∧
      ∀ p ∈ M2 :: s.kernel.pages, Function.update s.frame M2 f p % 4096 = 0 := by
  have hold : ∀ p ∈ s.kernel.pages, Function.update s.frame M2 f p = s.frame p :=
    fun p hp => Function.update_of_ne (ne_of_fresh hf hp) _ _
  have hnew : Function.update s.frame M2 f M2 = f := Function.update_self M2 f s.frame
  constructor
  · intro p hp q hq heq
    rcases List.mem_cons.mp hp with rfl | hpo
    · rcases List.mem_cons.mp hq with rfl | hqo
      · rfl
      · rw [hnew, hold q hqo] at heq
        exact absurd heq.symm (hf.2.2.2 q hqo)
    · rcases List.mem_cons.mp hq with rfl | hqo
      · rw [hnew, hold p hpo] at heq
        exact absurd heq (hf.2.2.2 p hpo)
      · rw [hold p hpo, hold q hqo] at heq
        exact hi.frames p hpo q hqo heq
  · intro p hp
    rcases List.mem_cons.mp hp with rfl | hp
    · rw [hnew]
      exact hf.2.2.1
    · rw [hold p hp]
      exact hi.aligned p hp

/-- The kernel takes a page for itself. -/
theorem kpalloc (hi : SpaceInv s) (hf : SpaceOp.Fresh s M2 f) :
    SpaceInv { s with
      kernel := { s.kernel with pages := M2 :: s.kernel.pages }
      frame := Function.update s.frame M2 f } where
  current := hi.current
  slot := hi.slot
  word := hi.word
  distinct := hi.distinct
  allocated := hi.allocated
  page t ht := List.mem_cons_of_mem M2 (hi.page t ht)
  cr3 := hi.cr3
  top t ht hu := by
    obtain ⟨M, hM, huM, hne⟩ := hi.top t ht hu
    refine ⟨M, List.mem_cons_of_mem M2 hM, ?_, hne⟩
    change s.u t = Function.update s.frame M2 f M ||| 7
    rw [Function.update_of_ne (ne_of_fresh hf hM)]
    exact huM
  frames := (hi.grow hf).1
  aligned := (hi.grow hf).2
  nodup := List.nodup_cons.mpr ⟨hf.1.1, hi.nodup⟩

section Spawn

variable {f2 fc : UInt64}

theorem ne_of_spawned (hi : SpaceInv s) (hen : (SpaceOp.ckprocA M M2 cr3 f2 fc).Enabled s)
    (ht : t ∈ s.tasks) : t ≠ M := fun he => hen.1 (he ▸ hi.allocated t ht)

/-- The second page of the new task is fresh when the first has been taken. -/
theorem second_fresh (hen : (SpaceOp.ckprocA M M2 cr3 f2 fc).Enabled s) :
    SpaceOp.Fresh { s with
      kernel := { s.kernel with pages := M2 :: s.kernel.pages }
      frame := Function.update s.frame M2 f2 } cr3 fc := by
  obtain ⟨-, hf2, hfc, hpages, hframes⟩ := hen
  refine ⟨⟨fun hm => ?_, hfc.1.2⟩, hfc.2.1, hfc.2.2.1, fun q hq => ?_⟩
  · rcases List.mem_cons.mp hm with heq | hm
    · exact hpages heq.symm
    · exact hfc.1.1 hm
  · change Function.update s.frame M2 f2 q ≠ fc
    rcases List.mem_cons.mp hq with rfl | hq
    · rw [Function.update_self]
      exact hframes
    · rw [Function.update_of_ne (ne_of_fresh hf2 hq)]
      exact hfc.2.2.2 q hq

/-- The kernel once it has taken both pages of the new task. -/
theorem both (hi : SpaceInv s) (hen : (SpaceOp.ckprocA M M2 cr3 f2 fc).Enabled s) :
    SpaceInv { s with
      kernel := { s.kernel with pages := cr3 :: M2 :: s.kernel.pages }
      frame := Function.update (Function.update s.frame M2 f2) cr3 fc } :=
  (hi.kpalloc hen.2.1).kpalloc (second_fresh hen)

theorem spawn_u (hi : SpaceInv s) (hen : (SpaceOp.ckprocA M M2 cr3 f2 fc).Enabled s)
    (ht : t ∈ s.tasks) : Function.update s.u M 0 t = s.u t :=
  Function.update_of_ne (hi.ne_of_spawned hen ht) _ _

theorem spawn_cr3 (hi : SpaceInv s) (hen : (SpaceOp.ckprocA M M2 cr3 f2 fc).Enabled s)
    (hs : Spawned s.kernel k' M M2 cr3) (ht : t ∈ s.tasks) : k'.cr3 t = s.kernel.cr3 t := by
  rw [hs.cr3, Function.update_of_ne (hi.ne_of_spawned hen ht)]

theorem spawn_cr3_ne (hi : SpaceInv s) (hen : (SpaceOp.ckprocA M M2 cr3 f2 fc).Enabled s)
    (ht : t ∈ s.tasks) : s.kernel.cr3 t ≠ cr3 := ne_of_fresh hen.2.2.1 (hi.page t ht)

theorem spawn_word (hi : SpaceInv s) (hen : (SpaceOp.ckprocA M M2 cr3 f2 fc).Enabled s)
    (hs : Spawned s.kernel k' M M2 cr3) (ht : t ∈ M :: s.tasks)
    (hnc : k'.currentTaskTCB ≠ some t) : k'.cr3Word (k'.cr3 t) = Function.update s.u M 0 t := by
  rcases List.mem_cons.mp ht with rfl | ht
  · rw [hs.cr3, hs.word, Function.update_self, Function.update_self, Function.update_self]
  · rw [hs.current] at hnc
    rw [hi.spawn_cr3 hen hs ht, hs.word, Function.update_of_ne (hi.spawn_cr3_ne hen ht),
      hi.spawn_u hen ht]
    exact hi.word t ht hnc

theorem spawn_distinct (hi : SpaceInv s) (hen : (SpaceOp.ckprocA M M2 cr3 f2 fc).Enabled s)
    (ht : t ∈ M :: s.tasks) (hc : c ∈ M :: s.tasks) (hne : Function.update s.u M 0 t ≠ 0)
    (heq : Function.update s.u M 0 t = Function.update s.u M 0 c) : t = c := by
  rcases List.mem_cons.mp ht with rfl | ht
  · exact absurd (Function.update_self _ _ _) hne
  · rcases List.mem_cons.mp hc with rfl | hc
    · rw [heq, Function.update_self] at hne
      exact absurd rfl hne
    · rw [hi.spawn_u hen ht, hi.spawn_u hen hc] at heq
      rw [hi.spawn_u hen ht] at hne
      exact hi.distinct t ht c hc hne heq

theorem spawn_cr3_inj (hi : SpaceInv s) (hen : (SpaceOp.ckprocA M M2 cr3 f2 fc).Enabled s)
    (hs : Spawned s.kernel k' M M2 cr3) (ht : t ∈ M :: s.tasks) (hc : c ∈ M :: s.tasks)
    (heq : k'.cr3 t = k'.cr3 c) : t = c := by
  have hnew : k'.cr3 M = cr3 := by rw [hs.cr3, Function.update_self]
  rcases List.mem_cons.mp ht with rfl | hto
  · rcases List.mem_cons.mp hc with rfl | hc
    · rfl
    · rw [hnew, hi.spawn_cr3 hen hs hc] at heq
      exact absurd heq.symm (hi.spawn_cr3_ne hen hc)
  · rcases List.mem_cons.mp hc with rfl | hco
    · rw [hnew, hi.spawn_cr3 hen hs hto] at heq
      exact absurd heq (hi.spawn_cr3_ne hen hto)
    · rw [hi.spawn_cr3 hen hs hto, hi.spawn_cr3 hen hs hco] at heq
      exact hi.cr3 t hto c hco heq

/-- The pages that the entries lead to are old ones, and neither of the new task's. -/
theorem spawn_top (hi : SpaceInv s) (hen : (SpaceOp.ckprocA M M2 cr3 f2 fc).Enabled s)
    (hs : Spawned s.kernel k' M M2 cr3) (ht : t ∈ M :: s.tasks)
    (hne : Function.update s.u M 0 t ≠ 0) :
    ∃ p ∈ k'.pages, Function.update s.u M 0 t =
      Function.update (Function.update s.frame M2 f2) cr3 fc p ||| 7 ∧
      ∀ c ∈ M :: s.tasks, k'.cr3 c ≠ p := by
  rcases List.mem_cons.mp ht with rfl | ht
  · exact absurd (Function.update_self _ _ _) hne
  rw [hi.spawn_u hen ht] at hne ⊢
  obtain ⟨p, hp, hup, hpne⟩ := hi.top t ht hne
  have hframe : Function.update (Function.update s.frame M2 f2) cr3 fc p = s.frame p := by
    rw [Function.update_of_ne (ne_of_fresh hen.2.2.1 hp),
      Function.update_of_ne (ne_of_fresh hen.2.1 hp)]
  refine ⟨p, ?_, ?_, fun c hc => ?_⟩
  · rw [hs.pages]
    exact List.mem_cons_of_mem _ (List.mem_cons_of_mem _ hp)
  · rw [hframe]
    exact hup
  · rcases List.mem_cons.mp hc with rfl | hc
    · rw [hs.cr3, Function.update_self]
      exact (ne_of_fresh hen.2.2.1 hp).symm
    · rw [hi.spawn_cr3 hen hs hc]
      exact hpne c hc

theorem ckprocA (hi : SpaceInv s) (hen : (SpaceOp.ckprocA M M2 cr3 f2 fc).Enabled s)
    (hs : Spawned s.kernel k' M M2 cr3) : SpaceInv (s.spawn k' M M2 cr3 f2 fc) where
  current := by
    obtain ⟨c, hc, hct⟩ := hi.current
    exact ⟨c, hs.current.trans hc, List.mem_cons_of_mem M hct⟩
  slot c hc := by
    change k'.pml4Slot0 = Function.update s.u M 0 c
    obtain ⟨c', hc', hct⟩ := hi.current
    obtain rfl := Option.some.inj (hc'.symm.trans (hs.current.symm.trans hc))
    rw [hs.slot, hi.spawn_u hen hct]
    exact hi.slot c' hc'
  word t ht hnc := hi.spawn_word hen hs ht hnc
  distinct t ht c hc hne heq := hi.spawn_distinct hen ht hc hne heq
  allocated t ht := by
    change t ∈ k'.allocated
    rw [hs.allocated]
    rcases List.mem_cons.mp ht with rfl | ht
    · exact List.mem_cons_self
    · exact List.mem_cons_of_mem M (hi.allocated t ht)
  page t ht := by
    change k'.cr3 t ∈ k'.pages
    rw [hs.pages]
    rcases List.mem_cons.mp ht with rfl | ht
    · rw [hs.cr3, Function.update_self]
      exact List.mem_cons_self
    · rw [hi.spawn_cr3 hen hs ht]
      exact List.mem_cons_of_mem _ (List.mem_cons_of_mem _ (hi.page t ht))
  cr3 t ht c hc heq := hi.spawn_cr3_inj hen hs ht hc heq
  top t ht hne := hi.spawn_top hen hs ht hne
  frames := by
    change ∀ p ∈ k'.pages, ∀ q ∈ k'.pages, _
    rw [hs.pages]
    exact (hi.both hen).frames
  aligned := by
    change ∀ p ∈ k'.pages, _
    rw [hs.pages]
    exact (hi.both hen).aligned
  nodup := by
    change k'.pages.Nodup
    rw [hs.pages]
    exact (hi.both hen).nodup

end Spawn

/-- The outgoing task's entry goes to its page and the incoming task's comes from its own. -/
theorem switchTo (hi : SpaceInv s) (ht : t ∈ s.tasks) (h : s.kernel.switchToTask t = .ok k') :
    SpaceInv { s with kernel := k' } := by
  obtain ⟨c, hc, hct⟩ := hi.current
  obtain ⟨hcur, hcr3, hpages, halloc, hswap⟩ := switchToTask_space hc h
  have hslot : k'.pml4Slot0 = s.u t := by
    rcases hswap with ⟨heq, -, hslot⟩ | ⟨hne, -, hslot⟩
    · obtain rfl := hi.cr3 t ht c hct heq
      rw [hslot]
      exact hi.slot t hc
    · rw [hslot]
      apply hi.word t ht
      rw [hc]
      exact fun he => hne (congrArg s.kernel.cr3 (Option.some.inj he).symm)
  have hword : ∀ x ∈ s.tasks, x ≠ t → k'.cr3Word (s.kernel.cr3 x) = s.u x := by
    intro x hx hxt
    rcases hswap with ⟨heq, hword, -⟩ | ⟨hne, hword, -⟩
    · obtain rfl := hi.cr3 t ht c hct heq
      rw [hword]
      apply hi.word x hx
      rw [hc]
      exact fun he => hxt (Option.some.inj he).symm
    · rw [hword]
      by_cases hxc : x = c
      · subst hxc
        rw [Function.update_self]
        exact hi.slot x hc
      · rw [Function.update_of_ne (fun he => hxc (hi.cr3 x hx c hct he))]
        apply hi.word x hx
        rw [hc]
        exact fun he => hxc (Option.some.inj he).symm
  refine ⟨⟨t, hcur, ht⟩, fun c' hc' => ?_, fun x hx hnx => ?_, hi.distinct, fun x hx => ?_,
    fun x hx => ?_, fun x hx y hy heq => ?_, fun x hx hu => ?_, ?_, ?_, ?_⟩
  · obtain rfl := Option.some.inj (hcur.symm.trans hc')
    exact hslot
  · change k'.cr3Word (k'.cr3 x) = s.u x
    rw [hcr3]
    apply hword x hx
    rintro rfl
    exact hnx hcur
  · change x ∈ k'.allocated
    rw [halloc]
    exact hi.allocated x hx
  · change k'.cr3 x ∈ k'.pages
    rw [hcr3, hpages]
    exact hi.page x hx
  · change k'.cr3 x = k'.cr3 y at heq
    rw [hcr3] at heq
    exact hi.cr3 x hx y hy heq
  · change ∃ M ∈ k'.pages, _ ∧ ∀ y ∈ s.tasks, k'.cr3 y ≠ M
    rw [hcr3, hpages]
    exact hi.top x hx hu
  · change ∀ p ∈ k'.pages, _
    rw [hpages]
    exact hi.frames
  · change ∀ p ∈ k'.pages, _
    rw [hpages]
    exact hi.aligned
  · change k'.pages.Nodup
    rw [hpages]
    exact hi.nodup

/-- The running task's empty entry gets a page of its own. -/
theorem fill (hi : SpaceInv s) (hc : s.kernel.currentTaskTCB = some c) {P f : UInt64}
    (hf : SpaceOp.Fresh s P f) :
    SpaceInv { s with
      kernel := { s.kernel with pml4Slot0 := f ||| 7, pages := P :: s.kernel.pages }
      frame := Function.update s.frame P f
      u := Function.update s.u c (f ||| 7) } := by
  have hgrow := hi.kpalloc hf
  have hu : ∀ t, t ≠ c → Function.update s.u c (f ||| 7) t = s.u t :=
    fun t ht => Function.update_of_ne ht _ _
  have huc : Function.update s.u c (f ||| 7) c = f ||| 7 := Function.update_self _ _ _
  have hself : Function.update s.frame P f P = f := Function.update_self _ _ _
  -- no other task's entry leads to the frame of the new page
  have hnew : ∀ t ∈ s.tasks, s.u t ≠ 0 → s.u t ≠ f ||| 7 := by
    intro t ht hne heq
    obtain ⟨q, hq, huq, -⟩ := hi.top t ht hne
    exact hf.2.2.2 q hq (or_seven_inj (hi.aligned q hq) hf.2.2.1 (huq.symm.trans heq))
  refine ⟨hi.current, fun c' hc' => ?_, fun t ht hnc => ?_, fun t ht t' ht' hne heq => ?_,
    hi.allocated, hgrow.page, hi.cr3, fun t ht hne => ?_, hgrow.frames, hgrow.aligned,
    hgrow.nodup⟩
  · obtain rfl := Option.some.inj (hc.symm.trans hc')
    exact huc.symm
  · change s.kernel.cr3Word (s.kernel.cr3 t) = Function.update s.u c (f ||| 7) t
    rw [hu t (fun he => hnc (he ▸ hc))]
    exact hi.word t ht hnc
  · change Function.update s.u c (f ||| 7) t ≠ 0 at hne
    change Function.update s.u c (f ||| 7) t = Function.update s.u c (f ||| 7) t' at heq
    by_cases htc : t = c
    · subst htc
      by_cases htc' : t' = t
      · exact htc'.symm
      · rw [huc] at hne
        rw [huc, hu t' htc'] at heq
        exact absurd heq.symm (hnew t' ht' (heq ▸ hne))
    · rw [hu t htc] at hne heq
      by_cases htc' : t' = c
      · subst htc'
        rw [huc] at heq
        exact absurd heq (hnew t ht hne)
      · rw [hu t' htc'] at heq
        exact hi.distinct t ht t' ht' hne heq
  · change Function.update s.u c (f ||| 7) t ≠ 0 at hne
    change ∃ M ∈ P :: s.kernel.pages, Function.update s.u c (f ||| 7) t = _ ∧ _
    by_cases htc : t = c
    · subst htc
      refine ⟨P, List.mem_cons_self, ?_, fun t' ht' => ne_of_fresh hf (hi.page t' ht')⟩
      change Function.update s.u t (f ||| 7) t = Function.update s.frame P f P ||| 7
      rw [huc, hself]
    · rw [hu t htc] at hne ⊢
      exact hgrow.top t ht hne

/-- The entries of the tasks that stay lead to pages the reaper does not give back. -/
theorem reap (hi : SpaceInv s) (hd : s.kernel.currentTaskTCB ≠ some d) (hdt : d ∈ s.tasks)
    (hr : Reclaimed s.kernel k' d) :
    SpaceInv { s with
      kernel := k'
      frame := if s.kernel.cr3 d = 0 then s.frame else Function.update s.frame (s.kernel.cr3 d) 0
      tasks := s.tasks.filter (· ≠ d) } := by
  have hmem : ∀ {x}, x ∈ s.tasks.filter (· ≠ d) ↔ x ∈ s.tasks ∧ x ≠ d := by
    intro x
    rw [List.mem_filter, decide_eq_true_iff]
  obtain ⟨c, hc, hct⟩ := hi.current
  have hcd : c ≠ d := fun he => hd (he ▸ hc)
  have hpages : ∀ p ∈ k'.pages, p ∈ s.kernel.pages ∧ (s.kernel.cr3 d = 0 ∨ p ≠ s.kernel.cr3 d) := by
    intro p hp
    rw [hr.pages] at hp
    split at hp
    · exact ⟨hp, Or.inl ‹_›⟩
    · have hp := hi.nodup.mem_erase_iff.mp hp
      exact ⟨hp.2, Or.inr hp.1⟩
  have hkept : ∀ p ∈ s.kernel.pages, p ≠ s.kernel.cr3 d → p ∈ k'.pages := by
    intro p hp hne
    rw [hr.pages]
    split
    · exact hp
    · exact hi.nodup.mem_erase_iff.mpr ⟨hne, hp⟩
  have hframe : ∀ p ∈ k'.pages, (if s.kernel.cr3 d = 0 then s.frame
      else Function.update s.frame (s.kernel.cr3 d) 0) p = s.frame p := by
    intro p hp
    split
    · rfl
    · exact Function.update_of_ne ((hpages p hp).2.resolve_left ‹_›) _ _
  refine ⟨⟨c, hr.current.trans hc, hmem.mpr ⟨hct, hcd⟩⟩, fun c' hc' => ?_, fun x hx hnx => ?_,
    fun x hx y hy => ?_, fun x hx => ?_, fun x hx => ?_, fun x hx y hy heq => ?_,
    fun x hx hu => ?_, fun p hp q hq heq => ?_, fun p hp => ?_, ?_⟩
  · change k'.pml4Slot0 = s.u c'
    rw [hr.slot]
    exact hi.slot c' (hr.current.symm.trans hc')
  · change k'.cr3Word (k'.cr3 x) = s.u x
    change k'.currentTaskTCB ≠ some x at hnx
    rw [hr.current] at hnx
    rw [hr.word, hr.cr3]
    exact hi.word x (hmem.mp hx).1 hnx
  · exact hi.distinct x (hmem.mp hx).1 y (hmem.mp hy).1
  · exact hr.allocated x (hi.allocated x (hmem.mp hx).1) (hmem.mp hx).2
  · change k'.cr3 x ∈ k'.pages
    rw [hr.cr3]
    apply hkept _ (hi.page x (hmem.mp hx).1)
    exact fun he => (hmem.mp hx).2 (hi.cr3 x (hmem.mp hx).1 d hdt he)
  · change k'.cr3 x = k'.cr3 y at heq
    rw [hr.cr3] at heq
    exact hi.cr3 x (hmem.mp hx).1 y (hmem.mp hy).1 heq
  · obtain ⟨p, hp, hup, hne⟩ := hi.top x (hmem.mp hx).1 hu
    have hp' := hkept p hp (hne d hdt).symm
    refine ⟨p, hp', hup.trans (congrArg (· ||| 7) (hframe p hp').symm), fun y hy => ?_⟩
    change k'.cr3 y ≠ p
    rw [hr.cr3]
    exact hne y (hmem.mp hy).1
  · exact hi.frames p (hpages p hp).1 q (hpages q hq).1
      ((hframe p hp).symm.trans (heq.trans (hframe q hq)))
  · exact (congrArg (· % 4096) (hframe p hp)).trans (hi.aligned p (hpages p hp).1)
  · change k'.pages.Nodup
    rw [hr.pages]
    split
    · exact hi.nodup
    · exact hi.nodup.erase _

end SpaceInv

theorem spaceStep_inv (hi : SpaceInv s) (heven : op.EvenGiB s) (h : SpaceOp.step s op s') :
    SpaceInv s' := by
  obtain ⟨hen, hex⟩ := h
  cases op with
  | ckprocA M M2 cr3 f2 fc =>
      rw [SpaceOp.exec] at hex
      split at hex
      · cases hex
      · rename_i k' hk
        rw [← Except.ok.inj hex]
        exact hi.ckprocA hen (ckprocA_spawned hk)
  | switchTo t =>
      rw [SpaceOp.exec] at hex
      split at hex
      · cases hex
      · rename_i k' hk
        rw [← Except.ok.inj hex]
        exact hi.switchTo hen.1 hk
  | alsp P f =>
      rw [SpaceOp.exec] at hex
      split at hex
      · cases hex
      · rename_i c hc
        split at hex
        · rename_i hempty
          obtain ⟨⟨-, hpage⟩, hlow, -, -⟩ := id hen
          have hentry : V2P (Function.update s.frame P f) P = f :=
            (V2P_page _ hpage hlow (heven hempty)).trans (Function.update_self _ _ _)
          rw [← Except.ok.inj hex]
          simp only [Kernel.alspTop, if_pos hempty, hentry]
          exact hi.fill hc hen
        · rw [← Except.ok.inj hex]
          exact hi
  | kpalloc p f =>
      rw [← Except.ok.inj hex]
      exact hi.kpalloc hen
  | exit =>
      rw [SpaceOp.exec] at hex
      split at hex
      · cases hex
      · rw [← Except.ok.inj hex]
        exact ⟨hi.current, hi.slot, hi.word, hi.distinct, hi.allocated, hi.page, hi.cr3, hi.top,
          hi.frames, hi.aligned, hi.nodup⟩
  | reap d =>
      rw [SpaceOp.exec] at hex
      split at hex
      · cases hex
      · rename_i k' hk
        rw [← Except.ok.inj hex]
        exact hi.reap hen.2.2 hen.1 (reapTask_reclaimed hk)

theorem boot_spaceInv (junk : Kernel) (t : Tid) (cr3 : UInt64) {frame : UInt64 → UInt64}
    (hf : frame cr3 % 4096 = 0) : SpaceInv (SpaceState.boot junk t cr3 frame) := by
  have hcr : (SpaceState.boot junk t cr3 frame).kernel.cr3 t = cr3 := Function.update_self _ _ _
  refine ⟨⟨t, rfl, List.mem_cons_self⟩, fun _ _ => rfl, fun x hx hnx => ?_, fun x hx y hy hu => ?_,
    fun x hx => ?_, fun x hx => ?_, fun x hx y hy _ => ?_, fun x hx hu => ?_, fun p hp q hq _ => ?_,
    fun p hp => ?_, List.nodup_singleton _⟩
  · obtain rfl := List.mem_singleton.mp hx
    exact absurd rfl hnx
  · exact absurd rfl hu
  · exact hx
  · obtain rfl := List.mem_singleton.mp hx
    rw [hcr]
    exact List.mem_cons_self
  · rw [List.mem_singleton.mp hx, List.mem_singleton.mp hy]
  · exact absurd rfl hu
  · rw [List.mem_singleton.mp hp, List.mem_singleton.mp hq]
  · rw [List.mem_singleton.mp hp]
    exact hf

/-- Two live tasks find different entries in place of the top table's first. -/
def SpaceState.Apart (s : SpaceState) : Prop :=
  ∀ x ∈ s.tasks, ∀ y ∈ s.tasks, x ≠ y → s.u x ≠ 0 → s.u x ≠ s.u y

/-- As long as the pages that `ALSP` takes for entry 0 lie in even GiBs, the live entry is the
running task's in every state, every other task that has not been reaped finds its own in its `cr3`
page, and no two of them share an entry. -/
theorem address_spaces_consistent_even (junk : Kernel) (t : Tid) (cr3 : UInt64)
    {frame : UInt64 → UInt64} (hf : frame cr3 % 4096 = 0)
    (h : Run (Guarded SpaceOp.EvenGiB SpaceOp.step) (SpaceState.boot junk t cr3 frame) ops s) :
    (∀ c, s.kernel.currentTaskTCB = some c → s.kernel.pml4Slot0 = s.u c) ∧
      (∀ x ∈ s.tasks, s.kernel.currentTaskTCB ≠ some x →
        s.kernel.cr3Word (s.kernel.cr3 x) = s.u x) ∧
      s.Apart := by
  have hi : SpaceInv s :=
    run_invariant (fun _ _ _ hi heven hs => spaceStep_inv hi heven hs) h (boot_spaceInv junk t cr3 hf)
  exact ⟨hi.slot, hi.word, fun x hx y hy hne hu heq => hne (hi.distinct x hx y hy hu heq)⟩

def bootFrames (p : UInt64) : UInt64 := if p = 0x8000039000 then 0x39000 else 0

/-- Two tasks with a user page each, and a third one that takes over the `cr3` page of the second
when that has been reaped. -/
def threeSpaces : List SpaceOp :=
  [.ckprocA 2 0x800003a000 0x800003b000 0x200000 0x201000, .alsp 0x800003c000 0x202000,
    .switchTo 2, .alsp 0x800003d000 0x203000,
    .ckprocA 3 0x800003e000 0x800003f000 0x204000 0x205000, .exit, .switchTo 1, .reap 2,
    .ckprocA 4 0x8000040000 0x800003b000 0x206000 0x201000]

theorem address_spaces_three_tasks : ∃ s,
    Run (Guarded SpaceOp.EvenGiB SpaceOp.step)
      (SpaceState.boot Kernel.zeroed 1 0x8000039000 bootFrames) threeSpaces s ∧ s.Apart := by
  have hall : (follow (fun s op => op.EvenGiB s ∧ op.Enabled s) SpaceOp.exec
      (SpaceState.boot Kernel.zeroed 1 0x8000039000 bootFrames) threeSpaces).isSome := by
    decide +kernel
  obtain ⟨s, hs⟩ := Option.isSome_iff_exists.mp hall
  have hrun : Run (Guarded SpaceOp.EvenGiB SpaceOp.step)
      (SpaceState.boot Kernel.zeroed 1 0x8000039000 bootFrames) threeSpaces s :=
    run_of_follow (fun _ _ _ h h' => ⟨h.1, h.2, h'⟩) hs
  exact ⟨s, hrun, (address_spaces_consistent_even Kernel.zeroed 1 0x8000039000 (by decide) hrun).2.2⟩

/-- The pages that two tasks get for entry 0 lie 1 GiB apart. -/
def oddGiB : List SpaceOp :=
  [.ckprocA 2 0x800003a000 0x800003b000 0x200000 0x201000, .alsp 0x800003c000 0x202000,
    .switchTo 2, .alsp 0x804003c000 0x203000]

/-- The second task gets the entry of the first. -/
theorem entries_shared_odd : ∃ s,
    Run SpaceOp.step (SpaceState.boot Kernel.zeroed 1 0x8000039000 bootFrames) oddGiB s ∧
    (s.kernel.Live 1 ∧ s.kernel.Live 2) ∧ s.u 1 = 0x202007 ∧ s.u 2 = 0x202007 ∧ ¬ s.Apart := by
  have hall : ((follow SpaceOp.Enabled SpaceOp.exec
      (SpaceState.boot Kernel.zeroed 1 0x8000039000 bootFrames) oddGiB).any fun s =>
        decide (1 ∈ s.tasks ∧ 2 ∈ s.tasks ∧ (s.kernel.Live 1 ∧ s.kernel.Live 2) ∧
          s.u 1 = 0x202007 ∧ s.u 2 = 0x202007)) = true := by
    decide +kernel
  obtain ⟨s, hs, hdec⟩ := Option.any_eq_true _ _ |>.mp hall
  obtain ⟨h1, h2, hlive, hu1, hu2⟩ := of_decide_eq_true hdec
  refine ⟨s, run_of_follow (fun _ _ _ h h' => ⟨h, h'⟩) hs, hlive, hu1, hu2, fun hapart => ?_⟩
  exact hapart 1 h1 2 h2 (by decide) (by rw [hu1]; decide) (hu1.trans hu2.symm)

end UnnamedOS.Proc
