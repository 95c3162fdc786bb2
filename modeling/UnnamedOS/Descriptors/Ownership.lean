import UnnamedOS.Descriptors.Tables
import UnnamedOS.Lib.Effects

/-!
# Every stream has one owner

A slot owns its arguments while its function is not null. No step leaves the arguments of one slot
with another.
-/

namespace UnnamedOS.Descriptors

open UnnamedOS.Lib Kernel

namespace Kernel

/-- An open stream, or an open slot of a table: what a device's function has put into a slot need
not be a stream. -/
def Open (k : Kernel) (i : Nat) : Prop :=
  (k.stream i).function.IsStream ∨
    (k.stream i).function ≠ .NULL ∧ ∃ t, k.file_descriptors t = some (i / kernelFdLen)

def Holds (k : Kernel) (i : Nat) (p : Nat) : Prop := k.Open i ∧ (k.stream i).arguments = p

structure Owned (k : Kernel) : Prop where
  linear : Linear k.Holds (fun p => k.allocated p = true)
  tables : ∀ {t u page}, k.file_descriptors t = some page → k.file_descriptors u = some page → t = u

variable {k k' : Kernel} {i j p fd base page : Nat} {t u : Task} {m : Stream}

theorem not_open_of_null (h : (k.stream i).function = .NULL) : ¬ k.Open i := by
  rintro (h' | h')
  · rcases h' with h' | h'
    · exact nomatch h.symm.trans h'
    · exact nomatch h.symm.trans h'
  · exact h'.1 h

/-- The same stream in memory that has no tables more. -/
theorem Open.mono (h : k'.Open i) (hstream : k'.stream i = k.stream i)
    (htables : ∀ t page, k'.file_descriptors t = some page → k.file_descriptors t = some page) :
    k.Open i := by
  rcases h with h | ⟨hne, t, ht⟩
  · exact Or.inl (hstream ▸ h)
  · exact Or.inr ⟨hstream ▸ hne, t, htables t _ ht⟩

theorem Holds.mono (h : k'.Holds i p) (hstream : k'.stream i = k.stream i)
    (htables : ∀ t page, k'.file_descriptors t = some page → k.file_descriptors t = some page) :
    k.Holds i p :=
  ⟨h.1.mono hstream htables, hstream ▸ h.2⟩

/-- Nothing has been put anywhere, and no table is new. -/
theorem Owned.restrict (h : k.Owned) (hstream : ∀ i, k'.Open i → k'.stream i = k.stream i)
    (htables : ∀ t page, k'.file_descriptors t = some page → k.file_descriptors t = some page)
    (hheap : k'.allocated = k.allocated) : k'.Owned where
  linear := by
    rw [hheap]
    exact h.linear.restrict fun i p hi => hi.mono (hstream i hi.1) htables
  tables := fun ht hu => h.tables (htables _ _ ht) (htables _ _ hu)

theorem Owned.same (h : k.Owned) (hstream : k'.stream = k.stream)
    (htables : k'.file_descriptors = k.file_descriptors) (hheap : k'.allocated = k.allocated) :
    k'.Owned :=
  h.restrict (fun _ _ => hstream ▸ rfl) (fun _ _ ht => htables ▸ ht) hheap

theorem put_same : (k.put i m).stream i = m := by
  simp only [put, Function.update_self]

theorem put_other (h : j ≠ i) : (k.put i m).stream j = k.stream j := by
  simp only [put, Function.update_of_ne h]

/-- A new stream with fresh arguments. -/
theorem Owned.give (h : k.Owned) (hp : k.allocated p = false) (hm : m.arguments = p) :
    ((k.malloc p).put i m).Owned where
  linear := by
    apply h.linear.give (i := i) (a := p) (by rw [hp]; exact Bool.false_ne_true)
    · intro j b hj
      by_cases heq : j = i
      · subst heq
        rw [Holds, put_same, hm] at hj
        exact Or.inl ⟨rfl, hj.2.symm⟩
      · exact Or.inr (hj.mono (put_other heq) fun _ _ ht => ht)
    · exact Function.update_self p true k.allocated
    · intro b hb
      show Function.update k.allocated p true b = true
      by_cases heq : b = p
      · rw [heq, Function.update_self]
      · rw [Function.update_of_ne heq]
        exact hb
  tables := h.tables

/-- A stream is closed and its arguments are freed. -/
theorem Owned.close (h : k.Owned) (hi : k.Holds i p) (hm : m.function = .NULL) :
    ({ k with allocated := Function.update k.allocated p false }.put i m).Owned where
  linear := by
    apply h.linear.drop hi
    · intro j b hj
      have hne : j ≠ i := by
        rintro rfl
        exact not_open_of_null (by rw [put_same, hm]) hj.1
      exact ⟨hne, hj.mono (put_other hne) fun _ _ ht => ht⟩
    · intro b hne hb
      show Function.update k.allocated p false b = true
      rw [Function.update_of_ne hne]
      exact hb
  tables := h.tables

/-- A slot is emptied without more. -/
theorem Owned.clear (h : k.Owned) : (k.put i .zero).Owned := by
  refine h.restrict (fun j hj => ?_) (fun _ _ ht => ht) rfl
  apply put_other
  rintro rfl
  exact not_open_of_null (by rw [put_same]; rfl) hj

/-- A stream goes from a slot of a table to another. -/
theorem Owned.move (h : k.Owned) (hi : ∃ t, k.file_descriptors t = some (i / kernelFdLen)) :
    ((k.put j (k.stream i)).put i .zero).Owned where
  linear := by
    apply h.linear.move (i := i) (j := j)
    intro l b hl
    have hne : l ≠ i := by
      rintro rfl
      exact not_open_of_null (by rw [put_same]; rfl) hl.1
    have hstream : ((k.put j (k.stream i)).put i .zero).stream l = (k.put j (k.stream i)).stream l :=
      put_other hne
    by_cases heq : l = j
    · subst heq
      rw [put_same] at hstream
      refine Or.inl ⟨rfl, ?_, hstream ▸ hl.2⟩
      rcases hl.1 with hopen | hopen
      · exact Or.inl (hstream ▸ hopen)
      · exact Or.inr ⟨hstream ▸ hopen.1, hi⟩
    · exact Or.inr ⟨hne, hl.mono (hstream.trans (put_other heq)) fun _ _ ht => ht⟩
  tables := h.tables

theorem slot_page (h : fd < kernelFdLen) : (kernelFdLen * page + fd) / kernelFdLen = page := by
  unfold kernelFdLen at *
  omega

theorem kernelFd_ok (h : k.kernelFd t = .ok base) :
    ∃ page, k.file_descriptors t = some page ∧ base = kernelFdLen * page := by
  rw [kernelFd] at h
  split at h
  · cases h
  · rename_i page hpage
    exact ⟨page, hpage, (Except.ok.inj h).symm⟩

theorem Owned.unblock_task (h : k.Owned) : (k.unblock_task t).Owned := by
  rw [Kernel.unblock_task]
  split
  · exact h.same rfl rfl rfl
  · exact h

/-- What a stream owns has not been freed. -/
theorem Owned.free_arguments (h : k.Owned) (hi : (k.stream i).function.IsStream) :
    k.free (k.stream i).arguments ≠ .error .ERR_DOUBLE_FREE := by
  have hlive : k.allocated (k.stream i).arguments = true := h.linear.live ⟨Or.inl hi, rfl⟩
  rw [free, if_pos hlive]
  exact nofun

/-! ## The calls -/

theorem opened_arguments {target : Target} {flags : UInt64} (h : target.opened k flags p = .ok m) :
    m.arguments = p := by
  cases target with
  | file =>
      obtain rfl := Except.ok.inj h
      rfl
  | stream name =>
      simp only [Target.opened, openDEV, dOpen] at h
      split at h
      · obtain rfl := Except.ok.inj h
        rfl
      · split at h
        · cases h
        · obtain rfl := Except.ok.inj h
          rfl

theorem Owned.OPEN {target : Target} {flags : UInt64} (h : k.Owned) (hp : k.allocated p = false)
    (hk : k.OPEN t target flags p = .ok k') : k'.Owned := by
  obtain ⟨base, -, h1⟩ := bind_ok hk
  obtain ⟨m, hm, h2⟩ := bind_ok h1
  obtain ⟨k1, hsearch, h3⟩ := bind_ok h2
  obtain rfl := Except.ok.inj h3
  dsimp only [search] at hsearch
  split at hsearch
  · cases hsearch
  · obtain rfl := Except.ok.inj hsearch
    exact (h.give hp (opened_arguments hm)).same rfl rfl rfl

theorem free_ok (h : k.free p = .ok k') :
    k' = { k with allocated := Function.update k.allocated p false } := by
  rw [free] at h
  split at h
  · exact (Except.ok.inj h).symm
  · cases h

theorem Owned.CLOSE (h : k.Owned) (hk : k.CLOSE t fd = .ok k') : k'.Owned := by
  obtain ⟨k2, hslot, h2⟩ := bind_ok hk
  obtain rfl := Except.ok.inj h2
  obtain ⟨base, -, h1⟩ := bind_ok hslot
  dsimp only at h1
  split at h1
  · cases h1
  · split at h1
    · cases h1
    · cases h1
    · rename_i hfun
      obtain ⟨k1, hfree, h2⟩ := bind_ok h1
      obtain rfl := free_ok hfree
      obtain rfl := Except.ok.inj h2
      exact (h.close ⟨Or.inl (Or.inl hfun), rfl⟩ rfl).same rfl rfl rfl
    · rename_i hfun
      obtain ⟨k1, hfree, h2⟩ := bind_ok h1
      obtain rfl := free_ok hfree
      obtain rfl := Except.ok.inj h2
      exact (h.close ⟨Or.inl (Or.inr hfun), rfl⟩ rfl).same rfl rfl rfl

theorem Owned.d0xD {name : List UInt8} (h : k.Owned) (hp : k.allocated p = false)
    (hk : k.d0xD t name p = .ok k') : k'.Owned := by
  obtain ⟨base, -, h1⟩ := bind_ok hk
  dsimp only at h1
  split at h1
  · cases h1
  · obtain rfl := Except.ok.inj h1
    apply Owned.unblock_task
    split
    · exact (h.give hp rfl).same rfl rfl rfl
    · exact h.same rfl rfl rfl

theorem Owned.InitKernelFd (h : k.Owned) (hpage : k.FreePage page) :
    (k.InitKernelFd t page).Owned where
  linear := by
    apply h.linear.restrict
    intro i p hi
    have hout : i / kernelFdLen ≠ page := by
      intro heq
      refine not_open_of_null ?_ hi.1
      show (if i / kernelFdLen = page then Stream.zero else k.stream i).function = .NULL
      rw [if_pos heq]
      rfl
    have hstream : (k.InitKernelFd t page).stream i = k.stream i := if_neg hout
    refine ⟨?_, hstream ▸ hi.2⟩
    rcases hi.1 with hopen | ⟨hne, u, hu⟩
    · exact Or.inl (hstream ▸ hopen)
    · refine Or.inr ⟨hstream ▸ hne, u, ?_⟩
      simp only [Kernel.InitKernelFd, Function.update_apply] at hu
      split at hu
      · exact absurd (Option.some.inj hu).symm hout
      · exact hu
  tables := by
    intro u w q hu hw
    simp only [Kernel.InitKernelFd, Function.update_apply] at hu hw
    split at hu
    · obtain rfl := Option.some.inj hu
      split at hw
      · simp only [*]
      · exact absurd hw (hpage w)
    · split at hw
      · obtain rfl := Option.some.inj hw
        exact absurd hu (hpage u)
      · exact h.tables hu hw

theorem Owned.fill {contents : Nat → Stream} (h : k.Owned) (hpage : k.FreePage page)
    (hcontents : ∀ i, ¬ (contents i).function.IsStream) : (k.fill page contents).Owned := by
  refine h.restrict (fun i hi => if_neg fun heq => ?_) (fun _ _ ht => ht) rfl
  have hstream : (k.fill page contents).stream i = contents (i % kernelFdLen) := if_pos heq
  rcases hi with hopen | ⟨-, t, ht⟩
  · exact hcontents _ (hstream ▸ hopen)
  · exact hpage t (heq ▸ ht)

theorem Owned.giveSTDIOback {recipient donor : Task} {dfdn : Nat} {lost : Bool} (h : k.Owned)
    (hfd : dfdn < kernelFdLen) (hk : k.giveSTDIOback recipient donor dfdn lost = .ok k') :
    k'.Owned := by
  obtain ⟨dfd, hdfd, h1⟩ := bind_ok hk
  obtain ⟨page, hpage, rfl⟩ := kernelFd_ok hdfd
  split at h1
  · obtain rfl := Except.ok.inj h1
    split
    · exact h.clear
    · exact h
  · dsimp only at h1
    split at h1
    · obtain rfl := Except.ok.inj h1
      apply h.move
      exact ⟨donor, (slot_page hfd).symm ▸ hpage⟩
    · obtain rfl := Except.ok.inj h1
      exact h

theorem Owned.murderChild {mother : Task} {lost : Bool} (h : k.Owned)
    (hk : k.murderChild t mother lost = .ok k') : k'.Owned := by
  rw [Kernel.murderChild] at hk
  split at hk
  · cases hk
  · split at hk
    · obtain rfl := Except.ok.inj hk
      exact h
    · obtain ⟨k1, hgive, h1⟩ := bind_ok hk
      obtain rfl := Except.ok.inj h1
      exact (h.giveSTDIOback (by decide) hgive).unblock_task

theorem Owned.forget (h : k.Owned) :
    Owned { k with file_descriptors := Function.update k.file_descriptors t none
                   state := Function.update k.state t none } := by
  refine h.restrict (fun _ _ => rfl) (fun u page hu => ?_) rfl
  simp only [Function.update_apply] at hu
  split at hu
  · cases hu
  · exact hu

theorem Owned.reapTask {lost : Bool} (h : k.Owned) (hk : k.reapTask t lost = .ok k') :
    k'.Owned := by
  obtain ⟨k1, hmurder, h1⟩ := bind_ok hk
  obtain rfl := Except.ok.inj h1
  rw [mourn] at hmurder
  split at hmurder
  · obtain rfl := Except.ok.inj hmurder
    exact h.forget
  · exact (h.murderChild hmurder).forget

theorem Owned.reap {lost : Task → Bool} (h : k.Owned) (hk : k.reap lost = .ok k') : k'.Owned := by
  obtain ⟨k1, hfold, h1⟩ := bind_ok hk
  obtain rfl := Except.ok.inj h1
  have hreaped : k1.Owned := by
    clear hk h1
    generalize k.DEAD_TASKS = tasks at hfold
    induction tasks generalizing k with
    | nil =>
        obtain rfl := Except.ok.inj hfold
        exact h
    | cons t tasks ih =>
        rw [List.foldlM_cons] at hfold
        obtain ⟨k2, htask, hrest⟩ := bind_ok hfold
        exact ih (h.reapTask htask) hrest
  exact hreaped.same rfl rfl rfl

theorem Owned.PROC_EXIT {buried : Bool} {lost : Task → Bool} (h : k.Owned)
    (hk : k.PROC_EXIT t buried lost = .ok k') : k'.Owned := by
  obtain ⟨k1, hreap, h1⟩ := bind_ok hk
  have hdead : (k.setState t .STATE_DEAD).Owned := h.same rfl rfl rfl
  have hreaped := hdead.reap hreap
  dsimp only at h1
  split at h1
  · split at h1
    · cases h1
    · split at h1
      · obtain ⟨k2, hgive, h2⟩ := bind_ok h1
        obtain rfl := Except.ok.inj h2
        have hburied : (setState { k1 with DEAD_TASKS := t :: k1.DEAD_TASKS } t
            .STATE_BURIED).Owned :=
          hreaped.same rfl rfl rfl
        exact (hburied.giveSTDIOback (by decide) hgive).same rfl rfl rfl
      · cases h1
  · obtain rfl := Except.ok.inj h1
    exact hreaped.same rfl rfl rfl

theorem Owned.ckprocA {M : Task} (h : k.Owned) : (k.ckprocA t M).Owned := by
  refine h.restrict (fun _ _ => rfl) (fun u page hu => ?_) rfl
  simp only [Kernel.ckprocA, Function.update_apply] at hu
  split at hu
  · cases hu
  · exact hu

end Kernel

/-! ## Runs -/

variable {k k' : Kernel}

theorem owned_step {op : Op} (h : k.Owned) (hop : op.InRange) (hs : op.step k k') : k'.Owned := by
  cases op with
  | ckprocA t M =>
      obtain ⟨-, -, rfl⟩ := hs
      exact h.ckprocA
  | InitKernelFd t page =>
      obtain ⟨-, hpage, rfl⟩ := hs
      exact h.InitKernelFd hpage
  | OPEN t target flags p => exact h.OPEN hs.2.1 hs.2.2
  | CLOSE t fd => exact h.CLOSE hs.2
  | d0xD t name p => exact h.d0xD hs.2.1 hs.2.2
  | BINDR t b fd lost =>
      obtain ⟨-, hbind⟩ := hs
      rw [BINDR] at hbind
      split at hbind
      · exact h.giveSTDIOback hop hbind
      · cases hbind
  | waitForChildToDie t =>
      obtain ⟨-, rfl⟩ := hs
      exact h.same rfl rfl rfl
  | unblock_task t =>
      obtain rfl : k' = k.unblock_task t := hs
      exact h.unblock_task
  | schedule lost => exact h.reap hs
  | PROC_EXIT t buried lost => exact h.PROC_EXIT hs.2
  | fill page contents =>
      obtain ⟨hpage, hcontents, rfl⟩ := hs
      exact h.fill hpage hcontents

/-- At most one stream is open, that of the keyboard driver, and no two tasks have one table. -/
structure Start (k : Kernel) : Prop where
  one : ∀ i j, k.Open i → k.Open j → i = j
  allocated : ∀ i p, k.Holds i p → k.allocated p = true
  tables : ∀ t u page, k.file_descriptors t = some page → k.file_descriptors u = some page → t = u

theorem Start.owned (h : Start k) : k.Owned where
  linear := ⟨fun hi => h.allocated _ _ hi, fun hi hj => h.one _ _ hi.1 hj.1⟩
  tables := fun ht hu => h.tables _ _ _ ht hu

theorem Kernel.Owned.closeSlot_ne_double_free (h : k.Owned) (t : Task) (fd : Nat) :
    k.closeSlot t fd ≠ .error .ERR_DOUBLE_FREE := by
  intro hclose
  rcases bind_error hclose with hbase | ⟨base, -, h1⟩
  · rw [kernelFd] at hbase
    split at hbase
    · cases hbase
    · cases hbase
  · dsimp only at h1
    split at h1
    · cases h1
    · split at h1
      · cases h1
      · cases h1
      · rename_i hfun
        rcases bind_error h1 with hfree | ⟨k1, -, h2⟩
        · exact h.free_arguments (Or.inl hfun) hfree
        · cases h2
      · rename_i hfun
        rcases bind_error h1 with hfree | ⟨k1, -, h2⟩
        · exact h.free_arguments (Or.inr hfun) hfree
        · cases h2

/-- An open slot of a live task, and its arguments. -/
def OpenSlot (k : Kernel) (t : Task) (fd p : Nat) : Prop :=
  (k.state t = some .alive ∨ k.state t = some .STATE_WAITING_FOR_DEATH) ∧ fd < kernelFdLen ∧
    ∃ page, k.file_descriptors t = some page ∧
      (k.stream (kernelFdLen * page + fd)).function ≠ .NULL ∧
      (k.stream (kernelFdLen * page + fd)).arguments = p

/-- In whatever order tasks open, close and pass on streams, live or dying, no two of their open
slots have the same arguments, and no call of `CLOSE` frees what has been freed. -/
theorem streams_have_one_owner {ops : List Op} (hstart : Start k)
    (h : Run (Guarded (fun _ => Op.InRange) Op.step) k ops k') :
    (∀ t u fd gd p, OpenSlot k' t fd p → OpenSlot k' u gd p → t = u ∧ fd = gd) ∧
      ∀ t fd, k'.CLOSE t fd ≠ .error .ERR_DOUBLE_FREE := by
  have hstep : ∀ k op k', Kernel.Owned k → op.InRange → Op.step k op k' → Kernel.Owned k' :=
    fun _ _ _ => owned_step
  have howned : k'.Owned := run_invariant hstep h hstart.owned
  constructor
  · intro t u fd gd p ht hu
    obtain ⟨-, hfd, page, hpage, hopen, hp⟩ := ht
    obtain ⟨-, hgd, page', hpage', hopen', hp'⟩ := hu
    have hone : k'.Holds (kernelFdLen * page + fd) p :=
      ⟨Or.inr ⟨hopen, t, (slot_page hfd).symm ▸ hpage⟩, hp⟩
    have hother : k'.Holds (kernelFdLen * page' + gd) p :=
      ⟨Or.inr ⟨hopen', u, (slot_page hgd).symm ▸ hpage'⟩, hp'⟩
    have hslot := howned.linear.unique hone hother
    obtain rfl : page = page' := by
      have hsame := congrArg (· / kernelFdLen) hslot
      simpa only [slot_page hfd, slot_page hgd] using hsame
    exact ⟨howned.tables hpage hpage', Nat.add_left_cancel hslot⟩
  · intro t fd hclose
    rcases bind_error hclose with hslot | ⟨k1, -, h1⟩
    · exact howned.closeSlot_ne_double_free t fd hslot
    · cases h1

/-- One task, and nothing open. -/
def boot : Kernel where
  stream := fun _ => .zero
  file_descriptors := fun _ => none
  parent := fun _ => none
  state := fun t => if t = 0 then some .alive else none
  DEAD_TASKS := []
  kernelFdLastClosed := 0
  DEVICE_LIST := []
  allocated := fun _ => false

theorem boot_start : Start boot where
  one := fun _ _ hi => absurd hi (not_open_of_null rfl)
  allocated := fun _ _ hi => absurd hi.1 (not_open_of_null rfl)
  tables := fun _ _ _ ht => nomatch ht

/-- A task opens the terminal and binds its child to it. -/
theorem streams_have_one_owner_bound : ∃ k', Run (Guarded (fun _ => Op.InRange) Op.step) boot
    [.InitKernelFd 0 5, .ckprocA 0 1, .InitKernelFd 1 6, .OPEN 0 (.stream tty) 0 100,
      .BINDR 0 1 0 false] k' ∧ OpenSlot k' 1 0 100 ∧
    ∀ t fd, k'.CLOSE t fd ≠ .error .ERR_DOUBLE_FREE := by
  have hfirst : boot.FreePage 5 := fun _ ht => nomatch ht
  have hsecond : ((boot.InitKernelFd 0 5).ckprocA 0 1).FreePage 6 := by
    intro t ht
    simp only [Kernel.ckprocA, Kernel.InitKernelFd, Function.update_apply] at ht
    split at ht
    · cases ht
    · split at ht
      · exact absurd (Option.some.inj ht) (by decide)
      · cases ht
  have hrun : ∃ k', Run (Guarded (fun _ => Op.InRange) Op.step) boot
      [.InitKernelFd 0 5, .ckprocA 0 1, .InitKernelFd 1 6, .OPEN 0 (.stream tty) 0 100,
        .BINDR 0 1 0 false] k' ∧ OpenSlot k' 1 0 100 :=
    ⟨_, Run.cons ⟨trivial, rfl, hfirst, rfl⟩ (Run.cons ⟨trivial, rfl, rfl, rfl⟩
      (Run.cons ⟨trivial, rfl, hsecond, rfl⟩ (Run.cons ⟨trivial, rfl, rfl, rfl⟩
        (Run.cons ⟨show 0 < kernelFdLen by decide, rfl, rfl⟩ (Run.nil _))))), Or.inl rfl, by decide,
      6, rfl, nofun, rfl⟩
  obtain ⟨k', hrun, hopen⟩ := hrun
  exact ⟨k', hrun, hopen, (streams_have_one_owner boot_start hrun).2⟩

end UnnamedOS.Descriptors
