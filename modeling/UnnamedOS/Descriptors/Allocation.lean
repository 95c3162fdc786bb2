import UnnamedOS.Descriptors.Ownership

/-!
# Where a new stream goes

`OPEN` searches from the place any task's search last ended or any task last closed a stream. That
hint never passes the end of a table, so the search sees the whole table of the caller. The stream
is then copied to where the hint points, and the hint is read once more for the descriptor that is
returned. Other tasks may take their steps in between.
-/

namespace UnnamedOS.Descriptors

open UnnamedOS.Lib Kernel

variable {k k' : Kernel} {t t' : Task} {base page p fd n i : Nat} {flags : UInt64} {target : Target}
  {m : Stream}

namespace Kernel

/-- The hint is a slot or the end of a table. -/
def HintInTable (k : Kernel) : Prop := k.kernelFdLastClosed ≤ kernelFdLen

/-- Slot `fd` of the table at `base` is open. -/
def Taken (k : Kernel) (base fd : Nat) : Prop := (k.stream (base + fd)).function ≠ .NULL

instance (k : Kernel) (base fd : Nat) : Decidable (k.Taken base fd) :=
  inferInstanceAs (Decidable (_ ≠ _))

theorem firstClosed_spec (k : Kernel) (base n fd : Nat) :
    fd ≤ k.firstClosed base n fd ∧ k.firstClosed base n fd ≤ fd + n ∧
      (k.firstClosed base n fd < fd + n → ¬ k.Taken base (k.firstClosed base n fd)) ∧
      ∀ i, fd ≤ i → i < k.firstClosed base n fd → k.Taken base i := by
  induction n generalizing fd with
  | zero =>
      rw [firstClosed]
      exact ⟨Nat.le_refl fd, Nat.le_refl fd, fun h => absurd h (Nat.lt_irrefl fd),
        fun i h h' => absurd h (by omega)⟩
  | succ n ih =>
      rw [firstClosed]
      by_cases hnull : (k.stream (base + fd)).function = .NULL
      · rw [if_pos hnull]
        exact ⟨Nat.le_refl fd, by omega, fun _ h => h hnull, fun i h h' => absurd h (by omega)⟩
      · rw [if_neg hnull]
        obtain ⟨hle, hend, hclosed, htaken⟩ := ih (fd + 1)
        refine ⟨by omega, by omega, fun h => hclosed (by omega), fun i h h' => ?_⟩
        by_cases heq : i = fd
        · rw [heq]
          exact hnull
        · exact htaken i (by omega) h'

/-- The search ends at a closed slot, or at the end of the table if there is none. -/
theorem closedFd_spec (h : k.HintInTable) (base : Nat) :
    k.closedFd base ≤ kernelFdLen ∧
      (k.closedFd base < kernelFdLen → ¬ k.Taken base (k.closedFd base)) ∧
      (k.closedFd base = kernelFdLen ↔ ∀ i < kernelFdLen, k.Taken base i) := by
  obtain ⟨hle, hend, hclosed, htaken⟩ :=
    k.firstClosed_spec base (kernelFdLen - k.kernelFdLastClosed) k.kernelFdLastClosed
  obtain ⟨-, hend', hclosed', htaken'⟩ := k.firstClosed_spec base kernelFdLen 0
  have hhint : k.kernelFdLastClosed ≤ kernelFdLen := h
  rw [closedFd]
  split
  · refine ⟨by omega, fun hlt => hclosed' (by omega), ?_⟩
    constructor
    · intro heq i hi
      exact htaken' i (Nat.zero_le i) (by omega)
    · intro hall
      by_contra hne
      exact hclosed' (by omega) (hall _ (by omega))
  · rename_i hne
    refine ⟨by omega, fun hlt => hclosed (by omega), ?_⟩
    constructor
    · intro heq
      exact absurd heq hne
    · intro hall
      exact absurd (hall _ (by omega)) (hclosed (by omega))

/-- A search that starts at a closed slot ends there. -/
theorem closedFd_of_closed (hlt : k.kernelFdLastClosed < kernelFdLen)
    (hclosed : ¬ k.Taken base k.kernelFdLastClosed) : k.closedFd base = k.kernelFdLastClosed := by
  obtain ⟨n, hn⟩ := Nat.exists_eq_succ_of_ne_zero (Nat.sub_ne_zero_of_lt hlt)
  have hfirst : k.firstClosed base (kernelFdLen - k.kernelFdLastClosed) k.kernelFdLastClosed =
      k.kernelFdLastClosed := by
    rw [hn, firstClosed]
    exact if_pos (not_not.mp hclosed)
  rw [closedFd, hfirst]
  exact if_neg (Nat.ne_of_lt hlt)

theorem search_ok (h : k.search base = .ok k') :
    k' = { k with kernelFdLastClosed := k.closedFd base } ∧ k.closedFd base ≠ kernelFdLen := by
  dsimp only [search] at h
  split at h
  · cases h
  · rename_i hne
    exact ⟨(Except.ok.inj h).symm, hne⟩

/-- Wherever the hint is, the search fails on full tables only. -/
theorem search_toohigh_iff (h : k.HintInTable) :
    k.search base = .error .ERR_FD_TOOHIGH ↔ ∀ i < kernelFdLen, k.Taken base i := by
  rw [← (closedFd_spec h base).2.2]
  dsimp only [search]
  split
  · rename_i heq
    exact iff_of_true rfl heq
  · rename_i hne
    exact iff_of_false (fun he => nomatch he) hne

theorem kernelFd_ok_iff : k.kernelFd t = .ok base ↔
    ∃ page, k.file_descriptors t = some page ∧ base = kernelFdLen * page := by
  rw [kernelFd]
  cases hpage : k.file_descriptors t with
  | none =>
      constructor
      · intro h
        cases h
      · rintro ⟨page, h, -⟩
        cases h
  | some page =>
      constructor
      · intro h
        exact ⟨page, rfl, (Except.ok.inj h).symm⟩
      · rintro ⟨page', hpage', rfl⟩
        rw [Option.some.inj hpage']

/-- Only the slot's function changes, and it becomes null. -/
theorem closeSlot_ok (h : k.closeSlot t fd = .ok k') :
    k'.kernelFdLastClosed = k.kernelFdLastClosed ∧ k'.file_descriptors = k.file_descriptors ∧
      ∀ base i, k'.Taken base i → k.Taken base i := by
  obtain ⟨base, -, h1⟩ := bind_ok h
  dsimp only at h1
  have hput : ∀ j : Nat, ∀ m : Stream, m.function = .NULL → ∀ b i,
      (k.put j m).Taken b i → k.Taken b i := by
    intro j m hm b i htaken hnull
    by_cases heq : b + i = j
    · exact htaken (by rw [heq, put_same, hm])
    · exact htaken (by rw [put_other heq, hnull])
  split at h1
  · cases h1
  · split at h1
    · cases h1
    · cases h1
    · obtain ⟨k1, hfree, h2⟩ := bind_ok h1
      obtain rfl := free_ok hfree
      obtain rfl := Except.ok.inj h2
      exact ⟨rfl, rfl, hput _ _ rfl⟩
    · obtain ⟨k1, hfree, h2⟩ := bind_ok h1
      obtain rfl := free_ok hfree
      obtain rfl := Except.ok.inj h2
      exact ⟨rfl, rfl, hput _ _ rfl⟩

end Kernel

/-- Where a task is inside `OPEN` or `CLOSE`. -/
inductive Pc where
  | user
  /-- The stream has been made. -/
  | opening (m : Stream)
  /-- The search is over. -/
  | found (m : Stream)
  /-- The stream is in slot `fd`, and `wasTaken` says what that was before. -/
  | copied (fd : Nat) (wasTaken : Bool)
  /-- The slot is closed, and the hint has not been set yet. -/
  | closing (fd : Nat)
  deriving DecidableEq

/-- A call of `OPEN` that has returned. -/
structure Opened where
  task : Task
  filled : Nat
  wasTaken : Bool
  returned : Nat
  deriving DecidableEq

structure OpenState where
  kernel : Kernel
  pc : Task → Pc
  opened : List Opened

def OpenState.goto (s : OpenState) (t : Task) (pc : Pc) (k : Kernel) : OpenState :=
  { s with kernel := k, pc := Function.update s.pc t pc }

inductive OpenOp where
  | InitKernelFd (t : Task) (page : Nat)
  /-- `OPEN` up to the search, with `p` for the arguments of the new stream. -/
  | makeStream (t : Task) (target : Target) (flags : UInt64) (p : Nat)
  | search (t : Task)
  | copy (t : Task)
  | ret (t : Task)
  | closeSlot (t : Task) (fd : Nat)
  | setHint (t : Task)

namespace OpenOp

/-- A task that is not where its step begins does not take it. -/
def exec (s : OpenState) : OpenOp → Except Halt OpenState
  | .InitKernelFd t page => .ok (s.goto t .user (s.kernel.InitKernelFd t page))
  | .makeStream t target flags p => do
    let m ← target.opened s.kernel flags p
    return s.goto t (.opening m) (s.kernel.malloc p)
  | .search t =>
    match s.pc t with
    | .opening m => do
      let base ← s.kernel.kernelFd t
      let k ← s.kernel.search base
      return s.goto t (.found m) k
    | _ => .error .undefined
  | .copy t =>
    match s.pc t with
    | .found m => do
      let base ← s.kernel.kernelFd t
      let fd := s.kernel.kernelFdLastClosed
      return s.goto t (.copied fd (s.kernel.Taken base fd)) (s.kernel.copyStream base m)
    | _ => .error .undefined
  | .ret t =>
    match s.pc t with
    | .copied fd wasTaken =>
      .ok { s.goto t .user s.kernel with
        opened := ⟨t, fd, wasTaken, s.kernel.kernelFdLastClosed⟩ :: s.opened }
    | _ => .error .undefined
  | .closeSlot t fd => do
    let k ← s.kernel.closeSlot t fd
    return s.goto t (.closing fd) k
  | .setHint t =>
    match s.pc t with
    | .closing fd => .ok (s.goto t .user { s.kernel with kernelFdLastClosed := fd })
    | _ => .error .undefined

/-- A call begins where no other one of the task is under way. -/
def Enabled (s : OpenState) : OpenOp → Prop
  | .InitKernelFd t page => s.pc t = .user ∧ s.kernel.FreePage page
  | .makeStream t _ _ p => s.pc t = .user ∧ s.kernel.allocated p = false
  | .closeSlot t fd => s.pc t = .user ∧ fd < kernelFdLen
  | _ => True

/-- What a task does next, in any order with the other tasks. -/
def step (s : OpenState) (op : OpenOp) (s' : OpenState) : Prop :=
  op.Enabled s ∧ op.exec s = .ok s'

end OpenOp

/-- Nobody is inside a call, and no table belongs to two tasks. -/
structure OpenState.Start (s : OpenState) : Prop where
  hint : s.kernel.HintInTable
  user : ∀ t, s.pc t = .user
  own : ∀ t t' page, s.kernel.file_descriptors t = some page →
    s.kernel.file_descriptors t' = some page → t = t'
  opened : s.opened = []

/-- The stream went into a slot that was closed, and the caller knows which. -/
structure Opened.Private (o : Opened) : Prop where
  free : o.wasTaken = false
  told : o.returned = o.filled
  inTable : o.returned < kernelFdLen

/-- Between the search of an `OPEN` and its return. -/
def Pc.TrustsHint : Pc → Prop
  | .found _ | .copied _ _ => True
  | _ => False

/-- The step leaves the hint as it is. -/
def OpenOp.LeavesHint (s : OpenState) : OpenOp → Prop
  | .InitKernelFd _ _ => s.kernel.kernelFdLastClosed = 0
  | .search t =>
    match s.kernel.file_descriptors t with
    | none => True
    | some page => ¬ s.kernel.Taken (kernelFdLen * page) s.kernel.kernelFdLastClosed
  | .setHint t => s.pc t = .closing s.kernel.kernelFdLastClosed
  | _ => True

/-- No task moves the hint while another one is between its search and its return. -/
def OpenOp.Undisturbing (s : OpenState) (op : OpenOp) : Prop :=
  (∃ t, (s.pc t).TrustsHint) → op.LeavesHint s

/-- What a task relies on where it is inside a call. -/
def Pc.Relies (k : Kernel) (t : Task) : Pc → Prop
  | .user | .opening _ => True
  | .found _ => ∃ page, k.file_descriptors t = some page ∧ k.kernelFdLastClosed < kernelFdLen ∧
      ¬ k.Taken (kernelFdLen * page) k.kernelFdLastClosed
  | .copied fd wasTaken => wasTaken = false ∧ fd = k.kernelFdLastClosed ∧ fd < kernelFdLen
  | .closing fd => fd < kernelFdLen

structure OpenInv (s : OpenState) : Prop where
  hint : s.kernel.HintInTable
  own : ∀ t t' page, s.kernel.file_descriptors t = some page →
    s.kernel.file_descriptors t' = some page → t = t'
  relies : ∀ t, (s.pc t).Relies s.kernel t
  opened : ∀ o ∈ s.opened, o.Private

/-- Another task's step, which leaves this task's table alone or closes slots of it. -/
theorem Pc.Relies.other {pc : Pc} (h : pc.Relies k t)
    (htable : k'.file_descriptors t = k.file_descriptors t)
    (hhint : pc.TrustsHint → k'.kernelFdLastClosed = k.kernelFdLastClosed)
    (htaken : ∀ page, k.file_descriptors t = some page → ∀ i < kernelFdLen,
      k'.Taken (kernelFdLen * page) i → k.Taken (kernelFdLen * page) i) : pc.Relies k' t := by
  cases pc with
  | user => trivial
  | opening m => trivial
  | found m =>
      obtain ⟨page, hpage, hlt, hclosed⟩ := h
      refine ⟨page, htable.trans hpage, ?_, ?_⟩
      · rw [hhint trivial]
        exact hlt
      · rw [hhint trivial]
        exact fun hnow => hclosed (htaken page hpage _ hlt hnow)
  | copied fd wasTaken =>
      obtain ⟨hfree, hfd, hlt⟩ := h
      exact ⟨hfree, hfd.trans (hhint trivial).symm, hlt⟩
  | closing fd => exact h

/-- Slots of different tables are different. -/
theorem slot_ne {page page' j : Nat} (hne : page ≠ page') (hi : i < kernelFdLen)
    (hj : j < kernelFdLen) : kernelFdLen * page + i ≠ kernelFdLen * page' + j := by
  intro heq
  unfold kernelFdLen at hi hj heq
  omega

section Steps

variable {s s' : OpenState} {pc : Pc}

/-- The task whose step it is has gone on, and the others still have what they rely on. -/
theorem OpenInv.goto (hi : OpenInv s) (hhint : k.HintInTable)
    (hown : ∀ t t' page, k.file_descriptors t = some page →
      k.file_descriptors t' = some page → t = t')
    (hpc : pc.Relies k t) (hothers : ∀ t', t' ≠ t → (s.pc t').Relies k t') :
    OpenInv (s.goto t pc k) where
  hint := hhint
  own := hown
  relies t' := by
    change (Function.update s.pc t pc t').Relies k t'
    by_cases heq : t' = t
    · rw [heq, Function.update_self]
      exact hpc
    · rw [Function.update_of_ne heq]
      exact hothers t' heq
  opened := hi.opened

theorem OpenInv.initKernelFd (hi : OpenInv s) (hpage : s.kernel.FreePage page)
    (hhint : (∃ t, (s.pc t).TrustsHint) → s.kernel.kernelFdLastClosed = 0) :
    OpenInv (s.goto t .user (s.kernel.InitKernelFd t page)) := by
  have htables : ∀ t', t' ≠ t →
      (s.kernel.InitKernelFd t page).file_descriptors t' = s.kernel.file_descriptors t' :=
    fun t' hne => Function.update_of_ne hne _ _
  have hown : (s.kernel.InitKernelFd t page).file_descriptors t = some page :=
    Function.update_self _ _ _
  refine hi.goto (Nat.zero_le _) (fun a b q ha hb => ?_) trivial (fun t' hne => ?_)
  · by_cases hat : a = t
    · by_cases hbt : b = t
      · exact hat.trans hbt.symm
      · rw [hat, hown] at ha
        rw [htables b hbt, ← Option.some.inj ha] at hb
        exact absurd hb (hpage b)
    · rw [htables a hat] at ha
      by_cases hbt : b = t
      · rw [hbt, hown] at hb
        rw [← Option.some.inj hb] at ha
        exact absurd ha (hpage a)
      · rw [htables b hbt] at hb
        exact hi.own a b q ha hb
  · refine (hi.relies t').other (htables t' hne) (fun htrust => (hhint ⟨t', htrust⟩).symm) ?_
    intro q _ i _ htaken hnull
    -- a slot of the new table is closed, and any other is as it was
    apply htaken
    change (if (kernelFdLen * q + i) / kernelFdLen = page then Stream.zero
      else s.kernel.stream (kernelFdLen * q + i)).function = .NULL
    split
    · rfl
    · exact hnull

/-- A task that trusts the hint has had it inside the table. -/
theorem OpenInv.hint_lt (hi : OpenInv s) (htrust : (s.pc t).TrustsHint) :
    s.kernel.kernelFdLastClosed < kernelFdLen := by
  have hrelies := hi.relies t
  cases hpc : s.pc t with
  | found m =>
      rw [hpc] at hrelies
      obtain ⟨_, _, hlt, _⟩ := hrelies
      exact hlt
  | copied fd wasTaken =>
      rw [hpc] at hrelies
      exact hrelies.2.1 ▸ hrelies.2.2
  | user => rw [hpc] at htrust; exact htrust.elim
  | opening m => rw [hpc] at htrust; exact htrust.elim
  | closing fd => rw [hpc] at htrust; exact htrust.elim

theorem OpenInv.search (hi : OpenInv s) (hbase : s.kernel.kernelFd t = .ok base)
    (hk : s.kernel.search base = .ok k) (hgood : (OpenOp.search t).Undisturbing s) :
    OpenInv (s.goto t (.found m) k) := by
  obtain ⟨page, hpage, rfl⟩ := kernelFd_ok_iff.mp hbase
  obtain ⟨rfl, hroom⟩ := search_ok hk
  obtain ⟨hend, hclosed, -⟩ := closedFd_spec hi.hint (kernelFdLen * page)
  have hlt := Nat.lt_of_le_of_ne hend hroom
  refine hi.goto hend hi.own ⟨page, hpage, hlt, hclosed hlt⟩ (fun t' _ => ?_)
  refine (hi.relies t').other rfl (fun htrust => ?_) (fun _ _ _ _ => id)
  have hfirst := hgood ⟨t', htrust⟩
  simp only [OpenOp.LeavesHint, hpage] at hfirst
  exact closedFd_of_closed (hi.hint_lt htrust) hfirst

/-- The slot is one of the caller's table only. -/
theorem OpenInv.copy (hi : OpenInv s) (hpc : s.pc t = .found m)
    (hbase : s.kernel.kernelFd t = .ok base) :
    OpenInv (s.goto t (.copied s.kernel.kernelFdLastClosed
      (s.kernel.Taken base s.kernel.kernelFdLastClosed)) (s.kernel.copyStream base m)) := by
  obtain ⟨page, hpage, rfl⟩ := kernelFd_ok_iff.mp hbase
  have hrelies := hi.relies t
  rw [hpc] at hrelies
  obtain ⟨page', hpage', hlt, hclosed⟩ := hrelies
  obtain rfl := Option.some.inj (hpage.symm.trans hpage')
  refine hi.goto hi.hint hi.own ⟨decide_eq_false hclosed, rfl, hlt⟩ (fun t' hne => ?_)
  refine (hi.relies t').other rfl (fun _ => rfl) (fun q hq i hin htaken hnull => htaken ?_)
  have hpages : q ≠ page := fun heq => hne (hi.own t' t page (heq ▸ hq) hpage)
  rw [copyStream, put_other (slot_ne hpages hin hlt), hnull]

theorem OpenInv.closeSlot (hi : OpenInv s) (hlt : fd < kernelFdLen)
    (hk : s.kernel.closeSlot t fd = .ok k) : OpenInv (s.goto t (.closing fd) k) := by
  obtain ⟨hhint, htables, htaken⟩ := closeSlot_ok hk
  refine hi.goto ?_ ?_ hlt (fun t' _ => ?_)
  · rw [HintInTable, hhint]
    exact hi.hint
  · rw [htables]
    exact hi.own
  · exact (hi.relies t').other (by rw [htables]) (fun _ => hhint)
      (fun _ _ _ _ => htaken _ _)

theorem OpenInv.setHint (hi : OpenInv s) (hpc : s.pc t = .closing fd)
    (hgood : (OpenOp.setHint t).Undisturbing s) :
    OpenInv (s.goto t .user { s.kernel with kernelFdLastClosed := fd }) := by
  have hrelies := hi.relies t
  rw [hpc] at hrelies
  have hlt : fd < kernelFdLen := hrelies
  refine hi.goto (Nat.le_of_lt hlt) hi.own trivial (fun t' _ => ?_)
  refine (hi.relies t').other rfl (fun htrust => ?_) (fun _ _ _ _ => id)
  exact Pc.closing.inj (hpc.symm.trans (hgood ⟨t', htrust⟩))

/-- The caller still has what it relied on when it returns. -/
theorem OpenInv.ret (hi : OpenInv s) {wasTaken : Bool} (hpc : s.pc t = .copied fd wasTaken) :
    OpenInv { s.goto t .user s.kernel with
      opened := ⟨t, fd, wasTaken, s.kernel.kernelFdLastClosed⟩ :: s.opened } := by
  have hrelies := hi.relies t
  rw [hpc] at hrelies
  obtain ⟨hfree, hfd, hlt⟩ := hrelies
  have hnext : OpenInv (s.goto t .user s.kernel) :=
    hi.goto hi.hint hi.own trivial (fun t' _ => hi.relies t')
  exact { hnext with
    opened := List.forall_mem_cons.mpr ⟨⟨hfree, hfd.symm, hfd ▸ hlt⟩, hi.opened⟩ }

theorem search_steps (hs : OpenOp.step s (.search t) s') : ∃ m base k, s.pc t = .opening m ∧
    s.kernel.kernelFd t = .ok base ∧ s.kernel.search base = .ok k ∧ s' = s.goto t (.found m) k := by
  have hexec := hs.2
  rw [OpenOp.exec] at hexec
  split at hexec
  · rename_i m hpc
    obtain ⟨base, hbase, h1⟩ := bind_ok hexec
    obtain ⟨k, hk, h2⟩ := bind_ok h1
    exact ⟨m, base, k, hpc, hbase, hk, (Except.ok.inj h2).symm⟩
  · cases hexec

theorem copy_steps (hs : OpenOp.step s (.copy t) s') : ∃ m base, s.pc t = .found m ∧
    s.kernel.kernelFd t = .ok base ∧ s' = s.goto t (.copied s.kernel.kernelFdLastClosed
      (s.kernel.Taken base s.kernel.kernelFdLastClosed)) (s.kernel.copyStream base m) := by
  have hexec := hs.2
  rw [OpenOp.exec] at hexec
  split at hexec
  · rename_i m hpc
    obtain ⟨base, hbase, h1⟩ := bind_ok hexec
    exact ⟨m, base, hpc, hbase, (Except.ok.inj h1).symm⟩
  · cases hexec

theorem openStep_inv {op : OpenOp} (hi : OpenInv s) (hgood : op.Undisturbing s)
    (hs : op.step s s') : OpenInv s' := by
  cases op with
  | InitKernelFd t page =>
      obtain ⟨⟨-, hpage⟩, hexec⟩ := hs
      rw [← Except.ok.inj hexec]
      exact hi.initKernelFd hpage hgood
  | makeStream t target flags p =>
      obtain ⟨m, -, h1⟩ := bind_ok hs.2
      rw [← Except.ok.inj h1]
      exact hi.goto hi.hint hi.own trivial fun t' _ =>
        (hi.relies t').other rfl (fun _ => rfl) (fun _ _ _ _ => id)
  | search t =>
      obtain ⟨m, base, k, -, hbase, hk, rfl⟩ := search_steps hs
      exact hi.search hbase hk hgood
  | copy t =>
      obtain ⟨m, base, hpc, hbase, rfl⟩ := copy_steps hs
      exact hi.copy hpc hbase
  | ret t =>
      have hexec := hs.2
      rw [OpenOp.exec] at hexec
      split at hexec
      · rename_i fd wasTaken hpc
        rw [← Except.ok.inj hexec]
        exact hi.ret hpc
      · cases hexec
  | closeSlot t fd =>
      obtain ⟨⟨-, hlt⟩, hexec⟩ := hs
      obtain ⟨k, hk, h1⟩ := bind_ok hexec
      rw [← Except.ok.inj h1]
      exact hi.closeSlot hlt hk
  | setHint t =>
      have hexec := hs.2
      rw [OpenOp.exec] at hexec
      split at hexec
      · rename_i fd hpc
        rw [← Except.ok.inj hexec]
        exact hi.setHint hpc hgood
      · cases hexec

theorem OpenState.Start.inv (h : s.Start) : OpenInv s where
  hint := h.hint
  own := h.own
  relies t := by
    rw [h.user t]
    trivial
  opened := by
    rw [h.opened]
    exact fun o ho => absurd ho List.not_mem_nil

end Steps

/-- Nothing of `OPEN` but the copy touches a slot. -/
def OpenOp.OfOPEN : OpenOp → Prop
  | .makeStream _ _ _ _ | .search _ | .copy _ | .ret _ => True
  | _ => False

/-- `OPEN` changes no slot but a closed one of the caller's table. -/
def OpenOp.FillsOwnSlot (s : OpenState) (op : OpenOp) (s' : OpenState) : Prop :=
  s'.kernel.stream = s.kernel.stream ∨ ∃ t m page fd, op = .copy t ∧ s.pc t = .found m ∧
    s.kernel.file_descriptors t = some page ∧ fd < kernelFdLen ∧
    ¬ s.kernel.Taken (kernelFdLen * page) fd ∧
    s'.kernel.stream = Function.update s.kernel.stream (kernelFdLen * page + fd) m

theorem OpenInv.fillsOwnSlot {s s' : OpenState} {op : OpenOp} (hi : OpenInv s) (hop : op.OfOPEN)
    (hs : op.step s s') : op.FillsOwnSlot s s' := by
  cases op with
  | makeStream t target flags p =>
      obtain ⟨m, -, h1⟩ := bind_ok hs.2
      rw [← Except.ok.inj h1]
      exact .inl rfl
  | search t =>
      obtain ⟨m, base, k, -, -, hk, rfl⟩ := search_steps hs
      obtain ⟨rfl, -⟩ := search_ok hk
      exact .inl rfl
  | copy t =>
      obtain ⟨m, base, hpc, hbase, rfl⟩ := copy_steps hs
      obtain ⟨page, hpage, rfl⟩ := kernelFd_ok_iff.mp hbase
      have hrelies := hi.relies t
      rw [hpc] at hrelies
      obtain ⟨page', hpage', hlt, hclosed⟩ := hrelies
      obtain rfl := Option.some.inj (hpage.symm.trans hpage')
      exact .inr ⟨t, m, page, s.kernel.kernelFdLastClosed, rfl, hpc, hpage, hlt, hclosed, rfl⟩
  | ret t =>
      have hexec := hs.2
      rw [OpenOp.exec] at hexec
      split at hexec
      · rw [← Except.ok.inj hexec]
        exact .inl rfl
      · cases hexec
  | InitKernelFd t page => exact absurd hop id
  | closeSlot t fd => exact absurd hop id
  | setHint t => exact absurd hop id

/-- A call that nobody disturbs is the `OPEN` of the other modules. -/
def OpenState.OpensAtOnce (s : OpenState) : Prop :=
  ∀ t target flags p k', s.pc t = .user → s.kernel.allocated p = false →
    s.kernel.OPEN t target flags p = .ok k' → ∃ s',
      Run OpenOp.step s [.makeStream t target flags p, .search t, .copy t, .ret t] s' ∧
        s'.kernel = k' ∧ s'.pc = s.pc

theorem opensAtOnce (s : OpenState) : s.OpensAtOnce := by
  intro t target flags p k' hpc hp hk
  obtain ⟨base, hbase, h1⟩ := bind_ok hk
  obtain ⟨m, hm, h2⟩ := bind_ok h1
  obtain ⟨k1, hsearch, h3⟩ := bind_ok h2
  obtain rfl := Except.ok.inj h3
  have hkernel : k1.kernelFd t = .ok base := by
    obtain ⟨rfl, -⟩ := search_ok hsearch
    exact hbase
  let fd := k1.kernelFdLastClosed
  let s1 := s.goto t (.opening m) (s.kernel.malloc p)
  let s2 := s1.goto t (.found m) k1
  let s3 := s2.goto t (.copied fd (k1.Taken base fd)) (k1.copyStream base m)
  have hmade : OpenOp.exec s (.makeStream t target flags p) = .ok s1 := by
    simp only [OpenOp.exec, hm]
    rfl
  have hfound : OpenOp.exec s1 (.search t) = .ok s2 := by
    have hat : s1.pc t = .opening m := Function.update_self _ _ _
    have hbase1 : s1.kernel.kernelFd t = .ok base := hbase
    have hsearch1 : s1.kernel.search base = .ok k1 := hsearch
    simp only [OpenOp.exec, hat, hbase1]
    change s1.kernel.search base >>= _ = _
    rw [hsearch1]
    rfl
  have hcopied : OpenOp.exec s2 (.copy t) = .ok s3 := by
    have hat : s2.pc t = .found m := Function.update_self _ _ _
    have hbase2 : s2.kernel.kernelFd t = .ok base := hkernel
    simp only [OpenOp.exec, hat, hbase2]
    rfl
  have hreturned : OpenOp.exec s3 (.ret t) = .ok { s3.goto t .user s3.kernel with
      opened := ⟨t, fd, k1.Taken base fd, fd⟩ :: s.opened } := by
    have hat : s3.pc t = .copied fd (k1.Taken base fd) := Function.update_self _ _ _
    simp only [OpenOp.exec, hat]
    rfl
  refine ⟨_, Run.cons ⟨⟨hpc, hp⟩, hmade⟩ (Run.cons ⟨trivial, hfound⟩ (Run.cons ⟨trivial, hcopied⟩
    (Run.cons ⟨trivial, hreturned⟩ (Run.nil _)))), rfl, ?_⟩
  funext t'
  by_cases heq : t' = t
  · rw [heq, hpc]
    exact Function.update_self _ _ _
  · simp only [OpenState.goto, s3, s2, s1, Function.update_of_ne heq]

/-- In a run in which no task moves the hint between another's search and return, `OPEN` fills a
closed slot of the caller's own table, and nothing else, and returns that slot. Its search fails
exactly if all slots of the caller are open. -/
theorem opens_private_if_undisturbed {s₀ s : OpenState} {ops : List OpenOp} (h0 : s₀.Start)
    (hrun : Run (Guarded OpenOp.Undisturbing OpenOp.step) s₀ ops s) :
    (∀ o ∈ s.opened, o.Private) ∧
      (∀ op s', op.OfOPEN → OpenOp.step s op s' → op.FillsOwnSlot s s') ∧
      (∀ t base, s.kernel.kernelFd t = .ok base →
        (s.kernel.search base = .error .ERR_FD_TOOHIGH ↔
          ∀ fd < kernelFdLen, s.kernel.Taken base fd)) ∧
      s.OpensAtOnce := by
  have hi : OpenInv s :=
    run_invariant (fun _ _ _ h hgood hs => openStep_inv h hgood hs) hrun h0.inv
  exact ⟨hi.opened, fun op s' hop hs => hi.fillsOwnSlot hop hs,
    fun t base _ => search_toohigh_iff hi.hint, opensAtOnce s⟩

/-- Two tasks with empty tables. -/
def twoTables : OpenState where
  kernel := (boot.InitKernelFd 0 5).InitKernelFd 1 6
  pc _ := .user
  opened := []

theorem twoTables_start : twoTables.Start where
  hint := Nat.zero_le kernelFdLen
  user _ := rfl
  own t t' page ht ht' := by
    have htable : ∀ u q, twoTables.kernel.file_descriptors u = some q →
        u = 0 ∧ q = 5 ∨ u = 1 ∧ q = 6 := by
      intro u q hq
      simp only [twoTables, Kernel.InitKernelFd, Function.update_apply] at hq
      split at hq
      · exact .inr ⟨‹_›, (Option.some.inj hq).symm⟩
      · split at hq
        · exact .inl ⟨‹_›, (Option.some.inj hq).symm⟩
        · cases hq
    rcases htable t page ht with ⟨rfl, rfl⟩ | ⟨rfl, rfl⟩ <;>
      rcases htable t' _ ht' with ⟨rfl, h⟩ | ⟨rfl, h⟩
    · rfl
    · cases h
    · cases h
    · rfl
  opened := rfl

/-- The calls whose steps can be checked by evaluation. -/
def OpenOp.ready (s : OpenState) : OpenOp → Bool
  | .InitKernelFd _ _ => false
  | .makeStream t _ _ p => s.pc t = .user && !s.kernel.allocated p
  | .closeSlot t fd => s.pc t = .user && fd < kernelFdLen
  | _ => true

theorem OpenOp.enabled_of_ready {s : OpenState} {op : OpenOp} (h : op.ready s = true) :
    op.Enabled s := by
  cases op with
  | InitKernelFd t page => cases h
  | makeStream t target flags p => simpa [OpenOp.ready, OpenOp.Enabled] using h
  | closeSlot t fd => simpa [OpenOp.ready, OpenOp.Enabled] using h
  | search t => trivial
  | copy t => trivial
  | ret t => trivial
  | setHint t => trivial

instance (s : OpenState) : ∀ op : OpenOp, Decidable (op.LeavesHint s)
  | .InitKernelFd _ _ => inferInstanceAs (Decidable (_ = _))
  | .search t =>
    match h : s.kernel.file_descriptors t with
    | none => isTrue (by simp only [OpenOp.LeavesHint, h])
    | some page =>
      decidable_of_iff (¬ s.kernel.Taken (kernelFdLen * page) s.kernel.kernelFdLastClosed)
        (by simp only [OpenOp.LeavesHint, h])
  | .setHint _ => inferInstanceAs (Decidable (_ = _))
  | .makeStream _ _ _ _ | .copy _ | .ret _ | .closeSlot _ _ => isTrue trivial

/-- Two tasks open the terminal, step by step in turn; then the first closes it and opens a file. -/
def inTurn : List OpenOp :=
  [.makeStream 0 (.stream tty) 0 100, .search 0, .makeStream 1 (.stream tty) 0 200, .search 1,
    .copy 0, .copy 1, .ret 1, .ret 0, .closeSlot 0 0, .setHint 0, .makeStream 0 .file 0 300,
    .search 0, .copy 0, .ret 0]

theorem opens_private_two_tasks : ∃ s,
    Run (Guarded OpenOp.Undisturbing OpenOp.step) twoTables inTurn s ∧
    s.opened.length = 3 ∧ ∀ o ∈ s.opened, o.Private := by
  have hall : ((follow (fun s op => op.ready s = true ∧ op.LeavesHint s) OpenOp.exec twoTables
      inTurn).map (·.opened.length)) = some 3 := by
    decide +kernel
  obtain ⟨s, hs, hthree⟩ := Option.map_eq_some_iff.mp hall
  have hrun : Run (Guarded OpenOp.Undisturbing OpenOp.step) twoTables inTurn s :=
    run_of_follow (fun _ _ _ h h' => ⟨fun _ => h.2, OpenOp.enabled_of_ready h.1, h'⟩) hs
  exact ⟨s, hrun, hthree, (opens_private_if_undisturbed twoTables_start hrun).1⟩

/-- The first task has one stream open and has found a slot for another one when the second closes
its own. -/
def closedInBetween : List OpenOp :=
  [.makeStream 0 (.stream tty) 0 100, .search 0, .copy 0, .ret 0,
    .makeStream 1 (.stream tty) 0 200, .search 1, .copy 1, .ret 1,
    .makeStream 0 .file 0 300, .search 0, .closeSlot 1 0, .setHint 1, .copy 0, .ret 0]

/-- The new stream takes the place of the one that is open. -/
theorem open_slot_overwritten : twoTables.Start ∧ ∃ s, Run OpenOp.step twoTables closedInBetween s ∧
    ∃ o ∈ s.opened, o.task = 0 ∧ o.wasTaken = true ∧ o.returned = 0 ∧ ¬ o.Private := by
  have hall : ((follow (fun s op => op.ready s = true) OpenOp.exec twoTables
      closedInBetween).map (·.opened)) =
        some [⟨0, 0, true, 0⟩, ⟨1, 0, false, 0⟩, ⟨0, 0, false, 0⟩] := by
    decide +kernel
  obtain ⟨s, hs, hopened⟩ := Option.map_eq_some_iff.mp hall
  refine ⟨twoTables_start, s, run_of_follow (fun _ _ _ h h' => ⟨OpenOp.enabled_of_ready h, h'⟩) hs,
    ⟨0, 0, true, 0⟩, ?_, rfl, rfl, rfl, fun h => nomatch h.free⟩
  rw [hopened]
  exact List.mem_cons_self

end UnnamedOS.Descriptors
