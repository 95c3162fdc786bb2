import UnnamedOS.Lib.Spaces
import UnnamedOS.Paging.WellFormed

/-!
# Tasks do not reach each other's memory

Any number of tasks, of which one runs. They store and take page faults, `switch_to_task` exchanges
their user halves, and in between the kernel hands its own pages out, frees them and writes to them.
-/

namespace UnnamedOS.Paging

open UnnamedOS.Lib

/-- The tables below the first entry of the top-level table. -/
structure Half where
  top : Option Entry
  pdpt : Nat → Option Entry
  pde : Nat → Nat → Option Entry
  pt : Nat → Nat → Nat → Option Entry

/-- A task that has not run yet has a zeroed page for its half. -/
def Half.empty : Half := ⟨none, fun _ => none, fun _ _ => none, fun _ _ _ => none⟩

/-- The page of the user half with the three lower indices. -/
def Page.user (p : Page) : Page := { p with pml4 := 0 }

def Half.mapped (h : Half) (p : Page) : Option Entry :=
  if h.top = none ∨ h.pdpt p.pdpt = none ∨ h.pde p.pdpt p.pde = none then none
  else h.pt p.pdpt p.pde p.pt

def Pager.half (s : Pager) : Half := ⟨s.pml4 0, s.pdpt 0, s.pde 0, fun j k l => s.pt ⟨0, j, k, l⟩⟩

/-- The tables with another user half. -/
def Pager.withHalf (s : Pager) (h : Half) : Pager :=
  { s with
    pml4 := Function.update s.pml4 0 h.top
    pdpt := Function.update s.pdpt 0 h.pdpt
    pde := Function.update s.pde 0 h.pde
    pt := fun p => if p.pml4 = 0 then h.pt p.pdpt p.pde p.pt else s.pt p }

variable {τ : Type} [DecidableEq τ]

structure Machine (τ : Type) where
  kernel : KernelState
  /-- What the pages at the tasks' `cr3` lead to, as it was when they ran last. -/
  halves : τ → Half
  current : τ
  brk : τ → Option ProgMem
  /-- The bytes, by frame and offset. -/
  memory : Nat × Nat → UInt8

namespace Machine

abbrev pager (m : Machine τ) : Pager := m.kernel.pager

/-- The user half that the task runs with. -/
def half (m : Machine τ) : τ → Half := Function.update m.halves m.current m.pager.half

/-- The frame and offset of an address below `CBASE`. -/
def place (m : Machine τ) (t : τ) (v : UInt64) : Option (Nat × Nat) :=
  if v < CBASE then ((m.half t).mapped (pageOf v)).map fun e => (e.frame, v.toNat % 4096) else none

/-- The byte that the task loads from an address. -/
def reads (m : Machine τ) (t : τ) (v : UInt64) : Option UInt8 := view m.place m.memory t v

/-- No task has a page yet. -/
structure Fresh (m : Machine τ) (p : Pager) : Prop where
  kernel : m.kernel = KernelState.start p
  halves : ∀ t, m.halves t = Half.empty

end Machine

inductive MachineOp (τ : Type) where
  | store (v : UInt64) (b : UInt8)
  | fault (virt_ad errc : UInt64)
  /-- `switch_to_task`, as far as the user half goes. -/
  | switch (t : τ)
  /-- The sbrk of `INT0x80C` and the loader. -/
  | setBrk (b : Option ProgMem)
  | allocs (size : Nat)
  | free (v : UInt64)
  /-- The kernel writes to pages of its own. -/
  | kernelWrites

def MachineOp.step (m : Machine τ) (op : MachineOp τ) (m' : Machine τ) : Prop :=
  match op with
  | .store v b => ∃ k, m.place m.current v = some k ∧
      m' = { m with memory := Function.update m.memory k b }
  | .fault virt_ad errc => errc &&& 1 = 0 ∧ m.pager.mapped (pageOf virt_ad) = none ∧
      ∃ s', PAGE_FAULT (m.brk m.current) virt_ad errc m.pager = .ok ⟨⟩ s' ∧
        m' = { m with kernel := { m.kernel with pager := s' } }
  | .switch t => m' = { m with
      kernel := { m.kernel with pager := m.pager.withHalf (m.half t) }
      halves := m.half
      current := t }
  | .setBrk b => m' = { m with brk := Function.update m.brk m.current b }
  | .allocs size => ∃ k, KernelOp.step m.kernel (.allocs size) k ∧ m' = { m with kernel := k }
  | .free v => ∃ k, KernelOp.step m.kernel (.free v) k ∧ m' = { m with kernel := k }
  | .kernelWrites => ∃ memory : Nat × Nat → UInt8,
      (∀ k, memory k ≠ m.memory k → ∃ n < gib, ∃ e, m.pager.mapped (kernelPage n) = some e ∧
        e.frame = k.1) ∧ m' = { m with memory := memory }

/-- The condition on a step: a fault is not in the last page of the address space, and frames and
pages of the kernel are at hand. -/
def MachineOp.Meets (m : Machine τ) : MachineOp τ → Prop
  | .fault virt_ad _ => virt_ad < 0xFFFFFFFFFFFFF000 ∧ Framed m.pager 1 ∧ Prepared m.pager 4
  | .allocs size => KernelOp.Meets m.kernel (.allocs size)
  | _ => True

/-- What the tasks have stored, with the task `t` running. -/
def MachineOp.recorded (t : τ) (stored : τ → UInt64 → Option UInt8) :
    MachineOp τ → τ → UInt64 → Option UInt8
  | .store v b => Lib.recorded stored t v b
  | _ => stored

/-- The task that runs behind a step. -/
def MachineOp.next (t : τ) : MachineOp τ → τ
  | .switch u => u
  | _ => t

/-- What the tasks have stored in a run, as its steps say. -/
def storedAfter (t : τ) (stored : τ → UInt64 → Option UInt8) :
    List (MachineOp τ) → τ → UInt64 → Option UInt8
  | [] => stored
  | op :: ops => storedAfter (op.next t) (op.recorded t stored) ops

/-- A frame that is marked and that no page of the kernel is in. -/
structure TaskFrame (s : Pager) (f : Nat) : Prop where
  low : f % 64 ≤ 31
  marked : s.marked f = true
  task : ∀ n < gib, ∀ e, s.mapped (kernelPage n) = some e → e.frame ≠ f

variable {s s' t : Pager} {T out : Nat → Prop} {n m k f : Nat} {p q : Page} {v : UInt64}
  {e : Entry}

/-! ## The frame of a fault -/

/-- `PL_FN` finds one of the lower 32 frames of a word. -/
theorem plFnLoop_low (kpalloc : PageM UInt64) (n p i : Nat) (hi : i % 64 = 0) (s : Pager) :
    Ends (plFnLoop kpalloc n p i) s (fun f _ => f % 64 ≤ 31) fun _ _ => True := by
  induction n generalizing p i s with
  | zero => exact ends_throw.mpr trivial
  | succ n ih =>
      have hstart : Ends (get : PageM Pager) s (fun t s' => t = s ∧ s' = s) fun _ _ => True :=
        ends_get.mpr ⟨rfl, rfl⟩
      apply hstart.bind
      rintro t s' ⟨rfl, rfl⟩
      split
      · exact ends_throw.mpr trivial
      · split
        · rename_i j _
          split
          · exact ends_throw.mpr trivial
          · rename_i m hm
            split
            · exact ends_throw.mpr trivial
            · have hlt : m < 32 := List.mem_range.mp (List.mem_of_find?_eq_some hm)
              have hmod : (i + 64 * j + m) % 64 ≤ 31 := by
                rw [Nat.add_mod, Nat.add_mul_mod_self_left, hi, Nat.zero_add, Nat.mod_mod]
                omega
              exact ends_pure.mpr hmod
        · have hnext : (i + 64 * 511) % 64 = 0 := by rw [Nat.add_mul_mod_self_left, hi]
          exact (ends_any (extendLast kpalloc p) _).bind fun _ u _ => ih (p + 1) _ hnext u

theorem plFn_low (kpalloc : PageM UInt64) (s : Pager) :
    Ends (plFn kpalloc) s (fun f _ => f % 64 ≤ 31) fun _ _ => True := by
  rw [plFn, ends_bind, ends_get]
  exact plFnLoop_low kpalloc _ 0 0 rfl s

/-- The entry that `ALSP` makes. -/
theorem ALSP_low (flags magic1 magic2 : UInt8) (v : UInt64) (s : Pager) :
    Ends (ALSP v flags magic1 magic2) s
      (fun _ s' => ∀ e, s'.mapped (pageOf v) = some e → e.frame % 64 ≤ 31) fun _ _ => True := by
  rw [ALSP]
  apply (plFn_low KPALLOC s).bind
  intro f s₁ hf
  apply (ends_any _ s₁).bind
  intro _ s₂ _
  apply (ends_any _ s₂).bind
  intro _ s₃ _
  apply (ends_any _ s₃).bind
  intro _ s₄ _
  apply (ends_any _ s₄).bind
  intro _ s₅ _
  rw [ends_bind, ends_get]
  split
  · exact ends_throw.mpr trivial
  · rw [ends_modify]
    intro e he
    have hself : (setPt (pageOf v) (some ⟨f, magic2 ||| flags⟩) s₅).pt (pageOf v) =
        some ⟨f, magic2 ||| flags⟩ := Function.update_self ..
    rw [Pager.mapped] at he
    split at he
    · cases he
    · rw [hself] at he
      obtain rfl := Option.some.inj he
      exact hf

/-! ## Free frames -/

/-- The pages of the slots from 32 on are enough for a few calls with a refill. -/
theorem PoolInv.serves (h : PoolInv s T out) (hp : Prepared s k) (hk : k ≤ 29) :
    QuietFor s k ∨ ∀ frames, Provided s frames 64 k := by
  have hsupply : 32 ≤ slotsBelow 512 s.pool := slotsBelow_of_filled (by decide) h.full
  rcases hp with hmore | hroom | hslots
  · exact .inr fun _ => ⟨1, by decide, 1, by decide, by omega, fun h0 => absurd h0 (by decide),
      .inr ⟨rfl, hmore⟩⟩
  · exact .inr fun _ => ⟨1, by decide, 0, by decide, by omega, fun h0 => absurd h0 (by decide),
      .inl hroom⟩
  · exact .inl (.inl hslots)

/-- A page for a task gets a frame that was free. -/
theorem PoolInv.user_takes (h : PoolInv s T out) (flags magic1 magic2 : UInt8)
    (hv : (pageOf v).pml4 = 0) (hnone : s.mapped (pageOf v) = none) (hframed : Framed s 1)
    (hp : Prepared s 4) :
    Ends (ALSP v flags magic1 magic2) s (fun _ s' => TakesFree s s') fun _ _ => False := by
  have hmissing := missingTables_le s (pageOf v)
  have hclear : Clear s (pageOf v) := .inl (by omega)
  obtain ⟨b, hb, hone⟩ : ∃ b ≤ 1, b = 0 ∧ RoomyFrames s 1 ∨ b = 1 ∧ QuietFor s 1 := by
    by_cases hroom : RoomyFrames s 1
    · exact ⟨0, by decide, .inl ⟨rfl, hroom⟩⟩
    · obtain ⟨a, ha, hfind⟩ := hframed.slot hroom
      have hne := (pop_bound hfind).2.1
      have hslot : ∀ j, a ≤ j → j < a + 1 → s.pool j ≠ 0 := by
        intro j hj hlt
        obtain rfl : j = a := by omega
        exact hne
      have hlow : a + 1 - a ≤ lowSlots s.pool := slotsBelow_of_filled (by omega) hslot
      exact ⟨1, by decide, .inr ⟨rfl, .inl (by omega)⟩⟩
  have hserves : QuietFor s (b + s.missingTables (pageOf v)) ∨
      Provided s 65 64 (b + s.missingTables (pageOf v)) ∧ Clear s (pageOf v) := by
    rcases h.serves hp (by decide) with hquiet | hprovided
    · exact .inl (hquiet.mono (by omega))
    · obtain ⟨c, hc, d, hd, hsupply, hframes, hpages⟩ := hprovided 65
      exact .inr ⟨⟨c, hc, d, hd, by omega, hframes, hpages⟩, hclear⟩
  exact (h.sound.alsp flags magic1 magic2 hnone ⟨b, hone, hserves⟩).mono (fun _ _ h => h.1)
    fun _ _ hf => hf

theorem PoolInv.kpalloc_takes (h : PoolInv s T out) (hp : Prepared s 1) :
    Ends KPALLOC s (fun _ s' => TakesFree s s') fun _ _ => False := by
  have hclear : Clear s ⟨0, 0, 0, 0⟩ := .inl (by decide)
  have hserves : Serves s ⟨0, 0, 0, 0⟩ 1 := by
    rcases h.serves hp (by decide) with hquiet | hprovided
    · exact .inl hquiet
    · exact .inr ⟨⟨T, h.sound⟩, hprovided 64, hclear⟩
  apply (kpalloc_served h.core.stock hserves (by decide)).mono
  · rintro _ s' ⟨n, -, hn⟩
    exact hn.takes
  · exact fun _ _ hf => hf

/-- What an allocation for the kernel does: it takes free frames, and none of them for the user half. -/
def TakesForKernel (s s' : Pager) : Prop :=
  TakesFree s s' ∧ ∀ p, p.pml4 = 0 → s'.mapped p = s.mapped p

/-- A page of `KP_ALLOC4`. -/
theorem TookQuietly.takesForKernel {c : Nat} (h : PoolInv s T out) (_ : n < gib)
    (habsent : Absent s n) (ht : TookQuietly s t T f c) :
    TakesForKernel s (t.withPage (kernelPage n) f) := by
  have hnone : t.mapped (kernelPage n) = none := by
    rw [ht.took.tables.mapped]
    exact habsent.unmapped
  have hput := (ht.took.marksFrame h.core.frames).put (e := ⟨f, 0x1⟩) (.refl t) hnone rfl
  refine ⟨hput.trans (.of_same (fun _ => rfl) fun _ => rfl), fun p hp => ?_⟩
  refine ht.others fun heq => ?_
  exact Nat.zero_ne_one (hp.symm.trans (congrArg Page.pml4 heq))

/-- `KPALLOCS` takes free frames, and none of them for the user half. -/
theorem PoolInv.kpallocs_takes (h : PoolInv s T out) (hn : 1 ≤ n) (hstocked : Stocked s n)
    (hrun : n = 1 ∨ HasRun s n) (rounds : Nat) :
    Ends (KPALLOCS rounds n) s (fun _ s' => TakesForKernel s s') fun _ _ => True := by
  refine PoolInv.kpallocs_rel (fun s => ⟨.refl s, fun _ _ => rfl⟩)
    (fun _ _ _ h h' => ⟨h.1.trans h'.1, fun p hp => (h'.2 p hp).trans (h.2 p hp)⟩)
    TookQuietly.takesForKernel (fun hp => ?_) h hn hstocked hrun rounds
  exact ((h.kpalloc_takes hp).and (KPALLOC_onlyAdds s)).mono (fun _ _ h => ⟨h.1, h.2.user⟩)
    fun _ _ _ => trivial

/-- `P_FREE` of a kernel page leaves the frames of the tasks marked. -/
theorem PoolInv.p_free_user (h : PoolInv s T out) (hn : out n) :
    Ends (P_FREE (kernelAddress n)) s (fun _ s' => s'.half = s.half ∧
      ∀ f, TaskFrame s f → TaskFrame s' f) fun _ _ => False := by
  obtain ⟨hgib, -, -⟩ := h.core.handed n hn
  refine (h.p_free_eq hn).mono ?_ fun _ _ hf => hf
  rintro _ _ ⟨e, he, hlow, hcovers, rfl⟩
  constructor
  · have hpt : (fun j k l => (s.freed n e.frame).pt ⟨0, j, k, l⟩) =
        fun j k l => s.pt ⟨0, j, k, l⟩ := by
      funext j k l
      have hne : (⟨0, j, k, l⟩ : Page) ≠ kernelPage n :=
        fun heq => absurd (congrArg Page.pml4 heq) Nat.zero_ne_one
      exact Function.update_of_ne hne none s.pt
    rw [Pager.half, hpt]
    rfl
  · intro f hf
    have hne : f ≠ e.frame := fun heq => hf.task n hgib e he heq.symm
    have hstore := h.core.frames.store (v := false) hcovers hlow
    have hmarked := hstore.low f hf.low
    rw [if_neg hne, ← h.core.frames.low f hf.low] at hmarked
    refine ⟨hf.low, hmarked.mpr hf.marked, fun k hk e' he' => ?_⟩
    obtain ⟨N, hN⟩ := h.core.tables
    exact hf.task k hk e' (freed_entry hN hk he').2

/-! ## The user halves -/

theorem half_mapped (s : Pager) (p : Page) : s.half.mapped p = s.mapped p.user := rfl

theorem withHalf_half (s : Pager) (h : Half) : (s.withHalf h).half = h := by
  rw [Pager.half, Pager.withHalf]
  simp only [Function.update_self, if_true]

theorem userSide_withHalf (s : Pager) (h : Half) : UserSide s (s.withHalf h) where
  pml4 _ hi := Function.update_of_ne hi ..
  pdpt _ hi := Function.update_of_ne hi ..
  pde _ hi := Function.update_of_ne hi ..
  pt _ hp := if_neg hp
  pool := rfl
  chain := rfl
  calling := rfl

theorem TaskFrame.user (h : TaskFrame s f) (hu : UserSide s s') : TaskFrame s' f := by
  refine ⟨h.low, (hu.marked f).trans h.marked, fun n hn e he => ?_⟩
  rw [hu.kernelPage] at he
  exact h.task n hn e he

/-- A frame that was marked is not taken a second time. -/
theorem TaskFrame.takes (h : TaskFrame s f) (ht : TakesFree s s') : TaskFrame s' f := by
  refine ⟨h.low, ht.marks f h.marked, fun n hn e he heq => ?_⟩
  rcases ht.old_or_new he with hold | hnone
  · exact h.task n hn e hold heq
  · have hfree := (ht.fresh _ e hnone he).1
    rw [heq, h.marked] at hfree
    cases hfree

/-- The frame of a new page of the user half. -/
theorem PoolInv.taskFrame (h : PoolInv s T out) (ht : TakesFree s s') (hp : p.pml4 = 0)
    (hnone : s.mapped p = none) (he : s'.mapped p = some e) (hlow : e.frame % 64 ≤ 31) :
    TaskFrame s' e.frame := by
  obtain ⟨hfree, hmarked⟩ := ht.fresh p e hnone he
  refine ⟨hlow, hmarked, fun n hn e' he' heq => ?_⟩
  rcases ht.old_or_new he' with hold | hnone'
  · have hheld := h.core.held n hn e' hold
    rw [heq, ← h.core.frames.low _ hlow, hfree] at hheld
    cases hheld
  · have hsame := ht.sole _ p e' e hnone' hnone he' he heq
    exact Nat.one_ne_zero ((congrArg Page.pml4 hsame).trans hp)

/-! ## The invariant -/

variable {m m' : Machine τ} {u w : τ}

namespace Machine

/-- The frames of the tasks are marked, no page of the kernel is in them, and no two pages of tasks
have the same one. -/
structure Inv (m : Machine τ) : Prop where
  kernel : m.kernel.Inv
  held : ∀ t p e, (m.half t).mapped p = some e → TaskFrame m.pager e.frame
  sole : ∀ t u p q e e', (m.half t).mapped p = some e → (m.half u).mapped q = some e' →
    e.frame = e'.frame → t = u ∧ p.pdpt = q.pdpt ∧ p.pde = q.pde ∧ p.pt = q.pt

theorem half_self (m : Machine τ) : m.half m.current = m.pager.half := Function.update_self ..

theorem half_of_ne (h : u ≠ m.current) : m.half u = m.halves u := Function.update_of_ne h ..

/-- With other kernel tables the task in front has what it had, or a new page. -/
theorem half_kernel {k : KernelState} (ht : TakesFree m.pager k.pager)
    (he : (({ m with kernel := k } : Machine τ).half u).mapped p = some e) :
    (m.half u).mapped p = some e ∨
      u = m.current ∧ m.pager.mapped p.user = none ∧ k.pager.mapped p.user = some e := by
  by_cases hu : u = m.current
  · subst hu
    rw [half_self, half_mapped] at he ⊢
    rcases ht.old_or_new he with hold | hnone
    · exact .inl hold
    · exact .inr ⟨rfl, hnone, he⟩
  · have hold : (m.halves u).mapped p = some e := half_of_ne (m := { m with kernel := k }) hu ▸ he
    rw [half_of_ne hu]
    exact .inl hold

theorem Inv.takes (h : m.Inv) {k : KernelState} (hk : k.Inv) (ht : TakesFree m.pager k.pager)
    (hlow : ∀ p e, p.pml4 = 0 → m.pager.mapped p = none → k.pager.mapped p = some e →
      e.frame % 64 ≤ 31) : ({ m with kernel := k } : Machine τ).Inv := by
  obtain ⟨T, out, hinv, -⟩ := h.kernel.pager
  constructor
  case kernel => exact hk
  case held =>
    intro u p e he
    rcases half_kernel ht he with hold | ⟨-, hnone, hnew⟩
    · exact (h.held u p e hold).takes ht
    · exact hinv.taskFrame ht rfl hnone hnew (hlow p.user e rfl hnone hnew)
  case sole =>
    intro u w p q e e' he he' heq
    rcases half_kernel ht he with hold | ⟨rfl, hnone, hnew⟩
    · rcases half_kernel ht he' with hold' | ⟨rfl, hnone', hnew'⟩
      · exact h.sole u w p q e e' hold hold' heq
      · have hfree := (ht.fresh _ e' hnone' hnew').1
        rw [← heq, (h.held u p e hold).marked] at hfree
        cases hfree
    · rcases half_kernel ht he' with hold' | ⟨rfl, hnone', hnew'⟩
      · have hfree := (ht.fresh _ e hnone hnew).1
        rw [heq, (h.held w q e' hold').marked] at hfree
        cases hfree
      · have hsame := ht.sole _ _ e e' hnone hnone' hnew hnew' heq
        rw [Page.mk.injEq] at hsame
        exact ⟨rfl, hsame.2⟩

theorem half_same {k : KernelState} (hhalf : k.pager.half = m.pager.half) :
    ({ m with kernel := k } : Machine τ).half = m.half := by
  rw [half, half]
  change Function.update m.halves m.current k.pager.half = _
  rw [hhalf]

/-- Other tables, with the same user half and the frames of the tasks still marked. -/
theorem Inv.keeps (h : m.Inv) {k : KernelState} (hk : k.Inv) (hhalf : k.pager.half = m.pager.half)
    (hframes : ∀ f, TaskFrame m.pager f → TaskFrame k.pager f) :
    ({ m with kernel := k } : Machine τ).Inv := by
  constructor
  case kernel => exact hk
  case held =>
    rw [half_same hhalf]
    exact fun u p e he => hframes _ (h.held u p e he)
  case sole =>
    rw [half_same hhalf]
    exact h.sole

theorem half_switch (m : Machine τ) (u : τ) :
    ({ m with
      kernel := { m.kernel with pager := m.pager.withHalf (m.half u) }
      halves := m.half
      current := u } : Machine τ).half = m.half := by
  rw [half]
  change Function.update m.half u (m.pager.withHalf (m.half u)).half = m.half
  rw [withHalf_half, Function.update_eq_self]

theorem Inv.step {op : MachineOp τ} (h : m.Inv) (hm : op.Meets m) (hs : op.step m m') : m'.Inv := by
  obtain ⟨T, out, hinv, hout⟩ := h.kernel.pager
  cases op with
  | store v b =>
      obtain ⟨k, -, rfl⟩ := hs
      exact ⟨h.kernel, h.held, h.sole⟩
  | fault virt_ad errc =>
      obtain ⟨herrc, hnone, s', hfault, rfl⟩ := hs
      obtain ⟨hv, hframed, hprepared⟩ := hm
      obtain ⟨hbelow, halsp⟩ := PAGE_FAULT_ok herrc hv hfault
      have hpage : (pageOf (virt_ad &&& ~~~0xFFF)).pml4 = 0 := pageOf_pml4_eq_zero (by omega)
      have htakes := hinv.user_takes 2 0x7 0x5 hpage (by rw [pageOf_base]; exact hnone) hframed
        hprepared
      rw [Ends, halsp] at htakes
      have hstep : KernelOp.step m.kernel (.user (virt_ad &&& ~~~0xFFF) 2)
          { m.kernel with pager := s' } := ⟨hpage, halsp, rfl⟩
      have hmeets : KernelOp.Meets m.kernel (.user (virt_ad &&& ~~~0xFFF) 2) := ⟨hframed, hprepared⟩
      refine h.takes (h.kernel.step hmeets hstep) htakes fun p e hp0 hold hnew => ?_
      have hlow := ALSP_low 2 0x7 0x5 (virt_ad &&& ~~~0xFFF) m.pager
      have hspec : Ends (ALSP (virt_ad &&& ~~~0xFFF) 2 0x7 0x5) m.pager _ _ := ALSP_spec hpage m.pager
      rw [Ends, halsp] at hlow hspec
      by_cases hp : p = pageOf (virt_ad &&& ~~~0xFFF)
      · subst hp
        exact hlow e hnew
      · rcases hspec.elsewhere p hp with hsame | ⟨hne, -⟩
        · cases hnew.symm.trans (hsame.trans hold)
        · exact absurd hp0 hne
  | switch u =>
      obtain rfl := hs
      have hside := userSide_withHalf m.pager (m.half u)
      have hstep : KernelOp.step m.kernel .switch
          { m.kernel with pager := m.pager.withHalf (m.half u) } := ⟨hside, rfl⟩
      have hmeets : KernelOp.Meets m.kernel .switch := trivial
      constructor
      case kernel => exact h.kernel.step hmeets hstep
      case held =>
        rw [half_switch]
        exact fun w p e he => (h.held w p e he).user hside
      case sole =>
        rw [half_switch]
        exact h.sole
  | setBrk b =>
      obtain rfl := hs
      exact ⟨h.kernel, h.held, h.sole⟩
  | allocs size =>
      obtain ⟨k, hstep, rfl⟩ := hs
      have hallocs := hstep
      obtain ⟨rounds, v, hex, -⟩ := hallocs
      have hmeets : KernelOp.Meets m.kernel (.allocs size) := hm
      obtain ⟨hn, hstocked, hrun⟩ := hm
      have htakes := hinv.kpallocs_takes hn hstocked hrun rounds
      rw [Ends, hex] at htakes
      exact h.takes (h.kernel.step hmeets hstep) htakes.1 fun p e hp hold hnew =>
        absurd (hnew.symm.trans ((htakes.2 p hp).trans hold)) (Option.some_ne_none e)
  | free v =>
      obtain ⟨k, hstep, rfl⟩ := hs
      have hfree := hstep
      obtain ⟨hv, hfree, -⟩ := hfree
      obtain ⟨n, rfl, hn⟩ := hout v hv
      have hkeeps := hinv.p_free_user hn
      rw [Ends, hfree] at hkeeps
      have hmeets : KernelOp.Meets m.kernel (.free (kernelAddress n)) := trivial
      exact h.keeps (h.kernel.step hmeets hstep) hkeeps.1 hkeeps.2
  | kernelWrites =>
      obtain ⟨memory, -, rfl⟩ := hs
      exact ⟨h.kernel, h.held, h.sole⟩

/-! ## What a task finds -/

theorem place_some {k : Nat × Nat} (h : m.place u v = some k) :
    v.toNat < CBASE.toNat ∧ ∃ e, (m.half u).mapped (pageOf v) = some e ∧
      k = (e.frame, v.toNat % 4096) := by
  unfold place at h
  split at h
  · rename_i hlt
    obtain ⟨e, he, rfl⟩ := Option.map_eq_some_iff.mp h
    exact ⟨UInt64.lt_iff_toNat_lt.mp hlt, e, he, rfl⟩
  · cases h

/-- The place of an address is settled by its page. -/
theorem place_of_half (hhalf : ∀ p e, (m.half u).mapped p = some e → (m'.half u).mapped p = some e)
    {k : Nat × Nat} (h : m.place u v = some k) : m'.place u v = some k := by
  obtain ⟨hlt, e, he, rfl⟩ := place_some h
  rw [place, if_pos (UInt64.lt_iff_toNat_lt.mpr hlt), hhalf _ e he]
  rfl

theorem Inv.apart (h : m.Inv) : Apart m.place := by
  intro u v w v' k hk hk'
  obtain ⟨hlt, e, he, rfl⟩ := place_some hk
  obtain ⟨hlt', e', he', hsame⟩ := place_some hk'
  rw [Prod.mk.injEq] at hsame
  obtain ⟨hframe, hoffset⟩ := hsame
  obtain ⟨rfl, hpdpt, hpde, hpt⟩ := h.sole u w _ _ e e' he he' hframe
  rw [pageOf_eq, pageOf_eq] at hpdpt hpde hpt
  have hbase : CBASE.toNat = 549755813888 := rfl
  have hnat : v.toNat = v'.toNat := by
    dsimp only at hpdpt hpde hpt
    omega
  exact ⟨rfl, UInt64.toNat_inj.mp hnat⟩

theorem half_grows {k : KernelState} (ht : TakesFree m.pager k.pager)
    (he : (m.half u).mapped p = some e) :
    (({ m with kernel := k } : Machine τ).half u).mapped p = some e := by
  by_cases hu : u = m.current
  · subst hu
    rw [half_self, half_mapped] at he
    have hnew := ht.stays _ e he
    rwa [← half_mapped, ← half_self (m := { m with kernel := k })] at hnew
  · rw [half_of_ne hu] at he
    rwa [half_of_ne (m := { m with kernel := k }) hu]

theorem Inv.tracks {op : MachineOp τ} {stored : τ → UInt64 → Option UInt8} (h : m.Inv)
    (hm : op.Meets m) (hs : op.step m m') (htracks : Tracks m.place m.memory stored) :
    Tracks m'.place m'.memory (op.recorded m.current stored) := by
  obtain ⟨T, out, hinv, hout⟩ := h.kernel.pager
  cases op with
  | store v b =>
      obtain ⟨k, hk, rfl⟩ := hs
      exact htracks.store h.apart hk
  | fault virt_ad errc =>
      obtain ⟨herrc, hnone, s', hfault, rfl⟩ := hs
      obtain ⟨hv, hframed, hprepared⟩ := hm
      obtain ⟨hbelow, halsp⟩ := PAGE_FAULT_ok herrc hv hfault
      have htakes := hinv.user_takes (v := virt_ad &&& ~~~0xFFF) 2 0x7 0x5
        (pageOf_pml4_eq_zero (by omega)) (by rw [pageOf_base]; exact hnone) hframed hprepared
      rw [Ends, halsp] at htakes
      exact htracks.grow (fun u v k hk => place_of_half (fun p e he => half_grows htakes he) hk)
        fun _ _ _ _ => rfl
  | switch u =>
      obtain rfl := hs
      exact htracks.grow (fun w v k hk => place_of_half (fun p e he => by rwa [half_switch]) hk)
        fun _ _ _ _ => rfl
  | setBrk b =>
      obtain rfl := hs
      exact htracks
  | allocs size =>
      obtain ⟨k, ⟨rounds, v, hex, -⟩, rfl⟩ := hs
      obtain ⟨hn, hstocked, hrun⟩ := hm
      have htakes := hinv.kpallocs_takes hn hstocked hrun rounds
      rw [Ends, hex] at htakes
      exact htracks.grow (fun u v k hk => place_of_half (fun p e he => half_grows htakes.1 he) hk)
        fun _ _ _ _ => rfl
  | free v =>
      obtain ⟨k, ⟨hv, hfree, -⟩, rfl⟩ := hs
      obtain ⟨n, rfl, hn⟩ := hout v hv
      have hkeeps := hinv.p_free_user hn
      rw [Ends, hfree] at hkeeps
      exact htracks.grow
        (fun u v k hk => place_of_half (fun p e he => by rwa [half_same hkeeps.1]) hk)
        fun _ _ _ _ => rfl
  | kernelWrites =>
      obtain ⟨memory, hwrites, rfl⟩ := hs
      refine htracks.grow (fun _ _ _ hk => hk) fun u v k hk => ?_
      obtain ⟨-, e, he, rfl⟩ := place_some hk
      by_contra hne
      obtain ⟨n, hn, e', he', hframe⟩ := hwrites _ hne
      exact (h.held u _ e he).task n hn e' he' hframe

theorem next_current {op : MachineOp τ} (hs : op.step m m') : m'.current = op.next m.current := by
  cases op with
  | store v b => obtain ⟨k, -, rfl⟩ := hs; rfl
  | fault virt_ad errc => obtain ⟨-, -, s', -, rfl⟩ := hs; rfl
  | switch u => obtain rfl := hs; rfl
  | setBrk b => obtain rfl := hs; rfl
  | allocs size => obtain ⟨k, -, rfl⟩ := hs; rfl
  | free v => obtain ⟨k, -, rfl⟩ := hs; rfl
  | kernelWrites => obtain ⟨memory, -, rfl⟩ := hs; rfl

/-- By induction on the run. -/
theorem run_tracks {ops : List (MachineOp τ)} {stored : τ → UInt64 → Option UInt8}
    (hrun : Run (Guarded MachineOp.Meets MachineOp.step) m ops m') (h : m.Inv)
    (htracks : Tracks m.place m.memory stored) :
    m'.Inv ∧ Tracks m'.place m'.memory (storedAfter m.current stored ops) := by
  induction hrun generalizing stored with
  | nil m => exact ⟨h, htracks⟩
  | cons hs _ ih =>
      have hnext := ih (h.step hs.1 hs.2) (h.tracks hs.1 hs.2 htracks)
      rw [next_current hs.2] at hnext
      exact hnext

theorem Fresh.inv {p : Pager} (h : m.Fresh p) (hp : SetUp s p) : m.Inv := by
  have hnone : ∀ u q, (m.half u).mapped q = none := by
    intro u q
    by_cases hu : u = m.current
    · subst hu
      have htop : p.pml4 0 = none := by
        rw [hp.pml4]
        exact Function.update_self ..
      rw [half_self, half_mapped, Pager.mapped, pager, h.kernel, if_pos (.inl htop)]
    · rw [half_of_ne hu, h.halves u]
      rfl
  obtain ⟨T, hT⟩ := hp.inv
  constructor
  case kernel =>
    rw [h.kernel]
    exact .start hT
  case held =>
    intro u q e he
    cases (hnone u q).symm.trans he
  case sole =>
    intro u w q r e e' he _ _
    cases (hnone u q).symm.trans he

end Machine

end UnnamedOS.Paging
