import UnnamedOS.Paging.WellFormed

/-!
# Runs of sbrk and page faults

They begin after `P_ALLOC3_SETUP`, and between them the kernel does with pages what it does for
others.
-/

namespace UnnamedOS.Paging

open UnnamedOS.Lib

/-- The allocator and the `brk` of a task. -/
structure UserState where
  kernel : KernelState
  brk : Option ProgMem

namespace UserState

abbrev pager (s : UserState) : Pager := s.kernel.pager

/-- After `P_ALLOC3_SETUP`, with the region that `PF` has set up. -/
def start (p : Pager) (brk : Option ProgMem) : UserState := ⟨KernelState.start p, brk⟩

end UserState

/-- A system call or a fault of the task, or what the kernel does with pages in between. -/
inductive UserOp where
  | sbrk (rsi : UInt64)
  | fault (virt_ad errc : UInt64)
  | kernel (op : KernelOp)

namespace UserOp

/-- The steps that end without an `ERROR`. The faults are those on absent pages. -/
def step (s : UserState) (op : UserOp) (s' : UserState) : Prop :=
  match op with
  | sbrk rsi => ∃ b, INT0x80C_sbrk s.brk rsi s.pager = .ok b s'.pager ∧
      s'.kernel.out = s.kernel.out ∧ s'.brk = some b
  | fault virt_ad errc => errc &&& 1 = 0 ∧
      PAGE_FAULT s.brk virt_ad errc s.pager = .ok () s'.pager ∧
      s'.kernel.out = s.kernel.out ∧ s'.brk = s.brk
  | kernel op => op.step s.kernel s'.kernel ∧ s'.brk = s.brk

/-- The condition on a step: a fault within the region is not in the last page of the address space,
and the pages of the kernel that are taken come from the first GiB, without a refill while the bitmap is
extended. -/
def Meets (s : UserState) : UserOp → Prop
  | sbrk _ => Prepared s.pager 1
  | fault virt_ad _ => ∀ b, s.brk = some b → b.start ≤ virt_ad → virt_ad ≤ b.end_ →
      virt_ad < 0xFFFFFFFFFFFFF000 ∧ (PageInside b virt_ad → Granted s.pager (pageOf virt_ad))
  | kernel op => op.Meets s.kernel

end UserOp

variable {s s' t : Pager} {T out : Nat → Prop} {n : Nat} {brk : Option ProgMem} {v errc rsi : UInt64}

theorem PageInside.pml4 {b : ProgMem} (h : PageInside b v) : (pageOf v).pml4 = 0 := by
  obtain ⟨hle, -⟩ := h
  rw [← pageOf_base]
  exact pageOf_pml4_eq_zero (by omega)

/-! ## sbrk -/

/-- The page is taken and given back. -/
theorem PoolInv.sbrk (h : PoolInv s T out) (hp : Prepared s 1) :
    Ends (INT0x80C_sbrk brk rsi) s
      (fun _ s' => ∃ T' out', (∀ n, out n → out' n) ∧ PoolInv s' T' out')
      fun e _ => e = .error .binfmtBroken 0 := by
  rw [INT0x80C_sbrk]
  refine ((h.kpalloc_prepared hp (by decide)).mono (fun _ _ h => h) fun _ _ hf => hf.elim).bind ?_
  rintro _ t ⟨n, rfl, hn, -⟩
  obtain ⟨T', hT'⟩ := hn.inv
  split
  · exact ends_throw.mpr rfl
  · refine ((hT'.p_free (.inl rfl)).mono (fun _ _ h => h) fun _ _ hf => hf.elim).bind ?_
    rintro _ u ⟨⟨T'', hT''⟩, -, -⟩
    refine ends_pure.mpr ⟨T'', _, fun m hm => ⟨.inr hm, ?_⟩, hT''⟩
    obtain ⟨a, ha, -, hslot⟩ := hn.slot
    rintro rfl
    exact (h.core.handed m hm).2.2 a ha hslot

theorem P_FREE_unmoved (v : UInt64) (s : Pager) :
    Ends (P_FREE v) s (fun _ s' => ∀ q, q.pml4 ≠ 0 → Unmoved s s' q) fun _ _ => True := by
  have hside := kernelWrites_kernelSide
  refine Ends.bind (ends_get.mpr rfl : Ends _ s (fun a s' => s' = s) _) fun s₁ s₂ hs => ?_
  subst hs
  refine ((hside.plSv respects_KPALLOC _ _ _).mono (fun _ _ h => h) fun _ _ _ => trivial).bind
    fun _ s₃ h => ends_modify.mpr fun q hq => (h.quiet q).trans ?_
  by_cases hp : q = pageOf v
  · refine Or.inr ⟨hq, fun e he => ?_⟩
    have hnone : (setPt (pageOf v) none s₃).pt q = none := by
      rw [hp]
      exact Function.update_self _ _ _
    simp [Pager.mapped, hnone] at he
  · exact Or.inl (mapped_setPt_of_ne hp)

theorem sbrk_unmoved (brk : Option ProgMem) (rsi : UInt64) (s : Pager) :
    Ends (INT0x80C_sbrk brk rsi) s (fun _ s' => ∀ q, q.pml4 ≠ 0 → Unmoved s s' q)
      fun _ _ => True := by
  refine ((respects_KPALLOC s).mono (fun _ _ h => h.quiet) fun _ _ _ => trivial).bind
    fun M s₁ h₁ => ?_
  split
  · exact ends_throw.mpr trivial
  · refine (P_FREE_unmoved M s₁).bind fun _ s₂ h₂ => ends_pure.mpr fun q hq => ?_
    exact (h₁ q).trans (h₂ q hq)

/-! ## Faults -/

/-- A fault is answered, or ends in an `ERROR`. -/
theorem PoolInv.page_fault (h : PoolInv s T out) (he : errc &&& 1 = 0)
    (hm : ∀ b, brk = some b → b.start ≤ v → v ≤ b.end_ →
      v < 0xFFFFFFFFFFFFF000 ∧ (PageInside b v → Granted s (pageOf v))) :
    Ends (PAGE_FAULT brk v errc) s (fun _ s' => Ready s' out 0)
      fun e _ => ∃ code type, e = .error code type := by
  refine PAGE_FAULT_via he (fun b hb hlo hhi => (hm b hb hlo hhi).1)
    (fun code type => ⟨code, type, rfl⟩)
    fun b hb hlo hhi hin => ?_
  have hpage := pageOf_base v
  have hgranted := (hm b hb hlo hhi).2 hin
  have hzero : (pageOf (v &&& ~~~0xFFF)).pml4 = 0 := by
    rw [hpage]
    exact hin.pml4
  rw [← hpage] at hgranted
  exact (h.user_alsp 2 hzero hgranted).mono (fun _ _ h => h) fun _ _ he => ⟨_, _, he⟩

theorem PoolInv.confined (h : PoolInv s T out) (he : errc &&& 1 = 0)
    (hm : ∀ b, brk = some b → b.start ≤ v → v ≤ b.end_ →
      v < 0xFFFFFFFFFFFFF000 ∧ (PageInside b v → Granted s (pageOf v))) :
    Confined brk v errc s :=
  ((h.page_fault he hm).and (PAGE_FAULT_spec he (fun b hb hlo hhi => (hm b hb hlo hhi).1) s)).mono
    (fun _ _ h => h.2) fun _ _ h => h

/-! ## Runs -/

/-- The entries of the kernel half are as before, or no user may go through them. -/
def Apart (s s' : Pager) : Prop := ∀ q, q.pml4 ≠ 0 → Unmoved s s' q

theorem Apart.trans (h : Apart s t) (h' : Apart t s') : Apart s s' :=
  fun q hq => (h q hq).trans (h' q hq)

/-- In a run from the state `p` of the allocator. -/
structure UserState.Inv (p : Pager) (u : UserState) : Prop where
  kernel : u.kernel.Inv
  apart : Apart p u.pager

theorem UserSide.apart (h : UserSide s s') : Apart s s' := fun _ hq => .inl (h.mapped hq)

theorem KernelOp.step_apart {k k' : KernelState} {op : KernelOp} (h : k.Inv) (hm : op.Meets k)
    (hs : op.step k k') : Apart k.pager k'.pager := by
  obtain ⟨T, out, hinv, -⟩ := h.pager
  cases op with
  | allocs size =>
      obtain ⟨rounds, v, hex, -⟩ := hs
      obtain ⟨hn, hstocked, hrun⟩ := hm
      have hside := hinv.kpallocs_rel kernelWrites_kernelSide.refl kernelWrites_kernelSide.trans
        (fun _ _ _ ht => ht.kernelSide)
        (fun _ => (respects_KPALLOC k.pager).mono (fun _ _ h => h) fun _ _ _ => trivial)
        hn hstocked hrun rounds
      exact fun q _ => ((ends_iff.mp hside).1 _ _ hex).quiet q
  | free v =>
      obtain ⟨-, hfree, -⟩ := hs
      exact (ends_iff.mp (P_FREE_unmoved v k.pager)).1 _ _ hfree
  | user v flags =>
      obtain ⟨hv, halsp, -⟩ := hs
      intro q hq
      refine ((ends_iff.mp (ALSP_spec hv k.pager)).1 _ _ halsp).elsewhere q ?_
      rintro rfl
      exact hq hv
  | userFree v =>
      obtain ⟨-, hfree, -⟩ := hs
      exact (ends_iff.mp (P_FREE_unmoved v k.pager)).1 _ _ hfree
  | switch => exact hs.1.apart

namespace UserOp

variable {u u' : UserState} {op : UserOp} {ops : List UserOp}

theorem step_inv (h : u.kernel.Inv) (hm : op.Meets u) (hs : op.step u u') : u'.kernel.Inv := by
  obtain ⟨T, out, hinv, hout⟩ := h.pager
  have hkept : ∀ out' : Nat → Prop, (∀ n, out n → out' n) → u'.kernel.out = u.kernel.out →
      ∀ v ∈ u'.kernel.out, ∃ n, v = kernelAddress n ∧ out' n := by
    intro out' hsub heq v hv
    rw [heq] at hv
    obtain ⟨n, hn, ho⟩ := hout v hv
    exact ⟨n, hn, hsub n ho⟩
  cases op with
  | sbrk rsi =>
      obtain ⟨b, hb, hsame, -⟩ := hs
      obtain ⟨T', out', hsub, hinv'⟩ := (ends_iff.mp (hinv.sbrk hm)).1 _ _ hb
      exact ⟨T', out', hinv', hkept out' hsub hsame⟩
  | fault v errc =>
      obtain ⟨he, hf, hsame, -⟩ := hs
      obtain ⟨T', out', hsub, hinv'⟩ := ((ends_iff.mp (hinv.page_fault he hm)).1 _ _ hf).inv
      exact ⟨T', out', hinv', hkept out' hsub hsame⟩
  | kernel op => exact KernelState.Inv.step h hm hs.1

theorem step_apart (h : u.kernel.Inv) (hm : op.Meets u) (hs : op.step u u') :
    Apart u.pager u'.pager := by
  cases op with
  | sbrk rsi =>
      obtain ⟨b, hb, -⟩ := hs
      exact (ends_iff.mp (sbrk_unmoved u.brk rsi u.pager)).1 _ _ hb
  | fault v errc =>
      obtain ⟨he, hf, -⟩ := hs
      have hspec := PAGE_FAULT_spec he (fun b hb hlo hhi => (hm b hb hlo hhi).1) u.pager
      obtain ⟨⟨b, -, hin⟩, hi⟩ := (ends_iff.mp hspec).1 _ _ hf
      refine fun q hq => hi.elsewhere q ?_
      rintro rfl
      exact hq hin.pml4
  | kernel op => exact KernelOp.step_apart h hm hs.1

end UserOp

/-- In every run whose steps meet the condition, a fault that installs an entry does so for a page of
the region below `CBASE`, any other ends in an `ERROR` and changes nothing, and no entry of the kernel
half is one that users may go through unless it was from the start. -/
theorem user_mappings_below_CBASE {s₀ : Pager} (h : Booted s₀) :
    Ends P_ALLOC3_SETUP s₀
      (fun _ p => ∀ brk ops u,
        Run (Guarded UserOp.Meets UserOp.step) (UserState.start p brk) ops u →
          (∀ q, q.pml4 ≠ 0 → Unmoved p u.pager q) ∧
            ∀ v errc, errc &&& 1 = 0 → (UserOp.fault v errc).Meets u →
              Confined u.brk v errc u.pager)
      fun _ _ => False := by
  refine (setup_inv h).mono ?_ fun _ _ hf => hf
  rintro _ p ⟨T₀, hstart⟩ brk ops u hrun
  have hstep : ∀ (u : UserState) (op : UserOp) (u' : UserState), UserState.Inv p u → op.Meets u →
      op.step u u' → UserState.Inv p u' := fun u op u' hi hm hs =>
    ⟨UserOp.step_inv hi.kernel hm hs, hi.apart.trans (UserOp.step_apart hi.kernel hm hs)⟩
  have hinv : UserState.Inv p u :=
    run_invariant hstep hrun ⟨KernelState.Inv.start hstart, fun q _ => .inl rfl⟩
  obtain ⟨T, out, hpool, -⟩ := hinv.kernel.pager
  exact ⟨hinv.apart, fun v errc he hm => hpool.confined he hm⟩

/-! ## Two runs of one step -/

/-- The lower slots are full, so that sbrk takes its page out of one of them. -/
theorem SetUp.sbrk {s₀ p : Pager} (h : SetUp s₀ p) (b : ProgMem) (rsi : UInt64) :
    Ends (INT0x80C_sbrk (some b) rsi) p
      (fun b' s => b' = { b with end_ := b.end_ + rsi } ∧ (∃ T, PoolInv s T fun _ => False) ∧
        28 ≤ lowSlots s.pool ∧ s.pml4 = p.pml4) fun _ _ => False := by
  obtain ⟨T, hinv⟩ := h.inv
  have hslots := lowSlots_of_filled h.filled
  obtain ⟨a, ha, hfind⟩ := exists_slot (k := 32) (by decide) (show 0 < lowSlots p.pool by omega)
  have hmore := lowSlots_update p.pool a
  obtain ⟨n, hn, hpool, -⟩ := hinv.core.stock a (by omega) (pop_bound hfind).2.1
  have hpop := hinv.pop ha hn hpool
  rw [INT0x80C_sbrk]
  unfold KPALLOC kpallocDepth
  refine (kpalloc_pop (.inl ha) hinv.core.stock hfind).bind ?_
  rintro _ _ ⟨rfl, rfl⟩
  rw [hpool]
  refine ((hpop.p_free (.inl rfl)).and (hpop.p_free_eq (.inl rfl))).mono (fun _ _ h => h)
    (fun _ _ hf => hf.1) |>.bind ?_
  rintro _ s ⟨⟨⟨T', hT'⟩, hsame, -⟩, e, -, -, -, rfl⟩
  refine ends_pure.mpr ⟨rfl, ⟨T', ?_⟩, ?_, rfl⟩
  · have hout : (fun m => (m = n ∨ False) ∧ m ≠ n) = fun _ => False := by
      funext m
      simp
    rwa [hout] at hT'
  · rw [hsame]
    change 28 ≤ lowSlots (Function.update p.pool a 0)
    omega

/-- A page without tables is mapped with the pages of the lower slots. -/
theorem PoolInv.alsp_mapped (h : PoolInv s T out) (hslots : 28 ≤ lowSlots s.pool)
    (hnone : s.mapped (pageOf v) = none) :
    Ends (ALSP v 2 0x7 0x5) s (fun _ s' => ∃ ad, s'.mapped (pageOf v) = some ⟨ad, 0x7⟩)
      fun _ _ => False := by
  have hmissing := missingTables_le s (pageOf v)
  have hquiet : ∀ k ≤ 4, QuietFor s k := fun k hk => .inl (by omega)
  exact (h.sound.alsp 2 0x7 0x5 hnone
    ⟨1, .inr ⟨rfl, hquiet 1 (by decide)⟩, .inl (hquiet _ (by omega))⟩).mono (fun _ _ h => h.2.2)
      fun _ _ hf => hf

/-- A flat binary of two pages. -/
def flatBinary : Option ProgMem := some ⟨0x1000, 0x3000⟩

/-- The region grows by a page, and the first touch of the new page maps it. -/
theorem grown_page_mapped :
    Ends P_ALLOC3_SETUP bootTables
      (fun _ p => ∃ u, Run (Guarded UserOp.Meets UserOp.step) (UserState.start p flatBinary)
          [.sbrk 0x1000] u ∧
        Confined u.brk 0x3800 0x6 u.pager ∧
        Ends (PAGE_FAULT u.brk 0x3800 0x6) u.pager
          (fun _ s' => ∃ ad, s'.mapped (pageOf 0x3800) = some ⟨ad, 0x7⟩) fun _ _ => False)
      fun _ _ => False := by
  refine ((user_mappings_below_CBASE booted_bootTables).and (setup_spec booted_bootTables)).mono ?_
    fun _ _ hf => hf.1
  rintro _ p ⟨hconfined, hset⟩
  obtain ⟨b, s, hex, rfl, ⟨T, hinv⟩, hslots, hpml4⟩ := (hset.sbrk ⟨0x1000, 0x3000⟩ 0x1000).exists_ok
  have hprepared : Prepared p 1 := .inr (.inr (by
    have hlow := lowSlots_of_filled hset.filled
    omega))
  have hstep : (UserOp.sbrk 0x1000).step (UserState.start p flatBinary)
      ⟨⟨s, ∅⟩, some ⟨0x1000, 0x3000 + 0x1000⟩⟩ := ⟨_, hex, rfl, rfl⟩
  have hrun : Run (Guarded UserOp.Meets UserOp.step) (UserState.start p flatBinary) [.sbrk 0x1000]
      ⟨⟨s, ∅⟩, some ⟨0x1000, 0x3000 + 0x1000⟩⟩ := .cons ⟨hprepared, hstep⟩ (.nil _)
  have hmissing := missingTables_le s (pageOf 0x3800)
  have hgranted : Granted s (pageOf 0x3800) :=
    ⟨1, .inr ⟨rfl, by omega⟩, .inr (.inr (by omega))⟩
  have hnone : s.mapped (pageOf (0x3800 &&& ~~~0xFFF)) = none := by
    have hzero : s.pml4 0 = none := by
      rw [hpml4, hset.pml4, Function.update_self]
    exact if_pos (.inl hzero)
  refine ⟨_, hrun, (hconfined _ _ _ hrun).2 0x3800 0x6 (by decide)
    (fun _ _ _ _ => ⟨by decide, fun _ => hgranted⟩), ?_⟩
  have halsp := hinv.alsp_mapped hslots hnone
  rw [pageOf_base] at halsp
  exact PAGE_FAULT_alsp (by decide) (by decide) (by decide) (by decide) halsp

/-- The region reaches the last byte of the address space, and a fault there passes the bound of
`UP_ALLOC4`, whose sum is zero. -/
theorem last_page_mapped :
    Ends P_ALLOC3_SETUP bootTables
      (fun _ p => ∃ u, Run UserOp.step (UserState.start p flatBinary) [.sbrk (0 - 0x3001)] u ∧
        Ends (PAGE_FAULT u.brk 0xFFFFFFFFFFFFFFFF 0x6) u.pager
          (fun _ s' => ∃ ad, s'.mapped ⟨511, 511, 511, 511⟩ = some ⟨ad, 0x7⟩) (fun _ _ => False) ∧
        ¬ Confined u.brk 0xFFFFFFFFFFFFFFFF 0x6 u.pager)
      fun _ _ => False := by
  refine (setup_spec booted_bootTables).mono (fun _ p hset => ?_) fun _ _ hf => hf
  obtain ⟨b, s, hex, rfl, ⟨T, hinv⟩, hslots, hpml4⟩ :=
    (hset.sbrk ⟨0x1000, 0x3000⟩ (0 - 0x3001)).exists_ok
  have hnone : s.mapped (pageOf (0xFFFFFFFFFFFFFFFF &&& ~~~0xFFF)) = none := by
    have hlast : s.pml4 511 = none := by
      rw [hpml4, hset.pml4, Function.update_of_ne (by decide)]
      rfl
    exact if_pos (.inl hlast)
  have hfault : Ends (PAGE_FAULT (some ⟨0x1000, 0x3000 + (0 - 0x3001)⟩) 0xFFFFFFFFFFFFFFFF 0x6) s
      (fun _ s' => ∃ ad, s'.mapped ⟨511, 511, 511, 511⟩ = some ⟨ad, 0x7⟩) fun _ _ => False :=
    PAGE_FAULT_alsp (by decide) (by decide) (by decide) (by decide) (hinv.alsp_mapped hslots hnone)
  have hstep : (UserOp.sbrk (0 - 0x3001)).step (UserState.start p flatBinary)
      ⟨⟨s, ∅⟩, some ⟨0x1000, 0x3000 + (0 - 0x3001)⟩⟩ := ⟨_, hex, rfl, rfl⟩
  refine ⟨_, .cons hstep (.nil _), hfault, fun hc => ?_⟩
  obtain ⟨_, s', hs', -⟩ := hfault.exists_ok
  obtain ⟨⟨b, hb, hbelow, -⟩, -⟩ := (ends_iff.mp hc).1 _ _ hs'
  revert hbelow
  decide

end UnnamedOS.Paging
