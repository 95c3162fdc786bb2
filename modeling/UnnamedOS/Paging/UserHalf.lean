import UnnamedOS.Paging.KernelWrites
import UnnamedOS.Lib.Run

/-!
# User mappings stay in the user half

`PAGE_FAULT` and the sbrk of `INT0x80C`. The nested calls of an allocation write to the kernel
half alone, which `KernelSide` says for every end they can come to; what a fault does to the user
half is the entry that `ALSP` itself installs.
-/

namespace UnnamedOS.Paging

open UnnamedOS.Lib

/-- `prog_mem`. -/
structure ProgMem where
  start : UInt64
  end_ : UInt64

/-- `PAGE_FAULT` in a task with the given `brk`. -/
def PAGE_FAULT (brk : Option ProgMem) (virt_ad errc : UInt64) : PageM Unit := do
  if errc &&& 1 ≠ 0 then throw (.error .pageFaultPv errc)
  else
    match brk with
    | none => throw (.error .pageFault errc)
    | some brk =>
      if virt_ad ≥ brk.start ∧ virt_ad ≤ brk.end_ then
        let _ ← UPALLOC 2 (virt_ad &&& ~~~0xFFF) 1
      else throw (.error .pageFault errc)

/-- `INT0x80C` for sbrk: a page for `rsp0`, the new end, and the page back. -/
def INT0x80C_sbrk (brk : Option ProgMem) (rsi : UInt64) : PageM ProgMem := do
  let newrsp0 ← KPALLOC
  match brk with
  | none => throw (.error .binfmtBroken 0)
  | some k =>
    P_FREE newrsp0
    return { k with end_ := k.end_ + rsi }

section Mapped

variable {s s' s'' : Pager} {p q : Page} {i j k : Nat} {e : Entry}

theorem mapped_linkPml4 : (linkPml4 i e s).mapped p = if p.pml4 = i then none else s.mapped p := by
  by_cases hp : p.pml4 = i
  · simp [Pager.mapped, linkPml4, hp]
  · simp [Pager.mapped, linkPml4, hp]

theorem mapped_linkPdpt : (linkPdpt i j e s).mapped p =
    if p.pml4 = i ∧ p.pdpt = j then none else s.mapped p := by
  by_cases hp : p.pml4 = i
  · by_cases hj : p.pdpt = j
    · simp [Pager.mapped, linkPdpt, hp, hj]
    · simp [Pager.mapped, linkPdpt, hp, hj]
  · simp [Pager.mapped, linkPdpt, hp]

theorem mapped_linkPde : (linkPde i j k e s).mapped p =
    if p.pml4 = i ∧ p.pdpt = j ∧ p.pde = k then none else s.mapped p := by
  by_cases hp : p.pml4 = i ∧ p.pdpt = j ∧ p.pde = k
  · simp [Pager.mapped, linkPde, hp]
  · rw [if_neg hp]
    have hpde : (linkPde i j k e s).pde p.pml4 p.pdpt p.pde = s.pde p.pml4 p.pdpt p.pde := by
      by_cases hi : p.pml4 = i
      · by_cases hj : p.pdpt = j
        · have hk : p.pde ≠ k := fun hk => hp ⟨hi, hj, hk⟩
          simp [linkPde, hi, hj, hk]
        · simp [linkPde, hi, hj]
      · simp [linkPde, hi]
    simp only [Pager.mapped, hpde]
    simp [linkPde, hp]

theorem mapped_setPt_of_ne {e : Option Entry} (hp : p ≠ q) : (setPt q e s).mapped p = s.mapped p := by
  simp [Pager.mapped, setPt, hp]

theorem mapped_setPt {e : Option Entry} (h1 : s.pml4 p.pml4 ≠ none)
    (h2 : s.pdpt p.pml4 p.pdpt ≠ none) (h3 : s.pde p.pml4 p.pdpt p.pde ≠ none) :
    (setPt p e s).mapped p = e := by
  simp [Pager.mapped, setPt, h1, h2, h3]

/-- A link to an absent entry does not change what is mapped. -/
theorem mapped_linkPml4_absent (h : s.pml4 i = none) : (linkPml4 i e s).mapped p = s.mapped p := by
  rw [mapped_linkPml4, ite_eq_right_iff]
  intro hp
  simp [Pager.mapped, hp, h]

theorem mapped_linkPdpt_absent (h : s.pdpt i j = none) :
    (linkPdpt i j e s).mapped p = s.mapped p := by
  rw [mapped_linkPdpt, ite_eq_right_iff]
  intro hp
  simp [Pager.mapped, hp, h]

theorem mapped_linkPde_absent (h : s.pde i j k = none) :
    (linkPde i j k e s).mapped p = s.mapped p := by
  rw [mapped_linkPde, ite_eq_right_iff]
  intro hp
  simp [Pager.mapped, hp, h]

/-- The page is mapped as before, or it is a page of the kernel half that no user may touch. -/
def Unmoved (s s' : Pager) (q : Page) : Prop :=
  s'.mapped q = s.mapped q ∨ q.pml4 ≠ 0 ∧ ∀ e, s'.mapped q = some e → e.flags = 1

def Quiet (s s' : Pager) : Prop := ∀ q, Unmoved s s' q

theorem Quiet.of_eq (h : ∀ q, s'.mapped q = s.mapped q) : Quiet s s' := fun q => Or.inl (h q)

theorem Unmoved.trans (h : Unmoved s s' q) (h' : Unmoved s' s'' q) : Unmoved s s'' q := by
  rcases h' with h' | h'
  · unfold Unmoved
    rw [h']
    exact h
  · exact Or.inr h'

theorem Quiet.trans (h : Quiet s s') (h' : Quiet s' s'') : Quiet s s'' :=
  fun q => (h q).trans (h' q)

/-- The tables of the user half are the same, and nothing in the kernel half is a user's. -/
structure KernelSide (s s' : Pager) : Prop where
  pml4 : s'.pml4 0 = s.pml4 0
  pdpt : s'.pdpt 0 = s.pdpt 0
  pde : s'.pde 0 = s.pde 0
  pt : ∀ q, q.pml4 = 0 → s'.pt q = s.pt q
  kernel : ∀ q, q.pml4 ≠ 0 → Unmoved s s' q

theorem KernelSide.quiet (h : KernelSide s s') : Quiet s s' := by
  intro q
  by_cases hq : q.pml4 = 0
  · refine Or.inl ?_
    simp only [Pager.mapped, hq, h.pml4, h.pdpt, h.pde, h.pt q hq]
  · exact h.kernel q hq

theorem KernelSide.of_tables (h1 : s'.pml4 = s.pml4) (h2 : s'.pdpt = s.pdpt) (h3 : s'.pde = s.pde)
    (h4 : s'.pt = s.pt) : KernelSide s s' := by
  refine ⟨by rw [h1], by rw [h2], by rw [h3], fun q _ => by rw [h4], fun q _ => Or.inl ?_⟩
  simp only [Pager.mapped, h1, h2, h3, h4]

/-- What has become of a page below a new table. -/
theorem unmoved_of_unmapped {c : Prop} [Decidable c] (hq : q.pml4 ≠ 0)
    (h : s'.mapped q = if c then none else s.mapped q) : Unmoved s s' q := by
  by_cases hc : c
  · rw [if_pos hc] at h
    refine Or.inr ⟨hq, fun e he => ?_⟩
    rw [h] at he
    cases he
  · rw [if_neg hc] at h
    exact Or.inl h

theorem kernelWrites_kernelSide : KernelWrites KernelSide where
  refl s := .of_tables rfl rfl rfl rfl
  trans s s' s'' h h' := by
    refine ⟨h'.pml4.trans h.pml4, h'.pdpt.trans h.pdpt, h'.pde.trans h.pde, fun q hq => ?_,
      fun q hq => (h.kernel q hq).trans (h'.kernel q hq)⟩
    exact (h'.pt q hq).trans (h.pt q hq)
  chain s c := .of_tables rfl rfl rfl rfl
  pool s q := .of_tables rfl rfl rfl rfl
  calling s b := .of_tables rfl rfl rfl rfl
  linkPml4 s i e hi := by
    have h0 : 0 ≠ i := by omega
    exact ⟨Function.update_of_ne h0 _ _, Function.update_of_ne h0 _ _, rfl, fun _ _ => rfl,
      fun q hq => unmoved_of_unmapped hq mapped_linkPml4⟩
  linkPdpt s i j e hi := by
    have h0 : 0 ≠ i := by omega
    exact ⟨rfl, Function.update_of_ne h0 _ _, Function.update_of_ne h0 _ _, fun _ _ => rfl,
      fun q hq => unmoved_of_unmapped hq mapped_linkPdpt⟩
  linkPde s i j k e hi := by
    have h0 : 0 ≠ i := by omega
    refine ⟨rfl, rfl, Function.update_of_ne h0 _ _, fun q hq => ?_,
      fun q hq => unmoved_of_unmapped hq mapped_linkPde⟩
    exact if_neg fun hc => h0 (hq.symm.trans hc.1)
  setPt s p f hp := by
    refine ⟨rfl, rfl, rfl, fun q hq => ?_, fun q hq => ?_⟩
    · have hne : q ≠ p := fun he => by rw [← he, hq] at hp; omega
      exact Function.update_of_ne hne _ _
    · by_cases hqp : q = p
      · refine Or.inr ⟨hq, fun e he => ?_⟩
        unfold Pager.mapped at he
        split at he
        · cases he
        · rw [show (setPt p (some ⟨f, 0x1⟩) s).pt q = some ⟨f, 0x1⟩ by
            rw [hqp]; exact Function.update_self _ _ _] at he
          rw [← Option.some.inj he]
      · exact Or.inl (mapped_setPt_of_ne hqp)

end Mapped

section Alsp

variable {s : Pager} {kpalloc : PageM UInt64} {flags magic1 magic2 : UInt8} {j k : Nat} {v : UInt64}

theorem ensurePml4_spec (hk : Respects KernelSide kpalloc) (s : Pager) :
    Ends (ensurePml4 kpalloc flags 0) s (fun _ s' => Quiet s s' ∧ s'.pml4 0 ≠ none)
      fun _ s' => Quiet s s' := by
  rw [ensurePml4, ends_bind, ends_get]
  split
  · rename_i hn
    refine Ends.bind ((kernelWrites_kernelSide.newTable hk flags s).mono (fun _ _ h => h)
      fun _ _ h => h.quiet) fun M s₁ h => ?_
    rw [ends_modify]
    refine ⟨h.quiet.trans (.of_eq fun q => mapped_linkPml4_absent (h.pml4.trans hn)), ?_⟩
    simp [linkPml4]
  · rename_i hn
    exact ends_pure.mpr ⟨.of_eq fun _ => rfl, hn⟩

theorem ensurePdpt_spec (hk : Respects KernelSide kpalloc) (h0 : s.pml4 0 ≠ none) :
    Ends (ensurePdpt kpalloc flags 0 j) s
      (fun _ s' => Quiet s s' ∧ s'.pml4 0 ≠ none ∧ s'.pdpt 0 j ≠ none) fun _ s' => Quiet s s' := by
  rw [ensurePdpt, ends_bind, ends_get]
  split
  · rename_i hn
    refine Ends.bind ((kernelWrites_kernelSide.newTable hk flags s).mono (fun _ _ h => h)
      fun _ _ h => h.quiet) fun M s₁ h => ?_
    rw [ends_modify]
    have hn' : s₁.pdpt 0 j = none := by rw [h.pdpt]; exact hn
    refine ⟨h.quiet.trans (.of_eq fun q => mapped_linkPdpt_absent hn'), ?_, ?_⟩
    · rw [show (linkPdpt 0 j M s₁).pml4 0 = s₁.pml4 0 from rfl, h.pml4]
      exact h0
    · simp [linkPdpt]
  · rename_i hn
    exact ends_pure.mpr ⟨.of_eq fun _ => rfl, h0, hn⟩

theorem ensurePde_spec (hk : Respects KernelSide kpalloc) (h0 : s.pml4 0 ≠ none)
    (h1 : s.pdpt 0 j ≠ none) :
    Ends (ensurePde kpalloc flags 0 j k) s
      (fun _ s' => Quiet s s' ∧ s'.pml4 0 ≠ none ∧ s'.pdpt 0 j ≠ none ∧ s'.pde 0 j k ≠ none)
      fun _ s' => Quiet s s' := by
  rw [ensurePde, ends_bind, ends_get]
  split
  · rename_i hn
    refine Ends.bind ((kernelWrites_kernelSide.newTable hk flags s).mono (fun _ _ h => h)
      fun _ _ h => h.quiet) fun M s₁ h => ?_
    rw [ends_modify]
    have hn' : s₁.pde 0 j k = none := by rw [h.pde]; exact hn
    refine ⟨h.quiet.trans (.of_eq fun q => mapped_linkPde_absent hn'), ?_, ?_, ?_⟩
    · rw [show (linkPde 0 j k M s₁).pml4 0 = s₁.pml4 0 from rfl, h.pml4]
      exact h0
    · rw [show (linkPde 0 j k M s₁).pdpt 0 j = s₁.pdpt 0 j from rfl, h.pdpt]
      exact h1
    · simp [linkPde]
  · rename_i hn
    exact ends_pure.mpr ⟨.of_eq fun _ => rfl, h0, h1, hn⟩

theorem respects_KPALLOC : Respects KernelSide KPALLOC := by
  unfold KPALLOC
  exact kernelWrites_kernelSide.kpallocDepth 2

/-- A page of the user half that has been installed. -/
structure Installed (s s' : Pager) (p : Page) (flags : UInt8) : Prop where
  here : ∃ ad, s'.mapped p = some ⟨ad, flags⟩
  elsewhere : ∀ q, q ≠ p → Unmoved s s' q

/-- `ALSP` on a page of the user half installs that page or nothing. -/
theorem ALSP_spec (hv : (pageOf v).pml4 = 0) (s : Pager) :
    Ends (ALSP v flags magic1 magic2) s
      (fun _ s' => Installed s s' (pageOf v) (magic2 ||| flags)) fun _ s' => Quiet s s' := by
  have hside := kernelWrites_kernelSide
  unfold ALSP
  simp only [hv]
  refine ((hside.plFn respects_KPALLOC s).mono (fun _ _ h => h.quiet) fun _ _ h => h.quiet).bind
    fun ad s₁ h₁ => ?_
  refine ((hside.plSv respects_KPALLOC ad true s₁).mono (fun _ _ h => h₁.trans h.quiet)
    fun _ _ h => h₁.trans h.quiet).bind fun _ s₂ h₂ => ?_
  refine ((ensurePml4_spec respects_KPALLOC s₂).mono (fun _ _ h => And.intro (h₂.trans h.1) h.2)
    fun _ _ h => h₂.trans h).bind fun _ s₃ h₃ => ?_
  refine ((ensurePdpt_spec respects_KPALLOC h₃.2).mono
    (fun _ _ h => And.intro (h₃.1.trans h.1) h.2) fun _ _ h => h₃.1.trans h).bind fun _ s₄ h₄ => ?_
  refine ((ensurePde_spec respects_KPALLOC h₄.2.1 h₄.2.2).mono
    (fun _ _ h => And.intro (h₄.1.trans h.1) h.2) fun _ _ h => h₄.1.trans h).bind fun _ s₅ h₅ => ?_
  obtain ⟨hq, hpml4, hpdpt, hpde⟩ := h₅
  rw [ends_bind, ends_get]
  split
  · exact ends_throw.mpr hq
  · refine ends_modify.mpr ⟨⟨ad, ?_⟩, fun q hne => (hq q).trans (Or.inl (mapped_setPt_of_ne hne))⟩
    exact mapped_setPt (by rw [hv]; exact hpml4) (by rw [hv]; exact hpdpt) (by rw [hv]; exact hpde)

end Alsp

/-- The page of `v` lies below `CBASE` and meets the region. -/
def PageInside (brk : ProgMem) (v : UInt64) : Prop :=
  (v &&& ~~~0xFFF).toNat + 0x1000 ≤ CBASE.toNat ∧
    ∃ a : UInt64, a &&& ~~~0xFFF = v &&& ~~~0xFFF ∧ brk.start ≤ a ∧ a ≤ brk.end_

/-- A fault that installs an entry does so for the page of `v`, which lies inside. Any other ends
in an `ERROR`, and where the page does not lie inside nothing at all has changed. -/
def Confined (brk : Option ProgMem) (v errc : UInt64) (s : Pager) : Prop :=
  Ends (PAGE_FAULT brk v errc) s
    (fun _ s' => (∃ b, brk = some b ∧ PageInside b v) ∧ Installed s s' (pageOf v) 0x7)
    fun e s' => (∃ code type, e = .error code type) ∧ Quiet s s' ∧
      ((¬ ∃ b, brk = some b ∧ PageInside b v) → s' = s)

section Fault

variable {brk : Option ProgMem} {b : ProgMem} {v errc rsi : UInt64} {s s' : Pager}

theorem pageOf_base (v : UInt64) : pageOf (v &&& ~~~0xFFF) = pageOf v := by
  have h : ∀ m : UInt64, ~~~0xFFF &&& m = m → v &&& ~~~0xFFF &&& m = v &&& m := by
    intro m hm
    rw [UInt64.and_assoc, hm]
  unfold pageOf
  rw [h _ (by decide), h _ (by decide), h _ (by decide), h _ (by decide)]

/-- An address below `CBASE` belongs to the first entry of the top-level table. -/
theorem pageOf_pml4_eq_zero (h : v.toNat < CBASE.toNat) : (pageOf v).pml4 = 0 := by
  have hlt : v.toNat < 2 ^ 39 := h
  have hand : (v &&& 0xFF8000000000).toNat = 0 := by
    rw [UInt64.toNat_and]
    apply Nat.eq_of_testBit_eq
    intro i
    rw [Nat.testBit_and, Nat.zero_testBit]
    by_cases hi : i < 39
    · have hm : Nat.testBit (0xFF8000000000 : UInt64).toNat i = false := by
        have hshift : (0xFF8000000000 : UInt64).toNat = 511 * 2 ^ 39 := by decide
        rw [hshift, Nat.testBit_mul_two_pow, decide_eq_false (Nat.not_le_of_lt hi), Bool.false_and]
      rw [hm, Bool.and_false]
    · rw [Nat.testBit_lt_two_pow (Nat.lt_of_lt_of_le hlt (Nat.pow_le_pow_right (by decide)
        (Nat.le_of_not_lt hi))), Bool.false_and]
  have hzero : v &&& 0xFF8000000000 = 0 := UInt64.toNat_inj.mp hand
  simp only [pageOf, hzero]
  decide

theorem base_le (v : UInt64) : (v &&& ~~~0xFFF).toNat ≤ v.toNat := by
  rw [UInt64.toNat_and]
  exact Nat.and_le_left

/-- The bound that `UP_ALLOC4` tests, where the sum does not wrap. -/
theorem upaBin_iff (hv : v < 0xFFFFFFFFFFFFF000) :
    (v &&& ~~~0xFFF) + .ofInt (0x1000 * 1) > CBASE ↔
      ¬ (v &&& ~~~0xFFF).toNat + 0x1000 ≤ CBASE.toNat := by
  have hpage : (UInt64.ofInt (0x1000 * 1)).toNat = 0x1000 := by decide
  have hlt : v.toNat < 0xFFFFFFFFFFFFF000 := UInt64.lt_iff_toNat_lt.mp hv
  have hle := base_le v
  rw [gt_iff_lt, UInt64.lt_iff_toNat_lt, UInt64.toNat_add, hpage, Nat.mod_eq_of_lt (by omega)]
  omega

theorem UPALLOC_spec (hv : v < 0xFFFFFFFFFFFFF000) (s : Pager) :
    Ends (UPALLOC 2 (v &&& ~~~0xFFF) 1) s
      (fun _ s' => (v &&& ~~~0xFFF).toNat + 0x1000 ≤ CBASE.toNat ∧
        Installed s s' (pageOf v) 0x7)
      fun _ s' => Quiet s s' ∧ (¬ (v &&& ~~~0xFFF).toNat + 0x1000 ≤ CBASE.toNat → s' = s) := by
  have haligned : ¬ v &&& ~~~0xFFF &&& 0xfff ≠ 0 := by
    rw [UInt64.and_assoc, show ~~~0xFFF &&& 0xfff = (0 : UInt64) by decide, UInt64.and_zero]
    exact fun h => h rfl
  rw [UPALLOC, UP_ALLOC4, if_neg (by decide)]
  by_cases hb : (v &&& ~~~0xFFF).toNat + 0x1000 ≤ CBASE.toNat
  · rw [if_neg (fun h => h.elim (fun h => (upaBin_iff hv).mp h hb) haligned)]
    have hp : (pageOf (v &&& ~~~0xFFF)).pml4 = 0 := pageOf_pml4_eq_zero (by omega)
    have hfrom : alspFrom 2 (v &&& ~~~0xFFF) (Int.toNat 1) 0 = do
        ALSP (v &&& ~~~0xFFF) 2 0x7 0x5
        return := by
      rw [show Int.toNat 1 = 0 + 1 from rfl, alspFrom, alspFrom,
        show UInt64.ofNat (0x1000 * 0) = 0 from rfl, UInt64.add_zero]
    have h := @ALSP_spec 2 0x7 0x5 _ hp s
    rw [pageOf_base] at h
    have hwhole := h.mono (fun _ _ h => h) fun _ s' h =>
      (⟨h, fun hn => absurd hb hn⟩ : Quiet s s' ∧
        (¬ (v &&& ~~~0xFFF).toNat + 0x1000 ≤ CBASE.toNat → s' = s))
    rw [hfrom]
    refine (hwhole.bind (P := fun _ s' => Installed s s' (pageOf v) 0x7)
      fun _ s' h' => ends_pure.mpr h').bind fun _ s' h' => ?_
    exact ends_pure.mpr ⟨hb, h'⟩
  · rw [if_pos (Or.inl ((upaBin_iff hv).mpr hb))]
    exact ends_throw.mpr ⟨.of_eq fun _ => rfl, fun _ => rfl⟩

/-- Whatever end a fault comes to. -/
theorem PAGE_FAULT_spec (he : errc &&& 1 = 0)
    (hv : ∀ b, brk = some b → b.start ≤ v → v ≤ b.end_ → v < 0xFFFFFFFFFFFFF000) (s : Pager) :
    Ends (PAGE_FAULT brk v errc) s
      (fun _ s' => (∃ b, brk = some b ∧ PageInside b v) ∧ Installed s s' (pageOf v) 0x7)
      fun _ s' => Quiet s s' ∧ ((¬ ∃ b, brk = some b ∧ PageInside b v) → s' = s) := by
  have hquiet : Quiet s s := .of_eq fun _ => rfl
  unfold PAGE_FAULT
  rw [if_neg (by simp [he])]
  cases hbrk : brk with
  | none => exact ends_throw.mpr ⟨hquiet, fun _ => rfl⟩
  | some b =>
      dsimp only
      by_cases hin : v ≥ b.start ∧ v ≤ b.end_
      · rw [if_pos hin]
        have hinside : (v &&& ~~~0xFFF).toNat + 0x1000 ≤ CBASE.toNat → PageInside b v :=
          fun h => ⟨h, v, rfl, hin.1, hin.2⟩
        refine ((UPALLOC_spec (hv b hbrk hin.1 hin.2) s).mono (fun _ _ h => h)
          fun _ s' h => ⟨h.1, fun hn => h.2 fun hb => hn ⟨b, rfl, hinside hb⟩⟩).bind
            fun _ s' h => ends_pure.mpr ⟨⟨b, rfl, hinside h.1⟩, h.2⟩
      · rw [if_neg hin]
        exact ends_throw.mpr ⟨hquiet, fun _ => rfl⟩

/-- A fault within the region whose page passes the bound of `UP_ALLOC4` ends as `ALSP` does. -/
theorem PAGE_FAULT_alsp {Q : Pager → Prop} {E : Halt → Pager → Prop} (he : errc &&& 1 = 0)
    (hlo : b.start ≤ v) (hhi : v ≤ b.end_)
    (hbound : ¬ (v &&& ~~~0xFFF) + .ofInt (0x1000 * 1) > CBASE)
    (h : Ends (ALSP (v &&& ~~~0xFFF) 2 0x7 0x5) s (fun _ s' => Q s') E) :
    Ends (PAGE_FAULT (some b) v errc) s (fun _ s' => Q s') E := by
  have haligned : ¬ v &&& ~~~0xFFF &&& 0xfff ≠ 0 := by
    rw [UInt64.and_assoc, show ~~~0xFFF &&& 0xfff = (0 : UInt64) by decide, UInt64.and_zero]
    exact fun h => h rfl
  have hone : Int.toNat 1 = 0 + 1 := rfl
  have hzero : UInt64.ofNat (0x1000 * 0) = 0 := rfl
  unfold PAGE_FAULT
  rw [if_neg (by simp [he])]
  dsimp only
  rw [if_pos ⟨hlo, hhi⟩, UPALLOC, UP_ALLOC4, if_neg (by decide),
    if_neg (fun hbad => hbad.elim hbound haligned), hone, alspFrom, hzero, UInt64.add_zero, alspFrom]
  have hpage := h.bind (f := fun _ => return) (P := fun _ u => Q u) fun _ _ hu => ends_pure.mpr hu
  exact (hpage.bind fun _ _ hu => ends_pure.mpr hu).bind fun _ _ hu => ends_pure.mpr hu

/-- `PAGE_FAULT` ends as `ALSP` does for a page inside the region, and otherwise in an `ERROR`. -/
theorem PAGE_FAULT_via {Q : Pager → Prop} {E : Halt → Pager → Prop} (he : errc &&& 1 = 0)
    (hv : ∀ b, brk = some b → b.start ≤ v → v ≤ b.end_ → v < 0xFFFFFFFFFFFFF000)
    (herror : ∀ code type, E (.error code type) s)
    (h : ∀ b, brk = some b → b.start ≤ v → v ≤ b.end_ → PageInside b v →
      Ends (ALSP (v &&& ~~~0xFFF) 2 0x7 0x5) s (fun _ s' => Q s') E) :
    Ends (PAGE_FAULT brk v errc) s (fun _ s' => Q s') E := by
  cases hbrk : brk with
  | none =>
      unfold PAGE_FAULT
      rw [if_neg (by simp [he])]
      exact ends_throw.mpr (herror _ _)
  | some b =>
      by_cases hin : v ≥ b.start ∧ v ≤ b.end_
      · have hbin := upaBin_iff (hv b hbrk hin.1 hin.2)
        by_cases hbound : (v &&& ~~~0xFFF) + .ofInt (0x1000 * 1) > CBASE
        · unfold PAGE_FAULT
          rw [if_neg (by simp [he])]
          dsimp only
          rw [if_pos hin, UPALLOC, UP_ALLOC4, if_neg (by decide), if_pos (.inl hbound)]
          exact (ends_throw.mpr (herror _ _) : Ends _ s (fun _ s' => Q s') E).bind
            fun _ _ hQ => ends_pure.mpr hQ
        · have hle : (v &&& ~~~0xFFF).toNat + 0x1000 ≤ CBASE.toNat := by
            by_contra hgt
            exact hbound (hbin.mpr hgt)
          exact PAGE_FAULT_alsp he hin.1 hin.2 hbound
            (h b hbrk hin.1 hin.2 ⟨hle, v, rfl, hin.1, hin.2⟩)
      · unfold PAGE_FAULT
        rw [if_neg (by simp [he])]
        dsimp only
        rw [if_neg hin]
        exact ends_throw.mpr (herror _ _)

/-- What holds however a computation ends. -/
theorem ends_any {α : Type} (x : PageM α) (s : Pager) :
    Ends x s (fun a s' => x s = .ok a s') fun _ _ => True := by
  rw [ends_iff]
  exact ⟨fun _ _ h => h, fun _ _ _ => trivial⟩

/-- A page fault that ends well has mapped the page. -/
theorem PAGE_FAULT_ok (he : errc &&& 1 = 0) (hv : v < 0xFFFFFFFFFFFFF000)
    (h : PAGE_FAULT brk v errc s = .ok ⟨⟩ s') :
    (v &&& ~~~0xFFF).toNat + 0x1000 ≤ CBASE.toNat ∧
      ALSP (v &&& ~~~0xFFF) 2 0x7 0x5 s = .ok ⟨⟩ s' := by
  have hspec : Ends (PAGE_FAULT brk v errc) s
      (fun _ s' => (v &&& ~~~0xFFF).toNat + 0x1000 ≤ CBASE.toNat ∧
        ALSP (v &&& ~~~0xFFF) 2 0x7 0x5 s = .ok ⟨⟩ s') fun _ _ => True :=
    PAGE_FAULT_via he (fun _ _ _ _ => hv) (fun _ _ => trivial) fun b _ _ _ hin =>
      (ends_any _ s).mono (fun _ _ h => ⟨hin.1, h⟩) fun _ _ h => h
  exact (ends_iff.mp hspec).1 _ _ h

end Fault

end UnnamedOS.Paging
