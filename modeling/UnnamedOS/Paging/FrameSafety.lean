import UnnamedOS.Lib.Run
import UnnamedOS.Paging.FrameMap

/-!
# Frames in use

Takes and releases of frames, from the bitmap that `P_ALLOC3_SETUP` makes. Bits 31 to 63 of a word
are set and cleared together, so that only 32 frames of every 64 are ever handed out.
-/

namespace UnnamedOS.Paging

open UnnamedOS.Lib

variable (kpalloc : PageM UInt64)

/-- `for(int i = 0; i<512; i++) PL_SV(i, 1);` from `i` on. -/
def markFrames : Nat → Nat → PageM Unit
  | 0, _ => return
  | todo + 1, i => do
    plSv kpalloc i true
    markFrames todo (i + 1)

/-- What `P_ALLOC3_SETUP` does to the bitmap. -/
def frameSetup : PageM Unit := do
  modify fun s => { s with paCalling := false, pool := fun _ => 0, chain := [fun _ => 0] }
  markFrames kpalloc 512 0

/-- `f := PL_FN(); PL_SV(f, 1)`, as `ALSP` and `KP_ALLOC3` begin. -/
def takeFrame : PageM Nat := do
  let ad ← plFn kpalloc
  plSv kpalloc ad true
  return ad

structure FrameState where
  pager : Pager
  /-- The frames taken and not released. -/
  taken : List Nat

inductive FrameOp where
  | take
  | release (f : Nat)

def FrameOp.step (s : FrameState) (op : FrameOp) (s' : FrameState) : Prop :=
  match op with
  | .take => ∃ f, takeFrame kpalloc s.pager = .ok f s'.pager ∧ s'.taken = f :: s.taken
  | .release f => f ∈ s.taken ∧ plSv kpalloc f false s.pager = .ok ⟨⟩ s'.pager ∧
      s'.taken = s.taken.filter (· ≠ f)

/-! ## Words that stay sound -/

variable {kpalloc} {s s' : Pager} {n : Nat} {v : Bool} {T : Nat → Prop}

/-- The frames up to bit 31 of a word are marked as `T` says, and the others as bit 31. -/
structure FrameInv (s : Pager) (T : Nat → Prop) : Prop where
  nonempty : s.chain ≠ []
  low : ∀ m, m % 64 ≤ 31 → (s.marked m = true ↔ T m)
  high : ∀ m, 31 ≤ m % 64 → s.marked m = s.marked (64 * (m / 64) + 31)

theorem FrameInv.of_marked (h : FrameInv s T) (hne : s'.chain ≠ [])
    (hm : ∀ m, s'.marked m = s.marked m) : FrameInv s' T where
  nonempty := hne
  low := fun m hlow => by
    rw [hm]
    exact h.low m hlow
  high := fun m hhigh => by
    rw [hm, hm]
    exact h.high m hhigh

theorem covers_nonempty (h : s.Covers n) : s.chain ≠ [] := by
  rintro hnil
  rw [Pager.Covers, hnil] at h
  exact absurd h (Nat.not_lt_zero _)

/-- A store to one of the lower 32 frames of a word. -/
theorem FrameInv.store (h : FrameInv s T) (hin : s.Covers n) (hlow : n % 64 ≤ 31) :
    FrameInv (s.withFrame n v) fun m => if m = n then v = true else T m := by
  have hmarked := marked_withFrame (v := v) hin
  have hmod : n % 32 = n % 64 := by omega
  refine ⟨covers_nonempty (n := n) (by rw [Pager.Covers, length_withFrame]; exact hin),
    fun m hm => ?_, fun m hm => ?_⟩
  · have hself : m / 64 = n / 64 ∧ Reaches n (m % 64) ↔ m = n := by
      unfold Reaches
      rw [hmod]
      constructor
      · rintro ⟨hq, hr⟩
        split at hr <;> omega
      · rintro rfl
        refine ⟨rfl, ?_⟩
        split <;> omega
    rw [hmarked]
    by_cases hmn : m = n
    · rw [if_pos (hself.mpr hmn), if_pos hmn]
    · rw [if_neg (fun hr => hmn (hself.mp hr)), if_neg hmn]
      exact h.low m hm
  · have hq : (64 * (m / 64) + 31) / 64 = m / 64 := by omega
    have hr : (64 * (m / 64) + 31) % 64 = 31 := by omega
    have hboth : Reaches n (m % 64) ↔ Reaches n 31 := by
      unfold Reaches
      rw [hmod]
      split <;> omega
    rw [hmarked, hmarked, hq, hr, h.high m hm]
    by_cases hreach : m / 64 = n / 64 ∧ Reaches n 31
    · rw [if_pos hreach, if_pos ⟨hreach.1, hboth.mpr hreach.2⟩]
    · rw [if_neg hreach, if_neg (fun hr => hreach ⟨hr.1, hboth.mp hr.2⟩)]

/-- Marking a frame changes nothing in a word whose lower frames are all marked. -/
theorem FrameInv.mark_again (h : FrameInv s T) (hin : s.Covers n)
    (hT : ∀ m, m / 64 = n / 64 → m % 64 ≤ 31 → T m) : FrameInv (s.withFrame n true) T := by
  refine h.of_marked (covers_nonempty (n := n)
    (by rw [Pager.Covers, length_withFrame]; exact hin)) fun m => ?_
  rw [marked_withFrame hin]
  by_cases hreach : m / 64 = n / 64 ∧ Reaches n (m % 64)
  · rw [if_pos hreach]
    by_cases hm : m % 64 ≤ 31
    · exact ((h.low m hm).mpr (hT m hreach.1 hm)).symm
    · rw [h.high m (by omega)]
      exact ((h.low _ (by omega)).mpr (hT _ (by omega) (by omega))).symm
  · rw [if_neg hreach]

/-! ## Taking a frame -/

/-- The lowest frame that is free is one of the lower ones of its word. -/
theorem FrameInv.visible (h : FrameInv s T) (hfirst : s.FirstFree n) : s.Visible n := by
  have hlow : n % 64 ≤ 31 := by
    by_contra hhigh
    have h31 := hfirst.below (64 * (n / 64) + 31) (by omega)
    rw [← h.high n (by omega), hfirst.free] at h31
    cases h31
  refine ⟨hlow, fun h31 b hb hb64 => ?_⟩
  have hn : 64 * (n / 64) + 31 = n := by omega
  have hb' := h.high (64 * (n / 64) + b) (by omega)
  rw [hb', show (64 * (n / 64) + b) / 64 = n / 64 by omega, hn]
  exact hfirst.free

/-- There is a frame that is not marked. -/
theorem exists_firstFree (s : Pager) : ∃ n, s.FirstFree n := by
  have hexists : ∃ n, s.marked n = false := by
    refine ⟨64 * (511 * s.chain.length), marked_of_not_covers ?_⟩
    unfold Pager.Covers
    omega
  obtain ⟨n, hn⟩ := hexists
  induction n using Nat.strong_induction_on with
  | _ n ih =>
      by_cases hbelow : ∀ m < n, s.marked m = true
      · exact ⟨n, hbelow, hn⟩
      · obtain ⟨m, hm⟩ := not_forall.mp hbelow
        obtain ⟨hlt, hfree⟩ := Classical.not_imp.mp hm
        exact ih m hlt (Bool.eq_false_of_not_eq_true hfree)

/-- `PL_FN` ends with the lowest frame that is not in `T`, and has added a page if no frame of the
list was free. -/
theorem FrameInv.plFn_ends {Q : Pager → Prop} (h : FrameInv s T)
    (hk : ∀ n, s.FirstFree n → ¬ s.Covers n →
      Ends kpalloc s (fun _ s' => s'.chain = s.chain ∧ Q s') fun _ _ => False)
    (hQ : ∀ t, Q t → ∀ chain, Q { t with chain := chain }) :
    Ends (Paging.plFn kpalloc) s
      (fun f s' => s.FirstFree f ∧ (¬ T f ∧ f % 64 ≤ 31 ∧ s'.Covers f ∧ FrameInv s' T) ∧
        (s' = s ∨ ¬ s.Covers f ∧ s'.chain = s.chain ++ [fun _ => 0] ∧ Q s'))
      fun _ _ => False := by
  obtain ⟨n, hfirst⟩ := exists_firstFree s
  have hv := h.visible hfirst
  refine (plFn_firstFree h.nonempty hfirst hv (hk n hfirst) hQ).mono ?_ fun _ _ hf => hf
  rintro f t ⟨rfl, hin, hmarked, hpage⟩
  refine ⟨hfirst, ⟨fun hT => ?_, hv.low, hin, h.of_marked (covers_nonempty hin) hmarked⟩, hpage⟩
  have hset := (h.low f hv.low).mpr hT
  rw [hfirst.free] at hset
  cases hset

theorem FrameInv.plFn (h : FrameInv s T)
    (hk : Ends kpalloc s (fun _ s' => s'.chain = s.chain) fun _ _ => False) :
    Ends (plFn kpalloc) s (fun f s' => ¬ T f ∧ f % 64 ≤ 31 ∧ s'.Covers f ∧ FrameInv s' T)
      fun _ _ => False := by
  have hk' : Ends kpalloc s (fun _ s' => s'.chain = s.chain ∧ True) fun _ _ => False :=
    hk.mono (fun _ _ h => ⟨h, trivial⟩) fun _ _ h => h
  exact (h.plFn_ends (fun _ _ _ => hk') fun _ _ _ => trivial).mono (fun _ _ h => h.2.1) fun _ _ h => h

/-! ## The setup -/

/-- The loop of `P_ALLOC3_SETUP` has marked the frames below `i`. -/
theorem markFrames_spec (todo i : Nat) (hi : i + todo ≤ 512) (h : FrameInv s (· < i)) :
    Ends (markFrames kpalloc todo i) s
      (fun _ s' => FrameInv s' (· < i + todo) ∧ ∃ chain, s' = { s with chain := chain })
      fun _ _ => False := by
  induction todo generalizing i s with
  | zero =>
      rw [markFrames, ends_pure]
      exact ⟨h, s.chain, rfl⟩
  | succ todo ih =>
      have hin : s.Covers i := by
        have hpos : 0 < s.chain.length := List.length_pos_iff.mpr h.nonempty
        unfold Pager.Covers
        omega
      rw [markFrames]
      refine (plSv_spec hin).bind ?_
      rintro _ t rfl
      rw [show i + (todo + 1) = i + 1 + todo by omega]
      suffices hnext : FrameInv (s.withFrame i true) (· < i + 1) by
        refine (ih (i + 1) (by omega) hnext).mono ?_ fun _ _ hf => hf
        rintro _ t ⟨ht, chain, rfl⟩
        exact ⟨ht, chain, rfl⟩
      by_cases hlow : i % 64 ≤ 31
      · have hstored := h.store (v := true) hin hlow
        have hT : (fun m => if m = i then true = true else m < i) = (· < i + 1) := by
          funext m
          rw [eq_iff_iff]
          by_cases hm : m = i
          · simp [hm]
          · rw [if_neg hm]
            omega
        rwa [hT] at hstored
      · have hmarked := h.mark_again hin fun m hq hm => by omega
        refine ⟨hmarked.nonempty, fun m hm => ?_, hmarked.high⟩
        rw [hmarked.low m hm]
        omega

theorem frameSetup_spec (s : Pager) :
    Ends (frameSetup kpalloc) s
      (fun _ s' => FrameInv s' (· < 512) ∧
        ∃ chain, s' = { s with paCalling := false, pool := fun _ => 0, chain := chain })
      fun _ _ => False := by
  have hclear : FrameInv { s with paCalling := false, pool := fun _ => 0, chain := [fun _ => 0] }
      (· < 0) := by
    have hzero : ∀ m, ({ s with
        paCalling := false, pool := fun _ => 0, chain := [fun _ => 0] } : Pager).marked m = false := by
      intro m
      unfold Pager.marked
      cases hq : m / 64 / 511 with
      | zero => simp
      | succ q => simp
    refine ⟨List.cons_ne_nil _ _, fun m _ => ?_, fun m _ => ?_⟩
    · rw [hzero]
      simp
    · rw [hzero, hzero]
  rw [frameSetup, ends_bind, ends_modify]
  refine (markFrames_spec 512 0 (by omega) hclear).mono ?_ fun _ _ hf => hf
  rintro _ t ⟨ht, chain, rfl⟩
  exact ⟨ht, chain, rfl⟩

/-! ## Runs -/

/-- The frames of the setup and those taken are in use. -/
def FrameState.InUse (s : FrameState) (f : Nat) : Prop := f < 512 ∨ f ∈ s.taken

structure FrameState.Inv (s : FrameState) : Prop where
  map : FrameInv s.pager s.InUse
  taken : ∀ f ∈ s.taken, 512 ≤ f ∧ f % 64 ≤ 31

/-- The `KPALLOC` of these runs leaves the bitmap alone. -/
def KeepsBitmap (kpalloc : PageM UInt64) : Prop :=
  ∀ s, Ends kpalloc s (fun _ s' => s'.chain = s.chain) fun _ _ => False

theorem takeFrame_spec (hk : KeepsBitmap kpalloc) (h : FrameInv s T) :
    Ends (takeFrame kpalloc) s
      (fun f s' => ¬ T f ∧ f % 64 ≤ 31 ∧ FrameInv s' fun m => if m = f then true = true else T m)
      fun _ _ => False := by
  refine (h.plFn (hk s)).bind ?_
  rintro f t ⟨hf, hlow, hin, ht⟩
  refine (plSv_spec hin).bind ?_
  rintro _ u rfl
  rw [ends_pure]
  exact ⟨hf, hlow, ht.store hin hlow⟩

theorem FrameInv.congr {T' : Nat → Prop} (h : FrameInv s T) (hT : ∀ m, T m ↔ T' m) :
    FrameInv s T' where
  nonempty := h.nonempty
  low := fun m hm => (h.low m hm).trans (hT m)
  high := h.high

theorem FrameOp.step_inv {s s' : FrameState} {op : FrameOp} (hk : KeepsBitmap kpalloc)
    (hi : s.Inv) (hs : op.step kpalloc s s') : s'.Inv := by
  cases op with
  | take =>
      obtain ⟨f, hrun, htaken⟩ := hs
      obtain ⟨hfree, hlow, hmap⟩ := (ends_iff.mp (takeFrame_spec hk hi.map)).1 _ _ hrun
      refine ⟨hmap.congr fun m => ?_, fun g hg => ?_⟩
      · unfold FrameState.InUse
        rw [htaken, List.mem_cons]
        by_cases hm : m = f
        · simp [hm]
        · simp [hm]
      · rw [htaken, List.mem_cons] at hg
        rcases hg with rfl | hold
        · refine ⟨?_, hlow⟩
          unfold FrameState.InUse at hfree
          omega
        · exact hi.taken g hold
  | release f =>
      obtain ⟨hf, hrun, htaken⟩ := hs
      obtain ⟨hf512, hlow⟩ := hi.taken f hf
      have hin : s.pager.Covers f := covers_of_marked ((hi.map.low f hlow).mpr (Or.inr hf))
      have hstored := (ends_iff.mp (plSv_spec (v := false) hin)).1 _ _ hrun
      have hmap := hi.map.store (v := false) hin hlow
      rw [← hstored] at hmap
      refine ⟨hmap.congr fun m => ?_, fun g hg => ?_⟩
      · unfold FrameState.InUse
        rw [htaken, List.mem_filter]
        by_cases hm : m = f
        · subst hm
          simp
          omega
        · simp [hm]
      · rw [htaken, List.mem_filter] at hg
        exact hi.taken g hg.1

/-- In every state of every sequence of takes and releases `PL_FN` ends with a frame above those
of the setup that is not in use. -/
theorem frame_not_in_use {p₀ p : Pager} {s : FrameState} {ops : List FrameOp}
    (hk : KeepsBitmap kpalloc) (h0 : frameSetup kpalloc p₀ = .ok ⟨⟩ p)
    (h : Run (FrameOp.step kpalloc) ⟨p, []⟩ ops s) :
    Ends (plFn kpalloc) s.pager (fun f _ => 512 ≤ f ∧ f ∉ s.taken) fun _ _ => False := by
  have hstart : FrameState.Inv ⟨p, []⟩ := by
    refine ⟨((ends_iff.mp (frameSetup_spec p₀)).1 _ _ h0).1.congr fun m => ?_, fun f hf => ?_⟩
    · simp [FrameState.InUse]
    · cases hf
  have hstep : ∀ (t : FrameState) (op : FrameOp) (t' : FrameState), t.Inv → True →
      op.step kpalloc t t' → t'.Inv := fun t op t' ht _ hs => FrameOp.step_inv hk ht hs
  have hi : s.Inv := run_invariant hstep (run_guarded_iff.mpr ⟨h, fun _ _ => trivial⟩) hstart
  refine (hi.map.plFn (hk s.pager)).mono ?_ fun _ _ hf => hf
  rintro f t ⟨hfree, -⟩
  exact ⟨Nat.le_of_not_lt fun hlow => hfree (Or.inl hlow), fun htaken => hfree (Or.inr htaken)⟩

/-- A frame is taken and released, and another is taken. -/
theorem exists_take_release (hk : KeepsBitmap kpalloc) : ∃ p f s,
    frameSetup kpalloc clearMap = .ok ⟨⟩ p ∧
      Run (FrameOp.step kpalloc) ⟨p, []⟩ [.take, .release f, .take] s := by
  have hsetup : Ends (frameSetup kpalloc) clearMap (fun _ s' => FrameInv s' (· < 512))
      fun _ _ => False := (frameSetup_spec clearMap).mono (fun _ _ h => h.1) fun _ _ hf => hf
  obtain ⟨u, p, hp, hmap⟩ := hsetup.exists_ok
  obtain ⟨f, p₁, htake, -, hlow, hmap₁⟩ := (takeFrame_spec hk hmap).exists_ok
  have hin : p₁.Covers f := covers_of_marked ((hmap₁.low f hlow).mpr (by simp))
  have hcleared : Ends (plSv kpalloc f false) p₁ (fun _ s' => s' = p₁.withFrame f false)
      fun _ _ => False := plSv_spec hin
  obtain ⟨u', p₂, hrelease, rfl⟩ := hcleared.exists_ok
  obtain ⟨g, p₃, htake', -⟩ := (takeFrame_spec hk (hmap₁.store hin hlow)).exists_ok
  have h1 : FrameOp.step kpalloc ⟨p, []⟩ .take ⟨p₁, [f]⟩ := ⟨f, htake, rfl⟩
  have h2 : FrameOp.step kpalloc ⟨p₁, [f]⟩ (.release f) ⟨p₁.withFrame f false, [f].filter (· ≠ f)⟩ :=
    ⟨List.mem_singleton.mpr rfl, hrelease, rfl⟩
  have h3 : FrameOp.step kpalloc ⟨p₁.withFrame f false, [f].filter (· ≠ f)⟩ .take
      ⟨p₃, g :: [f].filter (· ≠ f)⟩ := ⟨g, htake', rfl⟩
  exact ⟨p, f, _, hp, Run.cons h1 (Run.cons h2 (Run.cons h3 (Run.nil _)))⟩

theorem frame_not_in_use_after_release : ∃ p f s,
    Run (FrameOp.step (pure 0x8000041000)) ⟨p, []⟩ [.take, .release f, .take] s ∧
      Ends (plFn (pure 0x8000041000)) s.pager (fun f _ => 512 ≤ f ∧ f ∉ s.taken)
        fun _ _ => False := by
  have hk : KeepsBitmap (pure 0x8000041000) := fun s => ends_pure.mpr rfl
  obtain ⟨p, f, s, hp, hrun⟩ := exists_take_release hk
  exact ⟨p, f, s, hrun, frame_not_in_use hk hp hrun⟩

end UnnamedOS.Paging
