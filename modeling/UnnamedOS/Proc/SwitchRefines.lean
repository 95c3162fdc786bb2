import UnnamedOS.Proc.SwitchCode

/-!
# `switch_to_task` does what the scheduler says

The instructions change the tasks as `Kernel.switchToTask` does, keep the context of the task that
calls on its stack, and return to the context of the other one.
-/

namespace UnnamedOS.Proc

open UnnamedOS.Lib UnnamedOS.Lib.X86

variable {L : Layout} {T : Set Tid} {k k' : Kernel} {sp sp' : Tid → UInt64} {m : ℕ → UInt8}
  {s s' : Cpu} {x : Cell} {c l t : Tid} {a v : UInt64} {b : UInt8} {rs : List Reg}
  {callee : Empty → Cpu → Cpu → Prop} {Q : Place × Cpu → Prop}

/-- The memory shows `k`, and is `m` on the stacks and where the tasks have nothing. -/
structure During (L : Layout) (T : Set Tid) (k : Kernel) (sp : Tid → UInt64) (m : ℕ → UInt8)
    (s : Cpu) : Prop where
  shows : Shows L T k sp s.mem
  onStacks : ∀ u ∈ T, ∀ n, L.stack u ≤ n → n < L.stack u + 0x1000 → s.mem n = m n
  elsewhere : ∀ n, L.Elsewhere T n → s.mem n = m n

namespace During

theorem of_mem (h : During L T k sp m s) (hm : s'.mem = s.mem) : During L T k sp m s' := by
  constructor
  · rw [hm]
    exact h.shows
  · rw [hm]
    exact h.onStacks
  · rw [hm]
    exact h.elsewhere

theorem put (h : During L T k sp m s) (hL : L.Sound T) (hx : x.area.Of T)
    (hm : ∀ n, n < L.addr x ∨ L.addr x + x.size ≤ n → s'.mem n = s.mem n)
    (hself : L.get s'.mem x = k'.value sp' x)
    (hothers : ∀ y : Cell, y.area.Of T → y ≠ x → k'.value sp' y = k.value sp y)
    (hcr3 : k'.cr3 = k.cr3) : During L T k' sp' m s' := by
  refine ⟨h.shows.put hL hx hm hself hothers hcr3, fun u hu n hn hlt => ?_, fun n hn => ?_⟩
  · have hapart := hL.stack_apart hx hu
    rw [hm n (by omega)]
    exact h.onStacks u hu n hn hlt
  · have hsize := x.offset_le
    have hout := hn x.area hx
    rw [hm n (by unfold Layout.addr; omega)]
    exact h.elsewhere n hn

end During

theorem get_eq (hx : x.size = 8) : L.get m x = read64 m (L.addr x) := by
  cases x with
  | state t => cases hx
  | _ => rfl

section Rules

variable {code : List (Instr Empty)} {i : ℕ} {ins : Instr Empty} {src base dst : Reg} {disp : UInt64}

/-- A register is written. -/
theorem During.leads_set (h : During L T k sp m s) (hc : code[i]? = some ins)
    (hx : ins.next i s = some (.inside (i + 1), s.set dst v))
    (hnext : ∀ s', During L T k sp m s' → s'.reg dst = v → Keeps [dst] s s' →
      Leads (Step code callee) Q (.inside (i + 1), s')) :
    Leads (Step code callee) Q (.inside i, s) := by
  apply leads_next hc hx
  exact hnext _ (h.of_mem rfl) (set_self ..) (Keeps.of_set s dst v)

/-- A cell is read. -/
theorem During.leads_load (h : During L T k sp m s) (hL : L.Sound T)
    (hc : code[i]? = some (.load disp base dst)) (hx : x.area.Of T) (hsize : x.size = 8)
    (hbase : s.reg base = .ofNat (L.base x.area)) (hdisp : disp = .ofNat x.offset)
    (hnext : ∀ s', During L T k sp m s' → s'.reg dst = k.value sp x → Keeps [dst] s s' →
      Leads (Step code callee) Q (.inside (i + 1), s')) :
    Leads (Step code callee) Q (.inside i, s) := by
  have haddr : (s.reg base + disp).toNat = L.addr x := by
    rw [hbase, hdisp]
    exact hL.operand hx
  apply h.leads_set hc rfl
  intro s' h' hdst hkeeps
  rw [haddr, ← get_eq hsize, h.shows.cells x hx] at hdst
  exact hnext s' h' hdst hkeeps

/-- A quad is stored in a cell. -/
theorem During.leads_store (x : Cell) (k' : Kernel) (sp' : Tid → UInt64) (h : During L T k sp m s)
    (hL : L.Sound T) (hc : code[i]? = some ins)
    (hx : x.area.Of T) (hsize : x.size = 8)
    (hnext : ins.next i s = some (.inside (i + 1), s.write (s.reg base + disp) v))
    (hbase : s.reg base = .ofNat (L.base x.area)) (hdisp : disp = .ofNat x.offset)
    (hself : k'.value sp' x = v)
    (hothers : ∀ y : Cell, y.area.Of T → y ≠ x → k'.value sp' y = k.value sp y)
    (hcr3 : k'.cr3 = k.cr3)
    (hrest : ∀ s', During L T k' sp' m s' → s'.reg = s.reg →
      Leads (Step code callee) Q (.inside (i + 1), s')) :
    Leads (Step code callee) Q (.inside i, s) := by
  have haddr : (s.reg base + disp).toNat = L.addr x := by
    rw [hbase, hdisp]
    exact hL.operand hx
  have hmem : (s.write (s.reg base + disp) v).mem = write64 s.mem (L.addr x) v := by
    rw [← haddr]
    rfl
  apply leads_next hc hnext
  refine hrest _ (h.put hL hx ?_ ?_ hothers hcr3) rfl
  · intro n hn
    rw [hsize] at hn
    rw [hmem]
    exact write64_apart hn
  · rw [hmem, get_eq hsize, read64_write64, hself]

/-- A byte is stored in a state. -/
theorem During.leads_storeState (h : During L T k sp m s) (hL : L.Sound T) (ht : t ∈ T)
    (st : TaskState) (hc : code[i]? = some (.storeByte st.code 24 base))
    (hbase : s.reg base = .ofNat t)
    (hrest : ∀ s', During L T (k.setState t st) sp m s' → s'.reg = s.reg →
      Leads (Step code callee) Q (.inside (i + 1), s')) :
    Leads (Step code callee) Q (.inside i, s) := by
  have haddr : (s.reg base + 24).toNat = L.addr (.state t) := by
    rw [hbase]
    exact hL.operand (x := .state t) ht
  apply leads_next hc rfl
  refine hrest _ (h.put hL (x := .state t) ht ?_ ?_ (fun y _ hy => value_setState hy) rfl) rfl
  · intro n hn
    simp only [Cell.size] at hn
    exact Function.update_of_ne (by omega) ..
  · simp only [haddr, Layout.get, Kernel.value, Kernel.setState, Function.update_self]

end Rules

/-! ## The parts of the switch -/

theorem TaskState.code_eq_zero {st : TaskState} : st.code = 0 ↔ st = .running := by
  cases st <;> decide

/-- A task that still runs goes back on the list. -/
theorem leads_requeue (hL : L.Sound T) (h : During L T k sp m s) (hc : c ∈ T)
    (hrbx : s.reg .rbx = .ofNat c) (hlast : ∀ l, k.lastThread = some l → l ∈ T)
    (hk : k.requeue c = .ok k')
    (hnext : ∀ s', During L T k' sp m s' → Keeps [.rcx, .rdx] s s' →
      Leads (Step (switchCode L.globals) callee) Q (.inside 19, s')) :
    Leads (Step (switchCode L.globals) callee) Q (.inside 9, s) := by
  have hcl : s.mem (s.reg .rbx + 24).toNat = (k.state c).code := by
    have hcell := h.shows.cells (.state c) hc
    have haddr : (s.reg .rbx + 24).toNat = L.addr (.state c) := by
      rw [hrbx]
      exact hL.operand (x := .state c) hc
    rw [haddr]
    exact UInt8.toUInt64_inj.mp hcell
  apply h.leads_set (i := 9) rfl rfl
  intro s1 h1 hrcx hkeeps1
  rw [hcl] at hrcx
  apply leads_jne (i := 10) rfl rfl rfl
  intro s2 hreg2 hmem2
  rw [hrcx, toUInt8_loadByte]
  replace h1 := h1.of_mem hmem2
  have hkeeps2 : Keeps [.rcx, .rdx] s s2 := (hkeeps1.mono (by simp)).trans (.of_reg hreg2)
  by_cases hrun : k.state c = .running
  · simp only [decide_eq_true_eq, TaskState.code_eq_zero, if_pos hrun]
    rw [Kernel.requeue, if_pos hrun, Kernel.appendThread] at hk
    cases hl : (k.setState c .ready).lastThread with
    | none =>
        rw [hl] at hk
        cases hk
    | some l =>
        rw [hl] at hk
        obtain rfl := Except.ok.inj hk
        have hlT : l ∈ T := hlast l hl
        have hrbx2 : s2.reg .rbx = .ofNat c := (hkeeps2 .rbx (by decide)).trans hrbx
        apply h1.leads_storeState (i := 12) hL hc .ready rfl hrbx2
        intro s3 h3 hreg3
        apply h3.leads_set (i := 13) rfl rfl
        intro s4 h4 hrcx4 hkeeps4
        apply h4.leads_load (i := 14) (x := .last) hL rfl trivial rfl hrcx4 rfl
        intro s5 h5 hrdx5 hkeeps5
        have hrbx5 : s5.reg .rbx = .ofNat c := by
          rw [hkeeps5 .rbx (by decide), hkeeps4 .rbx (by decide), hreg3, hrbx2]
        have hrcx5 : s5.reg .rcx = .ofNat L.globals.LAST_THREAD := by
          rw [hkeeps5 .rcx (by decide), hrcx4]
        have hrdx5' : s5.reg .rdx = .ofNat l := hrdx5.trans (congrArg pointer hl)
        have hkeeps5' : Keeps [.rcx, .rdx] s s5 := by
          apply (hkeeps2.trans (.of_reg hreg3)).trans
          exact (hkeeps4.mono (by simp)).trans (hkeeps5.mono (by simp))
        apply h5.leads_store (i := 15) (.next l) ((k.setState c .ready).setNext l (some c)) sp
          hL rfl hlT rfl rfl hrdx5' rfl
        · rw [hrbx5]
          simp only [Kernel.value, Kernel.setNext, Function.update_self, pointer]
        · exact fun y _ hy => value_setNext hy
        · rfl
        intro s6 h6 hreg6
        apply h6.leads_store (i := 16) .last
          { (k.setState c .ready).setNext l (some c) with lastThread := some c } sp hL rfl trivial
            rfl rfl ((congrFun hreg6 _).trans hrcx5) rfl
        · rw [hreg6, hrbx5]
          rfl
        · exact fun y _ hy => value_last hy
        · rfl
        intro s7 h7 hreg7
        have hrbx7 : s7.reg .rbx = .ofNat c := by rw [hreg7, hreg6, hrbx5]
        apply h7.leads_store (i := 17) (.next c)
          ({ (k.setState c .ready).setNext l (some c) with lastThread := some c }.setNext c none) sp
            hL rfl hc rfl rfl hrbx7 rfl
        · simp only [Kernel.value, Kernel.setNext, Function.update_self, pointer]
        · exact fun y _ hy => value_setNext hy
        · rfl
        intro s8 h8 hreg8
        apply leads_next (i := 18) rfl rfl
        exact hnext s8 h8 (hkeeps5'.trans (.of_reg (hreg8.trans (hreg7.trans hreg6))))
  · simp only [decide_eq_true_eq, TaskState.code_eq_zero, if_neg hrun]
    rw [Kernel.requeue, if_neg hrun] at hk
    obtain rfl := Except.ok.inj hk
    exact hnext s2 h1 hkeeps2

/-- The task that is given is the current one, on its own stack. -/
theorem leads_take (hL : L.Sound T) (h : During L T k sp m s) (hc : k.currentTaskTCB = some c)
    (ht : t ∈ T) (hrax : s.reg .rax = .ofNat L.globals.current_task_TCB)
    (hrdi : s.reg .rdi = .ofNat t)
    (hnext : ∀ s', During L T { k.setState t .running with currentTaskTCB := some t } sp m s' →
      s'.reg .rsi = .ofNat t → s'.reg .rbx = .ofNat c → s'.rsp = sp t →
      Keeps [.rsi, .rbx, .rsp] s s' →
      Leads (Step (switchCode L.globals) callee) Q (.inside 24, s')) :
    Leads (Step (switchCode L.globals) callee) Q (.inside 19, s) := by
  apply h.leads_set (i := 19) rfl rfl
  intro s1 h1 hrsi1 hkeeps1
  rw [hrdi] at hrsi1
  apply h1.leads_storeState (i := 20) hL ht .running rfl hrsi1
  intro s2 h2 hreg2
  have hrax2 : s2.reg .rax = .ofNat L.globals.current_task_TCB := by
    rw [hreg2, hkeeps1 .rax (by decide), hrax]
  apply h2.leads_load (i := 21) (x := .current) hL rfl trivial rfl hrax2 rfl
  intro s3 h3 hrbx3 hkeeps3
  have hrbx3' : s3.reg .rbx = .ofNat c := hrbx3.trans (congrArg pointer hc)
  have hrsi3 : s3.reg .rsi = .ofNat t := by rw [hkeeps3 .rsi (by decide), hreg2, hrsi1]
  apply h3.leads_store (i := 22) .current { k.setState t .running with currentTaskTCB := some t } sp hL
    rfl trivial rfl rfl ((hkeeps3 .rax (by decide)).trans hrax2) rfl
  · rw [hrsi3]
    rfl
  · exact fun y _ hy => value_current hy
  · rfl
  intro s4 h4 hreg4
  have hrsi4 : s4.reg .rsi = .ofNat t := (congrFun hreg4 _).trans hrsi3
  apply h4.leads_load (i := 23) (x := .rsp t) hL rfl ht rfl hrsi4 rfl
  intro s5 h5 hrsp5 hkeeps5
  apply hnext s5 h5 _ _ hrsp5
  · apply ((hkeeps1.mono (by simp)).trans (.of_reg hreg2)).trans
    apply ((hkeeps3.mono (by simp)).trans (.of_reg hreg4)).trans
    exact hkeeps5.mono (by simp)
  · rw [hkeeps5 .rsi (by decide), hrsi4]
  · rw [hkeeps5 .rbx (by decide), hreg4, hrbx3']

/-- The user half of the address space is exchanged. -/
theorem leads_swap (hL : L.Sound T) (h : During L T k sp m s) (hc : c ∈ T) (ht : t ∈ T)
    (hrsi : s.reg .rsi = .ofNat t) (hrbx : s.reg .rbx = .ofNat c)
    (hnext : ∀ s', During L T (k.swapUserMemory c t) sp m s' → Keeps [.rsi, .rbx, .rcx, .rax] s s' →
      Leads (Step (switchCode L.globals) callee) Q (.inside 33, s')) :
    Leads (Step (switchCode L.globals) callee) Q (.inside 24, s) := by
  apply h.leads_load (i := 24) (x := .cr3 t) hL rfl ht rfl hrsi rfl
  intro s1 h1 hrcx1 hkeeps1
  apply h1.leads_load (i := 25) (x := .cr3 c) hL rfl hc rfl
    ((hkeeps1 .rbx (by decide)).trans hrbx) rfl
  intro s2 h2 hrax2 hkeeps2
  replace hrax2 : s2.reg .rax = k.cr3 c := hrax2
  have hrcx2 : s2.reg .rcx = k.cr3 t := (hkeeps2 .rcx (by decide)).trans hrcx1
  have hkeeps2' : Keeps [.rsi, .rbx, .rcx, .rax] s s2 :=
    (hkeeps1.mono (by simp)).trans (hkeeps2.mono (by simp))
  apply leads_je (i := 26) rfl rfl rfl
  intro s3 hreg3 hmem3
  replace h2 := h2.of_mem hmem3
  have hrax3 : s3.reg .rax = k.cr3 c := (congrFun hreg3 _).trans hrax2
  have hrcx3 : s3.reg .rcx = k.cr3 t := (congrFun hreg3 _).trans hrcx2
  have hkeeps3 : Keeps [.rsi, .rbx, .rcx, .rax] s s3 := hkeeps2'.trans (.of_reg hreg3)
  rw [hrcx2, hrax2]
  unfold Kernel.swapUserMemory at hnext
  by_cases heq : k.cr3 t = k.cr3 c
  · rw [if_pos heq] at hnext
    rw [if_pos (decide_eq_true heq)]
    exact hnext s3 h2 hkeeps3
  · rw [if_neg heq] at hnext
    rw [if_neg fun htrue => heq (of_decide_eq_true htrue)]
    apply h2.leads_set (i := 28) rfl rfl
    intro s4 h4 hrbx4 hkeeps4
    apply h4.leads_load (i := 29) (x := .slot) hL rfl trivial rfl hrbx4 rfl
    intro s5 h5 hrsi5 hkeeps5
    have hcr3 : ∀ {u}, u ∈ T → UInt64.ofNat (L.cr3 u).toNat = k.cr3 u := by
      intro u hu
      rw [UInt64.ofNat_toNat, h.shows.cr3 u hu]
    apply h5.leads_store (i := 30) (.word c) (k.setWord (k.cr3 c) k.pml4Slot0) sp hL rfl hc rfl rfl _
      rfl
    · rw [hrsi5]
      exact Function.update_self ..
    · exact fun y hy hne => value_setWord h.shows hL hc hy hne
    · rfl
    · intro s6 h6 hreg6
      have hrcx6 : s6.reg .rcx = .ofNat (L.cr3 t).toNat := by
        rw [hreg6, hkeeps5 .rcx (by decide), hkeeps4 .rcx (by decide), hrcx3, hcr3 ht]
      apply h6.leads_load (i := 31) (x := .word t) hL rfl ht rfl hrcx6 rfl
      intro s7 h7 hrsi7 hkeeps7
      have hrbx7 : s7.reg .rbx = .ofNat slot0 := by
        rw [hkeeps7 .rbx (by decide), hreg6, hkeeps5 .rbx (by decide), hrbx4]
      apply h7.leads_store (i := 32) .slot ((k.setWord (k.cr3 c) k.pml4Slot0).setSlot
          ((k.setWord (k.cr3 c) k.pml4Slot0).cr3Word (k.cr3 t))) sp hL rfl trivial rfl rfl hrbx7 rfl
            hrsi7.symm
      · exact fun y _ hy => value_setSlot hy
      · rfl
      intro s8 h8 hreg8
      apply hnext s8 h8
      apply hkeeps3.trans
      apply (hkeeps4.mono (by simp)).trans
      apply ((hkeeps5.mono (by simp)).trans (.of_reg hreg6)).trans
      exact (hkeeps7.mono (by simp)).trans (.of_reg hreg8)
    · rw [hkeeps5 .rax (by decide), hkeeps4 .rax (by decide), hrax3]
      exact (hcr3 hc).symm

/-! ## The whole switch -/

/-- What a task finds again when its call of `switch_to_task` returns. -/
structure Context where
  rbp : UInt64
  rdi : UInt64
  rsi : UInt64
  rbx : UInt64
  rip : UInt64
  rsp : UInt64
  stack : ℕ → UInt8

namespace Context

/-- That of the call that is made in `s`. -/
def ofCall (s : Cpu) : Context where
  rbp := s.reg .rbp
  rdi := s.reg .rdi
  rsi := s.reg .rsi
  rbx := s.reg .rbx
  rip := read64 s.mem s.rsp.toNat
  rsp := s.rsp + 8
  stack := s.mem

def frame (x : Context) : List UInt64 := [x.rbp, x.rdi, x.rsi, x.rbx, x.rip]

/-- The part of the stack of `t` that is in use is the same in `m`. -/
def Stack (x : Context) (L : Layout) (t : Tid) (m : ℕ → UInt8) : Prop :=
  ∀ n, x.rsp.toNat ≤ n → n < L.stack t + 0x1000 → m n = x.stack n

end Context

/-- The task has the context on its stack, whose pointer is `p`. -/
structure Suspended (L : Layout) (t : Tid) (p : UInt64) (m : ℕ → UInt8) (x : Context) : Prop where
  frame : Frame m p.toNat x.frame
  rsp : x.rsp.toNat = p.toNat + 40
  low : L.stack t ≤ p.toNat
  high : p.toNat + 40 ≤ L.stack t + 0x1000
  stack : x.Stack L t m

theorem Suspended.congr {m' : ℕ → UInt8} {p : UInt64} {y : Context} (h : Suspended L t p m y)
    (hm : ∀ n, L.stack t ≤ n → n < L.stack t + 0x1000 → m' n = m n) : Suspended L t p m' y := by
  have hlow := h.low
  have hhigh := h.high
  have hrsp := h.rsp
  refine ⟨h.frame.congr fun n hn hlt => ?_, h.rsp, h.low, h.high, fun n hn hlt => ?_⟩
  · have hlen : y.frame.length = 5 := rfl
    exact hm n (by omega) (by omega)
  · rw [hm n (by omega) hlt]
    exact h.stack n hn hlt

/-- The task goes on where it was. -/
structure Restored (L : Layout) (t : Tid) (y : Context) (r : Place × Cpu) : Prop where
  rip : r.1 = .outside y.rip
  rbp : r.2.reg .rbp = y.rbp
  rdi : r.2.reg .rdi = y.rdi
  rsi : r.2.reg .rsi = y.rsi
  rbx : r.2.reg .rbx = y.rbx
  rsp : r.2.rsp = y.rsp
  stack : y.Stack L t r.2.mem

/-- The context of the task that calls is on its stack. -/
theorem leads_save (hL : L.Sound T) (h : Shows L T k sp s.mem) (hk : k.currentTaskTCB = some c)
    (hc : c ∈ T) (hlow : L.stack c + 32 ≤ s.rsp.toNat)
    (hhigh : s.rsp.toNat + 8 ≤ L.stack c + 0x1000)
    (hnext : ∀ s1 s2, Pushed s s1 [.rbx, .rsi, .rdi, .rbp] →
      During L T k (Function.update sp c s1.rsp) s1.mem s2 →
      s2.reg .rax = .ofNat L.globals.current_task_TCB → s2.reg .rbx = .ofNat c →
      Keeps [.rax, .rbx] s1 s2 →
      Leads (Step (switchCode L.globals) callee) Q (.inside 9, s2)) :
    Leads (Step (switchCode L.globals) callee) Q (.inside 0, s) := by
  have hpush : Here (switchCode L.globals) 0 ([Reg.rbx, .rsi, .rdi, .rbp].map .push) := ⟨_, rfl⟩
  have hlen : [Reg.rbx, .rsi, .rdi, .rbp].length = 4 := rfl
  apply leads_pushes hpush (by decide) (by omega)
  intro s1 hpushed
  have hrsp := hpushed.rsp
  rw [hlen] at hrsp
  have hshows : Shows L T k sp s1.mem := by
    apply h.stack hL hc
    intro n hn
    rcases hn with hlt | hge
    · exact hpushed.below n (by omega)
    · exact hpushed.above n (by omega)
  have hduring : During L T k sp s1.mem s1 := ⟨hshows, fun _ _ _ _ _ => rfl, fun _ _ => rfl⟩
  apply hduring.leads_set (i := 4) rfl rfl
  intro s2 h2 hrax2 hkeeps2
  apply h2.leads_load (i := 5) (x := .current) hL rfl trivial rfl hrax2 rfl
  intro s3 h3 hrbx3 hkeeps3
  replace hrbx3 : s3.reg .rbx = .ofNat c := hrbx3.trans (congrArg pointer hk)
  have hne : UInt64.ofNat c ≠ 0 := by
    intro hzero
    have hfits : c + 132 < 2 ^ 64 := hL.fits (.tcb c) hc
    have hlt : c < 2 ^ 64 := (Nat.lt_add_of_pos_right (by decide)).trans hfits
    have hnat : c = 0 := by
      rw [← UInt64.toNat_ofNat_of_lt' hlt, hzero]
      rfl
    exact hL.null c hc hnat
  apply leads_je (i := 6) rfl rfl rfl
  intro s4 hreg4 hmem4
  replace h3 := h3.of_mem hmem4
  rw [hrbx3, if_neg fun htrue => hne (of_decide_eq_true htrue)]
  have hrsp4 : s4.reg .rsp = s1.rsp := by
    rw [hreg4, hkeeps3 .rsp (by decide), hkeeps2 .rsp (by decide)]
    rfl
  apply h3.leads_store (i := 8) (.rsp c) k (Function.update sp c s1.rsp) hL rfl hc rfl rfl
    ((congrFun hreg4 _).trans hrbx3) rfl
  · rw [hrsp4]
    exact Function.update_self ..
  · exact fun y _ hy => value_rsp hy
  · rfl
  intro s5 h5 hreg5
  apply hnext s1 s5 hpushed h5
  · rw [hreg5, hreg4, hkeeps3 .rax (by decide), hrax2]
  · rw [hreg5, hreg4, hrbx3]
  · apply ((hkeeps2.mono (by simp)).trans (hkeeps3.mono (by simp))).trans
    exact .of_reg (hreg5.trans hreg4)

/-- The context is taken from the stack. -/
theorem leads_restore {y : Context} (hL : L.Sound T) (ht : t ∈ T)
    (h : Suspended L t s.rsp s.mem y)
    (hnext : ∀ r : Place × Cpu, Restored L t y r → r.2.mem = s.mem →
      Keeps [.rbp, .rdi, .rsi, .rbx, .rsp] s r.2 → Q r) :
    Leads (Step (switchCode L.globals) callee) Q (.inside 33, s) := by
  have hpop : Here (switchCode L.globals) 33 ([Reg.rbp, .rdi, .rsi, .rbx].map .pop) := ⟨_, rfl⟩
  have hlen : [Reg.rbp, .rdi, .rsi, .rbx].length = 4 := rfl
  have hsplit : y.frame = [y.rbp, y.rdi, y.rsi, y.rbx] ++ [y.rip] := rfl
  have hframe := h.frame
  rw [hsplit, frame_append] at hframe
  have hfits : L.stack t + 0x1000 < 2 ^ 64 := hL.fits (.stack t) ht
  have hhigh := h.high
  apply leads_pops hpop (by decide) (by decide) hframe.1 rfl (by omega)
  intro s1 hpopped
  have hrsp := hpopped.rsp
  rw [hlen] at hrsp
  have hregs := hpopped.popped
  simp only [List.map_cons, List.map_nil, List.cons.injEq, and_true] at hregs
  obtain ⟨hrbp, hrdi, hrsi, hrbx⟩ := hregs
  apply leads_next (i := 37) rfl rfl
  have hrip : read64 s1.mem s1.rsp.toNat = y.rip := by
    rw [hpopped.mem, hrsp]
    exact hframe.2.1
  have hkept : ∀ r, r ≠ .rsp → (s1.set .rsp (s1.rsp + 8)).reg r = s1.reg r := fun r hr => set_ne hr _
  apply Leads.done
  apply hnext
  · constructor
    case rip => exact congrArg Place.outside hrip
    case rbp => exact (hkept .rbp (by decide)).trans hrbp
    case rdi => exact (hkept .rdi (by decide)).trans hrdi
    case rsi => exact (hkept .rsi (by decide)).trans hrsi
    case rbx => exact (hkept .rbx (by decide)).trans hrbx
    case rsp =>
      have hself : (s1.set .rsp (s1.rsp + 8)).rsp = s1.rsp + 8 := set_self ..
      apply UInt64.toNat_inj.mp
      rw [Cpu.ret, hself, toNat_add_eight (by omega), hrsp, h.rsp]
    case stack =>
      intro n hn hlt
      rw [← h.stack n hn hlt]
      exact congrFun hpopped.mem n
  · exact hpopped.mem
  · intro r hr
    simp only [List.mem_cons, List.not_mem_nil, or_false, not_or] at hr
    rw [Cpu.ret, hkept r hr.2.2.2.2]
    apply hpopped.others r hr.2.2.2.2
    simp [hr]

/-- The context of the call is on the stack. -/
theorem suspended_of_pushed {s1 : Cpu} (h : Pushed s s1 [.rbx, .rsi, .rdi, .rbp])
    (hlow : L.stack c + 32 ≤ s.rsp.toNat) (hhigh : s.rsp.toNat + 8 ≤ L.stack c + 0x1000)
    (hfits : L.stack c + 0x1000 < 2 ^ 64) :
    Suspended L c s1.rsp s1.mem (.ofCall s) := by
  have hrsp := h.rsp
  have hlen : [Reg.rbx, .rsi, .rdi, .rbp].length = 4 := rfl
  rw [hlen] at hrsp
  have hadd : (s.rsp + 8).toNat = s.rsp.toNat + 8 := toNat_add_eight (by omega)
  constructor
  case frame =>
    have hsplit : (Context.ofCall s).frame =
        ([Reg.rbx, .rsi, .rdi, .rbp].map s.reg).reverse ++ [read64 s.mem s.rsp.toNat] := rfl
    rw [hsplit, frame_append]
    refine ⟨h.frame, ?_, trivial⟩
    have hplace : s1.rsp.toNat + 8 * ([Reg.rbx, .rsi, .rdi, .rbp].map s.reg).reverse.length =
        s.rsp.toNat := hrsp
    rw [hplace]
    exact read64_congr fun i _ => h.above _ (by omega)
  case rsp =>
    change (s.rsp + 8).toNat = _
    omega
  case low => omega
  case high => omega
  case stack =>
    intro n hn _
    apply h.above
    change (s.rsp + 8).toNat ≤ n at hn
    omega

theorem requeue_currentTaskTCB (hk : k.requeue c = .ok k') : k'.currentTaskTCB = k.currentTaskTCB := by
  rw [Kernel.requeue] at hk
  split_ifs at hk
  · rw [Kernel.appendThread] at hk
    cases hl : (k.setState c .ready).lastThread with
    | none =>
        rw [hl] at hk
        cases hk
    | some l =>
        rw [hl] at hk
        rw [← Except.ok.inj hk]
        rfl
  · rw [Except.ok.inj hk]

theorem switchToTask_ok (hcurrent : k.currentTaskTCB = some c) (hok : k.switchToTask t = .ok k') :
    ∃ k1, k.requeue c = .ok k1 ∧
      { k1.setState t .running with currentTaskTCB := some t }.swapUserMemory c t = k' := by
  rw [Kernel.switchToTask, hcurrent] at hok
  cases hk1 : k.requeue c with
  | error e =>
      simp only [hk1] at hok
      cases hok
  | ok k1 =>
      simp only [hk1] at hok
      exact ⟨k1, rfl, Except.ok.inj hok⟩

/-- Four registers have been pushed. -/
theorem rsp_of_pushed {s1 : Cpu} (h : Pushed s s1 [.rbx, .rsi, .rdi, .rbp]) :
    s1.rsp = s.rsp - 32 := by
  have hbytes := h.rsp
  have hlen : [Reg.rbx, .rsi, .rdi, .rbp].length = 4 := rfl
  rw [hlen] at hbytes
  have hroom : (32 : UInt64).toNat ≤ s.rsp.toNat := by
    change 32 ≤ s.rsp.toNat
    omega
  apply UInt64.toNat_inj.mp
  rw [UInt64.toNat_sub_of_le _ _ (UInt64.le_iff_toNat_le.mpr hroom)]
  change _ = s.rsp.toNat - 32
  omega

/-- The pushes write to the stack of the caller only. -/
theorem mem_of_pushed {s1 : Cpu} {n : ℕ} (h : Pushed s s1 [.rbx, .rsi, .rdi, .rbp])
    (hlow : L.stack c + 32 ≤ s.rsp.toNat) (hhigh : s.rsp.toNat + 8 ≤ L.stack c + 0x1000)
    (hn : n < L.stack c ∨ L.stack c + 0x1000 ≤ n) : s1.mem n = s.mem n := by
  have hbytes := h.rsp
  have hlen : [Reg.rbx, .rsi, .rdi, .rbp].length = 4 := rfl
  rw [hlen] at hbytes
  rcases hn with hbelow | habove
  · exact h.below n (by omega)
  · exact h.above n (by omega)

/-- The caller is suspended like the others once its context is on the stack. -/
theorem suspended_all {s1 : Cpu} {ctx : Tid → Context} (hL : L.Sound T) (hc : c ∈ T)
    (h : Pushed s s1 [.rbx, .rsi, .rdi, .rbp]) (hlow : L.stack c + 32 ≤ s.rsp.toNat)
    (hhigh : s.rsp.toNat + 8 ≤ L.stack c + 0x1000)
    (hsuspended : ∀ u ∈ T, u ≠ c → Suspended L u (sp u) s.mem (ctx u)) {u : Tid} (hu : u ∈ T) :
    Suspended L u (Function.update sp c (s.rsp - 32) u) s1.mem
      (Function.update ctx c (.ofCall s) u) := by
  by_cases huc : u = c
  · subst huc
    have hsave := suspended_of_pushed h hlow hhigh (hL.fits (.stack u) hc)
    rw [rsp_of_pushed h] at hsave
    rw [Function.update_self, Function.update_self]
    exact hsave
  · rw [Function.update_of_ne huc, Function.update_of_ne huc]
    have hapart := hL.apart (.stack u) (.stack c) hu hc fun heq => huc (Area.stack.inj heq)
    simp only [Layout.base, Area.size] at hapart
    apply (hsuspended u hu huc).congr
    intro n hn hlt
    exact mem_of_pushed h hlow hhigh (by omega)

/-- The instructions do to the tasks what the scheduler says, keep the context of the call on the
stack, and go on in the context of the other task. -/
theorem leads_switch_to_task (callee : Empty → Cpu → Cpu → Prop) (ctx : Tid → Context)
    (hL : L.Sound T) (h : Shows L T k sp s.mem)
    (hcurrent : k.currentTaskTCB = some c) (hc : c ∈ T) (ht : t ∈ T)
    (hlast : ∀ l, k.lastThread = some l → l ∈ T)
    (hsuspended : ∀ u ∈ T, u ≠ c → Suspended L u (sp u) s.mem (ctx u))
    (hrdi : s.reg .rdi = .ofNat t) (hlow : L.stack c + 32 ≤ s.rsp.toNat)
    (hhigh : s.rsp.toNat + 8 ≤ L.stack c + 0x1000) (hok : k.switchToTask t = .ok k') :
    Leads (Step (switchCode L.globals) callee)
      (fun r => Shows L T k' (Function.update sp c (s.rsp - 32)) r.2.mem ∧
        (∀ u ∈ T, Suspended L u (Function.update sp c (s.rsp - 32) u) r.2.mem
          (Function.update ctx c (.ofCall s) u)) ∧
        Restored L t (Function.update ctx c (.ofCall s) t) r ∧
        (∀ n, L.Elsewhere T n → r.2.mem n = s.mem n) ∧
        Keeps [.rax, .rcx, .rdx, .rbx, .rsp, .rbp, .rsi, .rdi] s r.2)
      (.inside 0, s) := by
  obtain ⟨k1, hk1, rfl⟩ := switchToTask_ok hcurrent hok
  apply leads_save hL h hcurrent hc hlow hhigh
  intro s1 s2 hpushed h2 hrax2 hrbx2 hkeeps2
  rw [rsp_of_pushed hpushed] at h2
  have hrdi2 : s2.reg .rdi = .ofNat t := by
    rw [hkeeps2 .rdi (by decide), hpushed.others .rdi (by decide), hrdi]
  apply leads_requeue hL h2 hc hrbx2 hlast hk1
  intro s3 h3 hkeeps3
  apply leads_take hL h3 ((requeue_currentTaskTCB hk1).trans hcurrent) ht
    ((hkeeps3 .rax (by decide)).trans hrax2) ((hkeeps3 .rdi (by decide)).trans hrdi2)
  intro s4 h4 hrsi4 hrbx4 hrsp4 hkeeps4
  apply leads_swap hL h4 hc ht hrsi4 hrbx4
  intro s5 h5 hkeeps5
  have hsuspended5 : ∀ u ∈ T, Suspended L u (Function.update sp c (s.rsp - 32) u) s5.mem
      (Function.update ctx c (.ofCall s) u) :=
    fun u hu => (suspended_all hL hc hpushed hlow hhigh hsuspended hu).congr (h5.onStacks u hu)
  have hrsp5 : s5.rsp = Function.update sp c (s.rsp - 32) t :=
    (hkeeps5 .rsp (by decide)).trans hrsp4
  have hmine := hsuspended5 t ht
  rw [← hrsp5] at hmine
  apply leads_restore hL ht hmine
  intro r hrestored hmem hkeeps
  rw [hmem]
  refine ⟨h5.shows, hsuspended5, hrestored, fun n hn => ?_, fun r' hr => ?_⟩
  · rw [h5.elsewhere n hn]
    have hout := hn (.stack c) hc
    simp only [Layout.base, Area.size] at hout
    exact mem_of_pushed hpushed hlow hhigh (by omega)
  · simp only [List.mem_cons, List.not_mem_nil, or_false, not_or] at hr
    rw [hkeeps r' (by simp [hr]), hkeeps5 r' (by simp [hr]), hkeeps4 r' (by simp [hr]),
      hkeeps3 r' (by simp [hr]), hkeeps2 r' (by simp [hr]), hpushed.others r' (by simp [hr])]

/-- Each part of the kernel that the instructions touch is as `Kernel.switchToTask` says, the rest of
the memory is as it was, and so are the registers that a call has to preserve, but for those of the
frame. -/
theorem switch_to_task_refines {ctx : Tid → Context} (hL : L.Sound T) (h : Shows L T k sp s.mem)
    (hcurrent : k.currentTaskTCB = some c) (hc : c ∈ T) (ht : t ∈ T)
    (hlast : ∀ l, k.lastThread = some l → l ∈ T)
    (hsuspended : ∀ u ∈ T, u ≠ c → Suspended L u (sp u) s.mem (ctx u))
    (hrdi : s.reg .rdi = .ofNat t) (hlow : L.stack c + 32 ≤ s.rsp.toNat)
    (hhigh : s.rsp.toNat + 8 ≤ L.stack c + 0x1000) (hok : k.switchToTask t = .ok k') :
    Leads (Step (switchCode L.globals) callee)
      (fun r => (∃ rip, r.1 = .outside rip) ∧
        Shows L T k' (Function.update sp c (s.rsp - 32)) r.2.mem ∧
        (∀ n, L.Elsewhere T n → r.2.mem n = s.mem n) ∧
        Keeps [.rax, .rcx, .rdx, .rbx, .rsp, .rbp, .rsi, .rdi] s r.2)
      (.inside 0, s) := by
  have hleads := leads_switch_to_task callee ctx hL h hcurrent hc ht hlast hsuspended hrdi hlow
    hhigh hok
  exact hleads.mono fun r hr => ⟨⟨_, hr.2.2.1.rip⟩, hr.1, hr.2.2.2.1, hr.2.2.2.2⟩

/-- The boot task at 0x1000, and a place for another task at 0x2000. -/
def Layout.pair : Layout where
  globals := ⟨0x100, 0x108⟩
  cr3 t := if t = 0x1000 then 0x5000 else 0x6000
  stack t := if t = 0x1000 then 0x3000 else 0x4000

theorem pair_sound : Layout.pair.Sound {0x2000, 0x1000} := by
  have hareas : ∀ a : Area, a.Of {0x2000, 0x1000} →
      a ∈ [Area.current, .last, .slot, .tcb 0x2000, .half 0x2000, .stack 0x2000, .tcb 0x1000,
        .half 0x1000, .stack 0x1000] := by
    intro a ha
    cases a with
    | current | last | slot => decide
    | tcb t | half t | stack t =>
        rcases ha with rfl | rfl
        · decide
        · decide
  constructor
  case apart =>
    have hall : ∀ a ∈ [Area.current, .last, .slot, .tcb 0x2000, .half 0x2000, .stack 0x2000,
        .tcb 0x1000, .half 0x1000, .stack 0x1000], ∀ b ∈ [Area.current, .last, .slot, .tcb 0x2000,
        .half 0x2000, .stack 0x2000, .tcb 0x1000, .half 0x1000, .stack 0x1000], a ≠ b →
        Layout.pair.base a + a.size ≤ Layout.pair.base b ∨
          Layout.pair.base b + b.size ≤ Layout.pair.base a := by
      decide
    exact fun a b ha hb => hall a (hareas a ha) b (hareas b hb)
  case fits =>
    have hall : ∀ a ∈ [Area.current, .last, .slot, .tcb 0x2000, .half 0x2000, .stack 0x2000,
        .tcb 0x1000, .half 0x1000, .stack 0x1000], Layout.pair.base a + a.size < 2 ^ 64 := by
      decide
    exact fun a ha => hall a (hareas a ha)
  case null =>
    intro t ht
    rcases ht with rfl | rfl
    · decide
    · decide

def bytesOf (l : List (ℕ × UInt8)) (n : ℕ) : UInt8 := (l.lookup n).getD 0

def bootKernel : Kernel := Kernel.zeroed.initializeMultitasking 0x1000 0x5000

def bootBytes : List (ℕ × UInt8) := [(0x101, 0x10), (0x103D, 0x50)]

def pairBytes : List (ℕ × UInt8) :=
  bootBytes ++ [(0x109, 0x20), (0x2000, 0xD8), (0x2001, 0x4F), (0x2018, 1), (0x203D, 0x60),
    (0x4FE0, 7), (0x4FF8, 0x34), (0x4FF9, 0x12)]

/-- The kernel when the boot task has made the other one. -/
def pairKernel : Kernel :=
  (bootKernel.ckprocA 0x2000 0x4000 0x6000).toOption.getD bootKernel

def pairPointers : Tid → UInt64 := fun t => if t = 0x2000 then 0x4FD8 else 0

theorem pair_shows : Shows Layout.pair {0x2000, 0x1000} pairKernel pairPointers
    (bytesOf pairBytes) := by
  constructor
  · intro x hx
    cases x with
    | current | last | slot => decide
    | rsp t | next t | state t | cr3 t | word t =>
        rcases hx with rfl | rfl
        · decide
        · decide
  · intro t ht
    rcases ht with rfl | rfl
    · rfl
    · rfl

/-- The boot task on its stack, with the other task as the argument of a call. -/
def pairCpu (mem : ℕ → UInt8) : Cpu where
  reg r := if r = .rdi then 0x2000 else if r = .rsp then 0x3F00 else 0
  flags := 0
  cs := 0x28
  ss := 0
  cr2 := 0
  mem := mem

/-- What the other task starts with. -/
def pairContext : Context where
  rbp := 0
  rdi := 7
  rsi := 0
  rbx := 0
  rip := 0x1234
  rsp := 0x5000
  stack := bytesOf pairBytes

theorem pair_suspended : ∀ u ∈ ({0x2000, 0x1000} : Set Tid), u ≠ 0x1000 →
    Suspended .pair u (pairPointers u) (bytesOf pairBytes) pairContext := by
  intro u hu hne
  obtain rfl : u = 0x2000 := hu.resolve_right hne
  have hframe : Frame (bytesOf pairBytes) 0x4FD8 pairContext.frame :=
    ⟨by decide, by decide, by decide, by decide, by decide, trivial⟩
  exact ⟨hframe, by decide, by decide, by decide, fun _ _ _ => rfl⟩

theorem switch_to_task_refines_pair : ∃ k', pairKernel.switchToTask 0x2000 = .ok k' ∧
    Leads (Step (switchCode Layout.pair.globals) fun _ _ _ => False)
      (fun r => (∃ rip, r.1 = .outside rip) ∧
        Shows .pair {0x2000, 0x1000} k' (Function.update pairPointers 0x1000 0x3EE0) r.2.mem ∧
        (∀ n, Layout.pair.Elsewhere {0x2000, 0x1000} n → r.2.mem n = bytesOf pairBytes n) ∧
        Keeps [.rax, .rcx, .rdx, .rbx, .rsp, .rbp, .rsi, .rdi] (pairCpu (bytesOf pairBytes)) r.2)
      (.inside 0, pairCpu (bytesOf pairBytes)) :=
  ⟨_, rfl, switch_to_task_refines pair_sound pair_shows rfl (.inr rfl) (.inl rfl)
    (fun l hl => .inl (Option.some.inj hl).symm) pair_suspended
    (s := pairCpu (bytesOf pairBytes)) rfl (by decide) (by decide) rfl⟩

end UnnamedOS.Proc
