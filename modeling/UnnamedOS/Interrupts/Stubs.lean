import UnnamedOS.Lib.Handlers

/-!
# What an interrupt does to the interrupted code

The handlers of `asmbridge.S` and `idt_bridge.S` that call a function of the kernel and go back. The
function may do what the calling convention lets it do. When it lets other tasks run, it comes back
through `switch_to_task`, which has not saved all that the convention asks for.
-/

namespace UnnamedOS.Interrupts

open UnnamedOS.Lib UnnamedOS.Lib.X86

/-- The functions that are called. -/
inductive Callee where
  | PIC_sendEOI | PIT_IRQ_handler | unblockirq | PAGE_FAULT | INT0x80C

abbrev Code := List (Instr Callee)

/-- The registers of `UNCLOBBER`, which `RECLOBBER` pops. -/
def UNCLOBBERED : List Reg := [.rax, .rcx, .rdx, .r8, .r9, .r10, .r11, .rsi, .rdi]

def TIMER_INTERRUPT : Code :=
  UNCLOBBERED.map .push ++
    [.push .rdi, .xor .rdi .rdi, .call .PIC_sendEOI, .pop .rdi, .call .PIT_IRQ_handler] ++
    UNCLOBBERED.reverse.map .pop ++ [.iretq]

/-- A handler that wakes the tasks that wait for an interrupt. -/
def unblocking (saved : List Reg) (irq : UInt64) : Code :=
  saved.map .push ++ [.movImm irq .rdi, .call .unblockirq] ++ saved.reverse.map .pop ++ [.iretq]

def PS2_HANDLER : Code := unblocking UNCLOBBERED 1

def PS2_HANDLER12 : Code := unblocking UNCLOBBERED 12

/-- The registers of `FL` and `SER04`. -/
def floppySaved : List Reg := [.rax, .rcx, .rdx, .rsi, .rdi, .r8, .r9, .r10, .r11]

def FL : Code := unblocking floppySaved 6

def SER04 : Code := unblocking floppySaved 4

/-- The registers of `IDT_PF` behind `%rsi`. -/
def faultSaved : List Reg := [.rax, .rcx, .rdx, .rdi, .r8, .r9, .r10, .r11]

def IDT_PF : Code :=
  [.push .rsi, .load 8 .rsp .rsi] ++ faultSaved.map .push ++
    [.readCr2 .rdi, .call .PAGE_FAULT] ++
    faultSaved.reverse.map .pop ++ [.pop .rsi, .addImm 8 .rsp, .iretq]

/-- The registers of `Int0x80Handler`. -/
def syscallSaved : List Reg := [.rcx, .rdx, .r8, .r9, .r10, .r11, .rsi, .rdi]

def Int0x80Handler : Code :=
  [.cli] ++ syscallSaved.map .push ++ [.call .INT0x80C] ++
    syscallSaved.reverse.map .pop ++ [.sti, .iretq]

/-- Without the `xchgw %bx, %bx`, which is for the debugger. -/
def SPIRQ : Code := [.movImm 0x27 .rbx, .iretq]

inductive Handler where
  | timer | ps2 | ps2Second | floppy | serial | pageFault | int0x80 | spurious

/-- Besides the stack pointer, what a function leaves alone, which may switch tasks. `switch_to_task`
pushes `%rbx`, `%rsi`, `%rdi` and `%rbp`. -/
def spared (switches : Bool) : List Reg := if switches then [.rbx, .rbp] else preserved

/-- The registers that another task may have changed then. -/
def unsaved (switches : Bool) : List Reg := if switches then [.r12, .r13, .r14, .r15] else []

namespace Handler

def code : Handler → Code
  | timer => TIMER_INTERRUPT
  | ps2 => PS2_HANDLER
  | ps2Second => PS2_HANDLER12
  | floppy => FL
  | serial => SER04
  | pageFault => IDT_PF
  | int0x80 => Int0x80Handler
  | spurious => SPIRQ

/-- The line that its tasks wait for. -/
def irq : Handler → UInt64
  | ps2 => 1
  | ps2Second => 12
  | floppy => 6
  | serial => 4
  | _ => 0

/-- The processor pushes an error code for a page fault. -/
def error (h : Handler) (e : UInt64) : Option UInt64 :=
  match h with
  | pageFault => some e
  | _ => none

/-- The registers that the interrupted code does not get back. -/
def lost (switches : Bool) : Handler → List Reg
  | int0x80 => .rax :: unsaved switches
  | spurious => [.rbx]
  | _ => unsaved switches

/-- What is in the first of them: the result of the system call, or the number of the interrupt. -/
def Leaves (h : Handler) (result : UInt64) (t : Cpu) : Prop :=
  match h with
  | int0x80 => t.reg .rax = result
  | spurious => t.reg .rbx = 0x27
  | _ => True

end Handler

/-- The arguments of a call for an interrupt of `s`. -/
def Args (s : Cpu) (error irq : UInt64) (t : Cpu) : Callee → Prop
  | .PIC_sendEOI => t.reg .rdi = 0
  | .PIT_IRQ_handler => True
  | .unblockirq => t.reg .rdi = irq
  | .PAGE_FAULT => t.reg .rdi = s.cr2 ∧ t.reg .rsi = error
  | .INT0x80C => ∀ r ∈ [Reg.rdi, .rsi, .rdx, .rcx], t.reg r = s.reg r

/-- With these arguments a function returns and conforms, and `INT0x80C` has a result. -/
structure Returns (switches : Bool) (s : Cpu) (error irq result : UInt64) (hi : ℕ)
    (callee : Callee → Cpu → Cpu → Prop) : Prop where
  ends : ∀ f t, Args s error irq t f → ∃ t', callee f t t'
  conforms : ∀ f t t', Args s error irq t f → callee f t t' → Conforms (spared switches) hi t t'
  result : ∀ t t', callee .INT0x80C t t' → t'.reg .rax = result

variable {s t t' : Cpu} {stack rip cs error irq result : UInt64} {gate switches : Bool} {hi i : ℕ}
  {rs : List Reg} {code : Code} {callee : Callee → Cpu → Cpu → Prop} {Q : Place × Cpu → Prop}
  {f : Callee}

/-! ## The parts of a handler -/

/-- Each register is saved by the handler, or by the functions that it calls, or lost. -/
structure Covers (switches : Bool) (rs lost : List Reg) : Prop where
  all : ∀ r, r ≠ .rsp → r ∉ lost → r ∈ rs ∨ r ∈ spared switches
  rsp : .rsp ∉ rs
  nodup : rs.Nodup

theorem covers_unclobbered (switches : Bool) : Covers switches UNCLOBBERED (unsaved switches) := by
  refine ⟨fun r hr hlost => ?_, by decide, by decide⟩
  cases switches <;> cases r <;> revert hr hlost <;> decide

theorem covers_floppy (switches : Bool) : Covers switches floppySaved (unsaved switches) := by
  refine ⟨fun r hr hlost => ?_, by decide, by decide⟩
  cases switches <;> cases r <;> revert hr hlost <;> decide

theorem not_spared {r : Reg} (hr : r ∉ .rsp :: preserved) (switches : Bool) :
    r ∉ .rsp :: spared switches := by
  cases switches with
  | false => exact hr
  | true => cases r <;> revert hr <;> decide

section Parts

variable {err : Option UInt64} {lost : List Reg}

theorem leads_called (hret : Returns switches s error irq result hi callee) (hhi : stack.toNat ≤ hi)
    (h : Saved (spared switches) s stack rip err hi rs t) (hc : code[i]? = some (.call f))
    (hargs : Args s error irq t f)
    (hnext : ∀ t', callee f t t' → Saved (spared switches) s stack rip err hi rs t' →
      Leads (Step code callee) Q (.inside (i + 1), t')) :
    Leads (Step code callee) Q (.inside i, t) := by
  apply leads_call hc (hret.ends f t hargs)
  intro t' ht'
  exact hnext t' ht' (h.called (hret.conforms f t t' hargs ht') hhi)

/-- The registers are popped, and nothing else is to be done. -/
theorem leads_back (h : Saved (spared switches) s stack rip none hi rs t)
    (hcover : Covers switches rs lost)
    (hc : Here code i (rs.reverse.map .pop ++ [.iretq]))
    (hQ : ∀ c, Resumed s rip stack.toNat hi lost c →
      (∀ r, r ≠ .rsp → r ∉ rs → c.2.reg r = t.reg r) → Q c) :
    Leads (Step code callee) Q (.inside i, t) := by
  obtain ⟨rest, hrest⟩ := hc
  have hpops : Here code i (rs.reverse.map .pop) := ⟨.iretq :: rest, by simpa using hrest⟩
  have hend : code[i + rs.length]? = some .iretq := by
    rw [← List.getElem?_drop, hrest, List.append_assoc, List.getElem?_append_right (by simp)]
    simp
  apply h.leads_pops hpops hcover.rsp hcover.nodup
  intro t' hsaved hpopped hothers
  apply hsaved.leads_iretq lost hend
  · intro r hr hlost
    rcases hcover.all r hr hlost with hmem | hmem
    · exact hpopped r hmem
    · exact hsaved.kept r hmem hr
  · intro c hc hregs
    exact hQ c hc fun r hr hmem => (hregs r hr).trans (hothers r hr hmem)

end Parts

/-- A handler that wakes tasks, with any registers saved that cover. -/
theorem unblocking_resumes (hcover : Covers switches rs (unsaved switches))
    (hret : Returns switches s error irq result hi callee)
    (hroom : 40 + 8 * rs.length ≤ stack.toNat) (hhi : stack.toNat ≤ hi) :
    Leads (Step (unblocking rs irq) callee) (Resumed s rip stack.toNat hi (unsaved switches))
      (.inside 0, s.interrupt stack rip cs none gate) := by
  have hlen : (s.frame rip none).length = 5 := rfl
  have hentry : Saved (spared switches) s stack rip none hi [] (s.interrupt stack rip cs none gate) :=
    .entry (by rw [hlen]; omega)
  have hrsp := hentry.rsp
  rw [hlen, List.length_nil] at hrsp
  have hcode : unblocking rs irq = rs.map .push ++ ([.movImm irq .rdi, .call .unblockirq] ++
      (rs.reverse.map .pop ++ [.iretq])) := by
    rw [unblocking, List.append_assoc, List.append_assoc]
  have hpush : Here (unblocking rs irq) 0 (rs.map .push) := ⟨_, hcode⟩
  have hmid : Here (unblocking rs irq) (0 + rs.length) [.movImm irq .rdi, .call .unblockirq] :=
    .of_append hcode (by rw [List.length_map, Nat.zero_add])
  have hpop : Here (unblocking rs irq) (0 + rs.length + 1 + 1) (rs.reverse.map .pop ++ [.iretq]) := by
    have hback : unblocking rs irq = rs.map .push ++ [.movImm irq .rdi, .call .unblockirq] ++
        (rs.reverse.map .pop ++ [.iretq] ++ []) := by
      rw [hcode, List.append_assoc, List.append_nil]
    exact .of_append hback (by rw [List.length_append, List.length_map, Nat.zero_add]; rfl)
  apply leads_pushes hpush hcover.rsp (by omega)
  intro t hpushed
  have hsaved := hentry.pushes hpushed fun r hr => interrupt_reg fun heq => hcover.rsp (heq ▸ hr)
  apply leads_next hmid.head rfl
  apply leads_called hret hhi (hsaved.set (not_spared (by decide) switches) irq) hmid.tail.head
    (set_self t .rdi irq)
  intro t' _ hsaved'
  exact leads_back hsaved' hcover hpop fun c hc _ => hc

theorem timer_resumes (hret : Returns switches s error irq result hi callee) (hroom : 128 ≤ stack.toNat)
    (hhi : stack.toNat ≤ hi) :
    Leads (Step TIMER_INTERRUPT callee) (Resumed s rip stack.toNat hi (unsaved switches))
      (.inside 0, s.interrupt stack rip cs none gate) := by
  have hlen : (s.frame rip none).length = 5 := rfl
  have hentry : Saved (spared switches) s stack rip none hi [] (s.interrupt stack rip cs none gate) :=
    .entry (by rw [hlen]; omega)
  have hrsp := hentry.rsp
  rw [hlen, List.length_nil] at hrsp
  have hcount : UNCLOBBERED.length = 9 := rfl
  have hmap : Here TIMER_INTERRUPT 0 (UNCLOBBERED.map .push) := ⟨_, rfl⟩
  apply leads_pushes hmap (by decide) (by omega)
  intro t hpushed
  have hsaved := hentry.pushes hpushed fun r hr =>
    interrupt_reg fun heq => (covers_unclobbered switches).rsp (heq ▸ hr)
  have hrsp' := hpushed.rsp
  have hone : Here TIMER_INTERRUPT (0 + UNCLOBBERED.length) ([Reg.rdi].map .push) := ⟨_, rfl⟩
  have hlast : ([Reg.rdi] : List Reg).length = 1 := rfl
  apply leads_pushes hone (by decide) (by omega)
  intro u hpushed'
  have hrdi : ∀ r ∈ [Reg.rdi], t.reg r = s.reg r := by
    intro r hr
    obtain rfl := List.mem_singleton.mp hr
    rw [hpushed.others .rdi (by decide), interrupt_reg (by decide)]
  have hsaved' := hsaved.pushes hpushed' hrdi
  have hxor : Here TIMER_INTERRUPT 10 [.xor .rdi .rdi, .call .PIC_sendEOI, .pop .rdi,
    .call .PIT_IRQ_handler] := ⟨_, rfl⟩
  apply leads_next hxor.head rfl
  have hzero : (u.set .rdi (u.reg .rdi ^^^ u.reg .rdi)).reg .rdi = 0 := by
    rw [set_self, UInt64.xor_self]
  apply leads_called hret hhi (hsaved'.set (not_spared (by decide) switches) _) hxor.tail.head hzero
  intro v _ hv
  apply leads_next hxor.tail.tail.head rfl
  apply leads_called hret hhi (hv.pop (not_spared (by decide) switches)) hxor.tail.tail.tail.head
    trivial
  intro w _ hw
  exact leads_back hw (covers_unclobbered switches) ⟨_, rfl⟩ fun c hc _ => hc

theorem pageFault_resumes (hret : Returns switches s error irq result hi callee)
    (hroom : 128 ≤ stack.toNat)
    (hhi : stack.toNat ≤ hi) :
    Leads (Step IDT_PF callee) (Resumed s rip stack.toNat hi (unsaved switches))
      (.inside 0, s.interrupt stack rip cs (some error) gate) := by
  have hlen : (s.frame rip (some error)).length = 6 := rfl
  have hentry : Saved (spared switches) s stack rip (some error) hi []
    (s.interrupt stack rip cs (some error) gate) :=
    .entry (by rw [hlen]; omega)
  have hrsp := hentry.rsp
  rw [hlen, List.length_nil] at hrsp
  have hone : ([Reg.rsi] : List Reg).length = 1 := rfl
  have hfirst : Here IDT_PF 0 ([Reg.rsi].map .push) := ⟨_, rfl⟩
  apply leads_pushes hfirst (by decide) (by omega)
  intro t hpushed
  have hrsi : ∀ r ∈ [Reg.rsi], (s.interrupt stack rip cs (some error) gate).reg r = s.reg r := by
    intro r hr
    obtain rfl := List.mem_singleton.mp hr
    exact interrupt_reg (by decide)
  have hsaved := hentry.pushes hpushed hrsi
  have hrsp' := hpushed.rsp
  have hlt := stack.toNat_lt
  have hload : Here IDT_PF (0 + ([Reg.rsi] : List Reg).length) [.load 8 .rsp .rsi] := ⟨_, rfl⟩
  apply leads_next hload.head rfl
  have herror : read64 t.mem (t.reg .rsp + 8).toNat = error := by
    have hnat : (t.reg .rsp + 8).toNat = t.rsp.toNat + 8 := toNat_add_eight (by
      change t.rsp.toNat + 8 < _
      omega)
    rw [hnat]
    exact hsaved.frame.2.1
  rw [herror]
  have hset := hsaved.set (r := .rsi) (not_spared (by decide) switches) error
  have hsp : (t.set .rsi error).rsp = t.rsp := set_ne (by decide) error
  have hmany : Here IDT_PF 2 (faultSaved.map .push) := ⟨_, rfl⟩
  have height : faultSaved.length = 8 := rfl
  apply leads_pushes hmany (by decide) (by rw [hsp]; omega)
  intro u hpushed'
  have hregs : ∀ r ∈ faultSaved, (t.set .rsi error).reg r = s.reg r := by
    intro r hr
    have hne : r ≠ .rsi ∧ r ≠ .rsp := by
      constructor
      · rintro rfl
        exact absurd hr (by decide)
      · rintro rfl
        exact absurd hr (by decide)
    rw [set_ne hne.1, hpushed.others r hne.2, interrupt_reg hne.2]
  have hsaved' := hset.pushes hpushed' hregs
  have hcr2 : u.cr2 = s.cr2 := by
    rw [hpushed'.rest.2.2.2]
    exact hpushed.rest.2.2.2
  have hmid : Here IDT_PF 10 [.readCr2 .rdi, .call .PAGE_FAULT] := ⟨_, rfl⟩
  apply leads_next hmid.head rfl
  have hargs : Args s error irq (u.set .rdi u.cr2) .PAGE_FAULT := by
    constructor
    · rw [set_self, hcr2]
    · rw [set_ne (by decide), hpushed'.others .rsi (by decide), set_self]
  apply leads_called hret hhi (hsaved'.set (not_spared (by decide) switches) _) hmid.tail.head hargs
  intro v _ hv
  have hall : Covers switches ([Reg.rsi] ++ faultSaved) (unsaved switches) := by
    refine ⟨fun r hr hlost => ?_, by decide, by decide⟩
    cases switches <;> cases r <;> revert hr hlost <;> decide
  have hback : Here IDT_PF 12 (([Reg.rsi] ++ faultSaved).reverse.map .pop) := ⟨_, rfl⟩
  apply hv.leads_pops hback hall.rsp hall.nodup
  intro w hw hpopped _
  have hadd : Here IDT_PF 21 [.addImm 8 .rsp, .iretq] := ⟨_, rfl⟩
  apply leads_next hadd.head rfl
  apply hw.drop_error.leads_iretq (unsaved switches) hadd.tail.head
  · intro r hr hlost
    rw [set_ne hr]
    rcases hall.all r hr hlost with hmem | hmem
    · exact hpopped r hmem
    · exact hw.kept r hmem hr
  · exact fun c hc _ => hc

theorem int0x80_resumes (hret : Returns switches s error irq result hi callee)
    (hroom : 128 ≤ stack.toNat)
    (hhi : stack.toNat ≤ hi) :
    Leads (Step Int0x80Handler callee)
      (fun c => Resumed s rip stack.toNat hi (.rax :: unsaved switches) c ∧ c.2.reg .rax = result)
      (.inside 0, s.interrupt stack rip cs none gate) := by
  have hlen : (s.frame rip none).length = 5 := rfl
  have hentry : Saved (spared switches) s stack rip none hi [] (s.interrupt stack rip cs none gate) :=
    .entry (by rw [hlen]; omega)
  have hrsp := hentry.rsp
  rw [hlen, List.length_nil] at hrsp
  have hfirst : ∀ r, r ≠ .rsp → (s.interrupt stack rip cs none gate).reg r = s.reg r :=
    fun r hr => interrupt_reg hr
  generalize s.interrupt stack rip cs none gate = u at *
  have hcli : Here Int0x80Handler 0 [.cli] := ⟨_, rfl⟩
  apply leads_next hcli.head rfl
  have hmap : Here Int0x80Handler 1 (syscallSaved.map .push) := ⟨_, rfl⟩
  have hcount : syscallSaved.length = 8 := rfl
  have hroom' : 8 * syscallSaved.length ≤ (u.withFlags (u.flags &&& ~~~0x200)).rsp.toNat := by
    change _ ≤ u.rsp.toNat
    omega
  apply leads_pushes hmap (by decide) hroom'
  intro t hpushed
  have hall : Covers switches syscallSaved (.rax :: unsaved switches) := by
    refine ⟨fun r hr hlost => ?_, by decide, by decide⟩
    cases switches <;> cases r <;> revert hr hlost <;> decide
  have hregs : ∀ r, r ≠ .rsp → t.reg r = s.reg r := by
    intro r hr
    rw [hpushed.others r hr]
    exact hfirst r hr
  have hsaved := (hentry.flags (u.flags &&& ~~~0x200)).pushes hpushed fun r hr =>
    hfirst r fun heq => hall.rsp (heq ▸ hr)
  have hcall : Here Int0x80Handler 9 [.call .INT0x80C] := ⟨_, rfl⟩
  have hargs : Args s error irq t .INT0x80C := by
    intro r hr
    apply hregs
    rintro rfl
    exact absurd hr (by decide)
  apply leads_called hret hhi hsaved hcall.head hargs
  intro w hw hsaved'
  have hback : Here Int0x80Handler 10 (syscallSaved.reverse.map .pop) := ⟨_, rfl⟩
  apply hsaved'.leads_pops hback hall.rsp hall.nodup
  intro v hv hpopped hothers
  have hend : Here Int0x80Handler 18 [.sti, .iretq] := ⟨_, rfl⟩
  apply leads_next hend.head rfl
  apply (hv.flags _).leads_iretq (.rax :: unsaved switches) hend.tail.head
  · intro r hr hlost
    rcases hall.all r hr hlost with hmem | hmem
    · exact hpopped r hmem
    · exact hv.kept r hmem hr
  · intro c hc hkept
    refine ⟨hc, ?_⟩
    rw [hkept .rax (by decide), ← hret.result t w hw]
    exact hothers .rax (by decide) (by decide)

theorem spurious_resumes (hroom : 128 ≤ stack.toNat) :
    Leads (Step SPIRQ callee) (fun c => Resumed s rip stack.toNat hi [.rbx] c ∧ c.2.reg .rbx = 0x27)
      (.inside 0, s.interrupt stack rip cs none gate) := by
  have hlen : (s.frame rip none).length = 5 := rfl
  have hsaved : Saved [] s stack rip none hi [] (s.interrupt stack rip cs none gate) :=
    .entry (by rw [hlen]; omega)
  have hregs : ∀ r, r ≠ .rsp → (s.interrupt stack rip cs none gate).reg r = s.reg r :=
    fun r hr => interrupt_reg hr
  generalize s.interrupt stack rip cs none gate = u at *
  have hcode : Here SPIRQ 0 [.movImm 0x27 .rbx, .iretq] := ⟨_, rfl⟩
  apply leads_next hcode.head rfl
  apply leads_next hcode.tail.head rfl
  have hrsp : (u.set .rbx 0x27).rsp = u.rsp := set_ne (by decide) _
  have hframe : Frame (u.set .rbx 0x27).mem (u.set .rbx 0x27).rsp.toNat (s.frame rip none) := by
    rw [hrsp]
    exact hsaved.frame
  rw [iretq_frame hframe]
  have hkept : ∀ r, r ≠ .rsp → ((u.set .rbx 0x27).set .rsp s.rsp).reg r = (u.set .rbx 0x27).reg r :=
    fun r hr => set_ne hr _
  apply Leads.done
  refine ⟨⟨rfl, fun r hr => ?_, rfl, ⟨rfl, rfl⟩, hsaved.above⟩, ?_⟩
  · rw [List.mem_singleton] at hr
    by_cases hsp : r = .rsp
    · subst hsp
      exact set_self (u.set .rbx 0x27) .rsp _
    · exact (hkept r hsp).trans ((set_ne hr _).trans (hregs r hsp))
  · exact (hkept .rbx (by decide)).trans (set_self u .rbx _)

/-- An interrupt gives back all that it finds, except for the result of a system call, for `%r12` to
`%r15` when tasks are switched, and for `%rbx` when it is a spurious one. -/
theorem handlers_resume (h : Handler)
    (hret : Returns switches s error h.irq result hi callee) (hroom : 128 ≤ stack.toNat)
    (hhi : stack.toNat ≤ hi) :
    Leads (Step h.code callee)
      (fun c => Resumed s rip stack.toNat hi (h.lost switches) c ∧ h.Leaves result c.2)
      (.inside 0, s.interrupt stack rip cs (h.error error) gate) := by
  have hroom' : 40 + 8 * 9 ≤ stack.toNat := by omega
  cases h with
  | timer => exact (timer_resumes hret hroom hhi).mono fun _ hc => ⟨hc, trivial⟩
  | ps2 | ps2Second =>
      exact (unblocking_resumes (covers_unclobbered switches) hret hroom' hhi).mono fun _ hc =>
        ⟨hc, trivial⟩
  | floppy | serial =>
      exact (unblocking_resumes (covers_floppy switches) hret hroom' hhi).mono fun _ hc => ⟨hc, trivial⟩
  | pageFault => exact (pageFault_resumes hret hroom hhi).mono fun _ hc => ⟨hc, trivial⟩
  | int0x80 => exact int0x80_resumes hret hroom hhi
  | spurious => exact spurious_resumes hroom

/-- A task that has put the number of a system call into `%rax`. -/
def caller : Cpu where
  reg r := if r = .rax then 3 else if r = .rsp then 0x7000 else 1
  flags := 0x202
  cs := 0x1B
  ss := 0x23
  cr2 := 0
  mem _ := 0

/-- Another task has run in between, and has used `%r12`. The result is 5. -/
def called (t : Cpu) : Cpu := (t.set .rax 5).set .r12 9

theorem handlers_resume_int0x80 :
    Leads (Step Int0x80Handler fun _ t t' => t' = called t)
      (fun c => Resumed caller 0x1234 0x1000 0x1000 [.rax, .r12, .r13, .r14, .r15] c ∧ c.2.reg .rax = 5)
      (.inside 0, caller.interrupt 0x1000 0x1234 0x28 none true) := by
  have hret : Returns true caller 0 Handler.int0x80.irq 5 0x1000 fun _ t t' => t' = called t := by
    constructor
    case ends => exact fun _ _ _ => ⟨_, rfl⟩
    case conforms =>
      intro f t t' _ ht
      subst ht
      constructor
      · intro r hr
        have hne : r ≠ .r12 ∧ r ≠ .rax := by
          constructor
          · exact fun heq => absurd (heq ▸ hr) (by decide)
          · exact fun heq => absurd (heq ▸ hr) (by decide)
        rw [called, set_ne hne.1, set_ne hne.2]
      · exact fun _ _ _ => rfl
    case result =>
      intro t t' ht
      subst ht
      rw [called, set_ne (by decide), set_self]
  have hroom : 128 ≤ (0x1000 : UInt64).toNat := by decide
  exact handlers_resume .int0x80 hret hroom le_rfl

end UnnamedOS.Interrupts
