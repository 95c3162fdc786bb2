import UnnamedOS.Lib.Quads
import UnnamedOS.Lib.Leads

/-!
# A part of the x86-64

The instructions of routines that save registers, switch stacks and return. A routine is a list of
them, and a jump goes to a place in the list. What a called function does is a parameter, as it is
written in another language. Of the flags only the zero flag is set by a comparison.
-/

namespace UnnamedOS.Lib.X86

inductive Reg where
  | rax | rcx | rdx | rbx | rsp | rbp | rsi | rdi | r8 | r9 | r10 | r11 | r12 | r13 | r14 | r15
  deriving DecidableEq

structure Cpu where
  reg : Reg → UInt64
  flags : UInt64
  cs : UInt64
  ss : UInt64
  cr2 : UInt64
  mem : ℕ → UInt8

/-- The operands stand in the order of the AT&T syntax. -/
inductive Instr (φ : Type) where
  | push (r : Reg)
  | pop (r : Reg)
  | mov (src dst : Reg)
  | movImm (imm : UInt64) (dst : Reg)
  | load (disp : UInt64) (base dst : Reg)
  | store (src : Reg) (disp : UInt64) (base : Reg)
  | storeImm (imm disp : UInt64) (base : Reg)
  /-- The byte goes to the low byte of the register. -/
  | loadByte (disp : UInt64) (base dst : Reg)
  | storeByte (imm : UInt8) (disp : UInt64) (base : Reg)
  | addImm (imm : UInt64) (dst : Reg)
  | xor (src dst : Reg)
  | readCr2 (dst : Reg)
  | cli
  | sti
  | cmp (src dst : Reg)
  | cmpImm (imm : UInt64) (dst : Reg)
  | cmpByte (imm : UInt8) (dst : Reg)
  | je (target : ℕ)
  | jne (target : ℕ)
  | jmp (target : ℕ)
  | call (f : φ)
  | ret
  | iretq

/-- Where the processor is: in the routine, or at an address to which it has returned. -/
inductive Place where
  | inside (i : ℕ)
  | outside (rip : UInt64)

namespace Cpu

variable (s : Cpu)

def rsp : UInt64 := s.reg .rsp

def set (r : Reg) (v : UInt64) : Cpu := { s with reg := Function.update s.reg r v }

def write (a : UInt64) (v : UInt64) : Cpu := { s with mem := write64 s.mem a.toNat v }

def withFlags (v : UInt64) : Cpu := { s with flags := v }

def push (r : Reg) : Cpu := (s.set .rsp (s.rsp - 8)).write (s.rsp - 8) (s.reg r)

def pop (r : Reg) : Cpu := (s.set .rsp (s.rsp + 8)).set r (read64 s.mem s.rsp.toNat)

/-- The zero flag is bit 6, and the interrupt flag bit 9. -/
def setZero (b : Bool) : Cpu :=
  s.withFlags (if b then s.flags ||| 0x40 else s.flags &&& ~~~0x40)

def zero : Bool := s.flags &&& 0x40 ≠ 0

end Cpu

/-- The end of a routine that has been called. -/
def Cpu.ret (s : Cpu) : Place × Cpu := (.outside (read64 s.mem s.rsp.toNat), s.set .rsp (s.rsp + 8))

/-- The end of one that has interrupted another. -/
def Cpu.iretq (s : Cpu) : Place × Cpu :=
  let a := s.rsp.toNat
  (.outside (read64 s.mem a), { s.set .rsp (read64 s.mem (a + 24)) with
    cs := read64 s.mem (a + 8)
    flags := read64 s.mem (a + 16)
    ss := read64 s.mem (a + 32) })

/-- What an interrupt leaves on the stack for `iretq`, below an error code if there is one. -/
def Cpu.frame (s : Cpu) (rip : UInt64) (error : Option UInt64) : List UInt64 :=
  error.toList ++ [rip, s.cs, s.flags, s.rsp, s.ss]

/-- An interrupt with the next instruction at `rip`: the processor goes to the stack given and the
code segment of the gate. An interrupt gate clears the interrupt flag. -/
def Cpu.interrupt (s : Cpu) (stack rip cs : UInt64) (error : Option UInt64) (gate : Bool) : Cpu :=
  let a := stack - .ofNat (8 * (s.frame rip error).length)
  { s.set .rsp a with
    cs := cs
    flags := if gate then s.flags &&& ~~~0x200 else s.flags
    mem := putFrame s.mem a.toNat (s.frame rip error) }

variable {φ : Type}

/-- One instruction at place `i`, but for a call. -/
def Instr.next (i : ℕ) (s : Cpu) : Instr φ → Option (Place × Cpu)
  | push r => some (.inside (i + 1), s.push r)
  | pop r => some (.inside (i + 1), s.pop r)
  | mov src dst => some (.inside (i + 1), s.set dst (s.reg src))
  | movImm imm dst => some (.inside (i + 1), s.set dst imm)
  | load disp base dst =>
    some (.inside (i + 1), s.set dst (read64 s.mem (s.reg base + disp).toNat))
  | store src disp base => some (.inside (i + 1), s.write (s.reg base + disp) (s.reg src))
  | storeImm imm disp base => some (.inside (i + 1), s.write (s.reg base + disp) imm)
  | loadByte disp base dst => some (.inside (i + 1),
      s.set dst (s.reg dst &&& ~~~0xFF ||| (s.mem (s.reg base + disp).toNat).toUInt64))
  | storeByte imm disp base => some (.inside (i + 1),
      { s with mem := Function.update s.mem (s.reg base + disp).toNat imm })
  | addImm imm dst => some (.inside (i + 1), s.set dst (s.reg dst + imm))
  | xor src dst => some (.inside (i + 1), s.set dst (s.reg dst ^^^ s.reg src))
  | readCr2 dst => some (.inside (i + 1), s.set dst s.cr2)
  | cli => some (.inside (i + 1), s.withFlags (s.flags &&& ~~~0x200))
  | sti => some (.inside (i + 1), s.withFlags (s.flags ||| 0x200))
  | cmp src dst => some (.inside (i + 1), s.setZero (s.reg dst = s.reg src))
  | cmpImm imm dst => some (.inside (i + 1), s.setZero (s.reg dst = imm))
  | cmpByte imm dst => some (.inside (i + 1), s.setZero ((s.reg dst).toUInt8 = imm))
  | je target => some (.inside (if s.zero then target else i + 1), s)
  | jne target => some (.inside (if s.zero then i + 1 else target), s)
  | jmp target => some (.inside target, s)
  | ret => some s.ret
  | iretq => some s.iretq
  | call _ => none

section Run

variable (code : List (Instr φ)) (callee : φ → Cpu → Cpu → Prop)

inductive Step : Place × Cpu → Place × Cpu → Prop
  | next {i : ℕ} {ins : Instr φ} {s : Cpu} {c : Place × Cpu} :
      code[i]? = some ins → ins.next i s = some c → Step (.inside i, s) c
  | call {i : ℕ} {f : φ} {s s' : Cpu} :
      code[i]? = some (.call f) → callee f s s' → Step (.inside i, s) (.inside (i + 1), s')

end Run

variable {code : List (Instr φ)} {callee : φ → Cpu → Cpu → Prop} {Q : Place × Cpu → Prop} {i : ℕ}
  {ins : Instr φ} {c : Place × Cpu} {f : φ} {s s' t : Cpu} {r : Reg} {rs : List Reg}
  {vs : List UInt64}

/-! ## One instruction -/

theorem leads_next (hc : code[i]? = some ins) (hx : ins.next i s = some c)
    (h : Leads (Step code callee) Q c) : Leads (Step code callee) Q (.inside i, s) := by
  refine .next (.next hc hx) (fun t ht => ?_) h
  cases ht with
  | next hc' hx' =>
      obtain rfl := Option.some.inj (hc'.symm.trans hc)
      exact Option.some.inj (hx'.symm.trans hx)
  | call hc' _ =>
      obtain rfl := Option.some.inj (hc'.symm.trans hc)
      cases hx

/-- A call ends, and all its ends are fine. -/
theorem leads_call (hc : code[i]? = some (.call f)) (hex : ∃ s', callee f s s')
    (h : ∀ s', callee f s s' → Leads (Step code callee) Q (.inside (i + 1), s')) :
    Leads (Step code callee) Q (.inside i, s) := by
  obtain ⟨s', hs'⟩ := hex
  refine .step ⟨_, .call hc hs'⟩ fun t ht => ?_
  cases ht with
  | next hc' hx' =>
      obtain rfl := Option.some.inj (hc'.symm.trans hc)
      cases hx'
  | call hc' hcall =>
      cases Option.some.inj (hc'.symm.trans hc)
      exact h _ hcall

/-! ## Registers -/

@[simp] theorem set_self (s : Cpu) (r : Reg) (v : UInt64) : (s.set r v).reg r = v :=
  Function.update_self ..

theorem set_ne {r' : Reg} (h : r' ≠ r) (v : UInt64) : (s.set r v).reg r' = s.reg r' :=
  Function.update_of_ne h ..

@[simp] theorem setZero_zero (s : Cpu) (b : Bool) : (s.setZero b).zero = b := by
  cases b with
  | false =>
      have hclear : s.flags &&& ~~~0x40 &&& 0x40 = 0 := by
        rw [UInt64.and_assoc, show ~~~0x40 &&& 0x40 = (0 : UInt64) by decide, UInt64.and_zero]
      exact decide_eq_false fun hne => hne hclear
  | true =>
      have hset : (s.flags ||| 0x40) &&& 0x40 = 0x40 := by
        apply UInt64.toNat_inj.mp
        apply Nat.eq_of_testBit_eq
        intro k
        rw [UInt64.toNat_and, UInt64.toNat_or, Nat.testBit_and, Nat.testBit_or]
        cases Nat.testBit s.flags.toNat k <;> simp
      have hne : (s.flags ||| 0x40) &&& 0x40 ≠ 0 := by
        rw [hset]
        decide
      exact decide_eq_true hne

/-- Only the low byte has been loaded. -/
theorem toUInt8_loadByte (v : UInt64) (b : UInt8) :
    (v &&& ~~~0xFF ||| b.toUInt64).toUInt8 = b := by
  have hclear : (v &&& ~~~0xFF).toUInt8 = 0 := by
    rw [UInt64.toUInt8_and, show (~~~0xFF : UInt64).toUInt8 = 0 by decide, UInt8.and_zero]
  rw [UInt64.toUInt8_or, hclear, UInt8.zero_or, UInt8.toUInt8_toUInt64]

theorem toNat_sub_eight {a : UInt64} (h : 8 ≤ a.toNat) : (a - 8).toNat = a.toNat - 8 :=
  UInt64.toNat_sub_of_le _ _ (UInt64.le_iff_toNat_le.mpr h)

theorem toNat_add_eight {a : UInt64} (h : a.toNat + 8 < 2 ^ 64) : (a + 8).toNat = a.toNat + 8 := by
  rw [UInt64.toNat_add]
  exact Nat.mod_eq_of_lt h

/-- The registers are the same, but for those listed. -/
def Keeps (rs : List Reg) (s s' : Cpu) : Prop := ∀ r, r ∉ rs → s'.reg r = s.reg r

theorem Keeps.of_set (s : Cpu) (r : Reg) (v : UInt64) : Keeps [r] s (s.set r v) := by
  intro q hq
  exact set_ne (List.mem_singleton.not.mp hq) v

theorem Keeps.of_reg (h : s'.reg = s.reg) : Keeps rs s s' := fun r _ => congrFun h r

theorem Keeps.mono {us : List Reg} (h : Keeps rs s s') (hsub : rs ⊆ us) : Keeps us s s' :=
  fun r hr => h r fun hmem => hr (hsub hmem)

theorem Keeps.trans (h : Keeps rs s s') (h' : Keeps rs s' t) : Keeps rs s t :=
  fun r hr => (h' r hr).trans (h r hr)

section Compare

variable {b : Bool} {target : ℕ}

/-- A comparison and a jump that is taken on equality. -/
theorem leads_je (hc : code[i]? = some ins) (hx : ins.next i s = some (.inside (i + 1), s.setZero b))
    (hj : code[i + 1]? = some (.je target))
    (h : ∀ s', s'.reg = s.reg → s'.mem = s.mem →
      Leads (Step code callee) Q (.inside (if b then target else i + 2), s')) :
    Leads (Step code callee) Q (.inside i, s) := by
  apply leads_next hc hx
  apply leads_next hj rfl
  rw [setZero_zero]
  exact h _ rfl rfl

theorem leads_jne (hc : code[i]? = some ins) (hx : ins.next i s = some (.inside (i + 1), s.setZero b))
    (hj : code[i + 1]? = some (.jne target))
    (h : ∀ s', s'.reg = s.reg → s'.mem = s.mem →
      Leads (Step code callee) Q (.inside (if b then i + 2 else target), s')) :
    Leads (Step code callee) Q (.inside i, s) := by
  apply leads_next hc hx
  apply leads_next hj rfl
  rw [setZero_zero]
  exact h _ rfl rfl

end Compare

/-! ## Registers saved on the stack -/

/-- The registers have been pushed. -/
structure Pushed (s s' : Cpu) (rs : List Reg) : Prop where
  rsp : s'.rsp.toNat + 8 * rs.length = s.rsp.toNat
  frame : Frame s'.mem s'.rsp.toNat (rs.map s.reg).reverse
  others : ∀ r, r ≠ .rsp → s'.reg r = s.reg r
  above : ∀ k, s.rsp.toNat ≤ k → s'.mem k = s.mem k
  below : ∀ k, k < s'.rsp.toNat → s'.mem k = s.mem k
  rest : s'.flags = s.flags ∧ s'.cs = s.cs ∧ s'.ss = s.ss ∧ s'.cr2 = s.cr2

theorem push_mem (s : Cpu) (r : Reg) :
    (s.push r).mem = write64 s.mem (s.rsp - 8).toNat (s.reg r) := rfl

theorem push_rsp (s : Cpu) (r : Reg) : (s.push r).rsp = s.rsp - 8 := set_self s .rsp _

theorem Pushed.none (s : Cpu) : Pushed s s [] :=
  ⟨rfl, trivial, fun _ _ => rfl, fun _ _ => rfl, fun _ _ => rfl, rfl, rfl, rfl, rfl⟩

theorem Pushed.push (h : Pushed s s' rs) (hr : r ≠ .rsp) (hroom : 8 ≤ s'.rsp.toNat) :
    Pushed s (s'.push r) (rs ++ [r]) := by
  have hrsp : (s'.push r).rsp.toNat = s'.rsp.toNat - 8 := by rw [push_rsp, toNat_sub_eight hroom]
  have hlen := h.rsp
  constructor
  case rsp =>
    rw [hrsp, List.length_append, List.length_singleton]
    omega
  case frame =>
    rw [List.map_append, List.reverse_append, push_mem, hrsp, toNat_sub_eight hroom, h.others r hr]
    exact h.frame.push (by omega)
  case others =>
    intro r' hr'
    exact (set_ne hr' _).trans (h.others r' hr')
  case above =>
    intro k hk
    rw [push_mem, toNat_sub_eight hroom, write64_apart (by omega)]
    exact h.above k hk
  case below =>
    intro k hk
    rw [hrsp] at hk
    rw [push_mem, toNat_sub_eight hroom, write64_apart (by omega)]
    exact h.below k (by omega)
  case rest => exact h.rest

/-- The instructions of `block` stand from place `i` on. -/
def Here (code : List (Instr φ)) (i : ℕ) (block : List (Instr φ)) : Prop :=
  ∃ rest, code.drop i = block ++ rest

theorem Here.of_append {before block rest : List (Instr φ)} (h : code = before ++ (block ++ rest))
    (hi : before.length = i) : Here code i block :=
  ⟨rest, by rw [h, ← hi, List.drop_left]⟩

theorem Here.head {block : List (Instr φ)} (h : Here code i (ins :: block)) : code[i]? = some ins := by
  obtain ⟨rest, hrest⟩ := h
  rw [← Nat.add_zero i, ← List.getElem?_drop, hrest]
  rfl

theorem Here.tail {block : List (Instr φ)} (h : Here code i (ins :: block)) :
    Here code (i + 1) block := by
  obtain ⟨rest, hrest⟩ := h
  refine ⟨rest, ?_⟩
  rw [← List.tail_drop, hrest]
  rfl

theorem leads_pushes_from {done : List Reg} (hp : Pushed s s' done)
    (hc : Here code i (rs.map .push)) (hrs : .rsp ∉ rs) (hroom : 8 * rs.length ≤ s'.rsp.toNat)
    (h : ∀ t, Pushed s t (done ++ rs) → Leads (Step code callee) Q (.inside (i + rs.length), t)) :
    Leads (Step code callee) Q (.inside i, s') := by
  induction rs generalizing done s' i with
  | nil =>
      apply h s'
      rwa [List.append_nil]
  | cons r rs ih =>
      rw [List.mem_cons, not_or] at hrs
      rw [List.length_cons] at hroom h
      have hroom' : 8 ≤ s'.rsp.toNat := by omega
      apply leads_next hc.head rfl
      apply ih (hp.push (Ne.symm hrs.1) hroom') hc.tail hrs.2
      · rw [push_rsp, toNat_sub_eight hroom']
        omega
      · intro t ht
        rw [List.append_assoc] at ht
        have hnext := h t ht
        rwa [Nat.add_comm rs.length 1, ← Nat.add_assoc] at hnext

/-- A block of pushes. -/
theorem leads_pushes (hc : Here code i (rs.map .push)) (hrs : .rsp ∉ rs)
    (hroom : 8 * rs.length ≤ s.rsp.toNat)
    (h : ∀ s', Pushed s s' rs → Leads (Step code callee) Q (.inside (i + rs.length), s')) :
    Leads (Step code callee) Q (.inside i, s) :=
  leads_pushes_from (.none s) hc hrs hroom h

/-- The quads of a frame have been popped. -/
structure Popped (s s' : Cpu) (rs : List Reg) (vs : List UInt64) : Prop where
  rsp : s'.rsp.toNat = s.rsp.toNat + 8 * rs.length
  popped : rs.map s'.reg = vs
  others : ∀ r, r ≠ .rsp → r ∉ rs → s'.reg r = s.reg r
  mem : s'.mem = s.mem
  rest : s'.flags = s.flags ∧ s'.cs = s.cs ∧ s'.ss = s.ss ∧ s'.cr2 = s.cr2

theorem pop_reg_self (s : Cpu) (r : Reg) : (s.pop r).reg r = read64 s.mem s.rsp.toNat := set_self ..

theorem pop_rsp (h : r ≠ .rsp) : (s.pop r).rsp = s.rsp + 8 := by
  rw [Cpu.rsp, Cpu.pop, set_ne (Ne.symm h), set_self]

theorem pop_reg {r' : Reg} (h : r' ≠ .rsp) (hr : r' ≠ r) : (s.pop r).reg r' = s.reg r' := by
  rw [Cpu.pop, set_ne hr, set_ne h]

/-- A block of pops, no register twice. -/
theorem leads_pops (hc : Here code i (rs.map .pop)) (hrs : .rsp ∉ rs) (hnodup : rs.Nodup)
    (hframe : Frame s.mem s.rsp.toNat vs) (hlen : vs.length = rs.length)
    (hroom : s.rsp.toNat + 8 * rs.length < 2 ^ 64)
    (h : ∀ s', Popped s s' rs vs → Leads (Step code callee) Q (.inside (i + rs.length), s')) :
    Leads (Step code callee) Q (.inside i, s) := by
  induction rs generalizing s vs i with
  | nil =>
      obtain rfl := List.length_eq_zero_iff.mp hlen
      exact h s ⟨rfl, rfl, fun _ _ _ => rfl, rfl, rfl, rfl, rfl, rfl⟩
  | cons r rs ih =>
      obtain ⟨v, vs, rfl⟩ := List.exists_cons_of_length_eq_add_one hlen
      rw [List.mem_cons, not_or] at hrs
      rw [List.nodup_cons] at hnodup
      rw [List.length_cons, List.length_cons] at hlen
      rw [List.length_cons] at hroom
      have hr : r ≠ .rsp := Ne.symm hrs.1
      have hrsp : (s.pop r).rsp.toNat = s.rsp.toNat + 8 := by
        rw [pop_rsp hr, toNat_add_eight (by omega)]
      apply leads_next hc.head rfl
      have hrest : Frame (s.pop r).mem (s.pop r).rsp.toNat vs := by
        rw [hrsp]
        exact hframe.2
      apply ih hc.tail hrs.2 hnodup.2 hrest
      · omega
      · rw [hrsp]
        omega
      · intro t ht
        have hnext := h t ?_
        · rwa [List.length_cons, Nat.add_comm rs.length 1, ← Nat.add_assoc] at hnext
        constructor
        case rsp =>
          rw [ht.rsp, hrsp, List.length_cons]
          omega
        case popped =>
          rw [List.map_cons, ht.popped, ht.others r hr hnodup.1, pop_reg_self, hframe.1]
        case others =>
          intro r' hr' hnot
          rw [List.mem_cons, not_or] at hnot
          rw [ht.others r' hr' hnot.2, pop_reg hr' hnot.1]
        case mem => exact ht.mem
        case rest => exact ht.rest

/-! ## Interrupts -/

theorem iretq_frame {rip cs flags sp ss : UInt64}
    (h : Frame s.mem s.rsp.toNat [rip, cs, flags, sp, ss]) :
    s.iretq = (.outside rip, { s.set .rsp sp with cs := cs, flags := flags, ss := ss }) := by
  obtain ⟨hrip, hcs, hflags, hsp, hss, -⟩ := h
  rw [Nat.add_assoc] at hflags
  rw [Nat.add_assoc, Nat.add_assoc] at hsp
  rw [Nat.add_assoc, Nat.add_assoc, Nat.add_assoc] at hss
  rw [Cpu.iretq]
  dsimp only
  rw [hrip, hcs, hflags, hsp, hss]

section Interrupt

variable {stack rip cs : UInt64} {error : Option UInt64} {gate : Bool} {k : ℕ}

theorem interrupt_rsp (cs : UInt64) (gate : Bool)
    (hroom : 8 * (s.frame rip error).length ≤ stack.toNat) :
    (s.interrupt stack rip cs error gate).rsp.toNat + 8 * (s.frame rip error).length =
      stack.toNat := by
  have hnat : (UInt64.ofNat (8 * (s.frame rip error).length)).toNat =
      8 * (s.frame rip error).length :=
    UInt64.toNat_ofNat_of_lt' (hroom.trans_lt stack.toNat_lt)
  have hle : UInt64.ofNat (8 * (s.frame rip error).length) ≤ stack := by
    rwa [UInt64.le_iff_toNat_le, hnat]
  have hrsp : (s.interrupt stack rip cs error gate).rsp =
      stack - .ofNat (8 * (s.frame rip error).length) := set_self s .rsp _
  rw [hrsp, UInt64.toNat_sub_of_le _ _ hle, hnat]
  omega

theorem interrupt_frame (s : Cpu) (stack rip cs : UInt64) (error : Option UInt64) (gate : Bool) :
    Frame (s.interrupt stack rip cs error gate).mem (s.interrupt stack rip cs error gate).rsp.toNat
      (s.frame rip error) := by
  have hrsp : (s.interrupt stack rip cs error gate).rsp =
      stack - .ofNat (8 * (s.frame rip error).length) := set_self s .rsp _
  rw [hrsp]
  exact frame_putFrame ..

theorem interrupt_reg (h : r ≠ .rsp) : (s.interrupt stack rip cs error gate).reg r = s.reg r :=
  set_ne h _

theorem interrupt_above (hroom : 8 * (s.frame rip error).length ≤ stack.toNat)
    (hk : stack.toNat ≤ k) : (s.interrupt stack rip cs error gate).mem k = s.mem k := by
  have hrsp := interrupt_rsp cs gate hroom
  have hself : (s.interrupt stack rip cs error gate).rsp =
      stack - .ofNat (8 * (s.frame rip error).length) := set_self s .rsp _
  rw [hself] at hrsp
  exact putFrame_apart (by omega)

end Interrupt

end UnnamedOS.Lib.X86
