import Mathlib.Data.List.Nodup
import UnnamedOS.Lib.X86

/-!
# Handlers that save registers

An interrupt handler pushes registers, calls functions, pops the registers and goes back. `Saved`
holds from the interrupt to the return, whatever the functions do within the calling convention.
-/

namespace UnnamedOS.Lib.X86

/-- Besides the stack pointer, the registers that a called function has to preserve. -/
def preserved : List Reg := [.rbx, .rbp, .r12, .r13, .r14, .r15]

/-- What a called function leaves alone: the stack pointer, the registers `spared`, and its caller's
stack up to `hi`. -/
structure Conforms (spared : List Reg) (hi : ℕ) (s s' : Cpu) : Prop where
  kept : ∀ r ∈ .rsp :: spared, s'.reg r = s.reg r
  stack : ∀ k, s.rsp.toNat ≤ k → k < hi → s'.mem k = s.mem k

/-- The interrupted code goes on at `rip` with what it had, but for the registers `lost`. -/
structure Resumed (s : Cpu) (rip : UInt64) (lo hi : ℕ) (lost : List Reg) (c : Place × Cpu) :
    Prop where
  rip : c.1 = .outside rip
  regs : ∀ r, r ∉ lost → c.2.reg r = s.reg r
  flags : c.2.flags = s.flags
  segments : c.2.cs = s.cs ∧ c.2.ss = s.ss
  stack : ∀ k, lo ≤ k → k < hi → c.2.mem k = s.mem k

/-- In a handler for an interrupt of `s`, with the registers `rs` pushed below what the processor has
saved. -/
structure Saved (spared : List Reg) (s : Cpu) (stack rip : UInt64) (error : Option UInt64) (hi : ℕ)
    (rs : List Reg) (t : Cpu) : Prop where
  rsp : t.rsp.toNat + 8 * rs.length + 8 * (s.frame rip error).length = stack.toNat
  frame : Frame t.mem t.rsp.toNat ((rs.map s.reg).reverse ++ s.frame rip error)
  kept : ∀ r ∈ spared, r ≠ .rsp → t.reg r = s.reg r
  above : ∀ k, stack.toNat ≤ k → k < hi → t.mem k = s.mem k

variable {φ : Type} {code : List (Instr φ)} {callee : φ → Cpu → Cpu → Prop} {Q : Place × Cpu → Prop}
  {s t t' : Cpu} {stack rip cs v : UInt64} {error : Option UInt64} {gate : Bool} {hi i : ℕ}
  {r : Reg} {rs rs' lost spared : List Reg}

namespace Saved

theorem entry (hroom : 8 * (s.frame rip error).length ≤ stack.toNat) :
    Saved spared s stack rip error hi [] (s.interrupt stack rip cs error gate) where
  rsp := interrupt_rsp cs gate hroom
  frame := interrupt_frame s stack rip cs error gate
  kept _ _ hr := interrupt_reg hr
  above _ hk _ := interrupt_above hroom hk

theorem frame_length (s : Cpu) (rip : UInt64) (error : Option UInt64) (rs : List Reg) :
    ((rs.map s.reg).reverse ++ s.frame rip error).length =
      rs.length + (s.frame rip error).length := by
  rw [List.length_append, List.length_reverse, List.length_map]

/-- More registers, as they were when the interrupt came. -/
theorem pushes (h : Saved spared s stack rip error hi rs t) (hp : Pushed t t' rs')
    (hrs : ∀ r ∈ rs', t.reg r = s.reg r) : Saved spared s stack rip error hi (rs ++ rs') t' := by
  have hrsp := h.rsp
  have hrsp' := hp.rsp
  constructor
  case rsp =>
    rw [List.length_append]
    omega
  case frame =>
    have hmap : rs'.map t.reg = rs'.map s.reg := List.map_congr_left hrs
    rw [List.map_append, List.reverse_append, List.append_assoc, frame_append, ← hmap]
    refine ⟨hp.frame, ?_⟩
    rw [List.length_reverse, List.length_map, hrsp']
    exact h.frame.congr fun k hk _ => hp.above k hk
  case kept =>
    intro r hr hsp
    rw [hp.others r hsp]
    exact h.kept r hr hsp
  case above =>
    intro k hk hk'
    rw [hp.above k (by omega)]
    exact h.above k hk hk'

/-- A call in between. -/
theorem called (h : Saved spared s stack rip error hi rs t) (hc : Conforms spared hi t t')
    (hhi : stack.toNat ≤ hi) : Saved spared s stack rip error hi rs t' := by
  have hrsp : t'.rsp = t.rsp := hc.kept .rsp List.mem_cons_self
  have hbase := h.rsp
  constructor
  case rsp =>
    rw [hrsp]
    exact hbase
  case frame =>
    rw [hrsp]
    refine h.frame.congr fun k hk hk' => hc.stack k hk ?_
    rw [frame_length] at hk'
    omega
  case kept =>
    intro r hr hsp
    rw [hc.kept r (List.mem_cons_of_mem _ hr)]
    exact h.kept r hr hsp
  case above =>
    intro k hk hk'
    rw [hc.stack k (by omega) hk']
    exact h.above k hk hk'

/-- Another value in a register that need not be preserved. -/
theorem set (h : Saved spared s stack rip error hi rs t) (hr : r ∉ .rsp :: spared) (v : UInt64) :
    Saved spared s stack rip error hi rs (t.set r v) := by
  rw [List.mem_cons, not_or] at hr
  have hrsp : (t.set r v).rsp = t.rsp := set_ne (Ne.symm hr.1) v
  refine ⟨by rw [hrsp]; exact h.rsp, by rw [hrsp]; exact h.frame, fun r' hr' hsp => ?_, h.above⟩
  have hne : r' ≠ r := by
    rintro rfl
    exact hr.2 hr'
  rw [set_ne hne]
  exact h.kept r' hr' hsp

/-- Other flags. -/
theorem flags (h : Saved spared s stack rip error hi rs t) (v : UInt64) :
    Saved spared s stack rip error hi rs (t.withFlags v) := ⟨h.rsp, h.frame, h.kept, h.above⟩

/-- The registers are popped. -/
theorem leads_pops (h : Saved spared s stack rip error hi rs t) (hc : Here code i (rs.reverse.map .pop))
    (hrs : .rsp ∉ rs) (hnodup : rs.Nodup)
    (hnext : ∀ t', Saved spared s stack rip error hi [] t' → (∀ r ∈ rs, t'.reg r = s.reg r) →
      (∀ r, r ≠ .rsp → r ∉ rs → t'.reg r = t.reg r) →
        Leads (Step code callee) Q (.inside (i + rs.length), t')) :
    Leads (Step code callee) Q (.inside i, t) := by
  have hrsp := h.rsp
  have hlt := stack.toNat_lt
  have hframe := frame_append.mp h.frame
  have hlen : (rs.map s.reg).reverse.length = rs.reverse.length := by
    rw [List.length_reverse, List.length_map, List.length_reverse]
  apply X86.leads_pops hc (by rwa [List.mem_reverse]) (List.nodup_reverse.mpr hnodup) hframe.1 hlen
  · rw [List.length_reverse]
    omega
  · intro t' hp
    have hrsp' := hp.rsp
    have hlen' := hp.rsp
    rw [List.length_reverse] at hrsp'
    have hmap : rs.map t'.reg = rs.map s.reg := by
      have hpopped := hp.popped
      rwa [← List.map_reverse, List.map_reverse, List.map_reverse, List.reverse_inj] at hpopped
    rw [List.length_reverse]
    refine hnext t' ⟨?_, ?_, fun r hr hsp => ?_, fun k hk hk' => ?_⟩ (List.map_inj_left.mp hmap)
      fun r hr hnot => hp.others r hr (by rwa [List.mem_reverse])
    · rw [hrsp', List.length_nil]
      omega
    · have hbase := hframe.2
      rw [hlen, ← hlen', ← hp.mem] at hbase
      exact hbase
    · by_cases hmem : r ∈ rs
      · exact List.map_inj_left.mp hmap r hmem
      · rw [hp.others r hsp (by rwa [List.mem_reverse])]
        exact h.kept r hr hsp
    · rw [hp.mem]
      exact h.above k hk hk'

/-- The register pushed last is popped. -/
theorem pop (h : Saved spared s stack rip error hi (rs ++ [r]) t) (hr : r ∉ .rsp :: spared) :
    Saved spared s stack rip error hi rs (t.pop r) := by
  rw [List.mem_cons, not_or] at hr
  have hrsp := h.rsp
  have hlt := stack.toNat_lt
  rw [List.length_append, List.length_singleton] at hrsp
  have hnat : (t.pop r).rsp.toNat = t.rsp.toNat + 8 := by
    rw [pop_rsp hr.1, toNat_add_eight (by omega)]
  constructor
  case rsp =>
    rw [hnat]
    omega
  case frame =>
    have hframe := h.frame
    rw [List.map_append, List.reverse_append, List.append_assoc] at hframe
    rw [hnat]
    exact hframe.2
  case kept =>
    intro r' hr' hsp
    have hne : r' ≠ r := by
      rintro rfl
      exact hr.2 hr'
    rw [pop_reg hsp hne]
    exact h.kept r' hr' hsp
  case above => exact h.above

/-- The error code is dropped. -/
theorem drop_error {e : UInt64} (h : Saved spared s stack rip (some e) hi [] t) :
    Saved spared s stack rip none hi [] (t.set .rsp (t.reg .rsp + 8)) := by
  have hrsp := h.rsp
  have hlt := stack.toNat_lt
  have hlen : (s.frame rip (some e)).length = 6 := rfl
  have hlen' : (s.frame rip none).length = 5 := rfl
  have hnat : (t.set .rsp (t.reg .rsp + 8)).rsp.toNat = t.rsp.toNat + 8 := by
    have hself : (t.set .rsp (t.reg .rsp + 8)).rsp = t.rsp + 8 := set_self ..
    rw [hself, toNat_add_eight]
    omega
  refine ⟨?_, ?_, fun r hr hsp => ?_, h.above⟩
  · rw [hnat, hlen', List.length_nil]
    rw [hlen, List.length_nil] at hrsp
    omega
  · rw [hnat]
    exact h.frame.2
  · rw [set_ne hsp]
    exact h.kept r hr hsp

/-- The end of the handler. -/
theorem leads_iretq (lost : List Reg) (h : Saved spared s stack rip none hi [] t)
    (hc : code[i]? = some .iretq)
    (hregs : ∀ r, r ≠ .rsp → r ∉ lost → t.reg r = s.reg r)
    (hQ : ∀ c, Resumed s rip stack.toNat hi lost c → (∀ r, r ≠ .rsp → c.2.reg r = t.reg r) → Q c) :
    Leads (Step code callee) Q (.inside i, t) := by
  apply leads_next hc rfl
  rw [iretq_frame h.frame]
  have hkept : ∀ r, r ≠ .rsp → (t.set .rsp s.rsp).reg r = t.reg r := fun r hr => set_ne hr _
  refine .done (hQ _ ⟨rfl, fun r hr => ?_, rfl, ⟨rfl, rfl⟩, h.above⟩ hkept)
  by_cases hrsp : r = .rsp
  · subst hrsp
    exact set_self t .rsp _
  · exact (hkept r hrsp).trans (hregs r hrsp hr)

end Saved

end UnnamedOS.Lib.X86
