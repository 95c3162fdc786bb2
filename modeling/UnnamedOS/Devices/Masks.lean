import Mathlib.Data.Fintype.Basic
import UnnamedOS.Lib.LastWrite

/-!
# Interrupt masks

`IRQ_clear_mask` and `IRQ_set_mask` on the data ports of the two controllers. A read of a port gives
what was written to it last.
-/

namespace UnnamedOS.Devices

open UnnamedOS.Lib

abbrev Ports := UInt16 → UInt8

def PIC1 : UInt16 := 0x20

def PIC2 : UInt16 := 0xa0

def outb (ports : Ports) (port : UInt16) (data : UInt8) : Ports := Function.update ports port data

/-- The port of a line, and its number there. -/
def maskPort (IRQline : UInt8) : UInt16 × UInt8 :=
  if IRQline < 8 then (PIC1 + 1, IRQline) else (PIC2 + 1, IRQline - 8)

/-- `1<<IRQline`, an `int`. -/
def lineBit (IRQline : UInt8) : UInt32 := 1 <<< IRQline.toUInt32

def IRQ_clear_mask (ports : Ports) (IRQline : UInt8) : Ports :=
  let (port, line) := maskPort IRQline
  outb ports port ((ports port).toUInt32 &&& ~~~lineBit line).toUInt8

def IRQ_set_mask (ports : Ports) (IRQline : UInt8) : Ports :=
  let (port, line) := maskPort IRQline
  outb ports port ((ports port).toUInt32 &&& lineBit line).toUInt8

/-- The lines of both controllers. -/
abbrev Line := Fin 16

def Line.toUInt8 (l : Line) : UInt8 := .ofNat l

/-- The bit of the line in its register. -/
def Masked (ports : Ports) (l : Line) : Prop :=
  (ports (maskPort l.toUInt8).1).toBitVec.getLsbD (maskPort l.toUInt8).2.toNat = true

instance (ports : Ports) (l : Line) : Decidable (Masked ports l) :=
  inferInstanceAs (Decidable ((ports (maskPort l.toUInt8).1).toBitVec.getLsbD _ = true))

inductive MaskCall where
  | clear (l : Line)
  | set (l : Line)
  deriving DecidableEq

def MaskCall.line : MaskCall → Line
  | .clear l => l
  | .set l => l

def MaskCall.exec (ports : Ports) : MaskCall → Ports
  | .clear l => IRQ_clear_mask ports l.toUInt8
  | .set l => IRQ_set_mask ports l.toUInt8

def execCalls (ports : Ports) (calls : List MaskCall) : Ports := calls.foldl MaskCall.exec ports

/-- The last call for the line masks it, or there is none and it was masked before. -/
def ShouldBeMasked (ports : Ports) (calls : List MaskCall) (l : Line) : Prop :=
  (∃ before after, calls = before ++ .set l :: after ∧ ∀ call ∈ after, call.line ≠ l) ∨
    Masked ports l ∧ ∀ call ∈ calls, call.line ≠ l

/-! ## One call -/

/-- Two lines of one controller. -/
def SamePic (k l : Line) : Prop := k < 8 ↔ l < 8

instance (k l : Line) : Decidable (SamePic k l) := inferInstanceAs (Decidable (k < 8 ↔ l < 8))

variable {ports : Ports} {k l : Line} {calls : List MaskCall}

theorem maskPort_line (l : Line) : (maskPort l.toUInt8).2 = .ofNat (l % 8) := by
  revert l
  decide

theorem samePic_iff_port (k l : Line) :
    SamePic k l ↔ (maskPort k.toUInt8).1 = (maskPort l.toUInt8).1 := by
  revert k l
  decide

theorem getLsbD_lineBit {i j : Nat} (hi : i < 8) (hj : j < 8) :
    (lineBit (.ofNat i)).toBitVec.getLsbD j = decide (i = j) := by
  have hall : ∀ i < 8, ∀ j < 8, (lineBit (.ofNat i)).toBitVec.getLsbD j = decide (i = j) := by decide
  exact hall i hi j hj

theorem getLsbD_byte (r : UInt8) (m : UInt32) {j : Nat} (hj : j < 8) :
    (r.toUInt32 &&& m).toUInt8.toBitVec.getLsbD j =
      (r.toBitVec.getLsbD j && m.toBitVec.getLsbD j) := by
  have hj32 : j < 32 := by omega
  simp [hj]

/-- What a call leaves of the register, bit by bit. -/
theorem masked_update (ports : Ports) (k l : Line) (m : UInt32) :
    Masked (outb ports (maskPort k.toUInt8).1
        ((ports (maskPort k.toUInt8).1).toUInt32 &&& m).toUInt8) l ↔
      Masked ports l ∧ (SamePic k l → m.toBitVec.getLsbD (l % 8) = true) := by
  have hlt : (l : Nat) % 8 < 8 := Nat.mod_lt _ (by decide)
  have hline : (maskPort l.toUInt8).2.toNat = l % 8 := by
    rw [maskPort_line, UInt8.toNat_ofNat_of_lt' (Nat.lt_trans hlt (by decide))]
  unfold Masked outb
  rw [hline, samePic_iff_port]
  by_cases hport : (maskPort k.toUInt8).1 = (maskPort l.toUInt8).1
  · rw [hport, Function.update_self, getLsbD_byte _ _ hlt, Bool.and_eq_true]
    exact and_congr_right fun _ => ⟨fun h _ => h, fun h => h rfl⟩
  · rw [Function.update_of_ne (Ne.symm hport)]
    exact ⟨fun h => ⟨h, fun heq => absurd heq hport⟩, fun h => h.1⟩

theorem bit_eq_iff {k l : Line} (h : SamePic k l) : (k : Nat) % 8 = l % 8 ↔ k = l := by
  revert k l
  decide

theorem masked_clear : Masked (IRQ_clear_mask ports k.toUInt8) l ↔ Masked ports l ∧ k ≠ l := by
  have hk : (k : Nat) % 8 < 8 := Nat.mod_lt _ (by decide)
  have hl : (l : Nat) % 8 < 8 := Nat.mod_lt _ (by decide)
  have hl32 : (l : Nat) % 8 < 32 := by omega
  have hbit : (~~~lineBit (maskPort k.toUInt8).2).toBitVec.getLsbD (l % 8) = true ↔
      ¬ (k : Nat) % 8 = l % 8 := by
    rw [maskPort_line, UInt32.toBitVec_not, BitVec.getLsbD_not, getLsbD_lineBit hk hl]
    simp [hl32]
  have hupdate := masked_update ports k l (~~~lineBit (maskPort k.toUInt8).2)
  rw [hbit] at hupdate
  refine hupdate.trans (and_congr_right fun _ => ⟨fun h heq => ?_, fun h hsame heq => ?_⟩)
  · subst heq
    exact h Iff.rfl rfl
  · exact h ((bit_eq_iff hsame).mp heq)

/-- A call of `IRQ_set_mask` masks nothing: it unmasks the other lines of the controller. -/
theorem masked_set : Masked (IRQ_set_mask ports k.toUInt8) l ↔
    Masked ports l ∧ (SamePic k l → k = l) := by
  have hk : (k : Nat) % 8 < 8 := Nat.mod_lt _ (by decide)
  have hl : (l : Nat) % 8 < 8 := Nat.mod_lt _ (by decide)
  have hbit : (lineBit (maskPort k.toUInt8).2).toBitVec.getLsbD (l % 8) = true ↔
      (k : Nat) % 8 = l % 8 := by
    rw [maskPort_line, getLsbD_lineBit hk hl, decide_eq_true_iff]
  have hupdate := masked_update ports k l (lineBit (maskPort k.toUInt8).2)
  rw [hbit] at hupdate
  refine hupdate.trans (and_congr_right fun _ => ⟨fun h hsame => ?_, fun h hsame => ?_⟩)
  · exact (bit_eq_iff hsame).mp (h hsame)
  · exact (bit_eq_iff hsame).mpr (h hsame)

/-! ## Sequences of calls -/

/-- A line that no call unmasks, on purpose or by masking another line. -/
def Undisturbed (calls : List MaskCall) (l : Line) : Prop :=
  .clear l ∉ calls ∧ ∀ k, SamePic k l → .set k ∈ calls → k = l

theorem masked_execCalls : Masked (execCalls ports calls) l ↔
    Masked ports l ∧ Undisturbed calls l := by
  induction calls generalizing ports with
  | nil =>
      exact ⟨fun h => ⟨h, List.not_mem_nil, fun k _ hk => absurd hk List.not_mem_nil⟩, fun h => h.1⟩
  | cons call calls ih =>
      have hstep : execCalls ports (call :: calls) = execCalls (call.exec ports) calls := rfl
      rw [hstep, ih]
      cases call with
      | clear k =>
          rw [MaskCall.exec, masked_clear, and_assoc]
          refine and_congr_right fun _ => ⟨?_, ?_⟩
          · rintro ⟨hne, hclear, hset⟩
            refine ⟨fun hmem => ?_, fun k' hsame hmem => ?_⟩
            · rcases List.mem_cons.mp hmem with heq | htail
              · exact hne (MaskCall.clear.inj heq).symm
              · exact hclear htail
            · rcases List.mem_cons.mp hmem with heq | htail
              · cases heq
              · exact hset k' hsame htail
          · rintro ⟨hclear, hset⟩
            refine ⟨fun heq => hclear ?_, fun hmem => hclear (List.mem_cons_of_mem _ hmem),
              fun k' hsame hmem => hset k' hsame (List.mem_cons_of_mem _ hmem)⟩
            rw [heq]
            exact List.mem_cons_self ..
      | set k =>
          rw [MaskCall.exec, masked_set, and_assoc]
          refine and_congr_right fun _ => ⟨?_, ?_⟩
          · rintro ⟨hother, hclear, hset⟩
            refine ⟨fun hmem => ?_, fun k' hsame hmem => ?_⟩
            · rcases List.mem_cons.mp hmem with heq | htail
              · cases heq
              · exact hclear htail
            · rcases List.mem_cons.mp hmem with heq | htail
              · obtain rfl := MaskCall.set.inj heq
                exact hother hsame
              · exact hset k' hsame htail
          · rintro ⟨hclear, hset⟩
            exact ⟨fun hsame => hset k hsame (List.mem_cons_self ..),
              fun hmem => hclear (List.mem_cons_of_mem _ hmem),
              fun k' hsame hmem => hset k' hsame (List.mem_cons_of_mem _ hmem)⟩

/-- No line is masked that should not be. -/
theorem shouldBeMasked_of_masked (h : Masked (execCalls ports calls) l) :
    ShouldBeMasked ports calls l := by
  obtain ⟨hinit, hclear, -⟩ := masked_execCalls.mp h
  rcases exists_lastWith MaskCall.line l calls with
    hnone | ⟨call, before, after, rfl, hline, hafter⟩
  · exact .inr ⟨hinit, hnone⟩
  · cases call with
    | clear k =>
        obtain rfl : k = l := hline
        exact absurd (List.mem_append_right _ (List.mem_cons_self ..)) hclear
    | set k =>
        obtain rfl : k = l := hline
        exact .inl ⟨before, after, rfl, hafter⟩

theorem masks_independent_iff (ports : Ports) (calls : List MaskCall) :
    (∀ l, Masked (execCalls ports calls) l ↔ ShouldBeMasked ports calls l) ↔
      ∀ l, ShouldBeMasked ports calls l → Masked ports l ∧ Undisturbed calls l := by
  constructor
  · exact fun h l hl => masked_execCalls.mp ((h l).mpr hl)
  · exact fun h l => ⟨shouldBeMasked_of_masked, fun hl => masked_execCalls.mpr (h l hl)⟩

/-- Line 4 is to be masked, and is not. -/
theorem set_mask_masks_nothing :
    ¬ ∀ l, Masked (execCalls (fun _ => 0) [.set 4]) l ↔ ShouldBeMasked (fun _ => 0) [.set 4] l := by
  intro h
  have hshould : ShouldBeMasked (fun _ => 0) [.set 4] 4 :=
    .inl ⟨[], [], rfl, fun call hcall => absurd hcall List.not_mem_nil⟩
  have hclear : ¬ Masked (execCalls (fun _ => 0) [.set 4]) 4 := by decide
  exact hclear ((h 4).mpr hshould)

end UnnamedOS.Devices
