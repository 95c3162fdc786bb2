import UnnamedOS.Descriptors.Tables
import UnnamedOS.Syscall.Pointers

/-!
# Descriptors from user space

The system calls that index a table with a number of the program's, and the slots they read and
write on the way. `sizeof(stream)` is 32, so slot `fd` is at 32 times `fd` in 64 bits.
-/

namespace UnnamedOS.Descriptors

open UnnamedOS.Lib Kernel

/-- Why one of these calls ends without a result. -/
inductive Stop where
  | table (halt : Halt)
  /-- `ERR_VERIFY_USER_FAIL` -/
  | pointer (halt : Files.Halt)
  | ERR_MISP_BINDH
  /-- In the function of a stream. -/
  | inStream

/-- The slots of descriptor tables that a call reads and writes, by their index, and its end. -/
structure Trace (α : Type) where
  slots : List Nat
  result : Except Stop α

/-- The slot at `kernelFd+fd`. -/
def slotOf (fd : UInt64) : Nat := (fd * 32).toNat / 32

/-- A table, what `function(.., what)` of its streams returns, and what else decides a call. -/
structure Caller where
  kernel : Kernel
  task : Task
  page : Nat
  call : Stream → UInt8 → Except Stop UInt64
  /-- `pairIn->bufferOut->datac>0` -/
  ready : Stream → Bool
  child : UInt64 → Option Task
  /-- What stands at address 0, for a child without a table, is no `StdIOStream`. -/
  lost : Bool

namespace Caller

variable (c : Caller)

def slot (fd : UInt64) : Stream := c.kernel.stream (kernelFdLen * c.page + slotOf fd)

def setPosition (fd : UInt64) (position : UInt64) : Kernel :=
  c.kernel.put (kernelFdLen * c.page + slotOf fd) { c.slot fd with position }

/-- The checks that most calls begin with. -/
def checked {α : Type} (fd : UInt64) (rest : Trace α) : Trace α :=
  if fd > 128 then ⟨[], .error (.table .ERR_FD_TOOHIGH)⟩
  else if (c.slot fd).function = .NULL then ⟨[slotOf fd], .error (.table .ERR_FD_DNE)⟩
  else ⟨slotOf fd :: rest.slots, rest.result⟩

/-- The new position is what the stream's function returns. -/
def transfer (fd : UInt64) (what : UInt8) : Trace Kernel :=
  match c.call (c.slot fd) what with
  | .error e => ⟨[slotOf fd], .error e⟩
  | .ok position => ⟨[slotOf fd, slotOf fd], .ok (c.setPosition fd position)⟩

def READ (fd : UInt64) : Trace Kernel := c.checked fd (c.transfer fd 0)

def WRITE (fd : UInt64) : Trace Kernel := c.checked fd (c.transfer fd 1)

def SEEK (fd pos WHENCE : UInt64) : Trace Kernel :=
  c.checked fd <|
    if WHENCE = 0 then ⟨[slotOf fd], .ok (c.setPosition fd pos)⟩
    else if WHENCE = 1 then
      ⟨[slotOf fd, slotOf fd], .ok (c.setPosition fd ((c.slot fd).position + pos))⟩
    else c.transfer fd 3

def TELL (fd : UInt64) : Trace UInt64 :=
  c.checked fd ⟨[slotOf fd], .ok (c.slot fd).position⟩

def checkStream (fd : UInt64) : Trace UInt64 :=
  c.checked fd <|
    if (c.slot fd).function = .StdIOStream then
      ⟨[slotOf fd, slotOf fd], .ok (if c.ready (c.slot fd) then 1 else 0)⟩
    else ⟨[slotOf fd], .ok 1⟩

/-- The stream is closed by its function, and the slot is cleared. -/
def CLOSE (fd : UInt64) : Trace Kernel :=
  c.checked fd <|
    match c.kernel.CLOSE c.task (slotOf fd) with
    | .error e => ⟨[slotOf fd], .error (.table e)⟩
    | .ok k => ⟨[slotOf fd, slotOf fd], .ok k⟩

/-- The first of the two tests that fails ends the `||`. -/
def BIND_HANDLES (FD0 FD1 : UInt64) : Trace Kernel :=
  if (c.slot FD0).function ≠ .StdIOStream then ⟨[slotOf FD0], .error .ERR_MISP_BINDH⟩
  else if (c.slot FD1).function ≠ .StdIOStream then
    ⟨[slotOf FD0, slotOf FD1], .error .ERR_MISP_BINDH⟩
  else ⟨[slotOf FD0, slotOf FD1, slotOf FD0, slotOf FD1], .ok c.kernel⟩

/-- `giveSTDIOback` copies the stream and clears its slot if the child has lost its own. -/
def givesStdio (b : Task) : Bool :=
  match c.kernel.file_descriptors b with
  | none => c.lost
  | some page => (c.kernel.stream (kernelFdLen * page)).function ≠ .StdIOStream

/-- `find_child_by_pid(pid)` comes first, and `fd` becomes an `int`. The child's table is used at
its first slot. -/
def BINDR (pid fd : UInt64) : Trace Kernel :=
  match c.child pid with
  | none => ⟨[], .error (.table .ERR_FCPID)⟩
  | some b =>
    let dfdn := slotOf (Files.widen fd.toUInt32)
    ⟨if c.givesStdio b then [dfdn, 0, dfdn, 0, dfdn] else [dfdn, 0],
      (c.kernel.giveSTDIOback b c.task dfdn c.lost).mapError .table⟩

end Caller

/-- The slots that a call touches, and the `ERROR` it raises. -/
abbrev Outcome := List Nat × Option Stop

def Trace.outcome {α : Type} (t : Trace α) : Outcome :=
  (t.slots, match t.result with
    | .error e => some e
    | .ok _ => none)

/-- The pointers are verified before the call. -/
def verified (pointer : UInt64) (o : Outcome) : Outcome :=
  match Syscall.VERIFY_USER pointer with
  | .error e => ([], some (.pointer e))
  | .ok _ => o

/-- The calls that take a descriptor, `none` for any other. -/
def INT0x80C (c : Caller) (rdi rsi rdx rcx : UInt64) : Option Outcome :=
  match rdi.toNat with
  | 0x0 => some (verified rdx (c.READ rsi).outcome)
  | 0x1 => some (verified rdx (c.WRITE rsi).outcome)
  | 0x3 => some (c.CLOSE rsi).outcome
  | 0x4 => some (c.SEEK rsi rdx rcx).outcome
  | 0x6 => some (c.TELL rsi).outcome
  | 0x8 => some (c.BIND_HANDLES rsi rdx).outcome
  | 0xb => some (c.BINDR rsi rdx).outcome
  | 0x10 => some (c.checkStream rsi).outcome
  | _ => none

/-- Either an `ERROR` comes before every access, or all accesses are inside of a table. -/
def Outcome.Bounded (o : Outcome) : Prop :=
  (o.2.isSome ∧ o.1 = []) ∨ ∀ i ∈ o.1, i < kernelFdLen

/-- The calls that stay inside of a table. -/
def InBounds (c : Caller) (rdi rsi rdx : UInt64) : Prop :=
  match rdi.toNat with
  | 0x0 | 0x1 => Syscall.CBASE < rdx ∨ rsi ≠ 128
  | 0x3 | 0x4 | 0x6 | 0x10 => rsi ≠ 128
  | 0x8 => slotOf rsi < kernelFdLen ∧
      ((c.slot rsi).function = .StdIOStream → slotOf rdx < kernelFdLen)
  | 0xb => c.child rsi = none ∨ slotOf (Files.widen rdx.toUInt32) < kernelFdLen
  | _ => True

variable {c : Caller} {fd FD0 FD1 pid rdi rsi rdx rcx : UInt64} {α : Type} {o : Outcome}

theorem bounded_iff : o.Bounded ↔ ∀ i ∈ o.1, i < kernelFdLen := by
  constructor
  · rintro (⟨-, hnil⟩ | hall)
    · rw [hnil]
      exact fun i hi => absurd hi List.not_mem_nil
    · exact hall
  · exact Or.inr

theorem slotOf_lt (h : fd.toNat ≤ 128) : slotOf fd = fd.toNat := by
  have hmul : (fd * 32).toNat = 32 * fd.toNat := by
    rw [UInt64.toNat_mul]
    change fd.toNat * 32 % 2 ^ 64 = _
    omega
  rw [slotOf, hmul]
  omega

/-- The checks let 128 pass, which is one slot too many. -/
theorem checked_bounded {rest : Trace α} (hrest : ∀ i ∈ rest.slots, i = slotOf fd) :
    (c.checked fd rest).outcome.Bounded ↔ fd ≠ 128 := by
  have h128 : fd = 128 ↔ fd.toNat = 128 := UInt64.toNat_inj.symm
  have hgt : fd > 128 ↔ 128 < fd.toNat := UInt64.lt_iff_toNat_lt
  have hslot : fd.toNat ≤ 128 → (slotOf fd < kernelFdLen ↔ fd ≠ 128) := by
    intro hle
    rw [slotOf_lt hle, ne_eq, h128, kernelFdLen]
    omega
  rw [bounded_iff, Caller.checked]
  split
  · rename_i htoo
    refine iff_of_true (fun i hi => absurd hi List.not_mem_nil) ?_
    rintro rfl
    exact absurd htoo (by decide)
  · rename_i hle
    rw [hgt] at hle
    split
    · rw [← hslot (by omega)]
      simp [Trace.outcome]
    · rw [← hslot (by omega)]
      simp only [Trace.outcome, List.forall_mem_cons]
      constructor
      · exact fun h => h.1
      · exact fun h => ⟨h, fun i hi => hrest i hi ▸ h⟩

theorem transfer_slots (c : Caller) (fd : UInt64) (what : UInt8) :
    ∀ i ∈ (c.transfer fd what).slots, i = slotOf fd := by
  rw [Caller.transfer]
  split <;> simp

theorem verified_bounded (rdx : UInt64) (o : Outcome) :
    (verified rdx o).Bounded ↔ Syscall.CBASE < rdx ∨ o.Bounded := by
  rw [verified, Syscall.VERIFY_USER]
  by_cases h : rdx > Syscall.CBASE
  · rw [if_pos h]
    exact iff_of_true (Or.inl ⟨rfl, rfl⟩) (Or.inl h)
  · rw [if_neg h]
    exact ⟨Or.inr, fun ho => ho.resolve_left h⟩

theorem seek_bounded (pos WHENCE : UInt64) : (c.SEEK fd pos WHENCE).outcome.Bounded ↔ fd ≠ 128 := by
  apply checked_bounded
  split
  · simp
  · split
    · simp
    · exact transfer_slots c fd 3

theorem check_bounded : (c.checkStream fd).outcome.Bounded ↔ fd ≠ 128 := by
  apply checked_bounded
  split <;> simp

theorem close_bounded : (c.CLOSE fd).outcome.Bounded ↔ fd ≠ 128 := by
  apply checked_bounded
  split <;> simp

theorem bind_bounded : (c.BIND_HANDLES FD0 FD1).outcome.Bounded ↔ slotOf FD0 < kernelFdLen ∧
    ((c.slot FD0).function = .StdIOStream → slotOf FD1 < kernelFdLen) := by
  rw [bounded_iff, Caller.BIND_HANDLES]
  by_cases h0 : (c.slot FD0).function = .StdIOStream
  · rw [if_neg (not_not.mpr h0)]
    split
    · simp [Trace.outcome, h0]
    · simp only [Trace.outcome, List.forall_mem_cons, List.not_mem_nil, h0]
      tauto
  · rw [if_pos h0]
    simp [Trace.outcome, h0]

theorem bindr_bounded : (c.BINDR pid fd).outcome.Bounded ↔
    c.child pid = none ∨ slotOf (Files.widen fd.toUInt32) < kernelFdLen := by
  have hzero : 0 < kernelFdLen := by decide
  rw [bounded_iff, Caller.BINDR]
  cases hchild : c.child pid with
  | none => simp [Trace.outcome]
  | some b =>
      dsimp only
      split <;> simp [Trace.outcome, hzero]

/-- A call with a descriptor of the program's either fails before any access or stays inside of the
tables exactly if the descriptor is not 128, or, where nothing is checked, if it is a slot. -/
theorem descriptors_bounded_iff (hcall : INT0x80C c rdi rsi rdx rcx = some o) :
    o.Bounded ↔ InBounds c rdi rsi rdx := by
  rw [INT0x80C] at hcall
  rw [InBounds]
  generalize rdi.toNat = code at hcall ⊢
  split at hcall
  · obtain rfl := Option.some.inj hcall
    rw [verified_bounded]
    exact or_congr_right (checked_bounded (transfer_slots c rsi 0))
  · obtain rfl := Option.some.inj hcall
    rw [verified_bounded]
    exact or_congr_right (checked_bounded (transfer_slots c rsi 1))
  · obtain rfl := Option.some.inj hcall
    exact close_bounded
  · obtain rfl := Option.some.inj hcall
    exact seek_bounded rdx rcx
  · obtain rfl := Option.some.inj hcall
    exact checked_bounded (by simp)
  · obtain rfl := Option.some.inj hcall
    exact bind_bounded
  · obtain rfl := Option.some.inj hcall
    exact bindr_bounded
  · obtain rfl := Option.some.inj hcall
    exact check_bounded
  · cases hcall

/-- A task with an empty table at page 5 and no child. -/
def lonely : Caller where
  kernel := {
    stream := fun _ => .zero
    file_descriptors := fun t => if t = 0 then some 5 else none
    parent := fun _ => none
    state := fun t => if t = 0 then some .alive else none
    DEAD_TASKS := []
    kernelFdLastClosed := 0
    DEVICE_LIST := []
    allocated := fun _ => false }
  task := 0
  page := 5
  call := fun _ _ => .ok 0
  ready := fun _ => false
  child := fun _ => none
  lost := false

/-- `close(127)` stays inside of the table. -/
theorem close_127_bounded : ∃ o, INT0x80C lonely 3 127 0 0 = some o ∧ o.Bounded := by
  have hcall : INT0x80C lonely 3 127 0 0 = some (lonely.CLOSE 127).outcome := rfl
  have hin : InBounds lonely 3 127 0 := (by decide : (127 : UInt64) ≠ 128)
  exact ⟨_, hcall, (descriptors_bounded_iff hcall).mpr hin⟩

/-- `close(128)` reads the slot behind the table. -/
theorem close_128_unbounded : ∃ o, INT0x80C lonely 3 128 0 0 = some o ∧ ¬ o.Bounded := by
  refine ⟨_, rfl, fun hb => ?_⟩
  have hall := bounded_iff.mp hb
  exact absurd (hall 128 (by decide)) (by decide)

end UnnamedOS.Descriptors
