import UnnamedOS.Lib.X86
import UnnamedOS.Proc.Kernel

/-!
# The instructions of `switch_to_task`

`asmbridge.S`, over the bytes of the task control blocks. `Shows` says that a memory holds what
`Kernel` says, and has a lemma for each thing that is written.
-/

namespace UnnamedOS.Proc

open UnnamedOS.Lib UnnamedOS.Lib.X86

/-- Where the linker has put the two variables. -/
structure Globals where
  current_task_TCB : ℕ
  LAST_THREAD : ℕ

/-- Entry 0 of the live top-level table. -/
def slot0 : ℕ := 0x8000030000

/-- The places 19 and 33 are the labels `ST3`, with `ST2` in front of it, and `STDONE`. -/
def switchCode (g : Globals) : List (Instr Empty) :=
  [.push .rbx, .push .rsi, .push .rdi, .push .rbp,
    .movImm (.ofNat g.current_task_TCB) .rax,
    .load 0 .rax .rbx,
    .cmpImm 0 .rbx,
    .je 19,
    .store .rsp 0 .rbx,
    .loadByte 24 .rbx .rcx,
    .cmpByte 0 .rcx,
    .jne 19,
    .storeByte 1 24 .rbx,
    .movImm (.ofNat g.LAST_THREAD) .rcx,
    .load 0 .rcx .rdx,
    .store .rbx 16 .rdx,
    .store .rbx 0 .rcx,
    .storeImm 0 16 .rbx,
    .jmp 19,
    .mov .rdi .rsi,
    .storeByte 0 24 .rsi,
    .load 0 .rax .rbx,
    .store .rsi 0 .rax,
    .load 0 .rsi .rsp,
    .load 60 .rsi .rcx,
    .load 60 .rbx .rax,
    .cmp .rax .rcx,
    .je 33,
    .movImm (.ofNat slot0) .rbx,
    .load 0 .rbx .rsi,
    .store .rsi 0 .rax,
    .load 0 .rcx .rsi,
    .store .rsi 0 .rbx,
    .pop .rbp, .pop .rdi, .pop .rsi, .pop .rbx, .ret]

/-- The values of `enum task_states`. -/
def TaskState.code : TaskState → UInt8
  | .running => 0
  | .ready => 1
  | .waiting => 2
  | .dead => 3
  | .paused => 4
  | .waitingForIrq => 5
  | .waitingForProcUpdate => 6
  | .waitingForLock => 7
  | .waitingForPoke => 8
  | .waitingForDeath => 9
  | .buried => 10

def pointer : Option Tid → UInt64
  | none => 0
  | some t => .ofNat t

/-- What a switch reads and writes: variables, the entry for the user half, fields of a task, and the
first quad of its page at `cr3`. -/
inductive Cell where
  | current | last | slot
  | rsp (t : Tid)
  | next (t : Tid)
  | state (t : Tid)
  | cr3 (t : Tid)
  | word (t : Tid)

/-- A piece of memory with one purpose. -/
inductive Area where
  | current | last | slot
  | tcb (t : Tid)
  | half (t : Tid)
  | stack (t : Tid)
  deriving DecidableEq

def Area.size : Area → ℕ
  | .current | .last | .slot | .half _ => 8
  | .tcb _ => 132
  | .stack _ => 0x1000

/-- An area of one of the tasks `T`, or of none. -/
def Area.Of (T : Set Tid) : Area → Prop
  | .tcb t | .half t | .stack t => t ∈ T
  | _ => True

namespace Cell

def area : Cell → Area
  | current => .current
  | last => .last
  | slot => .slot
  | rsp t | next t | state t | cr3 t => .tcb t
  | word t => .half t

def offset : Cell → ℕ
  | next _ => 16
  | state _ => 24
  | cr3 _ => 60
  | _ => 0

def size : Cell → ℕ
  | state _ => 1
  | _ => 8

end Cell

structure Layout where
  globals : Globals
  cr3 : Tid → UInt64
  stack : Tid → ℕ

namespace Layout

variable (L : Layout)

def base : Area → ℕ
  | .current => L.globals.current_task_TCB
  | .last => L.globals.LAST_THREAD
  | .slot => slot0
  | .tcb t => t
  | .half t => (L.cr3 t).toNat
  | .stack t => L.stack t

def addr (x : Cell) : ℕ := L.base x.area + x.offset

def get (m : ℕ → UInt8) (x : Cell) : UInt64 :=
  match x with
  | .state _ => (m (L.addr x)).toUInt64
  | _ => read64 m (L.addr x)

/-- The areas of the tasks do not overlap, and no task is at `NULL`. -/
structure Sound (T : Set Tid) : Prop where
  apart : ∀ a b : Area, a.Of T → b.Of T → a ≠ b →
    L.base a + a.size ≤ L.base b ∨ L.base b + b.size ≤ L.base a
  fits : ∀ a : Area, a.Of T → L.base a + a.size < 2 ^ 64
  null : ∀ t ∈ T, t ≠ 0

/-- A byte that is in no area of the tasks. -/
def Elsewhere (T : Set Tid) (n : ℕ) : Prop :=
  ∀ a : Area, a.Of T → n < L.base a ∨ L.base a + a.size ≤ n

end Layout

/-- What is in a cell, with `sp` the stack pointers of the tasks. -/
def Kernel.value (k : Kernel) (sp : Tid → UInt64) : Cell → UInt64
  | .current => pointer k.currentTaskTCB
  | .last => pointer k.lastThread
  | .slot => k.pml4Slot0
  | .rsp t => sp t
  | .next t => pointer (k.next t)
  | .state t => (k.state t).code.toUInt64
  | .cr3 t => k.cr3 t
  | .word t => k.cr3Word (k.cr3 t)

/-- The memory holds what the kernel says of the tasks `T`. -/
structure Shows (L : Layout) (T : Set Tid) (k : Kernel) (sp : Tid → UInt64) (m : ℕ → UInt8) :
    Prop where
  cells : ∀ x : Cell, x.area.Of T → L.get m x = k.value sp x
  cr3 : ∀ t ∈ T, k.cr3 t = L.cr3 t

variable {L : Layout} {T : Set Tid} {k k' : Kernel} {sp sp' : Tid → UInt64} {m m' : ℕ → UInt8}
  {x y : Cell} {c l t u : Tid} {v : UInt64} {n : ℕ}

/-! ## One write -/

theorem Cell.offset_le (x : Cell) : x.offset + x.size ≤ x.area.size := by
  cases x <;> simp only [Cell.offset, Cell.size, Cell.area, Area.size] <;> omega

theorem Layout.Sound.mono {U : Set Tid} (hL : L.Sound T) (hU : U ⊆ T) : L.Sound U := by
  have hof : ∀ a : Area, a.Of U → a.Of T := by
    intro a ha
    cases a with
    | current | last | slot => trivial
    | tcb t | half t | stack t => exact hU ha
  exact ⟨fun a b ha hb => hL.apart a b (hof a ha) (hof b hb), fun a ha => hL.fits a (hof a ha),
    fun t ht => hL.null t (hU ht)⟩

theorem Layout.Sound.cells (hL : L.Sound T) (hx : x.area.Of T) (hy : y.area.Of T) (hne : x ≠ y) :
    L.addr x + x.size ≤ L.addr y ∨ L.addr y + y.size ≤ L.addr x := by
  have hsx := x.offset_le
  have hsy := y.offset_le
  unfold Layout.addr
  by_cases harea : x.area = y.area
  · rw [harea]
    cases x <;> cases y <;> cases harea <;>
      first
      | exact absurd rfl hne
      | (simp only [Cell.offset, Cell.size]; omega)
  · rcases hL.apart _ _ hx hy harea with h | h
    · omega
    · omega

/-- The operand of an instruction that reads or writes a cell. -/
theorem Layout.Sound.operand (hL : L.Sound T) (hx : x.area.Of T) :
    (UInt64.ofNat (L.base x.area) + .ofNat x.offset).toNat = L.addr x := by
  have hfits := hL.fits _ hx
  have hsize := x.offset_le
  have hpos : 0 < x.size := by
    cases x <;> exact Nat.zero_lt_succ _
  rw [← UInt64.ofNat_add]
  exact UInt64.toNat_ofNat_of_lt' (show L.base x.area + x.offset < 2 ^ 64 by omega)

/-- No cell is on a stack. -/
theorem Layout.Sound.stack_apart (hL : L.Sound T) (hx : x.area.Of T) (ht : t ∈ T) :
    L.addr x + x.size ≤ L.stack t ∨ L.stack t + 0x1000 ≤ L.addr x := by
  have hsize := x.offset_le
  have hne : x.area ≠ .stack t := by
    cases x <;> exact fun heq => by cases heq
  have hapart := hL.apart _ (.stack t) hx ht hne
  unfold Layout.addr
  simp only [Area.size, Layout.base] at hapart hsize ⊢
  omega

theorem get_congr (h : ∀ i < x.size, m' (L.addr x + i) = m (L.addr x + i)) :
    L.get m' x = L.get m x := by
  cases x with
  | state t =>
      have hbyte := h 0 Nat.one_pos
      rw [Layout.get, Layout.get]
      exact congrArg UInt8.toUInt64 hbyte
  | _ => exact read64_congr h

/-- A write of one cell. -/
theorem Shows.put (h : Shows L T k sp m) (hL : L.Sound T) (hx : x.area.Of T)
    (hm : ∀ n, n < L.addr x ∨ L.addr x + x.size ≤ n → m' n = m n)
    (hself : L.get m' x = k'.value sp' x)
    (hothers : ∀ y : Cell, y.area.Of T → y ≠ x → k'.value sp' y = k.value sp y)
    (hcr3 : k'.cr3 = k.cr3) :
    Shows L T k' sp' m' := by
  refine ⟨fun y hy => ?_, fun t ht => by rw [hcr3]; exact h.cr3 t ht⟩
  by_cases hyx : y = x
  · subst hyx
    exact hself
  · rw [hothers y hy hyx, ← h.cells y hy]
    apply get_congr
    intro i hi
    apply hm
    rcases hL.cells hy hx hyx with hlt | hge
    · exact .inl (by omega)
    · exact .inr (by omega)

/-- A write to a stack. -/
theorem Shows.stack (h : Shows L T k sp m) (hL : L.Sound T) (ht : t ∈ T)
    (hm : ∀ n, n < L.stack t ∨ L.stack t + 0x1000 ≤ n → m' n = m n) : Shows L T k sp m' := by
  refine ⟨fun y hy => ?_, h.cr3⟩
  rw [← h.cells y hy]
  apply get_congr
  intro i hi
  apply hm
  have hapart := hL.stack_apart hy ht
  omega

/-! ## The other cells -/

theorem value_setState {st : TaskState} (hy : y ≠ .state t) :
    (k.setState t st).value sp y = k.value sp y := by
  cases y with
  | state u =>
      have hne : u ≠ t := fun heq => hy (congrArg Cell.state heq)
      exact congrArg (UInt8.toUInt64 ∘ TaskState.code) (Function.update_of_ne hne ..)
  | _ => rfl

theorem value_setNext {p : Option Tid} (hy : y ≠ .next t) :
    (k.setNext t p).value sp y = k.value sp y := by
  cases y with
  | next u =>
      have hne : u ≠ t := fun heq => hy (congrArg Cell.next heq)
      exact congrArg pointer (Function.update_of_ne hne ..)
  | _ => rfl

theorem value_last {p : Option Tid} (hy : y ≠ .last) :
    { k with lastThread := p }.value sp y = k.value sp y := by
  cases y with
  | last => exact absurd rfl hy
  | _ => rfl

theorem value_current {p : Option Tid} (hy : y ≠ .current) :
    { k with currentTaskTCB := p }.value sp y = k.value sp y := by
  cases y with
  | current => exact absurd rfl hy
  | _ => rfl

def Kernel.setSlot (k : Kernel) (v : UInt64) : Kernel := { k with pml4Slot0 := v }

theorem value_setSlot (hy : y ≠ .slot) : (k.setSlot v).value sp y = k.value sp y := by
  cases y with
  | slot => exact absurd rfl hy
  | _ => rfl

theorem value_rsp (hy : y ≠ .rsp t) : k.value (Function.update sp t v) y = k.value sp y := by
  cases y with
  | rsp u =>
      have hne : u ≠ t := fun heq => hy (congrArg Cell.rsp heq)
      exact Function.update_of_ne hne ..
  | _ => rfl

/-- No two tasks have one page at `cr3`. -/
theorem Shows.cr3_ne (h : Shows L T k sp m) (hL : L.Sound T) (ht : t ∈ T) (hu : u ∈ T) (hne : t ≠ u) :
    k.cr3 t ≠ k.cr3 u := by
  intro heq
  rw [h.cr3 t ht, h.cr3 u hu] at heq
  have hapart := hL.apart (.half t) (.half u) ht hu fun harea => hne (Area.half.inj harea)
  simp only [Area.size, Layout.base, heq] at hapart
  omega

def Kernel.setWord (k : Kernel) (a v : UInt64) : Kernel :=
  { k with cr3Word := Function.update k.cr3Word a v }

theorem value_setWord (h : Shows L T k sp m) (hL : L.Sound T) (ht : t ∈ T) (hy : y.area.Of T)
    (hne : y ≠ .word t) :
    (k.setWord (k.cr3 t) v).value sp y = k.value sp y := by
  cases y with
  | word u =>
      have hcr3 := h.cr3_ne hL hy ht fun heq => hne (congrArg Cell.word heq)
      exact Function.update_of_ne hcr3 ..
  | _ => rfl

end UnnamedOS.Proc
