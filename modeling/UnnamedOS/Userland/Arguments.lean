import Mathlib.Logic.Function.Basic
import UnnamedOS.Lib.Words

/-!
# Program arguments

`splitc` counts the arguments in a string and `splitv` stores them. A string is given by the bytes in
front of its terminator. The heap gives blocks that share no byte; what is in a new one is not known.
-/

namespace UnnamedOS.Userland.Arguments

open UnnamedOS.Lib

def space : UInt8 := 0x20

def backslash : UInt8 := 0x5c

def quotationMark : UInt8 := 0x22

def apostrophe : UInt8 := 0x27

/-- `inquote`: 0, 1 and 2. -/
inductive Quote where
  | closed
  | single
  | double
  deriving DecidableEq

/-- `(c == '\'' && inquote == 1) || (c == '"' && inquote == 2)` -/
def Quote.ends (inquote : Quote) (c : UInt8) : Bool :=
  (c == apostrophe && inquote == .single) || (c == quotationMark && inquote == .double)

/-! ## Counting -/

structure Count where
  inquote : Quote
  inbksl : Bool
  ar : Nat

def Count.step (t : Count) (c : UInt8) : Count :=
  if t.inbksl then { t with inbksl := false }
  else if t.inquote ≠ .closed then
    if c = backslash then { t with inbksl := true }
    else if t.inquote.ends c then { t with inquote := .closed }
    else t
  else
    let t :=
      if c = space then { t with ar := t.ar + 1 }
      else if c = backslash then { t with inbksl := true }
      else t
    let t := if c = quotationMark then { t with inquote := .double } else t
    if c = apostrophe then { t with inquote := .single } else t

def splitc (argv : List UInt8) : Nat := (argv.foldl Count.step ⟨.closed, false, 1⟩).ar

/-! ## Splitting -/

inductive SplitHalt where
  /-- A byte behind the terminator is read. -/
  | beyond
  /-- An entry that `argv` does not have. -/
  | outside (k : Nat)
  /-- An entry that holds no pointer. -/
  | unset (k : Nat)
  /-- `memcpy` of more than the new block. -/
  | overrun
  deriving DecidableEq

/-- A block of the heap, with the size that was asked for. -/
structure Block where
  size : Nat
  data : Nat → UInt8

structure Split where
  inquote : Quote
  k : Nat
  il : Nat
  argv : Nat → Option Block
  /-- How often `malloc` has been called. -/
  mallocs : Nat

namespace Split

variable (contents : Nat → Nat → UInt8) (argc : Nat) (t : Split)

/-- `malloc`: the next of the blocks whose contents are given. -/
def malloc (size : Nat) : Block × Split :=
  (⟨size, contents t.mallocs⟩, { t with mallocs := t.mallocs + 1 })

/-- A store to `argv[k]`. -/
def store (b : Block) : Except SplitHalt Split :=
  if t.k < argc then .ok { t with argv := Function.update t.argv t.k (some b) }
  else .error (.outside t.k)

/-- The new block begins with the recorded size of the old one. -/
def realloc (a : Block) (size : Nat) : Except SplitHalt (Block × Split) :=
  let (b, t) := t.malloc contents size
  if a.size ≤ size then
    .ok ({ b with data := fun i => if i < a.size then a.data i else b.data i }, t)
  else .error .overrun

def addcv (n : UInt8) : Except SplitHalt Split :=
  match t.argv t.k with
  | none => .error (.unset t.k)
  | some a => do
    let (b, t) ← t.realloc contents a (t.il + 1)
    let data := Function.update (Function.update b.data t.il 0) (t.il - 1) n
    let t ← t.store argc { b with data }
    return { t with il := t.il + 1 }

/-- `il = 1; k++; argv[k] = malloc(il+1);` -/
def nextArgument : Except SplitHalt Split :=
  let t := { t with il := 1, k := t.k + 1 }
  let (b, t) := t.malloc contents (t.il + 1)
  t.store argc b

/-- The loop, with what is left of the string, in at most as many rounds as the first argument. -/
def scan : Nat → List UInt8 → Split → Except SplitHalt Split
  | 0, _, t => .ok t
  | _ + 1, [], t => .ok t
  | n + 1, c :: rest, t =>
    if c = backslash then
      if t.inquote ≠ .closed then
        -- the terminator is behind the last byte
        let next := rest.headD 0
        if t.inquote.ends next ∨ next = backslash then do
          let t ← t.addcv contents argc next
          scan n rest.tail t
        else do
          let t ← t.addcv contents argc c
          scan n rest t
      else
        match rest with
        | [] => do
          let _ ← t.addcv contents argc 0
          .error .beyond
        | next :: rest => do
          let t ← t.addcv contents argc next
          scan n rest t
    else if c = quotationMark ∨ c = apostrophe then
      if t.inquote.ends c then scan n rest { t with inquote := .closed }
      else if t.inquote = .closed then
        scan n rest { t with inquote := if c = apostrophe then .single else .double }
      else do
        let t ← t.addcv contents argc c
        scan n rest t
    else if c = space ∧ t.inquote = .closed then do
      let rest := rest.dropWhile (· = space)
      let t ← t.nextArgument contents argc
      scan n rest t
    else do
      let t ← t.addcv contents argc c
      scan n rest t

end Split

/-- The entries of `argv`, `none` where nothing has been stored. -/
def splitv (contents : Nat → Nat → UInt8) (argc : Nat) (arg : List UInt8) :
    Except SplitHalt (Nat → Option Block) := do
  let t : Split := ⟨.closed, 0, 1, fun _ => none, 0⟩
  let (b, t) := t.malloc contents 2
  let t ← t.store argc b
  let t ← Split.scan contents argc (arg.length + 1) arg t
  return t.argv

/-- A terminated string, with what it says. -/
def Block.Holds (b : Block) (w : List UInt8) : Prop :=
  w.length < b.size ∧ (∀ i, (h : i < w.length) → b.data i = w[i]) ∧ b.data w.length = 0

end UnnamedOS.Userland.Arguments
