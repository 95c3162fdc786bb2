import Mathlib.Data.List.Basic
import Mathlib.Logic.Function.Basic

/-!
# Pipes

`STDOUTStream` and `STDINStream` between two bound `stdIO`s, one step for each section guarded
by `bufferSema`. The bytes in flight are in a chain of nodes; a copy that leaves a node's data
array, a freed node or a null pointer is a fault.
-/

namespace UnnamedOS.Stream

inductive Fault where
  | nullPointer
  | dangling (p : Nat)
  | outOfBounds (i : Nat)
  deriving DecidableEq

/-- `stdFIFOBUF`: the indices of `data` below 256 exist. -/
structure FifoBuf where
  data : Nat → UInt8
  datac : Nat
  next : Option Nat

structure Stdio where
  pairIn : Option Nat
  pairOut : Option Nat
  bufferOut : Option Nat
  bufferOutEnd : Option Nat
  type : Nat
  /-- The task in `*waiter`. -/
  waiter : Option Nat

/-- What has been allocated, by address. -/
structure Streams where
  stdio : Nat → Option Stdio
  node : Nat → Option FifoBuf

/-- `memcpy` of `bytes` into a node's data from index `i`. -/
def copyIn (data : Nat → UInt8) (i : Nat) : List UInt8 → Except Fault (Nat → UInt8)
  | [] => .ok data
  | b :: bytes =>
    if i < 256 then copyIn (Function.update data i b) (i + 1) bytes else .error (.outOfBounds i)

/-- `memcpy` of the first `n` bytes out of a node's data. -/
def copyOut (data : Nat → UInt8) (n : Nat) : Except Fault (List UInt8) :=
  if n ≤ 256 then .ok ((List.range n).map data) else .error (.outOfBounds n)

/-- `memcpy` inside a node's data, forwards as `rep movsb` does it. -/
def copyDown (data : Nat → UInt8) (dst src : Nat) : Nat → Except Fault (Nat → UInt8)
  | 0 => .ok data
  | n + 1 =>
    if dst < 256 ∧ src < 256 then
      copyDown (Function.update data dst (data src)) (dst + 1) (src + 1) n
    else .error (.outOfBounds src)

/-- `(unsigned char)(255-(char)datac)`. -/
def freeSpace (datac : Nat) : Nat :=
  ((255 - (if datac < 128 then (datac : Int) else datac - 256)) % 256).toNat

namespace Streams

variable (s : Streams)

def getStdio : Option Nat → Except Fault (Nat × Stdio)
  | none => .error .nullPointer
  | some p =>
    match s.stdio p with
    | none => .error (.dangling p)
    | some io => .ok (p, io)

def getNode : Option Nat → Except Fault (Nat × FifoBuf)
  | none => .error .nullPointer
  | some p =>
    match s.node p with
    | none => .error (.dangling p)
    | some m => .ok (p, m)

def setNode (p : Nat) (m : FifoBuf) : Streams := { s with node := Function.update s.node p (some m) }

def setStdio (p : Nat) (io : Stdio) : Streams :=
  { s with stdio := Function.update s.stdio p (some io) }

/-- `free` of a node. -/
def freeNode (p : Nat) : Streams := { s with node := Function.update s.node p none }

/-- The test in front of the loop of `STDOUTStream`. -/
def toTerminal (arguments : Nat) : Except Fault Bool :=
  match s.getStdio (some arguments) with
  | .error e => .error e
  | .ok (_, io) =>
    match io.pairOut with
    | none => .ok false
    | some p =>
      match s.getStdio (some p) with
      | .error e => .error e
      | .ok (_, out) => .ok (out.type = 1)

/-- One section of `STDOUTStream` with `rest` still to be written: how many bytes of it went
into the chain. `malloc` answers with the address `a` and the contents `g`. -/
def writeSection (arguments : Nat) (rest : List UInt8) (a : Nat) (g : FifoBuf) :
    Except Fault (Streams × Nat) :=
  match s.getStdio (some arguments) with
  | .error e => .error e
  | .ok (_, io) =>
    match s.getNode io.bufferOutEnd with
    | .error e => .error e
    | .ok (p, m) =>
      if m.datac ≠ 255 then
        let toWrite := min (freeSpace m.datac) rest.length
        match copyIn m.data m.datac (rest.take toWrite) with
        | .error e => .error e
        | .ok data =>
          .ok (s.setNode p { m with data := data, datac := (m.datac + toWrite) % 256 }, toWrite)
      else
        let toWrite := min 255 rest.length
        match copyIn g.data 0 (rest.take toWrite) with
        | .error e => .error e
        | .ok data =>
          .ok (((s.setNode p { m with next := some a }).setNode a
              { g with data := data, datac := toWrite % 256 }).setStdio arguments
                { io with bufferOutEnd := some a }, toWrite)

/-- How a section of `STDINStream` ends. -/
inductive ReadEnd where
  /-- `pairIn` has become null. -/
  | closed
  | toRelent
  | dropped
  | copied (bytes : List UInt8)
  deriving DecidableEq

/-- One section of `STDINStream` with `len` bytes still to be read. -/
def readSection (arguments len : Nat) : Except Fault (Streams × ReadEnd) :=
  match s.getStdio (some arguments) with
  | .error e => .error e
  | .ok (_, reader) =>
    match reader.pairIn with
    | none => .ok (s, .closed)
    | some w =>
      match s.getStdio (some w) with
      | .error e => .error e
      | .ok (_, io) =>
        match s.getNode io.bufferOut with
        | .error e => .error e
        | .ok (p, m) =>
          let toRead := min m.datac len
          if toRead = 0 then
            if io.bufferOut ≠ io.bufferOutEnd then
              .ok ((s.setStdio w { io with bufferOut := m.next }).freeNode p, .dropped)
            else .ok (s, .toRelent)
          else
            match copyOut m.data toRead with
            | .error e => .error e
            | .ok bytes =>
              match copyDown m.data 0 toRead (255 - toRead) with
              | .error e => .error e
              | .ok data =>
                .ok (s.setNode p { m with data := data, datac := m.datac - toRead }, .copied bytes)

end Streams

/-- The bytes a node holds. -/
def FifoBuf.bytes (m : FifoBuf) : List UInt8 := (List.range m.datac).map m.data

@[simp] theorem FifoBuf.length_bytes (m : FifoBuf) : m.bytes.length = m.datac := by
  simp [bytes]

theorem freeSpace_eq {datac : Nat} (h : datac < 256) : freeSpace datac = 255 - datac := by
  unfold freeSpace
  split <;> omega

theorem copyIn_ok (data : Nat → UInt8) (bytes : List UInt8) (i : Nat)
    (h : i + bytes.length ≤ 256) : ∃ data', copyIn data i bytes = .ok data' ∧
      (List.range (i + bytes.length)).map data' = (List.range i).map data ++ bytes := by
  induction bytes generalizing data i with
  | nil => exact ⟨data, rfl, by simp⟩
  | cons b bytes ih =>
      rw [List.length_cons] at h
      obtain ⟨data', hcopy, hmap⟩ := @ih (Function.update data i b) (i + 1) (by omega)
      refine ⟨data', ?_, ?_⟩
      · rw [copyIn, if_pos (by omega), hcopy]
      · have hprefix : (List.range i).map (Function.update data i b) = (List.range i).map data := by
          apply List.map_congr_left
          intro j hj
          have hne : j ≠ i := Nat.ne_of_lt (List.mem_range.mp hj)
          exact Function.update_of_ne hne b data
        have hlen : i + (bytes.length + 1) = i + 1 + bytes.length := by omega
        rw [List.length_cons, hlen, hmap, List.range_succ, List.map_append, hprefix]
        simp

theorem copyDown_ok (data : Nat → UInt8) (n : Nat) {dst src : Nat} (hle : dst ≤ src)
    (h : src + n ≤ 256) :
    ∃ data', copyDown data dst src n = .ok data' ∧ (∀ i < n, data' (dst + i) = data (src + i)) ∧
      ∀ j < dst, data' j = data j := by
  induction n generalizing data dst src with
  | zero => exact ⟨data, rfl, fun i hi => absurd hi (Nat.not_lt_zero i), fun _ _ => rfl⟩
  | succ n ih =>
      obtain ⟨data', hcopy, hmoved, hkept⟩ :=
        @ih (Function.update data dst (data src)) (dst + 1) (src + 1) (by omega) (by omega)
      refine ⟨data', ?_, fun i hi => ?_, fun j hj => ?_⟩
      · rw [copyDown, if_pos ⟨by omega, by omega⟩, hcopy]
      · cases i with
        | zero =>
            rw [Nat.add_zero, hkept dst (by omega)]
            exact Function.update_self dst (data src) data
        | succ i =>
            have hi' := hmoved i (by omega)
            have hdst : dst + 1 + i = dst + (i + 1) := by omega
            have hsrc : src + 1 + i = src + (i + 1) := by omega
            rw [hdst, hsrc] at hi'
            have hne : src + (i + 1) ≠ dst := by omega
            rw [hi']
            exact Function.update_of_ne hne _ data
      · have hne : j ≠ dst := by omega
        rw [hkept j (by omega)]
        exact Function.update_of_ne hne _ data

/-- A read takes the node's first bytes and leaves the others, in order. -/
theorem FifoBuf.take_ok {m : FifoBuf} {n : Nat} (hn : n ≤ m.datac) (hc : m.datac ≤ 255) :
    copyOut m.data n = .ok (m.bytes.take n) ∧
      ∃ data, copyDown m.data 0 n (255 - n) = .ok data ∧
        FifoBuf.bytes { m with data := data, datac := m.datac - n } = m.bytes.drop n := by
  constructor
  · rw [copyOut, if_pos (by omega), bytes, ← List.map_take, List.take_range, Nat.min_eq_left hn]
  · obtain ⟨data, hcopy, hmoved, -⟩ :=
      copyDown_ok m.data (255 - n) (Nat.zero_le n) (by omega)
    refine ⟨data, hcopy, ?_⟩
    apply List.ext_getElem
    · simp [bytes]
    · intro i h₁ h₂
      have hi : i < m.datac - n := by simpa [bytes] using h₁
      have hval := hmoved i (by omega)
      rw [Nat.zero_add] at hval
      simpa [bytes] using hval

end UnnamedOS.Stream
