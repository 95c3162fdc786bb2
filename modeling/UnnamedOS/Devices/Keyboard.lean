import Mathlib.Data.Fintype.Basic
import Mathlib.Algebra.Group.Nat.Even

/-!
# The keyboard driver

`PS2_DRIVER` reads scan codes, a byte each or two behind `0xe0`, and keeps a bit for each modifier
key, which every code of the key flips.
-/

namespace UnnamedOS.Devices

structure KP where
  ascii : UInt8
  keycode : UInt8
  pR : UInt8
  states : UInt8
  deriving DecidableEq

inductive KeyboardHalt where
  | ERR_NOKEYBOARD
  | ERR_KC_OOR (keycode : UInt8)
  deriving DecidableEq

/-- What the driver writes to its descriptor 0; a character goes to the screen as well. -/
inductive Written where
  | kp (k : KP)
  | character (ascii : UInt8)
  deriving DecidableEq

/-- What is fixed while the driver runs. -/
structure Keyboard where
  PS2_KB_CHANNEL : UInt8
  /-- The page that `KeyMap` fills from `/etc/keymap`. -/
  KM : UInt16 → UInt8

structure Driver where
  LsRsLaRaClNlLctRct : UInt8
  k : KP
  /-- `b1` was `0xe0`. -/
  extended : Bool

def Keyboard.KeyMap (kb : Keyboard) (keycode mods : UInt8) : UInt8 :=
  let index := keycode.toUInt16
  let index := if mods &&& 0x3 ≠ 0 then index + 0x80 else index
  let index := if mods &&& 0x8 ≠ 0 then index + 0x100 else index
  kb.KM index

/-- The cases of the `switch` behind `0xe0`. -/
def extendedBit : UInt8 → Option UInt8
  | 0x1D => some 0x80
  | 0x38 => some 0x8
  | _ => none

/-- The cases of the other `switch`. -/
def plainBit : UInt8 → Option UInt8
  | 0x1D => some 0x40
  | 0x2A => some 0x1
  | 0x36 => some 0x2
  | 0x38 => some 0x4
  | 0x3A => some 0x10
  | 0x45 => some 0x20
  | _ => none

namespace Driver

variable (d : Driver)

def flip (bit : UInt8) : Driver := { d with LsRsLaRaClNlLctRct := d.LsRsLaRaClNlLctRct ^^^ bit }

/-- `k->ascii` and `k->states`. -/
def fill (kb : Keyboard) : Driver :=
  { d with k := { d.k with
      ascii := kb.KeyMap d.k.keycode d.LsRsLaRaClNlLctRct
      states := d.LsRsLaRaClNlLctRct } }

/-- One byte of the keyboard, and `keyboard_is_raw` where it is tested. -/
def read (kb : Keyboard) (raw : Bool) (b : UInt8) : Except KeyboardHalt (Driver × List Written) :=
  if kb.PS2_KB_CHANNEL &&& 0x1 = 0 then .error .ERR_NOKEYBOARD
  else if d.extended then
    let d := { d with
      extended := false
      k := { d.k with keycode := b ||| 0x80, pR := (b &&& 0x80) >>> 7 } }
    match extendedBit (d.k.keycode ^^^ 0x80) with
    | some bit => .ok (d.flip bit, [])
    | none =>
      let d := d.fill kb
      .ok (d, if raw then [.kp d.k] else [])
  else if b = 0xe0 then .ok ({ d with extended := true }, [])
  else
    let d := { d with
      k := { d.k with keycode := (b ||| 0x80) ^^^ 0x80, pR := (b &&& 0x80) >>> 7 } }
    match plainBit d.k.keycode with
    | some bit => .ok (d.flip bit, [])
    | none =>
      if d.k.keycode > (0x80 : UInt8) then .error (.ERR_KC_OOR d.k.keycode)
      else
        let d := d.fill kb
        .ok (d, if raw then [.kp d.k] else if d.k.pR ≠ 0 then [.character d.k.ascii] else [])

def readAll (kb : Keyboard) (raw : Bool) :
    List UInt8 → Driver → Except KeyboardHalt (Driver × List Written)
  | [], d => .ok (d, [])
  | b :: bytes, d => do
    let (d, out) ← d.read kb raw b
    let (d, more) ← readAll kb raw bytes d
    return (d, out ++ more)

end Driver

/-! ## Keys -/

/-- The break code of a key `0x60` would be the prefix. -/
structure Key where
  extended : Bool
  code : Fin 128
  sendable : extended = true ∨ code ≠ 0x60
  deriving DecidableEq

inductive KeyEvent where
  | make (key : Key)
  | release (key : Key)
  deriving DecidableEq

namespace KeyEvent

def key : KeyEvent → Key
  | make k => k
  | release k => k

def prefixBytes (k : Key) : List UInt8 := if k.extended then [0xe0] else []

/-- The make code, and the break code with the highest bit set. -/
def lastByte : KeyEvent → UInt8
  | make k => .ofNat k.code
  | release k => .ofNat k.code ||| 0x80

def bytes (e : KeyEvent) : List UInt8 := prefixBytes e.key ++ [e.lastByte]

end KeyEvent

/-- What a key has done: whether it is down, and how often its make code was a repetition. -/
structure Track where
  down : Bool
  repeats : Nat

def Track.step (k : Key) (t : Track) (e : KeyEvent) : Track :=
  if e.key = k then
    match e with
    | .make _ => ⟨true, if t.down then t.repeats + 1 else t.repeats⟩
    | .release _ => ⟨false, t.repeats⟩
  else t

def track (k : Key) (events : List KeyEvent) : Track := events.foldl (Track.step k) ⟨false, 0⟩

def Down (events : List KeyEvent) (k : Key) : Prop := (track k events).down = true

def repeats (events : List KeyEvent) (k : Key) : Nat := (track k events).repeats

/-- A break code comes from a key that is down. -/
def Sendable (events : List KeyEvent) : Prop :=
  ∀ before k after, events = before ++ .release k :: after → Down before k

inductive Modifier where
  | leftShift
  | rightShift
  | leftAlt
  | rightAlt
  | leftControl
  | rightControl
  deriving DecidableEq

namespace Modifier

def key : Modifier → Key
  | leftShift => ⟨false, 0x2A, by decide⟩
  | rightShift => ⟨false, 0x36, by decide⟩
  | leftAlt => ⟨false, 0x38, by decide⟩
  | rightAlt => ⟨true, 0x38, by decide⟩
  | leftControl => ⟨false, 0x1D, by decide⟩
  | rightControl => ⟨true, 0x1D, by decide⟩

/-- The place of the key in `LsRsLaRaClNlLctRct`. -/
def bit : Modifier → Fin 8
  | leftShift => 0
  | rightShift => 1
  | leftAlt => 2
  | rightAlt => 3
  | leftControl => 6
  | rightControl => 7

def SetIn (m : Modifier) (states : UInt8) : Prop := states &&& 1 <<< UInt8.ofNat m.bit ≠ 0

instance (m : Modifier) (states : UInt8) : Decidable (m.SetIn states) :=
  inferInstanceAs (Decidable (states &&& 1 <<< UInt8.ofNat m.bit ≠ 0))

end Modifier

/-- A `KP`, with the events up to it. -/
def Written.logged (past : List KeyEvent) : Written → Option (List KeyEvent × KP)
  | .kp k => some (past, k)
  | .character _ => none

/-- The events that have come, each with `keyboard_is_raw` at it; with each `KP` that is written,
the events up to then. -/
def typed (kb : Keyboard) : List KeyEvent → List (KeyEvent × Bool) → Driver →
    Except KeyboardHalt (List (List KeyEvent × KP))
  | _, [], _ => .ok []
  | past, (e, raw) :: input, d => do
    let (d, out) ← d.readAll kb raw e.bytes
    let more ← typed kb (past ++ [e]) input d
    return out.filterMap (Written.logged (past ++ [e])) ++ more

/-! ## One event -/

variable {kb : Keyboard} {d d' : Driver} {raw : Bool} {e : KeyEvent} {k : Key} {m : Modifier}
  {past : List KeyEvent} {input : List (KeyEvent × Bool)}

/-- The bit of the driver's that a key flips. -/
def Key.flips (k : Key) : Option UInt8 :=
  if k.extended then extendedBit (.ofNat k.code) else plainBit (.ofNat k.code)

theorem lastByte_code (e : KeyEvent) : (e.lastByte ||| 0x80) ^^^ 0x80 = .ofNat e.key.code := by
  have hmake : ∀ c : Fin 128, ((.ofNat c : UInt8) ||| 0x80) ^^^ 0x80 = .ofNat c := by decide
  have hrelease : ∀ c : Fin 128, ((.ofNat c ||| 0x80 : UInt8) ||| 0x80) ^^^ 0x80 = .ofNat c := by
    decide
  cases e with
  | make k => exact hmake k.code
  | release k => exact hrelease k.code

theorem lastByte_ne_e0 (h : e.key.extended = false) : e.lastByte ≠ 0xe0 := by
  have hmake : ∀ c : Fin 128, (.ofNat c : UInt8) ≠ 0xe0 := by decide
  have hrelease : ∀ c : Fin 128, c ≠ 0x60 → (.ofNat c ||| 0x80 : UInt8) ≠ 0xe0 := by decide
  cases e with
  | make k => exact hmake k.code
  | release k =>
      rcases k.sendable with htrue | hcode
      · exact absurd (htrue.symm.trans h) (by decide)
      · exact hrelease k.code hcode

theorem code_le (c : Fin 128) : ¬ (.ofNat c : UInt8) > 0x80 := by
  revert c
  decide

/-- What an event does: a modifier's flips its bit and writes nothing, any other reports the bits. -/
structure Pressed (d : Driver) (e : KeyEvent) (raw : Bool) (d' : Driver) (out : List Written) :
    Prop where
  extended : d'.extended = false
  flipped : ∀ bit, e.key.flips = some bit →
    d'.LsRsLaRaClNlLctRct = d.LsRsLaRaClNlLctRct ^^^ bit ∧ out = []
  kept : e.key.flips = none → d'.LsRsLaRaClNlLctRct = d.LsRsLaRaClNlLctRct
  reported : e.key.flips = none → raw = true →
    ∃ k, out = [.kp k] ∧ k.states = d.LsRsLaRaClNlLctRct
  cooked : raw = false → ∀ k, .kp k ∉ out

theorem read_extended (hch : kb.PS2_KB_CHANNEL &&& 0x1 ≠ 0) (hd : d.extended = true)
    (he : e.key.extended = true) : ∃ d' out, d.read kb raw e.lastByte = .ok (d', out) ∧
      Pressed d e raw d' out := by
  have hcode : (e.lastByte ||| 0x80) ^^^ 0x80 = .ofNat e.key.code := lastByte_code e
  have hflips : e.key.flips = extendedBit (.ofNat e.key.code) := by
    rw [Key.flips, if_pos he]
  rw [Driver.read, if_neg hch, if_pos hd]
  dsimp only
  rw [hcode, ← hflips]
  cases hbit : e.key.flips with
  | some bit =>
      refine ⟨_, _, rfl, rfl, fun b hb => ?_, fun hn => ?_, fun hn => ?_,
        fun _ k => List.not_mem_nil⟩
      · rw [← Option.some.inj (hbit.symm.trans hb)]
        exact ⟨rfl, rfl⟩
      · exact absurd (hbit.symm.trans hn) (by simp)
      · exact absurd (hbit.symm.trans hn) (by simp)
  | none =>
      refine ⟨_, _, rfl, rfl, fun b hb => absurd (hbit.symm.trans hb) (by simp), fun _ => rfl,
        fun _ hraw => ?_, fun hraw k => ?_⟩
      · rw [hraw]
        exact ⟨_, rfl, rfl⟩
      · rw [hraw]
        exact List.not_mem_nil

theorem read_plain (hch : kb.PS2_KB_CHANNEL &&& 0x1 ≠ 0) (hd : d.extended = false)
    (he : e.key.extended = false) : ∃ d' out, d.read kb raw e.lastByte = .ok (d', out) ∧
      Pressed d e raw d' out := by
  have hcode : (e.lastByte ||| 0x80) ^^^ 0x80 = .ofNat e.key.code := lastByte_code e
  have hflips : e.key.flips = plainBit (.ofNat e.key.code) := by
    rw [Key.flips, he]
    rfl
  rw [Driver.read, if_neg hch, if_neg (by rw [hd]; decide), if_neg (lastByte_ne_e0 he)]
  dsimp only
  rw [hcode, ← hflips, if_neg (code_le e.key.code)]
  cases hbit : e.key.flips with
  | some bit =>
      refine ⟨_, _, rfl, hd, fun b hb => ?_, fun hn => ?_, fun hn => ?_,
        fun _ k => List.not_mem_nil⟩
      · rw [← Option.some.inj (hbit.symm.trans hb)]
        exact ⟨rfl, rfl⟩
      · exact absurd (hbit.symm.trans hn) (by simp)
      · exact absurd (hbit.symm.trans hn) (by simp)
  | none =>
      refine ⟨_, _, rfl, hd, fun b hb => absurd (hbit.symm.trans hb) (by simp), fun _ => rfl,
        fun _ hraw => ?_, fun hraw k hk => ?_⟩
      · rw [hraw]
        exact ⟨_, rfl, rfl⟩
      · rw [hraw, if_neg (by decide)] at hk
        split at hk
        · cases List.mem_singleton.mp hk
        · cases hk

theorem readAll_event (hch : kb.PS2_KB_CHANNEL &&& 0x1 ≠ 0) (hd : d.extended = false) (e : KeyEvent)
    (raw : Bool) : ∃ d' out, d.readAll kb raw e.bytes = .ok (d', out) ∧ Pressed d e raw d' out := by
  cases he : e.key.extended with
  | false =>
      obtain ⟨d', out, hread, hpressed⟩ := read_plain hch hd he
      have hbytes : e.bytes = [e.lastByte] := by
        rw [KeyEvent.bytes, KeyEvent.prefixBytes, he]
        rfl
      refine ⟨d', out ++ [], ?_, (List.append_nil out).symm ▸ hpressed⟩
      rw [hbytes, Driver.readAll, hread]
      rfl
  | true =>
      obtain ⟨d', out, hread, hpressed⟩ :=
        read_extended (d := { d with extended := true }) hch rfl he
      have hbytes : e.bytes = [0xe0, e.lastByte] := by
        rw [KeyEvent.bytes, KeyEvent.prefixBytes, he]
        rfl
      have hfirst : d.read kb raw 0xe0 = .ok ({ d with extended := true }, []) := by
        rw [Driver.read, if_neg hch, if_neg (by rw [hd]; decide), if_pos rfl]
      refine ⟨d', [] ++ (out ++ []), ?_, ?_⟩
      · rw [hbytes, Driver.readAll, hfirst]
        change (do
          let (d, more) ← Driver.readAll kb raw [e.lastByte] { d with extended := true }
          pure (d, [] ++ more)) = _
        rw [Driver.readAll, hread]
        rfl
      · rw [List.nil_append, List.append_nil]
        exact ⟨hpressed.extended, hpressed.flipped, hpressed.kept, hpressed.reported,
          hpressed.cooked⟩

/-! ## Bits -/

theorem ne_zero_iff_bit (s : UInt8) : s ≠ 0 ↔ ∃ j : Fin 8, s.toBitVec.getLsbD j = true := by
  constructor
  · intro h
    by_contra hnone
    apply h
    apply UInt8.toBitVec_inj.mp
    apply BitVec.eq_of_getLsbD_eq
    intro j hj
    have hbit := not_exists.mp hnone ⟨j, hj⟩
    rw [Bool.not_eq_true] at hbit
    simpa using hbit
  · rintro ⟨j, hj⟩ rfl
    simp at hj

theorem getLsbD_one_shift (i j : Fin 8) :
    ((1 : UInt8) <<< UInt8.ofNat i).toBitVec.getLsbD j = decide (i = j) := by
  revert i j
  decide

theorem Modifier.setIn_iff (m : Modifier) (states : UInt8) :
    m.SetIn states ↔ states.toBitVec.getLsbD m.bit = true := by
  rw [SetIn, ne_zero_iff_bit]
  constructor
  · rintro ⟨j, hj⟩
    rw [UInt8.toBitVec_and, BitVec.getLsbD_and, getLsbD_one_shift, Bool.and_eq_true,
      decide_eq_true_iff] at hj
    rw [hj.2]
    exact hj.1
  · intro h
    refine ⟨m.bit, ?_⟩
    rw [UInt8.toBitVec_and, BitVec.getLsbD_and, getLsbD_one_shift, h]
    simp

theorem Modifier.setIn_flip (m : Modifier) (states : UInt8) (i : Fin 8) :
    m.SetIn (states ^^^ 1 <<< UInt8.ofNat i) ↔ (m.SetIn states ↔ i ≠ m.bit) := by
  rw [setIn_iff, setIn_iff, UInt8.toBitVec_xor, BitVec.getLsbD_xor, getLsbD_one_shift]
  by_cases h : i = m.bit <;> simp [h]

/-- Each key that flips a bit flips one. -/
theorem Key.flips_one {bit : UInt8} (h : k.flips = some bit) :
    ∃ i : Fin 8, bit = 1 <<< UInt8.ofNat i := by
  have hone : ∀ x : Bool, ∀ c : Fin 128, ∀ bit,
      (if x then extendedBit (.ofNat c) else plainBit (.ofNat c)) = some bit →
        ∃ i : Fin 8, bit = 1 <<< UInt8.ofNat i := by
    intro x c bit hbit
    cases x <;> simp only [Bool.false_eq_true, if_true, if_false] at hbit
    · unfold plainBit at hbit
      split at hbit <;> cases hbit <;> decide
    · unfold extendedBit at hbit
      split at hbit <;> cases hbit <;> decide
  exact hone k.extended k.code bit h

/-- A modifier's bit is flipped by its key alone. -/
theorem Key.flips_modifier (k : Key) (m : Modifier) :
    k.flips = some (1 <<< UInt8.ofNat m.bit) ↔ k = m.key := by
  have hall : ∀ m : Modifier, ∀ x : Bool, ∀ c : Fin 128,
      (if x then extendedBit (.ofNat c) else plainBit (.ofNat c)) =
        some (1 <<< UInt8.ofNat m.bit) ↔ x = m.key.extended ∧ c = m.key.code := by
    intro m
    cases m <;> decide
  rw [Key.flips, hall]
  constructor
  · rintro ⟨hx, hc⟩
    cases k
    cases hkey : m.key
    rw [hkey] at hx hc
    simp_all
  · rintro rfl
    exact ⟨rfl, rfl⟩

/-! ## Streams of codes -/

theorem track_concat (k : Key) (past : List KeyEvent) (e : KeyEvent) :
    track k (past ++ [e]) = (track k past).step k e := by
  rw [track, List.foldl_append]
  rfl

theorem track_other (h : e.key ≠ k) : track k (past ++ [e]) = track k past := by
  rw [track_concat, Track.step.eq_def, if_neg h]

/-- Between two events: the bit of a modifier is right as long as its repetitions are even. -/
structure Follows (d : Driver) (past : List KeyEvent) : Prop where
  extended : d.extended = false
  bits : ∀ m : Modifier, m.SetIn d.LsRsLaRaClNlLctRct ↔
    (Down past m.key ↔ Even (repeats past m.key))

/-- A code of a key flips the bit, and either what the key is or the number of repetitions. -/
theorem down_iff_even_flip (hrelease : e = .release k → Down past k) (he : e.key = k) :
    (Down (past ++ [e]) k ↔ Even (repeats (past ++ [e]) k)) ↔
      ¬ (Down past k ↔ Even (repeats past k)) := by
  rw [Down, Down, repeats, repeats, track_concat, Track.step.eq_def, if_pos he]
  cases e with
  | make j =>
      cases hdown : (track k past).down with
      | false => simp
      | true => simp [Nat.even_add_one]
  | release j =>
      obtain rfl : j = k := he
      have hdown : (track j past).down = true := hrelease rfl
      simp [hdown]

theorem Follows.pressed (h : Follows d past) (hrelease : ∀ k, e = .release k → Down past k)
    {out : List Written} (hp : Pressed d e raw d' out) : Follows d' (past ++ [e]) := by
  refine ⟨hp.extended, fun m => ?_⟩
  by_cases hkey : e.key = m.key
  · obtain ⟨hbits, -⟩ := hp.flipped _ ((Key.flips_modifier e.key m).mpr hkey)
    rw [hbits, m.setIn_flip, h.bits m, down_iff_even_flip (hrelease m.key) hkey]
    exact ⟨fun hiff hdown => hiff.mp hdown rfl, fun hnot => ⟨fun hdown => absurd hdown hnot,
      fun hne => absurd rfl hne⟩⟩
  · rw [Down, repeats, track_other hkey, ← Down, ← repeats, ← h.bits m]
    cases hflips : e.key.flips with
    | none => rw [hp.kept hflips]
    | some bit =>
        obtain ⟨i, rfl⟩ := Key.flips_one hflips
        have hne : i ≠ m.bit := fun heq =>
          hkey ((Key.flips_modifier e.key m).mp (heq ▸ hflips))
        rw [(hp.flipped _ hflips).1, m.setIn_flip]
        exact iff_true_right hne

/-- What is reported when a key that is no modifier's sends a code. -/
theorem Follows.truthful_iff (h : Follows d past) {p : KP} (hstates : p.states = d.LsRsLaRaClNlLctRct)
    (hflips : e.key.flips = none) : (∀ m : Modifier, m.SetIn p.states ↔ Down (past ++ [e]) m.key) ↔
      ∀ m : Modifier, Even (repeats past m.key) := by
  apply forall_congr'
  intro m
  have hkey : e.key ≠ m.key := by
    intro heq
    rw [(Key.flips_modifier e.key m).mpr heq] at hflips
    cases hflips
  rw [hstates, h.bits m, Down, Down, track_other hkey]
  by_cases hdown : (track m.key past).down = true <;> simp [hdown]

/-- What each `KP` says of the modifiers is so. -/
def Truthful (log : List (List KeyEvent × KP)) : Prop :=
  ∀ entry ∈ log, ∀ m : Modifier, m.SetIn entry.2.states ↔ Down entry.1 m.key

/-- Whenever a `KP` is due, each modifier key has repeated its make code an even number of times. -/
def EvenRepeats (past : List KeyEvent) (input : List (KeyEvent × Bool)) : Prop :=
  ∀ before e after, input = before ++ (e, true) :: after → e.key.flips = none →
    ∀ m : Modifier, Even (repeats (past ++ before.map Prod.fst) m.key)

theorem evenRepeats_cons : EvenRepeats past ((e, raw) :: input) ↔
    (raw = true → e.key.flips = none → ∀ m : Modifier, Even (repeats past m.key)) ∧
      EvenRepeats (past ++ [e]) input := by
  constructor
  · intro h
    refine ⟨?_, fun before e' after heq hflips m => ?_⟩
    · rintro rfl hflips m
      have heven := h [] e input rfl hflips m
      rwa [List.map_nil, List.append_nil] at heven
    · have heven := h ((e, raw) :: before) e' after (by rw [heq]; rfl) hflips m
      rw [List.append_assoc]
      exact heven
  · rintro ⟨hhead, htail⟩ before e' after heq hflips m
    cases before with
    | nil =>
        obtain ⟨hhd, rfl⟩ := List.cons.inj heq
        obtain ⟨rfl, rfl⟩ := Prod.mk.inj hhd
        rw [List.map_nil, List.append_nil]
        exact hhead rfl hflips m
    | cons x before =>
        obtain ⟨rfl, rfl⟩ := List.cons.inj heq
        have heven := htail before e' after rfl hflips m
        rw [List.append_assoc] at heven
        exact heven

theorem typed_truthful (hch : kb.PS2_KB_CHANNEL &&& 0x1 ≠ 0) (h : Follows d past)
    (hsend : Sendable (past ++ input.map Prod.fst)) :
    ∃ log, typed kb past input d = .ok log ∧ (Truthful log ↔ EvenRepeats past input) := by
  induction input generalizing d past with
  | nil =>
      refine ⟨[], rfl, iff_of_true (fun _ hentry => absurd hentry List.not_mem_nil) ?_⟩
      intro before e after heq
      exact absurd heq.symm (by simp)
  | cons x input ih =>
      obtain ⟨e, raw⟩ := x
      obtain ⟨d', out, hread, hp⟩ := readAll_event hch h.extended e raw
      have hrelease : ∀ k, e = .release k → Down past k :=
        fun k heq => hsend past k (input.map Prod.fst) (by rw [← heq]; rfl)
      have hsend' : Sendable (past ++ [e] ++ input.map Prod.fst) := by
        rw [List.append_assoc]
        exact hsend
      obtain ⟨log, hlog, hiff⟩ := ih (h.pressed hrelease hp) hsend'
      have hexec : typed kb past ((e, raw) :: input) d =
          .ok (out.filterMap (Written.logged (past ++ [e])) ++ log) := by
        rw [typed, hread]
        change (do
          let more ← typed kb (past ++ [e]) input d'
          pure (_ ++ more)) = _
        rw [hlog]
        rfl
      refine ⟨_, hexec, ?_⟩
      rw [evenRepeats_cons, ← hiff, Truthful, List.forall_mem_append]
      refine and_congr_left fun _ => ?_
      cases hflips : e.key.flips with
      | some bit =>
          rw [(hp.flipped bit hflips).2]
          exact iff_of_true (fun _ hentry => absurd hentry List.not_mem_nil)
            fun _ hn => absurd hn (by simp)
      | none =>
          cases hraw : raw with
          | false =>
              refine iff_of_true (fun entry hentry => ?_) fun hn => absurd hn (by decide)
              obtain ⟨w, hw, hsome⟩ := List.mem_filterMap.mp hentry
              cases w with
              | kp k => exact absurd hw (hp.cooked hraw k)
              | character c => cases hsome
          | true =>
              obtain ⟨k, rfl, hstates⟩ := hp.reported hflips hraw
              rw [← h.truthful_iff hstates hflips]
              simp [Written.logged]

/-- Where `PS2_DRIVER` enters its loop. -/
def Driver.start (k : KP) : Driver := ⟨0, k, false⟩

theorem start_follows (k : KP) : Follows (Driver.start k) [] := by
  refine ⟨rfl, fun m => ?_⟩
  have hset : ¬ m.SetIn 0 := by cases m <;> decide
  have hup : ¬ Down [] m.key := fun h => by cases h
  exact iff_of_false hset fun h => hup (h.mpr ⟨0, rfl⟩)

theorem modifiers_follow_keys_iff (hch : kb.PS2_KB_CHANNEL &&& 0x1 ≠ 0) (k : KP)
    (hsend : Sendable (input.map Prod.fst)) : ∃ log,
      typed kb [] input (Driver.start k) = .ok log ∧ (Truthful log ↔ EvenRepeats [] input) :=
  typed_truthful hch (start_follows k) hsend

/-- A keyboard on the first channel, and no keymap. -/
def zeroKeyboard : Keyboard := ⟨1, fun _ => 0⟩

/-- The key `0x1E`, no modifier's. -/
def letterKey : Key := ⟨false, 0x1E, by decide⟩

theorem modifiers_follow_keys_pressed : ∃ log,
    typed zeroKeyboard [] [(.make Modifier.leftShift.key, true), (.make letterKey, true)]
      (Driver.start ⟨0, 0, 0, 0⟩) = .ok log ∧
    (Truthful log ↔
      EvenRepeats [] [(.make Modifier.leftShift.key, true), (.make letterKey, true)]) := by
  refine modifiers_follow_keys_iff (by decide) ⟨0, 0, 0, 0⟩ fun before k after heq => ?_
  have hmem : KeyEvent.release k ∈ [.make Modifier.leftShift.key, .make letterKey] := by
    rw [show [KeyEvent.make Modifier.leftShift.key, .make letterKey] = before ++ .release k :: after
      from heq]
    exact List.mem_append_right before List.mem_cons_self
  simp at hmem

/-- A held shift key repeats its make code once. -/
def repeatedShift : List (KeyEvent × Bool) :=
  [(.make Modifier.leftShift.key, true), (.make Modifier.leftShift.key, true),
    (.make letterKey, true)]

theorem repeated_shift_not_reported : Sendable (repeatedShift.map Prod.fst) ∧
    ¬ ∀ log, typed zeroKeyboard [] repeatedShift (Driver.start ⟨0, 0, 0, 0⟩) = .ok log →
      Truthful log := by
  constructor
  · intro before k after heq
    have hmem : KeyEvent.release k ∈ repeatedShift.map Prod.fst := by
      rw [heq]
      exact List.mem_append_right before List.mem_cons_self
    simp [repeatedShift] at hmem
  · intro h
    have hdown : Down (repeatedShift.map Prod.fst) Modifier.leftShift.key := rfl
    have hentry := h [(repeatedShift.map Prod.fst, ⟨0, 0x1E, 0, 0⟩)] rfl
    exact (hentry _ List.mem_cons_self .leftShift).mpr hdown (by decide)

/-- A key whose codes have no prefix. -/
def plainKey (code : Fin 128) (h : code.val ≠ 0x60) : Key :=
  ⟨false, code, .inr fun heq => h (congrArg Fin.val heq)⟩

end UnnamedOS.Devices
