import UnnamedOS.Stream.PipeFidelity

/-!
# Waking the reader of a pipe

One writer and one reader, with the steps outside the sections: the reader that has found the
chain empty registers as the waiter in `wfPokeT` and blocks; the writer tests `*waiter` after
each of its sections and pokes. A test that comes between the reader's section and its
registration wakes nobody.
-/

namespace UnnamedOS.Stream

open UnnamedOS.Lib Streams

inductive WriterPc where
  | returned
  /-- In front of `acquire_semaphore`, with bytes left. -/
  | section
  /-- Behind `release_semaphore`, in front of the test of `*waiter`. -/
  | test
  deriving DecidableEq

inductive ReaderPc where
  | returned
  | section
  /-- `toRelent` is set and `wfPokeT` has not run. -/
  | relent
  | blocked
  deriving DecidableEq

inductive WakeHalt where
  | fault (f : Fault)
  | pokeNullp
  deriving DecidableEq

structure WakeState extends Streams where
  W : Nat
  R : Nat
  /-- The reader's task control block. -/
  task : Nat
  writer : WriterPc
  rest : List UInt8
  reader : ReaderPc
  len : Nat

namespace WakeState

variable (s : WakeState)

def wfPokeT : Except WakeHalt WakeState :=
  match s.getStdio (some s.R) with
  | .error f => .error (.fault f)
  | .ok (_, rd) =>
    match s.getStdio rd.pairIn with
    | .error f => .error (.fault f)
    | .ok (w, io) =>
      match io.waiter with
      | some _ => .error .pokeNullp
      | none =>
        .ok { s with
          toStreams := s.setStdio w { io with waiter := some s.task }
          reader := .blocked }

/-- The test of `*waiter`, with `PokeT` or `nano_sleep`, and the way back to the loop's head. -/
def pokeT : Except WakeHalt WakeState :=
  match s.getStdio (some s.W) with
  | .error f => .error (.fault f)
  | .ok (w, io) =>
    let next : WriterPc := if s.rest = [] then .returned else .section
    match io.waiter with
    | none => .ok { s with writer := next }
    | some t =>
      .ok { s with
        toStreams := s.setStdio w { io with waiter := none }
        writer := next
        reader := if t = s.task ∧ s.reader = .blocked then .section else s.reader }

def write (bytes : List UInt8) : Except WakeHalt WakeState :=
  match s.toTerminal s.W with
  | .error f => .error (.fault f)
  | .ok true => .ok s
  | .ok false => .ok { s with writer := if bytes = [] then .returned else .section, rest := bytes }

def writeStep (a : Nat) (g : FifoBuf) : Except WakeHalt WakeState :=
  match s.toStreams.writeSection s.W s.rest a g with
  | .error f => .error (.fault f)
  | .ok (t, n) => .ok { s with toStreams := t, rest := s.rest.drop n, writer := .test }

def readStep : Except WakeHalt WakeState :=
  match s.toStreams.readSection s.R s.len with
  | .error f => .error (.fault f)
  | .ok (t, .closed) => .ok { s with toStreams := t, reader := .returned }
  | .ok (t, .toRelent) => .ok { s with toStreams := t, reader := .relent }
  | .ok (t, .dropped) => .ok { s with toStreams := t }
  | .ok (t, .copied bytes) =>
    .ok { s with
      toStreams := t
      len := s.len - bytes.length
      reader := if s.len - bytes.length = 0 then .returned else .section }

end WakeState

inductive WakeOp where
  | write (bytes : List UInt8)
  | writeSection (a : Nat) (g : FifoBuf)
  | test
  | read (len : Nat)
  | readSection
  | wfPokeT

namespace WakeOp

def exec (s : WakeState) : WakeOp → Except WakeHalt WakeState
  | write bytes => s.write bytes
  | writeSection a g => s.writeStep a g
  | test => s.pokeT
  | read len => .ok { s with len := len, reader := if len = 0 then .returned else .section }
  | readSection => s.readStep
  | wfPokeT => s.wfPokeT

def Enabled (s : WakeState) : WakeOp → Prop
  | write bytes => s.writer = .returned ∧ bytes.length < 0x80000000
  | writeSection a _ => s.writer = .section ∧ s.node a = none
  | test => s.writer = .test
  | read len => s.reader = .returned ∧ len < 0x80000000
  | readSection => s.reader = .section
  | wfPokeT => s.reader = .relent

instance (s : WakeState) : ∀ op : WakeOp, Decidable (op.Enabled s)
  | write bytes => inferInstanceAs (Decidable (s.writer = .returned ∧ bytes.length < 0x80000000))
  | writeSection a _ => inferInstanceAs (Decidable (s.writer = .section ∧ s.node a = none))
  | test => inferInstanceAs (Decidable (s.writer = .test))
  | read len => inferInstanceAs (Decidable (s.reader = .returned ∧ len < 0x80000000))
  | readSection => inferInstanceAs (Decidable (s.reader = .section))
  | wfPokeT => inferInstanceAs (Decidable (s.reader = .relent))

def step (s : WakeState) (op : WakeOp) (s' : WakeState) : Prop := op.Enabled s ∧ op.exec s = .ok s'

end WakeOp

variable {s s' s₀ : WakeState} {op : WakeOp} {ops : List WakeOp} {bytes : List UInt8}

def WakeState.Holds (s : WakeState) (bytes : List UInt8) : Prop :=
  ∃ io l e, Pipeline s.toStreams s.W io l e ∧ s.held (l ++ [e]) = bytes

/-- The reader waits for a poke, there are bytes for it, and the writer has returned. -/
def WakeState.Stuck (s : WakeState) : Prop :=
  s.reader = .blocked ∧ s.writer = .returned ∧ ∃ bytes, s.Holds bytes ∧ bytes ≠ []

/-- The writer does not make its last test between the reader's decision to wait and its
registration while there are bytes in the chain. -/
def WakeOp.Safe (s : WakeState) : WakeOp → Prop
  | .test => ¬ (s.reader = .relent ∧ s.rest = [] ∧ ∃ bytes, s.Holds bytes ∧ bytes ≠ [])
  | .write _ => True
  | .writeSection _ _ => True
  | .read _ => True
  | .readSection => True
  | .wfPokeT => True

/-- What holds of the chain and the bindings in every state, and who is registered. -/
structure WakeBase (s : WakeState) : Prop where
  chain : ∃ io l e, Pipeline s.toStreams s.W io l e ∧
    io.waiter = if s.reader = .blocked then some s.task else none
  bound : Bound s.toStreams s.W s.R
  rest : s.writer = .section → s.rest ≠ []
  len : s.reader ≠ .returned → 1 ≤ s.len

/-- A reader that waits or is about to wait is owed a test as long as there are bytes. -/
structure WakeInv (s : WakeState) : Prop extends WakeBase s where
  owed : s.reader = .relent ∨ s.reader = .blocked → (∃ bytes, s.Holds bytes ∧ bytes ≠ []) →
    s.writer ≠ .returned

theorem WakeInv.not_stuck (hi : WakeInv s) : ¬ s.Stuck :=
  fun ⟨hr, hw, hb⟩ => hi.owed (Or.inr hr) hb hw

/-- A `stdIO` has one chain, so the held bytes are determined. -/
theorem Pipeline.unique {t : Streams} {w e e' : Nat} {io io' : Stdio} {l l' : List Nat}
    (hp : Pipeline t w io l e) (hp' : Pipeline t w io' l' e') : l ++ [e] = l' ++ [e'] := by
  obtain rfl := Option.some.inj (hp.stdio.symm.trans hp'.stdio)
  obtain rfl := Option.some.inj (hp.last.symm.trans hp'.last)
  exact congrArg (· ++ [e]) (seg_unique hp.chain hp'.chain hp.notMem hp'.notMem)

theorem WakeState.Holds.unique {bs : List UInt8} (h : s.Holds bytes) (h' : s.Holds bs) :
    bytes = bs := by
  obtain ⟨io, l, e, hp, rfl⟩ := h
  obtain ⟨io', l', e', hp', rfl⟩ := h'
  rw [hp.unique hp']

/-- The waiter field is the only one `wfPokeT` and `PokeT` write. -/
theorem Pipeline.setWaiter {t : Streams} {w e : Nat} {io : Stdio} {l : List Nat}
    (hp : Pipeline t w io l e) (x : Option Nat) :
    Pipeline (t.setStdio w { io with waiter := x }) w { io with waiter := x } l e :=
  ⟨setStdio_same, hp.last, hp.chain, hp.nodup, hp.nodes⟩

theorem Bound.setWaiter {t : Streams} {W R w : Nat} {io : Stdio} (hb : Bound t W R)
    (hio : t.stdio w = some io) (x : Option Nat) :
    Bound (t.setStdio w { io with waiter := x }) W R := by
  have hget : ∀ p io₁, t.stdio p = some io₁ → ∃ io₂,
      (t.setStdio w { io with waiter := x }).stdio p = some io₂ ∧ io₂.pairIn = io₁.pairIn ∧
        io₂.pairOut = io₁.pairOut ∧ io₂.type = io₁.type := by
    intro p io₁ hp
    by_cases hpw : p = w
    · subst hpw
      obtain rfl := Option.some.inj (hio.symm.trans hp)
      exact ⟨_, setStdio_same, rfl, rfl, rfl⟩
    · exact ⟨io₁, by rw [setStdio_other hpw, hp], rfl, rfl, rfl⟩
  have hback : ∀ p io₂, (t.setStdio w { io with waiter := x }).stdio p = some io₂ → ∃ io₁,
      t.stdio p = some io₁ ∧ io₂.pairOut = io₁.pairOut := by
    intro p io₂ hp
    by_cases hpw : p = w
    · subst hpw
      rw [setStdio_same] at hp
      exact ⟨io, hio, by rw [← Option.some.inj hp]⟩
    · rw [setStdio_other hpw] at hp
      exact ⟨io₂, hp, rfl⟩
  constructor
  · obtain ⟨rd, hrd, hpair⟩ := hb.reader
    obtain ⟨rd', hrd', hin, -⟩ := hget R rd hrd
    exact ⟨rd', hrd', hin.trans hpair⟩
  · intro io₂ p hio₂ hout
    obtain ⟨io₁, hio₁, hpo⟩ := hback _ _ hio₂
    obtain ⟨out, hto, htype⟩ := hb.noTerminal io₁ p hio₁ (hpo ▸ hout)
    obtain ⟨out', hto', -, -, hty⟩ := hget p out hto
    exact ⟨out', hto', fun heq => htype (hty.symm.trans heq)⟩

theorem pokeT_none {io : Stdio} (hio : s.stdio s.W = some io) (hw : io.waiter = none) :
    s.pokeT = .ok { s with writer := if s.rest = [] then .returned else .section } := by
  have hget : s.getStdio (some s.W) = .ok (s.W, io) := by rw [getStdio, hio]
  rw [WakeState.pokeT, hget]
  dsimp only
  rw [hw]

theorem pokeT_some {io : Stdio} (hio : s.stdio s.W = some io) (hw : io.waiter = some s.task)
    (hblocked : s.reader = .blocked) :
    s.pokeT = .ok { s with
      toStreams := s.setStdio s.W { io with waiter := none }
      writer := if s.rest = [] then .returned else .section
      reader := .section } := by
  have hget : s.getStdio (some s.W) = .ok (s.W, io) := by rw [getStdio, hio]
  have hthen : s.task = s.task ∧ s.reader = .blocked := ⟨rfl, hblocked⟩
  rw [WakeState.pokeT, hget]
  dsimp only
  rw [hw]
  dsimp only
  rw [if_pos hthen]

theorem wfPokeT_none {io rd : Stdio} (hio : s.stdio s.W = some io) (hw : io.waiter = none)
    (hrd : s.stdio s.R = some rd) (hpair : rd.pairIn = some s.W) :
    s.wfPokeT = .ok { s with
      toStreams := s.setStdio s.W { io with waiter := some s.task }
      reader := .blocked } := by
  have hget : s.getStdio (some s.R) = .ok (s.R, rd) := by rw [getStdio, hrd]
  have hget' : s.getStdio (some s.W) = .ok (s.W, io) := by rw [getStdio, hio]
  rw [WakeState.wfPokeT, hget]
  dsimp only
  rw [hpair, hget']
  dsimp only
  rw [hw]

/-- The test of `*waiter` lets a registered reader go on and changes nothing else. -/
theorem test_good (hi : WakeInv s) (hsafe : WakeOp.test.Safe s) :
    ∃ s', s.pokeT = .ok s' ∧ WakeInv s' := by
  obtain ⟨io, l, e, hp, hw⟩ := hi.chain
  have hrest : (if s.rest = [] then WriterPc.returned else .section) = .section → s.rest ≠ [] := by
    intro h hnil
    rw [if_pos hnil] at h
    cases h
  by_cases hblocked : s.reader = .blocked
  · rw [if_pos hblocked] at hw
    have hlen := hi.len (by rw [hblocked]; decide)
    refine ⟨_, pokeT_some hp.stdio hw hblocked, ⟨⟨⟨_, l, e, hp.setWaiter none, rfl⟩,
      hi.bound.setWaiter hp.stdio none, hrest, fun _ => hlen⟩, fun hr => ?_⟩⟩
    rcases hr with hr | hr <;> cases hr
  · rw [if_neg hblocked] at hw
    refine ⟨_, pokeT_none hp.stdio hw,
      ⟨⟨⟨io, l, e, hp, hw.trans (if_neg hblocked).symm⟩, hi.bound, hrest, hi.len⟩,
        fun hr hb => ?_⟩⟩
    change (if s.rest = [] then WriterPc.returned else .section) ≠ .returned
    rcases hr with hr | hr
    · split
      · rename_i hnil
        exact fun _ => hsafe ⟨hr, hnil, hb⟩
      · exact fun h => by cases h
    · exact absurd hr hblocked

theorem writeStep_good (hi : WakeInv s) {a : Nat} {g : FifoBuf} (hpc : s.writer = .section)
    (ha : s.node a = none) : ∃ s', s.writeStep a g = .ok s' ∧ WakeInv s' := by
  obtain ⟨io, l, e, hp, hw⟩ := hi.chain
  obtain ⟨t, n, io', l', e', hex, -, -, hp', -, hlinks, -⟩ :=
    writeSection_spec (g := g) hp (hi.rest hpc) ha
  obtain ⟨io₁, hio₁, -, -, -, hwait⟩ := sameLinks_some hlinks hp.stdio
  obtain rfl := Option.some.inj (hio₁.symm.trans hp'.stdio)
  refine ⟨{ s with toStreams := t, rest := s.rest.drop n, writer := .test }, ?_,
    ⟨⟨⟨io₁, l', e', hp', hwait.trans hw⟩, hi.bound.of_sameLinks hlinks, ?_, hi.len⟩, ?_⟩⟩
  · rw [WakeState.writeStep, hex]
  · intro h
    cases h
  · intro _ _ h
    cases h

/-- A section that sends the reader away has found the chain empty. -/
theorem readStep_good (hi : WakeInv s) (hpc : s.reader = .section) :
    ∃ s', s.readStep = .ok s' ∧ WakeInv s' := by
  obtain ⟨io, l, e, hp, hw⟩ := hi.chain
  obtain ⟨rd, hrd, hpair⟩ := hi.bound.reader
  have hne : ¬ s.reader = .blocked := by rw [hpc]; decide
  have hlen := hi.len (by rw [hpc]; decide)
  rw [if_neg hne] at hw
  rcases readSection_spec hp hrd hpair hlen with ⟨hex, hempty⟩ |
    ⟨t, io', l', p, m, hex, hp', -, hlinks, -⟩ | ⟨t, bs, hex, hp', hpos, hle, -, hlinks, -⟩
  · refine ⟨{ s with reader := .relent }, ?_,
      ⟨⟨⟨io, l, e, hp, hw⟩, hi.bound, hi.rest, fun _ => hlen⟩, fun _ hb => ?_⟩⟩
    · rw [WakeState.readStep, hex]
    · obtain ⟨bytes, hholds, hnil⟩ := hb
      exact absurd (hholds.unique ⟨io, l, e, hp, hempty⟩) hnil
  · obtain ⟨io₁, hio₁, -, -, -, hwait⟩ := sameLinks_some hlinks hp.stdio
    obtain rfl := Option.some.inj (hio₁.symm.trans hp'.stdio)
    refine ⟨{ s with toStreams := t }, ?_,
      ⟨⟨⟨io₁, l', e, hp', ?_⟩, hi.bound.of_sameLinks hlinks, hi.rest, hi.len⟩, fun hr => ?_⟩⟩
    · rw [WakeState.readStep, hex]
    · rw [if_neg hne, hwait, hw]
    · rcases hr with hr | hr <;> exact absurd (hpc.symm.trans hr) (by decide)
  · obtain ⟨io₁, hio₁, -, -, -, hwait⟩ := sameLinks_some hlinks hp.stdio
    obtain rfl := Option.some.inj (hio₁.symm.trans hp'.stdio)
    refine ⟨{ s with
      toStreams := t
      len := s.len - bs.length
      reader := if s.len - bs.length = 0 then .returned else .section }, ?_,
      ⟨⟨⟨io₁, l, e, hp', ?_⟩, hi.bound.of_sameLinks hlinks, hi.rest, ?_⟩, ?_⟩⟩
    · rw [WakeState.readStep, hex]
    · rw [hw]
      by_cases hz : s.len - bs.length = 0 <;> simp [hz]
    · by_cases hz : s.len - bs.length = 0
      · simp [hz]
      · intro _
        change 1 ≤ s.len - bs.length
        omega
    · by_cases hz : s.len - bs.length = 0 <;> simp [hz]

/-- The waiter field is free when the reader comes to register. -/
theorem wfPokeT_good (hi : WakeInv s) (hpc : s.reader = .relent) :
    ∃ s', s.wfPokeT = .ok s' ∧ WakeInv s' := by
  obtain ⟨io, l, e, hp, hw⟩ := hi.chain
  obtain ⟨rd, hrd, hpair⟩ := hi.bound.reader
  rw [if_neg (by rw [hpc]; decide)] at hw
  have hlen := hi.len (by rw [hpc]; decide)
  refine ⟨_, wfPokeT_none hp.stdio hw hrd hpair, ⟨⟨⟨_, l, e, hp.setWaiter (some s.task), rfl⟩,
    hi.bound.setWaiter hp.stdio _, hi.rest, fun _ => hlen⟩, fun _ hb => ?_⟩⟩
  obtain ⟨bytes, ⟨io', l', e', hp', hheld⟩, hnil⟩ := hb
  have heq := hp'.unique (hp.setWaiter (some s.task))
  have hholds : s.Holds bytes := ⟨io, l, e, hp, by rw [← hheld, heq]; rfl⟩
  exact hi.owed (Or.inl hpc) ⟨bytes, hholds, hnil⟩

theorem wake_exec (hi : WakeInv s) (hsafe : op.Safe s) (hen : op.Enabled s) :
    ∃ s', op.exec s = .ok s' ∧ WakeInv s' := by
  cases op with
  | write bytes =>
      obtain ⟨io, l, e, hp, hw⟩ := hi.chain
      refine ⟨{ s with writer := if bytes = [] then .returned else .section, rest := bytes }, ?_,
        ⟨⟨⟨io, l, e, hp, hw⟩, hi.bound, ?_, hi.len⟩, fun hr hb => ?_⟩⟩
      · rw [WakeOp.exec, WakeState.write, hi.bound.toTerminal hp.stdio]
      · by_cases hnil : bytes = [] <;> simp [hnil]
      · exact absurd hen.1 (hi.owed hr hb)
  | writeSection a g => exact writeStep_good hi hen.1 hen.2
  | test => exact test_good hi hsafe
  | read len =>
      obtain ⟨io, l, e, hp, hw⟩ := hi.chain
      have hret := hen.1
      rw [hret, if_neg (by decide)] at hw
      refine ⟨_, rfl, ⟨⟨⟨io, l, e, hp, ?_⟩, hi.bound, hi.rest, ?_⟩, ?_⟩⟩
      · rw [hw]
        by_cases hz : len = 0 <;> simp [hz]
      · by_cases hz : len = 0
        · simp [hz]
        · intro _
          change 1 ≤ len
          omega
      · by_cases hz : len = 0 <;> simp [hz]
  | readSection => exact readStep_good hi hen
  | wfPokeT => exact wfPokeT_good hi hen

/-- The pipe has been set up and bound, and nobody uses it yet. -/
structure WakeState.Start (s : WakeState) : Prop where
  bound : Bound s.toStreams s.W s.R
  empty : ∃ io e m, s.stdio s.W = some io ∧ io.bufferOut = some e ∧ io.bufferOutEnd = some e ∧
    s.node e = some m ∧ m.datac = 0 ∧ io.waiter = none
  writer : s.writer = .returned
  reader : s.reader = .returned

theorem WakeState.Start.inv (h0 : s.Start) : WakeInv s := by
  obtain ⟨io, e, m, hio, hout, hlast, hm, hdatac, hwait⟩ := h0.empty
  have hp : Pipeline s.toStreams s.W io [] e := by
    refine ⟨hio, hlast, hout, List.nodup_singleton e, fun a ha => ?_⟩
    obtain rfl := List.mem_singleton.mp ha
    exact ⟨m, hm, by omega⟩
  refine ⟨⟨⟨io, [], e, hp, ?_⟩, h0.bound, fun h => ?_, fun h => ?_⟩, fun h => ?_⟩
  · rw [hwait, h0.reader]
    rfl
  · rw [h0.writer] at h
    cases h
  · exact absurd h0.reader h
  · rw [h0.reader] at h
    rcases h with h | h <;> cases h

theorem wakeStep_unique : ∀ (s : WakeState) (op : WakeOp) (t t' : WakeState),
    WakeOp.step s op t → WakeOp.step s op t' → t = t' :=
  fun _ _ _ _ h h' => Except.ok.inj (h.2.symm.trans h'.2)

/-- After an unsafe test the reader's next step leaves it stuck. -/
theorem stuck_of_unsafe_test (hi : WakeInv s) (hbad : ¬ WakeOp.test.Safe s)
    (h : WakeOp.step s .test s') : ∃ t, WakeOp.step s' .wfPokeT t ∧ t.Stuck := by
  obtain ⟨hr, hnil, bytes, hholds, hne⟩ := not_not.mp hbad
  obtain ⟨io, l, e, hp, hw⟩ := hi.chain
  obtain ⟨rd, hrd, hpair⟩ := hi.bound.reader
  rw [hr, if_neg (by decide)] at hw
  have hs' : s' = { s with writer := .returned } := by
    have hex : s.pokeT = .ok s' := h.2
    rw [pokeT_none hp.stdio hw, if_pos hnil] at hex
    exact (Except.ok.inj hex).symm
  subst hs'
  obtain ⟨io', l', e', hp', hheld⟩ := hholds
  obtain rfl := Option.some.inj (hp'.stdio.symm.trans hp.stdio)
  have hreg := wfPokeT_none (s := { s with writer := .returned }) hp.stdio hw hrd hpair
  exact ⟨_, ⟨hr, hreg⟩, rfl, rfl, bytes, ⟨_, l', e', hp'.setWaiter _, hheld⟩, hne⟩

/-- No state of a run, and no state the reader's registration leads to from it, has the reader
blocked with bytes in the chain and the writer gone, exactly when the writer never makes its
last test between the reader's section and its registration with bytes in the chain. -/
theorem pipe_reader_not_stuck_iff (h0 : s₀.Start) (h : Run WakeOp.step s₀ ops s) :
    (∀ pre t, pre <+: ops → Run WakeOp.step s₀ pre t →
      ¬ t.Stuck ∧ ∀ t', WakeOp.step t .wfPokeT t' → ¬ t'.Stuck) ↔
      Run (Guarded WakeOp.Safe WakeOp.step) s₀ ops s := by
  have hstep : ∀ (t : WakeState) (op : WakeOp) (t' : WakeState), WakeInv t → op.Safe t →
      WakeOp.step t op t' → WakeInv t' := by
    intro t op t' hi hsafe hs
    obtain ⟨u, hex, hi'⟩ := wake_exec hi hsafe hs.1
    obtain rfl := Except.ok.inj (hex.symm.trans hs.2)
    exact hi'
  constructor
  · intro hall
    have hfirst : Run (Guarded WakeOp.Safe WakeOp.step) s₀ ops s ∨ _ := run_guarded_or_first_bad h
    rcases hfirst with hgood | ⟨pre, op, post, t, t', rfl, hpre, hbad, hs⟩
    · exact hgood
    · exfalso
      have hi : WakeInv t := run_invariant hstep hpre h0.inv
      have hrun := run_concat.mpr ⟨t, run_of_guarded hpre, hs⟩
      have hnext := (hall (pre ++ [op]) t' ⟨post, by simp⟩ hrun).2
      cases op with
      | test =>
          obtain ⟨u, hu, hstuck⟩ := stuck_of_unsafe_test hi hbad hs
          exact hnext u hu hstuck
      | write bytes => exact hbad trivial
      | writeSection a g => exact hbad trivial
      | read len => exact hbad trivial
      | readSection => exact hbad trivial
      | wfPokeT => exact hbad trivial
  · rintro hgood pre t ⟨post, rfl⟩ hpre
    obtain ⟨u, hu, -⟩ := run_append.mp hgood
    obtain rfl := run_unique wakeStep_unique hpre (run_of_guarded hu)
    have hi : WakeInv t := run_invariant hstep hu h0.inv
    refine ⟨hi.not_stuck, fun t' hs => ?_⟩
    exact (hstep t .wfPokeT t' hi trivial hs).not_stuck

/-- The pipe of a writer at 1 and a reader at 2, run by task 7. -/
def freshWake : WakeState where
  toStreams := freshPipe.toStreams
  W := 1
  R := 2
  task := 7
  writer := .returned
  rest := []
  reader := .returned
  len := 0

theorem freshWake_start : freshWake.Start where
  bound := freshPipe_start.bound
  empty := ⟨_, 10, _, rfl, rfl, rfl, rfl, rfl, rfl⟩
  writer := rfl
  reader := rfl

/-- The writer appends its byte and tests after the reader has found the chain empty and before
it registers. -/
def lostPoke : List WakeOp :=
  [.read 1, .readSection, .write [7], .writeSection 20 ⟨fun _ => 0, 0, none⟩, .test, .wfPokeT]

theorem pipe_reader_stuck : ∃ s, freshWake.Start ∧ Run WakeOp.step freshWake lostPoke s ∧
    s.Stuck := by
  have hall : ((follow WakeOp.Enabled WakeOp.exec freshWake lostPoke).map fun s =>
      (s.reader, s.writer)) = some (.blocked, .returned) := by
    decide +kernel
  have hnode : ((follow WakeOp.Enabled WakeOp.exec freshWake lostPoke).map fun s =>
      ((s.stdio s.W).map fun io => (io.bufferOut, io.bufferOutEnd),
        (s.node 10).map fun m => m.datac)) = some (some (some 10, some 10), some 1) := by
    decide +kernel
  obtain ⟨s, hs, hpcs⟩ := Option.map_eq_some_iff.mp hall
  rw [hs] at hnode
  obtain ⟨hreader, hwriter⟩ := Prod.mk.inj hpcs
  obtain ⟨hio, hm⟩ := Prod.mk.inj (Option.some.inj hnode)
  obtain ⟨io, hio, hbuf⟩ := Option.map_eq_some_iff.mp hio
  obtain ⟨m, hm, hdatac⟩ := Option.map_eq_some_iff.mp hm
  obtain ⟨hout, hlast⟩ := Prod.mk.inj hbuf
  have hp : Pipeline s.toStreams s.W io [] 10 := by
    refine ⟨hio, hlast, hout, List.nodup_singleton 10, fun a ha => ?_⟩
    obtain rfl := List.mem_singleton.mp ha
    exact ⟨m, hm, by omega⟩
  refine ⟨s, freshWake_start, run_of_follow (fun _ _ _ h h' => ⟨h, h'⟩) hs, hreader, hwriter,
    s.held ([] ++ [10]), ⟨io, [], 10, hp, rfl⟩, fun hnil => ?_⟩
  have hlen := congrArg List.length hnil
  simp [hm, hdatac] at hlen

/-- The reader registers before the writer's test. -/
def pokedInTime : List WakeOp :=
  [.read 1, .readSection, .wfPokeT, .write [7], .writeSection 20 ⟨fun _ => 0, 0, none⟩, .test]

theorem pipe_reader_poked : ∃ s, Run WakeOp.step freshWake pokedInTime s ∧
    ∀ pre t, pre <+: pokedInTime → Run WakeOp.step freshWake pre t →
      ¬ t.Stuck ∧ ∀ t', WakeOp.step t .wfPokeT t' → ¬ t'.Stuck := by
  have hrun : Run (Guarded WakeOp.Safe WakeOp.step) freshWake pokedInTime _ :=
    Run.cons ⟨trivial, by decide, rfl⟩ (Run.cons ⟨trivial, by decide, rfl⟩
      (Run.cons ⟨trivial, by decide, rfl⟩ (Run.cons ⟨trivial, by decide, rfl⟩
        (Run.cons ⟨trivial, by decide, rfl⟩ (Run.cons ⟨fun h => absurd h.1 (by decide), rfl, rfl⟩
          (Run.nil _))))))
  exact ⟨_, run_of_guarded hrun,
    (pipe_reader_not_stuck_iff freshWake_start (run_of_guarded hrun)).mpr hrun⟩

end UnnamedOS.Stream
