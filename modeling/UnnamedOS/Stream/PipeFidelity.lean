import UnnamedOS.Lib.Run
import UnnamedOS.Stream.Sections

/-!
# A pipe delivers what was written

Any number of `WRITE`s into `W` and `READ`s from `R`, their sections interleaved in any order.
-/

namespace UnnamedOS.Stream

open UnnamedOS.Lib Streams

/-- The calls that are under way, each with what it has still to move, and everything that has
gone into the chain and out of it. -/
structure PipeState extends Streams where
  W : Nat
  R : Nat
  writes : List (List UInt8)
  reads : List Nat
  written : List UInt8
  delivered : List UInt8

inductive PipeOp where
  | write (bytes : List UInt8)
  /-- A section of the `i`th `WRITE`; `a` and `g` are what `malloc` would answer in it. -/
  | writeSection (i a : Nat) (g : FifoBuf)
  | read (len : Nat)
  | readSection (i : Nat)

namespace PipeOp

def exec (s : PipeState) : PipeOp → Except Fault PipeState
  | write bytes =>
    match s.toTerminal s.W with
    | .error e => .error e
    | .ok true => .ok s
    | .ok false => .ok { s with writes := s.writes ++ [bytes] }
  | writeSection i a g =>
    let rest := s.writes.getD i []
    match s.toStreams.writeSection s.W rest a g with
    | .error e => .error e
    | .ok (t, n) =>
      .ok { s with
        toStreams := t
        writes := s.writes.set i (rest.drop n)
        written := s.written ++ rest.take n }
  | read len =>
    match s.getStdio (some s.R) with
    | .error e => .error e
    | .ok (_, reader) =>
      match reader.pairIn with
      | none => .ok s
      | some _ => .ok { s with reads := s.reads ++ [len] }
  | readSection i =>
    let len := s.reads.getD i 0
    match s.toStreams.readSection s.R len with
    | .error e => .error e
    | .ok (t, .closed) => .ok { s with toStreams := t, reads := s.reads.set i 0 }
    | .ok (t, .toRelent) => .ok { s with toStreams := t }
    | .ok (t, .dropped) => .ok { s with toStreams := t }
    | .ok (t, .copied bytes) =>
      .ok { s with
        toStreams := t
        reads := s.reads.set i (len - bytes.length)
        delivered := s.delivered ++ bytes }

def Enabled (s : PipeState) : PipeOp → Prop
  | write bytes => bytes.length < 0x80000000
  | writeSection i a _ => s.writes.getD i [] ≠ [] ∧ s.node a = none
  | read len => len < 0x80000000
  | readSection i => 1 ≤ s.reads.getD i 0

instance (s : PipeState) : ∀ op : PipeOp, Decidable (op.Enabled s)
  | write bytes => inferInstanceAs (Decidable (bytes.length < 0x80000000))
  | writeSection i a _ => inferInstanceAs (Decidable (s.writes.getD i [] ≠ [] ∧ s.node a = none))
  | read len => inferInstanceAs (Decidable (len < 0x80000000))
  | readSection i => inferInstanceAs (Decidable (1 ≤ s.reads.getD i 0))

def step (s : PipeState) (op : PipeOp) (s' : PipeState) : Prop := op.Enabled s ∧ op.exec s = .ok s'

/-- What a section finds of its call; no bound on the length of one. -/
def Ready (s : PipeState) : PipeOp → Prop
  | write _ => True
  | writeSection i a _ => s.writes.getD i [] ≠ [] ∧ s.node a = none
  | read _ => True
  | readSection i => 1 ≤ s.reads.getD i 0

instance (s : PipeState) : ∀ op : PipeOp, Decidable (op.Ready s)
  | write _ => inferInstanceAs (Decidable True)
  | writeSection i a _ => inferInstanceAs (Decidable (s.writes.getD i [] ≠ [] ∧ s.node a = none))
  | read _ => inferInstanceAs (Decidable True)
  | readSection i => inferInstanceAs (Decidable (1 ≤ s.reads.getD i 0))

theorem Enabled.ready {s : PipeState} {op : PipeOp} (h : op.Enabled s) : op.Ready s := by
  cases op with
  | write bytes => trivial
  | writeSection i a g => exact h
  | read len => trivial
  | readSection i => exact h

end PipeOp

variable {s s' s₀ : PipeState} {op : PipeOp} {ops : List PipeOp} {bytes : List UInt8}

/-- The chain from `bufferOut` to `bufferOutEnd` holds `bytes`, at most 255 in each node. -/
def PipeState.Holds (s : PipeState) (bytes : List UInt8) : Prop :=
  ∃ io l e, Pipeline s.toStreams s.W io l e ∧ s.held (l ++ [e]) = bytes

/-- `R` reads from `W`, and `W` does not write to a terminal. -/
structure Bound (s : Streams) (W R : Nat) : Prop where
  reader : ∃ rd, s.stdio R = some rd ∧ rd.pairIn = some W
  noTerminal : ∀ io p, s.stdio W = some io → io.pairOut = some p →
    ∃ out, s.stdio p = some out ∧ out.type ≠ 1

theorem sameLinks_some {t t' : Streams} (h : SameLinks t t') {p : Nat} {io : Stdio}
    (hio : t.stdio p = some io) : ∃ io', t'.stdio p = some io' ∧ io'.pairIn = io.pairIn ∧
      io'.pairOut = io.pairOut ∧ io'.type = io.type ∧ io'.waiter = io.waiter := by
  have hp := h p
  rw [hio, Option.map_some, Option.map_eq_some_iff] at hp
  obtain ⟨io', hio', heq⟩ := hp
  simp only [Prod.mk.injEq] at heq
  exact ⟨io', hio', heq⟩

theorem SameLinks.symm {t t' : Streams} (h : SameLinks t t') : SameLinks t' t :=
  fun p => (h p).symm

theorem Bound.of_sameLinks {t t' : Streams} {W R : Nat} (hb : Bound t W R) (h : SameLinks t t') :
    Bound t' W R := by
  constructor
  · obtain ⟨rd, hrd, hpair⟩ := hb.reader
    obtain ⟨rd', hrd', hin, -⟩ := sameLinks_some h hrd
    exact ⟨rd', hrd', hin.trans hpair⟩
  · intro io' p hio' hout
    obtain ⟨io, hio, -, hpo, -⟩ := sameLinks_some h.symm hio'
    obtain ⟨out, hto, htype⟩ := hb.noTerminal io p hio (hpo.trans hout)
    obtain ⟨out', hout', -, -, hty, -⟩ := sameLinks_some h hto
    exact ⟨out', hout', fun heq => htype (hty.symm.trans heq)⟩

theorem Bound.toTerminal {t : Streams} {W R : Nat} (hb : Bound t W R) {io : Stdio}
    (hio : t.stdio W = some io) : t.toTerminal W = .ok false := by
  have hget : t.getStdio (some W) = .ok (W, io) := by rw [getStdio, hio]
  rw [Streams.toTerminal, hget]
  dsimp only
  cases hout : io.pairOut with
  | none => rfl
  | some p =>
      obtain ⟨out, hto, htype⟩ := hb.noTerminal io p hio hout
      have hget' : t.getStdio (some p) = .ok (p, out) := by rw [getStdio, hto]
      dsimp only
      rw [hget']
      simp [htype]

/-- The bytes delivered and the bytes held are the bytes written. -/
structure PipeInv (s : PipeState) : Prop where
  fifo : ∃ bytes, s.Holds bytes ∧ s.delivered ++ bytes = s.written
  bound : Bound s.toStreams s.W s.R

/-- A node goes only when it is empty and not the last one. -/
def FreesOnlyDrained (s s' : PipeState) : Prop :=
  ∀ a m, s.node a = some m → s'.node a = none →
    m.datac = 0 ∧ ∀ io, s.stdio s.W = some io → io.bufferOutEnd ≠ some a

theorem pipe_exec (hi : PipeInv s) (hen : op.Ready s) :
    ∃ s', op.exec s = .ok s' ∧ PipeInv s' ∧ FreesOnlyDrained s s' := by
  obtain ⟨bytes, ⟨io, l, e, hp, hheld⟩, hfifo⟩ := hi.fifo
  obtain ⟨rd, hrd, hpair⟩ := hi.bound.reader
  have hkeep : ∀ {t t' : PipeState}, t'.node = t.node → FreesOnlyDrained t t' := by
    intro t t' hsame a m hm hnone
    rw [hsame, hm] at hnone
    cases hnone
  cases op with
  | write bs =>
      refine ⟨{ s with writes := s.writes ++ [bs] }, ?_, ⟨⟨bytes, ⟨io, l, e, hp, hheld⟩, hfifo⟩,
        hi.bound⟩, hkeep rfl⟩
      rw [PipeOp.exec, hi.bound.toTerminal hp.stdio]
  | writeSection i a g =>
      obtain ⟨hrest, ha⟩ := hen
      obtain ⟨t, n, io', l', e', hex, -, -, hp', hheld', hlinks, hnofree, -⟩ :=
        writeSection_spec (g := g) hp hrest ha
      refine ⟨{ s with
        toStreams := t
        writes := s.writes.set i ((s.writes.getD i []).drop n)
        written := s.written ++ (s.writes.getD i []).take n }, ?_,
        ⟨⟨bytes ++ (s.writes.getD i []).take n, ⟨io', l', e', hp', ?_⟩, ?_⟩,
          hi.bound.of_sameLinks hlinks⟩, fun x m hm hnone => ?_⟩
      · rw [PipeOp.exec]
        rw [hex]
      · rw [← hheld]
        exact hheld'
      · rw [← List.append_assoc, hfifo]
      · rw [hnofree x hnone] at hm
        cases hm
  | read len =>
      refine ⟨{ s with reads := s.reads ++ [len] }, ?_, ⟨⟨bytes, ⟨io, l, e, hp, hheld⟩, hfifo⟩,
        hi.bound⟩, hkeep rfl⟩
      have hget : s.getStdio (some s.R) = .ok (s.R, rd) := by rw [getStdio, hrd]
      rw [PipeOp.exec, hget]
      dsimp only
      rw [hpair]
  | readSection i =>
      rcases readSection_spec hp hrd hpair hen with ⟨hex, -⟩ |
        ⟨t, io', l', p, m, hex, hp', hheld', hlinks, hm, hdatac, hpe, hothers, -⟩ |
        ⟨t, bs, hex, hp', -, -, hheld', hlinks, hnofree, -⟩
      · refine ⟨s, ?_, hi, hkeep rfl⟩
        rw [PipeOp.exec]
        rw [hex]
      · refine ⟨{ s with toStreams := t }, ?_, ⟨⟨bytes, ⟨io', l', e, hp', ?_⟩, hfifo⟩,
          hi.bound.of_sameLinks hlinks⟩, fun x m' hx hnone => ?_⟩
        · rw [PipeOp.exec]
          rw [hex]
        · rw [← hheld]
          exact hheld'
        · by_cases hxp : x = p
          · subst hxp
            obtain rfl := Option.some.inj (hx.symm.trans hm)
            refine ⟨hdatac, fun io₁ hio₁ hlast => ?_⟩
            obtain rfl := Option.some.inj (hio₁.symm.trans hp.stdio)
            rw [hp.last] at hlast
            exact hpe (Option.some.inj hlast).symm
          · rw [hothers x hxp, hx] at hnone
            cases hnone
      · refine ⟨{ s with
          toStreams := t
          reads := s.reads.set i (s.reads.getD i 0 - bs.length)
          delivered := s.delivered ++ bs }, ?_,
          ⟨⟨t.held (l ++ [e]), ⟨io, l, e, hp', rfl⟩, ?_⟩, hi.bound.of_sameLinks hlinks⟩,
          fun x m' hx hnone => ?_⟩
        · rw [PipeOp.exec]
          rw [hex]
        · have heq : bytes = bs ++ t.held (l ++ [e]) := hheld.symm.trans hheld'.symm
          rw [List.append_assoc, ← heq]
          exact hfifo
        · rw [hnofree x hnone] at hx
          cases hx

/-- `inSO` has set up `W`, nothing has been written, and `R` is bound to it. -/
structure PipeState.Start (s : PipeState) : Prop where
  bound : Bound s.toStreams s.W s.R
  empty : ∃ io e m, s.stdio s.W = some io ∧ io.bufferOut = some e ∧ io.bufferOutEnd = some e ∧
    s.node e = some m ∧ m.datac = 0
  logs : s.written = [] ∧ s.delivered = []

theorem PipeState.Start.inv (h0 : s.Start) : PipeInv s := by
  obtain ⟨io, e, m, hio, hout, hlast, hm, hdatac⟩ := h0.empty
  have hbytes : m.bytes = [] := by rw [FifoBuf.bytes, hdatac]; simp
  have hp : Pipeline s.toStreams s.W io [] e := by
    refine ⟨hio, hlast, hout, List.nodup_singleton e, fun a ha => ?_⟩
    obtain rfl := List.mem_singleton.mp ha
    exact ⟨m, hm, by omega⟩
  refine ⟨⟨[], ⟨io, [], e, hp, by simp [hm, hbytes]⟩, ?_⟩, h0.bound⟩
  rw [h0.logs.1, h0.logs.2]
  exact List.nil_append []

/-- In every state of every interleaving the bytes delivered, followed by the bytes in the
chain, are the bytes written; no section copies outside a data array or touches a freed node;
and a node is freed only when it is empty and not the last. -/
theorem pipe_fidelity (h0 : s₀.Start) (h : Run PipeOp.step s₀ ops s) :
    (∃ bytes, s.Holds bytes ∧ s.delivered ++ bytes = s.written) ∧
      (∀ op : PipeOp, op.Enabled s → ∃ s', op.exec s = .ok s') ∧
      ∀ op s', PipeOp.step s op s' → FreesOnlyDrained s s' := by
  have hstep : ∀ (t : PipeState) (op : PipeOp) (t' : PipeState), PipeInv t → True →
      PipeOp.step t op t' → PipeInv t' := by
    intro t op t' hi _ hs
    obtain ⟨u, hex, hi', -⟩ := pipe_exec hi hs.1.ready
    obtain rfl := Except.ok.inj (hex.symm.trans hs.2)
    exact hi'
  have hi : PipeInv s :=
    run_invariant hstep (run_guarded_iff.mpr ⟨h, fun _ _ => trivial⟩) h0.inv
  refine ⟨hi.fifo, fun op hen => ?_, fun op s' hs => ?_⟩
  · obtain ⟨s', hex, -⟩ := pipe_exec hi (PipeOp.Enabled.ready hen)
    exact ⟨s', hex⟩
  · obtain ⟨u, hex, -, hfree⟩ := pipe_exec hi hs.1.ready
    obtain rfl := Except.ok.inj (hex.symm.trans hs.2)
    exact hfree

/-- A writer at 1 with one empty node, and a reader at 2. -/
def freshPipe : PipeState where
  stdio := fun p =>
    if p = 1 then some ⟨none, some 2, some 10, some 10, 0, none⟩
    else if p = 2 then some ⟨some 1, none, some 11, some 11, 0, none⟩
    else none
  node := fun p => if p = 10 then some ⟨fun _ => 0, 0, none⟩ else none
  W := 1
  R := 2
  writes := []
  reads := []
  written := []
  delivered := []

theorem freshPipe_start : freshPipe.Start where
  bound := by
    refine ⟨⟨_, rfl, rfl⟩, fun io p hio hout => ?_⟩
    obtain rfl := Option.some.inj hio
    obtain rfl := Option.some.inj hout
    exact ⟨_, rfl, by decide⟩
  empty := ⟨_, 10, _, rfl, rfl, rfl, rfl, rfl⟩
  logs := ⟨rfl, rfl⟩

/-- 256 bytes are one more than a node has room for. The reader takes 3 before the last is written. -/
def fillAndRead : List PipeOp :=
  [.write (List.replicate 256 7), .writeSection 0 20 ⟨fun _ => 9, 3, none⟩, .read 3,
    .readSection 0, .writeSection 0 20 ⟨fun _ => 9, 3, none⟩]

theorem pipe_fidelity_fill_and_read : ∃ s, Run PipeOp.step freshPipe fillAndRead s ∧
    ∃ bytes, s.Holds bytes ∧ s.delivered ++ bytes = s.written := by
  have hall : (follow PipeOp.Enabled PipeOp.exec freshPipe fillAndRead).isSome := by
    decide +kernel
  obtain ⟨s, hs⟩ := Option.isSome_iff_exists.mp hall
  have hrun : Run PipeOp.step freshPipe fillAndRead s :=
    run_of_follow (fun _ _ _ h h' => ⟨h, h'⟩) hs
  exact ⟨s, hrun, (pipe_fidelity freshPipe_start hrun).1⟩

end UnnamedOS.Stream
