import UnnamedOS.Descriptors.Tables
import UnnamedOS.Stream.PipeFidelity

/-!
# Polling a pipe

`checkStream` looks at the first node of the chain only, and a `READ` that has emptied a node leaves
it there for the next one to drop.
-/

namespace UnnamedOS.Stream

open UnnamedOS.Lib Streams

/-- What stands at `kernelFd+fd`. -/
abbrev FdTable := UInt64 → Descriptors.Stream

inductive HandleHalt where
  | ERR_FD_TOOHIGH
  | ERR_FD_DNE
  | ERR_MISP_BINDH
  | fault (f : Fault)
  deriving DecidableEq

/-- `fd>DIV64_32(0x1000,sizeof(stream))` comes first. -/
def checkStream (s : Streams) (kernelFd : FdTable) (fd : UInt64) : Except HandleHalt Nat :=
  if fd > 128 then .error .ERR_FD_TOOHIGH
  else
    match (kernelFd fd).function with
    | .NULL => .error .ERR_FD_DNE
    | .StdIOStream =>
      match s.getStdio (some (kernelFd fd).arguments) with
      | .error f => .error (.fault f)
      | .ok (_, reader) =>
        match s.getStdio reader.pairIn with
        | .error f => .error (.fault f)
        | .ok (_, io) =>
          match s.getNode io.bufferOut with
          | .error f => .error (.fault f)
          | .ok (_, m) => .ok (if m.datac > 0 then 1 else 0)
    | _ => .ok 1

/-- A `READ` of `len` bytes from `r` that nothing interrupts comes to its end. -/
inductive Returns (r : Nat) : Streams → Nat → Prop
  | done {s : Streams} : Returns r s 0
  | closed {s s' : Streams} {len : Nat} (hlen : 1 ≤ len) :
      s.readSection r len = .ok (s', .closed) → Returns r s len
  | dropped {s s' : Streams} {len : Nat} (hlen : 1 ≤ len) :
      s.readSection r len = .ok (s', .dropped) → Returns r s' len → Returns r s len
  | copied {s s' : Streams} {len : Nat} {bytes : List UInt8} (hlen : 1 ≤ len) :
      s.readSection r len = .ok (s', .copied bytes) → Returns r s' (len - bytes.length) →
        Returns r s len

variable {s s' : Streams} {io : Stdio} {w r e len : Nat} {l : List Nat}

/-- A `READ` that returns has found bytes. -/
theorem Returns.held (h : Returns r s len) (hlen : 1 ≤ len) (hp : Pipeline s w io l e)
    (hr : ∃ rd, s.stdio r = some rd ∧ rd.pairIn = some w) : s.held (l ++ [e]) ≠ [] := by
  induction h generalizing io l with
  | done => exact absurd hlen (by decide)
  | closed _ hex =>
      obtain ⟨rd, hrd, hpair⟩ := hr
      rcases readSection_spec hp hrd hpair hlen with ⟨hex', -⟩ | ⟨t, io', l', p, m, hex', -⟩ |
        ⟨t, bs, hex', -⟩ <;> rw [hex'] at hex <;> cases hex
  | dropped _ hex _ ih =>
      obtain ⟨rd, hrd, hpair⟩ := hr
      rcases readSection_spec hp hrd hpair hlen with ⟨hex', -⟩ |
        ⟨t, io', l', p, m, hex', hp', hheld, hlinks, -⟩ | ⟨t, bs, hex', -⟩
      · rw [hex'] at hex
        cases hex
      · rw [hex'] at hex
        cases hex
        obtain ⟨rd', hrd', hin, -⟩ := sameLinks_some hlinks hrd
        rw [← hheld]
        exact ih hlen hp' ⟨rd', hrd', hin.trans hpair⟩
      · rw [hex'] at hex
        cases hex
  | copied _ hex _ _ =>
      obtain ⟨rd, hrd, hpair⟩ := hr
      rcases readSection_spec hp hrd hpair hlen with ⟨hex', -⟩ | ⟨t, io', l', p, m, hex', -⟩ |
        ⟨t, bs, hex', -, hpos, -, hheld, -⟩
      · rw [hex'] at hex
        cases hex
      · rw [hex'] at hex
        cases hex
      · rw [← hheld]
        intro hnil
        rw [(List.append_eq_nil_iff.mp hnil).1] at hpos
        exact absurd hpos (by decide)

/-- One byte is there for a `READ` of one. -/
theorem returns_one (hp : Pipeline s w io l e)
    (hr : ∃ rd, s.stdio r = some rd ∧ rd.pairIn = some w) (hheld : s.held (l ++ [e]) ≠ []) :
    Returns r s 1 := by
  induction l generalizing s io with
  | nil =>
      obtain ⟨rd, hrd, hpair⟩ := hr
      rcases readSection_spec hp hrd hpair (Nat.le_refl 1) with ⟨-, hnil⟩ |
        ⟨t, io', l', p, m, -, -, -, -, -, -, -, -, hl⟩ | ⟨t, bs, hex, -, hpos, hle, -⟩
      · exact absurd hnil hheld
      · cases hl
      · have hone : 1 - bs.length = 0 := by omega
        exact .copied (Nat.le_refl 1) hex (hone ▸ .done)
  | cons a l ih =>
      obtain ⟨rd, hrd, hpair⟩ := hr
      rcases readSection_spec hp hrd hpair (Nat.le_refl 1) with ⟨-, hnil⟩ |
        ⟨t, io', l', p, m, hex, hp', hsame, hlinks, -, -, -, -, hl⟩ |
        ⟨t, bs, hex, -, hpos, hle, -⟩
      · exact absurd hnil hheld
      · obtain rfl := (List.cons.inj hl).2
        obtain ⟨rd', hrd', hin, -⟩ := sameLinks_some hlinks hrd
        exact .dropped (Nat.le_refl 1) hex
          (ih hp' ⟨rd', hrd', hin.trans hpair⟩ (fun hnil => hheld (hsame.symm.trans hnil)))
      · have hone : 1 - bs.length = 0 := by omega
        exact .copied (Nat.le_refl 1) hex (hone ▸ .done)

theorem held_ne_nil {a : Nat} {m : FifoBuf} (ha : a ∈ l) (hm : s.node a = some m)
    (hpos : 0 < m.datac) : s.held l ≠ [] := by
  intro hnil
  have hnone := List.flatMap_eq_nil_iff.mp hnil a ha
  rw [hm, Option.elim_some] at hnone
  have hlen := m.length_bytes
  rw [hnone] at hlen
  exact absurd hlen.symm (Nat.ne_of_gt hpos)

theorem returns_one_iff (hp : Pipeline s w io l e)
    (hr : ∃ rd, s.stdio r = some rd ∧ rd.pairIn = some w) :
    Returns r s 1 ↔ s.held (l ++ [e]) ≠ [] :=
  ⟨fun h => h.held (Nat.le_refl 1) hp hr, returns_one hp hr⟩

/-! ## Over runs -/

/-- The first node is empty and there is another behind it. -/
def Spent (s : Streams) (w : Nat) : Prop :=
  ∃ io p m, s.stdio w = some io ∧ io.bufferOut = some p ∧ s.node p = some m ∧ m.datac = 0 ∧
    io.bufferOutEnd ≠ some p

/-- Behind the first node the last one has bytes. -/
def LastFilled (s : Streams) (w : Nat) : Prop :=
  ∀ io e m, s.stdio w = some io → io.bufferOutEnd = some e → io.bufferOut ≠ some e →
    s.node e = some m → 1 ≤ m.datac

theorem Pipeline.lastFilled (hp : Pipeline s w io l e)
    (h : io.bufferOut ≠ some e → ∃ m, s.node e = some m ∧ 1 ≤ m.datac) : LastFilled s w := by
  intro io' e' m hio hlast hout hm
  obtain rfl := Option.some.inj (hp.stdio.symm.trans hio)
  obtain rfl := Option.some.inj (hp.last.symm.trans hlast)
  obtain ⟨m', hm', hpos⟩ := h hout
  obtain rfl := Option.some.inj (hm.symm.trans hm')
  exact hpos

theorem Pipeline.filled (hp : Pipeline s w io l e) (h : LastFilled s w)
    (hout : io.bufferOut ≠ some e) : ∃ m, s.node e = some m ∧ 1 ≤ m.datac := by
  obtain ⟨m, hm, -⟩ := hp.node_last
  exact ⟨m, hm, h io e m hp.stdio hp.last hout hm⟩

/-- A bound pipe: what is between two sections. -/
structure PollInv (s : PipeState) : Prop where
  pipe : PipeInv s
  last : LastFilled s.toStreams s.W

/-- The calls, of any lengths. -/
def PipeOp.act (s : PipeState) (op : PipeOp) (s' : PipeState) : Prop :=
  op.Ready s ∧ op.exec s = .ok s'

variable {t t' t₀ : PipeState} {op : PipeOp} {ops : List PipeOp}

theorem PollInv.act (hi : PollInv t) (h : op.act t t') : PollInv t' := by
  obtain ⟨hready, hexec⟩ := h
  obtain ⟨u, hex, hpipe, -⟩ := pipe_exec hi.pipe hready
  obtain rfl := Except.ok.inj (hex.symm.trans hexec)
  refine ⟨hpipe, ?_⟩
  obtain ⟨bytes, ⟨io, l, e, hp, -⟩, -⟩ := hi.pipe.fifo
  obtain ⟨rd, hrd, hpair⟩ := hi.pipe.bound.reader
  cases op with
  | write bs =>
      rw [PipeOp.exec, hi.pipe.bound.toTerminal hp.stdio] at hex
      cases hex
      exact hi.last
  | writeSection i a g =>
      obtain ⟨v, n, io', l', e', hsec, -, -, hp', -, -, -, hfilled⟩ :=
        writeSection_spec (g := g) hp hready.1 hready.2
      rw [PipeOp.exec] at hex
      rw [hsec] at hex
      cases hex
      exact hp'.lastFilled fun _ => hfilled
  | read len =>
      have hget : t.getStdio (some t.R) = .ok (t.R, rd) := by rw [getStdio, hrd]
      rw [PipeOp.exec, hget] at hex
      dsimp only at hex
      rw [hpair] at hex
      cases hex
      exact hi.last
  | readSection i =>
      rw [PipeOp.exec] at hex
      rcases readSection_spec hp hrd hpair hready with ⟨hsec, -⟩ |
        ⟨v, io', l', p, m, hsec, hp', -, hlinks, -, -, hpe, hkeep, hl⟩ |
        ⟨v, bs, hsec, hp', -, -, -, -, -, hkeep⟩
      · rw [hsec] at hex
        cases hex
        exact hi.last
      · rw [hsec] at hex
        cases hex
        refine hp'.lastFilled fun _ => ?_
        rw [hkeep e hpe.symm]
        refine hp.filled hi.last fun hout => ?_
        have hfirst := (seg_cons.mp (hl ▸ hp.chain)).1
        exact hpe (Option.some.inj (hfirst.symm.trans hout))
      · rw [hsec] at hex
        cases hex
        refine hp'.lastFilled fun hout => ?_
        rw [hkeep e hout]
        exact hp.filled hi.last hout

theorem PipeState.Start.pollInv (h0 : t₀.Start) : PollInv t₀ := by
  refine ⟨h0.inv, fun io e m hio hlast hout _ => ?_⟩
  obtain ⟨io', e', -, hio', hout', hlast', -⟩ := h0.empty
  obtain rfl := Option.some.inj (hio.symm.trans hio')
  obtain rfl := Option.some.inj (hlast.symm.trans hlast')
  exact absurd hout' hout

theorem pollInv_run (h0 : t₀.Start) (h : Run PipeOp.act t₀ ops t) : PollInv t :=
  run_keeps (fun _ _ _ hi hs => hi.act hs) h h0.pollInv

/-- An open descriptor of the reading `stdIO`. -/
structure ReadingFd (kernelFd : FdTable) (fd : UInt64) (r : Nat) : Prop where
  inTable : fd ≤ 128
  function : (kernelFd fd).function = .StdIOStream
  arguments : (kernelFd fd).arguments = r

theorem checkStream_eq {kernelFd : FdTable} {fd : UInt64} {rd : Stdio} {p : Nat} {m : FifoBuf}
    (hfd : ReadingFd kernelFd fd r) (hr : s.stdio r = some rd) (hpair : rd.pairIn = some w)
    (hp : s.stdio w = some io) (hout : io.bufferOut = some p) (hm : s.node p = some m) :
    checkStream s kernelFd fd = .ok (if m.datac > 0 then 1 else 0) := by
  have hrd : s.getStdio (some r) = .ok (r, rd) := by rw [getStdio, hr]
  have hio : s.getStdio (some w) = .ok (w, io) := by rw [getStdio, hp]
  have hnode : s.getNode io.bufferOut = .ok (p, m) := by rw [hout, getNode, hm]
  rw [checkStream, if_neg (UInt64.not_lt.mpr hfd.inTable), hfd.function, hfd.arguments]
  dsimp only
  rw [hrd]
  dsimp only
  rw [hpair, hio]
  dsimp only
  rw [hnode]

/-- `checkStream` tells the truth where the first node has bytes or is the last one. -/
theorem checkStream_truthful_iff {kernelFd : FdTable} {fd : UInt64} (h0 : t₀.Start)
    (h : Run PipeOp.act t₀ ops t) (hfd : ReadingFd kernelFd fd t.R) :
    (checkStream t.toStreams kernelFd fd = .ok 1 ↔ Returns t.R t.toStreams 1) ↔
      ¬ Spent t.toStreams t.W := by
  have hi := pollInv_run h0 h
  obtain ⟨bytes, ⟨io, l, e, hp, -⟩, -⟩ := hi.pipe.fifo
  obtain ⟨rd, hrd, hpair⟩ := hi.pipe.bound.reader
  obtain ⟨p, m, hout, hm, -, hfirst⟩ := hp.first
  have hcheck := checkStream_eq hfd hrd hpair hp.stdio hout hm
  have hreturns := returns_one_iff hp ⟨rd, hrd, hpair⟩
  have hspent : Spent t.toStreams t.W ↔ m.datac = 0 ∧ p ≠ e := by
    constructor
    · rintro ⟨io', p', m', hio', hout', hm', hzero, hlast⟩
      obtain rfl := Option.some.inj (hp.stdio.symm.trans hio')
      obtain rfl := Option.some.inj (hout.symm.trans hout')
      obtain rfl := Option.some.inj (hm.symm.trans hm')
      exact ⟨hzero, fun heq => hlast (heq ▸ hp.last)⟩
    · rintro ⟨hzero, hne⟩
      exact ⟨io, p, m, hp.stdio, hout, hm, hzero,
        fun hlast => hne (Option.some.inj (hlast.symm.trans hp.last))⟩
  rw [hcheck, hreturns, hspent]
  by_cases hpos : 0 < m.datac
  · have hmem : p ∈ l ++ [e] := by
      rcases hfirst with ⟨rfl, rfl⟩ | ⟨l', rfl, -⟩ <;> simp
    rw [if_pos hpos]
    exact iff_of_true (iff_of_true rfl (held_ne_nil hmem hm hpos))
      fun hz => absurd hz.1 (Nat.ne_of_gt hpos)
  · have hzero : m.datac = 0 := by omega
    rw [if_neg hpos]
    by_cases hpe : p = e
    · have hempty : t.held (l ++ [e]) = [] := by
        rcases hfirst with ⟨rfl, -⟩ | ⟨l', rfl, -⟩
        · subst hpe
          simp [hm, FifoBuf.bytes, hzero]
        · exact absurd List.mem_cons_self (hpe ▸ hp.notMem)
      exact iff_of_true (iff_of_false (by decide) fun hne => hne hempty) fun hz => hz.2 hpe
    · obtain ⟨m', hm', hpos'⟩ :=
        hp.filled hi.last fun hlast => hpe (Option.some.inj (hout.symm.trans hlast))
      have hbytes : t.held (l ++ [e]) ≠ [] := held_ne_nil (by simp) hm' hpos'
      exact iff_of_false (fun hiff => absurd (hiff.mpr hbytes) (by decide)) fun hz => hz ⟨hzero, hpe⟩

/-- Descriptor 3 is the reader's. -/
def readerTable : FdTable := fun fd => if fd = 3 then .inSO 2 else .zero

theorem readerTable_reading : ReadingFd readerTable 3 2 := ⟨by decide, rfl, rfl⟩

/-- A read of three bytes between the two sections of a write. -/
theorem checkStream_truthful_fill_and_read : ∃ t, Run PipeOp.act freshPipe fillAndRead t ∧
    checkStream t.toStreams readerTable 3 = .ok 1 ∧ Returns t.R t.toStreams 1 := by
  have hall : ((follow PipeOp.Ready PipeOp.exec freshPipe fillAndRead).any fun t =>
      decide (checkStream t.toStreams readerTable 3 = .ok 1 ∧ t.R = 2 ∧
        (((t.stdio t.W).bind (·.bufferOut)).bind t.node).map (·.datac) = some 253)) = true := by
    decide +kernel
  obtain ⟨t, ht, hend⟩ := (Option.any_eq_true _ _).mp hall
  obtain ⟨hcheck, hR, hfirst⟩ := of_decide_eq_true hend
  have hrun : Run PipeOp.act freshPipe fillAndRead t := run_of_follow (fun _ _ _ h h' => ⟨h, h'⟩) ht
  have hfd : ReadingFd readerTable 3 t.R := hR ▸ readerTable_reading
  have hnot : ¬ Spent t.toStreams t.W := by
    rintro ⟨io, p, m, hio, hout, hm, hzero, -⟩
    rw [hio, Option.bind_some, hout, Option.bind_some, hm, Option.map_some, hzero] at hfirst
    exact absurd hfirst (by decide)
  exact ⟨t, hrun, hcheck, ((checkStream_truthful_iff freshPipe_start hrun hfd).mpr hnot).mp hcheck⟩

/-- 255 of 256 bytes are read. -/
def leaveOne : List PipeOp :=
  [.write (List.replicate 256 7), .writeSection 0 20 ⟨fun _ => 9, 3, none⟩,
    .writeSection 0 20 ⟨fun _ => 9, 3, none⟩, .read 255, .readSection 0]

/-- The byte that is left is behind an empty node. -/
theorem left_byte_not_seen : ¬ ∀ t, Run PipeOp.act freshPipe leaveOne t →
    (checkStream t.toStreams readerTable 3 = .ok 1 ↔ Returns t.R t.toStreams 1) := by
  have hall : ((follow PipeOp.Ready PipeOp.exec freshPipe leaveOne).any fun t =>
      decide (checkStream t.toStreams readerTable 3 = .ok 0 ∧ t.delivered ≠ t.written)) = true := by
    decide +kernel
  obtain ⟨t, ht, hend⟩ := (Option.any_eq_true _ _).mp hall
  obtain ⟨hcheck, hleft⟩ := of_decide_eq_true hend
  have hrun : Run PipeOp.act freshPipe leaveOne t := run_of_follow (fun _ _ _ h h' => ⟨h, h'⟩) ht
  have hi := pollInv_run freshPipe_start hrun
  obtain ⟨bytes, ⟨io, l, e, hp, hheld⟩, hfifo⟩ := hi.pipe.fifo
  have hreturns := (returns_one_iff hp hi.pipe.bound.reader).mpr fun hnil => by
    rw [← hheld] at hfifo
    rw [show t.held (l ++ [e]) = [] from hnil, List.append_nil] at hfifo
    exact hleft hfifo
  intro h
  have hone := (h t hrun).mpr hreturns
  rw [hcheck] at hone
  exact absurd hone (by decide)

end UnnamedOS.Stream
