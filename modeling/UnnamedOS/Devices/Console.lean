import UnnamedOS.Devices.Terminal
import UnnamedOS.Devices.Typing
import UnnamedOS.Stream.PipeFidelity
import UnnamedOS.Userland.Shell

/-!
# The console

The keyboard driver, the screen, the pipe from `TermSP` to the stream of `/dev/tty`, and the shell
at its end. A scan code is taken when the driver's last `WRITE` has returned; programs print and
read at any time.
-/

namespace UnnamedOS.Devices

open UnnamedOS.Lib UnnamedOS.Stream UnnamedOS.Userland UnnamedOS.Userland.Shell

structure Console where
  d : Driver
  terminal : Terminal
  pipe : PipeState

inductive ConsoleHalt where
  | keyboard (halt : KeyboardHalt)
  | stream (fault : Fault)

inductive ConsoleOp where
  | scanCode (b : UInt8)
  /-- A section of the driver's `WRITE`. -/
  | driverSection (a : Nat) (g : FifoBuf)
  /-- What a program writes to the terminal. -/
  | print (bytes : List UInt8)
  | read (len : Nat)
  | readSection (i : Nat)

/-- The scan code of a step. -/
def ConsoleOp.code : ConsoleOp → List UInt8
  | .scanCode b => [b]
  | _ => []

/-- No print switches the mode of the keyboard. -/
def ConsoleOp.Quiet : ConsoleOp → Prop
  | .print bytes => 0x11 ∉ bytes
  | _ => True

instance : ∀ op : ConsoleOp, Decidable op.Quiet
  | .print bytes => inferInstanceAs (Decidable (0x11 ∉ bytes))
  | .scanCode _ | .driverSection _ _ | .read _ | .readSection _ => inferInstanceAs (Decidable True)

def KP.bytes (k : KP) : List UInt8 := [k.ascii, k.keycode, k.pR, k.states]

namespace Console

variable (kb : Keyboard) (c : Console)

def pipeOp (op : PipeOp) : Except ConsoleHalt Console :=
  match op.exec c.pipe with
  | .error fault => .error (.stream fault)
  | .ok pipe => .ok { c with pipe }

/-- What the driver does with what it has to write. -/
def emit : Written → Except ConsoleHalt Console
  | .kp k => c.pipeOp (.write k.bytes)
  | .character ascii =>
    pipeOp { c with terminal := c.terminal.write_to_screen [ascii] } (.write [ascii])

def exec : ConsoleOp → Except ConsoleHalt Console
  | .scanCode b =>
    match c.d.read kb c.terminal.keyboard_is_raw b with
    | .error halt => .error (.keyboard halt)
    | .ok (d, out) => out.foldlM emit { c with d }
  | .driverSection a g => c.pipeOp (.writeSection (c.pipe.writes.length - 1) a g)
  | .print bytes => .ok { c with terminal := c.terminal.write_to_screen bytes }
  | .read len => c.pipeOp (.read len)
  | .readSection i => c.pipeOp (.readSection i)

def Enabled (c : Console) : ConsoleOp → Prop
  | .scanCode _ => ∀ rest ∈ c.pipe.writes, rest = []
  | .driverSection a g => PipeOp.Enabled c.pipe (.writeSection (c.pipe.writes.length - 1) a g)
  | .print _ => True
  | .read len => PipeOp.Enabled c.pipe (.read len)
  | .readSection i => PipeOp.Enabled c.pipe (.readSection i)

instance (c : Console) : ∀ op : ConsoleOp, Decidable (c.Enabled op)
  | .scanCode _ => inferInstanceAs (Decidable (∀ rest ∈ c.pipe.writes, rest = []))
  | .driverSection a g =>
    inferInstanceAs (Decidable (PipeOp.Enabled c.pipe (.writeSection (c.pipe.writes.length - 1) a g)))
  | .print _ => inferInstanceAs (Decidable True)
  | .read len => inferInstanceAs (Decidable (PipeOp.Enabled c.pipe (.read len)))
  | .readSection i => inferInstanceAs (Decidable (PipeOp.Enabled c.pipe (.readSection i)))

def step (kb : Keyboard) (c : Console) (op : ConsoleOp) (c' : Console) : Prop :=
  c.Enabled op ∧ c.exec kb op = .ok c'

end Console

/-- `OpenStdIn`, with `TermSP` at `T` and its buffer at `n`. -/
def OpenStdIn (T n : Nat) (s : Streams) : Streams :=
  (s.setNode n ⟨fun _ => 0, 0, none⟩).setStdio T ⟨none, none, some n, some n, 1, none⟩

/-- `openDEV` of `tty`; the data of the buffer are what `malloc` finds. -/
def openTTY (T tty n : Nat) (data : Nat → UInt8) (s : Streams) : Streams :=
  (s.setNode n ⟨data, 0, none⟩).setStdio tty ⟨some T, some T, some n, some n, 0, none⟩

/-- The addresses that `malloc` has answered with. -/
structure ConsoleHeap where
  T : Nat
  tty : Nat
  n : Nat
  n' : Nat
  data : Nat → UInt8
  apart : T ≠ tty ∧ n ≠ n'

/-- The console when the shell has written its first byte, `0x11`, to the terminal. -/
def Console.start (heap : ConsoleHeap) (k : KP) (t : Terminal) : Console where
  d := Driver.start k
  terminal := { t with keyboard_is_raw := true }.write_to_screen [0x11]
  pipe :=
    { openTTY heap.T heap.tty heap.n' heap.data
        (OpenStdIn heap.T heap.n ⟨fun _ => none, fun _ => none⟩) with
      W := heap.T
      R := heap.tty
      writes := []
      reads := []
      written := []
      delivered := [] }

variable {kb : Keyboard} {c c' : Console} {op : ConsoleOp} {ops : List ConsoleOp} {heap : ConsoleHeap}
  {k : KP} {t : Terminal} {p p' : PipeState} {d d' : Driver} {out : List Written}
  {codes bytes : List UInt8} {events : List KeyEvent} {lines : List Shell.Line} {buf : Buffer}

/-! ## The pipe -/

theorem start_pipe (heap : ConsoleHeap) (k : KP) (t : Terminal) :
    (Console.start heap k t).pipe.Start := by
  obtain ⟨hio, hn⟩ := heap.apart
  constructor
  · constructor
    · exact ⟨_, Streams.setStdio_same, rfl⟩
    · intro io q hW hout
      have hterm : io = ⟨none, none, some heap.n, some heap.n, 1, none⟩ := by
        have hsame := (Streams.setStdio_other hio).symm.trans hW
        exact (Option.some.inj (Streams.setStdio_same.symm.trans hsame)).symm
      rw [hterm] at hout
      cases hout
  · refine ⟨⟨none, none, some heap.n, some heap.n, 1, none⟩, heap.n, ⟨fun _ => 0, 0, none⟩,
      (Streams.setStdio_other hio).trans Streams.setStdio_same, rfl, rfl,
      (Streams.setNode_other hn).trans Streams.setNode_same, rfl⟩
  · exact ⟨rfl, rfl⟩

/-- A call of `WRITE` is begun. -/
theorem exec_write (hp : PipeInv p) (bytes : List UInt8) :
    PipeOp.exec p (.write bytes) = .ok { p with writes := p.writes ++ [bytes] } := by
  obtain ⟨_, ⟨io, l, e, hpipe, -⟩, -⟩ := hp.fifo
  rw [PipeOp.exec, hp.bound.toTerminal hpipe.stdio]

theorem exec_writeSection {i a : Nat} {g : FifoBuf}
    (h : PipeOp.exec p (.writeSection i a g) = .ok p') : ∃ n,
      p'.written = p.written ++ (p.writes.getD i []).take n ∧
        p'.writes = p.writes.set i ((p.writes.getD i []).drop n) := by
  rw [PipeOp.exec] at h
  cases hsection : p.toStreams.writeSection p.W (p.writes.getD i []) a g with
  | error fault =>
      rw [hsection] at h
      cases h
  | ok r =>
      rw [hsection] at h
      obtain rfl := Except.ok.inj h
      exact ⟨r.2, rfl, rfl⟩

theorem exec_read {len : Nat} (h : PipeOp.exec p (.read len) = .ok p') :
    p'.written = p.written ∧ p'.writes = p.writes := by
  rw [PipeOp.exec] at h
  split at h
  · cases h
  · split at h
    · obtain rfl := Except.ok.inj h
      exact ⟨rfl, rfl⟩
    · obtain rfl := Except.ok.inj h
      exact ⟨rfl, rfl⟩

theorem exec_readSection {i : Nat} (h : PipeOp.exec p (.readSection i) = .ok p') :
    p'.written = p.written ∧ p'.writes = p.writes := by
  rw [PipeOp.exec] at h
  split at h
  · cases h
  all_goals
    obtain rfl := Except.ok.inj h
    exact ⟨rfl, rfl⟩

theorem exec_inv {pop : PipeOp} (hp : PipeInv p) (hen : pop.Enabled p) (h : pop.exec p = .ok p') :
    PipeInv p' := by
  obtain ⟨q, hq, hinv, -⟩ := pipe_exec hp hen.ready
  obtain rfl := Except.ok.inj (hq.symm.trans h)
  exact hinv

/-! ## The run -/

/-- The driver has written what it makes of the scan codes, and the pipe holds it. -/
structure Console.Inv (kb : Keyboard) (k : KP) (codes : List UInt8) (c : Console) : Prop where
  cooked : c.terminal.keyboard_is_raw = false
  pipe : PipeInv c.pipe
  returned : ∀ rest ∈ c.pipe.writes.dropLast, rest = []
  wrote : Driver.readAll kb false codes (Driver.start k) =
    .ok (c.d, (c.pipe.written ++ c.pipe.writes.flatten).map .character)

theorem start_inv (heap : ConsoleHeap) (k : KP) (t : Terminal) :
    (Console.start heap k t).Inv kb k [] where
  cooked := rfl
  pipe := (start_pipe heap k t).inv
  returned _ hrest := absurd hrest List.not_mem_nil
  wrote := rfl

theorem keyboard_is_raw_scrollWhile (n : Nat) (t : Terminal) :
    (t.scrollWhile n).keyboard_is_raw = t.keyboard_is_raw := by
  induction n generalizing t with
  | zero => rfl
  | succ n ih =>
      rw [Terminal.scrollWhile]
      split
      · exact ih t.scroll
      · rfl

theorem keyboard_is_raw_pad (n : Nat) (t : Terminal) :
    (t.pad n).keyboard_is_raw = t.keyboard_is_raw := by
  induction n generalizing t with
  | zero => rfl
  | succ n ih =>
      rw [Terminal.pad]
      split
      · exact ih (t.put 0x20)
      · rfl

theorem keyboard_is_raw_wrap (t : Terminal) : t.wrap.keyboard_is_raw = t.keyboard_is_raw := by
  rw [Terminal.wrap, keyboard_is_raw_scrollWhile]
  split
  · rfl
  · rfl

theorem keyboard_is_raw_putByte {a : UInt8} (t : Terminal) (h : a ≠ 0x11) :
    (t.putByte a).keyboard_is_raw = t.keyboard_is_raw := by
  rw [Terminal.putByte, if_neg h]
  dsimp only
  split
  · split
    · exact (keyboard_is_raw_pad _ t.wrap).trans (keyboard_is_raw_wrap t)
    · exact keyboard_is_raw_wrap t
  · exact keyboard_is_raw_wrap t

theorem keyboard_is_raw_write (t : Terminal) (h : 0x11 ∉ bytes) :
    (t.write_to_screen bytes).keyboard_is_raw = t.keyboard_is_raw := by
  induction bytes generalizing t with
  | nil => rfl
  | cons a bytes ih =>
      rw [List.mem_cons, not_or] at h
      obtain ⟨ha, hbytes⟩ := h
      exact (ih (t.putByte a) hbytes).trans (keyboard_is_raw_putByte t fun heq => ha heq.symm)

theorem pipeOp_ok {pop : PipeOp} (h : c.pipeOp pop = .ok c') :
    ∃ p, pop.exec c.pipe = .ok p ∧ c' = { c with pipe := p } := by
  rw [Console.pipeOp] at h
  cases hexec : pop.exec c.pipe with
  | error fault =>
      rw [hexec] at h
      cases h
  | ok p =>
      rw [hexec] at h
      exact ⟨p, rfl, (Except.ok.inj h).symm⟩

/-- A step of the pipe that leaves what is to be written as it is. -/
theorem Console.Inv.pipeOp {pop : PipeOp} (h : c.Inv kb k codes) (hen : pop.Enabled c.pipe)
    (hexec : pop.exec c.pipe = .ok p) (hreturned : ∀ rest ∈ p.writes.dropLast, rest = [])
    (hwrote : p.written ++ p.writes.flatten = c.pipe.written ++ c.pipe.writes.flatten) :
    Console.Inv kb k codes { c with pipe := p } where
  cooked := h.cooked
  pipe := exec_inv h.pipe hen hexec
  returned := hreturned
  wrote := hwrote ▸ h.wrote

theorem Console.Inv.scanCode (hkb : kb.Loaded) (h : c.Inv kb k codes) {b : UInt8}
    (hop : c.step kb (.scanCode b) c') : c'.Inv kb k (codes ++ [b]) := by
  obtain ⟨hen, hexec⟩ := hop
  rw [Console.exec, h.cooked] at hexec
  cases hread : c.d.read kb false b with
  | error halt =>
      rw [hread] at hexec
      cases hexec
  | ok r =>
      obtain ⟨d, out⟩ := r
      rw [hread] at hexec
      have hwrote := readAll_append h.wrote (readAll_cons_ok hread (readAll_nil d))
      rw [List.append_nil] at hwrote
      rcases read_text hkb hread with rfl | ⟨shift, code, rfl⟩
      · obtain rfl := Except.ok.inj hexec
        rw [List.append_nil] at hwrote
        exact ⟨h.cooked, h.pipe, h.returned, hwrote⟩
      · have ha := character_ne_modeset shift code
        generalize character shift code = a at ha hread hexec hwrote
        have hemit : [Written.character a].foldlM Console.emit { c with d } = .ok { c with
            d := d
            terminal := c.terminal.write_to_screen [a]
            pipe := { c.pipe with writes := c.pipe.writes ++ [[a]] } } := by
          rw [List.foldlM_cons, Console.emit, Console.pipeOp, exec_write h.pipe [a]]
          rfl
        obtain rfl := Except.ok.inj (hemit.symm.trans hexec)
        have hquiet : 0x11 ∉ [a] := fun hmem => ha (List.mem_singleton.mp hmem).symm
        have hlen : PipeOp.Enabled c.pipe (.write [a]) := by simp [PipeOp.Enabled]
        refine ⟨(keyboard_is_raw_write _ hquiet).trans h.cooked,
          exec_inv h.pipe hlen (exec_write h.pipe [a]), ?_, ?_⟩
        · dsimp only
          rw [List.dropLast_concat]
          exact hen
        · dsimp only
          rw [List.flatten_append, List.flatten_singleton, ← List.append_assoc, List.map_append]
          exact hwrote

theorem Console.Inv.driverSection (h : c.Inv kb k codes) {a : Nat} {g : FifoBuf}
    (hop : c.step kb (.driverSection a g) c') : c'.Inv kb k codes := by
  have hen : PipeOp.Enabled c.pipe (.writeSection (c.pipe.writes.length - 1) a g) := hop.1
  obtain ⟨p, hp, rfl⟩ := pipeOp_ok hop.2
  obtain ⟨n, hwritten, hwrites⟩ := exec_writeSection hp
  have hrest := hen.1
  have hinit := h.returned
  rcases List.eq_nil_or_concat c.pipe.writes with hnil | ⟨init, rest, hconcat⟩
  · rw [hnil] at hrest
    exact absurd rfl hrest
  · rw [List.concat_eq_append] at hconcat
    rw [hconcat, List.dropLast_concat] at hinit
    have hget : c.pipe.writes.getD (c.pipe.writes.length - 1) [] = rest := by simp [hconcat]
    have hset : p.writes = init ++ [rest.drop n] := by
      rw [hwrites, hget, hconcat]
      simp
    apply h.pipeOp hen hp
    · rw [hset, List.dropLast_concat]
      exact hinit
    · rw [hwritten, hget, hset, hconcat, List.flatten_append, List.flatten_append,
        List.flatten_eq_nil_iff.mpr hinit]
      simp

theorem Console.Inv.step (hkb : kb.Loaded) (h : c.Inv kb k codes) (hop : c.step kb op c')
    (hquiet : op.Quiet) : c'.Inv kb k (codes ++ op.code) := by
  have hnil : codes ++ [] = codes := List.append_nil codes
  cases op with
  | scanCode b => exact h.scanCode hkb hop
  | driverSection a g => exact hnil.symm ▸ h.driverSection hop
  | print bytes =>
      obtain rfl := Except.ok.inj hop.2
      exact hnil.symm ▸ ⟨(keyboard_is_raw_write _ hquiet).trans h.cooked, h.pipe,
        h.returned, h.wrote⟩
  | read len =>
      have hen : PipeOp.Enabled c.pipe (.read len) := hop.1
      obtain ⟨p, hp, rfl⟩ := pipeOp_ok hop.2
      obtain ⟨hwritten, hwrites⟩ := exec_read hp
      exact hnil.symm ▸ h.pipeOp hen hp (hwrites ▸ h.returned) (by rw [hwritten, hwrites])
  | readSection i =>
      have hen : PipeOp.Enabled c.pipe (.readSection i) := hop.1
      obtain ⟨p, hp, rfl⟩ := pipeOp_ok hop.2
      obtain ⟨hwritten, hwrites⟩ := exec_readSection hp
      exact hnil.symm ▸ h.pipeOp hen hp (hwrites ▸ h.returned) (by rw [hwritten, hwrites])

theorem Console.Inv.run (hkb : kb.Loaded)
    (hrun : Run (Console.step kb) (Console.start heap k t) ops c)
    (hquiet : ∀ op ∈ ops, op.Quiet) : c.Inv kb k (ops.flatMap ConsoleOp.code) := by
  induction ops using List.reverseRecOn generalizing c with
  | nil =>
      cases hrun
      exact start_inv heap k t
  | append_singleton ops op ih =>
      obtain ⟨c', hbefore, hop⟩ := run_concat.mp hrun
      rw [List.forall_mem_append] at hquiet
      rw [List.flatMap_append, List.flatMap_singleton]
      exact (ih hbefore hquiet.1).step hkb hop (hquiet.2 op List.mem_cons_self)

/-! ## The shell -/

/-- The shell runs lines that have a space. -/
theorem shell_lines (hspace : ∀ line ∈ lines, space ∈ line.text) (buf : Buffer) (stdin : List UInt8) :
    shell lines.length buf (lines.flatMap Shell.Line.typed ++ stdin) =
      .ok (lines.map Shell.Line.command) := by
  induction lines generalizing buf with
  | nil => rfl
  | cons line lines ih =>
      obtain ⟨hhere, hrest⟩ := List.forall_mem_cons.mp hspace
      obtain ⟨path, argument, htext, hpath⟩ := List.eq_append_cons_of_mem hhere
      rw [List.flatMap_cons, List.append_assoc, List.length_cons, shell_cons,
        split_spaced htext hpath buf]
      change (do
        let commands ← shell lines.length _ (lines.flatMap Shell.Line.typed ++ stdin)
        pure ((⟨path, argument⟩ : Command) :: commands)) = _
      rw [ih hrest, List.map_cons, command_spaced htext hpath]
      rfl

/-- What is typed comes out of the pipe in the order of typing, and the shell runs the lines of it
that have come out. -/
theorem typed_lines_run (hkb : kb.Loaded) (hch : kb.PS2_KB_CHANNEL &&& 0x1 ≠ 0)
    (hrun : Run (Console.step kb) (Console.start heap k t) ops c)
    (hquiet : ∀ op ∈ ops, op.Quiet)
    (hcodes : ops.flatMap ConsoleOp.code = events.flatMap KeyEvent.bytes) (hsend : Sendable events)
    (hsteady : Steady [] events) :
    c.pipe.delivered <+: spelled [] events ∧
      ∀ lines : List Shell.Line, lines.flatMap Shell.Line.typed <+: spelled [] events →
        (lines.flatMap Shell.Line.typed).length ≤ c.pipe.delivered.length →
        (∀ line ∈ lines, space ∈ line.text) →
        ∀ buf, shell lines.length buf c.pipe.delivered = .ok (lines.map Shell.Line.command) := by
  have hinv := Console.Inv.run hkb hrun hquiet
  obtain ⟨d', hspelled⟩ := readAll_spelled hkb hch (start_follows k) hsend hsteady
  have hwrote := hinv.wrote
  rw [hcodes, hspelled] at hwrote
  have htext : spelled [] events = c.pipe.written ++ c.pipe.writes.flatten := by
    have hmap := (Prod.mk.inj (Except.ok.inj hwrote)).2
    exact List.map_injective_iff.mpr (fun a b h => Written.character.inj h) hmap
  obtain ⟨bytes, -, hfifo⟩ := hinv.pipe.fifo
  have hdelivered : c.pipe.delivered <+: spelled [] events := by
    rw [htext, ← hfifo, List.append_assoc]
    exact List.prefix_append _ _
  refine ⟨hdelivered, fun lines hlines hlen hspace buf => ?_⟩
  obtain ⟨more, hmore⟩ := List.prefix_of_prefix_length_le hlines hdelivered hlen
  rw [← hmore]
  exact shell_lines hspace buf more

local instance neZero_codes : NeZero 128 := ⟨by decide⟩

/-- `A b` and the return key. -/
def typedStrokes : List Stroke :=
  [⟨true, letterKey, by decide⟩, ⟨false, plainKey 0x39 (by decide), by decide⟩,
    ⟨false, plainKey 0x30 (by decide), by decide⟩, ⟨false, plainKey 0x1C (by decide), by decide⟩]

/-- Each character goes into the pipe behind the break code of its key; then all are read. -/
def typedOps : List ConsoleOp :=
  ((typedStrokes.flatMap Stroke.presses).flatMap fun e =>
    e.bytes.map .scanCode ++
      if e.cooked mappedKeyboard 0 = [] then [] else [.driverSection 20 ⟨fun _ => 9, 3, none⟩]) ++
    [.print [0x24, 0x20], .read 4, .readSection 0]

def typedHeap : ConsoleHeap := ⟨1, 2, 10, 11, fun _ => 9, by decide⟩

/-- The line `A b`. -/
def typedLine : Shell.Line := ⟨[0x41, 0x20, 0x62], by decide, by simp [newline], by simp⟩

theorem typed_lines_run_one : ∃ c : Console,
    c.pipe.delivered = typedLine.typed ∧
      ∀ buf, shell 1 buf c.pipe.delivered = .ok [typedLine.command] := by
  have hall : ((follow Console.Enabled (Console.exec mappedKeyboard)
      (Console.start typedHeap ⟨0, 0, 0, 0⟩ emptyTerminal) typedOps).map fun c =>
        c.pipe.delivered) = some typedLine.typed := by
    decide +kernel
  obtain ⟨c, hc, hdelivered⟩ := Option.map_eq_some_iff.mp hall
  have hrun : Run (Console.step mappedKeyboard) (Console.start typedHeap ⟨0, 0, 0, 0⟩ emptyTerminal)
      typedOps c := run_of_follow (fun _ _ _ h h' => ⟨h, h'⟩) hc
  obtain ⟨hspelled, hsteady, hsend⟩ := strokes_spell typedStrokes
  obtain ⟨-, hlines⟩ := typed_lines_run (fun _ _ => rfl) (by decide) hrun (by decide) (by decide)
    hsend hsteady
  refine ⟨c, hdelivered, hlines [typedLine] ?_ (by rw [hdelivered]; decide) (by decide)⟩
  rw [hspelled]
  decide +kernel

end UnnamedOS.Devices
