import UnnamedOS.Devices.FloppyProgress

/-!
# The floppy as a store of sectors

What the bytes mean to the hardware: the DMA controller's channel 2 is set up port by port, the
floppy controller collects the bytes of a command and then moves one sector between its disc and the
memory that the channel points at.
-/

namespace UnnamedOS.Devices.Floppy

open UnnamedOS.Lib

/-- Channel 2. `flip` is set between the low and the high byte. -/
structure Channel where
  masked : Bool
  flip : Bool
  address : UInt8 × UInt8
  count : UInt8 × UInt8
  page : UInt8
  mode : UInt8

namespace Channel

def outb (c : Channel) (port : UInt16) (v : UInt8) : Channel :=
  if port = 0x0a then
    if v &&& 0x03 = 2 then { c with masked := v &&& 0x04 ≠ 0 } else c
  else if port = 0x0b then
    if v &&& 0x03 = 2 then { c with mode := v } else c
  else if port = 0x0c then { c with flip := false }
  else if port = 0x04 then
    { c with
      flip := !c.flip
      address := if c.flip then (c.address.1, v) else (v, c.address.2) }
  else if port = 0x05 then
    { c with
      flip := !c.flip
      count := if c.flip then (c.count.1, v) else (v, c.count.2) }
  else if port = 0x81 then { c with page := v }
  else c

variable (c : Channel) (v : UInt8)

theorem outb_mask : c.outb 0x0a 0x06 = { c with masked := true } := rfl

theorem outb_unmask : c.outb 0x0a 0x02 = { c with masked := false } := rfl

theorem outb_mode (hv : v &&& 0x03 = 2) : c.outb 0x0b v = { c with mode := v } := if_pos hv

theorem outb_flip : c.outb 0x0c v = { c with flip := false } := rfl

theorem outb_address : c.outb 0x04 v = { c with
    flip := !c.flip
    address := if c.flip then (c.address.1, v) else (v, c.address.2) } := rfl

theorem outb_count : c.outb 0x05 v = { c with
    flip := !c.flip
    count := if c.flip then (c.count.1, v) else (v, c.count.2) } := rfl

theorem outb_page : c.outb 0x81 v = { c with page := v } := rfl

/-- One sector goes between the device and the buffer at `0x1000`, again and again. -/
def Moves (c : Channel) (direction : UInt8) : Prop :=
  c.masked = false ∧ c.address = (0x00, 0x10) ∧ c.count = (0xff, 0x01) ∧ c.page = 0 ∧
    c.mode &&& 0x3c = 0x10 ||| direction

instance (c : Channel) (direction : UInt8) : Decidable (c.Moves direction) :=
  inferInstanceAs (Decidable (_ ∧ _))

end Channel

/-- The drive and the head, the cylinder, the head again and the sector, as a command names them. -/
abbrev Place := UInt8 × UInt8 × UInt8 × UInt8

/-- How many bytes follow a command. -/
def parameterCount (cmd : UInt8) : Nat :=
  if cmd &&& 0x1f = READ_DATA ∨ cmd &&& 0x1f = WRITE_DATA then 8
  else if cmd = CONFIGURE then 3
  else if cmd = SPECIFY then 2
  else if cmd = RECALIBRATE then 1
  else 0

structure Drive where
  channel : Channel
  /-- The bytes of a command that has not ended. -/
  pending : List UInt8
  disc : Place → Sector
  buffer : Sector

/-- The sector that the parameters of a command name. -/
def placeOf (params : List UInt8) : Place :=
  (params.getD 0 0, params.getD 1 0, params.getD 2 0, params.getD 3 0)

namespace Drive

/-- A command with all its parameters. -/
def obey (d : Drive) (cmd : UInt8) (params : List UInt8) : Drive :=
  if cmd &&& 0x1f = READ_DATA then
    if d.channel.Moves 0x04 then { d with buffer := d.disc (placeOf params) } else d
  else if cmd &&& 0x1f = WRITE_DATA then
    if d.channel.Moves 0x08 then
      { d with disc := Function.update d.disc (placeOf params) d.buffer }
    else d
  else d

def feed (d : Drive) (v : UInt8) : Drive :=
  match d.pending ++ [v] with
  | [] => d
  | cmd :: params =>
    if params.length < parameterCount cmd then { d with pending := cmd :: params }
    else { d with pending := [] }.obey cmd params

def take (d : Drive) : Query → Drive
  | .outb port v =>
    if port = DATA_FIFO then d.feed v else { d with channel := d.channel.outb port v }
  | .writeBuffer data => { d with buffer := data }
  | _ => d

def takeAll (d : Drive) (w : List Query) : Drive := w.foldl take d

end Drive

variable {LBA : UInt64} {disk cmd : UInt8} {params : List UInt8} {d : Drive}
  {disc : Place → Sector} {buffer : Sector} {mode : UInt8}

/-! ## Commands -/

theorem takeAll_append (d : Drive) (w w' : List Query) :
    d.takeAll (w ++ w') = (d.takeAll w).takeAll w' := List.foldl_append

theorem takeAll_cons (d : Drive) (q : Query) (w : List Query) :
    d.takeAll (q :: w) = (d.take q).takeAll w := rfl

theorem take_fifo (d : Drive) (v : UInt8) : d.take (.outb DATA_FIFO v) = d.feed v := by
  rw [Drive.take, if_pos rfl]

/-- The rest of a command, when some of it has come. -/
theorem takeAll_parameters (sent rest : List UInt8) (hpending : d.pending = cmd :: sent)
    (hcount : parameterCount cmd = (sent ++ rest).length) (hrest : rest ≠ []) :
    d.takeAll (rest.map (.outb DATA_FIFO)) = { d with pending := [] }.obey cmd (sent ++ rest) := by
  induction rest generalizing d sent with
  | nil => exact absurd rfl hrest
  | cons v rest ih =>
      rw [List.map_cons, takeAll_cons, take_fifo, Drive.feed, hpending, List.cons_append]
      dsimp only
      cases rest with
      | nil =>
          rw [if_neg (by rw [hcount]; exact lt_irrefl _)]
          rfl
      | cons v' rest =>
          rw [if_pos (by rw [hcount]; simp)]
          rw [ih (sent ++ [v]) rfl (by rw [hcount, List.append_assoc]; rfl) (List.cons_ne_nil _ _),
            List.append_assoc]
          rfl

/-- The acknowledgement goes to another chip. -/
theorem takeAll_acknowledged (d : Drive) (cmd : UInt8) : d.takeAll (acknowledged cmd) = d := by
  rw [acknowledged]
  split
  · rfl
  · rfl

theorem takeAll_command (hpending : d.pending = []) (hcount : parameterCount cmd = params.length) :
    d.takeAll (command cmd params) = d.obey cmd params := by
  have hidle : { d with pending := [] } = d := by rw [← hpending]
  rw [command, takeAll_append, takeAll_acknowledged]
  rw [List.map_cons, takeAll_cons, take_fifo, Drive.feed, hpending, List.nil_append]
  dsimp only
  cases params with
  | nil =>
      rw [hidle, if_neg (by rw [hcount]; exact lt_irrefl _)]
      rfl
  | cons v params =>
      rw [if_pos (by rw [hcount]; exact Nat.succ_pos _),
        takeAll_parameters [] (v :: params) rfl hcount (List.cons_ne_nil _ _)]
      exact congrArg (Drive.obey · cmd (v :: params)) hidle

/-- Every other command leaves the disc and the buffer alone. -/
theorem takeAll_other (hpending : d.pending = []) (hcount : parameterCount cmd = params.length)
    (hcmd : cmd &&& 0x1f ≠ READ_DATA ∧ cmd &&& 0x1f ≠ WRITE_DATA) :
    d.takeAll (command cmd params) = d := by
  rw [takeAll_command hpending hcount, Drive.obey, if_neg hcmd.1, if_neg hcmd.2]

/-! ## Calls -/

def place (LBA : UInt64) (disk : UInt8) : Place := placeOf (sectorParameters LBA disk)

/-- As the set-up leaves the controllers. -/
def configured (disc : Place → Sector) (buffer : Sector) (mode : UInt8) : Drive where
  channel := ⟨false, false, (0x00, 0x10), (0xff, 0x01), 0, mode⟩
  pending := []
  disc := disc
  buffer := buffer

theorem takeAll_dmaSetUp (hpending : d.pending = []) :
    d.takeAll dmaSetUp = configured d.disc d.buffer d.channel.mode := by
  obtain ⟨⟨masked, flip, address, count, page, mode⟩, pending, disc, buffer⟩ := d
  subst hpending
  simp [dmaSetUp, Drive.takeAll, Drive.take, DATA_FIFO, configured, Channel.outb_mask,
    Channel.outb_flip, Channel.outb_address, Channel.outb_count, Channel.outb_page,
    Channel.outb_unmask]

theorem takeAll_setUp (hpending : d.pending = []) :
    d.takeAll setUp = configured d.disc d.buffer d.channel.mode := by
  have hidle : ∀ cmd params, parameterCount cmd = params.length →
      cmd &&& 0x1f ≠ READ_DATA ∧ cmd &&& 0x1f ≠ WRITE_DATA →
      (configured d.disc d.buffer d.channel.mode).takeAll (command cmd params) =
        configured d.disc d.buffer d.channel.mode := fun _ _ => takeAll_other rfl
  have heoi : (configured d.disc d.buffer d.channel.mode).takeAll [.outb 0x20 0x20] =
      configured d.disc d.buffer d.channel.mode := rfl
  have hreset : (configured d.disc d.buffer d.channel.mode).takeAll resetBytes =
      configured d.disc d.buffer d.channel.mode := by
    rw [resetBytes, ← List.singleton_append, takeAll_append, heoi,
      hidle SPECIFY [0x80, 0x0a] (by decide) (by decide)]
  rw [setUp, takeAll_append, takeAll_dmaSetUp hpending, takeAll_append,
    hidle VERSION [] (by decide) (by decide), configuration, takeAll_append,
    hidle CONFIGURE [0x0, 0x57, 0x0] (by decide) (by decide), takeAll_append,
    hidle LOCK [] (by decide) (by decide), takeAll_append, hreset, takeAll_append,
    hidle RECALIBRATE [0x0] (by decide) (by decide),
    hidle SENSE_INTERRUPT [] (by decide) (by decide)]

theorem takeAll_dmaMode {mode' : UInt8} (hmode : mode' &&& 0x03 = 2) :
    (configured disc buffer mode).takeAll (dmaMode mode') = configured disc buffer mode' := by
  simp [dmaMode, Drive.takeAll, Drive.take, DATA_FIFO, configured, Channel.outb_mask,
    Channel.outb_mode _ _ hmode, Channel.outb_unmask]

theorem takeAll_transferred (hcount : parameterCount (cmd ||| 0x40) = 8) :
    (configured disc buffer mode).takeAll (transferred cmd LBA disk) =
      ((configured disc buffer mode).obey (cmd ||| 0x40) (sectorParameters LBA disk)).takeAll
        (command SENSE_INTERRUPT []) := by
  have hlength : (sectorParameters LBA disk).length = 8 := rfl
  have hcommand := takeAll_command (rfl : (configured disc buffer mode).pending = [])
    (hcount.trans hlength.symm)
  rw [transferred, takeAll_append, hcommand]

theorem configured_moves {direction : UInt8} (hmode : mode &&& 0x3c = 0x10 ||| direction) :
    (configured disc buffer mode).channel.Moves direction := ⟨rfl, rfl, rfl, rfl, hmode⟩

theorem takeAll_read (disc : Place → Sector) (buffer : Sector) (mode : UInt8) (LBA : UInt64)
    (len : UInt16) (disk : UInt8) : (configured disc buffer mode).takeAll
      (Call.read LBA len disk).bytes = configured disc (disc (place LBA disk)) 0b01010110 := by
  have hobey : (configured disc buffer 0b01010110).obey (READ_DATA ||| 0x40)
      (sectorParameters LBA disk) = configured disc (disc (place LBA disk)) 0b01010110 := by
    rw [Drive.obey, if_pos (by decide), if_pos (configured_moves (by decide))]
    rfl
  rw [Call.bytes, takeAll_append, takeAll_dmaMode (by decide), takeAll_transferred (by decide), hobey,
    takeAll_other rfl (by decide) (by decide)]

theorem takeAll_write (disc : Place → Sector) (buffer : Sector) (mode : UInt8) (LBA : UInt64)
    (len : UInt16) (data : UInt64) (contents : Sector) (disk : UInt8) :
    (configured disc buffer mode).takeAll (Call.write LBA len data contents disk).bytes =
      configured (Function.update disc (place LBA disk) contents) contents 0b01011010 := by
  have hbuffer : (configured disc buffer 0b01011010).take (.writeBuffer contents) =
      configured disc contents 0b01011010 := rfl
  have hobey : (configured disc contents 0b01011010).obey (WRITE_DATA ||| 0x40)
      (sectorParameters LBA disk) =
      configured (Function.update disc (place LBA disk) contents) contents 0b01011010 := by
    rw [Drive.obey, if_neg (by decide), if_pos (by decide), if_pos (configured_moves (by decide))]
    rfl
  rw [Call.bytes, takeAll_append, takeAll_dmaMode (by decide), takeAll_cons, hbuffer,
    takeAll_transferred (by decide), hobey, takeAll_other rfl (by decide) (by decide)]

/-! ## Places -/

/-- The drive is the low half of its byte, as the head is 0 or 1. -/
theorem head_or_disk {head disk disk' : UInt8} (hhead : head < 2) (hdisk : disk < 4)
    (hdisk' : disk' < 4) : head <<< 2 ||| disk = head <<< 2 ||| disk' ↔ disk = disk' := by
  have hsmall : ∀ d : UInt8, d < 4 → d = 0 ∨ d = 1 ∨ d = 2 ∨ d = 3 := by
    intro d hd
    rw [UInt8.lt_iff_toNat_lt] at hd
    simp only [← UInt8.toNat_inj]
    change d.toNat < 4 at hd
    change d.toNat = 0 ∨ d.toNat = 1 ∨ d.toNat = 2 ∨ d.toNat = 3
    omega
  have hbit : head = 0 ∨ head = 1 := by
    rw [UInt8.lt_iff_toNat_lt] at hhead
    simp only [← UInt8.toNat_inj]
    change head.toNat < 2 at hhead
    change head.toNat = 0 ∨ head.toNat = 1
    omega
  rcases hsmall disk hdisk with rfl | rfl | rfl | rfl <;>
    rcases hsmall disk' hdisk' with rfl | rfl | rfl | rfl <;>
      rcases hbit with rfl | rfl <;> decide

theorem lba_2_chs_eq_iff (lba lba' : UInt32) :
    lba_2_chs lba = lba_2_chs lba' ↔ lba.toNat % 9216 = lba'.toNat % 9216 := by
  simp only [lba_2_chs, Prod.mk.injEq, ← UInt8.toNat_inj, UInt32.toNat_toUInt8, UInt32.toNat_div,
    UInt32.toNat_mod, UInt32.toNat_add, UInt32.reduceToNat]
  omega

theorem head_lt (lba : UInt32) : (lba_2_chs lba).2.1 < 2 := by
  rw [UInt8.lt_iff_toNat_lt]
  simp only [lba_2_chs, UInt32.toNat_toUInt8, UInt32.toNat_div, UInt32.toNat_mod,
    UInt32.reduceToNat, UInt8.reduceToNat]
  omega

/-- Sectors below 9216 that have different numbers are at different places. -/
theorem place_eq_iff {LBA LBA' : UInt64} {disk disk' : UInt8} (hdisk : disk < 4)
    (hdisk' : disk' < 4) : place LBA disk = place LBA' disk' ↔
      disk = disk' ∧ LBA.toUInt32.toNat % 9216 = LBA'.toUInt32.toNat % 9216 := by
  have hplace : ∀ (L : UInt64) (d : UInt8), place L d =
      ((lba_2_chs L.toUInt32).2.1 <<< 2 ||| d, lba_2_chs L.toUInt32) := fun _ _ => rfl
  rw [hplace, hplace, Prod.mk.injEq, ← lba_2_chs_eq_iff]
  constructor
  · rintro ⟨hhead, hchs⟩
    rw [hchs] at hhead
    exact ⟨(head_or_disk (head_lt _) hdisk hdisk').mp hhead, hchs⟩
  · rintro ⟨rfl, hchs⟩
    rw [hchs]
    exact ⟨rfl, rfl⟩

/-! ## Answers -/

variable {α β : Type} {v v' : Vars} {x : FloppyM α} {f : α → FloppyM β} {w : List Query} {s : Bus}
  {P : β → Bus → Prop} {partner : List Event → (q : Query) → q.Answer} {drive : Drive}

/-- A step of a program whose last answer is asked for. -/
theorem step_of_does (hx : Does output FifoRule v x w v') (hs : s.vars = v)
    (hf : ∀ a s', s'.partner = s.partner → s'.vars = v' → Ends (f a) s' P fun _ _ => True) :
    Ends (x >>= f) s P fun _ _ => True := by
  have hx' := (hx s hs).mono (fun _ _ h => h) fun _ _ _ => trivial
  exact hx'.bind fun a s' h => hf a s' h.1.partner h.2

/-- The last thing that is asked for is the buffer, and nothing is given out behind it. -/
theorem floppy_read_answers (LBA : UInt64) (len : UInt16) (disk : UInt8) {uninit : Bool}
    (hs : s.vars = ⟨uninit, false⟩) : Ends (floppy_read LBA len disk) s
      (fun data s' => ∃ past, data = s.partner past .readBuffer ∧
        past.filterMap output = s'.past.filterMap output) fun _ _ => True := by
  rw [floppy_read]
  by_cases hlen : len ≠ 512
  · rw [if_pos hlen]
    exact ends_throw.mpr trivial
  rw [if_neg hlen]
  refine step_of_does (initialise_does uninit) hs fun _ s₁ hp₁ hs₁ => ?_
  refine step_of_does (takeFloppy_does LBA false) hs₁ fun _ s₂ hp₂ hs₂ => ?_
  refine step_of_does ((dmaMode_tells 0b01010110).does _) hs₂ fun _ s₃ hp₃ hs₃ => ?_
  refine step_of_does ((transfer_tells READ_DATA LBA disk).does _) hs₃ fun _ s₄ hp₄ hs₄ => ?_
  have hpartner : s₄.partner = s.partner := hp₄.trans (hp₃.trans (hp₂.trans hp₁))
  rw [ends_iff]
  refine ⟨fun data s' hrun => ?_, fun _ _ _ => trivial⟩
  cases hrun
  refine ⟨s₄.past, by rw [hpartner], ?_⟩
  show _ = (s₄.past ++ [_]).filterMap output
  rw [List.filterMap_append]
  exact (List.append_nil _).symm

/-- The buffer holds what the drive has put there. -/
def Faithful (drive : Drive) (partner : List Event → (q : Query) → q.Answer) : Prop :=
  ∀ past, partner past .readBuffer = (drive.takeAll (past.filterMap output)).buffer

def serve : List Call → FloppyM (List Sector)
  | [] => pure []
  | .read LBA len disk :: calls => do
    let data ← floppy_read LBA len disk
    let more ← serve calls
    return data :: more
  | .write LBA len data contents disk :: calls => do
    floppy_write LBA len data contents disk
    serve calls

/-- What the reads give if the floppy is a store. -/
def stored : (Place → Sector) → List Call → List Sector
  | _, [] => []
  | disc, .read LBA _ disk :: calls => disc (place LBA disk) :: stored disc calls
  | disc, .write LBA _ _ contents disk :: calls =>
    stored (Function.update disc (place LBA disk) contents) calls

/-- The drive is set up once the first call has done so, and holds `disc`. -/
structure Serving (drive : Drive) (disc : Place → Sector) (uninit : Bool) (s : Bus) : Prop where
  vars : s.vars = ⟨uninit, false⟩
  faithful : Faithful drive s.partner
  drive : ∃ buffer mode, drive.takeAll (s.past.filterMap output ++ if uninit then setUp else []) =
    configured disc buffer mode

variable {s' : Bus} {uninit : Bool} {c : Call}

/-- What a call leaves the drive with. -/
theorem Serving.after (h : Serving drive disc uninit s)
    (htold : Told output FifoRule s s' ((if uninit then setUp else []) ++ c.bytes)) :
    ∃ buffer mode, drive.takeAll (s'.past.filterMap output) =
      (configured disc buffer mode).takeAll c.bytes := by
  obtain ⟨buffer, mode, hdrive⟩ := h.drive
  refine ⟨buffer, mode, ?_⟩
  rw [htold.given, ← List.append_assoc, takeAll_append, hdrive]

theorem serve_stored (calls : List Call) (h : Serving drive disc uninit s) :
    Ends (serve calls) s (fun answers _ => answers = stored disc calls) fun _ _ => True := by
  induction calls generalizing disc uninit s with
  | nil => exact ends_pure.mpr rfl
  | cons c calls ih =>
      cases c with
      | read LBA len disk =>
          have hread := (floppy_read_does LBA len disk uninit s h.vars).and
            (floppy_read_answers LBA len disk h.vars)
          refine (hread.mono (fun _ _ h => h) fun _ _ _ => trivial).bind fun data s' hdone => ?_
          obtain ⟨⟨htold, hvars⟩, past, hdata, hpast⟩ := hdone
          obtain ⟨buffer, mode, hdrive⟩ := h.after (c := .read LBA len disk) htold
          rw [takeAll_read] at hdrive
          have hserving : Serving drive disc false s' :=
            ⟨hvars, htold.partner ▸ h.faithful, _, _, by
              rw [if_neg Bool.false_ne_true, List.append_nil, hdrive]⟩
          have hanswer : data = disc (place LBA disk) := by
            rw [hdata, h.faithful, hpast, hdrive]
            rfl
          refine (ih hserving).bind fun more s'' hmore => ends_pure.mpr ?_
          rw [hanswer, hmore, stored]
      | write LBA len data contents disk =>
          have hwrite := floppy_write_does LBA len data contents disk uninit s h.vars
          refine (hwrite.mono (fun _ _ h => h) fun _ _ _ => trivial).bind fun _ s' hdone => ?_
          obtain ⟨htold, hvars⟩ := hdone
          obtain ⟨buffer, mode, hdrive⟩ := h.after (c := .write LBA len data contents disk) htold
          rw [takeAll_write] at hdrive
          have hserving : Serving drive (Function.update disc (place LBA disk) contents) false s' :=
            ⟨hvars, htold.partner ▸ h.faithful, _, _, by
              rw [if_neg Bool.false_ne_true, List.append_nil, hdrive]⟩
          exact ih hserving

/-- A call that passes the checks of its arguments. -/
def Call.Formed : Call → Prop
  | .read _ len _ => len = 512
  | .write _ len data _ _ => len = 512 ∧ data &&& 0xFFF = 0

theorem serve_fares {calls : List Call} (hcalls : ∀ c ∈ calls, c.Formed) (p : Prop)
    (hs : s.vars = ⟨uninit, false⟩) : Fares Willing p (serve calls) s fun _ => True := by
  induction calls generalizing uninit s p with
  | nil => exact ends_pure.mpr ⟨.refl s, fun _ _ => trivial⟩
  | cons c calls ih =>
      obtain ⟨hformed, hrest⟩ := List.forall_mem_cons.mp hcalls
      cases c with
      | read LBA len disk =>
          obtain rfl : len = 512 := hformed
          have hdone := ends_iff.mp (floppy_read_does LBA 512 disk uninit s hs)
          refine (floppy_read_fares p LBA disk hs).bind fun data s' hrun => ?_
          refine (ih hrest _ (hdone.1 data s' hrun).2).bind fun _ s'' _ => ?_
          exact ends_pure.mpr ⟨.refl s'', fun _ _ => trivial⟩
      | write LBA len data contents disk =>
          obtain ⟨rfl, hdata⟩ : len = 512 ∧ data &&& 0xFFF = 0 := hformed
          have hdone := ends_iff.mp (floppy_write_does LBA 512 data contents disk uninit s hs)
          refine (floppy_write_fares p LBA hdata contents disk hs).bind fun _ s' hrun => ?_
          exact ih hrest _ (hdone.1 _ s' hrun).2

/-- Every read gives what was written last to its place, or what the disc had there; a run ends early
only where a controller, by one of its answers in the run, or an argument is to blame. -/
theorem floppy_stores (hbuffer : Faithful drive partner) (hpending : drive.pending = [])
    (calls : List Call) : Ends (serve calls) (boot partner)
      (fun answers _ => answers = stored drive.disc calls)
      fun _ s => ¬ ((∀ e ∈ s.past, Willing e) ∧ ∀ c ∈ calls, c.Formed) := by
  have hstored := serve_stored (s := boot partner) calls
    ⟨rfl, hbuffer, _, _, takeAll_setUp hpending⟩
  by_cases hcalls : ∀ c ∈ calls, c.Formed
  · have hfares := serve_fares (s := boot partner) hcalls True rfl
    exact (hstored.and hfares).mono (fun _ _ h => h.1) fun _ _ h hends => h.2.2 trivial hends.1
  · exact hstored.mono (fun _ _ h => h) fun _ _ _ hends => hcalls hends.2

/-- An idle drive with a blank disc. -/
def blank : Drive where
  channel := ⟨true, false, (0, 0), (0, 0), 0, 0⟩
  pending := []
  disc _ _ := 0
  buffer _ := 0

/-- Surroundings that answer at once. -/
def prompt (past : List Event) : (q : Query) → q.Answer
  | .inb _ => 0x80
  | .wait_for_irq _ _ => true
  | .malloc => fun _ => 0x90
  | .readBuffer => (blank.takeAll (past.filterMap output)).buffer
  | .outb _ _ | .nano_sleep _ | .writeBuffer _ => ()

/-- A sector is written, another one too, and the first is read. -/
def writeWriteRead : List Call :=
  [.write 5 512 0x1000 (fun _ => 7) 0, .write 6 512 0x1000 (fun _ => 8) 0, .read 5 512 0]

theorem stored_writeWriteRead (disc : Place → Sector) :
    stored disc writeWriteRead = [fun _ => 7] := by
  have hapart : place 5 0 ≠ place 6 0 := fun h =>
    absurd ((place_eq_iff (by decide) (by decide)).mp h).2 (by decide)
  rw [writeWriteRead, stored, stored, stored, stored, Function.update_of_ne hapart,
    Function.update_self]

theorem formed_writeWriteRead : ∀ c ∈ writeWriteRead, c.Formed := by
  intro c hc
  simp only [writeWriteRead, List.mem_cons, List.not_mem_nil, or_false] at hc
  rcases hc with rfl | rfl | rfl
  · exact ⟨rfl, by decide⟩
  · exact ⟨rfl, by decide⟩
  · exact rfl

theorem willing_prompt (past : List Event) (q : Query) : Willing ⟨q, prompt past q⟩ := by
  cases q with
  | inb port => exact fun _ => rfl
  | wait_for_irq line ttn => rfl
  | malloc => rfl
  | outb port v => trivial
  | nano_sleep ns => trivial
  | readBuffer => trivial
  | writeBuffer data => trivial

theorem floppy_stores_three : Faithful blank prompt ∧ blank.pending = [] ∧
    ∃ s, serve writeWriteRead (boot prompt) = .ok [fun _ => 7] s := by
  have hstores := floppy_stores (fun _ => rfl : Faithful blank prompt) rfl writeWriteRead
  have hfares := serve_fares (s := boot prompt) formed_writeWriteRead True rfl
  -- The answers of the run are those of `prompt`, which are never to blame.
  have hends := (hstores.and hfares).mono (fun _ _ h => h.1) fun _ s h => show False from by
    obtain ⟨hblame, hlater, -⟩ := h
    refine hblame ⟨fun e he => ?_, formed_writeWriteRead⟩
    obtain ⟨question, answer⟩ := e
    obtain ⟨before, hanswer⟩ :=
      hlater.genuine (fun e he => absurd he List.not_mem_nil) _ he
    rw [hlater.partner] at hanswer
    obtain rfl : answer = prompt before question := hanswer
    exact willing_prompt before question
  obtain ⟨answers, s, hrun, hanswers⟩ := hends.exists_ok
  refine ⟨fun _ => rfl, rfl, s, ?_⟩
  rw [hrun, hanswers, stored_writeWriteRead]

end UnnamedOS.Devices.Floppy
