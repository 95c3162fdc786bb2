import UnnamedOS.Devices.FloppyCommands

/-!
# The handshake with the floppy controller

A byte goes to the controller only when its status has just asked for one, and is taken from it only
when its status has just offered one. What the driver gives out does not depend on the answers, except
that an error may end it early.
-/

namespace UnnamedOS.Devices.Floppy

open UnnamedOS.Lib

abbrev Event := Exchange Query.Answer

/-- The last status was `msr`, and since it was read the driver has at most slept. -/
def LastStatus (msr : UInt8) (past : List Event) : Prop :=
  ∃ before idle, past = before ++ ⟨.inb MAIN_STATUS_REGISTER, msr⟩ :: idle ∧
    ∀ e ∈ idle, ∃ ns, e.question = .nano_sleep ns

/-- The controller asks for a byte, as the last status says. -/
def Asked (past : List Event) : Prop := ∃ msr, LastStatus msr past ∧ msr &&& 0xc0 = 0x80

/-- The status that has just been read has the bits that are waited for. -/
def Status (mask bits : UInt8) (past : List Event) : Prop :=
  ∃ before msr, past = before ++ [⟨.inb MAIN_STATUS_REGISTER, msr⟩] ∧ msr &&& mask = bits

/-- The controller has been ready, and offers a byte in the middle of a command. -/
def Offered (past : List Event) : Prop :=
  ∃ before msr, Status 0x80 0x80 before ∧ past = before ++ [⟨.inb MAIN_STATUS_REGISTER, msr⟩] ∧
    msr &&& 0x50 = 0x50

/-- The rule of the port `DATA_FIFO`. -/
def FifoRule (past : List Event) (e : Event) : Prop :=
  match e.question with
  | .outb port _ => port = DATA_FIFO → Asked past
  | .inb port => port = DATA_FIFO → Offered past
  | _ => True

/-- What is given out: every byte to a port, but for the register with the reset and motor bits, and
what is put into the buffer. -/
def output (e : Event) : Option Query :=
  match e.question with
  | .outb port v => if port = DIGITAL_OUTPUT_REGISTER then none else some (.outb port v)
  | .writeBuffer data => some (.writeBuffer data)
  | _ => none

variable {α : Type} {past : List Event} {w : List Query}

/-! ## Single questions -/

theorem outb_tells {port : UInt16} (hfifo : port ≠ DATA_FIFO) (hdor : port ≠ DIGITAL_OUTPUT_REGISTER)
    (v : UInt8) : Tells output FifoRule (outb port v) [.outb port v] :=
  Tells.ask (fun _ _ h => absurd h hfifo) fun _ => by
    rw [output]
    dsimp only
    rw [if_neg hdor]
    rfl

theorem outb_dor_tells (v : UInt8) : Tells output FifoRule (outb DIGITAL_OUTPUT_REGISTER v) [] :=
  Tells.ask (fun _ _ h => absurd h (by decide)) fun _ => rfl

theorem inb_tells {port : UInt16} (hfifo : port ≠ DATA_FIFO) : Tells output FifoRule (inb port) [] :=
  Tells.ask (fun _ _ h => absurd h hfifo) fun _ => rfl

theorem nano_sleep_tells (ns : Nat) : Tells output FifoRule (nano_sleep ns) [] :=
  Tells.ask (fun _ _ => trivial) fun _ => rfl

theorem wait_for_irq_tells (line : UInt8) (ttn : Nat) :
    Tells output FifoRule (wait_for_irq line ttn) [] := by
  have hask : Tells output FifoRule (ask (Query.wait_for_irq line ttn) : FloppyM Bool) [] :=
    Tells.ask (fun _ _ => trivial) fun _ => rfl
  refine hask.bind fun arrived => ?_
  cases arrived with
  | true => exact Tells.pure ()
  | false => exact Tells.throw _ []

theorem PIC_sendEOI_tells : Tells output FifoRule (PIC_sendEOI 0x06) [.outb 0x20 0x20] :=
  outb_tells (by decide) (by decide) 0x20

/-! ## Waiting -/

theorem inb_status (P : List Event → Prop) :
    Says output FifoRule (fun s => P s.past) (inb MAIN_STATUS_REGISTER) [] fun msr s =>
      ∃ before, P before ∧ s.past = before ++ [⟨.inb MAIN_STATUS_REGISTER, msr⟩] :=
  Says.ask (fun _ _ _ h => absurd h (by decide)) (fun _ => rfl) fun s _ hs => ⟨s.past, hs, rfl⟩

theorem inb_lastStatus (P : List Event → Prop) :
    Says output FifoRule (fun s => P s.past) (inb MAIN_STATUS_REGISTER) []
      fun msr s => LastStatus msr s.past := by
  refine (inb_status P).mono (fun _ h => h) fun msr s h => ?_
  obtain ⟨before, -, hpast⟩ := h
  exact ⟨before, [], hpast, fun _ he => absurd he List.not_mem_nil⟩

theorem nano_sleep_lastStatus (msr : UInt8) (ns : Nat) :
    Says output FifoRule (fun s => LastStatus msr s.past) (nano_sleep ns) []
      fun _ s => LastStatus msr s.past := by
  refine Says.ask (fun _ _ _ => trivial) (fun _ => rfl) fun s a hs => ?_
  obtain ⟨before, idle, hpast, hidle⟩ := hs
  refine ⟨before, idle ++ [⟨.nano_sleep ns, a⟩], ?_, fun e he => ?_⟩
  · show s.past ++ [_] = _
    rw [hpast, List.append_assoc, List.cons_append]
  · rcases List.mem_append.mp he with he | he
    · exact hidle e he
    · rw [List.mem_singleton.mp he]
      exact ⟨ns, rfl⟩

theorem waitWhile_status {pause : FloppyM Unit} (hpause : Tells output FifoRule pause [])
    (mask bits : UInt8) (halt : FloppyHalt) (timeout : Nat) :
    Says output FifoRule (fun _ => True) (waitWhile mask bits pause halt timeout) []
      fun _ s => Status mask bits s.past := by
  induction timeout with
  | zero => exact Says.throw halt []
  | succ timeout ih =>
      refine (inb_status fun _ => True).bind fun msr => ?_
      by_cases hbits : msr &&& mask ≠ bits
      · rw [if_pos hbits]
        refine (hpause.weaken _).bind fun _ => ?_
        by_cases hlast : timeout = 0
        · rw [if_pos hlast]
          exact Says.throw halt []
        · rw [if_neg hlast]
          exact ih
      · rw [if_neg hbits]
        refine Says.pure fun s hs => ?_
        obtain ⟨before, -, hpast⟩ := hs
        exact ⟨before, msr, hpast, not_not.mp hbits⟩

theorem Status.asked (h : Status 0xc0 0x80 past) : Asked past := by
  obtain ⟨before, msr, rfl, hmsr⟩ := h
  exact ⟨msr, ⟨before, [], rfl, fun _ he => absurd he List.not_mem_nil⟩, hmsr⟩

/-! ## Commands -/

/-- A byte for the controller, where it has asked for one. -/
theorem outb_fifo (v : UInt8) : Says output FifoRule (fun s => Asked s.past)
    (outb DATA_FIFO v) [.outb DATA_FIFO v] fun _ _ => True :=
  Says.ask (fun _ _ hs _ => hs) (fun _ => rfl) fun _ _ _ => trivial

/-- Between the last status and the command there may be a pause. -/
theorem waitForCommand_asked (cmd msr : UInt8) (timeout : Nat) :
    Says output FifoRule (fun s => LastStatus msr s.past) (waitForCommand cmd msr timeout) []
      fun _ s => Asked s.past := by
  induction timeout generalizing msr with
  | zero => exact Says.throw _ []
  | succ timeout ih =>
      rw [waitForCommand]
      by_cases hbits : msr &&& 0xc0 ≠ 0x80
      · rw [if_pos hbits]
        refine (inb_lastStatus (LastStatus msr)).bind fun msr' => ?_
        refine (nano_sleep_lastStatus msr' 10000000).bind fun _ => ?_
        by_cases hlast : timeout = 0
        · rw [if_pos hlast]
          exact Says.throw _ []
        · rw [if_neg hlast]
          exact ih msr'
      · rw [if_neg hbits]
        exact Says.pure fun s hs => ⟨msr, hs, not_not.mp hbits⟩

theorem sendParameters_tells (cmd : UInt8) (params : List UInt8) :
    Tells output FifoRule (sendParameters cmd params) (params.map (.outb DATA_FIFO)) := by
  induction params with
  | nil => exact Tells.pure ()
  | cons param params ih =>
      rw [sendParameters]
      have hwait := (waitWhile_status (Tells.pure ()) 0xc0 0x80 (.ERR_FSC cmd) 1000).mono
        (fun _ h => h) fun _ _ h => h.asked
      exact hwait.bind fun _ => (outb_fifo param).bind fun _ => ih

/-- No result byte is taken that has not been offered, and nothing is given out. -/
theorem takeResults_silent (cmd : UInt8) (timeout : Nat) (out : List UInt8) :
    Says output FifoRule (fun s => Status 0x80 0x80 s.past) (takeResults cmd timeout out) []
      fun _ _ => True := by
  induction out generalizing timeout with
  | nil =>
      rw [takeResults]
      refine ((inb_tells (by decide)).weaken _).bind fun msr => ?_
      by_cases hmsr : msr &&& 0x50 = 0x50
      · rw [if_pos hmsr]
        exact Says.pure fun _ _ => trivial
      · rw [if_neg hmsr]
        exact Says.pure fun _ _ => trivial
  | cons b out ih =>
      rw [takeResults]
      refine (inb_status (Status 0x80 0x80)).bind fun msr => ?_
      by_cases hmsr : msr &&& 0x50 = 0x50
      · rw [if_pos hmsr]
        have hfifo : Says output FifoRule (fun s => ∃ before, Status 0x80 0x80 before ∧
            s.past = before ++ [⟨.inb MAIN_STATUS_REGISTER, msr⟩]) (inb DATA_FIFO) []
            fun _ _ => True := by
          refine Says.ask (fun s _ hs _ => ?_) (fun _ => rfl) fun _ _ _ => trivial
          obtain ⟨before, hready, hpast⟩ := hs
          exact ⟨before, msr, hready, hpast, hmsr⟩
        refine hfifo.bind fun v => ?_
        refine (waitWhile_status (Tells.pure ()) 0x80 0x80 (.ERR_FSC3 cmd) timeout).bind
          fun timeout => ?_
        exact (ih timeout).bind fun _ => Says.pure fun _ _ => trivial
      · rw [if_neg hmsr]
        exact Says.pure fun _ _ => trivial

/-- Whether the command ends with an interrupt, which the driver acknowledges. -/
def acknowledged (cmd : UInt8) : List Query :=
  if cmd &&& ~~~0x40 = READ_DATA ∨ cmd &&& ~~~0x40 = WRITE_DATA ∨ cmd = RECALIBRATE then
    [.outb 0x20 0x20]
  else []

theorem awaitTransfer_tells (cmd : UInt8) :
    Tells output FifoRule (awaitTransfer cmd) (acknowledged cmd) := by
  have hwait : ∀ ttn, Tells output FifoRule (do wait_for_irq 0x06 ttn; PIC_sendEOI 0x06)
      [.outb 0x20 0x20] := fun ttn => (wait_for_irq_tells 0x06 ttn).bind fun _ => PIC_sendEOI_tells
  rw [awaitTransfer, acknowledged]
  by_cases htransfer : cmd &&& ~~~0x40 = READ_DATA ∨ cmd &&& ~~~0x40 = WRITE_DATA
  · rw [if_pos htransfer, if_pos (or_assoc.mp (Or.inl htransfer))]
    exact hwait 0
  · rw [if_neg htransfer]
    by_cases hseek : cmd = RECALIBRATE
    · rw [if_pos hseek, if_pos (Or.inr (Or.inr hseek))]
      exact hwait 3000000000
    · rw [if_neg hseek, if_neg fun h => (or_assoc.mpr h).elim htransfer hseek]
      exact Tells.pure ()

theorem resultPhase_tells (cmd : UInt8) (out : List UInt8) :
    Tells output FifoRule (resultPhase cmd out) [] := by
  rw [resultPhase]
  by_cases hout : out = []
  · rw [if_pos hout]
    have hwait := waitWhile_status (nano_sleep_tells 10000000) 0x80 0x80 (.ERR_FSC4 cmd) 1000
    exact hwait.tells.bind fun _ => Tells.pure []
  · rw [if_neg hout]
    have hwait := waitWhile_status (nano_sleep_tells 1000000000) 0x80 0x80 (.ERR_FSC2 cmd) 10000
    exact Says.bind hwait fun timeout => takeResults_silent cmd timeout out

/-- What a command gives out. -/
def command (cmd : UInt8) (params : List UInt8) : List Query :=
  (cmd :: params).map (.outb DATA_FIFO) ++ acknowledged cmd

theorem FLOPPY_SEND_COMMAND_tells (cmd : UInt8) (params out : List UInt8) :
    Tells output FifoRule (FLOPPY_SEND_COMMAND cmd params out) (command cmd params) := by
  have hreply : Tells output FifoRule (do awaitTransfer cmd; resultPhase cmd out)
      (acknowledged cmd) := by
    have h := (awaitTransfer_tells cmd).bind fun _ => resultPhase_tells cmd out
    rwa [List.append_nil] at h
  have hsend := Says.bind (outb_fifo cmd) fun _ =>
    Says.bind (sendParameters_tells cmd params) fun _ => hreply
  show Says output FifoRule _ _ ([] ++ ([] ++ ([.outb DATA_FIFO cmd] ++
    (params.map (.outb DATA_FIFO) ++ acknowledged cmd)))) _
  exact Says.bind (inb_lastStatus fun _ => True) fun msr =>
    Says.bind (waitForCommand_asked cmd msr 1000) fun _ => hsend

/-! ## Setting up -/

/-- Another port than the controller's. -/
theorem outb_then {port : UInt16} (hport : port ≠ DATA_FIFO ∧ port ≠ DIGITAL_OUTPUT_REGISTER)
    (v : UInt8) {f : Unit → FloppyM α} (hf : Tells output FifoRule (f ()) w) :
    Tells output FifoRule (outb port v >>= f) (.outb port v :: w) :=
  (outb_tells hport.1 hport.2 v).bind fun _ => hf

def dmaSetUp : List Query :=
  [.outb 0x0a 0x06, .outb 0x0c 0xff, .outb 0x04 0x00, .outb 0x04 0x10, .outb 0x0c 0xff,
    .outb 0x05 0xff, .outb 0x05 0x01, .outb 0x81 0x0, .outb 0x0a 0x02]

/-- The channel is masked while its mode is set. -/
def dmaMode (mode : UInt8) : List Query := [.outb 0x0a 0x06, .outb 0x0b mode, .outb 0x0a 0x02]

theorem initialise_floppy_DMA_tells : Tells output FifoRule initialise_floppy_DMA dmaSetUp := by
  refine outb_then (by decide) 0x06 ?_
  refine outb_then (by decide) 0xff ?_
  refine outb_then (by decide) 0x00 ?_
  refine outb_then (by decide) 0x10 ?_
  refine outb_then (by decide) 0xff ?_
  refine outb_then (by decide) 0xff ?_
  refine outb_then (by decide) 0x01 ?_
  refine outb_then (by decide) 0x0 ?_
  exact outb_tells (by decide) (by decide) 0x02

theorem dmaMode_tells (mode : UInt8) :
    Tells output FifoRule (do outb 0x0a 0x06; outb 0x0b mode; outb 0x0a 0x02) (dmaMode mode) := by
  refine outb_then (by decide) 0x06 ?_
  refine outb_then (by decide) mode ?_
  exact outb_tells (by decide) (by decide) 0x02

/-- `floppy_ctrlrs`, without the register with the reset bit. -/
def resetBytes : List Query := .outb 0x20 0x20 :: command SPECIFY [0x80, 0x0a]

theorem floppy_ctrlrs_tells : Tells output FifoRule floppy_ctrlrs resetBytes := by
  refine (inb_tells (by decide)).bind_nil fun dor => ?_
  refine (outb_dor_tells 0x0).bind_nil fun _ => ?_
  refine (nano_sleep_tells 4000).bind_nil fun _ => ?_
  refine (outb_dor_tells dor).bind_nil fun _ => ?_
  refine (wait_for_irq_tells 0x06 3000000000).bind_nil fun _ => ?_
  show Tells output FifoRule _ ([.outb 0x20 0x20] ++ command SPECIFY [0x80, 0x0a])
  refine Tells.bind PIC_sendEOI_tells fun _ => ?_
  exact (FLOPPY_SEND_COMMAND_tells SPECIFY [0x80, 0x0a] []).bind_last fun _ => outb_dor_tells dor

def configuration : List Query :=
  command CONFIGURE [0x0, 0x57, 0x0] ++ (command LOCK [] ++ (resetBytes ++
    (command RECALIBRATE [0x0] ++ command SENSE_INTERRUPT [])))

theorem configure_tells : Tells output FifoRule configure configuration := by
  refine Tells.bind (FLOPPY_SEND_COMMAND_tells CONFIGURE [0x0, 0x57, 0x0] []) fun _ => ?_
  refine Tells.bind (FLOPPY_SEND_COMMAND_tells LOCK [] [0x0]) fun _ => ?_
  refine Tells.bind floppy_ctrlrs_tells fun _ => ?_
  refine Tells.bind (FLOPPY_SEND_COMMAND_tells RECALIBRATE [0x0] []) fun _ => ?_
  exact (FLOPPY_SEND_COMMAND_tells SENSE_INTERRUPT [] [0x0, 0x57]).bind_last fun _ => Tells.pure ()

theorem floppy_init_tells :
    Tells output FifoRule floppy_init (command VERSION [] ++ configuration) := by
  have hmalloc : Tells output FifoRule (ask Query.malloc : FloppyM (Nat → UInt8)) [] :=
    Tells.ask (fun _ _ => trivial) fun _ => rfl
  refine hmalloc.bind_nil fun aa => ?_
  refine (FLOPPY_SEND_COMMAND_tells VERSION [] [aa 0]).bind fun version => ?_
  by_cases hversion : version.headD (aa 0) ≠ 0x90
  · rw [if_pos hversion]
    exact Tells.throw _ configuration
  · rw [if_neg hversion]
    exact configure_tells

/-- What the first call gives out before anything else. -/
def setUp : List Query := dmaSetUp ++ (command VERSION [] ++ configuration)

theorem initialise_does (uninit : Bool) : Does output FifoRule ⟨uninit, false⟩ initialise
    (if uninit then setUp else []) ⟨false, false⟩ := by
  refine Does.get ?_
  cases uninit with
  | false => exact Does.pure () _
  | true =>
      refine (initialise_floppy_DMA_tells.does _).bind fun _ => ?_
      exact (floppy_init_tells.does _).bind_last fun _ => Does.set _ _

/-! ## Sectors -/

/-- A transfer, and the question how it ended. -/
def transferred (cmd : UInt8) (LBA : UInt64) (disk : UInt8) : List Query :=
  command (cmd ||| 0x40) (sectorParameters LBA disk) ++ command SENSE_INTERRUPT []

theorem transfer_tells (cmd : UInt8) (LBA : UInt64) (disk : UInt8) :
    Tells output FifoRule (transfer cmd LBA disk) (transferred cmd LBA disk) := by
  refine (FLOPPY_SEND_COMMAND_tells _ _ _).bind fun results => ?_
  exact (FLOPPY_SEND_COMMAND_tells SENSE_INTERRUPT [] (results.take 2)).bind_last fun _ =>
    Tells.pure ()

theorem takeFloppy_does (LBA : UInt64) (uninit : Bool) :
    Does output FifoRule ⟨uninit, false⟩ (takeFloppy LBA) [] ⟨uninit, true⟩ :=
  Does.get (Does.set _ _)

theorem giveFloppy_does (uninit inUse : Bool) :
    Does output FifoRule ⟨uninit, inUse⟩ giveFloppy [] ⟨uninit, false⟩ :=
  Does.get (Does.set _ _)

theorem floppy_read_does (LBA : UInt64) (len : UInt16) (disk : UInt8) (uninit : Bool) :
    Does output FifoRule ⟨uninit, false⟩ (floppy_read LBA len disk)
      ((if uninit then setUp else []) ++ (dmaMode 0b01010110 ++ transferred READ_DATA LBA disk))
      ⟨false, false⟩ := by
  rw [floppy_read]
  by_cases hlen : len ≠ 512
  · rw [if_pos hlen]
    exact Does.throw _ _ _
  · rw [if_neg hlen]
    have hbuffer : Tells output FifoRule (ask Query.readBuffer : FloppyM Sector) [] :=
      Tells.ask (fun _ _ => trivial) fun _ => rfl
    refine (initialise_does uninit).bind fun _ => (takeFloppy_does LBA false).bind_nil fun _ => ?_
    refine ((dmaMode_tells 0b01010110).does _).bind fun _ => ?_
    refine ((transfer_tells READ_DATA LBA disk).does _).bind_last fun _ => ?_
    refine (hbuffer.does _).bind_nil fun data => ?_
    exact (giveFloppy_does false true).bind_nil fun _ => Does.pure data _

theorem floppy_write_does (LBA : UInt64) (len : UInt16) (data : UInt64) (contents : Sector)
    (disk : UInt8) (uninit : Bool) :
    Does output FifoRule ⟨uninit, false⟩ (floppy_write LBA len data contents disk)
      ((if uninit then setUp else []) ++
        (dmaMode 0b01011010 ++ (.writeBuffer contents :: transferred WRITE_DATA LBA disk)))
      ⟨false, false⟩ := by
  rw [floppy_write]
  by_cases hdata : data &&& 0xFFF ≠ 0
  · rw [if_pos hdata]
    exact Does.throw _ _ _
  rw [if_neg hdata]
  by_cases hlen : len ≠ 512
  · rw [if_pos hlen]
    exact Does.throw _ _ _
  · rw [if_neg hlen]
    have hbuffer : Tells output FifoRule (ask (Query.writeBuffer contents) : FloppyM Unit)
        [.writeBuffer contents] := Tells.ask (fun _ _ => trivial) fun _ => rfl
    refine (initialise_does uninit).bind fun _ => (takeFloppy_does LBA false).bind_nil fun _ => ?_
    refine ((dmaMode_tells 0b01011010).does _).bind fun _ => ?_
    refine Does.bind (hbuffer.does _) fun _ => ?_
    exact ((transfer_tells WRITE_DATA LBA disk).does _).bind_last fun _ => giveFloppy_does false true

/-! ## Runs -/

inductive Call where
  | read (LBA : UInt64) (len : UInt16) (disk : UInt8)
  | write (LBA : UInt64) (len : UInt16) (data : UInt64) (contents : Sector) (disk : UInt8)

namespace Call

def exec : Call → FloppyM Unit
  | read LBA len disk => do
    let _ ← floppy_read LBA len disk
  | write LBA len data contents disk => floppy_write LBA len data contents disk

/-- What a call gives out after the set-up. -/
def bytes : Call → List Query
  | read LBA _ disk => dmaMode 0b01010110 ++ transferred READ_DATA LBA disk
  | write LBA _ _ contents disk =>
    dmaMode 0b01011010 ++ (.writeBuffer contents :: transferred WRITE_DATA LBA disk)

end Call

/-- What is given out in a run of calls; only the first sets the controllers up. -/
def sent : Bool → List Call → List Query
  | _, [] => []
  | uninit, c :: calls => (if uninit then setUp else []) ++ c.bytes ++ sent false calls

theorem exec_does (c : Call) (uninit : Bool) : Does output FifoRule ⟨uninit, false⟩ c.exec
    ((if uninit then setUp else []) ++ c.bytes) ⟨false, false⟩ := by
  cases c with
  | read LBA len disk =>
      exact (floppy_read_does LBA len disk uninit).bind_last fun _ => Does.pure () _
  | write LBA len data contents disk => exact floppy_write_does LBA len data contents disk uninit

/-- Every call leaves the driver ready for the next one. -/
theorem calls_do (calls : List Call) (uninit : Bool) : ∃ v, Does output FifoRule ⟨uninit, false⟩
    (calls.forM Call.exec) (sent uninit calls) v := by
  induction calls generalizing uninit with
  | nil => exact ⟨_, Does.pure () _⟩
  | cons c calls ih =>
      obtain ⟨v, hcalls⟩ := ih false
      exact ⟨v, (exec_does c uninit).bind fun _ => hcalls⟩

/-- Nothing has been asked yet. -/
def boot (partner : List Event → (q : Query) → q.Answer) : Bus := ⟨partner, [], ⟨true, false⟩⟩

/-- The controller gets every byte of the calls in their order, and none that it has not asked for,
and is asked for none that it does not offer. -/
theorem fifo_handshake (partner : List Event → (q : Query) → q.Answer) (calls : List Call) :
    Ends (calls.forM Call.exec) (boot partner)
      (fun _ s => Each FifoRule s.past ∧ s.past.filterMap output = sent true calls)
      fun _ s => Each FifoRule s.past ∧ s.past.filterMap output <+: sent true calls := by
  obtain ⟨v, hcalls⟩ := calls_do calls true
  refine (hcalls (boot partner) rfl).mono (fun _ s h => ?_) fun _ s h => ?_
  · obtain ⟨htold, -⟩ := h
    exact ⟨htold.each each_nil, htold.given⟩
  · obtain ⟨w, hw, htold⟩ := h
    exact ⟨htold.each each_nil, htold.given ▸ hw⟩

end UnnamedOS.Devices.Floppy
