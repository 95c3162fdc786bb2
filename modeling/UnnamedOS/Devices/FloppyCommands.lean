import UnnamedOS.Lib.Dialogue

/-!
# The floppy driver

`chs.c` asks the controller for its status, sends it commands and takes their results, byte by byte
through one port. The controller, the DMA controller and the interrupts are the surroundings: they
may answer anything.
-/

namespace UnnamedOS.Devices.Floppy

open UnnamedOS.Lib

abbrev Sector := Fin 512 → UInt8

inductive Query where
  | inb (port : UInt16)
  | outb (port : UInt16) (v : UInt8)
  | nano_sleep (ns : Nat)
  | wait_for_irq (line : UInt8) (ttn : Nat)
  /-- The block whose first byte is read though it may not have been written. -/
  | malloc
  /-- The 512 bytes at `CBASE+0x1000` are read, or written. -/
  | readBuffer
  | writeBuffer (data : Sector)

abbrev Query.Answer : Query → Type
  | inb _ => UInt8
  | wait_for_irq _ _ => Bool
  | malloc => Nat → UInt8
  | readBuffer => Sector
  | outb _ _ | nano_sleep _ | writeBuffer _ => Unit

inductive FloppyHalt where
  | ERR_FSCUNIMP (cmd : UInt8)
  | ERR_FSC (cmd : UInt8)
  | ERR_FSC2 (cmd : UInt8)
  | ERR_FSC3 (cmd : UInt8)
  | ERR_FSC4 (cmd : UInt8)
  | ERR_WFIRQ (line : UInt8)
  | ERR_FVNS
  | ERR_FRLX (len : UInt16)
  | ERR_FDC_INUSE (LBA : UInt64)
  | ERR_FWDL (data : UInt64)
  /-- An interrupt that is waited for without a timeout does not come. -/
  | waiting (line : UInt8)
  deriving DecidableEq

structure Vars where
  fDMA_uninit : Bool
  floppy_in_use : Bool
  deriving DecidableEq

abbrev Bus := Dialogue Query.Answer Vars

abbrev FloppyM := EStateM FloppyHalt Bus

def inb (port : UInt16) : FloppyM UInt8 := ask (Query.inb port)

def outb (port : UInt16) (v : UInt8) : FloppyM Unit := ask (Query.outb port v)

def nano_sleep (ns : Nat) : FloppyM Unit := ask (Query.nano_sleep ns)

/-- With `wffi_err` for the case that the time is over. -/
def wait_for_irq (line : UInt8) (ttn : Nat) : FloppyM Unit := do
  let arrived ← ask (Query.wait_for_irq line ttn)
  if arrived then pure () else throw (if ttn = 0 then .waiting line else .ERR_WFIRQ line)

def PIC_sendEOI (irq : UInt8) : FloppyM Unit := do
  if 8 ≤ irq then outb 0xa0 0x20
  outb 0x20 0x20

def DIGITAL_OUTPUT_REGISTER : UInt16 := 0x3f2

def MAIN_STATUS_REGISTER : UInt16 := 0x3f4

def DATA_FIFO : UInt16 := 0x3f5

def SPECIFY : UInt8 := 3

def WRITE_DATA : UInt8 := 5

def READ_DATA : UInt8 := 6

def RECALIBRATE : UInt8 := 7

def SENSE_INTERRUPT : UInt8 := 8

def VERSION : UInt8 := 16

def CONFIGURE : UInt8 := 19

def LOCK : UInt8 := 20

/-! ## The DMA controller -/

def initialise_floppy_DMA : FloppyM Unit := do
  outb 0x0a 0x06
  outb 0x0c 0xff
  outb 0x04 0x00
  outb 0x04 0x10
  outb 0x0c 0xff
  outb 0x05 0xff
  outb 0x05 0x01
  outb 0x81 0x0
  outb 0x0a 0x02

def prepare_for_floppy_DMA_write : FloppyM Unit := do
  outb 0x0a 0x06
  outb 0x0b 0b01011010
  outb 0x0a 0x02

def prepare_for_floppy_DMA_read : FloppyM Unit := do
  outb 0x0a 0x06
  outb 0x0b 0b01010110
  outb 0x0a 0x02

/-! ## Commands -/

/-- A loop that waits while the status has not the bits it should have, and the rounds that are left. -/
def waitWhile (mask bits : UInt8) (pause : FloppyM Unit) (halt : FloppyHalt) : Nat → FloppyM Nat
  | 0 => throw halt
  | timeout + 1 => do
    let msr ← inb MAIN_STATUS_REGISTER
    if msr &&& mask ≠ bits then
      pause
      if timeout = 0 then throw halt else waitWhile mask bits pause halt timeout
    else pure (timeout + 1)

/-- The first loop of `FLOPPY_SEND_COMMAND`, which looks at its count after it has read. -/
def waitForCommand (cmd msr : UInt8) : Nat → FloppyM Unit
  | 0 => throw (.ERR_FSCUNIMP cmd)
  | timeout + 1 =>
    if msr &&& 0xc0 ≠ 0x80 then do
      let msr ← inb MAIN_STATUS_REGISTER
      nano_sleep 10000000
      if timeout = 0 then throw (.ERR_FSCUNIMP cmd) else waitForCommand cmd msr timeout
    else pure ()

def sendParameters (cmd : UInt8) : List UInt8 → FloppyM Unit
  | [] => pure ()
  | param :: params => do
    let _ ← waitWhile 0xc0 0x80 (pure ()) (.ERR_FSC cmd) 1000
    outb DATA_FIFO param
    sendParameters cmd params

/-- What is in the result bytes before, and what the controller gives for the first of them. -/
def takeResults (cmd : UInt8) : Nat → List UInt8 → FloppyM (List UInt8)
  | timeout, out => do
    let msr ← inb MAIN_STATUS_REGISTER
    if msr &&& 0x50 = 0x50 then
      match out with
      | [] => pure []
      | _ :: out => do
        let v ← inb DATA_FIFO
        let timeout ← waitWhile 0x80 0x80 (pure ()) (.ERR_FSC3 cmd) timeout
        let out ← takeResults cmd timeout out
        pure (v :: out)
    else pure out

/-- The interrupt behind a transfer, or a recalibration. -/
def awaitTransfer (cmd : UInt8) : FloppyM Unit :=
  if cmd &&& ~~~0x40 = READ_DATA ∨ cmd &&& ~~~0x40 = WRITE_DATA then do
    wait_for_irq 0x06 0
    PIC_sendEOI 0x06
  else if cmd = RECALIBRATE then do
    wait_for_irq 0x06 3000000000
    PIC_sendEOI 0x06
  else pure ()

/-- `out` is empty for a command without results. -/
def resultPhase (cmd : UInt8) (out : List UInt8) : FloppyM (List UInt8) :=
  if out = [] then do
    let _ ← waitWhile 0x80 0x80 (nano_sleep 10000000) (.ERR_FSC4 cmd) 1000
    pure []
  else do
    let timeout ← waitWhile 0x80 0x80 (nano_sleep 1000000000) (.ERR_FSC2 cmd) 10000
    takeResults cmd timeout out

def FLOPPY_SEND_COMMAND (cmd : UInt8) (params out : List UInt8) : FloppyM (List UInt8) := do
  let msr ← inb MAIN_STATUS_REGISTER
  waitForCommand cmd msr 1000
  outb DATA_FIFO cmd
  sendParameters cmd params
  awaitTransfer cmd
  resultPhase cmd out

def floppy_ctrlrs : FloppyM Unit := do
  let dor ← inb DIGITAL_OUTPUT_REGISTER
  outb DIGITAL_OUTPUT_REGISTER 0x0
  nano_sleep 4000
  outb DIGITAL_OUTPUT_REGISTER dor
  wait_for_irq 0x06 3000000000
  PIC_sendEOI 0x06
  let _ ← FLOPPY_SEND_COMMAND SPECIFY [(8 : UInt8) <<< 4 ||| 0, (5 : UInt8) <<< 1] []
  outb DIGITAL_OUTPUT_REGISTER dor

/-- The rest of `floppy_init`, once the controller's version is known. -/
def configure : FloppyM Unit := do
  let options := (1 : UInt8) <<< 6 ||| (1 : UInt8) <<< 4 ||| 7
  let _ ← FLOPPY_SEND_COMMAND CONFIGURE [0x0, options, 0x0] []
  let _ ← FLOPPY_SEND_COMMAND LOCK [] [0x0]
  floppy_ctrlrs
  let _ ← FLOPPY_SEND_COMMAND RECALIBRATE [0x0] []
  let _ ← FLOPPY_SEND_COMMAND SENSE_INTERRUPT [] [0x0, options]

def floppy_init : FloppyM Unit := do
  let aa ← ask Query.malloc
  let version ← FLOPPY_SEND_COMMAND VERSION [] [aa 0]
  if version.headD (aa 0) ≠ 0x90 then throw .ERR_FVNS else configure

/-! ## Sectors -/

/-- The cylinder, the head and the sector. -/
def lba_2_chs (lba : UInt32) : UInt8 × UInt8 × UInt8 :=
  ((lba / 36).toUInt8, (lba % 36 / 18).toUInt8, (lba % 18 + 1).toUInt8)

/-- The eight bytes that go with a command for a sector. -/
def sectorParameters (LBA : UInt64) (disk : UInt8) : List UInt8 :=
  let (cyl, head, sector) := lba_2_chs LBA.toUInt32
  [head <<< 2 ||| disk, cyl, head, sector, 2, 36, 0x1b, 0xff]

/-- The first call sets the controllers up. -/
def initialise : FloppyM Unit := do
  let vars ← getVars
  if vars.fDMA_uninit then do
    initialise_floppy_DMA
    floppy_init
    setVars ⟨false, false⟩
  else pure ()

def takeFloppy (LBA : UInt64) : FloppyM Unit := do
  let vars ← getVars
  if vars.floppy_in_use then throw (.ERR_FDC_INUSE LBA)
  else setVars { vars with floppy_in_use := true }

def giveFloppy : FloppyM Unit := do
  let vars ← getVars
  setVars { vars with floppy_in_use := false }

/-- The command with its parameters, of which seven are overwritten by results. -/
def transfer (cmd : UInt8) (LBA : UInt64) (disk : UInt8) : FloppyM Unit := do
  let aa := sectorParameters LBA disk
  let results ← FLOPPY_SEND_COMMAND (cmd ||| 0x40) aa (aa.take 7)
  let _ ← FLOPPY_SEND_COMMAND SENSE_INTERRUPT [] (results.take 2)

def floppy_read (LBA : UInt64) (len : UInt16) (disk : UInt8) : FloppyM Sector :=
  if len ≠ 512 then throw (.ERR_FRLX len)
  else do
    initialise
    takeFloppy LBA
    prepare_for_floppy_DMA_read
    transfer READ_DATA LBA disk
    let data ← ask Query.readBuffer
    giveFloppy
    return data

/-- `contents` are the 512 bytes at `data`. -/
def floppy_write (LBA : UInt64) (len : UInt16) (data : UInt64) (contents : Sector) (disk : UInt8) :
    FloppyM Unit :=
  if data &&& 0xFFF ≠ 0 then throw (.ERR_FWDL data)
  else if len ≠ 512 then throw (.ERR_FRLX len)
  else do
    initialise
    takeFloppy LBA
    prepare_for_floppy_DMA_write
    ask (Query.writeBuffer contents)
    transfer WRITE_DATA LBA disk
    giveFloppy

end UnnamedOS.Devices.Floppy
