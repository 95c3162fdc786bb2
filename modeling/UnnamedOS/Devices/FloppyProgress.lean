import UnnamedOS.Devices.FloppyHandshake

/-!
# The floppy driver gets through

None of the loops of `chs.c` runs out of its rounds when the controller is ready whenever it is asked
and every interrupt comes: a call that passes the checks of its arguments ends with an error only
after an answer that is not so.
-/

namespace UnnamedOS.Devices.Floppy

open UnnamedOS.Lib

variable {α β : Type} {v v' : Vars} {x : FloppyM α} {f : α → FloppyM β} {w : List Query} {s : Bus}
  {p : Prop} {P : α → Prop} {Q : β → Prop} {uninit : Bool}

/-- The status is that of a controller that is ready and has no results, an interrupt comes, and the
byte that stands for the version is the version. -/
def Willing (e : Event) : Prop :=
  match e with
  | ⟨.inb port, msr⟩ => port = MAIN_STATUS_REGISTER → msr = 0x80
  | ⟨.wait_for_irq _ _, arrived⟩ => arrived = true
  | ⟨.malloc, aa⟩ => aa 0 = 0x90
  | ⟨.outb _ _, _⟩ | ⟨.nano_sleep _, _⟩ | ⟨.readBuffer, _⟩ | ⟨.writeBuffer _, _⟩ => True

theorem status_through (p : Prop) : Through Willing p (inb MAIN_STATUS_REGISTER) (· = 0x80) :=
  Through.ask fun _ h => h rfl

theorem inb_through (p : Prop) (port : UInt16) : Through Willing p (inb port) fun _ => True :=
  Through.ask fun _ _ => trivial

theorem outb_through (p : Prop) (port : UInt16) (b : UInt8) :
    Through Willing p (outb port b) fun _ => True :=
  Through.ask fun _ _ => trivial

theorem nano_sleep_through (p : Prop) (ns : Nat) :
    Through Willing p (nano_sleep ns) fun _ => True :=
  Through.ask fun _ _ => trivial

theorem wait_for_irq_through (p : Prop) (line : UInt8) (ttn : Nat) :
    Through Willing p (wait_for_irq line ttn) fun _ => True := by
  have hask : Through Willing p (ask (Query.wait_for_irq line ttn) : FloppyM Bool) (· = true) :=
    Through.ask fun _ h => h
  refine hask.bind fun arrived => ?_
  cases arrived with
  | true => exact Through.pure fun _ => trivial
  | false => exact Through.throw fun h => Bool.false_ne_true h.2

/-- Without a bad answer the first round is the last. -/
theorem waitWhile_through {mask bits : UInt8} (hbits : 0x80 &&& mask = bits) {pause : FloppyM Unit}
    (hpause : ∀ p, Through Willing p pause fun _ => True) (halt : FloppyHalt) {timeout : Nat}
    (htimeout : p → timeout ≠ 0) :
    Through Willing p (waitWhile mask bits pause halt timeout) fun _ => True := by
  induction timeout generalizing p with
  | zero => exact Through.throw fun hp => htimeout hp rfl
  | succ timeout ih =>
      refine (status_through p).bind fun msr => ?_
      by_cases hmsr : msr &&& mask ≠ bits
      · rw [if_pos hmsr]
        have hbad : ¬ (p ∧ msr = 0x80) := fun h => hmsr (h.2 ▸ hbits)
        refine (hpause _).bind fun _ => ?_
        by_cases hlast : timeout = 0
        · rw [if_pos hlast]
          exact Through.throw fun h => hbad h.1
        · rw [if_neg hlast]
          exact ih fun h => absurd h.1 hbad
      · rw [if_neg hmsr]
        exact Through.pure fun _ => trivial

theorem waitForCommand_through (cmd msr : UInt8) {timeout : Nat} (hmsr : p → msr = 0x80)
    (htimeout : p → timeout ≠ 0) :
    Through Willing p (waitForCommand cmd msr timeout) fun _ => True := by
  induction timeout generalizing p msr with
  | zero => exact Through.throw fun hp => htimeout hp rfl
  | succ timeout ih =>
      rw [waitForCommand]
      by_cases hbits : msr &&& 0xc0 ≠ 0x80
      · rw [if_pos hbits]
        have hbad : ¬ p := fun hp => hbits (by rw [hmsr hp]; decide)
        refine (status_through p).bind fun msr' => (nano_sleep_through _ _).bind fun _ => ?_
        by_cases hlast : timeout = 0
        · rw [if_pos hlast]
          exact Through.throw fun h => hbad h.1.1
        · rw [if_neg hlast]
          exact ih msr' (fun h => absurd h.1.1 hbad) fun h => absurd h.1.1 hbad
      · rw [if_neg hbits]
        exact Through.pure fun _ => trivial

theorem pure_through (p : Prop) : Through Willing p (pure () : FloppyM Unit) fun _ => True :=
  Through.pure fun _ => trivial

theorem sendParameters_through (p : Prop) (cmd : UInt8) (params : List UInt8) :
    Through Willing p (sendParameters cmd params) fun _ => True := by
  induction params generalizing p with
  | nil => exact pure_through p
  | cons param params ih =>
      have hwait : Through Willing p (waitWhile 0xc0 0x80 (pure ()) (.ERR_FSC cmd) 1000)
          fun _ => True := waitWhile_through (by decide) pure_through _ fun _ => by decide
      exact hwait.bind fun _ => (outb_through _ DATA_FIFO param).bind fun _ => ih _

/-- Where a result is taken, a bad answer has offered it. -/
theorem takeResults_through (p : Prop) (cmd : UInt8) (timeout : Nat) (out : List UInt8) :
    Through Willing p (takeResults cmd timeout out) (· = out) := by
  induction out generalizing p timeout with
  | nil =>
      rw [takeResults]
      refine (status_through p).bind fun msr => ?_
      split
      · exact Through.pure fun _ => rfl
      · exact Through.pure fun _ => rfl
  | cons b out ih =>
      rw [takeResults]
      refine (status_through p).bind fun msr => ?_
      by_cases hmsr : msr &&& 0x50 = 0x50
      · rw [if_pos hmsr]
        have hbad : ¬ (p ∧ msr = 0x80) := fun h => absurd hmsr (by rw [h.2]; decide)
        refine (inb_through _ DATA_FIFO).bind fun v => ?_
        have hwait : Through Willing ((p ∧ msr = 0x80) ∧ True)
            (waitWhile 0x80 0x80 (pure ()) (.ERR_FSC3 cmd) timeout) fun _ => True :=
          waitWhile_through (by decide) pure_through _ fun h => absurd h.1 hbad
        refine hwait.bind fun timeout' => (ih _ timeout').bind fun _ => ?_
        exact Through.pure fun h => absurd h.1.1.1 hbad
      · rw [if_neg hmsr]
        exact Through.pure fun _ => rfl

theorem awaitTransfer_through (p : Prop) (cmd : UInt8) :
    Through Willing p (awaitTransfer cmd) fun _ => True := by
  have hwait : ∀ ttn, Through Willing p (do wait_for_irq 0x06 ttn; PIC_sendEOI 0x06)
      fun _ => True := fun ttn => (wait_for_irq_through p 0x06 ttn).bind fun _ =>
    outb_through _ 0x20 0x20
  rw [awaitTransfer]
  split
  · exact hwait 0
  · split
    · exact hwait 3000000000
    · exact pure_through p

theorem resultPhase_through (p : Prop) (cmd : UInt8) (out : List UInt8) :
    Through Willing p (resultPhase cmd out) (· = out) := by
  have hwait : ∀ (ns : Nat) (halt : FloppyHalt) (timeout : Nat), timeout ≠ 0 →
      Through Willing p (waitWhile 0x80 0x80 (nano_sleep ns) halt timeout) fun _ => True :=
    fun ns halt timeout htimeout =>
      waitWhile_through (by decide) (fun p => nano_sleep_through p ns) halt fun _ => htimeout
  rw [resultPhase]
  by_cases hout : out = []
  · rw [if_pos hout, hout]
    exact (hwait _ _ _ (by decide)).bind fun _ => Through.pure fun _ => rfl
  · rw [if_neg hout]
    exact (hwait _ _ _ (by decide)).bind fun timeout => takeResults_through _ cmd timeout out

theorem FLOPPY_SEND_COMMAND_through (p : Prop) (cmd : UInt8) (params out : List UInt8) :
    Through Willing p (FLOPPY_SEND_COMMAND cmd params out) (· = out) := by
  refine (status_through p).bind fun msr => ?_
  refine (waitForCommand_through cmd msr (fun h => h.2) fun _ => by decide).bind fun _ => ?_
  refine (outb_through _ DATA_FIFO cmd).bind fun _ => ?_
  refine (sendParameters_through _ cmd params).bind fun _ => ?_
  exact (awaitTransfer_through _ cmd).bind fun _ => resultPhase_through _ cmd out

theorem floppy_ctrlrs_through (p : Prop) : Through Willing p floppy_ctrlrs fun _ => True := by
  refine (inb_through p _).bind fun dor => ?_
  refine (outb_through _ _ _).bind fun _ => ?_
  refine (nano_sleep_through _ _).bind fun _ => ?_
  refine (outb_through _ _ _).bind fun _ => ?_
  refine (wait_for_irq_through _ _ _).bind fun _ => ?_
  refine (outb_through _ 0x20 0x20).bind fun _ => ?_
  exact (FLOPPY_SEND_COMMAND_through _ _ _ _).bind fun _ => outb_through _ _ _

theorem configure_through (p : Prop) : Through Willing p configure fun _ => True := by
  refine (FLOPPY_SEND_COMMAND_through p _ _ _).bind fun _ => ?_
  refine (FLOPPY_SEND_COMMAND_through _ _ _ _).bind fun _ => ?_
  refine (floppy_ctrlrs_through _).bind fun _ => ?_
  refine (FLOPPY_SEND_COMMAND_through _ _ _ _).bind fun _ => ?_
  exact (FLOPPY_SEND_COMMAND_through _ _ _ _).bind fun _ => pure_through _

theorem floppy_init_through (p : Prop) : Through Willing p floppy_init fun _ => True := by
  have hmalloc : Through Willing p (ask Query.malloc : FloppyM (Nat → UInt8)) (· 0 = 0x90) :=
    Through.ask fun _ h => h
  refine hmalloc.bind fun aa => ?_
  refine (FLOPPY_SEND_COMMAND_through _ VERSION [] [aa 0]).bind fun version => ?_
  by_cases hversion : version.headD (aa 0) ≠ 0x90
  · rw [if_pos hversion]
    exact Through.throw fun h => hversion (by rw [h.2]; exact h.1.2)
  · rw [if_neg hversion]
    exact configure_through _

theorem initialise_floppy_DMA_through (p : Prop) :
    Through Willing p initialise_floppy_DMA fun _ => True := by
  refine (outb_through p _ _).bind fun _ => ?_
  refine (outb_through _ _ _).bind fun _ => ?_
  refine (outb_through _ _ _).bind fun _ => ?_
  refine (outb_through _ _ _).bind fun _ => ?_
  refine (outb_through _ _ _).bind fun _ => ?_
  refine (outb_through _ _ _).bind fun _ => ?_
  refine (outb_through _ _ _).bind fun _ => ?_
  refine (outb_through _ _ _).bind fun _ => ?_
  exact outb_through _ _ _

theorem dmaMode_through (p : Prop) (mode : UInt8) :
    Through Willing p (do outb 0x0a 0x06; outb 0x0b mode; outb 0x0a 0x02) fun _ => True :=
  (outb_through p _ _).bind fun _ => (outb_through _ _ _).bind fun _ => outb_through _ _ _

theorem transfer_through (p : Prop) (cmd : UInt8) (LBA : UInt64) (disk : UInt8) :
    Through Willing p (transfer cmd LBA disk) fun _ => True := by
  refine (FLOPPY_SEND_COMMAND_through p _ _ _).bind fun _ => ?_
  exact (FLOPPY_SEND_COMMAND_through _ _ _ _).bind fun _ => pure_through _

theorem initialise_through (p : Prop) : Through Willing p initialise fun _ => True := by
  refine Through.get fun v => ?_
  split
  · refine (initialise_floppy_DMA_through p).bind fun _ => ?_
    exact (floppy_init_through _).bind fun _ => Through.set _
  · exact pure_through p

theorem giveFloppy_through (p : Prop) : Through Willing p giveFloppy fun _ => True :=
  Through.get fun _ => Through.set _

/-! ## Calls -/

/-- A step of a call, with what it leaves in the variables. -/
theorem step_fares (hx : Does output FifoRule v x w v') (ht : Through Willing p x P)
    (hs : s.vars = v)
    (hf : ∀ a s', s'.vars = v' → Fares Willing (p ∧ P a) (f a) s' Q) :
    Fares Willing p (x >>= f) s Q :=
  (ht s).bind fun a s' hrun => hf a s' ((ends_iff.mp (hx s hs)).1 a s' hrun).2

theorem takeFloppy_fares (p : Prop) (LBA : UInt64) (hs : s.vars = ⟨uninit, false⟩) :
    Fares Willing p (takeFloppy LBA) s fun _ => True := by
  refine Fares.get ?_
  rw [hs]
  exact Through.set _ s

theorem floppy_read_fares (p : Prop) (LBA : UInt64) (disk : UInt8) (hs : s.vars = ⟨uninit, false⟩) :
    Fares Willing p (floppy_read LBA 512 disk) s fun _ => True := by
  have hbuffer : ∀ p, Through Willing p (ask Query.readBuffer : FloppyM Sector) fun _ => True :=
    fun _ => Through.ask fun _ _ => trivial
  rw [floppy_read, if_neg (by decide)]
  refine step_fares (initialise_does uninit) (initialise_through p) hs fun _ s₁ hs₁ => ?_
  refine (takeFloppy_fares _ LBA hs₁).bind fun _ s₂ _ => ?_
  refine (dmaMode_through _ 0b01010110).bind (fun _ => ?_) s₂
  refine (transfer_through _ READ_DATA LBA disk).bind fun _ => (hbuffer _).bind fun data => ?_
  exact (giveFloppy_through _).bind fun _ => Through.pure fun _ => trivial

theorem floppy_write_fares (p : Prop) (LBA : UInt64) {data : UInt64} (hdata : data &&& 0xFFF = 0)
    (contents : Sector) (disk : UInt8) (hs : s.vars = ⟨uninit, false⟩) :
    Fares Willing p (floppy_write LBA 512 data contents disk) s fun _ => True := by
  have hbuffer : ∀ p, Through Willing p (ask (Query.writeBuffer contents) : FloppyM Unit)
      fun _ => True := fun _ => Through.ask fun _ _ => trivial
  rw [floppy_write, if_neg (not_not.mpr hdata), if_neg (by decide)]
  refine step_fares (initialise_does uninit) (initialise_through p) hs fun _ s₁ hs₁ => ?_
  refine (takeFloppy_fares _ LBA hs₁).bind fun _ s₂ _ => ?_
  refine (dmaMode_through _ 0b01011010).bind (fun _ => ?_) s₂
  refine (hbuffer _).bind fun _ => (transfer_through _ WRITE_DATA LBA disk).bind fun _ => ?_
  exact giveFloppy_through _

end UnnamedOS.Devices.Floppy
