import Mathlib.Data.List.Induction
import UnnamedOS.Lib.Run
import UnnamedOS.Proc.Sched
import UnnamedOS.Proc.SwitchRefines

/-!
# Tasks go on where they were

Runs of the one processor: tasks work, call `switch_to_task` and make tasks with `ckprocA`, and timed
waits run out. A task that is switched to finds what it has left, however many others have run in
between, but for what the timer has put on its stack.
-/

namespace UnnamedOS.Proc

open UnnamedOS.Lib UnnamedOS.Lib.X86

structure Multi where
  layout : Layout
  tasks : Set Tid
  kernel : Kernel
  sp : Tid → UInt64
  /-- The next instruction of the task that runs. -/
  rip : UInt64
  cpu : Cpu

/-- The context that `ckprocA` puts on a new stack, with what else is on the page. -/
def Context.ofPage (m : ℕ → UInt8) (M2 startingRIP arguments : UInt64) : Context where
  rbp := read64 m (M2.toNat + 0xFD8)
  rdi := arguments
  rsi := read64 m (M2.toNat + 0xFE8)
  rbx := read64 m (M2.toNat + 0xFF0)
  rip := startingRIP
  rsp := M2 + 0x1000
  stack := m

/-- With the function `f` in place of a return address. -/
def Context.timedOut (x : Context) (f : UInt64) : Context :=
  { x with stack := write64 x.stack (x.rsp.toNat + 8) f }

inductive MultiEvent where
  /-- The running task does anything else, in the kernel or outside, and is interrupted. -/
  | work
  /-- `PIT_IRQ_handler` finds that the wait of `u` has taken too long. -/
  | timedOut (u : Tid) (f : UInt64)
  | switched (c t : Tid) (x : Context)
  | created (M : Tid) (x : Context)

/-- The context in which an event leaves the task `u`. -/
def MultiEvent.after (u : Tid) (x : Option Context) : MultiEvent → Option Context
  | work => x
  | timedOut v f => if v = u then x.map fun y => y.timedOut f else x
  | switched c _ y => if c = u then some y else x
  | created M y => if M = u then some y else x

/-- That of its last call of `switch_to_task`, or that from `ckprocA`, with what the timer has done to
it since. -/
def contextAfter (es : List MultiEvent) (u : Tid) : Option Context :=
  es.foldl (MultiEvent.after u) none

namespace Multi

/-- The task that runs is one of the tasks, and so is the one at the end of the list. -/
structure Runs (s : Multi) (c : Tid) : Prop where
  sound : s.layout.Sound s.tasks
  shows : Shows s.layout s.tasks s.kernel s.sp s.cpu.mem
  current : s.kernel.currentTaskTCB = some c
  mem : c ∈ s.tasks
  last : ∀ l, s.kernel.lastThread = some l → l ∈ s.tasks

/-- What the running task `c` leaves alone: the stacks of the other tasks in `T` and the pointers to
them. -/
structure Keeps (s s' : Multi) (c : Tid) (T : Set Tid) : Prop where
  globals : s'.layout.globals = s.layout.globals
  stack : ∀ u ∈ T, s'.layout.stack u = s.layout.stack u
  sp : ∀ u ∈ T, u ≠ c → s'.sp u = s.sp u
  bytes : ∀ u ∈ T, u ≠ c → ∀ n, s.layout.stack u ≤ n → n < s.layout.stack u + 0x1000 →
    s'.cpu.mem n = s.cpu.mem n

/-- Some tasks may have been freed. -/
structure Works (s s' : Multi) (c : Tid) : Prop where
  runs : s'.Runs c
  tasks : s'.tasks ⊆ s.tasks
  keeps : s.Keeps s' c s'.tasks

/-- The store of `PIT_IRQ_handler` to the stack of the task `u`. -/
def timeOut (s : Multi) (u : Tid) (f : UInt64) : Multi :=
  { s with cpu := { s.cpu with mem := write64 s.cpu.mem ((s.sp u).toNat + 48) f } }

/-- The task waits, and is in the calls of `wait_for_irq` and of what that calls. -/
structure TimesOut (s s' : Multi) (c u : Tid) (f : UInt64) : Prop where
  task : u ∈ s.tasks
  waits : u ≠ c
  room : (s.sp u).toNat + 56 ≤ s.layout.stack u + 0x1000
  ends : s' = s.timeOut u f

structure Switches (s s' : Multi) (c t : Tid) (x : Context) : Prop where
  task : t ∈ s.tasks
  room : s.layout.stack c + 32 ≤ s.cpu.rsp.toNat ∧
    s.cpu.rsp.toNat + 8 ≤ s.layout.stack c + 0x1000
  argument : s.cpu.reg .rdi = .ofNat t
  context : x = .ofCall s.cpu
  kernel : s.kernel.switchToTask t = .ok s'.kernel
  run : Relation.ReflTransGen (Step (switchCode s.layout.globals) fun _ _ _ => False)
    (.inside 0, s.cpu) (.outside s'.rip, s'.cpu)
  sp : s'.sp = Function.update s.sp c (s.cpu.rsp - 32)
  layout : s'.layout = s.layout
  tasks : s'.tasks = s.tasks

/-- `M` is the block and `M2` and `cr3` are the pages that `ckprocA` gets. -/
structure Creates (s s' : Multi) (c M : Tid) (M2 cr3 startingRIP arguments : UInt64) : Prop where
  fresh : M ∉ s.tasks
  kernel : s.kernel.ckprocA M M2 cr3 = .ok s'.kernel
  runs : s'.Runs c
  tasks : s'.tasks = insert M s.tasks
  keeps : s.Keeps s' c s.tasks
  stack : s'.layout.stack M = M2.toNat
  sp : s'.sp M = M2 + 0x1000 - 40
  rip : read64 s'.cpu.mem (M2.toNat + 0xFF8) = startingRIP
  arguments : read64 s'.cpu.mem (M2.toNat + 0xFE0) = arguments

end Multi

inductive MultiStep : Multi → MultiEvent → Multi → Prop
  | work {s s' : Multi} {c : Tid} : s.kernel.currentTaskTCB = some c → s.Works s' c →
      MultiStep s .work s'
  | timedOut {s s' : Multi} {c u : Tid} {f : UInt64} : s.kernel.currentTaskTCB = some c →
      s.TimesOut s' c u f → MultiStep s (.timedOut u f) s'
  | switched {s s' : Multi} {c t : Tid} {x : Context} : s.kernel.currentTaskTCB = some c →
      s.Switches s' c t x → MultiStep s (.switched c t x) s'
  | created {s s' : Multi} {c M : Tid} {M2 cr3 startingRIP arguments : UInt64} :
      s.kernel.currentTaskTCB = some c → s.Creates s' c M M2 cr3 startingRIP arguments →
      MultiStep s (.created M (.ofPage s'.cpu.mem M2 startingRIP arguments)) s'

variable {s s' s'' : Multi} {c t u M : Tid} {x y : Context}
  {M2 cr3 startingRIP arguments f : UInt64}
  {e : MultiEvent} {es : List MultiEvent}

/-- Every task that waits has the context in which the events have left it. -/
structure Multi.Holds (s : Multi) (es : List MultiEvent) (c : Tid) : Prop where
  runs : s.Runs c
  suspended : ∀ u ∈ s.tasks, u ≠ c →
    ∃ x, contextAfter es u = some x ∧ Suspended s.layout u (s.sp u) s.cpu.mem x

theorem contextAfter_concat (es : List MultiEvent) (e : MultiEvent) (u : Tid) :
    contextAfter (es ++ [e]) u = e.after u (contextAfter es u) := by
  rw [contextAfter, List.foldl_append]
  rfl

theorem not_step_outside {code : List (Instr Empty)} {callee : Empty → Cpu → Cpu → Prop} {rip : UInt64}
    {a : Cpu} {r : Place × Cpu} : ¬ Step code callee (.outside rip, a) r := nofun

theorem switchToTask_lists {k k' : Kernel} (hc : k.currentTaskTCB = some c)
    (h : k.switchToTask t = .ok k') :
    k'.currentTaskTCB = some t ∧ ∀ l, k'.lastThread = some l → k.lastThread = some l ∨ l = c := by
  obtain ⟨word, slot, ⟨-, rfl⟩ | ⟨-, l, -, rfl⟩⟩ := Kernel.switchToTask_ok hc h
  · exact ⟨rfl, fun l hl => .inl hl⟩
  · exact ⟨rfl, fun l hl => .inr (Option.some.inj hl).symm⟩

/-- The stack of a task that waits is left alone. -/
theorem Suspended.keeps {T : Set Tid} (h : Suspended s.layout u (s.sp u) s.cpu.mem x)
    (hk : s.Keeps s' c T) (hu : u ∈ T) (huc : u ≠ c) :
    Suspended s'.layout u (s'.sp u) s'.cpu.mem x := by
  have hstack := hk.stack u hu
  rw [hk.sp u hu huc]
  have hmem := h.congr (hk.bytes u hu huc)
  refine ⟨hmem.frame, hmem.rsp, ?_, ?_, ?_⟩
  · rw [hstack]
    exact hmem.low
  · rw [hstack]
    exact hmem.high
  · rw [Context.Stack, hstack]
    exact hmem.stack

/-- The place that is written is above what `switch_to_task` has pushed. -/
theorem Suspended.timedOut {p : UInt64} {m : ℕ → UInt8} {L : Layout} (h : Suspended L u p m x) :
    Suspended L u p (write64 m (p.toNat + 48) f) (x.timedOut f) := by
  have hrsp := h.rsp
  have hplace : x.rsp.toNat + 8 = p.toNat + 48 := by omega
  refine ⟨h.frame.congr fun n hn hlt => ?_, h.rsp, h.low, h.high, fun n hn hlt => ?_⟩
  · have hlen : x.frame.length = 5 := rfl
    exact write64_apart (by omega)
  · change _ = write64 x.stack (x.rsp.toNat + 8) f n
    rw [hplace]
    exact write64_congr (h.stack n hn hlt)

namespace Multi

theorem Holds.work (h : s.Holds es c) (hw : s.Works s' c) : s'.Holds (es ++ [.work]) c := by
  refine ⟨hw.runs, fun u hu huc => ?_⟩
  obtain ⟨x, hx, hsus⟩ := h.suspended u (hw.tasks hu) huc
  rw [contextAfter_concat]
  exact ⟨x, hx, hsus.keeps hw.keeps hu huc⟩

theorem Holds.timeOut (h : s.Holds es c) (ht : s.TimesOut s' c u f) :
    s'.Holds (es ++ [.timedOut u f]) c := by
  have hroom := ht.room
  have hsound := h.runs.sound
  obtain ⟨y, hy, hsus⟩ := h.suspended u ht.task ht.waits
  have hlow := hsus.low
  rw [ht.ends]
  have hwrite : ∀ n, n < s.layout.stack u ∨ s.layout.stack u + 0x1000 ≤ n →
      write64 s.cpu.mem ((s.sp u).toNat + 48) f n = s.cpu.mem n :=
    fun n hn => write64_apart (by omega)
  refine ⟨⟨hsound, h.runs.shows.stack hsound ht.task hwrite, h.runs.current, h.runs.mem,
    h.runs.last⟩, fun v hv hvc => ?_⟩
  rw [contextAfter_concat, MultiEvent.after]
  by_cases huv : u = v
  · subst huv
    rw [if_pos rfl, hy]
    exact ⟨_, rfl, hsus.timedOut⟩
  · rw [if_neg huv]
    obtain ⟨x, hx, hother⟩ := h.suspended v hv hvc
    have hapart := hsound.apart (.stack v) (.stack u) hv ht.task fun heq =>
      huv (Area.stack.inj heq).symm
    simp only [Layout.base, Area.size] at hapart
    exact ⟨x, hx, hother.congr fun n hn hlt => hwrite n (by omega)⟩

/-- The new task starts with its arguments at the place that it has been given. -/
theorem Creates.suspended (h : s.Creates s' c M M2 cr3 startingRIP arguments) :
    Suspended s'.layout M (s'.sp M) s'.cpu.mem (.ofPage s'.cpu.mem M2 startingRIP arguments) := by
  have hM : M ∈ s'.tasks := h.tasks ▸ Set.mem_insert M s.tasks
  have hfits : s'.layout.stack M + 0x1000 < 2 ^ 64 := h.runs.sound.fits (.stack M) hM
  rw [h.stack] at hfits
  have htop : (M2 + 0x1000).toNat = M2.toNat + 0x1000 := by
    rw [UInt64.toNat_add]
    exact Nat.mod_eq_of_lt hfits
  have hsp : (s'.sp M).toNat = M2.toNat + 0xFD8 := by
    have hle : (40 : UInt64) ≤ M2 + 0x1000 := by
      rw [UInt64.le_iff_toNat_le, htop]
      change 40 ≤ _
      omega
    rw [h.sp, UInt64.toNat_sub_of_le _ _ hle, htop]
    rfl
  constructor
  case frame =>
    rw [hsp]
    exact ⟨rfl, h.arguments, rfl, rfl, h.rip, trivial⟩
  case rsp =>
    rw [hsp]
    exact htop
  case low =>
    rw [hsp, h.stack]
    exact Nat.le_add_right ..
  case high => rw [hsp, h.stack]
  case stack => exact fun n _ _ => rfl

theorem Holds.create (h : s.Holds es c) (hc : s.Creates s' c M M2 cr3 startingRIP arguments) :
    s'.Holds (es ++ [.created M (.ofPage s'.cpu.mem M2 startingRIP arguments)]) c := by
  refine ⟨hc.runs, fun u hu huc => ?_⟩
  rw [hc.tasks] at hu
  rw [contextAfter_concat, MultiEvent.after]
  by_cases huM : u = M
  · subst huM
    exact ⟨_, if_pos rfl, hc.suspended⟩
  · have hold := Set.mem_of_mem_insert_of_ne hu huM
    obtain ⟨x, hx, hsus⟩ := h.suspended u hold huc
    exact ⟨x, (if_neg fun heq => huM heq.symm).trans hx, hsus.keeps hc.keeps hold huc⟩

/-- The switch, from the contexts in which the events have left the tasks. -/
theorem Holds.leads {k' : Kernel} (h : s.Holds es c) (ht : t ∈ s.tasks)
    (hroom : s.layout.stack c + 32 ≤ s.cpu.rsp.toNat ∧
      s.cpu.rsp.toNat + 8 ≤ s.layout.stack c + 0x1000)
    (hrdi : s.cpu.reg .rdi = .ofNat t) (hk : s.kernel.switchToTask t = .ok k') :
    ∃ ctx : Tid → Context, (∀ u ∈ s.tasks, u ≠ c → contextAfter es u = some (ctx u)) ∧
      Leads (Step (switchCode s.layout.globals) fun _ _ _ => False)
        (fun r => Shows s.layout s.tasks k' (Function.update s.sp c (s.cpu.rsp - 32)) r.2.mem ∧
          (∀ u ∈ s.tasks, Suspended s.layout u (Function.update s.sp c (s.cpu.rsp - 32) u) r.2.mem
            (Function.update ctx c (.ofCall s.cpu) u)) ∧
          Restored s.layout t (Function.update ctx c (.ofCall s.cpu) t) r)
        (.inside 0, s.cpu) := by
  have hex : ∀ u, ∃ y, u ∈ s.tasks → u ≠ c →
      contextAfter es u = some y ∧ Suspended s.layout u (s.sp u) s.cpu.mem y := by
    intro u
    by_cases hu : u ∈ s.tasks ∧ u ≠ c
    · obtain ⟨y, hy⟩ := h.suspended u hu.1 hu.2
      exact ⟨y, fun _ _ => hy⟩
    · exact ⟨.ofCall s.cpu, fun hmem hne => absurd ⟨hmem, hne⟩ hu⟩
  choose ctx hctx using hex
  have hleads := leads_switch_to_task (fun _ _ _ => False) ctx h.runs.sound
    h.runs.shows h.runs.current h.runs.mem ht h.runs.last
    (fun u hu huc => (hctx u hu huc).2) hrdi hroom.1 hroom.2 hk
  exact ⟨ctx, fun u hu huc => (hctx u hu huc).1, hleads.mono fun _ hr => ⟨hr.1, hr.2.1, hr.2.2.1⟩⟩

/-- The task that is switched to goes on where the events have left it. -/
theorem Holds.switch (h : s.Holds es c) (hs : s.Switches s' c t x) :
    s'.Holds (es ++ [.switched c t x]) t ∧
      ∃ y, contextAfter (es ++ [.switched c t x]) t = some y ∧
        Restored s'.layout t y (.outside s'.rip, s'.cpu) := by
  obtain ⟨ctx, hctx, hleads⟩ := h.leads hs.task hs.room hs.argument hs.kernel
  have hend := hleads.at_end (fun r hr t => by
    obtain ⟨place, a⟩ := r
    obtain rfl : place = _ := hr.2.2.rip
    exact not_step_outside) hs.run fun _ => not_step_outside
  obtain ⟨hshows, hsuspended, hrestored⟩ := hend
  have hleft : ∀ u ∈ s.tasks, contextAfter (es ++ [.switched c t x]) u =
      some (Function.update ctx c (.ofCall s.cpu) u) := by
    intro u hu
    rw [contextAfter_concat, MultiEvent.after]
    by_cases huc : u = c
    · subst huc
      rw [if_pos rfl, Function.update_self, hs.context]
    · rw [if_neg fun heq => huc heq.symm, Function.update_of_ne huc]
      exact hctx u hu huc
  have hlists := switchToTask_lists h.runs.current hs.kernel
  constructor
  · constructor
    · constructor
      case sound =>
        rw [hs.layout, hs.tasks]
        exact h.runs.sound
      case shows =>
        rw [hs.layout, hs.tasks, hs.sp]
        exact hshows
      case current => exact hlists.1
      case mem =>
        rw [hs.tasks]
        exact hs.task
      case last =>
        intro l hl
        rw [hs.tasks]
        rcases hlists.2 l hl with hold | rfl
        · exact h.runs.last l hold
        · exact h.runs.mem
    · intro u hu _
      rw [hs.tasks] at hu
      rw [hs.layout, hs.sp]
      exact ⟨_, hleft u hu, hsuspended u hu⟩
  · rw [hs.layout]
    exact ⟨_, hleft t hs.task, hrestored⟩

/-- A switch that the scheduler allows gets to its end. -/
theorem Holds.exists_switch {k' : Kernel} (h : s.Holds es c) (ht : t ∈ s.tasks)
    (hroom : s.layout.stack c + 32 ≤ s.cpu.rsp.toNat ∧
      s.cpu.rsp.toNat + 8 ≤ s.layout.stack c + 0x1000)
    (hrdi : s.cpu.reg .rdi = .ofNat t) (hk : s.kernel.switchToTask t = .ok k') :
    ∃ s' : Multi, s.Switches s' c t (.ofCall s.cpu) ∧ s'.kernel = k' := by
  obtain ⟨ctx, -, hleads⟩ := h.leads ht hroom hrdi hk
  obtain ⟨⟨place, a⟩, hrun, hr⟩ := hleads.exists_run
  obtain rfl : place = _ := hr.2.2.rip
  exact ⟨⟨s.layout, s.tasks, k', _, _, a⟩,
    ⟨ht, hroom, hrdi, rfl, hk, hrun, rfl, rfl, rfl⟩, rfl⟩

theorem Holds.step (h : s.Holds es c) (hs : MultiStep s e s') : ∃ c', s'.Holds (es ++ [e]) c' := by
  cases hs with
  | work hc hw =>
      obtain rfl := Option.some.inj (h.runs.current.symm.trans hc)
      exact ⟨c, h.work hw⟩
  | timedOut hc ht =>
      obtain rfl := Option.some.inj (h.runs.current.symm.trans hc)
      exact ⟨c, h.timeOut ht⟩
  | switched hc hsw =>
      obtain rfl := Option.some.inj (h.runs.current.symm.trans hc)
      exact ⟨_, (h.switch hsw).1⟩
  | created hc hcr =>
      obtain rfl := Option.some.inj (h.runs.current.symm.trans hc)
      exact ⟨c, h.create hcr⟩

theorem Holds.run (h : s.Holds [] c) (hrun : Run MultiStep s es s') : ∃ c', s'.Holds es c' := by
  induction es using List.reverseRecOn generalizing s' with
  | nil =>
      cases hrun
      exact ⟨c, h⟩
  | append_singleton es e ih =>
      obtain ⟨s1, hrun1, hstep⟩ := run_concat.mp hrun
      obtain ⟨c1, h1⟩ := ih hrun1
      exact h1.step hstep

end Multi

/-- In every run from the only task on, a task that is switched to goes on in the context that it was
in when it called `switch_to_task` last, or that `ckprocA` has made, with the functions on its stack
that the timer has put there since. -/
theorem contexts_kept (h0 : s.Runs c) (honly : s.tasks = {c})
    (hrun : Run MultiStep s (es ++ [.switched u t x]) s') :
    ∃ y, contextAfter (es ++ [.switched u t x]) t = some y ∧
      Restored s'.layout t y (.outside s'.rip, s'.cpu) := by
  obtain ⟨s1, hrun1, hstep⟩ := run_concat.mp hrun
  have hstart : s.Holds [] c := by
    refine ⟨h0, fun v hv hne => ?_⟩
    rw [honly] at hv
    exact absurd hv hne
  obtain ⟨c1, h1⟩ := hstart.run hrun1
  cases hstep with
  | switched hc hs =>
      obtain rfl := Option.some.inj (h1.runs.current.symm.trans hc)
      exact (h1.switch hs).2

theorem boot_shows : Shows Layout.pair {0x1000} bootKernel (fun _ => 0) (bytesOf bootBytes) := by
  constructor
  · intro x hx
    cases x with
    | current | last | slot => decide
    | rsp t | next t | state t | cr3 t | word t =>
        obtain rfl : t = 0x1000 := hx
        decide
  · intro t ht
    obtain rfl : t = 0x1000 := ht
    rfl

def Multi.boot : Multi := ⟨.pair, {0x1000}, bootKernel, fun _ => 0, 0, pairCpu (bytesOf bootBytes)⟩

def Multi.pair : Multi :=
  ⟨.pair, {0x2000, 0x1000}, pairKernel, pairPointers, 0, pairCpu (bytesOf pairBytes)⟩

theorem boot_runs : Multi.boot.Runs 0x1000 where
  sound := pair_sound.mono (Set.subset_insert ..)
  shows := boot_shows
  current := rfl
  mem := rfl
  last := nofun

theorem pair_runs : Multi.pair.Runs 0x1000 where
  sound := pair_sound
  shows := pair_shows
  current := rfl
  mem := .inr rfl
  last := by
    intro l hl
    exact .inl (Option.some.inj hl).symm

theorem boot_creates : Multi.boot.Creates Multi.pair 0x1000 0x2000 0x4000 0x6000 0x1234 7 where
  fresh := fun h => absurd (Set.mem_singleton_iff.mp h) (by decide)
  kernel := rfl
  runs := pair_runs
  tasks := rfl
  keeps := ⟨rfl, fun _ _ => rfl, fun u hu hne => absurd hu hne, fun u hu hne => absurd hu hne⟩
  stack := rfl
  sp := rfl
  rip := by decide
  arguments := by decide

/-- The task that runs is about to call `switch_to_task` with its stack at `rsp`. -/
def Multi.calling (s : Multi) (t : Tid) (rsp : UInt64) : Multi :=
  { s with cpu := (s.cpu.set .rdi (.ofNat t)).set .rsp rsp }

theorem Multi.Runs.calling (h : s.Runs c) (t : Tid) (rsp : UInt64) : s.Works (s.calling t rsp) c where
  runs := ⟨h.sound, h.shows, h.current, h.mem, h.last⟩
  tasks := subset_rfl
  keeps := ⟨rfl, fun _ _ => rfl, fun _ _ _ => rfl, fun _ _ _ _ _ _ => rfl⟩

theorem pair_kernels : ∃ k k', pairKernel.switchToTask 0x2000 = .ok k ∧
    k.switchToTask 0x1000 = .ok k' := ⟨_, _, rfl, rfl⟩

/-- The boot task makes another one and switches to it, the timer finds that the boot task has waited
too long, and the other task switches back. -/
theorem contexts_kept_pair : ∃ es s' x y, Run MultiStep Multi.boot
      (es ++ [.work, .timedOut 0x1000 0x7000] ++ [.switched 0x2000 0x1000 x]) s' ∧
    contextAfter es 0x1000 = some y ∧
      Restored s'.layout 0x1000 (y.timedOut 0x7000) (.outside s'.rip, s'.cpu) := by
  obtain ⟨k, k', hk, hk'⟩ := pair_kernels
  have hboot : Multi.boot.Holds [] 0x1000 :=
    ⟨boot_runs, fun v hv hne => absurd hv hne⟩
  have hcreated := hboot.create boot_creates
  obtain ⟨s1, hs1, rfl⟩ := hcreated.exists_switch (.inl rfl) (by decide) rfl hk
  have h1 := (hcreated.switch hs1).1
  have hwork := h1.runs.calling 0x1000 0x4F00
  have h2 := h1.work hwork
  have hmem : 0x1000 ∈ s1.tasks := by
    rw [hs1.tasks]
    exact .inr rfl
  have hstack : s1.layout.stack = Layout.pair.stack := congrArg Layout.stack hs1.layout
  have hsp : (s1.sp 0x1000).toNat = 0x3EE0 := by
    rw [hs1.sp, Function.update_self]
    decide
  have htimes : (s1.calling 0x1000 0x4F00).TimesOut
      ((s1.calling 0x1000 0x4F00).timeOut 0x1000 0x7000) 0x2000 0x1000 0x7000 := by
    refine ⟨hmem, by decide, ?_, rfl⟩
    change (s1.sp 0x1000).toNat + 56 ≤ s1.layout.stack 0x1000 + 0x1000
    rw [hsp, hstack]
    decide
  have h3 := h2.timeOut htimes
  have hroom : s1.layout.stack 0x2000 + 32 ≤ (0x4F00 : UInt64).toNat ∧
      (0x4F00 : UInt64).toNat + 8 ≤ s1.layout.stack 0x2000 + 0x1000 := by
    rw [hstack]
    decide
  obtain ⟨s4, hs4, -⟩ := h3.exists_switch hmem hroom rfl hk'
  have hrun : Run MultiStep Multi.boot ([_, _, _, _] ++ [.switched 0x2000 0x1000 _]) s4 :=
    .cons (.created rfl boot_creates) (.cons (.switched rfl hs1)
      (.cons (.work h1.runs.current hwork) (.cons (.timedOut h2.runs.current htimes)
        (.cons (.switched h3.runs.current hs4) (.nil s4)))))
  obtain ⟨y, hy, hrestored⟩ := contexts_kept boot_runs rfl hrun
  refine ⟨[_, _], s4, _, .ofCall Multi.pair.cpu, hrun, rfl, ?_⟩
  obtain rfl := Option.some.inj hy
  exact hrestored

end UnnamedOS.Proc
