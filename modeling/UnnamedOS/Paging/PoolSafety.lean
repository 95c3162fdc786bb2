import UnnamedOS.Paging.Pool

/-!
# Kernel pages handed out and freed

Runs of `KPALLOC` and `P_FREE` from `P_ALLOC3_SETUP`, over the tables that the boot loader has made.
-/

namespace UnnamedOS.Paging

open UnnamedOS.Lib

def MBASE : UInt64 := CBASE + 0x20000

/-- `P_ALLOC3_SETUP`. The `memfill` of the page behind the pool changes nothing modelled. -/
def P_ALLOC3_SETUP : PageM Unit := do
  frameSetup KPALLOC
  modify fun s => { s with pool := Function.update s.pool 501 (MBASE + 0x19000) }
  modify fun s => { s with pool := Function.update s.pool 502 (MBASE + 0x1A000) }
  modify fun s => { s with pool := Function.update s.pool 503 (MBASE + 0x1E000) }
  modify fun s => { s with pool := Function.update s.pool 500 (MBASE + 0x1F000) }
  let k ← KPALLOC
  modify fun s => { s with pool := Function.update s.pool 511 k }
  modify fun s => { s with pml4 := Function.update s.pml4 0 none }

/-- The tables of `_PMMain`, at `PML4T_A`: the first 2 MiB of the kernel half are mapped to the
first 512 frames. -/
structure Booted (s : Pager) : Prop where
  pml4 : s.pml4 1 = some ⟨0x31, 0x3⟩
  pdpt : s.pdpt 1 0 = some ⟨0x32, 0x3⟩
  beyond : s.pdpt 1 1 = none
  pde : ∀ k < 512, s.pde 1 0 k = if k = 0 then some ⟨0x33, 0x3⟩ else none
  pt : ∀ n < 512, s.pt (kernelPage n) = some ⟨n, 0x3⟩

/-- A page of the kernel half. -/
structure Page.Kernel (p : Page) : Prop where
  inTables : p.InTables
  half : 1 ≤ p.pml4

/-- All kernel pages are within the first GiB of the kernel half. -/
def InFirstGiB (s : Pager) : Prop := ∀ p : Page, p.Kernel → s.mapped p ≠ none → p.pml4 = 1 ∧ p.pdpt = 0

/-- The pool behind its lowest slot, which `KPALLOC` empties first. -/
def Pager.rest (s : Pager) : Nat → UInt64 :=
  match (List.range 512).find? fun i => s.pool i ≠ 0 with
  | none => s.pool
  | some AN => Function.update s.pool AN 0

/-- A slot holds the page. -/
def Pooled (pool : Nat → UInt64) (p : Page) : Prop := ∃ i < 512, pool i ≠ 0 ∧ pageOf (pool i) = p

/-- The pages that the nested calls of one call of `KPALLOC` have taken for tables and for the bitmap:
they have been in the pool or are newly mapped, and are not in the pool. -/
structure NestedTake (s s' : Pager) (p : Page) : Prop where
  kernel : p.Kernel
  source : Pooled s.rest p ∨ s.mapped p = none
  mapped : s'.mapped p ≠ none
  notPooled : ¬ Pooled s'.pool p

structure PoolState where
  pager : Pager
  /-- The pages handed out and not freed. -/
  out : Set UInt64
  /-- The pages of the boot loader that are not in the pool, among them the first tables and the first
  page of the bitmap, and those that nested calls have taken. -/
  kept : Set Page

inductive PoolOp where
  | alloc
  | free (v : UInt64)

def PoolOp.step (s : PoolState) (op : PoolOp) (s' : PoolState) : Prop :=
  match op with
  | .alloc => ∃ k, KPALLOC s.pager = .ok k s'.pager ∧ InFirstGiB s'.pager ∧
      s'.out = insert k s.out ∧ s'.kept = s.kept ∪ {p | NestedTake s.pager s'.pager p}
  | .free v => v ∈ s.out ∧ P_FREE v s.pager = .ok ⟨⟩ s'.pager ∧ s'.out = s.out \ {v} ∧
      s'.kept = s.kept

/-- After `P_ALLOC3_SETUP`. -/
def PoolState.start (p : Pager) : PoolState where
  pager := p
  out := ∅
  kept := {q | ∃ n < 512, q = kernelPage n ∧ ¬ Pooled p.pool q}

/-- The bytes of the frames. -/
abbrev Contents := Nat → Nat → UInt8

/-- `movb $0x0, (%rdi)` -/
def Pager.clearByte (s : Pager) (rdi : UInt64) (m : Contents) : Option Contents :=
  (s.mapped (pageOf rdi)).map fun e =>
    Function.update m e.frame (Function.update (m e.frame) (rdi &&& 0xFFF).toNat 0)

/-- The loop of `memfill`. -/
def Pager.mfl (s : Pager) : Nat → UInt64 → Contents → Option Contents
  | 0, _, m => some m
  | n + 1, rdi, m => (s.clearByte rdi m).bind (s.mfl n (rdi + 1))

/-- What is promised of a page `k` that `KPALLOC` returns. -/
structure Fresh (s : PoolState) (k : UInt64) (s' : Pager) : Prop where
  notOut : k ∉ s.out
  notPooled : ¬ Pooled s'.pool (pageOf k)
  notKept : pageOf k ∉ s.kept ∧ ¬ NestedTake s.pager s' (pageOf k)
  frame : ∃ e, s'.mapped (pageOf k) = some e ∧ ¬ TableFrame s' e.frame ∧
    (∀ p : Page, p.Kernel → p ≠ pageOf k → ∀ e', s'.mapped p = some e' → e'.frame ≠ e.frame) ∧
    ∀ m, ∃ m', s'.mfl 0x1000 k m = some m' ∧ ∀ o < 0x1000, m' e.frame o = 0

variable {s s' t : Pager} {T out : Nat → Prop} {n a f : Nat}

/-! ## The loop of memfill -/

theorem pageOf_add {i : Nat} (hn : n < gib) (hi : i < 4096) :
    pageOf (kernelAddress n + .ofNat i) = kernelPage n ∧
      ((kernelAddress n + .ofNat i) &&& 0xFFF).toNat = i := by
  have haddr := toNat_kernelAddress hn
  unfold gib at hn
  have hnat : (kernelAddress n + .ofNat i).toNat = 549755813888 + 4096 * n + i := by
    have hi' : (UInt64.ofNat i).toNat = i :=
      UInt64.toNat_ofNat_of_lt' (hi.trans (by decide))
    have hlt : 549755813888 + 4096 * n + i < 18446744073709551616 := by omega
    rw [UInt64.toNat_add, haddr, hi']
    exact Nat.mod_eq_of_lt hlt
  constructor
  · have hpml4 : (549755813888 + 4096 * n + i) / 549755813888 % 512 = 1 := by omega
    have hpdpt : (549755813888 + 4096 * n + i) / 1073741824 % 512 = 0 := by omega
    have hpde : (549755813888 + 4096 * n + i) / 2097152 % 512 = n / 512 := by omega
    have hpt : (549755813888 + 4096 * n + i) / 4096 % 512 = n % 512 := by omega
    rw [pageOf_eq, hnat, kernelPage, hpml4, hpdpt, hpde, hpt]
  · rw [and_offset, UInt64.toNat_mod, hnat]
    change _ % 4096 = i
    omega

theorem mfl_spec {e : Entry} (hn : n < gib) (he : s.mapped (kernelPage n) = some e) (todo : Nat)
    {i : Nat} (hi : i + todo = 4096) {m : Contents} (hm : ∀ o < i, m e.frame o = 0) :
    ∃ m', s.mfl todo (kernelAddress n + .ofNat i) m = some m' ∧ ∀ o < 4096, m' e.frame o = 0 := by
  induction todo generalizing i m with
  | zero =>
      obtain rfl : i = 4096 := hi
      exact ⟨m, rfl, hm⟩
  | succ todo ih =>
      obtain ⟨hpage, hoff⟩ := pageOf_add (i := i) hn (by omega)
      have hnext : kernelAddress n + .ofNat i + 1 = kernelAddress n + .ofNat (i + 1) := by
        rw [UInt64.add_assoc, UInt64.ofNat_add]
        rfl
      rw [Pager.mfl, Pager.clearByte, hpage, he, Option.map_some, Option.bind_some, hoff, hnext]
      refine ih (by omega) fun o ho => ?_
      rw [Function.update_self]
      by_cases hoi : o = i
      · rw [hoi, Function.update_self]
      · rw [Function.update_of_ne hoi]
        exact hm o (by omega)

/-! ## Between two calls -/

/-- The slots that are refilled are full from 32 on, and no page of the boot loader is handed out. -/
structure PoolInv (s : Pager) (T out : Nat → Prop) : Prop where
  core : PoolCore s T out
  full : ∀ j, 32 ≤ j → j < 64 → s.pool j ≠ 0
  calling : s.paCalling = false
  high : ∀ n, out n → 512 ≤ n

/-- `KPALLOC` takes the page `n` out of the pool. -/
structure HandsOut (s s' : Pager) (T out : Nat → Prop) (n : Nat) : Prop where
  page : n < gib
  slot : ∃ a < 512, (List.range 512).find? (fun i => s.pool i ≠ 0) = some a ∧
    s.pool a = kernelAddress n
  inv : ∃ T', PoolInv s' T' fun m => m = n ∨ out m
  grows : Grows s s'

theorem grows_pop (s : Pager) (a : Nat) : Grows s (s.pop a) := by
  refine ⟨fun n _ e he => he, fun i _ hne => .inl ?_, fun hcall => hcall⟩
  have hia : i ≠ a := by
    rintro rfl
    exact hne (Function.update_self ..)
  exact Function.update_of_ne hia ..

/-- What has become of the lower slots: one of the first 32 has been emptied, or the slots have been
refilled, and nested calls have emptied no more than three of them. -/
def Drawn (s s' : Pager) : Prop :=
  (∃ a < 32, s' = s.pop a) ∨ ∀ j, 3 ≤ j → j < 64 → s'.pool j ≠ 0

/-- A page leaves one of the lower slots. -/
theorem PoolInv.pop (h : PoolInv s T out) (ha : a < 32) (hn : n < gib)
    (hpool : s.pool a = kernelAddress n) : PoolInv (s.pop a) T fun m => m = n ∨ out m := by
  have h512 : 512 ≤ n := h.core.added a (by omega) n hn hpool
  refine ⟨h.core.pop (by omega) hn hpool, fun j hj hj' => ?_, h.calling, ?_⟩
  · change Function.update s.pool a 0 j ≠ 0
    rw [Function.update_of_ne (by omega)]
    exact h.full j hj hj'
  · rintro m (rfl | hm)
    · exact h512
    · exact h.high m hm

/-- The pages from slot 33 on are enough for the nested calls of a refill, which takes a page for the
bitmap and at most `d` for page tables. -/
theorem PoolInv.kpalloc_draws {d : Nat} (h : PoolInv s T out) (hd2 : d ≤ 2)
    (hroom : (∀ i < 32, s.pool i = 0) → d < 2 → RoomyPages s 64 ∨ d = 1 ∧ MoreTables s) :
    Ends KPALLOC s
      (fun k s' => (∃ n, k = kernelAddress n ∧ HandsOut s s' T out n ∧ Drawn s s') ∨
        2 ≤ d ∧ Left s')
      fun _ s' => 2 ≤ d ∧ Left s' := by
  have hsome : ((List.range 512).find? fun i => s.pool i ≠ 0).isSome := by
    rw [List.find?_isSome]
    exact ⟨32, List.mem_range.mpr (by decide), by simpa using h.full 32 (by decide) (by decide)⟩
  obtain ⟨a, hfind⟩ := Option.isSome_iff_exists.mp hsome
  obtain ⟨ha, hne, hbelow⟩ := pop_bound hfind
  have ha32 : a ≤ 32 := by
    by_contra hgt
    exact h.full 32 (by decide) (by decide) (hbelow 32 (Nat.lt_of_not_le hgt))
  obtain ⟨n, hn, hpool, -⟩ := h.core.stock a ha hne
  have h512 : 512 ≤ n := h.core.added a (by omega) n hn hpool
  have hbehind : ∀ j, 33 ≤ j → j < 64 → (s.pop a).pool j ≠ 0 := by
    intro j hj hlt
    change Function.update s.pool a 0 j ≠ 0
    rw [Function.update_of_ne (by omega)]
    exact h.full j (by omega) hlt
  have hsupply : 31 ≤ slotsBelow 512 (s.pop a).pool := slotsBelow_of_filled (by decide) hbehind
  have hhigh : ∀ m, m = n ∨ out m → 512 ≤ m := by
    rintro m (rfl | hm)
    · exact h512
    · exact h.high m hm
  refine (h.core.kpalloc (c := 1) (d := d) h.calling hfind hn hpool fun hge =>
    ⟨by omega, fun h0 => absurd h0 (by decide), hroom fun i hi => hbelow i (by omega)⟩).mono ?_
    fun _ _ hleft => hleft
  rintro k s' (⟨rfl, ⟨hlt, rfl⟩ | ⟨-, ⟨T', P, hcore, hP, hdone, hgrows⟩, -⟩⟩ | hleft)
  · exact .inl ⟨n, rfl, ⟨hn, ⟨a, ha, hfind, hpool⟩, ⟨T, h.pop hlt hn hpool⟩, grows_pop s a⟩,
      .inl ⟨a, hlt, rfl⟩⟩
  · exact .inl ⟨n, rfl, ⟨hn, ⟨a, ha, hfind, hpool⟩, ⟨T', hcore, fun j hj hj' =>
      hdone.filled j (by omega) hj', hgrows.calling h.calling, hhigh⟩,
      (grows_pop s a).trans hgrows⟩, .inr fun j hj hj' => hdone.filled j (by omega) hj'⟩
  · exact .inr hleft

theorem PoolInv.kpalloc (h : PoolInv s T out) :
    Ends KPALLOC s
      (fun k s' => (∃ n, k = kernelAddress n ∧ HandsOut s s' T out n) ∨ Left s')
      fun _ s' => Left s' := by
  refine (h.kpalloc_draws (d := 2) (Nat.le_refl 2) fun _ h2 => absurd h2 (by decide)).mono ?_
    fun _ _ hleft => hleft.2
  rintro k s' (⟨n, hk, hn, -⟩ | ⟨-, hleft⟩)
  · exact .inl ⟨n, hk, hn⟩
  · exact .inr hleft

/-- The page is unmapped and its frame free. -/
def Pager.freed (s : Pager) (n f : Nat) : Pager := setPt (kernelPage n) none (s.withFrame f false)

theorem freed_other (s : Pager) {m : Nat} (hm : m ≠ n) :
    (s.freed n f).mapped (kernelPage m) = s.mapped (kernelPage m) :=
  mapped_setPt_of_ne fun h => hm (kernelPage_inj h)

theorem freed_self {N : Nat} (h : KernelTables s N) (hn : n < gib) :
    (s.freed n f).mapped (kernelPage n) = none := by
  have ht : KernelTables (s.freed n f) N := ⟨h.pml4, h.pdpt, h.beyond, h.pos, h.le, h.pde⟩
  rw [mapped_kernelPage ht hn]
  split
  · exact Function.update_self ..
  · rfl

theorem freed_entry {N m : Nat} {e : Entry} (h : KernelTables s N) (hm : m < gib)
    (he : (s.freed n f).mapped (kernelPage m) = some e) :
    m ≠ n ∧ s.mapped (kernelPage m) = some e := by
  by_cases hmn : m = n
  · subst hmn
    rw [freed_self h hm] at he
    cases he
  · rw [freed_other s hmn] at he
    exact ⟨hmn, he⟩

theorem PoolCore.freed {e : Entry} (h : PoolCore s T out) (hn : out n) (h512 : 512 ≤ n)
    (he : s.mapped (kernelPage n) = some e) (hcovers : s.Covers e.frame) :
    PoolCore (s.freed n e.frame) (fun m => m ≠ e.frame ∧ T m) fun m => out m ∧ m ≠ n := by
  obtain ⟨N, hN⟩ := h.tables
  obtain ⟨hgib, -, hpooled⟩ := h.handed n hn
  constructor
  case tables => exact ⟨N, hN.pml4, hN.pdpt, hN.beyond, hN.pos, hN.le, hN.pde⟩
  case frames =>
    have hstore := h.frames.store (v := false) hcovers (h.low n hgib h512 e he)
    refine (hstore.congr fun m => ?_).of_marked hstore.nonempty fun _ => rfl
    by_cases hm : m = e.frame
    · simp [hm]
    · simp [hm]
  case boot =>
    intro m hm
    rw [freed_other s (by omega)]
    exact h.boot m hm
  case held =>
    intro m hm e' he'
    obtain ⟨hmn, hold⟩ := freed_entry hN hm he'
    exact ⟨fun heq => hmn (h.sole m hm n hgib e' e hold he heq), h.held m hm e' hold⟩
  case sole =>
    intro m hm m' hm' e₁ e₂ he₁ he₂ heq
    exact h.sole m hm m' hm' e₁ e₂ (freed_entry hN hm he₁).2 (freed_entry hN hm' he₂).2 heq
  case low =>
    intro m hm hm512 e' he'
    exact h.low m hm hm512 e' (freed_entry hN hm he').2
  case stock =>
    intro i hi hne
    obtain ⟨m, hm, hpool, hmapped⟩ := h.stock i hi hne
    have hmn : m ≠ n := by
      rintro rfl
      exact hpooled i hi hpool
    refine ⟨m, hm, hpool, ?_⟩
    rw [freed_other s hmn]
    exact hmapped
  case distinct => exact h.distinct
  case added => exact h.added
  case handed =>
    rintro m ⟨hm, hmn⟩
    obtain ⟨hm', hmapped, hnot⟩ := h.handed m hm
    refine ⟨hm', ?_, hnot⟩
    rw [freed_other s hmn]
    exact hmapped
  case tableFrames =>
    intro g hg
    obtain ⟨m, hm, e', he', heg, hout, hnot⟩ := h.tableFrames g hg
    have hmn : m ≠ n := by
      rintro rfl
      exact hout hn
    refine ⟨m, hm, e', ?_, heg, fun hm' => hout hm'.1, hnot⟩
    rw [freed_other s hmn]
    exact he'

/-- In the first GiB `P_FREE` finds the frame that it unmaps. -/
theorem PoolInv.p_free_eq (h : PoolInv s T out) (hn : out n) :
    Ends (P_FREE (kernelAddress n)) s
      (fun _ s' => ∃ e, s.mapped (kernelPage n) = some e ∧ e.frame % 64 ≤ 31 ∧
        s.Covers e.frame ∧ s' = s.freed n e.frame)
      fun _ _ => False := by
  obtain ⟨hgib, hmapped, -⟩ := h.core.handed n hn
  obtain ⟨e, he⟩ := Option.ne_none_iff_exists'.mp hmapped
  have hlow := h.core.low n hgib (h.high n hn) e he
  have hcovers := covers_of_marked ((h.core.frames.low e.frame hlow).mpr (h.core.held n hgib e he))
  have hframe : s.v2pFrame (kernelAddress n) = e.frame := by
    rw [Pager.v2pFrame, v2pPage_kernelAddress hgib, he]
  rw [P_FREE, ends_bind, ends_get, hframe, pageOf_kernelAddress hgib]
  refine (plSv_spec hcovers).bind ?_
  rintro _ t rfl
  rw [ends_modify]
  exact ⟨e, he, hlow, hcovers, rfl⟩

theorem PoolInv.p_free (h : PoolInv s T out) (hn : out n) :
    Ends (P_FREE (kernelAddress n)) s
      (fun _ s' => (∃ T', PoolInv s' T' fun m => out m ∧ m ≠ n) ∧ s'.pool = s.pool ∧
        ∀ m, m ≠ n → s'.mapped (kernelPage m) = s.mapped (kernelPage m))
      fun _ _ => False := by
  refine (h.p_free_eq hn).mono ?_ fun _ _ hf => hf
  rintro _ _ ⟨e, he, -, hcovers, rfl⟩
  exact ⟨⟨_, h.core.freed hn (h.high n hn) he hcovers, h.full, h.calling,
    fun m hm => h.high m hm.1⟩, rfl, fun m hm => freed_other s hm⟩

/-! ## The setup -/

/-- The pool that the setup begins with. -/
def setupPool : Nat → UInt64 :=
  Function.update (Function.update (Function.update (Function.update (fun _ => 0)
    501 (MBASE + 0x19000)) 502 (MBASE + 0x1A000)) 503 (MBASE + 0x1E000)) 500 (MBASE + 0x1F000)

/-- Its slots and the pages in them. -/
inductive SetupSlot : Nat → Nat → Prop
  | next : SetupSlot 500 63
  | table : SetupSlot 501 57
  | second : SetupSlot 502 58
  | last : SetupSlot 503 62

theorem SetupSlot.pool {i : Nat} (h : SetupSlot i n) : setupPool i = kernelAddress n := by
  cases h <;> decide

theorem setupSlot_of_ne {i : Nat} (h : setupPool i ≠ 0) : ∃ n, SetupSlot i n := by
  by_cases h0 : i = 500
  · subst h0
    exact ⟨63, .next⟩
  by_cases h1 : i = 501
  · subst h1
    exact ⟨57, .table⟩
  by_cases h2 : i = 502
  · subst h2
    exact ⟨58, .second⟩
  by_cases h3 : i = 503
  · subst h3
    exact ⟨62, .last⟩
  · simp [setupPool, h0, h1, h2, h3] at h

theorem SetupSlot.bounds {i : Nat} (h : SetupSlot i n) :
    500 ≤ i ∧ i < 512 ∧ 52 < n ∧ n < 64 := by
  cases h <;> decide

theorem SetupSlot.unique {i j : Nat} (h : SetupSlot i n) (h' : SetupSlot j n) : i = j := by
  cases h <;> cases h' <;> rfl

/-- The slot that holds a page of the first GiB. -/
theorem setupSlot_of_eq {i : Nat} (hn : n < gib) (h : setupPool i = kernelAddress n) :
    SetupSlot i n := by
  obtain ⟨m, hm⟩ := setupSlot_of_ne (h ▸ kernelAddress_ne_zero hn)
  have hgib : m < gib := by
    have hb := hm.bounds
    unfold gib
    omega
  obtain rfl := kernelAddress_inj hn hgib (h.symm.trans hm.pool)
  exact hm

theorem Booted.tables (h : Booted s) : KernelTables s 1 where
  pml4 := by
    rw [h.pml4]
    exact Option.some_ne_none _
  pdpt := by
    rw [h.pdpt]
    exact Option.some_ne_none _
  beyond := h.beyond
  pos := Nat.one_pos
  le := by decide
  pde := by
    intro k hk
    rw [h.pde k hk]
    by_cases hk0 : k = 0
    · simp [hk0]
    · simp [hk0]

theorem Booted.mapped (h : Booted s) (hn : n < gib) :
    s.mapped (kernelPage n) = if n < 512 then some ⟨n, 0x3⟩ else none := by
  rw [mapped_kernelPage h.tables hn, Nat.mul_one]
  by_cases hlt : n < 512
  · rw [if_pos hlt, if_pos hlt, h.pt n hlt]
  · rw [if_neg hlt, if_neg hlt]

theorem Booted.entry {e : Entry} (h : Booted s) (hn : n < gib)
    (he : s.mapped (kernelPage n) = some e) : n < 512 ∧ e.frame = n := by
  rw [h.mapped hn] at he
  split at he
  · rename_i hlt
    obtain rfl := Option.some.inj he
    exact ⟨hlt, rfl⟩
  · cases he

/-- The frames of the first tables are those of the pages 49 to 51. -/
theorem Booted.tableFrame {g : Nat} (h : Booted s) (hg : TableFrame s g) : 49 ≤ g ∧ g ≤ 51 := by
  rcases hg with ⟨e, he, rfl⟩ | ⟨e, he, rfl⟩ | ⟨k, hk, e, he, rfl⟩
  · rw [h.pml4] at he
    obtain rfl := Option.some.inj he
    exact ⟨by decide, by decide⟩
  · rw [h.pdpt] at he
    obtain rfl := Option.some.inj he
    exact ⟨by decide, by decide⟩
  · rw [h.pde k hk] at he
    split at he
    · obtain rfl := Option.some.inj he
      exact ⟨by decide, by decide⟩
    · cases he

theorem Booted.poolCore (h : Booted s) (hframes : FrameInv s (· < 512))
    (hpool : s.pool = setupPool) : PoolCore s (· < 512) fun _ => False := by
  have hmapped : ∀ m < 512, s.mapped (kernelPage m) = some ⟨m, 0x3⟩ := by
    intro m hm
    rw [h.mapped (hm.trans (by decide)), if_pos hm]
  constructor
  case tables => exact ⟨1, h.tables⟩
  case frames => exact hframes
  case boot =>
    intro m hm
    rw [hmapped m hm]
    exact Option.some_ne_none _
  case held =>
    intro m hm e he
    obtain ⟨hlt, heq⟩ := h.entry hm he
    exact heq ▸ hlt
  case sole =>
    intro m hm m' hm' e e' he he' heq
    rw [← (h.entry hm he).2, heq, (h.entry hm' he').2]
  case low =>
    intro m hm hm512 e he
    exact absurd (h.entry hm he).1 (Nat.not_lt_of_le hm512)
  case stock =>
    intro i _ hne
    rw [hpool] at hne ⊢
    obtain ⟨m, hm⟩ := setupSlot_of_ne hne
    have hb := hm.bounds
    refine ⟨m, hb.2.2.2.trans (by decide), hm.pool, ?_⟩
    rw [hmapped m (by omega)]
    exact Option.some_ne_none _
  case distinct =>
    intro i _ j _ hne heq
    rw [hpool] at hne heq
    obtain ⟨m, hm⟩ := setupSlot_of_ne hne
    have hgib : m < gib := hm.bounds.2.2.2.trans (by decide)
    exact hm.unique (setupSlot_of_eq hgib (heq.symm.trans hm.pool))
  case added =>
    intro i hi m hm heq
    rw [hpool] at heq
    have hb := (setupSlot_of_eq hm heq).bounds
    omega
  case handed => exact fun _ hf => hf.elim
  case tableFrames =>
    intro g hg
    obtain ⟨hge, hle⟩ := h.tableFrame hg
    have hgib : g < gib := by
      unfold gib
      omega
    refine ⟨g, hgib, _, hmapped g (by omega), rfl, id, fun i _ heq => ?_⟩
    rw [hpool] at heq
    have hb := (setupSlot_of_eq hgib heq).bounds
    omega

/-- The end of the setup: the page comes into the last slot, and the tables of the boot loader out
of the user half. -/
def Pager.setUp (s : Pager) (k : UInt64) : Pager :=
  { s with pool := Function.update s.pool 511 k, pml4 := Function.update s.pml4 0 none }

theorem setUp_pool (s : Pager) (k : UInt64) (j : Nat) :
    (s.setUp k).pool j = k ∧ j = 511 ∨ (s.setUp k).pool j = s.pool j ∧ j ≠ 511 := by
  change Function.update s.pool 511 k j = k ∧ j = 511 ∨
    Function.update s.pool 511 k j = s.pool j ∧ j ≠ 511
  by_cases hj : j = 511
  · rw [hj, Function.update_self]
    exact .inl ⟨rfl, rfl⟩
  · rw [Function.update_of_ne hj]
    exact .inr ⟨rfl, hj⟩

theorem PoolCore.setUp (h : PoolCore s T out) (hn : out n) :
    PoolCore (s.setUp (kernelAddress n)) T fun m => out m ∧ m ≠ n := by
  obtain ⟨hgib, hmapped, hpooled⟩ := h.handed n hn
  have hpool := setUp_pool s (kernelAddress n)
  have hnot : ∀ m < gib, m ≠ n → NotPooled s m → NotPooled (s.setUp (kernelAddress n)) m := by
    intro m hm hmn hm' j hj heq
    rcases hpool j with ⟨hnew, -⟩ | ⟨hold, -⟩
    · exact hmn (kernelAddress_inj hm hgib (heq.symm.trans hnew))
    · exact hm' j hj (hold.symm.trans heq)
  constructor
  case tables =>
    obtain ⟨N, hN⟩ := h.tables
    exact ⟨N, hN.pml4, hN.pdpt, hN.beyond, hN.pos, hN.le, hN.pde⟩
  case frames => exact h.frames.of_marked h.frames.nonempty fun _ => rfl
  case boot => exact h.boot
  case held => exact h.held
  case sole => exact h.sole
  case low => exact h.low
  case stock =>
    intro j hj hne
    rcases hpool j with ⟨hnew, -⟩ | ⟨hold, -⟩
    · exact ⟨n, hgib, hnew, hmapped⟩
    · obtain ⟨m, hm, heq, hmap⟩ := h.stock j hj (hold ▸ hne)
      exact ⟨m, hm, hold.trans heq, hmap⟩
  case distinct =>
    intro i hi j hj hne heq
    rcases hpool i with ⟨hi', rfl⟩ | ⟨hi', -⟩
    · rcases hpool j with ⟨-, rfl⟩ | ⟨hj', -⟩
      · rfl
      · exact absurd (hj'.symm.trans (heq.symm.trans hi')) (hpooled j hj)
    · rcases hpool j with ⟨hj', rfl⟩ | ⟨hj', -⟩
      · exact absurd (hi'.symm.trans (heq.trans hj')) (hpooled i hi)
      · exact h.distinct i hi j hj (hi' ▸ hne) (hi'.symm.trans (heq.trans hj'))
  case added =>
    intro j hj m hm heq
    rcases hpool j with ⟨-, rfl⟩ | ⟨hold, -⟩
    · exact absurd hj (by decide)
    · exact h.added j hj m hm (hold.symm.trans heq)
  case handed =>
    rintro m ⟨hm, hmn⟩
    obtain ⟨hm', hmap, hm''⟩ := h.handed m hm
    exact ⟨hm', hmap, hnot m hm' hmn hm''⟩
  case tableFrames =>
    intro g hg
    obtain ⟨m, hm, e, he, heg, hout, hm'⟩ := h.tableFrames g hg
    have hmn : m ≠ n := by
      rintro rfl
      exact hout hn
    exact ⟨m, hm, e, he, heg, fun hm'' => hout hm''.1, hnot m hm hmn hm'⟩

/-- There is room for a refill in the first page of the bitmap. -/
theorem roomyFrames_setup (h : FrameInv s (· < 512)) : RoomyFrames s 64 := by
  have hlen := List.length_pos_iff.mpr h.nonempty
  refine ⟨(Finset.range 64).image fun w => 512 + 64 * w, ?_, fun g hg => ?_⟩
  · rw [Finset.card_image_of_injective _ (fun v w heq => by
      have heq' : 512 + 64 * v = 512 + 64 * w := heq
      omega), Finset.card_range]
  · obtain ⟨w, hw, rfl⟩ := Finset.mem_image.mp hg
    have hw' := Finset.mem_range.mp hw
    refine ⟨?_, by omega, ?_⟩
    · unfold Pager.Covers
      omega
    · cases hmarked : s.marked (512 + 64 * w) with
      | false => rfl
      | true =>
          have hlow := (h.low _ (by omega)).mp hmarked
          exact absurd hlow (by omega)

theorem setupPool_find : (List.range 512).find? (fun i => setupPool i ≠ 0) = some 500 := by
  rw [List.find?_range_eq_some]
  have hne : setupPool 500 ≠ 0 := by
    rw [SetupSlot.next.pool]
    exact kernelAddress_ne_zero (by decide)
  refine ⟨decide_eq_true hne, List.mem_range.mpr (by decide), fun j hj => ?_⟩
  have hzero : setupPool j = 0 := by
    by_contra hj0
    obtain ⟨m, hm⟩ := setupSlot_of_ne hj0
    have hb := hm.bounds
    omega
  simpa using hzero

theorem setupPool_slots : 1 ≤ slotsBelow 512 (Function.update setupPool 500 0) := by
  have hslot : ∀ j, 501 ≤ j → j < 502 → Function.update setupPool 500 0 j ≠ 0 := by
    intro j hj hlt
    obtain rfl : j = 501 := by omega
    rw [Function.update_of_ne (by decide), SetupSlot.table.pool]
    exact kernelAddress_ne_zero (by decide)
  exact slotsBelow_of_filled (by decide) hslot

/-- The setup calls `KPALLOC` with four pages in the pool. The refill takes one for a page table. -/
theorem Booted.setup_kpalloc (h : Booted s) (hframes : FrameInv s (· < 512))
    (hpool : s.pool = setupPool) (hcall : s.paCalling = false) :
    Ends KPALLOC s (fun k s' => k = kernelAddress 63 ∧
      Refilled (s.pop 500) s' (fun m => m = 63 ∨ False) 1 ∧ AddsTables s s' 1 ∧
        PagesLeft s s' 64)
      fun _ _ => False := by
  have hfind : (List.range 512).find? (fun i => s.pool i ≠ 0) = some 500 := by
    rw [hpool]
    exact setupPool_find
  have hsupply : 0 + 1 ≤ slotsBelow 512 (s.pop 500).pool := by
    rw [Pager.pop, hpool]
    exact setupPool_slots
  have hslot : s.pool 500 = kernelAddress 63 := by
    rw [hpool]
    exact SetupSlot.next.pool
  have hmore : MoreTables s := ⟨1, by decide, h.pde 1 (by decide)⟩
  refine ((h.poolCore hframes hpool).kpalloc (c := 0) (d := 1) hcall hfind (by decide) hslot
    fun _ => ⟨hsupply, fun _ => roomyFrames_setup hframes, fun _ => .inr ⟨rfl, hmore⟩⟩).mono ?_
    fun _ _ hleft => absurd hleft.1 (by decide)
  rintro k s' (⟨rfl, ⟨hlt, -⟩ | ⟨-, hdone⟩⟩ | ⟨htwo, -⟩)
  · exact absurd hlt (by decide)
  · exact ⟨rfl, hdone.1, hdone.2.1, hdone.2.2.2⟩
  · exact absurd htwo (by decide)

/-- After the setup: no page is handed out, the refill has left the lower slots full, and there are at
most two page tables, the second with room for most of its pages. -/
structure SetUp (s s' : Pager) : Prop where
  inv : ∃ T, PoolInv s' T fun _ => False
  filled : ∀ j, 3 ≤ j → j < 64 → s'.pool j ≠ 0
  pml4 : s'.pml4 = Function.update s.pml4 0 none
  pdpt : s'.pdpt = s.pdpt
  tables : ∃ N ≤ 2, KernelTables s' N
  room : RoomyPages s' 448

/-- The pages of the refill have not come into the table of the boot loader. -/
theorem Booted.setup_room {t : Pager} (h : Booted s) (hcore : PoolCore t T out)
    (hfilled : t.pool 32 ≠ 0) (hleft : PagesLeft s t 64) : RoomyPages t 448 := by
  refine hleft.resolve_left fun ⟨hpde, _⟩ => ?_
  obtain ⟨n, hn, hpool, hmapped⟩ := hcore.stock 32 (by decide) hfilled
  have h512 := hcore.added 32 (by decide) n hn hpool
  have hlt : n / 512 < 512 := (kernelPage_inTables hn).pde
  obtain ⟨N, hN⟩ := hcore.tables
  rw [mapped_kernelPage hN hn] at hmapped
  have hin : n < 512 * N := by
    by_contra hge
    exact hmapped (if_neg hge)
  have hthere := (hN.pde (n / 512) hlt).mpr (by omega)
  rw [hpde, h.pde _ hlt, if_neg (by omega)] at hthere
  exact hthere rfl

theorem setup_spec (h : Booted s) :
    Ends P_ALLOC3_SETUP s (fun _ s' => SetUp s s') fun _ _ => False := by
  rw [P_ALLOC3_SETUP]
  refine (frameSetup_spec s).bind ?_
  rintro _ t ⟨hframes, chain, rfl⟩
  rw [ends_bind, ends_modify, ends_bind, ends_modify, ends_bind, ends_modify, ends_bind,
    ends_modify]
  have hbooted : Booted { s with paCalling := false, pool := setupPool, chain := chain } :=
    ⟨h.pml4, h.pdpt, h.beyond, h.pde, h.pt⟩
  have hframes' : FrameInv { s with paCalling := false, pool := setupPool, chain := chain }
      (· < 512) := hframes.of_marked hframes.nonempty fun _ => rfl
  refine ((hbooted.setup_kpalloc hframes' rfl rfl).mono (fun _ _ h => h) fun _ _ hf => hf).bind ?_
  rintro _ v ⟨rfl, ⟨T, P, hcore, hP, hslots, hgrows⟩, hadds, hleft⟩
  rw [ends_bind, ends_modify, ends_modify]
  have hfilled : ∀ j, 3 ≤ j → j < 64 → Function.update v.pool 511 (kernelAddress 63) j ≠ 0 := by
    intro j hj hj'
    rw [Function.update_of_ne (by omega)]
    exact hslots.filled j (by omega) hj'
  constructor
  case inv =>
    refine ⟨T, ?_, fun j hj => hfilled j (by omega), hgrows.calling rfl, fun _ hf => hf.elim⟩
    have hset := hcore.setUp (n := 63) (.inl rfl)
    have hout : (fun m => (m = 63 ∨ False) ∧ m ≠ 63) = fun _ => False := by
      funext m
      simp
    rwa [hout] at hset
  case filled => exact hfilled
  case pml4 =>
    change Function.update v.pml4 0 none = _
    rw [hadds.pml4]
  case pdpt => exact hadds.pdpt
  case tables =>
    obtain ⟨N, hN, -, ht⟩ := hadds.count 1 hbooted.tables
    have hone : Function.update v.pml4 0 none 1 = v.pml4 1 := Function.update_of_ne (by decide) ..
    exact ⟨N, hN, hone ▸ ht.pml4, ht.pdpt, ht.beyond, ht.pos, ht.le, ht.pde⟩
  case room =>
    have hroom : RoomyPages v 448 :=
      hbooted.setup_room hcore (hslots.filled 32 (by omega) (by decide)) hleft
    exact hroom

theorem setup_inv (h : Booted s) :
    Ends P_ALLOC3_SETUP s (fun _ s' => ∃ T, PoolInv s' T fun _ => False) fun _ _ => False :=
  (setup_spec h).mono (fun _ _ h => h.inv) fun _ _ hf => hf

/-! ## Runs -/

theorem Left.not_inFirstGiB (h : Left s) : ¬ InFirstGiB s := by
  intro hgib
  have hmapped : s.mapped ⟨1, 1, 0, 0⟩ ≠ none := by
    rw [Pager.mapped, if_neg]
    · exact h.pt
    · rintro (h0 | h0 | h0)
      · exact h.pml4 h0
      · exact h.pdpt h0
      · exact h.pde h0
  have hkernel : Page.Kernel ⟨1, 1, 0, 0⟩ := ⟨⟨by decide, by decide, by decide, by decide⟩, by decide⟩
  exact absurd (hgib _ hkernel hmapped).2 Nat.one_ne_zero

/-- The number of a page of the first GiB. -/
theorem InFirstGiB.number {p : Page} (h : InFirstGiB s) (hp : p.Kernel) (hmapped : s.mapped p ≠ none) :
    ∃ n < gib, p = kernelPage n := by
  obtain ⟨hpml4, hpdpt⟩ := h p hp hmapped
  have hpde := hp.inTables.pde
  have hpt := hp.inTables.pt
  refine ⟨512 * p.pde + p.pt, ?_, ?_⟩
  · unfold gib
    omega
  · rw [kernelPage_split hpt, ← hpml4, ← hpdpt]

theorem not_pooled_iff (hs : Stock s) (hn : n < gib) :
    ¬ Pooled s.pool (kernelPage n) ↔ NotPooled s n := by
  constructor
  · intro h i hi heq
    exact h ⟨i, hi, heq ▸ kernelAddress_ne_zero hn, heq ▸ pageOf_kernelAddress hn⟩
  · rintro h ⟨i, hi, hne, hpage⟩
    obtain ⟨m, hm, heq, -⟩ := hs i hi hne
    rw [heq, pageOf_kernelAddress hm] at hpage
    obtain rfl := kernelPage_inj hpage
    exact h i hi heq

/-- A mapped page does not come into the pool. -/
theorem Grows.notPooled (h : Grows s s') (hn : n < gib) (hmapped : s.mapped (kernelPage n) ≠ none)
    (hnot : NotPooled s n) : NotPooled s' n := by
  intro i hi heq
  rcases h.pooled i hi (heq ▸ kernelAddress_ne_zero hn) with hold | ⟨m, hm, hnew, hnone⟩
  · exact hnot i hi (hold.symm.trans heq)
  · obtain rfl := kernelAddress_inj hm hn (hnew.symm.trans heq)
    exact hmapped hnone

theorem Grows.mapped_ne (h : Grows s s') (hn : n < gib) (hmapped : s.mapped (kernelPage n) ≠ none) :
    s'.mapped (kernelPage n) ≠ none := by
  obtain ⟨e, he⟩ := Option.ne_none_iff_exists'.mp hmapped
  rw [h.mapped n hn e he]
  exact Option.some_ne_none e

theorem rest_of_find (hfind : (List.range 512).find? (fun i => s.pool i ≠ 0) = some a) :
    s.rest = Function.update s.pool a 0 := by
  unfold Pager.rest
  split
  · rename_i hnone
    cases hfind.symm.trans hnone
  · rename_i b hb
    obtain rfl := Option.some.inj (hfind.symm.trans hb)
    rfl

/-- What is behind the lowest slot is in the pool, and is not the page in that slot. -/
theorem PoolCore.rest {m : Nat} (h : PoolCore s T out) (ha : a < 512)
    (hfind : (List.range 512).find? (fun i => s.pool i ≠ 0) = some a)
    (hslot : s.pool a = kernelAddress n) (hn : n < gib)
    (hrest : Pooled s.rest (kernelPage m)) : m ≠ n ∧ ∃ i < 512, s.pool i = kernelAddress m := by
  obtain ⟨i, hi, hne, hpage⟩ := hrest
  have hpool := rest_of_find hfind
  have hia : i ≠ a := by
    rintro rfl
    rw [hpool, Function.update_self] at hne
    exact hne rfl
  rw [hpool, Function.update_of_ne hia] at hne hpage
  obtain ⟨k, hk, heq, -⟩ := h.stock i hi hne
  rw [heq, pageOf_kernelAddress hk] at hpage
  obtain rfl := kernelPage_inj hpage
  refine ⟨?_, i, hi, heq⟩
  rintro rfl
  exact hia (h.slot_unique hi ha hn heq hslot)

/-- A nested call takes neither the page that is returned nor one that is out. -/
theorem HandsOut.nestedTake {m : Nat} (h : HandsOut s s' T out n) (hinv : PoolInv s T out)
    (htake : NestedTake s s' (kernelPage m)) : m ≠ n ∧ ¬ out m := by
  obtain ⟨a, ha, hfind, hslot⟩ := h.slot
  rcases htake.source with hrest | hnone
  · obtain ⟨hmn, i, hi, heq⟩ := hinv.core.rest ha hfind hslot h.page hrest
    exact ⟨hmn, fun hout => (hinv.core.handed m hout).2.2 i hi heq⟩
  · refine ⟨?_, fun hout => (hinv.core.handed m hout).2.1 hnone⟩
    rintro rfl
    exact kernelAddress_mem hinv.core.stock ha h.page hslot hnone

/-- Between two calls: what is handed out, what is kept and what is in the pool are apart. -/
structure PoolState.Inv (s : PoolState) : Prop where
  pager : ∃ T, PoolInv s.pager T fun n => n < gib ∧ kernelAddress n ∈ s.out
  out : ∀ v ∈ s.out, ∃ n < gib, v = kernelAddress n
  kept : ∀ q ∈ s.kept, ∃ n < gib, q = kernelPage n ∧ s.pager.mapped q ≠ none ∧
    NotPooled s.pager n ∧ kernelAddress n ∉ s.out

theorem PoolState.Inv.start (hT : PoolInv t T fun _ => False) : (PoolState.start t).Inv where
  pager := by
    have hout : (fun n => n < gib ∧ kernelAddress n ∈ (PoolState.start t).out) = fun _ => False := by
      funext n
      simp [PoolState.start]
    rw [hout]
    exact ⟨T, hT⟩
  out _ hv := absurd hv (Set.notMem_empty _)
  kept := by
    rintro q ⟨n, hn, rfl, hpool⟩
    have hgib : n < gib := hn.trans (by decide)
    exact ⟨n, hgib, rfl, hT.core.boot n hn, (not_pooled_iff hT.core.stock hgib).mp hpool,
      Set.notMem_empty _⟩

theorem HandsOut.mem_out {s : PoolState} {m : Nat} (hn : n < gib) :
    (m < gib ∧ kernelAddress m ∈ insert (kernelAddress n) s.out) ↔
      m = n ∨ m < gib ∧ kernelAddress m ∈ s.out := by
  rw [Set.mem_insert_iff]
  constructor
  · rintro ⟨hm, heq | hmem⟩
    · exact .inl (kernelAddress_inj hm hn heq)
    · exact .inr ⟨hm, hmem⟩
  · rintro (rfl | ⟨hm, hmem⟩)
    · exact ⟨hn, .inl rfl⟩
    · exact ⟨hm, .inr hmem⟩

theorem PoolState.Inv.alloc {s s' : PoolState} (h : s.Inv)
    (hT : PoolInv s.pager T fun n => n < gib ∧ kernelAddress n ∈ s.out)
    (hn : HandsOut s.pager s'.pager T (fun n => n < gib ∧ kernelAddress n ∈ s.out) n)
    (hgib : InFirstGiB s'.pager) (hout : s'.out = insert (kernelAddress n) s.out)
    (hkept : s'.kept = s.kept ∪ {p | NestedTake s.pager s'.pager p}) : s'.Inv := by
  obtain ⟨a, ha, hfind, hslot⟩ := hn.slot
  obtain ⟨T', hT'⟩ := hn.inv
  constructor
  case pager =>
    refine ⟨T', ?_⟩
    have heq : (fun m => m < gib ∧ kernelAddress m ∈ s'.out) =
        fun m => m = n ∨ m < gib ∧ kernelAddress m ∈ s.out := by
      funext m
      rw [hout]
      exact propext (HandsOut.mem_out hn.page)
    rwa [heq]
  case out =>
    intro v hv
    rw [hout] at hv
    rcases hv with rfl | hv
    · exact ⟨n, hn.page, rfl⟩
    · exact h.out v hv
  case kept =>
    intro q hq
    rw [hkept] at hq
    rcases hq with hold | htake
    · obtain ⟨m, hm, rfl, hmapped, hnot, hmem⟩ := h.kept q hold
      refine ⟨m, hm, rfl, hn.grows.mapped_ne hm hmapped, hn.grows.notPooled hm hmapped hnot, ?_⟩
      rw [hout]
      rintro (heq | hmem')
      · exact hnot a ha (hslot.trans heq.symm)
      · exact hmem hmem'
    · obtain ⟨m, hm, rfl⟩ := hgib.number htake.kernel htake.mapped
      obtain ⟨hmn, hmem⟩ := hn.nestedTake hT htake
      refine ⟨m, hm, rfl, htake.mapped,
        (not_pooled_iff hT'.core.stock hm).mp htake.notPooled, ?_⟩
      rw [hout]
      rintro (heq | hmem')
      · exact hmn (kernelAddress_inj hm hn.page heq)
      · exact hmem ⟨hm, hmem'⟩

theorem PoolState.Inv.free {s s' : PoolState} {v : UInt64} (h : s.Inv) (hv : v ∈ s.out)
    (hfree : P_FREE v s.pager = .ok ⟨⟩ s'.pager) (hout : s'.out = s.out \ {v})
    (hkept : s'.kept = s.kept) : s'.Inv := by
  obtain ⟨T, hT⟩ := h.pager
  obtain ⟨n, hn, rfl⟩ := h.out v hv
  have hends := hT.p_free (n := n) ⟨hn, hv⟩
  rw [Ends, hfree] at hends
  obtain ⟨⟨T', hT'⟩, hpool, hothers⟩ := hends
  constructor
  case pager =>
    refine ⟨T', ?_⟩
    have heq : (fun m => m < gib ∧ kernelAddress m ∈ s'.out) =
        fun m => (m < gib ∧ kernelAddress m ∈ s.out) ∧ m ≠ n := by
      funext m
      rw [hout]
      apply propext
      constructor
      · rintro ⟨hm, hmem, hne⟩
        refine ⟨⟨hm, hmem⟩, ?_⟩
        rintro rfl
        exact hne rfl
      · rintro ⟨⟨hm, hmem⟩, hmn⟩
        exact ⟨hm, hmem, fun heq => hmn (kernelAddress_inj hm hn heq)⟩
    rwa [heq]
  case out =>
    intro w hw
    rw [hout] at hw
    exact h.out w hw.1
  case kept =>
    intro q hq
    rw [hkept] at hq
    obtain ⟨m, hm, rfl, hmapped, hnot, hmem⟩ := h.kept q hq
    have hmn : m ≠ n := by
      rintro rfl
      exact hmem hv
    refine ⟨m, hm, rfl, ?_, fun i hi => ?_, fun hmem' => hmem ?_⟩
    · rw [hothers m hmn]
      exact hmapped
    · rw [hpool]
      exact hnot i hi
    · rw [hout] at hmem'
      exact hmem'.1

theorem PoolState.Inv.step {s s' : PoolState} {op : PoolOp} (h : s.Inv) (hs : op.step s s') :
    s'.Inv := by
  cases op with
  | alloc =>
      obtain ⟨k, halloc, hgib, hout, hkept⟩ := hs
      obtain ⟨T, hT⟩ := h.pager
      have hends := hT.kpalloc
      rw [Ends, halloc] at hends
      rcases hends with ⟨n, rfl, hn⟩ | hleft
      · exact h.alloc hT hn hgib hout hkept
      · exact absurd hgib hleft.not_inFirstGiB
  | free v =>
      obtain ⟨hv, hfree, hout, hkept⟩ := hs
      exact h.free hv hfree hout hkept

theorem HandsOut.fresh {s : PoolState} (h : s.Inv)
    (hT : PoolInv s.pager T fun n => n < gib ∧ kernelAddress n ∈ s.out)
    (hn : HandsOut s.pager t T (fun n => n < gib ∧ kernelAddress n ∈ s.out) n)
    (hgib : InFirstGiB t) : Fresh s (kernelAddress n) t := by
  obtain ⟨a, ha, hfind, hslot⟩ := hn.slot
  obtain ⟨T', hT'⟩ := hn.inv
  obtain ⟨-, hmapped, hnot⟩ := hT'.core.handed n (.inl rfl)
  have hpage := pageOf_kernelAddress hn.page
  obtain ⟨e, he⟩ := Option.ne_none_iff_exists'.mp hmapped
  constructor
  case notOut =>
    intro hmem
    exact (hT.core.handed n ⟨hn.page, hmem⟩).2.2 a ha hslot
  case notPooled =>
    rw [hpage]
    exact (not_pooled_iff hT'.core.stock hn.page).mpr hnot
  case notKept =>
    rw [hpage]
    refine ⟨fun hkept => ?_, fun htake => (hn.nestedTake hT htake).1 rfl⟩
    obtain ⟨m, -, heq, -, hpool, -⟩ := h.kept _ hkept
    obtain rfl := kernelPage_inj heq
    exact hpool a ha hslot
  case frame =>
    rw [hpage]
    refine ⟨e, he, fun htable => ?_, fun p hp hne e' he' heq => ?_, fun m => ?_⟩
    · obtain ⟨m, hm, e', he', heq, hout, -⟩ := hT'.core.tableFrames _ htable
      exact hout (.inl (hT'.core.sole m hm n hn.page e' e he' he heq))
    · obtain ⟨m, hm, rfl⟩ := hgib.number hp (he' ▸ Option.some_ne_none e')
      obtain rfl := hT'.core.sole m hm n hn.page e' e he' he heq
      exact hne rfl
    · have hzero := mfl_spec hn.page he 4096 (i := 0) (m := m) rfl
        fun o ho => absurd ho (Nat.not_lt_zero o)
      rwa [show kernelAddress n + .ofNat 0 = kernelAddress n from UInt64.add_zero _] at hzero

/-- No page is handed out twice, and the pool does not run dry. -/
theorem kernel_pages_fresh {s₀ : Pager} (h : Booted s₀) :
    Ends P_ALLOC3_SETUP s₀
      (fun _ p => ∀ ops s, Run PoolOp.step (PoolState.start p) ops s →
        Ends KPALLOC s.pager (fun k s' => InFirstGiB s' → Fresh s k s')
            (fun _ s' => ¬ InFirstGiB s') ∧
          ∀ v ∈ s.out, Ends (P_FREE v) s.pager (fun _ _ => True) fun _ _ => False)
      fun _ _ => False := by
  refine (setup_inv h).mono ?_ fun _ _ hf => hf
  rintro _ p ⟨T₀, hstart⟩ ops s hrun
  have hinv : s.Inv :=
    run_keeps (fun _ _ _ hi hs => PoolState.Inv.step hi hs) hrun (PoolState.Inv.start hstart)
  obtain ⟨T, hT⟩ := hinv.pager
  constructor
  · refine hT.kpalloc.mono ?_ fun _ _ hleft => hleft.not_inFirstGiB
    rintro k s' (⟨n, rfl, hn⟩ | hleft) hgib
    · exact hn.fresh hinv hT hgib
    · exact absurd hgib hleft.not_inFirstGiB
  · intro v hv
    obtain ⟨n, hn, rfl⟩ := hinv.out v hv
    exact (hT.p_free ⟨hn, hv⟩).mono (fun _ _ _ => trivial) fun _ _ hf => hf

/-- The tables of `_PMMain`, and no frame of the bitmap or slot of the pool. -/
def bootTables : Pager where
  pml4 i := if i < 2 then some ⟨0x31, 0x3⟩ else none
  pdpt i j := if i < 2 ∧ j = 0 then some ⟨0x32, 0x3⟩ else none
  pde i j k := if i < 2 ∧ j = 0 ∧ k = 0 then some ⟨0x33, 0x3⟩ else none
  pt p := if p.pml4 < 2 ∧ p.pdpt = 0 ∧ p.pde = 0 then some ⟨p.pt, 0x3⟩ else none
  pool _ := 0
  chain := []
  paCalling := false

theorem booted_bootTables : Booted bootTables where
  pml4 := rfl
  pdpt := rfl
  beyond := rfl
  pde k _ := by
    change (if 1 < 2 ∧ 0 = 0 ∧ k = 0 then some (⟨0x33, 0x3⟩ : Entry) else none) = _
    simp
  pt n hn := by
    have hpde : n / 512 = 0 := Nat.div_eq_of_lt hn
    have hpt : n % 512 = n := Nat.mod_eq_of_lt hn
    rw [kernelPage, hpde, hpt]
    rfl

/-- The setup leaves the pages where the boot loader has mapped some. -/
theorem SetUp.inFirstGiB (h : SetUp bootTables s) (hpml4 : t.pml4 = s.pml4)
    (hpdpt : t.pdpt = s.pdpt) : InFirstGiB t := by
  intro p hp hmapped
  have hone : p.pml4 = 1 := by
    by_contra hne
    refine hmapped (if_pos (.inl ?_))
    have hge : ¬ p.pml4 < 2 := by
      have hhalf := hp.half
      omega
    rw [hpml4, h.pml4, Function.update_of_ne (by omega)]
    exact if_neg hge
  refine ⟨hone, ?_⟩
  by_contra hne
  refine hmapped (if_pos (.inr (.inl ?_)))
  rw [hpdpt, h.pdpt]
  exact if_neg fun hc => hne hc.2

/-- With a page in the lower slots, the tables stay as they are. -/
theorem PoolInv.kpalloc_low (h : PoolInv s T out) (hlow : 0 < slotsBelow 32 s.pool) :
    Ends KPALLOC s (fun _ t => ∃ a, t = s.pop a) fun _ _ => False := by
  obtain ⟨a, ha, hfind⟩ := exists_slot (by decide) hlow
  obtain ⟨h512, hne, -⟩ := pop_bound hfind
  obtain ⟨n, hn, hpool, -⟩ := h.core.stock a h512 hne
  refine (h.core.kpalloc (c := 0) (d := 0) h.calling hfind hn hpool
    fun hge => absurd ha (Nat.not_lt_of_le hge)).mono ?_ fun _ _ hleft => absurd hleft.1 (by decide)
  rintro k t (⟨-, ⟨-, rfl⟩ | ⟨hge, -⟩⟩ | ⟨htwo, -⟩)
  · exact ⟨a, rfl⟩
  · exact absurd ha (Nat.not_lt_of_le hge)
  · exact absurd htwo (by decide)

/-- After the setup a page is handed out and freed, and the next call hands one out again. -/
theorem kernel_pages_fresh_again :
    Ends P_ALLOC3_SETUP bootTables
      (fun _ p => ∃ v s, Run PoolOp.step (PoolState.start p) [.alloc, .free v] s ∧
        Ends KPALLOC s.pager (fun k s' => InFirstGiB s' ∧ Fresh s k s') fun _ _ => False)
      fun _ _ => False := by
  refine ((kernel_pages_fresh booted_bootTables).and (setup_spec booted_bootTables)).mono ?_
    fun _ _ hf => hf.1
  rintro _ p ⟨hp, hset⟩
  obtain ⟨T, hT⟩ := hset.inv
  have hlow : 29 ≤ slotsBelow 32 p.pool :=
    slotsBelow_of_filled (Nat.le_refl 32) fun j hj hlt => hset.filled j hj (by omega)
  obtain ⟨v, p1, hv, a, rfl⟩ := (hT.kpalloc_low (by omega)).exists_ok
  let s1 : PoolState := ⟨p.pop a, insert v ∅,
    (PoolState.start p).kept ∪ {q | NestedTake p (p.pop a) q}⟩
  have hfirst : PoolOp.step (PoolState.start p) .alloc s1 :=
    ⟨v, hv, hset.inFirstGiB rfl rfl, rfl, rfl⟩
  have hinv1 : s1.Inv := (PoolState.Inv.start hT).step hfirst
  obtain ⟨T1, hT1⟩ := hinv1.pager
  obtain ⟨n, hn, rfl⟩ := hinv1.out v (Set.mem_insert v ∅)
  obtain ⟨_, p2, hfree, e, -, -, -, rfl⟩ := (hT1.p_free_eq ⟨hn, Set.mem_insert _ ∅⟩).exists_ok
  let s2 : PoolState := ⟨(p.pop a).freed n e.frame, s1.out \ {kernelAddress n}, s1.kept⟩
  have hsecond : PoolOp.step s1 (.free (kernelAddress n)) s2 :=
    ⟨Set.mem_insert _ ∅, hfree, rfl, rfl⟩
  have hrun : Run PoolOp.step (PoolState.start p) [.alloc, .free (kernelAddress n)] s2 :=
    Run.cons hfirst (Run.cons hsecond (Run.nil s2))
  obtain ⟨T2, hT2⟩ := (hinv1.step hsecond).pager
  have hlow2 : 0 < slotsBelow 32 s2.pager.pool := by
    have hone := slotsBelow_update 32 p.pool a 0
    change 0 < slotsBelow 32 (Function.update p.pool a 0)
    omega
  refine ⟨kernelAddress n, s2, hrun, ?_⟩
  have hlast := ((hp _ s2 hrun).1.and (hT2.kpalloc_low hlow2))
  refine hlast.mono ?_ fun _ _ hf => hf.2
  rintro k _ ⟨hfresh, b, rfl⟩
  have hgib : InFirstGiB (s2.pager.pop b) := hset.inFirstGiB rfl rfl
  exact ⟨hgib, hfresh hgib⟩

end UnnamedOS.Paging
