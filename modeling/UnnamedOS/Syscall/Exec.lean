import UnnamedOS.Files.PathLookup
import UnnamedOS.Lib.Run
import UnnamedOS.Syscall.Pointers

/-!
# The permissions that a program is started with

`exec` checks the mask that its caller asks for, and looks up the root. The new task comes to both
later, in `InitKernelFd`, which takes a mask and a root of its own where the lookup found nothing.
-/

namespace UnnamedOS.Syscall

open UnnamedOS.Lib UnnamedOS.Files

/-- A root of `NULL` is none. -/
@[ext]
structure PermDesc where
  t_root : Option Inode
  PM : UInt64

/-- What the caller passes. -/
structure Pdesc where
  chrootfname : UInt64
  PM : UInt64

def cPD (bp : UInt64) (root : Option Inode) : PermDesc := { t_root := root, PM := bp }

def PermDesc.checkEPL (current : PermDesc) (req : UInt64) : Bool := req &&& current.PM == req

/-- The string at an address, with what is in front of it. -/
def stringIn (mem : UInt64 → UInt8) (a : UInt64) : Filename := fun i => mem (a + .ofInt i)

def inodeIn (mem : UInt64 → UInt8) (a : UInt64) : Inode :=
  .ofPacked ((List.range sizeofInode).map fun i => mem (a + .ofNat i))

/-- The copy of the name is not used. The lookup dereferences the root in any case. -/
def PermDesc.VERIFY_PERMS_EXEC (current : PermDesc) (v : Volume) (mem : UInt64 → UInt8)
    (target : Pdesc) : Except Halt (PermDesc × Volume) := do
  let chrootfname ← VERIFY_USER target.chrootfname
  if current.checkEPL target.PM = false then .error (.error .todoProcErr 1)
  else do
    let basedir := current.t_root.getD (inodeIn mem 0)
    let (n, v) ← getFileFromFilename v basedir (stringIn mem chrootfname)
    return ({ t_root := n.map .ofPacked, PM := target.PM }, v)

/-- What it does to the permissions of the task it runs in. -/
def PermDesc.InitKernelFd (perms : PermDesc) (v : Volume) : Except Halt (PermDesc × Volume) :=
  match perms.t_root with
  | none => do
    let (n, v) ← GrabInode v 0x0
    return (cPD 0xFF (some (.ofPacked n)), v)
  | some _ => return (perms, v)

/-- A call of `exec`: the memory of the caller, and the file system at the call and when the new
task gets to run. -/
structure Exec where
  mem : UInt64 → UInt8
  target : Pdesc
  atCall : Volume
  atStart : Volume

/-- The call is accepted. `ExecFile` and `ckprocA` hand the permissions on as they are. -/
def Starts (caller : PermDesc) (e : Exec) (new : PermDesc) : Prop :=
  ∃ perms v v', caller.VERIFY_PERMS_EXEC e.atCall e.mem e.target = .ok (perms, v) ∧
    perms.InitKernelFd e.atStart = .ok (new, v')

/-- The permissions in a mask. -/
def permissions (PM : UInt64) : Set Nat := {b | PM.toNat.testBit b}

/-- A root is there, or comes from it by a lookup. -/
def LeadsTo (v : Volume) (root : Option Inode) (n : Inode) : Prop :=
  root = some n ∨ ∃ dir filename b v', root = some dir ∧
    getFileFromFilename v dir filename = .ok (some b, v') ∧ n = .ofPacked b

/-- Nothing is granted that the caller does not have. -/
structure Confined (v : Volume) (caller new : PermDesc) : Prop where
  mask : permissions new.PM ⊆ permissions caller.PM
  root : ∃ n, new.t_root = some n ∧ LeadsTo v caller.t_root n

/-- The lookup of the root finds something. -/
def Resolves (caller : PermDesc) (e : Exec) : Prop :=
  ∃ dir b v', caller.t_root = some dir ∧
    getFileFromFilename e.atCall dir (stringIn e.mem e.target.chrootfname) = .ok (some b, v')

/-- The caller has all that `InitKernelFd` takes. -/
def HasDefaults (caller : PermDesc) (e : Exec) : Prop :=
  permissions 0xFF ⊆ permissions caller.PM ∧
    ∃ b v', GrabInode e.atStart 0x0 = .ok (b, v') ∧ LeadsTo e.atCall caller.t_root (.ofPacked b)

variable {caller new new' perms first last : PermDesc} {e : Exec} {chain : List Exec}
  {v v' : Volume} {mem : UInt64 → UInt8} {target : Pdesc} {n : Inode} {dir : Inode}

theorem permissions_subset_iff {req PM : UInt64} :
    permissions req ⊆ permissions PM ↔ req &&& PM = req := by
  rw [← UInt64.toNat_inj, UInt64.toNat_and]
  constructor
  · intro h
    refine Nat.eq_of_testBit_eq fun b => ?_
    rw [Nat.testBit_and]
    by_cases hb : req.toNat.testBit b
    · have hpm : PM.toNat.testBit b := h hb
      rw [hb, hpm, Bool.and_self]
    · rw [Bool.not_eq_true] at hb
      rw [hb, Bool.false_and]
  · intro h b hb
    have hboth : (req.toNat &&& PM.toNat).testBit b := by rw [h]; exact hb
    rw [Nat.testBit_and, Bool.and_eq_true] at hboth
    exact hboth.2

/-- The check is for a subset. -/
theorem checkEPL_iff (current : PermDesc) (req : UInt64) :
    current.checkEPL req = true ↔ permissions req ⊆ permissions current.PM := by
  rw [permissions_subset_iff, PermDesc.checkEPL, beq_iff_eq]

/-! ## One call -/

theorem VERIFY_USER_ok {a b : UInt64} (h : VERIFY_USER a = .ok b) : b = a := by
  unfold VERIFY_USER at h
  split at h
  · cases h
  · exact (Except.ok.inj h).symm

/-- What an accepted descriptor turns into. -/
theorem accepted_perms (hroot : caller.t_root = some dir)
    (h : caller.VERIFY_PERMS_EXEC v mem target = .ok (perms, v')) :
    permissions target.PM ⊆ permissions caller.PM ∧ perms.PM = target.PM ∧
      ∃ b, getFileFromFilename v dir (stringIn mem target.chrootfname) = .ok (b, v') ∧
        perms.t_root = b.map .ofPacked := by
  obtain ⟨name, hname, h₁⟩ := bind_ok h
  obtain rfl := VERIFY_USER_ok hname
  split at h₁
  · cases h₁
  · rename_i hcheck
    rw [Bool.not_eq_false] at hcheck
    obtain ⟨⟨b, w⟩, hlookup, h₂⟩ := bind_ok h₁
    obtain ⟨rfl, rfl⟩ := Prod.mk.inj (Except.ok.inj h₂)
    rw [hroot, Option.getD_some] at hlookup
    exact ⟨(checkEPL_iff caller _).mp hcheck, rfl, b, hlookup, rfl⟩

theorem InitKernelFd_some (hroot : perms.t_root = some n) :
    perms.InitKernelFd v = .ok (perms, v) := by
  rw [PermDesc.InitKernelFd.eq_def, hroot]
  rfl

theorem InitKernelFd_none (hroot : perms.t_root = none)
    (h : perms.InitKernelFd v = .ok (new, v')) :
    ∃ b, GrabInode v 0x0 = .ok (b, v') ∧ new = cPD 0xFF (some (.ofPacked b)) := by
  rw [PermDesc.InitKernelFd.eq_def, hroot] at h
  obtain ⟨⟨b, w⟩, hgrab, h₁⟩ := bind_ok h
  obtain ⟨rfl, rfl⟩ := Prod.mk.inj (Except.ok.inj h₁)
  exact ⟨b, hgrab, rfl⟩

/-- A descriptor whose mask passes the check. -/
theorem VERIFY_PERMS_EXEC_eq {b : Option (List UInt8)} (hroot : caller.t_root = some dir)
    (hname : ¬ target.chrootfname > CBASE) (hmask : permissions target.PM ⊆ permissions caller.PM)
    (hlookup : getFileFromFilename v dir (stringIn mem target.chrootfname) = .ok (b, v')) :
    caller.VERIFY_PERMS_EXEC v mem target =
      .ok ({ t_root := b.map .ofPacked, PM := target.PM }, v') := by
  have hcheck := (checkEPL_iff caller target.PM).mpr hmask
  simp only [PermDesc.VERIFY_PERMS_EXEC, VERIFY_USER, if_neg hname, hcheck, hroot, hlookup,
    Option.getD_some, Bool.true_eq_false, if_false, bind, Except.bind]
  rfl

theorem InitKernelFd_default {b : List UInt8} (hroot : perms.t_root = none)
    (hgrab : GrabInode v 0x0 = .ok (b, v')) :
    perms.InitKernelFd v = .ok (cPD 0xFF (some (.ofPacked b)), v') := by
  rw [PermDesc.InitKernelFd.eq_def, hroot]
  dsimp only
  rw [hgrab]
  rfl

/-- The new task has what was asked for, or the defaults. -/
theorem Starts.cases (hroot : caller.t_root = some dir) (h : Starts caller e new) :
    (∃ b w, getFileFromFilename e.atCall dir (stringIn e.mem e.target.chrootfname) =
        .ok (some b, w) ∧ permissions e.target.PM ⊆ permissions caller.PM ∧
        new = cPD e.target.PM (some (.ofPacked b))) ∨
    (∃ w b w', getFileFromFilename e.atCall dir (stringIn e.mem e.target.chrootfname) =
        .ok (none, w) ∧ GrabInode e.atStart 0x0 = .ok (b, w') ∧
        new = cPD 0xFF (some (.ofPacked b))) := by
  obtain ⟨perms, w, w', hverify, hinit⟩ := h
  obtain ⟨hmask, hPM, found, hlookup, ht_root⟩ := accepted_perms hroot hverify
  cases found with
  | none =>
      obtain ⟨b, hgrab, hnew⟩ := InitKernelFd_none ht_root hinit
      exact .inr ⟨w, b, w', hlookup, hgrab, hnew⟩
  | some b =>
      have hkept := (InitKernelFd_some ht_root).symm.trans hinit
      have hnew : perms = new := (Prod.mk.inj (Except.ok.inj hkept)).1
      exact .inl ⟨b, w, hlookup, hmask, hnew ▸ PermDesc.ext ht_root hPM⟩

theorem Starts.rooted (hroot : caller.t_root = some dir) (h : Starts caller e new) :
    ∃ n, new.t_root = some n := by
  rcases h.cases hroot with ⟨b, -, -, -, rfl⟩ | ⟨-, b, -, -, -, rfl⟩
  · exact ⟨.ofPacked b, rfl⟩
  · exact ⟨.ofPacked b, rfl⟩

theorem Starts.unique (h : Starts caller e new) (h' : Starts caller e new') : new = new' := by
  obtain ⟨perms, w, w', hverify, hinit⟩ := h
  obtain ⟨perms', u, u', hverify', hinit'⟩ := h'
  obtain ⟨rfl, rfl⟩ := Prod.mk.inj (Except.ok.inj (hverify.symm.trans hverify'))
  exact (Prod.mk.inj (Except.ok.inj (hinit.symm.trans hinit'))).1

/-- A call grants nothing new exactly if the root is found or the defaults are nothing new. -/
theorem Starts.confined_iff (hroot : caller.t_root = some dir) (h : Starts caller e new) :
    Confined e.atCall caller new ↔ Resolves caller e ∨ HasDefaults caller e := by
  rcases h.cases hroot with ⟨b, w, hlookup, hmask, rfl⟩ | ⟨w, b, w', hlookup, hgrab, rfl⟩
  · have hreaches : LeadsTo e.atCall caller.t_root (.ofPacked b) :=
      .inr ⟨dir, _, b, w, hroot, hlookup, rfl⟩
    exact iff_of_true ⟨hmask, _, rfl, hreaches⟩ (.inl ⟨dir, b, w, hroot, hlookup⟩)
  · constructor
    · intro hconf
      obtain ⟨n, hn, hreaches⟩ := hconf.root
      obtain rfl := Option.some.inj hn
      exact .inr ⟨hconf.mask, b, w', hgrab, hreaches⟩
    · rintro (⟨dir', b', u, hroot', hfound⟩ | ⟨hmask, b', u, hgrab', hreaches⟩)
      · obtain rfl := Option.some.inj (hroot.symm.trans hroot')
        cases hlookup.symm.trans hfound
      · obtain ⟨rfl, -⟩ := Prod.mk.inj (Except.ok.inj (hgrab.symm.trans hgrab'))
        exact ⟨hmask, _, rfl, hreaches⟩

/-! ## Chains -/

/-- Along such a chain no permission is gained. -/
theorem chain_mask_subset (hroot : first.t_root = some dir)
    (h : Run (Guarded (fun caller e => Resolves caller e ∨ HasDefaults caller e) Starts)
      first chain last) : permissions last.PM ⊆ permissions first.PM := by
  have hstep : ∀ caller e new,
      ((∃ n, caller.t_root = some n) ∧ permissions caller.PM ⊆ permissions first.PM) →
      Resolves caller e ∨ HasDefaults caller e → Starts caller e new →
      (∃ n, new.t_root = some n) ∧ permissions new.PM ⊆ permissions first.PM := by
    rintro caller e new ⟨⟨n, hn⟩, hsub⟩ hgood hstarts
    have hconf := (hstarts.confined_iff hn).mpr hgood
    exact ⟨hstarts.rooted hn, hconf.mask.trans hsub⟩
  exact (run_invariant hstep h ⟨⟨dir, hroot⟩, subset_rfl⟩).2

/-- In a chain of calls, each made by the program that the one before has started, every call grants
nothing new exactly if each is one that finds its root or whose caller has the defaults. The last
program of such a chain has no permission that the first has not. -/
theorem chain_confined_iff (hroot : first.t_root = some dir) (h : Run Starts first chain last) :
    ((∀ pre e post caller new, chain = pre ++ e :: post → Run Starts first pre caller →
        Starts caller e new → Confined e.atCall caller new) ↔
        Run (Guarded (fun caller e => Resolves caller e ∨ HasDefaults caller e) Starts)
          first chain last) ∧
      (Run (Guarded (fun caller e => Resolves caller e ∨ HasDefaults caller e) Starts)
        first chain last → permissions last.PM ⊆ permissions first.PM) := by
  have hdet : ∀ caller e new new', Starts caller e new → Starts caller e new' → new = new' :=
    fun _ _ _ _ hnew hnew' => hnew.unique hnew'
  have hrooted : ∀ caller e new, (∃ n, caller.t_root = some n) → Starts caller e new →
      ∃ n, new.t_root = some n := fun _ _ _ ⟨_, hn⟩ hstep => hstep.rooted hn
  have hconf : ∀ caller e new, (∃ n, caller.t_root = some n) → Starts caller e new →
      (Confined e.atCall caller new ↔ Resolves caller e ∨ HasDefaults caller e) :=
    fun _ _ _ ⟨_, hn⟩ hstep => hstep.confined_iff hn
  exact ⟨run_steps_iff_guarded hdet hrooted hconf ⟨dir, hroot⟩ h, chain_mask_subset hroot⟩

/-! ## A disc with one directory -/

/-- Memory that begins with a string. -/
def memoryOf (text : List UInt8) : UInt64 → UInt8 := fun a => text.getD a.toNat 0

theorem memoryOf_spells {text : List UInt8} (hlen : text.length < addresses)
    (hzero : ∀ c ∈ text, c ≠ 0) : Spells (stringIn (memoryOf text) 0) text := by
  have hat : ∀ k ≤ text.length, stringIn (memoryOf text) 0 (k : Nat) = text.getD k 0 := by
    intro k hk
    have hlt : k < addresses := hk.trans_lt hlen
    have hk' : (UInt64.ofInt k).toNat = k := by
      have hmod : ((k : Int) % 2 ^ 64).toNat = k := by
        unfold addresses at hlt
        omega
      rw [UInt64.ofInt, hmod, toNat_ofNat hlt]
    rw [stringIn, UInt64.zero_add, memoryOf, hk']
  constructor
  case chars =>
    intro k hk
    rw [hat k hk.le, List.getD_eq_getElem _ _ hk]
  case terminator => rw [hat _ (Nat.le_refl _), List.getD_eq_default _ _ (Nat.le_refl _)]
  case text => exact hzero

/-- `exec` of a caller without permissions, for the root `/c`. -/
def intoRoot (c : UInt8) (v : Volume) : Exec := ⟨memoryOf [0x2f, c], ⟨0, 0⟩, v, v⟩

/-- The root directory of a disc, and no permissions. -/
def bare (v : Volume) : PermDesc := cPD 0 (some (.ofPacked (slotBytes v.disc 0)))

theorem lookup_intoRoot {c : UInt8} (hc : c ≠ 0x2f ∧ c ≠ 0) {built : Builder}
    (hbuilt : buildImage twoLevels (fun _ => 0) 1474560 = some built) : ∃ v',
    getFileFromFilename ⟨discOf built, .null⟩ (.ofPacked (slotBytes (discOf built) 0))
      (stringIn (intoRoot c ⟨discOf built, .null⟩).mem 0) =
        .ok ((Files.follow [[c]] twoLevels 0).map (slotBytes (discOf built)), v') := by
  have htext : pathText ([] ++ [letter 0 c hc]) = [0x2f, c] := rfl
  have hspells : Spells (stringIn (memoryOf [0x2f, c]) 0) (pathText ([] ++ [letter 0 c hc])) := by
    rw [htext]
    exact memoryOf_spells (show 2 < addresses by decide) (by simp [hc.2])
  have halong : ReadableAlong (lookedUp [] (letter 0 c hc) ++ [(letter 0 c hc).name]) twoLevels 0 :=
    ⟨List.cons_ne_nil _ _, fun _ _ => trivial⟩
  have hshort : 2 < intRange := by decide
  obtain ⟨v', hlookup, -⟩ := (buildImage_carries hbuilt).lookup_eq (buildImage_inodes hbuilt)
    twoLevels_wellNamed (agrees_null (discOf built)) rfl hspells hshort halong
  exact ⟨v', hlookup⟩

/-- A directory that is there confines the new program. -/
theorem chain_into_directory : ∃ built new,
    buildImage twoLevels (fun _ => 0) 1474560 = some built ∧
    ((∀ pre e post caller new, [intoRoot 0x64 ⟨discOf built, .null⟩] = pre ++ e :: post →
      Run Starts (bare ⟨discOf built, .null⟩) pre caller → Starts caller e new →
      Confined e.atCall caller new) ↔
      Run (Guarded (fun caller e => Resolves caller e ∨ HasDefaults caller e) Starts)
        (bare ⟨discOf built, .null⟩) [intoRoot 0x64 ⟨discOf built, .null⟩] new) := by
  obtain ⟨built, hbuilt⟩ := Option.isSome_iff_exists.mp twoLevels_isSome
  obtain ⟨v', hlookup⟩ := lookup_intoRoot (c := 0x64) (by decide) hbuilt
  have hfollow : Files.follow [[0x64]] twoLevels 0 = some 1 := rfl
  rw [hfollow] at hlookup
  have hverify : (bare ⟨discOf built, .null⟩).VERIFY_PERMS_EXEC _ (memoryOf [0x2f, 0x64]) ⟨0, 0⟩ =
      .ok (_, v') := VERIFY_PERMS_EXEC_eq rfl (by decide) subset_rfl hlookup
  have hstarts : Starts (bare ⟨discOf built, .null⟩) (intoRoot 0x64 ⟨discOf built, .null⟩) _ :=
    ⟨_, v', _, hverify, InitKernelFd_some rfl⟩
  exact ⟨built, _, hbuilt, (chain_confined_iff rfl (Run.cons hstarts (Run.nil _))).1⟩

/-- A root that is not there gives it the mask 0xFF. -/
theorem missing_root_raises_mask : ∃ built new,
    buildImage twoLevels (fun _ => 0) 1474560 = some built ∧
    Starts (bare ⟨discOf built, .null⟩) (intoRoot 0x78 ⟨discOf built, .null⟩) new ∧
    ¬ Confined ⟨discOf built, .null⟩ (bare ⟨discOf built, .null⟩) new := by
  obtain ⟨built, hbuilt⟩ := Option.isSome_iff_exists.mp twoLevels_isSome
  obtain ⟨v', hlookup⟩ := lookup_intoRoot (c := 0x78) (by decide) hbuilt
  have hfollow : Files.follow [[0x78]] twoLevels 0 = none := rfl
  rw [hfollow] at hlookup
  have hverify : (bare ⟨discOf built, .null⟩).VERIFY_PERMS_EXEC _ (memoryOf [0x2f, 0x78]) ⟨0, 0⟩ =
      .ok (_, v') := VERIFY_PERMS_EXEC_eq rfl (by decide) subset_rfl hlookup
  have hindex : Indexable 0 := by decide
  obtain ⟨v'', hgrab, -⟩ := GrabInode_spec (agrees_null (discOf built)) hindex
  have hinit : (cPD 0 none).InitKernelFd _ = .ok (_, v'') := InitKernelFd_default rfl hgrab
  refine ⟨built, _, hbuilt, ⟨_, v', v'', hverify, hinit⟩, fun hconf => ?_⟩
  have hfirst : Nat.testBit 0xFF 0 = true := by decide
  have hnone : Nat.testBit 0 0 = true := hconf.mask hfirst
  cases hnone

end UnnamedOS.Syscall
