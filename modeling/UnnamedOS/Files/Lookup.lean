import UnnamedOS.Files.InodeCache

/-!
# Paths

`getFileFromFilename` goes through directories by name. It reads the first sector of a directory, and
grabs the inodes that the ids there name one after another until a name fits.
-/

namespace UnnamedOS.Files

open UnnamedOS.Lib

/-- A `char`, which is signed. -/
def char (c : UInt8) : Int := c.toInt8.toInt

/-- `strcmp` of `string.c` on what two pointers point to. An inode's name that fills its field is
taken to end there. -/
def strcmp : List UInt8 → List UInt8 → Int
  | [], [] => 0
  | a :: _, [] => char a
  | [], b :: _ => -char b
  | a :: as, b :: bs =>
    if a = 0 ∨ b = 0 then char a - char b
    else if a = b then strcmp as bs
    else char a - char b

/-- The ids in a sector, the rest of the page behind it being zero. -/
def idList (m : List UInt8) : List UInt64 := ((List.range 64).map (quad m)).takeWhile (· ≠ 0)

/-- The loop over the ids of a directory. -/
def searchIds (v : Volume) (name : List UInt8) : List UInt64 →
    Except Halt (Option (List UInt8) × Volume)
  | [] => .ok (none, v)
  | id :: ids => do
    let (n, v) ← GrabInode v id
    if strcmp (Inode.ofPacked n).name.toList name = 0 then return (some n, v)
    else searchIds v name ids

def findEntry (v : Volume) (curdir : Inode) (name : List UInt8) :
    Except Halt (Option (List UInt8) × Volume) := do
  let m ← InodeRead v.disc curdir 0x0 0x200
  searchIds v name (idList m)

/-- The loop over `directories`, on the left of the last slash. -/
def walk (v : Volume) (curdir : Inode) : List (List UInt8) → Except Halt (Option Inode × Volume)
  | [] => .ok (some curdir, v)
  | directory :: directories => do
    let (n, v) ← findEntry v curdir directory
    match n with
    | none => return (none, v)
    | some n => walk v (.ofPacked n) directories

/-- `filename[i]` for an `int`, which goes below zero in a path without a slash. -/
abbrev Filename := Int → UInt8

/-- The number of values of an `int` from zero on. -/
def intRange : Nat := 2147483648

/-- The characters before the terminator, from index `i` on. -/
def textFrom (filename : Filename) : Nat → Nat → Except Halt (List UInt8)
  | 0, _ => .error .overflow
  | todo + 1, i =>
    if filename i = 0 then .ok [] else (textFrom filename todo (i + 1)).map (filename i :: ·)

/-- The first loop counts runs of slashes. The last of them must not end the path. -/
def slashRuns : List UInt8 → Bool → Except Halt Nat
  | [], inRun => if inRun then .error (.error .fileDirstream 0) else .ok 0
  | c :: cs, inRun =>
    if c = 0x2f then (slashRuns cs true).map fun n => if inRun then n else n + 1
    else slashRuns cs false

/-- `directories`: what stands between one slash and the next. -/
def directoriesOf : Nat → List UInt8 → List (List UInt8)
  | 0, _ => []
  | slashcount + 1, p =>
    p.takeWhile (· ≠ 0x2f) :: directoriesOf slashcount (p.dropWhile (· ≠ 0x2f)).tail

/-- `while(filename[i-1] != '/') i--;` -/
def nameStart (filename : Filename) : Nat → Int → Except Halt Int
  | 0, _ => .error .overflow
  | todo + 1, i => if filename (i - 1) = 0x2f then .ok i else nameStart filename todo (i - 1)

/-- The characters from index `i` up to `e`, as far as a string goes. -/
def nameBetween (filename : Filename) (i e : Int) : List UInt8 :=
  cString ((List.range (e - i).toNat).map fun k : Nat => filename (i + k))

/-- The bytes of the inode, or nothing for `NULL`. -/
def getFileFromFilename (v : Volume) (basedir : Inode) (filename : Filename) :
    Except Halt (Option (List UInt8) × Volume) := do
  let p ← textFrom filename intRange 0
  let slashcount ← slashRuns p false
  let i ← nameStart filename (p.length + intRange) p.length
  let name := nameBetween filename i p.length
  let (curdir, v) ← walk v basedir (directoriesOf (slashcount - 1) (p.drop 1))
  match curdir with
  | none => return (none, v)
  | some curdir => findEntry v curdir name

/-! ## Names -/

theorem char_inj {a b : UInt8} : char a = char b ↔ a = b := by
  rw [char, char, Int8.toInt_inj]
  constructor
  · intro h
    have hback := congrArg Int8.toUInt8 h
    simpa using hback
  · rintro rfl
    rfl

theorem char_eq_zero {a : UInt8} : char a = 0 ↔ a = 0 := by
  rw [← char_inj]
  rfl

theorem cString_cons {a : UInt8} (ha : a ≠ 0) (as : List UInt8) :
    cString (a :: as) = a :: cString as := by
  rw [cString, List.takeWhile_cons_of_pos (by simpa using ha)]
  rfl

/-- Two strings compare equal when they are the same up to their terminators. -/
theorem strcmp_eq_zero (as bs : List UInt8) : strcmp as bs = 0 ↔ cString as = cString bs := by
  induction as generalizing bs with
  | nil =>
      cases bs with
      | nil => exact ⟨fun _ => rfl, fun _ => rfl⟩
      | cons b bs =>
          rw [strcmp, Int.neg_eq_zero, char_eq_zero]
          by_cases hb : b = 0
          · subst hb
            exact ⟨fun _ => rfl, fun _ => rfl⟩
          · rw [cString_cons hb]
            exact ⟨fun h => absurd h hb, fun h => nomatch h⟩
  | cons a as ih =>
      cases bs with
      | nil =>
          rw [strcmp, char_eq_zero]
          by_cases ha : a = 0
          · subst ha
            exact ⟨fun _ => rfl, fun _ => rfl⟩
          · rw [cString_cons ha]
            exact ⟨fun h => absurd h ha, fun h => nomatch h⟩
      | cons b bs =>
          rw [strcmp]
          by_cases ha : a = 0
          · subst ha
            rw [if_pos (Or.inl rfl), Int.sub_eq_zero, char_inj]
            by_cases hb : b = 0
            · subst hb
              exact ⟨fun _ => rfl, fun _ => rfl⟩
            · rw [cString_cons hb]
              exact ⟨fun h => absurd h.symm hb, fun h => nomatch h⟩
          · by_cases hb : b = 0
            · subst hb
              rw [if_pos (Or.inr rfl), Int.sub_eq_zero, char_inj, cString_cons ha]
              exact ⟨fun h => absurd h ha, fun h => nomatch h⟩
            · rw [if_neg (not_or_intro ha hb), cString_cons ha, cString_cons hb, List.cons.injEq]
              by_cases hab : a = b
              · rw [if_pos hab, ih]
                exact ⟨fun h => ⟨hab, h⟩, fun h => h.2⟩
              · rw [if_neg hab, Int.sub_eq_zero, char_inj]
                exact ⟨fun h => absurd h hab, fun h => absurd h.1 hab⟩

theorem cString_of_no_zero {name : List UInt8} (h : ∀ c ∈ name, c ≠ 0) : cString name = name := by
  induction name with
  | nil => rfl
  | cons c name ih =>
      obtain ⟨hc, hname⟩ := List.forall_mem_cons.mp h
      rw [cString_cons hc, ih hname]

/-! ## Searching a directory -/

/-- The name of an inode of the table. -/
def nameOf (disc : Disc) (i : Nat) : List UInt8 :=
  cString (Inode.ofPacked (slotBytes disc i)).name.toList

/-- The first of the ids whose inode has that name. -/
def firstNamed (disc : Disc) (name : List UInt8) (ids : List UInt64) : Option UInt64 :=
  ids.find? fun id => nameOf disc id.toNat = cString name

theorem firstNamed_cons_pos {disc : Disc} {name : List UInt8} {id : UInt64} (ids : List UInt64)
    (h : nameOf disc id.toNat = cString name) : firstNamed disc name (id :: ids) = some id :=
  List.find?_cons_of_pos (by simpa using h)

theorem firstNamed_cons_neg {disc : Disc} {name : List UInt8} {id : UInt64} (ids : List UInt64)
    (h : nameOf disc id.toNat ≠ cString name) :
    firstNamed disc name (id :: ids) = firstNamed disc name ids :=
  List.find?_cons_of_neg (by simpa using h)

theorem searchIds_spec {v : Volume} (h : Agrees v) (name : List UInt8) {ids : List UInt64}
    (hids : ∀ id ∈ ids, Indexable id) :
    ∃ v', searchIds v name ids =
        .ok ((firstNamed v.disc name ids).map fun id => slotBytes v.disc id.toNat, v') ∧
      v'.disc = v.disc ∧ Agrees v' := by
  induction ids generalizing v with
  | nil => exact ⟨v, rfl, rfl, h⟩
  | cons id ids ih =>
      obtain ⟨hid, hrest⟩ := List.forall_mem_cons.mp hids
      obtain ⟨v1, hgrab, hdisc, hagree, -⟩ := GrabInode_spec h hid
      rw [searchIds, hgrab]
      have hcheck : cString (Inode.ofPacked (slotBytes v.disc id.toNat)).name.toList =
          nameOf v.disc id.toNat := rfl
      simp only [bind, Except.bind, pure, Except.pure, strcmp_eq_zero, hcheck]
      by_cases hname : nameOf v.disc id.toNat = cString name
      · rw [if_pos hname, firstNamed_cons_pos ids hname]
        exact ⟨v1, rfl, hdisc, hagree⟩
      · obtain ⟨v2, hsearch, hdisc2, hagree2⟩ := ih hagree hrest
        rw [if_neg hname, hsearch, firstNamed_cons_neg ids hname, hdisc]
        exact ⟨v2, rfl, hdisc2.trans hdisc, hagree2⟩

/-- The ids that a lookup reads: those of the first sector. -/
def listedIds (disc : Disc) (a : Inode) : List UInt64 :=
  idList (stretch disc (512 * a.chunkaddr1.toNat) 512)

/-- The first sector, read at once. -/
theorem InodeRead_sector (disc : Disc) {curdir : Inode}
    (hlen : 512 ≤ (curdir.chunklen <<< 9).toNat) :
    InodeRead disc curdir 0x0 0x200 = .ok (stretch disc (512 * curdir.chunkaddr1.toNat) 512) := by
  have h0 : (0x0 : UInt64).toNat = 0 := rfl
  have h512 : (0x200 : UInt64).toNat = 512 := rfl
  have haddr := curdir.chunkaddr1.toNat_lt
  have hin : (0x0 : UInt64).toNat + (0x200 : UInt64).toNat ≤ (curdir.chunklen <<< 9).toNat := by
    rw [h0, h512]
    omega
  have hend : curdir.chunkaddr1.toNat + (0x0 : UInt64).toNat / 512 < 18446744073709551616 := by
    rw [h0]
    omega
  have hsector : InodeRead disc curdir 0x0 0x200 = .ok (stretch disc
      (512 * curdir.chunkaddr1.toNat + (0x0 : UInt64).toNat) (0x200 : UInt64).toNat) :=
    InodeRead_eq hin ⟨0, h0⟩ ⟨1, h512⟩ (by rw [h512]; decide) hend
  rw [h0, h512, Nat.add_zero] at hsector
  exact hsector

theorem findEntry_eq {v : Volume} {curdir : Inode} (name : List UInt8)
    (hlen : 512 ≤ (curdir.chunklen <<< 9).toNat) :
    findEntry v curdir name = searchIds v name (listedIds v.disc curdir) := by
  simp only [findEntry, InodeRead_sector v.disc hlen, bind, Except.bind, listedIds]

theorem findEntry_spec {v : Volume} (h : Agrees v) {curdir : Inode} (name : List UInt8)
    (hlen : 512 ≤ (curdir.chunklen <<< 9).toNat)
    (hids : ∀ id ∈ listedIds v.disc curdir, Indexable id) :
    ∃ v', findEntry v curdir name = .ok ((firstNamed v.disc name (listedIds v.disc curdir)).map
        fun id => slotBytes v.disc id.toNat, v') ∧ v'.disc = v.disc ∧ Agrees v' := by
  rw [findEntry_eq name hlen]
  exact searchIds_spec h name hids

/-! ## Paths of one component -/

/-- The characters of a path, up to its terminator. -/
structure Spells (filename : Filename) (p : List UInt8) : Prop where
  chars : ∀ k (hk : k < p.length), filename k = p[k]
  terminator : filename p.length = 0
  text : ∀ c ∈ p, c ≠ 0

theorem textFrom_eq {filename : Filename} {p : List UInt8} (h : Spells filename p) {todo i : Nat}
    (hi : i ≤ p.length) (htodo : p.length < i + todo) :
    textFrom filename todo i = .ok (p.drop i) := by
  induction todo generalizing i with
  | zero => omega
  | succ todo ih =>
      rw [textFrom]
      by_cases hend : i = p.length
      · rw [hend, if_pos h.terminator, List.drop_length]
      · have hlt : i < p.length := by omega
        have hne : filename i ≠ 0 := by
          rw [h.chars i hlt]
          exact h.text _ (List.getElem_mem hlt)
        rw [if_neg hne, ih (by omega) (by omega), List.drop_eq_getElem_cons hlt, h.chars i hlt]
        rfl

theorem slashRuns_no_slash {p : List UInt8} (h : ∀ c ∈ p, c ≠ 0x2f) :
    slashRuns p false = .ok 0 := by
  induction p with
  | nil => rfl
  | cons c p ih =>
      obtain ⟨hc, hp⟩ := List.forall_mem_cons.mp h
      rw [slashRuns, if_neg hc, ih hp]

theorem slashRuns_component {c : UInt8} {name : List UInt8} (h : ∀ d ∈ c :: name, d ≠ 0x2f) :
    slashRuns (0x2f :: c :: name) false = .ok 1 := by
  obtain ⟨hc, hname⟩ := List.forall_mem_cons.mp h
  rw [slashRuns, if_pos rfl, slashRuns, if_neg hc, slashRuns_no_slash hname]
  rfl

/-- The walk back stops behind the slash. -/
theorem nameStart_eq {filename : Filename} {s todo i : Nat} (hslash : filename s = 0x2f)
    (hi : s < i) (hname : ∀ k, s < k → k < i → filename k ≠ 0x2f) (htodo : i ≤ s + todo) :
    nameStart filename todo i = .ok (s + 1) := by
  induction todo generalizing i with
  | zero => omega
  | succ todo ih =>
      rw [nameStart]
      have hprev : ((i : Int) - 1) = ((i - 1 : Nat) : Int) := by omega
      rw [hprev]
      by_cases hend : i = s + 1
      · rw [hend, Nat.add_sub_cancel, if_pos hslash]
        rfl
      · rw [if_neg (hname _ (by omega) (by omega))]
        exact ih (by omega) (fun k hk hk' => hname k hk (by omega)) (by omega)

theorem ok_bind {α β : Type} (a : α) (f : α → Except Halt β) : (.ok a >>= f) = f a := rfl

/-- The text, the slashes and the start of the name first, then the walk and the last lookup. -/
theorem getFileFromFilename_eq {v : Volume} {basedir : Inode} {filename : Filename}
    {p : List UInt8} {slashcount : Nat} {i : Int} (htext : textFrom filename intRange 0 = .ok p)
    (hruns : slashRuns p false = .ok slashcount)
    (hstart : nameStart filename (p.length + intRange) p.length = .ok i) :
    getFileFromFilename v basedir filename = (do
      let (curdir, v) ← walk v basedir (directoriesOf (slashcount - 1) (p.drop 1))
      match curdir with
      | none => return (none, v)
      | some curdir => findEntry v curdir (nameBetween filename i p.length)) := by
  rw [getFileFromFilename, htext, ok_bind, hruns, ok_bind, hstart, ok_bind]

section Component

variable {filename : Filename} {name : List UInt8}

theorem component_char (h : Spells filename (0x2f :: name)) {k : Nat} (hk : k < name.length) :
    filename ((k + 1 : Nat) : Int) = name[k] := by
  rw [h.chars (k + 1) (by rw [List.length_cons]; omega), List.getElem_cons_succ]

theorem component_start (h : Spells filename (0x2f :: name)) (hname : name ≠ [])
    (hslash : ∀ c ∈ name, c ≠ 0x2f) {todo : Nat} (htodo : name.length < todo) :
    nameStart filename todo ((0x2f :: name).length : Nat) = .ok 1 := by
  have hpos : 0 < name.length := List.length_pos_iff.mpr hname
  have hfirst : filename ((0 : Nat) : Int) = 0x2f := h.chars 0 (by rw [List.length_cons]; omega)
  have hrest : ∀ k, 0 < k → k < name.length + 1 → filename ((k : Nat) : Int) ≠ 0x2f := by
    intro k hk hk'
    obtain ⟨j, rfl⟩ : ∃ j, k = j + 1 := ⟨k - 1, by omega⟩
    rw [component_char h (by omega)]
    exact hslash _ (List.getElem_mem (by omega))
  rw [List.length_cons, nameStart_eq hfirst (by omega) hrest (by omega)]
  rfl

theorem component_name (h : Spells filename (0x2f :: name)) :
    nameBetween filename 1 ((0x2f :: name).length : Nat) = name := by
  have hcount : (((0x2f :: name).length : Nat) - 1 : Int).toNat = name.length := by
    rw [List.length_cons]
    omega
  have hmap : (List.range name.length).map (fun k : Nat => filename (1 + k)) = name := by
    apply List.ext_getElem
    · rw [List.length_map, List.length_range]
    · intro k hk hk'
      have hindex : (1 + k : Int) = ((k + 1 : Nat) : Int) := by omega
      rw [List.getElem_map, List.getElem_range, hindex, component_char h hk']
  rw [nameBetween, hcount, hmap]
  exact cString_of_no_zero fun c hc => h.text c (List.mem_cons_of_mem _ hc)

/-- A slash and a name behind it: the lookup in the directory itself. -/
theorem getFileFromFilename_component {v : Volume} {basedir : Inode}
    (h : Spells filename (0x2f :: name)) (hname : name ≠ []) (hlen : name.length + 1 < intRange)
    (hslash : ∀ c ∈ name, c ≠ 0x2f) :
    getFileFromFilename v basedir filename = findEntry v basedir name := by
  have htext : textFrom filename intRange 0 = .ok (0x2f :: name) := by
    rw [textFrom_eq h (Nat.zero_le _) (by rw [List.length_cons]; omega), List.drop_zero]
  have hruns : slashRuns (0x2f :: name) false = .ok 1 := by
    cases name with
    | nil => exact absurd rfl hname
    | cons c name => exact slashRuns_component hslash
  have hstart : nameStart filename ((0x2f :: name).length + intRange)
      ((0x2f :: name).length : Nat) = .ok 1 :=
    component_start h hname hslash (by rw [List.length_cons]; omega)
  rw [getFileFromFilename_eq htext hruns hstart, component_name h]
  rfl

end Component

end UnnamedOS.Files
