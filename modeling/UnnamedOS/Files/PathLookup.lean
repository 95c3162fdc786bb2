import UnnamedOS.Files.Directories
import UnnamedOS.Files.GivesBack

/-!
# Lookups in a built image

A path leads through the tree as its components say. The code looks up what stands between the
slashes, and looks into whatever it has found so far. Behind the second directory that it finds it
frees what it has freed before.
-/

namespace UnnamedOS.Files

open UnnamedOS.Lib

variable {root a : DirORfile} {entries : List DirORfile} {built : Builder} {first last : Nat}
  {v : Volume} {i : Nat} {text : List UInt8} {names : List (List UInt8)}

/-- A file has no entries. -/
def entryOf (name : List UInt8) : DirORfile → Nat → Option (DirORfile × Nat)
  | .file .., _ => none
  | .dir _ entries, i => entryNamed name entries (i + 1)

/-- The index that names lead to, one after another through directories. -/
def follow : List (List UInt8) → DirORfile → Nat → Option Nat
  | [], _, i => some i
  | name :: names, a, i => (entryOf name a i).bind fun r => follow names r.1 r.2

/-- What a lookup reads as a directory: it has a sector, and what is not a directory begins with the
end of a list. -/
def Readable : DirORfile → Prop
  | .file _ contents _ => contents ≠ [] ∧ ∀ c ∈ contents.take 8, c = 0
  | .dir _ entries => entries ≠ []

def ReadableAlong : List (List UInt8) → DirORfile → Nat → Prop
  | [], _, _ => True
  | name :: names, a, i =>
    Readable a ∧ ∀ r, entryOf name a i = some r → ReadableAlong names r.1 r.2

/-- A file whose contents are taken for ids. -/
def Misread : DirORfile → Prop
  | .file _ contents _ => ∃ c ∈ contents.take 8, c ≠ 0
  | .dir .. => False

def MisreadAlong : List (List UInt8) → DirORfile → Nat → Prop
  | [], _, _ => False
  | name :: names, a, i =>
    Misread a ∨ Readable a ∧ ∃ r, entryOf name a i = some r ∧ MisreadAlong names r.1 r.2

/-! ## One lookup -/

theorem entryNamed_stored {name : List UInt8} {r : DirORfile × Nat}
    (h : entryNamed name entries i = some r) (hnamed : WellNamedAll entries)
    (hstored : StoredAll built.inbase built.image first last entries i) :
    WellNamed r.1 ∧ Stored built.inbase built.image first last r.1 r.2 ∧ i ≤ r.2 ∧
      r.2 + numinodes r.1 ≤ i + numinodesOf entries := by
  induction entries generalizing i with
  | nil => cases h
  | cons a entries ih =>
      obtain ⟨-, ha, hrest⟩ := hnamed
      rw [entryNamed] at h
      rw [numinodesOf]
      split at h
      · obtain rfl := Option.some.inj h
        exact ⟨ha, hstored.1, Nat.le_refl i, Nat.add_le_add_left (Nat.le_add_right _ _) i⟩
      · obtain ⟨hwell, hst, hle, hroom⟩ := ih h hrest hstored.2
        exact ⟨hwell, hst, by omega, by omega⟩

theorem entryOf_stored {name : List UInt8} {r : DirORfile × Nat} (h : entryOf name a i = some r)
    (hnamed : WellNamed a) (hstored : Stored built.inbase built.image first last a i) :
    WellNamed r.1 ∧ Stored built.inbase built.image first last r.1 r.2 ∧
      r.2 + numinodes r.1 ≤ i + numinodes a := by
  cases a with
  | file fileName contents int => cases h
  | dir dirName entries =>
      obtain ⟨hwell, hst, -, hroom⟩ := entryNamed_stored h hnamed.2 hstored.2
      rw [numinodes]
      exact ⟨hwell, hst, by omega⟩

/-- What a lookup finds, unless it stops or misreads a file. -/
theorem Carries.findEntry_cases {name : List UInt8} (h : Carries root built)
    (hcount : sizeofVnode * numinodes root < 2147483648) (hname : ∀ c ∈ name, c ≠ 0)
    (hnamed : WellNamed a) (hstored : Stored built.inbase built.image first last a i)
    (hi : i + numinodes a ≤ numinodes root) (hv : Agrees v) (hdisc : v.disc = discOf built) :
    (Readable a ∧ ∃ v', findEntry v (.ofPacked (slotBytes v.disc i)) name =
        .ok ((entryOf name a i).map fun r => slotBytes v.disc r.2, v') ∧
        v'.disc = discOf built ∧ Agrees v') ∨
      (¬ Readable a ∧ ∃ e, findEntry v (.ofPacked (slotBytes v.disc i)) name = .error e) ∨
      (¬ Readable a ∧ Misread a) := by
  have hpos := numinodes_pos a
  have hslot : Inode.ofPacked (slotBytes v.disc i) = Files.tableInode built.inbase i := by
    rw [hdisc]
    exact h.tableInode (inTable_of_lt (by omega))
  cases a with
  | file fileName contents int =>
      by_cases hcontents : contents = []
      · subst hcontents
        have hempty : (Files.tableInode built.inbase i).chunklen = 0 := Record.empty hstored
        refine .inr (.inl ⟨fun hr => hr.1 rfl, ?_⟩)
        rw [hslot]
        exact ⟨_, findEntry_stops name hempty⟩
      · by_cases hzero : ∀ c ∈ contents.take 8, c = 0
        · have hfind : findEntry v (.ofPacked (slotBytes v.disc i)) name = .ok (none, v) :=
            h.findEntry_file hstored (by omega) hcontents hzero hdisc
          exact .inl ⟨⟨hcontents, hzero⟩, v, hfind, hdisc, hv⟩
        · obtain ⟨c, hc, hne⟩ : ∃ c ∈ contents.take 8, c ≠ 0 := by
            simpa using hzero
          exact .inr (.inr ⟨fun hr => hzero hr.2, c, hc, hne⟩)
  | dir dirName entries =>
      by_cases hentries : entries = []
      · subst hentries
        have hempty : (Files.tableInode built.inbase i).chunklen = 0 := Record.empty hstored.1
        refine .inr (.inl ⟨fun hr => hr rfl, ?_⟩)
        rw [hslot]
        exact ⟨_, findEntry_stops name hempty⟩
      · rw [numinodes] at hi
        have hfind : findEntry v (.ofPacked (slotBytes v.disc i)) name = _ :=
          h.findEntry_dir hcount hstored (by omega) hentries hnamed.1 hdisc
        obtain ⟨v', hsearch, hdisc', hv'⟩ :=
          h.searchIds hcount hname hnamed.2 hstored.2 (by omega) hv hdisc
        exact .inl ⟨hentries, v', hfind.trans hsearch, hdisc', hv'⟩

/-! ## The lookups of a call -/

theorem Carries.searchPath_ok (h : Carries root built)
    (hcount : sizeofVnode * numinodes root < 2147483648)
    (hnames : ∀ name ∈ names ++ [text], ∀ c ∈ name, c ≠ 0) (hnamed : WellNamed a)
    (hstored : Stored built.inbase built.image first last a i)
    (hi : i + numinodes a ≤ numinodes root) (hv : Agrees v) (hdisc : v.disc = discOf built)
    (halong : ReadableAlong (names ++ [text]) a i) :
    ∃ v', searchPath v (.ofPacked (slotBytes v.disc i)) text names =
      .ok ((follow (names ++ [text]) a i).map (slotBytes v.disc), v') ∧ v'.disc = v.disc := by
  induction names generalizing a i v with
  | nil =>
      have htext := hnames text (List.mem_singleton_self text)
      rcases h.findEntry_cases hcount htext hnamed hstored hi hv hdisc with
        ⟨-, v', hfind, hdisc', -⟩ | ⟨hnot, -⟩ | ⟨hnot, -⟩
      · refine ⟨v', hfind.trans ?_, hdisc'.trans hdisc.symm⟩
        rw [List.nil_append, follow]
        cases entryOf text a i with
        | none => rfl
        | some r => rfl
      · exact absurd halong.1 hnot
      · exact absurd halong.1 hnot
  | cons name names ih =>
      rw [List.cons_append] at hnames halong
      obtain ⟨hname, hrest⟩ := List.forall_mem_cons.mp hnames
      rw [searchPath_cons, List.cons_append, follow]
      rcases h.findEntry_cases hcount hname hnamed hstored hi hv hdisc with
        ⟨-, v', hfind, hdisc', hv'⟩ | ⟨hnot, -⟩ | ⟨hnot, -⟩
      · rw [hfind]
        cases hentry : entryOf name a i with
        | none => exact ⟨v', rfl, hdisc'.trans hdisc.symm⟩
        | some r =>
            obtain ⟨hwell, hst, hroom⟩ := entryOf_stored hentry hnamed hstored
            obtain ⟨v'', hsearch, hdisc''⟩ :=
              ih hrest hwell hst (by omega) hv' hdisc' (halong.2 r hentry)
            rw [hdisc', ← hdisc] at hsearch hdisc''
            exact ⟨v'', hsearch, hdisc''⟩
      · exact absurd halong.1 hnot
      · exact absurd halong.1 hnot

theorem Carries.searchPath_error (h : Carries root built)
    (hcount : sizeofVnode * numinodes root < 2147483648)
    (hnames : ∀ name ∈ names ++ [text], ∀ c ∈ name, c ≠ 0) (hnamed : WellNamed a)
    (hstored : Stored built.inbase built.image first last a i)
    (hi : i + numinodes a ≤ numinodes root) (hv : Agrees v) (hdisc : v.disc = discOf built)
    (halong : ¬ ReadableAlong (names ++ [text]) a i) (hmisread : ¬ MisreadAlong (names ++ [text]) a i) :
    ∃ e, searchPath v (.ofPacked (slotBytes v.disc i)) text names = .error e := by
  induction names generalizing a i v with
  | nil =>
      have htext := hnames text (List.mem_singleton_self text)
      rcases h.findEntry_cases hcount htext hnamed hstored hi hv hdisc with
        ⟨hread, -⟩ | ⟨-, e, hfind⟩ | ⟨-, hmis⟩
      · exact absurd ⟨hread, fun r _ => trivial⟩ halong
      · exact ⟨e, hfind⟩
      · exact absurd (.inl hmis) hmisread
  | cons name names ih =>
      rw [List.cons_append] at hnames halong hmisread
      obtain ⟨hname, hrest⟩ := List.forall_mem_cons.mp hnames
      rw [searchPath_cons]
      rcases h.findEntry_cases hcount hname hnamed hstored hi hv hdisc with
        ⟨hread, v', hfind, hdisc', hv'⟩ | ⟨-, e, hfind⟩ | ⟨-, hmis⟩
      · rw [hfind]
        cases hentry : entryOf name a i with
        | none =>
            refine absurd ⟨hread, fun r hr => ?_⟩ halong
            rw [hentry] at hr
            cases hr
        | some r =>
            obtain ⟨hwell, hst, hroom⟩ := entryOf_stored hentry hnamed hstored
            have halong' : ¬ ReadableAlong (names ++ [text]) r.1 r.2 := by
              intro hr
              refine halong ⟨hread, fun r' hr' => ?_⟩
              obtain rfl := Option.some.inj (hentry.symm.trans hr')
              exact hr
            have hmisread' : ¬ MisreadAlong (names ++ [text]) r.1 r.2 :=
              fun hr => hmisread (.inr ⟨hread, r, hentry, hr⟩)
            obtain ⟨e, hsearch⟩ := ih hrest hwell hst (by omega) hv' hdisc' halong' hmisread'
            rw [hdisc', ← hdisc] at hsearch
            exact ⟨e, hsearch⟩
      · exact ⟨e, by rw [hfind]; rfl⟩
      · exact absurd (.inl hmis) hmisread

/-! ## What slashes do to the names -/

/-- One slash in front of every directory. -/
def SingleSlashes (dirs : List Part) : Prop := ∀ part ∈ dirs, part.slashes = 0

theorem names_of_single {part : Part} (h : part.slashes = 0) : part.names = [part.name] := by
  rw [Part.names, h]
  rfl

theorem take_pathNames_single {dirs rest : List Part} (h : SingleSlashes dirs) :
    (pathNames (dirs ++ rest)).take dirs.length = dirs.map Part.name := by
  induction dirs with
  | nil => rfl
  | cons part dirs ih =>
      obtain ⟨hpart, hdirs⟩ := List.forall_mem_cons.mp h
      rw [List.cons_append, pathNames_cons, names_of_single hpart, List.length_cons,
        List.singleton_append, List.take_succ_cons, ih hdirs, List.map_cons]

theorem nil_mem_take_pathNames {dirs rest : List Part} (h : ¬ SingleSlashes dirs) :
    [] ∈ (pathNames (dirs ++ rest)).take dirs.length := by
  induction dirs with
  | nil => exact absurd (fun part hpart => absurd hpart List.not_mem_nil) h
  | cons part dirs ih =>
      rw [List.cons_append, pathNames_cons, List.length_cons]
      by_cases hpart : part.slashes = 0
      · have hdirs : ¬ SingleSlashes dirs := by
          intro hdirs
          exact h (List.forall_mem_cons.mpr ⟨hpart, hdirs⟩)
        rw [names_of_single hpart, List.singleton_append, List.take_succ_cons]
        exact List.mem_cons_of_mem _ (ih hdirs)
      · obtain ⟨k, hk⟩ := Nat.exists_eq_succ_of_ne_zero hpart
        rw [Part.names, hk, List.replicate_succ, List.cons_append, List.cons_append,
          List.take_succ_cons]
        exact List.mem_cons_self ..

/-- No entry has an empty name. -/
theorem entryNamed_nil (hnamed : WellNamedAll entries) : entryNamed [] entries i = none := by
  induction entries generalizing i with
  | nil => rfl
  | cons a entries ih =>
      obtain ⟨hgood, -, hrest⟩ := hnamed
      have hne : a.name ≠ [] := List.length_pos_iff.mp hgood.1
      rw [entryNamed, if_neg hne, ih hrest]

theorem entryNamed_wellNamed {name : List UInt8} {r : DirORfile × Nat}
    (h : entryNamed name entries i = some r) (hnamed : WellNamedAll entries) : WellNamed r.1 := by
  induction entries generalizing i with
  | nil => cases h
  | cons a entries ih =>
      obtain ⟨-, ha, hrest⟩ := hnamed
      rw [entryNamed] at h
      split at h
      · obtain rfl := Option.some.inj h
        exact ha
      · exact ih h hrest

theorem follow_of_nil_mem (hnamed : WellNamed a) (h : [] ∈ names) : follow names a i = none := by
  induction names generalizing a i with
  | nil => cases h
  | cons name names ih =>
      rw [follow]
      cases a with
      | file fileName contents int => rfl
      | dir dirName entries =>
          by_cases hname : name = []
          · rw [hname, entryOf, entryNamed_nil hnamed.2]
            rfl
          · have hmem : [] ∈ names := (List.mem_cons.mp h).resolve_left (Ne.symm hname)
            cases hentry : entryNamed name entries (i + 1) with
            | none => rw [entryOf, hentry]; rfl
            | some r =>
                rw [entryOf, hentry]
                exact ih (entryNamed_wellNamed hentry hnamed.2) hmem

/-! ## Lookups from the root -/

/-- The names of the components. -/
def componentNames (dirs : List Part) (last : Part) : List (List UInt8) :=
  dirs.map Part.name ++ [last.name]

/-- The lookups come to the inode that the components lead to, or to `NULL` if they lead nowhere. -/
def Leads (v : Volume) (root : DirORfile) (dirs : List Part) (last : Part) : Prop :=
  ∃ v', searchPath v (.ofPacked (slotBytes v.disc 0)) last.name (lookedUp dirs last) =
    .ok ((follow (componentNames dirs last) root 0).map (slotBytes v.disc), v')

/-- What is looked up can be read as directories all the way, and where more slashes than one come
before a directory there is nothing to be found anyway. -/
structure Legible (root : DirORfile) (dirs : List Part) (last : Part) : Prop where
  readable : ReadableAlong (lookedUp dirs last ++ [last.name]) root 0
  slashes : SingleSlashes dirs ∨ follow (componentNames dirs last) root 0 = none

theorem lookedUp_no_zero (dirs : List Part) (last : Part) :
    ∀ name ∈ lookedUp dirs last ++ [last.name], ∀ c ∈ name, c ≠ 0 := by
  intro name hname
  rcases List.mem_append.mp hname with hdirs | hlast
  · have hmem := List.mem_of_mem_take hdirs
    rw [pathNames, List.mem_flatMap] at hmem
    obtain ⟨part, -, hpart⟩ := hmem
    rcases List.mem_append.mp hpart with hempty | hpartName
    · rw [(List.mem_replicate.mp hempty).2]
      exact fun c hc => absurd hc List.not_mem_nil
    · rw [List.mem_singleton.mp hpartName]
      exact part.no_zero
  · rw [List.mem_singleton.mp hlast]
    exact last.no_zero

/-- The names that are looked up lead where the components lead if no slash is in the way. -/
theorem follow_lookedUp {α : Type} {dirs : List Part} {last : Part} (hnamed : WellNamed root)
    (f : Nat → α) :
    (follow (lookedUp dirs last ++ [last.name]) root 0).map f =
        (follow (componentNames dirs last) root 0).map f ↔
      SingleSlashes dirs ∨ follow (componentNames dirs last) root 0 = none := by
  by_cases hsingle : SingleSlashes dirs
  · apply iff_of_true _ (.inl hsingle)
    rw [lookedUp, take_pathNames_single hsingle, componentNames]
  · have hmem : [] ∈ lookedUp dirs last ++ [last.name] :=
      List.mem_append_left _ (nil_mem_take_pathNames hsingle)
    rw [follow_of_nil_mem hnamed hmem]
    constructor
    · exact fun h => .inr (Option.map_eq_none_iff.mp h.symm)
    · intro h
      rw [h.resolve_left hsingle]

/-- What a call returns when it can read what it looks into. -/
theorem Carries.lookup_eq (h : Carries root built) (hcount : sizeofVnode * numinodes root < 2147483648)
    (hnamed : WellNamed root) (hv : Agrees v) (hdisc : v.disc = discOf built) {dirs : List Part}
    {last : Part} {filename : Filename} (hspells : Spells filename (pathText (dirs ++ [last])))
    (hshort : (pathText (dirs ++ [last])).length < intRange)
    (halong : ReadableAlong (lookedUp dirs last ++ [last.name]) root 0) :
    ∃ v', getFileFromFilename v (.ofPacked (slotBytes v.disc 0)) filename =
      .ok ((follow (lookedUp dirs last ++ [last.name]) root 0).map (slotBytes v.disc), v') ∧
      v'.disc = v.disc := by
  rw [getFileFromFilename_parts hspells hshort]
  exact h.searchPath_ok hcount (lookedUp_no_zero dirs last) hnamed h.tree
    (Nat.le_of_eq (Nat.zero_add _)) hv hdisc halong

/-- The lookups lead where they should if they can be read, and if they cannot they do not, unless the
contents of a file have been taken for ids on the way. -/
theorem Carries.leads_of_legible (h : Carries root built)
    (hcount : sizeofVnode * numinodes root < 2147483648) (hnamed : WellNamed root) (hv : Agrees v)
    (hdisc : v.disc = discOf built) {dirs : List Part} {last : Part}
    (hlegible : Legible root dirs last) : Leads v root dirs last := by
  obtain ⟨v', hsearch, -⟩ := h.searchPath_ok hcount (lookedUp_no_zero dirs last) hnamed h.tree
    (Nat.le_of_eq (Nat.zero_add _)) hv hdisc hlegible.readable
  refine ⟨v', ?_⟩
  rw [hsearch, (follow_lookedUp hnamed _).mpr hlegible.slashes]

theorem Carries.legible_of_leads (h : Carries root built)
    (hcount : sizeofVnode * numinodes root < 2147483648) (hnamed : WellNamed root) (hv : Agrees v)
    (hdisc : v.disc = discOf built) {dirs : List Part} {last : Part}
    (hleads : Leads v root dirs last) : Legible root dirs last ∨
      MisreadAlong (lookedUp dirs last ++ [last.name]) root 0 := by
  obtain ⟨v', hfound⟩ := hleads
  have hroom : 0 + numinodes root ≤ numinodes root := Nat.le_of_eq (Nat.zero_add _)
  by_cases halong : ReadableAlong (lookedUp dirs last ++ [last.name]) root 0
  · obtain ⟨v'', hsearch, -⟩ := h.searchPath_ok hcount (lookedUp_no_zero dirs last) hnamed h.tree
      hroom hv hdisc halong
    rw [hsearch] at hfound
    have hsame := (Prod.mk.inj (Except.ok.inj hfound)).1
    exact .inl ⟨halong, (follow_lookedUp hnamed _).mp hsame⟩
  · by_cases hmisread : MisreadAlong (lookedUp dirs last ++ [last.name]) root 0
    · exact .inr hmisread
    · obtain ⟨e, hsearch⟩ := h.searchPath_error hcount (lookedUp_no_zero dirs last) hnamed
        h.tree hroom hv hdisc halong hmisread
      rw [hsearch] at hfound
      cases hfound

/-! ## Whole calls -/

variable {A : Allocator} {s : Store}

/-- The call returns the inode that the components lead to in a live block, or `NULL` if they lead
nowhere. -/
def Decides (A : Allocator) (s : Store) (root : DirORfile) (filename : Filename)
    (dirs : List Part) (last : Part) : Prop :=
  ∃ r s', s.getFileFromFilename A (.ofPacked (slotBytes s.volume.disc 0)) filename = .ok (r, s') ∧
    r.map Prod.fst = (follow (componentNames dirs last) root 0).map (slotBytes s.volume.disc) ∧
    ∀ n ∈ r, n.2 ∈ s'.live.blocks

/-- Besides, no second directory is found on the way. -/
structure Unhindered (root : DirORfile) (dirs : List Part) (last : Part) : Prop
    extends Legible root dirs last where
  short : (pathText (dirs ++ [last])).length < intRange
  shallow : dirs.length ≤ 1 ∨ follow ((lookedUp dirs last).take 2) root 0 = none

section Calls

variable {basedir : Inode} {filename : Filename} {dirs : List Part} {last : Part}

/-- When the path has been taken apart. -/
theorem getFileFromFilename_begun (A : Allocator) (s : Store) (basedir : Inode)
    (hspells : Spells filename (pathText (dirs ++ [last])))
    (hshort : (pathText (dirs ++ [last])).length < intRange) :
    ∃ ps array nameBlock curdir m t, s.getFileFromFilename A basedir filename =
        (Store.walk A (lookedUp dirs last) basedir curdir none t >>=
          Store.afterWalk A last.name m ps array nameBlock) ∧
      t.volume = s.volume ∧
      During s t (curdir :: nameBlock :: (ps.reverse ++ array.toList)) m := by
  obtain ⟨htext, hruns, i, hstart, hname⟩ := pathText_scans hspells hshort
  obtain ⟨ps, array, nameBlock, curdir, m, t, hcall, hvolume, -, hduring⟩ :=
    getFileFromFilename_entered A s basedir htext hruns hstart
  rw [hname, Nat.add_sub_cancel, directoriesOf_pathText] at hcall
  exact ⟨ps, array, nameBlock, curdir, m, t, hcall, hvolume, hduring⟩

/-- With at most one directory the call returns what its lookups come to. -/
theorem getFileFromFilename_shallow (A : Allocator) (s : Store) (basedir : Inode)
    (hspells : Spells filename (pathText (dirs ++ [last])))
    (hshort : (pathText (dirs ++ [last])).length < intRange)
    (hone : (lookedUp dirs last).length ≤ 1) :
    ∃ m, Looked s m (searchPath s.volume basedir last.name (lookedUp dirs last))
      (s.getFileFromFilename A basedir filename) := by
  obtain ⟨ps, array, nameBlock, curdir, m, t, hcall, hvolume, hduring⟩ :=
    getFileFromFilename_begun A s basedir hspells hshort
  refine ⟨m, ?_⟩
  rw [hcall]
  generalize lookedUp dirs last = directories at hone
  match directories, hone with
  | [], _ =>
      have hlooked := lookupLast_looked A last.name basedir (hduring.perm entered_perm)
      rw [hvolume] at hlooked
      exact hlooked
  | [directory], _ =>
      have hfirst := walk_first A directory [] basedir hduring
      rw [hvolume] at hfirst
      rw [searchPath_cons]
      rcases hfirst with ⟨e, hfind, hwalk⟩ | ⟨v', t', hfind, hwalk, hgrown⟩ |
        ⟨a, v', n, t', hfind, hwalk, hvolume', hduring'⟩
      · rw [hfind, hwalk]
        exact .halt e
      · rw [hfind, hwalk]
        exact .missed hgrown
      · have hlooked := lookupLast_looked A last.name (.ofPacked a) (hduring'.perm entered_perm)
        rw [hvolume'] at hlooked
        rw [hfind, hwalk]
        exact hlooked

/-- With more of them it ends in the first two: it returns `NULL` when one of these is missing. -/
theorem getFileFromFilename_deep (A : Allocator) (s : Store) (basedir : Inode)
    (hspells : Spells filename (pathText (dirs ++ [last])))
    (hshort : (pathText (dirs ++ [last])).length < intRange) {first second : List UInt8}
    {directories : List (List UInt8)} (htwo : lookedUp dirs last = first :: second :: directories) :
    ((∃ v', searchPath s.volume basedir second [first] = .ok (none, v')) ∧
        (∃ v', searchPath s.volume basedir last.name (lookedUp dirs last) = .ok (none, v')) ∧
        ∃ s', s.getFileFromFilename A basedir filename = .ok (none, s')) ∨
      ((∀ v', searchPath s.volume basedir second [first] ≠ .ok (none, v')) ∧
        ∃ e, s.getFileFromFilename A basedir filename = .error e) := by
  obtain ⟨ps, array, nameBlock, curdir, m, t, hcall, hvolume, hduring⟩ :=
    getFileFromFilename_begun A s basedir hspells hshort
  have hfirst := walk_first A first (second :: directories) basedir hduring
  rw [hvolume] at hfirst
  rw [hcall, htwo, searchPath_cons, searchPath_cons]
  rcases hfirst with ⟨e, hfind, hwalk⟩ | ⟨v', t', hfind, hwalk, -⟩ |
    ⟨a, v', n, t', hfind, hwalk, hvolume', hduring'⟩
  · rw [hfind, hwalk]
    exact .inr ⟨fun _ h => (nomatch h), _, rfl⟩
  · rw [hfind, hwalk]
    exact .inl ⟨⟨v', rfl⟩, ⟨v', rfl⟩, t', rfl⟩
  · -- the first directory has been found
    have hsecond := walk_second A second directories (.ofPacked a) hduring'
    rw [hvolume'] at hsecond
    rw [hfind, hwalk, ok_bind, ok_bind]
    change (_ ∧ (∃ w, searchPath v' (.ofPacked a) last.name (second :: directories) =
      .ok (none, w)) ∧ _) ∨ _
    rw [searchPath_cons]
    rcases hsecond with ⟨e, hfind', hwalk'⟩ | ⟨v'', t'', hfind', hwalk', -⟩ |
      ⟨a', v'', n', t'', hfind', hwalk', hfreed⟩
    · rw [hwalk']
      refine .inr ⟨fun w h => ?_, _, rfl⟩
      cases hfind'.symm.trans h
    · rw [hwalk', hfind']
      exact .inl ⟨⟨v'', hfind'⟩, ⟨v'', rfl⟩, t'', rfl⟩
    · refine .inr ⟨fun w h => ?_, ?_⟩
      · cases hfind'.symm.trans h
      · rcases hwalk' with hdead | hnext
        · exact ⟨_, by rw [hdead]; rfl⟩
        · exact ⟨_, by rw [hnext, walk_dead A hfreed]⟩

/-- What a call returns is what its lookups come to, in a block that is live. -/
theorem Looked.returns {m : Nat} {x : Except Halt (Option (List UInt8) × Volume)}
    {y : Except Fault (Option (List UInt8 × Nat) × Store)} (h : Looked s m x y)
    (r : Option (List UInt8)) : (∃ v', x = .ok (r, v')) ↔
      ∃ n s', y = .ok (n, s') ∧ n.map Prod.fst = r ∧ ∀ p ∈ n, p.2 ∈ s'.live.blocks := by
  cases h with
  | halt e =>
      apply iff_of_false
      · rintro ⟨v', h⟩
        cases h
      · rintro ⟨n, s', h, -⟩
        cases h
  | @found a v' n t live hvolume hgrown hfresh hblocks hpages =>
      constructor
      · rintro ⟨v'', hx⟩
        obtain ⟨rfl, -⟩ := Prod.mk.inj (Except.ok.inj hx)
        refine ⟨_, _, rfl, rfl, fun p hp => ?_⟩
        obtain rfl := Option.some.inj hp
        change n ∈ live.blocks
        rw [hblocks]
        exact Finset.mem_union_right _ (Finset.mem_singleton_self n)
      · rintro ⟨n', s', hy, hr, -⟩
        obtain ⟨rfl, -⟩ := Prod.mk.inj (Except.ok.inj hy)
        exact ⟨v', by rw [← hr]; rfl⟩
  | @missed v' t hgrown =>
      constructor
      · rintro ⟨v'', hx⟩
        obtain ⟨rfl, -⟩ := Prod.mk.inj (Except.ok.inj hx)
        exact ⟨none, t, rfl, rfl, nofun⟩
      · rintro ⟨n', s', hy, hr, -⟩
        obtain ⟨rfl, -⟩ := Prod.mk.inj (Except.ok.inj hy)
        exact ⟨v', by rw [← hr]; rfl⟩

theorem length_lookedUp (dirs : List Part) (last : Part) :
    (lookedUp dirs last).length = dirs.length := by
  have hlen := le_length_pathNames (dirs ++ [last])
  rw [List.length_append, List.length_singleton] at hlen
  rw [lookedUp, List.length_take]
  omega

theorem decides_iff_of_shallow (A : Allocator) (s : Store) (root : DirORfile)
    (hspells : Spells filename (pathText (dirs ++ [last])))
    (hshort : (pathText (dirs ++ [last])).length < intRange) (hone : dirs.length ≤ 1) :
    Decides A s root filename dirs last ↔ Leads s.volume root dirs last := by
  obtain ⟨m, hlooked⟩ := getFileFromFilename_shallow A s (.ofPacked (slotBytes s.volume.disc 0))
    hspells hshort (by rw [length_lookedUp]; exact hone)
  exact (hlooked.returns _).symm

/-- With two directories or more the call returns only if the first two lead nowhere. -/
theorem decides_iff_of_deep (A : Allocator) (s : Store) (root : DirORfile)
    (hspells : Spells filename (pathText (dirs ++ [last])))
    (hshort : (pathText (dirs ++ [last])).length < intRange) {first second : List UInt8}
    {directories : List (List UInt8)} (htwo : lookedUp dirs last = first :: second :: directories) :
    Decides A s root filename dirs last ↔ Leads s.volume root dirs last ∧
      ∃ v', searchPath s.volume (.ofPacked (slotBytes s.volume.disc 0)) second [first] =
        .ok (none, v') := by
  rcases getFileFromFilename_deep A s (.ofPacked (slotBytes s.volume.disc 0)) hspells hshort htwo
    with ⟨hmissed, ⟨v', hsearch⟩, s', hcall⟩ | ⟨hnot, e, hcall⟩
  · rw [and_iff_left hmissed]
    constructor
    · rintro ⟨r, s'', hr, hmap, -⟩
      obtain ⟨rfl, -⟩ := Prod.mk.inj (Except.ok.inj (hcall.symm.trans hr))
      exact ⟨v', by rw [hsearch, ← hmap]; rfl⟩
    · rintro ⟨v'', hleads⟩
      obtain ⟨hnone, -⟩ := Prod.mk.inj (Except.ok.inj (hsearch.symm.trans hleads))
      exact ⟨none, s', hcall, hnone, nofun⟩
  · apply iff_of_false
    · rintro ⟨r, s'', hr, -⟩
      cases hcall.symm.trans hr
    · rintro ⟨-, v', hsearch⟩
      exact hnot v' hsearch

end Calls

section Image

variable {image : Nat → UInt8} {flll : UInt64} {dirs : List Part} {last : Part}
  {filename : Filename}

/-- Where the first two names of a longer list lead. -/
theorem Carries.searchPath_two (h : Carries root built)
    (hcount : sizeofVnode * numinodes root < 2147483648) (hnamed : WellNamed root) (hv : Agrees v)
    (hdisc : v.disc = discOf built) {first second : List UInt8} {rest : List (List UInt8)}
    (hnames : ∀ name ∈ first :: second :: rest, ∀ c ∈ name, c ≠ 0)
    (halong : ReadableAlong (first :: second :: rest) root 0) :
    (∃ v', searchPath v (.ofPacked (slotBytes v.disc 0)) second [first] = .ok (none, v')) ↔
      follow [first, second] root 0 = none := by
  have htwo : ReadableAlong [first, second] root 0 :=
    ⟨halong.1, fun r hr => ⟨(halong.2 r hr).1, fun _ _ => trivial⟩⟩
  have hlooked : ∀ name ∈ [first] ++ [second], ∀ c ∈ name, c ≠ 0 :=
    fun name hname => hnames name (List.mem_of_mem_take (i := 2) hname)
  obtain ⟨v', hsearch, -⟩ := h.searchPath_ok hcount hlooked hnamed h.tree
    (Nat.le_of_eq (Nat.zero_add _)) hv hdisc htwo
  constructor
  · rintro ⟨v'', hnone⟩
    obtain ⟨hmap, -⟩ := Prod.mk.inj (Except.ok.inj (hsearch.symm.trans hnone))
    exact Option.map_eq_none_iff.mp hmap
  · intro hnone
    rw [List.singleton_append, hnone] at hsearch
    exact ⟨v', hsearch⟩

theorem two_lookedUp (h : ¬ dirs.length ≤ 1) (last : Part) :
    ∃ first second directories, lookedUp dirs last = first :: second :: directories := by
  have hlen := length_lookedUp dirs last
  match lookedUp dirs last, hlen with
  | [], hlen =>
      rw [List.length_nil] at hlen
      omega
  | [_], hlen =>
      rw [List.length_singleton] at hlen
      omega
  | first :: second :: directories, _ => exact ⟨first, second, directories, rfl⟩

theorem decides_of_unhindered (hbuilt : buildImage root image flll = some built)
    (hnamed : WellNamed root) (hv : Agrees s.volume) (hdisc : s.volume.disc = discOf built)
    (hspells : Spells filename (pathText (dirs ++ [last]))) (hcond : Unhindered root dirs last) :
    Decides A s root filename dirs last := by
  have hcarries := buildImage_carries hbuilt
  have hcount := buildImage_inodes hbuilt
  have hleads := hcarries.leads_of_legible hcount hnamed hv hdisc hcond.toLegible
  by_cases hone : dirs.length ≤ 1
  · exact (decides_iff_of_shallow A s root hspells hcond.short hone).mpr hleads
  · obtain ⟨first, second, directories, htwo⟩ := two_lookedUp hone last
    have hnames := lookedUp_no_zero dirs last
    have hreadable := hcond.readable
    have hnone := hcond.shallow.resolve_left hone
    rw [htwo] at hnames hreadable hnone
    exact (decides_iff_of_deep A s root hspells hcond.short htwo).mpr
      ⟨hleads, (hcarries.searchPath_two hcount hnamed hv hdisc hnames hreadable).mpr hnone⟩

theorem unhindered_of_decides (hbuilt : buildImage root image flll = some built)
    (hnamed : WellNamed root) (hv : Agrees s.volume) (hdisc : s.volume.disc = discOf built)
    (hspells : Spells filename (pathText (dirs ++ [last])))
    (hdecides : Decides A s root filename dirs last) : Unhindered root dirs last ∨
      MisreadAlong (lookedUp dirs last ++ [last.name]) root 0 := by
  have hcarries := buildImage_carries hbuilt
  have hcount := buildImage_inodes hbuilt
  by_cases hshort : (pathText (dirs ++ [last])).length < intRange
  case neg =>
    obtain ⟨e, hlong⟩ := textFrom_long hspells (Nat.not_lt.mp hshort)
    obtain ⟨r, s', hcall, -⟩ := hdecides
    rw [Store.getFileFromFilename, hlong] at hcall
    cases hcall
  case pos =>
    by_cases hone : dirs.length ≤ 1
    · have hleads := (decides_iff_of_shallow A s root hspells hshort hone).mp hdecides
      exact (hcarries.legible_of_leads hcount hnamed hv hdisc hleads).imp_left
        fun hlegible => ⟨hlegible, hshort, .inl hone⟩
    · obtain ⟨first, second, directories, htwo⟩ := two_lookedUp hone last
      obtain ⟨hleads, hmissed⟩ := (decides_iff_of_deep A s root hspells hshort htwo).mp hdecides
      refine (hcarries.legible_of_leads hcount hnamed hv hdisc hleads).imp_left fun hlegible =>
        ⟨hlegible, hshort, .inr ?_⟩
      have hnames := lookedUp_no_zero dirs last
      have hreadable := hlegible.readable
      rw [htwo] at hnames hreadable ⊢
      exact (hcarries.searchPath_two hcount hnamed hv hdisc hnames hreadable).mp hmissed

end Image

/-- A lookup in a built image is decided if the conditions hold, and if they do not it is not, unless
the contents of a file have been taken for ids on the way. -/
theorem path_decided (root : DirORfile) (image : Nat → UInt8) (flll : UInt64) (built : Builder)
    (hbuilt : buildImage root image flll = some built) (hnamed : WellNamed root) (A : Allocator)
    (s : Store) (hv : Agrees s.volume) (hdisc : s.volume.disc = discOf built) (dirs : List Part)
    (last : Part) (filename : Filename) (hspells : Spells filename (pathText (dirs ++ [last]))) :
    (Unhindered root dirs last → Decides A s root filename dirs last) ∧
      (Decides A s root filename dirs last → Unhindered root dirs last ∨
        MisreadAlong (lookedUp dirs last ++ [last.name]) root 0) :=
  ⟨decides_of_unhindered hbuilt hnamed hv hdisc hspells,
    unhindered_of_decides hbuilt hnamed hv hdisc hspells⟩

theorem twoBytes_int : ([0x68, 0x69] : List UInt8).length < 2147483648 := by decide

/-- A root directory with one directory, and a file of two bytes in it. -/
def twoLevels : DirORfile := .dir [] [.dir [0x64] [.file [0x66] [0x68, 0x69] twoBytes_int]]

theorem twoLevels_wellNamed : WellNamed twoLevels := by
  have hd : GoodName [0x64] := ⟨by decide, by decide, by simp⟩
  have hf : GoodName [0x66] := ⟨by decide, by decide, by simp⟩
  exact ⟨by decide, hd, ⟨by decide, hf, trivial, trivial⟩, trivial⟩

theorem twoLevels_isSome : (buildImage twoLevels (fun _ => 0) 1474560).isSome := by decide

/-- A component of one character. -/
def letter (slashes : Nat) (c : UInt8) (hc : c ≠ 0x2f ∧ c ≠ 0) : Part where
  slashes
  name := [c]
  nonempty := List.cons_ne_nil c []
  no_slash := by
    intro d hd
    rw [List.mem_singleton.mp hd]
    exact hc.1
  no_zero := by
    intro d hd
    rw [List.mem_singleton.mp hd]
    exact hc.2

def partD (slashes : Nat) : Part := letter slashes 0x64 (by decide)

def partF : Part := letter 0 0x66 (by decide)

theorem twoLevels_unhindered : Unhindered twoLevels [partD 0] partF where
  short := by decide
  readable := by
    refine ⟨List.cons_ne_nil _ _, fun r hr => ?_⟩
    obtain rfl := Option.some.inj hr
    exact ⟨List.cons_ne_nil _ _, fun _ _ => trivial⟩
  slashes := .inl (by
    intro part hpart
    rw [List.mem_singleton.mp hpart]
    rfl)
  shallow := .inl (Nat.le_refl 1)

/-- The file is found by its path. -/
theorem twoLevels_decided : ∃ b, buildImage twoLevels (fun _ => 0) 1474560 = some b ∧
    Unhindered twoLevels [partD 0] partF ∧
    Decides bumping (freshStore (discOf b)) twoLevels (pathOf (pathText [partD 0, partF]))
      [partD 0] partF := by
  obtain ⟨b, hb⟩ := Option.isSome_iff_exists.mp twoLevels_isSome
  have hspells : Spells (pathOf (pathText [partD 0, partF])) (pathText ([partD 0] ++ [partF])) :=
    pathOf_spells (pathText_no_zero _)
  exact ⟨b, hb, twoLevels_unhindered, (path_decided twoLevels _ _ b hb twoLevels_wellNamed bumping
    (freshStore (discOf b)) (agrees_null (discOf b)) rfl [partD 0] partF _ hspells).1
    twoLevels_unhindered⟩

/-- With a second slash in front of the directory it is not. -/
theorem double_slash_not_found : ∃ b, buildImage twoLevels (fun _ => 0) 1474560 = some b ∧
    follow (componentNames [partD 1] partF) twoLevels 0 = some 2 ∧
    ¬ Decides bumping (freshStore (discOf b)) twoLevels (pathOf (pathText [partD 1, partF]))
      [partD 1] partF := by
  obtain ⟨b, hb⟩ := Option.isSome_iff_exists.mp twoLevels_isSome
  have hspells : Spells (pathOf (pathText [partD 1, partF])) (pathText ([partD 1] ++ [partF])) :=
    pathOf_spells (pathText_no_zero _)
  refine ⟨b, hb, rfl, fun hdecides => ?_⟩
  rcases unhindered_of_decides (A := bumping) (s := freshStore (discOf b)) hb twoLevels_wellNamed
    (agrees_null (discOf b)) rfl hspells hdecides with hcond | hmisread
  · rcases hcond.slashes with hsingle | hnone
    · exact absurd (hsingle _ (List.mem_singleton_self _)) (by decide)
    · cases hnone
  · rcases hmisread with hfile | ⟨-, r, hentry, -⟩
    · exact hfile
    · cases hentry

end UnnamedOS.Files
