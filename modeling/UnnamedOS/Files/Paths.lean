import UnnamedOS.Files.Lookup

/-!
# Paths of many components

The three scans of a path, for a path with any number of slashes in front of each component. The
first counts runs of slashes, the second ends a directory at every slash, and the last goes back from
the end.
-/

namespace UnnamedOS.Files

open UnnamedOS.Lib

/-- A component, and the slashes in front of it but one. -/
structure Part where
  slashes : Nat
  name : List UInt8
  nonempty : name ≠ []
  no_slash : ∀ c ∈ name, c ≠ 0x2f
  no_zero : ∀ c ∈ name, c ≠ 0

namespace Part

/-- The text without its first slash. -/
def tail (part : Part) : List UInt8 := List.replicate part.slashes 0x2f ++ part.name

def text (part : Part) : List UInt8 := 0x2f :: part.tail

/-- What stands between the slashes. -/
def names (part : Part) : List (List UInt8) := List.replicate part.slashes [] ++ [part.name]

end Part

/-- The path that the parts spell. -/
def pathText (parts : List Part) : List UInt8 := parts.flatMap Part.text

/-- What stands between the slashes of the whole path. -/
def pathNames (parts : List Part) : List (List UInt8) := parts.flatMap Part.names

variable {parts dirs : List Part} {part last : Part} {p rest name : List UInt8} {k m : Nat}
  {filename : Filename}

theorem pathText_cons (part : Part) (parts : List Part) :
    pathText (part :: parts) = part.text ++ pathText parts := List.flatMap_cons

theorem pathNames_cons (part : Part) (parts : List Part) :
    pathNames (part :: parts) = part.names ++ pathNames parts := List.flatMap_cons

theorem pathText_no_zero (parts : List Part) : ∀ c ∈ pathText parts, c ≠ 0 := by
  intro c hc
  rw [pathText, List.mem_flatMap] at hc
  obtain ⟨part, -, hpart⟩ := hc
  rw [Part.text, Part.tail, List.mem_cons, List.mem_append] at hpart
  rcases hpart with rfl | hslash | hname
  · decide
  · rw [(List.mem_replicate.mp hslash).2]
    decide
  · exact part.no_zero c hname

theorem length_names (part : Part) : part.names.length = part.slashes + 1 := by
  rw [Part.names, List.length_append, List.length_replicate, List.length_singleton]

theorem le_length_pathNames (parts : List Part) : parts.length ≤ (pathNames parts).length := by
  induction parts with
  | nil => exact Nat.le_refl 0
  | cons part parts ih =>
      rw [pathNames_cons, List.length_append, length_names, List.length_cons]
      omega

/-! ## Counting the runs -/

theorem slashRuns_slashes (k : Nat) (p : List UInt8) :
    slashRuns (List.replicate k 0x2f ++ p) true = slashRuns p true := by
  induction k with
  | zero => rfl
  | succ k ih =>
      rw [List.replicate_succ, List.cons_append, slashRuns, if_pos rfl, ih]
      cases slashRuns p true with
      | error e => rfl
      | ok n => rfl

theorem slashRuns_name (hslash : ∀ c ∈ name, c ≠ 0x2f) (p : List UInt8) :
    slashRuns (name ++ p) false = slashRuns p false := by
  induction name with
  | nil => rfl
  | cons c name ih =>
      obtain ⟨hc, hrest⟩ := List.forall_mem_cons.mp hslash
      rw [List.cons_append, slashRuns, if_neg hc, ih hrest]

theorem slashRuns_part (part : Part) (p : List UInt8) :
    slashRuns (part.text ++ p) false = (slashRuns p false).map (· + 1) := by
  have hname : slashRuns (part.name ++ p) true = slashRuns p false := by
    cases hcons : part.name with
    | nil => exact absurd hcons part.nonempty
    | cons c name =>
        have hslash := part.no_slash
        rw [hcons] at hslash
        obtain ⟨hc, hrest⟩ := List.forall_mem_cons.mp hslash
        rw [List.cons_append, slashRuns, if_neg hc, slashRuns_name hrest]
  rw [Part.text, List.cons_append, slashRuns, if_pos rfl, Part.tail, List.append_assoc,
    slashRuns_slashes, hname]
  rfl

theorem slashRuns_pathText (parts : List Part) :
    slashRuns (pathText parts) false = .ok parts.length := by
  induction parts with
  | nil => rfl
  | cons part parts ih =>
      rw [pathText_cons, slashRuns_part, ih]
      rfl

/-! ## The directories -/

theorem takeWhile_slash (hslash : ∀ c ∈ name, c ≠ 0x2f) (rest : List UInt8) :
    (name ++ 0x2f :: rest).takeWhile (· ≠ 0x2f) = name ∧
      (name ++ 0x2f :: rest).dropWhile (· ≠ 0x2f) = 0x2f :: rest := by
  induction name with
  | nil => exact ⟨rfl, rfl⟩
  | cons c name ih =>
      obtain ⟨hc, hrest⟩ := List.forall_mem_cons.mp hslash
      obtain ⟨htake, hdrop⟩ := ih hrest
      rw [List.cons_append, List.takeWhile_cons_of_pos (by simpa using hc),
        List.dropWhile_cons_of_pos (by simpa using hc), htake, hdrop]
      exact ⟨rfl, rfl⟩

theorem directoriesOf_name (hslash : ∀ c ∈ name, c ≠ 0x2f) (m : Nat) (rest : List UInt8) :
    directoriesOf (m + 1) (name ++ 0x2f :: rest) = name :: directoriesOf m rest := by
  obtain ⟨htake, hdrop⟩ := takeWhile_slash hslash rest
  rw [directoriesOf, htake, hdrop, List.tail_cons]

theorem directoriesOf_slashes (k m : Nat) (p : List UInt8) :
    directoriesOf (k + m) (List.replicate k 0x2f ++ p) =
      List.replicate k [] ++ directoriesOf m p := by
  induction k with
  | zero => rw [Nat.zero_add, List.replicate_zero, List.replicate_zero]; rfl
  | succ k ih =>
      have hempty : ∀ c ∈ ([] : List UInt8), c ≠ 0x2f := nofun
      have hone := directoriesOf_name hempty (k + m) (List.replicate k 0x2f ++ p)
      rw [Nat.add_right_comm, List.replicate_succ, List.replicate_succ, List.cons_append,
        List.cons_append, ← ih]
      exact hone

/-- One part and the text behind it. Only the last part has no slash behind it. -/
theorem directoriesOf_part (part : Part) (parts : List Part) {m : Nat}
    (hm : m < (part.names ++ pathNames parts).length) :
    directoriesOf m (part.tail ++ pathText parts) = (part.names ++ pathNames parts).take m := by
  induction parts generalizing part m with
  | nil =>
      have hm' : m ≤ part.slashes := by
        rw [pathNames, List.flatMap_nil, List.append_nil, length_names] at hm
        omega
      obtain ⟨k, hk⟩ : ∃ k, part.slashes = m + k := ⟨part.slashes - m, by omega⟩
      have hsplit : List.replicate part.slashes (0x2f : UInt8) =
          List.replicate m 0x2f ++ List.replicate k 0x2f := by
        rw [hk, List.replicate_add]
      have htake : (part.names ++ pathNames []).take m = List.replicate m [] := by
        rw [pathNames, List.flatMap_nil, List.append_nil, Part.names, List.take_append_of_le_length
          (by rw [List.length_replicate]; exact hm'), List.take_replicate, Nat.min_eq_left hm']
      have hdirs := directoriesOf_slashes m 0 (List.replicate k 0x2f ++ (part.name ++ pathText []))
      rw [directoriesOf, List.append_nil, Nat.add_zero] at hdirs
      rw [htake, Part.tail, hsplit, List.append_assoc, List.append_assoc, hdirs]
  | cons next parts ih =>
      rw [pathText_cons, Part.text, List.cons_append, pathNames_cons, Part.tail, List.append_assoc]
      rcases Nat.lt_or_ge part.slashes m with hlt | hge
      · obtain ⟨j, rfl⟩ : ∃ j, m = part.slashes + (j + 1) := ⟨m - part.slashes - 1, by omega⟩
        have hj : j < (next.names ++ pathNames parts).length := by
          rw [pathNames_cons, List.length_append, length_names] at hm
          omega
        rw [directoriesOf_slashes, directoriesOf_name part.no_slash, ih next hj]
        generalize next.names ++ pathNames parts = others
        have hall : (List.replicate part.slashes ([] : List UInt8)).take (part.slashes + (j + 1)) =
            List.replicate part.slashes [] :=
          List.take_of_length_le (by rw [List.length_replicate]; omega)
        rw [Part.names, List.append_assoc, List.take_append, List.length_replicate,
          Nat.add_sub_cancel_left, hall]
        rfl
      · obtain ⟨k, hk⟩ : ∃ k, part.slashes = m + k := ⟨part.slashes - m, by omega⟩
        have htake : (part.names ++ (next.names ++ pathNames parts)).take m =
            List.replicate m [] := by
          rw [Part.names, List.append_assoc, List.take_append_of_le_length
            (by rw [List.length_replicate]; exact hge), List.take_replicate, Nat.min_eq_left hge]
        have hdirs := directoriesOf_slashes m 0 (List.replicate k 0x2f ++
          (part.name ++ 0x2f :: (next.tail ++ pathText parts)))
        rw [directoriesOf, List.append_nil, Nat.add_zero] at hdirs
        rw [htake, hk, List.replicate_add, List.append_assoc, hdirs]

/-- The names of the lookups of a call: as many directories as there are runs but one, and the
last component. -/
def lookedUp (dirs : List Part) (last : Part) : List (List UInt8) :=
  (pathNames (dirs ++ [last])).take dirs.length

theorem directoriesOf_pathText (dirs : List Part) (last : Part) :
    directoriesOf dirs.length ((pathText (dirs ++ [last])).drop 1) = lookedUp dirs last := by
  have hlen := le_length_pathNames (dirs ++ [last])
  rw [List.length_append, List.length_singleton] at hlen
  cases dirs with
  | nil => rfl
  | cons part dirs =>
      rw [lookedUp]
      rw [List.cons_append, pathNames_cons] at hlen ⊢
      rw [pathText_cons, Part.text, List.cons_append, List.drop_one, List.tail_cons]
      exact directoriesOf_part part (dirs ++ [last]) (by omega)

/-! ## The last component -/

theorem pathText_last (dirs : List Part) (last : Part) :
    pathText (dirs ++ [last]) =
      (pathText dirs ++ List.replicate last.slashes 0x2f) ++ 0x2f :: last.name := by
  have hslashes : (0x2f : UInt8) :: (List.replicate last.slashes 0x2f ++ last.name) =
      List.replicate last.slashes 0x2f ++ 0x2f :: last.name := by
    rw [← List.cons_append, ← List.replicate_succ, List.replicate_succ', List.append_assoc]
    rfl
  rw [pathText, List.flatMap_append, List.flatMap_singleton, Part.text, Part.tail, hslashes,
    List.append_assoc]
  rfl

theorem Spells.char_at (h : Spells filename (p ++ 0x2f :: name)) (hk : k < name.length) :
    filename ((p.length + 1 + k : Nat) : Int) = name[k] := by
  rw [h.chars (p.length + 1 + k) (by rw [List.length_append, List.length_cons]; omega),
    List.getElem_append_right (by omega)]
  simp only [show p.length + 1 + k - p.length = k + 1 by omega, List.getElem_cons_succ]

theorem nameStart_last (h : Spells filename (p ++ 0x2f :: name)) (hname : name ≠ [])
    (hslash : ∀ c ∈ name, c ≠ 0x2f) {todo : Nat} (htodo : name.length < todo) :
    nameStart filename todo ((p ++ 0x2f :: name).length : Nat) = .ok (p.length + 1 : Nat) := by
  have hpos : 0 < name.length := List.length_pos_iff.mpr hname
  have hlen : (p ++ 0x2f :: name).length = p.length + 1 + name.length := by
    rw [List.length_append, List.length_cons]
    omega
  have hfirst : filename ((p.length : Nat) : Int) = 0x2f := by
    rw [h.chars p.length (by omega), List.getElem_append_right (Nat.le_refl _)]
    simp only [Nat.sub_self, List.getElem_cons_zero]
  have hrest : ∀ k, p.length < k → k < p.length + 1 + name.length →
      filename ((k : Nat) : Int) ≠ 0x2f := by
    intro k hk hk'
    obtain ⟨j, rfl⟩ : ∃ j, k = p.length + 1 + j := ⟨k - (p.length + 1), by omega⟩
    have hj : j < name.length := by omega
    rw [h.char_at hj]
    exact hslash _ (List.getElem_mem hj)
  rw [hlen, nameStart_eq hfirst (by omega) hrest (by omega)]
  rfl

theorem nameBetween_last (h : Spells filename (p ++ 0x2f :: name)) :
    nameBetween filename (p.length + 1 : Nat) ((p ++ 0x2f :: name).length : Nat) = name := by
  have hcount : (((p ++ 0x2f :: name).length : Nat) - (p.length + 1 : Nat) : Int).toNat =
      name.length := by
    rw [List.length_append, List.length_cons]
    omega
  have hmap : (List.range name.length).map
      (fun k : Nat => filename ((p.length + 1 : Nat) + k)) = name := by
    apply List.ext_getElem
    · rw [List.length_map, List.length_range]
    · intro k hk hk'
      have hindex : ((p.length + 1 : Nat) + k : Int) = ((p.length + 1 + k : Nat) : Int) := by omega
      rw [List.getElem_map, List.getElem_range, hindex, h.char_at hk']
  rw [nameBetween, hcount, hmap]
  exact cString_of_no_zero fun c hc => h.text c (List.mem_append_right _ (List.mem_cons_of_mem _ hc))

/-- The lookups of a call, one after another. -/
def searchPath (v : Volume) (curdir : Inode) (last : List UInt8) : List (List UInt8) →
    Except Halt (Option (List UInt8) × Volume)
  | [] => findEntry v curdir last
  | directory :: directories => do
    let (n, v) ← findEntry v curdir directory
    match n with
    | none => return (none, v)
    | some n => searchPath v (.ofPacked n) last directories

theorem searchPath_cons {v : Volume} {curdir : Inode} {last directory : List UInt8}
    {directories : List (List UInt8)} :
    searchPath v curdir last (directory :: directories) = (findEntry v curdir directory >>=
      fun r => r.1.elim (.ok (none, r.2)) fun n => searchPath r.2 (.ofPacked n) last directories) := by
  rw [searchPath]
  cases findEntry v curdir directory with
  | error e => rfl
  | ok r =>
      obtain ⟨n, v⟩ := r
      cases n with
      | none => rfl
      | some n => rfl

/-- The walk and the last lookup. -/
theorem searchPath_eq {v : Volume} {basedir : Inode} {p : List UInt8} {slashcount : Nat} {i : Int}
    (htext : textFrom filename intRange 0 = .ok p) (hruns : slashRuns p false = .ok slashcount)
    (hstart : nameStart filename (p.length + intRange) p.length = .ok i) :
    getFileFromFilename v basedir filename = searchPath v basedir (nameBetween filename i p.length)
      (directoriesOf (slashcount - 1) (p.drop 1)) := by
  rw [getFileFromFilename_eq htext hruns hstart]
  generalize directoriesOf (slashcount - 1) (p.drop 1) = directories
  induction directories generalizing v basedir with
  | nil => rfl
  | cons directory directories ih =>
      rw [walk, searchPath]
      cases hfind : findEntry v basedir directory with
      | error e => rfl
      | ok r =>
          obtain ⟨n, v'⟩ := r
          cases n with
          | none => rfl
          | some n => exact ih

/-- What the three scans make of a path. -/
theorem pathText_scans {dirs : List Part} {last : Part}
    (h : Spells filename (pathText (dirs ++ [last])))
    (hlen : (pathText (dirs ++ [last])).length < intRange) :
    textFrom filename intRange 0 = .ok (pathText (dirs ++ [last])) ∧
      slashRuns (pathText (dirs ++ [last])) false = .ok (dirs.length + 1) ∧
      ∃ i, nameStart filename ((pathText (dirs ++ [last])).length + intRange)
          (pathText (dirs ++ [last])).length = .ok i ∧
        nameBetween filename i (pathText (dirs ++ [last])).length = last.name := by
  have hruns := slashRuns_pathText (dirs ++ [last])
  rw [List.length_append, List.length_singleton] at hruns
  have hspells := h
  rw [pathText_last] at hspells
  have htodo : last.name.length < (pathText (dirs ++ [last])).length + intRange := by
    rw [pathText_last, List.length_append, List.length_cons]
    omega
  have hstart := nameStart_last hspells last.nonempty last.no_slash htodo
  have hname := nameBetween_last hspells
  rw [← pathText_last] at hstart hname
  refine ⟨?_, hruns, _, hstart, hname⟩
  rw [textFrom_eq h (Nat.zero_le _) (by omega), List.drop_zero]

/-- What a call looks up. -/
theorem getFileFromFilename_parts {v : Volume} {basedir : Inode} {dirs : List Part} {last : Part}
    (h : Spells filename (pathText (dirs ++ [last])))
    (hlen : (pathText (dirs ++ [last])).length < intRange) :
    getFileFromFilename v basedir filename =
      searchPath v basedir last.name (lookedUp dirs last) := by
  obtain ⟨htext, hruns, i, hstart, hname⟩ := pathText_scans h hlen
  rw [searchPath_eq htext hruns hstart, hname, Nat.add_sub_cancel, directoriesOf_pathText]

/-- A path that is too long for an `int`. -/
theorem textFrom_long (h : Spells filename p) (hlen : intRange ≤ p.length) :
    ∃ e, textFrom filename intRange 0 = .error e := by
  have hover : ∀ todo i, i + todo ≤ p.length → ∃ e, textFrom filename todo i = .error e := by
    intro todo
    induction todo with
    | zero => exact fun i hi => ⟨_, rfl⟩
    | succ todo ih =>
        intro i hi
        obtain ⟨e, he⟩ := ih (i + 1) (by omega)
        have hne : filename i ≠ 0 := by
          rw [h.chars i (by omega)]
          exact h.text _ (List.getElem_mem (by omega))
        exact ⟨e, by rw [textFrom, if_neg hne, he]; rfl⟩
  exact hover intRange 0 (by omega)

/-- A text in memory, with zeros on both sides. -/
def pathOf (text : List UInt8) : Filename := fun k => if k < 0 then 0 else text.getD k.toNat 0

theorem pathOf_spells {text : List UInt8} (h : ∀ c ∈ text, c ≠ 0) : Spells (pathOf text) text where
  chars := by
    intro k hk
    have hneg : ¬ ((k : Nat) : Int) < 0 := by omega
    rw [pathOf, if_neg hneg, Int.toNat_natCast, List.getD_eq_getElem _ _ hk]
  terminator := by
    have hneg : ¬ ((text.length : Nat) : Int) < 0 := by omega
    rw [pathOf, if_neg hneg, Int.toNat_natCast, List.getD_eq_default _ _ (Nat.le_refl _)]
  text := h

end UnnamedOS.Files
