import Mathlib.Data.Nat.Find
import Mathlib.Logic.Function.Basic
import Mathlib.Data.List.GetD
import Mathlib.Data.List.TakeWhile

/-!
# The shell

`main` of `sh.c` reads a line into a buffer that it keeps, looks for the newline and for a space, and
passes what stands before the space and behind it to `execv`. Neither search stops at the end of
what it looks at.
-/

namespace UnnamedOS.Userland.Shell

inductive ShellHalt where
  /-- An access at this index of the buffer. -/
  | outOfBounds (i : Nat)
  /-- `getc` waits for a byte. -/
  | waiting
  deriving DecidableEq

/-- `bufL` -/
def bufL : Nat := 0x1000

/-- The contents of `buf`. -/
abbrev Buffer := Nat → UInt8

def newline : UInt8 := 0x0a

def space : UInt8 := 0x20

/-- `fgets`, with as many rounds left as its loop has; and the bytes that it leaves unread. -/
def fgets : Nat → Nat → Buffer → List UInt8 → Except ShellHalt (Buffer × List UInt8)
  | 0, _, buf, stdin => .ok (buf, stdin)
  | _ + 1, _, _, [] => .error .waiting
  | n + 1, i, buf, c :: stdin =>
    let buf := Function.update buf i c
    if c = newline then .ok (buf, stdin) else fgets n (i + 1) buf stdin

/-- `for(i = 0; buf[i] != c; i++){}`, with the number of bytes from `i` to the end of the buffer. -/
def search (buf : Buffer) (c : UInt8) : Nat → Nat → Except ShellHalt Nat
  | 0, i => .error (.outOfBounds i)
  | n + 1, i => if buf i = c then .ok i else search buf c n (i + 1)

/-- The string from `i` on. -/
def stringFrom (buf : Buffer) : Nat → Nat → Except ShellHalt (List UInt8)
  | 0, i => .error (.outOfBounds i)
  | n + 1, i =>
    if buf i = 0 then .ok []
    else (stringFrom buf n (i + 1)).map (buf i :: ·)

def stringAt (buf : Buffer) (i : Nat) : Except ShellHalt (List UInt8) := stringFrom buf (bufL - i) i

/-- What `execv` gets. -/
structure Command where
  path : List UInt8
  argument : List UInt8
  deriving DecidableEq

/-- The second search, and what `execv` makes of the pointers. -/
def split (buf : Buffer) : Except ShellHalt (Command × Buffer) := do
  let i ← search buf space bufL 0
  let buf := Function.update buf i 0
  let path ← stringAt buf 0
  let argument ← stringAt buf (i + 1)
  return (⟨path, argument⟩, buf)

/-- One round of the loop: the command, the buffer and what is unread. -/
def round (buf : Buffer) (stdin : List UInt8) :
    Except ShellHalt (Command × Buffer × List UInt8) := do
  let (buf, stdin) ← fgets bufL 0 buf stdin
  let i ← search buf newline bufL 0
  let (command, buf) ← split (Function.update buf i 0)
  return (command, buf, stdin)

/-- The first rounds of `main`. -/
def shell : Nat → Buffer → List UInt8 → Except ShellHalt (List Command)
  | 0, _, _ => .ok []
  | n + 1, buf, stdin => do
    let (command, buf, stdin) ← round buf stdin
    let commands ← shell n buf stdin
    return command :: commands

/-- At most 4095 bytes, none of them zero or a newline. -/
structure Line where
  text : List UInt8
  fits : text.length < bufL
  no_newline : ∀ c ∈ text, c ≠ newline
  no_zero : ∀ c ∈ text, c ≠ 0

namespace Line

variable (line : Line)

/-- What the line says: the text up to the first space, and what is behind it. -/
def command : Command where
  path := line.text.takeWhile (· ≠ space)
  argument := (line.text.dropWhile (· ≠ space)).drop 1

def typed : List UInt8 := line.text ++ [newline]

/-- The buffer with the line and its terminator in place. -/
def typedOver (buf : Buffer) : Buffer := fun k =>
  if k < line.text.length then line.text.getD k 0 else if k = line.text.length then 0 else buf k

end Line

/-- The buffer with a zero in place of its first space. -/
def cut (buf : Buffer) : Buffer := fun k =>
  if buf k = space ∧ ∀ j < k, buf j ≠ space then 0 else buf k

/-- What earlier lines leave in the buffer. -/
def remains (buf : Buffer) (lines : List Line) : Buffer :=
  lines.foldl (fun buf line => cut (line.typedOver buf)) buf

/-- The first space behind index `n` has a zero behind it, in the buffer. -/
def EmptyBehind (buf : Buffer) (n : Nat) : Prop :=
  ∃ j, n < j ∧ j + 1 < bufL ∧ buf j = space ∧ buf (j + 1) = 0 ∧ ∀ k, n < k → k < j → buf k ≠ space

/-- Each line without a space finds a space behind its end, and nothing behind that. -/
def Decided (buf : Buffer) (lines : List Line) : Prop :=
  ∀ before line after, lines = before ++ line :: after → space ∉ line.text →
    EmptyBehind (remains buf before) line.text.length

/-! ## The parts of a round -/

variable {buf : Buffer} {stdin : List UInt8} {line : Line} {lines : List Line} {c : UInt8}
  {i j n : Nat} {l : List UInt8}

theorem fgets_text (h : ∀ c ∈ l, c ≠ newline) (hn : l.length < n) :
    fgets n i buf (l ++ newline :: stdin) = .ok (fun k =>
      if k < i then buf k else if k < i + l.length then l.getD (k - i) 0
      else if k = i + l.length then newline else buf k, stdin) := by
  induction l generalizing n i buf with
  | nil =>
      obtain ⟨m, rfl⟩ := Nat.exists_eq_succ_of_ne_zero (Nat.ne_of_gt hn)
      rw [List.nil_append, fgets, if_pos rfl]
      congr 2
      funext k
      by_cases hk : k = i
      · subst hk
        simp
      · rw [Function.update_of_ne hk, List.length_nil, Nat.add_zero]
        by_cases hlt : k < i
        · rw [if_pos hlt]
        · rw [if_neg hlt, if_neg hlt, if_neg hk]
  | cons c l ih =>
      obtain ⟨m, rfl⟩ := Nat.exists_eq_succ_of_ne_zero (Nat.ne_of_gt (Nat.zero_lt_of_lt hn))
      obtain ⟨hc, hl⟩ := List.forall_mem_cons.mp h
      rw [List.length_cons] at hn
      rw [List.cons_append, fgets, if_neg hc, ih hl (by omega)]
      congr 2
      funext k
      rw [List.length_cons]
      by_cases hk : k = i
      · subst hk
        rw [if_pos (by omega), Function.update_self, if_neg (by omega), if_pos (by omega)]
        simp
      · rw [Function.update_of_ne hk]
        by_cases hlt : k < i
        · rw [if_pos (by omega), if_pos hlt]
        · rw [if_neg (by omega), if_neg hlt]
          have hsub : k - i = k - (i + 1) + 1 := by omega
          rw [hsub, List.getD_cons_succ]
          have hlen : i + 1 + l.length = i + (l.length + 1) := by omega
          rw [hlen]

theorem search_ok (hj : i ≤ j) (hn : j < i + n) (hc : buf j = c)
    (hbefore : ∀ k, i ≤ k → k < j → buf k ≠ c) : search buf c n i = .ok j := by
  induction n generalizing i with
  | zero => omega
  | succ n ih =>
      rw [search]
      rcases Nat.eq_or_lt_of_le hj with rfl | hlt
      · rw [if_pos hc]
      · rw [if_neg (hbefore i (Nat.le_refl i) hlt)]
        exact ih hlt (by omega) fun k hk hk' => hbefore k (by omega) hk'

/-- Where the search ends. -/
theorem search_found (h : search buf c n i = .ok j) :
    i ≤ j ∧ j < i + n ∧ buf j = c ∧ ∀ k, i ≤ k → k < j → buf k ≠ c := by
  induction n generalizing i with
  | zero => cases h
  | succ n ih =>
      rw [search] at h
      by_cases hc : buf i = c
      · rw [if_pos hc] at h
        obtain rfl := Except.ok.inj h
        exact ⟨Nat.le_refl i, by omega, hc, fun k hk hk' => by omega⟩
      · rw [if_neg hc] at h
        obtain ⟨hle, hlt, hj, hbefore⟩ := ih h
        refine ⟨by omega, by omega, hj, fun k hk hk' => ?_⟩
        rcases Nat.eq_or_lt_of_le hk with rfl | hlt'
        · exact hc
        · exact hbefore k hlt' hk'

theorem stringFrom_ok (hn : l.length < n) (htext : ∀ k, (h : k < l.length) → buf (i + k) = l[k])
    (hzero : ∀ c ∈ l, c ≠ 0) (hend : buf (i + l.length) = 0) : stringFrom buf n i = .ok l := by
  induction l generalizing n i with
  | nil =>
      obtain ⟨m, rfl⟩ := Nat.exists_eq_succ_of_ne_zero (Nat.ne_of_gt hn)
      have hnow : buf i = 0 := hend
      rw [stringFrom, if_pos hnow]
  | cons c l ih =>
      obtain ⟨m, rfl⟩ := Nat.exists_eq_succ_of_ne_zero (Nat.ne_of_gt (Nat.zero_lt_of_lt hn))
      obtain ⟨hc, hl⟩ := List.forall_mem_cons.mp hzero
      rw [List.length_cons] at hn hend
      have hfirst : buf i = c := htext 0 (Nat.zero_lt_succ _)
      have hrest : stringFrom buf m (i + 1) = .ok l := by
        refine ih (by omega) (fun k hk => ?_) hl ?_
        · have hnext := htext (k + 1) (Nat.succ_lt_succ hk)
          rw [Nat.add_assoc, Nat.add_comm 1 k]
          exact hnext
        · rw [Nat.add_assoc, Nat.add_comm 1]
          exact hend
      rw [stringFrom, if_neg (hfirst ▸ hc), hrest, hfirst]
      rfl

theorem stringAt_nil (h : stringAt buf i = .ok []) : i < bufL ∧ buf i = 0 := by
  rw [stringAt] at h
  cases hn : bufL - i with
  | zero =>
      rw [hn] at h
      cases h
  | succ n =>
      refine ⟨by omega, ?_⟩
      rw [hn, stringFrom] at h
      by_cases hzero : buf i = 0
      · exact hzero
      · rw [if_neg hzero] at h
        cases hrest : stringFrom buf n (i + 1) with
        | error e =>
            rw [hrest] at h
            cases h
        | ok l =>
            rw [hrest] at h
            cases h

/-! ## A round -/

theorem over_text {k : Nat} (h : k < line.text.length) : line.typedOver buf k = line.text[k] := by
  rw [Line.typedOver, if_pos h, List.getD_eq_getElem _ _ h]

theorem over_end : line.typedOver buf line.text.length = 0 := by
  rw [Line.typedOver, if_neg (Nat.lt_irrefl _), if_pos rfl]

theorem over_behind {k : Nat} (h : line.text.length < k) : line.typedOver buf k = buf k := by
  rw [Line.typedOver, if_neg (by omega), if_neg (by omega)]

/-- Putting a zero in place of the first space. -/
theorem cut_eq (hj : buf j = space) (hbefore : ∀ k < j, buf k ≠ space) :
    Function.update buf j 0 = cut buf := by
  funext k
  by_cases hk : k = j
  · subst hk
    rw [Function.update_self, cut, if_pos ⟨hj, hbefore⟩]
  · rw [Function.update_of_ne hk, cut, if_neg]
    rintro ⟨hspace, hfirst⟩
    rcases Nat.lt_or_gt_of_ne hk with hlt | hgt
    · exact hbefore k hlt hspace
    · exact hfirst j hgt hj

/-- What a round does once the line is in the buffer. -/
theorem round_eq (buf : Buffer) (line : Line) (stdin : List UInt8) :
    round buf (line.typed ++ stdin) =
      (split (line.typedOver buf)).map fun r => (r.1, r.2, stdin) := by
  have htyped : line.typed ++ stdin = line.text ++ newline :: stdin := by
    rw [Line.typed, List.append_assoc]
    rfl
  rw [round, htyped, fgets_text line.no_newline line.fits]
  generalize hread : (fun k => if k < 0 then buf k else if k < 0 + line.text.length then
    line.text.getD (k - 0) 0 else if k = 0 + line.text.length then newline else buf k) = read
  have hread' : ∀ k, read k = if k < line.text.length then line.text.getD k 0
      else if k = line.text.length then newline else buf k := by
    intro k
    rw [← hread]
    dsimp only
    rw [Nat.zero_add, Nat.sub_zero, if_neg (Nat.not_lt_zero k)]
  have hend : read line.text.length = newline := by
    rw [hread', if_neg (Nat.lt_irrefl _), if_pos rfl]
  have htext : ∀ k, 0 ≤ k → k < line.text.length → read k ≠ newline := by
    intro k _ hk
    rw [hread', if_pos hk, List.getD_eq_getElem _ _ hk]
    exact line.no_newline _ (List.getElem_mem hk)
  have hsearch : search read newline bufL 0 = .ok line.text.length :=
    search_ok (Nat.zero_le _) (by rw [Nat.zero_add]; exact line.fits) hend htext
  have hover : Function.update read line.text.length 0 = line.typedOver buf := by
    funext k
    by_cases hk : k = line.text.length
    · rw [hk, Function.update_self, over_end]
    · rw [Function.update_of_ne hk, hread', Line.typedOver, if_neg hk, if_neg hk]
  change (do
    let i ← search read newline bufL 0
    let r ← split (Function.update read i 0)
    pure (r.1, r.2, stdin)) = _
  rw [hsearch]
  change (do
    let r ← split (Function.update read line.text.length 0)
    pure (r.1, r.2, stdin)) = _
  rw [hover]
  cases split (line.typedOver buf) with
  | error e => rfl
  | ok r => rfl

theorem split_ok (hj : j < bufL) (hspace : buf j = space) (hbefore : ∀ k < j, buf k ≠ space)
    {path argument : List UInt8} (hpath : stringAt (cut buf) 0 = .ok path)
    (hargument : stringAt (cut buf) (j + 1) = .ok argument) :
    split buf = .ok (⟨path, argument⟩, cut buf) := by
  have hsearch : search buf space bufL 0 = .ok j :=
    search_ok (Nat.zero_le j) (by rw [Nat.zero_add]; exact hj) hspace fun k _ hk => hbefore k hk
  rw [split, hsearch]
  change (do
    let path ← stringAt (Function.update buf j 0) 0
    let argument ← stringAt (Function.update buf j 0) (j + 1)
    pure ((⟨path, argument⟩ : Command), Function.update buf j 0)) = _
  rw [cut_eq hspace hbefore, hpath, hargument]
  rfl

/-- Where the second search has ended. -/
theorem split_found {r : Command × Buffer} (h : split buf = .ok r) :
    ∃ j, j < bufL ∧ buf j = space ∧ (∀ k < j, buf k ≠ space) ∧
      stringAt (cut buf) (j + 1) = .ok r.1.argument ∧ r.2 = cut buf := by
  rw [split] at h
  cases hsearch : search buf space bufL 0 with
  | error e =>
      rw [hsearch] at h
      cases h
  | ok j =>
      obtain ⟨-, hlt, hspace, hbefore⟩ := search_found hsearch
      have hbefore' : ∀ k < j, buf k ≠ space := fun k hk => hbefore k (Nat.zero_le k) hk
      refine ⟨j, by omega, hspace, hbefore', ?_⟩
      rw [hsearch] at h
      change (do
        let path ← stringAt (Function.update buf j 0) 0
        let argument ← stringAt (Function.update buf j 0) (j + 1)
        pure ((⟨path, argument⟩ : Command), Function.update buf j 0)) = _ at h
      rw [cut_eq hspace hbefore'] at h
      cases hpath : stringAt (cut buf) 0 with
      | error e =>
          rw [hpath] at h
          cases h
      | ok path =>
          cases hargument : stringAt (cut buf) (j + 1) with
          | error e =>
              rw [hpath, hargument] at h
              cases h
          | ok argument =>
              rw [hpath, hargument] at h
              obtain rfl := Except.ok.inj h
              exact ⟨rfl, rfl⟩

/-- A line with a space is cut there. -/
theorem split_spaced {path argument : List UInt8} (htext : line.text = path ++ space :: argument)
    (hpath : space ∉ path) (buf : Buffer) :
    split (line.typedOver buf) = .ok (⟨path, argument⟩, cut (line.typedOver buf)) := by
  have hlen : line.text.length = path.length + (argument.length + 1) := by
    rw [htext, List.length_append, List.length_cons]
  have hfits := line.fits
  have hat : line.typedOver buf path.length = space := by
    rw [over_text (by omega)]
    simp [htext]
  have hbefore : ∀ k < path.length, line.typedOver buf k ≠ space := by
    intro k hk heq
    rw [over_text (by omega)] at heq
    have hmem : line.text[k] ∈ path := by
      simp [htext, List.getElem_append_left hk]
    exact hpath (heq ▸ hmem)
  have hcut : ∀ k, k ≠ path.length → cut (line.typedOver buf) k = line.typedOver buf k := by
    intro k hk
    rw [← cut_eq hat hbefore, Function.update_of_ne hk]
  have hzero : cut (line.typedOver buf) path.length = 0 := by
    rw [← cut_eq hat hbefore, Function.update_self]
  have hno : ∀ c ∈ path ++ space :: argument, c ≠ 0 := htext ▸ line.no_zero
  refine split_ok (by omega) hat hbefore ?_ ?_
  · refine stringFrom_ok (by omega) (fun k hk => ?_)
      (fun c hc => hno c (List.mem_append_left _ hc)) ?_
    · rw [Nat.zero_add, hcut k (by omega), over_text (by omega)]
      simp [htext, List.getElem_append_left hk]
    · rw [Nat.zero_add, hzero]
  · refine stringFrom_ok (by omega) (fun k hk => ?_)
      (fun c hc => hno c (List.mem_append_right _ (List.mem_cons_of_mem _ hc))) ?_
    · rw [hcut _ (by omega), over_text (by omega)]
      have hindex : path.length + 1 + k = path.length + (k + 1) := by omega
      simp [htext, hindex]
    · rw [hcut _ (by omega)]
      have hindex : path.length + 1 + argument.length = line.text.length := by omega
      rw [hindex, over_end]

/-- A line without one needs a space behind it. -/
theorem split_plain (hspace : space ∉ line.text) (h : EmptyBehind buf line.text.length) :
    split (line.typedOver buf) = .ok (⟨line.text, []⟩, cut (line.typedOver buf)) := by
  obtain ⟨j, hj, hjb, hat, hnext, hbefore⟩ := h
  have hfits := line.fits
  have hat' : line.typedOver buf j = space := by rw [over_behind hj, hat]
  have hbefore' : ∀ k < j, line.typedOver buf k ≠ space := by
    intro k hk heq
    rcases Nat.lt_trichotomy k line.text.length with hlt | rfl | hgt
    · rw [over_text hlt] at heq
      exact hspace (heq ▸ List.getElem_mem hlt)
    · rw [over_end] at heq
      exact absurd heq (by decide)
    · rw [over_behind hgt] at heq
      exact hbefore k hgt hk heq
  have hcut : ∀ k, k ≠ j → cut (line.typedOver buf) k = line.typedOver buf k := by
    intro k hk
    rw [← cut_eq hat' hbefore', Function.update_of_ne hk]
  refine split_ok (by omega) hat' hbefore' ?_ ?_
  · refine stringFrom_ok (by omega) (fun k hk => ?_) line.no_zero ?_
    · rw [Nat.zero_add, hcut k (by omega), over_text hk]
    · rw [Nat.zero_add, hcut _ (by omega), over_end]
  · refine stringFrom_ok (by rw [List.length_nil]; omega) (fun k hk => absurd hk (Nat.not_lt_zero k))
      (fun c hc => absurd hc List.not_mem_nil) ?_
    rw [List.length_nil, Nat.add_zero, hcut _ (by omega), over_behind (by omega), hnext]

theorem emptyBehind_of_split (hspace : space ∉ line.text) {r : Command × Buffer}
    (h : split (line.typedOver buf) = .ok r) (hr : r.1.argument = []) :
    EmptyBehind buf line.text.length := by
  obtain ⟨j, hj, hat, hbefore, hargument, -⟩ := split_found h
  rw [hr] at hargument
  obtain ⟨hlt, hzero⟩ := stringAt_nil hargument
  have hbehind : line.text.length < j := by
    rcases Nat.lt_trichotomy j line.text.length with hlt' | rfl | hgt
    · rw [over_text hlt'] at hat
      exact absurd (hat ▸ List.getElem_mem hlt') hspace
    · rw [over_end] at hat
      exact absurd hat (by decide)
    · exact hgt
  refine ⟨j, hbehind, hlt, ?_, ?_, fun k hk hkj heq => hbefore k hkj ?_⟩
  · exact (over_behind hbehind).symm.trans hat
  · rw [← cut_eq hat hbefore, Function.update_of_ne (by omega), over_behind (by omega)] at hzero
    exact hzero
  · rw [over_behind hk, heq]

theorem command_spaced {path argument : List UInt8} (htext : line.text = path ++ space :: argument)
    (hpath : space ∉ path) : line.command = ⟨path, argument⟩ := by
  have hne : ∀ c ∈ path, (c ≠ space : Bool) = true := by
    intro c hc
    exact decide_eq_true fun heq => hpath (heq ▸ hc)
  rw [Line.command, htext, List.takeWhile_append_of_pos hne, List.dropWhile_append_of_pos hne]
  simp

theorem command_plain (hspace : space ∉ line.text) : line.command = ⟨line.text, []⟩ := by
  have hne : ∀ c ∈ line.text, (c ≠ space : Bool) = true := by
    intro c hc
    exact decide_eq_true fun heq => hspace (heq ▸ hc)
  rw [Line.command, List.takeWhile_eq_self_iff.mpr hne, List.dropWhile_eq_nil_iff.mpr hne]
  rfl

/-- The line's own command is passed on exactly when it has a space or an empty string is behind it. -/
theorem split_command_iff (buf : Buffer) (line : Line) :
    (∃ r, split (line.typedOver buf) = .ok r ∧ r.1 = line.command) ↔
      (space ∉ line.text → EmptyBehind buf line.text.length) := by
  constructor
  · rintro ⟨r, hr, hcommand⟩ hspace
    refine emptyBehind_of_split hspace hr ?_
    rw [hcommand, command_plain hspace]
  · intro h
    by_cases hspace : space ∈ line.text
    · obtain ⟨path, argument, htext, hpath⟩ := List.eq_append_cons_of_mem hspace
      exact ⟨_, split_spaced htext hpath buf, (command_spaced htext hpath).symm⟩
    · exact ⟨_, split_plain hspace (h hspace), (command_plain hspace).symm⟩

/-! ## All lines -/

theorem decided_cons : Decided buf (line :: lines) ↔
    (space ∉ line.text → EmptyBehind buf line.text.length) ∧
      Decided (cut (line.typedOver buf)) lines := by
  constructor
  · intro h
    refine ⟨h [] line lines rfl, fun before line' after heq => ?_⟩
    exact h (line :: before) line' after (by rw [heq]; rfl)
  · rintro ⟨hfirst, hrest⟩ before line' after heq
    cases before with
    | nil =>
        obtain ⟨rfl, rfl⟩ := List.cons.inj heq
        exact hfirst
    | cons l before =>
        obtain ⟨rfl, rfl⟩ := List.cons.inj heq
        exact hrest before line' after rfl

theorem shell_cons (n : Nat) (buf : Buffer) (line : Line) (stdin : List UInt8) :
    shell (n + 1) buf (line.typed ++ stdin) = (do
      let r ← split (line.typedOver buf)
      let commands ← shell n r.2 stdin
      pure (r.1 :: commands)) := by
  rw [shell, round_eq]
  cases split (line.typedOver buf) with
  | error e => rfl
  | ok r => rfl

theorem typed_line_runs_iff (buf : Buffer) (lines : List Line) (stdin : List UInt8) :
    shell lines.length buf (lines.flatMap Line.typed ++ stdin) = .ok (lines.map Line.command) ↔
      Decided buf lines := by
  induction lines generalizing buf with
  | nil => exact iff_of_true rfl fun before line after heq => absurd heq.symm (by simp)
  | cons line lines ih =>
      rw [List.flatMap_cons, List.append_assoc, List.length_cons, shell_cons, decided_cons,
        ← split_command_iff, List.map_cons]
      cases hsplit : split (line.typedOver buf) with
      | error e =>
          refine iff_of_false (fun h => (by cases h)) ?_
          rintro ⟨⟨r, hr, -⟩, -⟩
          cases hr
      | ok r =>
          have hleft : r.2 = cut (line.typedOver buf) := by
            obtain ⟨-, -, -, -, -, hleft⟩ := split_found hsplit
            exact hleft
          rw [← ih, ← hleft]
          change (do
            let commands ← shell lines.length r.2 (lines.flatMap Line.typed ++ stdin)
            pure (r.1 :: commands)) = _ ↔ _
          cases shell lines.length r.2 (lines.flatMap Line.typed ++ stdin) with
          | error e => exact iff_of_false (fun h => (by cases h)) fun h => (by cases h.2)
          | ok commands =>
              constructor
              · intro h
                obtain ⟨hfirst, hrest⟩ := List.cons.inj (Except.ok.inj h)
                exact ⟨⟨r, rfl, hfirst⟩, congrArg Except.ok hrest⟩
              · rintro ⟨⟨r', hr', hfirst⟩, hrest⟩
                obtain rfl := Except.ok.inj hr'
                obtain rfl := Except.ok.inj hrest
                exact congrArg (fun c => Except.ok (c :: _)) hfirst

/-- `"p q r"` and then `"ab"`. -/
def twoLines : List Line :=
  [⟨[0x70, 0x20, 0x71, 0x20, 0x72], by decide, by simp [newline], by simp⟩,
    ⟨[0x61, 0x62], by decide, by simp [newline], by simp⟩]

/-- The second line gets the end of the first one as its argument. -/
theorem remains_become_argument :
    ¬ shell 2 (fun _ => 0) (twoLines.flatMap Line.typed) = .ok (twoLines.map Line.command) := by
  have hrun : shell 2 (fun _ => 0) (twoLines.flatMap Line.typed) =
      .ok [⟨[0x70], [0x71, 0x20, 0x72]⟩, ⟨[0x61, 0x62], [0x72]⟩] := by
    rfl
  intro h
  rw [hrun] at h
  exact absurd (Except.ok.inj h) (by decide)

end UnnamedOS.Userland.Shell
