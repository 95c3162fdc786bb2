import Mathlib.Data.List.Induction
import Mathlib.Logic.Function.Basic

/-!
# The text screen

`write_to_screen` puts bytes into the text buffer, 80 columns of two bytes in each of 25 rows.
-/

namespace UnnamedOS.Devices

structure Terminal where
  /-- The bytes from `CBASE+0xb8000` on. -/
  screen : Nat → UInt8
  terminal_x : Nat
  terminal_y : Nat
  keyboard_is_raw : Bool
  /-- How often the rows have been moved up. -/
  scrolls : Nat

namespace Terminal

variable (t : Terminal)

/-- The character of a column in a row; its colour is behind it. -/
def cell (row col : Nat) : Nat := row * 160 + col * 2

/-- `memcpy` of 24 rows to the row above. -/
def scroll : Terminal :=
  { t with
    screen := fun i => if i < 160 * 24 then t.screen (i + 160) else t.screen i
    terminal_y := t.terminal_y - 1
    scrolls := t.scrolls + 1 }

/-- `while(terminal_y>20)`, of which there are at most `terminal_y` rounds. -/
def scrollWhile : Nat → Terminal → Terminal
  | 0, t => t
  | n + 1, t => if t.terminal_y > 20 then scrollWhile n t.scroll else t

def put (c : UInt8) : Terminal :=
  { t with
    screen := Function.update (Function.update t.screen (cell t.terminal_y t.terminal_x) c)
      (cell t.terminal_y t.terminal_x + 1) 0x2a
    terminal_x := t.terminal_x + 1 }

/-- `while(terminal_x<80)`. -/
def pad : Nat → Terminal → Terminal
  | 0, t => t
  | n + 1, t => if t.terminal_x < 80 then pad n (t.put 0x20) else t

/-- The wrap and the scroll in front of every byte. -/
def wrap : Terminal :=
  let t :=
    if t.terminal_x > 80 then { t with terminal_x := 0, terminal_y := t.terminal_y + 1 } else t
  t.scrollWhile t.terminal_y

def putByte (c : UInt8) : Terminal :=
  if c = 0x11 then { t with keyboard_is_raw := !t.keyboard_is_raw }
  else
    let t := t.wrap
    if t.terminal_y < 20 then
      if c = 0x0a then
        let t := t.pad (80 - t.terminal_x)
        { t with terminal_x := 0, terminal_y := t.terminal_y + 1 }
      else t.put c
    else t

def write_to_screen (k : List UInt8) : Terminal := k.foldl putByte t

def write_all (calls : List (List UInt8)) : Terminal := calls.foldl write_to_screen t

end Terminal

open Terminal

/-- The cells that are on the screen before and after, but for some, have gone up with their rows. -/
def Kept (t t' : Terminal) (written : Nat → Nat → Prop) : Prop :=
  ∀ row col, col < 80 → row + (t'.scrolls - t.scrolls) < 25 → ¬ written row col →
    t'.screen (cell row col) = t.screen (cell (row + (t'.scrolls - t.scrolls)) col)

/-- The cursor behind the last column is at the start of the next row. -/
def Terminal.cursor (t : Terminal) : Nat × Nat :=
  if t.terminal_x < 80 then (t.terminal_y, t.terminal_x) else (t.terminal_y + 1, 0)

/-- `c` is at the row and column of the cursor, which has gone on by one. -/
def Stored (c : UInt8) (t t' : Terminal) : Prop :=
  ∃ row col, row < 25 ∧ col < 80 ∧ t.cursor = (row + (t'.scrolls - t.scrolls), col) ∧
    t'.screen (cell row col) = c ∧ Kept t t' (fun r s => (r, s) = (row, col)) ∧
    ((t'.terminal_y, t'.terminal_x) = (row, col + 1) ∨
      col = 79 ∧ (t'.terminal_y, t'.terminal_x) = (row + 1, 0))

/-- The cursor is at the start of the next row, and only the rest of its row may have changed. -/
def NextRow (t t' : Terminal) : Prop :=
  t'.terminal_x = 0 ∧ t'.terminal_y + (t'.scrolls - t.scrolls) = t.terminal_y + 1 ∧
    Kept t t' fun row col => row + (t'.scrolls - t.scrolls) = t.terminal_y ∧ t.terminal_x ≤ col

/-- What is to become of a byte other than `0x11`. -/
def Shown (c : UInt8) (t t' : Terminal) : Prop := if c = 0x0a then NextRow t t' else Stored c t t'

/-- The bytes are shown, each when its turn comes. -/
def ShownFrom (t : Terminal) (output : List UInt8) : Prop :=
  ∀ before c after, output = before ++ c :: after → c ≠ 0x11 →
    Shown c (t.write_to_screen before) ((t.write_to_screen before).putByte c)

/-- The bytes of all calls are. -/
def AllShown (t : Terminal) (calls : List (List UInt8)) : Prop :=
  ∀ done k rest, calls = done ++ k :: rest → ShownFrom (t.write_all done) k

/-! ## One byte -/

variable {t t' : Terminal} {c : UInt8} {output : List UInt8}

theorem scrollWhile_eq (n : Nat) (h : t.terminal_y ≤ 20) : t.scrollWhile n = t := by
  cases n with
  | zero => rfl
  | succ n => rw [scrollWhile, if_neg (by omega)]

theorem wrap_eq (hx : t.terminal_x ≤ 80) (hy : t.terminal_y ≤ 20) : t.wrap = t := by
  rw [wrap, if_neg (by omega)]
  exact scrollWhile_eq _ hy

/-- The cell that a byte goes to is the only one it changes. -/
theorem put_cell {row col : Nat} (h : (row, col) ≠ (t.terminal_y, t.terminal_x)) (hcol : col < 80)
    (hx : t.terminal_x < 80) : (t.put c).screen (cell row col) = t.screen (cell row col) := by
  have hne : cell row col ≠ cell t.terminal_y t.terminal_x := by
    intro heq
    apply h
    unfold cell at heq
    have hrow : row = t.terminal_y := by omega
    have hcol : col = t.terminal_x := by omega
    rw [hrow, hcol]
  have hodd : cell row col ≠ cell t.terminal_y t.terminal_x + 1 := by
    unfold cell
    omega
  rw [put]
  dsimp only
  rw [Function.update_of_ne hodd, Function.update_of_ne hne]

theorem put_self : (t.put c).screen (cell t.terminal_y t.terminal_x) = c := by
  rw [put]
  dsimp only
  rw [Function.update_of_ne (by omega), Function.update_self]

/-- The padding stays in its row, from the cursor on. -/
theorem pad_spec (n : Nat) (t : Terminal) : (t.pad n).terminal_y = t.terminal_y ∧
    (t.pad n).scrolls = t.scrolls ∧ ∀ row col, col < 80 →
      ¬ (row = t.terminal_y ∧ t.terminal_x ≤ col) →
        (t.pad n).screen (cell row col) = t.screen (cell row col) := by
  induction n generalizing t with
  | zero => exact ⟨rfl, rfl, fun _ _ _ _ => rfl⟩
  | succ n ih =>
      rw [pad]
      by_cases hx : t.terminal_x < 80
      · rw [if_pos hx]
        obtain ⟨hy, hs, hscreen⟩ := ih (t.put 0x20)
        refine ⟨hy, hs, fun row col hcol hnot => ?_⟩
        rw [hscreen row col hcol fun h => hnot ⟨h.1, Nat.le_of_succ_le h.2⟩]
        refine put_cell (fun heq => hnot ?_) hcol hx
        obtain ⟨rfl, rfl⟩ := Prod.mk.inj heq
        exact ⟨rfl, Nat.le_refl _⟩
      · rw [if_neg hx]
        exact ⟨rfl, rfl, fun _ _ _ _ => rfl⟩

/-- Where the cursor is after a byte that there is room for. -/
theorem putByte_newline (hx : t.terminal_x ≤ 80) (hy : t.terminal_y < 20) :
    NextRow t (t.putByte 0x0a) ∧ (t.putByte 0x0a).terminal_x = 0 ∧
      (t.putByte 0x0a).terminal_y = t.terminal_y + 1 := by
  obtain ⟨hpy, hps, hscreen⟩ := pad_spec (80 - t.terminal_x) t
  have hput : t.putByte 0x0a =
      { t.pad (80 - t.terminal_x) with
        terminal_x := 0, terminal_y := (t.pad (80 - t.terminal_x)).terminal_y + 1 } := by
    rw [putByte, if_neg (by decide)]
    dsimp only
    rw [wrap_eq hx (by omega), if_pos hy, if_pos rfl]
  rw [hput, NextRow]
  dsimp only
  rw [hps, hpy, Nat.sub_self]
  refine ⟨⟨rfl, rfl, fun row col hcol _ hnot => ?_⟩, rfl, rfl⟩
  dsimp only at hnot ⊢
  rw [hps, Nat.sub_self] at *
  exact hscreen row col hcol hnot

theorem putByte_char (hc : c ≠ 0x11) (hnl : c ≠ 0x0a) (hx : t.terminal_x < 80)
    (hy : t.terminal_y < 20) : Stored c t (t.putByte c) ∧
      (t.putByte c).terminal_x = t.terminal_x + 1 ∧ (t.putByte c).terminal_y = t.terminal_y := by
  have hput : t.putByte c = t.put c := by
    rw [putByte, if_neg hc]
    dsimp only
    rw [wrap_eq (by omega) (by omega), if_pos hy, if_neg hnl]
  rw [hput]
  have hs : (t.put c).scrolls - t.scrolls = 0 := Nat.sub_self _
  refine ⟨⟨t.terminal_y, t.terminal_x, by omega, hx, ?_, put_self, ?_, .inl rfl⟩, rfl, rfl⟩
  · rw [hs, cursor, if_pos hx]
    rfl
  · intro row col hcol _ hne
    rw [hs]
    exact put_cell hne hcol hx

/-- In the first 20 rows a byte is shown exactly when there is room for it. -/
theorem shown_iff (hc : c ≠ 0x11) (hx : t.terminal_x ≤ 80) (hy : t.terminal_y ≤ 20) :
    Shown c t (t.putByte c) ↔ t.terminal_y < 20 ∧ (c ≠ 0x0a → t.terminal_x < 80) := by
  have hput : t.putByte c = if t.terminal_y < 20 then
      if c = 0x0a then
        { t.pad (80 - t.terminal_x) with
          terminal_x := 0, terminal_y := (t.pad (80 - t.terminal_x)).terminal_y + 1 }
      else t.put c
    else t := by
    rw [putByte, if_neg hc]
    dsimp only
    rw [wrap_eq hx hy]
  by_cases hroom : t.terminal_y < 20
  · by_cases hnl : c = 0x0a
    · subst hnl
      exact iff_of_true (putByte_newline hx hroom).1 ⟨hroom, fun h => absurd rfl h⟩
    · rw [Shown, if_neg hnl]
      by_cases hcol : t.terminal_x < 80
      · exact iff_of_true (putByte_char hc hnl hcol hroom).1 ⟨hroom, fun _ => hcol⟩
      · refine iff_of_false ?_ fun h => hcol (h.2 hnl)
        rw [hput, if_pos hroom, if_neg hnl]
        rintro ⟨row, col, -, -, hcursor, -, -, hnext⟩
        rw [cursor, if_neg hcol] at hcursor
        have hs : (t.put c).scrolls - t.scrolls = 0 := Nat.sub_self _
        rw [hs] at hcursor
        obtain ⟨rfl, rfl⟩ := Prod.mk.inj hcursor
        rcases hnext with hnext | ⟨hcol', -⟩
        · have hrow : t.terminal_y = t.terminal_y + 1 := (Prod.mk.inj hnext).1
          omega
        · exact absurd hcol' (by decide)
  · refine iff_of_false ?_ fun h => hroom h.1
    rw [hput, if_neg hroom, Shown]
    by_cases hnl : c = 0x0a
    · rw [if_pos hnl]
      rintro ⟨-, hrow, -⟩
      omega
    · rw [if_neg hnl]
      rintro ⟨row, col, -, -, hcursor, -, -, hnext⟩
      rw [Nat.sub_self, cursor] at hcursor
      rcases hnext with hnext | ⟨-, hnext⟩ <;> obtain ⟨hrow, hcol⟩ := Prod.mk.inj hnext <;>
        split at hcursor <;> obtain ⟨hr, hs⟩ := Prod.mk.inj hcursor <;> omega

/-! ## All bytes -/

/-- How far a text has got in its last line. -/
def column (text : List UInt8) : Nat := (text.reverse.takeWhile (· ≠ 0x0a)).length

/-- How many lines are behind it. -/
def row (text : List UInt8) : Nat := text.count 0x0a

/-- No line is longer than 80 bytes, and nothing comes behind the twentieth newline. -/
def Fits (text : List UInt8) : Prop :=
  ∀ before c after, text = before ++ c :: after →
    row before < 20 ∧ (c ≠ 0x0a → column before < 80)

/-- What holds at every place of a list that has grown by one. -/
theorem forall_split_concat {α : Type*} {p : List α → α → Prop} {l : List α} {d : α} :
    (∀ before c after, l ++ [d] = before ++ c :: after → p before c) ↔
      (∀ before c after, l = before ++ c :: after → p before c) ∧ p l d := by
  constructor
  · intro h
    refine ⟨fun before c after heq => h before c (after ++ [d]) ?_, h l d [] rfl⟩
    rw [heq, List.append_assoc]
    rfl
  · rintro ⟨hall, hlast⟩ before c after heq
    rcases List.eq_nil_or_concat after with rfl | ⟨after', d', rfl⟩
    · obtain ⟨rfl, hd⟩ := List.append_inj' heq rfl
      obtain rfl := (List.cons.inj hd).1
      exact hlast
    · rw [List.concat_eq_append] at heq
      have heq' : l ++ [d] = (before ++ c :: after') ++ [d'] := by
        rw [heq, List.append_assoc]
        rfl
      exact hall before c after' (List.append_inj' heq' rfl).1

theorem column_concat (text : List UInt8) (c : UInt8) :
    column (text ++ [c]) = if c = 0x0a then 0 else column text + 1 := by
  rw [column, List.reverse_append]
  by_cases hc : c = 0x0a
  · simp [hc]
  · simp [hc, column]

theorem row_concat (text : List UInt8) (c : UInt8) :
    row (text ++ [c]) = if c = 0x0a then row text + 1 else row text := by
  by_cases hc : c = 0x0a <;> simp [row, hc]

theorem write_to_screen_concat (output : List UInt8) (c : UInt8) :
    t.write_to_screen (output ++ [c]) = (t.write_to_screen output).putByte c := by
  rw [write_to_screen, List.foldl_append]
  rfl

/-- As long as the text fits the cursor is where it ends. -/
theorem shownFrom_iff (hx : t.terminal_x = 0) (hy : t.terminal_y = 0) (output : List UInt8) :
    (ShownFrom t output ↔ Fits (output.filter (· ≠ 0x11))) ∧
      (Fits (output.filter (· ≠ 0x11)) →
        (t.write_to_screen output).terminal_x = column (output.filter (· ≠ 0x11)) ∧
        (t.write_to_screen output).terminal_y = row (output.filter (· ≠ 0x11)) ∧
        column (output.filter (· ≠ 0x11)) ≤ 80 ∧ row (output.filter (· ≠ 0x11)) ≤ 20) := by
  induction output using List.reverseRecOn with
  | nil =>
      refine ⟨iff_of_true ?_ ?_, fun _ => ⟨hx, hy, by decide, by decide⟩⟩
      · intro before c after heq
        exact absurd heq.symm (by simp)
      · intro before c after heq
        exact absurd heq.symm (by simp)
  | append_singleton output c ih =>
      obtain ⟨hiff, hcursor⟩ := ih
      have hshown : ShownFrom t (output ++ [c]) ↔ ShownFrom t output ∧ (c ≠ 0x11 →
          Shown c (t.write_to_screen output) ((t.write_to_screen output).putByte c)) :=
        forall_split_concat (p := fun before c => c ≠ 0x11 →
          Shown c (t.write_to_screen before) ((t.write_to_screen before).putByte c))
      rw [hshown, hiff, write_to_screen_concat]
      by_cases hc : c = 0x11
      · have hfilter : (output ++ [c]).filter (· ≠ 0x11) = output.filter (· ≠ 0x11) := by
          simp [hc]
        have hput : ∀ u : Terminal, (u.putByte c).terminal_x = u.terminal_x ∧
            (u.putByte c).terminal_y = u.terminal_y := by
          intro u
          rw [putByte, if_pos hc]
          exact ⟨rfl, rfl⟩
        rw [hfilter, (hput _).1, (hput _).2]
        exact ⟨and_iff_left fun h => absurd hc h, hcursor⟩
      · have hfilter : (output ++ [c]).filter (· ≠ 0x11) = output.filter (· ≠ 0x11) ++ [c] := by
          simp [hc]
        rw [hfilter]
        generalize output.filter (· ≠ 0x11) = text at *
        have hfits : Fits (text ++ [c]) ↔ Fits text ∧ row text < 20 ∧
            (c ≠ 0x0a → column text < 80) :=
          forall_split_concat
            (p := fun before c => row before < 20 ∧ (c ≠ 0x0a → column before < 80))
        rw [hfits]
        constructor
        · refine and_congr_right fun h => ?_
          obtain ⟨htx, hty, hcol, hrow⟩ := hcursor h
          rw [shown_iff hc (htx ▸ hcol) (hty ▸ hrow), htx, hty]
          exact ⟨fun hs => hs hc, fun hs _ => hs⟩
        · rintro ⟨h, hroom, hspace⟩
          obtain ⟨htx, hty, hcol, hrow⟩ := hcursor h
          rw [column_concat, row_concat]
          by_cases hnl : c = 0x0a
          · subst hnl
            obtain ⟨-, hx', hy'⟩ := putByte_newline (htx ▸ hcol) (hty ▸ hroom)
            rw [hx', hy', hty, if_pos rfl, if_pos rfl]
            exact ⟨rfl, rfl, by omega, by omega⟩
          · obtain ⟨-, hx', hy'⟩ := putByte_char hc hnl (htx ▸ hspace hnl) (hty ▸ hroom)
            have hlt := hspace hnl
            rw [hx', hy', htx, hty, if_neg hnl, if_neg hnl]
            exact ⟨rfl, rfl, by omega, by omega⟩

theorem shownFrom_append (t : Terminal) (output k : List UInt8) :
    ShownFrom t (output ++ k) ↔ ShownFrom t output ∧ ShownFrom (t.write_to_screen output) k := by
  induction k using List.reverseRecOn with
  | nil =>
      rw [List.append_nil]
      exact (and_iff_left fun before c after heq => absurd heq.symm (by simp)).symm
  | append_singleton k c ih =>
      have hconcat : ∀ (u : Terminal) (l : List UInt8), ShownFrom u (l ++ [c]) ↔
          ShownFrom u l ∧
            (c ≠ 0x11 → Shown c (u.write_to_screen l) ((u.write_to_screen l).putByte c)) :=
        fun u l => forall_split_concat (p := fun before c => c ≠ 0x11 →
          Shown c (u.write_to_screen before) ((u.write_to_screen before).putByte c))
      have hwrite : t.write_to_screen (output ++ k) = (t.write_to_screen output).write_to_screen k :=
        List.foldl_append
      rw [← List.append_assoc, hconcat, hconcat, ih, hwrite, and_assoc]

theorem write_all_eq (t : Terminal) (calls : List (List UInt8)) :
    t.write_all calls = t.write_to_screen calls.flatten := by
  induction calls generalizing t with
  | nil => rfl
  | cons k calls ih =>
      rw [List.flatten_cons, write_to_screen, List.foldl_append]
      exact ih (t.write_to_screen k)

theorem allShown_iff (t : Terminal) (calls : List (List UInt8)) :
    AllShown t calls ↔ ShownFrom t calls.flatten := by
  induction calls using List.reverseRecOn with
  | nil =>
      refine iff_of_true (fun done k rest heq => absurd heq.symm (by simp)) ?_
      exact fun before c after heq => absurd heq.symm (by simp)
  | append_singleton calls k ih =>
      have hconcat : AllShown t (calls ++ [k]) ↔
          AllShown t calls ∧ ShownFrom (t.write_all calls) k :=
        forall_split_concat (p := fun done k => ShownFrom (t.write_all done) k)
      rw [hconcat, ih, write_all_eq, List.flatten_concat, shownFrom_append]

/-- A dark screen. -/
def emptyTerminal : Terminal := ⟨fun _ => 0, 0, 0, true, 0⟩

end UnnamedOS.Devices
