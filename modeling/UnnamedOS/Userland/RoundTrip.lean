import UnnamedOS.Userland.Agreement

/-!
# Writing an argument so that it is read back

Three ways to write a string: a backslash in front of every byte, or quotes of one kind around it
with a backslash in front of that kind of quote and of a backslash.
-/

namespace UnnamedOS.Userland.Arguments

open UnnamedOS.Lib

/-- The quote on either side, if any. -/
def Quote.mark : Quote → List UInt8
  | .closed => []
  | .single => [apostrophe]
  | .double => [quotationMark]

def Quote.encodeByte (q : Quote) (c : UInt8) : List UInt8 :=
  if q = .closed ∨ q.ends c ∨ c = backslash then [backslash, c] else [c]

def encode (q : Quote) (w : List UInt8) : List UInt8 := q.mark ++ w.flatMap q.encodeByte ++ q.mark

/-- The encodings with a space between each two. -/
def join (args : List (Quote × Text)) : List UInt8 :=
  [space].intercalate (args.map fun p => encode p.1 p.2.bytes)

variable {q : Quote} {c : UInt8} {rest w : List UInt8} {ps : List (Piece UInt8)}
  {args : List (Quote × Text)} {p p' : Quote × Text}

/-! ## No zero byte -/

theorem zero_notMem_encode (q : Quote) (hw : 0 ∉ w) : 0 ∉ encode q w := by
  have hmark : ∀ q : Quote, 0 ∉ q.mark := by
    intro q
    cases q <;> decide
  have hbytes : 0 ∉ w.flatMap q.encodeByte := by
    intro hmem
    obtain ⟨c, hc, hzero⟩ := List.mem_flatMap.mp hmem
    rw [Quote.encodeByte] at hzero
    split at hzero
    · obtain hb | hzero := List.mem_cons.mp hzero
      · exact absurd hb (by decide)
      · obtain rfl := List.mem_singleton.mp hzero
        exact hw hc
    · obtain rfl := List.mem_singleton.mp hzero
      exact hw hc
  rw [encode, List.mem_append, List.mem_append]
  exact not_or_intro (not_or_intro (hmark q) hbytes) (hmark q)

theorem join_singleton (p : Quote × Text) : join [p] = encode p.1 p.2.bytes := by
  simp [join, List.intercalate]

theorem join_cons_cons (p p' : Quote × Text) (args : List (Quote × Text)) :
    join (p :: p' :: args) = encode p.1 p.2.bytes ++ space :: join (p' :: args) := by
  simp [join, List.intercalate]

theorem zero_notMem_join (args : List (Quote × Text)) : 0 ∉ join args := by
  induction args with
  | nil => simp [join, List.intercalate]
  | cons p args ih =>
      cases args with
      | nil =>
          rw [join_singleton]
          exact zero_notMem_encode p.1 p.2.noZero
      | cons p' args =>
          rw [join_cons_cons, List.mem_append, List.mem_cons]
          exact not_or_intro (zero_notMem_encode p.1 p.2.noZero) (not_or_intro (by decide) ih)

def argumentLine (args : List (Quote × Text)) : Text := ⟨join args, zero_notMem_join args⟩

/-! ## Reading back -/

theorem pieces_encoded (q : Quote) (w rest : List UInt8) :
    pieces q (w.flatMap q.encodeByte ++ rest) = (pieces q rest).map (w.map .item ++ ·) := by
  induction w with
  | nil => simp
  | cons c w ih =>
      have hcons : (pieces q (w.flatMap q.encodeByte ++ rest)).map (.item c :: ·) =
          (pieces q rest).map ((c :: w).map .item ++ ·) := by
        rw [ih, Option.map_map]
        rfl
      rw [List.flatMap_cons, List.append_assoc, ← hcons, Quote.encodeByte]
      by_cases hc : q = .closed ∨ q.ends c ∨ c = backslash
      · rw [if_pos hc]
        exact pieces_escape hc
      · rw [if_neg hc]
        exact pieces_plain (plain_of_not hc)

/-- The quotes of an encoding. -/
def Quote.reading : Quote → List (Piece UInt8)
  | .closed => []
  | _ => [.mark]

theorem firstWord_reading (q : Quote) (ps : List (Piece UInt8)) :
    firstWord (q.reading ++ ps) = firstWord ps := by
  cases q <;> rfl

theorem laterWords_reading (q : Quote) (ps : List (Piece UInt8)) :
    laterWords (q.reading ++ ps) = laterWords ps := by
  cases q <;> rfl

theorem pieces_encode (q : Quote) (w rest : List UInt8) : pieces .closed (encode q w ++ rest) =
    (pieces .closed rest).map (q.reading ++ w.map .item ++ q.reading ++ ·) := by
  have hquoted : ∀ (q : Quote) (c : UInt8), q.ends c = true →
      pieces q (w.flatMap q.encodeByte ++ c :: rest) =
        (pieces .closed rest).map (w.map .item ++ .mark :: ·) := by
    intro q c hends
    rw [pieces_encoded, pieces_close hends, Option.map_map]
    rfl
  cases q with
  | closed => simp [encode, Quote.mark, Quote.reading, pieces_encoded]
  | single =>
      simp only [encode, Quote.mark, List.append_assoc, List.cons_append, List.nil_append]
      rw [pieces_open (.inr rfl), if_pos rfl, hquoted .single apostrophe rfl, Option.map_map]
      rfl
  | double =>
      simp only [encode, Quote.mark, List.append_assoc, List.cons_append, List.nil_append]
      rw [pieces_open (.inl rfl), if_neg (by decide), hquoted .double quotationMark rfl,
        Option.map_map]
      rfl

theorem firstWord_items (w : List UInt8) (ps : List (Piece UInt8)) :
    firstWord (w.map .item ++ ps) = w ++ firstWord ps := by
  induction w with
  | nil => rfl
  | cons c w ih => rw [List.map_cons, List.cons_append, firstWord, ih, List.cons_append]

theorem laterWords_items (w : List UInt8) (ps : List (Piece UInt8)) :
    laterWords (w.map .item ++ ps) = laterWords ps := by
  induction w with
  | nil => rfl
  | cons c w ih => rw [List.map_cons, List.cons_append, laterWords, ih]

/-- What is behind an encoding is read as if it stood alone. -/
theorem words_encode (q : Quote) (w : List UInt8) (ps : List (Piece UInt8)) :
    words (q.reading ++ w.map .item ++ q.reading ++ ps) = (w ++ firstWord ps) :: laterWords ps := by
  rw [words, List.append_assoc, List.append_assoc, firstWord_reading, firstWord_items,
    firstWord_reading, laterWords_reading, laterWords_items, laterWords_reading]

/-- The words of the line are the strings. -/
theorem pieces_join (p : Quote × Text) (args : List (Quote × Text)) :
    ∃ ps, pieces .closed (join (p :: args)) = some ps ∧
      words ps = (p :: args).map fun p => p.2.bytes := by
  induction args generalizing p with
  | nil =>
      have hread := pieces_encode p.1 p.2.bytes []
      rw [List.append_nil, pieces_nil] at hread
      rw [join_singleton]
      refine ⟨_, hread, ?_⟩
      rw [words_encode, firstWord, laterWords, List.append_nil]
      rfl
  | cons p' args ih =>
      obtain ⟨ps, hps, hwords⟩ := ih p'
      have hread := pieces_encode p.1 p.2.bytes (space :: join (p' :: args))
      rw [pieces_space, hps] at hread
      rw [join_cons_cons]
      refine ⟨_, hread, ?_⟩
      rw [words_encode, firstWord, laterWords, List.append_nil, List.map_cons, ← hwords]
      rfl

/-- Every string is an argument again, with its terminator. -/
theorem quoting_round_trip (hargs : args ≠ []) (hne : ∀ p ∈ args, p.2.bytes ≠ []) :
    splitc (argumentLine args).bytes = args.length ∧
      ∀ contents, ∃ argv, splitv contents args.length (argumentLine args).bytes = .ok argv ∧
        (∀ k, (hk : k < args.length) → ∃ b, argv k = some b ∧ b.Holds args[k].2.bytes) ∧
        ∀ k, args.length ≤ k → argv k = none := by
  obtain ⟨p, args, rfl⟩ := List.exists_cons_of_ne_nil hargs
  obtain ⟨ps, hps, hwords⟩ := pieces_join p args
  have hfull : ∀ w ∈ words ps, w ≠ [] := by
    intro w hw
    rw [hwords] at hw
    obtain ⟨p', hp', rfl⟩ := List.mem_map.mp hw
    exact hne p' hp'
  have hcount : splitc (argumentLine (p :: args)).bytes = (p :: args).length := by
    rw [splitc_eq (s := (argumentLine (p :: args)).bytes) hps, hwords, List.length_map]
  refine ⟨hcount, fun contents => ?_⟩
  obtain ⟨argv, hok, hentries, hnone⟩ :=
    splitv_counted (s := argumentLine (p :: args)) contents hps
  rw [hcount] at hok
  rw [squeeze_eq_self fun w hw => hfull w (List.mem_cons_of_mem _ hw)] at hentries hnone
  have hlen : (words ps).length = (p :: args).length := by rw [hwords, List.length_map]
  refine ⟨argv, hok, fun k hk => ?_, fun k hk => hnone k (hlen ▸ hk)⟩
  have hk' : k < (words ps).length := hlen.symm ▸ hk
  obtain ⟨b, hb, hfilled⟩ := hentries k hk'
  have hword : (words ps)[k] = (p :: args)[k].2.bytes := by
    simp only [hwords, List.getElem_map]
  rw [hword] at hfilled
  exact ⟨b, hb, hfilled.holds (hne _ (List.getElem_mem hk))⟩

/-- `"a b"`, a quotation mark and `it's`. -/
theorem quoting_round_trip_three : ∃ args : List (Quote × Text), args.length = 3 ∧
    splitc (argumentLine args).bytes = args.length ∧
      ∀ contents, ∃ argv, splitv contents args.length (argumentLine args).bytes = .ok argv ∧
        (∀ k, (hk : k < args.length) → ∃ b, argv k = some b ∧ b.Holds args[k].2.bytes) ∧
        ∀ k, args.length ≤ k → argv k = none :=
  ⟨[(.double, ⟨[0x61, space, 0x62], by decide⟩), (.closed, ⟨[quotationMark], by decide⟩),
    (.single, ⟨[0x69, 0x74, apostrophe, 0x73], by decide⟩)], rfl,
    quoting_round_trip (by simp) (by simp)⟩

end UnnamedOS.Userland.Arguments
