import UnnamedOS.Lib.Effects
import UnnamedOS.Userland.Quoting

/-!
# What `splitv` stores

Each byte of an argument goes through `realloc`, which makes the block larger by one and keeps the
bytes before. An argument without bytes stays the block that `malloc` gave.
-/

namespace UnnamedOS.Userland.Arguments

open UnnamedOS.Lib

variable {contents : Nat → Nat → UInt8} {argc n k : Nat} {q : Quote} {c d : UInt8}
  {rest s w : List UInt8} {ps qs : List (Piece UInt8)} {ws : List (List UInt8)}
  {t t' : Split} {a b : Block} {argv : Nat → Option Block}

/-- The block of an argument that reads `w` so far. -/
def Filled (contents : Nat → Nat → UInt8) (a : Block) (w : List UInt8) : Prop :=
  (w = [] ∧ ∃ m, a = ⟨2, contents m⟩) ∨ (w ≠ [] ∧ a.size = w.length + 1 ∧ a.Holds w)

theorem Filled.holds (h : Filled contents a w) (hw : w ≠ []) : a.Holds w := by
  rcases h with ⟨hnil, -⟩ | ⟨-, -, hholds⟩
  · exact absurd hnil hw
  · exact hholds

theorem Filled.size_le (h : Filled contents a w) : a.size ≤ w.length + 2 := by
  rcases h with ⟨rfl, m, rfl⟩ | ⟨-, hsize, -⟩
  · exact Nat.le_refl 2
  · omega

/-- The loop is in an argument that reads `w` so far. -/
structure Current (contents : Nat → Nat → UInt8) (t : Split) (w : List UInt8) : Prop where
  block : ∃ a, t.argv t.k = some a ∧ Filled contents a w
  il : t.il = w.length + 1

/-- One byte more. -/
theorem addcv_spec (h : Current contents t w) (hk : t.k < argc) (c : UInt8) :
    ∃ t', t.addcv contents argc c = .ok t' ∧ Current contents t' (w ++ [c]) ∧ t'.k = t.k ∧
      t'.inquote = t.inquote ∧ ∀ j, j ≠ t.k → t'.argv j = t.argv j := by
  obtain ⟨⟨a, ha, hfilled⟩, hil⟩ := h
  have hsize : a.size ≤ t.il + 1 := by
    have hle := hfilled.size_le
    omega
  let data : Nat → UInt8 := Function.update (Function.update
    (fun i => if i < a.size then a.data i else contents t.mallocs i) t.il 0) (t.il - 1) c
  refine ⟨{ t with
    il := t.il + 1
    mallocs := t.mallocs + 1
    argv := Function.update t.argv t.k (some ⟨t.il + 1, data⟩) }, ?_,
    ⟨⟨⟨t.il + 1, data⟩, Function.update_self .., .inr ⟨by simp, ?_, ?_, ?_, ?_⟩⟩, ?_⟩, rfl, rfl,
    fun j hj => Function.update_of_ne hj ..⟩
  · rw [Split.addcv, ha]
    dsimp only
    rw [Split.realloc, Split.malloc]
    dsimp only
    rw [if_pos hsize]
    change (do
      let u ← Split.store argc { t with mallocs := t.mallocs + 1 } ⟨t.il + 1, data⟩
      pure { u with il := u.il + 1 }) = _
    rw [Split.store, if_pos hk]
    rfl
  · change t.il + 1 = _
    rw [List.length_append, List.length_singleton, hil]
  · change (w ++ [c]).length < t.il + 1
    rw [List.length_append, List.length_singleton, hil]
    exact Nat.lt_succ_self _
  · intro i hi
    rw [List.length_append, List.length_singleton] at hi
    change data i = _
    by_cases hlast : i = w.length
    · subst hlast
      have hindex : t.il - 1 = w.length := by omega
      simp [data, hindex]
    · have hlt : i < w.length := by omega
      have hw : w ≠ [] := fun hnil => by
        rw [hnil] at hlt
        exact absurd hlt (Nat.not_lt_zero i)
      obtain ⟨hbig, hbytes, -⟩ := hfilled.holds hw
      have hne : i ≠ t.il - 1 := by omega
      have hne' : i ≠ t.il := by omega
      have hin : i < a.size := by omega
      rw [List.getElem_append_left hlt, ← hbytes i hlt]
      simp only [data]
      rw [Function.update_of_ne hne, Function.update_of_ne hne', if_pos hin]
  · have hindex : (w ++ [c]).length = t.il := by
      rw [List.length_append, List.length_singleton, hil]
    have hne : t.il ≠ t.il - 1 := by omega
    change data (w ++ [c]).length = 0
    rw [hindex]
    simp only [data]
    rw [Function.update_of_ne hne, Function.update_self]
  · change t.il + 1 = _
    rw [List.length_append, List.length_singleton, hil]

theorem nextArgument_spec (hk : t.k + 1 < argc) (contents : Nat → Nat → UInt8) :
    ∃ t', t.nextArgument contents argc = .ok t' ∧ Current contents t' [] ∧ t'.k = t.k + 1 ∧
      t'.inquote = t.inquote ∧ ∀ j, j ≠ t.k + 1 → t'.argv j = t.argv j := by
  refine ⟨{ t with
    il := 1
    k := t.k + 1
    mallocs := t.mallocs + 1
    argv := Function.update t.argv (t.k + 1) (some ⟨2, contents t.mallocs⟩) }, ?_,
    ⟨⟨_, Function.update_self .., .inl ⟨rfl, t.mallocs, rfl⟩⟩, rfl⟩, rfl, rfl,
    fun j hj => Function.update_of_ne hj ..⟩
  rw [Split.nextArgument, Split.malloc]
  dsimp only
  rw [Split.store, if_pos hk]

/-! ## One round -/

theorem scan_escape (h : t.inquote = .closed ∨ t.inquote.ends d ∨ d = backslash) :
    Split.scan contents argc (n + 1) (backslash :: d :: rest) t = (do
      let t ← t.addcv contents argc d
      Split.scan contents argc n rest t) := by
  rw [Split.scan, if_pos rfl]
  by_cases hq : t.inquote = .closed
  · rw [if_neg (not_not.mpr hq)]
  · have hnext : t.inquote.ends ((d :: rest).headD 0) = true ∨ (d :: rest).headD 0 = backslash :=
      h.resolve_left hq
    rw [if_pos hq, if_pos hnext]
    rfl

theorem scan_backslash (h : ¬ (t.inquote = .closed ∨ t.inquote.ends d ∨ d = backslash)) :
    Split.scan contents argc (n + 1) (backslash :: d :: rest) t = (do
      let t ← t.addcv contents argc backslash
      Split.scan contents argc n (d :: rest) t) := by
  rw [not_or] at h
  have hnext : ¬ (t.inquote.ends ((d :: rest).headD 0) = true ∨
      (d :: rest).headD 0 = backslash) := h.2
  rw [Split.scan, if_pos rfl, if_pos h.1, if_neg hnext]

theorem scan_end (h : t.inquote ≠ .closed) :
    Split.scan contents argc (n + 1) [backslash] t = (do
      let t ← t.addcv contents argc backslash
      Split.scan contents argc n [] t) := by
  have hends : ∀ q : Quote, ¬ (q.ends 0 = true ∨ (0 : UInt8) = backslash) := by
    intro q
    cases q <;> decide
  rw [Split.scan, if_pos rfl, if_pos h]
  exact if_neg (hends t.inquote)

theorem scan_dangling (h : t.inquote = .closed) :
    Split.scan contents argc (n + 1) [backslash] t = (do
      let _ ← t.addcv contents argc 0
      .error .beyond) := by
  rw [Split.scan, if_pos rfl, if_neg (not_not.mpr h)]

theorem scan_plain (h : Plain t.inquote c) :
    Split.scan contents argc (n + 1) (c :: rest) t = (do
      let t ← t.addcv contents argc c
      Split.scan contents argc n rest t) := by
  obtain ⟨hb, hclosed, hends⟩ := h
  rw [Split.scan.eq_def]
  dsimp only
  rw [if_neg hb]
  by_cases hq : t.inquote = .closed
  · obtain ⟨hquot, hapo, hspace⟩ := hclosed hq
    have hnospace : ¬ (c = space ∧ t.inquote = .closed) := fun h => hspace h.1
    rw [if_neg (not_or_intro hquot hapo), if_neg hnospace]
  · have hnot : ¬ t.inquote.ends c = true := by rw [hends]; decide
    have hnospace : ¬ (c = space ∧ t.inquote = .closed) := fun h => hq h.2
    by_cases hquote : c = quotationMark ∨ c = apostrophe
    · rw [if_pos hquote, if_neg hnot, if_neg hq]
    · rw [if_neg hquote, if_neg hnospace]

theorem scan_open (hq : t.inquote = .closed) (h : c = quotationMark ∨ c = apostrophe) :
    Split.scan contents argc (n + 1) (c :: rest) t =
      Split.scan contents argc n rest
        { t with inquote := if c = apostrophe then .single else .double } := by
  have hb : c ≠ backslash := by rcases h with rfl | rfl <;> decide
  have hends : ¬ t.inquote.ends c = true := by rw [hq]; simp [Quote.ends]
  rw [Split.scan.eq_def]
  dsimp only
  rw [if_neg hb, if_pos h, if_neg hends, if_pos hq]

theorem scan_close (h : t.inquote.ends c = true) :
    Split.scan contents argc (n + 1) (c :: rest) t =
      Split.scan contents argc n rest { t with inquote := .closed } := by
  have hc : c = quotationMark ∨ c = apostrophe := by
    simp only [Quote.ends, Bool.or_eq_true, Bool.and_eq_true, beq_iff_eq] at h
    rcases h with ⟨rfl, -⟩ | ⟨rfl, -⟩
    · exact .inr rfl
    · exact .inl rfl
  have hb : c ≠ backslash := by rcases hc with rfl | rfl <;> decide
  rw [Split.scan.eq_def]
  dsimp only
  rw [if_neg hb, if_pos hc, if_pos h]

theorem scan_space (hq : t.inquote = .closed) :
    Split.scan contents argc (n + 1) (space :: rest) t = (do
      let t ← t.nextArgument contents argc
      Split.scan contents argc n (rest.dropWhile (· = space)) t) := by
  rw [Split.scan.eq_def]
  dsimp only
  rw [if_neg (by decide), if_neg (by decide), if_pos ⟨rfl, hq⟩]

/-! ## A run -/

theorem dropWhile_of_ne (hc : c ≠ space) (h : pieces .closed (c :: rest) = some ps) :
    ps.dropWhile Piece.isCut = ps := by
  have hitem : ∀ (p : Piece UInt8) (o : Option (List (Piece UInt8))), p.isCut = false →
      o.map (p :: ·) = some ps → ps.dropWhile Piece.isCut = ps := by
    intro p o hp ho
    obtain ⟨qs, -, rfl⟩ := Option.map_eq_some_iff.mp ho
    exact List.dropWhile_cons_of_neg (by rw [hp]; decide)
  rcases byte_cases .closed c with rfl | hplain | ⟨-, hquote⟩ | hends | ⟨-, rfl⟩
  · cases rest with
    | nil =>
        rw [pieces, if_pos rfl] at h
        exact absurd h (by simp)
    | cons d rest =>
        rw [pieces_escape (.inl rfl)] at h
        exact hitem _ _ rfl h
  · rw [pieces_plain hplain] at h
    exact hitem _ _ rfl h
  · rw [pieces_open hquote] at h
    exact hitem _ _ rfl h
  · rw [pieces_close hends] at h
    exact hitem _ _ rfl h
  · exact absurd rfl hc

/-- Where `splitv` skips spaces it skips cuts. -/
theorem pieces_dropWhile (rest : List UInt8) : pieces .closed (rest.dropWhile (· = space)) =
    (pieces .closed rest).map (List.dropWhile Piece.isCut) := by
  induction rest with
  | nil =>
      rw [List.dropWhile_nil, pieces_nil]
      rfl
  | cons c rest ih =>
      by_cases hc : c = space
      · subst hc
        rw [List.dropWhile_cons_of_pos (by simp), ih, pieces_space, Option.map_map]
        congr 1
      · rw [List.dropWhile_cons_of_neg (by simpa using hc)]
        cases h : pieces .closed (c :: rest) with
        | none => rfl
        | some ps => rw [Option.map_some, dropWhile_of_ne hc h]

/-- The entries from `k` on are those of the words, and there are no others. -/
def Stored (contents : Nat → Nat → UInt8) (argv : Nat → Option Block) :
    Nat → List (List UInt8) → Prop
  | k, [] => ∀ j, k ≤ j → argv j = none
  | k, w :: ws => (∃ a, argv k = some a ∧ Filled contents a w) ∧ Stored contents argv (k + 1) ws

theorem Stored.entry (h : Stored contents argv k ws) {j : Nat} (hj : j < ws.length) :
    ∃ a, argv (k + j) = some a ∧ Filled contents a ws[j] := by
  induction ws generalizing k j with
  | nil => exact absurd hj (Nat.not_lt_zero j)
  | cons w ws ih =>
      cases j with
      | zero => exact h.1
      | succ j =>
          have hlt : j < ws.length := Nat.lt_of_succ_lt_succ hj
          have hindex : k + (j + 1) = k + 1 + j := by omega
          rw [hindex]
          exact ih h.2 hlt

theorem Stored.none (h : Stored contents argv k ws) {j : Nat} (hj : k + ws.length ≤ j) :
    argv j = none := by
  induction ws generalizing k with
  | nil => exact h j hj
  | cons w ws ih =>
      rw [List.length_cons] at hj
      exact ih h.2 (by omega)

/-- From an argument that reads `w` so far, with nothing behind it, to the end of the string. -/
def Splits (contents : Nat → Nat → UInt8) (argc n : Nat) : Prop :=
  ∀ {t : Split} {rest w : List UInt8} {ps : List (Piece UInt8)}, rest.length < n →
    pieces t.inquote rest = some ps → Current contents t w →
    t.k + (laterWords (squeeze ps)).length < argc → (∀ j, t.k < j → t.argv j = none) →
    ∃ t', Split.scan contents argc n rest t = .ok t' ∧ (∀ j < t.k, t'.argv j = t.argv j) ∧
      Stored contents t'.argv t.k ((w ++ firstWord ps) :: laterWords (squeeze ps))

theorem Splits.item (ih : Splits contents argc n) (hn : rest.length < n)
    (h : (pieces t.inquote rest).map (.item d :: ·) = some ps) (hcur : Current contents t w)
    (hargc : t.k + (laterWords (squeeze ps)).length < argc) (hfree : ∀ j, t.k < j → t.argv j = none) :
    ∃ t', (do
        let t ← t.addcv contents argc d
        Split.scan contents argc n rest t) = .ok t' ∧
      (∀ j < t.k, t'.argv j = t.argv j) ∧
      Stored contents t'.argv t.k ((w ++ firstWord ps) :: laterWords (squeeze ps)) := by
  obtain ⟨qs, hqs, rfl⟩ := Option.map_eq_some_iff.mp h
  rw [squeeze_item, laterWords] at hargc ⊢
  have hk : t.k < argc := Nat.lt_of_le_of_lt (Nat.le_add_right _ _) hargc
  obtain ⟨t₁, hadd, hcur₁, hk₁, hquote₁, hsame⟩ := addcv_spec hcur hk d
  obtain ⟨t', hscan, hkept, hstored⟩ := ih hn (hquote₁ ▸ hqs) hcur₁ (hk₁ ▸ hargc)
    fun j hj => (hsame j (by omega)).trans (hfree j (by omega))
  rw [hk₁] at hkept hstored
  refine ⟨t', ?_, fun j hj => (hkept j hj).trans (hsame j (by omega)), ?_⟩
  · rw [hadd]
    exact hscan
  · rw [firstWord, List.append_cons]
    exact hstored

theorem Splits.mark (ih : Splits contents argc n) (hn : rest.length < n)
    (h : (pieces q rest).map (.mark :: ·) = some ps) (hcur : Current contents t w)
    (hargc : t.k + (laterWords (squeeze ps)).length < argc) (hfree : ∀ j, t.k < j → t.argv j = none) :
    ∃ t', Split.scan contents argc n rest { t with inquote := q } = .ok t' ∧
      (∀ j < t.k, t'.argv j = t.argv j) ∧
      Stored contents t'.argv t.k ((w ++ firstWord ps) :: laterWords (squeeze ps)) := by
  obtain ⟨qs, hqs, rfl⟩ := Option.map_eq_some_iff.mp h
  rw [squeeze_mark, laterWords] at hargc ⊢
  have hcur' : Current contents { t with inquote := q } w := ⟨hcur.block, hcur.il⟩
  have hqs' : pieces ({ t with inquote := q } : Split).inquote rest = some qs := hqs
  have hrun := ih hn hqs' hcur' hargc hfree
  exact hrun

theorem Splits.cut (ih : Splits contents argc n) (hn : rest.length < n) (hq : t.inquote = .closed)
    (h : (pieces .closed rest).map (.cut :: ·) = some ps) (hcur : Current contents t w)
    (hargc : t.k + (laterWords (squeeze ps)).length < argc) (hfree : ∀ j, t.k < j → t.argv j = none) :
    ∃ t', (do
        let t ← t.nextArgument contents argc
        Split.scan contents argc n (rest.dropWhile (· = space)) t) = .ok t' ∧
      (∀ j < t.k, t'.argv j = t.argv j) ∧
      Stored contents t'.argv t.k ((w ++ firstWord ps) :: laterWords (squeeze ps)) := by
  obtain ⟨qs, hqs, rfl⟩ := Option.map_eq_some_iff.mp h
  have hrest : pieces .closed (rest.dropWhile (· = space)) = some (qs.dropWhile Piece.isCut) := by
    rw [pieces_dropWhile, hqs, Option.map_some]
  rw [squeeze_cut, laterWords, List.length_cons] at hargc
  have hk : t.k + 1 < argc := by omega
  obtain ⟨t₁, hnext, hcur₁, hk₁, hquote₁, hsame⟩ := nextArgument_spec hk contents
  have hlen : (rest.dropWhile (· = space)).length < n :=
    Nat.lt_of_le_of_lt (List.dropWhile_sublist _).length_le hn
  obtain ⟨t', hscan, hkept, hstored⟩ := ih hlen ((hquote₁.trans hq).symm ▸ hrest) hcur₁
    (by omega) fun j hj => (hsame j (by omega)).trans (hfree j (by omega))
  rw [hk₁] at hkept hstored
  have hbelow : ∀ j < t.k + 1, t'.argv j = t.argv j := fun j hj =>
    (hkept j hj).trans (hsame j (by omega))
  refine ⟨t', ?_, fun j hj => hbelow j (by omega), ?_⟩
  · rw [hnext]
    exact hscan
  · rw [squeeze_cut, laterWords, firstWord_squeeze, firstWord, List.append_nil]
    obtain ⟨a, ha, hfilled⟩ := hcur.block
    exact ⟨⟨a, (hbelow t.k (Nat.lt_succ_self _)).trans ha, hfilled⟩, hstored⟩

/-- Over the rounds. -/
theorem scan_run (contents : Nat → Nat → UInt8) (argc n : Nat) : Splits contents argc n := by
  induction n with
  | zero => exact fun hn => absurd hn (Nat.not_lt_zero _)
  | succ n ih =>
      intro t rest w ps hn h hcur hargc hfree
      cases rest with
      | nil =>
          rw [pieces_nil] at h
          obtain rfl := Option.some.inj h
          obtain ⟨a, ha, hfilled⟩ := hcur.block
          rw [firstWord, List.append_nil]
          exact ⟨t, rfl, fun _ _ => rfl, ⟨a, ha, hfilled⟩, fun j hj => hfree j hj⟩
      | cons c rest =>
          rw [List.length_cons] at hn
          rcases byte_cases t.inquote c with rfl | hplain | ⟨hq, hquote⟩ | hends | ⟨hq, rfl⟩
          · cases rest with
            | nil =>
                rw [pieces, if_pos rfl] at h
                split at h
                · cases h
                · rename_i hq
                  have hitem : (pieces t.inquote []).map (.item backslash :: ·) = some ps := by
                    rw [pieces_nil]
                    exact h
                  rw [scan_end hq]
                  exact ih.item (by omega) hitem hcur hargc hfree
            | cons d rest =>
                rw [List.length_cons] at hn
                by_cases hd : t.inquote = .closed ∨ t.inquote.ends d ∨ d = backslash
                · rw [pieces_escape hd] at h
                  rw [scan_escape hd]
                  exact ih.item (by omega) h hcur hargc hfree
                · rw [pieces_backslash hd] at h
                  rw [scan_backslash hd]
                  exact ih.item (by rw [List.length_cons]; omega) h hcur hargc hfree
          · rw [pieces_plain hplain] at h
            rw [scan_plain hplain]
            exact ih.item (by omega) h hcur hargc hfree
          · rw [hq, pieces_open hquote] at h
            rw [scan_open hq hquote]
            exact ih.mark (by omega) h hcur hargc hfree
          · rw [pieces_close hends] at h
            rw [scan_close hends]
            exact ih.mark (by omega) h hcur hargc hfree
          · rw [hq, pieces_space] at h
            rw [scan_space hq]
            exact ih.cut (by omega) hq h hcur hargc hfree

/-- What `splitv` gives for room for at least the words that are left of the runs of spaces. -/
theorem splitv_spec (contents : Nat → Nat → UInt8) (h : pieces .closed s = some ps)
    (hargc : (words (squeeze ps)).length ≤ argc) :
    ∃ argv, splitv contents argc s = .ok argv ∧ Stored contents argv 0 (words (squeeze ps)) := by
  rw [words, List.length_cons] at hargc
  let t : Split := ⟨.closed, 0, 1, Function.update (fun _ => none) 0 (some ⟨2, contents 0⟩), 1⟩
  have hentry : t.argv t.k = some ⟨2, contents 0⟩ := by
    change Function.update (fun _ => none) 0 (some (Block.mk 2 (contents 0))) 0 = _
    exact Function.update_self ..
  have hcur : Current contents t [] := ⟨⟨_, hentry, .inl ⟨rfl, 0, rfl⟩⟩, rfl⟩
  have hfree : ∀ j, t.k < j → t.argv j = none := by
    intro j hj
    change Function.update (fun _ => none) 0 (some (Block.mk 2 (contents 0))) j = _
    exact Function.update_of_ne (Nat.ne_of_gt hj) ..
  have hroom : t.k + (laterWords (squeeze ps)).length < argc := by
    change 0 + _ < argc
    omega
  obtain ⟨t', hscan, -, hstored⟩ :=
    scan_run contents argc (s.length + 1) (Nat.lt_succ_self _) h hcur hroom hfree
  refine ⟨t'.argv, ?_, ?_⟩
  · rw [splitv, Split.malloc]
    dsimp only
    have hpos : 0 < argc := Nat.lt_of_le_of_lt (Nat.zero_le _) hargc
    rw [Split.store, if_pos hpos]
    change (do
      let t ← Split.scan contents argc (s.length + 1) s t
      pure t.argv) = _
    rw [hscan]
    rfl
  · rw [words, firstWord_squeeze]
    exact hstored

/-! ## A backslash at the end -/

theorem store_inquote {u : Split} (h : u.store argc b = .ok t') : t'.inquote = u.inquote := by
  rw [Split.store] at h
  split at h
  · cases h
    rfl
  · cases h

theorem addcv_inquote (h : t.addcv contents argc c = .ok t') : t'.inquote = t.inquote := by
  rw [Split.addcv] at h
  split at h
  · cases h
  · obtain ⟨⟨b, t₁⟩, hrealloc, h⟩ := bind_ok h
    obtain ⟨t₂, hstore, h⟩ := bind_ok h
    cases h
    rw [Split.realloc] at hrealloc
    dsimp only [Split.malloc] at hrealloc
    split at hrealloc
    · cases hrealloc
      have hquote := store_inquote hstore
      exact hquote
    · cases hrealloc

theorem nextArgument_inquote (h : t.nextArgument contents argc = .ok t') :
    t'.inquote = t.inquote := by
  rw [Split.nextArgument, Split.malloc] at h
  dsimp only at h
  have hquote := store_inquote h
  exact hquote

/-- A round that stores a byte reads on as before. -/
theorem item_never (ih : ∀ {u : Split}, pieces u.inquote rest = none →
      Split.scan contents argc n rest u ≠ .ok t')
    (h : (pieces t.inquote rest).map (.item d :: ·) = none) : (do
      let t ← t.addcv contents argc d
      Split.scan contents argc n rest t) ≠ .ok t' := by
  intro hok
  obtain ⟨t₁, hadd, hscan⟩ := bind_ok hok
  rw [Option.map_eq_none_iff, ← addcv_inquote hadd] at h
  exact ih h hscan

theorem scan_never {contents : Nat → Nat → UInt8} (hn : rest.length < n)
    (h : pieces t.inquote rest = none) : Split.scan contents argc n rest t ≠ .ok t' := by
  induction n generalizing t rest with
  | zero => exact absurd hn (Nat.not_lt_zero _)
  | succ n ih =>
      cases rest with
      | nil =>
          rw [pieces_nil] at h
          cases h
      | cons c rest =>
          rw [List.length_cons] at hn
          rcases byte_cases t.inquote c with rfl | hplain | ⟨hq, hquote⟩ | hends | ⟨hq, rfl⟩
          · cases rest with
            | nil =>
                rw [pieces, if_pos rfl] at h
                split at h
                · rename_i hq
                  rw [scan_dangling hq]
                  intro hok
                  obtain ⟨_, -, hbeyond⟩ := bind_ok hok
                  cases hbeyond
                · cases h
            | cons d rest =>
                rw [List.length_cons] at hn
                by_cases hd : t.inquote = .closed ∨ t.inquote.ends d ∨ d = backslash
                · rw [pieces_escape hd] at h
                  rw [scan_escape hd]
                  exact item_never (fun hu => ih (by omega) hu) h
                · rw [pieces_backslash hd] at h
                  rw [scan_backslash hd]
                  exact item_never (fun hu => ih (by rw [List.length_cons]; omega) hu) h
          · rw [pieces_plain hplain] at h
            rw [scan_plain hplain]
            exact item_never (fun hu => ih (by omega) hu) h
          · rw [hq, pieces_open hquote, Option.map_eq_none_iff] at h
            rw [scan_open hq hquote]
            exact ih (by omega) h
          · rw [pieces_close hends, Option.map_eq_none_iff] at h
            rw [scan_close hends]
            exact ih (by omega) h
          · rw [hq, pieces_space, Option.map_eq_none_iff] at h
            rw [scan_space hq]
            intro hok
            obtain ⟨t₁, hnext, hscan⟩ := bind_ok hok
            have hlen : (rest.dropWhile (· = space)).length < n :=
              Nat.lt_of_le_of_lt (List.dropWhile_sublist _).length_le (by omega)
            have hnone : pieces t₁.inquote (rest.dropWhile (· = space)) = none := by
              rw [nextArgument_inquote hnext, hq, pieces_dropWhile, h, Option.map_none]
            exact ih hlen hnone hscan

theorem splitv_never (h : pieces .closed s = none) : splitv contents argc s ≠ .ok argv := by
  intro hok
  rw [splitv, Split.malloc] at hok
  dsimp only at hok
  obtain ⟨t₁, hstore, hok⟩ := bind_ok hok
  obtain ⟨t₂, hscan, -⟩ := bind_ok hok
  have hquote : t₁.inquote = .closed := store_inquote hstore
  have hnone : pieces t₁.inquote s = none := by rw [hquote]; exact h
  exact scan_never (Nat.lt_succ_self _) hnone hscan

end UnnamedOS.Userland.Arguments
