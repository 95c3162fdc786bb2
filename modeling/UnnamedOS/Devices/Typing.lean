import UnnamedOS.Devices.Keyboard
import UnnamedOS.Lib.Bytes

/-!
# What typing spells

The image builder writes four layers of characters to `/etc/keymap`, from which the driver takes
them. While `keyboard_is_raw` is 0 the driver writes the character of every key that is released and
is neither a modifier's nor an extended one.
-/

namespace UnnamedOS.Devices

open UnnamedOS.Lib

/-! ## The keymap -/

def qwerty : List UInt8 :=
  [0x0, 0x1b, 0x31, 0x32, 0x33, 0x34, 0x35, 0x36, 0x37, 0x38, 0x39, 0x30, 0x2d, 0x3d, 0x8, 0x9,
    0x71, 0x77, 0x65, 0x72, 0x74, 0x79, 0x75, 0x69, 0x6f, 0x70, 0x5b, 0x5d, 0xa, 0x0, 0x61, 0x73,
    0x64, 0x66, 0x67, 0x68, 0x6a, 0x6b, 0x6c, 0x3b, 0x27, 0x60, 0x0, 0x5c, 0x7a, 0x78, 0x63, 0x76,
    0x62, 0x6e, 0x6d, 0x2c, 0x2e, 0x2f, 0x0, 0x2a, 0x0, 0x20, 0x0, 0x0, 0x0, 0x0, 0x0, 0x0,
    0x0, 0x0, 0x0, 0x0, 0x0, 0x0, 0x0, 0x37, 0x38, 0x39, 0x2d, 0x34, 0x35, 0x36, 0x2b, 0x31,
    0x32, 0x33, 0x30, 0x2e]

def qwertySHIFT : List UInt8 :=
  [0x0, 0x1b, 0x21, 0x40, 0x23, 0x24, 0x25, 0x5e, 0x26, 0x2a, 0x28, 0x29, 0x5f, 0x2b, 0x8, 0x9,
    0x51, 0x57, 0x45, 0x52, 0x54, 0x59, 0x55, 0x49, 0x4f, 0x50, 0x7b, 0x7d, 0xa, 0x0, 0x41, 0x53,
    0x44, 0x46, 0x47, 0x48, 0x4a, 0x4b, 0x4c, 0x3a, 0x22, 0x7e, 0x0, 0x5c, 0x5a, 0x58, 0x43, 0x56,
    0x42, 0x4e, 0x4d, 0x3c, 0x3e, 0x3f, 0x0, 0x2a, 0x0, 0x20, 0x0, 0x0, 0x0, 0x0, 0x0, 0x0,
    0x0, 0x0, 0x0, 0x0, 0x0, 0x0, 0x0, 0x37, 0x38, 0x39, 0x2d, 0x34, 0x35, 0x36, 0x2b, 0x31,
    0x32, 0x33, 0x30, 0x2e]

/-- What `/etc/keymap` holds. The copies leave the last character of each table out. -/
def constructKeymap : List UInt8 :=
  let K := List.replicate 0x200 0
  let K := splice K 0 (qwerty.take 0x53)
  let K := splice K 0x80 (qwertySHIFT.take 0x53)
  let K := splice K 0x100 (qwerty.take 0x53)
  splice K 0x180 (qwertySHIFT.take 0x53)

/-- `KeyMap` has read the file into its page. -/
def Keyboard.Loaded (kb : Keyboard) : Prop :=
  ∀ i : UInt16, i.toNat < 0x200 → kb.KM i = constructKeymap.getD i.toNat 0

/-- The character of a key. The right alt key changes none. -/
def character (shift : Bool) (code : Fin 128) : UInt8 :=
  if code.val < 0x53 then (if shift then qwertySHIFT else qwerty).getD code 0 else 0

/-- Every second layer is one of the shift keys. -/
theorem constructKeymap_eq : constructKeymap = (List.range 0x200).map fun i =>
    character (i / 0x80 % 2 == 1) (.ofNat 128 i) := by
  decide +kernel

theorem constructKeymap_layers (shift alt : Bool) (code : Fin 128) :
    constructKeymap.getD (code + (if shift then 0x80 else 0) + if alt then 0x100 else 0) 0 =
      character shift code := by
  have hlt := code.isLt
  have hlayer : ∀ i : Nat, i < 0x200 → i % 128 = code.val → (i / 0x80 % 2 == 1) = shift →
      constructKeymap.getD i 0 = character shift code := by
    rintro i hi hmod rfl
    have hcode : Fin.ofNat 128 i = code := Fin.ext hmod
    rw [constructKeymap_eq, List.getD_eq_getElem _ _ (by simpa using hi), List.getElem_map,
      List.getElem_range, hcode]
  cases shift <;> cases alt <;> simp only [Bool.false_eq_true, if_false, if_true]
  all_goals
    apply hlayer _ (by omega) (by omega)
    simp
    omega

/-- No key switches the mode of the keyboard. -/
theorem character_ne_modeset (shift : Bool) (code : Fin 128) : character shift code ≠ 0x11 := by
  revert shift code
  decide +kernel

variable {kb : Keyboard} {d d' : Driver} {e : KeyEvent} {k : Key} {past events : List KeyEvent}
  {states : UInt8} {out : List Written}

theorem KeyMap_loaded (hkb : kb.Loaded) (code : Fin 128) (states : UInt8) :
    kb.KeyMap (.ofNat code) states =
      character (decide (states &&& 0x3 ≠ 0)) code := by
  have hcode : ∀ code : Fin 128, ((.ofNat code : UInt8).toUInt16).toNat = code ∧
      ((.ofNat code : UInt8).toUInt16 + 0x80).toNat = code + 0x80 ∧
      ((.ofNat code : UInt8).toUInt16 + 0x100).toNat = code + 0x100 ∧
      ((.ofNat code : UInt8).toUInt16 + 0x80 + 0x100).toNat = code + 0x80 + 0x100 := by
    decide +kernel
  obtain ⟨hplain, hshift, halt, hboth⟩ := hcode code
  have hlt := code.isLt
  rw [Keyboard.KeyMap]
  by_cases h3 : states &&& 0x3 ≠ 0 <;> by_cases h8 : states &&& 0x8 ≠ 0
  · rw [if_pos h3, if_pos h8, hkb _ (by omega), hboth, decide_eq_true h3]
    exact constructKeymap_layers true true code
  · rw [if_pos h3, if_neg h8, hkb _ (by omega), hshift, decide_eq_true h3]
    exact constructKeymap_layers true false code
  · rw [if_neg h3, if_pos h8, hkb _ (by omega), halt, decide_eq_false h3]
    exact constructKeymap_layers false true code
  · rw [if_neg h3, if_neg h8, hkb _ (by omega), hplain, decide_eq_false h3]
    exact constructKeymap_layers false false code

/-! ## One event -/

/-- What an event makes the driver write while `keyboard_is_raw` is 0. -/
def KeyEvent.cooked (kb : Keyboard) (states : UInt8) : KeyEvent → List Written
  | .make _ => []
  | .release k =>
    if k.extended = false ∧ k.flips = none then [.character (kb.KeyMap (.ofNat k.code) states)]
    else []

theorem pR_lastByte (e : KeyEvent) :
    (e.lastByte &&& 0x80) >>> 7 ≠ 0 ↔ ∃ k, e = .release k := by
  have hmake : ∀ c : Fin 128, ((.ofNat c : UInt8) &&& 0x80) >>> 7 = 0 := by decide
  have hrelease : ∀ c : Fin 128, ((.ofNat c ||| 0x80 : UInt8) &&& 0x80) >>> 7 ≠ 0 := by decide
  cases e with
  | make k =>
      apply iff_of_false (not_not_intro (hmake k.code))
      intro h
      obtain ⟨j, hj⟩ := h
      cases hj
  | release k => exact iff_of_true (hrelease k.code) ⟨k, rfl⟩

theorem cooked_of_flips {bit : UInt8} (h : e.key.flips = some bit) : e.cooked kb states = [] := by
  cases e with
  | make k => rfl
  | release k =>
      have hnone : ¬ (k.extended = false ∧ k.flips = none) := by
        intro hk
        rw [KeyEvent.key, hk.2] at h
        cases h
      rw [KeyEvent.cooked, if_neg hnone]

theorem cooked_of_extended (h : e.key.extended = true) : e.cooked kb states = [] := by
  cases e with
  | make k => rfl
  | release k =>
      have hnone : ¬ (k.extended = false ∧ k.flips = none) := by
        intro hk
        rw [KeyEvent.key, hk.1] at h
        cases h
      rw [KeyEvent.cooked, if_neg hnone]

theorem read_extended_cooked (hch : kb.PS2_KB_CHANNEL &&& 0x1 ≠ 0) (hd : d.extended = true)
    (he : e.key.extended = true) (h : d.read kb false e.lastByte = .ok (d', out)) :
    out = e.cooked kb states := by
  rw [cooked_of_extended he]
  rw [Driver.read, if_neg hch, if_pos hd] at h
  dsimp only at h
  split at h
  · exact (Prod.mk.inj (Except.ok.inj h)).2.symm
  · exact (Prod.mk.inj (Except.ok.inj h)).2.symm

theorem read_plain_cooked (hch : kb.PS2_KB_CHANNEL &&& 0x1 ≠ 0) (hd : d.extended = false)
    (he : e.key.extended = false) (h : d.read kb false e.lastByte = .ok (d', out)) :
    out = e.cooked kb d.LsRsLaRaClNlLctRct := by
  have hcode : (e.lastByte ||| 0x80) ^^^ 0x80 = .ofNat e.key.code := lastByte_code e
  have hflips : e.key.flips = plainBit (.ofNat e.key.code) := by
    rw [Key.flips, he]
    rfl
  rw [Driver.read, if_neg hch, if_neg (by rw [hd]; decide), if_neg (lastByte_ne_e0 he)] at h
  dsimp only at h
  rw [hcode, ← hflips, if_neg (code_le e.key.code)] at h
  cases hbit : e.key.flips with
  | some bit =>
      rw [hbit] at h
      rw [cooked_of_flips hbit]
      exact (Prod.mk.inj (Except.ok.inj h)).2.symm
  | none =>
      rw [hbit] at h
      have hout : out = if (e.lastByte &&& 0x80) >>> 7 ≠ 0 then
          [.character (kb.KeyMap (.ofNat e.key.code) d.LsRsLaRaClNlLctRct)] else [] :=
        (Prod.mk.inj (Except.ok.inj h)).2.symm
      rw [hout]
      by_cases hpR : (e.lastByte &&& 0x80) >>> 7 ≠ 0
      · obtain ⟨k, rfl⟩ := (pR_lastByte e).mp hpR
        rw [if_pos hpR, KeyEvent.cooked, if_pos ⟨he, hbit⟩]
        rfl
      · rw [if_neg hpR]
        cases e with
        | make k => rfl
        | release k => exact absurd ((pR_lastByte _).mpr ⟨k, rfl⟩) hpR

theorem readAll_cons {b : UInt8} {bytes : List UInt8} {raw : Bool}
    (h : d.readAll kb raw (b :: bytes) = .ok (d', out)) : ∃ d₁ out₁ out₂,
      d.read kb raw b = .ok (d₁, out₁) ∧ d₁.readAll kb raw bytes = .ok (d', out₂) ∧
        out = out₁ ++ out₂ := by
  rw [Driver.readAll] at h
  cases hread : d.read kb raw b with
  | error e =>
      rw [hread] at h
      cases h
  | ok r =>
      obtain ⟨d₁, out₁⟩ := r
      rw [hread] at h
      change (do
        let r ← d₁.readAll kb raw bytes
        pure (r.1, out₁ ++ r.2)) = _ at h
      cases hmore : d₁.readAll kb raw bytes with
      | error e =>
          rw [hmore] at h
          cases h
      | ok r =>
          rw [hmore] at h
          obtain ⟨rfl, rfl⟩ := Prod.mk.inj (Except.ok.inj h)
          exact ⟨d₁, out₁, r.2, rfl, hmore, rfl⟩

theorem readAll_nil (d : Driver) {raw : Bool} : d.readAll kb raw [] = .ok (d, []) := rfl

theorem readAll_cons_ok {b : UInt8} {bytes : List UInt8} {raw : Bool} {d₁ : Driver}
    {out₁ out₂ : List Written} (hread : d.read kb raw b = .ok (d₁, out₁))
    (hmore : d₁.readAll kb raw bytes = .ok (d', out₂)) :
    d.readAll kb raw (b :: bytes) = .ok (d', out₁ ++ out₂) := by
  rw [Driver.readAll, hread]
  change (do
    let r ← d₁.readAll kb raw bytes
    pure (r.1, out₁ ++ r.2)) = _
  rw [hmore]
  rfl

theorem readAll_append {bytes more : List UInt8} {raw : Bool} {d'' : Driver} {out' : List Written}
    (h : d.readAll kb raw bytes = .ok (d', out)) (hmore : d'.readAll kb raw more = .ok (d'', out')) :
    d.readAll kb raw (bytes ++ more) = .ok (d'', out ++ out') := by
  induction bytes generalizing d out with
  | nil =>
      obtain ⟨rfl, rfl⟩ := Prod.mk.inj (Except.ok.inj h)
      exact hmore
  | cons b bytes ih =>
      obtain ⟨d₁, out₁, out₂, hread, hrest, rfl⟩ := readAll_cons h
      rw [List.append_assoc]
      exact readAll_cons_ok hread (ih hrest)

theorem readAll_singleton {b : UInt8} {raw : Bool} (h : d.readAll kb raw [b] = .ok (d', out)) :
    d.read kb raw b = .ok (d', out) := by
  obtain ⟨d₁, out₁, out₂, hread, hnil, rfl⟩ := readAll_cons h
  obtain ⟨rfl, rfl⟩ := Prod.mk.inj (Except.ok.inj hnil)
  rw [List.append_nil]
  exact hread

/-- In this mode a scan code makes at most one character. -/
theorem read_text (hkb : kb.Loaded) {b : UInt8} (h : d.read kb false b = .ok (d', out)) :
    out = [] ∨ ∃ shift code, out = [.character (character shift code)] := by
  have hcode : ∀ n : Fin 256, ((.ofNat n : UInt8) ||| 0x80) ^^^ 0x80 = .ofNat (Fin.ofNat 128 n) := by
    decide +kernel
  have hb := hcode ⟨b.toNat, b.toNat_lt⟩
  rw [UInt8.ofNat_toNat] at hb
  rw [Driver.read] at h
  split at h
  · cases h
  · split at h
    · dsimp only at h
      split at h
      · exact .inl (Prod.mk.inj (Except.ok.inj h)).2.symm
      · exact .inl (Prod.mk.inj (Except.ok.inj h)).2.symm
    · split at h
      · exact .inl (Prod.mk.inj (Except.ok.inj h)).2.symm
      · dsimp only at h
        split at h
        · exact .inl (Prod.mk.inj (Except.ok.inj h)).2.symm
        · split at h
          · cases h
          · have hout := (Prod.mk.inj (Except.ok.inj h)).2.symm
            rw [if_neg (by decide)] at hout
            split at hout
            · rw [Driver.fill] at hout
              dsimp only at hout
              rw [hb, KeyMap_loaded hkb] at hout
              exact .inr ⟨_, _, hout⟩
            · exact .inl hout

theorem readAll_cooked (hch : kb.PS2_KB_CHANNEL &&& 0x1 ≠ 0) (hd : d.extended = false) (e : KeyEvent) :
    ∃ d', d.readAll kb false e.bytes = .ok (d', e.cooked kb d.LsRsLaRaClNlLctRct) ∧
      Pressed d e false d' (e.cooked kb d.LsRsLaRaClNlLctRct) := by
  obtain ⟨d', out, hread, hpressed⟩ := readAll_event hch hd e false
  have hout : out = e.cooked kb d.LsRsLaRaClNlLctRct := by
    cases he : e.key.extended with
    | false =>
        have hbytes : e.bytes = [e.lastByte] := by
          rw [KeyEvent.bytes, KeyEvent.prefixBytes, he]
          rfl
        rw [hbytes] at hread
        exact read_plain_cooked hch hd he (readAll_singleton hread)
    | true =>
        have hbytes : e.bytes = [0xe0, e.lastByte] := by
          rw [KeyEvent.bytes, KeyEvent.prefixBytes, he]
          rfl
        have hfirst : d.read kb false 0xe0 = .ok ({ d with extended := true }, []) := by
          rw [Driver.read, if_neg hch, if_neg (by rw [hd]; decide), if_pos rfl]
        rw [hbytes] at hread
        obtain ⟨d₁, out₁, out₂, hread₁, hlast, rfl⟩ := readAll_cons hread
        obtain ⟨rfl, rfl⟩ := Prod.mk.inj (Except.ok.inj (hfirst.symm.trans hread₁))
        exact read_extended_cooked hch rfl he (readAll_singleton hlast)
  rw [hout] at hread hpressed
  exact ⟨d', hread, hpressed⟩

/-! ## Texts -/

def Shifted (past : List KeyEvent) : Prop :=
  Down past Modifier.leftShift.key ∨ Down past Modifier.rightShift.key

instance (past : List KeyEvent) : Decidable (Shifted past) :=
  inferInstanceAs (Decidable ((track Modifier.leftShift.key past).down = true ∨
    (track Modifier.rightShift.key past).down = true))

/-- The characters of the keys that are released, each with the shift keys as they are then. -/
def spelled : List KeyEvent → List KeyEvent → List UInt8
  | _, [] => []
  | past, .make k :: events => spelled (past ++ [.make k]) events
  | past, .release k :: events =>
    (if k.extended = false ∧ k.flips = none then [character (Shifted past) k.code] else []) ++
      spelled (past ++ [.release k]) events

/-- Whenever a character is due, the shift keys have repeated their make codes an even number of
times. -/
def Steady (past events : List KeyEvent) : Prop :=
  ∀ before k after, events = before ++ .release k :: after → k.extended = false → k.flips = none →
    Even (repeats (past ++ before) Modifier.leftShift.key) ∧
      Even (repeats (past ++ before) Modifier.rightShift.key)

theorem Follows.shift (h : Follows d past)
    (hleft : Even (repeats past Modifier.leftShift.key))
    (hright : Even (repeats past Modifier.rightShift.key)) :
    d.LsRsLaRaClNlLctRct &&& 0x3 ≠ 0 ↔ Shifted past := by
  have hbits : ∀ s : UInt8, s &&& 0x3 ≠ 0 ↔
      Modifier.leftShift.SetIn s ∨ Modifier.rightShift.SetIn s := by
    intro s
    have hall : ∀ n : Fin 256, (.ofNat n : UInt8) &&& 0x3 ≠ 0 ↔
        Modifier.leftShift.SetIn (.ofNat n) ∨ Modifier.rightShift.SetIn (.ofNat n) := by
      decide +kernel
    have hs := hall ⟨s.toNat, s.toNat_lt⟩
    rwa [UInt8.ofNat_toNat] at hs
  rw [hbits, h.bits, h.bits, iff_true_right hleft, iff_true_right hright]
  rfl

theorem steady_cons : Steady past (e :: events) ↔
    (∀ k, e = .release k → k.extended = false → k.flips = none →
      Even (repeats past Modifier.leftShift.key) ∧ Even (repeats past Modifier.rightShift.key)) ∧
    Steady (past ++ [e]) events := by
  constructor
  · intro h
    constructor
    · intro k heq hplain hflips
      have heven := h [] k events (by rw [heq]; rfl) hplain hflips
      rwa [List.append_nil] at heven
    · intro before k after heq hplain hflips
      have heven := h (e :: before) k after (by rw [heq]; rfl) hplain hflips
      rw [List.append_assoc]
      exact heven
  · intro h before k after heq hplain hflips
    cases before with
    | nil =>
        obtain ⟨rfl, rfl⟩ := List.cons.inj heq
        rw [List.append_nil]
        exact h.1 k rfl hplain hflips
    | cons e' before =>
        obtain ⟨rfl, rfl⟩ := List.cons.inj heq
        have heven := h.2 before k after rfl hplain hflips
        rw [List.append_assoc] at heven
        exact heven

/-- What an event writes is what it spells. -/
theorem cooked_spelled (hkb : kb.Loaded) (h : Follows d past)
    (hsteady : Steady past (e :: events)) :
    e.cooked kb d.LsRsLaRaClNlLctRct ++ (spelled (past ++ [e]) events).map .character =
      (spelled past (e :: events)).map .character := by
  cases e with
  | make k => rfl
  | release k =>
      rw [KeyEvent.cooked, spelled, List.map_append]
      by_cases hk : k.extended = false ∧ k.flips = none
      · obtain ⟨hleft, hright⟩ := (steady_cons.mp hsteady).1 k rfl hk.1 hk.2
        have hshift : decide (d.LsRsLaRaClNlLctRct &&& 0x3 ≠ 0) = decide (Shifted past) :=
          decide_eq_decide.mpr (h.shift hleft hright)
        rw [if_pos hk, if_pos hk, KeyMap_loaded hkb, hshift]
        rfl
      · rw [if_neg hk, if_neg hk]
        rfl

/-- The driver writes what is spelled. -/
theorem readAll_spelled (hkb : kb.Loaded) (hch : kb.PS2_KB_CHANNEL &&& 0x1 ≠ 0) (h : Follows d past)
    (hsend : Sendable (past ++ events)) (hsteady : Steady past events) :
    ∃ d', d.readAll kb false (events.flatMap KeyEvent.bytes) =
      .ok (d', (spelled past events).map .character) := by
  induction events generalizing d past with
  | nil => exact ⟨d, rfl⟩
  | cons e events ih =>
      obtain ⟨d', hread, hpressed⟩ := readAll_cooked hch h.extended e
      have hrelease : ∀ k, e = .release k → Down past k :=
        fun k heq => hsend past k events (by rw [← heq])
      have hsend' : Sendable (past ++ [e] ++ events) := by
        rw [List.append_assoc]
        exact hsend
      obtain ⟨d'', hmore⟩ := ih (h.pressed hrelease hpressed) hsend' (steady_cons.mp hsteady).2
      refine ⟨d'', ?_⟩
      rw [List.flatMap_cons, ← cooked_spelled hkb h hsteady]
      exact readAll_append hread hmore

/-! ## Strokes -/

/-- A key is pressed and released, between the codes of the left shift key if it is to be shifted. -/
structure Stroke where
  shift : Bool
  key : Key
  plain : key.extended = false ∧ key.flips = none

namespace Stroke

variable (s : Stroke)

def text : UInt8 := character s.shift s.key.code

def presses : List KeyEvent :=
  if s.shift then
    [.make Modifier.leftShift.key, .make s.key, .release s.key, .release Modifier.leftShift.key]
  else [.make s.key, .release s.key]

end Stroke

/-- No key is down, and none has repeated its make code. -/
def AtRest (past : List KeyEvent) : Prop := ∀ k, track k past = ⟨false, 0⟩

variable {s : Stroke} {strokes : List Stroke}

theorem Stroke.ne_shift (s : Stroke) (m : Modifier) : m.key ≠ s.key := by
  intro heq
  have hflips := (Key.flips_modifier s.key m).mpr heq.symm
  rw [s.plain.2] at hflips
  cases hflips

theorem AtRest.stroke (h : AtRest past) (s : Stroke) : AtRest (past ++ s.presses) := by
  intro k
  have hne := s.ne_shift .leftShift
  rw [track, List.foldl_append, ← track, h k, Stroke.presses]
  cases s.shift with
  | false =>
      by_cases hk : s.key = k <;> simp [Track.step, KeyEvent.key, hk]
  | true =>
      by_cases hk : s.key = k
      · subst hk
        simp [Track.step, KeyEvent.key, hne]
      · by_cases hm : Modifier.leftShift.key = k <;> simp [Track.step, KeyEvent.key, hk, hm]

/-- What a stroke on a keyboard at rest adds to a text. -/
structure Strikes (past : List KeyEvent) (s : Stroke) (events : List KeyEvent) : Prop where
  spelled : spelled past (s.presses ++ events) = s.text :: spelled (past ++ s.presses) events
  steady : Steady (past ++ s.presses) events → Steady past (s.presses ++ events)
  sendable : Sendable past → Sendable (past ++ s.presses)

theorem sendable_concat : Sendable (past ++ [e]) ↔
    Sendable past ∧ ∀ k, e = .release k → Down past k := by
  constructor
  · intro h
    constructor
    · intro before k after heq
      exact h before k (after ++ [e]) (by rw [heq, List.append_assoc, List.cons_append])
    · intro k heq
      exact h past k [] (by rw [heq])
  · intro h before k after heq
    rcases List.eq_nil_or_concat after with rfl | ⟨after', e', rfl⟩
    · obtain ⟨rfl, hlast⟩ := List.append_inj' heq rfl
      exact h.2 k (List.singleton_inj.mp hlast)
    · rw [List.concat_eq_append, ← List.cons_append, ← List.append_assoc] at heq
      obtain ⟨rfl, -⟩ := List.append_inj' heq rfl
      exact h.1 before k after' rfl

/-- The shift keys when the key of a stroke is released. -/
theorem AtRest.tracks (h : AtRest past) (s : Stroke) (m : Modifier) :
    track m.key (past ++ [.make s.key]) = ⟨false, 0⟩ ∧
      track m.key (past ++ [.make Modifier.leftShift.key] ++ [.make s.key]) =
        ⟨decide (m = .leftShift), 0⟩ := by
  have hne : (KeyEvent.make s.key).key ≠ m.key := (s.ne_shift m).symm
  have hleft : Modifier.leftShift.key = m.key ↔ m = .leftShift := by
    cases m <;> decide
  constructor
  · rw [track_other hne, h]
  · rw [track_other hne, track_concat, h, Track.step.eq_def]
    by_cases hm : m = .leftShift <;> simp [KeyEvent.key, hleft, hm]

theorem AtRest.shifted (h : AtRest past) (s : Stroke) : ¬ Shifted (past ++ [.make s.key]) ∧
    Shifted (past ++ [.make Modifier.leftShift.key] ++ [.make s.key]) := by
  rw [Shifted, Shifted, Down, Down, Down, Down, (h.tracks s _).1, (h.tracks s _).1, (h.tracks s _).2]
  simp

theorem AtRest.strikes (h : AtRest past) (s : Stroke) (events : List KeyEvent) :
    Strikes past s events := by
  obtain ⟨hplain, hshifted⟩ := h.shifted s
  have heven : ∀ m : Modifier, Even (repeats (past ++ [.make s.key]) m.key) ∧
      Even (repeats (past ++ [.make Modifier.leftShift.key] ++ [.make s.key]) m.key) := by
    intro m
    rw [repeats, repeats, (h.tracks s m).1, (h.tracks s m).2]
    exact ⟨⟨0, rfl⟩, ⟨0, rfl⟩⟩
  have hshift : Modifier.leftShift.key.flips ≠ none := by decide
  have hdown : ∀ past, Down (past ++ [.make s.key]) s.key := by
    intro past
    simp [Down, track_concat, Track.step, KeyEvent.key]
  cases hs : s.shift with
  | false =>
      have hpresses : s.presses = [.make s.key, .release s.key] := by rw [Stroke.presses, hs]; rfl
      refine ⟨?_, fun hsteady => ?_, fun hsend => ?_⟩
      · rw [hpresses, List.cons_append, List.cons_append, List.nil_append, spelled, spelled,
          if_pos s.plain, Stroke.text, hs, decide_eq_false hplain]
        simp
      · rw [hpresses, List.cons_append, List.cons_append, List.nil_append, steady_cons, steady_cons,
          List.append_assoc]
        refine ⟨fun k heq => (by cases heq), fun k _ _ _ => ⟨(heven _).1, (heven _).1⟩, ?_⟩
        rw [hpresses] at hsteady
        exact hsteady
      · have hrelease : Sendable (past ++ [.make s.key] ++ [.release s.key]) := by
          rw [sendable_concat, sendable_concat]
          refine ⟨⟨hsend, fun k heq => (by cases heq)⟩, fun k heq => ?_⟩
          obtain rfl := KeyEvent.release.inj heq
          exact hdown past
        rw [List.append_assoc] at hrelease
        rw [hpresses]
        exact hrelease
  | true =>
      have hpresses : s.presses = [.make Modifier.leftShift.key, .make s.key, .release s.key,
          .release Modifier.leftShift.key] := by
        rw [Stroke.presses, hs]
        rfl
      refine ⟨?_, fun hsteady => ?_, fun hsend => ?_⟩
      · rw [hpresses, List.cons_append, List.cons_append, List.cons_append, List.cons_append,
          List.nil_append, spelled, spelled, spelled, spelled, if_pos s.plain,
          if_neg fun hn => hshift hn.2, Stroke.text, hs, decide_eq_true hshifted]
        simp
      · rw [hpresses, List.cons_append, List.cons_append, List.cons_append, List.cons_append,
          List.nil_append, steady_cons, steady_cons, steady_cons, steady_cons]
        refine ⟨fun k heq => (by cases heq), fun k heq => (by cases heq),
          fun k _ _ _ => ⟨(heven _).2, (heven _).2⟩, fun k heq _ hn => ?_, ?_⟩
        · obtain rfl := KeyEvent.release.inj heq
          exact absurd hn hshift
        · rw [hpresses] at hsteady
          simpa using hsteady
      · have hrelease : Sendable (past ++ [.make Modifier.leftShift.key] ++ [.make s.key] ++
            [.release s.key] ++ [.release Modifier.leftShift.key]) := by
          rw [sendable_concat, sendable_concat, sendable_concat, sendable_concat]
          refine ⟨⟨⟨⟨hsend, fun k heq => (by cases heq)⟩, fun k heq => (by cases heq)⟩,
            fun k heq => ?_⟩, fun k heq => ?_⟩
          · obtain rfl := KeyEvent.release.inj heq
            exact hdown _
          · obtain rfl := KeyEvent.release.inj heq
            have hne : (KeyEvent.release s.key).key ≠ Modifier.leftShift.key :=
              (s.ne_shift .leftShift).symm
            rw [Down, track_other hne, (h.tracks s .leftShift).2]
            rfl
        rw [hpresses]
        simpa using hrelease

theorem spelled_strokes (h : AtRest past) (strokes : List Stroke) :
    spelled past (strokes.flatMap Stroke.presses) = strokes.map Stroke.text ∧
      Steady past (strokes.flatMap Stroke.presses) ∧
      (Sendable past → Sendable (past ++ strokes.flatMap Stroke.presses)) := by
  induction strokes generalizing past with
  | nil =>
      refine ⟨rfl, fun before k after heq => ?_, fun hsend => ?_⟩
      · exact absurd heq.symm (by simp)
      · rw [List.flatMap_nil, List.append_nil]
        exact hsend
  | cons s strokes ih =>
      obtain ⟨hspelled, hsteady, hsend⟩ := h.strikes s (strokes.flatMap Stroke.presses)
      obtain ⟨hspelled', hsteady', hsend'⟩ := ih (h.stroke s)
      rw [List.flatMap_cons]
      refine ⟨?_, hsteady hsteady', fun hs => ?_⟩
      · rw [hspelled, hspelled', List.map_cons]
      · rw [← List.append_assoc]
        exact hsend' (hsend hs)

theorem sendable_nil : Sendable [] := fun before k after heq => absurd heq.symm (by simp)

/-- Strokes spell their characters. -/
theorem strokes_spell (strokes : List Stroke) :
    spelled [] (strokes.flatMap Stroke.presses) = strokes.map Stroke.text ∧
      Steady [] (strokes.flatMap Stroke.presses) ∧ Sendable (strokes.flatMap Stroke.presses) := by
  have hrest : AtRest [] := fun _ => rfl
  obtain ⟨hspelled, hsteady, hsend⟩ := spelled_strokes hrest strokes
  exact ⟨hspelled, hsteady, hsend sendable_nil⟩

theorem exists_stroke {a : UInt8} {shift : Bool} (h : ∃ code : Fin 128,
    character shift code = a ∧ code ≠ 0x60 ∧ plainBit (.ofNat code) = none) :
    ∃ s : Stroke, s.text = a := by
  obtain ⟨code, rfl, hsendable, hflips⟩ := h
  exact ⟨⟨shift, ⟨false, code, .inr hsendable⟩, rfl, hflips⟩, rfl⟩

/-- Every text over the tables can be typed. -/
theorem exists_strokes {text : List UInt8}
    (h : ∀ a ∈ text, a ∈ qwerty.take 0x53 ∨ a ∈ qwertySHIFT.take 0x53) :
    ∃ strokes : List Stroke, strokes.map Stroke.text = text := by
  have hplain : ∀ a ∈ qwerty.take 0x53, ∃ code : Fin 128,
      character false code = a ∧ code ≠ 0x60 ∧ plainBit (.ofNat code) = none := by
    decide +kernel
  have hshift : ∀ a ∈ qwertySHIFT.take 0x53, ∃ code : Fin 128,
      character true code = a ∧ code ≠ 0x60 ∧ plainBit (.ofNat code) = none := by
    decide +kernel
  induction text with
  | nil => exact ⟨[], rfl⟩
  | cons a text ih =>
      obtain ⟨ha, htext⟩ := List.forall_mem_cons.mp h
      obtain ⟨strokes, rfl⟩ := ih htext
      have hstroke : ∃ s : Stroke, s.text = a := by
        rcases ha with hmem | hmem
        · exact exists_stroke (hplain a hmem)
        · exact exists_stroke (hshift a hmem)
      obtain ⟨s, rfl⟩ := hstroke
      exact ⟨s :: strokes, rfl⟩

def Typeable (a : UInt8) : Prop := a ∈ qwerty.take 0x53 ∨ a ∈ qwertySHIFT.take 0x53

theorem character_typeable (shift : Bool) (code : Fin 128) : Typeable (character shift code) := by
  have hall : ∀ (shift : Bool) (code : Fin 128), character shift code ∈ qwerty.take 0x53 ∨
      character shift code ∈ qwertySHIFT.take 0x53 := by
    decide +kernel
  exact hall shift code

theorem typeable_of_readAll (hkb : kb.Loaded) {codes : List UInt8}
    (h : d.readAll kb false codes = .ok (d', out)) : ∀ a, .character a ∈ out → Typeable a := by
  induction codes generalizing d out with
  | nil =>
      obtain ⟨-, rfl⟩ := Prod.mk.inj (Except.ok.inj h)
      intro a ha
      cases ha
  | cons b codes ih =>
      obtain ⟨d₁, out₁, out₂, hread, hmore, rfl⟩ := readAll_cons h
      intro a ha
      rcases List.mem_append.mp ha with hmem | hmem
      · rcases read_text hkb hread with rfl | ⟨shift, code, rfl⟩
        · cases hmem
        · obtain rfl := Written.character.inj (List.mem_singleton.mp hmem)
          exact character_typeable shift code
      · exact ih hmore a hmem

/-- Strokes make the driver write their characters. -/
theorem readAll_strokes (hkb : kb.Loaded) (hch : kb.PS2_KB_CHANNEL &&& 0x1 ≠ 0) (k : KP)
    (strokes : List Stroke) : ∃ d', (Driver.start k).readAll kb false
        ((strokes.flatMap Stroke.presses).flatMap KeyEvent.bytes) =
      .ok (d', (strokes.map Stroke.text).map .character) := by
  obtain ⟨hspelled, hsteady, hsend⟩ := strokes_spell strokes
  have hsend' : Sendable ([] ++ strokes.flatMap Stroke.presses) := hsend
  obtain ⟨d', hread⟩ := readAll_spelled hkb hch (start_follows k) hsend' hsteady
  rw [hspelled] at hread
  exact ⟨d', hread⟩

/-- The texts that some scan codes make the driver write, while `keyboard_is_raw` is 0, are those
over the two tables, for which it is enough to press and release keys one by one. -/
theorem typeable_iff (hkb : kb.Loaded) (hch : kb.PS2_KB_CHANNEL &&& 0x1 ≠ 0) (k : KP)
    (text : List UInt8) :
    ((∃ codes d', (Driver.start k).readAll kb false codes = .ok (d', text.map .character)) ↔
      ∀ a ∈ text, Typeable a) ∧
    ((∀ a ∈ text, Typeable a) → ∃ strokes : List Stroke, strokes.map Stroke.text = text ∧
      ∃ d', (Driver.start k).readAll kb false
        ((strokes.flatMap Stroke.presses).flatMap KeyEvent.bytes) =
          .ok (d', text.map .character)) := by
  have hstrokes : (∀ a ∈ text, Typeable a) → ∃ strokes : List Stroke,
      strokes.map Stroke.text = text ∧ ∃ d', (Driver.start k).readAll kb false
        ((strokes.flatMap Stroke.presses).flatMap KeyEvent.bytes) =
          .ok (d', text.map .character) := by
    intro h
    obtain ⟨strokes, rfl⟩ := exists_strokes h
    exact ⟨strokes, rfl, readAll_strokes hkb hch k strokes⟩
  refine ⟨⟨fun h a ha => ?_, fun h => ?_⟩, hstrokes⟩
  · obtain ⟨codes, d', hcodes⟩ := h
    exact typeable_of_readAll hkb hcodes a (List.mem_map_of_mem ha)
  · obtain ⟨strokes, -, d', hread⟩ := hstrokes h
    exact ⟨_, d', hread⟩

/-- A keyboard with the keymap of the image. -/
def mappedKeyboard : Keyboard := ⟨1, fun i => constructKeymap.getD i.toNat 0⟩

/-- The bar cannot be typed, a capital letter and a comma can. -/
theorem typeable_iff_bar :
    (¬ ∃ codes d', (Driver.start ⟨0, 0, 0, 0⟩).readAll mappedKeyboard false codes =
      .ok (d', [0x7c].map .character)) ∧
    ∃ strokes : List Stroke, strokes.map Stroke.text = [0x41, 0x2c] ∧
      ∃ d', (Driver.start ⟨0, 0, 0, 0⟩).readAll mappedKeyboard false
        ((strokes.flatMap Stroke.presses).flatMap KeyEvent.bytes) =
          .ok (d', [0x41, 0x2c].map .character) := by
  have hkb : mappedKeyboard.Loaded := fun _ _ => rfl
  have htypeable := typeable_iff hkb (by decide) ⟨0, 0, 0, 0⟩
  constructor
  · rw [(htypeable _).1]
    intro h
    rcases h 0x7c List.mem_cons_self with hmem | hmem
    · exact absurd hmem (by decide)
    · exact absurd hmem (by decide)
  · have hpair : ∀ a ∈ [0x41, 0x2c], Typeable a := by
      intro a ha
      rcases List.mem_pair.mp ha with rfl | rfl
      · exact .inr (by decide)
      · exact .inl (by decide)
    exact (htypeable _).2 hpair

end UnnamedOS.Devices
