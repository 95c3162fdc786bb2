import UnnamedOS.Lib.LastWrite
import UnnamedOS.Stream.Polling

/-!
# Binding streams

`BIND_HANDLES` writes one pointer in each of two `stdIO`s. What they pointed to before keeps its own
pointer back.
-/

namespace UnnamedOS.Stream

open UnnamedOS.Lib Streams

def BIND_HANDLES (s : Streams) (kernelFd : FdTable) (FD0 FD1 : UInt64) :
    Except HandleHalt Streams :=
  if (kernelFd FD0).function ≠ .StdIOStream ∨ (kernelFd FD1).function ≠ .StdIOStream then
    .error .ERR_MISP_BINDH
  else
    let IO1 := (kernelFd FD0).arguments
    let IO2 := (kernelFd FD1).arguments
    match s.getStdio (some IO2) with
    | .error f => .error (.fault f)
    | .ok (_, io₂) =>
      let s := s.setStdio IO2 { io₂ with pairIn := some IO1 }
      match s.getStdio (some IO1) with
      | .error f => .error (.fault f)
      | .ok (_, io₁) => .ok (s.setStdio IO1 { io₁ with pairOut := some IO2 })

/-- A call, with the table of the task that makes it. -/
structure BindCall where
  kernelFd : FdTable
  FD0 : UInt64
  FD1 : UInt64

def bindAll : List BindCall → Streams → Except HandleHalt Streams
  | [], s => .ok s
  | call :: calls, s => do
    let s ← BIND_HANDLES s call.kernelFd call.FD0 call.FD1
    bindAll calls s

namespace Streams

def pairOut (s : Streams) (p : Nat) : Option Nat := (s.stdio p).bind Stdio.pairOut

def pairIn (s : Streams) (p : Nat) : Option Nat := (s.stdio p).bind Stdio.pairIn

/-- `a` writes to `b` exactly when `b` reads from `a`, and no two read from one. -/
structure Paired (s : Streams) (streams : Set Nat) : Prop where
  symmetric : ∀ a ∈ streams, ∀ b ∈ streams, s.pairOut a = some b ↔ s.pairIn b = some a
  oneReader : ∀ a ∈ streams, ∀ b ∈ streams, ∀ b' ∈ streams, s.pairIn b = some a →
    s.pairIn b' = some a → b = b'

end Streams

/-- An open descriptor of one of the streams. -/
def Handle (kernelFd : FdTable) (streams : Set Nat) (fd : UInt64) : Prop :=
  (kernelFd fd).function = .StdIOStream ∧ (kernelFd fd).arguments ∈ streams

namespace BindCall

def On (streams : Set Nat) (call : BindCall) : Prop :=
  Handle call.kernelFd streams call.FD0 ∧ Handle call.kernelFd streams call.FD1

/-- The streams that a call binds, the writing one first. -/
def bound (call : BindCall) : Nat × Nat :=
  ((call.kernelFd call.FD0).arguments, (call.kernelFd call.FD1).arguments)

end BindCall

/-- A call is the last one for the stream that writes exactly when it is for the one that reads. -/
def PartnersAgree (bindings : List (Nat × Nat)) : Prop :=
  ∀ a b, LastWith Prod.fst a bindings (a, b) ↔ LastWith Prod.snd b bindings (a, b)

variable {s s' : Streams} {kernelFd : FdTable} {streams : Set Nat} {calls : List BindCall}
  {bindings : List (Nat × Nat)} {FD0 FD1 : UInt64} {a b : Nat}

/-! ## One call -/

theorem BIND_HANDLES_spec (h₀ : Handle kernelFd streams FD0) (h₁ : Handle kernelFd streams FD1)
    (hall : ∀ p ∈ streams, (s.stdio p).isSome) :
    ∃ s', BIND_HANDLES s kernelFd FD0 FD1 = .ok s' ∧
      s'.pairOut = Function.update s.pairOut (kernelFd FD0).arguments
        (some (kernelFd FD1).arguments) ∧
      s'.pairIn = Function.update s.pairIn (kernelFd FD1).arguments
        (some (kernelFd FD0).arguments) ∧
      ∀ p ∈ streams, (s'.stdio p).isSome := by
  generalize ha : (kernelFd FD0).arguments = a
  generalize hb : (kernelFd FD1).arguments = b
  obtain ⟨io₂, hio₂⟩ := Option.isSome_iff_exists.mp (hall b (hb ▸ h₁.2))
  have hget₂ : s.getStdio (some b) = .ok (b, io₂) := by rw [getStdio, hio₂]
  have hsome : ((s.setStdio b { io₂ with pairIn := some a }).stdio a).isSome := by
    by_cases hab : a = b
    · subst hab
      rw [setStdio_same]
      rfl
    · rw [setStdio_other hab]
      exact hall a (ha ▸ h₀.2)
  obtain ⟨io₁, hio₁⟩ := Option.isSome_iff_exists.mp hsome
  have hget₁ : (s.setStdio b { io₂ with pairIn := some a }).getStdio (some a) = .ok (a, io₁) := by
    rw [getStdio, hio₁]
  refine ⟨(s.setStdio b { io₂ with pairIn := some a }).setStdio a { io₁ with pairOut := some b },
    ?_, ?_, ?_, fun p hp => ?_⟩
  · rw [BIND_HANDLES, if_neg (not_or.mpr ⟨fun h => h h₀.1, fun h => h h₁.1⟩), ha, hb]
    dsimp only
    rw [hget₂]
    dsimp only
    rw [hget₁]
  · funext p
    by_cases hpa : p = a
    · subst hpa
      rw [Function.update_self, pairOut, setStdio_same]
      rfl
    · rw [Function.update_of_ne hpa, pairOut, setStdio_other hpa]
      by_cases hpb : p = b
      · subst hpb
        rw [setStdio_same, pairOut, hio₂]
        rfl
      · rw [setStdio_other hpb]
        rfl
  · funext p
    by_cases hpa : p = a
    · subst hpa
      rw [pairIn, setStdio_same]
      change io₁.pairIn = _
      by_cases hpb : p = b
      · subst hpb
        rw [setStdio_same] at hio₁
        rw [Function.update_self, ← Option.some.inj hio₁]
      · rw [setStdio_other hpb] at hio₁
        rw [Function.update_of_ne hpb, pairIn, hio₁]
        rfl
    · rw [pairIn, setStdio_other hpa]
      by_cases hpb : p = b
      · subst hpb
        rw [setStdio_same, Function.update_self]
        rfl
      · rw [setStdio_other hpb, Function.update_of_ne hpb]
        rfl
  · by_cases hpa : p = a
    · subst hpa
      rw [setStdio_same]
      rfl
    · rw [setStdio_other hpa]
      by_cases hpb : p = b
      · subst hpb
        rw [setStdio_same]
        rfl
      · rw [setStdio_other hpb]
        exact hall p hp

/-! ## Sequences of calls -/

/-- Both tables of pointers are written entry by entry. -/
theorem bindAll_spec (hcalls : ∀ c ∈ calls, c.On streams)
    (hall : ∀ p ∈ streams, (s.stdio p).isSome) : ∃ s', bindAll calls s = .ok s' ∧
      s'.pairOut = writeAll Prod.fst Prod.snd s.pairOut (calls.map BindCall.bound) ∧
      s'.pairIn = writeAll Prod.snd Prod.fst s.pairIn (calls.map BindCall.bound) := by
  induction calls generalizing s with
  | nil => exact ⟨s, rfl, rfl, rfl⟩
  | cons c calls ih =>
      obtain ⟨⟨h₀, h₁⟩, hrest⟩ := List.forall_mem_cons.mp hcalls
      obtain ⟨t, hbind, hout, hin, hall'⟩ := BIND_HANDLES_spec h₀ h₁ hall
      obtain ⟨s', hexec, hout', hin'⟩ := ih hrest hall'
      refine ⟨s', ?_, ?_, ?_⟩
      · rw [bindAll, hbind]
        exact hexec
      · rw [hout', hout]
        rfl
      · rw [hin', hin]
        rfl

/-- Where the bindings agree the streams do, and the other way around. -/
theorem paired_iff (hbound : ∀ c ∈ bindings, c.1 ∈ streams ∧ c.2 ∈ streams)
    (hout : ∀ a ∈ streams, ∀ b, s.pairOut a = some b ↔ LastWith Prod.fst a bindings (a, b))
    (hin : ∀ b ∈ streams, ∀ a, s.pairIn b = some a ↔ LastWith Prod.snd b bindings (a, b)) :
    s.Paired streams ↔ PartnersAgree bindings := by
  constructor
  · intro h a b
    constructor
    · intro hlast
      obtain ⟨ha, hb⟩ := hbound (a, b) hlast.mem
      exact (hin b hb a).mp ((h.symmetric a ha b hb).mp ((hout a ha b).mpr hlast))
    · intro hlast
      obtain ⟨ha, hb⟩ := hbound (a, b) hlast.mem
      exact (hout a ha b).mp ((h.symmetric a ha b hb).mpr ((hin b hb a).mpr hlast))
  · intro h
    have hsymm : ∀ a ∈ streams, ∀ b ∈ streams, s.pairOut a = some b ↔ s.pairIn b = some a := by
      intro a ha b hb
      rw [hout a ha b, hin b hb a, h a b]
    refine ⟨hsymm, fun a ha b hb b' hb' hread hread' => ?_⟩
    have heq := ((hsymm a ha b hb).mpr hread).symm.trans ((hsymm a ha b' hb').mpr hread')
    exact Option.some.inj heq

theorem lastWith_pair {k v : Nat × Nat → Nat} {p : Nat × Nat}
    (hp : ∀ c, k c = k p → v c = v p → c = p) :
    (∃ c, LastWith k (k p) bindings c ∧ v c = v p) ↔ LastWith k (k p) bindings p := by
  constructor
  · rintro ⟨c, hc, hval⟩
    obtain rfl := hp c hc.key hval
    exact hc
  · exact fun h => ⟨p, h, rfl⟩

/-- The streams have their descriptors, and none of them is bound. -/
structure Unbound (s : Streams) (streams : Set Nat) : Prop where
  exist : ∀ p ∈ streams, (s.stdio p).isSome
  pairOut : ∀ p ∈ streams, s.pairOut p = none
  pairIn : ∀ p ∈ streams, s.pairIn p = none

/-- What the two pointers of a stream are after all calls. -/
theorem bindAll_pointers (hopen : Unbound s streams)
    (hcalls : ∀ c ∈ calls, c.On streams) :
    ∃ s', bindAll calls s = .ok s' ∧
      (∀ a ∈ streams, ∀ b, s'.pairOut a = some b ↔
        LastWith Prod.fst a (calls.map BindCall.bound) (a, b)) ∧
      ∀ b ∈ streams, ∀ a, s'.pairIn b = some a ↔
        LastWith Prod.snd b (calls.map BindCall.bound) (a, b) := by
  obtain ⟨s', hexec, hout, hin⟩ := bindAll_spec hcalls hopen.exist
  refine ⟨s', hexec, fun a ha b => ?_, fun b hb a => ?_⟩
  · rw [hout, writeAll_eq_some_iff (hopen.pairOut a ha)]
    exact lastWith_pair (p := (a, b)) fun c h₁ h₂ => Prod.ext h₁ h₂
  · rw [hin, writeAll_eq_some_iff (hopen.pairIn b hb)]
    exact lastWith_pair (p := (a, b)) fun c h₁ h₂ => Prod.ext h₂ h₁

theorem bound_mem (hcalls : ∀ c ∈ calls, c.On streams) :
    ∀ c ∈ calls.map BindCall.bound, c.1 ∈ streams ∧ c.2 ∈ streams := by
  intro c hc
  obtain ⟨call, hcall, rfl⟩ := List.mem_map.mp hc
  exact ⟨(hcalls call hcall).1.2, (hcalls call hcall).2.2⟩

/-! ## In between -/

/-- No stream is ever bound to a second partner. -/
def OnePartner (bindings : List (Nat × Nat)) : Prop :=
  ∀ c ∈ bindings, ∀ d ∈ bindings, c.1 = d.1 ↔ c.2 = d.2

theorem OnePartner.agree (h : OnePartner bindings) : PartnersAgree bindings := by
  intro a b
  constructor
  · rintro ⟨before, after, rfl, -, hafter⟩
    refine ⟨before, after, rfl, rfl, fun d hd heq => hafter d hd ?_⟩
    exact (h d (by simp [hd]) (a, b) (by simp)).mpr heq
  · rintro ⟨before, after, rfl, -, hafter⟩
    refine ⟨before, after, rfl, rfl, fun d hd heq => hafter d hd ?_⟩
    exact (h d (by simp [hd]) (a, b) (by simp)).mp heq

/-- A partner that is taken over leaves an earlier binding behind. -/
theorem agree_throughout_iff :
    (∀ before after, bindings = before ++ after → PartnersAgree before) ↔ OnePartner bindings := by
  constructor
  · intro h
    induction bindings using List.reverseRecOn with
    | nil => exact fun c hc => absurd hc List.not_mem_nil
    | append_singleton l d ih =>
        have hl : OnePartner l := ih fun before after heq =>
          h before (after ++ [d]) (by rw [heq, List.append_assoc])
        have hagree := h (l ++ [d]) [] (List.append_nil _).symm
        have hnew : ∀ c ∈ l, c.1 = d.1 ↔ c.2 = d.2 := by
          intro c hc
          constructor
          · intro hfst
            by_contra hsnd
            rcases exists_lastWith Prod.snd c.2 l with hnone | ⟨e, he⟩
            · exact hnone c hc rfl
            · obtain rfl : e = c := Prod.ext ((hl e he.mem c hc).mpr he.key) he.key
              have hlast := (hagree e.1 e.2).mpr (lastWith_concat.mpr (.inr ⟨Ne.symm hsnd, he⟩))
              rcases lastWith_concat.mp hlast with ⟨-, heq⟩ | ⟨hne, -⟩
              · exact hsnd (congrArg Prod.snd heq)
              · exact hne hfst.symm
          · intro hsnd
            by_contra hfst
            rcases exists_lastWith Prod.fst c.1 l with hnone | ⟨e, he⟩
            · exact hnone c hc rfl
            · obtain rfl : e = c := Prod.ext he.key ((hl e he.mem c hc).mp he.key)
              have hlast := (hagree e.1 e.2).mp (lastWith_concat.mpr (.inr ⟨Ne.symm hfst, he⟩))
              rcases lastWith_concat.mp hlast with ⟨-, heq⟩ | ⟨hne, -⟩
              · exact hfst (congrArg Prod.fst heq)
              · exact hne hsnd.symm
        intro c hc c' hc'
        rcases List.mem_append.mp hc with hc | hc <;> rcases List.mem_append.mp hc' with hc' | hc'
        · exact hl c hc c' hc'
        · rw [List.mem_singleton.mp hc']
          exact hnew c hc
        · rw [List.mem_singleton.mp hc, eq_comm, hnew c' hc', eq_comm]
        · rw [List.mem_singleton.mp hc, List.mem_singleton.mp hc']
          exact iff_of_true rfl rfl
  · rintro h before after rfl
    exact OnePartner.agree fun c hc d hd =>
      h c (List.mem_append_left _ hc) d (List.mem_append_left _ hd)

/-- The streams are paired after every call exactly when none gets a second partner. -/
theorem paired_throughout_iff (hopen : Unbound s streams)
    (hcalls : ∀ c ∈ calls, c.On streams) :
    (∀ before after s', calls = before ++ after → bindAll before s = .ok s' →
      s'.Paired streams) ↔ OnePartner (calls.map BindCall.bound) := by
  rw [← agree_throughout_iff]
  constructor
  · intro h before after heq
    obtain ⟨pre, post, rfl, rfl, rfl⟩ := List.map_eq_append_iff.mp heq
    have hpre := fun c hc => hcalls c (List.mem_append_left post hc)
    obtain ⟨s', hexec, hout, hin⟩ := bindAll_pointers hopen hpre
    exact (paired_iff (bound_mem hpre) hout hin).mp (h pre post s' rfl hexec)
  · rintro h before after s' rfl hexec
    have hpre := fun c hc => hcalls c (List.mem_append_left after hc)
    obtain ⟨t, hexec', hout, hin⟩ := bindAll_pointers hopen hpre
    obtain rfl := Except.ok.inj (hexec'.symm.trans hexec)
    exact (paired_iff (bound_mem hpre) hout hin).mpr (h _ _ (List.map_append ..))

/-! ## The result -/

/-- The streams are paired after the calls exactly if the last partners agree, and after each of them
exactly if no stream is bound to a second partner. -/
theorem pairing_symmetric_iff (hopen : Unbound s streams) (hcalls : ∀ c ∈ calls, c.On streams) :
    (∃ s', bindAll calls s = .ok s' ∧
        (s'.Paired streams ↔ PartnersAgree (calls.map BindCall.bound))) ∧
      ((∀ before after s', calls = before ++ after → bindAll before s = .ok s' →
        s'.Paired streams) ↔ OnePartner (calls.map BindCall.bound)) := by
  obtain ⟨s', hexec, hout, hin⟩ := bindAll_pointers hopen hcalls
  exact ⟨⟨s', hexec, paired_iff (bound_mem hcalls) hout hin⟩, paired_throughout_iff hopen hcalls⟩

/-- Three streams, each with a node of its own. -/
def threeStreams : Streams where
  stdio := fun p => if p < 3 then some ⟨none, none, some p, some p, 0, none⟩ else none
  node := fun p => if p < 3 then some ⟨fun _ => 0, 0, none⟩ else none

/-- Their descriptors are 0, 1 and 2. -/
def threeHandles : FdTable := fun fd => if fd < 3 then .inSO fd.toNat else .zero

def bindThree (FD0 FD1 : UInt64) : BindCall := ⟨threeHandles, FD0, FD1⟩

theorem threeStreams_unbound : Unbound threeStreams {0, 1, 2} := by
  refine ⟨fun p hp => ?_, fun p hp => ?_, fun p hp => ?_⟩ <;>
    rcases hp with rfl | rfl | rfl <;> rfl

theorem threeHandles_handle {fd : UInt64} (h : fd < 3) : Handle threeHandles {0, 1, 2} fd := by
  have hfun : threeHandles fd = .inSO fd.toNat := if_pos h
  have hlt : fd.toNat < 3 := UInt64.lt_iff_toNat_lt.mp h
  refine ⟨by rw [hfun]; rfl, ?_⟩
  rw [hfun]
  change fd.toNat = 0 ∨ fd.toNat = 1 ∨ fd.toNat = 2
  omega

theorem pairing_symmetric_two_pipes :
    ∃ s', bindAll [bindThree 0 1, bindThree 1 2] threeStreams = .ok s' ∧
      (s'.Paired {0, 1, 2} ↔ PartnersAgree [(0, 1), (1, 2)]) := by
  refine (pairing_symmetric_iff threeStreams_unbound fun c hc => ?_).1
  rcases List.mem_cons.mp hc with rfl | hc
  · exact ⟨threeHandles_handle (by decide), threeHandles_handle (by decide)⟩
  · rw [List.mem_singleton.mp hc]
    exact ⟨threeHandles_handle (by decide), threeHandles_handle (by decide)⟩

/-- Stream 1 still reads from stream 0 when stream 0 writes to stream 2. -/
theorem rebinding_leaves_reader :
    ¬ ∀ s', bindAll [bindThree 0 1, bindThree 0 2] threeStreams = .ok s' →
      s'.Paired {0, 1, 2} := by
  intro h
  obtain ⟨s', hexec, hout, hin⟩ :
      ∃ s', bindAll [bindThree 0 1, bindThree 0 2] threeStreams = .ok s' ∧
        s'.pairOut 0 = some 2 ∧ s'.pairIn 1 = some 0 := ⟨_, rfl, rfl, rfl⟩
  have hpair := ((h s' hexec).symmetric 0 (.inl rfl) 1 (.inr (.inl rfl))).mpr hin
  rw [hout] at hpair
  exact absurd hpair (by decide)

end UnnamedOS.Stream
