import UnnamedOS.Lib.Chain
import UnnamedOS.Stream.Pipe

/-!
# What one section does to the chain

`Pipeline` describes the chain behind a `stdIO`. A writing section appends a prefix of its
bytes to what the chain holds, a reading section takes a prefix away, drops an empty node or
finds the chain empty.
-/

namespace UnnamedOS.Stream

open UnnamedOS.Lib

variable {s s' : Streams} {io : Stdio} {m : FifoBuf} {w r a e p len : Nat} {l l' : List Nat}
  {rest : List UInt8} {g : FifoBuf}

namespace Streams

def nextNode (s : Streams) (a : Nat) : Option Nat := (s.node a).bind FifoBuf.next

/-- The bytes in the nodes `l`, in order. -/
def held (s : Streams) (l : List Nat) : List UInt8 :=
  l.flatMap fun a => (s.node a).elim [] FifoBuf.bytes

@[simp] theorem held_nil : s.held [] = [] := rfl

@[simp] theorem held_cons : s.held (a :: l) = (s.node a).elim [] FifoBuf.bytes ++ s.held l := by
  simp [held]

@[simp] theorem held_append : s.held (l ++ l') = s.held l ++ s.held l' := by
  simp [held]

theorem held_congr (h : ∀ a ∈ l, s'.node a = s.node a) : s'.held l = s.held l := by
  induction l with
  | nil => rfl
  | cons a l ih =>
      rw [held_cons, held_cons, h a List.mem_cons_self,
        ih fun b hb => h b (List.mem_cons_of_mem a hb)]

@[simp] theorem setNode_same : (s.setNode a m).node a = some m := by simp [setNode]

theorem setNode_other (h : p ≠ a) : (s.setNode a m).node p = s.node p := by simp [setNode, h]

theorem freeNode_other (h : p ≠ a) : (s.freeNode a).node p = s.node p := by simp [freeNode, h]

@[simp] theorem setStdio_same : (s.setStdio a io).stdio a = some io := by simp [setStdio]

theorem setStdio_other (h : p ≠ a) : (s.setStdio a io).stdio p = s.stdio p := by
  simp [setStdio, h]

/-- Writing a node without touching its pointer. -/
theorem nextNode_setNode (hm : s.node a = some m) {m' : FifoBuf} (hnext : m'.next = m.next) :
    (s.setNode a m').nextNode = s.nextNode := by
  funext x
  by_cases hx : x = a
  · subst hx
    rw [nextNode, nextNode, setNode_same, hm]
    exact hnext
  · rw [nextNode, nextNode, setNode_other hx]

end Streams

open Streams

/-- The chain of the `stdIO` at `w`: the nodes `l` and then the last node `e`. -/
structure Pipeline (s : Streams) (w : Nat) (io : Stdio) (l : List Nat) (e : Nat) : Prop where
  stdio : s.stdio w = some io
  last : io.bufferOutEnd = some e
  chain : Seg s.nextNode io.bufferOut l (some e)
  nodup : (l ++ [e]).Nodup
  nodes : ∀ a ∈ l ++ [e], ∃ m, s.node a = some m ∧ m.datac ≤ 255

namespace Pipeline

theorem notMem (hp : Pipeline s w io l e) : e ∉ l := by
  intro hmem
  exact (List.nodup_append.mp hp.nodup).2.2 e hmem e List.mem_cons_self rfl

theorem node_last (hp : Pipeline s w io l e) : ∃ m, s.node e = some m ∧ m.datac ≤ 255 :=
  hp.nodes e (List.mem_append_right l List.mem_cons_self)

/-- The first node of the chain. -/
theorem first (hp : Pipeline s w io l e) :
    ∃ p m, io.bufferOut = some p ∧ s.node p = some m ∧ m.datac ≤ 255 ∧
      ((l = [] ∧ p = e) ∨ ∃ l', l = p :: l' ∧ Seg s.nextNode (s.nextNode p) l' (some e)) := by
  have hchain := hp.chain
  cases l with
  | nil =>
      obtain ⟨m, hm, hc⟩ := hp.node_last
      exact ⟨e, m, hchain, hm, hc, Or.inl ⟨rfl, rfl⟩⟩
  | cons p l =>
      obtain ⟨hout, hrest⟩ := seg_cons.mp hchain
      obtain ⟨m, hm, hc⟩ := hp.nodes p List.mem_cons_self
      exact ⟨p, m, hout, hm, hc, Or.inr ⟨l, rfl, hrest⟩⟩

/-- A node of the chain gets new contents and keeps its pointer. -/
theorem setNode (hp : Pipeline s w io l e) (hm : s.node a = some m) {m' : FifoBuf}
    (hnext : m'.next = m.next) (hc : m'.datac ≤ 255) : Pipeline (s.setNode a m') w io l e where
  stdio := hp.stdio
  last := hp.last
  chain := by
    rw [nextNode_setNode hm hnext]
    exact hp.chain
  nodup := hp.nodup
  nodes x hx := by
    by_cases hxa : x = a
    · subst hxa
      exact ⟨m', setNode_same, hc⟩
    · rw [setNode_other hxa]
      exact hp.nodes x hx

end Pipeline

/-- A section leaves the binding of every `stdIO` as it is. -/
def SameLinks (s s' : Streams) : Prop :=
  ∀ p, (s'.stdio p).map (fun io => (io.pairIn, io.pairOut, io.type, io.waiter)) =
    (s.stdio p).map fun io => (io.pairIn, io.pairOut, io.type, io.waiter)

theorem SameLinks.refl (s : Streams) : SameLinks s s := fun _ => rfl

theorem sameLinks_setStdio (h : s.stdio w = some io) {io' : Stdio}
    (hlinks : (io'.pairIn, io'.pairOut, io'.type, io'.waiter) =
      (io.pairIn, io.pairOut, io.type, io.waiter)) (hs : s'.stdio = s.stdio) :
    SameLinks s (s'.setStdio w io') := by
  intro p
  by_cases hpw : p = w
  · subst hpw
    rw [setStdio_same, h, Option.map_some, Option.map_some, hlinks]
  · rw [setStdio_other hpw, hs]

theorem node_of_setNode_none (hm : s.node a = some m) {m' : FifoBuf}
    (hx : (s.setNode a m').node p = none) :
    s.node p = none := by
  by_cases hpa : p = a
  · subst hpa
    rw [setNode_same] at hx
    cases hx
  · rwa [setNode_other hpa] at hx

/-! ## Writing -/

/-- Bytes are put behind those of a node. -/
theorem FifoBuf.fill_ok {m : FifoBuf} {bytes : List UInt8} (h : m.datac + bytes.length ≤ 255) :
    ∃ data, copyIn m.data m.datac bytes = .ok data ∧
      FifoBuf.bytes { m with data := data, datac := (m.datac + bytes.length) % 256 } =
        m.bytes ++ bytes := by
  obtain ⟨data, hcopy, hbytes⟩ := copyIn_ok m.data bytes m.datac (by omega)
  have hmod : (m.datac + bytes.length) % 256 = m.datac + bytes.length := by omega
  refine ⟨data, hcopy, ?_⟩
  rw [FifoBuf.bytes, hmod, hbytes, FifoBuf.bytes]

theorem Pipeline.held_fill (hp : Pipeline s w io l e) (hm : s.node e = some m) {m' : FifoBuf}
    {bytes : List UInt8} (hbytes : m'.bytes = m.bytes ++ bytes) :
    (s.setNode e m').held (l ++ [e]) = s.held (l ++ [e]) ++ bytes := by
  have hl : (s.setNode e m').held l = s.held l :=
    held_congr fun x hx => setNode_other fun he => hp.notMem (he ▸ hx)
  rw [held_append, hl, held_append, List.append_assoc]
  congr 1
  rw [held_cons, held_nil, setNode_same, held_cons, held_nil, hm, List.append_nil, List.append_nil]
  exact hbytes

/-- A new node is put behind the last one. -/
def Streams.link (s : Streams) (w : Nat) (io : Stdio) (e : Nat) (m : FifoBuf) (a : Nat) (g : FifoBuf) :
    Streams :=
  ((s.setNode e { m with next := some a }).setNode a g).setStdio w { io with bufferOutEnd := some a }

theorem link_new : (s.link w io e m a g).node a = some g := setNode_same

theorem link_last (h : e ≠ a) :
    (s.link w io e m a g).node e = some { m with next := some a } :=
  (setNode_other h).trans setNode_same

theorem link_other (ha : p ≠ a) (he : p ≠ e) : (s.link w io e m a g).node p = s.node p :=
  (setNode_other ha).trans (setNode_other he)

namespace Pipeline

/-- A new node is none of the chain. -/
theorem ne_new (hp : Pipeline s w io l e) (ha : s.node a = none) : ∀ x ∈ l ++ [e], x ≠ a := by
  rintro x hx rfl
  obtain ⟨m', hm', -⟩ := hp.nodes x hx
  rw [ha] at hm'
  cases hm'

theorem link (hp : Pipeline s w io l e) (hm : s.node e = some m) (ha : s.node a = none)
    (hg : g.datac ≤ 255) :
    Pipeline (s.link w io e m a g) w { io with bufferOutEnd := some a } (l ++ [e]) a := by
  have hne := hp.ne_new ha
  have hea : e ≠ a := hne e (List.mem_append_right l List.mem_cons_self)
  have hbefore : ∀ x ∈ l, x ≠ a ∧ x ≠ e := fun x hx =>
    ⟨hne x (List.mem_append_left _ hx), fun he => hp.notMem (he ▸ hx)⟩
  constructor
  case stdio => exact setStdio_same
  case last => rfl
  case chain =>
    refine seg_concat.mpr ⟨(seg_congr fun x hx => ?_).mp hp.chain, ?_⟩
    · rw [nextNode, nextNode, link_other (hbefore x hx).1 (hbefore x hx).2]
    · rw [nextNode, link_last hea]
      exact Option.bind_some _ _
  case nodup =>
    rw [List.nodup_append]
    refine ⟨hp.nodup, List.nodup_singleton a, fun x hx y hy => ?_⟩
    rw [List.mem_singleton.mp hy]
    exact hne x hx
  case nodes =>
    intro x hx
    rcases List.mem_append.mp hx with hx | hx
    · rcases List.mem_append.mp hx with hxl | hxe
      · rw [link_other (hbefore x hxl).1 (hbefore x hxl).2]
        exact hp.nodes x hx
      · obtain rfl := List.mem_singleton.mp hxe
        obtain ⟨m', hm', hc⟩ := hp.nodes x hx
        obtain rfl := Option.some.inj (hm.symm.trans hm')
        exact ⟨_, link_last hea, hc⟩
    · obtain rfl := List.mem_singleton.mp hx
      exact ⟨g, link_new, hg⟩

theorem held_link (hp : Pipeline s w io l e) (hm : s.node e = some m) (ha : s.node a = none) :
    (s.link w io e m a g).held (l ++ [e] ++ [a]) = s.held (l ++ [e]) ++ g.bytes := by
  have hne := hp.ne_new ha
  have hea : e ≠ a := hne e (List.mem_append_right l List.mem_cons_self)
  have hl : (s.link w io e m a g).held l = s.held l := by
    apply held_congr
    intro x hx
    exact link_other (hne x (List.mem_append_left _ hx)) fun he => hp.notMem (he ▸ hx)
  have hlast : (s.link w io e m a g).held [e] = s.held [e] := by
    rw [held_cons, held_cons, link_last hea, hm]
    rfl
  rw [held_append, held_append, hl, hlast, ← held_append, held_cons, link_new, held_nil,
    List.append_nil]
  rfl

end Pipeline

theorem node_of_link_none (ha : s.node a = none) (hm : s.node e = some m)
    (hx : (s.link w io e m a g).node p = none) : s.node p = none := by
  by_cases hpa : p = a
  · rw [hpa]
    exact ha
  · have hx' : (s.setNode e { m with next := some a }).node p = none :=
      (setNode_other hpa).symm.trans hx
    exact node_of_setNode_none hm hx'

/-- The bytes a writing section takes from its buffer go to the end of the chain. -/
theorem writeSection_spec (hp : Pipeline s w io l e) (hrest : rest ≠ []) (ha : s.node a = none) :
    ∃ s' n io' l' e', s.writeSection w rest a g = .ok (s', n) ∧ 1 ≤ n ∧ n ≤ rest.length ∧
      Pipeline s' w io' l' e' ∧ s'.held (l' ++ [e']) = s.held (l ++ [e]) ++ rest.take n ∧
      SameLinks s s' ∧ (∀ x, s'.node x = none → s.node x = none) ∧
      ∃ m', s'.node e' = some m' ∧ 1 ≤ m'.datac := by
  obtain ⟨m, hm, hc⟩ := hp.node_last
  have hlen : 1 ≤ rest.length := List.length_pos_iff.mpr hrest
  have hio : s.getStdio (some w) = .ok (w, io) := by rw [getStdio, hp.stdio]
  have hnode : s.getNode io.bufferOutEnd = .ok (e, m) := by rw [hp.last, getNode, hm]
  have htake : ∀ n ≤ rest.length, (rest.take n).length = n := fun n hn =>
    List.length_take.trans (Nat.min_eq_left hn)
  rw [writeSection, hio]
  dsimp only
  rw [hnode]
  dsimp only
  by_cases hfull : m.datac ≠ 255
  · -- the last node has room
    obtain ⟨n, hn⟩ : ∃ n, n = min (freeSpace m.datac) rest.length := ⟨_, rfl⟩
    have hspace := freeSpace_eq (show m.datac < 256 by omega)
    have hroom : m.datac + (rest.take n).length ≤ 255 := by rw [htake n (by omega)]; omega
    obtain ⟨data, hcopy, hbytes⟩ := FifoBuf.fill_ok hroom
    rw [htake n (by omega)] at hbytes hroom
    have hdatac : (m.datac + n) % 256 = m.datac + n := by omega
    rw [if_pos hfull, ← hn, hcopy]
    refine ⟨_, n, io, l, e, rfl, by omega, by omega, hp.setNode hm rfl ?_, hp.held_fill hm hbytes,
      SameLinks.refl _, fun x hx => node_of_setNode_none hm hx, _, setNode_same, ?_⟩
    · change (m.datac + n) % 256 ≤ 255
      omega
    · change 1 ≤ (m.datac + n) % 256
      omega
  · -- it is full
    obtain ⟨n, hn⟩ : ∃ n, n = min 255 rest.length := ⟨_, rfl⟩
    have hroom : ({ g with datac := 0 } : FifoBuf).datac + (rest.take n).length ≤ 255 := by
      rw [htake n (by omega)]
      change 0 + n ≤ 255
      omega
    obtain ⟨data, hcopy, hbytes⟩ := FifoBuf.fill_ok hroom
    have hempty : ({ g with datac := 0 } : FifoBuf).bytes = [] := rfl
    rw [hempty, List.nil_append] at hbytes
    change copyIn g.data 0 (rest.take n) = .ok data at hcopy
    change FifoBuf.bytes ⟨data, (0 + (rest.take n).length) % 256, g.next⟩ = _ at hbytes
    rw [htake n (by omega), Nat.zero_add] at hbytes
    rw [if_neg hfull, ← hn, hcopy]
    refine ⟨_, n, _, l ++ [e], a, rfl, by omega, by omega, hp.link hm ha ?_, ?_,
      sameLinks_setStdio hp.stdio rfl rfl, fun x hx => node_of_link_none ha hm hx, _, link_new, ?_⟩
    · change n % 256 ≤ 255
      omega
    · rw [← hbytes]
      exact hp.held_link hm ha
    · change 1 ≤ n % 256
      omega

/-! ## Reading -/

namespace Pipeline

/-- Bytes are taken from the first node. -/
theorem held_take (hp : Pipeline s w io l e) (hout : io.bufferOut = some p) (hm : s.node p = some m)
    {m' : FifoBuf} {bytes : List UInt8} (hbytes : bytes ++ m'.bytes = m.bytes) :
    bytes ++ (s.setNode p m').held (l ++ [e]) = s.held (l ++ [e]) := by
  obtain ⟨l', hl'⟩ : ∃ l', l ++ [e] = p :: l' := by
    obtain ⟨q, -, hq, -, -, hfirst⟩ := hp.first
    obtain rfl := Option.some.inj (hout.symm.trans hq)
    rcases hfirst with ⟨rfl, rfl⟩ | ⟨l', rfl, -⟩
    · exact ⟨[], rfl⟩
    · exact ⟨l' ++ [e], rfl⟩
  have hnd := hp.nodup
  rw [hl'] at hnd ⊢
  have hrest : (s.setNode p m').held l' = s.held l' :=
    held_congr fun x hx => setNode_other fun he => (List.nodup_cons.mp hnd).1 (he ▸ hx)
  rw [held_cons, held_cons, setNode_same, hm, hrest, Option.elim_some, Option.elim_some, ← hbytes,
    List.append_assoc]

/-- The first node goes. -/
theorem drop (hp : Pipeline s w io (p :: l) e) (hm : s.node p = some m)
    (hrest : Seg s.nextNode (s.nextNode p) l (some e)) :
    Pipeline ((s.setStdio w { io with bufferOut := m.next }).freeNode p) w
      { io with bufferOut := m.next } l e := by
  have hnd := hp.nodup
  rw [List.cons_append, List.nodup_cons] at hnd
  have hkeep : ∀ x ∈ l ++ [e], ((s.setStdio w { io with bufferOut := m.next }).freeNode p).node x =
      s.node x := fun x hx => freeNode_other fun he => hnd.1 (he ▸ hx)
  refine ⟨setStdio_same, hp.last, ?_, hnd.2, fun x hx => ?_⟩
  · rw [nextNode, hm, Option.bind_some] at hrest
    apply (seg_congr fun x hx => ?_).mp hrest
    rw [nextNode, nextNode, hkeep x (List.mem_append_left _ hx)]
  · rw [hkeep x hx]
    exact hp.nodes x (List.mem_cons_of_mem p hx)

theorem held_drop (hp : Pipeline s w io (p :: l) e) (hm : s.node p = some m) (hbytes : m.bytes = []) :
    ((s.setStdio w { io with bufferOut := m.next }).freeNode p).held (l ++ [e]) =
      s.held (p :: l ++ [e]) := by
  have hnd := hp.nodup
  rw [List.cons_append, List.nodup_cons] at hnd
  have hheld : ((s.setStdio w { io with bufferOut := m.next }).freeNode p).held (l ++ [e]) =
      s.held (l ++ [e]) := held_congr fun x hx => freeNode_other fun he => hnd.1 (he ▸ hx)
  rw [hheld, List.cons_append, held_cons, hm, Option.elim_some, hbytes, List.nil_append]

end Pipeline

/-- A reading section takes a prefix of what the chain holds, drops an empty node that is not
the last one, or finds that the chain holds nothing. -/
theorem readSection_spec (hp : Pipeline s w io l e) {rd : Stdio} (hr : s.stdio r = some rd)
    (hpair : rd.pairIn = some w) (hlen : 1 ≤ len) :
    (s.readSection r len = .ok (s, .toRelent) ∧ s.held (l ++ [e]) = []) ∨
      (∃ s' io' l' p m, s.readSection r len = .ok (s', .dropped) ∧ Pipeline s' w io' l' e ∧
        s'.held (l' ++ [e]) = s.held (l ++ [e]) ∧ SameLinks s s' ∧ s.node p = some m ∧
        m.datac = 0 ∧ p ≠ e ∧ (∀ x, x ≠ p → s'.node x = s.node x) ∧ l = p :: l') ∨
      ∃ s' bytes, s.readSection r len = .ok (s', .copied bytes) ∧ Pipeline s' w io l e ∧
        1 ≤ bytes.length ∧ bytes.length ≤ len ∧ bytes ++ s'.held (l ++ [e]) = s.held (l ++ [e]) ∧
        SameLinks s s' ∧ (∀ x, s'.node x = none → s.node x = none) ∧
        ∀ x, io.bufferOut ≠ some x → s'.node x = s.node x := by
  obtain ⟨p, m, hout, hm, hc, hfirst⟩ := hp.first
  have hrd : s.getStdio (some r) = .ok (r, rd) := by rw [getStdio, hr]
  have hio : s.getStdio (some w) = .ok (w, io) := by rw [getStdio, hp.stdio]
  have hnode : s.getNode io.bufferOut = .ok (p, m) := by rw [hout, getNode, hm]
  rw [readSection, hrd]
  dsimp only
  rw [hpair]
  dsimp only
  rw [hio]
  dsimp only
  rw [hnode]
  dsimp only
  by_cases hzero : min m.datac len = 0
  · have hdatac : m.datac = 0 := by omega
    have hbytes : m.bytes = [] := by rw [FifoBuf.bytes, hdatac]; simp
    rw [if_pos hzero]
    rcases hfirst with ⟨rfl, rfl⟩ | ⟨l', rfl, hrest⟩
    · rw [if_neg (by rw [hout, hp.last]; exact fun h => h rfl)]
      exact Or.inl ⟨rfl, by simp [hm, hbytes]⟩
    · have hpe : p ≠ e := fun he => hp.notMem (he ▸ List.mem_cons_self)
      rw [if_pos (by rw [hout, hp.last]; exact fun h => hpe (Option.some.inj h))]
      exact Or.inr (Or.inl ⟨_, _, l', p, m, rfl, hp.drop hm hrest, hp.held_drop hm hbytes,
        sameLinks_setStdio hp.stdio rfl rfl, hm, hdatac, hpe, fun x hx => freeNode_other hx, rfl⟩)
  · obtain ⟨hcopy, data, hdown, hleft⟩ := m.take_ok (Nat.min_le_left m.datac len) hc
    rw [if_neg hzero, hcopy]
    dsimp only
    rw [hdown]
    have htake : (m.bytes.take (min m.datac len)).length = min m.datac len := by
      rw [List.length_take, FifoBuf.length_bytes]
      omega
    refine Or.inr (Or.inr ⟨_, _, rfl, hp.setNode hm rfl ?_, by omega, by omega, hp.held_take hout hm ?_,
      SameLinks.refl _, fun x hx => node_of_setNode_none hm hx, fun x hx => ?_⟩)
    · change m.datac - min m.datac len ≤ 255
      omega
    · rw [hleft, List.take_append_drop]
    · exact setNode_other fun hxp => hx (hxp ▸ hout)

end UnnamedOS.Stream
