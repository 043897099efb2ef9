/-
**The stack columns of a row.**

`proto_stack` is the stack of a dissection as one string, `highest_layer` the last name on it.  The
first pass writes both from the stack itself; afterwards the serial phase only has the strings, and
splices the names of a second dissection onto them: behind the stack for a stream prefix, in place
of the fragment marker for a reassembled datagram.

`Tells f stack` says that both columns are those of `stack`.  Every splice of a row that tells a
stack tells a stack again, so the two columns never disagree, and what is known about stacks is
known about the strings.

Main definitions:

* `components` — a stack column between its colons;
* `Tells` — the columns are those of a stack;
* `HighestIsLast` — the highest layer is the last component.

Main results:

* `fragmentPass_tells`, `joinFlow_tells` — what the serial phase does to a stack, as strings;
* `run_highestIsLast` — **the highest layer of every row is the last component of its stack**.
-/

import PcapRacer.DatagramRows
import PcapRacer.RunBatches

set_option relaxedAutoImplicit false
set_option autoImplicit false

namespace PcapRacer

open ChunkedRun (scan)

/-! ### Columns and stacks -/

/-- The components of a stack column, between its colons. -/
def components (s : Text) : List Text := s.splitOn ':'

/-- The components of a stack as one string are its names. -/
theorem components_joinStack {a : List Layer} (ha : a ≠ []) :
    components (joinStack a) = a.map Layer.name := by
  refine List.splitOn_intercalate ':' (fun name hname => ?_) (by simpa using ha)
  obtain ⟨l, -, rfl⟩ := List.mem_map.mp hname
  exact l.name_spec.1

/-- The stack columns are those of the stack. -/
structure Tells (f : FrameCols) (stack : List Layer) : Prop where
  protoStack : f.protoStack = some (joinStack stack)
  highestLayer : f.highestLayer = stack.getLast?.map Layer.name

/-- The highest layer is the last component of the stack, and there is none without a stack. -/
def HighestIsLast (f : FrameCols) : Prop :=
  f.highestLayer =
    if f.protoStack.getD [] = [] then none else (components (f.protoStack.getD [])).getLast?

theorem Tells.highestIsLast {f : FrameCols} {stack : List Layer} (h : Tells f stack) :
    HighestIsLast f := by
  unfold HighestIsLast
  rw [h.protoStack, h.highestLayer, Option.getD_some]
  by_cases hnil : stack = []
  · subst hnil
    rfl
  · rw [if_neg (joinStack_ne_nil hnil), components_joinStack hnil, List.getLast?_map]

/-- Splicing layers onto the stack that a column holds puts them on the stack. -/
theorem Tells.spliceStack {f : FrameCols} {a b : List Layer} (h : Tells f a ∨ b ≠ []) :
    Tells (Engine.spliceStack (joinStack a) (joinStack b) f) (a ++ b) := by
  by_cases hb : b = []
  · subst hb
    rw [spliceStack_nil, List.append_nil]
    exact h.resolve_right fun hne => hne rfl
  · rw [spliceStack_joinStack a hb]
    exact ⟨rfl, rfl⟩

/-! ### The fragment marker -/

theorem Layer.eq_ipFragment {l : Layer} (h : l.name = "ip-fragment".toList) : l = .ipFragment := by
  revert h
  cases l <;> decide

theorem lastPart_append {sep : Char} {last : Text} (before : Text) (h : sep ∉ last) :
    Text.lastPart sep (before ++ sep :: last) = last := by
  have hlast : ∀ x ∈ last.reverse, (x ≠ sep : Bool) := by
    intro x hx
    have hne : x ≠ sep := fun he => h (he ▸ List.mem_reverse.mp hx)
    simpa using hne
  rw [Text.lastPart, List.reverse_append, List.reverse_cons, List.append_assoc,
    List.takeWhile_append_of_pos hlast]
  simp

/-- What is left of a stack when the marker is taken off its string is a stack again: the same, or
all of it but the marker. -/
theorem stripFragmentMarker_stack (a : List Layer) :
    ∃ a', Engine.stripFragmentMarker (joinStack a) = joinStack a' ∧
      (a = a' ∨ a = a' ++ [.ipFragment]) := by
  by_cases hsuffix : ":ip-fragment".toList.isSuffixOf (joinStack a) = true
  · obtain ⟨before, hbefore⟩ := List.isSuffixOf_iff_suffix.mp hsuffix
    have hne : a ≠ [] := by
      rintro rfl
      exact List.append_ne_nil_of_right_ne_nil before (List.cons_ne_nil _ _) hbefore
    obtain ⟨b, l, rfl⟩ : ∃ b l, a = b ++ [l] := ⟨_, _, (List.dropLast_concat_getLast hne).symm⟩
    have hlast : l.name = "ip-fragment".toList := by
      rw [← lastPart_joinStack b l, ← hbefore]
      exact lastPart_append before (by decide)
    obtain rfl := Layer.eq_ipFragment hlast
    by_cases hb : b = []
    · -- the marker alone has no colon before it
      subst hb
      exact ⟨[.ipFragment], by decide, .inl rfl⟩
    · exact ⟨b, stripFragmentMarker_joinStack hb, .inr rfl⟩
  · exact ⟨a, if_neg hsuffix, .inl rfl⟩

/-! ### What the serial phase does to a stack -/

section Serial

variable [Hashes]

/-- Application dispatch writes no frame column, takes no level and enters no tunnel. -/
theorem dispatch_stack {payload : Bytes} {sport dport : UInt16} {isTcp : Bool} {ctx ctx' : Ctx}
    (h : dispatch payload sport dport isTcp ctx = .ok ctx') :
    ctx'.pkt.frame = ctx.pkt.frame ∧ ctx'.depth = ctx.depth ∧
      ctx'.stack.countP Layer.isTunnel = ctx.stack.countP Layer.isTunnel := by
  unfold dispatch at h
  split at h
  · cases h
    exact ⟨rfl, rfl, rfl⟩
  · obtain ⟨s, hs, rfl⟩ := map_eq_ok_iff.mp h
    exact ⟨rfl, rfl, App.identify_tunnels hs⟩

/-- What is left to do once the headers are dissected does neither. -/
theorem arrive_stack {ctx ctx' : Ctx} {stop : Except DissectError (Option (Payload × Cur))}
    {r : Except DissectError Unit} (h : ctx.arrive stop = .ok (r, ctx')) :
    ctx'.pkt.frame = ctx.pkt.frame ∧ ctx'.depth = ctx.depth ∧
      ctx'.stack.countP Layer.isTunnel = ctx.stack.countP Layer.isTunnel := by
  rcases stop with e | _ | ⟨p, c⟩
  · cases h
    exact ⟨rfl, rfl, rfl⟩
  · cases h
    exact ⟨rfl, rfl, rfl⟩
  · obtain ⟨ctx₁, hpay, he⟩ := map_eq_ok_iff.mp h
    cases he
    unfold Ctx.payload at hpay
    dsimp only at hpay
    split at hpay
    · cases hpay
      exact ⟨rfl, rfl, rfl⟩
    · have hd := dispatch_stack hpay
      exact hd

namespace Engine

/-- A stream prefix is dissected behind the stack, and enters no tunnel. -/
theorem dissectStream_tells {pkt pkt' : Packet} {r : Reassembled} {st : List Layer}
    (ht : Tells pkt.frame st) (h : dissectStream pkt r = .ok pkt') :
    ∃ st', Tells pkt'.frame st' ∧
      st'.countP Layer.isTunnel = st.countP Layer.isTunnel := by
  obtain ⟨ctx, hd, he⟩ := bind_eq_ok_iff.mp h
  cases he
  obtain ⟨hframe, -, htunnels⟩ := dispatch_stack hd
  refine ⟨st ++ ctx.stack, ?_, ?_⟩
  · dsimp only
    rw [hframe]
    dsimp only
    rw [ht.protoStack, Option.getD_some]
    exact Tells.spliceStack (.inl ht)
  · rw [List.countP_append, htunnels]
    rfl

/-- Joining a flow leaves the tunnels of the stack as they are. -/
theorem joinFlow_tells {e e' : Engine} {tuple : Option Tuple} {pkt pkt' : Packet} {o : Owned}
    {range : Option (UInt16 × UInt16)} {st : List Layer} (ht : Tells pkt.frame st)
    (h : e.joinFlow tuple pkt o range = .ok (e', pkt')) :
    ∃ st', Tells pkt'.frame st' ∧
      st'.countP Layer.isTunnel = st.countP Layer.isTunnel := by
  cases tuple with
  | none =>
      cases h
      exact ⟨st, ht, rfl⟩
  | some t =>
      obtain ⟨⟨streams, pkt₁⟩, hreasm, he⟩ := bind_eq_ok_iff.mp h
      have hrow : pkt' = (e.flows.observe t pkt₁ o.tsNs (e.nextPacketId + 1) o.origLen.toUInt64).2 :=
        (congrArg Prod.snd (Except.ok.inj he)).symm
      rw [hrow, observe_snd]
      dsimp only
      unfold reassembleAndDispatch at hreasm
      cases hseg : segmentOf o range with
      | none =>
          rw [hseg] at hreasm
          cases hreasm
          exact ⟨st, ht, rfl⟩
      | some segment =>
          rw [hseg] at hreasm
          obtain ⟨pkt₂, hstream, he⟩ := map_eq_ok_iff.mp hreasm
          cases he
          exact dissectStream_tells ht hstream

/-- A reassembled datagram is dissected in place of the marker; the tunnels that its headers enter
come on top. -/
theorem redissectDatagram_tells {key : FragKey} {data : Bytes} {pkt : Packet}
    {r : Option Tuple × Packet} {st : List Layer} (ht : Tells pkt.frame st)
    (h : redissectDatagram key data pkt = .ok r) :
    ∃ st', Tells r.2.frame st' ∧
      st'.countP Layer.isTunnel = st.countP Layer.isTunnel +
        (datagramJourney key data ({ pkt : Ctx } : Ctx).hdr).hdr.stack.countP Layer.isTunnel := by
  obtain ⟨⟨x, ctx⟩, hwalk, he⟩ := bind_eq_ok_iff.mp h
  cases he
  obtain ⟨hframe, -, htunnels⟩ := arrive_stack hwalk
  obtain ⟨a', hbase, ha'⟩ := stripFragmentMarker_stack st
  dsimp only
  rw [ht.protoStack, Option.getD_some, hbase]
  have hsame : Tells ctx.pkt.frame st := by
    rw [hframe]
    exact ⟨ht.protoStack, ht.highestLayer⟩
  by_cases hnil : ctx.stack = []
  · rw [hnil, List.countP_nil] at htunnels
    have hzero : (datagramJourney key data ({ pkt : Ctx } : Ctx).hdr).hdr.stack.countP
        Layer.isTunnel = 0 := htunnels.symm
    rw [hnil, spliceStack_nil, hzero]
    exact ⟨st, hsame, rfl⟩
  · refine ⟨a' ++ ctx.stack, Tells.spliceStack (.inr hnil), ?_⟩
    have hmarker : st.countP Layer.isTunnel = a'.countP Layer.isTunnel := by
      obtain rfl | rfl := ha'
      · rfl
      · rw [List.countP_append]
        rfl
    rw [List.countP_append, hmarker, htunnels]
    rfl

/-- The fragment pass leaves a stack on the columns. -/
theorem fragmentPass_tells {frags frags' : FragTable FragKey} {frag : Option FragMeta}
    {tuple : Option Tuple} {pkt pkt' : Packet} {st : List Layer} (ht : Tells pkt.frame st)
    (h : fragmentPass frags frag pkt = .ok (frags', tuple, pkt')) :
    ∃ st', Tells pkt'.frame st' := by
  cases frag with
  | none =>
      cases h
      exact ⟨st, ht⟩
  | some fm =>
      rcases hp : frags.push fm.key fm.offset fm.moreFragments fm.payload with ⟨_ | data, frags₁⟩
      · simp only [fragmentPass, hp] at h
        cases h
        exact ⟨st, ht⟩
      · simp only [fragmentPass, hp] at h
        obtain ⟨r, hr, he⟩ := map_eq_ok_iff.mp h
        cases he
        obtain ⟨st', ht', -⟩ := redissectDatagram_tells ht hr
        exact ⟨st', ht'⟩

end Engine

/-! ### The first pass -/

/-- A packet that the first pass has dissected tells the stack of its context; one whose dissection
panicked has neither column. -/
theorem dissectOne_tells (o : Owned) (defer : Bool) :
    (∃ r ctx, (frameCtx o defer).arrive (frameJourney o).stop = .ok (r, ctx) ∧
      dissectOne o defer = summary o defer r ctx ∧
      Tells (dissectOne o defer).pkt.frame ctx.stack) ∨
    dissectOne o defer = panickedPacket o := by
  cases hwalk : (frameCtx o defer).arrive (frameJourney o).stop with
  | error p =>
      refine .inr ?_
      unfold dissectOne dissectInner
      rw [dissectFrame_eq, hwalk]
      rfl
  | ok x =>
      have hone := dissectOne_of_arrive hwalk
      have hfirst : x.2.pkt.frame.highestLayer = none := by
        rw [(arrive_stack hwalk).1]
        rfl
      refine .inl ⟨x.1, x.2, rfl, hone, ?_⟩
      rw [hone]
      refine ⟨rfl, ?_⟩
      change (x.2.stack.getLast?.map Layer.name).or x.2.pkt.frame.highestLayer = _
      rw [hfirst, Option.or_none]

/-- A packet whose dissection panicked passes through the serial phase as it is. -/
theorem step_panicked {e e' : Engine} {o : Owned} {defer : Bool} {row : Packet}
    (hd : dissectOne o defer = panickedPacket o) (h : Engine.step defer e o = .ok (e', row)) :
    row = e.numbered (panickedPacket o).pkt := by
  unfold Engine.step at h
  rw [hd] at h
  have hfrag : (if e.reassemble then (panickedPacket o).frag else none) = none := by
    split <;> rfl
  unfold Engine.absorbOne at h
  rw [hfrag] at h
  cases h
  rfl

/-- Every step's row has the columns of a stack, or neither column. -/
theorem step_highestIsLast {e e' : Engine} {o : Owned} {defer : Bool} {row : Packet}
    (h : Engine.step defer e o = .ok (e', row)) : HighestIsLast row.frame := by
  obtain ⟨r, ctx, -, -, ht⟩ | hpanic := dissectOne_tells o defer
  · obtain ⟨⟨frags, fragTuple, pkt⟩, hpass, h⟩ := bind_eq_ok_iff.mp h
    obtain ⟨⟨e₁, pkt₁⟩, hjoin, he⟩ := bind_eq_ok_iff.mp h
    cases he
    have hnum : Tells (e.numbered (dissectOne o defer).pkt).frame ctx.stack :=
      ⟨ht.protoStack, ht.highestLayer⟩
    obtain ⟨st₁, ht₁⟩ := Engine.fragmentPass_tells hnum hpass
    obtain ⟨st₂, ht₂, -⟩ := Engine.joinFlow_tells ht₁ hjoin
    exact ht₂.highestIsLast
  · rw [step_panicked hpanic h]
    rfl

/-- **The highest layer of every row is the last component of its stack**, and no row without a
stack has one. -/
theorem run_highestIsLast {ε : Type} (pool : ThreadPool) (cfg : Config)
    (onBatch : List (List Packet) → Except ε Unit) (records : List RawPacket) (badBlocks : ℕ)
    (row : Packet) (hrow : row ∈ (run pool cfg onBatch records badBlocks).delivered.flatten) :
    HighestIsLast row.frame := by
  obtain ⟨i, hi⟩ := List.mem_iff_getElem?.mp hrow
  obtain ⟨r, rows, e, e', -, -, hstep⟩ := step_of_run hi
  exact step_highestIsLast hstep

end Serial

/-! ### IP-in-IP, whole and fragmented -/

/-- An IP header that carries another one. -/
def ipipRecord : RawPacket :=
  { tsNs := 0, capLen := 54, origLen := 54, ifaceId := 0, linktype := 1,
    data := [0, 0, 0, 0, 0, 1, 0, 0, 0, 0, 0, 2, 0x08, 0x00] ++
      [0x45, 0, 0, 40, 0, 0, 0, 0, 64, 4, 0, 0, 10, 0, 0, 1, 10, 0, 0, 2] ++
      [0x45, 0, 0, 20, 0, 0, 0, 0, 64, 253, 0, 0, 10, 0, 0, 3, 10, 0, 0, 4],
    data_le := by decide }

/-- An Ethernet frame with a part of the IP-in-IP datagram 7 from 10.0.0.5 to 10.0.0.53. -/
def ipipPart (flags offset : UInt8) (payload : Bytes) (h : payload.length ≤ 12) : RawPacket :=
  { tsNs := 0, capLen := 46, origLen := 46, ifaceId := 0, linktype := 1
    data := [0x00, 0x11, 0x22, 0x33, 0x44, 0x55, 0x66, 0x77, 0x88, 0x99, 0xaa, 0xbb, 0x08, 0x00] ++
      [0x45, 0, 0, UInt8.ofNat (20 + payload.length), 0, 7, flags, offset, 64, 4, 0, 0,
        10, 0, 0, 5, 10, 0, 0, 53] ++ payload
    data_le := by
      rw [List.length_append]
      exact Nat.add_le_add_left h 34 }

/-- The first eight bytes of the inner header, and the other twelve. -/
def ipipFirst : RawPacket := ipipPart 0x20 0 [0x45, 0, 0, 20, 0, 1, 0, 0] (by decide)

def ipipLast : RawPacket := ipipPart 0 1 [64, 59, 0, 0, 10, 1, 0, 1, 10, 1, 0, 2] (by decide)

/-- The rows of a tunnelled packet and of a tunnelled packet in two fragments: the stack of the last
row is spliced from the fragment and the datagram. -/
theorem delivered_ipip [Hashes] (pool : ThreadPool) : ∃ whole first last,
    (run pool {} (fun _ => (.ok () : Except Unit Unit))
        [ipipRecord, ipipFirst, ipipLast] 0).delivered.flatten = [whole, first, last] ∧
      (whole.frame.protoStack = some "eth:ip:ipip:ip".toList ∧
        whole.frame.tunnelDepth = some 1 ∧ whole.frame.panicked = some false) ∧
      last.frame.protoStack = some "eth:ip:ipip:ip".toList ∧
        last.frame.tunnelDepth = some 0 ∧ last.frame.panicked = some false := by
  obtain ⟨e, whole, first, last, hscan, hwhole, hlast⟩ : ∃ e whole first last,
      scan (Engine.step true) (Engine.new {})
          ([ipipRecord, ipipFirst, ipipLast].map RawPacket.own) =
        .ok (e, [whole, first, last]) ∧
      (whole.frame.protoStack = some "eth:ip:ipip:ip".toList ∧
        whole.frame.tunnelDepth = some 1 ∧ whole.frame.panicked = some false) ∧
      last.frame.protoStack = some "eth:ip:ipip:ip".toList ∧
        last.frame.tunnelDepth = some 0 ∧ last.frame.panicked = some false :=
    ⟨_, _, _, _, rfl, ⟨rfl, rfl, rfl⟩, rfl, rfl, rfl⟩
  exact ⟨whole, first, last,
    delivered_of_scan {} hscan pool (by decide) (by decide) 0 _ fun _ => rfl, hwhole, hlast⟩

/-- The row of a reassembled datagram. -/
theorem run_highestIsLast_ipip :
    ipipFirst.data.length = 42 ∧ ∀ (_ : Hashes) (pool : ThreadPool),
      ∃ row ∈ (run pool {} (fun _ => (.ok () : Except Unit Unit))
          [ipipRecord, ipipFirst, ipipLast] 0).delivered.flatten,
        row.frame.protoStack = some "eth:ip:ipip:ip".toList ∧ row.frame.tunnelDepth = some 0 ∧
          HighestIsLast row.frame := by
  refine ⟨by decide, fun _ pool => ?_⟩
  obtain ⟨whole, first, last, hrows, -, hstack, hdepth, -⟩ := delivered_ipip pool
  have hrow : last ∈ (run pool {} (fun _ => (.ok () : Except Unit Unit))
      [ipipRecord, ipipFirst, ipipLast] 0).delivered.flatten := by
    rw [hrows]
    simp
  exact ⟨last, hrow, hstack, hdepth, run_highestIsLast pool {} _ _ 0 last hrow⟩

end PcapRacer
