/-
**The row of a reassembled datagram.**

When a fragment completes its datagram, the serial phase dissects the payload that the fragments make
up, and puts what it finds on the packet that carried the last of them.  This module compares that
row with the row of the same datagram sent in one piece.

Main definitions:

* `Reading`, `Shows` — what is read from the payload of a datagram, and a row that shows it;
* `SentWhole` — a fragment, and its datagram sent in one piece;
* `Completes` — the fragments of a datagram arrive, in any order and within the limits;
* `MatchesWhole` — the row of the completing packet against the row of the whole datagram.

Main results:

* `BareFragment.step_completing` — the row of a later fragment that completes its datagram;
* `Undisturbed.step_reading` — the row of the whole datagram;
* `SentWhole.twin_journeys` — the reassembled datagram is walked over like the whole one;
* `matchesWhole_of_completed_late` — **the two rows agree when the first fragment is not the last to
  arrive**.
-/

import PcapRacer.AppStack
import PcapRacer.FragTableOrder
import PcapRacer.FragmentAccount
import PcapRacer.HeaderFrame
import PcapRacer.SegmentRows

set_option relaxedAutoImplicit false
set_option autoImplicit false

namespace PcapRacer

open ChunkedRun (scan)

/-! ### The stack as a string -/

/-- No name has a colon in it, and none is empty. -/
theorem Layer.name_spec (l : Layer) : ':' ∉ l.name ∧ l.name ≠ [] := by
  cases l <;> decide

theorem joinStack_singleton (l : Layer) : joinStack [l] = l.name := by
  rw [joinStack, Text.join, List.map_singleton, List.intercalate_singleton]

theorem joinStack_cons {l : Layer} {rest : List Layer} (h : rest ≠ []) :
    joinStack (l :: rest) = l.name ++ ':' :: joinStack rest := by
  unfold joinStack Text.join
  rw [List.map_cons, List.intercalate_cons_of_ne_nil (by simpa using h), List.append_assoc]
  rfl

theorem joinStack_append {a b : List Layer} (ha : a ≠ []) (hb : b ≠ []) :
    joinStack (a ++ b) = joinStack a ++ ':' :: joinStack b := by
  induction a with
  | nil => exact absurd rfl ha
  | cons l a ih =>
      by_cases h : a = []
      · subst h
        rw [List.singleton_append, joinStack_cons hb, joinStack_singleton]
      · rw [List.cons_append, joinStack_cons (List.append_ne_nil_of_left_ne_nil h b), ih h,
          joinStack_cons h, List.append_assoc, List.cons_append]

theorem joinStack_ne_nil {a : List Layer} (ha : a ≠ []) : joinStack a ≠ [] := by
  cases a with
  | nil => exact absurd rfl ha
  | cons l a =>
      have hname := l.name_spec.2
      by_cases h : a = []
      · subst h
        rwa [joinStack_singleton]
      · rw [joinStack_cons h]
        exact List.append_ne_nil_of_left_ne_nil hname _

/-- The last name of a stack is what stands after its last colon. -/
theorem lastPart_joinStack (a : List Layer) (l : Layer) :
    Text.lastPart ':' (joinStack (a ++ [l])) = l.name := by
  have hname : ∀ x ∈ l.name.reverse, (x ≠ ':' : Bool) := by
    intro x hx
    have hne : x ≠ ':' := fun h => l.name_spec.1 (h ▸ List.mem_reverse.mp hx)
    simpa using hne
  by_cases ha : a = []
  · subst ha
    rw [List.nil_append, joinStack_singleton, Text.lastPart]
    rw [← List.append_nil l.name.reverse, List.takeWhile_append_of_pos hname, List.takeWhile_nil,
      List.append_nil, List.reverse_reverse]
  · rw [joinStack_append ha (List.cons_ne_nil l []), joinStack_singleton, Text.lastPart,
      List.reverse_append, List.reverse_cons, List.append_assoc,
      List.takeWhile_append_of_pos hname]
    simp

/-- The marker that a bare fragment leaves is taken off again. -/
theorem stripFragmentMarker_joinStack {a : List Layer} (ha : a ≠ []) :
    Engine.stripFragmentMarker (joinStack (a ++ [.ipFragment])) = joinStack a := by
  have hsplit : joinStack (a ++ [.ipFragment]) = joinStack a ++ ":ip-fragment".toList := by
    rw [joinStack_append ha (List.cons_ne_nil _ _), joinStack_singleton]
    rfl
  have hsuffix : ":ip-fragment".toList.isSuffixOf (joinStack a ++ ":ip-fragment".toList) = true :=
    List.isSuffixOf_iff_suffix.mpr (List.suffix_append _ _)
  rw [hsplit, Engine.stripFragmentMarker, if_pos hsuffix, List.length_append, Nat.add_sub_cancel,
    List.take_left']
  rfl

/-- Splicing layers onto a stack. -/
theorem spliceStack_joinStack (a : List Layer) {b : List Layer} (hb : b ≠ []) (frame : FrameCols) :
    Engine.spliceStack (joinStack a) (joinStack b) frame =
      { frame with protoStack := some (joinStack (a ++ b))
                   highestLayer := (a ++ b).getLast?.map Layer.name } := by
  have hlast : some (Text.lastPart ':' (joinStack b)) = (a ++ b).getLast?.map Layer.name := by
    obtain ⟨b', l, rfl⟩ : ∃ b' l, b = b' ++ [l] := ⟨_, _, (List.dropLast_concat_getLast hb).symm⟩
    rw [lastPart_joinStack, ← List.append_assoc, List.getLast?_concat]
    rfl
  rw [Engine.spliceStack, if_neg (joinStack_ne_nil hb), hlast]
  by_cases ha : a = []
  · rw [ha, List.nil_append]
    rfl
  · rw [if_neg (joinStack_ne_nil ha), joinStack_append ha hb, List.append_assoc]
    rfl

theorem spliceStack_nil (base : Text) (frame : FrameCols) :
    Engine.spliceStack base (joinStack []) frame = frame := rfl

/-! ### What is read from a payload -/

theorem outlook_eq_some {stop : Except DissectError (Option (Payload × Cur))} {p : Payload}
    {bytes : Bytes} (h : outlook stop = .ok (some (p, bytes))) : ∃ c, stop = .ok (some (p, c)) := by
  rcases stop with e | _ | ⟨q, c⟩
  · cases h
  · cases h
  · cases h
    exact ⟨c, rfl⟩

/-- The layers above the headers of a datagram, and the columns that its payload fills. -/
structure Reading where
  layers : List Layer := []
  app : AppCols := {}
  payload : PayloadCols := {}

/-- The row shows this stack, these transport columns and this reading. -/
structure Shows (row : Packet) (stack : List Layer) (transport : TransportCols) (r : Reading) :
    Prop where
  protoStack : row.frame.protoStack = some (joinStack stack)
  highestLayer : row.frame.highestLayer = stack.getLast?.map Layer.name
  transport : row.transport = transport
  app : row.app = r.app
  payload : row.payload = r.payload

/-- The flow columns apart, the row is the packet. -/
def RowOf (pkt row : Packet) : Prop := row = { pkt with flow := row.flow }

theorem RowOf.shows {pkt row : Packet} {stack : List Layer} {transport : TransportCols} {r : Reading}
    (h : RowOf pkt row) (hpkt : Shows pkt stack transport r) : Shows row stack transport r := by
  rw [h]
  exact ⟨hpkt.protoStack, hpkt.highestLayer, hpkt.transport, hpkt.app, hpkt.payload⟩

section Read

variable [Hashes]

/-- What application dispatch reads from a transport payload. -/
def readPayload (p : Payload) (bytes : Bytes) : Except Panic Reading :=
  if bytes = [] then .ok { payload := payloadCols p.isTcp [] {} }
  else
    (App.identify bytes p.sport p.dport p.isTcp { stack := [], cols := {} }).map fun s =>
      { layers := s.stack, app := s.cols, payload := payloadCols p.isTcp bytes {} }

/-- What is read where a walk ends. -/
def reading : Except DissectError (Option (Payload × Bytes)) → Except Panic Reading
  | .ok (some (p, bytes)) => readPayload p bytes
  | _ => .ok {}

/-- A TCP payload length is recorded of TCP payloads only. -/
theorem reading_tcpPayloadLen {stop : Except DissectError (Option (Payload × Bytes))} {r : Reading}
    (hudp : ∀ p bytes, stop = .ok (some (p, bytes)) → p.isTcp = false) (h : reading stop = .ok r) :
    r.payload.tcpPayloadLen = none := by
  have hcols : ∀ bytes, (payloadCols false bytes {}).tcpPayloadLen = none := by
    intro bytes
    unfold payloadCols recordPayload
    dsimp only
    split <;> rfl
  rcases stop with e | _ | ⟨p, bytes⟩
  · cases h
    rfl
  · cases h
    rfl
  · change readPayload p bytes = _ at h
    rw [readPayload, hudp p bytes rfl] at h
    split at h
    · cases h
      exact hcols []
    · obtain ⟨s, -, rfl⟩ := map_eq_ok_iff.mp h
      exact hcols bytes

/-- The context after a payload has been read. -/
structure HasRead (ctx ctx' : Ctx) (r : Reading) : Prop where
  stack : ctx'.stack = ctx.stack ++ r.layers
  pkt : ctx'.pkt = { ctx.pkt with app := r.app, payload := r.payload }
  tuple : ctx'.tuple = ctx.tuple
  frag : ctx'.frag = ctx.frag

/-- A payload that is dispatched at once. -/
theorem payload_reading {ctx : Ctx} {p : Payload} {c : Cur} {r : Reading}
    (hdone : ctx.appDone = false) (happ : ctx.pkt.app = {}) (hpay : ctx.pkt.payload = {})
    (hdirect : ¬ (p.isTcp ∧ ctx.deferTcpApp)) (h : readPayload p c.rest = .ok r) :
    ∃ ctx', ctx.payload p c = .ok ctx' ∧ HasRead ctx ctx' r := by
  unfold Ctx.payload dispatch
  dsimp only
  rw [if_neg hdirect]
  unfold readPayload at h
  by_cases hnil : c.rest = []
  · rw [if_pos hnil] at h
    cases h
    rw [if_pos (.inr hnil)]
    refine ⟨_, rfl, (List.append_nil _).symm, ?_, rfl, rfl⟩
    rw [hnil, hpay, ← happ]
  · rw [if_neg hnil] at h
    obtain ⟨s, hs, rfl⟩ := map_eq_ok_iff.mp h
    have hframed := App.identify_framed c.rest p.sport p.dport p.isTcp ctx.stack
      { stack := [], cols := {} }
    have htop : onTop ctx.stack ({ stack := [], cols := {} } : Sink AppCols) =
        { stack := ctx.stack, cols := ctx.pkt.app } := by
      rw [onTop, List.append_nil, happ]
    rw [htop, hs] at hframed
    rw [if_neg (by simp [hdone, hnil]), hframed]
    refine ⟨_, rfl, rfl, ?_, rfl, rfl⟩
    rw [hpay]
    rfl

theorem arrive_reading (ctx : Ctx) {stop : Except DissectError (Option (Payload × Cur))}
    {r : Reading} (hdone : ctx.appDone = false) (happ : ctx.pkt.app = {})
    (hpay : ctx.pkt.payload = {})
    (hdirect : ∀ p c, stop = .ok (some (p, c)) → ¬ (p.isTcp ∧ ctx.deferTcpApp))
    (h : reading (outlook stop) = .ok r) :
    ∃ res ctx', ctx.arrive stop = .ok (res, ctx') ∧ HasRead ctx ctx' r := by
  have hsame : HasRead ctx ctx {} := by
    refine ⟨(List.append_nil _).symm, ?_, rfl, rfl⟩
    rw [← happ, ← hpay]
  cases stop with
  | error e =>
      cases h
      exact ⟨.error e, ctx, rfl, hsame⟩
  | ok x =>
      cases x with
      | none =>
          cases h
          exact ⟨.ok (), ctx, rfl, hsame⟩
      | some pc =>
          obtain ⟨p, c⟩ := pc
          obtain ⟨ctx', hctx', hread⟩ := payload_reading hdone happ hpay (hdirect p c rfl) h
          refine ⟨.ok (), ctx', ?_, hread⟩
          rw [Ctx.arrive, hctx']
          rfl

/-! ### The serial phase -/

/-- The packet is folded into the flow of this tuple. -/
def JoinsFlow (e e' : Engine) (o : Owned) (t : Tuple) : Prop :=
  ∃ pkt, e'.flows = (e.flows.observe t pkt o.tsNs (e.nextPacketId + 1) o.origLen.toUInt64).1

/-- What absorbing a packet comes to, once its two passes are known. -/
theorem absorbOne_of_passes {e : Engine} {o : Owned} {d : Dissected} {frags : FragTable FragKey}
    {fragTuple : Option Tuple} {pkt pkt' : Packet}
    (hpass : Engine.fragmentPass e.frags (if e.reassemble then d.frag else none)
      (e.numbered d.pkt) = .ok (frags, fragTuple, pkt))
    (hstream : ∀ t, d.tuple.or fragTuple = some t →
      ∃ streams, Engine.reassembleAndDispatch e.streams t pkt o d.tcpPayload =
        .ok (streams, pkt'))
    (hnone : d.tuple.or fragTuple = none → pkt' = pkt) :
    ∃ e' row, e.absorbOne o d = .ok (e', row) ∧ RowOf pkt' row ∧
      ∀ t, d.tuple.or fragTuple = some t → JoinsFlow e e' o t := by
  unfold Engine.absorbOne
  rw [hpass]
  cases ht : d.tuple.or fragTuple with
  | none =>
      obtain rfl := hnone ht
      change ∃ e' row, (Engine.joinFlow _ (d.tuple.or fragTuple) pkt' o d.tcpPayload >>= _) =
        .ok (e', row) ∧ _
      rw [ht]
      exact ⟨_, _, rfl, rfl, nofun⟩
  | some t =>
      obtain ⟨streams, hs⟩ := hstream t ht
      have hjoin : Engine.joinFlow { e with frags } (d.tuple.or fragTuple) pkt o d.tcpPayload =
          .ok ({ e with frags, streams, flows := (e.flows.observe t pkt' o.tsNs
            (e.nextPacketId + 1) o.origLen.toUInt64).1 },
            (e.flows.observe t pkt' o.tsNs (e.nextPacketId + 1) o.origLen.toUInt64).2) := by
        rw [ht, Engine.joinFlow]
        change (Engine.reassembleAndDispatch e.streams t pkt o d.tcpPayload >>= _) = _
        rw [hs]
        rfl
      change ∃ e' row, (Engine.joinFlow _ (d.tuple.or fragTuple) pkt o d.tcpPayload >>= _) =
        .ok (e', row) ∧ _
      rw [hjoin]
      refine ⟨_, _, rfl, Engine.observe_snd _ _ _ _ _ _, fun t' ht' => ?_⟩
      cases ht'
      exact ⟨pkt', rfl⟩

/-- Without a payload range there is nothing to reassemble. -/
theorem absorbOne_of_no_range {e : Engine} {o : Owned} {d : Dissected} {frags : FragTable FragKey}
    {fragTuple : Option Tuple} {pkt : Packet}
    (hpass : Engine.fragmentPass e.frags (if e.reassemble then d.frag else none)
      (e.numbered d.pkt) = .ok (frags, fragTuple, pkt)) (hrange : d.tcpPayload = none) :
    ∃ e' row, e.absorbOne o d = .ok (e', row) ∧ RowOf pkt row ∧
      ∀ t, d.tuple.or fragTuple = some t → JoinsFlow e e' o t := by
  refine absorbOne_of_passes hpass (fun t _ => ?_) fun _ => rfl
  rw [hrange]
  exact ⟨_, rfl⟩

/-- A fragment that completes nothing leaves the packet alone. -/
theorem fragmentPass_of_incomplete {frags : FragTable FragKey} {frag : Option FragMeta}
    (pkt : Packet) (h : ∀ m, frag = some m → (frags.pushFragment m.fragment).1 = none) :
    ∃ frags', Engine.fragmentPass frags frag pkt = .ok (frags', none, pkt) := by
  cases frag with
  | none => exact ⟨_, rfl⟩
  | some m =>
      have hnone := h m rfl
      change (frags.push m.key m.offset m.moreFragments m.payload).1 = none at hnone
      rcases hp : frags.push m.key m.offset m.moreFragments m.payload with ⟨res, frags'⟩
      rw [hp] at hnone
      cases hnone
      simp only [Engine.fragmentPass, hp]
      exact ⟨_, rfl⟩

/-! ### The reassembled datagram -/

/-- The walk over a reassembled datagram. -/
def datagramJourney (key : FragKey) (data : Bytes) (s : Hdr) : Journey :=
  journey (Network.dispatchIpProto key.proto key.src key.dst) (Cur.new data) s

/-- What is put on the packet that completed a datagram, when it is a bare fragment. -/
theorem redissectDatagram_reading {key : FragKey} {data : Bytes} {pkt : Packet} {s : Hdr}
    {st : List Layer} {r : Reading} (happ : pkt.app = {}) (hpay : pkt.payload = {})
    (hs : ({ pkt : Ctx } : Ctx).hdr = s)
    (hbare : pkt.frame.protoStack = some (joinStack (st ++ [.ipFragment]))) (hst : st ≠ [])
    (hnamed : (datagramJourney key data s).hdr.stack ≠ [])
    (h : reading (outlook (datagramJourney key data s).stop) = .ok r) :
    ∃ pkt', Engine.redissectDatagram key data pkt =
        .ok ((datagramJourney key data s).hdr.tuple, pkt') ∧
      Shows pkt' (st ++ ((datagramJourney key data s).hdr.stack ++ r.layers))
        (datagramJourney key data s).hdr.transport r := by
  subst hs
  let j := datagramJourney key data ({ pkt : Ctx } : Ctx).hdr
  let ctx : Ctx := { ({ pkt : Ctx } : Ctx).setHdr j.hdr with frag := j.frag.or none }
  obtain ⟨res, ctx', harrive, hread⟩ := arrive_reading ctx rfl happ hpay
    (fun p c _ hdefer => Bool.false_ne_true hdefer.2) h
  have hwalk : ({ pkt : Ctx } : Ctx).walk
      (Network.dispatchIpProto key.proto key.src key.dst) (Cur.new data) = .ok (res, ctx') := harrive
  let reasm := { ctx'.pkt.reasm with reassembled := some true }
  let frame := Engine.spliceStack (joinStack st) (joinStack ctx'.stack) ctx'.pkt.frame
  have hre : Engine.redissectDatagram key data pkt =
      .ok (ctx'.tuple, { ctx'.pkt with reasm, frame }) := by
    unfold Engine.redissectDatagram
    rw [hbare, Option.getD_some, stripFragmentMarker_joinStack hst, hwalk]
    rfl
  have hstack : ctx'.stack = j.hdr.stack ++ r.layers := hread.stack
  have hframe : frame = { ctx'.pkt.frame with
      protoStack := some (joinStack (st ++ (j.hdr.stack ++ r.layers)))
      highestLayer := (st ++ (j.hdr.stack ++ r.layers)).getLast?.map Layer.name } := by
    rw [← hstack]
    refine spliceStack_joinStack _ ?_ _
    rw [hstack]
    exact List.append_ne_nil_of_left_ne_nil hnamed _
  refine ⟨{ ctx'.pkt with reasm, frame }, by rw [hre, hread.tuple]; rfl, ?_⟩
  exact
    { protoStack := by rw [hframe]
      highestLayer := by rw [hframe]
      transport := by rw [hread.pkt]; rfl
      app := by rw [hread.pkt]
      payload := by rw [hread.pkt] }

/-- A fragment that is not the first one: nothing stands on its stack after the marker. -/
def BareFragment (o : Owned) (m : FragMeta) (s : Hdr) : Prop :=
  frameJourney o =
    { stop := .ok none, hdr := { s with stack := s.stack ++ [.ipFragment] }, frag := some m }

/-- The context in which the first pass of a bare fragment ends. -/
def bareCtx (o : Owned) (m : FragMeta) (s : Hdr) : Ctx :=
  let frame := { frameCols o with linkType := some o.linktype }
  { ({ pkt := { frame }, deferTcpApp := true } : Ctx).setHdr
      { s with stack := s.stack ++ [.ipFragment] } with frag := some m }

/-- What the first pass says about a bare fragment. -/
theorem BareFragment.dissectOne_eq {o : Owned} {m : FragMeta} {s : Hdr} (h : BareFragment o m s) :
    dissectOne o true = summary o true (.ok ()) (bareCtx o m s) := by
  refine dissectOne_of_arrive ?_
  unfold frameCtx
  rw [h]
  rfl

/-- The state from which the serial phase walks over a reassembled datagram. -/
def bareHdr (s : Hdr) : Hdr := { s with stack := [], depth := 0, tuple := none }

/-- **The row of a bare fragment that completes its datagram**, and the flow it joins. -/
theorem BareFragment.step_completing {e : Engine} {o : Owned} {m : FragMeta} {s : Hdr} {data : Bytes}
    {j : Journey} {r : Reading} {t : Tuple} (h : BareFragment o m s) (hre : e.reassemble = true)
    (hst : s.stack ≠ []) (htuple : s.tuple = none)
    (hpush : (e.frags.pushFragment m.fragment).1 = some data)
    (hj : datagramJourney m.key data (bareHdr s) = j) (hnamed : j.hdr.stack ≠ [])
    (hread : reading (outlook j.stop) = .ok r) (ht : j.hdr.tuple = some t) :
    ∃ e' row, Engine.step true e o = .ok (e', row) ∧
      Shows row (s.stack ++ (j.hdr.stack ++ r.layers)) j.hdr.transport r ∧
      JoinsFlow e e' o t := by
  subst hj
  have hone := h.dissectOne_eq
  let pkt := e.numbered (summary o true (.ok ()) (bareCtx o m s)).pkt
  have hbare : pkt.frame.protoStack = some (joinStack (s.stack ++ [.ipFragment])) := rfl
  have hpkt : ({ pkt : Ctx } : Ctx).hdr = bareHdr s := rfl
  -- the datagram is dissected onto what the first pass leaves
  obtain ⟨pkt', hredissect, hshows⟩ :=
    redissectDatagram_reading rfl rfl hpkt hbare hst hnamed hread
  obtain ⟨frags, hpass⟩ : ∃ frags,
      Engine.fragmentPass e.frags (some m) pkt = .ok (frags, some t, pkt') := by
    rcases hp : e.frags.push m.key m.offset m.moreFragments m.payload with ⟨res, frags⟩
    have hres : res = some data := (congrArg Prod.fst hp).symm.trans hpush
    subst hres
    refine ⟨frags, ?_⟩
    simp only [Engine.fragmentPass, hp]
    rw [hredissect, ht]
    rfl
  have hfrag : (if e.reassemble then (dissectOne o true).frag else none) = some m := by
    rw [hone, hre]
    rfl
  have hpass' : Engine.fragmentPass e.frags
      (if e.reassemble then (dissectOne o true).frag else none)
      (e.numbered (dissectOne o true).pkt) = .ok (frags, some t, pkt') := by
    rw [hfrag, hone]
    exact hpass
  obtain ⟨e', row, hstep, hrow, hflow⟩ :=
    absorbOne_of_no_range (o := o) hpass' (by rw [hone]; rfl)
  refine ⟨e', row, hstep, hrow.shows hshows, hflow t ?_⟩
  rw [hone]
  change (s.tuple).or (some t) = _
  rw [htuple]
  rfl

/-! ### The whole datagram -/

/-- Nothing that came before stands between the frame and its row: a fragment in it completes
nothing, and a TCP payload in it is where the reassembly pass looks, and is the first of its stream,
within the limit. -/
structure Undisturbed (e : Engine) (w : Owned) : Prop where
  frag : ∀ m, (frameJourney w).frag = some m → (e.frags.pushFragment m.fragment).1 = none
  place : ∀ p c, EndsAtTcp w p c → c.rest ≠ [] → PayloadAtEnd w c
  fresh : ∀ p c t, EndsAtTcp w p c → (frameJourney w).hdr.tuple = some t →
    e.streams.streams.lookup (Engine.streamKey t) = none ∧ c.rest.length ≤ e.streams.maxBytes

end Read

/-- The first segment of a stream is dissected as it is. -/
theorem Engine.dissectedData_of_absent {e : Engine} {g : Segment StreamKey} (hne : g.payload ≠ [])
    (h : e.streams.streams.lookup g.key = none) (hlen : g.payload.length ≤ e.streams.maxBytes) :
    e.dissectedData g = g.payload := by
  by_cases hr : BoundedTable.Refuses e.streams.maxStreams e.streams.streams g.key
  · rw [Engine.dissectedData, StreamTable.push_eq_of_refuses hne hr]
    rfl
  · have hentry : e.streams.entry g.key = {} := by rw [StreamTable.entry, h]; rfl
    rw [Engine.dissectedData, StreamTable.push_eq_of_admits hne hr, hentry]
    exact congrArg (fun s : Stream × Bool => s.1.buf) (Stream.push_new _ _ hlen)

/-- What the first pass shows of a frame that it has read. -/
theorem summary_shows (e : Engine) {w : Owned} {res : Except DissectError Unit} {ctx : Ctx}
    {r : Reading} (h : HasRead (frameCtx w true) ctx r) :
    Shows (e.numbered (summary w true res ctx).pkt) ((frameJourney w).hdr.stack ++ r.layers)
      (frameJourney w).hdr.transport r := by
  have hstack : ctx.stack = (frameJourney w).hdr.stack ++ r.layers := h.stack
  have hfirst : ctx.pkt.frame.highestLayer = none := by rw [h.pkt]; rfl
  exact
    { protoStack := by
        rw [← hstack]
        rfl
      highestLayer := by
        change (ctx.stack.getLast?.map Layer.name).or ctx.pkt.frame.highestLayer = _
        rw [hfirst, Option.or_none, hstack]
      transport := by
        change ctx.pkt.transport = _
        rw [h.pkt]
        rfl
      app := by
        change ctx.pkt.app = _
        rw [h.pkt]
      payload := by
        change ctx.pkt.payload = _
        rw [h.pkt] }

section Whole

variable [Hashes]

/-- The fragment of an undisturbed frame completes nothing. -/
theorem Undisturbed.fragmentPass {e : Engine} {w : Owned} (h : Undisturbed e w) (pkt : Packet) :
    ∃ frags, Engine.fragmentPass e.frags
      (if e.reassemble then (dissectOne w true).frag else none) pkt = .ok (frags, none, pkt) := by
  refine fragmentPass_of_incomplete pkt fun m hm => ?_
  split at hm
  · exact h.frag m (dissectOne_frag w true hm)
  · cases hm

/-- The row of a frame whose first pass leaves no payload range. -/
theorem Undisturbed.step_of_no_range {e : Engine} {w : Owned} {res : Except DissectError Unit}
    {ctx : Ctx} {r : Reading} (h : Undisturbed e w)
    (hone : dissectOne w true = summary w true res ctx) (hread : HasRead (frameCtx w true) ctx r)
    (hrange : (dissectOne w true).tcpPayload = none) :
    ∃ e' row, Engine.step true e w = .ok (e', row) ∧
      Shows row ((frameJourney w).hdr.stack ++ r.layers) (frameJourney w).hdr.transport r := by
  obtain ⟨frags, hpass⟩ := h.fragmentPass (e.numbered (dissectOne w true).pkt)
  obtain ⟨e', row, hstep, hrow, -⟩ := absorbOne_of_no_range (o := w) hpass hrange
  refine ⟨e', row, hstep, hrow.shows ?_⟩
  rw [hone]
  exact summary_shows e hread

/-- A bare segment, dissected onto a packet. -/
theorem dissectStream_shows {pkt : Packet} {seg : Reassembled} {st : List Layer} {s : Sink AppCols}
    (happ : pkt.app = {}) (hstack : pkt.frame.protoStack = some (joinStack st))
    (hlast : pkt.frame.highestLayer = st.getLast?.map Layer.name) (hne : seg.data ≠ [])
    (hs : App.identify seg.data (pkt.transport.srcPort.getD 0) (pkt.transport.dstPort.getD 0) true
      { stack := [], cols := {} } = .ok s) :
    ∃ pkt', Engine.dissectStream pkt seg = .ok pkt' ∧
      Shows pkt' (st ++ s.stack) pkt.transport
        { layers := s.stack, app := s.cols, payload := pkt.payload } := by
  let frame := Engine.spliceStack (joinStack st) (joinStack s.stack) pkt.frame
  have hframe : frame.protoStack = some (joinStack (st ++ s.stack)) ∧
      frame.highestLayer = (st ++ s.stack).getLast?.map Layer.name := by
    by_cases hnil : s.stack = []
    · have heq : frame = pkt.frame := by
        change Engine.spliceStack _ (joinStack s.stack) _ = _
        rw [hnil, spliceStack_nil]
      rw [heq, hnil, List.append_nil]
      exact ⟨hstack, hlast⟩
    · have heq := spliceStack_joinStack st hnil pkt.frame
      exact ⟨congrArg FrameCols.protoStack heq, congrArg FrameCols.highestLayer heq⟩
  let reasm : ReasmCols := { reassembled := some seg.multiSegment,
                             reassemblyPartial := some seg.isPartial }
  refine ⟨{ pkt with reasm, frame, app := s.cols }, ?_, ?_⟩
  · unfold Engine.dissectStream dispatch
    dsimp only
    rw [if_neg (by simp [hne]), happ, hs, hstack]
    rfl
  · exact ⟨hframe.1, hframe.2, rfl, rfl, rfl⟩

/-- The row of a frame with a TCP payload. -/
theorem Undisturbed.step_of_tcp {e : Engine} {w : Owned} {p : Payload} {c : Cur} {r : Reading}
    (h : Undisturbed e w) (hends : EndsAtTcp w p c)
    (hread : readPayload p c.rest = .ok r) :
    ∃ e' row, Engine.step true e w = .ok (e', row) ∧
      Shows row ((frameJourney w).hdr.stack ++ r.layers) (frameJourney w).hdr.transport r := by
  have hone := dissectOne_of_deferred hends
  unfold readPayload at hread
  rw [hends.2] at hread
  by_cases hnil : c.rest = []
  · -- nothing to dissect
    rw [if_pos hnil] at hread
    cases hread
    refine h.step_of_no_range hone ⟨(List.append_nil _).symm, ?_, rfl, rfl⟩ ?_
    · unfold tcpCtx
      rw [hnil]
      rfl
    · rw [hone]
      unfold tcpCtx
      rw [hnil]
      rfl
  · rw [if_neg hnil] at hread
    obtain ⟨s, hs, rfl⟩ := map_eq_ok_iff.mp hread
    obtain ⟨src, dst, ht⟩ := hends.labelled.tuple
    obtain ⟨hfresh, hlen⟩ := h.fresh p c _ hends ht
    let pkt := e.numbered (summary w true (.ok ()) (tcpCtx w c)).pkt
    let t : Tuple :=
      { srcIp := src, dstIp := dst, srcPort := p.sport, dstPort := p.dport, proto := 6 }
    have hseg := segmentOf_of_atEnd hends hnil (h.place p c hends hnil)
    have hdata : (Engine.reassembled e.streams t pkt c.rest).1.data = c.rest := by
      rw [Engine.reassembled_data]
      exact Engine.dissectedData_of_absent hnil hfresh hlen
    have hbase : HasRead (frameCtx w true) (tcpCtx w c) { payload := payloadCols true c.rest {} } :=
      ⟨(List.append_nil _).symm, rfl, rfl, rfl⟩
    have hshows : Shows pkt ((frameJourney w).hdr.stack ++ []) (frameJourney w).hdr.transport
        { payload := payloadCols true c.rest {} } := summary_shows e hbase
    rw [List.append_nil] at hshows
    have hne : (Engine.reassembled e.streams t pkt c.rest).1.data ≠ [] := by rwa [hdata]
    obtain ⟨pkt', hstream, hpkt'⟩ := dissectStream_shows hshows.app hshows.protoStack
      hshows.highestLayer hne (s := s) (by
        rw [hdata, hshows.transport, hends.labelled.srcPort, hends.labelled.dstPort]
        exact hs)
    obtain ⟨frags, hpass⟩ := h.fragmentPass pkt
    have htuple : (dissectOne w true).tuple.or none = some t := by
      rw [hone]
      exact (Option.or_none).trans ht
    have hpass' : Engine.fragmentPass e.frags
        (if e.reassemble then (dissectOne w true).frag else none)
        (e.numbered (dissectOne w true).pkt) = .ok (frags, none, pkt) := by
      rw [show e.numbered (dissectOne w true).pkt = pkt by rw [hone]]
      exact hpass
    have hstream' : ∀ t', (dissectOne w true).tuple.or none = some t' →
        ∃ streams, Engine.reassembleAndDispatch e.streams t' pkt w (dissectOne w true).tcpPayload =
          .ok (streams, pkt') := by
      intro t' ht'
      obtain rfl := Option.some.inj (htuple.symm.trans ht')
      refine ⟨(Engine.reassembled e.streams t pkt c.rest).2, ?_⟩
      rw [Engine.reassembleAndDispatch, hseg]
      dsimp only
      rw [hstream]
      rfl
    obtain ⟨e', row, hstep, hrow, -⟩ := absorbOne_of_passes hpass' hstream' fun hnone => by
      rw [htuple] at hnone
      cases hnone
    refine ⟨e', row, hstep, hrow.shows ?_⟩
    rw [hshows.transport, hshows.payload] at hpkt'
    exact hpkt'

/-- **The row of a whole datagram**, when nothing that came before disturbs it. -/
theorem Undisturbed.step_reading {e : Engine} {w : Owned} {r : Reading} (h : Undisturbed e w)
    (hread : reading (outlook (frameJourney w).stop) = .ok r) :
    ∃ e' row, Engine.step true e w = .ok (e', row) ∧
      Shows row ((frameJourney w).hdr.stack ++ r.layers) (frameJourney w).hdr.transport r := by
  by_cases htcp : ∃ p c, EndsAtTcp w p c
  · obtain ⟨p, c, hends⟩ := htcp
    refine h.step_of_tcp hends ?_
    rw [hends.1] at hread
    exact hread
  · have hdirect : ∀ p c, (frameJourney w).stop = .ok (some (p, c)) →
        ¬ (p.isTcp ∧ (frameCtx w true).deferTcpApp) :=
      fun p c hstop hdefer => htcp ⟨p, c, hstop, hdefer.1⟩
    obtain ⟨res, ctx, harrive, hctx⟩ := arrive_reading (frameCtx w true) rfl rfl rfl hdirect hread
    have hone := dissectOne_of_arrive harrive
    refine h.step_of_no_range hone hctx ?_
    have hlen : ctx.pkt.payload.tcpPayloadLen = none := by
      rw [hctx.pkt]
      refine reading_tcpPayloadLen (fun p bytes hstop => ?_) hread
      obtain ⟨c, hc⟩ := outlook_eq_some hstop
      exact Bool.eq_false_iff.mpr fun hp => htcp ⟨p, c, hc, hp⟩
    rw [hone]
    exact tcpPayloadRange_of_none hlen _

end Whole

/-! ### Past the IPv4 header -/

/-- The walk over a frame gets past an IPv4 header that says `d`, to the bytes under `c`. -/
def ReachesIpv4 (o : Owned) (d : Datagram) (c : Cur) (s : Hdr) : Prop :=
  ∃ c₀ s₀ n, Network.ipv4.run c₀ s₀ = (.ok (d, c), s) ∧ c.remaining < n ∧
    frameJourney o = (afterIp d c s none).resume n

theorem ReachesIpv4.stack_ne_nil {o : Owned} {d : Datagram} {c : Cur} {s : Hdr}
    (h : ReachesIpv4 o d c s) : s.stack ≠ [] := by
  obtain ⟨c₀, s₀, n, hrun, -, -⟩ := h
  have hnamed := Network.ipv4_named c₀ s₀
  rwa [hrun] at hnamed

theorem ReachesIpv4.bareFragment {o : Owned} {d : Datagram} {c : Cur} {s : Hdr} {m : FragMeta}
    (h : ReachesIpv4 o d c s) (hm : Network.fragMeta d s c = some m) (hoff : d.fragOffset ≠ 0) :
    BareFragment o m s := by
  obtain ⟨c₀, s₀, n, -, -, hjourney⟩ := h
  rw [BareFragment, hjourney, afterIp, hm, if_pos hoff]
  cases n with
  | zero => rfl
  | succ n => rfl

/-- A fragment, and the datagram that it is a part of, sent whole: the headers before the payload
say the same of addresses and protocol, and leave the same columns. -/
structure SentWhole (o w : Owned) (m : FragMeta) (data : Bytes) (d dW : Datagram) (c cW : Cur)
    (s sW : Hdr) : Prop where
  fragment : ReachesIpv4 o d c s
  frag : Network.fragMeta d s c = some m
  whole : ReachesIpv4 w dW cW sW
  unfragmented : Network.fragMeta dW sW cW = none
  payload : cW.rest = data
  transport : d.proto = 6 ∨ d.proto = 17
  same_proto : d.proto = dW.proto
  same_src : d.src = dW.src
  same_dst : d.dst = dW.dst
  same_carrier : Twin [] sW s

namespace SentWhole

variable {o w : Owned} {m : FragMeta} {data : Bytes} {d dW : Datagram} {c cW : Cur} {s sW : Hdr}

theorem key_eq (h : SentWhole o w m data d dW c cW s sW) :
    m.key.proto = dW.proto ∧ m.key.src = dW.src ∧ m.key.dst = dW.dst := by
  have hm := h.frag
  unfold Network.fragMeta at hm
  dsimp only at hm
  split at hm
  · cases hm
    exact ⟨h.same_proto, h.same_src, h.same_dst⟩
  · cases hm

/-- The walk over the whole datagram goes on with the transport layer. -/
theorem whole_journey (h : SentWhole o w m data d dW c cW s sW) : ∃ n, cW.remaining < n ∧
    frameJourney w =
      ((Network.dispatchIpProto dW.proto dW.src dW.dst).taken cW sW none).resume n := by
  obtain ⟨c₀, s₀, n, -, hn, hjourney⟩ := h.whole
  have hoff : dW.fragOffset = 0 := by
    by_contra hne
    have hsome := h.unfragmented
    unfold Network.fragMeta at hsome
    dsimp only at hsome
    rw [if_pos (.inr hne)] at hsome
    cases hsome
  refine ⟨n, hn, ?_⟩
  rw [hjourney, afterIp, h.unfragmented, if_neg (not_not_intro hoff)]
  rfl

/-- **The reassembled datagram is walked over like the whole one**, outside a tunnel. -/
theorem twin_journeys (h : SentWhole o w m data d dW c cW s sW) (htuple : s.tuple = none)
    (hdepth : s.depth = 0) :
    TwinJourney s.stack (frameJourney w) (datagramJourney m.key data (bareHdr s)) := by
  obtain ⟨n, hn, hjourney⟩ := h.whole_journey
  obtain ⟨hproto, hsrc, hdst⟩ := h.key_eq
  have hsame := h.same_carrier
  have hrest : cW.rest = (Cur.new data).rest := h.payload
  have hrem : (Cur.new data).remaining < n := by
    rw [← Cur.length_rest, ← hrest, Cur.length_rest]
    exact hn
  have hbare : Twin s.stack sW (bareHdr s) :=
    { stack := hsame.stack.trans (List.append_nil _).symm, depth := hsame.depth.trans hdepth
      link := hsame.link, transport := hsame.transport, tunnel := hsame.tunnel
      tuple := hsame.tuple.trans htuple, ipSrc := hsame.ipSrc, ipDst := hsame.ipDst }
  rw [hjourney, datagramJourney, hproto, hsrc, hdst, journey_eq_resume hrem]
  have htaken : TwinTaken s.stack
      ((Network.dispatchIpProto dW.proto dW.src dW.dst).taken cW sW none)
      ((Network.dispatchIpProto dW.proto dW.src dW.dst).taken (Cur.new data) (bareHdr s) none) :=
    taken_twin (Network.dispatchIpProto_built _ _ _) hrest hbare
  refine resume_twin htaken fun next q q' hq hq' hqq => ?_
  have hle := ((Network.dispatchIpProto _ _ _).within hq).remaining_le
  have hle' := ((Network.dispatchIpProto _ _ _).within hq').remaining_le
  dsimp only at hle hle'
  exact follow_twin (by omega) (by omega) hqq htaken.2

/-- The transport layer of the datagram is named. -/
theorem named (h : SentWhole o w m data d dW c cW s sW) :
    (datagramJourney m.key data (bareHdr s)).hdr.stack ≠ [] := by
  have hproto : m.key.proto = 6 ∨ m.key.proto = 17 := by
    rw [h.key_eq.1, ← h.same_proto]
    exact h.transport
  have hfirst := Network.dispatchIpProto_named hproto m.key.src m.key.dst (Cur.new data) (bareHdr s)
  rw [datagramJourney, journey_eq_resume (Nat.lt_succ_self _)]
  have hgrows : ((Network.dispatchIpProto m.key.proto m.key.src m.key.dst).taken (Cur.new data)
      (bareHdr s) none).hdr.stack <+: _ :=
    resume_grows fun q hq => Nat.lt_succ_of_le
      ((Network.dispatchIpProto m.key.proto m.key.src m.key.dst).within hq).remaining_le
  intro hnil
  rw [hnil, List.prefix_nil] at hgrows
  exact hfirst hgrows

end SentWhole

/-! ### Any cut, any order of arrival -/

section Run

variable [Hashes]

/-- The fragments that the serial phase gets. -/
def arrivals (os : List Owned) : List (Fragment FragKey) :=
  os.filterMap fun o => (dissectOne o true).frag.map FragMeta.fragment

/-- The fragments of a datagram arrive in some order, mixed with those of other datagrams and within
the limits of the table; `o` carries the last of them to arrive. -/
structure Completes (e₁ : Engine) (before : List Owned) (o : Owned) (key : FragKey)
    (pieces : List Bytes) : Prop where
  reassemble : e₁.reassemble = true
  absent : key ∉ e₁.frags.sets
  two_le : 2 ≤ pieces.length
  nonempty : ∀ p ∈ pieces, p ≠ []
  offsets : ∀ k < pieces.length, Pieces.offset pieces k < 2 ^ 16
  budget : pieces.flatten.length ≤ e₁.frags.maxBytes
  arrive : ∃ order : List ℕ, order.Perm (List.range pieces.length) ∧
    FragTable.fragmentsOf key (arrivals (before ++ [o])) =
      order.map (FragTable.fragmentAt key pieces)
  admitted : e₁.frags.NeverRefused key (arrivals (before ++ [o]))

/-- The fragment that arrives last completes the datagram. -/
theorem Completes.push_eq {e₁ e : Engine} {before : List Owned} {rows : List Packet} {o : Owned}
    {m : FragMeta} {pieces : List Bytes} (h : Completes e₁ before o m.key pieces)
    (hscan : scan (Engine.step true) e₁ before = .ok (e, rows))
    (hm : (dissectOne o true).frag = some m) :
    (e.frags.pushFragment m.fragment).1 = some pieces.flatten := by
  obtain ⟨order, horder, hfrags⟩ := h.arrive
  have hlast : arrivals (before ++ [o]) = arrivals before ++ [m.fragment] := by
    rw [arrivals, List.filterMap_append, arrivals]
    simp only [List.filterMap_cons, hm, Option.map_some, List.filterMap_nil]
  obtain ⟨k, ks, hk, hlt, hnew, hsum, hold, hroom⟩ := FragTable.holding_before h.absent h.two_le
    h.nonempty h.offsets h.budget horder hfrags h.admitted hlast rfl
  rw [scan_frags h.reassemble hscan, hk]
  refine ((FragTable.pushFragment_holding hold h.two_le h.nonempty h.offsets ?_ hlt hnew hroom).1
    hsum).1
  rw [FragTable.run_maxBytes]
  exact h.budget

/-- The row of `o` has the stack, the transport columns and the application columns of the row of
`w`, and its packet is folded into the flow of `t`. -/
def MatchesWhole (e e₀ : Engine) (o w : Owned) (t : Tuple) : Prop :=
  ∃ e' row e₀' rowW, Engine.step true e o = .ok (e', row) ∧
    Engine.step true e₀ w = .ok (e₀', rowW) ∧
    row.frame.protoStack = rowW.frame.protoStack ∧
    row.frame.highestLayer = rowW.frame.highestLayer ∧
    row.transport = rowW.transport ∧ row.app = rowW.app ∧ row.payload = rowW.payload ∧
    JoinsFlow e e' o t

/-- **A datagram that is completed by a fragment other than its first has the row of the whole
datagram.**  It may be cut in any way, and its fragments may arrive in any order. -/
theorem matchesWhole_of_completed_late (e₁ e e₀ : Engine) (before : List Owned) (rows : List Packet)
    (o w : Owned) (m : FragMeta) (pieces : List Bytes) (d dW : Datagram) (c cW : Cur) (s sW : Hdr)
    (r : Reading) (t : Tuple) (hscan : scan (Engine.step true) e₁ before = .ok (e, rows))
    (hcompletes : Completes e₁ before o m.key pieces)
    (hwhole : SentWhole o w m pieces.flatten d dW c cW s sW)
    (hlate : d.fragOffset ≠ 0) (htuple : s.tuple = none) (hdepth : s.depth = 0)
    (hread : reading (outlook (frameJourney w).stop) = .ok r) (hundisturbed : Undisturbed e₀ w)
    (ht : (frameJourney w).hdr.tuple = some t) : MatchesWhole e e₀ o w t := by
  have hbare := hwhole.fragment.bareFragment hwhole.frag hlate
  have hst := hwhole.fragment.stack_ne_nil
  obtain ⟨hstop, hhdr⟩ := hwhole.twin_journeys htuple hdepth
  have hnamed : (datagramJourney m.key pieces.flatten (bareHdr s)).hdr.stack ≠ [] :=
    hwhole.named
  have hmeta : (dissectOne o true).frag = some m := by
    rw [hbare.dissectOne_eq]
    rfl
  have hre : e.reassemble = true := scan_reassemble hcompletes.reassemble hscan
  obtain ⟨e', row, hstep, hshows, hjoins⟩ := hbare.step_completing hre hst htuple
    (hcompletes.push_eq hscan hmeta) rfl hnamed (by rwa [← hstop]) (by rwa [← hhdr.tuple])
  obtain ⟨e₀', rowW, hstepW, hshowsW⟩ := hundisturbed.step_reading hread
  rw [hhdr.stack, List.append_assoc] at hshowsW
  refine ⟨e', row, e₀', rowW, hstep, hstepW, ?_, ?_, ?_, ?_, ?_, hjoins⟩
  · rw [hshows.protoStack, hshowsW.protoStack]
  · rw [hshows.highestLayer, hshowsW.highestLayer]
  · rw [hshows.transport, hshowsW.transport, hhdr.transport]
  · rw [hshows.app, hshowsW.app]
  · rw [hshows.payload, hshowsW.payload]

end Run

/-! ### A SYN in two parts -/

/-- An Ethernet frame with a part of the TCP datagram 9 from 10.0.0.5 to 10.0.0.80. -/
def synPart (flags offset : UInt8) (payload : Bytes) : Bytes :=
  [0x00, 0x11, 0x22, 0x33, 0x44, 0x55, 0x66, 0x77, 0x88, 0x99, 0xaa, 0xbb, 0x08, 0x00] ++
  [0x45, 0, 0, UInt8.ofNat (20 + payload.length), 0, 9, flags, offset, 64, 6, 0, 0,
    10, 0, 0, 5, 10, 0, 0, 80] ++ payload

/-- The first eight bytes of a SYN: the ports and the sequence number. -/
def synHead : Bytes := [0x13, 0x88, 0, 80, 0, 0, 3, 232]

def synTail : Bytes := [0, 0, 0, 0, 0x50, 0x02, 0x20, 0, 0, 0, 0, 0]

def synFirst : Owned :=
  { capLen := 42, origLen := 42, linktype := 1, data := synPart 0x20 0 synHead,
    data_le := by decide }

def synSecond : Owned :=
  { capLen := 46, origLen := 46, linktype := 1, data := synPart 0 1 synTail, data_le := by decide }

/-- The SYN in one piece. -/
def synWhole : Owned :=
  { capLen := 54, origLen := 54, linktype := 1, data := synPart 0 0 (synHead ++ synTail),
    data_le := by decide }

def synKey : FragKey :=
  { src := .v4 0x0a000005, dst := .v4 0x0a000050, id := 9, proto := 6 }

/-- The tuple of the connection that the SYN opens. -/
def synTuple : Tuple :=
  { srcIp := .v4 0x0a000005, dstIp := .v4 0x0a000050, srcPort := 5000, dstPort := 80, proto := 6 }

/-- What the IPv4 headers of the parts say. -/
def synDatagram (fragOffset : UInt16) : Datagram :=
  { proto := 6, src := synKey.src, dst := synKey.dst, fragOffset }

/-- A cursor at a byte of the frame. -/
def synCur (o : Owned) (pos : ℕ) (h : pos ≤ o.data.length) : Cur :=
  { base := 0, data := o.data, pos, pos_le := h }

/-- The state of the walk after the IPv4 header of a part. -/
def synHdr (o : Owned) (h : 14 ≤ o.data.length) : Hdr :=
  (Network.ipv4.run (synCur o 14 h)
    (Link.ethernet.run (Cur.new o.data) { ifaceId := some o.ifaceId }).2).2

/-- The second part completes the SYN, which could have been sent in one piece. -/
theorem sentWhole_synSecond : SentWhole synSecond synWhole
    { key := synKey, offset := 8, moreFragments := false, payload := synTail }
    (synHead ++ synTail) (synDatagram 8) (synDatagram 0)
    (synCur synSecond 34 (by decide)) (synCur synWhole 34 (by decide))
    (synHdr synSecond (by decide)) (synHdr synWhole (by decide)) where
  fragment := ⟨synCur synSecond 14 (by decide), _, 45, rfl, by decide, rfl⟩
  frag := rfl
  whole := ⟨synCur synWhole 14 (by decide),
    (Link.ethernet.run (Cur.new synWhole.data) { ifaceId := some 0 }).2, 53, rfl, by decide, rfl⟩
  unfragmented := rfl
  payload := rfl
  transport := .inl rfl
  same_proto := rfl
  same_src := rfl
  same_dst := rfl
  same_carrier := ⟨rfl, rfl, rfl, rfl, rfl, rfl, rfl, rfl⟩

theorem completes_synSecond [Hashes] : Completes (Engine.new {}) [synFirst] synSecond synKey
    [synHead, synTail] where
  reassemble := rfl
  absent := AList.notMem_empty _
  two_le := by decide
  nonempty := by decide
  offsets := by decide
  budget := by decide
  arrive := ⟨[0, 1], .refl _, rfl⟩
  admitted := FragTable.neverRefused_of_length_le (by
    change 0 + 2 ≤ 2 ^ 16
    decide)

/-- Nothing stands between the SYN and its row: it has no payload. -/
theorem undisturbed_synWhole [Hashes] : Undisturbed (Engine.new {}) synWhole where
  frag m hm := by cases hm
  place p c hends hne := by
    obtain ⟨hstop, -⟩ := hends
    cases hstop
    exact absurd rfl hne
  fresh p c t hends ht := by
    obtain ⟨hstop, -⟩ := hends
    cases hstop
    exact ⟨rfl, Nat.zero_le _⟩

/-- The parts of the SYN in order. -/
theorem matchesWhole_synSecond :
    Network.fragMeta (synDatagram 8) (synHdr synSecond (by decide))
      (synCur synSecond 34 (by decide)) =
        some { key := synKey, offset := 8, moreFragments := false, payload := synTail } ∧
    ∀ _ : Hashes, ∃ e rows, scan (Engine.step true) (Engine.new {}) [synFirst] = .ok (e, rows) ∧
      MatchesWhole e (Engine.new {}) synSecond synWhole synTuple := by
  refine ⟨rfl, fun _ => ?_⟩
  obtain ⟨e, rows, hscan⟩ : ∃ e rows,
      scan (Engine.step true) (Engine.new {}) [synFirst] = .ok (e, rows) := ⟨_, _, rfl⟩
  refine ⟨e, rows, hscan, ?_⟩
  exact matchesWhole_of_completed_late (Engine.new {}) e (Engine.new {}) [synFirst] rows synSecond
    synWhole _ [synHead, synTail] _ _ _ _ _ _ { payload := payloadCols true [] {} } synTuple hscan
    completes_synSecond sentWhole_synSecond (by decide) rfl rfl rfl undisturbed_synWhole rfl

/-- The parts of the SYN in the other order: the transport layer is named twice. -/
theorem not_matchesWhole_synFirst :
    Network.fragMeta (synDatagram 0) (synHdr synFirst (by decide))
      (synCur synFirst 34 (by decide)) =
        some { key := synKey, offset := 0, moreFragments := true, payload := synHead } ∧
    ∀ _ : Hashes, ∃ e rows, scan (Engine.step true) (Engine.new {}) [synSecond] = .ok (e, rows) ∧
      ∃ e' row e₀' rowW, Engine.step true e synFirst = .ok (e', row) ∧
        Engine.step true (Engine.new {}) synWhole = .ok (e₀', rowW) ∧
        row.frame.protoStack = some "eth:ip:tcp:tcp".toList ∧
        rowW.frame.protoStack = some "eth:ip:tcp".toList ∧
        ¬ MatchesWhole e (Engine.new {}) synFirst synWhole synTuple := by
  refine ⟨rfl, fun _ => ?_⟩
  obtain ⟨e, rows, e', row, hscan, hstep, hstack⟩ : ∃ e rows e' row,
      scan (Engine.step true) (Engine.new {}) [synSecond] = .ok (e, rows) ∧
      Engine.step true e synFirst = .ok (e', row) ∧
      row.frame.protoStack = some "eth:ip:tcp:tcp".toList := ⟨_, _, _, _, rfl, rfl, rfl⟩
  obtain ⟨e₀', rowW, hstepW, hstackW⟩ : ∃ e₀' rowW,
      Engine.step true (Engine.new {}) synWhole = .ok (e₀', rowW) ∧
      rowW.frame.protoStack = some "eth:ip:tcp".toList := ⟨_, _, rfl, rfl⟩
  refine ⟨e, rows, hscan, e', row, e₀', rowW, hstep, hstepW, hstack, hstackW, ?_⟩
  rintro ⟨e₁, row₁, e₂, row₂, h₁, h₂, hsame, -⟩
  rw [hstep] at h₁
  rw [hstepW] at h₂
  cases h₁
  cases h₂
  rw [hstack, hstackW] at hsame
  exact absurd hsame (by decide)

end PcapRacer
