/-
**Deferred and direct application dispatch.**

With reassembly on, the first pass leaves a TCP payload alone: it finishes the record, and the serial
phase dispatches the payload later, on a fresh context, and splices the names of its layers onto the
stack as strings.  With reassembly off, the first pass dispatches the payload at once, in the context
that walked over the headers.  When the serial phase gets to see the same bytes, the two records are
the same.

Main definitions:

* `Packet.withoutReasm` — a record without the two columns that only the serial phase writes;
* `deferredRecord`, `directRecord` — the record of a frame on the two ways.

Main results:

* `dissectInner_of_direct`, `directRecord_eq` — the first pass that dispatches at once;
* `dissectStream_eq` — dispatching a payload on a finished record;
* `deferredRecord_eq` — **the two ways agree**.
-/

import PcapRacer.DatagramRows

set_option relaxedAutoImplicit false
set_option autoImplicit false

namespace PcapRacer

/-- The record without the two columns that only the serial phase writes. -/
def Packet.withoutReasm (pkt : Packet) : Packet := { pkt with reasm := {} }

/-- The record of a frame whose application layer gave `s`. -/
def dispatchedPacket (o : Owned) (c : Cur) (s : Sink AppCols) : Packet :=
  let ctx := { frameCtx o false with
    pkt := { (frameCtx o false).pkt with payload := payloadCols true c.rest {}, app := s.cols }
    stack := (frameJourney o).hdr.stack ++ s.stack }
  (summary o false (.ok ()) ctx).pkt

/-- The context of a frame whose application layer gave `s`. -/
def dispatchedCtx (o : Owned) (c : Cur) (s : Sink AppCols) : Ctx :=
  { frameCtx o false with
    pkt := { (frameCtx o false).pkt with payload := payloadCols true c.rest {}, app := s.cols }
    stack := (frameJourney o).hdr.stack ++ s.stack
    appDone := true }

section Ways

variable [Hashes]

/-- The record after the first pass that defers, and then the serial phase. -/
def deferredRecord (streams : StreamTable StreamKey) (t : Tuple) (o : Owned) :
    Except Panic Packet := do
  let d ← dissectInner o true
  let r ← Engine.reassembleAndDispatch streams t d.pkt o d.tcpPayload
  pure r.2

/-- The record after the first pass that dispatches at once. -/
def directRecord (o : Owned) : Except Panic Packet := (dissectInner o false).map Dissected.pkt

/-- The first pass that dispatches at once. -/
theorem dissectInner_of_direct {o : Owned} {p : Payload} {c : Cur} (h : EndsAtTcp o p c)
    (hne : c.rest ≠ []) :
    dissectInner o false = (App.identify c.rest p.sport p.dport true { stack := [], cols := {} }).map
      fun s => summary o false (.ok ()) (dispatchedCtx o c s) := by
  obtain ⟨hstop, htcp⟩ := h
  have hframed := App.identify_framed c.rest p.sport p.dport true (frameJourney o).hdr.stack
    { stack := [], cols := {} }
  rw [onTop, List.append_nil] at hframed
  have hfirst : App.identify c.rest p.sport p.dport true
      { stack := (frameCtx o false).stack, cols := (frameCtx o false).pkt.app } = _ := hframed
  unfold dissectInner
  rw [dissectFrame_eq, hstop, Ctx.arrive, Ctx.payload]
  dsimp only
  rw [if_neg (by simp [frameCtx, Ctx.setHdr]), dispatch, htcp,
    if_neg (by simp [hne, frameCtx, Ctx.setHdr]), hfirst]
  cases App.identify c.rest p.sport p.dport true { stack := [], cols := {} } with
  | error q => rfl
  | ok s => rfl

/-- **The first pass that dispatches at once**: the record shows what application dispatch gives on
the empty stack. -/
theorem directRecord_eq {o : Owned} {p : Payload} {c : Cur} (h : EndsAtTcp o p c)
    (hne : c.rest ≠ []) :
    directRecord o = (App.identify c.rest p.sport p.dport true { stack := [], cols := {} }).map
      (dispatchedPacket o c) := by
  rw [directRecord, dissectInner_of_direct h hne]
  cases App.identify c.rest p.sport p.dport true { stack := [], cols := {} } with
  | error q => rfl
  | ok s => rfl

omit [Hashes] in
/-- Splicing the layers above a TCP header onto the finished stack is finishing with both. -/
theorem spliceStack_finished (o : Owned) (c : Cur) (layers : List Layer) :
    Engine.spliceStack (joinStack (frameJourney o).hdr.stack) (joinStack layers)
        (summary o true (.ok ()) (tcpCtx o c)).pkt.frame =
      (dispatchedPacket o c { stack := layers, cols := {} }).frame := by
  by_cases hnil : layers = []
  · subst hnil
    unfold dispatchedPacket
    rw [spliceStack_nil, List.append_nil]
    rfl
  · have hlast : (((frameJourney o).hdr.stack ++ layers).getLast?.map Layer.name).or none =
        ((frameJourney o).hdr.stack ++ layers).getLast?.map Layer.name := Option.or_none
    rw [spliceStack_joinStack _ hnil, ← hlast]
    rfl

/-- **Dispatching the payload on the finished record.** -/
theorem dissectStream_eq {o : Owned} {p : Payload} {c : Cur} (h : EndsAtTcp o p c)
    (hne : c.rest ≠ []) {r : Reassembled} (hdata : r.data = c.rest) :
    (Engine.dissectStream (summary o true (.ok ()) (tcpCtx o c)).pkt r).map Packet.withoutReasm =
      (App.identify c.rest p.sport p.dport true { stack := [], cols := {} }).map
        fun s => (dispatchedPacket o c s).withoutReasm := by
  obtain ⟨hsport, hdport⟩ := h.ports
  have hfirst : App.identify r.data
      ((summary o true (.ok ()) (tcpCtx o c)).pkt.transport.srcPort.getD 0)
      ((summary o true (.ok ()) (tcpCtx o c)).pkt.transport.dstPort.getD 0) true
      { stack := [], cols := (summary o true (.ok ()) (tcpCtx o c)).pkt.app } =
      App.identify c.rest p.sport p.dport true { stack := [], cols := {} } := by
    rw [hdata, ← hsport, ← hdport]
    rfl
  unfold Engine.dissectStream dispatch
  dsimp only
  rw [if_neg (by simp [hdata, hne]), hfirst]
  cases App.identify c.rest p.sport p.dport true { stack := [], cols := {} } with
  | error q => rfl
  | ok s =>
      refine congrArg Except.ok ?_
      exact congrArg (fun f : FrameCols => { dispatchedPacket o c s with reasm := {}, frame := f })
        (spliceStack_finished o c s.stack)

/-- **Deferred and direct dispatch agree.**  When the serial phase selects the payload of a frame,
and the stream layer gives it back as it is, the record is the one of the first pass that dispatches
at once, apart from the two columns that say so; and the one panics exactly when the other does. -/
theorem deferredRecord_eq (o : Owned) (p : Payload) (c : Cur) (h : EndsAtTcp o p c)
    (hne : c.rest ≠ []) (streams : StreamTable StreamKey) (t : Tuple)
    (hsel : Engine.segmentOf o (dissectOne o true).tcpPayload = some c.rest)
    (hdata : (Engine.reassembled streams t (dissectOne o true).pkt c.rest).1.data = c.rest) :
    (deferredRecord streams t o).map Packet.withoutReasm =
      (directRecord o).map Packet.withoutReasm := by
  have hone := dissectOne_of_deferred h
  rw [hone] at hsel hdata
  have hstream := dissectStream_eq h hne hdata
  rw [directRecord_eq h hne, deferredRecord, bind_of_ok (dissectInner_of_deferred h),
    Engine.reassembleAndDispatch, hsel]
  have hmap : ∀ x : Except Panic Packet, (do
      let r ← x.map fun pkt =>
        ((Engine.reassembled streams t (summary o true (.ok ()) (tcpCtx o c)).pkt c.rest).2, pkt)
      pure r.2) = x := by
    intro x
    cases x with
    | error q => rfl
    | ok pkt => rfl
  refine (congrArg (Except.map Packet.withoutReasm) (hmap _)).trans (hstream.trans ?_)
  cases App.identify c.rest p.sport p.dport true { stack := [], cols := {} } with
  | error q => rfl
  | ok s => rfl

end Ways

/-- The conversation of the plain frame. -/
def plainTuple : Tuple :=
  { srcIp := .v4 0x0a000005, dstIp := .v4 0x5db8d822, srcPort := 50000, dstPort := 80, proto := 6 }

/-- The plain frame, as the first segment of its stream. -/
theorem deferredRecord_plainFrame :
    EndsAtTcp plainFrame toPort80 plainCur ∧ plainCur.rest ≠ [] ∧ ∀ _ : Hashes,
      (deferredRecord (Engine.new {}).streams plainTuple plainFrame).map Packet.withoutReasm =
        (directRecord plainFrame).map Packet.withoutReasm := by
  have hends : EndsAtTcp plainFrame toPort80 plainCur := ⟨rfl, rfl⟩
  have hne : plainCur.rest ≠ [] := by decide
  have hplace : PayloadAtEnd plainFrame plainCur := ⟨by decide, .inl ⟨by decide, by decide⟩⟩
  have hlen : plainCur.rest.length ≤ (Engine.new {}).streams.maxBytes := by decide
  refine ⟨hends, hne, fun _ => deferredRecord_eq plainFrame toPort80 plainCur hends hne _ _
    (segmentOf_of_atEnd hends hne hplace) ?_⟩
  rw [Engine.reassembled_data]
  exact Engine.dissectedData_of_absent hne rfl hlen

end PcapRacer
