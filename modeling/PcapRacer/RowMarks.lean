/-
**Columns that pass through.**

The place of a packet in the capture and its time are written once and read by nobody: every step of
the serial phase does the same whatever they are, and hands them on.

Main definitions:

* `Mark` — the place of a packet and its time;
* `Packet.marked`, `Ctx.marked` — a packet, or a context, that bears another mark.

Main results:

* `dispatch_marked`, `Ctx.walk_marked` — dissection does not look at the mark;
* `Engine.fragmentPass_marked`, `Engine.reassembleAndDispatch_marked` — **nor does reassembly**;
* `dissectOne_retimed` — the first pass of a packet that was captured at another time.
-/

import PcapRacer.TrailingBytes

set_option relaxedAutoImplicit false
set_option autoImplicit false

namespace PcapRacer

/-- The place of a packet in the capture and its time. -/
structure Mark where
  packetId : Option ℕ
  frameNumber : Option ℕ
  ts : Option Int
  tsEpochNs : Option Int

/-- Frame columns with another mark. -/
def FrameCols.marked (m : Mark) (f : FrameCols) : FrameCols :=
  { f with packetId := m.packetId, frameNumber := m.frameNumber, ts := m.ts,
           tsEpochNs := m.tsEpochNs }

/-- The packet with another mark. -/
def Packet.marked (m : Mark) (pkt : Packet) : Packet := { pkt with frame := pkt.frame.marked m }

/-- The context with another mark. -/
def Ctx.marked (m : Mark) (ctx : Ctx) : Ctx := { ctx with pkt := ctx.pkt.marked m }

section Marks

variable [Hashes] (m : Mark)

/-! ### Dissection -/

theorem dispatch_marked (b : Bytes) (sport dport : UInt16) (isTcp : Bool) (ctx : Ctx) :
    dispatch b sport dport isTcp (ctx.marked m) =
      (dispatch b sport dport isTcp ctx).map (Ctx.marked m) := by
  unfold dispatch
  have hdone : (ctx.marked m).appDone = ctx.appDone := rfl
  rw [hdone]
  split
  · rfl
  · change (App.identify b sport dport isTcp { stack := ctx.stack, cols := ctx.pkt.app }).map _ = _
    cases App.identify b sport dport isTcp { stack := ctx.stack, cols := ctx.pkt.app } <;> rfl

namespace Ctx

theorem payload_marked (ctx : Ctx) (p : Payload) (c : Cur) :
    (ctx.marked m).payload p c = (ctx.payload p c).map (marked m) := by
  let recorded : Ctx :=
    { ctx with pkt := { ctx.pkt with payload := payloadCols p.isTcp c.rest ctx.pkt.payload } }
  change (if p.isTcp ∧ ctx.deferTcpApp then .ok (recorded.marked m)
    else dispatch c.rest p.sport p.dport p.isTcp (recorded.marked m)) =
    Except.map (marked m) (if p.isTcp ∧ ctx.deferTcpApp then .ok recorded
    else dispatch c.rest p.sport p.dport p.isTcp recorded)
  rw [dispatch_marked]
  split <;> rfl

theorem arrive_marked (ctx : Ctx) (stop : Except DissectError (Option (Payload × Cur))) :
    (ctx.marked m).arrive stop = (ctx.arrive stop).map fun r => (r.1, r.2.marked m) := by
  rcases stop with e | _ | ⟨p, c⟩
  · rfl
  · rfl
  · rw [arrive, arrive, payload_marked]
    cases ctx.payload p c <;> rfl

theorem walk_marked (ctx : Ctx) (first : Header Onward) (c : Cur) :
    (ctx.marked m).walk first c = (ctx.walk first c).map fun r => (r.1, r.2.marked m) := by
  have hhdr : (ctx.marked m).hdr = ctx.hdr := rfl
  rw [walk, walk, hhdr]
  exact arrive_marked m { ctx.setHdr (journey first c ctx.hdr).hdr with
    frag := (journey first c ctx.hdr).frag.or ctx.frag } _

end Ctx

/-! ### The first pass -/

/-- The packet, captured at another time. -/
def Owned.retimed (o : Owned) (ts : Int) : Owned := { o with tsNs := ts }

/-- What is said about a packet whose record bears another mark. -/
def Dissected.marked (d : Dissected) : Dissected := { d with pkt := d.pkt.marked m }

/-- **The first pass says the same of a packet that was captured at another time.** -/
theorem dissectOne_retimed (o : Owned) (ts : Int) (defer : Bool) :
    dissectOne (o.retimed ts) defer =
      (dissectOne o defer).marked ⟨none, none, some ts, some ts⟩ := by
  let first : Ctx :=
    { firstCtx o defer with pkt := { frame := { frameCols o with linkType := some o.linktype } } }
  have hframe : dissectFrame (o.retimed ts).data (o.retimed ts).linktype
      (firstCtx (o.retimed ts) defer) =
      (dissectFrame o.data o.linktype (firstCtx o defer)).map
        fun r => (r.1, r.2.marked ⟨none, none, some ts, some ts⟩) :=
    Ctx.walk_marked ⟨none, none, some ts, some ts⟩ first (Link.dissectLink o.linktype)
      (Cur.new o.data)
  unfold dissectOne dissectInner
  rw [hframe]
  cases dissectFrame o.data o.linktype (firstCtx o defer) with
  | error p => rfl
  | ok r => rfl

/-! ### The serial phase -/

namespace Engine

omit [Hashes] in
theorem spliceStack_marked (base extra : Text) (f : FrameCols) :
    spliceStack base extra (f.marked m) = (spliceStack base extra f).marked m := by
  unfold spliceStack
  split <;> rfl

theorem redissectDatagram_marked (key : FragKey) (data : Bytes) (pkt : Packet) :
    redissectDatagram key data (pkt.marked m) =
      (redissectDatagram key data pkt).map fun r => (r.1, r.2.marked m) := by
  unfold redissectDatagram
  have hwalk := Ctx.walk_marked m { pkt } (Network.dispatchIpProto key.proto key.src key.dst)
    (Cur.new data)
  have hctx : ({ pkt := pkt.marked m } : Ctx) = ({ pkt } : Ctx).marked m := rfl
  rw [hctx, hwalk]
  cases ({ pkt } : Ctx).walk (Network.dispatchIpProto key.proto key.src key.dst) (Cur.new data) with
  | error e => rfl
  | ok r =>
      refine congrArg (fun f => Except.ok (r.2.tuple, ({ r.2.pkt with
        reasm := { r.2.pkt.reasm with reassembled := some true }, frame := f } : Packet))) ?_
      exact spliceStack_marked m _ _ r.2.pkt.frame

/-- **The fragment pass does not look at the mark.** -/
theorem fragmentPass_marked (frags : FragTable FragKey) (frag : Option FragMeta) (pkt : Packet) :
    fragmentPass frags frag (pkt.marked m) =
      (fragmentPass frags frag pkt).map fun r => (r.1, r.2.1, r.2.2.marked m) := by
  cases frag with
  | none => rfl
  | some fm =>
      unfold fragmentPass
      dsimp only
      rcases frags.push fm.key fm.offset fm.moreFragments fm.payload with ⟨_ | data, frags'⟩
      · rfl
      · dsimp only
        rw [redissectDatagram_marked]
        cases redissectDatagram fm.key data pkt <;> rfl

theorem dissectStream_marked (pkt : Packet) (r : Reassembled) :
    dissectStream (pkt.marked m) r = (dissectStream pkt r).map (Packet.marked m) := by
  let ctx : Ctx :=
    { pkt := { pkt with reasm := { reassembled := some r.multiSegment,
                                   reassemblyPartial := some r.isPartial } }
      reassembled := r.multiSegment }
  have hdispatch := dispatch_marked m r.data (pkt.transport.srcPort.getD 0)
    (pkt.transport.dstPort.getD 0) true ctx
  change (dispatch r.data (pkt.transport.srcPort.getD 0) (pkt.transport.dstPort.getD 0) true
    (ctx.marked m) >>= fun ctx => pure { ctx.pkt with
      frame := spliceStack (pkt.frame.protoStack.getD []) (joinStack ctx.stack) ctx.pkt.frame }) = _
  rw [hdispatch]
  unfold dissectStream
  cases hd : dispatch r.data (pkt.transport.srcPort.getD 0) (pkt.transport.dstPort.getD 0) true ctx with
  | error e =>
      rw [bind_of_error hd]
      rfl
  | ok ctx' =>
      rw [bind_of_ok hd]
      exact congrArg (fun f => Except.ok ({ ctx'.pkt with frame := f } : Packet))
        (spliceStack_marked m _ _ ctx'.pkt.frame)

/-- **Nor does stream reassembly.** -/
theorem reassembleAndDispatch_marked (streams : StreamTable StreamKey) (t : Tuple) (pkt : Packet)
    (o : Owned) (range : Option (UInt16 × UInt16)) :
    reassembleAndDispatch streams t (pkt.marked m) o range =
      (reassembleAndDispatch streams t pkt o range).map fun r => (r.1, r.2.marked m) := by
  unfold reassembleAndDispatch
  cases segmentOf o range with
  | none => rfl
  | some segment =>
      have hreassembled : reassembled streams t (pkt.marked m) segment =
          reassembled streams t pkt segment := rfl
      dsimp only
      rw [hreassembled, dissectStream_marked]
      cases dissectStream pkt (reassembled streams t pkt segment).1 <;> rfl

end Engine

end Marks

end PcapRacer
