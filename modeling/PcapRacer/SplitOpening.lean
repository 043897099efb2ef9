/-
**A message in several TCP segments.**

With reassembly every segment of a stream is dissected together with all that came before it, and the
flow keeps the first server name, host and fingerprints that it sees.  A segment boundary inside the
value of a Host header, or inside the extensions of a ClientHello, shows a message that is read
differently from the whole, and the flow keeps what that one says.

Main definitions:

* `Shown.join`, `FlowTable.shown`, `FlowTable.told` — what a flow shows, and what the next packet
  finds of it;
* `StreamTable.Holds` — a stream that has arrived in order so far;
* `Conveys`, `ConveysInOrder` — frames that convey the pieces of a message, one after the other;
* `Opening.ClearCut` — every boundary is at a clear place;
* `Opening.Underway` — a first part of the message has arrived.

Main results:

* `FlowTable.shown_step` — what one packet adds to its flow;
* `Conveys.step` — what one segment in order does;
* `Opening.Underway.boundary`, `Opening.Underway.last` — a segment that ends at a clear place, and
  the last one;
* `shown_of_clearCut` — **with clear boundaries, the flow shows what it shows of the whole message**;
* `host_cut_off` — a request whose host is cut off.
-/

import PcapRacer.FlowMerge
import PcapRacer.OpeningColumns
import PcapRacer.StreamTableOrder

set_option relaxedAutoImplicit false
set_option autoImplicit false

namespace PcapRacer

open BoundedTable (Refuses)

/-! ### What a flow shows -/

namespace Shown

/-- The first ones stay. -/
def join (a b : Shown) : Shown :=
  { sni := a.sni.or b.sni, httpHost := a.httpHost.or b.httpHost, ja3 := a.ja3.or b.ja3,
    ja4 := a.ja4.or b.ja4 }

theorem empty_join (a : Shown) : ({} : Shown).join a = a := rfl

theorem join_empty (a : Shown) : a.join {} = a := by
  ext1 <;> exact Option.or_none

theorem join_self (a : Shown) : a.join a = a := by
  ext1 <;> exact Option.or_self

end Shown

/-- Server name, host and fingerprints of the flow. -/
def Flow.shown (f : Flow) : Shown :=
  { sni := f.sni, httpHost := f.httpHost, ja3 := f.ja3, ja4 := f.ja4 }

theorem Flow.shown_see (f : Flow) (o : Observation) :
    (f.see o).shown = f.shown.join (App.shown o.pkt.app) := by
  have hshown : ∀ g : Flow, g.shown = { sni := g.names.sni, httpHost := g.names.httpHost,
                                        ja3 := g.names.ja3, ja4 := g.names.ja4 } := fun _ => rfl
  rw [hshown, f.see_names o]
  rfl

namespace FlowTable

/-- What the table holds of a conversation. -/
def shown (t : FlowTable) (key : Tuple) : Option Shown := (t.flows.lookup key).map Flow.shown

/-- What the next packet of a conversation finds: nothing at all when the table refuses it. -/
def told (t : FlowTable) (key : Tuple) : Option Shown :=
  if Refuses t.maxFlows t.flows key then none else some ((t.shown key).getD {})

theorem told_of_mem {t : FlowTable} {key : Tuple} (h : key ∈ t.flows) :
    t.told key = t.shown key := by
  obtain ⟨f, hf⟩ := Option.isSome_iff_exists.mp (AList.lookup_isSome.mpr h)
  rw [told, if_neg (BoundedTable.not_refuses_of_mem h), shown, hf]
  rfl

section Observe

variable [Hashes]

/-- **What one packet adds to its flow.** -/
theorem shown_step (t : FlowTable) (o : Observation) :
    (t.step o).1.shown o.tuple.key =
      (t.told o.tuple.key).map fun a => a.join (App.shown o.pkt.app) := by
  by_cases h : Refuses t.maxFlows t.flows o.tuple.key
  · rw [step_of_refuses h, told, if_pos h, shown, AList.lookup_eq_none.mpr h.1]
    rfl
  · rw [told, if_neg h, shown, lookup_step h, if_pos rfl]
    refine congrArg some ((Flow.shown_see _ o).trans ?_)
    rw [shown, entry]
    cases t.flows.lookup o.tuple.key <;> rfl

/-- A packet does not change whether its conversation is refused. -/
theorem told_step (t : FlowTable) (o : Observation) :
    (t.step o).1.told o.tuple.key = (t.step o).1.shown o.tuple.key := by
  by_cases h : Refuses t.maxFlows t.flows o.tuple.key
  · rw [step_of_refuses h, told, if_pos h, shown, AList.lookup_eq_none.mpr h.1]
    rfl
  · refine told_of_mem ?_
    rw [step_flows_of_admits h]
    exact AList.mem_insert _ |>.mpr (.inl rfl)

end Observe

end FlowTable

/-! ### A stream in order -/

section Stream

variable {κ : Type} [DecidableEq κ]

/-- The stream has arrived in order so far: its buffer is `buf`, which starts at sequence number
`base`, and nothing is held back. -/
structure StreamTable.Holds (t : StreamTable κ) (key : κ) (base : UInt32) (buf : Bytes) : Prop where
  admits : ¬ Refuses t.maxStreams t.streams key
  buf_eq : (t.entry key).buf = buf
  held : (t.entry key).pending = []
  based : (t.entry key).baseSeq = some base ∨ (t.entry key).baseSeq = none ∧ buf = []

namespace StreamTable.Holds

variable {t : StreamTable κ} {key : κ} {base : UInt32} {buf payload : Bytes}

/-- A stream that the table does not know. -/
theorem of_absent (hroom : ¬ Refuses t.maxStreams t.streams key)
    (h : t.streams.lookup key = none) : t.Holds key base [] := by
  have hentry : t.entry key = {} := by rw [entry, h]; rfl
  exact ⟨hroom, by rw [hentry], by rw [hentry], .inr ⟨by rw [hentry], rfl⟩⟩

/-- The sequence number that comes next. -/
theorem offsetOf (h : t.Holds key base buf) (h32 : buf.length < 2 ^ 32) :
    (t.entry key).baseOr (base + UInt32.ofNat buf.length) = base ∧
      (t.entry key).offsetOf (base + UInt32.ofNat buf.length) = (t.entry key).buf.length := by
  have hbase : (t.entry key).baseOr (base + UInt32.ofNat buf.length) = base := by
    rcases h.based with hb | ⟨hb, rfl⟩
    · rw [Stream.baseOr, hb]
      rfl
    · rw [Stream.baseOr, hb]
      exact UInt32.add_zero base
  refine ⟨hbase, ?_⟩
  rw [Stream.offsetOf, hbase, h.buf_eq, Stream.toNat_seq_sub h32]

/-- The next segment of the stream is in order. -/
theorem inOrder (h : t.Holds key base buf) (h32 : buf.length < 2 ^ 32)
    (hroom : buf.length + payload.length ≤ t.maxBytes) :
    t.InOrder { key, seq := base + UInt32.ofNat buf.length, payload } where
  admits := h.admits
  next := (h.offsetOf h32).2
  nothing_held := h.held
  room := by
    change (t.entry key).buf.length + payload.length ≤ t.maxBytes
    rw [h.buf_eq]
    exact hroom

/-- **The stream after its next segment.** -/
theorem push (h : t.Holds key base buf) (h32 : buf.length < 2 ^ 32) (hne : payload ≠ [])
    (hroom : buf.length + payload.length ≤ t.maxBytes) :
    (t.push key (base + UInt32.ofNat buf.length) payload).2.Holds key base (buf ++ payload) := by
  obtain ⟨hbase, hnext⟩ := h.offsetOf h32
  have hroom' : (t.entry key).buf.length + payload.length ≤ t.maxBytes := by
    rw [h.buf_eq]
    exact hroom
  let seq := base + UInt32.ofNat buf.length
  have hentry : (t.push key seq payload).2.entry key =
      { (t.entry key).based seq with buf := buf ++ payload } := by
    rw [push_eq_of_admits hne h.admits, entry]
    dsimp only
    rw [AList.lookup_insert, Option.getD_some, Stream.push_next hnext h.held hroom', h.buf_eq]
  refine ⟨?_, ?_, ?_, .inl ?_⟩
  · rw [push_eq_of_admits hne h.admits]
    exact BoundedTable.not_refuses_of_mem ((AList.mem_insert _).mpr (.inl rfl))
  · rw [hentry]
  · rw [hentry]
    exact h.held
  · rw [hentry]
    exact congrArg some hbase

end StreamTable.Holds

end Stream

/-! ### Segments of a connection -/

/-- The frame conveys `piece` as a segment of the conversation `t`: it is no fragment, and its payload
is where the reassembly pass looks for it. -/
structure Conveys (t : Tuple) (seq : UInt32) (piece : Bytes) (o : Owned) : Prop where
  whole : (frameJourney o).frag = none
  tuple : (frameJourney o).hdr.tuple = some t
  seq_eq : (frameJourney o).hdr.transport.tcpSeq = some seq
  payload : ∃ p c, EndsAtTcp o p c ∧ PayloadAtEnd o c ∧ c.rest = piece

/-- The frames convey the pieces of a byte string that starts at sequence number `seq`, one after the
other. -/
inductive ConveysInOrder (t : Tuple) : UInt32 → List Bytes → List Owned → Prop
  | nil (seq : UInt32) : ConveysInOrder t seq [] []
  | cons {seq : UInt32} {piece : Bytes} {pieces : List Bytes} {o : Owned} {os : List Owned} :
      Conveys t seq piece o → ConveysInOrder t (seq + UInt32.ofNat piece.length) pieces os →
        ConveysInOrder t seq (piece :: pieces) (o :: os)

/-- The first segment of a stream. -/
theorem Conveys.first {t : Tuple} {seq : UInt32} {piece : Bytes} {o : Owned}
    (h : Conveys t seq piece o) : Conveys t (seq + UInt32.ofNat ([] : Bytes).length) piece o := by
  rw [List.length_nil]
  exact (UInt32.add_zero seq).symm ▸ h

section Run

variable [Hashes] {e : Engine} {t : Tuple} {o : Owned}

/-- **What one segment in order does**: its stream is dissected with the segment at the end; that
panics, or the stream grows and the flow takes what it has not seen yet. -/
theorem Conveys.step {base : UInt32} {buf piece : Bytes}
    (h : Conveys t (base + UInt32.ofNat buf.length) piece o) (hne : piece ≠ [])
    (hholds : e.streams.Holds (Engine.streamKey t) base buf) (h32 : buf.length < 2 ^ 32)
    (hroom : buf.length + piece.length ≤ e.streams.maxBytes) :
    (∃ q, appColumns (buf ++ piece) t.srcPort t.dstPort = .error q ∧
      Engine.step true e o = .error q) ∨
    ∃ cols e' row, appColumns (buf ++ piece) t.srcPort t.dstPort = .ok cols ∧
      Engine.step true e o = .ok (e', row) ∧
      e'.streams = (e.streams.push (Engine.streamKey t) (base + UInt32.ofNat buf.length) piece).2 ∧
      e'.flows.shown t.key = (e.flows.told t.key).map (fun a => a.join (App.shown cols)) ∧
      e'.flows.told t.key = e'.flows.shown t.key := by
  obtain ⟨p, c, hends, hplace, rfl⟩ := h.payload
  have hone := dissectOne_of_deferred hends
  have hfrag : (dissectOne o true).frag = none := by rw [hone]; exact h.whole
  have htuple : (dissectOne o true).tuple = some t := by rw [hone]; exact h.tuple
  have hseg := segmentOf_of_atEnd hends hne hplace
  have hsegment : tcpSegment o t c =
      { key := Engine.streamKey t, seq := base + UInt32.ofNat buf.length, payload := c.rest } := by
    rw [tcpSegment, h.seq_eq]
    rfl
  -- what the stream hands back
  have hdata : (Engine.reassembled e.streams t (e.numbered (dissectOne o true).pkt) c.rest).1.data =
      buf ++ c.rest := by
    rw [reassembled_tcpSegment hends, hsegment,
      Engine.dissectedData_of_inOrder hne (hholds.inOrder h32 hroom), hholds.buf_eq]
  have hports : p.sport = t.srcPort ∧ p.dport = t.dstPort := by
    obtain ⟨src, dst, htuple⟩ := hends.labelled.tuple
    cases h.tuple.symm.trans htuple
    exact ⟨rfl, rfl⟩
  have happ : (e.numbered (dissectOne o true).pkt).app = {} := by rw [hone]; rfl
  have hcols := dissectStream_app (hdata ▸ List.append_ne_nil_of_right_ne_nil buf hne) happ
  have htransport : (e.numbered (dissectOne o true).pkt).transport =
      (frameJourney o).hdr.transport := by
    rw [hone]
    rfl
  have hstreams : (Engine.reassembled e.streams t (e.numbered (dissectOne o true).pkt) c.rest).2 =
      (e.streams.push (Engine.streamKey t) (base + UInt32.ofNat buf.length) c.rest).2 := by
    change (e.streams.push (Engine.streamKey t)
      ((e.numbered (dissectOne o true).pkt).transport.tcpSeq.getD 0) c.rest).2 = _
    rw [htransport, h.seq_eq]
    rfl
  rw [hdata, htransport, hends.ports.1, hends.ports.2, hports.1, hports.2] at hcols
  rw [step_of_whole_eq hfrag htuple hseg, ← hcols]
  cases Engine.dissectStream (e.numbered (dissectOne o true).pkt)
      (Engine.reassembled e.streams t (e.numbered (dissectOne o true).pkt) c.rest).1 with
  | error q => exact .inl ⟨q, rfl, rfl⟩
  | ok pkt =>
      let obs : Observation := { tuple := t, pkt, ts := o.tsNs, frame := e.nextPacketId + 1,
                                 len := o.origLen.toUInt64 }
      exact .inr ⟨pkt.app, _, _, rfl, rfl, hstreams, e.flows.shown_step obs, e.flows.told_step obs⟩

/-- Every boundary between two pieces is at a clear place, and dissecting what stands before it does
not panic. -/
def Opening.ClearCut (m : Opening) (t : Tuple) (pieces : List Bytes) : Prop :=
  ∀ front back, front ≠ [] → back ≠ [] → front ++ back = pieces →
    m.ClearAt front.flatten.length ∧
      ∃ cols, appColumns front.flatten t.srcPort t.dstPort = .ok cols

/-- The first part `before` of the message has arrived in order, and the flow shows nothing yet, or
what it shows of the whole message. -/
structure Opening.Underway (m : Opening) (t : Tuple) (base : UInt32) (before : Bytes) (e : Engine) :
    Prop where
  holds : e.streams.Holds (Engine.streamKey t) base before
  room : m.bytes.length ≤ e.streams.maxBytes
  knows : ∀ whole, appColumns m.bytes t.srcPort t.dstPort = .ok whole →
    ∀ a, e.flows.told t.key = some a → a = {} ∨ a = App.shown whole

namespace Opening.Underway

variable {m : Opening} {base : UInt32} {before piece : Bytes}

/-- **The last segment**: the flow shows what the whole message shows. -/
theorem last (h : m.Underway t base before e) (h32 : m.bytes.length < 2 ^ 32)
    (hconveys : Conveys t (base + UInt32.ofNat before.length) piece o) (hne : piece ≠ [])
    (hcut : before ++ piece = m.bytes) :
    (Engine.step true e o).map (fun r => r.1.flows.shown t.key) =
      (appColumns m.bytes t.srcPort t.dstPort).map fun whole =>
        (e.flows.told t.key).map fun _ => App.shown whole := by
  have hlen : before.length + piece.length = m.bytes.length := by
    rw [← hcut, List.length_append]
  have hroom := h.room
  have hstep := hconveys.step hne h.holds (by omega) (by omega)
  rw [hcut] at hstep
  obtain ⟨q, hq, hstep⟩ | ⟨cols, e', row, hcols, hstep, -, hshown, -⟩ := hstep
  · rw [hstep, hq]
    rfl
  · rw [hstep, hcols]
    refine congrArg Except.ok (hshown.trans (Option.map_congr fun a ha => ?_))
    obtain rfl | rfl := h.knows cols hcols a ha
    · exact Shown.empty_join _
    · exact Shown.join_self _

/-- **A segment that ends at a clear place.** -/
theorem boundary (h : m.Underway t base before e) (h32 : m.bytes.length < 2 ^ 32)
    (hport : m.OnPort t.dstPort) (hconveys : Conveys t (base + UInt32.ofNat before.length) piece o)
    (hne : piece ≠ []) (hpart : before ++ piece <+: m.bytes)
    (hclear : m.ClearAt (before ++ piece).length) {cols : AppCols}
    (hcols : appColumns (before ++ piece) t.srcPort t.dstPort = .ok cols) :
    ∃ e' row, Engine.step true e o = .ok (e', row) ∧ m.Underway t base (before ++ piece) e' ∧
      ∀ a : Shown, (e'.flows.told t.key).map (fun _ => a) = (e.flows.told t.key).map fun _ => a := by
  have hlen := hpart.length_le
  have hpos := List.length_pos_iff.mpr hne
  rw [List.length_append] at hlen
  have hroom := h.room
  obtain ⟨q, hq, -⟩ | ⟨cols', e', row, hcols', hstep, hstreams, hshown, htold⟩ :=
    hconveys.step hne h.holds (by omega) (by omega)
  · cases hcols.symm.trans hq
  cases hcols.symm.trans hcols'
  refine ⟨e', row, hstep, ⟨?_, ?_, fun whole hwhole a' ha' => ?_⟩, ?_⟩
  · rw [hstreams]
    exact h.holds.push (by omega) hne (by omega)
  · rw [hstreams, StreamTable.push_maxBytes]
    exact hroom
  · rw [htold, hshown] at ha'
    obtain ⟨a, ha, rfl⟩ := Option.map_eq_some_iff.mp ha'
    rw [List.prefix_iff_eq_take.mp hpart] at hcols
    have hpart := shown_take (by rw [List.length_append]; omega) hport hclear hcols hwhole
    obtain rfl | rfl := h.knows whole hwhole a ha
    · exact hpart
    · obtain hnone | hall := hpart
      · exact .inr (by rw [hnone, Shown.join_empty])
      · exact .inr (by rw [hall, Shown.join_self])
  · intro a
    rw [htold, hshown, Option.map_map]
    rfl

end Opening.Underway

/-- **What the segments of a message show in order**, when some of it has arrived already. -/
theorem ConveysInOrder.shown {m : Opening} {base seq : UInt32} {before pieces : List Bytes}
    {os : List Owned} (h : ConveysInOrder t seq pieces os)
    (hseq : seq = base + UInt32.ofNat before.flatten.length)
    (hunder : m.Underway t base before.flatten e) (hport : m.OnPort t.dstPort)
    (h32 : m.bytes.length < 2 ^ 32) (hne : ∀ piece ∈ pieces, piece ≠ []) (hsome : pieces ≠ [])
    (hcut : (before ++ pieces).flatten = m.bytes) (hclear : m.ClearCut t (before ++ pieces)) :
    (ChunkedRun.scan (Engine.step true) e os).map (fun r => r.1.flows.shown t.key) =
      (appColumns m.bytes t.srcPort t.dstPort).map fun whole =>
        (e.flows.told t.key).map fun _ => App.shown whole := by
  induction h generalizing e before with
  | nil seq => exact absurd rfl hsome
  | @cons seq piece pieces o os hconveys hrest ih =>
      subst hseq
      have hpiece := hne piece List.mem_cons_self
      have hflat : (before ++ [piece]).flatten = before.flatten ++ piece := by
        rw [List.flatten_append, List.flatten_singleton]
      have hbytes : (before.flatten ++ piece) ++ pieces.flatten = m.bytes := by
        rw [← hcut, List.flatten_append, List.flatten_cons, List.append_assoc]
      by_cases hlast : pieces = []
      · subst hlast
        cases hrest
        rw [List.flatten_nil, List.append_nil] at hbytes
        rw [← hunder.last h32 hconveys hpiece hbytes]
        cases hstep : Engine.step true e o with
        | error q =>
            rw [ChunkedRun.scan_cons_of_error hstep]
            rfl
        | ok r =>
            rw [ChunkedRun.scan_cons_of_ok hstep]
            rfl
      · have hassoc : (before ++ [piece]) ++ pieces = before ++ piece :: pieces := by
          rw [List.append_assoc, List.singleton_append]
        obtain ⟨hat, cols, hcols⟩ := hclear (before ++ [piece]) pieces (by simp) hlast hassoc
        rw [hflat] at hat hcols
        obtain ⟨e', row, hstep, hunder', htold⟩ := hunder.boundary h32 hport hconveys hpiece
          ⟨_, hbytes⟩ hat hcols
        rw [← hflat] at hunder'
        have hseq : base + UInt32.ofNat before.flatten.length + UInt32.ofNat piece.length =
            base + UInt32.ofNat (before ++ [piece]).flatten.length := by
          rw [hflat, List.length_append, UInt32.ofNat_add, UInt32.add_assoc]
        have hrun := ih hseq hunder' (fun x hx => hne x (List.mem_cons_of_mem _ hx)) hlast
          (hassoc ▸ hcut) (hassoc ▸ hclear)
        simp only [htold] at hrun
        rw [← hrun, ChunkedRun.scan_cons_of_ok hstep]
        cases ChunkedRun.scan (Engine.step true) e' os <;> rfl

/-- A connection of which nothing has arrived: the table has room for its stream, and a flow that is
there already, from packets without payload, shows nothing. -/
structure Engine.Fresh (e : Engine) (t : Tuple) : Prop where
  room : ¬ Refuses e.streams.maxStreams e.streams.streams (streamKey t)
  stream : e.streams.streams.lookup (streamKey t) = none
  flow : ∀ a, e.flows.shown t.key = some a → a = {}

theorem Opening.underway_of_fresh {m : Opening} (h : e.Fresh t) (base : UInt32)
    (hsize : m.bytes.length ≤ e.streams.maxBytes) : m.Underway t base [] e where
  holds := .of_absent h.room h.stream
  room := hsize
  knows := by
    intro whole _ a ha
    unfold FlowTable.told at ha
    split at ha
    · cases ha
    · cases hshown : e.flows.shown t.key with
      | none =>
          rw [hshown] at ha
          exact .inl (Option.some.inj ha).symm
      | some b =>
          rw [hshown] at ha
          exact .inl ((Option.some.inj ha).symm.trans (h.flow b hshown))

/-- **With clear boundaries, the flow shows what it shows of the whole message**: the run of the
segments ends as the one segment does, and if it does not panic, server name, host and fingerprints
of the flow are the same. -/
theorem shown_of_clearCut (e : Engine) (t : Tuple) (m : Opening) (pieces : List Bytes)
    (os : List Owned) (o : Owned) (seq seq' : UInt32) (hfresh : e.Fresh t)
    (hport : m.OnPort t.dstPort) (hsize : m.bytes.length ≤ e.streams.maxBytes)
    (hne : ∀ piece ∈ pieces, piece ≠ []) (hcut : pieces.flatten = m.bytes)
    (hmany : ConveysInOrder t seq pieces os) (hone : Conveys t seq' m.bytes o)
    (hclear : m.ClearCut t pieces) :
    (ChunkedRun.scan (Engine.step true) e os).map (fun r => r.1.flows.shown t.key) =
      (Engine.step true e o).map fun r => r.1.flows.shown t.key := by
  have hbytes : m.bytes ≠ [] := m.bytes_ne
  have h32 : m.bytes.length < 2 ^ 32 := by
    obtain ⟨p, c, -, hplace, hrest⟩ := hone.payload
    rw [← hrest, Cur.length_rest]
    exact Nat.lt_of_le_of_lt hplace.1 (by decide)
  have hsome : pieces ≠ [] := by
    rintro rfl
    exact hbytes hcut.symm
  have hnothing : seq = seq + UInt32.ofNat ([] : List Bytes).flatten.length :=
    (UInt32.add_zero seq).symm
  have hmany' := hmany.shown hnothing
    (Opening.underway_of_fresh hfresh seq hsize) hport h32 hne hsome hcut hclear
  have hone' := (Opening.underway_of_fresh hfresh seq' hsize).last h32 hone.first hbytes rfl
  rw [hmany', hone']

/-- The first segment of a connection: the flow shows what the segment shows. -/
theorem step_of_first {seq : UInt32} {x : Bytes} {cols : AppCols} (hfresh : e.Fresh t)
    (htold : e.flows.told t.key = some {}) (h : Conveys t seq x o) (hx : x ≠ [])
    (hroom : x.length ≤ e.streams.maxBytes)
    (hcols : appColumns x t.srcPort t.dstPort = .ok cols) :
    ∃ e' row, Engine.step true e o = .ok (e', row) ∧
      e'.streams.Holds (Engine.streamKey t) seq x ∧ e'.streams.maxBytes = e.streams.maxBytes ∧
      e'.flows.shown t.key = some (App.shown cols) ∧
      e'.flows.told t.key = some (App.shown cols) := by
  have hholds : e.streams.Holds (Engine.streamKey t) seq [] := .of_absent hfresh.room hfresh.stream
  have hroom' : ([] : Bytes).length + x.length ≤ e.streams.maxBytes := by
    rw [List.length_nil]
    omega
  obtain ⟨q, hq, -⟩ | ⟨cols', e', row, hcols', hstep, hstreams, hshown, hnext⟩ :=
    h.first.step hx hholds (by decide) hroom'
  · cases hcols.symm.trans hq
  cases hcols.symm.trans hcols'
  rw [htold] at hshown
  refine ⟨e', row, hstep, ?_, ?_, hshown, hnext.trans hshown⟩
  · rw [hstreams]
    exact hholds.push (by decide) hx hroom'
  · rw [hstreams, StreamTable.push_maxBytes]

/-- **Of two segments, the flow keeps what the first one shows.** -/
theorem scan_of_two {seq : UInt32} {x y : Bytes} {o₁ o₂ : Owned} {cols₁ cols₂ : AppCols}
    (hfresh : e.Fresh t) (htold : e.flows.told t.key = some {}) (h₁ : Conveys t seq x o₁)
    (h₂ : Conveys t (seq + UInt32.ofNat x.length) y o₂) (hx : x ≠ []) (hy : y ≠ [])
    (h32 : x.length < 2 ^ 32) (hroom : x.length + y.length ≤ e.streams.maxBytes)
    (hcols₁ : appColumns x t.srcPort t.dstPort = .ok cols₁)
    (hcols₂ : appColumns (x ++ y) t.srcPort t.dstPort = .ok cols₂) :
    ∃ e' rows, ChunkedRun.scan (Engine.step true) e [o₁, o₂] = .ok (e', rows) ∧
      e'.flows.shown t.key = some ((App.shown cols₁).join (App.shown cols₂)) := by
  obtain ⟨e₁, row₁, hstep₁, hholds, hmax, -, htold₁⟩ :=
    step_of_first hfresh htold h₁ hx (by omega) hcols₁
  obtain ⟨q, hq, -⟩ | ⟨cols, e₂, row₂, hcols, hstep₂, -, hshown, -⟩ :=
    h₂.step hy hholds h32 (by rw [hmax]; exact hroom)
  · cases hcols₂.symm.trans hq
  cases hcols₂.symm.trans hcols
  refine ⟨e₂, [row₁, row₂], ?_, ?_⟩
  · rw [ChunkedRun.scan_cons_of_ok hstep₁, ChunkedRun.scan_cons_of_ok hstep₂]
    rfl
  · rw [hshown, htold₁]
    rfl

end Run

/-! ### A host that is cut off -/

/-- A request for the host `a`. -/
def shortRequest : RequestHead where
  start := Text.ascii "GET / HTTP/1.1"
  fields := [Text.ascii "Host:a"]
  start_visible := ⟨_, _, rfl, by decide, by decide⟩
  fields_ne := List.forall_mem_singleton.mpr (by decide)
  no_cr := List.forall_mem_cons.mpr ⟨by decide, List.forall_mem_singleton.mpr (by decide)⟩

/-- Where the walk of such a frame ends. -/
def requestCur (seq : UInt8) (piece : Bytes) (h : piece.length ≤ 26) : Cur :=
  { base := 0, data := (requestFrame seq piece h).data, pos := 54,
    pos_le := by
      simp only [requestFrame, List.length_append, List.length_cons, List.length_nil]
      omega }

/-- The request in one segment. -/
theorem conveys_shortRequest : Conveys requestTuple 0 shortRequest.bytes
    (requestFrame 0 shortRequest.bytes (by decide)) :=
  ⟨rfl, rfl, rfl, toPort80, requestCur 0 shortRequest.bytes (by decide), ⟨rfl, rfl⟩,
    ⟨by decide, .inl ⟨by decide, by decide⟩⟩, rfl⟩

/-- Its pieces when it is cut after `n` bytes. -/
def shortPieces (n : ℕ) : List Bytes := [shortRequest.bytes.take n, shortRequest.bytes.drop n]

theorem length_take_le (n : ℕ) : (shortRequest.bytes.take n).length ≤ 26 :=
  Nat.le_trans (List.length_take_le' _ _) (by decide)

theorem length_drop_le (n : ℕ) : (shortRequest.bytes.drop n).length ≤ 26 := by
  rw [List.length_drop]
  exact Nat.le_trans (Nat.sub_le _ _) (by decide)

/-- The two segments when it is cut after `n` bytes. -/
def shortFrames (n : ℕ) : List Owned :=
  [requestFrame 0 (shortRequest.bytes.take n) (length_take_le n),
    requestFrame (UInt8.ofNat n) (shortRequest.bytes.drop n) (length_drop_le n)]

/-- Cut after `Ho`. -/
theorem conveys_beforeColon : ConveysInOrder requestTuple 0 (shortPieces 18) (shortFrames 18) :=
  .cons ⟨rfl, rfl, rfl, toPort80, requestCur 0 _ (length_take_le 18), ⟨rfl, rfl⟩,
      ⟨by decide, .inl ⟨by decide, by decide⟩⟩, rfl⟩ <|
    .cons ⟨rfl, rfl, rfl, toPort80, requestCur 18 _ (length_drop_le 18), ⟨rfl, rfl⟩,
      ⟨by decide, .inl ⟨by decide, by decide⟩⟩, rfl⟩ (.nil _)

/-- Cut after the colon. -/
theorem conveys_behindColon : ConveysInOrder requestTuple 0 (shortPieces 21) (shortFrames 21) :=
  .cons ⟨rfl, rfl, rfl, toPort80, requestCur 0 _ (length_take_le 21), ⟨rfl, rfl⟩,
      ⟨by decide, .inl ⟨by decide, by decide⟩⟩, rfl⟩ <|
    .cons ⟨rfl, rfl, rfl, toPort80, requestCur 21 _ (length_drop_le 21), ⟨rfl, rfl⟩,
      ⟨by decide, .inl ⟨by decide, by decide⟩⟩, rfl⟩ (.nil _)

theorem fresh_new : (Engine.new {}).Fresh requestTuple where
  room := BoundedTable.not_refuses_of_lt (by decide)
  stream := rfl
  flow := nofun

/-- What a first part of the request shows. -/
theorem shortRequest_columns [Hashes] (n : ℕ) (host : Option Text) (hn : 0 < n)
    (htarget : httpTarget (shortRequest.bytes.take n) = some "/".toList)
    (hhost : AppHttp.shownHost (shortRequest.bytes.take n) = host) :
    ∃ cols, appColumns (shortRequest.bytes.take n) 50000 80 = .ok cols ∧
      App.shown cols = { httpHost := host } := by
  obtain ⟨cols, hcols, -⟩ := appColumns_of_httpTarget (shortRequest.not_looksLikeHttp2 n) htarget
  refine ⟨cols, hcols, ?_⟩
  rw [← hhost]
  exact Opening.request_shown_take shortRequest hn (List.mem_cons_self) hcols

theorem flatten_shortPieces (n : ℕ) : (shortPieces n).flatten = shortRequest.bytes := by
  rw [shortPieces, List.flatten_cons, List.flatten_singleton, List.take_append_drop]

/-- Before the colon is a clear place. -/
theorem clearCut_beforeColon [Hashes] :
    (Opening.request shortRequest).ClearCut requestTuple (shortPieces 18) := by
  intro front back hfront hback hcut
  -- the one boundary is behind the first piece
  obtain rfl : front = [shortRequest.bytes.take 18] := by
    rcases front with _ | ⟨x, _ | ⟨x', front⟩⟩
    · exact absurd rfl hfront
    · rw [(List.cons.inj hcut).1]
    · have hrest := (List.cons.inj (List.cons.inj hcut).2).2
      exact absurd (List.append_eq_nil_iff.mp hrest).2 hback
  obtain ⟨cols, hcols, -⟩ := shortRequest_columns 18 none (by decide) (by decide +kernel)
    (by decide +kernel)
  refine ⟨.inl ?_, cols, hcols⟩
  have hspans : shortRequest.hostSpans = [(20, 22)] := by decide +kernel
  rw [hspans]
  exact List.forall_mem_singleton.mpr (by decide)

/-- The theorem applies to the request cut after `Ho`. -/
theorem shown_of_clearCut_beforeColon : (Engine.new {}).Fresh requestTuple ∧ ∀ _ : Hashes,
    (ChunkedRun.scan (Engine.step true) (Engine.new {}) (shortFrames 18)).map
        (fun r => r.1.flows.shown requestTuple.key) =
      (Engine.step true (Engine.new {}) (requestFrame 0 shortRequest.bytes (by decide))).map
        fun r => r.1.flows.shown requestTuple.key :=
  ⟨fresh_new, fun _ => shown_of_clearCut (Engine.new {}) requestTuple (.request shortRequest)
    (shortPieces 18) (shortFrames 18) _ 0 0 fresh_new List.mem_cons_self (by decide)
    (List.forall_mem_cons.mpr ⟨by decide, List.forall_mem_singleton.mpr (by decide)⟩)
    (flatten_shortPieces 18) conveys_beforeColon conveys_shortRequest clearCut_beforeColon⟩

/-- **A host that is cut off**: the request for the host `a` on a new connection to port 80, cut
after the colon of its Host line.  Its first segment shows an empty host, and that is the one the
flow keeps. -/
theorem host_cut_off : (Engine.new {}).Fresh requestTuple ∧
    (Opening.request shortRequest).OnPort requestTuple.dstPort ∧
    shortRequest.bytes.length ≤ (Engine.new {}).streams.maxBytes ∧
    ConveysInOrder requestTuple 0 (shortPieces 21) (shortFrames 21) ∧
    (∀ piece ∈ shortPieces 21, piece ≠ []) ∧ (shortPieces 21).flatten = shortRequest.bytes ∧
    Conveys requestTuple 0 shortRequest.bytes (requestFrame 0 shortRequest.bytes (by decide)) ∧
    ∀ _ : Hashes, ∃ (e e' : Engine) (rows : List Packet) (row : Packet),
      ChunkedRun.scan (Engine.step true) (Engine.new {}) (shortFrames 21) = .ok (e, rows) ∧
      Engine.step true (Engine.new {}) (requestFrame 0 shortRequest.bytes (by decide)) =
        .ok (e', row) ∧
      e.flows.shown requestTuple.key = some { httpHost := some [] } ∧
      e'.flows.shown requestTuple.key = some { httpHost := some "a".toList } := by
  have hne : ∀ piece ∈ shortPieces 21, piece ≠ [] :=
    List.forall_mem_cons.mpr ⟨by decide, List.forall_mem_singleton.mpr (by decide)⟩
  refine ⟨fresh_new, List.mem_cons_self, by decide, conveys_behindColon, hne,
    flatten_shortPieces 21, conveys_shortRequest, fun _ => ?_⟩
  have hwhole : shortRequest.bytes.take 26 = shortRequest.bytes := rfl
  obtain ⟨cols, hcols, hshown⟩ := shortRequest_columns 26 (some "a".toList) (by decide)
    (by decide +kernel) (by decide +kernel)
  obtain ⟨part, hpart, hempty⟩ := shortRequest_columns 21 (some []) (by decide)
    (by decide +kernel) (by decide +kernel)
  rw [hwhole] at hcols
  have hjoined : appColumns (shortRequest.bytes.take 21 ++ shortRequest.bytes.drop 21) 50000 80 =
      .ok cols := by
    rw [List.take_append_drop]
    exact hcols
  -- in two segments
  cases conveys_behindColon with
  | cons hfirst hrest =>
      cases hrest with
      | cons hsecond _ =>
          obtain ⟨e, rows, hrun, hkept⟩ := scan_of_two fresh_new rfl hfirst hsecond
            (by decide) (by decide) (by decide) (by decide) hpart hjoined
          -- in one segment
          obtain ⟨e', row, hstep, -, -, hall, -⟩ :=
            step_of_first fresh_new rfl conveys_shortRequest (by decide) (by decide) hcols
          refine ⟨e, e', rows, row, hrun, hstep, ?_, ?_⟩
          · rw [hkept, hempty, hshown]
            rfl
          · rw [hall, hshown]

end PcapRacer
