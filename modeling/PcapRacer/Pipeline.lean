/-
**The extraction pipeline**: read, dissect, aggregate, emit.

Packets are read serially into a chunk, dissected one by one, then folded back into the flow and
reassembly tables serially, in capture order.  Dissecting one packet is pure and catches its own
panics; the serial phase dissects reassembled data outside that boundary, so `absorb` may panic.

Main definitions:

* `RawPacket`, `Owned`, `Dissected` — a packet as read, as buffered, and as dissected;
* `tcpPayloadRange`, `dissectInner`, `dissectOne` — one packet;
* `Engine` — the tables, with `reassembleAndDispatch`, `redissectDatagram`, `absorbOne`, `absorb`;
* `ThreadPool`, `dissectChunk` — the parallel phase;
* `Reserves` — the batch sizes that a chunk can be reserved for;
* `RunState`, `onPacket`, `run` — the loop over a capture.
-/

import PcapRacer.FragTable
import PcapRacer.StreamTable
import PcapRacer.Walk

set_option relaxedAutoImplicit false
set_option autoImplicit false

namespace PcapRacer

/-! ### Packets -/

/-- One packet as it came off disk. -/
structure RawPacket where
  /-- Nanoseconds since the Unix epoch. -/
  tsNs : Int
  /-- Bytes actually captured. -/
  capLen : UInt32
  /-- Length on the wire. -/
  origLen : UInt32
  ifaceId : UInt32
  linktype : UInt16
  data : Bytes
  /-- The reader hands out the captured bytes and no more. -/
  data_le : data.length ≤ capLen.toNat

/-- The capture was cut short by the snap length. -/
def RawPacket.isTruncated (r : RawPacket) : Bool := r.capLen < r.origLen

/-- A packet copied out of the reader's buffer. -/
structure Owned where
  tsNs : Int := 0
  capLen : UInt32 := 0
  origLen : UInt32 := 0
  ifaceId : UInt32 := 0
  linktype : UInt16 := 0
  truncated : Bool := false
  data : Bytes := []
  data_le : data.length ≤ capLen.toNat := by decide

instance : Inhabited Owned := ⟨{}⟩

/-- Overwrite a buffered packet with the next one. -/
def Owned.fill (_ : Owned) (r : RawPacket) : Owned :=
  { tsNs := r.tsNs, capLen := r.capLen, origLen := r.origLen, ifaceId := r.ifaceId,
    linktype := r.linktype, truncated := r.isTruncated, data := r.data, data_le := r.data_le }

/-- Result of dissecting one packet, before flow state is applied. -/
structure Dissected where
  pkt : Packet
  tuple : Option Tuple
  /-- Byte range of the TCP payload within the frame, when dispatch was deferred. -/
  tcpPayload : Option (UInt16 × UInt16)
  /-- Fragment metadata, when this packet is an IP fragment. -/
  frag : Option FragMeta
  malformed : Bool
  /-- Dissection panicked and was caught. -/
  panicked : Bool

/-- The columns that come from the capture record. -/
def frameCols (o : Owned) : FrameCols :=
  { ts := some o.tsNs, tsEpochNs := some o.tsNs, frameLen := some o.origLen,
    capLen := some o.capLen, ifaceId := some o.ifaceId, truncated := some o.truncated }

/-- Squeeze a length through sixteen bits. -/
def clip16 (n : ℕ) : UInt16 := UInt16.ofNat (min n 65535)

/-- Where the TCP payload sits inside the frame: the start is the frame length minus the payload
length. -/
def tcpPayloadRange (pkt : Packet) (frameLen : ℕ) : Option (UInt16 × UInt16) :=
  match pkt.payload.tcpPayloadLen with
  | none => none
  | some len =>
      let payloadLen := len.toNat
      if payloadLen = 0 ∨ frameLen < payloadLen then none
      else some (clip16 (frameLen - payloadLen), clip16 payloadLen)

theorem tcpPayloadRange_of_none {pkt : Packet} (h : pkt.payload.tcpPayloadLen = none)
    (frameLen : ℕ) : tcpPayloadRange pkt frameLen = none := by
  unfold tcpPayloadRange
  rw [h]

/-- The context at the start of a first-pass dissection. -/
def firstCtx (o : Owned) (deferTcpApp : Bool) : Ctx :=
  { pkt := { frame := frameCols o }, deferTcpApp }

/-- What is kept of a dissection that ran to its end. -/
def summary (o : Owned) (deferTcpApp : Bool) (r : Except DissectError Unit) (ctx : Ctx) :
    Dissected :=
  let ctx := ctx.finish
  let malformed := r.toOption.isNone
  let frame := { ctx.pkt.frame with malformed := some malformed, panicked := some false }
  let pkt := { ctx.pkt with frame }
  let tcpPayload := if deferTcpApp then tcpPayloadRange pkt o.data.length else none
  { pkt, tuple := ctx.tuple, tcpPayload, frag := ctx.frag, malformed, panicked := false }

section Dissect

variable [Hashes]

def dissectInner (o : Owned) (deferTcpApp : Bool) : Except Panic Dissected :=
  (dissectFrame o.data o.linktype (firstCtx o deferTcpApp)).map fun r =>
    summary o deferTcpApp r.1 r.2

/-- A packet whose dissection panicked keeps only its frame-level columns; it neither joins a flow
nor feeds reassembly. -/
def panickedPacket (o : Owned) : Dissected :=
  { pkt := { frame := { frameCols o with malformed := some true, panicked := some true } },
    tuple := none, tcpPayload := none, frag := none, malformed := true, panicked := true }

/-- Dissect a single packet.  This is the unwind boundary of the first pass. -/
def dissectOne (o : Owned) (deferTcpApp : Bool) : Dissected :=
  match dissectInner o deferTcpApp with
  | .ok d => d
  | .error _ => panickedPacket o

end Dissect

/-! ### The engine -/

/-- Identifies one direction of one TCP connection. -/
structure StreamKey where
  flow : Tuple
  forward : Bool
  deriving DecidableEq

/-- What a run saw and what it had to give up on. -/
structure RunStats where
  packets : ℕ := 0
  captureBytes : ℕ := 0
  flows : ℕ := 0
  malformed : ℕ := 0
  panicked : ℕ := 0
  truncated : ℕ := 0
  badBlocks : ℕ := 0
  flowsEvicted : ℕ := 0
  streamsTruncated : ℕ := 0
  streamsEvicted : ℕ := 0
  fragmentsReassembled : ℕ := 0
  fragmentsDropped : ℕ := 0
  firstTsNs : Int := 0
  lastTsNs : Int := 0
  pcapracerVersion : Text := "0.1.0".toList
  deriving DecidableEq

structure Config where
  reassemble : Bool := true
  batchSize : ℕ := 65536
  maxFlows : ℕ := 2 ^ 20
  maxStreams : ℕ := 2 ^ 18
  maxStreamBytes : ℕ := 2 ^ 20
  maxFragSets : ℕ := 2 ^ 16
  maxFragBytes : ℕ := 2 ^ 16

structure Engine where
  flows : FlowTable
  streams : StreamTable StreamKey
  frags : FragTable FragKey
  reassemble : Bool
  stats : RunStats
  nextPacketId : ℕ

namespace Engine

/-- The largest and the smallest time stamp. -/
def tsMax : Int := 2 ^ 63 - 1

def tsMin : Int := -2 ^ 63

def new (cfg : Config) : Engine :=
  { flows := FlowTable.new cfg.maxFlows,
    streams := StreamTable.new cfg.maxStreams cfg.maxStreamBytes,
    frags := FragTable.new cfg.maxFragSets cfg.maxFragBytes,
    reassemble := cfg.reassemble,
    stats := { firstTsNs := tsMax, lastTsNs := tsMin },
    nextPacketId := 0 }

/-- The counters that depend on the packet alone. -/
def countPacket (s : RunStats) (o : Owned) (d : Dissected) : RunStats :=
  { s with
    malformed := if d.malformed then s.malformed + 1 else s.malformed
    panicked := if d.panicked then s.panicked + 1 else s.panicked
    truncated := if o.truncated then s.truncated + 1 else s.truncated
    firstTsNs := if o.tsNs = 0 then s.firstTsNs else min s.firstTsNs o.tsNs
    lastTsNs := if o.tsNs = 0 then s.lastTsNs else max s.lastTsNs o.tsNs
    packets := s.packets + 1
    captureBytes := s.captureBytes + o.capLen.toNat }

/-- Put the layers of a second dissection on the stack of the first one. -/
def spliceStack (base extra : Text) (frame : FrameCols) : FrameCols :=
  if extra = [] then frame
  else
    { frame with
      protoStack := some (if base = [] then extra else base ++ [':'] ++ extra)
      highestLayer := some (Text.lastPart ':' extra) }

/-- Start and length of the part of the frame that a payload range selects; a range that reaches
past the frame selects nothing. -/
def selected (o : Owned) (range : Option (UInt16 × UInt16)) : Option (ℕ × ℕ) :=
  match range with
  | none => none
  | some (start, len) =>
      if o.data.length < start.toNat + len.toNat then none else some (start.toNat, len.toNat)

/-- The bytes that a payload range selects. -/
def segmentOf (o : Owned) (range : Option (UInt16 × UInt16)) : Option Bytes :=
  (selected o range).map fun r => (o.data.drop r.1).take r.2

/-- The stream a packet of a conversation belongs to. -/
def streamKey (tuple : Tuple) : StreamKey :=
  { flow := tuple.normalized.1, forward := tuple.normalized.2 }

section Absorb

variable [Hashes]

/-- Dissect a stream prefix, or a bare segment, onto a packet. -/
def dissectStream (pkt : Packet) (r : Reassembled) : Except Panic Packet := do
  let pkt := { pkt with reasm := { reassembled := some r.multiSegment,
                                   reassemblyPartial := some r.isPartial } }
  let base := pkt.frame.protoStack.getD []
  let sport := pkt.transport.srcPort.getD 0
  let dport := pkt.transport.dstPort.getD 0
  let ctx ← dispatch r.data sport dport true { pkt, reassembled := r.multiSegment }
  pure { ctx.pkt with frame := spliceStack base (joinStack ctx.stack) ctx.pkt.frame }

/-- Feed a TCP segment through reassembly: the data to dissect, and the table.  When the table is
full that is the bare segment. -/
def reassembled (streams : StreamTable StreamKey) (tuple : Tuple) (pkt : Packet)
    (segment : Bytes) : Reassembled × StreamTable StreamKey :=
  let (r, streams) := streams.push (streamKey tuple) (pkt.transport.tcpSeq.getD 0) segment
  (r.getD { data := segment, multiSegment := false, isPartial := false }, streams)

/-- Feed a TCP segment through reassembly, then dissect the reassembled stream prefix. -/
def reassembleAndDispatch (streams : StreamTable StreamKey) (tuple : Tuple) (pkt : Packet)
    (o : Owned) (range : Option (UInt16 × UInt16)) :
    Except Panic (StreamTable StreamKey × Packet) :=
  match segmentOf o range with
  | none => .ok (streams, pkt)
  | some segment =>
      let (r, streams) := reassembled streams tuple pkt segment
      (dissectStream pkt r).map fun pkt => (streams, pkt)

/-- Drop the marker that a bare fragment leaves on the stack. -/
def stripFragmentMarker (base : Text) : Text :=
  let marker := ":ip-fragment".toList
  if marker.isSuffixOf base then base.take (base.length - marker.length) else base

/-- Dissect a reassembled IP datagram onto the packet that carried the last fragment. -/
def redissectDatagram (key : FragKey) (data : Bytes) (pkt : Packet) :
    Except Panic (Option Tuple × Packet) := do
  let base := stripFragmentMarker (pkt.frame.protoStack.getD [])
  let (_, ctx) ← { pkt : Ctx }.walk (Network.dispatchIpProto key.proto key.src key.dst)
    (Cur.new data)
  let reasm := { ctx.pkt.reasm with reassembled := some true }
  let frame := spliceStack base (joinStack ctx.stack) ctx.pkt.frame
  pure (ctx.tuple, { ctx.pkt with reasm, frame })

/-- The fragment pass: push a fragment, and dissect the datagram it completes. -/
def fragmentPass (frags : FragTable FragKey) (frag : Option FragMeta) (pkt : Packet) :
    Except Panic (FragTable FragKey × Option Tuple × Packet) :=
  match frag with
  | none => .ok (frags, none, pkt)
  | some fm =>
      match frags.push fm.key fm.offset fm.moreFragments fm.payload with
      | (none, frags) => .ok (frags, none, pkt)
      | (some data, frags) => (redissectDatagram fm.key data pkt).map fun r => (frags, r.1, r.2)

/-- The packet as it enters the serial phase. -/
def numbered (e : Engine) (pkt : Packet) : Packet :=
  let frame := { pkt.frame with packetId := some e.nextPacketId,
                                frameNumber := some (e.nextPacketId + 1) }
  { pkt with frame }

/-- Reassembly and flow aggregation of a packet that belongs to a conversation. -/
def joinFlow (e : Engine) (tuple : Option Tuple) (pkt : Packet) (o : Owned)
    (range : Option (UInt16 × UInt16)) : Except Panic (Engine × Packet) :=
  match tuple with
  | none => .ok (e, pkt)
  | some t => do
      let (streams, pkt) ← reassembleAndDispatch e.streams t pkt o range
      let (flows, pkt) := e.flows.observe t pkt o.tsNs (e.nextPacketId + 1) o.origLen.toUInt64
      pure ({ e with streams, flows }, pkt)

/-- Fold one dissected packet into the shared tables; the result is its row. -/
def absorbOne (e : Engine) (o : Owned) (d : Dissected) : Except Panic (Engine × Packet) := do
  let (frags, fragTuple, pkt) ← fragmentPass e.frags (if e.reassemble then d.frag else none)
    (e.numbered d.pkt)
  let (e, pkt) ← { e with frags }.joinFlow (d.tuple.or fragTuple) pkt o d.tcpPayload
  pure ({ e with stats := countPacket e.stats o d, nextPacketId := e.nextPacketId + 1 }, pkt)

/-- Fold a dissected chunk into the shared tables and append its rows to the builder. -/
def absorb (e : Engine) : List (Owned × Dissected) → List Packet → Except Panic (Engine × List Packet)
  | [], out => .ok (e, out)
  | (o, d) :: rest, out => do
      let (e, row) ← e.absorbOne o d
      e.absorb rest (out ++ [row])

end Absorb

def finalizeStats (e : Engine) : RunStats :=
  let s := { e.stats with
    flows := BoundedTable.len e.flows.flows
    flowsEvicted := e.flows.evicted
    streamsTruncated := e.streams.truncated
    streamsEvicted := e.streams.evicted
    fragmentsReassembled := e.frags.completed
    fragmentsDropped := e.frags.dropped }
  if s.firstTsNs = tsMax then { s with firstTsNs := 0, lastTsNs := 0 } else s

/-- The counters are reported as they are. -/
theorem finalizeStats_counters (e : Engine) :
    e.finalizeStats.packets = e.stats.packets ∧
      e.finalizeStats.captureBytes = e.stats.captureBytes ∧
      e.finalizeStats.malformed = e.stats.malformed ∧
      e.finalizeStats.panicked = e.stats.panicked ∧
      e.finalizeStats.truncated = e.stats.truncated ∧
      e.finalizeStats.badBlocks = e.stats.badBlocks := by
  unfold finalizeStats
  dsimp only
  split <;> exact ⟨rfl, rfl, rfl, rfl, rfl, rfl⟩

/-- What the statistics take from the tables. -/
theorem finalizeStats_tables (e : Engine) :
    e.finalizeStats.flows = BoundedTable.len e.flows.flows ∧
      e.finalizeStats.flowsEvicted = e.flows.evicted ∧
      e.finalizeStats.streamsTruncated = e.streams.truncated ∧
      e.finalizeStats.streamsEvicted = e.streams.evicted ∧
      e.finalizeStats.fragmentsReassembled = e.frags.completed ∧
      e.finalizeStats.fragmentsDropped = e.frags.dropped := by
  unfold finalizeStats
  dsimp only
  split <;> exact ⟨rfl, rfl, rfl, rfl, rfl, rfl⟩

end Engine

/-! ### The run -/

/-- A thread pool: some number of threads, and a parallel map that collects in order. -/
structure ThreadPool where
  numThreads : ℕ
  parMap : (Owned → Dissected) → List Owned → List Dissected
  parMap_eq : ∀ f l, parMap f l = l.map f

/-- The bytes of a buffer on a 64-bit machine: fields of 47 bytes, aligned to eight. -/
def ownedSize : ℕ := 48

/-- Room for so many buffers can be reserved: a vector has at most `isize::MAX` bytes. -/
def Reserves (batchSize : ℕ) : Prop := batchSize * ownedSize ≤ 2 ^ 63 - 1

instance (batchSize : ℕ) : Decidable (Reserves batchSize) :=
  inferInstanceAs (Decidable (_ ≤ _))

/-- Below this, thread hand-off costs more than the work it distributes. -/
def parallelThreshold : ℕ := 256

/-- How a run ends. -/
inductive RunEnd (ε : Type) where
  /-- The statistics and the flow table. -/
  | finished (stats : RunStats) (flows : FlowTable)
  /-- The callback failed. -/
  | failed (e : ε)
  /-- A panic that nobody caught. -/
  | unwound (p : Panic)
  /-- The panic of a vector that cannot be as large as it was asked to be. -/
  | overflowed

/-- The state of the loop over a capture.  The batches delivered to the callback so far are part of
it; a callback failure or a panic stops everything that follows. -/
structure RunState (ε : Type) where
  engine : Engine
  /-- Buffers, reused across chunks. -/
  chunk : List Owned := []
  filled : ℕ := 0
  delivered : List (List Packet) := []
  stopped : Option (RunEnd ε) := none

/-- What a run did: the batches the callback got, in order, and how it ended. -/
structure RunOutcome (ε : Type) where
  delivered : List (List Packet)
  result : RunEnd ε

section Run

variable [Hashes] {ε : Type}

def dissectChunk (pool : ThreadPool) (chunk : List Owned) (defer : Bool) : List Dissected :=
  if chunk.length < parallelThreshold ∨ pool.numThreads = 1 then
    chunk.map fun o => dissectOne o defer
  else pool.parMap (fun o => dissectOne o defer) chunk

/-- Hand a batch to the callback, unless it is empty.  The callback is a function of the batches it
has got so far, this one included. -/
def deliver (onBatch : List (List Packet) → Except ε Unit) (st : RunState ε)
    (batch : List Packet) : RunState ε :=
  if batch = [] then st
  else
    let delivered := st.delivered ++ [batch]
    match onBatch delivered with
    | .ok () => { st with delivered }
    | .error e => { st with delivered, stopped := some (.failed e) }

/-- Dissect and absorb the filled part of the chunk, and hand over the batch. -/
def flush (pool : ThreadPool) (onBatch : List (List Packet) → Except ε Unit) (defer : Bool)
    (st : RunState ε) : RunState ε :=
  let slice := st.chunk.take st.filled
  match st.engine.absorb (slice.zip (dissectChunk pool slice defer)) [] with
  | .error p => { st with stopped := some (.unwound p) }
  | .ok (engine, rows) => deliver onBatch { st with engine, filled := 0 } rows

/-- Copy a packet into the chunk, growing it when every buffer is in use. -/
def buffer (st : RunState ε) (raw : RawPacket) : RunState ε :=
  let chunk := if st.filled = st.chunk.length then st.chunk ++ [default] else st.chunk
  { st with chunk := chunk.modify st.filled fun o => o.fill raw, filled := st.filled + 1 }

/-- What the run does with one packet. -/
def onPacket (pool : ThreadPool) (cfg : Config) (onBatch : List (List Packet) → Except ε Unit)
    (st : RunState ε) (raw : RawPacket) : RunState ε :=
  if st.stopped.isSome then st
  else
    let st := buffer st raw
    if max cfg.batchSize 1 ≤ st.filled then flush pool onBatch cfg.reassemble st else st

/-- The tail: whatever is left in the chunk, then the statistics. -/
def finishRun (pool : ThreadPool) (cfg : Config) (onBatch : List (List Packet) → Except ε Unit)
    (badBlocks : ℕ) (st : RunState ε) : RunOutcome ε :=
  let st := if st.stopped.isNone ∧ 0 < st.filled then flush pool onBatch cfg.reassemble st else st
  let stats := { st.engine with stats := { st.engine.stats with badBlocks } }.finalizeStats
  { delivered := st.delivered, result := st.stopped.getD (.finished stats st.engine.flows) }

/-- Run a capture end to end: the packets the reader finds, and the number of damaged blocks it
could not read.  The buffers of a chunk are reserved before the first packet is read. -/
def run (pool : ThreadPool) (cfg : Config) (onBatch : List (List Packet) → Except ε Unit)
    (records : List RawPacket) (badBlocks : ℕ) : RunOutcome ε :=
  if Reserves cfg.batchSize then
    finishRun pool cfg onBatch badBlocks
      (records.foldl (onPacket pool cfg onBatch) { engine := Engine.new cfg })
  else { delivered := [], result := .overflowed }

end Run

end PcapRacer
