/-
**The serial phase.**

`absorb` folds dissected packets into the tables in capture order and emits one row for each.  It
also dissects: the stream prefix that a segment extends, and the datagram that a fragment completes.
These dissections run outside the unwind boundary of the first pass.  A dissector panics when it
cuts a string inside a character, so the serial phase unwinds on a record exactly when data that it
dissects itself make a dissector do that.

Main definitions:

* `App.CutsInside`, `DatagramCuts`, `StreamCuts`, `Engine.StepCuts` — a dissector cuts a string
  inside a character, and which data of a step make one do so;
* `Engine.step`, `engineLoop` — one record, and chunk after chunk.

Main results:

* `Engine.absorbOne_error_iff` — when the serial phase unwinds on a record;
* `Engine.absorbOne_numbered` — a row is numbered by its place in the capture;
* `engineLoop_eq_scan` — the loop over chunks is a fold over the records;
* `engineLoop_smtpFrame` — a segment that takes the loop down.
-/

import PcapRacer.ChunkedRun
import PcapRacer.Pipeline

set_option relaxedAutoImplicit false
set_option autoImplicit false

namespace PcapRacer

open ChunkedRun (scan)

section Absorb

variable [Hashes]

/-! ### Cuts inside a character -/

/-- Application dissection of this payload cuts some string at a byte position that is not the end
of a character. -/
def App.CutsInside (payload : Bytes) (sport dport : UInt16) (isTcp : Bool) (s : Sink AppCols) :
    Prop :=
  ∃ q : Panic, App.identify payload sport dport isTcp s = .error q

/-- The transport payload of a completed datagram makes a dissector cut inside a character. -/
def DatagramCuts (key : FragKey) (data : Bytes) (pkt : Packet) : Prop :=
  let j := journey (Network.dispatchIpProto key.proto key.src key.dst) (Cur.new data)
    ({ pkt } : Ctx).hdr
  ∃ p c, j.stop = .ok (some (p, c)) ∧ c.rest ≠ [] ∧
    App.CutsInside c.rest p.sport p.dport p.isTcp { stack := j.hdr.stack, cols := pkt.app }

/-- A stream prefix makes a dissector cut inside a character. -/
def StreamCuts (data : Bytes) (pkt : Packet) : Prop :=
  data ≠ [] ∧ App.CutsInside data (pkt.transport.srcPort.getD 0) (pkt.transport.dstPort.getD 0)
    true { stack := [], cols := pkt.app }

/-! ### Dispatch -/

theorem dispatch_error_iff {payload : Bytes} {sport dport : UInt16} {isTcp : Bool} {ctx : Ctx}
    (h : ctx.appDone = false) :
    (∃ q, dispatch payload sport dport isTcp ctx = .error q) ↔
      payload ≠ [] ∧
        App.CutsInside payload sport dport isTcp { stack := ctx.stack, cols := ctx.pkt.app } := by
  unfold dispatch
  by_cases hp : payload = []
  · rw [if_pos (.inr hp)]
    constructor
    · rintro ⟨q, hq⟩
      cases hq
    · exact fun hc => absurd hp hc.1
  · rw [if_neg (by rw [h]; simp [hp])]
    simp only [map_eq_error_iff]
    exact ⟨fun hq => ⟨hp, hq⟩, fun hc => hc.2⟩

/-- Dispatch writes application columns, and nothing else of the packet. -/
theorem dispatch_ok {payload : Bytes} {sport dport : UInt16} {isTcp : Bool} {ctx ctx' : Ctx}
    (h : dispatch payload sport dport isTcp ctx = .ok ctx') :
    ctx'.pkt = { ctx.pkt with app := ctx'.pkt.app } ∧ ctx'.tuple = ctx.tuple := by
  unfold dispatch at h
  split at h
  · cases h
    exact ⟨rfl, rfl⟩
  · obtain ⟨s, -, rfl⟩ := map_eq_ok_iff.mp h
    exact ⟨rfl, rfl⟩

namespace Engine

/-- The data that the serial phase itself dissects for a record make a dissector cut inside a
character: the datagram that its fragment completes, or the stream prefix that its segment
extends. -/
def StepCuts (e : Engine) (o : Owned) (d : Dissected) : Prop :=
  (∃ fm data, e.reassemble = true ∧ d.frag = some fm ∧
    (e.frags.push fm.key fm.offset fm.moreFragments fm.payload).1 = some data ∧
    DatagramCuts fm.key data (e.numbered d.pkt)) ∨
  (∃ frags fragTuple pkt t segment,
    fragmentPass e.frags (if e.reassemble then d.frag else none) (e.numbered d.pkt) =
      .ok (frags, fragTuple, pkt) ∧
    d.tuple.or fragTuple = some t ∧ segmentOf o d.tcpPayload = some segment ∧
    StreamCuts (reassembled e.streams t pkt segment).1.data pkt)

/-! ### When the serial phase unwinds on a record -/

theorem payload_error_iff {ctx : Ctx} {p : Payload} {c : Cur} (hdone : ctx.appDone = false)
    (hdefer : ctx.deferTcpApp = false) :
    (∃ q, ctx.payload p c = .error q) ↔
      c.rest ≠ [] ∧
        App.CutsInside c.rest p.sport p.dport p.isTcp
          { stack := ctx.stack, cols := ctx.pkt.app } := by
  unfold Ctx.payload
  dsimp only
  rw [if_neg (by rw [hdefer]; simp)]
  exact dispatch_error_iff hdone

theorem redissectDatagram_error_iff {key : FragKey} {data : Bytes} {pkt : Packet} :
    (∃ q, redissectDatagram key data pkt = .error q) ↔ DatagramCuts key data pkt := by
  refine exists_error_bind_pure_iff.trans ?_
  unfold Ctx.walk DatagramCuts
  dsimp only
  cases hs : (journey (Network.dispatchIpProto key.proto key.src key.dst) (Cur.new data)
      ({ pkt } : Ctx).hdr).stop with
  | error e => constructor <;> rintro ⟨q, hq⟩ <;> simp [Ctx.arrive] at hq
  | ok x =>
      cases x with
      | none => constructor <;> rintro ⟨q, hq⟩ <;> simp [Ctx.arrive] at hq
      | some pc =>
          obtain ⟨p, c⟩ := pc
          simp only [Ctx.arrive, map_eq_error_iff]
          refine (payload_error_iff rfl rfl).trans ?_
          constructor
          · exact fun h => ⟨p, c, rfl, h⟩
          · rintro ⟨p', c', he, h⟩
            cases he
            exact h

theorem dissectStream_error_iff {pkt : Packet} {r : Reassembled} :
    (∃ q, dissectStream pkt r = .error q) ↔ StreamCuts r.data pkt := by
  exact exists_error_bind_pure_iff.trans (dispatch_error_iff rfl)

theorem fragmentPass_error_iff {e : Engine} {d : Dissected} {pkt : Packet} :
    (∃ q, fragmentPass e.frags (if e.reassemble then d.frag else none) pkt = .error q) ↔
      ∃ fm data, e.reassemble = true ∧ d.frag = some fm ∧
        (e.frags.push fm.key fm.offset fm.moreFragments fm.payload).1 = some data ∧
        DatagramCuts fm.key data pkt := by
  cases he : e.reassemble with
  | false =>
      constructor
      · rintro ⟨q, hq⟩
        cases hq
      · rintro ⟨fm, data, h, -⟩
        cases h
  | true =>
      rw [if_pos rfl]
      cases hd : d.frag with
      | none =>
          constructor
          · rintro ⟨q, hq⟩
            cases hq
          · rintro ⟨fm, data, -, h, -⟩
            cases h
      | some fm =>
          rcases hp : e.frags.push fm.key fm.offset fm.moreFragments fm.payload with ⟨r, frags⟩
          cases r with
          | none =>
              simp only [fragmentPass, hp]
              constructor
              · rintro ⟨q, hq⟩
                cases hq
              · rintro ⟨fm', data, -, h, h', -⟩
                cases h
                rw [hp] at h'
                cases h'
          | some data =>
              simp only [fragmentPass, hp, map_eq_error_iff]
              refine redissectDatagram_error_iff.trans ?_
              constructor
              · exact fun h => ⟨fm, data, trivial, rfl, by rw [hp], h⟩
              · rintro ⟨fm', data', -, h, h', hc⟩
                cases h
                rw [hp] at h'
                cases h'
                exact hc

theorem joinFlow_error_iff {e : Engine} {tuple : Option Tuple} {pkt : Packet} {o : Owned}
    {range : Option (UInt16 × UInt16)} :
    (∃ q, e.joinFlow tuple pkt o range = .error q) ↔
      ∃ t segment, tuple = some t ∧ segmentOf o range = some segment ∧
        StreamCuts (reassembled e.streams t pkt segment).1.data pkt := by
  cases tuple with
  | none =>
      constructor
      · rintro ⟨q, hq⟩
        cases hq
      · rintro ⟨t, segment, h, -⟩
        cases h
  | some t =>
      refine exists_error_bind_pure_iff.trans ?_
      unfold reassembleAndDispatch
      cases hs : segmentOf o range with
      | none =>
          constructor
          · rintro ⟨q, hq⟩
            cases hq
          · rintro ⟨t', segment, -, h, -⟩
            cases h
      | some segment =>
          simp only [map_eq_error_iff]
          refine dissectStream_error_iff.trans ?_
          constructor
          · exact fun h => ⟨t, segment, rfl, rfl, h⟩
          · rintro ⟨t', segment', h, h', hc⟩
            cases h
            cases h'
            exact hc

/-- **The serial phase unwinds on a record exactly when data it dissects itself make a dissector cut
inside a character.** -/
theorem absorbOne_error_iff {e : Engine} {o : Owned} {d : Dissected} :
    (∃ q, e.absorbOne o d = .error q) ↔ e.StepCuts o d := by
  unfold absorbOne StepCuts
  constructor
  · rintro ⟨q, hq⟩
    rcases bind_eq_error_iff.mp hq with hq | ⟨⟨frags, fragTuple, pkt⟩, hpass, hq⟩
    · exact .inl (fragmentPass_error_iff.mp ⟨q, hq⟩)
    · obtain ⟨t, segment, ht, hseg, hcut⟩ :=
        joinFlow_error_iff.mp (exists_error_bind_pure_iff.mp ⟨q, hq⟩)
      exact .inr ⟨frags, fragTuple, pkt, t, segment, hpass, ht, hseg, hcut⟩
  · rintro (h | ⟨frags, fragTuple, pkt, t, segment, hpass, ht, hseg, hcut⟩)
    · obtain ⟨q, hq⟩ := fragmentPass_error_iff.mpr h
      exact ⟨q, bind_eq_error_iff.mpr (.inl hq)⟩
    · obtain ⟨q, hq⟩ := (joinFlow_error_iff (e := { e with frags })).mpr
        ⟨t, segment, ht, hseg, hcut⟩
      exact ⟨q, bind_eq_error_iff.mpr (.inr ⟨_, hpass, bind_eq_error_iff.mpr (.inl hq)⟩)⟩

/-! ### Numbering -/

/-- The place of a packet in the capture, as its row says it. -/
def ids (pkt : Packet) : Option ℕ × Option ℕ := (pkt.frame.packetId, pkt.frame.frameNumber)

/-- The frame columns that no dissector writes: all but the interface and the stack. -/
def stamp (pkt : Packet) : FrameCols :=
  { pkt.frame with ifaceId := none, protoStack := none, highestLayer := none }

theorem stamp_dispatch {payload : Bytes} {sport dport : UInt16} {isTcp : Bool} {ctx ctx' : Ctx}
    (h : dispatch payload sport dport isTcp ctx = .ok ctx') : stamp ctx'.pkt = stamp ctx.pkt := by
  rw [(dispatch_ok h).1]
  rfl

theorem stamp_payload {ctx ctx' : Ctx} {p : Payload} {c : Cur} (h : ctx.payload p c = .ok ctx') :
    stamp ctx'.pkt = stamp ctx.pkt := by
  unfold Ctx.payload at h
  dsimp only at h
  split at h
  · cases h
    rfl
  · exact (stamp_dispatch h).trans rfl

theorem stamp_arrive {ctx ctx' : Ctx} {stop : Except DissectError (Option (Payload × Cur))}
    {r : Except DissectError Unit} (h : ctx.arrive stop = .ok (r, ctx')) :
    stamp ctx'.pkt = stamp ctx.pkt := by
  cases stop with
  | error e => cases h; rfl
  | ok x =>
      cases x with
      | none => cases h; rfl
      | some pc =>
          obtain ⟨ctx₁, h₁, he⟩ := map_eq_ok_iff.mp h
          cases he
          exact stamp_payload h₁

omit [Hashes] in
theorem stamp_spliceStack (base extra : Text) (pkt : Packet) :
    stamp { pkt with frame := spliceStack base extra pkt.frame } = stamp pkt := by
  unfold stamp spliceStack
  dsimp only
  split <;> rfl

theorem stamp_redissectDatagram {key : FragKey} {data : Bytes} {pkt : Packet}
    {r : Option Tuple × Packet} (h : redissectDatagram key data pkt = .ok r) :
    stamp r.2 = stamp pkt := by
  obtain ⟨⟨x, ctx⟩, hw, he⟩ := bind_eq_ok_iff.mp h
  cases he
  refine (stamp_spliceStack _ _ { ctx.pkt with reasm := _ }).trans ?_
  exact stamp_arrive hw

theorem stamp_fragmentPass {frags frags' : FragTable FragKey} {frag : Option FragMeta}
    {tuple : Option Tuple} {pkt pkt' : Packet}
    (h : fragmentPass frags frag pkt = .ok (frags', tuple, pkt')) : stamp pkt' = stamp pkt := by
  cases frag with
  | none => cases h; rfl
  | some fm =>
      rcases hp : frags.push fm.key fm.offset fm.moreFragments fm.payload with ⟨r, frags₁⟩
      cases r with
      | none =>
          simp only [fragmentPass, hp] at h
          cases h
          rfl
      | some data =>
          simp only [fragmentPass, hp] at h
          obtain ⟨r, hr, he⟩ := map_eq_ok_iff.mp h
          cases he
          exact stamp_redissectDatagram hr

theorem stamp_dissectStream {pkt pkt' : Packet} {r : Reassembled}
    (h : dissectStream pkt r = .ok pkt') : stamp pkt' = stamp pkt := by
  obtain ⟨ctx, hd, he⟩ := bind_eq_ok_iff.mp h
  cases he
  exact (stamp_spliceStack _ _ ctx.pkt).trans (stamp_dispatch hd)

theorem stamp_reassembleAndDispatch {streams streams' : StreamTable StreamKey} {t : Tuple}
    {pkt pkt' : Packet} {o : Owned} {range : Option (UInt16 × UInt16)}
    (h : reassembleAndDispatch streams t pkt o range = .ok (streams', pkt')) :
    stamp pkt' = stamp pkt := by
  unfold reassembleAndDispatch at h
  cases hs : segmentOf o range with
  | none => rw [hs] at h; cases h; rfl
  | some segment =>
      rw [hs] at h
      obtain ⟨pkt₁, h₁, he⟩ := map_eq_ok_iff.mp h
      cases he
      exact stamp_dissectStream h₁

/-- Observing a packet writes its flow columns, and nothing else of it. -/
theorem observe_snd (flows : FlowTable) (t : Tuple) (pkt : Packet) (ts : Int) (frame : ℕ)
    (len : UInt64) :
    (flows.observe t pkt ts frame len).2 =
      { pkt with flow := (flows.observe t pkt ts frame len).2.flow } := by
  unfold FlowTable.observe
  dsimp only
  split <;> rfl

theorem stamp_observe (flows : FlowTable) (t : Tuple) (pkt : Packet) (ts : Int) (frame : ℕ)
    (len : UInt64) :
    stamp (flows.observe t pkt ts frame len).2 = stamp pkt := by
  rw [observe_snd]
  rfl

/-- What joining a flow keeps of the engine and of the packet. -/
theorem joinFlow_ok {e e' : Engine} {tuple : Option Tuple} {pkt pkt' : Packet} {o : Owned}
    {range : Option (UInt16 × UInt16)} (h : e.joinFlow tuple pkt o range = .ok (e', pkt')) :
    stamp pkt' = stamp pkt ∧ e'.nextPacketId = e.nextPacketId ∧ e'.reassemble = e.reassemble ∧
      e'.stats = e.stats ∧ e'.frags = e.frags := by
  cases tuple with
  | none =>
      cases h
      exact ⟨rfl, rfl, rfl, rfl, rfl⟩
  | some t =>
      obtain ⟨⟨streams, pkt₁⟩, h₁, he⟩ := bind_eq_ok_iff.mp h
      cases he
      exact ⟨(stamp_observe _ _ _ _ _ _).trans (stamp_reassembleAndDispatch h₁), rfl, rfl, rfl, rfl⟩

/-- What absorbing a packet keeps of the engine and of the packet. -/
theorem absorbOne_ok {e e' : Engine} {o : Owned} {d : Dissected} {row : Packet}
    (h : e.absorbOne o d = .ok (e', row)) :
    stamp row = stamp (e.numbered d.pkt) ∧ e'.nextPacketId = e.nextPacketId + 1 ∧
      e'.reassemble = e.reassemble := by
  obtain ⟨⟨frags, fragTuple, pkt⟩, hpass, h⟩ := bind_eq_ok_iff.mp h
  obtain ⟨⟨e₁, pkt₁⟩, hjoin, he⟩ := bind_eq_ok_iff.mp h
  cases he
  obtain ⟨hstamp, hnext, hreasm, -, -⟩ := joinFlow_ok hjoin
  exact ⟨hstamp.trans (stamp_fragmentPass hpass), congrArg (· + 1) hnext, hreasm⟩

/-- A row is numbered by its place in the capture, and the engine counts on. -/
theorem absorbOne_numbered {e e' : Engine} {o : Owned} {d : Dissected} {row : Packet}
    (h : e.absorbOne o d = .ok (e', row)) :
    ids row = (some e.nextPacketId, some (e.nextPacketId + 1)) ∧
      e'.nextPacketId = e.nextPacketId + 1 ∧ e'.reassemble = e.reassemble := by
  obtain ⟨hstamp, hnext, hreasm⟩ := absorbOne_ok h
  exact ⟨congrArg (fun f : FrameCols => (f.packetId, f.frameNumber)) hstamp, hnext, hreasm⟩

/-! ### The loop -/

/-- One record: the first pass, then the serial phase. -/
def step (defer : Bool) (e : Engine) (o : Owned) : Except Panic (Engine × Packet) :=
  e.absorbOne o (dissectOne o defer)

/-- Absorbing a dissected chunk is running the step over its records. -/
theorem absorb_eq_scan (defer : Bool) (e : Engine) (os : List Owned) (out : List Packet) :
    e.absorb (os.map fun o => (o, dissectOne o defer)) out =
      (scan (step defer) e os).map fun r => (r.1, out ++ r.2) := by
  induction os generalizing e out with
  | nil =>
      rw [ChunkedRun.scan_nil]
      exact congrArg (fun l => Except.ok (e, l)) (List.append_nil out).symm
  | cons o os ih =>
      rw [List.map_cons, absorb]
      cases hs : step defer e o with
      | error q =>
          rw [ChunkedRun.scan_cons_of_error hs, show e.absorbOne o (dissectOne o defer) = _ from hs]
          rfl
      | ok p =>
          rw [ChunkedRun.scan_cons_of_ok hs, show e.absorbOne o (dissectOne o defer) = _ from hs]
          refine (ih p.1 (out ++ [p.2])).trans ?_
          cases scan (step defer) p.1 os with
          | error q => rfl
          | ok r => simp only [Except.map, List.append_assoc, List.singleton_append]

/-- The rows of a run are numbered from where the engine stands. -/
theorem scan_numbered {defer : Bool} {e e' : Engine} {os : List Owned} {rows : List Packet}
    (h : scan (step defer) e os = .ok (e', rows)) :
    ∀ i row, rows[i]? = some row →
      ids row = (some (e.nextPacketId + i), some (e.nextPacketId + i + 1)) := by
  induction os generalizing e rows with
  | nil =>
      cases h
      intro i row hrow
      cases hrow
  | cons o os ih =>
      obtain ⟨e₁, first, rows₁, hs, hr, rfl⟩ := ChunkedRun.exists_of_scan_cons h
      obtain ⟨hids, hnext, -⟩ := absorbOne_numbered hs
      intro i row hrow
      cases i with
      | zero =>
          cases hrow
          exact hids
      | succ i =>
          have := ih hr i row hrow
          rw [hnext] at this
          rw [this, Nat.add_right_comm, Nat.add_assoc]

end Engine

/-- Thread counts do not matter to what a chunk is dissected into. -/
theorem dissectChunk_eq (pool : ThreadPool) (chunk : List Owned) (defer : Bool) :
    dissectChunk pool chunk defer = chunk.map fun o => dissectOne o defer := by
  unfold dissectChunk
  split
  · rfl
  · exact pool.parMap_eq _ _

/-- The engine loop: dissect a chunk, absorb it, go on with the next one. -/
def engineLoop (pool : ThreadPool) (defer : Bool) :
    Engine → List (List Owned) → Except Panic (Engine × List Packet)
  | e, [] => .ok (e, [])
  | e, chunk :: chunks => do
      let (e, rows) ← e.absorb (chunk.zip (dissectChunk pool chunk defer)) []
      let (e, rest) ← engineLoop pool defer e chunks
      pure (e, rows ++ rest)

/-- Absorbing a chunk as the loop does it. -/
theorem absorb_zip_eq (pool : ThreadPool) (defer : Bool) (e : Engine) (chunk : List Owned) :
    e.absorb (chunk.zip (dissectChunk pool chunk defer)) [] = scan (Engine.step defer) e chunk := by
  rw [dissectChunk_eq, ← List.map_prod_left_eq_zip, Engine.absorb_eq_scan]
  cases scan (Engine.step defer) e chunk <;> rfl

/-- The chunks do not matter to the loop. -/
theorem engineLoop_eq_scan (pool : ThreadPool) (defer : Bool) (e : Engine)
    (chunks : List (List Owned)) :
    engineLoop pool defer e chunks = scan (Engine.step defer) e chunks.flatten := by
  induction chunks generalizing e with
  | nil => rfl
  | cons chunk chunks ih =>
      rw [engineLoop, absorb_zip_eq, List.flatten_cons]
      cases hc : scan (Engine.step defer) e chunk with
      | error q =>
          rw [ChunkedRun.scan_append_of_error hc]
          rfl
      | ok r =>
          rw [ChunkedRun.scan_append_of_ok hc, ← ih]
          refine (show (engineLoop pool defer r.1 chunks >>= fun x => pure (x.1, r.2 ++ x.2)) = _
            from ?_)
          cases engineLoop pool defer r.1 chunks <;> rfl

end Absorb

/-! ### A capture that unwinds -/

/-- The first segment of the first stream is dissected as it is. -/
theorem Engine.reassembled_new (cfg : Config) (t : Tuple) (pkt : Packet) {segment : Bytes}
    (hroom : 0 < cfg.maxStreams) (hne : segment ≠ [])
    (hlen : segment.length ≤ cfg.maxStreamBytes) :
    (reassembled (Engine.new cfg).streams t pkt segment).1.data = segment := by
  have hadmits : ¬ BoundedTable.Refuses cfg.maxStreams (Engine.new cfg).streams.streams
      (streamKey t) := BoundedTable.not_refuses_of_lt hroom
  rw [reassembled, StreamTable.push_eq_of_admits hne hadmits]
  exact congrArg (fun s : Stream × Bool => s.1.buf) (Stream.push_new _ _ hlen)

/-- `RCPT T` and a byte that decodes to a replacement character of three bytes. -/
def smtpPayload : Bytes := Text.ascii "RCPT T" ++ [0xff]

/-- An SMTP segment with that payload: Ethernet, IPv4, TCP to port 25. -/
def smtpFrame : Owned :=
  { capLen := 61, origLen := 61, linktype := 1,
    data :=
      [0x00, 0x11, 0x22, 0x33, 0x44, 0x55, 0x66, 0x77, 0x88, 0x99, 0xaa, 0xbb, 0x08, 0x00] ++
      [0x45, 0, 0, 47, 0, 1, 0x40, 0, 64, 6, 0, 0, 10, 0, 0, 5, 93, 184, 216, 34] ++
      [0xc3, 0x50, 0, 25, 0, 0, 3, 0xe8, 0, 0, 0, 1, 0x50, 0x18, 0xff, 0xff, 0, 0, 0, 0] ++
      smtpPayload }

/-- The conversation it belongs to. -/
def smtpTuple : Tuple :=
  { srcIp := .v4 0x0a000005, dstIp := .v4 0x5db8d822, srcPort := 50000, dstPort := 25, proto := 6 }

/-- The recipient is cut after three bytes, in the middle of the replacement character. -/
theorem smtpPayload_cuts [Hashes] :
    App.CutsInside smtpPayload 50000 25 true { stack := [], cols := {} } := by
  have hport : App.byPort smtpPayload 25 true false = some (App.text (AppText.smtp smtpPayload)) :=
    rfl
  obtain ⟨q, hq⟩ : ∃ q, (App.text (AppText.smtp smtpPayload)).exec { stack := [], cols := {} } =
      .error q := ⟨_, rfl⟩
  refine ⟨q, ?_⟩
  have htry : App.tryDissector (some (App.text (AppText.smtp smtpPayload)))
      { stack := [], cols := {} } = .error q := by
    rw [App.tryDissector, hq]
  rw [App.identify, hport, htry]
  rfl

/-- Whatever came before it, as long as no stream is tracked yet, the segment makes the serial phase
cut inside a character. -/
theorem smtpFrame_stepCuts [Hashes] {e : Engine} (h : e.streams = (Engine.new {}).streams) :
    e.StepCuts smtpFrame (dissectOne smtpFrame true) := by
  let pkt := e.numbered (dissectOne smtpFrame true).pkt
  have hports : pkt.transport.srcPort = some 50000 ∧ pkt.transport.dstPort = some 25 := ⟨rfl, rfl⟩
  have hdata : (Engine.reassembled e.streams smtpTuple pkt smtpPayload).1.data = smtpPayload := by
    rw [h]
    exact Engine.reassembled_new {} smtpTuple pkt (by decide) (by decide) (by decide)
  have hcuts : StreamCuts smtpPayload pkt := by
    refine ⟨by decide, ?_⟩
    rw [hports.1, hports.2, show pkt.app = {} from rfl]
    exact smtpPayload_cuts
  have hfrag : (if e.reassemble then (dissectOne smtpFrame true).frag else none) = none :=
    ite_self none
  refine .inr ⟨e.frags, none, pkt, smtpTuple, smtpPayload, ?_, rfl, rfl, by rwa [hdata]⟩
  rw [hfrag]
  rfl

end PcapRacer
