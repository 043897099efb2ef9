/-
**Old connections in the stream table.**

The stream table is keyed by the conversation and the direction, and the serial phase never forgets
a key: `StreamTable.close` is there, and nothing calls it.  So when a connection ends and another
one is opened between the same two endpoints, the new one goes on with the stream of the old one.

Main definitions:

* `Engine.offered`, `Engine.offeredAlong` — the segments that the serial phase offers to the table;
* `Engine.dissectedData` — the bytes that are dissected for a segment;
* `Reopening`, `Reopening.DataSegment` — a connection ends, a later packet opens another one, and a
  data segment of that one arrives;
* `Stream.Carried` — every byte is one that some segment carries at its sequence number.

Main results:

* `Engine.scan_streams` — the stream table along a run;
* `StreamTable.carried_run` — a stream that starts during a run holds bytes of that run only;
* `Reopening.DataSegment.onlyNew_of_absent` — **in a direction in which the table holds nothing when
  the new connection opens, only bytes of the new connection are dissected**;
* `Reopening.DataSegment.old_prefix_data` — in any other direction the old buffer is dissected again;
* `reopened_data_leaks` — a connection that is reset and opened again: the old bytes are dissected.
-/

import PcapRacer.FragmentRows
import PcapRacer.StreamTableRetained

set_option relaxedAutoImplicit false
set_option autoImplicit false

namespace PcapRacer

open ChunkedRun (scan)

/-! ### Bytes at their sequence numbers -/

namespace Stream

/-- Every byte of `buf` is one that some segment of `hist` carries at the same sequence number, when
`buf` starts at `base`. -/
def Carried (hist : List (UInt32 × Bytes)) (base : UInt32) (buf : Bytes) : Prop :=
  ∀ (i : ℕ) (b : UInt8), buf[i]? = some b →
    ∃ g ∈ hist, ∃ j, g.1 + UInt32.ofNat j = base + UInt32.ofNat i ∧ g.2[j]? = some b

variable {hist hist' : List (UInt32 × Bytes)} {base : UInt32} {buf : Bytes}

theorem Carried.nil (hist : List (UInt32 × Bytes)) (base : UInt32) : Carried hist base [] := by
  intro i b h
  simp at h

theorem Carried.mono (h : Carried hist base buf) (hsub : ∀ g ∈ hist, g ∈ hist') :
    Carried hist' base buf := by
  intro i b hb
  obtain ⟨g, hg, j, hj⟩ := h i b hb
  exact ⟨g, hsub g hg, j, hj⟩

theorem Carried.take (h : Carried hist base buf) (n : ℕ) : Carried hist base (buf.take n) := by
  intro i b hb
  rw [List.getElem?_take] at hb
  split at hb
  · exact h i b hb
  · simp at hb

/-- Part of a segment may be appended where its sequence numbers continue those of the buffer. -/
theorem Carried.append (h : Carried hist base buf) {g : UInt32 × Bytes} (hg : g ∈ hist) {k : ℕ}
    (hk : g.1 + UInt32.ofNat k = base + UInt32.ofNat buf.length) :
    Carried hist base (buf ++ g.2.drop k) := by
  intro i b hb
  rcases Nat.lt_or_ge i buf.length with hi | hi
  · rw [List.getElem?_append_left hi] at hb
    exact h i b hb
  · rw [List.getElem?_append_right hi, List.getElem?_drop] at hb
    refine ⟨g, hg, k + (i - buf.length), ?_, hb⟩
    have hsum : buf.length + (i - buf.length) = i := by omega
    calc g.1 + UInt32.ofNat (k + (i - buf.length))
        = g.1 + UInt32.ofNat k + UInt32.ofNat (i - buf.length) := by
          rw [UInt32.ofNat_add, UInt32.add_assoc]
      _ = base + UInt32.ofNat (buf.length + (i - buf.length)) := by
          rw [hk, UInt32.ofNat_add, UInt32.add_assoc]
      _ = base + UInt32.ofNat i := by rw [hsum]

theorem Carried.drainLoop (fuel : ℕ) {pending : List (UInt32 × Bytes)}
    (h : Carried hist base buf) (hsub : ∀ p ∈ pending, p ∈ hist) :
    Carried hist base (drainLoop base fuel buf pending).1 := by
  induction fuel generalizing buf pending with
  | zero => exact h
  | succ fuel ih =>
      unfold Stream.drainLoop
      split
      · next p hp =>
          have hend : p.1 = bufEnd base buf := by simpa using List.find?_some hp
          have happ : Carried hist base (buf ++ p.2) :=
            h.append (k := 0) (hsub p (List.mem_of_find?_eq_some hp)) (by simp [hend, bufEnd])
          exact ih happ fun x hx => hsub x (List.mem_of_mem_eraseP hx)
      · exact h

/-- The invariant of a stream to which the segments `hist` have been offered: what it holds comes
from them. -/
structure Native (maxBytes : ℕ) (hist : List (UInt32 × Bytes)) (s : Stream) : Prop where
  unbased : s.baseSeq = none → s.buf = []
  carried : ∀ b, s.baseSeq = some b → Carried hist b s.buf
  held : ∀ p ∈ s.pending, p ∈ hist
  len_le : s.buf.length ≤ maxBytes

theorem native_fresh (maxBytes : ℕ) : Native maxBytes [] {} where
  unbased _ := rfl
  carried b _ := Carried.nil _ _
  held p hp := by simp at hp
  len_le := Nat.zero_le _

/-- The buffer is carried from the base the next push will use. -/
theorem Native.carried_baseOr {maxBytes : ℕ} {s : Stream} (h : Native maxBytes hist s)
    (seq : UInt32) : Carried hist (s.baseOr seq) s.buf := by
  unfold baseOr
  cases hs : s.baseSeq with
  | none =>
      rw [h.unbased hs]
      exact Carried.nil _ _
  | some b => exact h.carried b hs

/-- The sequence number of the first new byte of a segment that leaves no gap. -/
theorem add_fresh_eq {s : Stream} {seq : UInt32} (hle : s.offsetOf seq ≤ s.buf.length) :
    seq + UInt32.ofNat (s.buf.length - s.offsetOf seq) =
      s.baseOr seq + UInt32.ofNat s.buf.length := by
  have hoff : seq = s.baseOr seq + UInt32.ofNat (s.offsetOf seq) := by
    rw [offsetOf, UInt32.ofNat_toNat, UInt32.add_comm, UInt32.sub_add_cancel]
  have hsum : s.offsetOf seq + (s.buf.length - s.offsetOf seq) = s.buf.length := by omega
  calc seq + UInt32.ofNat (s.buf.length - s.offsetOf seq)
      = s.baseOr seq + UInt32.ofNat (s.offsetOf seq) +
          UInt32.ofNat (s.buf.length - s.offsetOf seq) := by rw [← hoff]
    _ = s.baseOr seq + UInt32.ofNat s.buf.length := by
        rw [UInt32.add_assoc, ← UInt32.ofNat_add, hsum]

/-- **One push keeps the invariant.** -/
theorem Native.push {maxBytes : ℕ} {s : Stream} (h : Native maxBytes hist s) (seq : UInt32)
    {payload : Bytes} (hne : payload ≠ []) :
    Native maxBytes (hist ++ [(seq, payload)]) (s.push maxBytes seq payload).1 := by
  have hlen := length_push_le s maxBytes seq payload
  have hpush := pushed_push h.len_le seq hne
  have hcarried : Carried (hist ++ [(seq, payload)]) (s.baseOr seq) s.buf :=
    (h.carried_baseOr seq).mono fun g hg => List.mem_append_left _ hg
  have hheld : ∀ p ∈ s.pending, p ∈ hist ++ [(seq, payload)] :=
    fun p hp => List.mem_append_left _ (h.held p hp)
  generalize s.push maxBytes seq payload = r at hpush hlen
  cases hpush with
  | grow hle hlt =>
      have hfresh : Carried (hist ++ [(seq, payload)]) (s.baseOr seq)
          (s.buf ++ s.fresh seq payload) :=
        hcarried.append (g := (seq, payload)) (by simp) (add_fresh_eq hle)
      have hgrown : Carried (hist ++ [(seq, payload)]) (s.baseOr seq) (s.grown seq payload).buf :=
        hfresh.drainLoop _ hheld
      have hheld' : ∀ p ∈ (s.grown seq payload).pending, p ∈ hist ++ [(seq, payload)] :=
        fun p hp => hheld p (mem_of_mem_drainLoop hp)
      unfold clip at hlen ⊢
      split
      · refine ⟨nofun, fun b hb => ?_, hheld', List.length_take_le _ _⟩
        cases hb
        exact hgrown.take maxBytes
      · next hnot =>
          refine ⟨nofun, fun b hb => ?_, hheld', Nat.le_of_not_lt hnot⟩
          cases hb
          exact hgrown
  | copy hlt hle | beyond hgap hbelow =>
      refine ⟨nofun, fun b hb => ?_, hheld, hlen⟩
      cases hb
      exact hcarried
  | hold hgap hbelow hroom =>
      refine ⟨nofun, fun b hb => ?_, fun p hp => ?_, hlen⟩
      · cases hb
        exact hcarried
      · rcases List.mem_append.mp hp with hp | hp
        · exact hheld p hp
        · exact List.mem_append_right _ hp
  | overflow hgap hbelow hfull =>
      refine ⟨nofun, fun b hb => ?_, fun p hp => ?_, hlen⟩
      · cases hb
        exact hcarried
      · exact absurd hp List.not_mem_nil

/-- A push only extends the buffer. -/
theorem prefix_push {maxBytes : ℕ} {s : Stream} (hcap : s.buf.length ≤ maxBytes) (seq : UInt32)
    {payload : Bytes} (hne : payload ≠ []) : s.buf <+: (s.push maxBytes seq payload).1.buf := by
  have hpush := pushed_push hcap seq hne
  generalize s.push maxBytes seq payload = r at hpush
  cases hpush with
  | grow hle hlt =>
      have hgrown : s.buf <+: (s.grown seq payload).buf :=
        (List.prefix_append _ _).trans (prefix_drainLoop _ _ _ _)
      unfold clip
      split
      · exact List.prefix_take_iff.mpr ⟨hgrown, hcap⟩
      · exact hgrown
  | copy | hold | overflow | beyond => exact List.prefix_refl _

end Stream

/-! ### A stream that starts during a run -/

namespace StreamTable

variable {κ : Type} [DecidableEq κ]

/-- A key that the table does not know when a run starts: its stream holds bytes of the run. -/
theorem native_run {t : StreamTable κ} {key : κ} (h : t.streams.lookup key = none)
    (segs : List (Segment κ)) :
    ((t.run segs).entry key).Native t.maxBytes (history segs key) := by
  induction segs using List.reverseRecOn with
  | nil =>
      rw [run_nil, entry, h]
      exact Stream.native_fresh _
  | append_singleton segs g ih =>
      rw [run_concat]
      by_cases ht : (t.run segs).Takes g
      · by_cases hk : key = g.key
        · subst hk
          rw [entry_push_self ht, run_maxBytes, history_concat_self]
          exact ih.push g.seq ht.1
        · rw [entry_push_of_ne _ hk, history_concat_of_ne segs (Ne.symm hk)]
          exact ih
      · rw [entry_congr (push_of_not_takes ht).2.1]
        exact { ih with
          carried := fun b hb => (ih.carried b hb).mono fun g hg => by
            rw [history, List.filter_append, List.map_append]
            exact List.mem_append_left _ hg
          held := fun p hp => by
            rw [history, List.filter_append, List.map_append]
            exact List.mem_append_left _ (ih.held p hp) }

/-- **A stream that starts during a run**: what a push returns for it, or the bare segment when the
table has no room, is carried by segments of the run. -/
theorem carried_run {t : StreamTable κ} (segs : List (Segment κ)) (g : Segment κ)
    (h : t.streams.lookup g.key = none) :
    ∃ base, Stream.Carried (history (segs ++ [g]) g.key) base
      ((((t.run segs).push g.key g.seq g.payload).1.map Reassembled.data).getD g.payload) := by
  by_cases ht : (t.run segs).Takes g
  · have hnative := native_run h (segs ++ [g])
    rw [run_concat, entry_push_self ht] at hnative
    rw [push_eq_of_admits ht.1 ht.2]
    exact ⟨_, hnative.carried_baseOr g.seq⟩
  · rw [(push_of_not_takes ht).1]
    refine ⟨g.seq, fun i b hb => ⟨(g.seq, g.payload), ?_, i, rfl, hb⟩⟩
    rw [history_concat_self]
    simp

/-- A run only extends the buffers. -/
theorem prefix_entry_run (maxStreams maxBytes : ℕ) (segs segs' : List (Segment κ)) (key : κ) :
    (((new maxStreams maxBytes).run segs).entry key).buf <+:
      (((new maxStreams maxBytes).run (segs ++ segs')).entry key).buf := by
  induction segs' using List.reverseRecOn with
  | nil => rw [List.append_nil]
  | append_singleton segs' g ih =>
      refine ih.trans ?_
      rw [← List.append_assoc, run_concat]
      by_cases ht : ((new maxStreams maxBytes).run (segs ++ segs')).Takes g
      · by_cases hk : key = g.key
        · subst hk
          rw [entry_push_self ht]
          refine Stream.prefix_push ?_ g.seq ht.1
          rw [run_maxBytes]
          exact length_entry_run_le maxStreams maxBytes _ _
        · rw [entry_push_of_ne _ hk]
      · rw [entry_congr (push_of_not_takes ht).2.1]

end StreamTable

/-! ### The segments of a run -/

namespace Engine

/-- The bytes that are dissected for a segment. -/
def dissectedData (e : Engine) (g : Segment StreamKey) : Bytes :=
  ((e.streams.push g.key g.seq g.payload).1.map Reassembled.data).getD g.payload

/-- These are the bytes that the serial phase dissects. -/
theorem reassembled_data (e : Engine) (t : Tuple) (pkt : Packet) (segment : Bytes) :
    (reassembled e.streams t pkt segment).1.data =
      e.dissectedData
        { key := streamKey t, seq := pkt.transport.tcpSeq.getD 0, payload := segment } := by
  unfold reassembled dissectedData
  dsimp only
  cases (e.streams.push (streamKey t) (pkt.transport.tcpSeq.getD 0) segment).1 <;> rfl

end Engine

section Run

variable [Hashes]

namespace Engine

/-- The segment that the serial phase offers to the stream table for a record. -/
def offered (e : Engine) (o : Owned) : Option (Segment StreamKey) :=
  let d := dissectOne o true
  match fragmentPass e.frags (if e.reassemble then d.frag else none) (e.numbered d.pkt) with
  | .error _ => none
  | .ok (_, fragTuple, pkt) =>
      match d.tuple.or fragTuple, segmentOf o d.tcpPayload with
      | some t, some payload =>
          some { key := streamKey t, seq := pkt.transport.tcpSeq.getD 0, payload }
      | _, _ => none

/-- The segments offered along a run. -/
def offeredAlong : Engine → List Owned → List (Segment StreamKey)
  | _, [] => []
  | e, o :: os =>
      (e.offered o).toList ++
        match step true e o with
        | .error _ => []
        | .ok (e', _) => offeredAlong e' os

/-- What a record does to the stream table. -/
theorem step_streams {e e' : Engine} {o : Owned} {row : Packet}
    (h : step true e o = .ok (e', row)) :
    e'.streams = e.streams.run (e.offered o).toList := by
  obtain ⟨⟨frags, fragTuple, pkt⟩, hpass, h⟩ := bind_eq_ok_iff.mp h
  obtain ⟨⟨e₁, pkt₁⟩, hjoin, he⟩ := bind_eq_ok_iff.mp h
  cases he
  unfold offered
  dsimp only
  rw [hpass]
  dsimp only
  cases htuple : (dissectOne o true).tuple.or fragTuple with
  | none =>
      rw [htuple] at hjoin
      cases hjoin
      rfl
  | some t =>
      rw [htuple] at hjoin
      obtain ⟨⟨streams, pkt₂⟩, hstreams, hr⟩ := bind_eq_ok_iff.mp hjoin
      cases hr
      unfold reassembleAndDispatch at hstreams
      cases hseg : segmentOf o (dissectOne o true).tcpPayload with
      | none =>
          rw [hseg] at hstreams
          cases hstreams
          rfl
      | some segment =>
          rw [hseg] at hstreams
          obtain ⟨r, -, hr⟩ := map_eq_ok_iff.mp hstreams
          cases hr
          rfl

/-- **The stream table along a run.** -/
theorem scan_streams {e e' : Engine} {os : List Owned} {rows : List Packet}
    (h : scan (step true) e os = .ok (e', rows)) :
    e'.streams = e.streams.run (e.offeredAlong os) := by
  induction os generalizing e rows with
  | nil =>
      cases h
      rfl
  | cons o os ih =>
      obtain ⟨e₁, row, rows₁, hs, hr, rfl⟩ := ChunkedRun.exists_of_scan_cons h
      rw [ih hr, step_streams hs, offeredAlong, hs, StreamTable.run_append]

/-- A packet that is not a fragment: what it offers does not depend on the engine. -/
theorem offered_of_whole {o : Owned} {t : Tuple} (e : Engine)
    (hfrag : (dissectOne o true).frag = none) (htuple : (dissectOne o true).tuple = some t) :
    e.offered o = (segmentOf o (dissectOne o true).tcpPayload).map fun payload =>
      { key := streamKey t, seq := (dissectOne o true).pkt.transport.tcpSeq.getD 0, payload } := by
  unfold offered
  dsimp only
  rw [hfrag, ite_self, htuple]
  dsimp only [fragmentPass, Option.or]
  cases segmentOf o (dissectOne o true).tcpPayload <;> rfl

/-- Such a packet is absorbed, unless dissecting its stream unwinds. -/
theorem step_of_whole {e : Engine} {o : Owned} {t : Tuple}
    (hfrag : (dissectOne o true).frag = none) (htuple : (dissectOne o true).tuple = some t)
    (h : ∀ payload, segmentOf o (dissectOne o true).tcpPayload = some payload →
      ∃ pkt, dissectStream (e.numbered (dissectOne o true).pkt)
        (reassembled e.streams t (e.numbered (dissectOne o true).pkt) payload).1 = .ok pkt) :
    ∃ e' row, step true e o = .ok (e', row) := by
  obtain ⟨⟨streams, pkt⟩, hpkt⟩ : ∃ r, reassembleAndDispatch e.streams t
      (e.numbered (dissectOne o true).pkt) o (dissectOne o true).tcpPayload = .ok r := by
    unfold reassembleAndDispatch
    cases hseg : segmentOf o (dissectOne o true).tcpPayload with
    | none => exact ⟨_, rfl⟩
    | some payload =>
        obtain ⟨pkt, hpkt⟩ := h payload hseg
        exact ⟨_, map_eq_ok_iff.mpr ⟨pkt, hpkt, rfl⟩⟩
  have hpass : fragmentPass e.frags (if e.reassemble then (dissectOne o true).frag else none)
      (e.numbered (dissectOne o true).pkt) =
        .ok (e.frags, none, e.numbered (dissectOne o true).pkt) := by
    rw [hfrag, ite_self]
    rfl
  obtain ⟨p, hjoin⟩ : ∃ p, { e with frags := e.frags }.joinFlow ((dissectOne o true).tuple.or none)
      (e.numbered (dissectOne o true).pkt) o (dissectOne o true).tcpPayload = .ok p := by
    rw [htuple]
    exact ⟨_, bind_eq_ok_iff.mpr ⟨(streams, pkt), hpkt, rfl⟩⟩
  exact ⟨_, _, bind_eq_ok_iff.mpr ⟨_, hpass, bind_eq_ok_iff.mpr ⟨p, hjoin, rfl⟩⟩⟩

end Engine

/-! ### Connections -/

/-- The record is a TCP packet of this direction of a conversation. -/
def Sends (key : StreamKey) (o : Owned) : Prop :=
  ∃ t, (dissectOne o true).tuple = some t ∧ t.proto = 6 ∧ Engine.streamKey t = key

/-- The TCP columns of a record. -/
def tcpCols (o : Owned) : TransportCols := (dissectOne o true).pkt.transport

/-- A connection ends: a reset from either side, or a FIN from both. -/
def Ends (flow : Tuple) (os : List Owned) : Prop :=
  (∃ o ∈ os, ∃ forward, Sends ⟨flow, forward⟩ o ∧ (tcpCols o).tcpFlagRst = some true) ∨
    ∀ forward, ∃ o ∈ os, Sends ⟨flow, forward⟩ o ∧ (tcpCols o).tcpFlagFin = some true

/-- The packet opens a connection. -/
def Opens (flow : Tuple) (o : Owned) : Prop :=
  ∃ forward, Sends ⟨flow, forward⟩ o ∧ (tcpCols o).tcpFlagSyn = some true ∧
    (tcpCols o).tcpFlagAck = some false

/-- A run in which a connection ends and a later packet opens another one between the same
endpoints. -/
structure Reopening (cfg : Config) where
  flow : Tuple
  /-- The records before the new connection. -/
  old : List Owned
  /-- The packet that opens it. -/
  syn : Owned
  ends : Ends flow old
  opens : Opens flow syn
  /-- The engine when the new connection opens. -/
  engine : Engine
  rows : List Packet
  ran : scan (Engine.step true) (Engine.new cfg) old = .ok (engine, rows)

/-- A data segment of the new connection. -/
structure Reopening.DataSegment {cfg : Config} (r : Reopening cfg) where
  /-- The records since the connection was opened. -/
  earlier : List Owned
  record : Owned
  since_syn : (earlier ++ [record]).head? = some r.syn
  engine : Engine
  rows : List Packet
  ran : scan (Engine.step true) r.engine earlier = .ok (engine, rows)
  segment : Segment StreamKey
  offered : engine.offered record = some segment
  flow_eq : segment.key.flow = r.flow

namespace Reopening.DataSegment

variable {cfg : Config} {r : Reopening cfg} (n : r.DataSegment)

/-- The segments that the new connection has sent in this direction, this one included. -/
def sent : List (UInt32 × Bytes) :=
  StreamTable.history (r.engine.offeredAlong n.earlier ++ [n.segment]) n.segment.key

/-- The bytes that are dissected for the segment. -/
def data : Bytes := n.engine.dissectedData n.segment

/-- Only bytes that the new connection has sent, each at its sequence number. -/
def OnlyNew : Prop := ∃ base, Stream.Carried n.sent base n.data

/-- **Only the new connection is dissected**, in a direction in which the table holds nothing when
the new connection opens. -/
theorem onlyNew_of_absent (h : r.engine.streams.streams.lookup n.segment.key = none) :
    n.OnlyNew := by
  unfold OnlyNew data Engine.dissectedData
  rw [Engine.scan_streams n.ran]
  exact StreamTable.carried_run _ n.segment h

/-- What the table held in this direction when the new connection opened is dissected again. -/
theorem old_prefix_data (h : n.engine.streams.Takes n.segment) :
    (r.engine.streams.entry n.segment.key).buf <+: n.data := by
  have hold := Engine.scan_streams r.ran
  have hnew : n.engine.streams = (Engine.new cfg).streams.run
      ((Engine.new cfg).offeredAlong r.old ++ r.engine.offeredAlong n.earlier) := by
    rw [Engine.scan_streams n.ran, hold, StreamTable.run_append]
  have hdata : n.data = ((n.engine.streams.push n.segment.key n.segment.seq
      n.segment.payload).2.entry n.segment.key).buf := by
    rw [StreamTable.entry_push_self h, data, Engine.dissectedData,
      StreamTable.push_eq_of_admits h.1 h.2]
    rfl
  have hpre := StreamTable.prefix_entry_run cfg.maxStreams cfg.maxStreamBytes
    ((Engine.new cfg).offeredAlong r.old) (r.engine.offeredAlong n.earlier ++ [n.segment])
    n.segment.key
  rw [← List.append_assoc, StreamTable.run_concat] at hpre
  rw [hdata, hold, hnew]
  exact hpre

end Reopening.DataSegment

end Run

/-! ### A connection that is reset and opened again -/

/-- A TCP packet of one conversation: Ethernet, IPv4, TCP between ports 50000 and 4444. -/
def reopenedFrame (seq : UInt8 × UInt8) (flags : UInt8) (payload : Bytes)
    (h : payload.length ≤ 8) : Owned :=
  { capLen := 62, origLen := 62, linktype := 1,
    data :=
      [0x00, 0x11, 0x22, 0x33, 0x44, 0x55, 0x66, 0x77, 0x88, 0x99, 0xaa, 0xbb, 0x08, 0x00] ++
      [0x45, 0, 0, 40 + UInt8.ofNat payload.length, 0, 1, 0x40, 0, 64, 6, 0, 0,
        10, 0, 0, 5, 93, 184, 216, 34] ++
      [0xc3, 0x50, 0x11, 0x5c, 0, 0, seq.1, seq.2, 0, 0, 0, 1, 0x50, flags, 0xff, 0xff,
        0, 0, 0, 0] ++
      payload
    data_le := by
      simp only [List.length_append, List.length_cons, List.length_nil]
      exact Nat.add_le_add_left h 54 }

/-- Two bytes of the old connection. -/
def oldFrame : Owned := reopenedFrame (0x03, 0xe8) 0x18 (Text.ascii "AB") (by decide)

/-- Its reset. -/
def rstFrame : Owned := reopenedFrame (0x03, 0xea) 0x14 [] (by decide)

/-- The packet that opens the new one. -/
def synFrame : Owned := reopenedFrame (0x13, 0x87) 0x02 [] (by decide)

/-- The first two bytes of the new one. -/
def newFrame : Owned := reopenedFrame (0x13, 0x88) 0x18 (Text.ascii "CD") (by decide)

/-- The conversation, smaller endpoint first. -/
def reopenedFlow : Tuple :=
  { srcIp := .v4 0x0a000005, dstIp := .v4 0x5db8d822, srcPort := 50000, dstPort := 4444, proto := 6 }

/-- The direction of these frames. -/
def reopenedKey : StreamKey := { flow := reopenedFlow, forward := true }

section Frames

variable [Hashes]

/-- A frame without payload passes, and leaves the streams alone. -/
theorem step_of_bare {o : Owned} (e : Engine) (hfrag : (dissectOne o true).frag = none)
    (htuple : (dissectOne o true).tuple = some reopenedFlow)
    (hseg : Engine.segmentOf o (dissectOne o true).tcpPayload = none) :
    ∃ e' row, Engine.step true e o = .ok (e', row) ∧ e'.streams = e.streams := by
  obtain ⟨e', row, h⟩ := Engine.step_of_whole (e := e) hfrag htuple fun payload hp => by
    rw [hseg] at hp
    cases hp
  refine ⟨e', row, h, ?_⟩
  rw [Engine.step_streams h, Engine.offered_of_whole e hfrag htuple, hseg]
  rfl

theorem step_oldFrame : ∃ e row, Engine.step true (Engine.new {}) oldFrame = .ok (e, row) ∧
    e.streams = (Engine.new {}).streams.run [⟨reopenedKey, 1000, Text.ascii "AB"⟩] := by
  have hfrag : (dissectOne oldFrame true).frag = none := rfl
  have htuple : (dissectOne oldFrame true).tuple = some reopenedFlow := rfl
  have hseg : Engine.segmentOf oldFrame (dissectOne oldFrame true).tcpPayload =
      some (Text.ascii "AB") := rfl
  have hseq : ((Engine.new {}).numbered (dissectOne oldFrame true).pkt).transport.tcpSeq =
      some 1000 := rfl
  obtain ⟨e, row, h⟩ := Engine.step_of_whole (e := Engine.new {}) hfrag htuple fun payload hp => by
    rw [hseg] at hp
    cases hp
    rw [Engine.reassembled, hseq]
    exact ⟨_, rfl⟩
  refine ⟨e, row, h, ?_⟩
  rw [Engine.step_streams h, Engine.offered_of_whole _ hfrag htuple, hseg]
  rfl

/-- The run of the old connection. -/
theorem scan_oldFrames : ∃ e rows,
    scan (Engine.step true) (Engine.new {}) [oldFrame, rstFrame] = .ok (e, rows) ∧
      e.streams = (Engine.new {}).streams.run [⟨reopenedKey, 1000, Text.ascii "AB"⟩] := by
  obtain ⟨e₁, row₁, h₁, hs₁⟩ := step_oldFrame
  obtain ⟨e₂, row₂, h₂, hs₂⟩ := step_of_bare (o := rstFrame) e₁ rfl rfl rfl
  refine ⟨e₂, [row₁, row₂], ?_, hs₂.trans hs₁⟩
  rw [ChunkedRun.scan_cons_of_ok h₁, ChunkedRun.scan_cons_of_ok h₂]
  rfl

end Frames

/-- The reset, and then the new connection. -/
def reopened [Hashes] {old : List Owned} (hrst : rstFrame ∈ old) {e : Engine} {rows : List Packet}
    (hran : scan (Engine.step true) (Engine.new {}) old = .ok (e, rows)) : Reopening {} where
  flow := reopenedFlow
  old := old
  syn := synFrame
  ends := .inl ⟨rstFrame, hrst, true, ⟨reopenedFlow, rfl, rfl, rfl⟩, rfl⟩
  opens := ⟨true, ⟨reopenedFlow, rfl, rfl, rfl⟩, rfl, rfl⟩
  engine := e
  rows := rows
  ran := hran

/-- The new connection sends `CD`; the table is the one that the old connection left. -/
theorem exists_dataSegment [Hashes] {old : List Owned} (hrst : rstFrame ∈ old) {e : Engine}
    {rows : List Packet} (hran : scan (Engine.step true) (Engine.new {}) old = .ok (e, rows)) :
    ∃ n : (reopened hrst hran).DataSegment, n.segment.key = reopenedKey ∧
      n.sent = [(5000, Text.ascii "CD")] ∧
      n.data = ((e.streams.push reopenedKey 5000 (Text.ascii "CD")).1.map Reassembled.data).getD
        (Text.ascii "CD") := by
  obtain ⟨e', row, hsyn, hstreams⟩ := step_of_bare (o := synFrame) e rfl rfl rfl
  have hoffered : e'.offered newFrame = some ⟨reopenedKey, 5000, Text.ascii "CD"⟩ :=
    (Engine.offered_of_whole e' rfl (t := reopenedFlow) rfl).trans rfl
  have hearlier : e.offeredAlong [synFrame] = [] := by
    rw [Engine.offeredAlong, hsyn, Engine.offered_of_whole e rfl (t := reopenedFlow) rfl]
    rfl
  let n : (reopened hrst hran).DataSegment :=
    { earlier := [synFrame]
      record := newFrame
      since_syn := rfl
      engine := e'
      rows := [row]
      ran := (ChunkedRun.scan_cons_of_ok hsyn []).trans rfl
      segment := ⟨reopenedKey, 5000, Text.ascii "CD"⟩
      offered := hoffered
      flow_eq := rfl }
  refine ⟨n, rfl, ?_, ?_⟩
  · change StreamTable.history (e.offeredAlong [synFrame] ++ [_]) _ = _
    rw [hearlier]
    rfl
  · change ((e'.streams.push reopenedKey 5000 (Text.ascii "CD")).1.map _).getD _ = _
    rw [hstreams]

/-- A reset without data before it leaves nothing behind. -/
theorem onlyNew_after_bare_reset : (frameJourney rstFrame).hdr.tuple = some reopenedFlow ∧
    ∀ _ : Hashes, ∃ (r : Reopening {}) (n : r.DataSegment),
      n.sent = [(5000, Text.ascii "CD")] ∧ n.OnlyNew := by
  refine ⟨rfl, fun _ => ?_⟩
  obtain ⟨e, row, hstep, hstreams⟩ := step_of_bare (o := rstFrame) (Engine.new {}) rfl rfl rfl
  have hran : scan (Engine.step true) (Engine.new {}) [rstFrame] = .ok (e, [row]) := by
    rw [ChunkedRun.scan_cons_of_ok hstep]
    rfl
  obtain ⟨n, hkey, hsent, -⟩ := exists_dataSegment List.mem_cons_self hran
  refine ⟨_, n, hsent, n.onlyNew_of_absent ?_⟩
  rw [hkey]
  change e.streams.streams.lookup reopenedKey = none
  rw [hstreams]
  rfl

/-- The new connection sends `CD`, and what is dissected for it is the `AB` of the old one. -/
theorem reopened_data_leaks : (frameJourney newFrame).hdr.tuple = some reopenedFlow ∧
    ∀ _ : Hashes, ∃ (r : Reopening {}) (n : r.DataSegment),
      n.sent = [(5000, Text.ascii "CD")] ∧ n.data = Text.ascii "AB" ∧ ¬ n.OnlyNew := by
  refine ⟨rfl, fun _ => ?_⟩
  obtain ⟨e, rows, hran, hstreams⟩ := scan_oldFrames
  obtain ⟨n, -, hsent, hdata⟩ := exists_dataSegment (by simp) hran
  rw [hstreams] at hdata
  replace hdata : n.data = Text.ascii "AB" := hdata.trans rfl
  refine ⟨_, n, hsent, hdata, ?_⟩
  rintro ⟨base, h⟩
  rw [hsent, hdata] at h
  -- no new segment carries the first of these bytes
  obtain ⟨g, hg, j, -, hj⟩ := h 0 65 rfl
  cases List.mem_singleton.mp hg
  match j with
  | 0 | 1 => cases hj
  | j + 2 => cases hj

end PcapRacer
