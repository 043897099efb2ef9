/-
**A TCP segment in fragments.**

Two mechanisms look at a TCP segment that travels in IP fragments.  The first pass reads the first
fragment like any other packet, so the part of the segment that lies in it goes to the stream table.
The fragment table puts the datagram together again, and its payload is dissected; but it is never
offered to the stream table, neither when a later fragment completes the datagram nor when the first
one does.  So a stream gets the beginning of the segment at most.

Main definitions:

* `sent`, `others` — what a record offers to the stream table by itself, and the records that are not
  fragments;
* `SplitSegment` — a TCP segment in fragments, and the frame in which it travels whole;
* `SplitRun` — a run in which its fragments arrive, in any order, and the run in which it arrives
  whole instead;
* `SplitRun.NothingLost` — what is missing makes no difference;
* `SplitRun.SameStream` — the direction goes on in the one run as it does in the other.

Main results:

* `SplitRun.streams_fragments`, `SplitRun.streams_whole` — the stream tables of the two runs;
* `SplitRun.sameStream_of_nothingLost` — **the direction goes on as if the segment had arrived whole,
  when nothing of it is lost**;
* `rest_of_segment_lost` — a request in two fragments: its second part never gets to the stream.
-/

import PcapRacer.DatagramRows
import PcapRacer.StreamTableAlike

set_option relaxedAutoImplicit false
set_option autoImplicit false

namespace PcapRacer

open ChunkedRun (scan)

/-! ### The TCP header -/

namespace Transport

open Header

/-- The number in the bytes `i` to `i + n` of a header. -/
def field (b : Bytes) (i n : ℕ) : ℕ := beNat ((b.drop i).take n)

/-- The ports and the sequence number at the beginning of a TCP header. -/
def sportOf (b : Bytes) : UInt16 := .ofNat (field b 0 2)

def dportOf (b : Bytes) : UInt16 := .ofNat (field b 2 2)

def seqOf (b : Bytes) : UInt32 := .ofNat (field b 4 4)

theorem field_of_prefix {b b' : Bytes} {i n : ℕ} (h : b <+: b') (hlen : i + n ≤ b.length) :
    field b i n = field b' i n := by
  obtain ⟨t, rfl⟩ := h
  rw [field, field, List.drop_append_of_le_length (by omega),
    List.take_append_of_le_length (by rw [List.length_drop]; omega)]

/-- The data offset in bytes, as a TCP header states it. -/
def dataOffsetOf (b : Bytes) : ℕ := (UInt16.ofNat (field b 12 2) >>> 12).toNat * 4

/-- The TCP dissector once the fixed header `b` is read: columns, tuple and options. -/
def tcpBody (src dst : IpAddr) (b : Bytes) : Header Onward := do
  let flags := UInt16.ofNat (field b 12 2) &&& 0x01ff
  transport fun t =>
    { t with l4Proto := some "tcp".toList, srcPort := some (sportOf b), dstPort := some (dportOf b),
             tcpSeq := some (seqOf b), tcpAck := some (.ofNat (field b 8 4)), tcpFlags := some flags,
             tcpFlagsStr := some (flagsString flags),
             tcpFlagFin := some (hasFlag flags tcpFin), tcpFlagSyn := some (hasFlag flags tcpSyn),
             tcpFlagRst := some (hasFlag flags tcpRst), tcpFlagPsh := some (hasFlag flags tcpPsh),
             tcpFlagAck := some (hasFlag flags tcpAck), tcpFlagUrg := some (hasFlag flags tcpUrg),
             tcpFlagEce := some (hasFlag flags tcpEce), tcpFlagCwr := some (hasFlag flags tcpCwr),
             tcpWindow := some (.ofNat (field b 14 2)), tcpChecksum := some (.ofNat (field b 16 2)),
             tcpUrgentPtr := some (.ofNat (field b 18 2)),
             tcpHdrLen := some (UInt8.ofNat (dataOffsetOf b)) }
  setTuple src dst (sportOf b) (dportOf b) protoTcp
  let optLen := dataOffsetOf b - 20
  if 0 < optLen ∧ optLen ≤ (← remaining) then
    let opts ← take optLen
    transport (parseTcpOptions opts)
  return .payload { isTcp := true, sport := sportOf b, dport := dportOf b }

/-- **Where a whole header is, the TCP dissector reads it.** -/
theorem tcp_of_le {c : Cur} (src dst : IpAddr) (s : Hdr) (h : 20 ≤ c.remaining) :
    ∃ c', c'.rest = c.rest.drop 20 ∧
      (tcp src dst).run c s = (tcpBody src dst c.rest).run c' { s with stack := s.stack ++ [.tcp] } := by
  obtain ⟨b, hb⟩ : ∃ b, c.rest = b := ⟨_, rfl⟩
  have hlen : 20 ≤ b.length := by rwa [← hb, Cur.length_rest]
  -- eight reads, one after the other
  obtain ⟨c₁, hb₁, h₁⟩ := exists_read_bind (β := Onward) (n := 1) (i := 0) (b := b) hb
    (fun x => UInt16.ofNat (beNat x)) (by omega)
  obtain ⟨c₂, hb₂, h₂⟩ := exists_read_bind (β := Onward) (n := 1) hb₁
    (fun x => UInt16.ofNat (beNat x)) (by omega)
  obtain ⟨c₃, hb₃, h₃⟩ := exists_read_bind (β := Onward) (n := 3) hb₂
    (fun x => UInt32.ofNat (beNat x)) (by omega)
  obtain ⟨c₄, hb₄, h₄⟩ := exists_read_bind (β := Onward) (n := 3) hb₃
    (fun x => UInt32.ofNat (beNat x)) (by omega)
  obtain ⟨c₅, hb₅, h₅⟩ := exists_read_bind (β := Onward) (n := 1) hb₄
    (fun x => UInt16.ofNat (beNat x)) (by omega)
  obtain ⟨c₆, hb₆, h₆⟩ := exists_read_bind (β := Onward) (n := 1) hb₅
    (fun x => UInt16.ofNat (beNat x)) (by omega)
  obtain ⟨c₇, hb₇, h₇⟩ := exists_read_bind (β := Onward) (n := 1) hb₆
    (fun x => UInt16.ofNat (beNat x)) (by omega)
  obtain ⟨c₈, hb₈, h₈⟩ := exists_read_bind (β := Onward) (n := 1) hb₇
    (fun x => UInt16.ofNat (beNat x)) (by omega)
  rw [hb]
  exact ⟨c₈, hb₈, (h₁ _ _).trans ((h₂ _ _).trans ((h₃ _ _).trans ((h₄ _ _).trans ((h₅ _ _).trans
    ((h₆ _ _).trans ((h₇ _ _).trans (h₈ _ _)))))))⟩

/-- What the TCP dissector finds where a whole header is. -/
structure ReadsTcp (src dst : IpAddr) (b : Bytes) (r : Except DissectError (Onward × Cur) × Hdr) :
    Prop where
  next : ∃ c', r.1 = .ok (.payload { isTcp := true, sport := sportOf b, dport := dportOf b }, c')
  tuple : r.2.tuple = some { srcIp := src, dstIp := dst, srcPort := sportOf b, dstPort := dportOf b,
                             proto := 6 }
  seq : r.2.transport.tcpSeq = some (seqOf b)

/-- **What the TCP dissector finds where a whole header is.** -/
theorem readsTcp_of_le {c : Cur} (src dst : IpAddr) (s : Hdr) (h : 20 ≤ c.remaining) :
    ReadsTcp src dst c.rest ((tcp src dst).run c s) := by
  obtain ⟨c₈, -, hrun⟩ := tcp_of_le src dst s h
  rw [hrun]
  -- the ports are written here, then the tuple, and the options keep both
  simp only [tcpBody, run_bind, Header.transport, setTuple, Header.set, remaining, cursor, pure]
  split
  · next hopt =>
      rw [run_bind, show (take _).run c₈ _ = (.ok (_, c₈.advance _ hopt.2), _) from
        Prod.ext (Cur.take_of_le hopt.2) rfl]
      exact ⟨⟨_, rfl⟩, rfl, (parseTcpOptions_head _ _).2.2⟩
  · exact ⟨⟨_, rfl⟩, rfl, rfl⟩

end Transport

/-! ### What records offer -/

section Offers

variable [Hashes]

/-- The segment that a record offers to the stream table by itself. -/
def sent (o : Owned) : Option (Segment StreamKey) :=
  let d := dissectOne o true
  match d.tuple, Engine.segmentOf o d.tcpPayload with
  | some t, some payload =>
      some { key := Engine.streamKey t, seq := d.pkt.transport.tcpSeq.getD 0, payload }
  | _, _ => none

/-- The records that are not fragments. -/
def others (os : List Owned) : List Owned := os.filter fun o => (dissectOne o true).frag.isNone

/-- The record is a fragment, but not the first one of its datagram. -/
def IsLater (o : Owned) : Prop := ∃ m, (dissectOne o true).frag = some m ∧ m.offset ≠ 0

theorem sent_of_no_range {o : Owned} (h : (dissectOne o true).tcpPayload = none) :
    sent o = none := by
  unfold sent
  dsimp only
  rw [h]
  cases (dissectOne o true).tuple <;> rfl

/-- Later fragments offer nothing. -/
theorem IsLater.no_range {o : Owned} (h : IsLater o) : (dissectOne o true).tcpPayload = none := by
  obtain ⟨m, hm, hoff⟩ := h
  exact (dissectOne_of_not_handsOver (not_handsOver_of_later (dissectOne_frag o true hm) hoff)).2.1

namespace Engine

theorem offered_of_no_range (e : Engine) {o : Owned} (h : (dissectOne o true).tcpPayload = none) :
    e.offered o = none := by
  have hseg : segmentOf o none = none := rfl
  unfold offered
  dsimp only
  rw [h]
  split
  · rfl
  · next pkt _ =>
      rw [hseg]
      cases (dissectOne o true).tuple.or _ <;> rfl

/-- What a packet other than a fragment offers does not depend on the engine. -/
theorem offered_of_no_frag (e : Engine) {o : Owned} (h : (dissectOne o true).frag = none) :
    e.offered o = sent o := by
  unfold offered sent
  dsimp only
  rw [h, ite_self]
  dsimp only [fragmentPass]
  rw [Option.or_none]
  rfl

theorem offeredAlong_append {e e' : Engine} {as : List Owned} {rows : List Packet}
    (h : scan (step true) e as = .ok (e', rows)) (bs : List Owned) :
    e.offeredAlong (as ++ bs) = e.offeredAlong as ++ e'.offeredAlong bs := by
  induction as generalizing e rows with
  | nil =>
      cases h
      rfl
  | cons o as ih =>
      obtain ⟨e₁, row, rows₁, hs, hr, rfl⟩ := ChunkedRun.exists_of_scan_cons h
      rw [List.cons_append, offeredAlong, offeredAlong, hs]
      dsimp only
      rw [ih hr, List.append_assoc]

/-- Along records that offer what they offer by themselves. -/
theorem offeredAlong_eq_filterMap {e e' : Engine} {os : List Owned} {rows : List Packet}
    (hos : ∀ o ∈ os, (dissectOne o true).frag = none ∨ IsLater o)
    (h : scan (step true) e os = .ok (e', rows)) : e.offeredAlong os = os.filterMap sent := by
  induction os generalizing e rows with
  | nil => rfl
  | cons o os ih =>
      obtain ⟨e₁, row, rows₁, hs, hr, rfl⟩ := ChunkedRun.exists_of_scan_cons h
      have hoffer : e.offered o = sent o := by
        rcases hos o List.mem_cons_self with hfrag | hlater
        · exact e.offered_of_no_frag hfrag
        · rw [e.offered_of_no_range hlater.no_range, sent_of_no_range hlater.no_range]
      rw [offeredAlong, hs]
      dsimp only
      rw [ih (fun x hx => hos x (List.mem_cons_of_mem _ hx)) hr, hoffer]
      cases hsent : sent o with
      | none => rw [List.filterMap_cons_none hsent]; rfl
      | some g => rw [List.filterMap_cons_some hsent]; rfl

end Engine

/-- Leaving the later fragments out changes nothing. -/
theorem filterMap_sent_others {os : List Owned}
    (hos : ∀ o ∈ os, (dissectOne o true).frag = none ∨ IsLater o) :
    (others os).filterMap sent = os.filterMap sent := by
  induction os with
  | nil => rfl
  | cons o os ih =>
      have htail := ih fun x hx => hos x (List.mem_cons_of_mem _ hx)
      unfold others at htail ⊢
      rcases hos o List.mem_cons_self with hfrag | hlater
      · rw [List.filter_cons_of_pos (by rw [hfrag]; rfl)]
        simp only [List.filterMap_cons, htail]
      · obtain ⟨m, hm, -⟩ := id hlater
        rw [List.filter_cons_of_neg (by rw [hm]; exact Bool.false_ne_true), htail,
          List.filterMap_cons_none (sent_of_no_range hlater.no_range)]

end Offers

/-! ### A TCP packet past its IP header -/

/-- The walk over a frame gets past the IP header that says `d`, to the bytes under `c`. -/
def ReachesIp (o : Owned) (d : Datagram) (c : Cur) (s : Hdr) : Prop :=
  ∃ n, c.remaining < n ∧ frameJourney o = (afterIp d c s none).resume n

/-- The conversation of a TCP packet. -/
def tcpTuple (src dst : IpAddr) (b : Bytes) : Tuple :=
  { srcIp := src, dstIp := dst, srcPort := Transport.sportOf b, dstPort := Transport.dportOf b,
    proto := 6 }

/-- What the walk over a frame says about the TCP header in `b`. -/
structure AtTcp (o : Owned) (src dst : IpAddr) (b : Bytes) : Prop where
  ends : ∃ c, EndsAtTcp o { isTcp := true, sport := Transport.sportOf b,
                            dport := Transport.dportOf b } c
  tuple : (frameJourney o).hdr.tuple = some (tcpTuple src dst b)
  seq : (frameJourney o).hdr.transport.tcpSeq = some (Transport.seqOf b)

variable {o : Owned} {d : Datagram} {c : Cur} {s : Hdr}

/-- **The walk over a TCP packet ends at its header**, with a payload or where the header is cut
off. -/
theorem ReachesIp.journey_eq (h : ReachesIp o d c s) (hoff : d.fragOffset = 0)
    (hproto : d.proto = 6) :
    (20 ≤ c.remaining ∧ AtTcp o d.src d.dst c.rest ∨ c.remaining < 20 ∧ ¬ HandsOver o) ∧
      (frameJourney o).frag = Network.fragMeta d s c := by
  obtain ⟨n, -, hj⟩ := h
  let s' := { s with tuple := some { srcIp := d.src, dstIp := d.dst, srcPort := 0, dstPort := 0,
                                     proto := 6 } }
  have hafter : afterIp d c s none =
      (Transport.tcp d.src d.dst).taken c s' (Network.fragMeta d s c) := by
    rw [afterIp, if_neg (not_not_intro hoff), hproto, Option.or_none]
    rfl
  rw [hafter] at hj
  by_cases hlen : 20 ≤ c.remaining
  · obtain ⟨⟨c', hnext⟩, htuple, hseq⟩ := Transport.readsTcp_of_le d.src d.dst s' hlen
    have hjourney : frameJourney o =
        { stop := .ok (some ({ isTcp := true, sport := Transport.sportOf c.rest,
                               dport := Transport.dportOf c.rest }, c'))
          hdr := ((Transport.tcp d.src d.dst).run c s').2, frag := Network.fragMeta d s c } := by
      rw [hj, Taken.resume, Header.taken, hnext]
      cases n <;> rfl
    refine ⟨.inl ⟨hlen, ⟨c', ?_, rfl⟩, ?_, ?_⟩, ?_⟩
    · rw [hjourney]
    · rw [hjourney]
      exact htuple
    · rw [hjourney]
      exact hseq
    · rw [hjourney]
  · obtain ⟨e, he⟩ : ∃ e, ((Transport.tcp d.src d.dst).run c s').1 = .error e := by
      cases hrun : ((Transport.tcp d.src d.dst).run c s').1 with
      | error e => exact ⟨e, rfl⟩
      | ok r =>
          have hstart := Transport.consumes_tcp d.src d.dst hrun
          have hstop := ((Transport.tcp d.src d.dst).within hrun).stop_le
          have hsum := c.start_add_remaining
          have hsum' := r.2.start_add_remaining
          omega
    have hjourney : frameJourney o =
        { stop := .error e, hdr := ((Transport.tcp d.src d.dst).run c s').2,
          frag := Network.fragMeta d s c } := by
      rw [hj, Taken.resume, Header.taken, he]
    refine ⟨.inr ⟨Nat.lt_of_not_le hlen, ?_⟩, by rw [hjourney]⟩
    rintro ⟨p, c', hstop, -⟩
    rw [hjourney] at hstop
    cases hstop

/-- The whole header, then. -/
theorem ReachesIp.atTcp (h : ReachesIp o d c s) (hoff : d.fragOffset = 0) (hproto : d.proto = 6)
    (hlen : 20 ≤ c.remaining) : AtTcp o d.src d.dst c.rest := by
  rcases (h.journey_eq hoff hproto).1 with ⟨-, h⟩ | ⟨hlt, -⟩
  · exact h
  · omega

/-! ### A segment in fragments -/

/-- A TCP segment whose datagram is cut into `pieces`, and the frame in which it travels whole.  The
first fragment and the whole datagram are reached behind IP headers of the same addresses. -/
structure SplitSegment where
  key : FragKey
  pieces : List Bytes
  first : Owned
  whole : Owned
  /-- The IP header of the first fragment, and what stands after it. -/
  dF : Datagram
  cF : Cur
  sF : Hdr
  dW : Datagram
  cW : Cur
  sW : Hdr
  tcp : key.proto = 6
  first_reaches : ReachesIp first dF cF sF
  first_frag : Network.fragMeta dF sF cF =
    some { key, offset := 0, moreFragments := true, payload := pieces.headD [] }
  whole_reaches : ReachesIp whole dW cW sW
  whole_frag : Network.fragMeta dW sW cW = none
  whole_payload : cW.rest = pieces.flatten
  whole_header : dW.proto = key.proto ∧ dW.src = key.src ∧ dW.dst = key.dst

namespace SplitSegment

variable (r : SplitSegment)

/-- What the header of the first fragment says. -/
theorem first_header : r.dF.proto = 6 ∧ r.dF.src = r.key.src ∧ r.dF.dst = r.key.dst ∧
    r.dF.fragOffset = 0 ∧ r.cF.rest = r.pieces.headD [] := by
  have h := r.first_frag
  unfold Network.fragMeta at h
  dsimp only at h
  split at h
  · simp only [Option.some.injEq, FragMeta.mk.injEq] at h
    obtain ⟨hkey, hoff, -, hrest⟩ := h
    refine ⟨?_, ?_, ?_, hoff, hrest⟩
    · rw [← r.tcp, ← hkey]
    · rw [← hkey]
    · rw [← hkey]
  · cases h

theorem whole_offset : r.dW.fragOffset = 0 := by
  by_contra hne
  have hnone := r.whole_frag
  unfold Network.fragMeta at hnone
  dsimp only at hnone
  rw [if_pos (.inr hne)] at hnone
  cases hnone

/-- The first piece is how the datagram starts. -/
theorem head_prefix_flatten : r.pieces.headD [] <+: r.pieces.flatten := by
  cases r.pieces with
  | nil => exact List.prefix_refl _
  | cons p ps => exact List.prefix_append _ _

/-- What a first fragment with a whole header says, the whole segment says too. -/
theorem atTcp_of_le (h : 20 ≤ (r.pieces.headD []).length) :
    AtTcp r.first r.key.src r.key.dst r.pieces.flatten ∧
      AtTcp r.whole r.key.src r.key.dst r.pieces.flatten := by
  obtain ⟨hproto, hsrc, hdst, hoff, hrest⟩ := r.first_header
  obtain ⟨hprotoW, hsrcW, hdstW⟩ := r.whole_header
  have hpre := r.head_prefix_flatten
  have hle := hpre.length_le
  have hports : Transport.sportOf (r.pieces.headD []) = Transport.sportOf r.pieces.flatten ∧
      Transport.dportOf (r.pieces.headD []) = Transport.dportOf r.pieces.flatten ∧
      Transport.seqOf (r.pieces.headD []) = Transport.seqOf r.pieces.flatten := by
    refine ⟨?_, ?_, ?_⟩
    · rw [Transport.sportOf, Transport.field_of_prefix hpre (by omega), Transport.sportOf]
    · rw [Transport.dportOf, Transport.field_of_prefix hpre (by omega), Transport.dportOf]
    · rw [Transport.seqOf, Transport.field_of_prefix hpre (by omega), Transport.seqOf]
  have hfirst := r.first_reaches.atTcp hoff hproto (by rwa [← Cur.length_rest, hrest])
  rw [hsrc, hdst, hrest] at hfirst
  have hwhole := r.whole_reaches.atTcp r.whole_offset (hprotoW.trans r.tcp) (by
    rw [← Cur.length_rest, r.whole_payload]
    omega)
  rw [hsrcW, hdstW, r.whole_payload] at hwhole
  refine ⟨⟨?_, ?_, ?_⟩, hwhole⟩
  · rw [← hports.1, ← hports.2.1]
    exact hfirst.ends
  · rw [hfirst.tuple, tcpTuple, tcpTuple, hports.1, hports.2.1]
  · rw [hfirst.seq, hports.2.2]

end SplitSegment

section Split

variable [Hashes]

theorem AtTcp.summary {src dst : IpAddr} {b : Bytes} (h : AtTcp o src dst b) :
    (dissectOne o true).tuple = some (tcpTuple src dst b) ∧
      (dissectOne o true).pkt.transport.tcpSeq = some (Transport.seqOf b) ∧
      (dissectOne o true).frag = (frameJourney o).frag := by
  obtain ⟨c, hc⟩ := h.ends
  rw [dissectOne_of_deferred hc]
  exact ⟨h.tuple, h.seq, rfl⟩

/-- What a TCP packet offers. -/
theorem AtTcp.sent_eq {src dst : IpAddr} {b : Bytes} (h : AtTcp o src dst b) :
    sent o = (Engine.segmentOf o (dissectOne o true).tcpPayload).map fun payload =>
      { key := Engine.streamKey (tcpTuple src dst b), seq := Transport.seqOf b, payload } := by
  obtain ⟨htuple, hseq, -⟩ := h.summary
  unfold sent
  dsimp only
  rw [htuple, hseq]
  cases Engine.segmentOf o (dissectOne o true).tcpPayload <;> rfl

/-- Dissecting a payload leaves the transport columns alone. -/
theorem arrive_transport {ctx ctx' : Ctx} {stop : Except DissectError (Option (Payload × Cur))}
    {r : Except DissectError Unit} (h : ctx.arrive stop = .ok (r, ctx')) :
    ctx'.pkt.transport = ctx.pkt.transport := by
  rcases stop with e | _ | ⟨p, c⟩
  · cases h
    rfl
  · cases h
    rfl
  · obtain ⟨ctx₁, h₁, he⟩ := map_eq_ok_iff.mp h
    cases he
    unfold Ctx.payload at h₁
    dsimp only at h₁
    split at h₁
    · cases h₁
      rfl
    · rw [(dispatch_ok h₁).1]

/-- A datagram with a whole TCP header in it gives the packet that completed it its sequence
number. -/
theorem redissectDatagram_seq {key : FragKey} {data : Bytes} {pkt pkt' : Packet} {t : Option Tuple}
    (htcp : key.proto = 6) (hlen : 20 ≤ data.length)
    (h : Engine.redissectDatagram key data pkt = .ok (t, pkt')) :
    pkt'.transport.tcpSeq = some (Transport.seqOf data) := by
  obtain ⟨⟨r, ctx⟩, hwalk, he⟩ := bind_eq_ok_iff.mp h
  cases he
  change ctx.pkt.transport.tcpSeq = _
  have hkeep := arrive_transport hwalk
  rw [hkeep]
  change (journey (Network.dispatchIpProto key.proto key.src key.dst) (Cur.new data)
    ({ pkt : Ctx } : Ctx).hdr).hdr.transport.tcpSeq = _
  rw [htcp]
  obtain ⟨⟨c', hnext⟩, -, hseq⟩ := Transport.readsTcp_of_le (c := Cur.new data) key.src key.dst
    { ({ pkt : Ctx } : Ctx).hdr with
      tuple := some { srcIp := key.src, dstIp := key.dst, srcPort := 0, dstPort := 0, proto := 6 } }
    hlen
  have hrun : (Network.dispatchIpProto 6 key.src key.dst).run (Cur.new data)
      ({ pkt : Ctx } : Ctx).hdr = (.ok _, _) := Prod.ext hnext rfl
  rw [journey, hrun]
  exact hseq

namespace SplitSegment

variable (r : SplitSegment)

/-- A first fragment in which the header is cut off offers nothing. -/
theorem no_range_of_lt (h : (r.pieces.headD []).length < 20) :
    (dissectOne r.first true).tcpPayload = none := by
  obtain ⟨hproto, -, -, hoff, hrest⟩ := r.first_header
  rcases (r.first_reaches.journey_eq hoff hproto).1 with ⟨hle, -⟩ | ⟨-, hnot⟩
  · rw [← Cur.length_rest, hrest] at hle
    omega
  · exact (dissectOne_of_not_handsOver hnot).2.1

/-- The fragment that the first pass records. -/
theorem dissectOne_first : (dissectOne r.first true).frag =
    some { key := r.key, offset := 0, moreFragments := true, payload := r.pieces.headD [] } := by
  obtain ⟨hproto, -, -, hoff, hrest⟩ := r.first_header
  have hfrag := (r.first_reaches.journey_eq hoff hproto).2
  rw [r.first_frag] at hfrag
  rw [← hfrag]
  rcases (r.first_reaches.journey_eq hoff hproto).1 with ⟨-, hat⟩ | ⟨-, hnot⟩
  · exact hat.summary.2.2
  · exact (dissectOne_of_not_handsOver hnot).2.2

/-- **What the first fragment offers, whether or not it completes the datagram.** -/
theorem offered_first {e e' : Engine} {row : Packet}
    (hstep : Engine.step true e r.first = .ok (e', row))
    (hpush : ∀ data, (e.frags.push r.key 0 true (r.pieces.headD [])).1 = some data →
      data = r.pieces.flatten) : e.offered r.first = sent r.first := by
  by_cases hlen : 20 ≤ (r.pieces.headD []).length
  · obtain ⟨htuple, hseq, -⟩ := (r.atTcp_of_le hlen).1.summary
    obtain ⟨⟨frags, fragTuple, pkt⟩, hpass, -⟩ := bind_eq_ok_iff.mp hstep
    -- a completed datagram says the same of the sequence number
    have hpkt : pkt.transport.tcpSeq = some (Transport.seqOf r.pieces.flatten) := by
      rw [r.dissectOne_first] at hpass
      cases hre : e.reassemble with
      | false =>
          rw [hre] at hpass
          cases hpass
          exact hseq
      | true =>
          rw [hre, if_pos rfl] at hpass
          unfold Engine.fragmentPass at hpass
          dsimp only at hpass
          split at hpass
          · cases hpass
            exact hseq
          · next data frags' hp =>
              obtain ⟨⟨t, pkt'⟩, hredissect, he⟩ := map_eq_ok_iff.mp hpass
              cases he
              obtain rfl := hpush data (by rw [hp])
              refine redissectDatagram_seq r.tcp ?_ hredissect
              exact hlen.trans r.head_prefix_flatten.length_le
    unfold Engine.offered sent
    dsimp only
    rw [hpass]
    dsimp only
    rw [htuple, Option.some_or]
    cases Engine.segmentOf r.first (dissectOne r.first true).tcpPayload with
    | none => rfl
    | some payload =>
        dsimp only
        rw [hpkt, hseq]
  · rw [e.offered_of_no_range (r.no_range_of_lt (by omega)),
      sent_of_no_range (r.no_range_of_lt (by omega))]

end SplitSegment

/-! ### The two runs -/

/-- **A run in which the fragments of a segment arrive**, and one in which the segment arrives whole.
The first fragment comes between the records `earlier` and `between`; the other fragments are among
these, in any order, and with them the datagram is complete.  Between them come any other packets,
but no fragment of another datagram.  In the other run the whole segment arrives then, and no fragment
before. -/
structure SplitRun (cfg : Config) extends SplitSegment where
  earlier : List Owned
  between : List Owned
  later : List Owned
  reassemble : cfg.reassemble = true
  two_le : 2 ≤ pieces.length
  nonempty : ∀ p ∈ pieces, p ≠ []
  offsets : ∀ k < pieces.length, Pieces.offset pieces k < 2 ^ 16
  budget : pieces.flatten.length ≤ cfg.maxFragBytes
  arrive : ∃ order : List ℕ, order.Perm (List.range pieces.length) ∧
    arrivals (earlier ++ first :: between) = order.map (FragTable.fragmentAt key pieces)
  admitted : (Engine.new cfg).frags.NeverRefused key (arrivals (earlier ++ first :: between))
  later_whole : ∀ o ∈ later, (dissectOne o true).frag = none
  /-- The engine after the fragments and the later records. -/
  engine : Engine
  rows : List Packet
  ran : scan (Engine.step true) (Engine.new cfg) (earlier ++ first :: between ++ later) =
    .ok (engine, rows)
  /-- The engine after the whole segment and the later records. -/
  engineW : Engine
  rowsW : List Packet
  ranW : scan (Engine.step true) (Engine.new cfg)
    (others earlier ++ others between ++ whole :: later) = .ok (engineW, rowsW)

namespace SplitRun

variable {cfg : Config} (r : SplitRun cfg)

/-- The stream table when the first fragment arrives. -/
def streamsBefore : StreamTable StreamKey :=
  (Engine.new cfg).streams.run (r.earlier.filterMap sent)

/-- The direction goes on in the first run as it does in the second one: the buffers are the same,
and so is what is dissected for any segment that comes next. -/
def SameStream (key : StreamKey) : Prop :=
  (r.engine.streams.entry key).buf = (r.engineW.streams.entry key).buf ∧
    ∀ g : Segment StreamKey, g.key = key → r.engine.dissectedData g = r.engineW.dissectedData g

/-- **What is missing makes no difference.**  Neither the part of the segment in the first fragment
nor the whole segment brings anything new to the stream; or the part in the first fragment fills the
buffer to the cap, and no other segment comes before the datagram is complete. -/
def NothingLost : Prop :=
  ((∀ g, sent r.first = some g → r.streamsBefore.Superfluous g) ∧
    ∀ g, sent r.whole = some g → r.streamsBefore.Superfluous g) ∨
  ∃ g₀ g, sent r.first = some g₀ ∧ sent r.whole = some g ∧ r.streamsBefore.FillsCap g₀ g ∧
    r.between.filterMap sent = []

/-- The first fragment as the fragment table gets it. -/
def firstPiece : Fragment FragKey :=
  { key := r.key, offset := 0, moreFragments := true, data := r.pieces.headD [] }

theorem arrivals_eq : arrivals (r.earlier ++ r.first :: r.between) =
    arrivals r.earlier ++ r.firstPiece :: arrivals r.between := by
  rw [arrivals, List.filterMap_append, List.filterMap_cons_some (b := r.firstPiece) (by
    rw [r.dissectOne_first]
    rfl)]
  rfl

theorem frags_new (cfg : Config) :
    r.key ∉ (Engine.new cfg).frags.sets ∧ (Engine.new cfg).frags.maxBytes = cfg.maxFragBytes :=
  ⟨AList.notMem_empty _, rfl⟩

/-- A piece other than the first does not start at zero. -/
theorem offset_ne_zero {k : ℕ} (hk : k < r.pieces.length) (h : k ≠ 0) :
    (FragTable.fragmentAt r.key r.pieces k).offset ≠ 0 := by
  intro hzero
  have hnat := congrArg UInt16.toNat hzero
  rw [show (FragTable.fragmentAt r.key r.pieces k).offset = (FragSet.fragAt r.pieces k).1 from rfl,
    FragSet.toNat_fragAt r.offsets hk] at hnat
  exact h (Pieces.offset_inj r.nonempty hk.le (Nat.zero_le _)
    (hnat.trans (Pieces.offset_zero _).symm))

/-- The other fragments are later ones. -/
theorem other_fragments : ∀ o ∈ r.earlier ++ r.between,
    (dissectOne o true).frag = none ∨ IsLater o := by
  obtain ⟨order, horder, harrive⟩ := r.arrive
  have hlt : ∀ k ∈ order, k < r.pieces.length := fun k hk =>
    List.mem_range.mp (horder.mem_iff.mp hk)
  have hnodup : order.Nodup := horder.nodup_iff.mpr List.nodup_range
  rw [r.arrivals_eq] at harrive
  obtain ⟨ks, rest, rfl, hks, hrest⟩ := List.map_eq_append_iff.mp harrive.symm
  obtain ⟨k, ks', rfl, hk, hks'⟩ := List.map_eq_cons_iff.mp hrest
  have hzero : k = 0 := by
    by_contra hne
    exact r.offset_ne_zero (hlt k (by simp)) hne (congrArg Fragment.offset hk)
  subst hzero
  have hothers : ∀ j ∈ ks ++ ks', j ≠ 0 := by
    intro j hj hj0
    subst hj0
    rw [List.nodup_append, List.nodup_cons] at hnodup
    rcases List.mem_append.mp hj with hj | hj
    · exact hnodup.2.2 0 hj 0 List.mem_cons_self rfl
    · exact hnodup.2.1.1 hj
  intro o ho
  cases hm : (dissectOne o true).frag with
  | none => exact .inl rfl
  | some m =>
      have hmem : m.fragment ∈ (ks ++ ks').map (FragTable.fragmentAt r.key r.pieces) := by
        rw [List.map_append, hks, hks']
        rw [arrivals, arrivals, ← List.filterMap_append]
        exact List.mem_filterMap.mpr ⟨o, ho, by rw [hm]; rfl⟩
      obtain ⟨j, hj, hjm⟩ := List.mem_map.mp hmem
      have hjlt : j < r.pieces.length := by
        refine hlt j ?_
        rcases List.mem_append.mp hj with hj | hj
        · exact List.mem_append_left _ hj
        · exact List.mem_append_right _ (List.mem_cons_of_mem _ hj)
      refine .inr ⟨m, hm, ?_⟩
      have hoff : m.offset = (FragTable.fragmentAt r.key r.pieces j).offset :=
        (congrArg Fragment.offset hjm).symm
      rw [hoff]
      exact r.offset_ne_zero hjlt (hothers j hj)

/-- What the fragment table says when the first fragment arrives. -/
theorem push_first {e : Engine} {rows : List Packet}
    (h : scan (Engine.step true) (Engine.new cfg) r.earlier = .ok (e, rows)) (data : Bytes)
    (hdata : (e.frags.push r.key 0 true (r.pieces.headD [])).1 = some data) :
    data = r.pieces.flatten := by
  obtain ⟨order, horder, harrive⟩ := r.arrive
  obtain ⟨habsent, hmax⟩ := r.frags_new cfg
  have hof : FragTable.fragmentsOf r.key (arrivals (r.earlier ++ r.first :: r.between)) =
      order.map (FragTable.fragmentAt r.key r.pieces) := by
    rw [harrive, FragTable.fragmentsOf]
    refine List.filter_eq_self.mpr fun g hg => ?_
    obtain ⟨k, -, rfl⟩ := List.mem_map.mp hg
    simp [FragTable.fragmentAt]
  have hpush := FragTable.pushFragment_arrival habsent r.two_le r.nonempty r.offsets
    (hmax ▸ r.budget) horder hof r.admitted r.arrivals_eq rfl
  rw [scan_frags r.reassemble h] at hdata
  have heq := hdata.symm.trans hpush
  split at heq
  · exact Option.some.inj heq
  · cases heq

theorem whole_frag_none : (dissectOne r.whole true).frag = none := by
  have hfrag := (r.whole_reaches.journey_eq r.whole_offset (r.whole_header.1.trans r.tcp)).2
  rw [r.whole_frag] at hfrag
  cases hm : (dissectOne r.whole true).frag with
  | none => rfl
  | some m =>
      rw [dissectOne_frag r.whole true hm] at hfrag
      cases hfrag

/-- **The stream table after the fragments.** -/
theorem streams_fragments : r.engine.streams = (Engine.new cfg).streams.run
    (r.earlier.filterMap sent ++ ((sent r.first).toList ++ r.between.filterMap sent) ++
      r.later.filterMap sent) := by
  have hothers := r.other_fragments
  obtain ⟨e₂, rows₂, rows₃, h₂, hlater, -⟩ := ChunkedRun.exists_of_scan_append r.ran
  obtain ⟨e₁, rows₁, rows₁', h₁, hfirst, -⟩ := ChunkedRun.exists_of_scan_append h₂
  obtain ⟨e₁', row, rows', hstep, hq, -⟩ := ChunkedRun.exists_of_scan_cons hfirst
  have hoffer : e₁.offered r.first = sent r.first := r.offered_first hstep (r.push_first h₁)
  rw [Engine.scan_streams r.ran, Engine.offeredAlong_append h₂, Engine.offeredAlong_append h₁,
    Engine.offeredAlong_eq_filterMap (fun o ho => hothers o (List.mem_append_left _ ho)) h₁,
    Engine.offeredAlong_eq_filterMap (fun o ho => .inl (r.later_whole o ho)) hlater,
    Engine.offeredAlong, hstep, hoffer]
  dsimp only
  rw [Engine.offeredAlong_eq_filterMap (fun o ho => hothers o (List.mem_append_right _ ho)) hq]

/-- **The stream table after the whole segment.** -/
theorem streams_whole : r.engineW.streams = (Engine.new cfg).streams.run
    (r.earlier.filterMap sent ++ r.between.filterMap sent ++
      ((sent r.whole).toList ++ r.later.filterMap sent)) := by
  have hothers := r.other_fragments
  have hnone : ∀ o ∈ others r.earlier ++ others r.between ++ r.whole :: r.later,
      (dissectOne o true).frag = none ∨ IsLater o := by
    intro o ho
    rcases List.mem_append.mp ho with ho | ho
    · rw [others, others, ← List.filter_append] at ho
      exact hothers o (List.mem_of_mem_filter ho)
    · rcases List.mem_cons.mp ho with rfl | ho
      · exact .inl r.whole_frag_none
      · exact .inl (r.later_whole o ho)
  rw [Engine.scan_streams r.ranW, Engine.offeredAlong_eq_filterMap hnone r.ranW,
    List.filterMap_append, List.filterMap_append,
    filterMap_sent_others fun o ho => hothers o (List.mem_append_left _ ho),
    filterMap_sent_others fun o ho => hothers o (List.mem_append_right _ ho)]
  cases hsent : sent r.whole with
  | none => rw [List.filterMap_cons_none hsent]; rfl
  | some g => rw [List.filterMap_cons_some hsent]; rfl

/-- Both frames offer segments of the same direction. -/
theorem sent_key {t : Tuple} (ht : (frameJourney r.whole).hdr.tuple = some t)
    {g : Segment StreamKey} (hg : sent r.first = some g ∨ sent r.whole = some g) :
    g.key = Engine.streamKey t := by
  have hkey : ∀ {o : Owned} {src dst : IpAddr} {b : Bytes}, AtTcp o src dst b →
      sent o = some g → g.key = Engine.streamKey (tcpTuple src dst b) := by
    intro o src dst b hat hsent
    rw [hat.sent_eq] at hsent
    obtain ⟨payload, -, rfl⟩ := Option.map_eq_some_iff.mp hsent
    rfl
  have hwhole := (r.whole_reaches.journey_eq r.whole_offset (r.whole_header.1.trans r.tcp)).1
  rcases hg with hg | hg
  · by_cases hlen : 20 ≤ (r.pieces.headD []).length
    · obtain ⟨hfirst, hwhole⟩ := r.atTcp_of_le hlen
      rw [hkey hfirst hg, ← Option.some.inj (hwhole.tuple.symm.trans ht)]
    · rw [sent_of_no_range (r.no_range_of_lt (by omega))] at hg
      cases hg
  · rcases hwhole with ⟨-, hat⟩ | ⟨-, hnot⟩
    · rw [hkey hat hg, ← Option.some.inj (hat.tuple.symm.trans ht)]
    · rw [sent_of_no_range (dissectOne_of_not_handsOver hnot).2.1] at hg
      cases hg

/-- The two stream tables, when nothing is lost. -/
theorem alike_of_nothingLost {t : Tuple} (ht : (frameJourney r.whole).hdr.tuple = some t)
    (h : r.NothingLost) :
    r.engine.streams.Alike (Engine.streamKey t) r.engineW.streams := by
  have hnew : (Engine.new cfg).streams = .new cfg.maxStreams cfg.maxStreamBytes := rfl
  rw [r.streams_fragments, r.streams_whole, hnew]
  rcases h with ⟨hfirst, hwhole⟩ | ⟨g₀, g, hg₀, hg, hfills, hbetween⟩
  · -- either segment can be left out
    refine StreamTable.Alike.trans (?_ : StreamTable.Alike _ _
      ((StreamTable.new cfg.maxStreams cfg.maxStreamBytes).run (r.earlier.filterMap sent ++
        r.between.filterMap sent ++ r.later.filterMap sent))) (StreamTable.Alike.symm ?_)
    · cases hg : sent r.first with
      | none => exact .refl _ _
      | some g =>
          rw [← r.sent_key ht (.inl hg)]
          have hout := StreamTable.alike_run_without cfg.maxStreams cfg.maxStreamBytes
            (hfirst g hg) (r.between.filterMap sent ++ r.later.filterMap sent)
          simpa only [List.append_assoc, Option.toList_some, List.cons_append, List.nil_append]
            using hout
    · cases hg : sent r.whole with
      | none => exact .refl _ _
      | some g =>
          rw [← r.sent_key ht (.inr hg)]
          exact StreamTable.alike_run_without cfg.maxStreams cfg.maxStreamBytes
            (StreamTable.Superfluous.run cfg.maxStreams cfg.maxStreamBytes (hwhole g hg) _) _
  · rw [hg₀, hg, hbetween, ← r.sent_key ht (.inr hg)]
    have hpush := StreamTable.alike_push_of_fillsCap cfg.maxStreams cfg.maxStreamBytes hfills
    have hrun := hpush.run cfg.maxStreams cfg.maxStreamBytes (r.later.filterMap sent)
    simpa only [List.append_assoc, Option.toList_some, List.cons_append, List.nil_append,
      List.append_nil] using hrun

/-- **The direction goes on as if the segment had arrived whole, when nothing of it is lost.**  This
holds when the datagram is complete and after any later records. -/
theorem sameStream_of_nothingLost {cfg : Config} (r : SplitRun cfg) (t : Tuple)
    (ht : (frameJourney r.whole).hdr.tuple = some t) (h : r.NothingLost) :
    r.SameStream (Engine.streamKey t) := by
  have halike := r.alike_of_nothingLost ht h
  refine ⟨halike.entry.buf, fun g hg => ?_⟩
  rw [← hg] at halike
  refine Engine.dissectedData_of_alike halike ?_
  rw [r.streams_fragments, StreamTable.run_maxBytes]
  exact StreamTable.length_entry_run_le _ _ _ _

end SplitRun

end Split

/-! ### A segment in two fragments -/

/-- A TCP header to port 4444 and the first four bytes of a segment. -/
def dataHead : Bytes :=
  [0x13, 0x88, 0x11, 0x5c, 0, 0, 3, 232, 0, 0, 0, 0, 0x50, 0x18, 0x20, 0, 0, 0, 0, 0] ++
    Text.ascii "ABCD"

def dataTail : Bytes := Text.ascii "EF"

def dataFirst : Owned :=
  { capLen := 58, origLen := 58, linktype := 1, data := synPart 0x20 0 dataHead,
    data_le := by decide }

def dataSecond : Owned :=
  { capLen := 36, origLen := 36, linktype := 1, data := synPart 0 3 dataTail, data_le := by decide }

/-- The segment in one piece. -/
def dataWhole : Owned :=
  { capLen := 60, origLen := 60, linktype := 1, data := synPart 0 0 (dataHead ++ dataTail),
    data_le := by decide }

def dataTuple : Tuple := { synTuple with dstPort := 4444 }

theorem reachesIp_dataFirst : ReachesIp dataFirst (synDatagram 0) (synCur dataFirst 34 (by decide))
    (synHdr dataFirst (by decide)) := ⟨57, by decide, rfl⟩

theorem reachesIp_dataWhole : ReachesIp dataWhole (synDatagram 0) (synCur dataWhole 34 (by decide))
    (synHdr dataWhole (by decide)) := ⟨59, by decide, rfl⟩

/-- Six bytes of data, the last two of them in the second fragment. -/
def splitData : SplitSegment where
  key := synKey
  pieces := [dataHead, dataTail]
  first := dataFirst
  whole := dataWhole
  dF := synDatagram 0
  cF := synCur dataFirst 34 (by decide)
  sF := synHdr dataFirst (by decide)
  dW := synDatagram 0
  cW := synCur dataWhole 34 (by decide)
  sW := synHdr dataWhole (by decide)
  tcp := rfl
  first_reaches := reachesIp_dataFirst
  first_frag := rfl
  whole_reaches := reachesIp_dataWhole
  whole_frag := rfl
  whole_payload := rfl
  whole_header := ⟨rfl, rfl, rfl⟩

section Frames

variable [Hashes]

/-- Nothing is made of the data on this port. -/
theorem dissectStream_data {pkt : Packet} {seg : Reassembled}
    (hports : pkt.transport.srcPort = some 5000 ∧ pkt.transport.dstPort = some 4444)
    (hseg : seg.data = Text.ascii "ABCD" ∨ seg.data = Text.ascii "ABCDEF") :
    ∃ pkt', Engine.dissectStream pkt seg = .ok pkt' := by
  rw [Engine.dissectStream]
  dsimp only
  rw [hports.1, hports.2]
  rcases hseg with hseg | hseg
  · rw [hseg]
    exact ⟨_, rfl⟩
  · rw [hseg]
    exact ⟨_, rfl⟩

variable {cfg : Config}

/-- The first fragment passes, and completes nothing. -/
theorem step_dataFirst (hcfg : cfg = {} ∨ cfg = { maxStreamBytes := 4 }) :
    ∃ e row, Engine.step true (Engine.new cfg) dataFirst = .ok (e, row) := by
  have htuple : (dissectOne dataFirst true).tuple = some dataTuple := rfl
  have hseg : Engine.segmentOf dataFirst (dissectOne dataFirst true).tcpPayload =
      some (Text.ascii "ABCD") := rfl
  have hfrag : (dissectOne dataFirst true).frag =
      some { key := synKey, offset := 0, moreFragments := true, payload := dataHead } := rfl
  have hreassemble : (Engine.new cfg).reassemble = true := by rcases hcfg with rfl | rfl <;> rfl
  let pkt := (Engine.new cfg).numbered (dissectOne dataFirst true).pkt
  have hpass : ∃ frags, Engine.fragmentPass (Engine.new cfg).frags
      (if (Engine.new cfg).reassemble then (dissectOne dataFirst true).frag else none) pkt =
        .ok (frags, none, pkt) := by
    refine fragmentPass_of_incomplete pkt fun m hm => ?_
    rw [if_pos hreassemble, hfrag] at hm
    cases hm
    rcases hcfg with rfl | rfl <;> rfl
  obtain ⟨frags, hpass⟩ := hpass
  have hseq : pkt.transport.tcpSeq = some 1000 := rfl
  have hdata : (Engine.reassembled (Engine.new cfg).streams dataTuple pkt
      (Text.ascii "ABCD")).1.data = Text.ascii "ABCD" := by
    rw [Engine.reassembled, hseq]
    rcases hcfg with rfl | rfl <;> rfl
  have hports : pkt.transport.srcPort = some 5000 ∧ pkt.transport.dstPort = some 4444 := ⟨rfl, rfl⟩
  obtain ⟨pkt', hpkt'⟩ := dissectStream_data hports (.inl hdata)
  have hstream : ∀ t, (dissectOne dataFirst true).tuple.or none = some t → ∃ streams,
      Engine.reassembleAndDispatch (Engine.new cfg).streams t pkt dataFirst
        (dissectOne dataFirst true).tcpPayload = .ok (streams, pkt') := by
    intro t ht
    rw [htuple] at ht
    cases ht
    rw [Engine.reassembleAndDispatch, hseg]
    dsimp only
    rw [hpkt']
    exact ⟨_, rfl⟩
  obtain ⟨e, row, hstep, -⟩ := absorbOne_of_passes hpass hstream fun h => by rw [htuple] at h; cases h
  exact ⟨e, row, hstep⟩

/-- The second fragment completes the datagram. -/
theorem scan_dataParts (hcfg : cfg = {} ∨ cfg = { maxStreamBytes := 4 }) :
    ∃ e rows, scan (Engine.step true) (Engine.new cfg) [dataFirst, dataSecond] = .ok (e, rows) := by
  obtain ⟨e₁, row₁, h₁⟩ := step_dataFirst hcfg
  have hreassemble : cfg.reassemble = true := by rcases hcfg with rfl | rfl <;> rfl
  have hscan : scan (Engine.step true) (Engine.new cfg) [dataFirst] = .ok (e₁, [row₁]) := by
    rw [ChunkedRun.scan_cons_of_ok h₁]
    rfl
  let m : FragMeta := { key := synKey, offset := 24, moreFragments := false, payload := dataTail }
  have hbare : BareFragment dataSecond m (synHdr dataSecond (by decide)) := rfl
  have hfrags : e₁.frags = (Engine.new cfg).frags.run (arrivals [dataFirst]) :=
    scan_frags hreassemble hscan
  have hpush : (e₁.frags.pushFragment m.fragment).1 = some (dataHead ++ dataTail) := by
    rw [hfrags]
    rcases hcfg with rfl | rfl <;> rfl
  obtain ⟨r, hread⟩ : ∃ r, reading (outlook (datagramJourney synKey (dataHead ++ dataTail)
      (bareHdr (synHdr dataSecond (by decide)))).stop) = .ok r := ⟨_, rfl⟩
  obtain ⟨e₂, row₂, h₂, -⟩ := hbare.step_completing (scan_reassemble hreassemble hscan) (by decide)
    rfl hpush rfl (by decide) hread (t := dataTuple) rfl
  refine ⟨e₂, [row₁, row₂], ?_⟩
  rw [ChunkedRun.scan_cons_of_ok h₁, ChunkedRun.scan_cons_of_ok h₂]
  rfl

theorem scan_dataWhole (hcfg : cfg = {} ∨ cfg = { maxStreamBytes := 4 }) :
    ∃ e rows, scan (Engine.step true) (Engine.new cfg) [dataWhole] = .ok (e, rows) := by
  have hseg : Engine.segmentOf dataWhole (dissectOne dataWhole true).tcpPayload =
      some (Text.ascii "ABCDEF") := rfl
  have hseq : ((Engine.new cfg).numbered (dissectOne dataWhole true).pkt).transport.tcpSeq =
      some 1000 := rfl
  have hwhole : (dissectOne dataWhole true).frag = none := rfl
  obtain ⟨e, row, h⟩ := Engine.step_of_whole (e := Engine.new cfg) (o := dataWhole) (t := dataTuple)
    hwhole rfl fun payload hp => by
      rw [hseg] at hp
      cases hp
      refine dissectStream_data ⟨rfl, rfl⟩ ?_
      rw [Engine.reassembled, hseq]
      rcases hcfg with rfl | rfl
      · exact .inr rfl
      · exact .inl rfl
  refine ⟨e, [row], ?_⟩
  rw [ChunkedRun.scan_cons_of_ok h]
  rfl

/-- What the three frames offer to the stream table. -/
theorem sent_data :
    sent dataFirst = some ⟨Engine.streamKey dataTuple, 1000, Text.ascii "ABCD"⟩ ∧
      sent dataSecond = none ∧
      sent dataWhole = some ⟨Engine.streamKey dataTuple, 1000, Text.ascii "ABCDEF"⟩ :=
  ⟨rfl, rfl, rfl⟩

end Frames

/-- The first segment of a connection, in two fragments, and a buffer of four bytes: the part in the
first fragment fills it. -/
theorem sameStream_full : (frameJourney dataWhole).hdr.tuple = some dataTuple ∧
    ∀ _ : Hashes, ∃ r : SplitRun { maxStreamBytes := 4 }, r.toSplitSegment = splitData ∧
      r.earlier = [] ∧ r.between = [dataSecond] ∧ r.later = [] ∧
      (r.engine.streams.entry (Engine.streamKey dataTuple)).buf = Text.ascii "ABCD" ∧
      r.SameStream (Engine.streamKey dataTuple) := by
  have ht : (frameJourney dataWhole).hdr.tuple = some dataTuple := rfl
  refine ⟨ht, fun _ => ?_⟩
  obtain ⟨e, rows, hran⟩ := scan_dataParts (.inr rfl)
  obtain ⟨eW, rowsW, hranW⟩ := scan_dataWhole (.inr rfl)
  let r : SplitRun { maxStreamBytes := 4 } :=
    { splitData with
      earlier := [], between := [dataSecond], later := []
      reassemble := rfl, two_le := by decide, nonempty := by decide, offsets := by decide
      budget := by decide, arrive := ⟨[0, 1], .refl _, rfl⟩
      admitted := FragTable.neverRefused_of_length_le (by
        change 0 + 2 ≤ 2 ^ 16
        decide)
      later_whole := by simp
      engine := e, rows, ran := hran, engineW := eW, rowsW, ranW := hranW }
  have hfirst : r.first = dataFirst := rfl
  have hwhole : r.whole = dataWhole := rfl
  have hbuf : (r.engine.streams.entry (Engine.streamKey dataTuple)).buf = Text.ascii "ABCD" := by
    rw [r.streams_fragments]
    change (((Engine.new { maxStreamBytes := 4 }).streams.run
      ([] ++ ((sent dataFirst).toList ++ [dataSecond].filterMap sent) ++ [])).entry _).buf = _
    rw [sent_data.1, List.filterMap_cons_none sent_data.2.1]
    rfl
  have hfull : (Engine.new { maxStreamBytes := 4 }).streams.FillsCap
      ⟨Engine.streamKey dataTuple, 1000, Text.ascii "ABCD"⟩
      ⟨Engine.streamKey dataTuple, 1000, Text.ascii "ABCDEF"⟩ :=
    { key := rfl, seq := rfl, nonempty := by decide, payload := by decide, flush := by decide
      reach := by decide }
  refine ⟨r, rfl, rfl, rfl, rfl, hbuf, r.sameStream_of_nothingLost dataTuple (hwhole ▸ ht)
    (.inr ⟨_, _, hfirst ▸ sent_data.1, hwhole ▸ sent_data.2.2, hfull, ?_⟩)⟩
  change [dataSecond].filterMap sent = []
  exact List.filterMap_cons_none sent_data.2.1

/-- The first segment of a connection, in two fragments: the stream gets the part in the first
fragment only. -/
theorem rest_of_segment_lost : (frameJourney dataWhole).hdr.tuple = some dataTuple ∧
    ∀ _ : Hashes, ∃ r : SplitRun {}, r.toSplitSegment = splitData ∧ r.earlier = [] ∧
      r.between = [dataSecond] ∧ r.later = [] ∧
      (r.engine.streams.entry (Engine.streamKey dataTuple)).buf = Text.ascii "ABCD" ∧
      (r.engineW.streams.entry (Engine.streamKey dataTuple)).buf = Text.ascii "ABCDEF" ∧
      ¬ r.SameStream (Engine.streamKey dataTuple) := by
  refine ⟨rfl, fun _ => ?_⟩
  obtain ⟨e, rows, hran⟩ := scan_dataParts (.inl rfl)
  obtain ⟨eW, rowsW, hranW⟩ := scan_dataWhole (.inl rfl)
  let r : SplitRun {} :=
    { splitData with
      earlier := [], between := [dataSecond], later := []
      reassemble := rfl, two_le := by decide, nonempty := by decide, offsets := by decide
      budget := by decide, arrive := ⟨[0, 1], .refl _, rfl⟩
      admitted := FragTable.neverRefused_of_length_le (by
        change 0 + 2 ≤ 2 ^ 16
        decide)
      later_whole := by simp
      engine := e, rows, ran := hran, engineW := eW, rowsW, ranW := hranW }
  have hbuf : (r.engine.streams.entry (Engine.streamKey dataTuple)).buf = Text.ascii "ABCD" := by
    rw [r.streams_fragments]
    change (((Engine.new {}).streams.run
      ([] ++ ((sent dataFirst).toList ++ [dataSecond].filterMap sent) ++ [])).entry _).buf = _
    rw [sent_data.1, List.filterMap_cons_none sent_data.2.1]
    rfl
  have hbufW : (r.engineW.streams.entry (Engine.streamKey dataTuple)).buf =
      Text.ascii "ABCDEF" := by
    rw [r.streams_whole]
    change (((Engine.new {}).streams.run
      ([] ++ [dataSecond].filterMap sent ++ ((sent dataWhole).toList ++ []))).entry _).buf = _
    rw [sent_data.2.2, List.filterMap_cons_none sent_data.2.1]
    rfl
  refine ⟨r, rfl, rfl, rfl, rfl, hbuf, hbufW, fun hsame => ?_⟩
  have heq := hsame.1
  rw [hbuf, hbufW] at heq
  exact absurd heq (by decide)

end PcapRacer
