/-
**Runs whose reassembled data are harmless.**

The serial phase dissects two things of its own: the datagram that a fragment completes, and the
stream prefix that a segment extends.  Both are known before it dissects anything: from the headers
of the record, and from the tables.  When they are harmless, for the ports that their headers name,
no record can take the run down, and the run gives a row for every record, whatever the batch size
and the number of threads.

Main definitions:

* `Engine.completed`, `Engine.joinedHdr`, `Engine.prefixData` — what a record brings to dissection;
* `Engine.StepHarmless`, `HarmlessRun` — these data are harmless, for one record and for all.

Main results:

* `Engine.step_of_harmless` — the serial phase takes a record whose data are harmless;
* `engineLoop_of_harmless` — **every record of a harmless run has its row**;
* `runsAlike_of_harmless` — **batch sizes and thread counts do not matter to a harmless run**.
-/

import PcapRacer.CalmDispatch
import PcapRacer.DatagramRows
import PcapRacer.PlainRun

set_option relaxedAutoImplicit false
set_option autoImplicit false

namespace PcapRacer

open ChunkedRun (scan)

/-! ### What a record brings to dissection -/

/-- The range of the TCP payload that the headers lead to. -/
def tcpRange (o : Owned) : Option (UInt16 × UInt16) :=
  match (frameJourney o).stop with
  | .ok (some (p, c)) =>
      if p.isTcp = true ∧ c.rest ≠ [] then
        some (clip16 (o.data.length - c.remaining), clip16 c.remaining)
      else none
  | _ => none

namespace Engine

/-- The datagram that the fragment of a record completes. -/
def completed (e : Engine) (o : Owned) : Option (FragKey × Bytes) :=
  (if e.reassemble then (frameJourney o).frag else none).bind fun fm =>
    (e.frags.push fm.key fm.offset fm.moreFragments fm.payload).1.map fun data => (fm.key, data)

/-- The walk over a completed datagram, from the headers of its last fragment on. -/
def datagramWalk (o : Owned) (r : FragKey × Bytes) : Journey :=
  datagramJourney r.1 r.2 (bareHdr (frameJourney o).hdr)

/-- The headers of a record, and those of the datagram that it completes. -/
def joinedHdr (e : Engine) (o : Owned) : Hdr :=
  match e.completed o with
  | none => (frameJourney o).hdr
  | some r =>
      { (datagramWalk o r).hdr with
        tuple := (frameJourney o).hdr.tuple.or (datagramWalk o r).hdr.tuple }

/-- The data that a segment is dissected with: the stream prefix that it extends, or the segment
when its stream is not tracked. -/
def prefixData (streams : StreamTable StreamKey) (t : Tuple) (seq : UInt32) (segment : Bytes) :
    Bytes :=
  ((streams.push (streamKey t) seq segment).1.map Reassembled.data).getD segment

/-- The data that the serial phase dissects for a record are harmless, for the ports that the
headers name. -/
structure StepHarmless (e : Engine) (o : Owned) : Prop where
  datagram : ∀ r p c, e.completed o = some r → (datagramWalk o r).stop = .ok (some (p, c)) →
    App.Harmless c.rest p.sport p.dport p.isTcp
  stream : e.reassemble = true → ∀ t segment, (e.joinedHdr o).tuple = some t →
    segmentOf o (tcpRange o) = some segment →
    App.Harmless
      (prefixData e.streams t ((e.joinedHdr o).transport.tcpSeq.getD 0) segment)
      ((e.joinedHdr o).transport.srcPort.getD 0) ((e.joinedHdr o).transport.dstPort.getD 0) true

end Engine

section Runs

variable [Hashes]

/-- The data of every record are harmless; the tables are taken as the records before have left
them. -/
def HarmlessRun (cfg : Config) (os : List Owned) : Prop :=
  ∀ pre o post e rows, os = pre ++ o :: post →
    scan (Engine.step cfg.reassemble) (Engine.new cfg) pre = .ok (e, rows) → e.StepHarmless o

/-! ### The first pass -/

/-- Dissection leaves alone what the headers say. -/
theorem arrive_hdr {ctx ctx' : Ctx} {stop : Except DissectError (Option (Payload × Cur))}
    {r : Except DissectError Unit} (h : ctx.arrive stop = .ok (r, ctx')) :
    ctx'.hdr = { ctx.hdr with stack := ctx'.stack } ∧ ctx'.frag = ctx.frag := by
  rcases stop with e | _ | ⟨p, c⟩
  · cases h
    exact ⟨rfl, rfl⟩
  · cases h
    exact ⟨rfl, rfl⟩
  · obtain ⟨ctx₁, hpay, he⟩ := map_eq_ok_iff.mp h
    cases he
    unfold Ctx.payload at hpay
    dsimp only at hpay
    split at hpay
    · cases hpay
      exact ⟨rfl, rfl⟩
    · unfold dispatch at hpay
      split at hpay
      · cases hpay
        exact ⟨rfl, rfl⟩
      · obtain ⟨s, -, rfl⟩ := map_eq_ok_iff.mp hpay
        exact ⟨rfl, rfl⟩

/-- What the first pass says of the headers, unless it panicked. -/
theorem dissectOne_headers (o : Owned) (defer : Bool) :
    dissectOne o defer = panickedPacket o ∨
      (dissectOne o defer).tuple = (frameJourney o).hdr.tuple ∧
      (dissectOne o defer).frag = (frameJourney o).frag ∧
      (dissectOne o defer).pkt.transport = (frameJourney o).hdr.transport ∧
      ({ pkt := (dissectOne o defer).pkt } : Ctx).hdr = bareHdr (frameJourney o).hdr := by
  unfold dissectOne dissectInner
  rw [dissectFrame_eq]
  cases h : (frameCtx o defer).arrive (frameJourney o).stop with
  | error q => exact .inl rfl
  | ok r =>
      obtain ⟨hhdr, hfrag⟩ := arrive_hdr h
      have hstart : (frameCtx o defer).hdr = (frameJourney o).hdr := rfl
      rw [hstart] at hhdr
      refine .inr ⟨congrArg Hdr.tuple hhdr, hfrag, congrArg Hdr.transport hhdr, ?_⟩
      exact congrArg bareHdr hhdr

/-- A payload that is not a TCP payload leaves no range. -/
theorem payload_tcpPayloadLen {ctx ctx' : Ctx} {p : Payload} {c : Cur} (hudp : p.isTcp = false)
    (hlen : ctx.pkt.payload.tcpPayloadLen = none) (h : ctx.payload p c = .ok ctx') :
    ctx'.pkt.payload.tcpPayloadLen = none := by
  have hcols : (payloadCols p.isTcp c.rest ctx.pkt.payload).tcpPayloadLen = none := by
    rw [hudp, payloadCols, recordPayload]
    split <;> exact hlen
  unfold Ctx.payload at h
  dsimp only at h
  rw [if_neg (by rw [hudp]; simp)] at h
  rw [(dispatch_ok h).1]
  exact hcols

/-- **The range that the first pass leaves** is the one that the headers lead to. -/
theorem tcpPayload_eq_tcpRange (o : Owned) : (dissectOne o true).tcpPayload = tcpRange o := by
  unfold tcpRange
  cases hstop : (frameJourney o).stop with
  | error e => rw [dissectOne_of_arrive (by rw [hstop]; rfl)]; rfl
  | ok x =>
      cases x with
      | none => rw [dissectOne_of_arrive (by rw [hstop]; rfl)]; rfl
      | some pc =>
          obtain ⟨p, c⟩ := pc
          dsimp only
          by_cases htcp : p.isTcp = true
          · have hends : EndsAtTcp o p c := ⟨hstop, htcp⟩
            rw [dissectOne_of_deferred hends]
            by_cases hne : c.rest = []
            · rw [if_neg (fun h => h.2 hne)]
              change tcpPayloadRange (summary o true (.ok ()) (tcpCtx o c)).pkt o.data.length = none
              have hlen : (summary o true (.ok ()) (tcpCtx o c)).pkt.payload.tcpPayloadLen =
                  some 0 := by
                change (payloadCols true c.rest {}).tcpPayloadLen = some 0
                rw [hne]
                rfl
              rw [tcpPayloadRange, hlen]
              exact if_pos (.inl rfl)
            · rw [if_pos ⟨htcp, hne⟩]
              exact tcpPayloadRange_eq hends hne
          · rw [if_neg (fun h => htcp h.1)]
            unfold dissectOne dissectInner
            rw [dissectFrame_eq, hstop, Ctx.arrive]
            cases hpay : (frameCtx o true).payload p c with
            | error q => rfl
            | ok ctx =>
                exact tcpPayloadRange_of_none
                  (payload_tcpPayloadLen (Bool.eq_false_iff.mpr htcp) rfl hpay) _

/-! ### One record -/

namespace Engine

omit [Hashes] in
theorem prefixData_eq (streams : StreamTable StreamKey) (t : Tuple) (pkt : Packet)
    (segment : Bytes) : (reassembled streams t pkt segment).1.data =
      prefixData streams t (pkt.transport.tcpSeq.getD 0) segment := by
  unfold reassembled prefixData
  rcases streams.push (streamKey t) (pkt.transport.tcpSeq.getD 0) segment with ⟨- | r, streams'⟩
  · rfl
  · rfl

/-- The headers that the fragment pass leaves on a packet. -/
theorem fragmentPass_headers {e : Engine} {o : Owned} {frags : FragTable FragKey}
    {tuple : Option Tuple} {pkt : Packet}
    (h : fragmentPass e.frags (if e.reassemble then (dissectOne o e.reassemble).frag else none)
      (e.numbered (dissectOne o e.reassemble).pkt) = .ok (frags, tuple, pkt)) :
    dissectOne o e.reassemble = panickedPacket o ∨
      (dissectOne o e.reassemble).tuple.or tuple = (e.joinedHdr o).tuple ∧
        pkt.transport = (e.joinedHdr o).transport := by
  obtain hpanic | ⟨htuple, hfrag, htransport, hhdr⟩ := dissectOne_headers o e.reassemble
  · exact .inl hpanic
  refine .inr ?_
  rw [htuple]
  rw [hfrag] at h
  unfold joinedHdr completed
  cases hf : (if e.reassemble then (frameJourney o).frag else none) with
  | none =>
      rw [hf] at h
      cases h
      exact ⟨Option.or_none, htransport⟩
  | some fm =>
      rw [hf] at h
      rcases hp : e.frags.push fm.key fm.offset fm.moreFragments fm.payload with ⟨- | data, frags₁⟩
      · simp only [fragmentPass, hp] at h
        cases h
        rw [Option.bind_some, hp]
        exact ⟨Option.or_none, htransport⟩
      · simp only [fragmentPass, hp] at h
        obtain ⟨r, hr, he⟩ := map_eq_ok_iff.mp h
        cases he
        obtain ⟨⟨x, ctx⟩, hwalk, he⟩ := bind_eq_ok_iff.mp hr
        cases he
        have hkeep := (arrive_hdr hwalk).1
        have hend : ctx.hdr = { (datagramWalk o (fm.key, data)).hdr with stack := ctx.stack } := by
          rw [hkeep]
          change { (datagramJourney fm.key data _).hdr with stack := ctx.stack } = _
          rw [show ({ pkt := e.numbered (dissectOne o e.reassemble).pkt } : Ctx).hdr = _ from hhdr]
          rfl
        rw [Option.bind_some, hp]
        exact ⟨congrArg (fun s : Hdr => (frameJourney o).hdr.tuple.or s.tuple) hend,
          congrArg Hdr.transport hend⟩

/-- **The serial phase takes a record whose data are harmless.** -/
theorem step_of_harmless {e : Engine} {o : Owned} (h : e.StepHarmless o) :
    ∃ r, step e.reassemble e o = .ok r := by
  have hcalm : ∀ {payload : Bytes} {sport dport : UInt16} {isTcp : Bool} {s : Sink AppCols},
      App.Harmless payload sport dport isTcp → ¬ App.CutsInside payload sport dport isTcp s := by
    rintro payload sport dport isTcp s hharmless ⟨q, hq⟩
    obtain ⟨s', hs⟩ := App.identify_of_harmless hharmless s
    rw [hs] at hq
    cases hq
  have hcuts : ¬ e.StepCuts o (dissectOne o e.reassemble) := by
    rintro (⟨fm, data, hre, hfm, hpush, p, c, hstop, -, hcut⟩ |
      ⟨frags, fragTuple, pkt, t, segment, hpass, ht, hseg, -, hcut⟩)
    · obtain hpanic | ⟨-, hfrag, -, hhdr⟩ := dissectOne_headers o e.reassemble
      · rw [hpanic] at hfm
        cases hfm
      · have hdone : e.completed o = some (fm.key, data) := by
          rw [completed, if_pos hre, ← hfrag, hfm, Option.bind_some, hpush]
          rfl
        refine hcalm (h.datagram _ p c hdone ?_) hcut
        change (journey _ _ (bareHdr (frameJourney o).hdr)).stop = _
        rw [← hhdr]
        exact hstop
    · obtain hpanic | ⟨htuple, htransport⟩ := fragmentPass_headers hpass
      · rw [hpanic] at hseg
        cases hseg
      · cases hre : e.reassemble with
        | false =>
            rw [hre, tcpPayload_dissectOne] at hseg
            cases hseg
        | true =>
            rw [hre, tcpPayload_eq_tcpRange] at hseg
            rw [htuple] at ht
            rw [prefixData_eq, htransport] at hcut
            exact hcalm (h.stream hre t segment ht hseg) hcut
  unfold step
  cases hstep : e.absorbOne o (dissectOne o e.reassemble) with
  | error q => exact absurd (absorbOne_error_iff.mp ⟨q, hstep⟩) hcuts
  | ok r => exact ⟨r, rfl⟩

end Engine

/-! ### The run -/

/-- The fold over the records of a harmless run succeeds. -/
theorem scan_of_harmless {cfg : Config} {os : List Owned} (h : HarmlessRun cfg os) :
    ∃ e rows, scan (Engine.step cfg.reassemble) (Engine.new cfg) os = .ok (e, rows) ∧
      rows.length = os.length ∧
      ∀ i row, rows[i]? = some row → Engine.ids row = (some i, some (i + 1)) := by
  obtain ⟨⟨e, rows⟩, hscan⟩ : ∃ r, scan (Engine.step cfg.reassemble) (Engine.new cfg) os = .ok r := by
    rw [ChunkedRun.scan_ok_iff]
    intro pre o post e rows hos hpre
    have hre : e.reassemble = cfg.reassemble :=
      (ChunkedRun.scan_invariant (I := fun e : Engine => e.reassemble = cfg.reassemble)
        (R := fun _ => True)
        (fun _ _ _ _ he hs => ⟨(Engine.absorbOne_numbered hs).2.2.trans he, trivial⟩) rfl hpre).1
    rw [← hre]
    exact Engine.step_of_harmless (h pre o post e rows hos hpre)
  refine ⟨e, rows, hscan, ChunkedRun.length_of_scan hscan, fun i row hrow => ?_⟩
  have hids := Engine.scan_numbered hscan i row hrow
  rwa [show (Engine.new cfg).nextPacketId = 0 from rfl, Nat.zero_add] at hids

/-- A recipient, and nothing else. -/
def mailPayload : Bytes := Text.ascii "RCPT TO:<bob>"

/-- An SMTP segment with that payload: Ethernet, IPv4, TCP to port 25. -/
def mailFrame : Owned :=
  { capLen := 67, origLen := 67, linktype := 1,
    data :=
      [0x00, 0x11, 0x22, 0x33, 0x44, 0x55, 0x66, 0x77, 0x88, 0x99, 0xaa, 0xbb, 0x08, 0x00] ++
      [0x45, 0, 0, 53, 0, 1, 0x40, 0, 64, 6, 0, 0, 10, 0, 0, 5, 93, 184, 216, 34] ++
      [0xc3, 0x50, 0, 25, 0, 0, 3, 0xe8, 0, 0, 0, 1, 0x50, 0x18, 0xff, 0xff, 0, 0, 0, 0] ++
      mailPayload }

/-- A DNS query for the root: Ethernet, IPv4, UDP to port 53. -/
def queryFrame : Owned :=
  { capLen := 59, origLen := 59, linktype := 1,
    data :=
      [0x00, 0x11, 0x22, 0x33, 0x44, 0x55, 0x66, 0x77, 0x88, 0x99, 0xaa, 0xbb, 0x08, 0x00] ++
      [0x45, 0, 0, 45, 0, 2, 0x40, 0, 64, 17, 0, 0, 10, 0, 0, 5, 93, 184, 216, 34] ++
      [0x13, 0x88, 0, 53, 0, 25, 0, 0] ++
      [0, 7, 1, 0, 0, 1, 0, 0, 0, 0, 0, 0, 0, 0, 2, 0, 1] }

omit [Hashes] in
theorem mailPayload_harmless : App.Harmless mailPayload 50000 25 true where
  destination := by
    have hascii : mailPayload.all (fun x => decide (x < 0x80)) = true := by decide
    exact fun x hx => of_decide_eq_true (List.all_eq_true.mp hascii x (List.mem_of_mem_take hx))
  source := trivial
  content :=
    { http := fun h => absurd h (by decide)
      tls := fun h => absurd h (by decide)
      dtls := fun h => absurd h (by decide)
      ssh := fun h => absurd h (by decide)
      sip := fun h => absurd h (by decide)
      smb := fun h => absurd h (by decide)
      vnc := fun h => absurd h (by decide) }

omit [Hashes] in
/-- The segment is dissected on its own. -/
theorem mailFrame_harmless : (Engine.new {}).StepHarmless mailFrame := by
  have hnone : (Engine.new {}).completed mailFrame = none := rfl
  have hhdr : (Engine.new {}).joinedHdr mailFrame = (frameJourney mailFrame).hdr := by
    rw [Engine.joinedHdr, hnone]
  refine ⟨fun r p c h => (by rw [hnone] at h; cases h), fun _ t segment ht hseg => ?_⟩
  obtain rfl : mailPayload = segment := Option.some_inj.mp (Eq.trans rfl hseg)
  rw [hhdr]
  have hdata : (Engine.reassembled (Engine.new {}).streams t
      { transport := (frameJourney mailFrame).hdr.transport } mailPayload).1.data = mailPayload :=
    Engine.reassembled_new {} t _ (by decide) (by decide) (by decide)
  rw [Engine.prefixData_eq] at hdata
  dsimp only at hdata
  rw [hdata]
  exact mailPayload_harmless

omit [Hashes] in
/-- A query over UDP brings nothing, whatever the tables hold. -/
theorem queryFrame_harmless (e : Engine) : e.StepHarmless queryFrame := by
  have hfrag : (frameJourney queryFrame).frag = none := rfl
  have hnone : e.completed queryFrame = none := by
    rw [Engine.completed, hfrag, ite_self]
    rfl
  have hrange : tcpRange queryFrame = none := rfl
  refine ⟨fun r p c h => (by rw [hnone] at h; cases h), fun _ t segment _ hseg => ?_⟩
  rw [hrange] at hseg
  cases hseg

theorem harmlessRun_mail : HarmlessRun {} [mailFrame, queryFrame] := by
  intro pre o post e rows hos hpre
  rcases pre with - | ⟨first, - | ⟨second, pre⟩⟩
  · cases hos
    cases hpre
    exact mailFrame_harmless
  · cases hos
    exact queryFrame_harmless e
  · simp at hos

/-- **Batch sizes and thread counts do not matter to a harmless run.** -/
theorem runsAlike_of_harmless (cfg : Config) (records : List RawPacket) (badBlocks : ℕ)
    (h : HarmlessRun cfg (records.map RawPacket.own)) : RunsAlike cfg records badBlocks := by
  obtain ⟨e, rows, hscan, hlen, hids⟩ := scan_of_harmless h
  exact ⟨rows, _, e.flows, hlen.trans (List.length_map _), hids, fun pool size hsize hreserves =>
    delivers_of_scan hscan pool hsize hreserves badBlocks⟩

end Runs

/-- The two frames as the reader hands them out. -/
def mailRecords : List RawPacket :=
  [{ tsNs := 0, capLen := 67, origLen := 67, ifaceId := 0, linktype := 1, data := mailFrame.data,
     data_le := mailFrame.data_le },
   { tsNs := 0, capLen := 59, origLen := 59, ifaceId := 0, linktype := 1, data := queryFrame.data,
     data_le := queryFrame.data_le }]

theorem runsAlike_of_harmless_mail :
    mailRecords.length = 2 ∧ ∀ (_ : Hashes), RunsAlike {} mailRecords 0 :=
  ⟨rfl, fun _ => runsAlike_of_harmless {} mailRecords 0 harmlessRun_mail⟩

end PcapRacer
