/-
**Captures with a snap length.**

A capture with a snap length keeps the first bytes of every frame and says how long the frame was.
The payloads suffer, and what is read in them; who talks to whom, when and how much does not.  Cut a
capture at a length that leaves the headers of its frames whole, and the run finds the same flows, with
the same packets and bytes in either direction, the same TCP states and the same intervals, and its
rows say the same up to the transport layer.

Main definitions:

* `RawPacket.snapped` — the record, captured with a snap length;
* `headersEnd` — where the headers of a frame end;
* `Packet.outline`, `Flow.account`, `RunStats.outline` — what is left of a row, of a flow and of the
  statistics without the payloads;
* `Spared` — the snap length spares the headers of a record;
* `Engine.Outlined` — two engines that differ in what payloads say only.

Main results:

* `frameJourney_snapped` — the walk over a frame whose headers are spared;
* `dissectOne_snapped` — the first pass over it;
* `FlowTable.step_account` — the accounts of the flows do not depend on payloads;
* `Engine.step_snapped` — absorbing a record that was cut short;
* `run_snapped` — **a run over a capture with a snap length**.
-/

import PcapRacer.CrossTalk
import PcapRacer.FlowBatch
import PcapRacer.HeaderCuts
import PcapRacer.TunnelTable

set_option relaxedAutoImplicit false
set_option autoImplicit false

namespace PcapRacer

open BoundedTable (Refuses mapValues)

open ChunkedRun (scan)

/-! ### Records -/

/-- The record, captured with a snap length. -/
def RawPacket.snapped (n : ℕ) (r : RawPacket) : RawPacket :=
  { r with
    capLen := .ofNat (min r.capLen.toNat n)
    data := r.data.take n
    data_le := by
      have hlt : min r.capLen.toNat n < 2 ^ 32 :=
        lt_of_le_of_lt (Nat.min_le_left _ _) r.capLen.toNat_lt
      have hle := r.data_le
      rw [UInt32.toNat_ofNat', Nat.mod_eq_of_lt hlt, List.length_take]
      omega }

/-- A record that is short enough stays as it is. -/
theorem RawPacket.snapped_of_le {n : ℕ} {r : RawPacket} (h : r.capLen.toNat ≤ n) :
    r.snapped n = r := by
  have hdata : r.data.take n = r.data := List.take_of_length_le (r.data_le.trans h)
  have hcap : UInt32.ofNat (min r.capLen.toNat n) = r.capLen := by
    rw [Nat.min_eq_left h, UInt32.ofNat_toNat]
  simp only [snapped, hdata, hcap]

/-! ### Walks -/

/-- Where the headers of a frame end, if the walk over them meets with no error. -/
def headersEnd (o : Owned) : Option ℕ :=
  match (Link.dissectLink o.linktype).run (Cur.new o.data) { ifaceId := some o.ifaceId } with
  | (.ok (on, c), s) => (arrival (c.remaining + 1) on c s none).map Cur.start
  | (.error _, _) => none

/-- **The walk over a frame whose headers are spared.** -/
theorem frameJourney_snapped {n e : ℕ} {r : RawPacket} (he : headersEnd r.own = some e)
    (hn : e + 2 ≤ n) : (frameJourney r.own).Cut n (frameJourney (r.snapped n).own) := by
  have hc : (Cur.new r.own.data).Cut n (Cur.new (r.snapped n).own.data) := ⟨rfl, rfl⟩
  unfold headersEnd at he
  unfold frameJourney journey
  rcases hx : (Link.dissectLink r.own.linktype).run (Cur.new r.own.data)
    { ifaceId := some r.own.ifaceId } with ⟨x | ⟨on, c⟩, s⟩
  · rw [hx] at he
    cases he
  · rw [hx] at he
    obtain ⟨c₁, harrival, rfl⟩ := Option.map_eq_some_iff.mp he
    have hle := start_le_of_arrival harrival
    obtain ⟨c', hx', hc'⟩ := (Link.dissectLink_clippable _).cuts.run hc hx (by omega)
    have hrun : (Link.dissectLink (r.snapped n).own.linktype).run
        (Cur.new (r.snapped n).own.data) { ifaceId := some (r.snapped n).own.ifaceId } =
          (.ok (on, c'), s) := hx'
    rw [hrun]
    dsimp only
    rw [follow_of_lt (m := c.remaining + 1) (Nat.lt_succ_self c'.remaining)
      (Nat.lt_succ_of_le hc'.remaining_le)]
    exact follow_cut hc' rfl (fun _ => rfl) rfl harrival hn

/-! ### Rows -/

/-- The row but for what is read in payloads and how long they are (`tcp_payload_len` and
`udp_payload_len` stand in the `payload` columns), what is put together from several, the chunks that
SCTP lists, and how much was captured. -/
def Packet.outline (pkt : Packet) : Packet :=
  { pkt with
    frame := { pkt.frame with capLen := none, truncated := none, protoStack := none,
                              highestLayer := none }
    transport := pkt.transport.sansChunks
    app := {}
    payload := {}
    reasm := {} }

/-- The end of a walk leaves alone what the headers say. -/
theorem arrive_keeps [Hashes] {ctx ctx' : Ctx}
    {stop : Except DissectError (Option (Payload × Cur))} {r : Except DissectError Unit}
    (h : ctx.arrive stop = .ok (r, ctx')) :
    ctx'.pkt.outline = ctx.pkt.outline ∧ ctx'.tuple = ctx.tuple ∧ ctx'.depth = ctx.depth ∧
      ctx'.frag = ctx.frag := by
  rcases stop with e | _ | ⟨p, c⟩
  · cases h
    exact ⟨rfl, rfl, rfl, rfl⟩
  · cases h
    exact ⟨rfl, rfl, rfl, rfl⟩
  · obtain ⟨ctx₁, hpay, he⟩ := map_eq_ok_iff.mp h
    cases he
    unfold Ctx.payload at hpay
    dsimp only at hpay
    split at hpay
    · cases hpay
      exact ⟨rfl, rfl, rfl, rfl⟩
    · unfold dispatch at hpay
      split at hpay
      · cases hpay
        exact ⟨rfl, rfl, rfl, rfl⟩
      · obtain ⟨s, -, rfl⟩ := map_eq_ok_iff.mp hpay
        exact ⟨rfl, rfl, rfl, rfl⟩

/-- The snap length `n` spares the headers of the record: it was not cut short, or it was cut two bytes
behind its headers at least, and no payload makes a dissector panic. -/
def Spared [Hashes] (n : ℕ) (defer : Bool) (r : RawPacket) : Prop :=
  r.capLen.toNat ≤ n ∨ (∃ e, headersEnd r.own = some e ∧ e + 2 ≤ n) ∧
    ¬ Panics r.own defer ∧ ¬ Panics (r.snapped n).own defer

/-- What the first passes over a record and over what was kept of it have in common. -/
structure Dissected.Alike (d d' : Dissected) : Prop where
  outline : d'.pkt.outline = d.pkt.outline
  tuple : d'.tuple = d.tuple
  frag : d'.frag.isSome = d.frag.isSome
  malformed : d'.malformed = d.malformed
  panicked : d'.panicked = d.panicked

section Dissect

variable [Hashes]

theorem arrive_of_not_panics {o : Owned} {defer : Bool} (h : ¬ Panics o defer) :
    ∃ x, (frameCtx o defer).arrive (frameJourney o).stop = .ok x := by
  cases hwalk : (frameCtx o defer).arrive (frameJourney o).stop with
  | ok x => exact ⟨x, rfl⟩
  | error p =>
      refine absurd ⟨p, ?_⟩ h
      rw [dissectInner, dissectFrame_eq, hwalk]
      rfl

omit [Hashes] in
/-- What the headers say of a frame is what the walk leaves, beside the record itself. -/
theorem outline_frameCtx (o : Owned) (defer : Bool) :
    (frameCtx o defer).pkt.outline =
      { frame := { frameCols o with linkType := some o.linktype, capLen := none, truncated := none,
                                    ifaceId := (frameJourney o).hdr.sansChunks.ifaceId }
        link := (frameJourney o).hdr.sansChunks.link
        net := (frameJourney o).hdr.sansChunks.net
        transport := (frameJourney o).hdr.sansChunks.transport
        tunnel := (frameJourney o).hdr.sansChunks.tunnel } := rfl

omit [Hashes] in
theorem outline_summary (o : Owned) (defer : Bool) (r : Except DissectError Unit) (ctx : Ctx) :
    (summary o defer r ctx).pkt.outline =
      { ctx.pkt.outline with
        frame := { ctx.pkt.outline.frame with
          tunnelDepth := some ctx.depth
          malformed := some r.toOption.isNone
          panicked := some false } } := rfl

/-- Both walks end without an error. -/
theorem Journey.StopsCut.results {n : ℕ} {stop stop' : Except DissectError (Option (Payload × Cur))}
    (h : Journey.StopsCut n stop stop') {ctx ctx' : Ctx}
    {x x' : Except DissectError Unit × Ctx} (hx : ctx.arrive stop = .ok x)
    (hx' : ctx'.arrive stop' = .ok x') : x.1 = .ok () ∧ x'.1 = .ok () := by
  cases h with
  | nothing =>
      cases hx
      cases hx'
      exact ⟨rfl, rfl⟩
  | payload _ =>
      obtain ⟨_, -, rfl⟩ := map_eq_ok_iff.mp hx
      obtain ⟨_, -, rfl⟩ := map_eq_ok_iff.mp hx'
      exact ⟨rfl, rfl⟩

/-- **The first pass over a record whose headers are spared.** -/
theorem dissectOne_snapped {n : ℕ} {defer : Bool} {r : RawPacket} (h : Spared n defer r) :
    (dissectOne r.own defer).Alike (dissectOne (r.snapped n).own defer) := by
  rcases h with hle | ⟨⟨e, he, hn⟩, hcalm, hcalm'⟩
  · rw [RawPacket.snapped_of_le hle]
    exact ⟨rfl, rfl, rfl, rfl, rfl⟩
  · have hjourney := frameJourney_snapped he hn
    obtain ⟨x, hx⟩ := arrive_of_not_panics hcalm
    obtain ⟨x', hx'⟩ := arrive_of_not_panics hcalm'
    obtain ⟨hok, hok'⟩ := hjourney.stop.results hx hx'
    obtain ⟨houtline, htuple, hdepth, hfrag⟩ := arrive_keeps hx
    obtain ⟨houtline', htuple', hdepth', hfrag'⟩ := arrive_keeps hx'
    have hhdr := hjourney.hdr
    have hctx : x'.2.pkt.outline = x.2.pkt.outline := by
      rw [houtline, houtline', outline_frameCtx, outline_frameCtx, hhdr]
      rfl
    have htuples : x'.2.tuple = x.2.tuple := by
      have hsame := congrArg Hdr.tuple hhdr
      exact htuple'.trans (hsame.trans htuple.symm)
    have hdepths : x'.2.depth = x.2.depth := by
      have hsame := congrArg Hdr.depth hhdr
      exact hdepth'.trans (hsame.trans hdepth.symm)
    rw [dissectOne_of_arrive hx, dissectOne_of_arrive hx']
    refine ⟨?_, htuples, ?_, ?_, rfl⟩
    · rw [outline_summary, outline_summary, hctx, hdepths, hok, hok']
    · change x'.2.frag.isSome = x.2.frag.isSome
      rw [hfrag, hfrag']
      exact hjourney.frag
    · change x'.1.toOption.isNone = x.1.toOption.isNone
      rw [hok, hok']

end Dissect

/-! ### Flows -/

/-- The flow but for what is read in payloads. -/
def Flow.account (f : Flow) : Flow :=
  { f with service := none, sni := none, httpHost := none, dnsQname := none, ja3 := none,
           ja3s := none, ja4 := none }

/-- The accounts of a flow table. -/
def FlowTable.accounts (t : FlowTable) : FlowTable := { t with flows := mapValues Flow.account t.flows }

/-- The account of a flow goes on from the account of the flow and the TCP flags of the packet. -/
theorem Flow.account_fold {f f' : Flow} (h : f'.account = f.account) (forward : Bool)
    {pkt pkt' : Packet} (hflags : pkt'.transport.tcpFlags = pkt.transport.tcpFlags) (ts : Int)
    (frame : ℕ) (len : UInt64) :
    (f'.fold forward pkt' ts frame len).account = (f.fold forward pkt ts frame len).account := by
  have hfold : ∀ (f : Flow) (pkt : Packet), (f.fold forward pkt ts frame len).account =
      (pkt.transport.tcpFlags.map fun flags =>
        ((f.account.widen ts frame).count forward len).seeFlags forward flags).getD
          ((f.account.widen ts frame).count forward len) := by
    intro f pkt
    unfold fold
    cases pkt.transport.tcpFlags <;> cases forward <;> rfl
  rw [hfold, hfold, h, hflags]

namespace FlowTable

variable [Hashes]

/-- Two calls that differ in what payloads say only. -/
structure SameAccount (o o' : Observation) : Prop where
  tuple : o'.tuple = o.tuple
  flags : o'.pkt.transport.tcpFlags = o.pkt.transport.tcpFlags
  flow : o'.pkt.flow = o.pkt.flow
  ts : o'.ts = o.ts
  frame : o'.frame = o.frame
  len : o'.len = o.len

/-- **The accounts of the flows do not depend on payloads**, and neither do the columns of the flow in
the row of a packet. -/
theorem step_account {t t' : FlowTable} (h : t'.accounts = t.accounts) {o o' : Observation}
    (ho : SameAccount o o') :
    (t'.step o').1.accounts = (t.step o).1.accounts ∧ (t'.step o').2.flow = (t.step o).2.flow := by
  have hflows : mapValues Flow.account t'.flows = mapValues Flow.account t.flows :=
    (congrArg FlowTable.flows h :)
  have hnext : t'.nextId = t.nextId := (congrArg FlowTable.nextId h :)
  have hevicted : t'.evicted = t.evicted := (congrArg FlowTable.evicted h :)
  have hmax : t'.maxFlows = t.maxFlows := (congrArg FlowTable.maxFlows h :)
  have hiff : Refuses t'.maxFlows t'.flows o'.tuple.key ↔ Refuses t.maxFlows t.flows o.tuple.key := by
    rw [ho.tuple, hmax, ← BoundedTable.refuses_mapValues (f := Flow.account) t.maxFlows t'.flows,
      hflows, BoundedTable.refuses_mapValues]
  by_cases hr : Refuses t.maxFlows t.flows o.tuple.key
  · rw [step_of_refuses hr, step_of_refuses (hiff.mpr hr)]
    refine ⟨?_, ho.flow⟩
    change FlowTable.mk _ _ _ _ = FlowTable.mk _ _ _ _
    rw [hflows, hnext, hevicted, hmax]
  · have hentry : (t'.entry o'.tuple.key o'.ts o'.frame).account =
        (t.entry o.tuple.key o.ts o.frame).account := by
      have hlookup : (t'.flows.lookup o.tuple.key).map Flow.account =
          (t.flows.lookup o.tuple.key).map Flow.account := by
        rw [← BoundedTable.lookup_mapValues, hflows, BoundedTable.lookup_mapValues]
      unfold entry
      rw [ho.tuple, ho.ts, ho.frame, hnext]
      cases hl : t.flows.lookup o.tuple.key with
      | none =>
          rw [hl] at hlookup
          rw [Option.map_eq_none_iff.mp hlookup]
      | some f =>
          rw [hl] at hlookup
          obtain ⟨f', hf', hsame⟩ := Option.map_eq_some_iff.mp hlookup
          rw [hf']
          exact hsame
    have hfolded : (t'.folded o').account = (t.folded o).account := by
      unfold folded
      rw [ho.ts, ho.frame, ho.len, ho.tuple]
      refine Flow.account_fold ?_ _ ho.flags _ _ _
      rw [← hentry, ho.tuple, ho.ts, ho.frame]
    have hid : (t'.entry o'.tuple.key o'.ts o'.frame).id = (t.entry o.tuple.key o.ts o.frame).id :=
      (congrArg Flow.id hentry :)
    rw [step_of_admits hr, step_of_admits fun h => hr (hiff.mp h)]
    refine ⟨?_, ?_⟩
    · change FlowTable.mk _ _ _ _ = FlowTable.mk _ _ _ _
      dsimp only
      rw [BoundedTable.mapValues_insert, BoundedTable.mapValues_insert, hfolded, hflows, hid, hnext,
        hevicted, hmax, ho.tuple]
    · have hfid : (t'.folded o').id = (t.folded o).id := (congrArg Flow.id hfolded :)
      have hcid : (t'.folded o').communityId = (t.folded o).communityId :=
        (congrArg Flow.communityId hfolded :)
      dsimp only
      rw [hfid, hcid, ho.tuple]

omit [Hashes] in
/-- The accounts are reported in the order of the flows. -/
theorem sorted_accounts (t : FlowTable) : t.accounts.sorted = t.sorted.map Flow.account := by
  unfold sorted sortFlows
  change (BoundedTable.values (mapValues Flow.account t.flows)).insertionSort Flow.Before = _
  rw [BoundedTable.values_mapValues]
  exact (List.map_insertionSort Flow.Before Flow.Before Flow.account _
    fun _ _ _ _ => Iff.rfl).symm

end FlowTable

/-! ### The engine -/

/-- The statistics but for what depends on how much was captured. -/
def RunStats.outline (s : RunStats) : RunStats :=
  { s with captureBytes := 0, truncated := 0, streamsTruncated := 0, streamsEvicted := 0 }

namespace Engine

variable [Hashes]

omit [Hashes] in
/-- The layers found in a stream go into columns that depend on payloads. -/
theorem outline_spliceStack (base extra : Text) (pkt : Packet) :
    { pkt with frame := spliceStack base extra pkt.frame }.outline = pkt.outline := by
  unfold spliceStack
  split <;> rfl

/-- What a stream says goes into columns that depend on payloads. -/
theorem outline_dissectStream {pkt pkt' : Packet} {r : Reassembled}
    (h : dissectStream pkt r = .ok pkt') : pkt'.outline = pkt.outline := by
  obtain ⟨ctx, hd, he⟩ := bind_eq_ok_iff.mp h
  cases he
  refine (outline_spliceStack _ _ ctx.pkt).trans ?_
  rw [(dispatch_ok hd).1]
  rfl

/-- So do the columns of a segment. -/
theorem outline_reassembleAndDispatch {streams streams' : StreamTable StreamKey} {t : Tuple}
    {pkt pkt' : Packet} {o : Owned} {range : Option (UInt16 × UInt16)}
    (h : reassembleAndDispatch streams t pkt o range = .ok (streams', pkt')) :
    pkt'.outline = pkt.outline := by
  unfold reassembleAndDispatch at h
  cases hs : segmentOf o range with
  | none =>
      rw [hs] at h
      cases h
      rfl
  | some segment =>
      rw [hs] at h
      obtain ⟨pkt₁, h₁, he⟩ := map_eq_ok_iff.mp h
      cases he
      exact outline_dissectStream h₁

/-- The row of a packet is the packet and the columns of its flow. -/
theorem outline_step (t : FlowTable) (o : Observation) :
    (t.step o).2.outline = { o.pkt.outline with flow := (t.step o).2.flow } := by
  by_cases hr : Refuses t.maxFlows t.flows o.tuple.key
  · rw [FlowTable.step_of_refuses hr]
    rfl
  · rw [FlowTable.step_of_admits hr]
    rfl

/-- The engine `e'` has seen the same packets with less of their payloads. -/
structure Outlined (e e' : Engine) : Prop where
  flows : e'.flows.accounts = e.flows.accounts
  frags : e'.frags = e.frags
  reassemble : e'.reassemble = e.reassemble
  stats : e'.stats.outline = e.stats.outline
  nextPacketId : e'.nextPacketId = e.nextPacketId

omit [Hashes] in
/-- The counters of what a payload says nothing about. -/
theorem outline_countPacket {s s' : RunStats} (h : s'.outline = s.outline) {r : RawPacket} {n : ℕ}
    {d d' : Dissected} (hd : d.Alike d') :
    (countPacket s' (r.snapped n).own d').outline = (countPacket s r.own d).outline := by
  have hcount : ∀ (s : RunStats) (o : Owned) (d : Dissected), (countPacket s o d).outline =
      { s.outline with
        malformed := if d.malformed then s.outline.malformed + 1 else s.outline.malformed
        panicked := if d.panicked then s.outline.panicked + 1 else s.outline.panicked
        firstTsNs := if o.tsNs = 0 then s.outline.firstTsNs else min s.outline.firstTsNs o.tsNs
        lastTsNs := if o.tsNs = 0 then s.outline.lastTsNs else max s.outline.lastTsNs o.tsNs
        packets := s.outline.packets + 1 } := fun _ _ _ => rfl
  rw [hcount, hcount, h, hd.malformed, hd.panicked]
  rfl

/-- The fragment pass over a record that is no fragment. -/
theorem passed_of_no_frag {e : Engine} {d : Dissected} {frags : FragTable FragKey}
    {tuple : Option Tuple} {pkt : Packet} (hnone : d.frag = none ∨ e.reassemble = false)
    (h : fragmentPass e.frags (if e.reassemble then d.frag else none) (e.numbered d.pkt) =
      .ok (frags, tuple, pkt)) :
    frags = e.frags ∧ tuple = none ∧ pkt = e.numbered d.pkt := by
  have hfrag : (if e.reassemble then d.frag else none) = none := by
    rcases hnone with hfrag | hre
    · rw [hfrag, ite_self]
    · rw [hre]
      rfl
  rw [hfrag] at h
  cases h
  exact ⟨rfl, rfl, rfl⟩

/-- **Absorbing a record that was cut short.** -/
theorem step_snapped {n : ℕ} {defer : Bool} {e e' e₁ e₁' : Engine} {r : RawPacket}
    {row row' : Packet} (hspared : Spared n defer r)
    (hwhole : e.reassemble = true → n < r.capLen.toNat → (dissectOne r.own defer).frag = none)
    (hsame : Outlined e e') (h : step defer e r.own = .ok (e₁, row))
    (h' : step defer e' (r.snapped n).own = .ok (e₁', row')) :
    row'.outline = row.outline ∧ Outlined e₁ e₁' := by
  have hd := dissectOne_snapped hspared
  obtain ⟨fragTuple, pkt, hpass, ⟨hreassemble, hstats, hnext⟩, hjoin⟩ := passes_of_absorbOne h
  obtain ⟨fragTuple', pkt', hpass', ⟨hreassemble', hstats', hnext'⟩, hjoin'⟩ :=
    passes_of_absorbOne h'
  have hframe : ∀ (e : Engine) (p : Packet), (e.numbered p).outline =
      { p.outline with
        frame := { p.outline.frame with packetId := some e.nextPacketId
                                        frameNumber := some (e.nextPacketId + 1) } } :=
    fun _ _ => rfl
  obtain ⟨hfrags, rfl, hnumbered⟩ :
      e₁'.frags = e₁.frags ∧ fragTuple' = fragTuple ∧ pkt'.outline = pkt.outline := by
    by_cases hcut : n < r.capLen.toNat
    · -- a record that was cut is no fragment
      have hnone : (dissectOne r.own defer).frag = none ∨ e.reassemble = false := by
        cases hr : e.reassemble with
        | false => exact .inr rfl
        | true => exact .inl (hwhole hr hcut)
      have hpassed := passed_of_no_frag hnone hpass
      have hnone' : (dissectOne (r.snapped n).own defer).frag = none ∨ e'.reassemble = false := by
        refine hnone.imp (fun hfrag => ?_) hsame.reassemble.trans
        rw [← Option.isNone_iff_eq_none, ← Option.not_isSome, hd.frag, hfrag]
        rfl
      have hpassed' := passed_of_no_frag hnone' hpass'
      obtain ⟨hf, rfl, rfl⟩ := hpassed
      obtain ⟨hf', rfl, rfl⟩ := hpassed'
      refine ⟨by rw [hf, hf', hsame.frags], rfl, ?_⟩
      rw [hframe, hframe, hd.outline, hsame.nextPacketId]
    · -- one that was not cut is the same in both captures
      have hnumbers : ∀ p, e'.numbered p = e.numbered p := fun p => by
        unfold numbered
        rw [hsame.nextPacketId]
      rw [RawPacket.snapped_of_le (Nat.le_of_not_lt hcut), hsame.frags, hsame.reassemble,
        hnumbers] at hpass'
      obtain ⟨hfrags, hrest⟩ := Prod.mk.inj (Except.ok.inj (hpass.symm.trans hpass'))
      obtain ⟨htuple, hpkt⟩ := Prod.mk.inj hrest
      exact ⟨hfrags.symm, htuple.symm, congrArg Packet.outline hpkt.symm⟩
  rw [hd.tuple] at hjoin'
  have hrest : Outlined e₁ e₁' ↔ e₁'.flows.accounts = e₁.flows.accounts := by
    refine ⟨Outlined.flows, fun hflows => ⟨hflows, ?_, ?_, ?_, ?_⟩⟩
    · exact hfrags
    · rw [hreassemble, hreassemble', hsame.reassemble]
    · rw [hstats, hstats']
      exact outline_countPacket hsame.stats hd
    · rw [hnext, hnext', hsame.nextPacketId]
  rw [hrest]
  rcases hjoin with ⟨htuple, -, hflows, rfl⟩ | ⟨t, pkt, htuple, hreasm, -, hstep⟩
  · rcases hjoin' with ⟨-, -, hflows', rfl⟩ | ⟨t', pkt', htuple', -, -, -⟩
    · rw [hflows, hflows']
      exact ⟨hnumbered, hsame.flows⟩
    · rw [htuple] at htuple'
      cases htuple'
  · rcases hjoin' with ⟨htuple', -, -, -⟩ | ⟨t', pkt', htuple', hreasm', -, hstep'⟩
    · rw [htuple] at htuple'
      cases htuple'
    · obtain rfl : t = t' := Option.some.inj (htuple.symm.trans htuple')
      have houtline : pkt'.outline = pkt.outline := by
        rw [outline_reassembleAndDispatch hreasm, outline_reassembleAndDispatch hreasm', hnumbered]
      have haccount : FlowTable.SameAccount
          ⟨t, pkt, r.own.tsNs, e.nextPacketId + 1, r.own.origLen.toUInt64⟩
          ⟨t, pkt', (r.snapped n).own.tsNs, e'.nextPacketId + 1,
            (r.snapped n).own.origLen.toUInt64⟩ := by
        refine ⟨rfl, ?_, (congrArg Packet.flow houtline :), rfl, ?_, rfl⟩
        · exact (congrArg (fun p => p.transport.tcpFlags) houtline :)
        · exact congrArg (· + 1) hsame.nextPacketId
      obtain ⟨hflows, hcols⟩ := FlowTable.step_account hsame.flows haccount
      have hrow := outline_step e.flows ⟨t, pkt, r.own.tsNs, e.nextPacketId + 1, r.own.origLen.toUInt64⟩
      have hrow' := outline_step e'.flows ⟨t, pkt', (r.snapped n).own.tsNs, e'.nextPacketId + 1,
        (r.snapped n).own.origLen.toUInt64⟩
      rw [← hstep] at hflows hcols hrow
      rw [← hstep'] at hflows hcols hrow'
      refine ⟨?_, hflows⟩
      rw [hrow, hrow']
      change { pkt'.outline with flow := row'.flow } = { pkt.outline with flow := row.flow }
      rw [houtline, hcols]

/-- Absorbing records that were cut short. -/
theorem scan_snapped {n : ℕ} {defer : Bool} {rs : List RawPacket} {e e' e₁ e₁' : Engine}
    {rows rows' : List Packet} (hspared : ∀ r ∈ rs, Spared n defer r)
    (hwhole : e.reassemble = true →
      ∀ r ∈ rs, n < r.capLen.toNat → (dissectOne r.own defer).frag = none)
    (hsame : Outlined e e') (h : scan (step defer) e (rs.map RawPacket.own) = .ok (e₁, rows))
    (h' : scan (step defer) e' ((rs.map (RawPacket.snapped n)).map RawPacket.own) =
      .ok (e₁', rows')) :
    rows'.map Packet.outline = rows.map Packet.outline ∧ Outlined e₁ e₁' := by
  induction rs generalizing e e' rows rows' with
  | nil =>
      cases h
      cases h'
      exact ⟨rfl, hsame⟩
  | cons r rs ih =>
      obtain ⟨e₂, row, rows, hstep, hscan, rfl⟩ := ChunkedRun.exists_of_scan_cons h
      obtain ⟨e₂', row', rows', hstep', hscan', rfl⟩ := ChunkedRun.exists_of_scan_cons h'
      obtain ⟨hrow, hnext⟩ := step_snapped (hspared r List.mem_cons_self)
        (fun hr => hwhole hr r List.mem_cons_self) hsame hstep hstep'
      have hkeeps : e₂.reassemble = e.reassemble := by
        obtain ⟨_, _, -, ⟨hr, -⟩, -⟩ := passes_of_absorbOne hstep
        exact hr
      obtain ⟨hrows, hend⟩ := ih (fun r hmem => hspared r (List.mem_cons_of_mem _ hmem))
        (fun hr r hmem => hwhole (hkeeps ▸ hr) r (List.mem_cons_of_mem _ hmem)) hnext hscan hscan'
      exact ⟨congrArg₂ List.cons hrow hrows, hend⟩

omit [Hashes] in
/-- The statistics at the end of a run, but for what depends on how much was captured. -/
theorem outline_finalizeStats {e e' : Engine} (h : Outlined e e') (badBlocks : ℕ) :
    ({ e' with stats := { e'.stats with badBlocks } }.finalizeStats).outline =
      ({ e with stats := { e.stats with badBlocks } }.finalizeStats).outline := by
  have hlen : BoundedTable.len e'.flows.flows = BoundedTable.len e.flows.flows := by
    have hflows : mapValues Flow.account e'.flows.flows = mapValues Flow.account e.flows.flows :=
      (congrArg FlowTable.flows h.flows :)
    have hkeys := congrArg AList.keys hflows
    rw [BoundedTable.keys_mapValues, BoundedTable.keys_mapValues] at hkeys
    exact congrArg List.length hkeys
  have hevicted : e'.flows.evicted = e.flows.evicted := (congrArg FlowTable.evicted h.flows :)
  have hfinal : ∀ e : Engine, e.finalizeStats.outline =
      let s := { e.stats.outline with
        flows := BoundedTable.len e.flows.flows
        flowsEvicted := e.flows.evicted
        fragmentsReassembled := e.frags.completed
        fragmentsDropped := e.frags.dropped }
      if s.firstTsNs = tsMax then { s with firstTsNs := 0, lastTsNs := 0 } else s := by
    intro e
    unfold finalizeStats
    dsimp only
    change RunStats.outline (if e.stats.firstTsNs = tsMax then _ else _) =
      if e.stats.firstTsNs = tsMax then _ else _
    split <;> rfl
  have hbad : ∀ s : RunStats, ({ s with badBlocks } : RunStats).outline =
      { s.outline with badBlocks } := fun _ => rfl
  rw [hfinal, hfinal]
  dsimp only
  rw [hbad, hbad, h.stats, h.frags, hevicted, hlen]

end Engine

/-! ### Runs -/

/-- **A run over a capture with a snap length.**  Cut the frames of a capture at a length that spares
their headers, and no fragment among them.  If the run over the capture and the run over what was kept
of it both end, then the rows of the two agree up to the transport layer, both collect the same flows,
with the same packets and bytes in either direction, states and intervals, and both count the same but
for bytes that were captured. -/
theorem run_snapped [Hashes] {ε δ : Type} {pool pool' : ThreadPool} {cfg : Config} {n size : ℕ}
    {onBatch : List (List Packet) → Except ε Unit} {onBatch' : List (List Packet) → Except δ Unit}
    {records : List RawPacket} {badBlocks : ℕ} {stats stats' : RunStats} {flows flows' : FlowTable}
    (hspared : ∀ r ∈ records, Spared n cfg.reassemble r)
    (hwhole : cfg.reassemble = true →
      ∀ r ∈ records, n < r.capLen.toNat → (dissectOne r.own cfg.reassemble).frag = none)
    (hend : (run pool cfg onBatch records badBlocks).result = .finished stats flows)
    (hend' : (run pool' { cfg with batchSize := size } onBatch'
      (records.map (RawPacket.snapped n)) badBlocks).result = .finished stats' flows') :
    (run pool' { cfg with batchSize := size } onBatch' (records.map (RawPacket.snapped n))
        badBlocks).delivered.flatten.map Packet.outline =
      (run pool cfg onBatch records badBlocks).delivered.flatten.map Packet.outline ∧
    flows'.sorted.map Flow.account = flows.sorted.map Flow.account ∧
    stats'.outline = stats.outline := by
  obtain ⟨e, hscan, rfl, rfl⟩ := scan_of_finished hend
  obtain ⟨e', hscan', rfl, rfl⟩ := scan_of_finished hend'
  have hnew : Engine.Outlined (Engine.new cfg) (Engine.new { cfg with batchSize := size }) :=
    ⟨rfl, rfl, rfl, rfl, rfl⟩
  obtain ⟨hrows, hsame⟩ := Engine.scan_snapped hspared hwhole hnew hscan hscan'
  refine ⟨hrows, ?_, Engine.outline_finalizeStats hsame badBlocks⟩
  rw [← FlowTable.sorted_accounts, ← FlowTable.sorted_accounts, hsame.flows]

/-- A datagram of four bytes behind an IPv4 and a UDP header. -/
def spokenFrame : Bytes :=
  [0x45, 0x00, 0x00, 0x20, 0x00, 0x01, 0x00, 0x00, 0x40, 0x11, 0x00, 0x00,
    0x0a, 0x00, 0x00, 0x05, 0x5d, 0xb8, 0xd8, 0x22,
    0x13, 0x88, 0x13, 0x89, 0x00, 0x0c, 0x00, 0x00, 0x01, 0x02, 0x03, 0x04]

/-- The datagram as it is captured. -/
def spoken : RawPacket :=
  { tsNs := 3, capLen := 32, origLen := 32, ifaceId := 0, linktype := 101, data := spokenFrame,
    data_le := by decide }

theorem spared_spoken [Hashes] : Spared 30 true spoken := by
  have hcalm : ¬ Panics spoken.own true := fun ⟨_, hp⟩ => nomatch hp
  have hcalm' : ¬ Panics (spoken.snapped 30).own true := fun ⟨_, hp⟩ => nomatch hp
  exact .inr ⟨⟨28, by rfl, by decide⟩, hcalm, hcalm'⟩

theorem run_spoken [Hashes] (pool : ThreadPool) : ∃ stats flows,
    (run pool {} (fun _ => (.ok () : Except Unit Unit)) [spoken, spoken] 0).result =
      .finished stats flows ∧
    flows.sorted.map (fun f => (f.packetsC2s, f.bytesC2s)) = [(2, 64)] := ⟨_, _, rfl, rfl⟩

theorem run_spoken_snapped [Hashes] (pool : ThreadPool) : ∃ stats flows,
    (run pool { batchSize := 2 } (fun _ => (.ok () : Except Unit Unit))
      ([spoken, spoken].map (RawPacket.snapped 30)) 0).result = .finished stats flows ∧
    stats.truncated = 2 := ⟨_, _, rfl, rfl⟩

/-- The datagram twice, cut two bytes behind its headers. -/
theorem run_snapped_spoken :
    (spoken.snapped 30).data = spokenFrame.take 30 ∧
    ∀ (_ : Hashes) (pool : ThreadPool), ∃ stats flows stats' flows',
    (run pool {} (fun _ => (.ok () : Except Unit Unit)) [spoken, spoken] 0).result =
      .finished stats flows ∧
    flows.sorted.map (fun f => (f.packetsC2s, f.bytesC2s)) = [(2, 64)] ∧
    (run pool { batchSize := 2 } (fun _ => (.ok () : Except Unit Unit))
      ([spoken, spoken].map (RawPacket.snapped 30)) 0).result = .finished stats' flows' ∧
    stats'.truncated = 2 ∧ flows'.sorted.map Flow.account = flows.sorted.map Flow.account ∧
    stats'.outline = stats.outline := by
  refine ⟨rfl, fun _ pool => ?_⟩
  have hspared : ∀ r ∈ [spoken, spoken], Spared 30 ({} : Config).reassemble r := by
    simp only [List.forall_mem_cons]
    exact ⟨spared_spoken, spared_spoken, fun _ h => absurd h List.not_mem_nil⟩
  have hfrag : (dissectOne spoken.own true).frag = none := by rfl
  have hwhole : ({} : Config).reassemble = true →
      ∀ r ∈ [spoken, spoken], 30 < r.capLen.toNat →
        (dissectOne r.own ({} : Config).reassemble).frag = none := by
    simp only [List.forall_mem_cons]
    exact fun _ => ⟨fun _ => hfrag, fun _ => hfrag, fun _ h => absurd h List.not_mem_nil⟩
  obtain ⟨stats, flows, hend, hflows⟩ := run_spoken pool
  obtain ⟨stats', flows', hend', htruncated⟩ := run_spoken_snapped pool
  obtain ⟨-, haccounts, hstats⟩ := run_snapped hspared hwhole hend hend'
  exact ⟨stats, flows, stats', flows', hend, hflows, hend', htruncated, haccounts, hstats⟩

end PcapRacer
