/-
**The row of a segment, with reassembly and without.**

Without reassembly a TCP payload is dissected where the walk of its frame finds it.  With reassembly
it is pushed into its stream first, and the row gets what application dispatch makes of the prefix of
the stream that the table hands back.

Main definitions:

* `Labelled` — the ports and the tuple that stand above a TCP payload are those of the payload;
* `appColumns` — what application dispatch makes of a payload;
* `InOrder` — the segment continues a stream from which nothing is missing, within the limits.

Main results:

* `EndsAtTcp.labelled` — the first pass knows the ports of the payload its walk ends at;
* `row_without_reassembly` — a row without reassembly has the columns of the payload;
* `row_with_reassembly` — a row with reassembly has the columns of the bytes the table hands back.
-/

import PcapRacer.AppStack
import PcapRacer.Reconnect

set_option relaxedAutoImplicit false
set_option autoImplicit false

namespace PcapRacer

/-! ### The ports above a TCP payload -/

/-- The columns and the tuple name the ports of the payload. -/
structure Labelled (p : Payload) (s : Hdr) : Prop where
  srcPort : s.transport.srcPort = some p.sport
  dstPort : s.transport.dstPort = some p.dport
  tuple : ∃ src dst, s.tuple =
    some { srcIp := src, dstIp := dst, srcPort := p.sport, dstPort := p.dport, proto := 6 }

/-- When the dissector starts from such a state and ends at a TCP payload, it has named the ports. -/
def Header.LabelsFrom (P : Hdr → Prop) (d : Header Onward) : Prop :=
  ∀ c s p c', P s → (d.run c s).1 = .ok (.payload p, c') → p.isTcp = true →
    Labelled p (d.run c s).2

/-- When the dissector ends at a TCP payload it has named the ports. -/
def Header.Labels (d : Header Onward) : Prop := d.LabelsFrom fun _ => True

namespace Header

theorem labelsFrom_bind {α : Type} {P Q : Hdr → Prop} {d : Header α} {f : α → Header Onward}
    (hd : ∀ c s, P s → Q (d.run c s).2) (hf : ∀ a, LabelsFrom Q (f a)) :
    LabelsFrom P (d >>= f) := by
  intro c s p c' hs h htcp
  have hq := hd c s hs
  rw [run_bind] at h ⊢
  rcases hx : d.run c s with ⟨x, s'⟩
  rw [hx] at h hq
  cases x with
  | error e => cases h
  | ok r => exact hf r.1 r.2 s' p c' hq h htcp

theorem labels_bind {α : Type} {d : Header α} {f : α → Header Onward} (hf : ∀ a, Labels (f a)) :
    Labels (d >>= f) := labelsFrom_bind (fun _ _ _ => trivial) hf

theorem labelsFrom_ite {P : Hdr → Prop} {q : Prop} [Decidable q] {d d' : Header Onward}
    (hd : LabelsFrom P d) (hd' : LabelsFrom P d') : LabelsFrom P (if q then d else d') := by
  split
  · exact hd
  · exact hd'

/-- The dissector never ends at a TCP payload. -/
def Tcpless (d : Header Onward) : Prop :=
  ∀ c s p c', (d.run c s).1 = .ok (.payload p, c') → p.isTcp = false

theorem Tcpless.labels {d : Header Onward} (h : d.Tcpless) : d.Labels := by
  intro c s p c' _ hx htcp
  rw [h c s p c' hx] at htcp
  cases htcp

theorem tcpless_done : Tcpless (pure .done) := fun _ _ _ _ h => by cases h

theorem tcpless_hop (next : Hop) : Tcpless (pure (.hop next)) := fun _ _ _ _ h => by cases h

theorem tcpless_fail (e : DissectError) : Tcpless (fail e) := fun _ _ _ _ h => by cases h

theorem tcpless_datagram (sport dport : UInt16) :
    Tcpless (pure (.payload { isTcp := false, sport, dport })) := fun _ _ _ _ h => by
  cases h
  rfl

theorem tcpless_bind {α : Type} {d : Header α} {f : α → Header Onward} (hf : ∀ a, Tcpless (f a)) :
    Tcpless (d >>= f) := by
  intro c s p c' h
  rw [run_bind] at h
  rcases hx : d.run c s with ⟨e | r, s'⟩
  · rw [hx] at h
    cases h
  · rw [hx] at h
    exact hf r.1 r.2 s' p c' h

theorem tcpless_ite {q : Prop} [Decidable q] {d d' : Header Onward} (hd : Tcpless d)
    (hd' : Tcpless d') : Tcpless (if q then d else d') := by
  split
  · exact hd
  · exact hd'

end Header

open Header

namespace Link

theorem tcpless_arp : Tcpless arp := by
  unfold arp
  repeat' with_reducible first
    | intro _ | exact tcpless_done | apply tcpless_bind | apply tcpless_ite

theorem tcpless_ethertypePayload (ethertype : UInt16) : Tcpless (ethertypePayload ethertype) := by
  unfold ethertypePayload
  split
  all_goals repeat' with_reducible first
    | intro _ | exact tcpless_done | exact tcpless_hop _ | exact tcpless_arp | exact tcpless_fail _
    | apply tcpless_bind

theorem tcpless_typeOrLength (ethertype : UInt16) : Tcpless (typeOrLength ethertype) :=
  tcpless_ite (tcpless_hop _) (tcpless_ethertypePayload _)

theorem tcpless_rawIp : Tcpless rawIp := by
  refine tcpless_bind fun b => ?_
  split
  · exact tcpless_hop _
  · exact tcpless_hop _
  · exact tcpless_fail _

theorem tcpless_pppPayload (proto : UInt16) : Tcpless (pppPayload proto) := by
  unfold pppPayload
  split
  · exact tcpless_hop _
  · exact tcpless_hop _
  · exact tcpless_fail _

theorem tcpless_ethernet : Tcpless ethernet := by
  unfold ethernet
  iterate 5 refine tcpless_bind fun _ => ?_
  exact tcpless_typeOrLength _

theorem tcpless_vlan : Tcpless vlan := by
  unfold vlan
  repeat' with_reducible first
    | intro _ | exact tcpless_typeOrLength _ | apply tcpless_bind | apply tcpless_ite

theorem tcpless_mpls : Tcpless mpls := by
  unfold mpls
  repeat' with_reducible first
    | intro _ | exact tcpless_rawIp | apply tcpless_bind | apply tcpless_ite

theorem tcpless_pppoe : Tcpless pppoe := by
  unfold pppoe
  repeat' with_reducible first | intro _ | exact tcpless_pppPayload _ | apply tcpless_bind

theorem tcpless_llc : Tcpless llc := by
  unfold llc
  repeat' with_reducible first
    | intro _ | exact tcpless_done | exact tcpless_ethertypePayload _ | apply tcpless_bind
    | apply tcpless_ite

theorem tcpless_ieee80211 : Tcpless ieee80211 := by
  unfold ieee80211
  repeat' with_reducible first
    | intro _ | exact tcpless_done | exact tcpless_hop _ | apply tcpless_bind | apply tcpless_ite

theorem tcpless_radiotap : Tcpless radiotap := by
  unfold radiotap
  repeat' with_reducible first
    | intro _ | exact tcpless_ieee80211 | apply tcpless_bind | apply tcpless_ite

theorem tcpless_loopback : Tcpless loopback := by
  unfold loopback
  refine tcpless_bind fun af => tcpless_bind fun _ => ?_
  split
  all_goals first | exact tcpless_hop _ | exact tcpless_fail _

theorem tcpless_dissectLink (linktype : UInt16) : Tcpless (dissectLink linktype) := by
  unfold dissectLink linuxSll linuxSll2 ppp
  split
  all_goals repeat' with_reducible first
    | intro _ | exact tcpless_hop _ | exact tcpless_rawIp | exact tcpless_loopback
    | exact tcpless_ieee80211 | exact tcpless_radiotap | exact tcpless_fail _
    | exact tcpless_ethertypePayload _ | exact tcpless_pppPayload _ | apply tcpless_bind
    | apply tcpless_ite

end Link

namespace Tunnel

theorem tcpless_gre : Tcpless gre := by
  unfold gre erspan
  repeat' with_reducible first
    | intro _ | exact tcpless_done | exact tcpless_hop _ | exact tcpless_fail _ | apply tcpless_bind
    | apply tcpless_ite | split

theorem tcpless_ipInIp (innerIsV6 : Bool) : Tcpless (ipInIp innerIsV6) :=
  tcpless_bind fun _ => tcpless_hop _

theorem tcpless_tryUdpTunnel {sport dport : UInt16} {d : Header Onward}
    (h : tryUdpTunnel sport dport = some d) : Tcpless d := by
  unfold tryUdpTunnel at h
  repeat' split at h
  all_goals cases h
  · unfold vxlan
    repeat' with_reducible first
      | intro _ | exact tcpless_hop _ | apply tcpless_bind | apply tcpless_ite
  · unfold geneve
    repeat' with_reducible first
      | intro _ | exact tcpless_hop _ | exact tcpless_fail _ | apply tcpless_bind | split
  · unfold gtp
    repeat' with_reducible first
      | intro _ | exact tcpless_done | exact Link.tcpless_rawIp | apply tcpless_bind
      | apply tcpless_ite
  · unfold l2tp
    repeat' with_reducible first
      | intro _ | exact tcpless_done | exact Link.tcpless_pppPayload _ | apply tcpless_bind
      | apply tcpless_ite
  · unfold teredo
    repeat' with_reducible first
      | intro _ | exact tcpless_hop _ | apply tcpless_bind | apply tcpless_ite

end Tunnel

namespace Transport

/-- Options never touch the ports and the sequence number. -/
theorem tcpOption_head (kind : UInt8) (body : Bytes) (t : TransportCols) :
    (tcpOption kind body t).2.srcPort = t.srcPort ∧
      (tcpOption kind body t).2.dstPort = t.dstPort ∧
      (tcpOption kind body t).2.tcpSeq = t.tcpSeq := by
  unfold tcpOption
  split
  · split <;> exact ⟨rfl, rfl, rfl⟩
  · dsimp only
    split <;> exact ⟨rfl, rfl, rfl⟩
  · exact ⟨rfl, rfl, rfl⟩
  · dsimp only
    split <;> exact ⟨rfl, rfl, rfl⟩
  · dsimp only
    split <;> exact ⟨rfl, rfl, rfl⟩
  · exact ⟨rfl, rfl, rfl⟩

theorem optionLoop_head (fuel : ℕ) (c : Cur) (t : TransportCols) :
    (optionLoop fuel c t).2.srcPort = t.srcPort ∧ (optionLoop fuel c t).2.dstPort = t.dstPort ∧
      (optionLoop fuel c t).2.tcpSeq = t.tcpSeq := by
  induction fuel generalizing c t with
  | zero => exact ⟨rfl, rfl, rfl⟩
  | succ fuel ih =>
      unfold optionLoop
      split
      · exact ⟨rfl, rfl, rfl⟩
      · split_ifs
        · exact ⟨rfl, rfl, rfl⟩
        · exact ih _ _
        · split
          · exact ⟨rfl, rfl, rfl⟩
          · split_ifs
            · exact ⟨rfl, rfl, rfl⟩
            · split
              · exact ⟨rfl, rfl, rfl⟩
              · obtain ⟨hsrc, hdst, hseq⟩ := ih _ _
                obtain ⟨hsrc', hdst', hseq'⟩ := tcpOption_head _ _ _
                exact ⟨hsrc.trans hsrc', hdst.trans hdst', hseq.trans hseq'⟩

theorem parseTcpOptions_head (opts : Bytes) (t : TransportCols) :
    (parseTcpOptions opts t).srcPort = t.srcPort ∧
      (parseTcpOptions opts t).dstPort = t.dstPort ∧
      (parseTcpOptions opts t).tcpSeq = t.tcpSeq := by
  have hloop := optionLoop_head opts.length (Cur.new opts) t
  unfold parseTcpOptions
  dsimp only
  split <;> exact hloop

theorem labels_tcp (src dst : IpAddr) : Labels (tcp src dst) := by
  refine labels_bind fun _ => ?_
  refine labels_bind fun sport => labels_bind fun dport => ?_
  iterate 6 refine labels_bind fun _ => ?_
  let p : Payload := { isTcp := true, sport, dport }
  have hend : LabelsFrom (Labelled p) (pure (.payload p)) := by
    intro c s q c' hs h _
    cases h
    exact hs
  -- the ports are written here, then the tuple, and the options keep both
  refine labelsFrom_bind (Q := fun s => s.transport.srcPort = some sport ∧
    s.transport.dstPort = some dport) (fun _ _ _ => ⟨rfl, rfl⟩) fun _ => ?_
  refine labelsFrom_bind (Q := Labelled p) (fun _ _ h => ⟨h.1, h.2, src, dst, rfl⟩) fun _ => ?_
  refine labelsFrom_bind (fun _ _ h => h) fun n => labelsFrom_ite ?_ hend
  refine labelsFrom_bind (fun _ _ h => h) fun opts => ?_
  refine labelsFrom_bind (fun _ s h => ?_) fun _ => hend
  obtain ⟨hsrc, hdst, -⟩ := parseTcpOptions_head opts s.transport
  exact ⟨hsrc.trans h.srcPort, hdst.trans h.dstPort, h.tuple⟩

theorem tcpless_udp (src dst : IpAddr) (proto : UInt8) : Tcpless (udp src dst proto) := by
  have hpay : ∀ sport dport, Tcpless (udpPayload sport dport) := by
    intro sport dport
    unfold udpPayload
    split
    · next d h => exact Tunnel.tcpless_tryUdpTunnel h
    · exact tcpless_datagram _ _
  unfold udp
  repeat' with_reducible first
    | intro _ | exact hpay _ _ | apply tcpless_bind | apply tcpless_ite

theorem tcpless_sctp (src dst : IpAddr) : Tcpless (sctp src dst) := by
  unfold sctp
  repeat' with_reducible first
    | intro _ | exact tcpless_done | apply tcpless_bind | apply tcpless_ite

end Transport

/-- Only the TCP dissector ends at a TCP payload. -/
theorem Network.tcpless_dispatchIpProto {proto : UInt8} (h : proto.toNat ≠ 6) (src dst : IpAddr) :
    Tcpless (dispatchIpProto proto src dst) := by
  unfold dispatchIpProto icmp icmpv6 igmp esp named
  refine tcpless_bind fun _ => ?_
  split
  · next hp => exact absurd hp h
  all_goals repeat' with_reducible first
    | intro _ | exact Transport.tcpless_udp _ _ _
    | exact Transport.tcpless_sctp _ _ | exact Tunnel.tcpless_gre | exact Tunnel.tcpless_ipInIp _
    | exact tcpless_done | exact tcpless_fail _ | apply tcpless_bind | apply tcpless_ite

theorem Network.labels_dispatchIpProto (proto : UInt8) (src dst : IpAddr) :
    Labels (dispatchIpProto proto src dst) := by
  by_cases hp : proto.toNat = 6
  · unfold dispatchIpProto
    rw [hp]
    exact labels_bind fun _ => Transport.labels_tcp _ _
  · exact (tcpless_dispatchIpProto hp src dst).labels

/-! ### Walks that end at a TCP payload -/

theorem afterIp_labelled {d : Datagram} {c c' : Cur} {s : Hdr} {frag : Option FragMeta} {p : Payload}
    (h : (afterIp d c s frag).next = .ok (.payload p, c')) (htcp : p.isTcp = true) :
    Labelled p (afterIp d c s frag).hdr := by
  unfold afterIp at h ⊢
  dsimp only at h ⊢
  split at h
  · cases h
  · rw [if_neg (by assumption)]
    exact Network.labels_dispatchIpProto d.proto d.src d.dst c s p c' trivial h htcp

theorem ip_labelled {header : Header Datagram} {c c' : Cur} {s : Hdr} {frag : Option FragMeta}
    {p : Payload} (h : (ip header c s frag).next = .ok (.payload p, c')) (htcp : p.isTcp = true) :
    Labelled p (ip header c s frag).hdr := by
  unfold ip at h ⊢
  rcases hd : header.run c s with ⟨x, s'⟩
  rw [hd] at h
  cases x with
  | error e => cases h
  | ok r => exact afterIp_labelled h htcp

/-- A hop that ends at a TCP payload has named its ports. -/
theorem hop_labelled {h : Hop} {c c' : Cur} {s : Hdr} {frag : Option FragMeta} {p : Payload}
    (hx : (hop h c s frag).next = .ok (.payload p, c')) (htcp : p.isTcp = true) :
    Labelled p (hop h c s frag).hdr := by
  cases h with
  | ethernet => exact Link.tcpless_ethernet.labels c s p c' trivial hx htcp
  | llc => exact Link.tcpless_llc.labels c s p c' trivial hx htcp
  | vlan => exact Link.tcpless_vlan.labels c s p c' trivial hx htcp
  | mpls => exact Link.tcpless_mpls.labels c s p c' trivial hx htcp
  | pppoe => exact Link.tcpless_pppoe.labels c s p c' trivial hx htcp
  | ipv4 => exact ip_labelled hx htcp
  | ipv6 => exact ip_labelled hx htcp

theorem follow_labelled {n : ℕ} {o : Onward} {c c' : Cur} {s : Hdr} {frag : Option FragMeta}
    {p : Payload} (hs : ∀ q, o = .payload q → q.isTcp = true → Labelled q s)
    (h : (follow n o c s frag).stop = .ok (some (p, c'))) (htcp : p.isTcp = true) :
    Labelled p (follow n o c s frag).hdr := by
  induction n generalizing o c s frag with
  | zero =>
      cases o with
      | done => cases h
      | payload q => cases h; exact hs p rfl htcp
      | hop _ => cases h
  | succ n ih =>
      cases o with
      | done => cases h
      | payload q => cases h; exact hs p rfl htcp
      | hop hp =>
          cases hx : (hop hp c s frag).next with
          | error e => simp only [follow, hx] at h; cases h
          | ok r =>
              simp only [follow, hx] at h ⊢
              refine ih (fun q hq hqtcp => ?_) h
              have hr : (hop hp c s frag).next = .ok (.payload q, r.2) := by rw [hx, ← hq]
              exact hop_labelled hr hqtcp

/-- **The first pass knows the ports of the TCP payload its walk ends at.** -/
theorem EndsAtTcp.labelled {o : Owned} {p : Payload} {c : Cur} (h : EndsAtTcp o p c) :
    Labelled p (frameJourney o).hdr := by
  obtain ⟨hstop, htcp⟩ := h
  unfold frameJourney journey at hstop ⊢
  rcases hd : (Link.dissectLink o.linktype).run (Cur.new o.data) { ifaceId := some o.ifaceId } with
    ⟨x, s'⟩
  rw [hd] at hstop
  cases x with
  | error e => cases hstop
  | ok r =>
      refine follow_labelled (fun q hq hqtcp => ?_) hstop htcp
      have htcpless := Link.tcpless_dissectLink o.linktype (Cur.new o.data)
        { ifaceId := some o.ifaceId } q r.2
      rw [hd] at htcpless
      rw [htcpless (by rw [← hq])] at hqtcp
      cases hqtcp

/-- The ports of the first pass are those of the payload. -/
theorem EndsAtTcp.ports {o : Owned} {p : Payload} {c : Cur} (h : EndsAtTcp o p c) :
    (frameJourney o).hdr.transport.srcPort.getD 0 = p.sport ∧
      (frameJourney o).hdr.transport.dstPort.getD 0 = p.dport := by
  rw [h.labelled.srcPort, h.labelled.dstPort]
  exact ⟨rfl, rfl⟩

/-! ### Segments in order -/

/-- The segment continues its stream: it starts where the buffer ends, nothing is held back, and no
limit is reached. -/
structure StreamTable.InOrder {κ : Type} [DecidableEq κ] (t : StreamTable κ) (g : Segment κ) :
    Prop where
  admits : ¬ BoundedTable.Refuses t.maxStreams t.streams g.key
  next : (t.entry g.key).offsetOf g.seq = (t.entry g.key).buf.length
  nothing_held : (t.entry g.key).pending = []
  room : (t.entry g.key).buf.length + g.payload.length ≤ t.maxBytes

/-- Every segment is the first of its stream in a new engine. -/
theorem Engine.inOrder_new {cfg : Config} {g : Segment StreamKey} (hstreams : 0 < cfg.maxStreams)
    (hroom : g.payload.length ≤ cfg.maxStreamBytes) : (Engine.new cfg).streams.InOrder g where
  admits := BoundedTable.not_refuses_of_lt hstreams
  next := by
    change (g.seq - g.seq).toNat = 0
    rw [UInt32.sub_self]
    rfl
  nothing_held := rfl
  room := by
    change 0 + g.payload.length ≤ cfg.maxStreamBytes
    omega

/-- Such a segment is appended to the buffer of its stream, and nothing else happens. -/
theorem Stream.push_next {s : Stream} {maxBytes : ℕ} {seq : UInt32} {payload : Bytes}
    (hnext : s.offsetOf seq = s.buf.length) (hheld : s.pending = [])
    (hroom : s.buf.length + payload.length ≤ maxBytes) :
    (s.push maxBytes seq payload).1 = { s.based seq with buf := s.buf ++ payload } := by
  have hplace : (s.based seq).place maxBytes seq (s.offsetOf seq) payload =
      ({ s.based seq with buf := s.buf ++ payload }, true) := if_pos hnext
  have hlen : ({ s.based seq with buf := s.buf ++ payload } : Stream).buf.length ≤ maxBytes := by
    rw [List.length_append]
    exact hroom
  have hdrain : ({ s.based seq with buf := s.buf ++ payload } : Stream).drain (s.baseOr seq) =
      { s.based seq with buf := s.buf ++ payload } := drain_of_pending_nil hheld
  rw [push_of_grows hplace, hdrain, clip_eq_self hlen]

/-- What is dissected for a segment in order: its stream, with the segment at the end. -/
theorem Engine.dissectedData_of_inOrder {e : Engine} {g : Segment StreamKey}
    (hne : g.payload ≠ []) (h : e.streams.InOrder g) :
    e.dissectedData g = (e.streams.entry g.key).buf ++ g.payload := by
  rw [dissectedData, StreamTable.push_eq_of_admits hne h.admits]
  exact congrArg Stream.buf (Stream.push_next h.next h.nothing_held h.room)

/-! ### Application columns -/

section Rows

variable [Hashes]

/-- What application dispatch makes of a TCP payload: its columns, or a panic. -/
def appColumns (payload : Bytes) (sport dport : UInt16) : Except Panic AppCols :=
  (App.identify payload sport dport true { stack := [], cols := {} }).map Sink.cols

/-- On whatever stack dispatch is called, these are the columns it writes. -/
theorem dispatch_app {payload : Bytes} (sport dport : UInt16) (ctx : Ctx) (hne : payload ≠ [])
    (hdone : ctx.appDone = false) (happ : ctx.pkt.app = {}) :
    (dispatch payload sport dport true ctx).map (fun ctx => ctx.pkt.app) =
      appColumns payload sport dport := by
  have hframed := App.identify_framed payload sport dport true ctx.stack { stack := [], cols := {} }
  have htop : onTop ctx.stack ({ stack := [], cols := {} } : Sink AppCols) =
      { stack := ctx.stack, cols := ctx.pkt.app } := by
    rw [onTop, List.append_nil, happ]
  rw [htop] at hframed
  rw [dispatch, if_neg (by simp [hdone, hne]), hframed, appColumns]
  cases App.identify payload sport dport true { stack := [], cols := {} } <;> rfl

/-- A stream prefix is dissected onto a packet whose application columns are still empty. -/
theorem dissectStream_app {pkt : Packet} {r : Reassembled} (hne : r.data ≠ []) (happ : pkt.app = {}) :
    (Engine.dissectStream pkt r).map Packet.app =
      appColumns r.data (pkt.transport.srcPort.getD 0) (pkt.transport.dstPort.getD 0) := by
  let reasm : ReasmCols := { reassembled := some r.multiSegment,
                             reassemblyPartial := some r.isPartial }
  have hdispatch := dispatch_app (pkt.transport.srcPort.getD 0) (pkt.transport.dstPort.getD 0)
    { pkt := { pkt with reasm }, reassembled := r.multiSegment } hne rfl happ
  rw [← hdispatch]
  unfold Engine.dissectStream
  dsimp only
  cases dispatch r.data (pkt.transport.srcPort.getD 0) (pkt.transport.dstPort.getD 0) true
    { pkt := { pkt with reasm }, reassembled := r.multiSegment } <;> rfl

/-! ### The row without reassembly -/

/-- **A row without reassembly has the columns of its own payload.** -/
theorem row_without_reassembly {o : Owned} {p : Payload} {c : Cur} {cols : AppCols} (e : Engine)
    (h : EndsAtTcp o p c) (hne : c.rest ≠ []) (hwhole : (frameJourney o).frag = none)
    (hcols : appColumns c.rest p.sport p.dport = .ok cols) :
    ∃ e' row, Engine.step false e o = .ok (e', row) ∧ row.app = cols := by
  obtain ⟨hstop, htcp⟩ := h
  -- the first pass dispatches the payload
  let ctx := frameCtx o false
  let ctx₀ : Ctx := { ctx with pkt := { ctx.pkt with payload := payloadCols true c.rest {} } }
  have hdispatch := dispatch_app p.sport p.dport ctx₀ hne rfl rfl
  obtain ⟨ctx₁, hctx₁, happ⟩ := map_eq_ok_iff.mp (hdispatch.trans hcols)
  have hpay : ctx.payload p c = .ok ctx₁ := by
    rw [Ctx.payload, htcp]
    exact hctx₁
  have hone : dissectOne o false = summary o false (.ok ()) ctx₁ := by
    refine dissectOne_of_arrive ?_
    rw [hstop, Ctx.arrive, hpay]
    rfl
  have hfrag : (dissectOne o false).frag = none := by
    cases hd : (dissectOne o false).frag with
    | none => rfl
    | some m => rw [dissectOne_frag o false hd] at hwhole; cases hwhole
  have hrange : (dissectOne o false).tcpPayload = none := by rw [hone]; rfl
  -- the serial phase has nothing to reassemble
  obtain ⟨⟨e', row⟩, hstep⟩ : ∃ r, Engine.step false e o = .ok r := by
    unfold Engine.step Engine.absorbOne
    rw [hfrag, ite_self, hrange]
    cases (dissectOne o false).tuple <;> exact ⟨_, rfl⟩
  refine ⟨e', row, hstep, ?_⟩
  rw [Engine.absorbOne_app hrange (fun m hm => by rw [hfrag] at hm; cases hm) hstep, hone]
  exact happ

/-! ### The row with reassembly -/

/-- A packet that is not a fragment: what its stream hands back is put on it, and it joins its
flow. -/
theorem step_of_whole_eq {e : Engine} {o : Owned} {t : Tuple} {segment : Bytes}
    (hfrag : (dissectOne o true).frag = none) (htuple : (dissectOne o true).tuple = some t)
    (hseg : Engine.segmentOf o (dissectOne o true).tcpPayload = some segment) :
    Engine.step true e o =
      (Engine.dissectStream (e.numbered (dissectOne o true).pkt)
        (Engine.reassembled e.streams t (e.numbered (dissectOne o true).pkt) segment).1).map
          fun pkt =>
            let joined := e.flows.observe t pkt o.tsNs (e.nextPacketId + 1) o.origLen.toUInt64
            let streams := (Engine.reassembled e.streams t (e.numbered (dissectOne o true).pkt)
              segment).2
            ({ e with streams, flows := joined.1,
                      stats := Engine.countPacket e.stats o (dissectOne o true),
                      nextPacketId := e.nextPacketId + 1 }, joined.2) := by
  unfold Engine.step Engine.absorbOne
  rw [hfrag, ite_self, htuple]
  change Engine.joinFlow _ (some t) (e.numbered (dissectOne o true).pkt) o
    (dissectOne o true).tcpPayload >>= _ = _
  unfold Engine.joinFlow Engine.reassembleAndDispatch
  rw [hseg]
  dsimp only
  cases Engine.dissectStream (e.numbered (dissectOne o true).pkt)
    (Engine.reassembled e.streams t (e.numbered (dissectOne o true).pkt) segment).1 <;> rfl

/-- Its row is what its stream hands back, put on the packet. -/
theorem step_row_of_whole {e : Engine} {o : Owned} {t : Tuple} {segment : Bytes}
    (hfrag : (dissectOne o true).frag = none) (htuple : (dissectOne o true).tuple = some t)
    (hseg : Engine.segmentOf o (dissectOne o true).tcpPayload = some segment) :
    (Engine.step true e o).map Prod.snd =
      (Engine.dissectStream (e.numbered (dissectOne o true).pkt)
        (Engine.reassembled e.streams t (e.numbered (dissectOne o true).pkt) segment).1).map
          fun pkt => (e.flows.observe t pkt o.tsNs (e.nextPacketId + 1) o.origLen.toUInt64).2 := by
  rw [step_of_whole_eq hfrag htuple hseg]
  cases Engine.dissectStream (e.numbered (dissectOne o true).pkt)
    (Engine.reassembled e.streams t (e.numbered (dissectOne o true).pkt) segment).1 <;> rfl

/-- Its application columns are those of what its stream hands back. -/
theorem step_app_of_whole {e : Engine} {o : Owned} {t : Tuple} {segment : Bytes}
    (hfrag : (dissectOne o true).frag = none) (htuple : (dissectOne o true).tuple = some t)
    (hseg : Engine.segmentOf o (dissectOne o true).tcpPayload = some segment) :
    (Engine.step true e o).map (fun r => r.2.app) =
      (Engine.dissectStream (e.numbered (dissectOne o true).pkt)
        (Engine.reassembled e.streams t (e.numbered (dissectOne o true).pkt) segment).1).map
          Packet.app := by
  have hcomp : (Engine.step true e o).map (fun r => r.2.app) =
      ((Engine.step true e o).map Prod.snd).map Packet.app := by
    cases Engine.step true e o <;> rfl
  rw [hcomp, step_row_of_whole hfrag htuple hseg]
  cases Engine.dissectStream (e.numbered (dissectOne o true).pkt)
      (Engine.reassembled e.streams t (e.numbered (dissectOne o true).pkt) segment).1 with
  | error q => rfl
  | ok pkt =>
      have hsnd := Engine.observe_snd e.flows t pkt o.tsNs (e.nextPacketId + 1) o.origLen.toUInt64
      have happ : (e.flows.observe t pkt o.tsNs (e.nextPacketId + 1) o.origLen.toUInt64).2.app =
          pkt.app := by rw [hsnd]
      exact congrArg Except.ok happ

/-- The segment that a TCP payload makes. -/
def tcpSegment (o : Owned) (t : Tuple) (c : Cur) : Segment StreamKey :=
  { key := Engine.streamKey t, seq := (frameJourney o).hdr.transport.tcpSeq.getD 0,
    payload := c.rest }

/-- What the stream table hands back for the payload of a frame. -/
theorem reassembled_tcpSegment {o : Owned} {p : Payload} {c : Cur} (h : EndsAtTcp o p c)
    (e : Engine) (t : Tuple) :
    (Engine.reassembled e.streams t (e.numbered (dissectOne o true).pkt) c.rest).1.data =
      e.dissectedData (tcpSegment o t c) := by
  have htransport : (dissectOne o true).pkt.transport = (frameJourney o).hdr.transport := by
    rw [dissectOne_of_deferred h]
    rfl
  rw [Engine.reassembled_data]
  change e.dissectedData { key := _, seq := (dissectOne o true).pkt.transport.tcpSeq.getD 0,
                           payload := _ } = _
  rw [htransport]
  rfl

/-- **A row with reassembly has the columns of the bytes that its stream hands back.** -/
theorem row_with_reassembly {e : Engine} {o : Owned} {p : Payload} {c : Cur} {t : Tuple}
    (h : EndsAtTcp o p c) (hne : c.rest ≠ []) (hwhole : (frameJourney o).frag = none)
    (hplace : PayloadAtEnd o c) (ht : (frameJourney o).hdr.tuple = some t)
    (hdata : e.dissectedData (tcpSegment o t c) ≠ []) :
    (Engine.step true e o).map (fun r => r.2.app) =
      appColumns (e.dissectedData (tcpSegment o t c)) p.sport p.dport := by
  have hone := dissectOne_of_deferred h
  have hfrag : (dissectOne o true).frag = none := by rw [hone]; exact hwhole
  have htuple : (dissectOne o true).tuple = some t := by rw [hone]; exact ht
  have htransport : (dissectOne o true).pkt.transport = (frameJourney o).hdr.transport := by
    rw [hone]
    rfl
  have happ : (e.numbered (dissectOne o true).pkt).app = {} := by rw [hone]; rfl
  have hseg := segmentOf_of_atEnd h hne hplace
  have hr := reassembled_tcpSegment h e t
  rw [step_app_of_whole hfrag htuple hseg, dissectStream_app (hr ▸ hdata) happ, hr]
  change appColumns _ ((dissectOne o true).pkt.transport.srcPort.getD 0)
    ((dissectOne o true).pkt.transport.dstPort.getD 0) = _
  rw [htransport, h.ports.1, h.ports.2]

/-! ### Both rows -/

/-- **The two rows of a segment in order.**  Without reassembly the row has the columns of the
segment; with reassembly those of its whole stream so far, the segment included.  For the first
segment of a stream these are the same. -/
theorem rows_of_segment_in_order (e e₀ : Engine) (o : Owned) (p : Payload) (c : Cur) (t : Tuple)
    (cols : AppCols) (h : EndsAtTcp o p c) (hne : c.rest ≠ [])
    (hwhole : (frameJourney o).frag = none) (hplace : PayloadAtEnd o c)
    (ht : (frameJourney o).hdr.tuple = some t)
    (hcols : appColumns c.rest p.sport p.dport = .ok cols)
    (horder : e.streams.InOrder (tcpSegment o t c)) :
    (∃ e₁ row, Engine.step false e₀ o = .ok (e₁, row) ∧ row.app = cols) ∧
      (Engine.step true e o).map (fun r => r.2.app) =
        appColumns ((e.streams.entry (Engine.streamKey t)).buf ++ c.rest) p.sport p.dport ∧
      ((e.streams.entry (Engine.streamKey t)).buf = [] →
        ∃ e₁ row, Engine.step true e o = .ok (e₁, row) ∧ row.app = cols) := by
  have hdata := Engine.dissectedData_of_inOrder (g := tcpSegment o t c) hne horder
  have hrow : (Engine.step true e o).map (fun r => r.2.app) =
      appColumns ((e.streams.entry (Engine.streamKey t)).buf ++ c.rest) p.sport p.dport := by
    rw [row_with_reassembly h hne hwhole hplace ht, hdata]
    · rfl
    · rw [hdata]
      exact List.append_ne_nil_of_right_ne_nil _ hne
  refine ⟨row_without_reassembly e₀ h hne hwhole hcols, hrow, fun hfirst => ?_⟩
  rw [hfirst, List.nil_append, hcols] at hrow
  obtain ⟨r, hstep, happ⟩ := map_eq_ok_iff.mp hrow
  exact ⟨r.1, r.2, hstep, happ⟩

end Rows

/-! ### Two requests on one connection -/

/-- A segment of a connection from port 50000 to port 80: Ethernet, IPv4, TCP. -/
def requestFrame (seq : UInt8) (payload : Bytes) (h : payload.length ≤ 26) : Owned :=
  { capLen := 80, origLen := 80, linktype := 1,
    data :=
      [0x00, 0x11, 0x22, 0x33, 0x44, 0x55, 0x66, 0x77, 0x88, 0x99, 0xaa, 0xbb, 0x08, 0x00] ++
      [0x45, 0, 0, 40 + UInt8.ofNat payload.length, 0, 1, 0x40, 0, 64, 6, 0, 0,
        10, 0, 0, 5, 93, 184, 216, 34] ++
      [0xc3, 0x50, 0, 80, 0, 0, 0, seq, 0, 0, 0, 1, 0x50, 0x18, 0xff, 0xff, 0, 0, 0, 0] ++
      payload
    data_le := by
      simp only [List.length_append, List.length_cons, List.length_nil]
      exact Nat.add_le_add_left h 54 }

/-- The request for `/a`, and the one for `/b` after it. -/
def requestA : Bytes := Text.ascii "GET /a HTTP/1.1\r\n\r\n"

def requestB : Bytes := Text.ascii "GET /b HTTP/1.1\r\n\r\n"

def frameA : Owned := requestFrame 0 requestA (by decide)

def frameB : Owned := requestFrame 19 requestB (by decide)

/-- The conversation of both. -/
def requestTuple : Tuple :=
  { srcIp := .v4 0x0a000005, dstIp := .v4 0x5db8d822, srcPort := 50000, dstPort := 80, proto := 6 }

/-- Where the walks of the two frames end. -/
def curA : Cur := { base := 0, data := frameA.data, pos := 54, pos_le := by decide }

def curB : Cur := { base := 0, data := frameB.data, pos := 54, pos_le := by decide }

/-- The request target that the HTTP dissector finds in a payload. -/
def httpTarget (payload : Bytes) : Option Text :=
  match (AppHttp.parse payload).exec { stack := [], cols := {} } with
  | .ok (.ok _, s) => s.cols.httpUri
  | _ => none

/-- On port 80 these are the columns of the HTTP dissector. -/
theorem appColumns_of_httpTarget [Hashes] {payload : Bytes} {uri : Text}
    (h2 : AppHttp.looksLikeHttp2 payload = false) (h : httpTarget payload = some uri) :
    ∃ cols, appColumns payload 50000 80 = .ok cols ∧ cols.http.httpUri = some uri := by
  unfold httpTarget at h
  split at h
  · next u s hexec =>
      have hport : App.byPort payload 80 true false = some (App.http (AppHttp.parse payload)) := by
        change some (App.httpPort payload) = _
        rw [App.httpPort, if_neg (by simp [h2])]
      have htry : App.tryDissector (some (App.http (AppHttp.parse payload)))
          { stack := [], cols := {} } =
            .ok (true, { stack := s.stack, cols := { ({} : AppCols) with http := s.cols } }) := by
        rw [App.tryDissector, App.http, App.part, zoom_exec, hexec]
        rfl
      refine ⟨{ ({} : AppCols) with http := s.cols }, ?_, h⟩
      rw [appColumns, App.identify, hport, htry]
      rfl
  · cases h

/-- What is made of either request, and of both. -/
theorem requestA_columns [Hashes] : ∃ cols, appColumns requestA 50000 80 = .ok cols ∧
    cols.http.httpUri = some "/a".toList :=
  appColumns_of_httpTarget (by decide +kernel) (by decide +kernel)

theorem requestB_columns [Hashes] : ∃ cols, appColumns requestB 50000 80 = .ok cols ∧
    cols.http.httpUri = some "/b".toList :=
  appColumns_of_httpTarget (by decide +kernel) (by decide +kernel)

theorem bothRequests_columns [Hashes] : ∃ cols, appColumns (requestA ++ requestB) 50000 80 = .ok cols ∧
    cols.http.httpUri = some "/a".toList :=
  appColumns_of_httpTarget (by decide +kernel) (by decide +kernel)

/-- Nothing stands before the first request. -/
theorem inOrder_frameA :
    (Engine.new {}).streams.InOrder (tcpSegment frameA requestTuple curA) :=
  Engine.inOrder_new (by decide) (by decide)

/-- The second request, once the first one is buffered, is the next segment of the stream. -/
theorem inOrder_frameB [Hashes] {e : Engine} {row : Packet}
    (h : Engine.step true (Engine.new {}) frameA = .ok (e, row)) :
    e.streams.InOrder (tcpSegment frameB requestTuple curB) ∧
      (e.streams.entry (Engine.streamKey requestTuple)).buf = requestA := by
  have hstreams : e.streams = (Engine.new {}).streams.run
      [⟨Engine.streamKey requestTuple, 0, requestA⟩] := by
    rw [Engine.step_streams h, Engine.offered_of_whole (t := requestTuple) _ rfl rfl]
    rfl
  rw [hstreams]
  exact ⟨⟨BoundedTable.not_refuses_of_lt (by decide), rfl, rfl, by decide⟩, rfl⟩

/-- The first request has the same columns in both rows; the second one has those of the request in
the one row, and those of both requests in the other. -/
theorem rows_of_requests : EndsAtTcp frameA toPort80 curA ∧ EndsAtTcp frameB toPort80 curB ∧
    ∀ _ : Hashes, ∃ (e : Engine) (row : Packet) (cols cols' : AppCols),
      Engine.step true (Engine.new {}) frameA = .ok (e, row) ∧ row.app = cols ∧
      appColumns requestA 50000 80 = .ok cols ∧ appColumns requestB 50000 80 = .ok cols' ∧
      (∃ e₁ row, Engine.step false (Engine.new { reassemble := false }) frameB = .ok (e₁, row) ∧
        row.app = cols') ∧
      (Engine.step true e frameB).map (fun r => r.2.app) =
        appColumns (requestA ++ requestB) 50000 80 := by
  refine ⟨⟨rfl, rfl⟩, ⟨rfl, rfl⟩, fun _ => ?_⟩
  obtain ⟨cols, hcols, -⟩ := requestA_columns
  obtain ⟨cols', hcols', -⟩ := requestB_columns
  obtain ⟨-, -, hfirst⟩ := rows_of_segment_in_order (Engine.new {})
    (Engine.new { reassemble := false }) frameA toPort80 curA requestTuple cols ⟨rfl, rfl⟩
    (by decide) rfl ⟨by decide, .inl ⟨by decide, by decide⟩⟩ rfl hcols inOrder_frameA
  obtain ⟨e, row, hstep, happ⟩ := hfirst rfl
  obtain ⟨horder, hbuf⟩ := inOrder_frameB hstep
  obtain ⟨halone, hprefix, -⟩ := rows_of_segment_in_order e
    (Engine.new { reassemble := false }) frameB toPort80 curB requestTuple cols' ⟨rfl, rfl⟩
    (by decide) rfl ⟨by decide, .inl ⟨by decide, by decide⟩⟩ rfl hcols' horder
  rw [hbuf] at hprefix
  exact ⟨e, row, cols, cols', hstep, happ, hcols, hcols', halone, hprefix⟩

/-- The second request is the next segment of the stream, and complete on its own.  Without
reassembly its row names it; with reassembly the row names the first request. -/
theorem second_request_repeats_first : EndsAtTcp frameB toPort80 curB ∧ ∀ _ : Hashes,
    ∃ (e e' e₀ e₀' : Engine) (rowA rowB rowA₀ rowB₀ : Packet) (cols : AppCols),
      appColumns requestB 50000 80 = .ok cols ∧
      Engine.step true (Engine.new {}) frameA = .ok (e, rowA) ∧
      e.streams.InOrder (tcpSegment frameB requestTuple curB) ∧
      Engine.step true e frameB = .ok (e', rowB) ∧
      Engine.step false (Engine.new { reassemble := false }) frameA = .ok (e₀, rowA₀) ∧
      Engine.step false e₀ frameB = .ok (e₀', rowB₀) ∧
      rowB₀.app = cols ∧ rowB₀.app.http.httpUri = some "/b".toList ∧
      rowB.app.http.httpUri = some "/a".toList := by
  refine ⟨⟨rfl, rfl⟩, fun _ => ?_⟩
  have hendA : EndsAtTcp frameA toPort80 curA := ⟨rfl, rfl⟩
  have hendB : EndsAtTcp frameB toPort80 curB := ⟨rfl, rfl⟩
  have hplaceA : PayloadAtEnd frameA curA := ⟨by decide, .inl ⟨by decide, by decide⟩⟩
  have hplaceB : PayloadAtEnd frameB curB := ⟨by decide, .inl ⟨by decide, by decide⟩⟩
  obtain ⟨colsA, hcolsA, -⟩ := requestA_columns
  obtain ⟨colsB, hcolsB, huriB⟩ := requestB_columns
  obtain ⟨colsAB, hcolsAB, huriAB⟩ := bothRequests_columns
  -- without reassembly
  obtain ⟨e₀, rowA₀, hstepA₀, -⟩ := row_without_reassembly (Engine.new { reassemble := false })
    hendA (by decide) rfl hcolsA
  obtain ⟨e₀', rowB₀, hstepB₀, happ₀⟩ := row_without_reassembly e₀ hendB (by decide) rfl hcolsB
  -- with reassembly: the first request is buffered
  have hdataA : (Engine.new {}).dissectedData (tcpSegment frameA requestTuple curA) = requestA :=
    Engine.dissectedData_of_inOrder (by decide) inOrder_frameA
  have hrowA := row_with_reassembly (e := Engine.new {}) (t := requestTuple) hendA (by decide) rfl
    hplaceA rfl (by rw [hdataA]; decide)
  rw [hdataA, show toPort80.sport = 50000 from rfl, show toPort80.dport = 80 from rfl, hcolsA]
    at hrowA
  obtain ⟨⟨e, rowA⟩, hstepA, -⟩ := map_eq_ok_iff.mp hrowA
  obtain ⟨horder, hbuf⟩ := inOrder_frameB hstepA
  have hdataB : e.dissectedData (tcpSegment frameB requestTuple curB) = requestA ++ requestB := by
    rw [Engine.dissectedData_of_inOrder (by decide) horder]
    exact congrArg (· ++ requestB) hbuf
  have hrowB := row_with_reassembly (t := requestTuple) hendB (by decide) rfl hplaceB rfl
    (by rw [hdataB]; decide)
  rw [hdataB, show toPort80.sport = 50000 from rfl, show toPort80.dport = 80 from rfl, hcolsAB]
    at hrowB
  obtain ⟨⟨e', rowB⟩, hstepB, happ⟩ := map_eq_ok_iff.mp hrowB
  refine ⟨e, e', e₀, e₀', rowA, rowB, rowA₀, rowB₀, colsB, hcolsB, hstepA, horder, hstepB, hstepA₀,
    hstepB₀, happ₀, ?_, ?_⟩
  · rw [happ₀, huriB]
  · rw [show rowB.app = colsAB from happ, huriAB]

end PcapRacer
