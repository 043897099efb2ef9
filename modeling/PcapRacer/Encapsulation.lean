/-
**Packets in packets.**

A frame may hold a packet behind any number of tags, labels and tunnel headers.  One hop of the walk
takes off one of them: a header of the link layer, or an IP header and the tunnel behind it, over UDP
or not.  What it keeps is the name of the header and the addressing of the outermost tunnel; the
bytes it hands over are those that the header stands around.

Main definitions:

* `CarriesIp`, `OverIp`, `OverUdp` — IP headers and tunnel headers on the wire;
* `Envelope`, `Trail.takeOff` — what one header is, and what taking it off leaves;
* `Wraps`, `Encapsulated` — one header around a packet, and any number of them.

Main results:

* `Network.ipv4_gives`, `Network.ipv6_gives`, `Transport.udp_gives`, `Transport.tcp_gives` — one
  header of each kind is taken off;
* `hop_of_wraps` — **one hop takes off one header**.
-/

import PcapRacer.SegmentRows
import PcapRacer.TrailingBytes
import PcapRacer.TunnelShells
import PcapRacer.V6Chain

set_option relaxedAutoImplicit false
set_option autoImplicit false

namespace PcapRacer

/-! ### IP headers -/

namespace Header

section Rules

variable {β : Type} {x y : Bytes} {t : Trail} {o : Except DissectError (β × Bytes) × Trail}

/-- What follows is confined to the bytes that come first. -/
theorem gives_confine_bind {f : Unit → Header β} (h : Gives (f ()) x t o) :
    Gives (confine x.length >>= f) (x ++ y) t o := by
  intro c s hc hs
  obtain ⟨c', hrest, hrun⟩ := confine_run hc s
  rw [run_bind, hrun]
  exact h c' s hrest hs

/-- What follows is confined to so many bytes, if there are more. -/
theorem gives_confined {n : ℕ} {p : Prop} [Decidable p] {k : Header β} (hp : p)
    (h : Gives k (x.take n) t o) :
    Gives (remaining >>= fun left => if p ∧ n < left then confine n >>= fun _ => k else k) x t o := by
  refine gives_remaining_bind ?_
  by_cases hmore : n < x.length
  · have hlen : (x.take n).length = n := by
      rw [List.length_take]
      omega
    have hconfine := gives_confine_bind (x := x.take n) (y := x.drop n) (f := fun _ => k) h
    rw [hlen, List.take_append_drop] at hconfine
    rw [if_pos ⟨hp, hmore⟩]
    exact hconfine
  · rw [if_neg fun h => hmore h.2]
    rwa [List.take_of_length_le (Nat.not_lt.mp hmore)] at h

end Rules

end Header

namespace Network

open Header

variable {t : Trail}

/-- **An IPv4 header is taken off**, with its options and what stands behind the datagram. -/
theorem ipv4_gives (D : V4Datagram) (hbody : D.body ≠ []) (tail : Bytes) :
    Gives ipv4 (D.bytes ++ tail) t
      (.ok (D.datagram, D.body), (t.push .ip).address D.datagram.src D.datagram.dst) := by
  have hafter : ∀ t, Gives D.afterFixed (D.options ++ (D.body ++ tail)) t
      (.ok (D.datagram, D.body), t) := by
    intro t
    have htotal := D.toNat_totalLen
    have hpos := List.length_pos_of_ne_nil hbody
    have hconfine : D.totalLen.toNat - (D.verIhl &&& 0x0f).toNat * 4 = D.body.length := by
      rw [D.ihl]
      omega
    have hlong : (D.verIhl &&& 0x0f).toNat * 4 < D.totalLen.toNat := by
      rw [D.ihl]
      omega
    have hopts : (D.verIhl &&& 0x0f).toNat * 4 - 20 = D.options.length := by
      rw [D.ihl]
      omega
    have hend : ∀ t, Gives (do
        if (D.verIhl &&& 0x0f).toNat * 4 < D.totalLen.toNat ∧
            D.totalLen.toNat - (D.verIhl &&& 0x0f).toNat * 4 < (← remaining) then
          confine (D.totalLen.toNat - (D.verIhl &&& 0x0f).toNat * 4)
        return D.datagram) (D.body ++ tail) t (.ok (D.datagram, D.body), t) := by
      intro t
      rw [hconfine]
      refine gives_confined hlong ?_
      rw [List.take_left]
      exact gives_pure _
    unfold V4Datagram.afterFixed
    by_cases hoptions : 20 < (D.verIhl &&& 0x0f).toNat * 4
    · rw [if_pos hoptions]
      refine gives_take_bind hopts.symm (gives_keep_bind (fun _ => rfl) ?_)
      exact hend t
    · have hnone : D.options = [] := by
        rw [D.ihl] at hoptions
        exact List.length_eq_zero_iff.mp (by omega)
      rw [if_neg hoptions, hnone]
      exact hend t
  have hihl : ¬ (D.verIhl &&& 0x0f).toNat * 4 < 20 := by
    have := D.ihl
    omega
  simp only [V4Datagram.bytes, List.append_assoc, List.cons_append, List.nil_append]
  refine gives_layer_bind (gives_u8_bind ?_)
  dsimp only
  rw [if_neg (not_not_intro D.version), if_neg hihl]
  refine gives_u8_bind (gives_read_bind (x := netOrder _) rfl ?_)
  refine gives_read_bind D.length_ident (gives_read_bind D.length_flagsFrag ?_)
  refine gives_u8_bind (gives_u8_bind ?_)
  refine gives_read_bind D.length_checksum (gives_read_bind D.length_src ?_)
  refine gives_read_bind D.length_dst ?_
  refine gives_set_bind (φ := fun t => t.address D.datagram.src D.datagram.dst) (fun _ => rfl) ?_
  rw [ofNat_netOrder]
  exact hafter _

theorem trail_marked (hs : List ChainHeader) (s : Hdr) :
    (hs.foldl ChainHeader.mark s).trail = s.trail := by
  induction hs generalizing s with
  | nil => rfl
  | cons h hs ih =>
      rw [List.foldl_cons, ih]
      cases h <;> rfl

/-- **An IPv6 header is taken off**, with its extension headers. -/
theorem ipv6_gives (P : V6Packet) :
    Gives ipv6 P.bytes t
      (.ok (⟨P.proto, .v6 P.src, .v6 P.dst, (lastOffset P.chain).getD 0⟩, P.payload),
        (t.push .ipv6).address (.v6 P.src) (.v6 P.dst)) := by
  have hend : ∀ (chain : ExtChain) (t : Trail), Gives (afterChain P.src P.dst chain) P.payload t
      (.ok (⟨chain.proto, .v6 P.src, .v6 P.dst, chain.fragOffset⟩, P.payload), t) := by
    intro chain t
    unfold afterChain
    split
    · exact gives_keep_bind (fun _ => rfl) (gives_keep_bind (fun _ => rfl) (gives_pure _))
    · exact gives_keep_bind (fun _ => rfl) (gives_pure _)
  have hchain : ∀ t, Gives (extensionChain 16
      { proto := ChainHeader.headKind P.chain P.proto, names := [], fragOffset := 0 })
      (ChainHeader.bytesOf P.chain P.proto ++ P.payload) t
      (.ok (⟨P.proto, P.chain.map ChainHeader.name, (lastOffset P.chain).getD 0⟩, P.payload), t) := by
    intro t
    have hguard : 16 = 15 - P.chain.length + 1 + P.chain.length := by
      have := P.length_chain
      omega
    refine gives_of_run (fun c s hc hs => ?_) (gives_pure _)
    obtain ⟨c', hrest, hrun⟩ := extensionChain_chain hc (15 - P.chain.length + 1) [] 0
    refine ⟨c', P.chain.foldl ChainHeader.mark s, hrest, (trail_marked _ s).trans hs, ?_⟩
    rw [hguard, hrun s, extensionChain_end P.upper, List.nil_append]
  simp only [V6Packet.bytes, List.cons_append, List.nil_append]
  refine gives_layer_bind (gives_read_bind P.length_flow ?_)
  dsimp only
  rw [if_neg (not_not_intro P.version)]
  refine gives_be16_bind (gives_u8_bind (gives_u8_bind ?_))
  refine gives_read_bind (length_beBytes 16 _) (gives_read_bind (length_beBytes 16 _) ?_)
  rw [ofNat_beBytes_sixteen, ofNat_beBytes_sixteen]
  refine gives_set_bind (φ := fun t => t.address (.v6 P.src) (.v6 P.dst)) (fun _ => rfl) ?_
  exact gives_bind (hchain _) (hend _ _)

end Network

/-! ### Transport headers -/

namespace Transport

open Header

variable {t : Trail} {o : Except DissectError (Onward × Bytes) × Trail}

/-- The header of a UDP datagram. -/
structure UdpHead where
  sport : UInt16
  dport : UInt16
  len : UInt16
  checksum : UInt16

namespace UdpHead

variable (u : UdpHead)

def bytes (body : Bytes) : Bytes :=
  beBytes 2 u.sport.toNat ++ (beBytes 2 u.dport.toNat ++ (beBytes 2 u.len.toNat ++
    (beBytes 2 u.checksum.toNat ++ body)))

/-- What the stated length leaves of the body; a length that does not cover the header says nothing.
-/
def payload (body : Bytes) : Bytes :=
  if 8 ≤ u.len.toNat then body.take (u.len.toNat - 8) else body

end UdpHead

/-- **A UDP header is taken off**, with what stands behind the stated length. -/
theorem udp_gives (src dst : IpAddr) (proto : UInt8) (u : UdpHead) {body : Bytes}
    (h : Gives (udpPayload u.sport u.dport) (u.payload body)
      (((t.push .udp).port u.sport u.dport).converse src dst u.sport u.dport proto) o) :
    Gives (udp src dst proto) (u.bytes body) t o := by
  refine gives_layer_bind (gives_be16_bind (gives_be16_bind (gives_be16_bind (gives_be16_bind ?_))))
  refine gives_set_bind (φ := fun t => t.port u.sport u.dport) (fun _ => rfl) ?_
  refine gives_set_bind (φ := fun t => t.converse src dst u.sport u.dport proto) (fun _ => rfl) ?_
  unfold UdpHead.payload at h
  by_cases hlen : 8 ≤ u.len.toNat
  · rw [if_pos hlen] at h
    exact gives_confined hlen h
  · rw [if_neg hlen] at h
    refine gives_remaining_bind ?_
    rw [if_neg fun h => hlen h.1]
    exact h

/-- Where the payload of a segment begins: past the options, if these are all there. -/
def tcpSkip (b : Bytes) : ℕ :=
  if dataOffsetOf b ≤ b.length then max 20 (dataOffsetOf b) else 20

/-- **A TCP header is taken off.** -/
theorem tcp_gives (src dst : IpAddr) {b : Bytes} (h : 20 ≤ b.length) :
    Gives (tcp src dst) b t
      (.ok (.payload { isTcp := true, sport := sportOf b, dport := dportOf b }, b.drop (tcpSkip b)),
        ((t.push .tcp).port (sportOf b) (dportOf b)).converse src dst (sportOf b) (dportOf b) 6) := by
  have hbody : ∀ (c : Cur) (s : Hdr), c.rest = b → s.trail = t → ∃ c' s', c'.rest = b.drop 20 ∧
      s'.trail = t.push .tcp ∧ (tcp src dst).run c s = (tcpBody src dst b).run c' s' := by
    rintro c s rfl rfl
    obtain ⟨c', hrest, hrun⟩ := tcp_of_le src dst s (by rwa [← Cur.length_rest])
    exact ⟨c', _, hrest, rfl, hrun⟩
  refine gives_of_run hbody ?_
  · refine gives_set_bind (φ := fun t => t.port (sportOf b) (dportOf b)) (fun _ => rfl) ?_
    refine gives_set_bind (φ := fun t => t.converse src dst (sportOf b) (dportOf b) 6)
      (fun _ => rfl) (gives_remaining_bind ?_)
    rw [List.length_drop]
    by_cases hopt : 0 < dataOffsetOf b - 20 ∧ dataOffsetOf b - 20 ≤ b.length - 20
    · have hskip : tcpSkip b = 20 + (dataOffsetOf b - 20) := by
        unfold tcpSkip
        split <;> omega
      have hsplit : b.drop 20 = (b.drop 20).take (dataOffsetOf b - 20) ++ b.drop (tcpSkip b) := by
        rw [hskip, ← List.drop_drop, List.take_append_drop]
      rw [if_pos hopt, hsplit]
      refine gives_take_bind (by rw [List.length_take, List.length_drop]; omega) ?_
      refine gives_keep_bind (fun s => ?_) (gives_pure _)
      obtain ⟨hsport, hdport, -⟩ :=
        parseTcpOptions_head ((b.drop 20).take (dataOffsetOf b - 20)) s.transport
      simp only [Hdr.trail, hsport, hdport]
    · have hskip : tcpSkip b = 20 := by
        unfold tcpSkip
        split <;> omega
      rw [if_neg hopt, hskip]
      exact gives_pure _

end Transport

/-! ### Tunnel headers -/

/-- A tunnel over UDP: its decoder, its header around `y`, and what the decoder hands over to. -/
inductive OverUdp : Header Onward → Bytes → Layer → Hop → Bytes → Prop
  | vxlan {flags : UInt8} (hflags : flags &&& 0x08 ≠ 0) {reserved : Bytes}
      (hreserved : reserved.length = 3) (vni : UInt32) (y : Bytes) :
      OverUdp Tunnel.vxlan (flags :: (reserved ++ (beBytes 4 vni.toNat ++ y))) .vxlan .ethernet y
  | geneve {verOptlen : UInt8} (flags : UInt8) {proto : UInt16} {m : Hop}
      (hproto : Tunnel.greHop proto = some m) (vni : UInt32) {options : Bytes}
      (hoptions : options.length = (verOptlen &&& 0x3f).toNat * 4) (y : Bytes) :
      OverUdp Tunnel.geneve (verOptlen :: flags :: (beBytes 2 proto.toNat ++
        (beBytes 4 vni.toNat ++ (options ++ y)))) .geneve m y
  | gtp (g : Tunnel.GtpHead) {m : Hop} {y : Bytes} (hy : StartsIp m y) :
      OverUdp Tunnel.gtp (g.bytes y) .gtp m y
  | l2tp (l : Tunnel.L2tpHead) {proto : UInt16} {m : Hop}
      (leads : Link.pppPayload proto = pure (.hop m)) (y : Bytes) :
      OverUdp Tunnel.l2tp (l.bytes proto y) .l2tp m y
  | teredo (is : List Tunnel.Indicator) {y : Bytes} (hy : StartsIp .ipv6 y) :
      OverUdp Tunnel.teredo (is.flatMap Tunnel.Indicator.bytes ++ y) .teredo .ipv6 y

/-- A tunnel over IP: the protocol, its headers around `y`, the ports of the UDP header if there is
one, and what the decoder hands over to. -/
inductive OverIp : UInt8 → Bytes → Option (UInt16 × UInt16) → Layer → Hop → Bytes → Prop
  | gre (g : Tunnel.GreHead) {proto : UInt16} {m : Hop} (hproto : Tunnel.greHop proto = some m)
      (y : Bytes) : OverIp 47 (g.bytes proto y) none .gre m y
  | erspan (g : Tunnel.GreHead) {proto : UInt16} (hproto : proto = 0x88be ∨ proto = 0x22eb)
      {shim : Bytes} (hshim : shim.length = Tunnel.shimLength proto) (y : Bytes) :
      OverIp 47 (g.bytes proto (shim ++ y)) none .erspan .ethernet y
  | ipip (y : Bytes) : OverIp 4 y none .ipip .ipv4 y
  | ip6ip (y : Bytes) : OverIp 41 y none .ipip .ipv6 y
  | udp {proto : UInt8} (hproto : proto = 17 ∨ proto = 136) (u : Transport.UdpHead) {body : Bytes}
      {d : Header Onward} (hport : Tunnel.tryUdpTunnel u.sport u.dport = some d) {kind : Layer}
      {m : Hop} {y : Bytes} (hover : OverUdp d (u.payload body) kind m y) :
      OverIp proto (u.bytes body) (some (u.sport, u.dport)) kind m y

/-- An IP header with a datagram in it: the name of the header, what it says, and the datagram. -/
inductive CarriesIp : Hop → Bytes → Layer → Datagram → Bytes → Prop
  | v4 (D : V4Datagram) (hbody : D.body ≠ []) (tail : Bytes) :
      CarriesIp .ipv4 (D.bytes ++ tail) .ip D.datagram D.body
  | v6 (P : V6Packet) :
      CarriesIp .ipv6 P.bytes .ipv6 ⟨P.proto, .v6 P.src, .v6 P.dst, (lastOffset P.chain).getD 0⟩
        P.payload

/-! ### Envelopes -/

/-- What one header is, for those who are not interested in its fields. -/
inductive Envelope where
  /-- Headers of the link layer. -/
  | header (layers : List Layer)
  /-- A tunnel in an IP packet, perhaps over UDP. -/
  | tunnel (carrier : Layer) (d : Datagram) (ports : Option (UInt16 × UInt16)) (kind : Layer)

namespace Trail

variable (t : Trail)

/-- The headers between the IP header and the tunnel header. -/
def carried (src dst : IpAddr) (proto : UInt8) (ports : Option (UInt16 × UInt16)) : Trail :=
  match ports with
  | none => t.converse src dst 0 0 proto
  | some (sport, dport) =>
      (((t.converse src dst 0 0 proto).push .udp).port sport dport).converse src dst sport dport
        proto

/-- Take off one header, or fail at the cap. -/
def takeOff {α : Type} (a : α) : Envelope → Except DissectError α × Trail
  | .header layers => (.ok a, layers.foldl push t)
  | .tunnel carrier d ports kind =>
      (((t.push carrier).address d.src d.dst).carried d.src d.dst d.proto ports).entry kind a

end Trail

/-- One header around `y`. -/
inductive Wraps : Hop → Bytes → Envelope → Hop → Bytes → Prop
  | ethernet {dst src : Bytes} (hdst : dst.length = 6) (hsrc : src.length = 6) {type : UInt16}
      {m : Hop} (leads : Link.typeOrLength type = pure (.hop m)) (y : Bytes) :
      Wraps .ethernet (dst ++ (src ++ (beBytes 2 type.toNat ++ y))) (.header [.eth]) m y
  | vlan (tci : UInt16) {type : UInt16} {m : Hop}
      (leads : Link.typeOrLength type = pure (.hop m)) (y : Bytes) :
      Wraps .vlan (beBytes 2 tci.toNat ++ (beBytes 2 type.toNat ++ y)) (.header [.vlan]) m y
  | mpls {above : List UInt32} {bottom : UInt32} (habove : ∀ w ∈ above, ¬ Link.IsBottom w)
      (hbottom : Link.IsBottom bottom) {m : Hop} {y : Bytes} (hy : StartsIp m y) :
      Wraps .mpls (Link.labelBytes above ++ (beBytes 4 bottom.toNat ++ y)) (.header [.mpls]) m y
  | pppoe (verType code : UInt8) (session len : UInt16) {proto : UInt16} {m : Hop}
      (leads : Link.pppPayload proto = pure (.hop m)) (y : Bytes) :
      Wraps .pppoe (verType :: code :: (beBytes 2 session.toNat ++ (beBytes 2 len.toNat ++
        (beBytes 2 proto.toNat ++ y)))) (.header [.pppoe]) m y
  | snap (control : UInt8) {type : UInt16} {m : Hop}
      (leads : Link.ethertypePayload type = pure (.hop m)) (y : Bytes) :
      Wraps .llc (0xaa :: 0xaa :: control :: ([0, 0, 0] ++ (beBytes 2 type.toNat ++ y)))
        (.header [.llc, .snap]) m y
  | tunnel {h m : Hop} {x z y : Bytes} {l kind : Layer} {d : Datagram}
      {ports : Option (UInt16 × UInt16)} (hip : CarriesIp h x l d z) (hwhole : d.fragOffset = 0)
      (hover : OverIp d.proto z ports kind m y) : Wraps h x (.tunnel l d ports kind) m y

/-- Any number of headers around `y`, the outermost first. -/
inductive Encapsulated : Hop → Bytes → List Envelope → Hop → Bytes → Prop
  | nil (h : Hop) (x : Bytes) : Encapsulated h x [] h x
  | cons {h m n : Hop} {x z y : Bytes} {e : Envelope} {es : List Envelope} :
      Wraps h x e m z → Encapsulated m z es n y → Encapsulated h x (e :: es) n y

/-! ### One hop -/

section Hops

open Header

variable {t : Trail} {h m : Hop} {x y z : Bytes} {kind : Layer}

theorem gives_of_overUdp {d : Header Onward} (hd : OverUdp d x kind m y) :
    Gives d x t (t.entry kind (.hop m, y)) := by
  cases hd with
  | vxlan hflags hreserved vni => exact Tunnel.vxlan_gives hflags hreserved vni
  | geneve flags hproto vni hoptions => exact Tunnel.geneve_gives flags hproto vni hoptions
  | gtp g hy => exact Tunnel.gtp_gives g hy
  | l2tp l leads => exact Tunnel.l2tp_gives l leads
  | teredo is hy => exact Tunnel.teredo_gives is hy

/-- **Behind an IP header the tunnel is entered.** -/
theorem gives_of_overIp (src dst : IpAddr) {proto : UInt8} {ports : Option (UInt16 × UInt16)}
    (hover : OverIp proto x ports kind m y) :
    Gives (Network.dispatchIpProto proto src dst) x t
      ((t.carried src dst proto ports).entry kind (.hop m, y)) := by
  refine gives_set_bind (φ := fun t => t.converse src dst 0 0 proto) (fun _ => rfl) ?_
  cases hover with
  | gre g hproto => exact Tunnel.gre_gives g hproto
  | erspan g hproto hshim => exact Tunnel.erspan_gives g hproto hshim
  | ipip => exact Tunnel.ipInIp_gives false
  | ip6ip => exact Tunnel.ipInIp_gives true
  | @udp _ hproto u body d hport _ _ _ hover =>
      have hudp : ∀ t, Gives (Transport.udp src dst proto) (u.bytes body) t
          (((((t.push .udp).port u.sport u.dport).converse src dst u.sport u.dport proto)).entry kind
            (.hop m, y)) := fun t => Transport.udp_gives src dst proto u
          (by rw [Transport.udpPayload, hport]; exact gives_of_overUdp hover)
      obtain rfl | rfl := hproto
      · exact hudp _
      · exact hudp _

/-- What a hop gives, whatever fragment was recorded before. -/
def HopGives (h : Hop) (x : Bytes) (t : Trail) (o : Except DissectError (Onward × Bytes) × Trail) :
    Prop :=
  ∀ (c : Cur) (s : Hdr) (frag : Option FragMeta), c.rest = x → s.trail = t →
    (sight (hop h c s frag).next, (hop h c s frag).hdr.trail) = o

theorem hopGives_of_link {d : Header Onward} (hd : h.link = some d)
    {o : Except DissectError (Onward × Bytes) × Trail} (hgives : Gives d x t o) :
    HopGives h x t o := by
  intro c s frag hc hs
  rw [Hop.hop_of_link hd]
  exact hgives c s hc hs

/-- An IP header, and then what its protocol gives. -/
theorem hopGives_of_ip {l : Layer} {d : Datagram} (hip : CarriesIp h x l d z)
    (hwhole : d.fragOffset = 0) {o : Except DissectError (Onward × Bytes) × Trail}
    (hgives : Gives (Network.dispatchIpProto d.proto d.src d.dst) z
      ((t.push l).address d.src d.dst) o) : HopGives h x t o := by
  have hheader : ∀ (header : Header Datagram), Gives header x t
      (.ok (d, z), (t.push l).address d.src d.dst) → ∀ (c : Cur) (s : Hdr) (frag : Option FragMeta),
      c.rest = x → s.trail = t →
      (sight (ip header c s frag).next, (ip header c s frag).hdr.trail) = o := by
    intro header hgiven c s frag hc hs
    obtain ⟨hsight, htrail⟩ := Prod.mk.inj (hgiven c s hc hs)
    unfold ip
    rcases hx : header.run c s with ⟨r, s'⟩
    rw [hx] at hsight htrail
    cases r with
    | error e => cases hsight
    | ok p =>
        obtain ⟨rfl, hrest⟩ := Prod.mk.inj (Except.ok.inj hsight)
        dsimp only
        unfold afterIp
        dsimp only
        rw [if_neg (not_not_intro hwhole)]
        exact hgives p.2 s' hrest htrail
  cases hip with
  | v4 D hbody tail => exact hheader _ (Network.ipv4_gives D hbody tail)
  | v6 P => exact hheader _ (Network.ipv6_gives P)

/-- **One hop takes off one header.** -/
theorem hop_of_wraps {e : Envelope} (hwraps : Wraps h x e m y) :
    HopGives h x t (t.takeOff (.hop m, y) e) := by
  cases hwraps with
  | ethernet hdst hsrc leads => exact hopGives_of_link rfl (Link.ethernet_gives hdst hsrc leads)
  | vlan tci leads => exact hopGives_of_link rfl (Link.vlan_gives tci leads)
  | mpls habove hbottom hy => exact hopGives_of_link rfl (Link.mpls_gives habove hbottom hy)
  | pppoe verType code session len leads =>
      exact hopGives_of_link rfl (Link.pppoe_gives verType code session len leads)
  | snap control leads => exact hopGives_of_link rfl (Link.snap_gives control leads)
  | tunnel hip hwhole hover =>
      exact hopGives_of_ip hip hwhole (gives_of_overIp _ _ hover)

end Hops

end PcapRacer
