/-
**The network layer**: IPv4, IPv6 with its extension header chain, ICMP, ICMPv6 and IGMP.

Main definitions:

* `Datagram` — what an IP header says about the bytes after it;
* `ipv4`, `ipv6` — the IP headers;
* `FragKey`, `FragMeta`, `fragMeta` — fragments, as the serial reassembly pass gets them;
* `dispatchIpProto` — the transport layer of a whole IP payload.

Main results:

* `ipv4_advances`, `ipv6_advances` — an IP header makes progress.
-/

import PcapRacer.Transport

set_option relaxedAutoImplicit false
set_option autoImplicit false

namespace PcapRacer

/-- Identifies one fragmented datagram. -/
structure FragKey where
  src : IpAddr
  dst : IpAddr
  id : UInt32
  proto : UInt8
  deriving DecidableEq

/-- What the first pass records about a fragment. -/
structure FragMeta where
  key : FragKey
  offset : UInt16
  moreFragments : Bool
  payload : Bytes
  deriving DecidableEq

/-- What an IP header says about the bytes after it. -/
structure Datagram where
  proto : UInt8
  src : IpAddr
  dst : IpAddr
  fragOffset : UInt16

namespace Network

open Header

def protoName (p : UInt8) : Text :=
  match p.toNat with
  | 0 => "hopopt".toList
  | 1 => "icmp".toList
  | 2 => "igmp".toList
  | 4 => "ipip".toList
  | 6 => "tcp".toList
  | 17 => "udp".toList
  | 41 => "ipv6".toList
  | 47 => "gre".toList
  | 50 => "esp".toList
  | 51 => "ah".toList
  | 58 => "ipv6-icmp".toList
  | 89 => "ospf".toList
  | 103 => "pim".toList
  | 112 => "vrrp".toList
  | 115 => "l2tp".toList
  | 132 => "sctp".toList
  | 136 => "udplite".toList
  | _ => "other".toList

/-! ### IP headers -/

/-- The cursor is confined to what the total length announces, when more bytes than that were
captured: a frame can carry trailing padding, and a corrupt length can exceed the capture. -/
def ipv4 : Header Datagram := do
  layer .ip
  let verIhl ← read .u8
  if verIhl >>> 4 ≠ 4 then
    fail .malformed
  let ihl := (verIhl &&& 0x0f).toNat * 4
  if ihl < 20 then
    fail .malformed
  let tos ← read .u8
  let totalLen ← read .be16
  let id ← read .be16
  let flagsFrag ← read .be16
  let ttl ← read .u8
  let proto ← read .u8
  let checksum ← read .be16
  let src ← read .ipv4
  let dst ← read .ipv4
  let fragOffset := (flagsFrag &&& 0x1fff) * 8
  net fun n =>
    { n with ipVersion := some 4, ipHdrLen := some (UInt8.ofNat ihl), ipTos := some tos,
             ipDscp := some (tos >>> 2), ipEcn := some (tos &&& 0x3),
             ipTotalLen := some totalLen.toUInt32, ipId := some id.toUInt32,
             ipFlagDf := some (flagsFrag &&& 0x4000 != 0),
             ipFlagMf := some (flagsFrag &&& 0x2000 != 0), ipFragOffset := some fragOffset,
             ipTtl := some ttl, ipProto := some proto, ipProtoName := some (protoName proto),
             ipChecksum := some checksum, ipSrc := some (IpAddr.textV4 src),
             ipDst := some (IpAddr.textV4 dst),
             ipSrcIsPrivate := some (IpAddr.isPrivateV4 src),
             ipDstIsPrivate := some (IpAddr.isPrivateV4 dst) }
  -- options, if the header is longer than the fixed 20 bytes
  if 20 < ihl then
    let opts ← take (ihl - 20)
    net fun n => { n with ipOptions := some (hexBytes opts) }
  if ihl < totalLen.toNat ∧ totalLen.toNat - ihl < (← remaining) then
    confine (totalLen.toNat - ihl)
  return { proto, src := .v4 src, dst := .v4 dst, fragOffset }

/-- Where the extension header chain of an IPv6 packet ends. -/
structure ExtChain where
  proto : UInt8
  names : List Text
  fragOffset : UInt16

/-- The name of an extension header that is only stepped over. -/
def optionHeaderName (proto : UInt8) : Option Text :=
  match proto.toNat with
  | 0 => some "hopopt".toList
  | 43 => some "routing".toList
  | 60 => some "dstopts".toList
  | 135 => some "mobility".toList
  | _ => none

/-- Walk the extension header chain to the first upper-layer protocol.  Each extension header is a
chance to loop forever on crafted input, hence the guard. -/
def extensionChain : ℕ → ExtChain → Header ExtChain
  | 0, _ => fail .malformed
  | guard + 1, chain => do
      if let some name := optionHeaderName chain.proto then
        let nh ← read .u8
        let len ← read .u8
        skip ((len.toNat + 1) * 8 - 2)
        extensionChain guard { chain with proto := nh, names := chain.names ++ [name] }
      else if chain.proto = 44 then
        let nh ← read .u8
        let _ ← read .u8
        let offFlags ← read .be16
        let ident ← read .be32
        let fragOffset := offFlags &&& 0xfff8
        net fun n => { n with ipFragOffset := some fragOffset,
                              ipFlagMf := some (offFlags &&& 1 == 1), ipId := some ident }
        extensionChain guard
          { proto := nh, names := chain.names ++ ["frag".toList], fragOffset }
      else if chain.proto = 51 then
        let nh ← read .u8
        let len ← read .u8
        skip ((len.toNat + 2) * 4 - 2)
        extensionChain guard { chain with proto := nh, names := chain.names ++ ["ah".toList] }
      else
        return chain

def ipv6 : Header Datagram := do
  layer .ipv6
  let w ← read .be32
  if w >>> 28 ≠ 6 then
    fail .malformed
  let payloadLen ← read .be16
  let nextHeader ← read .u8
  let hopLimit ← read .u8
  let src ← read .ipv6
  let dst ← read .ipv6
  net fun n =>
    { n with ipVersion := some 6, ip6TrafficClass := some ((w >>> 20) &&& 0xff).toUInt8,
             ip6FlowLabel := some (w &&& 0x000fffff), ip6PayloadLen := some payloadLen,
             ip6NextHeader := some nextHeader, ip6HopLimit := some hopLimit,
             ipTtl := some hopLimit, ipSrc := some (IpAddr.textV6 src),
             ipDst := some (IpAddr.textV6 dst),
             ipSrcIsPrivate := some (IpAddr.isPrivateV6 src),
             ipDstIsPrivate := some (IpAddr.isPrivateV6 dst) }
  let chain ← extensionChain 16 { proto := nextHeader, names := [], fragOffset := 0 }
  if chain.names ≠ [] then
    net fun n => { n with ip6ExtHeaders := some (Text.join [','] chain.names) }
  net fun n => { n with ipProto := some chain.proto,
                        ipProtoName := some (protoName chain.proto) }
  return { proto := chain.proto, src := .v6 src, dst := .v6 dst, fragOffset := chain.fragOffset }

/-! ### Fragments -/

/-- Fragment metadata for the serial reassembly pass.  A datagram is fragmented if MF is set or the
offset is not zero; the whole IP payload is this fragment's contribution. -/
def fragMeta (d : Datagram) (s : Hdr) (c : Cur) : Option FragMeta :=
  let mf := s.net.ipFlagMf.getD false
  if mf ∨ d.fragOffset ≠ 0 then
    some { key := { src := d.src, dst := d.dst, id := s.net.ipId.getD 0, proto := d.proto },
           offset := d.fragOffset, moreFragments := mf, payload := c.rest }
  else none

/-! ### Control protocols -/

def esp : Header Onward := do
  layer .esp
  let spi ← read .be32
  net fun n => { n with espSpi := some spi }
  let seq ← read .be32
  net fun n => { n with espSeq := some seq }
  return .done

def icmpTypeName (t : UInt8) : Text :=
  match t.toNat with
  | 0 => "echo-reply".toList
  | 3 => "dest-unreachable".toList
  | 4 => "source-quench".toList
  | 5 => "redirect".toList
  | 8 => "echo-request".toList
  | 9 => "router-advertisement".toList
  | 10 => "router-solicitation".toList
  | 11 => "time-exceeded".toList
  | 12 => "parameter-problem".toList
  | 13 => "timestamp-request".toList
  | 14 => "timestamp-reply".toList
  | _ => "other".toList

/-- The identifier and sequence number that match a request to its reply. -/
def icmpEcho : Header Unit := do
  let id ← read .be16
  net fun n => { n with icmpId := some id }
  let seq ← read .be16
  net fun n => { n with icmpSeq := some seq }

/-- The quoted original datagram is not dissected: it would overwrite the outer addressing. -/
def icmp : Header Onward := do
  layer .icmp
  let t ← read .u8
  let code ← read .u8
  let _ ← read .be16
  net fun n => { n with icmpType := some t, icmpCode := some code,
                        icmpTypeName := some (icmpTypeName t) }
  if t = 0 ∨ t = 8 ∨ t = 13 ∨ t = 14 then
    icmpEcho
  else if t = 3 then
    let _ ← read .be16
    let mtu ← read .be16
    net fun n => { n with icmpMtu := some mtu }
  else if t = 5 then
    let gateway ← read .ipv4
    net fun n => { n with icmpGateway := some (IpAddr.textV4 gateway) }
  return .done

def icmp6TypeName (t : UInt8) : Text :=
  match t.toNat with
  | 1 => "dest-unreachable".toList
  | 2 => "packet-too-big".toList
  | 3 => "time-exceeded".toList
  | 4 => "parameter-problem".toList
  | 128 => "echo-request".toList
  | 129 => "echo-reply".toList
  | 133 => "router-solicitation".toList
  | 134 => "router-advertisement".toList
  | 135 => "neighbor-solicitation".toList
  | 136 => "neighbor-advertisement".toList
  | 137 => "redirect".toList
  | 143 => "multicast-listener-report".toList
  | _ => "other".toList

/-- Neighbour discovery options of type 1 and 2 carry a link-layer address. -/
def ndOption : Header Unit := do
  let optType ← tryRead .u8
  let optLen ← tryRead .u8
  if (optType = some 1 ∨ optType = some 2) ∧ optLen = some 1 then
    if let some m ← tryRead .mac then
      net fun n => { n with icmp6NdOptionMac := some (fmtMac m) }

def icmpv6 : Header Onward := do
  layer .icmpv6
  let t ← read .u8
  let code ← read .u8
  let _ ← read .be16
  net fun n => { n with icmp6Type := some t, icmp6Code := some code,
                        icmp6TypeName := some (icmp6TypeName t) }
  if t = 128 ∨ t = 129 then
    icmpEcho
  else if t = 135 ∨ t = 136 then
    let _ ← read .be32
    let target ← read .ipv6
    net fun n => { n with icmp6NdTarget := some (IpAddr.textV6 target) }
    ndOption
  return .done

def igmp : Header Onward := do
  layer .igmp
  let t ← read .u8
  net fun n => { n with igmpType := some t }
  let maxResp ← read .u8
  net fun n => { n with igmpMaxResp := some maxResp }
  let _ ← read .be16
  let group ← read .ipv4
  net fun n => { n with igmpGroup := some (IpAddr.textV4 group) }
  return .done

/-- A protocol that is only named. -/
def named (l : Layer) : Header Onward := do
  layer l
  return .done

/-- The transport layer of a reassembled or whole IP payload.  Every IP packet belongs to a
conversation, so the tuple is established with no ports and the transport dissectors overwrite
it. -/
def dispatchIpProto (proto : UInt8) (src dst : IpAddr) : Header Onward := do
  Transport.setTuple src dst 0 0 proto
  match proto.toNat with
  | 6 => Transport.tcp src dst
  | 17 | 136 => Transport.udp src dst proto
  | 132 => Transport.sctp src dst
  | 1 => icmp
  | 58 => icmpv6
  | 2 => igmp
  | 47 => Tunnel.gre
  | 4 => Tunnel.ipInIp false
  | 41 => Tunnel.ipInIp true
  | 50 => esp
  | 89 => named .ospf
  | 112 => named .vrrp
  | 103 => named .pim
  | _ => fail .unsupported

/-! ### Progress -/

theorem ipv4_advances : ipv4.Advances := advances_layer_bind _ (advances_read_bind _ _)

theorem ipv6_advances : ipv6.Advances := advances_layer_bind _ (advances_read_bind _ _)

end Network

end PcapRacer
