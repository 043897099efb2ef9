/-
**The header dissectors, with every access and every subtraction checked.**

Here are the dissectors of the link, network, transport and tunnel layers once more, over bare
cursors.  The columns are left out: no dissector goes another way because of them.  What stays is every
read, every index and slice, and every sum, difference and product, each as an operation that may
fault; and every loop, which faults when its rounds run out.

Main definitions:

* `Checked.Link.ethernet`, …, `Checked.Tunnel.teredo`, `Checked.Transport.tcp`, …,
  `Checked.Network.ipv4`, … — the dissectors;
* `Checked.hop`, `Checked.follow` — one hop, and the walk;
* `Checked.dissectFrame` — a frame, from its first byte.
-/

import PcapRacer.CheckedRefines
import PcapRacer.Network

set_option relaxedAutoImplicit false
set_option autoImplicit false

namespace PcapRacer

namespace Checked

/-! ### The link layer -/

namespace Link

def arp : Checked Onward := do
  let _ ← be16
  let _ ← be16
  let hwLen ← u8
  let protoLen ← u8
  let _ ← be16
  if hwLen = 6 ∧ protoLen = 4 then
    let _ ← mac
    let _ ← ipv4
    let _ ← mac
    let _ ← ipv4
  return .done

def ethertypePayload (ethertype : UInt16) : Checked Onward :=
  match ethertype.toNat with
  | 0x0800 => return .hop .ipv4
  | 0x86dd => return .hop .ipv6
  | 0x0806 | 0x8035 => arp
  | 0x8100 | 0x88a8 | 0x9100 => return .hop .vlan
  | 0x8847 | 0x8848 => return .hop .mpls
  | 0x8864 => return .hop .pppoe
  | 0x8863 => return .done
  | 0x88cc => return .done
  | _ => fail .unsupported

def typeOrLength (ethertype : UInt16) : Checked Onward :=
  if ethertype ≤ 1500 then return .hop .llc else ethertypePayload ethertype

def rawIp : Checked Onward := do
  let b ← peekU8
  match (b >>> 4).toNat with
  | 4 => return .hop .ipv4
  | 6 => return .hop .ipv6
  | _ => fail .unsupported

def pppPayload (proto : UInt16) : Checked Onward :=
  match proto.toNat with
  | 0x0021 => return .hop .ipv4
  | 0x0057 => return .hop .ipv6
  | _ => fail .unsupported

def ethernet : Checked Onward := do
  let dst ← mac
  let _ ← mac
  let ethertype ← be16
  let _ ← machine (Machine.index dst 0)
  typeOrLength ethertype

def vlan : Checked Onward := do
  let _ ← be16
  let inner ← be16
  typeOrLength inner

def mplsLabels : ℕ → Checked Unit
  | 0 => machine (.error .diverges)
  | rounds + 1 => do
      let w ← be32
      if (w >>> 8) &&& 1 = 1 then return
      mplsLabels rounds

def mpls : Checked Onward := do
  mplsLabels ((← remaining) + 1)
  rawIp

def pppoe : Checked Onward := do
  let _ ← u8
  let _ ← u8
  let _ ← be16
  let _ ← be16
  let proto ← be16
  pppPayload proto

def llc : Checked Onward := do
  let dsap ← u8
  let ssap ← u8
  let _ ← u8
  if dsap = 0xaa ∧ ssap = 0xaa then
    let oui ← be24
    let pid ← be16
    if oui = 0 then
      return ← ethertypePayload pid
  return .done

def linuxSll : Checked Onward := do
  let _ ← be16
  let _ ← be16
  let addrLen ← be16
  let addr ← take 8
  if addrLen = 6 then
    let m ← machine (Machine.slice addr 0 6)
    let _ ← machine (Machine.array m 6)
  let proto ← be16
  ethertypePayload proto

def linuxSll2 : Checked Onward := do
  let proto ← be16
  let _ ← be16
  let _ ← be32
  let _ ← be16
  let _ ← u8
  let addrLen ← u8
  let addr ← take 8
  if addrLen = 6 then
    let m ← machine (Machine.slice addr 0 6)
    let _ ← machine (Machine.array m 6)
  ethertypePayload proto

def wlanSsid : Checked Unit := do
  if let some tag ← attempt u8 then
    if tag = 0 then
      if let some len ← attempt u8 then
        let _ ← attempt (take len.toNat)

def ieee80211 : Checked Onward := do
  let fc ← le16
  let ftype := ((fc >>> 2) &&& 0x3).toUInt8
  let subtype := ((fc >>> 4) &&& 0xf).toUInt8
  let _ ← le16
  let _ ← mac
  let _ ← mac
  let _ ← mac
  let _ ← le16
  let toDs := fc &&& 0x0100 != 0
  let fromDs := fc &&& 0x0200 != 0
  if ftype = 0 ∧ (subtype = 8 ∨ subtype = 0 ∨ subtype = 4 ∨ subtype = 5) then
    if subtype = 8 then
      let _ ← attempt (skip 12)
    wlanSsid
    return .done
  if ftype = 2 ∧ subtype &&& 0x08 = 0 then
    if toDs && fromDs then
      skip 6
    return .hop .llc
  return .done

def radiotap : Checked Onward := do
  let _ ← u8
  let _ ← u8
  let len ← le16
  if len < 4 then
    fail .malformed
  skip (← machine (Machine.sub len.toNat 4))
  ieee80211

def loopback : Checked Onward := do
  let af ← le32
  match af.toNat with
  | 2 => return .hop .ipv4
  | 24 | 28 | 30 => return .hop .ipv6
  | _ => fail .unsupported

def ppp : Checked Onward := do
  let proto ← be16
  pppPayload proto

def dissectLink (linktype : UInt16) : Checked Onward :=
  match linktype.toNat with
  | 1 => return .hop .ethernet
  | 101 | 228 | 229 => rawIp
  | 0 | 108 => loopback
  | 113 => linuxSll
  | 276 => linuxSll2
  | 9 => ppp
  | 105 => ieee80211
  | 127 => radiotap
  | _ => fail .unsupported

end Link

/-! ### Tunnels -/

namespace Tunnel

def erspan (proto : UInt16) : Checked Onward := do
  enter
  let _ ← be32
  if proto ≠ 0x88be then
    skip 8
  return .hop .ethernet

def gre : Checked Onward := do
  let flags ← be16
  let proto ← be16
  if flags &&& 0x8000 ≠ 0 then
    skip 4
  if flags &&& 0x2000 ≠ 0 then
    let _ ← be32
  if flags &&& 0x1000 ≠ 0 then
    let _ ← be32
  if proto = 0x88be ∨ proto = 0x22eb then
    return ← erspan proto
  enter
  match proto.toNat with
  | 0x0800 => return .hop .ipv4
  | 0x86dd => return .hop .ipv6
  | 0x6558 => return .hop .ethernet
  | 0x880b => return .done
  | _ => fail .unsupported

def ipInIp (innerIsV6 : Bool) : Checked Onward := do
  enter
  return .hop (if innerIsV6 then .ipv6 else .ipv4)

def vxlan : Checked Onward := do
  let flags ← u8
  skip 3
  let _ ← be32
  if flags &&& 0x08 = 0 then
    fail .malformed
  enter
  return .hop .ethernet

def geneve : Checked Onward := do
  let verOptlen ← u8
  let _ ← u8
  let proto ← be16
  let _ ← be32
  enter
  skip (← machine (Machine.mul Machine.usize (verOptlen &&& 0x3f).toNat 4))
  match proto.toNat with
  | 0x6558 => return .hop .ethernet
  | 0x0800 => return .hop .ipv4
  | 0x86dd => return .hop .ipv6
  | _ => fail .unsupported

/-- The guard of the source counts to eight; it is the number of rounds that are left. -/
def gtpExtensions : ℕ → UInt8 → Checked Unit
  | guard, next =>
      if next = 0 then pure ()
      else
        match guard with
        | 0 => fail .malformed
        | guard + 1 => do
            let len ← u8
            if len = 0 then
              fail .malformed
            let words ← machine (Machine.mul Machine.usize len.toNat 4)
            skip (← machine (Machine.sub words 2))
            let next ← u8
            gtpExtensions guard next

def gtp : Checked Onward := do
  let flags ← u8
  let msgType ← u8
  let _ ← be16
  let _ ← be32
  enter
  if flags &&& 0x07 ≠ 0 then
    skip 3
    let next ← u8
    gtpExtensions 8 next
  if msgType ≠ 255 then
    return .done
  Link.rawIp

def l2tp : Checked Onward := do
  let flags ← be16
  enter
  if flags &&& 0x4000 ≠ 0 then
    skip 2
  let _ ← be16
  let _ ← be16
  if flags &&& 0x8000 ≠ 0 then
    return .done
  if flags &&& 0x0800 ≠ 0 then
    skip 4
  if flags &&& 0x0200 ≠ 0 then
    skip 2
  if (← peek 2) = some [0xff, 0x03] then
    skip 2
  let proto ← be16
  Link.pppPayload proto

def teredoIndicators : ℕ → Checked Unit
  | 0 => machine (.error .diverges)
  | rounds + 1 => do
      if let some b ← peek 2 then
        let b0 ← machine (Machine.index b 0)
        let b1 ← machine (Machine.index b 1)
        if b0 = 0x00 ∧ b1 = 0x01 then
          skip 2
          let idLen ← u8
          let auLen ← u8
          let ids ← machine (Machine.add Machine.usize idLen.toNat auLen.toNat)
          let nonce ← machine (Machine.add Machine.usize ids 8)
          skip (← machine (Machine.add Machine.usize nonce 1))
          teredoIndicators rounds
        else if b0 = 0x00 ∧ b1 = 0x00 then
          skip 8
          teredoIndicators rounds

def teredo : Checked Onward := do
  teredoIndicators ((← remaining) + 1)
  let b ← peekU8
  if b >>> 4 ≠ 6 then
    fail .malformed
  enter
  return .hop .ipv6

def tryUdpTunnel (sport dport : UInt16) : Option (Checked Onward) :=
  if dport = 4789 ∨ sport = 4789 ∨ dport = 4790 then some vxlan
  else if dport = 6081 ∨ sport = 6081 then some geneve
  else if dport = 2152 ∨ sport = 2152 ∨ dport = 2123 ∨ sport = 2123 then some gtp
  else if dport = 1701 ∨ sport = 1701 then some l2tp
  else if dport = 3544 ∨ sport = 3544 then some teredo
  else none

end Tunnel

/-! ### The transport layer -/

namespace Transport

/-- The accesses to the body of an option. -/
def tcpOption (kind : UInt8) (body : Bytes) : Checked Unit :=
  match kind.toNat with
  | 2 => do
      if body.length = 2 then
        let _ ← machine (Machine.indices body 2)
  | 3 => do
      if body.length = 1 then
        let _ ← machine (Machine.index body 0)
  | 5 => sackBlocks (body.length / 8) body
  | 8 => do
      if body.length = 8 then
        let _ ← machine (Machine.indices body 8)
  | _ => return
where
  /-- Whole chunks of eight bytes. -/
  sackBlocks : ℕ → Bytes → Checked Unit
    | 0, _ => pure ()
    | count + 1, body => do
        let chunk ← machine (Machine.slice body 0 8)
        let _ ← machine (Machine.indices chunk 8)
        sackBlocks count (body.drop 8)

def optionLoop : ℕ → Checked Unit
  | 0 => machine (.error .diverges)
  | rounds + 1 => do
      if let some kind ← attempt u8 then
        if kind = 0 then
          return
        if kind = 1 then
          optionLoop rounds
        else if let some len ← attempt u8 then
          if 2 ≤ len then
            let n ← machine (Machine.sub len.toNat 2)
            if let some body ← attempt (take n) then
              tcpOption kind body
              optionLoop rounds

def parseTcpOptions (opts : Bytes) : Checked Unit :=
  aside { data := opts, pos := 0 } (optionLoop (opts.length + 1))

/-- The first bytes of a payload, and the sample that is looked through for what prints. -/
def recordPayload (payload : Bytes) : Checked Unit := do
  if payload ≠ [] then
    let _ ← machine (Machine.slice payload 0 (min payload.length 256))
    let _ ← machine (Machine.slice payload 0 (min payload.length 16))

/-- The walk ends at the payload: what is left under the cursor is handed to the application
dissectors. -/
def tcp : Checked Onward := do
  let start ← pos
  let sport ← be16
  let dport ← be16
  let _ ← be32
  let _ ← be32
  let offsetFlags ← be16
  let _ ← be16
  let _ ← be16
  let _ ← be16
  let dataOffset ← machine (Machine.mul Machine.usize (offsetFlags >>> 12).toNat 4)
  if 20 ≤ dataOffset then
    let consumed ← machine (Machine.sub (← pos) start)
    let optLen ← machine (Machine.sub dataOffset consumed)
    if 0 < optLen ∧ optLen ≤ (← remaining) then
      let opts ← take optLen
      parseTcpOptions opts
  let payload ← rest
  recordPayload payload
  return .payload { isTcp := true, sport, dport }

def udpPayload (sport dport : UInt16) : Checked Onward :=
  match Tunnel.tryUdpTunnel sport dport with
  | some g => g
  | none => do
      let payload ← rest
      recordPayload payload
      return .payload { isTcp := false, sport, dport }

def udp : Checked Onward := do
  let sport ← be16
  let dport ← be16
  let len ← be16
  let _ ← be16
  if 8 ≤ len.toNat then
    let want ← machine (Machine.sub len.toNat 8)
    if want < (← remaining) then
      confine want
  udpPayload sport dport

/-- Chunks are padded to a 4-byte boundary; the source stops when it has counted to 64. -/
def chunks : ℕ → Checked Unit
  | 0 => pure ()
  | count + 1 => do
      if let some _ ← attempt u8 then
        if let some _ ← attempt u8 then
          if let some len ← attempt be16 then
            if 4 ≤ len then
              let body ← machine (Machine.sub len.toNat 4)
              let padded ← machine (Machine.add Machine.usize body 3)
              if let some () ← attempt (skip (padded / 4 * 4)) then
                chunks count

/-- The walk over the chunks is the last thing that is done here, so the cursor may stay. -/
def sctp : Checked Onward := do
  let _ ← be16
  let _ ← be16
  let _ ← be32
  let _ ← be32
  aside (← cursor) (chunks 64)
  return .done

end Transport

/-! ### The network layer -/

namespace Network

open PcapRacer.Network (ExtChain optionHeaderName)

def ipv4 : Checked Datagram := do
  let start ← pos
  let verIhl ← u8
  if verIhl >>> 4 ≠ 4 then
    fail .malformed
  let ihl ← machine (Machine.mul Machine.usize (verIhl &&& 0x0f).toNat 4)
  if ihl < 20 then
    fail .malformed
  let _ ← u8
  let totalLen ← be16
  let _ ← be16
  let flagsFrag ← be16
  let _ ← u8
  let proto ← u8
  let _ ← be16
  let src ← Checked.ipv4
  let dst ← Checked.ipv4
  let fragOffset ← machine (Machine.mul 16 (flagsFrag &&& 0x1fff).toNat 8)
  if 20 < ihl then
    let _ ← take (← machine (Machine.sub ihl 20))
  let consumed ← machine (Machine.sub (← pos) start)
  if consumed < totalLen.toNat then
    let want ← machine (Machine.sub totalLen.toNat consumed)
    if want < (← remaining) then
      confine want
  return { proto, src := .v4 src, dst := .v4 dst, fragOffset := .ofNat fragOffset }

/-- The guard of the source counts to sixteen; it is the number of rounds that are left. -/
def extensionChain : ℕ → ExtChain → Checked ExtChain
  | 0, _ => fail .malformed
  | guard + 1, chain => do
      if let some name := optionHeaderName chain.proto then
        let nh ← u8
        let len ← u8
        let units ← machine (Machine.add Machine.usize len.toNat 1)
        let bytes ← machine (Machine.mul Machine.usize units 8)
        skip (← machine (Machine.sub bytes 2))
        extensionChain guard { chain with proto := nh, names := chain.names ++ [name] }
      else if chain.proto = 44 then
        let nh ← u8
        let _ ← u8
        let offFlags ← be16
        let _ ← be32
        let fragOffset := offFlags &&& 0xfff8
        extensionChain guard
          { proto := nh, names := chain.names ++ ["frag".toList], fragOffset }
      else if chain.proto = 51 then
        let nh ← u8
        let len ← u8
        let words ← machine (Machine.add Machine.usize len.toNat 2)
        let bytes ← machine (Machine.mul Machine.usize words 4)
        skip (← machine (Machine.sub bytes 2))
        extensionChain guard { chain with proto := nh, names := chain.names ++ ["ah".toList] }
      else
        return chain

def ipv6 : Checked Datagram := do
  let w ← be32
  if w >>> 28 ≠ 6 then
    fail .malformed
  let _ ← be16
  let nextHeader ← u8
  let _ ← u8
  let src ← Checked.ipv6
  let dst ← Checked.ipv6
  let chain ← extensionChain 16 { proto := nextHeader, names := [], fragOffset := 0 }
  return { proto := chain.proto, src := .v6 src, dst := .v6 dst, fragOffset := chain.fragOffset }

def esp : Checked Onward := do
  let _ ← be32
  let _ ← be32
  return .done

def icmpEcho : Checked Unit := do
  let _ ← be16
  let _ ← be16

def icmp : Checked Onward := do
  let t ← u8
  let _ ← u8
  let _ ← be16
  if t = 0 ∨ t = 8 ∨ t = 13 ∨ t = 14 then
    icmpEcho
  else if t = 3 then
    let _ ← be16
    let _ ← be16
  else if t = 5 then
    let _ ← Checked.ipv4
  return .done

def ndOption : Checked Unit := do
  let optType ← attempt u8
  let optLen ← attempt u8
  if (optType = some 1 ∨ optType = some 2) ∧ optLen = some 1 then
    let _ ← attempt mac

def icmpv6 : Checked Onward := do
  let t ← u8
  let _ ← u8
  let _ ← be16
  if t = 128 ∨ t = 129 then
    icmpEcho
  else if t = 135 ∨ t = 136 then
    let _ ← be32
    let _ ← Checked.ipv6
    ndOption
  return .done

def igmp : Checked Onward := do
  let _ ← u8
  let _ ← u8
  let _ ← be16
  let _ ← Checked.ipv4
  return .done

def dispatchIpProto (proto : UInt8) : Checked Onward :=
  match proto.toNat with
  | 6 => Transport.tcp
  | 17 | 136 => Transport.udp
  | 132 => Transport.sctp
  | 1 => icmp
  | 58 => icmpv6
  | 2 => igmp
  | 47 => Tunnel.gre
  | 4 => Tunnel.ipInIp false
  | 41 => Tunnel.ipInIp true
  | 50 => esp
  | 89 => return .done
  | 112 => return .done
  | 103 => return .done
  | _ => fail .unsupported

/-- The bytes of a fragment are copied from the rest of the cursor. -/
def afterIp (d : Datagram) : Checked Onward := do
  let _ ← rest
  if d.fragOffset ≠ 0 then
    return .done
  dispatchIpProto d.proto

end Network

/-! ### The walk -/

def hop : Hop → Checked Onward
  | .ethernet => Link.ethernet
  | .llc => Link.llc
  | .vlan => Link.vlan
  | .mpls => Link.mpls
  | .pppoe => Link.pppoe
  | .ipv4 => Network.ipv4 >>= Network.afterIp
  | .ipv6 => Network.ipv6 >>= Network.afterIp

def follow : ℕ → Onward → Checked (Option Payload)
  | _, .done => return none
  | _, .payload p => return some p
  | 0, .hop _ => machine (.error .diverges)
  | rounds + 1, .hop h => do
      let onward ← hop h
      follow rounds onward

/-- Dissect one frame given its link type: where the walk ends, and at what depth. -/
def dissectFrame (data : Bytes) (linktype : UInt16) :
    Except Fault (Except DissectError (Option Payload) × UInt8) :=
  ((Link.dissectLink linktype >>= follow (data.length + 1)).run { data, pos := 0 } 0).map
    fun p => (p.1.map Prod.fst, p.2)

end Checked

end PcapRacer
