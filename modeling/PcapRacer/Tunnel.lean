/-
**Encapsulation**: GRE, IP-in-IP, VXLAN, Geneve, GTP-U, ERSPAN, L2TP, Teredo.

When a tunnel is unwrapped the outer addressing moves to the `outer` columns and the inner packet
overwrites addresses and ports.

Main definitions:

* `maxDepth`, `descend`, `enter` — one level of nesting;
* `gre`, `ipInIp` — tunnels by IP protocol;
* `tryUdpTunnel` — tunnels by UDP port.
-/

import PcapRacer.Link

set_option relaxedAutoImplicit false
set_option autoImplicit false

namespace PcapRacer

namespace Tunnel

open Header

/-- The nesting cap. -/
def maxDepth : UInt8 := 8

/-- Enter a nested encapsulation, refusing past the cap. -/
def descend : Header Unit := do
  if maxDepth ≤ (← get).depth then
    fail .depthExceeded
  set fun s => { s with depth := s.depth + 1 }

/-- Entering fails at the cap, and takes a level below it. -/
theorem descend_run (c : Cur) (s : Hdr) :
    descend.run c s =
      if maxDepth ≤ s.depth then (.error .depthExceeded, s)
      else (.ok ((), c), { s with depth := s.depth + 1 }) := by
  unfold descend
  rw [run_bind]
  change (if maxDepth ≤ s.depth then fail .depthExceeded >>= _ else _ : Header Unit).run c s = _
  split <;> rfl

/-- Move the addressing of the current packet to the outer columns; the first tunnel wins. -/
def promote (s : Hdr) : Hdr :=
  if s.tunnel.outerIpSrc.isNone then
    { s with
      tunnel := { s.tunnel with outerIpSrc := s.net.ipSrc, outerIpDst := s.net.ipDst,
                                outerSrcPort := s.transport.srcPort,
                                outerDstPort := s.transport.dstPort }
      net := { s.net with ipSrc := none, ipDst := none }
      transport := { s.transport with srcPort := none, dstPort := none } }
  else s

/-- Promote the current addressing to the outer columns before descending. -/
def enter (kind : Layer) : Header Unit := do
  descend
  layer kind
  set promote
  tunnel fun t => { t with tunnelType := some kind.name }

/-! ### Tunnels by IP protocol -/

/-- ERSPAN rides inside GRE with its own shim header before the mirrored frame. -/
def erspan (proto : UInt16) : Header Onward := do
  enter .erspan
  let w ← read .be32
  if proto = 0x88be then
    tunnel fun t => { t with erspanVersion := some 1,
                             erspanSpanId := some (w &&& 0x03ff).toUInt16 }
  else
    tunnel fun t => { t with erspanVersion := some 2,
                             erspanSpanId := some ((w >>> 16) &&& 0x03ff).toUInt16 }
    skip 8
  return .hop .ethernet

def gre : Header Onward := do
  let flags ← read .be16
  let proto ← read .be16
  tunnel fun t => { t with greProtocol := some proto }
  -- optional fields appear in a fixed order, gated by the flag bits
  if flags &&& 0x8000 ≠ 0 then
    skip 4
  if flags &&& 0x2000 ≠ 0 then
    let key ← read .be32
    tunnel fun t => { t with greKey := some key }
  if flags &&& 0x1000 ≠ 0 then
    let seq ← read .be32
    tunnel fun t => { t with greSeq := some seq }
  if proto = 0x88be ∨ proto = 0x22eb then
    return ← erspan proto
  enter .gre
  match proto.toNat with
  | 0x0800 => return .hop .ipv4
  | 0x86dd => return .hop .ipv6
  | 0x6558 => return .hop .ethernet
  | 0x880b => return .done
  | _ => fail .unsupported

def ipInIp (innerIsV6 : Bool) : Header Onward := do
  enter .ipip
  return .hop (if innerIsV6 then .ipv6 else .ipv4)

/-! ### Tunnels by UDP port -/

def vxlan : Header Onward := do
  let flags ← read .u8
  skip 3
  let vniRes ← read .be32
  -- the I bit must be set for the identifier to be meaningful
  if flags &&& 0x08 = 0 then
    fail .malformed
  enter .vxlan
  tunnel fun t => { t with vxlanVni := some (vniRes >>> 8) }
  return .hop .ethernet

def geneve : Header Onward := do
  let verOptlen ← read .u8
  let _ ← read .u8
  let proto ← read .be16
  let vniRes ← read .be32
  enter .geneve
  tunnel fun t => { t with geneveVni := some (vniRes >>> 8), geneveProtocol := some proto }
  -- options, counted in 4-byte words
  skip ((verOptlen &&& 0x3f).toNat * 4)
  match proto.toNat with
  | 0x6558 => return .hop .ethernet
  | 0x0800 => return .hop .ipv4
  | 0x86dd => return .hop .ipv6
  | _ => fail .unsupported

/-- Walk an extension header chain: each is a length in 4-byte units, then the next type, and type 0
ends it; at most `guard` of them. -/
def gtpExtensions : ℕ → UInt8 → Header Unit
  | guard, next =>
      if next = 0 then pure ()
      else
        match guard with
        | 0 => fail .malformed
        | guard + 1 => do
            let len ← read .u8
            if len = 0 then
              fail .malformed
            skip (len.toNat * 4 - 2)
            let next ← read .u8
            gtpExtensions guard next

def gtp : Header Onward := do
  let flags ← read .u8
  let msgType ← read .u8
  let _ ← read .be16
  let teid ← read .be32
  enter .gtp
  tunnel fun t => { t with gtpVersion := some (flags >>> 5), gtpMsgType := some msgType,
                           gtpTeid := some teid }
  -- sequence number, N-PDU and extension header flags add a fixed block
  if flags &&& 0x07 ≠ 0 then
    skip 3
    let next ← read .u8
    gtpExtensions 8 next
  -- only message type 255 carries a user packet
  if msgType ≠ 255 then
    return .done
  Link.rawIp

def l2tp : Header Onward := do
  let flags ← read .be16
  enter .l2tp
  if flags &&& 0x4000 ≠ 0 then
    skip 2
  let tunnelId ← read .be16
  tunnel fun t => { t with l2tpTunnelId := some tunnelId }
  let sessionId ← read .be16
  tunnel fun t => { t with l2tpSessionId := some sessionId }
  -- a control message
  if flags &&& 0x8000 ≠ 0 then
    return .done
  if flags &&& 0x0800 ≠ 0 then
    skip 4
  if flags &&& 0x0200 ≠ 0 then
    skip 2
  -- data messages carry a PPP frame, with an address and control pair or without
  if (← peek 2) = some [0xff, 0x03] then
    skip 2
  let proto ← read .be16
  link fun l => { l with pppProtocol := some proto }
  Link.pppPayload proto

/-- Skip the authentication and origin indicators before the IPv6 packet.  Each has eight bytes at
least, so a walk with as many rounds as there are bytes ends before its rounds do. -/
def teredoIndicators : ℕ → Header Unit
  | 0 => pure ()
  | rounds + 1 => do
      match ← peek 2 with
      | some [0x00, 0x01] =>
          skip 2
          let idLen ← read .u8
          let auLen ← read .u8
          skip (idLen.toNat + auLen.toNat + 8 + 1)
          teredoIndicators rounds
      | some [0x00, 0x00] =>
          skip 8
          teredoIndicators rounds
      | _ => pure ()

def teredo : Header Onward := do
  teredoIndicators (← remaining)
  let b ← peekU8
  if b >>> 4 ≠ 6 then
    fail .malformed
  enter .teredo
  tunnel fun t => { t with teredoPresent := some true }
  return .hop .ipv6

/-- Recognise UDP-encapsulated tunnels by port. -/
def tryUdpTunnel (sport dport : UInt16) : Option (Header Onward) :=
  if dport = 4789 ∨ sport = 4789 ∨ dport = 4790 then some vxlan
  else if dport = 6081 ∨ sport = 6081 then some geneve
  else if dport = 2152 ∨ sport = 2152 ∨ dport = 2123 ∨ sport = 2123 then some gtp
  else if dport = 1701 ∨ sport = 1701 then some l2tp
  else if dport = 3544 ∨ sport = 3544 then some teredo
  else none

end Tunnel

end PcapRacer
