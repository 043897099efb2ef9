/-
**The link layer**: pcap link types, Ethernet and its tag stacks, ARP, and 802.11.

Main definitions:

* `ethernet`, `vlan`, `mpls`, `pppoe`, `llc` — the dissectors that other ones hand over to;
* `dissectLink` — the first dissector of a frame, by link type.

Main results:

* `ethernet_advances`, … — each of the dissectors that others hand over to makes progress.
-/

import PcapRacer.Header

set_option relaxedAutoImplicit false
set_option autoImplicit false

namespace PcapRacer

namespace Link

open Header

/-! ### What an EtherType announces -/

def arpOpcodeName (opcode : UInt16) : Text :=
  match opcode.toNat with
  | 1 => "request".toList
  | 2 => "reply".toList
  | 3 => "rarp-request".toList
  | 4 => "rarp-reply".toList
  | _ => "unknown".toList

def arp : Header Onward := do
  layer .arp
  let hwType ← read .be16
  let protoType ← read .be16
  let hwLen ← read .u8
  let protoLen ← read .u8
  let opcode ← read .be16
  link fun l => { l with arpHwType := some hwType, arpProtoType := some protoType,
                         arpOpcode := some opcode,
                         arpOpcodeName := some (arpOpcodeName opcode) }
  -- only Ethernet with IPv4 has addresses worth naming
  if hwLen = 6 ∧ protoLen = 4 then
    let sha ← read .mac
    let spa ← read .ipv4
    let tha ← read .mac
    let tpa ← read .ipv4
    link fun l => { l with arpSenderMac := some (fmtMac sha),
                           arpSenderIp := some (IpAddr.textV4 spa),
                           arpTargetMac := some (fmtMac tha),
                           arpTargetIp := some (IpAddr.textV4 tpa),
                           arpIsGratuitous := some (spa == tpa) }
  return .done

def ethertypePayload (ethertype : UInt16) : Header Onward :=
  match ethertype.toNat with
  | 0x0800 => return .hop .ipv4
  | 0x86dd => return .hop .ipv6
  | 0x0806 | 0x8035 => arp
  | 0x8100 | 0x88a8 | 0x9100 => return .hop .vlan
  | 0x8847 | 0x8848 => return .hop .mpls
  | 0x8864 => return .hop .pppoe
  | 0x8863 => do
      layer .pppoed
      return .done
  | 0x88cc => do
      layer .lldp
      return .done
  | _ => fail .unsupported

/-- Values up to 1500 are an 802.3 length field, not an EtherType: LLC follows. -/
def typeOrLength (ethertype : UInt16) : Header Onward :=
  if ethertype ≤ 1500 then return .hop .llc else ethertypePayload ethertype

/-- The first nibble is the IP version. -/
def rawIp : Header Onward := do
  let b ← peekU8
  match (b >>> 4).toNat with
  | 4 => return .hop .ipv4
  | 6 => return .hop .ipv6
  | _ => fail .unsupported

def pppPayload (proto : UInt16) : Header Onward :=
  match proto.toNat with
  | 0x0021 => return .hop .ipv4
  | 0x0057 => return .hop .ipv6
  | _ => fail .unsupported

/-! ### The dissectors that others hand over to -/

def ethernet : Header Onward := do
  layer .eth
  let dst ← read .mac
  let src ← read .mac
  let ethertype ← read .be16
  -- the multicast bit is the low bit of the first octet; broadcast is a special case of it
  link fun l => { l with ethDst := some (fmtMac dst), ethSrc := some (fmtMac src),
                         ethSrcOui := some (fmtOui src),
                         ethIsBroadcast := some (dst == List.replicate 6 0xff),
                         ethIsMulticast := some (dst.headD 0 &&& 0x01 != 0),
                         ethType := some ethertype }
  typeOrLength ethertype

def vlan : Header Onward := do
  layer .vlan
  let tci ← read .be16
  let vid := tci &&& 0x0fff
  -- an outer tag already recorded means this is the inner tag of a stack
  if (← get).link.vlanId.isSome then
    link fun l => { l with vlanInnerId := some vid }
  else
    link fun l => { l with vlanId := some vid, vlanPcp := some (tci >>> 13).toUInt8,
                           vlanDei := some ((tci >>> 12) &&& 1 == 1) }
  let inner ← read .be16
  typeOrLength inner

/-- Record the first label of a stack. -/
def mplsLabel (w : UInt32) : Header Unit := do
  if (← get).link.mplsLabel.isNone then
    link fun l => { l with mplsLabel := some (w >>> 12),
                           mplsTc := some ((w >>> 9) &&& 0x7).toUInt8,
                           mplsTtl := some (w &&& 0xff).toUInt8 }

/-- Walk the label stack to its bottom.  A label has four bytes, so a walk with as many rounds as
there are bytes ends before its rounds do. -/
def mplsLabels : ℕ → Header Unit
  | 0 => fail .truncated
  | rounds + 1 => do
      let w ← read .be32
      mplsLabel w
      if (w >>> 8) &&& 1 = 1 then return
      mplsLabels rounds

/-- MPLS carries no protocol identifier; the payload's first nibble is the only hint. -/
def mpls : Header Onward := do
  layer .mpls
  let w ← read .be32
  mplsLabel w
  if (w >>> 8) &&& 1 ≠ 1 then
    mplsLabels ((← remaining) + 1)
  rawIp

def pppoe : Header Onward := do
  layer .pppoe
  let _ ← read .u8
  let _ ← read .u8
  let session ← read .be16
  link fun l => { l with pppoeSessionId := some session }
  let _ ← read .be16
  let proto ← read .be16
  link fun l => { l with pppProtocol := some proto }
  pppPayload proto

def llc : Header Onward := do
  layer .llc
  let dsap ← read .u8
  let ssap ← read .u8
  let control ← read .u8
  link fun l => { l with llcDsap := some dsap, llcSsap := some ssap, llcControl := some control }
  -- 0xaa twice is SNAP, which restores an EtherType
  if dsap = 0xaa ∧ ssap = 0xaa then
    layer .snap
    let oui ← read .be24
    let pid ← read .be16
    link fun l => { l with snapOui := some oui, snapPid := some pid }
    if oui = 0 then
      return ← ethertypePayload pid
  return .done

/-! ### Link types -/

def linuxSll : Header Onward := do
  layer .sll
  let _ ← read .be16
  let _ ← read .be16
  let addrLen ← read .be16
  let addr ← take 8
  if addrLen = 6 then
    let m := addr.take 6
    link fun l => { l with ethSrc := some (fmtMac m), ethSrcOui := some (fmtOui m) }
  let proto ← read .be16
  link fun l => { l with ethType := some proto }
  ethertypePayload proto

def linuxSll2 : Header Onward := do
  layer .sll2
  let proto ← read .be16
  let _ ← read .be16
  let ifindex ← read .be32
  set fun s => { s with ifaceId := some ifindex }
  let _ ← read .be16
  let _ ← read .u8
  let addrLen ← read .u8
  let addr ← take 8
  if addrLen = 6 then
    link fun l => { l with ethSrc := some (fmtMac (addr.take 6)) }
  link fun l => { l with ethType := some proto }
  ethertypePayload proto

/-- The first tagged parameter of a management frame is the network name. -/
def wlanSsid : Header Unit := do
  if let some tag ← tryRead .u8 then
    if tag = 0 then
      if let some len ← tryRead .u8 then
        if let some ssid ← tryTake len.toNat then
          link fun l => { l with wlanSsid := asciiString ssid }

def ieee80211 : Header Onward := do
  layer .wlan
  let fc ← read .le16
  let ftype := ((fc >>> 2) &&& 0x3).toUInt8
  let subtype := ((fc >>> 4) &&& 0xf).toUInt8
  link fun l => { l with wlanType := some ftype, wlanSubtype := some subtype }
  let _ ← read .le16
  let addr1 ← read .mac
  let addr2 ← read .mac
  let addr3 ← read .mac
  let _ ← read .le16
  -- which address is the BSSID depends on the to/from-DS bits
  let toDs := fc &&& 0x0100 != 0
  let fromDs := fc &&& 0x0200 != 0
  let bssid := match toDs, fromDs with
    | false, false => addr3
    | true, false => addr1
    | false, true => addr2
    | true, true => addr3
  link fun l => { l with wlanBssid := some (fmtMac bssid) }
  if ftype = 0 ∧ (subtype = 8 ∨ subtype = 0 ∨ subtype = 4 ∨ subtype = 5) then
    if subtype = 8 then
      -- time stamp, beacon interval, capability
      trySkip 12
    wlanSsid
    return .done
  -- data frames carry LLC, then the usual payload
  if ftype = 2 ∧ subtype &&& 0x08 = 0 then
    if toDs && fromDs then
      skip 6
    return .hop .llc
  return .done

def radiotap : Header Onward := do
  layer .radiotap
  let _ ← read .u8
  let _ ← read .u8
  let len ← read .le16
  if len < 4 then
    fail .malformed
  skip (len.toNat - 4)
  ieee80211

/-- BSD loopback: a 4-byte address family in host order. -/
def loopback : Header Onward := do
  let af ← read .le32
  layer .null
  match af.toNat with
  | 2 => return .hop .ipv4
  | 24 | 28 | 30 => return .hop .ipv6
  | _ => fail .unsupported

def ppp : Header Onward := do
  layer .ppp
  let proto ← read .be16
  link fun l => { l with pppProtocol := some proto }
  pppPayload proto

def dissectLink (linktype : UInt16) : Header Onward :=
  match linktype.toNat with
  | 1 => return .hop .ethernet
  | 101 | 228 | 229 => rawIp
  | 0 | 108 => loopback
  | 113 => linuxSll
  | 276 => linuxSll2
  | 9 => ppp
  | 105 => ieee80211
  | 127 => radiotap
  | _ => fail .unsupported

/-! ### Progress -/

theorem ethernet_advances : ethernet.Advances := advances_layer_bind _ (advances_read_bind _ _)

theorem vlan_advances : vlan.Advances := advances_layer_bind _ (advances_read_bind _ _)

theorem mpls_advances : mpls.Advances := advances_layer_bind _ (advances_read_bind _ _)

theorem pppoe_advances : pppoe.Advances := advances_layer_bind _ (advances_read_bind _ _)

theorem llc_advances : llc.Advances := advances_layer_bind _ (advances_read_bind _ _)

end Link

end PcapRacer
