/-
**DHCPv4 and DHCPv6.**

Main definitions:

* `dhcpOption`, `optionLoop` — the options;
* `parse`, `parseV6` — the dissectors.
-/

import PcapRacer.Address
import PcapRacer.Dissect

set_option relaxedAutoImplicit false
set_option autoImplicit false

namespace PcapRacer

namespace AppDhcp

open Sink (layer)

abbrev M := Dissect (Sink DhcpCols)

def magicCookie : UInt32 := 0x63825363

def msgTypeName (t : UInt8) : Text :=
  match t.toNat with
  | 1 => "DISCOVER".toList
  | 2 => "OFFER".toList
  | 3 => "REQUEST".toList
  | 4 => "DECLINE".toList
  | 5 => "ACK".toList
  | 6 => "NAK".toList
  | 7 => "RELEASE".toList
  | 8 => "INFORM".toList
  | _ => "OTHER".toList

def valStr (v : Bytes) : Except Panic (Option Text) := (asciiString v).mapM fun s => cap s 256

/-- The four bytes of an address as text. -/
def addressText (v : Bytes) : Text := IpAddr.textV4 (UInt32.ofNat (beNat v))

/-- Record one option. -/
def dhcpOption (code : UInt8) (val : Bytes) : M Unit := do
  match code.toNat with
  | 12 =>
      let s ← valStr val
      col fun c => { c with dhcpHostname := s }
  | 15 =>
      let s ← valStr val
      col fun c => { c with dhcpDomain := s }
  | 50 =>
      if val.length = 4 then
        col fun c => { c with dhcpRequestedIp := some (addressText val) }
  | 51 =>
      if val.length = 4 then
        col fun c => { c with dhcpLeaseTime := some (UInt32.ofNat (beNat val)) }
  | 53 =>
      if let [t] := val then
        col fun c => { c with dhcpMsgType := some t, dhcpMsgTypeName := some (msgTypeName t) }
  | 54 =>
      if val.length = 4 then
        col fun c => { c with dhcpServerId := some (addressText val) }
  | 55 =>
      -- the parameter request list, in order, is the classic DHCP OS fingerprint
      let list := Text.join [','] (val.map fun x => Text.decimal x.toNat)
      let v ← cap list 512
      col fun c => { c with dhcpFingerprint := some v, dhcpParamReqList := some v }
  | 60 =>
      let s ← valStr val
      col fun c => { c with dhcpVendorClass := s }
  | _ => pure ()

/-- Walk the options, at most `guard` of them. -/
def optionLoop : ℕ → Cur → M Unit
  | 0, _ => pure ()
  | guard + 1, c =>
      match c.u8 with
      | .error _ => pure ()
      | .ok (code, c) =>
          if code = 0 then optionLoop guard c
          else if code = 255 then pure ()
          else
            match c.u8 with
            | .error _ => pure ()
            | .ok (len, c) =>
                match c.take len.toNat with
                | .error _ => pure ()
                | .ok (val, c) => do
                    dhcpOption code val
                    optionLoop guard c

def parse (payload : Bytes) : M Unit := do
  layer .dhcp
  let (op, c) ← (Cur.new payload).u8
  let (_, c) ← c.u8
  let (hlen, c) ← c.u8
  let (_, c) ← c.u8
  let (xid, c) ← c.be32
  let (_, c) ← c.be16
  let (_, c) ← c.be16
  let (ciaddr, c) ← c.ipv4
  let (yiaddr, c) ← c.ipv4
  let (_, c) ← c.ipv4
  let (_, c) ← c.ipv4
  let (chaddr, c) ← c.take 16
  col fun s => { s with dhcpOp := some op, dhcpTransactionId := some xid }
  if ciaddr ≠ 0 then
    col fun s => { s with dhcpClientIp := some (IpAddr.textV4 ciaddr) }
  if yiaddr ≠ 0 then
    col fun s => { s with dhcpYourIp := some (IpAddr.textV4 yiaddr) }
  if hlen = 6 then
    col fun s => { s with dhcpClientMac := some (fmtMac (chaddr.take 6)) }
  -- sname and file
  let c ← c.skip (64 + 128)
  let (cookie, c) ← c.be32
  if cookie ≠ magicCookie then
    giveUp .malformed
  optionLoop 128 c

def parseV6 (payload : Bytes) : M Unit := do
  layer .dhcpv6
  let (msgType, c) ← (Cur.new payload).u8
  let (xid, _) ← c.be24
  col fun s => { s with dhcp6MsgType := some msgType, dhcp6TransactionId := some xid }

end AppDhcp

end PcapRacer
