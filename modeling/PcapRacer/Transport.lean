/-
**The transport layer**: TCP with its options, UDP, SCTP.

Main definitions:

* `flagsString`, `parseTcpOptions` — TCP flags and options;
* `tcp`, `udp`, `sctp` — the dissectors.
-/

import PcapRacer.Tunnel
import PcapRacer.Flow

set_option relaxedAutoImplicit false
set_option autoImplicit false

namespace PcapRacer

namespace Transport

open Header

def protoTcp : UInt8 := 6

def protoUdplite : UInt8 := 136

def protoSctp : UInt8 := 132

def setTuple (src dst : IpAddr) (sport dport : UInt16) (proto : UInt8) : Header Unit :=
  set fun s => { s with tuple := some { srcIp := src, dstIp := dst, srcPort := sport,
                                        dstPort := dport, proto } }

/-! ### TCP -/

def tcpPsh : UInt16 := 0x008

def tcpUrg : UInt16 := 0x020

def tcpEce : UInt16 := 0x040

def tcpCwr : UInt16 := 0x080

def flagsString (f : UInt16) : Text :=
  let names : List (UInt16 × String) :=
    [(tcpFin, "FIN"), (tcpSyn, "SYN"), (tcpRst, "RST"), (tcpPsh, "PSH"), (tcpAck, "ACK"),
      (tcpUrg, "URG"), (tcpEce, "ECE"), (tcpCwr, "CWR")]
  Text.join [','] ((names.filter fun p => hasFlag f p.1).map fun p => p.2.toList)

/-- The left and right edges of the selective acknowledgement blocks. -/
def sackBlocks : ℕ → Bytes → List Text
  | 0, _ => []
  | count + 1, body =>
      let l := beNat (body.take 4)
      let r := beNat ((body.drop 4).take 4)
      (Text.decimal l ++ ['-'] ++ Text.decimal r) :: sackBlocks count (body.drop 8)

/-- The name of an option, and what it says. -/
def tcpOption (kind : UInt8) (body : Bytes) (t : TransportCols) : Text × TransportCols :=
  match kind.toNat with
  | 2 =>
      ("mss".toList,
        if body.length = 2 then { t with tcpMss := some (UInt16.ofNat (beNat body)) } else t)
  | 3 =>
      ("wscale".toList,
        match body with
        | [shift] => { t with tcpWindowScale := some shift }
        | _ => t)
  | 4 => ("sackok".toList, { t with tcpSackPermitted := some true })
  | 5 =>
      let blocks := sackBlocks (body.length / 8) body
      ("sack".toList,
        if blocks = [] then t else { t with tcpSackBlocks := some (Text.join [','] blocks) })
  | 8 =>
      ("timestamp".toList,
        if body.length = 8 then
          { t with tcpTsVal := some (UInt32.ofNat (beNat (body.take 4)))
                   tcpTsEcr := some (UInt32.ofNat (beNat (body.drop 4))) }
        else t)
  | other => ("opt".toList ++ Text.decimal other, t)

/-- Walk the options.  They are attacker-controlled; any inconsistency ends the walk rather than
failing the packet.  Every round consumes a byte, so `fuel` equal to the number of bytes never
runs out early. -/
def optionLoop : ℕ → Cur → TransportCols → List Text × TransportCols
  | 0, _, t => ([], t)
  | fuel + 1, c, t =>
      match c.u8 with
      | .error _ => ([], t)
      | .ok (kind, c) =>
          if kind = 0 then ([], t)
          else if kind = 1 then
            let (kinds, t) := optionLoop fuel c t
            ("nop".toList :: kinds, t)
          else
            match c.u8 with
            | .error _ => ([], t)
            | .ok (len, c) =>
                if len < 2 then ([], t)
                else
                  match c.take (len.toNat - 2) with
                  | .error _ => ([], t)
                  | .ok (body, c) =>
                      let (name, t) := tcpOption kind body t
                      let (kinds, t) := optionLoop fuel c t
                      (name :: kinds, t)

/-- The order of the options is itself a passive fingerprint, so the sequence is kept. -/
def parseTcpOptions (opts : Bytes) (t : TransportCols) : TransportCols :=
  let (kinds, t) := optionLoop opts.length (Cur.new opts) t
  if kinds = [] then t else { t with tcpOptionKinds := some (Text.join [','] kinds) }

def tcp (src dst : IpAddr) : Header Onward := do
  layer .tcp
  let sport ← read .be16
  let dport ← read .be16
  let seq ← read .be32
  let ack ← read .be32
  let offsetFlags ← read .be16
  let window ← read .be16
  let checksum ← read .be16
  let urgent ← read .be16
  let dataOffset := (offsetFlags >>> 12).toNat * 4
  let flags := offsetFlags &&& 0x01ff
  transport fun t =>
    { t with l4Proto := some "tcp".toList, srcPort := some sport, dstPort := some dport,
             tcpSeq := some seq, tcpAck := some ack, tcpFlags := some flags,
             tcpFlagsStr := some (flagsString flags),
             tcpFlagFin := some (hasFlag flags tcpFin), tcpFlagSyn := some (hasFlag flags tcpSyn),
             tcpFlagRst := some (hasFlag flags tcpRst), tcpFlagPsh := some (hasFlag flags tcpPsh),
             tcpFlagAck := some (hasFlag flags tcpAck), tcpFlagUrg := some (hasFlag flags tcpUrg),
             tcpFlagEce := some (hasFlag flags tcpEce), tcpFlagCwr := some (hasFlag flags tcpCwr),
             tcpWindow := some window, tcpChecksum := some checksum,
             tcpUrgentPtr := some urgent, tcpHdrLen := some (UInt8.ofNat dataOffset) }
  setTuple src dst sport dport protoTcp
  -- a data offset below the 20-byte minimum is corrupt; above it, options follow
  let optLen := dataOffset - 20
  if 0 < optLen ∧ optLen ≤ (← remaining) then
    let opts ← take optLen
    transport (parseTcpOptions opts)
  return .payload { isTcp := true, sport, dport }

/-! ### UDP -/

/-- UDP-borne tunnels must be unwrapped before application dispatch. -/
def udpPayload (sport dport : UInt16) : Header Onward :=
  match Tunnel.tryUdpTunnel sport dport with
  | some d => d
  | none => return .payload { isTcp := false, sport, dport }

def udp (src dst : IpAddr) (proto : UInt8) : Header Onward := do
  layer .udp
  let sport ← read .be16
  let dport ← read .be16
  let len ← read .be16
  let checksum ← read .be16
  let name := if proto = protoUdplite then "udplite".toList else "udp".toList
  transport fun t =>
    { t with l4Proto := some name, srcPort := some sport, dstPort := some dport,
             udpLen := some len, udpChecksum := some checksum }
  setTuple src dst sport dport proto
  -- the length covers the header too, and can lie
  if 8 ≤ len.toNat ∧ len.toNat - 8 < (← remaining) then
    confine (len.toNat - 8)
  udpPayload sport dport

/-! ### SCTP -/

def chunkTypeName (t : UInt8) : Text :=
  match t.toNat with
  | 0 => "DATA".toList
  | 1 => "INIT".toList
  | 2 => "INIT_ACK".toList
  | 3 => "SACK".toList
  | 4 => "HEARTBEAT".toList
  | 5 => "HEARTBEAT_ACK".toList
  | 6 => "ABORT".toList
  | 7 => "SHUTDOWN".toList
  | 10 => "COOKIE_ECHO".toList
  | 11 => "COOKIE_ACK".toList
  | other => "CHUNK".toList ++ Text.decimal other

/-- The types of the chunks, at most `count`.  Chunks are padded to a 4-byte boundary. -/
def chunkTypes : ℕ → Cur → List Text
  | 0, _ => []
  | count + 1, c =>
      match c.u8 with
      | .error _ => []
      | .ok (t, c) =>
          match c.u8 with
          | .error _ => []
          | .ok (_, c) =>
              match c.be16 with
              | .error _ => []
              | .ok (len, c) =>
                  if len < 4 then []
                  else
                    match c.skip ((len.toNat - 4 + 3) / 4 * 4) with
                    | .error _ => [chunkTypeName t]
                    | .ok c => chunkTypeName t :: chunkTypes count c

def sctp (src dst : IpAddr) : Header Onward := do
  layer .sctp
  let sport ← read .be16
  let dport ← read .be16
  let vtag ← read .be32
  let checksum ← read .be32
  transport fun t =>
    { t with l4Proto := some "sctp".toList, srcPort := some sport, dstPort := some dport,
             sctpVerificationTag := some vtag, sctpChecksum := some checksum }
  setTuple src dst sport dport protoSctp
  let types := chunkTypes 64 (← cursor)
  if types ≠ [] then
    transport fun t => { t with sctpChunkTypes := some (Text.join [','] types),
                                sctpNumChunks := some (UInt16.ofNat types.length) }
  return .done

end Transport

end PcapRacer
