/-
**Compact binary protocols**: NTP, SNMP, TFTP, NetBIOS, RADIUS, MQTT, WireGuard, IKE, RTP, RTCP
and RDP.

Main definitions:

* `ntp`, `snmp`, `tftp`, `nbns`, `nbss`, `radius`, `mqtt`, `wireguard`, `ike`, `rtp`, `rtcp`,
  `rdp` — the dissectors;
* `looksLikeRtp`, `looksLikeRtcp` — recognising media without a port.
-/

import PcapRacer.Address
import PcapRacer.AppBer
import PcapRacer.Dissect

set_option relaxedAutoImplicit false
set_option autoImplicit false

namespace PcapRacer

namespace AppMisc

open Sink (layer)

abbrev M := Dissect (Sink MiscCols)

/-- A text field: null when empty, capped otherwise. -/
def fieldText (v : Bytes) (max : ℕ) : Except Panic (Option Text) :=
  (asciiString v).mapM fun s => cap s max

/-! ### NTP -/

def ntpModeName (mode : UInt8) : Text :=
  match mode.toNat with
  | 1 => "symmetric-active".toList
  | 2 => "symmetric-passive".toList
  | 3 => "client".toList
  | 4 => "server".toList
  | 5 => "broadcast".toList
  | 6 => "control".toList
  | 7 => "private".toList
  | _ => "reserved".toList

def ntp (payload : Bytes) : M Unit := do
  layer .ntp
  let (b0, c) ← (Cur.new payload).u8
  let mode := b0 &&& 0x7
  col fun s => { s with ntpLeap := some (b0 >>> 6), ntpVersion := some ((b0 >>> 3) &&& 0x7),
                        ntpMode := some mode, ntpModeName := some (ntpModeName mode) }
  let (stratum, c) ← c.u8
  col fun s => { s with ntpStratum := some stratum }
  let (poll, c) ← c.u8
  col fun s => { s with ntpPoll := some poll.toInt8.toInt }
  let (precision, c) ← c.u8
  col fun s => { s with ntpPrecision := some precision.toInt8.toInt }
  -- root delay and dispersion
  let c ← c.skip 8
  let (refId, _) ← c.take 4
  -- for stratum 0 and 1 the reference is a four-character code, above that an address
  let text := if stratum ≤ 1 then preview refId 4 else IpAddr.textV4 (UInt32.ofNat (beNat refId))
  col fun s => { s with ntpRefId := some text }

/-! ### SNMP -/

def snmpPduTypeName (tag : UInt8) : Text :=
  match tag.toNat with
  | 0 => "get-request".toList
  | 1 => "get-next-request".toList
  | 2 => "get-response".toList
  | 3 => "set-request".toList
  | 4 => "trap-v1".toList
  | 5 => "get-bulk-request".toList
  | 6 => "inform-request".toList
  | 7 => "trap-v2".toList
  | 8 => "report".toList
  | _ => "unknown".toList

/-- What stands in a PDU of version 1 or 2. -/
def snmpPdu (pdu : Ber.Tlv) : M Unit := do
  col fun s => { s with snmpPduType := some pdu.tag,
                        snmpPduTypeName := some (snmpPduTypeName pdu.tag) }
  let (reqId, p) := Ber.read pdu.cur
  if let .ok reqId := reqId then
    col fun s => { s with snmpRequestId := reqId.asI64.map Int64.toInt }
  let (err, _) := Ber.read p
  if let .ok err := err then
    col fun s => { s with snmpErrorStatus := err.asU64.map UInt64.toUInt8 }
  -- the object identifiers of the variable bindings
  let oids := Ber.collect 6 pdu.val 32 (·.is Ber.classUniversal Ber.tagOid) []
  let rendered := oids.filterMap Ber.Tlv.asOid
  if rendered ≠ [] then
    let text ← cap (Text.join [','] rendered) 1024
    col fun s => { s with snmpOids := some text }

def snmp (payload : Bytes) : M Unit := do
  layer .snmp
  let seq ← (Ber.read (Cur.new payload)).1
  if seq.constructed = false ∨ seq.tag ≠ Ber.tagSequence then
    giveUp .malformed
  let (version, s) := Ber.read seq.cur
  let version ← version
  let number := version.asU64.map UInt64.toUInt8
  col fun c => { c with snmpVersion := number }
  -- version 3 has a security-parameters structure in the place of the community string
  if number = some 3 then
    return
  let (community, s) := Ber.read s
  let community ← community
  let text ← community.asStr.mapM fun v => cap v 256
  col fun c => { c with snmpCommunity := text }
  let pdu ← (Ber.read s).1
  if pdu.cls ≠ Ber.classContext then
    return
  snmpPdu pdu

/-! ### TFTP -/

/-- The parts between zero bytes. -/
def splitNul : Bytes → List Bytes
  | [] => [[]]
  | b :: rest =>
      if b = 0 then [] :: splitNul rest
      else
        match splitNul rest with
        | [] => [[b]]
        | p :: ps => (b :: p) :: ps

def tftp (payload : Bytes) : M Unit := do
  layer .tftp
  let (opcode, c) ← (Cur.new payload).be16
  col fun s => { s with tftpOpcode := some opcode }
  -- only read and write requests carry a file name
  if opcode = 1 ∨ opcode = 2 then
    let parts := splitNul c.rest
    let filename ← (parts[0]?.bind asciiString).mapM fun s => cap s 512
    col fun s => { s with tftpFilename := filename, tftpMode := parts[1]?.bind asciiString }

/-! ### NetBIOS -/

/-- Decode pairs of bytes, each byte a nibble offset by `A`. -/
def nbPairs : Bytes → Option Text
  | hi :: lo :: rest =>
      let hi := hi - 65
      let lo := lo - 65
      if 15 < hi ∨ 15 < lo then none
      else (nbPairs rest).map (Char.ofNat (hi.toNat * 16 + lo.toNat) :: ·)
  | _ => some []

/-- Decode the first-level NetBIOS name encoding. -/
def nbDecode (encoded : Bytes) : Option Text :=
  if encoded.length < 32 then none else (nbPairs (encoded.take 32)).map Text.trimEnd

def nbns (payload : Bytes) : M Unit := do
  layer .nbns
  let (_, c) ← (Cur.new payload).be16
  let (flags, c) ← c.be16
  col fun s => { s with nbnsOpcode := some ((flags >>> 11) &&& 0xf).toUInt8 }
  -- the counts
  let c ← c.skip 8
  let (len, c) ← c.u8
  let (name, _) ← c.take len.toNat
  col fun s => { s with nbnsName := nbDecode name }

def nbss (payload : Bytes) : M Unit := do
  layer .nbss
  let (t, _) ← (Cur.new payload).u8
  col fun s => { s with nbssType := some t }

/-! ### RADIUS -/

def radiusCodeName (code : UInt8) : Text :=
  match code.toNat with
  | 1 => "Access-Request".toList
  | 2 => "Access-Accept".toList
  | 3 => "Access-Reject".toList
  | 4 => "Accounting-Request".toList
  | 5 => "Accounting-Response".toList
  | 11 => "Access-Challenge".toList
  | _ => "Other".toList

/-- Record one attribute. -/
def radiusAttribute (t : UInt8) (v : Bytes) : M Unit := do
  match t.toNat with
  | 1 =>
      let s ← fieldText v 256
      col fun c => { c with radiusUsername := s }
  | 4 =>
      if v.length = 4 then
        col fun c => { c with radiusNasIp := some (IpAddr.textV4 (UInt32.ofNat (beNat v))) }
  | 30 =>
      let s ← fieldText v 256
      col fun c => { c with radiusCalledStation := s }
  | 31 =>
      let s ← fieldText v 256
      col fun c => { c with radiusCallingStation := s }
  | _ => pure ()

/-- Walk the attributes, at most `guard` of them. -/
def radiusAttributes : ℕ → Cur → M Unit
  | 0, _ => pure ()
  | guard + 1, a => do
      if 2 ≤ a.remaining then
        let (t, a) ← a.u8
        let (l, a) ← a.u8
        if 2 ≤ l then
          match a.take (l.toNat - 2) with
          | .error _ => pure ()
          | .ok (v, a) =>
              radiusAttribute t v
              radiusAttributes guard a

def radius (payload : Bytes) : M Unit := do
  layer .radius
  let (code, c) ← (Cur.new payload).u8
  col fun s => { s with radiusCode := some code, radiusCodeName := some (radiusCodeName code) }
  let (identifier, c) ← c.u8
  col fun s => { s with radiusIdentifier := some identifier }
  let (len, c) ← c.be16
  -- the authenticator
  let c ← c.skip 16
  -- attributes fill the remainder of the declared length
  let (body, _) ← c.take (min (len.toNat - 20) c.remaining)
  radiusAttributes 128 (Cur.new body)

/-! ### MQTT -/

def mqttMsgTypeName (t : UInt8) : Text :=
  match t.toNat with
  | 1 => "CONNECT".toList
  | 2 => "CONNACK".toList
  | 3 => "PUBLISH".toList
  | 4 => "PUBACK".toList
  | 8 => "SUBSCRIBE".toList
  | 9 => "SUBACK".toList
  | 12 => "PINGREQ".toList
  | 13 => "PINGRESP".toList
  | 14 => "DISCONNECT".toList
  | _ => "OTHER".toList

/-- The remaining length: groups of seven bits, lowest first, at most four. -/
def mqttLength : ℕ → UInt32 → UInt32 → Cur → Except DissectError (UInt32 × Cur)
  | 0, _, _, _ => .error .malformed
  | bytes + 1, shift, acc, c => do
      let (b, c) ← c.u8
      let acc := acc ||| (b &&& 0x7f).toUInt32 <<< shift
      if b &&& 0x80 = 0 then pure (acc, c) else mqttLength bytes (shift + 7) acc c

/-- CONNECT: protocol name, level, flags, keep-alive, then the client identifier. -/
def mqttConnect (c : Cur) : M Unit := do
  let (nameLen, c) ← c.be16
  let c ← c.skip nameLen.toNat
  let (_, c) ← c.u8
  let (flags, c) ← c.u8
  let (_, c) ← c.be16
  let (idLen, c) ← c.be16
  let (id, c) ← c.take idLen.toNat
  let id ← fieldText id 256
  col fun s => { s with mqttClientId := id }
  -- will topic and message precede the credentials when the will flag is set
  let c ← if flags &&& 0x04 ≠ 0 then do
      let (topicLen, c) ← c.be16
      let c ← c.skip topicLen.toNat
      let (messageLen, c) ← c.be16
      let c ← c.skip messageLen.toNat
      pure c
    else pure c
  if flags &&& 0x80 ≠ 0 then
    let (userLen, c) ← c.be16
    let (user, _) ← c.take userLen.toNat
    let user ← fieldText user 256
    col fun s => { s with mqttUsername := user }

def mqtt (payload : Bytes) : M Unit := do
  layer .mqtt
  let (b0, c) ← (Cur.new payload).u8
  let msgType := b0 >>> 4
  col fun s => { s with mqttMsgType := some msgType,
                        mqttMsgTypeName := some (mqttMsgTypeName msgType),
                        mqttQos := some ((b0 >>> 1) &&& 0x3) }
  let (remaining, c) ← mqttLength 4 0 0 c
  col fun s => { s with mqttPayloadLen := some remaining }
  if msgType = 1 then
    mqttConnect c
  else if msgType = 3 then
    let (topicLen, c) ← c.be16
    let (topic, _) ← c.take topicLen.toNat
    let topic ← fieldText topic 512
    col fun s => { s with mqttTopic := topic }

/-! ### WireGuard and IKE -/

def wireguard (payload : Bytes) : M Unit := do
  layer .wireguard
  let (t, c) ← (Cur.new payload).u8
  if t < 1 ∨ 4 < t then
    giveUp .malformed
  -- reserved
  let c ← c.skip 3
  col fun s => { s with wireguardType := some t }
  if t = 1 then
    let (sender, _) ← c.le32
    col fun s => { s with wireguardSender := some sender }
  else if t = 2 then
    let (sender, c) ← c.le32
    col fun s => { s with wireguardSender := some sender }
    let (receiver, _) ← c.le32
    col fun s => { s with wireguardReceiver := some receiver }
  else
    let (receiver, _) ← c.le32
    col fun s => { s with wireguardReceiver := some receiver }

def ike (payload : Bytes) : M Unit := do
  layer .ike
  let c := Cur.new payload
  -- over port 4500 the message is preceded by a zero marker
  let c ← if c.peek 4 = some [0, 0, 0, 0] then (c.skip 4 : Except DissectError Cur) else pure c
  let (initiator, c) ← c.take 8
  col fun s => { s with ikeInitiatorSpi := some (hexBytes initiator) }
  let (responder, c) ← c.take 8
  col fun s => { s with ikeResponderSpi := some (hexBytes responder) }
  let (_, c) ← c.u8
  let (version, c) ← c.u8
  let text := Text.decimal (version >>> 4).toNat ++ ['.'] ++ Text.decimal (version &&& 0xf).toNat
  col fun s => { s with ikeVersion := some text }
  let (exchange, c) ← c.u8
  col fun s => { s with ikeExchangeType := some exchange }
  let (_, c) ← c.u8
  let (messageId, _) ← c.be32
  col fun s => { s with ikeMessageId := some messageId }

/-! ### RTP and RTCP -/

/-- RTP has no port registration and no magic number, so misidentifying it is easy: require
version 2 and a payload type outside the range RTCP uses. -/
def looksLikeRtp (d : Bytes) : Bool :=
  match d with
  | b0 :: b1 :: _ =>
      let pt := b1 &&& 0x7f
      12 ≤ d.length && b0 >>> 6 == 2 && !(72 ≤ pt && pt ≤ 95)
  | _ => false

def looksLikeRtcp (d : Bytes) : Bool :=
  match d with
  | b0 :: b1 :: _ => 8 ≤ d.length && b0 >>> 6 == 2 && (200 ≤ b1 && b1 ≤ 207)
  | _ => false

def rtp (payload : Bytes) : M Unit := do
  layer .rtp
  let (b0, c) ← (Cur.new payload).u8
  let (b1, c) ← c.u8
  col fun s => { s with rtpVersion := some (b0 >>> 6), rtpMarker := some (b1 &&& 0x80 ≠ 0),
                        rtpPayloadType := some (b1 &&& 0x7f) }
  let (seq, c) ← c.be16
  col fun s => { s with rtpSeq := some seq }
  let (timestamp, c) ← c.be32
  col fun s => { s with rtpTimestamp := some timestamp }
  let (ssrc, _) ← c.be32
  col fun s => { s with rtpSsrc := some ssrc }

def rtcp (payload : Bytes) : M Unit := do
  layer .rtcp
  let (_, c) ← (Cur.new payload).u8
  let (t, c) ← c.u8
  col fun s => { s with rtcpType := some t }
  let (_, c) ← c.be16
  let (ssrc, _) ← c.be32
  col fun s => { s with rtcpSsrc := some ssrc }

/-! ### RDP -/

def rdpTypeName (code : UInt8) : Text :=
  match (code >>> 4).toNat with
  | 0xe => "connection-request".toList
  | 0xd => "connection-confirm".toList
  | 0xf => "data".toList
  | _ => "other".toList

/-- What stands after the first occurrence of a string. -/
def after (needle : Text) : Text → Option Text
  | [] => none
  | c :: s => if needle.isPrefixOf (c :: s) then some ((c :: s).drop needle.length)
      else after needle s

/-- The routing token or cookie: up to the end of its line, or at most 256 bytes. -/
def rdpCookie (rest : Bytes) : Except Panic (Option Text) :=
  match after "Cookie: ".toList (Text.lossy rest) with
  | none => pure none
  | some tail => do
      let line ← if '\r' ∈ tail then pure (tail.takeWhile (· ≠ '\r'))
        else do
          let halves ← Text.splitAt tail (min (Text.utf8Len tail) 256)
          pure halves.1
      let cookie ← cap line 256
      pure (some cookie)

def rdp (payload : Bytes) : M Unit := do
  layer .rdp
  -- TPKT header: version 3, reserved, 16-bit length
  let (version, c) ← (Cur.new payload).u8
  if version ≠ 3 then
    giveUp .malformed
  let c ← c.skip 3
  let (_, c) ← c.u8
  let (code, c) ← c.u8
  col fun s => { s with rdpType := some (rdpTypeName code) }
  if code >>> 4 = 0xe then
    -- destination and source reference, class
    let c ← c.skip 5
    let rest := c.rest
    if let some cookie ← rdpCookie rest then
      col fun s => { s with rdpCookie := some cookie }
    -- negotiation request: type 1, flags, length, requested protocols
    if let some pos := rest.findIdx? (· == 0x01) then
      if pos + 8 ≤ rest.length then
        let protocols := UInt32.ofNat (leNat ((rest.drop (pos + 4)).take 4))
        col fun s => { s with rdpRequestedProtocols := some protocols }

end AppMisc

end PcapRacer
