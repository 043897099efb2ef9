/-
**TLS and DTLS handshakes**, including certificate details and the JA3/JA4 fingerprints.

Records and handshake messages are taken as far as they are there: a record or message that was cut
short is read as if it ended at the cut.

Main definitions:

* `Exts`, `readExtension`, `parseExtensions`, `applyExts` — the extension block;
* `clientHello`, `serverHello`, `certificates` — the messages that are read;
* `handshake`, `parse` — the walk over messages and records.
-/

import PcapRacer.AppBer
import PcapRacer.Dissect
import PcapRacer.Fingerprint

set_option relaxedAutoImplicit false
set_option autoImplicit false

namespace PcapRacer

namespace AppTls

open Sink (layer)

abbrev M := Dissect (Sink TlsCols)

def versionName (v : UInt16) : Text :=
  if v = 0x0300 then "SSL 3.0".toList
  else if v = 0x0301 then "TLS 1.0".toList
  else if v = 0x0302 then "TLS 1.1".toList
  else if v = 0x0303 then "TLS 1.2".toList
  else if v = 0x0304 then "TLS 1.3".toList
  else if v = 0xfeff then "DTLS 1.0".toList
  else if v = 0xfefd then "DTLS 1.2".toList
  else if v = 0xfefc then "DTLS 1.3".toList
  else "0x".toList ++ hex4 v

def handshakeTypeName (t : UInt8) : Text :=
  match t.toNat with
  | 0 => "hello_request".toList
  | 1 => "client_hello".toList
  | 2 => "server_hello".toList
  | 4 => "new_session_ticket".toList
  | 8 => "encrypted_extensions".toList
  | 11 => "certificate".toList
  | 12 => "server_key_exchange".toList
  | 13 => "certificate_request".toList
  | 14 => "server_hello_done".toList
  | 15 => "certificate_verify".toList
  | 16 => "client_key_exchange".toList
  | 20 => "finished".toList
  | _ => "unknown".toList

/-- A known content type followed by a plausible version. -/
def looksLikeTls (d : Bytes) : Bool :=
  match d with
  | a :: b :: c :: _ => 20 ≤ a && a ≤ 23 && b == 0x03 && c ≤ 0x04
  | _ => false

def looksLikeDtls (d : Bytes) : Bool :=
  match d with
  | a :: b :: _ :: _ => 20 ≤ a && a ≤ 23 && b == 0xfe
  | _ => false

/-! ### Extensions -/

/-- Extension values gathered while walking the extension block. -/
structure Exts where
  ids : List UInt16 := []
  sni : Option Text := none
  alpn : List Text := []
  groups : List UInt16 := []
  pointFormats : List UInt8 := []
  sigAlgs : List UInt16 := []
  supportedVersions : List UInt16 := []
  deriving DecidableEq

/-- The sixteen-bit words of a byte string; an odd last byte is left out. -/
def words : Bytes → List UInt16
  | a :: b :: rest => UInt16.ofNat (beNat [a, b]) :: words rest
  | _ => []

/-- The first host name of a server name list.  Every entry takes three bytes at least, so `fuel`
equal to the number of bytes never runs out early. -/
def hostName : ℕ → Cur → Option (Option Text)
  | 0, _ => none
  | fuel + 1, d => do
      if d.remaining < 3 then none
      else
        let (ntype, d) ← d.u8.toOption
        let (nlen, d) ← d.be16.toOption
        let (name, d) ← (d.take nlen.toNat).toOption
        if ntype = 0 then pure (asciiString name) else hostName fuel d

/-- The protocol names of an ALPN list. -/
def protocolNames : ℕ → Cur → List Text
  | 0, _ => []
  | fuel + 1, d =>
      match d.u8 with
      | .error _ => []
      | .ok (l, d) =>
          match d.take l.toNat with
          | .error _ => []
          | .ok (p, d) => (asciiString p).toList ++ protocolNames fuel d

/-- The words of a list with a length prefix; none when the list is cut short. -/
def prefixedWords (len : ℕ) (d : Cur) : List UInt16 :=
  match d.take len with
  | .ok (b, _) => words b
  | .error _ => []

/-- Record one extension. -/
def readExtension (e : Exts) (id : UInt16) (data : Bytes) : Exts :=
  let e := { e with ids := e.ids ++ [id] }
  let d := Cur.new data
  match id.toNat with
  | 0 =>
      match d.be16 with
      | .ok (_, d) =>
          match hostName data.length d with
          | some name => { e with sni := name }
          | none => e
      | .error _ => e
  | 10 =>
      match d.be16 with
      | .ok (l, d) => { e with groups := e.groups ++ prefixedWords l.toNat d }
      | .error _ => e
  | 11 =>
      match d.u8 with
      | .ok (l, d) =>
          match d.take l.toNat with
          | .ok (pf, _) => { e with pointFormats := e.pointFormats ++ pf }
          | .error _ => e
      | .error _ => e
  | 13 =>
      match d.be16 with
      | .ok (l, d) => { e with sigAlgs := e.sigAlgs ++ prefixedWords l.toNat d }
      | .error _ => e
  | 16 =>
      match d.be16 with
      | .ok (_, d) => { e with alpn := e.alpn ++ protocolNames data.length d }
      | .error _ => e
  | 43 =>
      -- a length-prefixed list in a ClientHello, a single bare version in a ServerHello
      if data.length = 2 then
        match d.be16 with
        | .ok (v, _) => { e with supportedVersions := e.supportedVersions ++ [v] }
        | .error _ => e
      else
        match d.u8 with
        | .ok (l, d) =>
            { e with supportedVersions := e.supportedVersions ++ prefixedWords l.toNat d }
        | .error _ => e
  | _ => e

/-- Walk the extensions under a cursor. -/
def extensionLoop : ℕ → Cur → Exts → Exts
  | 0, _, e => e
  | fuel + 1, c, e =>
      if c.remaining < 4 then e
      else
        match c.be16 with
        | .error _ => e
        | .ok (id, c) =>
            match c.be16 with
            | .error _ => e
            | .ok (len, c) =>
                match c.take len.toNat with
                | .error _ => e
                | .ok (data, c) => extensionLoop fuel c (readExtension e id data)

/-- The extension block that follows in a hello message, as far as it is there. -/
def parseExtensions (c : Cur) : Exts :=
  match c.be16 with
  | .error _ => {}
  | .ok (total, c) =>
      match c.take (min total.toNat c.remaining) with
      | .error _ => {}
      | .ok (block, _) => extensionLoop block.length (Cur.new block) {}

/-- Decimal numbers joined by commas. -/
def commaJoined (l : List UInt16) : Text :=
  Text.join [','] (l.map fun x => Text.decimal x.toNat)

/-- Decimal bytes joined by commas. -/
def byteList (l : Bytes) : Text := Text.join [','] (l.map fun x => Text.decimal x.toNat)

def applyExts (e : Exts) : M Unit := do
  if e.ids ≠ [] then
    col fun c => { c with tlsExtensionCount := some (UInt16.ofNat e.ids.length),
                          tlsExtensions := some (commaJoined e.ids) }
  if let some s := e.sni then
    let s ← cap s 512
    col fun c => { c with tlsSni := some s }
  if e.alpn ≠ [] then
    col fun c => { c with tlsAlpn := some (Text.join [','] e.alpn) }
  if e.groups ≠ [] then
    col fun c => { c with tlsSupportedGroups := some (commaJoined e.groups) }
  if e.sigAlgs ≠ [] then
    col fun c => { c with tlsSigAlgs := some (Text.join [','] (e.sigAlgs.map hex4)) }
  if e.pointFormats ≠ [] then
    col fun c => { c with tlsEcPointFormats := some (byteList e.pointFormats) }
  if e.supportedVersions ≠ [] then
    let versions := (e.supportedVersions.filter (!isGrease ·)).map versionName
    col fun c => { c with tlsSupportedVersions := some (Text.join [','] versions) }

/-- The version a fingerprint should use: TLS 1.3 negotiates via `supported_versions` and pins the
legacy field at 1.2. -/
def effectiveVersion (legacy : UInt16) (e : Exts) : UInt16 :=
  match e.supportedVersions.filter (!isGrease ·) with
  | [] => legacy
  | v :: vs => vs.foldl (fun a b => if a < b then b else a) v

/-! ### Hello messages -/

section Hello

variable [Hashes]

/-- The columns of a ClientHello whose fixed part has been read. -/
def clientHelloCols (legacyVersion : UInt16) (ciphers : List UInt16) (e : Exts) : M Unit := do
  let version := effectiveVersion legacyVersion e
  col fun c => { c with tlsVersion := some (versionName version),
                        tlsCipherSuiteCount := some (UInt16.ofNat ciphers.length) }
  let suites ← cap (Text.join [','] (ciphers.map hex4)) 1024
  col fun c => { c with tlsCipherSuites := some suites }
  applyExts e
  -- JA3 is defined against the legacy version field, not the negotiated one
  let (h, full) := ja3 { version := legacyVersion, ciphers, extensions := e.ids,
                         curves := e.groups, pointFormats := e.pointFormats }
  col fun c => { c with ja3 := some h }
  let full ← cap full 2048
  col fun c => { c with ja3Full := some full }
  let fingerprint := ja4 { version, isQuic := false, hasSni := e.sni.isSome, ciphers,
                           extensions := e.ids, sigAlgs := e.sigAlgs, alpn := e.alpn.head? }
  col fun c => { c with ja4 := some fingerprint }

def clientHello (msg : Bytes) (isDtls : Bool) : M Unit := do
  let (legacyVersion, c) ← (Cur.new msg).be16
  let c ← c.skip 32
  let (sidLen, c) ← c.u8
  col fun s => { s with tlsSessionIdLen := some sidLen.toUInt16 }
  let c ← c.skip sidLen.toNat
  let c ← if isDtls then do
      let (cookieLen, c) ← c.u8
      c.skip cookieLen.toNat
    else pure c
  let (csLen, c) ← c.be16
  let (csBytes, c) ← c.take csLen.toNat
  let (compLen, c) ← c.u8
  let (comps, c) ← c.take compLen.toNat
  col fun s => { s with tlsCompressionMethods := some (byteList comps) }
  clientHelloCols legacyVersion (words csBytes) (parseExtensions c)

def serverHello (msg : Bytes) : M Unit := do
  let (legacyVersion, c) ← (Cur.new msg).be16
  let c ← c.skip 32
  let (sidLen, c) ← c.u8
  let c ← c.skip sidLen.toNat
  let (cipher, c) ← c.be16
  let (_, c) ← c.u8
  let e := parseExtensions c
  let version := effectiveVersion legacyVersion e
  col fun s => { s with tlsVersion := some (versionName version),
                        tlsCipherSelected := some (hex4 cipher) }
  applyExts e
  let (h, full) := ja3s legacyVersion cipher e.ids
  col fun s => { s with ja3s := some h }
  let full ← cap full 1024
  col fun s => { s with ja3sFull := some full }
  col fun s => { s with ja4s := some (ja4s version false cipher e.ids e.alpn.head?) }

end Hello

/-! ### Certificates -/

def oidCn : Bytes := [0x55, 0x04, 0x03]

def oidSan : Bytes := [0x55, 0x1d, 0x11]

/-- The dNSName and iPAddress entries of a subjectAltName, at most 64 of them. -/
def sanNames : ℕ → Cur → List Text → List Text
  | 0, _, names => names
  | fuel + 1, c, names =>
      match Ber.read c with
      | (.error _, _) => names
      | (.ok name, c) =>
          if name.cls ≠ Ber.classContext then sanNames fuel c names
          else
            let names :=
              if name.tag = 2 then names ++ (asciiString name.val).toList
              else if name.tag = 7 then
                if name.val.length = 4 then
                  names ++ [IpAddr.textV4 (UInt32.ofNat (beNat name.val))]
                else if name.val.length = 16 then
                  names ++ [IpAddr.textV6 (BitVec.ofNat 128 (beNat name.val))]
                else names
              else names
            if 64 ≤ names.length then names else sanNames fuel c names

/-- The value opens with a constructed sequence. -/
def opensSequence (val : Bytes) : Bool :=
  match (Ber.read (Cur.new val)).1 with
  | .ok t => t.constructed && t.tag == Ber.tagSequence
  | .error _ => false

/-- Find the subjectAltName extension and collect its entries. -/
def extractSans (tbs : Bytes) : Option Text := do
  let after ← Ber.findAfterOid 8 tbs oidSan
  let inner ←
    if after.tag = Ber.tagOctetString then some after.val
    else
      -- the criticality flag was present; look at the octet strings of the whole region
      ((Ber.collect 8 tbs 32 (fun t => t.tag == Ber.tagOctetString && !t.constructed) []).map
        Ber.Tlv.val).find? opensSequence
  let seq ← (Ber.read (Cur.new inner)).1.toOption
  let names := sanNames seq.val.length seq.cur []
  if names = [] then none else some (Text.join [','] names)

/-- Pull the analyst-relevant fields out of a DER certificate. -/
def parseCertificate (der : Bytes) : M Unit := do
  let (.ok cert, _) := Ber.read (Cur.new der) | return
  if !cert.constructed then return
  let (.ok tbs, _) := Ber.read cert.cur | return
  if !tbs.constructed then return
  let (.ok first, t) := Ber.read tbs.cur | return
  -- the version is an optional [0]-tagged field; when absent the serial comes first
  let (.ok serial, t) :=
    if first.is Ber.classContext 0 then Ber.read t else (.ok first, t) | return
  col fun c => { c with tlsCertSerial := some (hexBytes serial.val) }
  let (.ok _, t) := Ber.read t | return
  let (.ok issuer, t) := Ber.read t | return
  let (.ok validity, t) := Ber.read t | return
  let (.ok subject, _) := Ber.read t | return
  let issuerCn := (Ber.findAfterOid 6 issuer.val oidCn).bind Ber.Tlv.asStr
  let subjectCn := (Ber.findAfterOid 6 subject.val oidCn).bind Ber.Tlv.asStr
  if let (some i, some s) := (issuerCn, subjectCn) then
    col fun c => { c with tlsCertSelfSigned := some (i == s) }
  let issuerCapped ← issuerCn.mapM fun s => cap s 512
  col fun c => { c with tlsCertIssuer := issuerCapped }
  let subjectCapped ← subjectCn.mapM fun s => cap s 512
  col fun c => { c with tlsCertSubject := subjectCapped }
  let (notBefore, vc) := Ber.read validity.cur
  if let .ok nb := notBefore then
    col fun c => { c with tlsCertNotBefore := nb.asStr }
  let (notAfter, _) := Ber.read vc
  if let .ok na := notAfter then
    col fun c => { c with tlsCertNotAfter := na.asStr }
  if let some sans := extractSans tbs.val then
    let sans ← cap sans 2048
    col fun c => { c with tlsCertSans := some sans }

/-- The chain: how many certificates there are, at most `guard`, and the first of them. -/
def certificateList : ℕ → Cur → ℕ × Option Bytes
  | 0, _ => (0, none)
  | guard + 1, list =>
      if list.remaining ≤ 3 then (0, none)
      else
        match list.be24 with
        | .error _ => (0, none)
        | .ok (len, list) =>
            match list.take len.toNat with
            | .error _ => (0, none)
            | .ok (der, list) => ((certificateList guard list).1 + 1, some der)

/-- Only the leaf is described. -/
def certificates (msg : Bytes) : M Unit := do
  let .ok (total, c) := (Cur.new msg).be24 | return
  let list := match c.take (min total.toNat c.remaining) with
    | .ok (b, _) => b
    | .error _ => []
  let (count, first) := certificateList 16 (Cur.new list)
  col fun c => { c with tlsCertChainLen := some (UInt8.ofNat count) }
  if let some der := first then
    parseCertificate der

/-! ### Records -/

section Records

variable [Hashes]

/-- Walk the handshake messages of a record, at most `guard` of them. -/
def handshakeLoop (isDtls : Bool) : ℕ → Cur → M Unit
  | 0, _ => pure ()
  | guard + 1, c => do
      if 4 ≤ c.remaining then
        let (htype, c) ← c.u8
        let (hlen, c) ← c.be24
        -- message_seq, fragment_offset, fragment_length
        let c ← if isDtls then c.skip 8 else pure c
        let (msg, c) ← c.take (min hlen.toNat c.remaining)
        if (← cols).tlsHandshakeType.isNone then
          col fun s => { s with tlsHandshakeType := some htype,
                                tlsHandshakeTypeName := some (handshakeTypeName htype) }
        if htype = 1 then clientHello msg isDtls
        else if htype = 2 then serverHello msg
        else if htype = 11 then certificates msg
        handshakeLoop isDtls guard c

def handshake (body : Bytes) (isDtls : Bool) : M Unit := handshakeLoop isDtls 8 (Cur.new body)

/-- Walk the records, at most `guard` more; `first` says that none has been seen yet. -/
def recordLoop (isDtls : Bool) : ℕ → Bool → Cur → M Unit
  | 0, _, _ => pure ()
  | guard + 1, first, c => do
      if 5 ≤ c.remaining then
        let (rtype, c) ← c.u8
        let (rversion, c) ← c.be16
        -- epoch and sequence number
        let c ← if isDtls then c.skip 8 else pure c
        let (len, c) ← c.be16
        if first then
          col fun s => { s with tlsRecordType := some rtype,
                                tlsRecordVersion := some (versionName rversion) }
        let (body, c) ← c.take (min len.toNat c.remaining)
        if rtype = 22 then
          let r ← attempt (handshake body isDtls)
          if let .ok _ := r then
            recordLoop isDtls guard false c
        else if rtype = 21 then
          col fun s => { s with tlsAlertLevel := body[0]?, tlsAlertDescription := body[1]? }
          recordLoop isDtls guard false c
        else if rtype = 23 ∨ rtype = 20 then
          recordLoop isDtls guard false c

def parse (payload : Bytes) (isDtls : Bool) : M Unit := do
  layer (if isDtls then .dtls else .tls)
  col fun c => { c with tlsIsDtls := some isDtls }
  recordLoop isDtls 8 true (Cur.new payload)

end Records

end AppTls

end PcapRacer
