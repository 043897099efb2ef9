/-
**Fingerprints.**

Passive TLS and SSH fingerprints and the Community ID flow hash.  The digests themselves and the
base64 alphabet come from libraries; `Hashes` names them, and nothing is assumed about them.

Main definitions:

* `Hashes` — the digests;
* `isGrease` — the random values that are left out of a fingerprint;
* `ja3`, `ja3s`, `ja4`, `ja4s`, `hassh`, `communityId` — the fingerprints.
-/

import Mathlib.Data.List.Sort
import PcapRacer.Address

set_option relaxedAutoImplicit false
set_option autoImplicit false

namespace PcapRacer

/-- The digests and the base64 encoding that fingerprints are made with. -/
class Hashes where
  md5 : Bytes → Bytes
  sha1 : Bytes → Bytes
  sha256 : Bytes → Bytes
  base64 : Bytes → Text

/-- GREASE values (RFC 8701) are random padding a client inserts to keep middleboxes honest. -/
def isGrease (v : UInt16) : Bool := v &&& 0x0f0f == 0x0a0a && v >>> 8 == v &&& 0x00ff

section Digests

variable [Hashes]

def md5Hex (s : Text) : Text := hexBytes (Hashes.md5 s.encode)

def sha256Trunc12 (s : Text) : Text := hexBytes ((Hashes.sha256 s.encode).take 6)

/-- Twelve zeroes, which stand for an empty list. -/
def zeroes12 : Text := List.replicate 12 '0'

/-- A JA4 component over an empty list is the literal string of twelve zeroes, not a hash of the
empty string. -/
def ja4HashList (items : List Text) : Text :=
  if items = [] then zeroes12 else sha256Trunc12 (Text.join [','] items)

/-! ### JA3 -/

structure Ja3Input where
  version : UInt16
  ciphers : List UInt16
  extensions : List UInt16
  curves : List UInt16
  pointFormats : List UInt8

/-- The values that are not GREASE, in decimal, joined by dashes. -/
def dashJoined (v : List UInt16) : Text :=
  Text.join ['-'] ((v.filter (!isGrease ·)).map fun x => Text.decimal x.toNat)

/-- JA3: MD5 over `version,ciphers,extensions,curves,point_formats`.  Returns the digest and the
full string. -/
def ja3 (i : Ja3Input) : Text × Text :=
  let full := Text.join [',']
    [Text.decimal i.version.toNat, dashJoined i.ciphers, dashJoined i.extensions,
      dashJoined i.curves, Text.join ['-'] (i.pointFormats.map fun x => Text.decimal x.toNat)]
  (md5Hex full, full)

/-- JA3S: the server-side equivalent, over `version,cipher,extensions`. -/
def ja3s (version cipher : UInt16) (extensions : List UInt16) : Text × Text :=
  let full := Text.join [',']
    [Text.decimal version.toNat, Text.decimal cipher.toNat, dashJoined extensions]
  (md5Hex full, full)

/-! ### JA4 -/

/-- Two-character TLS version code as used by JA4. -/
def ja4Version (v : UInt16) : Text :=
  if v = 0x0304 then "13".toList
  else if v = 0x0303 then "12".toList
  else if v = 0x0302 then "11".toList
  else if v = 0x0301 then "10".toList
  else if v = 0x0300 then "s3".toList
  else if v = 0x0002 then "s2".toList
  else "00".toList

structure Ja4Input where
  /-- The negotiated version, preferring `supported_versions` over the legacy field. -/
  version : UInt16
  isQuic : Bool
  hasSni : Bool
  ciphers : List UInt16
  extensions : List UInt16
  sigAlgs : List UInt16
  alpn : Option Text

/-- The first and the last byte of the protocol name, each as a character. -/
def alpnCode (alpn : Option Text) : Text :=
  match alpn with
  | some a =>
      match a.encode with
      | [] => "00".toList
      | b :: bs => [Char.ofNat b.toNat, Char.ofNat ((b :: bs).getLast (by simp)).toNat]
  | none => "00".toList

/-- At most two digits, padded with zeros. -/
def twoDigits (n : ℕ) : Text := Text.zeroPad 2 (Text.decimal (min n 99))

def hex4 (v : UInt16) : Text := Text.hex 4 v.toNat

/-- Strings in ascending order. -/
def sortTexts (l : List Text) : List Text := l.insertionSort fun s s' => s.le s'

/-- JA4, in its canonical `a_b_c` form.  The cipher and extension lists are sorted before
hashing. -/
def ja4 (i : Ja4Input) : Text :=
  let ciphers := i.ciphers.filter (!isGrease ·)
  let allExts := i.extensions.filter (!isGrease ·)
  -- SNI (0) and ALPN (16) are already represented in the `a` part
  let hashedExts := allExts.filter fun e => e ≠ 0x0000 ∧ e ≠ 0x0010
  let a := [if i.isQuic then 'q' else 't'] ++ ja4Version i.version ++
    [if i.hasSni then 'd' else 'i'] ++ twoDigits ciphers.length ++ twoDigits allExts.length ++
    alpnCode i.alpn
  let b := ja4HashList (sortTexts (ciphers.map hex4))
  let sortedExts := sortTexts (hashedExts.map hex4)
  let sigs := i.sigAlgs.map hex4
  let cInput := if sigs = [] then Text.join [','] sortedExts
    else Text.join [','] sortedExts ++ ['_'] ++ Text.join [','] sigs
  let c := if sortedExts = [] ∧ sigs = [] then zeroes12 else sha256Trunc12 cInput
  a ++ ['_'] ++ b ++ ['_'] ++ c

/-- JA4S, the server-side counterpart.  Server extensions keep transmitted order. -/
def ja4s (version : UInt16) (isQuic : Bool) (cipher : UInt16) (extensions : List UInt16)
    (alpn : Option Text) : Text :=
  let exts := extensions.filter (!isGrease ·)
  let a := [if isQuic then 'q' else 't'] ++ ja4Version version ++ twoDigits exts.length ++
    alpnCode alpn
  a ++ ['_'] ++ hex4 cipher ++ ['_'] ++ ja4HashList (exts.map hex4)

/-! ### HASSH and Community ID -/

/-- HASSH and HASSHServer: MD5 over the SSH algorithm negotiation lists. -/
def hassh (kex enc mac comp : Text) : Text := md5Hex (Text.join [';'] [kex, enc, mac, comp])

def hasPorts (proto : UInt8) : Bool := proto == 6 || proto == 17 || proto == 132 || proto == 136

/-- Whether the endpoints already stand in the order of the hash: by address, then by port. -/
def isOrdered (src dst : IpAddr) (srcPort dstPort : UInt16) : Bool :=
  if src.rank < dst.rank then true
  else if dst.rank < src.rank then false
  else srcPort ≤ dstPort

/-- The two octets of a port, in network order. -/
def beBytes16 (v : UInt16) : Bytes := [UInt8.ofNat (v.toNat / 256), UInt8.ofNat v.toNat]

/-- The bytes that the Community ID is a digest of. -/
def communityIdInput (src dst : IpAddr) (srcPort dstPort : UInt16) (proto : UInt8)
    (seed : UInt16) : Bytes :=
  let ordered := isOrdered src dst srcPort dstPort
  let a := if ordered then (src, srcPort) else (dst, dstPort)
  let b := if ordered then (dst, dstPort) else (src, srcPort)
  beBytes16 seed ++ a.1.octets ++ b.1.octets ++ [proto, 0] ++
    if hasPorts proto then beBytes16 a.2 ++ beBytes16 b.2 else []

/-- Community ID v1, the cross-tool flow identifier. -/
def communityId (src dst : IpAddr) (srcPort dstPort : UInt16) (proto : UInt8) (seed : UInt16) :
    Text :=
  "1:".toList ++
    Hashes.base64 (Hashes.sha1 (communityIdInput src dst srcPort dstPort proto seed))

end Digests

end PcapRacer
