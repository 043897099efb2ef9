/-
**DNS, and its mDNS and LLMNR variants.**

Main definitions:

* `readName` — decode a possibly compressed name;
* `Answers`, `answerRecord`, `recordLoop` — what the resource records say;
* `questionLoop`, `parse`, `parseTcp` — the dissectors.
-/

import PcapRacer.Address
import PcapRacer.Dissect

set_option relaxedAutoImplicit false
set_option autoImplicit false

namespace PcapRacer

namespace AppDns

open Sink (layer)

abbrev M := Dissect (Sink DnsCols)

def qtypeName (t : UInt16) : Text :=
  match t.toNat with
  | 1 => "A".toList
  | 2 => "NS".toList
  | 5 => "CNAME".toList
  | 6 => "SOA".toList
  | 12 => "PTR".toList
  | 13 => "HINFO".toList
  | 15 => "MX".toList
  | 16 => "TXT".toList
  | 17 => "RP".toList
  | 24 => "SIG".toList
  | 25 => "KEY".toList
  | 28 => "AAAA".toList
  | 29 => "LOC".toList
  | 33 => "SRV".toList
  | 35 => "NAPTR".toList
  | 39 => "DNAME".toList
  | 41 => "OPT".toList
  | 43 => "DS".toList
  | 46 => "RRSIG".toList
  | 47 => "NSEC".toList
  | 48 => "DNSKEY".toList
  | 50 => "NSEC3".toList
  | 51 => "NSEC3PARAM".toList
  | 52 => "TLSA".toList
  | 59 => "CDS".toList
  | 60 => "CDNSKEY".toList
  | 64 => "SVCB".toList
  | 65 => "HTTPS".toList
  | 99 => "SPF".toList
  | 251 => "IXFR".toList
  | 252 => "AXFR".toList
  | 255 => "ANY".toList
  | 257 => "CAA".toList
  | _ => "OTHER".toList

def rcodeName (r : UInt8) : Text :=
  match r.toNat with
  | 0 => "NOERROR".toList
  | 1 => "FORMERR".toList
  | 2 => "SERVFAIL".toList
  | 3 => "NXDOMAIN".toList
  | 4 => "NOTIMP".toList
  | 5 => "REFUSED".toList
  | 6 => "YXDOMAIN".toList
  | 7 => "YXRRSET".toList
  | 8 => "NXRRSET".toList
  | 9 => "NOTAUTH".toList
  | 10 => "NOTZONE".toList
  | _ => "OTHER".toList

/-! ### Names -/

/-- Label bytes are arbitrary octets; render them printable. -/
def labelText (b : Bytes) : Text :=
  b.map fun x => if isPrintable x then Char.ofNat x.toNat else '?'

/-- Decode from `pos`, with `guard` rounds left.  `out` is the name so far, `endPos` the offset past
the name in the original record once a pointer has been followed, `jumps` the number of pointers
followed. -/
def nameLoop (msg : Bytes) : ℕ → ℕ → Text → Option ℕ → ℕ → Except DissectError (Text × ℕ)
  | 0, _, _, _, _ => .error .malformed
  | guard + 1, pos, out, endPos, jumps =>
      match msg[pos]? with
      | none => .error .truncated
      | some len =>
          if len = 0 then .ok (out, endPos.getD (pos + 1))
          else if len &&& 0xc0 = 0xc0 then
            -- a pointer: the low 14 bits are an offset from the start of the message
            match msg[pos + 1]? with
            | none => .error .truncated
            | some low =>
                let target := (len &&& 0x3f).toNat * 256 + low.toNat
                if 16 < jumps + 1 ∨ msg.length ≤ target then .error .malformed
                else nameLoop msg guard target out (endPos.or (some (pos + 2))) (jumps + 1)
          else if len &&& 0xc0 ≠ 0 then .error .malformed
          else
            let stop := pos + 1 + len.toNat
            if msg.length < stop then .error .truncated
            else
              let label := labelText ((msg.drop (pos + 1)).take len.toNat)
              let out := (if out = [] then [] else out ++ ['.']) ++ label
              if 512 < out.length then .error .malformed
              else nameLoop msg guard stop out endPos jumps

/-- Decode a (possibly compressed) name starting at `pos` within `msg`.  Returns the name and the
offset just past the name in the original record. -/
def readName (msg : Bytes) (pos : ℕ) : Except DissectError (Text × ℕ) :=
  nameLoop msg 128 pos [] none 0

/-! ### Resource records -/

/-- What the resource records said so far. -/
structure Answers where
  answers : List Text := []
  ips : List Text := []
  cnames : List Text := []
  nsNames : List Text := []
  mxNames : List Text := []
  txts : List Text := []
  ttlMin : Option UInt32 := none

/-- The sixteen-bit word at an offset. -/
def u16At (msg : Bytes) (pos : ℕ) : UInt16 := UInt16.ofNat (beNat ((msg.drop pos).take 2))

/-- The strings of TXT data: each with a length prefix. -/
def txtStrings : ℕ → Cur → List Text
  | 0, _ => []
  | fuel + 1, c =>
      match c.u8 with
      | .error _ => []
      | .ok (l, c) =>
          match c.take l.toNat with
          | .error _ => []
          | .ok (s, c) => Text.lossy s :: txtStrings fuel c

/-- One line of the answer column. -/
def answerText (name : Text) (kind : String) (target : Text) : Text :=
  name ++ [' '] ++ kind.toList ++ [' '] ++ target

/-- Record one resource record, whose data of length `rdlen` starts at `pos`. -/
def answerRecord (msg : Bytes) (a : Answers) (name : Text) (rtype : UInt16) (pos rdlen : ℕ) :
    Answers :=
  let rdata := (msg.drop pos).take rdlen
  match rtype.toNat with
  | 1 =>
      if rdlen = 4 then
        let ip := IpAddr.textV4 (UInt32.ofNat (beNat rdata))
        { a with answers := a.answers ++ [answerText name "A" ip], ips := a.ips ++ [ip] }
      else a
  | 28 =>
      if rdlen = 16 then
        let ip := IpAddr.textV6 (BitVec.ofNat 128 (beNat rdata))
        { a with answers := a.answers ++ [answerText name "AAAA" ip], ips := a.ips ++ [ip] }
      else a
  | 5 =>
      match readName msg pos with
      | .ok (target, _) =>
          { a with answers := a.answers ++ [answerText name "CNAME" target],
                   cnames := a.cnames ++ [target] }
      | .error _ => a
  | 2 =>
      match readName msg pos with
      | .ok (target, _) =>
          { a with answers := a.answers ++ [answerText name "NS" target],
                   nsNames := a.nsNames ++ [target] }
      | .error _ => a
  | 12 =>
      match readName msg pos with
      | .ok (target, _) => { a with answers := a.answers ++ [answerText name "PTR" target] }
      | .error _ => a
  | 15 =>
      if 2 < rdlen then
        match readName msg (pos + 2) with
        | .ok (target, _) =>
            { a with answers := a.answers ++ [answerText name "MX" target],
                     mxNames := a.mxNames ++ [target] }
        | .error _ => a
      else a
  | 16 => { a with txts := a.txts ++ txtStrings rdata.length (Cur.new rdata) }
  | 33 =>
      if 6 < rdlen then
        match readName msg (pos + 6) with
        | .ok (target, _) => { a with answers := a.answers ++ [answerText name "SRV" target] }
        | .error _ => a
      else a
  | _ => a

/-- The smaller TTL.  OPT is metadata, not an answer; its "TTL" is flags. -/
def ttlStep (rtype : UInt16) (ttl : UInt32) (ttlMin : Option UInt32) : Option UInt32 :=
  if rtype = 41 then ttlMin
  else
    match ttlMin with
    | none => some ttl
    | some m => some (if m ≤ ttl then m else ttl)

/-- Walk the resource records, at most `count` of them. -/
def recordLoop (msg : Bytes) : ℕ → ℕ → Answers → Answers
  | 0, _, a => a
  | count + 1, pos, a =>
      match readName msg pos with
      | .error _ => a
      | .ok (name, pos) =>
          if msg.length < pos + 10 then a
          else
            let rtype := u16At msg pos
            let ttl := UInt32.ofNat (beNat ((msg.drop (pos + 4)).take 4))
            let rdlen := (u16At msg (pos + 8)).toNat
            let pos := pos + 10
            if msg.length < pos + rdlen then a
            else
              let a := { a with ttlMin := ttlStep rtype ttl a.ttlMin }
              recordLoop msg count (pos + rdlen) (answerRecord msg a name rtype pos rdlen)

/-! ### Messages -/

/-- Walk the questions, `count` of them.  The first one fills the scalar columns.  Returns the
offset past the last one. -/
def questionLoop (msg : Bytes) : ℕ → Bool → ℕ → M ℕ
  | 0, _, pos => pure pos
  | count + 1, first, pos => do
      let (name, pos) ← readName msg pos
      if msg.length < pos + 4 then
        giveUp .truncated
      let qtype := u16At msg pos
      let qclass := u16At msg (pos + 2)
      if first then
        col fun c => { c with dnsQnameLen := some (UInt32.ofNat name.utf8Len),
                              dnsQnameEntropy := some (entropy name.encode),
                              dnsTld := some (Text.lastPart '.' name),
                              dnsQname := some name,
                              dnsQtype := some qtype,
                              dnsQtypeName := some (qtypeName qtype),
                              dnsQclass := some qclass }
      questionLoop msg count false (pos + 4)

/-- A list column: null when empty, joined and capped otherwise. -/
def listColumn (items : List Text) (sep : String) (max : ℕ) (set : Text → DnsCols → DnsCols) :
    M Unit := do
  if items ≠ [] then
    let v ← cap (Text.join sep.toList items) max
    col (set v)

def parse (msg : Bytes) (isMdns isLlmnr overTcp : Bool) : M Unit := do
  layer (if isMdns then .mdns else if isLlmnr then .llmnr else .dns)
  col fun c => { c with dnsIsMdns := some isMdns, dnsIsLlmnr := some isLlmnr,
                        dnsOverTcp := some overTcp }
  let (txid, c) ← (Cur.new msg).be16
  let (flags, c) ← c.be16
  let (qdcount, c) ← c.be16
  let (ancount, c) ← c.be16
  let (nscount, c) ← c.be16
  let (arcount, _) ← c.be16
  let rcode := (flags &&& 0xf).toUInt8
  col fun c => { c with dnsTransactionId := some txid,
                        dnsFlags := some flags,
                        dnsIsResponse := some (flags &&& 0x8000 ≠ 0),
                        dnsOpcode := some ((flags >>> 11) &&& 0xf).toUInt8,
                        dnsRcode := some rcode,
                        dnsRcodeName := some (rcodeName rcode),
                        dnsFlagAa := some (flags &&& 0x0400 ≠ 0),
                        dnsFlagTc := some (flags &&& 0x0200 ≠ 0),
                        dnsFlagRd := some (flags &&& 0x0100 ≠ 0),
                        dnsFlagRa := some (flags &&& 0x0080 ≠ 0),
                        dnsQdcount := some qdcount,
                        dnsAncount := some ancount,
                        dnsNscount := some nscount,
                        dnsArcount := some arcount }
  let pos ← questionLoop msg (min qdcount.toNat 8) true 12
  let total := min (ancount.toNat + nscount.toNat + arcount.toNat) 64
  let a := recordLoop msg total pos {}
  listColumn a.answers "; " 2048 fun v c => { c with dnsAnswers := some v }
  listColumn a.ips "," 1024 fun v c => { c with dnsAnswerIps := some v }
  listColumn a.cnames "," 1024 fun v c => { c with dnsCnames := some v }
  listColumn a.nsNames "," 512 fun v c => { c with dnsNsNames := some v }
  listColumn a.mxNames "," 512 fun v c => { c with dnsMxNames := some v }
  listColumn a.txts " | " 2048 fun v c => { c with dnsTxtData := some v }
  col fun c => { c with dnsTtlMin := a.ttlMin }

/-- DNS over TCP is preceded by a two-byte length. -/
def parseTcp (payload : Bytes) : M Unit := do
  let (len, c) ← (Cur.new payload).be16
  let (msg, _) ← c.take (min len.toNat c.remaining)
  parse msg false false true

end AppDns

end PcapRacer
