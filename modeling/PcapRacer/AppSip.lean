/-
**SIP**: the request or response line plus the headers that identify the call and its endpoints.

Main definitions:

* `looksLikeSip` — recognising a message without a port;
* `headerLoop`, `parse` — the dissector.
-/

import PcapRacer.Dissect

set_option relaxedAutoImplicit false
set_option autoImplicit false

namespace PcapRacer

namespace AppSip

open Sink (layer)

abbrev M := Dissect (Sink SipCols)

def methods : List Text :=
  ["INVITE", "ACK", "BYE", "CANCEL", "OPTIONS", "REGISTER", "PRACK", "SUBSCRIBE", "NOTIFY",
    "PUBLISH", "INFO", "REFER", "MESSAGE", "UPDATE"].map String.toList

def looksLikeSip (d : Bytes) : Bool :=
  (Text.ascii "SIP/2.0").isPrefixOf d ||
    let head := Text.lossy (d.take 12)
    methods.any fun m => (m ++ [' ']).isPrefixOf head

/-- Record one header.  Single-letter compact forms are common in the wild. -/
def header (name v : Text) : M Unit := do
  if name = "from".toList ∨ name = "f".toList then
    col fun c => { c with sipFrom := some v }
  else if name = "to".toList ∨ name = "t".toList then
    col fun c => { c with sipTo := some v }
  else if name = "call-id".toList ∨ name = "i".toList then
    col fun c => { c with sipCallId := some v }
  else if name = "user-agent".toList then
    col fun c => { c with sipUserAgent := some v }

/-- The headers, up to the empty line. -/
def headerLoop : List Text → M Unit
  | [] => pure ()
  | line :: lines =>
      if line = [] then pure ()
      else
        match Text.splitOnce ':' line with
        | none => headerLoop lines
        | some (n, v) => do
            let value ← cap v.trim 512
            header n.trim.toAsciiLowercase value
            headerLoop lines

def parse (payload : Bytes) : M Unit := do
  layer .sip
  let lines := (Text.lossy (payload.take 8192)).splitCrlf
  let first := lines.headD []
  let parts := Text.splitn ' ' 3 first
  if "SIP/2.0".toList.isPrefixOf first then
    let code := parts[1]?.bind fun c => (Text.parseUnsigned (2 ^ 16) c).map UInt16.ofNat
    col fun c => { c with sipStatusCode := code }
  else
    let method := parts.headD []
    if method ∉ methods then
      giveUp .malformed
    col fun c => { c with sipMethod := some method }
    let uri ← parts[1]?.mapM fun s => cap s 512
    col fun c => { c with sipUri := uri }
  headerLoop lines.tail

end AppSip

end PcapRacer
