/-
**QUIC long-header packets.**

Initial packet payloads are encrypted under a key derived from the connection identifier.  What is
available in cleartext, the version, the packet type and both connection identifiers, is extracted
here; `quicSni` stays null.

Main definitions:

* `looksLikeQuic` — recognising a packet without a port;
* `connectionId`, `parse` — the dissector.
-/

import PcapRacer.Dissect

set_option relaxedAutoImplicit false
set_option autoImplicit false

namespace PcapRacer

namespace AppQuic

open Sink (layer)

abbrev M := Dissect (Sink QuicCols)

/-- Long header form and a version we recognise. -/
def looksLikeQuic (d : Bytes) : Bool :=
  match d with
  | b0 :: b1 :: b2 :: b3 :: b4 :: _ =>
      let v := UInt32.ofNat (beNat [b1, b2, b3, b4])
      b0 &&& 0x80 != 0 &&
        (v == 0 || v == 1 || v == 0x6b3343cf || v &&& 0xffffff00 == 0xff000000)
  | _ => false

/-- A length-prefixed connection identifier of at most twenty bytes. -/
def connectionId (c : Cur) : Except DissectError (Text × Cur) := do
  let (len, c) ← c.u8
  if 20 < len then throw .malformed
  let (id, c) ← c.take len.toNat
  pure (hexBytes id, c)

def parse (payload : Bytes) : M Unit := do
  layer .quic
  let (first, c) ← (Cur.new payload).u8
  col fun s => { s with quicHeaderForm := some (first >>> 7) }
  -- short-header packets carry nothing we can locate without connection state
  if first &&& 0x80 = 0 then
    return
  let (version, c) ← c.be32
  col fun s => { s with quicVersion := some version }
  -- version negotiation uses version 0 and has no packet type
  if version ≠ 0 then
    col fun s => { s with quicPacketType := some ((first >>> 4) &&& 0x03) }
  let (dcid, c) ← connectionId c
  col fun s => { s with quicDcid := some dcid }
  let (scid, _) ← connectionId c
  col fun s => { s with quicScid := some scid }

end AppQuic

end PcapRacer
