/-
**Industrial control protocols**: Modbus/TCP, DNP3, S7comm, EtherNet/IP with CIP, IEC 60870-5-104
and BACnet.

Main definitions:

* `modbus`, `dnp3`, `s7comm`, `enip`, `iec104`, `bacnet` — the dissectors;
* `looksLikeDnp3` — recognising DNP3 without a port.
-/

import PcapRacer.Dissect

set_option relaxedAutoImplicit false
set_option autoImplicit false

namespace PcapRacer

namespace AppIcs

open Sink (layer)

abbrev M := Dissect (Sink IcsCols)

/-! ### Modbus/TCP -/

def modbusFunctionName (f : UInt8) : Text :=
  match f.toNat with
  | 1 => "read-coils".toList
  | 2 => "read-discrete-inputs".toList
  | 3 => "read-holding-registers".toList
  | 4 => "read-input-registers".toList
  | 5 => "write-single-coil".toList
  | 6 => "write-single-register".toList
  | 7 => "read-exception-status".toList
  | 8 => "diagnostics".toList
  | 15 => "write-multiple-coils".toList
  | 16 => "write-multiple-registers".toList
  | 17 => "report-server-id".toList
  | 20 => "read-file-record".toList
  | 21 => "write-file-record".toList
  | 22 => "mask-write-register".toList
  | 23 => "read-write-multiple-registers".toList
  | 43 => "encapsulated-interface-transport".toList
  | _ => "other".toList

/-- The value of a read that may fail, and the cursor after it; a failed read does not move. -/
def optional {α : Type} (c : Cur) (read : Cur → Except DissectError (α × Cur)) : Option α × Cur :=
  match read c with
  | .ok (a, c) => (some a, c)
  | .error _ => (none, c)

def modbus (payload : Bytes) : M Unit := do
  layer .modbus
  let (txid, c) ← (Cur.new payload).be16
  let (protoId, c) ← c.be16
  -- anything but zero is a different protocol that happens to be on port 502
  if protoId ≠ 0 then
    giveUp .malformed
  let (_, c) ← c.be16
  let (unit, c) ← c.u8
  let (func, c) ← c.u8
  col fun s => { s with modbusTransactionId := some txid, modbusProtocolId := some protoId,
                        modbusUnitId := some unit }
  -- the high bit of the function code marks an exception response
  if func &&& 0x80 ≠ 0 then
    let code := func &&& 0x7f
    col fun s => { s with modbusFunctionCode := some code,
                          modbusFunctionName := some (modbusFunctionName code ++
                            "-exception".toList),
                          modbusExceptionCode := (optional c Cur.u8).1 }
    return
  col fun s => { s with modbusFunctionCode := some func,
                        modbusFunctionName := some (modbusFunctionName func) }
  -- read and write requests open with a starting address and a quantity
  if (1 ≤ func ∧ func ≤ 6) ∨ func = 15 ∨ func = 16 ∨ func = 23 then
    let (reference, c) := optional c Cur.be16
    let (quantity, _) := optional c Cur.be16
    col fun s => { s with modbusReferenceNumber := reference, modbusWordCount := quantity }

/-! ### DNP3 -/

def looksLikeDnp3 (d : Bytes) : Bool := 10 ≤ d.length && [0x05, 0x64].isPrefixOf d

def dnp3FunctionName (f : UInt8) : Text :=
  match f.toNat with
  | 0 => "confirm".toList
  | 1 => "read".toList
  | 2 => "write".toList
  | 3 => "select".toList
  | 4 => "operate".toList
  | 5 => "direct-operate".toList
  | 13 => "cold-restart".toList
  | 14 => "warm-restart".toList
  | 129 => "response".toList
  | 130 => "unsolicited-response".toList
  | _ => "other".toList

def dnp3 (payload : Bytes) : M Unit := do
  layer .dnp3
  let (sync, c) ← (Cur.new payload).be16
  if sync ≠ 0x0564 then
    giveUp .malformed
  let (_, c) ← c.u8
  let (control, c) ← c.u8
  let (dest, c) ← c.le16
  let (src, c) ← c.le16
  col fun s => { s with dnp3Control := some control, dnp3Destination := some dest,
                        dnp3Source := some src }
  -- link-layer checksum
  let c ← c.skip 2
  -- transport and application headers; the function code identifies the operation
  if 3 ≤ c.remaining then
    let c ← c.skip 2
    let (func, _) ← c.u8
    col fun s => { s with dnp3FunctionCode := some func,
                          dnp3FunctionName := some (dnp3FunctionName func) }

/-! ### S7comm -/

def s7commFunctionName (f : UInt8) : Text :=
  match f.toNat with
  | 0x00 => "cpu-services".toList
  | 0x04 => "read-var".toList
  | 0x05 => "write-var".toList
  | 0x1a => "request-download".toList
  | 0x1b => "download-block".toList
  | 0x1c => "download-ended".toList
  | 0x1d => "start-upload".toList
  | 0x1e => "upload".toList
  | 0x1f => "end-upload".toList
  | 0x28 => "plc-control".toList
  | 0x29 => "plc-stop".toList
  | 0xf0 => "setup-communication".toList
  | _ => "other".toList

/-- S7 rides on COTP inside TPKT: skip the TPKT header and the COTP header, whose first byte is its
own length. -/
def pastCotp (c : Cur) : Except DissectError Cur := do
  let version ← c.peekU8
  if version = 3 then
    let c ← c.skip 4
    let (len, c) ← c.u8
    c.skip len.toNat
  else pure c

def s7comm (payload : Bytes) : M Unit := do
  layer .s7comm
  let c ← pastCotp (Cur.new payload)
  let (protocol, c) ← c.u8
  if protocol ≠ 0x32 then
    giveUp .malformed
  let (rosctr, c) ← c.u8
  col fun s => { s with s7commRosctr := some rosctr }
  -- redundancy identification
  let c ← c.skip 2
  let (pduRef, c) ← c.be16
  col fun s => { s with s7commPduRef := some pduRef }
  let (paramLen, c) ← c.be16
  let (_, c) ← c.be16
  -- an error class and code stand before the parameters of an acknowledgement
  let c ← if rosctr = 2 ∨ rosctr = 3 then (c.skip 2 : Except DissectError Cur) else pure c
  if 0 < paramLen then
    let (func, _) ← c.u8
    col fun s => { s with s7commFunction := some func,
                          s7commFunctionName := some (s7commFunctionName func) }

/-! ### EtherNet/IP and CIP -/

/-- The service and class of the first item that has them. -/
def cipItem (item : Bytes) : M Unit := do
  if (← cols).cipService.isNone then
    match item with
    | service :: _ :: rest =>
        col fun s => { s with cipService := some (service &&& 0x7f) }
        -- an 8-bit logical class segment is 0x20 followed by the class code
        match rest with
        | segment :: code :: _ =>
            if segment = 0x20 then
              col fun s => { s with cipClass := some code.toUInt16 }
        | _ => pure ()
    | _ => pure ()

/-- The items of a common packet format list. -/
def cipItems : ℕ → Cur → M Unit
  | 0, _ => pure ()
  | count + 1, c => do
      let (_, c) ← c.le16
      let (len, c) ← c.le16
      let (item, c) ← c.take (min len.toNat c.remaining)
      cipItem item
      cipItems count c

def enip (payload : Bytes) : M Unit := do
  layer .enip
  let (command, c) ← (Cur.new payload).le16
  let (_, c) ← c.le16
  let (session, c) ← c.le32
  col fun s => { s with enipCommand := some command, enipSessionHandle := some session }
  -- status, sender context, options
  let c ← c.skip (4 + 8 + 4)
  -- SendRRData and SendUnitData carry a CIP message
  if (command = 0x6f ∨ command = 0x70) ∧ 12 < c.remaining then
    let c ← c.skip 6
    let (itemCount, c) ← c.le16
    cipItems (min itemCount.toNat 4) c

/-! ### IEC 60870-5-104 -/

def iec104 (payload : Bytes) : M Unit := do
  layer .iec104
  let (start, c) ← (Cur.new payload).u8
  if start ≠ 0x68 then
    giveUp .malformed
  let (_, c) ← c.u8
  let (ctrl1, c) ← c.u8
  -- the other control fields
  let c ← c.skip 3
  -- only frames with the low bit of the first control octet clear carry data
  if ctrl1 &&& 0x01 ≠ 0 then
    return
  let (typeId, c) ← c.u8
  col fun s => { s with iec104TypeId := some typeId }
  let (_, c) ← c.u8
  let (cause, c) ← c.u8
  col fun s => { s with iec104Cause := some cause }
  let (_, c) ← c.u8
  let (asdu, _) ← c.le16
  col fun s => { s with iec104AsduAddress := some asdu }

/-! ### BACnet/IP -/

/-- Two bytes of network number, then a length-prefixed address. -/
def skipAddress (c : Cur) : Except DissectError Cur := do
  let c ← c.skip 2
  let (len, c) ← c.u8
  c.skip len.toNat

/-- Skip optional destination and source addressing before the application message. -/
def pastAddressing (control : UInt8) (c : Cur) : Except DissectError Cur := do
  let c ← if control &&& 0x20 ≠ 0 then skipAddress c else pure c
  let c ← if control &&& 0x08 ≠ 0 then skipAddress c else pure c
  if control &&& 0x20 ≠ 0 then c.skip 1 else pure c

def bacnet (payload : Bytes) : M Unit := do
  layer .bacnet
  let (bvlc, c) ← (Cur.new payload).u8
  if bvlc ≠ 0x81 then
    giveUp .malformed
  let (_, c) ← c.u8
  let (_, c) ← c.be16
  let (version, c) ← c.u8
  if version ≠ 1 then
    giveUp .malformed
  let (control, c) ← c.u8
  -- a network-layer message has nothing more to describe
  if control &&& 0x80 ≠ 0 then
    return
  let c ← pastAddressing control c
  let (apduType, c) ← c.u8
  let kind := apduType >>> 4
  col fun s => { s with bacnetType := some kind }
  -- confirmed requests carry a size byte and an invoke identifier before the service choice
  if kind = 0 then
    let c ← c.skip 1
    let c ← c.skip 1
    col fun s => { s with bacnetService := (optional c Cur.u8).1 }
  else if kind = 1 then
    col fun s => { s with bacnetService := (optional c Cur.u8).1 }

end AppIcs

end PcapRacer
