/-
**SSH**: the version banner and the KEXINIT algorithm negotiation, plus HASSH.

Main definitions:

* `banner` — the bare line sent before binary packets begin;
* `nameLists`, `binary` — a binary packet and the name-lists of a KEXINIT;
* `parse` — the dissector.
-/

import PcapRacer.Dissect
import PcapRacer.Fingerprint

set_option relaxedAutoImplicit false
set_option autoImplicit false

namespace PcapRacer

namespace AppSsh

open Sink (layer)

abbrev M := Dissect (Sink SshCols)

def looksLikeSsh (d : Bytes) : Bool := (Text.ascii "SSH-").isPrefixOf d

def msgKexinit : UInt8 := 20

/-- The end of a line. -/
def isEol (b : UInt8) : Bool := b == 13 || b == 10

/-- Length-prefixed name-lists, at most `count`; the first one that is cut short ends the walk. -/
def nameLists : ℕ → Cur → List Text
  | 0, _ => []
  | count + 1, c =>
      match c.be32 with
      | .error _ => []
      | .ok (len, c) =>
          match c.take len.toNat with
          | .error _ => []
          | .ok (v, c) => Text.lossy v :: nameLists count c

variable [Hashes]

/-- What a KEXINIT with at least six name-lists says.  HASSH uses the client's lists, HASSHServer
the server's; which one applies depends on who sent the message. -/
def kexinit (lists : List Text) (isServer : Bool) : M Unit := do
  let list (i : ℕ) : Text := lists[i]?.getD []
  let compC2s := list (min 6 (lists.length - 1))
  let kex ← cap (list 0) 1024
  col fun c => { c with sshKexAlgs := some kex }
  let hostKey ← cap (list 1) 512
  col fun c => { c with sshHostKeyAlgs := some hostKey }
  let encC2s ← cap (list 2) 512
  col fun c => { c with sshEncAlgsC2s := some encC2s }
  let encS2c ← cap (list 3) 512
  col fun c => { c with sshEncAlgsS2c := some encS2c }
  let macC2s ← cap (list 4) 512
  col fun c => { c with sshMacAlgsC2s := some macC2s }
  let comp ← cap compC2s 256
  col fun c => { c with sshCompAlgsC2s := some comp }
  if isServer then
    col fun c => { c with hasshServer := some (hassh (list 0) (list 3) (list 5) (list 7)) }
  else
    col fun c => { c with hassh := some (hassh (list 0) (list 2) (list 4) compC2s) }

def binary (payload : Bytes) (isServer : Bool) : M Unit := do
  if payload.length < 6 then
    return
  let (packetLen, c) ← (Cur.new payload).be32
  let (paddingLen, c) ← c.u8
  if packetLen.toNat < paddingLen.toNat + 2 then
    return
  let (msgType, c) ← c.u8
  col fun s => { s with sshMsgType := some msgType }
  if msgType ≠ msgKexinit then
    return
  -- the cookie
  let c ← c.skip 16
  let lists := nameLists 10 c
  if lists.length < 6 then
    return
  kexinit lists isServer

def parse (payload : Bytes) (isServer : Bool) : M Unit := do
  layer .ssh
  if looksLikeSsh payload then
    let lineEnd := (payload.findIdx? isEol).getD (min payload.length 255)
    let parts := (Text.lossy (payload.take lineEnd)).splitn '-' 3
    col fun c => { c with sshProtocolVersion := parts[1]? }
    let software ← parts[2]?.mapM fun s => cap s 256
    col fun c => { c with sshSoftware := software }
    -- a banner may be followed by the first binary packet in the same segment
    if payload.length ≤ lineEnd + 1 then
      return
    binary ((payload.drop lineEnd).dropWhile isEol) isServer
  else
    binary payload isServer

end AppSsh

end PcapRacer
