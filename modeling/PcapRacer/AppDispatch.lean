/-
**Application-layer dispatch.**

A payload is matched against the registered port first, then, if no port matched or the matched
dissector rejected the bytes, against a set of content signatures.

Main definitions:

* `byPort` — the registered protocol of a port;
* `sniff` — content-based identification;
* `tryDissector`, `identify` — one attempt, and the three attempts in their order.

Main results:

* `identify_of_byPort` — a registered port whose dissector accepts the payload decides.
-/

import PcapRacer.AppDhcp
import PcapRacer.AppDirectory
import PcapRacer.AppDns
import PcapRacer.AppHttp
import PcapRacer.AppIcs
import PcapRacer.AppMisc
import PcapRacer.AppQuic
import PcapRacer.AppSip
import PcapRacer.AppSmb
import PcapRacer.AppSsh
import PcapRacer.AppText
import PcapRacer.AppTls

set_option relaxedAutoImplicit false
set_option autoImplicit false

namespace PcapRacer

namespace App

abbrev M := Dissect (Sink AppCols)

/-! ### Each dissector on its own columns -/

/-- Run a dissector on one group of columns. -/
def part {C : Type} (get : AppCols → C) (set : C → AppCols → AppCols)
    (d : Dissect (Sink C) Unit) : M Unit :=
  zoom (fun s => { stack := s.stack, cols := get s.cols })
    (fun t s => { stack := t.stack, cols := set t.cols s.cols }) d

def dns (d : AppDns.M Unit) : M Unit := part (·.dns) (fun c a => { a with dns := c }) d

def http (d : AppHttp.M Unit) : M Unit := part (·.http) (fun c a => { a with http := c }) d

def tls (d : AppTls.M Unit) : M Unit := part (·.tls) (fun c a => { a with tls := c }) d

def quic (d : AppQuic.M Unit) : M Unit := part (·.quic) (fun c a => { a with quic := c }) d

def dhcp (d : AppDhcp.M Unit) : M Unit := part (·.dhcp) (fun c a => { a with dhcp := c }) d

def smb (d : AppSmb.M Unit) : M Unit := part (·.smb) (fun c a => { a with smb := c }) d

def ssh (d : AppSsh.M Unit) : M Unit := part (·.ssh) (fun c a => { a with ssh := c }) d

def text (d : AppText.M Unit) : M Unit := part (·.text) (fun c a => { a with text := c }) d

def directory (d : AppDirectory.M Unit) : M Unit :=
  part (·.directory) (fun c a => { a with directory := c }) d

def misc (d : AppMisc.M Unit) : M Unit := part (·.misc) (fun c a => { a with misc := c }) d

def sip (d : AppSip.M Unit) : M Unit := part (·.sip) (fun c a => { a with sip := c }) d

def ics (d : AppIcs.M Unit) : M Unit := part (·.ics) (fun c a => { a with ics := c }) d

/-! ### By port -/

/-- Port 139 is SMB over a NetBIOS session: the session type is recorded, then the SMB dissector
takes the message if one is present. -/
def netbiosSession (payload : Bytes) : M Unit := do
  let _ ← attempt (misc (AppMisc.nbss payload))
  smb (AppSmb.parse payload)

def httpPort (payload : Bytes) : M Unit :=
  if AppHttp.looksLikeHttp2 payload then http (AppHttp.parseH2 payload)
  else http (AppHttp.parse payload)

section Dispatch

variable [Hashes]

/-- The registered TCP protocol of a port; `server` tells which side sent the bytes. -/
def byTcpPort (payload : Bytes) (port : UInt16) (server : Bool) : Option (M Unit) :=
  match port.toNat with
  | 20 | 21 => some (text (AppText.ftp payload))
  | 22 => some (ssh (AppSsh.parse payload server))
  | 23 => some (text (AppText.telnet payload))
  | 25 | 587 | 465 => some (text (AppText.smtp payload))
  | 53 => some (dns (AppDns.parseTcp payload))
  | 5355 => some (dns (AppDns.parse payload false true false))
  | 80 | 8080 | 8000 | 8888 | 3128 => some (httpPort payload)
  | 88 => some (directory (AppDirectory.kerberos payload true))
  | 102 => some (ics (AppIcs.s7comm payload))
  | 110 => some (text (AppText.pop3 payload))
  | 139 => some (netbiosSession payload)
  | 143 | 993 => some (text (AppText.imap payload))
  | 389 | 3268 => some (directory (AppDirectory.ldap payload))
  | 443 | 8443 => some (tls (AppTls.parse payload false))
  | 445 => some (smb (AppSmb.parse payload))
  | 502 => some (ics (AppIcs.modbus payload))
  | 1883 | 8883 => some (misc (AppMisc.mqtt payload))
  | 2404 => some (ics (AppIcs.iec104 payload))
  | 3389 => some (misc (AppMisc.rdp payload))
  | 5060 | 5061 => some (sip (AppSip.parse payload))
  | 5900 | 5901 => some (text (AppText.vnc payload))
  | 6660 | 6661 | 6662 | 6663 | 6664 | 6665 | 6666 | 6667 | 6668 | 6669 | 6697 =>
      some (text (AppText.irc payload))
  | 20000 => some (ics (AppIcs.dnp3 payload))
  | 44818 => some (ics (AppIcs.enip payload))
  | _ => none

/-- The registered UDP protocol of a port. -/
def byUdpPort (payload : Bytes) (port : UInt16) : Option (M Unit) :=
  match port.toNat with
  | 53 => some (dns (AppDns.parse payload false false false))
  | 5353 => some (dns (AppDns.parse payload true false false))
  | 5355 => some (dns (AppDns.parse payload false true false))
  | 67 | 68 => some (dhcp (AppDhcp.parse payload))
  | 546 | 547 => some (dhcp (AppDhcp.parseV6 payload))
  | 69 => some (misc (AppMisc.tftp payload))
  | 88 => some (directory (AppDirectory.kerberos payload false))
  | 123 => some (misc (AppMisc.ntp payload))
  | 137 => some (misc (AppMisc.nbns payload))
  | 161 | 162 => some (misc (AppMisc.snmp payload))
  | 993 => some (tls (AppTls.parse payload false))
  | 443 => some (quic (AppQuic.parse payload))
  | 500 | 4500 => some (misc (AppMisc.ike payload))
  | 514 => some (text (AppText.syslog payload))
  | 1812 | 1813 | 1645 | 1646 => some (misc (AppMisc.radius payload))
  | 5060 | 5061 => some (sip (AppSip.parse payload))
  | 47808 => some (ics (AppIcs.bacnet payload))
  | 51820 => some (misc (AppMisc.wireguard payload))
  | _ => none

def byPort (payload : Bytes) (port : UInt16) (isTcp portIsSource : Bool) : Option (M Unit) :=
  if isTcp then byTcpPort payload port portIsSource else byUdpPort payload port

/-! ### By content -/

/-- Content-based identification, tried when the ports say nothing useful. -/
def sniff (payload : Bytes) (isTcp : Bool) : Option (M Unit) :=
  if payload = [] then none
  else if AppHttp.looksLikeHttp2 payload then some (http (AppHttp.parseH2 payload))
  else if AppHttp.looksLikeHttp payload then some (http (AppHttp.parse payload))
  else if AppTls.looksLikeTls payload then some (tls (AppTls.parse payload false))
  else if AppTls.looksLikeDtls payload then some (tls (AppTls.parse payload true))
  else if AppSsh.looksLikeSsh payload then some (ssh (AppSsh.parse payload false))
  else if AppSip.looksLikeSip payload then some (sip (AppSip.parse payload))
  else if AppSmb.looksLikeSmb payload then some (smb (AppSmb.parse payload))
  else if AppText.looksLikeVnc payload then some (text (AppText.vnc payload))
  else if AppIcs.looksLikeDnp3 payload then some (ics (AppIcs.dnp3 payload))
  else if isTcp = false ∧ AppQuic.looksLikeQuic payload then some (quic (AppQuic.parse payload))
  else if isTcp = false ∧ AppMisc.looksLikeRtcp payload then some (misc (AppMisc.rtcp payload))
  else if isTcp = false ∧ AppMisc.looksLikeRtp payload then some (misc (AppMisc.rtp payload))
  else none

/-! ### Three attempts -/

/-- One attempt: whether it settled the matter, and what it wrote.  The layer names of a dissector
that gave up come off the stack; its columns stay. -/
def tryDissector (d : Option (M Unit)) (s : Sink AppCols) :
    Except Panic (Bool × Sink AppCols) :=
  match d with
  | none => .ok (false, s)
  | some d =>
      match d.exec s with
      | .error p => .error p
      | .ok (.ok _, s') => .ok (true, s')
      | .ok (.error _, s') => .ok (false, { s' with stack := s'.stack.take s.stack.length })

/-- The next attempt, unless an earlier one settled the matter. -/
def orElse (r : Except Panic (Bool × Sink AppCols)) (d : Option (M Unit)) :
    Except Panic (Bool × Sink AppCols) :=
  match r with
  | .error p => .error p
  | .ok (true, s) => .ok (true, s)
  | .ok (false, s) => tryDissector d s

/-- Identify and dissect the application payload.  The destination port names the service for a
request, the source port for a response. -/
def identify (payload : Bytes) (sport dport : UInt16) (isTcp : Bool) (s : Sink AppCols) :
    Except Panic (Sink AppCols) :=
  let r := tryDissector (byPort payload dport isTcp false) s
  let r := orElse r (if sport = dport then none else byPort payload sport isTcp true)
  (orElse r (sniff payload isTcp)).map Prod.snd

/-- The dissector of the destination port settles the matter, unless it gives up. -/
theorem identify_of_byPort {payload : Bytes} {sport dport : UInt16} {isTcp : Bool}
    {s s' : Sink AppCols} {d : M Unit} (hd : byPort payload dport isTcp false = some d)
    (h : d.exec s = .ok (.ok (), s')) : identify payload sport dport isTcp s = .ok s' := by
  have htry : tryDissector (byPort payload dport isTcp false) s = .ok (true, s') := by
    rw [hd, tryDissector, h]
  unfold identify
  dsimp only
  rw [htry]
  rfl

end Dispatch

end App

end PcapRacer
