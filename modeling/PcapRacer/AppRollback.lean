/-
**What a failed attempt leaves behind.**

Application dispatch tries up to three dissectors on one payload.  When one of them gives up, its
layer names come off the stack; the columns it has written by then stay.  So a failed attempt
leaves no trace exactly as long as the dissector gives up before it writes: at one of the checks
that it opens with.

This module writes down, for every dissector, the checks that stand before its first column, and
compares dispatch with the dispatch that runs only the attempt that succeeds.

Main definitions:

* `Dissect.OpensWith` — the checks that a dissector makes before it writes;
* `App.openingByPort`, `App.openingByContent` — the opening checks of the registered dissectors
  and of the sniffed ones;
* `App.onlySuccess`, `dispatchOnly` — only the attempt that succeeds is run;
* `App.Unspoiled` — every attempt that is tried gives up at its opening checks or not at all.

Main results:

* `App.byPort_opensWith`, `App.sniff_opensWith` — a dissector whose opening checks fail writes no
  column;
* `dispatch_eq_dispatchOnly` — **as long as no attempt gives up past its opening checks, the
  failed attempts leave no trace**;
* `dispatch_leaves_trace` — a single byte on the NTP port leaves four columns.
-/

import PcapRacer.Walk

set_option relaxedAutoImplicit false
set_option autoImplicit false

namespace PcapRacer

/-! ### Opening checks -/

section OpensWith

variable {C τ : Type}

/-- The dissector makes these checks before it writes: where they fail, it gives up with the same
error, having pushed layer names only. -/
def Dissect.OpensWith (d : Dissect (Sink C) Unit) (checks : Except DissectError Unit) : Prop :=
  ∀ e, checks = .error e → ∀ s, ∃ ls, d.exec s = .ok (.error e, { s with stack := s.stack ++ ls })

/-- No checks. -/
theorem opensWith_none (d : Dissect (Sink C) Unit) : d.OpensWith (pure ()) := by
  intro e he
  cases he

/-- A layer name, and then the checks. -/
theorem opensWith_layer (l : Layer) {d : Unit → Dissect (Sink C) Unit}
    {checks : Except DissectError Unit} (h : (d ()).OpensWith checks) :
    (Sink.layer l >>= d).OpensWith checks := by
  intro e he s
  obtain ⟨ls, hls⟩ := h e he { s with stack := s.stack ++ [l] }
  refine ⟨l :: ls, ?_⟩
  rw [exec_bind, exec_layer]
  simpa using hls

/-- A read, and then the checks. -/
theorem opensWith_read {x : Except DissectError τ} {f : τ → Dissect (Sink C) Unit}
    {checks : τ → Except DissectError Unit} (h : ∀ a, (f a).OpensWith (checks a)) :
    ((liftM x : Dissect (Sink C) τ) >>= f).OpensWith (x >>= checks) := by
  intro e he s
  rw [exec_bind, exec_liftError]
  cases x with
  | error e' =>
      cases he
      exact ⟨[], by simp⟩
  | ok a => exact h a e he s

/-- A check at the very end. -/
theorem opensWith_end (e : DissectError) :
    (giveUp e : Dissect (Sink C) Unit).OpensWith (.error e) := by
  intro e' he s
  cases he
  exact ⟨[], by rw [exec_giveUp]; simp⟩

/-- The checks of the first part come first. -/
theorem opensWith_bind {d : Dissect (Sink C) Unit} (f : Unit → Dissect (Sink C) Unit)
    {checks : Except DissectError Unit} (h : d.OpensWith checks) : (d >>= f).OpensWith checks := by
  intro e he s
  obtain ⟨ls, hls⟩ := h e he s
  exact ⟨ls, by rw [exec_bind, hls]⟩

/-- A check by itself. -/
theorem opensWith_giveUp (e : DissectError) {f : Unit → Dissect (Sink C) Unit} :
    ((giveUp e : Dissect (Sink C) Unit) >>= f).OpensWith (.error e) :=
  opensWith_bind f (opensWith_end e)

theorem opensWith_ite {p : Prop} [Decidable p] {d d' : Dissect (Sink C) Unit}
    {checks checks' : Except DissectError Unit} (h : d.OpensWith checks)
    (h' : d'.OpensWith checks') : (if p then d else d').OpensWith (if p then checks else checks') := by
  split
  · exact h
  · exact h'

end OpensWith

/-! ### Mail, names, web and files -/

namespace AppDns

/-- DNS over TCP reads the length first; without it, nothing is checked before the first column. -/
def tcpOpening (payload : Bytes) : Except DissectError Unit := do
  let _ ← (Cur.new payload).be16

theorem parseTcp_opensWith (payload : Bytes) :
    (parseTcp payload).OpensWith (tcpOpening payload) :=
  opensWith_read fun _ => opensWith_none _

end AppDns

namespace AppHttp

/-- The method of a request line is one of the known ones. -/
def startOpening (first : Text) : Except DissectError Unit :=
  if "HTTP/".toList.isPrefixOf first then pure ()
  else if (first.splitn ' ' 3)[0]?.getD [] ∉ knownMethods then throw .malformed
  else pure ()

def opening (payload : Bytes) : Except DissectError Unit :=
  match headLines (headAndBody payload).1 with
  | [] => throw .malformed
  | first :: _ => startOpening first

theorem startLine_opensWith (first : Text) : (startLine first).OpensWith (startOpening first) :=
  opensWith_ite (opensWith_none _) (opensWith_ite (opensWith_giveUp _) (opensWith_none _))

theorem parse_opensWith (payload : Bytes) : (parse payload).OpensWith (opening payload) := by
  refine opensWith_layer _ ?_
  unfold opening
  dsimp only
  cases headLines (headAndBody payload).1 with
  | nil => exact opensWith_end _
  | cons first rest => exact opensWith_bind _ (startLine_opensWith first)

end AppHttp

namespace AppSip

/-- A message that is not a response names one of the known methods. -/
def opening (payload : Bytes) : Except DissectError Unit :=
  let first := (Text.lossy (payload.take 8192)).splitCrlf.headD []
  if "SIP/2.0".toList.isPrefixOf first then pure ()
  else if (Text.splitn ' ' 3 first).headD [] ∉ methods then throw .malformed
  else pure ()

theorem parse_opensWith (payload : Bytes) : (parse payload).OpensWith (opening payload) :=
  opensWith_layer _
    (opensWith_ite (opensWith_none _) (opensWith_ite (opensWith_giveUp _) (opensWith_none _)))

end AppSip

namespace AppSmb

/-- The message opens with one of the two magic numbers. -/
def opening (payload : Bytes) : Except DissectError Unit :=
  if smb2Magic.isPrefixOf (unframed payload) then pure ()
  else if smb1Magic.isPrefixOf (unframed payload) then pure ()
  else throw .malformed

theorem parse_opensWith (payload : Bytes) : (parse payload).OpensWith (opening payload) :=
  opensWith_ite (opensWith_none _) (opensWith_ite (opensWith_none _) (opensWith_end _))

end AppSmb

/-! ### Addresses and accounts -/

namespace AppDhcp

/-- The fixed part, up to the hardware address. -/
def opening (payload : Bytes) : Except DissectError Unit := do
  let (_, c) ← (Cur.new payload).u8
  let (_, c) ← c.u8
  let (_, c) ← c.u8
  let (_, c) ← c.u8
  let (_, c) ← c.be32
  let (_, c) ← c.be16
  let (_, c) ← c.be16
  let (_, c) ← c.ipv4
  let (_, c) ← c.ipv4
  let (_, c) ← c.ipv4
  let (_, c) ← c.ipv4
  let _ ← c.take 16

theorem parse_opensWith (payload : Bytes) : (parse payload).OpensWith (opening payload) :=
  opensWith_layer _ <| opensWith_read fun _ => opensWith_read fun _ => opensWith_read fun _ =>
    opensWith_read fun _ => opensWith_read fun _ => opensWith_read fun _ => opensWith_read fun _ =>
    opensWith_read fun _ => opensWith_read fun _ => opensWith_read fun _ => opensWith_read fun _ =>
    opensWith_read fun _ => opensWith_none _

def openingV6 (payload : Bytes) : Except DissectError Unit := do
  let (_, c) ← (Cur.new payload).u8
  let _ ← c.be24

theorem parseV6_opensWith (payload : Bytes) : (parseV6 payload).OpensWith (openingV6 payload) :=
  opensWith_layer _ (opensWith_read fun _ => opensWith_read fun _ => opensWith_none _)

end AppDhcp

namespace AppDirectory

/-- A sequence whose first element can be read. -/
def ldapOpening (payload : Bytes) : Except DissectError Unit := do
  let msg ← (Ber.read (Cur.new payload)).1
  if msg.constructed = false ∨ msg.tag ≠ Ber.tagSequence then
    throw .malformed
  let _ ← (Ber.read msg.cur).1

theorem ldap_opensWith (payload : Bytes) : (ldap payload).OpensWith (ldapOpening payload) :=
  opensWith_layer _ <| opensWith_read fun _ =>
    opensWith_ite (opensWith_giveUp _) (opensWith_read fun _ => opensWith_none _)

/-- An element of the application class. -/
def kerberosOpening (payload : Bytes) (overTcp : Bool) : Except DissectError Unit := do
  let body ← kerberosBody payload overTcp
  let msg ← (Ber.read (Cur.new body)).1
  if msg.cls ≠ Ber.classApplication then
    throw .malformed

theorem kerberos_opensWith (payload : Bytes) (overTcp : Bool) :
    (kerberos payload overTcp).OpensWith (kerberosOpening payload overTcp) :=
  opensWith_layer _ <| opensWith_read fun _ => opensWith_read fun _ =>
    opensWith_ite (opensWith_giveUp _) (opensWith_none _)

end AppDirectory

/-! ### Small protocols -/

namespace AppMisc

def ntpOpening (payload : Bytes) : Except DissectError Unit := do
  let _ ← (Cur.new payload).u8

theorem ntp_opensWith (payload : Bytes) : (ntp payload).OpensWith (ntpOpening payload) :=
  opensWith_layer _ (opensWith_read fun _ => opensWith_none _)

/-- A sequence whose first element can be read. -/
def snmpOpening (payload : Bytes) : Except DissectError Unit := do
  let seq ← (Ber.read (Cur.new payload)).1
  if seq.constructed = false ∨ seq.tag ≠ Ber.tagSequence then
    throw .malformed
  let _ ← (Ber.read seq.cur).1

theorem snmp_opensWith (payload : Bytes) : (snmp payload).OpensWith (snmpOpening payload) :=
  opensWith_layer _ <| opensWith_read fun _ =>
    opensWith_ite (opensWith_giveUp _) (opensWith_read fun _ => opensWith_none _)

def tftpOpening (payload : Bytes) : Except DissectError Unit := do
  let _ ← (Cur.new payload).be16

theorem tftp_opensWith (payload : Bytes) : (tftp payload).OpensWith (tftpOpening payload) :=
  opensWith_layer _ (opensWith_read fun _ => opensWith_none _)

def nbnsOpening (payload : Bytes) : Except DissectError Unit := do
  let (_, c) ← (Cur.new payload).be16
  let _ ← c.be16

theorem nbns_opensWith (payload : Bytes) : (nbns payload).OpensWith (nbnsOpening payload) :=
  opensWith_layer _ (opensWith_read fun _ => opensWith_read fun _ => opensWith_none _)

def radiusOpening (payload : Bytes) : Except DissectError Unit := do
  let _ ← (Cur.new payload).u8

theorem radius_opensWith (payload : Bytes) : (radius payload).OpensWith (radiusOpening payload) :=
  opensWith_layer _ (opensWith_read fun _ => opensWith_none _)

def mqttOpening (payload : Bytes) : Except DissectError Unit := do
  let _ ← (Cur.new payload).u8

theorem mqtt_opensWith (payload : Bytes) : (mqtt payload).OpensWith (mqttOpening payload) :=
  opensWith_layer _ (opensWith_read fun _ => opensWith_none _)

/-- A known type, and three reserved bytes. -/
def wireguardOpening (payload : Bytes) : Except DissectError Unit := do
  let (t, c) ← (Cur.new payload).u8
  if t < 1 ∨ 4 < t then
    throw .malformed
  let _ ← c.skip 3

theorem wireguard_opensWith (payload : Bytes) :
    (wireguard payload).OpensWith (wireguardOpening payload) :=
  opensWith_layer _ <| opensWith_read fun _ =>
    opensWith_ite (opensWith_giveUp _) (opensWith_read fun _ => opensWith_none _)

/-- The initiator's identifier, after the marker of port 4500. -/
def ikeOpening (payload : Bytes) : Except DissectError Unit := do
  let c := Cur.new payload
  let c ← if c.peek 4 = some [0, 0, 0, 0] then c.skip 4 else pure c
  let _ ← c.take 8

theorem ike_opensWith (payload : Bytes) : (ike payload).OpensWith (ikeOpening payload) := by
  refine opensWith_layer _ ?_
  unfold ikeOpening
  dsimp only
  by_cases h : (Cur.new payload).peek 4 = some [0, 0, 0, 0]
  · simp only [if_pos h]
    exact opensWith_read fun _ => opensWith_read fun _ => opensWith_none _
  · simp only [if_neg h, pure_bind]
    exact opensWith_read fun _ => opensWith_none _

def rtpOpening (payload : Bytes) : Except DissectError Unit := do
  let (_, c) ← (Cur.new payload).u8
  let _ ← c.u8

theorem rtp_opensWith (payload : Bytes) : (rtp payload).OpensWith (rtpOpening payload) :=
  opensWith_layer _ (opensWith_read fun _ => opensWith_read fun _ => opensWith_none _)

def rtcpOpening (payload : Bytes) : Except DissectError Unit := do
  let (_, c) ← (Cur.new payload).u8
  let _ ← c.u8

theorem rtcp_opensWith (payload : Bytes) : (rtcp payload).OpensWith (rtcpOpening payload) :=
  opensWith_layer _ (opensWith_read fun _ => opensWith_read fun _ => opensWith_none _)

/-- A TPKT header of version 3, and the first two bytes after it. -/
def rdpOpening (payload : Bytes) : Except DissectError Unit := do
  let (version, c) ← (Cur.new payload).u8
  if version ≠ 3 then
    throw .malformed
  let c ← c.skip 3
  let (_, c) ← c.u8
  let _ ← c.u8

theorem rdp_opensWith (payload : Bytes) : (rdp payload).OpensWith (rdpOpening payload) :=
  opensWith_layer _ <| opensWith_read fun _ =>
    opensWith_ite (opensWith_giveUp _) <| opensWith_read fun _ => opensWith_read fun _ =>
      opensWith_read fun _ => opensWith_none _

end AppMisc

namespace AppQuic

def opening (payload : Bytes) : Except DissectError Unit := do
  let _ ← (Cur.new payload).u8

theorem parse_opensWith (payload : Bytes) : (parse payload).OpensWith (opening payload) :=
  opensWith_layer _ (opensWith_read fun _ => opensWith_none _)

end AppQuic

/-! ### Industrial protocols -/

namespace AppIcs

/-- A header with protocol number zero, up to the function code. -/
def modbusOpening (payload : Bytes) : Except DissectError Unit := do
  let (_, c) ← (Cur.new payload).be16
  let (protoId, c) ← c.be16
  if protoId ≠ 0 then
    throw .malformed
  let (_, c) ← c.be16
  let (_, c) ← c.u8
  let _ ← c.u8

theorem modbus_opensWith (payload : Bytes) : (modbus payload).OpensWith (modbusOpening payload) :=
  opensWith_layer _ <| opensWith_read fun _ => opensWith_read fun _ =>
    opensWith_ite (opensWith_giveUp _) <| opensWith_read fun _ => opensWith_read fun _ =>
      opensWith_read fun _ => opensWith_none _

/-- The start bytes, up to the two addresses. -/
def dnp3Opening (payload : Bytes) : Except DissectError Unit := do
  let (sync, c) ← (Cur.new payload).be16
  if sync ≠ 0x0564 then
    throw .malformed
  let (_, c) ← c.u8
  let (_, c) ← c.u8
  let (_, c) ← c.le16
  let _ ← c.le16

theorem dnp3_opensWith (payload : Bytes) : (dnp3 payload).OpensWith (dnp3Opening payload) :=
  opensWith_layer _ <| opensWith_read fun _ =>
    opensWith_ite (opensWith_giveUp _) <| opensWith_read fun _ => opensWith_read fun _ =>
      opensWith_read fun _ => opensWith_read fun _ => opensWith_none _

/-- The S7 protocol number after COTP, and the byte after it. -/
def s7commOpening (payload : Bytes) : Except DissectError Unit := do
  let c ← pastCotp (Cur.new payload)
  let (protocol, c) ← c.u8
  if protocol ≠ 0x32 then
    throw .malformed
  let _ ← c.u8

theorem s7comm_opensWith (payload : Bytes) : (s7comm payload).OpensWith (s7commOpening payload) :=
  opensWith_layer _ <| opensWith_read fun _ => opensWith_read fun _ =>
    opensWith_ite (opensWith_giveUp _) (opensWith_read fun _ => opensWith_none _)

def enipOpening (payload : Bytes) : Except DissectError Unit := do
  let (_, c) ← (Cur.new payload).le16
  let (_, c) ← c.le16
  let _ ← c.le32

theorem enip_opensWith (payload : Bytes) : (enip payload).OpensWith (enipOpening payload) :=
  opensWith_layer _ <| opensWith_read fun _ => opensWith_read fun _ => opensWith_read fun _ =>
    opensWith_none _

/-- The start byte and the control fields, and the type of a frame that carries data. -/
def iec104Opening (payload : Bytes) : Except DissectError Unit := do
  let (start, c) ← (Cur.new payload).u8
  if start ≠ 0x68 then
    throw .malformed
  let (_, c) ← c.u8
  let (ctrl1, c) ← c.u8
  let c ← c.skip 3
  if ctrl1 &&& 0x01 ≠ 0 then
    return
  let _ ← c.u8

theorem iec104_opensWith (payload : Bytes) : (iec104 payload).OpensWith (iec104Opening payload) :=
  opensWith_layer _ <| opensWith_read fun _ =>
    opensWith_ite (opensWith_giveUp _) <| opensWith_read fun _ => opensWith_read fun _ =>
      opensWith_read fun _ =>
        opensWith_ite (opensWith_none _) (opensWith_read fun _ => opensWith_none _)

/-- The two version bytes, and the type of a message that is not of the network layer. -/
def bacnetOpening (payload : Bytes) : Except DissectError Unit := do
  let (bvlc, c) ← (Cur.new payload).u8
  if bvlc ≠ 0x81 then
    throw .malformed
  let (_, c) ← c.u8
  let (_, c) ← c.be16
  let (version, c) ← c.u8
  if version ≠ 1 then
    throw .malformed
  let (control, c) ← c.u8
  if control &&& 0x80 ≠ 0 then
    return
  let c ← pastAddressing control c
  let _ ← c.u8

theorem bacnet_opensWith (payload : Bytes) : (bacnet payload).OpensWith (bacnetOpening payload) :=
  opensWith_layer _ <| opensWith_read fun _ =>
    opensWith_ite (opensWith_giveUp _) <| opensWith_read fun _ => opensWith_read fun _ =>
      opensWith_read fun _ => opensWith_ite (opensWith_giveUp _) <| opensWith_read fun _ =>
        opensWith_ite (opensWith_none _) <| opensWith_read fun _ => opensWith_read fun _ =>
          opensWith_none _

end AppIcs

namespace App

/-! ### Only the attempt that succeeds -/

/-- A dissector that is tried, and its opening checks. -/
structure Attempt where
  dissector : M Unit
  opening : Except DissectError Unit
  opensWith : dissector.OpensWith opening

/-- The attempt that a table names. -/
def attemptOf (d : Option (M Unit)) (opening : Except DissectError Unit)
    (h : ∀ x, d = some x → x.OpensWith opening) : List Attempt :=
  match d, h with
  | none, _ => []
  | some d, h => [{ dissector := d, opening, opensWith := h d rfl }]

/-- Run only the attempt that succeeds: each attempt starts from the record that dispatch was given,
and the first that does not give up decides. -/
def onlySuccess : List Attempt → Sink AppCols → Except Panic (Sink AppCols)
  | [], s => .ok s
  | a :: rest, s =>
      match a.dissector.exec s with
      | .error p => .error p
      | .ok (.ok _, s') => .ok s'
      | .ok (.error _, _) => onlySuccess rest s

/-- Every attempt that is tried gives up at its opening checks, or does not give up. -/
def Unspoiled : List Attempt → Prop
  | [] => True
  | a :: rest =>
      (∃ e, a.opening = .error e) ∧ Unspoiled rest ∨
        ∀ s e s', a.dissector.exec s ≠ .ok (.error e, s')

/-- The attempts one after the other, as dispatch runs them. -/
def runAttempts : List Attempt → Except Panic (Bool × Sink AppCols) →
    Except Panic (Bool × Sink AppCols)
  | [], r => r
  | a :: rest, r => runAttempts rest (orElse r (some a.dissector))

theorem runAttempts_append (as bs : List Attempt) (r : Except Panic (Bool × Sink AppCols)) :
    runAttempts (as ++ bs) r = runAttempts bs (runAttempts as r) := by
  induction as generalizing r with
  | nil => rfl
  | cons a as ih => exact ih _

theorem runAttempts_attemptOf {d : Option (M Unit)} {opening : Except DissectError Unit}
    {h : ∀ x, d = some x → x.OpensWith opening} (r : Except Panic (Bool × Sink AppCols)) :
    runAttempts (attemptOf d opening h) r = orElse r d := by
  cases d with
  | some d => rfl
  | none =>
      rcases r with p | ⟨_ | _, s⟩ <;> rfl

/-- An earlier success, or a panic, is not touched by later attempts. -/
theorem runAttempts_of_settled {r : Except Panic (Bool × Sink AppCols)}
    (h : ∀ s, r ≠ .ok (false, s)) (as : List Attempt) : runAttempts as r = r := by
  induction as with
  | nil => rfl
  | cons a as ih =>
      rw [runAttempts]
      rcases r with p | ⟨_ | _, s⟩
      · exact ih
      · exact absurd rfl (h s)
      · exact ih

/-- Failed attempts that never got past their opening checks leave the record as it was. -/
theorem runAttempts_eq_onlySuccess {as : List Attempt} (h : Unspoiled as) (s : Sink AppCols) :
    (runAttempts as (.ok (false, s))).map Prod.snd = onlySuccess as s := by
  induction as with
  | nil => rfl
  | cons a as ih =>
      rw [runAttempts, onlySuccess, orElse, tryDissector]
      obtain ⟨⟨e, he⟩, hrest⟩ | hnever := h
      · -- the stack is cut back to its length, the columns are those it started from
        obtain ⟨ls, hls⟩ := a.opensWith e he s
        simp only [hls, List.take_left]
        exact ih hrest
      · rcases hx : a.dissector.exec s with p | ⟨e | u, s'⟩
        · rw [runAttempts_of_settled (by intro s h; cases h)]
          rfl
        · exact absurd hx (hnever s e s')
        · rw [runAttempts_of_settled (by intro s h; cases h)]
          rfl

/-! ### The opening checks of each attempt -/

/-- Opening checks say nothing about the other columns. -/
theorem part_opensWith {C : Type} {get : AppCols → C} {set : C → AppCols → AppCols}
    (hset : ∀ a, set (get a) a = a) {d : Dissect (Sink C) Unit} {checks : Except DissectError Unit}
    (h : d.OpensWith checks) : (part get set d).OpensWith checks := by
  intro e he s
  obtain ⟨ls, hls⟩ := h e he { stack := s.stack, cols := get s.cols }
  refine ⟨ls, ?_⟩
  rw [part, zoom_exec, hls]
  simp only [Except.map, hset]

/-- The session type is written as soon as there is a byte; without one there is no message. -/
def netbiosOpening (payload : Bytes) : Except DissectError Unit :=
  if payload = [] then throw .malformed else pure ()

theorem netbiosSession_opensWith (payload : Bytes) :
    (netbiosSession payload).OpensWith (netbiosOpening payload) := by
  intro e he s
  by_cases hp : payload = []
  · subst hp
    cases he
    exact ⟨[.nbss], rfl⟩
  · rw [netbiosOpening, if_neg hp] at he
    cases he

def httpOpening (payload : Bytes) : Except DissectError Unit :=
  if AppHttp.looksLikeHttp2 payload then pure () else AppHttp.opening payload

theorem httpPort_opensWith (payload : Bytes) :
    (httpPort payload).OpensWith (httpOpening payload) :=
  opensWith_ite (opensWith_none _)
    (part_opensWith (fun _ => rfl) (AppHttp.parse_opensWith payload))

/-- The opening checks of the registered TCP protocol of a port. -/
def openingByTcpPort (payload : Bytes) (port : UInt16) : Except DissectError Unit :=
  match port.toNat with
  | 53 => AppDns.tcpOpening payload
  | 80 | 8080 | 8000 | 8888 | 3128 => httpOpening payload
  | 88 => AppDirectory.kerberosOpening payload true
  | 102 => AppIcs.s7commOpening payload
  | 139 => netbiosOpening payload
  | 389 | 3268 => AppDirectory.ldapOpening payload
  | 445 => AppSmb.opening payload
  | 502 => AppIcs.modbusOpening payload
  | 1883 | 8883 => AppMisc.mqttOpening payload
  | 2404 => AppIcs.iec104Opening payload
  | 3389 => AppMisc.rdpOpening payload
  | 5060 | 5061 => AppSip.opening payload
  | 20000 => AppIcs.dnp3Opening payload
  | 44818 => AppIcs.enipOpening payload
  -- the others write before they check anything, or never give up
  | _ => pure ()

/-- The opening checks of the registered UDP protocol of a port. -/
def openingByUdpPort (payload : Bytes) (port : UInt16) : Except DissectError Unit :=
  match port.toNat with
  | 67 | 68 => AppDhcp.opening payload
  | 546 | 547 => AppDhcp.openingV6 payload
  | 69 => AppMisc.tftpOpening payload
  | 88 => AppDirectory.kerberosOpening payload false
  | 123 => AppMisc.ntpOpening payload
  | 137 => AppMisc.nbnsOpening payload
  | 161 | 162 => AppMisc.snmpOpening payload
  | 443 => AppQuic.opening payload
  | 500 | 4500 => AppMisc.ikeOpening payload
  | 1812 | 1813 | 1645 | 1646 => AppMisc.radiusOpening payload
  | 5060 | 5061 => AppSip.opening payload
  | 47808 => AppIcs.bacnetOpening payload
  | 51820 => AppMisc.wireguardOpening payload
  | _ => pure ()

def openingByPort (payload : Bytes) (port : UInt16) (isTcp : Bool) : Except DissectError Unit :=
  if isTcp then openingByTcpPort payload port else openingByUdpPort payload port

/-- The opening checks of the protocol that the content suggests. -/
def openingByContent (payload : Bytes) (isTcp : Bool) : Except DissectError Unit :=
  if payload = [] then pure ()
  else if AppHttp.looksLikeHttp2 payload then pure ()
  else if AppHttp.looksLikeHttp payload then AppHttp.opening payload
  else if AppTls.looksLikeTls payload then pure ()
  else if AppTls.looksLikeDtls payload then pure ()
  else if AppSsh.looksLikeSsh payload then pure ()
  else if AppSip.looksLikeSip payload then AppSip.opening payload
  else if AppSmb.looksLikeSmb payload then AppSmb.opening payload
  else if AppText.looksLikeVnc payload then pure ()
  else if AppIcs.looksLikeDnp3 payload then AppIcs.dnp3Opening payload
  else if isTcp = false ∧ AppQuic.looksLikeQuic payload then AppQuic.opening payload
  else if isTcp = false ∧ AppMisc.looksLikeRtcp payload then AppMisc.rtcpOpening payload
  else if isTcp = false ∧ AppMisc.looksLikeRtp payload then AppMisc.rtpOpening payload
  else pure ()

/-- One signature, and then the others. -/
theorem opensWith_signature {p : Prop} [Decidable p] {d : M Unit} {others : Option (M Unit)}
    {checks checks' : Except DissectError Unit} (h : d.OpensWith checks)
    (hothers : ∀ x, others = some x → x.OpensWith checks') :
    ∀ x, (if p then some d else others) = some x → x.OpensWith (if p then checks else checks') := by
  intro x hx
  by_cases hp : p
  · rw [if_pos hp] at hx ⊢
    cases hx
    exact h
  · rw [if_neg hp] at hx ⊢
    exact hothers x hx

section Attempts

variable [Hashes]

theorem byTcpPort_opensWith {payload : Bytes} {port : UInt16} {server : Bool} {d : M Unit}
    (h : byTcpPort payload port server = some d) :
    d.OpensWith (openingByTcpPort payload port) := by
  unfold byTcpPort at h
  unfold openingByTcpPort
  -- one case for each registered port
  split at h <;> cases h <;> simp only [*]
  all_goals first
    | exact opensWith_none _
    | exact httpPort_opensWith payload
    | exact netbiosSession_opensWith payload
    | refine part_opensWith (fun _ => rfl) ?_
  · exact AppDns.parseTcp_opensWith payload
  · exact AppDirectory.kerberos_opensWith payload true
  · exact AppIcs.s7comm_opensWith payload
  · exact AppDirectory.ldap_opensWith payload
  · exact AppDirectory.ldap_opensWith payload
  · exact AppSmb.parse_opensWith payload
  · exact AppIcs.modbus_opensWith payload
  · exact AppMisc.mqtt_opensWith payload
  · exact AppMisc.mqtt_opensWith payload
  · exact AppIcs.iec104_opensWith payload
  · exact AppMisc.rdp_opensWith payload
  · exact AppSip.parse_opensWith payload
  · exact AppSip.parse_opensWith payload
  · exact AppIcs.dnp3_opensWith payload
  · exact AppIcs.enip_opensWith payload

theorem byUdpPort_opensWith {payload : Bytes} {port : UInt16} {d : M Unit}
    (h : byUdpPort payload port = some d) : d.OpensWith (openingByUdpPort payload port) := by
  unfold byUdpPort at h
  unfold openingByUdpPort
  split at h <;> cases h <;> simp only [*]
  all_goals first
    | exact opensWith_none _
    | refine part_opensWith (fun _ => rfl) ?_
  · exact AppDhcp.parse_opensWith payload
  · exact AppDhcp.parse_opensWith payload
  · exact AppDhcp.parseV6_opensWith payload
  · exact AppDhcp.parseV6_opensWith payload
  · exact AppMisc.tftp_opensWith payload
  · exact AppDirectory.kerberos_opensWith payload false
  · exact AppMisc.ntp_opensWith payload
  · exact AppMisc.nbns_opensWith payload
  · exact AppMisc.snmp_opensWith payload
  · exact AppMisc.snmp_opensWith payload
  · exact AppQuic.parse_opensWith payload
  · exact AppMisc.ike_opensWith payload
  · exact AppMisc.ike_opensWith payload
  · exact AppMisc.radius_opensWith payload
  · exact AppMisc.radius_opensWith payload
  · exact AppMisc.radius_opensWith payload
  · exact AppMisc.radius_opensWith payload
  · exact AppSip.parse_opensWith payload
  · exact AppSip.parse_opensWith payload
  · exact AppIcs.bacnet_opensWith payload
  · exact AppMisc.wireguard_opensWith payload

/-- A registered dissector whose opening checks fail writes no column. -/
theorem byPort_opensWith {payload : Bytes} {port : UInt16} {isTcp portIsSource : Bool}
    {d : M Unit} (h : byPort payload port isTcp portIsSource = some d) :
    d.OpensWith (openingByPort payload port isTcp) := by
  unfold byPort at h
  unfold openingByPort
  cases isTcp with
  | true => exact byTcpPort_opensWith h
  | false => exact byUdpPort_opensWith h

/-- Neither does a sniffed one. -/
theorem sniff_opensWith {payload : Bytes} {isTcp : Bool} :
    ∀ d, sniff payload isTcp = some d → d.OpensWith (openingByContent payload isTcp) := by
  unfold sniff openingByContent
  by_cases hp : payload = []
  · rw [if_pos hp]
    intro d hd
    cases hd
  rw [if_neg hp, if_neg hp]
  -- the signatures in their order
  refine opensWith_signature (opensWith_none _) ?_
  refine opensWith_signature (part_opensWith (fun _ => rfl) (AppHttp.parse_opensWith payload)) ?_
  refine opensWith_signature (opensWith_none _) ?_
  refine opensWith_signature (opensWith_none _) ?_
  refine opensWith_signature (opensWith_none _) ?_
  refine opensWith_signature (part_opensWith (fun _ => rfl) (AppSip.parse_opensWith payload)) ?_
  refine opensWith_signature (part_opensWith (fun _ => rfl) (AppSmb.parse_opensWith payload)) ?_
  refine opensWith_signature (opensWith_none _) ?_
  refine opensWith_signature (part_opensWith (fun _ => rfl) (AppIcs.dnp3_opensWith payload)) ?_
  refine opensWith_signature (part_opensWith (fun _ => rfl) (AppQuic.parse_opensWith payload)) ?_
  refine opensWith_signature (part_opensWith (fun _ => rfl) (AppMisc.rtcp_opensWith payload)) ?_
  refine opensWith_signature (part_opensWith (fun _ => rfl) (AppMisc.rtp_opensWith payload)) ?_
  intro x hx
  cases hx

/-! ### The attempts of dispatch -/

/-- The attempts in their order: the destination port, the source port unless it is the same, the
content. -/
def attempts (payload : Bytes) (sport dport : UInt16) (isTcp : Bool) : List Attempt :=
  attemptOf (byPort payload dport isTcp false) (openingByPort payload dport isTcp)
      (fun _ => byPort_opensWith) ++
    (if sport = dport then []
      else attemptOf (byPort payload sport isTcp true) (openingByPort payload sport isTcp)
        fun _ => byPort_opensWith) ++
    attemptOf (sniff payload isTcp) (openingByContent payload isTcp) sniff_opensWith

theorem identify_eq_runAttempts (payload : Bytes) (sport dport : UInt16) (isTcp : Bool)
    (s : Sink AppCols) :
    identify payload sport dport isTcp s =
      (runAttempts (attempts payload sport dport isTcp) (.ok (false, s))).map Prod.snd := by
  unfold identify attempts
  rw [runAttempts_append, runAttempts_append, runAttempts_attemptOf, runAttempts_attemptOf]
  by_cases h : sport = dport
  · simp only [if_pos h]
    rw [show ∀ r, orElse r none = r from fun r => by rcases r with p | ⟨_ | _, s⟩ <;> rfl]
    rfl
  · simp only [if_neg h]
    rw [runAttempts_attemptOf]
    rfl

end Attempts

end App

/-! ### Dispatch -/

section Dispatch

variable [Hashes]

/-- Dispatch as it is meant: only the attempt that succeeds is run. -/
def dispatchOnly (payload : Bytes) (sport dport : UInt16) (isTcp : Bool) (ctx : Ctx) :
    Except Panic Ctx :=
  if ctx.appDone ∨ payload = [] then .ok ctx
  else
    (App.onlySuccess (App.attempts payload sport dport isTcp)
      { stack := ctx.stack, cols := ctx.pkt.app }).map
      fun s => { ctx with appDone := true, stack := s.stack, pkt := { ctx.pkt with app := s.cols } }

/-- **A failed attempt leaves no trace, as long as no attempt that is tried gives up past its opening
checks.** -/
theorem dispatch_eq_dispatchOnly {payload : Bytes} {sport dport : UInt16} {isTcp : Bool}
    (h : payload = [] ∨ App.Unspoiled (App.attempts payload sport dport isTcp)) (ctx : Ctx) :
    dispatch payload sport dport isTcp ctx = dispatchOnly payload sport dport isTcp ctx := by
  unfold dispatch dispatchOnly
  by_cases hp : payload = []
  · rw [if_pos (.inr hp), if_pos (.inr hp)]
  · obtain h | h := h
    · exact absurd h hp
    · rw [App.identify_eq_runAttempts, App.runAttempts_eq_onlySuccess h]

end Dispatch

/-- TLS bytes on port 80: the HTTP dissector rejects them before it writes, and the record is the one
that the TLS dissector makes of them. -/
theorem dispatch_tls_on_http_port :
    AppHttp.opening [0x17, 3, 1, 0, 0] = .error .malformed ∧ ∀ (_ : Hashes) (ctx : Ctx),
      dispatch [0x17, 3, 1, 0, 0] 5555 80 true ctx =
        dispatchOnly [0x17, 3, 1, 0, 0] 5555 80 true ctx := by
  have hopen : AppHttp.opening [0x17, 3, 1, 0, 0] = .error .malformed := by rfl
  refine ⟨hopen, fun _ => dispatch_eq_dispatchOnly (.inr (.inl ⟨⟨_, hopen⟩, .inr ?_⟩))⟩
  intro s e s' h
  cases h

/-- A single byte on the NTP port: the dissector gives up at the second byte, nothing is recognised,
and the record keeps what it has written by then. -/
theorem dispatch_leaves_trace :
    ([0x23] : Bytes) ≠ [] ∧ ∀ _ : Hashes,
      (∃ ctx, dispatch [0x23] 4000 123 false { pkt := {} } = .ok ctx ∧ ctx.stack = [] ∧
        ctx.pkt.app.misc.ntpMode = some 3) ∧
      dispatch [0x23] 4000 123 false { pkt := {} } ≠
        dispatchOnly [0x23] 4000 123 false { pkt := {} } := by
  refine ⟨by decide, fun _ => ?_⟩
  obtain ⟨ctx, hctx, hstack, hmode⟩ : ∃ ctx,
      dispatch [0x23] 4000 123 false { pkt := {} } = .ok ctx ∧ ctx.stack = [] ∧
        ctx.pkt.app.misc.ntpMode = some 3 := ⟨_, rfl, rfl, rfl⟩
  refine ⟨⟨ctx, hctx, hstack, hmode⟩, ?_⟩
  obtain ⟨ctx', hctx', hmode'⟩ : ∃ ctx',
      dispatchOnly [0x23] 4000 123 false { pkt := {} } = .ok ctx' ∧
        ctx'.pkt.app.misc.ntpMode = none := ⟨_, rfl, rfl⟩
  rw [hctx, hctx']
  intro h
  cases h
  rw [hmode] at hmode'
  cases hmode'

end PcapRacer
