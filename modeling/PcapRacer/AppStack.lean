/-
**Application dissectors and the stack.**

An application dissector only ever pushes layer names: it does not look at the stack it starts
from.  So what it reads, writes and returns is the same on every stack, and its layers come on top.
The serial phase relies on this: it dissects on an empty stack and splices the names onto the stack
of the first pass.

The dissectors are written with a handful of steps.  `Dissect.Built` says so, and what holds of
every step and is kept by the combinators then holds of all of them.

Main definitions:

* `Dissect.Built` — built from the steps of the monad;
* `Dissect.Framed`, `Dissect.Plain` — the stack below is not looked at, and no tunnel is pushed.

Main results:

* `Dissect.Built.framed` — what is built from the steps does not look at the stack;
* `App.identify_framed` — **neither does application dispatch**;
* `App.identify_tunnels` — application dispatch pushes no tunnel layer.
-/

import PcapRacer.AppDispatch

set_option relaxedAutoImplicit false
set_option autoImplicit false

namespace PcapRacer

/-! ### Dissectors as sequences of steps -/

/-- The dissector is built from the steps of the monad. -/
inductive Dissect.Built {C : Type} : {α : Type} → Dissect (Sink C) α → Prop
  | pure {α : Type} (a : α) : Built (pure a)
  | layer {l : Layer} (hl : l.isTunnel = false) : Built (Sink.layer l)
  | col (f : C → C) : Built (col f)
  | cols : Built cols
  | giveUp {α : Type} (e : DissectError) : Built (giveUp e : Dissect (Sink C) α)
  /-- A read that may fail. -/
  | read {α : Type} (x : Except DissectError α) : Built (liftM x : Dissect (Sink C) α)
  /-- A string operation that may panic. -/
  | cut {α : Type} (x : Except Panic α) : Built (liftM x : Dissect (Sink C) α)
  | attempt {α : Type} {d : Dissect (Sink C) α} (hd : Built d) : Built (attempt d)
  /-- A step that is left out when a condition fails; what follows is one dissector. -/
  | optional {α β : Type} {p : Prop} [Decidable p] {d : Dissect (Sink C) α}
      {next : Dissect (Sink C) β} (hd : Built d) (hnext : Built next) :
      Built (if p then d >>= fun _ => next else next)
  | ite {α : Type} {p : Prop} [Decidable p] {d d' : Dissect (Sink C) α} (hd : Built d)
      (hd' : Built d') : Built (if p then d else d')
  | mapM {α β : Type} {f : α → Dissect (Sink C) β} (hf : ∀ a, Built (f a)) (o : Option α) :
      Built (o.mapM f)
  | forM {α : Type} {f : α → Dissect (Sink C) Unit} (hf : ∀ a, Built (f a)) (l : List α) :
      Built (l.forM f)
  | bind {α β : Type} {d : Dissect (Sink C) α} {f : α → Dissect (Sink C) β} (hd : Built d)
      (hf : ∀ a, Built (f a)) : Built (d >>= f)

section Framed

variable {C α β : Type}

/-- Put a stack below the layers of a result. -/
def onTop (below : List Layer) (s : Sink C) : Sink C := { s with stack := below ++ s.stack }

/-- The dissector does not look at the stack below: it does the same on the empty stack. -/
def Dissect.Framed (d : Dissect (Sink C) α) : Prop :=
  ∀ below s, d.exec (onTop below s) = (d.exec s).map fun r => (r.1, onTop below r.2)

theorem framed_pure (a : α) : (pure a : Dissect (Sink C) α).Framed := fun _ _ => rfl

theorem framed_bind {d : Dissect (Sink C) α} {f : α → Dissect (Sink C) β} (hd : d.Framed)
    (hf : ∀ a, (f a).Framed) : (d >>= f).Framed := by
  intro below s
  rw [exec_bind, exec_bind, hd below s]
  rcases d.exec s with p | ⟨e | a, s'⟩
  · rfl
  · rfl
  · exact hf a below s'

theorem framed_attempt {d : Dissect (Sink C) α} (hd : d.Framed) : (attempt d).Framed := by
  intro below s
  rw [exec_attempt, exec_attempt, hd below s]
  rcases d.exec s with p | r <;> rfl

theorem framed_ite {p : Prop} [Decidable p] {d d' : Dissect (Sink C) α} (hd : d.Framed)
    (hd' : d'.Framed) : (if p then d else d').Framed := by
  split
  · exact hd
  · exact hd'

/-- **What is built from the steps of the monad does not look at the stack.** -/
theorem Dissect.Built.framed {d : Dissect (Sink C) α} (h : d.Built) : d.Framed := by
  induction h with
  | pure a => exact framed_pure a
  | layer _ =>
      intro below s
      simp only [exec_layer, onTop, List.append_assoc, Except.map]
  | col f => exact fun _ _ => rfl
  | cols => exact fun _ _ => rfl
  | giveUp e => exact fun _ _ => rfl
  | read x => exact fun _ _ => rfl
  | cut x =>
      intro below s
      rw [exec_liftPanic, exec_liftPanic]
      cases x <;> rfl
  | attempt _ ih => exact framed_attempt ih
  | optional _ _ ih ihnext => exact framed_ite (framed_bind ih fun _ => ihnext) ihnext
  | ite _ _ ih ih' => exact framed_ite ih ih'
  | mapM _ o ih =>
      cases o with
      | none => exact framed_pure none
      | some a => exact framed_bind (ih a) fun b => framed_pure (some b)
  | forM _ l ih =>
      induction l with
      | nil => exact framed_pure ()
      | cons a l ihl => exact framed_bind (ih a) fun _ => ihl
  | bind _ _ ih ihf => exact framed_bind ih ihf

end Framed

section Plain

variable {C α β : Type}

/-- The dissector pushes no tunnel layer. -/
def Dissect.Plain (d : Dissect (Sink C) α) : Prop :=
  d.Keeps fun s => s.stack.countP Layer.isTunnel

theorem plain_pure (a : α) : (pure a : Dissect (Sink C) α).Plain := keeps_pure a

theorem plain_bind {d : Dissect (Sink C) α} {f : α → Dissect (Sink C) β} (hd : d.Plain)
    (hf : ∀ a, (f a).Plain) : (d >>= f).Plain := keeps_bind hd hf

theorem plain_attempt {d : Dissect (Sink C) α} (hd : d.Plain) : (attempt d).Plain := by
  intro s r s' h
  rw [exec_attempt] at h
  obtain ⟨x, hx, he⟩ := map_eq_ok_iff.mp h
  cases he
  exact hd s x.1 x.2 hx

theorem plain_ite {p : Prop} [Decidable p] {d d' : Dissect (Sink C) α} (hd : d.Plain)
    (hd' : d'.Plain) : (if p then d else d').Plain := by
  split
  · exact hd
  · exact hd'

/-- **What is built from the steps of the monad pushes no tunnel layer.** -/
theorem Dissect.Built.plain {d : Dissect (Sink C) α} (h : d.Built) : d.Plain := by
  induction h with
  | pure a => exact plain_pure a
  | layer hl =>
      intro s r s' h
      cases h
      simp [List.countP_append, hl]
  | col f => exact fun s r s' h => by cases h; rfl
  | cols => exact fun s r s' h => by cases h; rfl
  | giveUp e => exact fun s r s' h => by cases h; rfl
  | read x => exact keeps_liftError x
  | cut x =>
      intro s r s' h
      rw [exec_liftPanic] at h
      obtain ⟨a, -, he⟩ := map_eq_ok_iff.mp h
      cases he
      rfl
  | attempt _ ih => exact plain_attempt ih
  | optional _ _ ih ihnext => exact plain_ite (plain_bind ih fun _ => ihnext) ihnext
  | ite _ _ ih ih' => exact plain_ite ih ih'
  | mapM _ o ih =>
      cases o with
      | none => exact plain_pure none
      | some a => exact plain_bind (ih a) fun b => plain_pure (some b)
  | forM _ l ih =>
      induction l with
      | nil => exact plain_pure ()
      | cons a l ihl => exact plain_bind (ih a) fun _ => ihl
  | bind _ _ ih ihf => exact plain_bind ih ihf

end Plain

/-! ### Text protocols -/

namespace AppText

theorem smtpLine_built (line : Text) : (smtpLine line).Built := by
  unfold smtpLine
  dsimp -zeta only
  repeat' with_reducible first | intro _ | constructor

theorem smtp_built (payload : Bytes) : (smtp payload).Built := by
  unfold smtp
  repeat' with_reducible first | intro _ | exact smtpLine_built _ | constructor
  rfl

theorem ftp_built (payload : Bytes) : (ftp payload).Built := by
  unfold ftp
  dsimp -zeta only
  repeat' with_reducible first | intro _ | constructor
  rfl

theorem imap_built (payload : Bytes) : (imap payload).Built := by
  unfold imap
  repeat' with_reducible first | intro _ | constructor
  rfl

theorem pop3_built (payload : Bytes) : (pop3 payload).Built := by
  unfold pop3
  dsimp -zeta only
  repeat' with_reducible first | intro _ | constructor
  rfl

theorem irc_built (payload : Bytes) : (irc payload).Built := by
  unfold irc
  dsimp -zeta only
  repeat' with_reducible first | intro _ | constructor | split
  rfl

theorem telnet_built (payload : Bytes) : (telnet payload).Built := by
  unfold telnet
  repeat' with_reducible first | intro _ | constructor
  rfl

theorem syslog_built (payload : Bytes) : (syslog payload).Built := by
  unfold syslog
  dsimp -zeta only
  repeat' with_reducible first | intro _ | constructor | split
  rfl

theorem vnc_built (payload : Bytes) : (vnc payload).Built := by
  unfold vnc
  repeat' with_reducible first | intro _ | constructor
  rfl

end AppText

/-! ### DNS -/

namespace AppDns

theorem questionLoop_built (msg : Bytes) (count : ℕ) (first : Bool) (pos : ℕ) :
    (questionLoop msg count first pos).Built := by
  induction count generalizing first pos with
  | zero => exact .pure pos
  | succ count ih =>
    unfold questionLoop
    dsimp -zeta only
    repeat' with_reducible first | intro _ | exact ih _ _ | constructor

theorem listColumn_built (items : List Text) (sep : String) (max : ℕ)
    (set : Text → DnsCols → DnsCols) :
    (listColumn items sep max set).Built := by
  unfold listColumn
  repeat' with_reducible first | intro _ | constructor

theorem parse_built (msg : Bytes) (isMdns isLlmnr overTcp : Bool) :
    (parse msg isMdns isLlmnr overTcp).Built := by
  unfold parse
  dsimp -zeta only
  repeat' with_reducible first
    | intro _ | exact questionLoop_built _ _ _ _ | exact listColumn_built _ _ _ _ | constructor
  cases isMdns <;> cases isLlmnr <;> rfl

theorem parseTcp_built (payload : Bytes) : (parseTcp payload).Built := by
  unfold parseTcp
  dsimp -zeta only
  repeat' with_reducible first | intro _ | exact parse_built _ _ _ _ | constructor

end AppDns

/-! ### HTTP -/

namespace AppHttp

theorem statusLine_built (parts : List Text) : (statusLine parts).Built := by
  unfold statusLine
  repeat' with_reducible first | intro _ | constructor | split

theorem requestUri_built (uri : Text) : (requestUri uri).Built := by
  unfold requestUri
  repeat' with_reducible first | intro _ | constructor | split

theorem requestLine_built (parts : List Text) : (requestLine parts).Built := by
  unfold requestLine
  repeat' with_reducible first | intro _ | exact requestUri_built _ | constructor | split

theorem startLine_built (first : Text) : (startLine first).Built := by
  unfold startLine
  repeat' with_reducible first
    | intro _ | exact statusLine_built _ | exact requestLine_built _ | constructor

theorem setHeader_built (lower value : Text) : (setHeader lower value).Built := by
  unfold setHeader
  repeat' with_reducible first | intro _ | constructor | split

theorem headers_built (lines names : List Text) (count : UInt16) :
    (headers lines names count).Built := by
  induction lines generalizing names count with
  | nil => exact .pure _
  | cons line lines ih =>
    unfold headers
    repeat' with_reducible first
      | intro _ | exact setHeader_built _ _ | exact ih _ _ | constructor | split

theorem parse_built (payload : Bytes) : (parse payload).Built := by
  unfold parse
  dsimp -zeta only
  repeat' with_reducible first
    | intro _ | exact startLine_built _ | exact headers_built _ _ _ | constructor | split
  rfl

theorem setPseudo_built (name value : Text) : (setPseudo name value).Built := by
  unfold setPseudo
  repeat' with_reducible first | intro _ | constructor

theorem decodeHeaders_built (guard : ℕ) (c : Cur) : (decodeHeaders guard c).Built := by
  induction guard generalizing c with
  | zero => exact .pure _
  | succ guard ih =>
    unfold decodeHeaders
    repeat' with_reducible first
      | intro _ | exact setPseudo_built _ _ | exact ih _ | constructor | split | dsimp only

theorem h2Frames_built (guard : ℕ) (c : Cur) : (h2Frames guard c).Built := by
  induction guard generalizing c with
  | zero => exact .pure _
  | succ guard ih =>
    unfold h2Frames
    dsimp -zeta only
    repeat' with_reducible first
      | intro _ | exact decodeHeaders_built _ _ | exact ih _ | constructor

theorem parseH2_built (payload : Bytes) : (parseH2 payload).Built := by
  unfold parseH2
  repeat' with_reducible first | intro _ | exact h2Frames_built _ _ | constructor
  rfl

end AppHttp

/-! ### TLS -/

namespace AppTls

theorem applyExts_built (e : Exts) : (applyExts e).Built := by
  unfold applyExts
  repeat' with_reducible first | intro _ | constructor | split

theorem parseCertificate_built (der : Bytes) : (parseCertificate der).Built := by
  unfold parseCertificate
  dsimp -zeta only
  repeat' with_reducible first | intro _ | constructor | split | dsimp only

theorem certificates_built (msg : Bytes) : (certificates msg).Built := by
  unfold certificates
  dsimp -zeta only
  repeat' with_reducible first | intro _ | exact parseCertificate_built _ | constructor | split

variable [Hashes]

theorem clientHelloCols_built (v : UInt16) (ciphers : List UInt16) (e : Exts) :
    (clientHelloCols v ciphers e).Built := by
  unfold clientHelloCols
  dsimp -zeta only
  repeat' with_reducible first | intro _ | exact applyExts_built _ | constructor

theorem clientHello_built (msg : Bytes) (isDtls : Bool) : (clientHello msg isDtls).Built := by
  unfold clientHello
  dsimp -zeta only
  repeat' with_reducible first | intro _ | exact clientHelloCols_built _ _ _ | constructor

theorem serverHello_built (msg : Bytes) : (serverHello msg).Built := by
  unfold serverHello
  dsimp -zeta only
  repeat' with_reducible first | intro _ | exact applyExts_built _ | constructor

theorem handshakeLoop_built (isDtls : Bool) (guard : ℕ) (c : Cur) :
    (handshakeLoop isDtls guard c).Built := by
  induction guard generalizing c with
  | zero => exact .pure _
  | succ guard ih =>
    unfold handshakeLoop
    dsimp -zeta only
    repeat' with_reducible first
      | intro _ | exact clientHello_built _ _ | exact serverHello_built _
      | exact certificates_built _ | exact ih _ | constructor

theorem handshake_built (body : Bytes) (isDtls : Bool) : (handshake body isDtls).Built :=
  handshakeLoop_built isDtls 8 (Cur.new body)

theorem recordLoop_built (isDtls : Bool) (guard : ℕ) (first : Bool) (c : Cur) :
    (recordLoop isDtls guard first c).Built := by
  induction guard generalizing first c with
  | zero => exact .pure _
  | succ guard ih =>
    unfold recordLoop
    dsimp -zeta only
    repeat' with_reducible first
      | intro _ | exact handshake_built _ _ | exact ih _ _ | constructor | split

theorem parse_built (payload : Bytes) (isDtls : Bool) : (parse payload isDtls).Built := by
  unfold parse
  repeat' with_reducible first | intro _ | exact recordLoop_built _ _ _ _ | constructor
  cases isDtls <;> rfl

end AppTls

/-! ### DHCP, QUIC and SIP -/

namespace AppDhcp

theorem dhcpOption_built (code : UInt8) (val : Bytes) : (dhcpOption code val).Built := by
  unfold dhcpOption
  repeat' with_reducible first | intro _ | constructor | split

theorem optionLoop_built (guard : ℕ) (c : Cur) : (optionLoop guard c).Built := by
  induction guard generalizing c with
  | zero => exact .pure _
  | succ guard ih =>
    unfold optionLoop
    repeat' with_reducible first
      | intro _ | exact dhcpOption_built _ _ | exact ih _ | constructor | split

theorem parse_built (payload : Bytes) : (parse payload).Built := by
  unfold parse
  dsimp -zeta only
  repeat' with_reducible first | intro _ | exact optionLoop_built _ _ | constructor
  rfl

theorem parseV6_built (payload : Bytes) : (parseV6 payload).Built := by
  unfold parseV6
  dsimp -zeta only
  repeat' with_reducible first | intro _ | constructor
  rfl

end AppDhcp

namespace AppQuic

theorem parse_built (payload : Bytes) : (parse payload).Built := by
  unfold parse
  dsimp -zeta only
  repeat' with_reducible first | intro _ | constructor
  rfl

end AppQuic

namespace AppSip

theorem header_built (name v : Text) : (header name v).Built := by
  unfold header
  repeat' with_reducible first | intro _ | constructor

theorem headerLoop_built (lines : List Text) : (headerLoop lines).Built := by
  induction lines with
  | nil => exact .pure _
  | cons line lines ih =>
    unfold headerLoop
    repeat' with_reducible first | intro _ | exact header_built _ _ | exact ih | constructor | split

theorem parse_built (payload : Bytes) : (parse payload).Built := by
  unfold parse
  repeat' with_reducible first | intro _ | exact headerLoop_built _ | constructor
  rfl

end AppSip

/-! ### SMB and SSH -/

namespace AppSmb

theorem ntlm_built (data : Bytes) : (ntlm data).Built := by
  unfold ntlm
  dsimp -zeta only
  repeat' with_reducible first | intro _ | constructor | split

theorem ntlmIn_built (rest : Bytes) : (ntlmIn rest).Built := by
  unfold ntlmIn
  repeat' with_reducible first | intro _ | exact ntlm_built _ | constructor | split

theorem smb2_built (body : Bytes) : (smb2 body).Built := by
  unfold smb2
  dsimp -zeta only
  repeat' with_reducible first | intro _ | exact ntlmIn_built _ | constructor | split
  rfl

theorem smb1_built (body : Bytes) : (smb1 body).Built := by
  unfold smb1
  dsimp -zeta only
  repeat' with_reducible first | intro _ | exact ntlmIn_built _ | constructor
  rfl

theorem parse_built (payload : Bytes) : (parse payload).Built := by
  unfold parse
  repeat' with_reducible first | intro _ | exact smb2_built _ | exact smb1_built _ | constructor

end AppSmb

namespace AppSsh

variable [Hashes]

theorem kexinit_built (lists : List Text) (isServer : Bool) : (kexinit lists isServer).Built := by
  unfold kexinit
  repeat' with_reducible first | intro _ | constructor

theorem binary_built (payload : Bytes) (isServer : Bool) : (binary payload isServer).Built := by
  unfold binary
  dsimp -zeta only
  repeat' with_reducible first | intro _ | exact kexinit_built _ _ | constructor

theorem parse_built (payload : Bytes) (isServer : Bool) : (parse payload isServer).Built := by
  unfold parse
  repeat' with_reducible first | intro _ | exact binary_built _ _ | constructor
  rfl

end AppSsh

/-! ### LDAP and Kerberos -/

namespace AppDirectory

theorem ldapBind_built (o : Cur) : (ldapBind o).Built := by
  unfold ldapBind
  dsimp -zeta only
  repeat' with_reducible first | intro _ | constructor | split

theorem ldapSearch_built (o : Cur) : (ldapSearch o).Built := by
  unfold ldapSearch
  dsimp -zeta only
  repeat' with_reducible first | intro _ | constructor | split

theorem ldapResult_built (o : Cur) : (ldapResult o).Built := by
  unfold ldapResult
  dsimp -zeta only
  repeat' with_reducible first | intro _ | constructor | split

theorem ldap_built (payload : Bytes) : (ldap payload).Built := by
  unfold ldap
  dsimp -zeta only
  repeat' with_reducible first
    | intro _ | exact ldapBind_built _ | exact ldapSearch_built _ | exact ldapResult_built _
    | constructor | split
  rfl

theorem krbField_built (field : Ber.Tlv) : (krbField field).Built := by
  unfold krbField
  repeat' with_reducible first | intro _ | constructor | split

theorem collectPrincipals_built (data : Bytes) : (collectPrincipals data).Built := by
  unfold collectPrincipals
  repeat' with_reducible first | intro _ | constructor | split | dsimp only

theorem kerberos_built (payload : Bytes) (overTcp : Bool) : (kerberos payload overTcp).Built := by
  unfold kerberos
  repeat' with_reducible first
    | intro _ | exact krbField_built _ | exact collectPrincipals_built _ | constructor | split
  rfl

end AppDirectory

/-! ### Small protocols -/

namespace AppMisc

theorem ntp_built (payload : Bytes) : (ntp payload).Built := by
  unfold ntp
  dsimp -zeta only
  repeat' with_reducible first | intro _ | constructor
  rfl

theorem snmpPdu_built (pdu : Ber.Tlv) : (snmpPdu pdu).Built := by
  unfold snmpPdu
  dsimp -zeta only
  repeat' with_reducible first | intro _ | constructor | split

theorem snmp_built (payload : Bytes) : (snmp payload).Built := by
  unfold snmp
  dsimp -zeta only
  repeat' with_reducible first | intro _ | exact snmpPdu_built _ | constructor
  rfl

theorem tftp_built (payload : Bytes) : (tftp payload).Built := by
  unfold tftp
  dsimp -zeta only
  repeat' with_reducible first | intro _ | constructor
  rfl

theorem nbns_built (payload : Bytes) : (nbns payload).Built := by
  unfold nbns
  dsimp -zeta only
  repeat' with_reducible first | intro _ | constructor
  rfl

theorem nbss_built (payload : Bytes) : (nbss payload).Built := by
  unfold nbss
  dsimp -zeta only
  repeat' with_reducible first | intro _ | constructor
  rfl

theorem radiusAttribute_built (t : UInt8) (v : Bytes) : (radiusAttribute t v).Built := by
  unfold radiusAttribute
  repeat' with_reducible first | intro _ | constructor | split

theorem radiusAttributes_built (guard : ℕ) (a : Cur) : (radiusAttributes guard a).Built := by
  induction guard generalizing a with
  | zero => exact .pure _
  | succ guard ih =>
    unfold radiusAttributes
    dsimp -zeta only
    repeat' with_reducible first
      | intro _ | exact radiusAttribute_built _ _ | exact ih _ | constructor | split

theorem radius_built (payload : Bytes) : (radius payload).Built := by
  unfold radius
  dsimp -zeta only
  repeat' with_reducible first | intro _ | exact radiusAttributes_built _ _ | constructor
  rfl

theorem mqttConnect_built (c : Cur) : (mqttConnect c).Built := by
  unfold mqttConnect
  dsimp -zeta only
  repeat' with_reducible first | intro _ | constructor

theorem mqtt_built (payload : Bytes) : (mqtt payload).Built := by
  unfold mqtt
  dsimp -zeta only
  repeat' with_reducible first | intro _ | exact mqttConnect_built _ | constructor
  rfl

theorem wireguard_built (payload : Bytes) : (wireguard payload).Built := by
  unfold wireguard
  dsimp -zeta only
  repeat' with_reducible first | intro _ | constructor
  rfl

theorem ike_built (payload : Bytes) : (ike payload).Built := by
  unfold ike
  dsimp -zeta only
  repeat' with_reducible first | intro _ | constructor
  rfl

theorem rtp_built (payload : Bytes) : (rtp payload).Built := by
  unfold rtp
  dsimp -zeta only
  repeat' with_reducible first | intro _ | constructor
  rfl

theorem rtcp_built (payload : Bytes) : (rtcp payload).Built := by
  unfold rtcp
  dsimp -zeta only
  repeat' with_reducible first | intro _ | constructor
  rfl

theorem rdp_built (payload : Bytes) : (rdp payload).Built := by
  unfold rdp
  dsimp -zeta only
  repeat' with_reducible first | intro _ | constructor | split
  rfl

end AppMisc

/-! ### Industrial protocols -/

namespace AppIcs

theorem modbus_built (payload : Bytes) : (modbus payload).Built := by
  unfold modbus
  dsimp -zeta only
  repeat' with_reducible first | intro _ | constructor
  rfl

theorem dnp3_built (payload : Bytes) : (dnp3 payload).Built := by
  unfold dnp3
  dsimp -zeta only
  repeat' with_reducible first | intro _ | constructor
  rfl

theorem s7comm_built (payload : Bytes) : (s7comm payload).Built := by
  unfold s7comm
  dsimp -zeta only
  repeat' with_reducible first | intro _ | constructor
  rfl

theorem cipItem_built (item : Bytes) : (cipItem item).Built := by
  unfold cipItem
  repeat' with_reducible first | intro _ | constructor | split

theorem cipItems_built (count : ℕ) (c : Cur) : (cipItems count c).Built := by
  induction count generalizing c with
  | zero => exact .pure _
  | succ count ih =>
    unfold cipItems
    dsimp -zeta only
    repeat' with_reducible first | intro _ | exact cipItem_built _ | exact ih _ | constructor

theorem enip_built (payload : Bytes) : (enip payload).Built := by
  unfold enip
  dsimp -zeta only
  repeat' with_reducible first | intro _ | exact cipItems_built _ _ | constructor
  rfl

theorem iec104_built (payload : Bytes) : (iec104 payload).Built := by
  unfold iec104
  dsimp -zeta only
  repeat' with_reducible first | intro _ | constructor
  rfl

theorem bacnet_built (payload : Bytes) : (bacnet payload).Built := by
  unfold bacnet
  dsimp -zeta only
  repeat' with_reducible first | intro _ | constructor
  rfl

end AppIcs

/-! ### Dispatch -/

namespace App

/-- The dissector is one of those on a group of columns, or put together from them. -/
inductive Made : {α : Type} → M α → Prop
  | part {C : Type} {get : AppCols → C} {set : C → AppCols → AppCols} {d : Dissect (Sink C) Unit}
      (hd : d.Built) : Made (part get set d)
  | attempt {α : Type} {d : M α} (hd : Made d) : Made (attempt d)
  | ite {α : Type} {p : Prop} [Decidable p] {d d' : M α} (hd : Made d) (hd' : Made d') :
      Made (if p then d else d')
  | bind {α β : Type} {d : M α} {f : α → M β} (hd : Made d) (hf : ∀ a, Made (f a)) : Made (d >>= f)

theorem framed_part {C : Type} {get : AppCols → C} {set : C → AppCols → AppCols}
    {d : Dissect (Sink C) Unit} (h : d.Built) : (part get set d).Framed := by
  intro below s
  have hd := h.framed below { stack := s.stack, cols := get s.cols }
  rw [part, zoom_exec, zoom_exec]
  dsimp only [onTop] at hd ⊢
  rw [hd]
  rcases d.exec { stack := s.stack, cols := get s.cols } with p | r <;> rfl

theorem Made.framed {α : Type} {d : M α} (h : Made d) : d.Framed := by
  induction h with
  | part hd => exact framed_part hd
  | attempt _ ih => exact framed_attempt ih
  | ite _ _ ih ih' => exact framed_ite ih ih'
  | bind _ _ ih ihf => exact framed_bind ih ihf

theorem plain_part {C : Type} {get : AppCols → C} {set : C → AppCols → AppCols}
    {d : Dissect (Sink C) Unit} (h : d.Built) : (part get set d).Plain := by
  intro s r s' he
  rw [part, zoom_exec] at he
  obtain ⟨x, hx, hr⟩ := map_eq_ok_iff.mp he
  cases hr
  exact h.plain { stack := s.stack, cols := get s.cols } x.1 x.2 hx

theorem Made.plain {α : Type} {d : M α} (h : Made d) : d.Plain := by
  induction h with
  | part hd => exact plain_part hd
  | attempt _ ih => exact plain_attempt ih
  | ite _ _ ih ih' => exact plain_ite ih ih'
  | bind _ _ ih ihf => exact plain_bind ih ihf

theorem netbiosSession_made (payload : Bytes) : Made (netbiosSession payload) :=
  .bind (.attempt (.part (AppMisc.nbss_built payload))) fun _ => .part (AppSmb.parse_built payload)

theorem httpPort_made (payload : Bytes) : Made (httpPort payload) :=
  .ite (.part (AppHttp.parseH2_built payload)) (.part (AppHttp.parse_built payload))

/-- One signature, and then the others. -/
theorem made_signature {p : Prop} [Decidable p] {d : M Unit} {others : Option (M Unit)}
    (hd : Made d) (hothers : ∀ x, others = some x → Made x) :
    ∀ x, (if p then some d else others) = some x → Made x := by
  intro x hx
  split at hx
  · cases hx
    exact hd
  · exact hothers x hx

/-- One attempt does not look at the stack below, and cuts its own layers back. -/
theorem tryDissector_framed {d : Option (M Unit)} (h : ∀ x, d = some x → Made x)
    (below : List Layer) (s : Sink AppCols) :
    tryDissector d (onTop below s) = (tryDissector d s).map fun r => (r.1, onTop below r.2) := by
  cases d with
  | none => rfl
  | some d =>
      rw [tryDissector, tryDissector, (h d rfl).framed below s]
      rcases d.exec s with p | ⟨e | u, s'⟩
      · rfl
      · simp only [Except.map, onTop, List.length_append, List.take_length_add_append]
      · rfl

theorem orElse_framed {d : Option (M Unit)} (h : ∀ x, d = some x → Made x) (below : List Layer)
    (r : Except Panic (Bool × Sink AppCols)) :
    orElse (r.map fun r => (r.1, onTop below r.2)) d =
      (orElse r d).map fun r => (r.1, onTop below r.2) := by
  rcases r with p | ⟨_ | _, s⟩
  · rfl
  · exact tryDissector_framed h below s
  · rfl

section Tables

variable [Hashes]

theorem byTcpPort_made {payload : Bytes} {port : UInt16} {server : Bool} {d : M Unit}
    (h : byTcpPort payload port server = some d) : Made d := by
  unfold byTcpPort at h
  split at h <;> cases h
  all_goals first
    | exact httpPort_made payload
    | exact netbiosSession_made payload
    | refine .part ?_
  all_goals with_reducible first
    | exact AppText.ftp_built _ | exact AppText.telnet_built _ | exact AppText.smtp_built _
    | exact AppText.pop3_built _ | exact AppText.imap_built _ | exact AppText.vnc_built _
    | exact AppText.irc_built _ | exact AppSsh.parse_built _ _ | exact AppDns.parseTcp_built _
    | exact AppDns.parse_built _ _ _ _ | exact AppDirectory.kerberos_built _ _
    | exact AppDirectory.ldap_built _ | exact AppTls.parse_built _ _ | exact AppSmb.parse_built _
    | exact AppIcs.s7comm_built _ | exact AppIcs.modbus_built _ | exact AppIcs.iec104_built _
    | exact AppIcs.dnp3_built _ | exact AppIcs.enip_built _ | exact AppMisc.mqtt_built _
    | exact AppMisc.rdp_built _ | exact AppSip.parse_built _

theorem byUdpPort_made {payload : Bytes} {port : UInt16} {d : M Unit}
    (h : byUdpPort payload port = some d) : Made d := by
  unfold byUdpPort at h
  split at h <;> cases h
  all_goals refine .part ?_
  all_goals with_reducible first
    | exact AppDns.parse_built _ _ _ _ | exact AppDhcp.parse_built _ | exact AppDhcp.parseV6_built _
    | exact AppMisc.tftp_built _ | exact AppDirectory.kerberos_built _ _ | exact AppMisc.ntp_built _
    | exact AppMisc.nbns_built _ | exact AppMisc.snmp_built _ | exact AppTls.parse_built _ _
    | exact AppQuic.parse_built _ | exact AppMisc.ike_built _ | exact AppText.syslog_built _
    | exact AppMisc.radius_built _ | exact AppSip.parse_built _ | exact AppIcs.bacnet_built _
    | exact AppMisc.wireguard_built _

theorem byPort_made {payload : Bytes} {port : UInt16} {isTcp portIsSource : Bool} {d : M Unit}
    (h : byPort payload port isTcp portIsSource = some d) : Made d := by
  unfold byPort at h
  cases isTcp with
  | true => exact byTcpPort_made h
  | false => exact byUdpPort_made h

theorem sniff_made {payload : Bytes} {isTcp : Bool} :
    ∀ d, sniff payload isTcp = some d → Made d := by
  unfold sniff
  by_cases hp : payload = []
  · rw [if_pos hp]
    intro d hd
    cases hd
  rw [if_neg hp]
  -- the signatures in their order
  refine made_signature (.part (AppHttp.parseH2_built payload)) ?_
  refine made_signature (.part (AppHttp.parse_built payload)) ?_
  refine made_signature (.part (AppTls.parse_built payload false)) ?_
  refine made_signature (.part (AppTls.parse_built payload true)) ?_
  refine made_signature (.part (AppSsh.parse_built payload false)) ?_
  refine made_signature (.part (AppSip.parse_built payload)) ?_
  refine made_signature (.part (AppSmb.parse_built payload)) ?_
  refine made_signature (.part (AppText.vnc_built payload)) ?_
  refine made_signature (.part (AppIcs.dnp3_built payload)) ?_
  refine made_signature (.part (AppQuic.parse_built payload)) ?_
  refine made_signature (.part (AppMisc.rtcp_built payload)) ?_
  refine made_signature (.part (AppMisc.rtp_built payload)) ?_
  intro d hd
  cases hd

/-- The dissector of the source port is tried when it is another one. -/
theorem bySourcePort_made {payload : Bytes} {sport dport : UInt16} {isTcp : Bool} {d : M Unit}
    (h : (if sport = dport then none else byPort payload sport isTcp true) = some d) : Made d := by
  split at h
  · cases h
  · exact byPort_made h

/-- **Application dispatch does not look at the stack below.** -/
theorem identify_framed (payload : Bytes) (sport dport : UInt16) (isTcp : Bool)
    (below : List Layer) (s : Sink AppCols) :
    identify payload sport dport isTcp (onTop below s) =
      (identify payload sport dport isTcp s).map (onTop below) := by
  unfold identify
  dsimp only
  rw [tryDissector_framed (fun _ => byPort_made), orElse_framed (fun _ => bySourcePort_made),
    orElse_framed sniff_made]
  generalize orElse _ (sniff payload isTcp) = r
  rcases r with p | r <;> rfl

end Tables

/-- One attempt leaves the tunnels on the stack as they are, also when its layers come off again. -/
theorem tryDissector_tunnels {d : Option (M Unit)} (h : ∀ x, d = some x → Made x)
    {s s' : Sink AppCols} {b : Bool} (ht : tryDissector d s = .ok (b, s')) :
    s'.stack.countP Layer.isTunnel = s.stack.countP Layer.isTunnel := by
  cases d with
  | none => cases ht; rfl
  | some d =>
      rw [tryDissector] at ht
      rcases hx : d.exec s with p | ⟨e | u, s₁⟩
      · rw [hx] at ht
        cases ht
      · -- what comes off was pushed on top of the stack
        have hframed := (h d rfl).framed s.stack { s with stack := [] }
        rw [onTop, List.append_nil, hx] at hframed
        obtain ⟨r, -, hr⟩ := map_eq_ok_iff.mp hframed.symm
        have hstack : s₁.stack = s.stack ++ r.2.stack :=
          (congrArg (fun x => x.2.stack) hr).symm
        rw [hx] at ht
        cases ht
        dsimp only
        rw [hstack, List.take_left']
        rfl
      · rw [hx] at ht
        cases ht
        exact (h d rfl).plain s _ _ hx

theorem orElse_tunnels {d : Option (M Unit)} (h : ∀ x, d = some x → Made x) {n : ℕ}
    {r : Except Panic (Bool × Sink AppCols)}
    (hr : ∀ b s, r = .ok (b, s) → s.stack.countP Layer.isTunnel = n) :
    ∀ b s, orElse r d = .ok (b, s) → s.stack.countP Layer.isTunnel = n := by
  intro b s' ho
  rcases r with p | ⟨_ | _, s⟩
  · cases ho
  · exact (tryDissector_tunnels h ho).trans (hr false s rfl)
  · cases ho
    exact hr true _ rfl

/-- **Application dispatch pushes no tunnel layer.** -/
theorem identify_tunnels [Hashes] {payload : Bytes} {sport dport : UInt16} {isTcp : Bool}
    {s s' : Sink AppCols} (h : identify payload sport dport isTcp s = .ok s') :
    s'.stack.countP Layer.isTunnel = s.stack.countP Layer.isTunnel := by
  unfold identify at h
  obtain ⟨⟨b, t⟩, hr, he⟩ := map_eq_ok_iff.mp h
  cases he
  have hfirst : ∀ b t, tryDissector (byPort payload dport isTcp false) s = .ok (b, t) →
      t.stack.countP Layer.isTunnel = s.stack.countP Layer.isTunnel :=
    fun _ _ he => tryDissector_tunnels (fun _ => byPort_made) he
  exact orElse_tunnels sniff_made (orElse_tunnels (fun _ => bySourcePort_made) hfirst) b t hr

end App

end PcapRacer
