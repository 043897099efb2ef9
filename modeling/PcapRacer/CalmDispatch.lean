/-
**When dispatch is calm.**

A payload goes to the dissector of its destination port, to that of its source port, and to the one
that its content suggests.  It is harmless when the texts that these three would shorten can be
shortened.

Main definitions:

* `App.PlainTcpPort`, `App.PlainUdpPort`, `App.PlainContent` — what each dissector asks of a payload;
* `App.Harmless` — the payload is what all its dissectors ask for.

Main results:

* `App.identify_of_harmless` — **a harmless payload is dispatched without a panic**.
-/

import PcapRacer.AppDispatch
import PcapRacer.CalmDirectory
import PcapRacer.CalmFields
import PcapRacer.CalmLines
import PcapRacer.HttpHost

set_option relaxedAutoImplicit false
set_option autoImplicit false

namespace PcapRacer

namespace App

/-! ### What the dissectors ask for -/

/-- HTTP/2 shortens nothing that is too long. -/
def PlainHttp (payload : Bytes) : Prop :=
  AppHttp.looksLikeHttp2 payload = true ∨ AppHttp.PlainHead payload

/-- What the registered TCP protocol of a port asks of a payload. -/
def PlainTcpPort (payload : Bytes) (port : UInt16) : Prop :=
  match port.toNat with
  | 20 | 21 => AppText.PlainLine payload
  | 22 => AppSsh.PlainNames payload
  | 25 | 587 | 465 => AppText.PlainMail payload
  | 53 => AppDns.PlainTexts (AppDns.tcpMessage payload)
  | 5355 => AppDns.PlainTexts payload
  | 80 | 8080 | 8000 | 8888 | 3128 => PlainHttp payload
  | 88 => AppDirectory.PlainKerberos payload true
  | 110 => AppText.PlainLine payload
  | 139 => AppSmb.PlainNames payload
  | 143 | 993 => AppText.PlainLine payload
  | 389 | 3268 => AppDirectory.PlainLdap payload
  | 443 | 8443 => AppTls.PlainRecords payload false
  | 445 => AppSmb.PlainNames payload
  | 1883 | 8883 => AppMisc.PlainMqtt payload
  | 3389 => AppMisc.PlainCookie payload
  | 5060 | 5061 => AppSip.PlainMessage payload
  | 5900 | 5901 => AppText.PlainLine payload
  | 6660 | 6661 | 6662 | 6663 | 6664 | 6665 | 6666 | 6667 | 6668 | 6669 | 6697 =>
      AppText.PlainLine payload
  -- the others shorten nothing
  | _ => True

/-- What the registered UDP protocol of a port asks of a payload. -/
def PlainUdpPort (payload : Bytes) (port : UInt16) : Prop :=
  match port.toNat with
  | 53 | 5353 | 5355 => AppDns.PlainTexts payload
  | 67 | 68 => AppDhcp.PlainOptions payload
  | 69 => AppMisc.PlainFile payload
  | 88 => AppDirectory.PlainKerberos payload false
  | 161 | 162 => AppMisc.PlainCommunity payload
  | 993 => AppTls.PlainRecords payload false
  | 514 => AppText.PlainLine payload
  | 1812 | 1813 | 1645 | 1646 => AppMisc.PlainAttributes payload
  | 5060 | 5061 => AppSip.PlainMessage payload
  | _ => True

def PlainPort (payload : Bytes) (port : UInt16) (isTcp : Bool) : Prop :=
  if isTcp then PlainTcpPort payload port else PlainUdpPort payload port

/-- What the protocols that a content suggests ask of it. -/
structure PlainContent (payload : Bytes) : Prop where
  http : AppHttp.looksLikeHttp payload = true → PlainHttp payload
  tls : AppTls.looksLikeTls payload = true → AppTls.PlainRecords payload false
  dtls : AppTls.looksLikeDtls payload = true → AppTls.PlainRecords payload true
  ssh : AppSsh.looksLikeSsh payload = true → AppSsh.PlainNames payload
  sip : AppSip.looksLikeSip payload = true → AppSip.PlainMessage payload
  smb : AppSmb.looksLikeSmb payload = true → AppSmb.PlainNames payload
  vnc : AppText.looksLikeVnc payload = true → AppText.PlainLine payload

/-- The payload is what all its dissectors ask for. -/
structure Harmless (payload : Bytes) (sport dport : UInt16) (isTcp : Bool) : Prop where
  destination : PlainPort payload dport isTcp
  source : PlainPort payload sport isTcp
  content : PlainContent payload

/-! ### The dissectors -/

section Parts

variable {payload : Bytes}

theorem part_calm {C : Type} {get : AppCols → C} {set : C → AppCols → AppCols}
    {d : Dissect (Sink C) Unit} (h : d.Calm) : (part get set d).Calm := calm_zoom h

theorem httpPort_calm (h : PlainHttp payload) : (httpPort payload).Calm := by
  refine calm_ite (fun _ => part_calm (AppHttp.calm_parseH2 payload)) fun hnot => ?_
  exact part_calm (AppHttp.calm_parse (h.resolve_left hnot))

theorem netbiosSession_calm (h : AppSmb.PlainNames payload) : (netbiosSession payload).Calm :=
  calm_bind (calm_attempt (part_calm (AppMisc.calm_nbss payload))) fun _ =>
    part_calm (AppSmb.calm_parse h)

/-- One signature, and then the others. -/
theorem signature_calm {p : Prop} [Decidable p] {d : M Unit} {others : Option (M Unit)}
    (h : p → d.Calm) (hothers : ∀ x, others = some x → x.Calm) :
    ∀ x, (if p then some d else others) = some x → x.Calm := by
  intro x hx
  split at hx
  · next hp =>
      cases hx
      exact h hp
  · exact hothers x hx

end Parts

section Dispatch

variable [Hashes] {payload : Bytes}

theorem byTcpPort_calm {port : UInt16} {server : Bool} {d : M Unit}
    (h : byTcpPort payload port server = some d) (hplain : PlainTcpPort payload port) :
    d.Calm := by
  unfold byTcpPort at h
  unfold PlainTcpPort at hplain
  -- one case for each registered port
  split at h <;> cases h <;> simp only [*] at hplain
  all_goals first
    | with_reducible exact httpPort_calm hplain
    | with_reducible exact netbiosSession_calm hplain
    | refine part_calm ?_
  all_goals with_reducible first
    | exact AppText.calm_ftp hplain
    | exact AppText.calm_smtp hplain
    | exact AppText.calm_pop3 hplain
    | exact AppText.calm_imap hplain
    | exact AppText.calm_vnc hplain
    | exact AppText.calm_irc hplain
    | exact AppText.calm_telnet payload
    | exact AppSsh.calm_parse hplain server
    | exact AppDns.calm_parseTcp hplain
    | exact AppDns.calm_parse hplain false true false
    | exact AppDirectory.calm_kerberos hplain
    | exact AppDirectory.calm_ldap_of_plain hplain
    | exact AppTls.calm_parse hplain
    | exact AppSmb.calm_parse hplain
    | exact AppMisc.calm_mqtt hplain
    | exact AppMisc.calm_rdp hplain
    | exact AppSip.calm_parse hplain
    | exact AppIcs.calm_s7comm payload
    | exact AppIcs.calm_modbus payload
    | exact AppIcs.calm_iec104 payload
    | exact AppIcs.calm_dnp3 payload
    | exact AppIcs.calm_enip payload

theorem byUdpPort_calm {port : UInt16} {d : M Unit} (h : byUdpPort payload port = some d)
    (hplain : PlainUdpPort payload port) : d.Calm := by
  unfold byUdpPort at h
  unfold PlainUdpPort at hplain
  split at h <;> cases h <;> simp only [*] at hplain
  all_goals refine part_calm ?_
  all_goals with_reducible first
    | exact AppDns.calm_parse hplain _ _ _
    | exact AppDhcp.calm_parse hplain
    | exact AppDhcp.calm_parseV6 payload
    | exact AppMisc.calm_tftp hplain
    | exact AppDirectory.calm_kerberos hplain
    | exact AppMisc.calm_ntp payload
    | exact AppMisc.calm_nbns payload
    | exact AppMisc.calm_snmp hplain
    | exact AppTls.calm_parse hplain
    | exact AppQuic.calm_parse payload
    | exact AppMisc.calm_ike payload
    | exact AppText.calm_syslog hplain
    | exact AppMisc.calm_radius hplain
    | exact AppSip.calm_parse hplain
    | exact AppIcs.calm_bacnet payload
    | exact AppMisc.calm_wireguard payload

theorem byPort_calm {port : UInt16} {isTcp server : Bool} {d : M Unit}
    (h : byPort payload port isTcp server = some d) (hplain : PlainPort payload port isTcp) :
    d.Calm := by
  unfold byPort at h
  unfold PlainPort at hplain
  cases isTcp with
  | true => exact byTcpPort_calm h hplain
  | false => exact byUdpPort_calm h hplain

theorem sniff_calm {isTcp : Bool} (h : PlainContent payload) :
    ∀ d, sniff payload isTcp = some d → d.Calm := by
  have hnone : ∀ d : M Unit, none = some d → d.Calm := fun _ hd => by cases hd
  unfold sniff
  by_cases hp : payload = []
  · rw [if_pos hp]
    exact hnone
  rw [if_neg hp]
  by_cases h2 : AppHttp.looksLikeHttp2 payload = true
  · rw [if_pos h2]
    intro d hd
    cases hd
    exact part_calm (AppHttp.calm_parseH2 payload)
  rw [if_neg h2]
  refine signature_calm (fun hl => part_calm (AppHttp.calm_parse ((h.http hl).resolve_left h2))) ?_
  refine signature_calm (fun hl => part_calm (AppTls.calm_parse (h.tls hl))) ?_
  refine signature_calm (fun hl => part_calm (AppTls.calm_parse (h.dtls hl))) ?_
  refine signature_calm (fun hl => part_calm (AppSsh.calm_parse (h.ssh hl) false)) ?_
  refine signature_calm (fun hl => part_calm (AppSip.calm_parse (h.sip hl))) ?_
  refine signature_calm (fun hl => part_calm (AppSmb.calm_parse (h.smb hl))) ?_
  refine signature_calm (fun hl => part_calm (AppText.calm_vnc (h.vnc hl))) ?_
  refine signature_calm (fun _ => part_calm (AppIcs.calm_dnp3 payload)) ?_
  refine signature_calm (fun _ => part_calm (AppQuic.calm_parse payload)) ?_
  refine signature_calm (fun _ => part_calm (AppMisc.calm_rtcp payload)) ?_
  exact signature_calm (fun _ => part_calm (AppMisc.calm_rtp payload)) hnone

/-! ### The attempts -/

omit [Hashes] in
theorem tryDissector_of_calm {d : Option (M Unit)} (h : ∀ x, d = some x → x.Calm)
    (s : Sink AppCols) : ∃ r, tryDissector d s = .ok r := by
  cases d with
  | none => exact ⟨_, rfl⟩
  | some d =>
      rw [tryDissector]
      rcases hx : d.exec s with q | ⟨e | a, s'⟩
      · exact absurd hx (h d rfl s q)
      · exact ⟨_, rfl⟩
      · exact ⟨_, rfl⟩

omit [Hashes] in
theorem orElse_of_calm {r : Except Panic (Bool × Sink AppCols)} {d : Option (M Unit)}
    (hr : ∃ x, r = .ok x) (h : ∀ x, d = some x → x.Calm) : ∃ x, orElse r d = .ok x := by
  obtain ⟨⟨settled, s⟩, rfl⟩ := hr
  cases settled with
  | true => exact ⟨_, rfl⟩
  | false => exact tryDissector_of_calm h s

/-- **A harmless payload is dispatched without a panic.** -/
theorem identify_of_harmless {sport dport : UInt16} {isTcp : Bool}
    (h : Harmless payload sport dport isTcp) (s : Sink AppCols) :
    ∃ s', identify payload sport dport isTcp s = .ok s' := by
  have hfirst : ∃ r, tryDissector (byPort payload dport isTcp false) s = .ok r :=
    tryDissector_of_calm (fun d hd => byPort_calm hd h.destination) s
  have hsecond := orElse_of_calm (d := if sport = dport then none
    else byPort payload sport isTcp true) hfirst fun d hd => by
      split at hd
      · cases hd
      · exact byPort_calm hd h.source
  obtain ⟨r, hr⟩ := orElse_of_calm hsecond (sniff_calm h.content)
  exact ⟨r.2, by rw [identify, hr]; rfl⟩

end Dispatch

end App

end PcapRacer
