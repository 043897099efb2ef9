/-
**When the dissectors of directories and of small protocols are calm.**

LDAP, Kerberos and SNMP take texts out of BER elements, TFTP, RADIUS, MQTT and RDP out of fields of
their own.  Object identifiers and encryption types are ASCII whatever the bytes are; what is left
are the fields listed here.  NTP, NetBIOS, WireGuard, IKE, RTP and RTCP shorten nothing.

Main definitions:

* `AppDirectory.PlainLdap`, `AppDirectory.PlainKerberos` — names, filters and attributes;
* `AppMisc.PlainCommunity`, `AppMisc.PlainFile`, `AppMisc.PlainAttributes`, `AppMisc.PlainMqtt`,
  `AppMisc.PlainCookie` — the texts of SNMP, TFTP, RADIUS, MQTT and RDP.

Main results:

* `AppDirectory.calm_ldap_of_plain`, `AppDirectory.calm_kerberos`, `AppMisc.calm_snmp`, … —
  **messages with plain fields are dissected calmly**.
-/

import PcapRacer.AppIcs
import PcapRacer.AppMisc
import PcapRacer.AppQuic
import PcapRacer.LdapCalm
import PcapRacer.RadiusPackets

set_option relaxedAutoImplicit false
set_option autoImplicit false

namespace PcapRacer

namespace AppDirectory

/-! ### LDAP -/

/-- The cursor behind elements. -/
def behind : ℕ → Cur → Cur
  | 0, c => c
  | n + 1, c => behind n (Ber.read c).2

/-- The text of the element behind `n` others can be shortened. -/
def PlainText (n : ℕ) (o : Cur) (max : ℕ) : Prop :=
  ∀ t, (Ber.read (behind n o)).1 = .ok t → ∀ s, t.asStr = some s → s.Shortens max

/-- The names of attributes. -/
def attributeNames (attrs : Ber.Tlv) : Text :=
  Text.join [','] ((Ber.collect 3 attrs.val 32 (!·.constructed) []).filterMap Ber.Tlv.asStr)

/-- The texts of an operation can be shortened. -/
structure PlainOperation (op : Ber.Tlv) : Prop where
  name : op.tag.toNat ∈ [0, 1, 5, 7, 9, 11, 13, 15, 24] → PlainText 1 op.cur 512
  base : op.tag.toNat ∈ [3, 4] → PlainText 0 op.cur 512
  filter : op.tag.toNat = 3 → ∀ t, (Ber.read (behind 6 op.cur)).1 = .ok t →
    (renderFilter 6 t).Shortens 512
  attributes : op.tag.toNat = 3 → ∀ t, (Ber.read (behind 7 op.cur)).1 = .ok t →
    (attributeNames t).Shortens 512

/-- The operation of a message, if there is one. -/
def operationOf (payload : Bytes) : Except DissectError Ber.Tlv := do
  let msg ← (Ber.read (Cur.new payload)).1
  (Ber.read (Ber.read msg.cur).2).1

/-- The texts of the operation can be shortened. -/
def PlainLdap (payload : Bytes) : Prop := ∀ op, operationOf payload = .ok op → PlainOperation op

theorem calm_plainField {n max : ℕ} {o : Cur} (h : PlainText n o max) {t : Ber.Tlv}
    (ht : (Ber.read (behind n o)).1 = .ok t) :
    (liftM (fieldText t max) : M (Option Text)).Calm := calm_mapM_cap (h t ht)

theorem calm_plainOperation {op : Ber.Tlv} (h : PlainOperation op) : (operation op).Calm := by
  have hname : op.tag.toNat ∈ [0, 1, 5, 7, 9, 11, 13, 15, 24] → ∀ t : Ber.Tlv,
      (Ber.read (Ber.read op.cur).2).1 = .ok t →
        (liftM (fieldText t 512) : M (Option Text)).Calm :=
    fun htag t ht => calm_plainField (h.name htag) ht
  have hbase : op.tag.toNat ∈ [3, 4] → ∀ t : Ber.Tlv, (Ber.read op.cur).1 = .ok t →
      (liftM (fieldText t 512) : M (Option Text)).Calm :=
    fun htag t ht => calm_plainField (h.base htag) ht
  unfold operation
  dsimp only
  refine calm_ite (fun _ => calm_pure _) fun _ => calm_bind (calm_col _) fun _ => ?_
  refine calm_ite (fun htag => ?_) fun _ => calm_ite (fun htag => ?_) fun _ =>
    calm_ite (fun htag => ?_) fun _ => calm_ite (fun htag => ?_) fun _ => calm_pure _
  · have hdn := hname (by rw [htag]; decide)
    unfold ldapBind
    dsimp only
    refine calm_bind (calm_liftError _) fun _ => ?_
    repeat' with_reducible first
      | intro _ | exact calm_pure _ | exact calm_col _ | exact hdn _ ‹_› | apply calm_bind
      | apply calm_ite | split
  · have hdn := hbase (by rw [htag]; decide)
    have hfilter := h.filter htag
    have hattributes := h.attributes htag
    unfold attributeNames at hattributes
    unfold ldapSearch
    dsimp only
    repeat' with_reducible first
      | intro _ | exact calm_pure _ | exact calm_col _ | exact hdn _ ‹_›
      | apply calm_bind | apply calm_ite | split
    all_goals first
      | exact calm_shorten (hfilter _ ‹_›)
      | exact calm_shorten (hattributes _ ‹_›)
  · have hdn : ∀ {t : Ber.Tlv}, (Ber.read (Ber.read op.cur).2).1 = .ok t → ∀ {s : Text},
        t.asStr = some s → (liftM (cap s 512) : M Text).Calm :=
      fun ht s hs => calm_shorten (h.name (List.mem_cons_of_mem _ htag) _ ht _ hs)
    unfold ldapResult
    dsimp only
    repeat' with_reducible first
      | intro _ | exact calm_pure _ | exact calm_col _ | exact hdn ‹_› ‹_› | apply calm_bind
      | split
  · have hdn := hbase (by rw [htag]; decide)
    repeat' with_reducible first
      | intro _ | exact calm_pure _ | exact calm_col _ | exact hdn _ ‹_› | apply calm_bind | split

/-- **Plain LDAP messages are dissected calmly.** -/
theorem calm_ldap_of_plain {payload : Bytes} (h : PlainLdap payload) : (ldap payload).Calm := by
  refine calm_bind (calm_layer _) fun _ => calm_read fun msg hmsg => ?_
  refine calm_ite (fun _ => calm_bind (calm_giveUp _) fun _ => ?_) fun _ => ?_
  all_goals
    refine calm_read fun id _ => calm_bind (calm_col _) fun _ => calm_read fun op hop => ?_
    exact calm_plainOperation (h op ((bind_of_ok hmsg _).trans hop))

/-! ### Kerberos -/

/-- The fields of a message, if there are any. -/
def kerberosFields (payload : Bytes) (overTcp : Bool) : Except DissectError Ber.Tlv := do
  let body ← kerberosBody payload overTcp
  let msg ← (Ber.read (Cur.new body)).1
  (Ber.read msg.cur).1

/-- The realm and the principals can be shortened. -/
def PlainKerberos (payload : Bytes) (overTcp : Bool) : Prop :=
  ∀ seq, kerberosFields payload overTcp = .ok seq →
    (∀ field ∈ readAll seq.val.length seq.cur, field.cls = Ber.classContext →
      field.tag = krbTagRealm → PlainText 0 field.cur 256) ∧
    ∀ name ∈ principals
      (Ber.collect 8 seq.val 64 (·.is Ber.classUniversal Ber.tagSequence) []), name.Shortens 256

theorem isAscii_signedDecimal (v : Int) : Text.IsAscii (signedDecimal v) := by
  unfold signedDecimal
  split
  · intro c hc
    rcases List.mem_cons.mp hc with rfl | hc
    · decide
    · exact Text.isAscii_decimal _ c hc
  · exact Text.isAscii_decimal _

theorem isAscii_etypeList {s : Ber.Tlv} {ints : List Text} (h : etypeList s = some ints) :
    ∀ t ∈ ints, Text.IsAscii t := by
  unfold etypeList at h
  dsimp only at h
  split at h
  · split at h
    · cases h
      intro t ht
      obtain ⟨e, -, he⟩ := List.mem_filterMap.mp ht
      obtain ⟨v, -, rfl⟩ := Option.map_eq_some_iff.mp he
      exact isAscii_signedDecimal _
    · cases h
  · cases h

theorem calm_krbField {field : Ber.Tlv} (h : field.cls = Ber.classContext →
    field.tag = krbTagRealm → PlainText 0 field.cur 256) : (krbField field).Calm := by
  refine calm_ite (fun hcls => ?_) fun _ => calm_pure _
  split
  · next inner hinner =>
      have hrealm : field.tag = krbTagRealm →
          (liftM (fieldText inner 256) : M (Option Text)).Calm :=
        fun htag => calm_plainField (h hcls htag) hinner
      refine calm_bind calm_cols fun c => calm_ite (fun hp => ?_) fun _ => calm_pure _
      exact calm_bind (hrealm hp.1) fun _ => calm_col _
  · exact calm_pure _

theorem calm_collectPrincipals {data : Bytes} (h : ∀ name ∈ principals
    (Ber.collect 8 data 64 (·.is Ber.classUniversal Ber.tagSequence) []), name.Shortens 256) :
    (collectPrincipals data).Calm := by
  have hname : ∀ {i : ℕ} {name : Text}, (principals
      (Ber.collect 8 data 64 (·.is Ber.classUniversal Ber.tagSequence) []))[i]? = some name →
        (liftM (cap name 256) : M Text).Calm :=
    fun hi => calm_shorten (h _ (List.mem_of_getElem? hi))
  have hetypes : ∀ {ints : List Text}, (Ber.collect 8 data 64
      (·.is Ber.classUniversal Ber.tagSequence) []).findSome? etypeList = some ints →
        (liftM (cap (Text.join [','] ints) 128) : M Text).Calm := by
    intro ints hints
    obtain ⟨s, -, hs⟩ := List.exists_of_findSome?_eq_some hints
    exact calm_shorten ((Text.isAscii_join (Text.isAscii_singleton rfl)
      (isAscii_etypeList hs)).shortens 128)
  unfold collectPrincipals
  dsimp only
  repeat' with_reducible first
    | intro _ | exact calm_pure _ | exact calm_col _ | exact hname ‹_› | exact hetypes ‹_›
    | apply calm_bind | split

/-- **Plain Kerberos messages are dissected calmly.** -/
theorem calm_kerberos {payload : Bytes} {overTcp : Bool} (h : PlainKerberos payload overTcp) :
    (kerberos payload overTcp).Calm := by
  refine calm_bind (calm_layer _) fun _ => calm_read fun body hbody => calm_read fun msg hmsg => ?_
  refine calm_ite (fun _ => calm_bind (calm_giveUp _) fun _ => ?_) fun _ => ?_
  all_goals
    refine calm_bind (calm_col _) fun _ => ?_
    split
    · exact calm_pure _
    · next seq hseq =>
        obtain ⟨hrealm, hnames⟩ := h seq ((bind_of_ok hbody _).trans ((bind_of_ok hmsg _).trans hseq))
        refine calm_ite (fun _ => ?_) fun _ => calm_pure _
        refine calm_bind (calm_forM fun field hf => calm_krbField (hrealm field hf)) fun _ => ?_
        refine calm_bind (calm_collectPrincipals hnames) fun _ => ?_
        exact calm_ite (fun _ => calm_col _) fun _ => calm_pure _

end AppDirectory

namespace AppMisc

/-! ### SNMP -/

theorem isAscii_subIdentifiers {b : Bytes} {acc : UInt64} {pending : Bool} {parts : List Text}
    (h : Ber.Tlv.subIdentifiers b acc pending = some parts) : ∀ t ∈ parts, Text.IsAscii t := by
  induction b generalizing acc pending parts with
  | nil =>
      rw [Ber.Tlv.subIdentifiers] at h
      split at h
      · cases h
      · cases h
        exact fun _ ht => absurd ht List.not_mem_nil
  | cons x b ih =>
      rw [Ber.Tlv.subIdentifiers] at h
      split at h
      · obtain ⟨rest, hrest, rfl⟩ := Option.map_eq_some_iff.mp h
        intro t ht
        rcases List.mem_cons.mp ht with rfl | ht
        · exact Text.isAscii_decimal _
        · exact ih hrest t ht
      · exact ih h

theorem isAscii_asOid {t : Ber.Tlv} {s : Text} (h : t.asOid = some s) : Text.IsAscii s := by
  unfold Ber.Tlv.asOid at h
  split at h
  · cases h
  · obtain ⟨parts, hparts, rfl⟩ := Option.map_eq_some_iff.mp h
    refine Text.isAscii_join (Text.isAscii_singleton rfl) fun p hp => ?_
    rcases List.mem_cons.mp hp with rfl | hp
    · exact Text.isAscii_decimal _
    · rcases List.mem_cons.mp hp with rfl | hp
      · exact Text.isAscii_decimal _
      · exact isAscii_subIdentifiers hparts p hp

theorem calm_snmpPdu (pdu : Ber.Tlv) : (snmpPdu pdu).Calm := by
  have hoids : (Text.join [','] ((Ber.collect 6 pdu.val 32
      (·.is Ber.classUniversal Ber.tagOid) []).filterMap Ber.Tlv.asOid)).Shortens 1024 := by
    refine (Text.isAscii_join (Text.isAscii_singleton rfl) fun p hp => ?_).shortens 1024
    obtain ⟨t, -, ht⟩ := List.mem_filterMap.mp hp
    exact isAscii_asOid ht
  unfold snmpPdu
  dsimp only
  repeat' with_reducible first
    | intro _ | exact calm_pure _ | exact calm_col _ | exact calm_shorten hoids | apply calm_bind
    | apply calm_ite | split

/-- The community string of a message, if there is one. -/
def communityOf (payload : Bytes) : Except DissectError Ber.Tlv := do
  let seq ← (Ber.read (Cur.new payload)).1
  (Ber.read (Ber.read seq.cur).2).1

/-- The community string can be shortened. -/
def PlainCommunity (payload : Bytes) : Prop :=
  ∀ t, communityOf payload = .ok t → ∀ s, t.asStr = some s → s.Shortens 256

theorem calm_snmp {payload : Bytes} (h : PlainCommunity payload) : (snmp payload).Calm := by
  refine calm_bind (calm_layer _) fun _ => calm_read fun seq hseq => ?_
  refine calm_ite (fun _ => calm_bind (calm_giveUp _) fun _ => ?_) fun _ => ?_
  all_goals
    refine calm_read fun version _ => calm_bind (calm_col _) fun _ => ?_
    refine calm_ite (fun _ => calm_pure _) fun _ => calm_read fun community hcommunity => ?_
    refine calm_bind (calm_mapM fun s hs => calm_shorten
      (h community ((bind_of_ok hseq _).trans hcommunity) s hs)) fun _ => ?_
    refine calm_bind (calm_col _) fun _ => calm_read fun pdu _ => ?_
    exact calm_ite (fun _ => calm_pure _) fun _ => calm_snmpPdu pdu

/-! ### TFTP -/

/-- The file name can be shortened. -/
def PlainFile (payload : Bytes) : Prop :=
  ∀ s, (splitNul (payload.drop 2))[0]?.bind asciiString = some s → s.Shortens 512

theorem calm_tftp {payload : Bytes} (h : PlainFile payload) : (tftp payload).Calm := by
  refine calm_bind (calm_layer _) fun _ => calm_read fun r hr => calm_bind (calm_col _) fun _ => ?_
  refine calm_ite (fun _ => ?_) fun _ => calm_pure _
  have hrest : r.2.rest = payload.drop 2 := Cur.drop_of_read hr
  dsimp only
  rw [hrest]
  exact calm_bind (calm_mapM fun s hs => calm_shorten (h s hs)) fun _ => calm_col _

/-! ### RADIUS -/

/-- The attributes of a packet, as many as are read. -/
def attributesOf (payload : Bytes) : List RadiusAttribute :=
  RadiusAttribute.layout.walk 128
    ((payload.drop 20).take ((beNat ((payload.drop 2).take 2)) - 20))

/-- The texts of the attributes can be shortened. -/
def PlainAttributes (payload : Bytes) : Prop :=
  ∀ a ∈ attributesOf payload, ∀ n ∈ [1, 30, 31], ∀ s, a.text? n = some (some s) → s.Shortens 256

theorem calm_radiusAttribute {a : RadiusAttribute}
    (h : ∀ n ∈ [1, 30, 31], ∀ s, a.text? n = some (some s) → s.Shortens 256) :
    (radiusAttribute a.type a.value).Calm := by
  have htext : ∀ n ∈ [1, 30, 31], a.type.toNat = n →
      (liftM (fieldText a.value 256) : M (Option Text)).Calm := fun n hn htype =>
    calm_mapM_cap fun s hs => h n hn s (by rw [RadiusAttribute.text?, if_pos htype, hs])
  have huser := htext 1 (by decide)
  have hcalled := htext 30 (by decide)
  have hcalling := htext 31 (by decide)
  unfold radiusAttribute
  split
  all_goals
    repeat' with_reducible first
      | intro _ | exact calm_pure _ | exact calm_col _ | exact huser ‹_› | exact hcalled ‹_›
      | exact hcalling ‹_› | apply calm_bind | apply calm_ite

theorem calm_radius {payload : Bytes} (h : PlainAttributes payload) : (radius payload).Calm := by
  refine calm_bind (calm_layer _) fun _ => calm_read fun r₁ h₁ => calm_bind (calm_col _) fun _ => ?_
  refine calm_read fun r₂ h₂ => calm_bind (calm_col _) fun _ => calm_read fun r₃ h₃ => ?_
  refine calm_read fun c₄ h₄ => calm_read fun r₅ h₅ => ?_
  have hstart : r₂.2.rest = payload.drop 2 := by
    rw [Cur.drop_of_u8 h₂, Cur.drop_of_u8 h₁, List.drop_drop]
    rfl
  have hlen : r₃.1.toNat = beNat ((payload.drop 2).take 2) := by
    have hlt := beNat_lt ((payload.drop 2).take 2)
    have htwo := Nat.pow_le_pow_right (n := 256) (by decide)
      (List.length_take_le 2 (payload.drop 2))
    rw [Cur.value_of_read h₃, hstart]
    exact UInt16.toNat_ofNat_of_lt' (hlt.trans_le htwo)
  have hbody : r₅.1 = (payload.drop 20).take (beNat ((payload.drop 2).take 2) - 20) := by
    have hrest : c₄.rest = payload.drop 20 := by
      rw [Cur.drop_of_skip h₄, Cur.drop_of_read h₃, hstart]
      simp only [List.drop_drop]
    have htake : r₅.1 = c₄.rest.take (min (r₃.1.toNat - 20) c₄.remaining) :=
      (Prod.ext_iff.mp (Cur.take_eq_ok_iff.mp h₅).2).1
    rw [htake, ← Cur.length_rest, hrest, hlen]
    exact List.take_eq_take_iff.mpr (by omega)
  intro s q hq
  rw [exec_radiusAttributes, show (Cur.new r₅.1).rest = r₅.1 from rfl, hbody] at hq
  exact calm_forM (fun a ha => calm_radiusAttribute (h a ha)) s q hq

/-! ### MQTT -/

/-- The client identifier and the flags of a CONNECT packet, and what stands behind them. -/
def clientOf (c : Cur) : Except DissectError (UInt8 × Bytes × Cur) := do
  let (nameLen, c) ← c.be16
  let c ← c.skip nameLen.toNat
  let (_, c) ← c.u8
  let (flags, c) ← c.u8
  let (_, c) ← c.be16
  let (idLen, c) ← c.be16
  let (id, c) ← c.take idLen.toNat
  pure (flags, id, c)

/-- The will of a client. -/
def skipWill (flags : UInt8) (c : Cur) : Except DissectError Cur :=
  if flags &&& 0x04 ≠ 0 then do
    let (topicLen, c) ← c.be16
    let c ← c.skip topicLen.toNat
    let (messageLen, c) ← c.be16
    c.skip messageLen.toNat
  else pure c

/-- A string with a length prefix. -/
def prefixed (c : Cur) : Except DissectError Bytes := do
  let (len, c) ← c.be16
  let (b, _) ← c.take len.toNat
  pure b

/-- The bytes are shown as a text that can be shortened. -/
def PlainString (b : Bytes) (max : ℕ) : Prop := ∀ s, asciiString b = some s → s.Shortens max

/-- The client identifier and the user name can be shortened. -/
def PlainConnect (c : Cur) : Prop :=
  ∀ flags id c', clientOf c = .ok (flags, id, c') → PlainString id 256 ∧
    ∀ c'' user, skipWill flags c' = .ok c'' → prefixed c'' = .ok user → PlainString user 256

/-- What stands behind the remaining length. -/
def mqttBody (payload : Bytes) : Except DissectError Cur := do
  let (_, c) ← (Cur.new payload).u8
  let (_, c) ← mqttLength 4 0 0 c
  pure c

/-- The texts of a CONNECT or a PUBLISH packet can be shortened. -/
def PlainMqtt (payload : Bytes) : Prop :=
  ∀ c, mqttBody payload = .ok c →
    PlainConnect c ∧ ∀ topic, prefixed c = .ok topic → PlainString topic 512

theorem calm_mqttConnect {c : Cur} (h : PlainConnect c) : (mqttConnect c).Calm := by
  refine calm_read fun r₁ h₁ => calm_read fun c₂ h₂ => calm_read fun r₃ h₃ => ?_
  refine calm_read fun r₄ h₄ => calm_read fun r₅ h₅ => calm_read fun r₆ h₆ => ?_
  refine calm_read fun r₇ h₇ => ?_
  obtain ⟨hid, huser⟩ := h r₄.1 r₇.1 r₇.2 <|
    (bind_of_ok h₁ _).trans <| (bind_of_ok h₂ _).trans <| (bind_of_ok h₃ _).trans <|
      (bind_of_ok h₄ _).trans <| (bind_of_ok h₅ _).trans <| (bind_of_ok h₆ _).trans <|
      bind_of_ok h₇ _
  refine calm_bind (calm_mapM_cap hid) fun _ => calm_bind (calm_col _) fun _ => ?_
  have hrest : ∀ c₈ : Cur, skipWill r₄.1 r₇.2 = .ok c₈ → Dissect.Calm (do
      if r₄.1 &&& 0x80 ≠ 0 then
        let (userLen, c) ← (liftM c₈.be16 : M (UInt16 × Cur))
        let (user, _) ← c.take userLen.toNat
        let user ← fieldText user 256
        col fun s => { s with mqttUsername := user }) := by
    refine fun c₈ h₈ => calm_ite (fun _ => ?_) fun _ => calm_pure _
    refine calm_read fun r₉ h₉ => calm_read fun r₁₀ h₁₀ => ?_
    refine calm_bind (calm_mapM_cap (huser c₈ r₁₀.1 h₈ ?_)) fun _ => calm_col _
    exact (bind_of_ok h₉ _).trans (bind_of_ok h₁₀ _)
  refine calm_ite (fun hwill => ?_) fun hwill => hrest _ (if_neg hwill)
  refine calm_read fun r₈ h₈ => calm_read fun c₉ h₉ => calm_read fun r₁₀ h₁₀ => ?_
  refine calm_read fun c₁₁ h₁₁ => hrest _ ((if_pos hwill).trans ?_)
  exact (bind_of_ok h₈ _).trans <| (bind_of_ok h₉ _).trans <| (bind_of_ok h₁₀ _).trans h₁₁

theorem calm_mqtt {payload : Bytes} (h : PlainMqtt payload) : (mqtt payload).Calm := by
  refine calm_bind (calm_layer _) fun _ => calm_read fun r₁ h₁ => ?_
  refine calm_bind (calm_col _) fun _ => calm_read fun r₂ h₂ => calm_bind (calm_col _) fun _ => ?_
  obtain ⟨hconnect, htopic⟩ := h r₂.2 ((bind_of_ok h₁ _).trans (bind_of_ok h₂ _))
  refine calm_ite (fun _ => calm_mqttConnect hconnect) fun _ => calm_ite (fun _ => ?_) fun _ =>
    calm_pure _
  refine calm_read fun r₃ h₃ => calm_read fun r₄ h₄ => ?_
  refine calm_bind (calm_mapM_cap (htopic r₄.1 ?_)) fun _ => calm_col _
  exact (bind_of_ok h₃ _).trans (bind_of_ok h₄ _)

/-! ### RDP -/

/-- The cookie of a connection request: the rest of its line, or of the text. -/
def cookieOf (payload : Bytes) : Option Text :=
  (after "Cookie: ".toList (Text.lossy (payload.drop 11))).map fun tail =>
    if '\r' ∈ tail then tail.takeWhile (· ≠ '\r') else tail

/-- The cookie can be shortened. -/
def PlainCookie (payload : Bytes) : Prop := ∀ s, cookieOf payload = some s → s.Shortens 256

theorem calm_rdpCookie {payload : Bytes} (h : PlainCookie payload) :
    (liftM (rdpCookie (payload.drop 11)) : M (Option Text)).Calm := by
  unfold PlainCookie cookieOf at h
  unfold rdpCookie
  cases htail : after "Cookie: ".toList (Text.lossy (payload.drop 11)) with
  | none => exact calm_liftPanic rfl
  | some tail =>
      rw [htail] at h
      have hshort : Text.Shortens (if '\r' ∈ tail then tail.takeWhile (· ≠ '\r') else tail) 256 :=
        h _ rfl
      by_cases hline : '\r' ∈ tail
      · rw [if_pos hline] at hshort
        obtain ⟨t, ht⟩ := exists_cap_iff.mpr hshort
        refine calm_liftPanic (a := some t) ?_
        dsimp only
        rw [if_pos hline]
        exact bind_of_ok ht _
      · rw [if_neg hline] at hshort
        -- the text is cut at its end, or where a character ends
        obtain ⟨p, hp, hlen⟩ : ∃ p, tail.splitAt? (min tail.utf8Len 256) = some p ∧
            p.1.utf8Len ≤ 256 := by
          rcases hshort with hle | hsome
          · rw [Nat.min_eq_left hle]
            exact ⟨_, Text.splitAt?_utf8Len tail, hle⟩
          · obtain ⟨p, hp⟩ := Option.isSome_iff_exists.mp hsome
            have hle := Text.utf8Len_of_splitAt? hp
            rw [Nat.min_eq_right hle.2]
            exact ⟨p, hp, hle.1.le⟩
        refine calm_liftPanic (a := some p.1) ?_
        dsimp only
        rw [if_neg hline, Text.splitAt_eq_ok_iff.mpr hp]
        exact bind_of_ok (cap_of_le hlen) _

theorem calm_rdp {payload : Bytes} (h : PlainCookie payload) : (rdp payload).Calm := by
  refine calm_bind (calm_layer _) fun _ => calm_read fun r₁ h₁ => ?_
  refine calm_ite (fun _ => calm_bind (calm_giveUp _) fun _ => ?_) fun _ => ?_
  all_goals
    refine calm_read fun c₂ h₂ => calm_read fun r₃ h₃ => calm_read fun r₄ h₄ => ?_
    refine calm_bind (calm_col _) fun _ => calm_ite (fun _ => ?_) fun _ => calm_pure _
    refine calm_read fun c₅ h₅ => ?_
    have hrest : c₅.rest = payload.drop 11 := by
      rw [Cur.drop_of_skip h₅, Cur.drop_of_u8 h₄, Cur.drop_of_u8 h₃, Cur.drop_of_skip h₂,
        Cur.drop_of_u8 h₁]
      simp only [List.drop_drop]
      rfl
    have hcookie := calm_rdpCookie h
    dsimp only
    rw [hrest]
    repeat' with_reducible first
      | intro _ | exact calm_pure _ | exact calm_col _ | exact hcookie | apply calm_bind
      | apply calm_ite | split

/-! ### Protocols without texts -/

section Numbers

variable (payload : Bytes)

theorem calm_ntp : (ntp payload).Calm := by
  unfold ntp
  repeat' with_reducible first
    | intro _ | exact calm_col _ | exact calm_layer _ | exact calm_liftError _ | apply calm_bind

theorem calm_nbns : (nbns payload).Calm := by
  unfold nbns
  repeat' with_reducible first
    | intro _ | exact calm_col _ | exact calm_layer _ | exact calm_liftError _ | apply calm_bind

theorem calm_nbss : (nbss payload).Calm := by
  unfold nbss
  repeat' with_reducible first
    | intro _ | exact calm_col _ | exact calm_layer _ | exact calm_liftError _ | apply calm_bind

theorem calm_wireguard : (wireguard payload).Calm := by
  unfold wireguard
  repeat' with_reducible first
    | intro _ | exact calm_col _ | exact calm_layer _ | exact calm_liftError _
    | exact calm_giveUp _ | apply calm_bind | apply calm_ite

theorem calm_ike : (ike payload).Calm := by
  unfold ike
  dsimp only
  repeat' with_reducible first
    | intro _ | exact calm_pure _ | exact calm_col _ | exact calm_layer _ | exact calm_liftError _
    | apply calm_bind | apply calm_ite

theorem calm_rtp : (rtp payload).Calm := by
  unfold rtp
  repeat' with_reducible first
    | intro _ | exact calm_col _ | exact calm_layer _ | exact calm_liftError _ | apply calm_bind

theorem calm_rtcp : (rtcp payload).Calm := by
  unfold rtcp
  repeat' with_reducible first
    | intro _ | exact calm_col _ | exact calm_layer _ | exact calm_liftError _ | apply calm_bind

end Numbers

end AppMisc

/-! ### Industrial protocols and QUIC -/

namespace AppIcs

section Numbers

variable (payload : Bytes)

theorem calm_modbus : (modbus payload).Calm := by
  unfold modbus
  dsimp only
  repeat' with_reducible first
    | intro _ | exact calm_pure _ | exact calm_col _ | exact calm_layer _ | exact calm_liftError _
    | exact calm_giveUp _ | apply calm_bind | apply calm_ite

theorem calm_dnp3 : (dnp3 payload).Calm := by
  unfold dnp3
  repeat' with_reducible first
    | intro _ | exact calm_pure _ | exact calm_col _ | exact calm_layer _ | exact calm_liftError _
    | exact calm_giveUp _ | apply calm_bind | apply calm_ite

theorem calm_s7comm : (s7comm payload).Calm := by
  unfold s7comm
  repeat' with_reducible first
    | intro _ | exact calm_pure _ | exact calm_col _ | exact calm_layer _ | exact calm_liftError _
    | exact calm_giveUp _ | apply calm_bind | apply calm_ite

theorem calm_cipItems (count : ℕ) (c : Cur) : (cipItems count c).Calm := by
  induction count generalizing c with
  | zero => exact calm_pure _
  | succ count ih =>
      unfold cipItems cipItem
      repeat' with_reducible first
        | intro _ | exact ih _ | exact calm_pure _ | exact calm_col _ | exact calm_cols
        | exact calm_liftError _ | apply calm_bind | apply calm_ite | split

theorem calm_enip : (enip payload).Calm := by
  unfold enip
  repeat' with_reducible first
    | intro _ | exact calm_pure _ | exact calm_col _ | exact calm_layer _ | exact calm_liftError _
    | exact calm_cipItems _ _ | apply calm_bind | apply calm_ite

theorem calm_iec104 : (iec104 payload).Calm := by
  unfold iec104
  repeat' with_reducible first
    | intro _ | exact calm_pure _ | exact calm_col _ | exact calm_layer _ | exact calm_liftError _
    | exact calm_giveUp _ | apply calm_bind | apply calm_ite

theorem calm_bacnet : (bacnet payload).Calm := by
  unfold bacnet
  dsimp only
  repeat' with_reducible first
    | intro _ | exact calm_pure _ | exact calm_col _ | exact calm_layer _ | exact calm_liftError _
    | exact calm_giveUp _ | apply calm_bind | apply calm_ite

end Numbers

end AppIcs

theorem AppQuic.calm_parse (payload : Bytes) : (AppQuic.parse payload).Calm := by
  unfold AppQuic.parse
  repeat' with_reducible first
    | intro _ | exact calm_pure _ | exact calm_col _ | exact calm_layer _ | exact calm_liftError _
    | apply calm_bind | apply calm_ite

end PcapRacer
