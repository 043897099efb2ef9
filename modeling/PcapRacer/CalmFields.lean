/-
**When the dissectors of binary messages are calm.**

DNS, DHCP, TLS and SMB take texts out of their fields, and shorten them one by one or joined.  The
names of DNS, the numbers of DHCP and the fingerprints of TLS are ASCII whatever the bytes are; what
is left are the fields listed here.

Main definitions:

* `AppDns.PlainTexts` — the TXT strings;
* `AppDhcp.PlainOptions` — host name, domain and vendor class.

Main results:

* `AppDns.calm_parse`, `AppDhcp.calm_parse` — **messages with plain fields are dissected calmly**.
-/

import PcapRacer.Calm
import PcapRacer.DhcpOptions
import PcapRacer.DnsMessages
import PcapRacer.HelloMessage
import PcapRacer.SmbNames
import PcapRacer.WireReads

set_option relaxedAutoImplicit false
set_option autoImplicit false

namespace PcapRacer

namespace AppDns

open Text (IsAscii)

/-! ### DNS -/

theorem isAscii_labelText (b : Bytes) : IsAscii (labelText b) := by
  intro c hc
  obtain ⟨x, -, rfl⟩ := List.mem_map.mp hc
  split
  · next hx =>
      rw [isPrintable, Bool.and_eq_true, decide_eq_true_eq, decide_eq_true_eq] at hx
      have hlt : x.toNat < 127 := hx.2
      exact Text.isAscii_ofAscii (b := [x]) (fun y hy => by
        rw [List.mem_singleton.mp hy]
        exact UInt8.lt_iff_toNat_lt.mpr (Nat.lt_succ_of_lt hlt)) _ (List.mem_singleton.mpr rfl)
  · decide

/-- A name is ASCII, whatever its bytes are. -/
theorem isAscii_nameLoop {msg : Bytes} {guard pos jumps next : ℕ} {out name : Text}
    {endPos : Option ℕ} (h : nameLoop msg guard pos out endPos jumps = .ok (name, next))
    (hout : IsAscii out) : IsAscii name := by
  induction guard generalizing pos out endPos jumps with
  | zero => cases h
  | succ guard ih =>
      rw [nameLoop] at h
      split at h
      · cases h
      · split at h
        · cases h
          exact hout
        · split at h
          · split at h
            · cases h
            · dsimp only at h
              split at h
              · cases h
              · exact ih h hout
          · split at h
            · cases h
            · dsimp only at h
              split at h
              · cases h
              · have hdot : IsAscii (if out = [] then [] else out ++ ['.']) := by
                  split
                  · exact fun _ hc => absurd hc List.not_mem_nil
                  · exact isAscii_append hout (Text.isAscii_singleton rfl)
                generalize (if out = [] then [] else out ++ ['.']) = dot at h hdot
                split at h
                · cases h
                · exact ih h (isAscii_append hdot (isAscii_labelText _))

theorem isAscii_readName {msg : Bytes} {pos next : ℕ} {name : Text}
    (h : readName msg pos = .ok (name, next)) : IsAscii name :=
  isAscii_nameLoop h fun _ hc => absurd hc List.not_mem_nil

/-- The texts that are made of names and addresses. -/
structure NamesAscii (a : Answers) : Prop where
  answers : ∀ t ∈ a.answers, IsAscii t
  ips : ∀ t ∈ a.ips, IsAscii t
  cnames : ∀ t ∈ a.cnames, IsAscii t
  nsNames : ∀ t ∈ a.nsNames, IsAscii t
  mxNames : ∀ t ∈ a.mxNames, IsAscii t

theorem isAscii_concat {l : List Text} {t : Text} (h : ∀ x ∈ l, IsAscii x) (ht : IsAscii t) :
    ∀ x ∈ l ++ [t], IsAscii x := fun x hx =>
  (List.mem_append.mp hx).elim (h x) fun hx => List.mem_singleton.mp hx ▸ ht

theorem NamesAscii.withTtl {a : Answers} (h : NamesAscii a) (t : Option UInt32) :
    NamesAscii { a with ttlMin := t } := ⟨h.answers, h.ips, h.cnames, h.nsNames, h.mxNames⟩

/-- One more record keeps them ASCII. -/
theorem NamesAscii.answerRecord {msg : Bytes} {a : Answers} {name : Text} (h : NamesAscii a)
    (hname : IsAscii name) (rtype : UInt16) (pos rdlen : ℕ) :
    NamesAscii (answerRecord msg a name rtype pos rdlen) := by
  have hline : ∀ (kind : String) (target : Text), IsAscii kind.toList → IsAscii target →
      ∀ x ∈ a.answers ++ [answerText name kind target], IsAscii x :=
    fun kind target hkind htarget =>
      isAscii_concat h.answers (isAscii_answerText hname hkind htarget)
  unfold AppDns.answerRecord
  dsimp only
  split
  · split
    · exact { h with
        answers := hline "A" _ (Text.isAscii_of_all rfl) (isAscii_textV4 _)
        ips := isAscii_concat h.ips (isAscii_textV4 _) }
    · exact h
  · split
    · exact { h with
        answers := hline "AAAA" _ (Text.isAscii_of_all rfl) (isAscii_textV6 _)
        ips := isAscii_concat h.ips (isAscii_textV6 _) }
    · exact h
  · split
    · next target _ hread =>
        have htarget := isAscii_readName hread
        exact { h with
          answers := hline "CNAME" _ (Text.isAscii_of_all rfl) htarget
          cnames := isAscii_concat h.cnames htarget }
    · exact h
  · split
    · next target _ hread =>
        have htarget := isAscii_readName hread
        exact { h with
          answers := hline "NS" _ (Text.isAscii_of_all rfl) htarget
          nsNames := isAscii_concat h.nsNames htarget }
    · exact h
  · split
    · next target _ hread =>
        exact { h with answers := hline "PTR" _ (Text.isAscii_of_all rfl) (isAscii_readName hread) }
    · exact h
  · split
    · split
      · next target _ hread =>
          have htarget := isAscii_readName hread
          exact { h with
            answers := hline "MX" _ (Text.isAscii_of_all rfl) htarget
            mxNames := isAscii_concat h.mxNames htarget }
      · exact h
    · exact h
  · exact { h with }
  · split
    · split
      · next target _ hread =>
          exact { h with
            answers := hline "SRV" _ (Text.isAscii_of_all rfl) (isAscii_readName hread) }
      · exact h
    · exact h
  · exact h

theorem NamesAscii.recordLoop {msg : Bytes} (count pos : ℕ) {a : Answers} (h : NamesAscii a) :
    NamesAscii (recordLoop msg count pos a) := by
  induction count generalizing pos a with
  | zero => exact h
  | succ count ih =>
      rw [AppDns.recordLoop]
      split
      · exact h
      · next name _ hread =>
          dsimp only
          split
          · exact h
          · split
            · exact h
            · exact ih _ ((h.withTtl _).answerRecord (isAscii_readName hread) _ _ _)

/-- The TXT strings, joined, can be shortened. -/
def PlainTexts (msg : Bytes) : Prop :=
  (Text.join " | ".toList (reported msg (walk msg)).txts).Shortens 2048

theorem listed_of_shortens {items : List Text} {sep : String} {max : ℕ}
    (h : (Text.join sep.toList items).Shortens max) : ∃ v, listed items sep max = .ok v := by
  unfold listed
  split
  · exact ⟨_, rfl⟩
  · obtain ⟨t, ht⟩ := exists_cap_iff.mpr h
    exact ⟨some t, by rw [ht]; rfl⟩

theorem columns_of_namesAscii {a : Answers} (h : NamesAscii a)
    (htxts : (Text.join " | ".toList a.txts).Shortens 2048) (c : DnsCols) :
    ∃ c', a.columns c = .ok c' := by
  have hcomma : IsAscii ",".toList := Text.isAscii_of_all rfl
  have hsemi : IsAscii "; ".toList := Text.isAscii_of_all rfl
  obtain ⟨_, h₁⟩ := listed_of_shortens ((Text.isAscii_join hsemi h.answers).shortens 2048)
  obtain ⟨_, h₂⟩ := listed_of_shortens ((Text.isAscii_join hcomma h.ips).shortens 1024)
  obtain ⟨_, h₃⟩ := listed_of_shortens ((Text.isAscii_join hcomma h.cnames).shortens 1024)
  obtain ⟨_, h₄⟩ := listed_of_shortens ((Text.isAscii_join hcomma h.nsNames).shortens 512)
  obtain ⟨_, h₅⟩ := listed_of_shortens ((Text.isAscii_join hcomma h.mxNames).shortens 512)
  obtain ⟨_, h₆⟩ := listed_of_shortens htxts
  unfold Answers.columns
  rw [h₁, bind_of_ok rfl, h₂, bind_of_ok rfl, h₃, bind_of_ok rfl, h₄, bind_of_ok rfl, h₅,
    bind_of_ok rfl, h₆]
  exact ⟨_, rfl⟩

theorem calm_parse {msg : Bytes} (h : PlainTexts msg) (isMdns isLlmnr overTcp : Bool) :
    (parse msg isMdns isLlmnr overTcp).Calm := by
  intro s q hq
  obtain ⟨stack, ⟨-, hexec⟩ | ⟨-, hexec⟩⟩ := parse_exec msg isMdns isLlmnr overTcp s
  · rw [hexec] at hq
    cases hend : questionsEnd msg (questionCount msg) 12 with
    | error e =>
        rw [body_of_error hend] at hq
        cases hq
    | ok start =>
        have hnames : NamesAscii (reported msg (walk msg)) := by
          rw [walk_of_ok hend, reported, ← recordLoop_eq_foldl]
          exact NamesAscii.recordLoop _ _ ⟨fun _ h => absurd h List.not_mem_nil,
            fun _ h => absurd h List.not_mem_nil, fun _ h => absurd h List.not_mem_nil,
            fun _ h => absurd h List.not_mem_nil, fun _ h => absurd h List.not_mem_nil⟩
        obtain ⟨c', hc⟩ := columns_of_namesAscii hnames h
          (writeFirst msg (questionCount msg) 12
            (headerCols msg (openCols isMdns isLlmnr overTcp s.cols)))
        rw [body_of_ok hend, hc] at hq
        cases hq
  · rw [hexec] at hq
    cases hq

/-- The message behind the length, as much of it as is there. -/
def tcpMessage (payload : Bytes) : Bytes := (payload.drop 2).take (u16At payload 0).toNat

theorem calm_parseTcp {payload : Bytes} (h : PlainTexts (tcpMessage payload)) :
    (parseTcp payload).Calm := by
  refine calm_read fun r₁ h₁ => calm_read fun ⟨msg, c₂⟩ h₂ => ?_
  have hmsg : msg = tcpMessage payload := by
    obtain ⟨hlen, hword⟩ | ⟨hle, c, hword, hc⟩ := be16_of_rest (c := Cur.new payload) (k := 0) rfl
    · rw [hword] at h₁
      cases h₁
    · obtain rfl : (u16At payload 0, c) = r₁ := Except.ok.inj (hword.symm.trans h₁)
      have htake : msg = c.rest.take (min (u16At payload 0).toNat c.remaining) :=
        (Prod.ext_iff.mp (Cur.take_eq_ok_iff.mp h₂).2).1
      have hrest : c.rest = payload.drop 2 := hc
      rw [htake, ← Cur.length_rest, hrest, tcpMessage]
      exact List.take_eq_take_iff.mpr (by omega)
  subst hmsg
  exact calm_parse h _ _ _

end AppDns

namespace AppDhcp

/-! ### DHCP -/

/-- The texts of the options can be shortened. -/
def PlainOptions (payload : Bytes) : Prop :=
  ∀ i ∈ DhcpItem.layout.walk 128 (payload.drop 240), ∀ n ∈ [12, 15, 60],
    ∀ s, i.text? n = some (some s) → s.Shortens 256

theorem calm_valStr {val : Bytes} (h : ∀ s, asciiString val = some s → s.Shortens 256) :
    (liftM (valStr val) : M (Option Text)).Calm := calm_mapM_cap h

theorem calm_recordItem {i : DhcpItem}
    (h : ∀ n ∈ [12, 15, 60], ∀ s, i.text? n = some (some s) → s.Shortens 256) :
    (recordItem i).Calm := by
  cases i with
  | pad => exact calm_pure _
  | option code val marked fits =>
      have htext : ∀ n ∈ [12, 15, 60], code.toNat = n →
          (liftM (valStr val) : M (Option Text)).Calm := fun n hn hcode =>
        calm_valStr fun s hs => h n hn s (by rw [DhcpItem.text?_option, if_pos hcode, hs])
      have hparams : (Text.join [','] (val.map fun x => Text.decimal x.toNat)).Shortens 512 :=
        Text.IsAscii.shortens (Text.isAscii_join (Text.isAscii_singleton rfl) fun p hp => by
          obtain ⟨x, -, rfl⟩ := List.mem_map.mp hp
          exact Text.isAscii_decimal _) 512
      have hhost := htext 12 (by decide)
      have hdomain := htext 15 (by decide)
      have hvendor := htext 60 (by decide)
      unfold recordItem dhcpOption
      dsimp only
      split
      all_goals
        repeat' with_reducible first
          | intro _ | exact calm_pure _ | exact calm_col _ | exact calm_shorten hparams
          | exact hhost ‹_› | exact hdomain ‹_› | exact hvendor ‹_› | apply calm_bind
          | apply calm_ite | split

theorem calm_parse {payload : Bytes} (h : PlainOptions payload) : (parse payload).Calm := by
  refine calm_bind (calm_layer _) fun _ => calm_read fun r₁ h₁ => calm_read fun r₂ h₂ => ?_
  refine calm_read fun r₃ h₃ => calm_read fun r₄ h₄ => calm_read fun r₅ h₅ => ?_
  refine calm_read fun r₆ h₆ => calm_read fun r₇ h₇ => calm_read fun r₈ h₈ => ?_
  refine calm_read fun r₉ h₉ => calm_read fun r₁₀ h₁₀ => calm_read fun r₁₁ h₁₁ => ?_
  refine calm_read fun r₁₂ h₁₂ => calm_bind (calm_col _) fun _ => ?_
  have hloop : ∀ {c₁₃ : Cur} {r₁₄ : UInt32 × Cur}, r₁₂.2.skip (64 + 128) = .ok c₁₃ →
      c₁₃.be32 = .ok r₁₄ → (optionLoop 128 r₁₄.2).Calm := by
    intro c₁₃ r₁₄ h₁₃ h₁₄
    have hrest : r₁₄.2.rest = payload.drop 240 := by
      rw [Cur.drop_of_read h₁₄, Cur.drop_of_skip h₁₃, Cur.drop_of_take h₁₂, Cur.drop_of_read h₁₁,
        Cur.drop_of_read h₁₀, Cur.drop_of_read h₉, Cur.drop_of_read h₈, Cur.drop_of_read h₇,
        Cur.drop_of_read h₆, Cur.drop_of_read h₅, Cur.drop_of_u8 h₄, Cur.drop_of_u8 h₃,
        Cur.drop_of_u8 h₂, Cur.drop_of_u8 h₁]
      simp only [List.drop_drop]
      rfl
    rw [optionLoop_eq, hrest]
    exact calm_forM fun i hi => calm_recordItem (h i hi)
  repeat' with_reducible first
    | intro _ | exact calm_pure _ | exact calm_col _ | exact calm_giveUp _ | exact hloop ‹_› ‹_›
    | apply calm_read | apply calm_bind | apply calm_ite

theorem calm_parseV6 (payload : Bytes) : (parseV6 payload).Calm :=
  calm_bind (calm_layer _) fun _ => calm_read fun _ _ => calm_read fun _ _ => calm_col _

end AppDhcp

namespace AppTls

open Text (IsAscii)

/-! ### TLS hello messages -/

theorem Runs.calm {σ α : Type} {d : Dissect σ α} (h : Runs d) : d.Calm := by
  intro s q hq
  obtain ⟨a, s', hok⟩ := h s
  rw [hok] at hq
  cases hq

/-- The host name can be shortened. -/
def PlainName (e : Exts) : Prop := ∀ name, e.sni = some name → name.Shortens 512

theorem calm_applyExts {e : Exts} (h : PlainName e) : (applyExts e).Calm := by
  have hafter : (afterSni e).Calm := (runs_afterSni e).calm
  have hfrom : (fromSni e).Calm := by
    unfold fromSni
    split
    · next name hname =>
        exact calm_bind (calm_shorten (h name hname)) fun _ => calm_bind (calm_col _) fun _ => hafter
    · exact hafter
  rw [applyExts_eq]
  exact calm_ite (fun _ => calm_bind (calm_col _) fun _ => hfrom) fun _ => hfrom

/-- The cookie of DTLS. -/
def skipCookie (isDtls : Bool) (c : Cur) : Except DissectError Cur :=
  if isDtls then do
    let (cookieLen, c) ← c.u8
    c.skip cookieLen.toNat
  else pure c

/-- The extensions of a client hello whose fixed part can be read. -/
def clientExts (msg : Bytes) (isDtls : Bool) : Except DissectError Exts := do
  let (_, c) ← (Cur.new msg).be16
  let c ← c.skip 32
  let (sidLen, c) ← c.u8
  let c ← c.skip sidLen.toNat
  let c ← skipCookie isDtls c
  let (csLen, c) ← c.be16
  let (_, c) ← c.take csLen.toNat
  let (compLen, c) ← c.u8
  let (_, c) ← c.take compLen.toNat
  pure (parseExtensions c)

/-- The extensions of a server hello whose fixed part can be read. -/
def serverExts (msg : Bytes) : Except DissectError Exts := do
  let (_, c) ← (Cur.new msg).be16
  let c ← c.skip 32
  let (sidLen, c) ← c.u8
  let c ← c.skip sidLen.toNat
  let (_, c) ← c.be16
  let (_, c) ← c.u8
  pure (parseExtensions c)

section Hello

variable [Hashes]

theorem calm_clientHelloCols (v : UInt16) (suites : List UInt16) {e : Exts} (h : PlainName e) :
    (clientHelloCols v suites e).Calm := by
  have hsuites : (Text.join [','] (suites.map hex4)).Shortens 1024 :=
    (isAscii_suites suites).shortens 1024
  have hfull : (ja3 { version := v, ciphers := suites, extensions := e.ids, curves := e.groups,
                      pointFormats := e.pointFormats }).2.Shortens 2048 :=
    (isAscii_ja3 _).shortens 2048
  unfold clientHelloCols
  dsimp only
  repeat' with_reducible first
    | intro _ | exact calm_col _ | exact calm_shorten hsuites | exact calm_shorten hfull
    | exact calm_applyExts h | apply calm_bind

theorem calm_clientHello {msg : Bytes} {isDtls : Bool}
    (h : ∀ e, clientExts msg isDtls = .ok e → PlainName e) : (clientHello msg isDtls).Calm := by
  refine calm_read fun r₁ h₁ => calm_read fun c₂ h₂ => calm_read fun r₃ h₃ => ?_
  refine calm_bind (calm_col _) fun _ => calm_read fun c₄ h₄ => ?_
  have hrest : ∀ c₅ : Cur, skipCookie isDtls c₄ = .ok c₅ → Dissect.Calm (do
      let (csLen, c) ← (liftM c₅.be16 : M (UInt16 × Cur))
      let (csBytes, c) ← c.take csLen.toNat
      let (compLen, c) ← c.u8
      let (comps, c) ← c.take compLen.toNat
      col fun s => { s with tlsCompressionMethods := some (byteList comps) }
      clientHelloCols r₁.1 (words csBytes) (parseExtensions c)) := by
    intro c₅ h₅
    refine calm_read fun r₆ h₆ => calm_read fun r₇ h₇ => calm_read fun r₈ h₈ => ?_
    refine calm_read fun r₉ h₉ => calm_bind (calm_col _) fun _ => ?_
    refine calm_clientHelloCols _ _ (h _ ?_)
    exact (bind_of_ok h₁ _).trans <| (bind_of_ok h₂ _).trans <| (bind_of_ok h₃ _).trans <|
      (bind_of_ok h₄ _).trans <| (bind_of_ok h₅ _).trans <| (bind_of_ok h₆ _).trans <|
      (bind_of_ok h₇ _).trans <| (bind_of_ok h₈ _).trans <| bind_of_ok h₉ _
  cases isDtls with
  | false => exact calm_pure_bind (hrest _ rfl)
  | true =>
      dsimp only
      rw [if_pos rfl]
      refine calm_read fun r₅ h₅ => calm_read fun c₅ h₅' => hrest _ ?_
      exact (if_pos rfl).trans ((bind_of_ok h₅ _).trans h₅')

theorem isAscii_ja3s (v cipher : UInt16) (ids : List UInt16) :
    IsAscii (ja3s v cipher ids).2 := by
  refine Text.isAscii_join (Text.isAscii_singleton rfl) fun p hp => ?_
  simp only [List.mem_cons, List.not_mem_nil, or_false] at hp
  obtain rfl | rfl | rfl := hp
  · exact Text.isAscii_decimal _
  · exact Text.isAscii_decimal _
  · exact isAscii_dashJoined _

theorem calm_serverHello {msg : Bytes} (h : ∀ e, serverExts msg = .ok e → PlainName e) :
    (serverHello msg).Calm := by
  refine calm_read fun r₁ h₁ => calm_read fun c₂ h₂ => calm_read fun r₃ h₃ => ?_
  refine calm_read fun c₄ h₄ => calm_read fun r₅ h₅ => calm_read fun r₆ h₆ => ?_
  have hname : PlainName (parseExtensions r₆.2) := h _ <|
    (bind_of_ok h₁ _).trans <| (bind_of_ok h₂ _).trans <| (bind_of_ok h₃ _).trans <|
      (bind_of_ok h₄ _).trans <| (bind_of_ok h₅ _).trans <| bind_of_ok h₆ _
  have hfull : (ja3s r₁.1 r₅.1 (parseExtensions r₆.2).ids).2.Shortens 1024 :=
    (isAscii_ja3s _ _ _).shortens 1024
  dsimp only
  repeat' with_reducible first
    | intro _ | exact calm_col _ | exact calm_shorten hfull | exact calm_applyExts hname
    | apply calm_bind

end Hello

/-! ### Certificates -/

/-- The signed part, the issuer and the subject of a certificate. -/
def certificateParts (der : Bytes) : Option (Ber.Tlv × Ber.Tlv × Ber.Tlv) := do
  let (.ok cert, _) := Ber.read (Cur.new der) | none
  let (.ok tbs, _) := Ber.read cert.cur | none
  let (.ok first, t) := Ber.read tbs.cur | none
  let (.ok _, t) := if first.is Ber.classContext 0 then Ber.read t else (.ok first, t) | none
  let (.ok _, t) := Ber.read t | none
  let (.ok issuer, t) := Ber.read t | none
  let (.ok _, t) := Ber.read t | none
  let (.ok subject, _) := Ber.read t | none
  some (tbs, issuer, subject)

/-- The common name of an issuer or a subject. -/
def commonName (name : Ber.Tlv) : Option Text :=
  (Ber.findAfterOid 6 name.val oidCn).bind Ber.Tlv.asStr

/-- The names in a certificate can be shortened. -/
def PlainCertificate (der : Bytes) : Prop :=
  ∀ tbs issuer subject, certificateParts der = some (tbs, issuer, subject) →
    (∀ s, commonName issuer = some s → s.Shortens 512) ∧
    (∀ s, commonName subject = some s → s.Shortens 512) ∧
    ∀ s, extractSans tbs.val = some s → s.Shortens 2048

theorem calm_parseCertificate {der : Bytes} (h : PlainCertificate der) :
    (parseCertificate der).Calm := by
  unfold parseCertificate
  split
  · next cert c₁ h₁ =>
    refine calm_ite (fun _ => calm_pure _) fun _ => ?_
    split
    · next tbs c₂ h₂ =>
      refine calm_ite (fun _ => calm_pure _) fun _ => ?_
      split
      · next first c₃ h₃ =>
        split
        · next serial c₄ h₄ =>
          refine calm_bind (calm_col _) fun _ => ?_
          split
          · next c₅ h₅ =>
            split
            · next issuer c₆ h₆ =>
              split
              · next validity c₇ h₇ =>
                split
                · next subject c₈ h₈ =>
                  have hparts : certificateParts der = some (tbs, issuer, subject) := by
                    simp only [certificateParts, h₁, h₂, h₃, h₄, h₅, h₆, h₇, h₈]
                  obtain ⟨hissuer, hsubject, hsans⟩ := h _ _ _ hparts
                  unfold commonName at hissuer hsubject
                  dsimp only
                  repeat' with_reducible first
                    | intro _ | exact calm_pure _ | exact calm_col _ | exact calm_shorten (hsans _ ‹_›)
                    | exact calm_shorten (hissuer _ ‹_›) | exact calm_shorten (hsubject _ ‹_›)
                    | apply calm_mapM | apply calm_bind | split
                · exact calm_pure _
              · exact calm_pure _
            · exact calm_pure _
          · exact calm_pure _
        · exact calm_pure _
      · exact calm_pure _
    · exact calm_pure _
  · exact calm_pure _

/-- The first certificate of a chain. -/
def leaf (msg : Bytes) : Option Bytes :=
  match (Cur.new msg).be24 with
  | .error _ => none
  | .ok (total, c) =>
      let list := match c.take (min total.toNat c.remaining) with
        | .ok (b, _) => b
        | .error _ => []
      (certificateList 16 (Cur.new list)).2

theorem calm_certificates {msg : Bytes} (h : ∀ der, leaf msg = some der → PlainCertificate der) :
    (certificates msg).Calm := by
  unfold certificates
  unfold leaf at h
  split
  · next total c hlen =>
      rw [hlen] at h
      refine calm_bind (calm_col _) fun _ => ?_
      split
      · next der hder => exact calm_parseCertificate (h der hder)
      · exact calm_pure _
  · exact calm_pure _

/-! ### Records -/

/-- The sequence number of DTLS. -/
def skipSequence (isDtls : Bool) (c : Cur) : Except DissectError Cur :=
  if isDtls then c.skip 8 else pure c

/-- The handshake message at a cursor, and where the next one starts. -/
def messageAt (isDtls : Bool) (c : Cur) : Except DissectError (UInt8 × Bytes × Cur) := do
  let (htype, c) ← c.u8
  let (hlen, c) ← c.be24
  let c ← skipSequence isDtls c
  let (msg, c) ← c.take (min hlen.toNat c.remaining)
  pure (htype, msg, c)

/-- The handshake messages from a cursor on. -/
def messages (isDtls : Bool) : ℕ → Cur → List (UInt8 × Bytes)
  | 0, _ => []
  | guard + 1, c =>
      match messageAt isDtls c with
      | .error _ => []
      | .ok (htype, msg, c) => (htype, msg) :: messages isDtls guard c

/-- The texts of a handshake message can be shortened. -/
def PlainMessage (isDtls : Bool) (htype : UInt8) (msg : Bytes) : Prop :=
  (htype = 1 → ∀ e, clientExts msg isDtls = .ok e → PlainName e) ∧
  (htype = 2 → ∀ e, serverExts msg = .ok e → PlainName e) ∧
  (htype = 11 → ∀ der, leaf msg = some der → PlainCertificate der)

/-- The record at a cursor, and where the next one starts. -/
def bodyAt (isDtls : Bool) (c : Cur) : Except DissectError (UInt8 × Bytes × Cur) := do
  let (rtype, c) ← c.u8
  let (_, c) ← c.be16
  let c ← skipSequence isDtls c
  let (len, c) ← c.be16
  let (body, c) ← c.take (min len.toNat c.remaining)
  pure (rtype, body, c)

/-- The records from a cursor on. -/
def bodies (isDtls : Bool) : ℕ → Cur → List (UInt8 × Bytes)
  | 0, _ => []
  | guard + 1, c =>
      match bodyAt isDtls c with
      | .error _ => []
      | .ok (rtype, body, c) => (rtype, body) :: bodies isDtls guard c

/-- The texts of all handshake messages can be shortened. -/
def PlainRecords (payload : Bytes) (isDtls : Bool) : Prop :=
  ∀ body, (22, body) ∈ bodies isDtls 8 (Cur.new payload) →
    ∀ m ∈ messages isDtls 8 (Cur.new body), PlainMessage isDtls m.1 m.2

section Records

variable [Hashes]

theorem calm_handshakeLoop {isDtls : Bool} (guard : ℕ) {c : Cur}
    (h : ∀ m ∈ messages isDtls guard c, PlainMessage isDtls m.1 m.2) :
    (handshakeLoop isDtls guard c).Calm := by
  induction guard generalizing c with
  | zero => exact calm_pure _
  | succ guard ih =>
      refine calm_ite (fun _ => ?_) fun _ => calm_pure _
      refine calm_read fun r₁ h₁ => calm_read fun r₂ h₂ => ?_
      refine calm_ite (fun hd => calm_read fun c₃ h₃ => ?_) fun hd => calm_read fun c₃ h₃ => ?_
      all_goals
        have hskip : skipSequence isDtls r₂.2 = .ok c₃ := by
          first
            | exact (if_pos hd).trans h₃
            | exact (if_neg hd).trans h₃
        refine calm_read fun r₄ h₄ => ?_
        have hat : messageAt isDtls c = .ok (r₁.1, r₄.1, r₄.2) :=
          (bind_of_ok h₁ _).trans <| (bind_of_ok h₂ _).trans <| (bind_of_ok hskip _).trans <|
            bind_of_ok h₄ _
        rw [messages, hat] at h
        obtain ⟨hclient, hserver, hcert⟩ := h _ List.mem_cons_self
        have hnext := ih fun m hm => h m (List.mem_cons_of_mem _ hm)
        repeat' with_reducible first
          | intro _ | exact calm_pure _ | exact calm_col _ | exact calm_cols | exact hnext
          | exact calm_clientHello (hclient ‹_›) | exact calm_serverHello (hserver ‹_›)
          | exact calm_certificates (hcert ‹_›) | apply calm_bind | apply calm_ite

theorem calm_recordLoop {isDtls : Bool} (guard : ℕ) (first : Bool) {c : Cur}
    (h : ∀ body, (22, body) ∈ bodies isDtls guard c →
      ∀ m ∈ messages isDtls 8 (Cur.new body), PlainMessage isDtls m.1 m.2) :
    (recordLoop isDtls guard first c).Calm := by
  induction guard generalizing first c with
  | zero => exact calm_pure _
  | succ guard ih =>
      refine calm_ite (fun _ => ?_) fun _ => calm_pure _
      refine calm_read fun r₁ h₁ => calm_read fun r₂ h₂ => ?_
      have hbody : ∀ (c₃ : Cur) (r₄ : UInt16 × Cur) (r₅ : Bytes × Cur),
          skipSequence isDtls r₂.2 = .ok c₃ → c₃.be16 = .ok r₄ →
          r₄.2.take (min r₄.1.toNat r₄.2.remaining) = .ok r₅ →
            (r₁.1 = 22 → (handshake r₅.1 isDtls).Calm) ∧
              (recordLoop isDtls guard false r₅.2).Calm := by
        intro c₃ r₄ r₅ h₃ h₄ h₅
        have hat : bodyAt isDtls c = .ok (r₁.1, r₅.1, r₅.2) :=
          (bind_of_ok h₁ _).trans <| (bind_of_ok h₂ _).trans <| (bind_of_ok h₃ _).trans <|
            (bind_of_ok h₄ _).trans <| bind_of_ok h₅ _
        rw [bodies, hat] at h
        refine ⟨fun htype => calm_handshakeLoop 8 (h _ ?_), ih false fun body hb =>
          h body (List.mem_cons_of_mem _ hb)⟩
        rw [← htype]
        exact List.mem_cons_self
      refine calm_ite (fun hd => calm_read fun c₃ h₃ => ?_) fun hd => calm_read fun c₃ h₃ => ?_
      all_goals
        have hskip : skipSequence isDtls r₂.2 = .ok c₃ := by
          first
            | exact (if_pos hd).trans h₃
            | exact (if_neg hd).trans h₃
        refine calm_read fun r₄ h₄ => ?_
        have hread := fun r₅ => hbody c₃ r₄ r₅ hskip h₄
        repeat' with_reducible first
          | intro _ | exact calm_pure _ | exact calm_col _ | exact (hread _ ‹_›).2
          | exact calm_attempt ((hread _ ‹_›).1 ‹_›) | apply calm_read | apply calm_bind
          | apply calm_ite | split

/-- **Plain records are dissected calmly.** -/
theorem calm_parse {payload : Bytes} {isDtls : Bool} (h : PlainRecords payload isDtls) :
    (parse payload isDtls).Calm :=
  calm_bind (calm_layer _) fun _ => calm_bind (calm_col _) fun _ => calm_recordLoop 8 true h

end Records

end AppTls

namespace AppSmb

/-! ### SMB -/

/-- The name at a place, if it is in the body. -/
def offsetText (rest : Bytes) (place : ℕ) : Option Text :=
  let off := leNat ((rest.drop place).take 2)
  let len := leNat ((rest.drop (place + 2)).take 2)
  if 64 ≤ off ∧ off - 64 + len ≤ rest.length then utf16le ((rest.drop (off - 64)).take len)
  else none

/-- The names in a message can be shortened. -/
def PlainNames (payload : Bytes) : Prop :=
  let body := unframed payload
  (∀ place ∈ [4, 44], ∀ s, offsetText (body.drop 48) place = some s → s.Shortens 512) ∧
  (∀ start ∈ [9, 48], ∀ s ∈ ntlmTextsIn (body.drop start), s.Shortens 256)

theorem calm_ntlm {data : Bytes} (h : ∀ t ∈ ntlmTexts data, t.Shortens 256) : (ntlm data).Calm := by
  intro s q hq
  obtain ⟨r, hr⟩ := (ntlm_shown_iff data s).mpr h
  rw [hr] at hq
  cases hq

theorem calm_ntlmIn {rest : Bytes} (h : ∀ t ∈ ntlmTextsIn rest, t.Shortens 256) :
    (ntlmIn rest).Calm := by
  unfold ntlmIn
  unfold ntlmTextsIn at h
  split
  · next pos hpos =>
      rw [hpos] at h
      exact calm_ntlm h
  · exact calm_pure _

/-- Reading the name at a place, and what is done with it. -/
theorem calm_offsetString {rest : Bytes} {place : ℕ}
    (h : ∀ s, offsetText rest place = some s → s.Shortens 512) :
    (liftM (offsetString rest place) : M (Option (Option Text))).Calm := by
  unfold offsetString
  unfold offsetText at h
  dsimp only at h ⊢
  split
  · next hfits =>
      rw [if_pos hfits] at h
      cases hs : utf16le ((rest.drop (leNat ((rest.drop place).take 2) - 64)).take
          (leNat ((rest.drop (place + 2)).take 2))) with
      | none => exact calm_liftPanic rfl
      | some s =>
          obtain ⟨t, ht⟩ := exists_cap_iff.mpr (h s hs)
          refine calm_liftPanic (a := some (some t)) ?_
          rw [Option.mapM_some, ht]
          rfl
  · exact calm_liftPanic rfl

theorem calm_smb1 {body : Bytes} (h : ∀ s ∈ ntlmTextsIn (body.drop 9), s.Shortens 256) :
    (smb1 body).Calm := by
  refine calm_bind (calm_layer _) fun _ => calm_bind (calm_col _) fun _ => ?_
  refine calm_read fun c₁ h₁ => calm_read fun r₂ h₂ => calm_bind (calm_col _) fun _ => ?_
  refine calm_read fun r₃ h₃ => calm_bind (calm_col _) fun _ => calm_ntlmIn ?_
  have hrest : r₃.2.rest = body.drop 9 := by
    rw [Cur.drop_of_read h₃, Cur.drop_of_u8 h₂, Cur.drop_of_skip h₁]
    simp only [List.drop_drop]
    rfl
  rwa [hrest]

theorem calm_smb2 {body : Bytes}
    (hnames : ∀ place ∈ [4, 44], ∀ s, offsetText (body.drop 48) place = some s → s.Shortens 512)
    (hntlm : ∀ s ∈ ntlmTextsIn (body.drop 48), s.Shortens 256) : (smb2 body).Calm := by
  refine calm_bind (calm_layer _) fun _ => calm_bind (calm_col _) fun _ => ?_
  refine calm_read fun c₀ h₀ => calm_read fun r₁ h₁ => calm_read fun r₂ h₂ => ?_
  refine calm_read fun r₃ h₃ => calm_read fun r₄ h₄ => calm_read fun r₅ h₅ => ?_
  refine calm_read fun r₆ h₆ => calm_read fun r₇ h₇ => calm_read fun r₈ h₈ => ?_
  refine calm_read fun r₉ h₉ => calm_read fun r₁₀ h₁₀ => calm_read fun r₁₁ h₁₁ => ?_
  refine calm_bind (calm_col _) fun _ => ?_
  have hrest : r₁₁.2.rest = body.drop 48 := by
    rw [Cur.drop_of_read h₁₁, Cur.drop_of_read h₁₀, Cur.drop_of_read h₉, Cur.drop_of_read h₈,
      Cur.drop_of_read h₇, Cur.drop_of_read h₆, Cur.drop_of_read h₅, Cur.drop_of_read h₄,
      Cur.drop_of_read h₃, Cur.drop_of_read h₂, Cur.drop_of_read h₁, Cur.drop_of_skip h₀]
    simp only [List.drop_drop]
    rfl
  have htree := hnames 4 (by decide)
  have hfile := hnames 44 (by decide)
  dsimp only
  rw [hrest]
  repeat' with_reducible first
    | intro _ | exact calm_col _ | exact calm_ntlmIn hntlm | exact calm_offsetString htree
    | exact calm_offsetString hfile | apply calm_bind | apply calm_ite | split

theorem calm_parse {payload : Bytes} (h : PlainNames payload) : (parse payload).Calm := by
  unfold parse
  refine calm_ite (fun _ => ?_) fun _ => calm_ite (fun _ => ?_) fun _ => calm_giveUp _
  · exact calm_smb2 h.1 (h.2 48 (by decide))
  · exact calm_smb1 (h.2 9 (by decide))

end AppSmb

end PcapRacer
