/-
**The marks of a ClientHello, and what a first part of its record shows of them.**

The TLS dissector reads a record that was cut short as if it ended at the cut.  Server name and
fingerprints are written once the compression methods of a ClientHello have been read, from whatever
extensions are there.  So a record that is cut before the end of the compression methods shows none
of them, and a record that is cut later shows those of a ClientHello with fewer extensions.

Main definitions:

* `AppTls.marks` — server name and fingerprints;
* `AppTls.helloFixed` — the part of a ClientHello before its extensions;
* `ClientHello` — a complete ClientHello in a record of its own.

Main results:

* `ClientHello.helloFixed_take` — a fixed part that was cut off is read in full, or the read fails;
* `ClientHello.parse_take` — **a record that was cut off before its extensions shows no marks**.
-/

import PcapRacer.AppTls

set_option relaxedAutoImplicit false
set_option autoImplicit false

namespace PcapRacer

/-! ### Steps that succeed -/

section Exec

variable {σ α β : Type}

/-- A read that succeeds, and then something else. -/
theorem exec_ok_bind (a : α) (k : α → Dissect σ β) (s : σ) :
    ((liftM (Except.ok a : Except DissectError α) : Dissect σ α) >>= k).exec s =
      (k a).exec s := by
  rw [exec_bind, exec_liftError]

/-- A string operation that succeeds, and then something else. -/
theorem exec_cap_bind {x : Except Panic α} {a : α} (h : x = .ok a) (k : α → Dissect σ β) (s : σ) :
    ((liftM x : Dissect σ α) >>= k).exec s = (k a).exec s := by
  rw [h, exec_bind, exec_liftPanic]
  rfl

end Exec

namespace AppTls

/-- Server name and fingerprints, as a part of the state. -/
def marks (s : Sink TlsCols) : Option Text × Option Text × Option Text :=
  (s.cols.tlsSni, s.cols.ja3, s.cols.ja4)

/-- Writing other columns leaves the marks alone. -/
theorem col_passes {f : TlsCols → TlsCols}
    (h : ∀ c, (f c).tlsSni = c.tlsSni ∧ (f c).ja3 = c.ja3 ∧ (f c).ja4 = c.ja4) :
    (col f).Passes marks := by
  intro s r s' he
  cases he
  obtain ⟨hsni, hja3, hja4⟩ := h s.cols
  exact ⟨⟨(), rfl⟩, by rw [marks, hsni, hja3, hja4]; rfl⟩

/-! ### The fixed part of a ClientHello -/

/-- What stands before the extensions: version, cipher suites, compression methods, and a cursor at
the extensions. -/
def helloFixed (msg : Bytes) : Except DissectError (UInt16 × Bytes × Cur) := do
  let (legacyVersion, c) ← (Cur.new msg).be16
  let c ← c.skip 32
  let (sidLen, c) ← c.u8
  let c ← c.skip sidLen.toNat
  let (csLen, c) ← c.be16
  let (csBytes, c) ← c.take csLen.toNat
  let (compLen, c) ← c.u8
  let (_, c) ← c.take compLen.toNat
  pure (legacyVersion, csBytes, c)

/-! ### Extensions -/

/-- The marks after the extensions of a hello message. -/
def extsMarks (e : Exts) (m : Option Text × Option Text × Option Text) :
    Option Text × Option Text × Option Text :=
  match e.sni with
  | some name => ((cap name 512).toOption, m.2)
  | none => m

/-- What is recorded of the extensions after the server name. -/
def afterSni (e : Exts) : M Unit := do
  if e.alpn ≠ [] then
    col fun c => { c with tlsAlpn := some (Text.join [','] e.alpn) }
  if e.groups ≠ [] then
    col fun c => { c with tlsSupportedGroups := some (commaJoined e.groups) }
  if e.sigAlgs ≠ [] then
    col fun c => { c with tlsSigAlgs := some (Text.join [','] (e.sigAlgs.map hex4)) }
  if e.pointFormats ≠ [] then
    col fun c => { c with tlsEcPointFormats := some (byteList e.pointFormats) }
  if e.supportedVersions ≠ [] then
    let versions := (e.supportedVersions.filter (!isGrease ·)).map versionName
    col fun c => { c with tlsSupportedVersions := some (Text.join [','] versions) }

/-- The server name, and what is recorded after it. -/
def fromSni (e : Exts) : M Unit := do
  if let some name := e.sni then
    let name ← cap name 512
    col fun c => { c with tlsSni := some name }
  afterSni e

theorem applyExts_eq (e : Exts) :
    applyExts e =
      if e.ids ≠ [] then
        (col fun c => { c with tlsExtensionCount := some (UInt16.ofNat e.ids.length),
                               tlsExtensions := some (commaJoined e.ids) }) >>= fun _ => fromSni e
      else fromSni e := rfl

theorem afterSni_passes (e : Exts) : (afterSni e).Passes marks := by
  unfold afterSni
  dsimp only
  iterate 4 refine passes_optional (col_passes fun c => ⟨rfl, rfl, rfl⟩) ?_
  split
  · exact col_passes fun c => ⟨rfl, rfl, rfl⟩
  · exact passes_pure _

theorem fromSni_exec {e : Exts} {s s' : Sink TlsCols} {r : Except DissectError Unit}
    (h : (fromSni e).exec s = .ok (r, s')) : (∃ u, r = .ok u) ∧ marks s' = extsMarks e (marks s) := by
  unfold fromSni at h
  unfold extsMarks
  dsimp only at h
  cases hsni : e.sni with
  | none =>
      rw [hsni] at h
      exact afterSni_passes e _ _ _ h
  | some name =>
      rw [hsni] at h
      dsimp only
      obtain ⟨v, hv, h⟩ := exec_panic_bind_eq_ok.mp h
      rw [exec_col_bind] at h
      rw [hv]
      exact afterSni_passes e _ _ _ h

/-- The extensions of a hello message, as far as the marks go. -/
theorem applyExts_exec {e : Exts} {s s' : Sink TlsCols} {r : Except DissectError Unit}
    (h : (applyExts e).exec s = .ok (r, s')) : (∃ u, r = .ok u) ∧ marks s' = extsMarks e (marks s) := by
  rw [applyExts_eq] at h
  split at h
  · rw [exec_col_bind] at h
    obtain ⟨hr, hmarks⟩ := fromSni_exec h
    exact ⟨hr, hmarks⟩
  · exact fromSni_exec h

/-! ### Hello messages -/

section Hello

variable [Hashes]

/-- **A ClientHello gives up on its fixed part, with no mark written, or gets to its extensions.** -/
theorem clientHello_follows (msg : Bytes) :
    (clientHello msg false).Follows marks (helloFixed msg) fun x =>
      clientHelloCols x.1 (words x.2.1) (parseExtensions x.2.2) := by
  refine follows_read fun ⟨v, c⟩ => follows_read fun c => follows_read fun ⟨sidLen, c⟩ => ?_
  refine follows_keeps (col_passes fun s => ⟨rfl, rfl, rfl⟩) fun _ => follows_read fun c => ?_
  -- no cookie outside DTLS
  dsimp only
  rw [if_neg (by decide), pure_bind]
  refine follows_read fun ⟨csLen, c⟩ => follows_read fun ⟨csBytes, c⟩ => ?_
  refine follows_read fun ⟨compLen, c⟩ => follows_read fun ⟨comps, c⟩ => ?_
  exact follows_keeps (col_passes fun s => ⟨rfl, rfl, rfl⟩) fun _ => follows_pure (v, csBytes, c)
    fun x : UInt16 × Bytes × Cur => clientHelloCols x.1 (words x.2.1) (parseExtensions x.2.2)

/-- The JA3 fingerprint of a ClientHello. -/
def helloJa3 (v : UInt16) (suites : List UInt16) (e : Exts) : Text × Text :=
  ja3 { version := v, ciphers := suites, extensions := e.ids, curves := e.groups,
        pointFormats := e.pointFormats }

/-- The JA4 fingerprint of a ClientHello. -/
def helloJa4 (v : UInt16) (suites : List UInt16) (e : Exts) : Text :=
  ja4 { version := effectiveVersion v e, isQuic := false, hasSni := e.sni.isSome, ciphers := suites,
        extensions := e.ids, sigAlgs := e.sigAlgs, alpn := e.alpn.head? }

end Hello

end AppTls

/-! ### A ClientHello on the wire -/

/-- A number in two bytes. -/
def be16Bytes (n : ℕ) : Bytes := [UInt8.ofNat (n / 256), UInt8.ofNat n]

/-- A number in three bytes. -/
def be24Bytes (n : ℕ) : Bytes := [UInt8.ofNat (n / 65536), UInt8.ofNat (n / 256), UInt8.ofNat n]

theorem toNat_be16Bytes {n : ℕ} (h : n < 2 ^ 16) :
    (UInt16.ofNat (beNat (be16Bytes n))).toNat = n := by
  simp only [be16Bytes, beNat, List.foldl_cons, List.foldl_nil, UInt8.toNat_ofNat',
    UInt16.toNat_ofNat']
  omega

theorem toNat_be24Bytes {n : ℕ} (h : n < 2 ^ 24) :
    (UInt32.ofNat (beNat (be24Bytes n))).toNat = n := by
  simp only [be24Bytes, beNat, List.foldl_cons, List.foldl_nil, UInt8.toNat_ofNat',
    UInt32.toNat_ofNat']
  omega

/-- A complete ClientHello in a TLS record of its own.  The extension block may be absent. -/
structure ClientHello where
  recordVersion : Bytes
  version : Bytes
  random : Bytes
  sessionId : Bytes
  suites : Bytes
  compression : Bytes
  extensions : Option Bytes
  length_recordVersion : recordVersion.length = 2
  length_version : version.length = 2
  length_random : random.length = 32
  sessionId_lt : sessionId.length < 2 ^ 8
  suites_lt : suites.length < 2 ^ 16
  compression_lt : compression.length < 2 ^ 8
  extensions_lt : ∀ block, extensions = some block → block.length < 2 ^ 16
  length_lt : 42 + sessionId.length + suites.length + compression.length +
    (extensions.elim 0 fun block => 2 + block.length) < 2 ^ 16

namespace ClientHello

variable (h : ClientHello)

/-- The extension block with its length. -/
def tail : Bytes := h.extensions.elim [] fun block => be16Bytes block.length ++ block

/-- The message: its parts in order. -/
def message : Bytes :=
  h.version ++ (h.random ++ (UInt8.ofNat h.sessionId.length :: (h.sessionId ++
    (be16Bytes h.suites.length ++ (h.suites ++
      (UInt8.ofNat h.compression.length :: (h.compression ++ h.tail)))))))

/-- The length of what stands before the extensions. -/
def fixedLen : ℕ := 38 + h.sessionId.length + h.suites.length + h.compression.length

/-- The handshake message with its header. -/
def handshake : Bytes := 1 :: (be24Bytes h.message.length ++ h.message)

/-- The record. -/
def bytes : Bytes := 22 :: (h.recordVersion ++ (be16Bytes h.handshake.length ++ h.handshake))

/-- Where the extensions start in the record: the end of the compression methods. -/
def extStart : ℕ := 9 + h.fixedLen

/-- The version that the hello message names. -/
def legacyVersion : UInt16 := UInt16.ofNat (beNat h.version)

theorem length_message : h.message.length = h.fixedLen + h.tail.length := by
  simp only [message, List.length_append, List.length_cons, h.length_version, h.length_random,
    be16Bytes, List.length_nil, fixedLen]
  omega

/-- **The fixed part of a ClientHello that was cut off**: it is read in full, or the read fails. -/
theorem helloFixed_take (j : ℕ) :
    (j < h.fixedLen ∧ ∃ e, AppTls.helloFixed (h.message.take j) = .error e) ∨
    (h.fixedLen ≤ j ∧ ∃ c, AppTls.helloFixed (h.message.take j) =
      .ok (h.legacyVersion, h.suites, c) ∧ c.rest = h.tail.take (j - h.fixedLen)) := by
  have hlen : h.fixedLen = 38 + h.sessionId.length + h.suites.length + h.compression.length := rfl
  have hsid : (UInt8.ofNat h.sessionId.length).toNat = h.sessionId.length :=
    UInt8.toNat_ofNat_of_lt h.sessionId_lt
  have hcomp : (UInt8.ofNat h.compression.length).toNat = h.compression.length :=
    UInt8.toNat_ofNat_of_lt h.compression_lt
  have hsuites := toNat_be16Bytes h.suites_lt
  have hrest : (Cur.new (h.message.take j)).rest = h.message.take j := rfl
  -- each part is read in full, or the cut lies in it
  unfold AppTls.helloFixed
  obtain ⟨hj₁, c₁, hc₁, hrest₁⟩ | ⟨hj, hc⟩ :=
    Cur.read_of_rest (fun b => UInt16.ofNat (beNat b)) hrest h.length_version
  case inr => exact .inl ⟨by omega, _, bind_of_error hc _⟩
  rw [bind_of_ok (show (Cur.new (h.message.take j)).be16 = _ from hc₁)]
  dsimp only
  obtain ⟨hj₂, c₂, hc₂, hrest₂⟩ | ⟨hj, hc⟩ := Cur.skip_of_rest hrest₁ h.length_random
  case inr => exact .inl ⟨by omega, _, bind_of_error hc _⟩
  rw [bind_of_ok hc₂]
  obtain ⟨hj₃, c₃, hc₃, hrest₃⟩ | ⟨hj, hc⟩ := Cur.u8_of_rest hrest₂
  case inr => exact .inl ⟨by omega, _, bind_of_error hc _⟩
  rw [bind_of_ok hc₃]
  dsimp only
  obtain ⟨hj₄, c₄, hc₄, hrest₄⟩ | ⟨hj, hc⟩ := Cur.skip_of_rest hrest₃ hsid.symm
  case inr => exact .inl ⟨by omega, _, bind_of_error hc _⟩
  rw [bind_of_ok hc₄]
  obtain ⟨hj₅, c₅, hc₅, hrest₅⟩ | ⟨hj, hc⟩ :=
    Cur.read_of_rest (n := 2) (fun b => UInt16.ofNat (beNat b)) hrest₄ rfl
  case inr => exact .inl ⟨by omega, _, bind_of_error hc _⟩
  rw [bind_of_ok (show c₄.be16 = _ from hc₅)]
  dsimp only
  obtain ⟨hj₆, c₆, hc₆, hrest₆⟩ | ⟨hj, hc⟩ := Cur.take_of_rest hrest₅ hsuites.symm
  case inr => exact .inl ⟨by omega, _, bind_of_error hc _⟩
  rw [bind_of_ok hc₆]
  dsimp only
  obtain ⟨hj₇, c₇, hc₇, hrest₇⟩ | ⟨hj, hc⟩ := Cur.u8_of_rest hrest₆
  case inr => exact .inl ⟨by omega, _, bind_of_error hc _⟩
  rw [bind_of_ok hc₇]
  dsimp only
  obtain ⟨hj₈, c₈, hc₈, hrest₈⟩ | ⟨hj, hc⟩ := Cur.take_of_rest hrest₇ hcomp.symm
  case inr => exact .inl ⟨by omega, _, bind_of_error hc _⟩
  rw [bind_of_ok hc₈]
  refine .inr ⟨by omega, c₈, rfl, ?_⟩
  rw [hrest₈]
  congr 1
  omega

theorem length_handshake : h.handshake.length = 4 + h.message.length := by
  rw [handshake, List.length_cons, List.length_append]
  change 3 + _ + 1 = _
  omega

theorem length_bytes : h.bytes.length = 5 + h.handshake.length := by
  rw [bytes, List.length_cons, List.length_append, h.length_recordVersion, List.length_append]
  change 2 + (2 + _) + 1 = _
  omega

theorem length_tail :
    h.tail.length = h.extensions.elim 0 fun block => 2 + block.length := by
  rw [tail]
  cases h.extensions with
  | none => rfl
  | some block => exact (List.length_append).trans rfl

theorem length_handshake_lt : h.handshake.length < 2 ^ 16 := by
  have hlt := h.length_lt
  rw [length_handshake, h.length_message, length_tail, fixedLen]
  omega

section CutOff

variable [Hashes] {s s' : Sink TlsCols}

/-- A handshake that was cut off before its extensions leaves the marks alone. -/
theorem handshake_take {j : ℕ} (hj : j < 4 + h.fixedLen) {r : Except DissectError Unit}
    (hexec : (AppTls.handshake (h.handshake.take j) false).exec s = .ok (r, s')) :
    AppTls.marks s' = AppTls.marks s := by
  have hlen := h.length_handshake
  have hremaining : (Cur.new (h.handshake.take j)).remaining = min j h.handshake.length := by
    rw [← Cur.length_rest]
    exact List.length_take
  unfold AppTls.handshake AppTls.handshakeLoop at hexec
  by_cases hroom : 4 ≤ (Cur.new (h.handshake.take j)).remaining
  · -- the header of the message is there, and a first part of the message
    obtain ⟨i, rfl⟩ : ∃ i, j = 4 + i := ⟨j - 4, by omega⟩
    have hrest : (Cur.new (h.handshake.take (4 + i))).rest =
        1 :: (be24Bytes h.message.length ++ h.message.take i) := by
      change (1 :: (be24Bytes h.message.length ++ h.message)).take (4 + i) = _
      rw [show 4 + i = 3 + i + 1 by omega, List.take_succ_cons]
      have hheader : (be24Bytes h.message.length).length = 3 := rfl
      rw [← hheader, List.take_length_add_append]
    obtain ⟨c₁, htype, hrest₁⟩ := Cur.exists_u8 hrest
    obtain ⟨c₂, hhlen, hrest₂⟩ := Cur.exists_be24 hrest₁ rfl
    obtain ⟨e, hfixed⟩ : ∃ e, AppTls.helloFixed (h.message.take i) = .error e := by
      obtain ⟨-, hfixed⟩ | ⟨hle, -⟩ := h.helloFixed_take i
      · exact hfixed
      · omega
    have hmsg := h.length_handshake_lt
    have hall : c₂.remaining ≤
        (UInt32.ofNat (beNat (be24Bytes h.message.length))).toNat := by
      rw [toNat_be24Bytes (by omega), ← Cur.length_rest, hrest₂, List.length_take]
      exact Nat.min_le_right _ _
    obtain ⟨c₃, htake, -⟩ := c₂.take_remaining hall
    rw [if_pos hroom, htype, exec_ok_bind] at hexec
    dsimp only at hexec
    rw [hhlen, exec_ok_bind] at hexec
    dsimp only at hexec
    rw [if_neg Bool.false_ne_true, pure_bind, htake, exec_ok_bind, hrest₂] at hexec
    dsimp only at hexec
    rw [exec_bind, exec_cols] at hexec
    dsimp only at hexec
    -- the message is given up on, with the marks as they were
    have hafter : ∀ s₁ : Sink TlsCols, AppTls.marks s₁ = AppTls.marks s →
        (AppTls.clientHello (h.message.take i) false >>= fun _ =>
          AppTls.handshakeLoop false 7 c₃).exec s₁ = .ok (r, s') →
        AppTls.marks s' = AppTls.marks s := by
      intro s₁ hs₁ hrun
      have hgiven : ∀ r₂ s₂, (AppTls.clientHello (h.message.take i) false).exec s₁ =
          .ok (r₂, s₂) → r₂ = .error e ∧ AppTls.marks s₂ = AppTls.marks s₁ := by
        intro r₂ s₂ hmsg
        obtain ⟨e', he, hr, hmarks⟩ | ⟨x, s₃, hx, -⟩ :=
          AppTls.clientHello_follows _ s₁ r₂ s₂ hmsg
        · rw [hfixed] at he
          cases he
          exact ⟨hr, hmarks⟩
        · rw [hfixed] at hx
          cases hx
      obtain ⟨u, s₂, hfirst, -⟩ | ⟨e', hfirst, -⟩ := exec_bind_eq_ok.mp hrun
      · cases (hgiven _ _ hfirst).1
      · exact (hgiven _ _ hfirst).2.trans hs₁
    split at hexec
    · rw [exec_col_bind, if_pos rfl] at hexec
      refine hafter _ ?_ hexec
      rfl
    · rw [if_pos rfl] at hexec
      exact hafter s rfl hexec
  · rw [if_neg hroom] at hexec
    cases hexec
    rfl

/-- **A record that was cut off before the extensions shows no marks**: the dissector takes it, and
leaves the marks alone. -/
theorem parse_take {k : ℕ} (hk : k < h.extStart) {r : Except DissectError Unit}
    (hexec : (AppTls.parse (h.bytes.take k) false).exec s = .ok (r, s')) :
    r = .ok () ∧ AppTls.marks s' = AppTls.marks s := by
  have hlen := h.length_bytes
  have hremaining : (Cur.new (h.bytes.take k)).remaining = min k h.bytes.length := by
    rw [← Cur.length_rest]
    exact List.length_take
  unfold AppTls.parse at hexec
  rw [if_neg Bool.false_ne_true, exec_bind, exec_layer] at hexec
  dsimp only at hexec
  rw [exec_col_bind] at hexec
  unfold AppTls.recordLoop at hexec
  by_cases hroom : 5 ≤ (Cur.new (h.bytes.take k)).remaining
  · -- the header of the record is there, and a first part of the handshake
    obtain ⟨i, rfl⟩ : ∃ i, k = 5 + i := ⟨k - 5, by omega⟩
    have hrest : (Cur.new (h.bytes.take (5 + i))).rest = 22 :: (h.recordVersion ++
        (be16Bytes h.handshake.length ++ h.handshake.take i)) := by
      change (22 :: (h.recordVersion ++ (be16Bytes h.handshake.length ++ h.handshake))).take
        (5 + i) = _
      have hversion : h.recordVersion.length + (2 + i) = 4 + i := by
        rw [h.length_recordVersion]
        omega
      have hlength : (be16Bytes h.handshake.length).length = 2 := rfl
      rw [show 5 + i = 4 + i + 1 by omega, List.take_succ_cons, ← hversion,
        List.take_length_add_append, ← hlength, List.take_length_add_append]
    obtain ⟨c₁, htype, hrest₁⟩ := Cur.exists_u8 hrest
    obtain ⟨c₂, hversion, hrest₂⟩ := Cur.exists_be16 hrest₁ h.length_recordVersion
    obtain ⟨c₃, hlength, hrest₃⟩ := Cur.exists_be16 hrest₂ rfl
    have hall : c₃.remaining ≤
        (UInt16.ofNat (beNat (be16Bytes h.handshake.length))).toNat := by
      rw [toNat_be16Bytes h.length_handshake_lt, ← Cur.length_rest, hrest₃, List.length_take]
      exact Nat.min_le_right _ _
    obtain ⟨c₄, htake, hend⟩ := c₃.take_remaining hall
    rw [if_pos hroom, htype, exec_ok_bind] at hexec
    dsimp only at hexec
    rw [hversion, exec_ok_bind] at hexec
    dsimp only at hexec
    rw [if_neg Bool.false_ne_true, pure_bind, hlength, exec_ok_bind] at hexec
    dsimp only at hexec
    rw [if_pos rfl, exec_col_bind, htake, exec_ok_bind, hrest₃] at hexec
    dsimp only at hexec
    rw [if_pos rfl] at hexec
    -- an attempt at the handshake, and nothing behind it
    obtain ⟨x, s₂, hattempt, hexec⟩ | ⟨e, hattempt, -⟩ := exec_bind_eq_ok.mp hexec
    · rw [exec_attempt] at hattempt
      obtain ⟨⟨r₂, s₃⟩, hhandshake, hpair⟩ := map_eq_ok_iff.mp hattempt
      cases hpair
      have hstart : h.extStart = 9 + h.fixedLen := rfl
      have hmarks := h.handshake_take (by omega) hhandshake
      cases r₂ with
      | error e =>
          cases hexec
          exact ⟨rfl, hmarks⟩
      | ok u =>
          change (AppTls.recordLoop false 7 false c₄).exec s₃ = _ at hexec
          rw [AppTls.recordLoop, if_neg (by rw [hend]; decide)] at hexec
          cases hexec
          exact ⟨rfl, hmarks⟩
    · rw [exec_attempt] at hattempt
      obtain ⟨x, -, hpair⟩ := map_eq_ok_iff.mp hattempt
      cases hpair
  · rw [if_neg hroom] at hexec
    cases hexec
    exact ⟨rfl, rfl⟩

end CutOff

end ClientHello

end PcapRacer
