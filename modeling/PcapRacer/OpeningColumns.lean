/-
**What a first part of a message shows.**

A client sends a request head, or a ClientHello in a record of its own.  Application dispatch tries
the dissector of the destination port, the one of the source port and the signatures, in this order,
and the columns of an attempt that gave up stay.  For a first part of the message on a port of its
dissector, the columns that identify a connection (server name, host, JA3 and JA4) are what that
dissector makes of it: the other attempts add nothing.

Main definitions:

* `Shown`, `App.shown` — server name, host and fingerprints of the columns;
* `App.Calm` — a dissector that leaves these empty;
* `Opening`, `Opening.ClearAt` — the message, and where it may be cut.

Main results:

* `App.request_shown` — the columns of bytes that start with a visible character, on a port of HTTP;
* `App.hello_shown` — the columns of a ClientHello that was cut off before its extensions;
* `Opening.shown_take` — **a part that ends at a clear place shows nothing, or what the whole
  message shows**.
-/

import PcapRacer.HttpHost
import PcapRacer.SegmentRows
import PcapRacer.TlsHello

set_option relaxedAutoImplicit false
set_option autoImplicit false

namespace PcapRacer

/-! ### Dissectors that show nothing -/

section Keeps

variable {σ α β γ : Type} {part : σ → γ}

/-- A read that succeeds, and then something else. -/
theorem keeps_ok_bind {a : α} {f : α → Dissect σ β} (h : (f a).Keeps part) :
    ((liftM (Except.ok a : Except DissectError α) : Dissect σ α) >>= f).Keeps part := by
  intro s r s' hexec
  rw [exec_ok_bind] at hexec
  exact h s r s' hexec

end Keeps

namespace AppTls

variable [Hashes]

/-- **A payload that does not start with a record of TLS shows no marks.** -/
theorem parse_marks {b : UInt8} {rest : Bytes} (hb : 0x18 ≤ b) (isDtls : Bool) :
    (parse (b :: rest) isDtls).Keeps marks := by
  have hne : b ≠ 22 ∧ b ≠ 21 ∧ ¬ (b = 23 ∨ b = 20) := by
    rw [UInt8.le_iff_toNat_le] at hb
    refine ⟨?_, ?_, ?_⟩
    · rintro rfl
      exact absurd hb (by decide)
    · rintro rfl
      exact absurd hb (by decide)
    · rintro (rfl | rfl)
      · exact absurd hb (by decide)
      · exact absurd hb (by decide)
  have hcol : ∀ f : TlsCols → TlsCols,
      (∀ c, (f c).tlsSni = c.tlsSni ∧ (f c).ja3 = c.ja3 ∧ (f c).ja4 = c.ja4) →
      (col f).Keeps marks := fun f hf s r s' h => (col_passes hf s r s' h).2
  obtain ⟨c₁, hu8, -⟩ := Cur.exists_u8 (c := Cur.new (b :: rest)) rfl
  have hloop : (recordLoop isDtls 8 true (Cur.new (b :: rest))).Keeps marks := by
    unfold recordLoop
    rw [hu8]
    refine keeps_ite (keeps_ok_bind ?_) (keeps_pure _)
    -- whatever the lengths are, no branch for the type of the record is taken
    refine keeps_bind (keeps_liftError _) fun version => ?_
    simp only [hne.1, hne.2.1, hne.2.2, if_false, if_true]
    have hbody : ∀ x : UInt16 × Cur, (do
        col fun c => { c with tlsRecordType := some b,
                              tlsRecordVersion := some (versionName version.1) }
        let _ ← liftM (x.2.take (min x.1.toNat x.2.remaining))
        pure () : M Unit).Keeps marks := fun x =>
      keeps_bind (hcol _ fun c => ⟨rfl, rfl, rfl⟩) fun _ =>
        keeps_bind (keeps_liftError _) fun _ => keeps_pure ()
    refine keeps_ite ?_ ?_
    · exact keeps_bind (keeps_liftError _) fun _ => keeps_bind (keeps_liftError _) hbody
    · exact keeps_bind (keeps_pure _) fun _ => keeps_bind (keeps_liftError _) hbody
  refine keeps_bind (fun s r s' h => ?_) fun _ => keeps_bind (hcol _ fun c => ⟨rfl, rfl, rfl⟩)
    fun _ => hloop
  cases h
  rfl

end AppTls

/-! ### Server name, host and fingerprints -/

/-- The details that identify what a client connects to. -/
@[ext] structure Shown where
  sni : Option Text := none
  httpHost : Option Text := none
  ja3 : Option Text := none
  ja4 : Option Text := none

namespace App

/-- Server name, host and fingerprints of the columns. -/
def shown (a : AppCols) : Shown :=
  { sni := a.tls.tlsSni, httpHost := a.http.httpHost, ja3 := a.tls.ja3, ja4 := a.tls.ja4 }

/-- Nothing has been shown. -/
def Untold (s : Sink AppCols) : Prop := shown s.cols = {}

/-- The dissector shows nothing. -/
def Calm (d : M Unit) : Prop := ∀ s r s', d.exec s = .ok (r, s') → Untold s → Untold s'

/-- A dissector of other columns is calm. -/
theorem calm_part {C : Type} {get : AppCols → C} {set : C → AppCols → AppCols}
    (h : ∀ c a, shown (set c a) = shown a) (d : Dissect (Sink C) Unit) : Calm (part get set d) := by
  intro s r s' hexec hs
  have hkeeps : (part get set d).Keeps fun t : Sink AppCols => shown t.cols :=
    keeps_zoom fun t a => h t.cols a.cols
  exact (hkeeps s r s' hexec).trans hs

/-- What the HTTP dissector shows is the host of its payload. -/
theorem http_shown {payload : Bytes} {s s' : Sink AppCols} {r : Except DissectError Unit}
    (hexec : (http (AppHttp.parse payload)).exec s = .ok (r, s')) (hs : Untold s) :
    shown s'.cols = { httpHost := AppHttp.shownHost payload } ∧
      ((∃ u, r = .ok u) ∨ AppHttp.shownHost payload = none) := by
  rw [http, part, zoom_exec] at hexec
  obtain ⟨⟨r₂, t⟩, hparse, hpair⟩ := map_eq_ok_iff.mp hexec
  cases hpair
  unfold Untold shown at hs
  simp only [Shown.mk.injEq] at hs
  obtain ⟨hsni, hhost, hja3, hja4⟩ := hs
  obtain ⟨hshown, hr⟩ := AppHttp.parse_host hparse hhost
  refine ⟨?_, hr⟩
  unfold shown
  simp only [hsni, hja3, hja4]
  exact congrArg (fun host => ({ httpHost := host } : Shown)) hshown

theorem calm_http {payload : Bytes} (h : AppHttp.shownHost payload = none) :
    Calm (http (AppHttp.parse payload)) := by
  intro s r s' hexec hs
  have hshown := (http_shown hexec hs).1
  rwa [h] at hshown

/-- The SMB dissector after the session header. -/
theorem calm_netbiosSession (payload : Bytes) : Calm (netbiosSession payload) := by
  intro s r s' hexec hs
  have hsmb : Calm (smb (AppSmb.parse payload)) := by
    refine calm_part ?_ _
    exact fun _ _ => rfl
  have hnbss : Calm (misc (AppMisc.nbss payload)) := by
    refine calm_part ?_ _
    exact fun _ _ => rfl
  obtain ⟨x, s₁, hattempt, hrest⟩ | ⟨e, hattempt, -⟩ := exec_bind_eq_ok.mp hexec
  · rw [exec_attempt] at hattempt
    obtain ⟨⟨r₂, s₂⟩, hfirst, hpair⟩ := map_eq_ok_iff.mp hattempt
    cases hpair
    exact hsmb _ _ _ hrest (hnbss _ _ _ hfirst hs)
  · rw [exec_attempt] at hattempt
    obtain ⟨x, -, hpair⟩ := map_eq_ok_iff.mp hattempt
    cases hpair

/-- On a port of HTTP as well. -/
theorem calm_httpPort {payload : Bytes} (h2 : AppHttp.looksLikeHttp2 payload = false)
    (hhost : AppHttp.shownHost payload = none) : Calm (httpPort payload) := by
  have heq : httpPort payload = http (AppHttp.parse payload) := if_neg (by rw [h2]; decide)
  rw [heq]
  exact calm_http hhost

/-- A calm attempt. -/
theorem untold_tryDissector {d : Option (M Unit)} (hd : ∀ d', d = some d' → Calm d')
    {s s' : Sink AppCols} {settled : Bool} (h : tryDissector d s = .ok (settled, s'))
    (hs : Untold s) : Untold s' := by
  cases d with
  | none =>
      cases h
      exact hs
  | some d =>
      rw [tryDissector] at h
      split at h
      · cases h
      · next s₁ hexec =>
          cases h
          exact hd d rfl _ _ _ hexec hs
      · next s₁ hexec =>
          cases h
          exact hd d rfl _ _ s₁ hexec hs

theorem untold_orElse {d : Option (M Unit)} (hd : ∀ d', d = some d' → Calm d')
    {s s' : Sink AppCols} {settled settled' : Bool}
    (h : orElse (.ok (settled, s)) d = .ok (settled', s')) (hs : Untold s) : Untold s' := by
  cases settled with
  | true =>
      cases h
      exact hs
  | false => exact untold_tryDissector hd h hs

/-- The payload starts with a visible character. -/
def Visible (payload : Bytes) : Prop := ∃ b rest, payload = b :: rest ∧ 0x21 ≤ b

section Dispatch

variable [Hashes] {payload : Bytes}

theorem calm_tls (h : Visible payload) (isDtls : Bool) :
    Calm (tls (AppTls.parse payload isDtls)) := by
  obtain ⟨b, rest, rfl, hlow⟩ := h
  intro s r s' hexec hs
  rw [tls, part, zoom_exec] at hexec
  obtain ⟨⟨r₂, t⟩, hparse, hpair⟩ := map_eq_ok_iff.mp hexec
  cases hpair
  have hb : (0x18 : UInt8) ≤ b := UInt8.le_trans (by decide) hlow
  have hmarks := AppTls.parse_marks hb isDtls _ _ _ hparse
  simp only [AppTls.marks, Prod.mk.injEq] at hmarks
  unfold Untold shown at hs ⊢
  rw [← hs]
  simp only [hmarks]

/-- **On no port does a dissector show anything of a payload that starts with a visible character
and shows no host.** -/
theorem calm_byTcpPort (hvis : Visible payload) (h2 : AppHttp.looksLikeHttp2 payload = false)
    (hhost : AppHttp.shownHost payload = none) (port : UInt16) (server : Bool) {d : M Unit}
    (h : byTcpPort payload port server = some d) : Calm d := by
  unfold byTcpPort at h
  split at h
  all_goals cases h
  all_goals first
    | with_reducible exact calm_httpPort h2 hhost
    | with_reducible exact calm_netbiosSession payload
    | with_reducible exact calm_tls hvis false
    | refine calm_part ?_ _
      exact fun _ _ => rfl

theorem calm_sniff (hvis : Visible payload) (h2 : AppHttp.looksLikeHttp2 payload = false)
    (hhost : AppHttp.shownHost payload = none) {d : M Unit} (h : sniff payload true = some d) :
    Calm d := by
  have hother : ∀ {C : Type} {get : AppCols → C} {set : C → AppCols → AppCols}
      (d : Dissect (Sink C) Unit), (∀ c a, shown (set c a) = shown a) → Calm (part get set d) :=
    fun d hset => calm_part hset d
  have hne : payload ≠ [] := by
    rintro rfl
    obtain ⟨b, rest, hcons, -⟩ := hvis
    cases hcons
  unfold sniff at h
  rw [if_neg hne, h2, if_neg Bool.false_ne_true] at h
  refine AppHttp.of_ite_eq_some (P := Calm) h (calm_http hhost) fun h => ?_
  refine AppHttp.of_ite_eq_some (P := Calm) h (calm_tls hvis _) fun h => ?_
  refine AppHttp.of_ite_eq_some (P := Calm) h (calm_tls hvis _) fun h => ?_
  iterate 8 refine AppHttp.of_ite_eq_some (P := Calm) h (hother _ fun _ _ => rfl) fun h => ?_
  cases h

/-- **The columns of bytes that start with a visible character, on a port of HTTP**: the host that
the bytes show. -/
theorem request_shown (hvis : Visible payload) (h2 : AppHttp.looksLikeHttp2 payload = false)
    {sport dport : UInt16} (hport : byTcpPort payload dport false = some (httpPort payload))
    {s s' : Sink AppCols} (h : identify payload sport dport true s = .ok s') (hs : Untold s) :
    shown s'.cols = { httpHost := AppHttp.shownHost payload } := by
  have heq : byPort payload dport true false = some (http (AppHttp.parse payload)) :=
    hport.trans (congrArg some (if_neg (by rw [h2]; decide)))
  unfold identify at h
  dsimp only at h
  rw [heq, tryDissector] at h
  split at h
  · cases h
  · next s₁ hexec =>
      -- the dissector of the destination port accepts
      cases h
      exact (http_shown hexec hs).1
  · next e s₁ hexec =>
      -- it gives up, so there is no host, and the other attempts are calm
      obtain ⟨hshown, ⟨u, hu⟩ | hhost⟩ := http_shown hexec hs
      · cases hu
      rw [hhost] at hshown ⊢
      obtain ⟨⟨settled, s₂⟩, hlast, rfl⟩ := map_eq_ok_iff.mp h
      have hsource : ∀ d', (if sport = dport then none else byPort payload sport true true) =
          some d' → Calm d' := by
        intro d' hd'
        split at hd'
        · cases hd'
        · exact calm_byTcpPort hvis h2 hhost sport true hd'
      rcases hmiddle : orElse (.ok (false, { s₁ with stack := s₁.stack.take s.stack.length }))
        (if sport = dport then none else byPort payload sport true true) with q | ⟨settled₁, s₃⟩
      · rw [hmiddle] at hlast
        cases hlast
      rw [hmiddle] at hlast
      have huntold := untold_orElse hsource hmiddle hshown
      exact untold_orElse (fun d hd => calm_sniff hvis h2 hhost hd) hlast huntold

/-- **The columns of a ClientHello that was cut off before its extensions**, on a port of TLS: none
of the four. -/
theorem hello_shown (hello : ClientHello) {k : ℕ} (hk : k < hello.extStart) {sport dport : UInt16}
    (hport : byTcpPort (hello.bytes.take k) dport false =
      some (tls (AppTls.parse (hello.bytes.take k) false)))
    {s s' : Sink AppCols} (h : identify (hello.bytes.take k) sport dport true s = .ok s')
    (hs : Untold s) : Untold s' := by
  cases hexec : (tls (AppTls.parse (hello.bytes.take k) false)).exec s with
  | error q =>
      unfold identify byPort at h
      dsimp only at h
      rw [if_pos rfl, hport, tryDissector, hexec] at h
      cases h
  | ok x =>
      obtain ⟨r, s₁⟩ := x
      have htls := hexec
      rw [tls, part, zoom_exec] at htls
      obtain ⟨⟨r₂, t⟩, hparse, hpair⟩ := map_eq_ok_iff.mp htls
      cases hpair
      obtain ⟨rfl, hmarks⟩ := hello.parse_take hk hparse
      have hport' : byPort (hello.bytes.take k) dport true false =
          some (tls (AppTls.parse (hello.bytes.take k) false)) := hport
      rw [identify_of_byPort hport' hexec] at h
      cases h
      simp only [AppTls.marks, Prod.mk.injEq] at hmarks
      unfold Untold shown at hs ⊢
      rw [← hs]
      simp only [hmarks]

end Dispatch

end App

/-! ### What a client sends first -/

/-- What a client sends first: a complete request head, or a complete ClientHello in a record of its
own. -/
inductive Opening where
  | request (head : RequestHead)
  | hello (message : ClientHello)

namespace Opening

def bytes : Opening → Bytes
  | .request head => head.bytes
  | .hello message => message.bytes

theorem bytes_ne (m : Opening) : m.bytes ≠ [] := by
  cases m with
  | request head =>
      refine List.ne_nil_of_length_pos ?_
      rw [bytes, head.length_bytes]
      omega
  | hello message => exact List.cons_ne_nil _ _

/-- A port of its dissector. -/
def OnPort : Opening → UInt16 → Prop
  | .request _, port => port ∈ ([80, 8080, 8000, 8888, 3128] : List UInt16)
  | .hello _, port => port ∈ ([443, 8443] : List UInt16)

/-- A place where a message may be cut: outside the value of a Host header, and outside the
extensions. -/
def ClearAt : Opening → ℕ → Prop
  | .request head, k => head.ClearOfHost k
  | .hello message, k => k < message.extStart

/-- A first part of a request starts with the visible character that the request starts with. -/
theorem visible_take (head : RequestHead) {k : ℕ} (hk : 0 < k) :
    App.Visible (head.bytes.take k) := by
  obtain ⟨b, rest, hstart, hlow, -⟩ := head.start_visible
  obtain ⟨k, rfl⟩ := Nat.exists_eq_add_of_lt hk
  rw [RequestHead.bytes, lineBytes_cons, hstart]
  exact ⟨b, _, rfl, hlow⟩

section Shown

variable [Hashes] {m : Opening} {sport dport : UInt16}

theorem byTcpPort_request {port : UInt16}
    (h : port ∈ ([80, 8080, 8000, 8888, 3128] : List UInt16)) (payload : Bytes) (server : Bool) :
    App.byTcpPort payload port server = some (App.httpPort payload) := by
  simp only [List.mem_cons, List.not_mem_nil, or_false] at h
  rcases h with rfl | rfl | rfl | rfl | rfl <;> rfl

theorem byTcpPort_hello {port : UInt16} (h : port ∈ ([443, 8443] : List UInt16)) (payload : Bytes)
    (server : Bool) :
    App.byTcpPort payload port server = some (App.tls (AppTls.parse payload false)) := by
  simp only [List.mem_cons, List.not_mem_nil, or_false] at h
  rcases h with rfl | rfl <;> rfl

/-- The four columns of a first part of a request are its host. -/
theorem request_shown_take (head : RequestHead) {k : ℕ} (hk : 0 < k)
    (hport : (Opening.request head).OnPort dport) {cols : AppCols}
    (h : appColumns (head.bytes.take k) sport dport = .ok cols) :
    App.shown cols = { httpHost := AppHttp.shownHost (head.bytes.take k) } := by
  obtain ⟨s', hid, rfl⟩ := map_eq_ok_iff.mp h
  exact App.request_shown (visible_take head hk) (head.not_looksLikeHttp2 k)
    (byTcpPort_request hport _ _) hid rfl

/-- **A first part of a message that ends at a clear place shows nothing, or what the whole message
shows.** -/
theorem shown_take {k : ℕ} (hk : 0 < k) (hport : m.OnPort dport) (hclear : m.ClearAt k)
    {cols whole : AppCols} (h : appColumns (m.bytes.take k) sport dport = .ok cols)
    (hwhole : appColumns m.bytes sport dport = .ok whole) :
    App.shown cols = {} ∨ App.shown cols = App.shown whole := by
  cases m with
  | request head =>
      have hlen : 0 < head.bytes.length := List.length_pos_iff.mpr (request head).bytes_ne
      have hfull : appColumns (head.bytes.take head.bytes.length) sport dport = .ok whole := by
        rw [List.take_length]
        exact hwhole
      have hall := request_shown_take head hlen hport hfull
      rw [List.take_length, head.shownHost_bytes] at hall
      rw [request_shown_take head hk hport h, hall]
      obtain hnone | hhost := head.shownHost_take hclear
      · exact .inl (by rw [hnone])
      · exact .inr (by rw [hhost])
  | hello message =>
      obtain ⟨s', hid, rfl⟩ := map_eq_ok_iff.mp h
      exact .inl (App.hello_shown message hclear (byTcpPort_hello hport _ _) hid rfl)

end Shown

end Opening

end PcapRacer
