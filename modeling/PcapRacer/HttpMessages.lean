/-
**HTTP/1 messages, and what the dissector reads of them.**

A request or a response is rendered as a first line, one line for each header and a blank line,
each closed by CR LF, with the body behind it.  The dissector undoes this: it finds the parts of
the first line, the value of the last header of each name that has a column, the number and the
names of the headers, and a preview of the body.  A body can hold anything, header lines and blank
lines included: the head ends at the first blank line, which is the one after the headers.

Main definitions:

* `HttpHeader`, `HttpContent`, `HttpRequest`, `HttpResponse` — messages;
* `HttpContent.bytes`, `HttpRequest.bytes`, `HttpResponse.bytes` — their rendering;
* `lastValue`, `HttpRequest.columns`, `HttpResponse.columns` — what the columns should hold.

Main results:

* `AppHttp.headLines_lineBytes` — the lines of a rendered message, whatever its body;
* `AppHttp.exec_headers` — recording the header lines;
* `AppHttp.parse_inverts` — the dissector inverts the rendering.
-/

import PcapRacer.HttpHost
import PcapRacer.TextTame

set_option relaxedAutoImplicit false
set_option autoImplicit false

/-! ### Texts -/

namespace Text

/-- No white space at either end. -/
def Unspaced (t : Text) : Prop :=
  (∀ c ∈ t.head?, isWhitespace c = false) ∧ ∀ c ∈ t.getLast?, isWhitespace c = false

instance (t : Text) : Decidable t.Unspaced :=
  decidable_of_iff
    ((t.head?.all fun c => !isWhitespace c) = true ∧
      (t.getLast?.all fun c => !isWhitespace c) = true)
    (by simp [Unspaced, Option.all_eq_true])

theorem dropWhile_of_head? {p : Char → Bool} {t : Text} (h : ∀ c ∈ t.head?, p c = false) :
    t.dropWhile p = t := by
  cases t with
  | nil => rfl
  | cons c t => simp [h c rfl]

theorem trim_of_unspaced {t : Text} (h : t.Unspaced) : t.trim = t := by
  have hend : ∀ c ∈ t.reverse.head?, isWhitespace c = false := by
    intro c hc
    rw [List.head?_reverse] at hc
    exact h.2 c hc
  rw [trim, trimMatches, trimEndMatches, dropWhile_of_head? h.1, dropWhile_of_head? hend,
    List.reverse_reverse]

theorem trim_space_cons (t : Text) : trim (' ' :: t) = trim t := by
  rw [trim, trim, trimMatches, trimMatches, List.dropWhile_cons_of_pos (by decide)]

/-- ASCII bytes show up in the decoded text. -/
theorem mem_lossy_of_mem {b : UInt8} (hb : b < 0x80) {l : Bytes} (h : b ∈ l) :
    Char.ofNat b.toNat ∈ lossy l := by
  obtain ⟨a, r, rfl⟩ := List.append_of_mem h
  rw [lossy_append_cons hb]
  simp

theorem lossy_cons {b : UInt8} (hb : b < 0x80) (r : Bytes) :
    lossy (b :: r) = Char.ofNat b.toNat :: lossy r :=
  lossy_append_cons hb [] r

/-- A character takes a byte or more. -/
theorem length_le_utf8Len (t : Text) : t.length ≤ utf8Len t := by
  induction t with
  | nil => exact le_rfl
  | cons c t ih =>
      have hc : 0 < c.utf8Size := c.utf8Size_pos
      change t.length + 1 ≤ c.utf8Size + utf8Len t
      omega

/-! ### Decimal numbers -/

/-- The value of a digit. -/
theorem toNat_digitChar : ∀ d < 10, (Nat.digitChar d).toNat - '0'.toNat = d := by decide

theorem foldl_toDigits (n : ℕ) :
    (Nat.toDigits 10 n).foldl (fun n c => n * 10 + (c.toNat - '0'.toNat)) 0 = n := by
  induction n using Nat.strongRecOn with
  | ind n ih =>
      rcases Nat.lt_or_ge n 10 with hn | hn
      · rw [Nat.toDigits_of_lt_base hn]
        exact (Nat.zero_add _).trans (toNat_digitChar n hn)
      · rw [Nat.toDigits_of_base_le (by decide) hn, List.foldl_append, ih _ (by omega)]
        simp only [List.foldl_cons, List.foldl_nil, toNat_digitChar _ (Nat.mod_lt n (by decide))]
        omega

/-- **A number is read back from its digits.** -/
theorem parseUnsigned_decimal {n bound : ℕ} (h : n < bound) :
    parseUnsigned bound (decimal n) = some n := by
  have hdigit : ∀ c ∈ Nat.toDigits 10 n, c.isDigit = true := fun c hc =>
    Nat.isDigit_of_mem_toDigits (by decide) (by decide) hc
  have hne : Nat.toDigits 10 n ≠ [] := Nat.toDigits_ne_nil
  have hsign : ∀ rest, Nat.toDigits 10 n ≠ '+' :: rest := by
    intro rest he
    have := hdigit '+' (he ▸ List.mem_cons_self)
    exact absurd this (by decide)
  have hval := foldl_toDigits n
  unfold parseUnsigned decimal
  generalize Nat.toDigits 10 n = digits at hdigit hsign hne hval
  dsimp only
  split
  · next rest => exact absurd rfl (hsign rest)
  · rw [if_pos ⟨hne, List.all_eq_true.mpr hdigit⟩, hval, if_pos h]

end Text

namespace PcapRacer

open AppHttp (knownMethods)

/-! ### Messages -/

/-- A header: a name without colon, and a printable value that its column has room for; neither has
white space at its ends. -/
structure HttpHeader where
  name : Bytes
  value : Bytes
  name_colon : 58 ∉ name
  name_cr : 13 ∉ name
  name_unspaced : (Text.lossy name).Unspaced
  value_printable : ∀ b ∈ value, isPrintable b = true
  value_unspaced : (Text.lossy value).Unspaced
  value_fits : value.length ≤ 1024

namespace HttpHeader

/-- The name, whatever case it is written in. -/
def lower (h : HttpHeader) : Text := (Text.lossy h.name).toAsciiLowercase

def text (h : HttpHeader) : Text := Text.lossy h.value

/-- The line of a header. -/
def bytes (h : HttpHeader) : Bytes := h.name ++ 58 :: 32 :: h.value

end HttpHeader

/-- Headers and a body.  Names are ASCII, or their list has room in its column. -/
structure HttpContent where
  headers : List HttpHeader
  body : Bytes
  headers_few : headers.length < UInt16.size
  names_fit : (∀ h ∈ headers, ∀ b ∈ h.name, b < 0x80) ∨
    (Text.join [','] (headers.map HttpHeader.lower)).utf8Len ≤ 1024

/-- A request: a method that is known, a visible target whose parts have room in their columns, and
a version. -/
structure HttpRequest where
  method : Bytes
  uri : Bytes
  version : Bytes
  content : HttpContent
  method_known : Text.lossy method ∈ knownMethods
  uri_visible : ∀ b ∈ uri, isPrintable b = true ∧ b ≠ 32
  uri_fits : uri.length ≤ 2048
  path_fits : (uri.takeWhile (· ≠ 63)).length ≤ 1024
  query_fits : (uri.dropWhile (· ≠ 63)).tail.length ≤ 1024
  version_cr : 13 ∉ version

/-- A response: a version, a status code and a message, which may be empty. -/
structure HttpResponse where
  version : Bytes
  code : UInt16
  message : Bytes
  content : HttpContent
  version_http : Text.ascii "HTTP/" <+: version
  version_space : 32 ∉ version
  version_cr : 13 ∉ version
  message_cr : 13 ∉ message

/-- A message on the wire: its first line, its header lines, a blank line and its body. -/
def HttpContent.bytes (first : Bytes) (m : HttpContent) : Bytes :=
  lineBytes (first :: m.headers.map HttpHeader.bytes) ++ m.body

def HttpRequest.bytes (r : HttpRequest) : Bytes :=
  r.content.bytes (r.method ++ 32 :: (r.uri ++ 32 :: r.version))

def HttpResponse.bytes (r : HttpResponse) : Bytes :=
  r.content.bytes (r.version ++ 32 :: (Text.ascii (toString r.code.toNat) ++ 32 :: r.message))

/-! ### What the columns should hold -/

/-- The value of the last header of a name, given in lower case. -/
def lastValue (headers : List HttpHeader) (name : Text) : Option Text :=
  ((headers.filter fun h => h.lower = name).getLast?).map HttpHeader.text

/-- The columns of the headers, when their values by name are these. -/
def headerColumns (value : Text → Option Text) (c : HttpCols) : HttpCols :=
  { c with
    httpHost := value "host".toList
    httpUserAgent := value "user-agent".toList
    httpReferer := value "referer".toList
    httpCookie := value "cookie".toList
    httpSetCookie := value "set-cookie".toList
    httpContentType := value "content-type".toList
    httpContentLength := (value "content-length".toList).bind (Text.parseUnsigned (2 ^ 64))
    httpContentEncoding := value "content-encoding".toList
    httpTransferEncoding := value "transfer-encoding".toList
    httpAccept := value "accept".toList
    httpAcceptLanguage := value "accept-language".toList
    httpAuthorization := value "authorization".toList
    httpXForwardedFor := value "x-forwarded-for".toList
    httpServer := value "server".toList
    httpLocation := value "location".toList }

/-- The columns of headers and body. -/
def HttpContent.columns (m : HttpContent) (c : HttpCols) : HttpCols :=
  { headerColumns (lastValue m.headers) c with
    httpHeaderCount := some (UInt16.ofNatLT m.headers.length m.headers_few)
    httpHeaderNames :=
      if m.headers = [] then none
      else some (cappedAscii (Text.join [','] (m.headers.map HttpHeader.lower)) 1024)
    httpBodyPreview := if m.body = [] then none else some (preview m.body 256) }

/-- The columns of a request. -/
def HttpRequest.columns (r : HttpRequest) : HttpCols :=
  r.content.columns
    { httpIsRequest := some true
      httpMethod := some (Text.lossy r.method)
      httpUri := some (Text.lossy r.uri)
      httpUriPath := some (Text.lossy (r.uri.takeWhile (· ≠ 63)))
      httpUriQuery :=
        if 63 ∈ r.uri then some (Text.lossy (r.uri.dropWhile (· ≠ 63)).tail) else none
      httpVersion := some (Text.lossy r.version) }

/-- The columns of a response. -/
def HttpResponse.columns (r : HttpResponse) : HttpCols :=
  r.content.columns
    { httpIsRequest := some false
      httpVersion := some (Text.lossy r.version)
      httpStatusCode := some r.code
      httpStatusMsg := some (Text.lossy r.message) }

namespace AppHttp

/-! ### The head of a message -/

/-- What follows a blank line does not matter to finding it. -/
theorem findHeaderEnd_append_of_some {m : Bytes} {i : ℕ} (h : findHeaderEnd m = some i)
    (r : Bytes) : findHeaderEnd (m ++ r) = some i := by
  induction m generalizing i with
  | nil => cases h
  | cons b m ih =>
      unfold findHeaderEnd at h
      rw [List.cons_append, findHeaderEnd]
      split at h
      · next hpre =>
          cases h
          have hpre' : crlfCrlf <+: b :: (m ++ r) :=
            (List.isPrefixOf_iff_prefix.mp hpre).trans (List.prefix_append (b :: m) r)
          rw [if_pos (List.isPrefixOf_iff_prefix.mpr hpre')]
      · next hpre =>
          obtain ⟨j, hj, rfl⟩ := Option.map_eq_some_iff.mp h
          have hlen : 4 ≤ m.length := by
            have := (isPrefixOf_of_findHeaderEnd hj).length_le
            rw [List.length_drop] at this
            exact this.trans (Nat.sub_le _ _)
          -- the first four bytes are those of the shorter input
          have hpre' : ¬ crlfCrlf.isPrefixOf (b :: (m ++ r)) = true := by
            intro hlong
            refine hpre (List.isPrefixOf_iff_prefix.mpr ?_)
            exact List.prefix_of_prefix_length_le (List.isPrefixOf_iff_prefix.mp hlong)
              (List.prefix_append (b :: m) r) (Nat.le_succ_of_le hlen)
          rw [if_neg hpre', ih hj]
          rfl

/-- A head of lines, without its blank line, is those lines. -/
theorem shownLines_head {l : Bytes} {ls : List Bytes} (hcr : ∀ x ∈ l :: ls, 13 ∉ x) :
    shownLines (l :: ls) ((lineBytes (l :: ls)).length - 4) = (l :: ls).map Text.lossy := by
  induction ls generalizing l with
  | nil =>
      have hlen : (lineBytes [l]).length - 4 = l.length := by simp [lineBytes]
      rw [hlen, shownLines_of_le (hcr l List.mem_cons_self) [] le_rfl, List.take_length]
      rfl
  | cons l' ls ih =>
      have hfour : 4 ≤ (lineBytes (l' :: ls)).length := by
        rw [lineBytes_cons, List.length_append, lineBytes]
        simp
        omega
      have hlen : (lineBytes (l :: l' :: ls)).length - 4 =
          l.length + 2 + ((lineBytes (l' :: ls)).length - 4) := by
        rw [lineBytes_cons l, List.length_append, List.length_cons, List.length_cons]
        omega
      rw [hlen, shownLines_of_ge (hcr l List.mem_cons_self),
        ih fun x hx => hcr x (List.mem_cons_of_mem _ hx)]
      rfl

section Head

variable {l : Bytes} {ls : List Bytes} (hcr : ∀ x ∈ l :: ls, 13 ∉ x)

include hcr

/-- **The head ends at the blank line after the headers**, whatever the body holds. -/
theorem headAndBody_lineBytes (hne : ∀ x ∈ ls, x ≠ []) (body : Bytes) :
    headAndBody (lineBytes (l :: ls) ++ body) =
      ((lineBytes (l :: ls)).take ((lineBytes (l :: ls)).length - 4), body) := by
  have hend := findHeaderEnd_append_of_some (findHeaderEnd_lineBytes hcr hne) body
  have hfour : 4 ≤ (lineBytes (l :: ls)).length := by
    rw [lineBytes_cons, List.length_append, lineBytes]
    simp
    omega
  rw [headAndBody, hend]
  dsimp only
  rw [Nat.sub_add_cancel hfour, List.drop_left, List.take_append_of_le_length (Nat.sub_le _ _)]

/-- **The lines of a rendered message**, whatever its body. -/
theorem headLines_lineBytes (hne : ∀ x ∈ l :: ls, x ≠ []) (body : Bytes) :
    headLines (headAndBody (lineBytes (l :: ls) ++ body)).1 = (l :: ls).map Text.lossy := by
  rw [headAndBody_lineBytes hcr fun x hx => hne x (List.mem_cons_of_mem _ hx)]
  change (shownLines (l :: ls) _).filter _ = _
  rw [shownLines_head hcr, List.filter_eq_self]
  intro t ht
  obtain ⟨x, hx, rfl⟩ := List.mem_map.mp ht
  obtain ⟨b, r, rfl⟩ := List.exists_cons_of_ne_nil (hne x hx)
  rfl

end Head

/-! ### Header lines -/

end AppHttp

theorem isPrintable_lt {b : UInt8} (h : isPrintable b = true) : b < 0x80 := by
  simp only [isPrintable, Bool.and_eq_true, decide_eq_true_eq] at h
  exact UInt8.lt_trans h.2 (by decide)

/-- A field of ASCII bytes that fits is kept as it is. -/
theorem cap_lossy_of_ascii {l : Bytes} (h : ∀ b ∈ l, b < 0x80) {max : ℕ} (hlen : l.length ≤ max) :
    cap (Text.lossy l) max = .ok (Text.lossy l) := by
  have hmap : (Text.ofAscii l).length = l.length := List.length_map _
  rw [Text.lossy_eq_ofAscii h, cap_of_isAscii (Text.isAscii_ofAscii h), cappedAscii,
    if_pos (hmap.trans_le hlen)]

namespace HttpHeader

variable (h : HttpHeader)

theorem value_ascii : ∀ b ∈ h.value, b < 0x80 := fun b hb => isPrintable_lt (h.value_printable b hb)

theorem cap_text : cap h.text 1024 = .ok h.text := cap_lossy_of_ascii h.value_ascii h.value_fits

theorem cr_notMem_bytes : 13 ∉ h.bytes := by
  have hvalue : 13 ∉ h.value := fun hm => absurd (h.value_printable 13 hm) (by decide)
  simp [bytes, h.name_cr, hvalue]

theorem bytes_ne_nil : h.bytes ≠ [] := by simp [bytes]

/-- Name and value of a header line are those of the header. -/
theorem headerField_bytes :
    AppHttp.headerField (Text.lossy h.bytes) = some (Text.lossy h.name, h.text) := by
  rw [bytes, AppHttp.headerField_append_cons h.name_colon, Text.trim_of_unspaced h.name_unspaced,
    Text.lossy_cons (by decide), show Char.ofNat (32 : UInt8).toNat = ' ' from rfl,
    Text.trim_space_cons, Text.trim_of_unspaced h.value_unspaced]
  rfl

end HttpHeader

/-- A header that follows others is the last of its name. -/
theorem lastValue_append_singleton (hs : List HttpHeader) (h : HttpHeader) :
    lastValue (hs ++ [h]) =
      fun name => if h.lower = name then some h.text else lastValue hs name := by
  funext name
  by_cases hname : h.lower = name
  · simp [lastValue, hname]
  · simp [lastValue, hname]

namespace AppHttp

/-- The columns after one more header. -/
def recordHeader (lower value : Text) (c : HttpCols) : HttpCols :=
  if lower = "content-length".toList then
    { c with httpContentLength := Text.parseUnsigned (2 ^ 64) value }
  else
    match headerColumn lower with
    | some set => set value c
    | none => c

theorem exec_setHeader (h : HttpHeader) (s : Sink HttpCols) :
    (setHeader h.lower h.text).exec s =
      .ok (.ok (), { s with cols := recordHeader h.lower h.text s.cols }) := by
  unfold setHeader recordHeader
  by_cases hlen : h.lower = "content-length".toList
  · rw [if_pos hlen, if_pos hlen]
    rfl
  · rw [if_neg hlen, if_neg hlen]
    cases headerColumn h.lower with
    | none => rfl
    | some set =>
        dsimp only
        rw [h.cap_text]
        rfl

theorem ite_of {α : Type} {p : Prop} [Decidable p] {P : α → Prop} {a b : α} (ha : p → P a)
    (hb : ¬ p → P b) : P (if p then a else b) := by
  split
  · next hp => exact ha hp
  · next hp => exact hb hp

/-- What recording a header should leave. -/
def Records (lower text : Text) (value : Text → Option Text) (c : HttpCols)
    (set : Option (Text → HttpCols → HttpCols)) : Prop :=
  (match set with
    | some set => set text (headerColumns value c)
    | none => headerColumns value c) =
    headerColumns (fun name => if lower = name then some text else value name) c

/-- The column that is chosen for a name is the one of that name. -/
theorem records_headerColumn {lower : Text} (hlen : ¬ lower = "content-length".toList) (text : Text)
    (value : Text → Option Text) (c : HttpCols) :
    Records lower text value c (headerColumn lower) := by
  unfold headerColumn
  iterate 14 refine ite_of (P := Records lower text value c) (by rintro rfl; rfl) fun _ => ?_
  -- none of the names
  change headerColumns value c = headerColumns _ c
  simp only [headerColumns, *, if_false]

/-- **One more header line**: its column, if it has one, holds its value, and the others stay. -/
theorem recordHeader_headerColumns (lower text : Text) (value : Text → Option Text) (c : HttpCols) :
    recordHeader lower text (headerColumns value c) =
      headerColumns (fun name => if lower = name then some text else value name) c := by
  unfold recordHeader
  by_cases hlen : lower = "content-length".toList
  · subst hlen
    rfl
  · rw [if_neg hlen]
    exact records_headerColumn hlen text value c

theorem toNat_add_one {count : UInt16} {n : ℕ} (h : n + 1 < UInt16.size) (hc : count.toNat = n) :
    (count + 1).toNat = n + 1 := by
  have h16 : n + 1 < 2 ^ 16 := h
  rw [UInt16.toNat_add, hc]
  exact Nat.mod_eq_of_lt h16

/-- **Recording the header lines**: after each of them the columns are those of the headers so far.
-/
theorem exec_headers (hs seen : List HttpHeader) (hfew : seen.length + hs.length < UInt16.size)
    {count : UInt16} (hcount : count.toNat = seen.length) (c : HttpCols) {s : Sink HttpCols}
    (hs₀ : s.cols = headerColumns (lastValue seen) c) :
    ∃ total : UInt16, total.toNat = (seen ++ hs).length ∧
      (headers (hs.map fun h => Text.lossy h.bytes) (seen.map HttpHeader.lower) count).exec s =
        .ok (.ok ((seen ++ hs).map HttpHeader.lower, total),
          { s with cols := headerColumns (lastValue (seen ++ hs)) c }) := by
  induction hs generalizing seen count s with
  | nil =>
      refine ⟨count, ?_, ?_⟩
      · rw [List.append_nil, hcount]
      · rw [List.append_nil, ← hs₀]
        rfl
  | cons h hs ih =>
      have hlen : (seen ++ [h]).length + hs.length < UInt16.size := by
        rw [List.length_append, List.length_singleton]
        rw [List.length_cons] at hfew
        omega
      have hone : (count + 1).toNat = (seen ++ [h]).length := by
        rw [List.length_append, List.length_singleton]
        exact toNat_add_one (by rw [List.length_cons] at hfew; omega) hcount
      have hcols : recordHeader h.lower h.text s.cols =
          headerColumns (lastValue (seen ++ [h])) c := by
        rw [hs₀, recordHeader_headerColumns, ← lastValue_append_singleton]
      obtain ⟨total, htotal, hrest⟩ := ih (seen ++ [h]) hlen hone
        (s := { s with cols := recordHeader h.lower h.text s.cols }) hcols
      rw [List.append_assoc, List.singleton_append] at htotal hrest
      refine ⟨total, htotal, ?_⟩
      rw [List.map_cons, headers, h.headerField_bytes]
      dsimp only
      rw [exec_bind, show (Text.lossy h.name).toAsciiLowercase = h.lower from rfl, exec_setHeader]
      dsimp only
      rw [List.map_append, List.map_singleton] at hrest
      exact hrest

end AppHttp

namespace HttpContent

variable (m : HttpContent)

/-- The list of names is kept. -/
theorem cap_names :
    cap (Text.join [','] (m.headers.map HttpHeader.lower)) 1024 =
      .ok (cappedAscii (Text.join [','] (m.headers.map HttpHeader.lower)) 1024) := by
  rcases m.names_fit with hascii | hfits
  · refine cap_of_isAscii (Text.isAscii_join (Text.isAscii_singleton rfl) ?_) 1024
    intro t ht
    obtain ⟨h, hh, rfl⟩ := List.mem_map.mp ht
    refine Text.isAscii_toAsciiLowercase ?_
    rw [Text.lossy_eq_ofAscii (hascii h hh)]
    exact Text.isAscii_ofAscii (hascii h hh)
  · have hlen := (Text.length_le_utf8Len _).trans hfits
    rw [cap, if_neg (Nat.not_lt.mpr hfits), cappedAscii, if_pos hlen]
    rfl

/-- The closing columns of a message. -/
theorem exec_closing {count : UInt16} (hcount : count.toNat = m.headers.length) {c : HttpCols}
    (hnames : c.httpHeaderNames = none) (hbody : c.httpBodyPreview = none) (stack : List Layer) :
    Dissect.exec (do
      col fun c => { c with httpHeaderCount := some count }
      if m.headers.map HttpHeader.lower ≠ [] then
        let joined ← cap (Text.join [','] (m.headers.map HttpHeader.lower)) 1024
        col fun c => { c with httpHeaderNames := some joined }
      if m.body ≠ [] then
        col fun c => { c with httpBodyPreview := some (preview m.body 256) } : AppHttp.M Unit)
      { stack, cols := headerColumns (lastValue m.headers) c } =
      .ok (.ok (), { stack, cols := m.columns c }) := by
  have hof : count = UInt16.ofNatLT m.headers.length m.headers_few := UInt16.toNat_inj.mp hcount
  rw [exec_col_bind]
  have hpreview : ∀ c' : HttpCols, c'.httpBodyPreview = none →
      (if m.body ≠ [] then
        col fun c => { c with httpBodyPreview := some (preview m.body 256) }
      else pure () : AppHttp.M Unit).exec { stack, cols := c' } =
      .ok (.ok (), { stack, cols := { c' with
        httpBodyPreview := if m.body = [] then none else some (preview m.body 256) } }) := by
    intro c' hc'
    by_cases hb : m.body = []
    · rw [if_neg (not_not.mpr hb), if_pos hb, ← hc']
      rfl
    · rw [if_pos hb, if_neg hb]
      rfl
  by_cases hh : m.headers = []
  · rw [if_neg (by simp [hh])]
    refine (hpreview { headerColumns (lastValue m.headers) c with
      httpHeaderCount := some count } hbody).trans ?_
    rw [HttpContent.columns, if_pos hh, ← hof]
    simp only [headerColumns, hnames]
  · rw [if_pos (by simp [hh]), m.cap_names, HttpContent.columns, if_neg hh, ← hof]
    exact hpreview { headerColumns (lastValue m.headers) c with
      httpHeaderCount := some count
      httpHeaderNames :=
        some (cappedAscii (Text.join [','] (m.headers.map HttpHeader.lower)) 1024) } hbody

/-- **The dissector inverts the rendering of headers and body**, behind a first line that it
accepts. -/
theorem exec_parse {first : Bytes} (hcr : 13 ∉ first) (hne : first ≠ []) {c : HttpCols}
    (hstart : ∀ stack : List Layer,
      (AppHttp.startLine (Text.lossy first)).exec { stack, cols := {} } =
      .ok (.ok (), { stack, cols := c }))
    (hblank : headerColumns (fun _ => none) c = c) (hnames : c.httpHeaderNames = none)
    (hbody : c.httpBodyPreview = none) (stack : List Layer) :
    (AppHttp.parse (m.bytes first)).exec { stack, cols := {} } =
      .ok (.ok (), { stack := stack ++ [.http], cols := m.columns c }) := by
  have hlinecr : ∀ x ∈ first :: m.headers.map HttpHeader.bytes, 13 ∉ x := by
    intro x hx
    rcases List.mem_cons.mp hx with rfl | hx
    · exact hcr
    · obtain ⟨h, -, rfl⟩ := List.mem_map.mp hx
      exact h.cr_notMem_bytes
  have hlinene : ∀ x ∈ first :: m.headers.map HttpHeader.bytes, x ≠ [] := by
    intro x hx
    rcases List.mem_cons.mp hx with rfl | hx
    · exact hne
    · obtain ⟨h, -, rfl⟩ := List.mem_map.mp hx
      exact h.bytes_ne_nil
  have hlines := AppHttp.headLines_lineBytes hlinecr hlinene m.body
  have hsplit := AppHttp.headAndBody_lineBytes hlinecr
    (fun x hx => hlinene x (List.mem_cons_of_mem _ hx)) m.body
  rw [hsplit, List.map_cons, List.map_map] at hlines
  obtain ⟨total, htotal, hheaders⟩ := AppHttp.exec_headers m.headers []
    (by rw [List.length_nil, Nat.zero_add]; exact m.headers_few)
    (show (0 : UInt16).toNat = ([] : List HttpHeader).length from rfl) c
    (s := { stack := stack ++ [.http], cols := c }) hblank.symm
  rw [AppHttp.parse, exec_bind, exec_layer]
  dsimp only
  rw [HttpContent.bytes, hsplit]
  dsimp only
  rw [hlines]
  dsimp only
  rw [exec_bind, hstart]
  dsimp only
  rw [exec_bind,
    show (AppHttp.headers (m.headers.map (Text.lossy ∘ HttpHeader.bytes)) [] 0).exec _ = _
      from hheaders]
  exact m.exec_closing htotal hnames hbody _

end HttpContent

/-! ### First lines -/

theorem space_notMem_lossy {l : Bytes} (h : 32 ∉ l) : ' ' ∉ Text.lossy l := fun hm =>
  h (Text.mem_of_mem_lossy (by decide) (by decide) hm)

/-- A first line falls apart at its first two spaces. -/
theorem splitn_lossy {a b : Bytes} (ha : ' ' ∉ Text.lossy a) (hb : ' ' ∉ Text.lossy b) (d : Bytes) :
    (Text.lossy (a ++ 32 :: (b ++ 32 :: d))).splitn ' ' 3 =
      [Text.lossy a, Text.lossy b, Text.lossy d] := by
  rw [Text.lossy_append_cons (by decide), Text.lossy_append_cons (by decide),
    show Char.ofNat (32 : UInt8).toNat = ' ' from rfl, Text.splitn,
    AppHttp.splitOnce_append_cons ha]
  dsimp only
  rw [Text.splitn, AppHttp.splitOnce_append_cons hb]
  rfl

namespace HttpRequest

variable (r : HttpRequest)

/-- The request line. -/
def line : Bytes := r.method ++ 32 :: (r.uri ++ 32 :: r.version)

theorem uri_ascii : ∀ b ∈ r.uri, b < 0x80 := fun b hb => isPrintable_lt (r.uri_visible b hb).1

/-- What is known of the known methods. -/
theorem knownMethods_spec : ∀ m ∈ knownMethods, ' ' ∉ m ∧ '\r' ∉ m := by decide

theorem method_cr : 13 ∉ r.method := fun h =>
  (knownMethods_spec _ r.method_known).2 (Text.mem_lossy_of_mem (by decide) h)

theorem uri_cr : 13 ∉ r.uri := fun h => absurd (r.uri_visible 13 h).1 (by decide)

theorem uri_space : 32 ∉ r.uri := fun h => (r.uri_visible 32 h).2 rfl

theorem line_cr : 13 ∉ r.line := by simp [line, r.method_cr, r.uri_cr, r.version_cr]

theorem line_ne : r.line ≠ [] := by simp [line]

/-- No request line starts like a status line. -/
theorem not_status (t : Text) :
    "HTTP/".toList.isPrefixOf (Text.lossy r.method ++ ' ' :: t) = false := by
  have hall : ∀ m ∈ knownMethods, "HTTP/".toList.isPrefixOf (m ++ ' ' :: t) = false := by
    intro m hm
    simp only [knownMethods, List.mem_cons, List.not_mem_nil, or_false] at hm
    rcases hm with rfl | rfl | rfl | rfl | rfl | rfl | rfl | rfl | rfl | rfl | rfl | rfl | rfl |
      rfl | rfl | rfl | rfl | rfl <;> rfl
  exact hall _ r.method_known

/-- **The target falls apart at its first question mark.** -/
theorem splitOnce_uri :
    (Text.lossy r.uri).splitOnce '?' =
      if 63 ∈ r.uri then
        some (Text.lossy (r.uri.takeWhile (· ≠ 63)), Text.lossy (r.uri.dropWhile (· ≠ 63)).tail)
      else none := by
  by_cases hq : 63 ∈ r.uri
  · obtain ⟨p, q, huri, hp⟩ := List.eq_append_cons_of_mem hq
    have hall : ∀ b ∈ p, decide (b ≠ 63) = true := fun b hb =>
      decide_eq_true fun he => hp (he ▸ hb)
    have hmark : '?' ∉ Text.lossy p := fun hm =>
      hp (Text.mem_of_mem_lossy (by decide) (by decide) hm)
    rw [if_pos hq, huri, Text.lossy_append_cons (by decide),
      show Char.ofNat (63 : UInt8).toNat = '?' from rfl, AppHttp.splitOnce_append_cons hmark,
      List.takeWhile_append_of_pos hall, List.dropWhile_append_of_pos hall]
    simp
  · have hmark : '?' ∉ Text.lossy r.uri := fun hm =>
      hq (Text.mem_of_mem_lossy (by decide) (by decide) hm)
    rw [if_neg hq, AppHttp.splitOnce_of_not_mem hmark]

/-- What the target of a request leaves in the columns. -/
theorem exec_requestUri (stack : List Layer) (c : HttpCols) (hc : c.httpUriQuery = none) :
    (AppHttp.requestUri (Text.lossy r.uri)).exec { stack, cols := c } =
      .ok (.ok (), { stack, cols := { c with
        httpUri := some (Text.lossy r.uri)
        httpUriPath := some (Text.lossy (r.uri.takeWhile (· ≠ 63)))
        httpUriQuery :=
          if 63 ∈ r.uri then some (Text.lossy (r.uri.dropWhile (· ≠ 63)).tail) else none } }) := by
  have hpath := cap_lossy_of_ascii
    (fun b hb => r.uri_ascii b ((List.takeWhile_subset _) hb)) r.path_fits
  have hquery := cap_lossy_of_ascii
    (fun b hb => r.uri_ascii b ((List.dropWhile_subset _) (List.mem_of_mem_tail hb))) r.query_fits
  rw [AppHttp.requestUri, cap_lossy_of_ascii r.uri_ascii r.uri_fits, splitOnce_uri]
  by_cases hq : 63 ∈ r.uri
  · rw [if_pos hq, if_pos hq]
    dsimp only
    rw [hpath, hquery]
    rfl
  · have hall : r.uri.takeWhile (· ≠ 63) = r.uri := by
      rw [List.takeWhile_eq_self_iff]
      exact fun b hb => decide_eq_true fun he => hq (he ▸ hb)
    rw [hall] at hpath
    rw [if_neg hq, if_neg hq, hall]
    dsimp only
    rw [hpath, ← hc]
    rfl

/-- What the request line leaves in the columns. -/
theorem exec_startLine (stack : List Layer) :
    (AppHttp.startLine (Text.lossy r.line)).exec { stack, cols := {} } =
      .ok (.ok (), { stack, cols := {
        httpIsRequest := some true
        httpMethod := some (Text.lossy r.method)
        httpUri := some (Text.lossy r.uri)
        httpUriPath := some (Text.lossy (r.uri.takeWhile (· ≠ 63)))
        httpUriQuery :=
          if 63 ∈ r.uri then some (Text.lossy (r.uri.dropWhile (· ≠ 63)).tail) else none
        httpVersion := some (Text.lossy r.version) } }) := by
  have hparts := splitn_lossy (knownMethods_spec _ r.method_known).1
    (space_notMem_lossy r.uri_space) r.version
  have hstatus : "HTTP/".toList.isPrefixOf (Text.lossy r.line) = false := by
    rw [line, Text.lossy_append_cons (by decide)]
    exact r.not_status _
  rw [AppHttp.startLine, hstatus, line, hparts, if_neg Bool.false_ne_true, AppHttp.requestLine]
  dsimp only [List.getElem?_cons_zero, List.getElem?_cons_succ, Option.getD_some]
  rw [if_neg (not_not.mpr r.method_known)]
  have huri := r.exec_requestUri stack
    { httpIsRequest := some true, httpMethod := some (Text.lossy r.method) } rfl
  exact exec_bind_eq_ok.mpr (.inl ⟨(), _, rfl, exec_bind_eq_ok.mpr (.inl ⟨(), _, huri, rfl⟩)⟩)

end HttpRequest

namespace HttpResponse

variable (r : HttpResponse)

/-- The digits of the status code. -/
def digits : Bytes := Text.ascii (toString r.code.toNat)

theorem digits_eq :
    r.digits = (Nat.toDigits 10 r.code.toNat).map fun c => UInt8.ofNat c.toNat := by
  rw [digits, Text.ascii, Nat.toString_eq_repr, Nat.toList_repr]

/-- Digits take their ASCII bytes. -/
theorem digit_bytes {c : Char} (h : c ∈ Nat.toDigits 10 r.code.toNat) :
    48 ≤ c.toNat ∧ c.toNat < 58 := by
  have hdigit := Nat.isDigit_of_mem_toDigits (by decide) (by decide) h
  simp only [Char.isDigit, Bool.and_eq_true, decide_eq_true_eq, ge_iff_le,
    UInt32.le_iff_toNat_le] at hdigit
  exact ⟨hdigit.1, Nat.lt_succ_of_le hdigit.2⟩

theorem digits_spec : ∀ b ∈ r.digits, 48 ≤ b.toNat ∧ b.toNat < 58 := by
  rw [digits_eq]
  intro b hb
  obtain ⟨c, hc, rfl⟩ := List.mem_map.mp hb
  have hdigit := r.digit_bytes hc
  rw [UInt8.toNat_ofNat_of_lt' (hdigit.2.trans (by decide))]
  exact hdigit

theorem lossy_digits : Text.lossy r.digits = Text.decimal r.code.toNat := by
  have hascii : ∀ b ∈ r.digits, b < 0x80 := fun b hb =>
    UInt8.lt_iff_toNat_lt.mpr ((r.digits_spec b hb).2.trans (by decide))
  rw [Text.lossy_eq_ofAscii hascii, digits_eq, Text.ofAscii, List.map_map, Text.decimal]
  have hback : ∀ c ∈ Nat.toDigits 10 r.code.toNat,
      Char.ofNat (UInt8.ofNat c.toNat).toNat = c := by
    intro c hc
    rw [UInt8.toNat_ofNat_of_lt' ((r.digit_bytes hc).2.trans (by decide)), Char.ofNat_toNat]
  exact (List.map_congr_left hback).trans (List.map_id _)

/-- The status line. -/
def line : Bytes := r.version ++ 32 :: (r.digits ++ 32 :: r.message)

theorem line_cr : 13 ∉ r.line := by
  have hdigits : 13 ∉ r.digits := fun h => absurd (r.digits_spec 13 h).1 (by decide)
  simp [line, r.version_cr, hdigits, r.message_cr]

theorem line_ne : r.line ≠ [] := by simp [line]

theorem status : "HTTP/".toList.isPrefixOf (Text.lossy r.line) = true := by
  obtain ⟨rest, hrest⟩ := r.version_http
  rw [line, ← hrest]
  rfl

/-- What the status line leaves in the columns. -/
theorem exec_startLine (stack : List Layer) :
    (AppHttp.startLine (Text.lossy r.line)).exec { stack, cols := {} } =
      .ok (.ok (), { stack, cols := {
        httpIsRequest := some false
        httpVersion := some (Text.lossy r.version)
        httpStatusCode := some r.code
        httpStatusMsg := some (Text.lossy r.message) } }) := by
  have hspace : 32 ∉ r.digits := fun h => absurd (r.digits_spec 32 h).1 (by decide)
  have hparts := splitn_lossy (space_notMem_lossy r.version_space) (space_notMem_lossy hspace)
    r.message
  have hcode : Text.parseUnsigned (2 ^ 16) (Text.lossy r.digits) = some r.code.toNat := by
    rw [lossy_digits]
    exact Text.parseUnsigned_decimal r.code.toNat_lt
  rw [AppHttp.startLine, r.status, line, hparts, if_pos rfl, AppHttp.statusLine]
  dsimp only [List.getElem?_cons_zero, List.getElem?_cons_succ]
  rw [hcode, Option.map_some, UInt16.ofNat_toNat]
  rfl

end HttpResponse

/-- **The dissector inverts the rendering of HTTP/1 messages**: a rendered request or response is
accepted, and the columns hold its parts. -/
theorem AppHttp.parse_inverts (stack : List Layer) :
    (∀ r : HttpRequest, (AppHttp.parse r.bytes).exec { stack, cols := {} } =
      .ok (.ok (), { stack := stack ++ [.http], cols := r.columns })) ∧
    ∀ r : HttpResponse, (AppHttp.parse r.bytes).exec { stack, cols := {} } =
      .ok (.ok (), { stack := stack ++ [.http], cols := r.columns }) := by
  constructor
  · intro r
    exact r.content.exec_parse r.line_cr r.line_ne r.exec_startLine rfl rfl rfl stack
  · intro r
    exact r.content.exec_parse r.line_cr r.line_ne r.exec_startLine rfl rfl rfl stack

/-- Two Host headers, and a body that looks like one more: the second header wins. -/
example : ∃ r : HttpRequest,
    r.bytes = Text.ascii "GET /a?b HTTP/1.1\r\nHost: x\r\nhOST: y\r\n\r\nHost: z\r\n\r\n" ∧
      r.columns.httpHost = some "y".toList ∧ r.columns.httpHeaderCount = some 2 :=
  let x : HttpHeader :=
    { name := Text.ascii "Host", value := Text.ascii "x", name_colon := by decide
      name_cr := by decide, name_unspaced := by decide +kernel
      value_printable := by decide +kernel, value_unspaced := by decide +kernel
      value_fits := by decide }
  let y : HttpHeader :=
    { name := Text.ascii "hOST", value := Text.ascii "y", name_colon := by decide
      name_cr := by decide, name_unspaced := by decide +kernel
      value_printable := by decide +kernel, value_unspaced := by decide +kernel
      value_fits := by decide }
  ⟨{ method := Text.ascii "GET", uri := Text.ascii "/a?b", version := Text.ascii "HTTP/1.1"
     content :=
       { headers := [x, y], body := Text.ascii "Host: z\r\n\r\n", headers_few := by decide
         names_fit := .inl (by decide +kernel) }
     method_known := by decide +kernel, uri_visible := by decide +kernel
     uri_fits := by decide +kernel, path_fits := by decide +kernel
     query_fits := by decide +kernel, version_cr := by decide +kernel },
    by decide +kernel, by decide +kernel, by decide +kernel⟩

end PcapRacer
