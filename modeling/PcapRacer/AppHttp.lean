/-
**HTTP/1.x, plus frame-level HTTP/2.**

An HTTP/1 head is decoded, split at CR LF and read line by line; a head that was cut off still
yields whatever lines did arrive.  HTTP/2 is dissected at the frame level, with the header fields
that are encoded against the static table without Huffman.

Main definitions:

* `findHeaderEnd`, `headLines` — the head of a message and its lines;
* `startLine`, `setHeader`, `headers`, `parse` — HTTP/1;
* `parseH2`, `decodeHeaders` — HTTP/2.
-/

import PcapRacer.Dissect

set_option relaxedAutoImplicit false
set_option autoImplicit false

namespace PcapRacer

namespace AppHttp

open Sink (layer)

abbrev M := Dissect (Sink HttpCols)

def knownMethods : List Text :=
  ["GET".toList, "POST".toList, "HEAD".toList, "PUT".toList, "DELETE".toList, "OPTIONS".toList,
    "TRACE".toList, "CONNECT".toList, "PATCH".toList, "PROPFIND".toList, "PROPPATCH".toList,
    "MKCOL".toList, "COPY".toList, "MOVE".toList, "LOCK".toList, "UNLOCK".toList,
    "SEARCH".toList, "REPORT".toList]

/-- True if the payload plausibly starts an HTTP/1.x message. -/
def looksLikeHttp (data : Bytes) : Bool :=
  if (Text.ascii "HTTP/1.").isPrefixOf data then true
  else
    let s := Text.lossy (data.take 10)
    knownMethods.any fun m => m.isPrefixOf s && s.encode[m.utf8Len]? == some 32

/-! ### HTTP/1 -/

def crlfCrlf : Bytes := [13, 10, 13, 10]

/-- Where the first blank line starts. -/
def findHeaderEnd : Bytes → Option ℕ
  | [] => none
  | b :: rest =>
      if crlfCrlf.isPrefixOf (b :: rest) then some 0 else (findHeaderEnd rest).map (· + 1)

/-- Split head from body at the first blank line. -/
def headAndBody (payload : Bytes) : Bytes × Bytes :=
  match findHeaderEnd payload with
  | some i => (payload.take i, payload.drop (i + 4))
  | none => (payload, [])

/-- The non-empty lines of a head. -/
def headLines (head : Bytes) : List Text := (Text.lossy head).splitCrlf.filter (!·.isEmpty)

/-- A status line. -/
def statusLine (parts : List Text) : M Unit := do
  col fun c => { c with httpIsRequest := some false, httpVersion := parts[0]? }
  if let some code := parts[1]? then
    col fun c => { c with httpStatusCode := (Text.parseUnsigned (2 ^ 16) code).map UInt16.ofNat }
  col fun c => { c with httpStatusMsg := parts[2]? }

/-- The target of a request, with path and query apart. -/
def requestUri (uri : Text) : M Unit := do
  let whole ← cap uri 2048
  col fun c => { c with httpUri := some whole }
  match uri.splitOnce '?' with
  | some (p, q) =>
      let path ← cap p 1024
      col fun c => { c with httpUriPath := some path }
      let query ← cap q 1024
      col fun c => { c with httpUriQuery := some query }
  | none =>
      let path ← cap uri 1024
      col fun c => { c with httpUriPath := some path }

/-- A request line. -/
def requestLine (parts : List Text) : M Unit := do
  let method := parts[0]?.getD []
  if method ∉ knownMethods then
    giveUp .malformed
  col fun c => { c with httpIsRequest := some true, httpMethod := some method }
  if let some uri := parts[1]? then
    requestUri uri
  col fun c => { c with httpVersion := parts[2]? }

/-- The first line of a message. -/
def startLine (first : Text) : M Unit :=
  let parts := first.splitn ' ' 3
  if "HTTP/".toList.isPrefixOf first then statusLine parts else requestLine parts

/-- Name and value of a header line. -/
def headerField (line : Text) : Option (Text × Text) :=
  (line.splitOnce ':').map fun p => (p.1.trim, p.2.trim)

/-- The column a header is kept in. -/
def headerColumn (lower : Text) : Option (Text → HttpCols → HttpCols) :=
  if lower = "host".toList then some fun v c => { c with httpHost := some v }
  else if lower = "user-agent".toList then some fun v c => { c with httpUserAgent := some v }
  else if lower = "referer".toList then some fun v c => { c with httpReferer := some v }
  else if lower = "cookie".toList then some fun v c => { c with httpCookie := some v }
  else if lower = "set-cookie".toList then some fun v c => { c with httpSetCookie := some v }
  else if lower = "content-type".toList then some fun v c => { c with httpContentType := some v }
  else if lower = "content-encoding".toList then
    some fun v c => { c with httpContentEncoding := some v }
  else if lower = "transfer-encoding".toList then
    some fun v c => { c with httpTransferEncoding := some v }
  else if lower = "accept".toList then some fun v c => { c with httpAccept := some v }
  else if lower = "accept-language".toList then
    some fun v c => { c with httpAcceptLanguage := some v }
  else if lower = "authorization".toList then
    some fun v c => { c with httpAuthorization := some v }
  else if lower = "x-forwarded-for".toList then
    some fun v c => { c with httpXForwardedFor := some v }
  else if lower = "server".toList then some fun v c => { c with httpServer := some v }
  else if lower = "location".toList then some fun v c => { c with httpLocation := some v }
  else none

/-- Record one header. -/
def setHeader (lower value : Text) : M Unit :=
  if lower = "content-length".toList then
    col fun c => { c with httpContentLength := Text.parseUnsigned (2 ^ 64) value }
  else
    match headerColumn lower with
    | some set => do
        let v ← cap value 1024
        col (set v)
    | none => pure ()

/-- Record the header lines.  Returns the names, in order, and their count, which wraps. -/
def headers : List Text → List Text → UInt16 → M (List Text × UInt16)
  | [], names, count => pure (names, count)
  | line :: rest, names, count =>
      match headerField line with
      | none => headers rest names count
      | some (name, value) => do
          setHeader name.toAsciiLowercase value
          headers rest (names ++ [name.toAsciiLowercase]) (count + 1)

def parse (payload : Bytes) : M Unit := do
  layer .http
  let (head, body) := headAndBody payload
  match headLines head with
  | [] => giveUp .malformed
  | first :: rest =>
      startLine first
      let (names, count) ← headers rest [] 0
      col fun c => { c with httpHeaderCount := some count }
      if names ≠ [] then
        let joined ← cap (Text.join [','] names) 1024
        col fun c => { c with httpHeaderNames := some joined }
      if body ≠ [] then
        col fun c => { c with httpBodyPreview := some (preview body 256) }

/-! ### HTTP/2 -/

def h2Preface : Bytes := Text.ascii "PRI * HTTP/2.0\r\n\r\nSM\r\n\r\n"

def looksLikeHttp2 (data : Bytes) : Bool := h2Preface.isPrefixOf data

/-- HPACK static table entries that carry a value. -/
def staticEntry (idx : UInt8) : Option (Text × Text) :=
  match idx.toNat with
  | 2 => some (":method".toList, "GET".toList)
  | 3 => some (":method".toList, "POST".toList)
  | 4 => some (":path".toList, "/".toList)
  | 5 => some (":path".toList, "/index.html".toList)
  | 6 => some (":scheme".toList, "http".toList)
  | 7 => some (":scheme".toList, "https".toList)
  | 8 => some (":status".toList, "200".toList)
  | 9 => some (":status".toList, "204".toList)
  | 10 => some (":status".toList, "206".toList)
  | 11 => some (":status".toList, "304".toList)
  | 12 => some (":status".toList, "400".toList)
  | 13 => some (":status".toList, "404".toList)
  | 14 => some (":status".toList, "500".toList)
  | _ => none

def staticName (idx : UInt8) : Option Text :=
  let n := idx.toNat
  if n = 1 then some ":authority".toList
  else if n = 2 ∨ n = 3 then some ":method".toList
  else if n = 4 ∨ n = 5 then some ":path".toList
  else if n = 6 ∨ n = 7 then some ":scheme".toList
  else if 8 ≤ n ∧ n ≤ 14 then some ":status".toList
  else if n = 15 then some "accept-charset".toList
  else if n = 16 then some "accept-encoding".toList
  else if n = 17 then some "accept-language".toList
  else if n = 31 then some "content-type".toList
  else if n = 58 then some "user-agent".toList
  else none

/-- Read an HPACK string literal.  Huffman-coded strings are skipped rather than decoded. -/
def readString (c : Cur) : Option (Text × Cur) := do
  let (b, c) ← c.u8.toOption
  let len := (b &&& 0x7f).toNat
  -- a 7-bit prefix of 127 means a multi-byte integer follows
  if len = 127 then none
  else
    let (raw, c) ← (c.take len).toOption
    if b &&& 0x80 ≠ 0 then pure ([], c) else pure (Text.lossy raw, c)

def setPseudo (name value : Text) : M Unit := do
  if value ≠ [] then
    let v ← cap value 1024
    if name = ":method".toList then col fun c => { c with http2Method := some v }
    else if name = ":path".toList then col fun c => { c with http2Path := some v }
    else if name = ":authority".toList then col fun c => { c with http2Authority := some v }
    else if name = ":scheme".toList then col fun c => { c with http2Scheme := some v }
    else if name = ":status".toList then col fun c => { c with http2Status := some v }
    else if name = "user-agent".toList then col fun c => { c with httpUserAgent := some v }
    else if name = "content-type".toList then col fun c => { c with httpContentType := some v }

/-- The name of a literal field: a static index or a literal string.  `none` ends the block. -/
def literalName (idx : UInt8) (c : Cur) : Option (Option Text × Cur) :=
  if idx ≠ 0 then some (staticName idx, c)
  else (readString c).map fun p => (some p.1, p.2)

/-- Decode the fields of a header block, at most `guard` of them. -/
def decodeHeaders : ℕ → Cur → M Unit
  | 0, _ => pure ()
  | guard + 1, c =>
      match c.u8 with
      | .error _ => pure ()
      | .ok (b, c) =>
          if b &&& 0x80 ≠ 0 then do
            -- an indexed field, resolved only for static-table entries
            if let some (n, v) := staticEntry (b &&& 0x7f) then
              setPseudo n v
            decodeHeaders guard c
          else
            let idx := if b &&& 0x40 ≠ 0 then b &&& 0x3f else b &&& 0x0f
            match literalName idx c with
            | none => pure ()
            | some (name, c) =>
                match readString c with
                | none => pure ()
                | some (value, c) => do
                    if let some n := name then
                      setPseudo n value
                    decodeHeaders guard c

/-- Walk the frames, at most `guard` of them. -/
def h2Frames : ℕ → Cur → M Unit
  | 0, _ => pure ()
  | guard + 1, c => do
      if 9 ≤ c.remaining then
        let (len, c) ← c.be24
        let (ftype, c) ← c.u8
        let (_, c) ← c.u8
        let (word, c) ← c.be32
        if (← cols).http2FrameType.isNone then
          col fun s => { s with http2FrameType := some ftype,
                                http2StreamId := some (word &&& 0x7fffffff) }
        let (body, c) ← c.take (min len.toNat c.remaining)
        if ftype = 0x1 then
          decodeHeaders 64 (Cur.new body)
        h2Frames guard c

/-- Dissect HTTP/2 at the frame level, with best-effort HPACK for the pseudo-headers. -/
def parseH2 (payload : Bytes) : M Unit := do
  layer .http2
  let c := Cur.new payload
  let c ← if c.peek h2Preface.length = some h2Preface then c.skip h2Preface.length else pure c
  h2Frames 16 c

end AppHttp

end PcapRacer
