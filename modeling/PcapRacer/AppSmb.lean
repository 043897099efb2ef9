/-
**SMB1 and SMB2** headers and the NTLM messages that ride inside them.

Main definitions:

* `utf16le`, `find` — decoding and search;
* `ntlm` — the account, domain and workstation of an Authenticate message;
* `smb2`, `smb1`, `parse` — the dissectors.
-/

import PcapRacer.Dissect

set_option relaxedAutoImplicit false
set_option autoImplicit false

namespace PcapRacer

namespace AppSmb

open Sink (layer)

abbrev M := Dissect (Sink SmbCols)

def smb1Magic : Bytes := 0xff :: Text.ascii "SMB"

def smb2Magic : Bytes := 0xfe :: Text.ascii "SMB"

def ntlmssp : Bytes := Text.ascii "NTLMSSP" ++ [0]

def looksLikeSmb (d : Bytes) : Bool :=
  4 ≤ d.length && (smb1Magic.isPrefixOf d || smb2Magic.isPrefixOf d)

def smb2CommandName (c : UInt16) : Text :=
  match c.toNat with
  | 0 => "NEGOTIATE".toList
  | 1 => "SESSION_SETUP".toList
  | 2 => "LOGOFF".toList
  | 3 => "TREE_CONNECT".toList
  | 4 => "TREE_DISCONNECT".toList
  | 5 => "CREATE".toList
  | 6 => "CLOSE".toList
  | 7 => "FLUSH".toList
  | 8 => "READ".toList
  | 9 => "WRITE".toList
  | 10 => "LOCK".toList
  | 11 => "IOCTL".toList
  | 12 => "CANCEL".toList
  | 13 => "ECHO".toList
  | 14 => "QUERY_DIRECTORY".toList
  | 15 => "CHANGE_NOTIFY".toList
  | 16 => "QUERY_INFO".toList
  | 17 => "SET_INFO".toList
  | 18 => "OPLOCK_BREAK".toList
  | _ => "UNKNOWN".toList

def smb1CommandName (c : UInt8) : Text :=
  match c.toNat with
  | 0x72 => "NEGOTIATE".toList
  | 0x73 => "SESSION_SETUP_ANDX".toList
  | 0x75 => "TREE_CONNECT_ANDX".toList
  | 0x2d => "OPEN_ANDX".toList
  | 0x2e => "READ_ANDX".toList
  | 0x2f => "WRITE_ANDX".toList
  | 0xa2 => "NT_CREATE_ANDX".toList
  | _ => "OTHER".toList

/-! ### Strings in UTF-16 -/

/-- Decode code units; an unpaired surrogate becomes a replacement character. -/
def utf16Lossy : List UInt16 → Text
  | [] => []
  | [u] => [if 0xd800 ≤ u ∧ u ≤ 0xdfff then Text.replacement else Char.ofNat u.toNat]
  | u :: v :: rest =>
      if 0xd800 ≤ u ∧ u ≤ 0xdbff then
        if 0xdc00 ≤ v ∧ v ≤ 0xdfff then
          Char.ofNat (0x10000 + (u.toNat - 0xd800) * 1024 + (v.toNat - 0xdc00)) :: utf16Lossy rest
        else Text.replacement :: utf16Lossy (v :: rest)
      else if 0xdc00 ≤ u ∧ u ≤ 0xdfff then Text.replacement :: utf16Lossy (v :: rest)
      else Char.ofNat u.toNat :: utf16Lossy (v :: rest)

/-- The little-endian code units of a string of even length. -/
def codeUnits : Bytes → List UInt16
  | a :: b :: rest => UInt16.ofNat (leNat [a, b]) :: codeUnits rest
  | _ => []

/-- Decode UTF-16LE, falling back to ASCII when the length is odd: some fields are ASCII when the
Unicode negotiation flag is off. -/
def utf16le (b : Bytes) : Option Text :=
  if b = [] then none
  else if b.length % 2 ≠ 0 then asciiString b
  else
    let s := utf16Lossy (codeUnits b)
    if s = [] then none else some s

/-- The first place where a byte string occurs. -/
def find (needle : Bytes) : Bytes → Option ℕ
  | [] => none
  | b :: rest =>
      if needle.isPrefixOf (b :: rest) then some 0 else (find needle rest).map (· + 1)

/-! ### NTLM -/

/-- A length, maximum length and offset triplet; a failed read leaves the cursor where it failed. -/
def readField (c : Cur) : Option (ℕ × ℕ) × Cur :=
  match c.le16 with
  | .error _ => (none, c)
  | .ok (len, c) =>
      match c.le16 with
      | .error _ => (none, c)
      | .ok (_, c) =>
          match c.le32 with
          | .error _ => (none, c)
          | .ok (off, c) => (some (off.toNat, len.toNat), c)

/-- The string a triplet points at, relative to the message start. -/
def fieldText (data : Bytes) : Option (ℕ × ℕ) → Except Panic (Option Text)
  | none => pure none
  | some (off, len) =>
      if len = 0 ∨ data.length < off + len then pure none
      else (utf16le ((data.drop off).take len)).mapM fun s => cap s 256

/-- NTLMSSP messages carry the account, domain and workstation in plain sight; only the
Authenticate message (type 3) has these fields. -/
def ntlm (data : Bytes) : M Unit := do
  match (Cur.new data).skip 8 with
  | .error _ => pure ()
  | .ok c =>
      match c.le32 with
      | .error _ => pure ()
      | .ok (msgType, c) =>
          col fun s => { s with ntlmMessageType := some msgType }
          if msgType = 3 then
            let (_, c) := readField c
            let (_, c) := readField c
            let (domain, c) := readField c
            let (user, c) := readField c
            let (host, _) := readField c
            let domain ← fieldText data domain
            col fun s => { s with ntlmDomain := domain }
            let user ← fieldText data user
            col fun s => { s with ntlmUser := user }
            let host ← fieldText data host
            col fun s => { s with ntlmHost := host }

/-- Look for an NTLM message in a body. -/
def ntlmIn (rest : Bytes) : M Unit := do
  if let some pos := find ntlmssp rest then
    ntlm (rest.drop pos)

/-! ### SMB -/

/-- The string whose header-relative offset and length stand at `place` in an SMB2 body; the outer
`none` says that they do not fit the body. -/
def offsetString (rest : Bytes) (place : ℕ) : Except Panic (Option (Option Text)) :=
  let off := leNat ((rest.drop place).take 2)
  let len := leNat ((rest.drop (place + 2)).take 2)
  if 64 ≤ off ∧ off - 64 + len ≤ rest.length then do
    let s ← (utf16le ((rest.drop (off - 64)).take len)).mapM fun s => cap s 512
    pure (some s)
  else pure none

def smb2 (body : Bytes) : M Unit := do
  layer .smb2
  col fun s => { s with smbVersion := some "SMB2".toList }
  let c ← (Cur.new body).skip 4
  let (_, c) ← c.le16
  let (_, c) ← c.le16
  let (status, c) ← c.le32
  let (command, c) ← c.le16
  let (_, c) ← c.le16
  let (flags, c) ← c.le32
  let (_, c) ← c.le32
  let (_, c) ← c.le64
  let (_, c) ← c.le32
  let (treeId, c) ← c.le32
  let (sessionId, c) ← c.le64
  col fun s => { s with smbStatus := some status, smbCommand := some command,
                        smbCommandName := some (smb2CommandName command),
                        smbFlags := some flags, smbTreeId := some treeId,
                        smbSessionId := some sessionId }
  let rest := c.rest
  if command = 3 ∧ 8 < rest.length then
    -- TREE_CONNECT: the share path
    if let some s ← offsetString rest 4 then
      col fun c => { c with smbTree := s }
  else if command = 5 ∧ 48 < rest.length then
    -- CREATE: the file name
    if let some s ← offsetString rest 44 then
      col fun c => { c with smbFilename := s }
  ntlmIn rest

def smb1 (body : Bytes) : M Unit := do
  layer .smb
  col fun s => { s with smbVersion := some "SMB1".toList }
  let c ← (Cur.new body).skip 4
  let (command, c) ← c.u8
  col fun s => { s with smbCommand := some command.toUInt16,
                        smbCommandName := some (smb1CommandName command) }
  let (status, c) ← c.le32
  col fun s => { s with smbStatus := some status }
  ntlmIn c.rest

/-- Over TCP port 445 the message is framed by a four-byte NetBIOS session header. -/
def unframed (payload : Bytes) : Bytes :=
  if 4 < payload.length ∧ looksLikeSmb payload = false ∧ payload.head? = some 0 then payload.drop 4
  else payload

def parse (payload : Bytes) : M Unit :=
  let body := unframed payload
  if smb2Magic.isPrefixOf body then smb2 body
  else if smb1Magic.isPrefixOf body then smb1 body
  else giveUp .malformed

end AppSmb

end PcapRacer
