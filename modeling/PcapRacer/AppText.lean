/-
**Line-oriented plaintext protocols**: SMTP, FTP, IMAP, POP3, IRC, Telnet, Syslog, VNC.

These all share a shape, a command word, an argument tail and numeric responses, so they share one
module and a couple of helpers.  The helpers cut decoded strings at byte positions: `firstLine`,
`splitCommand` and `stripPrefixCi` are where a cut can fall inside a character.

Main definitions:

* `firstLine`, `lines`, `splitCommand`, `stripPrefixCi` — the helpers;
* `smtp`, `ftp`, `imap`, `pop3`, `irc`, `telnet`, `syslog`, `vnc` — the dissectors.
-/

import PcapRacer.Dissect

set_option relaxedAutoImplicit false
set_option autoImplicit false

namespace PcapRacer

namespace AppText

open Sink (layer)

abbrev M := Dissect (Sink TextCols)

/-! ### Helpers -/

/-- First line of the payload, without its terminator, capped. -/
def firstLine (payload : Bytes) : Except Panic Text :=
  let stop := (payload.findIdx? fun b => b == 13 || b == 10).getD (min payload.length 1024)
  cap (Text.lossy (payload.take stop)) 1024

/-- The non-empty lines, at most `max` of them. -/
def lines (payload : Bytes) (max : ℕ) : List Text :=
  (((Text.lossy (payload.take 8192)).split fun c => c == '\r' || c == '\n').filter
    (!·.isEmpty)).take max

/-- The command word in upper case, and the argument if there is one. -/
def splitCommand (line : Text) : Except Panic (Text × Option Text) :=
  match line.splitOnce ' ' with
  | some (c, a) => do
      let a ← cap a.trim 512
      pure (c.toAsciiUppercase, some a)
  | none => pure (line.toAsciiUppercase, none)

/-- A server response opens with a three-digit status code. -/
def opensWithCode (line : Text) : Bool :=
  3 ≤ line.utf8Len && (line.encode.take 3).all fun b => 48 ≤ b && b ≤ 57

/-- The status code at the start of a response. -/
def responseCode (line : Text) : Except Panic (Option UInt16) := do
  let halves ← line.splitAt 3
  pure ((Text.parseUnsigned (2 ^ 16) halves.1).map UInt16.ofNat)

/-- Drop a prefix, whatever its case, and the angle brackets of an address. -/
def stripPrefixCi (s : Text) (word : Text) : Except Panic Text :=
  if word.utf8Len ≤ s.utf8Len then do
    let halves ← s.splitAt word.utf8Len
    if halves.1.eqIgnoreAsciiCase word then
      pure (halves.2.trim.trimMatches fun c => c == '<' || c == '>')
    else pure s
  else pure s

/-! ### Mail -/

/-- One line of an SMTP exchange. -/
def smtpLine (line : Text) : M Unit := do
  if opensWithCode line then
    if (← cols).smtpResponseCode.isNone then
      let code ← responseCode line
      col fun c => { c with smtpResponseCode := code }
      let response ← cap line 512
      col fun c => { c with smtpResponse := some response }
  else
    let (cmd, arg) ← splitCommand line
    if cmd = "MAIL".toList then
      let sender ← arg.mapM fun a => stripPrefixCi a "FROM:".toList
      col fun c => { c with smtpMailFrom := sender }
    else if cmd = "RCPT".toList then
      let recipient ← arg.mapM fun a => stripPrefixCi a "TO:".toList
      col fun c => { c with smtpRcptTo := recipient }
    if "SUBJECT:".toList.isPrefixOf cmd || "SUBJECT:".toList.isPrefixOf line.toAsciiUppercase then
      let halves ← line.splitAt 8
      let subject ← cap halves.2.trim 512
      col fun c => { c with smtpSubject := some subject }
    else if (← cols).smtpCommand.isNone && cmd.all Char.isAlpha then
      col fun c => { c with smtpCommand := some cmd, smtpArgument := arg }

def smtp (payload : Bytes) : M Unit := do
  layer .smtp
  (lines payload 32).forM smtpLine

def ftp (payload : Bytes) : M Unit := do
  layer .ftp
  let line ← firstLine payload
  if opensWithCode line then
    let code ← responseCode line
    col fun c => { c with ftpResponseCode := code, ftpResponse := some line }
  else
    let (cmd, arg) ← splitCommand line
    col fun c => { c with ftpCommand := some cmd, ftpArgument := arg }

/-- IMAP commands are prefixed with a client-chosen tag. -/
def imap (payload : Bytes) : M Unit := do
  layer .imap
  let line ← firstLine payload
  let parts := line.splitn ' ' 3
  col fun c => { c with imapTag := parts[0]?,
                        imapCommand := parts[1]?.map Text.toAsciiUppercase }
  let argument ← parts[2]?.mapM fun s => cap s 512
  col fun c => { c with imapArgument := argument }

def pop3 (payload : Bytes) : M Unit := do
  layer .pop3
  let line ← firstLine payload
  let (cmd, arg) ← splitCommand line
  col fun c => { c with pop3Command := some cmd, pop3Argument := arg }

/-! ### Chat and shell -/

/-- The source of a server message, and the message without it. -/
def ircPrefix (line : Text) : Option (Text × Text) :=
  match line with
  | ':' :: rest => Text.splitOnce ' ' rest
  | _ => none

def irc (payload : Bytes) : M Unit := do
  layer .irc
  let line ← firstLine payload
  let message ← match ircPrefix line with
    | some (source, rest) => do
        col fun c => { c with ircNick := some (source.takeWhile (· ≠ '!')) }
        pure rest
    | none => pure line
  let (cmd, params) ← splitCommand message
  col fun c => { c with ircCommand := some cmd, ircParams := params }

mutual

/-- The session text without IAC negotiation sequences; 0xff introduces a two- or three-byte
command. -/
def telnetText : Bytes → Bytes
  | [] => []
  | b :: rest =>
      if b = 0xff then
        match rest with
        | [] => []
        | cmd :: rest =>
            if cmd = 0xfa then telnetSub rest
            else if 0xfb ≤ cmd ∧ cmd ≤ 0xfe then
              match rest with
              | [] => []
              | _ :: rest => telnetText rest
            else telnetText rest
      else b :: telnetText rest

/-- Subnegotiation runs until IAC SE; the text goes on after it. -/
def telnetSub : Bytes → Bytes
  | [] => []
  | b :: rest =>
      if b = 0xff then
        match rest with
        | [] => []
        | b :: rest => if b = 0xf0 then telnetText rest else telnetSub rest
      else telnetSub rest

end

def telnet (payload : Bytes) : M Unit := do
  layer .telnet
  let out := telnetText payload
  if out ≠ [] then
    col fun c => { c with telnetData := some (preview out 512) }

/-! ### Logging and remote desktops -/

/-- The text after the `<N>` priority, and the number if it is one. -/
def syslogPriority (text : Text) : Option UInt8 × Text :=
  match text with
  | '<' :: stripped =>
      match Text.splitOnce '>' stripped with
      | some (num, tail) => ((Text.parseUnsigned 256 num).map UInt8.ofNat, tail)
      | none => (none, text)
  | _ => (none, text)

def syslog (payload : Bytes) : M Unit := do
  layer .syslog
  let text ← firstLine payload
  let (priority, rest) := syslogPriority text
  if let some pri := priority then
    col fun c => { c with syslogPriority := some pri, syslogFacility := some (pri >>> 3),
                          syslogSeverity := some (pri &&& 0x7) }
  -- RFC 5424 has a version digit; without it the fields are not reliably positioned
  match rest.splitn ' ' 5 with
  | version :: _ :: host :: app :: _ =>
      if version = "1".toList then
        col fun c => { c with syslogHostname := some host, syslogAppname := some app }
  | _ => pure ()
  let message ← cap rest.trim 1024
  col fun c => { c with syslogMessage := some message }

def looksLikeVnc (d : Bytes) : Bool := (Text.ascii "RFB ").isPrefixOf d

def vnc (payload : Bytes) : M Unit := do
  layer .vnc
  if looksLikeVnc payload then
    let version ← firstLine payload
    col fun c => { c with vncVersion := some version }

end AppText

end PcapRacer
