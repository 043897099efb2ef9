/-
**Strings.**

A string is a list of Unicode scalar values.  Positions inside it are counted in bytes of its
UTF-8 encoding, so a position may fall inside a character; cutting there is the one way in which
an operation on strings can fail, and `Panic` is the record of such a failure.

Main definitions:

* `Bytes`, `Text`, `Text.utf8Len`, `Text.encode` — byte strings, strings, their length in bytes,
  and their encoding;
* `Text.splitAt?`, `Panic`, `Text.splitAt` — cutting at a byte position;
* `Text.lossy` — decoding, with one replacement character per maximal invalid sequence;
* `Text.trim`, `Text.split`, `Text.splitOnce`, `Text.splitn`, `Text.splitCrlf` — the usual tools;
* `Text.decimal`, `Text.hex`, `Text.parseUnsigned` — numbers.

Main results:

* `Text.splitAt_eq_ok_iff` — a cut succeeds exactly on a character boundary.
-/

import Mathlib.Algebra.BigOperators.Group.List.Basic
import Mathlib.Algebra.Order.Ring.Nat

set_option relaxedAutoImplicit false
set_option autoImplicit false

/-- Byte strings. -/
abbrev Bytes := List UInt8

/-- Strings, as lists of Unicode scalar values. -/
abbrev Text := List Char

namespace Text

/-- Membership in a list of strings is decided by comparing them. -/
instance decidableMem (s : Text) (l : List Text) : Decidable (s ∈ l) := inferInstance

/-! ### Bytes and positions -/

/-- The length in bytes. -/
def utf8Len (s : Text) : ℕ := (s.map Char.utf8Size).sum

/-- The UTF-8 encoding. -/
def encode (s : Text) : Bytes := s.flatMap String.utf8EncodeChar

/-- The bytes of an ASCII literal. -/
def ascii (s : String) : Bytes := s.toList.map fun c => UInt8.ofNat c.toNat

/-- The two halves at a byte position; `none` when the position is past the end or inside a
character. -/
def splitAt? : Text → ℕ → Option (Text × Text)
  | s, 0 => some ([], s)
  | [], _ + 1 => none
  | c :: s, n + 1 =>
      if c.utf8Size ≤ n + 1 then
        (splitAt? s (n + 1 - c.utf8Size)).map fun p => (c :: p.1, p.2)
      else none

end Text

/-- An attempt to cut a string where no character ends. -/
structure Panic where
  text : Text
  pos : ℕ
  not_boundary : text.splitAt? pos = none

namespace Text

/-- Cut at a byte position. -/
def splitAt (s : Text) (n : ℕ) : Except Panic (Text × Text) :=
  match h : s.splitAt? n with
  | some p => .ok p
  | none => .error ⟨s, n, h⟩

/-- A cut succeeds exactly on a character boundary. -/
theorem splitAt_eq_ok_iff {s : Text} {n : ℕ} {p : Text × Text} :
    s.splitAt n = .ok p ↔ s.splitAt? n = some p := by
  unfold splitAt
  split
  · next q hq => rw [hq, Except.ok.injEq, Option.some_inj]
  · next hn => simp [hn]

/-! ### Decoding -/

/-- The replacement character. -/
def replacement : Char := '\uFFFD'

/-- A continuation byte. -/
def isCont (b : UInt8) : Bool := b &&& 0xc0 == 0x80

/-- The number of bytes of the encoding that a lead byte announces; zero for a byte that cannot
lead. -/
def charWidth (b : UInt8) : ℕ :=
  if b < 0x80 then 1
  else if b < 0xc2 then 0
  else if b < 0xe0 then 2
  else if b < 0xf0 then 3
  else if b < 0xf5 then 4
  else 0

/-- The second byte a three-byte lead accepts. -/
def accepts3 (b b₁ : UInt8) : Bool :=
  if b == 0xe0 then 0xa0 ≤ b₁ && b₁ ≤ 0xbf
  else if b == 0xed then 0x80 ≤ b₁ && b₁ ≤ 0x9f
  else 0x80 ≤ b₁ && b₁ ≤ 0xbf

/-- The second byte a four-byte lead accepts. -/
def accepts4 (b b₁ : UInt8) : Bool :=
  if b == 0xf0 then 0x90 ≤ b₁ && b₁ ≤ 0xbf
  else if b == 0xf4 then 0x80 ≤ b₁ && b₁ ≤ 0x8f
  else 0x80 ≤ b₁ && b₁ ≤ 0xbf

/-- The low six bits of a continuation byte. -/
def contBits (b : UInt8) : ℕ := (b &&& 0x3f).toNat

/-- Decode one character of width two to four; the result is the character and the number of bytes
it took after the lead.  What cannot be completed is replaced up to the byte that does not fit. -/
def decodeMulti (b : UInt8) (rest : Bytes) : Char × ℕ :=
  match charWidth b, rest with
  | 2, b₁ :: _ =>
      if isCont b₁ then (Char.ofNat ((b &&& 0x1f).toNat * 64 + contBits b₁), 1)
      else (replacement, 0)
  | 3, b₁ :: rest₁ =>
      if accepts3 b b₁ then
        match rest₁ with
        | b₂ :: _ =>
            if isCont b₂ then
              (Char.ofNat ((b &&& 0x0f).toNat * 4096 + contBits b₁ * 64 + contBits b₂), 2)
            else (replacement, 1)
        | [] => (replacement, 1)
      else (replacement, 0)
  | 4, b₁ :: rest₁ =>
      if accepts4 b b₁ then
        match rest₁ with
        | b₂ :: rest₂ =>
            if isCont b₂ then
              match rest₂ with
              | b₃ :: _ =>
                  if isCont b₃ then
                    (Char.ofNat ((b &&& 0x07).toNat * 262144 + contBits b₁ * 4096 +
                      contBits b₂ * 64 + contBits b₃), 3)
                  else (replacement, 2)
              | [] => (replacement, 2)
            else (replacement, 1)
        | [] => (replacement, 1)
      else (replacement, 0)
  | _, _ => (replacement, 0)

/-- The character a byte starts, and how many of the following bytes belong to it. -/
def decodeStep (b : UInt8) (rest : Bytes) : Char × ℕ :=
  if b < 0x80 then (Char.ofNat b.toNat, 0) else decodeMulti b rest

/-- Decode, after leaving out the first `skip` bytes. -/
def lossyFrom : ℕ → Bytes → Text
  | _, [] => []
  | skip + 1, _ :: rest => lossyFrom skip rest
  | 0, b :: rest => (decodeStep b rest).1 :: lossyFrom (decodeStep b rest).2 rest

/-- Decode; every maximal invalid sequence becomes one replacement character. -/
def lossy (b : Bytes) : Text := lossyFrom 0 b

@[simp] theorem lossy_nil : lossy [] = [] := rfl

/-! ### Search and splitting -/

/-- Split at every character that satisfies `p`. -/
def split (p : Char → Bool) : Text → List Text
  | [] => [[]]
  | c :: s =>
      if p c then [] :: split p s
      else
        match split p s with
        | [] => [[c]]
        | l :: ls => (c :: l) :: ls

/-- Split at the first `sep`. -/
def splitOnce (sep : Char) (s : Text) : Option (Text × Text) :=
  match s.dropWhile (· ≠ sep) with
  | [] => none
  | _ :: rest => some (s.takeWhile (· ≠ sep), rest)

/-- What stands after the last `sep`. -/
def lastPart (sep : Char) (s : Text) : Text := (s.reverse.takeWhile (· ≠ sep)).reverse

/-- At most `n` parts, separated by `sep`; the last one holds everything that is left. -/
def splitn (sep : Char) : ℕ → Text → List Text
  | 0, _ => []
  | 1, s => [s]
  | n + 2, s =>
      match splitOnce sep s with
      | some (a, b) => a :: splitn sep (n + 1) b
      | none => [s]

/-- Split at every CR LF. -/
def splitCrlf : Text → List Text
  | [] => [[]]
  | [c] => [[c]]
  | c :: d :: s =>
      if c = '\r' ∧ d = '\n' then [] :: splitCrlf s
      else
        match splitCrlf (d :: s) with
        | [] => [[c]]
        | l :: ls => (c :: l) :: ls

/-- Join with a separator. -/
def join (sep : Text) (parts : List Text) : Text := sep.intercalate parts

/-- Lexicographic order by code point, which is also the order of the encodings. -/
def le : Text → Text → Bool
  | [], _ => true
  | _ :: _, [] => false
  | c :: s, d :: s' => if c = d then le s s' else c.toNat < d.toNat

/-! ### Case and white space -/

def toAsciiLowercase (s : Text) : Text := s.map Char.toLower

def toAsciiUppercase (s : Text) : Text := s.map Char.toUpper

def eqIgnoreAsciiCase (s s' : Text) : Bool := s.toAsciiLowercase == s'.toAsciiLowercase

/-- Unicode `White_Space`. -/
def isWhitespace (c : Char) : Bool :=
  let n := c.toNat
  (9 ≤ n && n ≤ 13) || n == 0x20 || n == 0x85 || n == 0xa0 || n == 0x1680 ||
    (0x2000 ≤ n && n ≤ 0x200a) || n == 0x2028 || n == 0x2029 || n == 0x202f || n == 0x205f ||
    n == 0x3000

/-- Drop matching characters from the end. -/
def trimEndMatches (p : Char → Bool) (s : Text) : Text := (s.reverse.dropWhile p).reverse

/-- Drop matching characters from both ends. -/
def trimMatches (p : Char → Bool) (s : Text) : Text := trimEndMatches p (s.dropWhile p)

def trim (s : Text) : Text := trimMatches isWhitespace s

def trimEnd (s : Text) : Text := trimEndMatches isWhitespace s

/-! ### Numbers -/

/-- Decimal digits. -/
def decimal (n : ℕ) : Text := Nat.toDigits 10 n

/-- Pad on the left with zeros. -/
def zeroPad (width : ℕ) (s : Text) : Text := List.replicate (width - s.length) '0' ++ s

/-- Lower-case hexadecimal digits, at least `width` of them. -/
def hex (width n : ℕ) : Text := zeroPad width (Nat.toDigits 16 n)

/-- An unsigned decimal number below `bound`: an optional plus sign, then digits only. -/
def parseUnsigned (bound : ℕ) (s : Text) : Option ℕ :=
  let digits := match s with
    | '+' :: rest => rest
    | _ => s
  if digits ≠ [] ∧ digits.all Char.isDigit then
    let n := digits.foldl (fun n c => n * 10 + (c.toNat - '0'.toNat)) 0
    if n < bound then some n else none
  else none

end Text
