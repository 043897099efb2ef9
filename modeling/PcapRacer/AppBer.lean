/-
**Minimal BER/DER reader**, shared by SNMP, LDAP, Kerberos and X.509.

Just enough to walk a TLV tree and pull out primitives.  Indefinite-length encodings are rejected.
A reader that fails leaves the cursor where it failed, and some callers go on from there, so the
cursor is state: `Reader` hands it back in both cases.

Main definitions:

* `Reader` — reads with a cursor that survives failure;
* `Tlv`, `Tlv.asI64`, `Tlv.asU64`, `Tlv.asStr`, `Tlv.asOid` — one element and its readings;
* `readIn` — read one element;
* `findAfterOid`, `collect` — search a tree, to a given depth.
-/

import PcapRacer.Cur

set_option relaxedAutoImplicit false
set_option autoImplicit false

namespace PcapRacer

namespace Ber

/-- Reads from a cursor; a failed read leaves the cursor where it failed. -/
abbrev Reader := ExceptT DissectError (StateM Cur)

/-- A read of the cursor as an action. -/
def Reader.of {α : Type} (read : Cur → Except DissectError (α × Cur)) : Reader α :=
  ExceptT.mk fun c =>
    match read c with
    | .ok (a, c) => (.ok a, c)
    | .error e => (.error e, c)

def classUniversal : UInt8 := 0

def classApplication : UInt8 := 1

def classContext : UInt8 := 2

def tagInteger : UInt8 := 0x02

def tagOctetString : UInt8 := 0x04

def tagOid : UInt8 := 0x06

def tagSequence : UInt8 := 0x10

structure Tlv where
  /-- The two class bits. -/
  cls : UInt8
  constructed : Bool
  tag : UInt8
  val : Bytes
  deriving DecidableEq

namespace Tlv

def cur (t : Tlv) : Cur := Cur.new t.val

/-- The element has this class and tag. -/
def is (t : Tlv) (cls tag : UInt8) : Bool := t.cls == cls && t.tag == tag

/-- The value as a big-endian signed integer, capped at 8 bytes. -/
def asI64 (t : Tlv) : Option Int64 :=
  match t.val with
  | [] => none
  | b :: _ =>
      if 8 < t.val.length then none
      else
        let start : Int64 := if b &&& 0x80 ≠ 0 then -1 else 0
        some (t.val.foldl (fun v x => v <<< 8 ||| x.toUInt64.toInt64) start)

def asU64 (t : Tlv) : Option UInt64 :=
  if t.val = [] ∨ 8 < t.val.length then none
  else some (t.val.foldl (fun v x => v <<< 8 ||| x.toUInt64) 0)

def asStr (t : Tlv) : Option Text := asciiString t.val

/-- The sub-identifiers after the first byte, each in base 128 with a continuation bit; `none` when
the last one is cut short.  The accumulator wraps. -/
def subIdentifiers : Bytes → UInt64 → Bool → Option (List Text)
  | [], _, pending => if pending then none else some []
  | b :: rest, acc, _ =>
      let acc := acc * 128 ||| (b &&& 0x7f).toUInt64
      if b &&& 0x80 = 0 then (subIdentifiers rest 0 false).map (Text.decimal acc.toNat :: ·)
      else subIdentifiers rest acc true

/-- Dotted-decimal rendering of an object identifier. -/
def asOid (t : Tlv) : Option Text :=
  match t.val with
  | [] => none
  | first :: rest =>
      (subIdentifiers rest 0 false).map fun parts =>
        Text.join ['.']
          (Text.decimal (first.toNat / 40) :: Text.decimal (first.toNat % 40) :: parts)

end Tlv

/-! ### Reading -/

/-- High-tag-number form: the tag continues in base-128 bytes, at most `guard` of them. -/
def highTag : ℕ → UInt32 → Reader UInt8
  | 0, _ => throw .malformed
  | guard + 1, t => do
      let b ← Reader.of Cur.u8
      let t := t <<< 7 ||| (b &&& 0x7f).toUInt32
      if b &&& 0x80 = 0 then pure (t &&& 0xff).toUInt8 else highTag guard t

/-- The length octets. -/
def readLength : Reader ℕ := do
  let first ← Reader.of Cur.u8
  if first < 0x80 then pure first.toNat
  else
    let n := (first &&& 0x7f).toNat
    -- zero is the indefinite form; more than four would exceed any sane packet length
    if n = 0 ∨ 4 < n then throw .malformed
    else
      let b ← Reader.of fun c => c.take n
      pure (beNat b)

/-- Read one element. -/
def readIn : Reader Tlv := do
  let id ← Reader.of Cur.u8
  let low := id &&& 0x1f
  let tag ← if low = 0x1f then highTag 4 0 else pure low
  let len ← readLength
  let val ← Reader.of fun c => c.take len
  pure { cls := id >>> 6, constructed := id &&& 0x20 ≠ 0, tag, val }

/-- Read one element from a cursor. -/
def read (c : Cur) : Except DissectError Tlv × Cur := (ExceptT.run readIn).run c

/-! ### Searching -/

/-- Walk the elements under a cursor for the object identifier `oid`; `inner` searches the contents
of a constructed element.  Every round consumes a byte, so `fuel` equal to the number of bytes
never runs out early. -/
def scanOid (inner : Bytes → Option Tlv) (oid : Bytes) : ℕ → Cur → Option Tlv
  | 0, _ => none
  | fuel + 1, c =>
      if c.isEmpty then none
      else
        match read c with
        | (.error _, _) => none
        | (.ok t, c) =>
            if t.cls = classUniversal ∧ t.tag = tagOid ∧ t.val = oid then (read c).1.toOption
            else if t.constructed then
              match inner t.val with
              | some found => some found
              | none => scanOid inner oid fuel c
            else scanOid inner oid fuel c

/-- Depth-first search for the given object identifier, returning the element that immediately
follows it within the same sequence. -/
def findAfterOid : ℕ → Bytes → Bytes → Option Tlv
  | 0, _, _ => none
  | depth + 1, data, oid =>
      scanOid (fun val => findAfterOid depth val oid) oid data.length (Cur.new data)

/-- Walk the elements under a cursor and collect those that satisfy `pred`; `inner` collects from
the contents of a constructed element. -/
def scanCollect (inner : Bytes → List Tlv → List Tlv) (limit : ℕ) (pred : Tlv → Bool) :
    ℕ → Cur → List Tlv → List Tlv
  | 0, _, out => out
  | fuel + 1, c, out =>
      if c.isEmpty ∨ limit ≤ out.length then out
      else
        match read c with
        | (.error _, _) => out
        | (.ok t, c) =>
            let out := if pred t then out ++ [t] else out
            let out := if t.constructed then inner t.val out else out
            scanCollect inner limit pred fuel c out

/-- Collect every element that satisfies a predicate, depth-first, up to `limit` results. -/
def collect : ℕ → Bytes → ℕ → (Tlv → Bool) → List Tlv → List Tlv
  | 0, _, _, _, out => out
  | depth + 1, data, limit, pred, out =>
      scanCollect (fun val out => collect depth val limit pred out) limit pred data.length
        (Cur.new data) out

end Ber

end PcapRacer
