/-
**LDAP and Kerberos**, the two protocols that carry account names in cleartext on a typical
enterprise network.

Main definitions:

* `readAll` — the elements under a cursor, up to the first that does not parse;
* `renderFilter`, `ldap` — LDAP;
* `principals`, `etypes`, `findErrorCode`, `kerberos` — Kerberos.
-/

import PcapRacer.AppBer
import PcapRacer.Dissect

set_option relaxedAutoImplicit false
set_option autoImplicit false

namespace PcapRacer

namespace AppDirectory

open Sink (layer)

abbrev M := Dissect (Sink DirectoryCols)

/-- The elements under a cursor, up to the first that does not parse and at most `fuel`.  Every
element has at least a byte, so `fuel` equal to the number of bytes reads them all. -/
def readAll : ℕ → Cur → List Ber.Tlv
  | 0, _ => []
  | fuel + 1, c =>
      match Ber.read c with
      | (.error _, _) => []
      | (.ok t, c) => t :: readAll fuel c

/-- A text field: null when empty, capped otherwise. -/
def fieldText (t : Ber.Tlv) (max : ℕ) : Except Panic (Option Text) :=
  t.asStr.mapM fun s => cap s max

/-! ### LDAP -/

def ldapOpName (tag : UInt8) : Text :=
  match tag.toNat with
  | 0 => "bindRequest".toList
  | 1 => "bindResponse".toList
  | 2 => "unbindRequest".toList
  | 3 => "searchRequest".toList
  | 4 => "searchResEntry".toList
  | 5 => "searchResDone".toList
  | 6 => "modifyRequest".toList
  | 7 => "modifyResponse".toList
  | 8 => "addRequest".toList
  | 9 => "addResponse".toList
  | 10 => "delRequest".toList
  | 11 => "delResponse".toList
  | 12 => "modDNRequest".toList
  | 13 => "modDNResponse".toList
  | 14 => "compareRequest".toList
  | 15 => "compareResponse".toList
  | 16 => "abandonRequest".toList
  | 23 => "extendedReq".toList
  | 24 => "extendedResp".toList
  | _ => "unknown".toList

/-- The text of an element that was read, empty when it was not. -/
def textOf (r : Except DissectError Ber.Tlv) : Text := (r.toOption.bind Ber.Tlv.asStr).getD []

/-- An attribute and a value around a comparison. -/
def filterPair (t : Ber.Tlv) (sep : Text) : Text :=
  let (a, c) := Ber.read t.cur
  let (v, _) := Ber.read c
  ['('] ++ textOf a ++ sep ++ textOf v ++ [')']

/-- Render an LDAP filter back into its familiar form. -/
def renderFilter : ℕ → Ber.Tlv → Text
  | 0, _ => "...".toList
  | depth + 1, t =>
      let children (op : Char) : Text :=
        ['(', op] ++ ((readAll 8 t.cur).map (renderFilter depth)).flatten ++ [')']
      match t.tag.toNat with
      | 0 => children '&'
      | 1 => children '|'
      | 2 => children '!'
      | 3 => filterPair t "=".toList
      | 4 =>
          -- substring match: the attribute, then a sequence of typed fragments
          ['('] ++ textOf (Ber.read t.cur).1 ++ "=*)".toList
      | 5 => filterPair t ">=".toList
      | 6 => filterPair t "<=".toList
      | 7 => ['('] ++ t.asStr.getD [] ++ "=*)".toList
      | 8 => filterPair t "~=".toList
      | _ => "(?)".toList

/-- A bind request: version, name, authentication.  A SASL bind names its mechanism; a simple bind
carries the password, which is not recorded. -/
def ldapBind (o : Cur) : M Unit := do
  let (version, o) := Ber.read o
  let _ ← version
  let (name, o) := Ber.read o
  if let .ok name := name then
    let dn ← fieldText name 512
    col fun c => { c with ldapDn := dn }
  if let .ok auth := (Ber.read o).1 then
    if auth.cls = Ber.classContext ∧ auth.tag = 3 then
      if let .ok mech := (Ber.read auth.cur).1 then
        col fun c => { c with ldapSaslMechanism := mech.asStr }

/-- A search request: base, five parameters, the filter and the attributes. -/
def ldapSearch (o : Cur) : M Unit := do
  let (base, o) := Ber.read o
  if let .ok base := base then
    let dn ← fieldText base 512
    col fun c => { c with ldapDn := dn }
  let (p₁, o) := Ber.read o
  let (p₂, o) := Ber.read o
  let (p₃, o) := Ber.read o
  let (p₄, o) := Ber.read o
  let (p₅, o) := Ber.read o
  if [p₁, p₂, p₃, p₄, p₅].any fun p => p.toOption.isNone then
    return
  let (filter, o) := Ber.read o
  if let .ok filter := filter then
    let text ← cap (renderFilter 6 filter) 512
    col fun c => { c with ldapFilter := some text }
  if let .ok attrs := (Ber.read o).1 then
    let names := (Ber.collect 3 attrs.val 32 (!·.constructed) []).filterMap Ber.Tlv.asStr
    if names ≠ [] then
      let text ← cap (Text.join [','] names) 512
      col fun c => { c with ldapAttributes := some text }

/-- A response that opens with an enumerated result code. -/
def ldapResult (o : Cur) : M Unit := do
  let (code, o) := Ber.read o
  if let .ok code := code then
    col fun c => { c with ldapResultCode := code.asU64.map UInt64.toUInt32 }
  if let .ok dn := (Ber.read o).1 then
    if let some s := dn.asStr then
      let s ← cap s 512
      col fun c => { c with ldapDn := some s }

def ldap (payload : Bytes) : M Unit := do
  layer .ldap
  let msg ← (Ber.read (Cur.new payload)).1
  if msg.constructed = false ∨ msg.tag ≠ Ber.tagSequence then
    giveUp .malformed
  let (id, m) := Ber.read msg.cur
  let id ← id
  col fun c => { c with ldapMessageId := id.asU64.map UInt64.toUInt32 }
  let op ← (Ber.read m).1
  if op.cls ≠ Ber.classApplication then
    return
  col fun c => { c with ldapOperation := some (ldapOpName op.tag) }
  let tag := op.tag.toNat
  if tag = 0 then
    ldapBind op.cur
  else if tag = 3 then
    ldapSearch op.cur
  else if tag ∈ [1, 5, 7, 9, 11, 13, 15, 24] then
    ldapResult op.cur
  else if tag = 4 then
    if let .ok dn := (Ber.read op.cur).1 then
      let dn ← fieldText dn 512
      col fun c => { c with ldapDn := dn }

/-! ### Kerberos -/

def krbMsgName (t : UInt8) : Text :=
  match t.toNat with
  | 10 => "AS-REQ".toList
  | 11 => "AS-REP".toList
  | 12 => "TGS-REQ".toList
  | 13 => "TGS-REP".toList
  | 14 => "AP-REQ".toList
  | 15 => "AP-REP".toList
  | 30 => "KRB-ERROR".toList
  | _ => "unknown".toList

def krbTagRealm : UInt8 := 3

/-- The realm is recorded from the first field that carries it; later ones repeat it. -/
def krbField (field : Ber.Tlv) : M Unit := do
  if field.cls = Ber.classContext then
    if let .ok inner := (Ber.read field.cur).1 then
      if field.tag = krbTagRealm ∧ (← cols).krbRealm.isNone then
        let realm ← fieldText inner 256
        col fun c => { c with krbRealm := realm }

/-- The parts of a principal name: a sequence of a name type and a sequence of strings. -/
def principal (s : Ber.Tlv) : Option Text :=
  match Ber.read s.cur with
  | (.error _, _) => none
  | (.ok first, c) =>
      if first.is Ber.classContext 0 then
        match (Ber.read c).1 with
        | .error _ => none
        | .ok second =>
            if second.is Ber.classContext 1 then
              let parts := Ber.collect 4 second.val 8
                (fun t => !t.constructed && t.cls == Ber.classUniversal) []
              let joined := parts.filterMap Ber.Tlv.asStr
              if joined = [] then none else some (Text.join ['/'] joined)
            else none
      else none

/-- The first two principals found. -/
def principals (seqs : List Ber.Tlv) : List Text := (seqs.filterMap principal).take 2

/-- The text of a signed number. -/
def signedDecimal (v : Int) : Text :=
  if v < 0 then '-' :: Text.decimal v.natAbs else Text.decimal v.natAbs

/-- The numbers of a sequence of at least two integers. -/
def etypeList (s : Ber.Tlv) : Option (List Text) :=
  let elems := readAll s.val.length s.cur
  if elems.all fun t => t.is Ber.classUniversal Ber.tagInteger then
    let ints := elems.filterMap fun t => t.asI64.map fun v => signedDecimal v.toInt
    if 2 ≤ ints.length then some ints else none
  else none

/-- Principal names and encryption types, located by shape.  The first principal is the client, the
second the service, which matches the field order of the requests. -/
def collectPrincipals (data : Bytes) : M Unit := do
  let seqs := Ber.collect 8 data 64 (·.is Ber.classUniversal Ber.tagSequence) []
  let names := principals seqs
  if let some cname := names[0]? then
    let cname ← cap cname 256
    col fun c => { c with krbCname := some cname }
  if let some sname := names[1]? then
    let sname ← cap sname 256
    col fun c => { c with krbSname := some sname }
  if let some ints := seqs.findSome? etypeList then
    let text ← cap (Text.join [','] ints) 128
    col fun c => { c with krbEtypes := some text }

/-- The error code is context tag 6. -/
def findErrorCode (data : Bytes) : Option UInt32 :=
  match (readAll data.length (Cur.new data)).find? (·.is Ber.classContext 6) with
  | none => none
  | some f =>
      ((Ber.read f.cur).1.toOption.bind Ber.Tlv.asU64).map UInt64.toUInt32

/-- Kerberos over TCP is length-prefixed; over UDP it is not. -/
def kerberosBody (payload : Bytes) (overTcp : Bool) : Except DissectError Bytes :=
  if overTcp then do
    let (len, c) ← (Cur.new payload).be32
    let (body, _) ← c.take (min len.toNat c.remaining)
    pure body
  else pure payload

def kerberos (payload : Bytes) (overTcp : Bool) : M Unit := do
  layer .kerberos
  let body ← kerberosBody payload overTcp
  let msg ← (Ber.read (Cur.new body)).1
  if msg.cls ≠ Ber.classApplication then
    giveUp .malformed
  col fun c => { c with krbMsgType := some msg.tag,
                        krbMsgTypeName := some (krbMsgName msg.tag) }
  -- the application wrapper contains one sequence of context-tagged fields
  match (Ber.read msg.cur).1 with
  | .error _ => return
  | .ok seq =>
      if seq.constructed then
        (readAll seq.val.length seq.cur).forM krbField
        collectPrincipals seq.val
        if msg.tag = 30 then
          col fun c => { c with krbErrorCode := findErrorCode seq.val }

end AppDirectory

end PcapRacer
