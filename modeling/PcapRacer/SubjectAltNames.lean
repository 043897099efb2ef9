/-
**The alternative names of a certificate.**

The subjectAltName extension is looked for by its object identifier, and what follows the identifier
is taken for the names.  That is the octet string of the extension, unless the criticality flag
stands between the two: then the octet strings of the whole certificate are gone through for one
that opens with a sequence, and an earlier extension may have one.

Main definitions:

* `GeneralName`, `Extension`, `Certificate` — certificates with one subjectAltName extension;
* `Certificate.sans` — the names of the extension;
* `Certificate.Direct`, `Certificate.stray` — when the search ends at the extension, and what is
  taken when it ends before.

Main results:

* `sanNames_bytesOf` — the names of the extension are read from its octet string;
* `extractSans_eq` — the octet string that is taken, for every certificate;
* `extractSans_of_direct` — **the names are those of the extension** when the search ends there;
* `extractSans_of_not_direct` — what is listed when the search ends before.
-/

import PcapRacer.AppTls
import PcapRacer.BerElements
import PcapRacer.TextLossy

set_option relaxedAutoImplicit false
set_option autoImplicit false

namespace PcapRacer

namespace AppTls

open Ber (Element Node bytesOf)

/-! ### Certificates -/

/-- An entry of a subjectAltName. -/
inductive GeneralName
  /-- A dNSName: ASCII, without NUL. -/
  | dns (name : Element 0x82) (ne : name.val ≠ []) (ascii : ∀ b ∈ name.val, 0 < b ∧ b < 0x80)
  | ipv4 (address : Element 0x87) (len : address.val.length = 4)
  | ipv6 (address : Element 0x87) (len : address.val.length = 16)
  | other (name : Node) (context : name.tlv.cls = Ber.classContext)
      (tag : name.tlv.tag ≠ 2 ∧ name.tlv.tag ≠ 7)

namespace GeneralName

def node : GeneralName → Node
  | dns name _ _ => name.node
  | ipv4 address _ => address.node
  | ipv6 address _ => address.node
  | other name _ _ => name

/-- What is listed of a name: host names, and addresses as they are written. -/
def text : GeneralName → Option Text
  | dns name _ _ => some (Text.ofAscii name.val)
  | ipv4 address _ => some (IpAddr.textV4 (UInt32.ofNat (beNat address.val)))
  | ipv6 address _ => some (IpAddr.textV6 (BitVec.ofNat 128 (beNat address.val)))
  | other _ _ _ => none

end GeneralName

/-- An extension: its identifier, the criticality flag where it is given, and its value. -/
structure Extension where
  oid : Element 0x06
  critical : Option (Element 0x01)
  value : Element 0x04
  frame : Element 0x30
  frame_val : frame.val =
    bytesOf (oid.node :: ((critical.map fun e => e.node).toList ++ [value.node]))

/-- The content of a TBSCertificate with one subjectAltName among its extensions. -/
structure Certificate where
  version : Option (Element 0xa0)
  serial : Element 0x02
  algorithm : Element 0x30
  issuer : Element 0x30
  validity : Element 0x30
  subject : Element 0x30
  publicKey : Element 0x30
  issuerId : Option (Element 0x81)
  subjectId : Option (Element 0x82)
  before : List Extension
  names : List GeneralName
  nameList : Element 0x30
  san : Extension
  after : List Extension
  extensionList : Element 0x30
  extensions : Element 0xa3
  nameList_val : nameList.val = bytesOf (names.map GeneralName.node)
  san_oid : san.oid.val = oidSan
  san_value : san.value.val = nameList.bytes
  others : ∀ e ∈ before ++ after, e.oid.val ≠ oidSan
  extensionList_val : extensionList.val =
    bytesOf ((before ++ san :: after).map fun e => e.frame.node)
  extensions_val : extensions.val = extensionList.bytes

namespace Certificate

variable (t : Certificate)

/-- The fields before the extensions. -/
def fields : List Node :=
  (t.version.map fun e => e.node).toList ++
    [t.serial.node, t.algorithm.node, t.issuer.node, t.validity.node, t.subject.node,
      t.publicKey.node] ++
    (t.issuerId.map fun e => e.node).toList ++ (t.subjectId.map fun e => e.node).toList

def bytes : Bytes := bytesOf (t.fields ++ [t.extensions.node])

/-- The host names and the addresses of the extension, the first 64 of them. -/
def sans : Option Text :=
  let listed := (t.names.filterMap GeneralName.text).take 64
  if listed = [] then none else some (Text.join [','] listed)

/-- What follows the object identifier of the extension where a field before the extensions has
it. -/
def fieldHit : Option Ber.Tlv := Ber.findAfterOid 8 (bytesOf t.fields) oidSan

/-- The octet strings before that of the extension: in the fields, up to 32, and the values of the
earlier extensions. -/
def earlier : List Bytes :=
  (Ber.collect 8 (bytesOf t.fields) 32 (fun e => e.tag == Ber.tagOctetString && !e.constructed)
    []).map Ber.Tlv.val ++ t.before.map fun e => e.value.val

/-- The first of the first 32 octet strings that opens with a sequence. -/
def opener : Option Bytes :=
  ((t.earlier ++ t.san.value.val :: t.after.map fun e => e.value.val).take 32).find? opensSequence

/-- What is taken for the value of the extension. -/
def taken : Option Bytes :=
  match t.fieldHit with
  | some hit => if hit.tag = Ber.tagOctetString then some hit.val else t.opener
  | none => if t.san.critical = none then some t.san.value.val else t.opener

/-- No octet string before that of the extension opens with a sequence, and there are at most 31 of
them. -/
def Clear : Prop := t.earlier.length < 32 ∧ ∀ v ∈ t.earlier, opensSequence v = false

/-- The search ends at the extension: no field before the extensions has the object identifier with
an octet string behind it, and the extension is not critical, or its octet string is the first that
opens with a sequence. -/
def Direct : Prop :=
  match t.fieldHit with
  | some hit => hit.tag ≠ Ber.tagOctetString ∧ t.Clear
  | none => t.san.critical = none ∨ t.Clear

/-- What is taken where the search ends before the extension. -/
def stray : Option Bytes :=
  match t.fieldHit with
  | some hit =>
      if hit.tag = Ber.tagOctetString then some hit.val
      else (t.earlier.take 32).find? opensSequence
  | none => (t.earlier.take 32).find? opensSequence

end Certificate

/-! ### The names of an octet string -/

/-- What is listed of the names in an octet string. -/
def listed (inner : Bytes) : Option Text := do
  let seq ← (Ber.read (Cur.new inner)).1.toOption
  let names := sanNames seq.val.length seq.cur []
  if names = [] then none else some (Text.join [','] names)

namespace GeneralName

theorem cls_tlv (n : GeneralName) : n.node.tlv.cls = Ber.classContext := by
  cases n with
  | dns name ne ascii => exact (by decide : (0x82 : UInt8) >>> 6 = 2)
  | ipv4 address len => exact (by decide : (0x87 : UInt8) >>> 6 = 2)
  | ipv6 address len => exact (by decide : (0x87 : UInt8) >>> 6 = 2)
  | other name context tag => exact context

end GeneralName

/-- What one name adds to the list. -/
def pushName (names : List Text) (name : Ber.Tlv) : List Text :=
  if name.tag = 2 then names ++ (asciiString name.val).toList
  else if name.tag = 7 then
    if name.val.length = 4 then
      names ++ [IpAddr.textV4 (UInt32.ofNat (beNat name.val))]
    else if name.val.length = 16 then
      names ++ [IpAddr.textV6 (BitVec.ofNat 128 (beNat name.val))]
    else names
  else names

theorem pushName_node (names : List Text) (n : GeneralName) :
    pushName names n.node.tlv = names ++ n.text.toList := by
  cases n with
  | dns name ne ascii =>
      have htag : (0x82 : UInt8) &&& 0x1f = 2 := by decide
      have hascii : asciiString name.val = some (Text.ofAscii name.val) :=
        asciiString_eq_ofAscii ne ascii
      change (if (0x82 : UInt8) &&& 0x1f = 2 then names ++ (asciiString name.val).toList else _) = _
      rw [if_pos htag, hascii]
      rfl
  | ipv4 address len =>
      have hdns : ¬ (0x87 : UInt8) &&& 0x1f = 2 := by decide
      have haddr : (0x87 : UInt8) &&& 0x1f = 7 := by decide
      exact (if_neg hdns).trans ((if_pos haddr).trans (if_pos len))
  | ipv6 address len =>
      have hdns : ¬ (0x87 : UInt8) &&& 0x1f = 2 := by decide
      have haddr : (0x87 : UInt8) &&& 0x1f = 7 := by decide
      have hshort : ¬ address.val.length = 4 := by omega
      exact (if_neg hdns).trans ((if_pos haddr).trans ((if_neg hshort).trans (if_pos len)))
  | other name context tag =>
      exact ((if_neg tag.1).trans (if_neg tag.2)).trans (List.append_nil _).symm

/-- The names of the extension are read in their order, up to 64 of them. -/
theorem sanNames_bytesOf {gs : List GeneralName} {fuel : ℕ} {c : Cur}
    (hfuel : gs.length ≤ fuel) (h : c.rest = bytesOf (gs.map GeneralName.node))
    {names : List Text} (hroom : names.length < 64) :
    sanNames fuel c names = (names ++ gs.filterMap GeneralName.text).take 64 := by
  induction gs generalizing fuel c names with
  | nil =>
      have htake : (names ++ []).take 64 = names := by
        rw [List.append_nil]
        exact List.take_of_length_le hroom.le
      rw [List.filterMap_nil, htake]
      cases fuel with
      | zero => rfl
      | succ fuel =>
          have hend := Ber.read_of_rest_nil h
          rw [sanNames]
          split
          · rfl
          · next hread => rw [hread] at hend; cases hend
  | cons g gs ih =>
      obtain ⟨fuel, rfl⟩ : ∃ k, fuel = k + 1 := ⟨fuel - 1, by rw [List.length_cons] at hfuel; omega⟩
      obtain ⟨c', hread, hrest⟩ := Ber.read_node (h.trans (Ber.bytesOf_cons _ _))
      have hsplit : names ++ (g :: gs).filterMap GeneralName.text =
          (names ++ g.text.toList) ++ gs.filterMap GeneralName.text := by
        rw [List.append_assoc]
        cases htext : g.text with
        | none => rw [List.filterMap_cons_none htext]; rfl
        | some x => rw [List.filterMap_cons_some htext]; rfl
      have hone : g.text.toList.length ≤ 1 := by cases g.text <;> simp
      have hpush : (names ++ g.text.toList).length ≤ 64 := by
        rw [List.length_append]
        omega
      rw [sanNames, hread]
      dsimp only
      rw [if_neg (not_not_intro g.cls_tlv), hsplit]
      change (if 64 ≤ (pushName names g.node.tlv).length then pushName names g.node.tlv
        else sanNames fuel c' (pushName names g.node.tlv)) = _
      rw [pushName_node]
      split
      · next hfull =>
          rw [List.take_append_of_le_length hfull, List.take_of_length_le hpush]
      · next hmore => exact ih (Nat.le_of_succ_le_succ hfuel) hrest (Nat.lt_of_not_le hmore)

section

variable (t : Certificate)

theorem read_nameList :
    ∃ c', Ber.read (Cur.new t.san.value.val) = (.ok t.nameList.tlv, c') := by
  have hrest : (Cur.new t.san.value.val).rest = t.nameList.bytes ++ [] := by
    rw [List.append_nil]
    exact t.san_value
  obtain ⟨c', hread, -⟩ := Ber.read_element t.nameList (by decide) hrest
  exact ⟨c', hread⟩

/-- The octet string of the extension lists its names. -/
theorem listed_san : listed t.san.value.val = t.sans := by
  obtain ⟨c', hread⟩ := read_nameList t
  have hfuel : t.names.length ≤ t.nameList.val.length := by
    rw [t.nameList_val, ← List.length_map (f := GeneralName.node)]
    exact Ber.length_le_bytesOf _
  have hnames : sanNames t.nameList.tlv.val.length t.nameList.tlv.cur [] =
      (t.names.filterMap GeneralName.text).take 64 :=
    sanNames_bytesOf (c := t.nameList.tlv.cur) hfuel t.nameList_val (by decide)
  rw [listed, hread]
  change (if sanNames t.nameList.tlv.val.length t.nameList.tlv.cur [] = [] then none else
    some (Text.join [','] (sanNames t.nameList.tlv.val.length t.nameList.tlv.cur []))) = _
  rw [hnames]
  rfl

/-- The octet string of the extension opens with a sequence. -/
theorem opensSequence_san : opensSequence t.san.value.val = true := by
  obtain ⟨c', hread⟩ := read_nameList t
  have hsequence : (decide ((0x30 : UInt8) &&& 0x20 ≠ 0) && ((0x30 : UInt8) &&& 0x1f == 0x10)) =
      true := by decide
  rw [opensSequence, hread]
  exact hsequence

end

/-! ### The object identifier -/

namespace Extension

variable (e : Extension)

/-- What follows the identifier of the extension. -/
def follower : Ber.Tlv :=
  match e.critical with
  | some flag => flag.tlv
  | none => e.value.tlv

theorem isOid_oid : e.oid.node.IsOid :=
  ⟨(by decide : (0x06 : UInt8) >>> 6 = 0), (by decide : (0x06 : UInt8) &&& 0x1f = 6)⟩

theorem not_isOid_frame : ¬ e.frame.node.IsOid := fun h =>
  absurd h.2 (by decide : ¬ (0x30 : UInt8) &&& 0x1f = 6)

theorem not_isOid_flag (flag : Element 0x01) : ¬ flag.node.IsOid := fun h =>
  absurd h.2 (by decide : ¬ (0x01 : UInt8) &&& 0x1f = 6)

theorem not_isOid_value : ¬ e.value.node.IsOid := fun h =>
  absurd h.2 (by decide : ¬ (0x04 : UInt8) &&& 0x1f = 6)

theorem constructed_frame : e.frame.node.tlv.constructed = true :=
  e.frame.constructed_tlv.trans (by decide)

theorem primitive_oid : e.oid.node.tlv.constructed = false :=
  e.oid.constructed_tlv.trans (by decide)

theorem primitive_flag (flag : Element 0x01) : flag.node.tlv.constructed = false :=
  flag.constructed_tlv.trans (by decide)

theorem primitive_value : e.value.node.tlv.constructed = false :=
  e.value.constructed_tlv.trans (by decide)

theorem search_of_eq {oid : Bytes} (depth : ℕ) (h : e.oid.val = oid) :
    Ber.findAfterOid (depth + 1) e.frame.val oid = some e.follower := by
  rw [e.frame_val, Ber.findAfterOid_bytesOf, Ber.searchRun_oid e.isOid_oid h]
  unfold follower
  cases e.critical <;> rfl

theorem search_of_ne {oid : Bytes} (depth : ℕ) (h : e.oid.val ≠ oid) :
    Ber.findAfterOid (depth + 1) e.frame.val oid = none := by
  have hvalue : Ber.searchRun (fun val => Ber.findAfterOid depth val oid) oid [e.value.node] =
      none := Ber.searchRun_primitive (fun h => absurd h e.not_isOid_value) e.primitive_value
  have hoid : e.oid.node.IsOid → e.oid.node.tlv.val ≠ oid := fun _ => h
  rw [e.frame_val, Ber.findAfterOid_bytesOf, Ber.searchRun_primitive hoid e.primitive_oid]
  cases e.critical with
  | none => exact hvalue
  | some flag =>
      exact (Ber.searchRun_primitive (fun h => absurd h (not_isOid_flag flag))
        (primitive_flag flag)).trans hvalue

end Extension

/-- The search passes the extensions with other identifiers. -/
theorem searchRun_others {es : List Extension} {oid : Bytes} (depth : ℕ)
    (h : ∀ e ∈ es, e.oid.val ≠ oid) :
    Ber.searchRun (fun val => Ber.findAfterOid (depth + 1) val oid) oid
      (es.map fun e => e.frame.node) = none := by
  induction es with
  | nil => rfl
  | cons e es ih =>
      have he : Ber.findAfterOid (depth + 1) e.frame.node.tlv.val oid = none :=
        e.search_of_ne depth (h e List.mem_cons_self)
      rw [List.map_cons, Ber.searchRun_constructed e.not_isOid_frame e.constructed_frame, he,
        Option.none_or]
      exact ih fun e' he' => h e' (List.mem_cons_of_mem _ he')

/-- The search along the extensions ends at the subjectAltName. -/
theorem search_extensionList (t : Certificate) (depth : ℕ) :
    Ber.findAfterOid (depth + 2) t.extensionList.val oidSan = some t.san.follower := by
  have hsan : Ber.findAfterOid (depth + 1) t.san.frame.node.tlv.val oidSan =
      some t.san.follower := t.san.search_of_eq depth t.san_oid
  have hbefore := searchRun_others depth fun e he => t.others e (List.mem_append_left _ he)
  have hframes : ∀ n ∈ t.before.map fun e => e.frame.node, ¬ n.IsOid := by
    intro n hn
    obtain ⟨e, -, rfl⟩ := List.mem_map.mp hn
    exact e.not_isOid_frame
  rw [t.extensionList_val, Ber.findAfterOid_bytesOf, List.map_append, List.map_cons,
    Ber.searchRun_append hframes, hbefore, Option.none_or,
    Ber.searchRun_constructed t.san.not_isOid_frame t.san.constructed_frame, hsan, Option.some_or]

/-! ### The fields before the extensions -/

namespace Certificate

variable (t : Certificate)

theorem not_isOid_fields : ∀ n ∈ t.fields, ¬ n.IsOid := by
  intro n hn h
  have htag := h.2
  simp only [fields, List.mem_append, List.mem_cons, List.not_mem_nil, or_false,
    Option.mem_toList, Option.map_eq_some_iff] at hn
  obtain ((⟨e, -, rfl⟩ | rfl | rfl | rfl | rfl | rfl | rfl) | ⟨e, -, rfl⟩) | ⟨e, -, rfl⟩ := hn
  · exact absurd htag (by decide : ¬ (0xa0 : UInt8) &&& 0x1f = 6)
  · exact absurd htag (by decide : ¬ (0x02 : UInt8) &&& 0x1f = 6)
  · exact absurd htag (by decide : ¬ (0x30 : UInt8) &&& 0x1f = 6)
  · exact absurd htag (by decide : ¬ (0x30 : UInt8) &&& 0x1f = 6)
  · exact absurd htag (by decide : ¬ (0x30 : UInt8) &&& 0x1f = 6)
  · exact absurd htag (by decide : ¬ (0x30 : UInt8) &&& 0x1f = 6)
  · exact absurd htag (by decide : ¬ (0x30 : UInt8) &&& 0x1f = 6)
  · exact absurd htag (by decide : ¬ (0x81 : UInt8) &&& 0x1f = 6)
  · exact absurd htag (by decide : ¬ (0x82 : UInt8) &&& 0x1f = 6)

theorem extensions_val_node : t.extensions.val = bytesOf [t.extensionList.node] := by
  rw [t.extensions_val]
  exact (List.append_nil _).symm

theorem constructed_extensions : t.extensions.node.tlv.constructed = true :=
  t.extensions.constructed_tlv.trans (by decide)

theorem constructed_extensionList : t.extensionList.node.tlv.constructed = true :=
  t.extensionList.constructed_tlv.trans (by decide)

/-- **What follows the object identifier**: in a field before the extensions, or else in the
extension. -/
theorem findAfterOid_bytes :
    Ber.findAfterOid 8 t.bytes oidSan = t.fieldHit.or (some t.san.follower) := by
  have hext : ¬ t.extensions.node.IsOid := fun h =>
    absurd h.2 (by decide : ¬ (0xa3 : UInt8) &&& 0x1f = 6)
  have hlist : ¬ t.extensionList.node.IsOid := fun h =>
    absurd h.2 (by decide : ¬ (0x30 : UInt8) &&& 0x1f = 6)
  have hinner : Ber.findAfterOid 7 t.extensions.node.tlv.val oidSan = some t.san.follower := by
    have hval : t.extensions.node.tlv.val = bytesOf [t.extensionList.node] := t.extensions_val_node
    have hsearch : Ber.findAfterOid 6 t.extensionList.node.tlv.val oidSan = some t.san.follower :=
      search_extensionList t 4
    rw [hval, Ber.findAfterOid_bytesOf,
      Ber.searchRun_constructed hlist t.constructed_extensionList, hsearch, Option.some_or]
  rw [bytes, Ber.findAfterOid_bytesOf, Ber.searchRun_append t.not_isOid_fields,
    Ber.searchRun_constructed hext t.constructed_extensions, hinner, Option.some_or, fieldHit,
    Ber.findAfterOid_bytesOf]

end Certificate

/-! ### The octet strings -/

/-- The element is a primitive octet string. -/
def octetString (e : Ber.Tlv) : Bool := e.tag == Ber.tagOctetString && !e.constructed

theorem octetString_tlv {id : UInt8} (e : Element id) :
    octetString e.tlv = (id &&& 0x1f == 0x04 && !decide (id &&& 0x20 ≠ 0)) := rfl

/-- The octet string of an extension is gathered. -/
theorem Extension.gathers (e : Extension) (depth : ℕ) :
    Ber.Gathers 32 (fun out => Ber.collect (depth + 1) e.frame.val 32 octetString out)
      [e.value.tlv] := by
  have hvalue : octetString e.value.node.tlv = true :=
    (octetString_tlv e.value).trans (by decide)
  have hoid : octetString e.oid.node.tlv = false := (octetString_tlv e.oid).trans (by decide)
  have hflag : ∀ flag : Element 0x01, octetString flag.node.tlv = false := fun flag =>
    (octetString_tlv flag).trans (by decide)
  -- the elements of an extension are primitive
  have hsteps : ∀ n ∈ e.oid.node :: ((e.critical.map fun e => e.node).toList ++ [e.value.node]),
      Ber.Gathers 32 (fun out => Ber.collectStep
        (fun val out => Ber.collect depth val 32 octetString out) 32 octetString out n)
        (if octetString n.tlv then [n.tlv] else []) := by
    intro n hn
    simp only [List.mem_append, List.mem_cons, List.not_mem_nil, or_false, Option.mem_toList,
      Option.map_eq_some_iff] at hn
    obtain rfl | ⟨flag, -, rfl⟩ | rfl := hn
    · rw [hoid]
      exact Ber.gathers_of_primitive hoid e.primitive_oid
    · rw [hflag]
      exact Ber.gathers_of_primitive (hflag flag) (primitive_flag flag)
    · rw [hvalue]
      exact Ber.gathers_of_pred hvalue e.primitive_value
  have hadded : (e.oid.node :: ((e.critical.map fun e => e.node).toList ++
      [e.value.node])).flatMap (fun n => if octetString n.tlv then [n.tlv] else []) =
      [e.value.tlv] := by
    cases e.critical with
    | none => simp [hoid, hvalue]; rfl
    | some flag => simp [hoid, hvalue, hflag]; rfl
  have hrun := Ber.gathers_collect (fun n => n) _ hsteps
  rw [List.map_id'] at hrun
  rw [e.frame_val, ← hadded]
  exact hrun

namespace Certificate

variable (t : Certificate)

/-- The octet strings of the extensions are gathered in their order. -/
theorem gathers_extensionList (depth : ℕ) :
    Ber.Gathers 32 (fun out => Ber.collect (depth + 2) t.extensionList.val 32 octetString out)
      ((t.before ++ t.san :: t.after).map fun e => e.value.tlv) := by
  have hframe : ∀ e : Extension, octetString e.frame.node.tlv = false := fun e =>
    (octetString_tlv e.frame).trans (by decide)
  have hvalues : (t.before ++ t.san :: t.after).flatMap (fun e => [e.value.tlv]) =
      (t.before ++ t.san :: t.after).map fun e => e.value.tlv := List.map_eq_flatMap.symm
  rw [t.extensionList_val, ← hvalues]
  exact Ber.gathers_collect (fun e : Extension => e.frame.node) _ fun e _ =>
    Ber.gathers_of_constructed (fun val out => Ber.collect (depth + 1) val 32 octetString out)
      (hframe e) e.constructed_frame (e.gathers depth)

/-- The octet strings of the fields, as far as they are gathered. -/
def fieldOctets : List Ber.Tlv := Ber.collect 8 (bytesOf t.fields) 32 octetString []

/-- **The octet strings that are gathered**: those of the fields, and those of the extensions. -/
theorem collect_bytes :
    Ber.collect 8 t.bytes 32 octetString [] =
      (t.fieldOctets ++ (t.before ++ t.san :: t.after).map fun e => e.value.tlv).take 32 := by
  have hext : octetString t.extensions.node.tlv = false :=
    (octetString_tlv t.extensions).trans (by decide)
  have hlist : octetString t.extensionList.node.tlv = false :=
    (octetString_tlv t.extensionList).trans (by decide)
  have hinner : Ber.Gathers 32
      (fun out => Ber.collect 7 t.extensions.node.tlv.val 32 octetString out)
      ((t.before ++ t.san :: t.after).map fun e => e.value.tlv) := by
    have hval : t.extensions.node.tlv.val = bytesOf [t.extensionList.node] := t.extensions_val_node
    intro out hout
    dsimp only
    rw [hval, Ber.collect_bytesOf]
    exact Ber.gathers_of_constructed (fun val out => Ber.collect 6 val 32 octetString out) hlist
      t.constructed_extensionList (t.gathers_extensionList 4) out hout
  have hfields : t.fieldOctets.length ≤ 32 := Ber.length_collect_le 8 _ _ (Nat.zero_le _)
  have hfold := Ber.collect_bytesOf 7 t.fields 32 octetString []
  rw [bytes, Ber.collect_bytesOf, List.foldl_append, ← hfold]
  exact Ber.gathers_of_constructed (fun val out => Ber.collect 7 val 32 octetString out) hext
    t.constructed_extensions hinner t.fieldOctets hfields

theorem opener_eq :
    ((Ber.collect 8 t.bytes 32 octetString []).map Ber.Tlv.val).find? opensSequence =
      t.opener := by
  have hvals : (t.fieldOctets ++
      (t.before ++ t.san :: t.after).map fun e => e.value.tlv).map Ber.Tlv.val =
      t.earlier ++ t.san.value.val :: t.after.map fun e => e.value.val := by
    rw [List.map_append, List.map_map, List.map_append, List.map_cons, ← List.append_assoc]
    rfl
  rw [opener, collect_bytes, List.map_take, hvals]

end Certificate

/-! ### What is taken -/

section

variable (t : Certificate)

/-- The octet string that is taken, by what follows the object identifier. -/
theorem extractSans_of_after {tbs : Bytes} {after : Ber.Tlv}
    (h : Ber.findAfterOid 8 tbs oidSan = some after) :
    extractSans tbs = (if after.tag = Ber.tagOctetString then some after.val
      else ((Ber.collect 8 tbs 32 octetString []).map Ber.Tlv.val).find? opensSequence).bind
        listed := by
  unfold extractSans
  rw [h]
  change (if after.tag = Ber.tagOctetString then (some after.val).bind listed
    else (((Ber.collect 8 tbs 32 octetString []).map Ber.Tlv.val).find? opensSequence).bind
      listed) = _
  split <;> rfl

/-- **The octet string that is taken**, for every certificate. -/
theorem extractSans_eq : extractSans t.bytes = t.taken.bind listed := by
  have hvalue : t.san.value.tlv.tag = Ber.tagOctetString :=
    (by decide : (0x04 : UInt8) &&& 0x1f = 0x04)
  have hflag : ∀ flag : Element 0x01, flag.tlv.tag ≠ Ber.tagOctetString := fun _ =>
    (by decide : (0x01 : UInt8) &&& 0x1f ≠ 0x04)
  have hafter := t.findAfterOid_bytes
  rw [Certificate.taken]
  cases hhit : t.fieldHit with
  | some hit =>
      rw [hhit, Option.some_or] at hafter
      rw [extractSans_of_after hafter, t.opener_eq]
  | none =>
      rw [hhit, Option.none_or, Extension.follower] at hafter
      rw [extractSans_of_after hafter, t.opener_eq]
      cases t.san.critical with
      | none =>
          rw [if_pos hvalue, if_pos rfl]
          rfl
      | some flag =>
          rw [if_neg (hflag flag), if_neg (Option.some_ne_none flag)]

variable {t}

theorem opener_of_clear (h : t.Clear) : t.opener = some t.san.value.val := by
  obtain ⟨hlt, hearlier⟩ := h
  have hnone : t.earlier.find? opensSequence = none := by
    rw [List.find?_eq_none]
    exact fun v hv => ne_true_of_eq_false (hearlier v hv)
  obtain ⟨room, hroom⟩ : ∃ k, 32 = t.earlier.length + (k + 1) :=
    ⟨31 - t.earlier.length, by omega⟩
  rw [Certificate.opener, hroom, List.take_length_add_append, List.take_succ_cons,
    List.find?_append, hnone, Option.none_or, List.find?_cons_of_pos (opensSequence_san t)]

theorem opener_of_not_clear (h : ¬ t.Clear) :
    t.opener = (t.earlier.take 32).find? opensSequence := by
  rw [Certificate.opener]
  by_cases hlt : t.earlier.length < 32
  · -- an earlier octet string opens with a sequence
    obtain ⟨v, hv, hopens⟩ : ∃ v ∈ t.earlier, opensSequence v = true := by
      by_contra hno
      refine h ⟨hlt, fun v hv => ?_⟩
      exact Bool.eq_false_iff.mpr fun hopens => hno ⟨v, hv, hopens⟩
    obtain ⟨w, hw⟩ : ∃ w, t.earlier.find? opensSequence = some w :=
      Option.isSome_iff_exists.mp (List.find?_isSome.mpr ⟨v, hv, hopens⟩)
    obtain ⟨room, hroom⟩ : ∃ k, 32 = t.earlier.length + k := ⟨32 - t.earlier.length, by omega⟩
    rw [List.take_of_length_le hlt.le, hroom, List.take_length_add_append, List.find?_append, hw,
      Option.some_or]
  · rw [List.take_append_of_le_length (Nat.le_of_not_lt hlt)]

/-- When the search ends at the extension, its octet string is taken. -/
theorem taken_of_direct (h : t.Direct) : t.taken = some t.san.value.val := by
  rw [Certificate.Direct] at h
  rw [Certificate.taken]
  cases hhit : t.fieldHit with
  | some hit =>
      rw [hhit] at h
      dsimp only
      rw [if_neg h.1, opener_of_clear h.2]
  | none =>
      rw [hhit] at h
      dsimp only
      split
      · rfl
      · next hcritical => exact opener_of_clear (h.resolve_left hcritical)

theorem taken_of_not_direct (h : ¬ t.Direct) : t.taken = t.stray := by
  rw [Certificate.Direct] at h
  rw [Certificate.taken, Certificate.stray]
  cases hhit : t.fieldHit with
  | some hit =>
      rw [hhit] at h
      dsimp only
      split
      · rfl
      · next htag => exact opener_of_not_clear fun hclear => h ⟨htag, hclear⟩
  | none =>
      rw [hhit] at h
      dsimp only
      rw [if_neg fun hcritical => h (.inl hcritical),
        opener_of_not_clear fun hclear => h (.inr hclear)]

/-- **When the search ends at the extension, the names are those of the extension.** -/
theorem extractSans_of_direct (t : Certificate) (h : t.Direct) : extractSans t.bytes = t.sans := by
  rw [extractSans_eq, taken_of_direct h]
  exact listed_san t

/-- When the search ends before the extension, what it finds there is listed, whatever the names of
the extension are. -/
theorem extractSans_of_not_direct (h : ¬ t.Direct) :
    extractSans t.bytes = t.stray.bind listed := by
  rw [extractSans_eq, taken_of_not_direct h]

end

/-! ### A critical extension behind another -/

/-- An element with a short length. -/
def shortElement (id : UInt8) (val : Bytes) (h : val.length < 128 := by decide) : Element id where
  len := [UInt8.ofNat val.length]
  val
  isLength := .short h

/-- An extension whose elements have short lengths. -/
def shortExtension (oid : Bytes) (critical : Option (Element 0x01)) (value : Bytes)
    (ho : oid.length < 128 := by decide) (hv : value.length < 128 := by decide)
    (hf : (bytesOf ((shortElement 0x06 oid ho).node :: ((critical.map fun e => e.node).toList ++
      [(shortElement 0x04 value hv).node]))).length < 128 := by decide) : Extension where
  oid := shortElement 0x06 oid ho
  critical
  value := shortElement 0x04 value hv
  frame := shortElement 0x30 _ hf
  frame_val := rfl

/-- The host name `a.b`. -/
def hostAB : GeneralName := .dns (shortElement 0x82 [0x61, 0x2e, 0x62]) (List.cons_ne_nil _ _) (by
  intro b hb
  change b ∈ [0x61, 0x2e, 0x62] at hb
  obtain rfl | rfl | rfl : b = 0x61 ∨ b = 0x2e ∨ b = 0x62 := by simpa using hb
  all_goals decide)

/-- A certificate with the names of its issuer, `ca.org`, and a critical extension with its own,
`a.b`. -/
def criticalAfterIssuer : Certificate where
  version := some (shortElement 0xa0 [0x02, 0x01, 0x02])
  serial := shortElement 0x02 [0x05]
  algorithm := shortElement 0x30 [0x06, 0x03, 0x2b, 0x65, 0x70]
  issuer := shortElement 0x30 [0x31, 0x0b, 0x30, 0x09, 0x06, 0x03, 0x55, 0x04, 0x03, 0x0c, 0x02,
    0x43, 0x41]
  validity := shortElement 0x30 [
    0x17, 0x0d, 0x32, 0x36, 0x30, 0x31, 0x30, 0x31, 0x30, 0x30, 0x30, 0x30, 0x30, 0x30, 0x5a,
    0x17, 0x0d, 0x32, 0x37, 0x30, 0x31, 0x30, 0x31, 0x30, 0x30, 0x30, 0x30, 0x30, 0x30, 0x5a]
  subject := shortElement 0x30 []
  publicKey := shortElement 0x30 [0x30, 0x05, 0x06, 0x03, 0x2b, 0x65, 0x70, 0x03, 0x02, 0x00, 0x07]
  issuerId := none
  subjectId := none
  before := [shortExtension [0x55, 0x1d, 0x12] none
    [0x30, 0x08, 0x82, 0x06, 0x63, 0x61, 0x2e, 0x6f, 0x72, 0x67]]
  names := [hostAB]
  nameList := shortElement 0x30 [0x82, 0x03, 0x61, 0x2e, 0x62]
  san := shortExtension oidSan (some (shortElement 0x01 [0xff]))
    [0x30, 0x05, 0x82, 0x03, 0x61, 0x2e, 0x62]
  after := []
  extensionList := shortElement 0x30 [
    0x30, 0x11, 0x06, 0x03, 0x55, 0x1d, 0x12, 0x04, 0x0a,
      0x30, 0x08, 0x82, 0x06, 0x63, 0x61, 0x2e, 0x6f, 0x72, 0x67,
    0x30, 0x11, 0x06, 0x03, 0x55, 0x1d, 0x11, 0x01, 0x01, 0xff, 0x04, 0x07,
      0x30, 0x05, 0x82, 0x03, 0x61, 0x2e, 0x62]
  extensions := shortElement 0xa3 [
    0x30, 0x26, 0x30, 0x11, 0x06, 0x03, 0x55, 0x1d, 0x12, 0x04, 0x0a,
      0x30, 0x08, 0x82, 0x06, 0x63, 0x61, 0x2e, 0x6f, 0x72, 0x67,
    0x30, 0x11, 0x06, 0x03, 0x55, 0x1d, 0x11, 0x01, 0x01, 0xff, 0x04, 0x07,
      0x30, 0x05, 0x82, 0x03, 0x61, 0x2e, 0x62]
  nameList_val := rfl
  san_oid := rfl
  san_value := rfl
  others := by decide
  extensionList_val := rfl
  extensions_val := rfl

theorem critical_names_of_issuer :
    extractSans criticalAfterIssuer.bytes = some "ca.org".toList ∧
      criticalAfterIssuer.sans = some "a.b".toList := by
  decide

/-- A certificate with a critical extension only, which names the host `a.b`. -/
def criticalAlone : Certificate where
  version := some (shortElement 0xa0 [0x02, 0x01, 0x02])
  serial := shortElement 0x02 [0x05]
  algorithm := shortElement 0x30 [0x06, 0x03, 0x2b, 0x65, 0x70]
  issuer := shortElement 0x30 [0x31, 0x0b, 0x30, 0x09, 0x06, 0x03, 0x55, 0x04, 0x03, 0x0c, 0x02,
    0x43, 0x41]
  validity := shortElement 0x30 []
  subject := shortElement 0x30 []
  publicKey := shortElement 0x30 [0x30, 0x05, 0x06, 0x03, 0x2b, 0x65, 0x70, 0x03, 0x02, 0x00, 0x07]
  issuerId := none
  subjectId := none
  before := []
  names := [hostAB]
  nameList := shortElement 0x30 [0x82, 0x03, 0x61, 0x2e, 0x62]
  san := shortExtension oidSan (some (shortElement 0x01 [0xff]))
    [0x30, 0x05, 0x82, 0x03, 0x61, 0x2e, 0x62]
  after := []
  extensionList := shortElement 0x30 [
    0x30, 0x11, 0x06, 0x03, 0x55, 0x1d, 0x11, 0x01, 0x01, 0xff, 0x04, 0x07,
      0x30, 0x05, 0x82, 0x03, 0x61, 0x2e, 0x62]
  extensions := shortElement 0xa3 [
    0x30, 0x13, 0x30, 0x11, 0x06, 0x03, 0x55, 0x1d, 0x11, 0x01, 0x01, 0xff, 0x04, 0x07,
      0x30, 0x05, 0x82, 0x03, 0x61, 0x2e, 0x62]
  nameList_val := rfl
  san_oid := rfl
  san_value := rfl
  others := by decide
  extensionList_val := rfl
  extensions_val := rfl

/-- Behind no other octet string, a critical extension is found. -/
theorem extractSans_of_direct_critical :
    criticalAlone.Direct ∧ extractSans criticalAlone.bytes = criticalAlone.sans ∧
      criticalAlone.sans = some "a.b".toList := by
  have hdirect : criticalAlone.Direct := by
    have hfield : criticalAlone.fieldHit = none := by decide
    have hclear : criticalAlone.Clear := ⟨by decide, by decide⟩
    rw [Certificate.Direct, hfield]
    exact .inr hclear
  exact ⟨hdirect, extractSans_of_direct criticalAlone hdirect, by decide⟩

end AppTls

end PcapRacer
