/-
**Searches through BER elements of any tag and any nesting.**

The two searches of the reader go down into constructed elements, as far as a depth allows.  Over a
forest of elements, collecting is taking the elements that are looked for in depth-first order, up
to the limit.  In a name, which is a sequence of sets of pairs of a type and a value, the search for
a type finds the value of its first pair.

Main definitions:

* `Tree`, `IsForest` — elements and what they contain, and their bytes;
* `preorder` — the elements of a forest in depth-first order, down to a depth;
* `Attribute`, `RelativeName` — the parts of a name.

Main results:

* `collect_forest` — **collecting takes the first elements in depth-first order**;
* `findAfterOid_name` — **the search for a type finds the value of its first attribute**.
-/

import PcapRacer.BerReading

set_option relaxedAutoImplicit false
set_option autoImplicit false

namespace PcapRacer

namespace Ber

/-! ### Elements in a row -/

/-- The bytes of elements of any tag. -/
def bytesOfAll (es : List Encoding) : Bytes := es.flatMap Encoding.bytes

theorem bytesOfAll_cons (e : Encoding) (es : List Encoding) :
    bytesOfAll (e :: es) = e.bytes ++ bytesOfAll es := rfl

theorem length_le_bytesOfAll (es : List Encoding) : es.length ≤ (bytesOfAll es).length := by
  induction es with
  | nil => exact Nat.le_refl 0
  | cons e es ih =>
      have hpos := List.length_pos_of_ne_nil e.bytes_ne_nil
      rw [bytesOfAll_cons, List.length_append, List.length_cons]
      omega

theorem reads_bytesOfAll {c : Cur} {es : List Encoding} (h : c.rest = bytesOfAll es) :
    Reads c (es.map Encoding.tlv) := by
  induction es generalizing c with
  | nil => exact .nil h
  | cons e es ih =>
      obtain ⟨c', hread, hrest⟩ := read_encoding e (h.trans (bytesOfAll_cons e es))
      refine .cons ?_ hread (ih hrest)
      rw [h, bytesOfAll_cons]
      exact List.append_ne_nil_of_left_ne_nil e.bytes_ne_nil _

/-- **The search for an object identifier, along elements of any tag.** -/
theorem findAfterOid_bytesOfAll (depth : ℕ) (es : List Encoding) (oid : Bytes) :
    findAfterOid (depth + 1) (bytesOfAll es) oid =
      searchTlvs (fun val => findAfterOid depth val oid) oid (es.map Encoding.tlv) := by
  refine scanOid_of_reads _ oid ?_ (reads_bytesOfAll rfl)
  rw [List.length_map]
  exact length_le_bytesOfAll es

/-- **The collection of elements, along elements of any tag.** -/
theorem collect_bytesOfAll (depth : ℕ) (es : List Encoding) (limit : ℕ) (pred : Tlv → Bool)
    (out : List Tlv) :
    collect (depth + 1) (bytesOfAll es) limit pred out = (es.map Encoding.tlv).foldl
      (collectTlv (fun val out => collect depth val limit pred out) limit pred) out := by
  refine scanCollect_of_reads _ limit pred ?_ (reads_bytesOfAll rfl) out
  rw [List.length_map]
  exact length_le_bytesOfAll es

/-! ### Forests -/

/-- An element and the elements it contains. -/
inductive Tree
  | mk (tlv : Tlv) (children : List Tree)

namespace Tree

def tlv : Tree → Tlv
  | mk tlv _ => tlv

def children : Tree → List Tree
  | mk _ children => children

end Tree

/-- The bytes hold these elements in a row, and the values of the constructed ones hold theirs. -/
inductive IsForest : Bytes → List Tree → Prop
  | nil : IsForest [] []
  | primitive {e : Encoding} {rest : Bytes} {ts : List Tree} (h : e.tlv.constructed = false) :
      IsForest rest ts → IsForest (e.bytes ++ rest) (.mk e.tlv [] :: ts)
  | constructed {e : Encoding} {rest : Bytes} {us ts : List Tree} (h : e.tlv.constructed = true) :
      IsForest e.val us → IsForest rest ts → IsForest (e.bytes ++ rest) (.mk e.tlv us :: ts)

/-- The elements of a forest in depth-first order, a parent before its children, down to `depth`
levels. -/
def preorder : ℕ → List Tree → List Tlv
  | 0, _ => []
  | depth + 1, ts => ts.flatMap fun t => t.tlv :: preorder depth t.children

/-- A forest is a row of elements whose values are forests. -/
theorem IsForest.row {data : Bytes} {ts : List Tree} (h : IsForest data ts) :
    ∃ es : List Encoding, data = bytesOfAll es ∧ es.map Encoding.tlv = ts.map Tree.tlv ∧
      ∀ t ∈ ts, (t.tlv.constructed = true → IsForest t.tlv.val t.children) ∧
        (t.tlv.constructed = false → t.children = []) := by
  induction h with
  | nil => exact ⟨[], rfl, rfl, fun t ht => absurd ht List.not_mem_nil⟩
  | @primitive e rest ts hc _ ih =>
      obtain ⟨es, rfl, hmap, hall⟩ := ih
      refine ⟨e :: es, rfl, congrArg (e.tlv :: ·) hmap, fun t ht => ?_⟩
      rcases List.mem_cons.mp ht with rfl | ht
      · exact ⟨fun hc' => absurd (hc.symm.trans hc') Bool.false_ne_true, fun _ => rfl⟩
      · exact hall t ht
  | @constructed e rest us ts hc hus _ _ ih =>
      obtain ⟨es, rfl, hmap, hall⟩ := ih
      refine ⟨e :: es, rfl, congrArg (e.tlv :: ·) hmap, fun t ht => ?_⟩
      rcases List.mem_cons.mp ht with rfl | ht
      · exact ⟨fun _ => hus, fun hc' => absurd (hc'.symm.trans hc) Bool.false_ne_true⟩
      · exact hall t ht

section Collect

variable {limit : ℕ} {pred : Tlv → Bool}

theorem gathers_forest {depth : ℕ} {data : Bytes} {ts : List Tree} (h : IsForest data ts) :
    Gathers limit (fun out => collect depth data limit pred out)
      ((preorder depth ts).filter pred) := by
  induction depth generalizing data ts with
  | zero => exact Gathers.none
  | succ depth ih =>
      obtain ⟨es, rfl, hmap, hall⟩ := h.row
      have hrow : Gathers limit (fun out => ts.foldl (fun out t =>
          collectTlv (fun val out => collect depth val limit pred out) limit pred out t.tlv) out)
          (ts.flatMap fun t => [t.tlv].filter pred ++ (preorder depth t.children).filter pred) := by
        refine gathers_foldl _ _ fun t ht => gathers_collectTlv (fun hc => ih ((hall t ht).1 hc)) ?_
        intro hc
        rw [(hall t ht).2 hc]
        cases depth <;> rfl
      have hadded : (preorder (depth + 1) ts).filter pred =
          ts.flatMap fun t => [t.tlv].filter pred ++ (preorder depth t.children).filter pred := by
        rw [preorder, List.filter_flatMap]
        refine congrArg (ts.flatMap ·) (funext fun t => ?_)
        exact List.filter_append [t.tlv] _
      intro out hout
      dsimp only
      rw [collect_bytesOfAll, hmap, List.foldl_map, hadded]
      exact hrow out hout

/-- Where the limit has been reached nothing is collected. -/
theorem collect_of_full (depth : ℕ) (data : Bytes) {out : List Tlv} (h : limit ≤ out.length) :
    collect depth data limit pred out = out := by
  cases depth with
  | zero => rfl
  | succ depth =>
      rw [collect]
      cases data.length with
      | zero => rfl
      | succ fuel => rw [scanCollect, if_pos (.inr h)]

/-- **Collecting takes the first elements in depth-first order**, as many as the limit leaves room
for, and never exceeds the limit. -/
theorem collect_forest (depth limit : ℕ) (pred : Tlv → Bool) (data : Bytes) (ts : List Tree)
    (out : List Tlv) (h : IsForest data ts) :
    collect depth data limit pred out =
        out ++ ((preorder depth ts).filter pred).take (limit - out.length) ∧
      (out.length ≤ limit → (collect depth data limit pred out).length ≤ limit) := by
  refine ⟨?_, fun hout => length_collect_le depth data pred hout⟩
  rcases Nat.le_total limit out.length with hfull | hroom
  · rw [collect_of_full depth data hfull, Nat.sub_eq_zero_of_le hfull, List.take_zero,
      List.append_nil]
  · refine (gathers_forest h out hroom).trans ?_
    rw [List.take_append, List.take_of_length_le hroom]

end Collect

/-- An identifier of one octet. -/
def lowIdentifier (lead : UInt8) (h : (lead &&& 0x1f == 0x1f) = false) : Identifier :=
  ⟨lead, [], if_neg (beq_eq_false_iff_ne.mp h) ▸ rfl⟩

/-- An integer, an octet string, and a sequence of the two. -/
def sevenInteger : Encoding :=
  ⟨lowIdentifier 0x02 (by decide), [0x01], [7], .short (by decide)⟩

def octetString42 : Encoding :=
  ⟨lowIdentifier 0x04 (by decide), [0x01], [42], .short (by decide)⟩

def pairSequence : Encoding :=
  ⟨lowIdentifier 0x30 (by decide), [0x06], sevenInteger.bytes ++ (octetString42.bytes ++ []),
    .short (by decide)⟩

/-- Two levels of it, with room for two, give what the sequence holds. -/
theorem collect_forest_pair : collect 2 (pairSequence.bytes ++ []) 2 (fun t => !t.constructed) [] =
    [sevenInteger.tlv, octetString42.tlv] :=
  (collect_forest 2 2 (fun t => !t.constructed) (pairSequence.bytes ++ []) _ []
    (IsForest.constructed (e := pairSequence) rfl
      (.primitive (e := sevenInteger) rfl (.primitive (e := octetString42) rfl .nil)) .nil)).1

/-! ### Names -/

/-- A type and its value. -/
structure Attribute where
  type : Element 0x06
  value : Encoding
  primitive : value.tlv.constructed = false
  whole : Element 0x30
  whole_val : whole.val = type.bytes ++ value.bytes

/-- A set of attributes. -/
structure RelativeName where
  attributes : List Attribute
  whole : Element 0x31
  whole_val : whole.val = attributes.flatMap fun a => a.whole.bytes

/-- The contents of a name. -/
def nameBytes (name : List RelativeName) : Bytes := name.flatMap fun r => r.whole.bytes

/-- The attributes of a name, in the order in which they are encoded. -/
def attributesOf (name : List RelativeName) : List Attribute :=
  name.flatMap RelativeName.attributes

/-- An element whose tag stands in its identifier octet. -/
def Element.encoding {id : UInt8} (e : Element id) (low : id &&& 0x1f ≠ 0x1f) : Encoding where
  ident := { lead := id, more := [], wf := by rw [if_neg low] }
  len := e.len
  val := e.val
  isLength := e.isLength

theorem Element.tlv_encoding {id : UInt8} (e : Element id) (low : id &&& 0x1f ≠ 0x1f) :
    (e.encoding low).tlv = e.tlv := by
  have htag : (e.encoding low).ident.tag = id &&& 0x1f := by
    change UInt8.ofNat (if id &&& 0x1f = 0x1f then _ else _) = _
    rw [if_neg low, UInt8.ofNat_toNat]
    rfl
  unfold Encoding.tlv
  rw [htag]
  rfl

section Search

variable {oid : Bytes}

/-- The search goes into constructed elements one after the other. -/
theorem searchTlvs_constructed {α : Type} (inner : Bytes → Option Tlv) (f : α → Tlv) (as : List α)
    (htag : ∀ a, (f a).tag ≠ tagOid) (hc : ∀ a, (f a).constructed = true) :
    searchTlvs inner oid (as.map f) = as.findSome? fun a => inner (f a).val := by
  induction as with
  | nil => rfl
  | cons a as ih =>
      have hne : ¬ ((f a).cls = classUniversal ∧ (f a).tag = tagOid ∧ (f a).val = oid) :=
        fun h => htag a h.2.1
      rw [List.map_cons, searchTlvs, if_neg hne, if_pos (hc a), ih, List.findSome?_cons]
      cases inner (f a).val <;> rfl

/-- The search in one attribute. -/
theorem findAfterOid_attribute (depth : ℕ) (a : Attribute) :
    findAfterOid (depth + 1) a.whole.val oid =
      if a.type.val = oid then some a.value.tlv else none := by
  have hbytes : a.whole.val = bytesOfAll [a.type.encoding (by decide), a.value] := by
    rw [a.whole_val]
    exact congrArg (a.type.bytes ++ ·) (List.append_nil _).symm
  rw [hbytes, findAfterOid_bytesOfAll, List.map_cons, List.map_singleton, Element.tlv_encoding,
    searchTlvs]
  by_cases hoid : a.type.val = oid
  · rw [if_pos ⟨rfl, rfl, hoid⟩, if_pos hoid]
    rfl
  · -- nothing follows the value, whatever it is
    have hprimitive : ¬ a.type.tlv.constructed = true := Bool.false_ne_true
    rw [if_neg (fun h => hoid h.2.2), if_neg hoid, if_neg hprimitive, searchTlvs, a.primitive]
    split <;> rfl

/-- The search in a set of attributes. -/
theorem findAfterOid_relativeName (depth : ℕ) (r : RelativeName) :
    findAfterOid (depth + 2) r.whole.val oid =
      (r.attributes.find? fun a => a.type.val = oid).map fun a => a.value.tlv := by
  have hbytes : r.whole.val =
      bytesOfAll (r.attributes.map fun a => a.whole.encoding (by decide)) := by
    rw [r.whole_val, bytesOfAll, List.flatMap_map]
    rfl
  rw [hbytes, findAfterOid_bytesOfAll, List.map_map, searchTlvs_constructed]
  · rw [List.find?_eq_findSome?_guard, List.map_findSome?]
    refine congrArg (List.findSome? · r.attributes) (funext fun a => ?_)
    simp only [Function.comp_apply, Element.tlv_encoding, Option.guard, decide_eq_true_eq]
    refine (findAfterOid_attribute depth a).trans ?_
    split <;> rfl
  · intro a
    rw [Function.comp_apply, Element.tlv_encoding]
    exact show (0x30 &&& 0x1f : UInt8) ≠ tagOid by decide
  · intro a
    rw [Function.comp_apply, Element.tlv_encoding]
    rfl

end Search

/-- **The search for a type finds the value of its first attribute**, in the order of the encoding,
or nothing when there is none. -/
theorem findAfterOid_name (name : List RelativeName) (oid : Bytes) :
    findAfterOid 6 (nameBytes name) oid =
      ((attributesOf name).find? fun a => a.type.val = oid).map fun a => a.value.tlv := by
  have hbytes : nameBytes name = bytesOfAll (name.map fun r => r.whole.encoding (by decide)) := by
    rw [nameBytes, bytesOfAll, List.flatMap_map]
    rfl
  rw [hbytes, findAfterOid_bytesOfAll, List.map_map, searchTlvs_constructed]
  · simp only [Function.comp_apply, Element.tlv_encoding]
    rw [attributesOf, List.find?_flatMap, List.map_findSome?]
    exact congrArg (List.findSome? · name) (funext fun r => findAfterOid_relativeName 3 r)
  · intro r
    rw [Function.comp_apply, Element.tlv_encoding]
    exact show (0x31 &&& 0x1f : UInt8) ≠ tagOid by decide
  · intro r
    rw [Function.comp_apply, Element.tlv_encoding]
    rfl

/-- A name of one attribute, the common name `ab`. -/
example : ∃ name : List RelativeName,
    nameBytes name = [0x31, 11, 0x30, 9, 0x06, 3, 0x55, 4, 3, 0x0c, 2, 0x61, 0x62] ∧
      ((attributesOf name).find? fun a => a.type.val = [0x55, 4, 3]).map
        (fun a => a.value.tlv.val) = some [0x61, 0x62] := by
  let type : Element 0x06 := ⟨[3], [0x55, 4, 3], .short (by decide)⟩
  let value : Element 0x0c := ⟨[2], [0x61, 0x62], .short (by decide)⟩
  let whole : Element 0x30 := ⟨[9], type.bytes ++ value.bytes, .short (by decide)⟩
  let commonName : Attribute :=
    { type, value := value.encoding (by decide), primitive := by decide, whole, whole_val := rfl }
  exact ⟨[{ attributes := [commonName], whole := ⟨[11], whole.bytes, .short (by decide)⟩
            whole_val := rfl }], rfl, rfl⟩

end Ber

end PcapRacer
