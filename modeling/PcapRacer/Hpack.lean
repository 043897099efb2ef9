/-
**HPACK, the header compression of HTTP/2.**

A header list is written as a block of representations.  A field is indexed, or a literal whose
name is indexed or spelled out; indices run over a static table and, behind it, a dynamic table
that literals are added to.  Integers start in the low bits of an octet and go on in further
octets when they do not fit; strings come as they are or in a Huffman code.  At its start a block
can change the size of the dynamic table.

The Huffman code is a parameter: a relation between coded and decoded octets.

Main definitions:

* `PrefixInt`, `StringLiteral`, `FieldName`, `Representation` — how things are written, with their
  octets;
* `Tables` — the two tables, with the size bound of the dynamic one;
* `Encodes` — a block of representations stands for a header list.

Main results:

* `fieldsSize_fit_le` — the entries of the dynamic table stay within its size;
* `Tables.lookup_of_le` — the static table does not depend on the dynamic one.
-/

import Mathlib.Algebra.Order.Ring.Nat
import Mathlib.Data.List.Basic

set_option relaxedAutoImplicit false
set_option autoImplicit false

namespace Hpack

/-- A header field: its name and its value. -/
abbrev Field := List UInt8 × List UInt8

/-! ### Integers -/

/-- An integer in the low `bits` bits of an octet, or these bits all set and further octets. -/
inductive PrefixInt (bits : ℕ) where
  | short (v : Fin (2 ^ bits - 1))
  | long (more : List (Fin 128)) (last : Fin 128)

namespace PrefixInt

variable {bits : ℕ}

/-- The number that is written: the further octets hold seven bits each, the lowest first. -/
def value : PrefixInt bits → ℕ
  | short v => v
  | long more last => 2 ^ bits - 1 + more.foldr (fun d n => d + 128 * n) last

/-- The octets, with `pattern` in the high bits of the first. -/
def bytes (pattern : ℕ) : PrefixInt bits → List UInt8
  | short v => [UInt8.ofNat (pattern + v)]
  | long more last =>
      UInt8.ofNat (pattern + (2 ^ bits - 1)) ::
        (more.map fun d => UInt8.ofNat (128 + d)) ++ [UInt8.ofNat last]

/-- The integer fits its first octet. -/
def IsShort : PrefixInt bits → Prop
  | short _ => True
  | long _ _ => False

instance : (i : PrefixInt bits) → Decidable i.IsShort
  | short _ => inferInstanceAs (Decidable True)
  | long _ _ => inferInstanceAs (Decidable False)

end PrefixInt

/-! ### Strings and names -/

/-- A string: its octets and their number. -/
structure StringLiteral where
  huffman : Bool
  len : PrefixInt 7
  octets : List UInt8
  len_eq : len.value = octets.length

namespace StringLiteral

def bytes (s : StringLiteral) : List UInt8 :=
  s.len.bytes (if s.huffman then 128 else 0) ++ s.octets

/-- What a string stands for. -/
def Denotes (huffman : List UInt8 → List UInt8 → Prop) (s : StringLiteral) (v : List UInt8) :
    Prop :=
  if s.huffman then huffman s.octets v else s.octets = v

end StringLiteral

/-- The name of a literal field: an index, or a string. -/
inductive FieldName (bits : ℕ) where
  | index (i : PrefixInt bits) (pos : 0 < i.value)
  | literal (s : StringLiteral)

namespace FieldName

variable {bits : ℕ}

def bytes (pattern : ℕ) : FieldName bits → List UInt8
  | index i _ => i.bytes pattern
  | literal s => UInt8.ofNat pattern :: s.bytes

end FieldName

/-! ### Representations -/

/-- A representation: an indexed field, a literal that is added to the dynamic table, a literal that
is not (and perhaps never is to be), or a new size of the dynamic table. -/
inductive Representation where
  | indexed (i : PrefixInt 7)
  | incremental (name : FieldName 6) (value : StringLiteral)
  | plain (never : Bool) (name : FieldName 4) (value : StringLiteral)
  | resize (max : PrefixInt 5)

namespace Representation

def bytes : Representation → List UInt8
  | indexed i => i.bytes 128
  | incremental name value => name.bytes 64 ++ value.bytes
  | plain never name value => name.bytes (if never then 16 else 0) ++ value.bytes
  | resize max => max.bytes 32

end Representation

/-- The octets of a block. -/
def blockBytes (block : List Representation) : List UInt8 := block.flatMap Representation.bytes

theorem blockBytes_cons (r : Representation) (block : List Representation) :
    blockBytes (r :: block) = r.bytes ++ blockBytes block := List.flatMap_cons

/-! ### Tables -/

def octets (s : String) : List UInt8 := s.toList.map fun c => UInt8.ofNat c.toNat

/-- The static table. -/
def staticTable : List Field :=
  [(":authority", ""), (":method", "GET"), (":method", "POST"), (":path", "/"),
    (":path", "/index.html"), (":scheme", "http"), (":scheme", "https"), (":status", "200"),
    (":status", "204"), (":status", "206"), (":status", "304"), (":status", "400"),
    (":status", "404"), (":status", "500"), ("accept-charset", ""),
    ("accept-encoding", "gzip, deflate"), ("accept-language", ""), ("accept-ranges", ""),
    ("accept", ""), ("access-control-allow-origin", ""), ("age", ""), ("allow", ""),
    ("authorization", ""), ("cache-control", ""), ("content-disposition", ""),
    ("content-encoding", ""), ("content-language", ""), ("content-length", ""),
    ("content-location", ""), ("content-range", ""), ("content-type", ""), ("cookie", ""),
    ("date", ""), ("etag", ""), ("expect", ""), ("expires", ""), ("from", ""), ("host", ""),
    ("if-match", ""), ("if-modified-since", ""), ("if-none-match", ""), ("if-range", ""),
    ("if-unmodified-since", ""), ("last-modified", ""), ("link", ""), ("location", ""),
    ("max-forwards", ""), ("proxy-authenticate", ""), ("proxy-authorization", ""), ("range", ""),
    ("referer", ""), ("refresh", ""), ("retry-after", ""), ("server", ""), ("set-cookie", ""),
    ("strict-transport-security", ""), ("transfer-encoding", ""), ("user-agent", ""), ("vary", ""),
    ("via", ""), ("www-authenticate", "")].map fun f => (octets f.1, octets f.2)

/-- What a field takes in the dynamic table. -/
def fieldSize (f : Field) : ℕ := f.1.length + f.2.length + 32

/-- What fields take together. -/
def fieldsSize : List Field → ℕ
  | [] => 0
  | f :: fs => fieldSize f + fieldsSize fs

/-- The fields that fit: from the first on, up to the first that has no room. -/
def fit : ℕ → List Field → List Field
  | _, [] => []
  | room, f :: fs => if fieldSize f ≤ room then f :: fit (room - fieldSize f) fs else []

theorem fieldsSize_fit_le (room : ℕ) (fs : List Field) : fieldsSize (fit room fs) ≤ room := by
  induction fs generalizing room with
  | nil => exact Nat.zero_le room
  | cons f fs ih =>
      unfold fit
      split
      · next hf =>
          have := ih (room - fieldSize f)
          rw [fieldsSize]
          omega
      · exact Nat.zero_le room

/-- The tables: the entries of the dynamic one, the latest first, its size, and the largest size
that it may be given. -/
structure Tables where
  entries : List Field
  max : ℕ
  limit : ℕ
  entries_fit : fieldsSize entries ≤ max
  max_le : max ≤ limit

namespace Tables

/-- Add a field to the dynamic table; fields that have no room any more go. -/
def add (t : Tables) (f : Field) : Tables :=
  { t with entries := fit t.max (f :: t.entries), entries_fit := fieldsSize_fit_le _ _ }

/-- Give the dynamic table another size. -/
def resize (t : Tables) (max : ℕ) (h : max ≤ t.limit) : Tables :=
  { t with max, entries := fit max t.entries, entries_fit := fieldsSize_fit_le _ _, max_le := h }

/-- The field at an index: the static table first, from one on, and the dynamic table behind it. -/
def lookup (t : Tables) (i : ℕ) : Option Field :=
  if i = 0 then none else (staticTable ++ t.entries)[i - 1]?

theorem length_staticTable : staticTable.length = 61 := rfl

/-- The static table does not depend on the dynamic one. -/
theorem lookup_of_le (t : Tables) {i : ℕ} (hpos : 0 < i) (hle : i ≤ 61) :
    t.lookup i = staticTable[i - 1]? := by
  rw [lookup, if_neg (by omega), List.getElem?_append_left (by rw [length_staticTable]; omega)]

/-- A dynamic table without entries. -/
def empty (max : ℕ) : Tables :=
  { entries := [], max, limit := max, entries_fit := Nat.zero_le _, max_le := Nat.le_refl max }

end Tables

/-! ### Blocks -/

section Blocks

variable (huffman : List UInt8 → List UInt8 → Prop)

/-- What the name of a literal stands for. -/
def FieldName.Denotes {bits : ℕ} (t : Tables) (n : List UInt8) : FieldName bits → Prop
  | .index i _ => ∃ v, t.lookup i.value = some (n, v)
  | .literal s => s.Denotes huffman n

/-- A representation of a field: the field, and the tables after it. -/
inductive Represents : Tables → Representation → Field → Tables → Prop where
  | indexed {t : Tables} {i : PrefixInt 7} {f : Field} (h : t.lookup i.value = some f) :
      Represents t (.indexed i) f t
  | incremental {t : Tables} {name : FieldName 6} {value : StringLiteral} {n v : List UInt8}
      (hn : name.Denotes huffman t n) (hv : value.Denotes huffman v) :
      Represents t (.incremental name value) (n, v) (t.add (n, v))
  | plain {t : Tables} {never : Bool} {name : FieldName 4} {value : StringLiteral}
      {n v : List UInt8} (hn : name.Denotes huffman t n) (hv : value.Denotes huffman v) :
      Represents t (.plain never name value) (n, v) t

/-- Representations of fields, one after the other. -/
inductive Fields : Tables → List Representation → List Field → Prop where
  | nil {t : Tables} : Fields t [] []
  | cons {t t' : Tables} {r : Representation} {f : Field} {block : List Representation}
      {fs : List Field} (h : Represents huffman t r f t') (hrest : Fields t' block fs) :
      Fields t (r :: block) (f :: fs)

/-- **A block stands for a header list**: new sizes of the dynamic table, if any, and then its
fields. -/
inductive Encodes : Tables → List Representation → List Field → Prop where
  | fields {t : Tables} {block : List Representation} {fs : List Field}
      (h : Fields huffman t block fs) : Encodes t block fs
  | resize {t : Tables} {max : PrefixInt 5} {block : List Representation} {fs : List Field}
      (h : max.value ≤ t.limit) (hrest : Encodes (t.resize max.value h) block fs) :
      Encodes t (.resize max :: block) fs

end Blocks

end Hpack
