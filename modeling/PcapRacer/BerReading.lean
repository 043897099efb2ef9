/-
**BER elements of any tag: what the reader accepts.**

A tag number below 31 stands in the identifier octet; a larger one follows it, in base 128.  The
reader takes up to four octets of it and keeps the lowest eight bits of the number.  It accepts
definite lengths of up to four octets, padded or not, and nothing else.

Main definitions:

* `Identifier` — the octets of an identifier, in either form;
* `Encoding` — an element: identifier, length octets and value.

Main results:

* `read_encoding` — an element is read back, whatever comes behind it;
* `read_eq_ok` — **whatever is read is an element**;
* `read_definite` — **reading inverts encoding, and fails on everything cut short, indefinite or
  too long**;
* `read_tags_differ_iff` — **when two tag numbers are told apart**.
-/

import PcapRacer.Base128
import PcapRacer.BerElements

set_option relaxedAutoImplicit false
set_option autoImplicit false

namespace PcapRacer

namespace Ber

open Base128 (Word value valueFrom)

/-! ### Identifiers and elements -/

/-- The octets of an identifier: one, or one with all five tag bits set and up to four that hold the
number. -/
structure Identifier where
  lead : UInt8
  more : Bytes
  wf : if lead &&& 0x1f = 0x1f then Word more ∧ more.length ≤ 4 else more = []

namespace Identifier

variable (i : Identifier)

def octets : Bytes := i.lead :: i.more

/-- The two class bits. -/
def cls : UInt8 := i.lead >>> 6

def constructed : Bool := i.lead &&& 0x20 ≠ 0

/-- The tag number. -/
def number : ℕ := if i.lead &&& 0x1f = 0x1f then value i.more else (i.lead &&& 0x1f).toNat

/-- What is left of the tag number: its lowest eight bits. -/
def tag : UInt8 := UInt8.ofNat i.number

end Identifier

/-- An element of any tag. -/
structure Encoding where
  ident : Identifier
  len : Bytes
  val : Bytes
  isLength : IsLength val.length len

namespace Encoding

variable (e : Encoding)

def bytes : Bytes := e.ident.octets ++ (e.len ++ e.val)

/-- The element as the reader gives it. -/
def tlv : Tlv :=
  { cls := e.ident.cls, constructed := e.ident.constructed, tag := e.ident.tag, val := e.val }

theorem bytes_ne_nil : e.bytes ≠ [] := List.cons_ne_nil _ _

end Encoding

/-! ### Reading a tag number -/

/-- One more octet of the number: the accumulator wraps. -/
theorem accumulate (n : ℕ) (b : UInt8) :
    UInt32.ofNat n <<< 7 ||| (b &&& 0x7f).toUInt32 = UInt32.ofNat (n * 128 + b.toNat % 128) := by
  have hlow : ((b &&& 0x7f).toUInt32).toNat = b.toNat % 128 := Base128.toNat_low b
  have hshift : (UInt32.ofNat n <<< 7).toNat = (n % 2 ^ 25) <<< 7 := by
    rw [UInt32.toNat_shiftLeft, UInt32.toNat_ofNat', Nat.shiftLeft_eq, Nat.shiftLeft_eq]
    change n % 2 ^ 32 * 2 ^ 7 % 2 ^ 32 = _
    omega
  rw [← UInt32.toNat_inj, UInt32.toNat_or, hshift, hlow,
    ← Nat.shiftLeft_add_eq_or_of_lt (Nat.mod_lt _ (by decide)), Nat.shiftLeft_eq,
    UInt32.toNat_ofNat']
  omega

theorem squeeze (n : ℕ) : (UInt32.ofNat n &&& 0xff).toUInt8 = UInt8.ofNat n := by
  rw [← UInt8.toNat_inj, UInt32.toNat_toUInt8, UInt32.toNat_and, UInt32.toNat_ofNat',
    UInt8.toNat_ofNat']
  have hand : n % 2 ^ 32 &&& (0xff : UInt32).toNat = n % 2 ^ 32 % 2 ^ 8 :=
    Nat.and_two_pow_sub_one_eq_mod _ 8
  rw [hand]
  omega

section Read

variable {α β : Type} {c c' : Cur} {tail : Bytes}

/-- **A tag number is read back**, up to its lowest eight bits. -/
theorem highTag_of_word {bs : Bytes} (hbs : Word bs) {guard : ℕ} (hlen : bs.length ≤ guard) (n : ℕ)
    (h : c.rest = bs ++ tail) :
    ∃ c', (ExceptT.run (highTag guard (UInt32.ofNat n))).run c =
      (.ok (UInt8.ofNat (valueFrom n bs)), c') ∧ c'.rest = tail := by
  induction hbs generalizing guard n c with
  | @last b hb =>
      obtain ⟨guard, rfl⟩ : ∃ k, guard = k + 1 := ⟨guard - 1, by simp at hlen; omega⟩
      obtain ⟨c', hu8, hrest⟩ := u8_of_cons h
      refine ⟨c', ?_, hrest⟩
      rw [highTag, reader_bind, hu8]
      dsimp only
      rw [if_pos ((Base128.top_eq_zero_iff b).mpr hb), accumulate, squeeze]
      rfl
  | @more b bs hb _ ih =>
      obtain ⟨guard, rfl⟩ : ∃ k, guard = k + 1 := ⟨guard - 1, by simp at hlen; omega⟩
      obtain ⟨c₁, hu8, hrest⟩ := u8_of_cons h
      obtain ⟨c', hmore, hrest'⟩ := ih (show bs.length ≤ guard by simpa using hlen)
        (n * 128 + b.toNat % 128) hrest
      refine ⟨c', ?_, hrest'⟩
      have htop : ¬ b &&& 0x80 = 0 := fun h0 =>
        absurd ((Base128.top_eq_zero_iff b).mp h0) (Nat.not_lt.mpr hb)
      rw [highTag, reader_bind, hu8]
      dsimp only
      rw [if_neg htop, accumulate, hmore]
      rfl

/-- The tag of an identifier whose first octet has been read. -/
def readTag (lead : UInt8) : Reader UInt8 :=
  if lead &&& 0x1f = 0x1f then highTag 4 0 else pure (lead &&& 0x1f)

theorem readTag_of_identifier (i : Identifier) (h : c.rest = i.more ++ tail) :
    ∃ c', (ExceptT.run (readTag i.lead)).run c = (.ok i.tag, c') ∧ c'.rest = tail := by
  have hwf := i.wf
  unfold readTag Identifier.tag Identifier.number
  by_cases hhigh : i.lead &&& 0x1f = 0x1f
  · rw [if_pos hhigh] at hwf ⊢
    rw [if_pos hhigh]
    exact highTag_of_word hwf.1 hwf.2 0 h
  · rw [if_neg hhigh] at hwf ⊢
    rw [if_neg hhigh, UInt8.ofNat_toNat]
    rw [hwf] at h
    exact ⟨c, rfl, h⟩

/-- What follows an identifier: the length and the value. -/
def readValue (lead tag : UInt8) : Reader Tlv := do
  let len ← readLength
  let val ← Reader.of fun c => c.take len
  pure { cls := lead >>> 6, constructed := lead &&& 0x20 ≠ 0, tag, val }

theorem readIn_eq : readIn = (do
    let lead ← Reader.of Cur.u8
    let tag ← readTag lead
    readValue lead tag) := by
  unfold readIn readTag
  refine bind_congr fun lead => ?_
  dsimp only
  split <;> rfl

/-- **The identifier is read**, and the length comes next. -/
theorem read_identifier (i : Identifier) (h : c.rest = i.octets ++ tail) :
    ∃ c', read c = (ExceptT.run (readValue i.lead i.tag)).run c' ∧ c'.rest = tail := by
  obtain ⟨c₁, hu8, hrest₁⟩ := u8_of_cons h
  obtain ⟨c₂, htag, hrest₂⟩ := readTag_of_identifier i hrest₁
  refine ⟨c₂, ?_, hrest₂⟩
  rw [read, readIn_eq, reader_bind, hu8]
  dsimp only
  rw [reader_bind, htag]

/-- **An element is read back**, whatever comes behind it. -/
theorem read_encoding (e : Encoding) (h : c.rest = e.bytes ++ tail) :
    ∃ c', read c = (.ok e.tlv, c') ∧ c'.rest = tail := by
  rw [Encoding.bytes, List.append_assoc, List.append_assoc] at h
  obtain ⟨c₁, hread, hrest₁⟩ := read_identifier e.ident h
  obtain ⟨c₂, hlen, hrest₂⟩ := readLength_of_isLength e.isLength hrest₁
  obtain ⟨c₃, hval, hrest₃⟩ := take_of_append hrest₂
  refine ⟨c₃, ?_, hrest₃⟩
  rw [hread, readValue, reader_bind, hlen]
  dsimp only
  rw [reader_bind, hval]
  rfl

/-! ### Whatever is read is an element -/

theorem reader_bind_eq_ok {x : Reader α} {f : α → Reader β} {b : β}
    (h : (ExceptT.run (x >>= f)).run c = (.ok b, c')) :
    ∃ a c₁, (ExceptT.run x).run c = (.ok a, c₁) ∧ (ExceptT.run (f a)).run c₁ = (.ok b, c') := by
  rw [reader_bind] at h
  rcases hx : (ExceptT.run x).run c with ⟨r, c₁⟩
  rw [hx] at h
  cases r with
  | ok a => exact ⟨a, c₁, rfl, h⟩
  | error e => cases h

theorem reader_of_eq_ok {read : Cur → Except DissectError (α × Cur)} {a : α}
    (h : (ExceptT.run (Reader.of read)).run c = (.ok a, c')) : read c = .ok (a, c') := by
  cases hr : read c with
  | ok r =>
      rw [run_of (show read c = .ok (r.1, r.2) from hr)] at h
      cases h
      rfl
  | error e =>
      rw [run_of_error hr] at h
      cases h

theorem rest_of_take {n : ℕ} {x : Bytes} (h : c.take n = .ok (x, c')) :
    c.rest = x ++ c'.rest ∧ x.length = n := by
  obtain ⟨hn, heq⟩ := Cur.take_eq_ok_iff.mp h
  obtain ⟨rfl, rfl⟩ := Prod.mk.inj heq
  refine ⟨?_, ?_⟩
  · rw [Cur.rest_advance, List.take_append_drop]
  · rw [List.length_take, Cur.length_rest, Nat.min_eq_left hn]

theorem rest_of_u8 {b : UInt8} (h : c.u8 = .ok (b, c')) : c.rest = b :: c'.rest := by
  rw [Cur.u8_eq_read] at h
  obtain ⟨x, htake, hb⟩ := Cur.read_eq_ok h
  obtain ⟨hrest, hlen⟩ := rest_of_take htake
  obtain ⟨a, rfl⟩ := List.length_eq_one_iff.mp hlen
  rw [hrest, show b = a from hb]
  rfl

theorem highTag_eq_ok {guard n : ℕ} {tag : UInt8}
    (h : (ExceptT.run (highTag guard (UInt32.ofNat n))).run c = (.ok tag, c')) :
    ∃ bs, Word bs ∧ bs.length ≤ guard ∧ c.rest = bs ++ c'.rest ∧
      tag = UInt8.ofNat (valueFrom n bs) := by
  induction guard generalizing c n with
  | zero => cases h
  | succ guard ih =>
      rw [highTag] at h
      obtain ⟨b, c₁, hu8, h⟩ := reader_bind_eq_ok h
      have hrest := rest_of_u8 (reader_of_eq_ok hu8)
      rw [accumulate] at h
      by_cases htop : b &&& 0x80 = 0
      · rw [if_pos htop, squeeze] at h
        cases h
        exact ⟨[b], .last ((Base128.top_eq_zero_iff b).mp htop), by simp, hrest, rfl⟩
      · rw [if_neg htop] at h
        obtain ⟨bs, hword, hlen, hrest', htag⟩ := ih h
        have hb : 128 ≤ b.toNat :=
          Nat.not_lt.mp fun hlt => htop ((Base128.top_eq_zero_iff b).mpr hlt)
        exact ⟨b :: bs, .more hb hword, by simpa using hlen, by rw [hrest, hrest']; rfl, htag⟩

theorem readTag_eq_ok {lead tag : UInt8}
    (h : (ExceptT.run (readTag lead)).run c = (.ok tag, c')) :
    ∃ i : Identifier, i.lead = lead ∧ i.tag = tag ∧ c.rest = i.more ++ c'.rest := by
  unfold readTag at h
  by_cases hhigh : lead &&& 0x1f = 0x1f
  · rw [if_pos hhigh] at h
    obtain ⟨bs, hword, hlen, hrest, htag⟩ := highTag_eq_ok (n := 0) h
    refine ⟨⟨lead, bs, by rw [if_pos hhigh]; exact ⟨hword, hlen⟩⟩, rfl, ?_, hrest⟩
    unfold Identifier.tag Identifier.number
    dsimp only
    rw [if_pos hhigh, htag]
    rfl
  · rw [if_neg hhigh] at h
    cases h
    refine ⟨⟨lead, [], by rw [if_neg hhigh]⟩, rfl, ?_, rfl⟩
    unfold Identifier.tag Identifier.number
    dsimp only
    rw [if_neg hhigh, UInt8.ofNat_toNat]

theorem readLength_eq_ok {n : ℕ} (h : (ExceptT.run readLength).run c = (.ok n, c')) :
    ∃ len, IsLength n len ∧ c.rest = len ++ c'.rest := by
  rw [readLength] at h
  obtain ⟨first, c₁, hu8, h⟩ := reader_bind_eq_ok h
  have hrest := rest_of_u8 (reader_of_eq_ok hu8)
  have hlow := Base128.toNat_low first
  by_cases hshort : first < 0x80
  · rw [if_pos hshort] at h
    cases h
    have hlt : first.toNat < 128 := hshort
    refine ⟨[first], ?_, hrest⟩
    have hlen := IsLength.short (n := first.toNat) hlt
    rwa [UInt8.ofNat_toNat] at hlen
  · rw [if_neg hshort] at h
    have hge : 128 ≤ first.toNat := Nat.not_lt.mp hshort
    have hlt := first.toNat_lt
    dsimp only at h
    split at h
    · cases h
    · next hcount =>
        rw [hlow] at hcount h
        obtain ⟨digits, c₂, htake, h⟩ := reader_bind_eq_ok h
        obtain ⟨hrest', hdigits⟩ := rest_of_take (reader_of_eq_ok htake)
        cases h
        refine ⟨first :: digits, ?_, by rw [hrest, hrest']; rfl⟩
        have hfirst : first = 0x80 + UInt8.ofNat digits.length := by
          rw [← UInt8.toNat_inj, UInt8.toNat_add, UInt8.toNat_ofNat', hdigits]
          change _ = (128 + _) % 256
          omega
        rw [hfirst]
        exact .long (by omega) (by omega) rfl

/-- **Whatever is read is an element.** -/
theorem read_eq_ok {t : Tlv} (h : read c = (.ok t, c')) :
    ∃ e : Encoding, e.tlv = t ∧ c.rest = e.bytes ++ c'.rest := by
  rw [read, readIn_eq] at h
  obtain ⟨lead, c₁, hu8, h⟩ := reader_bind_eq_ok h
  obtain ⟨tag, c₂, htag, h⟩ := reader_bind_eq_ok h
  obtain ⟨i, rfl, rfl, hmore⟩ := readTag_eq_ok htag
  rw [readValue] at h
  obtain ⟨n, c₃, hlength, h⟩ := reader_bind_eq_ok h
  obtain ⟨val, c₄, htake, h⟩ := reader_bind_eq_ok h
  obtain ⟨len, hlen, hrest₃⟩ := readLength_eq_ok hlength
  obtain ⟨hrest₄, hn⟩ := rest_of_take (reader_of_eq_ok htake)
  cases h
  subst hn
  refine ⟨⟨i, len, val, hlen⟩, rfl, ?_⟩
  rw [rest_of_u8 (reader_of_eq_ok hu8), hmore, hrest₃, hrest₄]
  simp [Encoding.bytes, Identifier.octets]

/-- **An element that is cut short is not read.** -/
theorem read_take (e : Encoding) {k : ℕ} (hk : k < e.bytes.length) (h : c.rest = e.bytes.take k) :
    ∃ err c', read c = (.error err, c') := by
  rcases hread : read c with ⟨err | t, c'⟩
  · exact ⟨err, c', rfl⟩
  · -- what was read is an element of its own, and the whole one would be read the same way
    obtain ⟨e', -, hrest⟩ := read_eq_ok hread
    have hwhole : e.bytes = e'.bytes ++ (c'.rest ++ e.bytes.drop k) := by
      rw [← List.append_assoc, ← hrest, h, List.take_append_drop]
    have halone : (Cur.new e.bytes).rest = e.bytes ++ [] := (List.append_nil _).symm
    obtain ⟨d, hd, hdrest⟩ := read_encoding (c := Cur.new e.bytes) e' hwhole
    obtain ⟨d', hd', hdrest'⟩ := read_encoding e halone
    rw [hd] at hd'
    rw [(Prod.mk.inj hd').2, hdrest'] at hdrest
    have hdrop : e.bytes.drop k = [] := (List.append_eq_nil_iff.mp hdrest.symm).2
    rw [List.drop_eq_nil_iff] at hdrop
    omega

/-- **The indefinite length and lengths of more than four octets are not read.** -/
theorem read_of_long (i : Identifier) {first : UInt8} (hfirst : first = 0x80 ∨ 0x85 ≤ first)
    (h : c.rest = i.octets ++ first :: tail) : ∃ c', read c = (.error .malformed, c') := by
  obtain ⟨c₁, hread, hrest₁⟩ := read_identifier i h
  obtain ⟨c₂, hu8, -⟩ := u8_of_cons hrest₁
  have hge : 128 ≤ first.toNat ∧ (first.toNat % 128 = 0 ∨ 4 < first.toNat % 128) := by
    have hlt := first.toNat_lt
    rcases hfirst with rfl | hfirst
    · exact ⟨by decide, .inl rfl⟩
    · have h85 : 133 ≤ first.toNat := hfirst
      omega
  have hlong : ¬ first < 0x80 := Nat.not_lt.mpr hge.1
  refine ⟨c₂, ?_⟩
  rw [hread, readValue, readLength, reader_bind, reader_bind, hu8]
  dsimp only
  rw [if_neg hlong, Base128.toNat_low, if_pos hge.2]
  rfl

end Read

/-! ### Reading inverts encoding -/

/-- The identifier octet of a tag number below 31. -/
def leadOctet (cls : ℕ) (constructed : Bool) (tag : ℕ) : UInt8 :=
  UInt8.ofNat (cls * 64 + (if constructed then 32 else 0) + tag)

theorem leadOctet_parts {cls tag : ℕ} (constructed : Bool) (hcls : cls < 4) (htag : tag < 31) :
    leadOctet cls constructed tag >>> 6 = UInt8.ofNat cls ∧
      decide (leadOctet cls constructed tag &&& 0x20 ≠ 0) = constructed ∧
      leadOctet cls constructed tag &&& 0x1f = UInt8.ofNat tag := by
  have hall : ∀ (k : Fin 4) (b : Bool) (t : Fin 31), leadOctet k b t >>> 6 = UInt8.ofNat k ∧
      decide (leadOctet k b t &&& 0x20 ≠ 0) = b ∧ leadOctet k b t &&& 0x1f = UInt8.ofNat t := by
    decide +kernel
  exact hall ⟨cls, hcls⟩ constructed ⟨tag, htag⟩

/-- **Reading inverts encoding.**  An element of any class and any tag below 31, with its length in
any definite form of up to four octets, is read back whatever comes behind it; cut short anywhere it
is not read; and no element of any tag is read whose length is indefinite or takes more octets. -/
theorem read_definite (cls tag : ℕ) (constructed : Bool) (len val : Bytes) (hcls : cls < 4)
    (htag : tag < 31) (hlen : IsLength val.length len) :
    (∀ (c : Cur) (suffix : Bytes),
        c.rest = leadOctet cls constructed tag :: (len ++ val) ++ suffix →
        ∃ c', read c =
          (.ok { cls := UInt8.ofNat cls, constructed, tag := UInt8.ofNat tag, val }, c') ∧
          c'.rest = suffix) ∧
      (∀ (c : Cur) (k : ℕ), k < (leadOctet cls constructed tag :: (len ++ val)).length →
        c.rest = (leadOctet cls constructed tag :: (len ++ val)).take k →
        ∃ e c', read c = (.error e, c')) ∧
      ∀ (i : Identifier) (c : Cur) (first : UInt8) (tail : Bytes),
        first = 0x80 ∨ 0x85 ≤ first → c.rest = i.octets ++ first :: tail →
        ∃ e c', read c = (.error e, c') := by
  obtain ⟨hclass, hcons, hlow⟩ := leadOctet_parts constructed hcls htag
  have hne : ¬ leadOctet cls constructed tag &&& 0x1f = 0x1f := by
    rw [hlow, ← UInt8.toNat_inj, UInt8.toNat_ofNat']
    change ¬ tag % 256 = 31
    omega
  let e : Encoding := ⟨⟨leadOctet cls constructed tag, [], by rw [if_neg hne]⟩, len, val, hlen⟩
  have htlv : e.tlv = { cls := UInt8.ofNat cls, constructed, tag := UInt8.ofNat tag, val } := by
    have htag' : e.ident.tag = UInt8.ofNat tag := by
      change UInt8.ofNat (if leadOctet cls constructed tag &&& 0x1f = 0x1f then _ else _) = _
      rw [if_neg hne, UInt8.ofNat_toNat, hlow]
    unfold Encoding.tlv Identifier.cls Identifier.constructed
    rw [htag', hclass, hcons]
  refine ⟨fun c suffix h => ?_, fun c k hk h => read_take e hk h, fun i c first tail hfirst h => ?_⟩
  · rw [← htlv]
    exact read_encoding e h
  · obtain ⟨c', hread⟩ := read_of_long i hfirst h
    exact ⟨_, c', hread⟩

/-- A padded length: an octet string of one octet, with something behind it. -/
theorem read_definite_padded : ∃ c', read (Cur.new [0x04, 0x82, 0x00, 0x01, 0x2a, 0xff]) =
    (.ok { cls := 0, constructed := false, tag := 4, val := [0x2a] }, c') ∧ c'.rest = [0xff] :=
  (read_definite 0 4 false [0x82, 0x00, 0x01] [0x2a] (by decide) (by decide)
    (@IsLength.long 1 [0x00, 0x01] (by decide) (by decide) rfl)).1 _ _ rfl

/-! ### Tag numbers -/

/-- The class and the tag of what is read are those of its identifier. -/
theorem read_ident {c d : Cur} {t : Tlv} {i : Identifier} (h : read c = (.ok t, d))
    (hi : i.octets <+: c.rest) : t.cls = i.cls ∧ t.tag = i.tag := by
  obtain ⟨tail, hrest⟩ := hi
  obtain ⟨c', hread, -⟩ := read_identifier i hrest.symm
  rw [hread, readValue] at h
  obtain ⟨n, c₃, -, h⟩ := reader_bind_eq_ok h
  obtain ⟨val, c₄, -, h⟩ := reader_bind_eq_ok h
  cases h
  exact ⟨rfl, rfl⟩

/-- **When tag numbers are told apart.**  Of two elements of one class that are read, those with
different tag numbers get different tags, if and only if their numbers are not the same in the
lowest eight bits only. -/
theorem read_tags_differ_iff (c₁ c₂ d₁ d₂ : Cur) (t₁ t₂ : Tlv) (i₁ i₂ : Identifier)
    (h₁ : read c₁ = (.ok t₁, d₁)) (h₂ : read c₂ = (.ok t₂, d₂)) (hi₁ : i₁.octets <+: c₁.rest)
    (hi₂ : i₂.octets <+: c₂.rest) (hcls : i₁.cls = i₂.cls) :
    (i₁.number ≠ i₂.number → ¬ (t₁.cls = t₂.cls ∧ t₁.tag = t₂.tag)) ↔
      (i₁.number % 256 = i₂.number % 256 → i₁.number = i₂.number) := by
  obtain ⟨hc₁, ht₁⟩ := read_ident h₁ hi₁
  obtain ⟨hc₂, ht₂⟩ := read_ident h₂ hi₂
  have htag : i₁.tag = i₂.tag ↔ i₁.number % 256 = i₂.number % 256 := by
    rw [← UInt8.toNat_inj, Identifier.tag, Identifier.tag, UInt8.toNat_ofNat', UInt8.toNat_ofNat']
  rw [hc₁, hc₂, ht₁, ht₂, htag]
  constructor
  · intro h hmod
    by_contra hne
    exact h hne ⟨hcls, hmod⟩
  · intro h hne heq
    exact hne (h heq.2)

/-- The identifier of a sequence, and of a set. -/
def sequenceIdent : Identifier := { lead := 0x30, more := [], wf := rfl }

def setIdent : Identifier := { lead := 0x31, more := [], wf := rfl }

/-- The identifier of the universal class with the tag number 272. -/
def ident272 : Identifier where
  lead := 0x3f
  more := [0x82, 0x10]
  wf := ⟨.more (by decide) (.last (by decide)), by decide⟩

/-- A sequence and a set have different tags. -/
theorem read_tags_differ_sequence_set : ∃ t₁ t₂ d₁ d₂,
    read (Cur.new [0x30, 0x00]) = (.ok t₁, d₁) ∧ read (Cur.new [0x31, 0x00]) = (.ok t₂, d₂) ∧
      ¬ (t₁.cls = t₂.cls ∧ t₁.tag = t₂.tag) :=
  ⟨_, _, _, _, rfl, rfl, (read_tags_differ_iff (Cur.new [0x30, 0x00]) (Cur.new [0x31, 0x00]) _ _ _ _
    sequenceIdent setIdent rfl rfl (by decide) (by decide) (by decide)).mpr (by decide) (by decide)⟩

/-- An element with the tag number 272 is read as a sequence, whose tag number is 16. -/
theorem read_ident272 : ident272.number = 272 ∧ sequenceIdent.number = 16 ∧
    ∃ t₁ t₂ d₁ d₂, read (Cur.new (sequenceIdent.octets ++ [0x00])) = (.ok t₁, d₁) ∧
      read (Cur.new (ident272.octets ++ [0x00])) = (.ok t₂, d₂) ∧
      sequenceIdent.cls = ident272.cls ∧ t₁.cls = t₂.cls ∧ t₁.tag = t₂.tag :=
  ⟨by decide, by decide, _, _, _, _, rfl, rfl, by decide, by decide, by decide⟩

end Ber

end PcapRacer
