/-
**Header blocks of HTTP/2, and what the dissector takes them for.**

The dissector reads a HEADERS frame as if all of it were a header block, and a header block as if
every representation started with one octet for its index.  A pad length, a priority, an index that
goes on in further octets or a new size of the dynamic table is then read as a field, and so is what
follows.  Up to the first of these every value that is kept is one of the header list; from there on
it is what the octets happen to spell.

Main definitions:

* `AppHttp.spelled` — the fields that octets spell when each of them is taken for one of the simple
  forms;
* `AppHttp.lastSet`, `AppHttp.valueColumns` — what fields leave in the columns;
* `HeadersFrame`, `HeadersFrame.Sound` — a HEADERS frame, and a right reading of it;
* `HeadersFrame.stray`, `HeadersFrame.Plain` — the octets that are misread, and a frame without any.

Main results:

* `AppHttp.exec_decodeHeaders`, `HeadersFrame.exec_parseH2` — the dissector keeps what is spelled;
* `HeadersFrame.sound_iff` — the reading is right if and only if what the misread octets spell
  happens to be;
* `HeadersFrame.guesses` — it need not be.
-/

import PcapRacer.ByteOrder
import PcapRacer.Hpack
import PcapRacer.HttpMessages
import PcapRacer.LdapCalm
import PcapRacer.TlsHello

set_option relaxedAutoImplicit false
set_option autoImplicit false

namespace PcapRacer

namespace AppHttp

/-! ### What octets spell -/

/-- A string whose length fits its first octet, at the start of some octets. -/
def stringAt : Bytes → Option (Text × Bytes)
  | [] => none
  | b :: rest =>
      let len := (b &&& 0x7f).toNat
      if len = 127 ∨ rest.length < len then none
      else some (if b &&& 0x80 ≠ 0 then [] else Text.lossy (rest.take len), rest.drop len)

/-- The name of a literal whose index fits its first octet. -/
def nameAt (idx : UInt8) (rest : Bytes) : Option (Option Text × Bytes) :=
  if idx ≠ 0 then some (staticName idx, rest) else (stringAt rest).map fun p => (some p.1, p.2)

/-- The fields that octets spell, at most `guard` of them. -/
def spelled : ℕ → Bytes → List (Text × Text)
  | 0, _ => []
  | _ + 1, [] => []
  | guard + 1, b :: rest =>
      if b &&& 0x80 ≠ 0 then (staticEntry (b &&& 0x7f)).toList ++ spelled guard rest
      else
        match nameAt (if b &&& 0x40 ≠ 0 then b &&& 0x3f else b &&& 0x0f) rest with
        | none => []
        | some (name, rest) =>
            match stringAt rest with
            | none => []
            | some (value, rest) =>
                (name.map fun n => (n, value)).toList ++ spelled guard rest

/-- A string that is read has room in its column. -/
theorem cap_stringAt {b rest : Bytes} {v : Text} (h : stringAt b = some (v, rest)) :
    cap v 1024 = .ok v := by
  have hlen : v.length ≤ 127 := by
    cases b with
    | nil => cases h
    | cons x b =>
        simp only [stringAt] at h
        split at h
        · cases h
        · cases h
          split
          · exact Nat.zero_le _
          · refine (Text.length_lossyFrom_le 0 _).trans ?_
            rw [List.length_take]
            refine (Nat.min_le_left _ _).trans ?_
            rw [UInt8.toNat_and]
            exact Nat.and_le_right
  exact cap_of_le ((Text.utf8Len_le v).trans (by omega))

/-- Reading a string from a cursor. -/
theorem readString_rest (c : Cur) :
    (stringAt c.rest = none ∧ readString c = none) ∨
      ∃ v c', stringAt c.rest = some (v, c'.rest) ∧ readString c = some (v, c') := by
  unfold readString
  cases hrest : c.rest with
  | nil =>
      rw [Cur.u8_of_rest_nil hrest]
      exact .inl ⟨rfl, rfl⟩
  | cons b rest =>
      obtain ⟨c₁, hu8, hrest₁⟩ := Cur.exists_u8 hrest
      rw [hu8]
      simp only [stringAt, Except.toOption, Option.bind_eq_bind, Option.bind_some]
      by_cases hlong : (b &&& 0x7f).toNat = 127
      · rw [if_pos (.inl hlong), if_pos hlong]
        exact .inl ⟨rfl, rfl⟩
      · rw [if_neg hlong]
        by_cases hshort : rest.length < (b &&& 0x7f).toNat
        · have hfail : c₁.take (b &&& 0x7f).toNat = .error .truncated := by
            rw [Cur.take, dif_neg]
            rw [← Cur.length_rest, hrest₁]
            omega
          rw [if_pos (.inr hshort), hfail]
          exact .inl ⟨rfl, rfl⟩
        · obtain ⟨c₂, htake, hrest₂⟩ := Cur.exists_take (c := c₁) (n := (b &&& 0x7f).toNat)
            (hrest₁.trans (List.take_append_drop (b &&& 0x7f).toNat rest).symm)
            (by rw [List.length_take]; omega)
          rw [if_neg (not_or.mpr ⟨hlong, hshort⟩), htake]
          refine .inr ⟨_, c₂, by rw [hrest₂], ?_⟩
          simp only [Option.bind_some]
          split <;> rfl

/-! ### What fields leave in the columns -/

/-- The last value of a name among some fields; empty values do not count. -/
def lastSet (fields : List (Text × Text)) (name : Text) : Option Text :=
  ((fields.filter fun f => f.1 = name ∧ f.2 ≠ []).getLast?).map Prod.snd

theorem lastSet_append (a b : List (Text × Text)) (name : Text) :
    lastSet (a ++ b) name = (lastSet b name).or (lastSet a name) := by
  simp only [lastSet, List.filter_append, List.getLast?_append]
  cases (b.filter fun f => f.1 = name ∧ f.2 ≠ []).getLast? <;> rfl

/-- What is set is among the fields. -/
theorem mem_of_lastSet {fields : List (Text × Text)} {name v : Text}
    (h : lastSet fields name = some v) : (name, v) ∈ fields ∧ v ≠ [] := by
  obtain ⟨f, hf, rfl⟩ := Option.map_eq_some_iff.mp h
  obtain ⟨hmem, hname⟩ := List.mem_filter.mp (List.mem_of_getLast? hf)
  obtain ⟨rfl, hv⟩ := of_decide_eq_true hname
  exact ⟨hmem, hv⟩

/-- One more field that counts. -/
theorem lastSet_singleton {value : Text} (h : value ≠ []) (fields : List (Text × Text))
    (lower : Text) :
    lastSet (fields ++ [(lower, value)]) =
      fun name => if lower = name then some value else lastSet fields name := by
  funext name
  rw [lastSet_append]
  by_cases hname : lower = name
  · simp [lastSet, hname, h]
  · simp [lastSet, hname]

theorem lastSet_singleton_nil (fields : List (Text × Text)) (lower : Text) :
    lastSet (fields ++ [(lower, [])]) = lastSet fields := by
  funext name
  rw [lastSet_append]
  simp [lastSet]

/-- The columns that values are kept in, when the values by name are these. -/
def valueColumns (value : Text → Option Text) (c : HttpCols) : HttpCols :=
  { c with
    http2Method := value ":method".toList
    http2Path := value ":path".toList
    http2Authority := value ":authority".toList
    http2Scheme := value ":scheme".toList
    http2Status := value ":status".toList
    httpUserAgent := value "user-agent".toList
    httpContentType := value "content-type".toList }

/-- What setting a value should leave. -/
def Sets (name v : Text) (value : Text → Option Text) (c : HttpCols) (d : M Unit) : Prop :=
  ∀ stack : List Layer, d.exec { stack, cols := valueColumns value c } =
    .ok (.ok (), { stack, cols := valueColumns (fun n => if name = n then some v else value n) c })

/-- Setting a value: its column, if it has one, holds it, and the others stay. -/
theorem exec_setPseudo {name v : Text} (hcap : cap v 1024 = .ok v) (seen : List (Text × Text))
    (c : HttpCols) (stack : List Layer) :
    (setPseudo name v).exec { stack, cols := valueColumns (lastSet seen) c } =
      .ok (.ok (), { stack, cols := valueColumns (lastSet (seen ++ [(name, v)])) c }) := by
  unfold setPseudo
  by_cases hv : v = []
  · rw [if_neg (not_not.mpr hv), hv, lastSet_singleton_nil]
    rfl
  · rw [if_pos hv, hcap, lastSet_singleton hv]
    change Dissect.exec (if name = ":method".toList then _ else _) _ = _
    revert stack
    change Sets name v (lastSet seen) c _
    iterate 7
      refine ite_of (P := Sets name v (lastSet seen) c) (by rintro rfl stack; rfl) fun _ => ?_
    intro stack
    change Except.ok (Except.ok (), (_ : Sink HttpCols)) = Except.ok (Except.ok (), _)
    simp only [valueColumns, *, if_false]

theorem cap_staticEntry {idx : UInt8} {f : Text × Text} (h : staticEntry idx = some f) :
    cap f.2 1024 = .ok f.2 := by
  unfold staticEntry at h
  split at h <;> cases h <;> rfl

/-- Reading the name of a literal from a cursor. -/
theorem literalName_rest (idx : UInt8) (c : Cur) :
    (nameAt idx c.rest = none ∧ literalName idx c = none) ∨
      ∃ n c', nameAt idx c.rest = some (n, c'.rest) ∧ literalName idx c = some (n, c') := by
  unfold nameAt literalName
  by_cases hidx : idx ≠ 0
  · rw [if_pos hidx, if_pos hidx]
    exact .inr ⟨_, c, rfl, rfl⟩
  · rw [if_neg hidx, if_neg hidx]
    obtain ⟨hnone, hread⟩ | ⟨v, c', hsome, hread⟩ := readString_rest c
    · rw [hnone, hread]
      exact .inl ⟨rfl, rfl⟩
    · rw [hsome, hread]
      exact .inr ⟨_, c', rfl, rfl⟩

/-- **The dissector keeps what the octets spell.** -/
theorem exec_decodeHeaders (guard : ℕ) (cur : Cur) (seen : List (Text × Text)) (c : HttpCols)
    (stack : List Layer) :
    (decodeHeaders guard cur).exec { stack, cols := valueColumns (lastSet seen) c } =
      .ok (.ok (), { stack
                     cols := valueColumns (lastSet (seen ++ spelled guard cur.rest)) c }) := by
  induction guard generalizing cur seen with
  | zero =>
      rw [spelled, List.append_nil]
      rfl
  | succ guard ih =>
      unfold decodeHeaders
      cases hrest : cur.rest with
      | nil =>
          rw [Cur.u8_of_rest_nil hrest, spelled, List.append_nil]
          rfl
      | cons b rest =>
          obtain ⟨c₁, hu8, hrest₁⟩ := Cur.exists_u8 hrest
          rw [hu8, spelled]
          dsimp only
          by_cases hindexed : b &&& 0x80 ≠ 0
          · rw [if_pos hindexed, if_pos hindexed]
            cases hentry : staticEntry (b &&& 0x7f) with
            | none =>
                dsimp only
                rw [← hrest₁]
                exact ih c₁ seen
            | some f =>
                dsimp only
                rw [exec_bind, exec_setPseudo (cap_staticEntry hentry), ← hrest₁]
                dsimp only
                rw [ih, List.append_assoc]
                rfl
          · rw [if_neg hindexed, if_neg hindexed, ← hrest₁]
            generalize (if b &&& 0x40 ≠ 0 then b &&& 0x3f else b &&& 0x0f) = idx
            obtain ⟨hname, hread⟩ | ⟨name, c₂, hname, hread⟩ := literalName_rest idx c₁
            · rw [hname, hread, List.append_nil]
              rfl
            · rw [hname, hread]
              dsimp only
              obtain ⟨hvalue, hread⟩ | ⟨value, c₃, hvalue, hread⟩ := readString_rest c₂
              · rw [hvalue, hread, List.append_nil]
                rfl
              · rw [hvalue, hread]
                cases name with
                | none => exact ih c₃ seen
                | some n =>
                    dsimp only
                    rw [exec_bind, exec_setPseudo (cap_stringAt hvalue)]
                    dsimp only
                    rw [ih, List.append_assoc]
                    rfl

end AppHttp

open Hpack (PrefixInt StringLiteral FieldName Representation Tables blockBytes Represents Fields
  Encodes)
open AppHttp (stringAt nameAt spelled lastSet valueColumns staticEntry staticName)

/-! ### Strings and names as the dissector sees them -/

/-- A string as it is kept: nothing of a Huffman-coded one. -/
def seenString (s : StringLiteral) : Text := if s.huffman then [] else Text.lossy s.octets

section Strings

variable (s : StringLiteral) (rest : Bytes)

/-- The first octet of a string whose length fits it. -/
theorem first_short : ∀ v : Fin 127,
    ((UInt8.ofNat (128 + v) &&& 0x7f).toNat = v ∧ UInt8.ofNat (128 + v) &&& 0x80 ≠ 0) ∧
      (UInt8.ofNat (0 + v) &&& 0x7f).toNat = v ∧ ¬ UInt8.ofNat (0 + v) &&& 0x80 ≠ 0 := by decide

/-- **A string is found if its length fits its first octet**, and reading stops if it does not. -/
theorem stringAt_bytes :
    stringAt (s.bytes ++ rest) = if s.len.IsShort then some (seenString s, rest) else none := by
  obtain ⟨huffman, len, octets, hlen⟩ := s
  cases len with
  | long more last =>
      refine Eq.trans ?_ (if_neg (show ¬ (PrefixInt.long more last).IsShort from id)).symm
      cases huffman with
      | true => exact if_pos (.inl (show (UInt8.ofNat (128 + 127) &&& 0x7f).toNat = 127 by decide))
      | false => exact if_pos (.inl (show (UInt8.ofNat (0 + 127) &&& 0x7f).toNat = 127 by decide))
  | short v =>
      have hv : (v : ℕ) = octets.length := hlen
      have hfirst := first_short v
      have hfits : ¬ ((v : ℕ) = 127 ∨ (octets ++ rest).length < v) := by
        rw [List.length_append, ← hv]
        have := v.isLt
        omega
      refine Eq.trans ?_ (if_pos (show (PrefixInt.short v).IsShort from trivial)).symm
      cases huffman with
      | true =>
          change stringAt (UInt8.ofNat (128 + v) :: (octets ++ rest)) = _
          simp only [stringAt]
          rw [hfirst.1.1, if_neg hfits, if_pos hfirst.1.2, hv, List.drop_left]
          rfl
      | false =>
          change stringAt (UInt8.ofNat (0 + v) :: (octets ++ rest)) = _
          simp only [stringAt]
          rw [hfirst.2.1, if_neg hfits, if_neg hfirst.2.2, hv, List.drop_left, List.take_left]
          rfl

end Strings

/-- The name of a literal has an index that fits its first octet, or is spelled out. -/
def NameKnown {bits : ℕ} : FieldName bits → Prop
  | .index i _ => i.IsShort
  | .literal _ => True

/-- The name of a literal is a string whose length does not fit its first octet. -/
def NameStops {bits : ℕ} : FieldName bits → Prop
  | .index _ _ => False
  | .literal s => ¬ s.len.IsShort

instance {bits : ℕ} : (name : FieldName bits) → Decidable (NameKnown name)
  | .index i _ => inferInstanceAs (Decidable i.IsShort)
  | .literal _ => inferInstanceAs (Decidable True)

instance {bits : ℕ} : (name : FieldName bits) → Decidable (NameStops name)
  | .index _ _ => inferInstanceAs (Decidable False)
  | .literal s => inferInstanceAs (Decidable (¬ s.len.IsShort))

/-- A name as it is looked up or kept. -/
def seenName {bits : ℕ} : FieldName bits → Option Text
  | .index i _ => staticName (UInt8.ofNat i.value)
  | .literal s => some (seenString s)

/-- A literal as it is kept. -/
def seenLiteral {bits : ℕ} (name : FieldName bits) (value : StringLiteral) : List (Text × Text) :=
  ((seenName name).map fun n => (n, seenString value)).toList

/-- The first octets of literals, with `bits` bits for an index. -/
def IsLiteralPattern (bits pattern : ℕ) : Prop :=
  0 < 2 ^ bits - 1 ∧ 2 ^ bits - 1 ≤ 63 ∧ ∀ v < 2 ^ bits - 1,
    UInt8.ofNat (pattern + v) &&& 0x80 = 0 ∧
      (if UInt8.ofNat (pattern + v) &&& 0x40 ≠ 0 then UInt8.ofNat (pattern + v) &&& 0x3f
        else UInt8.ofNat (pattern + v) &&& 0x0f) = UInt8.ofNat v

theorem isLiteralPattern_incremental : IsLiteralPattern 6 64 := by
  unfold IsLiteralPattern
  decide

theorem isLiteralPattern_plain (never : Bool) : IsLiteralPattern 4 (if never then 16 else 0) := by
  unfold IsLiteralPattern
  cases never <;> decide

section Literals

variable {bits pattern : ℕ} (hp : IsLiteralPattern bits pattern) {name : FieldName bits}
  (value : StringLiteral) (guard : ℕ) (rest : Bytes)

include hp

theorem ofNat_ne_zero {v : ℕ} (hpos : 0 < v) (hlt : v < 2 ^ bits - 1) : UInt8.ofNat v ≠ 0 := by
  intro h
  have hv := congrArg UInt8.toNat h
  have hle := hp.2.1
  rw [UInt8.toNat_ofNat_of_lt' (show v < 256 by omega)] at hv
  exact absurd hv hpos.ne'

/-- What is read of the name of a literal. -/
theorem exists_name (hknown : NameKnown name) (more : Bytes) :
    ∃ b tail, name.bytes pattern ++ more = b :: tail ∧ b &&& 0x80 = 0 ∧
      nameAt (if b &&& 0x40 ≠ 0 then b &&& 0x3f else b &&& 0x0f) tail =
        if NameStops name then none else some (seenName name, more) := by
  cases name with
  | index i hpos =>
      cases i with
      | long _ _ => exact hknown.elim
      | short v =>
          obtain ⟨hindexed, hidx⟩ := hp.2.2 v v.isLt
          have hne : UInt8.ofNat (v : ℕ) ≠ 0 := ofNat_ne_zero hp hpos v.isLt
          refine ⟨_, more, rfl, hindexed, ?_⟩
          rw [hidx, nameAt, if_pos hne]
          exact (if_neg (show ¬ NameStops (.index (.short v) hpos) from id)).symm
  | literal s =>
      obtain ⟨hindexed, hidx⟩ := hp.2.2 0 hp.1
      refine ⟨_, s.bytes ++ more, rfl, hindexed, ?_⟩
      rw [Nat.add_zero] at hidx
      rw [hidx, nameAt, if_neg (by decide), stringAt_bytes]
      by_cases hshort : s.len.IsShort
      · rw [if_pos hshort, if_neg fun h : NameStops (.literal s) => h hshort]
        rfl
      · rw [if_neg hshort, if_pos (show NameStops (.literal s) from hshort)]
        rfl

/-- **A literal whose index fits its first octet is read for what it is**, unless a string of it is
too long: there reading stops. -/
theorem spelled_literal (hknown : NameKnown name) :
    spelled (guard + 1) (name.bytes pattern ++ (value.bytes ++ rest)) =
      if NameStops name ∨ ¬ value.len.IsShort then []
      else seenLiteral name value ++ spelled guard rest := by
  obtain ⟨b, tail, hbytes, hindexed, hat⟩ := exists_name hp hknown (value.bytes ++ rest)
  rw [hbytes, spelled, if_neg (not_not.mpr hindexed), hat]
  by_cases hname : NameStops name
  · rw [if_pos hname, if_pos (.inl hname)]
  · rw [if_neg hname]
    dsimp only
    rw [stringAt_bytes]
    by_cases hvalue : value.len.IsShort
    · rw [if_pos hvalue, if_neg (not_or.mpr ⟨hname, not_not.mpr hvalue⟩)]
      rfl
    · rw [if_neg hvalue, if_pos (.inr hvalue)]

end Literals

/-! ### Representations as the dissector sees them -/

/-- A field whose index, if it has one, fits its first octet. -/
def Known : Representation → Prop
  | .indexed i => i.IsShort
  | .incremental name _ => NameKnown name
  | .plain _ name _ => NameKnown name
  | .resize _ => False

/-- A field with a string whose length does not fit its first octet. -/
def Stops : Representation → Prop
  | .incremental name value => NameStops name ∨ ¬ value.len.IsShort
  | .plain _ name value => NameStops name ∨ ¬ value.len.IsShort
  | .indexed _ => False
  | .resize _ => False

/-- A field as it is kept. -/
def seen : Representation → List (Text × Text)
  | .indexed i => (staticEntry (UInt8.ofNat i.value)).toList
  | .incremental name value => seenLiteral name value
  | .plain _ name value => seenLiteral name value
  | .resize _ => []

instance : (r : Representation) → Decidable (Known r)
  | .indexed i => inferInstanceAs (Decidable i.IsShort)
  | .incremental name _ => inferInstanceAs (Decidable (NameKnown name))
  | .plain _ name _ => inferInstanceAs (Decidable (NameKnown name))
  | .resize _ => inferInstanceAs (Decidable False)

instance : (r : Representation) → Decidable (Stops r)
  | .indexed _ => inferInstanceAs (Decidable False)
  | .incremental name value =>
      inferInstanceAs (Decidable (NameStops name ∨ ¬ value.len.IsShort))
  | .plain _ name value => inferInstanceAs (Decidable (NameStops name ∨ ¬ value.len.IsShort))
  | .resize _ => inferInstanceAs (Decidable False)

/-- **A field in one of the simple forms is read for what it is**, unless a string of it is too
long: there reading stops. -/
theorem spelled_known {r : Representation} (hknown : Known r) (guard : ℕ) (rest : Bytes) :
    spelled (guard + 1) (r.bytes ++ rest) =
      if Stops r then [] else seen r ++ spelled guard rest := by
  cases r with
  | indexed i =>
      cases i with
      | long _ _ => exact hknown.elim
      | short v =>
          have hfirst : ∀ v : Fin 127, UInt8.ofNat (128 + v) &&& 0x80 ≠ 0 ∧
              UInt8.ofNat (128 + v) &&& 0x7f = UInt8.ofNat v := by decide
          change spelled (guard + 1) (UInt8.ofNat (128 + v) :: rest) = _
          rw [spelled, if_pos (hfirst v).1, (hfirst v).2]
          exact (if_neg (show ¬ Stops (.indexed (.short v)) from id)).symm
  | incremental name value =>
      rw [Representation.bytes, List.append_assoc]
      exact spelled_literal isLiteralPattern_incremental value guard rest hknown
  | plain never name value =>
      rw [Representation.bytes, List.append_assoc]
      exact spelled_literal (isLiteralPattern_plain never) value guard rest hknown
  | resize max => exact hknown.elim

/-! ### What is read of a known field is right -/

/-- A header list has a header of this name and value, both as text. -/
def Lists (headers : List Hpack.Field) (name v : Text) : Prop :=
  ∃ f ∈ headers, Text.lossy f.1 = name ∧ Text.lossy f.2 = v

/-- The entries that the dissector knows are those of the static table. -/
theorem staticEntry_right {t : Tables} {i : PrefixInt 7} (hi : i.IsShort) {f : Hpack.Field}
    {p : Text × Text} (h : t.lookup i.value = some f)
    (hp : staticEntry (UInt8.ofNat i.value) = some p) :
    Text.lossy f.1 = p.1 ∧ Text.lossy f.2 = p.2 := by
  have hall : ∀ v : Fin 127, (staticEntry (UInt8.ofNat v)).all (fun p =>
      decide (0 < v.val ∧ v.val ≤ 61) && (Hpack.staticTable[v.val - 1]?).all fun f =>
        Text.lossy f.1 == p.1 && Text.lossy f.2 == p.2) = true := by decide +kernel
  cases i with
  | long _ _ => exact hi.elim
  | short v =>
      have hv := hall v
      rw [show UInt8.ofNat (PrefixInt.short v).value = UInt8.ofNat v from rfl] at hp
      rw [hp, Option.all_some, Bool.and_eq_true] at hv
      obtain ⟨hrange, hentry⟩ := hv
      obtain ⟨hpos, hle⟩ := of_decide_eq_true hrange
      rw [Tables.lookup_of_le t (i := (PrefixInt.short v).value) hpos hle] at h
      rw [show Hpack.staticTable[v.val - 1]? = some f from h, Option.all_some, Bool.and_eq_true,
        beq_iff_eq, beq_iff_eq] at hentry
      exact hentry

theorem staticName_right {bits : ℕ} (hbits : 2 ^ bits - 1 ≤ 63) {t : Tables} {i : PrefixInt bits}
    (hi : i.IsShort) {f : Hpack.Field} {n : Text} (h : t.lookup i.value = some f)
    (hn : staticName (UInt8.ofNat i.value) = some n) : Text.lossy f.1 = n := by
  have hall : ∀ v : Fin 63, (staticName (UInt8.ofNat v)).all (fun n =>
      decide (0 < v.val ∧ v.val ≤ 61) && (Hpack.staticTable[v.val - 1]?).all fun f =>
        Text.lossy f.1 == n) = true := by decide +kernel
  cases i with
  | long _ _ => exact hi.elim
  | short v =>
      have hv := hall ⟨v, v.isLt.trans_le hbits⟩
      rw [show UInt8.ofNat (PrefixInt.short v).value = UInt8.ofNat v from rfl] at hn
      dsimp only at hv
      rw [hn, Option.all_some, Bool.and_eq_true] at hv
      obtain ⟨hrange, hentry⟩ := hv
      obtain ⟨hpos, hle⟩ := of_decide_eq_true hrange
      rw [Tables.lookup_of_le t (i := (PrefixInt.short v).value) hpos hle] at h
      rw [show Hpack.staticTable[v.val - 1]? = some f from h, Option.all_some, beq_iff_eq] at hentry
      exact hentry

section Right

variable {huffman : Bytes → Bytes → Prop} {t : Tables}

/-- A string that is kept at all is kept as it is. -/
theorem seenString_right {s : StringLiteral} {v : Bytes} (h : s.Denotes huffman v)
    (hne : seenString s ≠ []) : Text.lossy v = seenString s := by
  unfold StringLiteral.Denotes at h
  unfold seenString at hne ⊢
  split at hne
  · exact absurd rfl hne
  · next hraw =>
      rw [if_neg hraw] at h
      rw [if_neg hraw, h]

theorem seenLiteral_right {bits : ℕ} (hbits : 2 ^ bits - 1 ≤ 63) {name : FieldName bits}
    (hknown : NameKnown name) {value : StringLiteral} {n v : Bytes}
    (hn : name.Denotes huffman t n) (hv : value.Denotes huffman v) {p : Text × Text}
    (hp : p ∈ seenLiteral name value) (hname : p.1 ≠ []) (hvalue : p.2 ≠ []) :
    Text.lossy n = p.1 ∧ Text.lossy v = p.2 := by
  obtain ⟨m, hm, rfl⟩ := Option.map_eq_some_iff.mp (Option.mem_toList.mp hp)
  refine ⟨?_, seenString_right hv hvalue⟩
  cases name with
  | index i hpos =>
      obtain ⟨w, hlookup⟩ := hn
      exact staticName_right hbits hknown hlookup hm
  | literal s =>
      cases hm
      exact seenString_right hn hname

/-- **What is kept of a known field is its name and its value**, if it is anything. -/
theorem seen_right {t' : Tables} {r : Representation} {f : Hpack.Field}
    (h : Represents huffman t r f t') (hknown : Known r) {p : Text × Text} (hp : p ∈ seen r)
    (hname : p.1 ≠ []) (hvalue : p.2 ≠ []) : Text.lossy f.1 = p.1 ∧ Text.lossy f.2 = p.2 := by
  cases h with
  | indexed h => exact staticEntry_right hknown h (Option.mem_toList.mp hp)
  | incremental hn hv => exact seenLiteral_right (by decide) hknown hn hv hp hname hvalue
  | plain hn hv => exact seenLiteral_right (by decide) hknown hn hv hp hname hvalue

end Right

/-! ### Blocks as the dissector sees them -/

/-- The fields of a block that are kept before anything is misread. -/
def blockSeen : ℕ → List Representation → List (Text × Text)
  | 0, _ => []
  | _ + 1, [] => []
  | guard + 1, r :: block => if Known r ∧ ¬ Stops r then seen r ++ blockSeen guard block else []

/-- How many fields may still be read where the first representation is misread, and the octets from
there on. -/
def stray : ℕ → List Representation → ℕ × Bytes
  | 0, _ => (0, [])
  | _ + 1, [] => (0, [])
  | guard + 1, r :: block =>
      if ¬ Known r then (guard + 1, blockBytes (r :: block))
      else if Stops r then (0, [])
      else stray guard block

/-- Nothing of a block is misread: until the dissector stops, every representation is a field whose
index fits its first octet. -/
def Readable : ℕ → List Representation → Prop
  | 0, _ => True
  | _ + 1, [] => True
  | guard + 1, r :: block => Known r ∧ (Stops r ∨ Readable guard block)

theorem stray_of_readable {guard : ℕ} {block : List Representation} (h : Readable guard block) :
    stray guard block = (0, []) := by
  induction guard generalizing block with
  | zero => rfl
  | succ guard ih =>
      cases block with
      | nil => rfl
      | cons r block =>
          obtain ⟨hknown, hrest⟩ := h
          rw [stray, if_neg (not_not.mpr hknown)]
          by_cases hstop : Stops r
          · rw [if_pos hstop]
          · rw [if_neg hstop, ih (hrest.resolve_left hstop)]

/-- **A block spells the fields before the first misread representation, and then what the octets
from there on spell.** -/
theorem spelled_blockBytes (guard : ℕ) (block : List Representation) :
    spelled guard (blockBytes block) =
      blockSeen guard block ++ spelled (stray guard block).1 (stray guard block).2 := by
  induction guard generalizing block with
  | zero => rfl
  | succ guard ih =>
      cases block with
      | nil => rfl
      | cons r block =>
          rw [blockSeen, stray, Hpack.blockBytes_cons]
          by_cases hknown : Known r
          · by_cases hstop : Stops r
            · rw [spelled_known hknown, if_pos hstop, if_neg fun h => h.2 hstop,
                if_neg (not_not.mpr hknown), if_pos hstop]
              rfl
            · rw [spelled_known hknown, if_neg hstop, if_pos ⟨hknown, hstop⟩,
                if_neg (not_not.mpr hknown), if_neg hstop, ih, List.append_assoc]
          · rw [if_neg fun h => hknown h.1, if_pos hknown]
            rfl

section Blocks

variable {huffman : Bytes → Bytes → Prop} {t : Tables} {block : List Representation}
  {headers : List Hpack.Field}

theorem fields_right (h : Fields huffman t block headers) (guard : ℕ) {p : Text × Text}
    (hp : p ∈ blockSeen guard block) (hname : p.1 ≠ []) (hvalue : p.2 ≠ []) :
    Lists headers p.1 p.2 := by
  induction h generalizing guard with
  | nil => cases guard <;> cases hp
  | cons hfirst hrest ih =>
      cases guard with
      | zero => cases hp
      | succ guard =>
          rw [blockSeen] at hp
          split at hp
          · next hread =>
              rcases List.mem_append.mp hp with hp | hp
              · exact ⟨_, List.mem_cons_self, seen_right hfirst hread.1 hp hname hvalue⟩
              · obtain ⟨f, hf, hlists⟩ := ih guard hp
                exact ⟨f, List.mem_cons_of_mem _ hf, hlists⟩
          · cases hp

/-- **Before anything is misread, what is kept is in the header list.** -/
theorem blockSeen_right (h : Encodes huffman t block headers) (guard : ℕ) {p : Text × Text}
    (hp : p ∈ blockSeen guard block) (hname : p.1 ≠ []) (hvalue : p.2 ≠ []) :
    Lists headers p.1 p.2 := by
  cases h with
  | fields h => exact fields_right h guard hp hname hvalue
  | resize h hrest =>
      -- a new size is misread at once
      cases guard with
      | zero => cases hp
      | succ guard =>
          rw [blockSeen, if_neg fun h => h.1] at hp
          cases hp

end Blocks

/-! ### Frames -/

/-- What follows the header of a HEADERS frame: the pad length, the priority, the block, and the
padding. -/
def frameBody (pad : Option UInt8) (priority : Option (UInt32 × UInt8))
    (block : List Representation) : Bytes :=
  pad.toList ++ (priority.elim [] fun p => beBytes 4 p.1.toNat ++ [p.2]) ++ blockBytes block ++
    pad.elim [] fun n => List.replicate n.toNat 0

/-- A HEADERS frame with a whole header block; its flags say whether it is padded and whether it has
a priority. -/
structure HeadersFrame where
  flags : UInt8
  word : UInt32
  pad : Option UInt8
  priority : Option (UInt32 × UInt8)
  block : List Representation
  flags_padded : flags &&& 0x08 ≠ 0 ↔ pad.isSome
  flags_priority : flags &&& 0x20 ≠ 0 ↔ priority.isSome
  length_lt : (frameBody pad priority block).length < 2 ^ 24

/-- The columns that values of headers are kept in, with the names of the headers. -/
def h2Columns : List (Text × (HttpCols → Option Text)) :=
  [(":method".toList, fun c => c.http2Method), (":path".toList, fun c => c.http2Path),
    (":authority".toList, fun c => c.http2Authority), (":scheme".toList, fun c => c.http2Scheme),
    (":status".toList, fun c => c.http2Status), ("user-agent".toList, fun c => c.httpUserAgent),
    ("content-type".toList, fun c => c.httpContentType)]

namespace HeadersFrame

variable (f : HeadersFrame)

def body : Bytes := frameBody f.pad f.priority f.block

/-- The frame on the wire. -/
def bytes : Bytes :=
  beBytes 3 f.body.length ++ 1 :: f.flags :: (beBytes 4 f.word.toNat ++ f.body)

/-- **The dissector does not guess**: it accepts the frame, and every value that it keeps is the
value of a header of that name. -/
def Sound (headers : List Hpack.Field) : Prop :=
  ∀ stack : List Layer, ∃ s : Sink HttpCols,
    (AppHttp.parseH2 f.bytes).exec { stack, cols := {} } = .ok (.ok (), s) ∧
      ∀ column ∈ h2Columns, ∀ v, column.2 s.cols = some v → Lists headers column.1 v

/-- How many fields may still be read where the reading goes astray, and the octets from there on.
-/
def stray : ℕ × Bytes :=
  if f.pad = none ∧ f.priority = none then PcapRacer.stray 64 f.block else (64, f.body)

/-- Nothing of the frame is misread. -/
def Plain : Prop := f.pad = none ∧ f.priority = none ∧ Readable 64 f.block

theorem length_bytes : f.bytes.length = f.body.length + 9 := by
  simp [bytes]
  omega

/-- A HEADERS frame is not the preface of a connection. -/
theorem peek_preface :
    (Cur.new f.bytes).peek AppHttp.h2Preface.length ≠ some AppHttp.h2Preface := by
  intro h
  unfold Cur.peek at h
  split at h
  · have htake : f.bytes.take AppHttp.h2Preface.length = AppHttp.h2Preface := Option.some.inj h
    have hfourth := congrArg (fun b : Bytes => b[3]?) htake
    rw [List.getElem?_take_of_lt (by decide), bytes,
      List.getElem?_append_right (by rw [length_beBytes]), length_beBytes] at hfourth
    have hne : (some 1 : Option UInt8) ≠ some 32 := by decide
    exact hne hfourth
  · cases h

/-- The columns of the frame itself. -/
def frameColumns : HttpCols :=
  { http2FrameType := some 1, http2StreamId := some (f.word &&& 0x7fffffff) }

/-- **What the dissector keeps of a HEADERS frame**: what its octets spell. -/
theorem exec_parseH2 (stack : List Layer) :
    (AppHttp.parseH2 f.bytes).exec { stack, cols := {} } =
      .ok (.ok (), { stack := stack ++ [.http2]
                     cols := valueColumns (lastSet (spelled 64 f.body)) f.frameColumns }) := by
  have hrest : (Cur.new f.bytes).rest = f.bytes := List.drop_zero
  have hnine : 9 ≤ (Cur.new f.bytes).remaining := by
    rw [← Cur.length_rest, hrest, length_bytes]
    omega
  obtain ⟨c₁, hlen, hrest₁⟩ := Cur.exists_be24 (hrest.trans rfl) (length_beBytes 3 _)
  obtain ⟨c₂, htype, hrest₂⟩ := Cur.exists_u8 hrest₁
  obtain ⟨c₃, hflags, hrest₃⟩ := Cur.exists_u8 hrest₂
  obtain ⟨c₄, hword, hrest₄⟩ := Cur.exists_be32 hrest₃
  have hmin : min (UInt32.ofNat (beNat (beBytes 3 f.body.length))).toNat c₄.remaining =
      f.body.length := by
    have hfits : f.body.length < 256 ^ 3 := f.length_lt
    rw [beNat_beBytes, Nat.mod_eq_of_lt hfits, ← Cur.length_rest, hrest₄,
      UInt32.toNat_ofNat_of_lt' (show f.body.length < 2 ^ 32 by omega), Nat.min_self]
  obtain ⟨c₅, htake, hrest₅⟩ := Cur.exists_take (c := c₄) (x := f.body) (y := [])
    (by rw [hrest₄, List.append_nil]) rfl
  rw [AppHttp.parseH2, exec_bind, exec_layer]
  dsimp only
  rw [if_neg f.peek_preface]
  change (AppHttp.h2Frames 16 (Cur.new f.bytes)).exec _ = _
  rw [AppHttp.h2Frames, if_pos hnine, hlen, exec_ok_bind]
  dsimp only
  rw [htype, exec_ok_bind]
  dsimp only
  rw [hflags, exec_ok_bind]
  dsimp only
  rw [hword, exec_ok_bind]
  dsimp only
  rw [exec_bind, exec_cols, hmin, htake]
  change Dissect.exec (do
    AppHttp.decodeHeaders 64 (Cur.new f.body)
    AppHttp.h2Frames 15 c₅)
    { stack := stack ++ [.http2], cols := valueColumns (lastSet []) f.frameColumns } = _
  rw [exec_bind, AppHttp.exec_decodeHeaders]
  dsimp only
  rw [AppHttp.h2Frames, if_neg (by rw [Cur.remaining_of_rest_nil hrest₅]; decide)]
  rfl

theorem column_valueColumns {column : Text × (HttpCols → Option Text)} (h : column ∈ h2Columns)
    (value : Text → Option Text) (c : HttpCols) :
    column.2 (valueColumns value c) = value column.1 := by
  simp only [h2Columns, List.mem_cons, List.not_mem_nil, or_false] at h
  rcases h with rfl | rfl | rfl | rfl | rfl | rfl | rfl <;> rfl

theorem column_name_ne {column : Text × (HttpCols → Option Text)} (h : column ∈ h2Columns) :
    column.1 ≠ [] := by
  simp only [h2Columns, List.mem_cons, List.not_mem_nil, or_false] at h
  rcases h with rfl | rfl | rfl | rfl | rfl | rfl | rfl <;> decide

/-- The reading is right if what the frame spells is. -/
theorem sound_iff_spelled (headers : List Hpack.Field) :
    f.Sound headers ↔ ∀ column ∈ h2Columns, ∀ v,
      lastSet (spelled 64 f.body) column.1 = some v → Lists headers column.1 v := by
  constructor
  · intro h column hcolumn v hv
    obtain ⟨s, hs, hlists⟩ := h []
    rw [exec_parseH2] at hs
    cases hs
    exact hlists column hcolumn v ((column_valueColumns hcolumn _ _).trans hv)
  · intro h stack
    refine ⟨_, f.exec_parseH2 stack, fun column hcolumn v hv => h column hcolumn v ?_⟩
    rw [← hv, column_valueColumns hcolumn]

/-- The fields that are kept before anything is misread. -/
def kept : List (Text × Text) :=
  if f.pad = none ∧ f.priority = none then blockSeen 64 f.block else []

theorem spelled_body : spelled 64 f.body = f.kept ++ spelled f.stray.1 f.stray.2 := by
  by_cases h : f.pad = none ∧ f.priority = none
  · have hbody : f.body = blockBytes f.block := by
      rw [body, frameBody, h.1, h.2]
      simp
    rw [kept, stray, if_pos h, if_pos h, hbody, spelled_blockBytes]
  · rw [kept, stray, if_neg h, if_neg h]
    rfl

theorem stray_of_plain (h : f.Plain) : f.stray = (0, []) := by
  rw [stray, if_pos ⟨h.1, h.2.1⟩, stray_of_readable h.2.2]

/-- **When the dissector guesses.**  Its reading of a frame is right as long as nothing is misread;
and it is right if and only if the octets from the first misread one on, taken for fields in the
simple forms, spell no value that the header list does not have. -/
theorem sound_iff {huffman : Bytes → Bytes → Prop} {t : Tables} {headers : List Hpack.Field}
    (h : Encodes huffman t f.block headers) :
    (f.Plain → f.Sound headers) ∧
      (f.Sound headers ↔ ∀ column ∈ h2Columns, ∀ v,
        lastSet (spelled f.stray.1 f.stray.2) column.1 = some v → Lists headers column.1 v) := by
  have hkept : ∀ column ∈ h2Columns, ∀ v,
      lastSet f.kept column.1 = some v → Lists headers column.1 v := by
    intro column hcolumn v hv
    obtain ⟨hmem, hne⟩ := AppHttp.mem_of_lastSet hv
    rw [kept] at hmem
    split at hmem
    · exact blockSeen_right h 64 hmem (column_name_ne hcolumn) hne
    · cases hmem
  have hiff : f.Sound headers ↔ ∀ column ∈ h2Columns, ∀ v,
      lastSet (spelled f.stray.1 f.stray.2) column.1 = some v → Lists headers column.1 v := by
    rw [sound_iff_spelled, spelled_body]
    constructor
    · intro hall column hcolumn v hv
      refine hall column hcolumn v ?_
      rw [AppHttp.lastSet_append, hv]
      rfl
    · intro hstray column hcolumn v hv
      rw [AppHttp.lastSet_append] at hv
      rcases Option.or_eq_some_iff.mp hv with hv | ⟨-, hv⟩
      · exact hstray column hcolumn v hv
      · exact hkept column hcolumn v hv
  refine ⟨fun hplain => hiff.mpr ?_, hiff⟩
  rw [f.stray_of_plain hplain]
  intro column _ v hv
  cases hv

/-- The octets of `www.example.com` in the Huffman code. -/
def codedHost : Bytes := [0xf1, 0xe3, 0xc2, 0xe5, 0xf2, 0x3a, 0x6b, 0xa0, 0xab, 0x90, 0xf4, 0xff]

/-- The frame of a request: an indexed method, a path that is spelled out, and a coded host. -/
def request : HeadersFrame where
  flags := 0x04
  word := 1
  pad := none
  priority := none
  block :=
    [.indexed (.short ⟨2, by decide⟩),
      .incremental (.index (.short ⟨4, by decide⟩) (by decide))
        ⟨false, .short ⟨2, by decide⟩, Text.ascii "/a", rfl⟩,
      .plain false (.index (.short ⟨1, by decide⟩) (by decide))
        ⟨true, .short ⟨12, by decide⟩, codedHost, rfl⟩]
  flags_padded := by decide
  flags_priority := by decide
  length_lt := by decide

def requestHeaders : List Hpack.Field :=
  [(Text.ascii ":method", Text.ascii "GET"), (Text.ascii ":path", Text.ascii "/a"),
    (Text.ascii ":authority", Text.ascii "www.example.com")]

theorem sound_iff_request :
    Encodes (fun coded host => coded = codedHost ∧ host = Text.ascii "www.example.com")
      (Tables.empty 4096) request.block requestHeaders ∧ request.Sound requestHeaders := by
  have hmethod : (Tables.empty 4096).lookup 2 = some (Text.ascii ":method", Text.ascii "GET") := by
    decide +kernel
  have hpath : (Tables.empty 4096).lookup 4 = some (Text.ascii ":path", Text.ascii "/") := by
    decide +kernel
  have hhost : ((Tables.empty 4096).add (Text.ascii ":path", Text.ascii "/a")).lookup 1 =
      some (Text.ascii ":authority", []) := by
    decide +kernel
  have h : Encodes (fun coded host => coded = codedHost ∧ host = Text.ascii "www.example.com")
      (Tables.empty 4096) request.block requestHeaders :=
    .fields <| .cons (.indexed hmethod) <| .cons (.incremental ⟨_, hpath⟩ rfl) <|
      .cons (.plain ⟨_, hhost⟩ ⟨rfl, rfl⟩) .nil
  have hreadable : Readable 64 request.block :=
    ⟨trivial, .inr ⟨trivial, .inr ⟨trivial, .inr trivial⟩⟩⟩
  exact ⟨h, (sound_iff request h).1 ⟨rfl, rfl, hreadable⟩⟩

/-! ### Guesses -/

section Guesses

variable {headers : List Hpack.Field} (hno : ∀ v, ¬ Lists headers ":method".toList v)

include hno

/-- A method that is kept although there is none. -/
theorem not_sound_of_method {v : Text}
    (h : lastSet (spelled 64 f.body) ":method".toList = some v) : ¬ f.Sound headers := by
  rw [sound_iff_spelled]
  exact fun hall => hno v (hall (":method".toList, _) List.mem_cons_self v h)

/-- A pad length of 130 is kept as the method GET, whatever the block is. -/
theorem not_sound_of_pad (hpad : f.pad = some 0x82) : ¬ f.Sound headers := by
  have hbody : ∃ rest, f.body = 0x82 :: rest := by
    rw [body, frameBody, hpad]
    exact ⟨_, rfl⟩
  obtain ⟨rest, hbody⟩ := hbody
  have hspelled : spelled 64 f.body =
      [(":method".toList, "GET".toList)] ++ spelled 63 rest := by
    rw [hbody]
    rfl
  cases hlast : lastSet (spelled 63 rest) ":method".toList with
  | none =>
      refine f.not_sound_of_method hno (v := "GET".toList) ?_
      rw [hspelled, AppHttp.lastSet_append, hlast]
      rfl
  | some v =>
      refine f.not_sound_of_method hno (v := v) ?_
      rw [hspelled, AppHttp.lastSet_append, hlast]
      rfl

end Guesses

/-- A response whose frame is padded by 130 octets: it has no method. -/
def padded : HeadersFrame where
  flags := 0x0c
  word := 1
  pad := some 0x82
  priority := none
  block := [.indexed (.short ⟨8, by decide⟩)]
  flags_padded := by decide
  flags_priority := by decide
  length_lt := by decide +kernel

/-- **The dissector guesses.** -/
theorem guesses : ¬ ∀ (huffman : Bytes → Bytes → Prop) (t : Tables) (f : HeadersFrame)
    (headers : List Hpack.Field), Encodes huffman t f.block headers → f.Sound headers := by
  intro h
  have henc : Encodes (fun _ _ => False) (Tables.empty 4096) padded.block
      [(Text.ascii ":status", Text.ascii "200")] :=
    .fields (.cons (.indexed (by decide +kernel)) .nil)
  refine not_sound_of_pad padded (fun v => ?_) rfl (h _ _ _ _ henc)
  rintro ⟨f, hf, hname, -⟩
  rw [List.mem_singleton.mp hf] at hname
  exact absurd hname (by decide +kernel)

end HeadersFrame

end PcapRacer
