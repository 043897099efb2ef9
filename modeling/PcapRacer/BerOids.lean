/-
**Object identifiers as text.**

The first two arcs of an object identifier share its first sub-identifier, 40 times the one plus the
other.  The rendering takes them apart in the first octet, so it is right as long as the second arc
is below 40; below the first arc 2 it may be larger, and the sub-identifier may take more octets.

Main definitions:

* `oidBytes`, `oidText` — an object identifier on the wire, and in dotted decimal.

Main results:

* `Tlv.subIdentifiers_word` — a sub-identifier is read, modulo the width of the accumulator;
* `Tlv.asOid_iff` — **when the rendering is the object identifier**.
-/

import PcapRacer.AppBer
import PcapRacer.Base128

set_option relaxedAutoImplicit false
set_option autoImplicit false

namespace PcapRacer

namespace Ber

open Base128 (Word value valueFrom encode)

/-- The value of an object identifier: the first sub-identifier holds two arcs. -/
def oidBytes (a b : ℕ) (cs : List ℕ) : Bytes := encode (40 * a + b) ++ cs.flatMap encode

/-- An object identifier in dotted decimal. -/
def oidText (a b : ℕ) (cs : List ℕ) : Text :=
  Text.join ['.'] ((a :: b :: cs).map Text.decimal)

namespace Tlv

/-- One more octet of a sub-identifier: the accumulator wraps. -/
theorem accumulate (n : ℕ) (b : UInt8) :
    UInt64.ofNat n * 128 ||| (b &&& 0x7f).toUInt64 = UInt64.ofNat (n * 128 + b.toNat % 128) := by
  have hlow : ((b &&& 0x7f).toUInt64).toNat = b.toNat % 128 := Base128.toNat_low b
  have hmul : (UInt64.ofNat n * 128).toNat = (n % 2 ^ 57) <<< 7 := by
    rw [UInt64.toNat_mul, UInt64.toNat_ofNat', Nat.shiftLeft_eq]
    change n % 2 ^ 64 * 128 % 2 ^ 64 = _
    omega
  rw [← UInt64.toNat_inj, UInt64.toNat_or, hmul, hlow,
    ← Nat.shiftLeft_add_eq_or_of_lt (Nat.mod_lt _ (by decide)), Nat.shiftLeft_eq,
    UInt64.toNat_ofNat']
  omega

/-- **A sub-identifier is read**, modulo the width of the accumulator. -/
theorem subIdentifiers_word {bs : Bytes} (h : Word bs) (n : ℕ) (pending : Bool) (tail : Bytes) :
    subIdentifiers (bs ++ tail) (UInt64.ofNat n) pending =
      (subIdentifiers tail 0 false).map (Text.decimal (valueFrom n bs % 2 ^ 64) :: ·) := by
  induction h generalizing n pending with
  | @last b hb =>
      rw [List.cons_append, List.nil_append, subIdentifiers, accumulate,
        if_pos ((Base128.top_eq_zero_iff b).mpr hb), UInt64.toNat_ofNat']
      rfl
  | @more b bs hb _ ih =>
      have htop : ¬ b &&& 0x80 = 0 := fun h0 =>
        absurd ((Base128.top_eq_zero_iff b).mp h0) (Nat.not_lt.mpr hb)
      rw [List.cons_append, subIdentifiers, accumulate, if_neg htop, ih]
      rfl

/-- **Sub-identifiers are read one after the other.** -/
theorem subIdentifiers_flatMap {cs : List ℕ} (h : ∀ c ∈ cs, c < 2 ^ 64) :
    subIdentifiers (cs.flatMap encode) 0 false = some (cs.map Text.decimal) := by
  induction cs with
  | nil => rfl
  | cons c cs ih =>
      have hc : valueFrom 0 (encode c) % 2 ^ 64 = c := by
        rw [← value, Base128.value_encode, Nat.mod_eq_of_lt (h c List.mem_cons_self)]
      rw [List.flatMap_cons]
      refine (subIdentifiers_word (Base128.word_encode c) 0 false _).trans ?_
      rw [ih fun d hd => h d (List.mem_cons_of_mem _ hd), hc]
      rfl

/-- The first octet of a large first sub-identifier is large. -/
theorem le_head_encode {n : ℕ} (h : 120 ≤ n) : ∃ b bs, encode n = b :: bs ∧ 120 ≤ b.toNat := by
  rcases Nat.lt_or_ge n 128 with hlt | hge
  · refine ⟨_, _, Base128.encode_of_lt hlt, ?_⟩
    rw [UInt8.toNat_ofNat']
    omega
  · have hvalue := Base128.value_encode n
    cases henc : encode n with
    | nil => exact absurd henc (Base128.word_encode n).ne_nil
    | cons b bs =>
        have hword := Base128.word_encode n
        rw [henc] at hword hvalue
        cases hword with
        | last hb =>
            have hlt := Base128.value_lt [b]
            rw [hvalue] at hlt
            exact absurd hlt (Nat.not_lt.mpr hge)
        | more hb => exact ⟨b, bs, rfl, Nat.le_trans (by decide) hb⟩

/-- A dotted text starts with its first number; a digit is its own character. -/
theorem head_join_decimal {k : ℕ} (hk : k < 10) (parts : List Text) :
    (Text.join ['.'] (Text.decimal k :: parts)).head? = some (Nat.digitChar k) := by
  have hdecimal : Text.decimal k = [Nat.digitChar k] := Nat.toDigits_of_lt_base hk
  rw [hdecimal]
  cases parts <;> rfl

/-- **When the rendering is the object identifier**: when its second arc is below 40. -/
theorem asOid_iff (a b : ℕ) (cs : List ℕ) (cls tag : UInt8) (constructed : Bool) (ha : a ≤ 2)
    (hb : a < 2 → b < 40) (hcs : ∀ c ∈ cs, c < 2 ^ 64) :
    asOid ⟨cls, constructed, tag, oidBytes a b cs⟩ = some (oidText a b cs) ↔ b < 40 := by
  constructor
  · intro h
    by_contra hge
    obtain rfl : a = 2 := by omega
    -- the first octet is too large to start with the arc 2
    obtain ⟨first, more, henc, hfirst⟩ := le_head_encode (n := 40 * 2 + b) (by omega)
    have hlt := first.toNat_lt
    rw [asOid, oidBytes, henc] at h
    dsimp only [List.cons_append] at h
    cases hsub : subIdentifiers (more ++ cs.flatMap encode) 0 false with
    | none =>
        rw [hsub] at h
        cases h
    | some parts =>
        rw [hsub] at h
        have hhead := congrArg List.head? (Option.some.inj h)
        rw [oidText, List.map_cons, head_join_decimal (show first.toNat / 40 < 10 by omega),
          head_join_decimal (show 2 < 10 by decide)] at hhead
        have hchar := Option.some.inj hhead
        obtain hq | hq | hq | hq : first.toNat / 40 = 3 ∨ first.toNat / 40 = 4 ∨
            first.toNat / 40 = 5 ∨ first.toNat / 40 = 6 := by omega
        all_goals
          rw [hq] at hchar
          exact absurd hchar (by decide)
  · intro hlt
    have hfirst : (UInt8.ofNat (40 * a + b)).toNat = 40 * a + b := by
      rw [UInt8.toNat_ofNat']
      omega
    have hdiv : (40 * a + b) / 40 = a := by omega
    have hmod : (40 * a + b) % 40 = b := by omega
    rw [asOid, oidBytes, Base128.encode_of_lt (by omega)]
    dsimp only [List.cons_append, List.nil_append]
    rw [subIdentifiers_flatMap hcs, hfirst, hdiv, hmod]
    rfl

/-- `1.2.840.113549`. -/
theorem asOid_iff_rsa : asOid ⟨0, false, 6, oidBytes 1 2 [840, 113549]⟩ =
    some (oidText 1 2 [840, 113549]) :=
  (asOid_iff 1 2 [840, 113549] 0 6 false (by decide) (by decide) (by decide)).mpr (by decide)

/-- `2.100.3` is rendered as something else. -/
theorem asOid_second_arc : asOid ⟨0, false, 6, oidBytes 2 100 [3]⟩ = some "3.9.52.3".toList ∧
    oidText 2 100 [3] = "2.100.3".toList := by
  decide

end Tlv

end Ber

end PcapRacer
