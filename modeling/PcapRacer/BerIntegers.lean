/-
**What the integers of BER say.**

`Tlv.asI64` and `Tlv.asU64` read the octets of a value into a machine word, the one from a word that
has the sign in all its bits, the other from zero.  The value may have up to eight octets.

Main definitions:

* `Tlv.octets` — the octets of a value as digits of eight bits;
* `signOctets`, `signedOctets` — octets of nothing but the sign, and a signed number in octets.

Main results:

* `Tlv.asU64_of_length`, `Tlv.asI64_of_length` — the numbers that the octets hold;
* `Tlv.integers` — **what the two readers return, on every value**.
-/

import PcapRacer.AppBer
import PcapRacer.Base128
import PcapRacer.TwosComplement

set_option relaxedAutoImplicit false
set_option autoImplicit false

namespace PcapRacer

namespace Ber

open TwosComplement

/-- Octets of nothing but the sign of a number. -/
def signOctets (count : ℕ) (n : ℤ) : Bytes := List.replicate count (if n < 0 then 0xff else 0)

/-- The last `count` octets of a number in two's complement. -/
def signedOctets (count : ℕ) (n : ℤ) : Bytes := (digits 8 count n).map UInt8.ofBitVec

namespace Tlv

variable (t : Tlv)

/-- The octets of a value as digits of eight bits. -/
def octets : List (BitVec 8) := t.val.map UInt8.toBitVec

@[simp] theorem length_octets : t.octets.length = t.val.length := List.length_map _

/-- The reader of unsigned integers puts the octets into a word. -/
theorem toBitVec_foldl_u64 (b : Bytes) (v : UInt64) :
    (b.foldl (fun (v : UInt64) (x : UInt8) => v <<< 8 ||| x.toUInt64) v).toBitVec =
      (b.map UInt8.toBitVec).foldl feed v.toBitVec := by
  rw [List.foldl_map]
  exact (List.foldl_hom UInt64.toBitVec fun _ _ => rfl).symm

/-- So does the reader of signed integers. -/
theorem toBitVec_foldl_i64 (b : Bytes) (v : Int64) :
    (b.foldl (fun (v : Int64) (x : UInt8) => v <<< 8 ||| x.toUInt64.toInt64) v).toBitVec =
      (b.map UInt8.toBitVec).foldl feed v.toBitVec := by
  rw [List.foldl_map]
  exact (List.foldl_hom Int64.toBitVec fun _ _ => rfl).symm

/-- The bit that the reader tests is the sign. -/
theorem top_ne_zero_iff (b : UInt8) : b &&& 0x80 ≠ 0 ↔ b.toBitVec.msb = true := by
  rw [ne_eq, Base128.top_eq_zero_iff, BitVec.msb_eq_decide, decide_eq_true_iff, Nat.not_lt]
  rfl

theorem asU64_of_length (h : 1 ≤ t.val.length ∧ t.val.length ≤ 8) :
    t.asU64.map UInt64.toNat = some (unsigned t.octets) := by
  have hne : ¬ (t.val = [] ∨ 8 < t.val.length) := by
    rintro (hnil | hlong)
    · rw [hnil] at h
      exact absurd h.1 (by decide)
    · omega
  have hroom : 8 * t.octets.length ≤ 64 := by
    rw [length_octets]
    omega
  rw [asU64, if_neg hne, Option.map_some, ← toNat_foldl_feed t.octets hroom]
  exact congrArg (some ·.toNat) (toBitVec_foldl_u64 t.val 0)

theorem asI64_of_length (h : 1 ≤ t.val.length ∧ t.val.length ≤ 8) :
    t.asI64.map Int64.toInt = some (signed t.octets) := by
  obtain ⟨cls, constructed, tag, val⟩ := t
  cases val with
  | nil => exact absurd h.1 (Nat.not_succ_le_zero 0)
  | cons b bs =>
      have hroom : 8 * (b.toBitVec :: bs.map UInt8.toBitVec).length ≤ 64 := by
        have h8 : (b :: bs).length ≤ 8 := h.2
        rw [List.length_cons, List.length_map]
        rw [List.length_cons] at h8
        omega
      have hstart : (if b &&& 0x80 ≠ 0 then -1 else 0 : Int64).toBitVec =
          BitVec.ofInt 64 (if b.toBitVec.msb then -1 else 0) := by
        simp only [top_ne_zero_iff]
        split <;> rfl
      have hfold := toBitVec_foldl_i64 (b :: bs) (if b &&& 0x80 ≠ 0 then -1 else 0)
      rw [hstart, List.map_cons] at hfold
      have hvalue := toInt_foldl_feed b.toBitVec (bs.map UInt8.toBitVec) hroom
      rw [← hfold] at hvalue
      change (if 8 < (b :: bs).length then none else some _).map Int64.toInt = _
      rw [if_neg (Nat.not_lt.mpr h.2)]
      exact congrArg some hvalue

theorem asU64_eq_none (h : ¬ (1 ≤ t.val.length ∧ t.val.length ≤ 8)) : t.asU64 = none := by
  refine if_pos ?_
  rw [← List.length_eq_zero_iff]
  omega

theorem asI64_eq_none (h : ¬ (1 ≤ t.val.length ∧ t.val.length ≤ 8)) : t.asI64 = none := by
  unfold asI64
  split
  · rfl
  · next b bs hval =>
      rw [hval, List.length_cons] at h
      rw [if_pos (by rw [hval, List.length_cons]; omega)]

end Tlv

/-! ### Signed numbers in octets -/

theorem map_toBitVec_signedOctets (count : ℕ) (n : ℤ) :
    (signedOctets count n).map UInt8.toBitVec = digits 8 count n := by
  rw [signedOctets, List.map_map]
  exact List.map_id _

theorem map_toBitVec_signOctets (count : ℕ) (n : ℤ) :
    (signOctets count n).map UInt8.toBitVec =
      List.replicate count (if n < 0 then BitVec.allOnes 8 else 0#8) := by
  rw [signOctets, List.map_replicate]
  split <;> rfl

/-- **What the two readers return, on every value**: the number that the octets hold, when there are
one to eight of them, and nothing otherwise.  So a signed number is read back from its octets, and
from these behind octets of nothing but the sign. -/
theorem Tlv.integers (t : Tlv) :
    t.asU64.map UInt64.toNat =
        (if 1 ≤ t.val.length ∧ t.val.length ≤ 8 then some (unsigned t.octets) else none) ∧
      t.asI64.map Int64.toInt =
        (if 1 ≤ t.val.length ∧ t.val.length ≤ 8 then some (signed t.octets) else none) ∧
      ∀ (n : Int64) (more count : ℕ), 1 ≤ more + count → more + count ≤ 8 →
        Fits n.toInt (8 * count) →
        t.val = signOctets more n.toInt ++ signedOctets count n.toInt → t.asI64 = some n := by
  refine ⟨?_, ?_, ?_⟩
  · split
    · next h => exact t.asU64_of_length h
    · next h => rw [t.asU64_eq_none h, Option.map_none]
  · split
    · next h => exact t.asI64_of_length h
    · next h => rw [t.asI64_eq_none h, Option.map_none]
  · intro n more count hpos hle hfits hval
    have hoctets : t.octets = digits 8 (more + count) n.toInt := by
      rw [Tlv.octets, hval, List.map_append, map_toBitVec_signOctets, map_toBitVec_signedOctets,
        digits_add hfits]
    have hlen : t.val.length = more + count := by
      rw [← t.length_octets, hoctets, length_digits]
    have hread := t.asI64_of_length (by omega)
    rw [hoctets, signed_digits (hfits.mono (by omega))] at hread
    obtain ⟨v, hv, hint⟩ := Option.map_eq_some_iff.mp hread
    rw [hv, Int64.toInt_inj.mp hint]

/-- Minus two in two octets, one more than it takes. -/
theorem Tlv.integers_minus_two :
    Fits (-2) (8 * 1) ∧
      (Tlv.mk classUniversal false tagInteger [0xff, 0xfe]).asI64 = some (-2) :=
  ⟨by decide, (Tlv.integers ⟨classUniversal, false, tagInteger, [0xff, 0xfe]⟩).2.2 (-2) 1 1
    (by decide) (by decide) (by decide) (by decide)⟩

end Ber

end PcapRacer
