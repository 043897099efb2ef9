/-
**Signed numbers in digits of a machine word.**

A list of `k`-bit digits, the highest first, holds an unsigned number, and in two's complement a
signed one.  A program reads it into a word of `w` bits by shifting the word to the left and putting
each digit into the room that this makes; it starts from the word that has the sign in all its bits.

Main definitions:

* `unsigned`, `signed` — the numbers that digits hold;
* `Fits` — what a given number of bits can hold in two's complement;
* `feed` — put a digit into a word, from the right;
* `digits` — a signed number in a given number of digits.

Main results:

* `foldl_feed` — digit by digit, a word counts modulo `2 ^ w`;
* `toNat_foldl_feed`, `toInt_foldl_feed` — **and holds the number, where there is room for it**;
* `signed_digits`, `digits_signed` — what is written is read back, and nothing else holds it;
* `digits_add` — more digits than it takes repeat the sign.
-/

import Mathlib.Data.Int.ModEq
import Mathlib.Data.List.Induction
import Mathlib.Data.Nat.Digits.Defs
import Mathlib.Tactic.Linarith
import Mathlib.Tactic.LinearCombination
import Mathlib.Tactic.Positivity

set_option relaxedAutoImplicit false
set_option autoImplicit false

namespace TwosComplement

variable {k w : ℕ}

/-! ### The numbers that digits hold -/

/-- The unsigned number that digits hold. -/
def unsigned (ds : List (BitVec k)) : ℕ := Nat.ofDigits (2 ^ k) (ds.map BitVec.toNat).reverse

/-- The signed number that digits hold. -/
def signed (ds : List (BitVec k)) : ℤ :=
  if 2 * unsigned ds < 2 ^ (k * ds.length) then unsigned ds
  else unsigned ds - 2 ^ (k * ds.length)

@[simp] theorem unsigned_nil : unsigned ([] : List (BitVec k)) = 0 := rfl

theorem unsigned_cons (d : BitVec k) (ds : List (BitVec k)) :
    unsigned (d :: ds) = d.toNat * 2 ^ (k * ds.length) + unsigned ds := by
  rw [unsigned, List.map_cons, Nat.ofDigits_reverse_cons, List.length_map, pow_mul, unsigned,
    Nat.add_comm, Nat.mul_comm]

theorem unsigned_concat (ds : List (BitVec k)) (d : BitVec k) :
    unsigned (ds ++ [d]) = unsigned ds * 2 ^ k + d.toNat := by
  rw [unsigned, List.map_append, List.reverse_append, List.map_singleton, List.reverse_singleton,
    List.singleton_append, Nat.ofDigits_cons, ← unsigned, Nat.add_comm, Nat.mul_comm]

theorem unsigned_lt (ds : List (BitVec k)) : unsigned ds < 2 ^ (k * ds.length) := by
  induction ds with
  | nil => simp
  | cons d ds ih =>
      have hd : (d.toNat + 1) * 2 ^ (k * ds.length) ≤ 2 ^ k * 2 ^ (k * ds.length) :=
        Nat.mul_le_mul_right _ d.isLt
      rw [unsigned_cons, List.length_cons, Nat.mul_succ, pow_add,
        Nat.mul_comm (2 ^ (k * ds.length))]
      rw [Nat.succ_mul] at hd
      omega

theorem unsigned_cons_div (d : BitVec k) (ds : List (BitVec k)) :
    unsigned (d :: ds) / 2 ^ (k * ds.length) = d.toNat := by
  rw [unsigned_cons, Nat.add_comm, Nat.add_mul_div_right _ _ (Nat.two_pow_pos _),
    Nat.div_eq_of_lt (unsigned_lt ds), Nat.zero_add]

theorem unsigned_cons_mod (d : BitVec k) (ds : List (BitVec k)) :
    unsigned (d :: ds) % 2 ^ (k * ds.length) = unsigned ds := by
  rw [unsigned_cons, Nat.add_comm, Nat.add_mul_mod_self_right, Nat.mod_eq_of_lt (unsigned_lt ds)]

/-- So many digits hold a number in one way. -/
theorem eq_of_unsigned {ds es : List (BitVec k)} (hlen : ds.length = es.length)
    (h : unsigned ds = unsigned es) : ds = es := by
  induction ds generalizing es with
  | nil => exact (List.eq_nil_of_length_eq_zero hlen.symm).symm
  | cons d ds ih =>
      obtain ⟨e, es, rfl⟩ := List.exists_cons_of_length_eq_add_one hlen.symm
      have hlen : ds.length = es.length := Nat.succ_inj.mp hlen
      have hd := unsigned_cons_div d ds
      have hds := unsigned_cons_mod d ds
      rw [h, hlen, unsigned_cons_div] at hd
      rw [h, hlen, unsigned_cons_mod] at hds
      rw [BitVec.eq_of_toNat_eq hd, ih hlen hds.symm]

/-! ### What bits can hold -/

/-- What `bits` bits can hold in two's complement. -/
def Fits (n : ℤ) (bits : ℕ) : Prop := -2 ^ bits ≤ 2 * n ∧ 2 * n < 2 ^ bits

instance (n : ℤ) (bits : ℕ) : Decidable (Fits n bits) :=
  inferInstanceAs (Decidable (-2 ^ bits ≤ 2 * n ∧ 2 * n < 2 ^ bits))

theorem Fits.mono {n : ℤ} {bits bits' : ℕ} (h : Fits n bits) (hle : bits ≤ bits') :
    Fits n bits' := by
  have hpow : (2 : ℤ) ^ bits ≤ 2 ^ bits' := pow_le_pow_right₀ (by decide) hle
  unfold Fits at *
  omega

/-- Bits hold one number of each residue. -/
theorem eq_of_fits {n m : ℤ} {bits : ℕ} (hn : Fits n bits) (hm : Fits m bits)
    (h : n % 2 ^ bits = m % 2 ^ bits) : n = m := by
  obtain ⟨q, hq⟩ : (2 : ℤ) ^ bits ∣ n - m := Int.ModEq.dvd h.symm
  have hpos : (0 : ℤ) < 2 ^ bits := pow_pos (by decide) bits
  unfold Fits at hn hm
  have hlo : -1 < q := by
    by_contra hle
    nlinarith
  have hhi : q < 1 := by
    by_contra hle
    nlinarith
  obtain rfl : q = 0 := by omega
  rw [mul_zero] at hq
  omega

theorem signed_fits (ds : List (BitVec k)) : Fits (signed ds) (k * ds.length) := by
  have hlt : (unsigned ds : ℤ) < 2 ^ (k * ds.length) := by exact_mod_cast unsigned_lt ds
  unfold signed Fits
  split
  · next h =>
      have h : 2 * (unsigned ds : ℤ) < 2 ^ (k * ds.length) := by exact_mod_cast h
      omega
  · next h =>
      have h : (2 : ℤ) ^ (k * ds.length) ≤ 2 * unsigned ds := by exact_mod_cast Nat.not_lt.mp h
      omega

theorem signed_of_nonneg {ds : List (BitVec k)} (h : 0 ≤ signed ds) : signed ds = unsigned ds := by
  have hlt : (unsigned ds : ℤ) < 2 ^ (k * ds.length) := by exact_mod_cast unsigned_lt ds
  unfold signed at h ⊢
  split at h
  · next hhalf => exact if_pos hhalf
  · omega

theorem signed_of_neg {ds : List (BitVec k)} (h : signed ds < 0) :
    signed ds = unsigned ds - 2 ^ (k * ds.length) := by
  unfold signed at h ⊢
  split at h
  · omega
  · next hhalf => exact if_neg hhalf

/-- The two numbers that digits hold have one residue. -/
theorem signed_emod (ds : List (BitVec k)) :
    signed ds % 2 ^ (k * ds.length) = unsigned ds := by
  have hlt : (unsigned ds : ℤ) < 2 ^ (k * ds.length) := by exact_mod_cast unsigned_lt ds
  have hmod : (unsigned ds : ℤ) % 2 ^ (k * ds.length) = unsigned ds :=
    Int.emod_eq_of_lt (Int.natCast_nonneg _) hlt
  unfold signed
  split
  · exact hmod
  · rw [Int.sub_emod_right, hmod]

/-- The first digit says which half the number is in. -/
theorem two_mul_unsigned_cons_lt_iff (d : BitVec k) (ds : List (BitVec k)) :
    2 * unsigned (d :: ds) < 2 ^ (k * (d :: ds).length) ↔ d.msb = false := by
  cases k with
  | zero =>
      have := unsigned_lt (d :: ds)
      simp only [Nat.zero_mul, pow_zero] at this ⊢
      exact iff_of_true (by omega) (BitVec.msb_zero_length d)
  | succ k =>
      have hpow : 2 ^ ((k + 1) * (d :: ds).length) =
          2 * (2 ^ k * 2 ^ ((k + 1) * ds.length)) := by
        rw [List.length_cons, Nat.mul_succ, pow_add, pow_succ]
        ring
      rw [hpow, Nat.mul_lt_mul_left (by decide), ← Nat.div_lt_iff_lt_mul (Nat.two_pow_pos _),
        unsigned_cons_div, BitVec.msb_eq_decide, decide_eq_false_iff_not, Nat.not_le,
        Nat.add_sub_cancel]

/-- The top bit of the first digit is the sign. -/
theorem signed_cons (d : BitVec k) (ds : List (BitVec k)) :
    signed (d :: ds) =
      (if d.msb then -1 else 0) * 2 ^ (k * (d :: ds).length) + unsigned (d :: ds) := by
  have hhalf := two_mul_unsigned_cons_lt_iff d ds
  unfold signed
  cases h : d.msb
  · rw [if_pos (hhalf.mpr h)]
    simp
  · rw [if_neg (mt hhalf.mp (by simp [h]))]
    simp only [if_true]
    ring

/-! ### Digits put into a word -/

/-- Put a digit into a word, from the right. -/
def feed (v : BitVec w) (d : BitVec k) : BitVec w := v <<< k ||| d.setWidth w

theorem ofInt_two_pow (w k : ℕ) : BitVec.ofInt w (2 ^ k) = BitVec.twoPow w k := by
  have hcast : (2 : ℤ) ^ k = (2 ^ k : ℕ) := by push_cast; rfl
  apply BitVec.eq_of_toNat_eq
  rw [hcast, BitVec.ofInt_natCast, BitVec.toNat_ofNat, BitVec.toNat_twoPow]

/-- The digit goes where the shift made room. -/
theorem feed_ofInt (n : ℤ) (d : BitVec k) :
    feed (BitVec.ofInt w n) d = BitVec.ofInt w (n * 2 ^ k + d.toNat) := by
  have hroom : BitVec.ofInt w n <<< k &&& d.setWidth w = 0#w := by
    ext i hi
    rcases Nat.lt_or_ge i k with hik | hik
    · simp [hik]
    · simp [BitVec.getLsbD_of_ge d i hik]
  rw [feed, ← BitVec.add_eq_or_of_and_eq_zero _ _ hroom, BitVec.shiftLeft_eq_mul_twoPow,
    BitVec.ofInt_add, BitVec.ofInt_mul, BitVec.ofInt_natCast, BitVec.ofNat_toNat, ofInt_two_pow]

/-- **Digit by digit, a word counts modulo `2 ^ w`.** -/
theorem foldl_feed (n : ℤ) (ds : List (BitVec k)) :
    ds.foldl feed (BitVec.ofInt w n) =
      BitVec.ofInt w (n * 2 ^ (k * ds.length) + unsigned ds) := by
  induction ds using List.reverseRecOn with
  | nil => simp
  | append_singleton ds d ih =>
      have hpow : (2 : ℤ) ^ (k * (ds ++ [d]).length) = 2 ^ (k * ds.length) * 2 ^ k := by
        rw [List.length_append, List.length_singleton, Nat.mul_succ, pow_add]
      rw [List.foldl_append, ih, List.foldl_cons, List.foldl_nil, feed_ofInt, unsigned_concat, hpow]
      push_cast
      ring_nf

/-- **A word that has room for the digits holds their unsigned number.** -/
theorem toNat_foldl_feed (ds : List (BitVec k)) (hroom : k * ds.length ≤ w) :
    (ds.foldl feed 0#w).toNat = unsigned ds := by
  have hlt : unsigned ds < 2 ^ w :=
    (unsigned_lt ds).trans_le (Nat.pow_le_pow_right (by decide) hroom)
  have hfold := foldl_feed (w := w) 0 ds
  rw [zero_mul, zero_add, BitVec.ofInt_natCast, BitVec.ofInt_ofNat] at hfold
  rw [hfold, BitVec.toNat_ofNat, Nat.mod_eq_of_lt hlt]

/-- What fits a word is what the word says. -/
theorem toInt_ofInt_of_fits {n : ℤ} (h : Fits n w) : (BitVec.ofInt w n).toInt = n := by
  have hcast : ((2 ^ w : ℕ) : ℤ) = 2 ^ w := by push_cast; rfl
  unfold Fits at h
  rw [BitVec.toInt_ofInt, Int.bmod_eq_of_le] <;> omega

/-- **A word that starts from the sign holds the signed number of the digits.** -/
theorem toInt_foldl_feed (d : BitVec k) (ds : List (BitVec k))
    (hroom : k * (d :: ds).length ≤ w) :
    ((d :: ds).foldl feed (BitVec.ofInt w (if d.msb then -1 else 0))).toInt =
      signed (d :: ds) := by
  rw [foldl_feed, ← signed_cons]
  exact toInt_ofInt_of_fits ((signed_fits _).mono hroom)

/-! ### Signed numbers in digits -/

/-- The last `count` digits of a number in two's complement. -/
def digits (k : ℕ) : ℕ → ℤ → List (BitVec k)
  | 0, _ => []
  | count + 1, n => digits k count (n / 2 ^ k) ++ [BitVec.ofInt k n]

@[simp] theorem length_digits (count : ℕ) (n : ℤ) : (digits k count n).length = count := by
  induction count generalizing n with
  | zero => rfl
  | succ count ih => simp [digits, ih]

/-- The last digit of a residue and what stands before it. -/
theorem emod_mul {a b : ℤ} (ha : 0 < a) (hb : 0 < b) (n : ℤ) :
    n % (a * b) = n % a + a * (n / a % b) := by
  have hlow := Int.emod_nonneg n ha.ne'
  have hlow' := Int.emod_lt_of_pos n ha
  have hhigh := Int.emod_nonneg (n / a) hb.ne'
  have hhigh' := Int.emod_lt_of_pos (n / a) hb
  have hsplit : n = n % a + a * (n / a % b) + a * b * (n / a / b) := by
    have hn := Int.emod_add_mul_ediv n a
    have hna := Int.emod_add_mul_ediv (n / a) b
    linear_combination -hn - a * hna
  refine ((Int.ediv_emod_unique (mul_pos ha hb)).mpr ⟨hsplit.symm, ?_, ?_⟩).2
  · positivity
  · nlinarith

theorem unsigned_digits (count : ℕ) (n : ℤ) :
    (unsigned (digits k count n) : ℤ) = n % 2 ^ (k * count) := by
  induction count generalizing n with
  | zero =>
      rw [Nat.mul_zero, pow_zero, Int.emod_one]
      rfl
  | succ count ih =>
      have hpow : (2 : ℤ) ^ (k * (count + 1)) = 2 ^ k * 2 ^ (k * count) := by
        rw [Nat.mul_succ, pow_add, mul_comm]
      have hlow : ((BitVec.ofInt k n).toNat : ℤ) = n % 2 ^ k := by
        rw [BitVec.toNat_ofInt, Int.toNat_of_nonneg (Int.emod_nonneg _ (by simp))]
        push_cast
        rfl
      rw [digits, unsigned_concat, hpow, emod_mul (by positivity) (by positivity)]
      push_cast
      rw [ih, hlow]
      ring

/-- **What is written is read back**, where the digits can hold it. -/
theorem signed_digits {count : ℕ} {n : ℤ} (h : Fits n (k * count)) :
    signed (digits k count n) = n := by
  have hfits := signed_fits (digits k count n)
  have hmod := signed_emod (digits k count n)
  rw [length_digits] at hfits hmod
  rw [unsigned_digits] at hmod
  exact eq_of_fits hfits h hmod

/-- **Nothing else holds it.** -/
theorem digits_signed (ds : List (BitVec k)) : digits k ds.length (signed ds) = ds := by
  refine eq_of_unsigned (length_digits _ _) ?_
  have hdigits := unsigned_digits (k := k) ds.length (signed ds)
  rw [signed_emod] at hdigits
  exact_mod_cast hdigits

/-- A digit of nothing but the sign says nothing new. -/
theorem signed_sign_cons (ds : List (BitVec k)) :
    signed ((if signed ds < 0 then BitVec.allOnes k else 0#k) :: ds) = signed ds := by
  rw [signed_cons, unsigned_cons, List.length_cons, Nat.mul_succ, pow_add]
  by_cases h : signed ds < 0
  · have hk : k ≠ 0 := by
      rintro rfl
      have hfits := signed_fits ds
      simp only [Fits, Nat.zero_mul, pow_zero] at hfits
      omega
    have hones : ((BitVec.allOnes k).toNat : ℤ) = 2 ^ k - 1 := by
      rw [BitVec.toNat_allOnes, Nat.cast_sub Nat.one_le_two_pow]
      push_cast
      rfl
    rw [if_pos h, BitVec.msb_allOnes (Nat.pos_of_ne_zero hk), if_pos rfl, signed_of_neg h]
    push_cast
    rw [hones]
    ring
  · rw [if_neg h, signed_of_nonneg (not_lt.mp h)]
    simp

/-- More digits than it takes repeat the sign. -/
theorem digits_add {count : ℕ} {n : ℤ} (h : Fits n (k * count)) (more : ℕ) :
    digits k (more + count) n =
      List.replicate more (if n < 0 then BitVec.allOnes k else 0#k) ++ digits k count n := by
  have hsigned : signed (List.replicate more (if n < 0 then BitVec.allOnes k else 0#k) ++
      digits k count n) = n := by
    induction more with
    | zero => exact signed_digits h
    | succ more ih =>
        have hsign := signed_sign_cons (List.replicate more
          (if n < 0 then BitVec.allOnes k else 0#k) ++ digits k count n)
        rw [ih] at hsign
        exact hsign
  have hread := digits_signed (List.replicate more (if n < 0 then BitVec.allOnes k else 0#k) ++
    digits k count n)
  rwa [hsigned, List.length_append, List.length_replicate, length_digits] at hread

end TwosComplement
