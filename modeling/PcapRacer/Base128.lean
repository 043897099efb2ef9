/-
**Numbers in base 128.**

A number is written as octets of seven bits each, the highest first; every octet but the last has
its top bit set.  BER writes long tag numbers and the arcs of object identifiers this way.

Main definitions:

* `Base128.Word` — octets that hold one number;
* `Base128.value` — the number that octets hold;
* `Base128.encode` — the octets of a number, without padding.

Main results:

* `Base128.word_encode`, `Base128.value_encode` — **what is written is read back**;
* `Base128.value_lt` — how large the number is.
-/

import Mathlib.Algebra.Order.Ring.Nat

set_option relaxedAutoImplicit false
set_option autoImplicit false

namespace Base128

/-! ### Octets -/

/-- The low seven bits of an octet. -/
theorem toNat_low (b : UInt8) : (b &&& 0x7f).toNat = b.toNat % 128 := by
  rw [UInt8.toNat_and]
  exact Nat.and_two_pow_sub_one_eq_mod b.toNat 7

/-- The top bit of an octet is clear. -/
theorem top_eq_zero_iff (b : UInt8) : b &&& 0x80 = 0 ↔ b.toNat < 128 := by
  have hall : ∀ n : Fin 256, UInt8.ofNat n &&& 0x80 = 0 ↔ n.val < 128 := by decide +kernel
  have hb := hall ⟨b.toNat, b.toNat_lt⟩
  rwa [UInt8.ofNat_toNat] at hb

/-- Octets that hold one number: all but the last have the top bit set. -/
inductive Word : List UInt8 → Prop
  | last {b : UInt8} (h : b.toNat < 128) : Word [b]
  | more {b : UInt8} {bs : List UInt8} (h : 128 ≤ b.toNat) : Word bs → Word (b :: bs)

theorem Word.ne_nil {bs : List UInt8} (h : Word bs) : bs ≠ [] := by
  cases h <;> exact List.cons_ne_nil _ _

/-! ### Values -/

/-- The number that octets hold, after one that has been read already. -/
def valueFrom (n : ℕ) (bs : List UInt8) : ℕ := bs.foldl (fun n b => n * 128 + b.toNat % 128) n

/-- The number that octets hold. -/
def value (bs : List UInt8) : ℕ := valueFrom 0 bs

@[simp] theorem valueFrom_nil (n : ℕ) : valueFrom n [] = n := rfl

theorem valueFrom_cons (n : ℕ) (b : UInt8) (bs : List UInt8) :
    valueFrom n (b :: bs) = valueFrom (n * 128 + b.toNat % 128) bs := rfl

theorem valueFrom_append (n : ℕ) (xs ys : List UInt8) :
    valueFrom n (xs ++ ys) = valueFrom (valueFrom n xs) ys := List.foldl_append

theorem valueFrom_lt {n k : ℕ} (bs : List UInt8) (h : n < k) :
    valueFrom n bs < k * 128 ^ bs.length := by
  induction bs generalizing n k with
  | nil => simpa using h
  | cons b bs ih =>
      have hstep : n * 128 + b.toNat % 128 < k * 128 := by omega
      rw [valueFrom_cons, List.length_cons, pow_succ', ← Nat.mul_assoc]
      exact ih hstep

/-- **How large the number is.** -/
theorem value_lt (bs : List UInt8) : value bs < 128 ^ bs.length := by
  simpa [value] using valueFrom_lt bs Nat.zero_lt_one

/-! ### Writing numbers -/

/-- The octets before the last one.  The first argument is enough when it is not below the
second. -/
def upper : ℕ → ℕ → List UInt8
  | 0, _ => []
  | fuel + 1, n => if n = 0 then [] else upper fuel (n / 128) ++ [UInt8.ofNat (n % 128 + 128)]

/-- The octets of a number, without padding. -/
def encode (n : ℕ) : List UInt8 := upper n (n / 128) ++ [UInt8.ofNat (n % 128)]

theorem word_upper_append {fuel n : ℕ} {bs : List UInt8} (h : Word bs) :
    Word (upper fuel n ++ bs) := by
  induction fuel generalizing n bs with
  | zero => exact h
  | succ fuel ih =>
      rw [upper]
      split
      · exact h
      · have hlast : 128 ≤ (UInt8.ofNat (n % 128 + 128)).toNat := by
          rw [UInt8.toNat_ofNat']
          omega
        rw [List.append_assoc]
        exact ih (.more hlast h)

theorem valueFrom_upper {fuel n : ℕ} (h : n ≤ fuel) : valueFrom 0 (upper fuel n) = n := by
  induction fuel generalizing n with
  | zero => rw [Nat.le_zero.mp h]; rfl
  | succ fuel ih =>
      rw [upper]
      split
      · next hn => exact hn.symm
      · have hdigit : (UInt8.ofNat (n % 128 + 128)).toNat % 128 = n % 128 := by
          rw [UInt8.toNat_ofNat']
          omega
        rw [valueFrom_append, ih (by omega), valueFrom_cons, hdigit]
        exact Nat.div_add_mod' n 128

/-- **The octets of a number hold one number.** -/
theorem word_encode (n : ℕ) : Word (encode n) := by
  refine word_upper_append (.last ?_)
  rw [UInt8.toNat_ofNat']
  omega

/-- **What is written is read back.** -/
theorem value_encode (n : ℕ) : value (encode n) = n := by
  have hdigit : (UInt8.ofNat (n % 128)).toNat % 128 = n % 128 := by
    rw [UInt8.toNat_ofNat']
    omega
  rw [value, encode, valueFrom_append, valueFrom_upper (Nat.div_le_self n 128), valueFrom_cons,
    hdigit]
  exact Nat.div_add_mod' n 128

/-- A small number takes one octet. -/
theorem encode_of_lt {n : ℕ} (h : n < 128) : encode n = [UInt8.ofNat n] := by
  rw [encode, Nat.div_eq_of_lt h, Nat.mod_eq_of_lt h]
  cases n <;> rfl

end Base128
