/-
**Numbers in bytes.**

A fixed number of bytes holds a number in network order or in little-endian order.

Main definitions:

* `beBytes`, `leBytes` — the bytes of a number.

Main results:

* `beNat_beBytes`, `leNat_leBytes` — what the bytes of a number say.
-/

import PcapRacer.Cur

set_option relaxedAutoImplicit false
set_option autoImplicit false

namespace PcapRacer

/-- The last `count` bytes of a number in network order. -/
def beBytes : ℕ → ℕ → Bytes
  | 0, _ => []
  | count + 1, n => beBytes count (n / 256) ++ [UInt8.ofNat n]

/-- The last `count` bytes of a number in little-endian order. -/
def leBytes (count n : ℕ) : Bytes := (beBytes count n).reverse

@[simp] theorem length_beBytes (count n : ℕ) : (beBytes count n).length = count := by
  induction count generalizing n with
  | zero => rfl
  | succ count ih => simp [beBytes, ih]

@[simp] theorem length_leBytes (count n : ℕ) : (leBytes count n).length = count := by
  simp [leBytes]

theorem beNat_concat (b : Bytes) (x : UInt8) : beNat (b ++ [x]) = beNat b * 256 + x.toNat := by
  simp [beNat]

/-- **The bytes of a number say what it is**, up to what they have no room for. -/
theorem beNat_beBytes (count n : ℕ) : beNat (beBytes count n) = n % 256 ^ count := by
  induction count generalizing n with
  | zero => simp [beBytes, beNat, Nat.mod_one]
  | succ count ih =>
      have hsplit : n % 256 ^ (count + 1) = n % 256 + 256 * (n / 256 % 256 ^ count) := by
        rw [pow_succ', Nat.mod_mul]
      rw [beBytes, beNat_concat, ih, hsplit, UInt8.toNat_ofNat']
      omega

theorem leNat_leBytes (count n : ℕ) : leNat (leBytes count n) = n % 256 ^ count := by
  rw [leNat, leBytes, List.reverse_reverse, beNat_beBytes]

@[simp] theorem ofNat_beBytes_two (v : UInt16) : UInt16.ofNat (beNat (beBytes 2 v.toNat)) = v := by
  rw [beNat_beBytes, Nat.mod_eq_of_lt (show v.toNat < 256 ^ 2 from v.toNat_lt), UInt16.ofNat_toNat]

@[simp] theorem beNat_beBytes_four (v : UInt32) : beNat (beBytes 4 v.toNat) = v.toNat := by
  rw [beNat_beBytes, Nat.mod_eq_of_lt (show v.toNat < 256 ^ 4 from v.toNat_lt)]

@[simp] theorem ofNat_beBytes_four (v : UInt32) : UInt32.ofNat (beNat (beBytes 4 v.toNat)) = v := by
  rw [beNat_beBytes_four, UInt32.ofNat_toNat]

/-! ### Reading a number back -/

namespace Cur

variable {c : Cur} {y : Bytes}

theorem exists_be32 {v : UInt32} (h : c.rest = beBytes 4 v.toNat ++ y) :
    ∃ c', c.be32 = .ok (v, c') ∧ c'.rest = y := by
  obtain ⟨c', hread, hrest⟩ :=
    read_of_append (fun b => UInt32.ofNat (beNat b)) h (length_beBytes 4 _)
  rw [ofNat_beBytes_four] at hread
  exact ⟨c', hread, hrest⟩

theorem exists_le16 {v : UInt16} (h : c.rest = leBytes 2 v.toNat ++ y) :
    ∃ c', c.le16 = .ok (v, c') ∧ c'.rest = y := by
  obtain ⟨c', hread, hrest⟩ :=
    read_of_append (fun b => UInt16.ofNat (leNat b)) h (length_leBytes 2 _)
  rw [leNat_leBytes, Nat.mod_eq_of_lt (show v.toNat < 256 ^ 2 from v.toNat_lt),
    UInt16.ofNat_toNat] at hread
  exact ⟨c', hread, hrest⟩

theorem exists_le32 {v : UInt32} (h : c.rest = leBytes 4 v.toNat ++ y) :
    ∃ c', c.le32 = .ok (v, c') ∧ c'.rest = y := by
  obtain ⟨c', hread, hrest⟩ :=
    read_of_append (fun b => UInt32.ofNat (leNat b)) h (length_leBytes 4 _)
  rw [leNat_leBytes, Nat.mod_eq_of_lt (show v.toNat < 256 ^ 4 from v.toNat_lt),
    UInt32.ofNat_toNat] at hread
  exact ⟨c', hread, hrest⟩

theorem exists_le64 {v : UInt64} (h : c.rest = leBytes 8 v.toNat ++ y) :
    ∃ c', c.le64 = .ok (v, c') ∧ c'.rest = y := by
  obtain ⟨c', hread, hrest⟩ :=
    read_of_append (fun b => UInt64.ofNat (leNat b)) h (length_leBytes 8 _)
  rw [leNat_leBytes, Nat.mod_eq_of_lt (show v.toNat < 256 ^ 8 from v.toNat_lt),
    UInt64.ofNat_toNat] at hread
  exact ⟨c', hread, hrest⟩

end Cur

end PcapRacer
