/-
**Reading a wire format forwards and backwards.**

A dissector of a binary format reads one field after the other.  Forwards: on the bytes of a message
each read gives its field.  Backwards: when all reads succeed, the bytes are those of some message.

Main results:

* `beBytes_beNat` — bytes in network order are those of the number they stand for;
* `Cur.rest_of_be16`, `Cur.rest_of_be32`, `Cur.rest_of_ipv4`, `Cur.rest_of_skip` — what stood where
  a field was read;
* `mapM_cap_asciiString` — a text field that fits is kept;
* `exists_of_exec_read` — a dissector that accepts has read what it asked for;
* `exec_when_col`, `exec_unless_giveUp` — columns written, and giving up, under a condition.
-/

import Mathlib.Data.List.Induction
import PcapRacer.BerReading
import PcapRacer.ByteOrder
import PcapRacer.Dissect
import PcapRacer.LdapCalm

set_option relaxedAutoImplicit false
set_option autoImplicit false

namespace PcapRacer

/-! ### Numbers -/

/-- **Bytes in network order are those of the number they stand for.** -/
theorem beBytes_beNat (b : Bytes) : beBytes b.length (beNat b) = b := by
  induction b using List.reverseRecOn with
  | nil => rfl
  | append_singleton b x ih =>
      have hx : x.toNat < 256 := x.toNat_lt
      have hdiv : (beNat b * 256 + x.toNat) / 256 = beNat b := by omega
      have hmod : UInt8.ofNat (beNat b * 256 + x.toNat) = x := by
        refine UInt8.toNat_inj.mp ?_
        rw [UInt8.toNat_ofNat']
        omega
      rw [List.length_append, List.length_singleton, beNat_concat, beBytes, hdiv, ih, hmod]

theorem beNat_lt (b : Bytes) : beNat b < 256 ^ b.length := by
  induction b using List.reverseRecOn with
  | nil => decide
  | append_singleton b x ih =>
      have hx : x.toNat < 256 := x.toNat_lt
      rw [beNat_concat, List.length_append, List.length_singleton, Nat.pow_succ]
      omega

theorem beBytes_ofNat_two {b : Bytes} (h : b.length = 2) :
    beBytes 2 (UInt16.ofNat (beNat b)).toNat = b := by
  have hlt : beNat b < 2 ^ 16 := by simpa [h] using beNat_lt b
  rw [UInt16.toNat_ofNat', Nat.mod_eq_of_lt hlt, ← h, beBytes_beNat]

theorem beBytes_ofNat_four {b : Bytes} (h : b.length = 4) :
    beBytes 4 (UInt32.ofNat (beNat b)).toNat = b := by
  have hlt : beNat b < 2 ^ 32 := by simpa [h] using beNat_lt b
  rw [UInt32.toNat_ofNat', Nat.mod_eq_of_lt hlt, ← h, beBytes_beNat]

/-! ### One field -/

namespace Cur

variable {c c' : Cur}

theorem exists_ipv4 {v : UInt32} {y : Bytes} (h : c.rest = beBytes 4 v.toNat ++ y) :
    ∃ c', c.ipv4 = .ok (v, c') ∧ c'.rest = y := by
  obtain ⟨c', hread, hrest⟩ :=
    read_of_append (fun b => UInt32.ofNat (beNat b)) h (length_beBytes 4 _)
  rw [ofNat_beBytes_four] at hread
  exact ⟨c', hread, hrest⟩

/-- A number of two bytes in network order. -/
theorem exists_word {v : UInt16} {y : Bytes} (h : c.rest = beBytes 2 v.toNat ++ y) :
    ∃ c', c.be16 = .ok (v, c') ∧ c'.rest = y := by
  obtain ⟨c', hread, hrest⟩ := exists_be16 h (length_beBytes 2 _)
  rw [ofNat_beBytes_two] at hread
  exact ⟨c', hread, hrest⟩

theorem rest_of_be16 {v : UInt16} (h : c.be16 = .ok (v, c')) :
    c.rest = beBytes 2 v.toNat ++ c'.rest := by
  obtain ⟨b, htake, rfl⟩ := read_eq_ok h
  obtain ⟨hrest, hlen⟩ := Ber.rest_of_take htake
  rw [hrest, beBytes_ofNat_two hlen]

theorem rest_of_be32 {v : UInt32} (h : c.be32 = .ok (v, c')) :
    c.rest = beBytes 4 v.toNat ++ c'.rest := by
  obtain ⟨b, htake, rfl⟩ := read_eq_ok h
  obtain ⟨hrest, hlen⟩ := Ber.rest_of_take htake
  rw [hrest, beBytes_ofNat_four hlen]

theorem rest_of_ipv4 {v : UInt32} (h : c.ipv4 = .ok (v, c')) :
    c.rest = beBytes 4 v.toNat ++ c'.rest := rest_of_be32 h

theorem rest_of_skip {n : ℕ} (h : c.skip n = .ok c') :
    ∃ x : Bytes, x.length = n ∧ c.rest = x ++ c'.rest := by
  rw [skip_eq_take] at h
  obtain ⟨⟨x, c''⟩, htake, rfl⟩ := map_eq_ok_iff.mp h
  obtain ⟨hrest, hlen⟩ := Ber.rest_of_take htake
  exact ⟨x, hlen, hrest⟩

/-- What a read leaves. -/
theorem drop_of_take {n : ℕ} {r : Bytes × Cur} (h : c.take n = .ok r) :
    r.2.rest = c.rest.drop n := by
  obtain ⟨hn, rfl⟩ := take_eq_ok_iff.mp h
  exact rest_advance c n hn

theorem drop_of_read {α : Type} {n : ℕ} {f : Bytes → α} {r : α × Cur} (h : c.read n f = .ok r) :
    r.2.rest = c.rest.drop n := by
  obtain ⟨b, htake, -⟩ := read_eq_ok h
  exact drop_of_take htake

theorem value_of_read {α : Type} {n : ℕ} {f : Bytes → α} {r : α × Cur} (h : c.read n f = .ok r) :
    r.1 = f (c.rest.take n) := by
  obtain ⟨a, ha, rfl⟩ := map_eq_ok_iff.mp h
  rw [(Prod.ext_iff.mp (take_eq_ok_iff.mp ha).2).1]

theorem drop_of_u8 {r : UInt8 × Cur} (h : c.u8 = .ok r) : r.2.rest = c.rest.drop 1 :=
  drop_of_read ((u8_eq_read c).symm.trans h)

theorem drop_of_skip {n : ℕ} (h : c.skip n = .ok c') : c'.rest = c.rest.drop n := by
  rw [skip_eq_take] at h
  obtain ⟨r, htake, rfl⟩ := map_eq_ok_iff.mp h
  exact drop_of_take htake

end Cur

/-- A text field that fits is kept. -/
theorem mapM_cap_asciiString {v : Bytes} {max : ℕ}
    (h : ∀ s, asciiString v = some s → s.utf8Len ≤ max) :
    ((asciiString v).mapM fun s => cap s max) = .ok (asciiString v) := by
  cases hs : asciiString v with
  | none => rfl
  | some s =>
      rw [Option.mapM_some, cap_of_le (h s hs)]
      rfl

/-! ### A dissector that accepts -/

section Exec

variable {σ α β C : Type}

/-- A dissector that accepts has read what it asked for. -/
theorem exists_of_exec_read {x : Except DissectError α} {k : α → Dissect σ β} {s s' : σ} {b : β}
    (h : ((liftM x : Dissect σ α) >>= k).exec s = .ok (.ok b, s')) :
    ∃ a, x = .ok a ∧ (k a).exec s = .ok (.ok b, s') := by
  rw [exec_bind, exec_liftError] at h
  cases x with
  | error e => cases h
  | ok a => exact ⟨a, rfl, h⟩

/-- Writing columns under a condition, and then something else. -/
theorem exec_when_col (p : Prop) [Decidable p] (f : C → C) (k : Dissect (Sink C) β) (s : Sink C) :
    (if p then col f >>= fun _ => k else k).exec s =
      k.exec { s with cols := if p then f s.cols else s.cols } := by
  by_cases hp : p
  · rw [if_pos hp, if_pos hp, exec_col_bind]
  · rw [if_neg hp, if_neg hp]

/-- A dissector that accepts has not given up. -/
theorem exec_unless_giveUp {p : Prop} [Decidable p] {e : DissectError} {k : Dissect σ β} {s s' : σ}
    {b : β}
    (h : (if p then (giveUp e : Dissect σ PUnit) >>= fun _ => k else k).exec s = .ok (.ok b, s')) :
    ¬ p ∧ k.exec s = .ok (.ok b, s') := by
  by_cases hp : p
  · rw [if_pos hp, exec_bind, exec_giveUp] at h
    cases h
  · rw [if_neg hp] at h
    exact ⟨hp, h⟩

end Exec

end PcapRacer
