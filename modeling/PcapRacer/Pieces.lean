/-
**Cutting a list into consecutive pieces.**

A message is cut into pieces that travel separately and arrive in any order.  This module fixes
the vocabulary: the pieces are a list of lists, the message is their concatenation, and the piece
number `k` starts at `Pieces.offset pieces k`.  When no piece is empty the offsets are strictly
increasing, so a piece is determined by its offset; and a set of pieces that contains the first
`f` of them but not the next one determines how much of the message is contiguous.

Main definitions:

* `Pieces.offset` — where a piece starts;
* `Pieces.held` — the arrived pieces that wait for an earlier one.

Main results:

* `Pieces.offset_lt_offset`, `Pieces.offset_inj` — offsets separate pieces;
* `Pieces.mem_held_iff` — the held pieces are those past the first gap;
* `Pieces.perm_cons_eraseP` — taking the first element with a property out of a list;
* `Pieces.forall_concat_prefix` — checking every element against the ones before it.
-/

import Mathlib.Algebra.BigOperators.Group.List.Basic
import Mathlib.Algebra.Order.Ring.Nat
import Mathlib.Data.List.Perm.Basic

set_option relaxedAutoImplicit false
set_option autoImplicit false

namespace Pieces

variable {α : Type}

/-- Taking out the first element with a property leaves the others. -/
theorem perm_cons_eraseP {l : List α} {p : α → Bool} {a : α}
    (h : l.find? p = some a) : l.Perm (a :: l.eraseP p) := by
  induction l with
  | nil => simp at h
  | cons b l ih =>
      by_cases hb : p b
      · rw [List.find?_cons_of_pos hb, Option.some_inj] at h
        rw [List.eraseP_cons_of_pos hb, h]
      · rw [List.find?_cons_of_neg hb] at h
        rw [List.eraseP_cons_of_neg hb]
        exact ((ih h).cons b).trans (List.Perm.swap a b _)

/-- What is asked of every element of a list and of the elements before it. -/
theorem forall_concat_prefix {p : List α → α → Prop} {l : List α}
    (h : ∀ i : Fin l.length, p (l.take i) (l.get i)) (l' : List α) (a : α)
    (hl : l' ++ [a] <+: l) : p l' a := by
  obtain ⟨rest, rfl⟩ := hl
  have hi := h ⟨l'.length, by simp⟩
  have htake : (l' ++ [a] ++ rest).take l'.length = l' := by
    rw [List.append_assoc, List.take_left]
  have hget : (l' ++ [a] ++ rest).get ⟨l'.length, by simp⟩ = a := by simp
  rw [hget] at hi
  dsimp only at hi
  rwa [htake] at hi

/-! ### Offsets -/

/-- Where piece number `k` starts. -/
def offset (pieces : List (List α)) (k : ℕ) : ℕ := (pieces.take k).flatten.length

@[simp] theorem offset_zero (pieces : List (List α)) : offset pieces 0 = 0 := by simp [offset]

/-- The pieces before number `k + 1` are those before number `k` and that one. -/
theorem flatten_take_succ {pieces : List (List α)} {k : ℕ} (h : k < pieces.length) :
    (pieces.take (k + 1)).flatten = (pieces.take k).flatten ++ pieces[k] := by
  rw [List.take_succ_eq_append_getElem h, List.flatten_append]
  simp

theorem offset_succ {pieces : List (List α)} {k : ℕ} (h : k < pieces.length) :
    offset pieces (k + 1) = offset pieces k + pieces[k].length := by
  rw [offset, flatten_take_succ h, List.length_append, offset]

theorem offset_length (pieces : List (List α)) :
    offset pieces pieces.length = pieces.flatten.length := by
  rw [offset, List.take_length]

theorem offset_lt_succ {pieces : List (List α)} (hne : ∀ p ∈ pieces, p ≠ []) {k : ℕ}
    (h : k < pieces.length) : offset pieces k < offset pieces (k + 1) := by
  rw [offset_succ h]
  have := List.length_pos_iff.2 (hne _ (List.getElem_mem h))
  omega

/-- **Offsets are strictly increasing** when no piece is empty. -/
theorem offset_lt_offset {pieces : List (List α)} (hne : ∀ p ∈ pieces, p ≠ []) {j k : ℕ}
    (hjk : j < k) (hk : k ≤ pieces.length) : offset pieces j < offset pieces k := by
  induction k with
  | zero => omega
  | succ k ih =>
      have hstep := offset_lt_succ hne (show k < pieces.length by omega)
      rcases Nat.lt_or_ge j k with h | h
      · exact Nat.lt_trans (ih h (by omega)) hstep
      · have : j = k := by omega
        rwa [this]

theorem offset_inj {pieces : List (List α)} (hne : ∀ p ∈ pieces, p ≠ []) {j k : ℕ}
    (hj : j ≤ pieces.length) (hk : k ≤ pieces.length) (h : offset pieces j = offset pieces k) :
    j = k := by
  rcases Nat.lt_trichotomy j k with hlt | heq | hgt
  · exact absurd h (Nat.ne_of_lt (offset_lt_offset hne hlt hk))
  · exact heq
  · exact absurd h.symm (Nat.ne_of_lt (offset_lt_offset hne hgt hj))

theorem offset_lt_length {pieces : List (List α)} (hne : ∀ p ∈ pieces, p ≠ []) {k : ℕ}
    (hk : k < pieces.length) : offset pieces k < pieces.flatten.length := by
  rw [← offset_length]
  exact offset_lt_offset hne hk (Nat.le_refl _)

/-! ### Gaps -/

/-- The arrived pieces that wait for an earlier one. -/
def held (arrived : List ℕ) : List ℕ := arrived.filter fun k => ∃ j < k, j ∉ arrived

/-- The held pieces are those past the first gap. -/
theorem mem_held_iff {arrived : List ℕ} {f : ℕ} (hlt : ∀ k < f, k ∈ arrived)
    (hf : f ∉ arrived) {k : ℕ} : k ∈ held arrived ↔ k ∈ arrived ∧ f < k := by
  simp only [held, List.mem_filter, decide_eq_true_eq]
  constructor
  · rintro ⟨hk, j, hj, hmem⟩
    have : f ≤ j := Nat.le_of_not_lt fun h => hmem (hlt j h)
    exact ⟨hk, by omega⟩
  · rintro ⟨hk, hfk⟩
    exact ⟨hk, f, hfk, hf⟩

theorem nodup_held {arrived : List ℕ} (h : arrived.Nodup) : (held arrived).Nodup := h.filter _

/-- When pieces `0, …, n - 1` have all arrived and no other, the first gap is at `n`. -/
theorem eq_of_gap {arrived : List ℕ} {f n : ℕ} (hlt : ∀ k < f, k ∈ arrived) (hf : f ∉ arrived)
    (hall : ∀ k, k ∈ arrived ↔ k < n) : f = n := by
  have h₁ : ¬ f < n := fun h => hf ((hall f).2 h)
  have h₂ : ¬ n < f := fun h => absurd ((hall n).1 (hlt n h)) (Nat.lt_irrefl n)
  omega

end Pieces
