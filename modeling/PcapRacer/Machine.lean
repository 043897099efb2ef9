/-
**Machine arithmetic that says no.**

A machine word has a width, a slice has a length, and a program that leaves either does not go on.
Here the operations return a `Fault` where they would.  That a program of such operations returns a
value is then a statement about all of its accesses and all of its arithmetic at once.

Main definitions:

* `Fault` — why an operation does not go on;
* `Machine.sub`, `Machine.add`, `Machine.mul` — unsigned arithmetic;
* `Machine.signed` — a result in a signed word;
* `Machine.index`, `Machine.slice`, `Machine.array` — accesses to a slice.

Main results: one lemma an operation, which says when it goes on.
-/

import Mathlib.Algebra.Order.Ring.Nat
import Mathlib.Data.List.Basic

set_option relaxedAutoImplicit false
set_option autoImplicit false

/-- Why an operation does not go on. -/
inductive Fault where
  /-- An index or a slice leaves its array. -/
  | bounds
  /-- The difference of unsigned numbers is negative. -/
  | underflow
  /-- A result does not fit its word. -/
  | overflow
  /-- A bound that the program promises to keep is broken. -/
  | promise
  /-- The rounds of a loop run out. -/
  | diverges
  deriving DecidableEq

namespace Machine

/-- The width of the words that count bytes. -/
def usize : ℕ := 64

def sub (a b : ℕ) : Except Fault ℕ := if b ≤ a then .ok (a - b) else .error .underflow

def add (width a b : ℕ) : Except Fault ℕ :=
  if a + b < 2 ^ width then .ok (a + b) else .error .overflow

def mul (width a b : ℕ) : Except Fault ℕ :=
  if a * b < 2 ^ width then .ok (a * b) else .error .overflow

/-- A result in a signed word. -/
def signed (width : ℕ) (n : Int) : Except Fault Int :=
  if -2 ^ (width - 1) ≤ n ∧ n < 2 ^ (width - 1) then .ok n else .error .overflow

theorem signed_of_fits {width k : ℕ} {n : Int} (hwidth : width = k + 1) (hlo : -2 ^ k ≤ n)
    (hhi : n < 2 ^ k) : signed width n = .ok n := by
  subst hwidth
  exact if_pos ⟨hlo, hhi⟩

theorem sub_of_le {a b : ℕ} (h : b ≤ a) : sub a b = .ok (a - b) := if_pos h

theorem add_of_lt {width a b : ℕ} (h : a + b < 2 ^ width) : add width a b = .ok (a + b) := if_pos h

theorem mul_of_lt {width a b : ℕ} (h : a * b < 2 ^ width) : mul width a b = .ok (a * b) := if_pos h

variable {α : Type}

/-- `xs[i]` -/
def index (xs : List α) (i : ℕ) : Except Fault α :=
  match xs[i]? with
  | some x => .ok x
  | none => .error .bounds

/-- `&xs[i..j]` -/
def slice (xs : List α) (i j : ℕ) : Except Fault (List α) :=
  if i ≤ j ∧ j ≤ xs.length then .ok ((xs.take j).drop i) else .error .bounds

/-- The elements `xs[0], …, xs[n - 1]`, one by one. -/
def indices (xs : List α) (n : ℕ) : Except Fault (List α) := (List.range n).mapM (index xs)

/-- Copy a slice into an array of `n` elements. -/
def array (xs : List α) (n : ℕ) : Except Fault (List α) :=
  if xs.length = n then .ok xs else .error .bounds

theorem index_of_lt {xs : List α} {i : ℕ} (h : i < xs.length) : index xs i = .ok xs[i] := by
  rw [index, List.getElem?_eq_getElem h]

theorem slice_of_le {xs : List α} {i j : ℕ} (hij : i ≤ j) (hj : j ≤ xs.length) :
    slice xs i j = .ok ((xs.take j).drop i) := if_pos ⟨hij, hj⟩

theorem array_of_length {xs : List α} {n : ℕ} (h : xs.length = n) : array xs n = .ok xs := if_pos h

theorem indices_take {xs : List α} {n : ℕ} (h : n ≤ xs.length) :
    indices xs n = .ok (xs.take n) := by
  unfold indices
  induction n with
  | zero => rfl
  | succ n ih =>
      rw [List.range_succ, List.mapM_append, ih (by omega)]
      simp only [List.mapM_cons, List.mapM_nil, index_of_lt (show n < xs.length by omega)]
      rw [List.take_add_one, List.getElem?_eq_getElem (by omega)]
      rfl

/-- All elements of a slice of the right length. -/
theorem indices_of_length {xs : List α} {n : ℕ} (h : xs.length = n) : indices xs n = .ok xs := by
  rw [indices_take (Nat.le_of_eq h.symm), ← h, List.take_length]

end Machine
