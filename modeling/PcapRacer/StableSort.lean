/-
**Stable sorting by a key.**

A sort by a key is stable: the elements of one key stand in the order in which they stood before.  A
search for something that only elements of one key satisfy therefore finds the same before and after
sorting.  In particular the first element of the sorted list that satisfies a predicate is the first
one of least key among those that do.

Main definitions:

* `Least` — of least key among the elements that satisfy a predicate.

Main results:

* `filter_insertionSort` — **the elements of one key keep their order**;
* `find?_congr_of_classes` — a search among elements of one key;
* `find?_insertionSort` — what a search of the sorted list finds in the list itself.
-/

import Mathlib.Data.List.Sort

set_option relaxedAutoImplicit false
set_option autoImplicit false

namespace StableSort

variable {α β : Type} [LinearOrder β] {key : α → β} {r : α → α → Prop} [DecidableRel r]

/-! ### Order -/

/-- The list sorted by a relation that compares keys is in the order of the keys. -/
theorem pairwise_key_insertionSort (hr : ∀ a b, r a b ↔ key a ≤ key b) (l : List α) :
    (l.insertionSort r).Pairwise fun a b => key a ≤ key b := by
  have : Std.Total r := ⟨fun a b => by simpa only [hr] using le_total (key a) (key b)⟩
  have : IsTrans α r :=
    ⟨fun a b c hab hbc => (hr a c).mpr (((hr a b).mp hab).trans ((hr b c).mp hbc))⟩
  exact (List.pairwise_insertionSort r l).imp fun h => (hr _ _).mp h

/-- **The elements of one key keep their order.** -/
theorem filter_insertionSort (hr : ∀ a b, r a b ↔ key a ≤ key b) (l : List α) (b : β) :
    (l.insertionSort r).filter (key · = b) = l.filter (key · = b) := by
  have hclass : (l.filter (key · = b)).Pairwise r := by
    refine List.pairwise_of_forall_mem_list fun x hx y hy => ?_
    have hxb : key x = b := by simpa using (List.mem_filter.mp hx).2
    have hyb : key y = b := by simpa using (List.mem_filter.mp hy).2
    exact (hr x y).mpr (hxb.trans hyb.symm).le
  have hsub : (l.filter (key · = b)).Sublist ((l.insertionSort r).filter (key · = b)) := by
    have hsorted := (List.sublist_insertionSort hclass List.filter_sublist).filter (key · = b)
    simpa only [List.filter_filter, Bool.and_self] using hsorted
  exact (hsub.eq_of_length ((List.perm_insertionSort _ l).filter _).length_eq.symm).symm

/-! ### Searches -/

/-- Lists with the same elements of each key have the same elements. -/
theorem mem_iff_of_classes {l l' : List α}
    (h : ∀ b, l.filter (key · = b) = l'.filter (key · = b)) (a : α) : a ∈ l ↔ a ∈ l' := by
  have hclass : ∀ m : List α, a ∈ m ↔ a ∈ m.filter (key · = key a) := fun m => by simp
  rw [hclass l, hclass l', h]

/-- **A search that only elements of one key can satisfy** finds the same in lists with the same
elements of each key. -/
theorem find?_congr_of_classes {l l' : List α}
    (h : ∀ b, l.filter (key · = b) = l'.filter (key · = b)) {p : α → Bool}
    (hp : ∀ x ∈ l, ∀ y ∈ l, p x = true → p y = true → key x = key y) :
    l.find? p = l'.find? p := by
  cases hl : l.find? p with
  | none =>
      refine (List.find?_eq_none.mpr fun x hx => ?_).symm
      exact List.find?_eq_none.mp hl x ((mem_iff_of_classes h x).mpr hx)
  | some a =>
      have ha : a ∈ l := List.mem_of_find?_eq_some hl
      have hpa : p a = true := List.find?_some hl
      -- what satisfies the predicate has the key of `a`
      have hclass : ∀ m : List α, (∀ x, x ∈ m ↔ x ∈ l) →
          m.find? p = (m.filter (key · = key a)).find? p := by
        intro m hm
        rw [← List.head?_filter, ← List.head?_filter, List.filter_filter]
        congr 1
        refine List.filter_congr fun x hx => ?_
        cases hpx : p x with
        | false => rfl
        | true =>
            have hkey := hp x ((hm x).mp hx) a ha hpx hpa
            simp [hkey]
      rw [← hl, hclass l fun x => Iff.rfl, h, ← hclass l' fun x => (mem_iff_of_classes h x).symm]

/-- Of least key among the elements of the list that satisfy the predicate. -/
def Least (key : α → β) (l : List α) (p : α → Bool) (a : α) : Prop :=
  p a = true ∧ ∀ a' ∈ l, p a' = true → key a ≤ key a'

instance (l : List α) (p : α → Bool) (a : α) : Decidable (Least key l p a) :=
  inferInstanceAs (Decidable (_ ∧ _))

/-- In a list in the order of the keys a search finds an element of least key. -/
theorem find?_eq_of_pairwise {l : List α} (h : l.Pairwise fun a b => key a ≤ key b) (p : α → Bool) :
    l.find? p = l.find? fun a => Least key l p a := by
  induction l with
  | nil => rfl
  | cons x l ih =>
      rw [List.pairwise_cons] at h
      by_cases hpx : p x = true
      · have hleast : Least key (x :: l) p x :=
          ⟨hpx, List.forall_mem_cons.mpr ⟨fun _ => le_rfl, fun a' ha' _ => h.1 a' ha'⟩⟩
        rw [List.find?_cons_of_pos hpx, List.find?_cons_of_pos (by simpa using hleast)]
      · have hnot : ¬ Least key (x :: l) p x := fun hleast => hpx hleast.1
        have hrest : ∀ a, Least key (x :: l) p a ↔ Least key l p a := by
          intro a
          simp [Least, hpx]
        rw [List.find?_cons_of_neg hpx, List.find?_cons_of_neg (by simpa using hnot), ih h.2]
        simp only [hrest]

/-- **What a search of the sorted list finds** is the first element of least key among those that
satisfy the predicate. -/
theorem find?_insertionSort (hr : ∀ a b, r a b ↔ key a ≤ key b) (l : List α) (p : α → Bool) :
    (l.insertionSort r).find? p = l.find? fun a => Least key l p a := by
  have hleast : ∀ a, Least key (l.insertionSort r) p a ↔ Least key l p a := by
    intro a
    simp only [Least, List.mem_insertionSort]
  rw [find?_eq_of_pairwise (pairwise_key_insertionSort hr l)]
  simp only [hleast]
  refine find?_congr_of_classes (filter_insertionSort hr l) fun x hx y hy hpx hpy => ?_
  have hlx : Least key l p x := by simpa using hpx
  have hly : Least key l p y := by simpa using hpy
  have hmx : x ∈ l := (List.mem_insertionSort r).mp hx
  have hmy : y ∈ l := (List.mem_insertionSort r).mp hy
  exact le_antisymm (hlx.2 y hmy hly.1) (hly.2 x hmx hlx.1)

end StableSort
