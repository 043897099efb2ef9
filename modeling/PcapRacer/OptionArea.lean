/-
**Areas of options.**

Many formats end in an area of options: each says itself how long it is, and the area stops at a
mark, at its own end, or at an option that does not fit any more.  A layout says how one option is
written and how the front of an area is read; that the two belong together is part of the layout.

From that alone, every area is a row of options and an ending, and a walk with a limit reads the
options up to the limit and nothing of the ending.

Main definitions:

* `OptionLayout` — how options are written and read;
* `OptionLayout.walk` — reading options, at most so many of them;
* `OptionLayout.lastSaid` — what the last option that says anything says.

Main results:

* `OptionLayout.walk_area` — **a walk reads back the options of an area**, up to the limit;
* `OptionLayout.exists_area` — every area is a row of options and an ending;
* `OptionLayout.lastSaid_concat` — what one more option says goes before what was said.
-/

import Mathlib.Data.List.Induction

set_option relaxedAutoImplicit false
set_option autoImplicit false

/-- How options are written and how the front of an area is read; `front` gives the first option
and what stands behind it, or nothing when the area stops. -/
structure OptionLayout (β ι : Type) where
  bytes : ι → List β
  front : List β → Option (ι × List β)
  bytes_ne_nil : ∀ i, bytes i ≠ []
  front_bytes : ∀ i rest, front (bytes i ++ rest) = some (i, rest)
  eq_of_front : ∀ {area rest : List β} {i : ι}, front area = some (i, rest) → area = bytes i ++ rest

namespace OptionLayout

variable {β ι : Type} (L : OptionLayout β ι)

/-- Some options, and what ends the area. -/
def area (items : List ι) (ending : List β) : List β := items.flatMap L.bytes ++ ending

/-- Read options, at most so many of them. -/
def walk : ℕ → List β → List ι
  | 0, _ => []
  | n + 1, area =>
      match L.front area with
      | none => []
      | some (i, rest) => i :: walk n rest

variable {L}

theorem walk_of_front_none {area : List β} (h : L.front area = none) (n : ℕ) :
    L.walk n area = [] := by
  cases n with
  | zero => rfl
  | succ n => rw [walk, h]

theorem walk_of_front_some {area rest : List β} {i : ι} (h : L.front area = some (i, rest)) (n : ℕ) :
    L.walk (n + 1) area = i :: L.walk n rest := by
  rw [walk, h]

/-- **A walk reads back the options of an area**, up to the limit, whatever ends it. -/
theorem walk_area (items : List ι) {ending : List β} (h : L.front ending = none) (n : ℕ) :
    L.walk n (L.area items ending) = items.take n := by
  induction items generalizing n with
  | nil => rw [area, List.flatMap_nil, List.nil_append, walk_of_front_none h, List.take_nil]
  | cons i items ih =>
      cases n with
      | zero => rfl
      | succ n =>
          have hfront : L.front (L.area (i :: items) ending) = some (i, L.area items ending) := by
            rw [area, List.flatMap_cons, List.append_assoc]
            exact L.front_bytes i _
          rw [walk_of_front_some hfront, ih, List.take_succ_cons]

/-- **Every area is a row of options and an ending.** -/
theorem exists_area (L : OptionLayout β ι) (b : List β) :
    ∃ items ending, b = L.area items ending ∧ L.front ending = none := by
  induction hlen : b.length using Nat.strongRecOn generalizing b with
  | ind n ih =>
    cases hfront : L.front b with
    | none => exact ⟨[], b, rfl, hfront⟩
    | some r =>
        obtain ⟨i, rest⟩ := r
        have hb := L.eq_of_front hfront
        have hpos := List.length_pos_iff.mpr (L.bytes_ne_nil i)
        have hlt : rest.length < n := by
          rw [← hlen, hb, List.length_append]
          omega
        obtain ⟨items, ending, hrest, hend⟩ := ih rest.length hlt rest rfl
        refine ⟨i :: items, ending, ?_, hend⟩
        rw [hb, hrest, area, area, List.flatMap_cons, List.append_assoc]

/-! ### What options say -/

variable {α : Type}

/-- What the last option that says anything says. -/
def lastSaid (f : ι → Option α) (items : List ι) : Option α := (items.filterMap f).getLast?

@[simp] theorem lastSaid_nil (f : ι → Option α) : lastSaid f [] = none := rfl

@[simp] theorem lastSaid_concat (f : ι → Option α) (items : List ι) (i : ι) :
    lastSaid f (items ++ [i]) = (f i).or (lastSaid f items) := by
  unfold lastSaid
  cases hf : f i <;> simp [hf]

/-- Writing what an option says over what was said before it. -/
theorem getD_or_getD (a b : Option α) (v : α) : (a.or b).getD v = a.getD (b.getD v) := by
  cases a <;> rfl

end OptionLayout
