/-
**Joining column-wise tables.**

A table of many columns, most of them null in most rows, is cut into a core table, which has some
columns of every row, and parts: a part has the columns whose names it takes, and the rows in which
one of them is not null.  Every part repeats the core columns, one of which is a key.

A column of the whole table is found again in the core table or, through the key, in the first part
that takes its name: a row that the part lacks has a null there.

Main definitions:

* `Column.named`, `Column.read` — the first column of a name, and its entry for a record;
* `Column.taken`, `Column.carried` — the columns of a part, and the records that are in it;
* `Column.entry` — an entry of a row by name.

Main results:

* `Column.entry_map` — the entries of a record's row by name;
* `Column.find?_filter_key` — a record is found in a part by its key;
* `Column.read_of_carried` — what a part does not hold is null.
-/

import Mathlib.Data.List.Find
import Mathlib.Data.List.Nodup
import PcapRacer.RecordBatch

set_option relaxedAutoImplicit false
set_option autoImplicit false

namespace Column

variable {κ α ρ : Type} [DecidableEq κ]

/-- The first column of a name. -/
def named (cols : List (Column κ α ρ)) (name : κ) : Option (Column κ α ρ) :=
  cols.find? fun c => decide (c.name = name)

/-- The entry of a record under a name: that of the first column of this name, or null. -/
def read (cols : List (Column κ α ρ)) (name : κ) (r : ρ) : Option α :=
  (named cols name).bind fun c => c.cell r

/-- The entry of a row under a name, where the columns have the given names. -/
def entry (schema : List κ) (row : List (Option α)) (name : κ) : Option α :=
  (schema.idxOf? name).bind fun i => row[i]?.join

/-- The columns whose names are taken. -/
def taken (cols : List (Column κ α ρ)) (takes : κ → Bool) : List (Column κ α ρ) :=
  cols.filter fun c => takes c.name

/-- The record has an entry in one of the columns taken. -/
def carried (cols : List (Column κ α ρ)) (takes : κ → Bool) (r : ρ) : Bool :=
  (taken cols takes).any fun c => (c.cell r).isSome

variable {cols cols' : List (Column κ α ρ)} {name : κ}

theorem named_eq_none_iff : named cols name = none ↔ name ∉ cols.map (·.name) := by
  simp only [named, List.find?_eq_none, List.mem_map, decide_eq_true_eq, not_exists, not_and]

theorem named_append : named (cols ++ cols') name = (named cols name).or (named cols' name) :=
  List.find?_append

/-- **The entries of a record's row**, by name. -/
theorem entry_map (cols : List (Column κ α ρ)) (name : κ) (r : ρ) :
    entry (cols.map (·.name)) (cols.map (·.cell r)) name = read cols name r := by
  induction cols with
  | nil => rfl
  | cons c cols ih =>
      unfold entry read named at ih ⊢
      rw [List.map_cons, List.map_cons, List.idxOf?_cons, List.find?_cons]
      by_cases hname : c.name = name
      · simp [hname]
      · rw [if_neg (by simpa using hname), decide_eq_false hname, ← ih]
        cases (cols.map (·.name)).idxOf? name <;> rfl

/-- Choosing columns by their names finds them again. -/
theorem named_filterMap (names : List κ) :
    named (names.filterMap (named cols)) name = if name ∈ names then named cols name else none := by
  have hname : ∀ {n : κ} {c : Column κ α ρ}, named cols n = some c → c.name = n := fun h => by
    simpa using List.find?_some h
  induction names with
  | nil => rfl
  | cons n names ih =>
      cases hn : named cols n with
      | none =>
          rw [List.filterMap_cons_none hn, ih]
          by_cases heq : name = n
          · subst heq
            simp [hn]
          · simp [heq]
      | some c =>
          rw [List.filterMap_cons_some hn, named, List.find?_cons]
          by_cases heq : name = n
          · subst heq
            simp [hname hn, hn]
          · rw [decide_eq_false fun h => heq (h.symm.trans (hname hn))]
            exact ih.trans (by simp [heq])

section Part

variable {takes : κ → Bool}

/-- A part has the columns whose names it takes. -/
theorem named_taken (h : takes name) : named (taken cols takes) name = named cols name := by
  unfold named taken
  rw [List.find?_filter]
  refine List.find?_congr fun c _ => ?_
  by_cases heq : c.name = name
  · simp [heq, h]
  · simp [heq]

/-- **What a part does not hold is null.** -/
theorem read_of_carried {r : ρ} (h : takes name) (hr : carried cols takes r = false) :
    read cols name r = none := by
  unfold read
  cases hc : named cols name with
  | none => rfl
  | some c =>
      have hname : c.name = name := by simpa using List.find?_some hc
      have hmem : c ∈ taken cols takes :=
        List.mem_filter.mpr ⟨List.mem_of_find?_eq_some hc, by rw [hname]; exact h⟩
      have hnone := List.any_eq_false.mp hr c hmem
      simpa using hnone

omit [DecidableEq κ] in
/-- **A record is found among some of the records by its key**, if the keys differ. -/
theorem find?_filter_key {K : Type} [DecidableEq K] {key : ρ → K} {records : List ρ}
    (hkeys : (records.map key).Nodup) (p : ρ → Bool) {r : ρ} (hr : r ∈ records) :
    (records.filter p).find? (fun r' => decide (key r' = key r)) = if p r then some r else none := by
  have hinj : ∀ r' ∈ records, key r' = key r → r' = r := fun r' hr' h =>
    List.inj_on_of_nodup_map hkeys hr' hr h
  by_cases hp : p r
  · rw [if_pos hp]
    cases hfind : (records.filter p).find? (fun r' => decide (key r' = key r)) with
    | none => exact absurd (List.find?_eq_none.mp hfind r (List.mem_filter.mpr ⟨hr, hp⟩)) (by simp)
    | some r' =>
        have hmem := (List.mem_filter.mp (List.mem_of_find?_eq_some hfind)).1
        rw [hinj r' hmem (by simpa using List.find?_some hfind)]
  · rw [if_neg hp, List.find?_eq_none]
    intro r' hr' heq
    obtain ⟨hmem, hp'⟩ := List.mem_filter.mp hr'
    rw [hinj r' hmem (by simpa using heq)] at hp'
    exact hp hp'

end Part

end Column
