/-
**Keyed tables with a capacity.**

A hash map is modelled by Mathlib's association list `AList`, whose entries have distinct keys by
construction.  The order of the entries carries no meaning: a hash map promises none either.  This
module adds the one notion `AList` lacks, the number of entries, and the admission rule that every
bounded table of a streaming program follows: a key that is already present is always served, a
new key only while there is room.

Main definitions:

* `BoundedTable.len` — the number of entries;
* `BoundedTable.Refuses` — a new key meets a full table;
* `BoundedTable.mapValues` — other values under the same keys.

Main results:

* `BoundedTable.len_insert` — what an insertion does to the size;
* `BoundedTable.len_insert_le` — **admission keeps the bound**;
* `BoundedTable.mapValues_insert`, `BoundedTable.lookup_mapValues` — what inserts and lookups do under
  other values.
-/

import Mathlib.Data.List.AList

set_option relaxedAutoImplicit false
set_option autoImplicit false

namespace BoundedTable

variable {κ β : Type}

/-- The number of entries of a table. -/
def len (t : AList fun _ : κ => β) : ℕ := t.keys.length

@[simp] theorem len_empty : len (∅ : AList fun _ : κ => β) = 0 := rfl

/-- The entries of a table, without their keys. -/
def values (t : AList fun _ : κ => β) : List β := t.entries.map Sigma.snd

/-- The table holds no entry for `k` and has no room for one. -/
def Refuses (max : ℕ) (t : AList fun _ : κ => β) (k : κ) : Prop := k ∉ t ∧ max ≤ len t

theorem not_refuses_of_mem {max : ℕ} {t : AList fun _ : κ => β} {k : κ} (h : k ∈ t) :
    ¬ Refuses max t k := fun hr => hr.1 h

theorem not_refuses_of_lt {max : ℕ} {t : AList fun _ : κ => β} {k : κ} (h : len t < max) :
    ¬ Refuses max t k := fun hr => absurd hr.2 (by omega)

/-- A table that holds no key but this one has room for it. -/
theorem not_refuses_of_only {κ β : Type} {max : ℕ} {t : AList fun _ : κ => β} {k : κ}
    (hmax : 0 < max) (honly : ∀ k' ∈ t, k' = k) : ¬ Refuses max t k := by
  intro hr
  have hempty : t.keys = [] := List.eq_nil_iff_forall_not_mem.mpr fun k' hk' =>
    hr.1 (honly k' (AList.mem_keys.mpr hk') ▸ AList.mem_keys.mpr hk')
  have hle := hr.2
  rw [len, hempty, List.length_nil] at hle
  omega

/-- A present key is one whose lookup succeeds. -/
theorem mem_of_lookup [DecidableEq κ] {t : AList fun _ : κ => β} {k : κ} {b : β}
    (h : t.lookup k = some b) : k ∈ t := AList.lookup_isSome.1 (by rw [h]; rfl)

section Updates

variable [DecidableEq κ]

instance (max : ℕ) (t : AList fun _ : κ => β) (k : κ) : Decidable (Refuses max t k) :=
  inferInstanceAs (Decidable (_ ∧ _))

/-- An update of a present key keeps the size, a new key adds one. -/
theorem len_insert (t : AList fun _ : κ => β) (k : κ) (b : β) :
    len (t.insert k b) = if k ∈ t then len t else len t + 1 := by
  rw [len, AList.keys_insert, List.length_cons]
  split
  · next h =>
      have hpos : 0 < t.keys.length := List.length_pos_of_mem (AList.mem_keys.1 h)
      rw [List.length_erase_of_mem (AList.mem_keys.1 h), len]
      omega
  · next h => rw [List.erase_of_not_mem fun hk => h (AList.mem_keys.2 hk), len]

theorem len_insert_le_succ (t : AList fun _ : κ => β) (k : κ) (b : β) :
    len (t.insert k b) ≤ len t + 1 := by
  rw [len_insert]
  split <;> omega

theorem len_erase_le (t : AList fun _ : κ => β) (k : κ) : len (t.erase k) ≤ len t := by
  rw [len, AList.keys_erase, len]
  exact List.length_erase_le

/-! ### Values -/

/-- An insert puts the new value in place of what stood under the key. -/
theorem values_insert (t : AList fun _ : κ => β) (k : κ) (b : β) :
    values (t.insert k b) = b :: values (t.erase k) := by
  rw [values, AList.entries_insert]
  rfl

theorem values_perm_of_lookup {t : AList fun _ : κ => β} {k : κ} {b : β}
    (h : t.lookup k = some b) : (values t).Perm (b :: values (t.erase k)) := by
  obtain ⟨b', l₁, l₂, -, heq, herase⟩ :=
    List.exists_of_kerase (AList.mem_keys.1 (mem_of_lookup h))
  have hmem : (⟨k, b'⟩ : Sigma fun _ : κ => β) ∈ t.entries := by simp [heq]
  have hbb' : b' = b := by
    have := AList.mem_lookup_iff.2 hmem
    rw [h] at this
    exact (Option.some_inj.1 this).symm
  subst hbb'
  have her : (t.erase k).entries = l₁ ++ l₂ := herase
  rw [values, values, heq, her]
  exact (List.perm_middle (a := (⟨k, b'⟩ : Sigma fun _ : κ => β))).map Sigma.snd

theorem values_erase_of_not_mem {t : AList fun _ : κ => β} {k : κ} (h : k ∉ t) :
    values (t.erase k) = values t := by
  have her : (t.erase k).entries = t.entries :=
    List.kerase_of_notMem_keys fun hk => h (AList.mem_keys.2 hk)
  rw [values, her, values]

/-- The values are what lookups find. -/
theorem mem_values_iff {t : AList fun _ : κ => β} {b : β} :
    b ∈ values t ↔ ∃ k, t.lookup k = some b := by
  rw [values, List.mem_map]
  constructor
  · rintro ⟨⟨k, b'⟩, hmem, rfl⟩
    exact ⟨k, AList.mem_lookup_iff.2 hmem⟩
  · rintro ⟨k, hk⟩
    exact ⟨⟨k, b⟩, AList.mem_lookup_iff.1 hk, rfl⟩

/-! ### Other values under the same keys -/

section Map

variable {γ : Type} (f : β → γ)

/-- The table with other values under the same keys. -/
def mapValues (t : AList fun _ : κ => β) : AList fun _ : κ => γ where
  entries := t.entries.map (.map id fun _ => f)
  nodupKeys := by
    rw [List.NodupKeys, List.keys, List.map_map]
    exact t.nodupKeys

omit [DecidableEq κ] in
theorem keys_mapValues (t : AList fun _ : κ => β) : (mapValues f t).keys = t.keys := by
  change (t.entries.map (.map id fun _ => f) : List (Σ _ : κ, γ)).keys = t.entries.keys
  simp only [List.keys, List.map_map]
  rfl

omit [DecidableEq κ] in
theorem values_mapValues (t : AList fun _ : κ => β) :
    values (mapValues f t) = (values t).map f := by
  change (t.entries.map (.map id fun _ => f) : List (Σ _ : κ, γ)).map Sigma.snd = _
  rw [values, List.map_map, List.map_map]
  rfl

theorem lookup_mapValues (t : AList fun _ : κ => β) (k : κ) :
    (mapValues f t).lookup k = (t.lookup k).map f := List.dlookup_map₂ k

omit [DecidableEq κ] in
theorem refuses_mapValues (max : ℕ) (t : AList fun _ : κ => β) (k : κ) :
    Refuses max (mapValues f t) k ↔ Refuses max t k := by
  rw [Refuses, Refuses, AList.mem_keys, AList.mem_keys, len, len, keys_mapValues]

theorem mapValues_insert (t : AList fun _ : κ => β) (k : κ) (b : β) :
    mapValues f (t.insert k b) = (mapValues f t).insert k (f b) := by
  apply AList.ext
  rw [AList.entries_insert]
  change (t.insert k b).entries.map _ = _
  rw [AList.entries_insert, List.map_cons, List.kerase, List.kerase]
  change _ = (⟨k, f b⟩ : Σ _ : κ, γ) ::
    List.eraseP (fun s => decide (k = s.1)) (t.entries.map (.map id fun _ => f))
  rw [List.eraseP_map]
  rfl

end Map

/-- **Admission keeps the bound**: a table that stays within its capacity does so after an insert
that was not refused. -/
theorem len_insert_le {max : ℕ} {t : AList fun _ : κ => β} {k : κ} {b : β}
    (hr : ¬ Refuses max t k) (h : len t ≤ max) : len (t.insert k b) ≤ max := by
  rw [len_insert]
  split
  · exact h
  · next hk =>
      have : ¬ max ≤ len t := fun hm => hr ⟨hk, hm⟩
      omega

end Updates

end BoundedTable
