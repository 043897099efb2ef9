/-
**Runs, and the part of them that some inputs make.**

A machine reads inputs of two groups.  What an input reads and writes belongs to its group, so an input
of the one group leaves alone what belongs to the other.  Then the answers to the inputs of a group,
in a run over both, are those of a run over this group only.  Which entries of the state an input
touches may depend on the state; the two machines may differ in how they count and order things, as
long as a view of their answers and a relation of their states do not show it.

Main definitions:

* `SubRun.Grouped` — every input of a run touches its own group only;
* `SubRun.kept`, `SubRun.rowsOf` — the inputs of the first group, and the answers to them;
* `SubRun.Projects` — what one step of either group does;
* `BoundedTable.Restricts` — a table that holds the entries of one group of keys.

Main results:

* `SubRun.Projects.scan` — **a run over both groups projects to a run over one**;
* `BoundedTable.Restricts.insert_own`, `BoundedTable.Restricts.insert_other` — writing an entry of
  either group.
-/

import Mathlib.Data.List.Perm.Subperm
import PcapRacer.BoundedTable
import PcapRacer.ChunkedRun

set_option relaxedAutoImplicit false
set_option autoImplicit false

/-! ### Tables -/

namespace BoundedTable

variable {κ β γ : Type} {P : κ → Prop} {v : β → γ} {t t' : AList fun _ : κ => β} {k : κ} {b b' : β}

/-- `t'` holds the entries of `t` whose keys are in `P`, as far as `v` shows them, and no others. -/
structure Restricts [DecidableEq κ] (P : κ → Prop) (v : β → γ) (t t' : AList fun _ : κ => β) :
    Prop where
  lookup : ∀ k, P k → (t.lookup k).map v = (t'.lookup k).map v
  only : ∀ k ∈ t', P k

variable [DecidableEq κ]

theorem restricts_empty (P : κ → Prop) (v : β → γ) :
    Restricts P v (∅ : AList fun _ : κ => β) ∅ where
  lookup _ _ := rfl
  only k hk := absurd hk (AList.notMem_empty k)

theorem Restricts.mem_iff (h : Restricts P v t t') (hk : P k) : k ∈ t ↔ k ∈ t' := by
  have hsome := congrArg Option.isSome (h.lookup k hk)
  rw [Option.isSome_map, Option.isSome_map] at hsome
  rw [← AList.lookup_isSome, ← AList.lookup_isSome, hsome]

/-- The part is no larger than the whole. -/
theorem Restricts.len_le (h : Restricts P v t t') : len t' ≤ len t := by
  have hsub : t'.keys ⊆ t.keys := by
    intro k hk
    exact AList.mem_keys.mp ((h.mem_iff (h.only k hk)).mpr (AList.mem_keys.mpr hk))
  exact (List.subperm_of_subset t'.keys_nodup hsub).length_le

/-- Where the whole has room, the part has. -/
theorem Restricts.not_refuses (h : Restricts P v t t') (hk : P k) {max : ℕ}
    (hr : ¬ Refuses max t k) : ¬ Refuses max t' k := by
  rintro ⟨hnew, hfull⟩
  exact hr ⟨fun hmem => hnew ((h.mem_iff hk).mp hmem), Nat.le_trans hfull h.len_le⟩

/-- An entry of the group, written into both. -/
theorem Restricts.insert_own (h : Restricts P v t t') (hk : P k) (hb : v b = v b') :
    Restricts P v (t.insert k b) (t'.insert k b') where
  lookup k' hk' := by
    by_cases heq : k' = k
    · subst heq
      rw [AList.lookup_insert, AList.lookup_insert, Option.map_some, Option.map_some, hb]
    · rw [AList.lookup_insert_ne heq, AList.lookup_insert_ne heq]
      exact h.lookup k' hk'
  only k' hk' := by
    rcases (AList.mem_insert t').mp hk' with rfl | hmem
    · exact hk
    · exact h.only k' hmem

/-- An entry of the other group, written into the whole. -/
theorem Restricts.insert_other (h : Restricts P v t t') (hk : ¬ P k) :
    Restricts P v (t.insert k b) t' where
  lookup k' hk' := by
    have hne : k' ≠ k := fun heq => hk (heq ▸ hk')
    rw [AList.lookup_insert_ne hne]
    exact h.lookup k' hk'
  only := h.only

/-- An entry of the group, erased from both. -/
theorem Restricts.erase_own (h : Restricts P v t t') :
    Restricts P v (t.erase k) (t'.erase k) where
  lookup k' hk' := by
    by_cases heq : k' = k
    · subst heq
      rw [AList.lookup_erase, AList.lookup_erase]
    · rw [AList.lookup_erase_ne heq, AList.lookup_erase_ne heq]
      exact h.lookup k' hk'
  only k' hk' := h.only k' (AList.mem_erase.mp hk').2

/-- An entry of the other group, erased from the whole. -/
theorem Restricts.erase_other (h : Restricts P v t t') (hk : ¬ P k) :
    Restricts P v (t.erase k) t' where
  lookup k' hk' := by
    have hne : k' ≠ k := fun heq => hk (heq ▸ hk')
    rw [AList.lookup_erase_ne hne]
    exact h.lookup k' hk'
  only := h.only

end BoundedTable

/-! ### Runs -/

namespace SubRun

open ChunkedRun (scan)

variable {σ σ' α α' β β' γ ε : Type}

/-- Every input of the run is of its group, in the state in which it is read. -/
def Grouped (step : σ → α → Except ε (σ × β)) (Of : Bool → σ → α → Prop) :
    σ → List (Bool × α) → Prop
  | _, [] => True
  | s, (mine, a) :: zs =>
      Of mine s a ∧ ∀ s' b, step s a = .ok (s', b) → Grouped step Of s' zs

/-- The inputs of the first group. -/
def kept (zs : List (Bool × α)) : List α := (zs.filter Prod.fst).map Prod.snd

/-- The answers to the inputs of the first group. -/
def rowsOf (zs : List (Bool × α)) (bs : List β) : List β :=
  ((zs.zip bs).filter fun p => p.1.1).map Prod.snd

@[simp] theorem kept_cons_true (a : α) (zs : List (Bool × α)) :
    kept ((true, a) :: zs) = a :: kept zs := rfl

@[simp] theorem kept_cons_false (a : α) (zs : List (Bool × α)) :
    kept ((false, a) :: zs) = kept zs := rfl

@[simp] theorem rowsOf_cons_true (a : α) (zs : List (Bool × α)) (b : β) (bs : List β) :
    rowsOf ((true, a) :: zs) (b :: bs) = b :: rowsOf zs bs := rfl

@[simp] theorem rowsOf_cons_false (a : α) (zs : List (Bool × α)) (b : β) (bs : List β) :
    rowsOf ((false, a) :: zs) (b :: bs) = rowsOf zs bs := rfl

/-- A run of which every input is kept. -/
theorem kept_all (as : List α) : kept (as.map fun a => (true, a)) = as := by
  induction as with
  | nil => rfl
  | cons a as ih => rw [List.map_cons, kept_cons_true, ih]

theorem rowsOf_all {as : List α} {bs : List β} (h : bs.length = as.length) :
    rowsOf (as.map fun a => (true, a)) bs = bs := by
  induction as generalizing bs with
  | nil => exact (List.length_eq_zero_iff.mp h).symm
  | cons a as ih =>
      obtain ⟨b, bs, rfl⟩ := List.exists_cons_of_length_eq_add_one h
      rw [List.map_cons, rowsOf_cons_true, ih (Nat.succ.inj h)]

theorem grouped_all (step : σ → α → Except ε (σ × β)) (s : σ) (as : List α) :
    Grouped step (fun mine _ _ => mine = true) s (as.map fun a => (true, a)) := by
  induction as generalizing s with
  | nil => trivial
  | cons a as ih => exact ⟨rfl, fun s' _ _ => ih s'⟩

/-- Inputs that are prepared before they are read. -/
theorem kept_map (f : α → α') (zs : List (Bool × α)) :
    kept (zs.map fun z => (z.1, f z.2)) = (kept zs).map f := by
  unfold kept
  rw [List.filter_map, List.map_map, List.map_map]
  rfl

theorem rowsOf_map (f : α → α') (zs : List (Bool × α)) (bs : List β) :
    rowsOf (zs.map fun z => (z.1, f z.2)) bs = rowsOf zs bs := by
  unfold rowsOf
  rw [List.zip_map_left, List.filter_map, List.map_map]
  rfl

/-- What a step of either group does: an input of the first group is answered by the second machine
as by the first, and one of the second group is none of its business.  That holds as long as the first
machine stays `Quiet`, which it cannot become again. -/
structure Projects (step : σ → α → Except ε (σ × β)) (step' : σ' → α' → Except ε (σ' × β'))
    (φ : α → α') (Of : Bool → σ → α → Prop) (Agree : σ → σ' → Prop) (Quiet : σ → Prop)
    (view : β → γ) (view' : β' → γ) : Prop where
  own : ∀ {s s₁ : σ} {s' : σ'} {a : α} {b : β}, Agree s s' → Of true s a →
    step s a = .ok (s₁, b) → Quiet s₁ →
    ∃ s₁' b', step' s' (φ a) = .ok (s₁', b') ∧ view b = view' b' ∧ Agree s₁ s₁'
  other : ∀ {s s₁ : σ} {s' : σ'} {a : α} {b : β}, Agree s s' → Of false s a →
    step s a = .ok (s₁, b) → Quiet s₁ → Agree s₁ s'
  quiet : ∀ {s s₁ : σ} {a : α} {b : β}, step s a = .ok (s₁, b) → Quiet s₁ → Quiet s

variable {step : σ → α → Except ε (σ × β)} {step' : σ' → α' → Except ε (σ' × β')} {φ : α → α'}
  {Of : Bool → σ → α → Prop} {Agree : σ → σ' → Prop} {Quiet : σ → Prop} {view : β → γ}
  {view' : β' → γ}

/-- A run that ends quietly was quiet from the start. -/
theorem Projects.quiet_of_scan (h : Projects step step' φ Of Agree Quiet view view') {s s₁ : σ}
    {as : List α} {bs : List β} (hscan : scan step s as = .ok (s₁, bs)) (hquiet : Quiet s₁) :
    Quiet s := by
  induction as generalizing s bs with
  | nil => cases hscan; exact hquiet
  | cons a as ih =>
      obtain ⟨s₂, b, bs', hstep, hrest, -⟩ := ChunkedRun.exists_of_scan_cons hscan
      exact h.quiet hstep (ih hrest)

/-- **A run over both groups projects to a run over one.** -/
theorem Projects.scan (h : Projects step step' φ Of Agree Quiet view view') {s s₁ : σ} {s' : σ'}
    {zs : List (Bool × α)} {bs : List β} (hagree : Agree s s') (hof : Grouped step Of s zs)
    (hscan : scan step s (zs.map Prod.snd) = .ok (s₁, bs)) (hquiet : Quiet s₁) :
    ∃ s₁' bs', ChunkedRun.scan step' s' ((kept zs).map φ) = .ok (s₁', bs') ∧
      (rowsOf zs bs).map view = bs'.map view' ∧ Agree s₁ s₁' := by
  induction zs generalizing s s' bs with
  | nil =>
      cases hscan
      exact ⟨s', [], rfl, rfl, hagree⟩
  | cons z zs ih =>
      obtain ⟨mine, a⟩ := z
      obtain ⟨s₂, b, bs₂, hstep, hrest, rfl⟩ := ChunkedRun.exists_of_scan_cons hscan
      obtain ⟨hmine, hof⟩ := hof
      have hquiet₂ := h.quiet_of_scan hrest hquiet
      cases mine with
      | true =>
          obtain ⟨s₂', b', hstep', hview, hagree₂⟩ := h.own hagree hmine hstep hquiet₂
          obtain ⟨s₁', bs', hscan', hviews, hagree₁⟩ := ih hagree₂ (hof _ _ hstep) hrest
          refine ⟨s₁', b' :: bs', ?_, ?_, hagree₁⟩
          · rw [kept_cons_true, List.map_cons, ChunkedRun.scan_cons_of_ok hstep', hscan']
            rfl
          · rw [rowsOf_cons_true, List.map_cons, List.map_cons, hview, hviews]
      | false =>
          have hagree₂ := h.other hagree hmine hstep hquiet₂
          rw [kept_cons_false, rowsOf_cons_false]
          exact ih hagree₂ (hof _ _ hstep) hrest

end SubRun
