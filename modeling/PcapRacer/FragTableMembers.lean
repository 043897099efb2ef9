/-
**The members of a fragment set.**

The pieces of a set are moved out, sorted, and put back by every push that tries to assemble them,
so the order in which they are kept tells little about the order in which they came.  What a set is
made of is read off the run instead: its members are the fragments that were pushed into it since it
was created, in the order of their arrival.  A set represents its members: it holds their pieces, of
each offset in the order of arrival, the sum of their lengths, and the end of the most recent one
that was the last of its datagram.

Main definitions:

* `FragTable.members` — the members of the set of a key, after a run;
* `lastMfClear` — the most recent member that ends its datagram;
* `FragSet.MadeOf` — the set represents its members.

Main results:

* `FragTable.run_madeOf` — **every set of a run represents its members**;
* `FragTable.len_sets_run_le`, `FragTable.bytesHeld_run_le`, `FragTable.bytesHeld_run_eq` — the
  limits, and the byte count.
-/

import PcapRacer.FragTableSweep

set_option relaxedAutoImplicit false
set_option autoImplicit false

namespace PcapRacer

open BoundedTable (len Refuses)

variable {κ : Type}

/-! ### Members -/

/-- The piece that a fragment adds to its set. -/
def Fragment.piece (g : Fragment κ) : UInt16 × Bytes := (g.offset, g.data)

/-- The fragment covers a position of its datagram. -/
def Fragment.Covers (g : Fragment κ) (i : ℕ) : Prop := g.offset.toNat ≤ i ∧ i < g.stop

instance (g : Fragment κ) (i : ℕ) : Decidable (g.Covers i) := inferInstanceAs (Decidable (_ ∧ _))

/-- The byte that a fragment carries at a position. -/
def Fragment.byteAt (g : Fragment κ) (i : ℕ) : Option UInt8 := g.data[i - g.offset.toNat]?

/-- The most recent fragment that ends its datagram. -/
def lastMfClear (members : List (Fragment κ)) : Option (Fragment κ) :=
  (members.filter fun g => !g.moreFragments).getLast?

theorem lastMfClear_concat (members : List (Fragment κ)) (g : Fragment κ) :
    lastMfClear (members ++ [g]) = if g.moreFragments then lastMfClear members else some g := by
  unfold lastMfClear
  rw [List.filter_append]
  cases h : g.moreFragments <;> simp [h]

namespace FragSet

/-- The set represents its members. -/
structure MadeOf (set : FragSet) (members : List (Fragment κ)) : Prop where
  perm : set.pieces.Perm (members.map Fragment.piece)
  /-- The pieces of one offset are in the order of their arrival. -/
  order : ∀ o, set.pieces.filter (·.1.toNat = o) =
    (members.map Fragment.piece).filter (·.1.toNat = o)
  totalLen : set.totalLen = (lastMfClear members).map Fragment.stop
  bytesHeld : set.bytesHeld = (members.map fun g => g.data.length).sum

theorem MadeOf.empty : MadeOf {} ([] : List (Fragment κ)) :=
  { perm := .nil, order := fun _ => rfl, totalLen := rfl, bytesHeld := rfl }

/-- Recording a fragment makes it a member. -/
theorem MadeOf.record {set : FragSet} {members : List (Fragment κ)} (h : set.MadeOf members)
    (g : Fragment κ) : (set.record g.offset g.moreFragments g.data).MadeOf (members ++ [g]) where
  perm := by
    rw [List.map_append]
    exact h.perm.append_right _
  order o := by
    have hcat : (set.record g.offset g.moreFragments g.data).pieces = set.pieces ++ [g.piece] := rfl
    rw [hcat, List.map_append, List.filter_append, List.filter_append, h.order o]
    rfl
  totalLen := by
    rw [lastMfClear_concat, FragSet.record]
    cases g.moreFragments
    · rfl
    · exact h.totalLen
  bytesHeld := by
    rw [List.map_append, List.sum_append, FragSet.record, ← h.bytesHeld]
    simp

/-- The pieces that are put back are the same, sorted. -/
theorem MadeOf.sorted {set : FragSet} {members : List (Fragment κ)} (h : set.MadeOf members) :
    MadeOf { set with pieces := set.pieces.insertionSort byOffset } members :=
  { h with
    perm := (List.perm_insertionSort byOffset set.pieces).trans h.perm
    order := fun o => (StableSort.filter_insertionSort byOffset_iff set.pieces o).trans (h.order o) }

/-- A set that waits has its old members. -/
theorem MadeOf.of_waiting {set set' : FragSet} {members : List (Fragment κ)}
    (h : set.MadeOf members) (hw : set.tryComplete = .waiting set') : set'.MadeOf members := by
  unfold tryComplete at hw
  split at hw
  · cases hw
    exact h
  · dsimp only at hw
    split at hw
    · cases hw
      exact h.sorted
    · split at hw
      · cases hw
        exact h.sorted
      · cases hw

/-- A set that waits has its old pieces. -/
theorem perm_of_waiting {set set' : FragSet} (hw : set.tryComplete = .waiting set') :
    set'.pieces.Perm set.pieces := by
  unfold tryComplete at hw
  split at hw
  · cases hw
    exact .refl _
  · dsimp only at hw
    split at hw
    · cases hw
      exact List.perm_insertionSort byOffset _
    · split at hw
      · cases hw
        exact List.perm_insertionSort byOffset _
      · cases hw

/-- Trying to assemble neither finds a set over its budget nor makes it bigger. -/
theorem tryComplete_ne_overBudget (set : FragSet) : set.tryComplete ≠ .overBudget := by
  unfold tryComplete
  split
  · exact fun h => by cases h
  · dsimp only
    split
    · exact fun h => by cases h
    · split <;> exact fun h => by cases h

/-- A fragment that is added to a set and leaves it waiting is within the budget. -/
theorem add_eq_waiting {set set' : FragSet} {maxBytes : ℕ} {g : Fragment κ}
    (h : set.add maxBytes g.offset g.moreFragments g.data = .waiting set') :
    set.bytesHeld + g.data.length ≤ maxBytes ∧
      (set.record g.offset g.moreFragments g.data).tryComplete = .waiting set' := by
  unfold add at h
  split at h
  · cases h
  · next hb => exact ⟨Nat.le_of_not_lt hb, h⟩

end FragSet

namespace FragTable

variable [DecidableEq κ]

/-- The members of the set of a key after one more push: none when there is no such set any more,
and one more when the fragment is for that key. -/
def membersStep (t : FragTable κ) (key : κ) (members : List (Fragment κ)) (g : Fragment κ) :
    List (Fragment κ) :=
  if key ∈ (t.pushFragment g).2.sets then
    if g.key = key then members ++ [g] else members
  else []

/-- The members of the set of a key after a run, from a table whose set has the given ones. -/
def membersFrom (t : FragTable κ) (key : κ) (members : List (Fragment κ)) :
    List (Fragment κ) → List (Fragment κ)
  | [] => members
  | g :: frags =>
      membersFrom (t.pushFragment g).2 key (t.membersStep key members g) frags

/-- **The members of the set of a key**: the fragments pushed into it since it was created. -/
def members (maxSets maxBytes : ℕ) (key : κ) (frags : List (Fragment κ)) : List (Fragment κ) :=
  membersFrom (new maxSets maxBytes) key [] frags

theorem membersFrom_concat (t : FragTable κ) (key : κ) (members frags : List (Fragment κ))
    (g : Fragment κ) :
    t.membersFrom key members (frags ++ [g]) =
      (t.run frags).membersStep key (t.membersFrom key members frags) g := by
  induction frags generalizing t members with
  | nil => rfl
  | cons g' frags ih => exact ih _ _

/-! ### Every set represents its members -/

/-- What a push leaves under its own key. -/
theorem lookup_pushFragment_self {t : FragTable κ} {g : Fragment κ}
    (hr : ¬ Refuses t.maxSets t.sets g.key) {set : FragSet}
    (h : (t.entry g.key).add t.maxBytes g.offset g.moreFragments g.data = .waiting set) :
    (t.pushFragment g).2.sets.lookup g.key = some set := by
  rw [pushFragment, push_of_admits hr, h]
  exact AList.lookup_insert _

/-- A push that leaves a set under its own key found one that waits. -/
theorem waiting_of_mem_pushFragment {t : FragTable κ} {g : Fragment κ}
    (h : g.key ∈ (t.pushFragment g).2.sets) :
    ∃ set, (t.entry g.key).add t.maxBytes g.offset g.moreFragments g.data = .waiting set ∧
      ¬ Refuses t.maxSets t.sets g.key := by
  by_cases hr : Refuses t.maxSets t.sets g.key
  · rw [pushFragment, push_of_refuses hr] at h
    exact absurd h hr.1
  · rw [pushFragment, push_of_admits hr] at h
    cases ho : (t.entry g.key).add t.maxBytes g.offset g.moreFragments g.data with
    | overBudget =>
        rw [ho, settle, AList.mem_erase] at h
        exact absurd rfl h.1
    | waiting set => exact ⟨set, rfl, hr⟩
    | complete out =>
        rw [ho, settle, AList.mem_erase] at h
        exact absurd rfl h.1

/-- **One push keeps the representation.** -/
theorem pushFragment_madeOf {t : FragTable κ} {key : κ} {members : List (Fragment κ)}
    (h : (t.entry key).MadeOf members) (g : Fragment κ) :
    ((t.pushFragment g).2.entry key).MadeOf (t.membersStep key members g) := by
  unfold membersStep
  by_cases hmem : key ∈ (t.pushFragment g).2.sets
  · rw [if_pos hmem]
    by_cases hkey : g.key = key
    · subst hkey
      rw [if_pos rfl]
      obtain ⟨set, hadd, hr⟩ := waiting_of_mem_pushFragment hmem
      rw [entry, lookup_pushFragment_self hr hadd, Option.getD_some]
      exact (h.record g).of_waiting (FragSet.add_eq_waiting hadd).2
    · rw [if_neg hkey, entry, lookup_push_of_ne t g fun he => hkey he.symm]
      exact h
  · rw [if_neg hmem, entry_of_not_mem hmem]
    exact .empty

/-- **Every set of a run represents its members.** -/
theorem run_madeOf (maxSets maxBytes : ℕ) (key : κ) (frags : List (Fragment κ)) :
    (((new maxSets maxBytes).run frags).entry key).MadeOf (members maxSets maxBytes key frags) := by
  induction frags using List.reverseRecOn with
  | nil => exact .empty
  | append_singleton frags g ih =>
      rw [run_concat, members, membersFrom_concat]
      exact pushFragment_madeOf ih g

/-! ### Limits -/

/-- A push keeps the number of sets within its limit. -/
theorem len_pushFragment_le_maxSets {t : FragTable κ} (h : len t.sets ≤ t.maxSets)
    (g : Fragment κ) :
    len (t.pushFragment g).2.sets ≤ t.maxSets := by
  by_cases hr : Refuses t.maxSets t.sets g.key
  · rw [pushFragment, push_of_refuses hr]
    exact h
  · rw [pushFragment, push_of_admits hr]
    cases (t.entry g.key).add t.maxBytes g.offset g.moreFragments g.data with
    | overBudget => exact (BoundedTable.len_erase_le _ _).trans h
    | waiting set => exact BoundedTable.len_insert_le hr h
    | complete out => exact (BoundedTable.len_erase_le _ _).trans h

theorem len_sets_run_le (maxSets maxBytes : ℕ) (frags : List (Fragment κ)) :
    len ((new maxSets maxBytes : FragTable κ).run frags).sets ≤ maxSets := by
  induction frags using List.reverseRecOn with
  | nil => exact Nat.zero_le _
  | append_singleton frags g ih =>
      rw [run_concat]
      have hmax : ((new maxSets maxBytes : FragTable κ).run frags).maxSets = maxSets :=
        run_maxSets _ _
      have hpush := len_pushFragment_le_maxSets (by rw [hmax]; exact ih) g
      rwa [hmax] at hpush

/-- Every set stays within the byte budget. -/
theorem bytesHeld_run_le (maxSets maxBytes : ℕ) (key : κ) (frags : List (Fragment κ)) :
    (((new maxSets maxBytes).run frags).entry key).bytesHeld ≤ maxBytes := by
  induction frags using List.reverseRecOn with
  | nil => exact Nat.zero_le _
  | append_singleton frags g ih =>
      rw [run_concat]
      by_cases hmem : key ∈ (((new maxSets maxBytes).run frags).pushFragment g).2.sets
      · by_cases hkey : g.key = key
        · subst hkey
          obtain ⟨set, hadd, hr⟩ := waiting_of_mem_pushFragment hmem
          obtain ⟨hbudget, hwait⟩ := FragSet.add_eq_waiting hadd
          have hheld := (((run_madeOf maxSets maxBytes g.key frags).record g).of_waiting
            hwait).bytesHeld
          rw [← ((run_madeOf maxSets maxBytes g.key frags).record g).bytesHeld] at hheld
          rw [entry, lookup_pushFragment_self hr hadd, Option.getD_some, hheld]
          rw [run_maxBytes] at hbudget
          exact hbudget
        · rw [entry, lookup_push_of_ne _ g fun he => hkey he.symm]
          exact ih
      · rw [entry_of_not_mem hmem]
        exact Nat.zero_le _

/-- The byte count of a set is the sum over its pieces. -/
theorem bytesHeld_run_eq (maxSets maxBytes : ℕ) (key : κ) (frags : List (Fragment κ)) :
    (((new maxSets maxBytes).run frags).entry key).bytesHeld =
      ((((new maxSets maxBytes).run frags).entry key).pieces.map fun q => q.2.length).sum := by
  have hmade := run_madeOf maxSets maxBytes key frags
  rw [hmade.bytesHeld, (hmade.perm.map _).sum_eq, List.map_map]
  rfl

end FragTable

end PcapRacer
