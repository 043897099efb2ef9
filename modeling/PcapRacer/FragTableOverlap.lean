/-
**Overlapping fragments.**

Fragments of one datagram may overlap, contradict each other and reach past its end.  This module
says what the table makes of them, in terms of the members of a set.

*Soundness*: whatever is pushed, the limits hold, nothing is lost or added between pushes, and every
byte that comes out was pushed at its position.

*First copy*: a byte comes from the covering member of least offset.  That is the member that
covered its position first, or one that says the same, unless a later fragment starts before an
earlier one that it overlaps, and contradicts it.

*Completion*: a set completes when it covers its datagram, unless a stray member starts behind a
gap; then the sweep takes the gap for a hole in the datagram.

Main definitions:

* `Fragment.earliest`, `Fragment.lowest` — two ways to choose among the members that cover a
  position;
* `FullyCovered`, `NoStray` — the members cover their datagram, and none starts behind a gap.

Main results:

* `FragTable.push_sound` — **what the table holds and hands out**, in every run;
* `FragTable.push_first_copy_iff` — **the first copy wins exactly when the earliest and the lowest
  covering members agree**;
* `FragTable.push_completes_iff` — **a push completes covered datagrams exactly when no stray member
  starts behind a gap**.
-/

import PcapRacer.FragTableMembers

set_option relaxedAutoImplicit false
set_option autoImplicit false

namespace PcapRacer

open BoundedTable (len Refuses)

variable {κ : Type}

/-! ### Members at a position -/

/-- The earliest member that covers a position. -/
def Fragment.earliest (members : List (Fragment κ)) (i : ℕ) : Option (Fragment κ) :=
  members.find? (·.Covers i)

/-- The member of least offset that covers a position; the earliest one of these. -/
def Fragment.lowest (members : List (Fragment κ)) (i : ℕ) : Option (Fragment κ) :=
  members.find? fun g => g.Covers i ∧ ∀ g' ∈ members, g'.Covers i → g.offset.toNat ≤ g'.offset.toNat

/-- A fragment that ends the datagram has been seen, and every position before the end of the most
recent one is in some member. -/
def FullyCovered (members : List (Fragment κ)) : Prop :=
  ∃ last, lastMfClear members = some last ∧ ∀ i < last.stop, ∃ g ∈ members, g.Covers i

/-- No member starts behind a gap: every position before its start is in some member. -/
def NoStray (members : List (Fragment κ)) : Prop :=
  ∀ g ∈ members, ∀ i < g.offset.toNat, ∃ g' ∈ members, g'.Covers i

instance (members : List (Fragment κ)) : Decidable (FullyCovered members) :=
  decidable_of_iff (∃ last ∈ lastMfClear members, ∀ i < last.stop, ∃ g ∈ members, g.Covers i) Iff.rfl

instance (members : List (Fragment κ)) : Decidable (NoStray members) :=
  inferInstanceAs (Decidable (∀ g ∈ members, ∀ i < g.offset.toNat, ∃ g' ∈ members, g'.Covers i))

theorem coveredBelow_map_piece (members : List (Fragment κ)) (n : ℕ) :
    FragSet.CoveredBelow (members.map Fragment.piece) n ↔ ∀ i < n, ∃ g ∈ members, g.Covers i := by
  simp only [FragSet.CoveredBelow, List.mem_map, exists_exists_and_eq_and]
  exact Iff.rfl

theorem gapless_map_piece (members : List (Fragment κ)) :
    FragSet.Gapless (members.map Fragment.piece) ↔ NoStray members := by
  simp only [FragSet.Gapless, NoStray, List.forall_mem_map, coveredBelow_map_piece]
  exact Iff.rfl

/-- **A set is complete exactly when its members cover the datagram and none of them starts behind a
gap.** -/
theorem FragSet.MadeOf.complete_iff {set : FragSet} {members : List (Fragment κ)}
    (h : set.MadeOf members) :
    (∃ out, set.tryComplete = .complete out) ↔ FullyCovered members ∧ NoStray members := by
  have hmem : ∀ q, q ∈ set.pieces ↔ q ∈ members.map Fragment.piece := fun q => h.perm.mem_iff
  have hiff := FragSet.complete_iff set
  simp only [FragSet.CoveredBelow.congr hmem, FragSet.Gapless.congr hmem, gapless_map_piece,
    coveredBelow_map_piece, h.totalLen, Option.map_eq_some_iff] at hiff
  rw [hiff]
  constructor
  · rintro ⟨total, ⟨last, hlast, rfl⟩, hcov, hstray⟩
    exact ⟨⟨last, hlast, hcov⟩, hstray⟩
  · rintro ⟨⟨last, hlast, hcov⟩, hstray⟩
    exact ⟨last.stop, ⟨last, hlast, rfl⟩, hcov, hstray⟩

/-- The lowest piece of the members is the piece of the lowest member. -/
theorem lowest_map_piece (members : List (Fragment κ)) (i : ℕ) :
    FragSet.lowest (members.map Fragment.piece) i =
      (Fragment.lowest members i).map Fragment.piece := by
  unfold FragSet.lowest Fragment.lowest
  rw [List.find?_map]
  simp only [List.forall_mem_map]
  rfl

namespace FragSet

/-- The lowest piece of a set is that of its lowest member. -/
theorem MadeOf.lowest_eq {set : FragSet} {members : List (Fragment κ)} (h : set.MadeOf members)
    (i : ℕ) : lowest set.pieces i = (Fragment.lowest members i).map Fragment.piece := by
  rw [← lowest_map_piece]
  unfold lowest
  simp only [h.perm.mem_iff]
  refine StableSort.find?_congr_of_classes h.order fun q hq q' hq' hp hp' => ?_
  -- two pieces of least offset have the same offset
  rw [decide_eq_true_eq] at hp hp'
  exact le_antisymm (hp.2 q' (h.perm.mem_iff.mp hq') hp'.1) (hp'.2 q (h.perm.mem_iff.mp hq) hp.1)

end FragSet

/-! ### Three theorems about a run -/

namespace FragTable

variable [DecidableEq κ]

/-- A push that is accepted tries to assemble the set with the new piece. -/
theorem pushFragment_of_accepts {t : FragTable κ} {g : Fragment κ} (h : t.Accepts g) :
    t.pushFragment g = t.settle g.key
      ((t.entry g.key).record g.offset g.moreFragments g.data).tryComplete := by
  rw [pushFragment, push_of_admits h.1, FragSet.add, if_neg (Nat.not_lt.mpr h.2)]

/-- What is handed out comes from a complete set. -/
theorem complete_of_push {t : FragTable κ} {g : Fragment κ} {out : Bytes}
    (h : (t.pushFragment g).1 = some out) :
    ((t.entry g.key).record g.offset g.moreFragments g.data).tryComplete = .complete out := by
  by_cases hacc : t.Accepts g
  · rw [pushFragment_of_accepts hacc] at h
    cases ho : ((t.entry g.key).record g.offset g.moreFragments g.data).tryComplete with
    | overBudget => rw [ho] at h; cases h
    | waiting set => rw [ho] at h; cases h
    | complete out' => rw [ho] at h; cases h; rfl
  · by_cases hr : Refuses t.maxSets t.sets g.key
    · rw [pushFragment, push_of_refuses hr] at h
      cases h
    · have hover : t.maxBytes < (t.entry g.key).bytesHeld + g.data.length :=
        Nat.lt_of_not_le fun hle => hacc ⟨hr, hle⟩
      rw [pushFragment, push_of_admits hr, FragSet.add, if_pos hover] at h
      cases h

/-- The bytes that are handed out come from the lowest members. -/
theorem getElem?_of_push {maxSets maxBytes : ℕ} {frags : List (Fragment κ)} {g : Fragment κ}
    {out : Bytes} (h : (((new maxSets maxBytes).run frags).pushFragment g).1 = some out) :
    (∃ last, lastMfClear (members maxSets maxBytes g.key frags ++ [g]) = some last ∧
      out.length = last.stop) ∧
    ∀ i < out.length, ∃ m,
      Fragment.lowest (members maxSets maxBytes g.key frags ++ [g]) i = some m ∧
        out[i]? = m.byteAt i := by
  have hmade := (run_madeOf maxSets maxBytes g.key frags).record g
  obtain ⟨htotal, hbytes⟩ := FragSet.getElem?_of_complete (complete_of_push h)
  refine ⟨?_, fun i hi => ?_⟩
  · obtain ⟨last, hlast, hstop⟩ := Option.map_eq_some_iff.mp (hmade.totalLen.symm.trans htotal)
    exact ⟨last, hlast, hstop.symm⟩
  · obtain ⟨q, hq, hbyte⟩ := hbytes i hi
    obtain ⟨m, hm, rfl⟩ := Option.map_eq_some_iff.mp ((hmade.lowest_eq i).symm.trans hq)
    exact ⟨m, hm, hbyte⟩

/-- **What the table holds and hands out**, after any pushes: it is within its limits and counts its
bytes; a fragment that it takes without handing anything out is one more piece; and what it hands
out ends where the most recent last fragment does, each byte being one that was pushed there. -/
theorem push_sound (maxSets maxBytes : ℕ) (frags : List (Fragment κ)) (g : Fragment κ) :
    len (((new maxSets maxBytes).run frags).pushFragment g).2.sets ≤ maxSets ∧
    (∀ key set, (((new maxSets maxBytes).run frags).pushFragment g).2.sets.lookup key = some set →
      set.bytesHeld = (set.pieces.map fun q => q.2.length).sum ∧ set.bytesHeld ≤ maxBytes) ∧
    (((new maxSets maxBytes).run frags).Accepts g →
      (((new maxSets maxBytes).run frags).pushFragment g).1 = none →
      ∃ set, (((new maxSets maxBytes).run frags).pushFragment g).2.sets.lookup g.key = some set ∧
        set.pieces.Perm ((((new maxSets maxBytes).run frags).entry g.key).pieces ++ [g.piece])) ∧
    ∀ out, (((new maxSets maxBytes).run frags).pushFragment g).1 = some out →
      (∃ last, lastMfClear (members maxSets maxBytes g.key frags ++ [g]) = some last ∧
        out.length = last.offset.toNat + last.data.length) ∧
      ∀ i < out.length, ∃ m ∈ members maxSets maxBytes g.key frags ++ [g],
        m.Covers i ∧ out[i]? = m.byteAt i := by
  refine ⟨?_, fun key set hset => ?_, fun hacc hnone => ?_, fun out hout => ?_⟩
  · rw [← run_concat]
    exact len_sets_run_le maxSets maxBytes (frags ++ [g])
  · rw [← run_concat] at hset
    have hentry : ((new maxSets maxBytes).run (frags ++ [g])).entry key = set := by
      rw [entry, hset]
      rfl
    have heq := bytesHeld_run_eq maxSets maxBytes key (frags ++ [g])
    have hle := bytesHeld_run_le maxSets maxBytes key (frags ++ [g])
    rw [hentry] at heq hle
    exact ⟨heq, hle⟩
  · rw [pushFragment_of_accepts hacc] at hnone ⊢
    cases ho : ((((new maxSets maxBytes).run frags).entry g.key).record g.offset g.moreFragments
        g.data).tryComplete with
    | overBudget => exact absurd ho (FragSet.tryComplete_ne_overBudget _)
    | waiting set =>
        exact ⟨set, AList.lookup_insert _, FragSet.perm_of_waiting ho⟩
    | complete out =>
        rw [ho] at hnone
        cases hnone
  · obtain ⟨hlast, hbytes⟩ := getElem?_of_push hout
    refine ⟨hlast, fun i hi => ?_⟩
    obtain ⟨m, hm, hbyte⟩ := hbytes i hi
    have hcov := List.find?_some hm
    rw [decide_eq_true_eq] at hcov
    exact ⟨m, List.mem_of_find?_eq_some hm, hcov.1, hbyte⟩

/-- **The first copy wins exactly when the earliest and the lowest covering members agree**, at
every position of a datagram that is handed out. -/
theorem push_first_copy_iff (maxSets maxBytes : ℕ) (frags : List (Fragment κ)) (g : Fragment κ)
    (out : Bytes) (h : (((new maxSets maxBytes).run frags).pushFragment g).1 = some out) :
    (∀ i < out.length, out[i]? =
      (Fragment.earliest (members maxSets maxBytes g.key frags ++ [g]) i).bind (·.byteAt i)) ↔
    ∀ i < out.length,
      (Fragment.earliest (members maxSets maxBytes g.key frags ++ [g]) i).bind (·.byteAt i) =
        (Fragment.lowest (members maxSets maxBytes g.key frags ++ [g]) i).bind (·.byteAt i) := by
  have hlowest : ∀ i < out.length, out[i]? =
      (Fragment.lowest (members maxSets maxBytes g.key frags ++ [g]) i).bind (·.byteAt i) := by
    intro i hi
    obtain ⟨m, hm, hbyte⟩ := (getElem?_of_push h).2 i hi
    rw [hm, hbyte]
    rfl
  constructor
  · exact fun hfirst i hi => (hfirst i hi).symm.trans (hlowest i hi)
  · exact fun hagree i hi => (hlowest i hi).trans (hagree i hi).symm

/-- The second half of a datagram, and then all of it with other bytes there. -/
def backHalf : Fragment ℕ := { key := 1, offset := 8, moreFragments := false, data := [5, 6, 7, 8] }

def wholeOver : Fragment ℕ :=
  { key := 1, offset := 0, moreFragments := true, data := [1, 1, 1, 1, 1, 1, 1, 1, 9, 9, 9, 9] }

theorem push_wholeOver :
    (((new (2 ^ 16) (2 ^ 16)).run [backHalf]).pushFragment wholeOver).1 = some wholeOver.data := by
  decide

/-- Both sides of the equivalence at the fragments above. -/
theorem push_first_copy_halves :
    (((new (2 ^ 16) (2 ^ 16)).run [backHalf]).pushFragment wholeOver).1 = some wholeOver.data ∧
      ((∀ i < wholeOver.data.length, wholeOver.data[i]? =
          (Fragment.earliest (members (2 ^ 16) (2 ^ 16) 1 [backHalf] ++ [wholeOver]) i).bind
            (·.byteAt i)) ↔
        ∀ i < wholeOver.data.length,
          (Fragment.earliest (members (2 ^ 16) (2 ^ 16) 1 [backHalf] ++ [wholeOver]) i).bind
              (·.byteAt i) =
            (Fragment.lowest (members (2 ^ 16) (2 ^ 16) 1 [backHalf] ++ [wholeOver]) i).bind
              (·.byteAt i)) :=
  ⟨push_wholeOver, push_first_copy_iff (2 ^ 16) (2 ^ 16) [backHalf] wholeOver _ push_wholeOver⟩

/-- **The first copy of the second half loses**: the later fragment starts before it. -/
theorem push_wholeOver_wins :
    (((new (2 ^ 16) (2 ^ 16)).run [backHalf]).pushFragment wholeOver).1 = some wholeOver.data ∧
      wholeOver.data[8]? = some 9 ∧
      (Fragment.earliest (members (2 ^ 16) (2 ^ 16) 1 [backHalf] ++ [wholeOver]) 8).bind
        (·.byteAt 8) = some 5 := by
  decide

/-- A push that is accepted hands out a datagram exactly when its members cover it and none of them
starts behind a gap. -/
theorem isSome_push_iff {maxSets maxBytes : ℕ} {frags : List (Fragment κ)} {g : Fragment κ}
    (hacc : ((new maxSets maxBytes).run frags).Accepts g) :
    (∃ out, (((new maxSets maxBytes).run frags).pushFragment g).1 = some out) ↔
      FullyCovered (members maxSets maxBytes g.key frags ++ [g]) ∧
        NoStray (members maxSets maxBytes g.key frags ++ [g]) := by
  have hiff := ((run_madeOf maxSets maxBytes g.key frags).record g).complete_iff
  rw [← hiff]
  constructor
  · rintro ⟨out, hout⟩
    exact ⟨out, complete_of_push hout⟩
  · rintro ⟨out, hout⟩
    refine ⟨out, ?_⟩
    rw [pushFragment_of_accepts hacc, hout]
    rfl

/-- **A push completes exactly the covered datagrams when, and only when, no stray member of a
covered one starts behind a gap.** -/
theorem push_completes_iff (maxSets maxBytes : ℕ) (frags : List (Fragment κ)) (g : Fragment κ)
    (hacc : ((new maxSets maxBytes).run frags).Accepts g) :
    ((∃ out, (((new maxSets maxBytes).run frags).pushFragment g).1 = some out) ↔
      FullyCovered (members maxSets maxBytes g.key frags ++ [g])) ↔
    (FullyCovered (members maxSets maxBytes g.key frags ++ [g]) →
      NoStray (members maxSets maxBytes g.key frags ++ [g])) := by
  rw [isSome_push_iff hacc]
  exact and_iff_left_iff_imp

/-- Eight bytes far beyond the end of a datagram that is one fragment. -/
def farPiece : Fragment ℕ :=
  { key := 1, offset := 16, moreFragments := true, data := [0, 0, 0, 0, 0, 0, 0, 0] }

def onlyPiece : Fragment ℕ :=
  { key := 1, offset := 0, moreFragments := false, data := [1, 2, 3, 4, 5, 6, 7, 8] }

theorem accepts_onlyPiece : ((new (2 ^ 16) (2 ^ 16)).run [farPiece]).Accepts onlyPiece := by
  unfold Accepts
  decide

/-- The limits leave room for both pieces. -/
theorem push_completes_farPiece :
    ((new (2 ^ 16) (2 ^ 16)).run [farPiece]).Accepts onlyPiece ∧
      (((∃ out, (((new (2 ^ 16) (2 ^ 16)).run [farPiece]).pushFragment onlyPiece).1 = some out) ↔
          FullyCovered (members (2 ^ 16) (2 ^ 16) 1 [farPiece] ++ [onlyPiece])) ↔
        (FullyCovered (members (2 ^ 16) (2 ^ 16) 1 [farPiece] ++ [onlyPiece]) →
          NoStray (members (2 ^ 16) (2 ^ 16) 1 [farPiece] ++ [onlyPiece]))) :=
  ⟨accepts_onlyPiece,
    push_completes_iff (2 ^ 16) (2 ^ 16) [farPiece] onlyPiece accepts_onlyPiece⟩

/-- **A covered datagram does not complete**: the piece beyond its end starts behind a gap. -/
theorem push_onlyPiece_waits :
    ((new (2 ^ 16) (2 ^ 16)).run [farPiece]).Accepts onlyPiece ∧
      FullyCovered (members (2 ^ 16) (2 ^ 16) 1 [farPiece] ++ [onlyPiece]) ∧
      (((new (2 ^ 16) (2 ^ 16)).run [farPiece]).pushFragment onlyPiece).1 = none := by
  refine ⟨accepts_onlyPiece, ⟨onlyPiece, by decide, fun i hi => ⟨onlyPiece, by decide, ?_⟩⟩,
    by decide⟩
  exact ⟨Nat.zero_le i, hi⟩

end FragTable

end PcapRacer
