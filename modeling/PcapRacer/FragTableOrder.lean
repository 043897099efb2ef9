/-
**Any arrival order reassembles the datagram.**

A payload is cut into at least two non-empty fragments, and these arrive in any order, mixed with
the fragments of other datagrams.  Every push but the last for the key waits; the last one returns
the payload, counts one completed datagram and leaves no set for the key.

The invariant `FragSet.Holding` says which fragments a set holds and in which order it keeps them:
the arrival order, or the sorted order once assembly has been tried and has failed.

Main definitions:

* `FragSet.fragAt` — a fragment of the cut as it travels;
* `FragSet.Holding`, `FragTable.Awaiting` — the invariant of a set, and of its table.

Main results:

* `FragSet.assemble_map_fragAt` — what assembly makes of some of the fragments, sorted;
* `FragSet.Holding.add` — one arrival: the set waits, or is complete;
* `FragTable.run_any_arrival` — **the result does not depend on the order of arrival**.
-/

import Mathlib.Algebra.Order.BigOperators.Group.List
import Mathlib.Algebra.Order.Group.Nat
import PcapRacer.FragTable
import PcapRacer.Pieces

set_option relaxedAutoImplicit false
set_option autoImplicit false

namespace PcapRacer

open BoundedTable (len Refuses)
open Pieces (offset)

namespace FragSet

/-- Fragment number `k` of a cut as it travels: its offset and its bytes. -/
def fragAt (pieces : List Bytes) (k : ℕ) : UInt16 × Bytes :=
  (UInt16.ofNat (offset pieces k), pieces.getD k [])

section Cut

variable {pieces : List Bytes}

theorem toNat_fragAt (h16 : ∀ k < pieces.length, offset pieces k < 2 ^ 16) {k : ℕ}
    (hk : k < pieces.length) : (fragAt pieces k).1.toNat = offset pieces k :=
  UInt16.toNat_ofNat_of_lt (h16 k hk)

theorem fragAt_snd {k : ℕ} (hk : k < pieces.length) : (fragAt pieces k).2 = pieces[k] := by
  simp [fragAt, hk]

/-! ### Assembly -/

/-- Sorting by offset is sorting by number. -/
theorem insertionSort_map_fragAt (hne : ∀ p ∈ pieces, p ≠ [])
    (h16 : ∀ k < pieces.length, offset pieces k < 2 ^ 16) {ks : List ℕ}
    (hks : ∀ k ∈ ks, k < pieces.length) :
    (ks.map (fragAt pieces)).insertionSort byOffset =
      (ks.insertionSort (· ≤ ·)).map (fragAt pieces) := by
  refine (List.map_insertionSort (· ≤ ·) byOffset (fragAt pieces) ks fun a ha b hb => ?_).symm
  have hla := hks a ha
  have hlb := hks b hb
  rw [byOffset, UInt16.le_iff_toNat_le, toNat_fragAt h16 hla, toNat_fragAt h16 hlb]
  constructor
  · intro hab
    rcases Nat.eq_or_lt_of_le hab with rfl | hlt
    · exact Nat.le_refl _
    · exact Nat.le_of_lt (Pieces.offset_lt_offset hne hlt (Nat.le_of_lt hlb))
  · intro hab
    refine Nat.le_of_not_lt fun hlt => ?_
    have := Pieces.offset_lt_offset hne hlt (Nat.le_of_lt hla)
    omega

/-- With the first `j` fragments already joined and the fragments `ks`, in increasing order, still
to come, assembly succeeds exactly when `ks` continue at `j` without a hole. -/
theorem assemble_map_fragAt (hne : ∀ p ∈ pieces, p ≠ [])
    (h16 : ∀ k < pieces.length, offset pieces k < 2 ^ 16) (ks : List ℕ) (j : ℕ)
    (hsorted : ks.Pairwise (· < ·)) (hks : ∀ k ∈ ks, j ≤ k ∧ k < pieces.length) :
    assemble (ks.map (fragAt pieces)) (pieces.take j).flatten =
      if ks = List.range' j ks.length then some (pieces.take (j + ks.length)).flatten
      else none := by
  induction ks generalizing j with
  | nil => simp [assemble]
  | cons k ks ih =>
      obtain ⟨hjk, hk⟩ := hks k (by simp)
      obtain ⟨hlt, hsorted'⟩ := List.pairwise_cons.1 hsorted
      have hoff := toNat_fragAt h16 hk
      have hlen : (pieces.take j).flatten.length = offset pieces j := rfl
      rw [List.map_cons, List.length_cons, List.range'_succ]
      rcases Nat.eq_or_lt_of_le hjk with rfl | hgap
      · -- fragment `j` is next: it is appended whole
        have hpos := List.length_pos_iff.2 (hne _ (List.getElem_mem hk))
        have hstep : assemble (fragAt pieces j :: ks.map (fragAt pieces))
            (pieces.take j).flatten =
            assemble (ks.map (fragAt pieces)) (pieces.take (j + 1)).flatten := by
          rw [assemble, hlen, hoff, fragAt_snd hk, if_neg (Nat.lt_irrefl _), if_pos (by omega),
            Nat.sub_self, List.drop_zero, Pieces.flatten_take_succ hk]
        have hnext : ∀ k ∈ ks, j + 1 ≤ k ∧ k < pieces.length := fun k hk =>
          ⟨hlt k hk, (hks k (List.mem_cons_of_mem _ hk)).2⟩
        rw [hstep, ih (j + 1) hsorted' hnext]
        have harith : j + 1 + ks.length = j + (ks.length + 1) := by omega
        rw [harith]
        simp only [List.cons.injEq, true_and]
      · -- a hole: fragment `j` is missing
        have hhole : offset pieces j < offset pieces k :=
          Pieces.offset_lt_offset hne hgap (Nat.le_of_lt hk)
        have hne' : k :: ks ≠ j :: List.range' (j + 1) ks.length := by
          intro h
          rw [List.cons.injEq] at h
          omega
        rw [assemble, hlen, hoff, if_pos hhole, if_neg hne']

/-! ### The invariant -/

/-- The set holds the fragments `ks`, in this order. -/
structure Holding (pieces : List Bytes) (ks : List ℕ) (s : FragSet) : Prop where
  lt_length : ∀ k ∈ ks, k < pieces.length
  nodup : ks.Nodup
  pieces_eq : s.pieces = ks.map (fragAt pieces)
  total : s.totalLen = if pieces.length - 1 ∈ ks then some pieces.flatten.length else none
  bytes : s.bytesHeld = (ks.map fun k => (pieces.getD k []).length).sum

theorem Holding.nil : Holding pieces [] {} := ⟨by simp, by simp, rfl, by simp, rfl⟩

/-- The order in which the fragments are kept does not matter. -/
theorem Holding.perm {ks ks' : List ℕ} {s : FragSet} (h : Holding pieces ks s)
    (hperm : ks'.Perm ks) :
    Holding pieces ks' { s with pieces := ks'.map (fragAt pieces) } := by
  refine ⟨fun k hk => h.lt_length k (hperm.mem_iff.1 hk), hperm.nodup_iff.2 h.nodup, rfl, ?_, ?_⟩
  · rw [h.total]
    simp only [hperm.mem_iff]
  · rw [h.bytes]
    exact ((hperm.map _).sum_eq).symm

/-- Distinct fragments of the cut are no longer than the payload. -/
theorem sum_length_le {ks : List ℕ} (hnd : ks.Nodup) (hks : ∀ k ∈ ks, k < pieces.length) :
    (ks.map fun k => (pieces.getD k []).length).sum ≤ pieces.flatten.length := by
  have hall : ((List.range pieces.length).map fun k => (pieces.getD k []).length).sum =
      pieces.flatten.length := by
    rw [List.length_flatten]
    congr 1
    refine List.ext_getElem (by simp) fun i h₁ h₂ => ?_
    have : i < pieces.length := by simpa using h₁
    simp [this]
  have hsub : ks.Subperm (List.range pieces.length) :=
    List.subperm_of_subset hnd fun k hk => List.mem_range.2 (hks k hk)
  obtain ⟨l, hl, hsl⟩ := hsub
  rw [← hall, ← (hl.map _).sum_eq]
  exact (hsl.map _).sum_le_sum (by simp)

/-- The offset of the last fragment and its length give the total. -/
theorem offset_last (hlen : 2 ≤ pieces.length) :
    offset pieces (pieces.length - 1) + (pieces.getD (pieces.length - 1) []).length =
      pieces.flatten.length := by
  have hlt : pieces.length - 1 < pieces.length := by omega
  have hsucc := Pieces.offset_succ hlt
  rw [show pieces.length - 1 + 1 = pieces.length by omega, Pieces.offset_length] at hsucc
  simp [hlt, hsucc]

/-- A recorded fragment is held. -/
theorem Holding.record {ks : List ℕ} {s : FragSet} (h : Holding pieces ks s)
    (hlen : 2 ≤ pieces.length) (h16 : ∀ k < pieces.length, offset pieces k < 2 ^ 16) {k : ℕ}
    (hk : k < pieces.length) (hnew : k ∉ ks) :
    Holding pieces (ks ++ [k])
      (s.record (fragAt pieces k).1 (decide (k < pieces.length - 1)) (fragAt pieces k).2) := by
  refine ⟨fun j hj => ?_, ?_, ?_, ?_, ?_⟩
  · rcases List.mem_append.1 hj with hj | hj
    · exact h.lt_length j hj
    · rw [List.mem_singleton] at hj
      exact hj ▸ hk
  · exact List.nodup_append.2 ⟨h.nodup, List.nodup_singleton k, fun a ha b hb hab => by
      rw [List.mem_singleton] at hb
      exact hnew (hb ▸ hab ▸ ha)⟩
  · rw [FragSet.record, h.pieces_eq, List.map_append]
    rfl
  · rw [FragSet.record, h.total]
    simp only [List.mem_append, List.mem_singleton, decide_eq_true_eq]
    rcases Nat.lt_or_ge k (pieces.length - 1) with hlt | hge
    · have : ¬ pieces.length - 1 = k := by omega
      simp [hlt, this]
    · have hlast : pieces.length - 1 = k := by omega
      rw [if_neg (by omega), if_pos (Or.inr hlast), toNat_fragAt h16 hk, ← hlast]
      exact congrArg some (offset_last hlen)
  · rw [FragSet.record, h.bytes, List.map_append, List.sum_append]
    simp [fragAt]

/-- The numbers held, sorted, are increasing. -/
theorem Holding.sorted {ks : List ℕ} {s : FragSet} (h : Holding pieces ks s) :
    (ks.insertionSort (· ≤ ·)).Pairwise (· < ·) := by
  have hnd := (List.perm_insertionSort (· ≤ ·) ks).nodup_iff.2 h.nodup
  exact ((List.pairwise_insertionSort (· ≤ ·) ks).and hnd).imp fun hab =>
    Nat.lt_of_le_of_ne hab.1 hab.2

/-- A set that holds every fragment holds them, sorted, as `0, …, n - 1`. -/
theorem Holding.insertionSort_eq_range {ks : List ℕ} {s : FragSet} (h : Holding pieces ks s)
    (hlen : ks.length = pieces.length) :
    ks.insertionSort (· ≤ ·) = List.range' 0 (ks.insertionSort (· ≤ ·)).length := by
  have hsub : ks.Subperm (List.range pieces.length) :=
    List.subperm_of_subset h.nodup fun k hk => List.mem_range.2 (h.lt_length k hk)
  have hperm : ks.Perm (List.range pieces.length) := hsub.perm_of_length_le (by simp [hlen])
  rw [List.length_insertionSort, hlen, ← List.range_eq_range']
  refine List.Perm.eq_of_pairwise' (List.pairwise_insertionSort (· ≤ ·) ks) ?_
    ((List.perm_insertionSort (· ≤ ·) ks).trans hperm)
  exact List.pairwise_lt_range.imp Nat.le_of_lt

/-- A set that holds every fragment is complete, any other waits. -/
theorem Holding.tryComplete {ks : List ℕ} {s : FragSet} (h : Holding pieces ks s)
    (hlen : 2 ≤ pieces.length) (hne : ∀ p ∈ pieces, p ≠ [])
    (h16 : ∀ k < pieces.length, offset pieces k < 2 ^ 16) :
    (ks.length = pieces.length → s.tryComplete = .complete pieces.flatten) ∧
      (ks.length < pieces.length → ∃ ks' s', ks'.Perm ks ∧ Holding pieces ks' s' ∧
        s.tryComplete = .waiting s') := by
  have hperm := List.perm_insertionSort (· ≤ ·) ks
  by_cases hlast : pieces.length - 1 ∈ ks
  · have htot := h.total
    rw [if_pos hlast] at htot
    have hsort : s.pieces.insertionSort byOffset =
        (ks.insertionSort (· ≤ ·)).map (fragAt pieces) := by
      rw [h.pieces_eq, insertionSort_map_fragAt hne h16 h.lt_length]
    have hasm := assemble_map_fragAt hne h16 (ks.insertionSort (· ≤ ·)) 0 h.sorted
      fun k hk => ⟨Nat.zero_le k, h.lt_length k (hperm.mem_iff.1 hk)⟩
    simp only [List.take_zero, List.flatten_nil, Nat.zero_add] at hasm
    constructor
    · intro hall
      rw [if_pos (h.insertionSort_eq_range hall), List.length_insertionSort, hall,
        List.take_length] at hasm
      simp only [FragSet.tryComplete, htot, hsort, hasm]
      rw [if_neg (Nat.lt_irrefl _), List.take_length]
    · -- the last fragment is there and some other is missing, so assembly meets a hole
      intro hlt
      have hhole : ks.insertionSort (· ≤ ·) ≠
          List.range' 0 (ks.insertionSort (· ≤ ·)).length := by
        intro heq
        have hmem := hperm.mem_iff.2 hlast
        rw [heq, List.length_insertionSort, List.mem_range'_1] at hmem
        omega
      rw [if_neg hhole] at hasm
      refine ⟨_, _, hperm, h.perm hperm, ?_⟩
      simp only [FragSet.tryComplete, htot, hsort, hasm]
  · have htot := h.total
    rw [if_neg hlast] at htot
    constructor
    · intro hall
      have hmem : pieces.length - 1 ∈ List.range' 0 (ks.insertionSort (· ≤ ·)).length := by
        rw [List.length_insertionSort, List.mem_range'_1]
        omega
      rw [← h.insertionSort_eq_range hall] at hmem
      exact absurd (hperm.mem_iff.1 hmem) hlast
    · exact fun _ => ⟨ks, s, List.Perm.refl _, h, by simp only [FragSet.tryComplete, htot]⟩

/-- **One arrival**: the set is complete when it was the last, and waits otherwise. -/
theorem Holding.add {ks : List ℕ} {s : FragSet} {maxBytes k : ℕ} (h : Holding pieces ks s)
    (hlen : 2 ≤ pieces.length) (hne : ∀ p ∈ pieces, p ≠ [])
    (h16 : ∀ k < pieces.length, offset pieces k < 2 ^ 16)
    (hcap : pieces.flatten.length ≤ maxBytes) (hk : k < pieces.length) (hnew : k ∉ ks) :
    (ks.length + 1 = pieces.length →
        s.add maxBytes (fragAt pieces k).1 (decide (k < pieces.length - 1)) (fragAt pieces k).2 =
          .complete pieces.flatten) ∧
      (ks.length + 1 < pieces.length → ∃ ks' s', ks'.Perm (ks ++ [k]) ∧ Holding pieces ks' s' ∧
        s.add maxBytes (fragAt pieces k).1 (decide (k < pieces.length - 1)) (fragAt pieces k).2 =
          .waiting s') := by
  have hrec := h.record hlen h16 hk hnew
  have hbudget : ¬ maxBytes < s.bytesHeld + (fragAt pieces k).2.length := by
    have hle := sum_length_le hrec.nodup hrec.lt_length
    have hbytes : s.bytesHeld + (fragAt pieces k).2.length =
        ((ks ++ [k]).map fun k => (pieces.getD k []).length).sum := hrec.bytes
    omega
  have hres := hrec.tryComplete hlen hne h16
  rw [List.length_append, List.length_singleton] at hres
  rwa [FragSet.add, if_neg hbudget]

end Cut

end FragSet

/-! ### The table -/

namespace FragTable

variable {κ : Type} [DecidableEq κ]

/-- Fragment number `k` of a datagram; MF is clear on the final one only. -/
def fragmentAt (key : κ) (pieces : List Bytes) (k : ℕ) : Fragment κ :=
  { key, offset := (FragSet.fragAt pieces k).1, moreFragments := k < pieces.length - 1,
    data := (FragSet.fragAt pieces k).2 }

/-- The fragments of a key among those of all keys. -/
def fragmentsOf (key : κ) (frags : List (Fragment κ)) : List (Fragment κ) :=
  frags.filter fun g => g.key = key

/-- No fragment of the key is refused. -/
def NeverRefused (t : FragTable κ) (key : κ) (frags : List (Fragment κ)) : Prop :=
  ∀ pre g post, frags = pre ++ g :: post → g.key = key → ¬ Refuses t.maxSets (t.run pre).sets key

section Cut

variable {t : FragTable κ} {key : κ} {pieces : List Bytes}

theorem NeverRefused.of_append {frags frags' : List (Fragment κ)}
    (h : NeverRefused t key (frags ++ frags')) : NeverRefused t key frags := by
  intro pre g post heq
  exact h pre g (post ++ frags') (by simp [heq])

theorem entry_eq_of_lookup_eq {t' : FragTable κ} (h : t'.sets.lookup key = t.sets.lookup key) :
    t'.entry key = t.entry key := by
  rw [entry, entry, h]

/-- What the push of one fragment of the cut does, when the set holds the fragments `ks`. -/
theorem pushFragment_holding {ks : List ℕ} {k : ℕ}
    (h : FragSet.Holding pieces ks (t.entry key)) (hlen : 2 ≤ pieces.length)
    (hne : ∀ p ∈ pieces, p ≠ []) (h16 : ∀ k < pieces.length, offset pieces k < 2 ^ 16)
    (hcap : pieces.flatten.length ≤ t.maxBytes) (hk : k < pieces.length) (hnew : k ∉ ks)
    (hroom : ¬ Refuses t.maxSets t.sets key) :
    (ks.length + 1 = pieces.length →
        (t.pushFragment (fragmentAt key pieces k)).1 = some pieces.flatten ∧
        (t.pushFragment (fragmentAt key pieces k)).2.completed = t.completed + 1 ∧
        (t.pushFragment (fragmentAt key pieces k)).2.sets.lookup key = none) ∧
      (ks.length + 1 < pieces.length →
        (t.pushFragment (fragmentAt key pieces k)).1 = none ∧
        (t.pushFragment (fragmentAt key pieces k)).2.completed = t.completed ∧
        ∃ ks', ks'.Perm (ks ++ [k]) ∧
          FragSet.Holding pieces ks' ((t.pushFragment (fragmentAt key pieces k)).2.entry key)) := by
  obtain ⟨hdone, hwait⟩ := h.add hlen hne h16 hcap hk hnew
  have hpush : t.pushFragment (fragmentAt key pieces k) =
      t.settle key ((t.entry key).add t.maxBytes (FragSet.fragAt pieces k).1
        (decide (k < pieces.length - 1)) (FragSet.fragAt pieces k).2) :=
    push_of_admits hroom _ _ _
  rw [hpush]
  constructor
  · intro hall
    rw [hdone hall]
    exact ⟨rfl, rfl, AList.lookup_erase _ _⟩
  · intro hlt
    obtain ⟨ks', s', hperm, hold, hadd⟩ := hwait hlt
    rw [hadd]
    refine ⟨rfl, rfl, ks', hperm, ?_⟩
    rw [entry, settle, AList.lookup_insert]
    exact hold

/-- **Every proper part of every arrival order is held**, whatever arrives for other keys. -/
theorem run_holding (habsent : key ∉ t.sets) (hlen : 2 ≤ pieces.length)
    (hne : ∀ p ∈ pieces, p ≠ []) (h16 : ∀ k < pieces.length, offset pieces k < 2 ^ 16)
    (hcap : pieces.flatten.length ≤ t.maxBytes) (frags : List (Fragment κ)) (arrived : List ℕ)
    (hroom : NeverRefused t key frags)
    (hfrags : fragmentsOf key frags = arrived.map (fragmentAt key pieces)) (hnd : arrived.Nodup)
    (harr : ∀ k ∈ arrived, k < pieces.length) (hpart : arrived.length < pieces.length) :
    ∃ ks, ks.Perm arrived ∧ FragSet.Holding pieces ks ((t.run frags).entry key) := by
  induction frags using List.reverseRecOn generalizing arrived with
  | nil =>
      have hnil : arrived = [] := by simpa [fragmentsOf] using hfrags.symm
      subst hnil
      refine ⟨[], List.Perm.refl _, ?_⟩
      rw [run_nil, entry, AList.lookup_eq_none.2 habsent]
      exact FragSet.Holding.nil
  | append_singleton frags g ih =>
      rw [run_concat]
      by_cases hg : g.key = key
      · -- a fragment of the key: the last of those that have arrived
        have hsplit : fragmentsOf key frags ++ [g] = arrived.map (fragmentAt key pieces) := by
          rw [← hfrags, fragmentsOf, fragmentsOf, List.filter_append]
          simp [hg]
        obtain ⟨before, last, hbefore, hfr, hlast⟩ := List.map_eq_append_iff.1 hsplit.symm
        obtain ⟨k, hk, rfl⟩ : ∃ k, last = [k] ∧ fragmentAt key pieces k = g := by
          cases last with
          | nil => simp at hlast
          | cons k rest =>
              rw [List.map_cons, List.cons.injEq, List.map_eq_nil_iff] at hlast
              exact ⟨k, by rw [hlast.2], hlast.1⟩
        subst hbefore
        subst hk
        rw [List.length_append, List.length_singleton] at hpart
        obtain ⟨ks, hperm, hold⟩ := ih before hroom.of_append hfr.symm hnd.of_append_left
          (fun j hj => harr j (List.mem_append_left _ hj)) (by omega)
        have hnew : k ∉ ks := fun hmem => by
          simpa using List.disjoint_of_nodup_append hnd (hperm.mem_iff.1 hmem)
        have hadm : ¬ Refuses (t.run frags).maxSets (t.run frags).sets key := by
          rw [run_maxSets]
          exact hroom frags _ [] rfl rfl
        obtain ⟨-, -, ks', hperm', hold'⟩ := (pushFragment_holding hold hlen hne h16
          (by rwa [run_maxBytes]) (harr k (by simp)) hnew hadm).2
          (by rw [hperm.length_eq]; omega)
        exact ⟨ks', hperm'.trans (hperm.append_right [k]), hold'⟩
      · have hsame : fragmentsOf key frags = arrived.map (fragmentAt key pieces) := by
          rw [← hfrags, fragmentsOf, fragmentsOf, List.filter_append]
          simp [hg]
        obtain ⟨ks, hperm, hold⟩ := ih arrived hroom.of_append hsame hnd harr hpart
        refine ⟨ks, hperm, ?_⟩
        rwa [entry_eq_of_lookup_eq (lookup_push_of_ne _ g (Ne.symm hg))]

/-- Fragments of other keys do not bring back a set that is gone. -/
theorem lookup_run_of_other_keys (frags : List (Fragment κ)) (h : ∀ g ∈ frags, g.key ≠ key) :
    (t.run frags).sets.lookup key = t.sets.lookup key := by
  induction frags using List.reverseRecOn with
  | nil => rfl
  | append_singleton frags g ih =>
      rw [run_concat, lookup_push_of_ne _ g (Ne.symm (h g (by simp))),
        ih fun x hx => h x (List.mem_append_left _ hx)]

/-- The last fragment of a key that has one. -/
theorem exists_last_fragment {frags : List (Fragment κ)} (h : fragmentsOf key frags ≠ []) :
    ∃ pre g post, frags = pre ++ g :: post ∧ g.key = key ∧ fragmentsOf key post = [] := by
  induction frags with
  | nil => simp [fragmentsOf] at h
  | cons x frags ih =>
      by_cases hnil : fragmentsOf key frags = []
      · have hx : x.key = key := by
          by_contra hx
          exact h (by rw [fragmentsOf, List.filter_cons_of_neg (by simpa using hx)]; exact hnil)
        exact ⟨[], x, frags, rfl, hx, hnil⟩
      · obtain ⟨pre, g, post, heq, hg, hpost⟩ := ih hnil
        exact ⟨x :: pre, g, post, by rw [heq]; rfl, hg, hpost⟩

/-- A table grows by at most one set per push. -/
theorem len_run_le (frags : List (Fragment κ)) :
    len (t.run frags).sets ≤ len t.sets + frags.length := by
  induction frags using List.reverseRecOn with
  | nil => simp
  | append_singleton frags g ih =>
      rw [run_concat, List.length_append, List.length_singleton]
      exact Nat.le_trans (len_pushFragment_le _ g) (by omega)

/-- A table with room for every fragment refuses none. -/
theorem neverRefused_of_length_le {frags : List (Fragment κ)}
    (h : len t.sets + frags.length ≤ t.maxSets) : NeverRefused t key frags := by
  intro pre g post heq _
  have := len_run_le (t := t) pre
  rw [heq, List.length_append, List.length_cons] at h
  exact BoundedTable.not_refuses_of_lt (by omega)

/-- At the arrival of a fragment of the key, its set holds those that arrived before. -/
theorem holding_before {order : List ℕ} {frags : List (Fragment κ)} (habsent : key ∉ t.sets)
    (hlen : 2 ≤ pieces.length) (hne : ∀ p ∈ pieces, p ≠ [])
    (h16 : ∀ k < pieces.length, offset pieces k < 2 ^ 16)
    (hcap : pieces.flatten.length ≤ t.maxBytes) (horder : order.Perm (List.range pieces.length))
    (hfrags : fragmentsOf key frags = order.map (fragmentAt key pieces))
    (hroom : NeverRefused t key frags) {pre post : List (Fragment κ)} {g : Fragment κ}
    (heq : frags = pre ++ g :: post) (hg : g.key = key) :
    ∃ k ks, g = fragmentAt key pieces k ∧ k < pieces.length ∧ k ∉ ks ∧
      ks.length + 1 + (fragmentsOf key post).length = pieces.length ∧
      FragSet.Holding pieces ks ((t.run pre).entry key) ∧
      ¬ Refuses (t.run pre).maxSets (t.run pre).sets key := by
  have hnd : order.Nodup := horder.nodup_iff.2 List.nodup_range
  have hlt : ∀ k ∈ order, k < pieces.length := fun k hk =>
    List.mem_range.1 (horder.mem_iff.1 hk)
  have hcount : order.length = pieces.length := by simpa using horder.length_eq
  have hsplit : fragmentsOf key pre ++ g :: fragmentsOf key post =
      order.map (fragmentAt key pieces) := by
    rw [← hfrags, heq, fragmentsOf, fragmentsOf, fragmentsOf, List.filter_append,
      List.filter_cons_of_pos (by simpa using hg)]
  obtain ⟨before, rest, hord, hbefore, hrest⟩ := List.map_eq_append_iff.1 hsplit.symm
  obtain ⟨k, after, rfl, rfl, hafter⟩ := List.map_eq_cons_iff.1 hrest
  subst hord
  have hsum : before.length + 1 + (fragmentsOf key post).length = pieces.length := by
    rw [← hafter, List.length_map, ← hcount, List.length_append, List.length_cons]
    omega
  obtain ⟨ks, hperm, hold⟩ := run_holding habsent hlen hne h16 hcap pre before
    (NeverRefused.of_append (heq ▸ hroom)) hbefore.symm hnd.of_append_left
    (fun j hj => hlt j (List.mem_append_left _ hj)) (by omega)
  refine ⟨k, ks, rfl, hlt k (by simp), fun hmem => ?_, by rw [hperm.length_eq]; exact hsum,
    hold, ?_⟩
  · exact List.disjoint_of_nodup_append hnd (hperm.mem_iff.1 hmem) (by simp)
  · rw [run_maxSets]
    exact hroom pre _ post heq rfl

/-- What comes of a fragment of the key: the payload, if no fragment is still to come. -/
theorem pushFragment_arrival {t : FragTable κ} {key : κ} {pieces : List Bytes} {order : List ℕ}
    {frags pre post : List (Fragment κ)} {g : Fragment κ} (habsent : key ∉ t.sets)
    (hlen : 2 ≤ pieces.length) (hne : ∀ p ∈ pieces, p ≠ [])
    (h16 : ∀ k < pieces.length, offset pieces k < 2 ^ 16)
    (hcap : pieces.flatten.length ≤ t.maxBytes) (horder : order.Perm (List.range pieces.length))
    (hfrags : fragmentsOf key frags = order.map (fragmentAt key pieces))
    (hroom : NeverRefused t key frags) (heq : frags = pre ++ g :: post) (hg : g.key = key) :
    ((t.run pre).pushFragment g).1 =
      if fragmentsOf key post = [] then some pieces.flatten else none := by
  obtain ⟨k, ks, rfl, hk, hnew, hsum, hold, hadm⟩ :=
    holding_before habsent hlen hne h16 hcap horder hfrags hroom heq hg
  obtain ⟨hdone, hwait⟩ :=
    pushFragment_holding hold hlen hne h16 (by rwa [run_maxBytes]) hk hnew hadm
  by_cases hlast : fragmentsOf key post = []
  · rw [hlast, List.length_nil] at hsum
    rw [if_pos hlast]
    exact (hdone (by omega)).1
  · have hpos := List.length_pos_iff.mpr hlast
    rw [if_neg hlast]
    exact (hwait (by omega)).1

end Cut

/-- **The result does not depend on the order of arrival.**  The fragments of a payload within the
budget arrive in any order, mixed with those of other keys, and the key is never refused.  Every
push of the key but the last returns nothing and completes nothing; the last returns the payload
and counts one completed datagram; in the end there is no set for the key. -/
theorem run_any_arrival (t : FragTable κ) (key : κ) (pieces : List Bytes) (order : List ℕ)
    (frags : List (Fragment κ)) (habsent : key ∉ t.sets) (hlen : 2 ≤ pieces.length)
    (hne : ∀ p ∈ pieces, p ≠ []) (h16 : ∀ k < pieces.length, offset pieces k < 2 ^ 16)
    (hcap : pieces.flatten.length ≤ t.maxBytes) (horder : order.Perm (List.range pieces.length))
    (hfrags : fragmentsOf key frags = order.map (fragmentAt key pieces))
    (hroom : NeverRefused t key frags) :
    (∀ pre g post, frags = pre ++ g :: post → g.key = key → fragmentsOf key post ≠ [] →
        ((t.run pre).pushFragment g).1 = none ∧
          ((t.run pre).pushFragment g).2.completed = (t.run pre).completed) ∧
      (∀ pre g post, frags = pre ++ g :: post → g.key = key → fragmentsOf key post = [] →
        ((t.run pre).pushFragment g).1 = some pieces.flatten ∧
          ((t.run pre).pushFragment g).2.completed = (t.run pre).completed + 1) ∧
      (t.run frags).sets.lookup key = none := by
  have hcount : order.length = pieces.length := by simpa using horder.length_eq
  have hat := fun pre g post (heq : frags = pre ++ g :: post) (hg : g.key = key) =>
    holding_before habsent hlen hne h16 hcap horder hfrags hroom heq hg
  refine ⟨fun pre g post heq hg hmore => ?_, fun pre g post heq hg hlast => ?_, ?_⟩
  · obtain ⟨k, ks, rfl, hk, hnew, hsum, hold, hadm⟩ := hat pre g post heq hg
    have hpos := List.length_pos_iff.2 hmore
    obtain ⟨hnone, hsame, -⟩ := (pushFragment_holding hold hlen hne h16 (by rwa [run_maxBytes]) hk
      hnew hadm).2 (by omega)
    exact ⟨hnone, hsame⟩
  · obtain ⟨k, ks, rfl, hk, hnew, hsum, hold, hadm⟩ := hat pre g post heq hg
    rw [hlast, List.length_nil] at hsum
    obtain ⟨hsome, hone, -⟩ := (pushFragment_holding hold hlen hne h16 (by rwa [run_maxBytes]) hk
      hnew hadm).1 (by omega)
    exact ⟨hsome, hone⟩
  · -- split at the last fragment of the key
    obtain ⟨pre, g, post, heq, hg, hpost⟩ : ∃ pre g post, frags = pre ++ g :: post ∧
        g.key = key ∧ fragmentsOf key post = [] := by
      have hnil : fragmentsOf key frags ≠ [] := by
        rw [hfrags]
        intro h
        have := congrArg List.length h
        rw [List.length_map, hcount, List.length_nil] at this
        omega
      exact exists_last_fragment hnil
    obtain ⟨k, ks, rfl, hk, hnew, hsum, hold, hadm⟩ := hat pre g post heq hg
    rw [hpost, List.length_nil] at hsum
    obtain ⟨-, -, hgone⟩ := (pushFragment_holding hold hlen hne h16 (by rwa [run_maxBytes]) hk
      hnew hadm).1 (by omega)
    rw [heq, run_append, run_cons, lookup_run_of_other_keys post, hgone]
    intro x hx hxk
    have : x ∈ fragmentsOf key post := List.mem_filter.2 ⟨hx, by simpa using hxk⟩
    rw [hpost] at this
    simp at this

/-- Three fragments of one datagram, the final one first, with one of another datagram between. -/
theorem run_any_arrival_last_first :
    ((((new 4 64).run [fragmentAt 1 [[10, 11], [12, 13], [14]] 2,
        ⟨2, 0, true, [7]⟩, fragmentAt 1 [[10, 11], [12, 13], [14]] 0]).pushFragment
          (fragmentAt 1 [[10, 11], [12, 13], [14]] 1)).1 = some [10, 11, 12, 13, 14]) ∧
      ((new 4 64).run [fragmentAt 1 [[10, 11], [12, 13], [14]] 2, ⟨2, 0, true, [7]⟩,
        fragmentAt 1 [[10, 11], [12, 13], [14]] 0,
        fragmentAt 1 [[10, 11], [12, 13], [14]] 1]).sets.lookup 1 = none := by
  have hroom : NeverRefused (new 4 64) 1 [fragmentAt 1 [[10, 11], [12, 13], [14]] 2,
      ⟨2, 0, true, [7]⟩, fragmentAt 1 [[10, 11], [12, 13], [14]] 0,
      fragmentAt 1 [[10, 11], [12, 13], [14]] 1] := by
    refine neverRefused_of_length_le ?_
    decide
  obtain ⟨-, hlast, hgone⟩ := run_any_arrival (new 4 64) 1 [[10, 11], [12, 13], [14]] [2, 0, 1]
    [fragmentAt 1 [[10, 11], [12, 13], [14]] 2, ⟨2, 0, true, [7]⟩,
      fragmentAt 1 [[10, 11], [12, 13], [14]] 0, fragmentAt 1 [[10, 11], [12, 13], [14]] 1]
    (by decide) (by decide) (by decide) (by decide) (by decide) (by decide) (by decide) hroom
  exact ⟨(hlast [fragmentAt 1 [[10, 11], [12, 13], [14]] 2, ⟨2, 0, true, [7]⟩,
    fragmentAt 1 [[10, 11], [12, 13], [14]] 0] _ [] rfl rfl rfl).1, hgone⟩

end FragTable

end PcapRacer
