/-
**The reassembly tables keep conversations apart.**

A table serves the pushes of many keys in one sequence.  As long as it refuses none for want of room,
what it returns for one key is what a fresh table returns for the pushes of that key alone: no other
conversation shows in it.

Main definitions:

* `StreamTable.returns`, `FragTable.returns` — what the pushes of a run return;
* `StreamTable.serve`, `FragTable.serve` — a push, as far as its own key is concerned;
* `StreamTable.NoneRefused`, `FragTable.NoneRefused` — a run in which every push finds room.

Main results:

* `StreamTable.keyed`, `FragTable.keyed` — a push reads and writes under its own key only;
* `tables_isolate_keys` — **the returns of a key do not depend on the other keys**.
-/

import PcapRacer.FragTable
import PcapRacer.KeyedRun
import PcapRacer.StreamTable

set_option relaxedAutoImplicit false
set_option autoImplicit false

namespace PcapRacer

open BoundedTable (len Refuses)
open KeyedRun (AllServed Keyed answers)

variable {κ : Type} [DecidableEq κ]

/-! ### Streams -/

namespace StreamTable

/-- One segment into the table. -/
def pushSegment (t : StreamTable κ) (g : Segment κ) : Option Reassembled × StreamTable κ :=
  t.push g.key g.seq g.payload

/-- What the pushes of a run return, each with its segment. -/
def returns (t : StreamTable κ) (segs : List (Segment κ)) :
    List (Segment κ × Option Reassembled) := answers pushSegment t segs

/-- No push of the run is refused for want of room. -/
def NoneRefused (t : StreamTable κ) (segs : List (Segment κ)) : Prop :=
  ∀ pre g post, segs = pre ++ g :: post → g.payload ≠ [] →
    ¬ Refuses t.maxStreams (t.run pre).streams g.key

/-- A push, as far as the stream of its key is concerned. -/
def serve (maxBytes : ℕ) (s : Stream) (g : Segment κ) : Option Reassembled × Stream :=
  if g.payload = [] then (none, s)
  else
    let s' := (s.push maxBytes g.seq g.payload).1
    (some { data := s'.buf, multiSegment := g.payload.length < s'.buf.length,
            isPartial := s'.truncated }, s')

/-- The limits of the table, and room for the segment. -/
def Serves (maxStreams maxBytes : ℕ) (t : StreamTable κ) (g : Segment κ) : Prop :=
  t.maxBytes = maxBytes ∧ (g.payload ≠ [] → ¬ Refuses maxStreams t.streams g.key) ∧
    t.maxStreams = maxStreams

/-- **A push reads and writes under its own key only.** -/
theorem keyed (maxStreams maxBytes : ℕ) :
    Keyed pushSegment Segment.key entry (serve maxBytes)
      (Serves (κ := κ) maxStreams maxBytes) where
  answer t g h := by
    obtain ⟨rfl, hroom, rfl⟩ := h
    by_cases hp : g.payload = []
    · simp [pushSegment, push, serve, hp]
    · rw [pushSegment, push_eq_of_admits hp (hroom hp), serve, if_neg hp]
  own t g h := by
    obtain ⟨rfl, hroom, rfl⟩ := h
    by_cases hp : g.payload = []
    · simp [pushSegment, push, serve, hp]
    · rw [pushSegment, push_eq_of_admits hp (hroom hp), serve, if_neg hp]
      simp only [entry, AList.lookup_insert, Option.getD_some]
  other t g k _ hk := by
    rw [entry, entry]
    exact congrArg (Option.getD · {}) (lookup_push_of_ne t hk g.seq g.payload)

theorem runs_pushSegment (t : StreamTable κ) (segs : List (Segment κ)) :
    KeyedRun.runs pushSegment t segs = t.run segs := rfl

theorem noneRefused_iff {t : StreamTable κ} {segs : List (Segment κ)} :
    NoneRefused t segs ↔ AllServed pushSegment (Serves t.maxStreams t.maxBytes) t segs := by
  rw [KeyedRun.allServed_iff]
  refine forall_congr' fun pre => forall_congr' fun g => forall_congr' fun post => ?_
  rw [runs_pushSegment]
  constructor
  · intro h heq
    exact ⟨run_maxBytes t pre, h heq, run_maxStreams t pre⟩
  · intro h heq
    exact (h heq).2.1

/-- A fresh table serves the segments of one key, unless it has no room at all. -/
theorem allServed_alone {maxStreams : ℕ} (maxBytes : ℕ) (key : κ) {segs : List (Segment κ)}
    (hroom : 0 < maxStreams) (hsegs : ∀ g ∈ segs, g.key = key) :
    AllServed pushSegment (Serves maxStreams maxBytes) (new maxStreams maxBytes) segs := by
  refine KeyedRun.allServed_of_invariant pushSegment
    (I := fun t : StreamTable κ => t.maxBytes = maxBytes ∧ t.maxStreams = maxStreams ∧
      ∀ k ∈ t.streams, k = key) ?_ ?_ ⟨rfl, rfl, fun k hk => ?_⟩
  · intro t ⟨hbytes, hstreams, honly⟩ g hg
    refine ⟨hbytes, fun _ => ?_, hstreams⟩
    rw [hsegs g hg]
    exact BoundedTable.not_refuses_of_only hroom honly
  · intro t ⟨hbytes, hstreams, honly⟩ g hg
    refine ⟨(push_maxBytes _ _ _ _).trans hbytes, (push_maxStreams _ _ _ _).trans hstreams, ?_⟩
    intro k hk
    by_contra hne
    have hk' : k ≠ g.key := fun h => hne (h.trans (hsegs g hg))
    rw [pushSegment, ← AList.lookup_isSome, lookup_push_of_ne t hk', AList.lookup_isSome] at hk
    exact hne (honly k hk)
  · exact absurd hk (AList.notMem_empty k)

/-- A table without room stays empty. -/
theorem streams_run_zero (maxBytes : ℕ) (segs : List (Segment κ)) :
    ((new 0 maxBytes).run segs).streams = ∅ := by
  induction segs using List.reverseRecOn with
  | nil => rfl
  | append_singleton segs g ih =>
      rw [run_concat]
      by_cases hp : g.payload = []
      · simp [push, hp, ih]
      · have hr : Refuses ((new 0 maxBytes).run segs).maxStreams
            ((new 0 maxBytes).run segs).streams g.key := by
          rw [ih, run_maxStreams]
          exact ⟨AList.notMem_empty _, Nat.le_refl 0⟩
        rw [push_eq_of_refuses hp hr]
        exact ih

/-- A run in which nothing is refused can be served without the other keys. -/
theorem NoneRefused.allServed_filter {maxStreams maxBytes : ℕ} {segs : List (Segment κ)}
    (h : NoneRefused (new maxStreams maxBytes) segs) (key : κ) :
    AllServed pushSegment (Serves maxStreams maxBytes) (new maxStreams maxBytes)
      (segs.filter fun g => g.key = key) := by
  rcases Nat.eq_zero_or_pos maxStreams with rfl | hroom
  · -- without room only empty segments are not refused
    have hnil : ∀ g ∈ segs, g.payload = [] := by
      intro g hg
      by_contra hp
      obtain ⟨pre, post, heq⟩ := List.append_of_mem hg
      refine h pre g post heq hp ?_
      rw [streams_run_zero]
      exact ⟨AList.notMem_empty _, Nat.le_refl 0⟩
    refine KeyedRun.allServed_of_invariant pushSegment
      (I := fun t : StreamTable κ => t.maxBytes = maxBytes ∧ t.maxStreams = 0) ?_ ?_ ⟨rfl, rfl⟩
    · intro t ht g hg
      exact ⟨ht.1, fun hp => absurd (hnil g (List.mem_of_mem_filter hg)) hp, ht.2⟩
    · intro t ht g _
      exact ⟨(push_maxBytes _ _ _ _).trans ht.1, (push_maxStreams _ _ _ _).trans ht.2⟩
  · refine allServed_alone maxBytes key hroom fun g hg => ?_
    simpa using (List.mem_filter.mp hg).2

end StreamTable

/-! ### Fragments -/

namespace FragTable

/-- What the pushes of a run return, each with its fragment. -/
def returns (t : FragTable κ) (frags : List (Fragment κ)) : List (Fragment κ × Option Bytes) :=
  answers pushFragment t frags

/-- No push of the run is refused for want of room. -/
def NoneRefused (t : FragTable κ) (frags : List (Fragment κ)) : Prop :=
  ∀ pre g post, frags = pre ++ g :: post → ¬ Refuses t.maxSets (t.run pre).sets g.key

/-- A push, as far as the set of its key is concerned: a set that is over its budget or complete is
forgotten. -/
def serve (maxBytes : ℕ) (s : FragSet) (g : Fragment κ) : Option Bytes × FragSet :=
  match s.add maxBytes g.offset g.moreFragments g.data with
  | .overBudget => (none, {})
  | .waiting set => (none, set)
  | .complete out => (some out, {})

/-- The limits of the table, and room for the fragment. -/
def Serves (maxSets maxBytes : ℕ) (t : FragTable κ) (g : Fragment κ) : Prop :=
  t.maxBytes = maxBytes ∧ ¬ Refuses maxSets t.sets g.key ∧ t.maxSets = maxSets

/-- **A push reads and writes under its own key only.** -/
theorem keyed (maxSets maxBytes : ℕ) :
    Keyed pushFragment Fragment.key entry (serve maxBytes)
      (Serves (κ := κ) maxSets maxBytes) where
  answer t g h := by
    obtain ⟨rfl, hroom, rfl⟩ := h
    rw [pushFragment, push_of_admits hroom, serve]
    cases (t.entry g.key).add t.maxBytes g.offset g.moreFragments g.data <;> rfl
  own t g h := by
    obtain ⟨rfl, hroom, rfl⟩ := h
    rw [pushFragment, push_of_admits hroom, serve]
    cases (t.entry g.key).add t.maxBytes g.offset g.moreFragments g.data with
    | overBudget => simp [entry, settle, AList.lookup_erase]
    | waiting set => simp [entry, settle, AList.lookup_insert]
    | complete out => simp [entry, settle, AList.lookup_erase]
  other t g k _ hk := by
    rw [entry, entry, lookup_push_of_ne t g hk]

theorem runs_pushFragment (t : FragTable κ) (frags : List (Fragment κ)) :
    KeyedRun.runs pushFragment t frags = t.run frags := rfl

theorem noneRefused_iff {t : FragTable κ} {frags : List (Fragment κ)} :
    NoneRefused t frags ↔ AllServed pushFragment (Serves t.maxSets t.maxBytes) t frags := by
  rw [KeyedRun.allServed_iff]
  refine forall_congr' fun pre => forall_congr' fun g => forall_congr' fun post => ?_
  rw [runs_pushFragment]
  constructor
  · intro h heq
    exact ⟨run_maxBytes t pre, h heq, run_maxSets t pre⟩
  · intro h heq
    exact (h heq).2.1

/-- A fresh table with room serves the fragments of one key. -/
theorem allServed_alone {maxSets : ℕ} (maxBytes : ℕ) (key : κ) {frags : List (Fragment κ)}
    (hroom : 0 < maxSets) (hfrags : ∀ g ∈ frags, g.key = key) :
    AllServed pushFragment (Serves maxSets maxBytes) (new maxSets maxBytes) frags := by
  refine KeyedRun.allServed_of_invariant pushFragment
    (I := fun t : FragTable κ => t.maxBytes = maxBytes ∧ t.maxSets = maxSets ∧
      ∀ k ∈ t.sets, k = key) ?_ ?_ ⟨rfl, rfl, fun k hk => ?_⟩
  · intro t ⟨hbytes, hsets, honly⟩ g hg
    refine ⟨hbytes, ?_, hsets⟩
    rw [hfrags g hg]
    exact BoundedTable.not_refuses_of_only hroom honly
  · intro t ⟨hbytes, hsets, honly⟩ g hg
    refine ⟨(pushFragment_maxBytes _ _).trans hbytes, (pushFragment_maxSets _ _).trans hsets, ?_⟩
    intro k hk
    by_contra hne
    have hk' : k ≠ g.key := fun h => hne (h.trans (hfrags g hg))
    rw [← AList.lookup_isSome, lookup_push_of_ne t g hk', AList.lookup_isSome] at hk
    exact hne (honly k hk)
  · exact absurd hk (AList.notMem_empty k)

/-- A run in which nothing is refused can be served without the other keys. -/
theorem NoneRefused.allServed_filter {maxSets maxBytes : ℕ} {frags : List (Fragment κ)}
    (h : NoneRefused (new maxSets maxBytes) frags) (key : κ) :
    AllServed pushFragment (Serves maxSets maxBytes) (new maxSets maxBytes)
      (frags.filter fun g => g.key = key) := by
  cases frags with
  | nil => trivial
  | cons g frags =>
      -- the first push of the run found room
      have hroom : 0 < maxSets := by
        by_contra hzero
        refine h [] g frags rfl ⟨AList.notMem_empty _, ?_⟩
        have hmax : (new maxSets maxBytes : FragTable κ).maxSets = maxSets := rfl
        rw [hmax]
        omega
      refine allServed_alone maxBytes key hroom fun g hg => ?_
      simpa using (List.mem_filter.mp hg).2

end FragTable

/-! ### Isolation -/

/-- **The returns of a key do not depend on the other keys.**  In every run of either table, from a
fresh one and with no push refused, the returns for the pushes of a key are, in order, those of a
fresh table that is given the pushes of that key only. -/
theorem tables_isolate_keys (max maxBytes : ℕ) (key : κ) :
    (∀ segs : List (Segment κ), StreamTable.NoneRefused (.new max maxBytes) segs →
      ((StreamTable.new max maxBytes).returns segs).filter (fun p => p.1.key = key) =
        (StreamTable.new max maxBytes).returns (segs.filter fun g => g.key = key)) ∧
    (∀ frags : List (Fragment κ), FragTable.NoneRefused (.new max maxBytes) frags →
      ((FragTable.new max maxBytes).returns frags).filter (fun p => p.1.key = key) =
        (FragTable.new max maxBytes).returns (frags.filter fun g => g.key = key)) := by
  constructor
  · intro segs h
    exact (StreamTable.keyed max maxBytes).answers_filter key (StreamTable.noneRefused_iff.mp h)
      (h.allServed_filter key) rfl
  · intro frags h
    exact (FragTable.keyed max maxBytes).answers_filter key (FragTable.noneRefused_iff.mp h)
      (h.allServed_filter key) rfl

/-- Two streams and two datagrams, one push of the one between two of the other. -/
theorem tables_isolate_keys_interleaved :
    ((StreamTable.new 2 16).returns
        [⟨1, 1000, [1, 2]⟩, ⟨2, 1000, [9]⟩, ⟨1, 1002, [3]⟩]).filter (fun p => p.1.key = 1) =
      (StreamTable.new 2 16).returns [⟨1, 1000, [1, 2]⟩, ⟨1, 1002, [3]⟩] ∧
    ((FragTable.new 2 16).returns
        [⟨1, 8, false, [2]⟩, ⟨2, 0, true, [9]⟩, ⟨1, 0, true, [1]⟩]).filter (fun p => p.1.key = 1) =
      (FragTable.new 2 16).returns [⟨1, 8, false, [2]⟩, ⟨1, 0, true, [1]⟩] := by
  obtain ⟨hstreams, hfrags⟩ := tables_isolate_keys 2 16 1
  constructor
  · refine hstreams [⟨1, 1000, [1, 2]⟩, ⟨2, 1000, [9]⟩, ⟨1, 1002, [3]⟩] ?_
    refine StreamTable.noneRefused_iff.mpr ⟨⟨rfl, fun _ => ?_, rfl⟩, ⟨rfl, fun _ => ?_, rfl⟩,
      ⟨rfl, fun _ => ?_, rfl⟩, trivial⟩ <;> decide
  · refine hfrags [⟨1, 8, false, [2]⟩, ⟨2, 0, true, [9]⟩, ⟨1, 0, true, [1]⟩] ?_
    refine FragTable.noneRefused_iff.mpr ⟨⟨rfl, ?_, rfl⟩, ⟨rfl, ?_, rfl⟩, ⟨rfl, ?_, rfl⟩,
      trivial⟩ <;> decide

end PcapRacer
