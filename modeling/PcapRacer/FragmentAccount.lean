/-
**The account of fragmented datagrams.**

A set of fragments leaves the table when it is complete or over its byte budget, and each time one
of the two counters of the table goes up; a fragment that finds no room for its datagram is counted
too.  At the end of a run the counters are copied into the statistics, and nothing is said of the
sets that are still in the table.

What becomes of a fragment is decided by the fragments that are held when it arrives: whether they
leave room for its datagram, how many bytes those of its datagram bring, and which positions they
cover.  This module keeps the fragments that are held in a list, reads the fate of each new one off
that list, and shows that the table reports a datagram whenever the fate of one of its fragments is
not to wait.

Main definitions:

* `FragTable.reports` — the increments of the counters along a run, with the keys they belong to;
* `FragTable.Accepted` — a fragment of the datagram was taken into the table;
* `Fragment.fate`, `Fragment.fates` — what becomes of a fragment among those that are held, and of
  the fragments of a list;
* `FragTable.Holds` — the table holds the fragments of a list.

Main results:

* `FragTable.counter_run` — the counters are the numbers of reports;
* `FragTable.Holds.pushFragment` — **one push follows the fate of its fragment**;
* `run_reported_once_iff` — every accepted datagram is reported exactly once, exactly when exactly
  one of its fragments does not wait.
-/

import PcapRacer.FragTableOrder
import PcapRacer.FragTableOverlap
import PcapRacer.FragmentRows
import Mathlib.Data.List.Dedup

set_option relaxedAutoImplicit false
set_option autoImplicit false

namespace PcapRacer

open BoundedTable (len Refuses)
open ChunkedRun (scan emit Ending)

/-- What a counter says of a datagram. -/
inductive FragReport where
  | reassembled
  | dropped
  deriving DecidableEq

/-! ### The fate of a fragment -/

/-- What becomes of a fragment. -/
inductive FragFate where
  /-- It is new and there is no room for another datagram. -/
  | refused
  /-- It brings its datagram over the byte budget. -/
  | bursts
  /-- It completes its datagram. -/
  | fills
  /-- It is held. -/
  | waits
  deriving DecidableEq

namespace Fragment

variable {κ : Type} [DecidableEq κ]

/-- None of the fragments that are held is of this datagram, and they are of as many datagrams as
there may be. -/
def NoRoom (maxSets : ℕ) (held : List (Fragment κ)) (key : κ) : Prop :=
  FragTable.fragmentsOf key held = [] ∧ maxSets ≤ (held.map Fragment.key).dedup.length

instance (maxSets : ℕ) (held : List (Fragment κ)) (key : κ) : Decidable (NoRoom maxSets held key) :=
  inferInstanceAs (Decidable (_ ∧ _))

/-- The fragments of the datagram, with this one. -/
def withHeld (held : List (Fragment κ)) (g : Fragment κ) : List (Fragment κ) :=
  FragTable.fragmentsOf g.key held ++ [g]

/-- The fate of a fragment among those that are held: there is no room for it, it bursts the byte
budget of its datagram, it leaves neither a hole nor a stray fragment in it, or it waits. -/
def fate (maxSets maxBytes : ℕ) (held : List (Fragment κ)) (g : Fragment κ) : FragFate :=
  if NoRoom maxSets held g.key then .refused
  else if maxBytes < ((withHeld held g).map fun m => m.data.length).sum then .bursts
  else if FullyCovered (withHeld held g) ∧ NoStray (withHeld held g) then .fills
  else .waits

/-- The fragments that are held afterwards. -/
def heldAfter (held : List (Fragment κ)) (g : Fragment κ) : FragFate → List (Fragment κ)
  | .refused => held
  | .bursts | .fills => held.filter fun m => m.key ≠ g.key
  | .waits => held ++ [g]

/-- The fates of fragments, in the order of their arrival, with their keys. -/
def fates (maxSets maxBytes : ℕ) : List (Fragment κ) → List (Fragment κ) → List (κ × FragFate)
  | _, [] => []
  | held, g :: gs =>
      let f := fate maxSets maxBytes held g
      (g.key, f) :: fates maxSets maxBytes (heldAfter held g f) gs

end Fragment

namespace FragTable

variable {κ : Type} [DecidableEq κ]

/-! ### Reports -/

/-- The counter of the table for each kind of report. -/
def counter (t : FragTable κ) : FragReport → ℕ
  | .reassembled => t.completed
  | .dropped => t.dropped

/-- The counter that a push increments. -/
def report (t : FragTable κ) (g : Fragment κ) : Option FragReport :=
  if t.completed < (t.pushFragment g).2.completed then some .reassembled
  else if t.dropped < (t.pushFragment g).2.dropped then some .dropped
  else none

/-- The increments of the counters along a run, with the keys of the fragments that caused them. -/
def reports : FragTable κ → List (Fragment κ) → List (κ × FragReport)
  | _, [] => []
  | t, g :: gs => ((t.report g).map fun r => (g.key, r)).toList ++ reports (t.pushFragment g).2 gs

/-- At least one fragment of the datagram was taken into the table. -/
def Accepted (t : FragTable κ) (gs : List (Fragment κ)) (key : κ) : Prop :=
  ∃ pre g, pre ++ [g] <+: gs ∧ g.key = key ∧ (t.run pre).Accepts g

/-! ### One push -/

theorem report_of_refuses {t : FragTable κ} {g : Fragment κ}
    (h : Refuses t.maxSets t.sets g.key) : t.report g = some .dropped := by
  have hpush : t.pushFragment g = (none, { t with dropped := t.dropped + 1 }) :=
    push_of_refuses h _ _ _
  rw [report, hpush, if_neg (Nat.lt_irrefl _), if_pos (Nat.lt_succ_self _)]

theorem pushFragment_of_admits {t : FragTable κ} {g : Fragment κ}
    (h : ¬ Refuses t.maxSets t.sets g.key) :
    t.pushFragment g =
      t.settle g.key ((t.entry g.key).add t.maxBytes g.offset g.moreFragments g.data) :=
  push_of_admits h _ _ _

/-- A push changes the counters by what it reports. -/
theorem counter_pushFragment (t : FragTable κ) (g : Fragment κ) (r : FragReport) :
    (t.pushFragment g).2.counter r = t.counter r + if t.report g = some r then 1 else 0 := by
  by_cases hr : Refuses t.maxSets t.sets g.key
  · have hpush : t.pushFragment g = (none, { t with dropped := t.dropped + 1 }) :=
      push_of_refuses hr _ _ _
    rw [report_of_refuses hr, hpush]
    cases r <;> rfl
  · unfold report
    rw [pushFragment_of_admits hr]
    cases (t.entry g.key).add t.maxBytes g.offset g.moreFragments g.data with
    | overBudget => cases r <;> simp [settle, counter]
    | waiting set => cases r <;> simp [settle, counter]
    | complete out => cases r <;> simp [settle, counter]

/-- **The counters are the numbers of reports.** -/
theorem counter_run (t : FragTable κ) (gs : List (Fragment κ)) (r : FragReport) :
    (t.run gs).counter r = t.counter r + (reports t gs).countP (fun x => x.2 = r) := by
  induction gs generalizing t with
  | nil => rfl
  | cons g gs ih =>
      have hrun : t.run (g :: gs) = (t.pushFragment g).2.run gs := rfl
      rw [hrun, ih, counter_pushFragment, reports, List.countP_append]
      cases t.report g with
      | none => simp
      | some r' =>
          by_cases h : r' = r
          · simp [h]
            omega
          · simp [h]

/-- A datagram is accepted at the first fragment or later. -/
theorem accepted_cons (t : FragTable κ) (g : Fragment κ) (gs : List (Fragment κ)) (key : κ) :
    t.Accepted (g :: gs) key ↔
      g.key = key ∧ t.Accepts g ∨ (t.pushFragment g).2.Accepted gs key := by
  constructor
  · rintro ⟨pre, m, hpre, hkey, hacc⟩
    cases pre with
    | nil =>
        obtain rfl : m = g := (List.cons_prefix_cons.1 hpre).1
        exact Or.inl ⟨hkey, hacc⟩
    | cons x pre =>
        obtain ⟨rfl, hpre'⟩ := List.cons_prefix_cons.1 hpre
        exact Or.inr ⟨pre, m, hpre', hkey, hacc⟩
  · rintro (⟨hkey, hacc⟩ | ⟨pre, m, hpre, hkey, hacc⟩)
    · exact ⟨[], g, List.cons_prefix_cons.2 ⟨rfl, List.nil_prefix⟩, hkey, hacc⟩
    · exact ⟨g :: pre, m, List.cons_prefix_cons.2 ⟨rfl, hpre⟩, hkey, hacc⟩

/-! ### The fragments that are held -/

/-- The report on a fragment of a given fate. -/
def reportOf : FragFate → Option FragReport
  | .refused | .bursts => some .dropped
  | .fills => some .reassembled
  | .waits => none

/-- The table holds these fragments: its sets represent those of their datagrams, and there is a set
for every datagram of which one is held. -/
structure Holds (t : FragTable κ) (held : List (Fragment κ)) : Prop where
  made : ∀ key, (t.entry key).MadeOf (fragmentsOf key held)
  there : ∀ key, key ∈ t.sets ↔ fragmentsOf key held ≠ []

theorem fragmentsOf_concat_self (held : List (Fragment κ)) (g : Fragment κ) :
    fragmentsOf g.key (held ++ [g]) = Fragment.withHeld held g := by
  simp [fragmentsOf, Fragment.withHeld]

theorem fragmentsOf_concat_of_ne (held : List (Fragment κ)) {g : Fragment κ} {key : κ}
    (h : key ≠ g.key) : fragmentsOf key (held ++ [g]) = fragmentsOf key held := by
  simp [fragmentsOf, h.symm]

theorem fragmentsOf_without_self (held : List (Fragment κ)) (key : κ) :
    fragmentsOf key (held.filter fun m => m.key ≠ key) = [] := by
  simp [fragmentsOf, List.filter_filter]

theorem fragmentsOf_without_of_ne (held : List (Fragment κ)) {key key' : κ} (h : key ≠ key') :
    fragmentsOf key (held.filter fun m => m.key ≠ key') = fragmentsOf key held := by
  rw [fragmentsOf, fragmentsOf, List.filter_filter]
  refine List.filter_congr fun m _ => ?_
  by_cases hm : m.key = key
  · simp [hm, h]
  · simp [hm]

namespace Holds

variable {t : FragTable κ} {held : List (Fragment κ)}

/-- A new table holds nothing. -/
theorem nil (maxSets maxBytes : ℕ) : (new maxSets maxBytes : FragTable κ).Holds [] where
  made _ := .empty
  there key := ⟨fun h => absurd h (AList.notMem_empty key), fun h => absurd rfl h⟩

/-- There is a set for every key of a fragment that is held. -/
theorem len_sets (h : t.Holds held) : len t.sets = (held.map Fragment.key).dedup.length := by
  refine (List.Perm.length_eq <|
    (List.perm_ext_iff_of_nodup t.sets.keys_nodup (List.nodup_dedup _)).2 fun key => ?_)
  rw [← AList.mem_keys, h.there, List.mem_dedup, List.mem_map, fragmentsOf, Ne,
    List.filter_eq_nil_iff]
  simp

/-- The table refuses a fragment exactly when those that are held leave no room. -/
theorem refuses_iff (h : t.Holds held) (key : κ) :
    Refuses t.maxSets t.sets key ↔ Fragment.NoRoom t.maxSets held key := by
  rw [Refuses, Fragment.NoRoom, h.there, h.len_sets, not_not]

/-- The bytes of its datagram that a fragment makes. -/
theorem bytes_withHeld (h : t.Holds held) (g : Fragment κ) :
    (t.entry g.key).bytesHeld + g.data.length =
      ((Fragment.withHeld held g).map fun m => m.data.length).sum := by
  rw [(h.made g.key).bytesHeld, Fragment.withHeld, List.map_append, List.sum_append,
    List.map_singleton, List.sum_singleton]

/-- The set of a datagram is gone: its fragments are not held any more. -/
theorem erase (h : t.Holds held) {t' : FragTable κ} {key : κ} (hsets : t'.sets = t.sets.erase key) :
    t'.Holds (held.filter fun m => m.key ≠ key) := by
  have hself : t'.entry key = {} := by
    rw [entry, hsets, AList.lookup_erase]
    rfl
  have hother : ∀ key', key' ≠ key → t'.entry key' = t.entry key' := fun key' hne => by
    rw [entry, hsets, AList.lookup_erase_ne hne, entry]
  refine ⟨fun key' => ?_, fun key' => ?_⟩
  · by_cases hne : key' = key
    · rw [hne, hself, fragmentsOf_without_self]
      exact .empty
    · rw [hother key' hne, fragmentsOf_without_of_ne held hne]
      exact h.made key'
  · rw [hsets, AList.mem_erase]
    by_cases hne : key' = key
    · rw [hne, fragmentsOf_without_self]
      simp
    · rw [fragmentsOf_without_of_ne held hne, ← h.there key']
      simp [hne]

/-- The set of a datagram has one more fragment. -/
theorem insert (h : t.Holds held) {t' : FragTable κ} {g : Fragment κ} {set : FragSet}
    (hset : set.MadeOf (Fragment.withHeld held g)) (hsets : t'.sets = t.sets.insert g.key set) :
    t'.Holds (held ++ [g]) := by
  have hself : t'.entry g.key = set := by
    rw [entry, hsets, AList.lookup_insert]
    rfl
  have hother : ∀ key, key ≠ g.key → t'.entry key = t.entry key := fun key hne => by
    rw [entry, hsets, AList.lookup_insert_ne hne, entry]
  refine ⟨fun key => ?_, fun key => ?_⟩
  · by_cases hne : key = g.key
    · rw [hne, hself, fragmentsOf_concat_self]
      exact hset
    · rw [hother key hne, fragmentsOf_concat_of_ne held hne]
      exact h.made key
  · rw [hsets, AList.mem_insert]
    by_cases hne : key = g.key
    · rw [hne, fragmentsOf_concat_self]
      simp [Fragment.withHeld]
    · rw [fragmentsOf_concat_of_ne held hne, ← h.there key]
      simp [hne]

/-- **One push follows the fate of its fragment**: the table reports what the fate says, takes the
fragment when it waits or fills, and holds what is held afterwards. -/
theorem pushFragment (h : t.Holds held) (g : Fragment κ) :
    t.report g = reportOf (Fragment.fate t.maxSets t.maxBytes held g) ∧
      (t.Accepts g ↔ Fragment.fate t.maxSets t.maxBytes held g ∈ [.fills, .waits]) ∧
      (t.pushFragment g).2.Holds
        (Fragment.heldAfter held g (Fragment.fate t.maxSets t.maxBytes held g)) := by
  by_cases hroom : Refuses t.maxSets t.sets g.key
  · -- no room
    have hpush : t.pushFragment g = (none, { t with dropped := t.dropped + 1 }) :=
      push_of_refuses hroom _ _ _
    rw [Fragment.fate, if_pos ((h.refuses_iff _).1 hroom), report_of_refuses hroom, hpush]
    exact ⟨rfl, ⟨fun hacc => absurd hroom hacc.1, fun hf => by simp at hf⟩, ⟨h.made, h.there⟩⟩
  rw [Fragment.fate, if_neg (mt (h.refuses_iff _).2 hroom), report, pushFragment_of_admits hroom,
    ← h.bytes_withHeld]
  by_cases hbudget : t.maxBytes < (t.entry g.key).bytesHeld + g.data.length
  · -- over the budget
    rw [if_pos hbudget, FragSet.add, if_pos hbudget]
    refine ⟨?_, ⟨fun hacc => absurd hacc.2 (Nat.not_le.mpr hbudget), fun hf => by simp at hf⟩,
      h.erase rfl⟩
    simp [settle, reportOf]
  have hacc : t.Accepts g := ⟨hroom, Nat.le_of_not_lt hbudget⟩
  have hmade : ((t.entry g.key).record g.offset g.moreFragments g.data).MadeOf
      (Fragment.withHeld held g) := (h.made g.key).record g
  rw [if_neg hbudget, FragSet.add, if_neg hbudget]
  cases hset : ((t.entry g.key).record g.offset g.moreFragments g.data).tryComplete with
  | overBudget => exact absurd hset (FragSet.tryComplete_ne_overBudget _)
  | waiting set =>
      have hnot : ¬ (FullyCovered (Fragment.withHeld held g) ∧
          NoStray (Fragment.withHeld held g)) := fun hfull => by
        obtain ⟨out, hout⟩ := hmade.complete_iff.2 hfull
        rw [hset] at hout
        cases hout
      rw [if_neg hnot]
      refine ⟨?_, ⟨fun _ => by simp, fun _ => hacc⟩, h.insert (hmade.of_waiting hset) rfl⟩
      simp [settle, reportOf]
  | complete out =>
      rw [if_pos (hmade.complete_iff.1 ⟨out, hset⟩)]
      refine ⟨?_, ⟨fun _ => by simp, fun _ => hacc⟩, h.erase rfl⟩
      simp [settle, reportOf]

/-- The reports along a run are those on the fates of the fragments. -/
theorem reports (h : t.Holds held) (gs : List (Fragment κ)) :
    t.reports gs = (Fragment.fates t.maxSets t.maxBytes held gs).filterMap fun f =>
      (reportOf f.2).map fun r => (f.1, r) := by
  induction gs generalizing t held with
  | nil => rfl
  | cons g gs ih =>
      obtain ⟨hreport, -, hholds⟩ := h.pushFragment g
      have hrest := ih hholds
      rw [pushFragment_maxSets, pushFragment_maxBytes] at hrest
      rw [FragTable.reports, Fragment.fates, List.filterMap_cons, hrest, hreport]
      cases reportOf (Fragment.fate t.maxSets t.maxBytes held g) <;> rfl

/-- The reports on a datagram are on its fragments that do not wait. -/
theorem countP_reports (h : t.Holds held) (gs : List (Fragment κ)) (key : κ) :
    (t.reports gs).countP (fun r => r.1 = key) =
      (Fragment.fates t.maxSets t.maxBytes held gs).countP
        fun f => f.1 = key ∧ f.2 ≠ .waits := by
  rw [h.reports, List.countP_filterMap]
  refine List.countP_congr fun f _ => ?_
  obtain ⟨k, f⟩ := f
  cases f <;> simp [reportOf]

/-- A datagram is accepted exactly when one of its fragments fills it or waits. -/
theorem accepted_iff (h : t.Holds held) (gs : List (Fragment κ)) (key : κ) :
    t.Accepted gs key ↔
      ∃ f ∈ Fragment.fates t.maxSets t.maxBytes held gs, f.1 = key ∧ f.2 ∈ [.fills, .waits] := by
  induction gs generalizing t held with
  | nil =>
      refine ⟨?_, fun ⟨f, hf, _⟩ => absurd hf List.not_mem_nil⟩
      rintro ⟨pre, g, hpre, -⟩
      have := hpre.length_le
      simp at this
  | cons g gs ih =>
      obtain ⟨-, hacc, hholds⟩ := h.pushFragment g
      have hrest := ih hholds
      rw [pushFragment_maxSets, pushFragment_maxBytes] at hrest
      rw [accepted_cons, hrest, hacc, Fragment.fates]
      simp only [List.mem_cons, exists_eq_or_imp]

end Holds

end FragTable

/-! ### Runs -/

section Run

variable [Hashes]

/-- The fragments that a run pushes. -/
def pushedFragments (records : List RawPacket) : List (Fragment FragKey) :=
  records.filterMap fun r => (dissectOne r.own true).frag.map FragMeta.fragment

/-- The fragment table along a run. -/
theorem scan_frags {e e' : Engine} {os : List Owned} {rows : List Packet}
    (hre : e.reassemble = true) (h : scan (Engine.step true) e os = .ok (e', rows)) :
    e'.frags = e.frags.run (os.filterMap fun o => (dissectOne o true).frag.map FragMeta.fragment) := by
  induction os generalizing e rows with
  | nil =>
      cases h
      rfl
  | cons o os ih =>
      obtain ⟨e₁, row, rows₁, hs, hr, rfl⟩ := ChunkedRun.exists_of_scan_cons h
      have hre' : e₁.reassemble = true := (Engine.absorbOne_numbered hs).2.2.trans hre
      rw [ih hre' hr, Engine.absorbOne_frags hre hs]
      cases hd : (dissectOne o true).frag with
      | none => simp [hd]
      | some m =>
          rw [List.filterMap_cons_some (b := m.fragment) (by rw [hd]; rfl)]
          rfl

/-- **The account of fragmented datagrams.**  At the end of a run with reassembly the statistics
count the reports of the fragment table; every datagram of which a fragment was accepted is reported
exactly once, as reassembled or as dropped, exactly when the fate of exactly one of its fragments is
not to wait: it fills the datagram, bursts its budget or finds no room. -/
theorem run_reported_once_iff {ε : Type} (pool : ThreadPool) (cfg : Config)
    (onBatch : List (List Packet) → Except ε Unit) (records : List RawPacket) (badBlocks : ℕ)
    (hre : cfg.reassemble = true) {stats : RunStats} {flows : FlowTable}
    (h : (run pool cfg onBatch records badBlocks).result = .finished stats flows) :
    let t := FragTable.new cfg.maxFragSets cfg.maxFragBytes
    let gs := pushedFragments records
    let fates := Fragment.fates cfg.maxFragSets cfg.maxFragBytes [] gs
    stats.fragmentsReassembled = (t.reports gs).countP (fun r => r.2 = .reassembled) ∧
    stats.fragmentsDropped = (t.reports gs).countP (fun r => r.2 = .dropped) ∧
    ((∀ key, t.Accepted gs key → (t.reports gs).countP (fun r => r.1 = key) = 1) ↔
      ∀ key, (∃ f ∈ fates, f.1 = key ∧ f.2 ∈ [.fills, .waits]) →
        fates.countP (fun f => f.1 = key ∧ f.2 ≠ .waits) = 1) := by
  obtain ⟨e, hscan, rfl, rfl⟩ := scan_of_finished h
  rw [hre] at hscan
  have hfrags := scan_frags hre hscan
  rw [List.filterMap_map] at hfrags
  have hcount := FragTable.counter_run (FragTable.new cfg.maxFragSets cfg.maxFragBytes)
    (pushedFragments records)
  obtain ⟨-, -, -, -, hreassembled, hdropped⟩ :=
    Engine.finalizeStats_tables { e with stats := { e.stats with badBlocks } }
  have hholds := FragTable.Holds.nil (κ := FragKey) cfg.maxFragSets cfg.maxFragBytes
  refine ⟨?_, ?_, forall_congr' fun key => ?_⟩
  · rw [hreassembled, hfrags]
    exact (hcount .reassembled).trans (Nat.zero_add _)
  · rw [hdropped, hfrags]
    exact (hcount .dropped).trans (Nat.zero_add _)
  · rw [hholds.countP_reports, hholds.accepted_iff]
    exact Iff.rfl

end Run

/-! ### A datagram that bursts its budget, and one that is left behind -/

/-- With a budget of ten bytes the first fragment waits and the second one bursts the budget; the
datagram is reported once. -/
theorem run_reported_once_burst :
    10 < udpHeader.length + dnsHeader.length ∧
    ∀ (_ : Hashes) (pool : ThreadPool), ∃ stats flows,
    (run pool { maxFragBytes := 10 } (fun _ => (.ok () : Except Unit Unit))
      [headerFragment, lastFragment] 0).result = .finished stats flows ∧
    stats.fragmentsDropped = 1 ∧
    Fragment.fates (2 ^ 16) 10 [] (pushedFragments [headerFragment, lastFragment]) =
      [(fragmentKey, .waits), (fragmentKey, .bursts)] ∧
    ((∀ key, (FragTable.new (2 ^ 16) 10).Accepted (pushedFragments [headerFragment, lastFragment]) key →
        ((FragTable.new (2 ^ 16) 10).reports
          (pushedFragments [headerFragment, lastFragment])).countP (fun r => r.1 = key) = 1) ↔
      ∀ key, (∃ f ∈ Fragment.fates (2 ^ 16) 10 [] (pushedFragments [headerFragment, lastFragment]),
          f.1 = key ∧ f.2 ∈ [.fills, .waits]) →
        (Fragment.fates (2 ^ 16) 10 []
          (pushedFragments [headerFragment, lastFragment])).countP
            (fun f => f.1 = key ∧ f.2 ≠ .waits) = 1) := by
  refine ⟨by decide, fun _ pool => ?_⟩
  obtain ⟨stats, flows, hfin⟩ : ∃ stats flows,
      (run pool { maxFragBytes := 10 } (fun _ => (.ok () : Except Unit Unit))
        [headerFragment, lastFragment] 0).result = .finished stats flows := ⟨_, _, rfl⟩
  obtain ⟨-, hdropped, hiff⟩ := run_reported_once_iff pool { maxFragBytes := 10 } _
    [headerFragment, lastFragment] 0 rfl hfin
  exact ⟨stats, flows, hfin, hdropped.trans rfl, rfl, hiff⟩

/-- The datagram with a hole is accepted, still incomplete at the end, and reported nowhere. -/
theorem run_unreported :
    udpHeader.length < 16 ∧
    ∀ (_ : Hashes) (pool : ThreadPool), ∃ stats flows,
    (run pool {} (fun _ => (.ok () : Except Unit Unit))
      [headerFragment, lastFragment] 0).result = .finished stats flows ∧
    (FragTable.new (2 ^ 16) (2 ^ 16)).Accepted (pushedFragments [headerFragment, lastFragment])
      fragmentKey ∧
    stats.fragmentsReassembled = 0 ∧ stats.fragmentsDropped = 0 := by
  refine ⟨by decide, fun _ pool => ?_⟩
  refine ⟨_, _, rfl, ⟨[], ⟨fragmentKey, 0, true, udpHeader⟩, ?_, rfl, ?_⟩, rfl, rfl⟩
  · exact ⟨[⟨fragmentKey, 16, false, dnsHeader⟩], rfl⟩
  · exact ⟨by decide, by decide⟩

end PcapRacer
