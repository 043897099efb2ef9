/-
**The totals of a run.**

The metadata of a run says how many packets it saw, how many bytes they had, how many of them were
malformed, panicked or cut short, and when the first and the last of them was captured.  All of this
is tallied while records are absorbed, and none of it is read off the packet table.  The two agree:
each total is the aggregate of a column over the rows that the run delivers.

The exception is the interval.  A record with time stamp zero does not count for it, and an interval
that starts at the largest time stamp there is stands for none at all.

Main definitions:

* `Engine.Stamped` — what a row keeps of its record;
* `captureTimes` — the time stamps that count for the interval of a run;
* `RunStats.Tallies` — the counters are aggregates of the rows.

Main results:

* `Engine.step_stamped` — every row keeps its record;
* `Engine.step_tallies` — absorbing a record keeps the counters aggregates of the rows;
* `run_totals` — **the metadata of a run is the aggregate of its rows**.
-/

import Mathlib.Algebra.BigOperators.Group.List.Basic
import Mathlib.Order.Bounds.Basic
import PcapRacer.FlowDuration
import PcapRacer.StackColumns

set_option relaxedAutoImplicit false
set_option autoImplicit false

namespace PcapRacer

open ChunkedRun (scan)

/-! ### Rows and records -/

namespace Engine

/-- The row is that of a record, dissected as `d` and absorbed as number `n`. -/
structure Stamped (o : Owned) (d : Dissected) (n : ℕ) (row : Packet) : Prop where
  packetId : row.frame.packetId = some n
  frameNumber : row.frame.frameNumber = some (n + 1)
  ts : row.frame.ts = some o.tsNs
  tsEpochNs : row.frame.tsEpochNs = some o.tsNs
  frameLen : row.frame.frameLen = some o.origLen
  capLen : row.frame.capLen = some o.capLen
  truncated : row.frame.truncated = some o.truncated
  malformed : row.frame.malformed = some d.malformed
  panicked : row.frame.panicked = some d.panicked

/-- A row with the same stamp keeps the same record. -/
theorem Stamped.congr {o : Owned} {d : Dissected} {n : ℕ} {row row' : Packet}
    (h : Stamped o d n row) (hstamp : stamp row' = stamp row) : Stamped o d n row' where
  packetId := (congrArg FrameCols.packetId hstamp).trans h.packetId
  frameNumber := (congrArg FrameCols.frameNumber hstamp).trans h.frameNumber
  ts := (congrArg FrameCols.ts hstamp).trans h.ts
  tsEpochNs := (congrArg FrameCols.tsEpochNs hstamp).trans h.tsEpochNs
  frameLen := (congrArg FrameCols.frameLen hstamp).trans h.frameLen
  capLen := (congrArg FrameCols.capLen hstamp).trans h.capLen
  truncated := (congrArg FrameCols.truncated hstamp).trans h.truncated
  malformed := (congrArg FrameCols.malformed hstamp).trans h.malformed
  panicked := (congrArg FrameCols.panicked hstamp).trans h.panicked

variable [Hashes]

/-- The first pass keeps the columns of the record, whether it ends or panics. -/
theorem numbered_stamped (e : Engine) (o : Owned) (defer : Bool) :
    Stamped o (dissectOne o defer) e.nextPacketId (e.numbered (dissectOne o defer).pkt) := by
  obtain ⟨r, ctx, hwalk, hone, -⟩ | hpanic := dissectOne_tells o defer
  · have hframe : stamp ctx.pkt = stamp (frameCtx o defer).pkt := stamp_arrive hwalk
    rw [hone]
    exact ⟨rfl, rfl, congrArg FrameCols.ts hframe, congrArg FrameCols.tsEpochNs hframe,
      congrArg FrameCols.frameLen hframe, congrArg FrameCols.capLen hframe,
      congrArg FrameCols.truncated hframe, rfl, rfl⟩
  · rw [hpanic]
    exact ⟨rfl, rfl, rfl, rfl, rfl, rfl, rfl, rfl, rfl⟩

/-- **Every row keeps its record.** -/
theorem step_stamped {defer : Bool} {e e' : Engine} {o : Owned} {row : Packet}
    (h : step defer e o = .ok (e', row)) :
    Stamped o (dissectOne o defer) e.nextPacketId row :=
  (numbered_stamped e o defer).congr (absorbOne_ok h).1

end Engine

/-! ### Aggregates -/

/-- The time stamps that count for the interval of a run. -/
def captureTimes (rows : List Packet) : List Int := (rows.filterMap (·.frame.ts)).filter (· ≠ 0)

/-- The counters are aggregates of the rows. -/
structure RunStats.Tallies (s : RunStats) (rows : List Packet) : Prop where
  packets : s.packets = rows.length
  captureBytes : s.captureBytes = (rows.map fun r => (r.frame.capLen.getD 0).toNat).sum
  malformed : s.malformed = rows.countP (·.frame.malformed = some true)
  panicked : s.panicked = rows.countP (·.frame.panicked = some true)
  truncated : s.truncated = rows.countP (·.frame.truncated = some true)
  firstTsNs : s.firstTsNs = (captureTimes rows).foldl min Engine.tsMax
  lastTsNs : s.lastTsNs = (captureTimes rows).foldl max Engine.tsMin

theorem captureTimes_concat {rows : List Packet} {row : Packet} {t : Int}
    (h : row.frame.ts = some t) :
    captureTimes (rows ++ [row]) = captureTimes rows ++ if t = 0 then [] else [t] := by
  unfold captureTimes
  rw [List.filterMap_append, List.filter_append, List.filterMap_cons, h, List.filterMap_nil]
  by_cases ht : t = 0 <;> simp [ht]

/-- A flag that counts a row is counted. -/
theorem countP_concat_flag {rows : List Packet} {row : Packet} {column : Packet → Option Bool}
    {b : Bool} (h : column row = some b) {n : ℕ} (hn : n = rows.countP (column · = some true)) :
    (if b then n + 1 else n) = (rows ++ [row]).countP (column · = some true) := by
  rw [List.countP_append, List.countP_singleton, h, ← hn]
  cases b <;> simp

/-- Counting one more packet. -/
theorem RunStats.Tallies.count {s : RunStats} {rows : List Packet} (h : s.Tallies rows) {o : Owned}
    {d : Dissected} {n : ℕ} {row : Packet} (hrow : Engine.Stamped o d n row) :
    (Engine.countPacket s o d).Tallies (rows ++ [row]) where
  packets := by
    rw [List.length_append, ← h.packets]
    rfl
  captureBytes := by
    rw [List.map_append, List.sum_append, ← h.captureBytes, List.map_singleton,
      List.sum_singleton, hrow.capLen]
    rfl
  malformed := countP_concat_flag hrow.malformed h.malformed
  panicked := countP_concat_flag hrow.panicked h.panicked
  truncated := countP_concat_flag hrow.truncated h.truncated
  firstTsNs := by
    rw [captureTimes_concat hrow.ts, List.foldl_append, ← h.firstTsNs]
    unfold Engine.countPacket
    dsimp only
    split <;> rfl
  lastTsNs := by
    rw [captureTimes_concat hrow.ts, List.foldl_append, ← h.lastTsNs]
    unfold Engine.countPacket
    dsimp only
    split <;> rfl

/-- **Absorbing a record keeps the counters aggregates of the rows.** -/
theorem Engine.step_tallies [Hashes] {defer : Bool} {e e' : Engine} {o : Owned}
    {rows : List Packet} {row : Packet} (hrows : e.stats.Tallies rows)
    (h : step defer e o = .ok (e', row)) : e'.stats.Tallies (rows ++ [row]) := by
  have hrow := step_stamped h
  obtain ⟨⟨frags, fragTuple, pkt⟩, -, h⟩ := bind_eq_ok_iff.mp h
  obtain ⟨⟨e₁, pkt₁⟩, hjoin, he⟩ := bind_eq_ok_iff.mp h
  cases he
  obtain ⟨-, -, -, hstats, -⟩ := joinFlow_ok hjoin
  change (countPacket e₁.stats o (dissectOne o defer)).Tallies (rows ++ [row])
  rw [hstats]
  exact hrows.count hrow

/-- The counters of a fold over records are aggregates of its rows. -/
theorem Engine.scan_tallies [Hashes] {cfg : Config} {e : Engine} {os : List Owned}
    {rows : List Packet}
    (h : scan (step cfg.reassemble) (new cfg) os = .ok (e, rows)) : e.stats.Tallies rows :=
  ChunkedRun.scan_history (I := fun rows e => e.stats.Tallies rows) []
    (fun _ _ _ _ _ _ hrows h => step_tallies hrows h)
    ⟨rfl, rfl, rfl, rfl, rfl, rfl, rfl⟩ h

/-! ### The interval -/

/-- Folding with the smaller of two finds the least. -/
theorem isLeast_foldl_min {α : Type} [LinearOrder α] (ts : List α) (top : α) :
    IsLeast {t | t ∈ top :: ts} (ts.foldl min top) := by
  induction ts generalizing top with
  | nil => exact ⟨List.mem_cons_self, fun t ht => (List.mem_singleton.mp ht).ge⟩
  | cons t ts ih =>
      obtain ⟨hmem, hle⟩ := ih (min top t)
      rw [List.foldl_cons]
      refine ⟨?_, fun x hx => ?_⟩
      · rcases List.mem_cons.mp hmem with heq | hmem
        · rcases min_choice top t with hmin | hmin
          · exact List.mem_cons.mpr (.inl (heq.trans hmin))
          · exact List.mem_cons_of_mem _ (List.mem_cons.mpr (.inl (heq.trans hmin)))
        · exact List.mem_cons_of_mem _ (List.mem_cons_of_mem _ hmem)
      · have hstart := hle List.mem_cons_self
        rcases List.mem_cons.mp hx with rfl | hx
        · exact hstart.trans (min_le_left _ _)
        rcases List.mem_cons.mp hx with rfl | hx
        · exact hstart.trans (min_le_right _ _)
        · exact hle (List.mem_cons_of_mem _ hx)

theorem isGreatest_foldl_max {α : Type} [LinearOrder α] (ts : List α) (bottom : α) :
    IsGreatest {t | t ∈ bottom :: ts} (ts.foldl max bottom) :=
  isLeast_foldl_min (α := αᵒᵈ) ts bottom

/-- A start that is no element and bounds the elements does not matter. -/
theorem isLeast_of_cons {α : Type} [LinearOrder α] {ts : List α} {top least : α}
    (h : IsLeast {t | t ∈ top :: ts} least) (hne : ts ≠ []) (htop : ∀ t ∈ ts, t ≤ top) :
    IsLeast {t | t ∈ ts} least := by
  refine ⟨?_, fun t ht => h.2 (List.mem_cons_of_mem _ ht)⟩
  rcases List.mem_cons.mp h.1 with rfl | hmem
  · -- the start is least, so every element equals it
    obtain ⟨t, ht⟩ := List.exists_mem_of_ne_nil ts hne
    have heq : t = least := le_antisymm (htop t ht) (h.2 (List.mem_cons_of_mem _ ht))
    exact heq ▸ ht
  · exact hmem

/-- A time stamp of 64 bits. -/
def InClock (t : Int) : Prop := Engine.tsMin ≤ t ∧ t ≤ Engine.tsMax

/-- **The interval of a run.**  When no record counts for it, or all that do were captured at the
largest time stamp, there is none; otherwise it runs from the least time stamp to the greatest. -/
theorem RunStats.Tallies.interval {e : Engine} {rows : List Packet} (h : e.stats.Tallies rows)
    (hclock : ∀ t ∈ captureTimes rows, InClock t) :
    ((∀ t ∈ captureTimes rows, t = Engine.tsMax) →
      e.finalizeStats.firstTsNs = 0 ∧ e.finalizeStats.lastTsNs = 0) ∧
    ((∃ t ∈ captureTimes rows, t ≠ Engine.tsMax) →
      IsLeast {t | t ∈ captureTimes rows} e.finalizeStats.firstTsNs ∧
      IsGreatest {t | t ∈ captureTimes rows} e.finalizeStats.lastTsNs) := by
  have hleast := isLeast_foldl_min (captureTimes rows) Engine.tsMax
  have hgreatest := isGreatest_foldl_max (captureTimes rows) Engine.tsMin
  rw [← h.firstTsNs] at hleast
  rw [← h.lastTsNs] at hgreatest
  constructor
  · intro hall
    have hmax : e.stats.firstTsNs = Engine.tsMax :=
      (List.mem_cons.mp hleast.1).elim id fun hmem => hall _ hmem
    unfold Engine.finalizeStats
    dsimp only
    rw [if_pos hmax]
    exact ⟨rfl, rfl⟩
  · rintro ⟨t, ht, hne⟩
    have hnonempty : captureTimes rows ≠ [] := List.ne_nil_of_mem ht
    have hbefore : e.stats.firstTsNs ≠ Engine.tsMax := by
      have hle := hleast.2 (List.mem_cons_of_mem _ ht)
      have hlt := lt_of_le_of_ne (hclock t ht).2 hne
      exact (lt_of_le_of_lt hle hlt).ne
    unfold Engine.finalizeStats
    dsimp only
    rw [if_neg hbefore]
    exact ⟨isLeast_of_cons hleast hnonempty fun t ht => (hclock t ht).2,
      isLeast_of_cons (α := Intᵒᵈ) hgreatest hnonempty fun t ht => (hclock t ht).1⟩

/-! ### Runs -/

section Run

variable [Hashes] {ε : Type} {pool : ThreadPool} {cfg : Config}
  {onBatch : List (List Packet) → Except ε Unit} {records : List RawPacket} {badBlocks : ℕ}

/-- The time stamps of the rows are those of the records. -/
theorem mem_captureTimes {defer : Bool} {e e' : Engine} {os : List Owned} {rows : List Packet}
    (h : scan (Engine.step defer) e os = .ok (e', rows)) {t : Int} (ht : t ∈ captureTimes rows) :
    ∃ o ∈ os, t = o.tsNs := by
  obtain ⟨row, hrow, hts⟩ := List.mem_filterMap.mp (List.mem_of_mem_filter ht)
  obtain ⟨i, hi⟩ := List.mem_iff_getElem?.mp hrow
  obtain ⟨o, e₁, e₂, ho, hstep⟩ := ChunkedRun.step_of_scan h hi
  rw [(Engine.step_stamped hstep).ts] at hts
  exact ⟨o, List.mem_of_getElem? ho, (Option.some.inj hts).symm⟩

/-- **The metadata of a run is the aggregate of its rows.**  For every completed run: there is a row
for each record, the counters are what the columns count, and the interval is that of the rows whose
time stamp is not zero, unless they were all captured at the largest time stamp. -/
theorem run_totals (hclock : ∀ r ∈ records, InClock r.tsNs) {out : RunOutcome ε} {stats : RunStats}
    {flows : FlowTable} (hrun : run pool cfg onBatch records badBlocks = out)
    (hend : out.result = .finished stats flows) :
    stats.packets = out.delivered.flatten.length ∧ stats.packets = records.length ∧
      stats.captureBytes =
        (out.delivered.flatten.map fun r => (r.frame.capLen.getD 0).toNat).sum ∧
      stats.malformed = out.delivered.flatten.countP (·.frame.malformed = some true) ∧
      stats.panicked = out.delivered.flatten.countP (·.frame.panicked = some true) ∧
      stats.truncated = out.delivered.flatten.countP (·.frame.truncated = some true) ∧
      stats.badBlocks = badBlocks ∧
      ((∀ t ∈ captureTimes out.delivered.flatten, t = Engine.tsMax) →
        stats.firstTsNs = 0 ∧ stats.lastTsNs = 0) ∧
      ((∃ t ∈ captureTimes out.delivered.flatten, t ≠ Engine.tsMax) →
        IsLeast {t | t ∈ captureTimes out.delivered.flatten} stats.firstTsNs ∧
        IsGreatest {t | t ∈ captureTimes out.delivered.flatten} stats.lastTsNs) := by
  subst hrun
  obtain ⟨e, hscan, rfl, -⟩ := scan_of_finished hend
  have hscanned := Engine.scan_tallies hscan
  have htallies : ({ e.stats with badBlocks } : RunStats).Tallies _ :=
    ⟨hscanned.packets, hscanned.captureBytes, hscanned.malformed, hscanned.panicked,
      hscanned.truncated, hscanned.firstTsNs, hscanned.lastTsNs⟩
  have htimes : ∀ t ∈ captureTimes (run pool cfg onBatch records badBlocks).delivered.flatten,
      InClock t := by
    intro t ht
    obtain ⟨o, ho, rfl⟩ := mem_captureTimes hscan ht
    obtain ⟨r, hr, rfl⟩ := List.mem_map.mp ho
    exact hclock r hr
  have hinterval := RunStats.Tallies.interval
    (e := { e with stats := { e.stats with badBlocks } }) htallies htimes
  obtain ⟨hpackets, hbytes, hmalformed, hpanicked, htruncated, hbad⟩ :=
    Engine.finalizeStats_counters { e with stats := { e.stats with badBlocks } }
  have hlength := ChunkedRun.length_of_scan hscan
  rw [List.length_map] at hlength
  exact ⟨hpackets.trans htallies.packets, (hpackets.trans htallies.packets).trans hlength,
    hbytes.trans htallies.captureBytes, hmalformed.trans htallies.malformed,
    hpanicked.trans htallies.panicked, htruncated.trans htallies.truncated, hbad, hinterval.1,
    hinterval.2⟩

end Run

/-- Two packets, of which one has no time stamp. -/
theorem run_totals_bare :
    (∀ r ∈ [bareAt 0 0, bareAt 7 1], InClock r.tsNs) ∧ ∀ (_ : Hashes) (pool : ThreadPool),
    ∃ out stats flows,
    run pool {} (fun _ => (.ok () : Except Unit Unit)) [bareAt 0 0, bareAt 7 1] 0 = out ∧
      out.result = .finished stats flows ∧ stats.packets = out.delivered.flatten.length ∧
      IsLeast {t | t ∈ captureTimes out.delivered.flatten} stats.firstTsNs := by
  have hclock : ∀ r ∈ [bareAt 0 0, bareAt 7 1], InClock r.tsNs := by
    simp [InClock, bareAt, Engine.tsMin, Engine.tsMax]
  refine ⟨hclock, fun _ pool => ?_⟩
  obtain ⟨stats, flows, hend, htimes⟩ : ∃ stats flows,
      (run pool {} (fun _ => (.ok () : Except Unit Unit)) [bareAt 0 0, bareAt 7 1] 0).result =
        .finished stats flows ∧
      captureTimes (run pool {} (fun _ => (.ok () : Except Unit Unit))
        [bareAt 0 0, bareAt 7 1] 0).delivered.flatten = [7] := ⟨_, _, rfl, rfl⟩
  obtain ⟨hpackets, -, -, -, -, -, -, -, hinterval⟩ := run_totals hclock rfl hend
  have hseven : (7 : Int) ∈ captureTimes (run pool {} (fun _ => (.ok () : Except Unit Unit))
      [bareAt 0 0, bareAt 7 1] 0).delivered.flatten := by
    rw [htimes]
    exact List.mem_cons_self
  exact ⟨_, stats, flows, rfl, hend, hpackets, (hinterval ⟨7, hseven, by decide⟩).1⟩

end PcapRacer
