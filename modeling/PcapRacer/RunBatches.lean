/-
**The run over a capture, whatever the batch size and the thread count.**

A run buffers packets until a chunk is full, dissects the chunk in parallel, absorbs it and hands the
rows to the callback; a tail that does not fill a chunk goes the same way at the end.  All of this
is a chunked form of one fold over the packets: the rows, the statistics and the flow table are
those of the fold, and the batches are the rows cut to size.  The fold itself may unwind, and then
what was delivered before depends on the batch size.

Main definitions:

* `outcome` — a chunked run as the outcome of a run;
* `RunsAlike` — every batch size and thread count gives the same rows, statistics and flows, in
  batches of the right size, up to the one the callback refuses.

Main results:

* `run_eq_emit` — a run is a chunked fold;
* `delivers_of_scan` — when the fold succeeds, every run delivers its rows;
* `run_smtpRecord` — runs of different batch sizes that deliver different rows.
-/

import PcapRacer.Absorb

set_option relaxedAutoImplicit false
set_option autoImplicit false

namespace PcapRacer

open ChunkedRun (scan pack emit Ending)

/-- A packet copied out of the reader's buffer, as a chunk holds it. -/
def RawPacket.own (r : RawPacket) : Owned := (default : Owned).fill r

section Run

variable {ε : Type}

/-- How a chunked run ends, as the end of a run. -/
def endOf (badBlocks : ℕ) : Ending Engine Panic ε → RunEnd ε
  | .finished e =>
      .finished { e with stats := { e.stats with badBlocks } }.finalizeStats e.flows
  | .refused d => .failed d
  | .broken p => .unwound p

/-- A chunked run as the outcome of a run. -/
def outcome (badBlocks : ℕ) (r : List (List Packet) × Ending Engine Panic ε) : RunOutcome ε :=
  { delivered := r.1, result := endOf badBlocks r.2 }

/-! ### Buffers -/

/-- The packets that wait in the chunk. -/
def RunState.pending (st : RunState ε) : List Owned := st.chunk.take st.filled

/-- A state of a run that goes on: the filled part of the chunk is there, and it is not full. -/
structure RunState.Running (st : RunState ε) (size : ℕ) : Prop where
  not_stopped : st.stopped = none
  filled_le : st.filled ≤ st.chunk.length
  filled_lt : st.filled < size

theorem RunState.length_pending {st : RunState ε} (h : st.filled ≤ st.chunk.length) :
    st.pending.length = st.filled := by
  rw [pending, List.length_take, Nat.min_eq_left h]

/-- Buffering a packet adds it to those that wait; what the buffer held before does not matter. -/
theorem pending_buffer {st : RunState ε} (h : st.filled ≤ st.chunk.length) (r : RawPacket) :
    (buffer st r).pending = st.pending ++ [r.own] ∧
      (buffer st r).filled ≤ (buffer st r).chunk.length := by
  -- the chunk after it has grown, if it has to
  obtain ⟨chunk, hchunk, hlt, htake⟩ : ∃ chunk,
      (if st.filled = st.chunk.length then st.chunk ++ [default] else st.chunk) = chunk ∧
      st.filled < chunk.length ∧ chunk.take st.filled = st.chunk.take st.filled := by
    refine ⟨_, rfl, ?_, ?_⟩
    · split
      · rw [List.length_append, List.length_singleton]
        omega
      · omega
    · split
      · next heq => rw [List.take_append_of_le_length (Nat.le_of_eq heq)]
      · rfl
  unfold buffer
  dsimp only
  rw [hchunk]
  refine ⟨?_, ?_⟩
  · change (chunk.modify st.filled fun o => o.fill r).take (st.filled + 1) = _
    rw [List.take_succ_eq_append_getElem (by rwa [List.length_modify]), List.take_modify]
    rw [RunState.pending, ← htake]
    congr 1
    · exact List.modify_eq_self (by rw [List.length_take]; omega)
    · rw [List.getElem_modify_eq]
      rfl
  · rw [List.length_modify]
    exact hlt

/-! ### A run is a chunked fold -/

theorem foldl_of_stopped [Hashes] (pool : ThreadPool) (cfg : Config)
    (onBatch : List (List Packet) → Except ε Unit) (records : List RawPacket) {st : RunState ε}
    (h : st.stopped.isSome) : records.foldl (onPacket pool cfg onBatch) st = st := by
  induction records with
  | nil => rfl
  | cons r records ih =>
      rw [List.foldl_cons, onPacket, if_pos h]
      exact ih

theorem finishRun_of_stopped [Hashes] (pool : ThreadPool) (cfg : Config)
    (onBatch : List (List Packet) → Except ε Unit) (badBlocks : ℕ) {st : RunState ε}
    {x : RunEnd ε} (h : st.stopped = some x) :
    finishRun pool cfg onBatch badBlocks st = { delivered := st.delivered, result := x } := by
  unfold finishRun
  dsimp only
  rw [if_neg (by rw [h]; simp), h]
  rfl

/-- What flushing a chunk does, by what the scan of its packets gives. -/
theorem flush_eq [Hashes] (pool : ThreadPool) (onBatch : List (List Packet) → Except ε Unit)
    (defer : Bool) (st : RunState ε) :
    flush pool onBatch defer st =
      match scan (Engine.step defer) st.engine st.pending with
      | .error p => { st with stopped := some (.unwound p) }
      | .ok (engine, rows) => deliver onBatch { st with engine, filled := 0 } rows := by
  unfold flush
  dsimp only
  rw [absorb_zip_eq]
  rfl

theorem deliver_of_ok {onBatch : List (List Packet) → Except ε Unit} (st : RunState ε)
    {rows : List Packet} (hne : rows ≠ []) (h : onBatch (st.delivered ++ [rows]) = .ok ()) :
    deliver onBatch st rows = { st with delivered := st.delivered ++ [rows] } := by
  unfold deliver
  rw [if_neg hne]
  dsimp only
  rw [h]

theorem deliver_of_error {onBatch : List (List Packet) → Except ε Unit} (st : RunState ε)
    {rows : List Packet} {e : ε} (hne : rows ≠ [])
    (h : onBatch (st.delivered ++ [rows]) = .error e) :
    deliver onBatch st rows =
      { st with delivered := st.delivered ++ [rows], stopped := some (.failed e) } := by
  unfold deliver
  rw [if_neg hne]
  dsimp only
  rw [h]

variable [Hashes]

/-- The end of a run with nothing left to flush. -/
theorem finishRun_of_empty (pool : ThreadPool) (cfg : Config)
    (onBatch : List (List Packet) → Except ε Unit) (badBlocks : ℕ) {st : RunState ε}
    (hst : st.stopped = none) (h : st.filled = 0) :
    finishRun pool cfg onBatch badBlocks st =
      outcome badBlocks (st.delivered, .finished st.engine) := by
  unfold finishRun
  dsimp only
  rw [if_neg (by rw [h]; simp), hst]
  rfl

/-- After a flush nothing is left, or the run has stopped. -/
theorem flush_empties (pool : ThreadPool) (onBatch : List (List Packet) → Except ε Unit)
    (defer : Bool) (st : RunState ε) :
    ¬ ((flush pool onBatch defer st).stopped.isNone ∧ 0 < (flush pool onBatch defer st).filled) := by
  rw [flush_eq]
  cases scan (Engine.step defer) st.engine st.pending with
  | error p => simp
  | ok r =>
      dsimp only
      unfold deliver
      split
      · simp
      · dsimp only
        cases onBatch (st.delivered ++ [r.2]) <;> simp

/-- The end of a run with something left flushes it. -/
theorem finishRun_of_pending (pool : ThreadPool) (cfg : Config)
    (onBatch : List (List Packet) → Except ε Unit) (badBlocks : ℕ) {st : RunState ε}
    (hst : st.stopped = none) (h : 0 < st.filled) :
    finishRun pool cfg onBatch badBlocks st =
      finishRun pool cfg onBatch badBlocks (flush pool onBatch cfg.reassemble st) := by
  have hempty := flush_empties pool onBatch cfg.reassemble st
  rw [finishRun, finishRun, if_pos ⟨by rw [hst]; rfl, h⟩, if_neg hempty]

/-- Flushing a chunk that is not empty, and going on with the rest of the run. -/
theorem finish_flush (pool : ThreadPool) (cfg : Config)
    (onBatch : List (List Packet) → Except ε Unit) (badBlocks : ℕ) (records : List RawPacket)
    (st : RunState ε) (hne : st.pending ≠ []) (chunks : List (List Owned))
    (hrest : ∀ engine rows, onBatch (st.delivered ++ [rows]) = .ok () →
      finishRun pool cfg onBatch badBlocks (records.foldl (onPacket pool cfg onBatch)
        { st with engine, filled := 0, delivered := st.delivered ++ [rows] }) =
      outcome badBlocks (emit (Engine.step cfg.reassemble) onBatch engine
        (st.delivered ++ [rows]) chunks)) :
    finishRun pool cfg onBatch badBlocks
        (records.foldl (onPacket pool cfg onBatch) (flush pool onBatch cfg.reassemble st)) =
      outcome badBlocks (emit (Engine.step cfg.reassemble) onBatch st.engine st.delivered
        (st.pending :: chunks)) := by
  rw [flush_eq, emit]
  cases hs : scan (Engine.step cfg.reassemble) st.engine st.pending with
  | error p =>
      dsimp only
      rw [foldl_of_stopped pool cfg onBatch records rfl,
        finishRun_of_stopped pool cfg onBatch badBlocks rfl]
      rfl
  | ok r =>
      obtain ⟨engine, rows⟩ := r
      have hrows : rows ≠ [] := by
        intro h0
        have hlen := ChunkedRun.length_of_scan hs
        rw [h0] at hlen
        exact hne (List.length_eq_zero_iff.mp hlen.symm)
      dsimp only
      cases hb : onBatch (st.delivered ++ [rows]) with
      | error e =>
          rw [deliver_of_error { st with engine, filled := 0 } hrows hb,
            foldl_of_stopped pool cfg onBatch records rfl,
            finishRun_of_stopped pool cfg onBatch badBlocks rfl]
          rfl
      | ok u =>
          rw [deliver_of_ok { st with engine, filled := 0 } hrows hb]
          exact hrest engine rows hb

/-- **A run from a state that goes on is the chunked fold over what waits and what is to come.** -/
theorem finishRun_eq_emit (pool : ThreadPool) (cfg : Config)
    (onBatch : List (List Packet) → Except ε Unit) (badBlocks : ℕ) (records : List RawPacket)
    {st : RunState ε} (h : st.Running (max cfg.batchSize 1)) :
    finishRun pool cfg onBatch badBlocks (records.foldl (onPacket pool cfg onBatch) st) =
      outcome badBlocks (emit (Engine.step cfg.reassemble) onBatch st.engine st.delivered
        (pack (max cfg.batchSize 1) st.pending (records.map RawPacket.own))) := by
  induction records generalizing st with
  | nil =>
      rw [List.map_nil, pack]
      by_cases h0 : st.filled = 0
      · -- nothing waits
        have hpend : st.pending = [] := by rw [RunState.pending, h0, List.take_zero]
        rw [if_pos hpend]
        exact finishRun_of_empty pool cfg onBatch badBlocks h.not_stopped h0
      · -- the tail goes through the same flush
        have hpend : st.pending ≠ [] := by
          intro hnil
          have := RunState.length_pending h.filled_le
          rw [hnil] at this
          exact h0 this.symm
        rw [if_neg hpend, List.foldl_nil,
          finishRun_of_pending pool cfg onBatch badBlocks h.not_stopped (Nat.pos_of_ne_zero h0)]
        exact finish_flush pool cfg onBatch badBlocks [] st hpend [] fun engine rows hb =>
          finishRun_of_empty pool cfg onBatch badBlocks h.not_stopped rfl
  | cons r records ih =>
      obtain ⟨hpend, hle⟩ := pending_buffer h.filled_le r
      have hlen : (buffer st r).pending.length = st.filled + 1 := RunState.length_pending hle
      have hstep : onPacket pool cfg onBatch st r =
          if max cfg.batchSize 1 ≤ st.filled + 1 then
            flush pool onBatch cfg.reassemble (buffer st r)
          else buffer st r := by
        rw [onPacket, if_neg (by rw [h.not_stopped]; simp)]
        rfl
      rw [List.foldl_cons, hstep, List.map_cons, pack, ← hpend, hlen]
      split
      · next hfull =>
          refine finish_flush pool cfg onBatch badBlocks records (buffer st r) ?_ _ ?_
          · rw [hpend]
            exact List.append_ne_nil_of_right_ne_nil _ (List.cons_ne_nil _ _)
          · intro engine rows hb
            have hrun : RunState.Running { buffer st r with
                engine, filled := 0, delivered := (buffer st r).delivered ++ [rows] }
                (max cfg.batchSize 1) :=
              ⟨h.not_stopped, Nat.zero_le _, lt_of_lt_of_le Nat.one_pos (le_max_right _ _)⟩
            exact ih hrun
      · next hnot => exact ih ⟨h.not_stopped, hle, Nat.lt_of_not_le hnot⟩

/-- **A run is a chunked fold**: the thread pool does not enter it, and the batch size only as the
size of the chunks. -/
theorem run_eq_emit (pool : ThreadPool) (cfg : Config) (hsize : Reserves cfg.batchSize)
    (onBatch : List (List Packet) → Except ε Unit) (records : List RawPacket) (badBlocks : ℕ) :
    run pool cfg onBatch records badBlocks =
      outcome badBlocks (emit (Engine.step cfg.reassemble) onBatch (Engine.new cfg) []
        (pack (max cfg.batchSize 1) [] (records.map RawPacket.own))) := by
  have hstart : RunState.Running ({ engine := Engine.new cfg } : RunState ε)
      (max cfg.batchSize 1) :=
    ⟨rfl, Nat.le_refl 0, lt_of_lt_of_le Nat.one_pos (le_max_right _ _)⟩
  rw [run, if_pos hsize]
  exact finishRun_eq_emit pool cfg onBatch badBlocks records hstart

/-- Without room for a chunk a run delivers nothing. -/
theorem run_of_not_reserves (pool : ThreadPool) (cfg : Config) (h : ¬ Reserves cfg.batchSize)
    (onBatch : List (List Packet) → Except ε Unit) (records : List RawPacket) (badBlocks : ℕ) :
    run pool cfg onBatch records badBlocks = { delivered := [], result := .overflowed } := by
  rw [run, if_neg h]

omit [Hashes] in
/-- Room for a chunk of one can be reserved. -/
theorem reserves_max_one {size : ℕ} (h : Reserves size) : Reserves (max size 1) := by
  unfold Reserves ownedSize at *
  omega

/-- A batch size of zero is a batch size of one. -/
theorem run_batchSize {pool : ThreadPool} {cfg : Config} {records : List RawPacket} {badBlocks : ℕ}
    (onBatch : List (List Packet) → Except ε Unit) {size : ℕ} (hsize : Reserves size) :
    run pool { cfg with batchSize := size } onBatch records badBlocks =
      run pool { cfg with batchSize := max size 1 } onBatch records badBlocks := by
  rw [run_eq_emit pool { cfg with batchSize := size } hsize,
    run_eq_emit pool { cfg with batchSize := max size 1 } (reserves_max_one hsize)]
  change outcome badBlocks (emit _ _ (Engine.new cfg) [] (pack (max size 1) ..)) =
    outcome badBlocks (emit _ _ (Engine.new cfg) [] (pack (max (max size 1) 1) ..))
  rw [max_assoc, max_self]

/-- The rows that a run delivers, however it ends, are those of the fold over a first part of the
records. -/
theorem run_delivered_eq_take (pool : ThreadPool) (cfg : Config)
    (onBatch : List (List Packet) → Except ε Unit) (records : List RawPacket) (badBlocks : ℕ) :
    ∃ n e, scan (Engine.step cfg.reassemble) (Engine.new cfg) ((records.map RawPacket.own).take n) =
      .ok (e, (run pool cfg onBatch records badBlocks).delivered.flatten) := by
  by_cases hsize : Reserves cfg.batchSize
  case neg =>
    refine ⟨0, Engine.new cfg, ?_⟩
    rw [run_of_not_reserves pool cfg hsize]
    rfl
  let step := Engine.step cfg.reassemble
  let chunks := pack (max cfg.batchSize 1) [] (records.map RawPacket.own)
  obtain ⟨batches, n, e, hout, hscan⟩ :
      ∃ batches n s', (emit step onBatch (Engine.new cfg) [] chunks).1 = [] ++ batches ∧
        scan step (Engine.new cfg) (chunks.flatten.take n) = .ok (s', batches.flatten) :=
    ChunkedRun.emit_eq_take onBatch (Engine.new cfg) [] chunks
  rw [ChunkedRun.flatten_pack, List.nil_append] at hscan
  refine ⟨n, e, hscan.trans ?_⟩
  rw [run_eq_emit pool cfg hsize, outcome, hout]
  rfl

/-- Every row that a run delivers is that of a step, from the engine that has absorbed the records
before it. -/
theorem step_of_run {pool : ThreadPool} {cfg : Config}
    {onBatch : List (List Packet) → Except ε Unit} {records : List RawPacket} {badBlocks i : ℕ}
    {row : Packet}
    (h : (run pool cfg onBatch records badBlocks).delivered.flatten[i]? = some row) :
    ∃ r rows e e', records[i]? = some r ∧
      scan (Engine.step cfg.reassemble) (Engine.new cfg) ((records.take i).map RawPacket.own) =
        .ok (e, rows) ∧
      Engine.step cfg.reassemble e r.own = .ok (e', row) := by
  obtain ⟨n, e, hscan⟩ := run_delivered_eq_take pool cfg onBatch records badBlocks
  obtain ⟨o, e₁, e₂, ho, hbefore, hstep⟩ := ChunkedRun.step_at_of_scan hscan h
  have hin : i < n := by
    obtain ⟨hlt, -⟩ := List.getElem?_eq_some_iff.mp ho
    rw [List.length_take] at hlt
    exact lt_of_lt_of_le hlt (Nat.min_le_left _ _)
  rw [List.getElem?_take_of_lt hin, List.getElem?_map] at ho
  obtain ⟨r, hr, rfl⟩ := Option.map_eq_some_iff.mp ho
  rw [List.take_take, Nat.min_eq_left hin.le, ← List.map_take] at hbefore
  exact ⟨r, _, e₁, e₂, hr, hbefore, hstep⟩

/-- A run that finishes delivers the rows of the fold over all records, and returns its statistics
and flows. -/
theorem scan_of_finished {pool : ThreadPool} {cfg : Config}
    {onBatch : List (List Packet) → Except ε Unit} {records : List RawPacket} {badBlocks : ℕ}
    {stats : RunStats} {flows : FlowTable}
    (h : (run pool cfg onBatch records badBlocks).result = .finished stats flows) :
    ∃ e, scan (Engine.step cfg.reassemble) (Engine.new cfg) (records.map RawPacket.own) =
        .ok (e, (run pool cfg onBatch records badBlocks).delivered.flatten) ∧
      stats = { e with stats := { e.stats with badBlocks } }.finalizeStats ∧ flows = e.flows := by
  by_cases hsize : Reserves cfg.batchSize
  case neg =>
    rw [run_of_not_reserves pool cfg hsize] at h
    cases h
  rw [run_eq_emit pool cfg hsize] at h ⊢
  cases hend : (emit (Engine.step cfg.reassemble) onBatch (Engine.new cfg) []
      (pack (max cfg.batchSize 1) [] (records.map RawPacket.own))).2 with
  | refused d =>
      rw [outcome, hend, endOf] at h
      cases h
  | broken p =>
      rw [outcome, hend, endOf] at h
      cases h
  | finished e =>
      obtain ⟨batches, hout, hscan⟩ := ChunkedRun.scan_of_emit_finished hend
      rw [ChunkedRun.flatten_pack, List.nil_append] at hscan
      rw [outcome, hend, endOf] at h
      cases h
      refine ⟨e, hscan.trans ?_, rfl, rfl⟩
      rw [outcome, hout, List.nil_append]

end Run

/-! ### Runs are alike -/

section Alike

variable [Hashes]

/-- The callback takes the first `n` batches. -/
def Takes {ε : Type} (onBatch : List (List Packet) → Except ε Unit) (batches : List (List Packet))
    (n : ℕ) : Prop :=
  ∀ j, 0 < j → j ≤ n → onBatch (batches.take j) = .ok ()

/-- The run delivers these batches one after the other, up to the first one that the callback
refuses, and then returns the callback's error; when it takes them all, the run finishes with these
statistics and flows. -/
def Delivers (pool : ThreadPool) (cfg : Config) (records : List RawPacket) (badBlocks : ℕ)
    (batches : List (List Packet)) (stats : RunStats) (flows : FlowTable) : Prop :=
  ∀ (ε : Type) (onBatch : List (List Packet) → Except ε Unit),
    (Takes onBatch batches batches.length →
      run pool cfg onBatch records badBlocks =
        { delivered := batches, result := .finished stats flows }) ∧
    ∀ k e, k < batches.length → Takes onBatch batches k →
      onBatch (batches.take (k + 1)) = .error e →
      run pool cfg onBatch records badBlocks =
        { delivered := batches.take (k + 1), result := .failed e }

/-- Every batch size that a chunk can be reserved for and every thread count gives the same rows,
statistics and flows: one row per record, numbered in capture order, in batches that are full but for
the last. -/
def RunsAlike (cfg : Config) (records : List RawPacket) (badBlocks : ℕ) : Prop :=
  ∃ rows stats flows, rows.length = records.length ∧
    (∀ i row, rows[i]? = some row → Engine.ids row = (some i, some (i + 1))) ∧
    ∀ (pool : ThreadPool) (size : ℕ), 1 ≤ size → Reserves size →
      ∃ batches : List (List Packet), batches.flatten = rows ∧
        (∀ b ∈ batches.dropLast, b.length = size) ∧ (∀ b ∈ batches, b ≠ []) ∧
        Delivers pool { cfg with batchSize := size } records badBlocks batches stats flows

omit [Hashes] in
/-- What the lengths of some lists satisfy, lists of the same lengths satisfy. -/
theorem lengths_of_map_eq {α β : Type} {xs : List (List α)} {ys : List (List β)} (P : ℕ → Prop)
    (h : xs.map List.length = ys.map List.length) (hys : ∀ y ∈ ys, P y.length) :
    ∀ x ∈ xs, P x.length := by
  intro x hx
  have hmem : x.length ∈ ys.map List.length := h ▸ List.mem_map_of_mem hx
  obtain ⟨y, hy, hlen⟩ := List.mem_map.mp hmem
  exact hlen ▸ hys y hy

/-- When the fold over the records succeeds, every run delivers its rows. -/
theorem delivers_of_scan {cfg : Config} {records : List RawPacket} {e : Engine}
    {rows : List Packet}
    (h : scan (Engine.step cfg.reassemble) (Engine.new cfg) (records.map RawPacket.own) =
      .ok (e, rows)) (pool : ThreadPool) {size : ℕ} (hsize : 1 ≤ size)
    (hreserves : Reserves size) (badBlocks : ℕ) :
    ∃ batches : List (List Packet), batches.flatten = rows ∧
      (∀ b ∈ batches.dropLast, b.length = size) ∧ (∀ b ∈ batches, b ≠ []) ∧
      Delivers pool { cfg with batchSize := size } records badBlocks batches
        { e with stats := { e.stats with badBlocks } }.finalizeStats e.flows := by
  have hmax : max size 1 = size := Nat.max_eq_left hsize
  let chunks := pack size [] (records.map RawPacket.own)
  have hflat : chunks.flatten = records.map RawPacket.own := ChunkedRun.flatten_pack size [] _
  rw [← hflat] at h
  obtain ⟨batches, hrows, hlens, hemit⟩ := ChunkedRun.emit_eq h
  have hfull : ∀ b ∈ batches.dropLast, b.length = size := by
    have hdrop : batches.dropLast.map List.length = chunks.dropLast.map List.length := by
      rw [List.map_dropLast, List.map_dropLast, hlens]
    exact lengths_of_map_eq (· = size) hdrop fun c hc =>
      ChunkedRun.length_of_mem_dropLast_pack (Nat.lt_of_lt_of_le Nat.one_pos hsize) hc
  have hne : ∀ b ∈ batches, 0 < b.length :=
    lengths_of_map_eq (0 < ·) hlens fun c hc =>
      List.length_pos_iff.mpr (ChunkedRun.ne_nil_of_mem_pack hc)
  refine ⟨batches, hrows, hfull, fun b hb => List.length_pos_iff.mp (hne b hb), ?_⟩
  intro ε onBatch
  obtain ⟨hall, hsome⟩ := hemit ε onBatch []
  rw [run_eq_emit pool { cfg with batchSize := size } hreserves,
    show max ({ cfg with batchSize := size } : Config).batchSize 1 = size from hmax]
  refine ⟨fun htakes => ?_, fun k d hk htakes hd => ?_⟩
  · exact congrArg (outcome badBlocks) (hall htakes)
  · exact congrArg (outcome badBlocks) (hsome k d hk htakes hd)

/-- When the fold over the records succeeds and the callback takes every batch, the run delivers the
rows of the fold. -/
theorem delivered_of_scan (cfg : Config) {records : List RawPacket} {e : Engine}
    {rows : List Packet}
    (h : scan (Engine.step cfg.reassemble) (Engine.new cfg) (records.map RawPacket.own) =
      .ok (e, rows)) (pool : ThreadPool) (hsize : 1 ≤ cfg.batchSize)
    (hreserves : Reserves cfg.batchSize) (badBlocks : ℕ) {ε : Type}
    (onBatch : List (List Packet) → Except ε Unit) (hok : ∀ batches, onBatch batches = .ok ()) :
    (run pool cfg onBatch records badBlocks).delivered.flatten = rows := by
  obtain ⟨batches, hrows, -, -, hdel⟩ := delivers_of_scan h pool hsize hreserves badBlocks
  have hrun := (hdel ε onBatch).1 fun j _ _ => hok (batches.take j)
  rw [← hrows]
  exact congrArg (fun out => out.delivered.flatten) hrun

end Alike

/-! ### Runs that differ -/

/-- A record without a single byte. -/
def emptyRecord : RawPacket :=
  { tsNs := 0, capLen := 0, origLen := 0, ifaceId := 0, linktype := 1, data := [],
    data_le := Nat.le_refl 0 }

/-- The SMTP segment as the reader hands it out. -/
def smtpRecord : RawPacket :=
  { tsNs := 0, capLen := 61, origLen := 61, ifaceId := 0, linktype := 1, data := smtpFrame.data,
    data_le := smtpFrame.data_le }

/-- A batch size of one delivers the row of the first record before the run unwinds, a batch size of
two delivers nothing. -/
theorem run_smtpRecord :
    smtpRecord.own = smtpFrame ∧ ∀ (_ : Hashes) (pool : ThreadPool),
      (∃ row, (run pool { batchSize := 1 } (fun _ => (.ok () : Except Unit Unit))
        [emptyRecord, smtpRecord] 0).delivered = [[row]]) ∧
      (run pool { batchSize := 2 } (fun _ => (.ok () : Except Unit Unit))
        [emptyRecord, smtpRecord] 0).delivered = [] := by
  refine ⟨rfl, fun _ pool => ?_⟩
  obtain ⟨e, row, hfirst, hstreams⟩ : ∃ e row,
      Engine.step true (Engine.new {}) emptyRecord.own = .ok (e, row) ∧
        e.streams = (Engine.new {}).streams := ⟨_, _, rfl, rfl⟩
  obtain ⟨q, hsecond⟩ : ∃ q, Engine.step true e smtpRecord.own = .error q :=
    Engine.absorbOne_error_iff.mpr (smtpFrame_stepCuts hstreams)
  have hone : scan (Engine.step true) (Engine.new {}) [emptyRecord.own] = .ok (e, [row]) := by
    rw [ChunkedRun.scan_cons_of_ok hfirst, ChunkedRun.scan_nil]
    rfl
  have hpack₁ : ∀ a b : Owned, pack (max 1 1) [] [a, b] = [[a], [b]] := fun _ _ => rfl
  have hpack₂ : ∀ a b : Owned, pack (max 2 1) [] [a, b] = [[a, b]] := fun _ _ => rfl
  have htwo : scan (Engine.step true) (Engine.new {}) [emptyRecord.own, smtpRecord.own] =
      .error q := by
    rw [ChunkedRun.scan_cons_of_ok hfirst, ChunkedRun.scan_cons_of_error hsecond]
    rfl
  refine ⟨⟨row, ?_⟩, ?_⟩
  · rw [run_eq_emit pool { batchSize := 1 } (by decide), List.map_cons, List.map_cons,
      List.map_nil, hpack₁]
    simp only [outcome, emit, List.nil_append]
    rw [show scan (Engine.step ({ batchSize := 1 } : Config).reassemble)
      (Engine.new { batchSize := 1 }) [emptyRecord.own] = _ from hone]
    simp only [ChunkedRun.scan_cons_of_error hsecond]
  · rw [run_eq_emit pool { batchSize := 2 } (by decide), List.map_cons, List.map_cons,
      List.map_nil, hpack₂]
    simp only [outcome, emit]
    rw [show scan (Engine.step ({ batchSize := 2 } : Config).reassemble)
      (Engine.new { batchSize := 2 }) [emptyRecord.own, smtpRecord.own] = _ from htwo]

end PcapRacer
