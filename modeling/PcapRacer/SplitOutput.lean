/-
**The output files of a run.**

A run to disk writes each batch as it is delivered.  In wide mode the batch goes to the packet file;
in split mode the packet file gets the core columns, and every protocol that the batch carries gets
its rows in a file of its own, which is created when the first such batch comes.  Whether the disk
takes a file or a batch is given from outside.  The flow file and the metadata, which are written
after the packets, have a module of their own.

Main definitions:

* `ParquetSink`, `Sinks`, `Disk` — a file being written, the files of a run, and the disk;
* `onBatch`, `toParquet` — writing one batch, and the whole run;
* `ProtoTable.sidecar` — the file that a protocol should get from some packets.

Main results:

* `onBatch_split` — one batch extends every protocol's file by its rows;
* `sidecars_project` — **the files of split mode are projections of the wide table**, whatever the
  batch size.
-/

import PcapRacer.RunBatches
import PcapRacer.Split

set_option relaxedAutoImplicit false
set_option autoImplicit false

namespace PcapRacer

open ChunkedRun (scan)

/-- How the packet table is written. -/
inductive Mode where
  | wide
  | split
  deriving DecidableEq

/-- A file being written: its schema, and the batches in it. -/
structure ParquetSink where
  schema : List Text
  batches : List (RecordBatch Text Value) := []

/-- What the file holds, row by row. -/
def ParquetSink.contents (sink : ParquetSink) : List (List (Option Value)) :=
  sink.batches.flatMap RecordBatch.rows

/-- The files of a run: the packet file, and those of the protocols by their names. -/
structure Sinks where
  packets : Option ParquetSink := none
  sidecars : Text → Option ParquetSink := fun _ => none

/-- The disk: what it answers to creating a file, to writing a batch, and to closing all files. -/
structure Disk (ε : Type) where
  create : Text → List Text → Except ε Unit
  write : Text → ParquetSink → RecordBatch Text Value → Except ε Unit
  close : Sinks → Except ε Unit

/-- Why a run to disk fails. -/
inductive ApiError (ε : Type) where
  | arrow (e : ArrowError)
  | disk (e : ε)
  | panic (p : Panic)
  | overflow

/-- What a run leaves. -/
structure RunReport where
  packets : ParquetSink
  sidecars : Text → Option ParquetSink
  stats : RunStats
  flows : FlowTable

/-! ### Writing -/

section Write

variable {ε : Type} (disk : Disk ε)

/-- Create a file. -/
def createSink (path : Text) (schema : List Text) : Except (ApiError ε) ParquetSink := do
  (disk.create path schema).mapError .disk
  return { schema }

/-- Write a batch to a file, unless it is empty. -/
def writeSink (path : Text) (sink : ParquetSink) (batch : RecordBatch Text Value) :
    Except (ApiError ε) ParquetSink :=
  if batch.numRows = 0 then return sink
  else do
    (disk.write path sink batch).mapError .disk
    return { sink with batches := sink.batches ++ [batch] }

/-- Write a batch to a file, which is created with the schema of the batch if it is not there. -/
def appendTo (path : Text) (sink : Option ParquetSink) (batch : RecordBatch Text Value) :
    Except (ApiError ε) ParquetSink :=
  match sink with
  | some sink => writeSink disk path sink batch
  | none => do writeSink disk path (← createSink disk path batch.schema) batch

def parquetPath (name : Text) : Text := name ++ ".parquet".toList

def packetsPath : Text := "packets.parquet".toList

/-- Write one protocol's table. -/
def writeSidecar (sidecars : Text → Option ParquetSink) (table : Text × RecordBatch Text Value) :
    Except (ApiError ε) (Text → Option ParquetSink) := do
  let sink ← appendTo disk (parquetPath table.1) (sidecars table.1) table.2
  return Function.update sidecars table.1 (some sink)

/-- Write one batch in wide mode. -/
def onWideBatch (s : Sinks) (packets : List Packet) : Except (ApiError ε) Sinks := do
  let sink ← appendTo disk packetsPath s.packets (wideBatch packets)
  return { s with packets := some sink }

variable [ArrowKernels]

/-- Write one batch in split mode. -/
def onSplitBatch (s : Sinks) (packets : List Packet) : Except (ApiError ε) Sinks := do
  let batch := wideBatch packets
  let core ← (coreTable batch).mapError .arrow
  let sink ← appendTo disk packetsPath s.packets core
  let tables ← (allProtoTables batch).mapError .arrow
  let sidecars ← tables.foldlM (writeSidecar disk) s.sidecars
  return { packets := some sink, sidecars }

/-- Write one batch. -/
def onBatch : Mode → Sinks → List Packet → Except (ApiError ε) Sinks
  | .wide => onWideBatch disk
  | .split => onSplitBatch disk

/-- Write all batches so far. -/
def onBatches (mode : Mode) (batches : List (List Packet)) : Except (ApiError ε) Sinks :=
  batches.foldlM (onBatch disk mode) {}

/-- The schema of the packet file of a capture without packets. -/
def emptySchema : Mode → Except ArrowError (List Text)
  | .wide => return fieldNames
  | .split => return (← coreTable (wideBatch [])).schema

/-- The packet file, which is created when no batch came. -/
def packetsSink (mode : Mode) : Option ParquetSink → Except (ApiError ε) ParquetSink
  | some sink => return sink
  | none => do createSink disk packetsPath (← (emptySchema mode).mapError .arrow)

/-- Extract a capture to files. -/
def toParquet [Hashes] (mode : Mode) (pool : ThreadPool) (cfg : Config) (records : List RawPacket)
    (badBlocks : ℕ) : Except (ApiError ε) RunReport :=
  let outcome := run pool cfg (fun batches => (onBatches disk mode batches).map fun _ => ())
    records badBlocks
  match outcome.result with
  | .failed e => .error e
  | .unwound p => .error (.panic p)
  | .overflowed => .error .overflow
  | .finished stats flows => do
      let sinks ← onBatches disk mode outcome.delivered
      let packets ← packetsSink disk mode sinks.packets
      (disk.close sinks).mapError .disk
      return { packets, sidecars := sinks.sidecars, stats, flows }

end Write

/-! ### What a file holds -/

/-- A table: the names of its columns, and its rows. -/
abbrev Table := List Text × List (List (Option Value))

def ParquetSink.table (sink : ParquetSink) : Table := (sink.schema, sink.contents)

/-- The table of some packets in some columns. -/
def tableOf (cols : List WideColumn) (packets : List Packet) : Table :=
  (cols.map (·.name), packets.map fun p => cols.map (·.cell p))

/-- The table that a protocol should get from some packets: those that carry it, in the core columns
and its own; none if no packet carries it. -/
def ProtoTable.sidecar (t : ProtoTable) (packets : List Packet) : Option Table :=
  if packets.filter t.carries = [] then none
  else some (tableOf t.columns (packets.filter t.carries))

section Holds

variable {ε : Type} {disk : Disk ε} {path : Text} {cols : List WideColumn}

theorem mapError_eq_ok_iff {α δ : Type} {x : Except δ α} {f : δ → ε} {a : α} :
    x.mapError f = .ok a ↔ x = .ok a := by
  cases x with
  | error e => exact ⟨nofun, nofun⟩
  | ok a' => exact ⟨fun h => congrArg _ (Except.ok.inj h), fun h => congrArg _ (Except.ok.inj h)⟩

/-- Writing a batch adds its rows to the file. -/
theorem table_writeSink {sink sink' : ParquetSink} {before packets : List Packet}
    (hsink : sink.table = tableOf cols before)
    (h : writeSink disk path sink (RecordBatch.ofRecords cols packets) = .ok sink') :
    sink'.table = tableOf cols (before ++ packets) := by
  obtain ⟨hschema, hcontents⟩ := Prod.mk.inj hsink
  unfold writeSink at h
  rw [RecordBatch.numRows_ofRecords] at h
  by_cases hempty : packets = []
  · subst hempty
    cases h
    rw [List.append_nil, hsink]
  · rw [if_neg fun hlen => hempty (List.length_eq_zero_iff.mp hlen)] at h
    obtain ⟨-, -, h⟩ := bind_eq_ok_iff.mp h
    cases h
    refine Prod.ext hschema ?_
    have hrows := RecordBatch.rows_ofRecords cols packets
    simp only [ParquetSink.table, ParquetSink.contents, tableOf, List.flatMap_append,
      List.flatMap_singleton, List.map_append, hrows]
    exact congrArg (· ++ _) hcontents

theorem table_createSink {schema : List Text} {sink : ParquetSink}
    (h : createSink disk path schema = .ok sink) : sink = { schema } := by
  obtain ⟨-, -, h⟩ := bind_eq_ok_iff.mp h
  exact (Except.ok.inj h).symm

/-- Writing a batch to a file that is there, or that nothing was written to. -/
theorem table_appendTo {old : Option ParquetSink} {sink : ParquetSink}
    {before packets : List Packet} (hsome : ∀ s, old = some s → s.table = tableOf cols before)
    (hnone : old = none → before = [])
    (h : appendTo disk path old (RecordBatch.ofRecords cols packets) = .ok sink) :
    sink.table = tableOf cols (before ++ packets) := by
  cases old with
  | some s => exact table_writeSink (hsome s rfl) h
  | none =>
      obtain ⟨s, hs, h⟩ := bind_eq_ok_iff.mp h
      cases table_createSink hs
      rw [hnone rfl]
      refine table_writeSink ?_ h
      exact Prod.ext (RecordBatch.schema_ofRecords cols packets) rfl

end Holds

/-! ### Split mode -/

section Split

variable {ε : Type} {disk : Disk ε}

/-- What writing a list of tables does to the files: those of other names stay as they are, and each
table of the list is appended to its own. -/
theorem foldlM_writeSidecar {ts : List ProtoTable} {packets : List Packet}
    {sidecars sidecars' : Text → Option ParquetSink} (hnodup : (ts.map (·.name)).Nodup)
    (h : (ts.filterMap fun t => (t.cut packets).map fun table => (t.name, table)).foldlM
      (writeSidecar disk) sidecars = .ok sidecars') :
    (∀ name, name ∉ ts.map (·.name) → sidecars' name = sidecars name) ∧
    ∀ t ∈ ts, (t.cut packets = none → sidecars' t.name = sidecars t.name) ∧
      ∀ table, t.cut packets = some table → ∃ sink, sidecars' t.name = some sink ∧
        appendTo disk (parquetPath t.name) (sidecars t.name) table = .ok sink := by
  induction ts generalizing sidecars with
  | nil =>
      cases h
      exact ⟨fun _ _ => rfl, fun t ht => absurd ht List.not_mem_nil⟩
  | cons t ts ih =>
      rw [List.map_cons, List.nodup_cons] at hnodup
      cases hcut : t.cut packets with
      | none =>
          rw [List.filterMap_cons_none (by rw [hcut]; rfl)] at h
          obtain ⟨hother, hown⟩ := ih hnodup.2 h
          refine ⟨fun name hname => hother name fun hmem => hname (List.mem_cons_of_mem _ hmem),
            fun t' ht' => ?_⟩
          rcases List.mem_cons.mp ht' with rfl | ht'
          · refine ⟨fun _ => hother _ hnodup.1, fun table htable => ?_⟩
            rw [hcut] at htable
            cases htable
          · exact hown t' ht'
      | some table =>
          rw [List.filterMap_cons_some (b := (t.name, table)) (by rw [hcut]; rfl),
            List.foldlM_cons] at h
          obtain ⟨sidecars₁, h₁, h⟩ := bind_eq_ok_iff.mp h
          obtain ⟨sink, hsink, h₁⟩ := bind_eq_ok_iff.mp h₁
          cases h₁
          dsimp only at hsink h
          obtain ⟨hother, hown⟩ := ih hnodup.2 h
          have hne : ∀ name, name ≠ t.name →
              Function.update sidecars t.name (some sink) name = sidecars name := fun name hname =>
            Function.update_of_ne hname _ _
          refine ⟨fun name hname => ?_, fun t' ht' => ?_⟩
          · rw [List.map_cons, List.mem_cons, not_or] at hname
            exact (hother name hname.2).trans (hne name hname.1)
          · rcases List.mem_cons.mp ht' with rfl | ht'
            · refine ⟨fun hnone => ?_, fun table' htable' => ?_⟩
              · rw [hcut] at hnone
                cases hnone
              obtain rfl : table = table' := Option.some.inj (hcut.symm.trans htable')
              exact ⟨sink, (hother _ hnodup.1).trans (Function.update_self _ _ _), hsink⟩
            · have hname : t'.name ≠ t.name := fun heq =>
                hnodup.1 (heq ▸ List.mem_map_of_mem ht')
              have hown := hown t' ht'
              rw [hne _ hname] at hown
              exact hown

/-- Reading off a protocol's file what was written to it. -/
theorem table_of_sidecar {t : ProtoTable} {before : List Packet} {old : Option ParquetSink}
    (h : old.map (·.table) = t.sidecar before) {s : ParquetSink} (hs : old = some s) :
    s.table = tableOf t.columns (before.filter t.carries) := by
  subst hs
  unfold ProtoTable.sidecar at h
  split at h
  · cases h
  · exact Option.some.inj h

theorem filter_of_sidecar {t : ProtoTable} {before : List Packet} {old : Option ParquetSink}
    (h : old.map (·.table) = t.sidecar before) (hnone : old = none) :
    before.filter t.carries = [] := by
  subst hnone
  unfold ProtoTable.sidecar at h
  split at h
  · assumption
  · cases h

theorem nodup_names : (protoTables.map (·.name)).Nodup := by decide

/-- **One batch extends every protocol's file by its rows.** -/
theorem onSplitBatch_sidecar [ArrowKernels] {s s' : Sinks} {before packets : List Packet} {t : ProtoTable}
    (ht : t ∈ protoTables) (hs : (s.sidecars t.name).map (·.table) = t.sidecar before)
    (h : onSplitBatch disk s packets = .ok s') :
    (s'.sidecars t.name).map (·.table) = t.sidecar (before ++ packets) := by
  obtain ⟨core, -, h⟩ := bind_eq_ok_iff.mp h
  obtain ⟨sink, -, h⟩ := bind_eq_ok_iff.mp h
  obtain ⟨tables, htables, h⟩ := bind_eq_ok_iff.mp h
  obtain ⟨sidecars, hfold, h⟩ := bind_eq_ok_iff.mp h
  cases h
  rw [mapError_eq_ok_iff, allProtoTables_wideBatch] at htables
  cases htables
  obtain ⟨hnone, hsome⟩ := (foldlM_writeSidecar nodup_names hfold).2 t ht
  unfold ProtoTable.cut at hnone hsome
  dsimp only
  by_cases hempty : packets.filter t.carries = []
  · rw [hnone (if_pos hempty), hs]
    unfold ProtoTable.sidecar
    rw [List.filter_append, hempty, List.append_nil]
  · obtain ⟨sink', hsink', happend⟩ := hsome _ (if_neg hempty)
    have hne : before.filter t.carries ++ packets.filter t.carries ≠ [] := fun h =>
      hempty (List.append_eq_nil_iff.mp h).2
    rw [hsink', ProtoTable.sidecar, List.filter_append, if_neg hne]
    exact congrArg some
      (table_appendTo (fun _ => table_of_sidecar hs) (filter_of_sidecar hs) happend)

end Split

/-! ### Runs -/

/-- The columns of the packet file. -/
def Mode.columns : Mode → List WideColumn
  | .wide => wideColumns
  | .split => coreColumns

section Batches

variable [ArrowKernels] {ε : Type} {disk : Disk ε}

/-- **One batch extends the packet file by its rows.** -/
theorem onBatch_packets {mode : Mode} {s s' : Sinks} {before packets : List Packet}
    (hsome : ∀ sink, s.packets = some sink → sink.table = tableOf mode.columns before)
    (hnone : s.packets = none → before = []) (h : onBatch disk mode s packets = .ok s') :
    ∃ sink, s'.packets = some sink ∧ sink.table = tableOf mode.columns (before ++ packets) := by
  cases mode with
  | wide =>
      obtain ⟨sink, hsink, h⟩ := bind_eq_ok_iff.mp h
      cases h
      exact ⟨sink, rfl, table_appendTo hsome hnone hsink⟩
  | split =>
      obtain ⟨core, hcore, h⟩ := bind_eq_ok_iff.mp h
      obtain ⟨sink, hsink, h⟩ := bind_eq_ok_iff.mp h
      obtain ⟨tables, -, h⟩ := bind_eq_ok_iff.mp h
      obtain ⟨sidecars, -, h⟩ := bind_eq_ok_iff.mp h
      cases h
      rw [mapError_eq_ok_iff, coreTable_wideBatch] at hcore
      cases hcore
      exact ⟨sink, rfl, table_appendTo hsome hnone hsink⟩

theorem onBatches_concat {mode : Mode} {batches : List (List Packet)} {packets : List Packet}
    {s' : Sinks} (h : onBatches disk mode (batches ++ [packets]) = .ok s') :
    ∃ s, onBatches disk mode batches = .ok s ∧ onBatch disk mode s packets = .ok s' := by
  unfold onBatches at h ⊢
  rw [List.foldlM_append] at h
  obtain ⟨s, hs, h⟩ := bind_eq_ok_iff.mp h
  obtain ⟨s₁, h₁, h⟩ := bind_eq_ok_iff.mp h
  cases h
  exact ⟨s, hs, h₁⟩

/-- The packet file holds what was delivered. -/
theorem onBatches_packets {mode : Mode} {batches : List (List Packet)} {s : Sinks}
    (h : onBatches disk mode batches = .ok s) :
    (∀ sink, s.packets = some sink → sink.table = tableOf mode.columns batches.flatten) ∧
      (s.packets = none → batches.flatten = []) := by
  induction batches using List.reverseRecOn generalizing s with
  | nil =>
      cases h
      exact ⟨nofun, fun _ => rfl⟩
  | append_singleton batches packets ih =>
      obtain ⟨s₀, h₀, h⟩ := onBatches_concat h
      obtain ⟨hsome, hnone⟩ := ih h₀
      obtain ⟨sink, hsink, htable⟩ := onBatch_packets hsome hnone h
      rw [List.flatten_append, List.flatten_singleton, hsink]
      refine ⟨fun sink' hsink' => ?_, nofun⟩
      cases hsink'
      exact htable

/-- A protocol's file holds the projection of what was delivered. -/
theorem onBatches_sidecar {batches : List (List Packet)} {s : Sinks} {t : ProtoTable}
    (ht : t ∈ protoTables) (h : onBatches disk .split batches = .ok s) :
    (s.sidecars t.name).map (·.table) = t.sidecar batches.flatten := by
  induction batches using List.reverseRecOn generalizing s with
  | nil =>
      cases h
      rfl
  | append_singleton batches packets ih =>
      obtain ⟨s₀, h₀, h⟩ := onBatches_concat h
      rw [List.flatten_append, List.flatten_singleton]
      exact onSplitBatch_sidecar ht (ih h₀) h

theorem packetsSink_table {mode : Mode} {old : Option ParquetSink} {sink : ParquetSink}
    {before : List Packet} (hsome : ∀ s, old = some s → s.table = tableOf mode.columns before)
    (hnone : old = none → before = []) (h : packetsSink disk mode old = .ok sink) :
    sink.table = tableOf mode.columns before := by
  cases old with
  | some s =>
      cases h
      exact hsome _ rfl
  | none =>
      obtain ⟨schema, hschema, h⟩ := bind_eq_ok_iff.mp h
      rw [mapError_eq_ok_iff] at hschema
      cases table_createSink h
      rw [hnone rfl]
      cases mode with
      | wide =>
          cases hschema
          rfl
      | split =>
          rw [emptySchema, bind_of_ok (coreTable_wideBatch [])] at hschema
          cases hschema
          exact Prod.ext (RecordBatch.schema_ofRecords coreColumns []) rfl

end Batches

section Run

variable [Hashes] [ArrowKernels] {ε : Type} {disk : Disk ε} {pool : ThreadPool} {cfg : Config}
  {records : List RawPacket} {badBlocks : ℕ}

/-- What a completed run leaves: the packet file holds the rows of the fold over the records, and in
split mode each protocol's file its projection of them. -/
theorem toParquet_ok {mode : Mode} {report : RunReport}
    (h : toParquet disk mode pool cfg records badBlocks = .ok report) :
    ∃ e rows, scan (Engine.step cfg.reassemble) (Engine.new cfg) (records.map RawPacket.own) =
        .ok (e, rows) ∧
      report.packets.table = tableOf mode.columns rows ∧
      (mode = .split → ∀ t ∈ protoTables,
        (report.sidecars t.name).map (·.table) = t.sidecar rows) := by
  unfold toParquet at h
  dsimp only at h
  split at h
  · cases h
  · cases h
  · cases h
  · next stats flows hend =>
      obtain ⟨e, hscan, -, -⟩ := scan_of_finished hend
      obtain ⟨sinks, hsinks, h⟩ := bind_eq_ok_iff.mp h
      obtain ⟨packets, hpackets, h⟩ := bind_eq_ok_iff.mp h
      obtain ⟨-, -, h⟩ := bind_eq_ok_iff.mp h
      cases h
      obtain ⟨hsome, hnone⟩ := onBatches_packets hsinks
      refine ⟨e, _, hscan, packetsSink_table hsome hnone hpackets, ?_⟩
      rintro rfl t ht
      exact onBatches_sidecar ht hsinks

/-- A disk that takes everything. -/
def Disk.free : Disk ε where
  create _ _ := .ok ()
  write _ _ _ := .ok ()
  close _ := .ok ()

variable (ε) in
omit [Hashes] [ArrowKernels] in
theorem appendTo_free (path : Text) (old : Option ParquetSink) (batch : RecordBatch Text Value) :
    ∃ sink, appendTo (Disk.free : Disk ε) path old batch = .ok sink := by
  have hwrite : ∀ sink, ∃ sink', writeSink (Disk.free : Disk ε) path sink batch = .ok sink' := by
    intro sink
    unfold writeSink
    split
    · exact ⟨sink, rfl⟩
    · exact ⟨_, rfl⟩
  cases old with
  | some sink => exact hwrite sink
  | none => exact hwrite { schema := batch.schema }

variable (ε) in
omit [Hashes] [ArrowKernels] in
theorem foldlM_writeSidecar_free (tables : List (Text × RecordBatch Text Value))
    (sidecars : Text → Option ParquetSink) :
    ∃ sidecars', tables.foldlM (writeSidecar (Disk.free : Disk ε)) sidecars = .ok sidecars' := by
  induction tables generalizing sidecars with
  | nil => exact ⟨sidecars, rfl⟩
  | cons table tables ih =>
      obtain ⟨sink, hsink⟩ :=
        appendTo_free ε (parquetPath table.1) (sidecars table.1) table.2
      have hwrite : writeSidecar (Disk.free : Disk ε) sidecars table =
          .ok (Function.update sidecars table.1 (some sink)) := (bind_of_ok hsink _).trans rfl
      rw [List.foldlM_cons, bind_of_ok hwrite]
      exact ih _

variable (ε) in
omit [Hashes] in
theorem onBatch_free (mode : Mode) (s : Sinks) (packets : List Packet) :
    ∃ s', onBatch (Disk.free : Disk ε) mode s packets = .ok s' := by
  cases mode with
  | wide =>
      obtain ⟨sink, hsink⟩ := appendTo_free ε packetsPath s.packets (wideBatch packets)
      exact ⟨_, (bind_of_ok hsink _).trans rfl⟩
  | split =>
      obtain ⟨sink, hsink⟩ := appendTo_free ε packetsPath s.packets
        (RecordBatch.ofRecords coreColumns packets)
      have hcore := (mapError_eq_ok_iff (ε := ApiError ε) (f := .arrow)).mpr
        (coreTable_wideBatch packets)
      have htables := (mapError_eq_ok_iff (ε := ApiError ε) (f := .arrow)).mpr
        (allProtoTables_wideBatch packets)
      obtain ⟨sidecars, hsidecars⟩ := foldlM_writeSidecar_free ε
        (protoTables.filterMap fun t => (t.cut packets).map fun table => (t.name, table)) s.sidecars
      exact ⟨_, (bind_of_ok hcore _).trans <| (bind_of_ok hsink _).trans <|
        (bind_of_ok htables _).trans <| (bind_of_ok hsidecars _).trans rfl⟩

variable (ε) in
omit [Hashes] in
theorem onBatches_free (mode : Mode) (batches : List (List Packet)) :
    ∃ s, onBatches (Disk.free : Disk ε) mode batches = .ok s := by
  induction batches using List.reverseRecOn with
  | nil => exact ⟨{}, rfl⟩
  | append_singleton batches packets ih =>
      obtain ⟨s, hs⟩ := ih
      obtain ⟨s', hs'⟩ := onBatch_free ε mode s packets
      refine ⟨s', ?_⟩
      unfold onBatches at hs ⊢
      rw [List.foldlM_append, bind_of_ok hs, List.foldlM_cons]
      exact (bind_of_ok hs' _).trans rfl

variable (ε) in
omit [Hashes] in
theorem packetsSink_free (mode : Mode) (old : Option ParquetSink) :
    ∃ sink, packetsSink (Disk.free : Disk ε) mode old = .ok sink := by
  cases old with
  | some sink => exact ⟨sink, rfl⟩
  | none =>
      cases mode with
      | wide => exact ⟨_, rfl⟩
      | split =>
          have hschema : emptySchema .split =
              .ok (RecordBatch.ofRecords coreColumns []).schema :=
            (bind_of_ok (coreTable_wideBatch []) _).trans rfl
          have hmap := (mapError_eq_ok_iff (ε := ApiError ε) (f := .arrow)).mpr hschema
          exact ⟨_, (bind_of_ok hmap _).trans rfl⟩

/-- A run to a disk that takes everything completes, if the fold over the records does. -/
theorem exists_toParquet_free {e : Engine} {rows : List Packet}
    (h : scan (Engine.step cfg.reassemble) (Engine.new cfg) (records.map RawPacket.own) =
      .ok (e, rows)) (mode : Mode) (pool : ThreadPool) {size : ℕ} (hsize : 1 ≤ size)
    (hreserves : Reserves size) (badBlocks : ℕ) :
    ∃ report, toParquet (Disk.free : Disk ε) mode pool { cfg with batchSize := size } records
      badBlocks = .ok report := by
  obtain ⟨batches, -, -, -, hdel⟩ := delivers_of_scan h pool hsize hreserves badBlocks
  have htakes : ∀ bs, (onBatches (Disk.free : Disk ε) mode bs).map (fun _ => ()) = .ok () := by
    intro bs
    obtain ⟨s, hs⟩ := onBatches_free ε mode bs
    rw [hs]
    rfl
  have hrun := (hdel (ApiError ε) fun bs =>
    (onBatches (Disk.free : Disk ε) mode bs).map fun _ => ()).1 fun j _ _ => htakes (batches.take j)
  obtain ⟨s, hs⟩ := onBatches_free ε mode batches
  obtain ⟨sink, hsink⟩ := packetsSink_free ε mode s.packets
  unfold toParquet
  rw [hrun]
  exact ⟨_, (bind_of_ok hs _).trans ((bind_of_ok hsink _).trans rfl)⟩

/-- **The files of split mode are projections of the wide table.**  For a completed run in split mode
there are rows, numbered in order, that are the packet file of every completed run in wide mode over
the same capture, and there is such a run; a protocol's file holds those of them that carry the
protocol, in the core columns and its own, and it is there exactly when there is such a row; and
every other completed run in split mode leaves the same files, whatever its batch size. -/
theorem sidecars_project {report : RunReport}
    (h : toParquet disk .split pool cfg records badBlocks = .ok report) :
    ∃ rows : List Packet,
      (∀ (i : ℕ) (row : Packet), rows[i]? = some row → row.frame.packetId = some i) ∧
      (∃ wide, toParquet (Disk.free : Disk ε) .wide pool { cfg with batchSize := 1 } records
        badBlocks = .ok wide) ∧
      (∀ (δ : Type) (disk' : Disk δ) (pool' : ThreadPool) (size : ℕ) (wide : RunReport),
        toParquet disk' .wide pool' { cfg with batchSize := size } records badBlocks = .ok wide →
          wide.packets.table = tableOf wideColumns rows) ∧
      (∀ t ∈ protoTables, (report.sidecars t.name).map (·.table) =
        if rows.filter t.carries = [] then none
        else some (tableOf t.columns (rows.filter t.carries))) ∧
      ∀ (δ : Type) (disk' : Disk δ) (pool' : ThreadPool) (size : ℕ) (other : RunReport),
        toParquet disk' .split pool' { cfg with batchSize := size } records badBlocks = .ok other →
          ∀ t ∈ protoTables, (other.sidecars t.name).map (·.table) =
            (report.sidecars t.name).map (·.table) := by
  obtain ⟨e, rows, hscan, -, hsidecars⟩ := toParquet_ok h
  refine ⟨rows, fun i row hrow => ?_,
    exists_toParquet_free hscan .wide pool (Nat.le_refl 1) (by decide) badBlocks,
    fun δ disk' pool' size wide hwide => ?_, hsidecars rfl,
    fun δ disk' pool' size other hother t ht => ?_⟩
  · have hids := Engine.scan_numbered hscan i row hrow
    rw [show (Engine.new cfg).nextPacketId = 0 from rfl, Nat.zero_add] at hids
    exact congrArg Prod.fst hids
  · obtain ⟨e', rows', hscan', hpackets, -⟩ := toParquet_ok hwide
    cases hscan.symm.trans hscan'
    exact hpackets
  · obtain ⟨e', rows', hscan', -, hsidecars'⟩ := toParquet_ok hother
    cases hscan.symm.trans hscan'
    rw [hsidecars' rfl t ht, hsidecars rfl t ht]

end Run

/-- The table of ARP. -/
def arpTable : ProtoTable := .of "arp" ["arp_"]

theorem arpTable_mem : arpTable ∈ protoTables := List.mem_of_getElem? (i := 0) rfl

/-- A packet with an ARP opcode carries the table. -/
theorem carries_of_arpOpcode {p : Packet} (h : p.link.arpOpcode.isSome) :
    arpTable.carries p = true := by
  have hmem : WideColumn.u16 "arp_opcode" (·.link.arpOpcode) ∈ wideColumns :=
    List.mem_of_getElem? (i := 36) rfl
  refine List.any_eq_true.mpr ⟨_, List.mem_filter.mpr ⟨hmem, rfl⟩, ?_⟩
  simpa [WideColumn.u16] using h

/-- An ARP request: who has 10.0.0.2, tell 10.0.0.1. -/
def arpRecord : RawPacket :=
  { tsNs := 0, capLen := 42, origLen := 42, ifaceId := 0, linktype := 1,
    data := [255, 255, 255, 255, 255, 255, 0, 0, 0, 0, 0, 1, 0x08, 0x06] ++
      [0, 1, 0x08, 0x00, 6, 4, 0, 1, 0, 0, 0, 0, 0, 1, 10, 0, 0, 1, 0, 0, 0, 0, 0, 0, 10, 0, 0, 2],
    data_le := by decide }

/-- What a capture of an ARP request and a record without a byte leaves. -/
theorem scan_arp [Hashes] : ∃ e row blank,
    scan (Engine.step ({} : Config).reassemble) (Engine.new {})
        ([arpRecord, emptyRecord].map RawPacket.own) = .ok (e, [row, blank]) ∧
      arpTable.carries row = true := by
  obtain ⟨e, row, blank, hscan, hopcode⟩ : ∃ e row blank,
      scan (Engine.step ({} : Config).reassemble) (Engine.new {})
        ([arpRecord, emptyRecord].map RawPacket.own) = .ok (e, [row, blank]) ∧
      row.link.arpOpcode.isSome := ⟨_, _, _, rfl, rfl⟩
  exact ⟨e, row, blank, hscan, carries_of_arpOpcode hopcode⟩

/-- The ARP request leaves a file of its table. -/
theorem sidecar_arp [Hashes] {pool : ThreadPool} {e : Engine} {row blank : Packet}
    (hscan : scan (Engine.step ({} : Config).reassemble) (Engine.new {})
      ([arpRecord, emptyRecord].map RawPacket.own) = .ok (e, [row, blank]))
    (hcarries : arpTable.carries row = true) {report : RunReport}
    (h : toParquet (Disk.free : Disk Unit) .split pool { batchSize := 1 } [arpRecord, emptyRecord] 0 =
      .ok report) : (report.sidecars arpTable.name).isSome := by
  obtain ⟨e', rows', hscan', -, hsidecars⟩ := toParquet_ok h
  cases hscan.symm.trans hscan'
  have hsidecar := hsidecars rfl arpTable arpTable_mem
  rw [ProtoTable.sidecar, if_neg (by rw [List.filter_cons_of_pos hcarries]; simp)] at hsidecar
  rw [← Option.isSome_map (f := (·.table)), hsidecar]
  rfl

/-- Of an ARP request and a record without a byte, the first is in a file of its own. -/
theorem sidecars_project_arp :
    arpTable ∈ protoTables ∧ ∀ (_ : Hashes) (pool : ThreadPool), ∃ (report : RunReport)
      (rows : List Packet),
      toParquet (Disk.free : Disk Unit) .split pool { batchSize := 1 } [arpRecord, emptyRecord] 0 =
        .ok report ∧
      (report.sidecars arpTable.name).isSome ∧ rows.filter arpTable.carries ≠ [] ∧
      ∀ t ∈ protoTables, (report.sidecars t.name).map (·.table) =
        if rows.filter t.carries = [] then none
        else some (tableOf t.columns (rows.filter t.carries)) := by
  refine ⟨arpTable_mem, fun _ pool => ?_⟩
  obtain ⟨e, row, blank, hscan, hcarries⟩ := scan_arp
  obtain ⟨report, hreport⟩ : ∃ report, toParquet (Disk.free : Disk Unit) .split pool
      { batchSize := 1 } [arpRecord, emptyRecord] 0 = .ok report :=
    exists_toParquet_free hscan .split pool (Nat.le_refl 1) (by decide) 0
  have hfile := sidecar_arp hscan hcarries hreport
  obtain ⟨rows, -, -, -, hsidecars, -⟩ := sidecars_project hreport
  refine ⟨report, rows, hreport, hfile, fun hempty => ?_, hsidecars⟩
  have hnone := hsidecars arpTable arpTable_mem
  rw [if_pos hempty, Option.map_eq_none_iff] at hnone
  rw [hnone] at hfile
  cases hfile

end PcapRacer
