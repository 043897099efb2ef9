/-
**Split output joined again.**

The files of split mode can be joined on `packet_id`, which every file has.  What the join gives back
is what wide mode writes, column by column, for exactly the columns whose names are among the core
columns or start with a prefix of some protocol table.  The other columns, such as `ip_ttl`, `tcp_seq`
and `vlan_id`, are in no file of split mode.

Main definitions:

* `Table.column`, `Table.rowOf` — a column of a table by name, and the row of a packet;
* `survives` — the columns that split mode keeps;
* `RunReport.joined` — a column of the files of split mode, joined on `packet_id`.

Main results:

* `split_joins_to_wide` — **the join of the split files is the wide file** on the columns that
  survive, and the other columns are in no split file.
-/

import PcapRacer.ColumnJoin
import PcapRacer.SplitOutput

set_option relaxedAutoImplicit false
set_option autoImplicit false

namespace PcapRacer

open ChunkedRun (scan)

/-! ### The join -/

namespace Table

/-- The entry of a row under a name. -/
def entry (t : Table) (row : List (Option Value)) (name : Text) : Option Value :=
  Column.entry t.1 row name

/-- A column of the table. -/
def column (t : Table) (name : Text) : List (Option Value) := t.2.map fun row => t.entry row name

end Table

def packetIdName : Text := "packet_id".toList

/-- The number that an entry holds. -/
def numberOf : Option Value → Option ℕ
  | some (.u64 n) => some n
  | _ => none

namespace Table

/-- The packet that a row is about. -/
def packetOf (t : Table) (row : List (Option Value)) : Option ℕ :=
  numberOf (t.entry row packetIdName)

/-- The row of a packet. -/
def rowOf (t : Table) (id : Option ℕ) : Option (List (Option Value)) :=
  t.2.find? fun row => decide (t.packetOf row = id)

end Table

/-- The column is in some file of split mode. -/
def survives (name : Text) : Prop := name ∈ coreColumnNames ∨ ∃ t ∈ protoTables, t.takes name

instance (name : Text) : Decidable (survives name) := by
  unfold survives
  infer_instance

example : survives "dns_qname".toList ∧ ¬ survives "ip_ttl".toList := by decide

namespace RunReport

/-- What the protocol files have of a packet under a name: null when no file has the column, or the
packet is not in the file. -/
def sidecarEntry (r : RunReport) (id : Option ℕ) (name : Text) : Option Value := do
  let t ← protoTables.find? fun t => t.takes name
  let sink ← r.sidecars t.name
  let row ← sink.table.rowOf id
  sink.table.entry row name

/-- A column of the packet file, or else of the protocol files, joined on `packet_id`. -/
def joined (r : RunReport) (name : Text) : List (Option Value) :=
  if name ∈ r.packets.schema then r.packets.table.column name
  else r.packets.table.2.map fun row => r.sidecarEntry (r.packets.table.packetOf row) name

end RunReport

/-! ### What the join finds -/

section Read

variable (name : Text)

theorem entry_tableOf (cols : List WideColumn) (packets : List Packet) (p : Packet) :
    (tableOf cols packets).entry (cols.map (·.cell p)) name = Column.read cols name p :=
  Column.entry_map cols name p

theorem column_tableOf (cols : List WideColumn) (packets : List Packet) :
    (tableOf cols packets).column name = packets.map (Column.read cols name) := by
  unfold Table.column
  rw [show (tableOf cols packets).2 = packets.map fun p => cols.map (·.cell p) from rfl,
    List.map_map]
  exact List.map_congr_left fun p _ => entry_tableOf name cols packets p

/-- The core columns are those of the wide table. -/
theorem named_core :
    Column.named coreColumns name =
      if name ∈ coreColumnNames then Column.named wideColumns name else none := by
  rw [coreColumns]
  refine (Column.named_filterMap coreColumnNames).trans ?_
  split <;> rfl

variable {name}

/-- The core columns are among the core names. -/
theorem mem_coreColumnNames {name : Text} (h : name ∈ coreColumns.map (·.name)) :
    name ∈ coreColumnNames := by
  by_contra hnot
  exact Column.named_eq_none_iff.mp ((named_core name).trans (if_neg hnot)) h

theorem read_core (h : name ∈ coreColumns.map (·.name)) (p : Packet) :
    Column.read coreColumns name p = Column.read wideColumns name p := by
  rw [Column.read, named_core, if_pos (mem_coreColumnNames h), Column.read]

/-- A column of a protocol's table, unless it is one of the core columns, is that of the wide table. -/
theorem read_columns {t : ProtoTable} (hcore : name ∉ coreColumns.map (·.name)) (ht : t.takes name)
    (p : Packet) : Column.read t.columns name p = Column.read wideColumns name p := by
  have hown : Column.named t.ownColumns name = Column.named wideColumns name :=
    Column.named_taken ht
  rw [Column.read, ProtoTable.columns, Column.named_append, Column.named_eq_none_iff.mpr hcore,
    Option.none_or, hown, Column.read]

/-- The key of a record in every file. -/
theorem packetOf_tableOf {cols rest : List WideColumn} (hcols : cols = coreColumns ++ rest)
    (packets : List Packet) (p : Packet) :
    (tableOf cols packets).packetOf (cols.map (·.cell p)) = p.frame.packetId := by
  have hread : Column.read cols packetIdName p = p.frame.packetId.map Value.u64 := by
    have hnamed : Column.named coreColumns packetIdName =
        some (WideColumn.u64 "packet_id" (·.frame.packetId)) :=
      (named_core packetIdName).trans (by rw [if_pos (by decide)]; rfl)
    rw [Column.read, hcols, Column.named_append, hnamed]
    rfl
  rw [Table.packetOf, entry_tableOf, hread]
  cases p.frame.packetId <;> rfl

end Read

/-- The row of a packet in the file of a protocol, and what it holds. -/
theorem rowOf_tableOf {t : ProtoTable} {rows : List Packet}
    (hkeys : (rows.map fun p => p.frame.packetId).Nodup) {p : Packet} (hp : p ∈ rows) :
    (tableOf t.columns (rows.filter t.carries)).rowOf p.frame.packetId =
      if t.carries p then some (t.columns.map (·.cell p)) else none := by
  unfold Table.rowOf
  rw [show (tableOf t.columns (rows.filter t.carries)).2 =
    (rows.filter t.carries).map fun p => t.columns.map (·.cell p) from rfl, List.find?_map]
  have hkey : ((fun row => decide ((tableOf t.columns (rows.filter t.carries)).packetOf row =
      p.frame.packetId)) ∘ fun q : Packet => t.columns.map (·.cell q)) =
      fun q => decide (q.frame.packetId = p.frame.packetId) := by
    funext q
    rw [Function.comp_apply, packetOf_tableOf (show t.columns = coreColumns ++ t.ownColumns from rfl)]
  rw [hkey, Column.find?_filter_key hkeys t.carries hp]
  split <;> rfl

/-- **What the protocol files have of a packet**, under a name that a table takes. -/
theorem sidecarEntry_eq {r : RunReport} {rows : List Packet} {name : Text}
    (hsidecars : ∀ t ∈ protoTables, (r.sidecars t.name).map (·.table) = t.sidecar rows)
    (hkeys : (rows.map fun p => p.frame.packetId).Nodup)
    (hcore : name ∉ coreColumns.map (·.name)) (htakes : ∃ t ∈ protoTables, t.takes name)
    {p : Packet} (hp : p ∈ rows) :
    r.sidecarEntry p.frame.packetId name = Column.read wideColumns name p := by
  obtain ⟨t, ht⟩ : ∃ t, (protoTables.find? fun t => t.takes name) = some t :=
    Option.isSome_iff_exists.mp (List.find?_isSome.mpr htakes)
  have hmem : t ∈ protoTables := List.mem_of_find?_eq_some ht
  have htake : t.takes name := by simpa using List.find?_some ht
  have hfile := hsidecars t hmem
  -- a packet without a row does not carry the protocol, so the column is null
  have hnull : t.carries p = false → Column.read wideColumns name p = none := fun hc =>
    Column.read_of_carried htake hc
  rw [RunReport.sidecarEntry, ht]
  unfold ProtoTable.sidecar at hfile
  cases hsink : r.sidecars t.name with
  | none =>
      rw [hsink] at hfile
      split at hfile
      · next hempty =>
          have hc : t.carries p = false := by
            by_contra hc
            have hin : p ∈ rows.filter t.carries := List.mem_filter.mpr ⟨hp, by simpa using hc⟩
            rw [hempty] at hin
            cases hin
          rw [hnull hc]
          simp [hsink]
      · cases hfile
  | some sink =>
      rw [hsink] at hfile
      split at hfile
      · cases hfile
      · have htable : sink.table = tableOf t.columns (rows.filter t.carries) :=
          Option.some.inj hfile
        have hrow := rowOf_tableOf (t := t) hkeys hp
        simp only [Option.bind_eq_bind, Option.bind_some, hsink, htable, hrow]
        cases hc : t.carries p with
        | false => rw [hnull hc]; rfl
        | true =>
            rw [if_pos rfl, Option.bind_some, entry_tableOf]
            exact read_columns hcore htake p

/-! ### The files of a run -/

/-- A column of a protocol's table is a core column or taken by the table. -/
theorem survives_of_mem_columns {t : ProtoTable} (ht : t ∈ protoTables) {name : Text}
    (h : name ∈ t.columns.map (·.name)) : survives name := by
  rw [ProtoTable.columns, List.map_append, List.mem_append] at h
  rcases h with hcore | hown
  · exact .inl (mem_coreColumnNames hcore)
  · obtain ⟨c, hc, rfl⟩ := List.mem_map.mp hown
    exact .inr ⟨t, ht, (List.mem_filter.mp hc).2⟩

/-- The join of the split files, where the rows have keys of their own. -/
theorem joined_eq {r : RunReport} {rows : List Packet} {name : Text}
    (hpackets : r.packets.table = tableOf coreColumns rows)
    (hsidecars : ∀ t ∈ protoTables, (r.sidecars t.name).map (·.table) = t.sidecar rows)
    (hkeys : (rows.map fun p => p.frame.packetId).Nodup) (hsurvives : survives name) :
    r.joined name = rows.map (Column.read wideColumns name) := by
  have hschema : r.packets.schema = coreColumns.map (·.name) := congrArg Prod.fst hpackets
  unfold RunReport.joined
  rw [hschema, hpackets]
  by_cases hcore : name ∈ coreColumns.map (·.name)
  · rw [if_pos hcore, column_tableOf]
    exact List.map_congr_left fun p _ => read_core hcore p
  · rw [if_neg hcore, show (tableOf coreColumns rows).2 =
      rows.map fun p => coreColumns.map (·.cell p) from rfl, List.map_map]
    refine List.map_congr_left fun p hp => ?_
    rw [Function.comp_apply, packetOf_tableOf (List.append_nil coreColumns).symm]
    rcases hsurvives with hname | htakes
    · -- a core name that the schema lacks is no column at all
      have hwide : Column.named wideColumns name = none := by
        rw [← Column.named_eq_none_iff, named_core, if_pos hname] at hcore
        exact hcore
      have hread : Column.read wideColumns name p = none := by rw [Column.read, hwide]; rfl
      by_cases htakes : ∃ t ∈ protoTables, t.takes name
      · exact sidecarEntry_eq hsidecars hkeys hcore htakes hp
      · have hnone : (protoTables.find? fun t => t.takes name) = none := by
          rw [List.find?_eq_none]
          exact fun t ht h => htakes ⟨t, ht, h⟩
        rw [hread, RunReport.sidecarEntry, hnone]
        rfl
    · exact sidecarEntry_eq hsidecars hkeys hcore htakes hp

/-- Rows numbered in order have keys of their own. -/
theorem nodup_packetIds {rows : List Packet}
    (h : ∀ (i : ℕ) (row : Packet), rows[i]? = some row → row.frame.packetId = some i) :
    (rows.map fun p => p.frame.packetId).Nodup := by
  refine List.nodup_iff_injective_get.mpr fun i j hij => Fin.ext ?_
  have hi : i.1 < rows.length := by simpa using i.2
  have hj : j.1 < rows.length := by simpa using j.2
  simp only [List.get_eq_getElem, List.getElem_map] at hij
  rw [h i.1 _ (List.getElem?_eq_getElem hi), h j.1 _ (List.getElem?_eq_getElem hj)] at hij
  exact Option.some.inj hij

section Run

variable [Hashes] [ArrowKernels]

/-- **The join of the split files is the wide file**, on the columns that survive.  For every capture
and any two completed runs over it, one in split mode and one in wide mode, and every column name: if
the name is a core name or a table takes it, then joining the split files on `packet_id` gives back
the column of the wide file; otherwise no split file has a column of that name. -/
theorem split_joins_to_wide {ε δ : Type} {disk : Disk ε} {disk' : Disk δ} {pool pool' : ThreadPool}
    {cfg : Config} {size : ℕ} {records : List RawPacket} {badBlocks : ℕ} {split wide : RunReport}
    (hsplit : toParquet disk .split pool cfg records badBlocks = .ok split)
    (hwide : toParquet disk' .wide pool' { cfg with batchSize := size } records badBlocks = .ok wide)
    (name : Text) :
    (survives name → split.joined name = wide.packets.table.column name) ∧
    (¬ survives name → name ∉ split.packets.schema ∧
      ∀ t ∈ protoTables, ∀ sink, split.sidecars t.name = some sink → name ∉ sink.schema) := by
  obtain ⟨e, rows, hscan, hpackets, hsidecars⟩ := toParquet_ok hsplit
  obtain ⟨e', rows', hscan', hpackets', -⟩ := toParquet_ok hwide
  cases hscan.symm.trans hscan'
  have hpackets : split.packets.table = tableOf coreColumns rows := hpackets
  have hpackets' : wide.packets.table = tableOf wideColumns rows := hpackets'
  have hsidecars := hsidecars rfl
  have hkeys : (rows.map fun p => p.frame.packetId).Nodup := nodup_packetIds fun i row hrow => by
    have hids := Engine.scan_numbered hscan i row hrow
    rw [show (Engine.new cfg).nextPacketId = 0 from rfl, Nat.zero_add] at hids
    exact congrArg Prod.fst hids
  refine ⟨fun hsurvives => ?_, fun hlost => ⟨fun hmem => ?_, fun t ht sink hsink hmem => ?_⟩⟩
  · rw [joined_eq hpackets hsidecars hkeys hsurvives, hpackets', column_tableOf]
  · have hschema : split.packets.schema = coreColumns.map (·.name) := congrArg Prod.fst hpackets
    rw [hschema] at hmem
    exact hlost (.inl (mem_coreColumnNames hmem))
  · have hfile := hsidecars t ht
    rw [hsink, ProtoTable.sidecar] at hfile
    split at hfile
    · cases hfile
    · have hschema : sink.schema = t.columns.map (·.name) :=
        congrArg Prod.fst (Option.some.inj hfile)
      rw [hschema] at hmem
      exact hlost (survives_of_mem_columns ht hmem)

end Run

/-- An ARP request and a record without a byte, written in both modes: there is one sidecar to
join. -/
theorem split_joins_to_wide_arp :
    survives "arp_opcode".toList ∧ ¬ survives "ip_ttl".toList ∧
    ∀ (_ : Hashes) (pool : ThreadPool), ∃ split wide : RunReport,
    toParquet (Disk.free : Disk Unit) .split pool { batchSize := 1 } [arpRecord, emptyRecord] 0 =
        .ok split ∧
      toParquet (Disk.free : Disk Unit) .wide pool { batchSize := 1 } [arpRecord, emptyRecord] 0 =
        .ok wide ∧
      (split.sidecars arpTable.name).isSome ∧
      split.joined "arp_opcode".toList = wide.packets.table.column "arp_opcode".toList ∧
      "ip_ttl".toList ∉ split.packets.schema := by
  have harp : survives "arp_opcode".toList := by decide
  have httl : ¬ survives "ip_ttl".toList := by decide
  refine ⟨harp, httl, fun _ pool => ?_⟩
  obtain ⟨e, row, blank, hscan, hcarries⟩ := scan_arp
  obtain ⟨split, hsplit⟩ :=
    exists_toParquet_free (ε := Unit) hscan .split pool (Nat.le_refl 1) (by decide) 0
  obtain ⟨wide, hwide⟩ :=
    exists_toParquet_free (ε := Unit) hscan .wide pool (Nat.le_refl 1) (by decide) 0
  exact ⟨split, wide, hsplit, hwide, sidecar_arp hscan hcarries hsplit,
    (split_joins_to_wide hsplit hwide "arp_opcode".toList).1 harp,
    ((split_joins_to_wide hsplit hwide "ip_ttl".toList).2 httl).1⟩

end PcapRacer
