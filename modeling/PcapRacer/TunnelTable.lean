/-
**The tunnel table of split mode.**

The tunnel table gets every packet in which a column with one of the tunnel prefixes is set.  One of
these columns is the depth of encapsulation, and finishing a dissection sets it for every packet,
tunnelled or not.  So the tunnel table gets every packet whose dissection does not panic.

Main definitions:

* `RunReport.holds` — a packet's row is in a protocol's file;
* `EnteredTunnel` — the stack names a tunnel, or a GRE header was parsed;
* `Panics` — the first pass over a packet panics.

Main results:

* `RunReport.holds_iff` — a packet's row is in the file of a protocol exactly when the packet carries
  the protocol;
* `carries_tunnel_iff` — a packet carries the tunnel columns exactly when it does not panic;
* `tunnelTable_exact_iff` — **the tunnel table has exactly the tunnelled packets if and only if every
  packet of the capture enters a tunnel or panics**.
-/

import PcapRacer.SplitOutput
import PcapRacer.StackColumns

set_option relaxedAutoImplicit false
set_option autoImplicit false

namespace PcapRacer

open ChunkedRun (scan)

/-! ### Rows of a file -/

/-- The row of a packet is in the file of a protocol. -/
def RunReport.holds (report : RunReport) (t : ProtoTable) (row : Packet) : Prop :=
  ∃ sink, report.sidecars t.name = some sink ∧ t.columns.map (·.cell row) ∈ sink.contents

/-- Every table starts with the number of the packet. -/
theorem head_columns (t : ProtoTable) (row : Packet) :
    (t.columns.map (·.cell row)).head? = some (row.frame.packetId.map .u64) := by
  have hcore : ∃ rest, coreColumns =
      WideColumn.u64 "packet_id" (·.frame.packetId) :: rest := ⟨_, List.filterMap_cons_some rfl⟩
  obtain ⟨rest, hcore⟩ := hcore
  rw [ProtoTable.columns, hcore]
  rfl

/-- **A packet's row is in the file of a protocol exactly when the packet carries the protocol.** -/
theorem RunReport.holds_iff {report : RunReport} {t : ProtoTable} {rows : List Packet}
    (hnumbered : ∀ (i : ℕ) (row : Packet), rows[i]? = some row → row.frame.packetId = some i)
    (hfile : (report.sidecars t.name).map (·.table) = t.sidecar rows) {row : Packet}
    (hrow : row ∈ rows) : report.holds t row ↔ t.carries row = true := by
  constructor
  · rintro ⟨sink, hsink, hmem⟩
    have hcontents : sink.contents =
        (rows.filter t.carries).map fun p => t.columns.map (·.cell p) :=
      congrArg Prod.snd (table_of_sidecar hfile hsink)
    rw [hcontents] at hmem
    obtain ⟨row', hrow', heq⟩ := List.mem_map.mp hmem
    obtain ⟨hrow', hcarries⟩ := List.mem_filter.mp hrow'
    -- rows of the same number are the same row
    have hhead := congrArg List.head? heq
    rw [head_columns, head_columns] at hhead
    obtain ⟨i, hi⟩ := List.mem_iff_getElem?.mp hrow
    obtain ⟨j, hj⟩ := List.mem_iff_getElem?.mp hrow'
    rw [hnumbered i row hi, hnumbered j row' hj] at hhead
    have hij : j = i := by simpa using hhead
    rw [hij, hi] at hj
    cases hj
    exact hcarries
  · intro hcarries
    have hmem : row ∈ rows.filter t.carries := List.mem_filter.mpr ⟨hrow, hcarries⟩
    cases hsink : report.sidecars t.name with
    | none =>
        rw [filter_of_sidecar hfile hsink] at hmem
        cases hmem
    | some sink =>
        have hcontents : sink.contents =
            (rows.filter t.carries).map fun p => t.columns.map (·.cell p) :=
          congrArg Prod.snd (table_of_sidecar hfile hsink)
        refine ⟨sink, hsink, ?_⟩
        rw [hcontents]
        exact List.mem_map_of_mem hmem

/-! ### Tunnel columns -/

/-- The table of tunnelled packets. -/
def tunnelTable : ProtoTable :=
  .of "tunnel" ["tunnel_", "gre_", "vxlan_", "geneve_", "gtp_", "erspan_", "l2tp_", "teredo_"]

theorem tunnelTable_mem : tunnelTable ∈ protoTables := List.mem_of_getElem? (i := 37) rfl

/-- A packet with a depth carries the table. -/
theorem carries_of_depth {p : Packet} (h : p.frame.tunnelDepth.isSome) :
    tunnelTable.carries p = true := by
  have hmem : WideColumn.u8 "tunnel_depth" (·.frame.tunnelDepth) ∈ wideColumns :=
    List.mem_of_getElem? (i := 13) rfl
  refine List.any_eq_true.mpr ⟨_, List.mem_filter.mpr ⟨hmem, rfl⟩, ?_⟩
  simpa [WideColumn.u8] using h

set_option maxRecDepth 8000 in
/-- A packet that has its frame columns only has nothing in the others. -/
theorem blank_drop (f : FrameCols) :
    (wideColumns.drop 14).all (fun c => (c.cell { frame := f }).isNone) = true := rfl

/-- A packet that has its frame columns only, and no depth, does not carry the table. -/
theorem not_carries_of_frame {f : FrameCols} (h : f.tunnelDepth = none) :
    tunnelTable.carries { frame := f } = false := by
  have hframe : frameColumns.filter (fun c => tunnelTable.takes c.name) =
      [WideColumn.u8 "tunnel_depth" (·.frame.tunnelDepth)] := rfl
  have hsplit : wideColumns = frameColumns ++ wideColumns.drop 14 :=
    (List.take_append_drop 14 wideColumns).symm
  have hblank := List.all_eq_true.mp (blank_drop f)
  unfold ProtoTable.carries ProtoTable.ownColumns
  rw [hsplit, List.filter_append, hframe, List.any_append, Bool.or_eq_false_iff]
  constructor
  · simp [WideColumn.u8, h]
  · refine List.any_eq_false.mpr fun c hc => ?_
    have := hblank c (List.mem_filter.mp hc).1
    simpa using this

/-! ### Which packets get a depth -/

/-- The layers that are tunnels. -/
def tunnelLayers : List Layer := [.gre, .erspan, .ipip, .vxlan, .geneve, .gtp, .l2tp, .teredo]

/-- Dissection entered a tunnel: the stack names one, or a GRE header was parsed. -/
def EnteredTunnel (row : Packet) : Prop :=
  (∃ layer ∈ tunnelLayers, layer.name ∈ Text.split (· = ':') (row.frame.protoStack.getD [])) ∨
    row.tunnel.greProtocol.isSome = true

instance (row : Packet) : Decidable (EnteredTunnel row) :=
  inferInstanceAs (Decidable (_ ∨ _))

section Rows

variable [Hashes]

/-- The first pass over the packet panics. -/
def Panics (o : Owned) (defer : Bool) : Prop := ∃ p, dissectInner o defer = .error p

/-- A packet that does not panic is given a depth. -/
theorem depth_of_not_panics {o : Owned} {defer : Bool} {e e' : Engine} {row : Packet}
    (h : Engine.step defer e o = .ok (e', row)) (hpanics : ¬ Panics o defer) :
    row.frame.tunnelDepth.isSome := by
  have hrow : row.frame.tunnelDepth = (dissectOne o defer).pkt.frame.tunnelDepth := by
    have hstamp := congrArg FrameCols.tunnelDepth (Engine.absorbOne_ok h).1
    exact hstamp
  cases hd : dissectInner o defer with
  | error p => exact absurd ⟨p, hd⟩ hpanics
  | ok d =>
      obtain ⟨r, -, rfl⟩ := map_eq_ok_iff.mp hd
      rw [hrow, dissectOne, hd]
      rfl

/-- The row of a packet that panics has its frame columns only. -/
theorem row_of_panics {o : Owned} {defer : Bool} {e e' : Engine} {row : Packet}
    (h : Engine.step defer e o = .ok (e', row)) (hpanics : Panics o defer) :
    ∃ f : FrameCols, row = { frame := f } ∧ f.tunnelDepth = none ∧ f.protoStack = none := by
  obtain ⟨p, hp⟩ := hpanics
  unfold Engine.step dissectOne at h
  rw [hp] at h
  obtain ⟨⟨frags, fragTuple, pkt⟩, hpass, h⟩ := bind_eq_ok_iff.mp h
  have hfrag : (if e.reassemble then (panickedPacket o).frag else none) = none := by
    split <;> rfl
  rw [hfrag] at hpass
  cases hpass
  cases h
  exact ⟨_, rfl, rfl, rfl⟩

/-- **A packet carries the tunnel columns exactly when it does not panic.** -/
theorem carries_tunnel_iff {o : Owned} {defer : Bool} {e e' : Engine} {row : Packet}
    (h : Engine.step defer e o = .ok (e', row)) :
    tunnelTable.carries row = true ↔ ¬ Panics o defer := by
  constructor
  · intro hcarries hpanics
    obtain ⟨f, rfl, hdepth, -⟩ := row_of_panics h hpanics
    rw [not_carries_of_frame hdepth] at hcarries
    cases hcarries
  · exact fun hpanics => carries_of_depth (depth_of_not_panics h hpanics)

theorem not_entered_of_panics {o : Owned} {defer : Bool} {e e' : Engine} {row : Packet}
    (h : Engine.step defer e o = .ok (e', row)) (hpanics : Panics o defer) :
    ¬ EnteredTunnel row := by
  obtain ⟨f, rfl, -, hstack⟩ := row_of_panics h hpanics
  rintro (⟨layer, hlayer, hname⟩ | hgre)
  · rw [hstack] at hname
    have hnames : ∀ layer ∈ tunnelLayers, layer.name ≠ [] := by decide
    exact hnames layer hlayer (List.mem_singleton.mp hname)
  · cases hgre

/-! ### Runs -/

/-- **The tunnel table has exactly the tunnelled packets, and is not there without them, if and only
if every packet of the capture enters a tunnel or panics.** -/
theorem tunnelTable_exact_iff [ArrowKernels] {ε : Type} {disk : Disk ε} {pool : ThreadPool}
    {cfg : Config} {records : List RawPacket} {badBlocks : ℕ} {report : RunReport} {e : Engine}
    {rows : List Packet}
    (hrun : toParquet disk .split pool cfg records badBlocks = .ok report)
    (hrows : scan (Engine.step cfg.reassemble) (Engine.new cfg) (records.map RawPacket.own) =
      .ok (e, rows)) :
    ((∀ row ∈ rows, report.holds tunnelTable row ↔ EnteredTunnel row) ∧
        ((∀ row ∈ rows, ¬ EnteredTunnel row) → report.sidecars tunnelTable.name = none)) ↔
      ∀ (i : ℕ) (record : RawPacket) (row : Packet), records[i]? = some record →
        rows[i]? = some row → EnteredTunnel row ∨ Panics record.own cfg.reassemble := by
  obtain ⟨e', rows', hscan, -, hfile⟩ := toParquet_ok hrun
  cases hrows.symm.trans hscan
  have hfile := hfile rfl tunnelTable tunnelTable_mem
  have hnumbered : ∀ (i : ℕ) (row : Packet), rows[i]? = some row →
      row.frame.packetId = some i := by
    intro i row hrow
    have hids := Engine.scan_numbered hrows i row hrow
    rw [show (Engine.new cfg).nextPacketId = 0 from rfl, Nat.zero_add] at hids
    exact congrArg Prod.fst hids
  have hholds : ∀ row ∈ rows, report.holds tunnelTable row ↔ tunnelTable.carries row = true :=
    fun row hrow => RunReport.holds_iff hnumbered hfile hrow
  constructor
  · rintro ⟨hexact, -⟩ i record row hrecord hrow
    obtain ⟨o, e₁, e₂, ho, hstep⟩ := ChunkedRun.step_of_scan hrows hrow
    rw [List.getElem?_map, hrecord] at ho
    cases ho
    by_cases hpanics : Panics record.own cfg.reassemble
    · exact .inr hpanics
    · have hmem := List.mem_of_getElem? hrow
      have hcarries := (carries_tunnel_iff hstep).mpr hpanics
      exact .inl ((hexact row hmem).mp ((hholds row hmem).mpr hcarries))
  · intro hall
    have hcarries : ∀ row ∈ rows, tunnelTable.carries row = true ↔ EnteredTunnel row := by
      intro row hrow
      obtain ⟨i, hi⟩ := List.mem_iff_getElem?.mp hrow
      obtain ⟨o, e₁, e₂, ho, hstep⟩ := ChunkedRun.step_of_scan hrows hi
      rw [List.getElem?_map] at ho
      obtain ⟨record, hrecord, rfl⟩ := Option.map_eq_some_iff.mp ho
      rw [carries_tunnel_iff hstep]
      constructor
      · exact fun hpanics => (hall i record row hrecord hi).resolve_right hpanics
      · exact fun hentered hpanics => not_entered_of_panics hstep hpanics hentered
    refine ⟨fun row hrow => (hholds row hrow).trans (hcarries row hrow), fun hnone => ?_⟩
    have hempty : rows.filter tunnelTable.carries = [] :=
      List.filter_eq_nil_iff.mpr fun row hrow hc => hnone row hrow ((hcarries row hrow).mp hc)
    rw [ProtoTable.sidecar, if_pos hempty] at hfile
    exact Option.map_eq_none_iff.mp hfile

end Rows

/-- An LLDP frame without a single field. -/
def lldpRecord : RawPacket :=
  { tsNs := 0, capLen := 14, origLen := 14, ifaceId := 0, linktype := 1,
    data := [1, 0x80, 0xc2, 0, 0, 0x0e, 0, 0, 0, 0, 0, 2, 0x88, 0xcc], data_le := by decide }

/-- The rows of a capture of one record. -/
theorem scan_singleton [Hashes] {record : RawPacket} {e : Engine} {row : Packet}
    (h : Engine.step true (Engine.new {}) record.own = .ok (e, row)) :
    scan (Engine.step ({} : Config).reassemble) (Engine.new {}) ([record].map RawPacket.own) =
      .ok (e, [row]) := by
  rw [List.map_cons, List.map_nil, ChunkedRun.scan_cons_of_ok h, ChunkedRun.scan_nil]
  rfl

/-- The capture of the tunnelled packet: its row is in the table. -/
theorem tunnelTable_exact_ipip :
    ipipRecord.data.length = 54 ∧ ∀ (_ : Hashes) (pool : ThreadPool),
      ∃ (report : RunReport) (e : Engine) (rows : List Packet),
        toParquet (Disk.free : Disk Unit) .split pool { batchSize := 1 } [ipipRecord] 0 =
          .ok report ∧
        scan (Engine.step true) (Engine.new {}) [ipipRecord.own] = .ok (e, rows) ∧
        ∀ row ∈ rows, report.holds tunnelTable row ↔ EnteredTunnel row := by
  refine ⟨by decide, fun _ pool => ?_⟩
  obtain ⟨e, row, hstep, hstack⟩ : ∃ e row,
      Engine.step true (Engine.new {}) ipipRecord.own = .ok (e, row) ∧
        row.frame.protoStack = some "eth:ip:ipip:ip".toList := ⟨_, _, rfl, rfl⟩
  have hentered : EnteredTunnel row := by
    refine .inl ⟨.ipip, by decide, ?_⟩
    rw [hstack]
    decide
  have hscan := scan_singleton hstep
  obtain ⟨report, hreport⟩ : ∃ report, toParquet (Disk.free : Disk Unit) .split pool
      { batchSize := 1 } [ipipRecord] 0 = .ok report :=
    exists_toParquet_free hscan .split pool (Nat.le_refl 1) (by decide) 0
  refine ⟨report, e, [row], hreport, hscan, ?_⟩
  refine ((tunnelTable_exact_iff hreport hscan).mpr fun i record row' _ hrow' => .inl ?_).1
  rw [List.mem_singleton.mp (List.mem_of_getElem? hrow')]
  exact hentered

/-- The capture of the LLDP frame: no tunnel anywhere, and its row is in the tunnel table. -/
theorem lldp_in_tunnelTable :
    lldpRecord.data.length = 14 ∧ ∀ (_ : Hashes) (pool : ThreadPool),
      ∃ (report : RunReport) (e : Engine) (row : Packet),
        toParquet (Disk.free : Disk Unit) .split pool { batchSize := 1 } [lldpRecord] 0 =
          .ok report ∧
        scan (Engine.step true) (Engine.new {}) [lldpRecord.own] = .ok (e, [row]) ∧
        ¬ EnteredTunnel row ∧ report.holds tunnelTable row := by
  refine ⟨by decide, fun _ pool => ?_⟩
  obtain ⟨e, row, hstep, hstack, hgre, hid, hdepth⟩ : ∃ e row,
      Engine.step true (Engine.new {}) lldpRecord.own = .ok (e, row) ∧
        row.frame.protoStack = some "eth:lldp".toList ∧ row.tunnel.greProtocol = none ∧
        row.frame.packetId = some 0 ∧ row.frame.tunnelDepth.isSome :=
    ⟨_, _, rfl, rfl, rfl, rfl, rfl⟩
  have hentered : ¬ EnteredTunnel row := by
    unfold EnteredTunnel
    rw [hstack, hgre]
    decide
  have hscan := scan_singleton hstep
  obtain ⟨report, hreport⟩ : ∃ report, toParquet (Disk.free : Disk Unit) .split pool
      { batchSize := 1 } [lldpRecord] 0 = .ok report :=
    exists_toParquet_free hscan .split pool (Nat.le_refl 1) (by decide) 0
  refine ⟨report, e, row, hreport, hscan, hentered, ?_⟩
  obtain ⟨e', rows', hscan', -, hfile⟩ := toParquet_ok hreport
  cases hscan.symm.trans hscan'
  refine (RunReport.holds_iff (fun i row' hrow' => ?_) (hfile rfl _ tunnelTable_mem)
    (List.mem_singleton_self row)).mpr (carries_of_depth hdepth)
  cases i with
  | zero =>
      cases hrow'
      exact hid
  | succ i => cases hrow'

end PcapRacer
