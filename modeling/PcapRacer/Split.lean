/-
**Split output.**

In split mode the packet table is cut into a core table and one narrow table per protocol.  A
protocol's table is a projection of the wide batch: the core columns, and the columns whose names
start with one of the protocol's prefixes, for the rows in which at least one of the latter is not
null.

Main definitions:

* `coreColumnNames`, `ProtoTable`, `protoTables` — the core columns, and the protocol tables;
* `columnIndices`, `coreTable`, `protoTable`, `allProtoTables` — cutting a batch;
* `ProtoTable.carries`, `ProtoTable.columns` — the rows and the columns of a protocol, said of the
  packet records.

Main results:

* `protoTable_wideBatch` — **the table of a protocol holds the records that carry it, and its
  columns**;
* `allProtoTables_wideBatch` — and so for all of them.
-/

import PcapRacer.Dissect
import PcapRacer.WideSchema

set_option relaxedAutoImplicit false
set_option autoImplicit false

namespace PcapRacer

open ArrowKernels (isNotNull orMask)

/-! ### The tables -/

/-- The columns copied into every protocol's table. -/
def coreColumnNames : List Text :=
  ["packet_id", "frame_number", "ts", "ts_epoch_ns", "frame_len", "cap_len", "proto_stack",
   "highest_layer", "eth_src", "eth_dst", "ip_version", "ip_src", "ip_dst", "ip_proto",
   "l4_proto", "src_port", "dst_port", "flow_id", "community_id", "direction",
   "payload_len"].map String.toList

/-- A protocol's table: the stem of the output file, and the prefixes of the columns that feed it. -/
structure ProtoTable where
  name : Text
  prefixes : List Text

/-- A table given by literals. -/
def ProtoTable.of (name : String) (prefixes : List String) : ProtoTable :=
  ⟨name.toList, prefixes.map String.toList⟩

def protoTables : List ProtoTable :=
  [ .of "arp" ["arp_"],
    .of "icmp" ["icmp_", "icmp6_"],
    .of "igmp" ["igmp_"],
    .of "dns" ["dns_"],
    .of "http" ["http_", "http2_"],
    .of "tls" ["tls_", "ja3", "ja4"],
    .of "quic" ["quic_"],
    .of "dhcp" ["dhcp_", "dhcp6_"],
    .of "smb" ["smb_", "ntlm_"],
    .of "ssh" ["ssh_", "hassh"],
    .of "ntp" ["ntp_"],
    .of "snmp" ["snmp_"],
    .of "smtp" ["smtp_"],
    .of "ftp" ["ftp_"],
    .of "imap" ["imap_"],
    .of "pop3" ["pop3_"],
    .of "irc" ["irc_"],
    .of "telnet" ["telnet_"],
    .of "tftp" ["tftp_"],
    .of "vnc" ["vnc_"],
    .of "ldap" ["ldap_"],
    .of "kerberos" ["krb_"],
    .of "radius" ["radius_"],
    .of "rdp" ["rdp_"],
    .of "mqtt" ["mqtt_"],
    .of "sip" ["sip_"],
    .of "rtp" ["rtp_", "rtcp_"],
    .of "netbios" ["nbns_", "nbss_"],
    .of "syslog" ["syslog_"],
    .of "wireguard" ["wireguard_"],
    .of "ipsec" ["esp_", "ike_"],
    .of "modbus" ["modbus_"],
    .of "dnp3" ["dnp3_"],
    .of "s7comm" ["s7comm_"],
    .of "enip" ["enip_", "cip_"],
    .of "iec104" ["iec104_"],
    .of "bacnet" ["bacnet_"],
    .of "tunnel" ["tunnel_", "gre_", "vxlan_", "geneve_", "gtp_", "erspan_", "l2tp_", "teredo_"] ]

/-- The column feeds the table. -/
def ProtoTable.takes (t : ProtoTable) (name : Text) : Bool := t.prefixes.any (·.isPrefixOf name)

/-! ### Cutting a batch -/

section Cut

variable (batch : RecordBatch Text Value)

/-- The positions of the core columns, and those of the table's own columns. -/
def columnIndices (t : ProtoTable) : List ℕ × List ℕ :=
  (coreColumnNames.filterMap batch.indexOf, batch.indicesOf t.takes)

variable [ArrowKernels]

/-- The core packet table. -/
def coreTable : Except ArrowError (RecordBatch Text Value) :=
  ArrowKernels.project batch (coreColumnNames.filterMap batch.indexOf)

/-- Join the mask so far with the entries of one more column that are not null. -/
def joinPresent (mask : Option (List Bool)) (i : ℕ) : Except ArrowError (Option (List Bool)) := do
  let present ← isNotNull (← batch.column i)
  match mask with
  | none => return some present
  | some m => return some (← orMask m present)

/-- The rows that a mask selects, in the columns at the given positions. -/
def selectRows (idx : List ℕ) (mask : List Bool) :
    Except ArrowError (Option (RecordBatch Text Value)) := do
  if mask.count true = 0 then return none
  let projected ← ArrowKernels.project batch idx
  let filtered ← ArrowKernels.filter projected mask
  if filtered.numRows = 0 then return none else return some filtered

/-- The rows and columns of one protocol; `none` when no row carries it. -/
def protoTable (t : ProtoTable) : Except ArrowError (Option (RecordBatch Text Value)) := do
  let (core, proto) := columnIndices batch t
  if proto = [] then return none
  match ← proto.foldlM (joinPresent batch) none with
  | none => return none
  | some mask => selectRows batch (core ++ proto) mask

/-- One more table of the list, unless it is empty. -/
def pushTable (out : List (Text × RecordBatch Text Value)) (t : ProtoTable) :
    Except ArrowError (List (Text × RecordBatch Text Value)) := do
  match ← protoTable batch t with
  | none => return out
  | some table => return out ++ [(t.name, table)]

/-- All non-empty protocol tables of a batch, in the order of `protoTables`. -/
def allProtoTables : Except ArrowError (List (Text × RecordBatch Text Value)) :=
  protoTables.foldlM (pushTable batch) []

end Cut

/-! ### The tables as projections -/

/-- The core columns. -/
def coreColumns : List WideColumn :=
  coreColumnNames.filterMap fun name => wideColumns.find? fun c => decide (c.name = name)

namespace ProtoTable

/-- The columns that feed the table. -/
def ownColumns (t : ProtoTable) : List WideColumn := wideColumns.filter fun c => t.takes c.name

/-- All columns of the table. -/
def columns (t : ProtoTable) : List WideColumn := coreColumns ++ t.ownColumns

/-- The packet carries the protocol: one of its columns is not null. -/
def carries (t : ProtoTable) (p : Packet) : Bool := t.ownColumns.any fun c => (c.cell p).isSome

end ProtoTable

variable (packets : List Packet)

/-- Choosing the core columns of a wide batch. -/
theorem mapM_core : (coreColumnNames.filterMap (wideBatch packets).indexOf).mapM
    (fun i => wideColumns[i]?) = some coreColumns :=
  RecordBatch.mapM_indexOf wideColumns packets coreColumnNames

/-- Choosing the columns that feed a table. -/
theorem mapM_own (t : ProtoTable) : ((wideBatch packets).indicesOf t.takes).mapM
    (fun i => wideColumns[i]?) = some t.ownColumns :=
  RecordBatch.mapM_indicesOf wideColumns packets t.takes

section Kernels

variable [ArrowKernels]

/-- **The core table holds the core columns of every record.** -/
theorem coreTable_wideBatch :
    coreTable (wideBatch packets) = .ok (RecordBatch.ofRecords coreColumns packets) :=
  RecordBatch.project_ofRecords wideColumns packets (mapM_core packets)

section Mask

variable {packets}

theorem joinPresent_none {i : ℕ} {c : WideColumn} (h : wideColumns[i]? = some c) :
    joinPresent (wideBatch packets) none i = .ok (some (packets.map fun p => (c.cell p).isSome)) := by
  have hcolumn := RecordBatch.column_ofRecords wideColumns packets h
  unfold joinPresent wideBatch
  rw [bind_of_ok hcolumn, bind_of_ok (RecordBatch.isNotNull_map packets c.cell)]
  rfl

theorem joinPresent_some (q : Packet → Bool) {i : ℕ} {c : WideColumn}
    (h : wideColumns[i]? = some c) :
    joinPresent (wideBatch packets) (some (packets.map q)) i =
      .ok (some (packets.map fun p => q p || (c.cell p).isSome)) := by
  have hcolumn := RecordBatch.column_ofRecords wideColumns packets h
  have hor := RecordBatch.orMask_map packets q fun p => (c.cell p).isSome
  unfold joinPresent wideBatch
  rw [bind_of_ok hcolumn, bind_of_ok (RecordBatch.isNotNull_map packets c.cell)]
  exact bind_of_ok hor _

/-- A mask joined with the entries of some columns. -/
theorem foldlM_joinPresent {idx : List ℕ} {chosen : List WideColumn}
    (h : idx.mapM (fun i => wideColumns[i]?) = some chosen) (q : Packet → Bool) :
    idx.foldlM (joinPresent (wideBatch packets)) (some (packets.map q)) =
      .ok (some (packets.map fun p => q p || chosen.any fun c => (c.cell p).isSome)) := by
  induction idx generalizing chosen q with
  | nil =>
      cases h
      simp [pure, Except.pure]
  | cons i idx ih =>
      rw [List.mapM_cons] at h
      obtain ⟨c, hc, h⟩ := Option.bind_eq_some_iff.mp h
      obtain ⟨cs, hcs, h⟩ := Option.bind_eq_some_iff.mp h
      cases h
      rw [List.foldlM_cons, joinPresent_some q hc]
      refine (ih hcs _).trans ?_
      simp [Bool.or_assoc]

/-- The mask of a protocol that has columns selects the packets that carry it. -/
theorem foldlM_joinPresent_none (t : ProtoTable)
    (h : (wideBatch packets).indicesOf t.takes ≠ []) :
    ((wideBatch packets).indicesOf t.takes).foldlM (joinPresent (wideBatch packets)) none =
      .ok (some (packets.map t.carries)) := by
  have hown := mapM_own packets t
  cases hidx : (wideBatch packets).indicesOf t.takes with
  | nil => exact absurd hidx h
  | cons i idx =>
      rw [hidx, List.mapM_cons] at hown
      obtain ⟨c, hc, hown⟩ := Option.bind_eq_some_iff.mp hown
      obtain ⟨cs, hcs, hown⟩ := Option.bind_eq_some_iff.mp hown
      have hown : c :: cs = t.ownColumns := Option.some.inj hown
      rw [List.foldlM_cons, joinPresent_none hc]
      refine (foldlM_joinPresent hcs _).trans ?_
      simp [ProtoTable.carries, ← hown]

end Mask

/-- The rows that a protocol's table gets from some packets. -/
def ProtoTable.cut (t : ProtoTable) : Option (RecordBatch Text Value) :=
  if packets.filter t.carries = [] then none
  else some (RecordBatch.ofRecords t.columns (packets.filter t.carries))

/-- The packets that carry the protocol are selected, in the columns of its table. -/
theorem selectRows_wideBatch (t : ProtoTable) :
    selectRows (wideBatch packets) (coreColumnNames.filterMap (wideBatch packets).indexOf ++
      (wideBatch packets).indicesOf t.takes) (packets.map t.carries) = .ok (t.cut packets) := by
  have hproject : ArrowKernels.project (wideBatch packets)
      (coreColumnNames.filterMap (wideBatch packets).indexOf ++
        (wideBatch packets).indicesOf t.takes) = .ok (RecordBatch.ofRecords t.columns packets) :=
    RecordBatch.project_ofRecords wideColumns packets
      (RecordBatch.mapM_getElem?_append wideColumns (mapM_core packets) (mapM_own packets t))
  have hfilter := RecordBatch.filter_ofRecords t.columns packets t.carries
  unfold selectRows ProtoTable.cut
  by_cases hnone : packets.filter t.carries = []
  · rw [if_pos hnone, if_pos (by rw [RecordBatch.count_map, hnone]; rfl)]
    rfl
  · have hcount : (packets.map t.carries).count true ≠ 0 := by
      rw [RecordBatch.count_map]
      exact fun h => hnone (List.length_eq_zero_iff.mp h)
    rw [if_neg hnone, if_neg hcount, bind_of_ok hproject, bind_of_ok hfilter]
    exact if_neg fun h => hnone (List.length_eq_zero_iff.mp h)

/-- **The table of a protocol holds the records that carry it, and its columns.** -/
theorem protoTable_wideBatch (t : ProtoTable) :
    protoTable (wideBatch packets) t = .ok (t.cut packets) := by
  unfold protoTable columnIndices
  by_cases hidx : (wideBatch packets).indicesOf t.takes = []
  · -- no column feeds the table, so no packet carries the protocol
    have hown := mapM_own packets t
    rw [hidx] at hown
    have hown : [] = t.ownColumns := Option.some.inj hown
    have hnone : packets.filter t.carries = [] := by
      simp [ProtoTable.carries, ← hown]
    rw [ProtoTable.cut, if_pos hnone]
    exact if_pos hidx
  · refine (if_neg hidx).trans ?_
    rw [bind_of_ok (foldlM_joinPresent_none t hidx)]
    exact selectRows_wideBatch packets t

/-- **All tables of a batch.** -/
theorem allProtoTables_wideBatch :
    allProtoTables (wideBatch packets) =
      .ok (protoTables.filterMap fun t => (t.cut packets).map fun table => (t.name, table)) := by
  have hfold : ∀ (ts : List ProtoTable) (out : List (Text × RecordBatch Text Value)),
      ts.foldlM (pushTable (wideBatch packets)) out =
        .ok (out ++ ts.filterMap fun t => (t.cut packets).map fun table => (t.name, table)) := by
    intro ts
    induction ts with
    | nil => simp [pure, Except.pure]
    | cons t ts ih =>
        intro out
        have hpush : pushTable (wideBatch packets) out t =
            .ok (out ++ ((t.cut packets).map fun table => (t.name, table)).toList) := by
          unfold pushTable
          rw [protoTable_wideBatch]
          cases t.cut packets <;> simp [bind, Except.bind, pure, Except.pure]
        rw [List.foldlM_cons, hpush]
        refine (ih _).trans ?_
        rw [List.filterMap_cons]
        cases t.cut packets <;> simp
  have h := hfold protoTables []
  rw [List.nil_append] at h
  exact h

end Kernels

end PcapRacer
