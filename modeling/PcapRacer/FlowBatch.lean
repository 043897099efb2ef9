/-
**The flow table as a record batch.**

At the end of a run the flows are written as one batch.  The code says what the batch looks like in
three places: the schema lists the names and the types, the builder appends a flow to an array for
each column, and the arrays are handed over in a list, which is checked against the schema by
position.  A column that is out of place would be refused for its type or, worse, go unnoticed under
another name.

Main definitions:

* `DataType`, `flowSchema` — the names and types of the columns;
* `flowArrays` — the arrays of the builder, in the order in which it hands them over;
* `tryNew` — checking arrays against a schema;
* `FlowTable.toRecordBatch` — the batch of the flows of a table;
* `flowFileColumns`, `flowBatch` — the columns by name, and the batch of some flows.

Main results:

* `tryNew_ofRecords` — arrays that are read off records column by column make up their batch;
* `FlowTable.toRecordBatch_eq` — **the flow batch is never refused**, and holds one row for each
  flow;
* `Engine.sorted_ids_of_scan` — **its rows are in the order of the flow ids**, in every run.
-/

import PcapRacer.FlowDuration
import PcapRacer.Network
import PcapRacer.WideSchema

set_option relaxedAutoImplicit false
set_option autoImplicit false

namespace PcapRacer

open BoundedTable (len)

/-! ### Arrays and schemas -/

/-- The types of columns. -/
inductive DataType where
  | uint8
  | uint16
  | uint32
  | uint64
  | float64
  | utf8
  | timestamp
  deriving DecidableEq

/-- Why arrays do not make up a batch of a schema. -/
inductive SchemaMismatch where
  | columnCount
  | columnType
  | columnLength
  deriving DecidableEq

/-- An array: its type and its entries. -/
abbrev ArrayData := DataType × List (Option Value)

/-- The arrays are as the schema says, and of one length. -/
def matchArrays (numRows : ℕ) :
    List (Text × DataType) → List ArrayData → Except SchemaMismatch (List (Text × List (Option Value)))
  | [], [] => .ok []
  | (name, type) :: schema, (type', entries) :: arrays =>
      if type' ≠ type then .error .columnType
      else if entries.length ≠ numRows then .error .columnLength
      else (matchArrays numRows schema arrays).map ((name, entries) :: ·)
  | _, _ => .error .columnCount

theorem height_matchArrays {numRows : ℕ} {schema : List (Text × DataType)} {arrays : List ArrayData}
    {columns : List (Text × List (Option Value))}
    (h : matchArrays numRows schema arrays = .ok columns) :
    ∀ c ∈ columns, c.2.length = numRows := by
  induction schema generalizing arrays columns with
  | nil =>
      cases arrays with
      | nil => cases h; exact fun c hc => absurd hc List.not_mem_nil
      | cons a arrays => cases h
  | cons s schema ih =>
      cases arrays with
      | nil => cases h
      | cons a arrays =>
          rw [matchArrays] at h
          split at h
          · cases h
          · split at h
            · cases h
            · next hlen =>
                cases hrest : matchArrays numRows schema arrays with
                | error e => rw [hrest] at h; cases h
                | ok rest =>
                    rw [hrest] at h
                    cases h
                    intro c hc
                    rcases List.mem_cons.mp hc with rfl | hc
                    · exact not_not.mp hlen
                    · exact ih hrest c hc

/-- Make up a batch of arrays, whose length is that of the first. -/
def tryNew (schema : List (Text × DataType)) (arrays : List ArrayData) :
    Except SchemaMismatch (RecordBatch Text Value) :=
  let numRows := (arrays.head?.map fun a => a.2.length).getD 0
  match h : matchArrays numRows schema arrays with
  | .ok columns => .ok ⟨columns, numRows, height_matchArrays h⟩
  | .error e => .error e

section ofRecords

variable {ρ : Type}

/-- A typed column of a table of records. -/
structure TypedColumn (ρ : Type) where
  name : Text
  type : DataType
  cell : ρ → Option Value

def TypedColumn.column (c : TypedColumn ρ) : Column Text Value ρ := ⟨c.name, c.cell⟩

theorem matchArrays_ofRecords (cols : List (TypedColumn ρ)) (records : List ρ) :
    matchArrays records.length (cols.map fun c => (c.name, c.type))
        (cols.map fun c => (c.type, records.map c.cell)) =
      .ok (cols.map fun c => (c.name, records.map c.cell)) := by
  induction cols with
  | nil => rfl
  | cons c cols ih =>
      rw [List.map_cons, List.map_cons, matchArrays, if_neg (by simp), if_neg (by simp), ih]
      rfl

/-- **Arrays that are read off records column by column make up their batch.** -/
theorem tryNew_ofRecords (cols : List (TypedColumn ρ)) (hcols : cols ≠ []) (records : List ρ) :
    tryNew (cols.map fun c => (c.name, c.type)) (cols.map fun c => (c.type, records.map c.cell)) =
      .ok (RecordBatch.ofRecords (cols.map TypedColumn.column) records) := by
  have hrows : ((cols.map fun c => (c.type, records.map c.cell)).head?.map
      fun a : ArrayData => a.2.length).getD 0 = records.length := by
    obtain ⟨c, cols, rfl⟩ := List.exists_cons_of_ne_nil hcols
    exact List.length_map _
  have hmatch := matchArrays_ofRecords cols records
  unfold tryNew
  dsimp only
  split
  · next columns h =>
      rw [hrows, hmatch] at h
      cases h
      refine congrArg Except.ok (RecordBatch.ext_columns ?_ hrows)
      simp [RecordBatch.ofRecords, TypedColumn.column, Function.comp_def]
  · next e h =>
      rw [hrows, hmatch] at h
      cases h

end ofRecords

/-! ### The flow table -/

def flowSchema : List (Text × DataType) :=
  [ ("flow_id".toList, .uint64), ("community_id".toList, .utf8), ("src_ip".toList, .utf8),
    ("dst_ip".toList, .utf8), ("src_port".toList, .uint16), ("dst_port".toList, .uint16),
    ("proto".toList, .uint8), ("proto_name".toList, .utf8), ("service".toList, .utf8),
    ("first_ts".toList, .timestamp), ("last_ts".toList, .timestamp),
    ("duration_sec".toList, .float64), ("first_frame".toList, .uint64),
    ("last_frame".toList, .uint64), ("packets_c2s".toList, .uint64),
    ("packets_s2c".toList, .uint64), ("packets_total".toList, .uint64),
    ("bytes_c2s".toList, .uint64), ("bytes_s2c".toList, .uint64), ("bytes_total".toList, .uint64),
    ("tcp_flags_c2s".toList, .uint16), ("tcp_flags_s2c".toList, .uint16),
    ("tcp_state".toList, .utf8), ("syn_count".toList, .uint32), ("fin_count".toList, .uint32),
    ("rst_count".toList, .uint32), ("tls_sni".toList, .utf8), ("http_host".toList, .utf8),
    ("dns_qname".toList, .utf8), ("ja3".toList, .utf8), ("ja3s".toList, .utf8),
    ("ja4".toList, .utf8) ]

/-- The arrays of the builder after the flows have been appended, in the order in which it hands
them over. -/
def flowArrays (flows : List Flow) : List ArrayData :=
  [ (.uint64, flows.map fun f => some (.u64 f.id)),
    (.utf8, flows.map fun f => some (.str f.communityId)),
    (.utf8, flows.map fun f => some (.str f.key.srcIp.toText)),
    (.utf8, flows.map fun f => some (.str f.key.dstIp.toText)),
    (.uint16, flows.map fun f => some (.u16 f.key.srcPort)),
    (.uint16, flows.map fun f => some (.u16 f.key.dstPort)),
    (.uint8, flows.map fun f => some (.u8 f.key.proto)),
    (.utf8, flows.map fun f => some (.str (Network.protoName f.key.proto))),
    (.utf8, flows.map fun f => f.service.map .str),
    (.timestamp, flows.map fun f => some (.ts f.firstTs)),
    (.timestamp, flows.map fun f => some (.ts f.lastTs)),
    (.float64, flows.map fun f => some (.f64 f.durationSecs)),
    (.uint64, flows.map fun f => some (.u64 f.firstFrame)),
    (.uint64, flows.map fun f => some (.u64 f.lastFrame)),
    (.uint64, flows.map fun f => some (.u64 f.packetsC2s.toNat)),
    (.uint64, flows.map fun f => some (.u64 f.packetsS2c.toNat)),
    (.uint64, flows.map fun f => some (.u64 (f.packetsC2s + f.packetsS2c).toNat)),
    (.uint64, flows.map fun f => some (.u64 f.bytesC2s.toNat)),
    (.uint64, flows.map fun f => some (.u64 f.bytesS2c.toNat)),
    (.uint64, flows.map fun f => some (.u64 (f.bytesC2s + f.bytesS2c).toNat)),
    (.uint16, flows.map fun f => some (.u16 f.tcpFlagsC2s)),
    (.uint16, flows.map fun f => some (.u16 f.tcpFlagsS2c)),
    (.utf8, flows.map fun f => some (.str f.state.asStr)),
    (.uint32, flows.map fun f => some (.u32 f.synCount)),
    (.uint32, flows.map fun f => some (.u32 f.finCount)),
    (.uint32, flows.map fun f => some (.u32 f.rstCount)),
    (.utf8, flows.map fun f => f.sni.map .str),
    (.utf8, flows.map fun f => f.httpHost.map .str),
    (.utf8, flows.map fun f => f.dnsQname.map .str),
    (.utf8, flows.map fun f => f.ja3.map .str),
    (.utf8, flows.map fun f => f.ja3s.map .str),
    (.utf8, flows.map fun f => f.ja4.map .str) ]

namespace FlowTable

/-- Flows in ascending first-seen order. -/
def sorted (t : FlowTable) : List Flow := sortFlows t.values

def toRecordBatch (t : FlowTable) : Except SchemaMismatch (RecordBatch Text Value) :=
  tryNew flowSchema (flowArrays t.sorted)

end FlowTable

/-! ### The columns by name -/

/-- The columns of the flow file, each with what it should hold. -/
def flowFileColumns : List (TypedColumn Flow) :=
  [ ⟨"flow_id".toList, .uint64, fun f => some (.u64 f.id)⟩,
    ⟨"community_id".toList, .utf8, fun f => some (.str f.communityId)⟩,
    ⟨"src_ip".toList, .utf8, fun f => some (.str f.key.srcIp.toText)⟩,
    ⟨"dst_ip".toList, .utf8, fun f => some (.str f.key.dstIp.toText)⟩,
    ⟨"src_port".toList, .uint16, fun f => some (.u16 f.key.srcPort)⟩,
    ⟨"dst_port".toList, .uint16, fun f => some (.u16 f.key.dstPort)⟩,
    ⟨"proto".toList, .uint8, fun f => some (.u8 f.key.proto)⟩,
    ⟨"proto_name".toList, .utf8, fun f => some (.str (Network.protoName f.key.proto))⟩,
    ⟨"service".toList, .utf8, fun f => f.service.map .str⟩,
    ⟨"first_ts".toList, .timestamp, fun f => some (.ts f.firstTs)⟩,
    ⟨"last_ts".toList, .timestamp, fun f => some (.ts f.lastTs)⟩,
    ⟨"duration_sec".toList, .float64, fun f => some (.f64 f.durationSecs)⟩,
    ⟨"first_frame".toList, .uint64, fun f => some (.u64 f.firstFrame)⟩,
    ⟨"last_frame".toList, .uint64, fun f => some (.u64 f.lastFrame)⟩,
    ⟨"packets_c2s".toList, .uint64, fun f => some (.u64 f.packetsC2s.toNat)⟩,
    ⟨"packets_s2c".toList, .uint64, fun f => some (.u64 f.packetsS2c.toNat)⟩,
    ⟨"packets_total".toList, .uint64, fun f => some (.u64 (f.packetsC2s + f.packetsS2c).toNat)⟩,
    ⟨"bytes_c2s".toList, .uint64, fun f => some (.u64 f.bytesC2s.toNat)⟩,
    ⟨"bytes_s2c".toList, .uint64, fun f => some (.u64 f.bytesS2c.toNat)⟩,
    ⟨"bytes_total".toList, .uint64, fun f => some (.u64 (f.bytesC2s + f.bytesS2c).toNat)⟩,
    ⟨"tcp_flags_c2s".toList, .uint16, fun f => some (.u16 f.tcpFlagsC2s)⟩,
    ⟨"tcp_flags_s2c".toList, .uint16, fun f => some (.u16 f.tcpFlagsS2c)⟩,
    ⟨"tcp_state".toList, .utf8, fun f => some (.str f.state.asStr)⟩,
    ⟨"syn_count".toList, .uint32, fun f => some (.u32 f.synCount)⟩,
    ⟨"fin_count".toList, .uint32, fun f => some (.u32 f.finCount)⟩,
    ⟨"rst_count".toList, .uint32, fun f => some (.u32 f.rstCount)⟩,
    ⟨"tls_sni".toList, .utf8, fun f => f.sni.map .str⟩,
    ⟨"http_host".toList, .utf8, fun f => f.httpHost.map .str⟩,
    ⟨"dns_qname".toList, .utf8, fun f => f.dnsQname.map .str⟩,
    ⟨"ja3".toList, .utf8, fun f => f.ja3.map .str⟩,
    ⟨"ja3s".toList, .utf8, fun f => f.ja3s.map .str⟩,
    ⟨"ja4".toList, .utf8, fun f => f.ja4.map .str⟩ ]

/-- The batch of some flows. -/
def flowBatch (flows : List Flow) : RecordBatch Text Value :=
  RecordBatch.ofRecords (flowFileColumns.map TypedColumn.column) flows

namespace FlowTable

/-- **The flow batch is never refused**: every array stands under the name and the type that are
meant for it, and there is a row for each flow. -/
theorem toRecordBatch_eq (t : FlowTable) : t.toRecordBatch = .ok (flowBatch t.sorted) :=
  tryNew_ofRecords flowFileColumns (List.cons_ne_nil _ _) t.sorted

theorem sorted_perm (t : FlowTable) : t.sorted.Perm t.values := List.perm_insertionSort _ _

end FlowTable

/-! ### The flows of a run -/

namespace Engine

variable [Hashes]

/-- A call carries the frame number of the record that it is made for. -/
theorem frame_of_flowCall {e : Engine} {o : Owned} {d : Dissected} {obs : Observation}
    (h : e.flowCall o d = some obs) : obs.frame = e.nextPacketId + 1 := by
  unfold flowCall at h
  split at h
  · cases h
  · obtain ⟨t, -, hcall⟩ := Option.bind_eq_some_iff.mp h
    split at hcall
    · cases hcall
    · cases hcall
      rfl

theorem frame_of_mem_flowCalls {defer : Bool} {e : Engine} {os : List Owned} {obs : Observation}
    (h : obs ∈ flowCalls defer e os) : e.nextPacketId < obs.frame := by
  induction os generalizing e with
  | nil => simp [flowCalls] at h
  | cons o os ih =>
      rcases List.mem_append.mp h with h | h
      · rw [frame_of_flowCall (Option.mem_toList.mp h)]
        exact Nat.lt_succ_self _
      · split at h
        · simp at h
        · next e' row hstep =>
            have hnext := (absorbOne_numbered hstep).2.1
            have := ih h
            omega

/-- **The frame numbers of the packets that a run folds into its flows increase.** -/
theorem pairwise_flowCalls (defer : Bool) (e : Engine) (os : List Owned) :
    (flowCalls defer e os).Pairwise fun obs obs' => obs.frame < obs'.frame := by
  induction os generalizing e with
  | nil => exact List.Pairwise.nil
  | cons o os ih =>
      rw [flowCalls]
      cases hstep : step defer e o with
      | error p =>
          rw [List.append_nil]
          cases e.flowCall o (dissectOne o defer) <;> simp
      | ok r =>
          have hnext : r.1.nextPacketId = e.nextPacketId + 1 := (absorbOne_numbered hstep).2.1
          refine List.pairwise_append.mpr ⟨?_, ih r.1, fun obs hobs obs' hobs' => ?_⟩
          · cases e.flowCall o (dissectOne o defer) <;> simp
          · have hfirst := frame_of_flowCall (Option.mem_toList.mp hobs)
            have hlater := frame_of_mem_flowCalls hobs'
            omega

/-- **The rows of the flow batch of a run are in the order of the flow ids**, which are the numbers
from one on. -/
theorem sorted_ids_of_scan {cfg : Config} {e : Engine} {os : List Owned} {rows : List Packet}
    (h : ChunkedRun.scan (step cfg.reassemble) (new cfg) os = .ok (e, rows)) :
    e.flows.sorted.map Flow.id = List.range' 1 (len e.flows.flows) := by
  have hflows : e.flows = (FlowTable.new cfg.maxFlows).run (flowCalls cfg.reassemble (new cfg) os) :=
    flows_of_scan h
  have hgood := FlowTable.good_run cfg.maxFlows (flowCalls cfg.reassemble (new cfg) os)
  have horder := FlowTable.inOrder_run cfg.maxFlows _ (pairwise_flowCalls cfg.reassemble (new cfg) os)
  rw [hflows]
  exact FlowTable.sortFlows_ids hgood horder (List.Perm.refl _)

end Engine

end PcapRacer
