/-
**Addresses as text.**

Addresses are written to the output as text only, so two rows are told apart by their addresses just
as far as the text tells them apart.  The text of an IPv6 address leaves out a run of zero groups; what
is left on both sides of it gives the address back, because the address has eight groups and the
run has only zeros.  An IPv4-mapped address is told from all others by its dots.

Main definitions:

* `IpAddr.compress` — groups as text, with the longest run of zeros left out;
* `conversationNames`, `exchangedNames` — the columns of a flow that name its conversation.

Main results:

* `IpAddr.toText_inj` — **the text of an address determines the address**, its family included;
* `flow_rows_distinct` — **no two rows of the flow file of a run are about one conversation**.
-/

import Mathlib.Data.List.TakeWhile
import PcapRacer.CommunityIds
import PcapRacer.JoinedText
import PcapRacer.OutputFiles
import PcapRacer.SplitJoin

set_option relaxedAutoImplicit false
set_option autoImplicit false

namespace PcapRacer

open ChunkedRun (scan)

namespace IpAddr

open Text (IsPart gapped)

/-- Sixteen-bit groups as text. -/
def hexGroups (groups : List ℕ) : List Text := groups.map fun n => Nat.toDigits 16 n

/-- Groups as text, with the longest run of zeros left out. -/
def compress (segs : List ℕ) : Text :=
  let run := longestZeroRun segs
  if 1 < run.2 then gapped ':' (hexGroups (segs.take run.1)) (hexGroups (segs.drop (run.1 + run.2)))
  else Text.join [':'] (hexGroups segs)

theorem textV6_eq (a : BitVec 128) :
    textV6 a =
      if a.toNat / 2 ^ 32 = 0xffff then
        "::ffff:".toList ++ textV4 (UInt32.ofNat (a.toNat % 2 ^ 32))
      else compress (segments a) := rfl

/-- A character that is no digit is in no number. -/
theorem not_mem_toDigits {b n : ℕ} (hb : 1 < b) {c : Char} (hc : ∀ k < b, c ≠ Nat.digitChar k) :
    c ∉ Nat.toDigits b n := fun h => by
  obtain ⟨k, hk, heq⟩ := Nat.exists_of_mem_toDigits hb h
  exact hc k hk heq

theorem isPart_hexGroups {groups : List ℕ} : ∀ p ∈ hexGroups groups, IsPart ':' p := by
  intro p hp
  obtain ⟨n, -, rfl⟩ := List.mem_map.mp hp
  exact ⟨not_mem_toDigits (by decide) (by decide), Nat.toDigits_ne_nil⟩

theorem hexGroups_inj {groups groups' : List ℕ} (h : hexGroups groups = hexGroups groups') :
    groups = groups' :=
  List.map_injective_iff.mpr (fun _ _ => Nat.toDigits_inj (by decide) (by decide)) h

/-- What is left out is a run of zeros. -/
theorem longestZeroRun_spec (segs : List ℕ) :
    segs = segs.take (longestZeroRun segs).1 ++ (List.replicate (longestZeroRun segs).2 0 ++
      segs.drop ((longestZeroRun segs).1 + (longestZeroRun segs).2)) := by
  -- the best run so far is a run of zeros
  have hfold : ∀ (l : List ℕ) (best : ℕ × ℕ),
      (segs.drop best.1).take best.2 = List.replicate best.2 0 →
      let run := l.foldl (fun best i =>
        let run := ((segs.drop i).takeWhile (· == 0)).length
        if best.2 < run then (i, run) else best) best
      (segs.drop run.1).take run.2 = List.replicate run.2 0 := by
    intro l
    induction l with
    | nil => exact fun best h => h
    | cons i l ih =>
        intro best h
        refine ih _ ?_
        dsimp only
        split
        · refine (List.prefix_iff_eq_take.mp (List.takeWhile_prefix _)).symm.trans ?_
          exact List.eq_replicate_of_mem fun n hn => by simpa using List.mem_takeWhile_imp hn
        · exact h
  have hrun : (segs.drop (longestZeroRun segs).1).take (longestZeroRun segs).2 =
      List.replicate (longestZeroRun segs).2 0 := hfold (List.range segs.length) (0, 0) (by simp)
  rw [← hrun, ← List.drop_drop, List.take_append_drop, List.take_append_drop]

/-- **Compressed groups are given back**, where their number is known. -/
theorem compress_inj {segs segs' : List ℕ} (hlen : segs.length = segs'.length) (hne : segs ≠ [])
    (h : compress segs = compress segs') : segs = segs' := by
  have hne' : segs' ≠ [] := fun hnil => hne (List.length_eq_zero_iff.mp (by rw [hlen, hnil]; rfl))
  have hgroups : ∀ {l : List ℕ}, l ≠ [] → hexGroups l ≠ [] := fun hl => by simpa [hexGroups] using hl
  unfold compress at h
  dsimp only at h
  split at h
  · split at h
    · obtain ⟨hbefore, hafter⟩ :=
        Text.gapped_inj isPart_hexGroups isPart_hexGroups isPart_hexGroups isPart_hexGroups h
      have hbefore := hexGroups_inj hbefore
      have hafter := hexGroups_inj hafter
      have hsegs := longestZeroRun_spec segs
      have hsegs' := longestZeroRun_spec segs'
      -- the run left out is as long as it takes to make up the number of groups
      have hruns : (longestZeroRun segs).2 = (longestZeroRun segs').2 := by
        have hl := congrArg List.length hsegs
        have hl' := congrArg List.length hsegs'
        rw [hbefore, hafter] at hl
        simp only [List.length_append, List.length_replicate] at hl hl'
        omega
      rw [hsegs, hsegs', hbefore, hafter, hruns]
    · exact absurd h.symm (Text.join_ne_gapped (hgroups hne') isPart_hexGroups isPart_hexGroups
        isPart_hexGroups)
  · split at h
    · exact absurd h (Text.join_ne_gapped (hgroups hne) isPart_hexGroups isPart_hexGroups
        isPart_hexGroups)
    · exact hexGroups_inj (Text.join_inj (hgroups hne) (hgroups hne')
        (fun p hp => (isPart_hexGroups p hp).1) (fun p hp => (isPart_hexGroups p hp).1) h)

theorem segments_inj {a b : BitVec 128} (h : segments a = segments b) : a = b := by
  refine BitVec.eq_of_toNat_eq (Nat.eq_of_digits (B := 65536) (k := 8) a.isLt b.isLt fun j hj => ?_)
  have hi := List.map_inj_left.mp h (7 - j) (List.mem_range.mpr (by omega))
  rwa [show 7 - (7 - j) = j by omega] at hi

theorem isPart_decimals {octets : Bytes} :
    ∀ p ∈ octets.map fun x => Text.decimal x.toNat, IsPart '.' p := by
  intro p hp
  obtain ⟨x, -, rfl⟩ := List.mem_map.mp hp
  exact ⟨not_mem_toDigits (by decide) (by decide), Nat.toDigits_ne_nil⟩

theorem textV4_inj {a b : UInt32} (h : textV4 a = textV4 b) : a = b := by
  have hne : ∀ c : UInt32, ((v4 c).octets.map fun x => Text.decimal x.toNat) ≠ [] := fun c => by
    simp [octets]
  have hparts := Text.join_inj (hne a) (hne b) (fun p hp => (isPart_decimals p hp).1)
    (fun p hp => (isPart_decimals p hp).1) h
  have hoctets : (v4 a).octets = (v4 b).octets :=
    List.map_injective_iff.mpr (fun x y hxy =>
      UInt8.toNat_inj.mp (Nat.toDigits_inj (by decide) (by decide) hxy)) hparts
  exact v4.inj (eq_of_octets_eq rfl hoctets)

/-- The dots of an IPv4 address. -/
theorem dot_mem_textV4 (a : UInt32) : '.' ∈ textV4 a := by
  simp [textV4, octets, List.range_succ, Text.join, List.intercalate_cons_cons]

/-- An IPv4 address has no colon. -/
theorem colon_not_mem_textV4 (a : UInt32) : ':' ∉ textV4 a := by
  intro h
  have hcolon : ∀ n, ':' ∉ Text.decimal n := fun n => not_mem_toDigits (by decide) (by decide)
  simp [textV4, octets, List.range_succ, Text.join, List.intercalate_cons_cons, hcolon] at h

theorem dot_not_mem_join (groups : List ℕ) : '.' ∉ Text.join [':'] (hexGroups groups) := by
  intro h
  induction groups with
  | nil => simp [hexGroups, Text.join] at h
  | cons n groups ih =>
      have hdot : '.' ∉ Nat.toDigits 16 n := not_mem_toDigits (by decide) (by decide)
      by_cases hg : groups = []
      · subst hg
        exact hdot (by simpa [hexGroups, Text.join] using h)
      · have hne : hexGroups groups ≠ [] := by simpa [hexGroups] using hg
        unfold Text.join at h ih
        rw [show hexGroups (n :: groups) = Nat.toDigits 16 n :: hexGroups groups from rfl,
          List.intercalate_cons_of_ne_nil hne] at h
        simp only [List.mem_append, List.mem_singleton] at h
        rcases h with (h | h) | h
        · exact hdot h
        · exact absurd h (by decide)
        · exact ih h

/-- An address that is not IPv4-mapped has no dot. -/
theorem dot_not_mem_compress (segs : List ℕ) : '.' ∉ compress segs := by
  unfold compress
  dsimp only
  split
  · simp only [gapped, List.mem_append, not_or]
    exact ⟨⟨dot_not_mem_join _, by decide⟩, dot_not_mem_join _⟩
  · exact dot_not_mem_join _

/-- A colon is in every IPv6 address. -/
theorem colon_mem_textV6 (a : BitVec 128) : ':' ∈ textV6 a := by
  rw [textV6_eq]
  split
  · simp
  · unfold compress
    dsimp only
    split
    · simp [gapped]
    · simp [segments, hexGroups, List.range_succ, Text.join, List.intercalate_cons_cons]

theorem textV6_inj {a b : BitVec 128} (h : textV6 a = textV6 b) : a = b := by
  rw [textV6_eq, textV6_eq] at h
  split at h
  · next hmapped =>
      split at h
      · next hmapped' =>
          have hlow := congrArg UInt32.toNat (textV4_inj (List.append_cancel_left h))
          simp only [UInt32.toNat_ofNat'] at hlow
          refine BitVec.eq_of_toNat_eq ?_
          omega
      · exact absurd (h ▸ List.mem_append_right _ (dot_mem_textV4 _)) (dot_not_mem_compress _)
  · split at h
    · exact absurd (h ▸ List.mem_append_right _ (dot_mem_textV4 _)) (dot_not_mem_compress _)
    · exact segments_inj (compress_inj (by simp [segments]) (by simp [segments]) h)

/-- **The text of an address determines the address**, its family included. -/
theorem toText_inj {a b : IpAddr} (h : a.toText = b.toText) : a = b := by
  cases a with
  | v4 a =>
      cases b with
      | v4 b => exact congrArg v4 (textV4_inj h)
      | v6 b =>
          have h : textV4 a = textV6 b := h
          exact absurd (h ▸ colon_mem_textV6 b) (colon_not_mem_textV4 a)
  | v6 a =>
      cases b with
      | v4 b =>
          have h : textV6 a = textV4 b := h
          exact absurd (h ▸ colon_mem_textV6 a) (colon_not_mem_textV4 b)
      | v6 b => exact congrArg v6 (textV6_inj h)

end IpAddr

/-! ### The rows of the flow file -/

namespace FlowTable

/-- The keys of the flows are the keys of the table. -/
theorem map_key_values {obs adm : List Observation} {t : FlowTable} (h : Good obs adm t) :
    t.values.map Flow.key = t.flows.keys := by
  have hkey : ∀ s ∈ t.flows.entries, s.2.key = s.1 := fun s hs =>
    (h.keys s.1 s.2 (AList.mem_lookup_iff.mpr hs)).2
  rw [values, BoundedTable.values, List.map_map]
  exact List.map_congr_left fun s hs => hkey s hs

/-- Different flows of a table have different keys, and a key is in normal form. -/
theorem sorted_keys {obs adm : List Observation} {t : FlowTable} (h : Good obs adm t) :
    (t.sorted.map Flow.key).Nodup ∧ ∀ f ∈ t.sorted, f.key.Forward := by
  constructor
  · rw [(t.sorted_perm.map Flow.key).nodup_iff, map_key_values h]
    exact t.flows.nodupKeys
  · intro f hf
    obtain ⟨k, hk⟩ := BoundedTable.mem_values_iff.mp (t.sorted_perm.mem_iff.mp hf)
    obtain ⟨hnormal, rfl⟩ := h.keys k f hk
    rw [← hnormal]
    exact Tuple.forward_key _

end FlowTable

/-- The columns of the flow file that name the conversation. -/
def conversationNames : List Text :=
  ["src_ip", "dst_ip", "src_port", "dst_port", "proto"].map String.toList

/-- The same, seen from the other side. -/
def exchangedNames : List Text :=
  ["dst_ip", "src_ip", "dst_port", "src_port", "proto"].map String.toList

/-- What a flow has in these columns. -/
theorem read_conversation (f : Flow) :
    let columns := flowFileColumns.map TypedColumn.column
    conversationNames.map (fun name => Column.read columns name f) =
        [some (.str f.key.srcIp.toText), some (.str f.key.dstIp.toText), some (.u16 f.key.srcPort),
          some (.u16 f.key.dstPort), some (.u8 f.key.proto)] ∧
      exchangedNames.map (fun name => Column.read columns name f) =
        [some (.str f.key.dstIp.toText), some (.str f.key.srcIp.toText), some (.u16 f.key.dstPort),
          some (.u16 f.key.srcPort), some (.u8 f.key.proto)] := ⟨rfl, rfl⟩

/-- Flows that agree in these columns have one key. -/
theorem key_eq_of_read {f g : Flow}
    (h : conversationNames.map (fun name =>
        Column.read (flowFileColumns.map TypedColumn.column) name f) =
      conversationNames.map fun name =>
        Column.read (flowFileColumns.map TypedColumn.column) name g) : f.key = g.key := by
  rw [(read_conversation f).1, (read_conversation g).1] at h
  simp only [List.cons.injEq, Option.some.injEq, Value.str.injEq, Value.u16.injEq,
    Value.u8.injEq] at h
  obtain ⟨hsrc, hdst, hsport, hdport, hproto, -⟩ := h
  cases hf : f.key
  cases hg : g.key
  simp only [hf, hg] at hsrc hdst hsport hdport hproto
  rw [IpAddr.toText_inj hsrc, IpAddr.toText_inj hdst, hsport, hdport, hproto]

/-- Flows that agree with the sides exchanged have keys that are the reverse of each other. -/
theorem key_eq_reverse_of_read {f g : Flow}
    (h : conversationNames.map (fun name =>
        Column.read (flowFileColumns.map TypedColumn.column) name f) =
      exchangedNames.map fun name =>
        Column.read (flowFileColumns.map TypedColumn.column) name g) : f.key = g.key.reverse := by
  rw [(read_conversation f).1, (read_conversation g).2] at h
  simp only [List.cons.injEq, Option.some.injEq, Value.str.injEq, Value.u16.injEq,
    Value.u8.injEq] at h
  obtain ⟨hsrc, hdst, hsport, hdport, hproto, -⟩ := h
  cases hf : f.key
  cases hg : g.key
  simp only [hf, hg] at hsrc hdst hsport hdport hproto
  rw [Tuple.reverse, IpAddr.toText_inj hsrc, IpAddr.toText_inj hdst, hsport, hdport, hproto]

/-- A row of the flow batch, by name, is what its flow has there. -/
theorem entry_of_getElem? {flows : List Flow} {i : ℕ} {row : List (Option Value)}
    (h : (flowBatch flows).rows[i]? = some row) :
    ∃ f, flows[i]? = some f ∧ ∀ name,
      Table.entry ((flowBatch flows).schema, (flowBatch flows).rows) row name =
        Column.read (flowFileColumns.map TypedColumn.column) name f := by
  unfold flowBatch at h ⊢
  rw [RecordBatch.rows_ofRecords, List.getElem?_map] at h
  obtain ⟨f, hf, rfl⟩ := Option.map_eq_some_iff.mp h
  refine ⟨f, hf, fun name => ?_⟩
  rw [Table.entry, RecordBatch.schema_ofRecords]
  exact Column.entry_map _ name f

section Main

variable [Hashes] [ArrowKernels] {ε : Type} {vol : Volume ε} {mode : Mode} {pool : ThreadPool}
  {cfg : Config} {records : List RawPacket} {badBlocks : ℕ} {out : Output}

/-- The flow file of a run holds flows with different keys, which are in normal form. -/
theorem exists_flows_of_toParquetFiles
    (h : toParquetFiles vol mode pool cfg records badBlocks = .ok out) :
    ∃ flows : List Flow, out.flows.table = ((flowBatch flows).schema, (flowBatch flows).rows) ∧
      (flows.map Flow.key).Nodup ∧ ∀ f ∈ flows, f.key.Forward := by
  obtain ⟨left, hleft, -, -, -, hflows, -⟩ := toParquet_of_toParquetFiles h
  have hend := finished_of_toParquet hleft
  obtain ⟨e, hscan, -, hleftFlows⟩ := scan_of_finished hend
  have hrun : left.flows = (FlowTable.new cfg.maxFlows).run (Engine.flowCalls cfg.reassemble
      (Engine.new cfg) (records.map RawPacket.own)) := hleftFlows.trans (Engine.flows_of_scan hscan)
  have hgood := FlowTable.good_run cfg.maxFlows
    (Engine.flowCalls cfg.reassemble (Engine.new cfg) (records.map RawPacket.own))
  rw [← hrun] at hgood
  exact ⟨left.flows.sorted, hflows, FlowTable.sorted_keys hgood⟩

/-- **No two rows of the flow file are about one conversation.**  In the flow file of every completed
run, any two rows differ in the addresses, the ports or the protocol, as these are written, and they
still do when the two sides of one of them are exchanged. -/
theorem flow_rows_distinct (h : toParquetFiles vol mode pool cfg records badBlocks = .ok out)
    {i j : ℕ} {row row' : List (Option Value)} (hi : out.flows.contents[i]? = some row)
    (hj : out.flows.contents[j]? = some row') (hne : i ≠ j) :
    conversationNames.map (out.flows.table.entry row) ≠
        conversationNames.map (out.flows.table.entry row') ∧
      conversationNames.map (out.flows.table.entry row) ≠
        exchangedNames.map (out.flows.table.entry row') := by
  obtain ⟨flows, htable, hkeys, hforward⟩ := exists_flows_of_toParquetFiles h
  have hcontents : out.flows.contents = (flowBatch flows).rows := congrArg Prod.snd htable
  rw [hcontents] at hi hj
  obtain ⟨f, hf, hread⟩ := entry_of_getElem? hi
  obtain ⟨g, hg, hread'⟩ := entry_of_getElem? hj
  -- equal keys would make the rows one row
  have hkey : f.key ≠ g.key := by
    intro heq
    have hfi : (flows.map Flow.key)[i]? = some f.key := by rw [List.getElem?_map, hf]; rfl
    have hgj : (flows.map Flow.key)[j]? = some g.key := by rw [List.getElem?_map, hg]; rfl
    obtain ⟨hlt, -⟩ := List.getElem?_eq_some_iff.mp hfi
    exact hne ((List.getElem?_inj hlt hkeys).mp (hfi.trans (heq ▸ hgj.symm)))
  rw [htable, funext hread, funext hread']
  refine ⟨fun heq => hkey (key_eq_of_read heq), fun heq => hkey ?_⟩
  · have hreverse : f.key = g.key.reverse := key_eq_reverse_of_read heq
    have hforwardRev : g.key.reverse.Forward := hreverse ▸ hforward f (List.mem_of_getElem? hf)
    rw [hreverse, Tuple.eq_reverse_of_forward (hforward g (List.mem_of_getElem? hg)) hforwardRev]

end Main

/-- Two packets of two conversations. -/
theorem flow_rows_distinct_bare :
    (bareAt 3 0).data ≠ (elsewhereAt 7 1).data ∧
    ∀ (_ : Hashes) (pool : ThreadPool), ∃ out row row',
    toParquetFiles (Volume.free : Volume Unit) .wide pool { batchSize := 1 }
        [bareAt 3 0, elsewhereAt 7 1] 0 = .ok out ∧
      out.flows.contents[0]? = some row ∧ out.flows.contents[1]? = some row' ∧
      conversationNames.map (out.flows.table.entry row) ≠
        conversationNames.map (out.flows.table.entry row') := by
  refine ⟨by decide, fun _ pool => ?_⟩
  obtain ⟨e, rows, hscan, htwo⟩ : ∃ e rows,
      scan (Engine.step ({} : Config).reassemble) (Engine.new {})
        ([bareAt 3 0, elsewhereAt 7 1].map RawPacket.own) = .ok (e, rows) ∧
      e.flows.sorted.length = 2 := ⟨_, _, rfl, rfl⟩
  obtain ⟨out, hout⟩ :=
    exists_toParquetFiles_free (ε := Unit) hscan .wide pool (Nat.le_refl 1) (by decide) 0
  obtain ⟨left, hleft, -, -, -, hflows, -⟩ := toParquet_of_toParquetFiles hout
  have hend := finished_of_toParquet hleft
  obtain ⟨e', hscan', -, hleftFlows⟩ := scan_of_finished hend
  have hlen : out.flows.contents.length = 2 := by
    rw [show out.flows.contents = (flowBatch left.flows.sorted).rows from congrArg Prod.snd hflows,
      length_rows, hleftFlows, ← (Prod.mk.inj (Except.ok.inj (hscan.symm.trans hscan'))).1]
    exact htwo
  have h0 := List.getElem?_eq_getElem (show 0 < out.flows.contents.length by omega)
  have h1 := List.getElem?_eq_getElem (show 1 < out.flows.contents.length by omega)
  exact ⟨out, _, _, hout, h0, h1, (flow_rows_distinct hout h0 h1 (by decide)).1⟩

end PcapRacer
