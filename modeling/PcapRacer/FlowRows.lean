/-
**The flow table summarises the packet table.**

A run writes a row for every packet and, at the end, a row for every flow.  The flows are aggregated
while packets are absorbed, each from the packet at hand.  Read as tables the two are related as in
any data base: the flow id of a packet is a reference to a flow, and a flow is what grouping the
packets by their flow id gives.  Nothing in the code groups anything; that the incremental
aggregation computes the grouping is what is proved here, for every run and also when the table is
at capacity.

Main definitions:

* `Flow.Summarises` — a flow is the aggregate of some rows;
* `ownRows` — the rows that refer to a flow;
* `FlowTable.Groups` — the table is the packet rows grouped by flow id.

Main results:

* `Flow.Summarises.see` — one more row;
* `FlowTable.Groups.step` — a call of `observe` keeps the table a grouping of the rows;
* `Engine.call_of_absorbOne` — the call that absorbing a packet makes, and the row it writes;
* `run_flows_group_rows` — **the flow table of a run is its packet rows, grouped**.
-/

import PcapRacer.FlowMerge
import PcapRacer.RunTotals

set_option relaxedAutoImplicit false
set_option autoImplicit false

namespace PcapRacer

open ChunkedRun (scan)

open BoundedTable (Refuses)

/-! ### Rows -/

namespace Packet

/-- The row goes in that direction. -/
def goes (row : Packet) (forward : Bool) : Bool :=
  decide (row.flow.direction = some (directionName forward))

/-- The length on the wire. -/
def wireLen (row : Packet) : ℕ := (row.frame.frameLen.getD 0).toNat

/-- The TCP flags; none without TCP. -/
def tcpFlags (row : Packet) : UInt16 := row.transport.tcpFlags.getD 0

end Packet

theorem directionName_inj {b b' : Bool} : directionName b = directionName b' ↔ b = b' := by
  cases b <;> cases b' <;> decide

/-- The row of a packet that was folded into a flow by the call. -/
structure Observation.Shows (o : Observation) (row : Packet) : Prop where
  ts : row.frame.ts = some o.ts
  frame : row.frame.frameNumber = some o.frame
  wireLen : UInt64.ofNat row.wireLen = o.len
  transport : row.transport = o.pkt.transport
  app : row.app = o.pkt.app
  layer : row.frame.highestLayer = o.pkt.frame.highestLayer
  direction : row.flow.direction = some (directionName o.forward)

theorem Observation.Shows.goes {o : Observation} {row : Packet} (h : o.Shows row) (b : Bool) :
    row.goes b = decide (o.forward = b) := by
  simp only [Packet.goes, h.direction, Option.some_inj, directionName_inj]

theorem Observation.Shows.tcpFlags {o : Observation} {row : Packet} (h : o.Shows row) :
    row.tcpFlags = o.flags := by
  unfold Packet.tcpFlags
  rw [h.transport]
  rfl

/-! ### Flows as aggregates -/

/-- The service that some layers show: the first that is more than the transport, or else the
last. -/
def serviceOf (layers : List Text) : Option Text :=
  (layers.find? fun l => ¬ Flow.Vague (some l)).or layers.getLast?

/-- The flow counts these rows, and has its flags and names from them. -/
structure Flow.Counts (f : Flow) (rows : List Packet) : Prop where
  packetsC2s : f.packetsC2s = UInt64.ofNat (rows.countP (·.goes true))
  packetsS2c : f.packetsS2c = UInt64.ofNat (rows.countP (·.goes false))
  bytesC2s : f.bytesC2s = UInt64.ofNat ((rows.filter (·.goes true)).map (·.wireLen)).sum
  bytesS2c : f.bytesS2c = UInt64.ofNat ((rows.filter (·.goes false)).map (·.wireLen)).sum
  tcpFlagsC2s : f.tcpFlagsC2s = ((rows.filter (·.goes true)).map (·.tcpFlags)).foldl (· ||| ·) 0
  tcpFlagsS2c : f.tcpFlagsS2c = ((rows.filter (·.goes false)).map (·.tcpFlags)).foldl (· ||| ·) 0
  synCount : f.synCount = UInt32.ofNat (rows.countP fun row => hasFlag row.tcpFlags tcpSyn)
  finCount : f.finCount = UInt32.ofNat (rows.countP fun row => hasFlag row.tcpFlags tcpFin)
  rstCount : f.rstCount = UInt32.ofNat (rows.countP fun row => hasFlag row.tcpFlags tcpRst)
  finC2s : f.finC2s = rows.any fun row => row.goes true && hasFlag row.tcpFlags tcpFin
  finS2c : f.finS2c = rows.any fun row => row.goes false && hasFlag row.tcpFlags tcpFin
  synC2s : f.synC2s = rows.any fun row =>
    row.goes true && (hasFlag row.tcpFlags tcpSyn && !hasFlag row.tcpFlags tcpAck)
  synackS2c : f.synackS2c = rows.any fun row =>
    row.goes false && (hasFlag row.tcpFlags tcpSyn && hasFlag row.tcpFlags tcpAck)
  sawReset : f.sawReset = rows.any fun row => hasFlag row.tcpFlags tcpRst
  sni : f.sni = rows.findSome? (·.app.tls.tlsSni)
  httpHost : f.httpHost = rows.findSome? (·.app.http.httpHost)
  dnsQname : f.dnsQname = rows.findSome? (·.app.dns.dnsQname)
  ja3 : f.ja3 = rows.findSome? (·.app.tls.ja3)
  ja3s : f.ja3s = rows.findSome? (·.app.tls.ja3s)
  ja4 : f.ja4 = rows.findSome? (·.app.tls.ja4)
  service : f.service = serviceOf (rows.filterMap (·.frame.highestLayer))

/-- The flow is the aggregate of these rows. -/
structure Flow.Summarises (f : Flow) (rows : List Packet) : Prop extends f.Counts rows where
  firstTs : IsLeast {t | ∃ row ∈ rows, row.frame.ts = some t} f.firstTs
  lastTs : IsGreatest {t | ∃ row ∈ rows, row.frame.ts = some t} f.lastTs
  firstFrame : IsLeast {n | ∃ row ∈ rows, row.frame.frameNumber = some n} f.firstFrame
  lastFrame : IsGreatest {n | ∃ row ∈ rows, row.frame.frameNumber = some n} f.lastFrame

namespace Flow

/-! ### One more row -/

section OneMore

variable {α : Type} {rows : List Packet} {row : Packet}

theorem isLeast_concat [LinearOrder α] {column : Packet → Option α} {a x : α}
    (h : IsLeast {t | ∃ row ∈ rows, column row = some t} a) (hrow : column row = some x) :
    IsLeast {t | ∃ r ∈ rows ++ [row], column r = some t} (min a x) := by
  obtain ⟨⟨r, hr, ha⟩, hle⟩ := h
  constructor
  · rcases min_choice a x with hmin | hmin <;> rw [hmin]
    · exact ⟨r, List.mem_append_left _ hr, ha⟩
    · exact ⟨row, by simp, hrow⟩
  · rintro t ⟨r', hr', ht⟩
    rcases List.mem_append.mp hr' with hr' | hr'
    · exact (min_le_left _ _).trans (hle ⟨r', hr', ht⟩)
    · rw [List.mem_singleton.mp hr', hrow] at ht
      exact (min_le_right _ _).trans (Option.some.inj ht).le

theorem isGreatest_concat [LinearOrder α] {column : Packet → Option α} {a x : α}
    (h : IsGreatest {t | ∃ row ∈ rows, column row = some t} a) (hrow : column row = some x) :
    IsGreatest {t | ∃ r ∈ rows ++ [row], column r = some t} (max a x) :=
  isLeast_concat (α := αᵒᵈ) h hrow

theorem countP_goes_concat {o : Observation} (h : o.Shows row) (b : Bool) {n : UInt64}
    (hn : n = UInt64.ofNat (rows.countP (·.goes b))) :
    n + (if o.forward = b then 1 else 0) = UInt64.ofNat ((rows ++ [row]).countP (·.goes b)) := by
  rw [List.countP_append, List.countP_singleton, UInt64.ofNat_add, ← hn, h.goes]
  by_cases hb : o.forward = b <;> simp [hb]

theorem sum_goes_concat {o : Observation} (h : o.Shows row) (b : Bool) {n : UInt64}
    (hn : n = UInt64.ofNat ((rows.filter (·.goes b)).map (·.wireLen)).sum) :
    n + (if o.forward = b then o.len else 0) =
      UInt64.ofNat (((rows ++ [row]).filter (·.goes b)).map (·.wireLen)).sum := by
  rw [List.filter_append, List.map_append, List.sum_append, UInt64.ofNat_add, ← hn]
  by_cases hb : o.forward = b <;> simp [hb, h.goes, h.wireLen]

theorem flags_goes_concat {o : Observation} (h : o.Shows row) (b : Bool) {flags : UInt16}
    (hn : flags = ((rows.filter (·.goes b)).map (·.tcpFlags)).foldl (· ||| ·) 0) :
    flags ||| (if o.forward = b then o.flags else 0) =
      (((rows ++ [row]).filter (·.goes b)).map (·.tcpFlags)).foldl (· ||| ·) 0 := by
  rw [List.filter_append, List.map_append, List.foldl_append, ← hn]
  by_cases hb : o.forward = b <;> simp [hb, h.goes, h.tcpFlags]

theorem countFlag_concat {o : Observation} (h : o.Shows row) (mask : UInt16) {n : UInt32}
    (hn : n = UInt32.ofNat (rows.countP fun row => hasFlag row.tcpFlags mask)) :
    n + (if hasFlag o.flags mask then 1 else 0) =
      UInt32.ofNat ((rows ++ [row]).countP fun row => hasFlag row.tcpFlags mask) := by
  rw [List.countP_append, List.countP_singleton, hn, h.tcpFlags, UInt32.ofNat_add]
  cases hasFlag o.flags mask <;> simp

theorem any_concat {p : Packet → Bool} {b b' : Bool} (hb : b = rows.any p) (hrow : p row = b') :
    (b || b') = (rows ++ [row]).any p := by
  rw [List.any_append, List.any_cons, List.any_nil, Bool.or_false, hb, hrow]

theorem findSome_concat {column : Packet → Option α} {slot x : Option α}
    (hslot : slot = rows.findSome? column) (hrow : column row = x) :
    slot.or x = (rows ++ [row]).findSome? column := by
  rw [List.findSome?_append, ← hslot, List.findSome?_singleton, hrow]

/-- The service after one more layer. -/
theorem takeService_serviceOf (layers : List Text) (l : Text) :
    takeService (serviceOf layers) (some l) = serviceOf (layers ++ [l]) := by
  unfold serviceOf
  rw [List.find?_append, List.getLast?_concat]
  cases hfind : layers.find? fun l => ¬ Vague (some l) with
  | some s =>
      have hspecific : ¬ Vague (some s) := by simpa using List.find?_some hfind
      rw [Option.some_or, Option.some_or, Option.some_or]
      exact if_neg fun h => h.elim (nofun) hspecific
  | none =>
      -- every layer so far is the transport, so the last one gives way
      rw [Option.none_or, Option.none_or]
      have hvague : layers.getLast? = none ∨ Vague layers.getLast? := by
        cases hlast : layers.getLast? with
        | none => exact .inl rfl
        | some v =>
            have hall := List.find?_eq_none.mp hfind v (List.mem_of_getLast? hlast)
            exact .inr (by simpa using hall)
      have htake : takeService layers.getLast? (some l) = some l := if_pos hvague
      rw [htake]
      by_cases hl : Vague (some l) <;> simp [hl]

/-- What goes the other way. -/
theorem ite_backward {β : Type} (forward : Bool) (x y : β) :
    (if forward then x else y) = if forward = false then y else x := by
  cases forward <;> rfl

/-- One more row is counted. -/
theorem Counts.see {f : Flow} {o : Observation} (h : f.Counts rows) (ho : o.Shows row) :
    (f.see o).Counts (rows ++ [row]) where
  packetsC2s := (congrArg Totals.packetsC2s (f.see_totals o)).trans
    (countP_goes_concat ho true h.packetsC2s)
  packetsS2c := ((congrArg Totals.packetsS2c (f.see_totals o)).trans
    (congrArg (f.packetsS2c + ·) (ite_backward ..))).trans
    (countP_goes_concat ho false h.packetsS2c)
  bytesC2s := (congrArg Totals.bytesC2s (f.see_totals o)).trans
    (sum_goes_concat ho true h.bytesC2s)
  bytesS2c := ((congrArg Totals.bytesS2c (f.see_totals o)).trans
    (congrArg (f.bytesS2c + ·) (ite_backward ..))).trans
    (sum_goes_concat ho false h.bytesS2c)
  tcpFlagsC2s := (congrArg Totals.tcpFlagsC2s (f.see_totals o)).trans
    (flags_goes_concat ho true h.tcpFlagsC2s)
  tcpFlagsS2c := ((congrArg Totals.tcpFlagsS2c (f.see_totals o)).trans
    (congrArg (f.tcpFlagsS2c ||| ·) (ite_backward ..))).trans
    (flags_goes_concat ho false h.tcpFlagsS2c)
  synCount := (congrArg Totals.synCount (f.see_totals o)).trans
    (countFlag_concat ho tcpSyn h.synCount)
  finCount := (congrArg Totals.finCount (f.see_totals o)).trans
    (countFlag_concat ho tcpFin h.finCount)
  rstCount := (congrArg Totals.rstCount (f.see_totals o)).trans
    (countFlag_concat ho tcpRst h.rstCount)
  finC2s := (congrArg Totals.finC2s (f.see_totals o)).trans
    (any_concat h.finC2s (by rw [ho.goes, ho.tcpFlags, Bool.decide_eq_true]; rfl))
  finS2c := (congrArg Totals.finS2c (f.see_totals o)).trans
    (any_concat h.finS2c (by rw [ho.goes, ho.tcpFlags, Bool.decide_eq_false]; rfl))
  synC2s := (congrArg Totals.synC2s (f.see_totals o)).trans
    (any_concat h.synC2s (by rw [ho.goes, ho.tcpFlags, Bool.decide_eq_true]; rfl))
  synackS2c := (congrArg Totals.synackS2c (f.see_totals o)).trans
    (any_concat h.synackS2c (by rw [ho.goes, ho.tcpFlags, Bool.decide_eq_false]; rfl))
  sawReset := (congrArg Totals.sawReset (f.see_totals o)).trans
    (any_concat h.sawReset (congrArg (hasFlag · tcpRst) ho.tcpFlags))
  sni := (congrArg Names.sni (f.see_names o)).trans
    (findSome_concat h.sni (congrArg (·.tls.tlsSni) ho.app))
  httpHost := (congrArg Names.httpHost (f.see_names o)).trans
    (findSome_concat h.httpHost (congrArg (·.http.httpHost) ho.app))
  dnsQname := (congrArg Names.dnsQname (f.see_names o)).trans
    (findSome_concat h.dnsQname (congrArg (·.dns.dnsQname) ho.app))
  ja3 := (congrArg Names.ja3 (f.see_names o)).trans
    (findSome_concat h.ja3 (congrArg (·.tls.ja3) ho.app))
  ja3s := (congrArg Names.ja3s (f.see_names o)).trans
    (findSome_concat h.ja3s (congrArg (·.tls.ja3s) ho.app))
  ja4 := (congrArg Names.ja4 (f.see_names o)).trans
    (findSome_concat h.ja4 (congrArg (·.tls.ja4) ho.app))
  service := by
    rw [see_service, h.service, List.filterMap_append, List.filterMap_cons, ho.layer]
    cases o.pkt.frame.highestLayer with
    | none => rw [List.filterMap_nil, List.append_nil]; rfl
    | some l => exact takeService_serviceOf _ l

/-- A fresh flow has counted nothing. -/
theorem counts_fresh [Hashes] (id : ℕ) (key : Tuple) (ts : Int) (frame : ℕ) :
    (fresh id key ts frame).Counts [] := by
  constructor <;> rfl

/-- **One more row.**  Folding a packet into the aggregate of some rows gives the aggregate with its
row. -/
theorem Summarises.see {f : Flow} {o : Observation} (h : f.Summarises rows) (ho : o.Shows row) :
    (f.see o).Summarises (rows ++ [row]) where
  toCounts := h.toCounts.see ho
  firstTs := by
    rw [show (f.see o).firstTs = min f.firstTs o.ts from fold_firstTs ..]
    exact isLeast_concat h.firstTs ho.ts
  lastTs := by
    rw [show (f.see o).lastTs = max f.lastTs o.ts from fold_lastTs ..]
    exact isGreatest_concat h.lastTs ho.ts
  firstFrame := by
    rw [show (f.see o).firstFrame = min f.firstFrame o.frame from fold_firstFrame ..]
    exact isLeast_concat h.firstFrame ho.frame
  lastFrame := by
    rw [show (f.see o).lastFrame = max f.lastFrame o.frame from fold_lastFrame ..]
    exact isGreatest_concat h.lastFrame ho.frame

/-- The first row of a flow. -/
theorem summarises_fresh [Hashes] (id : ℕ) {o : Observation} (ho : o.Shows row) :
    ((fresh id o.tuple.key o.ts o.frame).see o).Summarises [row] := by
  have hone : ∀ {β : Type} [LinearOrder β] {column : Packet → Option β} {x : β},
      column row = some x → IsLeast {t | ∃ r ∈ [row], column r = some t} x := by
    intro β _ column x hx
    refine ⟨⟨row, List.mem_singleton.mpr rfl, hx⟩, ?_⟩
    rintro t ⟨r, hr, ht⟩
    rw [List.mem_singleton.mp hr, hx] at ht
    exact (Option.some.inj ht).le
  refine ⟨(counts_fresh id o.tuple.key o.ts o.frame).see ho, ?_, ?_, ?_, ?_⟩
  · rw [show ((fresh id o.tuple.key o.ts o.frame).see o).firstTs = min o.ts o.ts from
      fold_firstTs .., min_self]
    exact hone ho.ts
  · rw [show ((fresh id o.tuple.key o.ts o.frame).see o).lastTs = max o.ts o.ts from
      fold_lastTs .., max_self]
    exact hone (β := Intᵒᵈ) ho.ts
  · rw [show ((fresh id o.tuple.key o.ts o.frame).see o).firstFrame = min o.frame o.frame from
      fold_firstFrame .., min_self]
    exact hone ho.frame
  · rw [show ((fresh id o.tuple.key o.ts o.frame).see o).lastFrame = max o.frame o.frame from
      fold_lastFrame .., max_self]
    exact hone (β := ℕᵒᵈ) ho.frame

end OneMore

end Flow

/-! ### Tables as groupings -/

/-- The flow columns of a row of the flow. -/
def Flow.columns (f : Flow) (forward : Bool) : FlowCols :=
  { flowId := some f.id, communityId := some f.communityId
    direction := some (directionName forward) }

/-- The rows that refer to a flow. -/
def ownRows (rows : List Packet) (id : ℕ) : List Packet :=
  rows.filter fun row => row.flow.flowId = some id

theorem ownRows_concat_of_eq {rows : List Packet} {row : Packet} {id : ℕ}
    (h : row.flow.flowId = some id) : ownRows (rows ++ [row]) id = ownRows rows id ++ [row] := by
  unfold ownRows
  rw [List.filter_append, List.filter_cons_of_pos (by simpa using h), List.filter_nil]

theorem ownRows_concat_of_ne {rows : List Packet} {row : Packet} {id : ℕ}
    (h : row.flow.flowId ≠ some id) : ownRows (rows ++ [row]) id = ownRows rows id := by
  unfold ownRows
  rw [List.filter_append, List.filter_cons_of_neg (by simpa using h), List.filter_nil,
    List.append_nil]

/-- The packet of the call carries what the call says, and belongs to no flow yet. -/
structure Observation.Own (o : Observation) : Prop where
  ts : o.pkt.frame.ts = some o.ts
  frame : o.pkt.frame.frameNumber = some o.frame
  wireLen : UInt64.ofNat o.pkt.wireLen = o.len
  flow : o.pkt.flow = {}

theorem Observation.Own.shows {o : Observation} (h : o.Own) (f : Flow) :
    o.Shows { o.pkt with flow := f.columns o.forward } :=
  ⟨h.ts, h.frame, h.wireLen, rfl, rfl, rfl, rfl⟩

namespace FlowTable

/-- The table is the packet rows grouped by flow id: every flow is the aggregate of the rows that
refer to it, and every row refers to a flow or to none. -/
structure Groups (t : FlowTable) (rows : List Packet) : Prop where
  summary : ∀ f ∈ t.values, f.Summarises (ownRows rows f.id)
  linked : ∀ row ∈ rows, row.flow = {} ∨ ∃ f ∈ t.values, ∃ forward, row.flow = f.columns forward

theorem groups_new (maxFlows : ℕ) : (new maxFlows).Groups [] where
  summary f hf := by simp [values, new, BoundedTable.values] at hf
  linked row hrow := by cases hrow

/-- A row that belongs to no flow changes nothing. -/
theorem Groups.skip {t : FlowTable} {rows : List Packet} (h : t.Groups rows) {row : Packet}
    (hflow : row.flow = {}) : t.Groups (rows ++ [row]) where
  summary f hf := by
    rw [ownRows_concat_of_ne (by rw [hflow]; simp)]
    exact h.summary f hf
  linked r hr := by
    rcases List.mem_append.mp hr with hr | hr
    · exact h.linked r hr
    · exact .inl (List.mem_singleton.mp hr ▸ hflow)

variable [Hashes]

/-- **A call of `observe` keeps the table a grouping of the rows.** -/
theorem Groups.step {obs adm : List Observation} {t : FlowTable} {rows : List Packet}
    (h : t.Groups rows) (hgood : Good obs adm t) {o : Observation} (ho : o.Own) :
    (t.step o).1.Groups (rows ++ [(t.step o).2]) := by
  by_cases hr : Refuses t.maxFlows t.flows o.tuple.key
  · rw [step_of_refuses hr]
    have hsame : ({ t with evicted := t.evicted + 1 } : FlowTable).Groups rows :=
      ⟨h.summary, h.linked⟩
    exact hsame.skip ho.flow
  have hrow : (t.step o).2 = { o.pkt with flow := (t.folded o).columns o.forward } := by
    rw [step_of_admits hr]
    rfl
  have hshows : o.Shows (t.step o).2 := hrow ▸ ho.shows _
  have hnodup : (t.values.map Flow.id).Nodup := hgood.ids.nodup_iff.2 List.nodup_range'
  rcases hgood.step_cases hr with ⟨g, rest, hl, hperm, hvals, -, -⟩ | ⟨hl, hvals, -, -⟩
  · -- the flow of the packet is updated, the others stay
    have hfold : t.folded o = g.see o := by
      rw [folded, entry, hl]
      rfl
    have hid : (t.step o).2.flow.flowId = some g.id := by
      rw [hrow, hfold]
      exact congrArg some (g.see_id o)
    have hg : g ∈ t.values := hperm.mem_iff.mpr List.mem_cons_self
    have hother : ∀ f ∈ rest, g.id ≠ f.id := by
      have hnd := (hperm.map Flow.id).nodup_iff.mp hnodup
      rw [List.map_cons, List.nodup_cons] at hnd
      exact fun f hf heq => hnd.1 (heq ▸ List.mem_map_of_mem hf)
    refine ⟨fun f hf => ?_, fun row hmem => ?_⟩
    · rw [hvals] at hf
      rcases List.mem_cons.mp hf with rfl | hf
      · rw [Flow.fold_id, ownRows_concat_of_eq hid]
        exact (h.summary g hg).see hshows
      · rw [ownRows_concat_of_ne (by rw [hid]; simpa using hother f hf)]
        exact h.summary f (hperm.mem_iff.mpr (List.mem_cons_of_mem _ hf))
    · rw [hvals]
      rcases List.mem_append.mp hmem with hmem | hmem
      · rcases h.linked row hmem with hnone | ⟨f, hf, forward, hcols⟩
        · exact .inl hnone
        rcases List.mem_cons.mp (hperm.mem_iff.mp hf) with rfl | hf
        · refine .inr ⟨f.see o, List.mem_cons_self, forward, ?_⟩
          rw [hcols, Flow.columns, Flow.columns, f.see_id o, f.see_communityId o]
        · exact .inr ⟨f, List.mem_cons_of_mem _ hf, forward, hcols⟩
      · rw [List.mem_singleton.mp hmem, hrow, hfold]
        exact .inr ⟨g.see o, List.mem_cons_self, o.forward, rfl⟩
  · -- a flow is opened under an id that no row refers to
    have hfold : t.folded o = (Flow.fresh t.nextId o.tuple.key o.ts o.frame).see o := by
      rw [folded, entry, hl]
      rfl
    have hid : (t.step o).2.flow.flowId = some t.nextId := by
      rw [hrow, hfold]
      exact congrArg some (Flow.see_id _ o)
    have hnone : ownRows rows t.nextId = [] := by
      refine List.filter_eq_nil_iff.mpr fun row hmem hrefers => ?_
      have hrefers : row.flow.flowId = some t.nextId := by simpa using hrefers
      rcases h.linked row hmem with hflow | ⟨f, hf, forward, hflow⟩
      · rw [hflow] at hrefers
        cases hrefers
      · rw [hflow] at hrefers
        exact (hgood.id_lt hf).ne (Option.some.inj hrefers)
    refine ⟨fun f hf => ?_, fun row hmem => ?_⟩
    · rw [hvals] at hf
      rcases List.mem_cons.mp hf with rfl | hf
      · rw [Flow.fold_id]
        change Flow.Summarises _ (ownRows _ t.nextId)
        rw [ownRows_concat_of_eq hid, hnone]
        exact Flow.summarises_fresh t.nextId hshows
      · rw [ownRows_concat_of_ne (by rw [hid]; simpa using (hgood.id_lt hf).ne')]
        exact h.summary f hf
    · rw [hvals]
      rcases List.mem_append.mp hmem with hmem | hmem
      · rcases h.linked row hmem with hnone | ⟨f, hf, forward, hcols⟩
        · exact .inl hnone
        · exact .inr ⟨f, List.mem_cons_of_mem _ hf, forward, hcols⟩
      · rw [List.mem_singleton.mp hmem, hrow, hfold]
        exact .inr ⟨_, List.mem_cons_self, o.forward, rfl⟩

end FlowTable

/-! ### The packets of a run -/

section Engine

variable [Hashes]

theorem flow_payload {ctx ctx' : Ctx} {p : Payload} {c : Cur} (h : ctx.payload p c = .ok ctx') :
    ctx'.pkt.flow = ctx.pkt.flow := by
  unfold Ctx.payload at h
  dsimp only at h
  split at h
  · cases h
    rfl
  · rw [(dispatch_ok h).1]

theorem flow_arrive {ctx ctx' : Ctx} {stop : Except DissectError (Option (Payload × Cur))}
    {r : Except DissectError Unit} (h : ctx.arrive stop = .ok (r, ctx')) :
    ctx'.pkt.flow = ctx.pkt.flow := by
  cases stop with
  | error e => cases h; rfl
  | ok x =>
      cases x with
      | none => cases h; rfl
      | some pc =>
          obtain ⟨ctx₁, h₁, he⟩ := map_eq_ok_iff.mp h
          cases he
          exact flow_payload h₁

/-- The first pass leaves the flow columns empty. -/
theorem dissectOne_flow (o : Owned) (defer : Bool) : (dissectOne o defer).pkt.flow = {} := by
  obtain ⟨r, ctx, hwalk, hone, -⟩ | hpanic := dissectOne_tells o defer
  · rw [hone]
    exact flow_arrive hwalk
  · rw [hpanic]
    rfl

namespace Engine

theorem flow_fragmentPass {frags frags' : FragTable FragKey} {frag : Option FragMeta}
    {tuple : Option Tuple} {pkt pkt' : Packet}
    (h : fragmentPass frags frag pkt = .ok (frags', tuple, pkt')) : pkt'.flow = pkt.flow := by
  cases frag with
  | none => cases h; rfl
  | some fm =>
      rcases hp : frags.push fm.key fm.offset fm.moreFragments fm.payload with ⟨r, frags₁⟩
      simp only [fragmentPass, hp] at h
      cases r with
      | none => cases h; rfl
      | some data =>
          obtain ⟨r, hr, he⟩ := map_eq_ok_iff.mp h
          obtain ⟨⟨x, ctx⟩, hw, hr⟩ := bind_eq_ok_iff.mp hr
          cases hr
          cases he
          exact flow_arrive hw

theorem flow_reassembleAndDispatch {streams streams' : StreamTable StreamKey} {t : Tuple}
    {pkt pkt' : Packet} {o : Owned} {range : Option (UInt16 × UInt16)}
    (h : reassembleAndDispatch streams t pkt o range = .ok (streams', pkt')) :
    pkt'.flow = pkt.flow := by
  unfold reassembleAndDispatch at h
  cases hs : segmentOf o range with
  | none => rw [hs] at h; cases h; rfl
  | some segment =>
      rw [hs] at h
      obtain ⟨pkt₁, h₁, he⟩ := map_eq_ok_iff.mp h
      cases he
      obtain ⟨ctx, hd, he⟩ := bind_eq_ok_iff.mp h₁
      cases he
      change ctx.pkt.flow = pkt.flow
      rw [(dispatch_ok hd).1]

/-- **The call that absorbing a packet makes, and the row it writes.**  Either the packet belongs to
no conversation and its row to no flow, or the row is what `observe` makes of the packet. -/
theorem call_of_absorbOne {e e' : Engine} {o : Owned} {d : Dissected} {row : Packet}
    (h : e.absorbOne o d = .ok (e', row)) :
    (e.flowCall o d = none ∧ e'.flows = e.flows ∧ row.flow = d.pkt.flow) ∨
    ∃ obs, e.flowCall o d = some obs ∧ e'.flows = (e.flows.step obs).1 ∧
      row = (e.flows.step obs).2 ∧ obs.pkt.flow = d.pkt.flow ∧
      stamp obs.pkt = stamp (e.numbered d.pkt) ∧ obs.ts = o.tsNs ∧
      obs.frame = e.nextPacketId + 1 ∧ obs.len = o.origLen.toUInt64 ∧
      ∀ t, d.tuple = some t → obs.tuple = t := by
  obtain ⟨⟨frags, fragTuple, pkt⟩, hpass, h⟩ := bind_eq_ok_iff.mp h
  obtain ⟨⟨e₁, pkt₁⟩, hjoin, he⟩ := bind_eq_ok_iff.mp h
  cases he
  have hflow : pkt.flow = (e.numbered d.pkt).flow := flow_fragmentPass hpass
  have hstamp := stamp_fragmentPass hpass
  have hcall : e.flowCall o d =
      { e with frags }.joinCall (d.tuple.or fragTuple) pkt o d.tcpPayload := by
    simp only [flowCall, hpass]
  rw [hcall]
  cases htuple : d.tuple.or fragTuple with
  | none =>
      rw [htuple] at hjoin
      cases hjoin
      exact .inl ⟨rfl, rfl, hflow⟩
  | some t =>
      rw [htuple] at hjoin
      obtain ⟨⟨streams, pkt₂⟩, hreasm, he⟩ := bind_eq_ok_iff.mp hjoin
      cases he
      refine .inr ⟨⟨t, pkt₂, o.tsNs, e.nextPacketId + 1, o.origLen.toUInt64⟩, ?_, rfl, rfl, ?_, ?_,
        rfl, rfl, rfl, fun t' ht' => ?_⟩
      · simp only [joinCall, Option.bind_some, hreasm]
      · exact (flow_reassembleAndDispatch hreasm).trans hflow
      · exact (stamp_reassembleAndDispatch hreasm).trans hstamp
      · rw [ht', Option.some_or] at htuple
        exact (Option.some.inj htuple).symm

/-- The packet that a run folds into its flow carries what the call says. -/
theorem own_of_step {defer : Bool} {e : Engine} {o : Owned} {obs : Observation}
    (hflow : obs.pkt.flow = (dissectOne o defer).pkt.flow)
    (hstamp : stamp obs.pkt = stamp (e.numbered (dissectOne o defer).pkt))
    (hts : obs.ts = o.tsNs) (hframe : obs.frame = e.nextPacketId + 1)
    (hlen : obs.len = o.origLen.toUInt64) : obs.Own := by
  have hrow := (numbered_stamped e o defer).congr hstamp
  refine ⟨hrow.ts.trans (congrArg some hts.symm), hrow.frameNumber.trans (congrArg some hframe.symm),
    ?_, hflow.trans (dissectOne_flow o defer)⟩
  rw [hlen, Packet.wireLen, hrow.frameLen]
  exact UInt64.ofNat_uInt32ToNat o.origLen

/-- **Absorbing a record keeps the flow table a grouping of the rows.** -/
theorem step_groups {defer : Bool} {e e' : Engine} {o : Owned} {rows : List Packet} {row : Packet}
    {maxFlows : ℕ} {calls : List Observation} (hcalls : e.flows = (FlowTable.new maxFlows).run calls)
    (hrows : e.flows.Groups rows) (h : step defer e o = .ok (e', row)) :
    (∃ calls', e'.flows = (FlowTable.new maxFlows).run calls') ∧ e'.flows.Groups (rows ++ [row]) := by
  rcases call_of_absorbOne h with ⟨-, hflows, hrow⟩ | ⟨obs, -, hflows, hrow, hflow, hstamp, hts,
    hframe, hlen, -⟩
  · rw [hflows]
    exact ⟨⟨calls, hcalls⟩, hrows.skip (hrow.trans (dissectOne_flow o defer))⟩
  · have hown := own_of_step hflow hstamp hts hframe hlen
    have hgood := FlowTable.good_run maxFlows calls
    rw [← hcalls] at hgood
    rw [hflows, hrow]
    refine ⟨⟨calls ++ [obs], ?_⟩, hrows.step hgood hown⟩
    rw [FlowTable.run_concat, hcalls]

/-- The flow table of a fold over records is a grouping of its rows. -/
theorem scan_groups {cfg : Config} {e : Engine} {os : List Owned} {rows : List Packet}
    (h : scan (step cfg.reassemble) (new cfg) os = .ok (e, rows)) :
    (∃ calls, e.flows = (FlowTable.new cfg.maxFlows).run calls) ∧ e.flows.Groups rows :=
  ChunkedRun.scan_history
    (I := fun rows e => (∃ calls, e.flows = (FlowTable.new cfg.maxFlows).run calls) ∧
      e.flows.Groups rows) []
    (fun _ _ _ _ _ _ ⟨⟨_, hcalls⟩, hrows⟩ h => step_groups hcalls hrows h)
    ⟨⟨[], rfl⟩, FlowTable.groups_new cfg.maxFlows⟩ h

/-- **The flow of a row is under the key of its packet**, when the packet's own frame names a
conversation, and the row goes the way the packet goes. -/
theorem key_of_row {cfg : Config} {e : Engine} {os : List Owned} {rows : List Packet}
    (h : scan (step cfg.reassemble) (new cfg) os = .ok (e, rows)) {i : ℕ} {o : Owned}
    {row : Packet} (ho : os[i]? = some o) (hrow : rows[i]? = some row) {t : Tuple}
    (ht : (dissectOne o cfg.reassemble).tuple = some t) {f : Flow} (hf : f ∈ e.flows.values)
    (hid : row.flow.flowId = some f.id) :
    f.key = t.normalized.1 ∧ row.flow.direction = some (directionName t.normalized.2) := by
  obtain ⟨hlt, hget⟩ := List.getElem?_eq_some_iff.mp ho
  rw [← List.take_append_drop i os, List.drop_eq_getElem_cons hlt, hget] at h
  obtain ⟨e₁, rows₁, rows₂, hbefore, hrest, rfl⟩ := ChunkedRun.exists_of_scan_append h
  obtain ⟨e₂, b, rows₃, hstep, hafter, rfl⟩ := ChunkedRun.exists_of_scan_cons hrest
  have hplace : rows₁.length = i := by
    rw [ChunkedRun.length_of_scan hbefore, List.length_take, Nat.min_eq_left hlt.le]
  rw [List.getElem?_append_right hplace.le, hplace, Nat.sub_self] at hrow
  cases hrow
  obtain ⟨⟨calls, hcalls⟩, -⟩ := scan_groups hbefore
  rcases call_of_absorbOne hstep with ⟨-, -, hflow⟩ | ⟨obs, -, hflows, rfl, hflow, -, -, -, -, htuple⟩
  · rw [hflow, dissectOne_flow] at hid
    cases hid
  obtain rfl := htuple t ht
  have hlast := flows_of_scan hafter
  rw [hflows, hcalls] at hlast
  by_cases hr : Refuses ((FlowTable.new cfg.maxFlows).run calls).maxFlows
      ((FlowTable.new cfg.maxFlows).run calls).flows obs.tuple.key
  · rw [hcalls, FlowTable.step_of_refuses hr, hflow, dissectOne_flow] at hid
    cases hid
  obtain ⟨f', hf', hid'⟩ := FlowTable.flowId_step (FlowTable.new cfg.maxFlows) calls
    (flowCalls cfg.reassemble e₂ (os.drop (i + 1))) obs hr
  rw [FlowTable.run_append, FlowTable.run_cons, ← hlast] at hf'
  have hgood := FlowTable.good_run cfg.maxFlows
    (calls ++ obs :: flowCalls cfg.reassemble e₂ (os.drop (i + 1)))
  rw [FlowTable.run_append, FlowTable.run_cons, ← hlast] at hgood
  rw [hcalls, hid'] at hid
  obtain ⟨k, hk⟩ := BoundedTable.mem_values_iff.mp hf
  have hkey := hgood.key_eq_of_id_eq hf' hk (Option.some.inj hid)
  refine ⟨(hgood.keys k f hk).2.trans hkey.symm, ?_⟩
  rw [hcalls, FlowTable.step_of_admits hr]

theorem length_values_of_scan {cfg : Config} {e : Engine} {os : List Owned} {rows : List Packet}
    (h : scan (step cfg.reassemble) (new cfg) os = .ok (e, rows)) :
    e.flows.values.length = BoundedTable.len e.flows.flows := by
  obtain ⟨⟨calls, hcalls⟩, -⟩ := scan_groups h
  have hlength := (FlowTable.good_run cfg.maxFlows calls).ids.length_eq
  rwa [← hcalls, List.length_map, List.length_range'] at hlength

end Engine

/-- The flow ids on the rows. -/
def flowIds (rows : List Packet) : List ℕ := rows.filterMap (·.flow.flowId)

/-- **The flow table of a run is its packet rows, grouped by flow id.**  For every completed run: the
flows are numbered from one without a gap; each of them is the aggregate of the rows that refer to
it, of which there is one at least; a row that refers to a flow refers to one that is there, and
carries its Community ID; a row that refers to none has no flow column at all; when the frame of a
row names a conversation itself, the flow is under the key of that conversation and the row goes its
way; and the number of flows in the metadata is the number of flow ids on the rows. -/
theorem run_flows_group_rows {ε : Type} (pool : ThreadPool) (cfg : Config)
    (onBatch : List (List Packet) → Except ε Unit) (records : List RawPacket) (badBlocks : ℕ)
    {out : RunOutcome ε} {stats : RunStats} {flows : FlowTable}
    (hrun : run pool cfg onBatch records badBlocks = out)
    (hend : out.result = .finished stats flows) :
    (flows.values.map Flow.id).Perm (List.range' 1 flows.values.length) ∧
      (∀ f ∈ flows.values, ownRows out.delivered.flatten f.id ≠ [] ∧
        f.Summarises (ownRows out.delivered.flatten f.id)) ∧
      (∀ row ∈ out.delivered.flatten, row.flow = {} ∨
        ∃ f ∈ flows.values, ∃ forward, row.flow = f.columns forward) ∧
      (∀ (i : ℕ) (record : RawPacket) (row : Packet) (t : Tuple), records[i]? = some record →
        out.delivered.flatten[i]? = some row →
        (dissectOne record.own cfg.reassemble).tuple = some t →
        ∀ f ∈ flows.values, row.flow.flowId = some f.id →
          f.key = t.normalized.1 ∧
            row.flow.direction = some (directionName t.normalized.2)) ∧
      stats.flows = (flowIds out.delivered.flatten).dedup.length := by
  subst hrun
  obtain ⟨e, hscan, rfl, rfl⟩ := scan_of_finished hend
  obtain ⟨⟨calls, hcalls⟩, hgroups⟩ := Engine.scan_groups hscan
  have hgood := FlowTable.good_run cfg.maxFlows calls
  rw [← hcalls] at hgood
  have hlen := Engine.length_values_of_scan hscan
  refine ⟨hlen ▸ hgood.ids, fun f hf => ⟨?_, hgroups.summary f hf⟩, hgroups.linked,
    fun i record row t hrecord hrow ht f hf hid => Engine.key_of_row hscan
      (by rw [List.getElem?_map, hrecord]; rfl) hrow ht hf hid, ?_⟩
  · -- the earliest time stamp of the flow is that of a row
    obtain ⟨row, hrow, -⟩ := (hgroups.summary f hf).firstTs.1
    exact List.ne_nil_of_mem hrow
  · have hcount :=
      (Engine.finalizeStats_tables { e with stats := { e.stats with badBlocks } }).1
    -- the ids of the flows are the ids on the rows, each once
    have hperm : (e.flows.values.map Flow.id).Perm
        (flowIds (run pool cfg onBatch records badBlocks).delivered.flatten).dedup := by
      refine (List.perm_ext_iff_of_nodup (hgood.ids.nodup_iff.mpr List.nodup_range')
        (List.nodup_dedup _)).mpr fun id => ?_
      rw [List.mem_dedup, flowIds, List.mem_filterMap, List.mem_map]
      constructor
      · rintro ⟨f, hf, rfl⟩
        obtain ⟨row, hrow, -⟩ := (hgroups.summary f hf).firstTs.1
        exact ⟨row, (List.mem_filter.mp hrow).1, by simpa using (List.mem_filter.mp hrow).2⟩
      · rintro ⟨row, hrow, hid⟩
        rcases hgroups.linked row hrow with hnone | ⟨f, hf, forward, hcols⟩
        · rw [hnone] at hid
          cases hid
        · rw [hcols] at hid
          exact ⟨f, hf, Option.some.inj hid⟩
    rw [hcount, ← hlen, ← hperm.length_eq, List.length_map]

end Engine

/-- Two packets of one conversation. -/
theorem run_flows_group_rows_bare :
    (bareAt 3 0).data = (bareAt 7 1).data ∧ ∀ (_ : Hashes) (pool : ThreadPool), ∃ out stats flows,
    run pool {} (fun _ => (.ok () : Except Unit Unit)) [bareAt 3 0, bareAt 7 1] 0 = out ∧
      out.result = .finished stats flows ∧ stats.flows = 1 ∧
      ∀ f ∈ flows.values, f.Summarises (ownRows out.delivered.flatten f.id) := by
  refine ⟨rfl, fun _ pool => ?_⟩
  obtain ⟨stats, flows, hend, hone⟩ : ∃ stats flows,
      (run pool {} (fun _ => (.ok () : Except Unit Unit)) [bareAt 3 0, bareAt 7 1] 0).result =
        .finished stats flows ∧ stats.flows = 1 := ⟨_, _, rfl, rfl⟩
  obtain ⟨-, hsummary, -, -⟩ := run_flows_group_rows pool {} _ [bareAt 3 0, bareAt 7 1] 0 rfl hend
  exact ⟨_, stats, flows, rfl, hend, hone, fun f hf => (hsummary f hf).2⟩

end PcapRacer
