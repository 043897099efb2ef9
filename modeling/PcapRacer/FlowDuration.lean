/-
**How long a flow lasts.**

The duration of a flow is a difference of two 64-bit time stamps, taken far from where they were
made. A flow keeps the earliest and the latest time stamp of its packets, so the difference is never
negative as a number; but time stamps are clamped to the whole signed range, so as a word it may be.

Main definitions:

* `Flow.elapsedNs`, `Flow.durationSecs` — the duration, as the code computes it;
* `Flow.DurationHolds` — the difference does not overflow, and is not negative;
* `Engine.flowCalls` — the packets that a run folds into its flows;
* `CloseInTime` — packets of one conversation are less than `2 ^ 63` nanoseconds apart.

Main results:

* `FlowTable.spans_run` — a flow keeps the earliest and the latest time stamp of its packets;
* `Engine.flows_of_scan` — the flow table of a run is that of the packets it folds in;
* `durations_hold_iff` — **when no duration overflows**.
-/

import Mathlib.Tactic.NormNum
import PcapRacer.CaptureSections
import PcapRacer.FlowInv
import PcapRacer.Machine
import PcapRacer.RunBatches

set_option relaxedAutoImplicit false
set_option autoImplicit false

namespace PcapRacer

open ChunkedRun (scan)

open BoundedTable (Refuses)

/-! ### Durations -/

namespace Flow

/-- The difference of the time stamps as a signed word of 64 bits, which wraps around. -/
def elapsedNs (f : Flow) : Int := (f.lastTs - f.firstTs).bmod (2 ^ 64)

/-- The conversion and the division keep the sign. -/
def durationSecs (f : Flow) : Float := Float.ofInt f.elapsedNs / 1e9

/-- The difference does not overflow, and is not negative. -/
def DurationHolds (f : Flow) : Prop :=
  Machine.signed 64 (f.lastTs - f.firstTs) = .ok (f.lastTs - f.firstTs) ∧ 0 ≤ f.elapsedNs

theorem durationHolds_iff {f : Flow} (h : f.firstTs ≤ f.lastTs) :
    f.DurationHolds ↔ f.lastTs - f.firstTs < 2 ^ 63 := by
  unfold DurationHolds elapsedNs Machine.signed
  constructor
  · rintro ⟨hfits, -⟩
    by_contra hlong
    rw [if_neg (fun hin => hlong hin.2)] at hfits
    cases hfits
  · intro hlt
    have hlo : -2 ^ (64 - 1) ≤ f.lastTs - f.firstTs := le_trans (by norm_num) (Int.sub_nonneg.mpr h)
    refine ⟨if_pos ⟨hlo, hlt⟩, ?_⟩
    rw [Int.bmod_eq_of_le (by omega) (by omega)]
    exact Int.sub_nonneg.mpr h

end Flow

/-! ### Time stamps of a flow -/

namespace FlowTable

/-- Every flow keeps the earliest and the latest time stamp of the packets `obs` of its
conversation, and every such packet has a flow. -/
structure Spans (obs : List Observation) (t : FlowTable) : Prop where
  first : ∀ k f, t.flows.lookup k = some f → ∃ o ∈ obs, o.tuple.key = k ∧ o.ts = f.firstTs
  last : ∀ k f, t.flows.lookup k = some f → ∃ o ∈ obs, o.tuple.key = k ∧ o.ts = f.lastTs
  between : ∀ o ∈ obs, ∃ f, t.flows.lookup o.tuple.key = some f ∧ f.firstTs ≤ o.ts ∧ o.ts ≤ f.lastTs

theorem spans_new (maxFlows : ℕ) : Spans [] (new maxFlows) where
  first k f h := by simp [new] at h
  last k f h := by simp [new] at h
  between o ho := by simp at ho

section Run

variable [Hashes]

/-- The time stamps of the flow that a packet was folded into. -/
theorem folded_ts (t : FlowTable) (o : Observation) :
    (t.folded o).firstTs = (t.flows.lookup o.tuple.key).elim o.ts (fun g => min g.firstTs o.ts) ∧
      (t.folded o).lastTs =
        (t.flows.lookup o.tuple.key).elim o.ts (fun g => max g.lastTs o.ts) := by
  rw [folded, entry, Flow.fold_firstTs, Flow.fold_lastTs]
  cases t.flows.lookup o.tuple.key <;> simp [Flow.fresh]

/-- **One call that is not refused keeps the invariant.** -/
theorem Spans.step {obs : List Observation} {t : FlowTable} (h : Spans obs t) {o : Observation}
    (hr : ¬ Refuses t.maxFlows t.flows o.tuple.key) : Spans (obs ++ [o]) (t.step o).1 := by
  obtain ⟨hfirst, hlast⟩ := t.folded_ts o
  have hnew : o ∈ obs ++ [o] := by simp
  refine ⟨fun k f hk => ?_, fun k f hk => ?_, fun o' ho' => ?_⟩
  · rw [lookup_step hr] at hk
    split at hk
    · next heq =>
        subst heq
        rw [← Option.some_inj.mp hk, hfirst]
        cases hl : t.flows.lookup o.tuple.key with
        | none => exact ⟨o, hnew, rfl, rfl⟩
        | some g =>
            obtain ⟨o', ho', hkey, hts⟩ := h.first _ g hl
            rcases min_choice g.firstTs o.ts with hmin | hmin
            · exact ⟨o', List.mem_append_left _ ho', hkey, hts.trans hmin.symm⟩
            · exact ⟨o, hnew, rfl, hmin.symm⟩
    · obtain ⟨o', ho', hkey, hts⟩ := h.first k f hk
      exact ⟨o', List.mem_append_left _ ho', hkey, hts⟩
  · rw [lookup_step hr] at hk
    split at hk
    · next heq =>
        subst heq
        rw [← Option.some_inj.mp hk, hlast]
        cases hl : t.flows.lookup o.tuple.key with
        | none => exact ⟨o, hnew, rfl, rfl⟩
        | some g =>
            obtain ⟨o', ho', hkey, hts⟩ := h.last _ g hl
            rcases max_choice g.lastTs o.ts with hmax | hmax
            · exact ⟨o', List.mem_append_left _ ho', hkey, hts.trans hmax.symm⟩
            · exact ⟨o, hnew, rfl, hmax.symm⟩
    · obtain ⟨o', ho', hkey, hts⟩ := h.last k f hk
      exact ⟨o', List.mem_append_left _ ho', hkey, hts⟩
  · rw [lookup_step hr]
    rcases List.mem_append.mp ho' with ho' | ho'
    · obtain ⟨g, hg, hle, hge⟩ := h.between o' ho'
      by_cases hkey : o'.tuple.key = o.tuple.key
      · rw [hkey] at hg
        refine ⟨_, if_pos hkey, ?_, ?_⟩
        · rw [hfirst, hg]
          exact le_trans (min_le_left _ _) hle
        · rw [hlast, hg]
          exact le_trans hge (le_max_left _ _)
      · exact ⟨g, by rw [if_neg hkey, hg], hle, hge⟩
    · obtain rfl := List.mem_singleton.mp ho'
      refine ⟨_, if_pos rfl, ?_, ?_⟩
      · rw [hfirst]
        cases t.flows.lookup o'.tuple.key <;> simp
      · rw [hlast]
        cases t.flows.lookup o'.tuple.key <;> simp

/-- **A flow keeps the earliest and the latest time stamp of its packets.** -/
theorem spans_run (maxFlows : ℕ) (obs : List Observation) :
    Spans ((new maxFlows).admitted obs) ((new maxFlows).run obs) := by
  induction obs using List.reverseRecOn with
  | nil => exact spans_new maxFlows
  | append_singleton obs o ih =>
      rw [admitted_concat, run_concat]
      by_cases hr : Refuses ((new maxFlows).run obs).maxFlows ((new maxFlows).run obs).flows
          o.tuple.key
      · rw [if_pos hr, List.append_nil, step_of_refuses hr]
        exact ⟨ih.first, ih.last, ih.between⟩
      · rw [if_neg hr]
        exact ih.step hr

end Run

end FlowTable

/-- Packets of one conversation are less than `2 ^ 63` nanoseconds apart. -/
def CloseInTime (obs : List Observation) : Prop :=
  ∀ o ∈ obs, ∀ o' ∈ obs, o.tuple.key = o'.tuple.key → o'.ts - o.ts < 2 ^ 63

/-- The durations of a flow table hold exactly when the packets that it took are close in time. -/
theorem FlowTable.durations_iff [Hashes] (maxFlows : ℕ) (obs : List Observation) :
    (∀ f ∈ ((new maxFlows).run obs).values, f.DurationHolds) ↔
      CloseInTime ((new maxFlows).admitted obs) := by
  have hspans := spans_run maxFlows obs
  have hgood := good_run maxFlows obs
  constructor
  · intro h o ho o' ho' hkey
    obtain ⟨f, hf, hle, -⟩ := hspans.between o ho
    obtain ⟨f', hf', -, hge⟩ := hspans.between o' ho'
    rw [← hkey, hf] at hf'
    obtain rfl := Option.some_inj.mp hf'
    have hmem : f ∈ ((new maxFlows).run obs).values :=
      BoundedTable.mem_values_iff.mpr ⟨_, hf⟩
    have hlt := (Flow.durationHolds_iff (hgood.interval f hmem).1).mp (h f hmem)
    omega
  · intro h f hf
    obtain ⟨k, hk⟩ := BoundedTable.mem_values_iff.mp hf
    obtain ⟨o, ho, hkey, hts⟩ := hspans.first k f hk
    obtain ⟨o', ho', hkey', hts'⟩ := hspans.last k f hk
    rw [Flow.durationHolds_iff (hgood.interval f hf).1, ← hts, ← hts']
    exact h o ho o' ho' (hkey.trans hkey'.symm)

/-! ### The packets of a run -/

namespace Engine

variable [Hashes]

/-- The call that folds a packet into its flow, if it belongs to a conversation. -/
def joinCall (e : Engine) (tuple : Option Tuple) (pkt : Packet) (o : Owned)
    (range : Option (UInt16 × UInt16)) : Option Observation :=
  tuple.bind fun t =>
    match reassembleAndDispatch e.streams t pkt o range with
    | .error _ => none
    | .ok (_, pkt) =>
        some { tuple := t, pkt, ts := o.tsNs, frame := e.nextPacketId + 1,
               len := o.origLen.toUInt64 }

/-- The call that folds a dissected packet into its flow, after the fragment pass. -/
def flowCall (e : Engine) (o : Owned) (d : Dissected) : Option Observation :=
  match fragmentPass e.frags (if e.reassemble then d.frag else none) (e.numbered d.pkt) with
  | .error _ => none
  | .ok (frags, fragTuple, pkt) =>
      { e with frags }.joinCall (d.tuple.or fragTuple) pkt o d.tcpPayload

/-- The calls that fold the packets of a run into their flows, in order. -/
def flowCalls (defer : Bool) : Engine → List Owned → List Observation
  | _, [] => []
  | e, o :: os =>
      (e.flowCall o (dissectOne o defer)).toList ++
        match step defer e o with
        | .error _ => []
        | .ok (e', _) => flowCalls defer e' os

theorem flows_of_joinFlow {e e' : Engine} {tuple : Option Tuple} {pkt pkt' : Packet} {o : Owned}
    {range : Option (UInt16 × UInt16)} (h : e.joinFlow tuple pkt o range = .ok (e', pkt')) :
    e'.flows = e.flows.run (e.joinCall tuple pkt o range).toList := by
  cases tuple with
  | none =>
      cases h
      rfl
  | some t =>
      obtain ⟨⟨streams, pkt₁⟩, hreasm, he⟩ := bind_eq_ok_iff.mp h
      rw [← (Prod.mk.inj (Except.ok.inj he)).1, joinCall, Option.bind_some, hreasm]
      rfl

/-- **What absorbing a packet does to the flow table.** -/
theorem flows_of_absorbOne {e e' : Engine} {o : Owned} {d : Dissected} {row : Packet}
    (h : e.absorbOne o d = .ok (e', row)) : e'.flows = e.flows.run (e.flowCall o d).toList := by
  obtain ⟨⟨frags, fragTuple, pkt⟩, hpass, h⟩ := bind_eq_ok_iff.mp h
  obtain ⟨⟨e₁, pkt₁⟩, hjoin, he⟩ := bind_eq_ok_iff.mp h
  cases he
  simpa only [flowCall, hpass] using flows_of_joinFlow hjoin

/-- **The flow table of a run** is that of the packets that it folds in. -/
theorem flows_of_scan {defer : Bool} {e e' : Engine} {os : List Owned} {rows : List Packet}
    (h : scan (step defer) e os = .ok (e', rows)) :
    e'.flows = e.flows.run (flowCalls defer e os) := by
  induction os generalizing e rows with
  | nil =>
      cases h
      rfl
  | cons o os ih =>
      obtain ⟨e₁, row, rows₁, hs, hr, rfl⟩ := ChunkedRun.exists_of_scan_cons h
      rw [ih hr, flows_of_absorbOne hs, flowCalls, hs, FlowTable.run_append]

end Engine

/-! ### Captures -/

/-- **When no duration overflows**: when no two packets that a capture folds into one flow are
`2 ^ 63` nanoseconds or more apart. -/
theorem durations_hold_iff [Hashes] {ε : Type} (pool : ThreadPool) (cfg : Config)
    (onBatch : List (List Packet) → Except ε Unit) (src : ℕ → Next) (n fuel : ℕ)
    (hstop : StopsAt src n) (hfuel : n < fuel) (out : RunOutcome ε)
    (hrun : readAndRun pool cfg onBatch fuel src = some out) (stats : RunStats) (flows : FlowTable)
    (hout : out.result = .finished stats flows) :
    (∀ f ∈ flows.values, f.DurationHolds) ↔
      CloseInTime ((FlowTable.new cfg.maxFlows).admitted (Engine.flowCalls cfg.reassemble
        (Engine.new cfg)
        ((CaptureReader.packets {} (blocksBefore src n)).map RawPacket.own))) := by
  rw [readAndRun_eq pool cfg onBatch hstop hfuel] at hrun
  rw [← Option.some_inj.mp hrun] at hout
  obtain ⟨e, hscan, -, rfl⟩ := scan_of_finished hout
  rw [Engine.flows_of_scan hscan]
  exact FlowTable.durations_iff cfg.maxFlows _

/-! ### Two interfaces, as far apart as the offsets reach -/

/-- An IPv4 header and nothing behind it. -/
def bareHeader : Bytes :=
  [0x45, 0x00, 0x00, 0x14, 0x00, 0x01, 0x00, 0x00, 0x40, 0x59, 0x00, 0x00,
    0x0a, 0x00, 0x00, 0x05, 0x5d, 0xb8, 0xd8, 0x22]

/-- The same packet at two interfaces, whose clocks are set `offset` and `offset'` seconds ahead. -/
def twoClocks (offset offset' : Int64) : List NgBlock :=
  [.sectionHeader,
    .interfaceDescription { linktype := 101, tsResolution := none, ifTsoffset := offset },
    .interfaceDescription { linktype := 101, tsResolution := none, ifTsoffset := offset' },
    .enhancedPacket { ifId := 0, tsHigh := 0, tsLow := 0, caplen := 20, origlen := 20,
                      data := bareHeader },
    .enhancedPacket { ifId := 1, tsHigh := 0, tsLow := 0, caplen := 20, origlen := 20,
                      data := bareHeader }]

theorem stopsAt_twoClocks (offset offset' : Int64) :
    StopsAt (parsed (twoClocks offset offset')) 5 := by
  refine ⟨rfl, fun m hm => ?_⟩
  obtain rfl | rfl | rfl | rfl | rfl : m = 0 ∨ m = 1 ∨ m = 2 ∨ m = 3 ∨ m = 4 := by omega
  all_goals rfl

/-- The packet as it is captured. -/
def bareAt (tsNs : Int) (ifaceId : UInt32) : RawPacket :=
  { tsNs, capLen := 20, origLen := 20, ifaceId, linktype := 101, data := bareHeader,
    data_le := by decide }

/-- A packet to another address. -/
def elsewhereAt (tsNs : Int) (ifaceId : UInt32) : RawPacket :=
  { tsNs, capLen := 20, origLen := 20, ifaceId, linktype := 101,
    data := bareHeader.dropLast ++ [0x23], data_le := by decide }

/-- The run over the capture is the run over the two packets. -/
theorem readAndRun_twoClocks [Hashes] (pool : ThreadPool) {offset offset' : Int64} {ts ts' : Int}
    (hts : ticksToNs 0 1000000 offset = ts) (hts' : ticksToNs 0 1000000 offset' = ts') :
    readAndRun pool {} (fun _ => (.ok () : Except Unit Unit)) 6
        (parsed (twoClocks offset offset')) =
      some (run pool {} (fun _ => (.ok () : Except Unit Unit)) [bareAt ts 0, bareAt ts' 1] 0) := by
  rw [readAndRun_eq pool {} _ (stopsAt_twoClocks offset offset') (by decide), ← hts, ← hts']
  rfl

theorem durations_hold_iff_near :
    bareHeader.length = 20 ∧ ∀ (_ : Hashes) (pool : ThreadPool), ∃ out stats flows,
      readAndRun pool {} (fun _ => (.ok () : Except Unit Unit)) 6 (parsed (twoClocks 0 5)) =
        some out ∧
      out.result = .finished stats flows ∧
      flows.values.map (fun f => (f.firstTs, f.lastTs)) = [(0, 5000000000)] ∧
      CloseInTime ((FlowTable.new ({} : Config).maxFlows).admitted (Engine.flowCalls true
        (Engine.new {})
        ((CaptureReader.packets {} (blocksBefore (parsed (twoClocks 0 5)) 5)).map
          RawPacket.own))) := by
  refine ⟨rfl, fun _ pool => ?_⟩
  obtain ⟨stats, flows, hfin, htimes⟩ : ∃ stats flows,
      (run pool {} (fun _ => (.ok () : Except Unit Unit))
        [bareAt 0 0, bareAt 5000000000 1] 0).result = .finished stats flows ∧
      flows.values.map (fun f => (f.firstTs, f.lastTs)) = [(0, 5000000000)] := ⟨_, _, rfl, rfl⟩
  have hrun := readAndRun_twoClocks pool (show ticksToNs 0 1000000 0 = 0 by decide +kernel)
    (show ticksToNs 0 1000000 5 = 5000000000 by decide +kernel)
  refine ⟨_, stats, flows, hrun, hfin, htimes, ?_⟩
  refine (durations_hold_iff pool {} _ _ 5 6 (stopsAt_twoClocks 0 5) (by decide) _ hrun stats flows
    hfin).mp fun f hf => ?_
  have hmem := List.mem_map_of_mem (f := fun f : Flow => (f.firstTs, f.lastTs)) hf
  rw [htimes] at hmem
  obtain ⟨hfirst, hlast⟩ := Prod.mk.inj (List.mem_singleton.mp hmem)
  rw [Flow.durationHolds_iff (by omega)]
  omega

/-- With one clock at either end of the range, the one flow lasts from the smallest time stamp to
the largest, which as a signed word is a nanosecond less than nothing. -/
theorem duration_overflows :
    bareHeader.length = 20 ∧ ∀ (_ : Hashes) (pool : ThreadPool), ∃ out stats flows,
      readAndRun pool {} (fun _ => (.ok () : Except Unit Unit)) 6
        (parsed (twoClocks (-2 ^ 63) (2 ^ 63 - 1))) = some out ∧
      out.result = .finished stats flows ∧
      ∃ f ∈ flows.values, f.elapsedNs = -1 ∧ ¬ f.DurationHolds := by
  refine ⟨rfl, fun _ pool => ?_⟩
  obtain ⟨stats, flows, hfin, htimes⟩ : ∃ stats flows,
      (run pool {} (fun _ => (.ok () : Except Unit Unit))
        [bareAt (-9223372036854775808) 0, bareAt 9223372036854775807 1] 0).result =
          .finished stats flows ∧
      flows.values.map (fun f => (f.firstTs, f.lastTs)) =
        [(-9223372036854775808, 9223372036854775807)] := by
    refine ⟨_, _, rfl, ?_⟩
    rfl
  have hrun := readAndRun_twoClocks pool
    (show ticksToNs 0 1000000 (-2 ^ 63) = -9223372036854775808 by decide +kernel)
    (show ticksToNs 0 1000000 (2 ^ 63 - 1) = 9223372036854775807 by decide +kernel)
  refine ⟨_, stats, flows, hrun, hfin, ?_⟩
  obtain ⟨f, hf, htimes⟩ := List.map_eq_singleton_iff.mp htimes
  obtain ⟨hfirst, hlast⟩ := Prod.mk.inj htimes
  refine ⟨f, by simp [hf], ?_, ?_⟩
  · rw [Flow.elapsedNs, hfirst, hlast]
    decide +kernel
  · rw [Flow.durationHolds_iff (by omega)]
    omega

end PcapRacer
