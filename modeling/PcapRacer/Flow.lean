/-
**Flow aggregation.**

Each conversation is keyed by its normalised tuple so both directions land in one flow, with
per-direction counters, a coarse TCP state, and the identifying details lifted from whichever
packet carried them.

`FlowTable.observe` folds one packet into its flow and fills in the packet's flow columns.  The
body is cut where the source changes subject: `Flow.fresh` is the fresh entry, `Flow.widen`,
`Flow.count`, `Flow.seeFlags` and `Flow.identify` are the updates, in the source's order.

Main definitions:

* `TcpState`, `Flow`, `Flow.state` — a flow and its coarse connection state;
* `Flow.fold` — one packet into one flow;
* `FlowTable`, `FlowTable.observe`, `FlowTable.run` — one packet, and a sequence of them, into the
  table;
* `FlowTable.sortFlows` — the order in which flows are reported.

Main results:

* `FlowTable.observe_of_refuses`, `FlowTable.observe_of_admits` — the two outcomes of a call.
-/

import Mathlib.Data.List.Induction
import PcapRacer.BoundedTable
import PcapRacer.Fingerprint
import PcapRacer.Packet

set_option relaxedAutoImplicit false
set_option autoImplicit false

namespace PcapRacer

open BoundedTable (len Refuses)

/-! ### TCP flags and states -/

def tcpFin : UInt16 := 0x001

def tcpSyn : UInt16 := 0x002

def tcpRst : UInt16 := 0x004

def tcpAck : UInt16 := 0x010

/-- Some bit of `mask` is set in `flags`. -/
def hasFlag (flags mask : UInt16) : Bool := flags &&& mask != 0

/-- Coarse connection state, derived from the flags seen in each direction. -/
inductive TcpState where
  /-- Data seen but no handshake. -/
  | midstream
  /-- SYN sent, nothing back yet. -/
  | synSent
  /-- SYN and SYN-ACK seen. -/
  | established
  /-- At least one side has sent FIN. -/
  | closing
  /-- Both sides sent FIN. -/
  | closed
  /-- Connection was reset. -/
  | reset
  deriving DecidableEq

def TcpState.asStr : TcpState → Text
  | midstream => "partial".toList
  | synSent => "syn-sent".toList
  | established => "established".toList
  | closing => "closing".toList
  | closed => "closed".toList
  | reset => "reset".toList

/-! ### Counters -/

/-- What counters of 64 bits show together for a number: the number, unless they have wrapped. -/
def CountsTo (shown n : ℕ) : Prop := shown % 2 ^ 64 = n % 2 ^ 64 ∧ (n < 2 ^ 64 → shown = n)

theorem CountsTo.refl (n : ℕ) : CountsTo n n := ⟨rfl, fun _ => rfl⟩

theorem CountsTo.succ {x n : ℕ} (h : CountsTo x n) : CountsTo (x + 1) (n + 1) := by
  obtain ⟨hmod, hexact⟩ := h
  refine ⟨by omega, fun hlt => ?_⟩
  rw [hexact (by omega)]

/-- One counter goes on by `k`, the others stay. -/
theorem CountsTo.advance {x x' others n k : ℕ} (h : CountsTo (x + others) n) (hx : CountsTo x' (x + k)) :
    CountsTo (x' + others) (n + k) := by
  obtain ⟨hmod, hexact⟩ := h
  obtain ⟨hmod', hexact'⟩ := hx
  refine ⟨by omega, fun hlt => ?_⟩
  have hn := hexact (by omega)
  have hx := hexact' (by omega)
  omega

/-! ### One flow -/

structure Flow where
  id : ℕ
  key : Tuple
  communityId : Text
  firstTs : Int
  lastTs : Int
  firstFrame : ℕ
  lastFrame : ℕ
  packetsC2s : UInt64 := 0
  packetsS2c : UInt64 := 0
  bytesC2s : UInt64 := 0
  bytesS2c : UInt64 := 0
  tcpFlagsC2s : UInt16 := 0
  tcpFlagsS2c : UInt16 := 0
  synCount : UInt32 := 0
  finCount : UInt32 := 0
  rstCount : UInt32 := 0
  finC2s : Bool := false
  finS2c : Bool := false
  synC2s : Bool := false
  synackS2c : Bool := false
  sawReset : Bool := false
  service : Option Text := none
  sni : Option Text := none
  httpHost : Option Text := none
  dnsQname : Option Text := none
  ja3 : Option Text := none
  ja3s : Option Text := none
  ja4 : Option Text := none
  deriving DecidableEq

namespace Flow

def state (f : Flow) : TcpState :=
  if f.key.proto ≠ 6 then .midstream
  else if f.sawReset then .reset
  else if f.finC2s && f.finS2c then .closed
  else if f.finC2s || f.finS2c then .closing
  else if f.synC2s && f.synackS2c then .established
  else if f.synC2s then .synSent
  else .midstream

/-- The seed used for Community ID. -/
def communityIdSeed : UInt16 := 0

/-- A flow that has seen nothing yet. -/
def fresh [Hashes] (id : ℕ) (key : Tuple) (ts : Int) (frame : ℕ) : Flow :=
  { id, key,
    communityId := PcapRacer.communityId key.srcIp key.dstIp key.srcPort key.dstPort key.proto
      communityIdSeed,
    firstTs := ts, lastTs := ts, firstFrame := frame, lastFrame := frame }

/-- Timestamps can move backwards, so widen the interval rather than assuming monotonic
arrival. -/
def widen (f : Flow) (ts : Int) (frame : ℕ) : Flow :=
  { f with firstTs := min f.firstTs ts, lastTs := max f.lastTs ts,
           firstFrame := min f.firstFrame frame, lastFrame := max f.lastFrame frame }

/-- Count one packet in its direction. -/
def count (f : Flow) (forward : Bool) (len : UInt64) : Flow :=
  if forward then { f with packetsC2s := f.packetsC2s + 1, bytesC2s := f.bytesC2s + len }
  else { f with packetsS2c := f.packetsS2c + 1, bytesS2c := f.bytesS2c + len }

/-- Record the TCP flags of one packet. -/
def seeFlags (f : Flow) (forward : Bool) (flags : UInt16) : Flow :=
  let syn := hasFlag flags tcpSyn
  let ack := hasFlag flags tcpAck
  let fin := hasFlag flags tcpFin
  let rst := hasFlag flags tcpRst
  { f with
    tcpFlagsC2s := if forward then f.tcpFlagsC2s ||| flags else f.tcpFlagsC2s
    tcpFlagsS2c := if forward then f.tcpFlagsS2c else f.tcpFlagsS2c ||| flags
    synCount := if syn then f.synCount + 1 else f.synCount
    synC2s := f.synC2s || (syn && forward && !ack)
    synackS2c := f.synackS2c || (syn && !forward && ack)
    finCount := if fin then f.finCount + 1 else f.finCount
    finC2s := f.finC2s || (fin && forward)
    finS2c := f.finS2c || (fin && !forward)
    rstCount := if rst then f.rstCount + 1 else f.rstCount
    sawReset := f.sawReset || rst }

/-- Identifying details are recorded once, from the first packet that carried them. -/
def takeFirst (slot v : Option Text) : Option Text := slot.or v

/-- Prefer the most specific layer seen anywhere in the flow. -/
def takeService (service highestLayer : Option Text) : Option Text :=
  match highestLayer with
  | none => service
  | some h =>
      if service = none ∨ service = some "tcp".toList ∨ service = some "udp".toList then some h
      else service

/-- Lift the identifying details of a packet. -/
def identify (f : Flow) (pkt : Packet) : Flow :=
  { f with
    sni := takeFirst f.sni pkt.app.tls.tlsSni
    httpHost := takeFirst f.httpHost pkt.app.http.httpHost
    dnsQname := takeFirst f.dnsQname pkt.app.dns.dnsQname
    ja3 := takeFirst f.ja3 pkt.app.tls.ja3
    ja3s := takeFirst f.ja3s pkt.app.tls.ja3s
    ja4 := takeFirst f.ja4 pkt.app.tls.ja4
    service := takeService f.service pkt.frame.highestLayer }

/-- One packet into one flow. -/
def fold (f : Flow) (forward : Bool) (pkt : Packet) (ts : Int) (frame : ℕ) (len : UInt64) : Flow :=
  let counted := (f.widen ts frame).count forward len
  let flagged := match pkt.transport.tcpFlags with
    | some flags => counted.seeFlags forward flags
    | none => counted
  flagged.identify pkt

/-- The order in which flows are reported: by first frame, then by id. -/
def Before (f g : Flow) : Prop :=
  f.firstFrame < g.firstFrame ∨ (f.firstFrame = g.firstFrame ∧ f.id ≤ g.id)

instance : DecidableRel Before := fun _ _ => inferInstanceAs (Decidable (_ ∨ _))

/-- Packets in both directions, as the counters show them. -/
def packets (f : Flow) : ℕ := f.packetsC2s.toNat + f.packetsS2c.toNat

/-- Bytes in both directions, as the counters show them. -/
def bytes (f : Flow) : ℕ := f.bytesC2s.toNat + f.bytesS2c.toNat

/-! ### What folding a packet does -/

section Fold

variable (f : Flow) (forward : Bool) (pkt : Packet) (ts : Int) (frame : ℕ) (len : UInt64)

@[simp] theorem fold_id : (f.fold forward pkt ts frame len).id = f.id := by
  unfold fold
  cases pkt.transport.tcpFlags <;> cases forward <;> rfl

@[simp] theorem fold_key : (f.fold forward pkt ts frame len).key = f.key := by
  unfold fold
  cases pkt.transport.tcpFlags <;> cases forward <;> rfl

@[simp] theorem fold_communityId :
    (f.fold forward pkt ts frame len).communityId = f.communityId := by
  unfold fold
  cases pkt.transport.tcpFlags <;> cases forward <;> rfl

@[simp] theorem fold_firstTs :
    (f.fold forward pkt ts frame len).firstTs = min f.firstTs ts := by
  unfold fold
  cases pkt.transport.tcpFlags <;> cases forward <;> rfl

@[simp] theorem fold_lastTs : (f.fold forward pkt ts frame len).lastTs = max f.lastTs ts := by
  unfold fold
  cases pkt.transport.tcpFlags <;> cases forward <;> rfl

@[simp] theorem fold_firstFrame :
    (f.fold forward pkt ts frame len).firstFrame = min f.firstFrame frame := by
  unfold fold
  cases pkt.transport.tcpFlags <;> cases forward <;> rfl

@[simp] theorem fold_lastFrame :
    (f.fold forward pkt ts frame len).lastFrame = max f.lastFrame frame := by
  unfold fold
  cases pkt.transport.tcpFlags <;> cases forward <;> rfl

theorem fold_packets : CountsTo (f.fold forward pkt ts frame len).packets (f.packets + 1) := by
  have hone : (1 : UInt64).toNat = 1 := rfl
  unfold fold packets CountsTo
  cases pkt.transport.tcpFlags <;> cases forward <;>
    simp only [identify, seeFlags, count, widen, if_true, if_false, Bool.false_eq_true,
      UInt64.toNat_add, hone] <;> omega

theorem fold_bytes : CountsTo (f.fold forward pkt ts frame len).bytes (f.bytes + len.toNat) := by
  unfold fold bytes CountsTo
  cases pkt.transport.tcpFlags <;> cases forward <;>
    simp only [identify, seeFlags, count, widen, if_true, if_false, Bool.false_eq_true,
      UInt64.toNat_add] <;> omega

end Fold

end Flow

/-! ### The table -/

structure FlowTable where
  flows : AList fun _ : Tuple => Flow
  nextId : ℕ
  /-- Packets that did not open a flow because the table was at its cap. -/
  evicted : ℕ
  maxFlows : ℕ

/-- One call of `FlowTable.observe`. -/
structure Observation where
  tuple : Tuple
  pkt : Packet
  ts : Int
  frame : ℕ
  len : UInt64

/-- How a packet's direction is written. -/
def directionName (forward : Bool) : Text := if forward then "c2s".toList else "s2c".toList

namespace FlowTable

def new (maxFlows : ℕ) : FlowTable := { flows := ∅, nextId := 1, evicted := 0, maxFlows }

section Observe

variable [Hashes]

/-- The flow a packet of the conversation `key` is folded into. -/
def entry (t : FlowTable) (key : Tuple) (ts : Int) (frame : ℕ) : Flow :=
  (t.flows.lookup key).getD (Flow.fresh t.nextId key ts frame)

/-- Fold a packet into its flow, and fill in its `flow_id`, `community_id` and `direction`
columns. -/
def observe (t : FlowTable) (tuple : Tuple) (pkt : Packet) (ts : Int) (frame : ℕ) (len : UInt64) :
    FlowTable × Packet :=
  let (key, forward) := tuple.normalized
  if Refuses t.maxFlows t.flows key then ({ t with evicted := t.evicted + 1 }, pkt)
  else
    let entry := t.entry key ts frame
    let nextId := if entry.id = t.nextId then t.nextId + 1 else t.nextId
    let entry := entry.fold forward pkt ts frame len
    ({ t with flows := t.flows.insert key entry, nextId },
      { pkt with
        flow := { flowId := some entry.id, communityId := some entry.communityId,
                  direction := some (directionName forward) } })

/-- One call. -/
def step (t : FlowTable) (o : Observation) : FlowTable × Packet :=
  t.observe o.tuple o.pkt o.ts o.frame o.len

/-- The table after a sequence of calls. -/
def run (t : FlowTable) (obs : List Observation) : FlowTable :=
  obs.foldl (fun t o => (t.step o).1) t

end Observe

/-- The flows of the table, in some order. -/
def values (t : FlowTable) : List Flow := BoundedTable.values t.flows

/-- Flows in ascending first-seen order.  The argument is the order in which the table lists
them. -/
def sortFlows (flows : List Flow) : List Flow := flows.insertionSort Flow.Before

/-! ### What a call does -/

section Observe

variable [Hashes]

/-- The flow of the packet after a call that is not refused. -/
def folded (t : FlowTable) (o : Observation) : Flow :=
  (t.entry o.tuple.key o.ts o.frame).fold o.tuple.normalized.2 o.pkt o.ts o.frame o.len

theorem step_of_refuses {t : FlowTable} {o : Observation}
    (h : Refuses t.maxFlows t.flows o.tuple.key) :
    t.step o = ({ t with evicted := t.evicted + 1 }, o.pkt) := by
  rw [step, observe]
  exact if_pos h

theorem step_of_admits {t : FlowTable} {o : Observation}
    (h : ¬ Refuses t.maxFlows t.flows o.tuple.key) :
    t.step o =
      ({ t with
          flows := t.flows.insert o.tuple.key (t.folded o)
          nextId := if (t.entry o.tuple.key o.ts o.frame).id = t.nextId then t.nextId + 1
            else t.nextId },
        { o.pkt with
          flow := { flowId := some (t.folded o).id,
                    communityId := some (t.folded o).communityId,
                    direction := some (directionName o.tuple.normalized.2) } }) := by
  rw [step, observe]
  exact if_neg h

theorem step_flows_of_admits {t : FlowTable} {o : Observation}
    (h : ¬ Refuses t.maxFlows t.flows o.tuple.key) :
    (t.step o).1.flows = t.flows.insert o.tuple.key (t.folded o) := by
  rw [step_of_admits h]

/-- What lookups find after a call that is not refused. -/
theorem lookup_step {t : FlowTable} {o : Observation}
    (h : ¬ Refuses t.maxFlows t.flows o.tuple.key) (k : Tuple) :
    (t.step o).1.flows.lookup k =
      if k = o.tuple.key then some (t.folded o) else t.flows.lookup k := by
  rw [step_flows_of_admits h]
  split
  · next hk => rw [hk, AList.lookup_insert]
  · next hk => exact AList.lookup_insert_ne hk

@[simp] theorem run_nil (t : FlowTable) : t.run [] = t := rfl

theorem run_concat (t : FlowTable) (obs : List Observation) (o : Observation) :
    t.run (obs ++ [o]) = ((t.run obs).step o).1 := by
  rw [run, List.foldl_append]
  rfl

@[simp] theorem step_maxFlows (t : FlowTable) (o : Observation) :
    (t.step o).1.maxFlows = t.maxFlows := by
  by_cases h : Refuses t.maxFlows t.flows o.tuple.key
  · rw [step_of_refuses h]
  · rw [step_of_admits h]

@[simp] theorem run_maxFlows (t : FlowTable) (obs : List Observation) :
    (t.run obs).maxFlows = t.maxFlows := by
  induction obs using List.reverseRecOn with
  | nil => rfl
  | append_singleton obs o ih => rw [run_concat, step_maxFlows, ih]

end Observe

end FlowTable

end PcapRacer
