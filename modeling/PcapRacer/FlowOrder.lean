/-
**Flow aggregation does not depend on the order of the packets.**

Captures are routinely reordered across interfaces.  What a flow counts is joined packet by packet
with operations that commute: least and greatest, sums, bitwise or, disjunction.  As long as every
conversation has room in the table, two orders of the same packets leave the same totals, and the
same connection state, under every key.

Main definitions:

* `Totals`, `Flow.totals` — what a flow counts;
* `Totals.of`, `Totals.join` — the totals of one packet, and of two groups of packets;
* `FlowTable.seen` — the totals of the packets of one conversation.

Main results:

* `Flow.fold_totals` — folding a packet in joins its totals;
* `FlowTable.lookup_run_totals` — the totals of a flow are those of its packets;
* `FlowTable.run_order_independent` — **any two orders agree**.
-/

import Mathlib.Data.List.Dedup
import PcapRacer.FlowInv
import PcapRacer.FlowState

set_option relaxedAutoImplicit false
set_option autoImplicit false

namespace PcapRacer

open BoundedTable (len Refuses)

/-! ### Totals -/

/-- What a flow counts. -/
@[ext] structure Totals where
  firstTs : Int
  lastTs : Int
  firstFrame : ℕ
  lastFrame : ℕ
  packetsC2s : UInt64
  packetsS2c : UInt64
  bytesC2s : UInt64
  bytesS2c : UInt64
  tcpFlagsC2s : UInt16
  tcpFlagsS2c : UInt16
  synCount : UInt32
  finCount : UInt32
  rstCount : UInt32
  finC2s : Bool
  finS2c : Bool
  synC2s : Bool
  synackS2c : Bool
  sawReset : Bool
  deriving DecidableEq

def Flow.totals (f : Flow) : Totals :=
  { firstTs := f.firstTs, lastTs := f.lastTs, firstFrame := f.firstFrame, lastFrame := f.lastFrame,
    packetsC2s := f.packetsC2s, packetsS2c := f.packetsS2c, bytesC2s := f.bytesC2s,
    bytesS2c := f.bytesS2c, tcpFlagsC2s := f.tcpFlagsC2s, tcpFlagsS2c := f.tcpFlagsS2c,
    synCount := f.synCount, finCount := f.finCount, rstCount := f.rstCount, finC2s := f.finC2s,
    finS2c := f.finS2c, synC2s := f.synC2s, synackS2c := f.synackS2c, sawReset := f.sawReset }

namespace Totals

/-- The totals of one packet. -/
def of (o : Observation) : Totals :=
  { firstTs := o.ts, lastTs := o.ts, firstFrame := o.frame, lastFrame := o.frame
    packetsC2s := if o.forward then 1 else 0
    packetsS2c := if o.forward then 0 else 1
    bytesC2s := if o.forward then o.len else 0
    bytesS2c := if o.forward then 0 else o.len
    tcpFlagsC2s := if o.forward then o.flags else 0
    tcpFlagsS2c := if o.forward then 0 else o.flags
    synCount := if o.syn then 1 else 0
    finCount := if o.fin then 1 else 0
    rstCount := if o.rst then 1 else 0
    finC2s := o.forward && o.fin
    finS2c := !o.forward && o.fin
    synC2s := o.forward && o.bareSyn
    synackS2c := !o.forward && o.synAck
    sawReset := o.rst }

/-- The totals of two groups of packets. -/
def join (a b : Totals) : Totals :=
  { firstTs := min a.firstTs b.firstTs, lastTs := max a.lastTs b.lastTs
    firstFrame := min a.firstFrame b.firstFrame, lastFrame := max a.lastFrame b.lastFrame
    packetsC2s := a.packetsC2s + b.packetsC2s, packetsS2c := a.packetsS2c + b.packetsS2c
    bytesC2s := a.bytesC2s + b.bytesC2s, bytesS2c := a.bytesS2c + b.bytesS2c
    tcpFlagsC2s := a.tcpFlagsC2s ||| b.tcpFlagsC2s, tcpFlagsS2c := a.tcpFlagsS2c ||| b.tcpFlagsS2c
    synCount := a.synCount + b.synCount, finCount := a.finCount + b.finCount
    rstCount := a.rstCount + b.rstCount
    finC2s := a.finC2s || b.finC2s, finS2c := a.finS2c || b.finS2c
    synC2s := a.synC2s || b.synC2s, synackS2c := a.synackS2c || b.synackS2c
    sawReset := a.sawReset || b.sawReset }

theorem join_comm (a b : Totals) : a.join b = b.join a := by
  ext1 <;> simp only [join]
  · exact min_comm _ _
  · exact max_comm _ _
  · exact min_comm _ _
  · exact max_comm _ _
  · exact UInt64.add_comm _ _
  · exact UInt64.add_comm _ _
  · exact UInt64.add_comm _ _
  · exact UInt64.add_comm _ _
  · exact UInt16.or_comm _ _
  · exact UInt16.or_comm _ _
  · exact UInt32.add_comm _ _
  · exact UInt32.add_comm _ _
  · exact UInt32.add_comm _ _
  all_goals exact Bool.or_comm _ _

theorem join_assoc (a b c : Totals) : (a.join b).join c = a.join (b.join c) := by
  ext1 <;> simp only [join]
  · exact min_assoc _ _ _
  · exact max_assoc _ _ _
  · exact min_assoc _ _ _
  · exact max_assoc _ _ _
  · exact UInt64.add_assoc _ _ _
  · exact UInt64.add_assoc _ _ _
  · exact UInt64.add_assoc _ _ _
  · exact UInt64.add_assoc _ _ _
  · exact UInt16.or_assoc _ _ _
  · exact UInt16.or_assoc _ _ _
  · exact UInt32.add_assoc _ _ _
  · exact UInt32.add_assoc _ _ _
  · exact UInt32.add_assoc _ _ _
  all_goals exact Bool.or_assoc _ _ _

theorem join_right_comm (a b c : Totals) : (a.join b).join c = (a.join c).join b := by
  rw [join_assoc, join_comm b c, ← join_assoc]

/-- The connection state that the totals of a conversation show. -/
def state (proto : UInt8) (t : Totals) : TcpState :=
  if proto ≠ 6 then .midstream
  else if t.sawReset then .reset
  else if t.finC2s && t.finS2c then .closed
  else if t.finC2s || t.finS2c then .closing
  else if t.synC2s && t.synackS2c then .established
  else if t.synC2s then .synSent
  else .midstream

end Totals

namespace Flow

theorem state_eq (f : Flow) : f.state = f.totals.state f.key.proto := rfl

/-- **Folding a packet in joins its totals.** -/
theorem fold_totals (f : Flow) (o : Observation) :
    (f.fold o.forward o.pkt o.ts o.frame o.len).totals = f.totals.join (.of o) := by
  rw [fold_flags]
  have hadd : ∀ (n : UInt32) (b : Bool), (if b then n + 1 else n) = n + if b then 1 else 0 := by
    intro n b
    cases b <;> simp
  cases hforward : o.forward
  all_goals
    ext1 <;> simp [totals, Totals.join, Totals.of, widen, count, seeFlags, identify, hforward, hadd,
      Observation.bareSyn, Observation.synAck, Observation.syn, Observation.fin, Observation.rst]
  all_goals rfl

/-- A flow that is opened by a packet starts with its totals. -/
theorem fresh_fold_totals [Hashes] (id : ℕ) (o : Observation) :
    ((fresh id o.tuple.key o.ts o.frame).fold o.forward o.pkt o.ts o.frame o.len).totals =
      .of o := by
  rw [fold_totals]
  ext1 <;> simp [Totals.join, Totals.of, totals, fresh]

end Flow

/-! ### Tables -/

namespace FlowTable

/-- The packets of a conversation. -/
def packetsOf (key : Tuple) (obs : List Observation) : List Observation :=
  obs.filter fun o => o.tuple.key = key

/-- The totals of some packets; there are none without a packet. -/
def seen (obs : List Observation) : Option Totals :=
  obs.foldl (fun t o => some (t.elim (.of o) fun t => t.join (.of o))) none

theorem seen_concat (obs : List Observation) (o : Observation) :
    seen (obs ++ [o]) = some ((seen obs).elim (.of o) fun t => t.join (.of o)) := by
  simp [seen]

/-- **The totals of some packets do not depend on their order.** -/
theorem seen_perm {obs obs' : List Observation} (h : obs.Perm obs') : seen obs = seen obs' := by
  refine h.foldl_eq' (fun a _ b _ t => ?_) none
  cases t with
  | none => simp [Totals.join_comm]
  | some t => simp [Totals.join_right_comm t]

/-- The conversations of some packets, each once. -/
def conversations (obs : List Observation) : List Tuple :=
  (obs.map fun o => o.tuple.key).dedup

theorem conversations_length_le_of_initial {obs obs' : List Observation} (h : obs <+: obs') :
    (conversations obs).length ≤ (conversations obs').length := by
  have hsub : conversations obs ⊆ conversations obs' := by
    intro k hk
    rw [conversations, List.mem_dedup] at hk ⊢
    exact (h.map _).subset hk
  exact (List.subperm_of_subset (List.nodup_dedup _) hsub).length_le

section Run

variable [Hashes]

/-- Every flow belongs to a conversation of the run. -/
theorem mem_conversations_of_mem {maxFlows : ℕ} {obs : List Observation} {key : Tuple}
    (h : key ∈ ((new maxFlows).run obs).flows) : key ∈ conversations obs := by
  induction obs using List.reverseRecOn with
  | nil => exact absurd h (AList.notMem_empty _)
  | append_singleton obs o ih =>
      rw [conversations, List.mem_dedup, List.map_append, List.mem_append]
      rw [run_concat] at h
      by_cases hr : Refuses ((new maxFlows).run obs).maxFlows ((new maxFlows).run obs).flows
          o.tuple.key
      · rw [step_of_refuses hr] at h
        exact .inl (List.mem_dedup.mp (ih h))
      · rw [step_flows_of_admits hr, AList.mem_insert] at h
        rcases h with rfl | h
        · exact .inr (by simp)
        · exact .inl (List.mem_dedup.mp (ih h))

/-- A table with room for all conversations refuses none. -/
theorem not_refuses_of_fits {maxFlows : ℕ} {obs : List Observation} {o : Observation}
    (hfits : (conversations (obs ++ [o])).length ≤ maxFlows) :
    ¬ Refuses ((new maxFlows).run obs).maxFlows ((new maxFlows).run obs).flows o.tuple.key := by
  rintro ⟨hnew, hfull⟩
  rw [run_maxFlows] at hfull
  let t := ((new maxFlows).run obs).flows
  -- the keys of the table and the new one are distinct conversations
  have hnodup : (o.tuple.key :: t.keys).Nodup :=
    List.nodup_cons.mpr ⟨fun hk => hnew (AList.mem_keys.mpr hk), t.nodupKeys⟩
  have hsub : o.tuple.key :: t.keys ⊆ conversations (obs ++ [o]) := by
    intro k hk
    rw [conversations, List.mem_dedup, List.map_append, List.mem_append]
    rcases List.mem_cons.mp hk with rfl | hk
    · exact .inr (by simp)
    · exact .inl (List.mem_dedup.mp (mem_conversations_of_mem (AList.mem_keys.mpr hk)))
  have hlen := (List.subperm_of_subset hnodup hsub).length_le
  change maxFlows ≤ t.keys.length at hfull
  rw [List.length_cons] at hlen
  omega

/-- **The totals of a flow are those of its packets.** -/
theorem lookup_run_totals {maxFlows : ℕ} {obs : List Observation}
    (hfits : (conversations obs).length ≤ maxFlows) (key : Tuple) :
    (((new maxFlows).run obs).flows.lookup key).map Flow.totals = seen (packetsOf key obs) := by
  induction obs using List.reverseRecOn with
  | nil => rfl
  | append_singleton obs o ih =>
      have hprev := ih ((conversations_length_le_of_initial (List.prefix_append _ _)).trans hfits)
      rw [run_concat, lookup_step (not_refuses_of_fits hfits)]
      by_cases hk : key = o.tuple.key
      · subst hk
        have hmine : packetsOf o.tuple.key (obs ++ [o]) = packetsOf o.tuple.key obs ++ [o] := by
          simp [packetsOf]
        rw [if_pos rfl, hmine, seen_concat, ← hprev, Option.map_some, folded, entry]
        cases ((new maxFlows).run obs).flows.lookup o.tuple.key with
        | none => exact congrArg some (Flow.fresh_fold_totals _ o)
        | some f => exact congrArg some (f.fold_totals o)
      · have hother : packetsOf key (obs ++ [o]) = packetsOf key obs := by
          simp [packetsOf, Ne.symm hk]
        rw [if_neg hk, hother, hprev]

/-- The state of a flow is read off its totals. -/
theorem lookup_run_state (maxFlows : ℕ) (obs : List Observation) (key : Tuple) :
    (((new maxFlows).run obs).flows.lookup key).map Flow.state =
      ((((new maxFlows).run obs).flows.lookup key).map Flow.totals).map
        (Totals.state key.proto) := by
  cases hf : ((new maxFlows).run obs).flows.lookup key with
  | none => rfl
  | some f =>
      have hkey : f.key = key := ((good_run maxFlows obs).keys key f hf).2
      rw [Option.map_some, Option.map_some, Option.map_some, Flow.state_eq, hkey]

/-- **Flow aggregation does not depend on the order of the packets.**  Whenever the conversations of
some packets fit in the table, any two orders of the packets leave, under every key, the same counts,
the same intervals, the same flags and the same connection state. -/
theorem run_order_independent (maxFlows : ℕ) (obs obs' : List Observation)
    (hperm : obs.Perm obs') (hfits : (conversations obs).length ≤ maxFlows) (key : Tuple) :
    (((new maxFlows).run obs).flows.lookup key).map Flow.totals =
        (((new maxFlows).run obs').flows.lookup key).map Flow.totals ∧
      (((new maxFlows).run obs).flows.lookup key).map Flow.state =
        (((new maxFlows).run obs').flows.lookup key).map Flow.state := by
  have hfits' : (conversations obs').length ≤ maxFlows := by
    rwa [conversations, ← (hperm.map _).dedup.length_eq]
  have htotals : (((new maxFlows).run obs).flows.lookup key).map Flow.totals =
      (((new maxFlows).run obs').flows.lookup key).map Flow.totals := by
    rw [lookup_run_totals hfits, lookup_run_totals hfits']
    exact seen_perm (hperm.filter _)
  refine ⟨htotals, ?_⟩
  rw [lookup_run_state, lookup_run_state, htotals]

end Run

/-- A handshake that was captured backwards, in a table for one flow. -/
theorem run_order_independent_handshake :
    (conversations (handshakeOf upward)).length ≤ 1 ∧ ∀ _ : Hashes,
      (((new 1).run (handshakeOf upward)).flows.lookup upward.key).map Flow.totals =
          (((new 1).run (handshakeOf upward).reverse).flows.lookup upward.key).map Flow.totals ∧
        (((new 1).run (handshakeOf upward)).flows.lookup upward.key).map Flow.state =
          (((new 1).run (handshakeOf upward).reverse).flows.lookup upward.key).map Flow.state :=
  ⟨by decide, fun _ => run_order_independent 1 _ _ (List.reverse_perm _).symm (by decide) _⟩

end FlowTable

end PcapRacer
