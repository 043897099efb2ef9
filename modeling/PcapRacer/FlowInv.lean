/-
**What holds of every flow table.**

The invariant of a run of `FlowTable.observe` calls on a fresh table: stored keys are normal forms,
flow ids are `1, …, len` without repetition, and no packet and no byte is lost between the flows
and the eviction counter.

`FlowTable.Good` states it, indexed by the calls made so far and by those that were not refused.
`FlowTable.Good.step` is the step, `FlowTable.good_run` the run.  When frame numbers increase, ids
and first frames are ordered alike (`FlowTable.InOrder`), so the report lists the flows by id
whatever order the table keeps them in.

Main results:

* `FlowTable.good_run` — the invariant of every run;
* `FlowTable.flowId_eq_iff` — one flow id per conversation;
* `FlowTable.sortFlows_ids` — the report is in id order;
* `FlowTable.run_accounts_for_every_packet` — **all of it, for every run**.
-/

import Mathlib.Algebra.BigOperators.Group.List.Basic
import PcapRacer.Flow

set_option relaxedAutoImplicit false
set_option autoImplicit false

namespace PcapRacer

open BoundedTable (len Refuses)

namespace FlowTable

/-! ### The invariant -/

/-- The calls `obs` have been made and `adm` of them were not refused. -/
structure Good (obs adm : List Observation) (t : FlowTable) : Prop where
  keys : ∀ k f, t.flows.lookup k = some f → k.key = k ∧ f.key = k
  ids : (t.values.map Flow.id).Perm (List.range' 1 (len t.flows))
  nextId : t.nextId = len t.flows + 1
  len_le : len t.flows ≤ t.maxFlows
  packets : CountsTo ((t.values.map Flow.packets).sum + t.evicted) obs.length
  bytes : CountsTo (t.values.map Flow.bytes).sum (adm.map (·.len.toNat)).sum
  interval : ∀ f ∈ t.values, f.firstTs ≤ f.lastTs ∧ f.firstFrame ≤ f.lastFrame

theorem good_new (maxFlows : ℕ) : Good [] [] (new maxFlows) where
  keys k f h := by simp [new] at h
  ids := List.Perm.refl _
  nextId := rfl
  len_le := Nat.zero_le _
  packets := .refl 0
  bytes := .refl 0
  interval f hf := by simp [values, new, BoundedTable.values] at hf

/-- Every id in use is below the next one. -/
theorem Good.id_lt {obs adm : List Observation} {t : FlowTable} (h : Good obs adm t) {f : Flow}
    (hf : f ∈ t.values) : f.id < t.nextId := by
  have := h.ids.mem_iff.1 (List.mem_map_of_mem hf)
  rw [List.mem_range'_1] at this
  have := h.nextId
  omega

/-- Flows with one id are one flow. -/
theorem Good.key_eq_of_id_eq {obs adm : List Observation} {t : FlowTable} (h : Good obs adm t)
    {k k' : Tuple} {f f' : Flow} (hf : t.flows.lookup k = some f)
    (hf' : t.flows.lookup k' = some f') (hid : f.id = f'.id) : k = k' := by
  have hnd : (t.values.map Flow.id).Nodup := h.ids.nodup_iff.2 List.nodup_range'
  have heq : f = f' := List.inj_on_of_nodup_map hnd (BoundedTable.mem_values_iff.2 ⟨k, hf⟩)
    (BoundedTable.mem_values_iff.2 ⟨k', hf'⟩) hid
  rw [← (h.keys k f hf).2, ← (h.keys k' f' hf').2, heq]

/-! ### The order of the report -/

/-- Ids and first frames are ordered alike, and every first frame has been seen. -/
structure InOrder (obs : List Observation) (t : FlowTable) : Prop where
  seen : ∀ f ∈ t.values, ∃ o ∈ obs, f.firstFrame = o.frame
  mono : ∀ f ∈ t.values, ∀ g ∈ t.values, f.id < g.id → f.firstFrame < g.firstFrame

instance : IsTrans Flow Flow.Before where
  trans f g h hfg hgh := by
    simp only [Flow.Before] at hfg hgh ⊢
    omega

instance : Std.Total Flow.Before where
  total f g := by
    simp only [Flow.Before]
    omega

/-- **The report lists the flows in id order**, whatever order the table keeps them in. -/
theorem sortFlows_ids {obs adm : List Observation} {t : FlowTable} (hg : Good obs adm t)
    (h : InOrder obs t) {flows : List Flow} (hperm : flows.Perm t.values) :
    (sortFlows flows).map Flow.id = List.range' 1 (len t.flows) := by
  have hsort : (sortFlows flows).Perm t.values := (List.perm_insertionSort _ _).trans hperm
  refine List.Perm.eq_of_pairwise' (r := (· ≤ ·)) ?_ ?_ ((hsort.map Flow.id).trans hg.ids)
  · rw [List.pairwise_map]
    refine (List.pairwise_insertionSort Flow.Before flows).imp_of_mem ?_
    intro f g hf hg' hfg
    refine Nat.le_of_not_lt fun hlt => ?_
    have := h.mono g (hsort.mem_iff.1 hg') f (hsort.mem_iff.1 hf) hlt
    simp only [Flow.Before] at hfg
    omega
  · exact List.pairwise_le_range'

/-! ### Steps and runs -/

variable [Hashes]

/-- The calls of a run that were not refused, in order. -/
def admitted (t : FlowTable) : List Observation → List Observation
  | [] => []
  | o :: obs =>
      if Refuses t.maxFlows t.flows o.tuple.key then admitted (t.step o).1 obs
      else o :: admitted (t.step o).1 obs

theorem run_cons (t : FlowTable) (o : Observation) (obs : List Observation) :
    t.run (o :: obs) = (t.step o).1.run obs := rfl

theorem admitted_concat (t : FlowTable) (obs : List Observation) (o : Observation) :
    t.admitted (obs ++ [o]) = t.admitted obs ++
      if Refuses (t.run obs).maxFlows (t.run obs).flows o.tuple.key then [] else [o] := by
  induction obs generalizing t with
  | nil =>
      rw [List.nil_append, admitted, admitted, run_nil]
      rfl
  | cons x obs ih =>
      rw [List.cons_append, admitted, admitted, run_cons, ih]
      split <;> rfl

/-- A call that is not refused, in one of two ways: it updates the flow of its key, or it opens
one under the next id. -/
theorem Good.step_cases {obs adm : List Observation} {t : FlowTable} (h : Good obs adm t)
    {o : Observation} (hr : ¬ Refuses t.maxFlows t.flows o.tuple.key) :
    (∃ g rest, t.flows.lookup o.tuple.key = some g ∧ t.values.Perm (g :: rest) ∧
        (t.step o).1.values =
          g.fold o.tuple.normalized.2 o.pkt o.ts o.frame o.len :: rest ∧
        len (t.step o).1.flows = len t.flows ∧ (t.step o).1.nextId = t.nextId) ∨
      (t.flows.lookup o.tuple.key = none ∧
        (t.step o).1.values =
          (Flow.fresh t.nextId o.tuple.key o.ts o.frame).fold o.tuple.normalized.2 o.pkt o.ts
            o.frame o.len :: t.values ∧
        len (t.step o).1.flows = len t.flows + 1 ∧ (t.step o).1.nextId = t.nextId + 1) := by
  rw [step_of_admits hr]
  cases hl : t.flows.lookup o.tuple.key with
  | some g =>
      have hent : t.entry o.tuple.key o.ts o.frame = g := by rw [entry, hl]; rfl
      have hg : g ∈ t.values := BoundedTable.mem_values_iff.2 ⟨_, hl⟩
      have hid := h.id_lt hg
      refine Or.inl ⟨g, BoundedTable.values (t.flows.erase o.tuple.key), rfl,
        BoundedTable.values_perm_of_lookup hl, ?_, ?_, ?_⟩
      · rw [values, BoundedTable.values_insert, folded, hent]
      · rw [BoundedTable.len_insert, if_pos (BoundedTable.mem_of_lookup hl)]
      · rw [hent, if_neg (by omega)]
  | none =>
      have hent : t.entry o.tuple.key o.ts o.frame =
          Flow.fresh t.nextId o.tuple.key o.ts o.frame := by rw [entry, hl]; rfl
      have hnew : o.tuple.key ∉ t.flows := AList.lookup_eq_none.1 hl
      refine Or.inr ⟨rfl, ?_, ?_, ?_⟩
      · rw [values, BoundedTable.values_insert, folded, hent,
          BoundedTable.values_erase_of_not_mem hnew]
        rfl
      · rw [BoundedTable.len_insert, if_neg hnew]
      · rw [hent]
        exact if_pos rfl

theorem entry_key {t : FlowTable} (h : ∀ k f, t.flows.lookup k = some f → k.key = k ∧ f.key = k)
    (key : Tuple) (ts : Int) (frame : ℕ) : (t.entry key ts frame).key = key := by
  unfold entry
  cases hl : t.flows.lookup key with
  | none => rfl
  | some f => exact (h key f hl).2

/-- **One call keeps the invariant.** -/
theorem Good.step {obs adm : List Observation} {t : FlowTable} (h : Good obs adm t)
    (o : Observation) :
    Good (obs ++ [o]) (adm ++ if Refuses t.maxFlows t.flows o.tuple.key then [] else [o])
      (t.step o).1 := by
  by_cases hr : Refuses t.maxFlows t.flows o.tuple.key
  · rw [if_pos hr, List.append_nil, step_of_refuses hr]
    have hpackets : CountsTo ((t.values.map Flow.packets).sum + t.evicted + 1) (obs ++ [o]).length := by
      rw [List.length_append]
      exact h.packets.succ
    exact ⟨h.keys, h.ids, h.nextId, h.len_le, hpackets, h.bytes, h.interval⟩
  · have hkeys : ∀ k f, (t.step o).1.flows.lookup k = some f → k.key = k ∧ f.key = k := by
      intro k f hk
      rw [lookup_step hr] at hk
      split at hk
      · next heq =>
          rw [heq, ← Option.some_inj.1 hk, folded, Flow.fold_key, entry_key h.keys]
          exact ⟨Tuple.key_key _, rfl⟩
      · exact h.keys k f hk
    have hmax : (t.step o).1.maxFlows = t.maxFlows := step_maxFlows t o
    have hevicted : (t.step o).1.evicted = t.evicted := by rw [step_of_admits hr]
    have hlen : len (t.step o).1.flows ≤ t.maxFlows := by
      rw [step_of_admits hr]
      exact BoundedTable.len_insert_le hr h.len_le
    rw [if_neg hr]
    rcases h.step_cases hr with ⟨g, rest, hl, hperm, hvals, hlen', hnext⟩ | ⟨hl, hvals, hlen', hnext⟩
    · refine ⟨hkeys, ?_, by rw [hnext, hlen', h.nextId], by rwa [hmax], ?_, ?_, ?_⟩
      · rw [hvals, List.map_cons, Flow.fold_id, hlen']
        exact (hperm.map Flow.id).symm.trans h.ids
      · have hpackets := h.packets
        rw [(hperm.map Flow.packets).sum_eq, List.map_cons, List.sum_cons, Nat.add_assoc] at hpackets
        rw [hvals, hevicted, List.map_cons, List.sum_cons, List.length_append, Nat.add_assoc]
        exact hpackets.advance (Flow.fold_packets ..)
      · have hbytes := h.bytes
        rw [(hperm.map Flow.bytes).sum_eq, List.map_cons, List.sum_cons] at hbytes
        rw [hvals, List.map_cons, List.sum_cons, List.map_append, List.sum_append]
        exact hbytes.advance (Flow.fold_bytes ..)
      · rw [hvals]
        intro f hf
        rcases List.mem_cons.1 hf with rfl | hf
        · have := h.interval g (BoundedTable.mem_values_iff.2 ⟨_, hl⟩)
          simp only [Flow.fold_firstTs, Flow.fold_lastTs, Flow.fold_firstFrame,
            Flow.fold_lastFrame]
          omega
        · exact h.interval f (hperm.mem_iff.2 (List.mem_cons_of_mem _ hf))
    · refine ⟨hkeys, ?_, by rw [hnext, hlen', h.nextId], by rwa [hmax], ?_, ?_, ?_⟩
      · rw [hvals, List.map_cons, Flow.fold_id, hlen', List.range'_concat]
        have hid : (Flow.fresh t.nextId o.tuple.key o.ts o.frame).id = 1 + 1 * len t.flows := by
          have := h.nextId
          simp only [Flow.fresh]
          omega
        rw [hid]
        exact (h.ids.cons _).trans (List.perm_append_singleton _ _).symm
      · have hpackets := h.packets
        rw [← Nat.zero_add (_ + t.evicted)] at hpackets
        rw [hvals, hevicted, List.map_cons, List.sum_cons, List.length_append, Nat.add_assoc]
        exact hpackets.advance (Flow.fold_packets ..)
      · have hbytes := h.bytes
        rw [← Nat.zero_add (t.values.map Flow.bytes).sum] at hbytes
        rw [hvals, List.map_cons, List.sum_cons, List.map_append, List.sum_append]
        exact hbytes.advance (Flow.fold_bytes ..)
      · rw [hvals]
        intro f hf
        rcases List.mem_cons.1 hf with rfl | hf
        · simp only [Flow.fold_firstTs, Flow.fold_lastTs, Flow.fold_firstFrame,
            Flow.fold_lastFrame, Flow.fresh]
          omega
        · exact h.interval f hf

/-- **The invariant of every run of a fresh table.** -/
theorem good_run (maxFlows : ℕ) (obs : List Observation) :
    Good obs ((new maxFlows).admitted obs) ((new maxFlows).run obs) := by
  induction obs using List.reverseRecOn with
  | nil => exact good_new maxFlows
  | append_singleton obs o ih =>
      rw [admitted_concat, run_concat]
      exact ih.step o

/-! ### One flow id per conversation -/

/-- A flow keeps its id. -/
theorem lookup_step_id {t : FlowTable} {k : Tuple} {f : Flow} (h : t.flows.lookup k = some f)
    (o : Observation) : ∃ f', (t.step o).1.flows.lookup k = some f' ∧ f'.id = f.id := by
  by_cases hr : Refuses t.maxFlows t.flows o.tuple.key
  · rw [step_of_refuses hr]
    exact ⟨f, h, rfl⟩
  · rw [lookup_step hr]
    by_cases hk : k = o.tuple.key
    · refine ⟨t.folded o, if_pos hk, ?_⟩
      rw [folded, Flow.fold_id, entry, ← hk, h]
      rfl
    · exact ⟨f, by rw [if_neg hk, h], rfl⟩

theorem lookup_run_id {t : FlowTable} {k : Tuple} {f : Flow} (h : t.flows.lookup k = some f)
    (obs : List Observation) : ∃ f', (t.run obs).flows.lookup k = some f' ∧ f'.id = f.id := by
  induction obs using List.reverseRecOn with
  | nil => exact ⟨f, h, rfl⟩
  | append_singleton obs o ih =>
      obtain ⟨g, hg, hid⟩ := ih
      obtain ⟨f', hf', hid'⟩ := lookup_step_id hg o
      rw [run_concat]
      exact ⟨f', hf', hid'.trans hid⟩

theorem run_append (t : FlowTable) (obs obs' : List Observation) :
    t.run (obs ++ obs') = (t.run obs).run obs' := List.foldl_append

/-- The id a call hands out is the one its flow has in the end. -/
theorem flowId_step (t : FlowTable) (pre post : List Observation) (o : Observation)
    (hr : ¬ Refuses (t.run pre).maxFlows (t.run pre).flows o.tuple.key) :
    ∃ f, (t.run (pre ++ o :: post)).flows.lookup o.tuple.key = some f ∧
      ((t.run pre).step o).2.flow.flowId = some f.id := by
  have hl : ((t.run pre).step o).1.flows.lookup o.tuple.key = some ((t.run pre).folded o) := by
    rw [lookup_step hr, if_pos rfl]
  obtain ⟨f, hf, hid⟩ := lookup_run_id hl post
  refine ⟨f, by rw [run_append, run_cons]; exact hf, ?_⟩
  rw [step_of_admits hr, hid]

/-- Two packets that received a flow id received the same one exactly when they belong to one
conversation. -/
theorem flowId_eq_iff {maxFlows : ℕ} {obs pre pre' post post' : List Observation}
    {o o' : Observation} (heq : obs = pre ++ o :: post) (heq' : obs = pre' ++ o' :: post')
    (hr : ¬ Refuses maxFlows ((new maxFlows).run pre).flows o.tuple.key)
    (hr' : ¬ Refuses maxFlows ((new maxFlows).run pre').flows o'.tuple.key) :
    (((new maxFlows).run pre).step o).2.flow.flowId =
        (((new maxFlows).run pre').step o').2.flow.flowId ↔ o.tuple.key = o'.tuple.key := by
  have hgood := good_run maxFlows obs
  obtain ⟨f, hf, hid⟩ := flowId_step (new maxFlows) pre post o
    (by rwa [run_maxFlows])
  obtain ⟨f', hf', hid'⟩ := flowId_step (new maxFlows) pre' post' o'
    (by rwa [run_maxFlows])
  rw [← heq] at hf
  rw [← heq'] at hf'
  rw [hid, hid', Option.some_inj]
  constructor
  · exact hgood.key_eq_of_id_eq hf hf'
  · intro hk
    rw [hk, hf'] at hf
    rw [Option.some_inj.1 hf]

/-! ### Frames that increase -/

/-- With a later frame, the first frame of a flow stays. -/
theorem InOrder.step {obs adm : List Observation} {t : FlowTable} (h : InOrder obs t)
    (hg : Good obs adm t) (o : Observation) (hlater : ∀ o' ∈ obs, o'.frame < o.frame) :
    InOrder (obs ++ [o]) (t.step o).1 := by
  by_cases hr : Refuses t.maxFlows t.flows o.tuple.key
  · rw [step_of_refuses hr]
    exact ⟨fun f hf => (h.seen f hf).imp fun o' ho' => ⟨List.mem_append_left _ ho'.1, ho'.2⟩,
      h.mono⟩
  · have hlt : ∀ f ∈ t.values, f.firstFrame < o.frame := by
      intro f hf
      obtain ⟨o', ho', hfr⟩ := h.seen f hf
      rw [hfr]
      exact hlater o' ho'
    rcases hg.step_cases hr with ⟨g, rest, hl, hperm, hvals, -, -⟩ | ⟨-, hvals, -, -⟩
    · -- the updated flow keeps its id and its first frame
      have hgm : g ∈ t.values := BoundedTable.mem_values_iff.2 ⟨_, hl⟩
      have hfirst : min g.firstFrame o.frame = g.firstFrame := Nat.min_eq_left
        (Nat.le_of_lt (hlt g hgm))
      have hold : ∀ f ∈ (t.step o).1.values, ∃ f₀ ∈ t.values,
          f.id = f₀.id ∧ f.firstFrame = f₀.firstFrame := by
        rw [hvals]
        intro f hf
        rcases List.mem_cons.1 hf with rfl | hf
        · exact ⟨g, hgm, Flow.fold_id .., by rw [Flow.fold_firstFrame, hfirst]⟩
        · exact ⟨f, hperm.mem_iff.2 (List.mem_cons_of_mem _ hf), rfl, rfl⟩
      refine ⟨fun f hf => ?_, fun f hf g hg hid => ?_⟩
      · obtain ⟨f₀, hf₀, -, hfr⟩ := hold f hf
        obtain ⟨o', ho', hfr'⟩ := h.seen f₀ hf₀
        exact ⟨o', List.mem_append_left _ ho', hfr.trans hfr'⟩
      · obtain ⟨f₀, hf₀, hid₀, hfr₀⟩ := hold f hf
        obtain ⟨g₀, hg₀, hid₁, hfr₁⟩ := hold g hg
        rw [hfr₀, hfr₁]
        exact h.mono f₀ hf₀ g₀ hg₀ (by rw [← hid₀, ← hid₁]; exact hid)
    · -- the new flow has the largest id and the latest first frame
      have hfr : ((Flow.fresh t.nextId o.tuple.key o.ts o.frame).fold o.tuple.normalized.2 o.pkt
          o.ts o.frame o.len).firstFrame = o.frame := by
        rw [Flow.fold_firstFrame]
        exact Nat.min_self _
      have hid : ((Flow.fresh t.nextId o.tuple.key o.ts o.frame).fold o.tuple.normalized.2 o.pkt
          o.ts o.frame o.len).id = t.nextId := Flow.fold_id ..
      refine ⟨fun f hf => ?_, fun f hf g hg' hlt' => ?_⟩
      · rw [hvals] at hf
        rcases List.mem_cons.1 hf with rfl | hf
        · exact ⟨o, by simp, hfr⟩
        · obtain ⟨o', ho', hfr'⟩ := h.seen f hf
          exact ⟨o', List.mem_append_left _ ho', hfr'⟩
      · rw [hvals] at hf hg'
        rcases List.mem_cons.1 hf with rfl | hf <;> rcases List.mem_cons.1 hg' with rfl | hg'
        · exact absurd hlt' (Nat.lt_irrefl _)
        · have := hg.id_lt hg'
          rw [hid] at hlt'
          omega
        · rw [hfr]
          exact hlt f hf
        · exact h.mono f hf g hg' hlt'

theorem inOrder_run (maxFlows : ℕ) (obs : List Observation)
    (hinc : obs.Pairwise fun o o' => o.frame < o'.frame) :
    InOrder obs ((new maxFlows).run obs) := by
  induction obs using List.reverseRecOn with
  | nil => exact ⟨fun f hf => by simp [values, new, BoundedTable.values] at hf,
      fun f hf => by simp [values, new, BoundedTable.values] at hf⟩
  | append_singleton obs o ih =>
      obtain ⟨hpre, -, hlater⟩ := List.pairwise_append.1 hinc
      rw [run_concat]
      exact (ih hpre).step (good_run maxFlows obs) o fun o' ho' => hlater o' ho' o (by simp)

/-! ### Every run -/

/-- **Nothing is lost and no id is used twice.**  In every run of a fresh table: stored keys are
normal forms and are their flows' keys; ids are `1, …, len`, and the next id follows; the table
stays within its capacity; a refused call leaves its packet alone, any other hands out an id, and
two such ids agree exactly when the conversations do; packets and bytes are all accounted for, as
far as counters of 64 bits show them; intervals are intervals; and when frame numbers increase the
report is in id order. -/
theorem run_accounts_for_every_packet (maxFlows : ℕ) (obs : List Observation) :
    (∀ k f, ((new maxFlows).run obs).flows.lookup k = some f →
        k.normalized = (k, true) ∧ f.key = k) ∧
      (((new maxFlows).run obs).values.map Flow.id).Perm
        (List.range' 1 (len ((new maxFlows).run obs).flows)) ∧
      ((new maxFlows).run obs).nextId = len ((new maxFlows).run obs).flows + 1 ∧
      len ((new maxFlows).run obs).flows ≤ maxFlows ∧
      (∀ pre o post, obs = pre ++ o :: post →
        (Refuses maxFlows ((new maxFlows).run pre).flows o.tuple.key →
          (((new maxFlows).run pre).step o).2 = o.pkt) ∧
        (¬ Refuses maxFlows ((new maxFlows).run pre).flows o.tuple.key →
          (((new maxFlows).run pre).step o).2.flow.flowId.isSome)) ∧
      (∀ pre o post pre' o' post', obs = pre ++ o :: post → obs = pre' ++ o' :: post' →
        ¬ Refuses maxFlows ((new maxFlows).run pre).flows o.tuple.key →
        ¬ Refuses maxFlows ((new maxFlows).run pre').flows o'.tuple.key →
        ((((new maxFlows).run pre).step o).2.flow.flowId =
            (((new maxFlows).run pre').step o').2.flow.flowId ↔
          o.tuple.normalized.1 = o'.tuple.normalized.1)) ∧
      CountsTo ((((new maxFlows).run obs).values.map fun f =>
          f.packetsC2s.toNat + f.packetsS2c.toNat).sum + ((new maxFlows).run obs).evicted)
        obs.length ∧
      CountsTo (((new maxFlows).run obs).values.map fun f => f.bytesC2s.toNat + f.bytesS2c.toNat).sum
        (((new maxFlows).admitted obs).map fun o => o.len.toNat).sum ∧
      (∀ f ∈ ((new maxFlows).run obs).values,
        f.firstTs ≤ f.lastTs ∧ f.firstFrame ≤ f.lastFrame) ∧
      ((obs.Pairwise fun o o' => o.frame < o'.frame) →
        ∀ flows, flows.Perm ((new maxFlows).run obs).values →
          (sortFlows flows).map Flow.id =
            List.range' 1 (len ((new maxFlows).run obs).flows)) := by
  have h := good_run maxFlows obs
  refine ⟨fun k f hk => ?_, h.ids, h.nextId, ?_, fun pre o post _ => ⟨fun hr => ?_, fun hr => ?_⟩,
    fun pre o post pre' o' post' heq heq' hr hr' => flowId_eq_iff heq heq' hr hr', h.packets,
    h.bytes, h.interval, fun hinc flows hperm => ?_⟩
  · obtain ⟨hkey, hfk⟩ := h.keys k f hk
    exact ⟨by rw [Tuple.normalized, if_pos (hkey ▸ k.forward_key)], hfk⟩
  · simpa [new] using h.len_le
  · rw [step_of_refuses (by rwa [run_maxFlows])]
  · rw [step_of_admits (by rwa [run_maxFlows])]
    rfl
  · exact sortFlows_ids h (inOrder_run maxFlows obs hinc) hperm

end FlowTable

end PcapRacer
