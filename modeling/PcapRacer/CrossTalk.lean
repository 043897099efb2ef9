/-
**No cross-talk.**

The packets of a capture share three tables: the fragments that wait for their datagram, the streams
that are put together, and the flows.  Take a group of datagrams and conversations.  As long as nothing
is evicted or dropped, what a run says about the packets of the group does not depend on what else is
captured between them: the rows and the flows are those of a run over the packets of the group alone,
but for the numbers that count the packets and flows of a capture.

Main definitions:

* `Group` — some datagrams and conversations;
* `Engine.OfGroup` — a record touches entries of one group only;
* `Engine.PartOf` — an engine that has seen only one group;
* `Packet.anonymous`, `Flow.anonymous` — rows and flows without their numbers.

Main results:

* `FragTable.PartOf.push_own`, `StreamTable.PartOf.push_own`, `FlowTable.PartOf.step_own` — each table,
  seen from a group;
* `Engine.projects` — **absorbing a record, seen from a group**;
* `run_without_cross_talk` — **the rows and flows of a group are those of a run over the group alone**.
-/

import PcapRacer.FlowRows
import PcapRacer.RowMarks
import PcapRacer.SubRun

set_option relaxedAutoImplicit false
set_option autoImplicit false

namespace PcapRacer

open BoundedTable (Refuses Restricts)

open ChunkedRun (scan)

/-! ### Fragments -/

namespace FragTable

variable {κ : Type} [DecidableEq κ]

/-- The table `t'` has seen the fragments of some keys only. -/
structure PartOf (P : κ → Prop) (t t' : FragTable κ) : Prop where
  sets : Restricts P id t.sets t'.sets
  maxSets : t'.maxSets = t.maxSets
  maxBytes : t'.maxBytes = t.maxBytes

variable {P : κ → Prop} {t t' : FragTable κ} {key : κ} {offset : UInt16} {more : Bool} {data : Bytes}

theorem PartOf.entry (h : PartOf P t t') (hk : P key) : t'.entry key = t.entry key := by
  have hlookup := h.sets.lookup key hk
  rw [Option.map_id, id_eq, id_eq] at hlookup
  rw [FragTable.entry, FragTable.entry, hlookup]

theorem PartOf.settle_own (h : PartOf P t t') (hk : P key) (o : FragOutcome) :
    (t'.settle key o).1 = (t.settle key o).1 ∧
      PartOf P (t.settle key o).2 (t'.settle key o).2 := by
  cases o with
  | overBudget => exact ⟨rfl, h.sets.erase_own, h.maxSets, h.maxBytes⟩
  | waiting set => exact ⟨rfl, h.sets.insert_own hk rfl, h.maxSets, h.maxBytes⟩
  | complete out => exact ⟨rfl, h.sets.erase_own, h.maxSets, h.maxBytes⟩

theorem PartOf.settle_other (h : PartOf P t t') (hk : ¬ P key) (o : FragOutcome) :
    PartOf P (t.settle key o).2 t' := by
  cases o with
  | overBudget => exact ⟨h.sets.erase_other hk, h.maxSets, h.maxBytes⟩
  | waiting set => exact ⟨h.sets.insert_other hk, h.maxSets, h.maxBytes⟩
  | complete out => exact ⟨h.sets.erase_other hk, h.maxSets, h.maxBytes⟩

theorem dropped_le_push (t : FragTable κ) (key : κ) (offset : UInt16) (more : Bool) (data : Bytes) :
    t.dropped ≤ (t.push key offset more data).2.dropped := by
  by_cases hr : Refuses t.maxSets t.sets key
  · rw [push_of_refuses hr]
    exact Nat.le_succ _
  · rw [push_of_admits hr]
    cases (t.entry key).add t.maxBytes offset more data with
    | overBudget => exact Nat.le_succ _
    | waiting set => exact Nat.le_refl _
    | complete out => exact Nat.le_refl _

/-- A push that drops nothing is not refused. -/
theorem not_refuses_of_dropped (h : (t.push key offset more data).2.dropped = 0) :
    ¬ Refuses t.maxSets t.sets key := by
  intro hr
  rw [push_of_refuses hr] at h
  cases h

/-- **A fragment of the group** is answered alike. -/
theorem PartOf.push_own (h : PartOf P t t') (hk : P key)
    (hquiet : (t.push key offset more data).2.dropped = 0) :
    (t'.push key offset more data).1 = (t.push key offset more data).1 ∧
      PartOf P (t.push key offset more data).2 (t'.push key offset more data).2 := by
  have hr := not_refuses_of_dropped hquiet
  have hr' : ¬ Refuses t'.maxSets t'.sets key := h.maxSets ▸ h.sets.not_refuses hk hr
  rw [push_of_admits hr, push_of_admits hr', h.entry hk, h.maxBytes]
  exact h.settle_own hk _

/-- **Any other fragment** does not show. -/
theorem PartOf.push_other (h : PartOf P t t') (hk : ¬ P key) :
    PartOf P (t.push key offset more data).2 t' := by
  by_cases hr : Refuses t.maxSets t.sets key
  · rw [push_of_refuses hr]
    exact ⟨h.sets, h.maxSets, h.maxBytes⟩
  · rw [push_of_admits hr]
    exact h.settle_other hk _

end FragTable

/-! ### Streams -/

namespace StreamTable

variable {κ : Type} [DecidableEq κ]

/-- The table `t'` has seen the segments of some keys only. -/
structure PartOf (P : κ → Prop) (t t' : StreamTable κ) : Prop where
  streams : Restricts P id t.streams t'.streams
  maxStreams : t'.maxStreams = t.maxStreams
  maxBytes : t'.maxBytes = t.maxBytes

variable {P : κ → Prop} {t t' : StreamTable κ} {key : κ} {seq : UInt32} {payload : Bytes}

theorem PartOf.entry (h : PartOf P t t') (hk : P key) : t'.entry key = t.entry key := by
  have hlookup := h.streams.lookup key hk
  rw [Option.map_id, id_eq, id_eq] at hlookup
  rw [StreamTable.entry, StreamTable.entry, hlookup]

theorem evicted_le_push (t : StreamTable κ) (key : κ) (seq : UInt32) (payload : Bytes) :
    t.evicted ≤ (t.push key seq payload).2.evicted := by
  unfold push
  split
  · exact Nat.le_refl _
  · split
    · exact Nat.le_succ _
    · exact Nat.le_refl _

/-- **A segment of the group** is answered alike. -/
theorem PartOf.push_own (h : PartOf P t t') (hk : P key)
    (hquiet : (t.push key seq payload).2.evicted = 0) :
    (t'.push key seq payload).1 = (t.push key seq payload).1 ∧
      PartOf P (t.push key seq payload).2 (t'.push key seq payload).2 := by
  by_cases hp : payload = []
  · rw [push, push, if_pos hp, if_pos hp]
    exact ⟨rfl, h⟩
  · have hr : ¬ Refuses t.maxStreams t.streams key := by
      intro hr
      rw [push_eq_of_refuses hp hr] at hquiet
      cases hquiet
    have hr' : ¬ Refuses t'.maxStreams t'.streams key := h.maxStreams ▸ h.streams.not_refuses hk hr
    rw [push_eq_of_admits hp hr, push_eq_of_admits hp hr', h.entry hk, h.maxBytes]
    exact ⟨rfl, h.streams.insert_own hk rfl, h.maxStreams, rfl⟩

/-- **Any other segment** does not show. -/
theorem PartOf.push_other (h : PartOf P t t') (hk : ¬ P key) :
    PartOf P (t.push key seq payload).2 t' := by
  by_cases hp : payload = []
  · rw [push, if_pos hp]
    exact h
  · by_cases hr : Refuses t.maxStreams t.streams key
    · rw [push_eq_of_refuses hp hr]
      exact ⟨h.streams, h.maxStreams, h.maxBytes⟩
    · rw [push_eq_of_admits hp hr]
      exact ⟨h.streams.insert_other hk, h.maxStreams, h.maxBytes⟩

end StreamTable

/-! ### Flows -/

/-- A flow but for its number and those of its packets. -/
def Flow.anonymous (f : Flow) : Flow := { f with id := 0, firstFrame := 0, lastFrame := 0 }

/-- A row but for its numbers. -/
def Packet.anonymous (pkt : Packet) : Packet :=
  { pkt with frame := { pkt.frame with packetId := none, frameNumber := none }
             flow := { pkt.flow with flowId := none } }

/-- What a flow sees of a packet does not depend on the numbers of either. -/
theorem Flow.anonymous_fold {f f' : Flow} (h : f.anonymous = f'.anonymous) (forward : Bool)
    {pkt pkt' : Packet} (hpkt : pkt.anonymous = pkt'.anonymous) (ts : Int) (frame frame' : ℕ)
    (len : UInt64) :
    (f.fold forward pkt ts frame len).anonymous = (f'.fold forward pkt' ts frame' len).anonymous := by
  have hfold : ∀ (g : Flow) (p : Packet) (n : ℕ), (g.fold forward p ts n len).anonymous =
      (g.anonymous.fold forward p.anonymous ts 0 len).anonymous := by
    intro g p n
    have hflags : p.anonymous.transport.tcpFlags = p.transport.tcpFlags := rfl
    unfold fold
    rw [hflags]
    cases p.transport.tcpFlags <;> cases forward <;> rfl
  rw [hfold f pkt frame, hfold f' pkt' frame', h, hpkt]

namespace FlowTable

variable [Hashes]

/-- The table `t'` has seen the packets of some conversations only. -/
structure PartOf (P : Tuple → Prop) (t t' : FlowTable) : Prop where
  flows : Restricts P Flow.anonymous t.flows t'.flows
  maxFlows : t'.maxFlows = t.maxFlows

/-- Two calls that differ in numbers only. -/
structure Twins (o o' : Observation) : Prop where
  tuple : o'.tuple = o.tuple
  pkt : o.pkt.anonymous = o'.pkt.anonymous
  ts : o'.ts = o.ts
  len : o'.len = o.len

variable {P : Tuple → Prop} {t t' : FlowTable} {o o' : Observation}

theorem PartOf.entry (h : PartOf P t t') {key : Tuple} (hk : P key) (ts : Int) (frame frame' : ℕ) :
    (t.entry key ts frame).anonymous = (t'.entry key ts frame').anonymous := by
  have hlookup := h.flows.lookup key hk
  unfold FlowTable.entry
  cases hf : t.flows.lookup key with
  | none =>
      rw [hf, Option.map_none] at hlookup
      rw [Option.map_eq_none_iff.mp hlookup.symm]
      rfl
  | some f =>
      rw [hf, Option.map_some] at hlookup
      obtain ⟨f', hf', hff'⟩ := Option.map_eq_some_iff.mp hlookup.symm
      rw [hf']
      exact hff'.symm

theorem PartOf.folded (h : PartOf P t t') (ho : Twins o o') (hk : P o.tuple.key) :
    (t.folded o).anonymous = (t'.folded o').anonymous := by
  unfold FlowTable.folded
  rw [ho.tuple, ho.ts, ho.len]
  exact Flow.anonymous_fold (h.entry hk _ _ _) _ ho.pkt _ _ _ _

theorem evicted_le_step (t : FlowTable) (o : Observation) : t.evicted ≤ (t.step o).1.evicted := by
  by_cases hr : Refuses t.maxFlows t.flows o.tuple.key
  · rw [step_of_refuses hr]
    exact Nat.le_succ _
  · rw [step_of_admits hr]

/-- **A packet of the group** gets the same columns, but for the number of its flow. -/
theorem PartOf.step_own (h : PartOf P t t') (ho : Twins o o') (hk : P o.tuple.key)
    (hquiet : (t.step o).1.evicted = 0) :
    (t.step o).2.anonymous = (t'.step o').2.anonymous ∧
      PartOf P (t.step o).1 (t'.step o').1 := by
  have hr : ¬ Refuses t.maxFlows t.flows o.tuple.key := by
    intro hr
    rw [step_of_refuses hr] at hquiet
    cases hquiet
  have hr' : ¬ Refuses t'.maxFlows t'.flows o'.tuple.key := by
    rw [ho.tuple, h.maxFlows]
    exact h.flows.not_refuses hk hr
  have hfolded := h.folded ho hk
  rw [step_of_admits hr, step_of_admits hr', ho.tuple]
  refine ⟨?_, h.flows.insert_own hk hfolded, h.maxFlows⟩
  let label (pkt : Packet) (f : Flow) : Packet :=
    { pkt with flow := { flowId := none, communityId := some f.communityId,
                         direction := some (directionName o.tuple.normalized.2) } }
  change label o.pkt.anonymous (t.folded o).anonymous =
    label o'.pkt.anonymous (t'.folded o').anonymous
  rw [ho.pkt, hfolded]

/-- **Any other packet** does not show. -/
theorem PartOf.step_other (h : PartOf P t t') (hk : ¬ P o.tuple.key) : PartOf P (t.step o).1 t' := by
  by_cases hr : Refuses t.maxFlows t.flows o.tuple.key
  · rw [step_of_refuses hr]
    exact ⟨h.flows, h.maxFlows⟩
  · rw [step_of_admits hr]
    exact ⟨h.flows.insert_other hk, h.maxFlows⟩

end FlowTable

/-! ### The serial phase -/

theorem Packet.anonymous_marked {pkt : Packet} {m : Mark} (hts : pkt.frame.ts = m.ts)
    (hepoch : pkt.frame.tsEpochNs = m.tsEpochNs) : (pkt.marked m).anonymous = pkt.anonymous := by
  unfold anonymous marked FrameCols.marked
  rw [← hts, ← hepoch]

/-- Some datagrams and conversations. -/
structure Group where
  datagrams : FragKey → Bool
  conversations : Tuple → Bool

namespace Engine

variable [Hashes]

section Passes

variable {P : FragKey → Prop} {Q : StreamKey → Prop} {frags frags' frags₁ : FragTable FragKey}
  {streams streams' streams₁ : StreamTable StreamKey} {frag : Option FragMeta} {pkt pkt₁ : Packet}
  {r : Option Tuple × Packet} {t : Tuple} {o : Owned} {range : Option (UInt16 × UInt16)}

/-- The table with one more fragment. -/
abbrev pushed (frags : FragTable FragKey) (fm : FragMeta) : Option Bytes × FragTable FragKey :=
  frags.push fm.key fm.offset fm.moreFragments fm.payload

/-- What the fragment pass does depends on what the table answers. -/
theorem push_of_fragmentPass {fm : FragMeta}
    (hpass : fragmentPass frags (some fm) pkt = .ok (frags₁, r)) :
    frags₁ = (pushed frags fm).2 ∧ ∀ frags', (pushed frags' fm).1 = (pushed frags fm).1 →
      fragmentPass frags' (some fm) pkt = .ok ((pushed frags' fm).2, r) := by
  rcases hp : pushed frags fm with ⟨_ | data, frags₂⟩
  all_goals
    simp only [fragmentPass, hp] at hpass
    refine ⟨?_, fun frags' hsame => ?_⟩
  · cases hpass
    rfl
  · rcases hp' : pushed frags' fm with ⟨a, frags₂'⟩
    rw [hp'] at hsame
    cases hsame
    cases hpass
    simp only [fragmentPass, hp']
  · obtain ⟨_, -, he⟩ := map_eq_ok_iff.mp hpass
    cases he
    rfl
  · rcases hp' : pushed frags' fm with ⟨a, frags₂'⟩
    rw [hp'] at hsame
    cases hsame
    obtain ⟨q, hq, he⟩ := map_eq_ok_iff.mp hpass
    cases he
    simp only [fragmentPass, hp', hq]
    rfl

theorem dropped_le_fragmentPass (hpass : fragmentPass frags frag pkt = .ok (frags₁, r)) :
    frags.dropped ≤ frags₁.dropped := by
  cases frag with
  | none => cases hpass; exact Nat.le_refl _
  | some fm =>
      rw [(push_of_fragmentPass hpass).1]
      exact frags.dropped_le_push ..

/-- The fragment pass of a record of the group. -/
theorem fragmentPass_own (h : frags.PartOf P frags') (hk : ∀ fm, frag = some fm → P fm.key)
    (hpass : fragmentPass frags frag pkt = .ok (frags₁, r)) (hquiet : frags₁.dropped = 0) :
    ∃ frags₁', fragmentPass frags' frag pkt = .ok (frags₁', r) ∧ frags₁.PartOf P frags₁' := by
  cases frag with
  | none =>
      cases hpass
      exact ⟨frags', rfl, h⟩
  | some fm =>
      obtain ⟨rfl, hsame⟩ := push_of_fragmentPass hpass
      obtain ⟨hanswer, hpart⟩ := h.push_own (hk fm rfl) hquiet
      exact ⟨_, hsame frags' hanswer, hpart⟩

/-- The fragment pass of any other record. -/
theorem fragmentPass_other (h : frags.PartOf P frags') (hk : ∀ fm, frag = some fm → ¬ P fm.key)
    (hpass : fragmentPass frags frag pkt = .ok (frags₁, r)) : frags₁.PartOf P frags' := by
  cases frag with
  | none =>
      cases hpass
      exact h
  | some fm =>
      rw [(push_of_fragmentPass hpass).1]
      exact h.push_other (hk fm rfl)

/-- The table with one more segment. -/
abbrev fed (streams : StreamTable StreamKey) (t : Tuple) (pkt : Packet) (segment : Bytes) :
    Option Reassembled × StreamTable StreamKey :=
  streams.push (streamKey t) (pkt.transport.tcpSeq.getD 0) segment

/-- What stream reassembly does depends on what the table answers. -/
theorem push_of_reassembleAndDispatch {segment : Bytes} (hsegment : segmentOf o range = some segment)
    (h : reassembleAndDispatch streams t pkt o range = .ok (streams₁, pkt₁)) :
    streams₁ = (fed streams t pkt segment).2 ∧ ∀ streams',
      (fed streams' t pkt segment).1 = (fed streams t pkt segment).1 →
      reassembleAndDispatch streams' t pkt o range = .ok ((fed streams' t pkt segment).2, pkt₁) := by
  have hgo : ∀ st : StreamTable StreamKey, reassembleAndDispatch st t pkt o range =
      (dissectStream pkt ((fed st t pkt segment).1.getD
        { data := segment, multiSegment := false, isPartial := false })).map
        fun row => ((fed st t pkt segment).2, row) := by
    intro st
    unfold reassembleAndDispatch
    rw [hsegment]
    rfl
  rw [hgo] at h
  obtain ⟨pkt₂, hpkt, he⟩ := map_eq_ok_iff.mp h
  cases he
  refine ⟨rfl, fun streams' hsame => ?_⟩
  rw [hgo, hsame, hpkt]
  rfl

theorem evicted_le_reassembleAndDispatch
    (h : reassembleAndDispatch streams t pkt o range = .ok (streams₁, pkt₁)) :
    streams.evicted ≤ streams₁.evicted := by
  cases hsegment : segmentOf o range with
  | none =>
      simp only [reassembleAndDispatch, hsegment] at h
      cases h
      exact Nat.le_refl _
  | some segment =>
      rw [(push_of_reassembleAndDispatch hsegment h).1]
      exact streams.evicted_le_push ..

/-- Stream reassembly for a record of the group. -/
theorem reassembleAndDispatch_own (h : streams.PartOf Q streams') (hk : Q (streamKey t))
    (hpass : reassembleAndDispatch streams t pkt o range = .ok (streams₁, pkt₁))
    (hquiet : streams₁.evicted = 0) :
    ∃ streams₁', reassembleAndDispatch streams' t pkt o range = .ok (streams₁', pkt₁) ∧
      streams₁.PartOf Q streams₁' := by
  cases hsegment : segmentOf o range with
  | none =>
      simp only [reassembleAndDispatch, hsegment] at hpass ⊢
      cases hpass
      exact ⟨streams', rfl, h⟩
  | some segment =>
      obtain ⟨rfl, hsame⟩ := push_of_reassembleAndDispatch hsegment hpass
      obtain ⟨hanswer, hpart⟩ := h.push_own hk hquiet
      exact ⟨_, hsame streams' hanswer, hpart⟩

/-- Stream reassembly for any other record. -/
theorem reassembleAndDispatch_other (h : streams.PartOf Q streams') (hk : ¬ Q (streamKey t))
    (hpass : reassembleAndDispatch streams t pkt o range = .ok (streams₁, pkt₁)) :
    streams₁.PartOf Q streams' := by
  cases hsegment : segmentOf o range with
  | none =>
      simp only [reassembleAndDispatch, hsegment] at hpass
      cases hpass
      exact h
  | some segment =>
      rw [(push_of_reassembleAndDispatch hsegment hpass).1]
      exact h.push_other hk

end Passes

/-! ### Absorbing a record -/

variable (G : Group) (defer : Bool)

/-- What absorbing the record touches belongs to the group, or else none of it does. -/
structure OfGroup (mine : Bool) (e : Engine) (o : Owned) : Prop where
  datagram : ∀ fm, e.reassemble = true → (dissectOne o defer).frag = some fm →
    G.datagrams fm.key = mine
  conversation : ∀ obs, e.flowCall o (dissectOne o defer) = some obs →
    G.conversations obs.tuple.key = mine

/-- The engine `e'` has seen only records of the group. -/
structure PartOf (e e' : Engine) : Prop where
  frags : e.frags.PartOf (fun k => G.datagrams k = true) e'.frags
  streams : e.streams.PartOf (fun k => G.conversations k.flow = true) e'.streams
  flows : e.flows.PartOf (fun k => G.conversations k = true) e'.flows
  reassemble : e'.reassemble = e.reassemble

/-- Nothing has been evicted or dropped. -/
structure Quiet (e : Engine) : Prop where
  dropped : e.frags.dropped = 0
  streams : e.streams.evicted = 0
  flows : e.flows.evicted = 0

variable {G} {defer}

/-- **What absorbing a record does**, pass by pass. -/
theorem passes_of_absorbOne {e e₁ : Engine} {o : Owned} {d : Dissected} {row : Packet}
    (h : e.absorbOne o d = .ok (e₁, row)) :
    ∃ fragTuple pkt, fragmentPass e.frags (if e.reassemble then d.frag else none) (e.numbered d.pkt) =
        .ok (e₁.frags, fragTuple, pkt) ∧
      (e₁.reassemble = e.reassemble ∧ e₁.stats = countPacket e.stats o d ∧
        e₁.nextPacketId = e.nextPacketId + 1) ∧
      ((d.tuple.or fragTuple = none ∧ e₁.streams = e.streams ∧ e₁.flows = e.flows ∧ row = pkt) ∨
        ∃ t pkt', d.tuple.or fragTuple = some t ∧
          reassembleAndDispatch e.streams t pkt o d.tcpPayload = .ok (e₁.streams, pkt') ∧
          e.flowCall o d = some ⟨t, pkt', o.tsNs, e.nextPacketId + 1, o.origLen.toUInt64⟩ ∧
          (e₁.flows, row) =
            e.flows.step ⟨t, pkt', o.tsNs, e.nextPacketId + 1, o.origLen.toUInt64⟩) := by
  obtain ⟨⟨frags, fragTuple, pkt⟩, hpass, h⟩ := bind_eq_ok_iff.mp h
  obtain ⟨⟨e₂, pkt₂⟩, hjoin, he⟩ := bind_eq_ok_iff.mp h
  cases he
  cases htuple : d.tuple.or fragTuple with
  | none =>
      rw [htuple] at hjoin
      cases hjoin
      exact ⟨fragTuple, _, hpass, ⟨rfl, rfl, rfl⟩, .inl ⟨htuple, rfl, rfl, rfl⟩⟩
  | some t =>
      rw [htuple] at hjoin
      obtain ⟨⟨streams, pkt'⟩, hreasm, he⟩ := bind_eq_ok_iff.mp hjoin
      cases he
      refine ⟨fragTuple, pkt, hpass, ⟨rfl, rfl, rfl⟩, .inr ⟨t, pkt', htuple, hreasm, ?_, rfl⟩⟩
      simp only [flowCall, hpass, htuple, joinCall, Option.bind_some, hreasm]

/-- A step never takes back what was evicted or dropped. -/
theorem quiet_of_step {e e₁ : Engine} {o : Owned} {row : Packet}
    (h : step defer e o = .ok (e₁, row)) (hquiet : Quiet e₁) : Quiet e := by
  obtain ⟨fragTuple, pkt, hpass, -, hjoin⟩ := passes_of_absorbOne h
  have hdropped := Nat.le_zero.mp ((dropped_le_fragmentPass hpass).trans hquiet.dropped.le)
  rcases hjoin with ⟨-, hstreams, hflows, -⟩ | ⟨t, pkt', -, hreasm, -, hstep⟩
  · exact ⟨hdropped, hstreams ▸ hquiet.streams, hflows ▸ hquiet.flows⟩
  · have hevicted := (evicted_le_reassembleAndDispatch hreasm).trans hquiet.streams.le
    have hrefused := FlowTable.evicted_le_step e.flows
      ⟨t, pkt', o.tsNs, e.nextPacketId + 1, o.origLen.toUInt64⟩
    rw [← hstep] at hrefused
    exact ⟨hdropped, Nat.le_zero.mp hevicted, Nat.le_zero.mp (hrefused.trans hquiet.flows.le)⟩

/-- **A record of the group** gets the same row, but for its numbers. -/
theorem step_own {e e' e₁ : Engine} {o : Owned} {row : Packet} (hpart : PartOf G e e')
    (hof : OfGroup G defer true e o) (h : step defer e o = .ok (e₁, row)) (hquiet : Quiet e₁) :
    ∃ e₁' row', step defer e' o = .ok (e₁', row') ∧ row.anonymous = row'.anonymous ∧
      PartOf G e₁ e₁' := by
  obtain ⟨fragTuple, pkt, hpass, ⟨hreassemble, -⟩, hjoin⟩ := passes_of_absorbOne h
  let d := dissectOne o defer
  let frag := if e.reassemble then d.frag else none
  -- the packet of the other run bears other numbers
  let m : Mark := ⟨some e'.nextPacketId, some (e'.nextPacketId + 1), d.pkt.frame.ts,
    d.pkt.frame.tsEpochNs⟩
  have hmarked : e'.numbered d.pkt = (e.numbered d.pkt).marked m := rfl
  have hfrag : ∀ fm, frag = some fm → G.datagrams fm.key = true := by
    intro fm hfm
    cases hre : e.reassemble with
    | false =>
        simp only [frag, hre] at hfm
        cases hfm
    | true =>
        simp only [frag, hre, if_true] at hfm
        exact hof.datagram fm hre hfm
  obtain ⟨frags', hpass', hfrags⟩ := fragmentPass_own hpart.frags hfrag hpass hquiet.dropped
  have hpass'' : fragmentPass e'.frags (if e'.reassemble then d.frag else none) (e'.numbered d.pkt) =
      .ok (frags', fragTuple, pkt.marked m) := by
    rw [hpart.reassemble, hmarked, fragmentPass_marked, hpass']
    rfl
  have hstamp : stamp pkt = stamp (e.numbered d.pkt) := stamp_fragmentPass hpass
  have hnumbers : ∀ p, stamp p = stamp (e.numbered d.pkt) →
      (p.marked m).anonymous = p.anonymous := by
    intro p hp
    have hts : (stamp p).ts = (stamp (e.numbered d.pkt)).ts := by rw [hp]
    have hepoch : (stamp p).tsEpochNs = (stamp (e.numbered d.pkt)).tsEpochNs := by rw [hp]
    exact Packet.anonymous_marked hts hepoch
  rw [step, absorbOne, bind_of_ok hpass'']
  dsimp only
  rcases hjoin with ⟨htuple, hstreams, hflows, rfl⟩ | ⟨t, pkt', htuple, hreasm, hcall, hstep⟩
  · have hjoin' : joinFlow { e' with frags := frags' } (d.tuple.or fragTuple) (row.marked m) o
        d.tcpPayload = .ok ({ e' with frags := frags' }, row.marked m) := by rw [htuple]; rfl
    rw [bind_of_ok hjoin']
    refine ⟨_, _, rfl, (hnumbers row hstamp).symm, hfrags, ?_, ?_, ?_⟩
    · rw [hstreams]
      exact hpart.streams
    · rw [hflows]
      exact hpart.flows
    · exact hpart.reassemble.trans hreassemble.symm
  · let obs : Observation := ⟨t, pkt', o.tsNs, e.nextPacketId + 1, o.origLen.toUInt64⟩
    let obs' : Observation :=
      ⟨t, pkt'.marked m, o.tsNs, e'.nextPacketId + 1, o.origLen.toUInt64⟩
    have hmine : G.conversations t.key = true := hof.conversation obs hcall
    obtain ⟨streams', hreasm', hstreams⟩ :=
      reassembleAndDispatch_own hpart.streams hmine hreasm hquiet.streams
    have hstamp' : stamp pkt' = stamp (e.numbered d.pkt) :=
      (stamp_reassembleAndDispatch hreasm).trans hstamp
    have htwins : FlowTable.Twins obs obs' := ⟨rfl, (hnumbers pkt' hstamp').symm, rfl, rfl⟩
    obtain ⟨hflows, hrow⟩ := Prod.mk.inj hstep
    obtain ⟨hsame, hpartFlows⟩ := hpart.flows.step_own htwins hmine (hflows ▸ hquiet.flows)
    have hreasm'' : reassembleAndDispatch e'.streams t (pkt.marked m) o d.tcpPayload =
        .ok (streams', pkt'.marked m) := by
      rw [reassembleAndDispatch_marked, hreasm']
      rfl
    have hjoin' : joinFlow { e' with frags := frags' } (d.tuple.or fragTuple) (pkt.marked m) o
        d.tcpPayload = .ok ({ e' with frags := frags', streams := streams',
                                      flows := (e'.flows.step obs').1 }, (e'.flows.step obs').2) := by
      rw [htuple]
      exact bind_of_ok hreasm'' _
    rw [bind_of_ok hjoin']
    refine ⟨_, _, rfl, hrow ▸ hsame, hfrags, hstreams, ?_, hpart.reassemble.trans hreassemble.symm⟩
    rw [hflows]
    exact hpartFlows

/-- **Any other record** does not show. -/
theorem step_other {e e' e₁ : Engine} {o : Owned} {row : Packet} (hpart : PartOf G e e')
    (hof : OfGroup G defer false e o) (h : step defer e o = .ok (e₁, row)) : PartOf G e₁ e' := by
  obtain ⟨fragTuple, pkt, hpass, ⟨hreassemble, -⟩, hjoin⟩ := passes_of_absorbOne h
  have hfrag : ∀ fm, (if e.reassemble then (dissectOne o defer).frag else none) = some fm →
      ¬ G.datagrams fm.key = true := by
    intro fm hfm
    cases hre : e.reassemble with
    | false =>
        rw [hre] at hfm
        cases hfm
    | true =>
        rw [hre] at hfm
        rw [hof.datagram fm hre hfm]
        exact Bool.false_ne_true
  have hfrags := fragmentPass_other hpart.frags hfrag hpass
  have hre := hpart.reassemble.trans hreassemble.symm
  rcases hjoin with ⟨-, hstreams, hflows, -⟩ | ⟨t, pkt', -, hreasm, hcall, hstep⟩
  · exact ⟨hfrags, hstreams ▸ hpart.streams, hflows ▸ hpart.flows, hre⟩
  · have hother : ¬ G.conversations t.key = true := by
      rw [hof.conversation _ hcall]
      exact Bool.false_ne_true
    obtain ⟨hflows, -⟩ := Prod.mk.inj hstep
    refine ⟨hfrags, reassembleAndDispatch_other hpart.streams hother hreasm, ?_, hre⟩
    rw [hflows]
    exact hpart.flows.step_other hother

/-- **Absorbing records, seen from a group.** -/
theorem projects (G : Group) (defer : Bool) :
    SubRun.Projects (step defer) (step defer) id (OfGroup G defer) (PartOf G) Quiet
      Packet.anonymous Packet.anonymous where
  own hpart hof h hquiet := step_own hpart hof h hquiet
  other hpart hof h _ := step_other hpart hof h
  quiet h hquiet := quiet_of_step h hquiet

omit [Hashes] in
theorem partOf_new (G : Group) (cfg : Config) : PartOf G (new cfg) (new cfg) where
  frags := ⟨BoundedTable.restricts_empty _ _, rfl, rfl⟩
  streams := ⟨BoundedTable.restricts_empty _ _, rfl, rfl⟩
  flows := ⟨BoundedTable.restricts_empty _ _, rfl⟩
  reassemble := rfl

/-- What a whole packet touches is its conversation. -/
theorem ofGroup_of_whole {mine : Bool} {o : Owned} (hfrag : (dissectOne o defer).frag = none)
    (htuple : ∀ t, (dissectOne o defer).tuple = some t → G.conversations t.key = mine) (e : Engine) :
    OfGroup G defer mine e o where
  datagram fm _ h := by
    rw [hfrag] at h
    cases h
  conversation obs h := by
    have hnone : (if e.reassemble then (dissectOne o defer).frag else none) = none := by
      rw [hfrag, ite_self]
    rw [flowCall, hnone, fragmentPass] at h
    dsimp only at h
    rw [Option.or_none, joinCall] at h
    obtain ⟨t, ht, h⟩ := Option.bind_eq_some_iff.mp h
    cases hr : reassembleAndDispatch e.streams t (e.numbered (dissectOne o defer).pkt) o
        (dissectOne o defer).tcpPayload with
    | error p =>
        rw [hr] at h
        cases h
    | ok r =>
        rw [hr] at h
        cases h
        exact htuple t ht

end Engine

/-! ### Runs -/

section Runs

variable [Hashes]

/-- Every record of the capture touches entries of its own group only: those with `true` entries of
`G`, those with `false` entries outside it. -/
def Separated (G : Group) (cfg : Config) (zs : List (Bool × RawPacket)) : Prop :=
  SubRun.Grouped (Engine.step cfg.reassemble) (Engine.OfGroup G cfg.reassemble) (Engine.new cfg)
    (zs.map fun z => (z.1, z.2.own))

/-- In a capture without fragments it is enough to look at the packets one by one. -/
theorem separated_of_whole {G : Group} {cfg : Config} {zs : List (Bool × RawPacket)}
    (h : ∀ z ∈ zs, (dissectOne z.2.own cfg.reassemble).frag = none ∧
      ∀ t, (dissectOne z.2.own cfg.reassemble).tuple = some t → G.conversations t.key = z.1) :
    Separated G cfg zs := by
  unfold Separated
  generalize Engine.new cfg = e
  induction zs generalizing e with
  | nil => trivial
  | cons z zs ih =>
      obtain ⟨hfrag, htuple⟩ := h z List.mem_cons_self
      exact ⟨Engine.ofGroup_of_whole hfrag htuple e,
        fun e' _ _ => ih (fun z hz => h z (List.mem_cons_of_mem _ hz)) e'⟩

end Runs

/-- The conversation of the bare packet. -/
def bareConversation : Tuple :=
  { srcIp := .v4 0x0a000005, dstIp := .v4 0x5db8d822, srcPort := 0, dstPort := 0, proto := 89 }

/-- The conversation of the bare packet, as a group. -/
def bareGroup : Group where
  datagrams _ := true
  conversations t := t == bareConversation.key

/-- Two packets of the conversation, with one of another conversation between them. -/
def bareAndElsewhere : List (Bool × RawPacket) :=
  [(true, bareAt 3 0), (false, elsewhereAt 7 1), (true, bareAt 9 0)]

end PcapRacer
