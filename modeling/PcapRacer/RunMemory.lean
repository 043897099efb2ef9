/-
**The memory of a run.**

A capture is untrusted, so each table of the engine has a limit: on the number of flows, of streams
and of datagrams, and on the bytes of a buffer and of a datagram.  Whatever the capture, what the
engine keeps of it between two records is bounded by these limits.

The bound counts bytes.  The byte limit of a datagram does not limit the number of its pieces, since
a fragment may be empty: there are captures of any length whose records each leave a piece.

Main definitions:

* `Engine.Reached` — the tables of an engine come from those of another by their own operations;
* `Stream.Small` — a stream within its limits;
* `Engine.heldBytes` — the bytes of packets that the engine keeps.

Main results:

* `Engine.reached_of_scan` — **each table of the engine is a run of that table**;
* `held_of_scan_le` — **the memory of a run is bounded**;
* `pieces_of_emptyFragments` — the number of pieces is not.
-/

import Mathlib.Algebra.Group.Action.Defs
import Mathlib.Algebra.Order.BigOperators.Group.List
import PcapRacer.FlowRows
import PcapRacer.FragTableMembers
import PcapRacer.Reconnect
import PcapRacer.SplitSegment
import PcapRacer.StreamTableRetained

set_option relaxedAutoImplicit false
set_option autoImplicit false

namespace PcapRacer

open BoundedTable (len values Refuses)
open ChunkedRun (scan)

/-! ### Runs of the tables -/

/-- The most bytes that a segment has: its length is kept in sixteen bits. -/
def maxSegment : ℕ := 65535

namespace Engine

section Reached

variable [Hashes] {e₀ : Engine}

/-- The tables of the engine come from those of another by their own operations. -/
structure Reached (e₀ e : Engine) : Prop where
  flows : ∃ calls, e.flows = e₀.flows.run calls
  streams : ∃ segs, (∀ g ∈ segs, g.payload.length ≤ maxSegment) ∧
    e.streams = e₀.streams.run segs
  frags : ∃ frags, e.frags = e₀.frags.run frags

theorem reached_self (e : Engine) : Reached e e := ⟨⟨[], rfl⟩, ⟨[], nofun, rfl⟩, ⟨[], rfl⟩⟩

omit [Hashes] in
theorem length_segmentOf {o : Owned} {range : Option (UInt16 × UInt16)} {segment : Bytes}
    (h : segmentOf o range = some segment) : segment.length ≤ maxSegment := by
  obtain ⟨⟨start, count⟩, hsel, rfl⟩ := Option.map_eq_some_iff.mp h
  have hcount : count ≤ maxSegment := by
    unfold selected at hsel
    split at hsel
    · cases hsel
    · next start' len' =>
        split at hsel
        · cases hsel
        · cases hsel
          exact Nat.le_of_lt_succ len'.toNat_lt
  exact (List.length_take_le _ _).trans hcount

/-- The fragment pass pushes at most one fragment. -/
theorem Reached.fragmentPass {e : Engine} (he : Reached e₀ e) {frags : FragTable FragKey}
    {frag : Option FragMeta} {tuple : Option Tuple} {pkt pkt' : Packet}
    (h : fragmentPass e.frags frag pkt = .ok (frags, tuple, pkt')) :
    Reached e₀ { e with frags } := by
  obtain ⟨before, hbefore⟩ := he.frags
  refine ⟨he.flows, he.streams, ?_⟩
  cases frag with
  | none =>
      cases h
      exact ⟨before, hbefore⟩
  | some fm =>
      have hrun : (e.frags.push fm.key fm.offset fm.moreFragments fm.payload).2 =
          e₀.frags.run
            (before ++ [⟨fm.key, fm.offset, fm.moreFragments, fm.payload⟩]) := by
        rw [FragTable.run_concat, ← hbefore]
        rfl
      refine ⟨_, Eq.trans ?_ hrun⟩
      rcases hp : e.frags.push fm.key fm.offset fm.moreFragments fm.payload with ⟨r, after⟩
      simp only [Engine.fragmentPass, hp] at h
      cases r with
      | none => cases h; rfl
      | some data =>
          obtain ⟨r, -, he⟩ := map_eq_ok_iff.mp h
          cases he
          rfl

/-- Reassembly pushes at most one segment, which is not longer than a range can say. -/
theorem Reached.reassemble {e : Engine} (he : Reached e₀ e) {streams : StreamTable StreamKey}
    {t : Tuple} {pkt pkt' : Packet} {o : Owned} {range : Option (UInt16 × UInt16)}
    (h : reassembleAndDispatch e.streams t pkt o range = .ok (streams, pkt')) :
    Reached e₀ { e with streams } := by
  obtain ⟨before, hsmall, hbefore⟩ := he.streams
  refine ⟨he.flows, ?_, he.frags⟩
  unfold reassembleAndDispatch at h
  cases hseg : segmentOf o range with
  | none =>
      rw [hseg] at h
      cases h
      exact ⟨before, hsmall, hbefore⟩
  | some segment =>
      rw [hseg] at h
      obtain ⟨r, -, hr⟩ := map_eq_ok_iff.mp h
      cases hr
      refine ⟨before ++ [⟨streamKey t, pkt.transport.tcpSeq.getD 0, segment⟩], fun g hg => ?_, ?_⟩
      · rcases List.mem_append.mp hg with hg | hg
        · exact hsmall g hg
        · rw [List.mem_singleton.mp hg]
          exact length_segmentOf hseg
      · rw [StreamTable.run_concat, ← hbefore]
        rfl

/-- **Absorbing a record makes at most one call to each table.** -/
theorem Reached.step {defer : Bool} {e e' : Engine} {o : Owned} {row : Packet}
    (he : Reached e₀ e) (h : step defer e o = .ok (e', row)) : Reached e₀ e' := by
  obtain ⟨⟨frags, fragTuple, pkt⟩, hpass, h⟩ := bind_eq_ok_iff.mp h
  obtain ⟨⟨e₁, pkt₁⟩, hjoin, hr⟩ := bind_eq_ok_iff.mp h
  cases hr
  have hfrags := he.fragmentPass hpass
  cases htuple : (dissectOne o defer).tuple.or fragTuple with
  | none =>
      rw [htuple] at hjoin
      cases hjoin
      exact ⟨hfrags.flows, hfrags.streams, hfrags.frags⟩
  | some t =>
      rw [htuple] at hjoin
      obtain ⟨⟨streams, pkt₂⟩, hreasm, hr⟩ := bind_eq_ok_iff.mp hjoin
      cases hr
      have hstreams := hfrags.reassemble hreasm
      obtain ⟨calls, hcalls⟩ := hstreams.flows
      refine ⟨⟨calls ++ [⟨t, pkt₂, o.tsNs, e.nextPacketId + 1, o.origLen.toUInt64⟩], ?_⟩,
        hstreams.streams, hstreams.frags⟩
      rw [FlowTable.run_concat, ← hcalls]
      rfl

/-- **Each table of the engine is a run of that table.** -/
theorem reached_of_scan {defer : Bool} {e : Engine} {os : List Owned} {rows : List Packet}
    (h : scan (Engine.step defer) e₀ os = .ok (e, rows)) : Reached e₀ e :=
  ChunkedRun.scan_history (I := fun _ e => Reached e₀ e) []
    (fun _ _ _ _ _ _ he h => he.step h) (reached_self e₀) h

end Reached

end Engine

/-! ### Streams -/

/-- A stream within its limits. -/
structure Stream.Small (maxBytes : ℕ) (s : Stream) : Prop where
  buf : s.buf.length ≤ maxBytes
  pending : s.pending.length ≤ Stream.maxPending
  segment : ∀ p ∈ s.pending, p.2.length ≤ maxSegment

theorem sum_map_le {α : Type} {xs : List α} {f : α → ℕ} {bound : ℕ} (h : ∀ x ∈ xs, f x ≤ bound) :
    (xs.map f).sum ≤ xs.length * bound := by
  have hsum := List.sum_le_card_nsmul (xs.map f) bound fun n hn => by
    obtain ⟨x, hx, rfl⟩ := List.mem_map.mp hn
    exact h x hx
  rwa [List.length_map, smul_eq_mul] at hsum

namespace Stream

/-- The bytes of a stream within its limits. -/
theorem Small.retained_le {maxBytes : ℕ} {s : Stream} (h : s.Small maxBytes) :
    s.retained ≤ maxBytes + maxPending * maxSegment := by
  have hpending : payloadBytes s.pending ≤ s.pending.length * maxSegment := sum_map_le h.segment
  have hcount := Nat.mul_le_mul_right maxSegment h.pending
  have hbuf := h.buf
  unfold retained
  omega

/-- Draining keeps some of the held segments. -/
theorem sublist_drainLoop (base : UInt32) (fuel : ℕ) (buf : Bytes) (held : List (UInt32 × Bytes)) :
    (drainLoop base fuel buf held).2.Sublist held := by
  induction fuel generalizing buf held with
  | zero => exact List.Sublist.refl _
  | succ fuel ih =>
      unfold drainLoop
      split
      · exact (ih _ _).trans List.eraseP_sublist
      · exact List.Sublist.refl _

/-- **A push keeps a stream within its limits.** -/
theorem Small.push {maxBytes : ℕ} {s : Stream} (h : s.Small maxBytes) (seq : UInt32)
    {payload : Bytes} (hne : payload ≠ []) (hlen : payload.length ≤ maxSegment) :
    (s.push maxBytes seq payload).1.Small maxBytes := by
  have hbuf := length_push_le s maxBytes seq payload
  have hpushed := pushed_push h.buf seq hne
  generalize s.push maxBytes seq payload = r at hbuf hpushed
  cases hpushed with
  | grow =>
      have hclip : ∀ s : Stream, (s.clip maxBytes).1.pending = s.pending := fun s => by
        unfold clip
        split <;> rfl
      have hsub : ((s.grown seq payload).clip maxBytes).1.pending.Sublist s.pending := by
        rw [hclip]
        exact sublist_drainLoop _ _ _ _
      exact ⟨hbuf, hsub.length_le.trans h.pending, fun p hp => h.segment p (hsub.subset hp)⟩
  | copy => exact ⟨hbuf, h.pending, h.segment⟩
  | hold _ _ hroom =>
      refine ⟨hbuf, ?_, fun p hp => ?_⟩
      · rw [List.length_append]
        exact hroom
      · rcases List.mem_append.mp hp with hp | hp
        · exact h.segment p hp
        · rw [List.mem_singleton.mp hp]
          exact hlen
  | overflow => exact ⟨hbuf, Nat.zero_le _, nofun⟩
  | beyond => exact ⟨hbuf, h.pending, h.segment⟩

end Stream

/-! ### Tables -/

section Tables

variable {κ : Type} [DecidableEq κ]

/-- The table holds at most as many streams as it may, each within its limits. -/
structure StreamTable.Small (maxStreams maxBytes : ℕ) (t : StreamTable κ) : Prop where
  len_le : len t.streams ≤ maxStreams
  small : ∀ key, (t.entry key).Small maxBytes

theorem StreamTable.small_run (maxStreams maxBytes : ℕ) {segs : List (Segment κ)}
    (hsegs : ∀ g ∈ segs, g.payload.length ≤ maxSegment) :
    ((new maxStreams maxBytes).run segs).Small maxStreams maxBytes := by
  induction segs using List.reverseRecOn with
  | nil => exact ⟨Nat.zero_le _, fun _ => ⟨Nat.zero_le _, Nat.zero_le _, nofun⟩⟩
  | append_singleton segs g ih =>
      have hsmall := ih fun x hx => hsegs x (List.mem_append_left _ hx)
      have hbytes : ((new maxStreams maxBytes).run segs).maxBytes = maxBytes := run_maxBytes _ _
      have hmax : ((new maxStreams maxBytes).run segs).maxStreams = maxStreams :=
        run_maxStreams _ _
      rw [run_concat]
      by_cases ht : ((new maxStreams maxBytes).run segs).Takes g
      · have hroom := ht.2
        rw [hmax] at hroom
        refine ⟨?_, fun key => ?_⟩
        · rw [push_eq_of_admits ht.1 ht.2]
          exact BoundedTable.len_insert_le hroom hsmall.len_le
        · by_cases hkey : key = g.key
          · rw [hkey, entry_push_self ht, hbytes]
            exact (hsmall.small g.key).push g.seq ht.1 (hsegs g (by simp))
          · rw [entry_push_of_ne _ hkey]
            exact hsmall.small key
      · have hsame := (push_of_not_takes ht).2.1
        refine ⟨hsame ▸ hsmall.len_le, fun key => ?_⟩
        rw [entry_congr hsame]
        exact hsmall.small key

theorem StreamTable.Small.of_mem {maxStreams maxBytes : ℕ} {t : StreamTable κ}
    (h : t.Small maxStreams maxBytes) {s : Stream} (hs : s ∈ values t.streams) :
    s.Small maxBytes := by
  obtain ⟨key, hkey⟩ := BoundedTable.mem_values_iff.mp hs
  have hentry := h.small key
  rwa [entry, hkey] at hentry

/-- The bytes of the pieces of a datagram. -/
def FragSet.held (set : FragSet) : ℕ := (set.pieces.map fun q => q.2.length).sum

theorem FragTable.held_le_of_mem {maxSets maxBytes : ℕ} {frags : List (Fragment κ)} {set : FragSet}
    (hset : set ∈ values ((new maxSets maxBytes).run frags).sets) : set.held ≤ maxBytes := by
  obtain ⟨key, hkey⟩ := BoundedTable.mem_values_iff.mp hset
  have hentry : ((new maxSets maxBytes).run frags).entry key = set := by
    rw [entry, hkey]
    rfl
  have heq := bytesHeld_run_eq maxSets maxBytes key frags
  have hle := bytesHeld_run_le maxSets maxBytes key frags
  rw [heq, hentry] at hle
  exact hle

end Tables

/-! ### The engine -/

/-- The bytes of packets that the engine keeps: those of the streams and those of the datagrams. -/
def Engine.heldBytes (e : Engine) : ℕ :=
  ((values e.streams.streams).map Stream.retained).sum +
    ((values e.frags.sets).map FragSet.held).sum

theorem length_values {κ β : Type} (t : AList fun _ : κ => β) : (values t).length = len t := by
  rw [values, List.length_map, len]
  exact (List.length_map _).symm

/-- **The memory of a run is bounded.**  After any records, the engine has at most the number of
flows, streams and datagrams of its configuration; a stream has a buffer within the byte limit and
at most 64 held segments, each as long as sixteen bits can say; a datagram has pieces within its byte
limit; and so what the engine keeps of the capture is bounded by the configuration alone. -/
theorem held_of_scan_le [Hashes] {defer : Bool} {cfg : Config} {e : Engine} {os : List Owned}
    {rows : List Packet} (h : scan (Engine.step defer) (Engine.new cfg) os = .ok (e, rows)) :
    len e.flows.flows ≤ cfg.maxFlows ∧ len e.streams.streams ≤ cfg.maxStreams ∧
      len e.frags.sets ≤ cfg.maxFragSets ∧
      (∀ s ∈ values e.streams.streams, s.Small cfg.maxStreamBytes) ∧
      (∀ set ∈ values e.frags.sets, set.held ≤ cfg.maxFragBytes) ∧
      e.heldBytes ≤ cfg.maxStreams * (cfg.maxStreamBytes + Stream.maxPending * maxSegment) +
        cfg.maxFragSets * cfg.maxFragBytes := by
  obtain ⟨⟨calls, hcalls⟩, ⟨segs, hsegs, hstreams⟩, ⟨frags, hfrags⟩⟩ := Engine.reached_of_scan h
  change e.flows = (FlowTable.new cfg.maxFlows).run calls at hcalls
  change e.streams = (StreamTable.new cfg.maxStreams cfg.maxStreamBytes).run segs at hstreams
  change e.frags = (FragTable.new cfg.maxFragSets cfg.maxFragBytes).run frags at hfrags
  have hflowCount : len e.flows.flows ≤ cfg.maxFlows := by
    have hle := (FlowTable.good_run cfg.maxFlows calls).len_le
    rwa [FlowTable.run_maxFlows, ← hcalls] at hle
  have hsmall : e.streams.Small cfg.maxStreams cfg.maxStreamBytes := by
    rw [hstreams]
    exact StreamTable.small_run _ _ hsegs
  have hsets : len e.frags.sets ≤ cfg.maxFragSets := by
    rw [hfrags]
    exact FragTable.len_sets_run_le _ _ _
  have hheld : ∀ set ∈ values e.frags.sets, set.held ≤ cfg.maxFragBytes := by
    rw [hfrags]
    exact fun set hset => FragTable.held_le_of_mem hset
  refine ⟨hflowCount, hsmall.len_le, hsets, fun s hs => hsmall.of_mem hs, hheld, ?_⟩
  have hstreamBytes := sum_map_le fun s hs => (hsmall.of_mem hs).retained_le
  have hsetBytes := sum_map_le hheld
  rw [length_values] at hstreamBytes hsetBytes
  exact Nat.add_le_add (hstreamBytes.trans (Nat.mul_le_mul_right _ hsmall.len_le))
    (hsetBytes.trans (Nat.mul_le_mul_right _ hsets))

/-- The first fragment of a segment: its datagram is held, and what it has of the segment is
buffered, up to a limit of four bytes. -/
theorem held_of_scan_le_dataFirst : dataFirst.data.length = 58 ∧ ∀ _ : Hashes, ∃ e rows,
    scan (Engine.step true) (Engine.new { maxStreamBytes := 4 }) [dataFirst] = .ok (e, rows) ∧
      len e.streams.streams = 1 ∧ len e.frags.sets = 1 ∧ e.heldBytes = 4 + dataHead.length ∧
      e.heldBytes ≤ ({} : Config).maxStreams * (4 + Stream.maxPending * maxSegment) +
        ({} : Config).maxFragSets * ({} : Config).maxFragBytes := by
  refine ⟨rfl, fun _ => ?_⟩
  obtain ⟨e, row, hstep⟩ := step_dataFirst (.inr rfl)
  have hscan : scan (Engine.step true) (Engine.new { maxStreamBytes := 4 }) [dataFirst] =
      .ok (e, [row]) := by
    rw [ChunkedRun.scan_cons_of_ok hstep]
    rfl
  have hstreams : e.streams = (Engine.new { maxStreamBytes := 4 }).streams.run
      [⟨Engine.streamKey dataTuple, 1000, Text.ascii "ABCD"⟩] := by
    rw [Engine.step_streams hstep]
    rfl
  have hfrags : e.frags = (Engine.new { maxStreamBytes := 4 }).frags.run
      [⟨synKey, 0, true, dataHead⟩] := scan_frags rfl hscan
  obtain ⟨-, -, -, -, -, hheld⟩ := held_of_scan_le hscan
  refine ⟨e, [row], hscan, ?_, ?_, ?_, hheld⟩
  · rw [hstreams]
    rfl
  · rw [hfrags]
    rfl
  · rw [Engine.heldBytes, hstreams, hfrags]
    rfl

/-! ### Empty fragments -/

/-- An IP packet without payload that claims to be the middle of a datagram. -/
def emptyFragment : RawPacket :=
  { tsNs := 0, capLen := 20, origLen := 20, ifaceId := 0, linktype := 101,
    data := [0x45, 0x00, 0x00, 0x14, 0x00, 0x01, 0x20, 0x01, 0x40, 0x11, 0x00, 0x00,
      0x0a, 0x00, 0x00, 0x05, 0x5d, 0xb8, 0xd8, 0x22],
    data_le := by decide }

/-- What it pushes. -/
def emptyPiece : Fragment FragKey :=
  { key := ⟨.v4 0x0a000005, .v4 0x5db8d822, 1, 17⟩, offset := 8, moreFragments := true, data := [] }

theorem dissectOne_emptyFragment [Hashes] : (dissectOne emptyFragment.own true).tuple = none ∧
    (dissectOne emptyFragment.own true).frag =
      some ⟨emptyPiece.key, emptyPiece.offset, emptyPiece.moreFragments, emptyPiece.data⟩ :=
  ⟨rfl, rfl⟩

section Stuck

variable {κ : Type} [DecidableEq κ]

/-- A table whose only datagram has `n` empty pieces. -/
def FragTable.stuck (maxSets maxBytes : ℕ) (g : Fragment κ) (n : ℕ) : FragTable κ :=
  { sets := AList.singleton g.key { pieces := List.replicate n (g.offset, []) }, maxSets, maxBytes,
    dropped := 0, completed := 0 }

/-- An empty fragment of a datagram that is not complete is one more piece. -/
theorem FragSet.add_empty {set : FragSet} {maxBytes : ℕ} (htotal : set.totalLen = none)
    (hheld : set.bytesHeld = 0) (offset : UInt16) :
    set.add maxBytes offset true [] =
      .waiting { pieces := set.pieces ++ [(offset, [])] } := by
  have hrecord : set.record offset true [] = { pieces := set.pieces ++ [(offset, [])] } := by
    rw [record, htotal, hheld]
    rfl
  rw [add, hheld, List.length_nil, if_neg (Nat.not_lt_zero _), hrecord]
  rfl

theorem FragTable.push_new_empty {maxSets maxBytes : ℕ} (hsets : 0 < maxSets) {g : Fragment κ}
    (hmore : g.moreFragments = true) (hdata : g.data = []) :
    (new maxSets maxBytes).pushFragment g = (none, stuck maxSets maxBytes g 1) := by
  have hroom : ¬ Refuses maxSets (∅ : AList fun _ : κ => FragSet) g.key := fun hr =>
    absurd hr.2 (Nat.not_le.mpr hsets)
  have hadd : ((new maxSets maxBytes).entry g.key).add maxBytes g.offset g.moreFragments g.data =
      .waiting { pieces := [(g.offset, [])] } := by
    rw [hmore, hdata]
    exact FragSet.add_empty rfl rfl g.offset
  rw [pushFragment, push_of_admits hroom]
  change (new maxSets maxBytes).settle g.key (((new maxSets maxBytes).entry g.key).add maxBytes ..) = _
  rw [hadd]
  rfl

theorem FragTable.push_stuck_empty (maxSets maxBytes : ℕ) {g : Fragment κ}
    (hmore : g.moreFragments = true) (hdata : g.data = []) (n : ℕ) :
    (stuck maxSets maxBytes g n).pushFragment g = (none, stuck maxSets maxBytes g (n + 1)) := by
  have hmem : g.key ∈ (stuck maxSets maxBytes g n).sets := AList.mem_keys.mpr List.mem_cons_self
  have hentry : (stuck maxSets maxBytes g n).entry g.key =
      { pieces := List.replicate n (g.offset, []) } := by
    have hlookup : (stuck maxSets maxBytes g n).sets.lookup g.key =
        some { pieces := List.replicate n (g.offset, []) } := List.dlookup_cons_eq _ _ _
    rw [entry, hlookup]
    rfl
  have hadd : ((stuck maxSets maxBytes g n).entry g.key).add maxBytes g.offset g.moreFragments
      g.data = .waiting { pieces := List.replicate (n + 1) (g.offset, []) } := by
    rw [hentry, hmore, hdata, List.replicate_succ']
    exact FragSet.add_empty rfl rfl g.offset
  rw [pushFragment, push_of_admits (BoundedTable.not_refuses_of_mem hmem)]
  change (stuck maxSets maxBytes g n).settle g.key
    (((stuck maxSets maxBytes g n).entry g.key).add maxBytes ..) = _
  rw [hadd]
  unfold settle stuck
  dsimp only
  rw [AList.insert_singleton_eq]

end Stuck

section Run

variable [Hashes]

/-- Absorbing an empty fragment of a datagram that stays incomplete. -/
theorem Engine.step_emptyFragment {e : Engine} (hre : e.reassemble = true)
    {frags : FragTable FragKey} (hpush : e.frags.pushFragment emptyPiece = (none, frags)) :
    ∃ e' row, step true e emptyFragment.own = .ok (e', row) ∧ e'.frags = frags ∧
      e'.streams = e.streams ∧ e'.reassemble = true := by
  obtain ⟨htuple, hfrag⟩ := dissectOne_emptyFragment
  have hpass : ∀ pkt, fragmentPass e.frags (dissectOne emptyFragment.own true).frag pkt =
      .ok (frags, none, pkt) := fun pkt => by
    have hpush' : e.frags.push emptyPiece.key emptyPiece.offset emptyPiece.moreFragments
        emptyPiece.data = (none, frags) := hpush
    rw [hfrag]
    simp only [fragmentPass, hpush']
  unfold step absorbOne
  rw [hre, if_pos rfl, hpass, htuple]
  exact ⟨_, _, rfl, rfl, rfl, rfl⟩

/-- **The number of pieces is not bounded.**  Whatever the limits, as long as there is room for one
datagram: after any number of empty fragments the engine holds one datagram with as many pieces,
and not a single byte. -/
theorem pieces_of_emptyFragments {cfg : Config} (hre : cfg.reassemble = true)
    (hsets : 0 < cfg.maxFragSets) (n : ℕ) :
    ∃ e rows set, scan (Engine.step cfg.reassemble) (Engine.new cfg)
        (List.replicate (n + 1) emptyFragment.own) = .ok (e, rows) ∧
      values e.frags.sets = [set] ∧ set.pieces.length = n + 1 ∧ e.heldBytes = 0 := by
  have hrun : ∃ e rows, scan (Engine.step true) (Engine.new cfg)
      (List.replicate (n + 1) emptyFragment.own) = .ok (e, rows) ∧
      e.frags = FragTable.stuck cfg.maxFragSets cfg.maxFragBytes emptyPiece (n + 1) ∧
      e.streams = StreamTable.new cfg.maxStreams cfg.maxStreamBytes ∧ e.reassemble = true := by
    induction n with
    | zero =>
        obtain ⟨e, row, hstep, hfrags, hstreams, hreasm⟩ := Engine.step_emptyFragment
          (e := Engine.new cfg) hre (FragTable.push_new_empty hsets rfl rfl)
        refine ⟨e, [row], ?_, hfrags, hstreams, hreasm⟩
        rw [List.replicate_one, ChunkedRun.scan_cons_of_ok hstep]
        rfl
    | succ n ih =>
        obtain ⟨e, rows, hscan, hfrags, hstreams, hreasm⟩ := ih
        have hpush := FragTable.push_stuck_empty cfg.maxFragSets cfg.maxFragBytes (g := emptyPiece)
          rfl rfl (n + 1)
        rw [← hfrags] at hpush
        obtain ⟨e', row, hstep, hfrags', hstreams', hreasm'⟩ :=
          Engine.step_emptyFragment hreasm hpush
        refine ⟨e', rows ++ [row], ?_, hfrags', hstreams'.trans hstreams, hreasm'⟩
        rw [List.replicate_succ', ChunkedRun.scan_append_of_ok hscan,
          ChunkedRun.scan_cons_of_ok hstep]
        rfl
  obtain ⟨e, rows, hscan, hfrags, hstreams, -⟩ := hrun
  rw [← hre] at hscan
  refine ⟨e, rows, { pieces := List.replicate (n + 1) (emptyPiece.offset, []) }, hscan, ?_, ?_, ?_⟩
  · rw [hfrags]
    rfl
  · exact List.length_replicate
  · have hempty : FragSet.held { pieces := List.replicate (n + 1) (emptyPiece.offset, []) } = 0 := by
      rw [FragSet.held, List.map_replicate, List.sum_replicate]
      rfl
    rw [Engine.heldBytes, hfrags, hstreams]
    exact (congrArg (0 + ·) ((Nat.add_zero _).trans hempty)).trans (Nat.zero_add 0)

end Run

/-- Four empty fragments, under the default limits. -/
theorem pieces_of_emptyFragments_four :
    ({} : Config).reassemble = true ∧ ∀ _ : Hashes, ∃ e rows set,
      scan (Engine.step ({} : Config).reassemble) (Engine.new {})
        (List.replicate (3 + 1) emptyFragment.own) = .ok (e, rows) ∧
      values e.frags.sets = [set] ∧ set.pieces.length = 3 + 1 ∧ e.heldBytes = 0 :=
  ⟨rfl, fun _ => pieces_of_emptyFragments rfl (by decide) 3⟩

end PcapRacer
