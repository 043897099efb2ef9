/-
**Any arrival order reassembles the stream.**

A byte string is cut into non-empty consecutive segments; the first one arrives first and the
others in any order.  As long as the stream never holds more than `Stream.maxPending` segments at
once, the buffer ends up being the byte string, and nothing stays behind.

The invariant `Stream.Filling` relates a stream to the set of segments that have arrived: the
buffer is the concatenation of the segments before the first gap, and the held segments are
exactly those past it.  A segment that fills the gap makes the buffer catch up with the next gap,
which is what the drain loop computes (`Stream.drainLoop_filling`).

Main definitions:

* `Stream.segAt` — a segment of the cut as it travels: sequence number and payload;
* `Stream.Filling` — the invariant.

Main results:

* `Stream.Filling.push_gap`, `Stream.Filling.push_ahead` — one arrival keeps the invariant;
* `StreamTable.run_any_order` — **the result does not depend on the order of arrival**.
-/

import PcapRacer.Pieces
import PcapRacer.StreamTable

set_option relaxedAutoImplicit false
set_option autoImplicit false

namespace PcapRacer

open Pieces (offset held)
open BoundedTable (len Refuses)

namespace Stream

/-- Segment number `k` of a cut as it travels: its sequence number and its payload. -/
def segAt (isn : UInt32) (pieces : List Bytes) (k : ℕ) : UInt32 × Bytes :=
  (isn + UInt32.ofNat (offset pieces k), pieces.getD k [])

/-! ### Sequence numbers and offsets -/

section Cut

variable {pieces : List Bytes} {isn : UInt32}

/-- A sequence number determines the offset it stands for. -/
theorem toNat_seq_sub {n : ℕ} (h : n < 2 ^ 32) : (isn + UInt32.ofNat n - isn).toNat = n := by
  rw [UInt32.add_comm, UInt32.add_sub_cancel]
  exact UInt32.toNat_ofNat_of_lt h

theorem offset_lt_of_lt (hne : ∀ p ∈ pieces, p ≠ []) (h32 : pieces.flatten.length < 2 ^ 32)
    {k : ℕ} (hk : k < pieces.length) : offset pieces k < 2 ^ 32 :=
  Nat.lt_trans (Pieces.offset_lt_length hne hk) h32

/-- The segment whose sequence number sits flush against the first `f` segments is number `f`. -/
theorem eq_of_segAt_eq_bufEnd (hne : ∀ p ∈ pieces, p ≠ [])
    (h32 : pieces.flatten.length < 2 ^ 32) {f k : ℕ} (hf : f ≤ pieces.length)
    (hk : k < pieces.length)
    (h : (segAt isn pieces k).1 = bufEnd isn (pieces.take f).flatten) : k = f := by
  have hfle : offset pieces f ≤ pieces.flatten.length := by
    rcases Nat.lt_or_ge f pieces.length with hlt | hge
    · exact Nat.le_of_lt (Pieces.offset_lt_length hne hlt)
    · have : f = pieces.length := by omega
      rw [this, Pieces.offset_length]
  have hk' : (isn + UInt32.ofNat (offset pieces k) - isn).toNat = offset pieces k :=
    toNat_seq_sub (offset_lt_of_lt hne h32 hk)
  have hf' : (isn + UInt32.ofNat (offset pieces f) - isn).toNat = offset pieces f :=
    toNat_seq_sub (by omega)
  have hseq : isn + UInt32.ofNat (offset pieces k) = isn + UInt32.ofNat (offset pieces f) := h
  refine Pieces.offset_inj hne (Nat.le_of_lt hk) hf ?_
  rw [← hk', ← hf', hseq]

/-! ### The drain loop catches up with the gap -/

/-- What draining leaves when the first `f` segments are in the buffer and the segments `hs` are
held: the buffer has caught up with the gap `f'`, and `hs'` are still held. -/
structure CaughtUp (isn : UInt32) (pieces : List Bytes) (f : ℕ) (hs : List ℕ) (f' : ℕ)
    (hs' : List ℕ) (buf : Bytes) (pending : List (UInt32 × Bytes)) : Prop where
  le : f ≤ f'
  le_length : f' ≤ pieces.length
  filled : ∀ k, f ≤ k → k < f' → k ∈ hs
  gap : f' ∉ hs
  nodup : hs'.Nodup
  mem_iff : ∀ k, k ∈ hs' ↔ k ∈ hs ∧ f' < k
  buf_eq : buf = (pieces.take f').flatten
  held : pending.Perm (hs'.map (segAt isn pieces))

/-- Taking the flush segment `f` first. -/
theorem CaughtUp.cons {f : ℕ} {hs : List ℕ} {f' : ℕ} {hs' : List ℕ} {buf : Bytes}
    {pending : List (UInt32 × Bytes)} (hnd : hs.Nodup) (hf : f ∈ hs)
    (h : CaughtUp isn pieces (f + 1) (hs.erase f) f' hs' buf pending) :
    CaughtUp isn pieces f hs f' hs' buf pending := by
  have hle := h.le
  refine ⟨by omega, h.le_length, fun k h₁ h₂ => ?_, fun hg => ?_, h.nodup, fun k => ?_, h.buf_eq,
    h.held⟩
  · rcases Nat.eq_or_lt_of_le h₁ with rfl | hlt
    · exact hf
    · exact List.mem_of_mem_erase (h.filled k hlt h₂)
  · exact h.gap ((hnd.mem_erase_iff).2 ⟨by omega, hg⟩)
  · rw [h.mem_iff, hnd.mem_erase_iff]
    constructor
    · rintro ⟨⟨_, hk⟩, hlt⟩
      exact ⟨hk, hlt⟩
    · rintro ⟨hk, hlt⟩
      exact ⟨⟨by omega, hk⟩, hlt⟩

/-- If the buffer is the first `f` segments and the segments `hs`, all from `f` on, are held, then
draining appends as many of them as follow without a gap. -/
theorem drainLoop_filling (hne : ∀ p ∈ pieces, p ≠ []) (h32 : pieces.flatten.length < 2 ^ 32)
    (fuel f : ℕ) (hs : List ℕ) (pending : List (UInt32 × Bytes)) (hf : f ≤ pieces.length)
    (hnd : hs.Nodup) (hge : ∀ k ∈ hs, f ≤ k ∧ k < pieces.length)
    (hperm : pending.Perm (hs.map (segAt isn pieces))) (hfuel : hs.length ≤ fuel) :
    ∃ (f' : ℕ) (hs' : List ℕ), CaughtUp isn pieces f hs f' hs'
      (drainLoop isn fuel (pieces.take f).flatten pending).1
      (drainLoop isn fuel (pieces.take f).flatten pending).2 := by
  induction fuel generalizing f hs pending with
  | zero =>
      have hnil : hs = [] := List.eq_nil_of_length_eq_zero (by omega)
      subst hnil
      exact ⟨f, [], ⟨Nat.le_refl _, hf, fun k h₁ h₂ => by omega, by simp, by simp, by simp, rfl,
        hperm⟩⟩
  | succ fuel ih =>
      unfold drainLoop
      split
      · next p hp =>
          -- the flush segment is number `f`, and it is the only one with its sequence number
          have hpm : p ∈ hs.map (segAt isn pieces) :=
            hperm.mem_iff.1 (List.mem_of_find?_eq_some hp)
          obtain ⟨k, hk, rfl⟩ := List.mem_map.1 hpm
          have hkf : k = f :=
            eq_of_segAt_eq_bufEnd hne h32 hf (hge k hk).2 (by simpa using List.find?_some hp)
          subst hkf
          have hlt := (hge k hk).2
          have hbuf : (pieces.take k).flatten ++ (segAt isn pieces k).2 =
              (pieces.take (k + 1)).flatten := by
            rw [Pieces.flatten_take_succ hlt]
            simp [segAt, hlt]
          have hperm' : (pending.eraseP fun p => p.1 == bufEnd isn (pieces.take k).flatten).Perm
              ((hs.erase k).map (segAt isn pieces)) := by
            refine List.Perm.cons_inv (a := segAt isn pieces k) ?_
            exact ((Pieces.perm_cons_eraseP hp).symm.trans hperm).trans
              ((List.perm_cons_erase hk).map (segAt isn pieces))
          have hge' : ∀ j ∈ hs.erase k, k + 1 ≤ j ∧ j < pieces.length := by
            intro j hj
            obtain ⟨hjk, hj⟩ := (hnd.mem_erase_iff).1 hj
            have := hge j hj
            omega
          have hlen : (hs.erase k).length ≤ fuel := by
            rw [List.length_erase_of_mem hk]
            omega
          rw [hbuf]
          obtain ⟨f', hs', h⟩ := ih (k + 1) (hs.erase k) _ hlt (hnd.erase k) hge' hperm' hlen
          exact ⟨f', hs', h.cons hnd hk⟩
      · next hnone =>
          -- nothing is flush, so segment `f` is not among the held ones
          have hgap : f ∉ hs := by
            intro hfm
            have hmem := hperm.mem_iff.2 (List.mem_map_of_mem hfm)
            have := List.find?_eq_none.1 hnone _ hmem
            simp [segAt, bufEnd, offset] at this
          refine ⟨f, hs, ⟨Nat.le_refl _, hf, fun k h₁ h₂ => by omega, hgap, hnd, fun k => ?_, rfl,
            hperm⟩⟩
          constructor
          · intro hk
            have := (hge k hk).1
            exact ⟨hk, Nat.lt_of_le_of_ne this fun h => hgap (h ▸ hk)⟩
          · exact fun h => h.1

/-! ### The invariant -/

/-- The segments `arrived` have arrived: the buffer is everything before the first gap `f`, and
the segments `hs` past it are held. -/
structure Filling (isn : UInt32) (pieces : List Bytes) (arrived : List ℕ) (f : ℕ) (hs : List ℕ)
    (s : Stream) : Prop where
  base : s.baseSeq = some isn
  le_length : f ≤ pieces.length
  filled : ∀ k < f, k ∈ arrived
  gap : f ∉ arrived
  nodup : hs.Nodup
  mem_iff : ∀ k, k ∈ hs ↔ k ∈ arrived ∧ f < k
  buf_eq : s.buf = (pieces.take f).flatten
  held : s.pending.Perm (hs.map (segAt isn pieces))
  not_truncated : s.truncated = false

theorem length_take_flatten_le {f : ℕ} : (pieces.take f).flatten.length ≤ pieces.flatten.length := by
  conv_rhs => rw [← List.take_append_drop f pieces]
  rw [List.flatten_append, List.length_append]
  omega

/-- A push to a stream that knows its base, in terms of where the segment is placed. -/
theorem push_eq_of_place {s placed : Stream} {base seq : UInt32} {maxBytes off : ℕ}
    {payload : Bytes} {grew : Bool} (hbase : s.baseSeq = some base)
    (hoff : (seq - base).toNat = off) (hplace : s.place maxBytes seq off payload = (placed, grew)) :
    s.push maxBytes seq payload =
      (if grew && !placed.pending.isEmpty then placed.drain base else placed).clip maxBytes := by
  subst hoff
  have hs : { s with baseSeq := some base } = s := by
    cases s
    cases hbase
    rfl
  simp only [push, hbase, Option.getD_some, hs, hplace]

/-- The segment that fills the gap: the buffer catches up with the next gap. -/
theorem Filling.push_gap {arrived : List ℕ} {f : ℕ} {hs : List ℕ} {s : Stream} {maxBytes : ℕ}
    (h : Filling isn pieces arrived f hs s) (hne : ∀ p ∈ pieces, p ≠ [])
    (h32 : pieces.flatten.length < 2 ^ 32) (hcap : pieces.flatten.length ≤ maxBytes)
    (hlt : f < pieces.length) (harr : ∀ k ∈ arrived, k < pieces.length) :
    ∃ (f' : ℕ) (hs' : List ℕ), Filling isn pieces (arrived ++ [f]) f' hs'
      (s.push maxBytes (segAt isn pieces f).1 (segAt isn pieces f).2).1 := by
  have hge : ∀ k ∈ hs, f + 1 ≤ k ∧ k < pieces.length := fun k hk =>
    ⟨((h.mem_iff k).1 hk).2, harr k ((h.mem_iff k).1 hk).1⟩
  obtain ⟨f', hs', hc⟩ := drainLoop_filling hne h32 s.pending.length (f + 1) hs s.pending hlt
    h.nodup hge h.held (by rw [h.held.length_eq, List.length_map])
  have hoff : ((segAt isn pieces f).1 - isn).toNat = offset pieces f :=
    toNat_seq_sub (offset_lt_of_lt hne h32 hlt)
  have hplace : s.place maxBytes (segAt isn pieces f).1 (offset pieces f) (segAt isn pieces f).2 =
      ({ s with buf := (pieces.take (f + 1)).flatten }, true) := by
    rw [place, if_pos (by rw [h.buf_eq]; rfl), Pieces.flatten_take_succ hlt, h.buf_eq]
    simp [segAt, hlt]
  have hpush : (s.push maxBytes (segAt isn pieces f).1 (segAt isn pieces f).2).1 =
      { s with buf := (drainLoop isn s.pending.length (pieces.take (f + 1)).flatten s.pending).1,
               pending :=
                 (drainLoop isn s.pending.length (pieces.take (f + 1)).flatten s.pending).2 } := by
    rw [push_eq_of_place h.base hoff hplace, drain_ite, clip_eq_self]
    · rfl
    · simp only [drain]
      rw [hc.buf_eq]
      exact Nat.le_trans length_take_flatten_le hcap
  have hle := hc.le
  rw [hpush]
  refine ⟨f', hs', ⟨h.base, hc.le_length, fun k hk => ?_, fun hg => ?_, hc.nodup, fun k => ?_,
    hc.buf_eq, hc.held, h.not_truncated⟩⟩
  · rcases Nat.lt_trichotomy k f with hkf | rfl | hkf
    · exact List.mem_append_left _ (h.filled k hkf)
    · simp
    · exact List.mem_append_left _ ((h.mem_iff k).1 (hc.filled k hkf hk)).1
  · rcases List.mem_append.1 hg with hg | hg
    · exact hc.gap ((h.mem_iff f').2 ⟨hg, by omega⟩)
    · have : f' = f := by simpa using hg
      omega
  · rw [hc.mem_iff, h.mem_iff, List.mem_append, List.mem_singleton]
    constructor
    · rintro ⟨⟨hk, _⟩, hlt⟩
      exact ⟨Or.inl hk, hlt⟩
    · rintro ⟨hk | hk, hlt⟩
      · exact ⟨⟨hk, by omega⟩, hlt⟩
      · omega

/-- A segment past the gap is held back. -/
theorem Filling.push_ahead {arrived : List ℕ} {f k : ℕ} {hs : List ℕ} {s : Stream}
    {maxBytes : ℕ} (h : Filling isn pieces arrived f hs s) (hne : ∀ p ∈ pieces, p ≠ [])
    (h32 : pieces.flatten.length < 2 ^ 32) (hcap : pieces.flatten.length ≤ maxBytes)
    (hfk : f < k) (hk : k < pieces.length) (hnd : (arrived ++ [k]).Nodup)
    (hheld : (Pieces.held (arrived ++ [k])).length ≤ maxPending) :
    Filling isn pieces (arrived ++ [k]) f (hs ++ [k])
      (s.push maxBytes (segAt isn pieces k).1 (segAt isn pieces k).2).1 := by
  have hknew : k ∉ arrived := fun hmem => by
    simpa using List.disjoint_of_nodup_append hnd hmem
  have hgap : f ∉ arrived ++ [k] := by
    rw [List.mem_append, List.mem_singleton]
    rintro (hf | hf)
    · exact h.gap hf
    · omega
  have hfill : ∀ j < f, j ∈ arrived ++ [k] := fun j hj => List.mem_append_left _ (h.filled j hj)
  have hmem : ∀ j, j ∈ hs ++ [k] ↔ j ∈ arrived ++ [k] ∧ f < j := by
    intro j
    rw [List.mem_append, List.mem_append, List.mem_singleton, h.mem_iff]
    constructor
    · rintro (⟨hj, hfj⟩ | rfl)
      · exact ⟨Or.inl hj, hfj⟩
      · exact ⟨Or.inr rfl, hfk⟩
    · rintro ⟨hj | rfl, hfj⟩
      · exact Or.inl ⟨hj, hfj⟩
      · exact Or.inr rfl
  have hndhs : (hs ++ [k]).Nodup := by
    refine List.Nodup.append h.nodup (List.nodup_singleton k) ?_
    intro j hj hjk
    rw [List.mem_singleton] at hjk
    subst hjk
    exact hknew ((h.mem_iff j).1 hj).1
  have hperm : (s.pending ++ [segAt isn pieces k]).Perm ((hs ++ [k]).map (segAt isn pieces)) := by
    rw [List.map_append]
    exact h.held.append_right _
  -- the held segments are counted by the hypothesis on the arrival order
  have hcount : (s.pending ++ [segAt isn pieces k]).length ≤ maxPending := by
    rw [hperm.length_eq, List.length_map]
    refine Nat.le_trans (Nat.le_of_eq ?_) hheld
    refine ((List.perm_ext_iff_of_nodup hndhs (Pieces.nodup_held hnd)).2 fun j => ?_).length_eq
    rw [hmem, Pieces.mem_held_iff hfill hgap]
  have hbuf : s.buf.length = offset pieces f := by rw [h.buf_eq]; rfl
  have hoff : s.buf.length < offset pieces k := by
    rw [hbuf]
    exact Pieces.offset_lt_offset hne hfk (Nat.le_of_lt hk)
  have hseq : ((segAt isn pieces k).1 - isn).toNat = offset pieces k :=
    toNat_seq_sub (offset_lt_of_lt hne h32 hk)
  have hplace : s.place maxBytes (segAt isn pieces k).1 (offset pieces k) (segAt isn pieces k).2 =
      ({ s with pending := s.pending ++ [segAt isn pieces k] }, false) := by
    have hlen := Pieces.offset_lt_length hne hk
    rw [place, if_neg (Nat.ne_of_gt hoff), if_neg (Nat.not_lt.2 (Nat.le_of_lt hoff)),
      if_pos (Nat.lt_of_lt_of_le hlen hcap)]
    dsimp only
    rw [if_neg (Nat.not_lt.2 hcount)]
  have hpush : (s.push maxBytes (segAt isn pieces k).1 (segAt isn pieces k).2).1 =
      { s with pending := s.pending ++ [segAt isn pieces k] } := by
    rw [push_eq_of_place h.base hseq hplace, Bool.false_and, if_neg (by simp), clip_eq_self]
    rw [h.buf_eq]
    exact Nat.le_trans length_take_flatten_le hcap
  rw [hpush]
  exact ⟨h.base, h.le_length, hfill, hgap, hndhs, hmem, h.buf_eq, hperm, h.not_truncated⟩

/-! ### Feeding a whole arrival order -/

/-- A stream after a sequence of segments. -/
def feed (s : Stream) (maxBytes : ℕ) (segs : List (UInt32 × Bytes)) : Stream :=
  segs.foldl (fun s g => (s.push maxBytes g.1 g.2).1) s

theorem feed_concat (s : Stream) (maxBytes : ℕ) (segs : List (UInt32 × Bytes))
    (g : UInt32 × Bytes) :
    s.feed maxBytes (segs ++ [g]) = ((s.feed maxBytes segs).push maxBytes g.1 g.2).1 := by
  rw [feed, List.foldl_append]
  rfl

/-- **Every arrival order keeps the invariant**, starting from a stream that knows its base. -/
theorem feed_filling (isn : UInt32) {maxBytes : ℕ} (hne : ∀ p ∈ pieces, p ≠ [])
    (h32 : pieces.flatten.length < 2 ^ 32) (hcap : pieces.flatten.length ≤ maxBytes)
    (arrived : List ℕ) (hnd : arrived.Nodup) (harr : ∀ k ∈ arrived, k < pieces.length)
    (hheld : ∀ m, (Pieces.held (arrived.take m)).length ≤ maxPending) :
    ∃ (f : ℕ) (hs : List ℕ), Filling isn pieces arrived f hs
      (({ baseSeq := some isn } : Stream).feed maxBytes (arrived.map (segAt isn pieces))) := by
  induction arrived using List.reverseRecOn with
  | nil =>
      exact ⟨0, [], ⟨rfl, Nat.zero_le _, by simp, by simp, by simp, by simp, by simp [feed],
        by simp [feed], rfl⟩⟩
  | append_singleton arrived k ih =>
      have hpre : ∀ m, (Pieces.held (arrived.take m)).length ≤ maxPending := by
        intro m
        have := hheld (min m arrived.length)
        rw [List.take_append_of_le_length (Nat.min_le_right _ _)] at this
        rwa [List.take_eq_take_min]
      obtain ⟨f, hs, h⟩ := ih hnd.of_append_left
        (fun j hj => harr j (List.mem_append_left _ hj)) hpre
      have hk : k < pieces.length := harr k (by simp)
      rw [List.map_append, List.map_singleton, feed_concat]
      rcases Nat.lt_trichotomy k f with hkf | rfl | hkf
      · -- an arrival before the gap would be a second copy
        exact absurd (h.filled k hkf) fun hmem => by
          simpa using List.disjoint_of_nodup_append hnd hmem
      · exact h.push_gap hne h32 hcap hk fun j hj => harr j (List.mem_append_left _ hj)
      · refine ⟨f, hs ++ [k], h.push_ahead hne h32 hcap hkf hk hnd ?_⟩
        have := hheld (arrived ++ [k]).length
        rwa [List.take_length] at this

/-- The invariant once everything has arrived. -/
theorem Filling.complete {arrived : List ℕ} {f : ℕ} {hs : List ℕ} {s : Stream}
    (h : Filling isn pieces arrived f hs s) (hperm : arrived.Perm (List.range pieces.length)) :
    s.buf = pieces.flatten ∧ s.pending = [] ∧ s.truncated = false := by
  have hall : ∀ k, k ∈ arrived ↔ k < pieces.length := fun k => by
    rw [hperm.mem_iff, List.mem_range]
  have hf := Pieces.eq_of_gap h.filled h.gap hall
  have hnil : hs = [] := by
    refine List.eq_nil_iff_forall_not_mem.2 fun k hk => ?_
    obtain ⟨hk, hlt⟩ := (h.mem_iff k).1 hk
    have := (hall k).1 hk
    omega
  refine ⟨by rw [h.buf_eq, hf, List.take_length], ?_, h.not_truncated⟩
  exact List.perm_nil.1 (by simpa [hnil] using h.held)

/-- The first segment of a fresh stream fixes its base. -/
theorem push_fresh (maxBytes : ℕ) (seq : UInt32) (payload : Bytes) :
    ({} : Stream).push maxBytes seq payload =
      ({ baseSeq := some seq } : Stream).push maxBytes seq payload := rfl

/-- A fresh stream that sees the first segment first is one that knows its base. -/
theorem feed_fresh {maxBytes : ℕ} {order : List ℕ} (hhead : order.head? = some 0) :
    ({} : Stream).feed maxBytes (order.map (segAt isn pieces)) =
      ({ baseSeq := some isn } : Stream).feed maxBytes (order.map (segAt isn pieces)) := by
  obtain ⟨rest, rfl⟩ : ∃ rest, order = 0 :: rest := by
    cases order with
    | nil => simp at hhead
    | cons k rest => exact ⟨rest, by simpa using hhead⟩
  have hseq : (segAt isn pieces 0).1 = isn := by simp [segAt]
  rw [List.map_cons, feed, feed, List.foldl_cons, List.foldl_cons, push_fresh, hseq]

end Cut

end Stream

/-! ### The table -/

namespace StreamTable

variable {κ : Type} [DecidableEq κ]

/-- The segments of one key, offered to the table in the given order. -/
def segmentsOf (key : κ) (segs : List (UInt32 × Bytes)) : List (Segment κ) :=
  segs.map fun g => ⟨key, g.1, g.2⟩

/-- Feeding one key never refused feeds its stream. -/
theorem run_segmentsOf {t : StreamTable κ} {key : κ} (hroom : ¬ Refuses t.maxStreams t.streams key)
    (segs : List (UInt32 × Bytes)) (hne : ∀ g ∈ segs, g.2 ≠ []) :
    (t.run (segmentsOf key segs)).entry key = (t.entry key).feed t.maxBytes segs ∧
      ¬ Refuses t.maxStreams (t.run (segmentsOf key segs)).streams key := by
  induction segs using List.reverseRecOn with
  | nil => exact ⟨rfl, hroom⟩
  | append_singleton segs g ih =>
      obtain ⟨hent, hadm⟩ := ih fun x hx => hne x (List.mem_append_left _ hx)
      have hsplit : segmentsOf key (segs ++ [g]) = segmentsOf key segs ++ [⟨key, g.1, g.2⟩] := by
        rw [segmentsOf, List.map_append]
        rfl
      have hg : g.2 ≠ [] := hne g (by simp)
      rw [hsplit, run_concat, Stream.feed_concat,
        push_eq_of_admits hg (by rwa [run_maxStreams]), run_maxBytes, ← hent]
      refine ⟨?_, BoundedTable.not_refuses_of_mem (AList.mem_insert _ |>.2 (Or.inl rfl))⟩
      rw [entry, AList.lookup_insert]
      rfl

/-- **The result does not depend on the order of arrival.**  A byte string within the cap is cut
into non-empty segments; the first arrives first, the others in any order that never has more than
64 of them waiting.  The push of the last one to arrive returns the whole byte string, not marked
partial, and leaves nothing held. -/
theorem run_any_order (t : StreamTable κ) (key : κ) (isn : UInt32) (pieces : List Bytes)
    (init : List ℕ) (last : ℕ) (habsent : key ∉ t.streams) (hroom : len t.streams < t.maxStreams)
    (hne : ∀ p ∈ pieces, p ≠ []) (hcap : pieces.flatten.length ≤ t.maxBytes)
    (h32 : pieces.flatten.length < 2 ^ 32)
    (hperm : (init ++ [last]).Perm (List.range pieces.length))
    (hfirst : (init ++ [last]).head? = some 0)
    (hheld : ∀ m, (held ((init ++ [last]).take m)).length ≤ 64) :
    ∃ (r : Reassembled) (s : Stream),
      ((t.run (segmentsOf key (init.map (Stream.segAt isn pieces)))).push key
          (Stream.segAt isn pieces last).1 (Stream.segAt isn pieces last).2).1 = some r ∧
        r.data = pieces.flatten ∧ r.isPartial = false ∧
      ((t.run (segmentsOf key (init.map (Stream.segAt isn pieces)))).push key
          (Stream.segAt isn pieces last).1 (Stream.segAt isn pieces last).2).2.streams.lookup key
        = some s ∧ s.buf = pieces.flatten ∧ s.pending = [] := by
  have hlt : ∀ k ∈ init ++ [last], k < pieces.length := fun k hk =>
    List.mem_range.1 (hperm.mem_iff.1 hk)
  have hpay : ∀ k ∈ init ++ [last], (Stream.segAt isn pieces k).2 ≠ [] := by
    intro k hk
    have : k < pieces.length := hlt k hk
    simpa [Stream.segAt, this] using hne _ (List.getElem_mem this)
  have hadm : ¬ Refuses t.maxStreams t.streams key := BoundedTable.not_refuses_of_lt hroom
  have hent : t.entry key = {} := by rw [entry, AList.lookup_eq_none.2 habsent]; rfl
  obtain ⟨hrun, hadm'⟩ := run_segmentsOf hadm (init.map (Stream.segAt isn pieces)) (by
    intro g hg
    obtain ⟨k, hk, rfl⟩ := List.mem_map.1 hg
    exact hpay k (List.mem_append_left _ hk))
  -- the stream after the last push is the one fed with the whole order
  have hfed : (((t.run (segmentsOf key (init.map (Stream.segAt isn pieces)))).entry key).push
      t.maxBytes (Stream.segAt isn pieces last).1 (Stream.segAt isn pieces last).2).1 =
      ({ baseSeq := some isn } : Stream).feed t.maxBytes
        ((init ++ [last]).map (Stream.segAt isn pieces)) := by
    rw [← Stream.feed_fresh hfirst, List.map_append, List.map_singleton, Stream.feed_concat, hrun,
      hent]
  obtain ⟨f, hs, hfill⟩ := Stream.feed_filling isn hne h32 hcap (init ++ [last])
    (hperm.nodup_iff.2 List.nodup_range) hlt hheld
  obtain ⟨hbuf, hpend, htr⟩ := hfill.complete hperm
  rw [push_eq_of_admits (hpay last (by simp)) (by rwa [run_maxStreams]), run_maxBytes, hfed]
  exact ⟨_, _, rfl, hbuf, htr, AList.lookup_insert _, hbuf, hpend⟩

/-- Four segments that wrap around the sequence space, the last two swapped. -/
theorem run_any_order_swapped :
    ∃ (r : Reassembled) (s : Stream),
      (((new 2 16).run (segmentsOf 7 ([0, 3, 1].map
          (Stream.segAt 0xfffffffe [[1], [2, 3], [4], [5, 6]])))).push 7
          (Stream.segAt 0xfffffffe [[1], [2, 3], [4], [5, 6]] 2).1
          (Stream.segAt 0xfffffffe [[1], [2, 3], [4], [5, 6]] 2).2).1 = some r ∧
        r.data = [1, 2, 3, 4, 5, 6] ∧ r.isPartial = false ∧
      (((new 2 16).run (segmentsOf 7 ([0, 3, 1].map
          (Stream.segAt 0xfffffffe [[1], [2, 3], [4], [5, 6]])))).push 7
          (Stream.segAt 0xfffffffe [[1], [2, 3], [4], [5, 6]] 2).1
          (Stream.segAt 0xfffffffe [[1], [2, 3], [4], [5, 6]] 2).2).2.streams.lookup 7
        = some s ∧ s.buf = [1, 2, 3, 4, 5, 6] ∧ s.pending = [] :=
  run_any_order (new 2 16) 7 0xfffffffe [[1], [2, 3], [4], [5, 6]] [0, 3, 1] 2 (by decide)
    (by decide) (by decide) (by decide) (by decide) (by decide) (by decide) (by
      intro m
      have hlen : (held (([0, 3, 1] ++ [2]).take m)).length ≤ (([0, 3, 1] ++ [2]).take m).length :=
        List.length_filter_le _ _
      rw [List.length_take] at hlen
      exact Nat.le_trans hlen (Nat.le_trans (Nat.min_le_right _ _) (by decide)))

end StreamTable

end PcapRacer
