/-
**Sequence numbers count from wherever they start.**

Reassembly takes differences of sequence numbers and never looks at one alone.  So when every
sequence number of a conversation is moved by the same amount, modulo `2 ^ 32`, the table returns
what it returned before, and holds the same bytes: a stream that wraps past `2 ^ 32` is put together
like one that does not.

A push of the moved segment into the moved stream is the push of the segment into the stream, moved;
runs of the table follow step by step.

Main definitions:

* `Stream.shift` — a stream with every sequence number moved;
* `Segment.shift` — the segments of one key, moved;
* `StreamTable.Shifted` — two tables that differ by such a move, each key by its own amount.

Main results:

* `Stream.push_shift` — **one push commutes with the move**;
* `StreamTable.Shifted.push` — a push keeps two tables shifted, and returns the same from both;
* `StreamTable.run_shift` — **moving the sequence numbers of a key changes nothing**.
-/

import PcapRacer.KeyIsolation
import PcapRacer.StreamTableRetained

set_option relaxedAutoImplicit false
set_option autoImplicit false

namespace PcapRacer

open BoundedTable (len Refuses)

/-! ### One stream -/

namespace Stream

/-- A held segment, moved. -/
def shiftHeld (k : UInt32) (p : UInt32 × Bytes) : UInt32 × Bytes := (p.1 + k, p.2)

/-- The stream with every sequence number `k` further on. -/
def shift (k : UInt32) (s : Stream) : Stream :=
  { s with baseSeq := s.baseSeq.map (· + k), pending := s.pending.map (shiftHeld k) }

variable (k : UInt32)

@[simp] theorem shift_buf (s : Stream) : (s.shift k).buf = s.buf := rfl

@[simp] theorem shift_truncated (s : Stream) : (s.shift k).truncated = s.truncated := rfl

theorem shift_sub_shift (a b : UInt32) : (a + k) - (b + k) = a - b := by
  rw [UInt32.sub_eq_iff_eq_add]
  rw [← UInt32.add_assoc, UInt32.sub_add_cancel]

theorem baseOr_shift (s : Stream) (seq : UInt32) :
    (s.shift k).baseOr (seq + k) = s.baseOr seq + k := by
  unfold baseOr shift
  cases s.baseSeq with
  | none => rfl
  | some b => rfl

/-- The position of a segment is a difference. -/
theorem offsetOf_shift (s : Stream) (seq : UInt32) :
    (s.shift k).offsetOf (seq + k) = s.offsetOf seq := by
  rw [offsetOf, offsetOf, baseOr_shift, shift_sub_shift]

theorem based_shift (s : Stream) (seq : UInt32) :
    (s.shift k).based (seq + k) = (s.based seq).shift k := by
  unfold based
  rw [baseOr_shift]
  rfl

theorem place_shift (s : Stream) (maxBytes : ℕ) (seq : UInt32) (offset : ℕ) (payload : Bytes) :
    (s.shift k).place maxBytes (seq + k) offset payload =
      ((s.place maxBytes seq offset payload).1.shift k,
        (s.place maxBytes seq offset payload).2) := by
  have hlen : ((s.shift k).pending ++ [(seq + k, payload)]).length =
      (s.pending ++ [(seq, payload)]).length := by simp [shift]
  unfold place
  dsimp only
  rw [shift_buf, hlen]
  split_ifs with _ _ _ _ _
  all_goals simp [shift, shiftHeld]

theorem bufEnd_shift (base : UInt32) (buf : Bytes) :
    bufEnd (base + k) buf = bufEnd base buf + k := by
  rw [bufEnd, bufEnd, UInt32.add_assoc, UInt32.add_comm k, ← UInt32.add_assoc]

/-- A held segment sits flush against the moved buffer exactly if it did before the move. -/
theorem flush_shift (base : UInt32) (buf : Bytes) :
    (fun p : UInt32 × Bytes => p.1 == bufEnd (base + k) buf) ∘ shiftHeld k =
      fun p => p.1 == bufEnd base buf := by
  funext p
  rw [bufEnd_shift, Function.comp_apply, shiftHeld, Bool.eq_iff_iff, beq_iff_eq, beq_iff_eq]
  exact UInt32.add_left_inj k

theorem drainLoop_shift (base : UInt32) (fuel : ℕ) (buf : Bytes)
    (pending : List (UInt32 × Bytes)) :
    drainLoop (base + k) fuel buf (pending.map (shiftHeld k)) =
      ((drainLoop base fuel buf pending).1,
        (drainLoop base fuel buf pending).2.map (shiftHeld k)) := by
  induction fuel generalizing buf pending with
  | zero => rfl
  | succ fuel ih =>
      rw [drainLoop, drainLoop, List.find?_map, List.eraseP_map, flush_shift]
      cases pending.find? fun p => p.1 == bufEnd base buf with
      | none => rfl
      | some p => exact ih _ _

theorem drain_shift (s : Stream) (base : UInt32) :
    (s.shift k).drain (base + k) = (s.drain base).shift k := by
  have hloop := drainLoop_shift k base s.pending.length s.buf s.pending
  have hlen : (s.shift k).pending.length = s.pending.length := List.length_map ..
  unfold drain
  dsimp only
  rw [hlen, shift_buf]
  change { s.shift k with
    buf := (drainLoop (base + k) s.pending.length s.buf (s.pending.map (shiftHeld k))).1
    pending := (drainLoop (base + k) s.pending.length s.buf (s.pending.map (shiftHeld k))).2 } = _
  rw [hloop]
  rfl

theorem clip_shift (s : Stream) (maxBytes : ℕ) :
    (s.shift k).clip maxBytes = ((s.clip maxBytes).1.shift k, (s.clip maxBytes).2) := by
  unfold clip
  rw [shift_buf, shift_truncated]
  split
  · rfl
  · rfl

/-- **One push commutes with the move.** -/
theorem push_shift (s : Stream) (maxBytes : ℕ) (seq : UInt32) (payload : Bytes) :
    (s.shift k).push maxBytes (seq + k) payload =
      ((s.push maxBytes seq payload).1.shift k, (s.push maxBytes seq payload).2) := by
  rcases hp : (s.based seq).place maxBytes seq (s.offsetOf seq) payload with ⟨u, grew⟩
  have hplace : ((s.shift k).based (seq + k)).place maxBytes (seq + k)
      ((s.shift k).offsetOf (seq + k)) payload = (u.shift k, grew) := by
    rw [based_shift, offsetOf_shift, place_shift, hp]
  have hempty : (u.shift k).pending.isEmpty = u.pending.isEmpty := List.isEmpty_map ..
  rw [push_of_place hplace, push_of_place hp, hempty, baseOr_shift]
  split
  · rw [drain_shift, clip_shift]
  · rw [clip_shift]

end Stream

/-! ### The table -/

namespace Segment

variable {κ : Type} [DecidableEq κ]

/-- A segment with its sequence number moved by `k`, if it carries the key. -/
def shift (key : κ) (k : UInt32) (g : Segment κ) : Segment κ :=
  if g.key = key then { g with seq := g.seq + k } else g

end Segment

namespace StreamTable

variable {κ : Type} [DecidableEq κ]

/-- The second table is the first with the sequence numbers of each key moved by its own amount. -/
structure Shifted (move : κ → UInt32) (t t' : StreamTable κ) : Prop where
  maxStreams : t'.maxStreams = t.maxStreams
  maxBytes : t'.maxBytes = t.maxBytes
  evicted : t'.evicted = t.evicted
  truncated : t'.truncated = t.truncated
  size : len t'.streams = len t.streams
  streams : ∀ key, t'.streams.lookup key = (t.streams.lookup key).map (Stream.shift (move key))

variable {move : κ → UInt32} {t t' : StreamTable κ}

theorem shifted_new (move : κ → UInt32) (maxStreams maxBytes : ℕ) :
    Shifted move (new maxStreams maxBytes) (new maxStreams maxBytes) where
  maxStreams := rfl
  maxBytes := rfl
  evicted := rfl
  truncated := rfl
  size := rfl
  streams _ := rfl

theorem Shifted.mem_iff (h : Shifted move t t') (key : κ) :
    key ∈ t'.streams ↔ key ∈ t.streams := by
  rw [← AList.lookup_isSome, ← AList.lookup_isSome, h.streams, Option.isSome_map]

theorem Shifted.refuses_iff (h : Shifted move t t') (key : κ) :
    Refuses t'.maxStreams t'.streams key ↔ Refuses t.maxStreams t.streams key := by
  rw [Refuses, Refuses, h.mem_iff, h.size, h.maxStreams]

theorem Shifted.entry (h : Shifted move t t') (key : κ) :
    t'.entry key = (t.entry key).shift (move key) := by
  rw [StreamTable.entry, StreamTable.entry, h.streams]
  cases t.streams.lookup key with
  | none => rfl
  | some s => rfl

/-- **A push keeps two tables shifted, and returns the same from both.** -/
theorem Shifted.push (h : Shifted move t t') (key : κ) (seq : UInt32) (payload : Bytes) :
    (t'.push key (seq + move key) payload).1 = (t.push key seq payload).1 ∧
      Shifted move (t.push key seq payload).2 (t'.push key (seq + move key) payload).2 := by
  by_cases hne : payload = []
  · simp only [StreamTable.push, hne, if_true]
    exact ⟨trivial, h⟩
  by_cases hr : Refuses t.maxStreams t.streams key
  · rw [push_eq_of_refuses hne hr, push_eq_of_refuses hne ((h.refuses_iff key).mpr hr)]
    exact ⟨rfl, { h with evicted := congrArg (· + 1) h.evicted }⟩
  · rw [push_eq_of_admits hne hr, push_eq_of_admits hne (mt (h.refuses_iff key).mp hr), h.entry,
      h.maxBytes, Stream.push_shift]
    refine ⟨rfl, ⟨h.maxStreams, rfl, h.evicted, ?_, ?_, fun key' => ?_⟩⟩
    · dsimp only
      rw [h.truncated]
    · dsimp only
      rw [BoundedTable.len_insert, BoundedTable.len_insert, h.size]
      simp only [h.mem_iff]
    · dsimp only
      by_cases hk : key' = key
      · subst hk
        rw [AList.lookup_insert, AList.lookup_insert]
        rfl
      · rw [AList.lookup_insert_ne hk, AList.lookup_insert_ne hk, h.streams]

/-- Tables stay shifted through a run, and return the same along it. -/
theorem Shifted.run (h : Shifted move t t') (segs : List (Segment κ)) :
    ((t'.returns (segs.map fun g => { g with seq := g.seq + move g.key })).map Prod.snd =
        (t.returns segs).map Prod.snd) ∧
      Shifted move (t.run segs)
        (t'.run (segs.map fun g => { g with seq := g.seq + move g.key })) := by
  induction segs generalizing t t' with
  | nil => exact ⟨rfl, h⟩
  | cons g segs ih =>
      obtain ⟨hreturn, hnext⟩ := h.push g.key g.seq g.payload
      obtain ⟨hreturns, hend⟩ := ih hnext
      refine ⟨?_, hend⟩
      exact congrArg₂ List.cons hreturn hreturns

theorem shift_eq (key : κ) (k : UInt32) (g : Segment κ) :
    g.shift key k = { g with seq := g.seq + if g.key = key then k else 0 } := by
  unfold Segment.shift
  split
  · rfl
  · rw [UInt32.add_zero]

/-- **Moving the sequence numbers of a key changes nothing**: the pushes return the same, and the
table ends with the same bytes under every key and the same counts of refused and cut streams. -/
theorem run_shift (maxStreams maxBytes : ℕ) (segs : List (Segment κ)) (key : κ) (k : UInt32) :
    ((new maxStreams maxBytes).returns (segs.map (Segment.shift key k))).map Prod.snd =
        ((new maxStreams maxBytes).returns segs).map Prod.snd ∧
      (∀ key', (((new maxStreams maxBytes).run (segs.map (Segment.shift key k))).streams.lookup
          key').map Stream.buf =
        (((new maxStreams maxBytes).run segs).streams.lookup key').map Stream.buf) ∧
      ((new maxStreams maxBytes).run (segs.map (Segment.shift key k))).evicted =
        ((new maxStreams maxBytes).run segs).evicted ∧
      ((new maxStreams maxBytes).run (segs.map (Segment.shift key k))).truncated =
        ((new maxStreams maxBytes).run segs).truncated := by
  have hsegs : segs.map (Segment.shift key k) =
      segs.map fun g => { g with seq := g.seq + if g.key = key then k else 0 } :=
    List.map_congr_left fun g _ => shift_eq key k g
  obtain ⟨hreturns, hend⟩ :=
    (shifted_new (fun x => if x = key then k else 0) maxStreams maxBytes).run segs
  rw [hsegs]
  refine ⟨hreturns, fun key' => ?_, hend.evicted, hend.truncated⟩
  rw [hend.streams, Option.map_map]
  rfl

/-- The second segment starts past the wrap, and the two still make one stream. -/
example : ((new 1 8).returns [⟨0, 0xFFFFFFFF, [1, 2]⟩, ⟨0, 1, [3]⟩]).map Prod.snd =
    [some ⟨[1, 2], false, false⟩, some ⟨[1, 2, 3], true, false⟩] := by decide

end StreamTable

end PcapRacer
