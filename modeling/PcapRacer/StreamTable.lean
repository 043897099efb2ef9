/-
**TCP stream reassembly.**

`StreamTable` keeps, for each direction of each conversation, the contiguous prefix of the byte
stream seen so far and the segments that arrived ahead of it.  `StreamTable.push` feeds one
segment in and hands back the prefix that application dissection should run against.

The table is generic in its keys: nothing but their equality is used.  Sequence numbers are
`UInt32` and every subtraction and addition on them wraps, as in the source; lengths and caps are
natural numbers.

The body of `push` is cut where the source changes subject: `Stream.place` puts the new segment
into the buffer or holds it back, `Stream.drain` appends held segments that have become flush with
the buffer, and `Stream.clip` enforces the byte cap.

Main definitions:

* `Stream`, `StreamTable`, `Reassembled` — the state, and what a push returns;
* `Stream.place`, `Stream.drain`, `Stream.clip`, `Stream.push` — one segment into one stream;
* `StreamTable.push` — one segment into the table;
* `StreamTable.run` — a sequence of pushes.

Main results:

* `StreamTable.push_eq_of_refuses`, `StreamTable.push_eq_of_admits` — the two outcomes of a push
  of a non-empty segment;
* `StreamTable.lookup_push_of_ne` — a push leaves the streams of other keys alone.
-/

import Mathlib.Data.List.Induction
import PcapRacer.BoundedTable
import PcapRacer.Text

set_option relaxedAutoImplicit false
set_option autoImplicit false

namespace PcapRacer

open BoundedTable (len Refuses)

/-! ### One stream -/

/-- One direction of one TCP conversation. -/
structure Stream where
  /-- Sequence number the buffer starts at, once known. -/
  baseSeq : Option UInt32 := none
  buf : Bytes := []
  /-- Out-of-order segments waiting for the gap ahead of them to fill. -/
  pending : List (UInt32 × Bytes) := []
  truncated : Bool := false
  deriving DecidableEq

namespace Stream

/-- More held segments than this and the stream is not going to converge. -/
def maxPending : ℕ := 64

/-- Put a segment that starts `offset` bytes into the stream where it belongs: flush with the
buffer, over it (only the new tail is kept), or ahead of it (held back).  The flag says whether
the buffer grew. -/
def place (s : Stream) (maxBytes : ℕ) (seq : UInt32) (offset : ℕ) (payload : Bytes) :
    Stream × Bool :=
  if offset = s.buf.length then
    ({ s with buf := s.buf ++ payload }, true)
  else if offset < s.buf.length then
    if s.buf.length < offset + payload.length then
      ({ s with buf := s.buf ++ payload.drop (s.buf.length - offset) }, true)
    else (s, false)
  else if offset < maxBytes then
    let pending := s.pending ++ [(seq, payload)]
    if maxPending < pending.length then
      ({ s with pending := [], truncated := true }, false)
    else ({ s with pending := pending }, false)
  else (s, false)

/-- The sequence number just past a buffer that starts at `base`. -/
def bufEnd (base : UInt32) (buf : Bytes) : UInt32 := base + UInt32.ofNat buf.length

/-- Append held segments as long as one sits flush against the buffer.  Every round removes a
segment, so `fuel` equal to the number of held segments never runs out early. -/
def drainLoop (base : UInt32) : ℕ → Bytes → List (UInt32 × Bytes) → Bytes × List (UInt32 × Bytes)
  | 0, buf, pending => (buf, pending)
  | fuel + 1, buf, pending =>
      match pending.find? (fun p => p.1 == bufEnd base buf) with
      | some p =>
          drainLoop base fuel (buf ++ p.2) (pending.eraseP fun p => p.1 == bufEnd base buf)
      | none => (buf, pending)

/-- Drain everything that now sits flush against the buffer. -/
def drain (s : Stream) (base : UInt32) : Stream :=
  let r := drainLoop base s.pending.length s.buf s.pending
  { s with buf := r.1, pending := r.2 }

/-- Enforce the byte cap.  The flag says whether the cap was hit for the first time. -/
def clip (s : Stream) (maxBytes : ℕ) : Stream × Bool :=
  if maxBytes < s.buf.length then
    ({ s with buf := s.buf.take maxBytes, truncated := true }, !s.truncated)
  else (s, false)

theorem drain_of_pending_nil {s : Stream} {base : UInt32} (h : s.pending = []) :
    s.drain base = s := by
  cases s
  subst h
  rfl

/-- Draining is a no-op when nothing is held, so the emptiness test of `push` can be ignored. -/
theorem drain_ite {s : Stream} {base : UInt32} :
    (if true && !s.pending.isEmpty then s.drain base else s) = s.drain base := by
  split
  · rfl
  · next hnil => exact (drain_of_pending_nil (by simpa using hnil)).symm

/-- A buffer within the cap is left alone. -/
theorem clip_eq_self {s : Stream} {maxBytes : ℕ} (h : s.buf.length ≤ maxBytes) :
    s.clip maxBytes = (s, false) := by
  rw [clip, if_neg (by omega)]

/-- One segment into one stream. -/
def push (s : Stream) (maxBytes : ℕ) (seq : UInt32) (payload : Bytes) : Stream × Bool :=
  let base := s.baseSeq.getD seq
  let offset := (seq - base).toNat
  let placed := { s with baseSeq := some base }.place maxBytes seq offset payload
  let drained := if placed.2 && !placed.1.pending.isEmpty then placed.1.drain base else placed.1
  drained.clip maxBytes

/-- The first segment of a stream becomes its buffer. -/
theorem push_new {maxBytes : ℕ} (seq : UInt32) (payload : Bytes) (h : payload.length ≤ maxBytes) :
    ({} : Stream).push maxBytes seq payload = ({ baseSeq := some seq, buf := payload }, false) := by
  have hoff : (seq - seq).toNat = 0 := by rw [UInt32.sub_self]; rfl
  have hplace : ({ baseSeq := some seq } : Stream).place maxBytes seq (seq - seq).toNat payload =
      ({ baseSeq := some seq, buf := payload }, true) := by
    rw [hoff]
    rfl
  change (let placed := ({ baseSeq := some seq } : Stream).place maxBytes seq (seq - seq).toNat payload
    let drained := if placed.2 && !placed.1.pending.isEmpty then placed.1.drain seq else placed.1
    drained.clip maxBytes) = _
  rw [hplace]
  exact if_neg (Nat.not_lt.mpr h)

end Stream

/-! ### The table -/

/-- What reassembly produced for a segment. -/
structure Reassembled where
  /-- The bytes application dissection should run against. -/
  data : Bytes
  /-- `data` spans more than this one segment. -/
  multiSegment : Bool
  /-- The stream hit its byte cap, or gave up on its held segments. -/
  isPartial : Bool
  deriving DecidableEq

structure StreamTable (κ : Type) where
  streams : AList fun _ : κ => Stream
  maxStreams : ℕ
  maxBytes : ℕ
  evicted : ℕ
  truncated : ℕ

/-- A segment offered to the table. -/
structure Segment (κ : Type) where
  key : κ
  seq : UInt32
  payload : Bytes

namespace StreamTable

variable {κ : Type}

/-- An empty table with the given limits. -/
def new (maxStreams maxBytes : ℕ) : StreamTable κ :=
  { streams := ∅, maxStreams, maxBytes, evicted := 0, truncated := 0 }

variable [DecidableEq κ]

/-- The stream of a key; a fresh one when there is none yet. -/
def entry (t : StreamTable κ) (key : κ) : Stream := (t.streams.lookup key).getD {}

/-- Feed a segment in, and get back the contiguous stream prefix to dissect.  The result is `none`
when the table is at capacity. -/
def push (t : StreamTable κ) (key : κ) (seq : UInt32) (payload : Bytes) :
    Option Reassembled × StreamTable κ :=
  if payload = [] then (none, t)
  else if Refuses t.maxStreams t.streams key then
    (none, { t with evicted := t.evicted + 1 })
  else
    let r := (t.entry key).push t.maxBytes seq payload
    (some { data := r.1.buf, multiSegment := payload.length < r.1.buf.length,
            isPartial := r.1.truncated },
      { t with streams := t.streams.insert key r.1,
               truncated := t.truncated + if r.2 then 1 else 0 })

/-- Forget a stream. -/
def close (t : StreamTable κ) (key : κ) : StreamTable κ :=
  { t with streams := t.streams.erase key }

/-- The table after a sequence of pushes. -/
def run (t : StreamTable κ) (segs : List (Segment κ)) : StreamTable κ :=
  segs.foldl (fun t g => (t.push g.key g.seq g.payload).2) t

/-! ### What a push does -/

theorem push_eq_of_refuses {t : StreamTable κ} {key : κ} {seq : UInt32} {payload : Bytes}
    (hp : payload ≠ []) (hr : Refuses t.maxStreams t.streams key) :
    t.push key seq payload = (none, { t with evicted := t.evicted + 1 }) := by
  rw [push, if_neg hp, if_pos hr]

theorem push_eq_of_admits {t : StreamTable κ} {key : κ} {seq : UInt32} {payload : Bytes}
    (hp : payload ≠ []) (hr : ¬ Refuses t.maxStreams t.streams key) :
    t.push key seq payload =
      (some { data := ((t.entry key).push t.maxBytes seq payload).1.buf,
              multiSegment :=
                payload.length < ((t.entry key).push t.maxBytes seq payload).1.buf.length,
              isPartial := ((t.entry key).push t.maxBytes seq payload).1.truncated },
        { t with streams := t.streams.insert key ((t.entry key).push t.maxBytes seq payload).1,
                 truncated := t.truncated +
                   if ((t.entry key).push t.maxBytes seq payload).2 then 1 else 0 }) := by
  rw [push, if_neg hp, if_neg hr]

@[simp] theorem push_maxStreams (t : StreamTable κ) (key : κ) (seq : UInt32) (payload : Bytes) :
    (t.push key seq payload).2.maxStreams = t.maxStreams := by
  unfold push
  split
  · rfl
  · split <;> rfl

@[simp] theorem push_maxBytes (t : StreamTable κ) (key : κ) (seq : UInt32) (payload : Bytes) :
    (t.push key seq payload).2.maxBytes = t.maxBytes := by
  unfold push
  split
  · rfl
  · split <;> rfl

/-- A push leaves the streams of other keys alone. -/
theorem lookup_push_of_ne (t : StreamTable κ) {key key' : κ} (h : key' ≠ key) (seq : UInt32)
    (payload : Bytes) :
    (t.push key seq payload).2.streams.lookup key' = t.streams.lookup key' := by
  unfold push
  split
  · rfl
  · split
    · rfl
    · exact AList.lookup_insert_ne h

@[simp] theorem run_nil (t : StreamTable κ) : t.run [] = t := rfl

theorem run_append (t : StreamTable κ) (segs segs' : List (Segment κ)) :
    t.run (segs ++ segs') = (t.run segs).run segs' := List.foldl_append

theorem run_concat (t : StreamTable κ) (segs : List (Segment κ)) (g : Segment κ) :
    t.run (segs ++ [g]) = ((t.run segs).push g.key g.seq g.payload).2 := run_append t segs [g]

@[simp] theorem run_maxStreams (t : StreamTable κ) (segs : List (Segment κ)) :
    (t.run segs).maxStreams = t.maxStreams := by
  induction segs using List.reverseRecOn with
  | nil => rfl
  | append_singleton segs g ih => rw [run_concat, push_maxStreams, ih]

@[simp] theorem run_maxBytes (t : StreamTable κ) (segs : List (Segment κ)) :
    (t.run segs).maxBytes = t.maxBytes := by
  induction segs using List.reverseRecOn with
  | nil => rfl
  | append_singleton segs g ih => rw [run_concat, push_maxBytes, ih]

end StreamTable

end PcapRacer
