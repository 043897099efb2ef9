/-
**What a stream buffer holds.**

`PcapRacer/StreamTable.lean` feeds the buffer of a stream along four paths: a segment flush with
the buffer, the tail of an overlapping one, held segments that are drained, and the truncation at
the byte cap.  This module proves that none of them ever misplaces a byte.  The invariant
`Stream.Good` speaks of the segments offered to the stream so far, its *history*: the stream
starts at the sequence number of the first of them, every byte of the buffer is the byte some
segment of the history carries at that position, and every held segment is one of the history.

All four paths are instances of one lemma, `Stream.Justified.append_tail`: appending the part of a
segment that lies past the buffer keeps the buffer justified.

Main definitions:

* `Stream.Justified` — every byte of a buffer is carried by a segment at that position;
* `Stream.Good` — the invariant of a stream with respect to its history;
* `StreamTable.history` — the segments of a run that carry a key.

Main results:

* `Stream.Good.push` — one push keeps the invariant and extends the buffer;
* `StreamTable.good_run` — the invariant holds of every stream after every run;
* `StreamTable.run_stream_sound` — **bounded, append-only, justified**: the three facts about
  every push of every run.
-/

import Mathlib.Algebra.BigOperators.Group.List.Basic
import PcapRacer.StreamTable

set_option relaxedAutoImplicit false
set_option autoImplicit false

namespace PcapRacer

open BoundedTable (len Refuses)

/-- The number of payload bytes of a list of segments. -/
def payloadBytes (hist : List (UInt32 × Bytes)) : ℕ := (hist.map fun g => g.2.length).sum

@[simp] theorem payloadBytes_nil : payloadBytes [] = 0 := rfl

@[simp] theorem payloadBytes_cons (g : UInt32 × Bytes) (hist : List (UInt32 × Bytes)) :
    payloadBytes (g :: hist) = g.2.length + payloadBytes hist := rfl

@[simp] theorem payloadBytes_append (hist hist' : List (UInt32 × Bytes)) :
    payloadBytes (hist ++ hist') = payloadBytes hist + payloadBytes hist' := by
  simp [payloadBytes]

/-- Removing a held segment removes its bytes. -/
theorem payloadBytes_eraseP {pending : List (UInt32 × Bytes)} {q : UInt32 × Bytes → Bool}
    {p : UInt32 × Bytes} (h : pending.find? q = some p) :
    p.2.length + payloadBytes (pending.eraseP q) = payloadBytes pending := by
  induction pending with
  | nil => simp at h
  | cons g pending ih =>
      by_cases hg : q g
      · rw [List.find?_cons_of_pos hg, Option.some_inj] at h
        subst h
        rw [List.eraseP_cons_of_pos hg, payloadBytes_cons]
      · rw [List.find?_cons_of_neg hg] at h
        rw [List.eraseP_cons_of_neg hg, payloadBytes_cons, payloadBytes_cons, ← ih h]
        omega

namespace Stream

/-! ### Justified buffers -/

/-- Every byte of `buf` is the byte some segment of `hist` carries at that stream position, with
positions counted from `base`. -/
def Justified (hist : List (UInt32 × Bytes)) (base : UInt32) (buf : Bytes) : Prop :=
  ∀ (i : ℕ) (b : UInt8), buf[i]? = some b →
    ∃ g ∈ hist, ∃ j, (g.1 - base).toNat + j = i ∧ g.2[j]? = some b

theorem Justified.nil (hist : List (UInt32 × Bytes)) (base : UInt32) : Justified hist base [] := by
  intro i b h
  simp at h

theorem Justified.mono {hist hist' : List (UInt32 × Bytes)} {base : UInt32} {buf : Bytes}
    (h : Justified hist base buf) (hsub : ∀ g ∈ hist, g ∈ hist') : Justified hist' base buf := by
  intro i b hb
  obtain ⟨g, hg, j, hj⟩ := h i b hb
  exact ⟨g, hsub g hg, j, hj⟩

theorem Justified.take {hist : List (UInt32 × Bytes)} {base : UInt32} {buf : Bytes}
    (h : Justified hist base buf) (n : ℕ) : Justified hist base (buf.take n) := by
  intro i b hb
  rw [List.getElem?_take] at hb
  split at hb
  · exact h i b hb
  · simp at hb

/-- **Appending the new part of a segment**: if a segment starts at or before the end of the
buffer, then the bytes of it that lie past the end may be appended. -/
theorem Justified.append_tail {hist : List (UInt32 × Bytes)} {base : UInt32} {buf : Bytes}
    {seq : UInt32} {payload : Bytes} (h : Justified hist base buf) (hg : (seq, payload) ∈ hist)
    (hle : (seq - base).toNat ≤ buf.length) :
    Justified hist base (buf ++ payload.drop (buf.length - (seq - base).toNat)) := by
  intro i b hb
  rcases Nat.lt_or_ge i buf.length with hi | hi
  · rw [List.getElem?_append_left hi] at hb
    exact h i b hb
  · rw [List.getElem?_append_right hi, List.getElem?_drop] at hb
    refine ⟨_, hg, _, ?_, hb⟩
    dsimp only
    omega

/-! ### The drain loop -/

/-- The offset of a sequence number that sits flush against the buffer. -/
theorem toNat_bufEnd_sub {base : UInt32} {buf : Bytes} (h : buf.length < 2 ^ 32) :
    (bufEnd base buf - base).toNat = buf.length := by
  have : bufEnd base buf - base = UInt32.ofNat buf.length := by
    rw [bufEnd, UInt32.add_comm, UInt32.add_sub_cancel]
  rw [this]
  exact UInt32.toNat_ofNat_of_lt h

theorem prefix_drainLoop (base : UInt32) (fuel : ℕ) (buf : Bytes)
    (pending : List (UInt32 × Bytes)) : buf <+: (drainLoop base fuel buf pending).1 := by
  induction fuel generalizing buf pending with
  | zero => exact List.prefix_refl _
  | succ fuel ih =>
      unfold drainLoop
      split
      · exact (List.prefix_append _ _).trans (ih _ _)
      · exact List.prefix_refl _

theorem mem_of_mem_drainLoop {base : UInt32} {fuel : ℕ} {buf : Bytes}
    {pending : List (UInt32 × Bytes)} {p : UInt32 × Bytes}
    (h : p ∈ (drainLoop base fuel buf pending).2) : p ∈ pending := by
  induction fuel generalizing buf pending with
  | zero => exact h
  | succ fuel ih =>
      unfold drainLoop at h
      split at h
      · exact List.mem_of_mem_eraseP (ih h)
      · exact h

/-- Draining moves bytes from the held segments to the buffer and loses none. -/
theorem length_drainLoop (base : UInt32) (fuel : ℕ) (buf : Bytes)
    (pending : List (UInt32 × Bytes)) :
    (drainLoop base fuel buf pending).1.length +
      payloadBytes (drainLoop base fuel buf pending).2 = buf.length + payloadBytes pending := by
  induction fuel generalizing buf pending with
  | zero => rfl
  | succ fuel ih =>
      unfold drainLoop
      split
      · next p hp =>
          rw [ih, List.length_append, ← payloadBytes_eraseP hp]
          omega
      · rfl

/-- Draining keeps the buffer justified, as long as the stream stays below `2 ^ 32` bytes. -/
theorem Justified.drainLoop {hist : List (UInt32 × Bytes)} {base : UInt32} {fuel : ℕ}
    {buf : Bytes} {pending : List (UInt32 × Bytes)} (h : Justified hist base buf)
    (hsub : ∀ p ∈ pending, p ∈ hist) (hlt : buf.length + payloadBytes pending < 2 ^ 32) :
    Justified hist base (drainLoop base fuel buf pending).1 := by
  induction fuel generalizing buf pending with
  | zero => exact h
  | succ fuel ih =>
      unfold Stream.drainLoop
      split
      · next p hp =>
          have hbytes := payloadBytes_eraseP hp
          have hend : p.1 = bufEnd base buf := by simpa using List.find?_some hp
          have hoff : (p.1 - base).toNat = buf.length := by
            rw [hend]
            exact toNat_bufEnd_sub (by omega)
          have happ : Justified hist base (buf ++ p.2) := by
            have := h.append_tail (hsub p (List.mem_of_find?_eq_some hp)) hoff.le
            rwa [hoff, Nat.sub_self, List.drop_zero] at this
          refine ih happ (fun x hx => hsub x (List.mem_of_mem_eraseP hx)) ?_
          rw [List.length_append]
          omega
      · exact h

/-! ### The invariant of one stream -/

/-- The invariant of a stream to which the segments `hist` have been offered, oldest first. -/
structure Good (maxBytes : ℕ) (hist : List (UInt32 × Bytes)) (s : Stream) : Prop where
  /-- A stream to which nothing was offered holds nothing. -/
  fresh : hist = [] → s.buf = []
  /-- The stream starts at the first sequence number offered to it. -/
  base : s.baseSeq = hist.head?.map Prod.fst
  len_le : s.buf.length ≤ maxBytes
  justified : ∀ b, s.baseSeq = some b → Justified hist b s.buf
  held : ∀ p ∈ s.pending, p ∈ hist
  heldBytes : payloadBytes s.pending ≤ payloadBytes hist

theorem good_fresh (maxBytes : ℕ) : Good maxBytes [] {} where
  fresh _ := rfl
  base := rfl
  len_le := Nat.zero_le _
  justified b _ := Justified.nil _ _
  held p hp := by simp at hp
  heldBytes := Nat.le_refl _

/-- What `place` and `drain` guarantee before the cap is enforced. -/
structure Grown (hist : List (UInt32 × Bytes)) (base : UInt32) (buf : Bytes) (s : Stream) :
    Prop where
  baseSeq : s.baseSeq = some base
  extends_ : buf <+: s.buf
  justified : Justified hist base s.buf
  held : ∀ p ∈ s.pending, p ∈ hist
  heldBytes : payloadBytes s.pending ≤ payloadBytes hist

/-- Placing a segment of the history. -/
theorem Grown.place {hist : List (UInt32 × Bytes)} {base seq : UInt32} {payload : Bytes}
    {s : Stream} {maxBytes : ℕ} (hb : s.baseSeq = some base)
    (hj : Justified (hist ++ [(seq, payload)]) base s.buf)
    (hheld : ∀ p ∈ s.pending, p ∈ hist) (hbytes : payloadBytes s.pending ≤ payloadBytes hist) :
    Grown (hist ++ [(seq, payload)]) base s.buf
      (s.place maxBytes seq (seq - base).toNat payload).1 := by
  have hmem : (seq, payload) ∈ hist ++ [(seq, payload)] := by simp
  have hheld' : ∀ p ∈ s.pending, p ∈ hist ++ [(seq, payload)] :=
    fun p hp => List.mem_append_left _ (hheld p hp)
  have hbytes' : payloadBytes s.pending ≤ payloadBytes (hist ++ [(seq, payload)]) := by
    rw [payloadBytes_append]
    omega
  unfold Stream.place
  split
  · next hoff =>
      refine ⟨hb, List.prefix_append _ _, ?_, hheld', hbytes'⟩
      have := hj.append_tail hmem hoff.le
      rwa [hoff, Nat.sub_self, List.drop_zero] at this
  · split
    · next hlt =>
        split
        · exact ⟨hb, List.prefix_append _ _, hj.append_tail hmem (Nat.le_of_lt hlt), hheld',
            hbytes'⟩
        · exact ⟨hb, List.prefix_refl _, hj, hheld', hbytes'⟩
    · split
      · dsimp only
        split
        · refine ⟨hb, List.prefix_refl _, hj, ?_, Nat.zero_le _⟩
          intro p hp
          exact absurd hp (List.not_mem_nil)
        · refine ⟨hb, List.prefix_refl _, hj, ?_, ?_⟩
          · intro p hp
            rcases List.mem_append.1 hp with hp | hp
            · exact hheld' p hp
            · exact List.mem_append_right _ hp
          · rw [payloadBytes_append, payloadBytes_append]
            omega
      · exact ⟨hb, List.prefix_refl _, hj, hheld', hbytes'⟩

/-- The buffer and the held segments together grow by at most the new payload. -/
theorem length_place_le (s : Stream) (maxBytes : ℕ) (seq : UInt32) (offset : ℕ)
    (payload : Bytes) :
    (s.place maxBytes seq offset payload).1.buf.length +
        payloadBytes (s.place maxBytes seq offset payload).1.pending ≤
      s.buf.length + payloadBytes s.pending + payload.length := by
  unfold place
  split
  · simp only [List.length_append]
    omega
  · split
    · split
      · simp only [List.length_append, List.length_drop]
        omega
      · dsimp only
        omega
    · split
      · dsimp only
        split
        · simp only [payloadBytes_nil]
          omega
        · simp only [payloadBytes_append, payloadBytes_cons, payloadBytes_nil]
          omega
      · dsimp only
        omega

/-- Draining after a placement. -/
theorem Grown.drain {hist : List (UInt32 × Bytes)} {base : UInt32} {buf : Bytes} {s : Stream}
    (h : Grown hist base buf s) (hlt : s.buf.length + payloadBytes s.pending < 2 ^ 32) :
    Grown hist base buf (s.drain base) where
  baseSeq := h.baseSeq
  extends_ := h.extends_.trans (prefix_drainLoop _ _ _ _)
  justified := h.justified.drainLoop h.held hlt
  held p hp := h.held p (mem_of_mem_drainLoop hp)
  heldBytes := by
    have hlen := length_drainLoop base s.pending.length s.buf s.pending
    have hpre := (prefix_drainLoop base s.pending.length s.buf s.pending).length_le
    have hheld := h.heldBytes
    simp only [Stream.drain]
    omega

/-- Enforcing the cap after growth. -/
theorem Grown.clip {hist : List (UInt32 × Bytes)} {base : UInt32} {buf : Bytes} {s : Stream}
    {maxBytes : ℕ} (h : Grown hist base buf s) (hbase : hist.head?.map Prod.fst = some base)
    (hbuf : buf.length ≤ maxBytes) :
    Good maxBytes hist (s.clip maxBytes).1 ∧ buf <+: (s.clip maxBytes).1.buf := by
  have hne : hist = [] → False := by
    rintro rfl
    simp at hbase
  have hjust : ∀ b, s.baseSeq = some b → Justified hist b s.buf := by
    intro b hb
    have hb' : base = b := Option.some_inj.1 (h.baseSeq.symm.trans hb)
    subst hb'
    exact h.justified
  unfold Stream.clip
  split
  · refine ⟨⟨fun hnil => (hne hnil).elim, by rw [hbase]; exact h.baseSeq, ?_, ?_, h.held,
      h.heldBytes⟩, ?_⟩
    · exact List.length_take_le _ _
    · exact fun b hb => (hjust b hb).take maxBytes
    · exact List.prefix_take_iff.2 ⟨h.extends_, hbuf⟩
  · next hle =>
      exact ⟨⟨fun hnil => (hne hnil).elim, by rw [hbase]; exact h.baseSeq, Nat.le_of_not_lt hle,
        hjust, h.held, h.heldBytes⟩, h.extends_⟩

/-- The sequence number a stream starts at, once a segment has been offered to it. -/
theorem Good.head_append {maxBytes : ℕ} {hist : List (UInt32 × Bytes)} {s : Stream}
    (h : Good maxBytes hist s) (seq : UInt32) (payload : Bytes) :
    (hist ++ [(seq, payload)]).head?.map Prod.fst = some (s.baseSeq.getD seq) := by
  rw [h.base]
  cases hist <;> rfl

/-- The buffer is justified at the base the next push will use. -/
theorem Good.justified_getD {maxBytes : ℕ} {hist : List (UInt32 × Bytes)} {s : Stream}
    (h : Good maxBytes hist s) (seq : UInt32) : Justified hist (s.baseSeq.getD seq) s.buf := by
  cases hs : s.baseSeq with
  | none =>
      have hnil : hist = [] := by
        have := h.base
        rw [hs] at this
        cases hist with
        | nil => rfl
        | cons g hist => simp at this
      rw [h.fresh hnil]
      exact Justified.nil _ _
  | some b => exact h.justified b hs

/-- **One push keeps the invariant and only extends the buffer.** -/
theorem Good.push {maxBytes : ℕ} {hist : List (UInt32 × Bytes)} {s : Stream}
    (h : Good maxBytes hist s) (seq : UInt32) (payload : Bytes)
    (hlt : maxBytes + payloadBytes (hist ++ [(seq, payload)]) < 2 ^ 32) :
    Good maxBytes (hist ++ [(seq, payload)]) (s.push maxBytes seq payload).1 ∧
      s.buf <+: (s.push maxBytes seq payload).1.buf := by
  have hj : Justified (hist ++ [(seq, payload)]) (s.baseSeq.getD seq) s.buf :=
    (h.justified_getD seq).mono fun g hg => List.mem_append_left _ hg
  have hplace : Grown (hist ++ [(seq, payload)]) (s.baseSeq.getD seq) s.buf
      ({ s with baseSeq := some (s.baseSeq.getD seq) }.place maxBytes seq
        (seq - s.baseSeq.getD seq).toNat payload).1 :=
    Grown.place (s := { s with baseSeq := some (s.baseSeq.getD seq) }) rfl hj h.held h.heldBytes
  have hsize := length_place_le { s with baseSeq := some (s.baseSeq.getD seq) } maxBytes seq
    (seq - s.baseSeq.getD seq).toNat payload
  have hlen := h.len_le
  have hheld := h.heldBytes
  rw [payloadBytes_append, payloadBytes_cons, payloadBytes_nil] at hlt
  unfold Stream.push
  dsimp only at hplace hsize hlt ⊢
  split
  · exact (hplace.drain (by omega)).clip (h.head_append seq payload) hlen
  · exact hplace.clip (h.head_append seq payload) hlen

end Stream

/-! ### Runs of the table -/

namespace StreamTable

variable {κ : Type}

/-- The payload bytes of all segments of a run. -/
def pushedBytes (segs : List (Segment κ)) : ℕ := (segs.map fun g => g.payload.length).sum

theorem pushedBytes_append (segs segs' : List (Segment κ)) :
    pushedBytes (segs ++ segs') = pushedBytes segs + pushedBytes segs' := by
  simp [pushedBytes]

variable [DecidableEq κ]

/-- The segments of a run that carry a key, oldest first. -/
def history (segs : List (Segment κ)) (key : κ) : List (UInt32 × Bytes) :=
  (segs.filter fun g => g.key = key).map fun g => (g.seq, g.payload)

theorem history_concat_self (segs : List (Segment κ)) (g : Segment κ) :
    history (segs ++ [g]) g.key = history segs g.key ++ [(g.seq, g.payload)] := by
  simp [history]

theorem history_concat_of_ne (segs : List (Segment κ)) {g : Segment κ} {key : κ}
    (h : g.key ≠ key) : history (segs ++ [g]) key = history segs key := by
  simp [history, h]

theorem payloadBytes_history_le (segs : List (Segment κ)) (key : κ) :
    payloadBytes (history segs key) ≤ pushedBytes segs := by
  induction segs with
  | nil => exact Nat.le_refl _
  | cons g segs ih =>
      by_cases hg : g.key = key
      · simp [history, pushedBytes, hg] at ih ⊢
        exact ih
      · simp [history, pushedBytes, hg] at ih ⊢
        omega

/-- The invariant of the table after a run: it respects its capacity, every stream is good for
its own history, and a key without a stream was refused or never offered. -/
structure Good (maxStreams maxBytes : ℕ) (segs : List (Segment κ)) (t : StreamTable κ) :
    Prop where
  len_le : len t.streams ≤ maxStreams
  stream : ∀ key s, t.streams.lookup key = some s → s.Good maxBytes (history segs key)
  offered : ∀ key s, t.streams.lookup key = some s → history segs key ≠ []
  absent : ∀ key, t.streams.lookup key = none →
    history segs key = [] ∨ maxStreams ≤ len t.streams

theorem good_new (maxStreams maxBytes : ℕ) :
    Good maxStreams maxBytes [] (new maxStreams maxBytes : StreamTable κ) where
  len_le := Nat.zero_le _
  stream key s h := by simp [new] at h
  offered key s h := by simp [new] at h
  absent key _ := Or.inl rfl

/-- The stream a push starts from is good for the segments offered before. -/
theorem Good.entry {maxStreams maxBytes : ℕ} {segs : List (Segment κ)} {t : StreamTable κ}
    (h : Good maxStreams maxBytes segs t) {key : κ} (hr : ¬ Refuses maxStreams t.streams key) :
    (t.entry key).Good maxBytes (history segs key) := by
  unfold StreamTable.entry
  cases hs : t.streams.lookup key with
  | some s => exact h.stream key s hs
  | none =>
      rcases h.absent key hs with hnil | hfull
      · rw [hnil]
        exact Stream.good_fresh maxBytes
      · exact absurd ⟨AList.lookup_eq_none.1 hs, hfull⟩ hr

/-- **One push keeps the invariant of the table.** -/
theorem Good.push {maxStreams maxBytes : ℕ} {segs : List (Segment κ)} {t : StreamTable κ}
    (h : Good maxStreams maxBytes segs t) (hs : t.maxStreams = maxStreams)
    (hm : t.maxBytes = maxBytes) (g : Segment κ) (hne : g.payload ≠ [])
    (hlt : maxBytes + pushedBytes (segs ++ [g]) < 2 ^ 32) :
    Good maxStreams maxBytes (segs ++ [g]) (t.push g.key g.seq g.payload).2 := by
  subst hs hm
  by_cases hr : Refuses t.maxStreams t.streams g.key
  · -- at capacity the streams are untouched and the refused key stays absent
    rw [push_eq_of_refuses hne hr]
    have hk : ∀ key s, t.streams.lookup key = some s → g.key ≠ key := by
      rintro _ s hl rfl
      exact hr.1 (BoundedTable.mem_of_lookup hl)
    refine ⟨h.len_le, fun key s hl => ?_, fun key s hl => ?_, fun key hl => Or.inr hr.2⟩
    · rw [history_concat_of_ne segs (hk key s hl)]
      exact h.stream key s hl
    · rw [history_concat_of_ne segs (hk key s hl)]
      exact h.offered key s hl
  · rw [push_eq_of_admits hne hr]
    have hbytes := payloadBytes_history_le (segs ++ [g]) g.key
    rw [history_concat_self] at hbytes
    have hgood := ((h.entry hr).push g.seq g.payload (by omega)).1
    refine ⟨BoundedTable.len_insert_le hr h.len_le, fun key s hl => ?_, fun key s hl => ?_,
      fun key hl => ?_⟩
    · dsimp only at hl
      by_cases hk : key = g.key
      · subst hk
        rw [AList.lookup_insert, Option.some_inj] at hl
        subst hl
        rw [history_concat_self]
        exact hgood
      · rw [AList.lookup_insert_ne hk] at hl
        rw [history_concat_of_ne segs (Ne.symm hk)]
        exact h.stream key s hl
    · dsimp only at hl
      by_cases hk : key = g.key
      · subst hk
        simp [history_concat_self]
      · rw [AList.lookup_insert_ne hk] at hl
        rw [history_concat_of_ne segs (Ne.symm hk)]
        exact h.offered key s hl
    · dsimp only at hl ⊢
      have hk : key ≠ g.key := by
        rintro rfl
        rw [AList.lookup_insert] at hl
        cases hl
      rw [AList.lookup_insert_ne hk] at hl
      rw [history_concat_of_ne segs (Ne.symm hk), BoundedTable.len_insert]
      rcases h.absent key hl with hnil | hfull
      · exact Or.inl hnil
      · refine Or.inr ?_
        split <;> omega

/-- The invariant holds after every run. -/
theorem good_run (maxStreams maxBytes : ℕ) (segs : List (Segment κ))
    (hne : ∀ g ∈ segs, g.payload ≠ []) (hlt : maxBytes + pushedBytes segs < 2 ^ 32) :
    Good maxStreams maxBytes segs ((new maxStreams maxBytes).run segs) := by
  induction segs using List.reverseRecOn with
  | nil => exact good_new maxStreams maxBytes
  | append_singleton segs g ih =>
      have hlt' := hlt
      rw [pushedBytes_append] at hlt'
      rw [run_concat]
      refine (ih (fun x hx => hne x (List.mem_append_left _ hx)) (by omega)).push ?_ ?_ g
        (hne g (by simp)) hlt
      · simp [new]
      · simp [new]

/-- A push only extends the buffers that exist. -/
theorem Good.push_extends {maxStreams maxBytes : ℕ} {segs : List (Segment κ)}
    {t : StreamTable κ} (h : Good maxStreams maxBytes segs t) (hs : t.maxStreams = maxStreams)
    (hm : t.maxBytes = maxBytes) (g : Segment κ) (hne : g.payload ≠ [])
    (hlt : maxBytes + pushedBytes (segs ++ [g]) < 2 ^ 32) {key : κ} {s : Stream}
    (hl : t.streams.lookup key = some s) :
    ∃ s', (t.push g.key g.seq g.payload).2.streams.lookup key = some s' ∧ s.buf <+: s'.buf := by
  subst hs hm
  by_cases hk : key = g.key
  · subst hk
    have hr : ¬ Refuses t.maxStreams t.streams g.key :=
      BoundedTable.not_refuses_of_mem (BoundedTable.mem_of_lookup hl)
    have hbytes := payloadBytes_history_le (segs ++ [g]) g.key
    rw [history_concat_self] at hbytes
    have hext := ((h.entry hr).push g.seq g.payload (by omega)).2
    have hent : t.entry g.key = s := by rw [StreamTable.entry, hl]; rfl
    rw [push_eq_of_admits hne hr]
    refine ⟨_, AList.lookup_insert _, ?_⟩
    rw [hent] at hext ⊢
    exact hext
  · exact ⟨s, by rw [lookup_push_of_ne t hk]; exact hl, List.prefix_refl _⟩

/-- **Bounded, append-only, justified.**  After every push of every run of a fresh table the
number of streams respects the capacity, every buffer that existed is a prefix of what it has
become, and every buffer is at most `maxBytes` long and carries at each position a byte that some
segment offered for its key has there, counted from the first sequence number of the key. -/
theorem run_stream_sound (maxStreams maxBytes : ℕ) (segs : List (Segment κ)) (g : Segment κ)
    (hne : ∀ x ∈ segs ++ [g], x.payload ≠ [])
    (hlt : maxBytes + pushedBytes (segs ++ [g]) < 2 ^ 32) :
    len (((new maxStreams maxBytes).run segs).push g.key g.seq g.payload).2.streams ≤ maxStreams ∧
      (∀ key s, ((new maxStreams maxBytes).run segs).streams.lookup key = some s →
        ∃ s', (((new maxStreams maxBytes).run segs).push g.key g.seq g.payload).2.streams.lookup
            key = some s' ∧ s.buf <+: s'.buf) ∧
      ∀ key s',
        (((new maxStreams maxBytes).run segs).push g.key g.seq g.payload).2.streams.lookup key
            = some s' →
          s'.buf.length ≤ maxBytes ∧
          ∃ base, s'.baseSeq = some base ∧
            ((segs ++ [g]).find? fun x => x.key = key).map Segment.seq = some base ∧
            ∀ i b, s'.buf[i]? = some b → ∃ x ∈ segs ++ [g], x.key = key ∧
              ∃ j, (x.seq - base).toNat + j = i ∧ x.payload[j]? = some b := by
  have hbytes := hlt
  rw [pushedBytes_append] at hbytes
  have hgood := good_run maxStreams maxBytes segs
    (fun x hx => hne x (List.mem_append_left _ hx)) (by omega)
  have hgood' := good_run maxStreams maxBytes (segs ++ [g]) hne hlt
  rw [run_concat] at hgood'
  refine ⟨hgood'.len_le, fun key s hl => ?_, fun key s' hl => ?_⟩
  · exact hgood.push_extends (by simp [new]) (by simp [new]) g (hne g (by simp)) hlt hl
  · have hst := hgood'.stream key s' hl
    -- the stream is not fresh: some segment of the run carries its key
    have hhead : ((segs ++ [g]).find? fun x => x.key = key).map Segment.seq = s'.baseSeq := by
      rw [hst.base, history, List.head?_map, List.head?_filter, Option.map_map]
      rfl
    obtain ⟨base, hbase⟩ : ∃ base, s'.baseSeq = some base := by
      obtain ⟨p, hist, hp⟩ := List.exists_cons_of_ne_nil (hgood'.offered key s' hl)
      exact ⟨p.1, by rw [hst.base, hp]; rfl⟩
    refine ⟨hst.len_le, base, hbase, by rw [hhead, hbase], fun i b hb => ?_⟩
    obtain ⟨p, hp, j, hj⟩ := hst.justified base hbase i b hb
    obtain ⟨x, hx, rfl⟩ := List.mem_map.1 hp
    obtain ⟨hxs, hk⟩ := List.mem_filter.1 hx
    exact ⟨x, hxs, by simpa using hk, j, hj⟩

/-- Three segments of one key, the last two overlapping: the invariant at work. -/
theorem run_stream_sound_overlap :
    (((new 1 8).run [⟨0, 1000, [1, 2]⟩, ⟨0, 1004, [5, 6]⟩]).push 0 1001 [9, 3, 4]).2.streams.lookup
        0 = some { baseSeq := some 1000, buf := [1, 2, 3, 4, 5, 6] } ∧
      len (((new 1 8).run [⟨0, 1000, [1, 2]⟩, ⟨0, 1004, [5, 6]⟩]).push 0 1001
        [9, 3, 4]).2.streams ≤ 1 :=
  ⟨by decide, (run_stream_sound 1 8 [⟨0, 1000, [1, 2]⟩, ⟨0, 1004, [5, 6]⟩] ⟨0, 1001, [9, 3, 4]⟩
    (by decide) (by decide)).1⟩

end StreamTable

end PcapRacer
