/-
**Overlapping segments.**

Copies of one stretch of a stream may be cut at different boundaries and may carry different
bytes.  A buffer settles an overlap at the moment it grows, not when a segment arrives, so what it
does with a segment that had to wait depends on the segments that came in meanwhile.  This module
proves what it takes for the result to be as if overlaps had been settled on arrival.

*The first copy wins*: every byte of the buffer is the one of the earliest segment that covers its
position.  The buffer is compared with `Stream.firstCopy`, read off the history; the invariant is
that beyond the end of the buffer the held segments carry exactly the first copies, and it survives
as long as no segment contradicts a held one.

*Nothing is stranded*: no held segment starts at or before the end of the buffer and reaches past
it.  Only a held segment that starts exactly at the end is drained, so a segment that ends inside
another one that starts no earlier leaves that one behind; without such pairs, nothing is.

Main definitions:

* `Stream.byteAt`, `Stream.firstCopy` — the byte of a segment, and of a history, at a position;
* `StreamTable.WithinLimits` — the pushes of a key that meet no limit;
* `Stream.Contradicts`, `Stream.Strands`, `Stream.Crosses` — what a segment must not do.

Main results:

* `Stream.FirstWins.push`, `Stream.Tidy.push` — one push keeps the invariants;
* `StreamTable.run_first_copy` — **the first copy wins**, in every run without contradictions;
* `StreamTable.run_none_stranded` — **nothing is stranded**, in every run without crossings.
-/

import PcapRacer.StreamTableRetained

set_option relaxedAutoImplicit false
set_option autoImplicit false

namespace PcapRacer

open BoundedTable (len Refuses)

namespace Stream

/-! ### Bytes at positions -/

/-- The byte a segment carries at a position, with positions counted from `base`. -/
def byteAt (base : UInt32) (g : UInt32 × Bytes) (i : ℕ) : Option UInt8 :=
  if (g.1 - base).toNat ≤ i then g.2[i - (g.1 - base).toNat]? else none

/-- The byte of the earliest segment that covers a position. -/
def firstCopy (base : UInt32) (hist : List (UInt32 × Bytes)) (i : ℕ) : Option UInt8 :=
  hist.findSome? fun g => byteAt base g i

/-- A segment carries bytes below its end only. -/
theorem byteAt_eq_none {base : UInt32} {g : UInt32 × Bytes} {i : ℕ}
    (h : (g.1 - base).toNat + g.2.length ≤ i) : byteAt base g i = none := by
  rw [byteAt, if_pos (by omega)]
  exact List.getElem?_eq_none (by omega)

theorem firstCopy_concat (base : UInt32) (hist : List (UInt32 × Bytes)) (g : UInt32 × Bytes)
    (i : ℕ) : firstCopy base (hist ++ [g]) i = (firstCopy base hist i).or (byteAt base g i) := by
  rw [firstCopy, List.findSome?_append, firstCopy]
  cases h : byteAt base g i with
  | none => simp [h]
  | some b => simp [h]

theorem firstCopy_concat_of_some {base : UInt32} {hist : List (UInt32 × Bytes)} {i : ℕ} {b : UInt8}
    (h : firstCopy base hist i = some b) (g : UInt32 × Bytes) :
    firstCopy base (hist ++ [g]) i = some b := by
  rw [firstCopy_concat, h]
  rfl

/-- Appending the part of a segment that lies past the buffer puts its bytes at their positions. -/
theorem getElem?_append_tail {base : UInt32} {buf : Bytes} {g : UInt32 × Bytes} {i : ℕ}
    (hle : (g.1 - base).toNat ≤ buf.length) (hi : buf.length ≤ i) :
    (buf ++ g.2.drop (buf.length - (g.1 - base).toNat))[i]? = byteAt base g i := by
  rw [List.getElem?_append_right hi, List.getElem?_drop, byteAt, if_pos (by omega)]
  congr 1
  omega

/-! ### The first copy -/

/-- What is known of a buffer and the held segments when the segments `hist` have been offered:
the buffer carries first copies, and so do the held segments beyond it; nothing else does. -/
structure FirstWins (base : UInt32) (hist : List (UInt32 × Bytes)) (buf : Bytes)
    (pending : List (UInt32 × Bytes)) : Prop where
  inBuf : ∀ i b, buf[i]? = some b → firstCopy base hist i = some b
  held : ∀ p ∈ pending, ∀ i b, buf.length ≤ i → byteAt base p i = some b →
    firstCopy base hist i = some b
  covered : ∀ i b, buf.length ≤ i → firstCopy base hist i = some b →
    ∃ p ∈ pending, byteAt base p i = some b

/-- A segment contradicts a held one: beyond the buffer they carry different bytes at some
position. -/
def Contradicts (s : Stream) (seq : UInt32) (payload : Bytes) : Prop :=
  ∃ p ∈ s.pending, ∃ i < s.offsetOf seq + payload.length, s.buf.length ≤ i ∧
    (byteAt (s.baseOr seq) p i).isSome ∧ (byteAt (s.baseOr seq) (seq, payload) i).isSome ∧
    byteAt (s.baseOr seq) p i ≠ byteAt (s.baseOr seq) (seq, payload) i

instance (s : Stream) (seq : UInt32) (payload : Bytes) : Decidable (s.Contradicts seq payload) :=
  inferInstanceAs (Decidable (∃ p ∈ s.pending, _))

/-- The buffer takes over a segment that leaves no gap and carries first copies. -/
theorem FirstWins.append {base : UInt32} {hist : List (UInt32 × Bytes)} {buf : Bytes}
    {pending pending' : List (UInt32 × Bytes)} {g : UInt32 × Bytes}
    (h : FirstWins base hist buf pending) (hle : (g.1 - base).toNat ≤ buf.length)
    (hend : buf.length ≤ (g.1 - base).toNat + g.2.length)
    (hg : ∀ i b, buf.length ≤ i → byteAt base g i = some b → firstCopy base hist i = some b)
    (hsub : ∀ p ∈ pending', p ∈ pending) (hsup : ∀ p ∈ pending, p = g ∨ p ∈ pending') :
    FirstWins base hist (buf ++ g.2.drop (buf.length - (g.1 - base).toNat)) pending' := by
  have hlen : (buf ++ g.2.drop (buf.length - (g.1 - base).toNat)).length =
      (g.1 - base).toNat + g.2.length := by
    rw [List.length_append, List.length_drop]
    omega
  refine ⟨fun i b hb => ?_, fun p hp i b hi => ?_, fun i b hi hb => ?_⟩
  · rcases Nat.lt_or_ge i buf.length with hi | hi
    · rw [List.getElem?_append_left hi] at hb
      exact h.inBuf i b hb
    · rw [getElem?_append_tail hle hi] at hb
      exact hg i b hi hb
  · exact h.held p (hsub p hp) i b (by omega)
  · obtain ⟨p, hp, hpb⟩ := h.covered i b (by omega) hb
    rcases hsup p hp with rfl | hp'
    · rw [byteAt_eq_none (by omega)] at hpb
      cases hpb
    · exact ⟨p, hp', hpb⟩

/-- The segment the drain loop picks starts at the end of the buffer, as long as the buffer stays
below `2 ^ 32` bytes. -/
theorem toNat_sub_of_find {base : UInt32} {fuel : ℕ} {buf : Bytes}
    {pending pending' : List (UInt32 × Bytes)} {p : UInt32 × Bytes}
    (hp : pending.find? (fun p => p.1 == bufEnd base buf) = some p)
    (hlt : (drainLoop base fuel (buf ++ p.2) pending').1.length < 2 ^ 32) :
    (p.1 - base).toNat = buf.length := by
  have hend : p.1 = bufEnd base buf := by simpa using List.find?_some hp
  have hle := (prefix_drainLoop base fuel (buf ++ p.2) pending').length_le
  rw [List.length_append] at hle
  rw [hend]
  exact toNat_bufEnd_sub (by omega)

/-- Draining keeps it, as long as the buffer stays below `2 ^ 32` bytes. -/
theorem FirstWins.drainLoop {base : UInt32} {hist : List (UInt32 × Bytes)} {fuel : ℕ}
    {buf : Bytes} {pending : List (UInt32 × Bytes)} (h : FirstWins base hist buf pending)
    (hlt : (drainLoop base fuel buf pending).1.length < 2 ^ 32) :
    FirstWins base hist (drainLoop base fuel buf pending).1
      (drainLoop base fuel buf pending).2 := by
  induction fuel generalizing buf pending with
  | zero => exact h
  | succ fuel ih =>
      unfold Stream.drainLoop at hlt ⊢
      split
      · next p hp =>
          rw [hp] at hlt
          dsimp only at hlt
          have hmem := List.mem_of_find?_eq_some hp
          have hoff := toNat_sub_of_find hp hlt
          have happ : FirstWins base hist
              (buf ++ p.2.drop (buf.length - (p.1 - base).toNat))
              (pending.eraseP fun p => p.1 == bufEnd base buf) := by
            refine h.append hoff.le (by omega) (h.held p hmem)
              (fun q hq => List.mem_of_mem_eraseP hq) fun q hq => ?_
            exact List.mem_cons.1 ((Pieces.perm_cons_eraseP hp).mem_iff.1 hq)
          rw [hoff, Nat.sub_self, List.drop_zero] at happ
          exact ih happ hlt
      · exact h

/-- A segment that contradicts no held one carries first copies beyond the buffer. -/
theorem FirstWins.firstCopy_of_byteAt {base : UInt32} {hist : List (UInt32 × Bytes)} {buf : Bytes}
    {pending : List (UInt32 × Bytes)} {g : UInt32 × Bytes} (h : FirstWins base hist buf pending)
    (hg : ∀ p ∈ pending, ∀ i b b', buf.length ≤ i → byteAt base p i = some b →
      byteAt base g i = some b' → b = b') {i : ℕ} {b : UInt8} (hi : buf.length ≤ i)
    (hb : byteAt base g i = some b) : firstCopy base (hist ++ [g]) i = some b := by
  rw [firstCopy_concat, hb]
  cases hfirst : firstCopy base hist i with
  | none => rfl
  | some b' =>
      obtain ⟨p, hp, hpb⟩ := h.covered i b' hi hfirst
      rw [hg p hp i b' b hi hpb hb]
      rfl

/-- Offering one more segment: the buffer and the held segments still carry first copies. -/
theorem FirstWins.offer {base : UInt32} {hist : List (UInt32 × Bytes)} {buf : Bytes}
    {pending : List (UInt32 × Bytes)} {g : UInt32 × Bytes} (h : FirstWins base hist buf pending) :
    (∀ i b, buf[i]? = some b → firstCopy base (hist ++ [g]) i = some b) ∧
      ∀ p ∈ pending, ∀ i b, buf.length ≤ i → byteAt base p i = some b →
        firstCopy base (hist ++ [g]) i = some b := by
  refine ⟨fun i b hb => ?_, fun p hp i b hi hb => ?_⟩
  · exact firstCopy_concat_of_some (h.inBuf i b hb) g
  · exact firstCopy_concat_of_some (h.held p hp i b hi hb) g

/-- **One push keeps the first copies**, as long as nothing is discarded and the segment does not
contradict a held one. -/
theorem FirstWins.push {s : Stream} {maxBytes : ℕ} {hist : List (UInt32 × Bytes)}
    (h : ∀ q, FirstWins (s.baseOr q) hist s.buf s.pending) (hcap : s.buf.length ≤ maxBytes)
    {seq : UInt32} {payload : Bytes} (hne : payload ≠ [])
    (hkept : ¬ s.Discards maxBytes seq payload)
    (hlt : (s.push maxBytes seq payload).1.buf.length < 2 ^ 32)
    (hcon : ¬ s.Contradicts seq payload) (q : UInt32) :
    FirstWins ((s.push maxBytes seq payload).1.baseOr q) (hist ++ [(seq, payload)])
      (s.push maxBytes seq payload).1.buf (s.push maxBytes seq payload).1.pending := by
  have hbase := h seq
  obtain ⟨hinBuf, hheld⟩ := hbase.offer (g := (seq, payload))
  have hagree : ∀ p ∈ s.pending, ∀ i b b', s.buf.length ≤ i → byteAt (s.baseOr seq) p i = some b →
      byteAt (s.baseOr seq) (seq, payload) i = some b' → b = b' := by
    intro p hp i b b' hi hb hb'
    by_contra hbb
    have hlast : i < s.offsetOf seq + payload.length := by
      by_contra hge
      have hnone : byteAt (s.baseOr seq) (seq, payload) i = none :=
        byteAt_eq_none (g := (seq, payload)) (Nat.le_of_not_lt hge)
      rw [hnone] at hb'
      cases hb'
    refine hcon ⟨p, hp, i, hlast, hi, ?_⟩
    rw [hb, hb']
    exact ⟨rfl, rfl, fun h => hbb (Option.some_inj.1 h)⟩
  -- the new segment carries first copies beyond the buffer, and covers what was not covered
  have hnew : ∀ i b, s.buf.length ≤ i → byteAt (s.baseOr seq) (seq, payload) i = some b →
      firstCopy (s.baseOr seq) (hist ++ [(seq, payload)]) i = some b := fun i b hi hb =>
    hbase.firstCopy_of_byteAt hagree hi hb
  have hcov : ∀ i b, s.buf.length ≤ i →
      firstCopy (s.baseOr seq) (hist ++ [(seq, payload)]) i = some b →
      byteAt (s.baseOr seq) (seq, payload) i = some b ∨
        ∃ p ∈ s.pending, byteAt (s.baseOr seq) p i = some b := by
    intro i b hi hb
    rw [firstCopy_concat, Option.or_eq_some_iff] at hb
    rcases hb with hb | ⟨-, hb⟩
    · exact Or.inr (hbase.covered i b hi hb)
    · exact Or.inl hb
  have hpush := pushed_push hcap seq hne
  rw [discards_iff hcap seq hne] at hkept
  generalize s.push maxBytes seq payload = r at hpush hlt
  cases hpush with
  | grow hle hend =>
      have hclip : (s.grown seq payload).clip maxBytes = (s.grown seq payload, false) :=
        clip_eq_self (Nat.le_of_not_lt fun hover => hkept (Or.inl ⟨hle, hend, hover⟩))
      rw [hclip] at hlt ⊢
      -- the segment is held for a moment, and taken into the buffer at once
      have hmid : FirstWins (s.baseOr seq) (hist ++ [(seq, payload)]) s.buf
          ((seq, payload) :: s.pending) := by
        refine ⟨hinBuf, fun p hp => ?_, fun i b hi hb => ?_⟩
        · rcases List.mem_cons.1 hp with rfl | hp
          · exact hnew
          · exact hheld p hp
        · rcases hcov i b hi hb with hb | ⟨p, hp, hb⟩
          · exact ⟨_, List.mem_cons_self .., hb⟩
          · exact ⟨p, List.mem_cons_of_mem _ hp, hb⟩
      have happ := hmid.append (g := (seq, payload)) hle hend.le hnew
        (fun p hp => List.mem_cons_of_mem _ hp) (fun p hp => List.mem_cons.1 hp)
      exact happ.drainLoop hlt
  | copy hin hle =>
      refine ⟨hinBuf, hheld, fun i b hi hb => ?_⟩
      rcases hcov i b hi hb with hb | hb
      · have hnone : byteAt (s.baseOr seq) (seq, payload) i = none :=
          byteAt_eq_none (g := (seq, payload)) (Nat.le_trans hle hi)
        rw [hnone] at hb
        cases hb
      · exact hb
  | hold hgap hbelow hroom =>
      refine ⟨hinBuf, fun p hp => ?_, fun i b hi hb => ?_⟩
      · rcases List.mem_append.1 hp with hp | hp
        · exact hheld p hp
        · rw [List.mem_singleton.1 hp]
          exact hnew
      · rcases hcov i b hi hb with hb | ⟨p, hp, hb⟩
        · exact ⟨_, List.mem_append_right _ (List.mem_singleton.2 rfl), hb⟩
        · exact ⟨p, List.mem_append_left _ hp, hb⟩
  | overflow hgap hbelow hfull => exact absurd (Or.inr ⟨hgap, Or.inr hfull⟩) hkept
  | beyond hgap hbelow => exact absurd (Or.inr ⟨hgap, Or.inl hbelow⟩) hkept

/-! ### Stranded segments -/

/-- A held segment is stranded: it starts at or before the end of the buffer and reaches past
it. -/
def Stranded (base : UInt32) (buf : Bytes) (p : UInt32 × Bytes) : Prop :=
  (p.1 - base).toNat ≤ buf.length ∧ buf.length < (p.1 - base).toNat + p.2.length

instance (base : UInt32) (buf : Bytes) (p : UInt32 × Bytes) : Decidable (Stranded base buf p) :=
  inferInstanceAs (Decidable (_ ∧ _))

/-- A segment ends inside another one that starts no earlier. -/
def Strands (base : UInt32) (p q : UInt32 × Bytes) : Prop :=
  (p.1 - base).toNat ≤ (q.1 - base).toNat ∧
    (q.1 - base).toNat < (p.1 - base).toNat + p.2.length ∧
    (p.1 - base).toNat + p.2.length < (q.1 - base).toNat + q.2.length

instance (base : UInt32) (p q : UInt32 × Bytes) : Decidable (Strands base p q) :=
  inferInstanceAs (Decidable (_ ∧ _ ∧ _))

/-- A segment crosses a held one that reaches past the buffer: one of the two ends inside the
other, which starts no earlier. -/
def Crosses (s : Stream) (seq : UInt32) (payload : Bytes) : Prop :=
  ∃ p ∈ s.pending, s.buf.length < (p.1 - s.baseOr seq).toNat + p.2.length ∧
    (Strands (s.baseOr seq) (seq, payload) p ∨ Strands (s.baseOr seq) p (seq, payload))

instance (s : Stream) (seq : UInt32) (payload : Bytes) : Decidable (s.Crosses seq payload) :=
  inferInstanceAs (Decidable (∃ p ∈ s.pending, _))

/-- The held segments are out of the way of the end of the buffer and of each other. -/
structure Swept (base : UInt32) (buf : Bytes) (pending : List (UInt32 × Bytes)) : Prop where
  clear : ∀ p ∈ pending, buf.length ≤ (p.1 - base).toNat ∨
    (p.1 - base).toNat + p.2.length ≤ buf.length
  uncrossed : ∀ p ∈ pending, ∀ q ∈ pending, buf.length ≤ (p.1 - base).toNat → ¬ Strands base p q

/-- The invariant between pushes: moreover no held segment starts at the end of the buffer. -/
structure Tidy (base : UInt32) (buf : Bytes) (pending : List (UInt32 × Bytes)) : Prop
    extends Swept base buf pending where
  none_stranded : ∀ p ∈ pending, ¬ Stranded base buf p

/-- The buffer takes over a segment that ends inside no held one. -/
theorem Swept.append {base : UInt32} {buf : Bytes} {pending pending' : List (UInt32 × Bytes)}
    {g : UInt32 × Bytes} (h : Swept base buf pending) (hle : (g.1 - base).toNat ≤ buf.length)
    (hend : buf.length ≤ (g.1 - base).toNat + g.2.length)
    (hg : ∀ q ∈ pending', buf.length ≤ (q.1 - base).toNat → ¬ Strands base g q)
    (hsub : ∀ p ∈ pending', p ∈ pending) :
    Swept base (buf ++ g.2.drop (buf.length - (g.1 - base).toNat)) pending' := by
  have hlen : (buf ++ g.2.drop (buf.length - (g.1 - base).toNat)).length =
      (g.1 - base).toNat + g.2.length := by
    rw [List.length_append, List.length_drop]
    omega
  refine ⟨fun q hq => ?_, fun p hp q hq hpos => ?_⟩
  · rw [hlen]
    rcases h.clear q (hsub q hq) with hahead | hbehind
    · by_contra hin
      exact hg q hq hahead ⟨by omega, by omega, by omega⟩
    · exact Or.inr (by omega)
  · exact h.uncrossed p (hsub p hp) q (hsub q hq) (by omega)

/-- Draining keeps the held segments out of the way, as long as the buffer stays below `2 ^ 32`
bytes. -/
theorem Swept.drainLoop {base : UInt32} {fuel : ℕ} {buf : Bytes}
    {pending : List (UInt32 × Bytes)} (h : Swept base buf pending)
    (hlt : (drainLoop base fuel buf pending).1.length < 2 ^ 32) :
    Swept base (drainLoop base fuel buf pending).1 (drainLoop base fuel buf pending).2 := by
  induction fuel generalizing buf pending with
  | zero => exact h
  | succ fuel ih =>
      unfold Stream.drainLoop at hlt ⊢
      split
      · next p hp =>
          rw [hp] at hlt
          dsimp only at hlt
          have hmem := List.mem_of_find?_eq_some hp
          have hoff := toNat_sub_of_find hp hlt
          have happ : Swept base (buf ++ p.2.drop (buf.length - (p.1 - base).toNat))
              (pending.eraseP fun p => p.1 == bufEnd base buf) :=
            h.append hoff.le (by omega)
              (fun q hq _ => h.uncrossed p hmem q (List.mem_of_mem_eraseP hq) hoff.ge)
              (fun q hq => List.mem_of_mem_eraseP hq)
          rw [hoff, Nat.sub_self, List.drop_zero] at happ
          exact ih happ hlt
      · exact h

/-- When the loop is done, no held segment starts at the end of the buffer. -/
theorem ne_bufEnd_of_mem_drainLoop {base : UInt32} {fuel : ℕ} {buf : Bytes}
    {pending : List (UInt32 × Bytes)} (hfuel : pending.length ≤ fuel) {p : UInt32 × Bytes}
    (hp : p ∈ (drainLoop base fuel buf pending).2) :
    p.1 ≠ bufEnd base (drainLoop base fuel buf pending).1 := by
  induction fuel generalizing buf pending with
  | zero =>
      rw [List.eq_nil_of_length_eq_zero (Nat.le_zero.1 hfuel)] at hp
      cases hp
  | succ fuel ih =>
      unfold drainLoop at hp ⊢
      split
      · next q hq =>
          rw [hq] at hp
          have hlen := (Pieces.perm_cons_eraseP hq).length_eq
          rw [List.length_cons] at hlen
          exact ih (by omega) hp
      · next hq =>
          rw [hq] at hp
          simpa using List.find?_eq_none.1 hq p hp

theorem eq_bufEnd_of_toNat_sub {base seq : UInt32} {buf : Bytes}
    (h : (seq - base).toNat = buf.length) : seq = bufEnd base buf := by
  rw [bufEnd, ← h, UInt32.ofNat_toNat, UInt32.add_comm, UInt32.sub_add_cancel]

/-- **One push strands nothing**, as long as nothing is discarded and the segment does not cross a
held one. -/
theorem Tidy.push {s : Stream} {maxBytes : ℕ} (h : ∀ q, Tidy (s.baseOr q) s.buf s.pending)
    (hcap : s.buf.length ≤ maxBytes) {seq : UInt32} {payload : Bytes} (hne : payload ≠ [])
    (hkept : ¬ s.Discards maxBytes seq payload)
    (hlt : (s.push maxBytes seq payload).1.buf.length < 2 ^ 32)
    (hcross : ¬ s.Crosses seq payload) (q : UInt32) :
    Tidy ((s.push maxBytes seq payload).1.baseOr q) (s.push maxBytes seq payload).1.buf
      (s.push maxBytes seq payload).1.pending := by
  have hbase := h seq
  have hahead : ∀ p ∈ s.pending, s.buf.length ≤ (p.1 - s.baseOr seq).toNat →
      ¬ Strands (s.baseOr seq) (seq, payload) p ∧ ¬ Strands (s.baseOr seq) p (seq, payload) := by
    intro p hp hle
    refine ⟨fun hs => ?_, fun hs => ?_⟩
    · exact hcross ⟨p, hp, by have := hs.2.2; have := hs.2.1; omega, Or.inl hs⟩
    · exact hcross ⟨p, hp, by have := hs.1; have := hs.2.1; omega, Or.inr hs⟩
  have hpush := pushed_push hcap seq hne
  rw [discards_iff hcap seq hne] at hkept
  generalize s.push maxBytes seq payload = r at hpush hlt
  cases hpush with
  | grow hle hend =>
      have hclip : (s.grown seq payload).clip maxBytes = (s.grown seq payload, false) :=
        clip_eq_self (Nat.le_of_not_lt fun hover => hkept (Or.inl ⟨hle, hend, hover⟩))
      rw [hclip] at hlt ⊢
      have happ : Swept (s.baseOr seq) (s.buf ++ s.fresh seq payload) s.pending :=
        hbase.toSwept.append (g := (seq, payload)) hle hend.le
          (fun p hp hpos => (hahead p hp hpos).1) fun p hp => hp
      refine ⟨happ.drainLoop hlt, fun p hp hstr => ?_⟩
      -- a stranded segment would start at the end of the buffer, and be drained
      have hne' := ne_bufEnd_of_mem_drainLoop (Nat.le_refl _) hp
      rcases (happ.drainLoop hlt).clear p hp with hpos | hpos
      · have hoff : (p.1 - s.baseOr seq).toNat = (s.grown seq payload).buf.length :=
          Nat.le_antisymm hstr.1 hpos
        exact hne' (eq_bufEnd_of_toNat_sub hoff)
      · exact absurd hstr.2 (Nat.not_lt.2 hpos)
  | copy hin hle => exact hbase
  | hold hgap hbelow hroom =>
      refine ⟨⟨fun p hp => ?_, fun p hp p' hp' hpos hs => ?_⟩, fun p hp hstr => ?_⟩
      · rcases List.mem_append.1 hp with hp | hp
        · exact hbase.clear p hp
        · rw [List.mem_singleton.1 hp]
          exact Or.inl hgap.le
      · rcases List.mem_append.1 hp with hp | hp <;> rcases List.mem_append.1 hp' with hp' | hp'
        · exact hbase.uncrossed p hp p' hp' hpos hs
        · rw [List.mem_singleton.1 hp'] at hs
          exact (hahead p hp hpos).2 hs
        · rw [List.mem_singleton.1 hp] at hs hpos
          exact (hahead p' hp' (Nat.le_trans hpos hs.1)).1 hs
        · rw [List.mem_singleton.1 hp, List.mem_singleton.1 hp'] at hs
          exact Nat.lt_irrefl _ hs.2.2
      · rcases List.mem_append.1 hp with hp | hp
        · exact hbase.none_stranded p hp hstr
        · rw [List.mem_singleton.1 hp] at hstr
          exact absurd hstr.1 (Nat.not_le.2 hgap)
  | overflow hgap hbelow hfull => exact absurd (Or.inr ⟨hgap, Or.inr hfull⟩) hkept
  | beyond hgap hbelow => exact absurd (Or.inr ⟨hgap, Or.inl hbelow⟩) hkept

end Stream

namespace StreamTable

variable {κ : Type} [DecidableEq κ]

/-! ### Runs within the limits -/

/-- The pushes of a key meet no limit: the table admits the key, no byte is discarded, and the
stream stays within the sequence space. -/
structure WithinLimits (t : StreamTable κ) (segs : List (Segment κ)) (key : κ) : Prop where
  admitted : ∀ pre g, pre ++ [g] <+: segs → g.key = key →
    ¬ Refuses (t.run pre).maxStreams (t.run pre).streams g.key
  kept : ∀ pre g, pre ++ [g] <+: segs → g.key = key → ¬ (t.run pre).Discards g
  short : ∀ pre g, pre ++ [g] <+: segs → ((t.run (pre ++ [g])).entry key).buf.length < 2 ^ 32

/-- **What every push of a key preserves holds of its stream after every run** that meets no limit
for the key. -/
theorem WithinLimits.entry_induction {maxStreams maxBytes : ℕ} {segs : List (Segment κ)} {key : κ}
    (hlim : WithinLimits (new maxStreams maxBytes) segs key)
    (I : List (UInt32 × Bytes) → Stream → Prop) (hnew : I [] {})
    (hskip : ∀ hist s seq, I hist s → I (hist ++ [(seq, [])]) s)
    (hpush : ∀ (pre : List (Segment κ)) (g : Segment κ) (s : Stream), pre ++ [g] <+: segs →
      g.key = key → s = ((new maxStreams maxBytes).run pre).entry key → g.payload ≠ [] →
      s.buf.length ≤ maxBytes → ¬ s.Discards maxBytes g.seq g.payload →
      (s.push maxBytes g.seq g.payload).1.buf.length < 2 ^ 32 → I (history pre key) s →
      I (history pre key ++ [(g.seq, g.payload)]) (s.push maxBytes g.seq g.payload).1) :
    ∀ pre, pre <+: segs → I (history pre key) (((new maxStreams maxBytes).run pre).entry key) := by
  intro pre
  induction pre using List.reverseRecOn with
  | nil => exact fun _ => hnew
  | append_singleton pre g ih =>
      intro hpre
      have hprev := ih ((List.prefix_append _ _).trans hpre)
      by_cases hk : g.key = key
      · subst hk
        have hmax : ((new maxStreams maxBytes).run pre).maxBytes = maxBytes := run_maxBytes _ _
        rw [history_concat_self, run_concat]
        by_cases hne : g.payload = []
        · have hnot : ¬ ((new maxStreams maxBytes).run pre).Takes g := fun ht => ht.1 hne
          rw [entry_congr (push_of_not_takes hnot).2.1, hne]
          exact hskip _ _ _ hprev
        · have ht : ((new maxStreams maxBytes).run pre).Takes g :=
            ⟨hne, hlim.admitted pre g hpre rfl⟩
          have hkept := hlim.kept pre g hpre rfl
          have hshort := hlim.short pre g hpre
          rw [run_concat, entry_push_self ht, hmax] at hshort
          rw [entry_push_self ht, hmax]
          refine hpush pre g _ hpre rfl rfl hne (length_entry_run_le _ _ _ _) (fun hd => ?_)
            hshort hprev
          exact hkept ⟨ht, by rwa [hmax]⟩
      · rw [history_concat_of_ne pre hk, run_concat, entry_push_of_ne _ (Ne.symm hk)]
        exact hprev

theorem entry_of_lookup {t : StreamTable κ} {key : κ} {s : Stream}
    (h : t.streams.lookup key = some s) : t.entry key = s := by
  rw [entry, h]
  rfl

/-- **The first copy wins.**  In every run that meets no limit for a key, and in which no segment
contradicts one that its stream holds, every byte of the buffer is the one that the earliest
segment covering its position carries there. -/
theorem run_first_copy (maxStreams maxBytes : ℕ) (segs : List (Segment κ)) (key : κ)
    (hlim : WithinLimits (new maxStreams maxBytes) segs key)
    (hcon : ∀ pre g, pre ++ [g] <+: segs → g.key = key →
      ¬ (((new maxStreams maxBytes).run pre).entry key).Contradicts g.seq g.payload) :
    ∀ pre, pre <+: segs → ∀ s base,
      ((new maxStreams maxBytes).run pre).streams.lookup key = some s → s.baseSeq = some base →
        ∀ i b, s.buf[i]? = some b → Stream.firstCopy base (history pre key) i = some b := by
  intro pre hpre s base hs hbase i b hb
  have hinv := hlim.entry_induction
    (fun hist s => ∀ q, Stream.FirstWins (s.baseOr q) hist s.buf s.pending)
    (fun q => ⟨fun i b h => by simp at h, fun p hp => by simp at hp,
      fun i b _ h => by simp [Stream.firstCopy] at h⟩)
    (fun hist s seq h q => by
      -- an empty segment covers no position
      have hsame : ∀ i, Stream.firstCopy (s.baseOr q) (hist ++ [(seq, [])]) i =
          Stream.firstCopy (s.baseOr q) hist i := by
        intro i
        rw [Stream.firstCopy_concat]
        have hnone : Stream.byteAt (s.baseOr q) (seq, []) i = none := by simp [Stream.byteAt]
        rw [hnone, Option.or_none]
      refine ⟨fun i b hb => ?_, fun p hp i b hi hb => ?_, fun i b hi hb => ?_⟩
      · rw [hsame]
        exact (h q).inBuf i b hb
      · rw [hsame]
        exact (h q).held p hp i b hi hb
      · rw [hsame] at hb
        exact (h q).covered i b hi hb)
    (fun pre g s hpre hk hs hne hcap hkept hlt h => by
      subst hs
      exact Stream.FirstWins.push h hcap hne hkept hlt (hcon pre g hpre hk))
    pre hpre
  rw [entry_of_lookup hs] at hinv
  have hbase' : s.baseOr 0 = base := by rw [Stream.baseOr, hbase]; rfl
  have hfirst := (hinv 0).inBuf i b hb
  rwa [hbase'] at hfirst

/-- A retransmission that agrees with a held segment. -/
theorem run_first_copy_agreeing :
    WithinLimits (new 2 16 : StreamTable ℕ)
        [⟨7, 1000, [1, 2]⟩, ⟨7, 1004, [5, 6]⟩, ⟨7, 1002, [3, 4, 5]⟩] 7 ∧
      ∀ pre, pre <+: [⟨7, 1000, [1, 2]⟩, ⟨7, 1004, [5, 6]⟩, ⟨7, 1002, [3, 4, 5]⟩] → ∀ s base,
        ((new 2 16 : StreamTable ℕ).run pre).streams.lookup 7 = some s → s.baseSeq = some base →
          ∀ i b, s.buf[i]? = some b → Stream.firstCopy base (history pre 7) i = some b := by
  have hlim : WithinLimits (new 2 16 : StreamTable ℕ)
      [⟨7, 1000, [1, 2]⟩, ⟨7, 1004, [5, 6]⟩, ⟨7, 1002, [3, 4, 5]⟩] 7 :=
    ⟨Pieces.forall_concat_prefix (by decide), Pieces.forall_concat_prefix (by decide),
      Pieces.forall_concat_prefix (by decide)⟩
  exact ⟨hlim, run_first_copy 2 16 _ 7 hlim
    (Pieces.forall_concat_prefix fun i _ => by
      revert i
      decide)⟩

/-- The bytes `67` at positions `6` and `7` were there first, but they had to wait, and the filler
of the gap brings its own. -/
theorem run_later_copy :
    WithinLimits (new 2 16 : StreamTable ℕ)
        [⟨7, 1000, [65, 65, 65, 65]⟩, ⟨7, 1006, [67, 67, 67, 67]⟩, ⟨7, 1004, [66, 66, 88, 88]⟩] 7 ∧
      ∃ s, ((new 2 16 : StreamTable ℕ).run [⟨7, 1000, [65, 65, 65, 65]⟩, ⟨7, 1006, [67, 67, 67, 67]⟩,
          ⟨7, 1004, [66, 66, 88, 88]⟩]).streams.lookup 7 = some s ∧ s.baseSeq = some 1000 ∧
        s.buf[6]? = some 88 ∧
        Stream.firstCopy 1000 (history [⟨7, 1000, [65, 65, 65, 65]⟩, ⟨7, 1006, [67, 67, 67, 67]⟩,
          ⟨7, 1004, [66, 66, 88, 88]⟩] 7) 6 = some 67 :=
  ⟨⟨Pieces.forall_concat_prefix (by decide), Pieces.forall_concat_prefix (by decide),
    Pieces.forall_concat_prefix (by decide)⟩, _, rfl, rfl, rfl, rfl⟩

/-- **Nothing is stranded.**  In every run that meets no limit for a key, and in which no segment
crosses one that its stream holds, no held segment ever starts at or before the end of the buffer
and reaches past it. -/
theorem run_none_stranded (maxStreams maxBytes : ℕ) (segs : List (Segment κ)) (key : κ)
    (hlim : WithinLimits (new maxStreams maxBytes) segs key)
    (hcross : ∀ pre g, pre ++ [g] <+: segs → g.key = key →
      ¬ (((new maxStreams maxBytes).run pre).entry key).Crosses g.seq g.payload) :
    ∀ pre, pre <+: segs → ∀ s base,
      ((new maxStreams maxBytes).run pre).streams.lookup key = some s → s.baseSeq = some base →
        ∀ p ∈ s.pending, ¬ Stream.Stranded base s.buf p := by
  intro pre hpre s base hs hbase
  have hinv := hlim.entry_induction (fun _ s => ∀ q, Stream.Tidy (s.baseOr q) s.buf s.pending)
    (fun q => ⟨⟨fun p hp => by simp at hp, fun p hp => by simp at hp⟩, fun p hp => by simp at hp⟩)
    (fun hist s seq h => h)
    (fun pre g s hpre hk hs hne hcap hkept hlt h => by
      subst hs
      exact Stream.Tidy.push h hcap hne hkept hlt (hcross pre g hpre hk))
    pre hpre
  rw [entry_of_lookup hs] at hinv
  have hbase' : s.baseOr 0 = base := by rw [Stream.baseOr, hbase]; rfl
  have htidy := hinv 0
  rw [hbase'] at htidy
  exact htidy.none_stranded

/-- A held segment, a filler up to its start, and a copy of a part of the buffer. -/
theorem run_none_stranded_flush :
    WithinLimits (new 2 16 : StreamTable ℕ)
        [⟨7, 1000, [1, 2]⟩, ⟨7, 1004, [5, 6]⟩, ⟨7, 1002, [3, 4]⟩, ⟨7, 1001, [2, 3]⟩] 7 ∧
      ∀ pre,
        pre <+: [⟨7, 1000, [1, 2]⟩, ⟨7, 1004, [5, 6]⟩, ⟨7, 1002, [3, 4]⟩, ⟨7, 1001, [2, 3]⟩] →
        ∀ s base, ((new 2 16 : StreamTable ℕ).run pre).streams.lookup 7 = some s →
          s.baseSeq = some base → ∀ p ∈ s.pending, ¬ Stream.Stranded base s.buf p := by
  have hlim : WithinLimits (new 2 16 : StreamTable ℕ)
      [⟨7, 1000, [1, 2]⟩, ⟨7, 1004, [5, 6]⟩, ⟨7, 1002, [3, 4]⟩, ⟨7, 1001, [2, 3]⟩] 7 :=
    ⟨Pieces.forall_concat_prefix (by decide), Pieces.forall_concat_prefix (by decide),
      Pieces.forall_concat_prefix (by decide)⟩
  exact ⟨hlim, run_none_stranded 2 16 _ 7 hlim
    (Pieces.forall_concat_prefix fun i _ => by
      revert i
      decide)⟩

/-- A segment is a part of the byte string `bytes` whose first byte has sequence number `isn`. -/
def CutFrom (bytes : Bytes) (isn : UInt32) (g : Segment κ) : Prop :=
  g.payload = (bytes.drop (g.seq - isn).toNat).take g.payload.length

/-- Segments of one byte string, cut differently: the filler ends inside the held segment, whose
last two bytes are contiguous with the buffer and never reach it. -/
theorem run_stranded :
    (∀ g ∈ ([⟨7, 1000, [0, 1, 2, 3]⟩, ⟨7, 1006, [6, 7, 8, 9]⟩, ⟨7, 1004, [4, 5, 6, 7]⟩] :
        List (Segment ℕ)), CutFrom [0, 1, 2, 3, 4, 5, 6, 7, 8, 9] 1000 g) ∧
      WithinLimits (new 2 16 : StreamTable ℕ)
        [⟨7, 1000, [0, 1, 2, 3]⟩, ⟨7, 1006, [6, 7, 8, 9]⟩, ⟨7, 1004, [4, 5, 6, 7]⟩] 7 ∧
      ∃ s, ((new 2 16 : StreamTable ℕ).run [⟨7, 1000, [0, 1, 2, 3]⟩, ⟨7, 1006, [6, 7, 8, 9]⟩,
          ⟨7, 1004, [4, 5, 6, 7]⟩]).streams.lookup 7 = some s ∧ s.baseSeq = some 1000 ∧
        ∃ p ∈ s.pending, Stream.Stranded 1000 s.buf p :=
  ⟨by unfold CutFrom; decide, ⟨Pieces.forall_concat_prefix (by decide),
    Pieces.forall_concat_prefix (by decide), Pieces.forall_concat_prefix (by decide)⟩,
    _, rfl, rfl, (1006, [6, 7, 8, 9]), by decide, by decide⟩

end StreamTable

end PcapRacer
