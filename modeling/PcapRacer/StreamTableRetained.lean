/-
**What a stream retains, and what it lets go.**

`StreamTable.push` can do one of five things with a non-empty segment: grow the buffer, ignore a
copy of what is there, hold the segment, give up on all held segments, or ignore a segment that
starts at or beyond the byte cap.  `Stream.Pushed` says so once, and this module reads two balances
off it.

The first is the balance of bytes.  A push *discards* bytes when the buffer and the held segments
together grow by less than the bytes of the segment that are not in the buffer yet.  Bytes go in
three of the five cases, but only the byte cap is counted, and a segment beyond the cap is not even
marked; the account of discarded bytes is right exactly in the runs that avoid the other two.

The second is the balance of memory: the cap binds the buffer, while held segments are bounded in
number only.  What a stream retains stays within the cap as long as the held segments are paid for
out of the same budget.

Main definitions:

* `Stream.Pushed` — what a push of a non-empty segment can do;
* `Stream.retained`, `Stream.Discards` — the bytes a stream keeps, and the pushes that lose some;
* `StreamTable.lossy` — the keys whose streams have lost bytes in a run;
* `StreamTable.Accounts` — every loss so far is marked and counted;
* `Stream.LosesQuietly`, `Stream.Fits` — the conditions on one push.

Main results:

* `Stream.pushed_push` — the five cases are exhaustive;
* `Stream.discards_iff` — a push discards bytes exactly at the cap, at an overflow of the held
  segments, or beyond the cap;
* `StreamTable.accounts_iff` — **no silent loss**, exactly when no push loses quietly;
* `StreamTable.retained_run_le` — **the byte cap binds the held segments too**, as long as every
  push fits.
-/

import Mathlib.Data.Finset.Card
import PcapRacer.Pieces
import PcapRacer.StreamTableInv

set_option relaxedAutoImplicit false
set_option autoImplicit false

namespace PcapRacer

open BoundedTable (len Refuses)

namespace Stream

/-! ### What a push does -/

/-- The sequence number positions are counted from, once a segment has been offered. -/
def baseOr (s : Stream) (seq : UInt32) : UInt32 := s.baseSeq.getD seq

/-- The position a segment starts at. -/
def offsetOf (s : Stream) (seq : UInt32) : ℕ := (seq - s.baseOr seq).toNat

/-- The bytes of a segment that are not in the buffer yet. -/
def fresh (s : Stream) (seq : UInt32) (payload : Bytes) : Bytes :=
  payload.drop (s.buf.length - s.offsetOf seq)

/-- The stream a segment is placed into: it knows its base. -/
def based (s : Stream) (seq : UInt32) : Stream := { s with baseSeq := some (s.baseOr seq) }

/-- The stream with the new bytes of a segment in its buffer and whatever became flush drained. -/
def grown (s : Stream) (seq : UInt32) (payload : Bytes) : Stream :=
  ({ s.based seq with buf := s.buf ++ s.fresh seq payload } : Stream).drain (s.baseOr seq)

/-- What a push of a non-empty segment can do to a stream within its cap. -/
inductive Pushed (s : Stream) (maxBytes : ℕ) (seq : UInt32) (payload : Bytes) :
    Stream × Bool → Prop
  /-- The segment reaches past the buffer and leaves no gap. -/
  | grow (hle : s.offsetOf seq ≤ s.buf.length)
      (hlt : s.buf.length < s.offsetOf seq + payload.length) :
      Pushed s maxBytes seq payload ((s.grown seq payload).clip maxBytes)
  /-- All of the segment is in the buffer already. -/
  | copy (hlt : s.offsetOf seq < s.buf.length)
      (hle : s.offsetOf seq + payload.length ≤ s.buf.length) :
      Pushed s maxBytes seq payload (s.based seq, false)
  /-- The segment waits for the gap ahead of it. -/
  | hold (hgap : s.buf.length < s.offsetOf seq) (hcap : s.offsetOf seq < maxBytes)
      (hroom : s.pending.length < maxPending) :
      Pushed s maxBytes seq payload
        ({ s.based seq with pending := s.pending ++ [(seq, payload)] }, false)
  /-- One segment too many waits: all of them are given up. -/
  | overflow (hgap : s.buf.length < s.offsetOf seq) (hcap : s.offsetOf seq < maxBytes)
      (hfull : maxPending ≤ s.pending.length) :
      Pushed s maxBytes seq payload
        ({ s.based seq with pending := [], truncated := true }, false)
  /-- The segment starts past a gap, at or beyond the cap. -/
  | beyond (hgap : s.buf.length < s.offsetOf seq) (hcap : maxBytes ≤ s.offsetOf seq) :
      Pushed s maxBytes seq payload (s.based seq, false)

theorem push_of_place {s s' : Stream} {maxBytes : ℕ} {seq : UInt32} {payload : Bytes} {b : Bool}
    (h : (s.based seq).place maxBytes seq (s.offsetOf seq) payload = (s', b)) :
    s.push maxBytes seq payload =
      (if b && !s'.pending.isEmpty then s'.drain (s.baseOr seq) else s').clip maxBytes := by
  have hpush : s.push maxBytes seq payload =
      (if ((s.based seq).place maxBytes seq (s.offsetOf seq) payload).2 &&
          !((s.based seq).place maxBytes seq (s.offsetOf seq) payload).1.pending.isEmpty then
        ((s.based seq).place maxBytes seq (s.offsetOf seq) payload).1.drain (s.baseOr seq)
      else ((s.based seq).place maxBytes seq (s.offsetOf seq) payload).1).clip maxBytes := rfl
  rw [hpush, h]

theorem push_of_grows {s s' : Stream} {maxBytes : ℕ} {seq : UInt32} {payload : Bytes}
    (h : (s.based seq).place maxBytes seq (s.offsetOf seq) payload = (s', true)) :
    s.push maxBytes seq payload = (s'.drain (s.baseOr seq)).clip maxBytes := by
  rw [push_of_place h, drain_ite]

theorem push_of_stays {s s' : Stream} {maxBytes : ℕ} {seq : UInt32} {payload : Bytes}
    (h : (s.based seq).place maxBytes seq (s.offsetOf seq) payload = (s', false))
    (hcap : s'.buf.length ≤ maxBytes) : s.push maxBytes seq payload = (s', false) := by
  rw [push_of_place h, Bool.false_and, if_neg Bool.false_ne_true, clip_eq_self hcap]

/-- **The five cases are exhaustive.** -/
theorem pushed_push {s : Stream} {maxBytes : ℕ} (hcap : s.buf.length ≤ maxBytes) (seq : UInt32)
    {payload : Bytes} (hne : payload ≠ []) :
    Pushed s maxBytes seq payload (s.push maxBytes seq payload) := by
  have hpos : 0 < payload.length := List.length_pos_iff.2 hne
  have hbuf : (s.based seq).buf = s.buf := rfl
  rcases Nat.lt_trichotomy (s.offsetOf seq) s.buf.length with hlt | heq | hgt
  · by_cases htail : s.buf.length < s.offsetOf seq + payload.length
    · have hplace : (s.based seq).place maxBytes seq (s.offsetOf seq) payload =
          ({ s.based seq with buf := s.buf ++ s.fresh seq payload }, true) := by
        rw [place, hbuf, if_neg (Nat.ne_of_lt hlt), if_pos hlt, if_pos htail, fresh]
      rw [push_of_grows hplace]
      exact Pushed.grow hlt.le htail
    · have hplace : (s.based seq).place maxBytes seq (s.offsetOf seq) payload =
          (s.based seq, false) := by
        rw [place, hbuf, if_neg (Nat.ne_of_lt hlt), if_pos hlt, if_neg htail]
      rw [push_of_stays hplace hcap]
      exact Pushed.copy hlt (Nat.le_of_not_lt htail)
  · have hplace : (s.based seq).place maxBytes seq (s.offsetOf seq) payload =
        ({ s.based seq with buf := s.buf ++ s.fresh seq payload }, true) := by
      rw [place, hbuf, if_pos heq, fresh, heq, Nat.sub_self, List.drop_zero]
    rw [push_of_grows hplace]
    exact Pushed.grow heq.le (by omega)
  · have hne' : s.offsetOf seq ≠ s.buf.length := Nat.ne_of_gt hgt
    have hnlt : ¬ s.offsetOf seq < s.buf.length := Nat.not_lt.2 hgt.le
    have hlen : (s.pending ++ [(seq, payload)]).length = s.pending.length + 1 := by simp
    by_cases hbelow : s.offsetOf seq < maxBytes
    · by_cases hroom : s.pending.length < maxPending
      · have hplace : (s.based seq).place maxBytes seq (s.offsetOf seq) payload =
            ({ s.based seq with pending := s.pending ++ [(seq, payload)] }, false) := by
          rw [place, hbuf, if_neg hne', if_neg hnlt, if_pos hbelow]
          exact if_neg (by change ¬ maxPending < (s.pending ++ _).length; omega)
        rw [push_of_stays hplace hcap]
        exact Pushed.hold hgt hbelow hroom
      · have hplace : (s.based seq).place maxBytes seq (s.offsetOf seq) payload =
            ({ s.based seq with pending := [], truncated := true }, false) := by
          rw [place, hbuf, if_neg hne', if_neg hnlt, if_pos hbelow]
          exact if_pos (by change maxPending < (s.pending ++ _).length; omega)
        rw [push_of_stays hplace hcap]
        exact Pushed.overflow hgt hbelow (Nat.le_of_not_lt hroom)
    · have hplace : (s.based seq).place maxBytes seq (s.offsetOf seq) payload =
          (s.based seq, false) := by
        rw [place, hbuf, if_neg hne', if_neg hnlt, if_neg hbelow]
      rw [push_of_stays hplace hcap]
      exact Pushed.beyond hgt (Nat.le_of_not_lt hbelow)

/-! ### The balance of bytes -/

/-- The bytes a stream keeps: those of its buffer and those of the segments it holds. -/
def retained (s : Stream) : ℕ := s.buf.length + payloadBytes s.pending

/-- A push discards bytes: some that are not in the buffer yet are not kept either. -/
def Discards (s : Stream) (maxBytes : ℕ) (seq : UInt32) (payload : Bytes) : Prop :=
  (s.push maxBytes seq payload).1.retained < s.retained + (s.fresh seq payload).length

instance (s : Stream) (maxBytes : ℕ) (seq : UInt32) (payload : Bytes) :
    Decidable (s.Discards maxBytes seq payload) := inferInstanceAs (Decidable (_ < _))

@[simp] theorem retained_based (s : Stream) (seq : UInt32) : (s.based seq).retained = s.retained :=
  rfl

theorem length_fresh (s : Stream) (seq : UInt32) (payload : Bytes) :
    (s.fresh seq payload).length = payload.length - (s.buf.length - s.offsetOf seq) :=
  List.length_drop

theorem fresh_of_gap {s : Stream} {seq : UInt32} {payload : Bytes}
    (h : s.buf.length < s.offsetOf seq) : s.fresh seq payload = payload := by
  rw [fresh, Nat.sub_eq_zero_of_le h.le, List.drop_zero]

/-- Draining moves bytes from the held segments to the buffer and loses none. -/
theorem retained_grown (s : Stream) (seq : UInt32) (payload : Bytes) :
    (s.grown seq payload).retained = s.retained + (s.fresh seq payload).length := by
  have h := length_drainLoop (s.baseOr seq) s.pending.length (s.buf ++ s.fresh seq payload)
    s.pending
  rw [List.length_append] at h
  simp only [retained, grown, drain, based]
  omega

theorem length_clip_le (s : Stream) (maxBytes : ℕ) :
    (s.clip maxBytes).1.buf.length ≤ maxBytes := by
  unfold clip
  split
  · exact List.length_take_le _ _
  · next h => exact Nat.le_of_not_lt h

theorem length_push_le (s : Stream) (maxBytes : ℕ) (seq : UInt32) (payload : Bytes) :
    (s.push maxBytes seq payload).1.buf.length ≤ maxBytes := length_clip_le _ _

/-- Enforcing the cap loses bytes exactly when the buffer exceeds it. -/
theorem retained_clip_lt_iff (s : Stream) (maxBytes : ℕ) :
    (s.clip maxBytes).1.retained < s.retained ↔ maxBytes < s.buf.length := by
  unfold clip
  split
  · next h =>
      simp only [retained, List.length_take]
      omega
  · next h => simp [h]

/-- The segment waits for a gap, and there is no place for it. -/
def NoPlace (s : Stream) (maxBytes : ℕ) (seq : UInt32) : Prop :=
  s.buf.length < s.offsetOf seq ∧ (maxBytes ≤ s.offsetOf seq ∨ maxPending ≤ s.pending.length)

instance (s : Stream) (maxBytes : ℕ) (seq : UInt32) : Decidable (s.NoPlace maxBytes seq) :=
  inferInstanceAs (Decidable (_ ∧ (_ ∨ _)))

/-- **When bytes are lost**: at the cap, or because there is no place to wait. -/
theorem discards_iff {s : Stream} {maxBytes : ℕ} (hcap : s.buf.length ≤ maxBytes) (seq : UInt32)
    {payload : Bytes} (hne : payload ≠ []) :
    s.Discards maxBytes seq payload ↔
      (s.offsetOf seq ≤ s.buf.length ∧ s.buf.length < s.offsetOf seq + payload.length ∧
        maxBytes < (s.grown seq payload).buf.length) ∨ s.NoPlace maxBytes seq := by
  have hpos : 0 < payload.length := List.length_pos_iff.2 hne
  have hpush := pushed_push hcap seq hne
  unfold Discards NoPlace
  generalize s.push maxBytes seq payload = r at hpush
  cases hpush with
  | grow hle hlt =>
      rw [← retained_grown, retained_clip_lt_iff]
      constructor
      · exact fun h => Or.inl ⟨hle, hlt, h⟩
      · rintro (⟨-, -, h⟩ | ⟨h, -⟩)
        · exact h
        · omega
  | copy hlt hle =>
      rw [retained_based, length_fresh]
      omega
  | hold hgap hbelow hroom =>
      have hkept : ({ s.based seq with pending := s.pending ++ [(seq, payload)] } : Stream).retained
          = s.retained + payload.length := by
        simp only [retained, based, payloadBytes_append, payloadBytes_cons, payloadBytes_nil]
        omega
      rw [hkept, fresh_of_gap hgap]
      omega
  | overflow hgap hbelow hfull =>
      have hkept : ({ s.based seq with pending := [], truncated := true } : Stream).retained ≤
          s.retained := by
        simp only [retained, based, payloadBytes_nil]
        omega
      rw [fresh_of_gap hgap]
      exact ⟨fun _ => Or.inr ⟨hgap, Or.inr hfull⟩,
        fun _ => Nat.lt_of_le_of_lt hkept (Nat.lt_add_of_pos_right hpos)⟩
  | beyond hgap hbelow =>
      rw [retained_based, fresh_of_gap hgap]
      omega

/-! ### Marks -/

/-- The push loses bytes in one of the two ways that are not counted, on a stream that nothing has
marked yet. -/
def LosesQuietly (s : Stream) (maxBytes : ℕ) (seq : UInt32) : Prop :=
  s.truncated = false ∧ s.NoPlace maxBytes seq

instance (s : Stream) (maxBytes : ℕ) (seq : UInt32) : Decidable (s.LosesQuietly maxBytes seq) :=
  inferInstanceAs (Decidable (_ ∧ _))

/-- Draining keeps the mark. -/
@[simp] theorem truncated_grown (s : Stream) (seq : UInt32) (payload : Bytes) :
    (s.grown seq payload).truncated = s.truncated := rfl

/-- A mark stays, and a marked stream is not counted again. -/
theorem push_of_truncated {s : Stream} {maxBytes : ℕ} (hcap : s.buf.length ≤ maxBytes)
    (seq : UInt32) {payload : Bytes} (hne : payload ≠ []) (htr : s.truncated = true) :
    (s.push maxBytes seq payload).1.truncated = true ∧
      (s.push maxBytes seq payload).2 = false := by
  have hpush := pushed_push hcap seq hne
  generalize s.push maxBytes seq payload = r at hpush
  cases hpush with
  | grow hle hlt =>
      unfold clip
      split
      · exact ⟨rfl, by rw [truncated_grown, htr]; rfl⟩
      · exact ⟨htr, rfl⟩
  | overflow hgap hbelow hfull => exact ⟨rfl, rfl⟩
  | copy | hold | beyond => exact ⟨htr, rfl⟩

/-- An unmarked stream is marked and counted exactly when bytes are lost, unless they are lost
quietly. -/
theorem push_of_not_losesQuietly {s : Stream} {maxBytes : ℕ} (hcap : s.buf.length ≤ maxBytes)
    (seq : UInt32) {payload : Bytes} (hne : payload ≠ []) (htr : s.truncated = false)
    (hq : ¬ s.LosesQuietly maxBytes seq) :
    ((s.push maxBytes seq payload).1.truncated = true ↔ s.Discards maxBytes seq payload) ∧
      ((s.push maxBytes seq payload).2 = true ↔ s.Discards maxBytes seq payload) := by
  have hplace : ¬ s.NoPlace maxBytes seq := fun h => hq ⟨htr, h⟩
  have hpush := pushed_push hcap seq hne
  rw [discards_iff hcap seq hne]
  generalize s.push maxBytes seq payload = r at hpush
  cases hpush with
  | grow hle hlt =>
      unfold clip
      split
      · next h => simp [htr, hle, hlt, h]
      · next h => simp [htr, hplace, h]
  | copy hlt hle => simp [based, htr, hplace, Nat.not_lt.2 hle]
  | hold hgap hbelow hroom => simp [based, htr, hplace, Nat.not_le.2 hgap]
  | overflow hgap hbelow hfull => exact absurd ⟨hgap, Or.inr hfull⟩ hplace
  | beyond hgap hbelow => exact absurd ⟨hgap, Or.inl hbelow⟩ hplace

/-- A quiet loss is not counted. -/
theorem push_of_losesQuietly {s : Stream} {maxBytes : ℕ} (hcap : s.buf.length ≤ maxBytes)
    {seq : UInt32} {payload : Bytes} (hne : payload ≠ []) (hq : s.LosesQuietly maxBytes seq) :
    s.Discards maxBytes seq payload ∧ (s.push maxBytes seq payload).2 = false := by
  refine ⟨(discards_iff hcap seq hne).2 (Or.inr hq.2), ?_⟩
  have hgap := hq.2.1
  have hpush := pushed_push hcap seq hne
  generalize s.push maxBytes seq payload = r at hpush
  cases hpush with
  | grow hle hlt => omega
  | copy | hold | overflow | beyond => rfl

/-! ### The budget of held segments -/

/-- The segments of a list continue each other from a sequence number on. -/
def Chained : UInt32 → List (UInt32 × Bytes) → Prop
  | _, [] => True
  | e, p :: ps => p.1 = e ∧ Chained (e + UInt32.ofNat p.2.length) ps

/-- The held segments start at different sequence numbers and continue a buffer that ends at `e`,
one after the other in some order. -/
def Settles (e : UInt32) (pending : List (UInt32 × Bytes)) : Prop :=
  (pending.map Prod.fst).Nodup ∧ ∃ ps, ps.Perm pending ∧ Chained e ps

/-- The push keeps within the byte cap: the new bytes fit beside what the stream retains; or the
segment is one that is not held, and nothing else is, or all that is held follows the segment
without a gap; or there is no place for it. -/
def Fits (s : Stream) (maxBytes : ℕ) (seq : UInt32) (payload : Bytes) : Prop :=
  s.retained + (s.fresh seq payload).length ≤ maxBytes ∨
    (s.offsetOf seq ≤ s.buf.length ∧
      Settles (bufEnd (s.baseOr seq) (s.buf ++ s.fresh seq payload)) s.pending) ∨
    s.NoPlace maxBytes seq

theorem bufEnd_append (base : UInt32) (buf bytes : Bytes) :
    bufEnd base (buf ++ bytes) = bufEnd base buf + UInt32.ofNat bytes.length := by
  rw [bufEnd, bufEnd, List.length_append, UInt32.ofNat_add, UInt32.add_assoc]

/-- Held segments that continue the buffer are all drained. -/
theorem drainLoop_of_settles {base : UInt32} {fuel : ℕ} {buf : Bytes}
    {pending : List (UInt32 × Bytes)} (h : Settles (bufEnd base buf) pending)
    (hfuel : pending.length ≤ fuel) : (drainLoop base fuel buf pending).2 = [] := by
  induction fuel generalizing buf pending with
  | zero => exact List.eq_nil_of_length_eq_zero (Nat.le_zero.1 hfuel)
  | succ fuel ih =>
      obtain ⟨hnd, ps, hperm, hchain⟩ := h
      cases ps with
      | nil =>
          have hnil : pending = [] := hperm.nil_eq.symm
          subst hnil
          rfl
      | cons p ps =>
          obtain ⟨hstart, hrest⟩ := hchain
          have hmem : p ∈ pending := hperm.mem_iff.1 (List.mem_cons_self ..)
          -- the segment found is the one the chain begins with
          obtain ⟨q, hq⟩ : ∃ q, pending.find? (fun p => p.1 == bufEnd base buf) = some q := by
            refine Option.isSome_iff_exists.1 (List.find?_isSome.2 ⟨p, hmem, ?_⟩)
            exact beq_iff_eq.2 hstart
          have hqp : q = p := by
            refine List.inj_on_of_nodup_map hnd (List.mem_of_find?_eq_some hq) hmem ?_
            rw [hstart]
            simpa using List.find?_some hq
          subst hqp
          have herase : (q :: ps).Perm
              (q :: pending.eraseP fun p => p.1 == bufEnd base buf) :=
            hperm.trans (Pieces.perm_cons_eraseP hq)
          have hlen := herase.length_eq.symm.trans hperm.length_eq
          unfold drainLoop
          rw [hq]
          refine ih ⟨?_, ps, herase.cons_inv, ?_⟩ ?_
          · exact hnd.sublist (List.Sublist.map _ List.eraseP_sublist)
          · rw [bufEnd_append]
            exact hrest
          · rw [List.length_cons] at hlen
            omega

theorem retained_clip_le (s : Stream) (maxBytes : ℕ) :
    (s.clip maxBytes).1.retained ≤ s.retained := by
  unfold clip
  split
  · simp only [retained, List.length_take]
    omega
  · exact Nat.le_refl _

/-- **One push that fits keeps the stream within its cap.** -/
theorem retained_push_le {s : Stream} {maxBytes : ℕ} (h : s.retained ≤ maxBytes) (seq : UInt32)
    {payload : Bytes} (hne : payload ≠ []) (hfits : s.Fits maxBytes seq payload) :
    (s.push maxBytes seq payload).1.retained ≤ maxBytes := by
  have hcap : s.buf.length ≤ maxBytes := Nat.le_trans (Nat.le_add_right _ _) h
  have hpush := pushed_push hcap seq hne
  generalize s.push maxBytes seq payload = r at hpush
  cases hpush with
  | grow hle hlt =>
      rcases hfits with hfits | ⟨-, hsettles⟩ | hplace
      · exact Nat.le_trans (retained_clip_le _ _) (by rw [retained_grown]; exact hfits)
      · -- nothing stays held, and the cap bounds the buffer
        have hnil : (s.grown seq payload).pending = [] :=
          drainLoop_of_settles hsettles (Nat.le_refl _)
        have hnil' : ((s.grown seq payload).clip maxBytes).1.pending = [] := by
          unfold clip
          split <;> exact hnil
        rw [retained, hnil', payloadBytes_nil, Nat.add_zero]
        exact length_clip_le _ _
      · exact absurd hplace.1 (Nat.not_lt.2 hle)
  | copy hlt hle => exact h
  | hold hgap hbelow hroom =>
      rcases hfits with hfits | ⟨hle, -⟩ | hplace
      · rw [fresh_of_gap hgap] at hfits
        simp only [retained, based, payloadBytes_append, payloadBytes_cons,
          payloadBytes_nil] at hfits ⊢
        omega
      · exact absurd hgap (Nat.not_lt.2 hle)
      · rcases hplace.2 with hbeyond | hfull
        · omega
        · omega
  | overflow hgap hbelow hfull => exact hcap
  | beyond hgap hbelow => exact h

end Stream

namespace StreamTable

variable {κ : Type} [DecidableEq κ]

/-! ### Losses of a run -/

/-- The table has something to do with a segment: it is not empty and not refused. -/
def Takes (t : StreamTable κ) (g : Segment κ) : Prop :=
  g.payload ≠ [] ∧ ¬ Refuses t.maxStreams t.streams g.key

instance (t : StreamTable κ) (g : Segment κ) : Decidable (t.Takes g) :=
  inferInstanceAs (Decidable (_ ∧ _))

/-- A segment the table does not take leaves the streams and the count of losses alone. -/
theorem push_of_not_takes {t : StreamTable κ} {g : Segment κ} (h : ¬ t.Takes g) :
    (t.push g.key g.seq g.payload).1 = none ∧
      (t.push g.key g.seq g.payload).2.streams = t.streams ∧
      (t.push g.key g.seq g.payload).2.truncated = t.truncated := by
  by_cases hne : g.payload = []
  · rw [push, if_pos hne]
    exact ⟨rfl, rfl, rfl⟩
  · have hr : Refuses t.maxStreams t.streams g.key := by
      by_contra hr
      exact h ⟨hne, hr⟩
    rw [push_eq_of_refuses hne hr]
    exact ⟨rfl, rfl, rfl⟩

theorem entry_congr {t t' : StreamTable κ} (h : t'.streams = t.streams) (key : κ) :
    t'.entry key = t.entry key := by
  rw [entry, entry, h]

theorem entry_push_self {t : StreamTable κ} {g : Segment κ} (h : t.Takes g) :
    (t.push g.key g.seq g.payload).2.entry g.key =
      ((t.entry g.key).push t.maxBytes g.seq g.payload).1 := by
  rw [push_eq_of_admits h.1 h.2, entry]
  dsimp only
  rw [AList.lookup_insert]
  rfl

theorem entry_push_of_ne (t : StreamTable κ) {key key' : κ} (h : key' ≠ key) (seq : UInt32)
    (payload : Bytes) : (t.push key seq payload).2.entry key' = t.entry key' := by
  rw [entry, lookup_push_of_ne t h, entry]

/-- Buffers respect the cap, in every table a run can reach. -/
theorem length_entry_run_le (maxStreams maxBytes : ℕ) (segs : List (Segment κ)) (key : κ) :
    (((new maxStreams maxBytes).run segs).entry key).buf.length ≤ maxBytes := by
  induction segs using List.reverseRecOn with
  | nil => exact Nat.zero_le _
  | append_singleton segs g ih =>
      rw [run_concat]
      by_cases ht : ((new maxStreams maxBytes).run segs).Takes g
      · by_cases hk : key = g.key
        · subst hk
          have hmax : ((new maxStreams maxBytes).run segs).maxBytes = maxBytes := run_maxBytes _ _
          rw [entry_push_self ht, hmax]
          exact Stream.length_push_le _ _ _ _
        · rwa [entry_push_of_ne _ hk]
      · rwa [entry_congr (push_of_not_takes ht).2.1]

/-- The push of a segment discards bytes. -/
def Discards (t : StreamTable κ) (g : Segment κ) : Prop :=
  t.Takes g ∧ (t.entry g.key).Discards t.maxBytes g.seq g.payload

instance (t : StreamTable κ) (g : Segment κ) : Decidable (t.Discards g) :=
  inferInstanceAs (Decidable (_ ∧ _))

/-- The push of a segment loses bytes without being counted. -/
def LosesQuietly (t : StreamTable κ) (g : Segment κ) : Prop :=
  t.Takes g ∧ (t.entry g.key).LosesQuietly t.maxBytes g.seq

instance (t : StreamTable κ) (g : Segment κ) : Decidable (t.LosesQuietly g) :=
  inferInstanceAs (Decidable (_ ∧ _))

/-- The keys of the streams that have discarded bytes in a run. -/
def lossy : StreamTable κ → List (Segment κ) → Finset κ
  | _, [] => ∅
  | t, g :: segs =>
      let rest := lossy (t.push g.key g.seq g.payload).2 segs
      if t.Discards g then insert g.key rest else rest

theorem lossy_concat (t : StreamTable κ) (segs : List (Segment κ)) (g : Segment κ) :
    lossy t (segs ++ [g]) =
      if (t.run segs).Discards g then insert g.key (lossy t segs) else lossy t segs := by
  induction segs generalizing t with
  | nil => rfl
  | cons h segs ih =>
      rw [List.cons_append, lossy, ih]
      change (if t.Discards h then insert h.key (if (t.run (h :: segs)).Discards g then _ else _)
        else (if (t.run (h :: segs)).Discards g then _ else _)) =
        if (t.run (h :: segs)).Discards g then insert g.key (lossy t (h :: segs))
          else lossy t (h :: segs)
      rw [lossy]
      split <;> split
      · rw [Finset.insert_comm]
      · rfl
      · rfl
      · rfl

/-- **The account of losses** after a run: since the first loss of a stream, everything the table
returned for it was marked partial, and the counter is the number of streams with a loss. -/
structure Accounts (t : StreamTable κ) (segs : List (Segment κ)) : Prop where
  marked : ∀ pre g r, pre ++ [g] <+: segs →
    ((t.run pre).push g.key g.seq g.payload).1 = some r → g.key ∈ lossy t (pre ++ [g]) →
    r.isPartial = true
  counted : (t.run segs).truncated = (lossy t segs).card

/-- The invariant behind the account: exactly the streams with a loss are marked. -/
structure Tallied (t : StreamTable κ) (segs : List (Segment κ)) : Prop where
  marked : ∀ key, ((t.run segs).entry key).truncated = true ↔ key ∈ lossy t segs
  counted : (t.run segs).truncated = (lossy t segs).card

theorem tallied_nil (maxStreams maxBytes : ℕ) :
    Tallied (new maxStreams maxBytes : StreamTable κ) [] where
  marked key := by simp [new, entry, lossy]
  counted := rfl

/-- A push whose segment is not taken changes nothing in the account. -/
theorem Tallied.of_not_takes {t : StreamTable κ} {segs : List (Segment κ)} {g : Segment κ}
    (h : Tallied t segs) (ht : ¬ (t.run segs).Takes g) : Tallied t (segs ++ [g]) := by
  obtain ⟨-, hstreams, htr⟩ := push_of_not_takes ht
  have hlossy : lossy t (segs ++ [g]) = lossy t segs := by
    rw [lossy_concat, if_neg fun hd => ht hd.1]
  refine ⟨fun key => ?_, ?_⟩
  · rw [run_concat, entry_congr hstreams, hlossy]
    exact h.marked key
  · rw [run_concat, htr, hlossy]
    exact h.counted

theorem push_truncated_of_takes {t : StreamTable κ} {g : Segment κ} (h : t.Takes g) :
    (t.push g.key g.seq g.payload).2.truncated =
      t.truncated + if ((t.entry g.key).push t.maxBytes g.seq g.payload).2 then 1 else 0 := by
  rw [push_eq_of_admits h.1 h.2]

/-- **One push keeps the account**, unless it loses bytes quietly. -/
theorem Tallied.push {maxStreams maxBytes : ℕ} {segs : List (Segment κ)} {g : Segment κ}
    (h : Tallied (new maxStreams maxBytes) segs)
    (hq : ¬ ((new maxStreams maxBytes).run segs).LosesQuietly g) :
    Tallied (new maxStreams maxBytes) (segs ++ [g]) := by
  by_cases ht : ((new maxStreams maxBytes).run segs).Takes g
  · have hmax : ((new maxStreams maxBytes : StreamTable κ).run segs).maxBytes = maxBytes :=
      run_maxBytes _ _
    have hcap := length_entry_run_le maxStreams maxBytes segs g.key
    have hself := h.marked g.key
    have hcount := h.counted
    -- the other streams keep their marks, and this push does not touch their keys
    have hother : ∀ key, key ≠ g.key →
        ((((new maxStreams maxBytes).run (segs ++ [g])).entry key).truncated = true ↔
          key ∈ lossy (new maxStreams maxBytes) (segs ++ [g])) := by
      intro key hk
      rw [run_concat, entry_push_of_ne _ hk, h.marked key, lossy_concat]
      split
      · rw [Finset.mem_insert, or_iff_right hk]
      · exact Iff.rfl
    have hentry : ((new maxStreams maxBytes).run (segs ++ [g])).entry g.key =
        ((((new maxStreams maxBytes).run segs).entry g.key).push maxBytes g.seq g.payload).1 := by
      rw [run_concat, entry_push_self ht, hmax]
    have htrunc : ((new maxStreams maxBytes).run (segs ++ [g])).truncated =
        ((new maxStreams maxBytes).run segs).truncated +
          if ((((new maxStreams maxBytes).run segs).entry g.key).push maxBytes g.seq g.payload).2
          then 1 else 0 := by
      rw [run_concat, push_truncated_of_takes ht, hmax]
    have hdisc : ((new maxStreams maxBytes).run segs).Discards g ↔
        (((new maxStreams maxBytes).run segs).entry g.key).Discards maxBytes g.seq g.payload := by
      rw [Discards, hmax]
      exact and_iff_right ht
    cases htr : (((new maxStreams maxBytes).run segs).entry g.key).truncated with
    | true =>
        obtain ⟨hmark, hflag⟩ := Stream.push_of_truncated hcap g.seq ht.1 htr
        have hlossy : lossy (new maxStreams maxBytes) (segs ++ [g]) =
            lossy (new maxStreams maxBytes) segs := by
          rw [lossy_concat]
          split
          · exact Finset.insert_eq_of_mem (hself.1 htr)
          · rfl
        refine ⟨fun key => ?_, ?_⟩
        · by_cases hk : key = g.key
          · rw [hk, hentry, hmark, hlossy]
            exact iff_of_true rfl (hself.1 htr)
          · exact hother key hk
        · rw [htrunc, hflag, hlossy, hcount]
          rfl
    | false =>
        have hnot : g.key ∉ lossy (new maxStreams maxBytes) segs := by
          rw [← hself, htr]
          exact Bool.false_ne_true
        obtain ⟨hmark, hflag⟩ := Stream.push_of_not_losesQuietly hcap g.seq ht.1 htr
          (fun hl => hq ⟨ht, by rwa [hmax]⟩)
        rw [← hdisc] at hmark hflag
        refine ⟨fun key => ?_, ?_⟩
        · by_cases hk : key = g.key
          · rw [hk, hentry, hmark, lossy_concat]
            split
            · next hd => exact iff_of_true hd (Finset.mem_insert_self _ _)
            · next hd => exact iff_of_false hd hnot
          · exact hother key hk
        · rw [htrunc, lossy_concat]
          by_cases hd : ((new maxStreams maxBytes).run segs).Discards g
          · rw [if_pos (hflag.2 hd), if_pos hd, Finset.card_insert_of_notMem hnot, hcount]
          · rw [if_neg fun hf => hd (hflag.1 hf), if_neg hd, hcount]
            rfl
  · exact h.of_not_takes ht

/-- The account holds after every run in which no push loses bytes quietly. -/
theorem tallied_run (maxStreams maxBytes : ℕ) (segs : List (Segment κ))
    (hq : ∀ pre g, pre ++ [g] <+: segs →
      ¬ ((new maxStreams maxBytes).run pre).LosesQuietly g) :
    Tallied (new maxStreams maxBytes) segs := by
  induction segs using List.reverseRecOn with
  | nil => exact tallied_nil maxStreams maxBytes
  | append_singleton segs g ih =>
      refine (ih fun pre x hpre => hq pre x (hpre.trans (List.prefix_append _ _))).push ?_
      exact hq segs g (List.prefix_refl _)

/-- What the table returns for a segment is marked when the stream is. -/
theorem takes_of_push {t : StreamTable κ} {g : Segment κ} {r : Reassembled}
    (h : (t.push g.key g.seq g.payload).1 = some r) :
    t.Takes g ∧ r.isPartial = ((t.push g.key g.seq g.payload).2.entry g.key).truncated := by
  have ht : t.Takes g := by
    by_contra ht
    rw [(push_of_not_takes ht).1] at h
    cases h
  refine ⟨ht, ?_⟩
  rw [entry_push_self ht]
  rw [push_eq_of_admits ht.1 ht.2, Option.some_inj] at h
  rw [← h]

/-- A quiet loss is missing from the count. -/
theorem Tallied.not_losesQuietly {maxStreams maxBytes : ℕ} {segs : List (Segment κ)}
    {g : Segment κ} (h : Tallied (new maxStreams maxBytes) segs)
    (hacc : Accounts (new maxStreams maxBytes) (segs ++ [g])) :
    ¬ ((new maxStreams maxBytes).run segs).LosesQuietly g := by
  rintro ⟨ht, hq⟩
  have hmax : ((new maxStreams maxBytes : StreamTable κ).run segs).maxBytes = maxBytes :=
    run_maxBytes _ _
  obtain ⟨hdisc, hflag⟩ := Stream.push_of_losesQuietly
    (by rw [hmax]; exact length_entry_run_le maxStreams maxBytes segs g.key) ht.1 hq
  have hnot : g.key ∉ lossy (new maxStreams maxBytes) segs := by
    rw [← h.marked g.key, hq.1]
    exact Bool.false_ne_true
  have hcount := hacc.counted
  rw [run_concat, push_truncated_of_takes ht, hflag, if_neg Bool.false_ne_true, lossy_concat,
    if_pos ⟨ht, hdisc⟩, Finset.card_insert_of_notMem hnot, h.counted] at hcount
  omega

/-- **No silent loss.**  After every push of a run of a fresh table every loss is marked and
counted, exactly when no push of the run loses bytes quietly: no segment that has to wait behind a
gap finds its stream unmarked and without a place for it, because it starts at or beyond the cap
or because `Stream.maxPending` segments are waiting already. -/
theorem accounts_iff (maxStreams maxBytes : ℕ) (segs : List (Segment κ)) :
    (∀ pre, pre <+: segs → Accounts (new maxStreams maxBytes) pre) ↔
      ∀ pre g, pre ++ [g] <+: segs → ¬ ((new maxStreams maxBytes).run pre).LosesQuietly g := by
  constructor
  · intro h
    -- the invariant holds of every initial part, by induction on it
    have htally : ∀ pre, pre <+: segs → Tallied (new maxStreams maxBytes) pre := by
      intro pre
      induction pre using List.reverseRecOn with
      | nil => exact fun _ => tallied_nil maxStreams maxBytes
      | append_singleton pre g ih =>
          intro hpre
          have hinv := ih ((List.prefix_append _ _).trans hpre)
          exact hinv.push (hinv.not_losesQuietly (h _ hpre))
    intro pre g hpre
    exact (htally pre ((List.prefix_append _ _).trans hpre)).not_losesQuietly (h _ hpre)
  · intro hq pre hpre
    have htally : ∀ pre', pre' <+: pre → Tallied (new maxStreams maxBytes) pre' := fun pre' hp =>
      tallied_run maxStreams maxBytes pre' fun q g hqg => hq q g ((hqg.trans hp).trans hpre)
    refine ⟨fun q g r hqg hr hmem => ?_, (htally pre (List.prefix_refl _)).counted⟩
    obtain ⟨-, hpart⟩ := takes_of_push hr
    rw [hpart, ← run_concat]
    exact ((htally _ hqg).marked g.key).2 hmem

/-- A segment far ahead of the buffer is dropped, and nothing shows it. -/
theorem not_accounts_beyond :
    ¬ ∀ pre, pre <+: [⟨7, 1000, [1, 2]⟩, ⟨7, 2000, [3]⟩] →
      Accounts (new 2 16 : StreamTable ℕ) pre := by
  intro h
  have hcount := (h _ (List.prefix_refl _)).counted
  revert hcount
  decide

/-! ### The budget of a run -/

/-- **The byte cap binds the held segments too**, in every run whose pushes all fit: after every
push the buffer of a stream and the segments it holds together stay within the cap. -/
theorem retained_run_le (maxStreams maxBytes : ℕ) (segs : List (Segment κ))
    (hfits : ∀ pre g, pre ++ [g] <+: segs → g.payload ≠ [] →
      (((new maxStreams maxBytes).run pre).entry g.key).Fits maxBytes g.seq g.payload) :
    ∀ pre, pre <+: segs → ∀ key s,
      ((new maxStreams maxBytes).run pre).streams.lookup key = some s →
        s.buf.length + payloadBytes s.pending ≤ maxBytes := by
  have hentry : ∀ pre, pre <+: segs → ∀ key,
      (((new maxStreams maxBytes).run pre).entry key).retained ≤ maxBytes := by
    intro pre
    induction pre using List.reverseRecOn with
    | nil => exact fun _ _ => Nat.zero_le _
    | append_singleton pre g ih =>
        intro hpre key
        have hprev := ih ((List.prefix_append _ _).trans hpre) key
        rw [run_concat]
        by_cases ht : ((new maxStreams maxBytes).run pre).Takes g
        · by_cases hk : key = g.key
          · subst hk
            have hmax : ((new maxStreams maxBytes).run pre).maxBytes = maxBytes := run_maxBytes _ _
            rw [entry_push_self ht, hmax]
            exact Stream.retained_push_le hprev g.seq ht.1 (hfits pre g hpre ht.1)
          · rwa [entry_push_of_ne _ hk]
        · rwa [entry_congr (push_of_not_takes ht).2.1]
  intro pre hpre key s hs
  have hle := hentry pre hpre key
  rw [entry, hs] at hle
  exact hle

/-- A held segment that is paid for, and the filler that releases it. -/
theorem retained_run_le_filled :
    payloadBytes [(1003, [4, 5])] = 2 ∧
      ∀ pre, pre <+: [⟨7, 1000, [1]⟩, ⟨7, 1003, [4, 5]⟩, ⟨7, 1001, [2, 3]⟩] → ∀ key s,
        ((new 2 5 : StreamTable ℕ).run pre).streams.lookup key = some s →
          s.buf.length + payloadBytes s.pending ≤ 5 :=
  ⟨rfl, retained_run_le 2 5 _
    (Pieces.forall_concat_prefix fun i _ => Or.inl (by revert i; decide))⟩

/-- A held segment is not counted against the cap: seven bytes are kept where four are allowed. -/
theorem retained_over_cap :
    ∃ s, ((new 2 4 : StreamTable ℕ).run
        [⟨7, 1000, [1]⟩, ⟨7, 1003, [2, 3, 4, 5, 6, 7]⟩]).streams.lookup 7 = some s ∧
      ¬ s.buf.length + payloadBytes s.pending ≤ 4 := ⟨_, rfl, by decide⟩

end StreamTable

end PcapRacer
