/-
**Which push a reassembled byte came from.**

A push returns the stream so far and a flag that says whether it spans more than the segment pushed.
The flag compares two lengths.  Here the bytes of a stream carry the number of the push that brought
them, so that what the flag says can be held against where the bytes are from.

The traced operations do to labelled bytes what the operations of the table do to bytes, and without
the labels they are these operations.

Main definitions:

* `Traced`, `TracedTable` — streams and tables whose bytes carry the number of their push;
* `Traced.plain` — the stream without the labels;
* `Stream.LengthTells` — when the length of the stream shows that it holds older bytes.

Main results:

* `Traced.plain_push` — **the traced push is the push, with labels**;
* `TracedTable.Traces.push` — the same of the tables, with the invariant on the labels;
* `Stream.length_lt_push_iff` — when a push leaves more in the buffer than it brought;
* `StreamTable.multiSegment_iff` — **when the flag is right**.
-/

import Mathlib.Data.List.Enum
import PcapRacer.StreamTableAlike

set_option relaxedAutoImplicit false
set_option autoImplicit false

namespace PcapRacer

open BoundedTable (len Refuses)

/-- Bytes, each with the number of the push that brought it. -/
abbrev LabelledBytes := List (UInt8 × ℕ)

/-- A stream whose bytes are labelled. -/
structure Traced where
  baseSeq : Option UInt32 := none
  buf : LabelledBytes := []
  pending : List (UInt32 × LabelledBytes) := []
  truncated : Bool := false

namespace Traced

/-- `Stream.place` on labelled bytes. -/
def place (s : Traced) (maxBytes : ℕ) (seq : UInt32) (offset : ℕ) (payload : LabelledBytes) :
    Traced × Bool :=
  if offset = s.buf.length then
    ({ s with buf := s.buf ++ payload }, true)
  else if offset < s.buf.length then
    if s.buf.length < offset + payload.length then
      ({ s with buf := s.buf ++ payload.drop (s.buf.length - offset) }, true)
    else (s, false)
  else if offset < maxBytes then
    let pending := s.pending ++ [(seq, payload)]
    if Stream.maxPending < pending.length then
      ({ s with pending := [], truncated := true }, false)
    else ({ s with pending := pending }, false)
  else (s, false)

/-- `Stream.drainLoop` on labelled bytes. -/
def drainLoop (base : UInt32) : ℕ → LabelledBytes → List (UInt32 × LabelledBytes) →
    LabelledBytes × List (UInt32 × LabelledBytes)
  | 0, buf, pending => (buf, pending)
  | fuel + 1, buf, pending =>
      match pending.find? (fun p => p.1 == base + UInt32.ofNat buf.length) with
      | some p =>
          drainLoop base fuel (buf ++ p.2)
            (pending.eraseP fun p => p.1 == base + UInt32.ofNat buf.length)
      | none => (buf, pending)

/-- `Stream.drain` on labelled bytes. -/
def drain (s : Traced) (base : UInt32) : Traced :=
  let r := drainLoop base s.pending.length s.buf s.pending
  { s with buf := r.1, pending := r.2 }

/-- `Stream.clip` on labelled bytes. -/
def clip (s : Traced) (maxBytes : ℕ) : Traced :=
  if maxBytes < s.buf.length then
    { s with buf := s.buf.take maxBytes, truncated := true }
  else s

/-- `Stream.push` on labelled bytes. -/
def push (s : Traced) (maxBytes : ℕ) (seq : UInt32) (payload : LabelledBytes) : Traced :=
  let base := s.baseSeq.getD seq
  let offset := (seq - base).toNat
  let placed := { s with baseSeq := some base }.place maxBytes seq offset payload
  let drained := if placed.2 && !placed.1.pending.isEmpty then placed.1.drain base else placed.1
  drained.clip maxBytes

/-! ### Without the labels -/

/-- A held segment without its labels. -/
def plainHeld (p : UInt32 × LabelledBytes) : UInt32 × Bytes := (p.1, p.2.map Prod.fst)

/-- The stream without the labels. -/
def plain (s : Traced) : Stream :=
  { baseSeq := s.baseSeq, buf := s.buf.map Prod.fst, pending := s.pending.map plainHeld,
    truncated := s.truncated }

@[simp] theorem length_plain_buf (s : Traced) : s.plain.buf.length = s.buf.length :=
  List.length_map _

theorem plain_place (s : Traced) (maxBytes : ℕ) (seq : UInt32) (offset : ℕ) (payload : LabelledBytes) :
    s.plain.place maxBytes seq offset (payload.map Prod.fst) =
      ((s.place maxBytes seq offset payload).1.plain,
        (s.place maxBytes seq offset payload).2) := by
  have hlen : (s.plain.pending ++ [(seq, payload.map Prod.fst)]).length =
      (s.pending ++ [(seq, payload)]).length := by simp [plain]
  unfold Stream.place place
  dsimp only
  rw [length_plain_buf, hlen, List.length_map]
  split_ifs <;> simp [plain, plainHeld]

/-- The same held segments are flush with a buffer, labelled or not. -/
theorem flush_plain (base : UInt32) (buf : LabelledBytes) :
    (fun p : UInt32 × Bytes => p.1 == Stream.bufEnd base (buf.map Prod.fst)) ∘ plainHeld =
      fun p => p.1 == base + UInt32.ofNat buf.length := by
  funext p
  rw [Stream.bufEnd, List.length_map]
  rfl

theorem plain_drainLoop (base : UInt32) (fuel : ℕ) (buf : LabelledBytes)
    (pending : List (UInt32 × LabelledBytes)) :
    Stream.drainLoop base fuel (buf.map Prod.fst) (pending.map plainHeld) =
      ((drainLoop base fuel buf pending).1.map Prod.fst,
        (drainLoop base fuel buf pending).2.map plainHeld) := by
  induction fuel generalizing buf pending with
  | zero => rfl
  | succ fuel ih =>
      rw [Stream.drainLoop, drainLoop, List.find?_map, List.eraseP_map, flush_plain]
      cases pending.find? fun p => p.1 == base + UInt32.ofNat buf.length with
      | none => rfl
      | some p =>
          have happ : (buf ++ p.2).map Prod.fst = buf.map Prod.fst ++ (plainHeld p).2 :=
            List.map_append
          dsimp only [Option.map_some]
          rw [← happ]
          exact ih _ _

theorem plain_drain (s : Traced) (base : UInt32) :
    s.plain.drain base = (s.drain base).plain := by
  have hlen : s.plain.pending.length = s.pending.length := List.length_map ..
  have hloop := plain_drainLoop base s.pending.length s.buf s.pending
  unfold Stream.drain drain
  dsimp only
  rw [hlen]
  change { s.plain with
    buf := (Stream.drainLoop base s.pending.length (s.buf.map Prod.fst)
      (s.pending.map plainHeld)).1
    pending := (Stream.drainLoop base s.pending.length (s.buf.map Prod.fst)
      (s.pending.map plainHeld)).2 } = _
  rw [hloop]
  rfl

theorem plain_clip (s : Traced) (maxBytes : ℕ) :
    (s.plain.clip maxBytes).1 = (s.clip maxBytes).plain := by
  unfold Stream.clip clip
  rw [length_plain_buf]
  split
  · simp [plain]
  · rfl

theorem push_of_place {s u : Traced} {maxBytes : ℕ} {seq : UInt32} {payload : LabelledBytes}
    {grew : Bool}
    (h : ({ s with baseSeq := some (s.baseSeq.getD seq) } : Traced).place maxBytes seq
      (seq - s.baseSeq.getD seq).toNat payload = (u, grew)) :
    s.push maxBytes seq payload =
      (if grew && !u.pending.isEmpty then u.drain (s.baseSeq.getD seq) else u).clip maxBytes := by
  unfold push
  dsimp only
  rw [h]

/-- **The traced push is the push, with labels.** -/
theorem plain_push (s : Traced) (maxBytes : ℕ) (seq : UInt32) (payload : LabelledBytes) :
    (s.plain.push maxBytes seq (payload.map Prod.fst)).1 = (s.push maxBytes seq payload).plain := by
  rcases hp : ({ s with baseSeq := some (s.baseSeq.getD seq) } : Traced).place maxBytes seq
    (seq - s.baseSeq.getD seq).toNat payload with ⟨u, grew⟩
  have hplain : (s.plain.based seq).place maxBytes seq (s.plain.offsetOf seq)
      (payload.map Prod.fst) = (u.plain, grew) := by
    have hplace := plain_place { s with baseSeq := some (s.baseSeq.getD seq) } maxBytes seq
      (seq - s.baseSeq.getD seq).toNat payload
    rw [hp] at hplace
    exact hplace
  have hempty : u.plain.pending.isEmpty = u.pending.isEmpty := List.isEmpty_map ..
  have hbase : s.plain.baseOr seq = s.baseSeq.getD seq := rfl
  rw [push_of_place hp, Stream.push_of_place hplain, hempty, hbase]
  split
  · rw [plain_drain, plain_clip]
  · rw [plain_clip]

/-! ### Where the bytes of a stream are from -/

/-- Every byte the stream has, in the buffer or held, satisfies `P`. -/
structure All (P : UInt8 × ℕ → Prop) (s : Traced) : Prop where
  buf : ∀ b ∈ s.buf, P b
  held : ∀ p ∈ s.pending, ∀ b ∈ p.2, P b

variable {P : UInt8 × ℕ → Prop} {s : Traced} {maxBytes : ℕ} {seq : UInt32} {payload : LabelledBytes}

theorem All.mono {Q : UInt8 × ℕ → Prop} (h : s.All P) (hPQ : ∀ b, P b → Q b) : s.All Q :=
  ⟨fun b hb => hPQ b (h.buf b hb), fun p hp b hb => hPQ b (h.held p hp b hb)⟩

theorem All.place (h : s.All P) (hpay : ∀ b ∈ payload, P b) (offset : ℕ) :
    (s.place maxBytes seq offset payload).1.All P := by
  have happ : ∀ n, ∀ b ∈ s.buf ++ payload.drop n, P b := by
    intro n b hb
    rcases List.mem_append.mp hb with hb | hb
    · exact h.buf b hb
    · exact hpay b (List.mem_of_mem_drop hb)
  unfold Traced.place
  dsimp only
  split_ifs
  · exact ⟨happ 0, h.held⟩
  · exact ⟨happ _, h.held⟩
  · exact h
  · exact ⟨h.buf, by simp⟩
  · refine ⟨h.buf, fun p hp => ?_⟩
    rcases List.mem_append.mp hp with hp | hp
    · exact h.held p hp
    · rw [List.mem_singleton] at hp
      subst hp
      exact hpay
  · exact h

theorem all_drainLoop (base : UInt32) (fuel : ℕ) {buf : LabelledBytes}
    {pending : List (UInt32 × LabelledBytes)} (hbuf : ∀ b ∈ buf, P b)
    (hheld : ∀ p ∈ pending, ∀ b ∈ p.2, P b) :
    (∀ b ∈ (drainLoop base fuel buf pending).1, P b) ∧
      ∀ p ∈ (drainLoop base fuel buf pending).2, ∀ b ∈ p.2, P b := by
  induction fuel generalizing buf pending with
  | zero => exact ⟨hbuf, hheld⟩
  | succ fuel ih =>
      unfold drainLoop
      split
      · next p hp =>
          refine ih (fun b hb => ?_) fun x hx => hheld x (List.mem_of_mem_eraseP hx)
          rcases List.mem_append.mp hb with hb | hb
          · exact hbuf b hb
          · exact hheld p (List.mem_of_find?_eq_some hp) b hb
      · exact ⟨hbuf, hheld⟩

theorem All.drain (h : s.All P) (base : UInt32) : (s.drain base).All P := by
  obtain ⟨hbuf, hheld⟩ := all_drainLoop base s.pending.length h.buf h.held
  exact ⟨hbuf, hheld⟩

theorem All.clip (h : s.All P) (maxBytes : ℕ) : (s.clip maxBytes).All P := by
  unfold Traced.clip
  split
  · exact ⟨fun b hb => h.buf b (List.mem_of_mem_take hb), h.held⟩
  · exact h

/-- A push brings its own bytes and no others. -/
theorem All.push (h : s.All P) (hpay : ∀ b ∈ payload, P b) :
    (s.push maxBytes seq payload).All P := by
  have hplace : (({ s with baseSeq := some (s.baseSeq.getD seq) } : Traced).place maxBytes seq
      (seq - s.baseSeq.getD seq).toNat payload).1.All P :=
    All.place (s := { s with baseSeq := some (s.baseSeq.getD seq) }) ⟨h.buf, h.held⟩ hpay _
  unfold Traced.push
  dsimp only
  split
  · exact (hplace.drain _).clip maxBytes
  · exact hplace.clip maxBytes

theorem prefix_drainLoop (base : UInt32) (fuel : ℕ) (buf : LabelledBytes)
    (pending : List (UInt32 × LabelledBytes)) : buf <+: (drainLoop base fuel buf pending).1 := by
  induction fuel generalizing buf pending with
  | zero => exact List.prefix_refl _
  | succ fuel ih =>
      unfold drainLoop
      split
      · exact (List.prefix_append _ _).trans (ih _ _)
      · exact List.prefix_refl _

/-- The bytes of the buffer stay where they are. -/
theorem prefix_push (hcap : s.buf.length ≤ maxBytes) :
    s.buf <+: (s.push maxBytes seq payload).buf := by
  have hplace : s.buf <+: (({ s with baseSeq := some (s.baseSeq.getD seq) } : Traced).place maxBytes
      seq (seq - s.baseSeq.getD seq).toNat payload).1.buf := by
    unfold place
    dsimp only
    split_ifs <;> first | exact List.prefix_append _ _ | exact List.prefix_refl _
  have hclip : ∀ u : Traced, s.buf <+: u.buf → s.buf <+: (u.clip maxBytes).buf := by
    intro u hu
    unfold clip
    split
    · exact List.prefix_take_iff.mpr ⟨hu, hcap⟩
    · exact hu
  unfold push
  dsimp only
  split
  · exact hclip _ (hplace.trans (prefix_drainLoop _ _ _ _))
  · exact hclip _ hplace

end Traced

/-! ### What the lengths tell -/

namespace Stream

variable {s : Stream} {maxBytes : ℕ} {seq : UInt32} {payload : Bytes}

/-- What holds of every stream of a run: it is within its cap, it has a byte as soon as it has a
base (unless the cap is zero), and no held segment is empty. -/
structure Fed (maxBytes : ℕ) (s : Stream) : Prop where
  capped : s.buf.length ≤ maxBytes
  started : s.buf = [] → s.baseSeq = none ∨ maxBytes = 0
  alone : s.buf = [] → s.pending = []
  held : ∀ p ∈ s.pending, p.2 ≠ []

theorem fed_fresh (maxBytes : ℕ) : ({} : Stream).Fed maxBytes where
  capped := Nat.zero_le _
  started _ := .inl rfl
  alone _ := rfl
  held _ hp := absurd hp List.not_mem_nil

/-- The length of the buffer shows whether it holds older bytes: there were none; or the segment is
shorter than the cap, and either it starts behind the first byte and leaves no gap, or the buffer is
longer, or a held segment starts where this one, which covers the buffer from its first byte on,
ends. -/
def LengthTells (s : Stream) (maxBytes : ℕ) (seq : UInt32) (payload : Bytes) : Prop :=
  s.buf = [] ∨
    (payload.length < maxBytes ∧
      ((0 < s.offsetOf seq ∧ s.offsetOf seq ≤ s.buf.length) ∨
        payload.length < s.buf.length ∨
        (s.offsetOf seq = 0 ∧ s.buf.length < payload.length ∧
          ∃ p ∈ s.pending, p.1 = seq + UInt32.ofNat payload.length)))

instance (s : Stream) (maxBytes : ℕ) (seq : UInt32) (payload : Bytes) :
    Decidable (s.LengthTells maxBytes seq payload) :=
  inferInstanceAs (Decidable (_ ∨ (_ ∧ (_ ∨ _ ∨ (_ ∧ _ ∧ ∃ p ∈ s.pending, _)))))

/-- Draining makes the buffer longer exactly when a held segment starts where the buffer ends. -/
theorem lt_length_drain_iff (hheld : ∀ p ∈ s.pending, p.2 ≠ []) (base : UInt32) :
    s.buf.length < (s.drain base).buf.length ↔ ∃ p ∈ s.pending, p.1 = bufEnd base s.buf := by
  unfold drain
  dsimp only
  cases hp : s.pending with
  | nil => simp [drainLoop]
  | cons q pending =>
      rw [← hp, show s.pending.length = pending.length + 1 by rw [hp]; rfl, drainLoop]
      cases hf : s.pending.find? fun p => p.1 == bufEnd base s.buf with
      | none =>
          have hnone := List.find?_eq_none.mp hf
          simp only [lt_irrefl, false_iff, not_exists, not_and]
          intro p hmem heq
          exact hnone p hmem (by simpa using heq)
      | some p =>
          have hmem := List.mem_of_find?_eq_some hf
          have hpos := List.length_pos_iff.mpr (hheld p hmem)
          have hpre := (prefix_drainLoop base pending.length (s.buf ++ p.2)
            (s.pending.eraseP fun p => p.1 == bufEnd base s.buf)).length_le
          rw [List.length_append] at hpre
          dsimp only
          constructor
          · intro _
            exact ⟨p, hmem, by simpa using List.find?_some hf⟩
          · intro _
            omega

theorem length_clip (s : Stream) (maxBytes : ℕ) :
    (s.clip maxBytes).1.buf.length = min maxBytes s.buf.length := by
  unfold clip
  split
  · exact List.length_take
  · next h => exact (Nat.min_eq_right (Nat.le_of_not_lt h)).symm

/-- A segment that covers the buffer from its first byte on replaces nothing, and ends the buffer.
-/
theorem bufEnd_cover (hoff : s.offsetOf seq = 0) (hlt : s.buf.length < payload.length) :
    bufEnd (s.baseOr seq) (s.buf ++ s.fresh seq payload) = seq + UInt32.ofNat payload.length := by
  have hbase : s.baseOr seq = seq := by
    have hzero : seq - s.baseOr seq = 0 := UInt32.toNat_inj.mp hoff
    rw [UInt32.sub_eq_iff_eq_add, UInt32.zero_add] at hzero
    exact hzero.symm
  have hlen : (s.buf ++ s.fresh seq payload).length = payload.length := by
    rw [List.length_append, length_fresh]
    omega
  rw [bufEnd, hlen, hbase]

/-- **When a push leaves more in the buffer than it brought.** -/
theorem length_lt_push_iff (h : s.Fed maxBytes) (hne : payload ≠ []) (hbuf : s.buf ≠ []) :
    payload.length < (s.push maxBytes seq payload).1.buf.length ↔
      s.LengthTells maxBytes seq payload := by
  have hcap := h.capped
  have hpos : 0 < payload.length := List.length_pos_iff.mpr hne
  have hbufpos : 0 < s.buf.length := List.length_pos_iff.mpr hbuf
  have hpush := pushed_push hcap seq hne
  unfold LengthTells
  generalize s.push maxBytes seq payload = r at hpush
  cases hpush with
  | grow hle hlt =>
      have hdrain := lt_length_drain_iff (s := { s.based seq with
        buf := s.buf ++ s.fresh seq payload }) h.held (s.baseOr seq)
      have hmono : (s.buf ++ s.fresh seq payload).length ≤ (s.grown seq payload).buf.length :=
        (prefix_drainLoop _ _ _ _).length_le
      change _ < (s.grown seq payload).buf.length ↔ _ at hdrain
      rw [length_clip]
      dsimp only at hdrain
      rw [List.length_append, length_fresh] at hdrain hmono
      rcases Nat.eq_zero_or_pos (s.offsetOf seq) with hoff | hoff
      · -- the segment starts with the buffer, so only what is drained makes the buffer longer
        rw [bufEnd_cover hoff (by omega)] at hdrain
        change _ ↔ ∃ p ∈ s.pending, _ at hdrain
        have hshort : ¬ payload.length < s.buf.length := by omega
        simp only [hbuf, hoff, hshort, ← hdrain, Nat.lt_irrefl, false_and, false_or, true_and]
        omega
      · simp only [hbuf, hoff, hle, true_or, and_true, false_or]
        omega
  | copy hlt hle =>
      change payload.length < s.buf.length ↔ _
      have hnot : ¬ s.buf.length < payload.length := by omega
      simp only [hbuf, hnot, false_and, and_false, or_false, false_or]
      omega
  | hold hgap | overflow hgap | beyond hgap =>
      change payload.length < s.buf.length ↔ _
      have hnot : ¬ s.offsetOf seq ≤ s.buf.length := Nat.not_le.mpr hgap
      have hpos : s.offsetOf seq ≠ 0 := by omega
      simp only [hbuf, hnot, hpos, and_false, false_and, false_or, or_false]
      omega

/-- The first segment of a stream, as far as the cap lets it in, is all there is. -/
theorem length_push_of_empty (h : s.Fed maxBytes) (hne : payload ≠ []) (hbuf : s.buf = []) :
    (s.push maxBytes seq payload).1.buf.length ≤ payload.length := by
  have hpush := pushed_push h.capped seq hne
  generalize s.push maxBytes seq payload = r at hpush
  cases hpush with
  | grow =>
      have hgrown : (s.grown seq payload).buf = s.fresh seq payload := by
        unfold grown
        rw [drain_of_pending_nil (by exact h.alone hbuf), hbuf]
        exact List.nil_append _
      rw [length_clip, hgrown, length_fresh]
      omega
  | copy | hold | overflow | beyond =>
      change s.buf.length ≤ _
      rw [hbuf]
      exact Nat.zero_le _

theorem Fed.push (h : s.Fed maxBytes) (seq : UInt32) (hne : payload ≠ []) :
    (s.push maxBytes seq payload).1.Fed maxBytes := by
  have hpos : 0 < payload.length := List.length_pos_iff.mpr hne
  have hpre := prefix_push h.capped seq hne
  have hnil : (s.push maxBytes seq payload).1.buf = [] → s.buf = [] := fun h' =>
    List.prefix_nil.mp (h' ▸ hpre)
  -- a stream without bytes is at its first segment, or its cap is zero
  have hgap : s.buf = [] → s.buf.length < s.offsetOf seq → maxBytes = 0 := by
    intro hbuf hlt
    rcases h.started hbuf with hnone | hzero
    · have hoff := offsetOf_of_unbased hnone seq
      omega
    · exact hzero
  have hpush := pushed_push h.capped seq hne
  refine ⟨length_push_le s maxBytes seq payload, fun h' => ?_, fun h' => ?_, ?_⟩
  all_goals generalize s.push maxBytes seq payload = r at *
  · refine .inr ?_
    cases hpush with
    | grow hle hlt =>
        have hlen := congrArg List.length h'
        have hbuf := congrArg List.length (hnil h')
        have hmono : (s.buf ++ s.fresh seq payload).length ≤ (s.grown seq payload).buf.length :=
          (Stream.prefix_drainLoop _ _ _ _).length_le
        rw [length_clip, List.length_nil] at hlen
        rw [List.length_append, length_fresh] at hmono
        rw [List.length_nil] at hbuf
        omega
    | copy hlt => simp [hnil h'] at hlt
    | hold hlt | overflow hlt | beyond hlt => exact hgap (hnil h') hlt
  · have halone := h.alone (hnil h')
    cases hpush with
    | grow hle hlt =>
        have hgrown : (s.grown seq payload).pending = [] := by
          unfold grown
          rw [drain_of_pending_nil (by exact halone)]
          exact halone
        unfold clip
        split <;> exact hgrown
    | hold hlt hcap =>
        have hzero := hgap (hnil h') hlt
        omega
    | copy | beyond => exact halone
    | overflow => rfl
  · intro p hp
    cases hpush with
    | grow hle hlt =>
        have hgrown : p ∈ (s.grown seq payload).pending := by
          unfold clip at hp
          split at hp <;> exact hp
        exact h.held p (mem_of_mem_drainLoop hgrown)
    | hold hlt hcap =>
        rcases List.mem_append.mp hp with hp | hp
        · exact h.held p hp
        · rw [List.mem_singleton] at hp
          subst hp
          exact hne
    | copy | beyond => exact h.held p hp
    | overflow => exact absurd hp List.not_mem_nil

end Stream

/-! ### The table -/

/-- A table whose streams are labelled. -/
structure TracedTable (κ : Type) where
  streams : AList fun _ : κ => Traced
  maxStreams : ℕ
  maxBytes : ℕ

namespace TracedTable

variable {κ : Type}

/-- An empty table with the given limits. -/
def new (maxStreams maxBytes : ℕ) : TracedTable κ := { streams := ∅, maxStreams, maxBytes }

variable [DecidableEq κ]

/-- The stream of a key; a fresh one when there is none yet. -/
def entry (t : TracedTable κ) (key : κ) : Traced := (t.streams.lookup key).getD {}

/-- `StreamTable.push` of the segment with number `n`: the labelled bytes it returns. -/
def push (t : TracedTable κ) (n : ℕ) (g : Segment κ) : Option LabelledBytes × TracedTable κ :=
  if g.payload = [] then (none, t)
  else if Refuses t.maxStreams t.streams g.key then (none, t)
  else
    let s := (t.entry g.key).push t.maxBytes g.seq (g.payload.map fun b => (b, n))
    (some s.buf, { t with streams := t.streams.insert g.key s })

/-- The table after a sequence of pushes, which are numbered from zero on. -/
def run (t : TracedTable κ) (segs : List (Segment κ)) : TracedTable κ :=
  segs.zipIdx.foldl (fun t g => (t.push g.2 g.1).2) t

theorem run_concat (t : TracedTable κ) (segs : List (Segment κ)) (g : Segment κ) :
    t.run (segs ++ [g]) = ((t.run segs).push segs.length g).2 := by
  rw [run, List.zipIdx_append, List.foldl_append, Nat.zero_add]
  rfl

/-- The labelled table is the table with labels, and `n` pushes have been numbered. -/
structure Traces (n : ℕ) (t : StreamTable κ) (t' : TracedTable κ) : Prop where
  maxStreams : t'.maxStreams = t.maxStreams
  maxBytes : t'.maxBytes = t.maxBytes
  size : len t'.streams = len t.streams
  streams : ∀ key, t.streams.lookup key = (t'.streams.lookup key).map Traced.plain
  fed : ∀ key, (t.entry key).Fed t.maxBytes
  labels : ∀ key, (t'.entry key).All fun b => b.2 < n

variable {n : ℕ} {t : StreamTable κ} {t' : TracedTable κ}

theorem traces_new (maxStreams maxBytes : ℕ) :
    Traces 0 (StreamTable.new maxStreams maxBytes : StreamTable κ) (new maxStreams maxBytes) where
  maxStreams := rfl
  maxBytes := rfl
  size := rfl
  streams _ := rfl
  fed _ := Stream.fed_fresh maxBytes
  labels _ := ⟨fun _ hb => absurd hb List.not_mem_nil, fun _ hp => absurd hp List.not_mem_nil⟩

theorem Traces.mem_iff (h : Traces n t t') (key : κ) : key ∈ t'.streams ↔ key ∈ t.streams := by
  rw [← AList.lookup_isSome, ← AList.lookup_isSome, h.streams, Option.isSome_map]

theorem Traces.refuses_iff (h : Traces n t t') (key : κ) :
    Refuses t'.maxStreams t'.streams key ↔ Refuses t.maxStreams t.streams key := by
  rw [Refuses, Refuses, h.size, h.maxStreams, h.mem_iff]

theorem Traces.entry (h : Traces n t t') (key : κ) : t.entry key = (t'.entry key).plain := by
  rw [StreamTable.entry, TracedTable.entry, h.streams]
  cases t'.streams.lookup key with
  | none => rfl
  | some s => rfl

/-- The labels of a payload are one number. -/
theorem label_of_mem {payload : Bytes} {b : UInt8 × ℕ} (hb : b ∈ payload.map fun b => (b, n)) :
    b.2 = n := by
  obtain ⟨_, -, rfl⟩ := List.mem_map.mp hb
  rfl

theorem plain_payload (payload : Bytes) (n : ℕ) :
    (payload.map fun b => (b, n)).map Prod.fst = payload := by
  rw [List.map_map]
  exact List.map_id _

/-- What a push that is served leaves in the labelled stream of its key. -/
theorem Traces.plain_push (h : Traces n t t') (g : Segment κ) :
    ((t.entry g.key).push t.maxBytes g.seq g.payload).1 =
      ((t'.entry g.key).push t'.maxBytes g.seq (g.payload.map fun b => (b, n))).plain := by
  rw [← Traced.plain_push, plain_payload, h.entry, h.maxBytes]

/-- **A push keeps the labels in step with the table.** -/
theorem Traces.push (h : Traces n t t') (g : Segment κ) :
    Traces (n + 1) (t.push g.key g.seq g.payload).2 (t'.push n g).2 := by
  have hold : ∀ key, (t'.entry key).All fun b => b.2 < n + 1 := fun key =>
    (h.labels key).mono fun _ hb => Nat.lt_succ_of_lt hb
  by_cases hne : g.payload = []
  · simp only [StreamTable.push, TracedTable.push, hne, if_true]
    exact { h with labels := hold }
  by_cases hr : Refuses t.maxStreams t.streams g.key
  · rw [StreamTable.push_eq_of_refuses hne hr, TracedTable.push, if_neg hne,
      if_pos ((h.refuses_iff g.key).mpr hr)]
    exact { h with labels := hold }
  have ht : t.Takes g := ⟨hne, hr⟩
  have hfed := (h.fed g.key).push g.seq hne
  have hlabels : ((t'.entry g.key).push t'.maxBytes g.seq
      (g.payload.map fun b => (b, n))).All fun b => b.2 < n + 1 :=
    (hold g.key).push fun b hb => by rw [label_of_mem hb]; exact Nat.lt_succ_self n
  rw [TracedTable.push, if_neg hne, if_neg (mt (h.refuses_iff g.key).mp hr)]
  dsimp only
  refine ⟨?_, ?_, ?_, fun key => ?_, fun key => ?_, fun key => ?_⟩
  · rw [StreamTable.push_maxStreams, h.maxStreams]
  · rw [StreamTable.push_maxBytes, h.maxBytes]
  · rw [StreamTable.push_eq_of_admits hne hr]
    dsimp only
    rw [BoundedTable.len_insert, BoundedTable.len_insert, h.size]
    simp only [h.mem_iff]
  · by_cases hk : key = g.key
    · subst hk
      rw [StreamTable.push_eq_of_admits hne hr]
      dsimp only
      rw [AList.lookup_insert, AList.lookup_insert, h.plain_push]
      rfl
    · rw [StreamTable.lookup_push_of_ne t hk, AList.lookup_insert_ne hk, h.streams]
  · rw [StreamTable.push_maxBytes]
    by_cases hk : key = g.key
    · subst hk
      rw [StreamTable.entry_push_self ht]
      exact hfed
    · rw [StreamTable.entry_push_of_ne t hk]
      exact h.fed key
  · by_cases hk : key = g.key
    · subst hk
      rw [TracedTable.entry, AList.lookup_insert]
      exact hlabels
    · rw [TracedTable.entry, AList.lookup_insert_ne hk]
      exact hold key

theorem traces_run (maxStreams maxBytes : ℕ) (segs : List (Segment κ)) :
    Traces segs.length ((StreamTable.new maxStreams maxBytes).run segs)
      ((new maxStreams maxBytes).run segs) := by
  induction segs using List.reverseRecOn with
  | nil => exact traces_new maxStreams maxBytes
  | append_singleton segs g ih =>
      rw [StreamTable.run_concat, run_concat, List.length_append]
      exact ih.push g

/-- The bytes that a push returns include one of another push exactly when its stream had bytes
before. -/
theorem Traces.other_iff (h : Traces n t t') (g : Segment κ) :
    (∃ b ∈ ((t'.entry g.key).push t'.maxBytes g.seq (g.payload.map fun b => (b, n))).buf,
        b.2 ≠ n) ↔ (t.entry g.key).buf ≠ [] := by
  have hfed := h.fed g.key
  rw [h.entry] at hfed ⊢
  constructor
  · rintro ⟨b, hb, hn⟩ hnil
    -- a stream without bytes holds nothing back either, so all bytes are of this push
    have hall : (t'.entry g.key).All fun b => b.2 = n := by
      refine ⟨fun c hc => ?_, fun p hp => ?_⟩
      · rw [List.map_eq_nil_iff.mp hnil] at hc
        exact absurd hc List.not_mem_nil
      · rw [List.map_eq_nil_iff.mp (hfed.alone hnil)] at hp
        exact absurd hp List.not_mem_nil
    exact hn ((hall.push fun c hc => label_of_mem hc).buf b hb)
  · intro hbuf
    have hcap := hfed.capped
    rw [Traced.length_plain_buf, ← h.maxBytes] at hcap
    obtain ⟨b, hb⟩ := List.exists_mem_of_ne_nil _ (mt (congrArg (List.map Prod.fst)) hbuf)
    exact ⟨b, (Traced.prefix_push hcap).subset hb, Nat.ne_of_lt ((h.labels g.key).buf b hb)⟩

end TracedTable

namespace StreamTable

variable {κ : Type} [DecidableEq κ]

/-- **When the flag is right.**  The bytes that a push of a run returns are those of the traced
table; and the flag says whether one of them is of another push, exactly when the stream had no byte
before or its length tells. -/
theorem multiSegment_iff (maxStreams maxBytes : ℕ) (segs : List (Segment κ)) (g : Segment κ)
    (r : Reassembled)
    (h : (((new maxStreams maxBytes).run segs).push g.key g.seq g.payload).1 = some r) :
    ∃ data, (((TracedTable.new maxStreams maxBytes).run segs).push segs.length g).1 = some data ∧
      data.map Prod.fst = r.data ∧
      ((r.multiSegment = true ↔ ∃ b ∈ data, b.2 ≠ segs.length) ↔
        (((new maxStreams maxBytes).run segs).entry g.key).LengthTells maxBytes g.seq
          g.payload) := by
  have htraces := TracedTable.traces_run maxStreams maxBytes segs
  have hbytes : ((new maxStreams maxBytes : StreamTable κ).run segs).maxBytes = maxBytes :=
    run_maxBytes _ segs
  have ht : ((new maxStreams maxBytes).run segs).Takes g := by
    by_contra hnot
    rw [(push_of_not_takes hnot).1] at h
    cases h
  have hr := mt (htraces.refuses_iff g.key).mp ht.2
  have hfed := htraces.fed g.key
  have hother := htraces.other_iff g
  rw [push_eq_of_admits ht.1 ht.2, Option.some_inj] at h
  subst h
  refine ⟨_, by rw [TracedTable.push, if_neg ht.1, if_neg hr], ?_, ?_⟩
  · dsimp only
    rw [htraces.plain_push]
    rfl
  · dsimp only
    rw [hother, decide_eq_true_eq]
    rw [hbytes] at hfed ⊢
    by_cases hbuf : (((new maxStreams maxBytes).run segs).entry g.key).buf = []
    · -- a first segment: the buffer is no longer than it
      have hle : (Stream.push _ maxBytes g.seq g.payload).1.buf.length ≤ g.payload.length :=
        Stream.length_push_of_empty hfed ht.1 hbuf
      have htells : (((new maxStreams maxBytes).run segs).entry g.key).LengthTells maxBytes g.seq
          g.payload := .inl hbuf
      simp only [hbuf, htells, iff_true, not_true_eq_false, ne_eq, iff_false, not_lt]
      exact hle
    · rw [Stream.length_lt_push_iff hfed ht.1 hbuf]
      simp only [hbuf, not_false_eq_true, iff_true, ne_eq]

/-- A retransmitted segment: the flag is right as long as the stream is longer. -/
theorem multiSegment_iff_retransmitted :
    ((((new 1 8).run [⟨0, 100, [1, 2]⟩, ⟨0, 102, [3]⟩]).push 0 100 [1, 2]).1 =
        some ⟨[1, 2, 3], true, false⟩) ∧
      ∃ data, (((TracedTable.new 1 8).run [⟨0, 100, [1, 2]⟩, ⟨0, 102, [3]⟩]).push 2
          ⟨0, 100, [1, 2]⟩).1 = some data ∧ ∃ b ∈ data, b.2 ≠ 2 := by
  have hpush : (((new 1 8).run [⟨0, 100, [1, 2]⟩, ⟨0, 102, [3]⟩]).push 0 100 [1, 2]).1 =
      some ⟨[1, 2, 3], true, false⟩ := by decide
  obtain ⟨data, hdata, -, hiff⟩ :=
    multiSegment_iff 1 8 [⟨0, 100, [1, 2]⟩, ⟨0, 102, [3]⟩] ⟨0, 100, [1, 2]⟩ _ hpush
  exact ⟨hpush, data, hdata, (hiff.mpr (by decide)).mp rfl⟩

/-- A segment that is held back: what is returned is all of the other push, which is shorter. -/
theorem multiSegment_held_back :
    (((new 1 64).run [⟨0, 100, [1, 2]⟩]).push 0 110 [9, 9, 9]).1 =
        some ⟨[1, 2], false, false⟩ ∧
      (((TracedTable.new 1 64).run [⟨0, 100, [1, 2]⟩]).push 1 ⟨0, 110, [9, 9, 9]⟩).1 =
        some [(1, 0), (2, 0)] ∧
      ¬ (((new 1 64).run [⟨0, 100, [1, 2]⟩]).entry 0).LengthTells 64 110 [9, 9, 9] := by
  decide

end StreamTable

end PcapRacer
