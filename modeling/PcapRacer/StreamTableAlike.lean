/-
**Segments that make no difference.**

A segment that brings nothing new can be left out of a run: the table goes on as if it had never been
offered.  Two streams are told apart by what they hold, and a buffer at the cap holds the same for
ever, so a table in which a stream is full may forget about the segments that wait for it.

Main definitions:

* `Stream.Alike`, `StreamTable.Alike` — no later segment tells the two apart;
* `StreamTable.Superfluous` — a segment that brings nothing new;
* `StreamTable.FillsCap` — a part of a segment that fills the buffer to the cap.

Main results:

* `StreamTable.Alike.run` — the same segments keep two tables alike;
* `StreamTable.alike_run_without` — **a superfluous segment can be left out of a run**;
* `StreamTable.alike_push_of_fillsCap` — the rest of a segment makes no difference once the buffer is
  full.
-/

import PcapRacer.Reconnect

set_option relaxedAutoImplicit false
set_option autoImplicit false

namespace PcapRacer

open BoundedTable (len Refuses)

namespace Stream

/-- The buffers are the same, and so is all that decides how they go on; a full buffer does not go
on. -/
structure Alike (maxBytes : ℕ) (s s' : Stream) : Prop where
  buf : s.buf = s'.buf
  rest : (s.baseSeq = s'.baseSeq ∧ s.pending = s'.pending) ∨ maxBytes ≤ s.buf.length

variable {maxBytes : ℕ} {s s' s'' : Stream}

theorem Alike.refl (maxBytes : ℕ) (s : Stream) : Alike maxBytes s s := ⟨rfl, .inl ⟨rfl, rfl⟩⟩

theorem Alike.symm (h : Alike maxBytes s s') : Alike maxBytes s' s := by
  refine ⟨h.buf.symm, ?_⟩
  rw [← h.buf]
  exact h.rest.imp (fun hr => ⟨hr.1.symm, hr.2.symm⟩) id

theorem Alike.trans (h : Alike maxBytes s s') (h' : Alike maxBytes s' s'') :
    Alike maxBytes s s'' := by
  refine ⟨h.buf.trans h'.buf, ?_⟩
  have hrest := h'.rest
  rw [← h.buf] at hrest
  rcases h.rest with hr | hr
  · exact hrest.imp (fun hr' => ⟨hr.1.trans hr'.1, hr.2.trans hr'.2⟩) id
  · exact .inr hr

theorem place_truncated (s : Stream) (b : Bool) (maxBytes : ℕ) (seq : UInt32) (offset : ℕ)
    (payload : Bytes) :
    ∃ b', ({ s with truncated := b } : Stream).place maxBytes seq offset payload =
      ({ (s.place maxBytes seq offset payload).1 with truncated := b' },
        (s.place maxBytes seq offset payload).2) := by
  unfold place
  dsimp only
  split_ifs <;> exact ⟨_, rfl⟩

theorem clip_truncated (s : Stream) (b : Bool) (maxBytes : ℕ) :
    ∃ b', (({ s with truncated := b } : Stream).clip maxBytes).1 =
      { (s.clip maxBytes).1 with truncated := b' } := by
  unfold clip
  dsimp only
  split_ifs <;> exact ⟨_, rfl⟩

/-- Whether bytes were lost before does not decide where a segment goes. -/
theorem push_truncated (s : Stream) (b : Bool) (maxBytes : ℕ) (seq : UInt32) (payload : Bytes) :
    ∃ b', (({ s with truncated := b } : Stream).push maxBytes seq payload).1 =
      { (s.push maxBytes seq payload).1 with truncated := b' } := by
  rcases hp : (s.based seq).place maxBytes seq (s.offsetOf seq) payload with ⟨u, grew⟩
  obtain ⟨b', hb'⟩ := place_truncated (s.based seq) b maxBytes seq (s.offsetOf seq) payload
  rw [hp] at hb'
  rw [push_of_place (s := { s with truncated := b }) hb', push_of_place hp]
  dsimp only
  split
  · exact clip_truncated (u.drain (s.baseOr seq)) b' maxBytes
  · exact clip_truncated u b' maxBytes

/-- A full buffer stays as it is. -/
theorem buf_push_of_full (hcap : s.buf.length ≤ maxBytes) (hfull : maxBytes ≤ s.buf.length)
    (seq : UInt32) {payload : Bytes} (hne : payload ≠ []) :
    (s.push maxBytes seq payload).1.buf = s.buf := by
  have hlen := length_push_le s maxBytes seq payload
  exact ((prefix_push hcap seq hne).eq_of_length_le (hlen.trans hfull)).symm

/-- **A segment keeps two streams alike.** -/
theorem Alike.push (h : Alike maxBytes s s') (hcap : s.buf.length ≤ maxBytes) (seq : UInt32)
    {payload : Bytes} (hne : payload ≠ []) :
    Alike maxBytes (s.push maxBytes seq payload).1 (s'.push maxBytes seq payload).1 := by
  rcases h.rest with ⟨hbase, hpending⟩ | hfull
  · obtain ⟨b, rfl⟩ : ∃ b, s' = { s with truncated := b } := by
      refine ⟨s'.truncated, ?_⟩
      cases s
      cases s'
      cases hbase
      cases hpending
      cases h.buf
      rfl
    obtain ⟨b', hb'⟩ := push_truncated s b maxBytes seq payload
    rw [hb']
    exact ⟨rfl, .inl ⟨rfl, rfl⟩⟩
  · have hbuf := buf_push_of_full hcap hfull seq hne
    have hbuf' : (s'.push maxBytes seq payload).1.buf = s'.buf :=
      buf_push_of_full (h.buf ▸ hcap) (h.buf ▸ hfull) seq hne
    refine ⟨?_, .inr ?_⟩
    · rw [hbuf, hbuf', h.buf]
    · rwa [hbuf]

/-- A segment of this length brings nothing new: it is in the buffer already, or the buffer is full,
or the segment starts past the cap. -/
def AddsNothing (s : Stream) (maxBytes : ℕ) (seq : UInt32) (n : ℕ) : Prop :=
  s.offsetOf seq + n ≤ s.buf.length ∨ maxBytes ≤ s.buf.length ∨ maxBytes ≤ s.offsetOf seq

theorem offsetOf_of_unbased (h : s.baseSeq = none) (seq : UInt32) : s.offsetOf seq = 0 := by
  rw [offsetOf, baseOr, h, Option.getD_none, UInt32.sub_self]
  rfl

theorem based_of_some {b : UInt32} (h : s.baseSeq = some b) (seq : UInt32) : s.based seq = s := by
  cases s
  cases h
  rfl

/-- Such a segment makes no difference. -/
theorem AddsNothing.alike_push {seq : UInt32} {payload : Bytes} (hcap : s.buf.length ≤ maxBytes)
    (hunbased : s.baseSeq = none → s.buf = []) (hne : payload ≠ [])
    (h : s.AddsNothing maxBytes seq payload.length) :
    Alike maxBytes (s.push maxBytes seq payload).1 s := by
  have hpos : 0 < payload.length := List.length_pos_iff.mpr hne
  by_cases hfull : maxBytes ≤ s.buf.length
  · have hbuf := buf_push_of_full hcap hfull seq hne
    exact ⟨hbuf, .inr (hbuf ▸ hfull)⟩
  · -- the stream has a base, and the segment lies in the buffer or past the cap
    obtain ⟨b, hb⟩ : ∃ b, s.baseSeq = some b := by
      by_contra hnone
      have hs : s.baseSeq = none := by
        cases hs : s.baseSeq with
        | none => rfl
        | some b => exact absurd ⟨b, hs⟩ hnone
      have hoff := offsetOf_of_unbased hs seq
      have hnil : s.buf.length = 0 := by rw [hunbased hs]; rfl
      rcases h with h | h | h <;> omega
    have hpush := pushed_push hcap seq hne
    generalize s.push maxBytes seq payload = r at hpush
    cases hpush with
    | copy | beyond =>
        dsimp only
        rw [based_of_some hb]
        exact .refl _ _
    | grow hle hlt => rcases h with h | h | h <;> omega
    | hold hgap hbelow | overflow hgap hbelow => rcases h with h | h | h <;> omega

/-- The base of a stream stays where it is. -/
theorem baseSeq_push (s : Stream) (maxBytes : ℕ) (seq : UInt32) (payload : Bytes) :
    (s.push maxBytes seq payload).1.baseSeq = some (s.baseOr seq) := by
  have hclip : ∀ u : Stream, (u.clip maxBytes).1.baseSeq = u.baseSeq := by
    intro u
    unfold clip
    split <;> rfl
  have hplace : ((s.based seq).place maxBytes seq (s.offsetOf seq) payload).1.baseSeq =
      some (s.baseOr seq) := by
    unfold place
    dsimp only
    split_ifs <;> rfl
  rcases hp : (s.based seq).place maxBytes seq (s.offsetOf seq) payload with ⟨u, grew⟩
  rw [hp] at hplace
  rw [push_of_place hp, hclip]
  split <;> exact hplace

/-- A segment that brings nothing new does so for good. -/
theorem AddsNothing.mono {seq seq' : UInt32} {n : ℕ} {payload : Bytes}
    (hcap : s.buf.length ≤ maxBytes) (hunbased : s.baseSeq = none → s.buf = []) (hn : 0 < n)
    (hne : payload ≠ []) (h : s.AddsNothing maxBytes seq n) :
    (s.push maxBytes seq' payload).1.AddsNothing maxBytes seq n := by
  have hgrows := (prefix_push hcap seq' hne).length_le
  unfold AddsNothing
  cases hs : s.baseSeq with
  | none =>
      have hoff := offsetOf_of_unbased hs seq
      have hnil : s.buf.length = 0 := by rw [hunbased hs]; rfl
      rcases h with h | h | h <;> omega
  | some b =>
      have hoff : (s.push maxBytes seq' payload).1.offsetOf seq = s.offsetOf seq := by
        rw [offsetOf, offsetOf, baseOr, baseOr, baseSeq_push, baseOr, hs]
        rfl
      rw [hoff]
      rcases h with h | h | h <;> omega

/-- A push that reaches the cap takes no notice of what lies past it. -/
theorem buf_push_of_cap {seq : UInt32} {payload : Bytes} (hcap : s.buf.length ≤ maxBytes)
    (hne : payload ≠ []) (hle : s.offsetOf seq ≤ s.buf.length)
    (hreach : maxBytes ≤ s.offsetOf seq + payload.length) :
    (s.push maxBytes seq payload).1.buf = (s.buf ++ s.fresh seq payload).take maxBytes := by
  have hpush := pushed_push hcap seq hne
  generalize s.push maxBytes seq payload = r at hpush
  cases hpush with
  | grow hle' hlt =>
      have hpre : s.buf ++ s.fresh seq payload <+: (s.grown seq payload).buf :=
        prefix_drainLoop _ _ _ _
      have hlen : maxBytes ≤ (s.buf ++ s.fresh seq payload).length := by
        rw [List.length_append, length_fresh]
        omega
      have htake : (s.grown seq payload).buf.take maxBytes =
          (s.buf ++ s.fresh seq payload).take maxBytes := by
        obtain ⟨t, ht⟩ := hpre
        rw [← ht, List.take_append_of_le_length hlen]
      unfold clip
      split
      · exact htake
      · next hnot =>
          rw [← htake]
          exact (List.take_of_length_le (Nat.le_of_not_lt hnot)).symm
  | copy hlt hle' =>
      have hfull : s.buf.length = maxBytes := by omega
      rw [List.take_append_of_le_length hfull.ge, ← hfull, List.take_length]
      rfl
  | hold hgap | overflow hgap | beyond hgap => omega

end Stream

namespace StreamTable

variable {κ : Type} [DecidableEq κ]

/-- No later segment tells the two tables apart in the direction `key`. -/
structure Alike (key : κ) (t t' : StreamTable κ) : Prop where
  maxStreams : t.maxStreams = t'.maxStreams
  maxBytes : t.maxBytes = t'.maxBytes
  mem : ∀ k, k ∈ t.streams ↔ k ∈ t'.streams
  len : len t.streams = len t'.streams
  entry : (t.entry key).Alike t.maxBytes (t'.entry key)

variable {key : κ} {t t' t'' : StreamTable κ}

theorem Alike.refl (key : κ) (t : StreamTable κ) : Alike key t t :=
  ⟨rfl, rfl, fun _ => Iff.rfl, rfl, .refl _ _⟩

theorem Alike.symm (h : Alike key t t') : Alike key t' t :=
  ⟨h.maxStreams.symm, h.maxBytes.symm, fun k => (h.mem k).symm, h.len.symm,
    h.maxBytes ▸ h.entry.symm⟩

theorem Alike.trans (h : Alike key t t') (h' : Alike key t' t'') : Alike key t t'' :=
  ⟨h.maxStreams.trans h'.maxStreams, h.maxBytes.trans h'.maxBytes,
    fun k => (h.mem k).trans (h'.mem k), h.len.trans h'.len,
    h.entry.trans (h.maxBytes ▸ h'.entry)⟩

theorem Alike.refuses_iff (h : Alike key t t') (k : κ) :
    Refuses t.maxStreams t.streams k ↔ Refuses t'.maxStreams t'.streams k := by
  unfold Refuses
  rw [h.maxStreams, h.len, h.mem k]

/-- What a push that is taken does to the keys. -/
theorem mem_push_iff {g : Segment κ} (h : t.Takes g) (k : κ) :
    k ∈ (t.push g.key g.seq g.payload).2.streams ↔ k = g.key ∨ k ∈ t.streams := by
  rw [push_eq_of_admits h.1 h.2]
  exact AList.mem_insert _

theorem len_push {g : Segment κ} (h : t.Takes g) :
    len (t.push g.key g.seq g.payload).2.streams =
      if g.key ∈ t.streams then len t.streams else len t.streams + 1 := by
  rw [push_eq_of_admits h.1 h.2]
  exact BoundedTable.len_insert _ _ _

/-- **The same segment keeps two tables alike.** -/
theorem Alike.push (h : Alike key t t') (hcap : (t.entry key).buf.length ≤ t.maxBytes)
    (g : Segment κ) :
    Alike key (t.push g.key g.seq g.payload).2 (t'.push g.key g.seq g.payload).2 := by
  by_cases ht : t.Takes g
  · have ht' : t'.Takes g := ⟨ht.1, fun hr => ht.2 ((h.refuses_iff g.key).mpr hr)⟩
    refine ⟨?_, ?_, fun k => ?_, ?_, ?_⟩
    · rw [push_maxStreams, push_maxStreams, h.maxStreams]
    · rw [push_maxBytes, push_maxBytes, h.maxBytes]
    · rw [mem_push_iff ht, mem_push_iff ht', h.mem k]
    · simp only [len_push ht, len_push ht', h.len, h.mem g.key]
    · rw [push_maxBytes]
      by_cases hk : key = g.key
      · subst hk
        rw [entry_push_self ht, entry_push_self ht', ← h.maxBytes]
        exact h.entry.push hcap g.seq ht.1
      · rw [entry_push_of_ne t hk, entry_push_of_ne t' hk]
        exact h.entry
  · have ht' : ¬ t'.Takes g := fun hg => ht ⟨hg.1, fun hr => hg.2 ((h.refuses_iff g.key).mp hr)⟩
    have hs := (push_of_not_takes ht).2.1
    have hs' := (push_of_not_takes ht').2.1
    refine ⟨?_, ?_, fun k => ?_, ?_, ?_⟩
    · rw [push_maxStreams, push_maxStreams, h.maxStreams]
    · rw [push_maxBytes, push_maxBytes, h.maxBytes]
    · rw [hs, hs', h.mem k]
    · rw [hs, hs', h.len]
    · rw [push_maxBytes, entry_congr hs, entry_congr hs']
      exact h.entry

/-- A push that leaves the stream alike leaves the table alike, when the key is there already. -/
theorem alike_push_of_mem {g : Segment κ} (hmem : g.key ∈ t.streams) (hne : g.payload ≠ [])
    (h : ((t.entry g.key).push t.maxBytes g.seq g.payload).1.Alike t.maxBytes (t.entry g.key)) :
    Alike g.key (t.push g.key g.seq g.payload).2 t := by
  have ht : t.Takes g := ⟨hne, BoundedTable.not_refuses_of_mem hmem⟩
  refine ⟨push_maxStreams _ _ _ _, push_maxBytes _ _ _ _, fun k => ?_, ?_, ?_⟩
  · rw [mem_push_iff ht]
    constructor
    · rintro (rfl | hk)
      · exact hmem
      · exact hk
    · exact .inr
  · rw [len_push ht, if_pos hmem]
  · rw [push_maxBytes, entry_push_self ht]
    exact h

/-- The segment brings nothing new: it is empty, or the table refuses it, or its stream is there
already and gets nothing from it. -/
def Superfluous (t : StreamTable κ) (g : Segment κ) : Prop :=
  g.payload = [] ∨ Refuses t.maxStreams t.streams g.key ∨
    (g.key ∈ t.streams ∧ (t.entry g.key).AddsNothing t.maxBytes g.seq g.payload.length)

/-- The segment `g₀` is the beginning of `g`, leaves no gap and fills the buffer to the cap. -/
structure FillsCap (t : StreamTable κ) (g₀ g : Segment κ) : Prop where
  key : g₀.key = g.key
  seq : g₀.seq = g.seq
  nonempty : g₀.payload ≠ []
  payload : g₀.payload <+: g.payload
  flush : (t.entry g.key).offsetOf g.seq ≤ (t.entry g.key).buf.length
  reach : t.maxBytes ≤ (t.entry g.key).offsetOf g.seq + g₀.payload.length

section Run

variable (maxStreams maxBytes : ℕ)

/-- What a run keeps of a stream: it stays within the cap, and it holds nothing before it has a
base. -/
theorem native_entry (segs : List (Segment κ)) (key : κ) :
    (((new maxStreams maxBytes).run segs).entry key).Native maxBytes (history segs key) :=
  native_run (t := new maxStreams maxBytes) rfl segs

/-- **The same segments keep two tables alike.** -/
theorem Alike.run {as bs : List (Segment κ)}
    (h : Alike key ((new maxStreams maxBytes).run as) ((new maxStreams maxBytes).run bs))
    (segs : List (Segment κ)) :
    Alike key ((new maxStreams maxBytes).run (as ++ segs))
      ((new maxStreams maxBytes).run (bs ++ segs)) := by
  induction segs using List.reverseRecOn with
  | nil => rwa [List.append_nil, List.append_nil]
  | append_singleton segs g ih =>
      rw [← List.append_assoc, ← List.append_assoc, run_concat, run_concat]
      refine ih.push ?_ g
      rw [run_maxBytes]
      exact length_entry_run_le _ _ _ _

/-- A superfluous segment makes no difference. -/
theorem Superfluous.alike_push {segs : List (Segment κ)} {g : Segment κ}
    (h : ((new maxStreams maxBytes).run segs).Superfluous g) :
    Alike g.key (((new maxStreams maxBytes).run segs).push g.key g.seq g.payload).2
      ((new maxStreams maxBytes).run segs) := by
  have hnative := native_entry maxStreams maxBytes segs g.key
  by_cases hne : g.payload = []
  · rw [StreamTable.push, if_pos hne]
    exact .refl _ _
  · rcases h with h | hr | ⟨hmem, hnothing⟩
    · exact absurd h hne
    · rw [push_eq_of_refuses hne hr]
      exact ⟨rfl, rfl, fun _ => Iff.rfl, rfl, .refl _ _⟩
    · refine alike_push_of_mem hmem hne ?_
      rw [run_maxBytes] at hnothing ⊢
      exact hnothing.alike_push hnative.len_le hnative.unbased hne

/-- **A superfluous segment can be left out of a run.** -/
theorem alike_run_without {as : List (Segment κ)} {g : Segment κ}
    (h : ((new maxStreams maxBytes).run as).Superfluous g) (bs : List (Segment κ)) :
    Alike g.key ((new maxStreams maxBytes).run (as ++ g :: bs))
      ((new maxStreams maxBytes).run (as ++ bs)) := by
  have hpush := h.alike_push
  rw [← run_concat] at hpush
  have hrun := Alike.run maxStreams maxBytes hpush bs
  rwa [List.append_assoc] at hrun

/-- A superfluous segment is so for good. -/
theorem Superfluous.run {as : List (Segment κ)} {g : Segment κ}
    (h : ((new maxStreams maxBytes).run as).Superfluous g) (bs : List (Segment κ)) :
    ((new maxStreams maxBytes).run (as ++ bs)).Superfluous g := by
  induction bs using List.reverseRecOn with
  | nil => rwa [List.append_nil]
  | append_singleton bs g' ih =>
      rw [← List.append_assoc, run_concat]
      generalize hsegs : as ++ bs = segs at ih ⊢
      have hnative := native_entry maxStreams maxBytes segs g.key
      by_cases ht : ((new maxStreams maxBytes).run segs).Takes g'
      · by_cases hne : g.payload = []
        · exact .inl hne
        rcases ih with h | hr | ⟨hmem, hnothing⟩
        · exact absurd h hne
        · -- a full table takes segments of the keys it has
          refine .inr (.inl ⟨?_, ?_⟩)
          · rw [mem_push_iff ht]
            rintro (hk | hk)
            · exact ht.2 (hk ▸ hr)
            · exact hr.1 hk
          · rw [push_maxStreams, len_push ht]
            have hle := hr.2
            split <;> omega
        · refine .inr (.inr ⟨(mem_push_iff ht _).mpr (.inr hmem), ?_⟩)
          rw [push_maxBytes]
          by_cases hk : g.key = g'.key
          · rw [hk] at hnothing hnative ⊢
            rw [entry_push_self ht]
            rw [run_maxBytes] at hnothing ⊢
            exact hnothing.mono hnative.len_le hnative.unbased (List.length_pos_iff.mpr hne) ht.1
          · rwa [entry_push_of_ne _ hk]
      · have hs := (push_of_not_takes ht).2.1
        unfold Superfluous at ih ⊢
        rwa [push_maxStreams, push_maxBytes, entry_congr hs, hs]

/-- **The rest of a segment makes no difference** once its beginning has filled the buffer. -/
theorem alike_push_of_fillsCap {segs : List (Segment κ)} {g₀ g : Segment κ}
    (h : ((new maxStreams maxBytes).run segs).FillsCap g₀ g) :
    Alike g.key ((new maxStreams maxBytes).run (segs ++ [g₀]))
      ((new maxStreams maxBytes).run (segs ++ [g])) := by
  obtain ⟨hkey, hseq, hne, hpre, hflush, hreach⟩ := h
  have hlen := hpre.length_le
  have hne' : g.payload ≠ [] := fun hnil => hne (List.prefix_nil.mp (hnil ▸ hpre))
  have hcap := (native_entry maxStreams maxBytes segs g.key).len_le
  rw [run_maxBytes] at hreach
  rw [run_concat, run_concat, hkey, hseq]
  generalize ht : (new maxStreams maxBytes).run segs = t at *
  have hmax : t.maxBytes = maxBytes := by rw [← ht, run_maxBytes]; rfl
  change maxBytes ≤ _ at hreach
  by_cases hr : Refuses t.maxStreams t.streams g.key
  · rw [push_eq_of_refuses hne hr, push_eq_of_refuses hne' hr]
    exact .refl _ _
  have htakes : t.Takes { g with payload := g₀.payload } := ⟨hne, hr⟩
  have htakes' : t.Takes g := ⟨hne', hr⟩
  have hbuf := Stream.buf_push_of_cap hcap hne hflush hreach
  have hbuf' := Stream.buf_push_of_cap hcap hne' hflush (by omega)
  refine ⟨?_, ?_, fun k => ?_, ?_, ?_⟩
  · rw [push_maxStreams, push_maxStreams]
  · rw [push_maxBytes, push_maxBytes]
  · rw [mem_push_iff htakes', ← mem_push_iff htakes]
  · rw [len_push htakes', ← len_push htakes]
  · rw [entry_push_self htakes', push_maxBytes, hmax]
    have hentry := entry_push_self htakes
    dsimp only at hentry
    rw [hentry, hmax]
    have hfresh : t.maxBytes ≤
        ((t.entry g.key).buf ++ (t.entry g.key).fresh g.seq g₀.payload).length := by
      rw [List.length_append, Stream.length_fresh, hmax]
      omega
    have hsame : ((t.entry g.key).buf ++ (t.entry g.key).fresh g.seq g.payload).take maxBytes =
        ((t.entry g.key).buf ++ (t.entry g.key).fresh g.seq g₀.payload).take maxBytes := by
      obtain ⟨rest, hrest⟩ := hpre
      have happ : (t.entry g.key).fresh g.seq g.payload =
          (t.entry g.key).fresh g.seq g₀.payload ++
            rest.drop ((t.entry g.key).buf.length - (t.entry g.key).offsetOf g.seq -
              g₀.payload.length) := by
        rw [Stream.fresh, Stream.fresh, ← hrest, List.drop_append]
      rw [happ, ← List.append_assoc, List.take_append_of_le_length (hmax ▸ hfresh)]
    refine ⟨?_, .inr ?_⟩
    · rw [hbuf, hbuf', hsame]
    · rw [hbuf, List.length_take]
      rw [hmax] at hfresh
      omega

end Run

end StreamTable

/-- Tables that are alike have the same dissected. -/
theorem Engine.dissectedData_of_alike {e e' : Engine} {g : Segment StreamKey}
    (h : e.streams.Alike g.key e'.streams)
    (hcap : (e.streams.entry g.key).buf.length ≤ e.streams.maxBytes) :
    e.dissectedData g = e'.dissectedData g := by
  by_cases ht : e.streams.Takes g
  · have ht' : e'.streams.Takes g := ⟨ht.1, fun hr => ht.2 ((h.refuses_iff g.key).mpr hr)⟩
    have hbuf := (h.push hcap g).entry.buf
    rw [StreamTable.entry_push_self ht, StreamTable.entry_push_self ht'] at hbuf
    rw [dissectedData, dissectedData, StreamTable.push_eq_of_admits ht.1 ht.2,
      StreamTable.push_eq_of_admits ht'.1 ht'.2]
    exact hbuf
  · have ht' : ¬ e'.streams.Takes g := fun hg =>
      ht ⟨hg.1, fun hr => hg.2 ((h.refuses_iff g.key).mp hr)⟩
    rw [dissectedData, dissectedData, (StreamTable.push_of_not_takes ht).1,
      (StreamTable.push_of_not_takes ht').1]

end PcapRacer
