/-
**Runs that emit a row per input, and their chunked form.**

A step takes a state and an input to a new state and a row, or fails.  `scan` is the run over a list
of inputs.  A chunked run cuts the inputs into chunks, scans one after the other and hands the rows
of each to a callback, which may refuse to go on.

Main definitions:

* `scan` — the run of a step function;
* `pack` — cutting a list into chunks of a given size;
* `Ending`, `emit` — the chunked run.

Main results:

* `scan_append_of_ok`, `length_of_scan` — how runs compose, and one row per input;
* `scan_ok_iff` — a run succeeds exactly when no step of it fails;
* `flatten_pack`, `length_of_mem_dropLast_pack` — chunks cover the list, and all but the last are
  full;
* `emit_eq` — a chunked run over any chunks is decided by the one run over all inputs.
-/

import Mathlib.Data.List.Basic
import Mathlib.Data.List.Induction

set_option relaxedAutoImplicit false
set_option autoImplicit false

namespace ChunkedRun

variable {σ α β ε δ : Type}

/-! ### Runs -/

/-- Run a step function over a list of inputs; the result is the last state and the rows. -/
def scan (step : σ → α → Except ε (σ × β)) : σ → List α → Except ε (σ × List β)
  | s, [] => .ok (s, [])
  | s, a :: as =>
      match step s a with
      | .error e => .error e
      | .ok (s', b) => (scan step s' as).map fun r => (r.1, b :: r.2)

variable {step : σ → α → Except ε (σ × β)}

@[simp] theorem scan_nil (s : σ) : scan step s [] = .ok (s, []) := rfl

theorem scan_cons_of_ok {s s' : σ} {a : α} {b : β} (h : step s a = .ok (s', b)) (as : List α) :
    scan step s (a :: as) = (scan step s' as).map fun r => (r.1, b :: r.2) := by
  rw [scan, h]

theorem scan_cons_of_error {s : σ} {a : α} {e : ε} (h : step s a = .error e) (as : List α) :
    scan step s (a :: as) = .error e := by
  rw [scan, h]

/-- A run that succeeds, after its first step. -/
theorem exists_of_scan_cons {s s' : σ} {a : α} {as : List α} {bs : List β}
    (h : scan step s (a :: as) = .ok (s', bs)) :
    ∃ s₁ b bs₁, step s a = .ok (s₁, b) ∧ scan step s₁ as = .ok (s', bs₁) ∧ bs = b :: bs₁ := by
  cases hs : step s a with
  | error e =>
      rw [scan_cons_of_error hs] at h
      cases h
  | ok p =>
      rw [scan_cons_of_ok hs] at h
      cases hr : scan step p.1 as with
      | error e =>
          rw [hr] at h
          cases h
      | ok q =>
          rw [hr] at h
          cases h
          exact ⟨p.1, p.2, q.2, rfl, hr, rfl⟩

/-- A run of a longer list, when the run of its first part succeeds. -/
theorem scan_append_of_ok {s s' : σ} {as : List α} {bs : List β}
    (h : scan step s as = .ok (s', bs)) (as' : List α) :
    scan step s (as ++ as') = (scan step s' as').map fun r => (r.1, bs ++ r.2) := by
  induction as generalizing s bs with
  | nil =>
      cases h
      rw [List.nil_append]
      cases scan step s' as' <;> rfl
  | cons a as ih =>
      obtain ⟨s₁, b, bs₁, hs, hr, rfl⟩ := exists_of_scan_cons h
      rw [List.cons_append, scan_cons_of_ok hs, ih hr]
      cases scan step s' as' <;> rfl

/-- A run of a longer list, when the run of its first part fails. -/
theorem scan_append_of_error {s : σ} {as : List α} {e : ε} (h : scan step s as = .error e)
    (as' : List α) : scan step s (as ++ as') = .error e := by
  induction as generalizing s with
  | nil => cases h
  | cons a as ih =>
      cases hs : step s a with
      | error e' =>
          rw [scan_cons_of_error hs] at h
          rw [List.cons_append, scan_cons_of_error hs, h]
      | ok p =>
          rw [scan_cons_of_ok hs] at h
          rw [List.cons_append, scan_cons_of_ok hs]
          cases hr : scan step p.1 as with
          | error e' =>
              rw [hr] at h
              cases h
              rw [ih hr]
              rfl
          | ok q => rw [hr] at h; cases h

/-- A run of a longer list that succeeds, cut in two. -/
theorem exists_of_scan_append {s s' : σ} {as as' : List α} {bs : List β}
    (h : scan step s (as ++ as') = .ok (s', bs)) :
    ∃ s₁ bs₁ bs₂, scan step s as = .ok (s₁, bs₁) ∧ scan step s₁ as' = .ok (s', bs₂) ∧
      bs = bs₁ ++ bs₂ := by
  cases hs : scan step s as with
  | error e =>
      rw [scan_append_of_error hs] at h
      cases h
  | ok r =>
      rw [scan_append_of_ok hs] at h
      cases hr : scan step r.1 as' with
      | error e =>
          rw [hr] at h
          cases h
      | ok q =>
          rw [hr] at h
          cases h
          exact ⟨r.1, r.2, q.2, rfl, hr, rfl⟩

/-- One row per input. -/
theorem length_of_scan {s s' : σ} {as : List α} {bs : List β}
    (h : scan step s as = .ok (s', bs)) : bs.length = as.length := by
  induction as generalizing s bs with
  | nil => cases h; rfl
  | cons a as ih =>
      obtain ⟨s₁, b, bs₁, hs, hr, rfl⟩ := exists_of_scan_cons h
      rw [List.length_cons, List.length_cons, ih hr]

/-- Every output of a run is the output of a step on the input at its place, from the state that the
run over the inputs before it ends in. -/
theorem step_at_of_scan {s s' : σ} {as : List α} {bs : List β} (h : scan step s as = .ok (s', bs))
    {i : ℕ} {b : β} (hb : bs[i]? = some b) :
    ∃ a s₁ s₂, as[i]? = some a ∧ scan step s (as.take i) = .ok (s₁, bs.take i) ∧
      step s₁ a = .ok (s₂, b) := by
  induction as generalizing s bs i with
  | nil =>
      cases h
      cases hb
  | cons a as ih =>
      obtain ⟨s₀, b₀, bs₀, hs, hr, rfl⟩ := exists_of_scan_cons h
      cases i with
      | zero =>
          cases hb
          exact ⟨a, s, s₀, rfl, rfl, hs⟩
      | succ i =>
          obtain ⟨a', s₁, s₂, ha, hscan, hstep⟩ := ih hr hb
          refine ⟨a', s₁, s₂, ha, ?_, hstep⟩
          rw [List.take_succ_cons, scan_cons_of_ok hs, hscan]
          rfl

theorem step_of_scan {s s' : σ} {as : List α} {bs : List β} (h : scan step s as = .ok (s', bs))
    {i : ℕ} {b : β} (hb : bs[i]? = some b) :
    ∃ a s₁ s₂, as[i]? = some a ∧ step s₁ a = .ok (s₂, b) := by
  obtain ⟨a, s₁, s₂, ha, -, hstep⟩ := step_at_of_scan h hb
  exact ⟨a, s₁, s₂, ha, hstep⟩

/-- No step of the run over `as` from `s` fails. -/
def NoneFails (step : σ → α → Except ε (σ × β)) (s : σ) (as : List α) : Prop :=
  ∀ pre a post s' bs, as = pre ++ a :: post → scan step s pre = .ok (s', bs) →
    ∃ r, step s' a = .ok r

/-- **A run succeeds exactly when no step of it fails.** -/
theorem scan_ok_iff {s : σ} {as : List α} :
    (∃ r, scan step s as = .ok r) ↔ NoneFails step s as := by
  constructor
  · rintro ⟨r, hr⟩ pre a post s' bs rfl hpre
    rw [scan_append_of_ok hpre] at hr
    cases hs : step s' a with
    | ok p => exact ⟨p, rfl⟩
    | error e => rw [scan_cons_of_error hs] at hr; cases hr
  · intro h
    induction as using List.reverseRecOn with
    | nil => exact ⟨_, rfl⟩
    | append_singleton as a ih =>
        obtain ⟨⟨s', bs⟩, hr⟩ := ih fun pre b post s' bs he hpre =>
          h pre b (post ++ [a]) s' bs (by rw [he, List.append_assoc]; rfl) hpre
        obtain ⟨p, hp⟩ := h as a [] s' bs rfl hr
        rw [scan_append_of_ok hr, scan_cons_of_ok hp]
        exact ⟨_, rfl⟩

/-- What holds at the start and is kept by every step holds at the end, and each row satisfies what
its step guarantees. -/
theorem scan_invariant {I : σ → Prop} {R : β → Prop}
    (hstep : ∀ s a s' b, I s → step s a = .ok (s', b) → I s' ∧ R b) {s s' : σ} {as : List α}
    {bs : List β} (hs : I s) (h : scan step s as = .ok (s', bs)) : I s' ∧ ∀ b ∈ bs, R b := by
  induction as generalizing s bs with
  | nil => cases h; exact ⟨hs, fun b hb => by cases hb⟩
  | cons a as ih =>
      obtain ⟨s₁, b₁, bs₁, hx, hr, rfl⟩ := exists_of_scan_cons h
      obtain ⟨hp, hb⟩ := hstep s a s₁ b₁ hs hx
      obtain ⟨hq, hbs⟩ := ih hp hr
      refine ⟨hq, fun b hmem => ?_⟩
      rcases List.mem_cons.mp hmem with rfl | hmem
      · exact hb
      · exact hbs b hmem

/-- What relates the rows so far to the state, and is kept by every step, relates all rows to the
state at the end. -/
theorem scan_history {I : List β → σ → Prop} {as : List α} (before : List β)
    (hstep : ∀ bs s a s' b, a ∈ as → I bs s → step s a = .ok (s', b) → I (bs ++ [b]) s')
    {s s' : σ} {bs : List β} (hs : I before s)
    (h : scan step s as = .ok (s', bs)) : I (before ++ bs) s' := by
  induction as generalizing before s bs with
  | nil =>
      cases h
      rwa [List.append_nil]
  | cons a as ih =>
      obtain ⟨s₁, b₁, bs₁, hx, hr, rfl⟩ := exists_of_scan_cons h
      rw [← List.singleton_append, ← List.append_assoc]
      exact ih _ (fun bs s a s' b ha => hstep bs s a s' b (List.mem_cons_of_mem _ ha))
        (hstep before s a s₁ b₁ List.mem_cons_self hs hx) hr

/-! ### Chunks -/

/-- Cut a list into chunks of `size`; `acc` is the chunk that is being filled. -/
def pack (size : ℕ) (acc : List α) : List α → List (List α)
  | [] => if acc = [] then [] else [acc]
  | a :: as =>
      if size ≤ (acc ++ [a]).length then (acc ++ [a]) :: pack size [] as
      else pack size (acc ++ [a]) as

theorem flatten_pack (size : ℕ) (acc as : List α) : (pack size acc as).flatten = acc ++ as := by
  induction as generalizing acc with
  | nil =>
      unfold pack
      split
      · next h => rw [h]; rfl
      · rw [List.flatten_singleton, List.append_nil]
  | cons a as ih =>
      unfold pack
      split
      · rw [List.flatten_cons, ih, List.append_assoc]; rfl
      · rw [ih, List.append_assoc]; rfl

/-- No chunk is empty. -/
theorem ne_nil_of_mem_pack {size : ℕ} {acc as l : List α} (h : l ∈ pack size acc as) : l ≠ [] := by
  induction as generalizing acc with
  | nil =>
      unfold pack at h
      split at h
      · cases h
      · next hacc => rwa [List.mem_singleton.mp h]
  | cons a as ih =>
      unfold pack at h
      split at h
      · rcases List.mem_cons.mp h with rfl | h
        · exact fun h0 => List.append_ne_nil_of_right_ne_nil _ (List.cons_ne_nil _ _) h0
        · exact ih h
      · exact ih h

/-- **All chunks but the last are full.** -/
theorem length_of_mem_dropLast_pack {size : ℕ} {acc as l : List α} (hacc : acc.length < size)
    (h : l ∈ (pack size acc as).dropLast) : l.length = size := by
  induction as generalizing acc with
  | nil =>
      unfold pack at h
      split at h <;> cases h
  | cons a as ih =>
      unfold pack at h
      split at h
      · next hle =>
          have hlen : (acc ++ [a]).length = size := by
            rw [List.length_append, List.length_singleton] at hle ⊢
            omega
          cases hp : pack size [] as with
          | nil => rw [hp] at h; cases h
          | cons p ps =>
              rw [hp, List.dropLast_cons_cons] at h
              rcases List.mem_cons.mp h with rfl | h
              · exact hlen
              · rw [← hp] at h
                exact ih (by rw [List.length_nil]; omega) h
      · next hlt => exact ih (by omega) h

/-! ### Chunked runs -/

/-- How a chunked run ends. -/
inductive Ending (σ ε δ : Type) where
  | finished (s : σ)
  /-- The callback failed. -/
  | refused (d : δ)
  /-- A step failed. -/
  | broken (e : ε)

/-- Scan one chunk after the other and hand over the rows of each.  The callback is a function of
everything handed over so far. -/
def emit (step : σ → α → Except ε (σ × β)) (callback : List (List β) → Except δ Unit) :
    σ → List (List β) → List (List α) → List (List β) × Ending σ ε δ
  | s, out, [] => (out, .finished s)
  | s, out, chunk :: chunks =>
      match scan step s chunk with
      | .error e => (out, .broken e)
      | .ok (s', bs) =>
          match callback (out ++ [bs]) with
          | .error d => (out ++ [bs], .refused d)
          | .ok () => emit step callback s' (out ++ [bs]) chunks

/-- What is handed over is the rows of the run over a first part of the inputs, however it ends. -/
theorem emit_eq_take (callback : List (List β) → Except δ Unit) (s : σ) (out : List (List β))
    (chunks : List (List α)) :
    ∃ batches n s', (emit step callback s out chunks).1 = out ++ batches ∧
      scan step s (chunks.flatten.take n) = .ok (s', batches.flatten) := by
  induction chunks generalizing s out with
  | nil => exact ⟨[], 0, s, (List.append_nil out).symm, rfl⟩
  | cons chunk chunks ih =>
      cases hc : scan step s chunk with
      | error e =>
          refine ⟨[], 0, s, ?_, rfl⟩
          simp only [emit, hc, List.append_nil]
      | ok r =>
          obtain ⟨s₁, bs⟩ := r
          cases hb : callback (out ++ [bs]) with
          | error d =>
              refine ⟨[bs], chunk.length, s₁, ?_, ?_⟩
              · simp only [emit, hc, hb]
              · rw [List.flatten_cons, List.take_append_length, List.flatten_singleton, hc]
          | ok u =>
              obtain ⟨batches, n, s', hout, hscan⟩ := ih s₁ (out ++ [bs])
              refine ⟨bs :: batches, chunk.length + n, s', ?_, ?_⟩
              · simp only [emit, hc, hb]
                rw [hout, List.append_assoc]
                rfl
              · rw [List.flatten_cons, List.take_length_add_append, scan_append_of_ok hc, hscan]
                rfl

/-- A chunked run that finishes ran over all inputs, and handed over their rows. -/
theorem scan_of_emit_finished {callback : List (List β) → Except δ Unit} {s s' : σ}
    {out : List (List β)} {chunks : List (List α)}
    (h : (emit step callback s out chunks).2 = .finished s') :
    ∃ batches, (emit step callback s out chunks).1 = out ++ batches ∧
      scan step s chunks.flatten = .ok (s', batches.flatten) := by
  induction chunks generalizing s out with
  | nil =>
      cases h
      exact ⟨[], (List.append_nil out).symm, rfl⟩
  | cons chunk chunks ih =>
      cases hc : scan step s chunk with
      | error e =>
          simp only [emit, hc] at h
          cases h
      | ok r =>
          cases hb : callback (out ++ [r.2]) with
          | error d =>
              simp only [emit, hc, hb] at h
              cases h
          | ok u =>
              simp only [emit, hc, hb] at h
              obtain ⟨batches, hout, hscan⟩ := ih h
              refine ⟨r.2 :: batches, ?_, ?_⟩
              · simp only [emit, hc, hb]
                rw [hout, List.append_assoc]
                rfl
              · rw [List.flatten_cons, scan_append_of_ok hc, hscan]
                rfl

/-- **A chunked run over any chunks is decided by the one run over all inputs**: there are batches,
one per chunk and of its length, that make up the rows of the run; they are handed over one by one
until the callback refuses. -/
theorem emit_eq {s s' : σ} {rows : List β} {chunks : List (List α)}
    (h : scan step s chunks.flatten = .ok (s', rows)) :
    ∃ batches : List (List β),
      batches.flatten = rows ∧ batches.map List.length = chunks.map List.length ∧
      ∀ (γ : Type) (callback : List (List β) → Except γ Unit) (out : List (List β)),
        ((∀ j, 0 < j → j ≤ batches.length → callback (out ++ batches.take j) = .ok ()) →
          emit step callback s out chunks = (out ++ batches, .finished s')) ∧
        (∀ k d, k < batches.length →
          (∀ j, 0 < j → j ≤ k → callback (out ++ batches.take j) = .ok ()) →
          callback (out ++ batches.take (k + 1)) = .error d →
          emit step callback s out chunks = (out ++ batches.take (k + 1), .refused d)) := by
  induction chunks generalizing s rows with
  | nil =>
      cases h
      refine ⟨[], rfl, rfl, fun γ callback out => ⟨fun _ => ?_, fun k d hk => ?_⟩⟩
      · rw [List.append_nil]; rfl
      · exact absurd hk (Nat.not_lt_zero _)
  | cons chunk chunks ih =>
      rw [List.flatten_cons] at h
      cases hc : scan step s chunk with
      | error e => rw [scan_append_of_error hc] at h; cases h
      | ok r =>
          obtain ⟨s₁, bs⟩ := r
          rw [scan_append_of_ok hc] at h
          cases hr : scan step s₁ chunks.flatten with
          | error e => rw [hr] at h; cases h
          | ok q =>
              rw [hr] at h
              cases h
              obtain ⟨batches, hflat, hlen, hemit⟩ := ih hr
              refine ⟨bs :: batches, ?_, ?_, fun γ callback out => ⟨fun hok => ?_, ?_⟩⟩
              · rw [List.flatten_cons, hflat]
              · rw [List.map_cons, List.map_cons, hlen, length_of_scan hc]
              · have hfirst : callback (out ++ [bs]) = .ok () :=
                  hok 1 Nat.one_pos (by rw [List.length_cons]; omega)
                simp only [emit, hc, hfirst]
                rw [(hemit γ callback (out ++ [bs])).1, List.append_assoc]
                · rfl
                · intro j hj hle
                  rw [List.append_assoc]
                  exact hok (j + 1) (Nat.succ_pos j) (by rw [List.length_cons]; omega)
              · intro k d hk hok hd
                cases k with
                | zero =>
                    have hd' : callback (out ++ [bs]) = .error d := hd
                    simp only [emit, hc, hd']
                    rfl
                | succ k =>
                    have hfirst : callback (out ++ [bs]) = .ok () :=
                      hok 1 Nat.one_pos (by omega)
                    simp only [emit, hc, hfirst]
                    rw [(hemit γ callback (out ++ [bs])).2 k d, List.append_assoc]
                    · rfl
                    · rw [List.length_cons] at hk
                      omega
                    · intro j hj hle
                      rw [List.append_assoc]
                      exact hok (j + 1) (Nat.succ_pos j) (by omega)
                    · rw [List.append_assoc]
                      exact hd

end ChunkedRun
