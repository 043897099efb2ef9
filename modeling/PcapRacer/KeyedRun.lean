/-
**Keyed machines, seen from one key.**

A machine answers inputs that each carry a key.  It is *keyed* when it answers an input from what
stands under the input's key, and leaves what stands under every other key alone.  Whatever else the
machine keeps, counters or the place of an entry, then shows in no answer: the answers to the inputs
of one key are those of a machine that is given these inputs only.

Main definitions:

* `KeyedRun.runs`, `KeyedRun.answers` — the state after a run, and the answers along it;
* `KeyedRun.Keyed` — a keyed machine, on the inputs that it serves;
* `KeyedRun.AllServed` — a run in which every input is served.

Main results:

* `KeyedRun.allServed_iff` — served at every step;
* `KeyedRun.Keyed.answers_filter` — **one key does not see the others**.
-/

import Mathlib.Data.List.Basic

set_option relaxedAutoImplicit false
set_option autoImplicit false

namespace KeyedRun

variable {σ α β κ ε : Type}

section Runs

variable (step : σ → α → β × σ)

/-- The state after a run. -/
def runs (s : σ) (as : List α) : σ := as.foldl (fun s a => (step s a).2) s

/-- The answers along a run, each with its input. -/
def answers : σ → List α → List (α × β)
  | _, [] => []
  | s, a :: as => (a, (step s a).1) :: answers (step s a).2 as

/-- Every input of the run is served when its turn comes. -/
def AllServed (Serves : σ → α → Prop) : σ → List α → Prop
  | _, [] => True
  | s, a :: as => Serves s a ∧ AllServed Serves (step s a).2 as

theorem allServed_iff {Serves : σ → α → Prop} {s : σ} {as : List α} :
    AllServed step Serves s as ↔
      ∀ pre a post, as = pre ++ a :: post → Serves (runs step s pre) a := by
  induction as generalizing s with
  | nil => simp [AllServed]
  | cons a as ih =>
      rw [AllServed, ih]
      constructor
      · rintro ⟨ha, has⟩ pre b post heq
        cases pre with
        | nil =>
            simp only [List.nil_append, List.cons.injEq] at heq
            obtain ⟨rfl, rfl⟩ := heq
            exact ha
        | cons c pre =>
            simp only [List.cons_append, List.cons.injEq] at heq
            obtain ⟨rfl, heq⟩ := heq
            exact has pre b post heq
      · intro h
        refine ⟨h [] a as rfl, fun pre b post heq => ?_⟩
        exact h (a :: pre) b post (by simp [heq])

/-- What every step keeps, and serving follows from, serves a whole run. -/
theorem allServed_of_invariant {Serves : σ → α → Prop} {I : σ → Prop} {as : List α}
    (hserves : ∀ s, I s → ∀ a ∈ as, Serves s a) (hstep : ∀ s, I s → ∀ a ∈ as, I (step s a).2)
    {s : σ} (hs : I s) : AllServed step Serves s as := by
  induction as generalizing s with
  | nil => trivial
  | cons a as ih =>
      refine ⟨hserves s hs a (by simp), ih ?_ ?_ (hstep s hs a (by simp))⟩
      · exact fun s hs b hb => hserves s hs b (List.mem_cons_of_mem a hb)
      · exact fun s hs b hb => hstep s hs b (List.mem_cons_of_mem a hb)

end Runs

/-- Under its key an input is answered, and the entry replaced, by `serve`; other keys are not
touched. -/
structure Keyed (step : σ → α → β × σ) (key : α → κ) (view : σ → κ → ε) (serve : ε → α → β × ε)
    (Serves : σ → α → Prop) : Prop where
  answer : ∀ s a, Serves s a → (step s a).1 = (serve (view s (key a)) a).1
  own : ∀ s a, Serves s a → view (step s a).2 (key a) = (serve (view s (key a)) a).2
  other : ∀ s a k, Serves s a → k ≠ key a → view (step s a).2 k = view s k

/-- **One key does not see the others**: from states that agree on the key, the answers to its inputs
are those of the run that has no other inputs. -/
theorem Keyed.answers_filter [DecidableEq κ] {step : σ → α → β × σ} {key : α → κ}
    {view : σ → κ → ε} {serve : ε → α → β × ε} {Serves : σ → α → Prop}
    (h : Keyed step key view serve Serves) (k : κ) {s s' : σ} {as : List α}
    (hserved : AllServed step Serves s as)
    (hserved' : AllServed step Serves s' (as.filter fun a => key a = k))
    (hview : view s k = view s' k) :
    (answers step s as).filter (fun p => key p.1 = k) =
      answers step s' (as.filter fun a => key a = k) := by
  induction as generalizing s s' with
  | nil => rfl
  | cons a as ih =>
      obtain ⟨ha, has⟩ := hserved
      by_cases hk : key a = k
      · -- an input of the key is answered alike, and leaves the same behind
        rw [List.filter_cons_of_pos (by simpa using hk)] at hserved' ⊢
        obtain ⟨ha', has'⟩ := hserved'
        have hsame : view s (key a) = view s' (key a) := by rw [hk, hview]
        have hanswer : (step s a).1 = (step s' a).1 := by
          rw [h.answer s a ha, h.answer s' a ha', hsame]
        have hnext : view (step s a).2 k = view (step s' a).2 k := by
          rw [← hk, h.own s a ha, h.own s' a ha', hsame]
        rw [answers, List.filter_cons_of_pos (by simpa using hk), answers, hanswer,
          ih has has' hnext]
      · -- an input of another key changes nothing under this one
        rw [List.filter_cons_of_neg (by simpa using hk)] at hserved' ⊢
        rw [answers, List.filter_cons_of_neg (by simpa using hk)]
        refine ih has hserved' ?_
        rw [h.other s a k ha (Ne.symm hk), hview]

end KeyedRun
