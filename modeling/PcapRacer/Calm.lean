/-
**Dissectors that do not panic.**

A dissector panics when it cuts a text inside a character, and in no other way.  Reading, writing
columns and giving up are calm, and so is a cut that succeeds; a sequence is calm when both parts
are.

Main definitions:

* `Dissect.Calm` — the dissector does not panic.

Main results:

* `calm_bind`, `calm_read`, `calm_cut` — **one step, and what follows it**;
* `calm_shorten`, `calm_cap` — shortening a text.
-/

import PcapRacer.Dissect
import PcapRacer.TextTame

set_option relaxedAutoImplicit false
set_option autoImplicit false

namespace PcapRacer

section Calm

variable {σ τ α β C : Type}

/-- The dissector does not panic. -/
def Dissect.Calm (d : Dissect σ α) : Prop := ∀ s q, d.exec s ≠ .error q

theorem calm_pure (a : α) : (pure a : Dissect σ α).Calm := fun _ _ h => by cases h

theorem calm_bind {d : Dissect σ α} {f : α → Dissect σ β} (hd : d.Calm) (hf : ∀ a, (f a).Calm) :
    (d >>= f).Calm := by
  intro s q h
  rw [exec_bind] at h
  rcases hx : d.exec s with q' | ⟨e | a, s'⟩
  · exact hd s q' hx
  · rw [hx] at h
    cases h
  · rw [hx] at h
    exact hf a s' q h

theorem calm_pure_bind {a : α} {f : α → Dissect σ β} (h : (f a).Calm) :
    ((pure a : Dissect σ α) >>= f).Calm := fun s q he => h s q he

theorem calm_liftError (x : Except DissectError α) : (liftM x : Dissect σ α).Calm :=
  fun _ _ h => by cases h

/-- A read, and what is done with what it found. -/
theorem calm_read {x : Except DissectError α} {f : α → Dissect σ β}
    (h : ∀ a, x = .ok a → (f a).Calm) : ((liftM x : Dissect σ α) >>= f).Calm := by
  cases x with
  | error e =>
      intro s q he
      cases he
  | ok a => exact fun s q he => h a rfl s q he

theorem calm_liftPanic {x : Except Panic α} {a : α} (h : x = .ok a) :
    (liftM x : Dissect σ α).Calm := by
  intro s q hx
  rw [exec_liftPanic, h] at hx
  cases hx

/-- A string operation that succeeds, and what is done with its result. -/
theorem calm_cut {x : Except Panic α} {f : α → Dissect σ β} (h : ∃ a, x = .ok a ∧ (f a).Calm) :
    ((liftM x : Dissect σ α) >>= f).Calm := by
  obtain ⟨a, hx, hf⟩ := h
  rw [hx]
  exact fun s q he => hf s q he

theorem calm_ite {p : Prop} [Decidable p] {d d' : Dissect σ α} (hd : p → d.Calm)
    (hd' : ¬ p → d'.Calm) : (if p then d else d').Calm := by
  split
  · next h => exact hd h
  · next h => exact hd' h

theorem calm_giveUp (e : DissectError) : (giveUp e : Dissect σ α).Calm := fun _ _ h => by cases h

theorem calm_col (f : C → C) : (col f).Calm := fun _ _ h => by cases h

theorem calm_cols : (cols : Dissect (Sink C) C).Calm := fun _ _ h => by cases h

theorem calm_layer (l : Layer) : (Sink.layer l : Dissect (Sink C) Unit).Calm :=
  fun _ _ h => by cases h

theorem calm_attempt {d : Dissect σ α} (h : d.Calm) : (attempt d).Calm := by
  intro s q he
  rw [exec_attempt, map_eq_error_iff] at he
  exact h s q he

theorem calm_zoom {get : τ → σ} {set : σ → τ → τ} {d : Dissect σ α} (h : d.Calm) :
    (zoom get set d).Calm := by
  intro t q he
  rw [zoom_exec, map_eq_error_iff] at he
  exact h _ q he

theorem calm_forM {l : List α} {f : α → Dissect σ PUnit} (h : ∀ a ∈ l, (f a).Calm) :
    (l.forM f).Calm := by
  induction l with
  | nil => exact calm_pure _
  | cons a l ih =>
      change (f a >>= fun _ => l.forM f).Calm
      exact calm_bind (h a List.mem_cons_self) fun _ => ih fun b hb => h b (List.mem_cons_of_mem _ hb)

theorem calm_mapM {o : Option α} {f : α → Dissect σ β} (h : ∀ a, o = some a → (f a).Calm) :
    (o.mapM f).Calm := by
  cases o with
  | none => exact calm_pure _
  | some a =>
      rw [Option.mapM_some]
      exact calm_bind (h a rfl) fun _ => calm_pure _

/-- **Shortening a text**, when that is possible. -/
theorem calm_shorten {s : Text} {max : ℕ} (h : s.Shortens max) :
    (liftM (cap s max) : Dissect σ Text).Calm :=
  calm_liftPanic (exists_cap_iff.mpr h).choose_spec

/-- **A tame text is shortened calmly.** -/
theorem calm_cap {s : Text} {max : ℕ} (h : s.Tame max) : (liftM (cap s max) : Dissect σ Text).Calm :=
  calm_shorten h.shortens

/-- So is a text that may be missing. -/
theorem calm_mapM_cap {s : Option Text} {max : ℕ} (h : ∀ t, s = some t → t.Shortens max) :
    (liftM (s.mapM fun t => cap t max) : Dissect σ (Option Text)).Calm := by
  cases s with
  | none => exact calm_liftPanic (a := none) rfl
  | some t =>
      obtain ⟨u, hu⟩ := exists_cap_iff.mpr (h t rfl)
      refine calm_liftPanic (a := some u) ?_
      rw [Option.mapM_some, hu]
      rfl

end Calm

end PcapRacer
