/-
**Dissectors.**

A dissector reads bytes, writes columns and pushes layer names, and may give up.  What it wrote
before giving up stays written, and the caller goes on from there: so a dissector is a state
transformer whose result is a value or a `DissectError`, and the state comes back in both cases.
Beside that, a dissector may panic; then there is no state to go on from.

An application dissector sees its own columns and the protocol stack, nothing else: its state is a
`Sink` of the column group it writes.  `zoom` lets it run on a larger state.

Main definitions:

* `Dissect` — the monad;
* `Sink`, `Sink.layer`, `col` — columns and stack, and the two ways to write to them;
* `zoom` — run a dissector on a part of the state;
* `attempt` — run a dissector and keep its result as a value.

Main results:

* `zoom_exec` — a zoomed dissector changes its part of the state only;
* `exec_bind_eq_ok` — running two dissectors one after the other.
-/

import PcapRacer.Cur
import PcapRacer.Packet

set_option relaxedAutoImplicit false
set_option autoImplicit false

namespace PcapRacer

/-- A dissector on the state `σ`. -/
abbrev Dissect (σ α : Type) := ExceptT DissectError (StateT σ (Except Panic)) α

/-- What running a dissector gives: a panic, or a result and the state it left. -/
abbrev Outcome (σ α : Type) := Except Panic (Except DissectError α × σ)

section Except

variable {ε α β : Type} {x : Except ε α}

theorem bind_eq_ok_iff {f : α → Except ε β} {b : β} :
    (x >>= f) = .ok b ↔ ∃ a, x = .ok a ∧ f a = .ok b := by
  cases x with
  | error e =>
      constructor
      · intro h
        cases h
      · rintro ⟨a, h, -⟩
        cases h
  | ok a =>
      constructor
      · exact fun h => ⟨a, rfl, h⟩
      · rintro ⟨a', h, h'⟩
        cases h
        exact h'

theorem bind_eq_error_iff {f : α → Except ε β} {e : ε} :
    (x >>= f) = .error e ↔ x = .error e ∨ ∃ a, x = .ok a ∧ f a = .error e := by
  cases x with
  | error e' =>
      constructor
      · intro h
        cases h
        exact .inl rfl
      · rintro (h | ⟨a, h, -⟩) <;> cases h
        rfl
  | ok a =>
      constructor
      · exact fun h => .inr ⟨a, rfl, h⟩
      · rintro (h | ⟨a', h, h'⟩) <;> cases h
        exact h'

theorem bind_of_ok {a : α} (h : x = .ok a) (f : α → Except ε β) : (x >>= f) = f a := by
  rw [h]
  rfl

theorem bind_of_error {e : ε} (h : x = .error e) (f : α → Except ε β) : (x >>= f) = .error e := by
  rw [h]
  rfl

/-- Converting a result neither adds a failure nor removes one. -/
theorem exists_error_bind_pure_iff {f : α → β} :
    (∃ e, (x >>= fun a => pure (f a)) = .error e) ↔ ∃ e, x = .error e := by
  cases x with
  | error e => exact ⟨fun _ => ⟨e, rfl⟩, fun _ => ⟨e, rfl⟩⟩
  | ok a => constructor <;> rintro ⟨e, he⟩ <;> cases he

theorem map_eq_ok_iff {f : α → β} {b : β} : x.map f = .ok b ↔ ∃ a, x = .ok a ∧ f a = b := by
  cases x with
  | error e =>
      constructor
      · intro h
        cases h
      · rintro ⟨a, h, -⟩
        cases h
  | ok a =>
      constructor
      · exact fun h => ⟨a, rfl, Except.ok.inj h⟩
      · rintro ⟨a', h, rfl⟩
        cases h
        rfl

theorem map_eq_error_iff {f : α → β} {e : ε} : x.map f = .error e ↔ x = .error e := by
  cases x with
  | error e' =>
      constructor <;> intro h <;> cases h <;> rfl
  | ok a =>
      constructor <;> intro h <;> cases h

end Except

section Monad

variable {σ τ α : Type}

/-- Run a dissector from a state. -/
def Dissect.exec (d : Dissect σ α) (s : σ) : Outcome σ α := (ExceptT.run d).run s

instance : MonadLift (Except DissectError) (Dissect σ) where
  monadLift x := ExceptT.mk (pure x)

instance : MonadLift (Except Panic) (Dissect σ) where
  monadLift x := ExceptT.lift (StateT.lift x)

/-- Run a dissector and keep its result as a value; the state is the one it left. -/
def attempt (d : Dissect σ α) : Dissect σ (Except DissectError α) :=
  ExceptT.mk ((ExceptT.run d).map .ok)

/-- Run a dissector on a part of the state. -/
def zoom (get : τ → σ) (set : σ → τ → τ) (d : Dissect σ α) : Dissect τ α :=
  ExceptT.mk fun t => (d.exec (get t)).map fun r => (r.1, set r.2 t)

/-- A zoomed dissector changes its part of the state only. -/
theorem zoom_exec (get : τ → σ) (set : σ → τ → τ) (d : Dissect σ α) (t : τ) :
    (zoom get set d).exec t = (d.exec (get t)).map fun r => (r.1, set r.2 t) := rfl

end Monad

/-! ### Columns and stack -/

/-- A group of columns and the protocol stack. -/
structure Sink (C : Type) where
  stack : List Layer
  cols : C

section Sink

variable {C : Type}

/-- Push a layer name. -/
def Sink.layer (l : Layer) : Dissect (Sink C) Unit :=
  modify fun s => { s with stack := s.stack ++ [l] }

/-- Write columns. -/
def col (f : C → C) : Dissect (Sink C) Unit := modify fun s => { s with cols := f s.cols }

/-- Read the columns. -/
def cols : Dissect (Sink C) C := do return (← get).cols

/-- Give up. -/
def giveUp {σ α : Type} (e : DissectError) : Dissect σ α := throw e

end Sink

/-! ### Running a dissector step by step -/

section Exec

variable {σ α β C : Type}

theorem exec_bind (d : Dissect σ α) (f : α → Dissect σ β) (s : σ) :
    (d >>= f).exec s =
      match d.exec s with
      | .error p => .error p
      | .ok (.ok a, s') => (f a).exec s'
      | .ok (.error e, s') => .ok (.error e, s') := by
  change (((ExceptT.run d).run s >>= fun r => (ExceptT.bindCont f r.1).run r.2) :
    Except Panic (Except DissectError β × σ)) = _
  rw [show (ExceptT.run d).run s = d.exec s from rfl]
  rcases d.exec s with p | ⟨x, s'⟩
  · rfl
  · cases x <;> rfl

/-- A sequence of two dissectors runs to its end when both do, or when the first gives up. -/
theorem exec_bind_eq_ok {d : Dissect σ α} {f : α → Dissect σ β} {s s' : σ}
    {r : Except DissectError β} :
    (d >>= f).exec s = .ok (r, s') ↔
      (∃ a s₁, d.exec s = .ok (.ok a, s₁) ∧ (f a).exec s₁ = .ok (r, s')) ∨
      (∃ e, d.exec s = .ok (.error e, s') ∧ r = .error e) := by
  rw [exec_bind]
  constructor
  · intro h
    rcases hd : d.exec s with p | ⟨x, s₁⟩
    · rw [hd] at h
      cases h
    · rw [hd] at h
      cases x with
      | ok a => exact .inl ⟨a, s₁, rfl, h⟩
      | error e =>
          cases h
          exact .inr ⟨e, rfl, rfl⟩
  · rintro (⟨a, s₁, hd, hf⟩ | ⟨e, hd, rfl⟩)
    · rw [hd]
      exact hf
    · rw [hd]

@[simp] theorem exec_pure (a : α) (s : σ) : (pure a : Dissect σ α).exec s = .ok (.ok a, s) := rfl

@[simp] theorem exec_giveUp (e : DissectError) (s : σ) :
    (giveUp e : Dissect σ α).exec s = .ok (.error e, s) := rfl

@[simp] theorem exec_liftError (x : Except DissectError α) (s : σ) :
    (liftM x : Dissect σ α).exec s = .ok (x, s) := rfl

@[simp] theorem exec_liftPanic (x : Except Panic α) (s : σ) :
    (liftM x : Dissect σ α).exec s = x.map fun a => (.ok a, s) := by
  cases x <;> rfl

@[simp] theorem exec_layer (l : Layer) (s : Sink C) :
    (Sink.layer l).exec s = .ok (.ok (), { s with stack := s.stack ++ [l] }) := rfl

@[simp] theorem exec_col (f : C → C) (s : Sink C) :
    (col f).exec s = .ok (.ok (), { s with cols := f s.cols }) := rfl

@[simp] theorem exec_cols (s : Sink C) : (cols : Dissect (Sink C) C).exec s = .ok (.ok s.cols, s) :=
  rfl

/-- Writing columns, and then something else. -/
theorem exec_col_bind (f : C → C) (k : Unit → Dissect (Sink C) β) (s : Sink C) :
    (col f >>= k).exec s = (k ()).exec { s with cols := f s.cols } := by
  rw [exec_bind, exec_col]

/-- A string operation, and then something else. -/
theorem exec_panic_bind_eq_ok {x : Except Panic α} {k : α → Dissect σ β} {s s' : σ}
    {r : Except DissectError β} :
    ((liftM x : Dissect σ α) >>= k).exec s = .ok (r, s') ↔
      ∃ a, x = .ok a ∧ (k a).exec s = .ok (r, s') := by
  rw [exec_bind, exec_liftPanic]
  cases x with
  | error p =>
      constructor
      · intro h
        cases h
      · rintro ⟨a, ha, -⟩
        cases ha
  | ok a =>
      constructor
      · exact fun h => ⟨a, rfl, h⟩
      · rintro ⟨a', ha, h⟩
        cases ha
        exact h

/-- A string operation whose result is written to a column. -/
theorem exec_panic_col_bind (x : Except Panic α) (f : α → C → C) (k : Dissect (Sink C) β)
    (s : Sink C) :
    ((liftM x : Dissect (Sink C) α) >>= fun a => col (f a) >>= fun _ => k).exec s =
      match x with
      | .error p => .error p
      | .ok a => k.exec { s with cols := f a s.cols } := by
  rw [exec_bind, exec_liftPanic]
  cases x with
  | error p => rfl
  | ok a => exact exec_col_bind (f a) (fun _ => k) s

@[simp] theorem exec_attempt (d : Dissect σ α) (s : σ) :
    (attempt d).exec s = (d.exec s).map fun r => (.ok r.1, r.2) := by
  change (((ExceptT.run d).run s >>= fun r => pure (.ok r.1, r.2)) :
    Except Panic (Except DissectError (Except DissectError α) × σ)) = _
  rw [show (ExceptT.run d).run s = d.exec s from rfl]
  rcases d.exec s with p | r <;> rfl

end Exec

/-! ### What a dissector leaves alone -/

section Keeps

variable {σ τ α β γ C : Type}

/-- The dissector leaves this part of the state alone. -/
def Dissect.Keeps (d : Dissect σ α) (part : σ → γ) : Prop :=
  ∀ s r s', d.exec s = .ok (r, s') → part s' = part s

/-- The dissector runs to its end, and leaves this part of the state alone. -/
def Dissect.Passes (d : Dissect σ α) (part : σ → γ) : Prop :=
  ∀ s r s', d.exec s = .ok (r, s') → (∃ a, r = .ok a) ∧ part s' = part s

variable {part : σ → γ}

theorem keeps_bind {d : Dissect σ α} {f : α → Dissect σ β} (hd : d.Keeps part)
    (hf : ∀ a, (f a).Keeps part) : (d >>= f).Keeps part := by
  intro s r s' h
  obtain ⟨a, s₁, h₁, h₂⟩ | ⟨e, h₁, -⟩ := exec_bind_eq_ok.mp h
  · exact (hf a s₁ r s' h₂).trans (hd s _ s₁ h₁)
  · exact hd s _ s' h₁

theorem passes_bind {d : Dissect σ α} {f : α → Dissect σ β} (hd : d.Passes part)
    (hf : ∀ a, (f a).Passes part) : (d >>= f).Passes part := by
  intro s r s' h
  obtain ⟨a, s₁, h₁, h₂⟩ | ⟨e, h₁, -⟩ := exec_bind_eq_ok.mp h
  · obtain ⟨hr, hpart⟩ := hf a s₁ r s' h₂
    exact ⟨hr, hpart.trans (hd s _ s₁ h₁).2⟩
  · obtain ⟨⟨a, ha⟩, -⟩ := hd s _ s' h₁
    cases ha

theorem keeps_pure (a : α) : (pure a : Dissect σ α).Keeps part := by
  rintro s r s' h
  cases h
  rfl

theorem keeps_ite {p : Prop} [Decidable p] {d d' : Dissect σ α} (hd : d.Keeps part)
    (hd' : d'.Keeps part) : (if p then d else d').Keeps part := by
  split
  · exact hd
  · exact hd'

/-- A step that is left out when a condition fails. -/
theorem passes_optional {p : Prop} [Decidable p] {d : Dissect σ α} {next : Dissect σ β}
    (hd : d.Passes part) (hnext : next.Passes part) :
    (if p then d >>= fun _ => next else next).Passes part := by
  split
  · exact passes_bind hd fun _ => hnext
  · exact hnext

theorem passes_pure (a : α) : (pure a : Dissect σ α).Passes part := by
  rintro s r s' h
  cases h
  exact ⟨⟨a, rfl⟩, rfl⟩

theorem keeps_liftError (x : Except DissectError α) : (liftM x : Dissect σ α).Keeps part := by
  rintro s r s' h
  cases h
  rfl

theorem passes_liftPanic (x : Except Panic α) : (liftM x : Dissect σ α).Passes part := by
  rintro s r s' h
  rw [exec_liftPanic] at h
  obtain ⟨a, -, he⟩ := map_eq_ok_iff.mp h
  cases he
  exact ⟨⟨a, rfl⟩, rfl⟩

/-- Writing columns keeps what the written function keeps. -/
theorem passes_col {view : C → γ} {f : C → C} (h : ∀ c, view (f c) = view c) :
    (col f).Passes fun s : Sink C => view s.cols := by
  rintro s r s' he
  cases he
  exact ⟨⟨(), rfl⟩, h s.cols⟩

/-- The dissector does the reads of `p`, gives up where they fail, and goes on as `next` with what
they found; until then it leaves this part of the state alone. -/
def Dissect.Follows (d : Dissect σ β) (part : σ → γ) (p : Except DissectError α)
    (next : α → Dissect σ β) : Prop :=
  ∀ s r s', d.exec s = .ok (r, s') →
    (∃ e, p = .error e ∧ r = .error e ∧ part s' = part s) ∨
    (∃ a s₁, p = .ok a ∧ part s₁ = part s ∧ (next a).exec s₁ = .ok (r, s'))

theorem follows_pure (a : α) (next : α → Dissect σ β) :
    (next a).Follows part (pure a) next := fun s _ _ h => .inr ⟨a, s, rfl, rfl, h⟩

/-- A read. -/
theorem follows_read {x : Except DissectError τ} {f : τ → Dissect σ β}
    {p : τ → Except DissectError α} {next : α → Dissect σ β}
    (h : ∀ a, (f a).Follows part (p a) next) :
    ((liftM x : Dissect σ τ) >>= f).Follows part (x >>= p) next := by
  intro s r s' he
  rw [exec_bind, exec_liftError] at he
  cases x with
  | ok a => exact h a s r s' he
  | error e =>
      cases he
      exact .inl ⟨e, rfl, rfl, rfl⟩

/-- Something else, between reads. -/
theorem follows_keeps {d : Dissect σ τ} {f : τ → Dissect σ β} {p : Except DissectError α}
    {next : α → Dissect σ β} (hd : d.Passes part) (h : ∀ a, (f a).Follows part p next) :
    (d >>= f).Follows part p next := by
  intro s r s' he
  obtain ⟨a, s₁, h₁, h₂⟩ | ⟨e, h₁, -⟩ := exec_bind_eq_ok.mp he
  · have hpart := (hd s _ s₁ h₁).2
    obtain ⟨e, hp, hr, hs⟩ | ⟨b, s₂, hp, hs, hnext⟩ := h a s₁ r s' h₂
    · exact .inl ⟨e, hp, hr, hs.trans hpart⟩
    · exact .inr ⟨b, s₂, hp, hs.trans hpart, hnext⟩
  · obtain ⟨⟨a, ha⟩, -⟩ := hd s _ s' h₁
    cases ha

/-- A zoomed dissector keeps what its part of the state does not touch. -/
theorem keeps_zoom {get : τ → σ} {set : σ → τ → τ} {d : Dissect σ α} {view : τ → γ}
    (h : ∀ s t, view (set s t) = view t) : (zoom get set d).Keeps view := by
  rintro t r t' he
  rw [zoom_exec] at he
  obtain ⟨x, -, hx⟩ := map_eq_ok_iff.mp he
  cases hx
  exact h _ _

end Keeps

end PcapRacer
