/-
**The panic hook of overlapping runs.**

A run replaces the process panic hook with one that does nothing, and puts the old one back when it
ends.  A counter tells the first run that starts from those that start while another is in flight,
and the last run that ends from the others.  The counter, the slot of the saved hook and the hook
itself are three pieces of shared state; `install` and `drop` touch them one at a time, so the steps
of overlapping runs interleave.

Each run is in a phase of `install` or `drop`.  A schedule is the sequence of runs that take the next
step; every interleaving of any number of runs is a schedule.  The counter is a natural number: there
are never as many runs as its machine word can count.

Main definitions:

* `HookPhase`, `HookState` — where a run stands, and the shared state;
* `HookState.step`, `HookState.exec` — the next step of a run, and a schedule;
* `HookState.Quiet` — no guard is alive, and no `install` or `drop` is in progress;
* `HookState.Clear` — the next step of a run does not start it in the middle of the last `drop`.

Main results:

* `HookState.Inv.step` — what every clear step keeps;
* `HookState.exec_restores` — **every clear schedule restores the hook**;
* `HookState.exec_loses` — a schedule that is not clear, and loses the hook.
-/

import Mathlib.Data.List.Basic
import Mathlib.Data.List.Induction
import PcapRacer.Pieces

set_option relaxedAutoImplicit false
set_option autoImplicit false

namespace PcapRacer

/-- Where a run stands.  `H` is the type of hooks. -/
inductive HookPhase (H : Type) where
  /-- Not started. -/
  | idle
  /-- `install` counted from zero; the hook is taken next. -/
  | taking
  /-- The hook that was taken is saved next. -/
  | saving (prev : H)
  /-- The hook that does nothing is set next. -/
  | silencing
  /-- The guard is alive. -/
  | alive
  /-- `drop` counted down to zero; the saved hook is taken out next. -/
  | restoring
  /-- The saved hook is set next. -/
  | resetting (prev : H)
  /-- The guard is dropped. -/
  | done
  deriving DecidableEq

namespace HookPhase

variable {H : Type}

/-- The run is counted. -/
def counted : HookPhase H → Bool
  | taking | saving _ | silencing | alive => true
  | _ => false

/-- The run is between two steps of `install` or of `drop`. -/
def busy : HookPhase H → Bool
  | taking | saving _ | silencing | restoring | resetting _ => true
  | _ => false

/-- The run is in the middle of the `drop` that counted down to zero. -/
def dropping : HookPhase H → Bool
  | restoring | resetting _ => true
  | _ => false

end HookPhase

/-- The shared state, and the phase of each run. -/
structure HookState (H : Type) where
  depth : ℕ
  saved : Option H
  hook : H
  runs : List (HookPhase H)
  deriving DecidableEq

namespace HookState

variable {H : Type}

/-- Nothing has run yet, and `hook` is installed. -/
def start (hook : H) (count : ℕ) : HookState H :=
  { depth := 0, saved := none, hook, runs := List.replicate count .idle }

section Step

/- The hook that does nothing, and the one that taking a hook leaves in its place. -/
variable (noop dflt : H)

/-- The next step of run `i`: an atomic operation on the counter, a critical section of the slot, or
a change of the hook. -/
def step (s : HookState H) (i : ℕ) : HookState H :=
  match s.runs[i]? with
  | some .idle =>
      let phase := if s.depth = 0 then .taking else .alive
      { s with depth := s.depth + 1, runs := s.runs.set i phase }
  | some .taking => { s with hook := dflt, runs := s.runs.set i (.saving s.hook) }
  | some (.saving prev) => { s with saved := some prev, runs := s.runs.set i .silencing }
  | some .silencing => { s with hook := noop, runs := s.runs.set i .alive }
  | some .alive =>
      let phase := if s.depth = 1 then .restoring else .done
      { s with depth := s.depth - 1, runs := s.runs.set i phase }
  | some .restoring =>
      match s.saved with
      | some prev => { s with saved := none, runs := s.runs.set i (.resetting prev) }
      | none => { s with runs := s.runs.set i .done }
  | some (.resetting prev) => { s with hook := prev, runs := s.runs.set i .done }
  | some .done | none => s

/-- The state after a schedule. -/
def exec (s : HookState H) (schedule : List ℕ) : HookState H := schedule.foldl (step noop dflt) s

theorem exec_concat (s : HookState H) (schedule : List ℕ) (i : ℕ) :
    s.exec noop dflt (schedule ++ [i]) = (s.exec noop dflt schedule).step noop dflt i := by
  simp [exec]

end Step

/-- No guard is alive, and no `install` or `drop` is in progress. -/
def Quiet (s : HookState H) : Prop := ∀ p ∈ s.runs, p = .idle ∨ p = .done

instance [DecidableEq H] (s : HookState H) : Decidable s.Quiet :=
  inferInstanceAs (Decidable (∀ _ ∈ _, _))

/-- If the next step of run `i` is to count from zero, no run is in the middle of the `drop` that
counted down to zero. -/
def Clear (s : HookState H) (i : ℕ) : Prop :=
  s.runs[i]? = some .idle → s.depth = 0 → ∀ p ∈ s.runs, p.dropping = false

instance [DecidableEq H] (s : HookState H) (i : ℕ) : Decidable (s.Clear i) :=
  inferInstanceAs (Decidable (_ → _ → _))

/-! ### The invariant -/

/-- What a run in the middle of `install` or `drop` knows about the shared state. -/
def Knows (orig : H) (s : HookState H) : HookPhase H → Prop
  | .taking => 0 < s.depth ∧ s.hook = orig
  | .saving prev => 0 < s.depth ∧ prev = orig
  | .silencing => 0 < s.depth ∧ s.saved = some orig
  | .restoring => s.depth = 0 ∧ s.saved = some orig
  | .resetting prev => s.depth = 0 ∧ prev = orig
  | _ => False

/-- Nobody is busy but perhaps run `i`. -/
def OnlyBusy (s : HookState H) (i : ℕ) : Prop :=
  ∀ (j : ℕ) (q : HookPhase H), j ≠ i → s.runs[j]? = some q → q.busy = false

/-- Nobody is busy: the hook is in place and nothing is counted, or it is saved. -/
def Rests (orig : H) (s : HookState H) : Prop :=
  (∀ (j : ℕ) (q : HookPhase H), s.runs[j]? = some q → q.busy = false) ∧
    (s.depth = 0 ∧ s.hook = orig ∨ 0 < s.depth ∧ s.saved = some orig)

/-- One run is busy, and knows where the hook is. -/
def Works (orig : H) (s : HookState H) : Prop :=
  ∃ i p, s.runs[i]? = some p ∧ s.Knows orig p ∧ s.OnlyBusy i

/-- The counter counts the runs, and the original hook is never lost. -/
structure Inv (orig : H) (s : HookState H) : Prop where
  depth_eq : s.depth = s.runs.countP HookPhase.counted
  kept : s.Rests orig ∨ s.Works orig

variable {orig : H} {s : HookState H} {i j : ℕ} {p q : HookPhase H}

theorem Knows.busy (h : s.Knows orig p) : p.busy = true := by
  cases p <;> first | rfl | exact h.elim

/-- What setting a phase does to the count. -/
theorem countP_set_phase (h : s.runs[i]? = some p) (q : HookPhase H) :
    (s.runs.set i q).countP HookPhase.counted + (if p.counted then 1 else 0) =
      s.runs.countP HookPhase.counted + if q.counted then 1 else 0 := by
  obtain ⟨hi, hp⟩ := List.getElem?_eq_some_iff.mp h
  have hpos : p.counted = true → 0 < s.runs.countP HookPhase.counted := fun hc =>
    List.countP_pos_iff.mpr ⟨p, hp ▸ List.getElem_mem hi, hc⟩
  rw [List.countP_set hi, hp]
  cases hc : p.counted with
  | false => simp
  | true =>
      have := hpos hc
      simp only [if_true]
      omega

/-- Two counted runs make a count of two. -/
theorem two_le_countP (hi : s.runs[i]? = some p) (hj : s.runs[j]? = some q) (hij : i ≠ j)
    (hp : p.counted = true) (hq : q.counted = true) : 2 ≤ s.runs.countP HookPhase.counted := by
  have hset := countP_set_phase hi .idle
  have hidle : (HookPhase.idle : HookPhase H).counted = false := rfl
  rw [hp, if_pos rfl, hidle, if_neg Bool.false_ne_true] at hset
  have hmem : q ∈ s.runs.set i .idle :=
    List.mem_of_getElem? (i := j) (by rw [List.getElem?_set_ne hij, hj])
  have hpos : 0 < (s.runs.set i .idle).countP HookPhase.counted :=
    List.countP_pos_iff.mpr ⟨q, hmem, hq⟩
  omega

theorem countP_pos (hi : s.runs[i]? = some p) (hp : p.counted = true) :
    0 < s.runs.countP HookPhase.counted :=
  List.countP_pos_iff.mpr ⟨p, List.mem_of_getElem? hi, hp⟩

/-- A busy run is the one that works. -/
theorem Inv.knows (h : s.Inv orig) (hi : s.runs[i]? = some p) (hp : p.busy = true) :
    s.Knows orig p ∧ s.OnlyBusy i := by
  obtain ⟨hrests, -⟩ | ⟨j, q, hj, hknows, honly⟩ := h.kept
  · rw [hrests i p hi] at hp
    cases hp
  · by_cases hij : i = j
    · subst hij
      rw [hi] at hj
      cases hj
      exact ⟨hknows, honly⟩
    · rw [honly i p hij hi] at hp
      cases hp

/-! ### Steps keep the invariant -/

/-- The phases after a step of run `i`. -/
theorem getElem?_set_phase (hi : s.runs[i]? = some p) (q : HookPhase H) (j : ℕ) :
    (s.runs.set i q)[j]? = if j = i then some q else s.runs[j]? := by
  obtain ⟨hlt, -⟩ := List.getElem?_eq_some_iff.mp hi
  rw [List.getElem?_set]
  by_cases hij : i = j
  · subst hij
    simp [hlt]
  · simp [hij, Ne.symm hij]

section Transitions

variable {s' : HookState H}

/- Run `i` goes from phase `p` to phase `q`, and is counted accordingly. -/
variable (h : s.Inv orig) (hi : s.runs[i]? = some p) (hruns : s'.runs = s.runs.set i q)
  (hdepth : s'.depth + (if p.counted then 1 else 0) = s.depth + if q.counted then 1 else 0)

include h hi hruns hdepth

theorem Inv.depth_eq_of_set : s'.depth = s'.runs.countP HookPhase.counted := by
  have hcount := countP_set_phase hi q
  have := h.depth_eq
  rw [hruns]
  omega

/-- Run `i` is busy afterwards. -/
theorem Inv.of_works (honly : s.OnlyBusy i) (hknows : s'.Knows orig q) : s'.Inv orig := by
  refine ⟨h.depth_eq_of_set hi hruns hdepth, .inr ⟨i, q, ?_, hknows, fun j r hj hr => ?_⟩⟩
  · rw [hruns, getElem?_set_phase hi, if_pos rfl]
  · rw [hruns, getElem?_set_phase hi, if_neg hj] at hr
    exact honly j r hj hr

/-- Nobody is busy afterwards. -/
theorem Inv.of_rests (honly : s.OnlyBusy i) (hq : q.busy = false)
    (hwhere : s'.depth = 0 ∧ s'.hook = orig ∨ 0 < s'.depth ∧ s'.saved = some orig) :
    s'.Inv orig := by
  refine ⟨h.depth_eq_of_set hi hruns hdepth, .inl ⟨fun j r hr => ?_, hwhere⟩⟩
  rw [hruns, getElem?_set_phase hi] at hr
  by_cases hj : j = i
  · rw [if_pos hj] at hr
    cases hr
    exact hq
  · rw [if_neg hj] at hr
    exact honly j r hj hr

/-- Run `i` only counts itself in or out, while another may be busy. -/
theorem Inv.of_bystander (hp : p.busy = false) (hq : q.busy = false) (hpos : 0 < s.depth)
    (hpos' : 0 < s'.depth) (hhook : s'.hook = s.hook) (hsaved : s'.saved = s.saved) :
    s'.Inv orig := by
  obtain ⟨hcalm, hwhere⟩ | ⟨j, r, hj, hknows, honly⟩ := h.kept
  · refine h.of_rests hi hruns hdepth (fun j r _ hr => hcalm j r hr) hq (.inr ⟨hpos', ?_⟩)
    rcases hwhere with ⟨hzero, -⟩ | ⟨-, hs⟩
    · omega
    · rw [hsaved, hs]
  · have hji : j ≠ i := by
      rintro rfl
      rw [hi] at hj
      cases hj
      rw [hknows.busy] at hp
      cases hp
    refine ⟨h.depth_eq_of_set hi hruns hdepth, .inr ⟨j, r, ?_, ?_, fun k t hk ht => ?_⟩⟩
    · rw [hruns, getElem?_set_phase hi, if_neg hji, hj]
    · cases r with
      | taking => exact ⟨hpos', hhook.trans hknows.2⟩
      | saving prev => exact ⟨hpos', hknows.2⟩
      | silencing => exact ⟨hpos', hsaved.trans hknows.2⟩
      | restoring => exact absurd hknows.1 (by omega)
      | resetting prev => exact absurd hknows.1 (by omega)
      | idle => exact hknows.elim
      | alive => exact hknows.elim
      | done => exact hknows.elim
    · rw [hruns, getElem?_set_phase hi] at ht
      by_cases hki : k = i
      · rw [if_pos hki] at ht
        cases ht
        exact hq
      · rw [if_neg hki] at ht
        exact honly k t hk ht

end Transitions

/-- With nothing counted, and no `drop` in progress, the hook is in place. -/
theorem Inv.rests_of_clear (h : s.Inv orig) (hdepth : s.depth = 0)
    (hclear : ∀ p ∈ s.runs, p.dropping = false) :
    (∀ (j : ℕ) (q : HookPhase H), s.runs[j]? = some q → q.busy = false) ∧ s.hook = orig := by
  obtain ⟨hcalm, hwhere⟩ | ⟨j, r, hj, hknows, -⟩ := h.kept
  · rcases hwhere with ⟨-, hhook⟩ | ⟨hpos, -⟩
    · exact ⟨hcalm, hhook⟩
    · omega
  · have hr := hclear r (List.mem_of_getElem? hj)
    cases r with
    | taking => exact absurd hknows.1 (by omega)
    | saving prev => exact absurd hknows.1 (by omega)
    | silencing => exact absurd hknows.1 (by omega)
    | restoring => cases hr
    | resetting prev => cases hr
    | idle => exact hknows.elim
    | alive => exact hknows.elim
    | done => exact hknows.elim

/-- The last counted run has nobody busy beside it, and the hook is saved. -/
theorem Inv.saved_of_last (h : s.Inv orig) (hi : s.runs[i]? = some .alive) (hdepth : s.depth = 1) :
    (∀ (j : ℕ) (q : HookPhase H), s.runs[j]? = some q → q.busy = false) ∧
      s.saved = some orig := by
  obtain ⟨hcalm, hwhere⟩ | ⟨j, r, hj, hknows, -⟩ := h.kept
  · rcases hwhere with ⟨hzero, -⟩ | ⟨-, hsaved⟩
    · omega
    · exact ⟨hcalm, hsaved⟩
  · have hij : i ≠ j := by
      rintro rfl
      rw [hi] at hj
      cases hj
      exact hknows.elim
    have hone : r.counted = true → False := fun hr => by
      have htwo := two_le_countP hi hj hij rfl hr
      have := h.depth_eq
      omega
    cases r with
    | taking => exact (hone rfl).elim
    | saving prev => exact (hone rfl).elim
    | silencing => exact (hone rfl).elim
    | restoring => exact absurd hknows.1 (by omega)
    | resetting prev => exact absurd hknows.1 (by omega)
    | idle => exact hknows.elim
    | alive => exact hknows.elim
    | done => exact hknows.elim

variable (noop dflt : H)

/-- **Every clear step keeps the invariant.** -/
theorem Inv.step (h : s.Inv orig) (hclear : s.Clear i) : (s.step noop dflt i).Inv orig := by
  unfold HookState.step
  cases hi : s.runs[i]? with
  | none => exact h
  | some p =>
      cases p with
      | idle =>
          dsimp only
          by_cases hzero : s.depth = 0
          · -- the first run: nobody is busy, so the hook that will be taken is the original one
            rw [if_pos hzero]
            obtain ⟨hcalm, hhook⟩ := h.rests_of_clear hzero (hclear hi hzero)
            exact h.of_works hi rfl rfl (fun j q _ hq => hcalm j q hq)
              ⟨Nat.succ_pos _, hhook⟩
          · rw [if_neg hzero]
            exact h.of_bystander hi rfl rfl rfl rfl (by omega) (Nat.succ_pos _) rfl rfl
      | taking =>
          obtain ⟨⟨hpos, hhook⟩, honly⟩ := h.knows hi rfl
          exact h.of_works hi rfl rfl honly ⟨hpos, hhook⟩
      | saving prev =>
          obtain ⟨⟨hpos, hprev⟩, honly⟩ := h.knows hi rfl
          exact h.of_works hi rfl rfl honly ⟨hpos, congrArg some hprev⟩
      | silencing =>
          obtain ⟨⟨hpos, hsaved⟩, honly⟩ := h.knows hi rfl
          exact h.of_rests hi rfl rfl honly rfl (.inr ⟨hpos, hsaved⟩)
      | alive =>
          have hpos : 0 < s.depth := by
            rw [h.depth_eq]
            exact countP_pos hi rfl
          dsimp only
          by_cases hone : s.depth = 1
          · -- the last run: nobody is busy, and the original hook is saved
            rw [if_pos hone]
            obtain ⟨hcalm, hsaved⟩ := h.saved_of_last hi hone
            refine h.of_works hi rfl ?_ (fun j q _ hq => hcalm j q hq) ⟨?_, hsaved⟩
            · simp only [HookPhase.counted, if_true, Bool.false_eq_true, if_false]
              omega
            · exact Nat.sub_eq_zero_of_le (Nat.le_of_eq hone)
          · rw [if_neg hone]
            refine h.of_bystander hi rfl ?_ rfl rfl hpos ?_ rfl rfl
            · simp only [HookPhase.counted, if_true, Bool.false_eq_true, if_false]
              omega
            · change 0 < s.depth - 1
              omega
      | restoring =>
          obtain ⟨⟨hzero, hsaved⟩, honly⟩ := h.knows hi rfl
          dsimp only
          rw [hsaved]
          exact h.of_works hi rfl rfl honly ⟨hzero, rfl⟩
      | resetting prev =>
          obtain ⟨⟨hzero, hprev⟩, honly⟩ := h.knows hi rfl
          exact h.of_rests hi rfl rfl honly rfl (.inl ⟨hzero, hprev⟩)
      | done => exact h

theorem inv_start (hook : H) (count : ℕ) : (start hook count).Inv hook := by
  have hidle : ∀ (j : ℕ) (q : HookPhase H), (start hook count).runs[j]? = some q → q = .idle :=
    fun j q hq => List.eq_of_mem_replicate (List.mem_of_getElem? hq)
  refine ⟨?_, .inl ⟨fun j q hq => ?_, .inl ⟨rfl, rfl⟩⟩⟩
  · refine (List.countP_eq_zero.mpr fun p hp => ?_).symm
    rw [List.eq_of_mem_replicate hp]
    exact Bool.false_ne_true
  · rw [hidle j q hq]
    rfl

/-- When nothing is in progress, the hook is the original one. -/
theorem Inv.hook_of_quiet (h : s.Inv orig) (hquiet : s.Quiet) : s.hook = orig := by
  have hnone : s.runs.countP HookPhase.counted = 0 := List.countP_eq_zero.mpr fun p hp => by
    rcases hquiet p hp with rfl | rfl <;> simp [HookPhase.counted]
  refine (h.rests_of_clear (h.depth_eq.trans hnone) fun p hp => ?_).2
  rcases hquiet p hp with rfl | rfl <;> rfl

/-- **Every clear schedule restores the hook.**  For any number of runs and any interleaving of their
steps in which no run counts from zero in the middle of the last `drop`: whenever nothing is in
progress, the hook is the one that was installed before the first run. -/
theorem exec_restores (hook : H) (count : ℕ) (schedule : List ℕ)
    (hclear : ∀ pre i, pre ++ [i] <+: schedule → ((start hook count).exec noop dflt pre).Clear i) :
    ∀ pre, pre <+: schedule → ((start hook count).exec noop dflt pre).Quiet →
      ((start hook count).exec noop dflt pre).hook = hook := by
  have hinv : ∀ pre, pre <+: schedule → ((start hook count).exec noop dflt pre).Inv hook := by
    intro pre
    induction pre using List.reverseRecOn with
    | nil => exact fun _ => inv_start hook count
    | append_singleton pre i ih =>
        intro hpre
        rw [exec_concat]
        exact (ih ((List.prefix_append _ _).trans hpre)).step noop dflt (hclear pre i hpre)
  exact fun pre hpre => (hinv pre hpre).hook_of_quiet

/-- Two overlapping runs; hook 0 was there before, hook 1 does nothing, hook 2 is the default one. -/
theorem exec_restores_overlapping :
    ((start 0 2).exec 1 2 [0, 0, 0, 0, 1, 0, 1, 1, 1]).Quiet ∧
      ((start 0 2).exec 1 2 [0, 0, 0, 0, 1, 0, 1, 1, 1]).hook = 0 :=
  ⟨by decide, exec_restores 1 2 0 2 [0, 0, 0, 0, 1, 0, 1, 1, 1]
    (Pieces.forall_concat_prefix (by decide)) _ (List.prefix_refl _) (by decide)⟩

/-- The second run counts from zero while the first is in the middle of its `drop`.  It takes the
hook that does nothing for the old one, and overwrites the saved hook with it; the original hook is
lost. -/
theorem exec_loses :
    ((start 0 2).exec 1 2 [0, 0, 0, 0, 0, 1, 1, 1, 1, 0, 0, 1, 1]).Quiet ∧
      ((start 0 2).exec 1 2 [0, 0, 0, 0, 0, 1, 1, 1, 1, 0, 0, 1, 1]).hook = 1 := by
  decide

end HookState

end PcapRacer
