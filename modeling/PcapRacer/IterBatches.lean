/-
**The worker of `iter_batches`.**

`iter_batches` runs the extraction on a worker thread that feeds a bounded queue; the consumer takes
batches out of it, and may be closed at any time.  Inside `_emit` the worker polls: it looks whether
it has been told to stop, and puts its batch with a timeout.  At its end it puts one last item, the
end marker or the exception, and this put has no timeout.

The model is the program of the two threads over the queue and the stop event.  A run is any sequence
of steps of the two.  Which batches the extraction produces, and how it ends, is given from outside.

Main definitions:

* `BatchItem`, `Worker`, `Consumer`, `IterState` — the queue items, the two programs, and the state;
* `IterState.step`, `IterState.exec` — one step of a thread, and a run;
* `IterState.Stranded` — the consumer is closed, and the worker waits at a full queue;
* `Worker.owes` — how many items the worker still puts when it is told to stop.

Main results:

* `IterState.Stranded.step_eq` — nothing frees a stranded worker;
* `IterState.Inv.step` — what every step keeps;
* `IterState.strands_of_no_room` — closing without room for what the worker owes strands it;
* `IterState.stranded_only_without_room` — **the worker is stranded exactly when the consumer closes
  without that room**.
-/

import Mathlib.Data.List.Induction
import Mathlib.Data.Int.Notation

set_option relaxedAutoImplicit false
set_option autoImplicit false

namespace PcapRacer

/-- What the queue holds: batches, and last the end marker or an exception. -/
inductive BatchItem where
  | batch
  | finished
  | failed
  deriving DecidableEq

/-- Where the worker stands; `left` counts the batches that the extraction has still to emit. -/
inductive Worker where
  /-- In the extraction, between two calls of `_emit`. -/
  | extracting (left : ℕ)
  /-- In `_emit`, about to look at the stop event. -/
  | polling (left : ℕ)
  /-- In `_emit`, in the put with a timeout. -/
  | putting (left : ℕ)
  /-- In the last put, which has no timeout. -/
  | closing (item : BatchItem)
  | exited
  deriving DecidableEq

/-- Where the consumer stands. -/
inductive Consumer where
  /-- About to take the next item. -/
  | getting
  /-- Suspended at the `yield`. -/
  | yielded
  /-- Past the `finally` block: the stop event is set, and nothing is taken any more. -/
  | closed
  deriving DecidableEq

/-- The steps of a run: one of the worker, or one of the consumer. -/
inductive IterStep where
  | work
  /-- The consumer takes the next item. -/
  | get
  /-- The consumer is asked for the next batch. -/
  | resume
  /-- The consumer is closed, or interrupted while it waits. -/
  | close
  deriving DecidableEq

structure IterState where
  queue : List BatchItem
  stop : Bool
  worker : Worker
  consumer : Consumer
  deriving DecidableEq

namespace IterState

section Step

/- The size of the queue, and the item that says how the extraction ends if it is not stopped. -/
variable (size : ℤ) (ending : BatchItem)

/-- The size of the queue. -/
def maxsize : ℕ := (max 1 size).toNat

/-- One step of the worker.  A put at a full queue runs into its timeout, or waits. -/
def work (s : IterState) : IterState :=
  match s.worker with
  | .extracting 0 => { s with worker := .closing ending }
  | .extracting (left + 1) => { s with worker := .polling left }
  | .polling left =>
      -- raising `_Stop` unwinds the extraction
      if s.stop then { s with worker := .closing .finished } else { s with worker := .putting left }
  | .putting left =>
      if s.queue.length < maxsize size then
        { s with queue := s.queue ++ [.batch], worker := .extracting left }
      else { s with worker := .polling left }
  | .closing item =>
      if s.queue.length < maxsize size then
        { s with queue := s.queue ++ [item], worker := .exited }
      else s
  | .exited => s

/-- One step of a thread; a step that the thread cannot take changes nothing. -/
def step (s : IterState) : IterStep → IterState
  | .work => s.work size ending
  | .get =>
      match s.consumer, s.queue with
      | .getting, .batch :: queue => { s with queue, consumer := .yielded }
      | .getting, _ :: queue => { s with queue, consumer := .closed, stop := true }
      | _, _ => s
  | .resume => if s.consumer = .yielded then { s with consumer := .getting } else s
  | .close => if s.consumer = .closed then s else { s with consumer := .closed, stop := true }

/-- The state after a run. -/
def exec (s : IterState) (steps : List IterStep) : IterState := steps.foldl (step size ending) s

theorem exec_concat (s : IterState) (steps : List IterStep) (a : IterStep) :
    s.exec size ending (steps ++ [a]) = (s.exec size ending steps).step size ending a := by
  simp [exec]

theorem exec_append (s : IterState) (steps more : List IterStep) :
    s.exec size ending (steps ++ more) = (s.exec size ending steps).exec size ending more := by
  simp [exec]

end Step

/-- The first call of `next`: the worker is started with `batches` to emit. -/
def start (batches : ℕ) : IterState :=
  { queue := [], stop := false, worker := .extracting batches, consumer := .getting }

/-- The consumer is closed, and the worker waits for room that nobody makes. -/
def Stranded (size : ℤ) (s : IterState) : Prop :=
  s.consumer = .closed ∧ (∃ item, s.worker = .closing item) ∧ maxsize size ≤ s.queue.length

end IterState

/-- How many items the worker still puts once it is told to stop: the batch of a put that has
begun, and the last item. -/
def Worker.owes : Worker → ℕ
  | .putting _ => 2
  | .exited => 0
  | _ => 1

namespace IterState

/-- The queue has room for what the worker still puts. -/
def Room (size : ℤ) (s : IterState) : Prop := s.queue.length + s.worker.owes ≤ maxsize size

/-- **A stranded worker stays where it is**: no step of either thread changes the state. -/
theorem Stranded.step_eq {size : ℤ} {s : IterState} (h : s.Stranded size) (ending : BatchItem)
    (a : IterStep) : s.step size ending a = s := by
  obtain ⟨hclosed, ⟨item, hw⟩, hfull⟩ := h
  cases a with
  | work => simp [step, work, hw, Nat.not_lt.mpr hfull]
  | get => simp [step, hclosed]
  | resume => simp [step, hclosed]
  | close => simp [step, hclosed]

theorem Stranded.exec_eq {size : ℤ} {s : IterState} (h : s.Stranded size) (ending : BatchItem)
    (more : List IterStep) : s.exec size ending more = s := by
  induction more with
  | nil => rfl
  | cons a more ih =>
      rw [exec, List.foldl_cons, h.step_eq]
      exact ih

/-! ### The invariant -/

/-- The queue is within its size; an end item in it is the last thing the worker did; and a consumer
that is closed has told the worker, and left room for what it owes. -/
structure Inv (size : ℤ) (s : IterState) : Prop where
  length_le : s.queue.length ≤ maxsize size
  last : ∀ item ∈ s.queue, item ≠ .batch → s.worker = .exited
  stopped : s.consumer = .closed → s.stop = true ∧ s.Room size

theorem inv_start (size : ℤ) (batches : ℕ) : (start batches).Inv size where
  length_le := Nat.zero_le _
  last item hitem := absurd hitem List.not_mem_nil
  stopped h := by cases h

variable {size : ℤ} {s : IterState}

/-- A state that differs in where the worker stands only. -/
theorem Inv.of_worker (h : s.Inv size) {w : Worker} (hexited : s.worker ≠ .exited)
    (howes : w.owes ≤ s.worker.owes) : { s with worker := w }.Inv size where
  length_le := h.length_le
  last item hitem hne := absurd (h.last item hitem hne) hexited
  stopped hclosed := by
    obtain ⟨hstop, hroom⟩ := h.stopped hclosed
    exact ⟨hstop, Nat.le_trans (Nat.add_le_add_left howes _) hroom⟩

/-- A state in which the worker has put an item that it owed. -/
theorem Inv.of_put (h : s.Inv size) {w : Worker} {item : BatchItem} (hexited : s.worker ≠ .exited)
    (hlt : s.queue.length < maxsize size) (hitem : item ≠ .batch → w = .exited)
    (howes : w.owes + 1 ≤ s.worker.owes) :
    { s with queue := s.queue ++ [item], worker := w }.Inv size where
  length_le := by
    rw [List.length_append]
    exact hlt
  last x hx hne := by
    rcases List.mem_append.mp hx with hx | hx
    · exact absurd (h.last x hx hne) hexited
    · rw [List.mem_singleton] at hx
      exact hitem (hx ▸ hne)
  stopped hclosed := by
    obtain ⟨hstop, hroom⟩ := h.stopped hclosed
    refine ⟨hstop, ?_⟩
    simp only [Room, List.length_append, List.length_singleton] at hroom ⊢
    omega

/-- A step of the worker keeps the invariant. -/
theorem Inv.work (h : s.Inv size) (ending : BatchItem) : (s.work size ending).Inv size := by
  unfold IterState.work
  cases hw : s.worker with
  | extracting left =>
      cases left with
      | zero => exact h.of_worker (by simp [hw]) (by simp [hw, Worker.owes])
      | succ left => exact h.of_worker (by simp [hw]) (by simp [hw, Worker.owes])
  | polling left =>
      dsimp only
      by_cases hstop : s.stop = true
      · rw [if_pos hstop]
        exact h.of_worker (by simp [hw]) (by simp [hw, Worker.owes])
      · -- a worker that has not been told to stop has a consumer
        rw [if_neg hstop]
        have hopen : s.consumer ≠ .closed := fun hclosed => hstop (h.stopped hclosed).1
        exact ⟨h.length_le, fun item hitem hne => absurd (h.last item hitem hne) (by simp [hw]),
          fun hclosed => absurd hclosed hopen⟩
  | putting left =>
      dsimp only
      by_cases hlt : s.queue.length < maxsize size
      · rw [if_pos hlt]
        exact h.of_put (by simp [hw]) hlt (fun hne => absurd rfl hne) (by simp [hw, Worker.owes])
      · rw [if_neg hlt]
        exact h.of_worker (by simp [hw]) (by simp [hw, Worker.owes])
  | closing item =>
      dsimp only
      by_cases hlt : s.queue.length < maxsize size
      · rw [if_pos hlt]
        exact h.of_put (by simp [hw]) hlt (fun _ => rfl) (by simp [hw, Worker.owes])
      · rw [if_neg hlt]
        exact h
  | exited => exact h

/-- Taking an item keeps the invariant: after an end item there is nothing left to put. -/
theorem Inv.get (h : s.Inv size) (ending : BatchItem) : (s.step size ending .get).Inv size := by
  cases hc : s.consumer with
  | yielded => simpa [step, hc] using h
  | closed => simpa [step, hc] using h
  | getting =>
      cases hq : s.queue with
      | nil => simpa [step, hc, hq] using h
      | cons item queue =>
          have hlen := h.length_le
          rw [hq, List.length_cons] at hlen
          have hlast : ∀ x ∈ queue, x ≠ .batch → s.worker = .exited := fun x hx =>
            h.last x (by simp [hq, hx])
          by_cases hitem : item = .batch
          · subst hitem
            have hstep : s.step size ending .get = { s with queue, consumer := .yielded } := by
              simp [step, hc, hq]
            rw [hstep]
            exact ⟨Nat.le_of_succ_le hlen, hlast, nofun⟩
          · have hstep : s.step size ending .get =
                { s with queue, consumer := .closed, stop := true } := by
              cases item <;> simp_all [step]
            have hexited : s.worker = .exited := h.last item (by simp [hq]) hitem
            rw [hstep]
            refine ⟨Nat.le_of_succ_le hlen, hlast, fun _ => ⟨rfl, ?_⟩⟩
            simp only [Room, hexited, Worker.owes]
            omega

/-- **Every step keeps the invariant**, if the consumer only closes when there is room. -/
theorem Inv.step (h : s.Inv size) (ending : BatchItem) {a : IterStep}
    (hroom : a = .close → s.consumer ≠ .closed → s.Room size) :
    (s.step size ending a).Inv size := by
  cases a with
  | work => exact h.work ending
  | get => exact h.get ending
  | resume =>
      unfold IterState.step
      dsimp only
      split
      · exact ⟨h.length_le, h.last, nofun⟩
      · exact h
  | close =>
      unfold IterState.step
      dsimp only
      split
      · exact h
      · next hopen => exact ⟨h.length_le, h.last, fun _ => ⟨rfl, hroom rfl hopen⟩⟩

/-- A closed consumer has left room for the item that the worker waits to put. -/
theorem Inv.not_stranded (h : s.Inv size) : ¬ s.Stranded size := by
  rintro ⟨hclosed, ⟨item, hw⟩, hfull⟩
  have hroom := (h.stopped hclosed).2
  simp only [Room, hw, Worker.owes] at hroom
  omega

/-- The consumer of the run only closes when there is room. -/
def ClosesWithRoom (size : ℤ) (ending : BatchItem) (batches : ℕ) (steps : List IterStep) : Prop :=
  ∀ pre, pre ++ [.close] <+: steps → ((start batches).exec size ending pre).consumer ≠ .closed →
    ((start batches).exec size ending pre).Room size

theorem inv_exec {ending : BatchItem} {batches : ℕ} {steps : List IterStep}
    (h : ClosesWithRoom size ending batches steps) :
    ∀ pre, pre <+: steps → ((start batches).exec size ending pre).Inv size := by
  intro pre
  induction pre using List.reverseRecOn with
  | nil => exact fun _ => inv_start size batches
  | append_singleton pre a ih =>
      intro hpre
      rw [exec_concat]
      refine (ih ((List.prefix_append _ _).trans hpre)).step ending fun ha => ?_
      subst ha
      exact h pre hpre

/-! ### Closing without room -/

theorem length_step_le (h : s.queue.length ≤ maxsize size) (ending : BatchItem) (a : IterStep) :
    (s.step size ending a).queue.length ≤ maxsize size := by
  cases a with
  | work =>
      unfold step work
      dsimp only
      repeat' split
      -- only a put makes the queue longer, and it has looked for room
      all_goals first
        | exact h
        | rw [List.length_append]; assumption
  | get =>
      unfold step
      dsimp only
      split
      · next hq => rw [hq, List.length_cons] at h; exact Nat.le_of_succ_le h
      · next hq => rw [hq, List.length_cons] at h; exact Nat.le_of_succ_le h
      · exact h
  | resume =>
      unfold step
      dsimp only
      split <;> exact h
  | close =>
      unfold step
      dsimp only
      split <;> exact h

/-- The queue is never over its size. -/
theorem length_exec_le (size : ℤ) (ending : BatchItem) (batches : ℕ) (steps : List IterStep) :
    ((start batches).exec size ending steps).queue.length ≤ maxsize size := by
  induction steps using List.reverseRecOn with
  | nil => exact Nat.zero_le _
  | append_singleton steps a ih =>
      rw [exec_concat]
      exact length_step_le ih ending a

/-- The worker comes to wait at a full queue, left to itself. -/
def Strands (size : ℤ) (ending : BatchItem) (s : IterState) : Prop :=
  ∃ n, (s.exec size ending (List.replicate n .work)).Stranded size

variable {ending : BatchItem}

theorem strands_of_work (h : (s.work size ending).Strands size ending) :
    s.Strands size ending := by
  obtain ⟨n, hn⟩ := h
  exact ⟨n + 1, hn⟩

theorem strands_closing (hclosed : s.consumer = .closed) {item : BatchItem}
    (hw : s.worker = .closing item) (hfull : maxsize size ≤ s.queue.length) :
    s.Strands size ending := ⟨0, hclosed, ⟨item, hw⟩, hfull⟩

theorem strands_polling (hclosed : s.consumer = .closed) (hstop : s.stop = true) {left : ℕ}
    (hw : s.worker = .polling left) (hfull : maxsize size ≤ s.queue.length) :
    s.Strands size ending := by
  have hwork : s.work size ending = { s with worker := .closing .finished } := by
    simp [work, hw, hstop]
  refine strands_of_work ?_
  rw [hwork]
  exact strands_closing hclosed rfl hfull

theorem strands_extracting (hclosed : s.consumer = .closed) (hstop : s.stop = true) {left : ℕ}
    (hw : s.worker = .extracting left) (hfull : maxsize size ≤ s.queue.length) :
    s.Strands size ending := by
  refine strands_of_work ?_
  cases left with
  | zero =>
      have hwork : s.work size ending = { s with worker := .closing ending } := by
        simp [work, hw]
      rw [hwork]
      exact strands_closing hclosed rfl hfull
  | succ left =>
      have hwork : s.work size ending = { s with worker := .polling left } := by
        simp [work, hw]
      rw [hwork]
      exact strands_polling hclosed hstop rfl hfull

/-- **A worker that is told to stop, and owes more than there is room for, comes to wait at a full
queue.** -/
theorem strands_of_no_room (hclosed : s.consumer = .closed) (hstop : s.stop = true)
    (hle : s.queue.length ≤ maxsize size) (hroom : ¬ s.Room size) : s.Strands size ending := by
  unfold Room at hroom
  cases hw : s.worker with
  | exited =>
      rw [hw, Worker.owes] at hroom
      omega
  | closing item =>
      rw [hw, Worker.owes] at hroom
      · exact strands_closing hclosed hw (by omega)
      all_goals nofun
  | polling left =>
      rw [hw, Worker.owes] at hroom
      · exact strands_polling hclosed hstop hw (by omega)
      all_goals nofun
  | extracting left =>
      rw [hw, Worker.owes] at hroom
      · exact strands_extracting hclosed hstop hw (by omega)
      all_goals nofun
  | putting left =>
      -- the put that has begun either finds the last free slot or runs into its timeout
      rw [hw, Worker.owes] at hroom
      refine strands_of_work ?_
      by_cases hlt : s.queue.length < maxsize size
      · have hwork : s.work size ending =
            { s with queue := s.queue ++ [.batch], worker := .extracting left } := by
          simp [work, hw, hlt]
        rw [hwork]
        refine strands_extracting hclosed hstop rfl ?_
        rw [List.length_append, List.length_singleton]
        omega
      · have hwork : s.work size ending = { s with worker := .polling left } := by
          simp [work, hw, hlt]
        rw [hwork]
        exact strands_polling hclosed hstop rfl (Nat.le_of_not_lt hlt)

/-! ### Every run -/

/-- **The worker is stranded exactly when the consumer closes without room for what it owes.**  In
every run whose consumer only closes when there is room, no state is reached in which the worker is
stranded; and wherever the consumer closes without room, the worker comes to be stranded. -/
theorem stranded_only_without_room (size : ℤ) (ending : BatchItem) (batches : ℕ) :
    (∀ steps, ClosesWithRoom size ending batches steps → ∀ pre, pre <+: steps →
      ¬ ((start batches).exec size ending pre).Stranded size) ∧
    ∀ steps, ((start batches).exec size ending steps).consumer ≠ .closed →
      ¬ ((start batches).exec size ending steps).Room size →
        ∃ n, ((start batches).exec size ending
          (steps ++ .close :: List.replicate n .work)).Stranded size := by
  constructor
  · intro steps h pre hpre
    exact (inv_exec h pre hpre).not_stranded
  · intro steps hopen hroom
    have hclose : ((start batches).exec size ending steps).step size ending .close =
        { (start batches).exec size ending steps with consumer := .closed, stop := true } := by
      simp [step, hopen]
    obtain ⟨n, hn⟩ : (((start batches).exec size ending steps).step size ending .close).Strands
        size ending := by
      rw [hclose]
      exact strands_of_no_room rfl rfl (length_exec_le size ending batches steps) hroom
    refine ⟨n, ?_⟩
    rw [exec_append]
    exact hn

/-- The consumer takes a batch and is closed when the worker has put the last one. -/
theorem stranded_only_without_room_drained :
    ((start 1).exec 1 .finished [.work, .work, .work, .get, .work, .work]).worker = .exited ∧
      ¬ ((start 1).exec 1 .finished
        [.work, .work, .work, .get, .work, .work, .close]).Stranded 1 := by
  refine ⟨by decide, (stranded_only_without_room 1 .finished 1).1 _ ?_ _ (List.prefix_refl _)⟩
  intro pre hpre _
  -- the only step of the run that closes is its last one
  have hlast : ∀ i < 7, i ≠ 6 → [IterStep.work, .work, .work, .get, .work, .work, .close][i]? ≠
      some .close := by decide
  have hget : [IterStep.work, .work, .work, .get, .work, .work, .close][pre.length]? =
      some .close := by
    obtain ⟨rest, hrest⟩ := hpre
    rw [← hrest]
    simp
  have hlen : pre.length < 7 := by
    have := hpre.length_le
    simp only [List.length_append, List.length_cons, List.length_nil] at this
    omega
  have hsix : pre.length = 6 := by
    by_contra hne
    exact hlast _ hlen hne hget
  have htake := List.prefix_iff_eq_take.mp ((List.prefix_append pre [.close]).trans hpre)
  rw [hsix] at htake
  rw [htake]
  unfold Room
  decide

/-- Three batches and a queue of one: the consumer takes the first batch and is closed while the
second waits in the queue.  Whatever either thread does after that, the worker waits. -/
theorem stranded_after_close :
    ((start 3).exec 1 .finished [.work, .work, .work, .get, .work, .work, .work, .work, .close,
        .work, .work]).Stranded 1 ∧
      ∀ more, ((start 3).exec 1 .finished ([.work, .work, .work, .get, .work, .work, .work, .work,
        .close, .work, .work] ++ more)).Stranded 1 := by
  have h : ((start 3).exec 1 .finished [.work, .work, .work, .get, .work, .work, .work, .work,
      .close, .work, .work]).Stranded 1 := ⟨by decide, ⟨.finished, by decide⟩, by decide⟩
  refine ⟨h, fun more => ?_⟩
  rw [exec_append, h.exec_eq]
  exact h

end IterState

end PcapRacer
