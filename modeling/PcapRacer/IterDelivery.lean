/-
**What `iter_batches` delivers.**

The worker of `iter_batches` puts the batches of the extraction into the queue one by one, and last
the end marker or the exception; the consumer yields what it takes.  Here the two threads carry the
batches themselves.  Forgetting which batches they are gives back the two threads of
`PcapRacer.IterBatches`, step by step.

As long as the consumer is open, the batches yielded, the items in the queue and what the worker has
still to put make up one and the same list: every batch of the extraction, and then its end.  No
step of either thread changes that list, so nothing is lost, doubled or overtaken.

Main definitions:

* `DeliveryItem`, `DeliveryState` — the items of the queue, and the state of the two threads;
* `DeliveryState.step`, `DeliveryState.exec` — one step of a thread, and a run;
* `DeliveryState.script` — everything the worker puts when nobody stops it;
* `DeliveryState.Delivers` — the invariant.

Main results:

* `DeliveryState.erase_exec` — a run, with the data forgotten, is a run of `IterState`;
* `DeliveryState.Delivers.step` — what every step keeps;
* `DeliveryState.exec_delivers_in_order` — **what the generator has yielded is a prefix of what the
  extraction has produced, and all of it when the generator ends by itself**.
-/

import PcapRacer.IterBatches

set_option relaxedAutoImplicit false
set_option autoImplicit false

namespace PcapRacer

/-- What the queue holds: a batch, and last the end marker or the exception of the extraction. -/
inductive DeliveryItem (β ε : Type) where
  | batch (b : β)
  | done
  | raised (e : ε)

/-- Where the worker stands; `rest` is what the extraction has still to emit. -/
inductive DeliveryWorker (β ε : Type) where
  /-- In the extraction, between two calls of `_emit`. -/
  | extracting (rest : List β)
  /-- In `_emit` with a batch, about to look at the stop event. -/
  | polling (b : β) (rest : List β)
  /-- In `_emit`, in the put with a timeout. -/
  | putting (b : β) (rest : List β)
  /-- In the last put, which has no timeout. -/
  | closing (item : DeliveryItem β ε)
  | exited

/-- Where the generator stands. -/
inductive DeliveryConsumer (ε : Type) where
  /-- About to take the next item. -/
  | getting
  /-- Suspended at the `yield`. -/
  | yielded
  /-- It has taken the end marker and returned. -/
  | returned
  /-- It has taken an exception and raised it. -/
  | raised (e : ε)
  /-- It has been closed, or interrupted while it waited. -/
  | closed

variable {β ε : Type}

/-- The state of the two threads, with the batches that the generator has yielded so far. -/
structure DeliveryState (β ε : Type) where
  queue : List (DeliveryItem β ε)
  stop : Bool
  worker : DeliveryWorker β ε
  consumer : DeliveryConsumer ε
  delivered : List β

/-- The item that the worker puts last: an extraction ends normally or with an exception. -/
def DeliveryItem.ofEnding : Option ε → DeliveryItem β ε
  | none => .done
  | some e => .raised e

namespace DeliveryState

section Step

/- The size of the queue, and the exception that the extraction ends with if it is not stopped. -/
variable (size : ℤ) (ending : Option ε)

/-- One step of the worker.  A put at a full queue runs into its timeout, or waits. -/
def work (s : DeliveryState β ε) : DeliveryState β ε :=
  match s.worker with
  | .extracting [] => { s with worker := .closing (.ofEnding ending) }
  | .extracting (b :: rest) => { s with worker := .polling b rest }
  | .polling b rest =>
      -- raising `_Stop` unwinds the extraction
      if s.stop then { s with worker := .closing .done } else { s with worker := .putting b rest }
  | .putting b rest =>
      if s.queue.length < IterState.maxsize size then
        { s with queue := s.queue ++ [.batch b], worker := .extracting rest }
      else { s with worker := .polling b rest }
  | .closing item =>
      if s.queue.length < IterState.maxsize size then
        { s with queue := s.queue ++ [item], worker := .exited }
      else s
  | .exited => s

/-- The generator takes the next item, if it waits for one and there is one. -/
def get (s : DeliveryState β ε) : DeliveryState β ε :=
  match s.consumer, s.queue with
  | .getting, .batch b :: queue =>
      { s with queue, consumer := .yielded, delivered := s.delivered ++ [b] }
  | .getting, .done :: queue => { s with queue, consumer := .returned, stop := true }
  | .getting, .raised e :: queue => { s with queue, consumer := .raised e, stop := true }
  | _, _ => s

/-- The generator is asked for the next batch. -/
def resume (s : DeliveryState β ε) : DeliveryState β ε :=
  match s.consumer with
  | .yielded => { s with consumer := .getting }
  | _ => s

/-- The generator is closed: the `finally` block sets the stop event. -/
def close (s : DeliveryState β ε) : DeliveryState β ε :=
  match s.consumer with
  | .getting => { s with consumer := .closed, stop := true }
  | .yielded => { s with consumer := .closed, stop := true }
  | _ => s

/-- One step of a thread; a step that the thread cannot take changes nothing. -/
def step (s : DeliveryState β ε) : IterStep → DeliveryState β ε
  | .work => s.work size ending
  | .get => s.get
  | .resume => s.resume
  | .close => s.close

/-- The state after a run. -/
def exec (s : DeliveryState β ε) (steps : List IterStep) : DeliveryState β ε :=
  steps.foldl (step size ending) s

theorem exec_concat (s : DeliveryState β ε) (steps : List IterStep) (a : IterStep) :
    s.exec size ending (steps ++ [a]) = (s.exec size ending steps).step size ending a := by
  simp [exec]

end Step

/-- The first call of `next`: the worker is started on an extraction that emits `batches`. -/
def start (batches : List β) : DeliveryState β ε :=
  { queue := [], stop := false, worker := .extracting batches, consumer := .getting,
    delivered := [] }

end DeliveryState

/-! ### Forgetting the data -/

/-- The item without its data. -/
def DeliveryItem.erase : DeliveryItem β ε → BatchItem
  | .batch _ => .batch
  | .done => .finished
  | .raised _ => .failed

/-- The place of the worker, with the number of batches to come. -/
def DeliveryWorker.erase : DeliveryWorker β ε → Worker
  | .extracting rest => .extracting rest.length
  | .polling _ rest => .polling rest.length
  | .putting _ rest => .putting rest.length
  | .closing item => .closing item.erase
  | .exited => .exited

/-- The place of the generator, whichever way it has ended. -/
def DeliveryConsumer.erase : DeliveryConsumer ε → Consumer
  | .getting => .getting
  | .yielded => .yielded
  | .returned => .closed
  | .raised _ => .closed
  | .closed => .closed

namespace DeliveryState

/-- The state without the data. -/
def erase (s : DeliveryState β ε) : IterState :=
  { queue := s.queue.map DeliveryItem.erase, stop := s.stop, worker := s.worker.erase,
    consumer := s.consumer.erase }

@[simp] theorem erase_start (batches : List β) :
    (start batches : DeliveryState β ε).erase = IterState.start batches.length := rfl

section Erase

variable (size : ℤ) (ending : Option ε)

/-- The end of the extraction, without its exception. -/
def endKind : Option ε → BatchItem
  | none => .finished
  | some _ => .failed

@[simp] theorem erase_ofEnding :
    (DeliveryItem.ofEnding ending : DeliveryItem β ε).erase = endKind ending := by
  cases ending <;> rfl

theorem erase_work (s : DeliveryState β ε) :
    (s.work size ending).erase = s.erase.work size (endKind ending) := by
  obtain ⟨queue, stop, worker, consumer, delivered⟩ := s
  cases worker with
  | extracting rest =>
      cases rest with
      | nil => simp [work, IterState.work, erase, DeliveryWorker.erase]
      | cons b rest => simp [work, IterState.work, erase, DeliveryWorker.erase]
  | polling b rest =>
      cases stop with
      | false => simp [work, IterState.work, erase, DeliveryWorker.erase]
      | true => simp [work, IterState.work, erase, DeliveryWorker.erase, DeliveryItem.erase]
  | putting b rest =>
      by_cases hlt : queue.length < IterState.maxsize size
      · simp [work, IterState.work, erase, DeliveryWorker.erase, DeliveryItem.erase, hlt]
      · simp [work, IterState.work, erase, DeliveryWorker.erase, hlt]
  | closing item =>
      by_cases hlt : queue.length < IterState.maxsize size
      · simp [work, IterState.work, erase, DeliveryWorker.erase, hlt]
      · simp [work, IterState.work, erase, DeliveryWorker.erase, hlt]
  | exited => rfl

theorem erase_get (s : DeliveryState β ε) (endItem : BatchItem) :
    s.get.erase = s.erase.step size endItem .get := by
  obtain ⟨queue, stop, worker, consumer, delivered⟩ := s
  cases consumer with
  | getting =>
      cases queue with
      | nil => rfl
      | cons item queue => cases item <;> rfl
  | yielded => rfl
  | returned => rfl
  | raised e => rfl
  | closed => rfl

/-- **One step with the data is one step without it.** -/
theorem erase_step (s : DeliveryState β ε) (a : IterStep) :
    (s.step size ending a).erase = s.erase.step size (endKind ending) a := by
  cases a with
  | work => exact erase_work size ending s
  | get => exact erase_get size s (endKind ending)
  | resume =>
      obtain ⟨queue, stop, worker, consumer, delivered⟩ := s
      cases consumer <;> rfl
  | close =>
      obtain ⟨queue, stop, worker, consumer, delivered⟩ := s
      cases consumer <;> rfl

/-- A run with the data is a run without it. -/
theorem erase_exec (s : DeliveryState β ε) (steps : List IterStep) :
    (s.exec size ending steps).erase = s.erase.exec size (endKind ending) steps := by
  induction steps generalizing s with
  | nil => rfl
  | cons a steps ih =>
      rw [exec, List.foldl_cons, IterState.exec, List.foldl_cons, ← erase_step]
      exact ih (s.step size ending a)

end Erase

/-! ### The script of an extraction -/

/-- Everything that the worker puts when nobody stops it, in order. -/
def script (batches : List β) (ending : Option ε) : List (DeliveryItem β ε) :=
  batches.map .batch ++ [.ofEnding ending]

/-- A script taken up to an item that is no batch is taken up to its end. -/
theorem eq_of_script {taken batches : List β} {ending : Option ε} {item : DeliveryItem β ε}
    {more : List (DeliveryItem β ε)} (hitem : ∀ b, item ≠ .batch b)
    (h : taken.map .batch ++ item :: more = script batches ending) :
    taken = batches ∧ item = .ofEnding ending := by
  induction taken generalizing batches with
  | nil =>
      cases batches with
      | nil =>
          simp only [script, List.map_nil, List.nil_append, List.cons.injEq] at h
          exact ⟨rfl, h.1⟩
      | cons b batches =>
          simp only [script, List.map_nil, List.nil_append, List.map_cons, List.cons_append,
            List.cons.injEq] at h
          exact absurd h.1 (hitem b)
  | cons t taken ih =>
      cases batches with
      | nil =>
          simp [script] at h
      | cons b batches =>
          simp only [script, List.map_cons, List.cons_append, List.cons.injEq,
            DeliveryItem.batch.injEq] at h
          obtain ⟨rfl, hrest⟩ := h
          obtain ⟨rfl, hend⟩ := ih hrest
          exact ⟨rfl, hend⟩

/-- Batches at the head of a script are batches of the extraction. -/
theorem prefix_of_script {taken batches : List β} {ending : Option ε}
    {more : List (DeliveryItem β ε)}
    (h : taken.map .batch ++ more = script batches ending) : taken <+: batches := by
  induction taken generalizing batches with
  | nil => exact List.nil_prefix
  | cons t taken ih =>
      cases batches with
      | nil => cases ending <;> simp [script, DeliveryItem.ofEnding] at h
      | cons b batches =>
          simp only [script, List.map_cons, List.cons_append, List.cons.injEq,
            DeliveryItem.batch.injEq] at h
          obtain ⟨rfl, hrest⟩ := h
          exact List.cons_prefix_cons.mpr ⟨rfl, ih hrest⟩

/-! ### The invariant -/

end DeliveryState

/-- What a worker that nobody stops has still to put. -/
def DeliveryWorker.unsent (ending : Option ε) : DeliveryWorker β ε → List (DeliveryItem β ε)
  | .extracting rest => DeliveryState.script rest ending
  | .polling b rest => DeliveryState.script (b :: rest) ending
  | .putting b rest => DeliveryState.script (b :: rest) ending
  | .closing item => [item]
  | .exited => []

namespace DeliveryState

/-- Nobody has stopped the worker; what is delivered, waits, and is still to be put is the script of
the extraction. -/
structure Streams (batches : List β) (ending : Option ε) (s : DeliveryState β ε) : Prop where
  running : s.stop = false
  script : s.delivered.map .batch ++ (s.queue ++ s.worker.unsent ending) =
    DeliveryState.script batches ending

/-- What holds of the generator wherever it stands. -/
def Delivers (batches : List β) (ending : Option ε) (s : DeliveryState β ε) : Prop :=
  match s.consumer with
  | .getting => s.Streams batches ending
  | .yielded => s.Streams batches ending
  | .returned => s.delivered = batches ∧ ending = none
  | .raised e => s.delivered = batches ∧ ending = some e
  | .closed => s.delivered <+: batches

variable {size : ℤ} {ending : Option ε} {batches : List β} {s : DeliveryState β ε}

theorem streams_start (batches : List β) (ending : Option ε) :
    (start batches).Streams batches ending := ⟨rfl, rfl⟩

/-- The worker moves an item from what it has to put into the queue, or nothing. -/
theorem Streams.work (h : s.Streams batches ending) (size : ℤ) :
    (s.work size ending).Streams batches ending := by
  obtain ⟨hrun, hscript⟩ := h
  unfold DeliveryState.work
  cases hw : s.worker with
  | extracting rest =>
      rw [hw] at hscript
      cases rest with
      | nil => exact ⟨hrun, hscript⟩
      | cons b rest => exact ⟨hrun, hscript⟩
  | polling b rest =>
      rw [hw] at hscript
      dsimp only
      rw [if_neg (by simp [hrun])]
      exact ⟨hrun, hscript⟩
  | putting b rest =>
      rw [hw] at hscript
      dsimp only
      split
      · refine ⟨hrun, ?_⟩
        rw [← hscript, List.append_assoc]
        rfl
      · exact ⟨hrun, hscript⟩
  | closing item =>
      dsimp only
      split
      · rw [hw] at hscript
        refine ⟨hrun, ?_⟩
        rw [← hscript, List.append_assoc]
        rfl
      · exact ⟨hrun, hscript⟩
  | exited => exact ⟨hrun, hscript⟩

/-- The worker does not touch what the generator has yielded, nor where it stands. -/
theorem work_frame (size : ℤ) (ending : Option ε) (s : DeliveryState β ε) :
    (s.work size ending).delivered = s.delivered ∧ (s.work size ending).consumer = s.consumer := by
  unfold work
  repeat' split
  all_goals exact ⟨rfl, rfl⟩

theorem Delivers.work (h : s.Delivers batches ending) (size : ℤ) :
    (s.work size ending).Delivers batches ending := by
  obtain ⟨hdelivered, hconsumer⟩ := work_frame size ending s
  unfold Delivers at h ⊢
  rw [hconsumer]
  cases hc : s.consumer with
  | getting => rw [hc] at h; exact Streams.work h size
  | yielded => rw [hc] at h; exact Streams.work h size
  | returned => rw [hc] at h; rw [hdelivered]; exact h
  | raised e => rw [hc] at h; rw [hdelivered]; exact h
  | closed => rw [hc] at h; rw [hdelivered]; exact h

/-- Taking an item: a batch is yielded next, and an end item is only reached when all is yielded. -/
theorem Delivers.get (h : s.Delivers batches ending) : s.get.Delivers batches ending := by
  obtain ⟨queue, stop, worker, consumer, delivered⟩ := s
  cases consumer with
  | getting =>
      obtain ⟨hrun, hscript⟩ : Streams batches ending _ := h
      cases queue with
      | nil => exact ⟨hrun, hscript⟩
      | cons item queue =>
          cases item with
          | batch b =>
              have hmoved : (delivered ++ [b]).map .batch ++ (queue ++ worker.unsent ending) =
                  script batches ending := by simpa using hscript
              exact ⟨hrun, hmoved⟩
          | done =>
              obtain ⟨htaken, hend⟩ := eq_of_script nofun hscript
              refine ⟨htaken, ?_⟩
              cases ending with
              | none => rfl
              | some e => cases hend
          | raised e =>
              obtain ⟨htaken, hend⟩ := eq_of_script nofun hscript
              refine ⟨htaken, ?_⟩
              cases ending with
              | none => cases hend
              | some e' => cases hend; rfl
  | yielded => exact h
  | returned => exact h
  | raised e => exact h
  | closed => exact h

/-- **Every step keeps the invariant.** -/
theorem Delivers.step (h : s.Delivers batches ending) (size : ℤ) (a : IterStep) :
    (s.step size ending a).Delivers batches ending := by
  cases a with
  | work => exact h.work size
  | get => exact h.get
  | resume =>
      obtain ⟨queue, stop, worker, consumer, delivered⟩ := s
      cases consumer with
      | yielded => exact ⟨h.running, h.script⟩
      | getting => exact h
      | returned => exact h
      | raised e => exact h
      | closed => exact h
  | close =>
      obtain ⟨queue, stop, worker, consumer, delivered⟩ := s
      -- what an open generator has yielded is the head of the script
      cases consumer with
      | getting => exact prefix_of_script h.script
      | yielded => exact prefix_of_script h.script
      | returned => exact h
      | raised e => exact h
      | closed => exact h

theorem delivers_exec (size : ℤ) (batches : List β) (ending : Option ε) (steps : List IterStep) :
    ((start batches).exec size ending steps).Delivers batches ending := by
  induction steps using List.reverseRecOn with
  | nil => exact streams_start batches ending
  | append_singleton steps a ih =>
      rw [exec_concat]
      exact ih.step size a

theorem Delivers.prefix_batches (h : s.Delivers batches ending) : s.delivered <+: batches := by
  unfold Delivers at h
  cases hc : s.consumer with
  | getting => rw [hc] at h; exact prefix_of_script h.script
  | yielded => rw [hc] at h; exact prefix_of_script h.script
  | returned => rw [hc] at h; exact h.1 ▸ List.prefix_refl _
  | raised e => rw [hc] at h; exact h.1 ▸ List.prefix_refl _
  | closed => rw [hc] at h; exact h

/-- **`iter_batches` delivers in order, without loss and without doubling.**  Whatever the size of
the queue, the batches of the extraction, its end, and the steps of the two threads: what the
generator has yielded is a prefix of the batches; a generator that has returned has yielded all of
them; and one that has raised an exception has raised the one of the extraction, after all the
batches before it. -/
theorem exec_delivers_in_order (size : ℤ) (batches : List β) (ending : Option ε)
    (steps : List IterStep) :
    ((start batches).exec size ending steps).delivered <+: batches ∧
      (((start batches).exec size ending steps).consumer = .returned →
        ((start batches).exec size ending steps).delivered = batches ∧ ending = none) ∧
      ∀ e, ((start batches).exec size ending steps).consumer = .raised e →
        ((start batches).exec size ending steps).delivered = batches ∧ ending = some e := by
  have h := delivers_exec size batches ending steps
  refine ⟨h.prefix_batches, fun hc => ?_, fun e hc => ?_⟩
  · rw [Delivers, hc] at h
    exact h
  · rw [Delivers, hc] at h
    exact h

/-- Two batches and then an exception, through a queue of one. -/
theorem exec_delivers_in_order_raised :
    ((start [7, 8]).exec 1 (some "bad") [.work, .work, .work, .get, .work, .resume, .work, .work,
      .get, .resume, .work, .work, .get]).delivered = [7, 8] := by
  have hraised : ((start [7, 8]).exec 1 (some "bad") [.work, .work, .work, .get, .work, .resume,
      .work, .work, .get, .resume, .work, .work, .get]).consumer = .raised "bad" := by
    simp [start, exec, step, work, get, resume, IterState.maxsize, DeliveryItem.ofEnding]
  exact ((exec_delivers_in_order 1 [7, 8] (some "bad") _).2.2 "bad" hraised).1

end DeliveryState

end PcapRacer
