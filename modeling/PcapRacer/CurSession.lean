/-
**Any sequence of reads, over any number of cursors.**

A program holds cursors, reads from whichever it likes, and cuts new ones out of those that it
holds.  A session is such a sequence of calls on a buffer, run with the actions of the source.  Next
to a cursor stands where its slice starts in the buffer and which cursor it was cut out of; no
action reads either.

Main definitions:

* `CurOp`, `CurOp.action` — the operations;
* `CurOp.Exact` — what an operation does to a cursor, and when it refuses;
* `Held`, `Session.step`, `Session.run` — sessions;
* `Session.Sound`, `Session.Keeps` — the invariant, and what a call never changes;
* `Session.MadeFrom` — which cursors were cut out of which.

Main results:

* `CurOp.exact_of_pos_le` — every operation is exact on a cursor whose position is in its slice;
* `Session.step_sound` — a call does not fault and keeps the invariant;
* `Session.run_exact` — **in every session the position stays in the slice, every read is exact, and
  a cursor that was cut out stays in its region, as does all that is cut out of it**.
-/

import Mathlib.Logic.Relation
import PcapRacer.ChunkedRun
import PcapRacer.CurActions

set_option relaxedAutoImplicit false
set_option autoImplicit false

namespace PcapRacer

/-! ### Operations -/

/-- The operations of a cursor. -/
inductive CurOp where
  | need (n : ℕ)
  | take (n : ℕ)
  | skip (n : ℕ)
  | sub (n : ℕ)
  | peek (n : ℕ)
  | u8
  | peekU8
  | be16
  | be24
  | be32
  | be64
  | le16
  | le32
  | le64
  | ipv4
  | ipv6
  | mac
  | rest
  | takeRest
  deriving DecidableEq

/-- What an operation hands back. -/
inductive CurAnswer where
  | done
  | bytes (b : Bytes)
  | peeked (b : Option Bytes)
  | cursor (r : RawCur)
  | u8 (v : UInt8)
  | u16 (v : UInt16)
  | u32 (v : UInt32)
  | u64 (v : UInt64)
  | u128 (v : BitVec 128)

namespace CurOp

/-- The operation as an action of the source. -/
def action : CurOp → CurM CurAnswer
  | need n => do RawCur.need n; return .done
  | take n => do return .bytes (← RawCur.take n)
  | skip n => do RawCur.skip n; return .done
  | sub n => do return .cursor (← RawCur.sub n)
  | peek n => do return .peeked (← RawCur.peek n)
  | u8 => do return .u8 (← RawCur.u8)
  | peekU8 => do return .u8 (← RawCur.peekU8)
  | be16 => do return .u16 (← RawCur.be16)
  | be24 => do return .u32 (← RawCur.be24)
  | be32 => do return .u32 (← RawCur.be32)
  | be64 => do return .u64 (← RawCur.be64)
  | le16 => do return .u16 (← RawCur.le16)
  | le32 => do return .u32 (← RawCur.le32)
  | le64 => do return .u64 (← RawCur.le64)
  | ipv4 => do return .u32 (← RawCur.ipv4)
  | ipv6 => do return .u128 (← RawCur.ipv6)
  | mac => do return .bytes (← RawCur.mac)
  | rest => do return .bytes (← RawCur.rest)
  | takeRest => do return .bytes (← RawCur.takeRest)

/-- How many bytes an operation asks for. -/
def size (r : RawCur) : CurOp → ℕ
  | need n | take n | skip n | sub n | peek n => n
  | u8 | peekU8 => 1
  | be16 | le16 => 2
  | be24 => 3
  | be32 | le32 | ipv4 => 4
  | mac => 6
  | be64 | le64 => 8
  | ipv6 => 16
  | rest | takeRest => r.data.length - r.pos

/-- The operation leaves the bytes that it looks at where they are. -/
def peeks : CurOp → Bool
  | need _ | peek _ | peekU8 | rest => true
  | _ => false

/-- What an operation makes of the bytes that it asks for. -/
def answer (b : Bytes) : CurOp → CurAnswer
  | need _ | skip _ => .done
  | take _ | mac | rest | takeRest => .bytes b
  | sub _ => .cursor (RawCur.new b)
  | peek _ => .peeked (some b)
  | u8 | peekU8 => .u8 (b.headD 0)
  | be16 => .u16 (.ofNat (beNat b))
  | be24 | be32 | ipv4 => .u32 (.ofNat (beNat b))
  | be64 => .u64 (.ofNat (beNat b))
  | le16 => .u16 (.ofNat (leNat b))
  | le32 => .u32 (.ofNat (leNat b))
  | le64 => .u64 (.ofNat (leNat b))
  | ipv6 => .u128 (.ofNat 128 (beNat b))

/-- What an operation says when the bytes are not there. -/
def refusal : CurOp → Except DissectError CurAnswer
  | peek _ => .ok (.peeked none)
  | _ => .error .truncated

/-- Where an operation that gets its bytes leaves the position. -/
def after (r : RawCur) (op : CurOp) : ℕ := if op.peeks then r.pos else r.pos + op.size r

/-- What an operation does to a cursor: it gets exactly the bytes at the position and moves past
them, or it is refused and moves nothing, and it is refused exactly when there are too few. -/
structure Exact (r : RawCur) (op : CurOp) : Prop where
  read : r.pos + op.size r ≤ r.data.length →
    op.action.exec r =
      .ok (.ok (op.answer ((r.data.drop r.pos).take (op.size r))), { r with pos := op.after r })
  refuse : r.data.length < r.pos + op.size r → op.action.exec r = .ok (op.refusal, r)
  refuses_iff : (∃ r', op.action.exec r = .ok (op.refusal, r')) ↔
    r.data.length < r.pos + op.size r

open CurM

variable {c : Cur}

/-- There are enough bytes. -/
theorem room_iff (c : Cur) (n : ℕ) : c.pos + n ≤ c.data.length ↔ n ≤ c.remaining := by
  have := c.pos_le
  unfold Cur.remaining
  omega

/-- What an operation does, in one expression. -/
def outcome (r : RawCur) (op : CurOp) : Except DissectError CurAnswer × RawCur :=
  if r.pos + op.size r ≤ r.data.length then
    (.ok (op.answer ((r.data.drop r.pos).take (op.size r))), { r with pos := op.after r })
  else (op.refusal, r)

/-- A read of the model. -/
theorem kept_read (c : Cur) (n : ℕ) {α : Type} (f : Bytes → α) :
    kept c (c.read n f) =
      if c.pos + n ≤ c.data.length then
        (.ok (f (c.rest.take n)), { c.raw with pos := c.pos + n })
      else (.error .truncated, c.raw) := by
  unfold Cur.read
  by_cases h : n ≤ c.remaining
  · rw [Cur.take_of_le h, if_pos ((room_iff c n).mpr h)]
    rfl
  · rw [Cur.take, dif_neg h, if_neg (mt (room_iff c n).mp h)]
    rfl

/-- The operations that move the cursor. -/
theorem exec_of_reads {op : CurOp} (hpeeks : op.peeks = false)
    (h : Reads op.action (op.size c.raw) fun b => op.answer b) (hc : Counted c) :
    op.action.exec c.raw = .ok (op.outcome c.raw) := by
  have hrefusal : op.refusal = .error .truncated := by
    cases op <;> first | rfl | cases hpeeks
  have hafter : op.after c.raw = c.pos + op.size c.raw := by
    rw [after, hpeeks]
    rfl
  rw [h c hc, kept_read, outcome, hrefusal, hafter]
  rfl

/-- The operations that leave the cursor alone, when there are enough bytes. -/
theorem outcome_of_peeks (c : Cur) (op : CurOp) (hpeeks : op.peeks = true)
    (hroom : op.size c.raw ≤ c.remaining) :
    op.outcome c.raw = (.ok (op.answer (c.rest.take (op.size c.raw))), c.raw) := by
  have hafter : op.after c.raw = c.pos := by
    rw [after, hpeeks]
    rfl
  unfold outcome
  rw [hafter]
  exact if_pos ((room_iff c _).mpr hroom)

theorem outcome_of_not_room (c : Cur) (op : CurOp) (hroom : ¬ op.size c.raw ≤ c.remaining) :
    op.outcome c.raw = (op.refusal, c.raw) := if_neg (mt (room_iff c _).mp hroom)

/-- What an action does is what the source does, as far as the operation goes on. -/
theorem exec_map {α β : Type} {m : CurM α} {r r' : RawCur} {o : Except DissectError α}
    (h : m.exec r = .ok (o, r')) (g : α → β) :
    (m >>= fun a => pure (g a)).exec r = .ok (o.map g, r') := by
  rw [exec_bind_eq, h]
  cases o <;> rfl

theorem exec_need (c : Cur) (n : ℕ) :
    (need n).action.exec c.raw = .ok ((need n).outcome c.raw) := by
  refine (exec_map (RawCur.exec_need c n) fun _ => CurAnswer.done).trans ?_
  by_cases h : n ≤ c.remaining
  · rw [if_pos h, outcome_of_peeks c (need n) rfl h]
    rfl
  · rw [if_neg h, outcome_of_not_room c (need n) h]
    rfl

theorem exec_peek (hc : Counted c) (n : ℕ) :
    (peek n).action.exec c.raw = .ok ((peek n).outcome c.raw) := by
  refine (exec_map (RawCur.exec_peek hc n) CurAnswer.peeked).trans ?_
  unfold Cur.peek
  by_cases h : n ≤ c.remaining
  · rw [if_pos h, outcome_of_peeks c (peek n) rfl h]
    rfl
  · rw [if_neg h, outcome_of_not_room c (peek n) h]
    rfl

theorem exec_peekU8 (c : Cur) : peekU8.action.exec c.raw = .ok (peekU8.outcome c.raw) := by
  refine (exec_map (RawCur.exec_peekU8 c) CurAnswer.u8).trans ?_
  rw [Cur.peekU8, Cur.u8_eq_read, Cur.read]
  by_cases h : 1 ≤ c.remaining
  · rw [Cur.take_of_le h, outcome_of_peeks c peekU8 rfl h]
    rfl
  · rw [Cur.take, dif_neg h, outcome_of_not_room c peekU8 h]
    rfl

theorem rest_take_remaining (c : Cur) : c.rest.take c.remaining = c.rest := by
  rw [← Cur.length_rest, List.take_length]

theorem exec_rest (c : Cur) : rest.action.exec c.raw = .ok (rest.outcome c.raw) := by
  refine (exec_map (RawCur.exec_rest c) CurAnswer.bytes).trans ?_
  have hread := rest_take_remaining c
  rw [outcome_of_peeks c rest rfl (Nat.le_refl c.remaining)]
  change _ = Except.ok (Except.ok (CurAnswer.bytes (c.rest.take c.remaining)), c.raw)
  rw [hread]
  rfl

theorem exec_takeRest (c : Cur) : takeRest.action.exec c.raw = .ok (takeRest.outcome c.raw) := by
  refine (exec_map (RawCur.exec_takeRest c) CurAnswer.bytes).trans ?_
  have hend : c.pos + c.remaining = c.data.length := Nat.add_sub_cancel' c.pos_le
  have hread := rest_take_remaining c
  change _ = Except.ok (if c.pos + c.remaining ≤ c.data.length then
    (Except.ok (CurAnswer.bytes (c.rest.take c.remaining)),
      { c.raw with pos := c.pos + c.remaining }) else _)
  rw [hread, hend, if_pos (Nat.le_refl _)]
  rfl

/-- **Every operation does what it is for**, whatever number it is asked for. -/
theorem exec_action (hc : Counted c) (op : CurOp) :
    op.action.exec c.raw = .ok (op.outcome c.raw) := by
  cases op with
  | need n => exact exec_need c n
  | take n => exact exec_of_reads rfl ((RawCur.reads_take n).bind_pure _) hc
  | skip n =>
      exact exec_of_reads rfl ((RawCur.reads_skip n).bind_pure fun _ => CurAnswer.done) hc
  | sub n => exact exec_of_reads rfl ((RawCur.reads_sub n).bind_pure _) hc
  | peek n => exact exec_peek hc n
  | u8 => exact exec_of_reads rfl (RawCur.reads_u8.bind_pure _) hc
  | peekU8 => exact exec_peekU8 c
  | be16 => exact exec_of_reads rfl (RawCur.reads_be16.bind_pure _) hc
  | be24 => exact exec_of_reads rfl (RawCur.reads_be24.bind_pure _) hc
  | be32 => exact exec_of_reads rfl (RawCur.reads_be32.bind_pure _) hc
  | be64 => exact exec_of_reads rfl (RawCur.reads_be64.bind_pure _) hc
  | le16 => exact exec_of_reads rfl (RawCur.reads_le16.bind_pure _) hc
  | le32 => exact exec_of_reads rfl (RawCur.reads_le32.bind_pure _) hc
  | le64 => exact exec_of_reads rfl (RawCur.reads_le64.bind_pure _) hc
  | ipv4 => exact exec_of_reads rfl (RawCur.reads_ipv4.bind_pure _) hc
  | ipv6 => exact exec_of_reads rfl (RawCur.reads_ipv6.bind_pure _) hc
  | mac => exact exec_of_reads rfl (RawCur.reads_mac.bind_pure _) hc
  | rest => exact exec_rest c
  | takeRest => exact exec_takeRest c

section Outcome

variable (r : RawCur) (op : CurOp)

theorem outcome_data : (op.outcome r).2.data = r.data := by
  unfold outcome
  split <;> rfl

theorem le_outcome_pos : r.pos ≤ (op.outcome r).2.pos := by
  unfold outcome after
  split
  · dsimp only
    split
    · exact Nat.le_refl _
    · exact Nat.le_add_right _ _
  · exact Nat.le_refl _

variable {r op}

theorem outcome_pos_le (hpos : r.pos ≤ r.data.length) :
    (op.outcome r).2.pos ≤ r.data.length := by
  unfold outcome after
  split
  · next hroom =>
      dsimp only
      split
      · exact hpos
      · exact hroom
  · exact hpos

/-- Only `sub` makes a cursor, and it makes it of the bytes that it moves past. -/
theorem sub_of_outcome {inner : RawCur} (h : (op.outcome r).1 = .ok (.cursor inner)) :
    ∃ n, op = sub n ∧ r.pos + n ≤ r.data.length ∧
      inner = RawCur.new ((r.data.drop r.pos).take n) := by
  unfold outcome at h
  split at h
  · next hroom =>
      cases op with
      | sub n =>
          cases h
          exact ⟨n, rfl, hroom, rfl⟩
      | _ => cases h
  · cases op <;> cases h

end Outcome

/-- No answer is a refusal. -/
theorem refusal_ne (op : CurOp) (b : Bytes) : op.refusal ≠ .ok (op.answer b) := by
  cases op <;> simp [refusal, answer]

theorem exec_raw {r : RawCur} (hpos : r.pos ≤ r.data.length)
    (hlen : r.data.length < 2 ^ Machine.usize) (op : CurOp) :
    op.action.exec r = .ok (op.outcome r) := by
  let c : Cur := { base := 0, data := r.data, pos := r.pos, pos_le := hpos }
  have hc : Counted c := hlen
  exact exec_action hc op

/-- **Every operation is exact** on a cursor whose position is in its slice. -/
theorem exact_of_pos_le {r : RawCur} (hpos : r.pos ≤ r.data.length)
    (hlen : r.data.length < 2 ^ Machine.usize) (op : CurOp) : op.Exact r := by
  have hexec := exec_raw hpos hlen op
  have hshort : r.data.length < r.pos + op.size r → op.outcome r = (op.refusal, r) := fun h =>
    if_neg (Nat.not_le.mpr h)
  refine ⟨fun h => ?_, fun h => ?_, ⟨fun ⟨r', h⟩ => ?_, fun h => ⟨r, ?_⟩⟩⟩
  · rw [hexec, outcome, if_pos h]
  · rw [hexec, hshort h]
  · by_contra hroom
    rw [hexec, outcome, if_pos (Nat.not_lt.mp hroom)] at h
    exact op.refusal_ne _ (Prod.ext_iff.mp (Except.ok.inj h)).1.symm
  · rw [hexec, hshort h]

end CurOp

/-! ### Sessions -/

/-- A cursor that a program holds, where its slice starts in the buffer, and the place of the cursor
that it was cut out of. -/
structure Held where
  cur : RawCur
  base : ℕ
  maker : Option ℕ

namespace Held

/-- Where the slice ends in the buffer. -/
def stop (h : Held) : ℕ := h.base + h.cur.data.length

/-- The position is in the slice, and the slice is where it is said to be. -/
structure Sound (data : Bytes) (h : Held) : Prop where
  pos_le : h.cur.pos ≤ h.cur.data.length
  stop_le : h.stop ≤ data.length
  data_eq : h.cur.data = (data.drop h.base).take h.cur.data.length

/-- The two are one cursor, but for the position. -/
structure SameSlice (h h' : Held) : Prop where
  base_eq : h'.base = h.base
  data_eq : h'.cur.data = h.cur.data
  maker_eq : h'.maker = h.maker

theorem SameSlice.refl (h : Held) : SameSlice h h := ⟨rfl, rfl, rfl⟩

theorem SameSlice.trans {h h' h'' : Held} (hs : SameSlice h h') (hs' : SameSlice h' h'') :
    SameSlice h h'' :=
  ⟨hs'.base_eq.trans hs.base_eq, hs'.data_eq.trans hs.data_eq, hs'.maker_eq.trans hs.maker_eq⟩

theorem SameSlice.stop_eq {h h' : Held} (hs : SameSlice h h') : h'.stop = h.stop := by
  rw [stop, stop, hs.base_eq, hs.data_eq]

/-- The cursor that `sub` makes of the next `n` bytes of the one at place `i`. -/
def cut (i : ℕ) (h : Held) (n : ℕ) : Held where
  cur := RawCur.new ((h.cur.data.drop h.cur.pos).take n)
  base := h.base + h.cur.pos
  maker := some i

section Cut

variable {data : Bytes} {h : Held} {n : ℕ}

theorem length_cut (i : ℕ) (hroom : h.cur.pos + n ≤ h.cur.data.length) :
    (cut i h n).cur.data.length = n := by
  change ((h.cur.data.drop h.cur.pos).take n).length = n
  rw [List.length_take, List.length_drop]
  omega

/-- The region of a new cursor ends where it was asked to. -/
theorem stop_cut (i : ℕ) (hroom : h.cur.pos + n ≤ h.cur.data.length) :
    (cut i h n).stop = h.base + h.cur.pos + n := by
  rw [stop, length_cut i hroom]
  rfl

theorem Sound.cut (hh : h.Sound data) (i : ℕ) (hroom : h.cur.pos + n ≤ h.cur.data.length) :
    (h.cut i n).Sound data := by
  have hlen := length_cut i hroom
  have hstop := hh.stop_le
  refine ⟨Nat.zero_le _, ?_, ?_⟩
  · rw [stop_cut i hroom]
    unfold stop at hstop
    omega
  · rw [hlen]
    change (h.cur.data.drop h.cur.pos).take n = (data.drop (h.base + h.cur.pos)).take n
    rw [hh.data_eq, List.drop_take, List.take_take, List.drop_drop, Nat.min_eq_left (by omega)]

end Cut

end Held

namespace Session

open Held

/-- The cursor that a call hands back. -/
def made (i : ℕ) (h : Held) : Except DissectError CurAnswer → Option Held
  | .ok (.cursor r) => some { cur := r, base := h.base + h.cur.pos, maker := some i }
  | _ => none

/-- A call of an operation of the cursor at a given place; at no place there is nothing to call. -/
def step (s : List Held) (call : ℕ × CurOp) :
    Except Fault (List Held × Option (Except DissectError CurAnswer)) :=
  match s[call.1]? with
  | none => .ok (s, none)
  | some h =>
      (call.2.action.exec h.cur).map fun p =>
        (s.set call.1 { h with cur := p.2 } ++ (made call.1 h p.1).toList, some p.1)

/-- One cursor on a buffer. -/
def start (data : Bytes) : List Held := [{ cur := RawCur.new data, base := 0, maker := none }]

/-- The calls of a session, one after the other. -/
def run (data : Bytes) (calls : List (ℕ × CurOp)) :
    Except Fault (List Held × List (Option (Except DissectError CurAnswer))) :=
  ChunkedRun.scan step (start data) calls

/-- The cursor at the one place was cut out of that at the other, or of one that was. -/
def MadeFrom (s : List Held) : ℕ → ℕ → Prop :=
  Relation.ReflTransGen fun i j => ∃ h, s[j]? = some h ∧ h.maker = some i

/-- Every cursor is sound, and its slice lies in that of the cursor that it was cut out of. -/
structure Sound (data : Bytes) (s : List Held) : Prop where
  held : ∀ h ∈ s, h.Sound data
  nested : ∀ (j : ℕ) (h : Held) (i : ℕ), s[j]? = some h → h.maker = some i →
    ∃ p : Held, s[i]? = some p ∧ p.base ≤ h.base ∧ h.stop ≤ p.stop

/-- What a call never changes: a cursor keeps its slice, and its position does not go back. -/
structure Keeps (s s' : List Held) : Prop where
  held : ∀ (i : ℕ) (h : Held), s[i]? = some h →
    ∃ h' : Held, s'[i]? = some h' ∧ SameSlice h h' ∧ h.cur.pos ≤ h'.cur.pos

theorem Keeps.refl (s : List Held) : Keeps s s :=
  ⟨fun _ h hi => ⟨h, hi, SameSlice.refl h, Nat.le_refl _⟩⟩

theorem Keeps.trans {s s' s'' : List Held} (h : Keeps s s') (h' : Keeps s' s'') : Keeps s s'' := by
  refine ⟨fun i p hp => ?_⟩
  obtain ⟨q, hq, hsame, hpos⟩ := h.held i p hp
  obtain ⟨o, ho, hsame', hpos'⟩ := h'.held i q hq
  exact ⟨o, ho, hsame.trans hsame', hpos.trans hpos'⟩

variable {data : Bytes} {s : List Held} {i : ℕ} {h : Held}

/-- A cursor whose position goes on. -/
theorem keeps_set (hi : s[i]? = some h) {cur : RawCur} (hdata : cur.data = h.cur.data)
    (hpos : h.cur.pos ≤ cur.pos) : Keeps s (s.set i { h with cur }) := by
  refine ⟨fun j p hp => ?_⟩
  rcases eq_or_ne i j with rfl | hne
  · obtain rfl : h = p := Option.some_inj.mp (hi.symm.trans hp)
    have hlt : i < s.length := (List.getElem?_eq_some_iff.mp hi).1
    exact ⟨_, List.getElem?_set_self hlt, ⟨rfl, hdata, rfl⟩, hpos⟩
  · exact ⟨p, (List.getElem?_set_ne hne).trans hp, SameSlice.refl p, Nat.le_refl _⟩

theorem keeps_append (s t : List Held) : Keeps s (s ++ t) := by
  refine ⟨fun j p hp => ⟨p, ?_, SameSlice.refl p, Nat.le_refl _⟩⟩
  rw [List.getElem?_append_left (List.getElem?_eq_some_iff.mp hp).1, hp]

/-- Nothing is forgotten and nothing is new where a list only keeps what it has. -/
theorem exists_of_keeps {s' : List Held} (hkeeps : Keeps s s') (hlen : s'.length = s.length) {j : ℕ}
    {p : Held} (hj : s'[j]? = some p) : ∃ q, s[j]? = some q ∧ SameSlice q p := by
  have hlt : j < s.length := hlen ▸ (List.getElem?_eq_some_iff.mp hj).1
  obtain ⟨p', hj', hsame, -⟩ := hkeeps.held j _ (List.getElem?_eq_getElem hlt)
  obtain rfl : p = p' := Option.some_inj.mp (hj.symm.trans hj')
  exact ⟨_, List.getElem?_eq_getElem hlt, hsame⟩

theorem Sound.set (hs : Sound data s) (hi : s[i]? = some h) {cur : RawCur}
    (hdata : cur.data = h.cur.data) (hpos : h.cur.pos ≤ cur.pos)
    (hle : cur.pos ≤ h.cur.data.length) : Sound data (s.set i { h with cur }) := by
  have hkeeps := keeps_set hi hdata hpos
  refine ⟨fun p hp => ?_, fun j p k hj hk => ?_⟩
  · rcases List.mem_or_eq_of_mem_set hp with hp | rfl
    · exact hs.held p hp
    · obtain ⟨-, hstop, hview⟩ := hs.held h (List.mem_of_getElem? hi)
      refine ⟨?_, ?_, ?_⟩
      · change cur.pos ≤ cur.data.length
        rwa [hdata]
      · change h.base + cur.data.length ≤ data.length
        rwa [hdata]
      · change cur.data = (data.drop h.base).take cur.data.length
        rwa [hdata]
  · obtain ⟨q, hq, hsame⟩ := exists_of_keeps hkeeps List.length_set hj
    obtain ⟨o, ho, hbase, hstop⟩ := hs.nested j q k hq (hsame.maker_eq ▸ hk)
    obtain ⟨o', ho', hsame', -⟩ := hkeeps.held k o ho
    refine ⟨o', ho', ?_, ?_⟩
    · rwa [hsame.base_eq, hsame'.base_eq]
    · rwa [hsame.stop_eq, hsame'.stop_eq]

/-- A cursor that is cut out of one that is held. -/
theorem Sound.append (hs : Sound data s) {p : Held} (hi : s[i]? = some p) {inner : Held}
    (hinner : inner.Sound data) (hmaker : inner.maker = some i) (hbase : p.base ≤ inner.base)
    (hstop : inner.stop ≤ p.stop) : Sound data (s ++ [inner]) := by
  have hold : ∀ {j : ℕ} {q : Held}, s[j]? = some q → (s ++ [inner])[j]? = some q := by
    intro j q hq
    rw [List.getElem?_append_left (List.getElem?_eq_some_iff.mp hq).1, hq]
  refine ⟨fun q hq => ?_, fun j q k hj hk => ?_⟩
  · rcases List.mem_append.mp hq with hq | hq
    · exact hs.held q hq
    · obtain rfl := List.mem_singleton.mp hq
      exact hinner
  · rcases Nat.lt_or_ge j s.length with hlt | hge
    · rw [List.getElem?_append_left hlt] at hj
      obtain ⟨o, ho, hnested⟩ := hs.nested j q k hj hk
      exact ⟨o, hold ho, hnested⟩
    · rw [List.getElem?_append_right hge] at hj
      obtain rfl := List.mem_singleton.mp (List.mem_of_getElem? hj)
      obtain rfl : i = k := Option.some_inj.mp (hmaker.symm.trans hk)
      exact ⟨p, hold hi, hbase, hstop⟩

/-- What a call makes is a cut. -/
theorem made_eq_cut {op : CurOp} {inner : Held} (hm : made i h (op.outcome h.cur).1 = some inner) :
    ∃ n, op = .sub n ∧ h.cur.pos + n ≤ h.cur.data.length ∧ inner = h.cut i n := by
  unfold made at hm
  split at hm
  · next r hr =>
      obtain ⟨n, rfl, hroom, rfl⟩ := CurOp.sub_of_outcome hr
      exact ⟨n, rfl, hroom, (Option.some_inj.mp hm).symm⟩
  · cases hm

section Calls

variable (hlen : data.length < 2 ^ Machine.usize) (hs : Sound data s)

include hlen hs

theorem step_eq (hi : s[i]? = some h) (op : CurOp) :
    step s (i, op) =
      .ok (s.set i { h with cur := (op.outcome h.cur).2 } ++
        (made i h (op.outcome h.cur).1).toList, some (op.outcome h.cur).1) := by
  have hh := hs.held h (List.mem_of_getElem? hi)
  have hshort : h.cur.data.length < 2 ^ Machine.usize := by
    have := hh.stop_le
    unfold stop at this
    omega
  rw [step, hi]
  change (op.action.exec h.cur).map _ = _
  rw [CurOp.exec_raw hh.pos_le hshort op]
  rfl

/-- **A call does not fault and keeps the invariant.** -/
theorem step_sound (call : ℕ × CurOp) :
    ∃ s' a, step s call = .ok (s', a) ∧ Sound data s' ∧ Keeps s s' := by
  obtain ⟨i, op⟩ := call
  cases hi : s[i]? with
  | none => exact ⟨s, none, by rw [step, hi], hs, Keeps.refl s⟩
  | some h =>
      have hh := hs.held h (List.mem_of_getElem? hi)
      have hdata := CurOp.outcome_data h.cur op
      have hpos := CurOp.le_outcome_pos h.cur op
      have hset := hs.set hi hdata hpos (CurOp.outcome_pos_le hh.pos_le)
      have hkeeps := keeps_set hi hdata hpos
      refine ⟨_, _, step_eq hlen hs hi op, ?_, hkeeps.trans (keeps_append _ _)⟩
      cases hm : made i h (op.outcome h.cur).1 with
      | none => rwa [Option.toList_none, List.append_nil]
      | some inner =>
          obtain ⟨n, -, hroom, rfl⟩ := made_eq_cut hm
          obtain ⟨p, hp, hsame, -⟩ := hkeeps.held i h hi
          refine hset.append hp (hh.cut i hroom) rfl ?_ ?_
          · rw [hsame.base_eq]
            exact Nat.le_add_right _ _
          · rw [hsame.stop_eq, stop_cut i hroom, stop]
            omega

/-- **No session faults**, and each keeps the invariant. -/
theorem scan_sound (calls : List (ℕ × CurOp)) :
    ∃ s' as, ChunkedRun.scan step s calls = .ok (s', as) ∧ Sound data s' ∧ Keeps s s' := by
  induction calls generalizing s with
  | nil => exact ⟨s, [], rfl, hs, Keeps.refl s⟩
  | cons call calls ih =>
      obtain ⟨s₁, a, hstep, hs₁, hkeeps₁⟩ := step_sound hlen hs call
      obtain ⟨s₂, as, hscan, hs₂, hkeeps₂⟩ := ih hs₁
      refine ⟨s₂, a :: as, ?_, hs₂, hkeeps₁.trans hkeeps₂⟩
      rw [ChunkedRun.scan_cons_of_ok hstep, hscan]
      rfl

end Calls

theorem sound_start (data : Bytes) : Sound data (start data) := by
  refine ⟨fun h hh => ?_, fun j h i hj hi => ?_⟩
  · obtain rfl := List.mem_singleton.mp hh
    refine ⟨Nat.zero_le _, ?_, ?_⟩
    · exact Nat.le_of_eq (Nat.zero_add _)
    · exact (List.take_length).symm
  · obtain rfl := List.mem_singleton.mp (List.mem_of_getElem? hj)
    cases hi

/-- All that was cut out of a cursor lies in its slice. -/
theorem Sound.nested_of_madeFrom (hs : Sound data s) {k j : ℕ} (hmade : MadeFrom s k j) {p q : Held}
    (hp : s[k]? = some p) (hq : s[j]? = some q) : p.base ≤ q.base ∧ q.stop ≤ p.stop := by
  induction hmade generalizing q with
  | refl =>
      obtain rfl : p = q := Option.some_inj.mp (hp.symm.trans hq)
      exact ⟨Nat.le_refl _, Nat.le_refl _⟩
  | @tail i j _ hcut ih =>
      obtain ⟨q', hq', hmaker⟩ := hcut
      obtain rfl : q = q' := Option.some_inj.mp (hq.symm.trans hq')
      obtain ⟨o, ho, hbase, hstop⟩ := hs.nested j q i hq hmaker
      obtain ⟨hbase', hstop'⟩ := ih ho
      exact ⟨hbase'.trans hbase, hstop.trans hstop'⟩

/-- A cut is there after the call, and from then on. -/
theorem exists_cut (hlen : data.length < 2 ^ Machine.usize) (hs : Sound data s) {p : Held} {n : ℕ}
    (hi : s[i]? = some p) (hroom : p.cur.pos + n ≤ p.cur.data.length)
    (calls : List (ℕ × CurOp)) :
    ∃ s' as k, ChunkedRun.scan step s ((i, .sub n) :: calls) = .ok (s', as) ∧ Sound data s' ∧
      s'[s.length]? = some k ∧ SameSlice (p.cut i n) k := by
  have hstep := step_eq hlen hs hi (.sub n)
  have houtcome : (CurOp.outcome p.cur (.sub n)).1 =
      .ok (.cursor (RawCur.new ((p.cur.data.drop p.cur.pos).take n))) := by
    unfold CurOp.outcome
    exact congrArg Prod.fst (if_pos hroom)
  obtain ⟨s₁, a, hstep₁, hs₁, -⟩ := step_sound hlen hs (i, .sub n)
  obtain ⟨s₂, as, hscan, hs₂, hkeeps⟩ := scan_sound hlen hs₁ calls
  have hcut : s₁[s.length]? = some (p.cut i n) := by
    rw [hstep, houtcome] at hstep₁
    obtain ⟨rfl, -⟩ := Prod.ext_iff.mp (Except.ok.inj hstep₁)
    dsimp only
    rw [List.getElem?_append_right (Nat.le_of_eq List.length_set), List.length_set, Nat.sub_self]
    rfl
  obtain ⟨k, hk, hsame, -⟩ := hkeeps.held _ _ hcut
  refine ⟨s₂, a :: as, k, ?_, hs₂, hk, hsame⟩
  rw [ChunkedRun.scan_cons_of_ok hstep₁, hscan]
  rfl

/-- **Any sequence of reads, over any number of cursors**, on any buffer whose length is a number of
the machine, as that of every slice is.  No call faults: no number of remaining bytes is
negative, no slice or index leaves its array and no position overflows.  After the calls, which
may go on in any way, the position of every cursor is in its slice, and every operation on it is
exact.  A cursor that was cut out of another has the region that was asked for as its slice from
then on, and its own slice and that of all that is cut out of it lie in that region. -/
theorem run_exact (data : Bytes) (hlen : data.length < 2 ^ Machine.usize)
    (calls : List (ℕ × CurOp)) :
    ∃ s as, run data calls = .ok (s, as) ∧
      (∀ h ∈ s, h.Sound data ∧
        RawCur.remaining.exec h.cur = .ok (.ok (h.cur.data.length - h.cur.pos), h.cur) ∧
        ∀ op : CurOp, op.Exact h.cur) ∧
      ∀ before after i n s₀ as₀ p, calls = before ++ (i, .sub n) :: after →
        run data before = .ok (s₀, as₀) → s₀[i]? = some p →
        p.cur.pos + n ≤ p.cur.data.length →
        ∃ k, s[s₀.length]? = some k ∧ SameSlice (p.cut i n) k ∧
          ∀ j h, MadeFrom s s₀.length j → s[j]? = some h →
            p.base + p.cur.pos ≤ h.base ∧ h.stop ≤ p.base + p.cur.pos + n := by
  obtain ⟨s, as, hrun, hs, -⟩ := scan_sound hlen (sound_start data) calls
  refine ⟨s, as, hrun, fun h hh => ?_, ?_⟩
  · have hsound := hs.held h hh
    have hshort : h.cur.data.length < 2 ^ Machine.usize := by
      have := hsound.stop_le
      unfold stop at this
      omega
    refine ⟨hsound, ?_, CurOp.exact_of_pos_le hsound.pos_le hshort⟩
    exact CurM.exec_machine (Machine.sub_of_le hsound.pos_le) h.cur
  · intro before after i n s₀ as₀ p hcalls hbefore hi hroom
    obtain ⟨s₀', as₀', hbefore', hs₀, -⟩ := scan_sound hlen (sound_start data) before
    obtain ⟨rfl, rfl⟩ := Prod.ext_iff.mp (Except.ok.inj (hbefore.symm.trans hbefore'))
    obtain ⟨s', as', k, hscan, -, hk, hsame⟩ := exists_cut hlen hs₀ hi hroom after
    rw [hcalls, ChunkedRun.scan_append_of_ok hbefore, hscan] at hrun
    obtain ⟨rfl, -⟩ := Prod.ext_iff.mp (Except.ok.inj hrun)
    refine ⟨k, hk, hsame, fun j h hmade hj => ?_⟩
    have hnested := hs.nested_of_madeFrom hmade hk hj
    rwa [hsame.base_eq, hsame.stop_eq, stop_cut i hroom] at hnested

/-- A cursor of two bytes, cut out of six. -/
theorem run_exact_two_of_six :
    ([1, 2, 3, 4, 5, 6] : Bytes).length < 2 ^ Machine.usize ∧
      ∃ s as k, run [1, 2, 3, 4, 5, 6] [(0, .sub 2), (1, .be32)] = .ok (s, as) ∧
        s[1]? = some k ∧ k.cur.data = [1, 2] := by
  obtain ⟨s, as, hrun, -, hsub⟩ :=
    run_exact [1, 2, 3, 4, 5, 6] (by decide) [(0, .sub 2), (1, .be32)]
  obtain ⟨k, hk, hsame, -⟩ := hsub [] [(1, .be32)] 0 2 _ [] _ rfl rfl rfl (by decide)
  exact ⟨by decide, s, as, k, hrun, hk, hsame.data_eq⟩

-- reads past the end fail and move nothing
example :
    run [1, 2, 3] [(0, .be16), (0, .be32), (0, .take 9), (0, .skip 2), (0, .u8)] =
      .ok ([{ cur := { data := [1, 2, 3], pos := 3 }, base := 0, maker := none }],
        [some (.ok (.u16 0x0102)), some (.error .truncated), some (.error .truncated),
          some (.error .truncated), some (.ok (.u8 3))]) := rfl

end Session

end PcapRacer
