/-
**The cursor as state.**

In the source a read takes a cursor by a mutable reference: it may fail after it has moved it, and
the caller may go on from there.  Here the reads are actions on a bare cursor that survives their
failures, computed with the operations of the machine as the source computes them.

Main definitions:

* `RawCur`, `CurM`, `CurM.exec` — bare cursors, and actions on them;
* `RawCur.take`, `RawCur.u8`, `RawCur.be16`, … — the reads;
* `CurM.Reads` — an action against a read of `Cur`.

Main results:

* `RawCur.reads_take`, `RawCur.reads_u8`, `RawCur.reads_be16`, … — **an action does what the read of
  the model does, never faults, and leaves the cursor where it was when it fails**.
-/

import PcapRacer.AppBer
import PcapRacer.Machine

set_option relaxedAutoImplicit false
set_option autoImplicit false

namespace PcapRacer

/-- A slice and a position, with nothing that ties the one to the other. -/
structure RawCur where
  data : Bytes
  pos : ℕ

/-- What the source has of a cursor. -/
def Cur.raw (c : Cur) : RawCur := { data := c.data, pos := c.pos }

/-- An action on a bare cursor; a failed one leaves what it has made of the cursor. -/
abbrev CurM := ExceptT DissectError (StateT RawCur (Except Fault))

variable {α β : Type}

namespace CurM

/-- The outcome of an action, and the cursor after it. -/
def exec (m : CurM α) (r : RawCur) : Except Fault (Except DissectError α × RawCur) :=
  (ExceptT.run m).run r

/-- An operation of the machine. -/
def machine (x : Except Fault α) : CurM α := ExceptT.lift (StateT.lift x)

end CurM

namespace RawCur

open CurM

def new (data : Bytes) : RawCur := { data, pos := 0 }

def remaining : CurM ℕ := do
  let r ← get
  machine (Machine.sub r.data.length r.pos)

/-- Everything not yet consumed, without consuming it. -/
def rest : CurM Bytes := do
  let r ← get
  machine (Machine.slice r.data r.pos r.data.length)

/-- Consume and return the remainder. -/
def takeRest : CurM Bytes := do
  let r ← get
  let s ← machine (Machine.slice r.data r.pos r.data.length)
  set { r with pos := r.data.length }
  return s

def need (n : ℕ) : CurM Unit := do
  if (← remaining) < n then
    throw .truncated

/-- The position `n` bytes further on. -/
def advance (n : ℕ) : CurM Unit := do
  let r ← get
  set { r with pos := ← machine (Machine.add Machine.usize r.pos n) }

def take (n : ℕ) : CurM Bytes := do
  need n
  let r ← get
  let stop ← machine (Machine.add Machine.usize r.pos n)
  let s ← machine (Machine.slice r.data r.pos stop)
  advance n
  return s

def skip (n : ℕ) : CurM Unit := do
  need n
  advance n

/-- Shrink the cursor's view to `n` more bytes. -/
def sub (n : ℕ) : CurM RawCur := do return new (← take n)

def u8 : CurM UInt8 := do
  need 1
  let r ← get
  let v ← machine (Machine.index r.data r.pos)
  advance 1
  return v

def peekU8 : CurM UInt8 := do
  need 1
  let r ← get
  machine (Machine.index r.data r.pos)

/-- Peek `n` bytes ahead without consuming. -/
def peek (n : ℕ) : CurM (Option Bytes) := do
  if (← remaining) < n then
    return none
  let r ← get
  let stop ← machine (Machine.add Machine.usize r.pos n)
  return some (← machine (Machine.slice r.data r.pos stop))

/-- Take `n` bytes and look at each of them. -/
def octets (n : ℕ) : CurM Bytes := do
  let b ← take n
  machine (Machine.indices b n)

/-- Take `n` bytes and copy them. -/
def array (n : ℕ) : CurM Bytes := do
  let b ← take n
  machine (Machine.array b n)

def be16 : CurM UInt16 := do return .ofNat (beNat (← octets 2))

def be24 : CurM UInt32 := do return .ofNat (beNat (0 :: (← octets 3)))

def be32 : CurM UInt32 := do return .ofNat (beNat (← octets 4))

def be64 : CurM UInt64 := do return .ofNat (beNat (← array 8))

def le16 : CurM UInt16 := do return .ofNat (leNat (← octets 2))

def le32 : CurM UInt32 := do return .ofNat (leNat (← octets 4))

def le64 : CurM UInt64 := do return .ofNat (leNat (← array 8))

def ipv4 : CurM UInt32 := do return .ofNat (beNat (← octets 4))

def ipv6 : CurM (BitVec 128) := do return .ofNat 128 (beNat (← array 16))

def mac : CurM Bytes := array 6

end RawCur

/-! ### How actions run -/

namespace CurM

theorem exec_bind_eq (m : CurM α) (f : α → CurM β) (r : RawCur) :
    (m >>= f).exec r =
      match m.exec r with
      | .error e => .error e
      | .ok (.error e, r) => .ok (.error e, r)
      | .ok (.ok a, r) => (f a).exec r := by
  unfold exec
  rw [ExceptT.run_bind, StateT.run_bind]
  rcases (ExceptT.run m).run r with e | ⟨e | a, r'⟩ <;> rfl

/-- Go on after an operation that goes on. -/
theorem exec_machine_bind {x : Except Fault α} {a : α} (h : x = .ok a) (f : α → CurM β)
    (r : RawCur) : (machine x >>= f).exec r = (f a).exec r := by
  subst h
  rfl

theorem exec_machine {x : Except Fault α} {a : α} (h : x = .ok a) (r : RawCur) :
    (machine x).exec r = .ok (.ok a, r) := by
  subst h
  rfl

/-- The outcome of a read, and the cursor after it: a failed read leaves the cursor where it was. -/
def kept (c : Cur) : Except DissectError (α × Cur) → Except DissectError α × RawCur
  | .ok (a, c') => (.ok a, c'.raw)
  | .error e => (.error e, c.raw)

/-- The length of a slice fits the word that counts bytes. -/
def Counted (c : Cur) : Prop := c.data.length < 2 ^ Machine.usize

/-- The action reads `n` bytes and converts them, as `Cur.read` does. -/
def Reads (m : CurM α) (n : ℕ) (f : Bytes → α) : Prop :=
  ∀ c : Cur, Counted c → m.exec c.raw = .ok (kept c (c.read n f))

variable {m : CurM α} {n : ℕ} {f : Bytes → α}

/-- A read followed by an operation that goes on. -/
theorem Reads.bind_machine (h : Reads m n f) {g : α → Except Fault β} {k : Bytes → β}
    (hg : ∀ b, b.length = n → g (f b) = .ok (k b)) : Reads (m >>= fun a => machine (g a)) n k := by
  intro c hc
  rw [exec_bind_eq, h c hc, Cur.read, Cur.read]
  by_cases hn : n ≤ c.remaining
  · have hlen : (c.rest.take n).length = n := by
      rw [List.length_take, Cur.length_rest, Nat.min_eq_left hn]
    rw [Cur.take_of_le hn]
    exact exec_machine (hg _ hlen) _
  · rw [Cur.take, dif_neg hn]
    rfl

/-- A read followed by a conversion. -/
theorem Reads.bind_pure (h : Reads m n f) (g : α → β) :
    Reads (m >>= fun a => pure (g a)) n fun b => g (f b) :=
  h.bind_machine (g := fun a => .ok (g a)) fun _ _ => rfl

end CurM

/-! ### Actions read -/

namespace RawCur

open CurM

variable {c : Cur} {n : ℕ}

theorem exec_remaining (c : Cur) : remaining.exec c.raw = .ok (.ok c.remaining, c.raw) :=
  exec_machine (Machine.sub_of_le c.pos_le) c.raw

theorem exec_remaining_bind (c : Cur) (f : ℕ → CurM β) :
    (remaining >>= f).exec c.raw = (f c.remaining).exec c.raw := by
  rw [exec_bind_eq, exec_remaining]

theorem exec_need (c : Cur) (n : ℕ) :
    (need n).exec c.raw = .ok (if n ≤ c.remaining then .ok () else .error .truncated, c.raw) := by
  unfold need
  rw [exec_remaining_bind]
  by_cases h : n ≤ c.remaining
  · rw [if_neg (Nat.not_lt.mpr h), if_pos h]
    rfl
  · rw [if_pos (Nat.lt_of_not_le h), if_neg h]
    rfl

theorem exec_need_of_le (h : n ≤ c.remaining) (f : Unit → CurM β) :
    (need n >>= f).exec c.raw = (f ()).exec c.raw := by
  rw [exec_bind_eq, exec_need, if_pos h]

theorem exec_need_of_not_le (h : ¬ n ≤ c.remaining) (f : Unit → CurM β) :
    (need n >>= f).exec c.raw = .ok (.error .truncated, c.raw) := by
  rw [exec_bind_eq, exec_need, if_neg h]

/-- However large the number that was asked for, a position inside the slice is counted. -/
theorem add_pos (hc : Counted c) (h : n ≤ c.remaining) :
    Machine.add Machine.usize c.pos n = .ok (c.pos + n) := by
  refine Machine.add_of_lt ?_
  have hle := c.pos_le
  unfold Counted at hc
  unfold Cur.remaining at h
  omega

theorem slice_pos (h : n ≤ c.remaining) :
    Machine.slice c.data c.pos (c.pos + n) = .ok (c.rest.take n) := by
  have hle := c.pos_le
  unfold Cur.remaining at h
  rw [Machine.slice_of_le (Nat.le_add_right _ _) (by omega), List.drop_take,
    Nat.add_sub_cancel_left, Cur.rest]

/-- The byte under the cursor. -/
theorem index_pos (h : 1 ≤ c.remaining) :
    Machine.index c.data c.pos = .ok ((c.rest.take 1).headD 0) := by
  have hlt : c.pos < c.data.length := by
    unfold Cur.remaining at h
    omega
  have hrest : c.rest = c.data[c.pos] :: c.data.drop (c.pos + 1) := List.drop_eq_getElem_cons hlt
  rw [Machine.index_of_lt hlt, hrest]
  rfl

theorem exec_advance (hc : Counted c) (h : n ≤ c.remaining) :
    (advance n).exec c.raw = .ok (.ok (), (c.advance n h).raw) := by
  change (machine (Machine.add Machine.usize c.pos n) >>= fun p =>
    (set { c.raw with pos := p } : CurM PUnit)).exec c.raw = _
  rw [exec_machine_bind (add_pos hc h)]
  rfl

/-- **Reading `n` bytes.** -/
theorem reads_take (n : ℕ) : Reads (take n) n id := by
  intro c hc
  unfold take Cur.read
  by_cases h : n ≤ c.remaining
  · rw [exec_need_of_le h, Cur.take_of_le h]
    change (machine (Machine.add Machine.usize c.pos n) >>= fun stop =>
      machine (Machine.slice c.data c.pos stop) >>= fun s => advance n >>= fun _ => pure s).exec
        c.raw = _
    rw [exec_machine_bind (add_pos hc h), exec_machine_bind (slice_pos h), exec_bind_eq,
      exec_advance hc h]
    rfl
  · rw [exec_need_of_not_le h, Cur.take, dif_neg h]
    rfl

theorem reads_skip (n : ℕ) : Reads (skip n) n fun _ => () := by
  intro c hc
  unfold skip Cur.read
  by_cases h : n ≤ c.remaining
  · rw [exec_need_of_le h, exec_advance hc h, Cur.take_of_le h]
    rfl
  · rw [exec_need_of_not_le h, Cur.take, dif_neg h]
    rfl

theorem reads_sub (n : ℕ) : Reads (sub n) n new := (reads_take n).bind_pure new

theorem reads_octets (n : ℕ) : Reads (octets n) n id :=
  (reads_take n).bind_machine fun _ => Machine.indices_of_length

theorem reads_array (n : ℕ) : Reads (array n) n id :=
  (reads_take n).bind_machine fun _ => Machine.array_of_length

theorem reads_u8 : Reads u8 1 fun b => b.headD 0 := by
  intro c hc
  unfold u8 Cur.read
  by_cases h : 1 ≤ c.remaining
  · rw [exec_need_of_le h, Cur.take_of_le h]
    change (machine (Machine.index c.data c.pos) >>= fun v => advance 1 >>= fun _ => pure v).exec
      c.raw = _
    rw [exec_machine_bind (index_pos h), exec_bind_eq, exec_advance hc h]
    rfl
  · rw [exec_need_of_not_le h, Cur.take, dif_neg h]
    rfl

theorem reads_be16 : Reads be16 2 fun b => UInt16.ofNat (beNat b) := (reads_octets 2).bind_pure _

theorem reads_be24 : Reads be24 3 fun b => UInt32.ofNat (beNat b) := (reads_octets 3).bind_pure _

theorem reads_be32 : Reads be32 4 fun b => UInt32.ofNat (beNat b) := (reads_octets 4).bind_pure _

theorem reads_be64 : Reads be64 8 fun b => UInt64.ofNat (beNat b) := (reads_array 8).bind_pure _

theorem reads_le16 : Reads le16 2 fun b => UInt16.ofNat (leNat b) := (reads_octets 2).bind_pure _

theorem reads_le32 : Reads le32 4 fun b => UInt32.ofNat (leNat b) := (reads_octets 4).bind_pure _

theorem reads_le64 : Reads le64 8 fun b => UInt64.ofNat (leNat b) := (reads_array 8).bind_pure _

theorem reads_ipv4 : Reads ipv4 4 fun b => UInt32.ofNat (beNat b) := (reads_octets 4).bind_pure _

theorem reads_ipv6 : Reads ipv6 16 fun b => BitVec.ofNat 128 (beNat b) :=
  (reads_array 16).bind_pure _

theorem reads_mac : Reads mac 6 id := reads_array 6

/-! Actions that leave the cursor where it was. -/

theorem slice_rest (c : Cur) : Machine.slice c.data c.pos c.data.length = .ok c.rest := by
  rw [Machine.slice_of_le c.pos_le (Nat.le_refl _), List.take_length, Cur.rest]

theorem exec_rest (c : Cur) : rest.exec c.raw = .ok (.ok c.rest, c.raw) :=
  exec_machine (slice_rest c) c.raw

theorem exec_takeRest (c : Cur) :
    takeRest.exec c.raw = .ok (.ok c.takeRest.1, c.takeRest.2.raw) := by
  change (machine (Machine.slice c.data c.pos c.data.length) >>= fun s =>
    set { c.raw with pos := c.raw.data.length } >>= fun _ => pure s).exec c.raw = _
  rw [exec_machine_bind (slice_rest c)]
  rfl

theorem exec_peekU8 (c : Cur) : peekU8.exec c.raw = .ok (c.peekU8, c.raw) := by
  unfold peekU8 Cur.peekU8
  rw [Cur.u8_eq_read, Cur.read]
  by_cases h : 1 ≤ c.remaining
  · rw [exec_need_of_le h, Cur.take_of_le h]
    exact exec_machine (index_pos h) c.raw
  · rw [exec_need_of_not_le h, Cur.take, dif_neg h]
    rfl

theorem exec_peek (hc : Counted c) (n : ℕ) :
    (peek n).exec c.raw = .ok (.ok (c.peek n), c.raw) := by
  unfold peek Cur.peek
  rw [exec_remaining_bind]
  by_cases h : n ≤ c.remaining
  · rw [if_neg (Nat.not_lt.mpr h), if_pos h]
    change (machine (Machine.add Machine.usize c.pos n) >>= fun stop =>
      machine (Machine.slice c.data c.pos stop) >>= fun s => pure (some s)).exec c.raw = _
    rw [exec_machine_bind (add_pos hc h), exec_machine_bind (slice_pos h)]
    rfl
  · rw [if_pos (Nat.lt_of_not_le h), if_neg h]
    rfl

end RawCur

end PcapRacer
