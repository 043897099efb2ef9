/-
**The cursor, with every access checked.**

`Cur` cannot leave its bytes, because it carries the proof that it does not.  The cursor of the
source is a slice and a position, and nothing but the code of its reads keeps the one inside the
other.  Here the reads are written once more over such a bare cursor, with machine arithmetic and
with slices that may fault; and they are shown to do what the reads of `Cur` do.

`Checked` is the monad of dissectors over a bare cursor.  Their only state is the nesting depth:
that is all of the columns that decides how a dissection goes on.

Main definitions:

* `Checked` — dissectors over a bare cursor;
* `Checked.take`, `Checked.u8`, `Checked.be16`, … — the reads;
* `Checked.descend` — one level deeper, where a depth above the cap is a fault;
* `Checked.forget` — an action on the cursor as a dissector;
* `Checked.Reads` — a checked read against a read of the model.

Main results:

* `Checked.forget_take`, … — the checked reads are the actions of the source, but for the cursor
  that a failure leaves;
* `Checked.reads_forget` — **a read of the source is a read of the model**;
* `Checked.reads_u8`, `Checked.reads_be16`, … — and so are the others.
-/

import PcapRacer.CurActions
import PcapRacer.Tunnel

set_option relaxedAutoImplicit false
set_option autoImplicit false

namespace PcapRacer

/-- A dissector over a bare cursor. -/
structure Checked (α : Type) where
  run : RawCur → UInt8 → Except Fault (Except DissectError (α × RawCur) × UInt8)

namespace Checked

variable {α β : Type}

instance : Monad Checked where
  pure a := { run := fun r depth => .ok (.ok (a, r), depth) }
  bind g f :=
    { run := fun r depth =>
        match g.run r depth with
        | .error e => .error e
        | .ok (.error e, depth) => .ok (.error e, depth)
        | .ok (.ok (a, r), depth) => (f a).run r depth }

/-- Give up. -/
def fail (e : DissectError) : Checked α := { run := fun _ depth => .ok (.error e, depth) }

/-- An operation of the machine. -/
def machine (x : Except Fault α) : Checked α :=
  { run := fun r depth => x.map fun a => (.ok (a, r), depth) }

def cursor : Checked RawCur := { run := fun r depth => .ok (.ok (r, r), depth) }

def setCursor (r : RawCur) : Checked Unit := { run := fun _ depth => .ok (.ok ((), r), depth) }

/-- Where that fails, the cursor stays. -/
def attempt (g : Checked α) : Checked (Option α) :=
  { run := fun r depth =>
      match g.run r depth with
      | .error e => .error e
      | .ok (.error _, depth) => .ok (.ok (none, r), depth)
      | .ok (.ok (a, r), depth) => .ok (.ok (some a, r), depth) }

/-! ### Reads -/

def pos : Checked ℕ := do return (← cursor).pos

def remaining : Checked ℕ := do
  let r ← cursor
  machine (Machine.sub r.data.length r.pos)

/-- Everything not yet consumed, without consuming it. -/
def rest : Checked Bytes := do
  let r ← cursor
  machine (Machine.slice r.data r.pos r.data.length)

def need (n : ℕ) : Checked Unit := do
  if (← remaining) < n then
    fail .truncated

/-- The position `n` bytes further on. -/
def advance (n : ℕ) : Checked Unit := do
  let r ← cursor
  setCursor { r with pos := ← machine (Machine.add Machine.usize r.pos n) }

def take (n : ℕ) : Checked Bytes := do
  need n
  let r ← cursor
  let stop ← machine (Machine.add Machine.usize r.pos n)
  let s ← machine (Machine.slice r.data r.pos stop)
  advance n
  return s

def skip (n : ℕ) : Checked Unit := do
  need n
  advance n

def u8 : Checked UInt8 := do
  need 1
  let r ← cursor
  let v ← machine (Machine.index r.data r.pos)
  advance 1
  return v

def peekU8 : Checked UInt8 := do
  need 1
  let r ← cursor
  machine (Machine.index r.data r.pos)

def peek (n : ℕ) : Checked (Option Bytes) := do
  if (← remaining) < n then
    return none
  let r ← cursor
  let stop ← machine (Machine.add Machine.usize r.pos n)
  return some (← machine (Machine.slice r.data r.pos stop))

/-- Take `n` bytes and look at each of them. -/
def octets (n : ℕ) : Checked Bytes := do
  let b ← take n
  machine (Machine.indices b n)

def be16 : Checked UInt16 := do return .ofNat (beNat (← octets 2))

def be24 : Checked UInt32 := do return .ofNat (beNat (← octets 3))

def be32 : Checked UInt32 := do return .ofNat (beNat (← octets 4))

def le16 : Checked UInt16 := do return .ofNat (leNat (← octets 2))

def le32 : Checked UInt32 := do return .ofNat (leNat (← octets 4))

def ipv4 : Checked UInt32 := do return .ofNat (beNat (← octets 4))

def ipv6 : Checked (BitVec 128) := do
  let b ← take 16
  return .ofNat 128 (beNat (← machine (Machine.array b 16)))

def mac : Checked Bytes := do
  let b ← take 6
  machine (Machine.array b 6)

/-- Go on with a cursor of its own on the next `n` bytes. -/
def confine (n : ℕ) : Checked Unit := do
  let b ← take n
  setCursor { data := b, pos := 0 }

/-- Enter a nested encapsulation.  That the depth stays within its cap is a promise. -/
def descend : Checked Unit :=
  { run := fun r depth =>
      if Tunnel.maxDepth ≤ depth then .ok (.error .depthExceeded, depth)
      else do
        let deeper ← Machine.add 8 depth.toNat 1
        if Tunnel.maxDepth.toNat < deeper then .error .promise
        else .ok (.ok ((), r), UInt8.ofNat deeper) }

/-! ### How dissectors run -/

theorem run_bind (g : Checked α) (f : α → Checked β) (r : RawCur) (depth : UInt8) :
    (g >>= f).run r depth =
      match g.run r depth with
      | .error e => .error e
      | .ok (.error e, depth) => .ok (.error e, depth)
      | .ok (.ok (a, r), depth) => (f a).run r depth := rfl

theorem bind_assoc {γ : Type} (g : Checked α) (f : α → Checked β) (h : β → Checked γ) :
    g >>= f >>= h = g >>= fun a => f a >>= h := by
  have hrun : (g >>= f >>= h).run = (g >>= fun a => f a >>= h).run := by
    funext r depth
    simp only [run_bind]
    rcases g.run r depth with e | ⟨e | ⟨a, r'⟩, depth'⟩ <;> rfl
  exact congrArg Checked.mk hrun

/-- Go on after an operation that goes on. -/
theorem run_machine_bind {x : Except Fault α} {a : α} (h : x = .ok a) (f : α → Checked β) :
    machine x >>= f = f a := by
  subst h
  rfl

/-- The view of a cursor fits a machine word. -/
def Addressable (c : Cur) : Prop := c.stop < 2 ^ 63

theorem Addressable.length_lt {c : Cur} (h : Addressable c) : c.data.length < 2 ^ 63 := by
  unfold Addressable Cur.stop at h
  omega

/-- What a read leaves, with the proof taken off the cursor. -/
def bare (x : Except DissectError (α × Cur)) : Except DissectError (α × RawCur) :=
  x.map fun p => (p.1, p.2.raw)

variable {c : Cur} {n : ℕ} (depth : UInt8)

/-! ### Actions whose failures lose the cursor -/

/-- An action as a dissector, without the cursor that its failures leave. -/
def forget (m : CurM α) : Checked α :=
  { run := fun r depth => (m.exec r).map fun p => (p.1.map fun a => (a, p.2), depth) }

theorem run_forget {m : CurM α} {r r' : RawCur} {o : Except DissectError α}
    (h : m.exec r = .ok (o, r')) :
    (forget m).run r depth = .ok (o.map fun a => (a, r'), depth) := by
  unfold forget
  dsimp only
  rw [h]
  rfl

theorem forget_bind (m : CurM α) (f : α → CurM β) :
    forget (m >>= f) = forget m >>= fun a => forget (f a) := by
  have hrun : ∀ r depth,
      (forget (m >>= f)).run r depth = (forget m >>= fun a => forget (f a)).run r depth := by
    intro r depth
    rw [run_bind]
    unfold forget
    dsimp only
    rw [CurM.exec_bind_eq]
    rcases m.exec r with e | ⟨e | a, r'⟩ <;> rfl
  exact congrArg Checked.mk (funext fun r => funext fun depth => hrun r depth)

theorem forget_machine (x : Except Fault α) : forget (CurM.machine x) = machine x := by
  cases x <;> rfl

theorem forget_remaining : forget RawCur.remaining = remaining := by
  unfold RawCur.remaining remaining
  simp only [forget_bind, forget_machine]
  rfl

theorem forget_rest : forget RawCur.rest = rest := by
  unfold RawCur.rest rest
  simp only [forget_bind, forget_machine]
  rfl

theorem forget_need (n : ℕ) : forget (RawCur.need n) = need n := by
  unfold RawCur.need need
  rw [forget_bind, forget_remaining]
  refine congrArg _ (funext fun k => ?_)
  split <;> rfl

theorem forget_advance (n : ℕ) : forget (RawCur.advance n) = advance n := by
  unfold RawCur.advance advance
  simp only [forget_bind, forget_machine]
  rfl

theorem forget_take (n : ℕ) : forget (RawCur.take n) = take n := by
  unfold RawCur.take take
  simp only [forget_bind, forget_machine, forget_need, forget_advance]
  rfl

theorem forget_skip (n : ℕ) : forget (RawCur.skip n) = skip n := by
  unfold RawCur.skip skip
  simp only [forget_bind, forget_need, forget_advance]

theorem forget_u8 : forget RawCur.u8 = u8 := by
  unfold RawCur.u8 u8
  simp only [forget_bind, forget_machine, forget_need, forget_advance]
  rfl

theorem forget_peekU8 : forget RawCur.peekU8 = peekU8 := by
  unfold RawCur.peekU8 peekU8
  simp only [forget_bind, forget_machine, forget_need]
  rfl

theorem forget_peek (n : ℕ) : forget (RawCur.peek n) = peek n := by
  unfold RawCur.peek peek
  rw [forget_bind, forget_remaining]
  refine congrArg _ (funext fun k => ?_)
  split
  · rfl
  · simp only [forget_bind, forget_machine]
    rfl

theorem forget_octets (n : ℕ) : forget (RawCur.octets n) = octets n := by
  unfold RawCur.octets octets
  simp only [forget_bind, forget_machine, forget_take]

theorem forget_array (n : ℕ) :
    forget (RawCur.array n) = take n >>= fun b => machine (Machine.array b n) := by
  unfold RawCur.array
  simp only [forget_bind, forget_machine, forget_take]

/-! ### Reads of the model -/

/-- The checked read `g` gets past `n` bytes, as the read `get` does. -/
structure Reads (n : ℕ) (g : Checked α) (get : Cur → Except DissectError (α × Cur)) : Prop where
  run : ∀ {c : Cur} (depth : UInt8), Addressable c →
    g.run c.raw depth = .ok (bare (get c), depth)
  lands : ∀ {c c' : Cur} {a : α}, get c = .ok (a, c') →
    ∃ h : n ≤ c.remaining, c' = c.advance n h

theorem Addressable.counted (h : Addressable c) : CurM.Counted c :=
  h.length_lt.trans (by decide)

theorem read_lands {c c' : Cur} {n : ℕ} {f : Bytes → α} {a : α} (h : c.read n f = .ok (a, c')) :
    ∃ h : n ≤ c.remaining, c' = c.advance n h := by
  obtain ⟨b, hb, -⟩ := Cur.read_eq_ok h
  obtain ⟨hn, he⟩ := Cur.take_eq_ok_iff.mp hb
  exact ⟨hn, (Prod.ext_iff.mp he).2⟩

/-- **A read of the source is a read of the model.** -/
theorem reads_forget {m : CurM α} {f : Bytes → α} (h : CurM.Reads m n f) :
    Reads n (forget m) fun c => c.read n f := by
  refine ⟨fun {c} depth hc => ?_, read_lands⟩
  refine (run_forget depth (h c hc.counted)).trans ?_
  cases c.read n f <;> rfl

theorem read_id (c : Cur) (n : ℕ) : c.read n id = c.take n := by
  unfold Cur.read
  cases c.take n <;> rfl

theorem reads_take (n : ℕ) : Reads n (take n) fun c => c.take n := by
  have hreads := reads_forget (RawCur.reads_take n)
  simp only [read_id] at hreads
  rwa [forget_take] at hreads

theorem reads_skip (n : ℕ) : Reads n (skip n) fun c => (c.take n).map fun p => ((), p.2) :=
  forget_skip n ▸ reads_forget (RawCur.reads_skip n)

theorem reads_octets (n : ℕ) (f : Bytes → α) :
    Reads (n + 1) (octets (n + 1) >>= fun b => pure (f b)) (Read.bytes n f).get := by
  have hreads := reads_forget ((RawCur.reads_octets (n + 1)).bind_pure f)
  rwa [forget_bind, forget_octets] at hreads

theorem reads_be16 : Reads 2 be16 Read.be16.get := reads_octets 1 _

theorem reads_be24 : Reads 3 be24 Read.be24.get := reads_octets 2 _

theorem reads_be32 : Reads 4 be32 Read.be32.get := reads_octets 3 _

theorem reads_le16 : Reads 2 le16 Read.le16.get := reads_octets 1 _

theorem reads_le32 : Reads 4 le32 Read.le32.get := reads_octets 3 _

theorem reads_ipv4 : Reads 4 ipv4 Read.ipv4.get := reads_octets 3 _

theorem reads_ipv6 : Reads 16 ipv6 Read.ipv6.get := by
  have hreads := reads_forget RawCur.reads_ipv6
  unfold RawCur.ipv6 at hreads
  rwa [forget_bind, forget_array, bind_assoc] at hreads

theorem reads_mac : Reads 6 mac Read.mac.get := by
  have hreads := reads_forget RawCur.reads_mac
  unfold RawCur.mac at hreads
  rwa [forget_array] at hreads

theorem reads_u8 : Reads 1 u8 Read.u8.get := forget_u8 ▸ reads_forget RawCur.reads_u8

/-! Reads that leave the cursor where it was. -/

theorem run_remaining (c : Cur) (f : ℕ → Checked β) :
    (remaining >>= f).run c.raw depth = (f c.remaining).run c.raw depth := by
  have hrun := run_forget depth (RawCur.exec_remaining c)
  rw [forget_remaining] at hrun
  rw [run_bind, hrun]
  rfl

theorem run_peekU8 (c : Cur) :
    peekU8.run c.raw depth = .ok (bare (c.peekU8.map fun b => (b, c)), depth) := by
  rw [← forget_peekU8, run_forget depth (RawCur.exec_peekU8 c)]
  cases c.peekU8 <;> rfl

theorem run_peek (hc : Addressable c) (n : ℕ) :
    (peek n).run c.raw depth = .ok (.ok (c.peek n, c.raw), depth) := by
  rw [← forget_peek]
  exact run_forget depth (RawCur.exec_peek hc.counted n)

theorem run_rest (c : Cur) : rest.run c.raw depth = .ok (.ok (c.rest, c.raw), depth) := by
  rw [← forget_rest]
  exact run_forget depth (RawCur.exec_rest c)

theorem run_confine (hc : Addressable c) (n : ℕ) :
    (confine n).run c.raw depth = .ok (bare ((c.sub n).map fun p => ((), p.1)), depth) := by
  unfold confine
  rw [run_bind, (reads_take n).run depth hc]
  by_cases h : n ≤ c.remaining
  · rw [Cur.take_of_le h, Cur.sub, dif_pos h]
    rfl
  · rw [Cur.take, dif_neg h, Cur.sub, dif_neg h]
    rfl

end Checked

end PcapRacer
