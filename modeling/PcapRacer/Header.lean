/-
**Header dissectors.**

Below the application layer a dissector moves one cursor down the frame.  It reads, writes the
columns of its layer, and names the dissector that goes on; it never looks at an application
column, and no string is ever cut, so it cannot panic.

A `Header` carries the proof that its cursor stays within the bytes it was given.  Every dissector
written in this monad therefore has that property, however long its chain of reads.

Main definitions:

* `Hdr` — the columns, the stack and the tuple that header dissectors see;
* `Read` — a read of the cursor that stays in its view;
* `Header` — header dissectors, with their monad operations;
* `Hop`, `Payload`, `Onward` — what stands after a header.

Main results:

* `Header.advances_read_bind` — a dissector that opens with a read makes progress;
* `Header.exists_read_append`, `Header.exists_read_within` — reads where the bytes are there.
-/

import PcapRacer.Address
import PcapRacer.Packet
import PcapRacer.Cur

set_option relaxedAutoImplicit false
set_option autoImplicit false

namespace PcapRacer

/-- What the header dissectors see of a packet and of the state of its dissection. -/
structure Hdr where
  ifaceId : Option UInt32 := none
  link : LinkCols := {}
  net : NetCols := {}
  transport : TransportCols := {}
  tunnel : TunnelCols := {}
  /-- Layers in traversal order. -/
  stack : List Layer := []
  depth : UInt8 := 0
  /-- Set once the L3 headers are known, overwritten once the ports are. -/
  tuple : Option Tuple := none

/-- A dissector that another one hands over to; each of them consumes a byte at least. -/
inductive Hop where
  | ethernet
  | llc
  | vlan
  | mpls
  | pppoe
  | ipv4
  | ipv6
  deriving DecidableEq

/-- A transport payload: what is left under the cursor, and the ports it came with. -/
structure Payload where
  isTcp : Bool
  sport : UInt16
  dport : UInt16
  deriving DecidableEq

/-- What stands after a header. -/
inductive Onward where
  /-- Nothing that is dissected further. -/
  | done
  /-- Another header. -/
  | hop (h : Hop)
  /-- A transport payload. -/
  | payload (p : Payload)
  deriving DecidableEq

/-! ### Reads -/

/-- A read of the cursor; it stays in the view and gets past a byte at least. -/
structure Read (α : Type) where
  get : Cur → Except DissectError (α × Cur)
  within : ∀ {c : Cur} {r : α × Cur}, get c = .ok r → c.Within r.2
  advances : ∀ {c : Cur} {r : α × Cur}, get c = .ok r → c.start < r.2.start

namespace Read

/-- Read some bytes and convert them. -/
def bytes {α : Type} (n : ℕ) (f : Bytes → α) : Read α where
  get c := c.read (n + 1) f
  within h := by
    obtain ⟨b, hb, -⟩ := Cur.read_eq_ok h
    exact Cur.take_within hb
  advances h := by
    obtain ⟨b, hb, -⟩ := Cur.read_eq_ok h
    obtain ⟨hn, he⟩ := Cur.take_eq_ok_iff.mp hb
    rw [(Prod.ext_iff.mp he).2, Cur.start_advance]
    omega

def u8 : Read UInt8 := bytes 0 fun b => b.headD 0

def be16 : Read UInt16 := bytes 1 fun b => .ofNat (beNat b)

def be24 : Read UInt32 := bytes 2 fun b => .ofNat (beNat b)

def be32 : Read UInt32 := bytes 3 fun b => .ofNat (beNat b)

def le16 : Read UInt16 := bytes 1 fun b => .ofNat (leNat b)

def le32 : Read UInt32 := bytes 3 fun b => .ofNat (leNat b)

def ipv4 : Read UInt32 := bytes 3 fun b => .ofNat (beNat b)

def ipv6 : Read (BitVec 128) := bytes 15 fun b => .ofNat 128 (beNat b)

def mac : Read Bytes := bytes 5 id

end Read

/-! ### The monad -/

/-- A header dissector: it moves the cursor and writes columns.  When it gives up, what it wrote
stays written. -/
structure Header (α : Type) where
  run : Cur → Hdr → Except DissectError (α × Cur) × Hdr
  /-- The cursor stays in the view it started from. -/
  within : ∀ {c : Cur} {s : Hdr} {r : α × Cur}, (run c s).1 = .ok r → c.Within r.2

namespace Header

variable {α β : Type}

/-- Go on with the second dissector where the first one stopped. -/
def andThen (d : Header α) (f : α → Header β) : Header β where
  run c s :=
    match d.run c s with
    | (.ok (a, c'), s') => (f a).run c' s'
    | (.error e, s') => (.error e, s')
  within {c s r} h := by
    rcases hd : d.run c s with ⟨x, s'⟩
    cases x with
    | error e => rw [hd] at h; cases h
    | ok p =>
        rw [hd] at h
        have hp : c.Within p.2 := d.within (by rw [hd])
        exact hp.trans ((f p.1).within h)

instance : Monad Header where
  pure a := { run := fun c s => (.ok (a, c), s), within := fun h => by cases h; exact .refl _ }
  bind := andThen

theorem run_bind (d : Header α) (f : α → Header β) (c : Cur) (s : Hdr) :
    (d >>= f).run c s =
      match d.run c s with
      | (.ok (a, c'), s') => (f a).run c' s'
      | (.error e, s') => (.error e, s') := rfl

/-- Read from the cursor. -/
def read (r : Read α) : Header α where
  run c s := (r.get c, s)
  within h := r.within h

/-- Read from the cursor; where that fails the cursor does not move. -/
def tryRead (r : Read α) : Header (Option α) where
  run c s :=
    match r.get c with
    | .ok (a, c') => (.ok (some a, c'), s)
    | .error _ => (.ok (none, c), s)
  within {c s x} h := by
    cases hr : r.get c with
    | ok p => rw [hr] at h; cases h; exact r.within hr
    | error e => rw [hr] at h; cases h; exact .refl _

def take (n : ℕ) : Header Bytes where
  run c s := (c.take n, s)
  within h := Cur.take_within h

/-- Take bytes, or nothing where there are not enough. -/
def tryTake (n : ℕ) : Header (Option Bytes) where
  run c s :=
    match c.take n with
    | .ok (b, c') => (.ok (some b, c'), s)
    | .error _ => (.ok (none, c), s)
  within {c s x} h := by
    cases hr : c.take n with
    | ok p => rw [hr] at h; cases h; exact Cur.take_within hr
    | error e => rw [hr] at h; cases h; exact .refl _

def skip (n : ℕ) : Header Unit := do
  let _ ← take n

/-- Skip bytes, or none where there are not enough. -/
def trySkip (n : ℕ) : Header Unit := do
  let _ ← tryTake n

/-- Confine what follows to the next `n` bytes. -/
def confine (n : ℕ) : Header Unit where
  run c s := ((c.sub n).map fun p => ((), p.1), s)
  within {c s r} h := by
    cases hs : c.sub n with
    | error e => rw [hs] at h; cases h
    | ok p => rw [hs] at h; cases h; exact Cur.sub_within hs

/-- The cursor itself. -/
def cursor : Header Cur where
  run c s := (.ok (c, c), s)
  within h := by cases h; exact .refl _

def remaining : Header ℕ := do return (← cursor).remaining

def peekU8 : Header UInt8 where
  run c s := (c.peekU8.map fun b => (b, c), s)
  within {c s r} h := by
    cases hp : c.peekU8 with
    | error e => rw [hp] at h; cases h
    | ok b => rw [hp] at h; cases h; exact .refl _

def peek (n : ℕ) : Header (Option Bytes) := do return (← cursor).peek n

/-- Give up. -/
def fail (e : DissectError) : Header α where
  run _ s := (.error e, s)
  within h := by cases h

def get : Header Hdr where
  run c s := (.ok (s, c), s)
  within h := by cases h; exact .refl _

def set (f : Hdr → Hdr) : Header Unit where
  run c s := (.ok ((), c), f s)
  within h := by cases h; exact .refl _

/-- Push a layer name. -/
def layer (l : Layer) : Header Unit := set fun s => { s with stack := s.stack ++ [l] }

def link (f : LinkCols → LinkCols) : Header Unit := set fun s => { s with link := f s.link }

def net (f : NetCols → NetCols) : Header Unit := set fun s => { s with net := f s.net }

def transport (f : TransportCols → TransportCols) : Header Unit :=
  set fun s => { s with transport := f s.transport }

def tunnel (f : TunnelCols → TunnelCols) : Header Unit :=
  set fun s => { s with tunnel := f s.tunnel }

/-! ### Progress -/

/-- The dissector gets past a byte at least. -/
def Advances (d : Header α) : Prop :=
  ∀ {c : Cur} {s : Hdr} {r : α × Cur}, (d.run c s).1 = .ok r → c.start < r.2.start

/-- A dissector that opens with a read makes progress. -/
theorem advances_read_bind (r : Read α) (f : α → Header β) : Advances (read r >>= f) := by
  intro c s x h
  have hread : (read r).run c s = (r.get c, s) := rfl
  rw [run_bind, hread] at h
  cases hr : r.get c with
  | error e => rw [hr] at h; cases h
  | ok p =>
      rw [hr] at h
      exact lt_of_lt_of_le (r.advances hr) ((f p.1).within h).start_le

/-- Pushing a layer name first does not matter. -/
theorem advances_layer_bind (l : Layer) {f : Unit → Header β} (h : Advances (f ())) :
    Advances (layer l >>= f) := fun hx => h hx

/-! ### Reads of given bytes -/

/-- A read of the bytes that come first. -/
theorem exists_read_append {n : ℕ} {c : Cur} {x y : Bytes} (hrest : c.rest = x ++ y)
    (hx : x.length = n + 1) (g : Bytes → α) :
    ∃ c' : Cur, c'.rest = y ∧ ∀ (f : α → Header β) (s : Hdr),
      (read (.bytes n g) >>= f).run c s = (f (g x)).run c' s := by
  obtain ⟨c', hread, hc'⟩ := Cur.read_of_append g hrest hx
  refine ⟨c', hc', fun f s => ?_⟩
  have hrun : (read (.bytes n g)).run c s = (.ok (g x, c'), s) :=
    congrArg (fun r => (r, s)) hread
  rw [run_bind, hrun]

/-- Skipping the bytes that come first. -/
theorem exists_skip_append {n : ℕ} {c : Cur} {x y : Bytes} (hrest : c.rest = x ++ y)
    (hx : x.length = n) :
    ∃ c' : Cur, c'.rest = y ∧ ∀ (f : Unit → Header β) (s : Hdr),
      (skip n >>= f).run c s = (f ()).run c' s := by
  obtain ⟨c', htake, hc'⟩ := Cur.exists_take hrest hx.symm
  refine ⟨c', hc', fun f s => ?_⟩
  have hrun : (skip n).run c s = (.ok ((), c'), s) := by
    have hrun' : (take n).run c s = (.ok (x, c'), s) := congrArg (fun r => (r, s)) htake
    rw [skip, run_bind, hrun']
    rfl
  rw [run_bind, hrun]

/-- A read inside the bytes that come first. -/
theorem exists_read_within {n i : ℕ} {c : Cur} {b t : Bytes} (hrest : c.rest = b.drop i ++ t)
    (h : i + (n + 1) ≤ b.length) (g : Bytes → α) :
    ∃ c' : Cur, c'.rest = b.drop (i + (n + 1)) ++ t ∧ ∀ (f : α → Header β) (s : Hdr),
      (read (.bytes n g) >>= f).run c s = (f (g ((b.drop i).take (n + 1)))).run c' s := by
  have hsplit : c.rest = (b.drop i).take (n + 1) ++ (b.drop (i + (n + 1)) ++ t) := by
    rw [hrest, ← List.drop_drop, ← List.append_assoc, List.take_append_drop]
  refine exists_read_append hsplit ?_ g
  rw [List.length_take, List.length_drop]
  omega

/-- A read where the bytes are there. -/
theorem exists_read_bind {n i : ℕ} {c : Cur} {b : Bytes} (hrest : c.rest = b.drop i)
    (g : Bytes → α) (h : i + (n + 1) ≤ b.length) :
    ∃ c' : Cur, c'.rest = b.drop (i + (n + 1)) ∧ ∀ (f : α → Header β) (s : Hdr),
      (read (.bytes n g) >>= f).run c s = (f (g ((b.drop i).take (n + 1)))).run c' s := by
  obtain ⟨c', hc', hrun⟩ := exists_read_within (hrest.trans (List.append_nil _).symm) h g
  exact ⟨c', hc'.trans (List.append_nil _), hrun⟩

end Header

end PcapRacer
