/-
**Checked dissectors against dissectors.**

`Refines P g d` says that from cursors of which `P` holds the checked dissector `g` never faults, and
does to the cursor and to the depth what the dissector `d` of the model does.  The rules here follow
the two programs step by step: a read against a read, an operation of the machine against nothing,
and nothing against a column that is written.

`P` is what is known of the cursor: nothing at all, how far it is from where a header started, or how
many rounds of a loop its bytes allow for.

Main definitions:

* `Checked.Refines` — a checked dissector against a dissector of the model;
* `Checked.Settles` — a checked walk that goes to its end, wherever that is;
* `Checked.aside` — a walk with a cursor of its own.

Main results:

* `Checked.refines_bind`, `Checked.refines_read`, `Checked.refines_machine` and the other rules.
-/

import PcapRacer.CheckedCur

set_option relaxedAutoImplicit false
set_option autoImplicit false

namespace PcapRacer

namespace Checked

variable {α β : Type}

/-- Run with a cursor of its own, whatever comes of it. -/
def aside (r : RawCur) (g : Checked α) : Checked Unit :=
  { run := fun r' depth =>
      match g.run r depth with
      | .error e => .error e
      | .ok (_, depth) => .ok (.ok ((), r'), depth) }

/-- Enter a tunnel; moving the addresses to other columns is all that is left to do. -/
def enter : Checked Unit := do
  descend
  return ()

/-! ### What is known of a cursor -/

/-- Nothing is known of it. -/
def Anywhere (_ : Cur) : Prop := True

/-- It is `k` bytes after `start`. -/
def At (start k : ℕ) (c : Cur) : Prop := c.pos = start + k

/-- What `P` says before `n` bytes were read, `Q` says after them. -/
def After (n : ℕ) (P Q : Cur → Prop) : Prop := ∀ c h, P c → Q (c.advance n h)

theorem anywhere {n : ℕ} {P : Cur → Prop} : After n P Anywhere := fun _ _ _ => trivial

theorem further {n start k : ℕ} : After n (At start k) (At start (k + n)) :=
  fun _ _ h => (congrArg (· + n) h).trans (Nat.add_assoc _ _ _)

/-- Where `n` bytes were read, so many rounds of a loop are no longer needed. -/
theorem fewer {n rounds : ℕ} (hn : 0 < n) :
    After n (fun c => c.remaining < rounds + 1) fun c => c.remaining < rounds := by
  intro c h hc
  rw [← Cur.length_rest, Cur.rest_advance, List.length_drop, Cur.length_rest]
  omega

/-! ### Refinement -/

/-- From where `P` holds, `g` does not fault, and does what `d` does. -/
def Refines (P : Cur → Prop) (g : Checked α) (d : Header α) : Prop :=
  ∀ c s, P c → Addressable c → s.depth ≤ Tunnel.maxDepth →
    g.run c.raw s.depth = .ok (bare (d.run c s).1, (d.run c s).2.depth) ∧
      (d.run c s).2.depth ≤ Tunnel.maxDepth

theorem Addressable.within {c c' : Cur} (h : Addressable c) (hw : c.Within c') : Addressable c' :=
  lt_of_le_of_lt hw.stop_le h

section Rules

variable {P Q : Cur → Prop}

theorem Refines.mono {g : Checked α} {d : Header α} (h : Refines Q g d) (hPQ : ∀ c, P c → Q c) :
    Refines P g d := fun c s hc => h c s (hPQ c hc)

theorem refines_pure (a : α) : Refines P (pure a) (pure a) := fun _ _ _ _ hs => ⟨rfl, hs⟩

theorem refines_fail (e : DissectError) : Refines P (fail e : Checked α) (Header.fail e) :=
  fun _ _ _ _ hs => ⟨rfl, hs⟩

/-- One step after the other, where it is known what the first one leaves. -/
theorem refines_bind_of {g : Checked α} {d : Header α} {k : α → Checked β} {f : α → Header β}
    (hg : Refines P g d) (hQ : ∀ c s a c', P c → (d.run c s).1 = .ok (a, c') → Q c')
    (hk : ∀ a, Refines Q (k a) (f a)) : Refines P (g >>= k) (d >>= f) := by
  intro c s hc hadr hs
  obtain ⟨hrun, hdepth⟩ := hg c s hc hadr hs
  have hpost := hQ c s
  have hwithin := @d.within c s
  rw [run_bind, Header.run_bind, hrun]
  generalize d.run c s = y at hdepth hpost hwithin
  rcases y with ⟨x, t⟩
  cases x with
  | error e => exact ⟨rfl, hdepth⟩
  | ok p => exact hk p.1 p.2 t (hpost p.1 p.2 hc rfl) (hadr.within (hwithin rfl)) hdepth

/-- **One step after the other.** -/
theorem refines_bind {g : Checked α} {d : Header α} {k : α → Checked β} {f : α → Header β}
    (hg : Refines P g d) (hk : ∀ a, Refines Anywhere (k a) (f a)) :
    Refines P (g >>= k) (d >>= f) :=
  refines_bind_of hg (fun _ _ _ _ _ _ => trivial) hk

theorem refines_ite {p : Prop} [Decidable p] {g g' : Checked α} {d d' : Header α}
    (h : p → Refines P g d) (h' : ¬ p → Refines P g' d') :
    Refines P (if p then g else g') (if p then d else d') := by
  split
  · next hp => exact h hp
  · next hp => exact h' hp

/-- What is written may depend on more than the checked dissector knows. -/
theorem refines_ite_right {p : Prop} [Decidable p] {g : Checked α} {d d' : Header α}
    (h : Refines P g d) (h' : Refines P g d') : Refines P g (if p then d else d') := by
  split
  · exact h
  · exact h'

/-- A step that is taken only sometimes; what comes after it comes in either case. -/
theorem refines_when {p : Prop} [Decidable p] {g : Checked Unit} {d : Header Unit}
    {k : Unit → Checked β} {f : Unit → Header β} (hg : Refines P g d)
    (hk : ∀ u, Refines Anywhere (k u) (f u)) :
    Refines P (if p then g >>= k else k ()) (if p then d >>= f else f ()) :=
  refines_ite (fun _ => refines_bind hg hk) fun _ => (hk ()).mono fun _ _ => trivial

/-- A check that gives up, or goes on. -/
theorem refines_unless {p : Prop} [Decidable p] {e : DissectError} {k : Unit → Checked β}
    {f : Unit → Header β} (hk : ¬ p → Refines P (k ()) (f ())) :
    Refines P (if p then fail e >>= k else k ()) (if p then Header.fail e >>= f else f ()) :=
  refines_ite (fun _ _ _ _ _ hs => ⟨rfl, hs⟩) hk

/-! ### Columns, which a checked dissector does not have -/

/-- The dissector writes columns, and that is all. -/
def Silent (d : Header Unit) : Prop :=
  ∀ c s, ∃ s', d.run c s = (.ok ((), c), s') ∧ s'.depth = s.depth

theorem refines_silent {g : Checked β} {d : Header Unit} {f : Unit → Header β} (hd : Silent d)
    (h : Refines P g (f ())) : Refines P g (d >>= f) := by
  intro c s hc hadr hs
  obtain ⟨s', hrun, hdepth⟩ := hd c s
  have hgo := h c s' hc hadr (hdepth ▸ hs)
  rw [hdepth] at hgo
  rw [Header.run_bind, hrun]
  exact hgo

theorem silent_pure : Silent (pure ()) := fun _ s => ⟨s, rfl, rfl⟩

theorem silent_set {w : Hdr → Hdr} (hw : ∀ s, (w s).depth = s.depth) : Silent (Header.set w) :=
  fun _ s => ⟨w s, rfl, hw s⟩

theorem silent_get {f : Hdr → Header Unit} (h : ∀ s, Silent (f s)) :
    Silent (Header.get >>= f) := fun c s => h s c s

theorem silent_ite {p : Prop} [Decidable p] {d d' : Header Unit} (h : Silent d) (h' : Silent d') :
    Silent (if p then d else d') := by
  split
  · exact h
  · exact h'

theorem refines_set {g : Checked β} {w : Hdr → Hdr} {f : Unit → Header β}
    (hw : ∀ s, (w s).depth = s.depth) (h : Refines P g (f ())) :
    Refines P g (Header.set w >>= f) := refines_silent (silent_set hw) h

/-- The last step writes a column. -/
theorem refines_last {w : Hdr → Hdr} (hw : ∀ s, (w s).depth = s.depth) :
    Refines P (pure ()) (Header.set w) := by
  intro c s _ _ hs
  refine ⟨?_, ?_⟩
  · change Except.ok (Except.ok ((), c.raw), s.depth) = .ok (.ok ((), c.raw), (w s).depth)
    rw [hw s]
  · exact (hw s).symm ▸ hs

theorem refines_layer {g : Checked β} {f : Unit → Header β} (l : Layer)
    (h : Refines P g (f ())) : Refines P g (Header.layer l >>= f) := refines_set (fun _ => rfl) h

theorem refines_link {g : Checked β} {f : Unit → Header β} {w : LinkCols → LinkCols}
    (h : Refines P g (f ())) : Refines P g (Header.link w >>= f) := refines_set (fun _ => rfl) h

theorem refines_net {g : Checked β} {f : Unit → Header β} {w : NetCols → NetCols}
    (h : Refines P g (f ())) : Refines P g (Header.net w >>= f) := refines_set (fun _ => rfl) h

theorem refines_transport {g : Checked β} {f : Unit → Header β}
    {w : TransportCols → TransportCols} (h : Refines P g (f ())) :
    Refines P g (Header.transport w >>= f) := refines_set (fun _ => rfl) h

theorem refines_tunnel {g : Checked β} {f : Unit → Header β} {w : TunnelCols → TunnelCols}
    (h : Refines P g (f ())) : Refines P g (Header.tunnel w >>= f) := refines_set (fun _ => rfl) h

/-- A look at the columns that changes what is written only. -/
theorem refines_get {g : Checked β} {f : Hdr → Header β} (h : ∀ s, Refines P g (f s)) :
    Refines P g (Header.get >>= f) := fun c s hc hadr hs => h s c s hc hadr hs

/-! ### Operations of the machine, which the model does not have -/

/-- **An operation that goes on.** -/
theorem refines_machine {x : Except Fault α} {a : α} {k : α → Checked β} {d : Header β}
    (hx : x = .ok a) (h : Refines P (k a) d) : Refines P (machine x >>= k) d := by
  rw [run_machine_bind hx]
  exact h

/-- What was consumed since a header started. -/
theorem consumed (start n : ℕ) : Machine.sub (start + n) start = .ok n := by
  rw [Machine.sub_of_le (Nat.le_add_right _ _), Nat.add_sub_cancel_left]

/-- Note where a header starts. -/
theorem refines_start {k : ℕ → Checked β} {d : Header β}
    (h : ∀ start, Refines (At start 0) (k start) d) : Refines P (pos >>= k) d :=
  fun c s _ hadr hs => h c.pos c s rfl hadr hs

theorem refines_pos {start n : ℕ} {k : ℕ → Checked β} {d : Header β}
    (hP : ∀ c, P c → At start n c) (h : Refines P (k (start + n)) d) :
    Refines P (pos >>= k) d := by
  intro c s hc hadr hs
  have hpos : (pos >>= k).run c.raw s.depth = (k (start + n)).run c.raw s.depth := by
    change (k c.pos).run c.raw s.depth = _
    rw [show c.pos = start + n from hP c hc]
  rw [hpos]
  exact h c s hc hadr hs

theorem refines_rest {k : Bytes → Checked β} {d : Header β} (h : ∀ b, Refines P (k b) d) :
    Refines P (rest >>= k) d := by
  intro c s hc hadr hs
  rw [run_bind, run_rest]
  exact h c.rest c s hc hadr hs

/-! ### Reads -/

theorem Reads.refines {n : ℕ} {g : Checked α} {get : Cur → Except DissectError (α × Cur)}
    (hr : Reads n g get) {d : Header α} (hd : ∀ c s, d.run c s = (get c, s)) : Refines P g d := by
  intro c s _ hadr hs
  rw [hd]
  exact ⟨hr.run s.depth hadr, hs⟩

/-- A read, where it is known how far the cursor is. -/
theorem refines_read_at {n : ℕ} {g : Checked α} {r : Read α} {k : α → Checked β}
    {f : α → Header β} (hr : Reads n g r.get) (hQ : After n P Q)
    (hk : ∀ a, Refines Q (k a) (f a)) : Refines P (g >>= k) (Header.read r >>= f) := by
  refine refines_bind_of (hr.refines fun _ _ => rfl) (fun c s a c' hc h => ?_) hk
  obtain ⟨hle, rfl⟩ := hr.lands h
  exact hQ c hle hc

/-- **A read against a read.** -/
theorem refines_read {n : ℕ} {g : Checked α} {r : Read α} {k : α → Checked β}
    {f : α → Header β} (hr : Reads n g r.get) (hk : ∀ a, Refines Anywhere (k a) (f a)) :
    Refines P (g >>= k) (Header.read r >>= f) := refines_read_at hr anywhere hk

theorem take_length {c c' : Cur} {n : ℕ} {b : Bytes} (h : c.take n = .ok (b, c')) :
    b.length = n := by
  obtain ⟨hn, he⟩ := Cur.take_eq_ok_iff.mp h
  have hb : b = c.rest.take n := (Prod.ext_iff.mp he).1
  rw [hb, List.length_take, Cur.length_rest, Nat.min_eq_left hn]

/-- The bytes of a slice that was taken are there. -/
theorem refines_slice {n : ℕ} {g : Checked Bytes} {get : Cur → Except DissectError (Bytes × Cur)}
    {d : Header Bytes} {k : Bytes → Checked β} {f : Bytes → Header β} (hr : Reads n g get)
    (hd : ∀ c s, d.run c s = (get c, s))
    (hlen : ∀ c b c', get c = .ok (b, c') → b.length = n) (hQ : After n P Q)
    (hk : ∀ b, b.length = n → Refines Q (k b) (f b)) : Refines P (g >>= k) (d >>= f) := by
  intro c s hc hadr hs
  rw [run_bind, Header.run_bind, hd, hr.run s.depth hadr]
  cases hget : get c with
  | error e => exact ⟨rfl, hs⟩
  | ok p =>
      obtain ⟨hle, hp⟩ := hr.lands (show get c = .ok (p.1, p.2) from hget)
      have hadr' : Addressable p.2 := hadr.within (hp ▸ c.advance_within n hle)
      exact hk p.1 (hlen c p.1 p.2 hget) p.2 s (hp ▸ hQ c hle hc) hadr' hs

theorem refines_mac {k : Bytes → Checked β} {f : Bytes → Header β}
    (hk : ∀ b, b.length = 6 → Refines Anywhere (k b) (f b)) :
    Refines P (mac >>= k) (Header.read .mac >>= f) := by
  refine refines_slice reads_mac (fun _ _ => rfl) (fun c b c' h => ?_) anywhere hk
  obtain ⟨b', hb', rfl⟩ := Cur.read_eq_ok h
  exact take_length hb'

theorem refines_take_at (n : ℕ) {k : Bytes → Checked β} {f : Bytes → Header β}
    (hQ : After n P Q) (hk : ∀ b, b.length = n → Refines Q (k b) (f b)) :
    Refines P (take n >>= k) (Header.take n >>= f) :=
  refines_slice (reads_take n) (fun _ _ => rfl) (fun _ _ _ => take_length) hQ hk

theorem refines_take (n : ℕ) {k : Bytes → Checked β} {f : Bytes → Header β}
    (hk : ∀ b, b.length = n → Refines Anywhere (k b) (f b)) :
    Refines P (take n >>= k) (Header.take n >>= f) := refines_take_at n anywhere hk

theorem skip_run (n : ℕ) (c : Cur) (s : Hdr) :
    (Header.skip n).run c s = ((c.take n).map fun p => ((), p.2), s) := by
  have htake : (Header.take n).run c s = (c.take n, s) := rfl
  unfold Header.skip
  rw [Header.run_bind, htake]
  cases c.take n <;> rfl

theorem refines_skip (n : ℕ) : Refines P (skip n) (Header.skip n) :=
  (reads_skip n).refines (skip_run n)

theorem refines_skip_at {n : ℕ} {k : Unit → Checked β} {f : Unit → Header β}
    (hQ : After n P Q) (hk : Refines Q (k ()) (f ())) :
    Refines P (skip n >>= k) (Header.skip n >>= f) := by
  refine refines_bind_of (refines_skip n) (fun c s a c' hc h => ?_) fun _ => hk
  rw [skip_run] at h
  obtain ⟨hle, rfl⟩ := (reads_skip n).lands h
  exact hQ c hle hc

theorem refines_confine (n : ℕ) : Refines P (confine n) (Header.confine n) :=
  fun _ s _ hadr hs => ⟨run_confine s.depth hadr n, hs⟩

theorem refines_peekU8 : Refines P peekU8 Header.peekU8 :=
  fun c s _ _ hs => ⟨run_peekU8 s.depth c, hs⟩

/-- What is peeked at has the length that was asked for. -/
theorem refines_peek {n : ℕ} {k : Option Bytes → Checked β} {f : Option Bytes → Header β}
    (hk : ∀ o : Option Bytes, (∀ b, o = some b → b.length = n) → Refines P (k o) (f o)) :
    Refines P (peek n >>= k) (Header.peek n >>= f) := by
  intro c s hc hadr hs
  have hlen : ∀ b, c.peek n = some b → b.length = n := by
    intro b hb
    unfold Cur.peek at hb
    split at hb
    · next h =>
        cases hb
        rw [List.length_take, Cur.length_rest, Nat.min_eq_left h]
    · cases hb
  rw [run_bind, run_peek s.depth hadr]
  exact hk (c.peek n) hlen c s hc hadr hs

/-- How many bytes are left, on both sides. -/
theorem refines_remaining {k : ℕ → Checked β} {f : ℕ → Header β}
    (hk : ∀ n, Refines (fun c => c.remaining = n) (k n) (f n)) :
    Refines P (remaining >>= k) (Header.remaining >>= f) := by
  intro c s _ hadr hs
  rw [run_remaining]
  exact hk c.remaining c s rfl hadr hs

/-- A look of the model at how many bytes are left. -/
theorem refines_remaining_right {g : Checked β} {f : ℕ → Header β}
    (h : ∀ n, Refines (fun c => P c ∧ c.remaining = n) g (f n)) :
    Refines P g (Header.remaining >>= f) :=
  fun c s hc hadr hs => h c.remaining c s ⟨hc, rfl⟩ hadr hs

/-- A look of the checked dissector at how many bytes are left. -/
theorem refines_remaining_left {k : ℕ → Checked β} {d : Header β}
    (h : ∀ n, Refines (fun c => P c ∧ c.remaining = n) (k n) d) :
    Refines P (remaining >>= k) d := by
  intro c s hc hadr hs
  rw [run_remaining]
  exact h c.remaining c s ⟨hc, rfl⟩ hadr hs

/-- A look at how many bytes are left, where that is known already. -/
theorem refines_remaining_known {n : ℕ} {k : ℕ → Checked β} {d : Header β}
    (hP : ∀ c, P c → c.remaining = n) (h : Refines P (k n) d) :
    Refines P (remaining >>= k) d := by
  intro c s hc hadr hs
  rw [run_remaining, hP c hc]
  exact h c s hc hadr hs

/-- The cursor itself, on both sides. -/
theorem refines_cursor {k : RawCur → Checked β} {f : Cur → Header β}
    (h : ∀ c, Addressable c → Refines P (k c.raw) (f c)) :
    Refines P (cursor >>= k) (Header.cursor >>= f) :=
  fun c s hc hadr hs => h c hadr c s hc hadr hs

/-- What is left of an attempt. -/
theorem run_attempt {n : ℕ} {g : Checked α} {get : Cur → Except DissectError (α × Cur)}
    (hr : Reads n g get) {c : Cur} (hadr : Addressable c) (depth : UInt8) :
    (attempt g).run c.raw depth =
      .ok (match get c with
        | .ok (a, c') => .ok (some a, c'.raw)
        | .error _ => .ok (none, c.raw), depth) := by
  unfold attempt
  dsimp only
  rw [hr.run depth hadr]
  cases get c <;> rfl

theorem refines_tryRead {n : ℕ} {g : Checked α} {r : Read α} (hr : Reads n g r.get) :
    Refines P (attempt g) (Header.tryRead r) := by
  intro c s _ hadr hs
  rw [run_attempt hr hadr]
  unfold Header.tryRead
  dsimp only
  cases r.get c <;> exact ⟨rfl, hs⟩

theorem refines_tryTake (n : ℕ) : Refines P (attempt (take n)) (Header.tryTake n) := by
  intro c s _ hadr hs
  rw [run_attempt (reads_take n) hadr]
  unfold Header.tryTake
  dsimp only
  cases c.take n <;> exact ⟨rfl, hs⟩

theorem refines_trySkip (n : ℕ) :
    Refines P (attempt (skip n) >>= fun _ => pure ()) (Header.trySkip n) := by
  intro c s _ hadr hs
  unfold Header.trySkip Header.tryTake
  rw [run_bind, run_attempt (reads_skip n) hadr, Header.run_bind]
  dsimp only
  cases c.take n <;> exact ⟨rfl, hs⟩

/-! ### Levels -/

theorem refines_descend : Refines P descend Tunnel.descend := by
  intro c s _ _ hs
  rw [Tunnel.descend_run]
  unfold descend
  dsimp only
  by_cases h : Tunnel.maxDepth ≤ s.depth
  · rw [if_pos h, if_pos h]
    exact ⟨rfl, hs⟩
  · have hlt : s.depth.toNat < Tunnel.maxDepth.toNat := Nat.lt_of_not_le h
    have hmax : Tunnel.maxDepth.toNat = 8 := rfl
    have hadd : Machine.add 8 s.depth.toNat 1 = .ok (s.depth.toNat + 1) :=
      Machine.add_of_lt (by omega)
    have hdeeper : UInt8.ofNat (s.depth.toNat + 1) = s.depth + 1 := by simp
    rw [if_neg h, if_neg h, hadd]
    refine ⟨?_, ?_⟩
    · change (if Tunnel.maxDepth.toNat < s.depth.toNat + 1 then _ else _) = _
      rw [if_neg (show ¬ Tunnel.maxDepth.toNat < s.depth.toNat + 1 by omega), hdeeper]
      rfl
    · change s.depth + 1 ≤ Tunnel.maxDepth
      rw [UInt8.le_iff_toNat_le, ← hdeeper, UInt8.toNat_ofNat_of_lt' (show _ < 256 by omega)]
      exact hlt

theorem promote_depth (s : Hdr) : (Tunnel.promote s).depth = s.depth := by
  unfold Tunnel.promote
  split <;> rfl

theorem refines_enter (kind : Layer) : Refines P enter (Tunnel.enter kind) :=
  refines_bind refines_descend fun _ => refines_layer kind <|
    refines_set promote_depth <| refines_last fun _ => rfl

/-! ### Walks aside -/

/-- From where `P` holds, the walk goes to its end. -/
def Settles (P : Cur → Prop) (g : Checked Unit) : Prop :=
  ∀ c depth, P c → Addressable c → ∃ r, g.run c.raw depth = .ok (.ok ((), r), depth)

theorem settles_pure : Settles P (pure ()) := fun c _ _ _ => ⟨c.raw, rfl⟩

theorem settles_machine {x : Except Fault α} {a : α} {k : α → Checked Unit} (hx : x = .ok a)
    (h : Settles P (k a)) : Settles P (machine x >>= k) := by
  rw [run_machine_bind hx]
  exact h

theorem settles_ite {p : Prop} [Decidable p] {g g' : Checked Unit} (h : p → Settles P g)
    (h' : ¬ p → Settles P g') : Settles P (if p then g else g') := by
  split
  · next hp => exact h hp
  · next hp => exact h' hp

/-- A read that may fail. -/
theorem settles_attempt {n : ℕ} {g : Checked α} {get : Cur → Except DissectError (α × Cur)}
    {k : Option α → Checked Unit} (hr : Reads n g get) (hQ : After n P Q)
    (hnone : Settles P (k none)) (hsome : ∀ c a c', get c = .ok (a, c') → Settles Q (k (some a))) :
    Settles P (attempt g >>= k) := by
  intro c depth hc hadr
  rw [run_bind, run_attempt hr hadr]
  cases hget : get c with
  | error e => exact hnone c depth hc hadr
  | ok p =>
      obtain ⟨hle, hp⟩ := hr.lands (show get c = .ok (p.1, p.2) from hget)
      have hadr' : Addressable p.2 := hadr.within (hp ▸ c.advance_within n hle)
      exact hsome c p.1 p.2 hget p.2 depth (hp ▸ hQ c hle hc) hadr'

theorem refines_aside {g : Checked Unit} {k : Unit → Checked β} {d : Header β} (c : Cur)
    (hg : Settles Q g) (hc : Q c) (hadr : Addressable c) (h : Refines P (k ()) d) :
    Refines P (aside c.raw g >>= k) d := by
  intro c' s hc' hadr' hs
  obtain ⟨r, hr⟩ := hg c s.depth hc hadr
  have haside : (aside c.raw g).run c'.raw s.depth = .ok (.ok ((), c'.raw), s.depth) := by
    unfold aside
    dsimp only
    rw [hr]
  rw [run_bind, haside]
  exact h c' s hc' hadr' hs

end Rules

end Checked

end PcapRacer
