/-
**What header dissectors do with given bytes.**

Decapsulation is a matter of few things: the bytes that are left, the stack of layer names, the
depth, the addresses, ports and tuple of the packet, and the addressing of the outermost tunnel.
This module looks at header dissectors through these alone.  Its rules follow the operations that
dissectors are made of, so that what a dissector does with the bytes of a header is read off the
dissector step by step.

Main definitions:

* `Trail` — what is looked at;
* `Header.Gives` — what a dissector gives for some bytes, and where it leaves the trail;
* `Trail.entry` — entering a tunnel, which fails at the cap.

Main results: one rule for each operation, `Header.gives_read_bind` and the ones after it.
-/

import PcapRacer.ByteOrder
import PcapRacer.HeaderSteps
import PcapRacer.V6Fragments

set_option relaxedAutoImplicit false
set_option autoImplicit false

namespace PcapRacer

/-! ### Trails -/

/-- What the headers of a packet leave behind. -/
structure Trail where
  stack : List Layer
  depth : UInt8
  addrs : Option Text × Option Text
  ports : Option UInt16 × Option UInt16
  outerAddrs : Option Text × Option Text
  outerPorts : Option UInt16 × Option UInt16
  tuple : Option Tuple

/-- The trail of a state. -/
def Hdr.trail (s : Hdr) : Trail where
  stack := s.stack
  depth := s.depth
  addrs := (s.net.ipSrc, s.net.ipDst)
  ports := (s.transport.srcPort, s.transport.dstPort)
  outerAddrs := (s.tunnel.outerIpSrc, s.tunnel.outerIpDst)
  outerPorts := (s.tunnel.outerSrcPort, s.tunnel.outerDstPort)
  tuple := s.tuple

namespace Trail

variable (t : Trail)

def push (l : Layer) : Trail := { t with stack := t.stack ++ [l] }

def address (src dst : IpAddr) : Trail := { t with addrs := (some src.toText, some dst.toText) }

def port (sport dport : UInt16) : Trail := { t with ports := (some sport, some dport) }

def converse (src dst : IpAddr) (sport dport : UInt16) (proto : UInt8) : Trail :=
  { t with tuple := some { srcIp := src, dstIp := dst, srcPort := sport, dstPort := dport, proto } }

/-- The addressing moves out when nothing has yet. -/
def promote : Trail :=
  if t.outerAddrs.1.isNone then
    { t with outerAddrs := t.addrs, outerPorts := t.ports, addrs := (none, none),
             ports := (none, none) }
  else t

/-- Inside a tunnel. -/
def inside (kind : Layer) : Trail := ({ t with depth := t.depth + 1 }.push kind).promote

/-- Entering a tunnel, and then something that leaves the trail alone. -/
def entry {α : Type} (kind : Layer) (a : α) : Except DissectError α × Trail :=
  if Tunnel.maxDepth ≤ t.depth then (.error .depthExceeded, t) else (.ok a, t.inside kind)

end Trail

/-! ### What a dissector gives -/

namespace Header

variable {α β : Type}

/-- With these bytes under the cursor, and from this trail, the dissector gives this result and these
bytes are left, or this error; and it leaves that trail. -/
def Gives (d : Header α) (x : Bytes) (t : Trail) (o : Except DissectError (α × Bytes) × Trail) :
    Prop :=
  ∀ (c : Cur) (s : Hdr), c.rest = x → s.trail = t →
    (sight (d.run c s).1, (d.run c s).2.trail) = o

section Rules

variable {x y : Bytes} {t t' : Trail} {o : Except DissectError (β × Bytes) × Trail}

theorem gives_pure (a : α) : Gives (pure a) x t (.ok (a, x), t) := by
  intro c s hc hs
  rw [← hc, ← hs]
  rfl

theorem gives_bind {d : Header α} {f : α → Header β} {a : α} (hd : Gives d x t (.ok (a, y), t'))
    (hf : Gives (f a) y t' o) : Gives (d >>= f) x t o := by
  intro c s hc hs
  obtain ⟨hsight, htrail⟩ := Prod.mk.inj (hd c s hc hs)
  rw [run_bind]
  rcases hx : d.run c s with ⟨r, s'⟩
  rw [hx] at hsight htrail
  cases r with
  | error e => cases hsight
  | ok p =>
      obtain ⟨rfl, hrest⟩ := Prod.mk.inj (Except.ok.inj hsight)
      exact hf p.2 s' hrest htrail

/-- A dissector that runs as another one from somewhere else. -/
theorem gives_of_run {d d' : Header α} {o : Except DissectError (α × Bytes) × Trail}
    (hd : ∀ (c : Cur) (s : Hdr), c.rest = x → s.trail = t →
      ∃ c' s', c'.rest = y ∧ s'.trail = t' ∧ d.run c s = d'.run c' s')
    (h : Gives d' y t' o) : Gives d x t o := by
  intro c s hc hs
  obtain ⟨c', s', hrest, htrail, hrun⟩ := hd c s hc hs
  rw [hrun]
  exact h c' s' hrest htrail

theorem gives_read_bind {n : ℕ} {g : Bytes → α} {f : α → Header β} (hx : x.length = n + 1)
    (h : Gives (f (g x)) y t o) : Gives (read (.bytes n g) >>= f) (x ++ y) t o := by
  intro c s hc hs
  obtain ⟨c', hrest, hrun⟩ := exists_read_append (β := β) hc hx g
  rw [hrun f s]
  exact h c' s hrest hs

/-- One byte. -/
theorem gives_u8_bind {b : UInt8} {f : UInt8 → Header β} (h : Gives (f b) y t o) :
    Gives (read .u8 >>= f) (b :: y) t o :=
  gives_read_bind (x := [b]) rfl h

/-- A number in network order. -/
theorem gives_be16_bind {v : UInt16} {f : UInt16 → Header β} (h : Gives (f v) y t o) :
    Gives (read .be16 >>= f) (beBytes 2 v.toNat ++ y) t o := by
  refine gives_read_bind (length_beBytes 2 _) ?_
  rw [ofNat_beBytes_two]
  exact h

theorem gives_be32_bind {v : UInt32} {f : UInt32 → Header β} (h : Gives (f v) y t o) :
    Gives (read .be32 >>= f) (beBytes 4 v.toNat ++ y) t o := by
  refine gives_read_bind (length_beBytes 4 _) ?_
  rw [ofNat_beBytes_four]
  exact h

theorem gives_skip_bind {n : ℕ} {f : Unit → Header β} (hx : x.length = n) (h : Gives (f ()) y t o) :
    Gives (skip n >>= f) (x ++ y) t o := by
  intro c s hc hs
  obtain ⟨c', hrest, hrun⟩ := exists_skip_append (β := β) hc hx
  rw [hrun f s]
  exact h c' s hrest hs

theorem gives_take_bind {n : ℕ} {f : Bytes → Header β} (hx : x.length = n)
    (h : Gives (f x) y t o) : Gives (take n >>= f) (x ++ y) t o := by
  intro c s hc hs
  obtain ⟨c', htake, hrest⟩ := Cur.exists_take hc hx.symm
  have hrun : (take n).run c s = (.ok (x, c'), s) := congrArg (fun r => (r, s)) htake
  rw [run_bind, hrun]
  exact h c' s hrest hs

/-- A change of the state, with what it does to the trail. -/
theorem gives_set_bind {w : Hdr → Hdr} {φ : Trail → Trail} {f : Unit → Header β}
    (hw : ∀ s, (w s).trail = φ s.trail) (h : Gives (f ()) x (φ t) o) :
    Gives (set w >>= f) x t o := by
  intro c s hc hs
  rw [run_set_bind]
  exact h c (w s) hc (by rw [hw, hs])

theorem gives_layer_bind {l : Layer} {f : Unit → Header β} (h : Gives (f ()) x (t.push l) o) :
    Gives (layer l >>= f) x t o := gives_set_bind (φ := fun t => t.push l) (fun _ => rfl) h

/-- Columns that the trail does not look at. -/
theorem gives_keep_bind {w : Hdr → Hdr} {f : Unit → Header β} (hw : ∀ s, (w s).trail = s.trail)
    (h : Gives (f ()) x t o) : Gives (set w >>= f) x t o := gives_set_bind (φ := id) hw h

/-- What the columns hold does not matter. -/
theorem gives_look {f : Hdr → Header β} (h : ∀ s, Gives (f s) x t o) : Gives (get >>= f) x t o :=
  fun c s hc hs => h s c s hc hs

theorem gives_remaining_bind {f : ℕ → Header β} (h : Gives (f x.length) x t o) :
    Gives (remaining >>= f) x t o := by
  intro c s hc hs
  have hlen : c.remaining = x.length := by rw [← Cur.length_rest, hc]
  change (sight ((f c.remaining).run c s).1, ((f c.remaining).run c s).2.trail) = o
  rw [hlen]
  exact h c s hc hs

theorem gives_peekU8_bind {b : UInt8} {f : UInt8 → Header β} (h : Gives (f b) (b :: y) t o) :
    Gives (peekU8 >>= f) (b :: y) t o := by
  intro c s hc hs
  have hpeek : c.peekU8 = .ok b := by
    obtain ⟨c', hread, -⟩ := Cur.exists_u8 hc
    rw [Cur.peekU8, hread]
    rfl
  have hrun : peekU8.run c s = (.ok (b, c), s) := by
    change (c.peekU8.map fun b => (b, c), s) = _
    rw [hpeek]
    rfl
  rw [run_bind, hrun]
  exact h c s hc hs

/-- Looking ahead, where there are bytes enough and where there are not. -/
theorem gives_peek_bind {n : ℕ} {f : Option Bytes → Header β}
    (h : Gives (f (if n ≤ x.length then some (x.take n) else none)) x t o) :
    Gives (peek n >>= f) x t o := by
  intro c s hc hs
  have hlen : c.remaining = x.length := by rw [← Cur.length_rest, hc]
  change (sight ((f (c.peek n)).run c s).1, ((f (c.peek n)).run c s).2.trail) = o
  rw [Cur.peek, hlen, hc]
  exact h c s hc hs

theorem gives_peek_append {n : ℕ} {f : Option Bytes → Header β} (hx : x.length = n)
    (h : Gives (f (some x)) (x ++ y) t o) : Gives (peek n >>= f) (x ++ y) t o := by
  refine gives_peek_bind ?_
  rw [if_pos (by rw [List.length_append]; omega), ← hx, List.take_left]
  exact h

theorem trail_promote (s : Hdr) : (Tunnel.promote s).trail = s.trail.promote := by
  unfold Tunnel.promote Trail.promote
  have hcond : s.trail.outerAddrs.1.isNone = s.tunnel.outerIpSrc.isNone := rfl
  rw [hcond]
  split <;> rfl

theorem gives_descend_bind {f : Unit → Header β} (hfree : t.depth < Tunnel.maxDepth)
    (h : Gives (f ()) x { t with depth := t.depth + 1 } o) : Gives (Tunnel.descend >>= f) x t o := by
  intro c s hc hs
  have hdepth : ¬ Tunnel.maxDepth ≤ s.depth := by
    rw [show s.depth = t.depth from congrArg Trail.depth hs]
    exact UInt8.not_le.mpr hfree
  rw [run_bind, Tunnel.descend_run, if_neg hdepth]
  exact h c _ hc (by rw [← hs]; rfl)

/-- **Entering a tunnel.** -/
theorem gives_enter_bind {kind : Layer} {f : Unit → Header β} {r : β × Bytes}
    (h : ∀ t, Gives (f ()) x t (.ok r, t)) :
    Gives (Tunnel.enter kind >>= f) x t (t.entry kind r) := by
  unfold Trail.entry
  by_cases hfull : Tunnel.maxDepth ≤ t.depth
  · rw [if_pos hfull]
    intro c s hc hs
    have hdepth : Tunnel.maxDepth ≤ s.depth := by
      rwa [show s.depth = t.depth from congrArg Trail.depth hs]
    have hrun : (Tunnel.enter kind).run c s = (.error .depthExceeded, s) := by
      unfold Tunnel.enter
      rw [run_bind, Tunnel.descend_run, if_pos hdepth]
    rw [run_bind, hrun, ← hs]
    rfl
  · rw [if_neg hfull]
    refine gives_bind (a := ()) ?_ (h (t.inside kind))
    unfold Tunnel.enter
    refine gives_descend_bind (UInt8.not_le.mp hfull) (gives_layer_bind ?_)
    refine gives_set_bind (φ := Trail.promote) trail_promote fun c s hc hs => ?_
    change s.trail = t.inside kind at hs
    rw [← hc, ← hs]
    rfl

end Rules

end Header

end PcapRacer
