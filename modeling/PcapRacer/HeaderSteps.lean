/-
**Header dissectors as sequences of steps.**

A header dissector reads, writes columns, pushes names and enters tunnels, one step after the other.
What holds of every step and carries over from one step to the next holds of the dissector; so each
dissector is taken apart once, here, and the walks over a frame use the result.

Main definitions:

* `sight` — what a result says, up to where its cursor is;
* `Header.Silent` — dissectors that write nothing;
* `Header.Built` — steps that look at nothing but the bytes under the cursor, the depth, the link
  columns, and what a tunnel promotes;
* `Header.Stepwise` — such steps that look at no more bytes than they consume, or at the next two;
* `Header.Aloof` — such steps that leave alone whom the packet is from and to.

Main results:

* `Header.Aloof.stepwise`, `Header.Stepwise.built` — from one class to the next;
* `Link.dissectLink_aloof`, `Tunnel.tryUdpTunnel_aloof`, `Network.ipv4_stepwise`,
  `Network.dispatchIpProto_built` and the others — the class of every dissector.
-/

import PcapRacer.Walk

set_option relaxedAutoImplicit false
set_option autoImplicit false

namespace PcapRacer

/-- What a result says, up to where the cursor is. -/
def sight {α : Type} (r : Except DissectError (α × Cur)) : Except DissectError (α × Bytes) :=
  r.map fun p => (p.1, p.2.rest)

/-- Two results that say the same. -/
theorem sight_cases {α : Type} {r r' : Except DissectError (α × Cur)} (h : sight r = sight r') :
    (∃ e, r = .error e ∧ r' = .error e) ∨
      ∃ a c c', r = .ok (a, c) ∧ r' = .ok (a, c') ∧ c.rest = c'.rest := by
  rcases r with e | ⟨a, c⟩ <;> rcases r' with e' | ⟨a', c'⟩
  · cases h
    exact .inl ⟨e, rfl, rfl⟩
  · cases h
  · cases h
  · simp only [sight, Except.map, Except.ok.injEq, Prod.mk.injEq] at h
    obtain ⟨rfl, hrest⟩ := h
    exact .inr ⟨a, c, c', rfl, rfl, hrest⟩

theorem sight_ok {α : Type} (a : α) {c c' : Cur} (h : c.rest = c'.rest) :
    sight (.ok (a, c)) = sight (.ok (a, c')) := by
  simp only [sight, Except.map, h]

/-! ### Reads -/

/-- The cursor is looked at through the bytes left under it only. -/
def Read.Local {α : Type} (r : Read α) : Prop :=
  ∀ c c' : Cur, c.rest = c'.rest → sight (r.get c) = sight (r.get c')

namespace Cur

theorem remaining_congr {c c' : Cur} (h : c.rest = c'.rest) : c.remaining = c'.remaining := by
  rw [← length_rest, ← length_rest, h]

theorem take_congr {c c' : Cur} (h : c.rest = c'.rest) (n : ℕ) :
    sight (c.take n) = sight (c'.take n) := by
  by_cases hn : n ≤ c.remaining
  · have hn' : n ≤ c'.remaining := remaining_congr h ▸ hn
    rw [take_of_le hn, take_of_le hn', h]
    simp only [sight, Except.map, rest_advance, h]
  · have hn' : ¬ n ≤ c'.remaining := remaining_congr h ▸ hn
    rw [take, take, dif_neg hn, dif_neg hn']

theorem sub_congr {c c' : Cur} (h : c.rest = c'.rest) (n : ℕ) :
    sight ((c.sub n).map fun p => ((), p.1)) = sight ((c'.sub n).map fun p => ((), p.1)) := by
  by_cases hn : n ≤ c.remaining
  · have hn' : n ≤ c'.remaining := remaining_congr h ▸ hn
    rw [sub, sub, dif_pos hn, dif_pos hn']
    simp only [sight, Except.map, rest, List.drop_zero]
    rw [show c.data.drop c.pos = c'.data.drop c'.pos from h]
  · have hn' : ¬ n ≤ c'.remaining := remaining_congr h ▸ hn
    rw [sub, sub, dif_neg hn, dif_neg hn']

theorem peek_congr {c c' : Cur} (h : c.rest = c'.rest) (n : ℕ) : c.peek n = c'.peek n := by
  rw [peek, peek, remaining_congr h, h]

end Cur

theorem Read.bytes_local {α : Type} (n : ℕ) (f : Bytes → α) : (Read.bytes n f).Local := by
  intro c c' h
  obtain ⟨e, hc, hc'⟩ | ⟨b, d, d', hc, hc', hrest⟩ := sight_cases (Cur.take_congr h (n + 1))
  all_goals
    change sight ((c.take (n + 1)).map _) = sight ((c'.take (n + 1)).map _)
    rw [hc, hc']
  exact sight_ok (f b) hrest

/-- The read takes some bytes and converts them. -/
def Read.IsBytes {α : Type} (r : Read α) : Prop := ∃ n f, r = Read.bytes n f

theorem Read.isBytes_bytes {α : Type} (n : ℕ) (f : Bytes → α) : (Read.bytes n f).IsBytes :=
  ⟨n, f, rfl⟩

theorem Read.IsBytes.isLocal {α : Type} {r : Read α} (h : r.IsBytes) : r.Local := by
  obtain ⟨n, f, rfl⟩ := h
  exact Read.bytes_local n f

theorem Cur.u8_congr {c c' : Cur} (h : c.rest = c'.rest) : sight c.u8 = sight c'.u8 := by
  rw [u8_eq_read, u8_eq_read]
  exact Read.bytes_local 0 (fun b => b.headD 0) c c' h

/-! ### Dissectors that write nothing -/

namespace Header

section Silent

variable {α β : Type}

/-- The dissector writes nothing. -/
def Silent (d : Header α) : Prop := ∀ c s, (d.run c s).2 = s

theorem silent_pure (a : α) : Silent (pure a) := fun _ _ => rfl

theorem silent_fail (e : DissectError) : Silent (fail e : Header α) := fun _ _ => rfl

theorem silent_read (r : Read α) : Silent (read r) := fun _ _ => rfl

theorem silent_cursor : Silent cursor := fun _ _ => rfl

theorem silent_peekU8 : Silent peekU8 := fun _ _ => rfl

theorem silent_bind {d : Header α} {f : α → Header β} (hd : Silent d) (hf : ∀ a, Silent (f a)) :
    Silent (d >>= f) := by
  intro c s
  rw [run_bind]
  have hs := hd c s
  rcases hx : d.run c s with ⟨x, s'⟩
  rw [hx] at hs
  cases hs
  cases x with
  | error e => rfl
  | ok p => exact hf p.1 p.2 s'

theorem silent_skip (n : ℕ) : Silent (skip n) := silent_bind (fun _ _ => rfl) fun _ => silent_pure _

theorem silent_remaining : Silent remaining := silent_bind silent_cursor fun _ => silent_pure _

theorem silent_peek (n : ℕ) : Silent (peek n) := silent_bind silent_cursor fun _ => silent_pure _

theorem silent_take (n : ℕ) : Silent (take n) := fun _ _ => rfl

theorem silent_tryRead (r : Read α) : Silent (tryRead r) := by
  intro c s
  unfold tryRead
  dsimp only
  split <;> rfl

theorem silent_tryTake (n : ℕ) : Silent (tryTake n) := by
  intro c s
  unfold tryTake
  dsimp only
  split <;> rfl

theorem silent_trySkip (n : ℕ) : Silent (trySkip n) :=
  silent_bind (silent_tryTake n) fun _ => silent_pure _

end Silent

/-! ### Progress -/

section Progress

variable {α β : Type}

/-- The dissector gets past `n` bytes at least. -/
def Consumes (n : ℕ) (d : Header α) : Prop :=
  ∀ {c : Cur} {s : Hdr} {r : α × Cur}, (d.run c s).1 = .ok r → c.start + n ≤ r.2.start

theorem consumes_zero (d : Header α) : Consumes 0 d := fun h => (d.within h).start_le

theorem consumes_read (n : ℕ) (f : Bytes → α) : Consumes (n + 1) (read (.bytes n f)) := by
  intro c s r h
  obtain ⟨b, hb, -⟩ := Cur.read_eq_ok h
  obtain ⟨hn, he⟩ := Cur.take_eq_ok_iff.mp hb
  rw [(Prod.ext_iff.mp he).2, Cur.start_advance]

theorem consumes_bind {n m : ℕ} {d : Header α} {f : α → Header β} (hd : Consumes n d)
    (hf : ∀ a, Consumes m (f a)) : Consumes (n + m) (d >>= f) := by
  intro c s r h
  rw [run_bind] at h
  rcases hx : d.run c s with ⟨x, s'⟩
  rw [hx] at h
  cases x with
  | error e => cases h
  | ok p =>
      have hp : c.start + n ≤ p.2.start := hd (by rw [hx])
      have hr := hf p.1 h
      omega

end Progress

/-! ### Dissectors as sequences of steps -/

/-- The dissector is built from steps that look at nothing but what twins share. -/
inductive Built : {α : Type} → Header α → Prop
  | pure {α : Type} (a : α) : Built (pure a)
  | fail {α : Type} (e : DissectError) : Built (fail e : Header α)
  | read {α : Type} {r : Read α} (hr : r.Local) : Built (read r)
  | tryRead {α : Type} {r : Read α} (hr : r.Local) : Built (tryRead r)
  | take (n : ℕ) : Built (take n)
  | tryTake (n : ℕ) : Built (tryTake n)
  | skip (n : ℕ) : Built (skip n)
  | trySkip (n : ℕ) : Built (trySkip n)
  | confine (n : ℕ) : Built (confine n)
  | remaining : Built remaining
  | peek (n : ℕ) : Built (peek n)
  | peekU8 : Built peekU8
  | layer {l : Layer} (hl : l.isTunnel = false) : Built (layer l)
  | iface (i : UInt32) : Built (set fun s => { s with ifaceId := some i })
  | link (f : LinkCols → LinkCols) : Built (link f)
  | transport (f : TransportCols → TransportCols) : Built (transport f)
  | tunnel (f : TunnelCols → TunnelCols) : Built (tunnel f)
  | net {f : NetCols → NetCols}
      (hf : ∀ n n', n.ipSrc = n'.ipSrc → n.ipDst = n'.ipDst →
        (f n).ipSrc = (f n').ipSrc ∧ (f n).ipDst = (f n').ipDst) : Built (net f)
  | setTuple (src dst : IpAddr) (sport dport : UInt16) (proto : UInt8) :
      Built (Transport.setTuple src dst sport dport proto)
  | enter {kind : Layer} (hk : kind.isTunnel = true) : Built (Tunnel.enter kind)
  /-- What follows looks at the link columns. -/
  | look {β : Type} {f : Hdr → Header β} (hlink : ∀ s s', s.link = s'.link → f s = f s')
      (hf : ∀ s, Built (f s)) : Built (get >>= f)
  /-- What follows looks at the bytes under the cursor. -/
  | scan {β : Type} {f : Cur → Header β} (hrest : ∀ c c', c.rest = c'.rest → f c = f c')
      (hf : ∀ c, Built (f c)) : Built (cursor >>= f)
  | ite {α : Type} {p : Prop} [Decidable p] {d d' : Header α} (hd : Built d) (hd' : Built d') :
      Built (if p then d else d')
  | bind {α β : Type} {d : Header α} {f : α → Header β} (hd : Built d) (hf : ∀ a, Built (f a)) :
      Built (d >>= f)

/-- The dissector is built from steps each of which looks at the bytes that it consumes, or at the
next two. -/
inductive Stepwise : {α : Type} → Header α → Prop
  | pure {α : Type} (a : α) : Stepwise (pure a)
  | fail {α : Type} (e : DissectError) : Stepwise (fail e : Header α)
  | read {α : Type} {r : Read α} (hr : r.IsBytes) : Stepwise (read r)
  | tryRead {α : Type} {r : Read α} (hr : r.IsBytes) : Stepwise (tryRead r)
  | take (n : ℕ) : Stepwise (take n)
  | tryTake (n : ℕ) : Stepwise (tryTake n)
  | skip (n : ℕ) : Stepwise (skip n)
  | trySkip (n : ℕ) : Stepwise (trySkip n)
  | confine (n : ℕ) : Stepwise (confine n)
  | remaining : Stepwise remaining
  | peek : Stepwise (peek 2)
  | peekU8 : Stepwise peekU8
  | layer {l : Layer} (hl : l.isTunnel = false) : Stepwise (layer l)
  | iface (i : UInt32) : Stepwise (set fun s => { s with ifaceId := some i })
  | link (f : LinkCols → LinkCols) : Stepwise (link f)
  | transport (f : TransportCols → TransportCols) : Stepwise (transport f)
  | tunnel (f : TunnelCols → TunnelCols) : Stepwise (tunnel f)
  | net {f : NetCols → NetCols}
      (hf : ∀ n n', n.ipSrc = n'.ipSrc → n.ipDst = n'.ipDst →
        (f n).ipSrc = (f n').ipSrc ∧ (f n).ipDst = (f n').ipDst) : Stepwise (net f)
  | setTuple (src dst : IpAddr) (sport dport : UInt16) (proto : UInt8) :
      Stepwise (Transport.setTuple src dst sport dport proto)
  | enter {kind : Layer} (hk : kind.isTunnel = true) : Stepwise (Tunnel.enter kind)
  /-- What follows looks at the link columns. -/
  | look {β : Type} {f : Hdr → Header β} (hlink : ∀ s s', s.link = s'.link → f s = f s')
      (hf : ∀ s, Stepwise (f s)) : Stepwise (get >>= f)
  | ite {α : Type} {p : Prop} [Decidable p] {d d' : Header α} (hd : Stepwise d)
      (hd' : Stepwise d') : Stepwise (if p then d else d')
  | bind {α β : Type} {d : Header α} {f : α → Header β} (hd : Stepwise d)
      (hf : ∀ a, Stepwise (f a)) : Stepwise (d >>= f)

theorem Stepwise.built {α : Type} {d : Header α} (h : d.Stepwise) : d.Built := by
  induction h with
  | pure a => exact .pure a
  | fail e => exact .fail e
  | read hr => exact .read hr.isLocal
  | tryRead hr => exact .tryRead hr.isLocal
  | take n => exact .take n
  | tryTake n => exact .tryTake n
  | skip n => exact .skip n
  | trySkip n => exact .trySkip n
  | confine n => exact .confine n
  | remaining => exact .remaining
  | peek => exact .peek 2
  | peekU8 => exact .peekU8
  | layer hl => exact .layer hl
  | iface i => exact .iface i
  | link f => exact .link f
  | transport f => exact .transport f
  | tunnel f => exact .tunnel f
  | net hf => exact .net hf
  | setTuple src dst sport dport proto => exact .setTuple src dst sport dport proto
  | enter hk => exact .enter hk
  | look hlink _ ih => exact .look hlink ih
  | ite _ _ ih ih' => exact .ite ih ih'
  | bind _ _ ih ihf => exact .bind ih ihf

/-- The dissector is built from steps that leave alone whom the packet is from and to: its addresses
and ports, its tuple, and the mark and the number of its fragment.  If `looks` it may look at the
link columns, and if `enters` it may enter a tunnel. -/
inductive Aloof (looks enters : Bool) : {α : Type} → Header α → Prop
  | pure {α : Type} (a : α) : Aloof looks enters (pure a)
  | fail {α : Type} (e : DissectError) : Aloof looks enters (fail e : Header α)
  | read {α : Type} {r : Read α} (hr : r.IsBytes) : Aloof looks enters (read r)
  | tryRead {α : Type} {r : Read α} (hr : r.IsBytes) : Aloof looks enters (tryRead r)
  | take (n : ℕ) : Aloof looks enters (take n)
  | tryTake (n : ℕ) : Aloof looks enters (tryTake n)
  | skip (n : ℕ) : Aloof looks enters (skip n)
  | trySkip (n : ℕ) : Aloof looks enters (trySkip n)
  | confine (n : ℕ) : Aloof looks enters (confine n)
  | remaining : Aloof looks enters remaining
  | peek : Aloof looks enters (peek 2)
  | peekU8 : Aloof looks enters peekU8
  | layer {l : Layer} (hl : l.isTunnel = false) : Aloof looks enters (layer l)
  | iface (i : UInt32) : Aloof looks enters (set fun s => { s with ifaceId := some i })
  | link (f : LinkCols → LinkCols) : Aloof looks enters (link f)
  | transport {f : TransportCols → TransportCols}
      (hf : ∀ t, (f t).srcPort = t.srcPort ∧ (f t).dstPort = t.dstPort) :
      Aloof looks enters (transport f)
  | tunnel {f : TunnelCols → TunnelCols} (hf : ∀ t, (f t).outerIpSrc = t.outerIpSrc) :
      Aloof looks enters (tunnel f)
  | net {f : NetCols → NetCols}
      (hf : ∀ n, (f n).ipSrc = n.ipSrc ∧ (f n).ipDst = n.ipDst ∧
        (f n).ipFlagMf = n.ipFlagMf ∧ (f n).ipId = n.ipId) : Aloof looks enters (net f)
  | enter {kind : Layer} (he : enters = true) (hk : kind.isTunnel = true) :
      Aloof looks enters (Tunnel.enter kind)
  /-- What follows looks at the link columns. -/
  | look {β : Type} {f : Hdr → Header β} (hl : looks = true)
      (hlink : ∀ s s', s.link = s'.link → f s = f s')
      (hf : ∀ s, Aloof looks enters (f s)) : Aloof looks enters (get >>= f)
  | ite {α : Type} {p : Prop} [Decidable p] {d d' : Header α} (hd : Aloof looks enters d)
      (hd' : Aloof looks enters d') :
      Aloof looks enters (if p then d else d')
  | bind {α β : Type} {d : Header α} {f : α → Header β} (hd : Aloof looks enters d)
      (hf : ∀ a, Aloof looks enters (f a)) :
      Aloof looks enters (d >>= f)

theorem Aloof.stepwise {looks enters : Bool} {α : Type} {d : Header α} (h : d.Aloof looks enters) :
    d.Stepwise := by
  induction h with
  | pure a => exact .pure a
  | fail e => exact .fail e
  | read hr => exact .read hr
  | tryRead hr => exact .tryRead hr
  | take n => exact .take n
  | tryTake n => exact .tryTake n
  | skip n => exact .skip n
  | trySkip n => exact .trySkip n
  | confine n => exact .confine n
  | remaining => exact .remaining
  | peek => exact .peek
  | peekU8 => exact .peekU8
  | layer hl => exact .layer hl
  | iface i => exact .iface i
  | link f => exact .link f
  | transport _ => exact .transport _
  | tunnel _ => exact .tunnel _
  | net hf =>
      refine .net fun n n' hsrc hdst => ⟨?_, ?_⟩
      · rw [(hf n).1, (hf n').1, hsrc]
      · rw [(hf n).2.1, (hf n').2.1, hdst]
  | enter _ hk => exact .enter hk
  | look _ hlink _ ih => exact .look hlink ih
  | ite _ _ ih ih' => exact .ite ih ih'
  | bind _ _ ih ihf => exact .bind ih ihf

/-- A dissector that neither looks at the link columns nor enters a tunnel need not. -/
theorem Aloof.weaken {looks enters : Bool} {α : Type} {d : Header α} (h : d.Aloof false false) :
    d.Aloof looks enters := by
  induction h with
  | pure a => exact .pure a
  | fail e => exact .fail e
  | read hr => exact .read hr
  | tryRead hr => exact .tryRead hr
  | take n => exact .take n
  | tryTake n => exact .tryTake n
  | skip n => exact .skip n
  | trySkip n => exact .trySkip n
  | confine n => exact .confine n
  | remaining => exact .remaining
  | peek => exact .peek
  | peekU8 => exact .peekU8
  | layer hl => exact .layer hl
  | iface i => exact .iface i
  | link f => exact .link f
  | transport hf => exact .transport hf
  | tunnel hf => exact .tunnel hf
  | net hf => exact .net hf
  | enter he _ => cases he
  | look hl _ _ _ => cases hl
  | ite _ _ ih ih' => exact .ite ih ih'
  | bind _ _ ih ihf => exact .bind ih ihf

theorem Aloof.built {looks enters : Bool} {α : Type} {d : Header α} (h : d.Aloof looks enters) :
    d.Built := h.stepwise.built

end Header

open Header (Built Stepwise Aloof)

/-! ### The link layer -/

namespace Link

theorem arp_aloof : arp.Aloof false false := by
  unfold arp
  repeat' first
    | exact fun _ => rfl | exact fun _ => ⟨rfl, rfl⟩ | exact fun _ => ⟨rfl, rfl, rfl, rfl⟩
    | exact (rfl : _ = (_ : Bool)) | exact Read.isBytes_bytes _ _ | intro _
    | with_reducible constructor

theorem ethertypePayload_aloof (ethertype : UInt16) :
    (ethertypePayload ethertype).Aloof false false := by
  unfold ethertypePayload
  repeat' first
    | exact fun _ => rfl | exact fun _ => ⟨rfl, rfl⟩ | exact fun _ => ⟨rfl, rfl, rfl, rfl⟩
    | exact (rfl : _ = (_ : Bool)) | intro _
    | with_reducible first | exact arp_aloof | constructor
    | split

theorem typeOrLength_aloof (ethertype : UInt16) : (typeOrLength ethertype).Aloof false false :=
  .ite (.pure _) (ethertypePayload_aloof _)

theorem rawIp_aloof : rawIp.Aloof false false := by
  refine .bind .peekU8 fun b => ?_
  repeat' first
    | exact fun _ => rfl | exact fun _ => ⟨rfl, rfl⟩ | exact fun _ => ⟨rfl, rfl, rfl, rfl⟩
    | with_reducible constructor
    | split

theorem pppPayload_aloof (proto : UInt16) : (pppPayload proto).Aloof false false := by
  unfold pppPayload
  repeat' first
    | exact fun _ => rfl | exact fun _ => ⟨rfl, rfl⟩ | exact fun _ => ⟨rfl, rfl, rfl, rfl⟩
    | with_reducible constructor
    | split

theorem ethernet_aloof : ethernet.Aloof false false := by
  unfold ethernet
  repeat' first
    | exact fun _ => rfl | exact fun _ => ⟨rfl, rfl⟩ | exact fun _ => ⟨rfl, rfl, rfl, rfl⟩
    | exact (rfl : _ = (_ : Bool)) | exact Read.isBytes_bytes _ _ | intro _
    | with_reducible first | exact typeOrLength_aloof _ | constructor

theorem vlan_aloof : vlan.Aloof true false := by
  unfold vlan
  refine .bind (.layer rfl) fun _ => .bind (.read (Read.isBytes_bytes _ _)) fun tci => ?_
  refine .look rfl (fun s s' h => by rw [h]) fun s => ?_
  repeat' first
    | exact fun _ => rfl | exact fun _ => ⟨rfl, rfl⟩ | exact fun _ => ⟨rfl, rfl, rfl, rfl⟩
    | exact (rfl : _ = (_ : Bool)) | exact Read.isBytes_bytes _ _ | intro _
    | with_reducible first | exact (typeOrLength_aloof _).weaken | constructor

theorem mplsLabel_aloof (w : UInt32) : (mplsLabel w).Aloof true false := by
  refine .look rfl (fun s s' h => by rw [h]) fun s => ?_
  exact .ite (.link _) (.pure _)

theorem mplsLabels_aloof (rounds : ℕ) : (mplsLabels rounds).Aloof true false := by
  induction rounds with
  | zero => exact .fail _
  | succ rounds ih =>
      refine .bind (.read (Read.isBytes_bytes _ _)) fun w => .bind (mplsLabel_aloof w) fun _ => ?_
      exact .ite (.pure _) ih

theorem mpls_aloof : mpls.Aloof true false := by
  unfold mpls
  repeat' first
    | exact fun _ => rfl | exact fun _ => ⟨rfl, rfl⟩ | exact fun _ => ⟨rfl, rfl, rfl, rfl⟩
    | exact (rfl : _ = (_ : Bool)) | exact Read.isBytes_bytes _ _ | intro _
    | with_reducible first
        | exact mplsLabel_aloof _ | exact mplsLabels_aloof _ | exact rawIp_aloof.weaken | constructor

theorem pppoe_aloof : pppoe.Aloof false false := by
  unfold pppoe
  repeat' first
    | exact fun _ => rfl | exact fun _ => ⟨rfl, rfl⟩ | exact fun _ => ⟨rfl, rfl, rfl, rfl⟩
    | exact (rfl : _ = (_ : Bool)) | exact Read.isBytes_bytes _ _ | intro _
    | with_reducible first | exact pppPayload_aloof _ | constructor

theorem llc_aloof : llc.Aloof false false := by
  unfold llc
  repeat' first
    | exact fun _ => rfl | exact fun _ => ⟨rfl, rfl⟩ | exact fun _ => ⟨rfl, rfl, rfl, rfl⟩
    | exact (rfl : _ = (_ : Bool)) | exact Read.isBytes_bytes _ _ | intro _
    | with_reducible first | exact ethertypePayload_aloof _ | constructor

theorem linuxSll_aloof : linuxSll.Aloof false false := by
  unfold linuxSll
  repeat' first
    | exact fun _ => rfl | exact fun _ => ⟨rfl, rfl⟩ | exact fun _ => ⟨rfl, rfl, rfl, rfl⟩
    | exact (rfl : _ = (_ : Bool)) | exact Read.isBytes_bytes _ _ | intro _
    | with_reducible first | exact ethertypePayload_aloof _ | constructor

theorem linuxSll2_aloof : linuxSll2.Aloof false false := by
  unfold linuxSll2
  repeat' first
    | exact fun _ => rfl | exact fun _ => ⟨rfl, rfl⟩ | exact fun _ => ⟨rfl, rfl, rfl, rfl⟩
    | exact (rfl : _ = (_ : Bool)) | exact Read.isBytes_bytes _ _ | intro _
    | with_reducible first | exact ethertypePayload_aloof _ | constructor

theorem wlanSsid_aloof : wlanSsid.Aloof false false := by
  unfold wlanSsid
  repeat' first
    | exact fun _ => rfl | exact fun _ => ⟨rfl, rfl⟩ | exact fun _ => ⟨rfl, rfl, rfl, rfl⟩
    | exact Read.isBytes_bytes _ _ | intro _
    | with_reducible constructor
    | split

theorem ieee80211_aloof : ieee80211.Aloof false false := by
  unfold ieee80211
  repeat' first
    | exact fun _ => rfl | exact fun _ => ⟨rfl, rfl⟩ | exact fun _ => ⟨rfl, rfl, rfl, rfl⟩
    | exact (rfl : _ = (_ : Bool)) | exact Read.isBytes_bytes _ _ | intro _
    | with_reducible first | exact wlanSsid_aloof | constructor

theorem radiotap_aloof : radiotap.Aloof false false := by
  unfold radiotap
  repeat' first
    | exact fun _ => rfl | exact fun _ => ⟨rfl, rfl⟩ | exact fun _ => ⟨rfl, rfl, rfl, rfl⟩
    | exact (rfl : _ = (_ : Bool)) | exact Read.isBytes_bytes _ _ | intro _
    | with_reducible first | exact ieee80211_aloof | constructor

theorem loopback_aloof : loopback.Aloof false false := by
  unfold loopback
  refine .bind (.read (Read.isBytes_bytes _ _)) fun af => .bind (.layer rfl) fun _ => ?_
  split
  all_goals with_reducible constructor

theorem ppp_aloof : ppp.Aloof false false := by
  unfold ppp
  repeat' first
    | exact fun _ => rfl | exact fun _ => ⟨rfl, rfl⟩ | exact fun _ => ⟨rfl, rfl, rfl, rfl⟩
    | exact (rfl : _ = (_ : Bool)) | exact Read.isBytes_bytes _ _ | intro _
    | with_reducible first | exact pppPayload_aloof _ | constructor

/-- The first dissector of every link type is built from such steps. -/
theorem dissectLink_aloof (linktype : UInt16) : (dissectLink linktype).Aloof false false := by
  unfold dissectLink
  split
  case h_1 => exact .pure _
  all_goals with_reducible first
    | exact rawIp_aloof | exact loopback_aloof | exact linuxSll_aloof
    | exact linuxSll2_aloof | exact ppp_aloof | exact ieee80211_aloof
    | exact radiotap_aloof | exact .fail _

end Link

/-! ### Tunnels -/

namespace Tunnel

theorem erspan_aloof (proto : UInt16) : (erspan proto).Aloof false true := by
  unfold erspan
  repeat' first
    | exact fun _ => rfl | exact fun _ => ⟨rfl, rfl⟩ | exact fun _ => ⟨rfl, rfl, rfl, rfl⟩
    | exact (rfl : _ = (_ : Bool)) | exact Read.isBytes_bytes _ _ | intro _
    | with_reducible constructor

theorem gre_aloof : gre.Aloof false true := by
  unfold gre
  repeat' first
    | exact fun _ => rfl | exact fun _ => ⟨rfl, rfl⟩ | exact fun _ => ⟨rfl, rfl, rfl, rfl⟩
    | exact (rfl : _ = (_ : Bool)) | exact Read.isBytes_bytes _ _ | intro _
    | with_reducible first | exact erspan_aloof _ | constructor
    | split

theorem ipInIp_aloof (innerIsV6 : Bool) : (ipInIp innerIsV6).Aloof false true :=
  .bind (.enter rfl rfl) fun _ => .pure _

theorem vxlan_aloof : vxlan.Aloof false true := by
  unfold vxlan
  repeat' first
    | exact fun _ => rfl | exact fun _ => ⟨rfl, rfl⟩ | exact fun _ => ⟨rfl, rfl, rfl, rfl⟩
    | exact (rfl : _ = (_ : Bool)) | exact Read.isBytes_bytes _ _ | intro _
    | with_reducible constructor

theorem geneve_aloof : geneve.Aloof false true := by
  unfold geneve
  repeat' first
    | exact fun _ => rfl | exact fun _ => ⟨rfl, rfl⟩ | exact fun _ => ⟨rfl, rfl, rfl, rfl⟩
    | exact (rfl : _ = (_ : Bool)) | exact Read.isBytes_bytes _ _ | intro _
    | with_reducible constructor
    | split

theorem gtpExtensions_aloof (guard : ℕ) (next : UInt8) :
    (gtpExtensions guard next).Aloof false false := by
  induction guard generalizing next with
  | zero =>
      unfold gtpExtensions
      exact .ite (.pure _) (.fail _)
  | succ guard ih =>
      unfold gtpExtensions
      repeat' first
    | exact fun _ => rfl | exact fun _ => ⟨rfl, rfl⟩ | exact fun _ => ⟨rfl, rfl, rfl, rfl⟩
        | exact (rfl : _ = (_ : Bool)) | exact Read.isBytes_bytes _ _ | intro _ | exact ih _
        | with_reducible constructor

theorem gtp_aloof : gtp.Aloof false true := by
  unfold gtp
  repeat' first
    | exact fun _ => rfl | exact fun _ => ⟨rfl, rfl⟩ | exact fun _ => ⟨rfl, rfl, rfl, rfl⟩
    | exact (rfl : _ = (_ : Bool)) | exact Read.isBytes_bytes _ _ | intro _
    | with_reducible first
        | exact (gtpExtensions_aloof _ _).weaken | exact Link.rawIp_aloof.weaken | constructor

theorem l2tp_aloof : l2tp.Aloof false true := by
  unfold l2tp
  repeat' first
    | exact fun _ => rfl | exact fun _ => ⟨rfl, rfl⟩ | exact fun _ => ⟨rfl, rfl, rfl, rfl⟩
    | exact (rfl : _ = (_ : Bool)) | exact Read.isBytes_bytes _ _ | intro _
    | with_reducible first | exact (Link.pppPayload_aloof _).weaken | constructor

theorem teredoIndicators_aloof (rounds : ℕ) : (teredoIndicators rounds).Aloof false false := by
  induction rounds with
  | zero => exact .pure _
  | succ rounds ih =>
      refine .bind .peek fun head => ?_
      split
      all_goals repeat' first
    | exact fun _ => rfl | exact fun _ => ⟨rfl, rfl⟩ | exact fun _ => ⟨rfl, rfl, rfl, rfl⟩
        | exact Read.isBytes_bytes _ _ | intro _ | exact ih
        | with_reducible constructor

theorem teredo_aloof : teredo.Aloof false true := by
  unfold teredo
  repeat' first
    | exact fun _ => rfl | exact fun _ => ⟨rfl, rfl⟩ | exact fun _ => ⟨rfl, rfl, rfl, rfl⟩
    | exact (rfl : _ = (_ : Bool)) | exact Read.isBytes_bytes _ _ | intro _
    | with_reducible first | exact (teredoIndicators_aloof _).weaken | constructor

theorem tryUdpTunnel_aloof {sport dport : UInt16} {d : Header Onward}
    (h : tryUdpTunnel sport dport = some d) : d.Aloof false true := by
  unfold tryUdpTunnel at h
  repeat' split at h
  all_goals cases h
  · exact vxlan_aloof
  · exact geneve_aloof
  · exact gtp_aloof
  · exact l2tp_aloof
  · exact teredo_aloof

end Tunnel

/-! ### Transport and network -/

namespace Transport

open Header in
/-- A TCP header has twenty bytes at least. -/
theorem consumes_tcp (src dst : IpAddr) : Consumes 20 (tcp src dst) := by
  have h : Consumes (0 + (2 + (2 + (4 + (4 + (2 + (2 + (2 + (2 + 0))))))))) (tcp src dst) :=
    consumes_bind (consumes_zero _) fun _ => consumes_bind (consumes_read _ _) fun _ =>
    consumes_bind (consumes_read _ _) fun _ => consumes_bind (consumes_read _ _) fun _ =>
    consumes_bind (consumes_read _ _) fun _ => consumes_bind (consumes_read _ _) fun _ =>
    consumes_bind (consumes_read _ _) fun _ => consumes_bind (consumes_read _ _) fun _ =>
    consumes_bind (consumes_read _ _) fun _ => consumes_zero _
  exact fun {_ _ _} hr => h hr

theorem tcp_stepwise (src dst : IpAddr) : (tcp src dst).Stepwise := by
  unfold tcp
  repeat' first
    | exact (rfl : _ = (_ : Bool)) | exact Read.isBytes_bytes _ _ | intro _
    | with_reducible constructor

theorem udpPayload_aloof (sport dport : UInt16) : (udpPayload sport dport).Aloof false true := by
  unfold udpPayload
  split
  · next d h => exact Tunnel.tryUdpTunnel_aloof h
  · exact .pure _

theorem udp_stepwise (src dst : IpAddr) (proto : UInt8) : (udp src dst proto).Stepwise := by
  unfold udp
  repeat' first
    | exact (rfl : _ = (_ : Bool)) | exact Read.isBytes_bytes _ _ | intro _
    | with_reducible first | exact (udpPayload_aloof _ _).stepwise | constructor

/-- The chunks are read from the bytes under the cursor. -/
theorem chunkTypes_congr (count : ℕ) {c c' : Cur} (h : c.rest = c'.rest) :
    chunkTypes count c = chunkTypes count c' := by
  induction count generalizing c c' with
  | zero => rfl
  | succ count ih =>
      unfold chunkTypes
      obtain ⟨e, hx, hx'⟩ | ⟨t, c₁, c₁', hx, hx', h₁⟩ := sight_cases (Cur.u8_congr h)
      · rw [hx, hx']
      rw [hx, hx']
      dsimp only
      obtain ⟨e, hx, hx'⟩ | ⟨flags, c₂, c₂', hx, hx', h₂⟩ := sight_cases (Cur.u8_congr h₁)
      · rw [hx, hx']
      rw [hx, hx']
      dsimp only
      have hlen : sight c₂.be16 = sight c₂'.be16 :=
        Read.bytes_local 1 (fun b => UInt16.ofNat (beNat b)) _ _ h₂
      obtain ⟨e, hx, hx'⟩ | ⟨len, c₃, c₃', hx, hx', h₃⟩ := sight_cases hlen
      · rw [hx, hx']
      rw [hx, hx']
      dsimp only
      rw [Cur.skip_eq_take, Cur.skip_eq_take]
      obtain ⟨e, hx, hx'⟩ | ⟨body, c₄, c₄', hx, hx', h₄⟩ :=
        sight_cases (Cur.take_congr h₃ ((len.toNat - 4 + 3) / 4 * 4))
      · rw [hx, hx']
      · rw [hx, hx']
        simp only [Except.map, ih h₄]

theorem sctp_built (src dst : IpAddr) : (sctp src dst).Built := by
  unfold sctp
  refine .bind (.layer rfl) fun _ => ?_
  iterate 4 refine .bind (.read (Read.bytes_local _ _)) fun _ => ?_
  refine .bind (.transport _) fun _ => .bind (.setTuple _ _ _ _ _) fun _ => ?_
  refine .scan (fun c c' h => by rw [chunkTypes_congr 64 h]) fun c => ?_
  exact .ite (.bind (.transport _) fun _ => .pure _) (.pure _)

end Transport

namespace Network

theorem ipv4_stepwise : ipv4.Stepwise := by
  unfold ipv4
  repeat' first
    | exact (rfl : _ = (_ : Bool)) | exact Read.isBytes_bytes _ _ | intro _ | assumption | rfl
    | with_reducible constructor

theorem extensionChain_stepwise (guard : ℕ) (chain : ExtChain) :
    (extensionChain guard chain).Stepwise := by
  induction guard generalizing chain with
  | zero => exact .fail _
  | succ guard ih =>
      unfold extensionChain
      split
      all_goals repeat' first
        | exact Read.isBytes_bytes _ _ | intro _ | exact ih _ | assumption
        | with_reducible constructor

theorem ipv6_stepwise : ipv6.Stepwise := by
  unfold ipv6
  repeat' first
    | exact (rfl : _ = (_ : Bool)) | exact Read.isBytes_bytes _ _ | intro _ | assumption | rfl
    | with_reducible first | exact extensionChain_stepwise _ _ | constructor

theorem icmpEcho_aloof : icmpEcho.Aloof false false := by
  unfold icmpEcho
  repeat' first
    | exact fun _ => rfl | exact fun _ => ⟨rfl, rfl⟩ | exact fun _ => ⟨rfl, rfl, rfl, rfl⟩
    | exact (rfl : _ = (_ : Bool)) | exact Read.isBytes_bytes _ _ | intro _ | assumption
    | with_reducible constructor

theorem icmp_aloof : icmp.Aloof false false := by
  unfold icmp
  repeat' first
    | exact fun _ => rfl | exact fun _ => ⟨rfl, rfl⟩ | exact fun _ => ⟨rfl, rfl, rfl, rfl⟩
    | exact (rfl : _ = (_ : Bool)) | exact Read.isBytes_bytes _ _ | intro _ | assumption
    | with_reducible first | exact icmpEcho_aloof | constructor

theorem icmpv6_aloof : icmpv6.Aloof false false := by
  unfold icmpv6 ndOption
  repeat' first
    | exact fun _ => rfl | exact fun _ => ⟨rfl, rfl⟩ | exact fun _ => ⟨rfl, rfl, rfl, rfl⟩
    | exact (rfl : _ = (_ : Bool)) | exact Read.isBytes_bytes _ _ | intro _ | assumption
    | with_reducible first | exact icmpEcho_aloof | constructor
    | split

theorem igmp_aloof : igmp.Aloof false false := by
  unfold igmp
  repeat' first
    | exact fun _ => ⟨rfl, rfl, rfl, rfl⟩ | exact (rfl : _ = (_ : Bool))
    | exact Read.isBytes_bytes _ _ | intro _
    | with_reducible constructor

theorem esp_aloof : esp.Aloof false false := by
  unfold esp
  repeat' first
    | exact fun _ => ⟨rfl, rfl, rfl, rfl⟩ | exact (rfl : _ = (_ : Bool))
    | exact Read.isBytes_bytes _ _ | intro _
    | with_reducible constructor

theorem named_aloof {l : Layer} (hl : l.isTunnel = false) : (named l).Aloof false false :=
  .bind (.layer hl) fun _ => .pure _

/-- The protocols whose header carries ports. -/
def ported : List ℕ := [6, 17, 136, 132]

/-- A protocol without ports: after the tuple is established nothing touches it. -/
theorem dispatchIpProto_portless {proto : UInt8} (h : proto.toNat ∉ ported) (src dst : IpAddr) :
    ∃ d : Header Onward, d.Aloof false true ∧
      dispatchIpProto proto src dst = Transport.setTuple src dst 0 0 proto >>= fun _ => d := by
  unfold ported at h
  unfold dispatchIpProto
  split
  case h_1 h6 => exact absurd h6 fun h6 => h (by simp [h6])
  case h_2 h17 => exact absurd h17 fun h17 => h (by simp [h17])
  case h_3 h136 => exact absurd h136 fun h136 => h (by simp [h136])
  case h_4 h132 => exact absurd h132 fun h132 => h (by simp [h132])
  all_goals refine ⟨_, ?_, rfl⟩
  · exact icmp_aloof.weaken
  · exact icmpv6_aloof.weaken
  · exact igmp_aloof.weaken
  · exact Tunnel.gre_aloof
  · exact Tunnel.ipInIp_aloof false
  · exact Tunnel.ipInIp_aloof true
  · exact esp_aloof.weaken
  · exact (named_aloof rfl).weaken
  · exact (named_aloof rfl).weaken
  · exact (named_aloof rfl).weaken
  · exact .fail _

/-- Every transport but SCTP, which scans its chunks, is dissected step by step. -/
theorem dispatchIpProto_stepwise {proto : UInt8} (hproto : proto ≠ 132) (src dst : IpAddr) :
    (dispatchIpProto proto src dst).Stepwise := by
  by_cases hp : proto.toNat ∈ ported
  · unfold dispatchIpProto
    refine .bind (.setTuple _ _ _ _ _) fun _ => ?_
    simp only [ported, List.mem_cons, List.not_mem_nil, or_false] at hp
    obtain hp | hp | hp | hp := hp
    · rw [hp]
      exact Transport.tcp_stepwise src dst
    · rw [hp]
      exact Transport.udp_stepwise src dst proto
    · rw [hp]
      exact Transport.udp_stepwise src dst proto
    · exact absurd (UInt8.toNat_inj.mp hp) hproto
  · obtain ⟨d, hd, heq⟩ := dispatchIpProto_portless hp src dst
    rw [heq]
    exact .bind (.setTuple _ _ _ _ _) fun _ => hd.stepwise

theorem dispatchIpProto_built (proto : UInt8) (src dst : IpAddr) :
    (dispatchIpProto proto src dst).Built := by
  by_cases hproto : proto = 132
  · subst hproto
    exact .bind (.setTuple _ _ _ _ _) fun _ => Transport.sctp_built src dst
  · exact (dispatchIpProto_stepwise hproto src dst).built

end Network

end PcapRacer
