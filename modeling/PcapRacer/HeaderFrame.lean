/-
**Header dissectors and what stands below them.**

The walk over the headers of a frame does not look at the stack it pushes its names on, nor at where
in the frame its cursor is.  Of the columns it looks at a few only: those that a tunnel promotes,
and the tags that are already recorded.  So two walks over the same bytes, from states that agree on
these columns and have as many levels left, do the same, and push the same names.

The serial phase relies on this when it dissects a reassembled datagram: it walks over the payload
alone, on an empty stack.

Main definitions:

* `Twin` — two states of a walk, one of them on top of a stack;
* `Header.Mirrors` — two dissectors do the same from such states.

Main results:

* `Header.Built.mirrors`, `hop_twin` — every hop does;
* `follow_twin` — **two walks over the same bytes go the same way**.
-/

import PcapRacer.HeaderSteps

set_option relaxedAutoImplicit false
set_option autoImplicit false

namespace PcapRacer

/-! ### Twins -/

/-- Two states of a walk: the first one has the stack `below` under its names, and both agree on
what dissectors look at. -/
structure Twin (below : List Layer) (s s' : Hdr) : Prop where
  stack : s.stack = below ++ s'.stack
  depth : s.depth = s'.depth
  link : s.link = s'.link
  transport : s.transport = s'.transport
  tunnel : s.tunnel = s'.tunnel
  tuple : s.tuple = s'.tuple
  ipSrc : s.net.ipSrc = s'.net.ipSrc
  ipDst : s.net.ipDst = s'.net.ipDst

/-! ### Dissectors that do the same -/

namespace Header

section Mirrors

variable {α β : Type} {below : List Layer}

/-- From twin states and over the same bytes the two dissectors do the same. -/
def Mirrors (below : List Layer) (d d' : Header α) : Prop :=
  ∀ c c' s s', c.rest = c'.rest → Twin below s s' →
    sight (d.run c s).1 = sight (d'.run c' s').1 ∧ Twin below (d.run c s).2 (d'.run c' s').2

theorem mirrors_pure (a : α) : Mirrors below (pure a) (pure a) := by
  intro c c' s s' hc hs
  exact ⟨sight_ok a hc, hs⟩

theorem mirrors_fail (e : DissectError) :
    Mirrors below (fail e : Header α) (fail e) := fun _ _ _ _ _ hs => ⟨rfl, hs⟩

theorem mirrors_read {r : Read α} (hr : r.Local) : Mirrors below (read r) (read r) :=
  fun c c' _ _ hc hs => ⟨hr c c' hc, hs⟩

theorem mirrors_take (n : ℕ) : Mirrors below (take n) (take n) :=
  fun _ _ _ _ hc hs => ⟨Cur.take_congr hc n, hs⟩

theorem mirrors_confine (n : ℕ) : Mirrors below (confine n) (confine n) :=
  fun _ _ _ _ hc hs => ⟨Cur.sub_congr hc n, hs⟩

theorem mirrors_tryRead {r : Read α} (hr : r.Local) :
    Mirrors below (tryRead r) (tryRead r) := by
  intro c c' s s' hc hs
  unfold tryRead
  dsimp only
  obtain ⟨e, hx, hx'⟩ | ⟨a, d, d', hx, hx', hrest⟩ := sight_cases (hr c c' hc)
  · rw [hx, hx']
    exact ⟨sight_ok none hc, hs⟩
  · rw [hx, hx']
    exact ⟨sight_ok (some a) hrest, hs⟩

theorem mirrors_tryTake (n : ℕ) : Mirrors below (tryTake n) (tryTake n) := by
  intro c c' s s' hc hs
  unfold tryTake
  dsimp only
  obtain ⟨e, hx, hx'⟩ | ⟨b, d, d', hx, hx', hrest⟩ := sight_cases (Cur.take_congr hc n)
  · rw [hx, hx']
    exact ⟨sight_ok none hc, hs⟩
  · rw [hx, hx']
    exact ⟨sight_ok (some b) hrest, hs⟩

theorem mirrors_peekU8 : Mirrors below peekU8 peekU8 := by
  intro c c' s s' hc hs
  refine ⟨?_, hs⟩
  change sight (((c.u8).map Prod.fst).map _) = sight (((c'.u8).map Prod.fst).map _)
  obtain ⟨e, hx, hx'⟩ | ⟨b, d, d', hx, hx', -⟩ := sight_cases (Cur.u8_congr hc)
  · rw [hx, hx']
    rfl
  · rw [hx, hx']
    exact sight_ok b hc

theorem mirrors_bind {d d' : Header α} {f f' : α → Header β} (hd : Mirrors below d d')
    (hf : ∀ a, Mirrors below (f a) (f' a)) : Mirrors below (d >>= f) (d' >>= f') := by
  intro c c' s s' hc hs
  rw [run_bind, run_bind]
  rcases hx : d.run c s with ⟨x, t⟩
  rcases hy : d'.run c' s' with ⟨y, t'⟩
  have h := hd c c' s s' hc hs
  rw [hx, hy] at h
  dsimp only at h
  obtain ⟨hsight, ht⟩ := h
  obtain ⟨e, rfl, rfl⟩ | ⟨a, q, q', rfl, rfl, hrest⟩ := sight_cases hsight
  · exact ⟨rfl, ht⟩
  · exact hf a q q' t t' hrest ht

theorem mirrors_ite {q : Prop} [Decidable q] {d d' e e' : Header α} (hd : Mirrors below d d')
    (he : Mirrors below e e') :
    Mirrors below (if q then d else e) (if q then d' else e') := by
  split
  · exact hd
  · exact he

theorem mirrors_skip (n : ℕ) : Mirrors below (skip n) (skip n) :=
  mirrors_bind (mirrors_take n) fun _ => mirrors_pure ()

theorem mirrors_trySkip (n : ℕ) : Mirrors below (trySkip n) (trySkip n) :=
  mirrors_bind (mirrors_tryTake n) fun _ => mirrors_pure ()

/-- What follows may look at the bytes under the cursor. -/
theorem mirrors_cursor_bind {f f' : Cur → Header β}
    (hf : ∀ c c', c.rest = c'.rest → Mirrors below (f c) (f' c')) :
    Mirrors below (cursor >>= f) (cursor >>= f') :=
  fun c c' s s' hc hs => hf c c' hc c c' s s' hc hs

theorem mirrors_remaining : Mirrors below remaining remaining := by
  refine mirrors_cursor_bind fun c c' hc => ?_
  rw [Cur.remaining_congr hc]
  exact mirrors_pure _

theorem mirrors_peek (n : ℕ) : Mirrors below (peek n) (peek n) := by
  refine mirrors_cursor_bind fun c c' hc => ?_
  rw [Cur.peek_congr hc]
  exact mirrors_pure _

/-- What follows may look at the columns that twins share. -/
theorem mirrors_get_bind {f f' : Hdr → Header β}
    (hf : ∀ s s', Twin below s s' → Mirrors below (f s) (f' s')) :
    Mirrors below (get >>= f) (get >>= f') :=
  fun c c' s s' hc hs => hf s s' hs c c' s s' hc hs

theorem mirrors_set {f : Hdr → Hdr} (hf : ∀ s s', Twin below s s' → Twin below (f s) (f s')) :
    Mirrors below (set f) (set f) := by
  intro c c' s s' hc hs
  exact ⟨sight_ok () hc, hf s s' hs⟩

theorem mirrors_layer (l : Layer) : Mirrors below (layer l) (layer l) :=
  mirrors_set fun _ _ h => { h with stack := by simp only [h.stack, List.append_assoc] }

theorem mirrors_link (f : LinkCols → LinkCols) : Mirrors below (link f) (link f) :=
  mirrors_set fun _ _ h => { h with link := congrArg f h.link }

theorem mirrors_transport (f : TransportCols → TransportCols) :
    Mirrors below (transport f) (transport f) :=
  mirrors_set fun _ _ h => { h with transport := congrArg f h.transport }

theorem mirrors_tunnel (f : TunnelCols → TunnelCols) : Mirrors below (tunnel f) (tunnel f) :=
  mirrors_set fun _ _ h => { h with tunnel := congrArg f h.tunnel }

/-- What is written to the network columns may not depend on more than the addresses. -/
theorem mirrors_net {f : NetCols → NetCols}
    (hf : ∀ n n', n.ipSrc = n'.ipSrc → n.ipDst = n'.ipDst →
      (f n).ipSrc = (f n').ipSrc ∧ (f n).ipDst = (f n').ipDst) :
    Mirrors below (net f) (net f) :=
  mirrors_set fun s s' h =>
    { h with ipSrc := (hf s.net s'.net h.ipSrc h.ipDst).1
             ipDst := (hf s.net s'.net h.ipSrc h.ipDst).2 }

theorem mirrors_setTuple (src dst : IpAddr) (sport dport : UInt16) (proto : UInt8) :
    Mirrors below (Transport.setTuple src dst sport dport proto)
      (Transport.setTuple src dst sport dport proto) :=
  mirrors_set fun _ _ h => { h with tuple := rfl }

end Mirrors

/-! ### Tunnels take levels -/

section Enter

variable {below : List Layer}

theorem promote_twin {s s' : Hdr} (h : Twin below s s') :
    Twin below (Tunnel.promote s) (Tunnel.promote s') := by
  unfold Tunnel.promote
  rw [h.tunnel]
  split
  · exact { h with tunnel := by simp only [h.ipSrc, h.ipDst, h.transport]
                   transport := by simp only [h.transport]
                   ipSrc := rfl
                   ipDst := rfl }
  · exact h

theorem mirrors_descend : Mirrors below Tunnel.descend Tunnel.descend := by
  intro c c' s s' hc hs
  rw [Tunnel.descend_run, Tunnel.descend_run, hs.depth]
  split
  · exact ⟨rfl, hs⟩
  · exact ⟨sight_ok () hc, { hs with depth := rfl }⟩

theorem mirrors_enter (kind : Layer) : Mirrors below (Tunnel.enter kind) (Tunnel.enter kind) := by
  refine mirrors_bind mirrors_descend fun _ => mirrors_bind (mirrors_layer kind) fun _ => ?_
  exact mirrors_bind (mirrors_set fun _ _ h => promote_twin h) fun _ => mirrors_tunnel _

end Enter

/-! ### Dissectors as sequences of steps -/

/-- **What is built from such steps does the same from twin states.** -/
theorem Built.mirrors {α : Type} {d : Header α} (h : d.Built) (below : List Layer) :
    Mirrors below d d := by
  induction h with
  | pure a => exact mirrors_pure a
  | fail e => exact mirrors_fail e
  | read hr => exact mirrors_read hr
  | tryRead hr => exact mirrors_tryRead hr
  | take n => exact mirrors_take n
  | tryTake n => exact mirrors_tryTake n
  | skip n => exact mirrors_skip n
  | trySkip n => exact mirrors_trySkip n
  | confine n => exact mirrors_confine n
  | remaining => exact mirrors_remaining
  | peek n => exact mirrors_peek n
  | peekU8 => exact mirrors_peekU8
  | layer _ => exact mirrors_layer _
  | iface i => exact mirrors_set fun s s' h => { h with }
  | link f => exact mirrors_link f
  | transport f => exact mirrors_transport f
  | tunnel f => exact mirrors_tunnel f
  | net hf => exact mirrors_net hf
  | setTuple src dst sport dport proto => exact mirrors_setTuple src dst sport dport proto
  | enter _ => exact mirrors_enter _
  | look hlink _ ih =>
      refine mirrors_get_bind fun s s' hs => ?_
      rw [hlink s s' hs.link]
      exact ih s'
  | scan hrest _ ih =>
      refine mirrors_cursor_bind fun c c' hc => ?_
      rw [hrest c c' hc]
      exact ih c'
  | ite _ _ ih ih' => exact mirrors_ite ih ih'
  | bind _ _ ih ihf => exact mirrors_bind ih ihf

end Header

/-! ### Hops -/

section Walk

variable {below : List Layer}

/-- Two hops that do the same. -/
def TwinTaken (below : List Layer) (t t' : Taken) : Prop :=
  sight t.next = sight t'.next ∧ Twin below t.hdr t'.hdr

variable {c c' : Cur} {s s' : Hdr} {frag frag' : Option FragMeta}

theorem taken_twin {d : Header Onward} (hd : d.Built) (hc : c.rest = c'.rest)
    (hs : Twin below s s') : TwinTaken below (d.taken c s frag) (d.taken c' s' frag') :=
  hd.mirrors below c c' s s' hc hs

theorem afterIp_twin (d : Datagram) (hc : c.rest = c'.rest) (hs : Twin below s s') :
    TwinTaken below (afterIp d c s frag) (afterIp d c' s' frag') := by
  unfold afterIp
  dsimp only
  split
  · exact ⟨sight_ok _ hc, { hs with stack := by simp only [hs.stack, List.append_assoc] }⟩
  · exact taken_twin (Network.dispatchIpProto_built _ _ _) hc hs

theorem ip_twin {header : Header Datagram} (hd : header.Built) (hc : c.rest = c'.rest)
    (hs : Twin below s s') : TwinTaken below (ip header c s frag) (ip header c' s' frag') := by
  unfold ip
  rcases hx : header.run c s with ⟨x, t⟩
  rcases hy : header.run c' s' with ⟨y, t'⟩
  have h := hd.mirrors below c c' s s' hc hs
  rw [hx, hy] at h
  obtain ⟨hsight, ht⟩ := h
  obtain ⟨e, rfl, rfl⟩ | ⟨d, q, q', rfl, rfl, hrest⟩ := sight_cases hsight
  · exact ⟨rfl, ht⟩
  · exact afterIp_twin d hrest ht

/-- Every hop does the same from twin states. -/
theorem hop_twin (h : Hop) (hc : c.rest = c'.rest) (hs : Twin below s s') :
    TwinTaken below (hop h c s frag) (hop h c' s' frag') := by
  cases h with
  | ethernet => exact taken_twin Link.ethernet_aloof.built hc hs
  | llc => exact taken_twin Link.llc_aloof.built hc hs
  | vlan => exact taken_twin Link.vlan_aloof.built hc hs
  | mpls => exact taken_twin Link.mpls_aloof.built hc hs
  | pppoe => exact taken_twin Link.pppoe_aloof.built hc hs
  | ipv4 => exact ip_twin Network.ipv4_stepwise.built hc hs
  | ipv6 => exact ip_twin Network.ipv6_stepwise.built hc hs

/-! ### Walks -/

/-- Where a walk ends, up to where the cursor is. -/
def outlook (stop : Except DissectError (Option (Payload × Cur))) :
    Except DissectError (Option (Payload × Bytes)) :=
  stop.map (Option.map fun p => (p.1, p.2.rest))

/-- Two walks that go the same way. -/
def TwinJourney (below : List Layer) (j j' : Journey) : Prop :=
  outlook j.stop = outlook j'.stop ∧ Twin below j.hdr j'.hdr

/-- The rest of a walk after a hop. -/
def Taken.resume (t : Taken) (rounds : ℕ) : Journey :=
  match t.next with
  | .error e => { stop := .error e, hdr := t.hdr, frag := t.frag }
  | .ok (o, c) => follow rounds o c t.hdr t.frag

theorem follow_hop (rounds : ℕ) (h : Hop) (c : Cur) (s : Hdr) (frag : Option FragMeta) :
    follow (rounds + 1) (.hop h) c s frag = (hop h c s frag).resume rounds := by
  unfold Taken.resume
  cases hx : (hop h c s frag).next with
  | error e => simp only [follow, hx]
  | ok r => simp only [follow, hx]

/-- After hops that do the same the walks go the same way, if what follows does. -/
theorem resume_twin {t t' : Taken} {n m : ℕ} (h : TwinTaken below t t')
    (hnext : ∀ o q q', t.next = .ok (o, q) → t'.next = .ok (o, q') → q.rest = q'.rest →
      TwinJourney below (follow n o q t.hdr t.frag) (follow m o q' t'.hdr t'.frag)) :
    TwinJourney below (t.resume n) (t'.resume m) := by
  unfold Taken.resume
  obtain ⟨hsight, ht⟩ := h
  obtain ⟨e, hx, hx'⟩ | ⟨o, q, q', hx, hx', hrest⟩ := sight_cases hsight
  · rw [hx, hx']
    exact ⟨rfl, ht⟩
  · have hjourney := hnext o q q' hx hx' hrest
    rwa [hx, hx']

/-- **Two walks over the same bytes go the same way**, from twin states and with rounds enough. -/
theorem follow_twin {n m : ℕ} {o : Onward} (hn : c.remaining < n) (hm : c'.remaining < m)
    (hc : c.rest = c'.rest) (hs : Twin below s s') :
    TwinJourney below (follow n o c s frag) (follow m o c' s' frag') := by
  induction n generalizing m o c c' s s' frag frag' with
  | zero => exact absurd hn (Nat.not_lt_zero _)
  | succ n ih =>
      cases m with
      | zero => exact absurd hm (Nat.not_lt_zero _)
      | succ m =>
          cases o with
          | done => exact ⟨rfl, hs⟩
          | payload p => exact ⟨by simp only [outlook, follow, Except.map, Option.map, hc], hs⟩
          | hop h =>
              rw [follow_hop, follow_hop]
              have hhop : TwinTaken below (hop h c s frag) (hop h c' s' frag') :=
                hop_twin h hc hs
              refine resume_twin hhop fun o' q q' hx hx' hrest => ?_
              have hlt : q.remaining < c.remaining := hop_remaining_lt hx
              have hlt' : q'.remaining < c'.remaining := hop_remaining_lt hx'
              exact ih (by omega) (by omega) hrest hhop.2

end Walk

/-! ### Stacks grow -/

/-- A state is the twin of itself without its stack. -/
theorem twin_bare (s : Hdr) : Twin s.stack s { s with stack := [] } :=
  { stack := (List.append_nil _).symm, depth := rfl, link := rfl, transport := rfl, tunnel := rfl,
    tuple := rfl, ipSrc := rfl, ipDst := rfl }

theorem Header.Built.grows {α : Type} {d : Header α} (h : d.Built) (c : Cur) (s : Hdr) :
    s.stack <+: (d.run c s).2.stack := by
  rw [(h.mirrors s.stack c c s _ rfl (twin_bare s)).2.stack]
  exact List.prefix_append _ _

/-- A dissector that opens with its name leaves it on the stack. -/
theorem Header.Built.named {α : Type} {f : Unit → Header α} (h : (f ()).Built) (l : Layer) (c : Cur)
    (s : Hdr) : ((Header.layer l >>= f).run c s).2.stack ≠ [] := by
  have hgrows := h.grows c { s with stack := s.stack ++ [l] }
  have hrun : (Header.layer l >>= f).run c s =
      (f ()).run c { s with stack := s.stack ++ [l] } := rfl
  rw [hrun]
  intro hnil
  rw [hnil, List.prefix_nil] at hgrows
  exact List.append_ne_nil_of_right_ne_nil _ (List.cons_ne_nil l []) hgrows

theorem follow_grows {n : ℕ} {o : Onward} {c : Cur} {s : Hdr} {frag : Option FragMeta}
    (hn : c.remaining < n) : s.stack <+: (follow n o c s frag).hdr.stack := by
  have htwin : TwinJourney s.stack (follow n o c s frag)
      (follow n o c { s with stack := [] } frag) := follow_twin hn hn rfl (twin_bare s)
  rw [htwin.2.stack]
  exact List.prefix_append _ _

theorem resume_grows {t : Taken} {n : ℕ} (hn : ∀ r, t.next = .ok r → r.2.remaining < n) :
    t.hdr.stack <+: (t.resume n).hdr.stack := by
  unfold Taken.resume
  cases hx : t.next with
  | error e => exact List.prefix_rfl
  | ok r => exact follow_grows (hn r hx)

theorem Network.ipv4_named (c : Cur) (s : Hdr) : (ipv4.run c s).2.stack ≠ [] := by
  unfold ipv4
  refine Header.Built.named ?_ _ c s
  repeat' first
    | exact (rfl : _ = (_ : Bool)) | exact Read.bytes_local _ _ | intro _ | assumption | rfl
    | with_reducible constructor

theorem Transport.tcp_named (src dst : IpAddr) (c : Cur) (s : Hdr) :
    ((tcp src dst).run c s).2.stack ≠ [] := by
  unfold tcp
  refine Header.Built.named ?_ _ c s
  repeat' first
    | exact (rfl : _ = (_ : Bool)) | exact Read.bytes_local _ _ | intro _ | with_reducible constructor

theorem Transport.udp_named (src dst : IpAddr) (proto : UInt8) (c : Cur) (s : Hdr) :
    ((udp src dst proto).run c s).2.stack ≠ [] := by
  unfold udp
  refine Header.Built.named ?_ _ c s
  repeat' first
    | exact (rfl : _ = (_ : Bool)) | exact Read.bytes_local _ _ | intro _
    | with_reducible first | exact (udpPayload_aloof _ _).built | constructor

/-- A TCP or UDP payload is named on the stack. -/
theorem Network.dispatchIpProto_named {proto : UInt8} (h : proto = 6 ∨ proto = 17)
    (src dst : IpAddr) (c : Cur) (s : Hdr) :
    ((dispatchIpProto proto src dst).run c s).2.stack ≠ [] := by
  obtain rfl | rfl := h
  · exact Transport.tcp_named src dst c _
  · exact Transport.udp_named src dst 17 c _

/-- A walk from a dissector, with any number of rounds that is enough. -/
theorem journey_eq_resume {first : Header Onward} {c : Cur} {s : Hdr} {n : ℕ}
    (hn : c.remaining < n) : journey first c s = (first.taken c s none).resume n := by
  unfold journey Taken.resume Header.taken
  rcases hx : first.run c s with ⟨x, t⟩
  cases x with
  | error e => rfl
  | ok r =>
      have hw : c.Within r.2 := first.within (by rw [hx])
      have hle := hw.start_le
      have hstop := hw.stop_le
      have := c.start_add_remaining
      have := r.2.start_add_remaining
      exact follow_of_lt (by omega) (by omega)

end PcapRacer
