/-
**The address columns and the tuple of a frame.**

Every IP header whose payload is dispatched establishes the tuple, and a transport header with ports
puts them there.  The address and port columns are written at the same places; but they are moved to
the outer columns when the first tunnel is entered, and only then.  The tuple is not moved, so
behind the last tunnel it may still be that of an outer packet; and behind the second tunnel the
ports of the packet before it are still in the columns.

Main definitions:

* `IpAt.addrs`, `IpAt.payload`, `IpAt.ports`, `IpAt.tuple` — what an IP header of a frame writes;
* `IpAt.entersTunnel`, `inside` — the headers whose columns are not moved;
* `AddressesAgree` — the columns are those of the tuple;
* `AddressesRegular` — the last addresses and ports inside are those of the innermost payload.

Main results:

* `frameJourney_leads` — what a frame leaves in the columns and in the tuple;
* `dissectFrame_addresses_agree_iff` — **columns and tuple agree exactly when the headers of the
  frame are regular**.
-/

import PcapRacer.FragmentCoherence
import PcapRacer.TunnelDepth

set_option relaxedAutoImplicit false
set_option autoImplicit false

namespace PcapRacer

/-! ### Dissectors that look at the depth only -/

namespace Header

variable {α β : Type}

/-- Of the record the dissector looks at the depth only. -/
def Deaf (d : Header α) : Prop :=
  ∀ c s t, s.depth = t.depth →
    (d.run c s).1 = (d.run c t).1 ∧ (d.run c s).2.depth = (d.run c t).2.depth

/-- A dissector that writes nothing. -/
theorem Silent.deaf {d : Header α} (h : d.Silent)
    (hresult : ∀ c s t, (d.run c s).1 = (d.run c t).1) : d.Deaf := by
  intro c s t hst
  rw [h c s, h c t]
  exact ⟨hresult c s t, hst⟩

theorem deaf_set {w : Hdr → Hdr} (hw : ∀ s, (w s).depth = s.depth) : (set w).Deaf :=
  fun _ s t hst => ⟨rfl, (hw s).trans (hst.trans (hw t).symm)⟩

theorem deaf_bind {d : Header α} {f : α → Header β} (hd : d.Deaf) (hf : ∀ a, (f a).Deaf) :
    (d >>= f).Deaf := by
  intro c s t hst
  obtain ⟨hresult, hdepth⟩ := hd c s t hst
  rw [run_bind, run_bind]
  rcases hx : d.run c s with ⟨x, s'⟩
  rcases hy : d.run c t with ⟨y, t'⟩
  rw [hx, hy] at hresult hdepth
  dsimp only at hresult
  subst hresult
  cases x with
  | error e => exact ⟨rfl, hdepth⟩
  | ok p => exact hf p.1 p.2 s' t' hdepth

theorem deaf_enter (kind : Layer) : (Tunnel.enter kind).Deaf := by
  have hdescend : Tunnel.descend.Deaf := by
    intro c s t hst
    rw [Tunnel.descend_run, Tunnel.descend_run, hst]
    split
    · exact ⟨rfl, hst⟩
    · exact ⟨rfl, rfl⟩
  refine deaf_bind hdescend fun _ => deaf_bind (deaf_set fun _ => rfl) fun _ => ?_
  exact deaf_bind (deaf_set fun s => (promote_keeps s).2) fun _ => deaf_set fun _ => rfl

theorem deaf_tryRead (r : Read α) : (tryRead r).Deaf := by
  refine (silent_tryRead r).deaf fun c s t => ?_
  unfold tryRead
  dsimp only
  split <;> rfl

theorem deaf_tryTake (n : ℕ) : (tryTake n).Deaf := by
  refine (silent_tryTake n).deaf fun c s t => ?_
  unfold tryTake
  dsimp only
  split <;> rfl

theorem Aloof.deaf {enters : Bool} {d : Header α} (h : d.Aloof false enters) : d.Deaf := by
  induction h with
  | pure a => exact (silent_pure a).deaf fun _ _ _ => rfl
  | fail e => exact (silent_fail e).deaf fun _ _ _ => rfl
  | read _ => exact (silent_read _).deaf fun _ _ _ => rfl
  | tryRead _ => exact deaf_tryRead _
  | take n => exact (silent_take n).deaf fun _ _ _ => rfl
  | tryTake n => exact deaf_tryTake n
  | skip n => exact deaf_bind ((silent_take n).deaf fun _ _ _ => rfl) fun _ =>
      (silent_pure _).deaf fun _ _ _ => rfl
  | trySkip n => exact deaf_bind (deaf_tryTake n) fun _ => (silent_pure _).deaf fun _ _ _ => rfl
  | confine n => exact Silent.deaf (fun _ _ => rfl) fun _ _ _ => rfl
  | remaining => exact silent_remaining.deaf fun _ _ _ => rfl
  | peek => exact (silent_peek 2).deaf fun _ _ _ => rfl
  | peekU8 => exact silent_peekU8.deaf fun _ _ _ => rfl
  | layer _ => exact deaf_set fun _ => rfl
  | iface i => exact deaf_set fun _ => rfl
  | link f => exact deaf_set fun _ => rfl
  | transport _ => exact deaf_set fun _ => rfl
  | tunnel _ => exact deaf_set fun _ => rfl
  | net _ => exact deaf_set fun _ => rfl
  | enter _ _ => exact deaf_enter _
  | look hl _ _ _ => cases hl
  | ite _ _ ih ih' =>
      split
      · exact ih
      · exact ih'
  | bind _ _ ih ihf => exact deaf_bind ih ihf

end Header

namespace Network

open Header

theorem deaf_setTuple (src dst : IpAddr) (sport dport : UInt16) (proto : UInt8) :
    (Transport.setTuple src dst sport dport proto).Deaf := deaf_set fun _ => rfl

theorem tcp_deaf (src dst : IpAddr) : (Transport.tcp src dst).Deaf := by
  refine deaf_bind (deaf_set fun _ => rfl) fun _ => ?_
  iterate 8 refine deaf_bind ((silent_read _).deaf fun _ _ _ => rfl) fun _ => ?_
  refine deaf_bind (deaf_set fun _ => rfl) fun _ => deaf_bind (deaf_setTuple _ _ _ _ _) fun _ => ?_
  refine (?_ : Aloof false false _).deaf
  refine .bind .remaining fun left => .ite ?_ (.pure _)
  refine .bind (.take _) fun opts => .bind (.transport fun t => ?_) fun _ => .pure _
  obtain ⟨hsrc, hdst, -⟩ := Transport.parseTcpOptions_head opts t
  exact ⟨hsrc, hdst⟩

theorem udp_deaf (src dst : IpAddr) (proto : UInt8) : (Transport.udp src dst proto).Deaf := by
  refine deaf_bind (deaf_set fun _ => rfl) fun _ => ?_
  iterate 4 refine deaf_bind ((silent_read _).deaf fun _ _ _ => rfl) fun _ => ?_
  refine deaf_bind (deaf_set fun _ => rfl) fun _ => deaf_bind (deaf_setTuple _ _ _ _ _) fun _ => ?_
  refine (?_ : Aloof false true _).deaf
  refine .bind .remaining fun left => .ite ?_ (Transport.udpPayload_aloof _ _)
  exact .bind (.confine _) fun _ => Transport.udpPayload_aloof _ _

theorem sctp_deaf (src dst : IpAddr) : (Transport.sctp src dst).Deaf := by
  refine deaf_bind (deaf_set fun _ => rfl) fun _ => ?_
  iterate 4 refine deaf_bind ((silent_read _).deaf fun _ _ _ => rfl) fun _ => ?_
  refine deaf_bind (deaf_set fun _ => rfl) fun _ => deaf_bind (deaf_setTuple _ _ _ _ _) fun _ => ?_
  refine deaf_bind (silent_cursor.deaf fun _ _ _ => rfl) fun c => (?_ : Aloof false false _).deaf
  exact .ite (.bind (.transport fun _ => ⟨rfl, rfl⟩) fun _ => .pure _) (.pure _)

/-- Whether a payload enters a tunnel depends on the payload, and on the levels left. -/
theorem dispatchIpProto_deaf (proto : UInt8) (src dst : IpAddr) :
    (dispatchIpProto proto src dst).Deaf := by
  by_cases hp : proto.toNat ∈ ported
  · unfold dispatchIpProto
    refine deaf_bind (deaf_setTuple _ _ _ _ _) fun _ => ?_
    simp only [ported, List.mem_cons, List.not_mem_nil, or_false] at hp
    obtain hp | hp | hp | hp := hp
    · rw [hp]
      exact tcp_deaf src dst
    · rw [hp]
      exact udp_deaf src dst proto
    · rw [hp]
      exact udp_deaf src dst proto
    · rw [hp]
      exact sctp_deaf src dst
  · obtain ⟨d, hd, heq⟩ := dispatchIpProto_portless hp src dst
    rw [heq]
    exact deaf_bind (deaf_setTuple _ _ _ _ _) fun _ => hd.deaf

end Network

/-! ### What an IP header writes -/

namespace IpAt

/-- The addresses of the header, once they are read. -/
def addrs (h : IpAt) : Option (Option Text × Option Text) :=
  if h.read.2.net.ipSrc.isSome then some h.read.2.addrs else none

/-- What the header hands to the transport layer: its datagram is whole, or it is a first fragment.
-/
def payload (h : IpAt) : Option (Datagram × Cur) :=
  match h.read.1 with
  | .error _ => none
  | .ok (d, c) => if d.fragOffset = 0 then some (d, c) else none

/-- The tuple of the payload. -/
def tuple (h : IpAt) : Option Tuple :=
  h.payload.map fun p => Transport.tupleOf p.1.proto p.1.src p.1.dst p.2.rest

/-- The ports of the payload, if it carries some. -/
def ports (h : IpAt) : Option (UInt16 × UInt16) :=
  h.payload.bind fun p => Transport.portsOf p.1.proto p.2.rest

/-- The payload begins with the header of a tunnel that is entered. -/
def entersTunnel (h : IpAt) : Bool :=
  match h.payload with
  | none => false
  | some (d, c) => ((Network.dispatchIpProto d.proto d.src d.dst).run c {}).2.depth != 0

/-- `t` is `s` with what the header writes. -/
structure Writes (h : IpAt) (s t : Hdr) : Prop where
  addrs : t.addrs = h.addrs.getD s.addrs
  ports : t.ports = (h.ports.map fun p => (some p.1, some p.2)).getD s.ports
  outer : t.tunnel.outerIpSrc = s.tunnel.outerIpSrc
  tuple : t.tuple = h.tuple.or s.tuple
  depth : t.depth = s.depth

/-- The header alone, without its payload. -/
theorem run_sides (h : IpAt) (s : Hdr) :
    (h.header.run h.cur s).2.addrs = h.addrs.getD s.addrs ∧
      (h.header.run h.cur s).2.ports = s.ports ∧ (h.header.run h.cur s).2.tunnel = s.tunnel ∧
      (h.header.run h.cur s).2.tuple = s.tuple ∧ (h.header.run h.cur s).2.depth = s.depth := by
  have hblind := h.blind
  refine ⟨?_, hblind.ports _ s, hblind.tunnel _ s, hblind.tuple _ s, hblind.depth _ s⟩
  rw [h.run_addrs s, IpAt.addrs]
  split <;> rfl

/-- What the hop to an IP header leaves: what the header writes, as it is or promoted. -/
theorem ip_writes (h : IpAt) (s : Hdr) (frag : Option FragMeta) :
    ∃ t, h.Writes s t ∧ Leaves t (ip h.header h.cur s frag).hdr := by
  obtain ⟨haddrs, hports, htunnel, htuple, hdepth⟩ := h.run_sides s
  have hresult : (h.header.run h.cur s).1 = h.read.1 := h.blind.result h.cur s {}
  unfold ip
  rcases hx : h.header.run h.cur s with ⟨x, s'⟩
  rw [hx] at haddrs hports htunnel htuple hdepth hresult
  dsimp only at haddrs hports htunnel htuple hdepth hresult
  -- without a payload the header writes its addresses only
  have hnone : h.payload = none → h.Writes s s' := fun hpayload =>
    ⟨haddrs, by rw [IpAt.ports, hpayload]; exact hports, by rw [htunnel],
      by rw [IpAt.tuple, hpayload]; exact htuple, hdepth⟩
  cases x with
  | error e => exact ⟨s', hnone (by rw [payload, ← hresult]), .refl _⟩
  | ok p =>
      obtain ⟨d, c⟩ := p
      unfold afterIp
      dsimp only
      by_cases hoff : d.fragOffset = 0
      · have hpayload : h.payload = some (d, c) := by
          rw [payload, ← hresult]
          exact if_pos hoff
        rw [if_neg (not_not_intro hoff)]
        obtain ⟨t, ht, hleaves⟩ := Network.dispatchIpProto_leaves d.proto d.src d.dst c s'
        refine ⟨t, ⟨ht.addrs.trans haddrs, ?_, ?_, ?_, ht.depth.trans hdepth⟩, hleaves⟩
        · rw [ht.ports, IpAt.ports, hpayload]
          dsimp only [Option.bind_some]
          cases Transport.portsOf d.proto c.rest with
          | none => exact hports
          | some p => rfl
        · rw [ht.outer, htunnel]
        · rw [ht.tuple, IpAt.tuple, hpayload]
          rfl
      · have hpayload : h.payload = none := by
          rw [payload, ← hresult]
          exact if_neg hoff
        rw [if_pos hoff]
        exact ⟨s', hnone hpayload, .inl ⟨⟨rfl, rfl, rfl, rfl, rfl⟩, rfl⟩⟩

/-- The hop to an IP header takes a level exactly when the payload enters a tunnel. -/
theorem ip_depth (h : IpAt) {s : Hdr} (frag : Option FragMeta) (hs : s.depth = 0) :
    (ip h.header h.cur s frag).hdr.depth = 0 ↔ h.entersTunnel = false := by
  obtain ⟨-, -, -, -, hdepth⟩ := h.run_sides s
  have hresult : (h.header.run h.cur s).1 = h.read.1 := h.blind.result h.cur s {}
  unfold ip entersTunnel
  rcases hx : h.header.run h.cur s with ⟨x, s'⟩
  rw [hx] at hdepth hresult
  dsimp only at hdepth hresult
  rw [hs] at hdepth
  cases x with
  | error e =>
      have hpayload : h.payload = none := by rw [payload, ← hresult]
      rw [hpayload]
      exact iff_of_true hdepth rfl
  | ok p =>
      obtain ⟨d, c⟩ := p
      unfold afterIp
      dsimp only
      by_cases hoff : d.fragOffset = 0
      · have hpayload : h.payload = some (d, c) := by
          rw [payload, ← hresult]
          exact if_pos hoff
        have hdeaf := (Network.dispatchIpProto_deaf d.proto d.src d.dst c s' {} hdepth).2
        rw [if_neg (not_not_intro hoff), hpayload]
        dsimp only [Header.taken]
        rw [hdeaf, bne_eq_false_iff_eq]
      · have hpayload : h.payload = none := by
          rw [payload, ← hresult]
          exact if_neg hoff
        rw [if_pos hoff, hpayload]
        exact iff_of_true hdepth rfl

end IpAt

/-! ### Behind the first tunnel -/

/-- The headers `hs` have been read from the state `s`, and nothing has been promoted: `t` has the
last addresses, ports and tuple that they wrote. -/
structure Follows (hs : List IpAt) (s t : Hdr) : Prop where
  addrs : t.addrs = (lastOf IpAt.addrs hs).getD s.addrs
  ports : t.ports = ((lastOf IpAt.ports hs).map fun p => (some p.1, some p.2)).getD s.ports
  tuple : t.tuple = (lastOf IpAt.tuple hs).or s.tuple

theorem Follows.of_same {s t : Hdr} (h : SameSides s t) : Follows [] s t :=
  ⟨h.addrs, h.ports, h.tuple⟩

/-- One more header comes first. -/
theorem Follows.cons {h : IpAt} {hs : List IpAt} {s t u : Hdr} (hw : h.Writes s t)
    (hf : Follows hs t u) : Follows (h :: hs) s u where
  addrs := by
    rw [hf.addrs, hw.addrs, lastOf]
    cases lastOf IpAt.addrs hs <;> rfl
  ports := by
    rw [hf.ports, hw.ports, lastOf]
    cases lastOf IpAt.ports hs <;> rfl
  tuple := by rw [hf.tuple, hw.tuple, lastOf, Option.or_assoc]

/-- The sides may be copied first. -/
theorem Follows.of_left {hs : List IpAt} {s t u : Hdr} (h : SameSides s t) (hf : Follows hs t u) :
    Follows hs s u :=
  ⟨by rw [hf.addrs, h.addrs], by rw [hf.ports, h.ports], by rw [hf.tuple, h.tuple]⟩

/-- Once something has been promoted nothing more is. -/
theorem Leaves.same {s t : Hdr} (h : Leaves s t) (houter : s.tunnel.outerIpSrc.isSome = true) :
    SameSides s t := by
  obtain ⟨hs, -⟩ | ⟨hs, -⟩ := h
  · exact hs
  · have hpromote : Tunnel.promote s = s := by
      unfold Tunnel.promote
      rw [if_neg]
      rw [Option.isNone_iff_eq_none]
      exact Option.isSome_iff_ne_none.mp houter
    rwa [hpromote] at hs

/-- **Behind the first tunnel** a walk leaves the last addresses, ports and tuple that its headers
write. -/
theorem follow_inside {n : ℕ} {o : Onward} {c : Cur} {s : Hdr} {frag : Option FragMeta}
    (houter : s.tunnel.outerIpSrc.isSome = true) :
    Follows (ipVisits n o c s frag) s (follow n o c s frag).hdr := by
  induction n generalizing o c s frag with
  | zero => cases o <;> exact .of_same (.refl s)
  | succ n ih =>
      cases o with
      | done => exact .of_same (.refl s)
      | payload p => exact .of_same (.refl s)
      | hop hp =>
          rw [ipVisits_hop]
          cases hh : hp.ipAt c with
          | none =>
              have hsame := (Hop.ipAt_eq_none hh s frag).2.same houter
              cases hx : (hop hp c s frag).next with
              | error e =>
                  simp only [follow, hx]
                  exact .of_same hsame
              | ok r =>
                  simp only [follow, hx]
                  refine .of_left hsame (ih ?_)
                  rwa [hsame.outer]
          | some h =>
              obtain ⟨t, hw, hleaves⟩ := h.ip_writes s frag
              rw [← (Hop.ipAt_eq_some hh s frag).2] at hleaves
              have htouter : t.tunnel.outerIpSrc.isSome = true := by rwa [hw.outer]
              have hsame := hleaves.same htouter
              cases hx : (hop hp c s frag).next with
              | error e =>
                  simp only [follow, hx]
                  exact .cons hw (.of_same hsame)
              | ok r =>
                  simp only [follow, hx]
                  refine .cons hw (.of_left hsame (ih ?_))
                  rwa [hsame.outer]

/-! ### Before the first tunnel -/

/-- Nothing is on record about whom the packet is from and to. -/
structure Blank (s : Hdr) : Prop where
  addrs : s.addrs = (none, none)
  ports : s.ports = (none, none)
  outer : s.tunnel.outerIpSrc = none
  tuple : s.tuple = none
  depth : s.depth = 0
  balanced : s.Balanced

/-- The headers whose columns are not moved: those behind the first tunnel, or the only one if no
tunnel is entered. -/
def inside : List IpAt → List IpAt
  | [h] => if h.entersTunnel then [] else [h]
  | hs => hs.tail

/-- What the headers of a walk leave in the columns and in the tuple. -/
structure Leads (hs : List IpAt) (t : Hdr) : Prop where
  addrs : t.addrs = (lastOf IpAt.addrs (inside hs)).getD (none, none)
  ports : t.ports = ((lastOf IpAt.ports (inside hs)).map fun p => (some p.1, some p.2)).getD
    (none, none)
  tuple : t.tuple = lastOf IpAt.tuple hs

theorem Blank.leads {s : Hdr} (h : Blank s) : Leads [] s :=
  ⟨h.addrs, h.ports, h.tuple⟩

/-- The first tunnel promotes whatever is on record. -/
theorem promote_of_none {t : Hdr} (h : t.tunnel.outerIpSrc = none) :
    (Tunnel.promote t).addrs = (none, none) ∧ (Tunnel.promote t).ports = (none, none) ∧
      (Tunnel.promote t).tunnel.outerIpSrc = t.net.ipSrc ∧ (Tunnel.promote t).tuple = t.tuple := by
  unfold Tunnel.promote
  rw [h, Option.isNone_none, if_pos rfl]
  exact ⟨rfl, rfl, rfl, rfl⟩

/-- The first header of a frame, when its payload enters no tunnel. -/
theorem Blank.leads_single {h : IpAt} {s t u : Hdr} (hs : Blank s) (hw : h.Writes s t)
    (hl : Leaves t u) (hdepth : u.depth = 0) (hno : h.entersTunnel = false) : Leads [h] u := by
  obtain ⟨hsame, -⟩ | ⟨-, hlt⟩ := hl
  · have hinside : inside [h] = [h] := by rw [inside, hno, if_neg Bool.false_ne_true]
    refine ⟨?_, ?_, ?_⟩
    · rw [hinside, hsame.addrs, hw.addrs, hs.addrs]
      rfl
    · rw [hinside, hsame.ports, hw.ports, hs.ports]
      rfl
    · rw [hsame.tuple, hw.tuple, hs.tuple, Option.or_none]
      rfl
  · rw [hw.depth, hs.depth, hdepth] at hlt
    exact absurd hlt (UInt8.lt_irrefl _)

/-- The first header of a frame, when its payload enters a tunnel, and then the headers inside. -/
theorem Blank.leads_cons {h : IpAt} {rest : List IpAt} {s t u v : Hdr} (hs : Blank s)
    (hw : h.Writes s t) (hu : SameSides (Tunnel.promote t) u) (hyes : h.entersTunnel = true)
    (hf : Follows rest u v) : Leads (h :: rest) v := by
  have houter : t.tunnel.outerIpSrc = none := hw.outer.trans hs.outer
  obtain ⟨haddrs, hports, -, htuple⟩ := promote_of_none houter
  have hinside : inside (h :: rest) = rest := by
    cases rest with
    | nil => rw [inside, hyes, if_pos rfl]
    | cons x rest => rfl
  refine ⟨?_, ?_, ?_⟩
  · rw [hinside, hf.addrs, hu.addrs, haddrs]
  · rw [hinside, hf.ports, hu.ports, hports]
  · rw [hf.tuple, hu.tuple, htuple, hw.tuple, hs.tuple, Option.or_none]
    rfl

/-- The next IP header stands behind a tunnel. -/
theorem IpAt.entersTunnel_of_hop {h : IpAt} {s : Hdr} {frag : Option FragMeta} {hp : Hop} {c : Cur}
    (hs : Blank s) (hx : (ip h.header h.cur s frag).next = .ok (.hop hp, c)) :
    (ip h.header h.cur s frag).hdr.depth ≠ 0 := by
  have hbuilt : h.header.Built := by
    unfold IpAt.header
    split
    · exact Network.ipv6_stepwise.built
    · exact Network.ipv4_stepwise.built
  have hipbal : (ip h.header h.cur s frag).hdr.Balanced := ip_balanced hbuilt h.cur frag hs.balanced
  unfold ip at hx hipbal ⊢
  rcases hr : h.header.run h.cur s with ⟨e | ⟨d, c'⟩, s'⟩
  · rw [hr] at hx
    cases hx
  · rw [hr] at hx hipbal
    dsimp only at hx hipbal ⊢
    intro hzero
    unfold afterIp at hx hipbal hzero
    dsimp only at hx hipbal hzero
    by_cases hoff : d.fragOffset = 0
    · rw [if_neg (not_not_intro hoff)] at hx hipbal hzero
      have hcount := Network.dispatchIpProto_hopsInside d.proto d.src d.dst c' s' hp c hx
      have hdepth := hipbal.2
      dsimp only [Header.taken] at hdepth hzero
      rw [hzero] at hdepth
      rw [← hdepth] at hcount
      exact Nat.not_lt_zero _ hcount
    · rw [if_pos hoff] at hx
      cases hx

/-- A dissector that enters no tunnel leaves nothing on record where nothing was. -/
theorem Blank.of_aloof {looks : Bool} {d : Header Onward} (hd : d.Aloof looks false) {s : Hdr}
    (hs : Blank s) (c : Cur) : Blank (d.run c s).2 := by
  have hdepth := hd.depth_eq c s
  have hbal := hd.built.balanced c hs.balanced
  obtain ⟨hsame, -⟩ | ⟨-, hlt⟩ := hd.leaves c s
  · exact ⟨hsame.addrs.trans hs.addrs, hsame.ports.trans hs.ports, hsame.outer.trans hs.outer,
      hsame.tuple.trans hs.tuple, hdepth.trans hs.depth, hbal⟩
  · rw [hdepth] at hlt
    exact absurd hlt (UInt8.lt_irrefl _)

theorem Blank.hop {hp : Hop} {c : Cur} (hh : hp.ipAt c = none) {s : Hdr} (hs : Blank s)
    (frag : Option FragMeta) : Blank (hop hp c s frag).hdr := by
  cases hp with
  | ipv4 => cases hh
  | ipv6 => cases hh
  | ethernet => exact hs.of_aloof Link.ethernet_aloof c
  | llc => exact hs.of_aloof Link.llc_aloof c
  | vlan => exact hs.of_aloof Link.vlan_aloof c
  | mpls => exact hs.of_aloof Link.mpls_aloof c
  | pppoe => exact hs.of_aloof Link.pppoe_aloof c

/-- Where a hop to an IP header hands over, its addresses are on record. -/
theorem IpAt.Writes.isSome {h : IpAt} {s t : Hdr} (hw : h.Writes s t) {frag : Option FragMeta}
    {r : Onward × Cur} (hx : (ip h.header h.cur s frag).next = .ok r) :
    t.net.ipSrc.isSome = true := by
  obtain ⟨d, c, hread, -, -⟩ := ip_next (o := r.1) (c := r.2) hx
  have hrec : h.read.2.addrs = (some d.src.toText, some d.dst.toText) := (IpAt.run_recorded hread).1
  have hsrc : h.read.2.net.ipSrc = some d.src.toText := congrArg Prod.fst hrec
  have haddrs : t.addrs = h.read.2.addrs := by
    rw [hw.addrs, IpAt.addrs, hsrc]
    rfl
  have hfst : t.net.ipSrc = h.read.2.net.ipSrc := congrArg Prod.fst haddrs
  rw [hfst, hsrc]
  rfl

/-- **What the headers of a walk leave** in the columns and in the tuple. -/
theorem follow_leads {n : ℕ} {o : Onward} {c : Cur} {s : Hdr} {frag : Option FragMeta}
    (hs : Blank s) : Leads (ipVisits n o c s frag) (follow n o c s frag).hdr := by
  induction n generalizing o c s frag with
  | zero => cases o <;> exact hs.leads
  | succ n ih =>
      cases o with
      | done => exact hs.leads
      | payload p => exact hs.leads
      | hop hp =>
          rw [ipVisits_hop]
          cases hh : hp.ipAt c with
          | none =>
              have hblank := hs.hop hh frag
              cases hx : (hop hp c s frag).next with
              | error e =>
                  simp only [follow, hx]
                  exact hblank.leads
              | ok r =>
                  simp only [follow, hx]
                  exact ih hblank
          | some h =>
              have hip := (Hop.ipAt_eq_some hh s frag).2
              obtain ⟨t, hw, hleaves⟩ := h.ip_writes s frag
              have hdepth := h.ip_depth frag hs.depth
              have hend : Leads [h] (ip h.header h.cur s frag).hdr := by
                cases hyes : h.entersTunnel with
                | false => exact hs.leads_single hw hleaves (hdepth.mpr hyes) hyes
                | true =>
                    obtain ⟨-, hd⟩ | ⟨hsame, -⟩ := hleaves
                    · rw [hw.depth, hs.depth] at hd
                      rw [hdepth.mp hd] at hyes
                      cases hyes
                    · exact hs.leads_cons hw hsame hyes (.of_same (.refl _))
              rw [hip]
              simp only [follow, hip]
              cases hx : (ip h.header h.cur s frag).next with
              | error e => exact hend
              | ok r =>
                  obtain ⟨o, c'⟩ := r
                  cases o with
                  | done => cases n <;> exact hend
                  | payload p => cases n <;> exact hend
                  | hop hp' =>
                      have hne := IpAt.entersTunnel_of_hop hs hx
                      have hyes : h.entersTunnel = true := by
                        by_contra hno
                        exact hne (hdepth.mpr (Bool.not_eq_true _ ▸ hno))
                      obtain ⟨-, hd⟩ | ⟨hsame, -⟩ := hleaves
                      · exact absurd (hd.trans (hw.depth.trans hs.depth)) hne
                      · refine hs.leads_cons hw hsame hyes (follow_inside ?_)
                        obtain ⟨-, -, houter, -⟩ := promote_of_none (hw.outer.trans hs.outer)
                        rw [hsame.outer, houter]
                        exact hw.isSome hx

/-- **What a frame leaves** in the columns and in the tuple. -/
theorem frameJourney_leads (o : Owned) : Leads (ipHeaders o) (frameJourney o).hdr := by
  have hblank : Blank { ifaceId := some o.ifaceId } := by
    refine ⟨rfl, rfl, rfl, rfl, rfl, ?_⟩
    exact ⟨UInt8.le_iff_toNat_le.mpr (Nat.zero_le _), rfl⟩
  have hlink := hblank.of_aloof (Link.dissectLink_aloof o.linktype) (Cur.new o.data)
  unfold frameJourney journey ipHeaders
  rcases hx : (Link.dissectLink o.linktype).run (Cur.new o.data) { ifaceId := some o.ifaceId } with
    ⟨e | r, s⟩
  · rw [hx] at hlink
    exact hlink.leads
  · rw [hx] at hlink
    exact follow_leads hlink

/-! ### Columns and tuple -/

/-- The payload of the innermost header that has one. -/
def innermostPayload (hs : List IpAt) : Option (Datagram × Cur) := lastOf IpAt.payload hs

/-- The ports of the innermost transport header. -/
def innermostPorts (hs : List IpAt) : Option (UInt16 × UInt16) :=
  (innermostPayload hs).bind fun p => Transport.portsOf p.1.proto p.2.rest

/-- The address columns are those of the tuple; so are the ports if the innermost transport header
carries some, and otherwise there are none. -/
structure AddressesAgree (hs : List IpAt) (net : NetCols) (transport : TransportCols) (t : Tuple) :
    Prop where
  ipSrc : net.ipSrc = some t.srcIp.toText
  ipDst : net.ipDst = some t.dstIp.toText
  srcPort : transport.srcPort = if (innermostPorts hs).isSome then some t.srcPort else none
  dstPort : transport.dstPort = if (innermostPorts hs).isSome then some t.dstPort else none

/-- The last header inside whose addresses are read names those of the innermost payload; and if
that payload carries ports, some payload stands inside, and if it carries none, none inside does. -/
structure AddressesRegular (hs : List IpAt) : Prop where
  addrs : ∃ d c, innermostPayload hs = some (d, c) ∧
    lastOf IpAt.addrs (inside hs) = some (some d.src.toText, some d.dst.toText)
  ports : (innermostPorts hs).isSome = true → ∃ x ∈ inside hs, x.payload.isSome = true
  portless : (innermostPorts hs).isSome = false → ∀ x ∈ inside hs, x.ports = none

theorem exists_append_inside (hs : List IpAt) : ∃ pre, hs = pre ++ inside hs := by
  cases hs with
  | nil => exact ⟨[], rfl⟩
  | cons h rest =>
      cases rest with
      | nil =>
          rw [inside]
          split
          · exact ⟨[h], rfl⟩
          · exact ⟨[], rfl⟩
      | cons x rest => exact ⟨[h], rfl⟩

/-- A payload inside is the innermost one. -/
theorem innermostPayload_of_inside {hs : List IpAt} (h : ∃ x ∈ inside hs, x.payload.isSome = true) :
    innermostPayload hs = lastOf IpAt.payload (inside hs) := by
  obtain ⟨pre, hpre⟩ := exists_append_inside hs
  have hsome : lastOf IpAt.payload (inside hs) ≠ none := by
    obtain ⟨x, hx, hp⟩ := h
    intro hnone
    rw [lastOf_eq_none_iff.mp hnone x hx] at hp
    cases hp
  obtain ⟨p, hp⟩ := Option.ne_none_iff_exists'.mp hsome
  unfold innermostPayload
  conv_lhs => rw [hpre]
  rw [lastOf_append, hp]
  rfl

/-- The ports in the columns, when the innermost transport header carries some. -/
theorem lastPorts_eq_some_iff {hs : List IpAt} {p : UInt16 × UInt16}
    (hp : innermostPorts hs = some p) :
    lastOf IpAt.ports (inside hs) = some p ↔ ∃ x ∈ inside hs, x.payload.isSome = true := by
  constructor
  · intro h
    obtain ⟨x, hx, hxp⟩ := mem_of_lastOf h
    refine ⟨x, hx, ?_⟩
    obtain ⟨r, hr, -⟩ := Option.bind_eq_some_iff.mp hxp
    rw [hr]
    rfl
  · intro h
    obtain ⟨r, hr, hrp⟩ := Option.bind_eq_some_iff.mp hp
    rw [innermostPayload_of_inside h] at hr
    exact lastOf_bind hr hrp

/-- **Columns and tuple agree exactly when the headers are regular.** -/
theorem Leads.agree_iff {hs : List IpAt} {s : Hdr} {t : Tuple} (h : Leads hs s)
    (ht : s.tuple = some t) :
    AddressesAgree hs s.net s.transport t ↔ AddressesRegular hs := by
  -- the tuple is that of the innermost payload
  have hlast : (innermostPayload hs).map (fun p =>
      Transport.tupleOf p.1.proto p.1.src p.1.dst p.2.rest) = some t := by
    rw [innermostPayload, ← lastOf_map, ← ht, h.tuple]
    rfl
  obtain ⟨⟨d, c⟩, hpay, rfl⟩ := Option.map_eq_some_iff.mp hlast
  have hports : innermostPorts hs = Transport.portsOf d.proto c.rest := by
    rw [innermostPorts, hpay]
    rfl
  have haddrs : (s.net.ipSrc = some d.src.toText ∧ s.net.ipDst = some d.dst.toText) ↔
      lastOf IpAt.addrs (inside hs) = some (some d.src.toText, some d.dst.toText) := by
    have hpair : (s.net.ipSrc = some d.src.toText ∧ s.net.ipDst = some d.dst.toText) ↔
        s.addrs = (some d.src.toText, some d.dst.toText) := (Prod.mk.injEq _ _ _ _).symm ▸ Iff.rfl
    rw [hpair, h.addrs]
    cases lastOf IpAt.addrs (inside hs) with
    | none => simp
    | some a => simp
  have hcols : ∀ sp dp : Option UInt16, (s.transport.srcPort = sp ∧ s.transport.dstPort = dp) ↔
      ((lastOf IpAt.ports (inside hs)).map fun p => (some p.1, some p.2)).getD (none, none) =
        (sp, dp) := by
    intro sp dp
    rw [← h.ports, Hdr.ports, Prod.mk.injEq]
  cases hp : Transport.portsOf d.proto c.rest with
  | none =>
      rw [hp] at hports
      have hnone : (s.transport.srcPort = none ∧ s.transport.dstPort = none) ↔
          ∀ x ∈ inside hs, x.ports = none := by
        rw [hcols, ← lastOf_eq_none_iff]
        cases lastOf IpAt.ports (inside hs) with
        | none => simp
        | some p => simp
      constructor
      · rintro ⟨hsrc, hdst, hsp, hdp⟩
        rw [hports] at hsp hdp
        refine ⟨⟨d, c, hpay, haddrs.mp ⟨hsrc, hdst⟩⟩, fun hsome => ?_, fun _ => ?_⟩
        · rw [hports] at hsome
          cases hsome
        · exact hnone.mp ⟨hsp, hdp⟩
      · rintro ⟨⟨d', c', hpay', hlast'⟩, -, hportless⟩
        rw [hpay] at hpay'
        cases hpay'
        obtain ⟨hsrc, hdst⟩ := haddrs.mpr hlast'
        obtain ⟨hsp, hdp⟩ := hnone.mpr (hportless (by rw [hports]; rfl))
        exact ⟨hsrc, hdst, by rw [hports]; exact hsp, by rw [hports]; exact hdp⟩
  | some p =>
      rw [hp] at hports
      have hsome : (s.transport.srcPort = some p.1 ∧ s.transport.dstPort = some p.2) ↔
          ∃ x ∈ inside hs, x.payload.isSome = true := by
        rw [hcols, ← lastPorts_eq_some_iff hports]
        cases lastOf IpAt.ports (inside hs) with
        | none => simp
        | some q => simp [Prod.ext_iff]
      have htuple : (Transport.tupleOf d.proto d.src d.dst c.rest).srcPort = p.1 ∧
          (Transport.tupleOf d.proto d.src d.dst c.rest).dstPort = p.2 := by
        rw [Transport.tupleOf, hp]
        exact ⟨rfl, rfl⟩
      constructor
      · rintro ⟨hsrc, hdst, hsp, hdp⟩
        rw [hports, htuple.1] at hsp
        rw [hports, htuple.2] at hdp
        refine ⟨⟨d, c, hpay, haddrs.mp ⟨hsrc, hdst⟩⟩, fun _ => hsome.mp ⟨hsp, hdp⟩, fun hnone => ?_⟩
        rw [hports] at hnone
        cases hnone
      · rintro ⟨⟨d', c', hpay', hlast'⟩, hinside, -⟩
        rw [hpay] at hpay'
        cases hpay'
        obtain ⟨hsrc, hdst⟩ := haddrs.mpr hlast'
        obtain ⟨hsp, hdp⟩ := hsome.mpr (hinside (by rw [hports]; rfl))
        refine ⟨hsrc, hdst, ?_, ?_⟩
        · rw [hports, htuple.1]
          exact hsp
        · rw [hports, htuple.2]
          exact hdp

/-- **The address columns of a frame agree with its tuple exactly when its headers are regular**:
the last addresses read behind the first tunnel are those of the innermost payload; if that carries
ports, a payload stands behind the first tunnel, and if not, none with ports does. -/
theorem dissectFrame_addresses_agree_iff [Hashes] {o : Owned} {deferTcpApp : Bool}
    {r : Except DissectError Unit} {ctx : Ctx} {t : Tuple}
    (h : dissectFrame o.data o.linktype (firstCtx o deferTcpApp) = .ok (r, ctx))
    (ht : ctx.tuple = some t) :
    AddressesAgree (ipHeaders o) ctx.pkt.net ctx.pkt.transport t ↔
      AddressesRegular (ipHeaders o) := by
  rw [dissectFrame_eq] at h
  have hsame := Ctx.arrive_same h
  rw [hsame.net, hsame.transport]
  exact (frameJourney_leads o).agree_iff (hsame.tuple.symm.trans ht)

/-! ### An inner payload without ports, two tunnels deep -/

/-- IPv4 in IPv4 from 10.0.0.1 to 10.0.0.2, then GTP from 10.0.0.3 to 10.0.0.4, and in it an ICMP
echo request from 10.0.0.5 to 10.0.0.6. -/
def nestedEcho : Owned :=
  { capLen := 84, origLen := 84, linktype := 101, data_le := by decide
    data := [0x45, 0, 0, 84, 0, 1, 0, 0, 64, 4, 0, 0, 10, 0, 0, 1, 10, 0, 0, 2] ++
      [0x45, 0, 0, 64, 0, 1, 0, 0, 64, 17, 0, 0, 10, 0, 0, 3, 10, 0, 0, 4] ++
      [0x08, 0x68, 0x08, 0x68, 0, 44, 0, 0] ++ [0x30, 255, 0, 28, 0, 0, 0, 1] ++
      [0x45, 0, 0, 28, 0, 1, 0, 0, 64, 1, 0, 0, 10, 0, 0, 5, 10, 0, 0, 6] ++
      [8, 0, 0, 0, 0, 1, 0, 1] }

/-- Its dissection runs to its end, and the tuple is that of the echo request. -/
theorem dissectFrame_nestedEcho [Hashes] : ∃ r ctx,
    dissectFrame nestedEcho.data nestedEcho.linktype (firstCtx nestedEcho true) = .ok (r, ctx) ∧
      ctx.tuple = some { srcIp := .v4 0x0a000005, dstIp := .v4 0x0a000006, srcPort := 0,
                         dstPort := 0, proto := 1 } := ⟨_, _, rfl, rfl⟩

/-- Its columns agree with its tuple exactly when its headers are regular. -/
theorem nestedEcho_agree_iff :
    (ipHeaders nestedEcho).length = 3 ∧
      ∀ _ : Hashes, ∃ r ctx t, dissectFrame nestedEcho.data nestedEcho.linktype
          (firstCtx nestedEcho true) = .ok (r, ctx) ∧ ctx.tuple = some t ∧
        (AddressesAgree (ipHeaders nestedEcho) ctx.pkt.net ctx.pkt.transport t ↔
          AddressesRegular (ipHeaders nestedEcho)) := by
  refine ⟨rfl, fun _ => ?_⟩
  obtain ⟨r, ctx, h, ht⟩ := dissectFrame_nestedEcho
  exact ⟨r, ctx, _, h, ht, dissectFrame_addresses_agree_iff h ht⟩

/-- **The echo request has the ports of the GTP packet**: the second tunnel leaves them in the
columns. -/
theorem nestedEcho_disagrees :
    innermostPorts (ipHeaders nestedEcho) = none ∧
      ∀ _ : Hashes, ∃ r ctx t, dissectFrame nestedEcho.data nestedEcho.linktype
          (firstCtx nestedEcho true) = .ok (r, ctx) ∧ ctx.tuple = some t ∧
        ctx.pkt.transport.srcPort = some 2152 ∧
        ¬ AddressesAgree (ipHeaders nestedEcho) ctx.pkt.net ctx.pkt.transport t := by
  have hports : innermostPorts (ipHeaders nestedEcho) = none := rfl
  refine ⟨hports, fun _ => ?_⟩
  obtain ⟨r, ctx, h, ht⟩ := dissectFrame_nestedEcho
  have hsame := Ctx.arrive_same (dissectFrame_eq _ _ ▸ h)
  have hsrc : ctx.pkt.transport.srcPort = some 2152 := by
    rw [hsame.transport]
    rfl
  refine ⟨r, ctx, _, h, ht, hsrc, fun hagree => ?_⟩
  have hnull := hagree.srcPort
  rw [hports, hsrc] at hnull
  cases hnull

end PcapRacer
