/-
**The tunnel depth of a row.**

A walk takes one level for every tunnel it enters, and pushes the name of the tunnel: its depth is
the number of tunnels on its stack.  The first pass writes both to the row.  The serial phase then
changes the stack, and never the depth.  Behind a stream prefix there is no tunnel; but a
reassembled datagram may be one, and its walk starts from a context of its own.

Main definitions:

* `Hdr.Balanced` — the depth is the number of tunnels on the stack;
* `EntersTunnel` — the first header of a datagram is that of a tunnel;
* `TunnelDepthCounts` — the tunnel depth is the number of tunnels among the components of the stack;
* `CompletesTunnelAt` — a record completes a datagram that enters a tunnel.

Main results:

* `Header.Built.balanced`, `journey_balanced` — the first pass counts the tunnels;
* `datagram_tunnels_eq_zero_iff` — a datagram enters a tunnel with its first header or not at all;
* `run_tunnelDepth_iff` — **the tunnel depth of a row counts the tunnels of its stack exactly when
  its record does not complete a datagram that enters one**.
-/

import PcapRacer.StackColumns
import PcapRacer.UdpTunnel

set_option relaxedAutoImplicit false
set_option autoImplicit false

namespace PcapRacer

open ChunkedRun (scan)

/-! ### The walk counts its tunnels -/

/-- The depth is the number of tunnels on the stack. -/
def Hdr.Balanced (s : Hdr) : Prop :=
  s.depth ≤ Tunnel.maxDepth ∧ s.depth.toNat = s.stack.countP Layer.isTunnel

theorem Hdr.Balanced.push {s : Hdr} (h : s.Balanced) {l : Layer} (hl : l.isTunnel = false) :
    ({ s with stack := s.stack ++ [l] } : Hdr).Balanced := by
  refine ⟨h.1, h.2.trans ?_⟩
  simp [List.countP_append, hl]

namespace Header

theorem Silent.balanced {α : Type} {d : Header α} (h : d.Silent) (c : Cur) {s : Hdr}
    (hs : s.Balanced) : (d.run c s).2.Balanced := by
  rw [h c s]
  exact hs

/-- Entering a tunnel takes a level and pushes the name of a tunnel, or does neither. -/
theorem enter_balanced {kind : Layer} (hk : kind.isTunnel = true) (c : Cur) {s : Hdr}
    (hs : s.Balanced) : ((Tunnel.enter kind).run c s).2.Balanced := by
  obtain ⟨-, hrun⟩ | ⟨hlt, s', hrun, hstack, hdepth⟩ := enter_run kind c s
  · rw [hrun]
    exact hs
  · rw [hrun]
    have hmax : Tunnel.maxDepth.toNat = 8 := rfl
    rw [UInt8.le_iff_toNat_le, hmax] at hlt
    have hnext : s'.depth.toNat = s.depth.toNat + 1 := by
      rw [hdepth, UInt8.toNat_add]
      exact Nat.mod_eq_of_lt (by change s.depth.toNat + 1 < 256; omega)
    have hcap : s'.depth.toNat ≤ 8 := by omega
    refine ⟨UInt8.le_iff_toNat_le.mpr hcap, ?_⟩
    have hcount := hs.2
    simp only [hstack, List.countP_append, List.countP_singleton, hk, if_true]
    omega

/-- **What is built from the steps of a walk counts its tunnels.** -/
theorem Built.balanced {α : Type} {d : Header α} (h : d.Built) (c : Cur) {s : Hdr}
    (hs : s.Balanced) : (d.run c s).2.Balanced := by
  induction h generalizing c s with
  | pure a => exact hs
  | fail e => exact hs
  | read _ => exact hs
  | tryRead _ => exact (silent_tryRead _).balanced c hs
  | take n => exact hs
  | tryTake n => exact (silent_tryTake n).balanced c hs
  | skip n => exact (silent_skip n).balanced c hs
  | trySkip n => exact (silent_trySkip n).balanced c hs
  | confine n => exact hs
  | remaining => exact silent_remaining.balanced c hs
  | peek n => exact (silent_peek n).balanced c hs
  | peekU8 => exact hs
  | layer hl => exact hs.push hl
  | iface i => exact hs
  | link f => exact hs
  | transport f => exact hs
  | tunnel f => exact hs
  | net _ => exact hs
  | setTuple src dst sport dport proto => exact hs
  | enter hk => exact enter_balanced hk c hs
  | look _ _ ih => exact ih s c hs
  | scan _ _ ih => exact ih c c hs
  | @ite α p _ d d' _ _ ih ih' =>
      split
      · exact ih c hs
      · exact ih' c hs
  | @bind α β d f _ _ ih ihf =>
      rw [run_bind]
      have hd := ih c hs
      rcases hx : d.run c s with ⟨e | r, s'⟩
      · rw [hx] at hd
        exact hd
      · rw [hx] at hd
        exact ihf r.1 r.2 hd

end Header

theorem afterIp_balanced (d : Datagram) (c : Cur) {s : Hdr} (frag : Option FragMeta)
    (hs : s.Balanced) : (afterIp d c s frag).hdr.Balanced := by
  unfold afterIp
  dsimp only
  split
  · exact hs.push rfl
  · exact (Network.dispatchIpProto_built d.proto d.src d.dst).balanced c hs

theorem ip_balanced {header : Header Datagram} (hd : header.Built) (c : Cur) {s : Hdr}
    (frag : Option FragMeta) (hs : s.Balanced) : (ip header c s frag).hdr.Balanced := by
  have hrun := hd.balanced c hs
  unfold ip
  rcases hx : header.run c s with ⟨e | p, s'⟩
  · rw [hx] at hrun
    exact hrun
  · rw [hx] at hrun
    exact afterIp_balanced p.1 p.2 frag hrun

theorem hop_balanced (h : Hop) (c : Cur) {s : Hdr} (frag : Option FragMeta) (hs : s.Balanced) :
    (hop h c s frag).hdr.Balanced := by
  cases h with
  | ethernet => exact Link.ethernet_aloof.built.balanced c hs
  | llc => exact Link.llc_aloof.built.balanced c hs
  | vlan => exact Link.vlan_aloof.built.balanced c hs
  | mpls => exact Link.mpls_aloof.built.balanced c hs
  | pppoe => exact Link.pppoe_aloof.built.balanced c hs
  | ipv4 => exact ip_balanced Network.ipv4_stepwise.built c frag hs
  | ipv6 => exact ip_balanced Network.ipv6_stepwise.built c frag hs

theorem follow_balanced {n : ℕ} {o : Onward} {c : Cur} {s : Hdr} {frag : Option FragMeta}
    (hs : s.Balanced) : (follow n o c s frag).hdr.Balanced := by
  induction n generalizing o c s frag with
  | zero => cases o <;> exact hs
  | succ n ih =>
      cases o with
      | done => exact hs
      | payload p => exact hs
      | hop h =>
          have hhop := hop_balanced h c frag hs
          cases hx : (hop h c s frag).next with
          | error e =>
              simp only [follow, hx]
              exact hhop
          | ok r =>
              simp only [follow, hx]
              exact ih hhop

/-- **A walk counts the tunnels it enters.** -/
theorem journey_balanced {first : Header Onward} (hd : first.Built) (c : Cur) {s : Hdr}
    (hs : s.Balanced) : (journey first c s).hdr.Balanced := by
  have hrun := hd.balanced c hs
  unfold journey
  rcases hx : first.run c s with ⟨e | r, s'⟩
  · rw [hx] at hrun
    exact hrun
  · rw [hx] at hrun
    exact follow_balanced hrun

theorem frameJourney_balanced (o : Owned) : (frameJourney o).hdr.Balanced :=
  journey_balanced (Link.dissectLink_aloof o.linktype).built _
    ⟨UInt8.le_iff_toNat_le.mpr (Nat.zero_le _), rfl⟩

/-! ### Datagrams that enter a tunnel -/

namespace Header

variable {α : Type}

/-- Where the dissector hands over to another header, it has entered a tunnel. -/
def HopsInside (d : Header Onward) : Prop :=
  ∀ c s h c', (d.run c s).1 = .ok (.hop h, c') →
    s.stack.countP Layer.isTunnel < (d.run c s).2.stack.countP Layer.isTunnel

theorem hopsInside_done : HopsInside (pure .done) := fun _ _ _ _ h => by cases h

theorem hopsInside_payload (p : Payload) : HopsInside (pure (.payload p)) :=
  fun _ _ _ _ h => by cases h

theorem hopsInside_fail (e : DissectError) : HopsInside (fail e) := fun _ _ _ _ h => by cases h

theorem hopsInside_ite {p : Prop} [Decidable p] {d d' : Header Onward} (hd : HopsInside d)
    (hd' : HopsInside d') : HopsInside (if p then d else d') := by
  split
  · exact hd
  · exact hd'

/-- Whatever comes first: it takes no tunnel off the stack. -/
theorem hopsInside_bind {d : Header α} {f : α → Header Onward} (hd : d.Built)
    (hf : ∀ a, HopsInside (f a)) : HopsInside (d >>= f) := by
  intro c s h c' hx
  have hgrows := (hd.grows c s).sublist.countP_le (p := Layer.isTunnel)
  rw [run_bind] at hx ⊢
  rcases hr : d.run c s with ⟨e | r, s'⟩
  · rw [hr] at hx
    cases hx
  · rw [hr] at hx hgrows
    exact lt_of_le_of_lt hgrows (hf r.1 r.2 s' h c' hx)

/-- Once a tunnel is entered every hop is inside it. -/
theorem hopsInside_enter_bind {kind : Layer} (hk : kind.isTunnel = true)
    {f : Unit → Header Onward} (hf : (f ()).Built) : HopsInside (Tunnel.enter kind >>= f) := by
  intro c s h c' hx
  rw [run_bind] at hx ⊢
  obtain ⟨-, hrun⟩ | ⟨-, s', hrun, hstack, -⟩ := enter_run kind c s
  · rw [hrun] at hx
    cases hx
  · rw [hrun]
    have hgrows := (hf.grows c s').sublist.countP_le (p := Layer.isTunnel)
    rw [hstack, List.countP_append, List.countP_singleton, if_pos hk] at hgrows
    exact hgrows

end Header

section Dissectors

open Header

theorem Tunnel.erspan_hopsInside (proto : UInt16) : (erspan proto).HopsInside := by
  unfold erspan
  refine hopsInside_enter_bind rfl ?_
  repeat' first
    | exact Read.bytes_local _ _ | intro _
    | with_reducible constructor

theorem Tunnel.gre_hopsInside : gre.HopsInside := by
  unfold gre
  repeat' first
    | exact (rfl : _ = (_ : Bool)) | exact Read.bytes_local _ _ | with_reducible intro _
    | exact erspan_hopsInside _
    | refine hopsInside_enter_bind rfl ?_ | refine hopsInside_ite ?_ ?_
    | refine hopsInside_bind ?_ fun _ => ?_
    | with_reducible constructor
    | split

theorem Tunnel.vxlan_hopsInside : vxlan.HopsInside := by
  unfold vxlan
  repeat' first
    | exact (rfl : _ = (_ : Bool)) | exact Read.bytes_local _ _ | with_reducible intro _
    | refine hopsInside_enter_bind rfl ?_ | refine hopsInside_ite ?_ ?_
    | refine hopsInside_bind ?_ fun _ => ?_
    | with_reducible constructor

theorem Tunnel.geneve_hopsInside : geneve.HopsInside := by
  unfold geneve
  repeat' first
    | exact (rfl : _ = (_ : Bool)) | exact Read.bytes_local _ _ | with_reducible intro _
    | refine hopsInside_enter_bind rfl ?_ | refine hopsInside_bind ?_ fun _ => ?_
    | with_reducible constructor
    | split

theorem Tunnel.gtp_hopsInside : gtp.HopsInside := by
  unfold gtp
  repeat' first
    | exact (rfl : _ = (_ : Bool)) | exact Read.bytes_local _ _ | with_reducible intro _
    | refine hopsInside_enter_bind rfl ?_ | refine hopsInside_bind ?_ fun _ => ?_
    | with_reducible first
        | exact (gtpExtensions_aloof _ _).built | exact Link.rawIp_aloof.built | constructor

theorem Tunnel.l2tp_hopsInside : l2tp.HopsInside := by
  unfold l2tp
  repeat' first
    | exact (rfl : _ = (_ : Bool)) | exact Read.bytes_local _ _ | with_reducible intro _
    | refine hopsInside_enter_bind rfl ?_ | refine hopsInside_bind ?_ fun _ => ?_
    | with_reducible first | exact (Link.pppPayload_aloof _).built | constructor

theorem Tunnel.teredo_hopsInside : teredo.HopsInside := by
  unfold teredo
  repeat' first
    | exact (rfl : _ = (_ : Bool)) | with_reducible intro _
    | refine hopsInside_enter_bind rfl ?_ | refine hopsInside_ite ?_ ?_
    | refine hopsInside_bind ?_ fun _ => ?_
    | with_reducible first | exact (teredoIndicators_aloof _).built | constructor

theorem Transport.udpPayload_hopsInside (sport dport : UInt16) :
    (udpPayload sport dport).HopsInside := by
  unfold udpPayload
  split
  · next d h =>
    unfold Tunnel.tryUdpTunnel at h
    repeat' split at h
    all_goals cases h
    · exact Tunnel.vxlan_hopsInside
    · exact Tunnel.geneve_hopsInside
    · exact Tunnel.gtp_hopsInside
    · exact Tunnel.l2tp_hopsInside
    · exact Tunnel.teredo_hopsInside
  · exact hopsInside_payload _

theorem Transport.udp_hopsInside (src dst : IpAddr) (proto : UInt8) :
    (udp src dst proto).HopsInside := by
  unfold udp
  repeat' first
    | exact (rfl : _ = (_ : Bool)) | exact Read.bytes_local _ _ | with_reducible intro _
    | exact udpPayload_hopsInside _ _ | refine hopsInside_ite ?_ ?_
    | refine hopsInside_bind ?_ fun _ => ?_
    | with_reducible constructor

theorem Transport.tcp_hopsInside (src dst : IpAddr) : (tcp src dst).HopsInside := by
  unfold tcp
  repeat' first
    | exact (rfl : _ = (_ : Bool)) | exact Read.bytes_local _ _ | with_reducible intro _
    | exact hopsInside_payload _ | refine hopsInside_ite ?_ ?_
    | refine hopsInside_bind ?_ fun _ => ?_
    | with_reducible constructor

theorem Transport.sctp_hopsInside (src dst : IpAddr) : (sctp src dst).HopsInside := by
  unfold sctp
  refine hopsInside_bind (.layer rfl) fun _ => ?_
  iterate 4 refine hopsInside_bind (.read (Read.bytes_local _ _)) fun _ => ?_
  refine hopsInside_bind (.transport _) fun _ => ?_
  refine hopsInside_bind (.setTuple _ _ _ _ _) fun _ => fun c s h c' hx => ?_
  -- the chunks are scanned, and then the walk is over
  have hdone : HopsInside (if chunkTypes 64 c ≠ [] then
      transport (fun t => { t with
        sctpChunkTypes := some (Text.join [','] (chunkTypes 64 c)),
        sctpNumChunks := some (UInt16.ofNat (chunkTypes 64 c).length) }) >>= fun _ => pure .done
      else pure .done) :=
    hopsInside_ite (hopsInside_bind (.transport _) fun _ => hopsInside_done) hopsInside_done
  exact hdone c s h c' hx

theorem Network.icmp_hopsInside : icmp.HopsInside := by
  unfold icmp
  repeat' first
    | exact (rfl : _ = (_ : Bool)) | exact Read.bytes_local _ _ | with_reducible intro _
    | assumption | exact hopsInside_done | refine hopsInside_ite ?_ ?_
    | refine hopsInside_bind ?_ fun _ => ?_
    | with_reducible first | exact icmpEcho_aloof.built | constructor

theorem Network.icmpv6_hopsInside : icmpv6.HopsInside := by
  unfold icmpv6 ndOption
  repeat' first
    | exact (rfl : _ = (_ : Bool)) | exact Read.bytes_local _ _ | with_reducible intro _
    | assumption | exact hopsInside_done | refine hopsInside_ite ?_ ?_
    | refine hopsInside_bind ?_ fun _ => ?_
    | with_reducible first | exact icmpEcho_aloof.built | constructor
    | split

theorem Network.igmp_hopsInside : igmp.HopsInside := by
  unfold igmp
  repeat' first
    | exact (rfl : _ = (_ : Bool)) | exact Read.bytes_local _ _ | with_reducible intro _
    | assumption | exact hopsInside_done | refine hopsInside_ite ?_ ?_
    | refine hopsInside_bind ?_ fun _ => ?_
    | with_reducible constructor

theorem Network.esp_hopsInside : esp.HopsInside := by
  unfold esp
  repeat' first
    | exact (rfl : _ = (_ : Bool)) | exact Read.bytes_local _ _ | with_reducible intro _
    | assumption | exact hopsInside_done | refine hopsInside_ite ?_ ?_
    | refine hopsInside_bind ?_ fun _ => ?_
    | with_reducible constructor

theorem Network.named_hopsInside {l : Layer} (hl : l.isTunnel = false) : (named l).HopsInside :=
  hopsInside_bind (.layer hl) fun _ => hopsInside_done

theorem Tunnel.ipInIp_hopsInside (innerIsV6 : Bool) : (ipInIp innerIsV6).HopsInside :=
  hopsInside_enter_bind rfl (.pure _)

/-- **A transport that hands over to another header is a tunnel.** -/
theorem Network.dispatchIpProto_hopsInside (proto : UInt8) (src dst : IpAddr) :
    (dispatchIpProto proto src dst).HopsInside := by
  unfold dispatchIpProto
  refine hopsInside_bind (.setTuple _ _ _ _ _) fun _ => ?_
  split
  all_goals with_reducible first
    | exact Transport.tcp_hopsInside _ _ | exact Transport.udp_hopsInside _ _ _
    | exact Transport.sctp_hopsInside _ _ | exact icmp_hopsInside | exact icmpv6_hopsInside
    | exact igmp_hopsInside | exact Tunnel.gre_hopsInside | exact Tunnel.ipInIp_hopsInside _
    | exact esp_hopsInside | exact named_hopsInside (by decide) | exact hopsInside_fail _

end Dissectors

/-- The first header of the datagram, dissected onto the packet, is that of a tunnel. -/
def EntersTunnel (key : FragKey) (data : Bytes) (pkt : Packet) : Prop :=
  ∃ l ∈ ((Network.dispatchIpProto key.proto key.src key.dst).run (Cur.new data)
    ({ pkt : Ctx } : Ctx).hdr).2.stack, l.isTunnel = true

/-- **A datagram enters a tunnel with its first header or not at all.** -/
theorem datagram_tunnels_eq_zero_iff (key : FragKey) (data : Bytes) (pkt : Packet) :
    (datagramJourney key data ({ pkt : Ctx } : Ctx).hdr).hdr.stack.countP Layer.isTunnel = 0 ↔
      ¬ EntersTunnel key data pkt := by
  have hinside := Network.dispatchIpProto_hopsInside key.proto key.src key.dst (Cur.new data)
    ({ pkt : Ctx } : Ctx).hdr
  unfold EntersTunnel datagramJourney journey
  rcases hx : (Network.dispatchIpProto key.proto key.src key.dst).run (Cur.new data)
    ({ pkt : Ctx } : Ctx).hdr with ⟨e | ⟨o, c⟩, s'⟩
  · rw [List.countP_eq_zero]
    push Not
    exact Iff.rfl
  · rw [hx] at hinside
    dsimp only
    cases o with
    | done =>
        rw [follow, List.countP_eq_zero]
        push Not
        exact Iff.rfl
    | payload p =>
        rw [follow, List.countP_eq_zero]
        push Not
        exact Iff.rfl
    | hop h =>
        -- the hop is inside a tunnel, whose name stays on the stack
        have hpos : 0 < s'.stack.countP Layer.isTunnel := hinside h c rfl
        have hgrows : s'.stack <+: (follow (c.remaining + 1) (.hop h) c s' none).hdr.stack :=
          follow_grows (Nat.lt_succ_self _)
        have hle := hgrows.sublist.countP_le (p := Layer.isTunnel)
        refine iff_of_false (by omega) fun hno => hno ?_
        exact List.countP_pos_iff.mp hpos

/-! ### Rows -/

/-- The names of the tunnels. -/
def tunnelNames : List Text :=
  ["gre".toList, "erspan".toList, "ipip".toList, "vxlan".toList, "geneve".toList, "gtp".toList,
    "l2tp".toList, "teredo".toList]

/-- The tunnel depth is the number of tunnels among the components of the stack. -/
def TunnelDepthCounts (f : FrameCols) : Prop :=
  ∃ depth, f.tunnelDepth = some depth ∧
    depth.toNat = (components (f.protoStack.getD [])).countP (· ∈ tunnelNames)

theorem Layer.isTunnel_iff (l : Layer) : l.isTunnel = true ↔ l.name ∈ tunnelNames := by
  cases l <;> decide

theorem Tells.countP_components {f : FrameCols} {st : List Layer} (h : Tells f st) :
    (components (f.protoStack.getD [])).countP (· ∈ tunnelNames) = st.countP Layer.isTunnel := by
  rw [h.protoStack, Option.getD_some]
  by_cases hnil : st = []
  · subst hnil
    decide
  · rw [components_joinStack hnil, List.countP_map]
    refine List.countP_congr fun l _ => ?_
    rw [l.isTunnel_iff, Function.comp_apply, decide_eq_true_iff]

section Serial

variable [Hashes]

/-- The first pass writes the number of tunnels on its stack. -/
theorem dissectOne_depth {o : Owned} {defer : Bool} {r : Except DissectError Unit} {ctx : Ctx}
    (hwalk : (frameCtx o defer).arrive (frameJourney o).stop = .ok (r, ctx))
    (hone : dissectOne o defer = summary o defer r ctx) :
    ∃ depth, (dissectOne o defer).pkt.frame.tunnelDepth = some depth ∧
      depth.toNat = ctx.stack.countP Layer.isTunnel := by
  obtain ⟨-, hdepth, htunnels⟩ := arrive_stack hwalk
  refine ⟨ctx.depth, ?_, ?_⟩
  · rw [hone]
    rfl
  · rw [hdepth, htunnels]
    exact (frameJourney_balanced o).2

namespace Engine

/-- The record completes a datagram that enters a tunnel. -/
def CompletesTunnel (e : Engine) (o : Owned) (defer : Bool) : Prop :=
  ∃ fm data, e.reassemble = true ∧ (dissectOne o defer).frag = some fm ∧
    (e.frags.push fm.key fm.offset fm.moreFragments fm.payload).1 = some data ∧
    EntersTunnel fm.key data (e.numbered (dissectOne o defer).pkt)

/-- The fragment pass adds tunnels to the stack exactly when it completes a datagram that enters
one. -/
theorem fragmentPass_tunnels {e : Engine} {o : Owned} {defer : Bool} {frags : FragTable FragKey}
    {tuple : Option Tuple} {pkt : Packet} {st : List Layer}
    (ht : Tells (e.numbered (dissectOne o defer).pkt).frame st)
    (h : fragmentPass e.frags (if e.reassemble then (dissectOne o defer).frag else none)
      (e.numbered (dissectOne o defer).pkt) = .ok (frags, tuple, pkt)) :
    ∃ st', Tells pkt.frame st' ∧
      (st'.countP Layer.isTunnel = st.countP Layer.isTunnel ↔ ¬ e.CompletesTunnel o defer) := by
  by_cases hre : e.reassemble = true
  · rw [if_pos hre] at h
    cases hfrag : (dissectOne o defer).frag with
    | none =>
        rw [hfrag] at h
        cases h
        refine ⟨st, ht, iff_of_true rfl ?_⟩
        rintro ⟨fm, data, -, hfm, -⟩
        rw [hfrag] at hfm
        cases hfm
    | some fm =>
        rw [hfrag] at h
        rcases hp : e.frags.push fm.key fm.offset fm.moreFragments fm.payload with ⟨_ | data, frags₁⟩
        · simp only [fragmentPass, hp] at h
          cases h
          refine ⟨st, ht, iff_of_true rfl ?_⟩
          rintro ⟨fm', data, -, hfm, hpush, -⟩
          obtain rfl := Option.some.inj (hfrag.symm.trans hfm)
          rw [hp] at hpush
          cases hpush
        · simp only [fragmentPass, hp] at h
          obtain ⟨r, hr, he⟩ := map_eq_ok_iff.mp h
          cases he
          obtain ⟨st', ht', hcount⟩ := redissectDatagram_tells ht hr
          refine ⟨st', ht', ?_⟩
          rw [hcount, Nat.add_eq_left, datagram_tunnels_eq_zero_iff, not_iff_not]
          constructor
          · exact fun henter => ⟨fm, data, hre, hfrag, by rw [hp], henter⟩
          · rintro ⟨fm', data', -, hfm, hpush, henter⟩
            obtain rfl := Option.some.inj (hfrag.symm.trans hfm)
            rw [hp] at hpush
            cases hpush
            exact henter
  · rw [if_neg hre] at h
    cases h
    refine ⟨st, ht, iff_of_true rfl ?_⟩
    rintro ⟨fm, data, hre', -⟩
    exact hre hre'

/-- **The tunnel depth of a row counts the tunnels of its stack exactly when its step does not
complete a datagram that enters one.** -/
theorem step_tunnelDepth_iff {e e' : Engine} {o : Owned} {defer : Bool} {row : Packet}
    (h : Engine.step defer e o = .ok (e', row)) (hpanic : row.frame.panicked ≠ some true) :
    TunnelDepthCounts row.frame ↔ ¬ e.CompletesTunnel o defer := by
  have hstamp := (absorbOne_ok h).1
  obtain ⟨r, ctx, hwalk, hone, ht⟩ | hbad := dissectOne_tells o defer
  · obtain ⟨depth, hdepth, hcount⟩ := dissectOne_depth hwalk hone
    have hrow : row.frame.tunnelDepth = some depth :=
      (congrArg FrameCols.tunnelDepth hstamp).trans hdepth
    obtain ⟨⟨frags, fragTuple, pkt⟩, hpass, h⟩ := bind_eq_ok_iff.mp h
    obtain ⟨⟨e₁, pkt₁⟩, hjoin, he⟩ := bind_eq_ok_iff.mp h
    cases he
    have hnum : Tells (e.numbered (dissectOne o defer).pkt).frame ctx.stack :=
      ⟨ht.protoStack, ht.highestLayer⟩
    obtain ⟨st₁, ht₁, hiff⟩ := fragmentPass_tunnels hnum hpass
    obtain ⟨st₂, ht₂, hsame⟩ := joinFlow_tells ht₁ hjoin
    rw [← hiff, ← hsame, ← ht₂.countP_components, ← hcount]
    constructor
    · rintro ⟨depth', hdepth', hcounts⟩
      cases hrow.symm.trans hdepth'
      exact hcounts.symm
    · exact fun hcounts => ⟨depth, hrow, hcounts.symm⟩
  · rw [step_panicked hbad h] at hpanic
    exact absurd rfl hpanic

end Engine

/-- Record `i` completes a datagram that enters a tunnel, in a run that has absorbed the records
before it. -/
def CompletesTunnelAt (cfg : Config) (records : List RawPacket) (i : ℕ) : Prop :=
  ∃ r rows e, records[i]? = some r ∧
    scan (Engine.step cfg.reassemble) (Engine.new cfg) ((records.take i).map RawPacket.own) =
      .ok (e, rows) ∧
    e.CompletesTunnel r.own cfg.reassemble

/-- **The tunnel depth of a row counts the tunnels of its stack exactly when its record does not
complete a datagram that enters one**, in every run. -/
theorem run_tunnelDepth_iff {ε : Type} (pool : ThreadPool) (cfg : Config)
    (onBatch : List (List Packet) → Except ε Unit) (records : List RawPacket) (badBlocks i : ℕ)
    (row : Packet)
    (hrow : (run pool cfg onBatch records badBlocks).delivered.flatten[i]? = some row)
    (hpanic : row.frame.panicked ≠ some true) :
    TunnelDepthCounts row.frame ↔ ¬ CompletesTunnelAt cfg records i := by
  obtain ⟨r, rows, e, e', hr, hscan, hstep⟩ := step_of_run hrow
  rw [Engine.step_tunnelDepth_iff hstep hpanic, not_iff_not]
  constructor
  · exact fun h => ⟨r, rows, e, hr, hscan, h⟩
  · rintro ⟨r', rows', e₁, hr', hscan', h⟩
    cases hr.symm.trans hr'
    cases hscan.symm.trans hscan'
    exact h

end Serial

/-! ### A fragmented IP-in-IP datagram -/

/-- Of a tunnelled packet the depth counts; of the record that completes a datagram with a tunnel it
does not. -/
theorem run_tunnelDepth_ipip :
    ipipRecord.data.length = 54 ∧ ∀ (_ : Hashes) (pool : ThreadPool), ∃ whole first last : Packet,
      (run pool {} (fun _ => (.ok () : Except Unit Unit)) [ipipRecord, ipipFirst, ipipLast]
        0).delivered.flatten = [whole, first, last] ∧
      whole.frame.protoStack = some "eth:ip:ipip:ip".toList ∧
      whole.frame.tunnelDepth = some 1 ∧
      (TunnelDepthCounts whole.frame ↔
        ¬ CompletesTunnelAt {} [ipipRecord, ipipFirst, ipipLast] 0) ∧
      last.frame.protoStack = some "eth:ip:ipip:ip".toList ∧ last.frame.tunnelDepth = some 0 ∧
      (TunnelDepthCounts last.frame ↔
        ¬ CompletesTunnelAt {} [ipipRecord, ipipFirst, ipipLast] 2) := by
  refine ⟨by decide, fun _ pool => ?_⟩
  obtain ⟨whole, first, last, hrows, hwhole, hlast⟩ := delivered_ipip pool
  have hne : ∀ {row : Packet}, row.frame.panicked = some false →
      row.frame.panicked ≠ some true := fun h => by
    rw [h]
    decide
  refine ⟨whole, first, last, hrows, hwhole.1, hwhole.2.1, ?_, hlast.1, hlast.2.1, ?_⟩
  · exact run_tunnelDepth_iff pool {} (fun _ => (.ok () : Except Unit Unit)) _ 0 0 whole
      (by rw [hrows]; rfl) (hne hwhole.2.2)
  · exact run_tunnelDepth_iff pool {} (fun _ => (.ok () : Except Unit Unit)) _ 0 2 last
      (by rw [hrows]; rfl) (hne hlast.2.2)

/-- **The row that completes the datagram has a tunnel on its stack, and the depth of the bare
fragment.** -/
theorem run_ipip_uncounted :
    ipipFirst.data.length = 42 ∧ ∀ (_ : Hashes) (pool : ThreadPool),
      ∃ row ∈ (run pool {} (fun _ => (.ok () : Except Unit Unit))
          [ipipFirst, ipipLast] 0).delivered.flatten,
        row.frame.panicked = some false ∧ row.frame.protoStack = some "eth:ip:ipip:ip".toList ∧
        ¬ TunnelDepthCounts row.frame := by
  refine ⟨rfl, fun _ pool => ?_⟩
  obtain ⟨e₁, row₁, e₂, row₂, hfirst, hlast, hpanic, hstack, hdepth⟩ : ∃ e₁ row₁ e₂ row₂,
      Engine.step true (Engine.new {}) ipipFirst.own = .ok (e₁, row₁) ∧
      Engine.step true e₁ ipipLast.own = .ok (e₂, row₂) ∧ row₂.frame.panicked = some false ∧
      row₂.frame.protoStack = some "eth:ip:ipip:ip".toList ∧ row₂.frame.tunnelDepth = some 0 :=
    ⟨_, _, _, _, rfl, rfl, rfl, rfl, rfl⟩
  have hscan : scan (Engine.step true) (Engine.new {}) ([ipipFirst, ipipLast].map RawPacket.own) =
      .ok (e₂, [row₁, row₂]) := by
    rw [List.map_cons, List.map_singleton, ChunkedRun.scan_cons_of_ok hfirst,
      ChunkedRun.scan_cons_of_ok hlast, ChunkedRun.scan_nil]
    rfl
  refine ⟨row₂, ?_, hpanic, hstack, ?_⟩
  · rw [delivered_of_scan {} hscan pool (by decide) (by decide) 0 _ fun _ => rfl]
    exact List.mem_cons_of_mem _ (List.mem_singleton_self row₂)
  · rintro ⟨depth, hsome, hcounts⟩
    cases hdepth.symm.trans hsome
    have hone : (components "eth:ip:ipip:ip".toList).countP (· ∈ tunnelNames) = 1 := by decide
    rw [hstack, Option.getD_some, hone] at hcounts
    cases hcounts

end PcapRacer
