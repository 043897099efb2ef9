/-
**UDP payloads on a tunnel port.**

Tunnels over UDP are recognised by port alone: the decoder that a port selects gets the payload, and
what it returns is what the whole datagram returns.  A decoder that rejects the payload before it
enters its tunnel has written nothing; still the caller does not go on with the payload, as it does
where no port selects a decoder.  So the payload columns stay as they were, and the application
dissectors never see the payload.

Main definitions:

* `Header.EntersFirst` — dissectors that write nothing before they enter a tunnel;
* `Header.Rejects` — a decoder gives up before it enters its tunnel;
* `FallsThrough` — the payload is treated as if its ports selected no decoder.

Main results:

* `tryUdpTunnel_entersFirst` — every decoder enters its tunnel before it writes;
* `fallsThrough_iff_nothing_left` — **a rejected payload is treated like any other exactly when
  there is nothing left to record and nothing to dispatch**.
-/

import PcapRacer.HeaderFrame
import PcapRacer.Nesting

set_option relaxedAutoImplicit false
set_option autoImplicit false

namespace PcapRacer

namespace Header

variable {α β : Type}

/-! ### Dissectors that write nothing before they enter a tunnel -/

/-- The dissector has written nothing, or its name is on the stack. -/
def EntersFirst (d : Header α) : Prop :=
  ∀ c s, (d.run c s).2 = s ∨ s.stack.length < (d.run c s).2.stack.length

/-- Reading first does not matter. -/
theorem entersFirst_bind {d : Header α} {f : α → Header β} (hd : Silent d)
    (hf : ∀ a, EntersFirst (f a)) : EntersFirst (d >>= f) := by
  intro c s
  rw [run_bind]
  have hs := hd c s
  rcases hx : d.run c s with ⟨x, s'⟩
  rw [hx] at hs
  cases hs
  cases x with
  | error e => exact .inl rfl
  | ok p => exact hf p.1 p.2 s'

/-- Once a tunnel is entered its name stays on the stack, whatever comes then. -/
theorem entersFirst_enter_bind (kind : Layer) {f : Unit → Header β} (hf : (f ()).Built) :
    EntersFirst (Tunnel.enter kind >>= f) := by
  intro c s
  rw [run_bind]
  obtain ⟨-, hrun⟩ | ⟨-, s', hrun, hstack, -⟩ := enter_run kind c s
  · rw [hrun]
    exact .inl rfl
  · rw [hrun]
    have hle : s'.stack.length ≤ ((f ()).run c s').2.stack.length := (hf.grows c s').length_le
    rw [hstack, List.length_append, List.length_singleton] at hle
    exact .inr hle

theorem entersFirst_ite {p : Prop} [Decidable p] {d d' : Header α} (hd : EntersFirst d)
    (hd' : EntersFirst d') : EntersFirst (if p then d else d') := by
  split
  · exact hd
  · exact hd'

end Header

namespace Tunnel

open Header

theorem vxlan_entersFirst : EntersFirst vxlan := by
  unfold vxlan
  refine entersFirst_bind (silent_read _) fun flags => ?_
  refine entersFirst_bind (silent_skip _) fun _ => ?_
  refine entersFirst_bind (silent_read _) fun vniRes => ?_
  refine entersFirst_ite (entersFirst_bind (silent_fail _) fun _ => ?_) ?_
  all_goals exact entersFirst_enter_bind _ (.bind (.tunnel _) fun _ => .pure _)

theorem geneve_entersFirst : EntersFirst geneve := by
  unfold geneve
  refine entersFirst_bind (silent_read _) fun verOptlen => ?_
  refine entersFirst_bind (silent_read _) fun _ => ?_
  refine entersFirst_bind (silent_read _) fun proto => ?_
  refine entersFirst_bind (silent_read _) fun vniRes => ?_
  refine entersFirst_enter_bind _ (.bind (.tunnel _) fun _ => .bind (.skip _) fun _ => ?_)
  split
  · exact .pure _
  · exact .pure _
  · exact .pure _
  · exact .fail _

theorem gtp_entersFirst : EntersFirst gtp := by
  unfold gtp
  refine entersFirst_bind (silent_read _) fun flags => ?_
  refine entersFirst_bind (silent_read _) fun msgType => ?_
  refine entersFirst_bind (silent_read _) fun _ => ?_
  refine entersFirst_bind (silent_read _) fun teid => ?_
  refine entersFirst_enter_bind _ (.bind (.tunnel _) fun _ => ?_)
  have htail : Built (if msgType ≠ 255 then pure .done else Link.rawIp) :=
    .ite (.pure _) Link.rawIp_aloof.built
  refine .ite (.bind (.skip _) fun _ => .bind (.read (Read.bytes_local _ _)) fun next => ?_) htail
  exact .bind (gtpExtensions_aloof 8 next).built fun _ => htail

theorem l2tp_entersFirst : EntersFirst l2tp := by
  unfold l2tp
  refine entersFirst_bind (silent_read _) fun flags => entersFirst_enter_bind _ ?_
  repeat' first
    | exact Read.bytes_local _ _ | intro _
    | with_reducible first | exact (Link.pppPayload_aloof _).built | constructor

theorem teredoIndicators_silent (rounds : ℕ) : Silent (teredoIndicators rounds) := by
  induction rounds with
  | zero => exact silent_pure _
  | succ rounds ih =>
      unfold teredoIndicators
      refine silent_bind (silent_peek 2) fun b => ?_
      split
      · refine silent_bind (silent_skip _) fun _ => ?_
        refine silent_bind (silent_read _) fun idLen => ?_
        refine silent_bind (silent_read _) fun auLen => ?_
        exact silent_bind (silent_skip _) fun _ => ih
      · exact silent_bind (silent_skip _) fun _ => ih
      · exact silent_pure _

theorem teredo_entersFirst : EntersFirst teredo := by
  unfold teredo
  refine entersFirst_bind silent_remaining fun rounds => ?_
  refine entersFirst_bind (teredoIndicators_silent rounds) fun _ => ?_
  refine entersFirst_bind silent_peekU8 fun b => ?_
  refine entersFirst_ite (entersFirst_bind (silent_fail _) fun _ => ?_) ?_
  all_goals exact entersFirst_enter_bind _ (.bind (.tunnel _) fun _ => .pure _)

/-- **Every decoder enters its tunnel before it writes a column.** -/
theorem tryUdpTunnel_entersFirst {sport dport : UInt16} {d : Header Onward}
    (h : tryUdpTunnel sport dport = some d) : EntersFirst d := by
  unfold tryUdpTunnel at h
  split at h
  · cases h; exact vxlan_entersFirst
  · split at h
    · cases h; exact geneve_entersFirst
    · split at h
      · cases h; exact gtp_entersFirst
      · split at h
        · cases h; exact l2tp_entersFirst
        · split at h
          · cases h; exact teredo_entersFirst
          · cases h

end Tunnel

/-! ### Rejected payloads -/

/-- The decoder gives up before it enters its tunnel: no layer name of its own is on the stack. -/
def Header.Rejects (d : Header Onward) (c : Cur) (s : Hdr) : Prop :=
  (∃ e, (d.run c s).1 = .error e) ∧ (d.run c s).2.stack = s.stack

/-- A decoder that rejects its payload leaves the state as it was. -/
theorem Header.Rejects.run_eq {d : Header Onward} {c : Cur} {s : Hdr} (h : d.Rejects c s)
    (hd : d.EntersFirst) : ∃ e, d.run c s = (.error e, s) := by
  obtain ⟨⟨e, he⟩, hstack⟩ := h
  refine ⟨e, Prod.ext he ?_⟩
  obtain hs | hlt := hd c s
  · exact hs
  · rw [hstack] at hlt
    exact absurd hlt (Nat.lt_irrefl _)

/-- Nothing is left to do with a payload: there is none and its length stands recorded, or it is
recorded and application dispatch has been done. -/
def NothingLeft (ctx : Ctx) (payload : Bytes) : Prop :=
  (payload = [] ∧ ctx.pkt.payload.udpPayloadLen = some 0) ∨
    (ctx.appDone = true ∧ payloadCols false payload ctx.pkt.payload = ctx.pkt.payload)

theorem payloadCols_nil (p : PayloadCols) :
    payloadCols false [] p = { p with udpPayloadLen := some 0 } := rfl

section Rejected

variable [Hashes]

/-- The context that a UDP payload leaves is the one it would leave if its ports selected no tunnel
decoder: the payload columns are recorded, and the payload is dispatched to the application
dissectors. -/
def FallsThrough (ctx : Ctx) (sport dport : UInt16) (c : Cur) : Prop :=
  (ctx.walk (Transport.udpPayload sport dport) c).map Prod.snd =
    ctx.payload { isTcp := false, sport, dport } c

/-- What the walk does with a rejected payload: nothing. -/
theorem walk_of_rejects {sport dport : UInt16} {d : Header Onward} {ctx : Ctx} {c : Cur}
    (h : Tunnel.tryUdpTunnel sport dport = some d) (hrej : d.Rejects c ctx.hdr) :
    (ctx.walk (Transport.udpPayload sport dport) c).map Prod.snd = .ok ctx := by
  obtain ⟨e, he⟩ := hrej.run_eq (Tunnel.tryUdpTunnel_entersFirst h)
  have hj : journey (Transport.udpPayload sport dport) c ctx.hdr =
      { stop := .error e, hdr := ctx.hdr, frag := none } := by
    unfold journey Transport.udpPayload
    rw [h, he]
  unfold Ctx.walk
  rw [hj]
  rfl

/-- Application dispatch that has something to do says that it has been done. -/
theorem appDone_of_dispatch {payload : Bytes} {sport dport : UInt16} {isTcp : Bool}
    {ctx ctx' : Ctx} (hne : payload ≠ [])
    (h : dispatch payload sport dport isTcp ctx = .ok ctx') : ctx'.appDone = true := by
  unfold dispatch at h
  split at h
  · next hskip =>
    cases h
    exact hskip.resolve_right hne
  · obtain ⟨s, -, rfl⟩ := map_eq_ok_iff.mp h
    rfl

/-- A payload leaves the context as it was exactly when there is nothing left to do. -/
theorem payload_eq_self_iff (ctx : Ctx) (sport dport : UInt16) (c : Cur) :
    ctx.payload { isTcp := false, sport, dport } c = .ok ctx ↔ NothingLeft ctx c.rest := by
  have hpayload : ctx.payload { isTcp := false, sport, dport } c =
      dispatch c.rest sport dport false
        { ctx with
          pkt := { ctx.pkt with payload := payloadCols false c.rest ctx.pkt.payload } } := by
    unfold Ctx.payload
    exact if_neg fun h => Bool.noConfusion h.1
  rw [hpayload]
  constructor
  · intro h
    by_cases hnil : c.rest = []
    · refine .inl ⟨hnil, ?_⟩
      rw [hnil, dispatch, if_pos (.inr rfl), payloadCols_nil] at h
      have hctx := congrArg (fun ctx : Ctx => ctx.pkt.payload.udpPayloadLen) (Except.ok.inj h)
      exact hctx.symm
    · have hdone : ctx.appDone = true := appDone_of_dispatch hnil h
      rw [dispatch, if_pos (.inl hdone)] at h
      exact .inr ⟨hdone, congrArg (fun ctx : Ctx => ctx.pkt.payload) (Except.ok.inj h)⟩
  · intro h
    have hskip : ctx.appDone = true ∨ c.rest = [] := h.symm.imp And.left And.left
    have hcols : payloadCols false c.rest ctx.pkt.payload = ctx.pkt.payload := by
      obtain ⟨hnil, hlen⟩ | ⟨-, hcols⟩ := h
      · rw [hnil, payloadCols_nil, ← hlen]
      · exact hcols
    rw [dispatch, if_pos hskip, hcols]

/-- **A rejected payload is treated like any other exactly when nothing is left to record and
nothing to dispatch.** -/
theorem fallsThrough_iff_nothing_left {sport dport : UInt16} {d : Header Onward} {ctx : Ctx}
    {c : Cur}
    (h : Tunnel.tryUdpTunnel sport dport = some d) (hrej : d.Rejects c ctx.hdr) :
    FallsThrough ctx sport dport c ↔ NothingLeft ctx c.rest := by
  unfold FallsThrough
  rw [walk_of_rejects h hrej, eq_comm]
  exact payload_eq_self_iff ctx sport dport c

end Rejected

/-- A DNS query for the name `a`. -/
def dnsQuery : Bytes := [0, 1, 1, 0, 0, 1, 0, 0, 0, 0, 0, 0, 1, 97, 0, 0, 1, 0, 1]

theorem vxlan_rejects_dnsQuery : Tunnel.vxlan.Rejects (Cur.new dnsQuery) {} :=
  ⟨⟨.malformed, rfl⟩, rfl⟩

/-- The query is rejected, and a context that has seen no payload yet has everything left to do. -/
theorem fallsThrough_dnsQuery_iff :
    Tunnel.tryUdpTunnel 4789 53 = some Tunnel.vxlan ∧
      ∀ _ : Hashes, FallsThrough { pkt := {} } 4789 53 (Cur.new dnsQuery) ↔
        NothingLeft { pkt := {} } dnsQuery :=
  ⟨rfl, fun _ => fallsThrough_iff_nothing_left (d := Tunnel.vxlan) rfl vxlan_rejects_dnsQuery⟩

/-- **A DNS query from the source port 4789 is hidden**: neither its payload is recorded nor is it
dispatched. -/
theorem dnsQuery_hidden :
    Tunnel.tryUdpTunnel 4789 53 = some Tunnel.vxlan ∧
      Tunnel.vxlan.Rejects (Cur.new dnsQuery) {} ∧
      ∀ _ : Hashes, ¬ FallsThrough { pkt := {} } 4789 53 (Cur.new dnsQuery) := by
  refine ⟨rfl, vxlan_rejects_dnsQuery, fun _ h => ?_⟩
  unfold FallsThrough at h
  rw [walk_of_rejects (d := Tunnel.vxlan) rfl vxlan_rejects_dnsQuery, eq_comm,
    payload_eq_self_iff] at h
  obtain ⟨hnil, -⟩ | ⟨hdone, -⟩ := h
  · exact absurd hnil (List.cons_ne_nil _ _)
  · exact Bool.noConfusion hdone

end PcapRacer
