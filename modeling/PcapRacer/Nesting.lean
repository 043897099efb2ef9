/-
**How deep a frame can nest.**

Dissectors hand over to each other, and the hand-overs form cycles: an IP payload may be a tunnel
that carries a frame, and a VLAN tag may be followed by another one.  The cycles through a tunnel
are limited, because every tunnel takes one of `Tunnel.maxDepth` levels.  This module computes how
many layer names a walk can push, with the levels that are left as the only resource, and finds that
one cycle is not paid for: the one through the VLAN dissector.

The bound is computed like a cost.  `Header.Fits d φ b` says that the dissector `d` pushes few enough
names that a stock of `b` names, a function of the levels left, still contains what the potential
`φ` asks for its result.  The potential of a hop is the number of names that the rest of the walk
can push, as long as it meets no VLAN tag.

Main definitions:

* `Header.Quiet`, `Header.Fits` — dissectors that push nothing, and those that stay within a stock;
* `route` — the dissectors a walk calls one after the other;
* `potential` — what a hop may still cost;
* `Frame`, `Frame.layers`, `Frame.vlanHeaders` — a frame, its layer names, and its VLAN headers.

Main results:

* `hop_fits` — every hop stays within its potential, three names for a VLAN tag apart;
* `length_follow_le`, `count_vlan_le` — the two bounds for a whole walk;
* `nesting_bounded_iff` — **nesting is bounded on a family of frames exactly when the number of VLAN
  headers is**.
-/

import PcapRacer.PayloadRange

set_option relaxedAutoImplicit false
set_option autoImplicit false

namespace PcapRacer

namespace Header

variable {α β : Type}

/-! ### Quiet dissectors -/

/-- The dissector pushes no layer name and takes no level. -/
def Quiet (d : Header α) : Prop :=
  ∀ c s, (d.run c s).2.stack = s.stack ∧ (d.run c s).2.depth = s.depth

theorem quiet_pure (a : α) : Quiet (pure a : Header α) := fun _ _ => ⟨rfl, rfl⟩

theorem quiet_fail (e : DissectError) : Quiet (fail e : Header α) := fun _ _ => ⟨rfl, rfl⟩

theorem quiet_read (r : Read α) : Quiet (read r) := fun _ _ => ⟨rfl, rfl⟩

theorem quiet_take (n : ℕ) : Quiet (take n) := fun _ _ => ⟨rfl, rfl⟩

theorem quiet_confine (n : ℕ) : Quiet (confine n) := fun _ _ => ⟨rfl, rfl⟩

theorem quiet_cursor : Quiet cursor := fun _ _ => ⟨rfl, rfl⟩

theorem quiet_peekU8 : Quiet peekU8 := fun _ _ => ⟨rfl, rfl⟩

theorem quiet_get : Quiet get := fun _ _ => ⟨rfl, rfl⟩

theorem quiet_link (f : LinkCols → LinkCols) : Quiet (link f) := fun _ _ => ⟨rfl, rfl⟩

theorem quiet_net (f : NetCols → NetCols) : Quiet (net f) := fun _ _ => ⟨rfl, rfl⟩

theorem quiet_transport (f : TransportCols → TransportCols) : Quiet (transport f) :=
  fun _ _ => ⟨rfl, rfl⟩

theorem quiet_tunnel (f : TunnelCols → TunnelCols) : Quiet (tunnel f) := fun _ _ => ⟨rfl, rfl⟩

theorem quiet_tryRead (r : Read α) : Quiet (tryRead r) := by
  intro c s
  unfold tryRead
  dsimp only
  cases r.get c <;> exact ⟨rfl, rfl⟩

theorem quiet_tryTake (n : ℕ) : Quiet (tryTake n) := by
  intro c s
  unfold tryTake
  dsimp only
  cases c.take n <;> exact ⟨rfl, rfl⟩

theorem quiet_bind {d : Header α} {f : α → Header β} (hd : Quiet d) (hf : ∀ a, Quiet (f a)) :
    Quiet (d >>= f) := by
  intro c s
  have hrun := hd c s
  rw [run_bind]
  rcases hx : d.run c s with ⟨x, s'⟩
  rw [hx] at hrun
  cases x with
  | error e => exact hrun
  | ok p =>
      have hnext := hf p.1 p.2 s'
      exact ⟨hnext.1.trans hrun.1, hnext.2.trans hrun.2⟩

theorem quiet_skip (n : ℕ) : Quiet (skip n) := quiet_bind (quiet_take n) fun _ => quiet_pure ()

theorem quiet_trySkip (n : ℕ) : Quiet (trySkip n) :=
  quiet_bind (quiet_tryTake n) fun _ => quiet_pure ()

theorem quiet_remaining : Quiet remaining := quiet_bind quiet_cursor fun _ => quiet_pure _

theorem quiet_peek (n : ℕ) : Quiet (peek n) := quiet_bind quiet_cursor fun _ => quiet_pure _

/-! ### Dissectors within a stock -/

/-- The levels that are left. -/
def room (s : Hdr) : ℕ := Tunnel.maxDepth.toNat - s.depth.toNat

/-- What a result asks of the stock that is left; a failure asks nothing. -/
def asks (φ : α → ℕ → ℕ) (r : Except DissectError (α × Cur)) (s : Hdr) : ℕ :=
  match r with
  | .ok p => φ p.1 (room s)
  | .error _ => 0

/-- The dissector never takes a layer name off the stack, and with a stock of `b` names it has as
many left as its result asks for. -/
def Fits (d : Header α) (φ : α → ℕ → ℕ) (b : ℕ → ℕ) : Prop :=
  ∀ c s, s.depth ≤ Tunnel.maxDepth →
    s.stack.length ≤ (d.run c s).2.stack.length ∧ (d.run c s).2.depth ≤ Tunnel.maxDepth ∧
    (d.run c s).2.stack.length + asks φ (d.run c s).1 (d.run c s).2 ≤ s.stack.length + b (room s)

variable {φ : α → ℕ → ℕ} {ψ : β → ℕ → ℕ} {b b' : ℕ → ℕ}

theorem Fits.mono {d : Header α} (h : Fits d φ b) (hb : ∀ r, b r ≤ b' r) : Fits d φ b' := by
  intro c s hs
  obtain ⟨h₁, h₂, h₃⟩ := h c s hs
  exact ⟨h₁, h₂, Nat.le_trans h₃ (Nat.add_le_add_left (hb _) _)⟩

theorem fits_pure (a : α) : Fits (pure a : Header α) φ (φ a) := fun _ _ hs =>
  ⟨Nat.le_refl _, hs, Nat.le_refl _⟩

theorem fits_fail (e : DissectError) : Fits (fail e : Header α) φ b := fun _ _ hs =>
  ⟨Nat.le_refl _, hs, Nat.le_add_right _ _⟩

/-- A quiet dissector leaves the stock to what follows. -/
theorem fits_quiet_bind {d : Header α} {f : α → Header β} (hd : Quiet d)
    (hf : ∀ a, Fits (f a) ψ b) : Fits (d >>= f) ψ b := by
  intro c s hs
  obtain ⟨hstack, hdepth⟩ := hd c s
  rw [run_bind]
  rcases hx : d.run c s with ⟨x, s'⟩
  rw [hx] at hstack hdepth
  dsimp only at hstack hdepth
  cases x with
  | error e =>
      dsimp only
      rw [hstack, hdepth]
      exact ⟨Nat.le_refl _, hs, Nat.add_le_add_left (Nat.zero_le _) _⟩
  | ok p =>
      have hroom : room s' = room s := by rw [room, room, hdepth]
      obtain ⟨h₁, h₂, h₃⟩ := hf p.1 p.2 s' (by rwa [hdepth])
      rw [hstack] at h₁ h₃
      rw [hroom] at h₃
      exact ⟨h₁, h₂, h₃⟩

theorem fits_ite {p : Prop} [Decidable p] {x y : Header α} (hx : Fits x φ b) (hy : Fits y φ b) :
    Fits (if p then x else y) φ b := by
  split
  · exact hx
  · exact hy

/-- A layer name costs one. -/
theorem fits_layer_bind (l : Layer) {f : Unit → Header β} (hf : Fits (f ()) ψ b) :
    Fits (layer l >>= f) ψ (fun r => b r + 1) := by
  intro c s hs
  have hrun : (layer l >>= f).run c s = (f ()).run c { s with stack := s.stack ++ [l] } := rfl
  obtain ⟨h₁, h₂, h₃⟩ := hf c { s with stack := s.stack ++ [l] } hs
  rw [hrun]
  rw [List.length_append, List.length_singleton] at h₁ h₃
  have hroom : room { s with stack := s.stack ++ [l] } = room s := rfl
  rw [hroom] at h₃
  dsimp only
  exact ⟨by omega, h₂, by omega⟩

theorem promote_keeps (s : Hdr) :
    (Tunnel.promote s).stack = s.stack ∧ (Tunnel.promote s).depth = s.depth := by
  unfold Tunnel.promote
  split <;> exact ⟨rfl, rfl⟩

/-- Entering a tunnel fails at the cap, and takes a level and a name below it. -/
theorem enter_run (kind : Layer) (c : Cur) (s : Hdr) :
    (Tunnel.maxDepth ≤ s.depth ∧ (Tunnel.enter kind).run c s = (.error .depthExceeded, s)) ∨
      (¬ Tunnel.maxDepth ≤ s.depth ∧ ∃ s', (Tunnel.enter kind).run c s = (.ok ((), c), s') ∧
        s'.stack = s.stack ++ [kind] ∧ s'.depth = s.depth + 1) := by
  by_cases hfull : Tunnel.maxDepth ≤ s.depth
  · refine Or.inl ⟨hfull, ?_⟩
    have hdescend : Tunnel.descend.run c s = (.error .depthExceeded, s) := by
      rw [Tunnel.descend_run, if_pos hfull]
    unfold Tunnel.enter
    rw [run_bind, hdescend]
  · refine Or.inr ⟨hfull, ?_⟩
    have hdescend : Tunnel.descend.run c s = (.ok ((), c), { s with depth := s.depth + 1 }) := by
      rw [Tunnel.descend_run, if_neg hfull]
    obtain ⟨hstack, hdepth⟩ := promote_keeps { s with depth := s.depth + 1, stack := s.stack ++ [kind] }
    unfold Tunnel.enter
    rw [run_bind, hdescend]
    exact ⟨_, rfl, hstack, hdepth⟩

/-- Entering a tunnel takes a level and a name. -/
theorem fits_enter_bind (kind : Layer) {f : Unit → Header β} (hf : Fits (f ()) ψ b) :
    Fits (Tunnel.enter kind >>= f) ψ (fun r => if r = 0 then 0 else b (r - 1) + 1) := by
  intro c s hs
  rw [run_bind]
  obtain ⟨-, hrun⟩ | ⟨hlt, s', hrun, hstack, hdepth⟩ := enter_run kind c s
  · rw [hrun]
    exact ⟨Nat.le_refl _, hs, Nat.add_le_add_left (Nat.zero_le _) _⟩
  · rw [hrun]
    have hlt' : s.depth.toNat < Tunnel.maxDepth.toNat := by
      simpa [UInt8.le_iff_toNat_le] using hlt
    have hmax : Tunnel.maxDepth.toNat = 8 := rfl
    have hd : s'.depth.toNat = s.depth.toNat + 1 := by
      rw [hdepth, UInt8.toNat_add]
      exact Nat.mod_eq_of_lt (by rw [hmax] at hlt'; change s.depth.toNat + 1 < 256; omega)
    obtain ⟨h₁, h₂, h₃⟩ := hf c s' (by rw [UInt8.le_iff_toNat_le]; omega)
    have hroom : room s' = room s - 1 := by
      rw [room, room]
      omega
    have hpos : room s ≠ 0 := by
      rw [room]
      omega
    rw [hstack, List.length_append, List.length_singleton] at h₁ h₃
    rw [hroom] at h₃
    dsimp only
    rw [if_neg hpos]
    exact ⟨by omega, h₂, by omega⟩

end Header

open Header

/-! ### What a hop may cost -/

/-- The number of names that the rest of a walk may push with `r` levels left, as long as it meets
no VLAN tag. -/
def potential : Onward → ℕ → ℕ
  | .done, _ => 0
  | .payload _, _ => 0
  | .hop .ipv4, r => 7 * r + 2
  | .hop .ipv6, r => 7 * r + 2
  | .hop .mpls, r => 7 * r + 3
  | .hop .pppoe, r => 7 * r + 3
  | .hop .vlan, r => 7 * r + 3
  | .hop .llc, r => 7 * r + 5
  | .hop .ethernet, r => 7 * r + 6

/-- Handing over costs what the next hop may cost. -/
theorem fits_return {o : Onward} {b : ℕ → ℕ} (h : ∀ r, potential o r ≤ b r) :
    Fits (pure o : Header Onward) potential b := (fits_pure o).mono h

/-- A tunnel with anything in it pays for itself with its level. -/
theorem fits_enter {kind : Layer} {f : Unit → Header Onward}
    (hf : Fits (f ()) potential fun r => 7 * r + 6) :
    Fits (Tunnel.enter kind >>= f) potential fun r => 7 * r := by
  refine (fits_enter_bind kind hf).mono fun r => ?_
  split <;> omega

/-! ### The link layer -/

section Link

open Link

theorem fits_arp : Fits arp potential fun _ => 1 := by
  unfold arp
  refine fits_layer_bind (b := fun _ => 0) _ ?_
  iterate 5 refine fits_quiet_bind (quiet_read _) fun _ => ?_
  refine fits_quiet_bind (quiet_link _) fun _ => ?_
  refine fits_ite ?_ (fits_return fun _ => Nat.le_refl _)
  iterate 4 refine fits_quiet_bind (quiet_read _) fun _ => ?_
  refine fits_quiet_bind (quiet_link _) fun _ => ?_
  exact fits_return fun _ => Nat.le_refl _

theorem fits_ethertypePayload (ethertype : UInt16) :
    Fits (ethertypePayload ethertype) potential fun r => 7 * r + 3 := by
  unfold ethertypePayload
  split
  · exact fits_return fun r => by simp only [potential]; omega
  · exact fits_return fun r => by simp only [potential]; omega
  · exact fits_arp.mono fun r => by omega
  · exact fits_arp.mono fun r => by omega
  · exact fits_return fun r => Nat.le_refl _
  · exact fits_return fun r => Nat.le_refl _
  · exact fits_return fun r => Nat.le_refl _
  · exact fits_return fun r => Nat.le_refl _
  · exact fits_return fun r => Nat.le_refl _
  · exact fits_return fun r => Nat.le_refl _
  · exact (fits_layer_bind _ (fits_return fun _ => Nat.le_refl 0)).mono fun r => by omega
  · exact (fits_layer_bind _ (fits_return fun _ => Nat.le_refl 0)).mono fun r => by omega
  · exact fits_fail _

theorem fits_typeOrLength (ethertype : UInt16) :
    Fits (typeOrLength ethertype) potential fun r => 7 * r + 5 :=
  fits_ite (fits_return fun _ => Nat.le_refl _)
    ((fits_ethertypePayload ethertype).mono fun r => by omega)

theorem fits_rawIp : Fits rawIp potential fun r => 7 * r + 2 := by
  refine fits_quiet_bind quiet_peekU8 fun b => ?_
  split
  · exact fits_return fun _ => Nat.le_refl _
  · exact fits_return fun _ => Nat.le_refl _
  · exact fits_fail _

theorem fits_pppPayload (proto : UInt16) :
    Fits (pppPayload proto) potential fun r => 7 * r + 2 := by
  unfold pppPayload
  split
  · exact fits_return fun _ => Nat.le_refl _
  · exact fits_return fun _ => Nat.le_refl _
  · exact fits_fail _

theorem fits_ethernet : Fits ethernet potential fun r => 7 * r + 6 := by
  refine fits_layer_bind _ ?_
  iterate 3 refine fits_quiet_bind (quiet_read _) fun _ => ?_
  exact fits_quiet_bind (quiet_link _) fun _ => fits_typeOrLength _

/-- The VLAN dissector pushes its name, and then goes on as after an Ethernet header. -/
theorem vlan_opens : ∃ f : Unit → Header Onward, vlan = (Header.layer .vlan >>= f) ∧
    Fits (f ()) potential fun r => 7 * r + 5 := by
  refine ⟨_, rfl, ?_⟩
  refine fits_quiet_bind (quiet_read _) fun _ => fits_quiet_bind quiet_get fun _ => ?_
  refine fits_ite ?_ ?_
  · refine fits_quiet_bind (quiet_link _) fun _ => fits_quiet_bind (quiet_read _) fun _ => ?_
    exact fits_typeOrLength _
  · refine fits_quiet_bind (quiet_link _) fun _ => fits_quiet_bind (quiet_read _) fun _ => ?_
    exact fits_typeOrLength _

/-- A VLAN tag may be followed by anything, another tag included: it costs three names more than
its potential. -/
theorem fits_vlan : Fits vlan potential fun r => 7 * r + 6 := by
  obtain ⟨f, heq, hf⟩ := vlan_opens
  rw [heq]
  exact fits_layer_bind _ hf

theorem quiet_mplsLabel (w : UInt32) : Quiet (mplsLabel w) := by
  refine quiet_bind quiet_get fun s => ?_
  split
  · exact quiet_link _
  · exact quiet_pure _

theorem quiet_mplsLabels (rounds : ℕ) : Quiet (mplsLabels rounds) := by
  induction rounds with
  | zero => exact quiet_fail _
  | succ rounds ih =>
      refine quiet_bind (quiet_read _) fun w => quiet_bind (quiet_mplsLabel w) fun _ => ?_
      split
      · exact quiet_pure _
      · exact ih

theorem fits_mpls : Fits mpls potential fun r => 7 * r + 3 := by
  refine fits_layer_bind _ ?_
  refine fits_quiet_bind (quiet_read _) fun w => fits_quiet_bind (quiet_mplsLabel w) fun _ => ?_
  refine fits_ite ?_ fits_rawIp
  refine fits_quiet_bind quiet_remaining fun n => ?_
  exact fits_quiet_bind (quiet_mplsLabels _) fun _ => fits_rawIp

theorem fits_pppoe : Fits pppoe potential fun r => 7 * r + 3 := by
  refine fits_layer_bind _ ?_
  iterate 3 refine fits_quiet_bind (quiet_read _) fun _ => ?_
  refine fits_quiet_bind (quiet_link _) fun _ => ?_
  iterate 2 refine fits_quiet_bind (quiet_read _) fun _ => ?_
  exact fits_quiet_bind (quiet_link _) fun _ => fits_pppPayload _

theorem fits_llc : Fits llc potential fun r => 7 * r + 5 := by
  refine fits_layer_bind _ ?_
  iterate 3 refine fits_quiet_bind (quiet_read _) fun _ => ?_
  refine fits_quiet_bind (quiet_link _) fun _ => ?_
  refine fits_ite ?_ (fits_return fun r => Nat.zero_le _)
  refine fits_layer_bind _ ?_
  iterate 2 refine fits_quiet_bind (quiet_read _) fun _ => ?_
  refine fits_quiet_bind (quiet_link _) fun _ => ?_
  refine fits_ite ?_ (fits_return fun r => Nat.zero_le _)
  exact fits_ethertypePayload _

/-! ### Link types -/

theorem fits_linuxSll : Fits linuxSll potential fun r => 7 * r + 4 := by
  refine fits_layer_bind _ ?_
  iterate 3 refine fits_quiet_bind (quiet_read _) fun _ => ?_
  refine fits_quiet_bind (quiet_take _) fun _ => ?_
  refine fits_ite (fits_quiet_bind (quiet_link _) fun _ => ?_) ?_
  · refine fits_quiet_bind (quiet_read _) fun _ => fits_quiet_bind (quiet_link _) fun _ => ?_
    exact fits_ethertypePayload _
  · refine fits_quiet_bind (quiet_read _) fun _ => fits_quiet_bind (quiet_link _) fun _ => ?_
    exact fits_ethertypePayload _

theorem fits_linuxSll2 : Fits linuxSll2 potential fun r => 7 * r + 4 := by
  refine fits_layer_bind _ ?_
  iterate 3 refine fits_quiet_bind (quiet_read _) fun _ => ?_
  refine fits_quiet_bind (fun _ _ => ⟨rfl, rfl⟩) fun _ => ?_
  iterate 3 refine fits_quiet_bind (quiet_read _) fun _ => ?_
  refine fits_quiet_bind (quiet_take _) fun _ => ?_
  refine fits_ite (fits_quiet_bind (quiet_link _) fun _ => ?_) ?_
  · exact fits_quiet_bind (quiet_link _) fun _ => fits_ethertypePayload _
  · exact fits_quiet_bind (quiet_link _) fun _ => fits_ethertypePayload _

theorem quiet_wlanSsid : Quiet wlanSsid := by
  refine quiet_bind (quiet_tryRead _) fun tag => ?_
  split
  · split
    · refine quiet_bind (quiet_tryRead _) fun len => ?_
      split
      · refine quiet_bind (quiet_tryTake _) fun ssid => ?_
        split
        · exact quiet_link _
        · exact quiet_pure _
      · exact quiet_pure _
    · exact quiet_pure _
  · exact quiet_pure _

theorem fits_ieee80211 : Fits ieee80211 potential fun r => 7 * r + 6 := by
  refine fits_layer_bind _ ?_
  refine fits_quiet_bind (quiet_read _) fun fc => fits_quiet_bind (quiet_link _) fun _ => ?_
  iterate 5 refine fits_quiet_bind (quiet_read _) fun _ => ?_
  refine fits_quiet_bind (quiet_link _) fun _ => ?_
  have hdone : Fits (do wlanSsid; return .done) potential fun r => 7 * r + 5 :=
    fits_quiet_bind quiet_wlanSsid fun _ => fits_return fun r => Nat.zero_le _
  have hllc : Fits (return .hop .llc) potential fun r => 7 * r + 5 :=
    fits_return fun _ => Nat.le_refl _
  refine fits_ite (fits_ite (fits_quiet_bind (quiet_trySkip _) fun _ => hdone) hdone) ?_
  refine fits_ite (fits_ite (fits_quiet_bind (quiet_skip _) fun _ => hllc) hllc) ?_
  exact fits_return fun r => Nat.zero_le _

theorem fits_radiotap : Fits radiotap potential fun r => 7 * r + 7 := by
  refine fits_layer_bind _ ?_
  iterate 3 refine fits_quiet_bind (quiet_read _) fun _ => ?_
  refine fits_ite (fits_quiet_bind (quiet_fail _) fun _ => ?_) ?_
  · exact fits_quiet_bind (quiet_skip _) fun _ => fits_ieee80211
  · exact fits_quiet_bind (quiet_skip _) fun _ => fits_ieee80211

theorem fits_loopback : Fits loopback potential fun r => 7 * r + 3 := by
  refine fits_quiet_bind (quiet_read _) fun af => fits_layer_bind _ ?_
  split
  · exact fits_return fun _ => Nat.le_refl _
  · exact fits_return fun _ => Nat.le_refl _
  · exact fits_return fun _ => Nat.le_refl _
  · exact fits_return fun _ => Nat.le_refl _
  · exact fits_fail _

theorem fits_ppp : Fits ppp potential fun r => 7 * r + 3 := by
  refine fits_layer_bind _ (fits_quiet_bind (quiet_read _) fun _ => ?_)
  exact fits_quiet_bind (quiet_link _) fun _ => fits_pppPayload _

theorem fits_dissectLink (linktype : UInt16) :
    Fits (dissectLink linktype) potential fun r => 7 * r + 7 := by
  unfold dissectLink
  split
  · exact fits_return fun r => Nat.le_succ _
  · exact fits_rawIp.mono fun r => by omega
  · exact fits_rawIp.mono fun r => by omega
  · exact fits_rawIp.mono fun r => by omega
  · exact fits_loopback.mono fun r => by omega
  · exact fits_loopback.mono fun r => by omega
  · exact fits_linuxSll.mono fun r => by omega
  · exact fits_linuxSll2.mono fun r => by omega
  · exact fits_ppp.mono fun r => by omega
  · exact fits_ieee80211.mono fun r => by omega
  · exact fits_radiotap
  · exact fits_fail _

end Link

/-! ### Tunnels -/

section Tunnel

open Tunnel

theorem fits_erspan (proto : UInt16) : Fits (erspan proto) potential fun r => 7 * r := by
  refine fits_enter (fits_quiet_bind (quiet_read _) fun _ => ?_)
  have hnext : Fits (return .hop .ethernet) potential fun r => 7 * r + 6 :=
    fits_return fun _ => Nat.le_refl _
  refine fits_ite (fits_quiet_bind (quiet_tunnel _) fun _ => hnext) ?_
  exact fits_quiet_bind (quiet_tunnel _) fun _ => fits_quiet_bind (quiet_skip _) fun _ => hnext

theorem fits_gre : Fits gre potential fun r => 7 * r := by
  refine fits_quiet_bind (quiet_read _) fun flags => fits_quiet_bind (quiet_read _) fun proto => ?_
  refine fits_quiet_bind (quiet_tunnel _) fun _ => ?_
  -- the three optional fields, each there or not
  refine fits_ite (fits_quiet_bind (quiet_skip _) fun _ => ?_) ?_
  all_goals refine fits_ite (fits_quiet_bind (quiet_read _) fun _ =>
    fits_quiet_bind (quiet_tunnel _) fun _ => ?_) ?_
  all_goals refine fits_ite (fits_quiet_bind (quiet_read _) fun _ =>
    fits_quiet_bind (quiet_tunnel _) fun _ => ?_) ?_
  all_goals refine fits_ite (fits_erspan proto) (fits_enter ?_)
  all_goals
    split
    · exact fits_return fun r => by simp only [potential]; omega
    · exact fits_return fun r => by simp only [potential]; omega
    · exact fits_return fun _ => Nat.le_refl _
    · exact fits_return fun _ => Nat.zero_le _
    · exact fits_fail _

theorem fits_ipInIp (innerIsV6 : Bool) : Fits (ipInIp innerIsV6) potential fun r => 7 * r := by
  refine fits_enter (fits_return fun r => ?_)
  cases innerIsV6 <;> simp only [Bool.false_eq_true, if_true, if_false, potential] <;> omega

theorem fits_vxlan : Fits vxlan potential fun r => 7 * r := by
  refine fits_quiet_bind (quiet_read _) fun flags => fits_quiet_bind (quiet_skip _) fun _ => ?_
  refine fits_quiet_bind (quiet_read _) fun vniRes => ?_
  have hin : Fits (do
      enter .vxlan
      tunnel fun t => { t with vxlanVni := some (vniRes >>> 8) }
      return .hop .ethernet) potential fun r => 7 * r :=
    fits_enter (fits_quiet_bind (quiet_tunnel _) fun _ => fits_return fun _ => Nat.le_refl _)
  exact fits_ite (fits_quiet_bind (quiet_fail _) fun _ => hin) hin

theorem fits_geneve : Fits geneve potential fun r => 7 * r := by
  refine fits_quiet_bind (quiet_read _) fun verOptlen => ?_
  iterate 3 refine fits_quiet_bind (quiet_read _) fun _ => ?_
  refine fits_enter (fits_quiet_bind (quiet_tunnel _) fun _ => ?_)
  refine fits_quiet_bind (quiet_skip _) fun _ => ?_
  split
  · exact fits_return fun _ => Nat.le_refl _
  · exact fits_return fun r => by simp only [potential]; omega
  · exact fits_return fun r => by simp only [potential]; omega
  · exact fits_fail _

theorem quiet_gtpExtensions (guard : ℕ) (next : UInt8) : Quiet (gtpExtensions guard next) := by
  induction guard generalizing next with
  | zero =>
      unfold gtpExtensions
      split
      · exact quiet_pure _
      · exact quiet_fail _
  | succ guard ih =>
      unfold gtpExtensions
      split
      · exact quiet_pure _
      · refine quiet_bind (quiet_read _) fun len => ?_
        have hrest : Quiet (do
            skip (len.toNat * 4 - 2)
            let next ← read .u8
            gtpExtensions guard next) :=
          quiet_bind (quiet_skip _) fun _ => quiet_bind (quiet_read _) fun next => ih next
        dsimp only
        split
        · exact quiet_bind (quiet_fail _) fun _ => hrest
        · exact hrest

theorem fits_gtp : Fits gtp potential fun r => 7 * r := by
  iterate 4 refine fits_quiet_bind (quiet_read _) fun _ => ?_
  refine fits_enter (fits_quiet_bind (quiet_tunnel _) fun _ => ?_)
  have hraw : Fits Link.rawIp potential fun r => 7 * r + 6 := fits_rawIp.mono fun r => by omega
  refine fits_ite ?_ (fits_ite (fits_return fun r => Nat.zero_le _) hraw)
  refine fits_quiet_bind (quiet_skip _) fun _ => fits_quiet_bind (quiet_read _) fun next => ?_
  refine fits_quiet_bind (quiet_gtpExtensions _ _) fun _ => ?_
  exact fits_ite (fits_return fun r => Nat.zero_le _) hraw

theorem fits_l2tp : Fits l2tp potential fun r => 7 * r := by
  refine fits_quiet_bind (quiet_read _) fun flags => fits_enter ?_
  have hppp : Fits (do
      let proto ← read .be16
      link fun l => { l with pppProtocol := some proto }
      Link.pppPayload proto) potential fun r => 7 * r + 6 := by
    refine fits_quiet_bind (quiet_read _) fun proto => fits_quiet_bind (quiet_link _) fun _ => ?_
    exact (fits_pppPayload proto).mono fun r => by omega
  -- the optional length, then the identifiers, then the optional fields of a data message
  refine fits_ite (fits_quiet_bind (quiet_skip _) fun _ => ?_) ?_
  all_goals refine fits_quiet_bind (quiet_read _) fun _ => ?_
  all_goals refine fits_quiet_bind (quiet_tunnel _) fun _ => ?_
  all_goals refine fits_quiet_bind (quiet_read _) fun _ => ?_
  all_goals refine fits_quiet_bind (quiet_tunnel _) fun _ => ?_
  all_goals refine fits_ite (fits_return fun r => Nat.zero_le _) ?_
  all_goals refine fits_ite (fits_quiet_bind (quiet_skip _) fun _ => ?_) ?_
  all_goals refine fits_ite (fits_quiet_bind (quiet_skip _) fun _ => ?_) ?_
  all_goals refine fits_quiet_bind (quiet_peek _) fun _ => ?_
  all_goals exact fits_ite (fits_quiet_bind (quiet_skip _) fun _ => hppp) hppp

theorem quiet_teredoIndicators (rounds : ℕ) : Quiet (teredoIndicators rounds) := by
  induction rounds with
  | zero => exact quiet_pure _
  | succ rounds ih =>
      refine quiet_bind (quiet_peek _) fun head => ?_
      split
      · refine quiet_bind (quiet_skip _) fun _ => quiet_bind (quiet_read _) fun _ => ?_
        exact quiet_bind (quiet_read _) fun _ => quiet_bind (quiet_skip _) fun _ => ih
      · exact quiet_bind (quiet_skip _) fun _ => ih
      · exact quiet_pure _

theorem fits_teredo : Fits teredo potential fun r => 7 * r := by
  refine fits_quiet_bind quiet_remaining fun n => ?_
  refine fits_quiet_bind (quiet_teredoIndicators _) fun _ => ?_
  refine fits_quiet_bind quiet_peekU8 fun b => ?_
  have hin : Fits (do
      enter .teredo
      tunnel fun t => { t with teredoPresent := some true }
      return .hop .ipv6) potential fun r => 7 * r :=
    fits_enter (fits_quiet_bind (quiet_tunnel _) fun _ => fits_return fun r => by
      simp only [potential]
      omega)
  exact fits_ite (fits_quiet_bind (quiet_fail _) fun _ => hin) hin

theorem fits_tryUdpTunnel {sport dport : UInt16} {d : Header Onward}
    (h : tryUdpTunnel sport dport = some d) : Fits d potential fun r => 7 * r := by
  unfold tryUdpTunnel at h
  split at h
  · cases h
    exact fits_vxlan
  · split at h
    · cases h
      exact fits_geneve
    · split at h
      · cases h
        exact fits_gtp
      · split at h
        · cases h
          exact fits_l2tp
        · split at h
          · cases h
            exact fits_teredo
          · cases h

end Tunnel

/-! ### Transport and network -/

theorem quiet_setTuple (src dst : IpAddr) (sport dport : UInt16) (proto : UInt8) :
    Quiet (Transport.setTuple src dst sport dport proto) := fun _ _ => ⟨rfl, rfl⟩

theorem fits_tcp (src dst : IpAddr) : Fits (Transport.tcp src dst) potential fun _ => 1 := by
  refine fits_layer_bind (b := fun _ => 0) _ ?_
  iterate 8 refine fits_quiet_bind (quiet_read _) fun _ => ?_
  refine fits_quiet_bind (quiet_transport _) fun _ => ?_
  refine fits_quiet_bind (quiet_setTuple _ _ _ _ _) fun _ => ?_
  refine fits_quiet_bind quiet_remaining fun _ => ?_
  refine fits_ite ?_ (fits_return fun _ => Nat.le_refl _)
  refine fits_quiet_bind (quiet_take _) fun _ => fits_quiet_bind (quiet_transport _) fun _ => ?_
  exact fits_return fun _ => Nat.le_refl _

theorem fits_udpPayload (sport dport : UInt16) :
    Fits (Transport.udpPayload sport dport) potential fun r => 7 * r := by
  unfold Transport.udpPayload
  split
  · next d h => exact fits_tryUdpTunnel h
  · exact fits_return fun _ => Nat.zero_le _

theorem fits_udp (src dst : IpAddr) (proto : UInt8) :
    Fits (Transport.udp src dst proto) potential fun r => 7 * r + 1 := by
  refine fits_layer_bind _ ?_
  iterate 4 refine fits_quiet_bind (quiet_read _) fun _ => ?_
  refine fits_quiet_bind (quiet_transport _) fun _ => ?_
  refine fits_quiet_bind (quiet_setTuple _ _ _ _ _) fun _ => ?_
  refine fits_quiet_bind quiet_remaining fun _ => ?_
  refine fits_ite ?_ (fits_udpPayload _ _)
  exact fits_quiet_bind (quiet_confine _) fun _ => fits_udpPayload _ _

theorem fits_sctp (src dst : IpAddr) : Fits (Transport.sctp src dst) potential fun _ => 1 := by
  refine fits_layer_bind (b := fun _ => 0) _ ?_
  iterate 4 refine fits_quiet_bind (quiet_read _) fun _ => ?_
  refine fits_quiet_bind (quiet_transport _) fun _ => ?_
  refine fits_quiet_bind (quiet_setTuple _ _ _ _ _) fun _ => ?_
  refine fits_quiet_bind quiet_cursor fun _ => ?_
  refine fits_ite (fits_quiet_bind (quiet_transport _) fun _ => ?_) ?_
  · exact fits_return fun _ => Nat.le_refl _
  · exact fits_return fun _ => Nat.le_refl _

section Network

open Network

theorem quiet_icmpEcho : Quiet icmpEcho := by
  refine quiet_bind (quiet_read _) fun _ => quiet_bind (quiet_net _) fun _ => ?_
  exact quiet_bind (quiet_read _) fun _ => quiet_net _

/-- A dissector that pushes its own name and ends the walk. -/
theorem fits_done {d : Header Unit} (h : Quiet d) :
    Fits (do d; return .done) potential fun _ => 0 :=
  fits_quiet_bind h fun _ => fits_return fun _ => Nat.le_refl _

theorem fits_icmp : Fits icmp potential fun _ => 1 := by
  refine fits_layer_bind (b := fun _ => 0) _ ?_
  iterate 3 refine fits_quiet_bind (quiet_read _) fun _ => ?_
  refine fits_quiet_bind (quiet_net _) fun _ => ?_
  refine fits_ite (fits_done quiet_icmpEcho) (fits_ite ?_ (fits_ite ?_ ?_))
  · iterate 2 refine fits_quiet_bind (quiet_read _) fun _ => ?_
    exact fits_done (quiet_net _)
  · exact fits_quiet_bind (quiet_read _) fun _ => fits_done (quiet_net _)
  · exact fits_return fun _ => Nat.le_refl _

theorem quiet_ndOption : Quiet ndOption := by
  refine quiet_bind (quiet_tryRead _) fun _ => quiet_bind (quiet_tryRead _) fun _ => ?_
  split
  · refine quiet_bind (quiet_tryRead _) fun m => ?_
    split
    · exact quiet_net _
    · exact quiet_pure _
  · exact quiet_pure _

theorem fits_icmpv6 : Fits icmpv6 potential fun _ => 1 := by
  refine fits_layer_bind (b := fun _ => 0) _ ?_
  iterate 3 refine fits_quiet_bind (quiet_read _) fun _ => ?_
  refine fits_quiet_bind (quiet_net _) fun _ => ?_
  refine fits_ite (fits_done quiet_icmpEcho) (fits_ite ?_ ?_)
  · iterate 2 refine fits_quiet_bind (quiet_read _) fun _ => ?_
    exact fits_quiet_bind (quiet_net _) fun _ => fits_done quiet_ndOption
  · exact fits_return fun _ => Nat.le_refl _

theorem fits_igmp : Fits igmp potential fun _ => 1 := by
  refine fits_layer_bind (b := fun _ => 0) _ ?_
  iterate 2 refine fits_quiet_bind (quiet_read _) fun _ => fits_quiet_bind (quiet_net _) fun _ => ?_
  iterate 2 refine fits_quiet_bind (quiet_read _) fun _ => ?_
  exact fits_done (quiet_net _)

theorem fits_esp : Fits esp potential fun _ => 1 := by
  refine fits_layer_bind (b := fun _ => 0) _ ?_
  refine fits_quiet_bind (quiet_read _) fun _ => fits_quiet_bind (quiet_net _) fun _ => ?_
  exact fits_quiet_bind (quiet_read _) fun _ => fits_done (quiet_net _)

theorem fits_named (l : Layer) : Fits (named l) potential fun _ => 1 :=
  fits_layer_bind (b := fun _ => 0) _ (fits_return fun _ => Nat.le_refl _)

theorem fits_dispatchIpProto (proto : UInt8) (src dst : IpAddr) :
    Fits (dispatchIpProto proto src dst) potential fun r => 7 * r + 1 := by
  refine fits_quiet_bind (quiet_setTuple _ _ _ _ _) fun _ => ?_
  split
  · exact (fits_tcp src dst).mono fun r => by omega
  · exact fits_udp src dst proto
  · exact fits_udp src dst proto
  · exact (fits_sctp src dst).mono fun r => by omega
  · exact fits_icmp.mono fun r => by omega
  · exact fits_icmpv6.mono fun r => by omega
  · exact fits_igmp.mono fun r => by omega
  · exact fits_gre.mono fun r => by omega
  · exact (fits_ipInIp false).mono fun r => by omega
  · exact (fits_ipInIp true).mono fun r => by omega
  · exact fits_esp.mono fun r => by omega
  · exact (fits_named _).mono fun r => by omega
  · exact (fits_named _).mono fun r => by omega
  · exact (fits_named _).mono fun r => by omega
  · exact fits_fail _

/-- An IP header pushes its name; what it carries may cost as much as a tunnel and one name more. -/
theorem fits_ipv4 : Fits ipv4 (fun _ r => 7 * r + 1) fun r => 7 * r + 2 := by
  refine fits_layer_bind _ (fits_quiet_bind (quiet_read _) fun verIhl => ?_)
  have hdatagram : ∀ d : Datagram, Fits (pure d : Header Datagram) (fun _ r => 7 * r + 1)
      fun r => 7 * r + 1 := fun d => fits_pure d
  -- both checks of the first byte fail, or go on with the same reads
  refine fits_ite (fits_quiet_bind (quiet_fail _) fun _ => ?_) ?_
  all_goals refine fits_ite (fits_quiet_bind (quiet_fail _) fun _ => ?_) ?_
  all_goals iterate 9 refine fits_quiet_bind (quiet_read _) fun _ => ?_
  all_goals refine fits_quiet_bind (quiet_net _) fun _ => ?_
  all_goals refine fits_ite (fits_quiet_bind (quiet_take _) fun _ =>
    fits_quiet_bind (quiet_net _) fun _ => ?_) ?_
  all_goals refine fits_quiet_bind quiet_remaining fun _ => ?_
  all_goals exact fits_ite (fits_quiet_bind (quiet_confine _) fun _ => hdatagram _) (hdatagram _)

theorem quiet_extensionChain (guard : ℕ) (chain : ExtChain) :
    Quiet (extensionChain guard chain) := by
  induction guard generalizing chain with
  | zero => exact quiet_fail _
  | succ guard ih =>
      unfold extensionChain
      split
      · iterate 2 refine quiet_bind (quiet_read _) fun _ => ?_
        exact quiet_bind (quiet_skip _) fun _ => ih _
      · split
        · iterate 4 refine quiet_bind (quiet_read _) fun _ => ?_
          exact quiet_bind (quiet_net _) fun _ => ih _
        · split
          · iterate 2 refine quiet_bind (quiet_read _) fun _ => ?_
            exact quiet_bind (quiet_skip _) fun _ => ih _
          · exact quiet_pure _

theorem fits_ipv6 : Fits ipv6 (fun _ r => 7 * r + 1) fun r => 7 * r + 2 := by
  refine fits_layer_bind _ (fits_quiet_bind (quiet_read _) fun w => ?_)
  refine fits_ite (fits_quiet_bind (quiet_fail _) fun _ => ?_) ?_
  all_goals iterate 5 refine fits_quiet_bind (quiet_read _) fun _ => ?_
  all_goals refine fits_quiet_bind (quiet_net _) fun _ => ?_
  all_goals refine fits_quiet_bind (quiet_extensionChain _ _) fun chain => ?_
  all_goals refine fits_ite (fits_quiet_bind (quiet_net _) fun _ => ?_) ?_
  all_goals exact fits_quiet_bind (quiet_net _) fun _ => fits_pure _

end Network

/-! ### Hops -/

/-- A hop takes no name off the stack, and with a stock of `b` names it leaves what the next hop may
cost. -/
def Taken.Fits (t : Taken) (s : Hdr) (b : ℕ) : Prop :=
  s.stack.length ≤ t.hdr.stack.length ∧ t.hdr.depth ≤ Tunnel.maxDepth ∧
    t.hdr.stack.length + asks potential t.next t.hdr ≤ s.stack.length + b

theorem taken_fits {d : Header Onward} {b : ℕ → ℕ} (h : Header.Fits d potential b) (c : Cur)
    {s : Hdr} (hs : s.depth ≤ Tunnel.maxDepth) (frag : Option FragMeta) :
    (d.taken c s frag).Fits s (b (room s)) := h c s hs

theorem afterIp_fits (d : Datagram) (c : Cur) {s : Hdr} (hs : s.depth ≤ Tunnel.maxDepth)
    (frag : Option FragMeta) : (afterIp d c s frag).Fits s (7 * room s + 1) := by
  unfold afterIp
  dsimp only
  split
  · refine ⟨?_, hs, ?_⟩
    · rw [List.length_append]
      omega
    · rw [List.length_append, List.length_singleton]
      simp only [asks, potential]
      omega
  · exact taken_fits (fits_dispatchIpProto _ _ _) c hs _

theorem ip_fits {header : Header Datagram}
    (h : Header.Fits header (fun _ r => 7 * r + 1) fun r => 7 * r + 2) (c : Cur) {s : Hdr}
    (hs : s.depth ≤ Tunnel.maxDepth) (frag : Option FragMeta) :
    (ip header c s frag).Fits s (7 * room s + 2) := by
  obtain ⟨h₁, h₂, h₃⟩ := h c s hs
  unfold ip
  rcases hx : header.run c s with ⟨x, s'⟩
  rw [hx] at h₁ h₂ h₃
  dsimp only at h₁ h₂ h₃
  cases x with
  | error e => exact ⟨h₁, h₂, h₃⟩
  | ok p =>
      obtain ⟨g₁, g₂, g₃⟩ := afterIp_fits p.1 p.2 h₂ frag
      dsimp only [asks] at h₃ ⊢
      exact ⟨by omega, g₂, by omega⟩

/-- What a hop costs beyond its potential: three names for a VLAN tag, nothing else. -/
def surplus (h : Hop) : ℕ := if h = .vlan then 3 else 0

/-- **Every hop stays within its potential**, three names for a VLAN tag apart. -/
theorem hop_fits (h : Hop) (c : Cur) {s : Hdr} (hs : s.depth ≤ Tunnel.maxDepth)
    (frag : Option FragMeta) :
    (hop h c s frag).Fits s (potential (.hop h) (room s) + surplus h) := by
  cases h with
  | ethernet => exact taken_fits fits_ethernet c hs frag
  | llc => exact taken_fits fits_llc c hs frag
  | vlan => exact taken_fits fits_vlan c hs frag
  | mpls => exact taken_fits fits_mpls c hs frag
  | pppoe => exact taken_fits fits_pppoe c hs frag
  | ipv4 => exact ip_fits fits_ipv4 c hs frag
  | ipv6 => exact ip_fits fits_ipv6 c hs frag

/-- A VLAN tag does push a name. -/
theorem vlan_pushes (c : Cur) {s : Hdr} (hs : s.depth ≤ Tunnel.maxDepth) (frag : Option FragMeta) :
    s.stack.length + 1 ≤ (hop .vlan c s frag).hdr.stack.length := by
  obtain ⟨f, heq, hf⟩ := vlan_opens
  have hrun : (hop .vlan c s frag).hdr = ((f ()).run c { s with stack := s.stack ++ [.vlan] }).2 := by
    change (Link.vlan.run c s).2 = _
    rw [heq]
    rfl
  obtain ⟨h₁, -, -⟩ := hf c { s with stack := s.stack ++ [.vlan] } hs
  rw [List.length_append, List.length_singleton] at h₁
  rw [hrun]
  exact h₁

/-! ### Walks -/

/-- The dissectors that a walk calls one after the other. -/
def route : ℕ → Onward → Cur → Hdr → Option FragMeta → List Hop
  | rounds + 1, .hop h, c, s, frag =>
      h :: match (hop h c s frag).next with
        | .error _ => []
        | .ok (o, c') => route rounds o c' (hop h c s frag).hdr (hop h c s frag).frag
  | _, _, _, _, _ => []

/-- **The names a walk pushes**: what its first hop may cost, and three for each VLAN tag. -/
theorem length_follow_le (rounds : ℕ) (o : Onward) (c : Cur) {s : Hdr}
    (hs : s.depth ≤ Tunnel.maxDepth) (frag : Option FragMeta) :
    (follow rounds o c s frag).hdr.stack.length ≤
      s.stack.length + potential o (room s) + 3 * (route rounds o c s frag).count .vlan := by
  induction rounds generalizing o c s frag with
  | zero =>
      cases o <;> simp only [follow] <;> omega
  | succ rounds ih =>
      cases o with
      | done => simp only [follow]; omega
      | payload p => simp only [follow]; omega
      | hop h =>
          obtain ⟨-, h₂, h₃⟩ := hop_fits h c hs frag
          have hcount : ∀ l : List Hop, 3 * (h :: l).count .vlan = 3 * l.count .vlan + surplus h := by
            intro l
            rw [List.count_cons, surplus]
            by_cases hv : h = .vlan
            · simp [hv]
              omega
            · simp [hv]
          cases hx : (hop h c s frag).next with
          | error e =>
              rw [hx] at h₃
              simp only [follow, route, hx, hcount, asks] at h₃ ⊢
              omega
          | ok r =>
              have hrest := ih r.1 r.2 h₂ (hop h c s frag).frag
              rw [hx] at h₃
              simp only [follow, route, hx, hcount, asks] at h₃ hrest ⊢
              omega

/-- Every VLAN tag of a walk pushes a name. -/
theorem count_vlan_le (rounds : ℕ) (o : Onward) (c : Cur) {s : Hdr}
    (hs : s.depth ≤ Tunnel.maxDepth) (frag : Option FragMeta) :
    s.stack.length + (route rounds o c s frag).count .vlan ≤
      (follow rounds o c s frag).hdr.stack.length := by
  induction rounds generalizing o c s frag with
  | zero => cases o <;> exact Nat.le_refl _
  | succ rounds ih =>
      cases o with
      | done => exact Nat.le_refl _
      | payload p => exact Nat.le_refl _
      | hop h =>
          obtain ⟨h₁, h₂, -⟩ := hop_fits h c hs frag
          have hpush : s.stack.length + [h].count .vlan ≤ (hop h c s frag).hdr.stack.length := by
            by_cases hv : h = .vlan
            · subst hv
              exact vlan_pushes c hs frag
            · rw [List.count_singleton, if_neg (by simpa using hv)]
              exact h₁
          have hcons : ∀ l : List Hop, (h :: l).count .vlan = [h].count .vlan + l.count .vlan := by
            intro l
            rw [← List.count_append, List.singleton_append]
          cases hx : (hop h c s frag).next with
          | error e =>
              simp only [follow, route, hx]
              exact hpush
          | ok r =>
              have hrest := ih r.1 r.2 h₂ (hop h c s frag).frag
              simp only [follow, route, hx]
              rw [hcons]
              omega

/-! ### Frames -/

/-- A frame as it is dissected. -/
structure Frame where
  data : Bytes
  linktype : UInt16
  ifaceId : Option UInt32 := none

namespace Frame

/-- What the dissectors start from. -/
def start (f : Frame) : Hdr := { ifaceId := f.ifaceId }

/-- The walk through the headers of a frame. -/
def journey (f : Frame) : Journey :=
  PcapRacer.journey (Link.dissectLink f.linktype) (Cur.new f.data) f.start

/-- The layer names that the link, network, transport and tunnel dissectors push. -/
def layers (f : Frame) : List Layer := f.journey.hdr.stack

/-- The dissectors that are called one inside the other. -/
def route (f : Frame) : List Hop :=
  match (Link.dissectLink f.linktype).run (Cur.new f.data) f.start with
  | (.error _, _) => []
  | (.ok (o, c), s) => PcapRacer.route (c.remaining + 1) o c s none

/-- The number of VLAN headers among them. -/
def vlanHeaders (f : Frame) : ℕ := f.route.count .vlan

/-- **The two bounds of a frame.** -/
theorem length_layers (f : Frame) :
    f.vlanHeaders ≤ f.layers.length ∧ f.layers.length ≤ 63 + 3 * f.vlanHeaders := by
  have hstart : f.start.depth ≤ Tunnel.maxDepth :=
    show (0 : UInt8) ≤ Tunnel.maxDepth by decide
  obtain ⟨-, h₂, h₃⟩ := fits_dissectLink f.linktype (Cur.new f.data) f.start hstart
  have hroom : room f.start = 8 := rfl
  have hstack : f.start.stack.length = 0 := rfl
  rw [hroom, hstack] at h₃
  unfold vlanHeaders layers journey PcapRacer.journey route
  rcases hx : (Link.dissectLink f.linktype).run (Cur.new f.data) f.start with ⟨x, s⟩
  rw [hx] at h₂ h₃
  dsimp only at h₂ h₃
  cases x with
  | error e =>
      simp only [asks] at h₃
      exact ⟨Nat.zero_le _, by simp only [List.count_nil]; omega⟩
  | ok r =>
      have hlow := count_vlan_le (r.2.remaining + 1) r.1 r.2 h₂ none
      have hhigh := length_follow_le (r.2.remaining + 1) r.1 r.2 h₂ none
      simp only [asks] at h₃
      exact ⟨by dsimp only; omega, by dsimp only; omega⟩

end Frame

/-- **Nesting is bounded on a family of frames exactly when the number of VLAN headers is.** -/
theorem nesting_bounded_iff (frames : Set Frame) :
    (∃ K, ∀ f ∈ frames, f.layers.length ≤ K) ↔ ∃ n, ∀ f ∈ frames, f.vlanHeaders ≤ n := by
  constructor
  · rintro ⟨K, hK⟩
    exact ⟨K, fun f hf => Nat.le_trans f.length_layers.1 (hK f hf)⟩
  · rintro ⟨n, hn⟩
    refine ⟨63 + 3 * n, fun f hf => Nat.le_trans f.length_layers.2 ?_⟩
    have := hn f hf
    omega

/-! ### Frames that nest as deep as they are long -/

/-- A VLAN tag that announces another one. -/
def vlanTag : Bytes := [0x00, 0x00, 0x81, 0x00]

/-- An Ethernet frame that is nothing but VLAN tags. -/
def taggedFrame (n : ℕ) : Frame :=
  { data := List.replicate 12 0 ++ ([0x81, 0x00] ++ (List.replicate n vlanTag).flatten),
    linktype := 1 }

/-- The VLAN dissector on such a tag hands over to itself. -/
theorem vlan_run {c : Cur} {y : Bytes} (h : c.rest = vlanTag ++ y) (s : Hdr) :
    ∃ c' s', Link.vlan.run c s = (.ok (.hop .vlan, c'), s') ∧ c'.rest = y := by
  obtain ⟨c₁, h₁, hr₁⟩ := Cur.read_of_append (x := [0x00, 0x00])
    (fun b => UInt16.ofNat (beNat b)) h rfl
  obtain ⟨c₂, h₂, hr₂⟩ := Cur.read_of_append (x := [0x81, 0x00])
    (fun b => UInt16.ofNat (beNat b)) hr₁ rfl
  have hget₁ : Read.be16.get c = .ok (UInt16.ofNat (beNat [0x00, 0x00]), c₁) := h₁
  have hget₂ : Read.be16.get c₁ = .ok (UInt16.ofNat (beNat [0x81, 0x00]), c₂) := h₂
  have hnext : ∀ c s, (Link.typeOrLength (UInt16.ofNat (beNat [0x81, 0x00]))).run c s =
      (.ok (.hop .vlan, c), s) := fun _ _ => rfl
  refine ⟨c₂, ?_⟩
  unfold Link.vlan
  simp only [run_bind, Header.layer, Header.set, Header.read, hget₁, Header.get]
  -- the outer tag and an inner one fill different columns
  split
  · simp only [run_bind, Header.link, Header.set, hget₂, hnext]
    exact ⟨_, rfl, hr₂⟩
  · simp only [run_bind, Header.link, Header.set, hget₂, hnext]
    exact ⟨_, rfl, hr₂⟩

/-- A walk over `n` tags calls the VLAN dissector `n` times. -/
theorem le_count_route {n rounds : ℕ} (hn : n ≤ rounds) {c : Cur}
    (h : c.rest = (List.replicate n vlanTag).flatten) (s : Hdr) (frag : Option FragMeta) :
    n ≤ (route rounds (.hop .vlan) c s frag).count .vlan := by
  induction n generalizing rounds c s frag with
  | zero => exact Nat.zero_le _
  | succ n ih =>
      cases rounds with
      | zero => omega
      | succ rounds =>
          rw [List.replicate_succ, List.flatten_cons] at h
          obtain ⟨c', s', hrun, hrest⟩ := vlan_run h s
          have hnext : (hop .vlan c s frag).next = .ok (.hop .vlan, c') := by
            change (Link.vlan.run c s).1 = _
            rw [hrun]
          have hrec := ih (Nat.le_of_succ_le_succ hn) hrest (hop .vlan c s frag).hdr
            (hop .vlan c s frag).frag
          rw [route, hnext, List.count_cons_self]
          exact Nat.succ_le_succ hrec

/-- The Ethernet dissector on such a frame hands over to the VLAN dissector. -/
theorem ethernet_run_taggedFrame (n : ℕ) (s : Hdr) :
    ∃ c' s', Link.ethernet.run (Cur.new (taggedFrame n).data) s = (.ok (.hop .vlan, c'), s') ∧
      c'.rest = (List.replicate n vlanTag).flatten := by
  obtain ⟨c₁, h₁, hr₁⟩ := Cur.read_of_append (c := Cur.new (taggedFrame n).data)
    (x := List.replicate 6 0) (n := 6) id rfl rfl
  obtain ⟨c₂, h₂, hr₂⟩ := Cur.read_of_append (x := List.replicate 6 0) (n := 6) id hr₁ rfl
  obtain ⟨c₃, h₃, hr₃⟩ := Cur.read_of_append (x := [0x81, 0x00])
    (fun b => UInt16.ofNat (beNat b)) hr₂ rfl
  have hget₁ : Read.mac.get (Cur.new (taggedFrame n).data) = .ok (List.replicate 6 0, c₁) := h₁
  have hget₂ : Read.mac.get c₁ = .ok (List.replicate 6 0, c₂) := h₂
  have hget₃ : Read.be16.get c₂ = .ok (UInt16.ofNat (beNat [0x81, 0x00]), c₃) := h₃
  have hnext : ∀ c s, (Link.typeOrLength (UInt16.ofNat (beNat [0x81, 0x00]))).run c s =
      (.ok (.hop .vlan, c), s) := fun _ _ => rfl
  refine ⟨c₃, ?_⟩
  unfold Link.ethernet
  simp only [run_bind, Header.layer, Header.set, Header.read, Header.link, hget₁, hget₂, hget₃,
    hnext]
  exact ⟨_, rfl, hr₃⟩

theorem le_vlanHeaders_taggedFrame (n : ℕ) : n ≤ (taggedFrame n).vlanHeaders := by
  obtain ⟨c', s', hrun, hrest⟩ := ethernet_run_taggedFrame n (taggedFrame n).start
  have hroute : (taggedFrame n).route =
      .ethernet :: route ((Cur.new (taggedFrame n).data).remaining) (.hop .vlan) c' s' none := by
    have hfirst : (taggedFrame n).route = route ((Cur.new (taggedFrame n).data).remaining + 1)
        (.hop .ethernet) (Cur.new (taggedFrame n).data) (taggedFrame n).start none := rfl
    have hhop : hop .ethernet (Cur.new (taggedFrame n).data) (taggedFrame n).start none =
        { next := .ok (.hop .vlan, c'), hdr := s', frag := none } := by
      change Taken.mk (Link.ethernet.run _ _).1 (Link.ethernet.run _ _).2 none = _
      rw [hrun]
    rw [hfirst, route, hhop]
  have hlen : n ≤ (Cur.new (taggedFrame n).data).remaining := by
    rw [← Cur.length_rest]
    change n ≤ (List.replicate 12 0 ++ ([0x81, 0x00] ++ (List.replicate n vlanTag).flatten)).length
    have htags : (List.replicate n vlanTag).flatten.length = n * 4 := by
      simp [List.length_flatten, vlanTag]
    rw [List.length_append, List.length_append, htags]
    omega
  rw [Frame.vlanHeaders, hroute]
  exact Nat.le_trans (le_count_route hlen hrest s' none) (List.count_le_count_cons ..)

/-- **No constant bounds the nesting**: a frame of VLAN tags nests in proportion to its length. -/
theorem nesting_unbounded : ¬ ∃ K, ∀ f : Frame, f.layers.length ≤ K := by
  rintro ⟨K, hK⟩
  have hle := Nat.le_trans (le_vlanHeaders_taggedFrame (K + 1)) (taggedFrame (K + 1)).length_layers.1
  have := hK (taggedFrame (K + 1))
  omega

end PcapRacer
