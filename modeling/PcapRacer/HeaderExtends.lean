/-
**More bytes under the cursor.**

A dissector that reads its header and hands over does not notice what stands after the bytes that it
reads.  With more bytes under the cursor it does the same, and leaves the same bytes and the new
ones.  This holds of the whole link layer and of the IPv6 header; the IPv4 header is different,
since it confines what follows to the length it states.

Two walks from one state over the same bytes are the same walk; that is what remains to be said once
a header has cut off the bytes that only one of them has.

Main definitions:

* `Header.Extends` — with more bytes under the cursor the dissector does the same;
* `Header.Congruent` — so it does over the same bytes elsewhere;
* `Hop.link` — the dissectors of the link layer that others hand over to.

Main results:

* `Link.dissectLink_extends`, `Hop.link_extends` — the link layer does the same;
* `Network.ipv6_extends` — so does the IPv6 header;
* `follow_congr` — **walks from one state over the same bytes are the same**.
-/

import PcapRacer.HeaderFrame
import PcapRacer.HeaderReach

set_option relaxedAutoImplicit false
set_option autoImplicit false

namespace PcapRacer

/-! ### Dissectors that do not look ahead -/

/-- Taking bytes that are there. -/
theorem Cur.take_extends {t b : Bytes} {c c' c₁ : Cur} {n : ℕ} (hrest : c'.rest = c.rest ++ t)
    (h : c.take n = .ok (b, c₁)) :
    ∃ c₁' : Cur, c'.take n = .ok (b, c₁') ∧ c₁'.rest = c₁.rest ++ t := by
  obtain ⟨hn, he⟩ := Cur.take_eq_ok_iff.mp h
  cases he
  have hlen : n ≤ c.rest.length := by rwa [Cur.length_rest]
  have hn' : n ≤ c'.remaining := by
    rw [← Cur.length_rest, hrest, List.length_append]
    omega
  refine ⟨c'.advance n hn', ?_, ?_⟩
  · rw [Cur.take_of_le hn', hrest, List.take_append_of_le_length hlen]
  · rw [Cur.rest_advance, Cur.rest_advance, hrest, List.drop_append_of_le_length hlen]

namespace Header

section Extends

variable {α β : Type} {good : α → Prop}

/-- Where the dissector ends with a good result, it ends with the same one when more bytes are under
the cursor, and leaves them there. -/
def Extends (good : α → Prop) (d : Header α) : Prop :=
  ∀ (t : Bytes) (c c' : Cur) (s s₁ : Hdr) (a : α) (c₁ : Cur), c'.rest = c.rest ++ t →
    d.run c s = (.ok (a, c₁), s₁) → good a →
    ∃ c₁' : Cur, d.run c' s = (.ok (a, c₁'), s₁) ∧ c₁'.rest = c₁.rest ++ t

/-- The dissector does the same whatever its result is. -/
def ExtendsAll (d : Header α) : Prop := Extends (fun _ => True) d

theorem extends_pure (a : α) : Extends good (pure a) := by
  intro t c c' s s₁ b c₁ hrest hrun _
  cases hrun
  exact ⟨c', rfl, hrest⟩

theorem extendsAll_pure (a : α) : ExtendsAll (pure a) := extends_pure a

theorem extends_fail (e : DissectError) : Extends good (fail e) := by
  intro t c c' s s₁ a c₁ _ hrun _
  cases hrun

theorem extendsAll_set (f : Hdr → Hdr) : ExtendsAll (set f) := by
  intro t c c' s s₁ a c₁ hrest hrun _
  cases hrun
  exact ⟨c', rfl, hrest⟩

theorem extendsAll_take (n : ℕ) : ExtendsAll (take n) := by
  intro t c c' s s₁ b c₁ hrest hrun _
  obtain ⟨htake, rfl⟩ := Prod.mk.inj hrun
  obtain ⟨c₁', htake', hrest'⟩ := Cur.take_extends hrest htake
  exact ⟨c₁', congrArg (fun r => (r, s)) htake', hrest'⟩

theorem extendsAll_read {r : Read α} (hr : r.IsBytes) : ExtendsAll (read r) := by
  obtain ⟨n, f, rfl⟩ := hr
  intro t c c' s s₁ a c₁ hrest hrun _
  obtain ⟨hread, rfl⟩ := Prod.mk.inj hrun
  obtain ⟨⟨b, c₂⟩, htake, he⟩ := map_eq_ok_iff.mp (show (c.take (n + 1)).map _ = _ from hread)
  cases he
  obtain ⟨c₁', htake', hrest'⟩ := Cur.take_extends hrest htake
  refine ⟨c₁', ?_, hrest'⟩
  exact congrArg (fun r => (Except.map (fun p => (f p.1, p.2)) r, s)) htake'

theorem extendsAll_peekU8 : ExtendsAll peekU8 := by
  intro t c c' s s₁ a c₁ hrest hrun _
  obtain ⟨hpeek, rfl⟩ := Prod.mk.inj hrun
  obtain ⟨b, hb, he⟩ := map_eq_ok_iff.mp hpeek
  cases he
  obtain ⟨⟨b', c₂⟩, hread, rfl⟩ := map_eq_ok_iff.mp hb
  rw [Cur.u8_eq_read] at hread
  obtain ⟨x, htake, he⟩ := Cur.read_eq_ok hread
  obtain ⟨c₁', htake', -⟩ := Cur.take_extends hrest htake
  refine ⟨c', ?_, hrest⟩
  have hu8 : c'.u8 = .ok (b', c₁') := by
    rw [Cur.u8_eq_read, Cur.read, htake', show b' = x.headD 0 from he]
    rfl
  change (((c'.u8).map Prod.fst).map _, s) = _
  rw [hu8]
  rfl

/-- The first of two dissectors does the same, and the second one goes on from there. -/
theorem ExtendsAll.run_bind {d : Header α} (hd : ExtendsAll d) {f : α → Header β} {t : Bytes}
    {c c' c₁ : Cur} {s s₁ : Hdr} {b : β} (hrest : c'.rest = c.rest ++ t)
    (h : (d >>= f).run c s = (.ok (b, c₁), s₁)) :
    ∃ a c₂ c₂' s₂, c₂'.rest = c₂.rest ++ t ∧ (f a).run c₂ s₂ = (.ok (b, c₁), s₁) ∧
      ∀ g : α → Header β, (d >>= g).run c' s = (g a).run c₂' s₂ := by
  rw [Header.run_bind] at h
  rcases hx : d.run c s with ⟨e | ⟨a, c₂⟩, s₂⟩
  · rw [hx] at h
    cases h
  · rw [hx] at h
    obtain ⟨c₂', hx', hrest₂⟩ := hd t c c' s s₂ a c₂ hrest hx trivial
    exact ⟨a, c₂, c₂', s₂, hrest₂, h, fun g => by rw [Header.run_bind, hx']⟩

theorem extends_bind {good : β → Prop} {d : Header α} {f : α → Header β} (hd : ExtendsAll d)
    (hf : ∀ a, Extends good (f a)) : Extends good (d >>= f) := by
  intro t c c' s s₁ b c₁ hrest hrun hgood
  obtain ⟨a, c₂, c₂', s₂, hrest₂, hrun₂, hrun'⟩ := hd.run_bind hrest hrun
  rw [hrun']
  exact hf a t c₂ c₂' s₂ s₁ b c₁ hrest₂ hrun₂ hgood

theorem extends_look {good : β → Prop} {f : Hdr → Header β} (hf : ∀ s, Extends good (f s)) :
    Extends good (get >>= f) :=
  fun t c c' s s₁ b c₁ hrest hrun hgood => hf s t c c' s s₁ b c₁ hrest hrun hgood

theorem extends_ite {p : Prop} [Decidable p] {d d' : Header α} (hd : Extends good d)
    (hd' : Extends good d') : Extends good (if p then d else d') := by
  split
  · exact hd
  · exact hd'

theorem extendsAll_skip (n : ℕ) : ExtendsAll (skip n) :=
  extends_bind (extendsAll_take n) fun _ => extends_pure ()

end Extends

end Header

open Header (ExtendsAll Extends extends_bind extends_ite extends_look extends_pure extends_fail
  extendsAll_read extendsAll_take extendsAll_skip extendsAll_set extendsAll_peekU8 endsWalk_bind)

/-! ### The link layer -/

/-- Another header stands after this one. -/
def Onward.IsHop : Onward → Prop
  | .hop _ => True
  | _ => False

/-- A dissector that ends the walk hands over to nothing. -/
theorem Header.EndsWalk.extends {d : Header Onward} (h : d.EndsWalk) : d.Extends Onward.IsHop := by
  intro t c c' s s₁ o c₁ _ hrun hgood
  have hdone : o = .done := h c s o c₁ (by rw [hrun])
  rw [hdone] at hgood
  exact hgood.elim

namespace Link

theorem arp_extends : arp.Extends Onward.IsHop := by
  unfold arp
  repeat' first
    | exact extendsAll_set _ | exact extendsAll_read (Read.isBytes_bytes _ _) | exact extends_pure _
    | apply extends_ite | apply extends_bind | intro _

theorem ethertypePayload_extends (ethertype : UInt16) :
    (ethertypePayload ethertype).Extends Onward.IsHop := by
  unfold ethertypePayload
  split
  case h_3 | h_4 => exact arp_extends
  case h_11 | h_12 => exact extends_bind (extendsAll_set _) fun _ => extends_pure _
  all_goals first | exact extends_pure _ | exact extends_fail _

theorem typeOrLength_extends (ethertype : UInt16) :
    (typeOrLength ethertype).Extends Onward.IsHop :=
  extends_ite (extends_pure _) (ethertypePayload_extends _)

theorem rawIp_extends : rawIp.Extends Onward.IsHop := by
  refine extends_bind extendsAll_peekU8 fun b => ?_
  split
  all_goals first | exact extends_pure _ | exact extends_fail _

theorem pppPayload_extends (proto : UInt16) : (pppPayload proto).Extends Onward.IsHop := by
  unfold pppPayload
  split
  all_goals first | exact extends_pure _ | exact extends_fail _

theorem ethernet_extends : ethernet.Extends Onward.IsHop := by
  unfold ethernet
  repeat' first
    | exact extendsAll_set _ | exact extendsAll_read (Read.isBytes_bytes _ _)
    | exact typeOrLength_extends _ | apply extends_bind | intro _

theorem vlan_extends : vlan.Extends Onward.IsHop := by
  unfold vlan
  refine extends_bind (extendsAll_set _) fun _ => ?_
  refine extends_bind (extendsAll_read (Read.isBytes_bytes _ _)) fun tci => extends_look fun s => ?_
  repeat' first
    | exact extendsAll_set _ | exact extendsAll_read (Read.isBytes_bytes _ _)
    | exact typeOrLength_extends _ | apply extends_ite | apply extends_bind | intro _

theorem mplsLabel_extends (w : UInt32) : (mplsLabel w).ExtendsAll :=
  extends_look fun _ => extends_ite (extendsAll_set _) (extends_pure _)

/-- The walk over the label stack does the same with more bytes and more rounds. -/
theorem mplsLabels_extends {n m : ℕ} (hnm : n ≤ m) {t : Bytes} {c c' c₁ : Cur} {s s₁ : Hdr}
    (hrest : c'.rest = c.rest ++ t) (h : (mplsLabels n).run c s = (.ok ((), c₁), s₁)) :
    ∃ c₁' : Cur, (mplsLabels m).run c' s = (.ok ((), c₁'), s₁) ∧ c₁'.rest = c₁.rest ++ t := by
  induction n generalizing m c c' s with
  | zero => cases h
  | succ n ih =>
      obtain ⟨m, rfl⟩ : ∃ k, m = k + 1 := ⟨m - 1, by omega⟩
      obtain ⟨w, c₂, c₂', s₂, hrest₂, h₂, hrun⟩ :=
        (extendsAll_read (Read.isBytes_bytes _ _)).run_bind hrest h
      obtain ⟨u, c₃, c₃', s₃, hrest₃, h₃, hrun'⟩ := (mplsLabel_extends w).run_bind hrest₂ h₂
      have hmore : (mplsLabels (m + 1)).run c' s = _ := hrun _
      rw [hmore, hrun']
      split at h₃
      · next hbottom =>
          rw [if_pos hbottom]
          exact Header.extendsAll_pure _ t c₃ c₃' s₃ s₁ _ c₁ hrest₃ h₃ trivial
      · next hbottom =>
          rw [if_neg hbottom]
          exact ih (by omega) hrest₃ h₃

theorem mpls_extends : mpls.Extends Onward.IsHop := by
  unfold mpls
  refine extends_bind (extendsAll_set _) fun _ => ?_
  refine extends_bind (extendsAll_read (Read.isBytes_bytes _ _)) fun w => ?_
  refine extends_bind (mplsLabel_extends w) fun _ => ?_
  refine extends_ite ?_ rawIp_extends
  -- with more bytes there are more rounds too
  intro t c c' s s₁ o c₁ hrest h hgood
  have hle : c.remaining ≤ c'.remaining := by
    rw [← Cur.length_rest, ← Cur.length_rest, hrest, List.length_append]
    exact Nat.le_add_right _ _
  change (mplsLabels (c.remaining + 1) >>= fun _ => rawIp).run c s = _ at h
  rw [Header.run_bind] at h
  rcases hx : (mplsLabels (c.remaining + 1)).run c s with ⟨e | ⟨u, c₂⟩, s₂⟩
  · rw [hx] at h
    cases h
  · rw [hx] at h
    obtain ⟨c₂', hx', hrest₂⟩ := mplsLabels_extends (Nat.succ_le_succ hle) hrest hx
    obtain ⟨c₁', hrun, hrest₁⟩ := rawIp_extends t c₂ c₂' s₂ s₁ o c₁ hrest₂ h hgood
    refine ⟨c₁', ?_, hrest₁⟩
    change (mplsLabels (c'.remaining + 1) >>= fun _ => rawIp).run c' s = _
    rw [Header.run_bind, hx']
    exact hrun

theorem pppoe_extends : pppoe.Extends Onward.IsHop := by
  unfold pppoe
  repeat' first
    | exact extendsAll_set _ | exact extendsAll_read (Read.isBytes_bytes _ _)
    | exact pppPayload_extends _ | apply extends_bind | intro _

theorem llc_extends : llc.Extends Onward.IsHop := by
  unfold llc
  repeat' first
    | exact extendsAll_set _ | exact extendsAll_read (Read.isBytes_bytes _ _)
    | exact ethertypePayload_extends _ | exact extends_pure _ | apply extends_ite
    | apply extends_bind | intro _

theorem linuxSll_extends : linuxSll.Extends Onward.IsHop := by
  unfold linuxSll
  repeat' first
    | exact extendsAll_set _ | exact extendsAll_read (Read.isBytes_bytes _ _)
    | exact extendsAll_take _ | exact ethertypePayload_extends _ | apply extends_ite
    | apply extends_bind | intro _

theorem linuxSll2_extends : linuxSll2.Extends Onward.IsHop := by
  unfold linuxSll2
  repeat' first
    | exact extendsAll_set _ | exact extendsAll_read (Read.isBytes_bytes _ _)
    | exact extendsAll_take _ | exact ethertypePayload_extends _ | apply extends_ite
    | apply extends_bind | intro _

theorem loopback_extends : loopback.Extends Onward.IsHop := by
  unfold loopback
  refine extends_bind (extendsAll_read (Read.isBytes_bytes _ _)) fun af => ?_
  refine extends_bind (extendsAll_set _) fun _ => ?_
  split
  all_goals first | exact extends_pure _ | exact extends_fail _

theorem ppp_extends : ppp.Extends Onward.IsHop := by
  unfold ppp
  repeat' first
    | exact extendsAll_set _ | exact extendsAll_read (Read.isBytes_bytes _ _)
    | exact pppPayload_extends _ | apply extends_bind | intro _

/-- A management frame hands over to nothing; the network name in it may be cut short. -/
theorem ieee80211_extends : ieee80211.Extends Onward.IsHop := by
  have hdone : (pure .done : Header Onward).EndsWalk := by
    rintro c s o c' h
    cases h
    rfl
  unfold ieee80211
  refine extends_bind (extendsAll_set _) fun _ => ?_
  refine extends_bind (extendsAll_read (Read.isBytes_bytes _ _)) fun fc => ?_
  refine extends_bind (extendsAll_set _) fun _ => ?_
  iterate 5 refine extends_bind (extendsAll_read (Read.isBytes_bytes _ _)) fun _ => ?_
  refine extends_bind (extendsAll_set _) fun _ => extends_ite ?_ ?_
  · apply Header.EndsWalk.extends
    split
    · exact endsWalk_bind fun _ => endsWalk_bind fun _ => hdone
    · exact endsWalk_bind fun _ => hdone
  · refine extends_ite (extends_ite ?_ ?_) (extends_pure _)
    · exact extends_bind (extendsAll_skip _) fun _ => extends_pure _
    · exact extends_pure _

theorem radiotap_extends : radiotap.Extends Onward.IsHop := by
  unfold radiotap
  repeat' first
    | exact extendsAll_set _ | exact extendsAll_read (Read.isBytes_bytes _ _)
    | exact extendsAll_skip _ | exact ieee80211_extends | exact extends_fail _ | apply extends_ite
    | apply extends_bind | intro _

/-- The first dissector of every link type hands over as it did. -/
theorem dissectLink_extends (linktype : UInt16) : (dissectLink linktype).Extends Onward.IsHop := by
  unfold dissectLink
  split
  case h_1 => exact extends_pure _
  all_goals first
    | exact rawIp_extends | exact loopback_extends | exact linuxSll_extends
    | exact linuxSll2_extends | exact ppp_extends | exact ieee80211_extends
    | exact radiotap_extends | exact extends_fail _

end Link

/-- The dissector of a hop of the link layer. -/
def Hop.link : Hop → Option (Header Onward)
  | .ethernet => some Link.ethernet
  | .llc => some Link.llc
  | .vlan => some Link.vlan
  | .mpls => some Link.mpls
  | .pppoe => some Link.pppoe
  | .ipv4 => none
  | .ipv6 => none

theorem Hop.hop_of_link {h : Hop} {d : Header Onward} (hd : h.link = some d) (c : Cur) (s : Hdr)
    (frag : Option FragMeta) : hop h c s frag = d.taken c s frag := by
  cases h <;> cases hd <;> rfl

/-- Every hop of the link layer hands over as it did. -/
theorem Hop.link_extends {h : Hop} {d : Header Onward} (hd : h.link = some d) :
    d.Extends Onward.IsHop := by
  cases h with
  | ethernet => cases hd; exact Link.ethernet_extends
  | llc => cases hd; exact Link.llc_extends
  | vlan => cases hd; exact Link.vlan_extends
  | mpls => cases hd; exact Link.mpls_extends
  | pppoe => cases hd; exact Link.pppoe_extends
  | ipv4 => cases hd
  | ipv6 => cases hd

/-! ### The IPv6 header -/

namespace Network

theorem extensionChain_extends (guard : ℕ) (chain : ExtChain) :
    (extensionChain guard chain).ExtendsAll := by
  induction guard generalizing chain with
  | zero => exact extends_fail _
  | succ guard ih =>
      unfold extensionChain
      split
      all_goals repeat' first
        | exact extendsAll_set _ | exact extendsAll_read (Read.isBytes_bytes _ _)
        | exact extendsAll_skip _ | exact ih _ | exact extends_pure _ | apply extends_ite
        | apply extends_bind | intro _

/-- The IPv6 header states how much follows, but the dissector does not look at it. -/
theorem ipv6_extends : ipv6.ExtendsAll := by
  unfold ipv6
  repeat' first
    | exact extendsAll_set _ | exact extendsAll_read (Read.isBytes_bytes _ _)
    | exact extensionChain_extends _ _ | exact extends_pure _ | exact extends_fail _
    | apply extends_ite | apply extends_bind | intro _

end Network

/-! ### Walks from one state -/

namespace Header

section Congr

variable {α β : Type}

/-- From one state and over the same bytes the dissector does the same. -/
def Congruent (d : Header α) : Prop :=
  ∀ (c c' : Cur) (s : Hdr), c.rest = c'.rest →
    sight (d.run c s).1 = sight (d.run c' s).1 ∧ (d.run c s).2 = (d.run c' s).2

theorem congruent_pure (a : α) : (pure a : Header α).Congruent :=
  fun _ _ _ hc => ⟨sight_ok a hc, rfl⟩

theorem congruent_set (f : Hdr → Hdr) : (set f).Congruent := fun _ _ _ hc => ⟨sight_ok () hc, rfl⟩

/-- What writes nothing, and sees the same. -/
theorem Silent.congruent {d : Header α} (h : d.Silent)
    (hsight : ∀ c c' s, c.rest = c'.rest → sight (d.run c s).1 = sight (d.run c' s).1) :
    d.Congruent := by
  intro c c' s hc
  exact ⟨hsight c c' s hc, (h c s).trans (h c' s).symm⟩

theorem congruent_bind {d : Header α} {f : α → Header β} (hd : d.Congruent)
    (hf : ∀ a, (f a).Congruent) : (d >>= f).Congruent := by
  intro c c' s hc
  obtain ⟨hsight, hstate⟩ := hd c c' s hc
  rw [run_bind, run_bind]
  rcases hx : d.run c s with ⟨x, t⟩
  rcases hy : d.run c' s with ⟨y, t'⟩
  rw [hx, hy] at hsight hstate
  cases show t = t' from hstate
  obtain ⟨e, rfl, rfl⟩ | ⟨a, q, q', rfl, rfl, hrest⟩ := sight_cases hsight
  · exact ⟨rfl, rfl⟩
  · exact hf a q q' t hrest

/-- Entering a tunnel does not look at the bytes. -/
theorem congruent_enter (kind : Layer) : (Tunnel.enter kind).Congruent := by
  have hdescend : Tunnel.descend.Congruent := by
    intro c c' s hc
    rw [Tunnel.descend_run, Tunnel.descend_run]
    split
    · exact ⟨rfl, rfl⟩
    · exact ⟨sight_ok () hc, rfl⟩
  refine congruent_bind hdescend fun _ => congruent_bind (congruent_set _) fun _ => ?_
  exact congruent_bind (congruent_set _) fun _ => congruent_set _

/-- **What is built from steps does the same from one state and over the same bytes.** -/
theorem Built.congruent {d : Header α} (h : d.Built) : d.Congruent := by
  -- the reads and looks are those of twins
  have hmirrors {γ : Type} {e : Header γ} (he : e.Built) (c c' : Cur) (s : Hdr)
      (hc : c.rest = c'.rest) : sight (e.run c s).1 = sight (e.run c' s).1 :=
    (he.mirrors [] c c' s s hc ⟨rfl, rfl, rfl, rfl, rfl, rfl, rfl, rfl⟩).1
  induction h with
  | pure a => exact congruent_pure a
  | fail e => exact fun _ _ _ _ => ⟨rfl, rfl⟩
  | read hr => exact (silent_read _).congruent (hmirrors (.read hr))
  | tryRead hr => exact (silent_tryRead _).congruent (hmirrors (.tryRead hr))
  | take n => exact (silent_take n).congruent (hmirrors (.take n))
  | tryTake n => exact (silent_tryTake n).congruent (hmirrors (.tryTake n))
  | skip n => exact (silent_skip n).congruent (hmirrors (.skip n))
  | trySkip n => exact (silent_trySkip n).congruent (hmirrors (.trySkip n))
  | confine n => exact Silent.congruent (fun _ _ => rfl) (hmirrors (.confine n))
  | remaining => exact silent_remaining.congruent (hmirrors .remaining)
  | peek n => exact (silent_peek n).congruent (hmirrors (.peek n))
  | peekU8 => exact silent_peekU8.congruent (hmirrors .peekU8)
  | layer _ => exact congruent_set _
  | iface i => exact congruent_set _
  | link f => exact congruent_set _
  | transport f => exact congruent_set _
  | tunnel f => exact congruent_set _
  | net _ => exact congruent_set _
  | setTuple src dst sport dport proto => exact congruent_set _
  | enter _ => exact congruent_enter _
  | look _ _ ih => exact fun c c' s hc => ih s c c' s hc
  | @scan _ f hrest _ ih =>
      intro c c' s hc
      change sight ((f c).run c s).1 = sight ((f c').run c' s).1 ∧
        ((f c).run c s).2 = ((f c').run c' s).2
      rw [hrest c c' hc]
      exact ih c' c c' s hc
  | ite _ _ ih ih' =>
      split
      · exact ih
      · exact ih'
  | bind _ _ ih ihf => exact congruent_bind ih ihf

end Congr

end Header

section Walk

variable {c c' : Cur} {s : Hdr} {frag : Option FragMeta}

/-- Two hops that do the same, up to where the cursor is. -/
structure Taken.Same (t t' : Taken) : Prop where
  next : sight t.next = sight t'.next
  hdr : t.hdr = t'.hdr
  frag : t.frag = t'.frag

/-- Two walks that do the same, up to where the cursor is. -/
structure Journey.Same (j j' : Journey) : Prop where
  stop : outlook j.stop = outlook j'.stop
  hdr : j.hdr = j'.hdr
  frag : j.frag = j'.frag

theorem taken_congr {d : Header Onward} (hd : d.Built) (hc : c.rest = c'.rest) :
    (d.taken c s frag).Same (d.taken c' s frag) := by
  obtain ⟨hsight, hstate⟩ := hd.congruent c c' s hc
  exact ⟨hsight, hstate, rfl⟩

theorem fragMeta_of_rest (d : Datagram) (hc : c.rest = c'.rest) :
    Network.fragMeta d s c = Network.fragMeta d s c' := by
  unfold Network.fragMeta
  rw [hc]

theorem afterIp_congr (d : Datagram) (hc : c.rest = c'.rest) :
    (afterIp d c s frag).Same (afterIp d c' s frag) := by
  unfold afterIp
  dsimp only
  rw [fragMeta_of_rest d hc]
  split
  · exact ⟨sight_ok _ hc, rfl, rfl⟩
  · exact taken_congr (Network.dispatchIpProto_built _ _ _) hc

theorem ip_congr {header : Header Datagram} (hd : header.Built) (hc : c.rest = c'.rest) :
    (ip header c s frag).Same (ip header c' s frag) := by
  unfold ip
  obtain ⟨hsight, hstate⟩ := hd.congruent c c' s hc
  rcases hx : header.run c s with ⟨x, t⟩
  rcases hy : header.run c' s with ⟨y, t'⟩
  rw [hx, hy] at hsight hstate
  cases show t = t' from hstate
  obtain ⟨e, rfl, rfl⟩ | ⟨d, q, q', rfl, rfl, hrest⟩ := sight_cases hsight
  · exact ⟨rfl, rfl, rfl⟩
  · exact afterIp_congr d hrest

theorem hop_congr (h : Hop) (hc : c.rest = c'.rest) :
    (hop h c s frag).Same (hop h c' s frag) := by
  cases h with
  | ethernet => exact taken_congr Link.ethernet_aloof.built hc
  | llc => exact taken_congr Link.llc_aloof.built hc
  | vlan => exact taken_congr Link.vlan_aloof.built hc
  | mpls => exact taken_congr Link.mpls_aloof.built hc
  | pppoe => exact taken_congr Link.pppoe_aloof.built hc
  | ipv4 => exact ip_congr Network.ipv4_stepwise.built hc
  | ipv6 => exact ip_congr Network.ipv6_stepwise.built hc

/-- After hops that do the same the walks do the same, if what follows does. -/
theorem resume_congr {t t' : Taken} {n m : ℕ} (h : t.Same t')
    (hnext : ∀ o q q', t.next = .ok (o, q) → t'.next = .ok (o, q') → q.rest = q'.rest →
      (follow n o q t.hdr t.frag).Same (follow m o q' t.hdr t.frag)) :
    (t.resume n).Same (t'.resume m) := by
  unfold Taken.resume
  obtain ⟨e, hx, hx'⟩ | ⟨o, q, q', hx, hx', hrest⟩ := sight_cases h.next
  · rw [hx, hx']
    exact ⟨rfl, h.hdr, h.frag⟩
  · have hjourney := hnext o q q' hx hx' hrest
    rw [hx, hx', ← h.hdr, ← h.frag]
    exact hjourney

/-- **Two walks from one state over the same bytes do the same**, with rounds enough. -/
theorem follow_congr {n m : ℕ} {o : Onward} (hn : c.remaining < n) (hm : c'.remaining < m)
    (hc : c.rest = c'.rest) : (follow n o c s frag).Same (follow m o c' s frag) := by
  induction n generalizing m o c c' s frag with
  | zero => exact absurd hn (Nat.not_lt_zero _)
  | succ n ih =>
      cases m with
      | zero => exact absurd hm (Nat.not_lt_zero _)
      | succ m =>
          cases o with
          | done => exact ⟨rfl, rfl, rfl⟩
          | payload p =>
              refine ⟨?_, rfl, rfl⟩
              simp only [outlook, follow, Except.map, Option.map, hc]
          | hop h =>
              rw [follow_hop, follow_hop]
              refine resume_congr (hop_congr h hc) fun o' q q' hx hx' hrest => ?_
              have hlt : q.remaining < c.remaining := hop_remaining_lt hx
              have hlt' : q'.remaining < c'.remaining := hop_remaining_lt hx'
              exact ih (by omega) (by omega) hrest

end Walk

end PcapRacer
