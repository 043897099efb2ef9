/-
**No header dissector leaves its bytes.**

Every header dissector of the source is compared with its model.  The model cannot fault, so the
comparison says two things at once: that no access of the dissector and none of its arithmetic
faults, and that the model goes the way the dissector goes.  Where a length is subtracted, it is the
check before it that makes the difference a number; where a loop runs, each round gets past a byte.

From the dissectors the comparison goes on to hops, and from hops, by induction on the rounds, to the
walk over a whole frame.

Main definitions:

* `Checked.RefinesHop` — a checked hop against a hop of the model;
* `Slice` — the bytes of a frame.

Main results:

* `Checked.Network.ipv4_refines`, `Checked.Transport.tcp_refines`, … — one a dissector;
* `Checked.hop_refines`, `Checked.follow_refines` — no hop faults, and no walk;
* `dissectFrame_never_faults` — **no frame makes a header dissector leave its bytes**.
-/

import PcapRacer.CheckedDissect
import PcapRacer.Walk

set_option relaxedAutoImplicit false
set_option autoImplicit false

namespace PcapRacer

namespace Checked

variable {P : Cur → Prop}

/-! ### The link layer -/

namespace Link

theorem arp_refines : Refines P arp PcapRacer.Link.arp := by
  refine refines_layer _ <| refines_read reads_be16 fun _ => refines_read reads_be16 fun _ => ?_
  refine refines_read reads_u8 fun hwLen => refines_read reads_u8 fun protoLen => ?_
  refine refines_read reads_be16 fun opcode => refines_link <| refines_ite (fun _ => ?_) fun _ => ?_
  · refine refines_mac fun _ _ => refines_read reads_ipv4 fun _ => ?_
    refine refines_mac fun _ _ => refines_read reads_ipv4 fun _ => ?_
    exact refines_link (refines_pure _)
  · exact refines_pure _

theorem ethertypePayload_refines (ethertype : UInt16) :
    Refines P (ethertypePayload ethertype) (PcapRacer.Link.ethertypePayload ethertype) := by
  unfold ethertypePayload PcapRacer.Link.ethertypePayload
  generalize ethertype.toNat = n
  split
  all_goals first
    | exact refines_pure _
    | exact arp_refines
    | exact refines_layer _ (refines_pure _)
    | simp [*, refines_fail]

theorem typeOrLength_refines (ethertype : UInt16) :
    Refines P (typeOrLength ethertype) (PcapRacer.Link.typeOrLength ethertype) :=
  refines_ite (fun _ => refines_pure _) fun _ => ethertypePayload_refines ethertype

theorem rawIp_refines : Refines P rawIp PcapRacer.Link.rawIp := by
  refine refines_bind refines_peekU8 fun b => ?_
  generalize (b >>> 4).toNat = n
  split
  all_goals first
    | exact refines_pure _
    | simp [*, refines_fail]

theorem pppPayload_refines (proto : UInt16) :
    Refines P (pppPayload proto) (PcapRacer.Link.pppPayload proto) := by
  unfold pppPayload PcapRacer.Link.pppPayload
  generalize proto.toNat = n
  split
  all_goals first
    | exact refines_pure _
    | simp [*, refines_fail]

theorem ethernet_refines : Refines P ethernet PcapRacer.Link.ethernet := by
  refine refines_layer _ <| refines_mac fun dst hdst => refines_mac fun _ _ => ?_
  refine refines_read reads_be16 fun ethertype => ?_
  refine refines_machine (Machine.index_of_lt (hdst ▸ Nat.zero_lt_succ 5)) <| refines_link ?_
  exact typeOrLength_refines ethertype

theorem vlan_refines : Refines P vlan PcapRacer.Link.vlan := by
  refine refines_layer _ <| refines_read reads_be16 fun tci => refines_get fun s => ?_
  have hinner : Refines Anywhere (be16 >>= typeOrLength)
      (Header.read .be16 >>= PcapRacer.Link.typeOrLength) :=
    refines_read reads_be16 typeOrLength_refines
  exact refines_ite_right (refines_link hinner) (refines_link hinner)

theorem mplsLabel_silent (w : UInt32) : Silent (PcapRacer.Link.mplsLabel w) :=
  silent_get fun _ => silent_ite (silent_set fun _ => rfl) silent_pure

theorem mplsLabels_refines (rounds m : ℕ) :
    Refines (fun c => c.remaining < rounds ∧ c.remaining < m) (mplsLabels rounds)
      (PcapRacer.Link.mplsLabels m) := by
  induction rounds generalizing m with
  | zero => exact fun c s hc => absurd hc.1 (Nat.not_lt_zero _)
  | succ rounds ih =>
      cases m with
      | zero => exact fun c s hc => absurd hc.2 (Nat.not_lt_zero _)
      | succ m =>
          refine refines_read_at reads_be32 (Q := fun c => c.remaining < rounds ∧ c.remaining < m)
            (fun c h hc => ⟨fewer (by omega) c h hc.1, fewer (by omega) c h hc.2⟩) fun w => ?_
          refine refines_silent (mplsLabel_silent w) ?_
          exact refines_ite (fun _ => refines_pure _) fun _ => ih m

theorem mpls_refines : Refines P mpls PcapRacer.Link.mpls := by
  refine refines_layer _ <| refines_remaining_left fun n => ?_
  rw [show mplsLabels (n + 1) = be32 >>= fun w =>
    if (w >>> 8) &&& 1 = 1 then pure () else mplsLabels n from rfl, bind_assoc]
  refine refines_read_at reads_be32 (Q := fun c => c.remaining < n)
    (fun c h hc => fewer (by omega) c h (by omega)) fun w => ?_
  refine refines_silent (mplsLabel_silent w) ?_
  by_cases hbottom : (w >>> 8) &&& 1 = 1
  · rw [if_pos hbottom, if_neg (not_not_intro hbottom)]
    exact rawIp_refines
  · rw [if_neg hbottom, if_pos hbottom]
    refine refines_remaining_right fun m => refines_bind ?_ fun _ => rawIp_refines
    exact (mplsLabels_refines n (m + 1)).mono fun c hc => ⟨hc.1, by omega⟩

theorem pppoe_refines : Refines P pppoe PcapRacer.Link.pppoe := by
  refine refines_layer _ <| refines_read reads_u8 fun _ => refines_read reads_u8 fun _ => ?_
  refine refines_read reads_be16 fun session => refines_link <| refines_read reads_be16 fun _ => ?_
  exact refines_read reads_be16 fun proto => refines_link <| pppPayload_refines proto

theorem llc_refines : Refines P llc PcapRacer.Link.llc := by
  refine refines_layer _ <| refines_read reads_u8 fun dsap => refines_read reads_u8 fun ssap => ?_
  refine refines_read reads_u8 fun control => refines_link <| refines_ite (fun _ => ?_) fun _ => ?_
  · refine refines_layer _ <| refines_read reads_be24 fun oui => refines_read reads_be16 fun pid => ?_
    refine refines_link <| refines_ite (fun _ => ?_) fun _ => refines_pure _
    exact ethertypePayload_refines pid
  · exact refines_pure _

/-- A hardware address in a field of eight bytes. -/
theorem refines_address {β : Type} {addr : Bytes} (haddr : addr.length = 8) {g : Checked β}
    {d : Header β} (h : Refines P g d) :
    Refines P (machine (Machine.slice addr 0 6) >>= fun m => machine (Machine.array m 6) >>=
      fun _ => g) d := by
  refine refines_machine (Machine.slice_of_le (by omega) (by omega)) ?_
  refine refines_machine (Machine.array_of_length ?_) h
  rw [List.drop_zero, List.length_take, haddr]
  rfl

theorem linuxSll_refines : Refines P linuxSll PcapRacer.Link.linuxSll := by
  refine refines_layer _ <| refines_read reads_be16 fun _ => refines_read reads_be16 fun _ => ?_
  refine refines_read reads_be16 fun addrLen => refines_take 8 fun addr haddr => ?_
  have hproto : Refines Anywhere (be16 >>= ethertypePayload) (Header.read .be16 >>= fun proto =>
      Header.link (fun l => { l with ethType := some proto }) >>= fun _ =>
        PcapRacer.Link.ethertypePayload proto) :=
    refines_read reads_be16 fun proto => refines_link <| ethertypePayload_refines proto
  refine refines_ite (fun _ => ?_) fun _ => hproto
  refine refines_address haddr ?_
  exact refines_link hproto

theorem linuxSll2_refines : Refines P linuxSll2 PcapRacer.Link.linuxSll2 := by
  refine refines_layer _ <| refines_read reads_be16 fun proto => refines_read reads_be16 fun _ => ?_
  refine refines_read reads_be32 fun _ => refines_set (fun _ => rfl) ?_
  refine refines_read reads_be16 fun _ => refines_read reads_u8 fun _ => ?_
  refine refines_read reads_u8 fun addrLen => refines_take 8 fun addr haddr => ?_
  have hproto := ethertypePayload_refines (P := Anywhere) proto
  refine refines_ite (fun _ => ?_) fun _ => refines_link hproto
  refine refines_address haddr ?_
  exact refines_link <| refines_link hproto

theorem wlanSsid_refines : Refines P wlanSsid PcapRacer.Link.wlanSsid := by
  refine refines_bind (refines_tryRead reads_u8) fun tag => ?_
  cases tag with
  | none => exact refines_pure _
  | some tag =>
      refine refines_ite (fun _ => ?_) fun _ => refines_pure _
      refine refines_bind (refines_tryRead reads_u8) fun len => ?_
      cases len with
      | none => exact refines_pure _
      | some len =>
          refine refines_bind (refines_tryTake _) fun ssid => ?_
          cases ssid with
          | none => exact refines_pure _
          | some ssid => exact refines_last fun _ => rfl

theorem ieee80211_refines : Refines P ieee80211 PcapRacer.Link.ieee80211 := by
  refine refines_layer _ <| refines_read reads_le16 fun fc => refines_link ?_
  refine refines_read reads_le16 fun _ => refines_mac fun _ _ => refines_mac fun _ _ => ?_
  refine refines_mac fun _ _ => refines_read reads_le16 fun _ => refines_link ?_
  refine refines_ite (fun _ => ?_) fun _ => refines_ite (fun _ => ?_) fun _ => refines_pure _
  · have hssid : Refines Anywhere (wlanSsid >>= fun _ => pure Onward.done)
        (PcapRacer.Link.wlanSsid >>= fun _ => pure Onward.done) :=
      refines_bind wlanSsid_refines fun _ => refines_pure _
    refine refines_ite (fun _ => ?_) fun _ => hssid
    have hskip := refines_bind (P := Anywhere) (refines_trySkip 12) fun _ => hssid
    rw [bind_assoc] at hskip
    exact hskip
  · exact refines_when (refines_skip 6) fun _ => refines_pure _

theorem radiotap_refines : Refines P radiotap PcapRacer.Link.radiotap := by
  refine refines_layer _ <| refines_read reads_u8 fun _ => refines_read reads_u8 fun _ => ?_
  refine refines_read reads_le16 fun len => refines_unless fun hlen => ?_
  refine refines_machine (Machine.sub_of_le (Nat.le_of_not_lt hlen)) ?_
  exact refines_bind (refines_skip _) fun _ => ieee80211_refines

theorem loopback_refines : Refines P loopback PcapRacer.Link.loopback := by
  refine refines_read reads_le32 fun af => refines_layer _ ?_
  generalize af.toNat = n
  split
  all_goals first
    | exact refines_pure _
    | simp [*, refines_fail]

theorem ppp_refines : Refines P ppp PcapRacer.Link.ppp :=
  refines_layer _ <| refines_read reads_be16 fun proto => refines_link <| pppPayload_refines proto

theorem dissectLink_refines (linktype : UInt16) :
    Refines P (dissectLink linktype) (PcapRacer.Link.dissectLink linktype) := by
  unfold dissectLink PcapRacer.Link.dissectLink
  generalize linktype.toNat = n
  split
  all_goals first
    | exact refines_pure _
    | exact rawIp_refines
    | exact loopback_refines
    | exact linuxSll_refines
    | exact linuxSll2_refines
    | exact ppp_refines
    | exact ieee80211_refines
    | exact radiotap_refines
    | simp [*, refines_fail]

end Link

/-! ### Tunnels -/

namespace Tunnel

theorem erspan_refines (proto : UInt16) :
    Refines P (erspan proto) (PcapRacer.Tunnel.erspan proto) := by
  refine refines_bind (refines_enter _) fun _ => refines_read reads_be32 fun w => ?_
  by_cases h : proto = 0x88be
  · rw [if_neg (not_not_intro h), if_pos h]
    exact refines_tunnel <| refines_pure _
  · rw [if_pos h, if_neg h]
    exact refines_tunnel <| refines_bind (refines_skip 8) fun _ => refines_pure _

/-- A field that is there only sometimes. -/
theorem refines_field {β : Type} {p : Prop} [Decidable p] {g : Checked β} {f : Unit → Header β}
    {w : UInt32 → TunnelCols → TunnelCols} (h : Refines Anywhere g (f ())) :
    Refines P (if p then be32 >>= fun _ => g else g)
      (if p then Header.read .be32 >>= fun a => Header.tunnel (w a) >>= f else f ()) :=
  refines_ite (fun _ => refines_read reads_be32 fun _ => refines_tunnel h)
    fun _ => h.mono fun _ _ => trivial

theorem gre_refines : Refines P gre PcapRacer.Tunnel.gre := by
  refine refines_read reads_be16 fun flags => refines_read reads_be16 fun proto => ?_
  refine refines_tunnel <| refines_when (refines_skip 4) fun _ => refines_field ?_
  refine refines_field <| refines_ite (fun _ => erspan_refines proto) fun _ => ?_
  refine refines_bind (refines_enter _) fun _ => ?_
  generalize proto.toNat = n
  split
  all_goals first
    | exact refines_pure _
    | simp [*, refines_fail]

theorem ipInIp_refines (innerIsV6 : Bool) :
    Refines P (ipInIp innerIsV6) (PcapRacer.Tunnel.ipInIp innerIsV6) :=
  refines_bind (refines_enter _) fun _ => refines_pure _

theorem vxlan_refines : Refines P vxlan PcapRacer.Tunnel.vxlan := by
  refine refines_read reads_u8 fun flags => refines_bind (refines_skip 3) fun _ => ?_
  refine refines_read reads_be32 fun vniRes => refines_unless fun _ => ?_
  exact refines_bind (refines_enter _) fun _ => refines_tunnel <| refines_pure _

theorem geneve_refines : Refines P geneve PcapRacer.Tunnel.geneve := by
  refine refines_read reads_u8 fun verOptlen => refines_read reads_u8 fun _ => ?_
  refine refines_read reads_be16 fun proto => refines_read reads_be32 fun vniRes => ?_
  refine refines_bind (refines_enter _) fun _ => refines_tunnel ?_
  have hlt := (verOptlen &&& 0x3f).toNat_lt
  refine refines_machine (Machine.mul_of_lt (by unfold Machine.usize; omega)) ?_
  refine refines_bind (refines_skip _) fun _ => ?_
  generalize proto.toNat = n
  split
  all_goals first
    | exact refines_pure _
    | simp [*, refines_fail]

theorem gtpExtensions_refines (guard : ℕ) (next : UInt8) :
    Refines P (gtpExtensions guard next) (PcapRacer.Tunnel.gtpExtensions guard next) := by
  induction guard generalizing P next with
  | zero =>
      unfold gtpExtensions PcapRacer.Tunnel.gtpExtensions
      exact refines_ite (fun _ => refines_pure _) fun _ => refines_fail _
  | succ guard ih =>
      unfold gtpExtensions PcapRacer.Tunnel.gtpExtensions
      refine refines_ite (fun _ => refines_pure _) fun _ => ?_
      refine refines_read reads_u8 fun len => refines_unless fun hlen => ?_
      have hlt := len.toNat_lt
      have hpos : len.toNat ≠ 0 := fun h => hlen (UInt8.toNat_inj.mp h)
      refine refines_machine (Machine.mul_of_lt (by unfold Machine.usize; omega)) ?_
      refine refines_machine (Machine.sub_of_le (by omega)) ?_
      refine refines_bind (refines_skip _) fun _ => refines_read reads_u8 fun next => ?_
      exact ih next

theorem gtp_refines : Refines P gtp PcapRacer.Tunnel.gtp := by
  refine refines_read reads_u8 fun flags => refines_read reads_u8 fun msgType => ?_
  refine refines_read reads_be16 fun _ => refines_read reads_be32 fun teid => ?_
  refine refines_bind (refines_enter _) fun _ => refines_tunnel ?_
  have hpacket : Refines Anywhere (if msgType ≠ 255 then pure Onward.done else Link.rawIp)
      (if msgType ≠ 255 then pure Onward.done else PcapRacer.Link.rawIp) :=
    refines_ite (fun _ => refines_pure _) fun _ => Link.rawIp_refines
  refine refines_ite (fun _ => ?_) fun _ => hpacket
  refine refines_bind (refines_skip 3) fun _ => refines_read reads_u8 fun next => ?_
  exact refines_bind (gtpExtensions_refines 8 next) fun _ => hpacket

theorem l2tp_refines : Refines P l2tp PcapRacer.Tunnel.l2tp := by
  refine refines_read reads_be16 fun flags => refines_bind (refines_enter _) fun _ => ?_
  refine refines_when (refines_skip 2) fun _ => refines_read reads_be16 fun tunnelId => ?_
  refine refines_tunnel <| refines_read reads_be16 fun sessionId => refines_tunnel ?_
  refine refines_ite (fun _ => refines_pure _) fun _ => ?_
  refine refines_when (refines_skip 4) fun _ => refines_when (refines_skip 2) fun _ => ?_
  refine refines_peek fun b _ => refines_when (refines_skip 2) fun _ => ?_
  exact refines_read reads_be16 fun proto => refines_link <| Link.pppPayload_refines proto

/-- One indicator, and what comes after it. -/
theorem teredoIndicator_refines {rounds m : ℕ} {x y : UInt8}
    (ih : Refines (fun c => c.remaining < rounds ∧ c.remaining ≤ m) (teredoIndicators rounds)
      (PcapRacer.Tunnel.teredoIndicators m)) :
    Refines (fun c => c.remaining < rounds + 1 ∧ c.remaining ≤ m + 1)
      (if x = 0x00 ∧ y = 0x01 then
        skip 2 >>= fun _ => u8 >>= fun idLen => u8 >>= fun auLen =>
          machine (Machine.add Machine.usize idLen.toNat auLen.toNat) >>= fun ids =>
            machine (Machine.add Machine.usize ids 8) >>= fun nonce =>
              machine (Machine.add Machine.usize nonce 1) >>= fun n =>
                skip n >>= fun _ => teredoIndicators rounds
      else if x = 0x00 ∧ y = 0x00 then skip 8 >>= fun _ => teredoIndicators rounds
      else pure ())
      (match some [x, y] with
        | some [0x00, 0x01] =>
            Header.skip 2 >>= fun _ => Header.read .u8 >>= fun idLen =>
              Header.read .u8 >>= fun auLen =>
                Header.skip (idLen.toNat + auLen.toNat + 8 + 1) >>= fun _ =>
                  PcapRacer.Tunnel.teredoIndicators m
        | some [0x00, 0x00] => Header.skip 8 >>= fun _ => PcapRacer.Tunnel.teredoIndicators m
        | _ => pure ()) := by
  have hstep : ∀ {n : ℕ}, 0 < n → After n
      (fun c => c.remaining < rounds + 1 ∧ c.remaining ≤ m + 1)
      (fun c => c.remaining < rounds ∧ c.remaining ≤ m) := fun hn c h hc =>
    ⟨fewer hn c h hc.1, Nat.le_of_lt_succ (fewer hn c h (Nat.lt_succ_of_le hc.2))⟩
  have hkeep : ∀ {n : ℕ}, After n (fun c => c.remaining < rounds ∧ c.remaining ≤ m)
      (fun c => c.remaining < rounds ∧ c.remaining ≤ m) := fun {n} c h hc => by
    have := (c.advance_within n h).remaining_le
    omega
  by_cases hauth : x = 0x00 ∧ y = 0x01
  · obtain ⟨rfl, rfl⟩ := hauth
    rw [if_pos ⟨rfl, rfl⟩]
    refine refines_skip_at (hstep (by omega)) <| refines_read_at reads_u8 hkeep fun idLen => ?_
    refine refines_read_at reads_u8 hkeep fun auLen => ?_
    have hid := idLen.toNat_lt
    have hau := auLen.toNat_lt
    refine refines_machine (Machine.add_of_lt (by unfold Machine.usize; omega)) ?_
    refine refines_machine (Machine.add_of_lt (by unfold Machine.usize; omega)) ?_
    refine refines_machine (Machine.add_of_lt (by unfold Machine.usize; omega)) ?_
    exact refines_skip_at hkeep ih
  rw [if_neg hauth]
  by_cases horigin : x = 0x00 ∧ y = 0x00
  · obtain ⟨rfl, rfl⟩ := horigin
    rw [if_pos ⟨rfl, rfl⟩]
    exact refines_skip_at (hstep (by omega)) ih
  · rw [if_neg horigin]
    split
    · next h => cases h; exact absurd ⟨rfl, rfl⟩ hauth
    · next h => cases h; exact absurd ⟨rfl, rfl⟩ horigin
    · exact refines_pure _

/-- An indicator has eight bytes at least, so the rounds suffice. -/
theorem teredoIndicators_refines (rounds m : ℕ) :
    Refines (fun c => c.remaining < rounds ∧ c.remaining ≤ m) (teredoIndicators rounds)
      (PcapRacer.Tunnel.teredoIndicators m) := by
  induction rounds generalizing m with
  | zero => exact fun c s hc => absurd hc.1 (Nat.not_lt_zero _)
  | succ rounds ih =>
      cases m with
      | zero =>
          intro c s hc hadr hs
          have hnone : c.peek 2 = none := if_neg (by omega)
          unfold teredoIndicators
          rw [run_bind, run_peek s.depth hadr, hnone]
          exact ⟨rfl, hs⟩
      | succ m =>
          refine refines_peek fun o ho => ?_
          match o, ho with
          | none, _ => exact refines_pure _
          | some [x, y], _ =>
              refine refines_machine (a := x) rfl <| refines_machine (a := y) rfl ?_
              exact teredoIndicator_refines (ih m)
          | some [], h => cases h [] rfl
          | some [x], h => cases h [x] rfl
          | some (x :: y :: z :: b), h => cases h _ rfl

theorem teredo_refines : Refines P teredo PcapRacer.Tunnel.teredo := by
  refine refines_remaining fun n => refines_bind ?_ fun _ => ?_
  · exact (teredoIndicators_refines (n + 1) n).mono fun c hc => by omega
  · refine refines_bind refines_peekU8 fun b => refines_unless fun _ => ?_
    exact refines_bind (refines_enter _) fun _ => refines_tunnel <| refines_pure _

theorem tryUdpTunnel_refines (sport dport : UInt16) :
    (tryUdpTunnel sport dport = none ∧ PcapRacer.Tunnel.tryUdpTunnel sport dport = none) ∨
      ∃ g d, tryUdpTunnel sport dport = some g ∧
        PcapRacer.Tunnel.tryUdpTunnel sport dport = some d ∧ Refines P g d := by
  unfold tryUdpTunnel PcapRacer.Tunnel.tryUdpTunnel
  split
  · exact .inr ⟨_, _, rfl, rfl, vxlan_refines⟩
  split
  · exact .inr ⟨_, _, rfl, rfl, geneve_refines⟩
  split
  · exact .inr ⟨_, _, rfl, rfl, gtp_refines⟩
  split
  · exact .inr ⟨_, _, rfl, rfl, l2tp_refines⟩
  split
  · exact .inr ⟨_, _, rfl, rfl, teredo_refines⟩
  · exact .inl ⟨rfl, rfl⟩

end Tunnel

/-! ### The transport layer -/

namespace Transport

theorem sackBlocks_eq {count : ℕ} {body : Bytes} (h : count * 8 ≤ body.length) :
    tcpOption.sackBlocks count body = pure () := by
  induction count generalizing body with
  | zero => rfl
  | succ count ih =>
      have hchunk : ((body.take 8).drop 0).length = 8 := by
        rw [List.drop_zero, List.length_take]
        omega
      unfold tcpOption.sackBlocks
      rw [run_machine_bind (Machine.slice_of_le (by omega) (by omega)),
        run_machine_bind (Machine.indices_of_length hchunk)]
      exact ih (by rw [List.length_drop]; omega)

/-- No access to the body of an option faults. -/
theorem tcpOption_eq (kind : UInt8) (body : Bytes) : tcpOption kind body = pure () := by
  unfold tcpOption
  split
  · split
    · next h => rw [run_machine_bind (Machine.indices_of_length h)]
    · rfl
  · split
    · next h => rw [run_machine_bind (Machine.index_of_lt (h ▸ Nat.one_pos))]
    · rfl
  · exact sackBlocks_eq (Nat.div_mul_le_self _ _)
  · split
    · next h => rw [run_machine_bind (Machine.indices_of_length h)]
    · rfl
  · rfl

theorem optionLoop_settles (rounds : ℕ) :
    Settles (fun c => c.remaining < rounds) (optionLoop rounds) := by
  induction rounds with
  | zero => exact fun c depth hc => absurd hc (Nat.not_lt_zero _)
  | succ rounds ih =>
      have hkeep : ∀ {n : ℕ}, After n (fun c => c.remaining < rounds)
          fun c => c.remaining < rounds :=
        fun {n} c h hc => lt_of_le_of_lt (c.advance_within n h).remaining_le hc
      refine settles_attempt reads_u8 (fewer Nat.one_pos) settles_pure fun _ kind _ _ => ?_
      refine settles_ite (fun _ => settles_pure) fun _ => settles_ite (fun _ => ih) fun _ => ?_
      refine settles_attempt reads_u8 hkeep settles_pure fun _ len _ _ => ?_
      refine settles_ite (fun hlen => ?_) fun _ => settles_pure
      refine settles_machine (Machine.sub_of_le (UInt8.le_iff_toNat_le.mp hlen)) ?_
      refine settles_attempt (reads_take _) hkeep settles_pure fun _ body _ _ => ?_
      dsimp only
      rw [tcpOption_eq]
      exact ih

theorem recordPayload_eq (payload : Bytes) : recordPayload payload = pure () := by
  unfold recordPayload
  split
  · rw [run_machine_bind (Machine.slice_of_le (Nat.zero_le _) (Nat.min_le_left _ _)),
      run_machine_bind (Machine.slice_of_le (Nat.zero_le _) (Nat.min_le_left _ _))]
  · rfl

/-- A payload is looked at, and handed over. -/
theorem refines_payload (p : Payload) :
    Refines P (rest >>= fun payload => recordPayload payload >>= fun _ => pure (Onward.payload p))
      (pure (Onward.payload p)) := by
  refine refines_rest fun payload => ?_
  rw [recordPayload_eq]
  exact refines_pure _

theorem tcp_refines (src dst : IpAddr) : Refines P tcp (PcapRacer.Transport.tcp src dst) := by
  refine refines_layer _ <| refines_start fun start => ?_
  refine refines_read_at reads_be16 further fun sport => ?_
  refine refines_read_at reads_be16 further fun dport => ?_
  refine refines_read_at reads_be32 further fun seq => refines_read_at reads_be32 further fun ack => ?_
  refine refines_read_at reads_be16 further fun offsetFlags => ?_
  refine refines_read_at reads_be16 further fun window => ?_
  refine refines_read_at reads_be16 further fun checksum => ?_
  refine refines_read_at reads_be16 further fun urgent => ?_
  have hoffset : (offsetFlags >>> 12).toNat < 16 := by
    have := offsetFlags.toNat_lt
    rw [UInt16.toNat_shiftRight]
    simp [Nat.shiftRight_eq_div_pow]
    omega
  refine refines_machine (Machine.mul_of_lt (by unfold Machine.usize; omega)) ?_
  refine refines_transport <| refines_set (fun _ => rfl) <| refines_remaining_right fun m => ?_
  by_cases h20 : 20 ≤ (offsetFlags >>> 12).toNat * 4
  · rw [if_pos h20]
    refine refines_pos (n := 20) (fun _ hc => hc.1) <| refines_machine (consumed start 20) ?_
    refine refines_machine (Machine.sub_of_le h20) ?_
    refine refines_remaining_known (fun _ hc => hc.2) ?_
    refine refines_ite (fun _ => ?_) fun _ => refines_payload _
    refine refines_take _ fun opts hopts => ?_
    refine refines_aside (Cur.new opts) (optionLoop_settles _) (Nat.lt_succ_self _) ?_ ?_
    · change 0 + opts.length < 2 ^ 63
      omega
    · exact refines_transport <| refines_payload _
  · have hnone : ¬ (0 < (offsetFlags >>> 12).toNat * 4 - 20 ∧
        (offsetFlags >>> 12).toNat * 4 - 20 ≤ m) := by omega
    rw [if_neg h20, if_neg hnone]
    exact refines_payload _

theorem udpPayload_refines (sport dport : UInt16) :
    Refines P (udpPayload sport dport) (PcapRacer.Transport.udpPayload sport dport) := by
  unfold udpPayload PcapRacer.Transport.udpPayload
  obtain ⟨hg, hd⟩ | ⟨g, d, hg, hd, hrefines⟩ :=
    Tunnel.tryUdpTunnel_refines (P := P) sport dport
  · rw [hg, hd]
    exact refines_payload _
  · rw [hg, hd]
    exact hrefines

theorem udp_refines (src dst : IpAddr) (proto : UInt8) :
    Refines P udp (PcapRacer.Transport.udp src dst proto) := by
  refine refines_layer _ <| refines_read reads_be16 fun sport => ?_
  refine refines_read reads_be16 fun dport => refines_read reads_be16 fun len => ?_
  refine refines_read reads_be16 fun checksum => refines_transport ?_
  refine refines_set (fun _ => rfl) <| refines_remaining_right fun m => ?_
  by_cases h8 : 8 ≤ len.toNat
  · rw [if_pos h8]
    refine refines_machine (Machine.sub_of_le h8) <| refines_remaining_known (fun _ hc => hc.2) ?_
    by_cases hwant : len.toNat - 8 < m
    · rw [if_pos hwant, if_pos ⟨h8, hwant⟩]
      exact refines_bind (refines_confine _) fun _ => udpPayload_refines sport dport
    · rw [if_neg hwant, if_neg fun h => hwant h.2]
      exact udpPayload_refines sport dport
  · rw [if_neg h8, if_neg fun h => h8 h.1]
    exact udpPayload_refines sport dport

theorem chunks_settles (count : ℕ) : Settles Anywhere (chunks count) := by
  induction count with
  | zero => exact settles_pure
  | succ count ih =>
      refine settles_attempt reads_u8 anywhere settles_pure fun _ _ _ _ => ?_
      refine settles_attempt reads_u8 anywhere settles_pure fun _ _ _ _ => ?_
      refine settles_attempt reads_be16 anywhere settles_pure fun _ len _ _ => ?_
      refine settles_ite (fun hlen => ?_) fun _ => settles_pure
      have hlt := len.toNat_lt
      refine settles_machine (Machine.sub_of_le (UInt16.le_iff_toNat_le.mp hlen)) ?_
      refine settles_machine (Machine.add_of_lt (by unfold Machine.usize; omega)) ?_
      exact settles_attempt (reads_skip _) anywhere settles_pure fun _ _ _ _ => ih

theorem sctp_refines (src dst : IpAddr) : Refines P sctp (PcapRacer.Transport.sctp src dst) := by
  refine refines_layer _ <| refines_read reads_be16 fun sport => ?_
  refine refines_read reads_be16 fun dport => refines_read reads_be32 fun vtag => ?_
  refine refines_read reads_be32 fun checksum => refines_transport <| refines_set (fun _ => rfl) ?_
  refine refines_cursor fun c hadr => ?_
  refine refines_aside c (chunks_settles 64) trivial hadr ?_
  exact refines_ite_right (refines_transport <| refines_pure _) (refines_pure _)

end Transport

/-! ### The network layer -/

namespace Network

/-- The payload of an IPv4 packet is clamped to its total length. -/
theorem refines_clamp {β : Type} (start used total : ℕ) {k : Unit → Checked β}
    {f : Unit → Header β} (hk : ∀ u, Refines Anywhere (k u) (f u)) :
    Refines (At start used)
      (pos >>= fun p => machine (Machine.sub p start) >>= fun consumed =>
        if consumed < total then
          machine (Machine.sub total consumed) >>= fun want => remaining >>= fun left =>
            if want < left then confine want >>= k else k ()
        else k ())
      (Header.remaining >>= fun left =>
        if used < total ∧ total - used < left then Header.confine (total - used) >>= f
        else f ()) := by
  have hgo : ∀ {P : Cur → Prop}, Refines P (k ()) (f ()) :=
    (hk ()).mono fun _ _ => trivial
  refine refines_remaining_right fun m => refines_pos (fun _ hc => hc.1) ?_
  refine refines_machine (consumed start used) ?_
  by_cases hused : used < total
  · rw [if_pos hused]
    refine refines_machine (Machine.sub_of_le (Nat.le_of_lt hused)) ?_
    refine refines_remaining_known (fun _ hc => hc.2) ?_
    by_cases hwant : total - used < m
    · rw [if_pos hwant, if_pos ⟨hused, hwant⟩]
      exact refines_bind (refines_confine _) hk
    · rw [if_neg hwant, if_neg fun h => hwant h.2]
      exact hgo
  · rw [if_neg hused, if_neg fun h => hused h.1]
    exact hgo

theorem ipv4_refines : Refines P ipv4 PcapRacer.Network.ipv4 := by
  refine refines_layer _ <| refines_start fun start => ?_
  refine refines_read_at reads_u8 further fun verIhl => refines_unless fun _ => ?_
  have hihl : (verIhl &&& 0x0f).toNat < 16 := by
    rw [UInt8.toNat_and]
    exact lt_of_le_of_lt Nat.and_le_right (by decide)
  refine refines_machine (Machine.mul_of_lt (by unfold Machine.usize; omega)) ?_
  refine refines_unless fun h20 => refines_read_at reads_u8 further fun tos => ?_
  refine refines_read_at reads_be16 further fun totalLen => ?_
  refine refines_read_at reads_be16 further fun id => ?_
  refine refines_read_at reads_be16 further fun flagsFrag => ?_
  refine refines_read_at reads_u8 further fun ttl => refines_read_at reads_u8 further fun proto => ?_
  refine refines_read_at reads_be16 further fun checksum => ?_
  refine refines_read_at reads_ipv4 further fun src => refines_read_at reads_ipv4 further fun dst => ?_
  have hoffset : (flagsFrag &&& 0x1fff).toNat ≤ 0x1fff := by
    rw [UInt16.toNat_and]
    exact Nat.and_le_right
  have height : UInt16.ofNat ((flagsFrag &&& 0x1fff).toNat * 8) = (flagsFrag &&& 0x1fff) * 8 := by
    simp
  refine refines_machine (Machine.mul_of_lt (by omega)) <| refines_net ?_
  by_cases hopts : 20 < (verIhl &&& 0x0f).toNat * 4
  · rw [if_pos hopts, if_pos hopts]
    refine refines_machine (Machine.sub_of_le (Nat.le_of_lt hopts)) ?_
    refine refines_take_at _ further fun opts _ => refines_net ?_
    refine (refines_clamp start _ _ fun _ => ?_).mono fun c hc => ?_
    · rw [height]
      exact refines_pure _
    · unfold At at hc ⊢
      omega
  · rw [if_neg hopts, if_neg hopts]
    refine (refines_clamp start _ _ fun _ => ?_).mono fun c hc => ?_
    · rw [height]
      exact refines_pure _
    · unfold At at hc ⊢
      omega

theorem extensionChain_refines (guard : ℕ) (chain : PcapRacer.Network.ExtChain) :
    Refines P (extensionChain guard chain) (PcapRacer.Network.extensionChain guard chain) := by
  induction guard generalizing P chain with
  | zero => exact refines_fail _
  | succ guard ih =>
      have hstep : ∀ (chain : PcapRacer.Network.ExtChain), Refines Anywhere
          (extensionChain guard chain) (PcapRacer.Network.extensionChain guard chain) :=
        fun chain => ih chain
      unfold extensionChain PcapRacer.Network.extensionChain
      cases PcapRacer.Network.optionHeaderName chain.proto with
      | some name =>
          refine refines_read reads_u8 fun nh => refines_read reads_u8 fun len => ?_
          have hlt := len.toNat_lt
          refine refines_machine (Machine.add_of_lt (by unfold Machine.usize; omega)) ?_
          refine refines_machine (Machine.mul_of_lt (by unfold Machine.usize; omega)) ?_
          refine refines_machine (Machine.sub_of_le (by omega)) ?_
          exact refines_bind (refines_skip _) fun _ => hstep _
      | none =>
          refine refines_ite (fun _ => ?_) fun _ => ?_
          · refine refines_read reads_u8 fun nh => refines_read reads_u8 fun _ => ?_
            refine refines_read reads_be16 fun _ => refines_read reads_be32 fun _ => ?_
            exact refines_net <| hstep _
          · refine refines_ite (fun _ => ?_) fun _ => refines_pure _
            refine refines_read reads_u8 fun nh => refines_read reads_u8 fun len => ?_
            have hlt := len.toNat_lt
            refine refines_machine (Machine.add_of_lt (by unfold Machine.usize; omega)) ?_
            refine refines_machine (Machine.mul_of_lt (by unfold Machine.usize; omega)) ?_
            refine refines_machine (Machine.sub_of_le (by omega)) ?_
            exact refines_bind (refines_skip _) fun _ => hstep _

theorem ipv6_refines : Refines P ipv6 PcapRacer.Network.ipv6 := by
  refine refines_layer _ <| refines_read reads_be32 fun w => refines_unless fun _ => ?_
  refine refines_read reads_be16 fun _ => refines_read reads_u8 fun nextHeader => ?_
  refine refines_read reads_u8 fun _ => refines_read reads_ipv6 fun src => ?_
  refine refines_read reads_ipv6 fun dst => refines_net <| refines_bind
    (extensionChain_refines _ _) fun chain => ?_
  exact refines_ite_right (refines_net <| refines_net <| refines_pure _)
    (refines_net <| refines_pure _)

theorem esp_refines : Refines P esp PcapRacer.Network.esp := by
  refine refines_layer _ <| refines_read reads_be32 fun _ => refines_net ?_
  exact refines_read reads_be32 fun _ => refines_net <| refines_pure _

theorem icmpEcho_refines : Refines P icmpEcho PcapRacer.Network.icmpEcho := by
  refine refines_read reads_be16 fun _ => refines_net ?_
  exact refines_read reads_be16 fun _ => refines_last fun _ => rfl

theorem icmp_refines : Refines P icmp PcapRacer.Network.icmp := by
  refine refines_layer _ <| refines_read reads_u8 fun t => refines_read reads_u8 fun _ => ?_
  refine refines_read reads_be16 fun _ => refines_net <| refines_ite (fun _ => ?_) fun _ => ?_
  · exact refines_bind icmpEcho_refines fun _ => refines_pure _
  · refine refines_ite (fun _ => ?_) fun _ => refines_ite (fun _ => ?_) fun _ => refines_pure _
    · refine refines_read reads_be16 fun _ => refines_read reads_be16 fun _ => ?_
      exact refines_net <| refines_pure _
    · exact refines_read reads_ipv4 fun _ => refines_net <| refines_pure _

theorem ndOption_refines : Refines P ndOption PcapRacer.Network.ndOption := by
  refine refines_bind (refines_tryRead reads_u8) fun optType => ?_
  refine refines_bind (refines_tryRead reads_u8) fun optLen => ?_
  refine refines_ite (fun _ => ?_) fun _ => refines_pure _
  refine refines_bind (refines_tryRead reads_mac) fun m => ?_
  cases m with
  | none => exact refines_pure _
  | some m => exact refines_last fun _ => rfl

theorem icmpv6_refines : Refines P icmpv6 PcapRacer.Network.icmpv6 := by
  refine refines_layer _ <| refines_read reads_u8 fun t => refines_read reads_u8 fun _ => ?_
  refine refines_read reads_be16 fun _ => refines_net <| refines_ite (fun _ => ?_) fun _ => ?_
  · exact refines_bind icmpEcho_refines fun _ => refines_pure _
  · refine refines_ite (fun _ => ?_) fun _ => refines_pure _
    refine refines_read reads_be32 fun _ => refines_read reads_ipv6 fun _ => refines_net ?_
    exact refines_bind ndOption_refines fun _ => refines_pure _

theorem igmp_refines : Refines P igmp PcapRacer.Network.igmp := by
  refine refines_layer _ <| refines_read reads_u8 fun _ => refines_net ?_
  refine refines_read reads_u8 fun _ => refines_net <| refines_read reads_be16 fun _ => ?_
  exact refines_read reads_ipv4 fun _ => refines_net <| refines_pure _

theorem dispatchIpProto_refines (proto : UInt8) (src dst : IpAddr) :
    Refines P (dispatchIpProto proto) (PcapRacer.Network.dispatchIpProto proto src dst) := by
  unfold dispatchIpProto PcapRacer.Network.dispatchIpProto
  refine refines_set (fun _ => rfl) ?_
  generalize proto.toNat = n
  split
  all_goals first
    | exact Transport.tcp_refines src dst
    | exact Transport.udp_refines src dst proto
    | exact Transport.sctp_refines src dst
    | exact icmp_refines
    | exact icmpv6_refines
    | exact igmp_refines
    | exact Tunnel.gre_refines
    | exact Tunnel.ipInIp_refines _
    | exact esp_refines
    | exact refines_layer _ (refines_pure _)
    | simp [*, refines_fail]

end Network

/-! ### The walk -/

/-- A checked hop against a hop of the model. -/
def RefinesHop (g : Checked Onward) (hop : Cur → Hdr → Option FragMeta → Taken) : Prop :=
  ∀ c s frag, Addressable c → s.depth ≤ PcapRacer.Tunnel.maxDepth →
    g.run c.raw s.depth = .ok (bare (hop c s frag).next, (hop c s frag).hdr.depth) ∧
      (hop c s frag).hdr.depth ≤ PcapRacer.Tunnel.maxDepth

theorem Refines.taken {g : Checked Onward} {d : Header Onward} (h : Refines Anywhere g d) :
    RefinesHop g d.taken := fun c s _ hadr hs => h c s trivial hadr hs

theorem afterIp_refines (d : Datagram) : RefinesHop (Network.afterIp d) (afterIp d) := by
  intro c s frag hadr hs
  have hrest : (Network.afterIp d).run c.raw s.depth =
      (if d.fragOffset ≠ 0 then pure .done
        else Network.dispatchIpProto d.proto : Checked Onward).run c.raw s.depth := by
    unfold Network.afterIp
    rw [run_bind, run_rest]
  rw [hrest]
  unfold afterIp
  dsimp only
  split
  · exact ⟨rfl, hs⟩
  · exact Network.dispatchIpProto_refines d.proto d.src d.dst c s (P := Anywhere) trivial hadr hs

theorem ip_refines {g : Checked Datagram} {header : Header Datagram}
    (h : Refines Anywhere g header) : RefinesHop (g >>= Network.afterIp) (ip header) := by
  intro c s frag hadr hs
  obtain ⟨hrun, hdepth⟩ := h c s trivial hadr hs
  have hwithin := @header.within c s
  unfold ip
  rw [run_bind, hrun]
  generalize header.run c s = y at hdepth hwithin
  rcases y with ⟨x, t⟩
  cases x with
  | error e => exact ⟨rfl, hdepth⟩
  | ok p => exact afterIp_refines p.1 p.2 t frag (hadr.within (hwithin rfl)) hdepth

/-- **No hop faults.** -/
theorem hop_refines (h : Hop) : RefinesHop (hop h) (PcapRacer.hop h) := by
  cases h with
  | ethernet => exact Link.ethernet_refines.taken
  | llc => exact Link.llc_refines.taken
  | vlan => exact Link.vlan_refines.taken
  | mpls => exact Link.mpls_refines.taken
  | pppoe => exact Link.pppoe_refines.taken
  | ipv4 => exact ip_refines Network.ipv4_refines
  | ipv6 => exact ip_refines Network.ipv6_refines

/-- Where a walk ends, but for the cursor. -/
def arrival (stop : Except DissectError (Option (Payload × Cur))) :
    Except DissectError (Option Payload) := stop.map (Option.map Prod.fst)

/-- **A walk with more rounds than bytes goes to its end.** -/
theorem follow_refines {rounds : ℕ} {o : Onward} {c : Cur} {s : Hdr} {frag : Option FragMeta}
    (hc : c.remaining < rounds) (hadr : Addressable c) (hs : s.depth ≤ PcapRacer.Tunnel.maxDepth) :
    ((follow rounds o).run c.raw s.depth).map (fun p => (p.1.map Prod.fst, p.2)) =
        .ok (arrival (PcapRacer.follow rounds o c s frag).stop,
          (PcapRacer.follow rounds o c s frag).hdr.depth) ∧
      (PcapRacer.follow rounds o c s frag).hdr.depth ≤ PcapRacer.Tunnel.maxDepth := by
  induction rounds generalizing o c s frag with
  | zero => exact absurd hc (Nat.not_lt_zero _)
  | succ rounds ih =>
      cases o with
      | done => exact ⟨rfl, hs⟩
      | payload p => exact ⟨rfl, hs⟩
      | hop h =>
          obtain ⟨hrun, hdepth⟩ := hop_refines h c s frag hadr hs
          have hlt := @hop_remaining_lt h c s frag
          have hwithin := @hop_within h c s frag
          have hstep : (follow (rounds + 1) (.hop h)).run c.raw s.depth =
              (hop h >>= follow rounds).run c.raw s.depth := rfl
          rw [hstep, run_bind, hrun]
          cases hx : (PcapRacer.hop h c s frag).next with
          | error e =>
              simp only [PcapRacer.follow, hx]
              exact ⟨rfl, hdepth⟩
          | ok r =>
              simp only [PcapRacer.follow, hx]
              have hr : r.2.remaining < rounds := by
                have := hlt hx
                omega
              exact ih hr (hadr.within (hwithin hx).1) hdepth

end Checked

/-- The bytes of a frame.  A slice has no more bytes than a signed word counts. -/
def Slice : Type := { b : Bytes // b.length < 2 ^ 63 }

/-- **No frame makes a header dissector leave its bytes.**  For every byte string and every link type
the checked walk ends without a fault: no access is out of bounds, no difference, sum or product
leaves its word, no loop runs out of rounds, and no level is entered above the cap.  It ends where
the walk of the model ends. -/
theorem dissectFrame_never_faults (data : Slice) (linktype : UInt16) (pkt : Packet) :
    Checked.dissectFrame data.1 linktype =
        .ok (Checked.arrival
            (journey (Link.dissectLink linktype) (Cur.new data.1) (Ctx.hdr { pkt })).stop,
          (journey (Link.dissectLink linktype) (Cur.new data.1) (Ctx.hdr { pkt })).hdr.depth) ∧
      (journey (Link.dissectLink linktype) (Cur.new data.1) (Ctx.hdr { pkt })).hdr.depth ≤
        Tunnel.maxDepth := by
  have hadr : Checked.Addressable (Cur.new data.1) := by
    change 0 + data.1.length < 2 ^ 63
    rw [Nat.zero_add]
    exact data.2
  obtain ⟨hrun, hdepth⟩ := Checked.Link.dissectLink_refines (P := Checked.Anywhere) linktype
    (Cur.new data.1) (Ctx.hdr { pkt }) trivial hadr (show (0 : UInt8) ≤ Tunnel.maxDepth by decide)
  have hwithin := @(Link.dissectLink linktype).within (Cur.new data.1) (Ctx.hdr { pkt })
  have hwalk : (Checked.Link.dissectLink linktype >>= Checked.follow (data.1.length + 1)).run
      { data := data.1, pos := 0 } 0 = (Checked.Link.dissectLink linktype >>=
        Checked.follow (data.1.length + 1)).run (Cur.new data.1).raw (Ctx.hdr { pkt }).depth := rfl
  unfold Checked.dissectFrame journey
  rw [hwalk, Checked.run_bind, hrun]
  generalize (Link.dissectLink linktype).run (Cur.new data.1) (Ctx.hdr { pkt }) = y
    at hdepth hwithin
  rcases y with ⟨x, t⟩
  cases x with
  | error e => exact ⟨rfl, hdepth⟩
  | ok p =>
      have hin : (Cur.new data.1).Within p.2 := hwithin rfl
      have hlt : p.2.remaining < data.1.length + 1 := Nat.lt_succ_of_le hin.remaining_le
      dsimp only
      rw [follow_of_lt (Nat.lt_succ_self _) hlt]
      exact Checked.follow_refines hlt (hadr.within hin) hdepth

end PcapRacer
