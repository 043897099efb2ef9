/-
**Ports and tuple of a transport header.**

Once an IP header is read the tuple is established without ports.  A TCP, UDP or SCTP header that is
there as a whole then writes its ports, to the port columns and to the tuple at once; any other
payload writes neither.  What comes after that leaves both alone, or enters a tunnel.

Main definitions:

* `Transport.headerLen`, `Transport.portsOf` — the ports that a payload carries;
* `Transport.Established` — addresses on record, and the ports and tuple of the payload.

Main results:

* `Network.dispatchIpProto_leaves` — **what dispatching a payload leaves on record**.
-/

import PcapRacer.IpHeaders
import PcapRacer.SplitSegment

set_option relaxedAutoImplicit false
set_option autoImplicit false

namespace PcapRacer

/-! ### Headers that are cut short -/

namespace Header

variable {α β : Type}

/-- With fewer than `n` bytes the dissector gives up, and has written nothing. -/
def Needs (n : ℕ) (d : Header α) : Prop :=
  ∀ c s, c.remaining < n → ∃ e, d.run c s = (.error e, s)

theorem needs_zero (d : Header α) : Needs 0 d := fun _ _ h => absurd h (Nat.not_lt_zero _)

theorem needs_read_bind {n m : ℕ} (g : Bytes → α) {f : α → Header β} (hf : ∀ a, Needs m (f a)) :
    Needs (n + 1 + m) (read (.bytes n g) >>= f) := by
  intro c s h
  by_cases hle : n + 1 ≤ c.remaining
  · have hlen : 0 + (n + 1) ≤ c.rest.length := by
      rw [Cur.length_rest]
      omega
    obtain ⟨c', hrest, hrun⟩ := exists_read_bind (β := β) (i := 0) (b := c.rest) rfl g hlen
    rw [hrun]
    refine hf _ c' s ?_
    rw [← Cur.length_rest, hrest, List.length_drop, Cur.length_rest]
    omega
  · refine ⟨.truncated, ?_⟩
    have hread : (read (.bytes n g)).run c s = (.error .truncated, s) := by
      change ((c.take (n + 1)).map _, s) = _
      rw [Cur.take, dif_neg hle]
      rfl
    rw [run_bind, hread]

end Header

namespace Transport

open Header

/-- The length of a header that carries ports, without its options. -/
def headerLen (proto : UInt8) : Option ℕ :=
  match proto.toNat with
  | 6 => some 20
  | 17 => some 8
  | 136 => some 8
  | 132 => some 12
  | _ => none

/-- The ports that a payload carries: its transport header has some, and is there as a whole. -/
def portsOf (proto : UInt8) (payload : Bytes) : Option (UInt16 × UInt16) :=
  match headerLen proto with
  | none => none
  | some len => if len ≤ payload.length then some (sportOf payload, dportOf payload) else none

/-- The tuple of a payload; one that carries no ports has a tuple without. -/
def tupleOf (proto : UInt8) (src dst : IpAddr) (payload : Bytes) : Tuple :=
  let ports := (portsOf proto payload).getD (0, 0)
  { srcIp := src, dstIp := dst, srcPort := ports.1, dstPort := ports.2, proto }

/-- `t` is `s` with the tuple of the payload, and with its ports if it carries some. -/
structure Established (proto : UInt8) (src dst : IpAddr) (payload : Bytes) (s t : Hdr) : Prop where
  addrs : t.addrs = s.addrs
  ports : t.ports = match portsOf proto payload with
    | some p => (some p.1, some p.2)
    | none => s.ports
  outer : t.tunnel.outerIpSrc = s.tunnel.outerIpSrc
  tuple : t.tuple = some (tupleOf proto src dst payload)
  mark : t.mark = s.mark
  depth : t.depth = s.depth

theorem portsOf_of_le {proto : UInt8} {len : ℕ} {payload : Bytes} (hlen : headerLen proto = some len)
    (h : len ≤ payload.length) :
    portsOf proto payload = some (sportOf payload, dportOf payload) := by
  rw [portsOf, hlen]
  exact if_pos h

theorem portsOf_of_lt {proto : UInt8} {len : ℕ} {payload : Bytes} (hlen : headerLen proto = some len)
    (h : payload.length < len) : portsOf proto payload = none := by
  rw [portsOf, hlen]
  exact if_neg (Nat.not_le.mpr h)

/-- The ports are written to the columns and to the tuple. -/
theorem established_of_ports {proto : UInt8} {len : ℕ} {src dst : IpAddr} {payload : Bytes}
    {s : Hdr} (hlen : headerLen proto = some len) (h : len ≤ payload.length) {t : Hdr}
    (htransport : t.ports = (some (sportOf payload), some (dportOf payload)))
    (htuple : t.tuple = some { srcIp := src, dstIp := dst, srcPort := sportOf payload,
                               dstPort := dportOf payload, proto })
    (hnet : t.net = s.net) (htunnel : t.tunnel = s.tunnel) (hdepth : t.depth = s.depth) :
    Established proto src dst payload s t where
  addrs := by rw [Hdr.addrs, hnet]; rfl
  ports := by rw [portsOf_of_le hlen h]; exact htransport
  outer := by rw [htunnel]
  tuple := by rw [htuple, tupleOf, portsOf_of_le hlen h]; rfl
  mark := by rw [Hdr.mark, hnet]; rfl
  depth := hdepth

/-- Without ports the tuple stays as it was established. -/
theorem established_of_none {proto : UInt8} {src dst : IpAddr} {payload : Bytes} {s t : Hdr}
    (hports : portsOf proto payload = none) (htransport : t.transport = s.transport)
    (htuple : t.tuple = some { srcIp := src, dstIp := dst, srcPort := 0, dstPort := 0, proto })
    (hnet : t.net = s.net) (htunnel : t.tunnel = s.tunnel) (hdepth : t.depth = s.depth) :
    Established proto src dst payload s t where
  addrs := by rw [Hdr.addrs, hnet]; rfl
  ports := by rw [hports, Hdr.ports, htransport]; rfl
  outer := by rw [htunnel]
  tuple := by rw [htuple, tupleOf, hports]; rfl
  mark := by rw [Hdr.mark, hnet]; rfl
  depth := hdepth

/-- The ports and the tuple are written, and then something aloof. -/
theorem leaves_of_writes {β : Type} (f : TransportCols → TransportCols) (src dst : IpAddr)
    (sport dport : UInt16) (proto : UInt8) {d : Header β} {c : Cur}
    (hd : ∀ s, Leaves s (d.run c s).2) (s : Hdr) :
    Leaves { s with transport := f s.transport
                    tuple := some { srcIp := src, dstIp := dst, srcPort := sport, dstPort := dport,
                                    proto } }
      ((transport f >>= fun _ => setTuple src dst sport dport proto >>= fun _ => d).run c s).2 :=
  hd _

theorem tcp_established {c : Cur} (src dst : IpAddr) (s : Hdr) (h : 20 ≤ c.remaining) :
    ∃ t, Established 6 src dst c.rest s t ∧ Leaves t ((tcp src dst).run c s).2 := by
  obtain ⟨c₈, -, hrun⟩ := tcp_of_le src dst s h
  rw [hrun, tcpBody]
  -- the ports are written here, then the tuple, and the options keep both
  refine ⟨_, ?_, leaves_of_writes _ src dst _ _ protoTcp (fun s => ?_) _⟩
  · exact established_of_ports rfl (by rwa [Cur.length_rest]) rfl rfl rfl rfl rfl
  · refine (?_ : Aloof false false _).leaves c₈ s
    refine .bind .remaining fun left => .ite ?_ (.pure _)
    refine .bind (.take _) fun opts => .bind (.transport fun t => ?_) fun _ => .pure _
    obtain ⟨hsrc, hdst, -⟩ := parseTcpOptions_head opts t
    exact ⟨hsrc, hdst⟩

theorem udp_established {c : Cur} (src dst : IpAddr) {proto : UInt8}
    (hproto : headerLen proto = some 8) (s : Hdr) (h : 8 ≤ c.remaining) :
    ∃ t, Established proto src dst c.rest s t ∧ Leaves t ((udp src dst proto).run c s).2 := by
  obtain ⟨b, hb⟩ : ∃ b, c.rest = b := ⟨_, rfl⟩
  have hlen : 8 ≤ b.length := by rwa [← hb, Cur.length_rest]
  obtain ⟨c₁, hb₁, h₁⟩ := exists_read_bind (β := Onward) (n := 1) (i := 0) (b := b) hb
    (fun x => UInt16.ofNat (beNat x)) (by omega)
  obtain ⟨c₂, hb₂, h₂⟩ := exists_read_bind (β := Onward) (n := 1) hb₁
    (fun x => UInt16.ofNat (beNat x)) (by omega)
  obtain ⟨c₃, hb₃, h₃⟩ := exists_read_bind (β := Onward) (n := 1) hb₂
    (fun x => UInt16.ofNat (beNat x)) (by omega)
  obtain ⟨c₄, hb₄, h₄⟩ := exists_read_bind (β := Onward) (n := 1) hb₃
    (fun x => UInt16.ofNat (beNat x)) (by omega)
  rw [hb, show (udp src dst proto).run c s = _ from (h₁ _ _).trans ((h₂ _ _).trans
    ((h₃ _ _).trans (h₄ _ _)))]
  refine ⟨_, ?_, leaves_of_writes _ src dst _ _ proto (fun s => ?_) _⟩
  · exact established_of_ports hproto hlen rfl rfl rfl rfl rfl
  · refine (?_ : Aloof false true _).leaves c₄ s
    refine .bind .remaining fun left => ?_
    exact .ite (.bind (.confine _) fun _ => udpPayload_aloof _ _) (udpPayload_aloof _ _)

theorem sctp_established {c : Cur} (src dst : IpAddr) (s : Hdr) (h : 12 ≤ c.remaining) :
    ∃ t, Established 132 src dst c.rest s t ∧ Leaves t ((sctp src dst).run c s).2 := by
  obtain ⟨b, hb⟩ : ∃ b, c.rest = b := ⟨_, rfl⟩
  have hlen : 12 ≤ b.length := by rwa [← hb, Cur.length_rest]
  obtain ⟨c₁, hb₁, h₁⟩ := exists_read_bind (β := Onward) (n := 1) (i := 0) (b := b) hb
    (fun x => UInt16.ofNat (beNat x)) (by omega)
  obtain ⟨c₂, hb₂, h₂⟩ := exists_read_bind (β := Onward) (n := 1) hb₁
    (fun x => UInt16.ofNat (beNat x)) (by omega)
  obtain ⟨c₃, hb₃, h₃⟩ := exists_read_bind (β := Onward) (n := 3) hb₂
    (fun x => UInt32.ofNat (beNat x)) (by omega)
  obtain ⟨c₄, hb₄, h₄⟩ := exists_read_bind (β := Onward) (n := 3) hb₃
    (fun x => UInt32.ofNat (beNat x)) (by omega)
  rw [hb, show (sctp src dst).run c s = _ from (h₁ _ _).trans ((h₂ _ _).trans
    ((h₃ _ _).trans (h₄ _ _)))]
  -- the chunks are scanned from where the cursor now stands
  have hchunks : (if chunkTypes 64 c₄ ≠ [] then
      transport (fun t => { t with
        sctpChunkTypes := some (Text.join [','] (chunkTypes 64 c₄)),
        sctpNumChunks := some (UInt16.ofNat (chunkTypes 64 c₄).length) }) >>= fun _ => pure .done
      else pure .done : Header Onward).Aloof false false :=
    .ite (.bind (.transport fun _ => ⟨rfl, rfl⟩) fun _ => .pure _) (.pure _)
  refine ⟨_, ?_, leaves_of_writes _ src dst _ _ protoSctp (fun s => ?_) _⟩
  · exact established_of_ports rfl hlen rfl rfl rfl rfl rfl
  · exact hchunks.leaves c₄ s

/-- The tuple that stands before does not matter: it is overwritten. -/
theorem Established.of_tuple {proto : UInt8} {src dst : IpAddr} {payload : Bytes} {s t : Hdr}
    {x : Option Tuple} (h : Established proto src dst payload { s with tuple := x } t) :
    Established proto src dst payload s t :=
  ⟨h.addrs, h.ports, h.outer, h.tuple, h.mark, h.depth⟩

end Transport

namespace Network

open Header Transport

/-- A header that is cut short leaves the tuple without ports. -/
theorem established_of_needs {n : ℕ} {d : Header Onward} {l : Layer} {proto : UInt8}
    {src dst : IpAddr} {c : Cur} {s : Hdr} (hlen : headerLen proto = some n)
    (hlt : c.remaining < n) (hd : Needs n d) :
    ∃ t, Established proto src dst c.rest s t ∧
      Leaves t ((setTuple src dst 0 0 proto >>= fun _ => layer l >>= fun _ => d).run c s).2 := by
  have hports : portsOf proto c.rest = none := by
    refine portsOf_of_lt hlen ?_
    rwa [Cur.length_rest]
  obtain ⟨e, he⟩ := hd c { s with tuple := some { srcIp := src, dstIp := dst, srcPort := 0,
                                                  dstPort := 0, proto },
                                  stack := s.stack ++ [l] } hlt
  have hrun : (setTuple src dst 0 0 proto >>= fun _ => layer l >>= fun _ => d).run c s =
      d.run c { s with tuple := some { srcIp := src, dstIp := dst, srcPort := 0, dstPort := 0,
                                       proto },
                       stack := s.stack ++ [l] } := rfl
  rw [hrun, he]
  refine ⟨_, ?_, .refl _⟩
  exact established_of_none hports rfl rfl rfl rfl rfl

theorem dispatchUdp_leaves {proto : UInt8} (hproto : headerLen proto = some 8) (src dst : IpAddr)
    (c : Cur) (s : Hdr) :
    ∃ t, Established proto src dst c.rest s t ∧
      Leaves t ((setTuple src dst 0 0 proto >>= fun _ => udp src dst proto).run c s).2 := by
  by_cases hle : 8 ≤ c.remaining
  · obtain ⟨t, ht, hleaves⟩ := udp_established src dst hproto { s with tuple := _ } hle
    exact ⟨t, ht.of_tuple, hleaves⟩
  · refine established_of_needs hproto (Nat.not_le.mp hle) ?_
    change Needs (1 + 1 + (1 + 1 + (1 + 1 + (1 + 1 + 0)))) _
    iterate 4 refine needs_read_bind _ fun _ => ?_
    exact needs_zero _

theorem portsOf_of_portless {proto : UInt8} (h : proto.toNat ∉ ported) (payload : Bytes) :
    portsOf proto payload = none := by
  have hlen : headerLen proto = none := by
    unfold headerLen
    split
    · next hp => exact absurd hp fun hp => h (by simp [ported, hp])
    · next hp => exact absurd hp fun hp => h (by simp [ported, hp])
    · next hp => exact absurd hp fun hp => h (by simp [ported, hp])
    · next hp => exact absurd hp fun hp => h (by simp [ported, hp])
    · rfl
  rw [portsOf, hlen]

/-- **What dispatching a payload leaves on record**: the tuple of the payload, its ports if it
carries some, and what aloof dissectors make of them. -/
theorem dispatchIpProto_leaves (proto : UInt8) (src dst : IpAddr) (c : Cur) (s : Hdr) :
    ∃ t, Established proto src dst c.rest s t ∧
      Leaves t ((dispatchIpProto proto src dst).run c s).2 := by
  by_cases hp : proto.toNat ∈ ported
  · simp only [ported, List.mem_cons, List.not_mem_nil, or_false] at hp
    obtain hp | hp | hp | hp := hp
    · obtain rfl : proto = 6 := UInt8.toNat_inj.mp hp
      by_cases hle : 20 ≤ c.remaining
      · obtain ⟨t, ht, hleaves⟩ := tcp_established src dst { s with tuple := _ } hle
        exact ⟨t, ht.of_tuple, hleaves⟩
      · refine established_of_needs rfl (Nat.not_le.mp hle) ?_
        change Needs (1 + 1 + (1 + 1 + (3 + 1 + (3 + 1 + (1 + 1 + (1 + 1 + (1 + 1 +
          (1 + 1 + 0)))))))) _
        iterate 8 refine needs_read_bind _ fun _ => ?_
        exact needs_zero _
    · obtain rfl : proto = 17 := UInt8.toNat_inj.mp hp
      exact dispatchUdp_leaves rfl src dst c s
    · obtain rfl : proto = 136 := UInt8.toNat_inj.mp hp
      exact dispatchUdp_leaves rfl src dst c s
    · obtain rfl : proto = 132 := UInt8.toNat_inj.mp hp
      by_cases hle : 12 ≤ c.remaining
      · obtain ⟨t, ht, hleaves⟩ := sctp_established src dst { s with tuple := _ } hle
        exact ⟨t, ht.of_tuple, hleaves⟩
      · refine established_of_needs rfl (Nat.not_le.mp hle) ?_
        change Needs (1 + 1 + (1 + 1 + (3 + 1 + (3 + 1 + 0)))) _
        iterate 4 refine needs_read_bind _ fun _ => ?_
        exact needs_zero _
  · obtain ⟨d, hd, heq⟩ := dispatchIpProto_portless hp src dst
    rw [heq]
    refine ⟨_, ?_, hd.leaves c { s with tuple := _ }⟩
    exact established_of_none (portsOf_of_portless hp _) rfl rfl rfl rfl rfl

end Network

/-! ### The end of a walk -/

/-- What the end of a walk leaves alone. -/
structure SameHeaders (ctx ctx' : Ctx) : Prop where
  net : ctx'.pkt.net = ctx.pkt.net
  transport : ctx'.pkt.transport = ctx.pkt.transport
  tuple : ctx'.tuple = ctx.tuple
  frag : ctx'.frag = ctx.frag

/-- The end of a walk records the payload and dispatches it, and leaves the headers alone. -/
theorem Ctx.arrive_same [Hashes] {ctx ctx' : Ctx}
    {stop : Except DissectError (Option (Payload × Cur))} {r : Except DissectError Unit}
    (h : ctx.arrive stop = .ok (r, ctx')) : SameHeaders ctx ctx' := by
  cases stop with
  | error e => cases h; exact ⟨rfl, rfl, rfl, rfl⟩
  | ok x =>
      cases x with
      | none => cases h; exact ⟨rfl, rfl, rfl, rfl⟩
      | some pc =>
          obtain ⟨ctx₁, h₁, he⟩ := map_eq_ok_iff.mp h
          cases he
          unfold Ctx.payload at h₁
          dsimp only at h₁
          split at h₁
          · cases h₁
            exact ⟨rfl, rfl, rfl, rfl⟩
          · unfold dispatch at h₁
            split at h₁
            · cases h₁
              exact ⟨rfl, rfl, rfl, rfl⟩
            · obtain ⟨s, -, rfl⟩ := map_eq_ok_iff.mp h₁
              exact ⟨rfl, rfl, rfl, rfl⟩

end PcapRacer
