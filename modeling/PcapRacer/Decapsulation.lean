/-
**The walk through packets in packets.**

The walk takes off the headers around a packet one after the other.  What it keeps of them is their
names, the number of tunnels, and the addressing of the outermost tunnel; the innermost packet is
dissected with its own addressing, and its payload is handed on, as if it stood alone.  Eight tunnels
may stand around each other; where there is a ninth the walk ends behind the header that carries it.

Main definitions:

* `Envelope.layers`, `tunnels`, `outermost` — what is kept of the headers;
* `Trail.takeOffAll` — taking off any number of headers;
* `EndsIn` — the innermost transport header, and its payload.

Main results:

* `follow_of_encapsulated` — a walk takes off the headers one after the other;
* `Trail.takeOffAll_of_le`, `Trail.takeOffAll_of_gt` — what is left of them;
* `frames_are_unwrapped` — **the innermost packet is found behind at most eight tunnels, and never
  behind nine**.
-/

import PcapRacer.Encapsulation
import PcapRacer.PayloadRange

set_option relaxedAutoImplicit false
set_option autoImplicit false

namespace PcapRacer

/-! ### What is kept of the headers -/

namespace Envelope

/-- The headers that carry a tunnel header. -/
def carriers (carrier : Layer) (ports : Option (UInt16 × UInt16)) : List Layer :=
  carrier :: if ports.isSome then [.udp] else []

def layers : Envelope → List Layer
  | header layers => layers
  | tunnel carrier _ ports kind => carriers carrier ports ++ [kind]

def isTunnel : Envelope → Bool
  | header _ => false
  | tunnel _ _ _ _ => true

/-- The addressing of a tunnel. -/
def addressing : Envelope → Option (Datagram × Option (UInt16 × UInt16))
  | header _ => none
  | tunnel _ d ports _ => some (d, ports)

end Envelope

/-- The number of tunnels. -/
def tunnels (es : List Envelope) : ℕ := es.countP Envelope.isTunnel

theorem tunnels_cons (e : Envelope) (es : List Envelope) :
    tunnels (e :: es) = [e].countP Envelope.isTunnel + tunnels es :=
  @List.countP_append _ Envelope.isTunnel [e] es

/-- The addressing of the outermost tunnel. -/
def outermost (es : List Envelope) : Option (Datagram × Option (UInt16 × UInt16)) :=
  es.findSome? Envelope.addressing

namespace Trail

/-- Take off headers one after the other. -/
def takeOffAll (t : Trail) : List Envelope → Except DissectError Unit × Trail
  | [] => (.ok (), t)
  | e :: es =>
      match t.takeOff () e with
      | (.error err, t') => (.error err, t')
      | (.ok (), t') => t'.takeOffAll es

/-- The addressing that has moved out. -/
def outer (t : Trail) : (Option Text × Option Text) × (Option UInt16 × Option UInt16) :=
  (t.outerAddrs, t.outerPorts)

/-- The outer columns of a tunnel. -/
def outerOf (a : Datagram × Option (UInt16 × UInt16)) :
    (Option Text × Option Text) × (Option UInt16 × Option UInt16) :=
  ((some a.1.src.toText, some a.1.dst.toText), (a.2.map Prod.fst, a.2.map Prod.snd))

/-- No ports are known yet, or some addressing has moved out. -/
def Clear (t : Trail) : Prop := t.outerAddrs.1 = none → t.ports = (none, none)

section Steps

variable {t : Trail}

theorem foldl_push (ls : List Layer) (t : Trail) :
    ls.foldl push t = { t with stack := t.stack ++ ls } := by
  induction ls generalizing t with
  | nil => simp
  | cons l ls ih =>
      rw [List.foldl_cons, ih]
      simp [push]

/-- Inside a tunnel: one name and one level more, and the addressing has moved out. -/
theorem inside_eq (kind : Layer) :
    (t.inside kind).stack = t.stack ++ [kind] ∧ (t.inside kind).depth = t.depth + 1 ∧
      (t.inside kind).outer = if t.outerAddrs.1.isNone then (t.addrs, t.ports) else t.outer := by
  unfold inside promote push outer
  dsimp only
  split <;> exact ⟨rfl, rfl, rfl⟩

/-- Before a tunnel is entered: the names of the headers that carry it, and their addressing. -/
theorem carried_eq (carrier : Layer) (d : Datagram) (ports : Option (UInt16 × UInt16)) {c : Trail}
    (hc : c = ((t.push carrier).address d.src d.dst).carried d.src d.dst d.proto ports) :
    c.stack = t.stack ++ Envelope.carriers carrier ports ∧ c.depth = t.depth ∧
      c.outer = t.outer ∧ c.addrs = (some d.src.toText, some d.dst.toText) ∧
      (t.ports = (none, none) → c.ports = (ports.map Prod.fst, ports.map Prod.snd)) := by
  subst hc
  cases ports with
  | none => exact ⟨rfl, rfl, rfl, rfl, id⟩
  | some p => exact ⟨List.append_assoc _ _ _, rfl, rfl, rfl, fun _ => rfl⟩

/-- What comes with a header does not matter to what taking it off leaves. -/
theorem takeOff_eq {α : Type} (a : α) (e : Envelope) :
    t.takeOff a e = ((t.takeOff () e).1.map fun _ => a, (t.takeOff () e).2) := by
  cases e with
  | header layers => rfl
  | tunnel carrier d ports kind =>
      unfold takeOff entry
      dsimp only
      split <;> rfl

/-- **Taking off one header**, where there is a level left for it. -/
theorem takeOff_of_room (e : Envelope) (hroom : e.isTunnel = true → t.depth < Tunnel.maxDepth)
    (hclear : t.Clear) :
    ∃ t', t.takeOff () e = (.ok (), t') ∧ t'.Clear ∧ t'.stack = t.stack ++ e.layers ∧
      t'.depth.toNat = t.depth.toNat + [e].countP Envelope.isTunnel ∧
      t'.outer = if t.outerAddrs.1.isNone then (e.addressing.map outerOf).getD t.outer
        else t.outer := by
  cases e with
  | header layers =>
      refine ⟨_, rfl, ?_, ?_, ?_, ?_⟩
      · rw [foldl_push]
        exact hclear
      · rw [foldl_push]
        rfl
      · rw [foldl_push]
        rfl
      · rw [foldl_push]
        split <;> rfl
  | tunnel carrier d ports kind =>
      obtain ⟨c, hc⟩ : ∃ c, c = ((t.push carrier).address d.src d.dst).carried d.src d.dst d.proto
        ports := ⟨_, rfl⟩
      obtain ⟨hstack, hdepth, houter, haddrs, hports⟩ := carried_eq carrier d ports hc
      have hlt : t.depth < Tunnel.maxDepth := hroom rfl
      have hfree : ¬ Tunnel.maxDepth ≤ c.depth := by
        rw [hdepth]
        exact UInt8.not_le.mpr hlt
      obtain ⟨hstack', hdepth', houter'⟩ := inside_eq (t := c) kind
      have hnone : c.outerAddrs.1.isNone = t.outerAddrs.1.isNone :=
        congrArg (fun o => o.1.1.isNone) houter
      rw [hnone, houter, haddrs] at houter'
      refine ⟨c.inside kind, ?_, ?_, ?_, ?_, ?_⟩
      · rw [takeOff, ← hc, entry, if_neg hfree]
      · -- some addressing has moved out by now
        intro hcleared
        have hout : (c.inside kind).outerAddrs.1 = _ := congrArg (fun o => o.1.1) houter'
        rw [hcleared] at hout
        split at hout
        · cases hout
        · next h => exact absurd (Option.isNone_iff_eq_none.mpr hout.symm) h
      · rw [hstack', hstack, List.append_assoc]
        rfl
      · rw [hdepth', hdepth, UInt8.toNat_add]
        have hnat : t.depth.toNat < 8 := UInt8.lt_iff_toNat_lt.mp hlt
        change (t.depth.toNat + 1) % 256 = t.depth.toNat + 1
        omega
      · rw [houter']
        by_cases h : t.outerAddrs.1.isNone
        · rw [if_pos h, if_pos h, hports (hclear (Option.isNone_iff_eq_none.mp h))]
          rfl
        · rw [if_neg h, if_neg h]

/-- **At the cap no tunnel is entered**, and what carries it is the last that is named. -/
theorem takeOff_of_full (carrier : Layer) (d : Datagram) (ports : Option (UInt16 × UInt16))
    (kind : Layer) (hfull : Tunnel.maxDepth ≤ t.depth) :
    ∃ t', t.takeOff () (.tunnel carrier d ports kind) = (.error .depthExceeded, t') ∧
      t'.stack = t.stack ++ Envelope.carriers carrier ports ∧ t'.depth = t.depth := by
  obtain ⟨c, hc⟩ : ∃ c, c = ((t.push carrier).address d.src d.dst).carried d.src d.dst d.proto
    ports := ⟨_, rfl⟩
  obtain ⟨hstack, hdepth, -⟩ := carried_eq carrier d ports hc
  refine ⟨c, ?_, hstack, hdepth⟩
  rw [takeOff, ← hc, entry, if_pos (by rwa [hdepth])]

end Steps

/-! ### Any number of headers -/

/-- **Up to eight tunnels are taken off**, with all headers around them. -/
theorem takeOffAll_of_le {es : List Envelope} {t : Trail} (hclear : t.Clear)
    (h : t.depth.toNat + tunnels es ≤ 8) :
    ∃ t', t.takeOffAll es = (.ok (), t') ∧ t'.stack = t.stack ++ es.flatMap Envelope.layers ∧
      t'.depth.toNat = t.depth.toNat + tunnels es ∧
      t'.outer = if t.outerAddrs.1.isNone then ((outermost es).map outerOf).getD t.outer
        else t.outer := by
  induction es generalizing t with
  | nil => exact ⟨t, rfl, (List.append_nil _).symm, rfl, (ite_self _).symm⟩
  | cons e es ih =>
      have hcount := tunnels_cons e es
      have hroom : e.isTunnel = true → t.depth < Tunnel.maxDepth := by
        intro he
        have hone : [e].countP Envelope.isTunnel = 1 := by rw [List.countP_singleton, if_pos he]
        exact UInt8.lt_iff_toNat_lt.mpr (show t.depth.toNat < 8 by omega)
      obtain ⟨t₁, htake, hclear₁, hstack, hdepth, houter⟩ := takeOff_of_room e hroom hclear
      obtain ⟨t', hall, hstack', hdepth', houter'⟩ := ih hclear₁ (by omega)
      refine ⟨t', ?_, ?_, by omega, ?_⟩
      · rw [takeOffAll, htake]
        exact hall
      · rw [hstack', hstack, List.append_assoc]
        rfl
      · -- the first header with an addressing decides
        have hfirst : t₁.outerAddrs.1 = t₁.outer.1.1 := rfl
        have hcons : outermost (e :: es) = e.addressing.or (outermost es) := by
          rw [outermost, List.findSome?_cons]
          cases e.addressing <;> rfl
        rw [houter', hfirst, houter, hcons]
        by_cases hnone : t.outerAddrs.1.isNone
        · rw [if_pos hnone, if_pos hnone]
          cases e.addressing with
          | none => exact if_pos hnone
          | some a => rfl
        · rw [if_neg hnone, if_neg hnone]
          exact if_neg hnone

/-- **Behind eight tunnels a ninth is not entered.** -/
theorem takeOffAll_of_gt {es : List Envelope} {t : Trail} (hclear : t.Clear)
    (hcap : t.depth.toNat ≤ 8) (h : 8 < t.depth.toNat + tunnels es) :
    ∃ t' before carrier d ports kind behind,
      es = before ++ .tunnel carrier d ports kind :: behind ∧
      t.depth.toNat + tunnels before = 8 ∧ t.takeOffAll es = (.error .depthExceeded, t') ∧
      t'.stack = t.stack ++ before.flatMap Envelope.layers ++ Envelope.carriers carrier ports ∧
      t'.depth = 8 := by
  induction es generalizing t with
  | nil =>
      rw [tunnels, List.countP_nil] at h
      omega
  | cons e es ih =>
      have hcount := tunnels_cons e es
      by_cases hroom : e.isTunnel = true → t.depth < Tunnel.maxDepth
      · obtain ⟨t₁, htake, hclear₁, hstack, hdepth, -⟩ := takeOff_of_room e hroom hclear
        have hcap₁ : t₁.depth.toNat ≤ 8 := by
          rw [hdepth, List.countP_singleton]
          split
          · next he =>
              have hlt : t.depth.toNat < 8 := UInt8.lt_iff_toNat_lt.mp (hroom he)
              omega
          · exact hcap
        obtain ⟨t', before, carrier, d, ports, kind, behind, rfl, height, hall, hstack', hdepth'⟩ :=
          ih hclear₁ hcap₁ (by omega)
        refine ⟨t', e :: before, carrier, d, ports, kind, behind, rfl, ?_, ?_, ?_, hdepth'⟩
        · have hcount' := tunnels_cons e before
          omega
        · rw [takeOffAll, htake]
          exact hall
        · rw [hstack', hstack, List.flatMap_cons, List.append_assoc t.stack]
      · obtain ⟨htunnel, hfull⟩ := Classical.not_imp.mp hroom
        cases e with
        | header layers => cases htunnel
        | tunnel carrier d ports kind =>
            have hle : Tunnel.maxDepth ≤ t.depth := UInt8.not_lt.mp hfull
            obtain ⟨t', htake, hstack, hdepth⟩ := takeOff_of_full carrier d ports kind hle
            have height : t.depth = 8 := by
              have hge : 8 ≤ t.depth.toNat := UInt8.le_iff_toNat_le.mp hle
              exact UInt8.toNat_inj.mp (show t.depth.toNat = 8 by omega)
            refine ⟨t', [], carrier, d, ports, kind, es, rfl, ?_, ?_, ?_, hdepth.trans height⟩
            · rw [height]
              rfl
            · rw [takeOffAll, htake]
            · rw [hstack, List.flatMap_nil, List.append_nil]

end Trail

/-! ### The walk -/

/-- **A walk takes off the headers one after the other**, and goes on with what they stand around,
or ends where one of them cannot be taken off. -/
theorem follow_of_encapsulated {h m : Hop} {x y : Bytes} {es : List Envelope}
    (henc : Encapsulated h x es m y) {c : Cur} {s : Hdr} {n : ℕ} (frag : Option FragMeta)
    (hc : c.rest = x) (hn : c.remaining < n) :
    match s.trail.takeOffAll es with
    | (.error e, t) => (follow n (.hop h) c s frag).stop = .error e ∧
        (follow n (.hop h) c s frag).hdr.trail = t
    | (.ok (), t) => ∃ k c' s' frag', c'.rest = y ∧ s'.trail = t ∧ c'.remaining < k ∧
        follow n (.hop h) c s frag = follow k (.hop m) c' s' frag' := by
  induction henc generalizing c s n frag with
  | nil => exact ⟨n, c, s, frag, hc, rfl, hn, rfl⟩
  | @cons h m k x z y e es hwraps _ ih =>
      obtain ⟨n, rfl⟩ : ∃ n', n = n' + 1 := ⟨n - 1, by omega⟩
      have hhop := hop_of_wraps hwraps c s frag hc rfl
      rw [Trail.takeOff_eq] at hhop
      obtain ⟨hsight, htrail⟩ := Prod.mk.inj hhop
      rw [Trail.takeOffAll, follow_hop, Taken.resume]
      rcases htake : s.trail.takeOff () e with ⟨r, t⟩
      rw [htake] at hsight htrail
      cases hnext : (hop h c s frag).next with
      | error err =>
          rw [hnext] at hsight
          cases r with
          | error err' =>
              cases hsight
              exact ⟨rfl, htrail⟩
          | ok u => cases hsight
      | ok p =>
          rw [hnext] at hsight
          cases r with
          | error err' => cases hsight
          | ok u =>
              obtain ⟨hp, hrest⟩ := Prod.mk.inj (Except.ok.inj hsight)
              have hless := hop_remaining_lt hnext
              dsimp only at htrail hless ⊢
              have hgo := ih (hop h c s frag).frag hrest (show p.2.remaining < n by omega)
                (s := (hop h c s frag).hdr)
              rw [htrail] at hgo
              rw [hp]
              exact hgo

/-! ### The innermost packet -/

/-- A transport header of this protocol: its name, the ports, and the payload. -/
inductive EndsIn : UInt8 → Bytes → Layer → Payload → Bytes → Prop
  | tcp {b : Bytes} (h : 20 ≤ b.length) :
      EndsIn 6 b .tcp ⟨true, Transport.sportOf b, Transport.dportOf b⟩
        (b.drop (Transport.tcpSkip b))
  | udp {proto : UInt8} (hproto : proto = 17 ∨ proto = 136) (u : Transport.UdpHead)
      (hplain : Tunnel.tryUdpTunnel u.sport u.dport = none) (body : Bytes) :
      EndsIn proto (u.bytes body) .udp ⟨false, u.sport, u.dport⟩ (u.payload body)

/-- The tuple of a payload's datagram. -/
def Datagram.tuple (d : Datagram) (p : Payload) : Tuple where
  srcIp := d.src
  dstIp := d.dst
  srcPort := p.sport
  dstPort := p.dport
  proto := d.proto

section Innermost

open Header

variable {h m : Hop} {x z : Bytes} {es : List Envelope} {l kind : Layer} {d : Datagram}
  {p : Payload} {payload : Bytes}

/-- **The transport header ends the walk**, with its ports and the tuple. -/
theorem gives_of_endsIn (src dst : IpAddr) {proto : UInt8} {t : Trail}
    (hends : EndsIn proto z kind p payload) :
    Gives (Network.dispatchIpProto proto src dst) z t (.ok (.payload p, payload),
      (((t.converse src dst 0 0 proto).push kind).port p.sport p.dport).converse src dst p.sport
        p.dport proto) := by
  refine gives_set_bind (φ := fun t => t.converse src dst 0 0 proto) (fun _ => rfl) ?_
  cases hends with
  | tcp hlen => exact Transport.tcp_gives src dst hlen
  | udp hproto u hplain body =>
      have hudp : ∀ t, Gives (Transport.udp src dst proto) (u.bytes body) t
          (.ok (.payload ⟨false, u.sport, u.dport⟩, u.payload body),
            ((t.push .udp).port u.sport u.dport).converse src dst u.sport u.dport proto) :=
        fun t => Transport.udp_gives src dst proto u
          (by rw [Transport.udpPayload, hplain]; exact gives_pure _)
      obtain rfl | rfl := hproto
      · exact hudp _
      · exact hudp _

/-- The link layer of a frame starts with this header. -/
inductive StartsWith : UInt16 → Bytes → Hop → Prop
  | ethernet (x : Bytes) : StartsWith 1 x .ethernet
  | rawIp {linktype : UInt16} (hraw : linktype = 101 ∨ linktype = 228 ∨ linktype = 229) {x : Bytes}
      {m : Hop} (hx : StartsIp m x) : StartsWith linktype x m

/-- The trail of a frame before its first header. -/
def startTrail : Trail where
  stack := []
  depth := 0
  addrs := (none, none)
  ports := (none, none)
  outerAddrs := (none, none)
  outerPorts := (none, none)
  tuple := none

theorem startTrail_depth (n : ℕ) : startTrail.depth.toNat + n = n := Nat.zero_add n

theorem dissectLink_gives {linktype : UInt16} (hstart : StartsWith linktype x h) (t : Trail) :
    Gives (Link.dissectLink linktype) x t (.ok (.hop h, x), t) := by
  cases hstart with
  | ethernet => exact gives_pure _
  | rawIp hraw hx =>
      obtain rfl | rfl | rfl := hraw
      · exact Link.rawIp_gives hx
      · exact Link.rawIp_gives hx
      · exact Link.rawIp_gives hx

/-- A frame's walk starts with its first header. -/
theorem frameJourney_starts {o : Owned} (hstart : StartsWith o.linktype o.data h) :
    ∃ n c s, c.rest = o.data ∧ s.trail = startTrail ∧ c.remaining < n ∧
      frameJourney o = follow n (.hop h) c s none := by
  have hrest : (Cur.new o.data).rest = o.data := List.drop_zero
  obtain ⟨hsight, htrail⟩ := Prod.mk.inj (dissectLink_gives hstart startTrail (Cur.new o.data)
    { ifaceId := some o.ifaceId } hrest rfl)
  unfold frameJourney journey
  rcases hrun : (Link.dissectLink o.linktype).run (Cur.new o.data)
    { ifaceId := some o.ifaceId } with ⟨r, s⟩
  rw [hrun] at hsight htrail
  cases r with
  | error e => cases hsight
  | ok q =>
      obtain ⟨first, c⟩ := q
      obtain ⟨rfl, hc⟩ := Prod.mk.inj (Except.ok.inj hsight)
      exact ⟨c.remaining + 1, c, s, hc, htrail, Nat.lt_succ_self _, rfl⟩

/-- The innermost packet has one header in front of its transport header. -/
theorem follow_of_endsIn (hip : CarriesIp m x l d z) (hwhole : d.fragOffset = 0)
    (hends : EndsIn d.proto z kind p payload) {c : Cur} {s : Hdr} {n : ℕ} (frag : Option FragMeta)
    (hc : c.rest = x) (hn : 0 < n) :
    ∃ c', (follow n (.hop m) c s frag).stop = .ok (some (p, c')) ∧ c'.rest = payload ∧
      (follow n (.hop m) c s frag).hdr.trail =
        ((((((s.trail.push l).address d.src d.dst).converse d.src d.dst 0 0 d.proto).push
          kind).port p.sport p.dport).converse d.src d.dst p.sport p.dport d.proto) := by
  obtain ⟨n, rfl⟩ : ∃ n', n = n' + 1 := ⟨n - 1, by omega⟩
  obtain ⟨hsight, htrail⟩ := Prod.mk.inj
    (hopGives_of_ip hip hwhole (gives_of_endsIn d.src d.dst hends) c s frag hc rfl)
  rw [follow_hop, Taken.resume]
  cases hnext : (hop m c s frag).next with
  | error e =>
      rw [hnext] at hsight
      cases hsight
  | ok q =>
      rw [hnext] at hsight
      obtain ⟨last, c'⟩ := q
      obtain ⟨rfl, hrest⟩ := Prod.mk.inj (Except.ok.inj hsight)
      dsimp only
      cases n with
      | zero => exact ⟨c', rfl, hrest, htrail⟩
      | succ n => exact ⟨c', rfl, hrest, htrail⟩

/-- **A packet behind at most eight tunnels is found, and one behind nine is not.**  Its payload, its
addressing and its tuple are those it has by itself; of the headers around it the names are kept, the
number of tunnels, and the addressing of the outermost one.  At the ninth tunnel the walk gives up,
behind the header that carries it. -/
theorem frames_are_unwrapped {o : Owned} (hstart : StartsWith o.linktype o.data h)
    (henc : Encapsulated h o.data es m x) :
    (tunnels es ≤ 8 → ∀ {l kind : Layer} {d : Datagram} {z payload : Bytes} {p : Payload},
      CarriesIp m x l d z → d.fragOffset = 0 → EndsIn d.proto z kind p payload →
      ∃ c, (frameJourney o).stop = .ok (some (p, c)) ∧ c.rest = payload ∧
        (frameJourney o).hdr.stack = es.flatMap Envelope.layers ++ [l, kind] ∧
        (frameJourney o).hdr.depth.toNat = tunnels es ∧
        (frameJourney o).hdr.trail.addrs = (some d.src.toText, some d.dst.toText) ∧
        (frameJourney o).hdr.trail.ports = (some p.sport, some p.dport) ∧
        (frameJourney o).hdr.tuple = some (d.tuple p) ∧
        (frameJourney o).hdr.trail.outer =
          ((outermost es).map Trail.outerOf).getD ((none, none), (none, none))) ∧
      (8 < tunnels es → ∃ before carrier d ports kind behind,
        es = before ++ .tunnel carrier d ports kind :: behind ∧ tunnels before = 8 ∧
        (frameJourney o).stop = .error .depthExceeded ∧
        (frameJourney o).hdr.stack =
          before.flatMap Envelope.layers ++ Envelope.carriers carrier ports ∧
        (frameJourney o).hdr.depth = 8) := by
  obtain ⟨n, c, s, hc, hs, hn, hjourney⟩ := frameJourney_starts hstart
  have hclear : startTrail.Clear := fun _ => rfl
  have hwalk := follow_of_encapsulated henc (s := s) none hc hn
  rw [hs] at hwalk
  rw [hjourney]
  constructor
  · intro hcap l kind d z payload p hip hwhole hends
    have hroom : startTrail.depth.toNat + tunnels es ≤ 8 := by rwa [startTrail_depth]
    obtain ⟨t, hall, hstack, hdepth, houter⟩ := Trail.takeOffAll_of_le hclear hroom
    rw [hall] at hwalk
    obtain ⟨k, c', s', frag', hrest, htrail, hk, hfollow⟩ := hwalk
    obtain ⟨c'', hstop, hpayload, hlast⟩ :=
      follow_of_endsIn hip hwhole hends (s := s') frag' hrest (Nat.zero_lt_of_lt hk)
    rw [hfollow]
    rw [htrail] at hlast
    have hnames := congrArg Trail.stack hlast
    have hlevels := congrArg (fun t => t.depth.toNat) hlast
    refine ⟨c'', hstop, hpayload, ?_, ?_, congrArg Trail.addrs hlast, congrArg Trail.ports hlast,
      congrArg Trail.tuple hlast, (congrArg Trail.outer hlast).trans houter⟩
    · refine hnames.trans ?_
      change t.stack ++ [l] ++ [kind] = _
      rw [hstack, List.append_assoc]
      rfl
    · rw [startTrail_depth] at hdepth
      exact hlevels.trans hdepth
  · intro hcap
    have hover : 8 < startTrail.depth.toNat + tunnels es := by rwa [startTrail_depth]
    obtain ⟨t, before, carrier, d, ports, kind, behind, hsplit, height, hall, hstack, hdepth⟩ :=
      Trail.takeOffAll_of_gt hclear (Nat.zero_le 8) hover
    rw [hall] at hwalk
    obtain ⟨hstop, htrail⟩ := hwalk
    rw [startTrail_depth] at height
    refine ⟨before, carrier, d, ports, kind, behind, hsplit, height, hstop, ?_, ?_⟩
    · exact (congrArg Trail.stack htrail).trans (hstack.trans (congrArg (· ++ _) (List.nil_append _)))
    · exact (congrArg Trail.depth htrail).trans hdepth

/-- A datagram without options, in the style of a host that sends no fragments. -/
def hostDatagram (proto : UInt8) (src dst : Bytes) (hsrc : src.length = 4) (hdst : dst.length = 4)
    (body : Bytes) (hbody : 20 + body.length < 65536) : V4Datagram where
  verIhl := 0x45
  version := rfl
  tos := 0
  ident := [0, 1]
  length_ident := by decide
  flagsFrag := [0x40, 0]
  length_flagsFrag := by decide
  ttl := 64
  proto
  checksum := [0, 0]
  length_checksum := by decide
  src
  length_src := hsrc
  dst
  length_dst := hdst
  options := []
  ihl := rfl
  body
  length_lt := hbody

/-- A segment between two hosts of an overlay network, with a byte of payload. -/
def overlayDatagram : V4Datagram :=
  hostDatagram 6 [10, 0, 0, 1] [10, 0, 0, 2] rfl rfl
    [0xc0, 0, 0, 80, 0, 0, 0, 1, 0, 0, 0, 1, 0x50, 0x18, 1, 0, 0, 0, 0, 0, 0x2a] (by decide)

/-- The overlay's frame. -/
def overlayFrame : Bytes :=
  [2, 0, 0, 0, 0, 2] ++ ([2, 0, 0, 0, 0, 1] ++ (beBytes 2 (0x0800 : UInt16).toNat ++
    (overlayDatagram.bytes ++ [])))

/-- The UDP header of the tunnel through which the frame is sent. -/
def overlayUdp : Transport.UdpHead := { sport := 0xd000, dport := 4789, len := 71, checksum := 0 }

/-- The datagram that carries the overlay's frame through the underlay. -/
def underlayDatagram : V4Datagram :=
  hostDatagram 17 [192, 0, 2, 1] [192, 0, 2, 2] rfl rfl
    (overlayUdp.bytes (0x08 :: ([0, 0, 0] ++ (beBytes 4 (7 * 256 : UInt32).toNat ++ overlayFrame))))
    (by decide)

/-- What is captured: the underlay's frame, on a VLAN. -/
def overlayCapture : Owned where
  capLen := 121
  origLen := 121
  linktype := 1
  data := [2, 0, 0, 0, 0, 4] ++ ([2, 0, 0, 0, 0, 3] ++ (beBytes 2 (0x8100 : UInt16).toNat ++
    (beBytes 2 (5 : UInt16).toNat ++ (beBytes 2 (0x0800 : UInt16).toNat ++
      (underlayDatagram.bytes ++ [])))))
  data_le := by decide

theorem frames_are_unwrapped_overlay :
    ∃ c, (frameJourney overlayCapture).stop = .ok (some (⟨true, 0xc000, 80⟩, c)) ∧
      c.rest = [0x2a] ∧
      (frameJourney overlayCapture).hdr.stack =
        [.eth, .vlan, .ip, .udp, .vxlan, .eth, .ip, .tcp] ∧
      (frameJourney overlayCapture).hdr.depth.toNat = 1 ∧
      (frameJourney overlayCapture).hdr.trail.addrs =
        (some overlayDatagram.datagram.src.toText, some overlayDatagram.datagram.dst.toText) ∧
      (frameJourney overlayCapture).hdr.trail.outer =
        ((some underlayDatagram.datagram.src.toText, some underlayDatagram.datagram.dst.toText),
          (some 0xd000, some 4789)) := by
  have hwhole : overlayUdp.payload (0x08 :: ([0, 0, 0] ++
      (beBytes 4 (7 * 256 : UInt32).toNat ++ overlayFrame))) = 0x08 :: ([0, 0, 0] ++
      (beBytes 4 (7 * 256 : UInt32).toNat ++ overlayFrame)) := rfl
  have hvxlan : OverUdp Tunnel.vxlan (overlayUdp.payload (0x08 :: ([0, 0, 0] ++
      (beBytes 4 (7 * 256 : UInt32).toNat ++ overlayFrame)))) .vxlan .ethernet overlayFrame := by
    rw [hwhole]
    exact .vxlan (by decide) rfl _ _
  have henc : Encapsulated .ethernet overlayCapture.data
      [.header [.eth], .header [.vlan],
        .tunnel .ip underlayDatagram.datagram (some (0xd000, 4789)) .vxlan, .header [.eth]]
      .ipv4 (overlayDatagram.bytes ++ []) :=
    .cons (.ethernet rfl rfl rfl _) (.cons (.vlan 5 rfl _)
      (.cons (.tunnel (.v4 underlayDatagram (by decide) []) (by decide)
        (.udp (.inl rfl) overlayUdp rfl hvxlan)) (.cons (.ethernet rfl rfl rfl _) (.nil _ _))))
  obtain ⟨c, hstop, hrest, hstack, hdepth, haddrs, -, -, houter⟩ :=
    (frames_are_unwrapped (.ethernet _) henc).1 (by decide)
      (.v4 overlayDatagram (by decide) []) (by decide) (.tcp (by decide))
  exact ⟨c, hstop, hrest, hstack, hdepth, haddrs, houter⟩

end Innermost

end PcapRacer
