/-
**Walking a frame.**

`dissectFrame` walks a frame from the link layer down, filling in a packet.  Each header decides the
next one; below the application layer every such hand-over is the last thing a dissector does, so
the walk is a loop over hops.  It ends with nothing left to dissect, with an error, or at a
transport payload, which is recorded and handed to the application dissectors.

Main definitions:

* `Taken`, `afterIp`, `hop` — one hop;
* `Journey`, `follow`, `journey` — the loop, and where it ends;
* `Ctx` — the state threaded through the dissection of a frame;
* `dispatch`, `Ctx.payload`, `dissectFrame` — the application layer, the end of a walk, and the
  whole of it.

Main results:

* `follow_of_lt` — the rounds of the loop never run out;
* `journey_within` — a walk ends inside the bytes it started from;
* `journey_later_fragment` — a fragment that is not the first one ends the walk.
-/

import PcapRacer.AppDispatch
import PcapRacer.Network

set_option relaxedAutoImplicit false
set_option autoImplicit false

namespace PcapRacer

/-! ### One hop -/

/-- What one hop does: the next dissector and its cursor or an error, the columns, and the fragment
recorded so far. -/
structure Taken where
  next : Except DissectError (Onward × Cur)
  hdr : Hdr
  frag : Option FragMeta

/-- A header dissector as a hop. -/
def Header.taken (d : Header Onward) (c : Cur) (s : Hdr) (frag : Option FragMeta) : Taken :=
  { next := (d.run c s).1, hdr := (d.run c s).2, frag }

/-- Once addressing is known: fragment metadata is recorded, and a fragment that is not the first
one has no transport header to read. -/
def afterIp (d : Datagram) (c : Cur) (s : Hdr) (frag : Option FragMeta) : Taken :=
  let frag := (Network.fragMeta d s c).or frag
  if d.fragOffset ≠ 0 then
    { next := .ok (.done, c), hdr := { s with stack := s.stack ++ [.ipFragment] }, frag }
  else (Network.dispatchIpProto d.proto d.src d.dst).taken c s frag

/-- An IP header and what stands after it. -/
def ip (header : Header Datagram) (c : Cur) (s : Hdr) (frag : Option FragMeta) : Taken :=
  match header.run c s with
  | (.error e, s') => { next := .error e, hdr := s', frag }
  | (.ok (d, c'), s') => afterIp d c' s' frag

def hop : Hop → Cur → Hdr → Option FragMeta → Taken
  | .ethernet => Link.ethernet.taken
  | .llc => Link.llc.taken
  | .vlan => Link.vlan.taken
  | .mpls => Link.mpls.taken
  | .pppoe => Link.pppoe.taken
  | .ipv4 => ip Network.ipv4
  | .ipv6 => ip Network.ipv6

/-! ### The loop -/

/-- Where a walk ends. -/
structure Journey where
  /-- The transport payload and its cursor, if there is one. -/
  stop : Except DissectError (Option (Payload × Cur))
  hdr : Hdr
  frag : Option FragMeta

/-- Go on until nothing is left to hand over to. -/
def follow : ℕ → Onward → Cur → Hdr → Option FragMeta → Journey
  | _, .done, _, s, frag => { stop := .ok none, hdr := s, frag }
  | _, .payload p, c, s, frag => { stop := .ok (some (p, c)), hdr := s, frag }
  | 0, .hop _, _, s, frag => { stop := .error .truncated, hdr := s, frag }
  | rounds + 1, .hop h, c, s, frag =>
      match (hop h c s frag).next with
      | .error e => { stop := .error e, hdr := (hop h c s frag).hdr, frag := (hop h c s frag).frag }
      | .ok (o, c') => follow rounds o c' (hop h c s frag).hdr (hop h c s frag).frag

/-- Walk from a first dissector.  Every hop consumes a byte. -/
def journey (first : Header Onward) (c : Cur) (s : Hdr) : Journey :=
  match first.run c s with
  | (.error e, s') => { stop := .error e, hdr := s', frag := none }
  | (.ok (o, c'), s') => follow (c'.remaining + 1) o c' s' none

/-! ### What a hop does -/

theorem afterIp_within {d : Datagram} {c : Cur} {s : Hdr} {frag : Option FragMeta}
    {r : Onward × Cur} (h : (afterIp d c s frag).next = .ok r) : c.Within r.2 := by
  unfold afterIp at h
  dsimp only at h
  split at h
  · cases h
    exact .refl _
  · exact (Network.dispatchIpProto d.proto d.src d.dst).within h

theorem ip_within {header : Header Datagram} (ha : header.Advances) {c : Cur} {s : Hdr}
    {frag : Option FragMeta} {r : Onward × Cur} (h : (ip header c s frag).next = .ok r) :
    c.Within r.2 ∧ c.start < r.2.start := by
  unfold ip at h
  rcases hd : header.run c s with ⟨x, s'⟩
  rw [hd] at h
  cases x with
  | error e => cases h
  | ok p =>
      have hx : (header.run c s).1 = .ok p := by rw [hd]
      have hp := afterIp_within h
      exact ⟨(header.within hx).trans hp, lt_of_lt_of_le (ha hx) hp.start_le⟩

/-- A hop stays in its view and gets past a byte at least. -/
theorem hop_within {h : Hop} {c : Cur} {s : Hdr} {frag : Option FragMeta} {r : Onward × Cur}
    (hr : (hop h c s frag).next = .ok r) : c.Within r.2 ∧ c.start < r.2.start := by
  cases h with
  | ethernet => exact ⟨Link.ethernet.within hr, Link.ethernet_advances hr⟩
  | llc => exact ⟨Link.llc.within hr, Link.llc_advances hr⟩
  | vlan => exact ⟨Link.vlan.within hr, Link.vlan_advances hr⟩
  | mpls => exact ⟨Link.mpls.within hr, Link.mpls_advances hr⟩
  | pppoe => exact ⟨Link.pppoe.within hr, Link.pppoe_advances hr⟩
  | ipv4 => exact ip_within Network.ipv4_advances hr
  | ipv6 => exact ip_within Network.ipv6_advances hr

theorem hop_remaining_lt {h : Hop} {c : Cur} {s : Hdr} {frag : Option FragMeta}
    {r : Onward × Cur} (hr : (hop h c s frag).next = .ok r) : r.2.remaining < c.remaining := by
  obtain ⟨hw, hlt⟩ := hop_within hr
  have := hw.stop_le
  have := c.start_add_remaining
  have := r.2.start_add_remaining
  omega

/-! ### The loop as a whole -/

/-- **The rounds of the loop never run out**: any two numbers of rounds above the number of bytes
give the same walk. -/
theorem follow_of_lt {n m : ℕ} {o : Onward} {c : Cur} {s : Hdr} {frag : Option FragMeta}
    (hn : c.remaining < n) (hm : c.remaining < m) : follow n o c s frag = follow m o c s frag := by
  induction n generalizing m o c s frag with
  | zero => exact absurd hn (Nat.not_lt_zero _)
  | succ n ih =>
      cases m with
      | zero => exact absurd hm (Nat.not_lt_zero _)
      | succ m =>
          cases o with
          | done => rfl
          | payload p => rfl
          | hop h =>
              cases hx : (hop h c s frag).next with
              | error e => simp only [follow, hx]
              | ok r =>
                  have hlt := hop_remaining_lt hx
                  simp only [follow, hx]
                  exact ih (by omega) (by omega)

theorem follow_within {n : ℕ} {o : Onward} {c c' : Cur} {s : Hdr} {frag : Option FragMeta}
    {p : Payload} (h : (follow n o c s frag).stop = .ok (some (p, c'))) : c.Within c' := by
  induction n generalizing o c s frag with
  | zero =>
      cases o with
      | done => cases h
      | payload q => cases h; exact .refl _
      | hop _ => cases h
  | succ n ih =>
      cases o with
      | done => cases h
      | payload q => cases h; exact .refl _
      | hop hp =>
          cases hx : (hop hp c s frag).next with
          | error e => simp only [follow, hx] at h; cases h
          | ok r =>
              simp only [follow, hx] at h
              exact (hop_within hx).1.trans (ih h)

/-- **A walk ends inside the bytes it started from.** -/
theorem journey_within {first : Header Onward} {c c' : Cur} {s : Hdr} {p : Payload}
    (h : (journey first c s).stop = .ok (some (p, c'))) : c.Within c' := by
  unfold journey at h
  rcases hd : first.run c s with ⟨x, s'⟩
  rw [hd] at h
  cases x with
  | error e => cases h
  | ok r => exact (first.within (by rw [hd])).trans (follow_within h)

/-! ### Fragments -/

/-- A recorded fragment that is not the first one leaves nothing to dissect. -/
def LaterEnds (frag : Option FragMeta) (done : Prop) : Prop :=
  ∀ m, frag = some m → m.offset ≠ 0 → done

theorem fragMeta_offset {d : Datagram} {s : Hdr} {c : Cur} {m : FragMeta}
    (h : Network.fragMeta d s c = some m) : m.offset = d.fragOffset := by
  unfold Network.fragMeta at h
  dsimp only at h
  split at h
  · cases h; rfl
  · cases h

theorem afterIp_later {d : Datagram} {c : Cur} {s : Hdr} {frag : Option FragMeta}
    (h : LaterEnds frag False) :
    LaterEnds (afterIp d c s frag).frag ((afterIp d c s frag).next = .ok (.done, c)) := by
  intro m hm hoff
  by_cases h0 : d.fragOffset = 0
  · have hfrag : (Network.fragMeta d s c).or frag = some m := by
      simpa [afterIp, h0, Header.taken] using hm
    cases hd : Network.fragMeta d s c with
    | none =>
        rw [hd] at hfrag
        exact absurd hoff fun hne => h m hfrag hne
    | some m' =>
        rw [hd] at hfrag
        cases hfrag
        exact absurd (fragMeta_offset hd ▸ h0) hoff
  · simp [afterIp, h0]

theorem ip_later {header : Header Datagram} {c : Cur} {s : Hdr} {frag : Option FragMeta}
    (h : LaterEnds frag False) :
    LaterEnds (ip header c s frag).frag (∃ c', (ip header c s frag).next = .ok (.done, c')) := by
  unfold ip
  rcases header.run c s with ⟨x, s'⟩
  cases x with
  | error e => exact fun m hm hoff => (h m hm hoff).elim
  | ok p => exact fun m hm hoff => ⟨p.2, afterIp_later h m hm hoff⟩

/-- A hop that records a fragment other than the first one is the last hop. -/
theorem hop_later {h : Hop} {c : Cur} {s : Hdr} {frag : Option FragMeta}
    (hf : LaterEnds frag False) :
    LaterEnds (hop h c s frag).frag (∃ c', (hop h c s frag).next = .ok (.done, c')) := by
  cases h with
  | ipv4 => exact ip_later hf
  | ipv6 => exact ip_later hf
  | ethernet => exact fun m hm hoff => (hf m hm hoff).elim
  | llc => exact fun m hm hoff => (hf m hm hoff).elim
  | vlan => exact fun m hm hoff => (hf m hm hoff).elim
  | mpls => exact fun m hm hoff => (hf m hm hoff).elim
  | pppoe => exact fun m hm hoff => (hf m hm hoff).elim

theorem follow_later {n : ℕ} {o : Onward} {c : Cur} {s : Hdr} {frag : Option FragMeta}
    (hf : LaterEnds frag (o = .done)) :
    LaterEnds (follow n o c s frag).frag ((follow n o c s frag).stop = .ok none) := by
  induction n generalizing o c s frag with
  | zero =>
      cases o with
      | done => exact fun m hm hoff => rfl
      | payload q => exact fun m hm hoff => by cases hf m hm hoff
      | hop _ => exact fun m hm hoff => by cases hf m hm hoff
  | succ n ih =>
      cases o with
      | done => exact fun m hm hoff => rfl
      | payload q => exact fun m hm hoff => by cases hf m hm hoff
      | hop h =>
          have hf' : LaterEnds frag False := fun m hm hoff => by cases hf m hm hoff
          have hlater := hop_later (h := h) (c := c) (s := s) hf'
          cases hx : (hop h c s frag).next with
          | error e =>
              simp only [follow, hx]
              intro m hm hoff
              obtain ⟨c', hc'⟩ := hlater m hm hoff
              rw [hx] at hc'
              cases hc'
          | ok r =>
              simp only [follow, hx]
              refine ih fun m hm hoff => ?_
              obtain ⟨c', hc'⟩ := hlater m hm hoff
              rw [hx] at hc'
              cases hc'
              rfl

/-- **A fragment that is not the first one ends the walk**: its bytes are the middle of someone
else's payload. -/
theorem journey_later_fragment {first : Header Onward} {c : Cur} {s : Hdr} {m : FragMeta}
    (hm : (journey first c s).frag = some m) (hoff : m.offset ≠ 0) :
    (journey first c s).stop = .ok none := by
  unfold journey at hm ⊢
  rcases hd : first.run c s with ⟨x, s'⟩
  rw [hd] at hm
  cases x with
  | error e => cases hm
  | ok r => exact follow_later (fun m hm => by cases hm) m hm hoff

/-! ### The whole dissection -/

/-- State threaded through a single frame's dissection. -/
structure Ctx where
  pkt : Packet
  /-- Layers in traversal order. -/
  stack : List Layer := []
  depth : UInt8 := 0
  tuple : Option Tuple := none
  /-- The payload came from TCP reassembly rather than from this frame alone. -/
  reassembled : Bool := false
  /-- Application dispatch has been done. -/
  appDone : Bool := false
  /-- TCP payloads are left for the reassembly pass. -/
  deferTcpApp : Bool := false
  /-- Set when the packet is an IP fragment. -/
  frag : Option FragMeta := none

namespace Ctx

/-- What the header dissectors see. -/
def hdr (ctx : Ctx) : Hdr :=
  { ifaceId := ctx.pkt.frame.ifaceId, link := ctx.pkt.link, net := ctx.pkt.net,
    transport := ctx.pkt.transport, tunnel := ctx.pkt.tunnel, stack := ctx.stack,
    depth := ctx.depth, tuple := ctx.tuple }

/-- The state after the header dissectors. -/
def setHdr (ctx : Ctx) (s : Hdr) : Ctx :=
  { ctx with
    pkt := { ctx.pkt with frame := { ctx.pkt.frame with ifaceId := s.ifaceId }, link := s.link,
                          net := s.net, transport := s.transport, tunnel := s.tunnel }
    stack := s.stack, depth := s.depth, tuple := s.tuple }

/-- Finalise the derived stack columns. -/
def finish (ctx : Ctx) : Ctx :=
  { ctx with
    pkt := { ctx.pkt with
      frame := { ctx.pkt.frame with
        highestLayer := (ctx.stack.getLast?.map Layer.name).or ctx.pkt.frame.highestLayer
        protoStack := some (joinStack ctx.stack)
        tunnelDepth := some ctx.depth } } }

end Ctx

/-- Columns that apply regardless of which application protocol is found. -/
def recordPayload (payload : Bytes) (p : PayloadCols) : PayloadCols :=
  if payload = [] then p
  else
    { p with payloadLen := some (UInt32.ofNat payload.length)
             payloadEntropy := some (entropy payload)
             payloadPreview := some (preview payload 96)
             payloadIsPrintable := some (isMostlyPrintable payload)
             payloadFirstBytes := some (payload.take 16) }

/-- The payload columns of a transport payload. -/
def payloadCols (isTcp : Bool) (payload : Bytes) (p : PayloadCols) : PayloadCols :=
  let len := UInt32.ofNat payload.length
  recordPayload payload
    (if isTcp then { p with tcpPayloadLen := some len } else { p with udpPayloadLen := some len })

section Dispatch

variable [Hashes]

/-- Application dispatch, once per dissection.  Dissector failures are swallowed: a payload that
looked like a protocol because of its port but is not is a labelling miss. -/
def dispatch (payload : Bytes) (sport dport : UInt16) (isTcp : Bool) (ctx : Ctx) :
    Except Panic Ctx :=
  if ctx.appDone ∨ payload = [] then .ok ctx
  else
    (App.identify payload sport dport isTcp { stack := ctx.stack, cols := ctx.pkt.app }).map
      fun s => { ctx with appDone := true, stack := s.stack, pkt := { ctx.pkt with app := s.cols } }

/-- The end of a walk at a transport payload. -/
def Ctx.payload (ctx : Ctx) (p : Payload) (c : Cur) : Except Panic Ctx :=
  let ctx := { ctx with pkt := { ctx.pkt with payload := payloadCols p.isTcp c.rest ctx.pkt.payload } }
  if p.isTcp ∧ ctx.deferTcpApp then .ok ctx else dispatch c.rest p.sport p.dport p.isTcp ctx

/-- What is left to do once the headers are dissected. -/
def Ctx.arrive (ctx : Ctx) : Except DissectError (Option (Payload × Cur)) →
    Except Panic (Except DissectError Unit × Ctx)
  | .error e => .ok (.error e, ctx)
  | .ok none => .ok (.ok (), ctx)
  | .ok (some (p, c)) => (ctx.payload p c).map fun ctx => (.ok (), ctx)

/-- Walk from a first dissector, and dissect the payload the walk ends at. -/
def Ctx.walk (ctx : Ctx) (first : Header Onward) (c : Cur) :
    Except Panic (Except DissectError Unit × Ctx) :=
  let j := journey first c ctx.hdr
  { ctx.setHdr j.hdr with frag := j.frag.or ctx.frag }.arrive j.stop

/-- Dissect one frame given its link type. -/
def dissectFrame (data : Bytes) (linktype : UInt16) (ctx : Ctx) :
    Except Panic (Except DissectError Unit × Ctx) :=
  let frame := { ctx.pkt.frame with linkType := some linktype }
  { ctx with pkt := { ctx.pkt with frame } }.walk (Link.dissectLink linktype) (Cur.new data)

end Dispatch

end PcapRacer
