/-
**The TCP payload of a frame, as the reassembly pass finds it.**

The first pass does not record where the TCP payload is; the reassembly pass computes it back from
the length of the payload, on the assumption that the payload ends where the frame does.  The bytes
after the IP datagram and the sixteen bits of the range both matter.

Main definitions:

* `frameJourney` — the header walk of a frame in the first pass;
* `PayloadAtEnd` — the payload is where the reassembly pass looks for it.

Main results:

* `dissectOne_of_deferred` — what the first pass says about a frame with a TCP payload;
* `selected_eq_payload_iff` — the selected bytes are the payload exactly when it is where the
  reassembly pass looks.
-/

import PcapRacer.Pipeline

set_option relaxedAutoImplicit false
set_option autoImplicit false

namespace PcapRacer

/-- The header walk of a frame in the first pass. -/
def frameJourney (o : Owned) : Journey :=
  journey (Link.dissectLink o.linktype) (Cur.new o.data)
    { ifaceId := some o.ifaceId }

/-- The frame's walk ends at a TCP payload: `c` looks at it. -/
def EndsAtTcp (o : Owned) (p : Payload) (c : Cur) : Prop :=
  (frameJourney o).stop = .ok (some (p, c)) ∧ p.isTcp = true

/-- The payload under `c` is short enough for a range, and it is where the reassembly pass looks:
it ends where the frame does and starts within reach of sixteen bits, or it starts at the last
place those can name. -/
def PayloadAtEnd (o : Owned) (c : Cur) : Prop :=
  c.remaining ≤ 65535 ∧
    ((c.stop = o.data.length ∧ c.start ≤ 65535) ∨ (c.stop < o.data.length ∧ c.start = 65535))

/-! ### What the walk says about the frame -/

theorem EndsAtTcp.within {o : Owned} {p : Payload} {c : Cur} (h : EndsAtTcp o p c) :
    (Cur.new o.data).Within c := journey_within h.1

theorem EndsAtTcp.stop_le {o : Owned} {p : Payload} {c : Cur} (h : EndsAtTcp o p c) :
    c.stop ≤ o.data.length := by
  have hle := h.within.stop_le
  rwa [show (Cur.new o.data).stop = o.data.length from Nat.zero_add _] at hle

/-- The payload is a stretch of the frame. -/
theorem EndsAtTcp.rest_eq {o : Owned} {p : Payload} {c : Cur} (h : EndsAtTcp o p c) :
    c.rest = (o.data.drop c.start).take c.remaining := by
  have heq := h.within.rest_eq
  rwa [show (Cur.new o.data).start = 0 from rfl, Nat.sub_zero,
    show (Cur.new o.data).rest = o.data from rfl] at heq

/-- Lengths inside a frame fit thirty-two bits. -/
theorem EndsAtTcp.remaining_lt {o : Owned} {p : Payload} {c : Cur} (h : EndsAtTcp o p c) :
    c.remaining < 2 ^ 32 := by
  have hstop := h.stop_le
  have hdata := o.data_le
  have hcap := o.capLen.toNat_lt
  have hsum := c.start_add_remaining
  omega

/-! ### The first pass -/

/-- The context in which the walk of a frame ends. -/
def frameCtx (o : Owned) (deferTcpApp : Bool) : Ctx :=
  let frame := { frameCols o with linkType := some o.linktype }
  { ({ pkt := { frame }, deferTcpApp } : Ctx).setHdr (frameJourney o).hdr with
    frag := (frameJourney o).frag }

/-- The frame's context with its TCP payload recorded. -/
def tcpCtx (o : Owned) (c : Cur) : Ctx :=
  let ctx := frameCtx o true
  { ctx with pkt := { ctx.pkt with payload := payloadCols true c.rest {} } }

section Dissect

variable [Hashes]

theorem dissectFrame_eq (o : Owned) (deferTcpApp : Bool) :
    dissectFrame o.data o.linktype (firstCtx o deferTcpApp) =
      (frameCtx o deferTcpApp).arrive (frameJourney o).stop := by
  change { frameCtx o deferTcpApp with frag := (frameJourney o).frag.or none }.arrive
    (frameJourney o).stop = _
  rw [Option.or_none]
  rfl

/-- What the first pass says about a frame whose dissection runs to its end. -/
theorem dissectOne_of_arrive {o : Owned} {deferTcpApp : Bool} {r : Except DissectError Unit}
    {ctx : Ctx} (h : (frameCtx o deferTcpApp).arrive (frameJourney o).stop = .ok (r, ctx)) :
    dissectOne o deferTcpApp = summary o deferTcpApp r ctx := by
  unfold dissectOne dissectInner
  rw [dissectFrame_eq, h]
  rfl

/-- The first pass that defers. -/
theorem dissectInner_of_deferred {o : Owned} {p : Payload} {c : Cur} (h : EndsAtTcp o p c) :
    dissectInner o true = .ok (summary o true (.ok ()) (tcpCtx o c)) := by
  obtain ⟨hstop, htcp⟩ := h
  have hpay : (frameCtx o true).payload p c = .ok (tcpCtx o c) := by
    unfold Ctx.payload
    rw [htcp]
    rfl
  unfold dissectInner
  rw [dissectFrame_eq, hstop, Ctx.arrive, hpay]
  rfl

/-- **What the first pass says about a frame with a TCP payload**, when application dispatch is
deferred. -/
theorem dissectOne_of_deferred {o : Owned} {p : Payload} {c : Cur} (h : EndsAtTcp o p c) :
    dissectOne o true = summary o true (.ok ()) (tcpCtx o c) := by
  unfold dissectOne
  rw [dissectInner_of_deferred h]

end Dissect

/-! ### The range -/

theorem toNat_clip16 (n : ℕ) : (clip16 n).toNat = min n 65535 := by
  unfold clip16
  rw [UInt16.toNat_ofNat']
  omega

/-- The range that the first pass leaves for a payload of a frame. -/
theorem tcpPayloadRange_eq {o : Owned} {p : Payload} {c : Cur} (h : EndsAtTcp o p c)
    (hne : c.rest ≠ []) :
    tcpPayloadRange (summary o true (.ok ()) (tcpCtx o c)).pkt o.data.length =
      some (clip16 (o.data.length - c.remaining), clip16 c.remaining) := by
  have hlen : (UInt32.ofNat c.rest.length).toNat = c.remaining := by
    rw [UInt32.toNat_ofNat', Cur.length_rest, Nat.mod_eq_of_lt h.remaining_lt]
  have hpos : c.remaining ≠ 0 := by
    rw [← Cur.length_rest]
    exact fun h0 => hne (List.length_eq_zero_iff.mp h0)
  have hle : ¬ o.data.length < c.remaining := by
    have := h.stop_le
    have := c.start_add_remaining
    omega
  have hcol : (summary o true (.ok ()) (tcpCtx o c)).pkt.payload.tcpPayloadLen =
      some (UInt32.ofNat c.rest.length) := by
    change (recordPayload c.rest _).tcpPayloadLen = _
    rw [recordPayload, if_neg hne]
    rfl
  rw [tcpPayloadRange, hcol]
  dsimp only
  rw [hlen, if_neg (by simp only [hpos, hle, or_self, not_false_eq_true])]

section Dissect

variable [Hashes]

/-- What the reassembly pass selects from a frame with a TCP payload. -/
theorem selected_eq {o : Owned} {p : Payload} {c : Cur} (h : EndsAtTcp o p c) (hne : c.rest ≠ []) :
    Engine.selected o (dissectOne o true).tcpPayload =
      if o.data.length < min (o.data.length - c.remaining) 65535 + min c.remaining 65535 then none
      else some (min (o.data.length - c.remaining) 65535, min c.remaining 65535) := by
  have hrange : (dissectOne o true).tcpPayload =
      some (clip16 (o.data.length - c.remaining), clip16 c.remaining) := by
    rw [dissectOne_of_deferred h]
    exact tcpPayloadRange_eq h hne
  rw [hrange, Engine.selected, toNat_clip16, toNat_clip16]

/-- A payload that is where the reassembly pass looks for it is pushed as it is. -/
theorem segmentOf_of_atEnd {o : Owned} {p : Payload} {c : Cur} (h : EndsAtTcp o p c)
    (hne : c.rest ≠ []) (hend : PayloadAtEnd o c) :
    Engine.segmentOf o (dissectOne o true).tcpPayload = some c.rest := by
  have hstop := h.stop_le
  have hsum := c.start_add_remaining
  have hselected : Engine.selected o (dissectOne o true).tcpPayload =
      some (c.start, c.remaining) := by
    unfold PayloadAtEnd at hend
    rw [selected_eq h hne, if_neg (by omega)]
    simp only [Option.some.injEq, Prod.mk.injEq]
    omega
  rw [Engine.segmentOf, hselected, h.rest_eq]
  rfl

/-- **The selected bytes are the TCP payload exactly when it is where the reassembly pass looks for
it**, and then they are pushed as they are. -/
theorem selected_eq_payload_iff (o : Owned) (p : Payload) (c : Cur) (h : EndsAtTcp o p c)
    (hne : c.rest ≠ []) :
    (Engine.selected o (dissectOne o true).tcpPayload = some (c.start, c.remaining) ↔
      PayloadAtEnd o c) ∧
    (PayloadAtEnd o c →
      Engine.segmentOf o (dissectOne o true).tcpPayload = some c.rest) := by
  have hiff : Engine.selected o (dissectOne o true).tcpPayload = some (c.start, c.remaining) ↔
      PayloadAtEnd o c := by
    have hstop := h.stop_le
    have hsum := c.start_add_remaining
    rw [selected_eq h hne]
    unfold PayloadAtEnd
    constructor
    · intro heq
      split at heq
      · cases heq
      · simp only [Option.some.injEq, Prod.mk.injEq] at heq
        omega
    · intro hend
      rw [if_neg (by omega)]
      simp only [Option.some.injEq, Prod.mk.injEq]
      omega
  refine ⟨hiff, fun hend => ?_⟩
  rw [Engine.segmentOf, hiff.mpr hend, h.rest_eq]
  rfl

end Dissect

/-! ### A padded frame -/

/-- Ethernet, IPv4 and TCP headers around a payload, to port 80, from port 50000. -/
def sampleFrame (payload : Bytes) : Bytes :=
  [0x00, 0x11, 0x22, 0x33, 0x44, 0x55, 0x66, 0x77, 0x88, 0x99, 0xaa, 0xbb, 0x08, 0x00] ++
  [0x45, 0, 0, UInt8.ofNat (40 + payload.length), 0, 1, 0x40, 0, 64, 6, 0, 0,
    10, 0, 0, 5, 93, 184, 216, 34] ++
  [0xc3, 0x50, 0, 80, 0, 0, 3, 0xe8, 0, 0, 0, 1, 0x50, 0x18, 0xff, 0xff, 0, 0, 0, 0] ++
  payload

/-- A frame with the payload `hi`. -/
def plainFrame : Owned :=
  { capLen := 56, origLen := 56, linktype := 1, data := sampleFrame [0x68, 0x69] }

/-- The same frame, padded to sixty bytes. -/
def paddedFrame : Owned :=
  { capLen := 60, origLen := 60, linktype := 1, data := sampleFrame [0x68, 0x69] ++ [0, 0, 0, 0] }

/-- The payload of either frame. -/
def toPort80 : Payload := { isTcp := true, sport := 50000, dport := 80 }

/-- Where the walk of the plain frame ends. -/
def plainCur : Cur :=
  { base := 0, data := sampleFrame [0x68, 0x69], pos := 54, pos_le := by decide }

/-- Where the walk of the padded frame ends: the IP header confines it to the datagram. -/
def paddedCur : Cur :=
  { base := 34, data := (sampleFrame [0x68, 0x69]).drop 34, pos := 20, pos_le := by decide }

/-- The payload of the plain frame is pushed as it is. -/
theorem selected_of_plainFrame :
    EndsAtTcp plainFrame toPort80 plainCur ∧ plainCur.rest ≠ [] ∧ ∀ _ : Hashes,
      Engine.segmentOf plainFrame (dissectOne plainFrame true).tcpPayload =
        some plainCur.rest := by
  have hends : EndsAtTcp plainFrame toPort80 plainCur := ⟨rfl, rfl⟩
  have hne : plainCur.rest ≠ [] := by decide
  have hplace : PayloadAtEnd plainFrame plainCur := by
    refine ⟨by decide, .inl ⟨by decide, by decide⟩⟩
  exact ⟨hends, hne, fun _ => (selected_eq_payload_iff _ _ _ hends hne).2 hplace⟩

/-- From the padded frame the padding is pushed, and not the payload. -/
theorem selected_of_paddedFrame :
    EndsAtTcp paddedFrame toPort80 paddedCur ∧ paddedCur.rest = [0x68, 0x69] ∧ ∀ _ : Hashes,
      Engine.selected paddedFrame (dissectOne paddedFrame true).tcpPayload ≠
          some (paddedCur.start, paddedCur.remaining) ∧
        Engine.segmentOf paddedFrame (dissectOne paddedFrame true).tcpPayload = some [0, 0] := by
  refine ⟨⟨rfl, rfl⟩, by decide, fun _ => ?_⟩
  have hrange : (dissectOne paddedFrame true).tcpPayload = some (58, 2) := rfl
  rw [hrange]
  exact ⟨by decide, by decide⟩

end PcapRacer
