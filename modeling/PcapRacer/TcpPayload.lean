/-
**Where a TCP payload starts.**

A TCP header states its own length.  When all of it was captured, the payload is what follows it.
When the capture ends inside the options, there is no payload; but the dissector leaves such options
alone and takes them for payload.

Main definitions:

* `Transport.payloadOf` — what follows the header that a segment states;
* `Ctx.HandsOn` — the payload that the TCP dissector leaves.

Main results:

* `Transport.tcp_stops` — the dissector leaves all that follows the options, or the options too;
* `Ctx.HandsOn.walk_eq` — what is left is recorded, and deferred or dispatched;
* `tcp_payload_iff` — **when it is the payload**.
-/

import PcapRacer.SplitSegment

set_option relaxedAutoImplicit false
set_option autoImplicit false

namespace PcapRacer

namespace Transport

open Header

/-- What follows the header that a segment states; nothing, when the capture ends inside it. -/
def payloadOf (b : Bytes) : Bytes :=
  if dataOffsetOf b ≤ b.length then b.drop (dataOffsetOf b) else []

/-- **What the TCP dissector leaves**: the bytes past the options, if these are all there, and else
the bytes past the fixed header. -/
theorem tcp_stops {c : Cur} (src dst : IpAddr) (s : Hdr) (h : 20 ≤ c.remaining) :
    ∃ p c' s', p.isTcp = true ∧ (tcp src dst).run c s = (.ok (.payload p, c'), s') ∧
      c'.rest = c.rest.drop
        (if dataOffsetOf c.rest ≤ c.rest.length then max 20 (dataOffsetOf c.rest) else 20) := by
  obtain ⟨c₈, hc₈, hrun⟩ := tcp_of_le src dst s h
  have hlen : c₈.remaining = c.rest.length - 20 := by
    rw [← Cur.length_rest, hc₈, List.length_drop]
  have hrest : c.rest.length = c.remaining := Cur.length_rest c
  rw [hrun]
  simp only [tcpBody, run_bind, Header.transport, setTuple, Header.set, remaining, cursor, pure]
  split
  · next hopt =>
      rw [run_bind, show (take _).run c₈ _ = (.ok (_, c₈.advance _ hopt.2), _) from
        Prod.ext (Cur.take_of_le hopt.2) rfl]
      refine ⟨_, _, _, ?_, rfl, ?_⟩
      · rfl
      rw [Cur.rest_advance, hc₈, List.drop_drop, if_pos (by omega)]
      congr 1
      omega
  · next hopt =>
      refine ⟨_, _, _, ?_, rfl, ?_⟩
      · rfl
      rw [hc₈]
      congr 1
      split <;> omega

end Transport

/-- The TCP dissector, run on a context, leaves these bytes as the payload. -/
def Ctx.HandsOn (ctx : Ctx) (src dst : IpAddr) (c : Cur) (b : Bytes) : Prop :=
  ∃ p c', (journey (Transport.tcp src dst) c ctx.hdr).stop = .ok (some (p, c')) ∧
    p.isTcp = true ∧ c'.rest = b

/-- The dissector leaves the bytes past the options, or past the fixed header. -/
theorem handsOn_iff (ctx : Ctx) (src dst : IpAddr) {c : Cur} (h : 20 ≤ c.remaining) (b : Bytes) :
    ctx.HandsOn src dst c b ↔
      b = c.rest.drop (if Transport.dataOffsetOf c.rest ≤ c.rest.length then
        max 20 (Transport.dataOffsetOf c.rest) else 20) := by
  obtain ⟨p, c', s', htcp, hrun, hrest⟩ := Transport.tcp_stops src dst ctx.hdr h
  have hstop : (journey (Transport.tcp src dst) c ctx.hdr).stop = .ok (some (p, c')) := by
    unfold journey
    rw [hrun]
    unfold follow
    rfl
  constructor
  · rintro ⟨q, c₁, hq, -, rfl⟩
    rw [hstop] at hq
    cases hq
    exact hrest
  · rintro rfl
    exact ⟨p, c', hstop, htcp, hrest⟩

section Context

variable [Hashes]

/-- The bytes that are left are recorded; they are deferred, or else dispatched. -/
theorem Ctx.HandsOn.walk_eq {ctx : Ctx} {src dst : IpAddr} {c : Cur} {b : Bytes}
    (h : ctx.HandsOn src dst c b) :
    ∃ recorded : Ctx, recorded.pkt.payload = payloadCols true b ctx.pkt.payload ∧
      ∃ sport dport, ctx.walk (Transport.tcp src dst) c =
        (if ctx.deferTcpApp then .ok recorded else dispatch b sport dport true recorded).map
          fun ctx => (.ok (), ctx) := by
  obtain ⟨p, c', hstop, htcp, rfl⟩ := h
  let j := journey (Transport.tcp src dst) c ctx.hdr
  let arrived : Ctx := { ctx.setHdr j.hdr with frag := j.frag.or ctx.frag }
  refine ⟨{ arrived with pkt := { arrived.pkt with
    payload := payloadCols true c'.rest arrived.pkt.payload } }, rfl, p.sport, p.dport, ?_⟩
  have hwalk : ctx.walk (Transport.tcp src dst) c = (arrived.payload p c').map
      fun ctx => (.ok (), ctx) := by
    unfold Ctx.walk
    dsimp only
    rw [hstop]
    rfl
  rw [hwalk, Ctx.payload, htcp]
  simp only [true_and]
  rfl

/-- **When the payload is the payload.**  Where a whole fixed header is and it states twenty bytes
at least, the dissector leaves the bytes that follow the stated header, or none when that is cut
short, if and only if the stated header is all there or not a byte of it past the fixed one is.
Whatever is left is recorded, and deferred or dispatched. -/
theorem tcp_payload_iff (ctx : Ctx) (src dst : IpAddr) (c : Cur) (h : 20 ≤ c.rest.length)
    (hoffset : 20 ≤ Transport.dataOffsetOf c.rest) :
    (ctx.HandsOn src dst c (Transport.payloadOf c.rest) ↔
        Transport.dataOffsetOf c.rest ≤ c.rest.length ∨ c.rest.length = 20) ∧
      ∃ b, ctx.HandsOn src dst c b ∧
        ∃ recorded : Ctx, recorded.pkt.payload = payloadCols true b ctx.pkt.payload ∧
          ∃ sport dport, ctx.walk (Transport.tcp src dst) c =
            (if ctx.deferTcpApp then .ok recorded else dispatch b sport dport true recorded).map
              fun ctx => (.ok (), ctx) := by
  have hremaining : 20 ≤ c.remaining := by rwa [← Cur.length_rest]
  constructor
  · rw [handsOn_iff ctx src dst hremaining, Transport.payloadOf]
    by_cases hcut : Transport.dataOffsetOf c.rest ≤ c.rest.length
    · simp only [hcut, if_true, Nat.max_eq_right hoffset, true_or]
    · simp only [hcut, if_false, false_or, eq_comm (a := ([] : Bytes)), List.drop_eq_nil_iff]
      omega
  · have hands := (handsOn_iff ctx src dst hremaining _).mpr rfl
    exact ⟨_, hands, hands.walk_eq⟩

end Context

/-- A TCP header from port 50000 to port 80 that states `words` words, and what was captured after
it. -/
def cutSegment (words : ℕ) (captured : Bytes) : Bytes :=
  [0xc3, 0x50, 0, 80, 0, 0, 0, 1, 0, 0, 0, 0, UInt8.ofNat (16 * words), 0x18, 1, 0, 0, 0, 0, 0] ++
    captured

/-- A segment with four bytes of options and the payload `hi`. -/
theorem tcp_payload_iff_options :
    20 ≤ Transport.dataOffsetOf (cutSegment 6 [1, 1, 1, 0, 0x68, 0x69]) ∧ ∀ _ : Hashes,
      Ctx.HandsOn { pkt := {} } (.v4 0x0a000001) (.v4 0x0a000002)
        (Cur.new (cutSegment 6 [1, 1, 1, 0, 0x68, 0x69])) [0x68, 0x69] := by
  refine ⟨by decide, fun _ => ?_⟩
  have hands := (tcp_payload_iff { pkt := {} } (.v4 0x0a000001) (.v4 0x0a000002)
    (Cur.new (cutSegment 6 [1, 1, 1, 0, 0x68, 0x69])) (by decide) (by decide)).1.mpr (by decide)
  have hpayload : Transport.payloadOf (Cur.new (cutSegment 6 [1, 1, 1, 0, 0x68, 0x69])).rest =
      [0x68, 0x69] := by decide
  rwa [hpayload] at hands

/-- The capture ends four bytes into forty bytes of options: these four are the payload. -/
theorem options_taken_for_payload :
    20 ≤ Transport.dataOffsetOf (cutSegment 15 [2, 4, 5, 0xb4]) ∧
      Transport.payloadOf (cutSegment 15 [2, 4, 5, 0xb4]) = [] ∧ ∀ _ : Hashes,
      Ctx.HandsOn { pkt := {} } (.v4 0x0a000001) (.v4 0x0a000002)
          (Cur.new (cutSegment 15 [2, 4, 5, 0xb4])) [2, 4, 5, 0xb4] ∧
        ¬ Ctx.HandsOn { pkt := {} } (.v4 0x0a000001) (.v4 0x0a000002)
          (Cur.new (cutSegment 15 [2, 4, 5, 0xb4])) [] := by
  refine ⟨by decide, by decide, fun _ => ?_⟩
  have hle : 20 ≤ (Cur.new (cutSegment 15 [2, 4, 5, 0xb4])).remaining := by decide
  rw [handsOn_iff _ _ _ hle, handsOn_iff _ _ _ hle]
  decide

end PcapRacer
