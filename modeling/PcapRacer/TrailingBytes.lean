/-
**Bytes after an IP datagram.**

A frame may be longer than the datagram in it.  The datagram states its own length, so the bytes
after it are nobody's.  The IPv4 header cuts them off, but only from a datagram that has a payload;
the IPv6 header never does, and there the bytes are cut off by a UDP header if by anything.

Main definitions:

* `V4Datagram`, `IpDatagram` — complete datagrams that state their length;
* `LinkLeads` — the link layer of a frame leads to an IP header;
* `SameReading` — two dissections find the same above the link layer;
* `IpDatagram.Closed` — a length field that the dissectors look at says where the datagram ends.

Main results:

* `V4Datagram.ipv4_run` — what the IPv4 header leaves for the transport layer;
* `dissectOne_same` — walks that do the same give the same columns;
* `trailing_bytes_ignored` — **when the bytes after a datagram are ignored**.
-/

import PcapRacer.HeaderExtends
import PcapRacer.PayloadRange
import PcapRacer.SplitSegment
import PcapRacer.V6Fragments

set_option relaxedAutoImplicit false
set_option autoImplicit false

namespace PcapRacer

/-! ### What two dissections have in common -/

/-- Two dissections find the same above the link layer. -/
structure SameReading (d d' : Dissected) : Prop where
  net : d.pkt.net = d'.pkt.net
  transport : d.pkt.transport = d'.pkt.transport
  tcpPayloadLen : d.pkt.payload.tcpPayloadLen = d'.pkt.payload.tcpPayloadLen
  udpPayloadLen : d.pkt.payload.udpPayloadLen = d'.pkt.payload.udpPayloadLen
  app : d.pkt.app = d'.pkt.app
  tuple : d.tuple = d'.tuple
  frag : d.frag = d'.frag

/-- The context with other frame columns. -/
def Ctx.withFrame (f : FrameCols) (ctx : Ctx) : Ctx :=
  { ctx with pkt := { ctx.pkt with frame := f } }

section Dissect

variable [Hashes]

/-- Dispatch neither looks at the frame columns nor writes them. -/
theorem dispatch_withFrame (b : Bytes) (sport dport : UInt16) (isTcp : Bool) (ctx : Ctx)
    (f : FrameCols) :
    dispatch b sport dport isTcp (ctx.withFrame f) =
      (dispatch b sport dport isTcp ctx).map (Ctx.withFrame f) := by
  unfold dispatch
  have happ : (ctx.withFrame f).appDone = ctx.appDone := rfl
  rw [happ]
  split
  · rfl
  · change (App.identify b sport dport isTcp { stack := ctx.stack, cols := ctx.pkt.app }).map _ = _
    cases App.identify b sport dport isTcp { stack := ctx.stack, cols := ctx.pkt.app } <;> rfl

/-- The end of a walk does not look at the frame columns, nor at where its cursor is. -/
theorem Ctx.arrive_withFrame (ctx : Ctx) (f : FrameCols)
    {stop stop' : Except DissectError (Option (Payload × Cur))} (h : outlook stop = outlook stop') :
    (ctx.withFrame f).arrive stop' = (ctx.arrive stop).map fun r => (r.1, r.2.withFrame f) := by
  rcases stop with e | _ | ⟨p, c⟩ <;> rcases stop' with e' | _ | ⟨p', c'⟩
  case error.error => cases h; rfl
  case ok.none.ok.none => rfl
  case ok.some.ok.some =>
    simp only [outlook, Except.map, Option.map, Except.ok.injEq, Option.some.injEq,
      Prod.mk.injEq] at h
    obtain ⟨rfl, hrest⟩ := h
    let recorded : Ctx :=
      { ctx with pkt := { ctx.pkt with payload := payloadCols p.isTcp c'.rest ctx.pkt.payload } }
    have hpayload : (ctx.withFrame f).payload p c' =
        if p.isTcp ∧ ctx.deferTcpApp then .ok (recorded.withFrame f)
        else dispatch c'.rest p.sport p.dport p.isTcp (recorded.withFrame f) := rfl
    rw [Ctx.arrive, Ctx.arrive, hpayload, dispatch_withFrame, Ctx.payload, hrest]
    split
    · rfl
    · cases dispatch c'.rest p.sport p.dport p.isTcp recorded <;> rfl
  all_goals cases h

/-- **Walks that do the same give the same columns.** -/
theorem dissectOne_same {o o' : Owned} (h : (frameJourney o).Same (frameJourney o'))
    (deferTcpApp : Bool) : SameReading (dissectOne o deferTcpApp) (dissectOne o' deferTcpApp) := by
  let f : FrameCols := { frameCols o' with
    linkType := some o'.linktype
    ifaceId := (frameJourney o).hdr.ifaceId }
  have hctx : frameCtx o' deferTcpApp = (frameCtx o deferTcpApp).withFrame f := by
    unfold frameCtx
    rw [← h.hdr, ← h.frag]
    rfl
  have harrive : (frameCtx o' deferTcpApp).arrive (frameJourney o').stop =
      ((frameCtx o deferTcpApp).arrive (frameJourney o).stop).map
        fun r => (r.1, r.2.withFrame f) := by
    rw [hctx]
    exact Ctx.arrive_withFrame _ f h.stop
  unfold dissectOne dissectInner
  rw [dissectFrame_eq, dissectFrame_eq, harrive]
  rcases (frameCtx o deferTcpApp).arrive (frameJourney o).stop with e | ⟨r, ctx⟩
  · exact ⟨rfl, rfl, rfl, rfl, rfl, rfl, rfl⟩
  · exact ⟨rfl, rfl, rfl, rfl, rfl, rfl, rfl⟩

end Dissect

/-! ### The link layer of a frame -/

/-- The link layer leads from the dissector `d` to the hop `h`: past it, or past it and what it
hands over to. -/
inductive LinkLeads (h : Hop) : Header Onward → Cur → Hdr → Cur → Hdr → Prop
  | here {d : Header Onward} {c c' : Cur} {s s' : Hdr} (hrun : d.run c s = (.ok (.hop h, c'), s')) :
      LinkLeads h d c s c' s'
  | onward {d e : Header Onward} {k : Hop} {c c₁ c' : Cur} {s s₁ s' : Hdr}
      (hrun : d.run c s = (.ok (.hop k, c₁), s₁)) (hk : k.link = some e)
      (hnext : LinkLeads h e c₁ s₁ c' s') : LinkLeads h d c s c' s'

theorem Hop.link_aloof {h : Hop} {d : Header Onward} (hd : h.link = some d) :
    ∃ looks enters, d.Aloof looks enters := by
  cases h with
  | ethernet => cases hd; exact ⟨_, _, Link.ethernet_aloof⟩
  | llc => cases hd; exact ⟨_, _, Link.llc_aloof⟩
  | vlan => cases hd; exact ⟨_, _, Link.vlan_aloof⟩
  | mpls => cases hd; exact ⟨_, _, Link.mpls_aloof⟩
  | pppoe => cases hd; exact ⟨_, _, Link.pppoe_aloof⟩
  | ipv4 => cases hd
  | ipv6 => cases hd

namespace LinkLeads

variable {h : Hop} {d : Header Onward} {c c₁ : Cur} {s s₁ : Hdr}

/-- With more bytes in the frame the link layer leads to the same place. -/
theorem exists_longer (hl : LinkLeads h d c s c₁ s₁) (hd : d.Extends Onward.IsHop) {t : Bytes}
    {c' : Cur} (hrest : c'.rest = c.rest ++ t) :
    ∃ c₁' : Cur, LinkLeads h d c' s c₁' s₁ ∧ c₁'.rest = c₁.rest ++ t := by
  induction hl generalizing c' with
  | here hrun =>
      obtain ⟨c₁', hrun', hrest'⟩ := hd t _ c' _ _ _ _ hrest hrun trivial
      exact ⟨c₁', .here hrun', hrest'⟩
  | onward hrun hk _ ih =>
      obtain ⟨c₂', hrun', hrest₂⟩ := hd t _ c' _ _ _ _ hrest hrun trivial
      obtain ⟨c₁', hnext', hrest₁⟩ := ih (Hop.link_extends hk) hrest₂
      exact ⟨c₁', .onward hrun' hk hnext', hrest₁⟩

/-- The walk over the frame gets to the hop. -/
theorem resume_eq (hl : LinkLeads h d c s c₁ s₁) {n : ℕ}
    (hn : ∀ r, (d.run c s).1 = .ok r → r.2.remaining < n) :
    (d.taken c s none).resume n = follow (c₁.remaining + 1) (.hop h) c₁ s₁ none := by
  induction hl generalizing n with
  | here hrun =>
      have hlt := hn _ (congrArg Prod.fst hrun)
      rw [Taken.resume, Header.taken, hrun]
      exact follow_of_lt hlt (Nat.lt_succ_self _)
  | @onward d e k c c₂ c' s s₂ s' hrun hk _ ih =>
      have hlt := hn _ (congrArg Prod.fst hrun)
      obtain ⟨n, rfl⟩ : ∃ m, n = m + 1 := ⟨n - 1, by omega⟩
      rw [Taken.resume, Header.taken, hrun]
      change follow (n + 1) (.hop k) c₂ s₂ none = _
      rw [follow_hop, Hop.hop_of_link hk]
      refine ih fun r hr => ?_
      have hhop : (hop k c₂ s₂ none).next = .ok r := by
        rw [Hop.hop_of_link hk]
        exact hr
      have hshort := hop_remaining_lt hhop
      have hlt' : c₂.remaining < n + 1 := hlt
      omega

theorem journey_eq (hl : LinkLeads h d c s c₁ s₁) :
    journey d c s = follow (c₁.remaining + 1) (.hop h) c₁ s₁ none := by
  rw [journey_eq_resume (Nat.lt_succ_self c.remaining)]
  exact hl.resume_eq fun r hr => Nat.lt_succ_of_le (d.within hr).remaining_le

/-- The link layer leaves the mark of fragments alone. -/
theorem mark_eq (hl : LinkLeads h d c s c₁ s₁) {looks enters : Bool} (hd : d.Aloof looks enters) :
    s₁.mark = s.mark := by
  induction hl generalizing looks enters with
  | @here d c c' s s' hrun =>
      have hleaves := hd.leaves c s
      rw [hrun] at hleaves
      exact hleaves.mark
  | @onward d e k c c₂ c' s s₂ s' hrun hk _ ih =>
      have hleaves := hd.leaves c s
      rw [hrun] at hleaves
      obtain ⟨looks', enters', he⟩ := Hop.link_aloof hk
      exact (ih he).trans hleaves.mark

end LinkLeads

/-! ### Reads of the bytes that come first -/

namespace Header

/-- Confining to the bytes that come first. -/
theorem confine_run {x t : Bytes} {c : Cur} (hrest : c.rest = x ++ t) (s : Hdr) :
    ∃ c', c'.rest = x ∧ (confine x.length).run c s = (.ok ((), c'), s) := by
  have hle : x.length ≤ c.remaining := by
    rw [← Cur.length_rest, hrest, List.length_append]
    exact Nat.le_add_right _ _
  refine ⟨{ base := c.start, data := c.rest.take x.length, pos := 0, pos_le := Nat.zero_le _ },
    ?_, ?_⟩
  · rw [Cur.rest, List.drop_zero, hrest, List.take_left]
  · change ((c.sub x.length).map _, s) = _
    rw [Cur.sub, dif_pos hle]
    rfl

/-- Taking the bytes that come first. -/
theorem take_run {x t : Bytes} {c : Cur} (hrest : c.rest = x ++ t) (s : Hdr) :
    ∃ c', c'.rest = t ∧ (take x.length).run c s = (.ok (x, c'), s) := by
  have hle : x.length ≤ c.remaining := by
    rw [← Cur.length_rest, hrest, List.length_append]
    exact Nat.le_add_right _ _
  refine ⟨c.advance x.length hle, ?_, ?_⟩
  · rw [Cur.rest_advance, hrest, List.drop_left]
  · change (c.take x.length, s) = _
    rw [Cur.take_of_le hle, hrest, List.take_left]

/-- Where the condition holds, what is left under the cursor is confined to the bytes `x`, if there
are more. -/
theorem run_confined {α : Type} {p : Prop} [Decidable p] {c : Cur} {x t : Bytes}
    (hrest : c.rest = x ++ t) (f : Header α) (s : Hdr) :
    ∃ c', c'.rest = (if p then x else x ++ t) ∧
      (remaining >>= fun left => if p ∧ x.length < left then confine x.length >>= fun _ => f
        else f).run c s = f.run c' s := by
  have hlen : c.remaining = x.length + t.length := by
    rw [← Cur.length_rest, hrest, List.length_append]
  change ∃ c', _ ∧ (if p ∧ x.length < c.remaining then _ else _ : Header α).run c s = _
  by_cases hp : p
  · rw [if_pos hp]
    by_cases ht : t = []
    · refine ⟨c, by rw [hrest, ht, List.append_nil], ?_⟩
      rw [if_neg fun h => absurd h.2 (by rw [hlen, ht, List.length_nil]; omega)]
    · have hpos := List.length_pos_of_ne_nil ht
      obtain ⟨c', hc', hrun⟩ := confine_run hrest s
      refine ⟨c', hc', ?_⟩
      rw [if_pos ⟨hp, by omega⟩, run_bind, hrun]
  · refine ⟨c, by rw [if_neg hp, hrest], ?_⟩
    rw [if_neg fun h => hp h.1]

end Header

/-! ### Complete datagrams -/

/-- A complete IPv4 datagram that states its length. -/
structure V4Datagram where
  /-- The version, and the length of the header in words. -/
  verIhl : UInt8
  version : verIhl >>> 4 = 4
  tos : UInt8
  ident : Bytes
  length_ident : ident.length = 2
  flagsFrag : Bytes
  length_flagsFrag : flagsFrag.length = 2
  ttl : UInt8
  proto : UInt8
  checksum : Bytes
  length_checksum : checksum.length = 2
  src : Bytes
  length_src : src.length = 4
  dst : Bytes
  length_dst : dst.length = 4
  options : Bytes
  ihl : (verIhl &&& 0x0f).toNat * 4 = 20 + options.length
  body : Bytes
  length_lt : 20 + options.length + body.length < 65536

namespace V4Datagram

open Header Network

variable (D : V4Datagram)

def totalLen : UInt16 := .ofNat (20 + D.options.length + D.body.length)

def bytes : Bytes :=
  [D.verIhl] ++ ([D.tos] ++ (netOrder D.totalLen ++ (D.ident ++ (D.flagsFrag ++ ([D.ttl] ++
    ([D.proto] ++ (D.checksum ++ (D.src ++ (D.dst ++ (D.options ++ D.body))))))))))

/-- What the header says about the bytes after it. -/
def datagram : Datagram :=
  { proto := D.proto, src := .v4 (.ofNat (beNat D.src)), dst := .v4 (.ofNat (beNat D.dst))
    fragOffset := (UInt16.ofNat (beNat D.flagsFrag) &&& 0x1fff) * 8 }

theorem toNat_totalLen : D.totalLen.toNat = 20 + D.options.length + D.body.length := by
  rw [totalLen, UInt16.toNat_ofNat', Nat.mod_eq_of_lt D.length_lt]

/-- The rest of the IPv4 dissector, once the fixed part of the header is read. -/
def afterFixed : Header Datagram := do
  if 20 < (D.verIhl &&& 0x0f).toNat * 4 then
    let opts ← take ((D.verIhl &&& 0x0f).toNat * 4 - 20)
    net fun n => { n with ipOptions := some (hexBytes opts) }
  if (D.verIhl &&& 0x0f).toNat * 4 < D.totalLen.toNat ∧
      D.totalLen.toNat - (D.verIhl &&& 0x0f).toNat * 4 < (← remaining) then
    confine (D.totalLen.toNat - (D.verIhl &&& 0x0f).toNat * 4)
  return D.datagram

/-- The fixed part of the header. -/
theorem ipv4_head : ∃ w : Hdr → Hdr, ∀ (t : Bytes) (c : Cur) (s : Hdr), c.rest = D.bytes ++ t →
    ∃ c', c'.rest = D.options ++ (D.body ++ t) ∧
      ipv4.run c s = D.afterFixed.run c' (w s) := by
  refine ⟨?w, fun t c s hrest => ?run⟩
  case run =>
    simp only [bytes, List.append_assoc] at hrest
    obtain ⟨c₁, h₁, r₁⟩ := exists_read_append (β := Datagram) hrest rfl fun b => b.headD 0
    obtain ⟨c₂, h₂, r₂⟩ := exists_read_append (β := Datagram) h₁ rfl fun b => b.headD 0
    obtain ⟨c₃, h₃, r₃⟩ := exists_read_append (β := Datagram) h₂ rfl fun b => UInt16.ofNat (beNat b)
    obtain ⟨c₄, h₄, r₄⟩ := exists_read_append (β := Datagram) h₃ D.length_ident fun b =>
      UInt16.ofNat (beNat b)
    obtain ⟨c₅, h₅, r₅⟩ := exists_read_append (β := Datagram) h₄ D.length_flagsFrag fun b =>
      UInt16.ofNat (beNat b)
    obtain ⟨c₆, h₆, r₆⟩ := exists_read_append (β := Datagram) h₅ rfl fun b => b.headD 0
    obtain ⟨c₇, h₇, r₇⟩ := exists_read_append (β := Datagram) h₆ rfl fun b => b.headD 0
    obtain ⟨c₈, h₈, r₈⟩ := exists_read_append (β := Datagram) h₇ D.length_checksum fun b =>
      UInt16.ofNat (beNat b)
    obtain ⟨c₉, h₉, r₉⟩ := exists_read_append (β := Datagram) h₈ D.length_src fun b =>
      UInt32.ofNat (beNat b)
    obtain ⟨c₁₀, h₁₀, r₁₀⟩ := exists_read_append (β := Datagram) h₉ D.length_dst fun b =>
      UInt32.ofNat (beNat b)
    rw [ofNat_netOrder] at r₃
    have hversion : ([D.verIhl] : Bytes).headD 0 >>> 4 = 4 := D.version
    have hihl : ¬ (([D.verIhl] : Bytes).headD 0 &&& 0x0f).toNat * 4 < 20 := by
      have := D.ihl
      simp only [List.headD_cons]
      omega
    refine ⟨c₁₀, h₁₀, (r₁ _ _).trans ?_⟩
    dsimp only
    rw [if_neg (not_not_intro hversion), if_neg hihl]
    refine (r₂ _ _).trans ((r₃ _ _).trans ((r₄ _ _).trans ((r₅ _ _).trans ((r₆ _ _).trans
      ((r₇ _ _).trans ((r₈ _ _).trans ((r₉ _ _).trans ((r₁₀ _ _).trans ?_))))))))
    exact run_set_bind _ _ _ _

/-- **What the IPv4 header leaves for the transport layer**: the payload, or what comes after the
datagram when there is no payload. -/
theorem ipv4_run : ∃ w : Hdr → Hdr, ∀ (t : Bytes) (c : Cur) (s : Hdr), c.rest = D.bytes ++ t →
    ∃ c', ipv4.run c s = (.ok (D.datagram, c'), w s) ∧
      c'.rest = if D.body = [] then t else D.body := by
  obtain ⟨w, hw⟩ := D.ipv4_head
  have htotal := D.toNat_totalLen
  have hconfine : D.totalLen.toNat - (D.verIhl &&& 0x0f).toNat * 4 = D.body.length := by
    rw [D.ihl]
    omega
  have hpayload : (D.verIhl &&& 0x0f).toNat * 4 < D.totalLen.toNat ↔ D.body ≠ [] := by
    rw [D.ihl, ← List.length_pos_iff]
    omega
  have hrests (t : Bytes) :
      (if (D.verIhl &&& 0x0f).toNat * 4 < D.totalLen.toNat then D.body else D.body ++ t) =
        if D.body = [] then t else D.body := by
    by_cases hbody : D.body = []
    · rw [if_pos hbody, if_neg fun h => hpayload.mp h hbody, hbody, List.nil_append]
    · rw [if_neg hbody, if_pos (hpayload.mpr hbody)]
  let p := (D.verIhl &&& 0x0f).toNat * 4 < D.totalLen.toNat
  have hopts : (D.verIhl &&& 0x0f).toNat * 4 - 20 = D.options.length := by
    rw [D.ihl]
    omega
  by_cases hlong : 20 < (D.verIhl &&& 0x0f).toNat * 4
  · refine ⟨fun s => { w s with net := { (w s).net with ipOptions := some (hexBytes D.options) } },
      fun t c s hrest => ?_⟩
    obtain ⟨c₁, h₁, hrun⟩ := hw t c s hrest
    obtain ⟨c₂, h₂, htake⟩ := take_run h₁ (w s)
    obtain ⟨c₃, h₃, hconfined⟩ := run_confined (p := p) h₂ (pure D.datagram)
      { w s with net := { (w s).net with ipOptions := some (hexBytes D.options) } }
    refine ⟨c₃, ?_, h₃.trans (hrests t)⟩
    rw [hrun, afterFixed, if_pos hlong, hopts, hconfine, run_bind, htake]
    exact hconfined
  · have hnone : D.options = [] := by
      rw [D.ihl] at hlong
      exact List.length_eq_zero_iff.mp (by omega)
    refine ⟨w, fun t c s hrest => ?_⟩
    obtain ⟨c₁, h₁, hrun⟩ := hw t c s hrest
    rw [hnone, List.nil_append] at h₁
    obtain ⟨c₂, h₂, hconfined⟩ := run_confined (p := p) h₁ (pure D.datagram) (w s)
    refine ⟨c₂, ?_, h₂.trans (hrests t)⟩
    rw [hrun, afterFixed, if_neg hlong, hconfine]
    exact hconfined

end V4Datagram

/-! ### The length of a UDP header -/

/-- The length that a UDP header states. -/
def Transport.udpLenOf (b : Bytes) : ℕ := (UInt16.ofNat (field b 4 2)).toNat

/-- **A UDP header that states a length within the datagram cuts off what comes after it.** -/
theorem Transport.udp_run (src dst : IpAddr) (proto : UInt8) {b : Bytes} (h : 8 ≤ udpLenOf b)
    (hle : udpLenOf b ≤ b.length) :
    ∃ (w : Hdr → Hdr) (sport dport : UInt16), ∀ (t : Bytes) (c : Cur) (s : Hdr),
      c.rest = b ++ t → ∃ c', c'.rest = (b.drop 8).take (udpLenOf b - 8) ∧
        (udp src dst proto).run c s = (udpPayload sport dport).run c' (w s) := by
  refine ⟨?w, sportOf b, dportOf b, fun t c s hrest => ?run⟩
  case run =>
    obtain ⟨c₁, h₁, r₁⟩ := Header.exists_read_within (β := Onward) (n := 1) (i := 0) (b := b) hrest
      (by omega) fun x => UInt16.ofNat (beNat x)
    obtain ⟨c₂, h₂, r₂⟩ := Header.exists_read_within (β := Onward) (n := 1) h₁ (by omega)
      fun x => UInt16.ofNat (beNat x)
    obtain ⟨c₃, h₃, r₃⟩ := Header.exists_read_within (β := Onward) (n := 1) h₂ (by omega)
      fun x => UInt16.ofNat (beNat x)
    obtain ⟨c₄, h₄, r₄⟩ := Header.exists_read_within (β := Onward) (n := 1) h₃ (by omega)
      fun x => UInt16.ofNat (beNat x)
    have hsplit : c₄.rest = (b.drop 8).take (udpLenOf b - 8) ++
        ((b.drop 8).drop (udpLenOf b - 8) ++ t) := by
      rw [h₄, ← List.append_assoc, List.take_append_drop]
    have hlen : ((b.drop 8).take (udpLenOf b - 8)).length = udpLenOf b - 8 := by
      rw [List.length_take, List.length_drop]
      omega
    obtain ⟨c₅, h₅, r₅⟩ := Header.run_confined (p := 8 ≤ udpLenOf b) hsplit
      (udpPayload (sportOf b) (dportOf b)) _
    refine ⟨c₅, by rw [h₅, if_pos h], ?_⟩
    refine (r₁ _ _).trans ((r₂ _ _).trans ((r₃ _ _).trans ((r₄ _ _).trans ?_)))
    rw [hlen] at r₅
    exact r₅

/-! ### Datagrams in frames -/

/-- What follows the fixed IPv6 header. -/
def V6Datagram.payload (D : V6Datagram) : Bytes := chainBytes D.exts D.proto ++ D.body

/-- A complete IP datagram that states its length, and no IPv6 jumbogram.  The extension headers of
an IPv6 datagram may be told apart from its body or not. -/
inductive IpDatagram where
  | v4 (D : V4Datagram)
  | v6 (D : V6Datagram) (h : D.payload ≠ [] ∧ D.payload.length < 65536)

namespace IpDatagram

def hop : IpDatagram → Hop
  | v4 _ => .ipv4
  | v6 _ _ => .ipv6

def bytes : IpDatagram → Bytes
  | v4 D => D.bytes
  | v6 D _ => D.whole

/-- A length field that the dissectors look at says where the datagram ends: the total length of an
IPv4 datagram with a payload, or the length of a UDP header. -/
def Closed : IpDatagram → Prop
  | v4 D => D.body ≠ []
  | v6 D _ => (D.proto = 17 ∨ D.proto = 136) ∧ D.exts.length ≤ 15 ∧
      8 ≤ Transport.udpLenOf D.body ∧ Transport.udpLenOf D.body ≤ D.body.length

/-- The datagram is a fragment, and not the first one. -/
def LaterFragment : IpDatagram → Prop
  | v4 D => D.datagram.fragOffset ≠ 0
  | v6 D _ => D.proto = 44 ∧ D.exts.length ≤ 14 ∧ 8 ≤ D.body.length ∧
      ¬ IsExtension (D.body.headD 0) ∧
      UInt16.ofNat (Transport.field D.body 2 2) &&& 0xfff8 ≠ 0

end IpDatagram

/-- The link layer of the frame leads to the datagram, and `t` comes after it. -/
def Carries (o : Owned) (P : IpDatagram) (t : Bytes) (c : Cur) (s : Hdr) : Prop :=
  LinkLeads P.hop (Link.dissectLink o.linktype) (Cur.new o.data) { ifaceId := some o.ifaceId } c s ∧
    c.rest = P.bytes ++ t

/-- The second frame is the first one, and `t` after it. -/
structure Appended (o o' : Owned) (t : Bytes) : Prop where
  linktype : o'.linktype = o.linktype
  ifaceId : o'.ifaceId = o.ifaceId
  data : o'.data = o.data ++ t

section Frames

variable {o o' : Owned} {P : IpDatagram} {t : Bytes} {c c' : Cur} {s : Hdr}

/-- With more bytes in the frame the link layer leads to the datagram still. -/
theorem Carries.appended (h : Carries o P [] c s) (ho : Appended o o' t) :
    ∃ c', Carries o' P t c' s := by
  obtain ⟨hl, hrest⟩ := h
  have hdata : (Cur.new o'.data).rest = (Cur.new o.data).rest ++ t := ho.data
  obtain ⟨c', hl', hrest'⟩ := hl.exists_longer (Link.dissectLink_extends _) hdata
  refine ⟨c', ?_, ?_⟩
  · rw [ho.linktype, ho.ifaceId]
    exact hl'
  · rw [hrest', hrest, List.append_nil]

/-- The walk over the frame gets to the datagram. -/
theorem Carries.journey_eq (h : Carries o P t c s) :
    frameJourney o = (hop P.hop c s none).resume c.remaining := by
  rw [← follow_hop]
  exact h.1.journey_eq

/-- Walks that do the same at the datagram do the same. -/
theorem Carries.same {t' : Bytes} (h : Carries o P t c s) (h' : Carries o' P t' c' s)
    (hhop : (hop P.hop c s none).Same (hop P.hop c' s none)) :
    (frameJourney o).Same (frameJourney o') := by
  rw [h.journey_eq, h'.journey_eq]
  refine resume_congr hhop fun d q q' hq hq' hrest => ?_
  exact follow_congr (hop_remaining_lt hq) (hop_remaining_lt hq') hrest

/-- Fragments have not been marked before the datagram. -/
theorem Carries.unmarked (h : Carries o P t c s) : s.net.ipFlagMf = none :=
  congrArg Prod.fst (h.1.mark_eq (Link.dissectLink_aloof _))

/-- The IPv4 header confines the cursor to a payload. -/
theorem hop_same_of_v4 {D : V4Datagram} (hbody : D.body ≠ []) {t' : Bytes}
    (hc : c.rest = D.bytes ++ t) (hc' : c'.rest = D.bytes ++ t') :
    (hop .ipv4 c s none).Same (hop .ipv4 c' s none) := by
  obtain ⟨w, hw⟩ := D.ipv4_run
  obtain ⟨q, hrun, hq⟩ := hw t c s hc
  obtain ⟨q', hrun', hq'⟩ := hw t' c' s hc'
  rw [if_neg hbody] at hq hq'
  change (ip Network.ipv4 c s none).Same (ip Network.ipv4 c' s none)
  rw [ip, ip, hrun, hrun']
  exact afterIp_congr D.datagram (hq.trans hq'.symm)

/-- The transport layer of a datagram that is no fragment. -/
theorem afterIp_whole {d : Datagram} (hoff : d.fragOffset = 0) (hs : s.net.ipFlagMf = none) :
    afterIp d c s none = (Network.dispatchIpProto d.proto d.src d.dst).taken c s none := by
  have hmeta : Network.fragMeta d s c = none := by
    rw [Network.fragMeta, hs, hoff]
    rfl
  rw [afterIp, hmeta, if_neg (not_not_intro hoff)]
  rfl

/-- The UDP dissector does the same with and without more bytes. -/
theorem udp_taken_same (src dst : IpAddr) {proto : UInt8} (hproto : proto = 17 ∨ proto = 136)
    {b : Bytes} (hmin : 8 ≤ Transport.udpLenOf b) (hmax : Transport.udpLenOf b ≤ b.length)
    (hc : c.rest = b) (hc' : c'.rest = b ++ t) :
    ((Network.dispatchIpProto proto src dst).taken c s none).Same
      ((Network.dispatchIpProto proto src dst).taken c' s none) := by
  obtain ⟨w, sport, dport, hw⟩ := Transport.udp_run src dst proto hmin hmax
  let s' : Hdr := { s with tuple := some { srcIp := src, dstIp := dst, srcPort := 0, dstPort := 0,
                                           proto } }
  obtain ⟨q, hq, hrun⟩ := hw [] c s' (by rw [hc, List.append_nil])
  obtain ⟨q', hq', hrun'⟩ := hw t c' s' hc'
  have hudp (c : Cur) : (Network.dispatchIpProto proto src dst).run c s =
      (Transport.udp src dst proto).run c s' := by
    obtain rfl | rfl := hproto
    · rfl
    · rfl
  obtain ⟨hsight, hstate⟩ := (Transport.udpPayload_aloof sport dport).built.congruent q q' (w s')
    (hq.trans hq'.symm)
  rw [Header.taken, Header.taken, hudp, hudp, hrun, hrun']
  exact ⟨hsight, hstate, rfl⟩

/-- The UDP header confines the cursor to the length it states. -/
theorem hop_same_of_udp {D : V6Datagram} (hproto : D.proto = 17 ∨ D.proto = 136)
    (hexts : D.exts.length ≤ 15) (hmin : 8 ≤ Transport.udpLenOf D.body)
    (hmax : Transport.udpLenOf D.body ≤ D.body.length) (hs : s.net.ipFlagMf = none)
    (hc : c.rest = D.whole) (hc' : c'.rest = D.whole ++ t) :
    (hop .ipv6 c s none).Same (hop .ipv6 c' s none) := by
  have hend : ¬ IsExtension D.proto := by
    obtain h | h := hproto
    · rw [h]; decide
    · rw [h]; decide
  obtain ⟨q, s', hq, hmf, hrun⟩ := V6Datagram.ipv6_whole hc hexts hend s
  obtain ⟨q', hrun', hq'⟩ := Network.ipv6_extends t c c' s s' _ q (hc'.trans (by rw [hc])) hrun
    trivial
  rw [hq] at hq'
  change (ip Network.ipv6 c s none).Same (ip Network.ipv6 c' s none)
  rw [ip, ip, hrun, hrun']
  dsimp only
  rw [afterIp_whole rfl (hmf.trans hs), afterIp_whole rfl (hmf.trans hs)]
  exact udp_taken_same _ _ hproto hmin hmax hq hq'

/-- At a datagram whose end the dissectors know, the bytes after it do not matter. -/
theorem Carries.hop_same (h : Carries o P [] c s) (h' : Carries o' P t c' s)
    (hclosed : t = [] ∨ P.Closed) : (hop P.hop c s none).Same (hop P.hop c' s none) := by
  obtain rfl | hclosed := hclosed
  · exact hop_congr _ (h.2.trans h'.2.symm)
  · cases P with
    | v4 D => exact hop_same_of_v4 hclosed h.2 h'.2
    | v6 D _ =>
        obtain ⟨hproto, hexts, hmin, hmax⟩ := hclosed
        have hrest : c.rest = D.whole := h.2.trans (List.append_nil _)
        exact hop_same_of_udp hproto hexts hmin hmax h.unmarked hrest h'.2

/-- The IPv6 header of a fragment that is not the first one. -/
theorem ipv6_later {D : V6Datagram} {hD : D.payload ≠ [] ∧ D.payload.length < 65536}
    (h : (IpDatagram.v6 D hD).LaterFragment) (hc : c.rest = D.whole) :
    ∃ d q s', Network.ipv6.run c s = (.ok (d, q), s') ∧ d.fragOffset ≠ 0 := by
  obtain ⟨hproto, hexts, hlen, hend, hoff⟩ := h
  obtain ⟨c₁, h₁, hr₁⟩ :=
    Network.ipv6_head hc D.length_flow D.version rfl D.length_src D.length_dst
  obtain ⟨s₁, -, -, hr₁⟩ := hr₁ s
  have hguard : 16 = 14 - D.exts.length + 1 + 1 + D.exts.length := by omega
  rw [hguard] at hr₁
  obtain ⟨c₂, names, h₂, hr₂⟩ :=
    Network.extensionChain_exts h₁ (14 - D.exts.length + 1 + 1) [] 0
  have hbody : c₂.rest = D.body.drop 0 ++ [] := h₂.trans (List.append_nil _).symm
  -- the four fields of the Fragment header
  obtain ⟨c₃, h₃, hr₃⟩ := Header.exists_read_within (β := Network.ExtChain) (n := 0) hbody
    (by omega) fun b => b.headD 0
  obtain ⟨c₄, h₄, hr₄⟩ := Header.exists_read_within (β := Network.ExtChain) (n := 0) h₃ (by omega)
    fun b => b.headD 0
  obtain ⟨c₅, h₅, hr₅⟩ := Header.exists_read_within (β := Network.ExtChain) (n := 1) h₄ (by omega)
    fun b => UInt16.ofNat (beNat b)
  obtain ⟨c₆, h₆, hr₆⟩ := Header.exists_read_within (β := Network.ExtChain) (n := 3) h₅ (by omega)
    fun b => UInt32.ofNat (beNat b)
  have hnext : ((D.body.drop 0).take (0 + 1)).headD 0 = D.body.headD 0 := by
    cases D.body <;> rfl
  have hchain : ∃ s₂, (Network.extensionChain (14 - D.exts.length + 1 + 1)
      { proto := D.proto, names, fragOffset := 0 }).run c₂ s₁ =
      (.ok ({ proto := D.body.headD 0, names := names ++ ["frag".toList],
              fragOffset := UInt16.ofNat (Transport.field D.body 2 2) &&& 0xfff8 }, c₆), s₂) := by
    rw [Network.extensionChain_frag hproto, ← hnext]
    refine ⟨?fields, ?run⟩
    case run =>
      refine (hr₃ _ _).trans ((hr₄ _ _).trans ((hr₅ _ _).trans ((hr₆ _ _).trans ?_)))
      refine (Header.run_set_bind _ _ _ _).trans ?_
      rw [Network.extensionChain_end (by rwa [hnext])]
      rfl
  obtain ⟨s₂, hchain⟩ := hchain
  obtain ⟨s', hafter, -⟩ := Network.afterChain_run (.ofNat 128 (beNat D.src))
    (.ofNat 128 (beNat D.dst)) _ c₆ s₂
  refine ⟨?datagram, c₆, s', ?run, ?off⟩
  case run =>
    rw [hr₁, Header.run_bind, (hr₂ s₁).trans hchain]
    exact hafter
  case off => exact hoff

/-- At a later fragment whose end the dissectors do not know, the new bytes are taken for its. -/
theorem Carries.later (h : Carries o P [] c s) (h' : Carries o' P t c' s)
    (hlater : P.LaterFragment) (hopen : ¬ P.Closed) :
    ∃ d q q' s', d.fragOffset ≠ 0 ∧ q'.rest = q.rest ++ t ∧
      hop P.hop c s none = afterIp d q s' none ∧ hop P.hop c' s none = afterIp d q' s' none := by
  cases P with
  | v4 D =>
      have hbody : D.body = [] := not_not.mp hopen
      obtain ⟨w, hw⟩ := D.ipv4_run
      obtain ⟨q, hrun, hq⟩ := hw [] c s h.2
      obtain ⟨q', hrun', hq'⟩ := hw t c' s h'.2
      rw [if_pos hbody] at hq hq'
      refine ⟨D.datagram, q, q', w s, hlater, by rw [hq, hq', List.nil_append], ?_, ?_⟩
      · change ip Network.ipv4 c s none = _
        rw [ip, hrun]
      · change ip Network.ipv4 c' s none = _
        rw [ip, hrun']
  | v6 D hD =>
      have hrest : c.rest = D.whole := h.2.trans (List.append_nil _)
      have hrest' : c'.rest = c.rest ++ t := h'.2.trans (by rw [hrest]; rfl)
      obtain ⟨d, q, s', hrun, hoff⟩ := ipv6_later (s := s) hlater hrest
      obtain ⟨q', hrun', hq'⟩ := Network.ipv6_extends t c c' s s' d q hrest' hrun trivial
      refine ⟨d, q, q', s', hoff, hq', ?_, ?_⟩
      · change ip Network.ipv6 c s none = _
        rw [ip, hrun]
      · change ip Network.ipv6 c' s none = _
        rw [ip, hrun']

end Frames

section Main

variable [Hashes]

/-- What is recorded about a later fragment has all the bytes that are left. -/
theorem dissectOne_frag_of_later {o : Owned} {d : Datagram} {q : Cur} {s : Hdr} {n : ℕ}
    (hoff : d.fragOffset ≠ 0) (h : frameJourney o = (afterIp d q s none).resume n) :
    ∃ m, (dissectOne o false).frag = some m ∧ m.payload = q.rest := by
  obtain ⟨m, hm, hpayload⟩ : ∃ m, Network.fragMeta d s q = some m ∧ m.payload = q.rest := by
    rw [Network.fragMeta, if_pos (.inr hoff)]
    exact ⟨_, rfl, rfl⟩
  have hjourney : frameJourney o = { stop := .ok none,
                                     hdr := { s with stack := s.stack ++ [.ipFragment] }
                                     frag := some m } := by
    rw [h, afterIp, if_pos hoff, hm]
    cases n <;> rfl
  have harrive : (frameCtx o false).arrive (frameJourney o).stop =
      .ok (.ok (), frameCtx o false) := by
    rw [hjourney]
    rfl
  refine ⟨m, ?_, hpayload⟩
  rw [dissectOne_of_arrive harrive]
  change (frameJourney o).frag = some m
  rw [hjourney]

/-- **When the bytes after a datagram are ignored.**  They are when there are none, or when a length
field says where the datagram ends and the dissectors look at it: the total length of an IPv4
datagram with a payload, or the length of a UDP header.  Of a fragment that is not the first one
they are not in any other case. -/
theorem trailing_bytes_ignored (o o' : Owned) (P : IpDatagram) (t : Bytes) (c : Cur) (s : Hdr)
    (h : Carries o P [] c s) (ho : Appended o o' t) :
    (t = [] ∨ P.Closed → SameReading (dissectOne o false) (dissectOne o' false)) ∧
      (P.LaterFragment →
        (SameReading (dissectOne o false) (dissectOne o' false) ↔ t = [] ∨ P.Closed)) := by
  obtain ⟨c', h'⟩ := h.appended ho
  have henough (hclosed : t = [] ∨ P.Closed) :
      SameReading (dissectOne o false) (dissectOne o' false) :=
    dissectOne_same (h.same h' (h.hop_same h' hclosed)) false
  refine ⟨henough, fun hlater => ⟨fun hsame => ?_, henough⟩⟩
  by_cases hclosed : P.Closed
  · exact .inr hclosed
  obtain ⟨d, q, q', s', hoff, hq, hhop, hhop'⟩ := h.later h' hlater hclosed
  obtain ⟨m, hm, hpayload⟩ := dissectOne_frag_of_later hoff (h.journey_eq.trans (by rw [hhop]))
  obtain ⟨m', hm', hpayload'⟩ :=
    dissectOne_frag_of_later hoff (h'.journey_eq.trans (by rw [hhop']))
  have heq : m = m' := Option.some.inj (hm.symm.trans (hsame.frag.trans hm'))
  rw [heq, hpayload', hq] at hpayload
  exact .inl (List.append_right_eq_self.mp hpayload)

end Main

/-! ### Frames with something after the datagram -/

/-- The datagram in the plain frame and in the padded one: a TCP segment with the payload `hi`. -/
def plainDatagram : V4Datagram where
  verIhl := 0x45
  version := by decide
  tos := 0
  ident := [0, 1]
  length_ident := rfl
  flagsFrag := [0x40, 0]
  length_flagsFrag := rfl
  ttl := 64
  proto := 6
  checksum := [0, 0]
  length_checksum := rfl
  src := [10, 0, 0, 5]
  length_src := rfl
  dst := [93, 184, 216, 34]
  length_dst := rfl
  options := []
  ihl := by decide
  body := (sampleFrame [0x68, 0x69]).drop 34
  length_lt := by decide

/-- Where the IP header of the plain frame is. -/
def plainIpCur : Cur := { (Cur.new plainFrame.data) with pos := 14, pos_le := by decide }

/-- The padding of a frame is ignored. -/
theorem trailing_bytes_ignored_padding :
    (∃ s, Carries plainFrame (.v4 plainDatagram) [] plainIpCur s) ∧ ∀ _ : Hashes,
      SameReading (dissectOne plainFrame false) (dissectOne paddedFrame false) := by
  have hcarries : Carries plainFrame (.v4 plainDatagram) [] plainIpCur _ :=
    ⟨.onward (e := Link.ethernet) (k := .ethernet) rfl rfl (.here rfl), by decide⟩
  have happended : Appended plainFrame paddedFrame [0, 0, 0, 0] := ⟨rfl, rfl, rfl⟩
  refine ⟨⟨_, hcarries⟩, fun _ => ?_⟩
  have hclosed : (IpDatagram.v4 plainDatagram).Closed :=
    show plainDatagram.body ≠ [] by decide
  exact (trailing_bytes_ignored _ _ _ _ _ _ hcarries happended).1 (.inr hclosed)

/-- The last fragment of an IPv6 datagram, with the byte `a` at offset eight. -/
def lastV6Fragment : V6Datagram := fromOneToTwo 44 [17, 0, 0, 8, 0, 0, 0, 1, 0x61] (by decide)

/-- An IPv4 datagram that says TCP, and has no payload. -/
def emptyDatagram : V4Datagram :=
  { plainDatagram with body := [], length_lt := by decide }

/-- A frame that begins with its IP header. -/
def rawFrame (data : Bytes) (h : data.length ≤ 100) : Owned :=
  { capLen := 100, origLen := 100, linktype := 101, data, data_le := h }

/-- The byte after a fragment is taken for the fragment's, and the bytes after an empty datagram are
taken for a TCP header. -/
theorem trailing_bytes_taken :
    (∃ s, Carries (rawFrame lastV6Fragment.whole (by decide))
        (.v6 lastV6Fragment ⟨by decide, by decide⟩) [] (Cur.new lastV6Fragment.whole) s) ∧
      (∃ s, Carries (rawFrame emptyDatagram.bytes (by decide)) (.v4 emptyDatagram) []
        (Cur.new emptyDatagram.bytes) s) ∧ ∀ _ : Hashes,
      ¬ SameReading (dissectOne (rawFrame lastV6Fragment.whole (by decide)) false)
          (dissectOne (rawFrame (lastV6Fragment.whole ++ [0]) (by decide)) false) ∧
        ¬ SameReading (dissectOne (rawFrame emptyDatagram.bytes (by decide)) false)
          (dissectOne (rawFrame (emptyDatagram.bytes ++ (sampleFrame []).drop 34) (by decide))
            false) := by
  refine ⟨⟨_, .here rfl, by decide⟩, ⟨_, .here rfl, by decide⟩, fun _ => ⟨fun h => ?_, fun h => ?_⟩⟩
  · have hfrag := congrArg (Option.map FragMeta.payload) h.frag
    cases hfrag
  · have hport := congrArg TransportCols.srcPort h.transport
    cases hport

end PcapRacer
