/-
**Tunnel headers around a packet.**

A tunnel header has optional parts, which its flags announce.  Whatever they are, the decoder steps
over them, enters the tunnel, and hands the bytes behind the header over; where the depth is at the
cap it gives up instead, and nothing is left of its header but the outer one.

Main definitions:

* `Tunnel.GreHead`, `Tunnel.GtpHead`, `Tunnel.L2tpHead` — headers with optional parts;
* `Tunnel.GtpExtension`, `Tunnel.Indicator` — what may stand between a header and the packet.

Main results:

* `Tunnel.gre_gives`, `Tunnel.erspan_gives`, `Tunnel.vxlan_gives`, `Tunnel.geneve_gives`,
  `Tunnel.gtp_gives`, `Tunnel.l2tp_gives`, `Tunnel.teredo_gives` — **the header is taken off, and
  the tunnel is entered**.
-/

import PcapRacer.LinkShells

set_option relaxedAutoImplicit false
set_option autoImplicit false

namespace PcapRacer

namespace Header

section Optional

variable {β : Type} {x y : Bytes} {t : Trail} {o : Except DissectError (β × Bytes) × Trail}
  {p : Prop} [Decidable p] {k : Header β}

/-- Bytes that are there under a condition are skipped. -/
theorem gives_when_skip {n : ℕ} (hx : x.length = if p then n else 0) (h : Gives k y t o) :
    Gives (if p then skip n >>= fun _ => k else k) (x ++ y) t o := by
  by_cases hp : p
  · rw [if_pos hp] at hx ⊢
    exact gives_skip_bind hx h
  · rw [if_neg hp] at hx ⊢
    rw [List.length_eq_zero_iff.mp hx]
    exact h

/-- A number that is there under a condition is read, and goes to a column. -/
theorem gives_when_be32 {w : UInt32 → Hdr → Hdr} (hw : ∀ v s, (w v s).trail = s.trail)
    (hx : x.length = if p then 4 else 0) (h : Gives k y t o) :
    Gives (if p then read .be32 >>= fun v => set (w v) >>= fun _ => k else k) (x ++ y) t o := by
  by_cases hp : p
  · rw [if_pos hp] at hx ⊢
    exact gives_read_bind hx (gives_keep_bind (hw _) h)
  · rw [if_neg hp] at hx ⊢
    rw [List.length_eq_zero_iff.mp hx]
    exact h

end Optional

end Header

namespace Tunnel

open Header

variable {t : Trail} {h : Hop} {y : Bytes}

/-! ### Tunnels by IP protocol -/

/-- A GRE header, without the protocol of what it stands around. -/
structure GreHead where
  flags : UInt16
  checksum : Bytes
  key : Bytes
  seq : Bytes
  length_checksum : checksum.length = if flags &&& 0x8000 ≠ 0 then 4 else 0
  length_key : key.length = if flags &&& 0x2000 ≠ 0 then 4 else 0
  length_seq : seq.length = if flags &&& 0x1000 ≠ 0 then 4 else 0

def GreHead.bytes (g : GreHead) (proto : UInt16) (y : Bytes) : Bytes :=
  beBytes 2 g.flags.toNat ++ (beBytes 2 proto.toNat ++ (g.checksum ++ (g.key ++ (g.seq ++ y))))

/-- What the payload of a GRE header is, by its protocol. -/
def greHop (proto : UInt16) : Option Hop :=
  match proto.toNat with
  | 0x0800 => some .ipv4
  | 0x86dd => some .ipv6
  | 0x6558 => some .ethernet
  | _ => none

/-- A GRE header up to its payload. -/
theorem gre_head (g : GreHead) (proto : UInt16) {o : Except DissectError (Onward × Bytes) × Trail}
    (ho : Gives (if proto = 0x88be ∨ proto = 0x22eb then erspan proto
      else (do
        enter .gre
        match proto.toNat with
        | 0x0800 => return .hop .ipv4
        | 0x86dd => return .hop .ipv6
        | 0x6558 => return .hop .ethernet
        | 0x880b => return .done
        | _ => fail .unsupported)) y t o) : Gives gre (g.bytes proto y) t o := by
  refine gives_be16_bind (gives_be16_bind (gives_keep_bind (fun _ => rfl) ?_))
  refine gives_when_skip g.length_checksum ?_
  refine gives_when_be32 (fun _ _ => rfl) g.length_key ?_
  refine gives_when_be32 (fun _ _ => rfl) g.length_seq ?_
  exact ho

theorem gre_gives (g : GreHead) {proto : UInt16} (hproto : greHop proto = some h) :
    Gives gre (g.bytes proto y) t (t.entry .gre (.hop h, y)) := by
  refine gre_head g proto ?_
  have hspan : ¬ (proto = 0x88be ∨ proto = 0x22eb) := by
    rintro (rfl | rfl) <;> cases hproto
  rw [if_neg hspan]
  refine gives_enter_bind fun t => ?_
  unfold greHop at hproto
  split at hproto
  · next hp => cases hproto; rw [hp]; exact gives_pure _
  · next hp => cases hproto; rw [hp]; exact gives_pure _
  · next hp => cases hproto; rw [hp]; exact gives_pure _
  · cases hproto

/-- The shim of a mirrored frame, by the version of the protocol. -/
def shimLength (proto : UInt16) : ℕ := if proto = 0x88be then 4 else 12

theorem erspan_gives (g : GreHead) {proto : UInt16} (hproto : proto = 0x88be ∨ proto = 0x22eb)
    {shim : Bytes} (hshim : shim.length = shimLength proto) :
    Gives gre (g.bytes proto (shim ++ y)) t (t.entry .erspan (.hop .ethernet, y)) := by
  refine gre_head g proto ?_
  rw [if_pos hproto]
  refine gives_enter_bind fun t => ?_
  by_cases hone : proto = 0x88be
  · rw [shimLength, if_pos hone] at hshim
    refine gives_read_bind hshim ?_
    rw [if_pos hone]
    exact gives_keep_bind (fun _ => rfl) (gives_pure _)
  · rw [shimLength, if_neg hone] at hshim
    have hsplit : shim ++ y = shim.take 4 ++ (shim.drop 4 ++ y) := by
      rw [← List.append_assoc, List.take_append_drop]
    rw [hsplit]
    refine gives_read_bind (by rw [List.length_take, hshim]; rfl) ?_
    rw [if_neg hone]
    refine gives_keep_bind (fun _ => rfl) (gives_skip_bind (by rw [List.length_drop, hshim]) ?_)
    exact gives_pure _

theorem ipInIp_gives (v6 : Bool) :
    Gives (ipInIp v6) y t (t.entry .ipip (.hop (if v6 then .ipv6 else .ipv4), y)) :=
  gives_enter_bind fun _ => gives_pure _

/-! ### Tunnels by UDP port -/

theorem vxlan_gives {flags : UInt8} (hflags : flags &&& 0x08 ≠ 0) {reserved : Bytes}
    (hreserved : reserved.length = 3) (vni : UInt32) :
    Gives vxlan (flags :: (reserved ++ (beBytes 4 vni.toNat ++ y))) t
      (t.entry .vxlan (.hop .ethernet, y)) := by
  refine gives_u8_bind (gives_skip_bind hreserved (gives_be32_bind ?_))
  dsimp only
  rw [if_neg hflags]
  refine gives_enter_bind fun t => ?_
  exact gives_keep_bind (fun _ => rfl) (gives_pure _)

theorem geneve_gives {verOptlen : UInt8} (flags : UInt8) {proto : UInt16}
    (hproto : greHop proto = some h) (vni : UInt32) {options : Bytes}
    (hoptions : options.length = (verOptlen &&& 0x3f).toNat * 4) :
    Gives geneve (verOptlen :: flags :: (beBytes 2 proto.toNat ++ (beBytes 4 vni.toNat ++
      (options ++ y)))) t (t.entry .geneve (.hop h, y)) := by
  refine gives_u8_bind (gives_u8_bind (gives_be16_bind (gives_be32_bind ?_)))
  refine gives_enter_bind fun t => ?_
  refine gives_keep_bind (fun _ => rfl) (gives_skip_bind hoptions ?_)
  unfold greHop at hproto
  split at hproto
  · next hp => cases hproto; rw [hp]; exact gives_pure _
  · next hp => cases hproto; rw [hp]; exact gives_pure _
  · next hp => cases hproto; rw [hp]; exact gives_pure _
  · cases hproto

/-- An extension header of GTP: its length in words, which counts the length and the type of the
next one, and what stands between them. -/
structure GtpExtension where
  type : UInt8
  len : UInt8
  content : Bytes
  type_ne_zero : type ≠ 0
  len_ne_zero : len ≠ 0
  length_content : content.length = len.toNat * 4 - 2

namespace GtpExtension

/-- What a chain of extension headers begins with; a chain ends with type zero. -/
def headType (es : List GtpExtension) : UInt8 := (es.head?.map type).getD 0

def bytesOf : List GtpExtension → Bytes
  | [] => []
  | e :: es => e.len :: (e.content ++ headType es :: bytesOf es)

end GtpExtension

open GtpExtension (headType bytesOf)

/-- **A chain of extension headers is walked**, as far as the guard goes. -/
theorem gtpExtensions_gives (es : List GtpExtension) {guard : ℕ} (hguard : es.length ≤ guard) :
    Gives (gtpExtensions guard (headType es)) (bytesOf es ++ y) t (.ok ((), y), t) := by
  induction es generalizing guard with
  | nil =>
      unfold gtpExtensions
      exact gives_pure _
  | cons e es ih =>
      obtain ⟨guard, rfl⟩ : ∃ k, guard = k + 1 :=
        ⟨guard - 1, by rw [List.length_cons] at hguard; omega⟩
      change Gives (gtpExtensions (guard + 1) e.type) _ _ _
      unfold gtpExtensions
      rw [if_neg e.type_ne_zero, bytesOf, List.cons_append, List.append_assoc, List.cons_append]
      refine gives_u8_bind ?_
      dsimp only
      rw [if_neg e.len_ne_zero]
      exact gives_skip_bind e.length_content (gives_u8_bind (ih (Nat.le_of_succ_le_succ hguard)))

/-- A GTP header of a user packet. -/
structure GtpHead where
  flags : UInt8
  len : UInt16
  teid : UInt32
  /-- Sequence number and N-PDU number, when the flags announce the block. -/
  numbers : Bytes
  length_numbers : numbers.length = 3
  extensions : List GtpExtension
  few : extensions.length ≤ 8

namespace GtpHead

/-- The block that the flags announce. -/
def block (g : GtpHead) : Bytes :=
  if g.flags &&& 0x07 ≠ 0 then g.numbers ++ headType g.extensions :: bytesOf g.extensions else []

def bytes (g : GtpHead) (y : Bytes) : Bytes :=
  g.flags :: 255 :: (beBytes 2 g.len.toNat ++ (beBytes 4 g.teid.toNat ++ (g.block ++ y)))

end GtpHead

theorem gtp_gives (g : GtpHead) (hy : StartsIp h y) :
    Gives gtp (g.bytes y) t (t.entry .gtp (.hop h, y)) := by
  refine gives_u8_bind (gives_u8_bind (gives_be16_bind (gives_be32_bind ?_)))
  refine gives_enter_bind fun t => gives_keep_bind (fun _ => rfl) ?_
  unfold GtpHead.block
  by_cases hblock : g.flags &&& 0x07 ≠ 0
  · rw [if_pos hblock, if_pos hblock, List.append_assoc]
    refine gives_skip_bind g.length_numbers (gives_u8_bind ?_)
    refine gives_bind (gtpExtensions_gives g.extensions g.few) ?_
    exact Link.rawIp_gives hy
  · rw [if_neg hblock, if_neg hblock]
    exact Link.rawIp_gives hy

/-- An L2TP header of a data message, with the PPP header behind it. -/
structure L2tpHead where
  flags : UInt16
  isData : flags &&& 0x8000 = 0
  len : Bytes
  tunnelId : UInt16
  sessionId : UInt16
  numbers : Bytes
  offset : Bytes
  /-- The address and control pair of the PPP header may be left out. -/
  withPair : Bool
  length_len : len.length = if flags &&& 0x4000 ≠ 0 then 2 else 0
  length_numbers : numbers.length = if flags &&& 0x0800 ≠ 0 then 4 else 0
  length_offset : offset.length = if flags &&& 0x0200 ≠ 0 then 2 else 0

def L2tpHead.bytes (l : L2tpHead) (proto : UInt16) (y : Bytes) : Bytes :=
  beBytes 2 l.flags.toNat ++ (l.len ++ (beBytes 2 l.tunnelId.toNat ++ (beBytes 2 l.sessionId.toNat ++
    (l.numbers ++ (l.offset ++ ((if l.withPair then [0xff, 0x03] else []) ++
      (beBytes 2 proto.toNat ++ y)))))))

theorem l2tp_gives (l : L2tpHead) {proto : UInt16} (leads : Link.pppPayload proto = pure (.hop h)) :
    Gives l2tp (l.bytes proto y) t (t.entry .l2tp (.hop h, y)) := by
  have hppp : ∀ t, Gives (do
      let proto ← read .be16
      link fun l => { l with pppProtocol := some proto }
      Link.pppPayload proto) (beBytes 2 proto.toNat ++ y) t (.ok (.hop h, y), t) := by
    intro t
    refine gives_be16_bind (gives_keep_bind (fun _ => rfl) ?_)
    rw [leads]
    exact gives_pure _
  refine gives_be16_bind (gives_enter_bind fun t => ?_)
  refine gives_when_skip l.length_len ?_
  refine gives_be16_bind (gives_keep_bind (fun _ => rfl) ?_)
  refine gives_be16_bind (gives_keep_bind (fun _ => rfl) ?_)
  dsimp only
  rw [if_neg (not_not_intro l.isData)]
  refine gives_when_skip l.length_numbers (gives_when_skip l.length_offset ?_)
  cases hpair : l.withPair with
  | true =>
      refine gives_peek_append (x := [0xff, 0x03]) rfl ?_
      rw [if_pos rfl]
      exact gives_skip_bind rfl (hppp t)
  | false =>
      rw [if_neg Bool.false_ne_true, List.nil_append]
      refine gives_peek_append (length_beBytes 2 _) ?_
      have hother : ¬ some (beBytes 2 proto.toNat) = some [0xff, 0x03] := by
        intro hpair
        have hproto : proto = 0xff03 := by
          rw [← ofNat_beBytes_two proto, Option.some.inj hpair]
          rfl
        rw [hproto] at leads
        have hrun := congrArg (fun d => (d.run (Cur.new []) {}).1) leads
        cases hrun
      rw [if_neg hother]
      exact hppp t

/-- What may stand before the IPv6 packet of a Teredo datagram. -/
inductive Indicator where
  | authentication (idLen auLen : UInt8) (content : Bytes)
      (h : content.length = idLen.toNat + auLen.toNat + 8 + 1)
  | origin (content : Bytes) (h : content.length = 6)

def Indicator.bytes : Indicator → Bytes
  | authentication idLen auLen content _ => [0x00, 0x01] ++ (idLen :: auLen :: content)
  | origin content _ => [0x00, 0x00] ++ content

/-- **The indicators are stepped over**, as many as there are. -/
theorem teredoIndicators_gives (is : List Indicator) (hy : StartsIp .ipv6 y) {rounds : ℕ}
    (hrounds : is.length ≤ rounds) :
    Gives (teredoIndicators rounds) (is.flatMap Indicator.bytes ++ y) t (.ok ((), y), t) := by
  induction is generalizing rounds with
  | nil =>
      rw [List.flatMap_nil, List.nil_append]
      cases rounds with
      | zero => exact gives_pure _
      | succ rounds =>
          -- the packet does not look like an indicator
          cases hy with
          | @v6 b y hb =>
              have hb0 : b ≠ 0 := by
                rintro rfl
                cases hb
              refine gives_peek_bind ?_
              split
              · next hpeek =>
                  split at hpeek
                  · exact absurd (List.cons.inj (Option.some.inj hpeek)).1 hb0
                  · cases hpeek
              · next hpeek =>
                  split at hpeek
                  · exact absurd (List.cons.inj (Option.some.inj hpeek)).1 hb0
                  · cases hpeek
              · exact gives_pure _
  | cons i is ih =>
      obtain ⟨rounds, rfl⟩ : ∃ k, rounds = k + 1 :=
        ⟨rounds - 1, by rw [List.length_cons] at hrounds; omega⟩
      have hnext := ih (Nat.le_of_succ_le_succ hrounds)
      rw [List.flatMap_cons, List.append_assoc]
      cases i with
      | authentication idLen auLen content hcontent =>
          rw [Indicator.bytes, List.append_assoc]
          refine gives_peek_append (x := [0x00, 0x01]) rfl ?_
          refine gives_skip_bind rfl (gives_u8_bind (gives_u8_bind ?_))
          exact gives_skip_bind hcontent hnext
      | origin content hcontent =>
          rw [Indicator.bytes, List.append_assoc]
          refine gives_peek_append (x := [0x00, 0x00]) rfl ?_
          rw [← List.append_assoc]
          exact gives_skip_bind (by rw [List.length_append, hcontent]; rfl) hnext

theorem length_le_indicators (is : List Indicator) :
    is.length ≤ (is.flatMap Indicator.bytes).length := by
  induction is with
  | nil => exact Nat.le_refl 0
  | cons i is ih =>
      have hpos : 0 < i.bytes.length := by cases i <;> exact Nat.succ_pos _
      rw [List.flatMap_cons, List.length_append, List.length_cons]
      omega

theorem teredo_gives (is : List Indicator) (hy : StartsIp .ipv6 y) :
    Gives teredo (is.flatMap Indicator.bytes ++ y) t (t.entry .teredo (.hop .ipv6, y)) := by
  have hlen : is.length ≤ (is.flatMap Indicator.bytes ++ y).length := by
    rw [List.length_append]
    exact Nat.le_add_right_of_le (length_le_indicators is)
  refine gives_remaining_bind (gives_bind (teredoIndicators_gives is hy hlen) ?_)
  cases hy with
  | @v6 b y hb =>
      refine gives_peekU8_bind ?_
      dsimp only
      rw [if_neg (not_not_intro hb)]
      exact gives_enter_bind fun t => gives_keep_bind (fun _ => rfl) (gives_pure _)

end Tunnel

end PcapRacer
