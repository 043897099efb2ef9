/-
**Headers of the link layer around a packet.**

Each dissector of the link layer that others hand over to reads its header, pushes its name, and
hands the bytes behind the header over.  Tags, labels and encapsulated frames may stand around each
other in any order and number.

Main definitions:

* `StartsIp` — bytes that look like an IP packet of one version;
* `Link.IsBottom`, `Link.labelBytes` — stacks of labels.

Main results:

* `Link.mplsLabels_gives` — a stack of labels is walked to its bottom;
* `Link.ethernet_gives`, `Link.vlan_gives`, `Link.mpls_gives`, `Link.pppoe_gives`,
  `Link.snap_gives` — **the header is taken off, and its name is pushed**.
-/

import PcapRacer.HeaderTrails

set_option relaxedAutoImplicit false
set_option autoImplicit false

namespace PcapRacer

/-- The first four bits are the version of the IP packet that the hop takes. -/
inductive StartsIp : Hop → Bytes → Prop
  | v4 {b : UInt8} {y : Bytes} (h : b >>> 4 = 4) : StartsIp .ipv4 (b :: y)
  | v6 {b : UInt8} {y : Bytes} (h : b >>> 4 = 6) : StartsIp .ipv6 (b :: y)

namespace Link

open Header

variable {t : Trail} {h : Hop} {y : Bytes}

theorem rawIp_gives (hy : StartsIp h y) : Gives rawIp y t (.ok (.hop h, y), t) := by
  cases hy with
  | v4 hb => exact gives_peekU8_bind (by rw [hb]; exact gives_pure _)
  | v6 hb => exact gives_peekU8_bind (by rw [hb]; exact gives_pure _)

theorem ethernet_gives {dst src : Bytes} (hdst : dst.length = 6) (hsrc : src.length = 6)
    {type : UInt16} (leads : typeOrLength type = pure (.hop h)) :
    Gives ethernet (dst ++ (src ++ (beBytes 2 type.toNat ++ y))) t
      (.ok (.hop h, y), t.push .eth) := by
  refine gives_layer_bind (gives_read_bind hdst (gives_read_bind hsrc (gives_be16_bind ?_)))
  refine gives_keep_bind (fun _ => rfl) ?_
  rw [leads]
  exact gives_pure _

theorem vlan_gives (tci : UInt16) {type : UInt16} (leads : typeOrLength type = pure (.hop h)) :
    Gives vlan (beBytes 2 tci.toNat ++ (beBytes 2 type.toNat ++ y)) t
      (.ok (.hop h, y), t.push .vlan) := by
  have hinner : ∀ t, Gives (read .be16 >>= typeOrLength) (beBytes 2 type.toNat ++ y) t
      (.ok (.hop h, y), t) := fun t => gives_be16_bind (by rw [leads]; exact gives_pure _)
  refine gives_layer_bind (gives_be16_bind (gives_look fun s => ?_))
  split
  · exact gives_keep_bind (fun _ => rfl) (hinner _)
  · exact gives_keep_bind (fun _ => rfl) (hinner _)

theorem mplsLabel_gives (w : UInt32) : Gives (mplsLabel w) y t (.ok ((), y), t) := by
  refine gives_look fun s => ?_
  split
  · exact gives_keep_bind (f := pure) (fun _ => rfl) (gives_pure _)
  · exact gives_pure _

/-- The bottom of a stack of labels is marked. -/
abbrev IsBottom (w : UInt32) : Prop := (w >>> 8) &&& 1 = 1

/-- A stack of labels. -/
def labelBytes (labels : List UInt32) : Bytes := labels.flatMap fun w => beBytes 4 w.toNat

theorem length_labelBytes (labels : List UInt32) :
    (labelBytes labels).length = 4 * labels.length := by
  induction labels with
  | nil => rfl
  | cons w labels ih =>
      rw [labelBytes, List.flatMap_cons, List.length_append, length_beBytes, List.length_cons]
      rw [labelBytes] at ih
      omega

/-- **A stack of labels is walked to its bottom.** -/
theorem mplsLabels_gives {above : List UInt32} {bottom : UInt32} (habove : ∀ w ∈ above, ¬ IsBottom w)
    (hbottom : IsBottom bottom) {rounds : ℕ} (hrounds : above.length < rounds) :
    Gives (mplsLabels rounds) (labelBytes above ++ (beBytes 4 bottom.toNat ++ y)) t
      (.ok ((), y), t) := by
  induction above generalizing rounds with
  | nil =>
      obtain ⟨rounds, rfl⟩ : ∃ k, rounds = k + 1 := ⟨rounds - 1, by omega⟩
      refine gives_be32_bind (gives_bind (mplsLabel_gives bottom) ?_)
      rw [if_pos hbottom]
      exact gives_pure _
  | cons w above ih =>
      obtain ⟨rounds, rfl⟩ : ∃ k, rounds = k + 1 := ⟨rounds - 1, by omega⟩
      rw [labelBytes, List.flatMap_cons, List.append_assoc]
      refine gives_be32_bind (gives_bind (mplsLabel_gives w) ?_)
      rw [if_neg (habove w List.mem_cons_self)]
      exact ih (fun v hv => habove v (List.mem_cons_of_mem _ hv))
        (Nat.lt_of_succ_lt_succ hrounds)

theorem mpls_gives {above : List UInt32} {bottom : UInt32} (habove : ∀ w ∈ above, ¬ IsBottom w)
    (hbottom : IsBottom bottom) (hy : StartsIp h y) :
    Gives mpls (labelBytes above ++ (beBytes 4 bottom.toNat ++ y)) t
      (.ok (.hop h, y), t.push .mpls) := by
  refine gives_layer_bind ?_
  cases above with
  | nil =>
      refine gives_be32_bind (gives_bind (mplsLabel_gives bottom) ?_)
      dsimp only
      rw [if_neg (not_not_intro hbottom)]
      exact rawIp_gives hy
  | cons w above =>
      have hlen : above.length < (labelBytes above ++ (beBytes 4 bottom.toNat ++ y)).length + 1 := by
        rw [List.length_append, length_labelBytes]
        omega
      rw [labelBytes, List.flatMap_cons, List.append_assoc]
      refine gives_be32_bind (gives_bind (mplsLabel_gives w) ?_)
      dsimp only
      rw [if_pos (habove w List.mem_cons_self)]
      refine gives_remaining_bind (gives_bind (mplsLabels_gives (fun v hv =>
        habove v (List.mem_cons_of_mem _ hv)) hbottom hlen) ?_)
      exact rawIp_gives hy

theorem pppoe_gives (verType code : UInt8) (session len : UInt16) {proto : UInt16}
    (leads : pppPayload proto = pure (.hop h)) :
    Gives pppoe (verType :: code :: (beBytes 2 session.toNat ++ (beBytes 2 len.toNat ++
      (beBytes 2 proto.toNat ++ y)))) t (.ok (.hop h, y), t.push .pppoe) := by
  refine gives_layer_bind (gives_u8_bind (gives_u8_bind (gives_be16_bind ?_)))
  refine gives_keep_bind (fun _ => rfl) (gives_be16_bind (gives_be16_bind ?_))
  refine gives_keep_bind (fun _ => rfl) ?_
  rw [leads]
  exact gives_pure _

theorem snap_gives (control : UInt8) {type : UInt16}
    (leads : ethertypePayload type = pure (.hop h)) :
    Gives llc (0xaa :: 0xaa :: control :: ([0, 0, 0] ++ (beBytes 2 type.toNat ++ y))) t
      (.ok (.hop h, y), (t.push .llc).push .snap) := by
  refine gives_layer_bind (gives_u8_bind (gives_u8_bind (gives_u8_bind ?_)))
  refine gives_keep_bind (fun _ => rfl) ?_
  rw [if_pos ⟨rfl, rfl⟩]
  refine gives_layer_bind (gives_read_bind (x := [0, 0, 0]) rfl (gives_be16_bind ?_))
  refine gives_keep_bind (fun _ => rfl) ?_
  rw [if_pos (by decide), leads]
  exact gives_pure _

end Link

end PcapRacer
