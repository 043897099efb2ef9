/-
**Addresses and flow keys.**

IP addresses with their order and text, and the transport-layer identity of a packet.  A tuple is
normalized by putting the smaller endpoint first, so that both directions of a conversation have
one key.

Main definitions:

* `IpAddr`, `IpAddr.toText` — addresses and how they are written;
* `Tuple`, `Tuple.normalized` — the flow key, and its order-independent form.

Main results:

* `Tuple.key_key` — the key is in normal form;
* `Tuple.key_reverse` — the two directions have one key.
-/

import Mathlib.Order.Basic
import Mathlib.Order.Nat
import PcapRacer.Cur

set_option relaxedAutoImplicit false
set_option autoImplicit false

namespace PcapRacer

/-! ### Addresses -/

inductive IpAddr where
  | v4 (a : UInt32)
  | v6 (a : BitVec 128)
  deriving DecidableEq

namespace IpAddr

/-- Every IPv4 address comes before every IPv6 address; within a family the order is that of the
octets. -/
def rank : IpAddr → ℕ
  | v4 a => a.toNat
  | v6 a => 2 ^ 32 + a.toNat

theorem rank_injective {a b : IpAddr} (h : a.rank = b.rank) : a = b := by
  cases a with
  | v4 a =>
      cases b with
      | v4 b => exact congrArg v4 (UInt32.toNat_inj.1 h)
      | v6 b =>
          have := a.toNat_lt
          simp only [rank] at h
          omega
  | v6 a =>
      cases b with
      | v4 b =>
          have := b.toNat_lt
          simp only [rank] at h
          omega
      | v6 b =>
          simp only [rank, Nat.add_left_cancel_iff] at h
          exact congrArg v6 (BitVec.eq_of_toNat_eq h)

/-- The octets of an address, in network order. -/
def octets : IpAddr → Bytes
  | v4 a => (List.range 4).map fun i => UInt8.ofNat (a.toNat / 256 ^ (3 - i))
  | v6 a => (List.range 16).map fun i => UInt8.ofNat (a.toNat / 256 ^ (15 - i))

/-- Dotted decimal. -/
def textV4 (a : UInt32) : Text :=
  Text.join ['.'] ((v4 a).octets.map fun x => Text.decimal x.toNat)

/-- The sixteen-bit groups of an IPv6 address. -/
def segments (a : BitVec 128) : List ℕ :=
  (List.range 8).map fun i => a.toNat / 65536 ^ (7 - i) % 65536

/-- The first of the longest runs of zero groups, as its start and length. -/
def longestZeroRun (segs : List ℕ) : ℕ × ℕ :=
  (List.range segs.length).foldl (fun best i =>
    let run := ((segs.drop i).takeWhile (· == 0)).length
    if best.2 < run then (i, run) else best) (0, 0)

/-- The text of an IPv6 address: the longest run of two or more zero groups is left out, and an
IPv4-mapped address ends in dotted decimal. -/
def textV6 (a : BitVec 128) : Text :=
  let segs := segments a
  let groups (l : List ℕ) : Text := Text.join [':'] (l.map fun n => Nat.toDigits 16 n)
  if a.toNat / 2 ^ 32 = 0xffff then
    "::ffff:".toList ++ textV4 (UInt32.ofNat (a.toNat % 2 ^ 32))
  else
    let run := longestZeroRun segs
    if 1 < run.2 then
      groups (segs.take run.1) ++ "::".toList ++ groups (segs.drop (run.1 + run.2))
    else groups segs

def toText : IpAddr → Text
  | v4 a => textV4 a
  | v6 a => textV6 a

/-- RFC 1918, loopback, link-local and unspecified space. -/
def isPrivateV4 (a : UInt32) : Bool :=
  let n := a.toNat
  n / 2 ^ 24 == 10 || n / 2 ^ 20 == 0xac1 || n / 2 ^ 16 == 0xc0a8 || n / 2 ^ 24 == 127 ||
    n / 2 ^ 16 == 0xa9fe || n == 0

/-- Loopback, unspecified, RFC 4193 and link-local space. -/
def isPrivateV6 (a : BitVec 128) : Bool :=
  let n := a.toNat
  n == 1 || n == 0 || n / 2 ^ 121 == 0x7e || n / 2 ^ 118 == 0x3fa

end IpAddr

/-! ### Flow keys -/

/-- The transport-layer identity of a packet, used to key the flow table. -/
structure Tuple where
  srcIp : IpAddr
  dstIp : IpAddr
  srcPort : UInt16
  dstPort : UInt16
  proto : UInt8
  deriving DecidableEq

namespace Tuple

/-- The order of endpoints: by address, then by port. -/
def endpointLe (ip : IpAddr) (port : UInt16) (ip' : IpAddr) (port' : UInt16) : Prop :=
  ip.rank < ip'.rank ∨ (ip = ip' ∧ port ≤ port')

instance (ip : IpAddr) (port : UInt16) (ip' : IpAddr) (port' : UInt16) :
    Decidable (endpointLe ip port ip' port') := inferInstanceAs (Decidable (_ ∨ _))

/-- The packet runs in the canonical direction. -/
def Forward (t : Tuple) : Prop := endpointLe t.srcIp t.srcPort t.dstIp t.dstPort

instance (t : Tuple) : Decidable t.Forward := inferInstanceAs (Decidable (endpointLe _ _ _ _))

/-- The other direction of the conversation. -/
def reverse (t : Tuple) : Tuple :=
  { srcIp := t.dstIp, dstIp := t.srcIp, srcPort := t.dstPort, dstPort := t.srcPort,
    proto := t.proto }

/-- Order-independent form, so both directions of a conversation hash to one flow.  Returns the
canonical tuple and whether the packet ran in the canonical direction. -/
def normalized (t : Tuple) : Tuple × Bool := if t.Forward then (t, true) else (t.reverse, false)

/-- The key of the conversation. -/
def key (t : Tuple) : Tuple := t.normalized.1

/-! ### Normal forms -/

/-- Of the two directions one at least is forward. -/
theorem forward_or_forward_reverse (t : Tuple) : t.Forward ∨ t.reverse.Forward := by
  rcases Nat.lt_trichotomy t.srcIp.rank t.dstIp.rank with h | h | h
  · exact Or.inl (Or.inl h)
  · have heq := IpAddr.rank_injective h
    rcases Nat.le_total t.srcPort.toNat t.dstPort.toNat with hp | hp
    · exact Or.inl (Or.inr ⟨heq, UInt16.le_iff_toNat_le.2 hp⟩)
    · exact Or.inr (Or.inr ⟨heq.symm, UInt16.le_iff_toNat_le.2 hp⟩)
  · exact Or.inr (Or.inl h)

/-- Both directions are forward only when the endpoints coincide. -/
theorem eq_reverse_of_forward {t : Tuple} (h : t.Forward) (h' : t.reverse.Forward) :
    t.reverse = t := by
  have hip : t.srcIp = t.dstIp := by
    rcases h with h | ⟨h, _⟩
    · rcases h' with h' | ⟨h', _⟩
      · exact absurd h (Nat.lt_asymm h')
      · exact h'.symm
    · exact h
  have hport : t.srcPort = t.dstPort := by
    have h₁ : t.srcPort ≤ t.dstPort := by
      rcases h with h | ⟨_, h⟩
      · exact absurd h (by rw [hip]; exact Nat.lt_irrefl _)
      · exact h
    have h₂ : t.dstPort ≤ t.srcPort := by
      rcases h' with h' | ⟨_, h'⟩
      · exact absurd h' (by simp [reverse, hip])
      · exact h'
    exact UInt16.toNat_inj.1 (Nat.le_antisymm (UInt16.le_iff_toNat_le.1 h₁)
      (UInt16.le_iff_toNat_le.1 h₂))
  cases t
  simp only [reverse, Tuple.mk.injEq] at hip hport ⊢
  exact ⟨hip.symm, hip, hport.symm, hport, trivial⟩

theorem key_of_forward {t : Tuple} (h : t.Forward) : t.key = t := by
  rw [key, normalized, if_pos h]

theorem key_of_not_forward {t : Tuple} (h : ¬ t.Forward) : t.key = t.reverse := by
  rw [key, normalized, if_neg h]

theorem normalized_snd (t : Tuple) : t.normalized.2 = decide t.Forward := by
  unfold normalized
  split
  · next h => exact (decide_eq_true h).symm
  · next h => exact (decide_eq_false h).symm

/-- A key is forward. -/
theorem forward_key (t : Tuple) : t.key.Forward := by
  by_cases h : t.Forward
  · rwa [key_of_forward h]
  · rw [key_of_not_forward h]
    exact (forward_or_forward_reverse t).resolve_left h

/-- **Keys are in normal form.** -/
theorem key_key (t : Tuple) : t.key.key = t.key := key_of_forward (forward_key t)

/-- **The two directions of a conversation have one key.** -/
theorem key_reverse (t : Tuple) : t.reverse.key = t.key := by
  by_cases h : t.Forward
  · rw [key_of_forward h]
    by_cases h' : t.reverse.Forward
    · rw [key_of_forward h', eq_reverse_of_forward h h']
    · rw [key_of_not_forward h']
      rfl
  · rw [key_of_not_forward h,
      key_of_forward ((forward_or_forward_reverse t).resolve_left h)]

theorem key_proto (t : Tuple) : t.key.proto = t.proto := by
  by_cases h : t.Forward
  · rw [key_of_forward h]
  · rw [key_of_not_forward h]
    rfl

end Tuple

end PcapRacer
