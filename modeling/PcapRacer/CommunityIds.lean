/-
**The Community ID names the conversation.**

The digest of a Community ID is fed the seed, the two addresses, the protocol and, for protocols
that have them, the two ports, the smaller endpoint first.  The flow table puts the smaller endpoint
first with a comparison of its own.  The two comparisons agree, and the bytes can be taken apart
again: so two tuples feed the digest the same bytes exactly when they have one flow key.

Main definitions:

* `IpAddr.isV4`, `Tuple.OneFamily` — both addresses are of one family;
* `Tuple.PortsFit` — no ports where the protocol has none;
* `Tuple.idInput`, `Tuple.communityId` — the Community ID of a tuple.

Main results:

* `isOrdered_iff` — **the two comparisons of endpoints agree**;
* `Tuple.eq_of_idInput_eq` — the bytes can be taken apart;
* `communityId_faithful` — **same bytes, same key**, and every packet carries the Community ID of
  its own tuple.
-/

import PcapRacer.FlowInv
import PcapRacer.FlowState

set_option relaxedAutoImplicit false
set_option autoImplicit false

namespace PcapRacer

open BoundedTable (Refuses)

/-! ### Numbers and their octets -/

/-- A number below `256 ^ k` is determined by its `k` octets. -/
theorem eq_of_octets_eq {k n m : ℕ} (hn : n < 256 ^ k) (hm : m < 256 ^ k)
    (h : (List.range k).map (fun i => UInt8.ofNat (n / 256 ^ (k - 1 - i))) =
      (List.range k).map fun i => UInt8.ofNat (m / 256 ^ (k - 1 - i))) : n = m := by
  have hdigit : ∀ j < k, n / 256 ^ j % 256 = m / 256 ^ j % 256 := by
    intro j hj
    have hi := List.map_inj_left.mp h (k - 1 - j) (List.mem_range.mpr (by omega))
    rw [show k - 1 - (k - 1 - j) = j by omega] at hi
    exact congrArg UInt8.toNat hi
  -- the low octets first
  have hlow : ∀ j ≤ k, n % 256 ^ j = m % 256 ^ j := by
    intro j
    induction j with
    | zero =>
        intro _
        rw [Nat.pow_zero, Nat.mod_one, Nat.mod_one]
    | succ j ih =>
        intro hj
        rw [Nat.mod_pow_succ, Nat.mod_pow_succ, ih (by omega), hdigit j hj]
  have hall := hlow k (Nat.le_refl k)
  rwa [Nat.mod_eq_of_lt hn, Nat.mod_eq_of_lt hm] at hall

theorem beBytes16_inj {a b : UInt16} (h : beBytes16 a = beBytes16 b) : a = b := by
  have hrange : ∀ v : UInt16, beBytes16 v =
      (List.range 2).map fun i => UInt8.ofNat (v.toNat / 256 ^ (2 - 1 - i)) := by
    intro v
    simp [beBytes16, List.range_succ]
  rw [hrange, hrange] at h
  exact UInt16.toNat_inj.mp (eq_of_octets_eq a.toNat_lt b.toNat_lt h)

namespace IpAddr

def isV4 : IpAddr → Bool
  | v4 _ => true
  | v6 _ => false

theorem length_octets (a : IpAddr) : a.octets.length = if a.isV4 then 4 else 16 := by
  cases a with
  | v4 a => exact List.length_map ..
  | v6 a => exact List.length_map ..

/-- Addresses of one family are told apart by their octets. -/
theorem eq_of_octets_eq {a b : IpAddr} (hfamily : a.isV4 = b.isV4) (h : a.octets = b.octets) :
    a = b := by
  cases a with
  | v4 a =>
      cases b with
      | v4 b => exact congrArg v4 (UInt32.toNat_inj.mp
          (PcapRacer.eq_of_octets_eq (k := 4) a.toNat_lt b.toNat_lt h))
      | v6 b => cases hfamily
  | v6 a =>
      cases b with
      | v4 b => cases hfamily
      | v6 b => exact congrArg v6 (BitVec.eq_of_toNat_eq
          (PcapRacer.eq_of_octets_eq (k := 16) a.isLt b.isLt h))

end IpAddr

/-! ### The bytes that are fed to the digest -/

/-- **The two comparisons of endpoints agree.** -/
theorem isOrdered_iff (t : Tuple) :
    isOrdered t.srcIp t.dstIp t.srcPort t.dstPort = true ↔ t.Forward := by
  unfold isOrdered Tuple.Forward Tuple.endpointLe
  rcases Nat.lt_trichotomy t.srcIp.rank t.dstIp.rank with hlt | heq | hgt
  · simp [hlt]
  · simp [IpAddr.rank_injective heq]
  · have hne : t.srcIp ≠ t.dstIp := fun h => absurd hgt (by rw [h]; exact Nat.lt_irrefl _)
    simp [hgt, Nat.lt_asymm hgt, hne]

namespace Tuple

/-- Both addresses are of one family. -/
def OneFamily (t : Tuple) : Prop := t.srcIp.isV4 = t.dstIp.isV4

/-- A protocol that has no ports comes with the ports zero. -/
def PortsFit (t : Tuple) : Prop := hasPorts t.proto = false → t.srcPort = 0 ∧ t.dstPort = 0

instance (t : Tuple) : Decidable t.OneFamily := inferInstanceAs (Decidable (_ = _))

instance (t : Tuple) : Decidable t.PortsFit := inferInstanceAs (Decidable (_ → _))

/-- The bytes that the Community ID of a tuple is a digest of. -/
def idInput (t : Tuple) (seed : UInt16) : Bytes :=
  communityIdInput t.srcIp t.dstIp t.srcPort t.dstPort t.proto seed

/-- The Community ID of a tuple. -/
def communityId [Hashes] (t : Tuple) (seed : UInt16) : Text :=
  PcapRacer.communityId t.srcIp t.dstIp t.srcPort t.dstPort t.proto seed

variable {t t₁ t₂ : Tuple} {seed : UInt16}

/-- In the canonical direction the endpoints are fed as they stand. -/
theorem idInput_of_forward (h : t.Forward) (seed : UInt16) :
    t.idInput seed = beBytes16 seed ++ t.srcIp.octets ++ t.dstIp.octets ++ [t.proto, 0] ++
      if hasPorts t.proto then beBytes16 t.srcPort ++ beBytes16 t.dstPort else [] := by
  rw [idInput, communityIdInput, (isOrdered_iff t).mpr h]
  rfl

theorem idInput_of_not_forward (h : ¬ t.Forward) (seed : UInt16) :
    t.idInput seed = t.reverse.idInput seed := by
  have hordered : isOrdered t.srcIp t.dstIp t.srcPort t.dstPort = false := by
    rw [← Bool.not_eq_true, isOrdered_iff]
    exact h
  rw [idInput_of_forward ((forward_or_forward_reverse t).resolve_left h), idInput,
    communityIdInput, hordered]
  rfl

/-- **The key of a conversation is fed the same bytes as its packets.** -/
theorem idInput_key (t : Tuple) (seed : UInt16) : t.key.idInput seed = t.idInput seed := by
  by_cases h : t.Forward
  · rw [key_of_forward h]
  · rw [key_of_not_forward h, idInput_of_not_forward h]

theorem OneFamily.key (h : t.OneFamily) : t.key.OneFamily := by
  by_cases hf : t.Forward
  · rwa [key_of_forward hf]
  · rw [key_of_not_forward hf]
    exact h.symm

theorem PortsFit.key (h : t.PortsFit) : t.key.PortsFit := by
  by_cases hf : t.Forward
  · rwa [key_of_forward hf]
  · rw [key_of_not_forward hf]
    exact fun hp => (h hp).symm

/-- How many bytes are fed: the address family and whether there are ports show in it. -/
theorem length_idInput (h : t.Forward) (hfamily : t.OneFamily) (seed : UInt16) :
    (t.idInput seed).length =
      (if t.srcIp.isV4 then 12 else 36) + if hasPorts t.proto then 4 else 0 := by
  have hports : (if hasPorts t.proto then beBytes16 t.srcPort ++ beBytes16 t.dstPort else
      []).length = if hasPorts t.proto then 4 else 0 := by
    split <;> rfl
  have hsame : t.dstIp.isV4 = t.srcIp.isV4 := hfamily.symm
  rw [idInput_of_forward h, List.length_append, List.length_append, List.length_append,
    List.length_append, hports, IpAddr.length_octets, IpAddr.length_octets, hsame]
  split <;> rfl

/-- **The bytes can be taken apart**, once the endpoints stand in order. -/
theorem eq_of_idInput_eq (hf₁ : t₁.Forward) (hf₂ : t₂.Forward) (h₁ : t₁.OneFamily)
    (h₂ : t₂.OneFamily) (hp₁ : t₁.PortsFit) (hp₂ : t₂.PortsFit)
    (h : t₁.idInput seed = t₂.idInput seed) : t₁ = t₂ := by
  -- the lengths tell the family
  have hlen := congrArg List.length h
  rw [length_idInput hf₁ h₁, length_idInput hf₂ h₂] at hlen
  have hfamily : t₁.srcIp.isV4 = t₂.srcIp.isV4 := by
    cases hv₁ : t₁.srcIp.isV4 <;> cases hv₂ : t₂.srcIp.isV4 <;> simp [hv₁, hv₂] at hlen ⊢
    all_goals
      split at hlen <;> split at hlen <;> omega
  have hsize : t₁.srcIp.octets.length = t₂.srcIp.octets.length := by
    rw [IpAddr.length_octets, IpAddr.length_octets, hfamily]
  have hsize' : t₁.dstIp.octets.length = t₂.dstIp.octets.length := by
    rw [IpAddr.length_octets, IpAddr.length_octets, ← h₁, ← h₂, hfamily]
  -- and then one part after the other is the same
  rw [idInput_of_forward hf₁, idInput_of_forward hf₂, List.append_assoc, List.append_assoc,
    List.append_assoc, List.append_assoc, List.append_assoc, List.append_assoc,
    List.append_cancel_left_eq] at h
  obtain ⟨hsrc, h⟩ := List.append_inj h hsize
  obtain ⟨hdst, h⟩ := List.append_inj h hsize'
  obtain ⟨hproto, hports⟩ := List.append_inj h rfl
  have hproto' : t₁.proto = t₂.proto := (List.cons.inj hproto).1
  have hsrc' := IpAddr.eq_of_octets_eq hfamily hsrc
  have hdst' : t₁.dstIp = t₂.dstIp := by
    refine IpAddr.eq_of_octets_eq ?_ hdst
    rw [← h₁, ← h₂, hfamily]
  have hends : t₁.srcPort = t₂.srcPort ∧ t₁.dstPort = t₂.dstPort := by
    cases hhas : hasPorts t₁.proto with
    | false =>
        have hz₁ := hp₁ hhas
        have hz₂ := hp₂ (hproto' ▸ hhas)
        rw [hz₁.1, hz₁.2, hz₂.1, hz₂.2]
        exact ⟨rfl, rfl⟩
    | true =>
        rw [if_pos hhas, if_pos (hproto' ▸ hhas)] at hports
        obtain ⟨hsport, hdport⟩ := List.append_inj hports rfl
        exact ⟨beBytes16_inj hsport, beBytes16_inj hdport⟩
  cases t₁
  cases t₂
  simp only [Tuple.mk.injEq] at *
  exact ⟨hsrc', hdst', hends.1, hends.2, hproto'⟩

/-- **Same bytes, same key.** -/
theorem idInput_eq_iff (h₁ : t₁.OneFamily) (h₂ : t₂.OneFamily) (hp₁ : t₁.PortsFit)
    (hp₂ : t₂.PortsFit) : t₁.idInput seed = t₂.idInput seed ↔ t₁.key = t₂.key := by
  constructor
  · intro h
    rw [← idInput_key, ← idInput_key t₂] at h
    exact eq_of_idInput_eq (forward_key _) (forward_key _) h₁.key h₂.key hp₁.key hp₂.key h
  · intro h
    rw [← idInput_key, h, idInput_key]

theorem communityId_key [Hashes] (t : Tuple) (seed : UInt16) :
    t.key.communityId seed = t.communityId seed :=
  congrArg (fun b => "1:".toList ++ Hashes.base64 (Hashes.sha1 b)) (idInput_key t seed)

theorem communityId_reverse [Hashes] (t : Tuple) (seed : UInt16) :
    t.reverse.communityId seed = t.communityId seed := by
  rw [← communityId_key, key_reverse, communityId_key]

end Tuple

/-! ### In the flow table -/

namespace FlowTable

variable [Hashes]

/-- Every flow of a run carries the Community ID of its key. -/
theorem communityId_lookup_run (maxFlows : ℕ) (obs : List Observation) {key : Tuple} {f : Flow}
    (h : ((new maxFlows).run obs).flows.lookup key = some f) :
    f.communityId = key.communityId Flow.communityIdSeed := by
  induction obs using List.reverseRecOn generalizing f with
  | nil => cases h
  | append_singleton obs o ih =>
      rw [run_concat] at h
      by_cases hr : Refuses ((new maxFlows).run obs).maxFlows ((new maxFlows).run obs).flows
          o.tuple.key
      · rw [step_of_refuses hr] at h
        exact ih h
      rw [lookup_step hr] at h
      split at h
      · next hk =>
          subst hk
          obtain rfl := Option.some_inj.mp h
          rw [folded, Flow.fold_communityId, entry]
          cases hf : ((new maxFlows).run obs).flows.lookup o.tuple.key with
          | none => rfl
          | some g => exact ih hf
      · exact ih h

/-- What a packet that is not refused carries is the Community ID of its own tuple. -/
theorem communityId_step (maxFlows : ℕ) (obs : List Observation) (o : Observation)
    (hr : ¬ Refuses ((new maxFlows).run obs).maxFlows ((new maxFlows).run obs).flows
      o.tuple.key) :
    (((new maxFlows).run obs).step o).2.flow.communityId =
      some (o.tuple.communityId Flow.communityIdSeed) := by
  have hlookup : ((new maxFlows).run (obs ++ [o])).flows.lookup o.tuple.key =
      some (((new maxFlows).run obs).folded o) := by
    rw [run_concat, lookup_step hr, if_pos rfl]
  rw [step_of_admits hr]
  dsimp only
  rw [communityId_lookup_run maxFlows (obs ++ [o]) hlookup, Tuple.communityId_key]

end FlowTable

/-- **The Community ID names the conversation.**  Tuples of one address family each, with the ports
zero where the protocol has none, feed the digest the same bytes if and only if they have one key;
both directions have one Community ID; and every packet that the flow table takes in carries the
Community ID of its own tuple, and of the other direction. -/
theorem communityId_faithful :
    (∀ (t₁ t₂ : Tuple) (seed : UInt16), t₁.OneFamily → t₂.OneFamily → t₁.PortsFit → t₂.PortsFit →
      (t₁.idInput seed = t₂.idInput seed ↔ t₁.key = t₂.key)) ∧
    ∀ _ : Hashes,
      (∀ (t : Tuple) (seed : UInt16), t.reverse.communityId seed = t.communityId seed) ∧
      ∀ (maxFlows : ℕ) (obs : List Observation) (o : Observation),
        ¬ Refuses ((FlowTable.new maxFlows).run obs).maxFlows
            ((FlowTable.new maxFlows).run obs).flows o.tuple.key →
          (((FlowTable.new maxFlows).run obs).step o).2.flow.communityId =
              some (o.tuple.communityId Flow.communityIdSeed) ∧
            (((FlowTable.new maxFlows).run obs).step o).2.flow.communityId =
              some (o.tuple.reverse.communityId Flow.communityIdSeed) := by
  refine ⟨fun t₁ t₂ seed => Tuple.idInput_eq_iff, fun _ => ⟨Tuple.communityId_reverse, ?_⟩⟩
  intro maxFlows obs o hr
  rw [Tuple.communityId_reverse]
  exact ⟨FlowTable.communityId_step maxFlows obs o hr, FlowTable.communityId_step maxFlows obs o hr⟩

/-- Both directions of one TCP conversation: one key, and one input of the digest. -/
theorem communityId_faithful_handshake :
    (FlowTable.upward.idInput 0 = FlowTable.upward.reverse.idInput 0 ↔
        FlowTable.upward.key = FlowTable.upward.reverse.key) ∧
      ∀ _ : Hashes,
        (((FlowTable.new 1).run []).step
            (FlowTable.tcpPacket FlowTable.upward tcpSyn)).2.flow.communityId =
          some (FlowTable.upward.communityId Flow.communityIdSeed) :=
  ⟨communityId_faithful.1 _ _ 0 (by decide) (by decide) (by decide) (by decide),
    fun _ => ((communityId_faithful.2 _).2 1 [] _
      (BoundedTable.not_refuses_of_lt Nat.zero_lt_one)).1⟩

end PcapRacer
