/-
**What a completed datagram is made of.**

The fragment table hands out a payload only when the fragments it was given cover the datagram: the
last one is among them, and each byte before its end lies in one of them.  So the fragments of a
datagram with a hole never come out.

Main definitions:

* `Covered` — the fragments of a key cover a datagram;
* `FragSet.From` — a set is made of fragments that were received.

Main results:

* `FragSet.covered_of_complete` — a complete set covers its datagram;
* `FragTable.pushFragment_from`, `FragTable.covered_of_push` — one push.
-/

import PcapRacer.FragTable

set_option relaxedAutoImplicit false
set_option autoImplicit false

namespace PcapRacer

variable {κ : Type}

/-! ### Coverage -/

/-- The end of a fragment in its datagram. -/
def Fragment.stop (g : Fragment κ) : ℕ := g.offset.toNat + g.data.length

/-- The fragments of a key cover a datagram: the last one is there, and each byte before its end is
in one of them. -/
def Covered (key : κ) (frags : List (Fragment κ)) : Prop :=
  ∃ last ∈ frags, last.key = key ∧ last.moreFragments = false ∧
    ∀ p < last.stop, ∃ g ∈ frags, g.key = key ∧ g.offset.toNat ≤ p ∧ p < g.stop

/-! ### One datagram -/

namespace FragSet

/-- Each byte that assembly adds lies in a piece. -/
theorem mem_piece_of_assemble {pieces : List (UInt16 × Bytes)} {out out' : Bytes}
    (h : assemble pieces out = some out') {p : ℕ} (hp : out.length ≤ p) (hp' : p < out'.length) :
    ∃ q ∈ pieces, q.1.toNat ≤ p ∧ p < q.1.toNat + q.2.length := by
  induction pieces generalizing out with
  | nil =>
      cases h
      omega
  | cons q pieces ih =>
      obtain ⟨off, bytes⟩ := q
      unfold assemble at h
      split at h
      · cases h
      · next hoff =>
          split at h
          · next hgrow =>
              -- the piece reaches from the end of `out` to its own end
              by_cases hin : p < off.toNat + bytes.length
              · exact ⟨(off, bytes), List.mem_cons_self, by dsimp only; omega, hin⟩
              · have hlen : (out ++ bytes.drop (out.length - off.toNat)).length ≤ p := by
                  rw [List.length_append, List.length_drop]
                  omega
                obtain ⟨q, hq, hcov⟩ := ih h hlen
                exact ⟨q, List.mem_cons_of_mem _ hq, hcov⟩
          · obtain ⟨q, hq, hcov⟩ := ih h hp
            exact ⟨q, List.mem_cons_of_mem _ hq, hcov⟩

/-- A set is made of fragments of its key that were received, and its length was told by a last
fragment. -/
structure From (set : FragSet) (key : κ) (frags : List (Fragment κ)) : Prop where
  piece : ∀ q ∈ set.pieces, ∃ g ∈ frags, g.key = key ∧ (g.offset, g.data) = q
  total : ∀ n, set.totalLen = some n →
    ∃ g ∈ frags, g.key = key ∧ g.moreFragments = false ∧ g.stop = n

theorem From.empty (key : κ) (frags : List (Fragment κ)) : From {} key frags :=
  ⟨fun q hq => (by cases hq), fun n hn => (by cases hn)⟩

/-- Recording a received fragment. -/
theorem From.record {set : FragSet} {frags : List (Fragment κ)} {g : Fragment κ}
    (h : set.From g.key frags) (hg : g ∈ frags) :
    (set.record g.offset g.moreFragments g.data).From g.key frags := by
  refine ⟨fun q hq => ?_, fun n hn => ?_⟩
  · rcases List.mem_append.mp hq with hq | hq
    · exact h.piece q hq
    · exact ⟨g, hg, rfl, (List.mem_singleton.mp hq).symm⟩
  · unfold FragSet.record at hn
    dsimp only at hn
    split at hn
    · exact h.total n hn
    · next hmf =>
        cases hn
        exact ⟨g, hg, rfl, Bool.eq_false_iff.mpr hmf, rfl⟩

/-- Sorting the pieces does not change where they come from. -/
theorem From.sorted {set : FragSet} {key : κ} {frags : List (Fragment κ)}
    (h : set.From key frags) :
    From { set with pieces := set.pieces.insertionSort byOffset } key frags :=
  ⟨fun q hq => h.piece q ((List.mem_insertionSort byOffset).mp hq), h.total⟩

/-- What is left of a set that waits. -/
theorem From.of_waiting {set set' : FragSet} {key : κ} {frags : List (Fragment κ)}
    (h : set.From key frags) (hw : set.tryComplete = .waiting set') : set'.From key frags := by
  unfold tryComplete at hw
  split at hw
  · cases hw
    exact h
  · dsimp only at hw
    split at hw
    · cases hw
      exact h.sorted
    · split at hw
      · cases hw
        exact h.sorted
      · cases hw

/-- **A complete set covers its datagram.** -/
theorem covered_of_complete {set : FragSet} {key : κ} {frags : List (Fragment κ)} {out : Bytes}
    (h : set.From key frags) (hc : set.tryComplete = .complete out) : Covered key frags := by
  unfold tryComplete at hc
  split at hc
  · cases hc
  · next total htotal =>
      dsimp only at hc
      split at hc
      · cases hc
      · next joined hjoined =>
          split at hc
          · cases hc
          · next hlen =>
              obtain ⟨last, hmem, hkey, hmf, hstop⟩ := h.total total htotal
              refine ⟨last, hmem, hkey, hmf, fun p hp => ?_⟩
              obtain ⟨q, hq, hle, hlt⟩ := mem_piece_of_assemble hjoined (Nat.zero_le p) (by omega)
              obtain ⟨g, hg, hgkey, rfl⟩ := h.piece q ((List.mem_insertionSort byOffset).mp hq)
              exact ⟨g, hg, hgkey, hle, hlt⟩

end FragSet

/-! ### The table -/

namespace FragTable

variable [DecidableEq κ]

/-- A table without a set for the key. -/
theorem entry_of_not_mem {t : FragTable κ} {key : κ} (h : key ∉ t.sets) : t.entry key = {} := by
  rw [entry, AList.lookup_eq_none.mpr h]
  rfl

/-- **A push keeps every set made of what was received**, the pushed fragment included. -/
theorem pushFragment_from {t : FragTable κ} {key : κ} {frags : List (Fragment κ)}
    (h : (t.entry key).From key frags) {g : Fragment κ} (hg : g ∈ frags) :
    ((t.pushFragment g).2.entry key).From key frags := by
  by_cases hkey : key = g.key
  · subst hkey
    unfold pushFragment push
    split
    · exact h
    · -- the set of the fragment's own key
      unfold FragSet.add
      split
      · rw [settle, entry_of_not_mem (AList.mem_erase.not.mpr (by simp))]
        exact .empty _ _
      · cases ho : ((t.entry g.key).record g.offset g.moreFragments g.data).tryComplete with
        | overBudget =>
            rw [settle, entry_of_not_mem (AList.mem_erase.not.mpr (by simp))]
            exact .empty _ _
        | waiting set =>
            rw [settle, entry, AList.lookup_insert]
            exact (h.record hg).of_waiting ho
        | complete out =>
            rw [settle, entry_of_not_mem (AList.mem_erase.not.mpr (by simp))]
            exact .empty _ _
  · rw [entry, lookup_push_of_ne t g hkey]
    exact h

/-- **A push hands out a payload only when the received fragments cover the datagram.** -/
theorem covered_of_push {t : FragTable κ} {frags : List (Fragment κ)} {g : Fragment κ}
    (h : (t.entry g.key).From g.key frags) (hg : g ∈ frags) {out : Bytes}
    (hp : (t.pushFragment g).1 = some out) : Covered g.key frags := by
  unfold pushFragment push at hp
  split at hp
  · cases hp
  · unfold FragSet.add at hp
    split at hp
    · cases hp
    · cases ho : ((t.entry g.key).record g.offset g.moreFragments g.data).tryComplete with
      | overBudget => rw [ho] at hp; cases hp
      | waiting set => rw [ho] at hp; cases hp
      | complete payload => exact FragSet.covered_of_complete (h.record hg) ho

end FragTable

end PcapRacer
