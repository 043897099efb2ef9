/-
**One sweep over overlapping pieces.**

Assembly is a single sweep over the pieces in the order of their offsets, and gives up at the first
gap.  Whatever the overlaps are, it says the following about the pieces as a set: it succeeds when
every byte before the start of every piece is in some piece, and then every byte comes from the
piece of least offset among those that cover it, the one that arrived first among equals.

Main definitions:

* `FragSet.Covers`, `FragSet.byteAt` — the positions of a piece, and its byte there;
* `FragSet.CoveredBelow`, `FragSet.Gapless` — every position below an end, and before every piece;
* `FragSet.lowest` — the piece that a byte comes from.

Main results:

* `FragSet.getElem?_assemble` — where a byte of the sweep comes from;
* `FragSet.gap_of_assemble_eq_none` — why a sweep gives up;
* `FragSet.complete_iff` — **a set is complete exactly when it covers its datagram without a gap
  before any piece**;
* `FragSet.getElem?_of_complete` — **every byte comes from the lowest piece that covers it**.
-/

import PcapRacer.FragTableCover
import PcapRacer.StableSort

set_option relaxedAutoImplicit false
set_option autoImplicit false

namespace PcapRacer

namespace FragSet

/-! ### Positions -/

/-- The piece covers a position of the datagram. -/
def Covers (q : UInt16 × Bytes) (i : ℕ) : Prop := q.1.toNat ≤ i ∧ i < q.1.toNat + q.2.length

instance (q : UInt16 × Bytes) (i : ℕ) : Decidable (Covers q i) :=
  inferInstanceAs (Decidable (_ ∧ _))

/-- The byte that a piece carries at a position. -/
def byteAt (q : UInt16 × Bytes) (i : ℕ) : Option UInt8 := q.2[i - q.1.toNat]?

/-- Every position below `n` is in some piece. -/
def CoveredBelow (pieces : List (UInt16 × Bytes)) (n : ℕ) : Prop :=
  ∀ i < n, ∃ q ∈ pieces, Covers q i

/-- Every position before the start of a piece is in some piece. -/
def Gapless (pieces : List (UInt16 × Bytes)) : Prop :=
  ∀ q ∈ pieces, CoveredBelow pieces q.1.toNat

/-- The piece of least offset that covers a position; the first one of these. -/
def lowest (pieces : List (UInt16 × Bytes)) (i : ℕ) : Option (UInt16 × Bytes) :=
  pieces.find? fun q => Covers q i ∧ ∀ q' ∈ pieces, Covers q' i → q.1.toNat ≤ q'.1.toNat

theorem CoveredBelow.congr {pieces pieces' : List (UInt16 × Bytes)} {n : ℕ}
    (h : ∀ q, q ∈ pieces ↔ q ∈ pieces') : CoveredBelow pieces n ↔ CoveredBelow pieces' n := by
  simp only [CoveredBelow, h]

theorem Gapless.congr {pieces pieces' : List (UInt16 × Bytes)}
    (h : ∀ q, q ∈ pieces ↔ q ∈ pieces') : Gapless pieces ↔ Gapless pieces' := by
  simp only [Gapless, h, CoveredBelow.congr h]

/-! ### The sweep -/

/-- A sweep only appends, and reaches the end of every piece. -/
theorem assemble_reaches {pieces : List (UInt16 × Bytes)} {out out' : Bytes}
    (h : assemble pieces out = some out') :
    out <+: out' ∧ ∀ q ∈ pieces, q.1.toNat + q.2.length ≤ out'.length := by
  induction pieces generalizing out with
  | nil =>
      cases h
      exact ⟨List.prefix_rfl, fun q hq => by cases hq⟩
  | cons q pieces ih =>
      obtain ⟨off, bytes⟩ := q
      unfold assemble at h
      split at h
      · cases h
      · next hoff =>
          split at h
          · next hgrow =>
              obtain ⟨hpre, hall⟩ := ih h
              refine ⟨(List.prefix_append _ _).trans hpre, List.forall_mem_cons.mpr ⟨?_, hall⟩⟩
              have hle := hpre.length_le
              rw [List.length_append, List.length_drop] at hle
              dsimp only
              omega
          · next hshort =>
              obtain ⟨hpre, hall⟩ := ih h
              have hle := hpre.length_le
              exact ⟨hpre, List.forall_mem_cons.mpr ⟨by dsimp only; omega, hall⟩⟩

/-- **Every byte that a sweep appends comes from the first piece that covers its position.** -/
theorem getElem?_assemble {pieces : List (UInt16 × Bytes)} {out out' : Bytes}
    (h : assemble pieces out = some out') {i : ℕ} (hi : out.length ≤ i) (hi' : i < out'.length) :
    ∃ q, pieces.find? (Covers · i) = some q ∧ out'[i]? = byteAt q i := by
  induction pieces generalizing out with
  | nil =>
      cases h
      omega
  | cons q pieces ih =>
      obtain ⟨off, bytes⟩ := q
      unfold assemble at h
      split at h
      · cases h
      · next hoff =>
          have hnext : off.toNat + bytes.length ≤ i →
              ((off, bytes) :: pieces).find? (Covers · i) = pieces.find? (Covers · i) := by
            intro hend
            refine List.find?_cons_of_neg ?_
            rw [decide_eq_true_eq]
            exact fun hc => absurd hc.2 (Nat.not_lt.mpr hend)
          split at h
          · next hgrow =>
              by_cases hin : i < off.toNat + bytes.length
              · -- the piece reaches from the end of `out` past the position
                refine ⟨(off, bytes), List.find?_cons_of_pos ?_, ?_⟩
                · rw [decide_eq_true_eq]
                  exact ⟨by dsimp only; omega, hin⟩
                · obtain ⟨rest, rfl⟩ := (assemble_reaches h).1
                  have hlt : i < (out ++ bytes.drop (out.length - off.toNat)).length := by
                    rw [List.length_append, List.length_drop]
                    omega
                  rw [List.getElem?_append_left hlt, List.getElem?_append_right hi,
                    List.getElem?_drop, byteAt]
                  congr 1
                  dsimp only
                  omega
              · have hlen : (out ++ bytes.drop (out.length - off.toNat)).length ≤ i := by
                  rw [List.length_append, List.length_drop]
                  omega
                rw [hnext (by omega)]
                exact ih h hlen
          · rw [hnext (by omega)]
            exact ih h hi

/-- **A sweep in the order of the offsets gives up at a gap**: a position that no piece covers,
before the start of one. -/
theorem gap_of_assemble_eq_none {pieces : List (UInt16 × Bytes)} {out : Bytes}
    (hsorted : pieces.Pairwise fun q q' => q.1.toNat ≤ q'.1.toNat)
    (h : assemble pieces out = none) :
    ∃ q ∈ pieces, ∃ n, out.length ≤ n ∧ n < q.1.toNat ∧ ∀ q' ∈ pieces, ¬ Covers q' n := by
  induction pieces generalizing out with
  | nil => cases h
  | cons q pieces ih =>
      obtain ⟨off, bytes⟩ := q
      rw [List.pairwise_cons] at hsorted
      have hskip : ∀ n, off.toNat + bytes.length ≤ n → (∀ q' ∈ pieces, ¬ Covers q' n) →
          ∀ q' ∈ (off, bytes) :: pieces, ¬ Covers q' n := by
        intro n hn hall
        refine List.forall_mem_cons.mpr ⟨fun hc => ?_, hall⟩
        exact absurd hc.2 (Nat.not_lt.mpr hn)
      unfold assemble at h
      split at h
      · next hhole =>
          -- neither this piece nor a later one starts early enough
          refine ⟨(off, bytes), List.mem_cons_self, out.length, le_rfl, hhole, ?_⟩
          refine List.forall_mem_cons.mpr ⟨fun hc => ?_, fun q' hq' hc => ?_⟩
          · exact absurd hc.1 (Nat.not_le.mpr hhole)
          · exact absurd hc.1 (Nat.not_le.mpr (lt_of_lt_of_le hhole (hsorted.1 q' hq')))
      · next hoff =>
          split at h
          · next hgrow =>
              obtain ⟨q, hq, n, hle, hlt, hall⟩ := ih hsorted.2 h
              rw [List.length_append, List.length_drop] at hle
              exact ⟨q, List.mem_cons_of_mem _ hq, n, by omega, hlt, hskip n (by omega) hall⟩
          · obtain ⟨q, hq, n, hle, hlt, hall⟩ := ih hsorted.2 h
            exact ⟨q, List.mem_cons_of_mem _ hq, n, hle, hlt, hskip n (by omega) hall⟩

/-! ### A set -/

theorem byOffset_iff (q q' : UInt16 × Bytes) : byOffset q q' ↔ q.1.toNat ≤ q'.1.toNat :=
  UInt16.le_iff_toNat_le

/-- The sweep over the sorted pieces of a set. -/
theorem sweep_iff (pieces : List (UInt16 × Bytes)) :
    (∃ out, assemble (pieces.insertionSort byOffset) [] = some out) ↔ Gapless pieces := by
  have hmem : ∀ q, q ∈ pieces.insertionSort byOffset ↔ q ∈ pieces := fun q =>
    List.mem_insertionSort byOffset
  rw [← Gapless.congr hmem]
  constructor
  · rintro ⟨out, h⟩ q hq i hi
    have hend := (assemble_reaches h).2 q hq
    obtain ⟨q', hfind, -⟩ := getElem?_assemble h (Nat.zero_le i) (by omega)
    exact ⟨q', List.mem_of_find?_eq_some hfind, by simpa using List.find?_some hfind⟩
  · intro hgapless
    cases h : assemble (pieces.insertionSort byOffset) [] with
    | some out => exact ⟨out, rfl⟩
    | none =>
        have hsorted := StableSort.pairwise_key_insertionSort byOffset_iff pieces
        obtain ⟨q, hq, n, -, hlt, hall⟩ := gap_of_assemble_eq_none hsorted h
        obtain ⟨q', hq', hcov⟩ := hgapless q hq n hlt
        exact absurd hcov (hall q' hq')

/-- What the sweep reaches is covered, and nothing beyond it is. -/
theorem coveredBelow_iff_of_sweep {pieces : List (UInt16 × Bytes)} {out : Bytes}
    (h : assemble (pieces.insertionSort byOffset) [] = some out) (n : ℕ) :
    CoveredBelow pieces n ↔ n ≤ out.length := by
  constructor
  · intro hcov
    refine Nat.le_of_not_lt fun hlt => ?_
    obtain ⟨q, hq, hc⟩ := hcov out.length hlt
    have hend := (assemble_reaches h).2 q ((List.mem_insertionSort byOffset).mpr hq)
    exact absurd hc.2 (Nat.not_lt.mpr hend)
  · intro hle i hi
    obtain ⟨q, hfind, -⟩ := getElem?_assemble h (Nat.zero_le i) (by omega)
    exact ⟨q, (List.mem_insertionSort byOffset).mp (List.mem_of_find?_eq_some hfind),
      by simpa using List.find?_some hfind⟩

/-- **A set is complete exactly when its length is known, its pieces cover that length, and there is
no gap before any of them.** -/
theorem complete_iff (set : FragSet) :
    (∃ out, set.tryComplete = .complete out) ↔
      ∃ total, set.totalLen = some total ∧ CoveredBelow set.pieces total ∧ Gapless set.pieces := by
  unfold tryComplete
  cases htotal : set.totalLen with
  | none =>
      constructor
      · rintro ⟨out, h⟩
        cases h
      · rintro ⟨total, h, -⟩
        cases h
  | some total =>
      dsimp only
      cases hsweep : assemble (set.pieces.insertionSort byOffset) [] with
      | none =>
          constructor
          · rintro ⟨out, h⟩
            cases h
          · rintro ⟨n, -, -, hgapless⟩
            obtain ⟨out, h⟩ := (sweep_iff set.pieces).mpr hgapless
            rw [hsweep] at h
            cases h
      | some out =>
          have hgapless := (sweep_iff set.pieces).mp ⟨out, hsweep⟩
          dsimp only
          split
          · next hshort =>
              constructor
              · rintro ⟨out', h⟩
                cases h
              · rintro ⟨n, hn, hcov, -⟩
                cases hn
                exact absurd ((coveredBelow_iff_of_sweep hsweep total).mp hcov) (Nat.not_le.mpr hshort)
          · next hlong =>
              refine ⟨fun _ => ⟨total, rfl, ?_, hgapless⟩, fun _ => ⟨_, rfl⟩⟩
              exact (coveredBelow_iff_of_sweep hsweep total).mpr (Nat.le_of_not_lt hlong)

/-- **Every byte of a complete datagram comes from the lowest piece that covers its position.** -/
theorem getElem?_of_complete {set : FragSet} {out : Bytes} (h : set.tryComplete = .complete out) :
    set.totalLen = some out.length ∧
      ∀ i < out.length, ∃ q, lowest set.pieces i = some q ∧ out[i]? = byteAt q i := by
  unfold tryComplete at h
  split at h
  · cases h
  · next total htotal =>
      dsimp only at h
      split at h
      · cases h
      · next joined hsweep =>
          split at h
          · cases h
          · next hlong =>
              cases h
              have hlen : (joined.take total).length = total := by
                rw [List.length_take]
                omega
              refine ⟨by rw [htotal, hlen], fun i hi => ?_⟩
              rw [hlen] at hi
              obtain ⟨q, hfind, hbyte⟩ := getElem?_assemble hsweep (Nat.zero_le i) (by omega)
              refine ⟨q, ?_, by rw [List.getElem?_take_of_lt hi, hbyte]⟩
              rw [StableSort.find?_insertionSort byOffset_iff] at hfind
              simpa only [lowest, StableSort.Least, decide_eq_true_eq] using hfind

end FragSet

end PcapRacer
