/-
**Time stamps, with all of their arithmetic checked.**

A crafted interface description may select any resolution and any offset, and a crafted packet any
tick count.  The conversion multiplies and divides in 128 bits, adds the offset in 128 signed bits
and clamps the sum to 64; a legacy record is converted in 64 signed bits throughout.  Here both are
done once more with operations that say where they leave their words, and neither ever does.

Main definitions:

* `Checked.ticksToNs`, `Checked.legacyTs` — the conversions, with checked arithmetic;
* `instant` — the time that a tick count stands for.

Main results:

* `ticksToNs_eq` — the conversion rounds down, and clamps once at the end;
* `ticksToNs_mono`, `ticksToNs_mono_offset`, `ticksToNs_anti` — it is monotone;
* `legacyTs_eq` — a legacy time stamp is never clamped;
* `ticksToNs_exact` — **all of it, without an overflow**.
-/

import Mathlib.Data.Rat.Floor
import PcapRacer.Machine
import PcapRacer.Reader

set_option relaxedAutoImplicit false
set_option autoImplicit false

namespace PcapRacer

/-! ### Checked arithmetic -/

namespace Checked

/-- Convert a tick count: the product and the quotient have 128 bits, the offset and the sum 128
with a sign, and the result 64 with a sign. -/
def ticksToNs (raw resolution : UInt64) (tsOffset : Int64) : Except Fault Int :=
  if resolution = 0 then return 0
  else do
    let product ← Machine.mul 128 raw.toNat 1000000000
    let ns ← Machine.signed 128 (product / resolution.toNat : ℕ)
    let offsetNs ← Machine.signed 128 (tsOffset.toInt * 1000000000)
    let sum ← Machine.signed 128 (ns + offsetNs)
    Machine.signed 64 (clamp64 sum)

/-- The fraction of a legacy record, in nanoseconds. -/
def fracNs (nanos : Bool) (tsUsec : UInt32) : Except Fault Int :=
  if nanos then return tsUsec.toNat else Machine.signed 64 (tsUsec.toNat * 1000 : ℕ)

/-- The time stamp of a legacy record: the product saturates, the sum does not. -/
def legacyTs (nanos : Bool) (tsSec tsUsec : UInt32) : Except Fault Int := do
  let frac ← fracNs nanos tsUsec
  Machine.signed 64 (clamp64 (tsSec.toNat * 1000000000) + frac)

end Checked

/-! ### Clamping -/

theorem clamp64_of_fits {n : Int} (hlo : -2 ^ 63 ≤ n) (hhi : n < 2 ^ 63) : clamp64 n = n := by
  simp only [clamp64, Engine.tsMin, Engine.tsMax]
  omega

theorem clamp64_fits (n : Int) : -2 ^ 63 ≤ clamp64 n ∧ clamp64 n < 2 ^ 63 := by
  simp only [clamp64, Engine.tsMin, Engine.tsMax]
  omega

theorem clamp64_mono {m n : Int} (h : m ≤ n) : clamp64 m ≤ clamp64 n := by
  simp only [clamp64]
  omega

/-! ### Tick counts -/

/-- The time that a tick count stands for, in whole nanoseconds since the epoch. -/
def instant (raw resolution : UInt64) (tsOffset : Int64) : Int :=
  ⌊(raw.toNat * 10 ^ 9 : ℚ) / resolution.toNat⌋ + tsOffset.toInt * 10 ^ 9

/-- The quotient of the source is the time, rounded down. -/
theorem floor_ticks (raw resolution : UInt64) :
    ⌊(raw.toNat * 10 ^ 9 : ℚ) / resolution.toNat⌋ =
      ((raw.toNat * 1000000000 / resolution.toNat : ℕ) : Int) := by
  have hbillion : (10 ^ 9 : ℚ) = (1000000000 : ℕ) := by norm_num
  rw [hbillion, ← Nat.cast_mul]
  exact Rat.floor_intCast_div_natCast (raw.toNat * 1000000000 : ℕ) resolution.toNat

section Ticks

variable {raw resolution : UInt64} {tsOffset : Int64}

/-- **The conversion rounds down, and clamps once at the end.** -/
theorem ticksToNs_eq (h : resolution ≠ 0) :
    ticksToNs raw resolution tsOffset = clamp64 (instant raw resolution tsOffset) := by
  rw [ticksToNs, if_neg h, instant, floor_ticks]
  norm_num

/-- No intermediate result leaves its word. -/
theorem checked_ticksToNs : Checked.ticksToNs raw resolution tsOffset =
    .ok (ticksToNs raw resolution tsOffset) := by
  unfold Checked.ticksToNs ticksToNs
  split
  · rfl
  · have hraw : raw.toNat < 2 ^ 64 := raw.toNat_lt
    have hlo : -2 ^ 63 ≤ tsOffset.toInt := tsOffset.le_toInt
    have hhi : tsOffset.toInt < 2 ^ 63 := tsOffset.toInt_lt
    have hquot := Nat.div_le_self (raw.toNat * 1000000000) resolution.toNat
    refine (bind_of_ok (Machine.mul_of_lt (by omega)) _).trans ?_
    generalize raw.toNat * 1000000000 / resolution.toNat = q at hquot ⊢
    obtain ⟨hclo, hchi⟩ := clamp64_fits (q + tsOffset.toInt * 1000000000)
    refine (bind_of_ok (Machine.signed_of_fits (k := 127) rfl (by omega) (by omega)) _).trans ?_
    refine (bind_of_ok (Machine.signed_of_fits (k := 127) rfl (by omega) (by omega)) _).trans ?_
    refine (bind_of_ok (Machine.signed_of_fits (k := 127) rfl (by omega) (by omega)) _).trans ?_
    exact Machine.signed_of_fits rfl hclo hchi

/-- A later tick is no earlier. -/
theorem ticksToNs_mono {raw' : UInt64} (h : raw ≤ raw') :
    ticksToNs raw resolution tsOffset ≤ ticksToNs raw' resolution tsOffset := by
  unfold ticksToNs
  split
  · exact Int.le_refl _
  · have hle : raw.toNat * 1000000000 / resolution.toNat ≤
        raw'.toNat * 1000000000 / resolution.toNat :=
      Nat.div_le_div_right (Nat.mul_le_mul_right _ (UInt64.le_iff_toNat_le.mp h))
    exact clamp64_mono (by omega)

theorem ticksToNs_mono_offset {tsOffset' : Int64} (h : tsOffset ≤ tsOffset') :
    ticksToNs raw resolution tsOffset ≤ ticksToNs raw resolution tsOffset' := by
  have hle : tsOffset.toInt ≤ tsOffset'.toInt := Int64.le_iff_toInt_le.mp h
  unfold ticksToNs
  split
  · exact Int.le_refl _
  · exact clamp64_mono (by omega)

/-- The shorter the ticks, the earlier. -/
theorem ticksToNs_anti {resolution' : UInt64} (hpos : resolution ≠ 0)
    (h : resolution ≤ resolution') :
    ticksToNs raw resolution' tsOffset ≤ ticksToNs raw resolution tsOffset := by
  have hle : resolution.toNat ≤ resolution'.toNat := UInt64.le_iff_toNat_le.mp h
  have hpos' : 0 < resolution.toNat := by
    rw [Nat.pos_iff_ne_zero]
    intro hzero
    exact hpos (UInt64.toNat_inj.mp hzero)
  have hne : resolution' ≠ 0 := by
    intro hzero
    simp [hzero] at hle
    omega
  rw [ticksToNs, ticksToNs, if_neg hpos, if_neg hne]
  have hquot : raw.toNat * 1000000000 / resolution'.toNat ≤
      raw.toNat * 1000000000 / resolution.toNat := Nat.div_le_div_left hle hpos'
  exact clamp64_mono (by omega)

end Ticks

/-! ### Legacy records -/

/-- The nanoseconds that the fraction of a legacy record stands for. -/
def fracNs (nanos : Bool) (tsUsec : UInt32) : ℕ :=
  if nanos then tsUsec.toNat else tsUsec.toNat * 1000

/-- **A legacy time stamp is never clamped.** -/
theorem legacyTs_eq (nanos : Bool) (tsSec tsUsec : UInt32) :
    legacyTs nanos tsSec tsUsec = tsSec.toNat * 10 ^ 9 + fracNs nanos tsUsec := by
  have hsec : tsSec.toNat < 2 ^ 32 := tsSec.toNat_lt
  rw [legacyTs, clamp64_of_fits (by omega) (by omega), fracNs]
  norm_num

theorem fracNs_lt (nanos : Bool) (tsUsec : UInt32) : fracNs nanos tsUsec < 2 ^ 42 := by
  have hfrac : tsUsec.toNat < 2 ^ 32 := tsUsec.toNat_lt
  unfold fracNs
  split <;> omega

theorem checked_fracNs (nanos : Bool) (tsUsec : UInt32) :
    Checked.fracNs nanos tsUsec = .ok (fracNs nanos tsUsec) := by
  have hlt : tsUsec.toNat < 2 ^ 32 := tsUsec.toNat_lt
  cases nanos with
  | true => rfl
  | false =>
      rw [Checked.fracNs, if_neg Bool.false_ne_true,
        Machine.signed_of_fits (k := 63) rfl (by omega) (by omega)]
      rfl

theorem checked_legacyTs (nanos : Bool) (tsSec tsUsec : UInt32) :
    Checked.legacyTs nanos tsSec tsUsec = .ok (legacyTs nanos tsSec tsUsec) := by
  have hsec : tsSec.toNat < 2 ^ 32 := tsSec.toNat_lt
  have hlt := fracNs_lt nanos tsUsec
  refine (bind_of_ok (checked_fracNs nanos tsUsec) _).trans ?_
  rw [legacyTs_eq, clamp64_of_fits (by omega) (by omega)]
  exact Machine.signed_of_fits (k := 63) rfl (by omega) (by omega)

/-! ### All time stamps -/

/-- **Time stamps are exact and monotone, and nothing overflows.** -/
theorem ticksToNs_exact (raw resolution : UInt64) (tsOffset : Int64) (h : 1 ≤ resolution) :
    Checked.ticksToNs raw resolution tsOffset = .ok (ticksToNs raw resolution tsOffset) ∧
      ticksToNs raw resolution tsOffset =
        clamp64 (⌊(raw.toNat * 10 ^ 9 : ℚ) / resolution.toNat⌋ + tsOffset.toInt * 10 ^ 9) ∧
      (∀ raw', raw ≤ raw' →
        ticksToNs raw resolution tsOffset ≤ ticksToNs raw' resolution tsOffset) ∧
      (∀ tsOffset', tsOffset ≤ tsOffset' →
        ticksToNs raw resolution tsOffset ≤ ticksToNs raw resolution tsOffset') ∧
      (∀ resolution', resolution ≤ resolution' →
        ticksToNs raw resolution' tsOffset ≤ ticksToNs raw resolution tsOffset) ∧
      ∀ nanos tsSec tsUsec,
        Checked.legacyTs nanos tsSec tsUsec = .ok (legacyTs nanos tsSec tsUsec) ∧
        legacyTs nanos tsSec tsUsec =
          tsSec.toNat * 10 ^ 9 + (if nanos then tsUsec.toNat else tsUsec.toNat * 1000 : ℕ) := by
  have hne : resolution ≠ 0 := by
    intro hzero
    rw [hzero] at h
    exact absurd h (by decide)
  refine ⟨checked_ticksToNs, ticksToNs_eq hne, fun _ => ticksToNs_mono,
    fun _ => ticksToNs_mono_offset, fun _ => ticksToNs_anti hne, fun nanos tsSec tsUsec => ?_⟩
  exact ⟨checked_legacyTs nanos tsSec tsUsec, legacyTs_eq nanos tsSec tsUsec⟩

/-- A second and a half, in microseconds. -/
theorem ticksToNs_exact_micros :
    (1 : UInt64) ≤ 1000000 ∧ ticksToNs 1500000 1000000 0 = 1500000000 ∧
      Checked.ticksToNs 1500000 1000000 0 = .ok (ticksToNs 1500000 1000000 0) :=
  ⟨by decide, by decide +kernel, (ticksToNs_exact 1500000 1000000 0 (by decide)).1⟩

end PcapRacer
