/-
**What the TLS fingerprints depend on, and how they are written.**

JA4 sorts the ciphers and the extensions before it hashes them, and both JA3 and JA4 leave GREASE
values out.  So JA4 is the same for every order of the two lists, and neither changes when a client
sprinkles GREASE over its lists.  JA4 is written in three parts with an underscore between them; the
first part ends in two characters of the protocol name that the client sent, and these may be
underscores themselves.

Main definitions:

* `Greased` — a list with GREASE values inserted;
* `Reshuffled` — a JA4 input with its ciphers and its extensions in another order;
* `IsLowerHex12`, `Canonical` — the shape of a JA4;
* `EndsInUnderscore` — the protocol name starts or ends with an underscore.

Main results:

* `sortTexts_eq_of_perm` — sorting forgets the order;
* `ja4_of_reshuffled`, `ja4_greased`, `ja3_greased` — **the fingerprints do not change**;
* `fingerprints_stable` — the three together, with what JA3 hashes;
* `ja4_canonical_iff` — **when a JA4 has its canonical shape**.
-/

import Mathlib.Data.List.Sort
import PcapRacer.Fingerprint

set_option relaxedAutoImplicit false
set_option autoImplicit false

/-! ### Texts in order -/

namespace Text

theorem le_total (s s' : Text) : s.le s' = true ∨ s'.le s = true := by
  induction s generalizing s' with
  | nil => exact .inl rfl
  | cons c s ih =>
      cases s' with
      | nil => exact .inr rfl
      | cons d s' =>
          by_cases h : c = d
          · subst h
            rw [le, if_pos rfl, le, if_pos rfl]
            exact ih s'
          · rw [le, if_neg h, le, if_neg (Ne.symm h), decide_eq_true_eq, decide_eq_true_eq]
            have hne : c.toNat ≠ d.toNat := fun heq => h (Char.toNat_inj.mp heq)
            omega

theorem le_antisymm {s s' : Text} (h : s.le s' = true) (h' : s'.le s = true) : s = s' := by
  induction s generalizing s' with
  | nil =>
      cases s' with
      | nil => rfl
      | cons d s' => cases h'
  | cons c s ih =>
      cases s' with
      | nil => cases h
      | cons d s' =>
          by_cases hc : c = d
          · subst hc
            rw [le, if_pos rfl] at h h'
            rw [ih h h']
          · rw [le, if_neg hc, decide_eq_true_eq] at h
            rw [le, if_neg (Ne.symm hc), decide_eq_true_eq] at h'
            omega

theorem le_trans {s s' s'' : Text} (h : s.le s' = true) (h' : s'.le s'' = true) :
    s.le s'' = true := by
  induction s generalizing s' s'' with
  | nil => rfl
  | cons c s ih =>
      cases s' with
      | nil => cases h
      | cons d s' =>
          cases s'' with
          | nil => cases h'
          | cons e s'' =>
              rw [le] at h h' ⊢
              by_cases hcd : c = d
              · subst hcd
                rw [if_pos rfl] at h
                by_cases hce : c = e
                · rw [if_pos hce] at h' ⊢
                  exact ih h h'
                · rw [if_neg hce] at h' ⊢
                  exact h'
              · rw [if_neg hcd, decide_eq_true_eq] at h
                by_cases hde : d = e
                · subst hde
                  rw [if_neg hcd]
                  exact decide_eq_true h
                · rw [if_neg hde, decide_eq_true_eq] at h'
                  have hce : c ≠ e := by
                    rintro rfl
                    omega
                  rw [if_neg hce]
                  exact decide_eq_true (Nat.lt_trans h h')

end Text

namespace PcapRacer

/-- **Sorting forgets the order.** -/
theorem sortTexts_eq_of_perm {l l' : List Text} (h : l.Perm l') : sortTexts l = sortTexts l' := by
  have : Std.Total fun s s' : Text => s.le s' = true := ⟨Text.le_total⟩
  have : IsTrans Text fun s s' => s.le s' = true := ⟨fun _ _ _ => Text.le_trans⟩
  have hsorted : ∀ k : List Text, (sortTexts k).Pairwise fun s s' => s.le s' = true :=
    fun k => List.pairwise_insertionSort _ k
  have hperm : (sortTexts l).Perm (sortTexts l') :=
    (List.perm_insertionSort _ l).trans (h.trans (List.perm_insertionSort _ l').symm)
  exact hperm.eq_of_pairwise (fun _ _ _ _ => Text.le_antisymm) (hsorted l) (hsorted l')

/-! ### GREASE -/

/-- The second list is the first with GREASE values inserted. -/
inductive Greased : List UInt16 → List UInt16 → Prop
  | nil : Greased [] []
  | keep (v : UInt16) {l l' : List UInt16} : Greased l l' → Greased (v :: l) (v :: l')
  | insert {g : UInt16} {l l' : List UInt16} : isGrease g = true → Greased l l' →
      Greased l (g :: l')

theorem greased_refl (l : List UInt16) : Greased l l := by
  induction l with
  | nil => exact .nil
  | cons v l ih => exact .keep v ih

/-- What is left out of the fingerprints is what was inserted. -/
theorem Greased.filter {l l' : List UInt16} (h : Greased l l') :
    l'.filter (!isGrease ·) = l.filter (!isGrease ·) := by
  induction h with
  | nil => rfl
  | keep v _ ih => rw [List.filter_cons, List.filter_cons, ih]
  | insert hg _ ih => rw [List.filter_cons, hg, ih]; rfl

/-- Numbers in decimal, in the order in which they are given, joined by dashes. -/
def dashes (l : List ℕ) : Text := Text.join ['-'] (l.map Text.decimal)

theorem dashJoined_of_greased {l l' : List UInt16} (hl : ∀ v ∈ l, isGrease v = false)
    (h : Greased l l') : dashJoined l' = dashes (l.map UInt16.toNat) := by
  have hself : l.filter (!isGrease ·) = l := List.filter_eq_self.mpr fun v hv => by simp [hl v hv]
  rw [dashJoined, h.filter, hself, dashes, List.map_map]
  rfl

section Digests

variable [Hashes]

/-! ### JA4 -/

/-- The ciphers and the extensions stand in another order. -/
structure Reshuffled (i j : Ja4Input) : Prop where
  version : j.version = i.version
  isQuic : j.isQuic = i.isQuic
  hasSni : j.hasSni = i.hasSni
  ciphers : i.ciphers.Perm j.ciphers
  extensions : i.extensions.Perm j.extensions
  sigAlgs : j.sigAlgs = i.sigAlgs
  alpn : j.alpn = i.alpn

/-- JA4 uses its two lists only without GREASE: how many there are, and the sorted texts. -/
theorem ja4_congr {i j : Ja4Input} (hversion : j.version = i.version) (hquic : j.isQuic = i.isQuic)
    (hsni : j.hasSni = i.hasSni) (hsigs : j.sigAlgs = i.sigAlgs) (halpn : j.alpn = i.alpn)
    (hciphers : (i.ciphers.filter (!isGrease ·)).Perm (j.ciphers.filter (!isGrease ·)))
    (hexts : (i.extensions.filter (!isGrease ·)).Perm (j.extensions.filter (!isGrease ·))) :
    ja4 i = ja4 j := by
  have hb := sortTexts_eq_of_perm (hciphers.map hex4)
  have hc := sortTexts_eq_of_perm
    ((hexts.filter fun e => decide (e ≠ 0x0000 ∧ e ≠ 0x0010)).map hex4)
  unfold ja4
  rw [hversion, hquic, hsni, hsigs, halpn]
  dsimp only
  rw [hb, hc, hciphers.length_eq, hexts.length_eq]

/-- **JA4 does not depend on the order of the ciphers and of the extensions.** -/
theorem ja4_of_reshuffled {i j : Ja4Input} (h : Reshuffled i j) : ja4 i = ja4 j :=
  ja4_congr h.version h.isQuic h.hasSni h.sigAlgs h.alpn (h.ciphers.filter _)
    (h.extensions.filter _)

/-- **GREASE does not show in JA4.** -/
theorem ja4_greased (i : Ja4Input) {ciphers extensions : List UInt16}
    (hciphers : Greased i.ciphers ciphers) (hexts : Greased i.extensions extensions) :
    ja4 { i with ciphers, extensions } = ja4 i := by
  refine ja4_congr rfl rfl rfl rfl rfl ?_ ?_
  · exact .of_eq hciphers.filter
  · exact .of_eq hexts.filter

/-! ### JA3 -/

/-- **GREASE does not show in JA3.** -/
theorem ja3_greased (i : Ja3Input) {ciphers extensions curves : List UInt16}
    (hciphers : Greased i.ciphers ciphers) (hexts : Greased i.extensions extensions)
    (hcurves : Greased i.curves curves) :
    ja3 { i with ciphers, extensions, curves } = ja3 i := by
  unfold ja3 dashJoined
  dsimp only
  rw [hciphers.filter, hexts.filter, hcurves.filter]

/-- **The fingerprints are stable.**  JA4 is the same for every order of the ciphers and of the
extensions; GREASE inserted anywhere in the ciphers and the extensions shows neither in JA4 nor in
JA3, where it may stand in the curves too; and what JA3 hashes is the version and the four lists, in
the order in which they were sent. -/
theorem fingerprints_stable :
    (∀ i j : Ja4Input, Reshuffled i j → ja4 i = ja4 j) ∧
    (∀ (i : Ja4Input) (ciphers extensions : List UInt16), Greased i.ciphers ciphers →
      Greased i.extensions extensions → ja4 { i with ciphers, extensions } = ja4 i) ∧
    (∀ (i : Ja3Input) (ciphers extensions curves : List UInt16), Greased i.ciphers ciphers →
      Greased i.extensions extensions → Greased i.curves curves →
      ja3 { i with ciphers, extensions, curves } = ja3 i) ∧
    ∀ (i : Ja3Input) (ciphers extensions curves : List UInt16),
      (∀ v ∈ ciphers ++ extensions ++ curves, isGrease v = false) → Greased ciphers i.ciphers →
      Greased extensions i.extensions → Greased curves i.curves →
      (ja3 i).2 = Text.join [',']
        [Text.decimal i.version.toNat, dashes (ciphers.map UInt16.toNat),
          dashes (extensions.map UInt16.toNat), dashes (curves.map UInt16.toNat),
          dashes (i.pointFormats.map UInt8.toNat)] := by
  refine ⟨fun i j => ja4_of_reshuffled, fun i _ _ => ja4_greased i, fun i _ _ _ => ja3_greased i,
    fun i ciphers extensions curves hplain hciphers hexts hcurves => ?_⟩
  have hformats : (i.pointFormats.map fun x => Text.decimal x.toNat) =
      (i.pointFormats.map UInt8.toNat).map Text.decimal := (List.map_map ..).symm
  unfold ja3
  dsimp only
  rw [dashJoined_of_greased (fun v hv => hplain v (by simp [hv])) hciphers,
    dashJoined_of_greased (fun v hv => hplain v (by simp [hv])) hexts,
    dashJoined_of_greased (fun v hv => hplain v (by simp [hv])) hcurves, hformats]
  rfl

end Digests

/-! ### The shape of a JA4 -/

/-- A digit or a letter from `a` to `f`. -/
def isLowerHex (c : Char) : Bool := c.isDigit || ('a' ≤ c && c ≤ 'f')

/-- Twelve lower-case hexadecimal digits. -/
def IsLowerHex12 (s : Text) : Prop := s.length = 12 ∧ ∀ c ∈ s, isLowerHex c = true

instance (s : Text) : Decidable (IsLowerHex12 s) := inferInstanceAs (Decidable (_ ∧ _))

/-- Three parts with an underscore between them and none inside: ten characters, and twice twelve
hexadecimal digits. -/
def Canonical (s : Text) : Prop :=
  s.count '_' = 2 ∧ ∃ a b c, s = a ++ ['_'] ++ b ++ ['_'] ++ c ∧ a.length = 10 ∧ IsLowerHex12 b ∧
    IsLowerHex12 c

/-- The protocol name starts or ends with an underscore. -/
def EndsInUnderscore (alpn : Option Text) : Prop :=
  ∃ a, alpn = some a ∧ (a.encode.head? = some 0x5f ∨ a.encode.getLast? = some 0x5f)

theorem isLowerHex_digitChar {n : ℕ} (h : n < 16) : isLowerHex (Nat.digitChar n) = true := by
  have hall : ∀ k : Fin 16, isLowerHex (Nat.digitChar k) = true := by decide
  exact hall ⟨n, h⟩

theorem underscore_not_lowerHex : isLowerHex '_' = false := by decide

/-- A byte is two hexadecimal digits. -/
theorem hex_two {n : ℕ} (h : n < 256) :
    Text.hex 2 n = [Nat.digitChar (n / 16), Nat.digitChar (n % 16)] := by
  unfold Text.hex Text.zeroPad
  rcases Nat.lt_or_ge n 16 with hlt | hge
  · rw [Nat.toDigits_of_lt_base hlt, Nat.div_eq_of_lt hlt, Nat.mod_eq_of_lt hlt]
    rfl
  · rw [Nat.toDigits_of_base_le (by decide) hge, Nat.toDigits_of_lt_base (by omega)]
    rfl

theorem lowerHex_hexBytes (b : Bytes) :
    (hexBytes b).length = 2 * b.length ∧ ∀ c ∈ hexBytes b, isLowerHex c = true := by
  induction b with
  | nil => exact ⟨rfl, fun c hc => absurd hc List.not_mem_nil⟩
  | cons x b ih =>
      have hcons : hexBytes (x :: b) =
          [Nat.digitChar (x.toNat / 16), Nat.digitChar (x.toNat % 16)] ++ hexBytes b :=
        congrArg (· ++ hexBytes b) (hex_two x.toNat_lt)
      have hx := x.toNat_lt
      rw [hcons]
      refine ⟨?_, fun c hc => ?_⟩
      · rw [List.length_append, ih.1, List.length_cons, List.length_cons, List.length_cons,
          List.length_nil]
        omega
      · rcases List.mem_append.mp hc with hc | hc
        · rcases List.mem_pair.mp hc with rfl | rfl
          · exact isLowerHex_digitChar (by omega)
          · exact isLowerHex_digitChar (by omega)
        · exact ih.2 c hc

theorem isLowerHex12_zeroes12 : IsLowerHex12 zeroes12 := by
  refine ⟨rfl, fun c hc => ?_⟩
  rw [List.eq_of_mem_replicate hc]
  decide

theorem count_of_isLowerHex12 {s : Text} (h : IsLowerHex12 s) : s.count '_' = 0 := by
  rw [List.count_eq_zero]
  intro hmem
  have := h.2 _ hmem
  rw [underscore_not_lowerHex] at this
  cases this

/-- Two digits, whatever the number. -/
theorem twoDigits_spec (n : ℕ) : (twoDigits n).length = 2 ∧ (twoDigits n).count '_' = 0 := by
  have hlen : (Text.decimal (min n 99)).length ≤ 2 :=
    (Nat.length_toDigits_le_iff (by decide) (by decide)).mpr (by omega)
  have hnot : '_' ∉ Text.decimal (min n 99) := Nat.underscore_not_in_toDigits
  unfold twoDigits Text.zeroPad
  refine ⟨?_, ?_⟩
  · rw [List.length_append, List.length_replicate]
    omega
  · rw [List.count_eq_zero, List.mem_append, not_or]
    exact ⟨fun h => absurd (List.eq_of_mem_replicate h) (by decide), hnot⟩

theorem ja4Version_spec (v : UInt16) :
    (ja4Version v).length = 2 ∧ (ja4Version v).count '_' = 0 := by
  unfold ja4Version
  split_ifs <;> decide

theorem char_of_byte (b : UInt8) : Char.ofNat b.toNat = '_' ↔ b = 0x5f := by
  have hall : ∀ n : Fin 256, Char.ofNat n = '_' ↔ n = 95 := by decide +kernel
  refine (hall ⟨b.toNat, b.toNat_lt⟩).trans ?_
  rw [Fin.ext_iff, ← UInt8.toNat_inj]
  rfl

/-- The two characters of the protocol name, and when one of them is an underscore. -/
theorem alpnCode_spec (alpn : Option Text) :
    (alpnCode alpn).length = 2 ∧ ((alpnCode alpn).count '_' = 0 ↔ ¬ EndsInUnderscore alpn) := by
  cases alpn with
  | none => exact ⟨rfl, by simp [alpnCode, EndsInUnderscore]⟩
  | some a =>
      have hends : EndsInUnderscore (some a) ↔
          a.encode.head? = some 0x5f ∨ a.encode.getLast? = some 0x5f := by
        simp [EndsInUnderscore]
      rw [hends]
      unfold alpnCode
      dsimp only
      cases a.encode with
      | nil => exact ⟨rfl, by simp⟩
      | cons b bs =>
          dsimp only
          refine ⟨rfl, ?_⟩
          rw [List.count_eq_zero, List.mem_pair, not_or, not_or, List.head?_cons, Option.some_inj,
            List.getLast?_eq_some_getLast (List.cons_ne_nil b bs), Option.some_inj, eq_comm,
            char_of_byte, eq_comm (a := '_'), char_of_byte]

section Shapes

variable [Hashes]

/-- Six bytes of a digest are twelve digits. -/
theorem isLowerHex12_sha256Trunc12 (hsha : ∀ b, (Hashes.sha256 b).length = 32) (s : Text) :
    IsLowerHex12 (sha256Trunc12 s) := by
  obtain ⟨hlen, hhex⟩ := lowerHex_hexBytes ((Hashes.sha256 s.encode).take 6)
  rw [List.length_take, hsha] at hlen
  exact ⟨hlen, hhex⟩

theorem isLowerHex12_ja4HashList (hsha : ∀ b, (Hashes.sha256 b).length = 32) (items : List Text) :
    IsLowerHex12 (ja4HashList items) := by
  unfold ja4HashList
  split
  · exact isLowerHex12_zeroes12
  · exact isLowerHex12_sha256Trunc12 hsha _

/-- The three parts of a JA4. -/
theorem ja4_parts (i : Ja4Input) : ∃ a b c, ja4 i = a ++ ['_'] ++ b ++ ['_'] ++ c ∧
    a.length = 10 ∧ a.count '_' = (alpnCode i.alpn).count '_' ∧
    ((∀ x, (Hashes.sha256 x).length = 32) → IsLowerHex12 b ∧ IsLowerHex12 c) := by
  obtain ⟨hcode, -⟩ := alpnCode_spec i.alpn
  obtain ⟨hversion, hversion'⟩ := ja4Version_spec i.version
  obtain ⟨hciphers, hciphers'⟩ := twoDigits_spec (i.ciphers.filter (!isGrease ·)).length
  obtain ⟨hexts, hexts'⟩ := twoDigits_spec (i.extensions.filter (!isGrease ·)).length
  have hquic : [if i.isQuic then 'q' else 't'].count '_' = 0 := by
    cases i.isQuic <;> decide
  have hsni : [if i.hasSni then 'd' else 'i'].count '_' = 0 := by
    cases i.hasSni <;> decide
  refine ⟨_, _, _, rfl, ?_, ?_, fun hsha => ⟨isLowerHex12_ja4HashList hsha _, ?_⟩⟩
  · simp only [List.length_append, List.length_singleton, hversion, hciphers, hexts, hcode]
  · simp only [List.count_append, hquic, hsni, hversion', hciphers', hexts', Nat.zero_add]
  · split
    · exact isLowerHex12_zeroes12
    · exact isLowerHex12_sha256Trunc12 hsha _

/-- **When a JA4 has its canonical shape**: unless the protocol name that the client sent starts or
ends with an underscore. -/
theorem ja4_canonical_iff (hsha : ∀ b, (Hashes.sha256 b).length = 32) (i : Ja4Input) :
    Canonical (ja4 i) ↔ ¬ EndsInUnderscore i.alpn := by
  obtain ⟨a, b, c, hja4, ha, hcount, hhex⟩ := ja4_parts i
  obtain ⟨hb, hc⟩ := hhex hsha
  have htotal : (ja4 i).count '_' = (alpnCode i.alpn).count '_' + 2 := by
    rw [hja4]
    simp only [List.count_append, count_of_isLowerHex12 hb, count_of_isLowerHex12 hc, hcount]
    rfl
  rw [← (alpnCode_spec i.alpn).2]
  constructor
  · rintro ⟨htwo, -⟩
    omega
  · intro hzero
    exact ⟨by rw [htotal, hzero], a, b, c, hja4, ha, hb, hc⟩

end Shapes

/-- A client with one cipher, with and without GREASE around it, and with its extensions swapped. -/
theorem fingerprints_stable_client :
    Greased [0x1301] [0x0a0a, 0x1301, 0xfafa] ∧ ∀ _ : Hashes,
      ja4 ⟨0x0303, false, false, [0x1301], [0x000a, 0x000b], [], none⟩ =
          ja4 ⟨0x0303, false, false, [0x1301], [0x000b, 0x000a], [], none⟩ ∧
        ja4 ⟨0x0303, false, false, [0x0a0a, 0x1301, 0xfafa], [0x000a, 0x000b], [], none⟩ =
          ja4 ⟨0x0303, false, false, [0x1301], [0x000a, 0x000b], [], none⟩ ∧
        ja3 ⟨0x0303, [0x0a0a, 0x1301, 0xfafa], [0x000a], [0x1d], [0]⟩ =
          ja3 ⟨0x0303, [0x1301], [0x000a], [0x1d], [0]⟩ ∧
        (ja3 ⟨0x0303, [0x0a0a, 0x1301, 0xfafa], [0x000a], [0x1d], [0]⟩).2 =
          "771,4865,10,29,0".toList := by
  have hgreased : Greased [0x1301] [0x0a0a, 0x1301, 0xfafa] :=
    .insert (by decide) (.keep _ (.insert (by decide) .nil))
  have hplain : ∀ v ∈ ([0x1301] ++ [0x000a] ++ [0x1d] : List UInt16), isGrease v = false := by
    intro v hv
    obtain rfl | rfl | rfl : v = 0x1301 ∨ v = 0x000a ∨ v = 0x1d := by simpa using hv
    all_goals decide
  refine ⟨hgreased, fun _ => ⟨?_, ?_, ?_, ?_⟩⟩
  · exact fingerprints_stable.1 ⟨0x0303, false, false, [0x1301], [0x000a, 0x000b], [], none⟩ _
      ⟨rfl, rfl, rfl, .refl _, .swap _ _ _, rfl, rfl⟩
  · exact fingerprints_stable.2.1 ⟨0x0303, false, false, [0x1301], [0x000a, 0x000b], [], none⟩
      [0x0a0a, 0x1301, 0xfafa] [0x000a, 0x000b] hgreased (greased_refl _)
  · exact fingerprints_stable.2.2.1 ⟨0x0303, [0x1301], [0x000a], [0x1d], [0]⟩
      [0x0a0a, 0x1301, 0xfafa] [0x000a] [0x1d] hgreased (greased_refl _) (greased_refl _)
  · rw [fingerprints_stable.2.2.2 ⟨0x0303, [0x0a0a, 0x1301, 0xfafa], [0x000a], [0x1d], [0]⟩ [0x1301]
      [0x000a] [0x1d] hplain hgreased (greased_refl _) (greased_refl _)]
    decide

/-- Digests that answer `SHA-256("1301")` as SHA-256 does. -/
@[reducible] def cipher1301Hashes : Hashes where
  md5 _ := []
  sha1 _ := []
  sha256 _ := [0x0f, 0x2c, 0xb4, 0x41, 0x70, 0xf4, 0x2c, 0xc9, 0x66, 0x53, 0x5f, 0x39, 0x2a, 0x10,
    0xdc, 0xd4, 0x49, 0x94, 0x26, 0xdf, 0x69, 0xdc, 0x47, 0x6f, 0x1b, 0xf3, 0x66, 0x09, 0xf7, 0xfa,
    0x8c, 0x1e]
  base64 _ := []

/-- An ordinary client, with HTTP/2. -/
theorem ja4_canonical_iff_h2 :
    Canonical (@ja4 cipher1301Hashes ⟨0x0304, false, false, [0x1301], [0x0010], [],
      some "h2".toList⟩) :=
  (@ja4_canonical_iff cipher1301Hashes (fun _ => rfl) ⟨0x0304, false, false, [0x1301], [0x0010], [],
    some "h2".toList⟩).mpr (by rintro ⟨a, ha, h⟩; cases ha; revert h; decide)

/-- A client whose protocol name starts with an underscore: a JA4 with three of them. -/
theorem ja4_underscore :
    EndsInUnderscore (some "_x".toList) ∧ ∀ _ : Hashes,
      ¬ Canonical (ja4 ⟨0x0304, false, false, [0x1301], [0x0010], [], some "_x".toList⟩) := by
  refine ⟨⟨_, rfl, by decide⟩, fun _ => ?_⟩
  rintro ⟨htwo, -⟩
  obtain ⟨a, b, c, hja4, -, hcount, -⟩ :=
    ja4_parts ⟨0x0304, false, false, [0x1301], [0x0010], [], some "_x".toList⟩
  have hone : (alpnCode (some "_x".toList)).count '_' = 1 := by decide
  rw [hja4] at htwo
  simp only [List.count_append, List.count_singleton_self, hcount, hone] at htwo
  omega

end PcapRacer
