/-
**Lossy decoding around ASCII bytes.**

An ASCII byte is never part of a longer sequence: it decodes to itself, and what stands before it
decodes as if the input ended there.  So a byte string can be decoded piece by piece between ASCII
separators.

Main definitions:

* `Text.ofAscii` — the characters of ASCII bytes;
* `Text.IsAscii`, `cappedAscii` — a text of one-byte characters, and what it is cut to.

Main results:

* `Text.lossy_append_cons` — decoding around an ASCII byte;
* `asciiString_eq_ofAscii` — ASCII bytes other than NUL are read as they are;
* `Text.mem_of_mem_lossy` — an ASCII character of the decoded text is a byte of the input;
* `cap_of_isAscii` — an ASCII field is cut at its limit.
-/

import PcapRacer.Cur

set_option relaxedAutoImplicit false
set_option autoImplicit false

namespace Text

/-! ### ASCII bytes end a sequence -/

section Ascii

variable {b : UInt8} (hb : b < 0x80)

include hb

theorem isCont_of_ascii : isCont b = false := by
  have hlt : b.toNat < 128 := hb
  have hand : (b &&& 0xc0).toNat ≤ b.toNat := by
    rw [UInt8.toNat_and]
    exact Nat.and_le_left
  rw [isCont, beq_eq_false_iff_ne]
  intro h
  rw [h] at hand
  exact absurd hand (by simpa using hlt)

theorem accepts3_of_ascii (x : UInt8) : accepts3 x b = false := by
  have hlt : b.toNat < 128 := hb
  have h80 : ¬ (0x80 : UInt8) ≤ b := fun h => absurd (show 128 ≤ b.toNat from h) (by omega)
  have ha0 : ¬ (0xa0 : UInt8) ≤ b := fun h => absurd (show 160 ≤ b.toNat from h) (by omega)
  unfold accepts3
  simp [h80, ha0]

theorem accepts4_of_ascii (x : UInt8) : accepts4 x b = false := by
  have hlt : b.toNat < 128 := hb
  have h80 : ¬ (0x80 : UInt8) ≤ b := fun h => absurd (show 128 ≤ b.toNat from h) (by omega)
  have h90 : ¬ (0x90 : UInt8) ≤ b := fun h => absurd (show 144 ≤ b.toNat from h) (by omega)
  unfold accepts4
  simp [h80, h90]

/-- A sequence that runs into an ASCII byte is decoded as if the input ended before it. -/
theorem decodeMulti_append_cons (x : UInt8) (a r : Bytes) :
    decodeMulti x (a ++ b :: r) = decodeMulti x a := by
  have hc := isCont_of_ascii hb
  have h3 := accepts3_of_ascii hb x
  have h4 := accepts4_of_ascii hb x
  -- what can follow the lead, up to three bytes
  unfold decodeMulti
  generalize charWidth x = w
  rcases w with _ | _ | _ | _ | _ | w
  · rfl
  · rfl
  · rcases a with _ | ⟨a₁, a⟩
    · simp only [List.nil_append, hc, Bool.false_eq_true, if_false]
    · rfl
  · rcases a with _ | ⟨a₁, _ | ⟨a₂, a⟩⟩
    · simp only [List.nil_append, h3, Bool.false_eq_true, if_false]
    · simp only [List.cons_append, List.nil_append, hc, Bool.false_eq_true, if_false]
    · rfl
  · rcases a with _ | ⟨a₁, _ | ⟨a₂, _ | ⟨a₃, a⟩⟩⟩
    · simp only [List.nil_append, h4, Bool.false_eq_true, if_false]
    · simp only [List.cons_append, List.nil_append, hc, Bool.false_eq_true, if_false]
    · simp only [List.cons_append, List.nil_append, hc, Bool.false_eq_true, if_false]
    · rfl
  · rfl

theorem decodeStep_append_cons (x : UInt8) (a r : Bytes) :
    decodeStep x (a ++ b :: r) = decodeStep x a := by
  unfold decodeStep
  rw [decodeMulti_append_cons hb]

end Ascii

/-- A sequence takes no more bytes than there are. -/
theorem decodeStep_snd_le (x : UInt8) (a : Bytes) : (decodeStep x a).2 ≤ a.length := by
  unfold decodeStep decodeMulti
  split
  · exact Nat.zero_le _
  · split
    · split <;> simp
    · split
      · split
        · split <;> simp
        · simp
      · exact Nat.zero_le _
    · split
      · split
        · split
          · split
            · split <;> simp
            · simp
          · simp
        · simp
      · exact Nat.zero_le _
    · exact Nat.zero_le _

/-! ### Decoding around an ASCII byte -/

theorem lossyFrom_append_cons {b : UInt8} (hb : b < 0x80) (a r : Bytes) {skip : ℕ}
    (hskip : skip ≤ a.length) :
    lossyFrom skip (a ++ b :: r) = lossyFrom skip a ++ Char.ofNat b.toNat :: lossy r := by
  induction a generalizing skip with
  | nil =>
      obtain rfl : skip = 0 := Nat.le_zero.mp hskip
      have hstep : decodeStep b r = (Char.ofNat b.toNat, 0) := if_pos hb
      change (decodeStep b r).1 :: lossyFrom (decodeStep b r).2 r = _
      rw [hstep]
      rfl
  | cons x a ih =>
      cases skip with
      | succ skip => exact ih (Nat.le_of_succ_le_succ hskip)
      | zero =>
          rw [List.cons_append, lossyFrom, lossyFrom, decodeStep_append_cons hb,
            ih (decodeStep_snd_le x a)]
          rfl

/-- **An ASCII byte decodes to itself, and the bytes before and after it decode on their own.** -/
theorem lossy_append_cons {b : UInt8} (hb : b < 0x80) (a r : Bytes) :
    lossy (a ++ b :: r) = lossy a ++ Char.ofNat b.toNat :: lossy r :=
  lossyFrom_append_cons hb a r (Nat.zero_le _)

/-! ### ASCII characters of a decoded text -/

theorem toNat_ofNat_of_pos {n : ℕ} (h : 0 < (Char.ofNat n).toNat) : (Char.ofNat n).toNat = n := by
  by_cases hv : n.isValidChar
  · have hof : Char.ofNat n = Char.ofNatAux n hv := dif_pos hv
    rw [hof]
    rfl
  · have hof : Char.ofNat n = '\x00' := dif_neg hv
    rw [hof] at h
    exact absurd h (by decide)

theorem mask_toNat (b : UInt8) (k : ℕ) (m : UInt8) (hm : m.toNat = 2 ^ k - 1) :
    (b &&& m).toNat = b.toNat % 2 ^ k := by
  rw [UInt8.toNat_and, hm, Nat.and_two_pow_sub_one_eq_mod]

/-- A lead byte that announces a sequence, and its range. -/
theorem charWidth_bounds (x : UInt8) :
    (charWidth x = 2 → 0xc2 ≤ x.toNat ∧ x.toNat < 0xe0) ∧
    (charWidth x = 3 → 0xe0 ≤ x.toNat ∧ x.toNat < 0xf0) ∧
    (charWidth x = 4 → 0xf0 ≤ x.toNat ∧ x.toNat < 0xf5) := by
  unfold charWidth
  simp only [UInt8.lt_iff_toNat_lt]
  split
  · simp
  · split
    · simp
    · split
      · simp_all
      · split
        · simp_all
        · split
          · simp_all
          · simp

/-! Code points of longer sequences are past the ASCII range: shorter forms are not accepted. -/

theorem le_code2 {x : UInt8} (hx : charWidth x = 2) (m : ℕ) :
    128 ≤ (x &&& 0x1f).toNat * 64 + m := by
  obtain ⟨hlo, hhi⟩ := (charWidth_bounds x).1 hx
  rw [mask_toNat x 5 0x1f rfl]
  omega

theorem le_code3 {x b : UInt8} (hx : charWidth x = 3) (hb : accepts3 x b = true) (m : ℕ) :
    128 ≤ (x &&& 0x0f).toNat * 4096 + contBits b * 64 + m := by
  obtain ⟨hlo, hhi⟩ := (charWidth_bounds x).2.1 hx
  rw [mask_toNat x 4 0x0f rfl, contBits, mask_toNat b 6 0x3f rfl]
  by_cases h0 : x = 0xe0
  · subst h0
    have hb' : 0xa0 ≤ b.toNat ∧ b.toNat ≤ 0xbf := by
      simpa [accepts3, UInt8.le_iff_toNat_le] using hb
    omega
  · have hne : x.toNat ≠ 0xe0 := fun h => h0 (UInt8.toNat_inj.mp h)
    omega

theorem le_code4 {x b : UInt8} (hx : charWidth x = 4) (hb : accepts4 x b = true) (m : ℕ) :
    128 ≤ (x &&& 0x07).toNat * 262144 + contBits b * 4096 + m := by
  obtain ⟨hlo, hhi⟩ := (charWidth_bounds x).2.2 hx
  rw [mask_toNat x 3 0x07 rfl, contBits, mask_toNat b 6 0x3f rfl]
  by_cases h0 : x = 0xf0
  · subst h0
    have hb' : 0x90 ≤ b.toNat ∧ b.toNat ≤ 0xbf := by
      simpa [accepts4, UInt8.le_iff_toNat_le] using hb
    omega
  · have hne : x.toNat ≠ 0xf0 := fun h => h0 (UInt8.toNat_inj.mp h)
    omega

/-- Not an ASCII character, the null character apart. -/
def NotAscii (c : Char) : Prop := 0 < c.toNat → 128 ≤ c.toNat

theorem notAscii_replacement : NotAscii replacement := fun _ => by decide

theorem notAscii_ofNat {n : ℕ} (h : 128 ≤ n) : NotAscii (Char.ofNat n) := fun hpos => by
  rwa [toNat_ofNat_of_pos hpos]

/-- A character of more than one byte is not ASCII. -/
theorem notAscii_decodeMulti (x : UInt8) (a : Bytes) : NotAscii (decodeMulti x a).1 := by
  unfold decodeMulti
  split
  · next hx =>
      split
      · exact notAscii_ofNat (le_code2 hx _)
      · exact notAscii_replacement
  · next hx =>
      split
      · next hb =>
          split
          · split
            · exact notAscii_ofNat (le_code3 hx hb _)
            · exact notAscii_replacement
          · exact notAscii_replacement
      · exact notAscii_replacement
  · next hx =>
      split
      · next hb =>
          split
          · split
            · split
              · split
                · rw [Nat.add_assoc]
                  exact notAscii_ofNat (le_code4 hx hb _)
                · exact notAscii_replacement
              · exact notAscii_replacement
            · exact notAscii_replacement
          · exact notAscii_replacement
      · exact notAscii_replacement
  · exact notAscii_replacement

theorem mem_of_mem_lossyFrom {c : Char} (hpos : 0 < c.toNat) (hlt : c.toNat < 128) {skip : ℕ}
    {a : Bytes} (h : c ∈ lossyFrom skip a) : UInt8.ofNat c.toNat ∈ a := by
  induction a generalizing skip with
  | nil => cases h
  | cons x a ih =>
      cases skip with
      | succ skip => exact List.mem_cons_of_mem _ (ih h)
      | zero =>
          rcases List.mem_cons.mp h with hc | hc
          · -- the character that the first byte starts
            unfold decodeStep at hc
            split at hc
            · next hx =>
                have hval : c.toNat = x.toNat := by
                  rw [hc] at hpos ⊢
                  exact toNat_ofNat_of_pos hpos
                rw [hval, UInt8.ofNat_toNat]
                exact List.mem_cons_self
            · have := notAscii_decodeMulti x a (hc ▸ hpos)
              rw [← hc] at this
              omega
          · exact List.mem_cons_of_mem _ (ih hc)

/-- **An ASCII character of a decoded text is a byte of the input.** -/
theorem mem_of_mem_lossy {c : Char} (hpos : 0 < c.toNat) (hlt : c.toNat < 128) {a : Bytes}
    (h : c ∈ lossy a) : UInt8.ofNat c.toNat ∈ a :=
  mem_of_mem_lossyFrom hpos hlt h

/-! ### ASCII text -/

/-- The characters of ASCII bytes. -/
def ofAscii (b : Bytes) : Text := b.map fun x => Char.ofNat x.toNat

theorem lossy_eq_ofAscii {b : Bytes} (h : ∀ x ∈ b, x < 0x80) : lossy b = ofAscii b := by
  induction b with
  | nil => rfl
  | cons x b ih =>
      have hx : lossy (x :: b) = Char.ofNat x.toNat :: lossy b :=
        lossy_append_cons (h x List.mem_cons_self) [] b
      rw [hx, ih fun y hy => h y (List.mem_cons_of_mem x hy)]
      rfl

theorem ofNat_ne_nul {x : UInt8} (hpos : 0 < x) (hlt : x < 0x80) : Char.ofNat x.toNat ≠ '\x00' := by
  have h : ∀ n : Fin 128, n ≠ 0 → Char.ofNat n ≠ '\x00' := by decide
  have hx : x.toNat < 128 := hlt
  refine h ⟨x.toNat, hx⟩ fun h0 => ?_
  have h0' : x.toNat = 0 := congrArg Fin.val h0
  have hpos' : 0 < x.toNat := hpos
  omega

/-! ### ASCII texts -/

/-- Every character takes one byte. -/
def IsAscii (s : Text) : Prop := ∀ c ∈ s, c.utf8Size = 1

theorem isAscii_of_all {s : Text} (h : s.all (fun c => c.utf8Size == 1) = true) : IsAscii s :=
  fun c hc => beq_iff_eq.mp (List.all_eq_true.mp h c hc)

theorem isAscii_singleton {c : Char} (h : c.utf8Size = 1) : IsAscii [c] := fun d hd => by
  rw [List.mem_singleton.mp hd]
  exact h

theorem isAscii_ofAscii {b : Bytes} (h : ∀ x ∈ b, x < 0x80) : IsAscii (ofAscii b) := by
  intro c hc
  obtain ⟨x, hx, rfl⟩ := List.mem_map.mp hc
  have hall : ∀ n : Fin 128, (Char.ofNat n).utf8Size = 1 := by decide +kernel
  exact hall ⟨x.toNat, UInt8.lt_iff_toNat_lt.mp (h x hx)⟩

theorem utf8Size_digitChar (n : ℕ) : n.digitChar.utf8Size = 1 := by
  have hall : ∀ k : Fin 16, (Nat.digitChar k).utf8Size = 1 := by decide
  rcases Nat.lt_or_ge n 16 with hn | hn
  · exact hall ⟨n, hn⟩
  · rw [Nat.digitChar_eq_star.mpr hn]
    rfl

theorem isAscii_toDigits {b : ℕ} (hb : 1 < b) (n : ℕ) : IsAscii (Nat.toDigits b n) := by
  induction n using Nat.strongRecOn with
  | ind n ih =>
    rcases Nat.lt_or_ge n b with hn | hn
    · rw [Nat.toDigits_of_lt_base hn]
      intro c hc
      rw [List.mem_singleton.mp hc]
      exact utf8Size_digitChar n
    · rw [Nat.toDigits_of_base_le hb hn]
      intro c hc
      obtain hc | hc := List.mem_append.mp hc
      · exact ih _ (Nat.div_lt_self (by omega) hb) c hc
      · rw [List.mem_singleton.mp hc]
        exact utf8Size_digitChar _

theorem isAscii_decimal (n : ℕ) : IsAscii (decimal n) := isAscii_toDigits (by decide) n

theorem isAscii_hex (width n : ℕ) : IsAscii (hex width n) := by
  intro c hc
  obtain hc | hc := List.mem_append.mp hc
  · rw [List.eq_of_mem_replicate hc]
    rfl
  · exact isAscii_toDigits (by decide) n c hc

theorem isAscii_join {sep : Text} {parts : List Text} (hsep : IsAscii sep)
    (h : ∀ p ∈ parts, IsAscii p) : IsAscii (join sep parts) := by
  induction parts with
  | nil => exact fun c hc => absurd hc List.not_mem_nil
  | cons p ps ih =>
      have hps := ih fun q hq => h q (List.mem_cons_of_mem _ hq)
      have hp := h p List.mem_cons_self
      cases ps with
      | nil =>
          rw [join, List.intercalate_singleton]
          exact hp
      | cons q qs =>
          rw [join, List.intercalate_cons_cons]
          intro c hc
          obtain hc | hc := List.mem_append.mp hc
          · obtain hc | hc := List.mem_append.mp hc
            · exact hp c hc
            · exact hsep c hc
          · exact hps c hc

theorem utf8Len_of_isAscii {s : Text} (h : IsAscii s) : utf8Len s = s.length := by
  induction s with
  | nil => rfl
  | cons c s ih =>
      have hs := ih fun d hd => h d (List.mem_cons_of_mem _ hd)
      change c.utf8Size + utf8Len s = s.length + 1
      rw [h c List.mem_cons_self, hs, Nat.add_comm]

/-- An ASCII text can be cut anywhere. -/
theorem splitAt?_of_isAscii {s : Text} (h : IsAscii s) {n : ℕ} (hn : n ≤ s.length) :
    s.splitAt? n = some (s.take n, s.drop n) := by
  induction s generalizing n with
  | nil =>
      obtain rfl : n = 0 := Nat.le_zero.mp hn
      rfl
  | cons c s ih =>
      cases n with
      | zero => rfl
      | succ n =>
          have hc : c.utf8Size = 1 := h c List.mem_cons_self
          have hs := ih (fun d hd => h d (List.mem_cons_of_mem _ hd)) (Nat.le_of_succ_le_succ hn)
          rw [splitAt?, hc, if_pos (Nat.le_add_left 1 n), Nat.add_sub_cancel, hs]
          rfl

end Text

namespace PcapRacer

/-- **ASCII bytes other than NUL are read as they are.** -/
theorem asciiString_eq_ofAscii {b : Bytes} (hne : b ≠ []) (h : ∀ x ∈ b, 0 < x ∧ x < 0x80) :
    asciiString b = some (Text.ofAscii b) := by
  rw [asciiString, if_neg hne, Text.lossy_eq_ofAscii fun x hx => (h x hx).2]
  refine congrArg some (List.filter_eq_self.mpr fun c hc => ?_)
  obtain ⟨x, hx, rfl⟩ := List.mem_map.mp hc
  exact decide_eq_true (Text.ofNat_ne_nul (h x hx).1 (h x hx).2)

/-- What a field of one-byte characters is cut to. -/
def cappedAscii (s : Text) (max : ℕ) : Text :=
  if s.length ≤ max then s else s.take max ++ ['…']

/-- **An ASCII field is cut at the limit.** -/
theorem cap_of_isAscii {s : Text} (h : Text.IsAscii s) (max : ℕ) :
    cap s max = .ok (cappedAscii s max) := by
  rw [cap, Text.utf8Len_of_isAscii h, cappedAscii]
  by_cases hle : s.length ≤ max
  · rw [if_neg (Nat.not_lt.mpr hle), if_pos hle]
    rfl
  · have hlt := Nat.lt_of_not_le hle
    rw [if_pos hlt, if_neg hle,
      Text.splitAt_eq_ok_iff.mpr (Text.splitAt?_of_isAscii h hlt.le)]
    rfl

end PcapRacer
