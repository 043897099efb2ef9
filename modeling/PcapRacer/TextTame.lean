/-
**Texts that can be shortened.**

A text is shortened at a byte position, and that fails inside a character.  It does not fail when
every character has one byte, and nothing is cut off when the text is within its bound.  Both are
inherited by the parts of a text, and both can be seen in the bytes that it was decoded from: ASCII
bytes are decoded to themselves, and no byte brings more than three bytes of text.

Main definitions:

* `Text.Shortens` — the text is within its bound, or a character ends there;
* `Text.Tame` — the text is ASCII, or within its bound;
* `Bytes.Plain` — so is any text that these bytes are decoded to.

Main results:

* `exists_cap_iff`, `cap_of_tame` — **when a text can be shortened**;
* `Text.utf8Len_lossy_le` — the text of a byte string;
* `Bytes.Plain.lossy` — **plain bytes are decoded to tame texts**.
-/

import PcapRacer.TextLossy

set_option relaxedAutoImplicit false
set_option autoImplicit false

namespace Text

/-! ### Lengths -/

theorem utf8Len_cons (x : Char) (s : Text) : utf8Len (x :: s) = x.utf8Size + utf8Len s := rfl

theorem utf8Len_append (s t : Text) : utf8Len (s ++ t) = utf8Len s + utf8Len t := by
  simp only [utf8Len, List.map_append, List.sum_append]

theorem utf8Len_flatten (ts : List Text) : utf8Len ts.flatten = (ts.map utf8Len).sum := by
  induction ts with
  | nil => rfl
  | cons t ts ih => rw [List.flatten_cons, utf8Len_append, ih, List.map_cons, List.sum_cons]

theorem utf8Len_le (s : Text) : s.utf8Len ≤ 4 * s.length := by
  induction s with
  | nil => exact Nat.le_refl _
  | cons x s ih =>
      have hx := x.utf8Size_le_four
      rw [utf8Len_cons, List.length_cons]
      omega

theorem utf8Len_le_of_sublist {s t : Text} (h : s.Sublist t) : s.utf8Len ≤ t.utf8Len := by
  induction h with
  | slnil => exact Nat.le_refl _
  | cons x _ ih => exact ih.trans (Nat.le_add_left _ _)
  | cons_cons x _ ih => exact Nat.add_le_add_left ih _

/-- A separator of one byte stands between two texts. -/
theorem utf8Len_join_le (ts : List Text) :
    (join [','] ts).utf8Len ≤ (ts.map fun t => t.utf8Len + 1).sum := by
  unfold join
  induction ts with
  | nil => exact Nat.le_refl _
  | cons t ts ih =>
      by_cases hts : ts = []
      · subst hts
        rw [List.intercalate_singleton]
        exact Nat.le_add_right _ 1
      · have hcomma : utf8Len [','] = 1 := by decide
        rw [List.intercalate_cons_of_ne_nil hts, utf8Len_append, utf8Len_append, List.map_cons,
          List.sum_cons, hcomma]
        omega

/-! ### Cuts -/

theorem splitAt?_utf8Len (s : Text) : s.splitAt? s.utf8Len = some (s, []) := by
  induction s with
  | nil => rfl
  | cons c s ih =>
      have hpos := c.utf8Size_pos
      obtain ⟨n, hn⟩ : ∃ n, utf8Len (c :: s) = n + 1 := ⟨c.utf8Size + utf8Len s - 1, by
        rw [utf8Len_cons]
        omega⟩
      have hrest : n + 1 - c.utf8Size = utf8Len s := by
        rw [utf8Len_cons] at hn
        omega
      rw [hn, splitAt?, hrest, ih, if_pos (by rw [utf8Len_cons] at hn; omega)]
      rfl

/-- The first half is as long as it was asked to be. -/
theorem utf8Len_of_splitAt? {s : Text} {n : ℕ} {p : Text × Text} (h : s.splitAt? n = some p) :
    p.1.utf8Len = n ∧ n ≤ s.utf8Len := by
  induction s generalizing n p with
  | nil =>
      cases n with
      | zero =>
          cases h
          exact ⟨rfl, Nat.zero_le _⟩
      | succ n => cases h
  | cons c s ih =>
      cases n with
      | zero =>
          cases h
          exact ⟨rfl, Nat.zero_le _⟩
      | succ n =>
          rw [splitAt?] at h
          split at h
          · obtain ⟨q, hq, rfl⟩ := Option.map_eq_some_iff.mp h
            have hlen := ih hq
            rw [utf8Len_cons, utf8Len_cons]
            omega
          · cases h

/-! ### Case -/

/-- Only letters of one byte have another case, of one byte too. -/
theorem utf8Size_toLower (c : Char) : c.toLower.utf8Size = c.utf8Size := by
  unfold Char.toLower
  split
  · next hup =>
      have hle : c.val.toNat ≤ 90 := UInt32.le_iff_toNat_le.mp hup.2
      have hone : c.utf8Size = 1 := by
        rw [Char.utf8Size_eq_one_iff, UInt32.le_iff_toNat_le]
        exact hle.trans (by decide)
      rw [hone, Char.utf8Size_eq_one_iff, UInt32.le_iff_toNat_le]
      change (c.val.toNat + 32) % 2 ^ 32 ≤ 127
      omega
  · rfl

theorem isAscii_toAsciiLowercase {t : Text} (h : IsAscii t) : IsAscii t.toAsciiLowercase := by
  intro c hc
  obtain ⟨d, hd, rfl⟩ := List.mem_map.mp hc
  exact (utf8Size_toLower d).trans (h d hd)

theorem utf8Len_toAsciiLowercase (t : Text) : t.toAsciiLowercase.utf8Len = t.utf8Len := by
  unfold toAsciiLowercase utf8Len
  rw [List.map_map]
  exact congrArg List.sum (List.map_congr_left fun c _ => utf8Size_toLower c)

/-! ### Parts of a text -/

theorem trimMatches_sublist (p : Char → Bool) (s : Text) : (trimMatches p s).Sublist s := by
  refine List.Sublist.trans ?_ (List.dropWhile_sublist p)
  rw [trimMatches, trimEndMatches]
  exact List.reverse_sublist.mp (by rw [List.reverse_reverse]; exact List.dropWhile_sublist p)

theorem trim_sublist (s : Text) : s.trim.Sublist s := trimMatches_sublist _ s

/-- Both halves and the separator make up the text. -/
theorem eq_of_splitOnce {sep : Char} {s a b : Text} (h : splitOnce sep s = some (a, b)) :
    s = a ++ sep :: b := by
  unfold splitOnce at h
  have hs := List.takeWhile_append_dropWhile (p := (· ≠ sep)) (l := s)
  split at h
  · cases h
  · next x rest hx =>
      cases h
      have hsep : x = sep := by
        have hhead := List.head?_dropWhile_not (· ≠ sep) s
        rw [hx] at hhead
        simpa using hhead
      rw [hx, hsep] at hs
      exact hs.symm

theorem sublist_of_splitOnce {sep : Char} {s a b : Text} (h : splitOnce sep s = some (a, b)) :
    a.Sublist s ∧ b.Sublist s := by
  rw [eq_of_splitOnce h]
  exact ⟨List.sublist_append_left _ _,
    (List.sublist_cons_self _ _).trans (List.sublist_append_right _ _)⟩

theorem sublist_of_mem_splitn {sep : Char} {n : ℕ} {s t : Text} (h : t ∈ splitn sep n s) :
    t.Sublist s := by
  induction n using Nat.strongRecOn generalizing s with
  | ind n ih =>
    match n with
    | 0 => exact absurd h List.not_mem_nil
    | 1 =>
        rw [splitn, List.mem_singleton] at h
        exact h ▸ List.Sublist.refl _
    | n + 2 =>
        rw [splitn] at h
        split at h
        · next a b hab =>
            obtain ⟨ha, hb⟩ := sublist_of_splitOnce hab
            rcases List.mem_cons.mp h with rfl | h
            · exact ha
            · exact (ih (n + 1) (Nat.lt_succ_self _) h).trans hb
        · rw [List.mem_singleton] at h
          exact h ▸ List.Sublist.refl _

/-- A part that was found at its place. -/
theorem sublist_of_splitn {sep : Char} {n i : ℕ} {s t : Text}
    (h : (splitn sep n s)[i]? = some t) : t.Sublist s :=
  sublist_of_mem_splitn (List.mem_of_getElem? h)

/-- The parts between separators are no longer than the text. -/
theorem sublist_of_mem_split {p : Char → Bool} {s t : Text} (h : t ∈ split p s) : t.Sublist s := by
  induction s generalizing t with
  | nil =>
      rw [split, List.mem_singleton] at h
      exact h ▸ List.Sublist.refl _
  | cons c s ih =>
      rw [split] at h
      split at h
      · rcases List.mem_cons.mp h with rfl | h
        · exact List.nil_sublist _
        · exact (ih h).cons c
      · split at h
        · rw [List.mem_singleton] at h
          subst h
          exact (List.nil_sublist s).cons_cons c
        · next l ls hls =>
            rw [hls] at ih
            rcases List.mem_cons.mp h with rfl | h
            · exact (ih List.mem_cons_self).cons_cons c
            · exact (ih (List.mem_cons_of_mem _ h)).cons c

/-- The lines of a text, one after the other, are a part of it. -/
theorem flatten_splitCrlf_sublist (s : Text) : s.splitCrlf.flatten.Sublist s := by
  induction s using splitCrlf.induct with
  | case1 => exact List.Sublist.refl _
  | case2 c => exact List.Sublist.refl _
  | case3 c d s h ih =>
      rw [splitCrlf, if_pos h]
      exact (ih.cons d).cons c
  | case4 c d s h hnil ih =>
      rw [splitCrlf, if_neg h, hnil]
      exact (List.nil_sublist _).cons_cons c
  | case5 c d s h l ls hls ih =>
      rw [hls, List.flatten_cons] at ih
      rw [splitCrlf, if_neg h, hls, List.flatten_cons]
      exact ih.cons_cons c

theorem sublist_of_mem_splitCrlf {s t : Text} (h : t ∈ s.splitCrlf) : t.Sublist s :=
  (List.sublist_flatten_of_mem h).trans (flatten_splitCrlf_sublist s)

/-! ### Decoded texts -/

theorem length_lossyFrom_le (skip : ℕ) (b : Bytes) : (lossyFrom skip b).length ≤ b.length := by
  induction b generalizing skip with
  | nil => cases skip <;> exact Nat.le_refl _
  | cons x b ih =>
      cases skip with
      | zero => exact Nat.succ_le_succ (ih _)
      | succ skip => exact (ih skip).trans (Nat.le_succ _)

theorem isAscii_lossy {b : Bytes} (h : ∀ x ∈ b, x < 0x80) : IsAscii (lossy b) := by
  rw [lossy_eq_ofAscii h]
  exact isAscii_ofAscii h

/-- A character that was decoded from one byte has three bytes at most. -/
theorem utf8Size_decodeStep_le (x : UInt8) (a : Bytes) :
    (decodeStep x a).1.utf8Size ≤ 3 * ((decodeStep x a).2 + 1) := by
  have hfour := (decodeStep x a).1.utf8Size_le_four
  by_cases hzero : (decodeStep x a).2 = 0
  · have hsize : (decodeStep x a).1.utf8Size ≤ 3 := by
      unfold decodeStep at hzero ⊢
      split
      · next hx =>
          have hone := isAscii_ofAscii (b := [x]) (by simpa using hx) (Char.ofNat x.toNat)
            (List.mem_singleton.mpr rfl)
          exact hone.le.trans (by decide)
      · next hx =>
          rw [if_neg hx] at hzero
          have hrepl : (decodeMulti x a).1 = replacement := by
            unfold decodeMulti at hzero ⊢
            repeat' split <;> first | rfl | simp_all
          rw [hrepl]
          decide
    omega
  · omega

theorem utf8Len_lossyFrom_le (skip : ℕ) (b : Bytes) (h : skip ≤ b.length) :
    (lossyFrom skip b).utf8Len ≤ 3 * (b.length - skip) := by
  induction b generalizing skip with
  | nil => cases skip <;> exact Nat.zero_le _
  | cons x b ih =>
      cases skip with
      | zero =>
          have hsize := utf8Size_decodeStep_le x b
          have hskip := decodeStep_snd_le x b
          have hrest := ih (decodeStep x b).2 hskip
          rw [lossyFrom, utf8Len_cons, List.length_cons]
          omega
      | succ skip =>
          rw [List.length_cons] at h ⊢
          have hrest := ih skip (by omega)
          rw [lossyFrom]
          omega

/-- **No byte brings more than three bytes of text.** -/
theorem utf8Len_lossy_le (b : Bytes) : (lossy b).utf8Len ≤ 3 * b.length :=
  utf8Len_lossyFrom_le 0 b (Nat.zero_le _)

/-! ### Tame texts -/

/-- The text is within its bound, or a character ends at the bound. -/
def Shortens (s : Text) (max : ℕ) : Prop := s.utf8Len ≤ max ∨ (s.splitAt? max).isSome = true

theorem IsAscii.of_sublist {s t : Text} (h : IsAscii t) (hs : s.Sublist t) : IsAscii s :=
  fun c hc => h c (hs.subset hc)

/-- The text is ASCII, or it is within its bound. -/
def Tame (s : Text) (max : ℕ) : Prop := IsAscii s ∨ s.utf8Len ≤ max

namespace Tame

variable {s t : Text} {max : ℕ}

theorem of_sublist (h : Tame t max) (hs : s.Sublist t) : Tame s max :=
  h.imp (fun h => h.of_sublist hs) fun h => (utf8Len_le_of_sublist hs).trans h

theorem mono {max' : ℕ} (h : Tame s max) (hle : max ≤ max') : Tame s max' :=
  h.imp_right fun h => h.trans hle

theorem shortens (h : Tame s max) : s.Shortens max := by
  rcases h with hascii | hle
  · rcases Nat.lt_or_ge max s.length with hlt | hge
    · exact .inr (by rw [splitAt?_of_isAscii hascii hlt.le]; rfl)
    · exact .inl ((utf8Len_of_isAscii hascii).trans_le hge)
  · exact .inl hle

end Tame

theorem IsAscii.shortens {s : Text} (h : IsAscii s) (max : ℕ) : s.Shortens max :=
  Tame.shortens (.inl h)

end Text

/-- The bytes are ASCII, or so few that no text of theirs is over its bound. -/
def Bytes.Plain (b : Bytes) (max : ℕ) : Prop := (∀ x ∈ b, x < 0x80) ∨ 3 * b.length ≤ max

instance (b : Bytes) (max : ℕ) : Decidable (b.Plain max) := inferInstanceAs (Decidable (_ ∨ _))

instance (s : Text) (max : ℕ) : Decidable (s.Shortens max) := inferInstanceAs (Decidable (_ ∨ _))

instance (s : Text) (max : ℕ) : Decidable (s.Tame max) :=
  inferInstanceAs (Decidable ((∀ c ∈ s, c.utf8Size = 1) ∨ _))

namespace PcapRacer

/-- **When a text can be shortened.** -/
theorem exists_cap_iff {s : Text} {max : ℕ} : (∃ t, cap s max = .ok t) ↔ s.Shortens max := by
  rw [cap, Text.Shortens]
  split
  · next hlt =>
      rw [or_iff_right (Nat.not_le.mpr hlt), Option.isSome_iff_exists]
      cases hs : s.splitAt max with
      | error q =>
          constructor
          · rintro ⟨t, ht⟩
            cases ht
          · rintro ⟨p, hp⟩
            rw [Text.splitAt_eq_ok_iff.mpr hp] at hs
            cases hs
      | ok p => exact iff_of_true ⟨_, rfl⟩ ⟨p, Text.splitAt_eq_ok_iff.mp hs⟩
  · next hle => exact iff_of_true ⟨s, rfl⟩ (.inl (Nat.not_lt.mp hle))

/-- **A tame text can be shortened.** -/
theorem cap_of_tame {s : Text} {max : ℕ} (h : s.Tame max) : ∃ t, cap s max = .ok t :=
  exists_cap_iff.mpr h.shortens

theorem cap_of_le {s : Text} {max : ℕ} (h : s.utf8Len ≤ max) : cap s max = .ok s :=
  if_neg (Nat.not_lt.mpr h)

end PcapRacer

namespace Bytes.Plain

variable {b : Bytes} {max : ℕ}

/-- **Plain bytes are decoded to tame texts.** -/
theorem lossy (h : b.Plain max) : (Text.lossy b).Tame max :=
  h.imp Text.isAscii_lossy fun h => (Text.utf8Len_lossy_le b).trans h

theorem asciiString (h : b.Plain max) {s : Text} (hs : PcapRacer.asciiString b = some s) :
    s.Tame max := by
  unfold PcapRacer.asciiString at hs
  split at hs
  · cases hs
  · cases hs
    exact h.lossy.of_sublist List.filter_sublist

end Bytes.Plain
