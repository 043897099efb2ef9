/-
**Texts that give back what they are made of.**

A number written in some base is given back by its digits, and parts joined by a separator are given
back by their join, as long as no part has the separator in it.  Two rows of parts may also stand on
both sides of a double separator: an empty side then shows up as an empty part, so the first empty
part tells where the gap is.

Main definitions:

* `Text.gapped` — two rows of parts on both sides of a double separator;
* `Text.side`, `Text.IsPart` — the parts of one side, and what a part is.

Main results:

* `Nat.toDigits_inj` — digits give the number back;
* `Text.join_inj`, `Text.gapped_inj` — **joined parts are given back**, with a gap and without;
* `Text.join_ne_gapped` — a gap is not mistaken for none.
-/

import PcapRacer.Text

set_option relaxedAutoImplicit false
set_option autoImplicit false

/-! ### Digits -/

namespace Nat

/-- A digit of a number is a digit of the base. -/
theorem exists_of_mem_toDigits {b n : ℕ} (hb : 1 < b) {c : Char} (h : c ∈ toDigits b n) :
    ∃ k < b, c = digitChar k := by
  induction n using Nat.strongRecOn with
  | ind n ih =>
    rcases Nat.lt_or_ge n b with hn | hn
    · rw [toDigits_of_lt_base hn] at h
      exact ⟨n, hn, List.mem_singleton.mp h⟩
    · rw [toDigits_of_base_le hb hn] at h
      rcases List.mem_append.mp h with h | h
      · exact ih _ (Nat.div_lt_self (by omega) hb) h
      · exact ⟨n % b, Nat.mod_lt _ (by omega), List.mem_singleton.mp h⟩

theorem digitChar_inj {j k : ℕ} (hj : j < 16) (hk : k < 16) (h : digitChar j = digitChar k) :
    j = k := by
  have hall : ∀ j < 16, ∀ k < 16, digitChar j = digitChar k → j = k := by decide
  exact hall j hj k hk h

/-- **Digits give the number back.** -/
theorem toDigits_inj {b n m : ℕ} (hb : 1 < b) (hb' : b ≤ 16) (h : toDigits b n = toDigits b m) :
    n = m := by
  -- a number of one digit has fewer digits than any other
  have hlong : ∀ {i j : ℕ}, i < b → b ≤ j → toDigits b i ≠ toDigits b j := by
    intro i j hi hj heq
    rw [toDigits_of_lt_base hi, toDigits_of_base_le hb hj] at heq
    have hlen := congrArg List.length heq
    have hpos : 0 < (toDigits b (j / b)).length := length_toDigits_pos
    simp only [List.length_append, List.length_singleton] at hlen
    omega
  induction n using Nat.strongRecOn generalizing m with
  | ind n ih =>
    rcases Nat.lt_or_ge n b with hn | hn
    · rcases Nat.lt_or_ge m b with hm | hm
      · rw [toDigits_of_lt_base hn, toDigits_of_lt_base hm] at h
        exact digitChar_inj (by omega) (by omega) (List.singleton_inj.mp h)
      · exact absurd h (hlong hn hm)
    · rcases Nat.lt_or_ge m b with hm | hm
      · exact absurd h.symm (hlong hm hn)
      · rw [toDigits_of_base_le hb hn, toDigits_of_base_le hb hm] at h
        obtain ⟨hdiv, hmod⟩ := List.append_inj' h rfl
        have hdiv : n / b = m / b := ih _ (Nat.div_lt_self (by omega) hb) hdiv
        have hmod : n % b = m % b :=
          digitChar_inj (by have := Nat.mod_lt n (show 0 < b by omega); omega)
            (by have := Nat.mod_lt m (show 0 < b by omega); omega) (List.singleton_inj.mp hmod)
        rw [← Nat.div_add_mod n b, hdiv, hmod, Nat.div_add_mod]

/-- A number below `B ^ k` is determined by its `k` digits in base `B`. -/
theorem eq_of_digits {B k n m : ℕ} (hn : n < B ^ k) (hm : m < B ^ k)
    (h : ∀ j < k, n / B ^ j % B = m / B ^ j % B) : n = m := by
  have hlow : ∀ j ≤ k, n % B ^ j = m % B ^ j := by
    intro j
    induction j with
    | zero =>
        intro _
        rw [Nat.pow_zero, Nat.mod_one, Nat.mod_one]
    | succ j ih =>
        intro hj
        rw [Nat.mod_pow_succ, Nat.mod_pow_succ, ih (by omega), h j (by omega)]
  have hall := hlow k (Nat.le_refl k)
  rwa [Nat.mod_eq_of_lt hn, Nat.mod_eq_of_lt hm] at hall

end Nat

/-! ### Joined parts -/

namespace Text

/-- Joining two rows of parts. -/
theorem join_append (sep : Text) {a b : List Text} (ha : a ≠ []) (hb : b ≠ []) :
    join sep (a ++ b) = join sep a ++ (sep ++ join sep b) := by
  induction a with
  | nil => exact absurd rfl ha
  | cons p a ih =>
      unfold join at ih ⊢
      by_cases h : a = []
      · subst h
        rw [List.singleton_append, List.intercalate_cons_of_ne_nil hb, List.intercalate_singleton,
          List.append_assoc]
      · rw [List.cons_append, List.intercalate_cons_of_ne_nil (List.append_ne_nil_of_left_ne_nil h b),
          ih h, List.intercalate_cons_of_ne_nil h]
        simp only [List.append_assoc]

/-- Parts without the separator are given back by their join. -/
theorem join_inj {sep : Char} {a b : List Text} (ha : a ≠ []) (hb : b ≠ [])
    (hsep : ∀ p ∈ a, sep ∉ p) (hsep' : ∀ p ∈ b, sep ∉ p) (h : join [sep] a = join [sep] b) :
    a = b := by
  unfold join at h
  rw [← List.splitOn_intercalate sep hsep ha, ← List.splitOn_intercalate sep hsep' hb, h]

/-- The parts of one side of a gap: an empty side leaves one empty part. -/
def side (parts : List Text) : List Text := if parts = [] then [[]] else parts

/-- Two rows of parts on both sides of a double separator. -/
def gapped (sep : Char) (a b : List Text) : Text := join [sep] a ++ [sep, sep] ++ join [sep] b

theorem side_ne_nil (parts : List Text) : side parts ≠ [] := by
  unfold side
  split
  · exact List.cons_ne_nil _ _
  · next h => exact h

theorem join_side (sep : Text) (parts : List Text) : join sep (side parts) = join sep parts := by
  unfold side
  split
  · next h => subst h; rfl
  · rfl

/-- A gap is an empty part between the two sides. -/
theorem gapped_eq (sep : Char) (a b : List Text) :
    gapped sep a b = join [sep] (side a ++ [] :: side b) := by
  have hrest : join [sep] ([] :: side b) = [sep] ++ join [sep] b := by
    unfold join
    rw [List.intercalate_cons_of_ne_nil (side_ne_nil b), List.nil_append]
    exact congrArg ([sep] ++ ·) (join_side [sep] b)
  rw [join_append [sep] (side_ne_nil a) (List.cons_ne_nil _ _), hrest, join_side, gapped,
    List.append_assoc]
  rfl

theorem side_inj {a b : List Text} (ha : [] ∉ a) (hb : [] ∉ b) (h : side a = side b) : a = b := by
  unfold side at h
  split at h
  · split at h
    · next ha' hb' => rw [ha', hb']
    · exact absurd (h ▸ List.mem_singleton_self _) hb
  · split at h
    · exact absurd (h ▸ List.mem_singleton_self _) ha
    · exact h

/-- The first empty part is the gap. -/
theorem cons_gap_inj {a b s t : List Text} (ha : [] ∉ a) (hb : [] ∉ b)
    (h : a ++ [] :: s = b ++ [] :: t) : a = b ∧ s = t := by
  induction a generalizing b with
  | nil =>
      cases b with
      | nil => exact ⟨rfl, List.tail_eq_of_cons_eq h⟩
      | cons q b => exact absurd (List.head_eq_of_cons_eq h ▸ List.mem_cons_self) hb
  | cons p a ih =>
      cases b with
      | nil => exact absurd (List.head_eq_of_cons_eq h ▸ List.mem_cons_self) ha
      | cons q b =>
          obtain ⟨hab, hst⟩ := ih (fun hmem => ha (List.mem_cons_of_mem _ hmem))
            (fun hmem => hb (List.mem_cons_of_mem _ hmem)) (List.tail_eq_of_cons_eq h)
          exact ⟨by rw [hab, List.head_eq_of_cons_eq h], hst⟩

/-- A part between separators: it is not empty, and has no separator in it. -/
def IsPart (sep : Char) (p : Text) : Prop := sep ∉ p ∧ p ≠ []

section Gap

variable {sep : Char} {a b : List Text}

theorem nil_not_mem (ha : ∀ p ∈ a, IsPart sep p) : [] ∉ a := fun hmem => (ha [] hmem).2 rfl

/-- No part around a gap has a separator in it. -/
theorem sep_not_mem_gap (ha : ∀ p ∈ a, IsPart sep p) (hb : ∀ p ∈ b, IsPart sep p) :
    ∀ p ∈ side a ++ [] :: side b, sep ∉ p := by
  have hside : ∀ {l : List Text}, (∀ p ∈ l, IsPart sep p) → ∀ p ∈ side l, sep ∉ p := by
    intro l hl p hp
    unfold side at hp
    split at hp
    · rw [List.mem_singleton.mp hp]
      exact List.not_mem_nil
    · exact (hl p hp).1
  intro p hp
  rcases List.mem_append.mp hp with hp | hp
  · exact hside ha p hp
  · rcases List.mem_cons.mp hp with rfl | hp
    · exact List.not_mem_nil
    · exact hside hb p hp

theorem gap_ne_nil (a b : List Text) : side a ++ [] :: side b ≠ [] :=
  List.append_ne_nil_of_left_ne_nil (side_ne_nil a) _

/-- **Both sides of a gap are given back.** -/
theorem gapped_inj {a' b' : List Text} (ha : ∀ p ∈ a, IsPart sep p) (hb : ∀ p ∈ b, IsPart sep p)
    (ha' : ∀ p ∈ a', IsPart sep p) (hb' : ∀ p ∈ b', IsPart sep p)
    (h : gapped sep a b = gapped sep a' b') : a = a' ∧ b = b' := by
  rw [gapped_eq, gapped_eq] at h
  have hlist : side a ++ [] :: side b = side a' ++ [] :: side b' :=
    join_inj (gap_ne_nil a b) (gap_ne_nil a' b') (sep_not_mem_gap ha hb) (sep_not_mem_gap ha' hb') h
  -- an empty first side shows up as an empty first part
  rcases a with - | ⟨p, a⟩ <;> rcases a' with - | ⟨p', a'⟩
  · have htail : side b = side b' := List.tail_eq_of_cons_eq (List.tail_eq_of_cons_eq hlist)
    exact ⟨rfl, side_inj (nil_not_mem hb) (nil_not_mem hb') htail⟩
  · exact absurd (List.head_eq_of_cons_eq hlist).symm (ha' p' List.mem_cons_self).2
  · exact absurd (List.head_eq_of_cons_eq hlist) (ha p List.mem_cons_self).2
  · obtain ⟨hfirst, hrest⟩ := cons_gap_inj (nil_not_mem ha) (nil_not_mem ha') hlist
    exact ⟨hfirst, side_inj (nil_not_mem hb) (nil_not_mem hb') hrest⟩

/-- A row of parts without a gap has no empty part, and so is not a row with a gap. -/
theorem join_ne_gapped {c : List Text} (hc : c ≠ []) (hparts : ∀ p ∈ c, IsPart sep p)
    (ha : ∀ p ∈ a, IsPart sep p) (hb : ∀ p ∈ b, IsPart sep p) : join [sep] c ≠ gapped sep a b := by
  intro h
  rw [gapped_eq] at h
  have hlist : c = side a ++ [] :: side b :=
    join_inj hc (gap_ne_nil a b) (fun p hp => (hparts p hp).1) (sep_not_mem_gap ha hb) h
  exact nil_not_mem hparts (hlist ▸ List.mem_append_right _ List.mem_cons_self)

end Gap

end Text
