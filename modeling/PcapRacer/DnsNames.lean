/-
**Names in DNS messages.**

A name is a row of labels that ends in a zero octet, or in a pointer to where it goes on.  The
decoder counts its rounds: one for each label, one for each pointer and one for the end, 128 in all.
A name of 255 octets has up to 127 labels, so together with pointers it may take more rounds than
there are.  Whatever is decoded ends in the record at the first pointer or at the zero octet, and is
printable.

Main definitions:

* `InPlace` — the part of a name that stands in its own record;
* `Encodes` — labels, encoded with some number of pointers, wherever they lead;
* `wire`, `dotted` — labels without pointers, and as text.

Main results:

* `readName_eq_ok` — **where a decoded name ends, and what its text is made of**;
* `nameLoop_of_encodes` — decoding, round by round;
* `readName_iff` — **when a name of 255 octets at most is decoded**;
* `readName_ok_iff` — what can be decoded at all;
* `Encodes.unique` — a position encodes one name.
-/

import PcapRacer.AppDns
import PcapRacer.TextLossy

set_option relaxedAutoImplicit false
set_option autoImplicit false

namespace PcapRacer

namespace AppDns

/-! ### Where a name ends -/

/-- The part of a name that stands at `pos`, up to its end or its first pointer. -/
inductive InPlace (msg : Bytes) : ℕ → ℕ → Prop
  | root {pos : ℕ} (h : msg[pos]? = some 0) : InPlace msg pos (pos + 1)
  | pointer {pos : ℕ} {b low : UInt8} (h : msg[pos]? = some b) (hb : b &&& 0xc0 = 0xc0)
      (hlow : msg[pos + 1]? = some low) : InPlace msg pos (pos + 2)
  | label {pos next : ℕ} {b : UInt8} (h : msg[pos]? = some b) (hne : b ≠ 0)
      (hb : b &&& 0xc0 = 0) : InPlace msg (pos + 1 + b.toNat) next → InPlace msg pos next

namespace InPlace

variable {msg : Bytes} {pos next : ℕ}

theorem lt (h : InPlace msg pos next) : pos < next := by
  induction h with
  | root _ => exact Nat.lt_succ_self _
  | pointer _ _ _ => exact Nat.lt_add_of_pos_right (by decide)
  | label _ _ _ _ ih => omega

theorem le_length (h : InPlace msg pos next) : next ≤ msg.length := by
  induction h with
  | root h => exact (List.getElem?_eq_some_iff.mp h).1
  | pointer _ _ hlow => exact (List.getElem?_eq_some_iff.mp hlow).1
  | label _ _ _ _ ih => exact ih

/-- **The end depends on the bytes before it only.** -/
theorem unique {msg' : Bytes} {next' : ℕ} (h : InPlace msg pos next)
    (hsame : ∀ i, pos ≤ i → i < next → msg'[i]? = msg[i]?) (h' : InPlace msg' pos next') :
    next' = next := by
  induction h with
  | @root pos hroot =>
      have hbyte := (hsame pos (Nat.le_refl _) (Nat.lt_succ_self _)).trans hroot
      cases h' with
      | root _ => rfl
      | pointer hp hb _ =>
          rw [hbyte] at hp
          cases hp
          exact absurd hb (by decide)
      | label hl hne _ _ =>
          rw [hbyte] at hl
          cases hl
          exact absurd rfl hne
  | @pointer pos b low hp hb _ =>
      have hbyte := (hsame pos (Nat.le_refl _) (by omega)).trans hp
      cases h' with
      | root hroot =>
          rw [hbyte] at hroot
          cases hroot
          exact absurd hb (by decide)
      | pointer _ _ _ => rfl
      | label hl _ hb' _ =>
          rw [hbyte] at hl
          cases hl
          rw [hb] at hb'
          exact absurd hb' (by decide)
  | @label pos next b hl hne hb hrest ih =>
      have hlt := hrest.lt
      have hbyte := (hsame pos (Nat.le_refl _) (by omega)).trans hl
      cases h' with
      | root hroot =>
          rw [hbyte] at hroot
          cases hroot
          exact absurd rfl hne
      | pointer hp hb' _ =>
          rw [hbyte] at hp
          cases hp
          rw [hb] at hb'
          exact absurd hb' (by decide)
      | label hl' _ _ hrest' =>
          rw [hbyte] at hl'
          cases hl'
          exact ih (fun i hi hin => hsame i (by omega) hin) hrest'

end InPlace

/-! ### What is decoded -/

/-- A character that prints. -/
def Printable (c : Char) : Prop := 0x20 ≤ c.toNat ∧ c.toNat < 0x7f

instance (c : Char) : Decidable (Printable c) := inferInstanceAs (Decidable (_ ∧ _))

theorem printable_labelText (l : Bytes) : ∀ c ∈ labelText l, Printable c := by
  intro c hc
  obtain ⟨b, -, rfl⟩ := List.mem_map.mp hc
  split
  · next hb =>
      rw [isPrintable, Bool.and_eq_true, decide_eq_true_eq, decide_eq_true_eq] at hb
      have hlow : 0x20 ≤ b.toNat := hb.1
      have hhigh : b.toNat < 0x7f := hb.2
      have hnat : (Char.ofNat b.toNat).toNat = b.toNat :=
        Text.toNat_ofNat_of_pos (by
          rw [Char.ofNat, dif_pos (.inl (by omega))]
          exact Nat.lt_of_lt_of_le (by decide) hlow)
      rw [Printable, hnat]
      exact ⟨hlow, hhigh⟩
  · decide

/-- The name with one more label. -/
def addLabel (out : Text) (l : Bytes) : Text :=
  (if out = [] then [] else out ++ ['.']) ++ labelText l

theorem printable_addLabel {out : Text} (h : ∀ c ∈ out, Printable c) (l : Bytes) :
    ∀ c ∈ addLabel out l, Printable c := by
  intro c hc
  rcases List.mem_append.mp hc with hc | hc
  · split at hc
    · exact absurd hc List.not_mem_nil
    · rcases List.mem_append.mp hc with hc | hc
      · exact h c hc
      · rw [List.mem_singleton.mp hc]
        decide
  · exact printable_labelText l c hc

section Loop

variable {msg : Bytes} {guard pos next jumps : ℕ} {out name : Text} {endPos : Option ℕ}

/-- The outcomes of one round. -/
theorem nameLoop_succ_eq_ok
    (h : nameLoop msg (guard + 1) pos out endPos jumps = .ok (name, next)) :
    (msg[pos]? = some 0 ∧ name = out ∧ next = endPos.getD (pos + 1)) ∨
    (∃ b low, msg[pos]? = some b ∧ b &&& 0xc0 = 0xc0 ∧ msg[pos + 1]? = some low ∧ jumps < 16 ∧
      nameLoop msg guard ((b &&& 0x3f).toNat * 256 + low.toNat) out
        (endPos.or (some (pos + 2))) (jumps + 1) = .ok (name, next)) ∨
    ∃ b, msg[pos]? = some b ∧ b ≠ 0 ∧ b &&& 0xc0 = 0 ∧ pos + 1 + b.toNat ≤ msg.length ∧
      (addLabel out ((msg.drop (pos + 1)).take b.toNat)).length ≤ 512 ∧
      nameLoop msg guard (pos + 1 + b.toNat) (addLabel out ((msg.drop (pos + 1)).take b.toNat))
        endPos jumps = .ok (name, next) := by
  rw [nameLoop] at h
  cases hb : msg[pos]? with
  | none =>
      rw [hb] at h
      cases h
  | some b =>
      rw [hb] at h
      dsimp only at h
      by_cases h0 : b = 0
      · rw [if_pos h0] at h
        cases h
        exact .inl ⟨congrArg some h0, rfl, rfl⟩
      · rw [if_neg h0] at h
        by_cases hp : b &&& 0xc0 = 0xc0
        · rw [if_pos hp] at h
          cases hlow : msg[pos + 1]? with
          | none =>
              rw [hlow] at h
              cases h
          | some low =>
              rw [hlow] at h
              dsimp only at h
              split at h
              · cases h
              · exact .inr (.inl ⟨b, low, rfl, hp, rfl, by omega, h⟩)
        · rw [if_neg hp] at h
          by_cases hr : b &&& 0xc0 = 0
          · rw [if_neg (not_not.mpr hr)] at h
            by_cases hstop : msg.length < pos + 1 + b.toNat
            · rw [if_pos hstop] at h
              cases h
            · rw [if_neg hstop] at h
              by_cases hlen : 512 < (addLabel out ((msg.drop (pos + 1)).take b.toNat)).length
              · cases (if_pos hlen).symm.trans h
              · exact .inr (.inr ⟨b, rfl, h0, hr, Nat.not_lt.mp hstop, Nat.not_lt.mp hlen,
                  (if_neg hlen).symm.trans h⟩)
          · rw [if_pos hr] at h
            cases h

/-- After the first pointer the end is known. -/
theorem nameLoop_end {e : ℕ} (h : nameLoop msg guard pos out (some e) jumps = .ok (name, next)) :
    next = e := by
  induction guard generalizing pos out jumps with
  | zero => cases h
  | succ guard ih =>
      obtain ⟨-, -, hnext⟩ | ⟨b, low, -, -, -, -, hrest⟩ | ⟨b, -, -, -, -, -, hrest⟩ :=
        nameLoop_succ_eq_ok h
      · exact hnext
      · exact ih hrest
      · exact ih hrest

/-- **What is decoded ends at the end, or the first pointer, of what stands in place.** -/
theorem nameLoop_inPlace (h : nameLoop msg guard pos out none jumps = .ok (name, next)) :
    InPlace msg pos next := by
  induction guard generalizing pos out jumps with
  | zero => cases h
  | succ guard ih =>
      obtain ⟨hroot, -, rfl⟩ | ⟨b, low, hb, hp, hlow, -, hrest⟩ | ⟨b, hb, h0, hr, -, -, hrest⟩ :=
        nameLoop_succ_eq_ok h
      · exact .root hroot
      · rw [nameLoop_end hrest]
        exact .pointer hb hp hlow
      · exact .label hb h0 hr (ih hrest)

/-- **The text is printable and short.** -/
theorem nameLoop_text (h : nameLoop msg guard pos out endPos jumps = .ok (name, next))
    (hout : (∀ c ∈ out, Printable c) ∧ out.length ≤ 512) :
    (∀ c ∈ name, Printable c) ∧ name.length ≤ 512 := by
  induction guard generalizing pos out endPos jumps with
  | zero => cases h
  | succ guard ih =>
      obtain ⟨-, rfl, -⟩ | ⟨b, low, -, -, -, -, hrest⟩ | ⟨b, -, -, -, -, hlen, hrest⟩ :=
        nameLoop_succ_eq_ok h
      · exact hout
      · exact ih hrest hout
      · exact ih hrest ⟨printable_addLabel hout.1 _, hlen⟩

end Loop

/-- **Where a decoded name ends, and what its text is made of.**  The end lies behind the start and
within the message, at the end or the first pointer of what stands in place; other bytes than those
do not move it; and the text is printable and has at most 512 characters. -/
theorem readName_eq_ok (msg : Bytes) (pos next : ℕ) (name : Text)
    (h : readName msg pos = .ok (name, next)) :
    pos < next ∧ next ≤ msg.length ∧ InPlace msg pos next ∧
      (∀ msg' : Bytes, (∀ i, pos ≤ i → i < next → msg'[i]? = msg[i]?) →
        ∀ name' next', readName msg' pos = .ok (name', next') → next' = next) ∧
      name.length ≤ 512 ∧ ∀ c ∈ name, Printable c := by
  have hplace := nameLoop_inPlace h
  obtain ⟨hprint, hlen⟩ := nameLoop_text h ⟨fun c hc => absurd hc List.not_mem_nil, by decide⟩
  refine ⟨hplace.lt, hplace.le_length, hplace, fun msg' hsame name' next' h' => ?_, hlen, hprint⟩
  exact hplace.unique hsame (nameLoop_inPlace h')

/-- A name that ends in a pointer: it ends there, wherever the pointer leads. -/
theorem readName_eq_ok_pointer :
    readName [1, 0x61, 0, 1, 0x62, 0xc0, 0] 3 = .ok ("b.a".toList, 7) ∧
      ∀ name next, readName [1, 0x63, 0, 1, 0x62, 0xc0, 0] 3 = .ok (name, next) → next = 7 := by
  have h : readName [1, 0x61, 0, 1, 0x62, 0xc0, 0] 3 = .ok ("b.a".toList, 7) := by decide
  refine ⟨h, (readName_eq_ok _ _ _ _ h).2.2.2.1 [1, 0x63, 0, 1, 0x62, 0xc0, 0] ?_⟩
  intro i hi hi'
  obtain rfl | rfl | rfl | rfl : i = 3 ∨ i = 4 ∨ i = 5 ∨ i = 6 := by omega
  all_goals rfl

/-! ### What is encoded -/

/-- Labels, encoded at `pos` with `k` pointers, wherever they lead. -/
inductive Encodes (msg : Bytes) : ℕ → List Bytes → ℕ → Prop
  | root {pos : ℕ} (h : msg[pos]? = some 0) : Encodes msg pos [] 0
  | pointer {pos target k : ℕ} {b low : UInt8} {labels : List Bytes} (h : msg[pos]? = some b)
      (hb : b &&& 0xc0 = 0xc0) (hlow : msg[pos + 1]? = some low)
      (htarget : (b &&& 0x3f).toNat * 256 + low.toNat = target) :
      Encodes msg target labels k → Encodes msg pos labels (k + 1)
  | label {pos k : ℕ} {l : Bytes} {labels : List Bytes} (hpos : 0 < l.length)
      (hlt : l.length < 64) (h : UInt8.ofNat l.length :: l <+: msg.drop pos) :
      Encodes msg (pos + 1 + l.length) labels k → Encodes msg pos (l :: labels) k

/-- Labels without pointers. -/
def wire : List Bytes → Bytes
  | [] => [0]
  | l :: labels => UInt8.ofNat l.length :: (l ++ wire labels)

/-- The labels as text. -/
def dotted (labels : List Bytes) : Text := Text.join ['.'] (labels.map Text.ofAscii)

/-- Labels that can be written out, and print. -/
def Spelled (labels : List Bytes) : Prop :=
  ∀ l ∈ labels, (0 < l.length ∧ l.length < 64) ∧ ∀ b ∈ l, isPrintable b = true

theorem spelled_of_all {labels : List Bytes} (h : labels.all (fun l =>
    decide (0 < l.length ∧ l.length < 64) && l.all isPrintable) = true) : Spelled labels := by
  intro l hl
  have hall := List.all_eq_true.mp h l hl
  rw [Bool.and_eq_true, decide_eq_true_eq, List.all_eq_true] at hall
  exact hall

theorem Spelled.tail {l : Bytes} {labels : List Bytes} (h : Spelled (l :: labels)) :
    Spelled labels :=
  fun m hm => h m (List.mem_cons_of_mem l hm)

theorem Spelled.length_lt {labels : List Bytes} (h : Spelled labels) :
    2 * labels.length < (wire labels).length := by
  induction labels with
  | nil => decide
  | cons l labels ih =>
      have hl := (h l List.mem_cons_self).1.1
      have hrest := ih h.tail
      rw [wire, List.length_cons, List.length_cons, List.length_append]
      omega

theorem labelText_of_printable {l : Bytes} (h : ∀ b ∈ l, isPrintable b = true) :
    labelText l = Text.ofAscii l :=
  List.map_congr_left fun b hb => if_pos (h b hb)

theorem foldl_addLabel {labels : List Bytes} (h : Spelled labels) {out : Text} (hout : out ≠ []) :
    labels.foldl addLabel out = Text.join ['.'] (out :: labels.map Text.ofAscii) := by
  induction labels generalizing out with
  | nil => exact (List.intercalate_singleton ..).symm
  | cons l labels ih =>
      have hadd : addLabel out l = out ++ ['.'] ++ Text.ofAscii l := by
        rw [addLabel, if_neg hout, labelText_of_printable (h l List.mem_cons_self).2]
      have hne : addLabel out l ≠ [] := by
        rw [hadd]
        simp
      rw [List.foldl_cons, ih h.tail hne, hadd, List.map_cons, Text.join, Text.join,
        List.intercalate_cons_cons]
      cases labels with
      | nil => rw [List.map_nil, List.intercalate_singleton, List.intercalate_singleton]
      | cons m labels =>
          rw [List.map_cons, List.intercalate_cons_cons, List.intercalate_cons_cons]
          simp only [List.append_assoc]

theorem foldl_addLabel_nil {labels : List Bytes} (h : Spelled labels) :
    labels.foldl addLabel [] = dotted labels := by
  cases labels with
  | nil => rfl
  | cons l labels =>
      obtain ⟨⟨hpos, -⟩, hl⟩ := h l List.mem_cons_self
      have hadd : addLabel [] l = Text.ofAscii l := labelText_of_printable hl
      have hne : Text.ofAscii l ≠ [] := by
        rw [← List.length_pos_iff, Text.ofAscii, List.length_map]
        exact hpos
      rw [List.foldl_cons, hadd, foldl_addLabel h.tail hne]
      rfl

theorem wire_encodes {labels : List Bytes} (h : Spelled labels) (before after : Bytes) :
    Encodes (before ++ wire labels ++ after) before.length labels 0 := by
  induction labels generalizing before with
  | nil => exact .root (by simp [wire])
  | cons l labels ih =>
      obtain ⟨⟨hpos, hlt⟩, -⟩ := h l List.mem_cons_self
      have hsplit : before ++ wire (l :: labels) ++ after =
          (before ++ UInt8.ofNat l.length :: l) ++ wire labels ++ after := by
        simp [wire]
      refine .label hpos hlt ?_ ?_
      · rw [List.append_assoc, List.drop_left]
        exact ⟨wire labels ++ after, by simp [wire]⟩
      · have hlen : before.length + 1 + l.length =
            (before ++ UInt8.ofNat l.length :: l).length := by
          rw [List.length_append, List.length_cons]
          omega
        rw [hsplit, hlen]
        exact ih h.tail _

/-! ### Decoding what is encoded -/

section Rounds

variable {msg : Bytes} {guard pos jumps : ℕ} {out : Text} {endPos : Option ℕ}

theorem nameLoop_root (h : msg[pos]? = some 0) :
    nameLoop msg (guard + 1) pos out endPos jumps = .ok (out, endPos.getD (pos + 1)) := by
  rw [nameLoop, h]
  rfl

theorem and_pointer_ne_zero {b : UInt8} (h : b &&& 0xc0 = 0xc0) : b ≠ 0 := by
  rintro rfl
  exact absurd h (by decide)

theorem nameLoop_pointer {b low : UInt8} (h : msg[pos]? = some b) (hb : b &&& 0xc0 = 0xc0)
    (hlow : msg[pos + 1]? = some low) (hjumps : jumps < 16)
    (ht : (b &&& 0x3f).toNat * 256 + low.toNat < msg.length) :
    nameLoop msg (guard + 1) pos out endPos jumps =
      nameLoop msg guard ((b &&& 0x3f).toNat * 256 + low.toNat) out (endPos.or (some (pos + 2)))
        (jumps + 1) := by
  rw [nameLoop, h]
  dsimp only
  rw [if_neg (and_pointer_ne_zero hb), if_pos hb, hlow]
  exact if_neg (by omega)

theorem and_label {n : ℕ} (h : n < 64) : UInt8.ofNat n &&& 0xc0 = 0 := by
  have hall : ∀ n : Fin 64, UInt8.ofNat n &&& 0xc0 = 0 := by decide +kernel
  exact hall ⟨n, h⟩

/-- What a label shows at its position. -/
theorem label_at {l : Bytes} (hlt : l.length < 64)
    (h : UInt8.ofNat l.length :: l <+: msg.drop pos) :
    msg[pos]? = some (UInt8.ofNat l.length) ∧ (UInt8.ofNat l.length).toNat = l.length ∧
      pos + 1 + l.length ≤ msg.length ∧ (msg.drop (pos + 1)).take l.length = l := by
  obtain ⟨rest, hrest⟩ := h
  have hdrop : msg.drop (pos + 1) = l ++ rest := by
    rw [← List.drop_drop, ← hrest]
    rfl
  refine ⟨?_, UInt8.toNat_ofNat_of_lt' (Nat.lt_trans hlt (by decide)), ?_, ?_⟩
  · rw [← Nat.add_zero pos, ← List.getElem?_drop, ← hrest]
    rfl
  · have hle := congrArg List.length hrest
    rw [List.length_append, List.length_cons, List.length_drop] at hle
    omega
  · rw [hdrop, List.take_left]

theorem ofNat_length_ne_zero {l : Bytes} (hpos : 0 < l.length)
    (hnat : (UInt8.ofNat l.length).toNat = l.length) : UInt8.ofNat l.length ≠ 0 := fun h0 => by
  have hzero : (UInt8.ofNat l.length).toNat = 0 := congrArg UInt8.toNat h0
  omega

theorem nameLoop_label {l : Bytes} (hpos : 0 < l.length) (hlt : l.length < 64)
    (h : UInt8.ofNat l.length :: l <+: msg.drop pos) (hfit : (addLabel out l).length ≤ 512) :
    nameLoop msg (guard + 1) pos out endPos jumps =
      nameLoop msg guard (pos + 1 + l.length) (addLabel out l) endPos jumps := by
  obtain ⟨hbyte, hnat, hlen, htake⟩ := label_at hlt h
  rw [nameLoop, hbyte]
  dsimp only
  rw [if_neg (ofNat_length_ne_zero hpos hnat), and_label hlt, if_neg (by decide),
    if_neg (by decide), hnat, if_neg (Nat.not_lt.mpr hlen), htake]
  exact if_neg (Nat.not_lt.mpr hfit)

end Rounds

theorem Encodes.lt_length {msg : Bytes} {pos k : ℕ} {labels : List Bytes}
    (h : Encodes msg pos labels k) : pos < msg.length := by
  cases h with
  | root h => exact (List.getElem?_eq_some_iff.mp h).1
  | pointer h => exact (List.getElem?_eq_some_iff.mp h).1
  | label _ _ h =>
      have hle := h.length_le
      rw [List.length_drop, List.length_cons] at hle
      omega

theorem length_le_addLabel (out : Text) (l : Bytes) : out.length ≤ (addLabel out l).length := by
  rw [addLabel, List.length_append]
  split
  · next h =>
      rw [h]
      exact Nat.zero_le _
  · rw [List.length_append]
    omega

theorem length_addLabel_le (out : Text) (l : Bytes) :
    (addLabel out l).length ≤ out.length + 1 + l.length := by
  rw [addLabel, labelText, List.length_append, List.length_map]
  split
  · exact Nat.add_le_add_right (Nat.zero_le _) _
  · rw [List.length_append, List.length_singleton]

theorem length_le_foldl_addLabel (labels : List Bytes) (out : Text) :
    out.length ≤ (labels.foldl addLabel out).length := by
  induction labels generalizing out with
  | nil => exact Nat.le_refl _
  | cons l labels ih => exact (length_le_addLabel out l).trans (ih _)

theorem length_foldl_addLabel_lt (labels : List Bytes) (out : Text) :
    (labels.foldl addLabel out).length < out.length + (wire labels).length := by
  induction labels generalizing out with
  | nil => exact Nat.lt_succ_self _
  | cons l labels ih =>
      have hadd := length_addLabel_le out l
      have hrest := ih (addLabel out l)
      rw [wire, List.length_cons, List.length_append, List.foldl_cons]
      omega

/-- **Decoding takes one round for each label, one for each pointer and one for the end.** -/
theorem nameLoop_of_encodes {msg : Bytes} {pos k : ℕ} {labels : List Bytes}
    (h : Encodes msg pos labels k) (guard : ℕ) (out : Text) (endPos : Option ℕ) (jumps : ℕ)
    (hfit : (labels.foldl addLabel out).length ≤ 512) (hjumps : jumps + k ≤ 16) :
    ∃ next, nameLoop msg guard pos out endPos jumps =
      if labels.length + k < guard then .ok (labels.foldl addLabel out, next)
      else .error .malformed := by
  induction h generalizing guard out endPos jumps with
  | @root pos h =>
      cases guard with
      | zero => exact ⟨0, rfl⟩
      | succ guard => exact ⟨_, (nameLoop_root h).trans (if_pos (Nat.succ_pos guard)).symm⟩
  | @pointer pos target k b low labels h hb hlow htarget hrest ih =>
      subst htarget
      cases guard with
      | zero => exact ⟨0, rfl⟩
      | succ guard =>
          obtain ⟨next, hnext⟩ := ih guard out (endPos.or (some (pos + 2))) (jumps + 1) hfit
            (by omega)
          refine ⟨next, ?_⟩
          rw [nameLoop_pointer h hb hlow (by omega) hrest.lt_length, hnext]
          exact if_congr (by omega) rfl rfl
  | @label pos k l labels hpos hlt h _ ih =>
      cases guard with
      | zero => exact ⟨0, rfl⟩
      | succ guard =>
          have hlen : (addLabel out l).length ≤ 512 := (length_le_foldl_addLabel _ _).trans hfit
          obtain ⟨next, hnext⟩ := ih guard (addLabel out l) endPos jumps hfit hjumps
          refine ⟨next, ?_⟩
          rw [nameLoop_label hpos hlt h hlen, hnext, List.length_cons, List.foldl_cons]
          exact if_congr (by omega) rfl rfl

theorem readName_of_encodes {msg : Bytes} {pos k : ℕ} {labels : List Bytes}
    (h : Encodes msg pos labels k) (hspelled : Spelled labels) (hwire : (wire labels).length ≤ 255)
    (hk : k ≤ 16) :
    ∃ next, readName msg pos =
      if labels.length + k ≤ 127 then .ok (dotted labels, next) else .error .malformed := by
  have hlen := length_foldl_addLabel_lt labels []
  rw [List.length_nil, Nat.zero_add] at hlen
  obtain ⟨next, hnext⟩ := nameLoop_of_encodes h 128 [] none 0 (by omega) (by omega)
  refine ⟨next, hnext.trans ?_⟩
  rw [foldl_addLabel_nil hspelled]
  exact if_congr Nat.lt_succ_iff rfl rfl

/-- **When a name is decoded**, to the text of the encoding without pointers: when its labels and
its pointers together are at most 127. -/
theorem readName_iff (msg : Bytes) (pos k : ℕ) (labels : List Bytes)
    (h : Encodes msg pos labels k) (hspelled : Spelled labels) (hwire : (wire labels).length ≤ 255)
    (hk : k ≤ 16) :
    ((∃ next, readName msg pos = .ok (dotted labels, next)) ∧
      ∃ next, readName (wire labels) 0 = .ok (dotted labels, next)) ↔ labels.length + k ≤ 127 := by
  obtain ⟨next, hnext⟩ := readName_of_encodes h hspelled hwire hk
  have halone : Encodes (wire labels) 0 labels 0 := by
    simpa using wire_encodes hspelled [] []
  obtain ⟨stop, hplain⟩ := readName_of_encodes halone hspelled hwire (Nat.zero_le _)
  have hlabels := hspelled.length_lt
  constructor
  · rintro ⟨⟨next', hok⟩, -⟩
    by_contra hlong
    rw [hnext, if_neg hlong] at hok
    cases hok
  · intro hle
    rw [if_pos hle] at hnext
    rw [if_pos (by omega)] at hplain
    exact ⟨⟨next, hnext⟩, stop, hplain⟩

/-- The name `b.a`, its last label behind a pointer. -/
theorem readName_iff_pointer :
    ((∃ next, readName [1, 0x61, 0, 1, 0x62, 0xc0, 0] 3 = .ok (dotted [[0x62], [0x61]], next)) ∧
      ∃ next, readName (wire [[0x62], [0x61]]) 0 = .ok (dotted [[0x62], [0x61]], next)) ↔
    2 + 1 ≤ 127 := by
  refine readName_iff [1, 0x61, 0, 1, 0x62, 0xc0, 0] 3 1 [[0x62], [0x61]] ?_ ?_ (by decide)
    (by decide)
  · refine .label (by decide) (by decide) ⟨[0xc0, 0], rfl⟩ ?_
    refine .pointer rfl (by decide) rfl rfl ?_
    exact .label (by decide) (by decide) ⟨[0, 1, 0x62, 0xc0, 0], rfl⟩ (.root rfl)
  · exact spelled_of_all rfl

/-- A name of 127 labels of one letter each. -/
def longest : List Bytes := List.replicate 127 [0x61]

theorem length_wire_replicate (n : ℕ) (b : UInt8) :
    (wire (List.replicate n [b])).length = 2 * n + 1 := by
  induction n with
  | zero => rfl
  | succ n ih =>
      rw [List.replicate_succ, wire, List.length_cons, List.length_append, List.length_singleton,
        ih]
      omega

theorem longest_spelled : Spelled longest := by
  have hone : Spelled [[0x61]] := spelled_of_all rfl
  intro l hl
  rw [List.eq_of_mem_replicate hl]
  exact hone _ List.mem_cons_self

/-- **A name of 255 octets is not decoded through a single pointer.** -/
theorem readName_longest :
    Encodes (wire longest ++ [0xc0, 0]) 255 longest 1 ∧ Spelled longest ∧
      (wire longest).length = 255 ∧
      (∃ next, readName (wire longest) 0 = .ok (dotted longest, next)) ∧
      readName (wire longest ++ [0xc0, 0]) 255 = .error .malformed := by
  have hlabels : longest.length = 127 := List.length_replicate
  have hlen : (wire longest).length = 255 := length_wire_replicate 127 0x61
  have hwire : (wire longest).length ≤ 255 := Nat.le_of_eq hlen
  have hbehind : Encodes (wire longest ++ [0xc0, 0]) 0 longest 0 :=
    wire_encodes longest_spelled [] [0xc0, 0]
  have halone : Encodes (wire longest) 0 longest 0 := by
    simpa using wire_encodes longest_spelled [] []
  have hpointer : Encodes (wire longest ++ [0xc0, 0]) 255 longest 1 := by
    refine @Encodes.pointer _ _ _ _ 0xc0 0 _ ?_ (by decide) ?_ rfl hbehind
    · rw [List.getElem?_append_right hwire, hlen]
      rfl
    · rw [List.getElem?_append_right (by omega), hlen]
      rfl
  obtain ⟨next, hok⟩ := readName_of_encodes halone longest_spelled hwire (by decide)
  obtain ⟨next', hfail⟩ := readName_of_encodes hpointer longest_spelled hwire (by decide)
  rw [if_pos (by omega)] at hok
  rw [if_neg (by omega)] at hfail
  exact ⟨hpointer, longest_spelled, hlen, ⟨next, hok⟩, hfail⟩

/-! ### What can be decoded -/

theorem label_lt {b : UInt8} (h : b &&& 0xc0 = 0) : b.toNat < 64 := by
  have hall : ∀ n : Fin 256, UInt8.ofNat n &&& 0xc0 = 0 → n.val < 64 := by decide +kernel
  have hb : UInt8.ofNat b.toNat = b := UInt8.ofNat_toNat
  exact hall ⟨b.toNat, b.toNat_lt⟩ (hb.symm ▸ h)

/-- The label that stands at `pos`. -/
theorem label_isPrefix {msg : Bytes} {pos : ℕ} {b : UInt8} (hb : msg[pos]? = some b)
    (hstop : pos + 1 + b.toNat ≤ msg.length) :
    ((msg.drop (pos + 1)).take b.toNat).length = b.toNat ∧
      UInt8.ofNat ((msg.drop (pos + 1)).take b.toNat).length ::
        (msg.drop (pos + 1)).take b.toNat <+: msg.drop pos := by
  obtain ⟨hlt, hget⟩ := List.getElem?_eq_some_iff.mp hb
  have hlen : ((msg.drop (pos + 1)).take b.toNat).length = b.toNat := by
    rw [List.length_take, List.length_drop]
    omega
  have hdrop : msg.drop pos = b :: msg.drop (pos + 1) := by
    rw [List.drop_eq_getElem_cons hlt, hget]
  rw [hlen, UInt8.ofNat_toNat, hdrop]
  exact ⟨rfl, (List.prefix_cons_inj b).mpr (List.take_prefix ..)⟩

/-- What decoding reads is an encoding. -/
theorem exists_encodes_of_nameLoop {msg : Bytes} {guard pos next jumps : ℕ} {out name : Text}
    {endPos : Option ℕ} (h : nameLoop msg guard pos out endPos jumps = .ok (name, next))
    (hjumps : jumps ≤ 16) :
    ∃ labels k, Encodes msg pos labels k ∧ labels.length + k < guard ∧ jumps + k ≤ 16 ∧
      name = labels.foldl addLabel out := by
  induction guard generalizing pos out endPos jumps with
  | zero => cases h
  | succ guard ih =>
      obtain ⟨hroot, rfl, -⟩ | ⟨b, low, hb, hp, hlow, hj, hrest⟩ |
        ⟨b, hb, h0, hr, hstop, -, hrest⟩ := nameLoop_succ_eq_ok h
      · exact ⟨[], 0, .root hroot, Nat.succ_pos guard, hjumps, rfl⟩
      · obtain ⟨labels, k, henc, hguard, hk, rfl⟩ := ih hrest hj
        exact ⟨labels, k + 1, .pointer hb hp hlow rfl henc, by omega, by omega, rfl⟩
      · obtain ⟨labels, k, henc, hguard, hk, rfl⟩ := ih hrest hjumps
        obtain ⟨hlen, hpre⟩ := label_isPrefix hb hstop
        have hpos : 0 < b.toNat := Nat.pos_of_ne_zero fun hz => h0 (UInt8.toNat_inj.mp hz)
        have hlt := hlen.trans_lt (label_lt hr)
        refine ⟨_ :: labels, k, .label (hpos.trans_eq hlen.symm) hlt hpre ?_, ?_, hk, rfl⟩
        · rw [hlen]
          exact henc
        · rw [List.length_cons]
          omega

/-- A position encodes one name. -/
theorem Encodes.unique {msg : Bytes} {pos k k' : ℕ} {labels labels' : List Bytes}
    (h : Encodes msg pos labels k) (h' : Encodes msg pos labels' k') :
    labels' = labels ∧ k' = k := by
  induction h generalizing labels' k' with
  | @root pos hroot =>
      cases h' with
      | root _ => exact ⟨rfl, rfl⟩
      | pointer hp hb _ _ _ =>
          rw [hroot] at hp
          cases hp
          exact absurd hb (by decide)
      | label hpos hlt hl _ =>
          obtain ⟨hbyte, hnat, -, -⟩ := label_at hlt hl
          rw [hroot] at hbyte
          exact absurd (Option.some.inj hbyte).symm (ofNat_length_ne_zero hpos hnat)
  | @pointer pos target k b low labels hp hb hlow htarget _ ih =>
      cases h' with
      | root hroot =>
          rw [hp] at hroot
          cases hroot
          exact absurd hb (by decide)
      | pointer hp' _ hlow' htarget' hrest =>
          rw [hp] at hp'
          rw [hlow] at hlow'
          cases hp'
          cases hlow'
          rw [← htarget', htarget] at hrest
          obtain ⟨hlabels, hk⟩ := ih hrest
          exact ⟨hlabels, congrArg (· + 1) hk⟩
      | label _ hlt hl _ =>
          obtain ⟨hbyte, -, -, -⟩ := label_at hlt hl
          rw [hp] at hbyte
          cases hbyte
          rw [and_label hlt] at hb
          exact absurd hb (by decide)
  | @label pos k l labels hpos hlt hl _ ih =>
      obtain ⟨hbyte, hnat, -, htake⟩ := label_at hlt hl
      cases h' with
      | root hroot =>
          rw [hbyte] at hroot
          exact absurd (Option.some.inj hroot) (ofNat_length_ne_zero hpos hnat)
      | pointer hp' hb' _ _ _ =>
          rw [hbyte] at hp'
          cases hp'
          rw [and_label hlt] at hb'
          exact absurd hb' (by decide)
      | @label _ _ l' _ _ hlt' hl' hrest' =>
          obtain ⟨hbyte', hnat', -, htake'⟩ := label_at hlt' hl'
          rw [hbyte] at hbyte'
          have hlen : l'.length = l.length := by
            rw [← hnat, ← hnat', Option.some.inj hbyte']
          rw [hlen] at hrest' htake'
          obtain rfl : l' = l := htake'.symm.trans htake
          obtain ⟨rfl, rfl⟩ := ih hrest'
          exact ⟨rfl, rfl⟩

/-- **What can be decoded**: what is encoded with few enough labels and pointers, as a text that is
short enough. -/
theorem readName_ok_iff {msg : Bytes} {pos : ℕ} :
    (∃ r, readName msg pos = .ok r) ↔
      ∃ labels k, Encodes msg pos labels k ∧ labels.length + k ≤ 127 ∧ k ≤ 16 ∧
        (labels.foldl addLabel []).length ≤ 512 := by
  constructor
  · rintro ⟨⟨name, next⟩, h⟩
    obtain ⟨labels, k, henc, hguard, hk, rfl⟩ := exists_encodes_of_nameLoop h (Nat.zero_le _)
    have hlen := (nameLoop_text h ⟨fun c hc => absurd hc List.not_mem_nil, by decide⟩).2
    exact ⟨labels, k, henc, by omega, by omega, hlen⟩
  · rintro ⟨labels, k, henc, hguard, hk, hlen⟩
    obtain ⟨next, hnext⟩ := nameLoop_of_encodes henc 128 [] none 0 hlen (by omega)
    exact ⟨_, hnext.trans (if_pos (by omega))⟩

/-- What is decoded of labels that print is their text. -/
theorem readName_encoded {msg : Bytes} {pos next k : ℕ} {labels : List Bytes} {name : Text}
    (h : Encodes msg pos labels k) (hspelled : Spelled labels)
    (hok : readName msg pos = .ok (name, next)) : name = dotted labels := by
  obtain ⟨labels', k', henc, -, -, rfl⟩ := exists_encodes_of_nameLoop hok (Nat.zero_le _)
  obtain ⟨rfl, -⟩ := h.unique henc
  exact foldl_addLabel_nil hspelled

end AppDns

end PcapRacer
