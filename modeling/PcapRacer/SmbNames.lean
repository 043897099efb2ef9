/-
**The names in SMB2 requests.**

A request says where its name stands, counted from the start of the 64-byte header.  The dissector
reads 48 bytes of the header and leaves the signature in front of the body.  So it looks for the
place of the name sixteen bytes too early, and counts from there as if it had read them all.

Main definitions:

* `AppSmb.utf16Bytes` — a text in UTF-16LE;
* `Smb2Request` — a request with one name in its body;
* `Smb2Request.Misplaced` — the bytes that stand sixteen bytes too early say the same.

Main results:

* `AppSmb.utf16le_eq_some_iff` — what decodes to an ASCII text;
* `Smb2Request.exec_smb2` — what is read of a request;
* `smb2_names_iff` — **when the name of a request is the one that is recorded**.
-/

import PcapRacer.AppSmb
import PcapRacer.ByteOrder
import PcapRacer.TextTame
import PcapRacer.TlsHello

set_option relaxedAutoImplicit false
set_option autoImplicit false

namespace PcapRacer

namespace AppSmb

/-! ### UTF-16 -/

/-- A text of characters below `2 ^ 16` in UTF-16LE. -/
def utf16Bytes (s : Text) : Bytes := s.flatMap fun c => leBytes 2 c.toNat

theorem toNat_ofNat_of_valid {n : ℕ} (h : n.isValidChar) : (Char.ofNat n).toNat = n := by
  rw [show Char.ofNat n = Char.ofNatAux n h from dif_pos h]
  rfl

theorem utf16Lossy_cons_of_ascii {u : UInt16} (hu : u.toNat < 128) (us : List UInt16) :
    utf16Lossy (u :: us) = Char.ofNat u.toNat :: utf16Lossy us := by
  have hhigh (n : UInt16) (hn : 128 ≤ n.toNat) : ¬ n ≤ u := by
    rw [UInt16.le_iff_toNat_le]
    omega
  have hd8 := hhigh 0xd800 (by decide)
  have hdc := hhigh 0xdc00 (by decide)
  cases us with
  | nil => simp [utf16Lossy, hd8]
  | cons v us => simp [utf16Lossy, hd8, hdc]

/-- A code unit that starts an ASCII character is that character. -/
theorem utf16Lossy_cons_inv {u : UInt16} {us : List UInt16} {c : Char} {s : Text}
    (hc : c.toNat < 128)
    (h : utf16Lossy (u :: us) = c :: s) : u.toNat = c.toNat ∧ utf16Lossy us = s := by
  have hreplaced {t : Text} : Text.replacement :: t ≠ c :: s := by
    intro heq
    rw [← (List.cons.inj heq).1] at hc
    exact absurd hc (by decide)
  have hplain {t : Text} (hu : ¬ (0xd800 ≤ u ∧ u ≤ 0xdfff))
      (heq : Char.ofNat u.toNat :: t = c :: s) : u.toNat = c.toNat ∧ t = s := by
    obtain ⟨hhead, htail⟩ := List.cons.inj heq
    rw [UInt16.le_iff_toNat_le, UInt16.le_iff_toNat_le] at hu
    have hvalid : u.toNat.isValidChar := by
      have := u.toNat_lt
      change u.toNat < 0xd800 ∨ 0xdfff < u.toNat ∧ u.toNat < 0x110000
      change ¬ (0xd800 ≤ u.toNat ∧ u.toNat ≤ 0xdfff) at hu
      omega
    exact ⟨by rw [← hhead, toNat_ofNat_of_valid hvalid], htail⟩
  cases us with
  | nil =>
      rw [utf16Lossy] at h
      split at h
      · exact absurd h hreplaced
      · next hu => exact hplain hu h
  | cons v us =>
      rw [utf16Lossy] at h
      split at h
      · next hlead =>
          split at h
          · -- a surrogate pair is past the first plane
            next hpair =>
              obtain ⟨hhead, -⟩ := List.cons.inj h
              simp only [UInt16.le_iff_toNat_le] at hlead hpair
              have hvalid :
                  (0x10000 + (u.toNat - 0xd800) * 1024 + (v.toNat - 0xdc00)).isValidChar := by
                have h₁ : u.toNat ≤ 0xdbff := hlead.2
                have h₂ : v.toNat ≤ 0xdfff := hpair.2
                exact .inr ⟨by omega, by omega⟩
              rw [← hhead, toNat_ofNat_of_valid hvalid] at hc
              omega
          · exact absurd h hreplaced
      · next hlead =>
          split at h
          · exact absurd h hreplaced
          · next htrail =>
              refine hplain (fun hu => ?_) h
              by_cases hdc : (0xdc00 : UInt16) ≤ u
              · exact htrail ⟨hdc, hu.2⟩
              · refine hlead ⟨hu.1, ?_⟩
                rw [UInt16.le_iff_toNat_le] at hdc ⊢
                change ¬ 0xdc00 ≤ u.toNat at hdc
                change u.toNat ≤ 0xdbff
                omega

/-- **Code units decode to an ASCII text** only when they are its characters. -/
theorem utf16Lossy_eq_iff {us : List UInt16} {s : Text} (hs : ∀ c ∈ s, c.toNat < 128) :
    utf16Lossy us = s ↔ us = s.map fun c => UInt16.ofNat c.toNat := by
  induction s generalizing us with
  | nil =>
      cases us with
      | nil => simp [utf16Lossy]
      | cons u us =>
          refine ⟨fun h => ?_, fun h => by simp at h⟩
          cases us with
          | nil => simp [utf16Lossy] at h
          | cons v us =>
              rw [utf16Lossy] at h
              split at h <;> split at h <;> cases h
  | cons c s ih =>
      have hc : c.toNat < 128 := hs c (by simp)
      have hunit : (UInt16.ofNat c.toNat).toNat = c.toNat := by
        rw [UInt16.toNat_ofNat']
        omega
      have ih (us : List UInt16) : utf16Lossy us = s ↔ us = s.map fun c => UInt16.ofNat c.toNat :=
        ih fun d hd => hs d (by simp [hd])
      constructor
      · intro h
        cases us with
        | nil => simp [utf16Lossy] at h
        | cons u us =>
            obtain ⟨hu, htail⟩ := utf16Lossy_cons_inv hc h
            rw [List.map_cons, ← (ih us).mp htail, ← hu, UInt16.ofNat_toNat]
      · rintro rfl
        rw [List.map_cons, utf16Lossy_cons_of_ascii (by omega), hunit, Char.ofNat_toNat,
          (ih _).mpr rfl]

theorem codeUnits_append (a b : UInt8) (bs : Bytes) :
    codeUnits (a :: b :: bs) = UInt16.ofNat (leNat [a, b]) :: codeUnits bs := rfl

/-- A code unit in its two bytes. -/
theorem leBytes_leNat (a b : UInt8) : leBytes 2 (UInt16.ofNat (leNat [a, b])).toNat = [a, b] := by
  have ha := a.toNat_lt
  have hb := b.toNat_lt
  have hval : (UInt16.ofNat (leNat [a, b])).toNat = b.toNat * 256 + a.toNat := by
    rw [UInt16.toNat_ofNat']
    simp [leNat, beNat]
    omega
  rw [hval]
  change [UInt8.ofNat (b.toNat * 256 + a.toNat), UInt8.ofNat ((b.toNat * 256 + a.toNat) / 256)] = _
  rw [show (b.toNat * 256 + a.toNat) / 256 = b.toNat by omega, UInt8.ofNat_toNat]
  congr 1
  apply UInt8.toNat_inj.mp
  rw [UInt8.toNat_ofNat']
  omega

/-- Bytes of even length are the code units that are read of them. -/
theorem flatMap_codeUnits {b : Bytes} (h : b.length % 2 = 0) :
    (codeUnits b).flatMap (fun u => leBytes 2 u.toNat) = b := by
  induction b using codeUnits.induct with
  | case1 a b rest ih =>
      rw [codeUnits_append, List.flatMap_cons, leBytes_leNat, ih (by simp at h; omega)]
      rfl
  | case2 b hshort =>
      match b, h with
      | [], _ => rfl
      | [_], h => simp at h
      | a :: b :: rest, _ => exact absurd rfl (hshort a b rest)

theorem codeUnits_flatMap (us : List UInt16) :
    codeUnits (us.flatMap fun u => leBytes 2 u.toNat) = us := by
  induction us with
  | nil => rfl
  | cons u us ih =>
      have hu := u.toNat_lt
      have hval : UInt16.ofNat (leNat [UInt8.ofNat u.toNat, UInt8.ofNat (u.toNat / 256)]) = u := by
        apply UInt16.toNat_inj.mp
        rw [UInt16.toNat_ofNat']
        simp [leNat, beNat]
        omega
      change UInt16.ofNat _ :: codeUnits (us.flatMap fun u => leBytes 2 u.toNat) = _
      rw [hval, ih]

/-- **What decodes to an ASCII text**: its UTF-16LE, or an odd number of bytes that are shown as
ASCII. -/
theorem utf16le_eq_some_iff {b : Bytes} {s : Text} (hs : ∀ c ∈ s, c.toNat < 128) :
    utf16le b = some s ↔
      (s ≠ [] ∧ b = utf16Bytes s) ∨ (b.length % 2 = 1 ∧ asciiString b = some s) := by
  have hbytes : utf16Bytes s = (s.map fun c => UInt16.ofNat c.toNat).flatMap
      fun u => leBytes 2 u.toNat := by
    rw [utf16Bytes, List.flatMap_map]
    refine List.flatMap_congr fun c hc => ?_
    have := hs c hc
    rw [UInt16.toNat_ofNat', Nat.mod_eq_of_lt (by omega)]
  have heven : (utf16Bytes s).length % 2 = 0 := by
    have hlen : (utf16Bytes s).length = 2 * s.length := by
      rw [utf16Bytes, List.length_flatMap]
      simp [Nat.mul_comm]
    omega
  unfold utf16le
  by_cases hnil : b = []
  · subst hnil
    have hempty : utf16Bytes s = [] → s = [] := by
      intro h
      cases s with
      | nil => rfl
      | cons c s => simp [utf16Bytes, leBytes, beBytes] at h
    simpa using fun hne h => hne (hempty h)
  · rw [if_neg hnil]
    by_cases hodd : b.length % 2 ≠ 0
    · have hne : b ≠ utf16Bytes s := fun h => hodd (h ▸ heven)
      rw [if_pos hodd]
      simp [hne, show b.length % 2 = 1 by omega]
    · have hdecodes : utf16Lossy (codeUnits b) = s ↔ b = utf16Bytes s := by
        rw [utf16Lossy_eq_iff hs, hbytes]
        constructor
        · intro h
          rw [← h, flatMap_codeUnits (by omega)]
        · intro h
          rw [h, codeUnits_flatMap]
      have heven' : ¬ b.length % 2 = 1 := by omega
      rw [if_neg hodd]
      simp only [heven', false_and, or_false, ← hdecodes]
      constructor
      · intro h
        split at h
        · cases h
        · next hne =>
            obtain rfl := Option.some_inj.mp h
            exact ⟨hne, rfl⟩
      · rintro ⟨hne, rfl⟩
        exact if_neg hne

/-- A text that is cut ends in a mark which is no ASCII. -/
theorem cap_eq_ok_iff {s t : Text} {max : ℕ} (ht : ∀ c ∈ t, c.toNat < 128)
    (hlen : t.utf8Len ≤ max) :
    cap s max = .ok t ↔ s = t := by
  unfold cap
  constructor
  · intro h
    split at h
    · obtain ⟨halves, -, hmark⟩ := bind_eq_ok_iff.mp h
      have hmark : halves.1 ++ ['…'] = t := Except.ok.inj hmark
      exact absurd (ht '…' (by rw [← hmark]; simp)) (by decide)
    · exact Except.ok.inj h
  · rintro rfl
    rw [if_neg (Nat.not_lt.mpr hlen)]
    rfl

end AppSmb

/-! ### What does not depend on the columns -/

section Oblivious

variable {σ α β C : Type}

/-- What comes of the dissector does not depend on the state. -/
def Dissect.Oblivious (d : Dissect σ α) : Prop :=
  ∀ s s' x t, d.exec s = .ok (x, t) → ∃ t', d.exec s' = .ok (x, t')

theorem oblivious_pure (a : α) : (pure a : Dissect σ α).Oblivious := by
  intro s s' x t h
  cases h
  exact ⟨s', rfl⟩

theorem oblivious_bind {d : Dissect σ α} {f : α → Dissect σ β} (hd : d.Oblivious)
    (hf : ∀ a, (f a).Oblivious) : (d >>= f).Oblivious := by
  intro s s' x t h
  obtain ⟨a, s₁, h₁, h₂⟩ | ⟨e, h₁, rfl⟩ := exec_bind_eq_ok.mp h
  · obtain ⟨t₁, ht₁⟩ := hd s s' _ s₁ h₁
    obtain ⟨t₂, ht₂⟩ := hf a s₁ t₁ x t h₂
    exact ⟨t₂, exec_bind_eq_ok.mpr (.inl ⟨a, t₁, ht₁, ht₂⟩)⟩
  · obtain ⟨t₁, ht₁⟩ := hd s s' _ t h₁
    exact ⟨t₁, exec_bind_eq_ok.mpr (.inr ⟨e, ht₁, rfl⟩)⟩

theorem oblivious_liftPanic (x : Except Panic α) : (liftM x : Dissect σ α).Oblivious := by
  intro s s' y t h
  rw [exec_liftPanic] at h ⊢
  obtain ⟨a, rfl, he⟩ := map_eq_ok_iff.mp h
  cases he
  exact ⟨s', rfl⟩

theorem oblivious_col (f : C → C) : (col f).Oblivious := by
  intro s s' x t h
  cases h
  exact ⟨_, rfl⟩

end Oblivious

namespace AppSmb

theorem ntlm_oblivious (data : Bytes) : (ntlm data).Oblivious := by
  unfold ntlm
  split
  · exact oblivious_pure _
  · split
    · exact oblivious_pure _
    · refine oblivious_bind (oblivious_col _) fun _ => ?_
      split
      · refine oblivious_bind (oblivious_liftPanic _) fun _ =>
          oblivious_bind (oblivious_col _) fun _ => ?_
        refine oblivious_bind (oblivious_liftPanic _) fun _ =>
          oblivious_bind (oblivious_col _) fun _ => ?_
        exact oblivious_bind (oblivious_liftPanic _) fun _ => oblivious_col _
      · exact oblivious_pure _

theorem ntlmIn_oblivious (rest : Bytes) : (ntlmIn rest).Oblivious := by
  unfold ntlmIn
  split
  · exact ntlm_oblivious _
  · exact oblivious_pure _

/-- The text that a triplet points at, if it points into the message. -/
def pointedText (data : Bytes) (field : Option (ℕ × ℕ)) : Option Text := do
  let (off, len) ← field
  if len = 0 ∨ data.length < off + len then none else utf16le ((data.drop off).take len)

/-- The domain, the user and the workstation of an Authenticate message. -/
def ntlmTexts (data : Bytes) : List Text :=
  match (Cur.new data).skip 8 with
  | .error _ => []
  | .ok c =>
      match c.le32 with
      | .error _ => []
      | .ok (msgType, c) =>
          if msgType = 3 then
            let domain := readField (readField (readField c).2).2
            let user := readField domain.2
            [domain.1, user.1, (readField user.2).1].filterMap (pointedText data)
          else []

/-- Those of the NTLM message in a body. -/
def ntlmTextsIn (rest : Bytes) : List Text :=
  ((find ntlmssp rest).map fun pos => ntlmTexts (rest.drop pos)).getD []

theorem exists_fieldText_iff (data : Bytes) (field : Option (ℕ × ℕ)) :
    (∃ o, fieldText data field = .ok o) ↔ ∀ s ∈ pointedText data field, s.Shortens 256 := by
  rcases field with - | ⟨off, len⟩
  · exact iff_of_true ⟨_, rfl⟩ fun _ h => by cases h
  · change (∃ o, (if len = 0 ∨ data.length < off + len then pure none
        else (utf16le ((data.drop off).take len)).mapM fun s => cap s 256) = .ok o) ↔
      ∀ s ∈ (if len = 0 ∨ data.length < off + len then none
        else utf16le ((data.drop off).take len)), s.Shortens 256
    split
    · exact iff_of_true ⟨_, rfl⟩ fun _ h => by cases h
    · cases utf16le ((data.drop off).take len) with
      | none => exact iff_of_true ⟨_, rfl⟩ fun _ h => by cases h
      | some s =>
          rw [Option.mapM_some]
          simp only [Option.mem_some_iff, forall_eq', ← exists_cap_iff]
          cases cap s 256 with
          | error q => exact iff_of_false (fun ⟨o, ho⟩ => by cases ho) fun ⟨t, ht⟩ => by cases ht
          | ok t => exact iff_of_true ⟨_, rfl⟩ ⟨_, rfl⟩

/-- One name is written, and then the rest. -/
theorem fieldText_shown_iff (data : Bytes) (field : Option (ℕ × ℕ)) {k : Option Text → M Unit}
    {s : Sink SmbCols} {p : Prop} (hk : ∀ o, (∃ r, (k o).exec s = .ok r) ↔ p) :
    (∃ r, ((liftM (fieldText data field) : M (Option Text)) >>= k).exec s = .ok r) ↔
      (∀ t ∈ pointedText data field, t.Shortens 256) ∧ p := by
  rw [← exists_fieldText_iff, exec_bind, exec_liftPanic]
  cases fieldText data field with
  | error q => exact iff_of_false (fun ⟨r, hr⟩ => by cases hr) fun ⟨⟨o, ho⟩, _⟩ => by cases ho
  | ok o => exact (hk o).trans (and_iff_right ⟨o, rfl⟩).symm

/-- **An NTLM message is shown** when its names can be shortened. -/
theorem ntlm_shown_iff (data : Bytes) (s : Sink SmbCols) :
    (∃ r, (ntlm data).exec s = .ok r) ↔ ∀ t ∈ ntlmTexts data, t.Shortens 256 := by
  unfold ntlm ntlmTexts
  cases (Cur.new data).skip 8 with
  | error e => exact iff_of_true ⟨_, rfl⟩ fun _ h => absurd h List.not_mem_nil
  | ok c =>
  dsimp only
  cases c.le32 with
  | error e => exact iff_of_true ⟨_, rfl⟩ fun _ h => absurd h List.not_mem_nil
  | ok r =>
  obtain ⟨msgType, c⟩ := r
  dsimp only
  rw [exec_col_bind]
  split
  · have hlist : ∀ a b c : Option (ℕ × ℕ),
        (∀ t ∈ [a, b, c].filterMap (pointedText data), t.Shortens 256) ↔
          (∀ t ∈ pointedText data a, t.Shortens 256) ∧ (∀ t ∈ pointedText data b, t.Shortens 256) ∧
            ∀ t ∈ pointedText data c, t.Shortens 256 := by
      intro a b c
      simp only [List.mem_filterMap, List.mem_cons, List.not_mem_nil, or_false, Option.mem_def]
      exact ⟨fun h => ⟨fun t ht => h t ⟨a, .inl rfl, ht⟩, fun t ht => h t ⟨b, .inr (.inl rfl), ht⟩,
        fun t ht => h t ⟨c, .inr (.inr rfl), ht⟩⟩, fun ⟨ha, hb, hc⟩ t ⟨f, hf, ht⟩ => by
          obtain rfl | rfl | rfl := hf
          · exact ha t ht
          · exact hb t ht
          · exact hc t ht⟩
    rw [hlist]
    refine fieldText_shown_iff data _ fun _ => ?_
    rw [exec_col_bind]
    refine fieldText_shown_iff data _ fun _ => ?_
    rw [exec_col_bind]
    refine (fieldText_shown_iff data _ fun _ => ?_).trans (iff_of_eq (and_true _))
    exact iff_of_true ⟨_, rfl⟩ trivial
  · exact iff_of_true ⟨_, rfl⟩ fun _ h => absurd h List.not_mem_nil

theorem ntlmIn_shown_iff (rest : Bytes) :
    (∃ r, (ntlmIn rest).exec { stack := [], cols := {} } = .ok r) ↔
      ∀ s ∈ ntlmTextsIn rest, s.Shortens 256 := by
  unfold ntlmIn ntlmTextsIn
  cases find ntlmssp rest with
  | none => exact iff_of_true ⟨_, rfl⟩ fun _ h => absurd h List.not_mem_nil
  | some pos => exact ntlm_shown_iff _ _

/-- An NTLM message leaves the names alone. -/
theorem ntlm_passes (data : Bytes) :
    (ntlm data).Passes fun s : Sink SmbCols => (s.cols.smbTree, s.cols.smbFilename) := by
  have hcol {f : SmbCols → SmbCols} (h : ∀ c, ((f c).smbTree, (f c).smbFilename) =
      (c.smbTree, c.smbFilename)) :
      (col f).Passes fun s : Sink SmbCols => (s.cols.smbTree, s.cols.smbFilename) :=
    @passes_col _ _ (fun c : SmbCols => (c.smbTree, c.smbFilename)) f h
  unfold ntlm
  split
  · exact passes_pure _
  · split
    · exact passes_pure _
    · refine passes_bind (hcol fun _ => rfl) fun _ => ?_
      split
      · refine passes_bind (passes_liftPanic _) fun _ => passes_bind (hcol fun _ => rfl) fun _ => ?_
        refine passes_bind (passes_liftPanic _) fun _ => passes_bind (hcol fun _ => rfl) fun _ => ?_
        exact passes_bind (passes_liftPanic _) fun _ => hcol fun _ => rfl
      · exact passes_pure _

theorem ntlmIn_passes (rest : Bytes) :
    (ntlmIn rest).Passes fun s : Sink SmbCols => (s.cols.smbTree, s.cols.smbFilename) := by
  unfold ntlmIn
  split
  · exact ntlm_passes _
  · exact passes_pure _

/-- Record the name that stands at a place, and look for an NTLM message. -/
def recordName (rest : Bytes) (place : ℕ) (set : Option Text → SmbCols → SmbCols) : M Unit := do
  if let some s ← offsetString rest place then
    col (set s)
  ntlmIn rest

/-- The dissector runs to its end and leaves this in a column. -/
def Leaves (get : SmbCols → Option Text) (name : Text) (o : Outcome (Sink SmbCols) Unit) : Prop :=
  ∃ r s, o = .ok (r, s) ∧ get s.cols = some name

/-- **When a name is recorded.** -/
theorem leaves_recordName {rest : Bytes} {place : ℕ} {set : Option Text → SmbCols → SmbCols}
    {get : SmbCols → Option Text} (hset : ∀ t c, get (set t c) = t)
    (hget : ∀ s r s', (ntlmIn rest).exec s = .ok (r, s') → get s'.cols = get s.cols)
    {w : Sink SmbCols} (hw : get w.cols = none) (name : Text) :
    Leaves get name ((recordName rest place set).exec w) ↔
      offsetString rest place = .ok (some (some name)) ∧
        ∀ s ∈ ntlmTextsIn rest, s.Shortens 256 := by
  rw [← ntlmIn_shown_iff]
  unfold recordName
  rw [exec_bind, exec_liftPanic]
  cases hs : offsetString rest place with
  | error p =>
      constructor
      · rintro ⟨r, s, h, -⟩
        cases h
      · rintro ⟨h, -⟩
        cases h
  | ok t =>
      cases t with
      | none =>
          constructor
          · rintro ⟨r, s, h, hname⟩
            rw [hget w r s h, hw] at hname
            cases hname
          · rintro ⟨h, -⟩
            cases h
      | some t =>
          change Leaves get name ((col (set t) >>= fun _ => ntlmIn rest).exec w) ↔ _
          rw [exec_col_bind]
          constructor
          · rintro ⟨r, s, h, hname⟩
            rw [hget _ r s h, hset] at hname
            obtain ⟨t', ht'⟩ := ntlmIn_oblivious rest _ { stack := [], cols := {} } r s h
            exact ⟨by rw [hname], _, ht'⟩
          · rintro ⟨h, ⟨r, s⟩, hr⟩
            obtain ⟨t', ht'⟩ := ntlmIn_oblivious rest _
              { stack := w.stack, cols := set t w.cols } r s hr
            have hname := (hget _ r t' ht').trans (hset t w.cols)
            exact ⟨r, t', ht', hname.trans (Option.some_inj.mp (Except.ok.inj h))⟩

end AppSmb

/-! ### Requests -/

/-- A request with one name: the offset of the name stands `place` bytes into the body, its length
behind that, and the name further on. -/
structure Smb2Request (command : UInt16) (place : ℕ) where
  structureSize : UInt16
  creditCharge : UInt16
  status : UInt32
  credits : UInt16
  flags : UInt32
  nextCommand : UInt32
  messageId : UInt64
  reserved : UInt32
  treeId : UInt32
  sessionId : UInt64
  signature : Bytes
  length_signature : signature.length = 16
  /-- The body before the offset. -/
  fixed : Bytes
  length_fixed : fixed.length = place
  /-- The body between the length and the name. -/
  gap : Bytes
  name : Text
  ascii : ∀ c ∈ name, c.toNat < 128
  short : name.utf8Len ≤ 512
  /-- The body behind the name. -/
  tail : Bytes
  fits : 64 + place + 4 + gap.length < 2 ^ 16

/-- The share path of a TREE_CONNECT request. -/
abbrev TreeConnect := Smb2Request 3 4

/-- The file name of a CREATE request. -/
abbrev Create := Smb2Request 5 44

namespace Smb2Request

open AppSmb

variable {command : UInt16} {place : ℕ} (P : Smb2Request command place)

/-- Where the name stands, from the start of the header. -/
def nameOffset : ℕ := 64 + place + 4 + P.gap.length

def body : Bytes :=
  P.fixed ++ (leBytes 2 P.nameOffset ++ (leBytes 2 (2 * P.name.length) ++
    (P.gap ++ (utf16Bytes P.name ++ P.tail))))

/-- What is left when 48 bytes are read: the signature and the body. -/
def rest : Bytes := P.signature ++ P.body

def bytes : Bytes :=
  smb2Magic ++ (leBytes 2 P.structureSize.toNat ++ (leBytes 2 P.creditCharge.toNat ++
    (leBytes 4 P.status.toNat ++ (leBytes 2 command.toNat ++ (leBytes 2 P.credits.toNat ++
      (leBytes 4 P.flags.toNat ++ (leBytes 4 P.nextCommand.toNat ++ (leBytes 8 P.messageId.toNat ++
        (leBytes 4 P.reserved.toNat ++ (leBytes 4 P.treeId.toNat ++
          (leBytes 8 P.sessionId.toNat ++ P.rest)))))))))))

/-- The two numbers that stand sixteen bytes before the offset and the length. -/
def wrongOffset : ℕ := leNat ((P.rest.drop place).take 2)

def wrongLength : ℕ := leNat ((P.rest.drop (place + 2)).take 2)

/-- The bytes that are taken for the name. -/
def stretch : Bytes := (P.rest.drop (P.wrongOffset - 64)).take P.wrongLength

/-- The names in an NTLM message in the body, if there is one, can be shortened. -/
def NtlmShown : Prop := ∀ s ∈ ntlmTextsIn P.rest, s.Shortens 256

/-- The bytes that stand sixteen bytes too early say the same: what stands where the offset and the
length would be leads to the name, or to an odd number of bytes that are shown as the name. -/
def Misplaced : Prop :=
  64 ≤ P.wrongOffset ∧ P.wrongOffset - 64 + P.wrongLength ≤ P.rest.length ∧
    ((P.name ≠ [] ∧ P.stretch = utf16Bytes P.name) ∨
      (P.stretch.length % 2 = 1 ∧ asciiString P.stretch = some P.name)) ∧
    P.NtlmShown

/-! ### What is read of a request -/

/-- **The header**: sixteen bytes of it are left in front of the body. -/
theorem exec_smb2 (s : Sink SmbCols) :
    ∃ w : SmbCols, w.smbTree = s.cols.smbTree ∧ w.smbFilename = s.cols.smbFilename ∧
      (smb2 P.bytes).exec s = (do
        if command = 3 ∧ 8 < P.rest.length then
          if let some s ← offsetString P.rest 4 then
            col fun c => { c with smbTree := s }
        else if command = 5 ∧ 48 < P.rest.length then
          if let some s ← offsetString P.rest 44 then
            col fun c => { c with smbFilename := s }
        ntlmIn P.rest : M Unit).exec { stack := s.stack ++ [.smb2], cols := w } := by
  have hrest : (Cur.new P.bytes).rest = P.bytes := rfl
  obtain ⟨c₀, h₀, hc₀⟩ := Cur.exists_skip (n := 4) hrest rfl
  obtain ⟨c₁, h₁, hc₁⟩ := Cur.exists_le16 hc₀
  obtain ⟨c₂, h₂, hc₂⟩ := Cur.exists_le16 hc₁
  obtain ⟨c₃, h₃, hc₃⟩ := Cur.exists_le32 hc₂
  obtain ⟨c₄, h₄, hc₄⟩ := Cur.exists_le16 hc₃
  obtain ⟨c₅, h₅, hc₅⟩ := Cur.exists_le16 hc₄
  obtain ⟨c₆, h₆, hc₆⟩ := Cur.exists_le32 hc₅
  obtain ⟨c₇, h₇, hc₇⟩ := Cur.exists_le32 hc₆
  obtain ⟨c₈, h₈, hc₈⟩ := Cur.exists_le64 hc₇
  obtain ⟨c₉, h₉, hc₉⟩ := Cur.exists_le32 hc₈
  obtain ⟨ca, ha, hca⟩ := Cur.exists_le32 hc₉
  obtain ⟨cb, hb, hcb⟩ := Cur.exists_le64 hca
  refine ⟨?cols, ?tree, ?filename, ?run⟩
  case run =>
    rw [smb2, exec_bind, exec_layer]
    dsimp only
    rw [exec_col_bind, h₀, exec_ok_bind, h₁, exec_ok_bind]
    dsimp only
    rw [h₂, exec_ok_bind]
    dsimp only
    rw [h₃, exec_ok_bind]
    dsimp only
    rw [h₄, exec_ok_bind]
    dsimp only
    rw [h₅, exec_ok_bind]
    dsimp only
    rw [h₆, exec_ok_bind]
    dsimp only
    rw [h₇, exec_ok_bind]
    dsimp only
    rw [h₈, exec_ok_bind]
    dsimp only
    rw [h₉, exec_ok_bind]
    dsimp only
    rw [ha, exec_ok_bind]
    dsimp only
    rw [hb, exec_ok_bind]
    dsimp only
    rewrite [exec_col_bind, hcb]
    rfl
  case tree => rfl
  case filename => rfl

theorem length_rest : 16 + place + 4 ≤ P.rest.length := by
  simp [rest, body, P.length_signature, P.length_fixed]
  omega

/-- What is found where the name is looked for. -/
theorem offsetString_eq_iff :
    offsetString P.rest place = .ok (some (some P.name)) ∧ P.NtlmShown ↔ P.Misplaced := by
  have hcap (o : Option Text) :
      (o.mapM fun s => cap s 512) = .ok (some P.name) ↔ o = some P.name := by
    cases o with
    | none =>
        constructor
        · intro h
          cases h
        · intro h
          cases h
    | some s =>
        change (cap s 512).map some = .ok (some P.name) ↔ _
        rw [map_eq_ok_iff, Option.some_inj]
        simp only [Option.some_inj, exists_eq_right]
        exact cap_eq_ok_iff P.ascii P.short
  rw [Misplaced, ← and_assoc, ← and_assoc, and_congr_left_iff]
  intro _
  rw [← utf16le_eq_some_iff P.ascii, ← hcap, offsetString]
  change (if 64 ≤ P.wrongOffset ∧ P.wrongOffset - 64 + P.wrongLength ≤ P.rest.length
    then _ else _) =
    _ ↔ _
  split
  · next hfits =>
      rw [bind_eq_ok_iff]
      constructor
      · rintro ⟨o, ho, he⟩
        have he : o = some P.name := Option.some_inj.mp (Except.ok.inj he)
        exact ⟨hfits, he ▸ ho⟩
      · rintro ⟨-, ho⟩
        exact ⟨_, ho, rfl⟩
  · next hfits =>
      constructor
      · intro h
        cases h
      · rintro ⟨h, -⟩
        exact absurd h hfits

end Smb2Request

/-! ### When the name is recorded -/

open AppSmb

/-- The name of the request is in a column of its own when the dissector has come to its end. -/
def Smb2Request.Shown {command : UInt16} {place : ℕ} (P : Smb2Request command place)
    (get : SmbCols → Option Text) : Prop :=
  Leaves get P.name ((smb2 P.bytes).exec { stack := [], cols := {} })

theorem treeConnect_shown_iff (P : TreeConnect) : P.Shown SmbCols.smbTree ↔ P.Misplaced := by
  obtain ⟨w, htree, -, hrun⟩ := P.exec_smb2 { stack := [], cols := {} }
  have hlen := P.length_rest
  rw [← P.offsetString_eq_iff, Smb2Request.Shown, hrun, if_pos ⟨rfl, by omega⟩]
  refine leaves_recordName ?_ ?_ htree P.name
  · exact fun _ _ => rfl
  · exact fun s r s' h => (Prod.mk.inj ((ntlmIn_passes P.rest) s r s' h).2).1

theorem create_shown_iff (P : Create) : P.Shown SmbCols.smbFilename ↔ P.Misplaced := by
  obtain ⟨w, -, hfilename, hrun⟩ := P.exec_smb2 { stack := [], cols := {} }
  have hlen := P.length_rest
  have hnot : ¬ ((5 : UInt16) = 3 ∧ 8 < P.rest.length) := fun h => absurd h.1 (by decide)
  rw [← P.offsetString_eq_iff, Smb2Request.Shown, hrun, if_neg hnot, if_pos ⟨rfl, by omega⟩]
  refine leaves_recordName ?_ ?_ hfilename P.name
  · exact fun _ _ => rfl
  · exact fun s r s' h => (Prod.mk.inj ((ntlmIn_passes P.rest) s r s' h).2).2

/-- **When the name of a request is the one that is recorded**: when the bytes that stand sixteen
bytes before its offset and its length lead to it, counted from sixteen bytes too early. -/
theorem smb2_names_iff (P : TreeConnect) (Q : Create) :
    (P.Shown SmbCols.smbTree ↔ P.Misplaced) ∧ (Q.Shown SmbCols.smbFilename ↔ Q.Misplaced) :=
  ⟨treeConnect_shown_iff P, create_shown_iff Q⟩

/-! ### Requests that are not signed -/

/-- A client connects to the share of a server. -/
def ipcShare : TreeConnect where
  structureSize := 64
  creditCharge := 1
  status := 0
  credits := 127
  flags := 0
  nextCommand := 0
  messageId := 3
  reserved := 65279
  treeId := 0
  sessionId := 1
  signature := List.replicate 16 0
  length_signature := by decide
  fixed := [9, 0, 0, 0]
  length_fixed := rfl
  gap := []
  name := "\\\\srv\\IPC$".toList
  ascii := by simp
  short := by decide
  tail := []
  fits := by decide

/-- It opens a file with the attributes of a normal file. -/
def notesFile : Create where
  structureSize := 64
  creditCharge := 1
  status := 0
  credits := 127
  flags := 0
  nextCommand := 0
  messageId := 4
  reserved := 65279
  treeId := 1
  sessionId := 1
  signature := List.replicate 16 0
  length_signature := by decide
  fixed := [57, 0] ++ List.replicate 26 0 ++ [0x80, 0, 0, 0] ++ List.replicate 12 0
  length_fixed := rfl
  gap := List.replicate 8 0
  name := "notes.txt".toList
  ascii := by simp
  short := by decide
  tail := []
  fits := by decide

/-- **Names that are not recorded.** -/
theorem smb2_names_lost :
    ((smb2 ipcShare.bytes).exec { stack := [], cols := {} }).toOption.map (·.2.cols.smbTree) =
        some none ∧
      ((smb2 notesFile.bytes).exec { stack := [], cols := {} }).toOption.map
        (·.2.cols.smbFilename) = some none ∧
      ¬ ((∀ P : TreeConnect, P.Shown SmbCols.smbTree) ∧
        ∀ P : Create, P.Shown SmbCols.smbFilename) := by
  refine ⟨by decide +kernel, by decide +kernel, fun h => ?_⟩
  obtain ⟨r, s, hrun, hname⟩ := h.1 ipcShare
  have hcol : ((smb2 ipcShare.bytes).exec { stack := [], cols := {} }).toOption.map
      (·.2.cols.smbTree) = some none := by decide +kernel
  rw [hrun] at hcol
  have hnone : s.cols.smbTree = none := Option.some_inj.mp hcol
  rw [hnone] at hname
  cases hname

end PcapRacer
