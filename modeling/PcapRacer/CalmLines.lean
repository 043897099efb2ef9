/-
**When the dissectors of text protocols are calm.**

SMTP, FTP, HTTP, SIP and SSH banners are lines of text.  Their dissectors shorten what they take from
a line, so they are calm when the line is ASCII, or so short that none of its parts is over its
bound.  SMTP also cuts prefixes off, at whatever character stands there; its lines have to be ASCII.

Main definitions:

* `AppText.PlainLine`, `AppText.PlainMail` — first lines, and SMTP;
* `AppHttp.PlainHead`, `AppSip.PlainMessage` — the heads of messages;
* `AppSsh.PlainNames` — the banner and the name-lists.

Main results:

* `AppText.calm_smtp`, `AppText.calm_ftp`, … — **plain payloads are dissected calmly**.
-/

import Mathlib.Data.List.Flatten
import PcapRacer.AppHttp
import PcapRacer.AppSip
import PcapRacer.AppSsh
import PcapRacer.AppText
import PcapRacer.Calm

set_option relaxedAutoImplicit false
set_option autoImplicit false

namespace Text

/-! ### Cuts behind ASCII characters -/

/-- The first byte of a longer character is not ASCII. -/
theorem utf8Size_of_head {c : Char} {x : UInt8} (h : (String.utf8EncodeChar c).head? = some x)
    (hx : x < 0x80) : c.utf8Size = 1 := by
  have hlt : x.toNat < 128 := hx
  unfold String.utf8EncodeChar at h
  dsimp only at h
  split at h
  · next hv => exact Char.utf8Size_eq_one_iff.mpr (UInt32.le_iff_toNat_le.mpr hv)
  all_goals
    exfalso
    repeat' split at h
    all_goals
      cases h
      simp only [UInt8.toNat_ofNat'] at hlt
      omega

/-- A text can be cut behind ASCII bytes. -/
theorem splitAt?_of_encode {s : Text} {n : ℕ} (hn : n ≤ s.utf8Len)
    (h : ∀ x ∈ s.encode.take n, x < 0x80) : ∃ p, s.splitAt? n = some p := by
  induction s generalizing n with
  | nil =>
      obtain rfl : n = 0 := Nat.le_zero.mp hn
      exact ⟨_, rfl⟩
  | cons c s ih =>
      cases n with
      | zero => exact ⟨_, rfl⟩
      | succ n =>
          have henc : encode (c :: s) = String.utf8EncodeChar c ++ encode s := rfl
          have hpos : (String.utf8EncodeChar c).length = c.utf8Size := String.length_utf8EncodeChar c
          have hone : c.utf8Size = 1 := by
            cases hc : String.utf8EncodeChar c with
            | nil =>
                rw [hc] at hpos
                exact absurd hpos.symm c.utf8Size_pos.ne'
            | cons x xs =>
                refine utf8Size_of_head (x := x) (by rw [hc]; rfl) (h x ?_)
                rw [henc, hc]
                exact List.mem_cons_self
          obtain ⟨x, hx⟩ := List.length_eq_one_iff.mp (hpos.trans hone)
          rw [henc, hx] at h
          rw [utf8Len_cons, hone] at hn
          obtain ⟨p, hp⟩ := ih (n := n) (by omega) fun y hy => h y (List.mem_cons_of_mem _ hy)
          refine ⟨(c :: p.1, p.2), ?_⟩
          rw [splitAt?, hone, if_pos (Nat.le_add_left 1 n), Nat.add_sub_cancel, hp]
          rfl

/-- A text can be cut inside its ASCII beginning. -/
theorem splitAt?_append_of_isAscii {s : Text} (h : IsAscii s) (t : Text) {n : ℕ}
    (hn : n ≤ s.length) : (s ++ t).splitAt? n = some (s.take n, s.drop n ++ t) := by
  induction s generalizing n with
  | nil =>
      obtain rfl : n = 0 := Nat.le_zero.mp hn
      rw [splitAt?]
      rfl
  | cons c s ih =>
      cases n with
      | zero => rfl
      | succ n =>
          have hc : c.utf8Size = 1 := h c List.mem_cons_self
          have hs := ih (fun d hd => h d (List.mem_cons_of_mem _ hd)) (Nat.le_of_succ_le_succ hn)
          rw [List.cons_append, splitAt?, hc, if_pos (Nat.le_add_left 1 n), Nat.add_sub_cancel, hs]
          rfl

end Text

namespace PcapRacer

namespace AppText

open Text (IsAscii Tame)

/-! ### First lines -/

/-- The bytes of the first line. -/
def firstLineBytes (payload : Bytes) : Bytes :=
  payload.take ((payload.findIdx? fun b => b == 13 || b == 10).getD (min payload.length 1024))

/-- The first line is within its bound, and ASCII or short. -/
def PlainLine (payload : Bytes) : Prop :=
  (firstLineBytes payload).length ≤ 1024 ∧ (firstLineBytes payload).Plain 512

theorem firstLine_of_plain {payload : Bytes} (h : PlainLine payload) :
    ∃ line, firstLine payload = .ok line ∧ line.Tame 512 := by
  have hlen : (Text.lossy (firstLineBytes payload)).utf8Len ≤ 1024 := by
    rcases h.2 with hascii | hshort
    · rw [Text.lossy_eq_ofAscii hascii, Text.utf8Len_of_isAscii (Text.isAscii_ofAscii hascii)]
      exact (List.length_map _).trans_le h.1
    · have hle := Text.utf8Len_lossy_le (firstLineBytes payload)
      omega
  exact ⟨Text.lossy (firstLineBytes payload), cap_of_le hlen, h.2.lossy⟩

/-- Reading the first line, and what is done with it. -/
theorem calm_firstLine {payload : Bytes} (h : PlainLine payload) {f : Text → M Unit}
    (hf : ∀ line, line.Tame 512 → (f line).Calm) :
    ((liftM (firstLine payload) : M Text) >>= f).Calm := by
  obtain ⟨line, hline, htame⟩ := firstLine_of_plain h
  exact calm_cut ⟨line, hline, hf line htame⟩

theorem calm_splitCommand {line : Text} (h : line.Tame 512) :
    (liftM (splitCommand line) : M (Text × Option Text)).Calm := by
  unfold splitCommand
  cases hs : line.splitOnce ' ' with
  | none => exact calm_liftPanic rfl
  | some p =>
      obtain ⟨c, a⟩ := p
      have ha : a.trim.Tame 512 :=
        h.of_sublist ((Text.trim_sublist a).trans (Text.sublist_of_splitOnce hs).2)
      obtain ⟨t, ht⟩ := cap_of_tame ha
      refine calm_liftPanic (a := (c.toAsciiUppercase, some t)) ?_
      dsimp only
      rw [ht]
      rfl

/-- Three digits are three bytes. -/
theorem calm_responseCode {line : Text} (h : opensWithCode line = true) :
    (liftM (responseCode line) : M (Option UInt16)).Calm := by
  rw [opensWithCode, Bool.and_eq_true, decide_eq_true_eq, List.all_eq_true] at h
  obtain ⟨p, hp⟩ := Text.splitAt?_of_encode h.1 fun x hx => by
    have hdigit := h.2 x hx
    rw [Bool.and_eq_true, decide_eq_true_eq, decide_eq_true_eq] at hdigit
    exact UInt8.lt_iff_toNat_lt.mpr
      (lt_of_le_of_lt (UInt8.le_iff_toNat_le.mp hdigit.2) (by decide))
  refine calm_liftPanic (a := (Text.parseUnsigned (2 ^ 16) p.1).map UInt16.ofNat) ?_
  rw [responseCode, Text.splitAt_eq_ok_iff.mpr hp]
  rfl

theorem calm_ftp {payload : Bytes} (h : PlainLine payload) : (ftp payload).Calm := by
  refine calm_bind (calm_layer _) fun _ => calm_firstLine h fun line hline => ?_
  refine calm_ite (fun hcode => ?_) fun _ => ?_
  · exact calm_bind (calm_responseCode hcode) fun _ => calm_col _
  · exact calm_bind (calm_splitCommand hline) fun _ => calm_col _

theorem calm_pop3 {payload : Bytes} (h : PlainLine payload) : (pop3 payload).Calm :=
  calm_bind (calm_layer _) fun _ => calm_firstLine h fun _ hline =>
    calm_bind (calm_splitCommand hline) fun _ => calm_col _

theorem calm_imap {payload : Bytes} (h : PlainLine payload) : (imap payload).Calm := by
  refine calm_bind (calm_layer _) fun _ => calm_firstLine h fun line hline => ?_
  refine calm_bind (calm_col _) fun _ => calm_bind (calm_mapM fun t ht => calm_cap ?_) fun _ =>
    calm_col _
  exact hline.of_sublist (Text.sublist_of_splitn ht)

/-- What follows the source of a message is a part of the line. -/
theorem sublist_of_ircPrefix {line source rest : Text} (h : ircPrefix line = some (source, rest)) :
    rest.Sublist line := by
  unfold ircPrefix at h
  split at h
  · exact (Text.sublist_of_splitOnce h).2.cons _
  · cases h

theorem calm_irc {payload : Bytes} (h : PlainLine payload) : (irc payload).Calm := by
  refine calm_bind (calm_layer _) fun _ => calm_firstLine h fun line hline => ?_
  dsimp only
  split
  · next hp =>
      have hrest := hline.of_sublist (sublist_of_ircPrefix hp)
      exact calm_bind (calm_col _) fun _ => calm_pure_bind <|
        calm_bind (calm_splitCommand hrest) fun _ => calm_col _
  · exact calm_pure_bind <| calm_bind (calm_splitCommand hline) fun _ => calm_col _

/-- What follows the priority is a part of the text. -/
theorem syslogPriority_sublist (text : Text) : (syslogPriority text).2.Sublist text := by
  unfold syslogPriority
  split
  · split
    · next hs => exact (Text.sublist_of_splitOnce hs).2.cons _
    · exact List.Sublist.refl _
  · exact List.Sublist.refl _

theorem calm_syslog {payload : Bytes} (h : PlainLine payload) : (syslog payload).Calm := by
  refine calm_bind (calm_layer _) fun _ => calm_firstLine h fun line hline => ?_
  have hmessage : (syslogPriority line).2.trim.Tame 1024 :=
    (hline.of_sublist ((Text.trim_sublist _).trans (syslogPriority_sublist line))).mono (by decide)
  dsimp only
  repeat' with_reducible first
    | intro _ | exact calm_pure _ | exact calm_col _ | exact calm_cap hmessage | apply calm_bind
    | apply calm_ite | split

/-! ### Mail -/

/-- The part of an SMTP message that is looked at is ASCII. -/
def PlainMail (payload : Bytes) : Prop := ∀ x ∈ payload.take 8192, x < 0x80

theorem isAscii_of_mem_lines {payload : Bytes} (h : PlainMail payload) {max : ℕ} {line : Text}
    (hline : line ∈ lines payload max) : IsAscii line :=
  (Text.isAscii_lossy h).of_sublist
    (Text.sublist_of_mem_split (List.mem_filter.mp (List.mem_of_mem_take hline)).1)

/-- A prefix is cut off an ASCII text, whatever has been cut off at its end. -/
theorem calm_stripPrefixCi {t word : Text} (h : IsAscii t) {max : ℕ} (hword : word.utf8Len ≤ max) :
    (liftM (stripPrefixCi (cappedAscii t max) word) : M Text).Calm := by
  have hcut : word.utf8Len ≤ (cappedAscii t max).utf8Len →
      ∃ p, (cappedAscii t max).splitAt? word.utf8Len = some p := by
    unfold cappedAscii
    split
    · intro hle
      rw [Text.utf8Len_of_isAscii h] at hle
      exact ⟨_, Text.splitAt?_of_isAscii h hle⟩
    · next hlong =>
        exact fun _ => ⟨_, Text.splitAt?_append_of_isAscii (h.of_sublist (List.take_sublist _ _)) _
          (by rw [List.length_take]; omega)⟩
  unfold stripPrefixCi
  split
  · next hle =>
      obtain ⟨p, hp⟩ := hcut hle
      rw [Text.splitAt_eq_ok_iff.mpr hp]
      by_cases heq : p.1.eqIgnoreAsciiCase word = true
      · exact calm_liftPanic (if_pos heq)
      · exact calm_liftPanic (if_neg heq)
  · exact calm_liftPanic rfl

/-- The command of an ASCII line, and what it may be cut to. -/
theorem splitCommand_of_isAscii {line : Text} (h : IsAscii line) :
    ∃ cmd arg, splitCommand line = .ok (cmd, arg) ∧ cmd.length ≤ line.length ∧
      ∀ a ∈ arg, ∃ t, IsAscii t ∧ a = cappedAscii t 512 := by
  unfold splitCommand
  cases hs : line.splitOnce ' ' with
  | none =>
      exact ⟨_, none, rfl, (List.length_map _).le, fun a ha => by cases ha⟩
  | some p =>
      obtain ⟨c, a⟩ := p
      obtain ⟨hc, ha⟩ := Text.sublist_of_splitOnce hs
      have htrim := h.of_sublist ((Text.trim_sublist a).trans ha)
      dsimp only
      rw [cap_of_isAscii htrim]
      refine ⟨_, _, rfl, (List.length_map _).trans_le hc.length_le, fun b hb => ?_⟩
      cases hb
      exact ⟨_, htrim, rfl⟩

theorem calm_smtpLine {line : Text} (h : IsAscii line) : (smtpLine line).Calm := by
  have hsubject : 8 ≤ line.length → (do
      let halves ← line.splitAt 8
      let subject ← cap halves.2.trim 512
      col fun c => { c with smtpSubject := some subject } : M Unit).Calm := by
    intro hlen
    have hsplit := Text.splitAt_eq_ok_iff.mpr (Text.splitAt?_of_isAscii h hlen)
    refine calm_cut ⟨_, hsplit, calm_bind (calm_cap (.inl ?_)) fun _ => calm_col _⟩
    exact h.of_sublist ((Text.trim_sublist _).trans (List.drop_sublist _ _))
  refine calm_ite (fun hcode => ?_) fun _ => ?_
  · refine calm_bind calm_cols fun _ => calm_ite (fun _ => ?_) fun _ => calm_pure _
    exact calm_bind (calm_responseCode hcode) fun _ => calm_bind (calm_col _) fun _ =>
      calm_bind (calm_cap (.inl h)) fun _ => calm_col _
  obtain ⟨cmd, arg, hs, hlen, harg⟩ := splitCommand_of_isAscii h
  refine calm_cut ⟨_, hs, ?_⟩
  have hstrip : ∀ word : Text, word.utf8Len ≤ 512 →
      (arg.mapM fun a => (liftM (stripPrefixCi a word) : M Text)).Calm := by
    refine fun word hword => calm_mapM fun a ha => ?_
    obtain ⟨t, ht, rfl⟩ := harg a ha
    exact calm_stripPrefixCi ht hword
  -- the word and its colon are in the line
  have hword : ("SUBJECT:".toList.isPrefixOf cmd ||
      "SUBJECT:".toList.isPrefixOf line.toAsciiUppercase) = true → 8 ≤ line.length := by
    intro hor
    rcases Bool.or_eq_true_iff.mp hor with hpre | hpre
    · exact (List.isPrefixOf_iff_prefix.mp hpre).length_le.trans hlen
    · exact (List.isPrefixOf_iff_prefix.mp hpre).length_le.trans (List.length_map _).le
  dsimp only
  repeat' with_reducible first
    | intro _ | exact calm_pure _ | exact calm_col _ | exact calm_cols
    | exact hstrip _ (by decide) | exact hsubject (hword ‹_›) | apply calm_bind | apply calm_ite

theorem calm_smtp {payload : Bytes} (h : PlainMail payload) : (smtp payload).Calm :=
  calm_bind (calm_layer _) fun _ => calm_forM fun _ hline =>
    calm_smtpLine (isAscii_of_mem_lines h hline)

/-! ### Chat, shell and remote desktops -/

theorem calm_vnc {payload : Bytes} (h : PlainLine payload) : (vnc payload).Calm := by
  refine calm_bind (calm_layer _) fun _ => calm_ite (fun _ => ?_) fun _ => calm_pure _
  exact calm_firstLine h fun _ _ => calm_col _

theorem calm_telnet (payload : Bytes) : (telnet payload).Calm :=
  calm_bind (calm_layer _) fun _ => calm_ite (fun _ => calm_col _) fun _ => calm_pure _

end AppText

namespace AppHttp

open Text (IsAscii Tame)

/-! ### HTTP/1 -/

/-- The head of a message is ASCII or short. -/
def PlainHead (payload : Bytes) : Prop := (headAndBody payload).1.Plain 1024

theorem calm_requestUri {uri : Text} (h : uri.Tame 1024) : (requestUri uri).Calm := by
  refine calm_bind (calm_cap (h.mono (by decide))) fun _ => calm_bind (calm_col _) fun _ => ?_
  split
  · next hs =>
      obtain ⟨hp, hq⟩ := Text.sublist_of_splitOnce hs
      exact calm_bind (calm_cap (h.of_sublist hp)) fun _ => calm_bind (calm_col _) fun _ =>
        calm_bind (calm_cap (h.of_sublist hq)) fun _ => calm_col _
  · exact calm_bind (calm_cap h) fun _ => calm_col _

theorem calm_startLine {first : Text} (h : first.Tame 1024) : (startLine first).Calm := by
  have huri : ∀ {uri : Text}, (first.splitn ' ' 3)[1]? = some uri → (requestUri uri).Calm :=
    fun hu => calm_requestUri (h.of_sublist (Text.sublist_of_splitn hu))
  unfold startLine statusLine requestLine
  dsimp only
  repeat' with_reducible first
    | intro _ | exact calm_pure _ | exact calm_col _ | exact calm_giveUp _ | exact huri ‹_›
    | apply calm_bind | apply calm_ite | split

theorem calm_setHeader (lower : Text) {value : Text} (h : value.Tame 1024) :
    (setHeader lower value).Calm := by
  refine calm_ite (fun _ => calm_col _) fun _ => ?_
  split
  · exact calm_bind (calm_cap h) fun _ => calm_col _
  · exact calm_pure _

/-- The names of header lines. -/
def fieldNames (lines : List Text) : List Text :=
  lines.filterMap fun line => (headerField line).map fun p => p.1.toAsciiLowercase

/-- The names and the values of a line are parts of it; a colon stands between them. -/
theorem parts_of_headerField {line name value : Text} (h : headerField line = some (name, value)) :
    name.Sublist line ∧ value.Sublist line ∧ name.utf8Len + 1 ≤ line.utf8Len := by
  obtain ⟨⟨a, b⟩, hs, hp⟩ := Option.map_eq_some_iff.mp h
  cases hp
  obtain ⟨ha, hb⟩ := Text.sublist_of_splitOnce hs
  refine ⟨(Text.trim_sublist a).trans ha, (Text.trim_sublist b).trans hb, ?_⟩
  have hname := Text.utf8Len_le_of_sublist (Text.trim_sublist a)
  have hcolon : (':' : Char).utf8Size = 1 := by decide
  rw [Text.eq_of_splitOnce hs, Text.utf8Len_append, Text.utf8Len_cons, hcolon]
  dsimp only
  omega

/-- The header lines, and what is done with their names. -/
theorem calm_headers {lines names : List Text} {count : UInt16} {f : List Text × UInt16 → M Unit}
    (h : ∀ line ∈ lines, line.Tame 1024)
    (hf : ∀ count, (f (names ++ fieldNames lines, count)).Calm) :
    (headers lines names count >>= f).Calm := by
  induction lines generalizing names count with
  | nil =>
      have hcount := hf count
      rw [show fieldNames [] = [] from rfl, List.append_nil] at hcount
      exact calm_pure_bind hcount
  | cons line rest ih =>
      have hrest : ∀ l ∈ rest, l.Tame 1024 := fun l hl => h l (List.mem_cons_of_mem _ hl)
      rw [headers]
      cases hl : headerField line with
      | none =>
          rw [show fieldNames (line :: rest) = fieldNames rest from
            List.filterMap_cons_none (by rw [hl]; rfl)] at hf
          exact ih hrest hf
      | some p =>
          obtain ⟨name, value⟩ := p
          obtain ⟨-, hvalue, -⟩ := parts_of_headerField hl
          rw [show fieldNames (line :: rest) = name.toAsciiLowercase :: fieldNames rest from
            List.filterMap_cons_some (by rw [hl]; rfl)] at hf
          dsimp only
          rw [bind_assoc]
          refine calm_bind (calm_setHeader _ ((h line List.mem_cons_self).of_sublist hvalue))
            fun _ => ih hrest fun count => ?_
          rw [List.append_assoc]
          exact hf count

theorem sum_fieldNames_le (lines : List Text) :
    ((fieldNames lines).map fun t => t.utf8Len + 1).sum ≤ Text.utf8Len lines.flatten := by
  induction lines with
  | nil => exact Nat.le_refl _
  | cons line rest ih =>
      rw [List.flatten_cons, Text.utf8Len_append]
      cases hl : headerField line with
      | none =>
          rw [show fieldNames (line :: rest) = fieldNames rest from
            List.filterMap_cons_none (by rw [hl]; rfl)]
          omega
      | some p =>
          obtain ⟨-, -, hlen⟩ := parts_of_headerField hl
          rw [show fieldNames (line :: rest) = p.1.toAsciiLowercase :: fieldNames rest from
            List.filterMap_cons_some (by rw [hl]; rfl), List.map_cons, List.sum_cons,
            Text.utf8Len_toAsciiLowercase]
          omega

/-- **The names of header lines** are ASCII, or no longer than the lines. -/
theorem tame_join_fieldNames {s : Text} {lines : List Text} {max : ℕ} (h : s.Tame max)
    (hlines : lines.flatten.Sublist s) : (Text.join [','] (fieldNames lines)).Tame max := by
  rcases h with hascii | hshort
  · refine .inl (Text.isAscii_join (Text.isAscii_singleton (by decide)) fun name hname => ?_)
    obtain ⟨line, hline, hn⟩ := List.mem_filterMap.mp hname
    obtain ⟨p, hp, rfl⟩ := Option.map_eq_some_iff.mp hn
    exact Text.isAscii_toAsciiLowercase ((hascii.of_sublist hlines).of_sublist
      ((parts_of_headerField hp).1.trans (List.sublist_flatten_of_mem hline)))
  · exact .inr ((Text.utf8Len_join_le _).trans ((sum_fieldNames_le lines).trans
      ((Text.utf8Len_le_of_sublist hlines).trans hshort)))

theorem calm_parse {payload : Bytes} (h : PlainHead payload) : (parse payload).Calm := by
  refine calm_bind (calm_layer _) fun _ => ?_
  have hlines : (headLines (headAndBody payload).1).flatten.Sublist
      (Text.lossy (headAndBody payload).1) :=
    List.Sublist.trans List.filter_sublist.flatten (Text.flatten_splitCrlf_sublist _)
  dsimp only
  split
  · exact calm_giveUp _
  · next first rest hhead =>
      rw [hhead, List.flatten_cons] at hlines
      have hfirst := h.lossy.of_sublist ((List.sublist_append_left _ _).trans hlines)
      have hrest := (List.sublist_append_right first _).trans hlines
      have hnames := tame_join_fieldNames h.lossy hrest
      refine calm_bind (calm_startLine hfirst) fun _ => calm_headers (fun line hline =>
        h.lossy.of_sublist ((List.sublist_flatten_of_mem hline).trans hrest)) fun count => ?_
      rw [List.nil_append]
      dsimp only
      repeat' with_reducible first
        | intro _ | exact calm_pure _ | exact calm_col _ | exact calm_cap hnames
        | apply calm_bind | apply calm_ite

/-! ### HTTP/2 -/

/-- A string literal has fewer than 128 bytes. -/
theorem tame_of_readString {c c' : Cur} {v : Text} (h : readString c = some (v, c')) :
    v.Tame 1024 := by
  unfold readString at h
  simp only [Option.bind_eq_bind, Option.bind_eq_some_iff] at h
  obtain ⟨⟨b, c₁⟩, -, h⟩ := h
  dsimp only at h
  split at h
  · cases h
  · obtain ⟨⟨raw, c₂⟩, htake, h⟩ := Option.bind_eq_some_iff.mp h
    have hlen : raw.length ≤ 127 := by
      cases ht : c₁.take (b &&& 0x7f).toNat with
      | error e =>
          rw [ht] at htake
          cases htake
      | ok r =>
          rw [ht] at htake
          cases htake
          obtain ⟨hn, hr⟩ := Cur.take_eq_ok_iff.mp ht
          have hraw : raw = c₁.rest.take (b &&& 0x7f).toNat := (Prod.ext_iff.mp hr).1
          rw [hraw, List.length_take, UInt8.toNat_and]
          exact (Nat.min_le_left _ _).trans Nat.and_le_right
    dsimp only at h
    split at h
    · cases h
      exact .inr (Nat.zero_le _)
    · cases h
      exact .inr ((Text.utf8Len_lossy_le raw).trans (by omega))

theorem tame_of_staticEntry {i : UInt8} {name value : Text}
    (h : staticEntry i = some (name, value)) : value.Tame 1024 := by
  unfold staticEntry at h
  split at h <;> cases h <;> exact .inr (by decide)

theorem calm_setPseudo (name : Text) {value : Text} (h : value.Tame 1024) :
    (setPseudo name value).Calm := by
  refine calm_ite (fun _ => calm_bind (calm_cap h) fun _ => ?_) fun _ => calm_pure _
  repeat' with_reducible first
    | intro _ | exact calm_pure _ | exact calm_col _ | apply calm_ite

theorem calm_decodeHeaders (guard : ℕ) (c : Cur) : (decodeHeaders guard c).Calm := by
  induction guard generalizing c with
  | zero => exact calm_pure _
  | succ guard ih =>
      unfold decodeHeaders
      dsimp only
      repeat' with_reducible first
        | intro _ | exact calm_pure _ | exact ih _
        | exact calm_setPseudo _ (tame_of_readString ‹_›)
        | exact calm_setPseudo _ (tame_of_staticEntry ‹_›)
        | apply calm_bind | apply calm_ite | split

theorem calm_h2Frames (guard : ℕ) (c : Cur) : (h2Frames guard c).Calm := by
  induction guard generalizing c with
  | zero => exact calm_pure _
  | succ guard ih =>
      unfold h2Frames
      dsimp only
      repeat' with_reducible first
        | intro _ | exact calm_pure _ | exact calm_col _ | exact calm_cols | exact ih _
        | exact calm_decodeHeaders _ _ | exact calm_liftError _ | apply calm_bind | apply calm_ite

/-- **Every payload is dissected calmly as HTTP/2.** -/
theorem calm_parseH2 (payload : Bytes) : (parseH2 payload).Calm := by
  refine calm_bind (calm_layer _) fun _ => ?_
  dsimp only
  repeat' with_reducible first
    | intro _ | exact calm_pure _ | exact calm_h2Frames _ _ | exact calm_liftError _
    | apply calm_bind | apply calm_ite

end AppHttp

namespace AppSip

/-! ### SIP -/

/-- The part of a message that is looked at is ASCII or short. -/
def PlainMessage (payload : Bytes) : Prop := Bytes.Plain (payload.take 8192) 512

theorem calm_header (name v : Text) : (header name v).Calm := by
  unfold header
  repeat' with_reducible first
    | intro _ | exact calm_pure _ | exact calm_col _ | apply calm_ite

theorem calm_headerLoop {lines : List Text} (h : ∀ line ∈ lines, line.Tame 512) :
    (headerLoop lines).Calm := by
  induction lines with
  | nil => exact calm_pure _
  | cons line lines ih =>
      have hrest := ih fun l hl => h l (List.mem_cons_of_mem _ hl)
      refine calm_ite (fun _ => calm_pure _) fun _ => ?_
      split
      · exact hrest
      · next hs =>
          have hv := (h line List.mem_cons_self).of_sublist
            ((Text.trim_sublist _).trans (Text.sublist_of_splitOnce hs).2)
          exact calm_bind (calm_cap hv) fun _ => calm_bind (calm_header _ _) fun _ => hrest

theorem calm_parse {payload : Bytes} (h : PlainMessage payload) : (parse payload).Calm := by
  have hline : ∀ line ∈ (Text.lossy (payload.take 8192)).splitCrlf, line.Tame 512 :=
    fun line hl => h.lossy.of_sublist (Text.sublist_of_mem_splitCrlf hl)
  have hfirst : ((Text.lossy (payload.take 8192)).splitCrlf.headD []).Tame 512 := by
    cases hs : (Text.lossy (payload.take 8192)).splitCrlf with
    | nil => exact .inr (Nat.zero_le _)
    | cons l ls => exact hline l (by rw [hs]; exact List.mem_cons_self)
  have htail : (headerLoop (Text.lossy (payload.take 8192)).splitCrlf.tail).Calm :=
    calm_headerLoop fun line hl => hline line (List.mem_of_mem_tail hl)
  refine calm_bind (calm_layer _) fun _ => ?_
  dsimp only
  repeat' with_reducible first
    | intro _ | exact calm_pure _ | exact calm_col _ | exact calm_giveUp _ | exact htail
    | exact calm_cap (hfirst.of_sublist (Text.sublist_of_splitn ‹_›)) | apply calm_mapM
    | apply calm_bind | apply calm_ite

end AppSip

namespace AppSsh

variable [Hashes]

/-! ### SSH -/

/-- The name-lists of a KEXINIT packet, if this is one. -/
def keyLists (packet : Bytes) : Except DissectError (List Text) := do
  let (_, c) ← (Cur.new packet).be32
  let (_, c) ← c.u8
  let (_, c) ← c.u8
  let c ← c.skip 16
  pure (nameLists 10 c)

/-- The name-lists are ASCII or short. -/
def PlainLists (packet : Bytes) : Prop :=
  ∀ lists, keyLists packet = .ok lists → ∀ l ∈ lists, l.Tame 256

/-- The banner and the name-lists are ASCII or short. -/
def PlainNames (payload : Bytes) : Prop :=
  if looksLikeSsh payload then
    let lineEnd := (payload.findIdx? isEol).getD (min payload.length 255)
    Bytes.Plain (payload.take lineEnd) 256 ∧
      PlainLists ((payload.drop lineEnd).dropWhile isEol)
  else PlainLists payload

theorem calm_kexinit {lists : List Text} (h : ∀ l ∈ lists, l.Tame 256) (isServer : Bool) :
    (kexinit lists isServer).Calm := by
  have hlist : ∀ (i max : ℕ), 256 ≤ max → (lists[i]?.getD []).Tame max := by
    intro i max hmax
    cases hl : lists[i]? with
    | none => exact .inr (Nat.zero_le _)
    | some l => exact (h l (List.mem_of_getElem? hl)).mono hmax
  unfold kexinit
  dsimp only
  repeat' with_reducible first
    | intro _ | exact calm_col _ | exact calm_cap (hlist _ _ (by decide)) | apply calm_bind
    | apply calm_ite

theorem calm_binary {packet : Bytes} (h : PlainLists packet) (isServer : Bool) :
    (binary packet isServer).Calm := by
  refine calm_ite (fun _ => calm_pure _) fun _ => calm_read fun r₁ h₁ => calm_read fun r₂ h₂ => ?_
  refine calm_ite (fun _ => calm_pure _) fun _ => calm_read fun r₃ h₃ => ?_
  refine calm_bind (calm_col _) fun _ => calm_ite (fun _ => calm_pure _) fun _ => ?_
  refine calm_read fun c₄ h₄ => calm_ite (fun _ => calm_pure _) fun _ => calm_kexinit (h _ ?_) _
  exact (bind_of_ok h₁ _).trans <| (bind_of_ok h₂ _).trans <| (bind_of_ok h₃ _).trans <|
    bind_of_ok h₄ _

theorem calm_parse {payload : Bytes} (h : PlainNames payload) (isServer : Bool) :
    (parse payload isServer).Calm := by
  refine calm_bind (calm_layer _) fun _ => ?_
  unfold PlainNames at h
  by_cases hbanner : looksLikeSsh payload = true
  · rw [if_pos hbanner] at h
    dsimp only at h
    have hsoft : ∀ {t : Text}, ((Text.lossy (payload.take
        ((payload.findIdx? isEol).getD (min payload.length 255)))).splitn '-' 3)[2]? = some t →
          t.Tame 256 := fun ht => h.1.lossy.of_sublist (Text.sublist_of_splitn ht)
    rw [if_pos hbanner]
    dsimp only
    repeat' with_reducible first
      | intro _ | exact calm_pure _ | exact calm_col _ | exact calm_cap (hsoft ‹_›)
      | exact calm_binary h.2 _ | apply calm_mapM | apply calm_bind | apply calm_ite
  · rw [if_neg hbanner] at h ⊢
    exact calm_binary h isServer

end AppSsh

end PcapRacer
