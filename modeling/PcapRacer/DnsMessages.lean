/-
**DNS messages and their records.**

A message holds questions, and records in three sections.  Where the source keeps to its own limits
of eight questions and sixty-four records, reading a message gives back what was put into it.

Main definitions:

* `InRow` — things that stand one behind the other;
* `Message`, `Message.LaidIn` — a message, and the bytes that hold it;
* `Record.tells` — what a record says;
* `Message.Told` — the columns say what the message says.

Main results:

* `Record.answerRecord_eq` — **what is read of a record is what it says**;
* `visits_of_inRow` — the walk goes through the records of the message;
* `parse_message` — **reading a message gives back what it says**.
-/

import PcapRacer.DnsReport

set_option relaxedAutoImplicit false
set_option autoImplicit false

namespace PcapRacer

/-! ### One behind the other -/

/-- Things that stand one behind the other, each from one position to the next. -/
inductive InRow {α : Type} (At : ℕ → α → ℕ → Prop) : ℕ → List α → ℕ → Prop
  | nil (pos : ℕ) : InRow At pos [] pos
  | cons {pos mid next : ℕ} {a : α} {as : List α} (h : At pos a mid) :
      InRow At mid as next → InRow At pos (a :: as) next

namespace InRow

variable {α : Type} {At : ℕ → α → ℕ → Prop} {pos next : ℕ} {as : List α}

theorem exists_split (h : InRow At pos as next) (n : ℕ) :
    ∃ mid, InRow At pos (as.take n) mid ∧ InRow At mid (as.drop n) next := by
  induction h generalizing n with
  | nil pos => exact ⟨pos, by simpa using .nil pos, by simpa using .nil pos⟩
  | @cons pos mid next a as h hrest ih =>
      cases n with
      | zero => exact ⟨pos, .nil pos, .cons h hrest⟩
      | succ n =>
          obtain ⟨stop, htake, hdrop⟩ := ih n
          exact ⟨stop, .cons h htake, hdrop⟩

theorem exists_at (h : InRow At pos as next) {a : α} (ha : a ∈ as) : ∃ p q, At p a q := by
  induction h with
  | nil pos => exact absurd ha List.not_mem_nil
  | cons h _ ih =>
      obtain rfl | ha := List.mem_cons.mp ha
      · exact ⟨_, _, h⟩
      · exact ih ha

theorem le (h : InRow At pos as next) (hle : ∀ p a q, At p a q → p ≤ q) : pos ≤ next := by
  induction h with
  | nil pos => exact Nat.le_refl pos
  | cons h _ ih => exact (hle _ _ _ h).trans ih

end InRow

namespace AppDns

/-! ### Messages -/

/-- A name that stands from `pos` to `next`, prints, and can be decoded. -/
structure NameAt (msg : Bytes) (pos : ℕ) (labels : List Bytes) (next : ℕ) : Prop where
  encodes : ∃ k, Encodes msg pos labels k
  spelled : Spelled labels
  inPlace : InPlace msg pos next
  decodes : ∃ r, readName msg pos = .ok r

/-- A question. -/
structure Question where
  name : List Bytes
  qtype : UInt16
  qclass : UInt16

/-- The data of a record. -/
inductive RecordData
  | a (address : UInt32)
  | aaaa (address : BitVec 128)
  | cname (target : List Bytes)
  | ns (target : List Bytes)
  | ptr (target : List Bytes)
  | mx (preference : UInt16) (target : List Bytes)
  | txt (strings : List Bytes)
  | srv (priority weight port : UInt16) (target : List Bytes)
  | opt (options : Bytes)
  | unknown (rtype : UInt16) (data : Bytes)

/-- The type field of a record with such data. -/
def RecordData.rtype : RecordData → UInt16
  | a _ => 1
  | aaaa _ => 28
  | cname _ => 5
  | ns _ => 2
  | ptr _ => 12
  | mx _ _ => 15
  | txt _ => 16
  | srv _ _ _ _ => 33
  | opt _ => 41
  | unknown rtype _ => rtype

/-- A resource record. -/
structure Record where
  name : List Bytes
  rclass : UInt16
  ttl : UInt32
  data : RecordData

/-- A message: its questions, and its records section by section. -/
structure Message where
  questions : List Question
  answers : List Record
  authority : List Record
  additional : List Record

/-- The records in their order. -/
def Message.records (m : Message) : List Record := m.answers ++ m.authority ++ m.additional

/-- The strings of TXT data, as they stand in it. -/
def stringBytes (strings : List Bytes) : Bytes :=
  strings.flatMap fun s => UInt8.ofNat s.length :: s

/-- The data that stand at `pos`, `rdlen` bytes of them. -/
def DataAt (msg : Bytes) (pos rdlen : ℕ) : RecordData → Prop
  | .a address => rdlen = 4 ∧ UInt32.ofNat (beNat ((msg.drop pos).take 4)) = address
  | .aaaa address => rdlen = 16 ∧ BitVec.ofNat 128 (beNat ((msg.drop pos).take 16)) = address
  | .cname target => NameAt msg pos target (pos + rdlen)
  | .ns target => NameAt msg pos target (pos + rdlen)
  | .ptr target => NameAt msg pos target (pos + rdlen)
  | .mx preference target =>
      u16At msg pos = preference ∧ NameAt msg (pos + 2) target (pos + rdlen)
  | .txt strings =>
      (msg.drop pos).take rdlen = stringBytes strings ∧
        ∀ s ∈ strings, s.length < 256 ∧ ∀ b ∈ s, b < 0x80
  | .srv priority weight port target =>
      u16At msg pos = priority ∧ u16At msg (pos + 2) = weight ∧ u16At msg (pos + 4) = port ∧
        NameAt msg (pos + 6) target (pos + rdlen)
  | .opt options => (msg.drop pos).take rdlen = options
  | .unknown rtype data =>
      (msg.drop pos).take rdlen = data ∧ rtype ∉ [1, 2, 5, 12, 15, 16, 28, 33, 41]

/-- The question that stands from `pos` to `next`. -/
def QuestionAt (msg : Bytes) (pos : ℕ) (q : Question) (next : ℕ) : Prop :=
  ∃ stop, NameAt msg pos q.name stop ∧ u16At msg stop = q.qtype ∧
    u16At msg (stop + 2) = q.qclass ∧ stop + 4 = next ∧ next ≤ msg.length

/-- The record that stands from `pos` to `next`. -/
def RecordStands (msg : Bytes) (pos : ℕ) (r : Record) (next : ℕ) : Prop :=
  ∃ stop, NameAt msg pos r.name stop ∧ u16At msg stop = r.data.rtype ∧
    u16At msg (stop + 2) = r.rclass ∧
    UInt32.ofNat (beNat ((msg.drop (stop + 4)).take 4)) = r.ttl ∧
    DataAt msg (stop + 10) (u16At msg (stop + 8)).toNat r.data ∧
    stop + 10 + (u16At msg (stop + 8)).toNat = next ∧ next ≤ msg.length

/-- The bytes hold the message: a header with its counts, its questions and its records. -/
structure Message.LaidIn (m : Message) (msg : Bytes) : Prop where
  header : 12 ≤ msg.length
  qdcount : (u16At msg 4).toNat = m.questions.length
  ancount : (u16At msg 6).toNat = m.answers.length
  nscount : (u16At msg 8).toNat = m.authority.length
  arcount : (u16At msg 10).toNat = m.additional.length
  body : ∃ mid next, InRow (QuestionAt msg) 12 m.questions mid ∧
    InRow (RecordStands msg) mid m.records next

/-! ### What a message says -/

/-- What a record says: its lines in the answer columns, and its values. -/
def Record.tells (r : Record) : Answers :=
  let line (kind : String) (target : Text) : Text := answerText (dotted r.name) kind target
  match r.data with
  | .a address =>
      { answers := [line "A" (IpAddr.textV4 address)], ips := [IpAddr.textV4 address] }
  | .aaaa address =>
      { answers := [line "AAAA" (IpAddr.textV6 address)], ips := [IpAddr.textV6 address] }
  | .cname target => { answers := [line "CNAME" (dotted target)], cnames := [dotted target] }
  | .ns target => { answers := [line "NS" (dotted target)], nsNames := [dotted target] }
  | .ptr target => { answers := [line "PTR" (dotted target)] }
  | .mx _ target => { answers := [line "MX" (dotted target)], mxNames := [dotted target] }
  | .txt strings => { txts := strings.map Text.ofAscii }
  | .srv _ _ _ target => { answers := [line "SRV" (dotted target)] }
  | .opt _ => {}
  | .unknown _ _ => {}

/-- A list column: the values joined, when they fit, and as before when there are none. -/
def Joined (items : List Text) (sep : String) (max : ℕ) (before after : Option Text) : Prop :=
  (Text.join sep.toList items).length ≤ max →
    after = if items = [] then before else some (Text.join sep.toList items)

/-- The columns say what the message says. -/
structure Message.Told (m : Message) (c c' : DnsCols) : Prop where
  question : ∀ q, m.questions.head? = some q →
    c'.dnsQname = some (dotted q.name) ∧ c'.dnsQtype = some q.qtype ∧ c'.dnsQclass = some q.qclass
  answers : Joined (m.records.flatMap fun r => r.tells.answers) "; " 2048 c.dnsAnswers c'.dnsAnswers
  ips : Joined (m.records.flatMap fun r => r.tells.ips) "," 1024 c.dnsAnswerIps c'.dnsAnswerIps
  cnames : Joined (m.records.flatMap fun r => r.tells.cnames) "," 1024 c.dnsCnames c'.dnsCnames
  nsNames : Joined (m.records.flatMap fun r => r.tells.nsNames) "," 512 c.dnsNsNames c'.dnsNsNames
  mxNames : Joined (m.records.flatMap fun r => r.tells.mxNames) "," 512 c.dnsMxNames c'.dnsMxNames
  txts : Joined (m.records.flatMap fun r => r.tells.txts) " | " 2048 c.dnsTxtData c'.dnsTxtData
  ttlMin : c'.dnsTtlMin = ((m.records.filter fun r => r.data.rtype ≠ 41).map Record.ttl).min?

/-! ### Reading names and records -/

section Reading

variable {msg : Bytes} {pos next : ℕ}

theorem NameAt.read {labels : List Bytes} (h : NameAt msg pos labels next) :
    readName msg pos = .ok (dotted labels, next) := by
  obtain ⟨k, henc⟩ := h.encodes
  obtain ⟨⟨name, stop⟩, hok⟩ := h.decodes
  obtain rfl := readName_encoded henc h.spelled hok
  obtain rfl : stop = next := h.inPlace.unique (fun _ _ _ => rfl) (nameLoop_inPlace hok)
  exact hok

theorem NameAt.lt {labels : List Bytes} (h : NameAt msg pos labels next) : pos < next :=
  h.inPlace.lt

/-- The strings of TXT data are read back. -/
theorem txtStrings_stringBytes {strings : List Bytes}
    (h : ∀ s ∈ strings, s.length < 256 ∧ ∀ b ∈ s, b < 0x80) {c : Cur}
    (hc : c.rest = stringBytes strings) {fuel : ℕ} (hfuel : strings.length ≤ fuel) :
    txtStrings fuel c = strings.map Text.ofAscii := by
  induction strings generalizing c fuel with
  | nil =>
      cases fuel with
      | zero => rfl
      | succ fuel => rw [txtStrings, Cur.u8_of_rest_nil hc, List.map_nil]
  | cons s strings ih =>
      obtain ⟨hlen, hascii⟩ := h s List.mem_cons_self
      cases fuel with
      | zero => exact absurd hfuel (Nat.not_succ_le_zero _)
      | succ fuel =>
          have hnat : (UInt8.ofNat s.length).toNat = s.length := UInt8.toNat_ofNat_of_lt' hlen
          have hrest : c.rest = UInt8.ofNat s.length :: (s ++ stringBytes strings) := by
            rw [hc, stringBytes, List.flatMap_cons]
            rfl
          obtain ⟨c₁, hlenByte, hrest₁⟩ := Cur.exists_u8 hrest
          obtain ⟨c₂, htake, hrest₂⟩ := Cur.exists_take hrest₁ hnat
          rw [txtStrings, hlenByte]
          dsimp only
          rw [htake]
          dsimp only
          rw [Text.lossy_eq_ofAscii hascii, List.map_cons,
            ih (fun t ht => h t (List.mem_cons_of_mem s ht)) hrest₂ (Nat.le_of_succ_le_succ hfuel)]

theorem length_le_stringBytes (strings : List Bytes) :
    strings.length ≤ (stringBytes strings).length := by
  induction strings with
  | nil => exact Nat.le_refl _
  | cons s strings ih =>
      rw [stringBytes, List.flatMap_cons, List.length_append, List.length_cons, List.length_cons]
      rw [stringBytes] at ih
      omega

/-- Other types of records say nothing. -/
theorem answerRecord_unknown {rtype : UInt16} (h : rtype ∉ [1, 2, 5, 12, 15, 16, 28, 33, 41])
    (a : Answers) (name : Text) (rdlen : ℕ) : answerRecord msg a name rtype pos rdlen = a := by
  have hne : ∀ n, UInt16.ofNat n ∈ ([1, 2, 5, 12, 15, 16, 28, 33, 41] : List UInt16) →
      rtype.toNat ≠ n := by
    rintro n hn rfl
    rw [UInt16.ofNat_toNat] at hn
    exact h hn
  unfold answerRecord
  dsimp only
  split
  · next hn => exact absurd hn (hne 1 (by decide))
  · next hn => exact absurd hn (hne 28 (by decide))
  · next hn => exact absurd hn (hne 5 (by decide))
  · next hn => exact absurd hn (hne 2 (by decide))
  · next hn => exact absurd hn (hne 12 (by decide))
  · next hn => exact absurd hn (hne 15 (by decide))
  · next hn => exact absurd hn (hne 16 (by decide))
  · next hn => exact absurd hn (hne 33 (by decide))
  · rfl

/-- **What is read of a record is what it says.** -/
theorem Record.answerRecord_eq (r : Record) {rdlen : ℕ} (h : DataAt msg pos rdlen r.data) :
    answerRecord msg {} (dotted r.name) r.data.rtype pos rdlen = r.tells := by
  obtain ⟨name, rclass, ttl, data⟩ := r
  cases data with
  | a address =>
      obtain ⟨rfl, rfl⟩ := h
      rfl
  | aaaa address =>
      obtain ⟨rfl, rfl⟩ := h
      rfl
  | cname target => simp [answerRecord, RecordData.rtype, Record.tells, NameAt.read h]
  | ns target => simp [answerRecord, RecordData.rtype, Record.tells, NameAt.read h]
  | ptr target => simp [answerRecord, RecordData.rtype, Record.tells, NameAt.read h]
  | mx preference target =>
      have hlen : 2 < rdlen := by
        have hlt := h.2.lt
        omega
      simp [answerRecord, RecordData.rtype, Record.tells, hlen, NameAt.read h.2]
  | txt strings =>
      obtain ⟨hbytes, hascii⟩ := h
      have htexts : txtStrings (stringBytes strings).length (Cur.new (stringBytes strings)) =
          strings.map Text.ofAscii :=
        txtStrings_stringBytes hascii rfl (length_le_stringBytes strings)
      simp [answerRecord, RecordData.rtype, Record.tells, hbytes, htexts]
  | srv priority weight port target =>
      obtain ⟨-, -, -, hname⟩ := h
      have hlen : 6 < rdlen := by
        have hlt := hname.lt
        omega
      simp [answerRecord, RecordData.rtype, Record.tells, hlen, hname.read]
  | opt options => rfl
  | unknown rtype data => exact answerRecord_unknown h.2 {} _ _

end Reading

section Sections

variable {msg : Bytes} {pos next : ℕ}

theorem recordAt_of_stands {r : Record} (h : RecordStands msg pos r next) :
    ∃ v, recordAt msg pos = some v ∧ v.stop = next ∧
      (v.rtype, v.ttl, told msg v) = (r.data.rtype, r.ttl, r.tells) := by
  obtain ⟨stop, hname, htype, -, httl, hdata, rfl, hle⟩ := h
  refine ⟨_, recordAt_of_read hname.read hle, rfl, ?_⟩
  have htold := r.answerRecord_eq hdata
  rw [← htype] at htold
  exact Prod.ext htype (Prod.ext httl htold)

/-- **The records that are come to are those of the message.** -/
theorem visits_of_inRow {rs : List Record} (h : InRow (RecordStands msg) pos rs next) :
    (visits msg rs.length pos).map (fun v => (v.rtype, v.ttl, told msg v)) =
      rs.map fun r => (r.data.rtype, r.ttl, r.tells) := by
  induction h with
  | nil pos => rfl
  | cons h _ ih =>
      obtain ⟨v, hv, rfl, hseen⟩ := recordAt_of_stands h
      rw [List.length_cons, visits, hv, List.map_cons, List.map_cons, hseen, ← ih]

theorem questionAt_of_stands {q : Question} (h : QuestionAt msg pos q next) :
    questionAt msg pos =
      .ok ({ name := dotted q.name, qtype := q.qtype, qclass := q.qclass }, next) := by
  obtain ⟨stop, hname, htype, hclass, rfl, hle⟩ := h
  rw [questionAt_of_read hname.read hle, htype, hclass]

theorem questionsEnd_of_inRow {qs : List Question} (h : InRow (QuestionAt msg) pos qs next) :
    questionsEnd msg qs.length pos = .ok next := by
  induction h with
  | nil pos => rfl
  | cons h _ ih =>
      rw [List.length_cons, questionsEnd, questionAt_of_stands h]
      exact ih

theorem writeFirst_of_inRow {qs : List Question} (h : InRow (QuestionAt msg) pos qs next)
    (c : DnsCols) {q : Question} (hq : qs.head? = some q) :
    (writeFirst msg qs.length pos c).dnsQname = some (dotted q.name) ∧
      (writeFirst msg qs.length pos c).dnsQtype = some q.qtype ∧
      (writeFirst msg qs.length pos c).dnsQclass = some q.qclass := by
  cases h with
  | nil => cases hq
  | cons h _ =>
      cases hq
      rw [List.length_cons, writeFirst, questionAt_of_stands h]
      exact ⟨rfl, rfl, rfl⟩

end Sections

/-! ### ASCII columns -/

theorem isAscii_dotted {labels : List Bytes} (h : Spelled labels) :
    Text.IsAscii (dotted labels) := by
  refine Text.isAscii_join (Text.isAscii_singleton rfl) fun p hp => ?_
  obtain ⟨l, hl, rfl⟩ := List.mem_map.mp hp
  refine Text.isAscii_ofAscii fun b hb => ?_
  have hprint := (h l hl).2 b hb
  rw [isPrintable, Bool.and_eq_true, decide_eq_true_eq, decide_eq_true_eq] at hprint
  have hlt : b.toNat < 127 := hprint.2
  exact UInt8.lt_iff_toNat_lt.mpr (Nat.lt_succ_of_lt hlt)

theorem isAscii_textV4 (a : UInt32) : Text.IsAscii (IpAddr.textV4 a) := by
  refine Text.isAscii_join (Text.isAscii_singleton rfl) fun p hp => ?_
  obtain ⟨x, -, rfl⟩ := List.mem_map.mp hp
  exact Text.isAscii_decimal _

theorem isAscii_append {s t : Text} (hs : Text.IsAscii s) (ht : Text.IsAscii t) :
    Text.IsAscii (s ++ t) := fun c hc => (List.mem_append.mp hc).elim (hs c) (ht c)

theorem isAscii_textV6 (a : BitVec 128) : Text.IsAscii (IpAddr.textV6 a) := by
  have hgroups : ∀ l : List ℕ,
      Text.IsAscii (Text.join [':'] (l.map fun n => Nat.toDigits 16 n)) := by
    intro l
    refine Text.isAscii_join (Text.isAscii_singleton rfl) fun p hp => ?_
    obtain ⟨n, -, rfl⟩ := List.mem_map.mp hp
    exact Text.isAscii_toDigits (by decide) n
  have hcolons : Text.IsAscii "::".toList := Text.isAscii_of_all rfl
  have hmapped : Text.IsAscii "::ffff:".toList := Text.isAscii_of_all rfl
  unfold IpAddr.textV6
  dsimp only
  split
  · exact isAscii_append hmapped (isAscii_textV4 _)
  · split
    · exact isAscii_append (isAscii_append (hgroups _) hcolons) (hgroups _)
    · exact hgroups _

theorem isAscii_answerText {name target : Text} {kind : String} (hname : Text.IsAscii name)
    (hkind : Text.IsAscii kind.toList) (htarget : Text.IsAscii target) :
    Text.IsAscii (answerText name kind target) :=
  isAscii_append (isAscii_append (isAscii_append (isAscii_append hname
    (Text.isAscii_singleton rfl)) hkind) (Text.isAscii_singleton rfl)) htarget

/-- All texts of the lists. -/
def Answers.texts (a : Answers) : List Text :=
  a.answers ++ (a.ips ++ (a.cnames ++ (a.nsNames ++ (a.mxNames ++ a.txts))))

/-- What a record says is ASCII. -/
theorem Record.isAscii_tells {msg : Bytes} {pos rdlen : ℕ} (r : Record) (hname : Spelled r.name)
    (h : DataAt msg pos rdlen r.data) : ∀ t ∈ r.tells.texts, Text.IsAscii t := by
  have hline : ∀ (kind : String) (target : Text), Text.IsAscii kind.toList →
      Text.IsAscii target → Text.IsAscii (answerText (dotted r.name) kind target) :=
    fun kind target hkind => isAscii_answerText (isAscii_dotted hname) hkind
  obtain ⟨name, rclass, ttl, data⟩ := r
  intro t ht
  cases data with
  | a address =>
      obtain rfl | rfl : t = _ ∨ t = _ := by
        simpa [Record.tells, Answers.texts] using ht
      · exact hline "A" _ (Text.isAscii_of_all rfl) (isAscii_textV4 _)
      · exact isAscii_textV4 _
  | aaaa address =>
      obtain rfl | rfl : t = _ ∨ t = _ := by
        simpa [Record.tells, Answers.texts] using ht
      · exact hline "AAAA" _ (Text.isAscii_of_all rfl) (isAscii_textV6 _)
      · exact isAscii_textV6 _
  | cname target =>
      obtain rfl | rfl : t = _ ∨ t = _ := by
        simpa [Record.tells, Answers.texts] using ht
      · exact hline "CNAME" _ (Text.isAscii_of_all rfl) (isAscii_dotted h.spelled)
      · exact isAscii_dotted h.spelled
  | ns target =>
      obtain rfl | rfl : t = _ ∨ t = _ := by
        simpa [Record.tells, Answers.texts] using ht
      · exact hline "NS" _ (Text.isAscii_of_all rfl) (isAscii_dotted h.spelled)
      · exact isAscii_dotted h.spelled
  | ptr target =>
      obtain rfl : t = _ := by
        simpa [Record.tells, Answers.texts] using ht
      exact hline "PTR" _ (Text.isAscii_of_all rfl) (isAscii_dotted h.spelled)
  | mx preference target =>
      obtain rfl | rfl : t = _ ∨ t = _ := by
        simpa [Record.tells, Answers.texts] using ht
      · exact hline "MX" _ (Text.isAscii_of_all rfl) (isAscii_dotted h.2.spelled)
      · exact isAscii_dotted h.2.spelled
  | txt strings =>
      obtain ⟨s, hs, rfl⟩ : ∃ s ∈ strings, Text.ofAscii s = t := by
        simpa [Record.tells, Answers.texts] using ht
      exact Text.isAscii_ofAscii (h.2 s hs).2
  | srv priority weight port target =>
      obtain rfl : t = _ := by
        simpa [Record.tells, Answers.texts] using ht
      exact hline "SRV" _ (Text.isAscii_of_all rfl) (isAscii_dotted h.2.2.2.spelled)
  | opt options => exact absurd ht List.not_mem_nil
  | unknown rtype data => exact absurd ht List.not_mem_nil

theorem listed_of_isAscii {items : List Text} {sep : String} {max : ℕ}
    (hsep : Text.IsAscii sep.toList) (h : ∀ t ∈ items, Text.IsAscii t) :
    ∃ v, listed items sep max = .ok v ∧ ∀ before, Joined items sep max before (v.or before) := by
  by_cases hne : items = []
  · exact ⟨none, if_pos hne, fun before _ => (if_pos hne).symm⟩
  · have hcap := cap_of_isAscii (Text.isAscii_join hsep h) max
    refine ⟨some (cappedAscii (Text.join sep.toList items) max), ?_, fun before hfit => ?_⟩
    · rw [listed, if_neg hne, hcap]
      rfl
    · rw [if_neg hne, cappedAscii, if_pos hfit]
      rfl

/-- ASCII lists are written, and nothing else is. -/
theorem columns_of_isAscii (a : Answers) (h : ∀ t ∈ a.texts, Text.IsAscii t) (c : DnsCols) :
    ∃ c', a.columns c = .ok c' ∧
      (c'.dnsQname = c.dnsQname ∧ c'.dnsQtype = c.dnsQtype ∧ c'.dnsQclass = c.dnsQclass) ∧
      Joined a.answers "; " 2048 c.dnsAnswers c'.dnsAnswers ∧
      Joined a.ips "," 1024 c.dnsAnswerIps c'.dnsAnswerIps ∧
      Joined a.cnames "," 1024 c.dnsCnames c'.dnsCnames ∧
      Joined a.nsNames "," 512 c.dnsNsNames c'.dnsNsNames ∧
      Joined a.mxNames "," 512 c.dnsMxNames c'.dnsMxNames ∧
      Joined a.txts " | " 2048 c.dnsTxtData c'.dnsTxtData ∧ c'.dnsTtlMin = a.ttlMin := by
  have hcomma : Text.IsAscii ",".toList := Text.isAscii_of_all rfl
  have hmem : ∀ t, (t ∈ a.answers ∨ t ∈ a.ips ∨ t ∈ a.cnames ∨ t ∈ a.nsNames ∨ t ∈ a.mxNames ∨
      t ∈ a.txts) → Text.IsAscii t := fun t ht => h t (by simpa [Answers.texts] using ht)
  obtain ⟨answers, hanswers, janswers⟩ := @listed_of_isAscii a.answers "; " 2048
    (Text.isAscii_of_all rfl) fun t ht => hmem t (.inl ht)
  obtain ⟨ips, hips, jips⟩ := @listed_of_isAscii a.ips "," 1024 hcomma
    fun t ht => hmem t (.inr (.inl ht))
  obtain ⟨cnames, hcnames, jcnames⟩ := @listed_of_isAscii a.cnames "," 1024 hcomma
    fun t ht => hmem t (.inr (.inr (.inl ht)))
  obtain ⟨nsNames, hnsNames, jnsNames⟩ := @listed_of_isAscii a.nsNames "," 512 hcomma
    fun t ht => hmem t (.inr (.inr (.inr (.inl ht))))
  obtain ⟨mxNames, hmxNames, jmxNames⟩ := @listed_of_isAscii a.mxNames "," 512 hcomma
    fun t ht => hmem t (.inr (.inr (.inr (.inr (.inl ht)))))
  obtain ⟨txts, htxts, jtxts⟩ := @listed_of_isAscii a.txts " | " 2048
    (Text.isAscii_of_all rfl) fun t ht => hmem t (.inr (.inr (.inr (.inr (.inr ht)))))
  unfold Answers.columns
  rw [hanswers, bind_of_ok rfl, hips, bind_of_ok rfl, hcnames, bind_of_ok rfl, hnsNames,
    bind_of_ok rfl, hmxNames, bind_of_ok rfl, htxts, bind_of_ok rfl]
  exact ⟨_, rfl, ⟨rfl, rfl, rfl⟩, janswers _, jips _, jcnames _, jnsNames _, jmxNames _, jtxts _,
    rfl⟩

/-! ### Reading a message -/

namespace Message

variable {m : Message} {msg : Bytes}

/-- **The walk of a message goes through its records.** -/
theorem LaidIn.walk_map (h : m.LaidIn msg) (hq : m.questions.length ≤ 8)
    (hr : m.records.length ≤ 64) :
    (∃ start, questionsEnd msg (questionCount msg) 12 = .ok start) ∧
    (walk msg).map (fun v => (v.rtype, v.ttl, told msg v)) =
      m.records.map fun r => (r.data.rtype, r.ttl, r.tells) := by
  obtain ⟨mid, next, hquestions, hrecords⟩ := h.body
  have hqcount : questionCount msg = m.questions.length := by
    rw [questionCount, h.qdcount, Nat.min_eq_left hq]
  have hrcount : recordCount msg = m.records.length := by
    rw [recordCount, h.ancount, h.nscount, h.arcount]
    rw [Message.records, List.length_append, List.length_append] at hr ⊢
    exact Nat.min_eq_left hr
  have hend : questionsEnd msg (questionCount msg) 12 = .ok mid := by
    rw [hqcount]
    exact questionsEnd_of_inRow hquestions
  rw [walk_of_ok hend, hrcount]
  exact ⟨⟨mid, hend⟩, visits_of_inRow hrecords⟩

/-- What is reported of the walk is what the records say. -/
theorem reported_walk (hwalk : (walk msg).map (fun v => (v.rtype, v.ttl, told msg v)) =
      m.records.map fun r => (r.data.rtype, r.ttl, r.tells)) (part : Answers → List Text) :
    (walk msg).flatMap (fun v => part (told msg v)) = m.records.flatMap fun r => part r.tells := by
  have hmap := congrArg (List.flatMap fun k => part k.2.2) hwalk
  rwa [List.flatMap_map, List.flatMap_map] at hmap

theorem reported_walk_ttlMin (hwalk : (walk msg).map (fun v => (v.rtype, v.ttl, told msg v)) =
      m.records.map fun r => (r.data.rtype, r.ttl, r.tells)) :
    ((walk msg).filter fun v => v.rtype ≠ 41).map Visit.ttl =
      (m.records.filter fun r => r.data.rtype ≠ 41).map Record.ttl := by
  have hmap := congrArg (fun l => (l.filter fun k => k.1 ≠ 41).map fun k => k.2.1) hwalk
  rwa [List.filter_map, List.filter_map, List.map_map, List.map_map] at hmap

/-- The records of a message say ASCII texts. -/
theorem LaidIn.isAscii (h : m.LaidIn msg) {r : Record} (hr : r ∈ m.records) :
    ∀ t ∈ r.tells.texts, Text.IsAscii t := by
  obtain ⟨mid, next, -, hrecords⟩ := h.body
  obtain ⟨pos, stop, _, hname, -, -, -, hdata, -⟩ := hrecords.exists_at hr
  exact r.isAscii_tells hname.spelled hdata

end Message

/-- **Reading a message gives back what it says**, within the limits of eight questions and
sixty-four records. -/
theorem parse_message (m : Message) (msg : Bytes) (h : m.LaidIn msg)
    (hq : m.questions.length ≤ 8) (hr : m.records.length ≤ 64) (isMdns isLlmnr overTcp : Bool)
    (s : Sink DnsCols) :
    ∃ s', (parse msg isMdns isLlmnr overTcp).exec s = .ok (.ok (), s') ∧
      m.Told s.cols s'.cols := by
  obtain ⟨⟨start, hend⟩, hwalk⟩ := h.walk_map hq hr
  obtain ⟨mid, next, hquestions, -⟩ := h.body
  have hqcount : questionCount msg = m.questions.length := by
    rw [questionCount, h.qdcount, Nat.min_eq_left hq]
  -- what is reported, list by list
  obtain ⟨hanswers, hips, hcnames, hns, hmx, htxts⟩ := reported_lists msg (walk msg)
  have httl := (reported_ttlMin msg (walk msg)).trans
    (congrArg List.min? (Message.reported_walk_ttlMin hwalk))
  have hlist := fun part => @Message.reported_walk m msg hwalk part
  rw [hlist Answers.answers] at hanswers
  rw [hlist Answers.ips] at hips
  rw [hlist Answers.cnames] at hcnames
  rw [hlist Answers.nsNames] at hns
  rw [hlist Answers.mxNames] at hmx
  rw [hlist Answers.txts] at htxts
  have hascii : ∀ t ∈ (reported msg (walk msg)).texts, Text.IsAscii t := by
    intro t ht
    rw [Answers.texts, hanswers, hips, hcnames, hns, hmx, htxts] at ht
    obtain ⟨r, hr, htr⟩ : ∃ r ∈ m.records, t ∈ r.tells.texts := by
      simp only [List.mem_append, List.mem_flatMap] at ht
      simp only [Answers.texts, List.mem_append]
      obtain ⟨r, hr, h'⟩ | ⟨r, hr, h'⟩ | ⟨r, hr, h'⟩ | ⟨r, hr, h'⟩ | ⟨r, hr, h'⟩ | ⟨r, hr, h'⟩ := ht
      all_goals exact ⟨r, hr, by simp [h']⟩
    exact h.isAscii hr t htr
  obtain ⟨stack, ⟨-, hexec⟩ | ⟨hlt, -⟩⟩ := parse_exec msg isMdns isLlmnr overTcp s
  · have hbody := body_of_ok hend ⟨stack, headerCols msg (openCols isMdns isLlmnr overTcp s.cols)⟩
    have hfirst := fun q => @writeFirst_of_inRow msg 12 mid m.questions hquestions
      (headerCols msg (openCols isMdns isLlmnr overTcp s.cols)) q
    have hlists := lists_writeFirst msg (questionCount msg) 12
      (headerCols msg (openCols isMdns isLlmnr overTcp s.cols))
    rw [lists_headerCols] at hlists
    rw [← hqcount] at hfirst
    dsimp only at hbody
    -- the columns before the records
    generalize writeFirst msg (questionCount msg) 12
      (headerCols msg (openCols isMdns isLlmnr overTcp s.cols)) = c at hbody hfirst hlists
    obtain ⟨c', hc', ⟨hname, htype, hclass⟩, janswers, jips, jcnames, jns, jmx, jtxts, jttl⟩ :=
      columns_of_isAscii (reported msg (walk msg)) hascii c
    rw [hc'] at hbody
    simp only [lists, Prod.mk.injEq, List.cons.injEq, and_true] at hlists
    obtain ⟨⟨h₁, h₂, h₃, h₄, h₅, h₆⟩, -⟩ := hlists
    rw [hanswers, h₁] at janswers
    rw [hips, h₂] at jips
    rw [hcnames, h₃] at jcnames
    rw [hns, h₄] at jns
    rw [hmx, h₅] at jmx
    rw [htxts, h₆] at jtxts
    refine ⟨_, hexec.trans hbody, fun q hq => ?_, janswers, jips, jcnames, jns, jmx, jtxts,
      jttl.trans httl⟩
    obtain ⟨hqname, hqtype, hqclass⟩ := hfirst q hq
    exact ⟨hname.trans hqname, htype.trans hqtype, hclass.trans hqclass⟩
  · exact absurd h.header (Nat.not_le.mpr hlt)

/-- The question for `a`, and two answers: its alias `b.a`, and the address of that. -/
def answered : Bytes :=
  [0x12, 0x34, 0x81, 0x80, 0, 1, 0, 2, 0, 0, 0, 0,
    1, 0x61, 0, 0, 1, 0, 1,
    0xc0, 12, 0, 5, 0, 1, 0, 0, 1, 44, 0, 4, 1, 0x62, 0xc0, 12,
    0xc0, 31, 0, 1, 0, 1, 0, 0, 0, 60, 0, 4, 1, 2, 3, 4]

def answeredMessage : Message where
  questions := [{ name := [[0x61]], qtype := 1, qclass := 1 }]
  answers :=
    [{ name := [[0x61]], rclass := 1, ttl := 300, data := .cname [[0x62], [0x61]] },
      { name := [[0x62], [0x61]], rclass := 1, ttl := 60, data := .a 0x01020304 }]
  authority := []
  additional := []

theorem answered_names :
    NameAt answered 12 [[0x61]] 15 ∧ NameAt answered 19 [[0x61]] 21 ∧
      NameAt answered 31 [[0x62], [0x61]] 35 ∧ NameAt answered 35 [[0x62], [0x61]] 37 := by
  have hplain : Encodes answered 12 [[0x61]] 0 :=
    .label (by decide) (by decide) (by decide) (.root rfl)
  have hpointer : Encodes answered 31 [[0x62], [0x61]] 1 :=
    .label (by decide) (by decide) (by decide) (.pointer rfl (by decide) rfl rfl hplain)
  have hshort : Spelled [[0x61]] := spelled_of_all rfl
  have hlong : Spelled [[0x62], [0x61]] := spelled_of_all rfl
  have hfirst : Encodes answered 19 [[0x61]] 1 := .pointer rfl (by decide) rfl rfl hplain
  have hsecond : Encodes answered 35 [[0x62], [0x61]] 2 := .pointer rfl (by decide) rfl rfl hpointer
  have hdecodes : ∀ {pos k : ℕ} {labels : List Bytes}, Encodes answered pos labels k →
      labels.length + k ≤ 127 ∧ k ≤ 16 ∧ (labels.foldl addLabel []).length ≤ 512 →
      ∃ r, readName answered pos = .ok r := fun h hfit => readName_ok_iff.mpr ⟨_, _, h, hfit⟩
  refine ⟨⟨⟨0, hplain⟩, hshort, ?_, hdecodes hplain (by decide)⟩,
    ⟨⟨1, hfirst⟩, hshort, ?_, hdecodes hfirst (by decide)⟩,
    ⟨⟨1, hpointer⟩, hlong, ?_, hdecodes hpointer (by decide)⟩,
    ⟨⟨2, hsecond⟩, hlong, ?_, hdecodes hsecond (by decide)⟩⟩
  · have hroot : InPlace answered 14 15 := .root rfl
    exact .label rfl (by decide) (by decide) hroot
  · exact .pointer rfl (by decide) rfl
  · have hend : InPlace answered 33 35 := .pointer rfl (by decide) rfl
    exact .label rfl (by decide) (by decide) hend
  · exact .pointer rfl (by decide) rfl

theorem parse_message_answered :
    ∃ s', (parse answered false false false).exec ⟨[], {}⟩ = .ok (.ok (), s') ∧
      answeredMessage.Told {} s'.cols := by
  obtain ⟨hquestion, hfirst, htarget, hsecond⟩ := answered_names
  refine parse_message answeredMessage answered ?_ (by decide) (by decide) false false false _
  refine ⟨by decide, by decide, by decide, by decide, by decide, 19, 51, ?_, ?_⟩
  · exact .cons ⟨15, hquestion, by decide, by decide, rfl, by decide⟩ (.nil 19)
  · have halias : RecordStands answered 19
        { name := [[0x61]], rclass := 1, ttl := 300, data := .cname [[0x62], [0x61]] } 35 :=
      ⟨21, hfirst, by decide, by decide, rfl, htarget, rfl, by decide⟩
    have haddress : RecordStands answered 35
        { name := [[0x62], [0x61]], rclass := 1, ttl := 60, data := .a 0x01020304 } 51 :=
      ⟨37, hsecond, by decide, by decide, rfl, ⟨rfl, rfl⟩, rfl, by decide⟩
    exact .cons halias (.cons haddress (.nil 51))

end AppDns

end PcapRacer
