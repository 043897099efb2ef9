/-
**Where DNS records are read from.**

At most eight questions are read, and the records are read from wherever that ends: with more than
eight questions the ninth is taken for a record.  The name in a record's data is decoded against the
whole message, so nothing keeps it within the data: a record with no data at all is reported with
the name of the record behind it.

Main definitions:

* `Framed` — a message of questions and records, whatever their names say;
* `RecordsOnly` — what is reported comes from records;
* `Visit.Confined` — the name in the data ends with the data.

Main results:

* `recordsOnly_iff` — **when only records are reported**;
* `forged_reported` — an answer that no record gives;
* `Visit.reported_iff` — when a target is reported;
* `confined_iff` — **when a reported target lies in its record**;
* `overrun_reported` — a target that the record does not hold.
-/

import PcapRacer.DnsMessages

set_option relaxedAutoImplicit false
set_option autoImplicit false

namespace PcapRacer

namespace AppDns

/-! ### Frames -/

/-- A question that starts at `start`. -/
def QuestionFrame (msg : Bytes) (pos start next : ℕ) : Prop :=
  start = pos ∧ ∃ stop, InPlace msg pos stop ∧ stop + 4 = next ∧ next ≤ msg.length

/-- A record that starts at `start`. -/
def RecordFrame (msg : Bytes) (pos start next : ℕ) : Prop :=
  start = pos ∧ ∃ stop, InPlace msg pos stop ∧
    stop + 10 + (u16At msg (stop + 8)).toNat = next ∧ next ≤ msg.length

/-- A message with questions at `qs` and records at `rs`, the first one at `mid`. -/
structure Framed (msg : Bytes) (qs rs : List ℕ) (mid : ℕ) : Prop where
  header : 12 ≤ msg.length
  qdcount : (u16At msg 4).toNat = qs.length
  rrcount : (u16At msg 6).toNat + (u16At msg 8).toNat + (u16At msg 10).toNat = rs.length
  questions : InRow (QuestionFrame msg) 12 qs mid
  records : ∃ next, InRow (RecordFrame msg) mid rs next

/-- **What is reported comes from records**: they are read from behind the last question, and every
entry is what a record at one of the given positions says. -/
structure RecordsOnly (msg : Bytes) (rs : List ℕ) (mid : ℕ) : Prop where
  behind : ∀ s s' start,
    (questionLoop msg (questionCount msg) true 12).exec s = .ok (.ok start, s') →
      recordCount msg ≠ 0 → mid ≤ start
  reports : ∀ isMdns isLlmnr overTcp s s' r,
    (parse msg isMdns isLlmnr overTcp).exec s = .ok (r, s') →
      lists s'.cols = lists s.cols ∨
      ∃ vs c, (∀ v ∈ vs, v.start ∈ rs ∧ recordAt msg v.start = some v) ∧
        lists c = lists s.cols ∧ (reported msg vs).columns c = .ok s'.cols

section Frames

variable {msg : Bytes} {pos next : ℕ}

theorem questionAt_of_frame {start : ℕ} (h : QuestionFrame msg pos start next)
    (hok : ∃ r, readName msg start = .ok r) : ∃ q, questionAt msg pos = .ok (q, next) := by
  obtain ⟨rfl, stop, hplace, rfl, hle⟩ := h
  obtain ⟨⟨name, stop'⟩, hok⟩ := hok
  obtain rfl : stop' = stop := hplace.unique (fun _ _ _ => rfl) (nameLoop_inPlace hok)
  exact ⟨_, questionAt_of_read hok hle⟩

/-- Questions whose names can be decoded are read to their end. -/
theorem questionsEnd_of_frames {qs : List ℕ} (h : InRow (QuestionFrame msg) pos qs next)
    (hok : ∀ p ∈ qs, ∃ r, readName msg p = .ok r) : questionsEnd msg qs.length pos = .ok next := by
  induction h with
  | nil pos => rfl
  | @cons pos mid next p qs h _ ih =>
      obtain ⟨q, hq⟩ := questionAt_of_frame h (hok p List.mem_cons_self)
      rw [List.length_cons, questionsEnd, hq]
      exact ih fun p hp => hok p (List.mem_cons_of_mem _ hp)

/-- A question whose name cannot be decoded ends it all. -/
theorem questionsEnd_of_undecoded {qs : List ℕ} (h : InRow (QuestionFrame msg) pos qs next)
    (hno : ∃ p ∈ qs, ∀ r, readName msg p ≠ .ok r) :
    ∃ e, questionsEnd msg qs.length pos = .error e := by
  induction h with
  | nil pos =>
      obtain ⟨p, hp, -⟩ := hno
      exact absurd hp List.not_mem_nil
  | @cons pos mid next p qs h _ ih =>
      rw [List.length_cons, questionsEnd]
      by_cases hok : ∃ r, readName msg p = .ok r
      · obtain ⟨q, hq⟩ := questionAt_of_frame h hok
        rw [hq]
        obtain ⟨p', hp', hno'⟩ := hno
        obtain rfl | hp' := List.mem_cons.mp hp'
        · obtain ⟨r, hr⟩ := hok
          exact absurd hr (hno' r)
        · exact ih ⟨p', hp', hno'⟩
      · obtain ⟨rfl, -⟩ := h
        rw [questionAt]
        cases hname : readName msg p with
        | ok r => exact absurd ⟨r, hname⟩ hok
        | error e => exact ⟨e, rfl⟩

theorem recordAt_of_frame {start : ℕ} {v : Visit} (h : RecordFrame msg pos start next)
    (hv : recordAt msg pos = some v) : v.start = start ∧ v.stop = next := by
  obtain ⟨rfl, stop, hplace, rfl, -⟩ := h
  obtain ⟨hstart, stop', hname, hpos, -, -, hlen, -⟩ := recordAt_eq_some hv
  obtain rfl : stop' = stop := hplace.unique (fun _ _ _ => rfl) (nameLoop_inPlace hname)
  exact ⟨hstart, by rw [Visit.stop, hpos, hlen]⟩

/-- **From the first record on, only records are come to.** -/
theorem visits_of_frames {rs : List ℕ} (h : InRow (RecordFrame msg) pos rs next) {count : ℕ}
    (hcount : count ≤ rs.length) :
    ∀ v ∈ visits msg count pos, v.start ∈ rs ∧ recordAt msg v.start = some v := by
  induction h generalizing count with
  | nil pos =>
      obtain rfl : count = 0 := Nat.le_zero.mp hcount
      exact fun v hv => absurd hv List.not_mem_nil
  | @cons pos mid next p rs h _ ih =>
      cases count with
      | zero => exact fun v hv => absurd hv List.not_mem_nil
      | succ count =>
          intro v hv
          rw [visits] at hv
          cases hat : recordAt msg pos with
          | none =>
              rw [hat] at hv
              exact absurd hv List.not_mem_nil
          | some w =>
              rw [hat] at hv
              obtain ⟨hstart, rfl⟩ := recordAt_of_frame h hat
              obtain rfl | hv := List.mem_cons.mp hv
              · rw [hstart, h.1]
                exact ⟨List.mem_cons_self, hat⟩
              · obtain ⟨hmem, hv⟩ := ih (Nat.le_of_succ_le_succ hcount) v hv
                exact ⟨List.mem_cons_of_mem _ hmem, hv⟩

theorem lt_of_frames {qs : List ℕ} (h : InRow (QuestionFrame msg) pos qs next) (hne : qs ≠ []) :
    pos < next := by
  cases h with
  | nil => exact absurd rfl hne
  | cons h hrest =>
      have hle := hrest.le fun p a q ⟨_, stop, hplace, hq, _⟩ => by
        have hlt := hplace.lt
        omega
      obtain ⟨-, stop, hplace, rfl, -⟩ := h
      have hlt := hplace.lt
      omega

end Frames

/-! ### Reading from the ninth question on -/

section Questions

variable {msg : Bytes} {qs rs : List ℕ} {mid : ℕ}

theorem Framed.questionCount_eq (h : Framed msg qs rs mid) :
    questionCount msg = (qs.take 8).length := by
  rw [questionCount, h.qdcount, List.length_take, Nat.min_comm]

theorem Framed.recordCount_eq (h : Framed msg qs rs mid) :
    recordCount msg = min rs.length 64 := by
  rw [recordCount, h.rrcount]

/-- What is read of the questions. -/
theorem questionLoop_start {s s' : Sink DnsCols} {start : ℕ}
    (h : (questionLoop msg (questionCount msg) true 12).exec s = .ok (.ok start, s')) :
    questionsEnd msg (questionCount msg) 12 = .ok start := by
  rw [questionLoop_first] at h
  exact (Prod.mk.inj (Except.ok.inj h)).1

/-- With nothing but records in the walk, nothing but records is reported. -/
theorem reports_of_walk (hwalk : ∀ v ∈ walk msg, v.start ∈ rs ∧ recordAt msg v.start = some v)
    {isMdns isLlmnr overTcp : Bool} {s s' : Sink DnsCols} {r : Except DissectError Unit}
    (h : (parse msg isMdns isLlmnr overTcp).exec s = .ok (r, s')) :
    lists s'.cols = lists s.cols ∨
      ∃ vs c, (∀ v ∈ vs, v.start ∈ rs ∧ recordAt msg v.start = some v) ∧
        lists c = lists s.cols ∧ (reported msg vs).columns c = .ok s'.cols := by
  obtain ⟨-, c, hc, hcols⟩ | ⟨-, hsame⟩ := parse_reports h
  · exact .inr ⟨walk msg, c, hwalk, hc, hcols⟩
  · exact .inl hsame

end Questions

/-- **When only records are reported**: when there are at most eight questions, or no records at
all, or when nothing is read because the name of one of the first eight questions cannot be
decoded. -/
theorem recordsOnly_iff (msg : Bytes) (qs rs : List ℕ) (mid : ℕ) (h : Framed msg qs rs mid) :
    RecordsOnly msg rs mid ↔
      qs.length ≤ 8 ∨ rs = [] ∨ ∃ p ∈ qs.take 8, ∀ r, readName msg p ≠ .ok r := by
  obtain ⟨ninth, hfirst, hlast⟩ := h.questions.exists_split 8
  have hqcount := h.questionCount_eq
  have hrcount := h.recordCount_eq
  constructor
  · intro honly
    by_contra hnot
    push Not at hnot
    obtain ⟨hmany, hrecords, hnames⟩ := hnot
    -- the questions are read to the ninth, which stands before the records
    have hend : questionsEnd msg (questionCount msg) 12 = .ok ninth := by
      rw [hqcount]
      exact questionsEnd_of_frames hfirst hnames
    have hloop := questionLoop_first msg (questionCount msg) 12 ⟨[], {}⟩
    rw [hend] at hloop
    have hpos : 0 < rs.length := List.length_pos_iff.mpr hrecords
    have hle := honly.behind _ _ _ hloop (by omega)
    have hne : qs.drop 8 ≠ [] := by
      rw [← List.length_pos_iff, List.length_drop]
      omega
    exact absurd (lt_of_frames hlast hne) (Nat.not_lt.mpr hle)
  · intro hcond
    by_cases hundecoded : ∃ p ∈ qs.take 8, ∀ r, readName msg p ≠ .ok r
    · obtain ⟨e, hend⟩ := questionsEnd_of_undecoded hfirst hundecoded
      rw [← hqcount] at hend
      refine ⟨fun s s' start hloop => ?_, fun _ _ _ s s' r => reports_of_walk ?_⟩
      · cases hend.symm.trans (questionLoop_start hloop)
      · rw [walk_of_error hend]
        exact fun v hv => absurd hv List.not_mem_nil
    · have hnames : ∀ p ∈ qs.take 8, ∃ r, readName msg p = .ok r := by
        push Not at hundecoded
        exact hundecoded
      have hend : questionsEnd msg (questionCount msg) 12 = .ok ninth := by
        rw [hqcount]
        exact questionsEnd_of_frames hfirst hnames
      rcases hcond with hfew | rfl | hno
      · -- the eighth question is the last
        rw [List.drop_eq_nil_of_le hfew] at hlast
        cases hlast
        obtain ⟨next, hrecords⟩ := h.records
        refine ⟨fun s s' start hloop _ => ?_, fun _ _ _ s s' r => reports_of_walk ?_⟩
        · cases hend.symm.trans (questionLoop_start hloop)
          exact Nat.le_refl _
        · rw [walk_of_ok hend, hrcount]
          exact visits_of_frames hrecords (Nat.min_le_left _ _)
      · have hzero : recordCount msg = 0 := hrcount
        refine ⟨fun s s' start _ hsome => absurd hzero hsome, fun _ _ _ s s' r =>
          reports_of_walk ?_⟩
        rw [walk_of_ok hend, hzero]
        exact fun v hv => absurd hv List.not_mem_nil
      · exact absurd hno hundecoded

/-- Nine questions and one record that says nothing.  The ninth question asks for an address; read
together with the first bytes of the record it looks like an answer. -/
def forged : Bytes :=
  [0, 0, 0x80, 0, 0, 9, 0, 1, 0, 0, 0, 0,
    0, 0, 1, 0, 1, 0, 0, 1, 0, 1, 0, 0, 1, 0, 1, 0, 0, 1, 0, 1,
    0, 0, 1, 0, 1, 0, 0, 1, 0, 1, 0, 0, 1, 0, 1, 0, 0, 1, 0, 1,
    0, 0, 1, 0, 1,
    3, 0x61, 0x62, 0x63, 0, 4, 1, 0, 1, 7, 0, 0, 0, 0, 0]

theorem forged_framed : Framed forged [12, 17, 22, 27, 32, 37, 42, 47, 52] [57] 57 := by
  have hquestion : ∀ n : Fin 9,
      QuestionFrame forged (12 + 5 * n) (12 + 5 * n) (12 + 5 * n + 5) := fun n => by
    refine ⟨rfl, 12 + 5 * n + 1, .root ?_, rfl, ?_⟩
    · revert n
      decide
    · have hlen : forged.length = 72 := rfl
      omega
  refine ⟨by decide, by decide, by decide, ?_, 72, ?_⟩
  · exact .cons (hquestion 0) (.cons (hquestion 1) (.cons (hquestion 2) (.cons (hquestion 3)
      (.cons (hquestion 4) (.cons (hquestion 5) (.cons (hquestion 6) (.cons (hquestion 7)
        (.cons (hquestion 8) (.nil 57)))))))))
  · have hname : InPlace forged 57 62 := .label rfl (by decide) (by decide)
      (show InPlace forged 61 62 from .root rfl)
    exact .cons ⟨rfl, 62, hname, by decide, by decide⟩ (.nil 72)

/-- **An answer that no record gives**: the only record of the message says nothing, and the message
is reported to hold the address 1.0.1.7. -/
theorem forged_reported :
    Framed forged [12, 17, 22, 27, 32, 37, 42, 47, 52] [57] 57 ∧
      (∀ v, recordAt forged 57 = some v → (told forged v).ips = []) ∧
      ¬ RecordsOnly forged [57] 57 ∧
      ((parse forged false false false).exec ⟨[], {}⟩).toOption.map
        (fun r => r.2.cols.dnsAnswerIps) = some (some "1.0.1.7".toList) := by
  refine ⟨forged_framed, fun v hv => ?_, fun honly => ?_, ?_⟩
  · cases hv
    rfl
  · have hle := honly.behind ⟨[], {}⟩ _ 52 rfl (by decide)
    exact absurd hle (by decide)
  · rfl

/-- A message of one question: what is reported of it comes from its records. -/
theorem recordsOnly_answered : RecordsOnly answered [19, 35] 19 := by
  obtain ⟨hquestion, hfirst, -, hsecond⟩ := answered_names
  refine (recordsOnly_iff answered [12] [19, 35] 19
    ⟨by decide, by decide, by decide, ?_, 51, ?_⟩).mpr (.inl (by decide))
  · exact .cons ⟨rfl, 15, hquestion.inPlace, rfl, by decide⟩ (.nil 19)
  · have hlast : RecordFrame answered 35 35 51 := ⟨rfl, 37, hsecond.inPlace, rfl, by decide⟩
    exact .cons ⟨rfl, 21, hfirst.inPlace, rfl, by decide⟩ (.cons hlast (.nil 51))

/-! ### Names beyond the data -/

namespace Visit

variable (msg : Bytes) (v : Visit)

/-- The data of such a record end in a name: CNAME, NS, PTR, MX and SRV. -/
def Targets : Prop := v.rtype = 5 ∨ v.rtype = 2 ∨ v.rtype = 12 ∨ v.rtype = 15 ∨ v.rtype = 33

/-- The bytes of the data before the name: the preference of MX; priority, weight and port of
SRV. -/
def before : ℕ := if v.rtype = 15 then 2 else if v.rtype = 33 then 6 else 0

/-- Where the name in the data stands. -/
def namePos : ℕ := v.pos + v.before

/-- The name in the data, up to its end or its first pointer, lies in the data. -/
def Confined : Prop := ∃ next, InPlace msg v.namePos next ∧ next ≤ v.stop

/-- The record is come to, and a target is reported of it. -/
def Reported : Prop :=
  v ∈ walk msg ∧ ∃ kind target, answerText v.name kind target ∈ (told msg v).answers

/-- The data are too short for a name behind their other fields. -/
def Short : Prop := v.before ≠ 0 ∧ v.rdlen ≤ v.before

/-- A name that can be decoded stands there. -/
def Names : Prop :=
  ∃ labels k, Encodes msg v.namePos labels k ∧ labels.length + k ≤ 127 ∧ k ≤ 16 ∧
    (labels.foldl addLabel []).length ≤ 512

variable {msg v}

theorem told_of_read {target : Text} {next : ℕ} (h : v.Targets) (hlong : ¬ v.Short)
    (hread : readName msg v.namePos = .ok (target, next)) :
    ∃ kind, (told msg v).answers = [answerText v.name kind target] := by
  obtain ⟨start, name, rtype, ttl, pos, rdlen⟩ := v
  simp only [Targets, Short, namePos, before] at h hlong hread
  rcases h with rfl | rfl | rfl | rfl | rfl
  · exact ⟨"CNAME", by simp_all [told, answerRecord]⟩
  · exact ⟨"NS", by simp_all [told, answerRecord]⟩
  · exact ⟨"PTR", by simp_all [told, answerRecord]⟩
  · exact ⟨"MX", by simp_all [told, answerRecord]⟩
  · exact ⟨"SRV", by simp_all [told, answerRecord]⟩

theorem told_of_not_read (h : v.Targets)
    (hno : v.Short ∨ ∃ e, readName msg v.namePos = .error e) : (told msg v).answers = [] := by
  obtain ⟨start, name, rtype, ttl, pos, rdlen⟩ := v
  simp only [Targets, Short, namePos, before] at h hno
  rcases h with rfl | rfl | rfl | rfl | rfl
  · obtain ⟨e, he⟩ : ∃ e, readName msg pos = .error e := by simpa using hno
    simp [told, answerRecord, he]
  · obtain ⟨e, he⟩ : ∃ e, readName msg pos = .error e := by simpa using hno
    simp [told, answerRecord, he]
  · obtain ⟨e, he⟩ : ∃ e, readName msg pos = .error e := by simpa using hno
    simp [told, answerRecord, he]
  · obtain hshort | ⟨e, he⟩ : rdlen ≤ 2 ∨ ∃ e, readName msg (pos + 2) = .error e := by
      simpa using hno
    · simp [told, answerRecord, Nat.not_lt.mpr hshort]
    · by_cases hlen : 2 < rdlen <;> simp [told, answerRecord, hlen, he]
  · obtain hshort | ⟨e, he⟩ : rdlen ≤ 6 ∨ ∃ e, readName msg (pos + 6) = .error e := by
      simpa using hno
    · simp [told, answerRecord, Nat.not_lt.mpr hshort]
    · by_cases hlen : 6 < rdlen <;> simp [told, answerRecord, hlen, he]

/-- **When a target is reported**: whatever the length of the data, when they are not too short for
the other fields and a name can be decoded where it should be. -/
theorem reported_iff (hv : v ∈ walk msg) (h : v.Targets) :
    v.Reported msg ↔ ¬ v.Short ∧ v.Names msg := by
  rw [Names, ← readName_ok_iff]
  constructor
  · rintro ⟨-, kind, target, hmem⟩
    by_contra hnot
    have hno : v.Short ∨ ∃ e, readName msg v.namePos = .error e := by
      by_cases hshort : v.Short
      · exact .inl hshort
      · cases hread : readName msg v.namePos with
        | ok r => exact absurd ⟨hshort, r, hread⟩ hnot
        | error e => exact .inr ⟨e, rfl⟩
    rw [told_of_not_read h hno] at hmem
    exact absurd hmem List.not_mem_nil
  · rintro ⟨hlong, ⟨target, next⟩, hread⟩
    obtain ⟨kind, hanswers⟩ := told_of_read h hlong hread
    exact ⟨hv, kind, target, by rw [hanswers]; exact List.mem_singleton_self _⟩

end Visit

/-- **When a reported target lies in its record**: when the name that stands where the target should
be ends with the data; otherwise only when the data are too short for the fields before the name, or
no name can be decoded there. -/
theorem confined_iff (msg : Bytes) (v : Visit) (hv : v ∈ walk msg) (h : v.Targets) :
    (v.Reported msg → v.Confined msg) ↔ v.Confined msg ∨ v.Short ∨ ¬ v.Names msg := by
  rw [v.reported_iff hv h]
  tauto

/-- An alias record with no data at all, and the record of `b` behind it. -/
def overrun : Bytes :=
  [0, 0, 0x80, 0, 0, 0, 0, 2, 0, 0, 0, 0,
    0, 0, 5, 0, 1, 0, 0, 0, 0, 0, 0,
    1, 0x62, 0, 0, 1, 0, 1, 0, 0, 0, 60, 0, 4, 1, 2, 3, 4]

/-- The alias record. -/
def emptyAlias : Visit := { start := 12, name := [], rtype := 5, ttl := 0, pos := 23, rdlen := 0 }

theorem emptyAlias_mem : emptyAlias ∈ walk overrun := by
  have hwalk : (walk overrun).head? = some emptyAlias := rfl
  exact List.mem_of_mem_head? hwalk

theorem confined_iff_emptyAlias :
    (emptyAlias.Reported overrun → emptyAlias.Confined overrun) ↔
      emptyAlias.Confined overrun ∨ emptyAlias.Short ∨ ¬ emptyAlias.Names overrun :=
  confined_iff overrun emptyAlias emptyAlias_mem (.inl rfl)

/-- **A target that the record does not hold**: the record has no data, and is reported with the
name of the record behind it. -/
theorem overrun_reported :
    emptyAlias ∈ walk overrun ∧ emptyAlias.rtype = 5 ∧ emptyAlias.rdlen = 0 ∧
      emptyAlias.Reported overrun ∧ ¬ emptyAlias.Confined overrun ∧
      ((parse overrun false false false).exec ⟨[], {}⟩).toOption.map
        (fun r => r.2.cols.dnsCnames) = some (some "b".toList) := by
  refine ⟨emptyAlias_mem, rfl, rfl, ⟨emptyAlias_mem, "CNAME", "b".toList, ?_⟩, ?_, rfl⟩
  · have htold : (told overrun emptyAlias).answers = [answerText [] "CNAME" "b".toList] := rfl
    rw [htold]
    exact List.mem_singleton_self _
  · rintro ⟨next, hplace, hle⟩
    exact absurd (hplace.lt.trans_le hle) (by decide)

end AppDns

end PcapRacer
