/-
**What a DNS message is reported to say.**

After its questions a message is read record by record, and a record is come to when its name, its
fixed part and its data are there.  What a record says is appended to what was said before, so the
columns are made of what the visited records say, one after the other, and of the least TTL.

Main definitions:

* `Visit`, `recordAt`, `visits` — the records that are come to;
* `told` — what one record says;
* `questionAt`, `questionsEnd` — the questions;
* `walk` — all records that a message is read for;
* `Answers.columns` — the columns with the answers in them.

Main results:

* `recordLoop_eq_foldl` — **the walk of the records is the sum of its visits**;
* `reported_lists`, `reported_ttlMin` — what the visits say together;
* `parse_exec`, `parse_reports` — what parsing a message writes.
-/

import PcapRacer.DnsNames
import PcapRacer.TlsHello

set_option relaxedAutoImplicit false
set_option autoImplicit false

namespace PcapRacer

namespace AppDns

/-! ### Records -/

/-- A resource record that the walk has come to, with the offsets of its name and its data. -/
structure Visit where
  start : ℕ
  name : Text
  rtype : UInt16
  ttl : UInt32
  pos : ℕ
  rdlen : ℕ

/-- The offset past the data. -/
def Visit.stop (v : Visit) : ℕ := v.pos + v.rdlen

/-- The record at an offset, when its name, its fixed part and its data are there. -/
def recordAt (msg : Bytes) (start : ℕ) : Option Visit :=
  match readName msg start with
  | .error _ => none
  | .ok (name, pos) =>
      if msg.length < pos + 10 then none
      else if msg.length < pos + 10 + (u16At msg (pos + 8)).toNat then none
      else some { start, name, rtype := u16At msg pos
                  ttl := UInt32.ofNat (beNat ((msg.drop (pos + 4)).take 4))
                  pos := pos + 10, rdlen := (u16At msg (pos + 8)).toNat }

/-- The records from an offset on, at most `count` of them. -/
def visits (msg : Bytes) : ℕ → ℕ → List Visit
  | 0, _ => []
  | count + 1, start =>
      match recordAt msg start with
      | none => []
      | some v => v :: visits msg count v.stop

/-- What one record says, TTL aside. -/
def told (msg : Bytes) (v : Visit) : Answers := answerRecord msg {} v.name v.rtype v.pos v.rdlen

/-- What was said before, and one more record. -/
def record (msg : Bytes) (a : Answers) (v : Visit) : Answers :=
  answerRecord msg { a with ttlMin := ttlStep v.rtype v.ttl a.ttlMin } v.name v.rtype v.pos v.rdlen

theorem recordAt_of_read {msg : Bytes} {start stop : ℕ} {name : Text}
    (h : readName msg start = .ok (name, stop))
    (hfits : stop + 10 + (u16At msg (stop + 8)).toNat ≤ msg.length) :
    recordAt msg start =
      some { start, name, rtype := u16At msg stop
             ttl := UInt32.ofNat (beNat ((msg.drop (stop + 4)).take 4))
             pos := stop + 10, rdlen := (u16At msg (stop + 8)).toNat } := by
  rw [recordAt, h]
  dsimp only
  rw [if_neg (by omega), if_neg (Nat.not_lt.mpr hfits)]

theorem recordAt_eq_some {msg : Bytes} {start : ℕ} {v : Visit} (h : recordAt msg start = some v) :
    v.start = start ∧ ∃ stop, readName msg start = .ok (v.name, stop) ∧ v.pos = stop + 10 ∧
      v.rtype = u16At msg stop ∧ v.ttl = UInt32.ofNat (beNat ((msg.drop (stop + 4)).take 4)) ∧
      v.rdlen = (u16At msg (stop + 8)).toNat ∧ v.stop ≤ msg.length := by
  unfold recordAt at h
  cases hname : readName msg start with
  | error e =>
      rw [hname] at h
      cases h
  | ok r =>
      rw [hname] at h
      dsimp only at h
      split at h
      · cases h
      · split at h
        · cases h
        · next hfits =>
            cases h
            exact ⟨rfl, r.2, rfl, rfl, rfl, rfl, rfl, Nat.not_lt.mp hfits⟩

/-- **The walk of the records is the sum of its visits.** -/
theorem recordLoop_eq_foldl (msg : Bytes) (count pos : ℕ) (a : Answers) :
    recordLoop msg count pos a = (visits msg count pos).foldl (record msg) a := by
  induction count generalizing pos a with
  | zero => rfl
  | succ count ih =>
      rw [recordLoop, visits, recordAt]
      cases readName msg pos with
      | error e => rfl
      | ok r =>
          dsimp only
          by_cases hfixed : msg.length < r.2 + 10
          · rw [if_pos hfixed, if_pos hfixed]
            rfl
          · rw [if_neg hfixed, if_neg hfixed]
            by_cases hdata : msg.length < r.2 + 10 + (u16At msg (r.2 + 8)).toNat
            · rw [if_pos hdata, if_pos hdata]
              rfl
            · rw [if_neg hdata, if_neg hdata]
              exact ih _ _

/-! ### What records say together -/

/-- The lists of `b` behind those of `a`, and the TTL of `a`. -/
def Answers.add (a b : Answers) : Answers where
  answers := a.answers ++ b.answers
  ips := a.ips ++ b.ips
  cnames := a.cnames ++ b.cnames
  nsNames := a.nsNames ++ b.nsNames
  mxNames := a.mxNames ++ b.mxNames
  txts := a.txts ++ b.txts
  ttlMin := a.ttlMin

theorem Answers.add_empty (a : Answers) : a.add {} = a := by
  simp [Answers.add]

/-- A record is appended to what was said before. -/
theorem answerRecord_eq_add (msg : Bytes) (a : Answers) (name : Text) (rtype : UInt16)
    (pos rdlen : ℕ) :
    answerRecord msg a name rtype pos rdlen =
      a.add (answerRecord msg {} name rtype pos rdlen) := by
  unfold answerRecord
  dsimp only
  split
  · split
    · simp [Answers.add]
    · exact a.add_empty.symm
  · split
    · simp [Answers.add]
    · exact a.add_empty.symm
  · cases readName msg pos with
    | ok r => simp [Answers.add]
    | error e => exact a.add_empty.symm
  · cases readName msg pos with
    | ok r => simp [Answers.add]
    | error e => exact a.add_empty.symm
  · cases readName msg pos with
    | ok r => simp [Answers.add]
    | error e => exact a.add_empty.symm
  · split
    · cases readName msg (pos + 2) with
      | ok r => simp [Answers.add]
      | error e => exact a.add_empty.symm
    · exact a.add_empty.symm
  · simp [Answers.add]
  · split
    · cases readName msg (pos + 6) with
      | ok r => simp [Answers.add]
      | error e => exact a.add_empty.symm
    · exact a.add_empty.symm
  · exact a.add_empty.symm

theorem record_eq (msg : Bytes) (a : Answers) (v : Visit) :
    record msg a v = { a.add (told msg v) with ttlMin := ttlStep v.rtype v.ttl a.ttlMin } :=
  answerRecord_eq_add ..

/-- What the visited records say. -/
def reported (msg : Bytes) (vs : List Visit) : Answers := vs.foldl (record msg) {}

section Foldl

variable (msg : Bytes) (vs : List Visit) (a : Answers)

theorem foldl_record {part : Answers → List Text} (h : ∀ a b : Answers,
      ∀ t, part { a.add b with ttlMin := t } = part a ++ part b) :
    part (vs.foldl (record msg) a) = part a ++ vs.flatMap fun v => part (told msg v) := by
  induction vs generalizing a with
  | nil => exact (List.append_nil _).symm
  | cons v vs ih =>
      rw [List.foldl_cons, ih, record_eq, h, List.flatMap_cons, List.append_assoc]

theorem foldl_record_ttlMin :
    (vs.foldl (record msg) a).ttlMin = vs.foldl (fun t v => ttlStep v.rtype v.ttl t) a.ttlMin := by
  induction vs generalizing a with
  | nil => rfl
  | cons v vs ih =>
      rw [List.foldl_cons, ih, record_eq, List.foldl_cons]

end Foldl

section Reported

variable (msg : Bytes) (vs : List Visit)

/-- **The columns list what the visited records say, in their order.** -/
theorem reported_lists :
    (reported msg vs).answers = vs.flatMap (fun v => (told msg v).answers) ∧
    (reported msg vs).ips = vs.flatMap (fun v => (told msg v).ips) ∧
    (reported msg vs).cnames = vs.flatMap (fun v => (told msg v).cnames) ∧
    (reported msg vs).nsNames = vs.flatMap (fun v => (told msg v).nsNames) ∧
    (reported msg vs).mxNames = vs.flatMap (fun v => (told msg v).mxNames) ∧
    (reported msg vs).txts = vs.flatMap (fun v => (told msg v).txts) :=
  ⟨foldl_record msg vs {} fun _ _ _ => rfl, foldl_record msg vs {} fun _ _ _ => rfl,
    foldl_record msg vs {} fun _ _ _ => rfl, foldl_record msg vs {} fun _ _ _ => rfl,
    foldl_record msg vs {} fun _ _ _ => rfl, foldl_record msg vs {} fun _ _ _ => rfl⟩

theorem foldl_ttlStep (t : Option UInt32) :
    vs.foldl (fun t v => ttlStep v.rtype v.ttl t) t =
      (t.toList ++ (vs.filter fun v => v.rtype ≠ 41).map Visit.ttl).min? := by
  induction vs generalizing t with
  | nil => cases t <;> rfl
  | cons v vs ih =>
      rw [List.foldl_cons, ih]
      by_cases hopt : v.rtype = 41
      · have hstep : ttlStep v.rtype v.ttl t = t := if_pos hopt
        rw [hstep, List.filter_cons_of_neg (by simpa using hopt)]
      · rw [List.filter_cons_of_pos (by simpa using hopt)]
        cases t with
        | none =>
            have hstep : ttlStep v.rtype v.ttl none = some v.ttl := if_neg hopt
            rw [hstep]
            rfl
        | some m =>
            have hstep : ttlStep v.rtype v.ttl (some m) = some (min m v.ttl) := if_neg hopt
            rw [hstep]
            rfl

/-- **The TTL is the least of the records that are no metadata.** -/
theorem reported_ttlMin :
    (reported msg vs).ttlMin = ((vs.filter fun v => v.rtype ≠ 41).map Visit.ttl).min? :=
  (foldl_record_ttlMin msg vs {}).trans (foldl_ttlStep vs none)

end Reported

/-! ### Questions -/

/-- What a question asks for. -/
structure Asked where
  name : Text
  qtype : UInt16
  qclass : UInt16

/-- The question at an offset, and the offset past it. -/
def questionAt (msg : Bytes) (pos : ℕ) : Except DissectError (Asked × ℕ) := do
  let (name, pos) ← readName msg pos
  if msg.length < pos + 4 then .error .truncated
  else .ok ({ name, qtype := u16At msg pos, qclass := u16At msg (pos + 2) }, pos + 4)

theorem questionAt_of_read {msg : Bytes} {pos stop : ℕ} {name : Text}
    (h : readName msg pos = .ok (name, stop)) (hfits : stop + 4 ≤ msg.length) :
    questionAt msg pos =
      .ok ({ name, qtype := u16At msg stop, qclass := u16At msg (stop + 2) }, stop + 4) := by
  rw [questionAt, h]
  exact if_neg (Nat.not_lt.mpr hfits)

/-- The offset past the questions. -/
def questionsEnd (msg : Bytes) : ℕ → ℕ → Except DissectError ℕ
  | 0, pos => .ok pos
  | count + 1, pos => do
      let (_, pos) ← questionAt msg pos
      questionsEnd msg count pos

/-- What is written of the first question. -/
def Asked.write (q : Asked) (c : DnsCols) : DnsCols :=
  { c with dnsQnameLen := some (UInt32.ofNat q.name.utf8Len)
           dnsQnameEntropy := some (entropy q.name.encode)
           dnsTld := some (Text.lastPart '.' q.name)
           dnsQname := some q.name
           dnsQtype := some q.qtype
           dnsQtypeName := some (qtypeName q.qtype)
           dnsQclass := some q.qclass }

/-- What is written of the questions. -/
def writeFirst (msg : Bytes) : ℕ → ℕ → DnsCols → DnsCols
  | 0, _, c => c
  | _ + 1, pos, c =>
      match questionAt msg pos with
      | .ok (q, _) => q.write c
      | .error _ => c

section Questions

variable (msg : Bytes)

theorem questionLoop_rest (count pos : ℕ) (s : Sink DnsCols) :
    (questionLoop msg count false pos).exec s = .ok (questionsEnd msg count pos, s) := by
  induction count generalizing pos with
  | zero => rfl
  | succ count ih =>
      rw [questionLoop, questionsEnd, questionAt]
      cases readName msg pos with
      | error e => rfl
      | ok r =>
          rw [exec_ok_bind]
          dsimp only
          by_cases hfits : msg.length < r.2 + 4
          · rw [if_pos hfits, bind_of_ok rfl, if_pos hfits]
            rfl
          · rw [if_neg hfits, bind_of_ok rfl, if_neg hfits]
            exact ih _

theorem questionLoop_first (count pos : ℕ) (s : Sink DnsCols) :
    (questionLoop msg count true pos).exec s =
      .ok (questionsEnd msg count pos, { s with cols := writeFirst msg count pos s.cols }) := by
  cases count with
  | zero => rfl
  | succ count =>
      rw [questionLoop, questionsEnd, writeFirst, questionAt]
      cases readName msg pos with
      | error e => rfl
      | ok r =>
          rw [exec_ok_bind]
          dsimp only
          by_cases hfits : msg.length < r.2 + 4
          · rw [if_pos hfits, bind_of_ok rfl, if_pos hfits]
            rfl
          · rw [if_neg hfits, bind_of_ok rfl, if_neg hfits]
            exact questionLoop_rest msg count _ _

end Questions

/-! ### Columns -/

/-- What a list column is set to: nothing when nothing is listed. -/
def listed (items : List Text) (sep : String) (max : ℕ) : Except Panic (Option Text) :=
  if items = [] then .ok none else (cap (Text.join sep.toList items) max).map some

theorem exec_listColumn_bind {β : Type} (items : List Text) (sep : String) (max : ℕ)
    {set : Text → DnsCols → DnsCols} (put : Option Text → DnsCols → DnsCols)
    (hnone : ∀ c, put none c = c) (hsome : ∀ v c, put (some v) c = set v c)
    (k : Unit → M β) (s : Sink DnsCols) :
    (listColumn items sep max set >>= k).exec s =
      listed items sep max >>= fun v => (k ()).exec { s with cols := put v s.cols } := by
  rw [listColumn, listed, exec_bind]
  by_cases h : items = []
  · rw [if_neg (not_not.mpr h), if_pos h, bind_of_ok rfl, hnone]
    rfl
  · rw [if_pos h, if_neg h, exec_bind, exec_liftPanic]
    cases cap (Text.join sep.toList items) max with
    | error p => rfl
    | ok v =>
        change (k ()).exec { s with cols := set v s.cols } =
          (k ()).exec { s with cols := put (some v) s.cols }
        rw [hsome]

/-- The columns with the answers in them. -/
def Answers.columns (a : Answers) (c : DnsCols) : Except Panic DnsCols := do
  let answers ← listed a.answers "; " 2048
  let ips ← listed a.ips "," 1024
  let cnames ← listed a.cnames "," 1024
  let nsNames ← listed a.nsNames "," 512
  let mxNames ← listed a.mxNames "," 512
  let txts ← listed a.txts " | " 2048
  pure { c with dnsAnswers := answers.or c.dnsAnswers
                dnsAnswerIps := ips.or c.dnsAnswerIps
                dnsCnames := cnames.or c.dnsCnames
                dnsNsNames := nsNames.or c.dnsNsNames
                dnsMxNames := mxNames.or c.dnsMxNames
                dnsTxtData := txts.or c.dnsTxtData
                dnsTtlMin := a.ttlMin }

/-- What is written of the records. -/
def report (a : Answers) : M Unit := do
  listColumn a.answers "; " 2048 fun v c => { c with dnsAnswers := some v }
  listColumn a.ips "," 1024 fun v c => { c with dnsAnswerIps := some v }
  listColumn a.cnames "," 1024 fun v c => { c with dnsCnames := some v }
  listColumn a.nsNames "," 512 fun v c => { c with dnsNsNames := some v }
  listColumn a.mxNames "," 512 fun v c => { c with dnsMxNames := some v }
  listColumn a.txts " | " 2048 fun v c => { c with dnsTxtData := some v }
  col fun c => { c with dnsTtlMin := a.ttlMin }

theorem report_exec (a : Answers) (s : Sink DnsCols) :
    (report a).exec s = (a.columns s.cols).map fun c => (.ok (), { s with cols := c }) := by
  unfold report Answers.columns
  refine Eq.trans (exec_listColumn_bind a.answers "; " 2048
    (fun v c => { c with dnsAnswers := v.or c.dnsAnswers }) (fun c => rfl) (fun v c => rfl) _ _) ?_
  cases listed a.answers "; " 2048 with
  | error p => rfl
  | ok answers =>
  rw [bind_of_ok rfl, bind_of_ok rfl]
  refine Eq.trans (exec_listColumn_bind a.ips "," 1024
    (fun v c => { c with dnsAnswerIps := v.or c.dnsAnswerIps }) (fun c => rfl) (fun v c => rfl)
    _ _) ?_
  cases listed a.ips "," 1024 with
  | error p => rfl
  | ok ips =>
  rw [bind_of_ok rfl, bind_of_ok rfl]
  dsimp only
  refine Eq.trans (exec_listColumn_bind a.cnames "," 1024
    (fun v c => { c with dnsCnames := v.or c.dnsCnames }) (fun c => rfl) (fun v c => rfl) _ _) ?_
  cases listed a.cnames "," 1024 with
  | error p => rfl
  | ok cnames =>
  rw [bind_of_ok rfl, bind_of_ok rfl]
  dsimp only
  refine Eq.trans (exec_listColumn_bind a.nsNames "," 512
    (fun v c => { c with dnsNsNames := v.or c.dnsNsNames }) (fun c => rfl) (fun v c => rfl) _ _) ?_
  cases listed a.nsNames "," 512 with
  | error p => rfl
  | ok nsNames =>
  rw [bind_of_ok rfl, bind_of_ok rfl]
  dsimp only
  refine Eq.trans (exec_listColumn_bind a.mxNames "," 512
    (fun v c => { c with dnsMxNames := v.or c.dnsMxNames }) (fun c => rfl) (fun v c => rfl) _ _) ?_
  cases listed a.mxNames "," 512 with
  | error p => rfl
  | ok mxNames =>
  rw [bind_of_ok rfl, bind_of_ok rfl]
  dsimp only
  refine Eq.trans (exec_listColumn_bind a.txts " | " 2048
    (fun v c => { c with dnsTxtData := v.or c.dnsTxtData }) (fun c => rfl) (fun v c => rfl) _ _) ?_
  cases listed a.txts " | " 2048 with
  | error p => rfl
  | ok txts => rfl

/-! ### Messages -/

/-- The columns of a message that is not read yet. -/
def openCols (isMdns isLlmnr overTcp : Bool) (c : DnsCols) : DnsCols :=
  { c with dnsIsMdns := some isMdns, dnsIsLlmnr := some isLlmnr, dnsOverTcp := some overTcp }

/-- The columns of the header. -/
def headerCols (msg : Bytes) (c : DnsCols) : DnsCols :=
  let flags := u16At msg 2
  { c with dnsTransactionId := some (u16At msg 0)
           dnsFlags := some flags
           dnsIsResponse := some (flags &&& 0x8000 ≠ 0)
           dnsOpcode := some ((flags >>> 11) &&& 0xf).toUInt8
           dnsRcode := some (flags &&& 0xf).toUInt8
           dnsRcodeName := some (rcodeName (flags &&& 0xf).toUInt8)
           dnsFlagAa := some (flags &&& 0x0400 ≠ 0)
           dnsFlagTc := some (flags &&& 0x0200 ≠ 0)
           dnsFlagRd := some (flags &&& 0x0100 ≠ 0)
           dnsFlagRa := some (flags &&& 0x0080 ≠ 0)
           dnsQdcount := some (u16At msg 4)
           dnsAncount := some (u16At msg 6)
           dnsNscount := some (u16At msg 8)
           dnsArcount := some (u16At msg 10) }

/-- The number of questions that are read. -/
def questionCount (msg : Bytes) : ℕ := min (u16At msg 4).toNat 8

/-- The number of records that are read. -/
def recordCount (msg : Bytes) : ℕ :=
  min ((u16At msg 6).toNat + (u16At msg 8).toNat + (u16At msg 10).toNat) 64

/-- Questions and records. -/
def body (msg : Bytes) : M Unit := do
  let pos ← questionLoop msg (questionCount msg) true 12
  report (recordLoop msg (recordCount msg) pos {})

theorem be16_of_rest {msg : Bytes} {c : Cur} {k : ℕ} (h : c.rest = msg.drop k) :
    (msg.length < k + 2 ∧ c.be16 = .error .truncated) ∨
      (k + 2 ≤ msg.length ∧
        ∃ c', c.be16 = .ok (u16At msg k, c') ∧ c'.rest = msg.drop (k + 2)) := by
  rcases Nat.lt_or_ge msg.length (k + 2) with hlt | hle
  · refine .inl ⟨hlt, ?_⟩
    have hshort : ¬ 2 ≤ c.remaining := by
      rw [← Cur.length_rest, h, List.length_drop]
      omega
    rw [Cur.be16, Cur.read, Cur.take, dif_neg hshort]
    rfl
  · refine .inr ⟨hle, ?_⟩
    have hsplit : c.rest = (msg.drop k).take 2 ++ msg.drop (k + 2) := by
      rw [h, ← List.drop_drop, List.take_append_drop]
    refine Cur.exists_be16 hsplit ?_
    rw [List.length_take, List.length_drop]
    omega

/-- **The header is read, and then the rest, or the message is too short for a header.** -/
theorem parse_exec (msg : Bytes) (isMdns isLlmnr overTcp : Bool) (s : Sink DnsCols) :
    ∃ stack, (12 ≤ msg.length ∧ (parse msg isMdns isLlmnr overTcp).exec s =
        (body msg).exec ⟨stack, headerCols msg (openCols isMdns isLlmnr overTcp s.cols)⟩) ∨
      (msg.length < 12 ∧ (parse msg isMdns isLlmnr overTcp).exec s =
        .ok (.error .truncated, ⟨stack, openCols isMdns isLlmnr overTcp s.cols⟩)) := by
  refine ⟨s.stack ++ [if isMdns then .mdns else if isLlmnr then .llmnr else .dns], ?_⟩
  unfold parse
  rw [exec_bind, exec_layer]
  dsimp only
  rw [exec_col_bind]
  have hrest : (Cur.new msg).rest = msg.drop 0 := rfl
  obtain ⟨hlt, h₁⟩ | ⟨-, c₁, h₁, hrest₁⟩ := be16_of_rest hrest
  · rw [h₁]
    exact .inr ⟨by omega, rfl⟩
  rw [h₁, exec_ok_bind]
  dsimp only
  obtain ⟨hlt, h₂⟩ | ⟨-, c₂, h₂, hrest₂⟩ := be16_of_rest hrest₁
  · rw [h₂]
    exact .inr ⟨by omega, rfl⟩
  rw [h₂, exec_ok_bind]
  dsimp only
  obtain ⟨hlt, h₃⟩ | ⟨-, c₃, h₃, hrest₃⟩ := be16_of_rest hrest₂
  · rw [h₃]
    exact .inr ⟨by omega, rfl⟩
  rw [h₃, exec_ok_bind]
  dsimp only
  obtain ⟨hlt, h₄⟩ | ⟨-, c₄, h₄, hrest₄⟩ := be16_of_rest hrest₃
  · rw [h₄]
    exact .inr ⟨by omega, rfl⟩
  rw [h₄, exec_ok_bind]
  dsimp only
  obtain ⟨hlt, h₅⟩ | ⟨-, c₅, h₅, hrest₅⟩ := be16_of_rest hrest₄
  · rw [h₅]
    exact .inr ⟨by omega, rfl⟩
  rw [h₅, exec_ok_bind]
  dsimp only
  obtain ⟨hlt, h₆⟩ | ⟨hle, c₆, h₆, hrest₆⟩ := be16_of_rest hrest₅
  · rw [h₆]
    exact .inr ⟨by omega, rfl⟩
  rw [h₆, exec_ok_bind]
  dsimp only
  rw [exec_col_bind]
  exact .inl ⟨hle, rfl⟩

/-- All records that a message is read for; none when its questions cannot be read. -/
def walk (msg : Bytes) : List Visit :=
  match questionsEnd msg (questionCount msg) 12 with
  | .ok start => visits msg (recordCount msg) start
  | .error _ => []

section Walk

variable {msg : Bytes}

theorem walk_of_ok {start : ℕ} (h : questionsEnd msg (questionCount msg) 12 = .ok start) :
    walk msg = visits msg (recordCount msg) start := by
  rw [walk, h]

theorem walk_of_error {e : DissectError}
    (h : questionsEnd msg (questionCount msg) 12 = .error e) : walk msg = [] := by
  rw [walk, h]

theorem body_of_ok {start : ℕ} (h : questionsEnd msg (questionCount msg) 12 = .ok start)
    (s : Sink DnsCols) :
    (body msg).exec s =
      ((reported msg (walk msg)).columns (writeFirst msg (questionCount msg) 12 s.cols)).map
        fun c => (.ok (), { s with cols := c }) := by
  rw [body, exec_bind, questionLoop_first, h, walk_of_ok h]
  dsimp only
  rw [recordLoop_eq_foldl, report_exec]
  rfl

theorem body_of_error {e : DissectError}
    (h : questionsEnd msg (questionCount msg) 12 = .error e) (s : Sink DnsCols) :
    (body msg).exec s =
      .ok (.error e, { s with cols := writeFirst msg (questionCount msg) 12 s.cols }) := by
  rw [body, exec_bind, questionLoop_first, h]

end Walk

/-- The columns that records are reported in. -/
def lists (c : DnsCols) : List (Option Text) × Option UInt32 :=
  ([c.dnsAnswers, c.dnsAnswerIps, c.dnsCnames, c.dnsNsNames, c.dnsMxNames, c.dnsTxtData],
    c.dnsTtlMin)

theorem lists_writeFirst (msg : Bytes) (count pos : ℕ) (c : DnsCols) :
    lists (writeFirst msg count pos c) = lists c := by
  cases count with
  | zero => rfl
  | succ count =>
      rw [writeFirst]
      cases questionAt msg pos <;> rfl

theorem lists_headerCols (msg : Bytes) (isMdns isLlmnr overTcp : Bool) (c : DnsCols) :
    lists (headerCols msg (openCols isMdns isLlmnr overTcp c)) = lists c := rfl

/-- **What parsing a message reports of its records**: what the walk says, or nothing. -/
theorem parse_reports {msg : Bytes} {isMdns isLlmnr overTcp : Bool} {s s' : Sink DnsCols}
    {r : Except DissectError Unit}
    (h : (parse msg isMdns isLlmnr overTcp).exec s = .ok (r, s')) :
    (r = .ok () ∧ ∃ c, lists c = lists s.cols ∧
      (reported msg (walk msg)).columns c = .ok s'.cols) ∨
    ((∃ e, r = .error e) ∧ lists s'.cols = lists s.cols) := by
  obtain ⟨stack, ⟨-, hexec⟩ | ⟨-, hexec⟩⟩ := parse_exec msg isMdns isLlmnr overTcp s
  · rw [hexec] at h
    have hlists : ∀ count, lists (writeFirst msg count 12
        (headerCols msg (openCols isMdns isLlmnr overTcp s.cols))) = lists s.cols := fun count =>
      (lists_writeFirst msg count 12 _).trans (lists_headerCols ..)
    cases hend : questionsEnd msg (questionCount msg) 12 with
    | ok start =>
        rw [body_of_ok hend] at h
        obtain ⟨c, hc, hr⟩ := map_eq_ok_iff.mp h
        cases hr
        exact .inl ⟨rfl, _, hlists _, hc⟩
    | error e =>
        rw [body_of_error hend] at h
        cases h
        exact .inr ⟨⟨e, rfl⟩, hlists _⟩
  · rw [hexec] at h
    cases h
    exact .inr ⟨⟨_, rfl⟩, rfl⟩

end AppDns

end PcapRacer
