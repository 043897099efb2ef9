/-
**The Host header of a request, and what a first part of the request shows of it.**

The HTTP dissector reads whatever lines of a head have arrived, a last line that was cut off
included.  A request whose Host line is cut in its value shows a shorter host.  Before the colon of
the first Host line a part of a request shows no host, and from the end of the last Host line on it
shows the host of the whole request.

Main definitions:

* `AppHttp.hostValue`, `AppHttp.lastHost`, `AppHttp.opens`, `AppHttp.shownHost` — the host that the
  dissector finds;
* `lineBytes`, `shownLines` — lines on the wire, and those that a first part of them shows;
* `AppHttp.hostSpans` — where Host lines stand;
* `RequestHead` — a complete request head.

Main results:

* `AppHttp.parse_host` — what the dissector does to the host column;
* `AppHttp.lastHost_shownLines_before`, `AppHttp.lastHost_shownLines_after` — the host that a first
  part of some lines shows;
* `RequestHead.shownHost_take` — the host that a first part of a request shows.
-/

import Mathlib.Data.List.TakeWhile
import PcapRacer.AppHttp
import PcapRacer.TextLossy

set_option relaxedAutoImplicit false
set_option autoImplicit false

namespace PcapRacer

namespace AppHttp

/-! ### The host column -/

/-- The value of a header line, if it is a Host header. -/
def hostValue (line : Text) : Option Text :=
  match headerField line with
  | some (name, value) => if name.toAsciiLowercase = "host".toList then some value else none
  | none => none

/-- The last Host header wins. -/
def lastHost : List Text → Option Text
  | [] => none
  | line :: rest => (lastHost rest).or (hostValue line)

/-- The dissector takes this for the first line of a message. -/
def opens (first : Text) : Prop :=
  "HTTP/".toList.isPrefixOf first = true ∨ (first.splitn ' ' 3)[0]?.getD [] ∈ knownMethods

instance (first : Text) : Decidable (opens first) := inferInstanceAs (Decidable (_ ∨ _))

/-- A host as it is kept in its column. -/
def kept (host : Text) : Option Text := (cap host 1024).toOption

theorem of_ite_eq_some {α : Type} {p : Prop} [Decidable p] {P : α → Prop} {a b : α} {o : Option α}
    (h : (if p then some a else o) = some b) (ha : P a) (ho : o = some b → P b) : P b := by
  split at h
  · cases h
    exact ha
  · exact ho h

/-- Recording a header leaves the host column alone. -/
def KeepsHost (set : Text → HttpCols → HttpCols) : Prop :=
  ∀ v c, (set v c).httpHost = c.httpHost

/-- Headers other than Host leave the host column alone. -/
theorem headerColumn_host {lower : Text} {set : Text → HttpCols → HttpCols}
    (h : headerColumn lower = some set) (hne : lower ≠ "host".toList) : KeepsHost set := by
  unfold headerColumn at h
  rw [if_neg hne] at h
  iterate 13 refine of_ite_eq_some (P := KeepsHost) h (fun v c => rfl) fun h => ?_
  cases h

theorem setHeader_host {lower value : Text} {s s' : Sink HttpCols} {r : Except DissectError Unit}
    (h : (setHeader lower value).exec s = .ok (r, s')) :
    r = .ok () ∧
      s'.cols.httpHost = if lower = "host".toList then kept value else s.cols.httpHost := by
  unfold setHeader at h
  split at h
  · next hlen =>
      cases h
      exact ⟨rfl, by rw [if_neg (by rw [hlen]; decide)]⟩
  · split at h
    · next set hset =>
        obtain ⟨v, hv, hcol⟩ := exec_panic_bind_eq_ok.mp h
        cases hcol
        refine ⟨rfl, ?_⟩
        split
        · next hhost =>
            subst hhost
            cases hset
            rw [kept, hv]
            rfl
        · next hne => exact headerColumn_host hset hne v _
    · next hnone =>
        cases h
        refine ⟨rfl, ?_⟩
        rw [if_neg]
        rintro rfl
        cases hnone

/-- Reading the header lines never gives up, and the last Host header stays. -/
theorem headers_host {lines names : List Text} {count : UInt16} {s s' : Sink HttpCols}
    {r : Except DissectError (List Text × UInt16)}
    (h : (headers lines names count).exec s = .ok (r, s')) :
    (∃ x, r = .ok x) ∧
      s'.cols.httpHost =
        match lastHost lines with
        | some v => kept v
        | none => s.cols.httpHost := by
  induction lines generalizing names count s with
  | nil =>
      cases h
      exact ⟨⟨_, rfl⟩, rfl⟩
  | cons line rest ih =>
      unfold headers at h
      unfold lastHost hostValue
      cases hf : headerField line with
      | none =>
          rw [hf] at h
          obtain ⟨hr, hhost⟩ := ih h
          refine ⟨hr, hhost.trans ?_⟩
          cases lastHost rest <;> rfl
      | some nv =>
          obtain ⟨name, value⟩ := nv
          rw [hf] at h
          obtain ⟨u, s₁, hset, hrest⟩ | ⟨e, hset, -⟩ := exec_bind_eq_ok.mp h
          · obtain ⟨-, hset⟩ := setHeader_host hset
            obtain ⟨hr, hhost⟩ := ih hrest
            refine ⟨hr, hhost.trans ?_⟩
            cases lastHost rest with
            | some v => rfl
            | none =>
                dsimp only
                rw [hset]
                split <;> rfl
          · cases (setHeader_host hset).1

/-- The host column, as a part of the state. -/
def hostCol (s : Sink HttpCols) : Option Text := s.cols.httpHost

theorem statusLine_host (parts : List Text) : (statusLine parts).Passes hostCol := by
  refine passes_bind (passes_col fun c => rfl) fun _ => ?_
  dsimp only
  split
  · exact passes_bind (passes_col fun c => rfl) fun _ => passes_col fun c => rfl
  · exact passes_col fun c => rfl

theorem requestUri_host (uri : Text) : (requestUri uri).Passes hostCol := by
  refine passes_bind (passes_liftPanic _) fun _ => passes_bind (passes_col fun c => rfl) fun _ => ?_
  split
  · refine passes_bind (passes_liftPanic _) fun _ =>
      passes_bind (passes_col fun c => rfl) fun _ => ?_
    exact passes_bind (passes_liftPanic _) fun _ => passes_col fun c => rfl
  · exact passes_bind (passes_liftPanic _) fun _ => passes_col fun c => rfl

/-- The first line of a message leaves the host column alone. -/
theorem startLine_of_opens {first : Text} (h : opens first) : (startLine first).Passes hostCol := by
  unfold startLine
  dsimp only
  split
  · exact statusLine_host _
  · next hstatus =>
      have hmethod : (first.splitn ' ' 3)[0]?.getD [] ∈ knownMethods := h.resolve_left hstatus
      unfold requestLine
      dsimp only
      rw [if_neg (not_not.mpr hmethod)]
      refine passes_bind (passes_col fun c => rfl) fun _ => ?_
      split
      · exact passes_bind (requestUri_host _) fun _ => passes_col fun c => rfl
      · exact passes_col fun c => rfl

/-- Any other line makes the dissector give up, with nothing written. -/
theorem startLine_of_not_opens {first : Text} (h : ¬ opens first) (s : Sink HttpCols) :
    (startLine first).exec s = .ok (.error .malformed, s) := by
  obtain ⟨hstatus, hmethod⟩ := not_or.mp h
  unfold startLine requestLine
  dsimp only
  rw [if_neg hstatus, if_pos hmethod]
  rfl

/-- The lines of the head of a payload. -/
def payloadLines (payload : Bytes) : List Text := headLines (headAndBody payload).1

/-- The host that a payload shows. -/
def shownHost (payload : Bytes) : Option Text :=
  match payloadLines payload with
  | first :: rest => if opens first then (lastHost rest).bind kept else none
  | [] => none

/-- What is left to do after the header lines. -/
theorem closing_host (names : List Text) (count : UInt16) (body : Bytes) :
    Dissect.Passes (do
      col fun c => { c with httpHeaderCount := some count }
      if names ≠ [] then
        let joined ← cap (Text.join [','] names) 1024
        col fun c => { c with httpHeaderNames := some joined }
      if body ≠ [] then
        col fun c => { c with httpBodyPreview := some (preview body 256) } : M Unit) hostCol := by
  have hbody : (if body ≠ [] then
      col fun c => { c with httpBodyPreview := some (preview body 256) } else pure () : M Unit).Passes
      hostCol := by
    split
    · exact passes_col fun c => rfl
    · exact passes_pure _
  refine passes_bind (passes_col fun c => rfl) fun _ => ?_
  dsimp only
  split
  · exact passes_bind (passes_liftPanic _) fun _ =>
      passes_bind (passes_col fun c => rfl) fun _ => hbody
  · exact hbody

/-- **What the dissector does to the host column**: it writes the host that the payload shows, and
when it gives up there is none. -/
theorem parse_host {payload : Bytes} {s s' : Sink HttpCols} {r : Except DissectError Unit}
    (h : (parse payload).exec s = .ok (r, s')) (hs : hostCol s = none) :
    hostCol s' = shownHost payload ∧ ((∃ u, r = .ok u) ∨ shownHost payload = none) := by
  unfold shownHost payloadLines
  obtain ⟨u, s₁, hlayer, h⟩ | ⟨e, hlayer, -⟩ := exec_bind_eq_ok.mp h
  · cases hlayer
    dsimp only at h
    cases hl : headLines (headAndBody payload).1 with
    | nil =>
        rw [hl] at h
        cases h
        exact ⟨hs, .inr rfl⟩
    | cons first rest =>
        rw [hl] at h
        by_cases ho : opens first
        · dsimp only
          rw [if_pos ho]
          obtain ⟨u, s₂, hstart, h⟩ | ⟨e, hstart, -⟩ := exec_bind_eq_ok.mp h
          · obtain ⟨-, hstart⟩ := startLine_of_opens ho _ _ _ hstart
            obtain ⟨x, s₃, hheaders, h⟩ | ⟨e, hheaders, -⟩ := exec_bind_eq_ok.mp h
            · obtain ⟨-, hhost⟩ := headers_host hheaders
              obtain ⟨hr, hclose⟩ := closing_host x.1 x.2 _ _ _ _ h
              refine ⟨hclose.trans (hhost.trans ?_), .inl hr⟩
              cases lastHost rest with
              | some v => rfl
              | none => exact hstart.trans hs
            · obtain ⟨⟨x, hx⟩, -⟩ := headers_host hheaders
              cases hx
          · obtain ⟨⟨u, hu⟩, -⟩ := startLine_of_opens ho _ _ _ hstart
            cases hu
        · dsimp only
          rw [if_neg ho]
          obtain ⟨u, s₂, hstart, h⟩ | ⟨e, hstart, -⟩ := exec_bind_eq_ok.mp h
          · rw [startLine_of_not_opens ho] at hstart
            cases hstart
          · rw [startLine_of_not_opens ho] at hstart
            cases hstart
            exact ⟨hs, .inr rfl⟩
  · cases hlayer

end AppHttp

/-! ### Lines -/

/-- Lines, each closed by CR LF, and a blank line. -/
def lineBytes (ls : List Bytes) : Bytes := ls.flatMap (· ++ [13, 10]) ++ [13, 10]

theorem lineBytes_cons (l : Bytes) (ls : List Bytes) :
    lineBytes (l :: ls) = l ++ 13 :: 10 :: lineBytes ls := by
  simp [lineBytes, List.flatMap_cons]

/-- The lines that the first `k` bytes show. -/
def shownLines (ls : List Bytes) (k : ℕ) : List Text :=
  (Text.lossy ((lineBytes ls).take k)).splitCrlf

theorem not_mem_cr_lossy {l : Bytes} (h : 13 ∉ l) : '\r' ∉ Text.lossy l := fun hm =>
  h (Text.mem_of_mem_lossy (by decide) (by decide) hm)

theorem splitCrlf_of_not_mem {t : Text} (h : '\r' ∉ t) : t.splitCrlf = [t] := by
  induction t with
  | nil => rfl
  | cons c t ih =>
      obtain ⟨hc, ht⟩ := List.ne_and_not_mem_of_not_mem_cons h
      cases t with
      | nil => rfl
      | cons d t =>
          rw [Text.splitCrlf, if_neg fun hcd => hc hcd.1.symm, ih ht]

theorem splitCrlf_append_cr {t : Text} (h : '\r' ∉ t) :
    Text.splitCrlf (t ++ ['\r']) = [t ++ ['\r']] := by
  induction t with
  | nil => rfl
  | cons c t ih =>
      obtain ⟨hc, ht⟩ := List.ne_and_not_mem_of_not_mem_cons h
      cases t with
      | nil =>
          rw [List.cons_append, List.nil_append, Text.splitCrlf, if_neg fun hcd => hc hcd.1.symm]
          rfl
      | cons d t =>
          rw [List.cons_append, List.cons_append, Text.splitCrlf, if_neg fun hcd => hc hcd.1.symm,
            ← List.cons_append, ih ht]

theorem splitCrlf_append_crlf {t : Text} (h : '\r' ∉ t) (u : Text) :
    Text.splitCrlf (t ++ '\r' :: '\n' :: u) = t :: u.splitCrlf := by
  induction t with
  | nil => rw [List.nil_append, Text.splitCrlf, if_pos ⟨rfl, rfl⟩]
  | cons c t ih =>
      obtain ⟨hc, ht⟩ := List.ne_and_not_mem_of_not_mem_cons h
      have hne : ∀ d, ¬ (c = '\r' ∧ d = '\n') := fun d hcd => hc hcd.1.symm
      cases t with
      | nil =>
          rw [List.cons_append, List.nil_append, Text.splitCrlf, if_neg (hne _)]
          rw [show Text.splitCrlf ('\r' :: '\n' :: u) = [] :: u.splitCrlf from ih ht]
      | cons d t =>
          rw [List.cons_append, List.cons_append, Text.splitCrlf, if_neg (hne _),
            ← List.cons_append, ih ht]

section Shown

variable {l : Bytes} (hcr : 13 ∉ l) (ls : List Bytes)

include hcr

/-- A first line that is cut off. -/
theorem shownLines_of_le {k : ℕ} (hk : k ≤ l.length) :
    shownLines (l :: ls) k = [Text.lossy (l.take k)] := by
  rw [shownLines, lineBytes_cons, List.take_append_of_le_length hk]
  exact splitCrlf_of_not_mem (not_mem_cr_lossy fun h => hcr (List.mem_of_mem_take h))

/-- A first line that is cut off between CR and LF. -/
theorem shownLines_of_eq : shownLines (l :: ls) (l.length + 1) = [Text.lossy l ++ ['\r']] := by
  rw [shownLines, lineBytes_cons, List.take_length_add_append, List.take_succ_cons, List.take_zero,
    Text.lossy_append_cons (by decide)]
  exact splitCrlf_append_cr (not_mem_cr_lossy hcr)

/-- A complete first line. -/
theorem shownLines_of_ge (k : ℕ) :
    shownLines (l :: ls) (l.length + 2 + k) = Text.lossy l :: shownLines ls k := by
  rw [shownLines, lineBytes_cons, Nat.add_assoc, List.take_length_add_append, Nat.add_comm 2 k,
    List.take_succ_cons, List.take_succ_cons, Text.lossy_append_cons (by decide),
    show Text.lossy (10 :: (lineBytes ls).take k) = '\n' :: Text.lossy ((lineBytes ls).take k)
      from Text.lossy_append_cons (by decide) [] _]
  exact splitCrlf_append_crlf (not_mem_cr_lossy hcr) _

end Shown

/-! ### Host lines -/

namespace AppHttp

theorem splitOnce_of_not_mem {t : Text} {c : Char} (h : c ∉ t) : t.splitOnce c = none := by
  have hdrop : t.dropWhile (· ≠ c) = [] := by
    rw [List.dropWhile_eq_nil_iff]
    exact fun x hx => decide_eq_true fun he => h (he ▸ hx)
  rw [Text.splitOnce, hdrop]

theorem splitOnce_append_cons {t : Text} {c : Char} (h : c ∉ t) (u : Text) :
    Text.splitOnce c (t ++ c :: u) = some (t, u) := by
  have hall : ∀ x ∈ t, decide (x ≠ c) = true := fun x hx => decide_eq_true fun he => h (he ▸ hx)
  rw [Text.splitOnce, List.dropWhile_append_of_pos hall, List.takeWhile_append_of_pos hall]
  simp

theorem not_mem_colon_lossy {l : Bytes} (h : 58 ∉ l) : ':' ∉ Text.lossy l := fun hm =>
  h (Text.mem_of_mem_lossy (by decide) (by decide) hm)

/-- A line without a colon is no header. -/
theorem headerField_of_not_mem {l : Bytes} (h : 58 ∉ l) : headerField (Text.lossy l) = none := by
  rw [headerField, splitOnce_of_not_mem (not_mem_colon_lossy h)]
  rfl

/-- Name and value stand around the first colon. -/
theorem headerField_append_cons {n : Bytes} (h : 58 ∉ n) (v : Bytes) :
    headerField (Text.lossy (n ++ 58 :: v)) =
      some ((Text.lossy n).trim, (Text.lossy v).trim) := by
  rw [headerField, Text.lossy_append_cons (by decide)]
  rw [show Char.ofNat (58 : UInt8).toNat = ':' from rfl,
    splitOnce_append_cons (not_mem_colon_lossy h)]
  rfl

/-- White space at the end does not matter to trimming. -/
theorem trim_append_singleton (t : Text) {c : Char} (h : Text.isWhitespace c = true) :
    Text.trim (t ++ [c]) = t.trim := by
  unfold Text.trim Text.trimMatches Text.trimEndMatches
  rw [List.dropWhile_append]
  split
  · next hnil =>
      rw [List.isEmpty_iff.mp hnil, List.dropWhile_cons_of_pos h]
      rfl
  · rw [List.reverse_append, List.reverse_singleton, List.singleton_append,
      List.dropWhile_cons_of_pos h]

/-- A line is cut at its first colon, if it has one. -/
theorem exists_colon {l : Bytes} (h : 58 ∈ l) :
    ∃ n v, l = n ++ 58 :: v ∧ 58 ∉ n ∧ l.idxOf 58 = n.length := by
  induction l with
  | nil => cases h
  | cons b l ih =>
      by_cases hb : b = 58
      · subst hb
        exact ⟨[], l, rfl, List.not_mem_nil, List.idxOf_cons_self⟩
      · obtain ⟨n, v, hl, hn, hidx⟩ := ih ((List.mem_cons.mp h).resolve_left fun he => hb he.symm)
        refine ⟨b :: n, v, by rw [hl]; rfl, ?_, ?_⟩
        · rw [List.mem_cons, not_or]
          exact ⟨fun he => hb he.symm, hn⟩
        · rw [List.idxOf_cons_ne _ hb, hidx]
          rfl

/-- Up to its first colon a line is no header. -/
theorem hostValue_take_of_le {l : Bytes} {k : ℕ} (hk : k ≤ l.idxOf 58) :
    hostValue (Text.lossy (l.take k)) = none := by
  have hnot : 58 ∉ l.take k := by
    by_cases h : 58 ∈ l
    · obtain ⟨n, v, hl, hn, hidx⟩ := exists_colon h
      rw [hl, List.take_append_of_le_length (hidx ▸ hk)]
      exact fun hm => hn (List.mem_of_mem_take hm)
    · exact fun hm => h (List.mem_of_mem_take hm)
  rw [hostValue, headerField_of_not_mem hnot]

/-- A line that is no Host header is none when it is cut off. -/
theorem hostValue_take_of_none {l : Bytes} (h : hostValue (Text.lossy l) = none) (k : ℕ) :
    hostValue (Text.lossy (l.take k)) = none := by
  rcases Nat.lt_or_ge (l.idxOf 58) k with hk | hk
  · by_cases hm : 58 ∈ l
    · obtain ⟨n, v, hl, hn, hidx⟩ := exists_colon hm
      obtain ⟨j, rfl⟩ : ∃ j, k = n.length + (j + 1) := ⟨k - n.length - 1, by omega⟩
      rw [hl] at h ⊢
      rw [List.take_length_add_append, List.take_succ_cons]
      unfold hostValue at h ⊢
      rw [headerField_append_cons hn] at h ⊢
      dsimp only at h ⊢
      split at h
      · cases h
      · next hne => rw [if_neg hne]
    · rw [hostValue, headerField_of_not_mem fun hm' => hm (List.mem_of_mem_take hm')]
  · exact hostValue_take_of_le hk

/-- A carriage return at the end of a line does not matter. -/
theorem hostValue_append_cr (l : Bytes) :
    hostValue (Text.lossy l ++ ['\r']) = hostValue (Text.lossy l) := by
  by_cases hm : 58 ∈ l
  · obtain ⟨n, v, hl, hn, -⟩ := exists_colon hm
    have hcr : Text.lossy l ++ ['\r'] = Text.lossy (n ++ 58 :: (v ++ [13])) := by
      rw [hl, Text.lossy_append_cons (by decide), Text.lossy_append_cons (by decide),
        Text.lossy_append_cons (by decide), List.append_assoc]
      rfl
    rw [hcr, hl]
    unfold hostValue
    rw [headerField_append_cons hn, headerField_append_cons hn, Text.lossy_append_cons (by decide)]
    rw [show Char.ofNat (13 : UInt8).toNat :: Text.lossy [] = ['\r'] from rfl,
      trim_append_singleton _ (by decide)]
  · have hcr : Text.lossy l ++ ['\r'] = Text.lossy (l ++ [13]) := by
      rw [Text.lossy_append_cons (by decide)]
      rfl
    have hnot : 58 ∉ l ++ [13] := by simp [hm]
    rw [hcr, hostValue, hostValue, headerField_of_not_mem hnot, headerField_of_not_mem hm]

/-! ### Where Host lines stand -/

/-- The colon and the end of each Host line, when the lines start at `off`. -/
def hostSpans : ℕ → List Bytes → List (ℕ × ℕ)
  | _, [] => []
  | off, l :: ls =>
      (if (hostValue (Text.lossy l)).isSome then [(off + l.idxOf 58, off + l.length)] else []) ++
        hostSpans (off + l.length + 2) ls

section Spans

variable {l : Bytes} {ls : List Bytes}

theorem mem_hostSpans_self (off : ℕ) (ls : List Bytes) (h : (hostValue (Text.lossy l)).isSome) :
    (off + l.idxOf 58, off + l.length) ∈ hostSpans off (l :: ls) := by
  rw [hostSpans, if_pos h]
  exact List.mem_append_left _ (List.mem_singleton_self _)

theorem hostValue_eq_none (off : ℕ) (ls : List Bytes)
    (h : (off + l.idxOf 58, off + l.length) ∉ hostSpans off (l :: ls)) :
    hostValue (Text.lossy l) = none := by
  cases hv : hostValue (Text.lossy l) with
  | none => rfl
  | some v => exact absurd (mem_hostSpans_self off ls (by rw [hv]; rfl)) h

theorem mem_hostSpans_of_mem {off : ℕ} {s : ℕ × ℕ} (h : s ∈ hostSpans (off + l.length + 2) ls) :
    s ∈ hostSpans off (l :: ls) := List.mem_append_right _ h

/-- Host lines stand within the lines. -/
theorem hostSpans_bounds {off : ℕ} {s : ℕ × ℕ} (h : s ∈ hostSpans off ls) :
    off ≤ s.2 ∧ s.2 + 4 ≤ off + (lineBytes ls).length := by
  induction ls generalizing off with
  | nil => cases h
  | cons l ls ih =>
      have hlen : (lineBytes (l :: ls)).length = l.length + 2 + (lineBytes ls).length := by
        rw [lineBytes_cons, List.length_append, List.length_cons, List.length_cons]
        omega
      rcases List.mem_append.mp h with h | h
      · have hblank : 2 ≤ (lineBytes ls).length := by
          rw [lineBytes, List.length_append]
          exact Nat.le_add_left _ _
        split at h
        · cases List.mem_singleton.mp h
          dsimp only
          omega
        · cases h
      · have := ih h
        omega

/-- When every Host line ends before the lines start, there is none. -/
theorem lastHost_of_early (off : ℕ) {k : ℕ} (hk : k < off)
    (h : ∀ s ∈ hostSpans off ls, s.2 ≤ k) :
    lastHost (ls.map Text.lossy) = none := by
  induction ls generalizing off with
  | nil => rfl
  | cons l ls ih =>
      have hl : hostValue (Text.lossy l) = none := by
        refine hostValue_eq_none off ls fun hmem => ?_
        have hs := h _ hmem
        dsimp only at hs
        omega
      rw [List.map_cons, lastHost, hl,
        ih (off + l.length + 2) (by omega) fun s hs => h s (mem_hostSpans_of_mem hs)]
      rfl

theorem lastHost_singleton (line : Text) : lastHost [line] = hostValue line := rfl

/-- A blank line, whole or not, shows no host. -/
theorem lastHost_shownLines_nil (k : ℕ) : lastHost (shownLines [] k) = none := by
  rcases k with _ | _ | k
  · rfl
  · rfl
  · rw [shownLines, List.take_of_length_le (Nat.le_add_left 2 k)]
    rfl

/-- How many bytes of a first line and its end are there. -/
theorem cut_cases (l : Bytes) (k : ℕ) :
    k ≤ l.length ∨ k = l.length + 1 ∨ ∃ j, k = l.length + 2 + j := by
  rcases Nat.lt_or_ge k (l.length + 2) with h | h
  · omega
  · exact .inr (.inr ⟨k - (l.length + 2), by omega⟩)

/-- **Before the first Host colon no host is shown.** -/
theorem lastHost_shownLines_before (hcr : ∀ l ∈ ls, 13 ∉ l) (off k : ℕ)
    (h : ∀ s ∈ hostSpans off ls, off + k ≤ s.1) : lastHost (shownLines ls k) = none := by
  induction ls generalizing off k with
  | nil => exact lastHost_shownLines_nil k
  | cons l ls ih =>
      have hl : 13 ∉ l := hcr l List.mem_cons_self
      -- past its colon a line is no Host line
      have hcolon : l.idxOf 58 < k → hostValue (Text.lossy l) = none := by
        intro hk
        refine hostValue_eq_none off ls fun hmem => ?_
        have hs := h _ hmem
        dsimp only at hs
        omega
      have hidx : l.idxOf 58 ≤ l.length := List.idxOf_le_length
      rcases cut_cases l k with hk | rfl | ⟨j, rfl⟩
      · rw [shownLines_of_le hl ls hk, lastHost_singleton]
        rcases Nat.lt_or_ge (l.idxOf 58) k with hlt | hge
        · exact hostValue_take_of_none (hcolon hlt) k
        · exact hostValue_take_of_le hge
      · rw [shownLines_of_eq hl, lastHost_singleton, hostValue_append_cr]
        exact hcolon (by omega)
      · rw [shownLines_of_ge hl, lastHost, hcolon (by omega)]
        rw [ih (fun x hx => hcr x (List.mem_cons_of_mem _ hx)) (off + l.length + 2) j
          fun s hs => ?_]
        · rfl
        · have := h s (mem_hostSpans_of_mem hs)
          omega

/-- **From the end of the last Host line on the last host is shown.** -/
theorem lastHost_shownLines_after (hcr : ∀ l ∈ ls, 13 ∉ l) (off k : ℕ)
    (h : ∀ s ∈ hostSpans off ls, s.2 ≤ off + k) :
    lastHost (shownLines ls k) = lastHost (ls.map Text.lossy) := by
  induction ls generalizing off k with
  | nil => exact lastHost_shownLines_nil k
  | cons l ls ih =>
      have hl : 13 ∉ l := hcr l List.mem_cons_self
      have hrest : ∀ s ∈ hostSpans (off + l.length + 2) ls, s.2 ≤ off + k := fun s hs =>
        h s (mem_hostSpans_of_mem hs)
      rcases cut_cases l k with hk | rfl | ⟨j, rfl⟩
      · -- no Host line follows, and this one is whole if it is one
        rw [shownLines_of_le hl ls hk, List.map_cons, lastHost_singleton, lastHost,
          lastHost_of_early _ (by omega) hrest, Option.none_or]
        cases hv : hostValue (Text.lossy l) with
        | none => exact hostValue_take_of_none hv k
        | some v =>
            have hs := h _ (mem_hostSpans_self off ls (by rw [hv]; rfl))
            dsimp only at hs
            rw [List.take_of_length_le (by omega), hv]
      · rw [shownLines_of_eq hl, List.map_cons, lastHost_singleton, hostValue_append_cr, lastHost,
          lastHost_of_early _ (by omega) hrest, Option.none_or]
      · rw [shownLines_of_ge hl, List.map_cons, lastHost, lastHost,
          ih (fun x hx => hcr x (List.mem_cons_of_mem _ hx)) (off + l.length + 2) j fun s hs => ?_]
        have := hrest s hs
        omega

end Spans

/-! ### The end of a head -/

theorem findHeaderEnd_append {l : Bytes} (h : 13 ∉ l) (r : Bytes) :
    findHeaderEnd (l ++ r) = (findHeaderEnd r).map (· + l.length) := by
  induction l with
  | nil => simp
  | cons b l ih =>
      obtain ⟨hb, hl⟩ := List.ne_and_not_mem_of_not_mem_cons h
      have hpre : crlfCrlf.isPrefixOf (b :: (l ++ r)) = false := by
        rw [crlfCrlf, List.isPrefixOf_cons_cons, beq_eq_false_iff_ne.mpr hb, Bool.false_and]
      rw [List.cons_append, findHeaderEnd, hpre, if_neg (by decide), ih hl, Option.map_map]
      rfl

/-- CR LF that no CR follows is not the end of a head. -/
theorem findHeaderEnd_crlf_cons {b : UInt8} (h : b ≠ 13) (r : Bytes) :
    findHeaderEnd (13 :: 10 :: b :: r) = (findHeaderEnd (b :: r)).map (· + 2) := by
  have hpre : crlfCrlf.isPrefixOf (13 :: 10 :: b :: r) = false := by
    change ([13, 10] : Bytes).isPrefixOf (b :: r) = false
    rw [List.isPrefixOf_cons_cons, beq_eq_false_iff_ne.mpr h.symm, Bool.false_and]
  have hpre' : crlfCrlf.isPrefixOf (10 :: b :: r) = false := rfl
  rw [findHeaderEnd, hpre, if_neg (by decide), findHeaderEnd, hpre', if_neg (by decide),
    Option.map_map]
  rfl

/-- The blank line is where a head of non-empty lines ends. -/
theorem findHeaderEnd_lineBytes {l : Bytes} {ls : List Bytes} (hcr : ∀ x ∈ l :: ls, 13 ∉ x)
    (hne : ∀ x ∈ ls, x ≠ []) :
    findHeaderEnd (lineBytes (l :: ls)) = some ((lineBytes (l :: ls)).length - 4) := by
  induction ls generalizing l with
  | nil =>
      rw [lineBytes_cons, findHeaderEnd_append (hcr l List.mem_cons_self)]
      rw [show findHeaderEnd (13 :: 10 :: lineBytes []) = some 0 from rfl, List.length_append,
        show (13 :: 10 :: lineBytes []).length = 4 from rfl, Nat.add_sub_cancel, Option.map_some,
        Nat.zero_add]
  | cons l' ls ih =>
      have hrec := ih (fun x hx => hcr x (List.mem_cons_of_mem _ hx))
        fun x hx => hne x (List.mem_cons_of_mem _ hx)
      obtain ⟨b, t, rfl⟩ := List.exists_cons_of_ne_nil (hne l' List.mem_cons_self)
      have hb : b ≠ 13 := fun he =>
        hcr (b :: t) (List.mem_cons_of_mem _ List.mem_cons_self) (he ▸ List.mem_cons_self)
      have hfour : 4 ≤ (lineBytes ((b :: t) :: ls)).length := by
        rw [lineBytes_cons, List.length_append, lineBytes]
        simp
        omega
      rw [lineBytes_cons l, findHeaderEnd_append (hcr l List.mem_cons_self)]
      rw [lineBytes_cons] at hrec hfour ⊢
      rw [List.cons_append] at hrec hfour ⊢
      rw [findHeaderEnd_crlf_cons hb, hrec]
      simp only [Option.map_some, List.length_append, List.length_cons] at hfour ⊢
      congr 1
      omega

/-- A blank line that is found is there. -/
theorem isPrefixOf_of_findHeaderEnd {m : Bytes} {i : ℕ} (h : findHeaderEnd m = some i) :
    crlfCrlf <+: m.drop i := by
  induction m generalizing i with
  | nil => cases h
  | cons b m ih =>
      unfold findHeaderEnd at h
      split at h
      · next hpre =>
          cases h
          exact List.isPrefixOf_iff_prefix.mp hpre
      · obtain ⟨j, hj, rfl⟩ := Option.map_eq_some_iff.mp h
        exact ih hj

/-- The first blank line comes first. -/
theorem findHeaderEnd_le {m : Bytes} {i : ℕ} (h : crlfCrlf <+: m.drop i) :
    ∃ j, findHeaderEnd m = some j ∧ j ≤ i := by
  induction m generalizing i with
  | nil =>
      rw [List.drop_nil] at h
      cases List.prefix_nil.mp h
  | cons b m ih =>
      unfold findHeaderEnd
      split
      · exact ⟨0, rfl, Nat.zero_le i⟩
      · next hpre =>
          cases i with
          | zero => exact absurd (List.isPrefixOf_iff_prefix.mpr h) hpre
          | succ i =>
              obtain ⟨j, hj, hle⟩ := ih h
              exact ⟨j + 1, by rw [hj]; rfl, Nat.succ_le_succ hle⟩

/-- Cut off inside its blank line, a head has none. -/
theorem findHeaderEnd_take {m : Bytes} {i k : ℕ} (h : findHeaderEnd m = some i) (hk : k < i + 4) :
    findHeaderEnd (m.take k) = none := by
  cases hf : findHeaderEnd (m.take k) with
  | none => rfl
  | some j =>
      have hpre := isPrefixOf_of_findHeaderEnd hf
      have hlen := hpre.length_le
      rw [List.length_drop, List.length_take] at hlen
      have hfour : crlfCrlf.length = 4 := rfl
      have hdrop : crlfCrlf <+: m.drop j := by
        rw [List.drop_take] at hpre
        exact hpre.trans (List.take_prefix _ _)
      obtain ⟨i', hi', hle⟩ := findHeaderEnd_le hdrop
      rw [h] at hi'
      cases hi'
      omega

end AppHttp

/-! ### Requests -/

/-- A complete HTTP/1 request head: a request line and header lines, none of them empty and none
with a carriage return inside; the request line starts with a visible character. -/
structure RequestHead where
  start : Bytes
  fields : List Bytes
  start_visible : ∃ b rest, start = b :: rest ∧ 0x21 ≤ b ∧ b ≤ 0x7e
  fields_ne : ∀ l ∈ fields, l ≠ []
  no_cr : ∀ l ∈ start :: fields, 13 ∉ l

namespace RequestHead

open AppHttp (hostValue lastHost shownHost opens kept)

variable (h : RequestHead)

/-- The head on the wire. -/
def bytes : Bytes := lineBytes (h.start :: h.fields)

/-- The colon and the end of each Host line. -/
def hostSpans : List (ℕ × ℕ) := AppHttp.hostSpans (h.start.length + 2) h.fields

/-- The host of the request. -/
def host : Option Text :=
  if opens (Text.lossy h.start) then (lastHost (h.fields.map Text.lossy)).bind kept else none

theorem length_bytes :
    h.bytes.length = h.start.length + 2 + (lineBytes h.fields).length := by
  rw [bytes, lineBytes_cons, List.length_append, List.length_cons, List.length_cons]
  omega

theorem findHeaderEnd_bytes : AppHttp.findHeaderEnd h.bytes = some (h.bytes.length - 4) :=
  AppHttp.findHeaderEnd_lineBytes h.no_cr h.fields_ne

/-- How much of the first `k` bytes is head: the blank line is not. -/
def headLen (k : ℕ) : ℕ := if k < h.bytes.length then k else h.bytes.length - 4

theorem headAndBody_take (k : ℕ) :
    (AppHttp.headAndBody (h.bytes.take k)).1 = h.bytes.take (h.headLen k) := by
  have hend := h.findHeaderEnd_bytes
  rw [headLen, AppHttp.headAndBody]
  by_cases hk : k < h.bytes.length
  · rw [if_pos hk, AppHttp.findHeaderEnd_take hend (by omega)]
  · rw [if_neg hk, List.take_of_length_le (Nat.le_of_not_lt hk), hend]

theorem lastHost_filter (lines : List Text) :
    lastHost (lines.filter (!·.isEmpty)) = lastHost lines := by
  induction lines with
  | nil => rfl
  | cons line lines ih =>
      cases line with
      | nil =>
          rw [List.filter_cons_of_neg (by simp), ih, lastHost]
          exact (Option.or_none).symm
      | cons c line => rw [List.filter_cons_of_pos (by simp), lastHost, lastHost, ih]

theorem payloadLines_take (k : ℕ) :
    AppHttp.payloadLines (h.bytes.take k) =
      (shownLines (h.start :: h.fields) (h.headLen k)).filter (!·.isEmpty) := by
  rw [AppHttp.payloadLines, headAndBody_take]
  rfl

theorem no_cr_start : 13 ∉ h.start := h.no_cr h.start List.mem_cons_self

theorem no_cr_fields : ∀ l ∈ h.fields, 13 ∉ l := fun l hl =>
  h.no_cr l (List.mem_cons_of_mem _ hl)

/-- Without a whole request line no host is shown. -/
theorem shownHost_of_lt {k : ℕ} (hk : h.headLen k < h.start.length + 2) :
    shownHost (h.bytes.take k) = none := by
  have hone : ∃ line, shownLines (h.start :: h.fields) (h.headLen k) = [line] := by
    rcases AppHttp.cut_cases h.start (h.headLen k) with hle | heq | ⟨j, hj⟩
    · exact ⟨_, shownLines_of_le h.no_cr_start _ hle⟩
    · rw [heq]
      exact ⟨_, shownLines_of_eq h.no_cr_start _⟩
    · omega
  obtain ⟨line, hline⟩ := hone
  rw [shownHost, payloadLines_take, hline]
  cases line with
  | nil => rfl
  | cons c line =>
      rw [List.filter_cons_of_pos (by simp), List.filter_nil]
      exact ite_self none

/-- After the request line, the header lines that are there count. -/
theorem shownHost_of_ge {k j : ℕ} (hk : h.headLen k = h.start.length + 2 + j) :
    shownHost (h.bytes.take k) =
      if opens (Text.lossy h.start) then (lastHost (shownLines h.fields j)).bind kept else none := by
  obtain ⟨b, rest, hstart, -⟩ := h.start_visible
  have hne : (!(Text.lossy h.start).isEmpty) = true := by
    rw [hstart]
    rfl
  rw [shownHost, payloadLines_take, hk, shownLines_of_ge h.no_cr_start,
    List.filter_cons_of_pos (p := fun line : Text => !line.isEmpty) hne]
  dsimp only
  rw [lastHost_filter]

/-- Host lines end before the blank line. -/
theorem hostSpans_le {s : ℕ × ℕ} (hs : s ∈ h.hostSpans) :
    h.start.length + 2 ≤ s.2 ∧ s.2 ≤ h.bytes.length - 4 := by
  have := AppHttp.hostSpans_bounds hs
  rw [length_bytes]
  omega

theorem shownHost_before {k : ℕ} (hlt : k < h.bytes.length) (hk : ∀ s ∈ h.hostSpans, k ≤ s.1) :
    shownHost (h.bytes.take k) = none := by
  have hlen : h.headLen k = k := if_pos hlt
  rcases Nat.lt_or_ge k (h.start.length + 2) with hshort | hlong
  · exact h.shownHost_of_lt (by rw [hlen]; exact hshort)
  · obtain ⟨j, rfl⟩ := Nat.exists_eq_add_of_le hlong
    rw [h.shownHost_of_ge hlen, AppHttp.lastHost_shownLines_before h.no_cr_fields _ j hk]
    exact ite_self none

theorem shownHost_after {k : ℕ} (hk : ∀ s ∈ h.hostSpans, s.2 ≤ k) :
    shownHost (h.bytes.take k) = h.host := by
  have hspans : ∀ s ∈ h.hostSpans, s.2 ≤ h.headLen k := by
    intro s hs
    unfold headLen
    split
    · exact hk s hs
    · exact (h.hostSpans_le hs).2
  rcases Nat.lt_or_ge (h.headLen k) (h.start.length + 2) with hshort | hlong
  · rw [h.shownHost_of_lt hshort, host, AppHttp.lastHost_of_early _ hshort hspans]
    exact (ite_self none).symm
  · obtain ⟨j, hj⟩ := Nat.exists_eq_add_of_le hlong
    rw [hj] at hspans
    rw [h.shownHost_of_ge hj, AppHttp.lastHost_shownLines_after h.no_cr_fields _ j hspans, host]

/-- No Host header is cut at `k`: the cut comes before the colon of every Host line, or after the end
of every Host line. -/
def ClearOfHost (k : ℕ) : Prop :=
  (∀ s ∈ h.hostSpans, k ≤ s.1) ∨ (∀ s ∈ h.hostSpans, s.2 ≤ k)

/-- **A first part of a request whose end is clear of Host headers shows the host of the request, or
none.** -/
theorem shownHost_take {k : ℕ} (hk : h.ClearOfHost k) :
    shownHost (h.bytes.take k) = none ∨ shownHost (h.bytes.take k) = h.host := by
  rcases hk with hk | hk
  · rcases Nat.lt_or_ge k h.bytes.length with hlt | hge
    · exact .inl (h.shownHost_before hlt hk)
    · refine .inr (h.shownHost_after fun s hs => ?_)
      have := (h.hostSpans_le hs).2
      omega
  · exact .inr (h.shownHost_after hk)

theorem shownHost_bytes : shownHost h.bytes = h.host := by
  have := h.shownHost_after (k := h.bytes.length) fun s hs =>
    Nat.le_trans (h.hostSpans_le hs).2 (Nat.sub_le _ _)
  rwa [List.take_length] at this

/-- The preface of HTTP/2 has a blank line in the middle, so no part of a request is one. -/
theorem not_looksLikeHttp2 (k : ℕ) : AppHttp.looksLikeHttp2 (h.bytes.take k) = false := by
  rw [Bool.eq_false_iff]
  intro hpre
  obtain ⟨r, hr⟩ := List.isPrefixOf_iff_prefix.mp hpre
  have hblank : AppHttp.findHeaderEnd (h.bytes.take k) = some 14 := by
    rw [← hr]
    rfl
  have hlen : 24 ≤ (h.bytes.take k).length := by
    rw [← hr, List.length_append]
    exact Nat.le_add_right 24 _
  rw [List.length_take] at hlen
  by_cases hk : k < h.bytes.length
  · rw [AppHttp.findHeaderEnd_take h.findHeaderEnd_bytes (by omega)] at hblank
    cases hblank
  · rw [List.take_of_length_le (Nat.le_of_not_lt hk), findHeaderEnd_bytes] at hblank
    have := Option.some.inj hblank
    omega

end RequestHead

end PcapRacer
