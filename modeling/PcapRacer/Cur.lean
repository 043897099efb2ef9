/-
**The read cursor.**

Every dissector reads through `Cur`: a byte string and a position that never leaves it.  A read
past the end is an error, not a crash.  The formatting helpers that the dissectors share stand
here too.

A cursor also carries the place of its byte string in the buffer it was cut from.  No read depends
on it; it is what a slice of the source is, namely a stretch of the buffer, and it lets theorems
say which bytes of a frame a cursor looks at.

Main definitions:

* `DissectError` — why a single dissector gave up on a single packet;
* `Cur` and its reads — `Cur.take`, `Cur.skip`, `Cur.sub`, `Cur.u8`, `Cur.be16`, …;
* `hexBytes`, `fmtMac`, `entropy`, `preview`, `asciiString`, `cap` — formatting.

Main results:

* `Cur.take_eq_ok_iff` — when a read succeeds, and what it does;
* `Cur.Within.trans`, `Cur.take_within`, `Cur.sub_within` — a read never leaves the view it
  started from.
-/

import PcapRacer.Text

set_option relaxedAutoImplicit false
set_option autoImplicit false

namespace PcapRacer

/-- Why a single dissector gave up on a single packet. -/
inductive DissectError where
  /-- Ran off the end of the buffer. -/
  | truncated
  /-- Field values are inconsistent or out of range. -/
  | malformed
  /-- Protocol recognised but not dissected. -/
  | unsupported
  /-- Tunnel nesting limit reached. -/
  | depthExceeded
  deriving DecidableEq

/-- The value of bytes in network order. -/
def beNat (b : Bytes) : ℕ := b.foldl (fun n x => n * 256 + x.toNat) 0

/-- The value of bytes in little-endian order. -/
def leNat (b : Bytes) : ℕ := beNat b.reverse

/-- A byte string and a position in it. -/
structure Cur where
  /-- Where `data` starts in the buffer it was cut from. -/
  base : ℕ
  data : Bytes
  pos : ℕ
  pos_le : pos ≤ data.length

namespace Cur

def new (data : Bytes) : Cur := { base := 0, data, pos := 0, pos_le := Nat.zero_le _ }

def remaining (c : Cur) : ℕ := c.data.length - c.pos

def isEmpty (c : Cur) : Bool := c.remaining == 0

/-- Everything not yet consumed, without consuming it. -/
def rest (c : Cur) : Bytes := c.data.drop c.pos

/-- Where the next byte to be read sits in the underlying buffer. -/
def start (c : Cur) : ℕ := c.base + c.pos

/-- Where the cursor's view ends in the underlying buffer. -/
def stop (c : Cur) : ℕ := c.base + c.data.length

/-- Consume and return the remainder. -/
def takeRest (c : Cur) : Bytes × Cur :=
  (c.rest, { c with pos := c.data.length, pos_le := Nat.le_refl _ })

/-- The position `n` bytes further on. -/
def advance (c : Cur) (n : ℕ) (h : n ≤ c.remaining) : Cur :=
  { c with pos := c.pos + n, pos_le := by have := c.pos_le; unfold remaining at h; omega }

def take (c : Cur) (n : ℕ) : Except DissectError (Bytes × Cur) :=
  if h : n ≤ c.remaining then .ok (c.rest.take n, c.advance n h) else .error .truncated

def skip (c : Cur) (n : ℕ) : Except DissectError Cur :=
  if h : n ≤ c.remaining then .ok (c.advance n h) else .error .truncated

/-- Shrink the cursor's view to `n` more bytes.  Used to confine a sub-dissector to a
length-delimited region so it cannot read into the next record. -/
def sub (c : Cur) (n : ℕ) : Except DissectError (Cur × Cur) :=
  if h : n ≤ c.remaining then
    .ok ({ base := c.start, data := c.rest.take n, pos := 0, pos_le := Nat.zero_le _ },
      c.advance n h)
  else .error .truncated

def u8 (c : Cur) : Except DissectError (UInt8 × Cur) :=
  if h : 1 ≤ c.remaining then
    .ok (c.data.get ⟨c.pos, by unfold remaining at h; omega⟩, c.advance 1 h)
  else .error .truncated

def peekU8 (c : Cur) : Except DissectError UInt8 := (c.u8).map Prod.fst

/-- Peek `n` bytes ahead without consuming. -/
def peek (c : Cur) (n : ℕ) : Option Bytes :=
  if n ≤ c.remaining then some (c.rest.take n) else none

/-- Read `n` bytes and convert them. -/
def read {α : Type} (c : Cur) (n : ℕ) (f : Bytes → α) : Except DissectError (α × Cur) :=
  (c.take n).map fun p => (f p.1, p.2)

def be16 (c : Cur) : Except DissectError (UInt16 × Cur) := c.read 2 fun b => .ofNat (beNat b)

def be24 (c : Cur) : Except DissectError (UInt32 × Cur) := c.read 3 fun b => .ofNat (beNat b)

def be32 (c : Cur) : Except DissectError (UInt32 × Cur) := c.read 4 fun b => .ofNat (beNat b)

def be64 (c : Cur) : Except DissectError (UInt64 × Cur) := c.read 8 fun b => .ofNat (beNat b)

def le16 (c : Cur) : Except DissectError (UInt16 × Cur) := c.read 2 fun b => .ofNat (leNat b)

def le32 (c : Cur) : Except DissectError (UInt32 × Cur) := c.read 4 fun b => .ofNat (leNat b)

def le64 (c : Cur) : Except DissectError (UInt64 × Cur) := c.read 8 fun b => .ofNat (leNat b)

def ipv4 (c : Cur) : Except DissectError (UInt32 × Cur) := c.read 4 fun b => .ofNat (beNat b)

def ipv6 (c : Cur) : Except DissectError (BitVec 128 × Cur) :=
  c.read 16 fun b => .ofNat 128 (beNat b)

def mac (c : Cur) : Except DissectError (Bytes × Cur) := c.take 6

/-! ### What reads do -/

theorem take_of_le {c : Cur} {n : ℕ} (h : n ≤ c.remaining) :
    c.take n = .ok (c.rest.take n, c.advance n h) := dif_pos h

/-- When a read succeeds, and what it does. -/
theorem take_eq_ok_iff {c : Cur} {n : ℕ} {r : Bytes × Cur} :
    c.take n = .ok r ↔ ∃ h : n ≤ c.remaining, r = (c.rest.take n, c.advance n h) := by
  unfold take
  split
  · next h => exact ⟨fun e => ⟨h, (Except.ok.inj e).symm⟩, fun ⟨_, e⟩ => by rw [e]⟩
  · next h => exact ⟨fun e => by simp at e, fun ⟨h', _⟩ => absurd h' h⟩

/-! ### Reading what was cut off -/

theorem length_rest (c : Cur) : c.rest.length = c.remaining := List.length_drop

theorem rest_advance (c : Cur) (n : ℕ) (h : n ≤ c.remaining) :
    (c.advance n h).rest = c.rest.drop n := by
  rw [rest, rest, List.drop_drop]
  rfl

/-- Skipping is reading without keeping. -/
theorem skip_eq_take (c : Cur) (n : ℕ) : c.skip n = (c.take n).map Prod.snd := by
  unfold skip take
  split <;> rfl

/-- A byte is a read of length one. -/
theorem u8_eq_read (c : Cur) : c.u8 = c.read 1 fun b => b.headD 0 := by
  unfold u8 read take
  split
  · next h =>
      have hget : c.rest = c.data.get ⟨c.pos, by unfold remaining at h; omega⟩ ::
          c.data.drop (c.pos + 1) := List.drop_eq_getElem_cons _
      rw [hget]
      rfl
  · rfl

section CutOff

variable {α : Type} {c : Cur} {x y : Bytes} {n j : ℕ}

/-- A read finds its bytes there, or fails because they were cut off. -/
theorem take_of_rest (h : c.rest = (x ++ y).take j) (hx : x.length = n) :
    (n ≤ j ∧ ∃ c', c.take n = .ok (x, c') ∧ c'.rest = y.take (j - n)) ∨
      (j < n ∧ c.take n = .error .truncated) := by
  subst hx
  rcases Nat.lt_or_ge j x.length with hj | hj
  · have hlt : ¬ x.length ≤ c.remaining := by
      rw [← length_rest, h, List.length_take]
      omega
    exact .inr ⟨hj, dif_neg hlt⟩
  · obtain ⟨i, rfl⟩ := Nat.exists_eq_add_of_le hj
    rw [List.take_length_add_append] at h
    have hle : x.length ≤ c.remaining := by
      rw [← length_rest, h, List.length_append]
      exact Nat.le_add_right _ _
    refine .inl ⟨hj, c.advance x.length hle, ?_, ?_⟩
    · rw [take_of_le hle, h, List.take_left' rfl]
    · rw [rest_advance, h, List.drop_left' rfl, Nat.add_sub_cancel_left]

theorem read_of_rest (f : Bytes → α) (h : c.rest = (x ++ y).take j) (hx : x.length = n) :
    (n ≤ j ∧ ∃ c', c.read n f = .ok (f x, c') ∧ c'.rest = y.take (j - n)) ∨
      (j < n ∧ c.read n f = .error .truncated) := by
  unfold read
  obtain ⟨hj, c', ht, hrest⟩ | ⟨hj, ht⟩ := take_of_rest h hx
  · exact .inl ⟨hj, c', by rw [ht]; rfl, hrest⟩
  · exact .inr ⟨hj, by rw [ht]; rfl⟩

/-- A read where nothing is cut off. -/
theorem read_of_append (f : Bytes → α) (h : c.rest = x ++ y) (hx : x.length = n) :
    ∃ c', c.read n f = .ok (f x, c') ∧ c'.rest = y := by
  obtain ⟨-, c', hread, hrest⟩ | ⟨hlt, -⟩ := read_of_rest f (h.trans List.take_length.symm) hx
  · refine ⟨c', hread, hrest.trans ?_⟩
    rw [List.length_append, hx, Nat.add_sub_cancel_left, List.take_length]
  · rw [List.length_append] at hlt
    omega

theorem skip_of_rest (h : c.rest = (x ++ y).take j) (hx : x.length = n) :
    (n ≤ j ∧ ∃ c', c.skip n = .ok c' ∧ c'.rest = y.take (j - n)) ∨
      (j < n ∧ c.skip n = .error .truncated) := by
  rw [skip_eq_take]
  obtain ⟨hj, c', ht, hrest⟩ | ⟨hj, ht⟩ := take_of_rest h hx
  · exact .inl ⟨hj, c', by rw [ht]; rfl, hrest⟩
  · exact .inr ⟨hj, by rw [ht]; rfl⟩

theorem u8_of_rest {b : UInt8} (h : c.rest = (b :: y).take j) :
    (1 ≤ j ∧ ∃ c', c.u8 = .ok (b, c') ∧ c'.rest = y.take (j - 1)) ∨
      (j < 1 ∧ c.u8 = .error .truncated) := by
  rw [u8_eq_read]
  exact read_of_rest (x := [b]) _ h rfl

/-- A read of everything that is left. -/
theorem take_remaining (c : Cur) {n : ℕ} (h : c.remaining ≤ n) :
    ∃ c', c.take (min n c.remaining) = .ok (c.rest, c') ∧ c'.remaining = 0 := by
  have hall : c.rest.take c.remaining = c.rest := by rw [← length_rest, List.take_length]
  rw [Nat.min_eq_right h]
  refine ⟨c.advance _ (Nat.le_refl _), ?_, ?_⟩
  · rw [take_of_le (Nat.le_refl _), hall]
  · rw [← length_rest, rest_advance, List.length_drop, length_rest, Nat.sub_self]

/-! Reads where nothing is cut off. -/

theorem exists_take (h : c.rest = x ++ y) (hn : n = x.length) :
    ∃ c', c.take n = .ok (x, c') ∧ c'.rest = y := by
  obtain ⟨-, c', htake, hrest⟩ | ⟨hlt, -⟩ := take_of_rest (h.trans List.take_length.symm) hn.symm
  · refine ⟨c', htake, hrest.trans ?_⟩
    rw [List.length_append, hn, Nat.add_sub_cancel_left, List.take_length]
  · rw [List.length_append] at hlt
    omega

theorem exists_skip (h : c.rest = x ++ y) (hn : n = x.length) :
    ∃ c', c.skip n = .ok c' ∧ c'.rest = y := by
  obtain ⟨c', htake, hrest⟩ := exists_take h hn
  refine ⟨c', ?_, hrest⟩
  rw [skip_eq_take, htake]
  rfl

theorem exists_u8 {b : UInt8} (h : c.rest = b :: y) : ∃ c', c.u8 = .ok (b, c') ∧ c'.rest = y := by
  obtain ⟨c', hread, hrest⟩ := read_of_append (x := [b]) (fun b => b.headD 0) h rfl
  exact ⟨c', (u8_eq_read c).trans hread, hrest⟩

theorem exists_be16 (h : c.rest = x ++ y) (hx : x.length = 2) :
    ∃ c', c.be16 = .ok (UInt16.ofNat (beNat x), c') ∧ c'.rest = y :=
  read_of_append (fun b => UInt16.ofNat (beNat b)) h hx

theorem exists_be24 (h : c.rest = x ++ y) (hx : x.length = 3) :
    ∃ c', c.be24 = .ok (UInt32.ofNat (beNat x), c') ∧ c'.rest = y :=
  read_of_append (fun b => UInt32.ofNat (beNat b)) h hx

/-- Nothing is left. -/
theorem remaining_of_rest_nil (h : c.rest = []) : c.remaining = 0 := by
  rw [← length_rest, h]
  rfl

theorem u8_of_rest_nil (h : c.rest = []) : c.u8 = .error .truncated :=
  dif_neg (by rw [remaining_of_rest_nil h]; decide)

end CutOff

/-! ### Views -/

/-- What is left under `c'` is a stretch of what is left under `c`, at the place where `c'` says it
is. -/
structure Within (c c' : Cur) : Prop where
  start_le : c.start ≤ c'.start
  stop_le : c'.stop ≤ c.stop
  rest_eq : c'.rest = (c.rest.drop (c'.start - c.start)).take c'.remaining

theorem start_add_remaining (c : Cur) : c.start + c.remaining = c.stop := by
  have := c.pos_le
  unfold start remaining stop
  omega

theorem Within.refl (c : Cur) : c.Within c where
  start_le := Nat.le_refl _
  stop_le := Nat.le_refl _
  rest_eq := by
    rw [Nat.sub_self, List.drop_zero, ← length_rest, List.take_length]

theorem Within.trans {c c' c'' : Cur} (h : c.Within c') (h' : c'.Within c'') : c.Within c'' where
  start_le := h.start_le.trans h'.start_le
  stop_le := h'.stop_le.trans h.stop_le
  rest_eq := by
    have hlen : c''.remaining ≤ c'.remaining - (c''.start - c'.start) := by
      have := c'.start_add_remaining
      have := c''.start_add_remaining
      have := h'.start_le
      have := h'.stop_le
      omega
    have hdrop : c'.start - c.start + (c''.start - c'.start) = c''.start - c.start := by
      have := h.start_le
      have := h'.start_le
      omega
    rw [h'.rest_eq, h.rest_eq, List.drop_take, List.drop_drop, List.take_take, hdrop,
      Nat.min_eq_left hlen]

theorem start_advance (c : Cur) (n : ℕ) (h : n ≤ c.remaining) :
    (c.advance n h).start = c.start + n := (Nat.add_assoc _ _ _).symm

theorem Within.remaining_le {c c' : Cur} (h : c.Within c') : c'.remaining ≤ c.remaining := by
  have := h.start_le
  have := h.stop_le
  have := c.start_add_remaining
  have := c'.start_add_remaining
  omega

theorem advance_within (c : Cur) (n : ℕ) (h : n ≤ c.remaining) : c.Within (c.advance n h) where
  start_le := by rw [start_advance]; exact Nat.le_add_right _ _
  stop_le := Nat.le_refl _
  rest_eq := by
    rw [start_advance, Nat.add_sub_cancel_left, ← rest_advance c n h, ← length_rest,
      List.take_length]

theorem take_within {c : Cur} {n : ℕ} {r : Bytes × Cur} (h : c.take n = .ok r) :
    c.Within r.2 := by
  obtain ⟨hn, rfl⟩ := take_eq_ok_iff.mp h
  exact advance_within c n hn

theorem read_eq_ok {α : Type} {c : Cur} {n : ℕ} {f : Bytes → α} {r : α × Cur}
    (h : c.read n f = .ok r) : ∃ b, c.take n = .ok (b, r.2) ∧ r.1 = f b := by
  unfold read at h
  cases ht : c.take n with
  | error e => rw [ht] at h; cases h
  | ok p => rw [ht] at h; cases h; exact ⟨p.1, rfl, rfl⟩

theorem sub_within {c : Cur} {n : ℕ} {r : Cur × Cur} (h : c.sub n = .ok r) :
    c.Within r.1 := by
  unfold sub at h
  split at h
  · next hn =>
      cases h
      have hlen : (c.rest.take n).length = n := by
        rw [List.length_take, length_rest, Nat.min_eq_left hn]
      refine ⟨Nat.le_refl _, ?_, ?_⟩
      · have := c.start_add_remaining
        change c.start + (c.rest.take n).length ≤ c.stop
        omega
      · change List.drop 0 (c.rest.take n) =
          (c.rest.drop (c.start + 0 - c.start)).take ((c.rest.take n).length - 0)
        rw [List.drop_zero, Nat.add_zero, Nat.sub_self, List.drop_zero, Nat.sub_zero, hlen]
  · cases h

end Cur

/-! ### Formatting -/

/-- The bytes in lower-case hexadecimal. -/
def hexBytes (b : Bytes) : Text := b.flatMap fun x => Text.hex 2 x.toNat

def fmtMac (m : Bytes) : Text := Text.join [':'] (m.map fun x => Text.hex 2 x.toNat)

def fmtOui (m : Bytes) : Text := fmtMac (m.take 3)

/-- Shannon entropy over the byte distribution, in bits per byte. -/
def entropy (data : Bytes) : Float :=
  if data = [] then 0
  else
    (List.range 256).foldl (fun h b =>
      let c := data.count (UInt8.ofNat b)
      if c ≠ 0 then
        let p := c.toFloat / data.length.toFloat
        h - p * Float.log2 p
      else h) 0

/-- A byte that prints as itself. -/
def isPrintable (b : UInt8) : Bool := 0x20 ≤ b && b < 0x7f

/-- A printable, length-capped rendering of a payload.  Non-printable bytes become a dot. -/
def preview (data : Bytes) (max : ℕ) : Text :=
  (data.take max).map fun b => if isPrintable b then Char.ofNat b.toNat else '.'

def isMostlyPrintable (data : Bytes) : Bool :=
  if data = [] then false
  else
    let head := data.take 256
    let printable := head.countP fun b => isPrintable b || b == 13 || b == 10 || b == 9
    head.length * 9 ≤ printable * 10

/-- Lossy UTF-8 for protocol fields that are nominally ASCII but are attacker-controlled.  Returns
`none` for empty input so the column stays null. -/
def asciiString (b : Bytes) : Option Text :=
  if b = [] then none else some ((Text.lossy b).filter (· ≠ '\x00'))

/-- Truncate a string field to `max` bytes and mark the cut.  The cut is made at byte `max`, which
need not be the end of a character. -/
def cap (s : Text) (max : ℕ) : Except Panic Text :=
  if max < s.utf8Len then do
    let halves ← s.splitAt max
    pure (halves.1 ++ ['…'])
  else pure s

end PcapRacer
