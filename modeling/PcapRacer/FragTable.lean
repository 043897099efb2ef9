/-
**IP fragment reassembly.**

`FragTable` collects the fragments of datagrams under their keys.  `FragTable.push` adds one
fragment; as soon as the fragments of a key cover the datagram without a hole it returns the
reassembled payload and forgets the key.

The table is generic in its keys.  Fragment offsets are `UInt16`, lengths and caps are natural
numbers.  What a push does to the set of its key is a value of `FragOutcome`: the set is abandoned,
waits for more, or is complete.

Main definitions:

* `FragSet`, `FragTable`, `Fragment` — the state, and what is pushed;
* `FragSet.assemble` — join sorted pieces, stopping at a hole;
* `FragSet.add` — one fragment into one set;
* `FragTable.push`, `FragTable.run` — one fragment, and a sequence of them, into the table.

Main results:

* `FragTable.push_of_refuses`, `FragTable.push_of_admits` — the outcomes of a push;
* `FragTable.lookup_push_of_ne` — a push leaves the sets of other keys alone.
-/

import Mathlib.Data.List.Induction
import Mathlib.Data.List.Sort
import PcapRacer.BoundedTable
import PcapRacer.Text

set_option relaxedAutoImplicit false
set_option autoImplicit false

namespace PcapRacer

open BoundedTable (len Refuses)

/-! ### One datagram -/

/-- The fragments of one datagram. -/
structure FragSet where
  /-- (offset, bytes) pieces, kept unsorted until assembly. -/
  pieces : List (UInt16 × Bytes) := []
  totalLen : Option ℕ := none
  bytesHeld : ℕ := 0
  deriving DecidableEq

/-- What adding a fragment does to the set of its datagram. -/
inductive FragOutcome where
  /-- Over budget for this datagram: abandon it entirely. -/
  | overBudget
  /-- The set, still incomplete. -/
  | waiting (set : FragSet)
  /-- The reassembled payload. -/
  | complete (out : Bytes)
  deriving DecidableEq

namespace FragSet

/-- Append sorted pieces to `out`; the earlier copy of an overlap wins.  The result is `none` when
a piece starts past the end of what is there: a hole. -/
def assemble : List (UInt16 × Bytes) → Bytes → Option Bytes
  | [], out => some out
  | (off, bytes) :: pieces, out =>
      if out.length < off.toNat then none
      else if out.length < off.toNat + bytes.length then
        assemble pieces (out ++ bytes.drop (out.length - off.toNat))
      else assemble pieces out

/-- The order of assembly; the sort by it is stable. -/
abbrev byOffset (p q : UInt16 × Bytes) : Prop := p.1 ≤ q.1

/-- A set with one more piece.  The last fragment (MF clear) is what tells the total length. -/
def record (set : FragSet) (offset : UInt16) (moreFragments : Bool) (data : Bytes) : FragSet :=
  { pieces := set.pieces ++ [(offset, data)],
    totalLen := if moreFragments then set.totalLen else some (offset.toNat + data.length),
    bytesHeld := set.bytesHeld + data.length }

/-- Assemble only once the pieces cover `[0, total)` with no hole; otherwise put the pieces back
and wait for more. -/
def tryComplete (set : FragSet) : FragOutcome :=
  match set.totalLen with
  | none => .waiting set
  | some total =>
      let pieces := set.pieces.insertionSort byOffset
      match assemble pieces [] with
      | none => .waiting { set with pieces }
      | some out =>
          if out.length < total then .waiting { set with pieces } else .complete (out.take total)

/-- One fragment into one set. -/
def add (set : FragSet) (maxBytes : ℕ) (offset : UInt16) (moreFragments : Bool) (data : Bytes) :
    FragOutcome :=
  if maxBytes < set.bytesHeld + data.length then .overBudget
  else (set.record offset moreFragments data).tryComplete

end FragSet

/-! ### The table -/

structure FragTable (κ : Type) where
  sets : AList fun _ : κ => FragSet
  maxSets : ℕ
  maxBytes : ℕ
  dropped : ℕ
  completed : ℕ

/-- A fragment offered to the table. -/
structure Fragment (κ : Type) where
  key : κ
  offset : UInt16
  moreFragments : Bool
  data : Bytes
  deriving DecidableEq

namespace FragTable

variable {κ : Type}

/-- An empty table with the given limits. -/
def new (maxSets maxBytes : ℕ) : FragTable κ :=
  { sets := ∅, maxSets, maxBytes, dropped := 0, completed := 0 }

variable [DecidableEq κ]

/-- The set of a key; an empty one when there is none yet. -/
def entry (t : FragTable κ) (key : κ) : FragSet := (t.sets.lookup key).getD {}

/-- The table and the result once the set of `key` has gone through `FragSet.add`. -/
def settle (t : FragTable κ) (key : κ) : FragOutcome → Option Bytes × FragTable κ
  | .overBudget => (none, { t with sets := t.sets.erase key, dropped := t.dropped + 1 })
  | .waiting set => (none, { t with sets := t.sets.insert key set })
  | .complete out => (some out, { t with sets := t.sets.erase key, completed := t.completed + 1 })

/-- Add a fragment.  Returns the reassembled payload once the datagram is complete. -/
def push (t : FragTable κ) (key : κ) (offset : UInt16) (moreFragments : Bool) (data : Bytes) :
    Option Bytes × FragTable κ :=
  if Refuses t.maxSets t.sets key then (none, { t with dropped := t.dropped + 1 })
  else t.settle key ((t.entry key).add t.maxBytes offset moreFragments data)

/-- The number of datagrams in the table. -/
def pending (t : FragTable κ) : ℕ := len t.sets

/-- One fragment into the table. -/
def pushFragment (t : FragTable κ) (g : Fragment κ) : Option Bytes × FragTable κ :=
  t.push g.key g.offset g.moreFragments g.data

/-- The push takes the fragment into the table: there is room for its datagram, and it stays within
the byte budget. -/
def Accepts (t : FragTable κ) (g : Fragment κ) : Prop :=
  ¬ Refuses t.maxSets t.sets g.key ∧ (t.entry g.key).bytesHeld + g.data.length ≤ t.maxBytes

/-- The table after a sequence of pushes. -/
def run (t : FragTable κ) (frags : List (Fragment κ)) : FragTable κ :=
  frags.foldl (fun t g => (t.pushFragment g).2) t

/-! ### What a push does -/

theorem push_of_refuses {t : FragTable κ} {key : κ} (hr : Refuses t.maxSets t.sets key)
    (offset : UInt16) (moreFragments : Bool) (data : Bytes) :
    t.push key offset moreFragments data = (none, { t with dropped := t.dropped + 1 }) := by
  rw [push, if_pos hr]

theorem push_of_admits {t : FragTable κ} {key : κ} (hr : ¬ Refuses t.maxSets t.sets key)
    (offset : UInt16) (moreFragments : Bool) (data : Bytes) :
    t.push key offset moreFragments data =
      t.settle key ((t.entry key).add t.maxBytes offset moreFragments data) := by
  rw [push, if_neg hr]

@[simp] theorem settle_maxSets (t : FragTable κ) (key : κ) (o : FragOutcome) :
    (t.settle key o).2.maxSets = t.maxSets := by
  cases o <;> rfl

@[simp] theorem settle_maxBytes (t : FragTable κ) (key : κ) (o : FragOutcome) :
    (t.settle key o).2.maxBytes = t.maxBytes := by
  cases o <;> rfl

theorem lookup_settle_of_ne (t : FragTable κ) {key key' : κ} (h : key' ≠ key) (o : FragOutcome) :
    (t.settle key o).2.sets.lookup key' = t.sets.lookup key' := by
  cases o with
  | overBudget => exact AList.lookup_erase_ne h
  | waiting set => exact AList.lookup_insert_ne h
  | complete out => exact AList.lookup_erase_ne h

@[simp] theorem pushFragment_maxSets (t : FragTable κ) (g : Fragment κ) :
    (t.pushFragment g).2.maxSets = t.maxSets := by
  unfold pushFragment push
  split
  · rfl
  · exact settle_maxSets _ _ _

@[simp] theorem pushFragment_maxBytes (t : FragTable κ) (g : Fragment κ) :
    (t.pushFragment g).2.maxBytes = t.maxBytes := by
  unfold pushFragment push
  split
  · rfl
  · exact settle_maxBytes _ _ _

/-- A push leaves the sets of other keys alone. -/
theorem lookup_push_of_ne (t : FragTable κ) (g : Fragment κ) {key : κ} (h : key ≠ g.key) :
    (t.pushFragment g).2.sets.lookup key = t.sets.lookup key := by
  unfold pushFragment push
  split
  · rfl
  · exact lookup_settle_of_ne t h _

/-- A push adds at most one set. -/
theorem len_pushFragment_le (t : FragTable κ) (g : Fragment κ) :
    len (t.pushFragment g).2.sets ≤ len t.sets + 1 := by
  unfold pushFragment push
  split
  · exact Nat.le_succ _
  · cases (t.entry g.key).add t.maxBytes g.offset g.moreFragments g.data with
    | overBudget => exact Nat.le_trans (BoundedTable.len_erase_le _ _) (Nat.le_succ _)
    | waiting set => exact BoundedTable.len_insert_le_succ _ _ _
    | complete out => exact Nat.le_trans (BoundedTable.len_erase_le _ _) (Nat.le_succ _)

@[simp] theorem run_nil (t : FragTable κ) : t.run [] = t := rfl

theorem run_append (t : FragTable κ) (frags frags' : List (Fragment κ)) :
    t.run (frags ++ frags') = (t.run frags).run frags' := List.foldl_append

theorem run_cons (t : FragTable κ) (g : Fragment κ) (frags : List (Fragment κ)) :
    t.run (g :: frags) = (t.pushFragment g).2.run frags := rfl

theorem run_concat (t : FragTable κ) (frags : List (Fragment κ)) (g : Fragment κ) :
    t.run (frags ++ [g]) = ((t.run frags).pushFragment g).2 := run_append t frags [g]

@[simp] theorem run_maxSets (t : FragTable κ) (frags : List (Fragment κ)) :
    (t.run frags).maxSets = t.maxSets := by
  induction frags using List.reverseRecOn with
  | nil => rfl
  | append_singleton frags g ih => rw [run_concat, pushFragment_maxSets, ih]

@[simp] theorem run_maxBytes (t : FragTable κ) (frags : List (Fragment κ)) :
    (t.run frags).maxBytes = t.maxBytes := by
  induction frags using List.reverseRecOn with
  | nil => rfl
  | append_singleton frags g ih => rw [run_concat, pushFragment_maxBytes, ih]

end FragTable

end PcapRacer
