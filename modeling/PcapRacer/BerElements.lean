/-
**BER elements and their encoding.**

An element is an identifier octet, length octets and a value.  The value of a constructed element is
a run of elements; the searches of the reader go along such runs and down into them.  Both searches
are determined by the elements of a run, in their order.

Main definitions:

* `IsLength`, `Element` — length octets, and an element with its encoding;
* `Reads` — the elements that a cursor gives, one after the other, to its end;
* `Node`, `bytesOf` — an element of any identifier, and a run of them;
* `Gathers` — what a collection adds, as far as its limit allows.

Main results:

* `read_element` — reading an element gives it back;
* `findAfterOid_bytesOf` — **the search for an object identifier, along a run**;
* `collect_bytesOf`, `gathers_collect` — **the collection of elements, along a run**.
-/

import PcapRacer.AppBer

set_option relaxedAutoImplicit false
set_option autoImplicit false

namespace PcapRacer

namespace Ber

/-! ### Elements -/

/-- The octets are a length in the definite form: one short octet, or up to four that follow a
count. -/
inductive IsLength (n : ℕ) : Bytes → Prop
  | short (h : n < 128) : IsLength n [UInt8.ofNat n]
  | long {digits : Bytes} (hpos : 0 < digits.length) (hle : digits.length ≤ 4)
      (h : beNat digits = n) : IsLength n ((0x80 + UInt8.ofNat digits.length) :: digits)

/-- An element with this identifier octet. -/
structure Element (id : UInt8) where
  len : Bytes
  val : Bytes
  isLength : IsLength val.length len

namespace Element

variable {id : UInt8}

def bytes (e : Element id) : Bytes := id :: (e.len ++ e.val)

/-- The element as the reader gives it. -/
def tlv (e : Element id) : Tlv :=
  { cls := id >>> 6, constructed := id &&& 0x20 ≠ 0, tag := id &&& 0x1f, val := e.val }

end Element

/-! ### Reading an element -/

section Read

variable {α β : Type} {c : Cur} {tail : Bytes}

theorem reader_bind (x : Reader α) (f : α → Reader β) (c : Cur) :
    (ExceptT.run (x >>= f)).run c =
      match (ExceptT.run x).run c with
      | (.ok a, c') => (ExceptT.run (f a)).run c'
      | (.error e, c') => (.error e, c') := by
  change (((ExceptT.run x) >>= fun r => ExceptT.bindCont f r) : StateM Cur _).run c = _
  rcases hx : (ExceptT.run x).run c with ⟨r, c'⟩
  change (ExceptT.bindCont f ((ExceptT.run x).run c).1).run ((ExceptT.run x).run c).2 = _
  rw [hx]
  cases r <;> rfl

theorem run_of {read : Cur → Except DissectError (α × Cur)} {a : α} {c' : Cur}
    (h : read c = .ok (a, c')) : (ExceptT.run (Reader.of read)).run c = (.ok a, c') := by
  unfold Reader.of
  dsimp only [ExceptT.run, ExceptT.mk, StateT.run]
  rw [h]

theorem run_of_error {read : Cur → Except DissectError (α × Cur)} {e : DissectError}
    (h : read c = .error e) : (ExceptT.run (Reader.of read)).run c = (.error e, c) := by
  unfold Reader.of
  dsimp only [ExceptT.run, ExceptT.mk, StateT.run]
  rw [h]

theorem u8_of_cons {b : UInt8} (h : c.rest = b :: tail) :
    ∃ c', (ExceptT.run (Reader.of Cur.u8)).run c = (.ok b, c') ∧ c'.rest = tail := by
  obtain ⟨c', hread, hrest⟩ := Cur.exists_u8 h
  exact ⟨c', run_of hread, hrest⟩

theorem take_of_append {x : Bytes} (h : c.rest = x ++ tail) :
    ∃ c', (ExceptT.run (Reader.of fun c => c.take x.length)).run c = (.ok x, c') ∧
      c'.rest = tail := by
  obtain ⟨c', htake, hrest⟩ := Cur.exists_take h rfl
  exact ⟨c', run_of htake, hrest⟩

/-- The length is read back. -/
theorem readLength_of_isLength {n : ℕ} {len : Bytes} (hlen : IsLength n len)
    (h : c.rest = len ++ tail) :
    ∃ c', (ExceptT.run readLength).run c = (.ok n, c') ∧ c'.rest = tail := by
  unfold readLength
  rw [reader_bind]
  cases hlen with
  | short hn =>
      obtain ⟨c', hu8, hrest⟩ := u8_of_cons h
      have hnat : (UInt8.ofNat n).toNat = n := UInt8.toNat_ofNat_of_lt' (hn.trans (by decide))
      have hlt : UInt8.ofNat n < 0x80 := UInt8.lt_iff_toNat_lt.mpr (by rw [hnat]; exact hn)
      rw [hu8]
      dsimp only
      rw [if_pos hlt, hnat]
      exact ⟨c', rfl, hrest⟩
  | @long digits hpos hle hn =>
      obtain ⟨c₁, hu8, hrest₁⟩ := u8_of_cons h
      obtain ⟨c₂, htake, hrest₂⟩ := take_of_append hrest₁
      have hcount : ∀ k : ℕ, 0 < k → k ≤ 4 → ¬ 0x80 + UInt8.ofNat k < 0x80 ∧
          ((0x80 + UInt8.ofNat k) &&& 0x7f).toNat = k := by
        intro k hk hk'
        obtain rfl | rfl | rfl | rfl : k = 1 ∨ k = 2 ∨ k = 3 ∨ k = 4 := by omega
        all_goals decide
      obtain ⟨hlong, hnat⟩ := hcount digits.length hpos hle
      rw [hu8]
      dsimp only
      rw [if_neg hlong, hnat, if_neg (by omega), reader_bind, htake]
      refine ⟨c₂, ?_, hrest₂⟩
      rw [← hn]
      rfl

/-- **Reading an element gives it back**, and goes on behind it. -/
theorem read_element {id : UInt8} (e : Element id) (hid : id &&& 0x1f ≠ 0x1f)
    (h : c.rest = e.bytes ++ tail) : ∃ c', read c = (.ok e.tlv, c') ∧ c'.rest = tail := by
  rw [Element.bytes, List.cons_append, List.append_assoc] at h
  obtain ⟨c₁, hu8, hrest₁⟩ := u8_of_cons h
  obtain ⟨c₂, hlen, hrest₂⟩ := readLength_of_isLength e.isLength hrest₁
  obtain ⟨c₃, hval, hrest₃⟩ := take_of_append hrest₂
  refine ⟨c₃, ?_, hrest₃⟩
  have htag : (ExceptT.run (pure (id &&& 0x1f) : Reader UInt8)).run c₁ = (.ok (id &&& 0x1f), c₁) :=
    rfl
  unfold read readIn
  rw [reader_bind, hu8]
  dsimp only
  rw [if_neg hid, reader_bind, htag]
  dsimp only
  rw [reader_bind, hlen]
  dsimp only
  rw [reader_bind, hval]
  rfl

end Read

/-! ### Elements one after the other -/

/-- These elements are read one after the other, and nothing is left behind them. -/
inductive Reads : Cur → List Tlv → Prop
  | nil {c : Cur} (h : c.rest = []) : Reads c []
  | cons {c c' : Cur} {t : Tlv} {ts : List Tlv} (hne : c.rest ≠ []) (hread : read c = (.ok t, c')) :
      Reads c' ts → Reads c (t :: ts)

section Reads

variable {c : Cur} {ts : List Tlv}

/-- Nothing can be read where nothing is left. -/
theorem read_of_rest_nil (h : c.rest = []) : (read c).1 = .error .truncated := by
  have hlen : ¬ 1 ≤ c.remaining := by
    rw [← Cur.length_rest, h]
    exact Nat.not_succ_le_zero 0
  have hu8 : (ExceptT.run (Reader.of Cur.u8)).run c = (.error .truncated, c) :=
    run_of_error (dif_neg hlen)
  unfold read readIn
  rw [reader_bind, hu8]

theorem isEmpty_of_rest_ne_nil (h : c.rest ≠ []) : c.isEmpty = false := by
  have hpos := List.length_pos_of_ne_nil h
  rw [Cur.isEmpty, beq_eq_false_iff_ne, ← Cur.length_rest]
  omega

theorem isEmpty_of_rest_nil (h : c.rest = []) : c.isEmpty = true := by
  rw [Cur.isEmpty, beq_iff_eq, ← Cur.length_rest, h]
  rfl

/-- The search along elements: what comes after the object identifier, or what `inner` finds in the
first constructed element that has it. -/
def searchTlvs (inner : Bytes → Option Tlv) (oid : Bytes) : List Tlv → Option Tlv
  | [] => none
  | t :: ts =>
      if t.cls = classUniversal ∧ t.tag = tagOid ∧ t.val = oid then ts.head?
      else if t.constructed then (inner t.val).or (searchTlvs inner oid ts)
      else searchTlvs inner oid ts

theorem scanOid_of_reads (inner : Bytes → Option Tlv) (oid : Bytes) {fuel : ℕ}
    (hfuel : ts.length ≤ fuel) (h : Reads c ts) :
    scanOid inner oid fuel c = searchTlvs inner oid ts := by
  induction h generalizing fuel with
  | nil hrest =>
      cases fuel with
      | zero => rfl
      | succ fuel => rw [scanOid, isEmpty_of_rest_nil hrest, if_pos rfl, searchTlvs]
  | @cons c c' t ts hne hread hrun ih =>
      obtain ⟨fuel, rfl⟩ : ∃ k, fuel = k + 1 := ⟨fuel - 1, by rw [List.length_cons] at hfuel; omega⟩
      have hnext : ts.length ≤ fuel := Nat.le_of_succ_le_succ hfuel
      rw [scanOid, isEmpty_of_rest_ne_nil hne, if_neg Bool.false_ne_true, hread, searchTlvs]
      dsimp only
      split
      · -- the element after the object identifier, if there is one
        cases hrun with
        | nil hrest =>
            rw [read_of_rest_nil hrest]
            rfl
        | cons _ hread₂ _ =>
            rw [hread₂]
            rfl
      · split
        · cases inner t.val with
          | none => exact ih hnext
          | some found => rfl
        · exact ih hnext

/-- What a collection gathers from one element. -/
def collectTlv (inner : Bytes → List Tlv → List Tlv) (limit : ℕ) (pred : Tlv → Bool)
    (out : List Tlv) (t : Tlv) : List Tlv :=
  if limit ≤ out.length then out
  else
    let out := if pred t then out ++ [t] else out
    if t.constructed then inner t.val out else out

section Collect

variable (inner : Bytes → List Tlv → List Tlv) (limit : ℕ) (pred : Tlv → Bool)

/-- Nothing is gathered past the limit. -/
theorem foldl_collectTlv_of_le {out : List Tlv} (h : limit ≤ out.length) (ts : List Tlv) :
    ts.foldl (collectTlv inner limit pred) out = out := by
  induction ts with
  | nil => rfl
  | cons t ts ih =>
      rw [List.foldl_cons, collectTlv, if_pos h]
      exact ih

theorem scanCollect_of_reads {fuel : ℕ} (hfuel : ts.length ≤ fuel) (h : Reads c ts)
    (out : List Tlv) :
    scanCollect inner limit pred fuel c out = ts.foldl (collectTlv inner limit pred) out := by
  induction h generalizing fuel out with
  | nil hrest =>
      cases fuel with
      | zero => rfl
      | succ fuel =>
          rw [scanCollect, if_pos (.inl (isEmpty_of_rest_nil hrest))]
          rfl
  | @cons c c' t ts hne hread hrun ih =>
      obtain ⟨fuel, rfl⟩ : ∃ k, fuel = k + 1 := ⟨fuel - 1, by rw [List.length_cons] at hfuel; omega⟩
      rw [scanCollect, isEmpty_of_rest_ne_nil hne, hread, List.foldl_cons]
      by_cases hfull : limit ≤ out.length
      · rw [if_pos (.inr hfull), collectTlv, if_pos hfull,
          foldl_collectTlv_of_le inner limit pred hfull]
      · have hgo : ¬ (false = true ∨ limit ≤ out.length) := by
          simp only [Bool.false_eq_true, hfull, or_self, not_false_eq_true]
        rw [if_neg hgo, collectTlv, if_neg hfull]
        exact ih (Nat.le_of_succ_le_succ hfuel) _

end Collect

end Reads

/-! ### Runs of elements -/

/-- An element of any identifier that takes one octet. -/
structure Node where
  id : UInt8
  low : id &&& 0x1f ≠ 0x1f
  element : Element id

namespace Node

def bytes (n : Node) : Bytes := n.element.bytes

/-- The element as the reader gives it. -/
def tlv (n : Node) : Tlv := n.element.tlv

/-- The element is an object identifier. -/
def IsOid (n : Node) : Prop := n.tlv.cls = classUniversal ∧ n.tlv.tag = tagOid

theorem bytes_ne_nil (n : Node) : n.bytes ≠ [] := List.cons_ne_nil _ _

end Node

namespace Element

variable {id : UInt8} (e : Element id)

/-- The element in a run. -/
def node (low : id &&& 0x1f ≠ 0x1f := by decide) : Node := { id, low, element := e }

theorem constructed_tlv : e.tlv.constructed = decide (id &&& 0x20 ≠ 0) := rfl

end Element

/-- The bytes of a run of elements. -/
def bytesOf (ns : List Node) : Bytes := ns.flatMap Node.bytes

theorem bytesOf_cons (n : Node) (ns : List Node) : bytesOf (n :: ns) = n.bytes ++ bytesOf ns := rfl

theorem length_le_bytesOf (ns : List Node) : ns.length ≤ (bytesOf ns).length := by
  induction ns with
  | nil => exact Nat.le_refl 0
  | cons n ns ih =>
      have hpos := List.length_pos_of_ne_nil n.bytes_ne_nil
      rw [bytesOf_cons, List.length_append, List.length_cons]
      omega

section Run

variable {c : Cur} {ns : List Node}

theorem read_node {n : Node} {tail : Bytes} (h : c.rest = n.bytes ++ tail) :
    ∃ c', read c = (.ok n.tlv, c') ∧ c'.rest = tail := read_element n.element n.low h

/-- A run is read element by element. -/
theorem reads_bytesOf (h : c.rest = bytesOf ns) : Reads c (ns.map Node.tlv) := by
  induction ns generalizing c with
  | nil => exact .nil h
  | cons n ns ih =>
      obtain ⟨c', hread, hrest⟩ := read_node (h.trans (bytesOf_cons n ns))
      refine .cons ?_ hread (ih hrest)
      rw [h, bytesOf_cons]
      exact List.append_ne_nil_of_left_ne_nil n.bytes_ne_nil _

/-- The search along a run of elements: what comes after the object identifier, or what `inner`
finds in the first constructed element that has it. -/
def searchRun (inner : Bytes → Option Tlv) (oid : Bytes) : List Node → Option Tlv
  | [] => none
  | n :: ns =>
      if n.tlv.cls = classUniversal ∧ n.tlv.tag = tagOid ∧ n.tlv.val = oid then
        ns.head?.map Node.tlv
      else if n.tlv.constructed then (inner n.tlv.val).or (searchRun inner oid ns)
      else searchRun inner oid ns

theorem searchTlvs_map (inner : Bytes → Option Tlv) (oid : Bytes) (ns : List Node) :
    searchTlvs inner oid (ns.map Node.tlv) = searchRun inner oid ns := by
  induction ns with
  | nil => rfl
  | cons n ns ih => rw [List.map_cons, searchTlvs, searchRun, ih, List.head?_map]

/-- **The search for an object identifier, along a run.** -/
theorem findAfterOid_bytesOf (depth : ℕ) (ns : List Node) (oid : Bytes) :
    findAfterOid (depth + 1) (bytesOf ns) oid =
      searchRun (fun val => findAfterOid depth val oid) oid ns := by
  have hlen : (ns.map Node.tlv).length ≤ (bytesOf ns).length := by
    rw [List.length_map]
    exact length_le_bytesOf ns
  rw [← searchTlvs_map]
  exact scanOid_of_reads _ oid hlen (reads_bytesOf rfl)

section SearchRun

variable {inner : Bytes → Option Tlv} {oid : Bytes}

/-- Without an object identifier in a run, the search goes on behind it. -/
theorem searchRun_append {ns ms : List Node} (h : ∀ n ∈ ns, ¬ n.IsOid) :
    searchRun inner oid (ns ++ ms) =
      (searchRun inner oid ns).or (searchRun inner oid ms) := by
  induction ns with
  | nil => rfl
  | cons n ns ih =>
      have hn : ¬ (n.tlv.cls = classUniversal ∧ n.tlv.tag = tagOid ∧ n.tlv.val = oid) :=
        fun hhit => h n List.mem_cons_self ⟨hhit.1, hhit.2.1⟩
      have hrest := ih fun m hm => h m (List.mem_cons_of_mem _ hm)
      rw [List.cons_append, searchRun, searchRun, if_neg hn, if_neg hn, hrest]
      split
      · exact (Option.or_assoc).symm
      · rfl

variable {n : Node} {ns : List Node}

theorem searchRun_oid (hoid : n.IsOid) (h : n.tlv.val = oid) :
    searchRun inner oid (n :: ns) = ns.head?.map Node.tlv := if_pos ⟨hoid.1, hoid.2, h⟩

/-- The search goes into a constructed element. -/
theorem searchRun_constructed (hoid : ¬ n.IsOid) (hc : n.tlv.constructed = true) :
    searchRun inner oid (n :: ns) = (inner n.tlv.val).or (searchRun inner oid ns) := by
  have hn : ¬ (n.tlv.cls = classUniversal ∧ n.tlv.tag = tagOid ∧ n.tlv.val = oid) :=
    fun hhit => hoid ⟨hhit.1, hhit.2.1⟩
  rw [searchRun, if_neg hn, if_pos hc]

/-- A primitive element is passed unless it is the identifier. -/
theorem searchRun_primitive (h : n.IsOid → n.tlv.val ≠ oid) (hc : n.tlv.constructed = false) :
    searchRun inner oid (n :: ns) = searchRun inner oid ns := by
  have hn : ¬ (n.tlv.cls = classUniversal ∧ n.tlv.tag = tagOid ∧ n.tlv.val = oid) :=
    fun hhit => h ⟨hhit.1, hhit.2.1⟩ hhit.2.2
  rw [searchRun, if_neg hn, if_neg (ne_true_of_eq_false hc)]

end SearchRun

/-- What a collection gathers from one element of a run. -/
def collectStep (inner : Bytes → List Tlv → List Tlv) (limit : ℕ) (pred : Tlv → Bool)
    (out : List Tlv) (n : Node) : List Tlv :=
  if limit ≤ out.length then out
  else
    let out := if pred n.tlv then out ++ [n.tlv] else out
    if n.tlv.constructed then inner n.tlv.val out else out

/-- **The collection of elements, along a run.** -/
theorem collect_bytesOf (depth : ℕ) (ns : List Node) (limit : ℕ) (pred : Tlv → Bool)
    (out : List Tlv) :
    collect (depth + 1) (bytesOf ns) limit pred out =
      ns.foldl (collectStep (fun val out => collect depth val limit pred out) limit pred) out := by
  have hlen : (ns.map Node.tlv).length ≤ (bytesOf ns).length := by
    rw [List.length_map]
    exact length_le_bytesOf ns
  refine (scanCollect_of_reads _ limit pred hlen (reads_bytesOf rfl) out).trans ?_
  exact List.foldl_map

end Run

/-! ### What a collection gathers -/

section Gathers

variable {limit : ℕ} {f g : List Tlv → List Tlv} {xs ys : List Tlv}

/-- The collector adds these elements, as far as the limit allows. -/
def Gathers (limit : ℕ) (f : List Tlv → List Tlv) (xs : List Tlv) : Prop :=
  ∀ out, out.length ≤ limit → f out = (out ++ xs).take limit

theorem Gathers.none : Gathers limit (fun out => out) [] := fun out h => by
  rw [List.append_nil, List.take_of_length_le h]

theorem Gathers.comp (hf : Gathers limit f xs) (hg : Gathers limit g ys) :
    Gathers limit (fun out => g (f out)) (xs ++ ys) := by
  intro out h
  have hle : ((out ++ xs).take limit).length ≤ limit := List.length_take_le _ _
  dsimp only
  rw [hf out h, hg _ hle]
  by_cases hfull : limit ≤ (out ++ xs).length
  · have hlen : ((out ++ xs).take limit).length = limit := by
      rw [List.length_take, Nat.min_eq_left hfull]
    rw [List.take_append_of_le_length hlen.ge, List.take_take, Nat.min_self, ← List.append_assoc,
      List.take_append_of_le_length hfull]
  · rw [List.take_of_length_le (Nat.le_of_not_le hfull), List.append_assoc]

variable {inner : Bytes → List Tlv → List Tlv} {pred : Tlv → Bool} {n : Node}

/-- An element adds itself, if it is looked for, and then what its contents add. -/
theorem gathers_collectTlv {t : Tlv} {xs : List Tlv}
    (hinner : t.constructed = true → Gathers limit (inner t.val) xs)
    (hleaf : t.constructed = false → xs = []) :
    Gathers limit (fun out => collectTlv inner limit pred out t) ([t].filter pred ++ xs) := by
  intro out h
  have hself : (if pred t then out ++ [t] else out) = out ++ [t].filter pred := by
    cases hp : pred t <;> simp [hp]
  dsimp only
  rw [collectTlv]
  by_cases hfull : limit ≤ out.length
  · rw [if_pos hfull, List.take_append_of_le_length hfull, List.take_of_length_le h]
  · have hone : ([t].filter pred).length ≤ 1 := List.length_filter_le _ _
    have hroom : (out ++ [t].filter pred).length ≤ limit := by
      rw [List.length_append]
      omega
    rw [if_neg hfull, hself, ← List.append_assoc]
    cases hc : t.constructed with
    | true =>
        dsimp only
        exact hinner hc _ hroom
    | false =>
        rw [hleaf hc, List.append_nil, List.take_of_length_le hroom]
        rfl

/-- Elements in a row add what each of them adds. -/
theorem gathers_foldl {α : Type} (f : List Tlv → α → List Tlv) {as : List α}
    (added : α → List Tlv) (h : ∀ a ∈ as, Gathers limit (fun out => f out a) (added a)) :
    Gathers limit (fun out => as.foldl f out) (as.flatMap added) := by
  induction as with
  | nil => exact Gathers.none
  | cons a as ih =>
      exact (h a List.mem_cons_self).comp (ih fun b hb => h b (List.mem_cons_of_mem _ hb))

/-- A primitive element that is not looked for adds nothing. -/
theorem gathers_of_primitive (hp : pred n.tlv = false) (hc : n.tlv.constructed = false) :
    Gathers limit (fun out => collectStep inner limit pred out n) [] := by
  have h : Gathers limit (fun out => collectTlv inner limit pred out n.tlv)
      ([n.tlv].filter pred ++ []) :=
    gathers_collectTlv (fun hc' => absurd (hc.symm.trans hc') Bool.false_ne_true) fun _ => rfl
  rwa [List.filter_singleton, hp] at h

/-- A primitive element that is looked for is added. -/
theorem gathers_of_pred (hp : pred n.tlv = true) (hc : n.tlv.constructed = false) :
    Gathers limit (fun out => collectStep inner limit pred out n) [n.tlv] := by
  have h : Gathers limit (fun out => collectTlv inner limit pred out n.tlv)
      ([n.tlv].filter pred ++ []) :=
    gathers_collectTlv (fun hc' => absurd (hc.symm.trans hc') Bool.false_ne_true) fun _ => rfl
  rwa [List.filter_singleton, hp] at h

/-- A constructed element adds what its contents do. -/
theorem gathers_of_constructed (inner : Bytes → List Tlv → List Tlv) (hp : pred n.tlv = false)
    (hc : n.tlv.constructed = true) (hinner : Gathers limit (inner n.tlv.val) xs) :
    Gathers limit (fun out => collectStep inner limit pred out n) xs := by
  have h : Gathers limit (fun out => collectTlv inner limit pred out n.tlv)
      ([n.tlv].filter pred ++ xs) :=
    gathers_collectTlv (fun _ => hinner) fun hc' => absurd (hc'.symm.trans hc) Bool.false_ne_true
  rwa [List.filter_singleton, hp] at h

/-- A run adds what its elements do, one after the other. -/
theorem gathers_collect {α : Type} {as : List α} {depth : ℕ} (node : α → Node)
    (added : α → List Tlv) (h : ∀ a ∈ as, Gathers limit (fun out =>
      collectStep (fun val out => collect depth val limit pred out) limit pred out (node a))
      (added a)) :
    Gathers limit (fun out => collect (depth + 1) (bytesOf (as.map node)) limit pred out)
      (as.flatMap added) := by
  intro out hout
  dsimp only
  rw [collect_bytesOf, List.foldl_map]
  exact gathers_foldl _ added h out hout

end Gathers

/-! ### The limit of a collection -/

theorem length_scanCollect_le {inner : Bytes → List Tlv → List Tlv} {limit : ℕ}
    {pred : Tlv → Bool}
    (hinner : ∀ val out, out.length ≤ limit → (inner val out).length ≤ limit) (fuel : ℕ) (c : Cur)
    {out : List Tlv} (h : out.length ≤ limit) :
    (scanCollect inner limit pred fuel c out).length ≤ limit := by
  induction fuel generalizing c out with
  | zero => exact h
  | succ fuel ih =>
      rw [scanCollect]
      split
      · exact h
      · next hroom =>
          have hlt : out.length < limit := Nat.lt_of_not_le fun hle => hroom (.inr hle)
          split
          · exact h
          · next t c' hread =>
              have hpushed : (if pred t then out ++ [t] else out).length ≤ limit := by
                split
                · rw [List.length_append, List.length_singleton]
                  omega
                · exact h
              dsimp only
              refine ih c' ?_
              split
              · exact hinner _ _ hpushed
              · exact hpushed

/-- No more elements than the limit are gathered. -/
theorem length_collect_le (depth : ℕ) (data : Bytes) {limit : ℕ} (pred : Tlv → Bool)
    {out : List Tlv} (h : out.length ≤ limit) :
    (collect depth data limit pred out).length ≤ limit := by
  induction depth generalizing data out with
  | zero => exact h
  | succ depth ih => exact length_scanCollect_le (fun val out h => ih val h) _ _ h

end Ber

end PcapRacer
