/-
**Short LDAP messages do not panic.**

The LDAP dissector cuts its texts at 512 bytes, and panics when the cut is inside a character.  A
text has at most four bytes for every byte of the message that it was made from, so a message whose
operation is short is dissected without a cut.

Main definitions:

* `Ber.Uses` — what a reader hands out, and what it leaves, fits into what there was;

Main results:

* `Ber.read_uses` — reading an element;
* `AppDirectory.utf8Len_renderFilter_le` — the text of a filter;
* `AppDirectory.calm_operation` — **a short operation does not panic**.
-/

import PcapRacer.Calm
import PcapRacer.LdapBind

set_option relaxedAutoImplicit false
set_option autoImplicit false

namespace PcapRacer

/-- A text that was read has at most four bytes for each of its bytes. -/
theorem utf8Len_asciiString_le (b : Bytes) :
    ((asciiString b).getD []).utf8Len ≤ 4 * b.length := by
  unfold asciiString
  split
  · exact Nat.zero_le _
  · refine (Text.utf8Len_le _).trans (Nat.mul_le_mul_left 4 ?_)
    exact (List.length_filter_le _ _).trans (Text.length_lossyFrom_le 0 b)

namespace Ber

/-! ### What reading an element uses up -/

section Uses

variable {α β : Type}

/-- What the reader leaves fits into what there was, together with what it hands out. -/
def Uses (x : Reader α) (size : α → ℕ) : Prop :=
  ∀ c, ((ExceptT.run x).run c).2.remaining ≤ c.remaining ∧
    ∀ a, ((ExceptT.run x).run c).1 = .ok a →
      size a + ((ExceptT.run x).run c).2.remaining ≤ c.remaining

theorem uses_bind {x : Reader α} {f : α → Reader β} {size : α → ℕ} {size' : β → ℕ}
    (hx : Uses x size) (hf : ∀ a, Uses (f a) fun b => size' b - size a) :
    Uses (x >>= f) size' := by
  intro c
  rw [reader_bind]
  obtain ⟨hle, hok⟩ := hx c
  rcases hrun : (ExceptT.run x).run c with ⟨e | a, c₁⟩
  · rw [hrun] at hle
    exact ⟨hle, fun _ h => by cases h⟩
  · rw [hrun] at hle hok
    have hused := hok a rfl
    obtain ⟨hle', hok'⟩ := hf a c₁
    refine ⟨hle'.trans hle, fun b hb => ?_⟩
    have hused' := hok' b hb
    dsimp only at hused hused' ⊢
    omega

theorem uses_pure (a : α) {size : α → ℕ} (h : size a = 0) : Uses (pure a : Reader α) size := by
  intro c
  refine ⟨Nat.le_refl _, fun b hb => ?_⟩
  cases hb
  rw [h, Nat.zero_add]
  exact Nat.le_refl _

theorem uses_throw (e : DissectError) (size : α → ℕ) : Uses (throw e : Reader α) size :=
  fun _ => ⟨Nat.le_refl _, fun _ h => by cases h⟩

theorem uses_of {read : Cur → Except DissectError (α × Cur)} {size : α → ℕ}
    (h : ∀ c r, read c = .ok r → size r.1 + r.2.remaining ≤ c.remaining) :
    Uses (Reader.of read) size := by
  intro c
  cases hread : read c with
  | error e =>
      rw [run_of_error hread]
      exact ⟨Nat.le_refl _, fun _ h => by cases h⟩
  | ok r =>
      have hr := h c r hread
      rw [run_of hread]
      refine ⟨(Nat.le_add_left _ _).trans hr, fun a ha => ?_⟩
      cases ha
      exact hr

theorem uses_u8 : Uses (Reader.of Cur.u8) fun _ => 1 := by
  refine uses_of fun c r h => ?_
  rw [Cur.u8_eq_read] at h
  obtain ⟨b, hb, -⟩ := Cur.read_eq_ok h
  obtain ⟨hn, hr⟩ := Cur.take_eq_ok_iff.mp hb
  rw [(Prod.ext_iff.mp hr).2, ← Cur.length_rest, Cur.rest_advance, List.length_drop,
    Cur.length_rest]
  omega

theorem uses_take (n : ℕ) : Uses (Reader.of fun c => c.take n) List.length := by
  refine uses_of fun c r h => ?_
  obtain ⟨hn, rfl⟩ := Cur.take_eq_ok_iff.mp h
  dsimp only
  rw [List.length_take, ← Cur.length_rest (c.advance n hn), Cur.rest_advance, List.length_drop,
    Cur.length_rest]
  omega

end Uses

theorem uses_highTag (guard : ℕ) (t : UInt32) : Uses (highTag guard t) fun _ => 0 := by
  induction guard generalizing t with
  | zero => exact uses_throw _ _
  | succ guard ih =>
      refine uses_bind uses_u8 fun b => ?_
      dsimp only
      split
      · exact uses_pure _ rfl
      · exact ih _

theorem uses_readLength : Uses readLength fun _ => 1 := by
  refine uses_bind uses_u8 fun first => ?_
  dsimp only
  split
  · exact uses_pure _ rfl
  · split
    · exact uses_throw _ _
    · exact uses_bind (uses_take _) fun b => uses_pure _ (Nat.zero_sub _)

/-- **Reading an element** uses up its value and two bytes at least. -/
theorem uses_readIn : Uses readIn fun t => t.val.length + 2 := by
  have hbody : ∀ id tag : UInt8, Uses (do
      let len ← readLength
      let val ← Reader.of fun c => c.take len
      pure { cls := id >>> 6, constructed := id &&& 0x20 ≠ 0, tag, val : Tlv })
      fun t => t.val.length + 2 - 1 - 0 := by
    intro id tag
    refine uses_bind uses_readLength fun len => uses_bind (uses_take len) fun val => ?_
    refine uses_pure _ ?_
    dsimp only
    omega
  unfold readIn
  refine uses_bind uses_u8 fun id => ?_
  dsimp only
  split
  · exact uses_bind (uses_highTag 4 0) fun tag => hbody id tag
  · have htag : Uses (pure (id &&& 0x1f) : Reader UInt8) fun _ => 0 := uses_pure _ rfl
    exact uses_bind htag fun tag => hbody id tag

theorem read_uses (c : Cur) : (read c).2.remaining ≤ c.remaining ∧
    ∀ t, (read c).1 = .ok t → t.val.length + 2 + (read c).2.remaining ≤ c.remaining := uses_readIn c

/-- The bytes that elements take, at least. -/
def room (ts : List Tlv) : ℕ := (ts.map fun t => t.val.length + 2).sum

theorem room_cons (t : Tlv) (ts : List Tlv) : room (t :: ts) = t.val.length + 2 + room ts := rfl

theorem room_concat (ts : List Tlv) (t : Tlv) :
    room (ts ++ [t]) = room ts + (t.val.length + 2) := by
  simp only [room, List.map_append, List.map_singleton, List.sum_append, List.sum_singleton]

/-! ### Collecting primitive elements -/

section Collect

variable {limit : ℕ} {pred : Tlv → Bool}

theorem room_scanCollect_le {inner : Bytes → List Tlv → List Tlv}
    (hpred : ∀ t, pred t = true → t.constructed = false)
    (hinner : ∀ val out, room (inner val out) ≤ room out + val.length) (fuel : ℕ) (c : Cur)
    (out : List Tlv) : room (scanCollect inner limit pred fuel c out) ≤ room out + c.remaining := by
  induction fuel generalizing c out with
  | zero => exact Nat.le_add_right _ _
  | succ fuel ih =>
      unfold scanCollect
      split
      · exact Nat.le_add_right _ _
      · obtain ⟨-, hok⟩ := read_uses c
        rcases hread : read c with ⟨e | t, c'⟩
        · exact Nat.le_add_right _ _
        · rw [hread] at hok
          have hused := hok t rfl
          have hnext := ih c'
          dsimp only at hused ⊢
          cases ht : t.constructed with
          | true =>
              have hp : pred t = false := by
                cases hp : pred t with
                | false => rfl
                | true => exact absurd (hpred t hp) (by rw [ht]; decide)
              rw [hp, if_neg Bool.false_ne_true, if_pos rfl]
              have hin := hinner t.val out
              have hall := hnext (inner t.val out)
              omega
          | false =>
              rw [if_neg Bool.false_ne_true]
              split
              · have hall := hnext (out ++ [t])
                rw [room_concat] at hall
                omega
              · have hall := hnext out
                omega

theorem room_collect_le (hpred : ∀ t, pred t = true → t.constructed = false) (depth : ℕ)
    (data : Bytes) (out : List Tlv) :
    room (collect depth data limit pred out) ≤ room out + data.length := by
  induction depth generalizing data out with
  | zero => exact Nat.le_add_right _ _
  | succ depth ih =>
      exact room_scanCollect_le hpred (fun val out => ih val out) data.length (Cur.new data) out

end Collect

end Ber

namespace AppDirectory

open Ber (room read_uses)

/-! ### Texts of elements -/

theorem room_readAll_le (fuel : ℕ) (c : Cur) : room (readAll fuel c) ≤ c.remaining := by
  induction fuel generalizing c with
  | zero => exact Nat.zero_le _
  | succ fuel ih =>
      obtain ⟨-, hok⟩ := read_uses c
      unfold readAll
      rcases hread : Ber.read c with ⟨e | t, c'⟩
      · exact Nat.zero_le _
      · rw [hread] at hok
        have hused := hok t rfl
        have hrest := ih c'
        dsimp only at hused ⊢
        rw [Ber.room_cons]
        omega

theorem utf8Len_asStr_le (t : Ber.Tlv) : (t.asStr.getD []).utf8Len ≤ 4 * t.val.length :=
  utf8Len_asciiString_le t.val

/-- The text of the next element, and four times what is left. -/
theorem utf8Len_textOf_read (c : Cur) :
    (textOf (Ber.read c).1).utf8Len + 4 * (Ber.read c).2.remaining ≤ 4 * c.remaining := by
  obtain ⟨hle, hok⟩ := read_uses c
  cases hread : (Ber.read c).1 with
  | error e =>
      have hnil : (textOf (.error e)).utf8Len = 0 := rfl
      omega
  | ok t =>
      have hused := hok t hread
      have ht : (textOf (.ok t)).utf8Len ≤ 4 * t.val.length := utf8Len_asStr_le t
      omega

theorem utf8Len_filterPair_le (t : Ber.Tlv) {sep : Text} (hsep : sep.utf8Len ≤ 2) :
    (filterPair t sep).utf8Len ≤ 4 * (t.val.length + 2) := by
  have hfirst := utf8Len_textOf_read t.cur
  have hsecond := utf8Len_textOf_read (Ber.read t.cur).2
  have hcur : t.cur.remaining = t.val.length := Nat.sub_zero _
  have hparen : Text.utf8Len ['('] = 1 ∧ Text.utf8Len [')'] = 1 := by decide
  unfold filterPair
  dsimp only
  simp only [Text.utf8Len_append]
  omega

/-- **The text of a filter** has at most four bytes for each byte of the filter. -/
theorem utf8Len_renderFilter_le (depth : ℕ) (t : Ber.Tlv) :
    (renderFilter depth t).utf8Len ≤ 4 * (t.val.length + 2) := by
  induction depth generalizing t with
  | zero =>
      have hdots : Text.utf8Len "...".toList = 3 := by decide
      change Text.utf8Len "...".toList ≤ _
      omega
  | succ depth ih =>
      have hall : ∀ ts : List Ber.Tlv,
          ((ts.map (renderFilter depth)).map Text.utf8Len).sum ≤ 4 * room ts := by
        intro ts
        induction ts with
        | nil => exact Nat.le_refl _
        | cons u us ihs =>
            have hu := ih u
            rw [List.map_cons, List.map_cons, List.sum_cons, Ber.room_cons]
            omega
      have hcur : t.cur.remaining = t.val.length := Nat.sub_zero _
      have hchildren : ∀ op : Char, op.utf8Size = 1 → Text.utf8Len (['(', op] ++
          ((readAll 8 t.cur).map (renderFilter depth)).flatten ++ [')']) ≤
            4 * (t.val.length + 2) := by
        intro op hop
        have hroom := room_readAll_le 8 t.cur
        have hsum := hall (readAll 8 t.cur)
        have hopen : Text.utf8Len ['(', op] = 2 := by
          rw [Text.utf8Len_cons, Text.utf8Len_cons, hop]
          decide
        have hclose : Text.utf8Len [')'] = 1 := by decide
        rw [Text.utf8Len_append, Text.utf8Len_append, Text.utf8Len_flatten, hopen, hclose]
        omega
      have hself := utf8Len_asStr_le t
      have hfirst := utf8Len_textOf_read t.cur
      have hopen : Text.utf8Len ['('] = 1 := by decide
      have hstar : Text.utf8Len "=*)".toList = 3 := by decide
      unfold renderFilter
      dsimp only
      split
      · exact hchildren '&' (by decide)
      · exact hchildren '|' (by decide)
      · exact hchildren '!' (by decide)
      · exact utf8Len_filterPair_le t (by decide)
      · rw [Text.utf8Len_append, Text.utf8Len_append, hopen, hstar]
        omega
      · exact utf8Len_filterPair_le t (by decide)
      · exact utf8Len_filterPair_le t (by decide)
      · rw [Text.utf8Len_append, Text.utf8Len_append, hopen, hstar]
        omega
      · exact utf8Len_filterPair_le t (by decide)
      · have hnone : Text.utf8Len "(?)".toList = 3 := by decide
        omega

/-- The texts of elements, joined. -/
theorem utf8Len_join_asStr_le (ts : List Ber.Tlv) :
    (Text.join [','] (ts.filterMap Ber.Tlv.asStr)).utf8Len ≤ 4 * room ts := by
  refine (Text.utf8Len_join_le _).trans ?_
  induction ts with
  | nil => exact Nat.le_refl _
  | cons t ts ih =>
      have ht := utf8Len_asStr_le t
      rw [Ber.room_cons]
      cases hs : t.asStr with
      | none =>
          rw [List.filterMap_cons_none hs]
          omega
      | some u =>
          rw [hs] at ht
          rw [List.filterMap_cons_some hs, List.map_cons, List.sum_cons]
          dsimp only [Option.getD_some] at ht
          omega

/-! ### Operations -/

/-- A short field is not cut. -/
theorem calm_fieldText {t : Ber.Tlv} (h : t.val.length ≤ 128) :
    (liftM (fieldText t 512) : M (Option Text)).Calm := by
  have ht := utf8Len_asStr_le t
  unfold fieldText
  cases hs : t.asStr with
  | none => exact calm_liftPanic (a := none) rfl
  | some u =>
      rw [hs] at ht
      have hcap : cap u 512 = .ok u := cap_of_le (by dsimp only [Option.getD_some] at ht; omega)
      refine calm_liftPanic (a := some u) ?_
      rw [Option.mapM_some, hcap]
      rfl

/-- An element that was read is not longer than what it was read from. -/
theorem length_of_read {c : Cur} {t : Ber.Tlv} (h : (Ber.read c).1 = .ok t) :
    t.val.length + 2 ≤ c.remaining := (Nat.le_add_right _ _).trans ((read_uses c).2 t h)

theorem calm_ldapBind {o : Cur} (h : o.remaining ≤ 128) : (ldapBind o).Calm := by
  have hversion := (read_uses o).1
  unfold ldapBind
  dsimp only
  refine calm_bind (calm_liftError _) fun _ => ?_
  split
  · next name hname =>
    have hlen := length_of_read hname
    refine calm_bind (calm_fieldText (by omega)) fun dn => calm_bind (calm_col _) fun _ => ?_
    repeat' with_reducible first
      | intro _ | exact calm_pure _ | exact calm_col _ | apply calm_ite | split
  · repeat' with_reducible first
      | intro _ | exact calm_pure _ | exact calm_col _ | apply calm_ite | split

theorem calm_ldapResult {o : Cur} (h : o.remaining ≤ 128) : (ldapResult o).Calm := by
  have hcode := (read_uses o).1
  have hdn : ∀ {dn : Ber.Tlv} {s : Text}, (Ber.read (Ber.read o).2).1 = .ok dn → dn.asStr = some s →
      (liftM (cap s 512) : M Text).Calm := by
    intro dn s hread hs
    have hlen := length_of_read hread
    have htext := utf8Len_asStr_le dn
    rw [hs] at htext
    exact calm_liftPanic (cap_of_le (by dsimp only [Option.getD_some] at htext; omega))
  unfold ldapResult
  dsimp only
  repeat' with_reducible first
    | intro _ | exact calm_pure _ | exact calm_col _ | exact hdn ‹_› ‹_› | apply calm_bind | split

/-- A short filter is not cut. -/
theorem calm_filter {c : Cur} (h : c.remaining ≤ 128) {filter : Ber.Tlv}
    (hread : (Ber.read c).1 = .ok filter) :
    (liftM (cap (renderFilter 6 filter) 512) : M Text).Calm := by
  have hlen := length_of_read hread
  have htext := utf8Len_renderFilter_le 6 filter
  exact calm_liftPanic (cap_of_le (by omega))

/-- Short attributes are not cut. -/
theorem calm_attributes {c : Cur} (h : c.remaining ≤ 128) {attrs : Ber.Tlv}
    (hread : (Ber.read c).1 = .ok attrs) :
    (liftM (cap (Text.join [','] ((Ber.collect 3 attrs.val 32 (!·.constructed) []).filterMap
      Ber.Tlv.asStr)) 512) : M Text).Calm := by
  have hlen := length_of_read hread
  have htext := utf8Len_join_asStr_le (Ber.collect 3 attrs.val 32 (!·.constructed) [])
  have hroom : room (Ber.collect 3 attrs.val 32 (!·.constructed) []) ≤ 0 + attrs.val.length :=
    Ber.room_collect_le (fun t ht => by simpa using ht) 3 attrs.val []
  exact calm_liftPanic (cap_of_le (by omega))

theorem calm_ldapSearch {o : Cur} (h : o.remaining ≤ 128) : (ldapSearch o).Calm := by
  have hle : ∀ c : Cur, (Ber.read c).2.remaining ≤ c.remaining := fun c => (read_uses c).1
  have hbase : ∀ {base : Ber.Tlv}, (Ber.read o).1 = .ok base →
      (liftM (fieldText base 512) : M (Option Text)).Calm := by
    intro base hread
    have hlen := length_of_read hread
    exact calm_fieldText (by omega)
  -- the filter stands behind six elements, and the attributes behind it
  have hsix : (Ber.read (Ber.read (Ber.read (Ber.read (Ber.read (Ber.read o).2).2).2).2).2).2.remaining
      ≤ 128 := ((((((hle _).trans (hle _)).trans (hle _)).trans (hle _)).trans (hle _)).trans
        (hle _)).trans h
  unfold ldapSearch
  dsimp only
  repeat' with_reducible first
    | intro _ | exact calm_pure _ | exact calm_col _ | exact hbase ‹_› | exact calm_filter hsix ‹_›
    | exact calm_attributes ((hle _).trans hsix) ‹_› | apply calm_bind | apply calm_ite | split

/-- **A short operation does not panic.** -/
theorem calm_operation {op : Ber.Tlv} (h : op.val.length ≤ 128) : (operation op).Calm := by
  have hop : op.cur.remaining ≤ 128 := h
  have hentry : ∀ {dn : Ber.Tlv}, (Ber.read op.cur).1 = .ok dn →
      (liftM (fieldText dn 512) : M (Option Text)).Calm := by
    intro dn hread
    have hlen := length_of_read hread
    exact calm_fieldText (by omega)
  unfold operation
  dsimp only
  refine calm_ite (fun _ => calm_pure _) fun _ => calm_bind (calm_col _) fun _ => ?_
  refine calm_ite (fun _ => calm_ldapBind hop) fun _ => calm_ite (fun _ => calm_ldapSearch hop)
    fun _ => calm_ite (fun _ => calm_ldapResult hop) fun _ => ?_
  repeat' with_reducible first
    | intro _ | exact calm_pure _ | exact calm_col _ | exact hentry ‹_› | apply calm_bind
    | apply calm_ite | split

/-! ### Requests -/

/-- The dissection of a message panics at its operation only. -/
theorem calm_ldap {m : Message} (h : (operation m.op.tlv).Calm) (later : Bytes) :
    (ldap (m.frame.bytes ++ later)).Calm := by
  rw [ldap_message]
  exact calm_bind (fun _ _ hx => by cases hx) fun _ => calm_bind (calm_col _) fun _ => h

/-- A bind request with a short name does not panic, however long the password is. -/
theorem calm_simpleBind {b : SimpleBind} (pw : b.Password) (h : b.name.val.length ≤ 128) :
    (operation (SimpleBind.op pw).tlv).Calm := by
  obtain ⟨c₁, c₂, hversion, hname, -⟩ := SimpleBind.reads pw
  have hop : operation (SimpleBind.op pw).tlv = (do
      col fun c => { c with ldapOperation := some (ldapOpName 0) }
      ldapBind (SimpleBind.op pw).tlv.cur) := rfl
  rw [hop]
  refine calm_bind (calm_col _) fun _ => ?_
  unfold ldapBind
  rw [hversion]
  dsimp only
  rw [hname]
  refine calm_bind (calm_liftError _) fun _ => ?_
  refine calm_bind (calm_fieldText h) fun dn => calm_bind (calm_col _) fun _ => ?_
  repeat' with_reducible first
    | intro _ | exact calm_pure _ | exact calm_col _ | apply calm_ite | split

/-- **When the dissector panics, the password is far from the beginning of the requests.** -/
theorem Requests.far_of_panic {r : Requests} {pw : r.bind.Password} {s : Sink DirectoryCols}
    {q : Panic} (h : (ldap (payload pw)).exec s = .error q) : 128 < r.before.length := by
  by_contra hshort
  obtain ⟨m, ms, hms, hm⟩ | ⟨-, hbind⟩ := payload_cases (r := r)
  · obtain ⟨rest, hrest⟩ := hm pw
    have hop : m.op.val.length ≤ 128 := by
      have hval := congrArg List.length m.val_eq
      simp only [before, hms, List.map_cons, List.flatten_cons, Ber.Element.bytes,
        List.length_append, List.length_cons] at hshort hval
      omega
    rw [hrest] at h
    exact calm_ldap (calm_operation hop) rest s q h
  · have hname : r.bind.name.val.length ≤ 128 := by
      simp only [before, SimpleBind.before, Ber.Element.bytes, List.length_append,
        List.length_cons] at hshort
      omega
    rw [hbind] at h
    exact calm_ldap (m := SimpleBind.message pw) (calm_simpleBind pw hname) r.later s q h

end AppDirectory

end PcapRacer
