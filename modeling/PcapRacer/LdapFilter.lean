/-
**LDAP search requests, and the filter that the dissector shows.**

A search filter is a tree: conjunctions, disjunctions and negations over tests of one attribute.  The
dissector renders the tree back into the familiar form, six levels deep and eight members wide.  A
filter that fits is shown as a whole; of a larger one the dissector shows what is left when the tree
is cut.  Values are not escaped, so the text gives the filter back only where attributes and values
have none of the characters that the form itself uses; a pattern is shown as a test for presence.

Main definitions:

* `LdapFilter`, `LdapFilter.text`, `LdapFilter.cut` — filters, their text, and what is left of them;
* `IsFilter` — the element that encodes a filter, its lengths in any definite form;
* `LdapFilter.Fits`, `LdapFilter.Plain` — filters that are shown as a whole, and filters that their
  text gives back;
* `SearchRequest` — search requests.

Main results:

* `LdapFilter.renderFilter_of_isFilter` — **the dissector renders what is left of the filter**;
* `LdapFilter.text_inj` — **texts of plain filters are told apart**;
* `AppDirectory.search_read_back` — **search requests are read back**.
-/

import PcapRacer.BerForest
import PcapRacer.LdapCalm
import PcapRacer.TlsHello
import PcapRacer.WireReads

set_option relaxedAutoImplicit false
set_option autoImplicit false

namespace PcapRacer

/-! ### Filters -/

/-- The two ways to join filters. -/
inductive Junction
  | all
  | any

namespace Junction

def tag : Junction → UInt8
  | all => 0
  | any => 1

def sign : Junction → Char
  | all => '&'
  | any => '|'

end Junction

/-- The comparisons of an attribute with a value. -/
inductive Comparison
  | equal
  | atLeast
  | atMost
  | approx

namespace Comparison

def tag : Comparison → UInt8
  | equal => 3
  | atLeast => 5
  | atMost => 6
  | approx => 8

def sign : Comparison → Text
  | equal => "=".toList
  | atLeast => ">=".toList
  | atMost => "<=".toList
  | approx => "~=".toList

theorem exists_sign (c : Comparison) : ∃ s r, c.sign = s :: r ∧ s ∈ "=><~".toList := by
  cases c <;> exact ⟨_, _, rfl, by decide⟩

end Comparison

/-- A search filter.  `elided` stands where the rest of a filter is not shown. -/
inductive LdapFilter
  | join (junction : Junction) (members : List LdapFilter)
  | not (member : LdapFilter)
  | compare (comparison : Comparison) (attr value : Text)
  | substrings (attr : Text) (pattern : Bytes)
  | present (attr : Text)
  | extensible (rule : Bytes)
  | elided

namespace LdapFilter

mutual

/-- The familiar form of a filter.  Of a pattern it says only that there is one. -/
def text : LdapFilter → Text
  | join j fs => ['(', j.sign] ++ texts fs ++ [')']
  | not f => ['(', '!'] ++ text f ++ [')']
  | compare c attr value => ['('] ++ attr ++ c.sign ++ value ++ [')']
  | substrings attr _ => ['('] ++ attr ++ "=*)".toList
  | present attr => ['('] ++ attr ++ "=*)".toList
  | extensible _ => "(?)".toList
  | elided => "...".toList

def texts : List LdapFilter → Text
  | [] => []
  | f :: fs => text f ++ texts fs

end

theorem texts_eq (fs : List LdapFilter) : texts fs = (fs.map text).flatten := by
  induction fs with
  | nil => rfl
  | cons f fs ih => rw [texts, ih, List.map_cons, List.flatten_cons]

/-- What is left of a filter when it is cut at a depth, and each row of members after the eighth. -/
def cut : ℕ → LdapFilter → LdapFilter
  | 0, _ => elided
  | depth + 1, join j fs => join j ((fs.take 8).map (cut depth))
  | depth + 1, not f => not (cut depth f)
  | _ + 1, compare c attr value => compare c attr value
  | _ + 1, substrings attr pattern => substrings attr pattern
  | _ + 1, present attr => present attr
  | _ + 1, extensible rule => extensible rule
  | _ + 1, elided => elided

/-- The filter is not cut at this depth. -/
inductive Fits : ℕ → LdapFilter → Prop
  | join {depth : ℕ} {j : Junction} {fs : List LdapFilter} (hlen : fs.length ≤ 8) :
      (∀ f ∈ fs, Fits depth f) → Fits (depth + 1) (join j fs)
  | not {depth : ℕ} {f : LdapFilter} : Fits depth f → Fits (depth + 1) (not f)
  | compare {depth : ℕ} (c : Comparison) (attr value : Text) :
      Fits (depth + 1) (compare c attr value)
  | substrings {depth : ℕ} (attr : Text) (pattern : Bytes) :
      Fits (depth + 1) (substrings attr pattern)
  | present {depth : ℕ} (attr : Text) : Fits (depth + 1) (present attr)
  | extensible {depth : ℕ} (rule : Bytes) : Fits (depth + 1) (extensible rule)

/-- Of a filter that fits nothing is cut. -/
theorem cut_of_fits {depth : ℕ} {f : LdapFilter} (h : f.Fits depth) : f.cut depth = f := by
  induction h with
  | @join depth j fs hlen _ ih =>
      rw [cut, List.take_of_length_le hlen, List.map_congr_left ih, List.map_id']
  | not _ ih => rw [cut, ih]
  | compare | substrings | present | extensible => rfl

end LdapFilter

/-! ### Filters that their text gives back -/

namespace LdapFilter

/-- A character that the form itself uses. -/
abbrev Special (c : Char) : Prop := c ∈ "()&|!=<>~*".toList

/-- No attribute has a character in it that the form uses, and no value a closing parenthesis; a
value is not the sign for presence, and no member is shown in part only. -/
inductive Plain : LdapFilter → Prop
  | join {j : Junction} {fs : List LdapFilter} : (∀ f ∈ fs, Plain f) → Plain (join j fs)
  | not {f : LdapFilter} : Plain f → Plain (not f)
  | compare {c : Comparison} {attr value : Text} (hattr : ∀ x ∈ attr, ¬ Special x)
      (hvalue : ')' ∉ value) (hstar : value ≠ ['*']) : Plain (compare c attr value)
  | present {attr : Text} (hattr : ∀ x ∈ attr, ¬ Special x) : Plain (present attr)

/-- The form of a test.  A test for presence looks like a comparison with a star. -/
def testText (attr : Text) (c : Comparison) (value : Text) : Text :=
  ['('] ++ attr ++ c.sign ++ value ++ [')']

theorem text_present (attr : Text) : (present attr).text = testText attr .equal ['*'] := by
  simp [text, testText, Comparison.sign]

theorem text_join_append (j : Junction) (fs : List LdapFilter) (x : Text) :
    (join j fs).text ++ x = '(' :: j.sign :: (texts fs ++ ')' :: x) := by
  simp [text]

theorem text_not_append (f : LdapFilter) (x : Text) :
    (not f).text ++ x = '(' :: '!' :: (f.text ++ ')' :: x) := by
  simp [text]

theorem sign_mem (j : Junction) : j.sign ∈ "&|!".toList := by cases j <;> decide

/-- Two texts that stop at the first character with a property are given back by what they begin. -/
theorem append_inj_of_stop {p : Char → Prop} {a b r r' : Text} {c d : Char}
    (ha : ∀ x ∈ a, ¬ p x) (hb : ∀ x ∈ b, ¬ p x) (hc : p c) (hd : p d)
    (h : a ++ c :: r = b ++ d :: r') : a = b ∧ c = d ∧ r = r' := by
  induction a generalizing b with
  | nil =>
      cases b with
      | nil => exact ⟨rfl, List.cons.inj h⟩
      | cons y b =>
          obtain ⟨rfl, -⟩ := List.cons.inj h
          exact absurd hc (hb c List.mem_cons_self)
  | cons x a ih =>
      cases b with
      | nil =>
          obtain ⟨rfl, -⟩ := List.cons.inj h
          exact absurd hd (ha x List.mem_cons_self)
      | cons y b =>
          obtain ⟨rfl, htail⟩ := List.cons.inj h
          obtain ⟨rfl, hrest⟩ := ih (fun z hz => ha z (List.mem_cons_of_mem _ hz))
            (fun z hz => hb z (List.mem_cons_of_mem _ hz)) htail
          exact ⟨rfl, hrest⟩

section Test

variable {attr attr' value value' x y : Text} {c c' : Comparison}

/-- A test is given back by its form. -/
theorem testText_inj (hattr : ∀ z ∈ attr, ¬ Special z) (hattr' : ∀ z ∈ attr', ¬ Special z)
    (hvalue : ')' ∉ value) (hvalue' : ')' ∉ value')
    (h : testText attr c value ++ x = testText attr' c' value' ++ y) :
    attr = attr' ∧ c = c' ∧ value = value' ∧ x = y := by
  have hspecial : ∀ s ∈ "=><~".toList, Special s := by simp [Special]
  obtain ⟨s, r, hs, hmem⟩ := c.exists_sign
  obtain ⟨s', r', hs', hmem'⟩ := c'.exists_sign
  -- the attribute ends where the sign begins
  have hbody : attr ++ s :: (r ++ (value ++ ')' :: x)) =
      attr' ++ s' :: (r' ++ (value' ++ ')' :: y)) := by
    simpa [testText, hs, hs'] using h
  obtain ⟨rfl, rfl, hrest⟩ := append_inj_of_stop hattr hattr' (hspecial s hmem)
    (hspecial s' hmem') hbody
  have hc : c = c' := by
    cases c <;> cases c' <;> first | rfl | (rw [← (List.cons.inj hs').1] at hs; cases hs)
  subst hc
  rw [hs] at hs'
  obtain rfl : r = r' := (List.cons.inj hs').2
  obtain ⟨rfl, -, rfl⟩ := append_inj_of_stop (p := (· = ')'))
    (fun z hz hz' => hvalue (hz' ▸ hz)) (fun z hz hz' => hvalue' (hz' ▸ hz)) rfl rfl
    (List.append_cancel_left hrest)
  exact ⟨rfl, rfl, rfl, rfl⟩

/-- A test is not mistaken for filters that are joined or negated. -/
theorem testText_ne (hattr : ∀ z ∈ attr, ¬ Special z) {s : Char} (hs : s ∈ "&|!".toList) :
    testText attr c value ++ x ≠ '(' :: s :: y := by
  intro h
  cases attr with
  | nil =>
      obtain ⟨s', r, hs', hmem⟩ := c.exists_sign
      have hhead : ∀ s ∈ "&|!".toList, s ∉ "=><~".toList := by simp
      simp only [testText, hs', List.append_nil, List.cons_append, List.nil_append,
        List.cons.injEq, true_and] at h
      exact hhead s hs (h.1 ▸ hmem)
  | cons a attr =>
      have ha : a = s := by
        simp only [testText, List.cons_append, List.nil_append, List.cons.injEq, true_and] at h
        exact h.1
      have hspecial : ∀ s ∈ "&|!".toList, Special s := by simp [Special]
      exact hattr a List.mem_cons_self (ha ▸ hspecial s hs)

end Test

/-- The form of a filter begins with a parenthesis. -/
theorem exists_text_of_plain {f : LdapFilter} (h : f.Plain) : ∃ r, f.text = '(' :: r := by
  cases h <;> exact ⟨_, rfl⟩

/-- The forms of plain filters in a row are told apart when those of its members are. -/
theorem texts_inj {fs gs : List LdapFilter} {x y : Text} (hfs : ∀ f ∈ fs, f.Plain)
    (hgs : ∀ g ∈ gs, g.Plain)
    (ih : ∀ f ∈ fs, ∀ (g : LdapFilter) (x y : Text), g.Plain → f.text ++ x = g.text ++ y →
      f = g ∧ x = y)
    (h : texts fs ++ ')' :: x = texts gs ++ ')' :: y) : fs = gs ∧ x = y := by
  induction fs generalizing gs with
  | nil =>
      cases gs with
      | nil => exact ⟨rfl, (List.cons.inj h).2⟩
      | cons g gs =>
          obtain ⟨r, hr⟩ := exists_text_of_plain (hgs g List.mem_cons_self)
          rw [texts, texts, hr] at h
          exact absurd (List.cons.inj h).1 (by decide)
  | cons f fs ihs =>
      cases gs with
      | nil =>
          obtain ⟨r, hr⟩ := exists_text_of_plain (hfs f List.mem_cons_self)
          rw [texts, texts, hr] at h
          exact absurd (List.cons.inj h).1 (by decide)
      | cons g gs =>
          rw [texts, texts, List.append_assoc, List.append_assoc] at h
          obtain ⟨rfl, hrest⟩ := ih f List.mem_cons_self g _ _ (hgs g List.mem_cons_self) h
          obtain ⟨rfl, rfl⟩ := ihs (fun f hf => hfs f (List.mem_cons_of_mem _ hf))
            (fun g hg => hgs g (List.mem_cons_of_mem _ hg))
            (fun f hf => ih f (List.mem_cons_of_mem _ hf)) hrest
          exact ⟨rfl, rfl⟩

/-- **The text of a plain filter gives the filter back**, and what stands behind it. -/
theorem text_append_inj {f g : LdapFilter} {x y : Text} (hf : f.Plain) (hg : g.Plain)
    (h : f.text ++ x = g.text ++ y) : f = g ∧ x = y := by
  induction hf generalizing g x y with
  | @join j fs hfs ih =>
      rw [text_join_append] at h
      cases hg with
      | @join j' gs hgs =>
          rw [text_join_append] at h
          obtain ⟨hsign, hrest⟩ := List.cons.inj (List.cons.inj h).2
          obtain ⟨rfl, rfl⟩ := texts_inj hfs hgs (fun f hf g x y => ih f hf) hrest
          have hjunction : j = j' := by cases j <;> cases j' <;> first | rfl | cases hsign
          exact ⟨by rw [hjunction], rfl⟩
      | @not g hg =>
          have hsign : j.sign = '!' := (List.cons.inj (List.cons.inj h).2).1
          cases j <;> cases hsign
      | compare hattr => exact absurd h.symm (testText_ne hattr (sign_mem j))
      | present hattr =>
          rw [text_present] at h
          exact absurd h.symm (testText_ne hattr (sign_mem j))
  | @not f hf ih =>
      rw [text_not_append] at h
      cases hg with
      | @join j' gs hgs =>
          have hsign : '!' = j'.sign := (List.cons.inj (List.cons.inj h).2).1
          cases j' <;> cases hsign
      | @not g hg =>
          rw [text_not_append] at h
          obtain ⟨rfl, hrest⟩ := ih hg (List.cons.inj (List.cons.inj h).2).2
          exact ⟨rfl, (List.cons.inj hrest).2⟩
      | compare hattr => exact absurd h.symm (testText_ne hattr (by decide))
      | present hattr =>
          rw [text_present] at h
          exact absurd h.symm (testText_ne hattr (by decide))
  | @compare c attr value hattr hvalue hstar =>
      cases hg with
      | @join j' gs hgs =>
          rw [text_join_append] at h
          exact absurd h (testText_ne hattr (sign_mem j'))
      | @not g hg =>
          rw [text_not_append] at h
          exact absurd h (testText_ne hattr (by decide))
      | compare hattr' hvalue' =>
          obtain ⟨rfl, rfl, rfl, rfl⟩ := testText_inj hattr hattr' hvalue hvalue' h
          exact ⟨rfl, rfl⟩
      | present hattr' =>
          rw [text_present] at h
          obtain ⟨-, -, heq, -⟩ := testText_inj hattr hattr' hvalue (by decide) h
          exact absurd heq hstar
  | @present attr hattr =>
      rw [text_present] at h
      cases hg with
      | @join j' gs hgs =>
          rw [text_join_append] at h
          exact absurd h (testText_ne hattr (sign_mem j'))
      | @not g hg =>
          rw [text_not_append] at h
          exact absurd h (testText_ne hattr (by decide))
      | compare hattr' hvalue' hstar =>
          obtain ⟨-, -, heq, -⟩ := testText_inj hattr hattr' (by decide) hvalue' h
          exact absurd heq.symm hstar
      | present hattr' =>
          rw [text_present] at h
          obtain ⟨rfl, -, -, rfl⟩ := testText_inj hattr hattr' (by decide) (by decide) h
          exact ⟨rfl, rfl⟩

/-- **Texts of plain filters are told apart.** -/
theorem text_inj {f g : LdapFilter} (hf : f.Plain) (hg : g.Plain) (h : f.text = g.text) : f = g :=
  (text_append_inj (x := []) (y := []) hf hg (by rw [h])).1

end LdapFilter

/-! ### The elements of a filter -/

/-- The element encodes the filter: the tag tells the kind, and members, attributes and values are
elements of any tag.  The class is not looked at. -/
inductive IsFilter : LdapFilter → Ber.Tlv → Prop
  | join {j : Junction} {fs : List LdapFilter} {es : List Ber.Encoding} {t : Ber.Tlv}
      (htag : t.tag = j.tag) (hval : t.val = Ber.bytesOfAll es) (hlen : fs.length = es.length) :
      (∀ p ∈ fs.zip es, IsFilter p.1 p.2.tlv) → IsFilter (.join j fs) t
  | not {f : LdapFilter} {e : Ber.Encoding} {t : Ber.Tlv} (htag : t.tag = 2)
      (hval : t.val = Ber.bytesOfAll [e]) : IsFilter f e.tlv → IsFilter (.not f) t
  | compare {c : Comparison} {a v : Ber.Encoding} {t : Ber.Tlv} (htag : t.tag = c.tag)
      (hval : t.val = Ber.bytesOfAll [a, v]) :
      IsFilter (.compare c (a.tlv.asStr.getD []) (v.tlv.asStr.getD [])) t
  | substrings {a p : Ber.Encoding} {t : Ber.Tlv} (htag : t.tag = 4)
      (hval : t.val = Ber.bytesOfAll [a, p]) :
      IsFilter (.substrings (a.tlv.asStr.getD []) p.val) t
  | present {t : Ber.Tlv} (htag : t.tag = 7) : IsFilter (.present (t.asStr.getD [])) t
  | extensible {t : Ber.Tlv} (htag : t.tag = 9) : IsFilter (.extensible t.val) t

namespace AppDirectory

/-- All elements of a row are read, as far as the fuel goes. -/
theorem readAll_of_reads {c : Cur} {ts : List Ber.Tlv} (h : Ber.Reads c ts) (fuel : ℕ) :
    readAll fuel c = ts.take fuel := by
  induction h generalizing fuel with
  | @nil c hrest =>
      cases fuel with
      | zero => rfl
      | succ fuel =>
          have herr := Ber.read_of_rest_nil hrest
          rcases hread : Ber.read c with ⟨e | t, c'⟩
          · rw [readAll, hread]
            rfl
          · rw [hread] at herr
            cases herr
  | @cons c c' t ts _ hread _ ih =>
      cases fuel with
      | zero => rfl
      | succ fuel =>
          rw [readAll, hread, List.take_succ_cons]
          exact congrArg (t :: ·) (ih fuel)

/-- The first two elements of a value. -/
theorem read_pair {t : Ber.Tlv} {a b : Ber.Encoding} (h : t.val = Ber.bytesOfAll [a, b]) :
    ∃ c, Ber.read t.cur = (.ok a.tlv, c) ∧ (Ber.read c).1 = .ok b.tlv := by
  obtain ⟨c, ha, hrest⟩ := Ber.read_encoding (c := t.cur) a h
  obtain ⟨c', hb, -⟩ := Ber.read_encoding b (hrest.trans (Ber.bytesOfAll_cons b []))
  exact ⟨c, ha, congrArg Prod.fst hb⟩

theorem filterPair_eq {t : Ber.Tlv} {a v : Ber.Encoding} (h : t.val = Ber.bytesOfAll [a, v])
    (sep : Text) : filterPair t sep =
      ['('] ++ a.tlv.asStr.getD [] ++ sep ++ v.tlv.asStr.getD [] ++ [')'] := by
  obtain ⟨c, ha, hv⟩ := read_pair h
  rw [filterPair, ha]
  dsimp only
  rw [hv]
  rfl

/-- The members of a filter, as many as are shown. -/
theorem readAll_members {t : Ber.Tlv} {es : List Ber.Encoding} (h : t.val = Ber.bytesOfAll es) :
    readAll 8 t.cur = (es.map Ber.Encoding.tlv).take 8 :=
  readAll_of_reads (Ber.reads_bytesOfAll (c := t.cur) h) 8

/-- **The dissector renders what is left of the filter.** -/
theorem renderFilter_of_isFilter (depth : ℕ) {f : LdapFilter} {t : Ber.Tlv} (h : IsFilter f t) :
    renderFilter depth t = (f.cut depth).text := by
  induction depth generalizing f t with
  | zero => rfl
  | succ depth ih =>
      cases h with
      | @join j fs es _ htag hval hlen hmem =>
          have hmembers : (readAll 8 t.cur).map (renderFilter depth) =
              ((fs.take 8).map (LdapFilter.cut depth)).map LdapFilter.text := by
            rw [readAll_members hval, ← List.map_take, List.map_map, List.map_map]
            refine List.ext_getElem (by simp [hlen]) fun i hi hi' => ?_
            simp only [List.getElem_map, List.getElem_take, Function.comp_apply]
            have hi : i < fs.length ∧ i < es.length := by
              simp only [List.length_map, List.length_take] at hi
              omega
            exact ih (hmem (fs[i], es[i]) (List.mem_iff_getElem.mpr
              ⟨i, by simpa using hi, List.getElem_zip⟩))
          rw [LdapFilter.cut, LdapFilter.text, LdapFilter.texts_eq, renderFilter, htag, hmembers]
          cases j <;> rfl
      | @not f e _ htag hval hmem =>
          rw [LdapFilter.cut, LdapFilter.text, renderFilter, htag, readAll_members hval, ← ih hmem]
          simp
      | @compare c a v _ htag hval =>
          rw [LdapFilter.cut, LdapFilter.text, renderFilter, htag]
          cases c <;> exact filterPair_eq hval _
      | @substrings a p _ htag hval =>
          obtain ⟨c, ha, -⟩ := read_pair hval
          rw [LdapFilter.cut, LdapFilter.text, renderFilter, htag, ha]
          rfl
      | present htag =>
          rw [LdapFilter.cut, LdapFilter.text, renderFilter, htag]
          rfl
      | extensible htag =>
          rw [LdapFilter.cut, LdapFilter.text, renderFilter, htag]
          rfl

end AppDirectory

/-! ### Search requests -/

/-- A search request: the base, five parameters, the filter and the names of the attributes that are
asked for. -/
structure SearchRequest where
  frame : Ber.Element 0x30
  messageId : Ber.Element 0x02
  op : Ber.Element 0x63
  controls : Bytes
  frame_val : frame.val = messageId.bytes ++ (op.bytes ++ controls)
  base : Ber.Encoding
  scope : Ber.Encoding
  derefAliases : Ber.Encoding
  sizeLimit : Ber.Encoding
  timeLimit : Ber.Encoding
  typesOnly : Ber.Encoding
  filter : Ber.Encoding
  query : LdapFilter
  isFilter : IsFilter query filter.tlv
  attrs : Ber.Encoding
  names : List Ber.Encoding
  names_primitive : ∀ e ∈ names, e.tlv.constructed = false
  attrs_val : attrs.val = Ber.bytesOfAll names
  extra : Bytes
  op_val : op.val = Ber.bytesOfAll [base, scope, derefAliases, sizeLimit, timeLimit, typesOnly,
    filter, attrs] ++ extra

namespace SearchRequest

variable (r : SearchRequest)

def bytes : Bytes := r.frame.bytes

/-- The message that carries it. -/
def message : AppDirectory.Message where
  frame := r.frame
  messageId := r.messageId
  opId := 0x63
  op := r.op
  controls := r.controls
  val_eq := r.frame_val
  lowTag := by decide
  version h := absurd h (by decide)

/-- The names that are shown: the first 32, without the empty ones. -/
def shownNames : List Text := (r.names.take 32).filterMap fun e => e.tlv.asStr

def filterText : Text := (r.query.cut 6).text

/-- What the columns should hold. -/
def columns (c : DirectoryCols) : DirectoryCols :=
  { c with
    ldapMessageId := r.messageId.tlv.asU64.map UInt64.toUInt32
    ldapOperation := some "searchRequest".toList
    ldapDn := r.base.tlv.asStr
    ldapFilter := some r.filterText
    ldapAttributes :=
      if r.shownNames = [] then c.ldapAttributes else some (Text.join [','] r.shownNames) }

/-- Nothing of the request needs a cut. -/
structure TextFits : Prop where
  base : ∀ s, r.base.tlv.asStr = some s → s.utf8Len ≤ 512
  filter : r.filterText.utf8Len ≤ 512
  names : (Text.join [','] r.shownNames).utf8Len ≤ 512

/-- The names are found in their element. -/
theorem collect_names : Ber.collect 3 r.attrs.val 32 (!·.constructed) [] =
    (r.names.take 32).map Ber.Encoding.tlv := by
  have hforest : ∀ es : List Ber.Encoding, (∀ e ∈ es, e.tlv.constructed = false) →
      Ber.IsForest (Ber.bytesOfAll es) (es.map fun e => .mk e.tlv []) := by
    intro es hes
    induction es with
    | nil => exact .nil
    | cons e es ih =>
        exact .primitive (hes e List.mem_cons_self)
          (ih fun e he => hes e (List.mem_cons_of_mem _ he))
  have hleaves : (Ber.preorder 3 (r.names.map fun e => .mk e.tlv [])).filter (!·.constructed) =
      r.names.map Ber.Encoding.tlv := by
    rw [Ber.preorder, List.flatMap_map, List.filter_flatMap]
    rw [← List.flatMap_pure_eq_map]
    refine List.flatMap_congr fun e he => ?_
    have hprimitive := r.names_primitive e he
    simp [Ber.Tree.tlv, Ber.Tree.children, Ber.preorder, hprimitive]
  rw [r.attrs_val]
  refine (Ber.gathers_forest (hforest r.names r.names_primitive) [] (Nat.zero_le 32)).trans ?_
  rw [hleaves, List.nil_append, List.map_take]

end SearchRequest

namespace AppDirectory

/-- The dissector reads back the operation of a search request. -/
theorem exec_ldapSearch (r : SearchRequest) (h : r.TextFits) {o : Cur} (hrest : o.rest = r.op.val)
    (s : Sink DirectoryCols) :
    (ldapSearch o).exec s = .ok (.ok (), { s with cols :=
      { s.cols with
        ldapDn := r.base.tlv.asStr
        ldapFilter := some r.filterText
        ldapAttributes := if r.shownNames = [] then s.cols.ldapAttributes
          else some (Text.join [','] r.shownNames) } }) := by
  rw [r.op_val] at hrest
  simp only [Ber.bytesOfAll_cons, List.append_assoc] at hrest
  obtain ⟨c₁, hbase, hrest⟩ := Ber.read_encoding r.base hrest
  obtain ⟨c₂, h₁, hrest⟩ := Ber.read_encoding r.scope hrest
  obtain ⟨c₃, h₂, hrest⟩ := Ber.read_encoding r.derefAliases hrest
  obtain ⟨c₄, h₃, hrest⟩ := Ber.read_encoding r.sizeLimit hrest
  obtain ⟨c₅, h₄, hrest⟩ := Ber.read_encoding r.timeLimit hrest
  obtain ⟨c₆, h₅, hrest⟩ := Ber.read_encoding r.typesOnly hrest
  obtain ⟨c₇, hfilter, hrest⟩ := Ber.read_encoding r.filter hrest
  obtain ⟨c₈, hattrs, -⟩ := Ber.read_encoding r.attrs hrest
  have hdn : fieldText r.base.tlv 512 = .ok r.base.tlv.asStr := mapM_cap_asciiString h.base
  have hshown : cap (renderFilter 6 r.filter.tlv) 512 = .ok r.filterText := by
    rw [renderFilter_of_isFilter 6 r.isFilter]
    exact cap_of_le h.filter
  unfold ldapSearch
  rw [hbase]
  dsimp only
  rw [exec_cap_bind hdn, exec_col_bind]
  have hparams : ¬ ([.ok r.scope.tlv, .ok r.derefAliases.tlv, .ok r.sizeLimit.tlv,
      .ok r.timeLimit.tlv, .ok r.typesOnly.tlv] : List (Except DissectError Ber.Tlv)).any
        (fun p => p.toOption.isNone) = true := Bool.false_ne_true
  have hnames : (Ber.collect 3 r.attrs.tlv.val 32 (!·.constructed) []).filterMap Ber.Tlv.asStr =
      r.shownNames := by
    rw [show r.attrs.tlv.val = r.attrs.val from rfl, r.collect_names, List.filterMap_map]
    rfl
  simp only [h₁, h₂, h₃, h₄, h₅, hfilter, hattrs, if_neg hparams, hnames]
  rw [exec_cap_bind hshown, exec_col_bind]
  by_cases hempty : r.shownNames = []
  · rw [if_neg (not_not.mpr hempty), if_pos hempty]
    rfl
  · rw [if_pos hempty, if_neg hempty, exec_cap_bind (cap_of_le h.names), exec_col]

/-- The dissector reads back a search request, whatever stands behind it. -/
theorem exec_ldap_search (r : SearchRequest) (h : r.TextFits) (later : Bytes)
    (s : Sink DirectoryCols) :
    (ldap (r.bytes ++ later)).exec s =
      .ok (.ok (), { stack := s.stack ++ [.ldap], cols := r.columns s.cols }) := by
  have hop : operation r.op.tlv = (do
      col fun c => { c with ldapOperation := some (ldapOpName 3) }
      ldapSearch r.op.tlv.cur) := rfl
  refine (congrArg (Dissect.exec · s) (ldap_message r.message later)).trans ?_
  rw [exec_bind, exec_layer]
  dsimp only
  rw [exec_col_bind]
  change (operation r.op.tlv).exec _ = _
  rw [hop, exec_col_bind, exec_ldapSearch r h rfl]
  rfl

/-- **Search requests are read back.**  Whatever the form of its lengths and whatever stands behind
it, of a search request the columns hold the number, the base, the filter as far as it is shown, and
the first 32 names, as long as these texts need no cut.  A filter of at most six levels and eight
members is shown as a whole, and two such requests with plain filters that show the same filter ask
for the same. -/
theorem search_read_back :
    (∀ (r : SearchRequest) (later : Bytes) (s : Sink DirectoryCols), r.TextFits →
      (ldap (r.bytes ++ later)).exec s =
        .ok (.ok (), { stack := s.stack ++ [.ldap], cols := r.columns s.cols })) ∧
    (∀ (r : SearchRequest) (c : DirectoryCols), r.query.Fits 6 →
      (r.columns c).ldapFilter = some r.query.text) ∧
    ∀ (r r' : SearchRequest) (c c' : DirectoryCols), r.query.Fits 6 → r'.query.Fits 6 →
      r.query.Plain → r'.query.Plain →
      (r.columns c).ldapFilter = (r'.columns c').ldapFilter → r.query = r'.query := by
  have hshown : ∀ (r : SearchRequest) (c : DirectoryCols), r.query.Fits 6 →
      (r.columns c).ldapFilter = some r.query.text :=
    fun r _ h => congrArg (fun f : LdapFilter => some f.text) (LdapFilter.cut_of_fits h)
  refine ⟨fun r later s h => exec_ldap_search r h later s, hshown,
    fun r r' c c' h h' hplain hplain' heq => ?_⟩
  rw [hshown r c h, hshown r' c' h'] at heq
  exact LdapFilter.text_inj hplain hplain' (Option.some.inj heq)

/-- A length below 128 takes one octet. -/
theorem isLength_length (val : Bytes) (h : val.length < 128) :
    Ber.IsLength val.length [UInt8.ofNat val.length] := .short h

/-- An element of one identifier octet and one length octet. -/
def shortElement (lead : UInt8) (hlead : (lead &&& 0x1f == 0x1f) = false) (val : Bytes)
    (h : val.length < 128) : Ber.Encoding :=
  ⟨Ber.lowIdentifier lead hlead, [UInt8.ofNat val.length], val, isLength_length val h⟩

def uidElement : Ber.Encoding := shortElement 0x04 rfl [0x75, 0x69, 0x64] (by decide)

def bobElement : Ber.Encoding := shortElement 0x04 rfl [0x62, 0x6f, 0x62] (by decide)

def uidIsBob : Ber.Encoding :=
  shortElement 0xa3 rfl (Ber.bytesOfAll [uidElement, bobElement]) (by decide)

def hasName : Ber.Encoding := shortElement 0x87 rfl [0x63, 0x6e] (by decide)

def hasNoName : Ber.Encoding := shortElement 0xa2 rfl (Ber.bytesOfAll [hasName]) (by decide)

def bobWithoutName : Ber.Encoding :=
  shortElement 0xa0 rfl (Ber.bytesOfAll [uidIsBob, hasNoName]) (by decide)

theorem isFilter_bobWithoutName : IsFilter
    (.join .all [.compare .equal "uid".toList "bob".toList, .not (.present "cn".toList)])
    bobWithoutName.tlv := by
  have huid : uidElement.tlv.asStr.getD [] = "uid".toList := by decide
  have hbob : bobElement.tlv.asStr.getD [] = "bob".toList := by decide
  have hcn : hasName.tlv.asStr.getD [] = "cn".toList := by decide
  have hequal : IsFilter (.compare .equal "uid".toList "bob".toList) uidIsBob.tlv := by
    rw [← huid, ← hbob]
    exact .compare rfl rfl
  have hnot : IsFilter (.not (.present "cn".toList)) hasNoName.tlv := by
    rw [← hcn]
    exact .not (e := hasName) rfl rfl (.present rfl)
  have hparts : ∀ p ∈ List.zip [.compare .equal "uid".toList "bob".toList,
      .not (.present "cn".toList)] [uidIsBob, hasNoName], IsFilter p.1 p.2.tlv := by
    intro p hp
    simp only [List.zip_cons_cons, List.zip_nil_right, List.mem_cons, List.not_mem_nil,
      or_false] at hp
    obtain rfl | rfl := hp
    · exact hequal
    · exact hnot
  exact .join rfl rfl rfl hparts

/-- The parts of a request for the mail of one user, without a name, below the root. -/
def searchParts : List Ber.Encoding :=
  [shortElement 0x04 rfl [] (Nat.zero_lt_succ _), shortElement 0x0a rfl [2] (by decide),
    shortElement 0x0a rfl [0] (by decide), shortElement 0x02 rfl [0] (by decide),
    shortElement 0x02 rfl [0] (by decide), shortElement 0x01 rfl [0] (by decide), bobWithoutName,
    shortElement 0x30 rfl [0x04, 0x04, 0x6d, 0x61, 0x69, 0x6c] (by decide)]

def searchOp : Ber.Element 0x63 := ⟨[0x2d], Ber.bytesOfAll searchParts, .short (by decide)⟩

def searchForBob : SearchRequest where
  frame := ⟨[0x34], [0x02, 0x01, 0x05] ++ (searchOp.bytes ++ [0xa0, 0x00]), .short (by decide)⟩
  messageId := ⟨[0x01], [0x05], .short (by decide)⟩
  op := searchOp
  controls := [0xa0, 0x00]
  frame_val := rfl
  base := searchParts[0]
  scope := searchParts[1]
  derefAliases := searchParts[2]
  sizeLimit := searchParts[3]
  timeLimit := searchParts[4]
  typesOnly := searchParts[5]
  filter := bobWithoutName
  query := .join .all [.compare .equal "uid".toList "bob".toList, .not (.present "cn".toList)]
  isFilter := isFilter_bobWithoutName
  attrs := searchParts[7]
  names := [shortElement 0x04 rfl [0x6d, 0x61, 0x69, 0x6c] (by decide)]
  names_primitive := by decide
  attrs_val := rfl
  extra := []
  op_val := rfl

theorem search_read_back_bob :
    (ldap (searchForBob.bytes ++ [])).exec { stack := [], cols := {} } =
        .ok (.ok (), { stack := [.ldap], cols := searchForBob.columns {} }) ∧
      (searchForBob.columns {}).ldapFilter = some "(&(uid=bob)(!(cn=*)))".toList := by
  have hfits : searchForBob.query.Fits 6 := by
    refine .join (by decide) fun f hf => ?_
    obtain rfl | rfl : f = _ ∨ f = _ := by simpa using hf
    · exact .compare _ _ _
    · exact .not (.present _)
  have htexts : searchForBob.TextFits :=
    { base := fun s hs => by cases hs
      filter := by decide
      names := by decide }
  exact ⟨search_read_back.1 searchForBob [] { stack := [], cols := {} } htexts,
    (search_read_back.2.1 searchForBob {} hfits).trans (by decide)⟩

end AppDirectory

end PcapRacer
