/-
**Fragment metadata and the header it comes from.**

After an IP header is read the mark and the identification of its fragment are taken from the
record, and so they are those of an earlier header when this one has none of its own: an IPv6 header
without a Fragment header, behind the first fragment of an outer datagram, is recorded as a
fragment.  And what is recorded last stands, so an inner fragment takes the place of the outermost
one.

The IP headers of a frame decide what stands in the end: the metadata of the innermost fragment,
unless the header right behind it says nothing about fragmentation.

Main definitions:

* `IpAt.noted`, `lastNoted` — what a header has recorded, and what stands in the end;
* `FragCoherent` — the metadata are those of one header, and of the outermost one if it is a
  fragment;
* `StaleBehind` — the header right behind the innermost fragment says nothing about fragmentation;
* `FragRegular` — it is not so, and behind an outermost fragment there is no other.

Main results:

* `follow_frag` — what a walk records;
* `lastNoted_cases` — what stands in the end;
* `dissectFrame_frag_coherent_iff` — **the metadata of a frame are coherent exactly when its headers
  are regular**.
-/

import PcapRacer.TransportPorts

set_option relaxedAutoImplicit false
set_option autoImplicit false

namespace PcapRacer

/-! ### What a header has recorded -/

namespace IpAt

/-- The mark on record once the header is read. -/
def markAfter (h : IpAt) (mark : Option Bool × Option UInt32) : Option Bool × Option UInt32 :=
  if h.marks then h.read.2.mark else mark

/-- What is recorded about the header when `mark` is on record before it. -/
def noted (h : IpAt) (mark : Option Bool × Option UInt32) : Option FragMeta :=
  match h.read.1 with
  | .error _ => none
  | .ok (d, c) =>
      let mark := h.markAfter mark
      Network.fragMeta d { net := { ipFlagMf := mark.1, ipId := mark.2 } } c

end IpAt

/-- What stands in the end when the headers are read one after the other. -/
def lastNoted (mark : Option Bool × Option UInt32) (frag : Option FragMeta) :
    List IpAt → Option FragMeta
  | [] => frag
  | h :: rest => lastNoted (h.markAfter mark) ((h.noted mark).or frag) rest

/-! ### What a walk records -/

theorem Leaves.mark {s t : Hdr} (h : Leaves s t) : t.mark = s.mark := by
  obtain ⟨hs, -⟩ | ⟨hs, -⟩ := h
  · exact hs.mark
  · refine hs.mark.trans ?_
    unfold Tunnel.promote
    split <;> rfl

/-- Of the record the metadata look at the mark only. -/
theorem fragMeta_congr {d : Datagram} {s t : Hdr} {c : Cur} (h : s.mark = t.mark) :
    Network.fragMeta d s c = Network.fragMeta d t c := by
  have hmf : s.net.ipFlagMf = t.net.ipFlagMf := congrArg Prod.fst h
  have hid : s.net.ipId = t.net.ipId := congrArg Prod.snd h
  rw [Network.fragMeta, hmf, hid]
  rfl

theorem afterIp_mark (d : Datagram) (c : Cur) (s : Hdr) (frag : Option FragMeta) :
    (afterIp d c s frag).hdr.mark = s.mark := by
  unfold afterIp
  dsimp only
  split
  · rfl
  · obtain ⟨t, ht, hleaves⟩ := Network.dispatchIpProto_leaves d.proto d.src d.dst c s
    exact hleaves.mark.trans ht.mark

theorem afterIp_frag (d : Datagram) (c : Cur) (s : Hdr) (frag : Option FragMeta) :
    (afterIp d c s frag).frag = (Network.fragMeta d s c).or frag := by
  unfold afterIp
  dsimp only
  split <;> rfl

/-- What the hop to an IP header records, and the mark it leaves. -/
theorem ip_noted (h : IpAt) (s : Hdr) (frag : Option FragMeta) :
    (ip h.header h.cur s frag).frag = (h.noted s.mark).or frag ∧
      (ip h.header h.cur s frag).hdr.mark = h.markAfter s.mark := by
  have hmark := h.run_mark s
  have hresult := h.blind.result h.cur s {}
  have hread : h.header.run h.cur {} = h.read := rfl
  rw [hread] at hresult
  unfold ip IpAt.noted
  rcases hx : h.header.run h.cur s with ⟨e | ⟨d, c⟩, s'⟩
  · rw [hx] at hmark hresult
    rw [← hresult]
    exact ⟨rfl, hmark⟩
  · rw [hx] at hmark hresult
    rw [← hresult]
    refine ⟨?_, (afterIp_mark d c s' frag).trans hmark⟩
    rw [afterIp_frag]
    exact congrArg (Option.or · frag) (fragMeta_congr hmark)

theorem Hop.ipAt_eq_some {hp : Hop} {c : Cur} {h : IpAt} (hh : hp.ipAt c = some h) (s : Hdr)
    (frag : Option FragMeta) : h.cur = c ∧ hop hp c s frag = ip h.header h.cur s frag := by
  cases hp with
  | ipv4 => cases hh; exact ⟨rfl, rfl⟩
  | ipv6 => cases hh; exact ⟨rfl, rfl⟩
  | ethernet => cases hh
  | llc => cases hh
  | vlan => cases hh
  | mpls => cases hh
  | pppoe => cases hh

/-- The other hops record nothing, and leave the sides alone. -/
theorem Hop.ipAt_eq_none {hp : Hop} {c : Cur} (hh : hp.ipAt c = none) (s : Hdr)
    (frag : Option FragMeta) : (hop hp c s frag).frag = frag ∧ Leaves s (hop hp c s frag).hdr := by
  cases hp with
  | ipv4 => cases hh
  | ipv6 => cases hh
  | ethernet => exact ⟨rfl, Link.ethernet_aloof.leaves c s⟩
  | llc => exact ⟨rfl, Link.llc_aloof.leaves c s⟩
  | vlan => exact ⟨rfl, Link.vlan_aloof.leaves c s⟩
  | mpls => exact ⟨rfl, Link.mpls_aloof.leaves c s⟩
  | pppoe => exact ⟨rfl, Link.pppoe_aloof.leaves c s⟩

/-- **What a walk records** is what stands when its IP headers are read one after the other. -/
theorem follow_frag {n : ℕ} {o : Onward} {c : Cur} {s : Hdr} {frag : Option FragMeta} :
    (follow n o c s frag).frag = lastNoted s.mark frag (ipVisits n o c s frag) := by
  induction n generalizing o c s frag with
  | zero => cases o <;> rfl
  | succ n ih =>
      cases o with
      | done => rfl
      | payload p => rfl
      | hop hp =>
          rw [ipVisits_hop]
          cases hh : hp.ipAt c with
          | none =>
              obtain ⟨hfrag, hleaves⟩ := Hop.ipAt_eq_none hh s frag
              cases hx : (hop hp c s frag).next with
              | error e =>
                  simp only [follow, hx]
                  exact hfrag
              | ok r =>
                  simp only [follow, hx]
                  rw [ih, hleaves.mark, hfrag]
                  rfl
          | some h =>
              obtain ⟨hfrag, hmark⟩ := ip_noted h s frag
              rw [← (Hop.ipAt_eq_some hh s frag).2] at hfrag hmark
              cases hx : (hop hp c s frag).next with
              | error e =>
                  simp only [follow, hx]
                  exact hfrag
              | ok r =>
                  simp only [follow, hx]
                  rw [ih, hmark, hfrag]
                  rfl

/-! ### The headers of a walk are nested -/

/-- Every header but the last hands over to the payload of a whole datagram or of a first fragment,
and there the next ones stand. -/
def Nested : List IpAt → Prop
  | [] => True
  | h :: rest =>
      (∀ x ∈ rest, ∃ d c, h.read.1 = .ok (d, c) ∧ d.fragOffset = 0 ∧
        x.cur.remaining ≤ c.remaining) ∧ Nested rest

/-- What an IP header hands over to. -/
theorem ip_next {h : IpAt} {s : Hdr} {frag : Option FragMeta} {o : Onward} {c : Cur}
    (hx : (ip h.header h.cur s frag).next = .ok (o, c)) :
    ∃ d c', h.read.1 = .ok (d, c') ∧ c.remaining ≤ c'.remaining ∧
      (d.fragOffset ≠ 0 → o = .done) := by
  have hresult : (h.header.run h.cur s).1 = h.read.1 := h.blind.result h.cur s {}
  unfold ip at hx
  rcases hr : h.header.run h.cur s with ⟨e | ⟨d, c'⟩, s'⟩
  · rw [hr] at hx
    cases hx
  · rw [hr] at hx hresult
    refine ⟨d, c', hresult.symm, (afterIp_within hx).remaining_le, fun hoff => ?_⟩
    unfold afterIp at hx
    dsimp only at hx
    rw [if_pos hoff] at hx
    cases hx
    rfl

theorem ipVisits_done (n : ℕ) (c : Cur) (s : Hdr) (frag : Option FragMeta) :
    ipVisits n .done c s frag = [] := by
  cases n <;> rfl

/-- **The IP headers of a walk are nested.** -/
theorem ipVisits_nested {n : ℕ} {o : Onward} {c : Cur} {s : Hdr} {frag : Option FragMeta} :
    Nested (ipVisits n o c s frag) := by
  induction n generalizing o c s frag with
  | zero => cases o <;> exact trivial
  | succ n ih =>
      cases o with
      | done => exact trivial
      | payload p => exact trivial
      | hop hp =>
          rw [ipVisits_hop]
          cases hh : hp.ipAt c with
          | none =>
              cases hx : (hop hp c s frag).next with
              | error e => exact trivial
              | ok r => exact ih
          | some h =>
              cases hx : (hop hp c s frag).next with
              | error e => exact ⟨fun x hx => absurd hx List.not_mem_nil, trivial⟩
              | ok r =>
                  refine ⟨fun x hmem => ?_, ih⟩
                  have hip := hx
                  rw [(Hop.ipAt_eq_some hh s frag).2] at hip
                  obtain ⟨d, c', hread, hle, hdone⟩ := ip_next hip
                  refine ⟨d, c', hread, ?_, (ipVisits_remaining_le x hmem).trans hle⟩
                  by_contra hoff
                  dsimp only at hmem
                  rw [hdone hoff, ipVisits_done] at hmem
                  exact absurd hmem List.not_mem_nil

/-- The payload of an inner header is shorter. -/
theorem IpAt.remaining_lt {h : IpAt} {d : Datagram} {c : Cur} (hread : h.read.1 = .ok (d, c)) :
    c.remaining < h.cur.remaining := by
  have hadv : h.header.Advances := by
    unfold IpAt.header
    split
    · exact Network.ipv6_advances
    · exact Network.ipv4_advances
  have hstart : h.cur.start < c.start := hadv hread
  have hstop : c.stop ≤ h.cur.stop := (h.header.within hread).stop_le
  have hsum := h.cur.start_add_remaining
  have hsum' := c.start_add_remaining
  omega

/-! ### What stands in the end -/

namespace IpAt

/-- The header announces a fragment. -/
def IsFragment (h : IpAt) : Prop := h.fragment.isSome = true

/-- The header is read to its end and says nothing about fragmentation: it is an IPv6 header without
a Fragment header. -/
def Unmarked (h : IpAt) : Prop := h.marks = false ∧ ∃ r, h.read.1 = .ok r

variable {h : IpAt} {mark : Option Bool × Option UInt32}

theorem isFragment_iff : h.IsFragment ↔ ∃ m, h.fragment = some m := Option.isSome_iff_exists

theorem not_isFragment_iff : ¬ h.IsFragment ↔ h.fragment = none := by
  rw [IsFragment, Bool.not_eq_true, Option.isSome_eq_false_iff, Option.isNone_iff_eq_none]

/-- Of a header that says whether it is a fragment, that is recorded. -/
theorem noted_of_marks (hm : h.marks = true) : h.noted mark = h.fragment := by
  unfold noted fragment markAfter
  rw [if_pos hm]
  cases h.read.1 with
  | error e => rfl
  | ok r => exact fragMeta_congr rfl

theorem markAfter_of_marks (hm : h.marks = true) : h.markAfter mark = h.read.2.mark := if_pos hm

/-- Of any other header it is recorded what the mark on record says. -/
theorem noted_of_unmarked (hm : h.marks = false) {d : Datagram} {c : Cur}
    (hread : h.read.1 = .ok (d, c)) :
    h.noted mark = if mark.1 = some true then
      some { key := { src := d.src, dst := d.dst, id := mark.2.getD 0, proto := d.proto },
             offset := 0, moreFragments := true, payload := c.rest } else none := by
  have hoff := fragOffset_of_not_marks hread hm
  unfold noted markAfter
  rw [hread, hm, if_neg Bool.false_ne_true]
  dsimp only
  unfold Network.fragMeta
  dsimp only
  rw [hoff]
  obtain ⟨mf, id⟩ := mark
  cases mf with
  | none => simp
  | some b => cases b <;> simp

theorem markAfter_of_not_marks (hm : h.marks = false) : h.markAfter mark = mark := by
  rw [markAfter, hm, if_neg Bool.false_ne_true]

theorem fragment_of_not_marks (hm : h.marks = false) : h.fragment = none := by
  unfold fragment
  cases hread : h.read.1 with
  | error e => rfl
  | ok r =>
      have hmf : h.read.2.net.ipFlagMf = none := by
        rw [marks] at hm
        exact Option.isSome_eq_false_iff.mp hm |> Option.isNone_iff_eq_none.mp
      have hoff : r.1.fragOffset = 0 := fragOffset_of_not_marks hread hm
      unfold Network.fragMeta
      dsimp only
      rw [hmf, hoff]
      simp

/-- The first fragment of a datagram has the mark set. -/
theorem mark_of_fragment {m : FragMeta} (hf : h.fragment = some m) {d : Datagram} {c : Cur}
    (hread : h.read.1 = .ok (d, c)) (hoff : d.fragOffset = 0) : h.read.2.mark.1 = some true := by
  rw [fragment, hread] at hf
  dsimp only at hf
  unfold Network.fragMeta at hf
  dsimp only at hf
  rw [hoff] at hf
  change h.read.2.net.ipFlagMf = some true
  cases hmf : h.read.2.net.ipFlagMf with
  | none => simp [hmf] at hf
  | some b =>
      cases b with
      | false => simp [hmf] at hf
      | true => rfl

theorem payload_of_fragment {m : FragMeta} (hf : h.fragment = some m) :
    ∃ d c, h.read.1 = .ok (d, c) ∧ m.payload = c.rest := by
  unfold fragment at hf
  cases hread : h.read.1 with
  | error e =>
      rw [hread] at hf
      cases hf
  | ok r =>
      rw [hread] at hf
      refine ⟨r.1, r.2, rfl, ?_⟩
      unfold Network.fragMeta at hf
      dsimp only at hf
      split at hf
      · cases hf
        rfl
      · cases hf

/-- A header that is no fragment does not have the mark set. -/
theorem mark_of_not_fragment (hf : h.fragment = none) {r : Datagram × Cur}
    (hread : h.read.1 = .ok r) : h.read.2.mark.1 ≠ some true := by
  intro hmark
  have hmf : h.read.2.net.ipFlagMf = some true := hmark
  rw [fragment, hread] at hf
  unfold Network.fragMeta at hf
  simp [hmf] at hf

end IpAt

/-- The first of these headers says nothing about fragmentation. -/
def HeadUnmarked : List IpAt → Prop
  | [] => False
  | h :: _ => h.Unmarked

/-- The header right behind the innermost fragment says nothing about fragmentation. -/
def StaleBehind : List IpAt → Prop
  | [] => False
  | h :: rest =>
      (h.IsFragment ∧ (∀ x ∈ rest, ¬ x.IsFragment) ∧ HeadUnmarked rest) ∨ StaleBehind rest

/-- The metadata of the innermost fragment. -/
def innermost (hs : List IpAt) : Option FragMeta := lastOf IpAt.fragment hs

/-- What stands has the payload of a header that says nothing about fragmentation. -/
def StandsStale (hs : List IpAt) (frag : Option FragMeta) : Prop :=
  ∃ x ∈ hs, x.marks = false ∧ ∃ d c m, x.read.1 = .ok (d, c) ∧ frag = some m ∧ m.payload = c.rest

section Lists

variable {hs : List IpAt} {mark : Option Bool × Option UInt32} {frag : Option FragMeta}

theorem innermost_eq_none (h : ∀ x ∈ hs, ¬ x.IsFragment) : innermost hs = none :=
  lastOf_eq_none_iff.mpr fun x hx => IpAt.not_isFragment_iff.mp (h x hx)

theorem innermost_ne_none (h : ∃ x ∈ hs, x.IsFragment) : innermost hs ≠ none := by
  obtain ⟨x, hx, hfx⟩ := h
  exact fun hnone => IpAt.not_isFragment_iff.mpr (lastOf_eq_none_iff.mp hnone x hx) hfx

theorem innermost_cons (h : IpAt) (rest : List IpAt) :
    innermost (h :: rest) = (innermost rest).or h.fragment := rfl

theorem not_staleBehind (h : ∀ x ∈ hs, ¬ x.IsFragment) : ¬ StaleBehind hs := by
  induction hs with
  | nil => exact id
  | cons x hs ih =>
      rintro (⟨hx, -, -⟩ | hs)
      · exact h x List.mem_cons_self hx
      · exact ih (fun y hy => h y (List.mem_cons_of_mem x hy)) hs

/-- A header that is not read to its end is the last one. -/
theorem Nested.eq_nil_of_error {h : IpAt} {rest : List IpAt} (hn : Nested (h :: rest))
    {e : DissectError} (hread : h.read.1 = .error e) : rest = [] := by
  cases rest with
  | nil => rfl
  | cons x rest =>
      obtain ⟨d, c, hok, -⟩ := hn.1 x List.mem_cons_self
      rw [hread] at hok
      cases hok

/-- Without a fragment and without the mark nothing is recorded. -/
theorem lastNoted_of_none (hn : Nested hs) (hnone : ∀ x ∈ hs, ¬ x.IsFragment)
    (hmark : mark.1 ≠ some true) : lastNoted mark frag hs = frag := by
  induction hs generalizing mark frag with
  | nil => rfl
  | cons h rest ih =>
      have hrest : ∀ x ∈ rest, ¬ x.IsFragment := fun x hx => hnone x (List.mem_cons_of_mem h hx)
      have hfrag : h.fragment = none := IpAt.not_isFragment_iff.mp (hnone h List.mem_cons_self)
      have hnoted : h.noted mark = none := by
        cases hm : h.marks with
        | true => rw [IpAt.noted_of_marks hm, hfrag]
        | false =>
            cases hread : h.read.1 with
            | error e => rw [IpAt.noted, hread]
            | ok r => rw [IpAt.noted_of_unmarked hm hread, if_neg hmark]
      rw [lastNoted, hnoted, Option.none_or]
      cases hread : h.read.1 with
      | error e =>
          rw [hn.eq_nil_of_error hread]
          rfl
      | ok r =>
          refine ih hn.2 hrest ?_
          cases hm : h.marks with
          | true =>
              rw [IpAt.markAfter_of_marks hm]
              exact IpAt.mark_of_not_fragment hfrag hread
          | false =>
              rw [IpAt.markAfter_of_not_marks hm]
              exact hmark

/-- With the mark set, and without a fragment: what the first header says clears it, or that header
is recorded as a fragment. -/
theorem lastNoted_of_mark (frag : Option FragMeta) (hn : Nested hs) (hnone : ∀ x ∈ hs, ¬ x.IsFragment)
    (hmark : mark.1 = some true) :
    (¬ HeadUnmarked hs ∧ lastNoted mark frag hs = frag) ∨
      (HeadUnmarked hs ∧ StandsStale hs (lastNoted mark frag hs)) := by
  induction hs generalizing frag with
  | nil => exact .inl ⟨id, rfl⟩
  | cons h rest ih =>
      have hrest : ∀ x ∈ rest, ¬ x.IsFragment := fun x hx => hnone x (List.mem_cons_of_mem h hx)
      have hfrag : h.fragment = none := IpAt.not_isFragment_iff.mp (hnone h List.mem_cons_self)
      rw [lastNoted]
      cases hm : h.marks with
      | true =>
          refine .inl ⟨fun hu => ?_, ?_⟩
          · rw [hu.1] at hm
            cases hm
          rw [IpAt.noted_of_marks hm, hfrag, Option.none_or]
          cases hread : h.read.1 with
          | error e =>
              rw [hn.eq_nil_of_error hread]
              rfl
          | ok r =>
              refine lastNoted_of_none hn.2 hrest ?_
              rw [IpAt.markAfter_of_marks hm]
              exact IpAt.mark_of_not_fragment hfrag hread
      | false =>
          rw [IpAt.markAfter_of_not_marks hm]
          cases hread : h.read.1 with
          | error e =>
              refine .inl ⟨fun hu => ?_, ?_⟩
              · obtain ⟨r, hr⟩ := hu.2
                rw [hread] at hr
                cases hr
              · rw [hn.eq_nil_of_error hread, IpAt.noted, hread]
                rfl
          | ok r =>
              refine .inr ⟨⟨hm, r, hread⟩, ?_⟩
              rw [IpAt.noted_of_unmarked hm hread, if_pos hmark, Option.some_or]
              obtain ⟨-, heq⟩ | ⟨-, x, hx, hstale⟩ := ih (some _) hn.2 hrest
              · rw [heq]
                exact ⟨h, List.mem_cons_self, hm, r.1, r.2, _, hread, rfl, rfl⟩
              · exact ⟨x, List.mem_cons_of_mem h hx, hstale⟩

/-- **What stands in the end**: the metadata of the innermost fragment, or something stale. -/
theorem lastNoted_cases (mark : Option Bool × Option UInt32) (frag : Option FragMeta)
    (hn : Nested hs) (hsome : ∃ x ∈ hs, x.IsFragment) :
    (¬ StaleBehind hs ∧ lastNoted mark frag hs = innermost hs) ∨
      (StaleBehind hs ∧ StandsStale hs (lastNoted mark frag hs)) := by
  induction hs generalizing mark frag with
  | nil =>
      obtain ⟨x, hx, -⟩ := hsome
      exact absurd hx List.not_mem_nil
  | cons h rest ih =>
      rw [lastNoted, innermost_cons]
      by_cases hrest : ∃ x ∈ rest, x.IsFragment
      · have hbehind : StaleBehind (h :: rest) ↔ StaleBehind rest := by
          refine ⟨fun hs => hs.resolve_left fun hh => ?_, .inr⟩
          obtain ⟨x, hx, hfx⟩ := hrest
          exact hh.2.1 x hx hfx
        rw [hbehind]
        obtain ⟨hs, heq⟩ | ⟨hs, x, hx, hstale⟩ := ih _ _ hn.2 hrest
        · refine .inl ⟨hs, ?_⟩
          rw [heq]
          obtain ⟨m, hm⟩ := Option.ne_none_iff_exists'.mp (innermost_ne_none hrest)
          rw [hm]
          rfl
        · exact .inr ⟨hs, x, List.mem_cons_of_mem h hx, hstale⟩
      · -- the first header is the only fragment
        have hnone : ∀ x ∈ rest, ¬ x.IsFragment := fun x hx hfx => hrest ⟨x, hx, hfx⟩
        have hh : h.IsFragment := by
          obtain ⟨x, hx, hfx⟩ := hsome
          obtain rfl | hx := List.mem_cons.mp hx
          · exact hfx
          · exact absurd hfx (hnone x hx)
        obtain ⟨m, hm⟩ := IpAt.isFragment_iff.mp hh
        have hmarks : h.marks = true := by
          by_contra hmarks
          rw [Bool.not_eq_true] at hmarks
          rw [IpAt.fragment_of_not_marks hmarks] at hm
          cases hm
        have hbehind : StaleBehind (h :: rest) ↔ HeadUnmarked rest := by
          refine ⟨fun hs => ?_, fun hu => .inl ⟨hh, hnone, hu⟩⟩
          obtain ⟨-, -, hu⟩ | hs := hs
          · exact hu
          · exact absurd hs (not_staleBehind hnone)
        rw [hbehind, innermost_eq_none hnone, IpAt.noted_of_marks hmarks,
          IpAt.markAfter_of_marks hmarks, hm, Option.none_or, Option.some_or]
        cases rest with
        | nil => exact .inl ⟨id, rfl⟩
        | cons x rest =>
            obtain ⟨d, c, hread, hoff, -⟩ := hn.1 x List.mem_cons_self
            obtain hleft | ⟨hu, y, hy, hstale⟩ := lastNoted_of_mark (some m) hn.2 hnone
              (IpAt.mark_of_fragment hm hread hoff)
            · exact .inl hleft
            · exact .inr ⟨hu, y, List.mem_cons_of_mem h hy, hstale⟩

/-- Two headers of a walk with payloads of one length are one header. -/
theorem Nested.eq_of_remaining (hn : Nested hs) {x y : IpAt} (hx : x ∈ hs) (hy : y ∈ hs)
    {d d' : Datagram} {c c' : Cur} (hxr : x.read.1 = .ok (d, c)) (hyr : y.read.1 = .ok (d', c'))
    (heq : c.remaining = c'.remaining) : x = y := by
  induction hs with
  | nil => exact absurd hx List.not_mem_nil
  | cons h rest ih =>
      -- the payload of a later header is shorter than that of the first
      have hshort : ∀ z ∈ rest, ∀ d₁ c₁ d₂ c₂, h.read.1 = .ok (d₁, c₁) → z.read.1 = .ok (d₂, c₂) →
          c₂.remaining < c₁.remaining := by
        intro z hz d₁ c₁ d₂ c₂ hh hzr
        obtain ⟨d₀, c₀, hok, -, hle⟩ := hn.1 z hz
        rw [hh] at hok
        cases hok
        exact lt_of_lt_of_le (IpAt.remaining_lt hzr) hle
      obtain rfl | hx' := List.mem_cons.mp hx <;> obtain rfl | hy' := List.mem_cons.mp hy
      · rfl
      · have := hshort y hy' d c d' c' hxr hyr
        omega
      · have := hshort x hx' d' c' d c hyr hxr
        omega
      · exact ih hn.2 hx' hy'

/-- The metadata of one header are not those of another. -/
theorem Nested.fragment_inj (hn : Nested hs) {x y : IpAt} (hx : x ∈ hs) (hy : y ∈ hs)
    {m : FragMeta} (hxm : x.fragment = some m) {d : Datagram} {c : Cur}
    (hyr : y.read.1 = .ok (d, c)) (hym : m.payload = c.rest) : x = y := by
  obtain ⟨d', c', hxr, hpayload⟩ := IpAt.payload_of_fragment hxm
  refine hn.eq_of_remaining hx hy hxr hyr ?_
  rw [← Cur.length_rest, ← Cur.length_rest, ← hpayload, ← hym]

end Lists

/-! ### Coherence -/

/-- The metadata are those of one of the headers, which announces a fragment itself; and if the
outermost header does, they are those of the outermost header. -/
def FragCoherent (hs : List IpAt) (frag : Option FragMeta) : Prop :=
  (∀ m, frag = some m → ∃ h ∈ hs, h.fragment = some m) ∧
    ∀ h rest, hs = h :: rest → ∀ m, h.fragment = some m → frag = some m

/-- The header right behind the innermost fragment says itself whether it is one; and when the
outermost header is a fragment, there is no other. -/
def FragRegular (hs : List IpAt) : Prop :=
  ¬ StaleBehind hs ∧
    ∀ h rest, hs = h :: rest → h.IsFragment → ∀ x ∈ rest, ¬ x.IsFragment

theorem coherent_iff_regular {hs : List IpAt} (hn : Nested hs) :
    FragCoherent hs (lastNoted (none, none) none hs) ↔ FragRegular hs := by
  by_cases hsome : ∃ x ∈ hs, x.IsFragment
  · obtain ⟨hstale, heq⟩ | ⟨hstale, x, hx, hm, d, c, m, hread, heq, hpayload⟩ :=
      lastNoted_cases (none, none) none hn hsome
    · rw [heq]
      constructor
      · refine fun hcoh => ⟨hstale, fun h rest hhs hh x hx hfx => ?_⟩
        subst hhs
        obtain ⟨m, hm⟩ := IpAt.isFragment_iff.mp hh
        have hinner : innermost (h :: rest) = some m := hcoh.2 h rest rfl m hm
        obtain ⟨m', hm'⟩ := Option.ne_none_iff_exists'.mp (innermost_ne_none ⟨x, hx, hfx⟩)
        rw [innermost_cons, hm', Option.some_or] at hinner
        obtain ⟨k, hk, hkm⟩ := mem_of_lastOf hm'
        obtain ⟨d, c, hread, hpayload⟩ := IpAt.payload_of_fragment hm
        rw [hinner] at hkm
        -- the innermost fragment would be the outermost header
        have hkh : k = h := hn.fragment_inj (List.mem_cons_of_mem h hk) List.mem_cons_self hkm hread
          hpayload
        obtain ⟨d', c', hread', -, hle⟩ := hn.1 k hk
        have hlt : c'.remaining < h.cur.remaining := IpAt.remaining_lt hread'
        rw [hkh] at hle
        omega
      · rintro ⟨-, houter⟩
        refine ⟨fun m hm => mem_of_lastOf hm, fun h rest hhs m hm => ?_⟩
        subst hhs
        rw [innermost_cons,
          innermost_eq_none (houter h rest rfl (IpAt.isFragment_iff.mpr ⟨m, hm⟩)), hm]
        rfl
    · refine ⟨fun hcoh => ?_, fun hreg => absurd hstale hreg.1⟩
      obtain ⟨k, hk, hkm⟩ := hcoh.1 m heq
      obtain rfl := hn.fragment_inj hk hx hkm hread hpayload
      rw [IpAt.fragment_of_not_marks hm] at hkm
      cases hkm
  · have hnone : ∀ x ∈ hs, ¬ x.IsFragment := fun x hx hfx => hsome ⟨x, hx, hfx⟩
    have hlast : lastNoted (none, none) none hs = none :=
      lastNoted_of_none hn hnone nofun
    rw [hlast]
    refine ⟨fun _ => ⟨not_staleBehind hnone, fun h rest hhs hh => ?_⟩, fun _ => ⟨nofun, ?_⟩⟩
    · exact absurd hh (hnone h (hhs ▸ List.mem_cons_self))
    · intro h rest hhs m hm
      exact absurd (IpAt.isFragment_iff.mpr ⟨m, hm⟩) (hnone h (hhs ▸ List.mem_cons_self))

/-! ### The frame -/

theorem frameJourney_frag (o : Owned) :
    (frameJourney o).frag = lastNoted (none, none) none (ipHeaders o) := by
  have hmark := ((Link.dissectLink_aloof o.linktype).leaves (Cur.new o.data)
    { ifaceId := some o.ifaceId }).mark
  unfold frameJourney journey ipHeaders
  rcases hx : (Link.dissectLink o.linktype).run (Cur.new o.data) { ifaceId := some o.ifaceId } with
    ⟨e | r, s⟩
  · rfl
  · rw [hx] at hmark
    dsimp only
    rw [follow_frag, hmark]
    rfl

theorem ipHeaders_nested (o : Owned) : Nested (ipHeaders o) := by
  unfold ipHeaders
  rcases (Link.dissectLink o.linktype).run (Cur.new o.data) { ifaceId := some o.ifaceId } with
    ⟨e | r, s⟩
  · exact trivial
  · exact ipVisits_nested

theorem dissectFrame_frag [Hashes] {o : Owned} {deferTcpApp : Bool} {r : Except DissectError Unit}
    {ctx : Ctx} (h : dissectFrame o.data o.linktype (firstCtx o deferTcpApp) = .ok (r, ctx)) :
    ctx.frag = lastNoted (none, none) none (ipHeaders o) := by
  rw [dissectFrame_eq] at h
  rw [← frameJourney_frag]
  exact (Ctx.arrive_same h).frag

/-- **The fragment metadata of a frame are coherent exactly when its IP headers are regular**: the
header right behind the innermost fragment says itself whether it is one, and behind an outermost
fragment there is no other. -/
theorem dissectFrame_frag_coherent_iff [Hashes] {o : Owned} {deferTcpApp : Bool}
    {r : Except DissectError Unit} {ctx : Ctx}
    (h : dissectFrame o.data o.linktype (firstCtx o deferTcpApp) = .ok (r, ctx)) :
    FragCoherent (ipHeaders o) ctx.frag ↔ FragRegular (ipHeaders o) := by
  rw [dissectFrame_frag h]
  exact coherent_iff_regular (ipHeaders_nested o)

/-! ### An IPv6 header behind a first fragment -/

/-- The first fragment of a datagram from 10.0.0.1 to 10.0.0.2 that carries an IPv6 datagram, itself
no fragment: a UDP header from port 5000 to port 5001. -/
def tunnelFragment : Owned :=
  { capLen := 68, origLen := 68, linktype := 101, data_le := by decide
    data := [0x45, 0, 0, 0, 0, 7, 0x20, 0, 64, 41, 0, 0, 10, 0, 0, 1, 10, 0, 0, 2] ++
      [0x60, 0, 0, 0, 0, 8, 17, 64] ++ List.replicate 15 0 ++ [1] ++ List.replicate 15 0 ++ [2] ++
      [0x13, 0x88, 0x13, 0x89, 0, 8, 0, 0] }

theorem tunnelFragment_headers : ipHeaders tunnelFragment =
    [{ isV6 := false, cur := synCur tunnelFragment 0 (by decide) },
      { isV6 := true, cur := synCur tunnelFragment 20 (by decide) }] := rfl

/-- Its dissection runs to its end. -/
theorem dissectFrame_tunnelFragment [Hashes] : ∃ r ctx,
    dissectFrame tunnelFragment.data tunnelFragment.linktype (firstCtx tunnelFragment true) =
      .ok (r, ctx) := ⟨_, _, rfl⟩

/-- Its metadata are coherent exactly when its headers are regular. -/
theorem tunnelFragment_coherent_iff :
    (ipHeaders tunnelFragment).length = 2 ∧
      ∀ _ : Hashes, ∃ r ctx, dissectFrame tunnelFragment.data tunnelFragment.linktype
          (firstCtx tunnelFragment true) = .ok (r, ctx) ∧
        (FragCoherent (ipHeaders tunnelFragment) ctx.frag ↔
          FragRegular (ipHeaders tunnelFragment)) := by
  refine ⟨rfl, fun _ => ?_⟩
  obtain ⟨r, ctx, h⟩ := dissectFrame_tunnelFragment
  exact ⟨r, ctx, h, dissectFrame_frag_coherent_iff h⟩

/-- **The IPv6 header is recorded as a fragment**: it takes the mark and the identification of the
IPv4 header, and the metadata are those of neither. -/
theorem tunnelFragment_incoherent :
    (ipHeaders tunnelFragment).map IpAt.marks = [true, false] ∧
      ∀ _ : Hashes, ∃ r ctx, dissectFrame tunnelFragment.data tunnelFragment.linktype
          (firstCtx tunnelFragment true) = .ok (r, ctx) ∧
        ctx.frag = some { key := { src := .v6 1, dst := .v6 2, id := 7, proto := 17 }, offset := 0,
                          moreFragments := true, payload := [0x13, 0x88, 0x13, 0x89, 0, 8, 0, 0] } ∧
        ¬ FragCoherent (ipHeaders tunnelFragment) ctx.frag := by
  refine ⟨rfl, fun _ => ?_⟩
  obtain ⟨r, ctx, h⟩ := dissectFrame_tunnelFragment
  have hfrag := dissectFrame_frag h
  refine ⟨r, ctx, h, hfrag.trans rfl, ?_⟩
  rw [hfrag, coherent_iff_regular (ipHeaders_nested tunnelFragment), tunnelFragment_headers]
  refine fun hreg => hreg.1 (.inl ⟨rfl, fun x hx => ?_, rfl, _, rfl⟩)
  rw [List.mem_singleton.mp hx]
  exact Bool.false_ne_true

end PcapRacer
