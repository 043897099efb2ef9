/-
**The IP headers of a frame.**

A walk over the headers of a frame comes to one IP header after the other, each of them but the
first behind a tunnel.  What an IP header itself says is read from its bytes: whether its datagram
is fragmented, and from whom to whom it goes.  The record it is written to may say more than that,
because the headers before it have written there too.

So each header is read twice here: in the walk, on the record that the walk has got to, and by
itself, on an empty record.  It hands over to the same dissector both times, and what it writes
itself it writes both times.

Main definitions:

* `Header.Yields` — what holds where a dissector runs to its end;
* `Header.Blind` — dissectors that do the same whatever is on record;
* `IpAt`, `IpAt.read` — an IP header of a frame, and the header read by itself;
* `ipVisits`, `ipHeaders` — the IP headers that a walk comes to;
* `SameSides` — two states that say the same about whom the packet is from and to.

Main results:

* `Network.ipv4_blind`, `Network.ipv6_blind` — both IP headers are blind;
* `IpAt.run_mark`, `IpAt.run_addrs` — what an IP header leaves on record;
* `Header.Aloof.leaves` — the other dissectors leave it there, or move it to the outer columns.
-/

import PcapRacer.HeaderSteps
import PcapRacer.Nesting
import PcapRacer.PayloadRange

set_option relaxedAutoImplicit false
set_option autoImplicit false

namespace PcapRacer

namespace Header

variable {α β : Type}

/-! ### Where a dissector runs to its end -/

/-- Where the dissector runs to its end from a state with `pre`, it ends in one with `post`. -/
def Yields (pre : Hdr → Prop) (d : Header α) (post : α → Hdr → Prop) : Prop :=
  ∀ c s a c', pre s → (d.run c s).1 = .ok (a, c') → post a (d.run c s).2

section Yields

variable {pre : Hdr → Prop} {mid : α → Hdr → Prop} {post : β → Hdr → Prop}

theorem yields_pure {b : β} (h : ∀ s, pre s → post b s) : Yields pre (pure b) post := by
  intro c s a c' hs hx
  cases hx
  exact h s hs

theorem yields_fail (e : DissectError) : Yields pre (fail e) post := fun _ _ _ _ _ hx => by cases hx

theorem yields_fail_bind (e : DissectError) (f : α → Header β) :
    Yields pre ((fail e : Header α) >>= f) post := fun _ _ _ _ _ hx => by cases hx

theorem yields_ite {p : Prop} [Decidable p] {d d' : Header β} (hd : Yields pre d post)
    (hd' : Yields pre d' post) : Yields pre (if p then d else d') post := by
  split
  · exact hd
  · exact hd'

theorem Yields.weaken {d : Header β} (h : Yields pre d post) {pre' : Hdr → Prop}
    (hpre : ∀ s, pre' s → pre s) : Yields pre' d post :=
  fun c s b c' hs hx => h c s b c' (hpre s hs) hx

theorem yields_bind {d : Header α} {f : α → Header β} (hd : Yields pre d mid)
    (hf : ∀ a, Yields (mid a) (f a) post) : Yields pre (d >>= f) post := by
  intro c s b c' hs hx
  rw [run_bind] at hx ⊢
  rcases hr : d.run c s with ⟨e | ⟨a, c₁⟩, s₁⟩
  · rw [hr] at hx
    cases hx
  · rw [hr] at hx
    have hmid : mid a (d.run c s).2 := hd c s a c₁ hs (by rw [hr])
    rw [hr] at hmid
    exact hf a c₁ s₁ b c' hmid hx

/-- A dissector that writes nothing comes first. -/
theorem Silent.yields_bind {d : Header α} {f : α → Header β} (hd : Silent d)
    (hf : ∀ a, Yields pre (f a) post) : Yields pre (d >>= f) post := by
  have hmid : Yields pre d fun _ => pre := by
    intro c s a c' hs hx
    rw [hd c s]
    exact hs
  exact Header.yields_bind hmid hf

/-- A write comes first. -/
theorem yields_set_bind (next : Hdr → Prop) {w : Hdr → Hdr} {f : Unit → Header β}
    (hw : ∀ s, pre s → next (w s)) (hf : Yields next (f ()) post) :
    Yields pre (set w >>= f) post := fun c s b c' hs hx => hf c (w s) b c' (hw s hs) hx

/-- A write that keeps `pre` comes first. -/
theorem yields_keep_bind {w : Hdr → Hdr} {f : Unit → Header β} (hw : ∀ s, pre s → pre (w s))
    (hf : Yields pre (f ()) post) : Yields pre (set w >>= f) post :=
  yields_set_bind pre hw hf

end Yields

end Header

/-! ### What is on record -/

namespace Hdr

/-- What is on record about fragmentation. -/
def mark (s : Hdr) : Option Bool × Option UInt32 := (s.net.ipFlagMf, s.net.ipId)

/-- The addresses on record. -/
def addrs (s : Hdr) : Option Text × Option Text := (s.net.ipSrc, s.net.ipDst)

/-- The ports on record. -/
def ports (s : Hdr) : Option UInt16 × Option UInt16 := (s.transport.srcPort, s.transport.dstPort)

end Hdr

/-- The function writes both parts of the view, whatever was there before, or neither of them. -/
def Stamps {α β : Type} (view : Hdr → Option α × Option β) (w : Hdr → Hdr) : Prop :=
  (∀ s, view (w s) = view s) ∨ ∃ a b, ∀ s, view (w s) = (some a, some b)

theorem Stamps.comp {α β : Type} {view : Hdr → Option α × Option β} {w w' : Hdr → Hdr}
    (hw' : Stamps view w') (hw : Stamps view w) : Stamps view fun s => w' (w s) := by
  obtain hkeep' | ⟨a, b, hset'⟩ := hw'
  · obtain hkeep | ⟨a, b, hset⟩ := hw
    · exact .inl fun s => (hkeep' _).trans (hkeep s)
    · exact .inr ⟨a, b, fun s => (hkeep' _).trans (hset s)⟩
  · exact .inr ⟨a, b, fun s => hset' _⟩

namespace Header

variable {α β : Type}

/-- The dissector does the same whatever is on record.  It may write the mark and the addresses, and
nothing else that says whom the packet is from and to. -/
structure Blind (d : Header α) : Prop where
  result : ∀ c s t, (d.run c s).1 = (d.run c t).1
  mark : ∀ c, Stamps Hdr.mark fun s => (d.run c s).2
  addrs : ∀ c, Stamps Hdr.addrs fun s => (d.run c s).2
  ports : ∀ c s, (d.run c s).2.ports = s.ports
  tunnel : ∀ c s, (d.run c s).2.tunnel = s.tunnel
  tuple : ∀ c s, (d.run c s).2.tuple = s.tuple
  depth : ∀ c s, (d.run c s).2.depth = s.depth

theorem Silent.blind {d : Header α} (h : d.Silent)
    (hresult : ∀ c s t, (d.run c s).1 = (d.run c t).1) : d.Blind where
  result := hresult
  mark c := .inl fun s => congrArg Hdr.mark (h c s)
  addrs c := .inl fun s => congrArg Hdr.addrs (h c s)
  ports c s := by rw [h c s]
  tunnel c s := by rw [h c s]
  tuple c s := by rw [h c s]
  depth c s := by rw [h c s]

theorem blind_pure (a : α) : (pure a : Header α).Blind := (silent_pure a).blind fun _ _ _ => rfl

theorem blind_fail (e : DissectError) : (fail e : Header α).Blind :=
  (silent_fail e).blind fun _ _ _ => rfl

theorem blind_read (r : Read α) : (read r).Blind := (silent_read r).blind fun _ _ _ => rfl

theorem blind_take (n : ℕ) : (take n).Blind := (silent_take n).blind fun _ _ _ => rfl

theorem blind_confine (n : ℕ) : (confine n).Blind :=
  Silent.blind (fun _ _ => rfl) fun _ _ _ => rfl

theorem blind_remaining : remaining.Blind := silent_remaining.blind fun _ _ _ => rfl

theorem blind_layer (l : Layer) : (layer l).Blind where
  result _ _ _ := rfl
  mark _ := .inl fun _ => rfl
  addrs _ := .inl fun _ => rfl
  ports _ _ := rfl
  tunnel _ _ := rfl
  tuple _ _ := rfl
  depth _ _ := rfl

theorem blind_net {f : NetCols → NetCols}
    (hmark : Stamps Hdr.mark fun s => { s with net := f s.net })
    (haddrs : Stamps Hdr.addrs fun s => { s with net := f s.net }) : (net f).Blind where
  result _ _ _ := rfl
  mark _ := hmark
  addrs _ := haddrs
  ports _ _ := rfl
  tunnel _ _ := rfl
  tuple _ _ := rfl
  depth _ _ := rfl

/-- What the second of two dissectors does after a blind one. -/
theorem Blind.run_bind_cases {d : Header α} (hd : d.Blind) (f : α → Header β) (c : Cur) :
    (∃ e, ∀ s, (d >>= f).run c s = (.error e, (d.run c s).2)) ∨
      ∃ a c', ∀ s, (d >>= f).run c s = (f a).run c' (d.run c s).2 := by
  rcases hr : d.run c {} with ⟨e | ⟨a, c'⟩, s₀⟩
  · refine .inl ⟨e, fun s => ?_⟩
    have hs := hd.result c s {}
    rw [run_bind]
    rcases hx : d.run c s with ⟨x, s₁⟩
    rw [hx, hr] at hs
    cases hs
    rfl
  · refine .inr ⟨a, c', fun s => ?_⟩
    have hs := hd.result c s {}
    rw [run_bind]
    rcases hx : d.run c s with ⟨x, s₁⟩
    rw [hx, hr] at hs
    cases hs
    rfl

theorem blind_bind {d : Header α} {f : α → Header β} (hd : d.Blind) (hf : ∀ a, (f a).Blind) :
    (d >>= f).Blind := by
  refine ⟨fun c s t => ?_, fun c => ?_, fun c => ?_, fun c s => ?_, fun c s => ?_, fun c s => ?_,
    fun c s => ?_⟩
  all_goals obtain ⟨e, hrun⟩ | ⟨a, c', hrun⟩ := hd.run_bind_cases f c
  all_goals simp only [hrun]
  · exact (hf a).result c' _ _
  · exact hd.mark c
  · exact ((hf a).mark c').comp (hd.mark c)
  · exact hd.addrs c
  · exact ((hf a).addrs c').comp (hd.addrs c)
  · exact hd.ports c s
  · exact ((hf a).ports c' _).trans (hd.ports c s)
  · exact hd.tunnel c s
  · exact ((hf a).tunnel c' _).trans (hd.tunnel c s)
  · exact hd.tuple c s
  · exact ((hf a).tuple c' _).trans (hd.tuple c s)
  · exact hd.depth c s
  · exact ((hf a).depth c' _).trans (hd.depth c s)

theorem blind_skip (n : ℕ) : (skip n).Blind := blind_bind (blind_take n) fun _ => blind_pure ()

theorem blind_ite {p : Prop} [Decidable p] {d d' : Header α} (hd : d.Blind) (hd' : d'.Blind) :
    (if p then d else d').Blind := by
  split
  · exact hd
  · exact hd'

end Header

namespace Network

open Header

theorem ipv4_blind : ipv4.Blind := by
  unfold ipv4
  repeat' first
    | exact .inr ⟨_, _, fun _ => rfl⟩ | exact .inl fun _ => rfl | intro _
    | with_reducible first
        | exact blind_layer _ | exact blind_read _ | exact blind_take _ | exact blind_confine _
        | exact blind_remaining | exact blind_pure _ | exact blind_fail _
        | refine blind_net ?_ ?_ | refine blind_ite ?_ ?_ | refine blind_bind ?_ ?_

theorem extensionChain_blind (guard : ℕ) (chain : ExtChain) :
    (extensionChain guard chain).Blind := by
  induction guard generalizing chain with
  | zero => exact blind_fail _
  | succ guard ih =>
      unfold extensionChain
      split
      all_goals repeat' first
        | exact .inr ⟨_, _, fun _ => rfl⟩ | exact .inl fun _ => rfl | intro _ | exact ih _
        | with_reducible first
            | exact blind_read _ | exact blind_skip _ | exact blind_pure _
            | refine blind_net ?_ ?_ | refine blind_ite ?_ ?_ | refine blind_bind ?_ ?_

theorem ipv6_blind : ipv6.Blind := by
  unfold ipv6
  repeat' first
    | exact .inr ⟨_, _, fun _ => rfl⟩ | exact .inl fun _ => rfl | intro _
    | with_reducible first
        | exact extensionChain_blind _ _
        | exact blind_layer _ | exact blind_read _ | exact blind_pure _ | exact blind_fail _
        | refine blind_net ?_ ?_ | refine blind_ite ?_ ?_ | refine blind_bind ?_ ?_

end Network

/-! ### What an IP header leaves on record -/

namespace Network

open Header

/-- The record of an IP header: its addresses, and a mark where the offset is not zero. -/
def Recorded (d : Datagram) (s : Hdr) : Prop :=
  s.addrs = (some d.src.toText, some d.dst.toText) ∧
    (d.fragOffset ≠ 0 → s.net.ipFlagMf.isSome = true)

theorem ipv4_records : Yields (fun _ => True) ipv4 Recorded := by
  unfold ipv4
  refine yields_set_bind (fun _ => True) (fun _ _ => trivial) ?_
  refine (silent_read _).yields_bind fun verIhl => ?_
  refine yields_ite (yields_fail_bind _ _) ?_
  refine yields_ite (yields_fail_bind _ _) ?_
  iterate 7 refine (silent_read _).yields_bind fun _ => ?_
  refine (silent_read _).yields_bind fun src => (silent_read _).yields_bind fun dst => ?_
  refine yields_set_bind (fun s =>
    s.addrs = (some (IpAddr.textV4 src), some (IpAddr.textV4 dst)) ∧
      s.net.ipFlagMf.isSome = true) (fun _ _ => ⟨rfl, rfl⟩) ?_
  -- what is left writes the options only
  have hend : ∀ d : Datagram, d.src = .v4 src → d.dst = .v4 dst → ∀ s : Hdr,
      s.addrs = (some (IpAddr.textV4 src), some (IpAddr.textV4 dst)) ∧
        s.net.ipFlagMf.isSome = true → Recorded d s := by
    intro d hsrc hdst s hs
    rw [Recorded, hsrc, hdst]
    exact ⟨hs.1, fun _ => hs.2⟩
  refine yields_ite ?_ ?_
  · refine (silent_take _).yields_bind fun opts => ?_
    refine yields_keep_bind (fun _ hs => hs) ?_
    refine silent_remaining.yields_bind fun left => ?_
    refine yields_ite (Silent.yields_bind (fun _ _ => rfl) fun _ => ?_) ?_
    all_goals exact yields_pure (hend _ rfl rfl)
  · refine silent_remaining.yields_bind fun left => ?_
    refine yields_ite (Silent.yields_bind (fun _ _ => rfl) fun _ => ?_) ?_
    all_goals exact yields_pure (hend _ rfl rfl)

/-- The extension headers leave the addresses alone, and only a Fragment header has an offset. -/
theorem extensionChain_records (guard : ℕ) (chain : ExtChain) (addrs : Option Text × Option Text) :
    Yields (fun s => s.addrs = addrs ∧ (chain.fragOffset ≠ 0 → s.net.ipFlagMf.isSome = true))
      (extensionChain guard chain)
      (fun chain s =>
        s.addrs = addrs ∧ (chain.fragOffset ≠ 0 → s.net.ipFlagMf.isSome = true)) := by
  induction guard generalizing chain with
  | zero => exact yields_fail _
  | succ guard ih =>
      unfold extensionChain
      split
      · refine (silent_read _).yields_bind fun nh => (silent_read _).yields_bind fun len => ?_
        exact (silent_skip _).yields_bind fun _ => ih { chain with proto := nh, names := _ }
      · refine yields_ite ?_ (yields_ite ?_ (yields_pure fun _ hs => hs))
        · iterate 4 refine (silent_read _).yields_bind fun _ => ?_
          exact yields_set_bind _ (fun s hs => ⟨hs.1, fun _ => rfl⟩) (ih _)
        · refine (silent_read _).yields_bind fun nh => (silent_read _).yields_bind fun len => ?_
          exact (silent_skip _).yields_bind fun _ => ih { chain with proto := nh, names := _ }

theorem ipv6_records : Yields (fun _ => True) ipv6 Recorded := by
  unfold ipv6
  refine yields_set_bind (fun _ => True) (fun _ _ => trivial) ?_
  refine (silent_read _).yields_bind fun w => ?_
  refine yields_ite (yields_fail_bind _ _) ?_
  refine (silent_read _).yields_bind fun payloadLen => ?_
  refine (silent_read _).yields_bind fun nextHeader => ?_
  refine (silent_read _).yields_bind fun hopLimit => ?_
  refine (silent_read _).yields_bind fun src => (silent_read _).yields_bind fun dst => ?_
  refine yields_set_bind (fun s =>
    s.addrs = (some (IpAddr.textV6 src), some (IpAddr.textV6 dst)))
    (fun _ _ => rfl) ?_
  have hchain := extensionChain_records 16
    { proto := nextHeader, names := [], fragOffset := 0 }
    (some (IpAddr.textV6 src), some (IpAddr.textV6 dst))
  refine yields_bind (hchain.weaken fun s hs => ⟨hs, fun h => absurd rfl h⟩) fun chain => ?_
  refine yields_ite (yields_keep_bind (fun _ hs => hs) ?_) ?_
  all_goals exact yields_keep_bind (fun _ hs => hs) (yields_pure fun s hs => hs)

end Network

/-! ### The IP headers of a frame -/

/-- An IP header of a frame: its version, and the cursor at its first byte. -/
structure IpAt where
  isV6 : Bool
  cur : Cur

namespace IpAt

/-- The dissector of the header. -/
def header (h : IpAt) : Header Datagram := if h.isV6 then Network.ipv6 else Network.ipv4

/-- The header read by itself, on an empty record. -/
def read (h : IpAt) : Except DissectError (Datagram × Cur) × Hdr := h.header.run h.cur {}

/-- The header says whether its datagram is fragmented: an IPv4 header does, and an IPv6 header with
a Fragment header. -/
def marks (h : IpAt) : Bool := h.read.2.net.ipFlagMf.isSome

/-- The fragment that the header announces: it has the mark set or an offset other than zero. -/
def fragment (h : IpAt) : Option FragMeta :=
  match h.read.1 with
  | .error _ => none
  | .ok (d, c) => Network.fragMeta d h.read.2 c

theorem blind (h : IpAt) : h.header.Blind := by
  unfold header
  split
  · exact Network.ipv6_blind
  · exact Network.ipv4_blind

/-- What stands on record once the header is read. -/
theorem run_recorded {h : IpAt} {s : Hdr} {d : Datagram} {c : Cur}
    (hx : (h.header.run h.cur s).1 = .ok (d, c)) : Network.Recorded d (h.header.run h.cur s).2 := by
  have hrecords : h.header.Yields (fun _ => True) Network.Recorded := by
    unfold header
    split
    · exact Network.ipv6_records
    · exact Network.ipv4_records
  exact hrecords h.cur s d c trivial hx

/-- A header that says nothing about fragmentation has no offset. -/
theorem fragOffset_of_not_marks {h : IpAt} {d : Datagram} {c : Cur} (hx : h.read.1 = .ok (d, c))
    (hmarks : h.marks = false) : d.fragOffset = 0 := by
  by_contra hoff
  have hsome : h.marks = true := (run_recorded hx).2 hoff
  rw [hmarks] at hsome
  cases hsome

/-- A header that says nothing about fragmentation leaves on record what is there; any other leaves
what it says. -/
theorem run_mark (h : IpAt) (s : Hdr) :
    (h.header.run h.cur s).2.mark = if h.marks then h.read.2.mark else s.mark := by
  obtain hkeep | ⟨mf, id, hset⟩ := h.blind.mark h.cur
  · have hread : h.read.2.net.ipFlagMf = none := congrArg Prod.fst (hkeep {})
    have hmarks : ¬ h.marks = true := by rw [marks, hread]; exact Bool.false_ne_true
    rw [if_neg hmarks]
    exact hkeep s
  · have hread : h.read.2.net.ipFlagMf = some mf := congrArg Prod.fst (hset {})
    have hmarks : h.marks = true := by rw [marks, hread]; rfl
    rw [if_pos hmarks]
    exact (hset s).trans (hset {}).symm

/-- A header that gives up before its addresses are read leaves on record what is there; any other
leaves its own addresses. -/
theorem run_addrs (h : IpAt) (s : Hdr) :
    (h.header.run h.cur s).2.addrs =
      if h.read.2.net.ipSrc.isSome then h.read.2.addrs else s.addrs := by
  obtain hkeep | ⟨src, dst, hset⟩ := h.blind.addrs h.cur
  · have hread : h.read.2.net.ipSrc = none := congrArg Prod.fst (hkeep {})
    rw [hread, Option.isSome_none, if_neg Bool.false_ne_true]
    exact hkeep s
  · have hread : h.read.2.net.ipSrc = some src := congrArg Prod.fst (hset {})
    rw [hread, Option.isSome_some, if_pos rfl]
    exact (hset s).trans (hset {}).symm

end IpAt

/-- The IP header that a hop comes to, if it does. -/
def Hop.ipAt (h : Hop) (c : Cur) : Option IpAt :=
  match h with
  | .ipv4 => some { isV6 := false, cur := c }
  | .ipv6 => some { isV6 := true, cur := c }
  | _ => none

/-- The IP headers that a walk comes to, from the outermost one on. -/
def ipVisits : ℕ → Onward → Cur → Hdr → Option FragMeta → List IpAt
  | _, .done, _, _, _ => []
  | _, .payload _, _, _, _ => []
  | 0, .hop _, _, _, _ => []
  | rounds + 1, .hop h, c, s, frag =>
      (h.ipAt c).toList ++
        match (hop h c s frag).next with
        | .error _ => []
        | .ok (o, c') => ipVisits rounds o c' (hop h c s frag).hdr (hop h c s frag).frag

/-- The IP headers of a frame, as far as the first pass dissects it. -/
def ipHeaders (o : Owned) : List IpAt :=
  match (Link.dissectLink o.linktype).run (Cur.new o.data) { ifaceId := some o.ifaceId } with
  | (.error _, _) => []
  | (.ok (next, c), s) => ipVisits (c.remaining + 1) next c s none

theorem ipVisits_hop (rounds : ℕ) (h : Hop) (c : Cur) (s : Hdr) (frag : Option FragMeta) :
    ipVisits (rounds + 1) (.hop h) c s frag = (h.ipAt c).toList ++
      match (hop h c s frag).next with
      | .error _ => []
      | .ok (o, c') => ipVisits rounds o c' (hop h c s frag).hdr (hop h c s frag).frag := rfl

/-- A walk goes down the frame. -/
theorem ipVisits_remaining_le {n : ℕ} {o : Onward} {c : Cur} {s : Hdr} {frag : Option FragMeta} :
    ∀ h ∈ ipVisits n o c s frag, h.cur.remaining ≤ c.remaining := by
  induction n generalizing o c s frag with
  | zero => cases o <;> exact fun h hh => absurd hh List.not_mem_nil
  | succ n ih =>
      cases o with
      | done => exact fun h hh => absurd hh List.not_mem_nil
      | payload p => exact fun h hh => absurd hh List.not_mem_nil
      | hop hp =>
          intro h hh
          rw [ipVisits_hop, List.mem_append] at hh
          obtain hh | hh := hh
          · have hcur : h.cur = c := by
              cases hp with
              | ipv4 => rw [List.mem_singleton.mp hh]
              | ipv6 => rw [List.mem_singleton.mp hh]
              | ethernet => exact absurd hh List.not_mem_nil
              | llc => exact absurd hh List.not_mem_nil
              | vlan => exact absurd hh List.not_mem_nil
              | mpls => exact absurd hh List.not_mem_nil
              | pppoe => exact absurd hh List.not_mem_nil
            exact le_of_eq (congrArg Cur.remaining hcur)
          · cases hx : (hop hp c s frag).next with
            | error e =>
                rw [hx] at hh
                exact absurd hh List.not_mem_nil
            | ok r =>
                rw [hx] at hh
                exact (ih h hh).trans (hop_remaining_lt hx).le

/-! ### The last of a list -/

section LastOf

variable {α γ : Type}

/-- What the last element that says something says. -/
def lastOf (f : α → Option γ) : List α → Option γ
  | [] => none
  | x :: rest => (lastOf f rest).or (f x)

theorem lastOf_eq_none_iff {f : α → Option γ} {l : List α} :
    lastOf f l = none ↔ ∀ x ∈ l, f x = none := by
  induction l with
  | nil => simp [lastOf]
  | cons x l ih => simp [lastOf, Option.or_eq_none_iff, ih, and_comm]

theorem mem_of_lastOf {f : α → Option γ} {l : List α} {y : γ} (h : lastOf f l = some y) :
    ∃ x ∈ l, f x = some y := by
  induction l with
  | nil => cases h
  | cons x l ih =>
      rw [lastOf, Option.or_eq_some_iff] at h
      obtain h | ⟨-, h⟩ := h
      · obtain ⟨z, hz, hfz⟩ := ih h
        exact ⟨z, List.mem_cons_of_mem x hz, hfz⟩
      · exact ⟨x, List.mem_cons_self, h⟩

theorem lastOf_append (f : α → Option γ) (l l' : List α) :
    lastOf f (l ++ l') = (lastOf f l').or (lastOf f l) := by
  induction l with
  | nil => simp [lastOf]
  | cons x l ih => simp [lastOf, ih, Option.or_assoc]

theorem lastOf_map {δ : Type} (f : α → Option γ) (g : γ → δ) (l : List α) :
    lastOf (fun x => (f x).map g) l = (lastOf f l).map g := by
  induction l with
  | nil => rfl
  | cons x l ih =>
      rw [lastOf, lastOf, ih]
      cases lastOf f l <;> rfl

/-- What is said about the last of them is said last. -/
theorem lastOf_bind {δ : Type} {f : α → Option γ} {g : γ → Option δ} {l : List α} {y : γ} {z : δ}
    (hf : lastOf f l = some y) (hg : g y = some z) :
    lastOf (fun x => (f x).bind g) l = some z := by
  induction l with
  | nil => cases hf
  | cons x l ih =>
      rw [lastOf, Option.or_eq_some_iff] at hf ⊢
      obtain hl | ⟨hl, hx⟩ := hf
      · exact .inl (ih hl)
      · refine .inr ⟨?_, by rw [hx]; exact hg⟩
        rw [lastOf_eq_none_iff] at hl ⊢
        intro w hw
        rw [hl w hw]
        rfl

end LastOf

/-! ### What the other dissectors leave -/

/-- Two states that say the same about whom the packet is from and to. -/
structure SameSides (s s' : Hdr) : Prop where
  addrs : s'.addrs = s.addrs
  ports : s'.ports = s.ports
  outer : s'.tunnel.outerIpSrc = s.tunnel.outerIpSrc
  tuple : s'.tuple = s.tuple
  mark : s'.mark = s.mark

namespace SameSides

theorem refl (s : Hdr) : SameSides s s := ⟨rfl, rfl, rfl, rfl, rfl⟩

theorem trans {s t u : Hdr} (h : SameSides s t) (h' : SameSides t u) : SameSides s u where
  addrs := h'.addrs.trans h.addrs
  ports := h'.ports.trans h.ports
  outer := h'.outer.trans h.outer
  tuple := h'.tuple.trans h.tuple
  mark := h'.mark.trans h.mark

/-- Promotion looks at the sides only. -/
theorem promote {s t : Hdr} (h : SameSides s t) :
    SameSides (Tunnel.promote s) (Tunnel.promote t) := by
  unfold Tunnel.promote
  rw [h.outer]
  split
  · exact ⟨rfl, rfl, congrArg Prod.fst h.addrs, h.tuple, h.mark⟩
  · exact h

end SameSides

/-- What is promoted stays promoted. -/
theorem promote_promote (s : Hdr) :
    SameSides (Tunnel.promote s) (Tunnel.promote (Tunnel.promote s)) := by
  unfold Tunnel.promote
  split
  · next hnone =>
    -- a second promotion finds the outer address, or nothing to promote
    split
    · next hsrc => exact ⟨rfl, rfl, (Option.isNone_iff_eq_none.mp hsrc).symm, rfl, rfl⟩
    · exact .refl _
  · exact .refl _

/-- The dissector leaves the sides alone, or enters a tunnel and has them promoted. -/
def Leaves (s s' : Hdr) : Prop :=
  (SameSides s s' ∧ s'.depth = s.depth) ∨ (SameSides (Tunnel.promote s) s' ∧ s.depth < s'.depth)

theorem Leaves.refl (s : Hdr) : Leaves s s := .inl ⟨.refl s, rfl⟩

theorem Leaves.trans {s t u : Hdr} (h : Leaves s t) (h' : Leaves t u) : Leaves s u := by
  obtain ⟨hst, hd⟩ | ⟨hst, hd⟩ := h
  · obtain ⟨htu, hd'⟩ | ⟨htu, hd'⟩ := h'
    · exact .inl ⟨hst.trans htu, hd'.trans hd⟩
    · exact .inr ⟨hst.promote.trans htu, hd ▸ hd'⟩
  · obtain ⟨htu, hd'⟩ | ⟨htu, hd'⟩ := h'
    · exact .inr ⟨hst.trans htu, hd' ▸ hd⟩
    · exact .inr ⟨((promote_promote s).trans hst.promote).trans htu, UInt8.lt_trans hd hd'⟩

/-- Entering a tunnel promotes, or does nothing. -/
theorem enter_leaves (kind : Layer) (c : Cur) (s : Hdr) :
    Leaves s ((Tunnel.enter kind).run c s).2 := by
  unfold Tunnel.enter
  rw [Header.run_bind, Tunnel.descend_run]
  by_cases hfull : Tunnel.maxDepth ≤ s.depth
  · rw [if_pos hfull]
    exact .refl s
  · rw [if_neg hfull]
    refine .inr ⟨?_, ?_⟩
    · have hsame : SameSides s { s with depth := s.depth + 1, stack := s.stack ++ [kind] } :=
        ⟨rfl, rfl, rfl, rfl, rfl⟩
      exact hsame.promote.trans ⟨rfl, rfl, rfl, rfl, rfl⟩
    · have hlt : s.depth.toNat < 8 := by
        have hmax : Tunnel.maxDepth.toNat = 8 := rfl
        rwa [UInt8.le_iff_toNat_le, hmax, Nat.not_le] at hfull
      have hdepth : ∀ t : Hdr, (Tunnel.promote t).depth = t.depth := fun t =>
        (Header.promote_keeps t).2
      change s.depth < (Tunnel.promote _).depth
      rw [hdepth, UInt8.lt_iff_toNat_lt, UInt8.toNat_add]
      change s.depth.toNat < (s.depth.toNat + 1) % 256
      omega

namespace Header

/-- **An aloof dissector leaves the sides alone, or has them promoted by a tunnel.** -/
theorem Aloof.leaves {looks enters : Bool} {α : Type} {d : Header α} (h : d.Aloof looks enters)
    (c : Cur) (s : Hdr) : Leaves s (d.run c s).2 := by
  induction h generalizing c s with
  | pure a => exact .refl s
  | fail e => exact .refl s
  | read _ => exact .refl s
  | tryRead _ => rw [silent_tryRead]; exact .refl s
  | take n => exact .refl s
  | tryTake n => rw [silent_tryTake]; exact .refl s
  | skip n => rw [silent_skip]; exact .refl s
  | trySkip n => rw [silent_trySkip]; exact .refl s
  | confine n => exact .refl s
  | remaining => exact .refl s
  | peek => rw [silent_peek]; exact .refl s
  | peekU8 => exact .refl s
  | layer _ => exact .inl ⟨⟨rfl, rfl, rfl, rfl, rfl⟩, rfl⟩
  | iface i => exact .inl ⟨⟨rfl, rfl, rfl, rfl, rfl⟩, rfl⟩
  | link f => exact .inl ⟨⟨rfl, rfl, rfl, rfl, rfl⟩, rfl⟩
  | transport hf =>
      have hports := hf s.transport
      exact .inl ⟨⟨rfl, Prod.ext hports.1 hports.2, rfl, rfl, rfl⟩, rfl⟩
  | tunnel hf => exact .inl ⟨⟨rfl, rfl, hf s.tunnel, rfl, rfl⟩, rfl⟩
  | net hf =>
      obtain ⟨hsrc, hdst, hmf, hid⟩ := hf s.net
      exact .inl ⟨⟨Prod.ext hsrc hdst, rfl, rfl, rfl, Prod.ext hmf hid⟩, rfl⟩
  | enter _ _ => exact enter_leaves _ c s
  | look _ _ _ ih => exact ih s c s
  | @ite α p _ d d' _ _ ih ih' =>
      split
      · exact ih c s
      · exact ih' c s
  | @bind α β d f _ _ ih ihf =>
      have hd := ih c s
      rw [run_bind]
      rcases hx : d.run c s with ⟨e | r, s'⟩
      · rw [hx] at hd
        exact hd
      · rw [hx] at hd
        exact hd.trans (ihf r.1 r.2 s')

/-- A dissector that enters no tunnel stays on its level. -/
theorem Aloof.depth_eq {looks : Bool} {α : Type} {d : Header α} (h : d.Aloof looks false) (c : Cur)
    (s : Hdr) : (d.run c s).2.depth = s.depth := by
  induction h generalizing c s with
  | pure a => rfl
  | fail e => rfl
  | read _ => rfl
  | tryRead _ => rw [silent_tryRead]
  | take n => rfl
  | tryTake n => rw [silent_tryTake]
  | skip n => rw [silent_skip]
  | trySkip n => rw [silent_trySkip]
  | confine n => rfl
  | remaining => rfl
  | peek => rw [silent_peek]
  | peekU8 => rfl
  | layer _ => rfl
  | iface i => rfl
  | link f => rfl
  | transport _ => rfl
  | tunnel _ => rfl
  | net _ => rfl
  | enter he _ => cases he
  | look _ _ _ ih => exact ih s c s
  | @ite α p _ d d' _ _ ih ih' =>
      split
      · exact ih c s
      · exact ih' c s
  | @bind α β d f _ _ ih ihf =>
      have hd := ih c s
      rw [run_bind]
      rcases hx : d.run c s with ⟨e | r, s'⟩
      · rw [hx] at hd
        exact hd
      · rw [hx] at hd
        exact (ihf r.1 r.2 s').trans hd

end Header

end PcapRacer
