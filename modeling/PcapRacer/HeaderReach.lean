/-
**How far the headers look.**

A header dissector looks at the bytes that it consumes, and at the next two at most; the TCP
dissector at none beyond its header.  So the walk to a TCP payload is the same whatever the bytes of
the payload are, and whatever stands behind it.

Main definitions:

* `Cur.Alike` — two cursors that agree on the bytes before a place in the buffer;
* `Header.Narrow` — a dissector that looks at the bytes it consumes and at a few more.

Main results:

* `Header.Stepwise.narrow` — dissectors built from steps look at two bytes more;
* `Transport.tcp_narrow` — the TCP dissector looks at its header only;
* `EndsAtTcp.alike` — **the walk to a TCP payload does not look at the payload**.
-/

import PcapRacer.HeaderSteps
import PcapRacer.SegmentRows

set_option relaxedAutoImplicit false
set_option autoImplicit false

namespace PcapRacer

/-! ### Cursors that agree before a place -/

/-- The cursors stand at the same place of two buffers of one length that agree before `w`. -/
structure Cur.Alike (w : ℕ) (c c' : Cur) : Prop where
  base : c.base = c'.base
  pos : c.pos = c'.pos
  length : c.data.length = c'.data.length
  before : c.data.take (w - c.base) = c'.data.take (w - c.base)

namespace Cur.Alike

variable {w : ℕ} {c c' : Cur}

theorem start (h : Alike w c c') : c.start = c'.start := congrArg₂ (· + ·) h.base h.pos

theorem remaining (h : Alike w c c') : c.remaining = c'.remaining := by
  rw [Cur.remaining, Cur.remaining, h.length, h.pos]

/-- What is left before the place. -/
theorem rest_take (h : Alike w c c') : c.rest.take (w - c.start) = c'.rest.take (w - c.start) := by
  have hrest : ∀ q : Cur, q.rest.take (w - q.start) = (q.data.take (w - q.base)).drop q.pos := by
    intro q
    rw [Cur.rest, List.drop_take, Cur.start, Nat.sub_add_eq]
  have hright := hrest c'
  rw [← h.start] at hright
  rw [hrest c, hright, h.before, ← h.base, h.pos]

/-- Bytes before the place are the same. -/
theorem take_eq (h : Alike w c c') {n : ℕ} (hn : c.start + n ≤ w) :
    c.rest.take n = c'.rest.take n := by
  have hle : n ≤ w - c.start := by omega
  have hmin : ∀ b : Bytes, b.take n = (b.take (w - c.start)).take n := fun b => by
    rw [List.take_take, Nat.min_eq_left hle]
  rw [hmin c.rest, hmin c'.rest, h.rest_take]

theorem advance (h : Alike w c c') {n : ℕ} (hn : n ≤ c.remaining) (hn' : n ≤ c'.remaining) :
    Alike w (c.advance n hn) (c'.advance n hn') where
  base := h.base
  pos := congrArg (· + n) h.pos
  length := h.length
  before := h.before

end Cur.Alike

/-! ### Narrow dissectors -/

namespace Header

variable {α β : Type} {k : ℕ}

/-- The dissector looks at the bytes that it consumes, and at `k` more: it does the same on two
cursors that agree so far. -/
def Narrow (k : ℕ) (d : Header α) : Prop :=
  ∀ {w : ℕ} {c c' c₁ : Cur} {s s₁ : Hdr} {a : α}, c.Alike w c' →
    d.run c s = (.ok (a, c₁), s₁) → c₁.start + k ≤ w →
    ∃ c₁' : Cur, d.run c' s = (.ok (a, c₁'), s₁) ∧ c₁.Alike w c₁'

theorem narrow_pure (a : α) : (pure a : Header α).Narrow k := by
  intro w c c' c₁ s s₁ b hc h _
  cases h
  exact ⟨c', rfl, hc⟩

theorem narrow_fail (e : DissectError) : (fail e : Header α).Narrow k := by
  intro w c c' c₁ s s₁ b _ h _
  cases h

theorem narrow_set (f : Hdr → Hdr) : (set f).Narrow k := by
  intro w c c' c₁ s s₁ b hc h _
  cases h
  exact ⟨c', rfl, hc⟩

theorem narrow_bind {d : Header α} {f : α → Header β} (hd : d.Narrow k)
    (hf : ∀ a, (f a).Narrow k) : (d >>= f).Narrow k := by
  intro w c c' c₂ s s₂ b hc h hw
  rw [run_bind] at h
  rcases hx : d.run c s with ⟨e | ⟨a, c₁⟩, s₁⟩
  · rw [hx] at h
    cases h
  · rw [hx] at h
    have hle : c₁.start ≤ c₂.start := ((f a).within (congrArg Prod.fst h)).start_le
    obtain ⟨c₁', hx', hc₁⟩ := hd hc hx (by omega)
    obtain ⟨c₂', h', hc₂⟩ := hf a hc₁ h hw
    refine ⟨c₂', ?_, hc₂⟩
    rw [run_bind, hx']
    exact h'

theorem narrow_ite {p : Prop} [Decidable p] {d d' : Header α} (hd : d.Narrow k)
    (hd' : d'.Narrow k) : (if p then d else d').Narrow k := by
  split
  · exact hd
  · exact hd'

theorem narrow_take (n : ℕ) : (take n).Narrow k := by
  intro w c c' c₁ s s₁ b hc h hw
  obtain ⟨hn, heq⟩ := Cur.take_eq_ok_iff.mp (congrArg Prod.fst h)
  have hn' : n ≤ c'.remaining := hc.remaining ▸ hn
  obtain ⟨rfl, rfl⟩ := Prod.mk.inj heq
  rw [Cur.start_advance] at hw
  refine ⟨c'.advance n hn', ?_, hc.advance hn hn'⟩
  have hs : s = s₁ := congrArg Prod.snd h
  rw [hc.take_eq (n := n) (by omega), ← hs]
  exact congrArg (fun r => (r, s)) (Cur.take_of_le hn')

theorem narrow_read {r : Read α} (hr : r.IsBytes) : (read r).Narrow k := by
  obtain ⟨n, f, rfl⟩ := hr
  intro w c c' c₁ s s₁ b hc h hw
  obtain ⟨x, hx, rfl⟩ := Cur.read_eq_ok (congrArg Prod.fst h)
  have hs : s = s₁ := congrArg Prod.snd h
  have htake : (take (n + 1)).run c s = (.ok (x, c₁), s₁) := Prod.ext hx hs
  obtain ⟨c₁', htake', hc₁⟩ := narrow_take (n + 1) hc htake hw
  refine ⟨c₁', Prod.ext ?_ hs, hc₁⟩
  have hx' : c'.take (n + 1) = .ok (x, c₁') := congrArg Prod.fst htake'
  change (c'.take (n + 1)).map _ = _
  rw [hx']
  rfl

theorem narrow_tryTake (n : ℕ) : (tryTake n).Narrow k := by
  intro w c c' c₁ s s₁ b hc h hw
  by_cases hn : n ≤ c.remaining
  · have hn' : n ≤ c'.remaining := hc.remaining ▸ hn
    unfold tryTake at h ⊢
    dsimp only at h ⊢
    rw [Cur.take_of_le hn] at h
    rw [Cur.take_of_le hn']
    cases h
    rw [Cur.start_advance] at hw
    refine ⟨c'.advance n hn', ?_, hc.advance hn hn'⟩
    rw [hc.take_eq (n := n) (by omega)]
  · have hn' : ¬ n ≤ c'.remaining := hc.remaining ▸ hn
    have hfail : c.take n = .error .truncated := dif_neg hn
    have hfail' : c'.take n = .error .truncated := dif_neg hn'
    unfold tryTake at h ⊢
    dsimp only at h ⊢
    rw [hfail] at h
    rw [hfail']
    cases h
    exact ⟨c', rfl, hc⟩

theorem narrow_tryRead {r : Read α} (hr : r.IsBytes) : (tryRead r).Narrow k := by
  obtain ⟨n, f, rfl⟩ := hr
  intro w c c' c₁ s s₁ b hc h hw
  have hmap : ∀ q : Cur, (Read.bytes n f).get q = (q.take (n + 1)).map fun p => (f p.1, p.2) :=
    fun _ => rfl
  have hget : ∀ {q : Cur} (hq : n + 1 ≤ q.remaining), (Read.bytes n f).get q =
      .ok (f (q.rest.take (n + 1)), q.advance (n + 1) hq) := by
    intro q hq
    rw [hmap, Cur.take_of_le hq]
    rfl
  have hfail : ∀ {q : Cur}, ¬ n + 1 ≤ q.remaining →
      (Read.bytes n f).get q = .error .truncated := by
    intro q hq
    rw [hmap, Cur.take, dif_neg hq]
    rfl
  unfold tryRead at h ⊢
  dsimp only at h ⊢
  by_cases hn : n + 1 ≤ c.remaining
  · have hn' : n + 1 ≤ c'.remaining := hc.remaining ▸ hn
    rw [hget hn] at h
    rw [hget hn']
    cases h
    rw [Cur.start_advance] at hw
    refine ⟨c'.advance (n + 1) hn', ?_, hc.advance hn hn'⟩
    rw [hc.take_eq (n := n + 1) (by omega)]
  · have hn' : ¬ n + 1 ≤ c'.remaining := hc.remaining ▸ hn
    rw [hfail hn] at h
    rw [hfail hn']
    cases h
    exact ⟨c', rfl, hc⟩

theorem narrow_confine (n : ℕ) : (confine n).Narrow k := by
  intro w c c' c₁ s s₁ b hc h _
  unfold confine at h ⊢
  dsimp only at h ⊢
  by_cases hn : n ≤ c.remaining
  · have hn' : n ≤ c'.remaining := hc.remaining ▸ hn
    rw [Cur.sub, dif_pos hn] at h
    rw [Cur.sub, dif_pos hn']
    cases h
    refine ⟨_, rfl, hc.start, rfl, ?_, ?_⟩
    · simp only [List.length_take, Cur.length_rest, hc.remaining]
    · dsimp only
      rw [List.take_take, List.take_take, Nat.min_comm, ← List.take_take, ← List.take_take,
        hc.rest_take]
  · rw [Cur.sub, dif_neg hn] at h
    cases h

theorem narrow_remaining : remaining.Narrow k := by
  intro w c c' c₁ s s₁ b hc h _
  have hrun : ∀ q : Cur, remaining.run q s = (.ok (q.remaining, q), s) := fun _ => rfl
  rw [hrun] at h ⊢
  cases h
  exact ⟨c', by rw [hc.remaining], hc⟩

theorem narrow_peek (n : ℕ) : (peek n).Narrow n := by
  intro w c c' c₁ s s₁ b hc h hw
  have hrun : ∀ q : Cur, (peek n).run q s = (.ok (q.peek n, q), s) := fun _ => rfl
  rw [hrun] at h ⊢
  cases h
  refine ⟨c', ?_, hc⟩
  rw [Cur.peek, Cur.peek, hc.remaining, hc.take_eq hw]

theorem narrow_peekU8 : peekU8.Narrow 1 := by
  intro w c c' c₁ s s₁ b hc h hw
  have hpeek : ∀ {q : Cur} (hq : 1 ≤ q.remaining),
      q.peekU8 = .ok ((q.rest.take 1).headD 0) := by
    intro q hq
    rw [Cur.peekU8, Cur.u8_eq_read, Cur.read, Cur.take_of_le hq]
    rfl
  unfold peekU8 at h ⊢
  dsimp only at h ⊢
  by_cases hn : 1 ≤ c.remaining
  · have hn' : 1 ≤ c'.remaining := hc.remaining ▸ hn
    rw [hpeek hn] at h
    rw [hpeek hn']
    cases h
    refine ⟨c', ?_, hc⟩
    rw [hc.take_eq hw]
    rfl
  · rw [Cur.peekU8, Cur.u8, dif_neg hn] at h
    cases h

/-- What is looked at may be fewer bytes. -/
theorem Narrow.mono {d : Header α} (hd : d.Narrow k) {n : ℕ} (h : k ≤ n) : d.Narrow n := by
  intro w c c' c₁ s s₁ b hc hx hw
  exact hd hc hx (by omega)

theorem narrow_skip (n : ℕ) : (skip n).Narrow k :=
  narrow_bind (narrow_take n) fun _ => narrow_pure _

theorem narrow_look {f : Hdr → Header β} (hf : ∀ s, (f s).Narrow k) : (get >>= f).Narrow k := by
  intro w c c' c₁ s s₁ b hc h hw
  exact hf s hc h hw

theorem narrow_enter (kind : Layer) : (Tunnel.enter kind).Narrow k := by
  have hdescend : Tunnel.descend.Narrow k := by
    intro w c c' c₁ s s₁ b hc h _
    rw [Tunnel.descend_run] at h ⊢
    split at h
    · cases h
    · next hlt =>
      rw [if_neg hlt]
      cases h
      exact ⟨c', rfl, hc⟩
  unfold Tunnel.enter
  apply narrow_bind hdescend
  intro _
  refine narrow_bind (narrow_set _) fun _ => ?_
  refine narrow_bind (narrow_set _) fun _ => ?_
  exact narrow_set _

/-- **Dissectors built from steps look at two bytes more** than they consume. -/
theorem Stepwise.narrow {d : Header α} (h : d.Stepwise) : d.Narrow 2 := by
  induction h with
  | pure a => exact narrow_pure a
  | fail e => exact narrow_fail e
  | read hr => exact narrow_read hr
  | tryRead hr => exact narrow_tryRead hr
  | take n => exact narrow_take n
  | tryTake n => exact narrow_tryTake n
  | skip n => exact narrow_skip n
  | trySkip n => exact narrow_bind (narrow_tryTake n) fun _ => narrow_pure _
  | confine n => exact narrow_confine n
  | remaining => exact narrow_remaining
  | peek => exact narrow_peek 2
  | peekU8 => exact narrow_peekU8.mono (by decide)
  | layer hl => exact narrow_set _
  | iface i => exact narrow_set _
  | link f => exact narrow_set _
  | transport f => exact narrow_set _
  | tunnel f => exact narrow_set _
  | net hf => exact narrow_set _
  | setTuple src dst sport dport proto => exact narrow_set _
  | enter hk => exact narrow_enter _
  | look hlink _ ih => exact narrow_look ih
  | ite _ _ ih ih' => exact narrow_ite ih ih'
  | bind _ _ ih ihf => exact narrow_bind ih ihf

end Header

open Header

/-- **The TCP dissector looks at its header only.** -/
theorem Transport.tcp_narrow (src dst : IpAddr) : (tcp src dst).Narrow 0 := by
  refine narrow_bind (narrow_set _) fun _ => ?_
  iterate 8 refine narrow_bind (narrow_read (Read.isBytes_bytes _ _)) fun _ => ?_
  refine narrow_bind (narrow_set _) fun _ => narrow_bind (narrow_set _) fun _ => ?_
  refine narrow_bind narrow_remaining fun left => narrow_ite ?_ (narrow_pure _)
  exact narrow_bind (narrow_take _) fun opts => narrow_bind (narrow_set _) fun _ => narrow_pure _

/-! ### Hops -/

/-- What stands after a hop on the way to a TCP payload: another header, or the payload. -/
def Onward.LeadsOn : Onward → Prop
  | .done => False
  | .hop _ => True
  | .payload p => p.isTcp = true

/-- How many bytes behind the next cursor a hop may have looked at. -/
def Onward.slack : Onward → ℕ
  | .payload _ => 0
  | _ => 2

/-- The dissector ends the walk. -/
def Header.EndsWalk (d : Header Onward) : Prop :=
  ∀ c s o c', (d.run c s).1 = .ok (o, c') → o = .done

theorem Header.endsWalk_bind {α : Type} {d : Header α} {f : α → Header Onward}
    (hf : ∀ a, (f a).EndsWalk) : (d >>= f).EndsWalk := by
  intro c s o c' h
  rw [run_bind] at h
  rcases hx : d.run c s with ⟨e | r, s'⟩
  · rw [hx] at h
    cases h
  · rw [hx] at h
    exact hf r.1 r.2 s' o c' h

/-- SCTP is not dissected further. -/
theorem Transport.sctp_endsWalk (src dst : IpAddr) : (sctp src dst).EndsWalk := by
  have hdone : (pure .done : Header Onward).EndsWalk := fun _ _ _ _ h => by
    cases h
    rfl
  unfold sctp
  iterate 8 refine endsWalk_bind fun _ => ?_
  dsimp only
  split
  · exact endsWalk_bind fun _ => hdone
  · exact hdone

/-- **The payload of an IP packet** is dispatched without a look at what stands after it. -/
theorem Network.dispatchIpProto_alike {proto : UInt8} {src dst : IpAddr} {w : ℕ}
    {c c' c₁ : Cur} {s s₁ : Hdr} {o : Onward} (hc : c.Alike w c')
    (h : (dispatchIpProto proto src dst).run c s = (.ok (o, c₁), s₁)) (ho : o.LeadsOn)
    (hw : c₁.start + o.slack ≤ w) :
    ∃ c₁' : Cur, (dispatchIpProto proto src dst).run c' s = (.ok (o, c₁'), s₁) ∧
      c₁.Alike w c₁' := by
  by_cases htcp : proto.toNat = 6
  · have hnarrow : (dispatchIpProto proto src dst).Narrow 0 := by
      unfold dispatchIpProto
      rw [htcp]
      exact narrow_bind (narrow_set _) fun _ => Transport.tcp_narrow src dst
    exact hnarrow hc h (by omega)
  · have hsctp : proto ≠ 132 := by
      rintro rfl
      have hdone : o = .done :=
        endsWalk_bind (fun _ => Transport.sctp_endsWalk src dst) c s o c₁ (congrArg Prod.fst h)
      rw [hdone] at ho
      exact ho
    refine (dispatchIpProto_stepwise hsctp src dst).narrow hc h ?_
    cases o with
    | done => exact ho.elim
    | hop _ => exact hw
    | payload p =>
        have hno := tcpless_dispatchIpProto htcp src dst c s p c₁ (congrArg Prod.fst h)
        exact absurd (hno.symm.trans ho) (by decide)

/-- A TCP payload stands twenty bytes behind the beginning of the payload of its IP packet. -/
theorem Network.dispatchIpProto_consumes {proto : UInt8} {src dst : IpAddr} {c c' : Cur} {s : Hdr}
    {p : Payload} (h : ((dispatchIpProto proto src dst).run c s).1 = .ok (.payload p, c'))
    (htcp : p.isTcp = true) : c.start + 20 ≤ c'.start := by
  by_cases hproto : proto.toNat = 6
  · unfold dispatchIpProto at h
    rw [hproto] at h
    have hconsumes : Consumes (0 + 20) (Transport.setTuple src dst 0 0 proto >>= fun _ =>
        Transport.tcp src dst) :=
      consumes_bind (consumes_zero _) fun _ => Transport.consumes_tcp src dst
    exact (hconsumes h).trans' (by omega)
  · rw [tcpless_dispatchIpProto hproto src dst c s p c' h] at htcp
    cases htcp

/-- A hop that hands on the same way to a cursor that agrees before `w`. -/
structure Taken.Like (w : ℕ) (t : Taken) (o : Onward) (c : Cur) (t' : Taken) : Prop where
  next : ∃ c', t'.next = .ok (o, c') ∧ c.Alike w c'
  hdr : t'.hdr = t.hdr
  frag : t'.frag.isSome = t.frag.isSome

section Walk

variable {w : ℕ} {c c' c₁ : Cur} {s : Hdr} {frag frag' : Option FragMeta} {o : Onward}
  {p : Payload}

/-- A link header. -/
theorem taken_alike {d : Header Onward} (hd : d.Narrow 2) (htcp : d.Tcpless) (hc : c.Alike w c')
    (hf : frag'.isSome = frag.isSome) (h : (d.taken c s frag).next = .ok (o, c₁))
    (ho : o.LeadsOn) (hw : c₁.start + o.slack ≤ w) :
    (d.taken c s frag).Like w o c₁ (d.taken c' s frag') := by
  have hslack : c₁.start + 2 ≤ w := by
    cases o with
    | done => exact ho.elim
    | hop _ => exact hw
    | payload q => exact absurd ((htcp c s q c₁ h).symm.trans ho) (by decide)
  rcases hx : d.run c s with ⟨r, s₁⟩
  have hr : r = .ok (o, c₁) := by rw [← h, Header.taken, hx]
  obtain ⟨c₁', hx', hc₁⟩ := hd hc (hx.trans (by rw [hr])) hslack
  refine ⟨⟨c₁', ?_, hc₁⟩, ?_, hf⟩
  · rw [Header.taken, hx']
  · rw [Header.taken, Header.taken, hx', hx]

/-- What stands after an IP header. -/
theorem afterIp_alike {d : Datagram} (hc : c.Alike w c') (hf : frag'.isSome = frag.isSome)
    (h : (afterIp d c s frag).next = .ok (o, c₁)) (ho : o.LeadsOn)
    (hw : c₁.start + o.slack ≤ w) :
    (afterIp d c s frag).Like w o c₁ (afterIp d c' s frag') := by
  have hfrag : ((Network.fragMeta d s c').or frag').isSome =
      ((Network.fragMeta d s c).or frag).isSome := by
    rw [Option.isSome_or, Option.isSome_or, hf]
    unfold Network.fragMeta
    dsimp only
    split <;> rfl
  unfold afterIp at h ⊢
  dsimp only at h ⊢
  split at h
  · cases h
    exact ho.elim
  · next hoff =>
    rw [if_neg hoff, if_neg hoff]
    rcases hx : (Network.dispatchIpProto d.proto d.src d.dst).run c s with ⟨r, s₁⟩
    have hr : r = .ok (o, c₁) := by rw [← h, Header.taken, hx]
    obtain ⟨c₁', hx', hc₁⟩ :=
      Network.dispatchIpProto_alike hc (hx.trans (by rw [hr])) ho hw
    refine ⟨⟨c₁', ?_, hc₁⟩, ?_, hfrag⟩
    · rw [Header.taken, hx']
    · rw [Header.taken, Header.taken, hx', hx]

/-- A TCP payload stands twenty bytes behind the end of its IP header. -/
theorem afterIp_consumes {d : Datagram} (h : (afterIp d c s frag).next = .ok (.payload p, c₁))
    (htcp : p.isTcp = true) : c.start + 20 ≤ c₁.start := by
  unfold afterIp at h
  dsimp only at h
  split at h
  · cases h
  · exact Network.dispatchIpProto_consumes h htcp

/-- An IP header, and what stands after it. -/
theorem ip_alike {header : Header Datagram} (hd : header.Narrow 2) (hc : c.Alike w c')
    (hf : frag'.isSome = frag.isSome) (h : (ip header c s frag).next = .ok (o, c₁))
    (ho : o.LeadsOn) (hw : c₁.start + o.slack ≤ w) :
    (ip header c s frag).Like w o c₁ (ip header c' s frag') := by
  unfold ip at h ⊢
  rcases hx : header.run c s with ⟨e | ⟨d, c₂⟩, s₂⟩
  · rw [hx] at h
    cases h
  · rw [hx] at h
    have hle : c₂.start + 2 ≤ w := by
      have hin := (afterIp_within h).start_le
      cases o with
      | done => exact ho.elim
      | hop _ => exact (Nat.add_le_add_right hin 2).trans hw
      | payload q =>
          have hconsumes := afterIp_consumes h ho
          exact (by omega : c₂.start + 2 ≤ c₁.start).trans hw
    obtain ⟨c₂', hx', hc₂⟩ := hd hc hx hle
    rw [hx']
    exact afterIp_alike hc₂ hf h ho hw

/-- **A hop looks two bytes further**, and at none of the TCP payload it ends at. -/
theorem hop_alike {h : Hop} (hc : c.Alike w c') (hf : frag'.isSome = frag.isSome)
    (hx : (hop h c s frag).next = .ok (o, c₁)) (ho : o.LeadsOn) (hw : c₁.start + o.slack ≤ w) :
    (hop h c s frag).Like w o c₁ (hop h c' s frag') := by
  cases h with
  | ethernet =>
      exact taken_alike Link.ethernet_aloof.stepwise.narrow Link.tcpless_ethernet hc hf hx ho hw
  | llc => exact taken_alike Link.llc_aloof.stepwise.narrow Link.tcpless_llc hc hf hx ho hw
  | vlan => exact taken_alike Link.vlan_aloof.stepwise.narrow Link.tcpless_vlan hc hf hx ho hw
  | mpls => exact taken_alike Link.mpls_aloof.stepwise.narrow Link.tcpless_mpls hc hf hx ho hw
  | pppoe => exact taken_alike Link.pppoe_aloof.stepwise.narrow Link.tcpless_pppoe hc hf hx ho hw
  | ipv4 => exact ip_alike Network.ipv4_stepwise.narrow hc hf hx ho hw
  | ipv6 => exact ip_alike Network.ipv6_stepwise.narrow hc hf hx ho hw

theorem ip_consumes {header : Header Datagram} (h : (ip header c s frag).next = .ok (.payload p, c₁))
    (htcp : p.isTcp = true) : c.start + 20 ≤ c₁.start := by
  unfold ip at h
  rcases hx : header.run c s with ⟨e | ⟨d, c₂⟩, s₂⟩
  · rw [hx] at h
    cases h
  · rw [hx] at h
    have hin := (header.within (congrArg Prod.fst hx)).start_le
    exact (Nat.add_le_add_right hin 20).trans (afterIp_consumes h htcp)

/-- A hop that ends at a TCP payload gets past a TCP header. -/
theorem hop_consumes {h : Hop} (hx : (hop h c s frag).next = .ok (.payload p, c₁))
    (htcp : p.isTcp = true) : c.start + 20 ≤ c₁.start := by
  cases h with
  | ipv4 => exact ip_consumes hx htcp
  | ipv6 => exact ip_consumes hx htcp
  | ethernet => rw [Link.tcpless_ethernet c s p c₁ hx] at htcp; cases htcp
  | llc => rw [Link.tcpless_llc c s p c₁ hx] at htcp; cases htcp
  | vlan => rw [Link.tcpless_vlan c s p c₁ hx] at htcp; cases htcp
  | mpls => rw [Link.tcpless_mpls c s p c₁ hx] at htcp; cases htcp
  | pppoe => rw [Link.tcpless_pppoe c s p c₁ hx] at htcp; cases htcp

/-! ### The walk -/

/-- What the walk goes on with. -/
theorem follow_hop_ok {n : ℕ} {h : Hop} {stop : Option (Payload × Cur)}
    (hx : (follow n (.hop h) c s frag).stop = .ok stop) :
    ∃ m o₁ c₁, n = m + 1 ∧ (hop h c s frag).next = .ok (o₁, c₁) ∧
      follow n (.hop h) c s frag = follow m o₁ c₁ (hop h c s frag).hdr (hop h c s frag).frag := by
  cases n with
  | zero => cases hx
  | succ m =>
      cases hn : (hop h c s frag).next with
      | error e =>
          simp only [follow, hn] at hx
          cases hx
      | ok r =>
          refine ⟨m, r.1, r.2, rfl, rfl, ?_⟩
          simp only [follow, hn]

/-- Where a walk goes on that ends at a TCP payload, and how far away that is. -/
theorem follow_slack {n : ℕ} (hx : (follow n o c s frag).stop = .ok (some (p, c₁)))
    (htcp : p.isTcp = true) : o.LeadsOn ∧ c.start + o.slack ≤ c₁.start := by
  have hfar : ∀ h, o = .hop h → c.start + 20 ≤ c₁.start := by
    rintro h rfl
    induction n generalizing c s frag h with
    | zero => cases hx
    | succ n ih =>
        obtain ⟨m, o₂, c₂, hm, hnext, heq⟩ := follow_hop_ok hx
        rw [heq] at hx
        obtain rfl : n = m := by omega
        cases o₂ with
        | done => cases n <;> cases hx
        | payload q =>
            have hq : q = p ∧ c₂ = c₁ := by cases n <;> cases hx <;> exact ⟨rfl, rfl⟩
            obtain ⟨rfl, rfl⟩ := hq
            exact hop_consumes hnext htcp
        | hop h₂ =>
            have hle := (hop_within hnext).1.start_le
            exact (Nat.add_le_add_right hle 20).trans (ih h₂ hx)
  cases o with
  | done => cases n <;> cases hx
  | payload q =>
      have hq : q = p ∧ c = c₁ := by cases n <;> cases hx <;> exact ⟨rfl, rfl⟩
      obtain ⟨rfl, rfl⟩ := hq
      exact ⟨htcp, le_rfl⟩
  | hop h =>
      have hlt := hfar h rfl
      exact ⟨trivial, show c.start + 2 ≤ c₁.start by omega⟩

/-- A walk that ends the same way at a cursor that agrees before `w`. -/
structure Journey.Like (w : ℕ) (j : Journey) (p : Payload) (c : Cur) (j' : Journey) : Prop where
  stop : ∃ c', j'.stop = .ok (some (p, c')) ∧ c.Alike w c'
  hdr : j'.hdr = j.hdr
  frag : j'.frag.isSome = j.frag.isSome

theorem follow_alike {n : ℕ} (hc : c.Alike c₁.start c') (hf : frag'.isSome = frag.isSome)
    (hx : (follow n o c s frag).stop = .ok (some (p, c₁))) (htcp : p.isTcp = true) :
    (follow n o c s frag).Like c₁.start p c₁ (follow n o c' s frag') := by
  induction n generalizing o c c' s frag frag' with
  | zero =>
      cases o with
      | done => cases hx
      | hop h => cases hx
      | payload q =>
          cases hx
          exact ⟨⟨c', rfl, hc⟩, rfl, hf⟩
  | succ n ih =>
      cases o with
      | done => cases hx
      | payload q =>
          cases hx
          exact ⟨⟨c', rfl, hc⟩, rfl, hf⟩
      | hop h =>
          obtain ⟨m, o₂, c₂, hm, hnext, heq⟩ := follow_hop_ok hx
          obtain rfl : n = m := by omega
          rw [heq] at hx ⊢
          obtain ⟨ho, hw⟩ := follow_slack hx htcp
          obtain ⟨⟨c₂', hnext', hc₂⟩, hhdr, hfrag⟩ := hop_alike hc hf hnext ho hw
          have heq' : follow (n + 1) (.hop h) c' s frag' =
              follow n o₂ c₂' (hop h c s frag).hdr (hop h c' s frag').frag := by
            rw [← hhdr]
            simp only [follow, hnext']
          rw [heq']
          exact ih hc₂ hfrag hx

end Walk

/-- The second frame's walk ends at a TCP payload in the same place, and has seen the same
headers. -/
structure SameWalk (o o' : Owned) (p : Payload) (c c' : Cur) : Prop where
  ends : EndsAtTcp o' p c'
  alike : c.Alike c.start c'
  hdr : (frameJourney o').hdr = (frameJourney o).hdr
  frag : (frameJourney o').frag.isSome = (frameJourney o).frag.isSome

/-- **The walk to a TCP payload does not look at the payload**, nor at what stands behind it. -/
theorem EndsAtTcp.alike {o o' : Owned} {p : Payload} {c : Cur} (h : EndsAtTcp o p c)
    (hlink : o'.linktype = o.linktype) (hiface : o'.ifaceId = o.ifaceId)
    (hlen : o'.data.length = o.data.length) (htake : o'.data.take c.start = o.data.take c.start) :
    ∃ c', SameWalk o o' p c c' := by
  have hc₀ : (Cur.new o.data).Alike c.start (Cur.new o'.data) := ⟨rfl, rfl, hlen.symm, htake.symm⟩
  suffices h' : ∃ c', ((frameJourney o').stop = .ok (some (p, c')) ∧ p.isTcp = true) ∧
      c.Alike c.start c' ∧ (frameJourney o').hdr = (frameJourney o).hdr ∧
        (frameJourney o').frag.isSome = (frameJourney o).frag.isSome by
    obtain ⟨c', hx, halike, hhdr, hfrag⟩ := h'
    exact ⟨c', hx, halike, hhdr, hfrag⟩
  obtain ⟨hstop, htcp⟩ := h
  unfold frameJourney journey at hstop ⊢
  rw [hlink, hiface]
  rcases hx : (Link.dissectLink o.linktype).run (Cur.new o.data) { ifaceId := some o.ifaceId }
    with ⟨e | ⟨o₁, c₁⟩, s₁⟩
  · rw [hx] at hstop
    cases hstop
  · rw [hx] at hstop
    obtain ⟨ho, hw⟩ := follow_slack hstop htcp
    have hslack : c₁.start + 2 ≤ c.start := by
      cases o₁ with
      | done => exact ho.elim
      | hop _ => exact hw
      | payload q =>
          have hno := Link.tcpless_dissectLink o.linktype _ _ q c₁ (congrArg Prod.fst hx)
          exact absurd (hno.symm.trans ho) (by decide)
    obtain ⟨c₁', hx', hc₁⟩ :=
      (Link.dissectLink_aloof o.linktype).stepwise.narrow hc₀ hx hslack
    obtain ⟨⟨c', hstop', hc⟩, hhdr, hfrag⟩ := follow_alike hc₁ rfl hstop htcp
    rw [hx']
    dsimp only
    rw [← hc₁.remaining]
    exact ⟨c', ⟨hstop', htcp⟩, hc, hhdr, hfrag⟩

end PcapRacer
