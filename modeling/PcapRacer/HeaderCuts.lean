/-
**Headers of a frame that was cut short.**

A capture with a snap length keeps the beginning of every frame.  A header dissector that got its
bytes from the whole frame gets the same bytes from what was kept, as long as that reaches past
them; the places where one asks how many bytes are left give the same answer too, or one that makes
no difference.  So a walk whose headers were kept comes to the same end, with less of the payload.

Main definitions:

* `Cur.Cut` — a cursor over what was kept of the bytes under another one;
* `Header.Cuts` — a dissector that does not notice, as long as its bytes were kept;
* `Header.Clippable` — dissectors built from steps of that kind;
* `arrival` — the cursor at which a walk ends;
* `Journey.StopsCut`, `Journey.Cut` — walks that differ in how much of the payload there is.

Main results:

* `Header.Clippable.cuts` — from the steps to the dissector;
* `Link.dissectLink_clippable`, `Tunnel.tryUdpTunnel_cuts`, `Network.dispatchIpProto_cuts` and the
  others — no dissector notices, but for the chunks that SCTP lists;
* `hop_cut` — **one hop over a frame that was cut short**;
* `follow_cut` — **a walk over a frame that was cut short**.
-/

import PcapRacer.HeaderSteps

set_option relaxedAutoImplicit false
set_option autoImplicit false

namespace PcapRacer

/-! ### What was kept -/

/-- The cursor `c'` has what was kept of the bytes under `c`: those before the place `w`. -/
structure Cur.Cut (w : ℕ) (c c' : Cur) : Prop where
  start : c'.start = c.start
  rest : c'.rest = c.rest.take (w - c.start)

namespace Cur.Cut

variable {w n : ℕ} {c c' : Cur}

theorem remaining (h : Cut w c c') : c'.remaining = min (w - c.start) c.remaining := by
  rw [← Cur.length_rest, h.rest, List.length_take, Cur.length_rest]

theorem remaining_le (h : Cut w c c') : c'.remaining ≤ c.remaining := by
  rw [h.remaining]
  exact Nat.min_le_right _ _

/-- Bytes before the place were kept. -/
theorem le_remaining (h : Cut w c c') (hn : n ≤ c.remaining) (hw : c.start + n ≤ w) :
    n ≤ c'.remaining := by
  rw [h.remaining]
  omega

theorem take_eq (h : Cut w c c') (hw : c.start + n ≤ w) : c'.rest.take n = c.rest.take n := by
  rw [h.rest, List.take_take, Nat.min_eq_left (by omega)]

theorem advance (h : Cut w c c') (hn : n ≤ c.remaining) (hn' : n ≤ c'.remaining) :
    Cut w (c.advance n hn) (c'.advance n hn') where
  start := by rw [start_advance, start_advance, h.start]
  rest := by rw [rest_advance, rest_advance, h.rest, List.drop_take, start_advance, Nat.sub_add_eq]

/-- A view of the next bytes. -/
theorem confine (h : Cut w c c') {v v' : Cur} (hv : v.start = c.start) (hv' : v'.start = c'.start)
    (hr : v.rest = c.rest.take n) (hr' : v'.rest = c'.rest.take n) : Cut w v v' where
  start := by rw [hv, hv', h.start]
  rest := by rw [hr, hr', h.rest, hv, List.take_take, List.take_take, Nat.min_comm]

/-- What was kept may be a view of the next bytes already. -/
theorem confined (h : Cut w c c') (hn : c'.remaining ≤ n) {v : Cur} (hv : v.start = c.start)
    (hr : v.rest = c.rest.take n) : Cut w v c' := by
  refine h.confine hv rfl hr ?_
  rw [List.take_of_length_le (by rw [length_rest]; exact hn)]

end Cur.Cut

/-! ### Dissectors that do not notice -/

namespace Header

variable {α β : Type}

/-- The dissector does the same on what was kept as on the whole, if what was kept reaches two bytes
past its own; it may have looked at those. -/
structure Cuts (d : Header α) : Prop where
  run : ∀ {w : ℕ} {c c' c₁ : Cur} {s s₁ : Hdr} {a : α}, c.Cut w c' →
    d.run c s = (.ok (a, c₁), s₁) → c₁.start + 2 ≤ w →
    ∃ c₁' : Cur, d.run c' s = (.ok (a, c₁'), s₁) ∧ c₁.Cut w c₁'

theorem cuts_pure (a : α) : (pure a : Header α).Cuts where
  run {w c c' c₁ s s₁ b} hc h _ := by
    cases h
    exact ⟨c', rfl, hc⟩

theorem cuts_fail (e : DissectError) : (fail e : Header α).Cuts where
  run _ h := nomatch h

theorem cuts_set (f : Hdr → Hdr) : (set f).Cuts where
  run {w c c' c₁ s s₁ b} hc h _ := by
    cases h
    exact ⟨c', rfl, hc⟩

/-- The first of two dissectors does not notice, and the second one goes on from there. -/
theorem Cuts.run_bind {d : Header α} (hd : d.Cuts) {f : α → Header β} {w : ℕ} {c c' c₁ : Cur}
    {s s₁ : Hdr} {b : β} (hc : c.Cut w c') (h : (d >>= f).run c s = (.ok (b, c₁), s₁))
    (hw : c₁.start + 2 ≤ w) :
    ∃ a c₂ c₂' s₂, c₂.Cut w c₂' ∧ d.run c s = (.ok (a, c₂), s₂) ∧
      d.run c' s = (.ok (a, c₂'), s₂) ∧ (f a).run c₂ s₂ = (.ok (b, c₁), s₁) := by
  rw [Header.run_bind] at h
  rcases hx : d.run c s with ⟨e | ⟨a, c₂⟩, s₂⟩
  · rw [hx] at h
    cases h
  · rw [hx] at h
    have hle : c₂.start ≤ c₁.start := ((f a).within (congrArg Prod.fst h)).start_le
    obtain ⟨c₂', hx', hc₂⟩ := hd.run hc hx (by omega)
    exact ⟨a, c₂, c₂', s₂, hc₂, rfl, hx', h⟩

theorem cuts_bind {d : Header α} {f : α → Header β} (hd : d.Cuts) (hf : ∀ a, (f a).Cuts) :
    (d >>= f).Cuts where
  run hc h hw := by
    obtain ⟨a, c₂, c₂', s₂, hc₂, -, hx', h₂⟩ := hd.run_bind hc h hw
    obtain ⟨c₁', h', hc₁⟩ := (hf a).run hc₂ h₂ hw
    refine ⟨c₁', ?_, hc₁⟩
    rw [Header.run_bind, hx']
    exact h'

/-- Two dissectors that go on alike from every result of the first one. -/
theorem run_bind_eq {d : Header α} {f g : α → Header β} {c : Cur} {s : Hdr}
    (h : ∀ a c₁ s₁, d.run c s = (.ok (a, c₁), s₁) → (f a).run c₁ s₁ = (g a).run c₁ s₁) :
    (d >>= f).run c s = (d >>= g).run c s := by
  rw [Header.run_bind, Header.run_bind]
  rcases hx : d.run c s with ⟨e | ⟨a, c₁⟩, s₁⟩
  · rfl
  · exact h a c₁ s₁ hx

/-- A read leaves fewer bytes. -/
theorem remaining_lt_of_read {r : Read α} {c c₁ : Cur} {s s₁ : Hdr} {a : α}
    (h : (read r).run c s = (.ok (a, c₁), s₁)) : c₁.remaining < c.remaining := by
  have hget : r.get c = .ok (a, c₁) := congrArg Prod.fst h
  have hadv := r.advances hget
  have hstop := (r.within hget).stop_le
  have hc := c.start_add_remaining
  have hc₁ := c₁.start_add_remaining
  dsimp only at hadv hstop
  omega

/-- Skipped bytes are gone. -/
theorem remaining_le_of_skip {n : ℕ} {c c₁ : Cur} {s s₁ : Hdr}
    (h : (skip n).run c s = (.ok ((), c₁), s₁)) : c₁.remaining + n ≤ c.remaining := by
  have htake : (take n).run c s = (c.take n, s) := rfl
  rw [skip, Header.run_bind, htake] at h
  rcases hx : c.take n with e | ⟨b, c₂⟩
  · rw [hx] at h
    cases h
  · rw [hx] at h
    cases h
    obtain ⟨hn, hadv⟩ := Cur.take_eq_ok_iff.mp hx
    have hstop := (Cur.take_within hx).stop_le
    have hstart : c₁.start = c.start + n := by
      rw [show c₁ = c.advance n hn from congrArg Prod.snd hadv, Cur.start_advance]
    have hc := c.start_add_remaining
    have hc₁ := c₁.start_add_remaining
    dsimp only at hstop ⊢
    omega

/-- **A loop with as many rounds as bytes are left** does not notice that fewer are, when such rounds
are enough. -/
theorem cuts_rounds {loop : ℕ → Header α} {f : α → Header β}
    (hloop : ∀ {c : Cur} {n : ℕ}, c.remaining < n + 1 → ∀ s : Hdr,
      (loop c.remaining).run c s = (loop n).run c s)
    (hcuts : ∀ n, (loop n).Cuts) (hf : ∀ a, (f a).Cuts) :
    (remaining >>= fun left => loop left >>= f).Cuts where
  run {w c c' c₁ s s₁ b} hc h hw := by
    have hrun : ∀ q : Cur, (remaining >>= fun left => loop left >>= f).run q s =
        (loop q.remaining >>= f).run q s := fun _ => rfl
    rw [hrun] at h
    obtain ⟨c₁', h', hc₁⟩ := (cuts_bind (hcuts c.remaining) hf).run hc h hw
    refine ⟨c₁', ?_, hc₁⟩
    rw [hrun, Header.run_bind, hloop (Nat.lt_succ_of_le hc.remaining_le)]
    exact h'

theorem cuts_ite {p : Prop} [Decidable p] {d d' : Header α} (hd : d.Cuts) (hd' : d'.Cuts) :
    (if p then d else d').Cuts := by
  split
  · exact hd
  · exact hd'

theorem cuts_look {f : Hdr → Header β} (hf : ∀ s, (f s).Cuts) : (get >>= f).Cuts where
  run {_ _ _ _ s _ _} hc h hw := (hf s).run hc h hw

theorem cuts_take (n : ℕ) : (take n).Cuts where
  run {w c c' c₁ s s₁ b} hc h hw := by
    obtain ⟨hn, heq⟩ := Cur.take_eq_ok_iff.mp (congrArg Prod.fst h)
    obtain ⟨rfl, rfl⟩ := Prod.mk.inj heq
    rw [Cur.start_advance] at hw
    have hn' : n ≤ c'.remaining := hc.le_remaining hn (by omega)
    refine ⟨c'.advance n hn', ?_, hc.advance hn hn'⟩
    have hs : s = s₁ := congrArg Prod.snd h
    rw [← hc.take_eq (n := n) (by omega), ← hs]
    exact congrArg (fun r => (r, s)) (Cur.take_of_le hn')

theorem cuts_read {r : Read α} (hr : r.IsBytes) : (read r).Cuts where
  run {w c c' c₁ s s₁ b} hc h hw := by
    obtain ⟨n, f, rfl⟩ := hr
    obtain ⟨x, hx, rfl⟩ := Cur.read_eq_ok (congrArg Prod.fst h)
    have hs : s = s₁ := congrArg Prod.snd h
    have htake : (take (n + 1)).run c s = (.ok (x, c₁), s₁) := Prod.ext hx hs
    obtain ⟨c₁', htake', hc₁⟩ := (cuts_take (n + 1)).run hc htake hw
    refine ⟨c₁', Prod.ext ?_ hs, hc₁⟩
    have hx' : c'.take (n + 1) = .ok (x, c₁') := congrArg Prod.fst htake'
    change (c'.take (n + 1)).map _ = _
    rw [hx']
    rfl

theorem cuts_tryTake (n : ℕ) : (tryTake n).Cuts where
  run {w c c' c₁ s s₁ b} hc h hw := by
    unfold tryTake at h ⊢
    dsimp only at h ⊢
    by_cases hn : n ≤ c.remaining
    · rw [Cur.take_of_le hn] at h
      cases h
      rw [Cur.start_advance] at hw
      have hn' : n ≤ c'.remaining := hc.le_remaining hn (by omega)
      rw [Cur.take_of_le hn']
      refine ⟨c'.advance n hn', ?_, hc.advance hn hn'⟩
      rw [hc.take_eq (n := n) (by omega)]
    · have hn' : ¬ n ≤ c'.remaining := fun h' => hn (h'.trans hc.remaining_le)
      have hfail : c.take n = .error .truncated := dif_neg hn
      have hfail' : c'.take n = .error .truncated := dif_neg hn'
      rw [hfail] at h
      rw [hfail']
      cases h
      exact ⟨c', rfl, hc⟩

theorem cuts_tryRead {r : Read α} (hr : r.IsBytes) : (tryRead r).Cuts where
  run {w c c' c₁ s s₁ b} hc h hw := by
    obtain ⟨n, f, rfl⟩ := hr
    have hmap : ∀ q : Cur, (Read.bytes n f).get q = (q.take (n + 1)).map fun p => (f p.1, p.2) :=
      fun _ => rfl
    unfold tryRead at h ⊢
    dsimp only at h ⊢
    rw [hmap] at h ⊢
    by_cases hn : n + 1 ≤ c.remaining
    · rw [Cur.take_of_le hn] at h
      cases h
      rw [Cur.start_advance] at hw
      have hn' : n + 1 ≤ c'.remaining := hc.le_remaining hn (by omega)
      rw [Cur.take_of_le hn']
      refine ⟨c'.advance (n + 1) hn', ?_, hc.advance hn hn'⟩
      simp only [Except.map]
      rw [hc.take_eq (n := n + 1) (by omega)]
    · have hn' : ¬ n + 1 ≤ c'.remaining := fun h' => hn (h'.trans hc.remaining_le)
      have hfail : c.take (n + 1) = .error .truncated := dif_neg hn
      have hfail' : c'.take (n + 1) = .error .truncated := dif_neg hn'
      rw [hfail] at h
      rw [hfail']
      cases h
      exact ⟨c', rfl, hc⟩

theorem cuts_peek : (peek 2).Cuts where
  run {w c c' c₁ s s₁ b} hc h hw := by
    have hrun : ∀ q : Cur, (peek 2).run q s = (.ok (q.peek 2, q), s) := fun _ => rfl
    rw [hrun] at h ⊢
    cases h
    refine ⟨c', ?_, hc⟩
    rw [Cur.peek, Cur.peek]
    by_cases hn : 2 ≤ c.remaining
    · rw [if_pos hn, if_pos (hc.le_remaining hn hw), hc.take_eq hw]
    · rw [if_neg hn, if_neg fun h' => hn (h'.trans hc.remaining_le)]

theorem cuts_peekU8 : peekU8.Cuts where
  run {w c c' c₁ s s₁ b} hc h hw := by
    have hpeek : ∀ {q : Cur} (hq : 1 ≤ q.remaining),
        q.peekU8 = .ok ((q.rest.take 1).headD 0) := by
      intro q hq
      rw [Cur.peekU8, Cur.u8_eq_read, Cur.read, Cur.take_of_le hq]
      rfl
    unfold peekU8 at h ⊢
    dsimp only at h ⊢
    by_cases hn : 1 ≤ c.remaining
    · rw [hpeek hn] at h
      cases h
      rw [hpeek (hc.le_remaining hn (by omega)), hc.take_eq (by omega)]
      exact ⟨c', rfl, hc⟩
    · rw [Cur.peekU8, Cur.u8, dif_neg hn] at h
      cases h

/-- **Confining the cursor when more is left than some bytes** leaves the same bytes in view, whether
it is confined on what was kept or that ends before. -/
theorem cuts_trim {p : Prop} [Decidable p] (n : ℕ) {f : Unit → Header β} (hf : ∀ u, (f u).Cuts) :
    (remaining >>= fun left => if p ∧ n < left then confine n >>= f else f ()).Cuts where
  run {w c c' c₁ s s₁ b} hc h hw := by
    have hrun : ∀ q : Cur, (remaining >>= fun left =>
        if p ∧ n < left then confine n >>= f else f ()).run q s =
          if p ∧ n < q.remaining then (confine n >>= f).run q s else (f ()).run q s := by
      intro q
      rw [run_bind]
      change (if p ∧ n < q.remaining then confine n >>= f else f ()).run q s = _
      split <;> rfl
    have hconfine : ∀ {q : Cur} (hq : n ≤ q.remaining), ∃ v : Cur, v.start = q.start ∧
        v.rest = q.rest.take n ∧ (confine n >>= f).run q s = (f ()).run v s := by
      intro q hq
      refine ⟨{ base := q.start, data := q.rest.take n, pos := 0, pos_le := Nat.zero_le _ },
        Nat.add_zero _, List.drop_zero, ?_⟩
      have hsub : (confine n).run q s = ((q.sub n).map fun p => ((), p.1), s) := rfl
      rw [run_bind, hsub, Cur.sub, dif_pos hq]
      rfl
    rw [hrun] at h ⊢
    by_cases hp : p ∧ n < c.remaining
    · rw [if_pos hp] at h
      obtain ⟨v, hv, hr, heq⟩ := hconfine hp.2.le
      rw [heq] at h
      by_cases hp' : p ∧ n < c'.remaining
      · obtain ⟨v', hv', hr', heq'⟩ := hconfine hp'.2.le
        rw [if_pos hp', heq']
        exact (hf ()).run (hc.confine hv hv' hr hr') h hw
      · have hle : c'.remaining ≤ n := Nat.le_of_not_lt fun hlt => hp' ⟨hp.1, hlt⟩
        rw [if_neg hp']
        exact (hf ()).run (hc.confined hle hv hr) h hw
    · rw [if_neg hp] at h
      rw [if_neg fun hp' => hp ⟨hp'.1, hp'.2.trans_le hc.remaining_le⟩]
      exact (hf ()).run hc h hw

/-- **Taking some bytes when they are there**: they are there in what was kept, or nowhere. -/
theorem cuts_fits {p : Prop} [Decidable p] (n : ℕ) {f : Bytes → Header β} {d : Header β}
    (hf : ∀ b, (f b).Cuts) (hd : d.Cuts) :
    (remaining >>= fun left => if p ∧ n ≤ left then take n >>= f else d).Cuts where
  run {w c c' c₁ s s₁ b} hc h hw := by
    have hrun : ∀ q : Cur, (remaining >>= fun left =>
        if p ∧ n ≤ left then take n >>= f else d).run q s =
          if p ∧ n ≤ q.remaining then (take n >>= f).run q s else d.run q s := by
      intro q
      rw [run_bind]
      change (if p ∧ n ≤ q.remaining then take n >>= f else d).run q s = _
      split <;> rfl
    rw [hrun] at h ⊢
    by_cases hp : p ∧ n ≤ c.remaining
    · rw [if_pos hp] at h
      have hpast : c.start + n ≤ c₁.start := by
        have htake : (take n).run c s = (.ok (c.rest.take n, c.advance n hp.2), s) :=
          congrArg (fun r => (r, s)) (Cur.take_of_le hp.2)
        rw [run_bind, htake] at h
        have hle := ((f _).within (congrArg Prod.fst h)).start_le
        rwa [Cur.start_advance] at hle
      rw [if_pos ⟨hp.1, hc.le_remaining hp.2 (by omega)⟩]
      exact (cuts_bind (cuts_take n) hf).run hc h hw
    · rw [if_neg hp] at h
      rw [if_neg fun hp' => hp ⟨hp'.1, hp'.2.trans hc.remaining_le⟩]
      exact hd.run hc h hw

theorem cuts_enter (kind : Layer) : (Tunnel.enter kind).Cuts := by
  have hdescend : Tunnel.descend.Cuts := by
    refine ⟨fun {w c c' c₁ s s₁ b} hc h _ => ?_⟩
    rw [Tunnel.descend_run] at h ⊢
    split at h
    · cases h
    · next hlt =>
      rw [if_neg hlt]
      cases h
      exact ⟨c', rfl, hc⟩
  unfold Tunnel.enter
  refine cuts_bind hdescend fun _ => cuts_bind (cuts_set _) fun _ => ?_
  exact cuts_bind (cuts_set _) fun _ => cuts_set _

/-- The dissector is built from steps that do not notice. -/
inductive Clippable : {α : Type} → Header α → Prop
  | pure {α : Type} (a : α) : Clippable (pure a)
  | fail {α : Type} (e : DissectError) : Clippable (fail e : Header α)
  | read {α : Type} {r : Read α} (hr : r.IsBytes) : Clippable (read r)
  | tryRead {α : Type} {r : Read α} (hr : r.IsBytes) : Clippable (tryRead r)
  | take (n : ℕ) : Clippable (take n)
  | tryTake (n : ℕ) : Clippable (tryTake n)
  | skip (n : ℕ) : Clippable (skip n)
  | trySkip (n : ℕ) : Clippable (trySkip n)
  | peek : Clippable (peek 2)
  | peekU8 : Clippable peekU8
  | layer (l : Layer) : Clippable (layer l)
  | iface (i : UInt32) : Clippable (set fun s => { s with ifaceId := some i })
  | link (f : LinkCols → LinkCols) : Clippable (link f)
  | net (f : NetCols → NetCols) : Clippable (net f)
  | transport (f : TransportCols → TransportCols) : Clippable (transport f)
  | tunnel (f : TunnelCols → TunnelCols) : Clippable (tunnel f)
  | setTuple (src dst : IpAddr) (sport dport : UInt16) (proto : UInt8) :
      Clippable (Transport.setTuple src dst sport dport proto)
  | enter (kind : Layer) : Clippable (Tunnel.enter kind)
  | look {β : Type} {f : Hdr → Header β} (hf : ∀ s, Clippable (f s)) : Clippable (get >>= f)
  | trim {β : Type} {p : Prop} [Decidable p] (n : ℕ) {f : Unit → Header β}
      (hf : ∀ u, Clippable (f u)) :
      Clippable (remaining >>= fun left => if p ∧ n < left then confine n >>= f else f ())
  | fits {β : Type} {p : Prop} [Decidable p] (n : ℕ) {f : Bytes → Header β} {d : Header β}
      (hf : ∀ b, Clippable (f b)) (hd : Clippable d) :
      Clippable (remaining >>= fun left => if p ∧ n ≤ left then Header.take n >>= f else d)
  | ite {α : Type} {p : Prop} [Decidable p] {d d' : Header α} (hd : Clippable d)
      (hd' : Clippable d') : Clippable (if p then d else d')
  | bind {α β : Type} {d : Header α} {f : α → Header β} (hd : Clippable d)
      (hf : ∀ a, Clippable (f a)) : Clippable (d >>= f)

/-- **Dissectors built from such steps do not notice.** -/
theorem Clippable.cuts {d : Header α} (h : d.Clippable) : d.Cuts := by
  induction h with
  | pure a => exact cuts_pure a
  | fail e => exact cuts_fail e
  | read hr => exact cuts_read hr
  | tryRead hr => exact cuts_tryRead hr
  | take n => exact cuts_take n
  | tryTake n => exact cuts_tryTake n
  | skip n => exact cuts_bind (cuts_take n) fun _ => cuts_pure _
  | trySkip n => exact cuts_bind (cuts_tryTake n) fun _ => cuts_pure _
  | peek => exact cuts_peek
  | peekU8 => exact cuts_peekU8
  | layer l => exact cuts_set _
  | iface i => exact cuts_set _
  | link f => exact cuts_set _
  | net f => exact cuts_set _
  | transport f => exact cuts_set _
  | tunnel f => exact cuts_set _
  | setTuple src dst sport dport proto => exact cuts_set _
  | enter kind => exact cuts_enter kind
  | look _ ih => exact cuts_look ih
  | trim n _ ih => exact cuts_trim n ih
  | fits n _ _ ihf ihd => exact cuts_fits n ihf ihd
  | ite _ _ ih ih' => exact cuts_ite ih ih'
  | bind _ _ ih ihf => exact cuts_bind ih ihf

end Header

open Header (Clippable Cuts)

/-! ### The link layer -/

namespace Link

theorem arp_clippable : arp.Clippable := by
  unfold arp
  repeat' first
    | exact Read.isBytes_bytes _ _ | intro _
    | with_reducible constructor

theorem ethertypePayload_clippable (ethertype : UInt16) : (ethertypePayload ethertype).Clippable := by
  unfold ethertypePayload
  repeat' first
    | intro _
    | with_reducible first | exact arp_clippable | constructor
    | split

theorem typeOrLength_clippable (ethertype : UInt16) : (typeOrLength ethertype).Clippable :=
  .ite (.pure _) (ethertypePayload_clippable _)

theorem rawIp_clippable : rawIp.Clippable := by
  refine .bind .peekU8 fun b => ?_
  repeat' first
    | with_reducible constructor
    | split

theorem pppPayload_clippable (proto : UInt16) : (pppPayload proto).Clippable := by
  unfold pppPayload
  repeat' first
    | with_reducible constructor
    | split

theorem ethernet_clippable : ethernet.Clippable := by
  unfold ethernet
  repeat' first
    | exact Read.isBytes_bytes _ _ | intro _
    | with_reducible first | exact typeOrLength_clippable _ | constructor

theorem vlan_clippable : vlan.Clippable := by
  unfold vlan
  repeat' first
    | exact Read.isBytes_bytes _ _ | intro _
    | with_reducible first | exact typeOrLength_clippable _ | constructor

theorem mplsLabel_clippable (w : UInt32) : (mplsLabel w).Clippable :=
  .look fun _ => .ite (.link _) (.pure _)

theorem mplsLabels_clippable (rounds : ℕ) : (mplsLabels rounds).Clippable := by
  induction rounds with
  | zero => exact .fail _
  | succ rounds ih =>
      refine .bind (.read (Read.isBytes_bytes _ _)) fun w => .bind (mplsLabel_clippable w) fun _ => ?_
      exact .ite (.pure _) ih

/-- Rounds enough for the bytes that are left are rounds enough. -/
theorem mplsLabels_rounds {n m : ℕ} {c : Cur} (s : Hdr) (hn : c.remaining < n)
    (hm : c.remaining < m) : (mplsLabels n).run c s = (mplsLabels m).run c s := by
  induction n generalizing m c s with
  | zero => exact absurd hn (Nat.not_lt_zero _)
  | succ n ih =>
      cases m with
      | zero => exact absurd hm (Nat.not_lt_zero _)
      | succ m =>
          refine Header.run_bind_eq fun w c₂ s₂ hread => Header.run_bind_eq fun _ c₃ s₃ hlabel => ?_
          have hlt := Header.remaining_lt_of_read hread
          have hle := ((mplsLabel w).within (congrArg Prod.fst hlabel)).remaining_le
          dsimp only at hle
          split
          · rfl
          · exact ih s₃ (by omega) (by omega)

theorem mpls_cuts : mpls.Cuts := by
  unfold mpls
  refine Header.cuts_bind (Header.cuts_set _) fun _ => ?_
  refine Header.cuts_bind (Header.cuts_read (Read.isBytes_bytes _ _)) fun b => ?_
  refine Header.cuts_bind (mplsLabel_clippable b).cuts fun _ => ?_
  refine Header.cuts_ite ?_ rawIp_clippable.cuts
  exact Header.cuts_rounds (fun hlt s => mplsLabels_rounds s (Nat.lt_succ_self _) (by omega))
    (fun n => (mplsLabels_clippable (n + 1)).cuts) fun _ => rawIp_clippable.cuts

theorem pppoe_clippable : pppoe.Clippable := by
  unfold pppoe
  repeat' first
    | exact Read.isBytes_bytes _ _ | intro _
    | with_reducible first | exact pppPayload_clippable _ | constructor

theorem llc_clippable : llc.Clippable := by
  unfold llc
  repeat' first
    | exact Read.isBytes_bytes _ _ | intro _
    | with_reducible first | exact ethertypePayload_clippable _ | constructor

theorem linuxSll_clippable : linuxSll.Clippable := by
  unfold linuxSll
  repeat' first
    | exact Read.isBytes_bytes _ _ | intro _
    | with_reducible first | exact ethertypePayload_clippable _ | constructor

theorem linuxSll2_clippable : linuxSll2.Clippable := by
  unfold linuxSll2
  repeat' first
    | exact Read.isBytes_bytes _ _ | intro _
    | with_reducible first | exact ethertypePayload_clippable _ | constructor

theorem wlanSsid_clippable : wlanSsid.Clippable := by
  unfold wlanSsid
  repeat' first
    | exact Read.isBytes_bytes _ _ | intro _
    | with_reducible constructor
    | split

theorem ieee80211_clippable : ieee80211.Clippable := by
  unfold ieee80211
  repeat' first
    | exact Read.isBytes_bytes _ _ | intro _
    | with_reducible first | exact wlanSsid_clippable | constructor

theorem radiotap_clippable : radiotap.Clippable := by
  unfold radiotap
  repeat' first
    | exact Read.isBytes_bytes _ _ | intro _
    | with_reducible first | exact ieee80211_clippable | constructor

theorem loopback_clippable : loopback.Clippable := by
  unfold loopback
  refine .bind (.read (Read.isBytes_bytes _ _)) fun af => .bind (.layer _) fun _ => ?_
  split
  all_goals with_reducible constructor

theorem ppp_clippable : ppp.Clippable := by
  unfold ppp
  repeat' first
    | exact Read.isBytes_bytes _ _ | intro _
    | with_reducible first | exact pppPayload_clippable _ | constructor

theorem dissectLink_clippable (linktype : UInt16) : (dissectLink linktype).Clippable := by
  unfold dissectLink
  split
  case h_1 => exact .pure _
  all_goals with_reducible first
    | exact rawIp_clippable | exact loopback_clippable | exact linuxSll_clippable
    | exact linuxSll2_clippable | exact ppp_clippable | exact ieee80211_clippable
    | exact radiotap_clippable | exact .fail _

end Link

/-! ### Tunnels -/

namespace Tunnel

theorem erspan_clippable (proto : UInt16) : (erspan proto).Clippable := by
  unfold erspan
  repeat' first
    | exact Read.isBytes_bytes _ _ | intro _
    | with_reducible constructor

theorem gre_clippable : gre.Clippable := by
  unfold gre
  repeat' first
    | exact Read.isBytes_bytes _ _ | intro _
    | with_reducible first | exact erspan_clippable _ | constructor
    | split

theorem vxlan_clippable : vxlan.Clippable := by
  unfold vxlan
  repeat' first
    | exact Read.isBytes_bytes _ _ | intro _
    | with_reducible constructor

theorem geneve_clippable : geneve.Clippable := by
  unfold geneve
  repeat' first
    | exact Read.isBytes_bytes _ _ | intro _
    | with_reducible constructor
    | split

theorem gtpExtensions_clippable (guard : ℕ) (next : UInt8) :
    (gtpExtensions guard next).Clippable := by
  induction guard generalizing next with
  | zero =>
      unfold gtpExtensions
      exact .ite (.pure _) (.fail _)
  | succ guard ih =>
      unfold gtpExtensions
      repeat' first
        | exact Read.isBytes_bytes _ _ | intro _ | exact ih _
        | with_reducible constructor

theorem gtp_clippable : gtp.Clippable := by
  unfold gtp
  repeat' first
    | exact Read.isBytes_bytes _ _ | intro _
    | with_reducible first
        | exact gtpExtensions_clippable _ _ | exact Link.rawIp_clippable | constructor

theorem l2tp_clippable : l2tp.Clippable := by
  unfold l2tp
  repeat' first
    | exact Read.isBytes_bytes _ _ | intro _
    | with_reducible first | exact Link.pppPayload_clippable _ | constructor

/-- With nothing left there are no indicators. -/
theorem teredoIndicators_of_nothing {c : Cur} (hc : c.remaining = 0) (n : ℕ) (s : Hdr) :
    (teredoIndicators n).run c s = (.ok ((), c), s) := by
  cases n with
  | zero => rfl
  | succ n =>
      have hpeek : (Header.peek 2).run c s = (.ok (none, c), s) := by
        change (Except.ok (c.peek 2, c), s) = _
        rw [Cur.peek, if_neg (by omega)]
      rw [teredoIndicators, Header.run_bind, hpeek]
      rfl

/-- Rounds enough for the bytes that are left are rounds enough. -/
theorem teredoIndicators_rounds {n m : ℕ} {c : Cur} (s : Hdr) (hn : c.remaining ≤ n)
    (hm : c.remaining ≤ m) : (teredoIndicators n).run c s = (teredoIndicators m).run c s := by
  induction n generalizing m c s with
  | zero =>
      have hnothing : c.remaining = 0 := Nat.le_zero.mp hn
      rw [teredoIndicators_of_nothing hnothing, teredoIndicators_of_nothing hnothing]
  | succ n ih =>
      cases m with
      | zero =>
          have hnothing : c.remaining = 0 := Nat.le_zero.mp hm
          rw [teredoIndicators_of_nothing hnothing, teredoIndicators_of_nothing hnothing]
      | succ m =>
          refine Header.run_bind_eq fun head c₁ s₁ hpeek => ?_
          have hc₁ : c₁ = c := by
            cases hpeek
            rfl
          subst hc₁
          split
          · refine Header.run_bind_eq fun _ c₂ s₂ hskip => ?_
            have hle := Header.remaining_le_of_skip hskip
            refine Header.run_bind_eq fun idLen c₃ s₃ hid => ?_
            have hlt := Header.remaining_lt_of_read hid
            refine Header.run_bind_eq fun auLen c₄ s₄ hau => ?_
            have hlt' := Header.remaining_lt_of_read hau
            refine Header.run_bind_eq fun _ c₅ s₅ hrest => ?_
            have hle' := Header.remaining_le_of_skip hrest
            exact ih s₅ (by omega) (by omega)
          · refine Header.run_bind_eq fun _ c₂ s₂ hskip => ?_
            have hle := Header.remaining_le_of_skip hskip
            exact ih s₂ (by omega) (by omega)
          · rfl

theorem teredoIndicators_clippable (rounds : ℕ) : (teredoIndicators rounds).Clippable := by
  induction rounds with
  | zero => exact .pure _
  | succ rounds ih =>
      refine .bind .peek fun head => ?_
      split
      all_goals repeat' first
        | exact Read.isBytes_bytes _ _ | intro _ | exact ih
        | with_reducible constructor

theorem teredo_cuts : teredo.Cuts := by
  unfold teredo
  refine Header.cuts_rounds (fun hlt s => teredoIndicators_rounds s (Nat.le_refl _) (by omega))
    (fun n => (teredoIndicators_clippable n).cuts) fun _ => Clippable.cuts ?_
  repeat' first
    | intro _
    | with_reducible constructor

theorem tryUdpTunnel_cuts {sport dport : UInt16} {d : Header Onward}
    (h : tryUdpTunnel sport dport = some d) : d.Cuts := by
  unfold tryUdpTunnel at h
  repeat' split at h
  all_goals cases h
  · exact vxlan_clippable.cuts
  · exact geneve_clippable.cuts
  · exact gtp_clippable.cuts
  · exact l2tp_clippable.cuts
  · exact teredo_cuts

end Tunnel

/-! ### Transport and network -/

namespace Transport

theorem tcp_clippable (src dst : IpAddr) : (tcp src dst).Clippable := by
  unfold tcp
  repeat' first
    | exact Read.isBytes_bytes _ _ | intro _
    | with_reducible constructor

theorem udpPayload_cuts (sport dport : UInt16) : (udpPayload sport dport).Cuts := by
  unfold udpPayload
  split
  · next d h => exact Tunnel.tryUdpTunnel_cuts h
  · exact Header.cuts_pure _

theorem udp_cuts (src dst : IpAddr) (proto : UInt8) : (udp src dst proto).Cuts := by
  unfold udp
  refine Header.cuts_bind (Header.cuts_set _) fun _ => ?_
  iterate 4 refine Header.cuts_bind (Header.cuts_read (Read.isBytes_bytes _ _)) fun _ => ?_
  refine Header.cuts_bind (Header.cuts_set _) fun _ => Header.cuts_bind (Header.cuts_set _) fun _ => ?_
  exact Header.cuts_trim _ fun _ => udpPayload_cuts _ _

end Transport

namespace Network

theorem ipv4_clippable : ipv4.Clippable := by
  unfold ipv4
  repeat' first
    | exact Read.isBytes_bytes _ _ | intro _
    | with_reducible constructor

theorem extensionChain_clippable (guard : ℕ) (chain : ExtChain) :
    (extensionChain guard chain).Clippable := by
  induction guard generalizing chain with
  | zero => exact .fail _
  | succ guard ih =>
      unfold extensionChain
      split
      all_goals repeat' first
        | exact Read.isBytes_bytes _ _ | intro _ | exact ih _
        | with_reducible constructor

theorem ipv6_clippable : ipv6.Clippable := by
  unfold ipv6
  repeat' first
    | exact Read.isBytes_bytes _ _ | intro _
    | with_reducible first | exact extensionChain_clippable _ _ | constructor

theorem icmpEcho_clippable : icmpEcho.Clippable := by
  unfold icmpEcho
  repeat' first
    | exact Read.isBytes_bytes _ _ | intro _
    | with_reducible constructor

theorem icmp_clippable : icmp.Clippable := by
  unfold icmp
  repeat' first
    | exact Read.isBytes_bytes _ _ | intro _
    | with_reducible first | exact icmpEcho_clippable | constructor

theorem ndOption_clippable : ndOption.Clippable := by
  unfold ndOption
  repeat' first
    | exact Read.isBytes_bytes _ _ | intro _
    | with_reducible constructor
    | split

theorem icmpv6_clippable : icmpv6.Clippable := by
  unfold icmpv6
  repeat' first
    | exact Read.isBytes_bytes _ _ | intro _
    | with_reducible first | exact icmpEcho_clippable | exact ndOption_clippable | constructor

theorem igmp_clippable : igmp.Clippable := by
  unfold igmp
  repeat' first
    | exact Read.isBytes_bytes _ _ | intro _
    | with_reducible constructor

theorem esp_clippable : esp.Clippable := by
  unfold esp
  repeat' first
    | exact Read.isBytes_bytes _ _ | intro _
    | with_reducible constructor

/-- No transport notices but SCTP, which lists the chunks it finds. -/
theorem dispatchIpProto_cuts {proto : UInt8} (hproto : proto ≠ 132) (src dst : IpAddr) :
    (dispatchIpProto proto src dst).Cuts := by
  unfold dispatchIpProto
  refine Header.cuts_bind (Header.cuts_set _) fun _ => ?_
  split
  case h_4 h132 => exact absurd (UInt8.toNat_inj.mp h132) hproto
  · exact (Transport.tcp_clippable src dst).cuts
  · exact Transport.udp_cuts src dst proto
  · exact Transport.udp_cuts src dst proto
  · exact icmp_clippable.cuts
  · exact icmpv6_clippable.cuts
  · exact igmp_clippable.cuts
  · exact Tunnel.gre_clippable.cuts
  · exact Header.cuts_bind (Header.cuts_enter _) fun _ => Header.cuts_pure _
  · exact Header.cuts_bind (Header.cuts_enter _) fun _ => Header.cuts_pure _
  · exact esp_clippable.cuts
  · exact Header.cuts_bind (Header.cuts_set _) fun _ => Header.cuts_pure _
  · exact Header.cuts_bind (Header.cuts_set _) fun _ => Header.cuts_pure _
  · exact Header.cuts_bind (Header.cuts_set _) fun _ => Header.cuts_pure _
  · exact Header.cuts_fail _

end Network

/-! ### The chunks of SCTP -/

/-- The transport columns but for the chunks that SCTP lists. -/
def TransportCols.sansChunks (t : TransportCols) : TransportCols :=
  { t with sctpChunkTypes := none, sctpNumChunks := none }

/-- The state but for these. -/
def Hdr.sansChunks (s : Hdr) : Hdr := { s with transport := s.transport.sansChunks }

/-- The dissector does the same on what was kept as on the whole, but for the chunks that it lists when
it is the last one. -/
structure Header.CutsLast (d : Header Onward) : Prop where
  run : ∀ {w : ℕ} {c c' c₁ : Cur} {s s₁ : Hdr} {o : Onward}, c.Cut w c' →
    d.run c s = (.ok (o, c₁), s₁) → c₁.start + 2 ≤ w →
    ∃ (c₁' : Cur) (s₁' : Hdr), d.run c' s = (.ok (o, c₁'), s₁') ∧ c₁.Cut w c₁' ∧
      s₁'.sansChunks = s₁.sansChunks ∧ (o ≠ .done → s₁' = s₁)

theorem Header.Cuts.last {d : Header Onward} (hd : d.Cuts) : d.CutsLast where
  run hc h hw := by
    obtain ⟨c₁', h', hc₁⟩ := hd.run hc h hw
    exact ⟨c₁', _, h', hc₁, rfl, fun _ => rfl⟩

theorem Header.cutsLast_bind {α : Type} {d : Header α} {f : α → Header Onward} (hd : d.Cuts)
    (hf : ∀ a, (f a).CutsLast) : (d >>= f).CutsLast where
  run hc h hw := by
    obtain ⟨a, c₂, c₂', s₂, hc₂, -, hx', h₂⟩ := hd.run_bind hc h hw
    obtain ⟨c₁', s₁', h', hc₁, hs⟩ := (hf a).run hc₂ h₂ hw
    refine ⟨c₁', s₁', ?_, hc₁, hs⟩
    rw [Header.run_bind, hx']
    exact h'

theorem Transport.sctp_cutsLast (src dst : IpAddr) : (sctp src dst).CutsLast := by
  unfold sctp
  refine Header.cutsLast_bind (Header.cuts_set _) fun _ => ?_
  iterate 4 refine Header.cutsLast_bind (Header.cuts_read (Read.isBytes_bytes _ _)) fun _ => ?_
  refine Header.cutsLast_bind (Header.cuts_set _) fun _ => ?_
  refine Header.cutsLast_bind (Header.cuts_set _) fun _ => ⟨fun {w c c' c₁ s s₁ o} hc h hw => ?_⟩
  have hlast : ∀ (q : Cur), ∃ t : Hdr, t.sansChunks = s.sansChunks ∧
      (Header.cursor >>= fun c => if chunkTypes 64 c ≠ [] then
        Header.transport (fun t => { t with
          sctpChunkTypes := some (Text.join [','] (chunkTypes 64 c)),
          sctpNumChunks := some (UInt16.ofNat (chunkTypes 64 c).length) }) >>= fun _ =>
            pure Onward.done
        else pure Onward.done).run q s = (.ok (.done, q), t) := by
    intro q
    rw [Header.run_bind]
    dsimp only [Header.cursor]
    split
    · refine ⟨_, ?_, rfl⟩
      rfl
    · exact ⟨s, rfl, rfl⟩
  obtain ⟨t, ht, hrun⟩ := hlast c
  obtain ⟨t', ht', hrun'⟩ := hlast c'
  cases hrun.symm.trans h
  exact ⟨c', t', hrun', hc, ht'.trans ht.symm, fun hne => absurd rfl hne⟩

/-! ### Hops -/

theorem Network.dispatchIpProto_cutsLast (proto : UInt8) (src dst : IpAddr) :
    (dispatchIpProto proto src dst).CutsLast := by
  by_cases hproto : proto = 132
  · subst hproto
    exact Header.cutsLast_bind (Header.cuts_set _) fun _ => Transport.sctp_cutsLast src dst
  · exact (dispatchIpProto_cuts hproto src dst).last

/-- One hop over a frame, and the same hop over what was kept of it. -/
structure Taken.Cut (w : ℕ) (t t' : Taken) (o : Onward) (c : Cur) : Prop where
  next : ∃ c', t'.next = .ok (o, c') ∧ c.Cut w c'
  hdr : t'.hdr.sansChunks = t.hdr.sansChunks
  onward : o ≠ .done → t'.hdr = t.hdr
  frag : t'.frag.isSome = t.frag.isSome

section Hops

variable {w : ℕ} {c c' c₁ : Cur} {s : Hdr} {frag frag' : Option FragMeta} {o : Onward}

theorem taken_cut {d : Header Onward} (hd : d.CutsLast) (hc : c.Cut w c')
    (hfrag : frag'.isSome = frag.isSome) (h : (d.taken c s frag).next = .ok (o, c₁))
    (hw : c₁.start + 2 ≤ w) : (d.taken c s frag).Cut w (d.taken c' s frag') o c₁ := by
  have hrun : d.run c s = (.ok (o, c₁), (d.run c s).2) := Prod.ext h rfl
  obtain ⟨c₁', s₁', hrun', hc₁, hchunks, hsame⟩ := hd.run hc hrun hw
  refine ⟨⟨c₁', congrArg Prod.fst hrun', hc₁⟩, ?_, fun ho => ?_, hfrag⟩
  · exact (congrArg (fun r => r.2.sansChunks) hrun').trans hchunks
  · rw [Header.taken, Header.taken, ← hsame ho, hrun']

/-- Whether a fragment is recorded is told by the headers. -/
theorem isSome_fragMeta (d : Datagram) (s : Hdr) (c c' : Cur) :
    (Network.fragMeta d s c').isSome = (Network.fragMeta d s c).isSome := by
  unfold Network.fragMeta
  dsimp only
  split <;> rfl

theorem afterIp_cut (d : Datagram) (hc : c.Cut w c') (hfrag : frag'.isSome = frag.isSome)
    (h : (afterIp d c s frag).next = .ok (o, c₁)) (hw : c₁.start + 2 ≤ w) :
    (afterIp d c s frag).Cut w (afterIp d c' s frag') o c₁ := by
  have hor : ((Network.fragMeta d s c').or frag').isSome =
      ((Network.fragMeta d s c).or frag).isSome := by
    rw [Option.isSome_or, Option.isSome_or, isSome_fragMeta d s c c', hfrag]
  unfold afterIp at h ⊢
  dsimp only at h ⊢
  split at h
  · next hoff =>
      rw [if_pos hoff, if_pos hoff]
      cases h
      exact ⟨⟨c', rfl, hc⟩, rfl, fun _ => rfl, hor⟩
  · next hoff =>
      rw [if_neg hoff, if_neg hoff]
      exact taken_cut (Network.dispatchIpProto_cutsLast _ _ _) hc hor h hw

theorem ip_cut {header : Header Datagram} (hd : header.Cuts) (hc : c.Cut w c')
    (hfrag : frag'.isSome = frag.isSome) (h : (ip header c s frag).next = .ok (o, c₁))
    (hw : c₁.start + 2 ≤ w) : (ip header c s frag).Cut w (ip header c' s frag') o c₁ := by
  unfold ip at h ⊢
  rcases hx : header.run c s with ⟨e | ⟨d, c₂⟩, s₂⟩
  · rw [hx] at h
    cases h
  · rw [hx] at h
    have hle : c₂.start ≤ c₁.start := (afterIp_within h).start_le
    obtain ⟨c₂', hx', hc₂⟩ := hd.run hc hx (by omega)
    rw [hx']
    exact afterIp_cut d hc₂ hfrag h hw

/-- **One hop over a frame that was cut short** is the hop over the whole frame. -/
theorem hop_cut (h : Hop) (hc : c.Cut w c') (hfrag : frag'.isSome = frag.isSome)
    (hnext : (hop h c s frag).next = .ok (o, c₁)) (hw : c₁.start + 2 ≤ w) :
    (hop h c s frag).Cut w (hop h c' s frag') o c₁ := by
  cases h with
  | ethernet => exact taken_cut Link.ethernet_clippable.cuts.last hc hfrag hnext hw
  | llc => exact taken_cut Link.llc_clippable.cuts.last hc hfrag hnext hw
  | vlan => exact taken_cut Link.vlan_clippable.cuts.last hc hfrag hnext hw
  | mpls => exact taken_cut Link.mpls_cuts.last hc hfrag hnext hw
  | pppoe => exact taken_cut Link.pppoe_clippable.cuts.last hc hfrag hnext hw
  | ipv4 => exact ip_cut Network.ipv4_clippable.cuts hc hfrag hnext hw
  | ipv6 => exact ip_cut Network.ipv6_clippable.cuts hc hfrag hnext hw

end Hops

/-! ### Walks -/

/-- The cursor at which a walk ends that meets with no error. -/
def arrival : ℕ → Onward → Cur → Hdr → Option FragMeta → Option Cur
  | _, .done, c, _, _ => some c
  | _, .payload _, c, _, _ => some c
  | 0, .hop _, _, _, _ => none
  | rounds + 1, .hop h, c, s, frag =>
      match (hop h c s frag).next with
      | .error _ => none
      | .ok (o, c') => arrival rounds o c' (hop h c s frag).hdr (hop h c s frag).frag

/-- A walk ends behind the cursor it started from. -/
theorem start_le_of_arrival {rounds : ℕ} {o : Onward} {c c₁ : Cur} {s : Hdr}
    {frag : Option FragMeta} (h : arrival rounds o c s frag = some c₁) : c.start ≤ c₁.start := by
  induction rounds generalizing o c s frag with
  | zero =>
      cases o with
      | done => cases h; exact Nat.le_refl _
      | payload p => cases h; exact Nat.le_refl _
      | hop _ => cases h
  | succ rounds ih =>
      cases o with
      | done => cases h; exact Nat.le_refl _
      | payload p => cases h; exact Nat.le_refl _
      | hop hp =>
          rw [arrival] at h
          cases hx : (hop hp c s frag).next with
          | error e =>
              rw [hx] at h
              cases h
          | ok r =>
              rw [hx] at h
              exact (hop_within hx).2.le.trans (ih h)

/-- Both walks end with nothing left, or both at a transport payload, of which one may have less. -/
inductive Journey.StopsCut (w : ℕ) : Except DissectError (Option (Payload × Cur)) →
    Except DissectError (Option (Payload × Cur)) → Prop
  | nothing : StopsCut w (.ok none) (.ok none)
  | payload {p : Payload} {c c' : Cur} (hc : c.Cut w c') :
      StopsCut w (.ok (some (p, c))) (.ok (some (p, c')))

/-- A walk over a frame, and the walk over what was kept of it. -/
structure Journey.Cut (w : ℕ) (j j' : Journey) : Prop where
  stop : Journey.StopsCut w j.stop j'.stop
  hdr : j'.hdr.sansChunks = j.hdr.sansChunks
  frag : j'.frag.isSome = j.frag.isSome

/-- **A walk over a frame that was cut short** behind its headers is the walk over the whole frame, but
for how much there is of the payload. -/
theorem follow_cut {w rounds : ℕ} {o : Onward} {c c' c₁ : Cur} {s s' : Hdr}
    {frag frag' : Option FragMeta} (hc : c.Cut w c') (hchunks : s'.sansChunks = s.sansChunks)
    (hs : o ≠ .done → s' = s) (hfrag : frag'.isSome = frag.isSome)
    (h : arrival rounds o c s frag = some c₁) (hw : c₁.start + 2 ≤ w) :
    (follow rounds o c s frag).Cut w (follow rounds o c' s' frag') := by
  induction rounds generalizing o c c' s s' frag frag' with
  | zero =>
      cases o with
      | done => exact ⟨.nothing, hchunks, hfrag⟩
      | payload p => exact ⟨.payload hc, hchunks, hfrag⟩
      | hop _ => cases h
  | succ rounds ih =>
      cases o with
      | done => exact ⟨.nothing, hchunks, hfrag⟩
      | payload p => exact ⟨.payload hc, hchunks, hfrag⟩
      | hop hp =>
          obtain rfl := hs Onward.noConfusion
          rw [arrival] at h
          cases hx : (hop hp c s' frag).next with
          | error e =>
              rw [hx] at h
              cases h
          | ok r =>
              rw [hx] at h
              have hle := start_le_of_arrival h
              have hcut := hop_cut hp hc hfrag hx (by omega)
              obtain ⟨c₂', hnext', hc₂⟩ := hcut.next
              simp only [follow, hx, hnext']
              exact ih hc₂ hcut.hdr hcut.onward hcut.frag h

end PcapRacer
