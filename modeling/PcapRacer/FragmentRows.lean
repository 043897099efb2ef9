/-
**The rows of fragments.**

A datagram that is never completed should leave no application columns on the rows of its
fragments.  Fragments other than the first one end the header walk, and the serial phase dissects a
datagram only once its fragments cover it.  The first fragment is another matter: its walk goes on
into the transport header, and whatever payload it has is handed to the application dissectors as if
it were whole.

Main definitions:

* `fragments` — the fragments that some records carry;
* `HandsOver` — the walk of a record ends at a transport payload with something in it;
* `StartsAnew` — a point of the run at which the table holds nothing for a datagram.

Main results:

* `Engine.absorbOne_frags`, `Engine.absorbOne_app` — what one record does to the fragment table, and
  when its row keeps the application columns of the first pass;
* `run_incomplete_datagram` — an incomplete datagram leaves no application column, in every run in
  which its first fragment hands nothing over.
-/

import PcapRacer.FragTableCover
import PcapRacer.PayloadRange
import PcapRacer.RunBatches

set_option relaxedAutoImplicit false
set_option autoImplicit false

namespace PcapRacer

open ChunkedRun (scan)

/-! ### Records and fragments -/

/-- A recorded fragment as the table gets it. -/
def FragMeta.fragment (m : FragMeta) : Fragment FragKey :=
  { key := m.key, offset := m.offset, moreFragments := m.moreFragments, data := m.payload }

/-- The fragments that the records carry. -/
def fragments (os : List Owned) : List (Fragment FragKey) :=
  os.filterMap fun o => (frameJourney o).frag.map FragMeta.fragment

theorem mem_fragments {os : List Owned} {o : Owned} {m : FragMeta} (ho : o ∈ os)
    (hm : (frameJourney o).frag = some m) : m.fragment ∈ fragments os :=
  List.mem_filterMap.mpr ⟨o, ho, by rw [hm]; rfl⟩

/-- The walk of the record ends at a transport payload with something in it, which is handed to the
application dissectors, now or after stream reassembly. -/
def HandsOver (o : Owned) : Prop :=
  ∃ p c, (frameJourney o).stop = .ok (some (p, c)) ∧ c.rest ≠ []

/-- A fragment that is not the first one hands nothing over. -/
theorem not_handsOver_of_later {o : Owned} {m : FragMeta} (hm : (frameJourney o).frag = some m)
    (hoff : m.offset ≠ 0) : ¬ HandsOver o := by
  rintro ⟨p, c, hstop, -⟩
  rw [frameJourney, journey_later_fragment hm hoff] at hstop
  cases hstop

section Engine

variable [Hashes]

/-! ### The first pass -/

/-- The payload step of a walk keeps the fragment. -/
theorem payload_frag {ctx ctx' : Ctx} {p : Payload} {c : Cur} (h : ctx.payload p c = .ok ctx') :
    ctx'.frag = ctx.frag := by
  unfold Ctx.payload dispatch at h
  dsimp only at h
  split at h
  · cases h
    rfl
  · split at h
    · cases h
      rfl
    · obtain ⟨s, -, rfl⟩ := map_eq_ok_iff.mp h
      rfl

theorem arrive_frag {ctx ctx' : Ctx} {stop : Except DissectError (Option (Payload × Cur))}
    {r : Except DissectError Unit} (h : ctx.arrive stop = .ok (r, ctx')) :
    ctx'.frag = ctx.frag := by
  cases stop with
  | error e => cases h; rfl
  | ok x =>
      cases x with
      | none => cases h; rfl
      | some pc =>
          obtain ⟨ctx₁, h₁, he⟩ := map_eq_ok_iff.mp h
          cases he
          exact payload_frag h₁

/-- The first pass reports the fragment of the walk, or nothing when it panicked. -/
theorem dissectOne_frag (o : Owned) (deferTcpApp : Bool) {m : FragMeta}
    (h : (dissectOne o deferTcpApp).frag = some m) : (frameJourney o).frag = some m := by
  unfold dissectOne dissectInner at h
  rw [dissectFrame_eq] at h
  cases ha : (frameCtx o deferTcpApp).arrive (frameJourney o).stop with
  | error q => rw [ha] at h; cases h
  | ok r =>
      rw [ha] at h
      have hfrag : r.2.frag = (frameJourney o).frag := arrive_frag ha
      rw [← hfrag]
      exact h

/-- Nothing in a payload, nothing to dissect. -/
theorem payload_of_rest_nil {ctx : Ctx} {p : Payload} {c : Cur} (h : c.rest = []) :
    ctx.payload p c =
      .ok { ctx with pkt := { ctx.pkt with
        payload := payloadCols p.isTcp [] ctx.pkt.payload } } := by
  unfold Ctx.payload dispatch
  dsimp only
  rw [h]
  split
  · rfl
  · rw [if_pos (.inr rfl)]

/-- A record that hands nothing over has no application columns and no payload range, and its
fragment is the one of the walk. -/
theorem dissectOne_of_not_handsOver {o : Owned} (h : ¬ HandsOver o) :
    (dissectOne o true).pkt.app = {} ∧ (dissectOne o true).tcpPayload = none ∧
      (dissectOne o true).frag = (frameJourney o).frag := by
  unfold dissectOne dissectInner
  rw [dissectFrame_eq]
  cases hstop : (frameJourney o).stop with
  | error e => exact ⟨rfl, rfl, rfl⟩
  | ok x =>
      cases x with
      | none => exact ⟨rfl, rfl, rfl⟩
      | some pc =>
          obtain ⟨p, c⟩ := pc
          have hrest : c.rest = [] := by
            by_contra hne
            exact h ⟨p, c, hstop, hne⟩
          rw [Ctx.arrive, payload_of_rest_nil hrest]
          cases hp : p.isTcp with
          | false => exact ⟨rfl, rfl, rfl⟩
          | true => exact ⟨rfl, rfl, rfl⟩

namespace Engine

/-! ### The serial phase -/

/-- The table after a record: its fragment is pushed, if it has one. -/
theorem absorbOne_frags {e e' : Engine} {o : Owned} {d : Dissected} {row : Packet}
    (hre : e.reassemble = true) (h : e.absorbOne o d = .ok (e', row)) :
    e'.frags = (d.frag.map fun m => (e.frags.pushFragment m.fragment).2).getD e.frags := by
  obtain ⟨⟨frags, fragTuple, pkt⟩, hpass, h⟩ := bind_eq_ok_iff.mp h
  obtain ⟨⟨e₁, pkt₁⟩, hjoin, he⟩ := bind_eq_ok_iff.mp h
  cases he
  obtain ⟨-, -, -, -, hfrags⟩ := joinFlow_ok hjoin
  refine hfrags.trans ?_
  rw [if_pos hre] at hpass
  cases hd : d.frag with
  | none =>
      rw [hd] at hpass
      cases hpass
      rfl
  | some m =>
      rw [hd] at hpass
      change frags = (e.frags.push m.key m.offset m.moreFragments m.payload).2
      rcases hp : e.frags.push m.key m.offset m.moreFragments m.payload with ⟨r, frags₁⟩
      cases r with
      | none =>
          simp only [fragmentPass, hp] at hpass
          cases hpass
          rfl
      | some data =>
          simp only [fragmentPass, hp] at hpass
          obtain ⟨r, -, he⟩ := map_eq_ok_iff.mp hpass
          cases he
          rfl

/-- Without a payload range the serial phase leaves the application columns alone. -/
theorem joinFlow_app {e e' : Engine} {tuple : Option Tuple} {pkt pkt' : Packet} {o : Owned}
    (h : e.joinFlow tuple pkt o none = .ok (e', pkt')) : pkt'.app = pkt.app := by
  cases tuple with
  | none => cases h; rfl
  | some t =>
      obtain ⟨⟨streams, pkt₁⟩, h₁, he⟩ := bind_eq_ok_iff.mp h
      cases h₁
      cases he
      have hsnd := observe_snd e.flows t pkt o.tsNs (e.nextPacketId + 1) o.origLen.toUInt64
      exact (congrArg Packet.app hsnd).trans rfl

/-- **A row keeps the application columns of the first pass** when the record has no payload range
and completes no datagram. -/
theorem absorbOne_app {e e' : Engine} {o : Owned} {d : Dissected} {row : Packet}
    (hrange : d.tcpPayload = none)
    (hpush : ∀ m, d.frag = some m → (e.frags.pushFragment m.fragment).1 = none)
    (h : e.absorbOne o d = .ok (e', row)) : row.app = d.pkt.app := by
  obtain ⟨⟨frags, fragTuple, pkt⟩, hpass, h⟩ := bind_eq_ok_iff.mp h
  obtain ⟨⟨e₁, pkt₁⟩, hjoin, he⟩ := bind_eq_ok_iff.mp h
  cases he
  rw [hrange] at hjoin
  refine (joinFlow_app hjoin).trans ?_
  -- the fragment pass hands the packet on as it is
  suffices hpkt : pkt = e.numbered d.pkt by rw [hpkt]; rfl
  split at hpass
  · cases hd : d.frag with
    | none =>
        rw [hd] at hpass
        cases hpass
        rfl
    | some m =>
        rw [hd] at hpass
        have hnone := hpush m hd
        change (e.frags.push m.key m.offset m.moreFragments m.payload).1 = none at hnone
        rcases hp : e.frags.push m.key m.offset m.moreFragments m.payload with ⟨r, frags₁⟩
        rw [hp] at hnone
        cases hnone
        simp only [fragmentPass, hp] at hpass
        cases hpass
        rfl
  · cases hpass
    rfl

/-! ### Runs -/

/-- One record of a run in which the fragments of a datagram do not cover it. -/
theorem step_incomplete {e e' : Engine} {o : Owned} {row : Packet} {key : FragKey}
    {frags : List (Fragment FragKey)} (hre : e.reassemble = true)
    (hfrom : (e.frags.entry key).From key frags)
    (hmem : ∀ m, (frameJourney o).frag = some m → m.fragment ∈ frags)
    (h : step true e o = .ok (e', row)) :
    (e'.frags.entry key).From key frags ∧
      (∀ m, (frameJourney o).frag = some m → m.key = key → ¬ Covered key frags → ¬ HandsOver o →
        row.app = {}) := by
  refine ⟨?_, fun m hm hkey hunc hover => ?_⟩
  · rw [absorbOne_frags hre h]
    cases hd : (dissectOne o true).frag with
    | none => exact hfrom
    | some m => exact FragTable.pushFragment_from hfrom (hmem m (dissectOne_frag o true hd))
  · obtain ⟨happ, hrange, -⟩ := dissectOne_of_not_handsOver hover
    refine (absorbOne_app hrange (fun m' hm' => ?_) h).trans happ
    have heq : m' = m := Option.some.inj ((dissectOne_frag o true hm').symm.trans hm)
    cases hp : (e.frags.pushFragment m'.fragment).1 with
    | none => rfl
    | some data =>
        subst heq
        subst hkey
        exact absurd (FragTable.covered_of_push hfrom (hmem _ hm) hp) hunc

/-- The rows of the fragments of a datagram that is not covered, along a run. -/
theorem scan_incomplete {e e' : Engine} {os : List Owned} {rows : List Packet} {key : FragKey}
    {frags : List (Fragment FragKey)} (hre : e.reassemble = true)
    (hfrom : (e.frags.entry key).From key frags) (hsub : fragments os ⊆ frags)
    (hunc : ¬ Covered key frags) (h : scan (step true) e os = .ok (e', rows)) :
    ∀ (i : ℕ) (o : Owned) (m : FragMeta) (row : Packet), os[i]? = some o →
      (frameJourney o).frag = some m → m.key = key → ¬ HandsOver o → rows[i]? = some row →
      row.app = {} := by
  induction os generalizing e rows with
  | nil =>
      intro i o m row ho
      cases ho
  | cons o os ih =>
      obtain ⟨e₁, first, rows₁, hs, hr, rfl⟩ := ChunkedRun.exists_of_scan_cons h
      have hmem : ∀ m, (frameJourney o).frag = some m → m.fragment ∈ frags := fun m hm =>
        hsub (mem_fragments List.mem_cons_self hm)
      have hrest : fragments os ⊆ frags := fun g hg =>
        hsub (((List.sublist_cons_self o os).filterMap _).subset hg)
      obtain ⟨hfrom', happ⟩ := step_incomplete hre hfrom hmem hs
      have hre' : e₁.reassemble = true := (absorbOne_numbered hs).2.2.trans hre
      intro i o' m row ho hm hkey hover hrow
      cases i with
      | zero =>
          cases ho
          cases hrow
          exact happ m hm hkey hunc hover
      | succ i => exact ih hre' hfrom' hrest hr i o' m row ho hm hkey hover hrow

end Engine

/-- Whether fragments are reassembled does not change along a run. -/
theorem scan_reassemble {e e' : Engine} {os : List Owned} {rows : List Packet} {defer : Bool}
    (hre : e.reassemble = true) (h : scan (Engine.step defer) e os = .ok (e', rows)) :
    e'.reassemble = true := by
  refine (ChunkedRun.scan_invariant (I := fun e : Engine => e.reassemble = true)
    (R := fun _ => True) (fun e o e' row he hs => ?_) hre h).1
  exact ⟨(Engine.absorbOne_numbered hs).2.2.trans he, trivial⟩

/-- After the first `j` records the table holds nothing for the datagram: its key has not been used
yet, or what was there has been completed or dropped. -/
def StartsAnew (cfg : Config) (os : List Owned) (key : FragKey) (j : ℕ) : Prop :=
  ∀ e rows, scan (Engine.step cfg.reassemble) (Engine.new cfg) (os.take j) = .ok (e, rows) →
    key ∉ e.frags.sets

/-- **An incomplete datagram leaves no application column on the rows of its fragments**, in every
run in which its first fragment hands nothing over.  The datagram begins at record `j`; the fragments
that arrive from there to the end of the capture do not cover it. -/
theorem run_incomplete_datagram {ε : Type} (pool : ThreadPool) (cfg : Config)
    (onBatch : List (List Packet) → Except ε Unit) (records : List RawPacket) (badBlocks : ℕ)
    (hre : cfg.reassemble = true) (key : FragKey) (j : ℕ)
    (hnew : StartsAnew cfg (records.map RawPacket.own) key j)
    (hunc : ¬ Covered key (fragments ((records.map RawPacket.own).drop j)))
    (hfirst : ∀ r ∈ records.drop j, ∀ m, (frameJourney r.own).frag = some m → m.key = key →
      m.offset = 0 → ¬ HandsOver r.own) :
    ∀ (i : ℕ) (r : RawPacket) (m : FragMeta) (row : Packet), j ≤ i → records[i]? = some r →
      (frameJourney r.own).frag = some m → m.key = key →
      (run pool cfg onBatch records badBlocks).delivered.flatten[i]? = some row → row.app = {} := by
  intro i r m row hji hr hm hkey hrow
  obtain ⟨n, e, hscan⟩ := run_delivered_eq_take pool cfg onBatch records badBlocks
  -- the run up to the datagram, and from there on
  have hlen := ChunkedRun.length_of_scan hscan
  have hi : i < n := by
    obtain ⟨hlt, -⟩ := List.getElem?_eq_some_iff.mp hrow
    rw [hlen, List.length_take] at hlt
    omega
  rw [hre, ← List.take_append_drop j ((records.map RawPacket.own).take n), List.take_take,
    Nat.min_eq_left (by omega)] at hscan
  obtain ⟨e₁, rows₁, rows₂, hscan₁, hscan₂, hrows⟩ := ChunkedRun.exists_of_scan_append hscan
  have hlen₁ : rows₁.length = j := by
    rw [ChunkedRun.length_of_scan hscan₁, List.length_take, List.length_map]
    obtain ⟨hlt, -⟩ := List.getElem?_eq_some_iff.mp hr
    omega
  have hfresh : key ∉ e₁.frags.sets := hnew e₁ rows₁ (by rw [hre]; exact hscan₁)
  have hre₁ : e₁.reassemble = true := scan_reassemble hre hscan₁
  have hsub : fragments (((records.map RawPacket.own).take n).drop j) ⊆
      fragments ((records.map RawPacket.own).drop j) := by
    rw [List.drop_take]
    exact ((List.take_sublist _ _).filterMap _).subset
  refine Engine.scan_incomplete hre₁ ?_ hsub hunc hscan₂ (i - j) r.own m row ?_ hm hkey ?_ ?_
  · rw [FragTable.entry_of_not_mem hfresh]
    exact .empty _ _
  · rw [List.getElem?_drop, List.getElem?_take, if_pos (by omega), Nat.add_sub_cancel' hji,
      List.getElem?_map, hr]
    rfl
  · by_cases hoff : m.offset = 0
    · refine hfirst r ?_ m hm hkey hoff
      refine List.mem_of_getElem? (i := i - j) ?_
      rw [List.getElem?_drop, Nat.add_sub_cancel' hji, hr]
    · exact not_handsOver_of_later hm hoff
  · rw [hrows, List.getElem?_append_right (by omega), hlen₁] at hrow
    exact hrow

end Engine

/-! ### A datagram with a hole, and a first fragment on its own -/

/-- An Ethernet frame with a part of the UDP datagram 7 from 10.0.0.5 to 10.0.0.53. -/
def fragmentFrame (flags offset : UInt8) (payload : Bytes) : Bytes :=
  [0x00, 0x11, 0x22, 0x33, 0x44, 0x55, 0x66, 0x77, 0x88, 0x99, 0xaa, 0xbb, 0x08, 0x00] ++
  [0x45, 0, 0, UInt8.ofNat (20 + payload.length), 0, 7, flags, offset, 64, 17, 0, 0,
    10, 0, 0, 5, 10, 0, 0, 53] ++ payload

def fragmentKey : FragKey :=
  { src := .v4 0x0a000005, dst := .v4 0x0a000035, id := 7, proto := 17 }

def udpHeader : Bytes := [0x13, 0x88, 0, 53, 0, 40, 0, 0]

def dnsHeader : Bytes := [0x12, 0x34, 0x01, 0, 0, 0, 0, 0, 0, 0, 0, 0]

/-- The first fragment: the UDP header, and a DNS header with more to come. -/
def firstFragment : RawPacket :=
  { tsNs := 0, capLen := 54, origLen := 54, ifaceId := 0, linktype := 1,
    data := fragmentFrame 0x20 0 (udpHeader ++ dnsHeader), data_le := by decide }

/-- The first fragment of another sender: the UDP header only. -/
def headerFragment : RawPacket :=
  { tsNs := 0, capLen := 42, origLen := 42, ifaceId := 0, linktype := 1,
    data := fragmentFrame 0x20 0 udpHeader, data_le := by decide }

/-- The last fragment, after a hole of eight bytes. -/
def lastFragment : RawPacket :=
  { tsNs := 0, capLen := 46, origLen := 46, ifaceId := 0, linktype := 1,
    data := fragmentFrame 0 2 dnsHeader, data_le := by decide }

theorem not_covered_hole : ¬ Covered fragmentKey
    (fragments ([headerFragment, lastFragment].map RawPacket.own)) := by
  have hfrags : fragments ([headerFragment, lastFragment].map RawPacket.own) =
      [⟨fragmentKey, 0, true, udpHeader⟩, ⟨fragmentKey, 16, false, dnsHeader⟩] := rfl
  rw [hfrags]
  rintro ⟨last, hmem, -, hmf, hcov⟩
  -- byte eight is in neither fragment
  have hlast : last = ⟨fragmentKey, 16, false, dnsHeader⟩ := by
    simp only [List.mem_cons, List.not_mem_nil, or_false] at hmem
    rcases hmem with rfl | rfl
    · cases hmf
    · rfl
  obtain ⟨g, hg, -, hle, hlt⟩ := hcov 8 (by rw [hlast]; decide)
  simp only [List.mem_cons, List.not_mem_nil, or_false] at hg
  rcases hg with rfl | rfl
  · exact absurd hlt (by decide)
  · exact absurd hle (by decide)

/-- The fragments of the datagram with a hole leave no application column. -/
theorem run_incomplete_datagram_hole :
    (fragments ([headerFragment, lastFragment].map RawPacket.own)).length = 2 ∧
    ∀ (_ : Hashes) (pool : ThreadPool), ∃ row : Packet,
      (run pool {} (fun _ => (.ok () : Except Unit Unit))
        [headerFragment, lastFragment] 0).delivered.flatten[1]? = some row ∧ row.app = {} := by
  refine ⟨rfl, fun _ pool => ?_⟩
  obtain ⟨e, rows, hscan, hlen⟩ : ∃ e rows, scan (Engine.step true) (Engine.new {})
      ([headerFragment, lastFragment].map RawPacket.own) = .ok (e, rows) ∧ rows.length = 2 :=
    ⟨_, _, rfl, rfl⟩
  have hrows := delivered_of_scan {} hscan pool (by decide) (by decide) 0
    (fun _ => (.ok () : Except Unit Unit)) fun _ => rfl
  have hrow : rows[1]? = some rows[1] := List.getElem?_eq_getElem (by omega)
  refine ⟨rows[1], by rw [hrows, hrow], ?_⟩
  refine run_incomplete_datagram pool {} (fun _ => (.ok () : Except Unit Unit))
    [headerFragment, lastFragment] 0 rfl fragmentKey 0 ?_ not_covered_hole ?_ 1 lastFragment
    { key := fragmentKey, offset := 16, moreFragments := false, payload := dnsHeader } rows[1]
    (Nat.zero_le 1) rfl rfl rfl (by rw [hrows, hrow])
  · intro e rows he
    cases he
    exact AList.notMem_empty _
  · intro r hr m hm _ hoff
    simp only [List.drop_zero, List.mem_cons, List.not_mem_nil, or_false] at hr
    rcases hr with rfl | rfl
    · rintro ⟨p, c, hstop, hne⟩
      cases hstop
      exact hne (by decide)
    · cases hm
      cases hoff

/-- The first pass takes the payload of the first fragment for a DNS message. -/
theorem dissectOne_firstFragment [Hashes] :
    (dissectOne firstFragment.own true).frag =
        some { key := fragmentKey, offset := 0, moreFragments := true,
               payload := udpHeader ++ dnsHeader } ∧
      (dissectOne firstFragment.own true).tcpPayload = none ∧
      (dissectOne firstFragment.own true).pkt.app.dns.dnsTransactionId = some 0x1234 := by
  let p : Payload := { isTcp := false, sport := 5000, dport := 53 }
  let c : Cur := { base := 0, data := firstFragment.data, pos := 42, pos_le := by decide }
  let ctx := frameCtx firstFragment.own true
  have hstop : (frameJourney firstFragment.own).stop = .ok (some (p, c)) := rfl
  have hrest : c.rest = dnsHeader := rfl
  have hport : App.byPort dnsHeader 53 false false =
      some (App.dns (AppDns.parse dnsHeader false false false)) := rfl
  obtain ⟨s, hexec, htxid⟩ : ∃ s, (App.dns (AppDns.parse dnsHeader false false false)).exec
      { stack := ctx.stack, cols := {} } = .ok (.ok (), s) ∧
      s.cols.dns.dnsTransactionId = some 0x1234 := ⟨_, rfl, rfl⟩
  have hid : App.identify dnsHeader 5000 53 false { stack := ctx.stack, cols := {} } = .ok s :=
    App.identify_of_byPort hport hexec
  let pkt := { ctx.pkt with payload := payloadCols false dnsHeader {}, app := s.cols }
  have hpay : ctx.payload p c = .ok { ctx with appDone := true, stack := s.stack, pkt } := by
    unfold Ctx.payload dispatch
    dsimp only
    rw [hrest, if_neg (by decide), if_neg (by simp [dnsHeader, ctx, frameCtx, Ctx.setHdr])]
    exact map_eq_ok_iff.mpr ⟨s, hid, rfl⟩
  have hone : dissectOne firstFragment.own true = summary firstFragment.own true (.ok ())
      { ctx with appDone := true, stack := s.stack, pkt } := by
    refine dissectOne_of_arrive ?_
    rw [hstop, Ctx.arrive, hpay]
    rfl
  rw [hone]
  exact ⟨rfl, rfl, htxid⟩

/-- The first fragment alone covers nothing, and the columns of a DNS message are on its row. -/
theorem run_firstFragment :
    (frameJourney firstFragment.own).frag =
      some { key := fragmentKey, offset := 0, moreFragments := true,
             payload := udpHeader ++ dnsHeader } ∧
    ¬ Covered fragmentKey (fragments [firstFragment.own]) ∧
    ∀ (_ : Hashes) (pool : ThreadPool), ∃ row : Packet,
      (run pool {} (fun _ => (.ok () : Except Unit Unit)) [firstFragment] 0).delivered.flatten =
        [row] ∧ row.app.dns.dnsTransactionId = some 0x1234 := by
  refine ⟨rfl, ?_, fun _ pool => ?_⟩
  · rintro ⟨last, hmem, -, hmf, -⟩
    cases List.mem_singleton.mp (show last ∈ [_] from hmem)
    cases hmf
  · obtain ⟨hfrag, hrange, htxid⟩ := dissectOne_firstFragment
    obtain ⟨e, row, hstep⟩ : ∃ e row,
        Engine.step true (Engine.new {}) firstFragment.own = .ok (e, row) := by
      cases hs : Engine.step true (Engine.new {}) firstFragment.own with
      | ok r => exact ⟨r.1, r.2, rfl⟩
      | error q =>
          obtain ⟨fm, data, -, hfm, hpush, -⟩ | ⟨-, -, -, t, segment, -, -, hseg, -⟩ :=
            Engine.absorbOne_error_iff.mp ⟨q, hs⟩
          · rw [hfrag] at hfm
            cases hfm
            cases hpush
          · rw [hrange] at hseg
            cases hseg
    have hscan : scan (Engine.step true) (Engine.new {}) ([firstFragment].map RawPacket.own) =
        .ok (e, [row]) := ChunkedRun.scan_cons_of_ok hstep []
    have happ : row.app = (dissectOne firstFragment.own true).pkt.app := by
      refine Engine.absorbOne_app hrange (fun m hm => ?_) hstep
      rw [hfrag] at hm
      cases hm
      rfl
    refine ⟨row, ?_, by rw [happ, htxid]⟩
    exact delivered_of_scan {} hscan pool (by decide) (by decide) 0 _ fun _ => rfl

end PcapRacer
