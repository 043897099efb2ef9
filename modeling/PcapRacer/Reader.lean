/-
**Capture file reading.**

A third-party parser cuts a capture file into blocks.  The reader asks it for one after the other,
keeps the interfaces of the current section, and calls back for every packet.  What the parser says
is taken as an arbitrary sequence of outcomes, one for each time it is asked; it may go on for ever,
and so may the loop.

Main definitions:

* `PcapBlock`, `NgBlock` — what the parser finds, as far as the reader looks at it;
* `Next` — what it says when it is asked;
* `ticksToNs`, `legacyTs` — time stamps;
* `CaptureReader`, `CaptureReader.onBlock` — the state of the reader, and what a block does to it;
* `CaptureReader.forEach` — the loop over a capture;
* `CaptureReader.packets` — the packets that a sequence of blocks delivers;
* `readAndRun` — a run over a capture, from its blocks on.

Main results:

* `CaptureReader.forEach_eq_some_iff` — when the loop returns, and what it has done by then;
* `readAndRun_eq` — a run over a capture is the run over the packets that it delivers;
* `neverSilent_iff` — **the reader stops silently exactly when a refill fails**.
-/

import PcapRacer.Pipeline

set_option relaxedAutoImplicit false
set_option autoImplicit false

namespace PcapRacer

/-! ### Blocks -/

/-- The header of a legacy capture. -/
structure LegacyHeader where
  magicNumber : UInt32
  network : Int32

/-- A packet record of a legacy capture. -/
structure LegacyBlock where
  tsSec : UInt32
  tsUsec : UInt32
  caplen : UInt32
  origlen : UInt32
  data : Bytes
  /-- The parser hands out as many bytes as the record announces. -/
  length_data : data.length = caplen.toNat

/-- An interface description of a pcapng section. -/
structure InterfaceDescription where
  linktype : Int32
  /-- Ticks per second, as the parser works them out from the options of the block. -/
  tsResolution : Option UInt64
  ifTsoffset : Int64

structure EnhancedPacket where
  ifId : UInt32
  tsHigh : UInt32
  tsLow : UInt32
  caplen : UInt32
  origlen : UInt32
  /-- The packet and its padding. -/
  data : Bytes

structure SimplePacket where
  origlen : UInt32
  /-- The packet and its padding. -/
  data : Bytes

inductive NgBlock where
  | sectionHeader
  | interfaceDescription (idb : InterfaceDescription)
  | enhancedPacket (epb : EnhancedPacket)
  | simplePacket (spb : SimplePacket)
  /-- Name resolution, statistics, custom blocks and the like. -/
  | other

inductive PcapBlock where
  | legacyHeader (hdr : LegacyHeader)
  | legacy (b : LegacyBlock)
  | ng (b : NgBlock)

/-- What the parser says when it is asked for a block. -/
inductive Next where
  | block (b : PcapBlock)
  | eof
  /-- The block spans the end of the buffer; whether the refill that this calls for succeeds. -/
  | incomplete (refilled : Bool)
  /-- Any other error. -/
  | failed

/-! ### Time stamps -/

/-- Time stamps have 64 bits. -/
def clamp64 (n : Int) : Int := max Engine.tsMin (min n Engine.tsMax)

/-- Convert a pcapng tick count to nanoseconds since the epoch. -/
def ticksToNs (raw resolution : UInt64) (tsOffset : Int64) : Int :=
  if resolution = 0 then 0
  else
    let ns := raw.toNat * 1000000000 / resolution.toNat
    let offsetNs := tsOffset.toInt * 1000000000
    clamp64 (ns + offsetNs)

/-- The time stamp of a legacy record, whose fraction is in nanoseconds or in microseconds. -/
def legacyTs (nanos : Bool) (tsSec tsUsec : UInt32) : Int :=
  let frac := if nanos then tsUsec.toNat else tsUsec.toNat * 1000
  clamp64 (tsSec.toNat * 1000000000) + frac

/-! ### The reader -/

/-- Per-interface parameters.  Microseconds is the pcapng default. -/
structure Iface where
  linktype : UInt16 := 1
  resolution : UInt64 := 1000000
  tsOffset : Int64 := 0
  deriving DecidableEq

def InterfaceDescription.iface (idb : InterfaceDescription) : Iface :=
  { linktype := idb.linktype.toUInt32.toUInt16, resolution := idb.tsResolution.getD 1000000,
    tsOffset := idb.ifTsoffset }

/-- The tick count of an enhanced packet. -/
def EnhancedPacket.ticks (epb : EnhancedPacket) : UInt64 :=
  epb.tsHigh.toUInt64 <<< 32 ||| epb.tsLow.toUInt64

/-- The packet that was captured at an interface.  The block pads packet data to a 4-byte boundary;
the padding is trimmed. -/
def EnhancedPacket.packet (epb : EnhancedPacket) (iface : Iface) : RawPacket :=
  { tsNs := ticksToNs epb.ticks iface.resolution iface.tsOffset
    capLen := epb.caplen
    origLen := epb.origlen
    ifaceId := epb.ifId
    linktype := iface.linktype
    data := epb.data.take (min epb.caplen.toNat epb.data.length)
    data_le := by simp }

/-- Simple packet blocks carry no time stamp at all. -/
def SimplePacket.packet (spb : SimplePacket) (iface : Iface) : RawPacket :=
  { tsNs := 0
    capLen := .ofNat (min spb.data.length spb.origlen.toNat)
    origLen := spb.origlen
    ifaceId := 0
    linktype := iface.linktype
    data := spb.data.take (min spb.origlen.toNat spb.data.length)
    data_le := by
      have hlt : min spb.data.length spb.origlen.toNat < 2 ^ 32 :=
        lt_of_le_of_lt (Nat.min_le_right _ _) spb.origlen.toNat_lt
      rw [UInt32.toNat_ofNat', Nat.mod_eq_of_lt hlt, List.length_take]
      omega }

structure CaptureReader where
  /-- Link type of a legacy capture, and whether its time stamps are in nanoseconds. -/
  legacyLinktype : UInt16 := 1
  legacyNanos : Bool := false
  ifaces : List Iface := []

/-- Counters describing what the reader saw. -/
structure ReadStats where
  packets : ℕ := 0
  bytes : ℕ := 0
  /-- Blocks that could not be parsed at all. -/
  badBlocks : ℕ := 0
  deriving DecidableEq

/-- The counters, and what the callback has made of its state. -/
structure Visited (σ : Type) where
  stats : ReadStats := {}
  seen : σ

/-- Count a packet and call back for it. -/
def Visited.deliver {σ : Type} (v : Visited σ) (f : σ → RawPacket → σ) (p : RawPacket × ℕ) :
    Visited σ :=
  { stats := { v.stats with packets := v.stats.packets + 1, bytes := v.stats.bytes + p.2 }
    seen := f v.seen p.1 }

namespace CaptureReader

def legacyPacket (r : CaptureReader) (b : LegacyBlock) : RawPacket :=
  { tsNs := legacyTs r.legacyNanos b.tsSec b.tsUsec
    capLen := b.caplen
    origLen := b.origlen
    ifaceId := 0
    linktype := r.legacyLinktype
    data := b.data
    data_le := b.length_data.le }

/-- What a block does to the reader, and the packet it delivers with the bytes that are counted. -/
def onBlock (r : CaptureReader) : PcapBlock → CaptureReader × Option (RawPacket × ℕ)
  | .legacyHeader hdr =>
      ({ r with legacyLinktype := hdr.network.toUInt32.toUInt16
                legacyNanos := hdr.magicNumber == 0xa1b23c4d || hdr.magicNumber == 0x4d3cb2a1 },
        none)
  | .legacy b => (r, some (r.legacyPacket b, b.caplen.toNat))
  -- a new section restarts interface numbering
  | .ng .sectionHeader => ({ r with ifaces := [] }, none)
  | .ng (.interfaceDescription idb) => ({ r with ifaces := r.ifaces ++ [idb.iface] }, none)
  | .ng (.enhancedPacket epb) =>
      let iface := r.ifaces[epb.ifId.toNat]?.getD {}
      (r, some (epb.packet iface, epb.caplen.toNat))
  | .ng (.simplePacket spb) =>
      let iface := r.ifaces.head?.getD {}
      (r, some (spb.packet iface, spb.data.length))
  | .ng .other => (r, none)

/-- What the loop does with a block. -/
def visit {σ : Type} (f : σ → RawPacket → σ) (rv : CaptureReader × Visited σ) (b : PcapBlock) :
    CaptureReader × Visited σ :=
  match rv.1.onBlock b with
  | (r, some p) => (r, rv.2.deliver f p)
  | (r, none) => (r, rv.2)

/-- Ask for blocks, and call `f` for every packet, until the parser has no more of them.  A block
that cannot be parsed is counted, and ends the loop: without it there is no telling how far to
skip.  `none` says that `fuel` ran out. -/
def forEach {σ : Type} (f : σ → RawPacket → σ) :
    ℕ → CaptureReader → (ℕ → Next) → Visited σ → Option (Visited σ)
  | 0, _, _, _ => none
  | fuel + 1, r, src, v =>
      match src 0 with
      | .block b =>
          let (r, v) := visit f (r, v) b
          forEach f fuel r (fun n => src (n + 1)) v
      | .eof => some v
      | .incomplete refilled =>
          -- pull more bytes and retry
          if refilled then forEach f fuel r (fun n => src (n + 1)) v else some v
      | .failed => some { v with stats := { v.stats with badBlocks := v.stats.badBlocks + 1 } }

end CaptureReader

/-- A run over a capture, from its blocks on. -/
def readAndRun [Hashes] {ε : Type} (pool : ThreadPool) (cfg : Config)
    (onBatch : List (List Packet) → Except ε Unit) (fuel : ℕ) (src : ℕ → Next) :
    Option (RunOutcome ε) :=
  if Reserves cfg.batchSize then
    (CaptureReader.forEach (onPacket pool cfg onBatch) fuel {} src
        { seen := { engine := Engine.new cfg } }).map fun v =>
      finishRun pool cfg onBatch v.stats.badBlocks v.seen
  else some { delivered := [], result := .overflowed }

/-! ### Where the loop ends -/

/-- The loop does not go on after this outcome. -/
def Next.stops : Next → Bool
  | .block _ => false
  | .eof => true
  | .incomplete refilled => !refilled
  | .failed => true

def Next.block? : Next → Option PcapBlock
  | .block b => some b
  | _ => none

/-- The loop ends at this outcome. -/
def StopsAt (src : ℕ → Next) (n : ℕ) : Prop :=
  (src n).stops = true ∧ ∀ m < n, (src m).stops = false

/-- The blocks that the parser finds before an outcome. -/
def blocksBefore (src : ℕ → Next) (n : ℕ) : List PcapBlock :=
  (List.range n).filterMap fun m => (src m).block?

/-- The bad blocks that are counted for an outcome. -/
def Next.badBlocks : Next → ℕ
  | .failed => 1
  | _ => 0

/-- What an outcome that ends the loop does to the counters. -/
def Next.close {σ : Type} (o : Next) (v : Visited σ) : Visited σ :=
  { v with stats := { v.stats with badBlocks := v.stats.badBlocks + o.badBlocks } }

theorem blocksBefore_succ (src : ℕ → Next) (n : ℕ) :
    blocksBefore src (n + 1) =
      (src 0).block?.toList ++ blocksBefore (fun m => src (m + 1)) n := by
  simp only [blocksBefore, List.range_succ_eq_map, List.filterMap_cons, List.filterMap_map]
  cases (src 0).block? <;> rfl

theorem stopsAt_zero {src : ℕ → Next} (h : (src 0).stops = true) : StopsAt src 0 :=
  ⟨h, fun _ hm => absurd hm (Nat.not_lt_zero _)⟩

theorem stopsAt_succ {src : ℕ → Next} (h : (src 0).stops = false) {n : ℕ} :
    StopsAt src (n + 1) ↔ StopsAt (fun m => src (m + 1)) n := by
  constructor
  · rintro ⟨hn, hbefore⟩
    exact ⟨hn, fun m hm => hbefore (m + 1) (Nat.succ_lt_succ hm)⟩
  · rintro ⟨hn, hbefore⟩
    refine ⟨hn, fun m hm => ?_⟩
    cases m with
    | zero => exact h
    | succ m => exact hbefore m (Nat.lt_of_succ_lt_succ hm)

/-- The loop ends once. -/
theorem StopsAt.unique {src : ℕ → Next} {m n : ℕ} (hm : StopsAt src m) (hn : StopsAt src n) :
    m = n := by
  rcases Nat.lt_trichotomy m n with h | h | h
  · exact absurd hm.1 (by simp [hn.2 m h])
  · exact h
  · exact absurd hn.1 (by simp [hm.2 n h])

namespace CaptureReader

variable {σ : Type} (f : σ → RawPacket → σ)

/-- The loop goes on behind an outcome that does not end it. -/
theorem forEach_of_goes_on {src : ℕ → Next} (h : (src 0).stops = false) (fuel : ℕ)
    (rv : CaptureReader × Visited σ) :
    forEach f (fuel + 1) rv.1 src rv.2 =
      forEach f fuel ((src 0).block?.toList.foldl (visit f) rv).1 (fun n => src (n + 1))
        ((src 0).block?.toList.foldl (visit f) rv).2 := by
  rw [forEach]
  cases hsrc : src 0 with
  | block b => rfl
  | eof => simp [hsrc, Next.stops] at h
  | incomplete refilled =>
      have hrefilled : refilled = true := by simpa [hsrc, Next.stops] using h
      simp [hrefilled, Next.block?]
  | failed => simp [hsrc, Next.stops] at h

/-- **What the loop has done when it ends**: every block before its end has been visited, and
nothing else. -/
theorem forEach_of_stopsAt {src : ℕ → Next} {n fuel : ℕ} (h : StopsAt src n) (hfuel : n < fuel)
    (rv : CaptureReader × Visited σ) :
    forEach f fuel rv.1 src rv.2 =
      some ((src n).close ((blocksBefore src n).foldl (visit f) rv).2) := by
  induction n generalizing src fuel rv with
  | zero =>
      obtain ⟨fuel, rfl⟩ : ∃ k, fuel = k + 1 := ⟨fuel - 1, by omega⟩
      have hstop := h.1
      rw [forEach]
      cases hsrc : src 0 with
      | block b => simp [hsrc, Next.stops] at hstop
      | eof => rfl
      | incomplete refilled =>
          have hrefilled : refilled = false := by simpa [hsrc, Next.stops] using hstop
          simp [hrefilled, Next.close, Next.badBlocks, blocksBefore]
      | failed => rfl
  | succ n ih =>
      obtain ⟨fuel, rfl⟩ : ∃ k, fuel = k + 1 := ⟨fuel - 1, by omega⟩
      have hgo : (src 0).stops = false := h.2 0 (Nat.succ_pos n)
      rw [forEach_of_goes_on f hgo, ih ((stopsAt_succ hgo).mp h) (by omega), blocksBefore_succ,
        List.foldl_append]

/-- As long as no outcome ends the loop, it does not return. -/
theorem forEach_eq_none {src : ℕ → Next} {fuel : ℕ} (h : ∀ n < fuel, ¬ StopsAt src n)
    (rv : CaptureReader × Visited σ) : forEach f fuel rv.1 src rv.2 = none := by
  induction fuel generalizing src rv with
  | zero => rfl
  | succ fuel ih =>
      have hgo : (src 0).stops = false := by
        by_contra hstop
        exact h 0 (Nat.succ_pos fuel) (stopsAt_zero (by simpa using hstop))
      rw [forEach_of_goes_on f hgo]
      refine ih (fun n hn hstop => ?_) _
      exact h (n + 1) (Nat.succ_lt_succ hn) ((stopsAt_succ hgo).mpr hstop)

/-- **When the loop returns.** -/
theorem forEach_eq_some_iff {src : ℕ → Next} {fuel : ℕ} {rv : CaptureReader × Visited σ}
    {w : Visited σ} :
    forEach f fuel rv.1 src rv.2 = some w ↔
      ∃ n < fuel, StopsAt src n ∧
        w = (src n).close ((blocksBefore src n).foldl (visit f) rv).2 := by
  constructor
  · intro h
    by_cases hstop : ∃ n < fuel, StopsAt src n
    · obtain ⟨n, hn, hstop⟩ := hstop
      rw [forEach_of_stopsAt f hstop hn] at h
      exact ⟨n, hn, hstop, (Option.some_inj.mp h).symm⟩
    · rw [forEach_eq_none f fun n hn hs => hstop ⟨n, hn, hs⟩] at h
      cases h
  · rintro ⟨n, hn, hstop, rfl⟩
    exact forEach_of_stopsAt f hstop hn rv

/-! ### What the loop delivers -/

/-- The packets that some blocks deliver, in order. -/
def packets : CaptureReader → List PcapBlock → List RawPacket
  | _, [] => []
  | r, b :: bs => ((r.onBlock b).2.map Prod.fst).toList ++ packets (r.onBlock b).1 bs

/-- The reader behind some blocks. -/
def after (r : CaptureReader) (bs : List PcapBlock) : CaptureReader :=
  bs.foldl (fun r b => (r.onBlock b).1) r

theorem packets_append (r : CaptureReader) (bs bs' : List PcapBlock) :
    r.packets (bs ++ bs') = r.packets bs ++ (r.after bs).packets bs' := by
  induction bs generalizing r with
  | nil => rfl
  | cons b bs ih => simp [packets, after, ih]

/-- **Visiting blocks**: the callback is called for their packets, one after the other, and they are
counted. -/
theorem foldl_visit (bs : List PcapBlock) (rv : CaptureReader × Visited σ) :
    (bs.foldl (visit f) rv).1 = rv.1.after bs ∧
      (bs.foldl (visit f) rv).2.seen = (rv.1.packets bs).foldl f rv.2.seen ∧
      (bs.foldl (visit f) rv).2.stats.packets = rv.2.stats.packets + (rv.1.packets bs).length ∧
      (bs.foldl (visit f) rv).2.stats.badBlocks = rv.2.stats.badBlocks := by
  induction bs generalizing rv with
  | nil => exact ⟨rfl, rfl, rfl, rfl⟩
  | cons b bs ih =>
      obtain ⟨hafter, hseen, hcount, hbad⟩ := ih (visit f rv b)
      rw [List.foldl_cons, hafter, hseen, hcount, hbad, packets]
      unfold visit
      rcases hb : rv.1.onBlock b with ⟨r', _ | p⟩
      · simp [after, hb]
      · simp [after, hb, Visited.deliver]
        omega

end CaptureReader

/-- The block holds a packet. -/
def PcapBlock.isPacket : PcapBlock → Bool
  | .legacyHeader _ => false
  | .legacy _ => true
  | .ng .sectionHeader => false
  | .ng (.interfaceDescription _) => false
  | .ng (.enhancedPacket _) => true
  | .ng (.simplePacket _) => true
  | .ng .other => false

/-- The packet is what some reader delivers for the block. -/
def DeliveredFor (raw : RawPacket) (b : PcapBlock) : Prop :=
  ∃ (r : CaptureReader) (n : ℕ), (r.onBlock b).2 = some (raw, n)

namespace CaptureReader

theorem isSome_onBlock (r : CaptureReader) (b : PcapBlock) :
    (r.onBlock b).2.isSome = b.isPacket := by
  rcases b with _ | _ | (_ | _ | _ | _ | _) <;> rfl

/-- Every packet block delivers one packet, in order, and nothing else does. -/
theorem packets_deliveredFor (r : CaptureReader) (bs : List PcapBlock) :
    List.Forall₂ DeliveredFor (r.packets bs) (bs.filter PcapBlock.isPacket) := by
  induction bs generalizing r with
  | nil => exact .nil
  | cons b bs ih =>
      have hsome := r.isSome_onBlock b
      cases hb : (r.onBlock b).2 with
      | none =>
          rw [hb] at hsome
          simpa [packets, hb, ← hsome] using ih _
      | some p =>
          rw [hb] at hsome
          have hdel : DeliveredFor p.1 b := ⟨r, p.2, hb⟩
          simpa [packets, hb, ← hsome] using ⟨hdel, ih _⟩

end CaptureReader

/-- A run over a capture is the run over the packets that it delivers. -/
theorem readAndRun_eq [Hashes] {ε : Type} (pool : ThreadPool) (cfg : Config)
    (onBatch : List (List Packet) → Except ε Unit) {fuel n : ℕ} {src : ℕ → Next}
    (h : StopsAt src n) (hfuel : n < fuel) :
    readAndRun pool cfg onBatch fuel src =
      some (run pool cfg onBatch (CaptureReader.packets {} (blocksBefore src n))
        (src n).badBlocks) := by
  by_cases hsize : Reserves cfg.batchSize
  case neg => rw [readAndRun, run, if_neg hsize, if_neg hsize]
  let start : CaptureReader × Visited (RunState ε) := ({}, { seen := { engine := Engine.new cfg } })
  have hloop := CaptureReader.forEach_of_stopsAt (onPacket pool cfg onBatch) h hfuel start
  obtain ⟨-, hseen, -, hbad⟩ := CaptureReader.foldl_visit (onPacket pool cfg onBatch)
    (blocksBefore src n) start
  rw [readAndRun, run, if_pos hsize, if_pos hsize, hloop, Option.map_some, Next.close, hseen, hbad]
  simp [start]

/-! ### Silence -/

/-- The reader never stops silently: whenever it stops, it has called back for every packet block
before that, once and in order, and counted them, and unless that was the end of the capture it
reports a bad block. -/
def NeverSilent (src : ℕ → Next) : Prop :=
  ∀ n, StopsAt src n → ∀ (σ : Type) (f : σ → RawPacket → σ) (r : CaptureReader) (s : σ) (fuel : ℕ),
    n < fuel → ∃ v packets, r.forEach f fuel src { seen := s } = some v ∧
      List.Forall₂ DeliveredFor packets ((blocksBefore src n).filter PcapBlock.isPacket) ∧
      v.seen = packets.foldl f s ∧ v.stats.packets = packets.length ∧
      (src n ≠ .eof → 1 ≤ v.stats.badBlocks)

/-- A refill that fails is not counted. -/
theorem not_neverSilent_of_refill {src : ℕ → Next} {n : ℕ} (hstop : StopsAt src n)
    (hrefill : src n = .incomplete false) : ¬ NeverSilent src := by
  intro h
  obtain ⟨v, -, hv, -, -, -, hbad⟩ := h n hstop Unit (fun _ _ => ()) {} () (n + 1) n.lt_succ_self
  obtain ⟨-, -, -, hzero⟩ := CaptureReader.foldl_visit (fun _ _ => ()) (blocksBefore src n)
    (({} : CaptureReader), { seen := () })
  have hloop := CaptureReader.forEach_of_stopsAt (fun _ _ => ()) hstop n.lt_succ_self
    (({} : CaptureReader), { seen := () })
  rw [hloop, hrefill] at hv
  have hone := hbad (by simp [hrefill])
  rw [← Option.some_inj.mp hv] at hone
  exact absurd hone (by simp [Next.close, Next.badBlocks, hzero])

/-- **The reader stops silently exactly when a refill fails.** -/
theorem neverSilent_iff (src : ℕ → Next) :
    NeverSilent src ↔ ∀ n, StopsAt src n → src n ≠ .incomplete false := by
  constructor
  · exact fun h n hstop hrefill => not_neverSilent_of_refill hstop hrefill h
  · intro h n hstop σ f r s fuel hfuel
    obtain ⟨-, hseen, hcount, hbad⟩ := CaptureReader.foldl_visit f (blocksBefore src n)
      (r, { seen := s })
    refine ⟨_, r.packets (blocksBefore src n),
      CaptureReader.forEach_of_stopsAt f hstop hfuel (r, { seen := s }),
      r.packets_deliveredFor _, ?_⟩
    have hend := h n hstop
    cases hn : src n with
    | block b => exact absurd hstop.1 (by simp [hn, Next.stops])
    | eof => simp [Next.close, hseen, hcount]
    | incomplete refilled =>
        cases refilled with
        | false => exact absurd hn hend
        | true => exact absurd hstop.1 (by simp [hn, Next.stops])
    | failed => simp [Next.close, Next.badBlocks, hseen, hcount]

/-- A compressed legacy capture that is cut in half behind its first packet: the next block is
incomplete, and reading on fails with the decoder's error. -/
def cutInHalf : ℕ → Next
  | 0 => .block (.legacyHeader { magicNumber := 0xa1b2c3d4, network := 1 })
  | 1 => .block (.legacy { tsSec := 100, tsUsec := 500000, caplen := 1, origlen := 1,
                           data := [0xaa], length_data := rfl })
  | _ => .incomplete false

/-- **A capture cut short without a count**: the reader stops in the middle of the capture, and says
that it saw one packet and no bad block. -/
theorem cutInHalf_silent :
    StopsAt cutInHalf 2 ∧ ¬ NeverSilent cutInHalf ∧
      (CaptureReader.forEach (fun l p => l ++ [p.tsNs]) 3 {} cutInHalf { seen := [] }).map
          (fun v => (v.stats, v.seen)) =
        some ({ packets := 1, bytes := 1, badBlocks := 0 }, [100500000000]) := by
  have hstop : StopsAt cutInHalf 2 := ⟨rfl, by decide⟩
  exact ⟨hstop, not_neverSilent_of_refill hstop rfl, by decide +kernel⟩

end PcapRacer
