/-
**A legacy capture that was saved again as pcapng.**

Capture tools save a legacy file as pcapng with interfaces, sections and options of their own making:
they choose the ticks in which time is counted and the offset from which it is, pad the packets,
begin new sections, and put statistics and name resolution in between.  As long as the new file says
of every packet what the old one said, at the same instant, none of this can be told from what the
reader hands on, and the run over the new file is the run over the old one.

Main definitions:

* `LegacyHeader.unit` — the ticks per second of a legacy capture;
* `SavedAs` — an enhanced packet, captured at some interface, says what a legacy record says;
* `Resaved` — the pcapng blocks that save a legacy capture again;
* `resaved` — one such file for every legacy capture.

Main results:

* `EnhancedPacket.packet_of_savedAs` — the two are read as the same packet;
* `CaptureReader.visit_resaved` — the loop does the same over both files;
* `readAndRun_resaved` — **so does the run**.
-/

import Mathlib.Tactic.LinearCombination
import PcapRacer.CaptureSections
import PcapRacer.TickConversion

set_option relaxedAutoImplicit false
set_option autoImplicit false

namespace PcapRacer

/-! ### Records and their copies -/

namespace LegacyHeader

/-- The magic number announces nanoseconds. -/
def nanos (hdr : LegacyHeader) : Bool :=
  hdr.magicNumber == 0xa1b23c4d || hdr.magicNumber == 0x4d3cb2a1

/-- Ticks per second. -/
def unit (hdr : LegacyHeader) : ℕ := if hdr.nanos then 1000000000 else 1000000

def linktype (hdr : LegacyHeader) : UInt16 := hdr.network.toUInt32.toUInt16

end LegacyHeader

/-- The packet says what the record says: the same bytes and lengths at the same link type, and the
same instant, as a number of seconds: the ticks of the interface over its resolution, from its offset
on, against the seconds of the record and its fraction. -/
structure SavedAs (hdr : LegacyHeader) (rec : LegacyBlock) (epb : EnhancedPacket)
    (iface : Iface) : Prop where
  ifId : epb.ifId = 0
  caplen : epb.caplen = rec.caplen
  origlen : epb.origlen = rec.origlen
  data : rec.data <+: epb.data
  linktype : iface.linktype = hdr.linktype
  resolution : iface.resolution ≠ 0
  instant : (epb.ticks.toNat + iface.tsOffset.toInt * iface.resolution.toNat) * hdr.unit =
    (rec.tsSec.toNat * hdr.unit + rec.tsUsec.toNat) * iface.resolution.toNat

section Record

variable {hdr : LegacyHeader} {rec : LegacyBlock} {epb : EnhancedPacket} {iface : Iface}

/-- A legacy time stamp, in nanoseconds. -/
theorem legacyTs_unit (hdr : LegacyHeader) (tsSec tsUsec : UInt32) :
    legacyTs hdr.nanos tsSec tsUsec * hdr.unit =
      (tsSec.toNat * hdr.unit + tsUsec.toNat : ℕ) * 1000000000 := by
  rw [legacyTs_eq, LegacyHeader.unit, fracNs]
  cases hdr.nanos with
  | true =>
      simp only [if_true]
      push_cast
      ring
  | false =>
      simp only [Bool.false_eq_true, if_false]
      push_cast
      ring

theorem legacyTs_fits (nanos : Bool) (tsSec tsUsec : UInt32) :
    0 ≤ legacyTs nanos tsSec tsUsec ∧ legacyTs nanos tsSec tsUsec < 2 ^ 63 := by
  have hsec : tsSec.toNat < 2 ^ 32 := tsSec.toNat_lt
  have hfrac := fracNs_lt nanos tsUsec
  rw [legacyTs_eq]
  omega

theorem LegacyHeader.unit_pos (hdr : LegacyHeader) : 0 < hdr.unit := by
  unfold LegacyHeader.unit
  split <;> decide

/-- **The same instant is read as the same time stamp.** -/
theorem SavedAs.ticksToNs_eq (h : SavedAs hdr rec epb iface) :
    ticksToNs epb.ticks iface.resolution iface.tsOffset =
      legacyTs hdr.nanos rec.tsSec rec.tsUsec := by
  have hpos : (0 : Int) < iface.resolution.toNat := by
    rw [Int.natCast_pos, Nat.pos_iff_ne_zero]
    exact fun hzero => h.resolution (UInt64.toNat_inj.mp hzero)
  have hunit : (hdr.unit : Int) ≠ 0 := Int.natCast_ne_zero.mpr hdr.unit_pos.ne'
  have hscaled := legacyTs_unit hdr rec.tsSec rec.tsUsec
  -- a legacy time stamp is never clamped
  obtain ⟨hlo, hhi⟩ := legacyTs_fits hdr.nanos rec.tsSec rec.tsUsec
  generalize legacyTs hdr.nanos rec.tsSec rec.tsUsec = ns at hscaled hlo hhi ⊢
  have hticks : (epb.ticks.toNat * 1000000000 : Int) =
      (ns - iface.tsOffset.toInt * 1000000000) * iface.resolution.toNat := by
    refine mul_right_cancel₀ hunit ?_
    have hinstant := h.instant
    push_cast at hscaled hinstant
    linear_combination 1000000000 * hinstant - (iface.resolution.toNat : Int) * hscaled
  have hquot : ((epb.ticks.toNat * 1000000000 / iface.resolution.toNat : ℕ) : Int) =
      ns - iface.tsOffset.toInt * 1000000000 := by
    push_cast
    rw [hticks, Int.mul_ediv_cancel _ hpos.ne']
  rw [ticksToNs, if_neg h.resolution]
  simp only [hquot, Int.sub_add_cancel]
  exact clamp64_of_fits (by omega) hhi

/-- **A record and its copy are read as the same packet.** -/
theorem EnhancedPacket.packet_of_savedAs (h : SavedAs hdr rec epb iface)
    {r : CaptureReader} (hlink : r.legacyLinktype = hdr.linktype)
    (hnanos : r.legacyNanos = hdr.nanos) : epb.packet iface = r.legacyPacket rec := by
  have hdata : epb.data.take (min epb.caplen.toNat epb.data.length) = rec.data := by
    obtain ⟨padding, hpad⟩ := h.data
    rw [h.caplen, ← rec.length_data, ← hpad]
    simp
  simp only [EnhancedPacket.packet, CaptureReader.legacyPacket, RawPacket.mk.injEq]
  exact ⟨by rw [h.ticksToNs_eq, hnanos], h.caplen, h.origlen, h.ifId, by rw [h.linktype, hlink],
    hdata⟩

end Record

/-! ### Files -/

/-- The blocks save the records again: every record is an enhanced packet of the first interface of
its section, in order, and no other block holds a packet. -/
inductive Resaved (hdr : LegacyHeader) : List LegacyBlock → List NgBlock → Prop
  | nil : Resaved hdr [] []
  | aside {recs : List LegacyBlock} {bs : List NgBlock} {b : NgBlock} (h : Resaved hdr recs bs)
      (hb : (PcapBlock.ng b).isPacket = false) : Resaved hdr recs (bs ++ [b])
  | packet {recs : List LegacyBlock} {bs : List NgBlock} {rec : LegacyBlock} {epb : EnhancedPacket}
      (h : Resaved hdr recs bs) (hsame : SavedAs hdr rec epb (ifaceOf bs 0)) :
      Resaved hdr (recs ++ [rec]) (bs ++ [.enhancedPacket epb])

/-- The blocks of a legacy file. -/
def legacyFile (hdr : LegacyHeader) (recs : List LegacyBlock) : List PcapBlock :=
  .legacyHeader hdr :: recs.map .legacy

namespace CaptureReader

variable {σ : Type} (f : σ → RawPacket → σ)

theorem legacyFile_concat (hdr : LegacyHeader) (recs : List LegacyBlock) (rec : LegacyBlock) :
    legacyFile hdr (recs ++ [rec]) = legacyFile hdr recs ++ [.legacy rec] := by
  simp [legacyFile]

/-- The records of a legacy file leave the reader as its header has set it. -/
theorem after_legacyFile (r : CaptureReader) (hdr : LegacyHeader) (recs : List LegacyBlock) :
    r.after (legacyFile hdr recs) =
      { r with legacyLinktype := hdr.linktype, legacyNanos := hdr.nanos } := by
  induction recs using List.reverseRecOn with
  | nil => rfl
  | append_singleton recs rec ih => rw [legacyFile_concat, after_concat, ih, onBlock]

/-- A block without a packet leaves alone what has been seen. -/
theorem visit_of_not_isPacket {b : PcapBlock} (hb : b.isPacket = false)
    (rv : CaptureReader × Visited σ) : (visit f rv b).2 = rv.2 := by
  have hnone : (rv.1.onBlock b).2 = none := by
    rw [← Option.isNone_iff_eq_none, ← Option.not_isSome, isSome_onBlock, hb]
    rfl
  unfold visit
  rcases hon : rv.1.onBlock b with ⟨r, _ | p⟩
  · rfl
  · rw [hon] at hnone
    cases hnone

/-- **The loop over the new file does what the loop over the old one does**: it calls back for the
same packets, in the same order, and counts the same bytes. -/
theorem visit_resaved {hdr : LegacyHeader} {recs : List LegacyBlock} {bs : List NgBlock}
    (h : Resaved hdr recs bs) (v : Visited σ) :
    ((bs.map .ng).foldl (visit f) ({}, v)).2 =
      ((legacyFile hdr recs).foldl (visit f) ({}, v)).2 := by
  induction h with
  | nil => rfl
  | aside h hb ih =>
      rw [List.map_append, List.foldl_append, ← ih]
      exact visit_of_not_isPacket f hb _
  | @packet recs bs rec epb h hsame ih =>
      rw [legacyFile_concat, List.map_append, List.foldl_append, List.foldl_append]
      obtain ⟨hnew, -⟩ := foldl_visit f (bs.map .ng) (({} : CaptureReader), v)
      obtain ⟨hold, -⟩ := foldl_visit f (legacyFile hdr recs) (({} : CaptureReader), v)
      generalize (bs.map PcapBlock.ng).foldl (visit f) (({} : CaptureReader), v) = new at ih hnew ⊢
      generalize (legacyFile hdr recs).foldl (visit f) (({} : CaptureReader), v) = old at ih hold ⊢
      have hifaces : new.1.ifaces = described bs := by
        rw [hnew]
        exact ifaces_after {} rfl bs
      have hiface : new.1.ifaces[epb.ifId.toNat]?.getD {} = ifaceOf bs 0 := by
        rw [hifaces, hsame.ifId]
        rfl
      have hpacket : epb.packet (ifaceOf bs 0) = old.1.legacyPacket rec :=
        EnhancedPacket.packet_of_savedAs hsame (by rw [hold, after_legacyFile])
          (by rw [hold, after_legacyFile])
      simp only [List.map_cons, List.map_nil, List.foldl_cons, List.foldl_nil, visit, onBlock,
        hiface, hpacket, ih, hsame.caplen]

end CaptureReader

/-! ### A file for every capture -/

/-- An interface that counts the ticks of the capture. -/
def LegacyHeader.description (hdr : LegacyHeader) : InterfaceDescription :=
  { linktype := hdr.network, tsResolution := some (.ofNat hdr.unit), ifTsoffset := 0 }

/-- The ticks of a record. -/
def LegacyBlock.ticks (rec : LegacyBlock) (hdr : LegacyHeader) : ℕ :=
  rec.tsSec.toNat * hdr.unit + rec.tsUsec.toNat

/-- A record as an enhanced packet, padded to a 4-byte boundary. -/
def LegacyBlock.enhanced (rec : LegacyBlock) (hdr : LegacyHeader) : EnhancedPacket :=
  { ifId := 0, tsHigh := .ofNat (rec.ticks hdr / 2 ^ 32), tsLow := .ofNat (rec.ticks hdr),
    caplen := rec.caplen, origlen := rec.origlen,
    data := rec.data ++ List.replicate ((4 - rec.data.length % 4) % 4) 0 }

/-- A file of one section and one interface. -/
def resaved (hdr : LegacyHeader) (recs : List LegacyBlock) : List NgBlock :=
  .sectionHeader :: .interfaceDescription hdr.description ::
    recs.map fun rec => .enhancedPacket (rec.enhanced hdr)

/-- Two words of 32 bits make a tick count. -/
theorem toNat_ticks (epb : EnhancedPacket) :
    epb.ticks.toNat = epb.tsHigh.toNat * 2 ^ 32 + epb.tsLow.toNat := by
  have hhigh : epb.tsHigh.toNat < 2 ^ 32 := epb.tsHigh.toNat_lt
  have hlow : epb.tsLow.toNat < 2 ^ 32 := epb.tsLow.toNat_lt
  have hshift : (epb.tsHigh.toUInt64 <<< 32).toNat = epb.tsHigh.toNat <<< 32 := by
    rw [UInt64.toNat_shiftLeft, UInt32.toNat_toUInt64, Nat.shiftLeft_eq, Nat.shiftLeft_eq]
    change epb.tsHigh.toNat * 2 ^ 32 % 2 ^ 64 = _
    omega
  rw [EnhancedPacket.ticks, UInt64.toNat_or, hshift, UInt32.toNat_toUInt64,
    ← Nat.shiftLeft_add_eq_or_of_lt hlow, Nat.shiftLeft_eq]

theorem LegacyHeader.toNat_unit (hdr : LegacyHeader) : (UInt64.ofNat hdr.unit).toNat = hdr.unit := by
  unfold LegacyHeader.unit
  split <;> rfl

theorem sameRecord_enhanced (hdr : LegacyHeader) (rec : LegacyBlock) :
    SavedAs hdr rec (rec.enhanced hdr) hdr.description.iface where
  ifId := rfl
  caplen := rfl
  origlen := rfl
  data := List.prefix_append _ _
  linktype := rfl
  resolution := by
    intro hzero
    have hunit := hdr.toNat_unit
    rw [show UInt64.ofNat hdr.unit = 0 from hzero] at hunit
    exact hdr.unit_pos.ne hunit
  instant := by
    have hsec : rec.tsSec.toNat < 2 ^ 32 := rec.tsSec.toNat_lt
    have hfrac : rec.tsUsec.toNat < 2 ^ 32 := rec.tsUsec.toNat_lt
    have hunit : hdr.unit ≤ 1000000000 := by
      unfold LegacyHeader.unit
      split <;> decide
    have hticks : (rec.enhanced hdr).ticks.toNat = rec.ticks hdr := by
      have hfits : rec.ticks hdr < 2 ^ 64 := by
        have hmul := Nat.mul_le_mul (Nat.le_of_lt hsec) hunit
        unfold LegacyBlock.ticks
        omega
      rw [toNat_ticks, LegacyBlock.enhanced, UInt32.toNat_ofNat', UInt32.toNat_ofNat']
      omega
    have hoffset : hdr.description.iface.tsOffset.toInt = 0 := rfl
    have hres : hdr.description.iface.resolution.toNat = hdr.unit := hdr.toNat_unit
    rw [hticks, hoffset, hres, LegacyBlock.ticks]
    push_cast
    ring

theorem resaved_concat (hdr : LegacyHeader) (recs : List LegacyBlock) (rec : LegacyBlock) :
    resaved hdr (recs ++ [rec]) = resaved hdr recs ++ [.enhancedPacket (rec.enhanced hdr)] := by
  simp [resaved]

theorem described_resaved (hdr : LegacyHeader) (recs : List LegacyBlock) :
    described (resaved hdr recs) = [hdr.description.iface] := by
  induction recs using List.reverseRecOn with
  | nil => rfl
  | append_singleton recs rec ih =>
      rw [resaved_concat, described_concat, ih]
      rfl

/-- **Every legacy capture can be saved as pcapng.** -/
theorem resaved_saves (hdr : LegacyHeader) (recs : List LegacyBlock) :
    Resaved hdr recs (resaved hdr recs) := by
  induction recs using List.reverseRecOn with
  | nil =>
      have hheader : Resaved hdr [] ([] ++ [.sectionHeader]) := .aside .nil rfl
      exact .aside hheader rfl
  | append_singleton recs rec ih =>
      have hiface : ifaceOf (resaved hdr recs) 0 = hdr.description.iface := by
        rw [ifaceOf, described_resaved]
        rfl
      rw [resaved_concat]
      exact .packet ih (hiface ▸ sameRecord_enhanced hdr rec)

/-! ### Runs -/

/-- The parser on a list of blocks. -/
def served (bs : List PcapBlock) (m : ℕ) : Next :=
  match bs[m]? with
  | some b => .block b
  | none => .eof

theorem stopsAt_served (bs : List PcapBlock) : StopsAt (served bs) bs.length := by
  refine ⟨by simp [served, Next.stops], fun m hm => ?_⟩
  simp [served, hm, Next.stops]

theorem blocksBefore_served (bs : List PcapBlock) : blocksBefore (served bs) bs.length = bs := by
  induction bs with
  | nil => rfl
  | cons b bs ih =>
      rw [List.length_cons, blocksBefore_succ]
      exact congrArg (b :: ·) ih

/-- **A run over a legacy capture that was saved again as pcapng is the run over the capture itself.**
Let a parser find the blocks of a legacy file, and another one those of a pcapng file that saves its
records again, and let both end alike.  Then, whatever is called back for the packets, the two loops
return the same state and the same counters, and the two runs the same outcome. -/
theorem readAndRun_resaved [Hashes] {ε : Type} (pool : ThreadPool) (cfg : Config)
    (onBatch : List (List Packet) → Except ε Unit) {hdr : LegacyHeader} {recs : List LegacyBlock}
    {bs : List NgBlock} (h : Resaved hdr recs bs) {src src' : ℕ → Next} {n n' : ℕ}
    (hstop : StopsAt src n) (hblocks : blocksBefore src n = legacyFile hdr recs)
    (hstop' : StopsAt src' n') (hblocks' : blocksBefore src' n' = bs.map .ng)
    (hend : (src n).badBlocks = (src' n').badBlocks) {fuel fuel' : ℕ} (hfuel : n < fuel)
    (hfuel' : n' < fuel') :
    (∀ (σ : Type) (f : σ → RawPacket → σ) (s : σ), ∃ v,
      CaptureReader.forEach f fuel {} src { seen := s } = some v ∧
        CaptureReader.forEach f fuel' {} src' { seen := s } = some v) ∧
      ∃ out, readAndRun pool cfg onBatch fuel src = some out ∧
        readAndRun pool cfg onBatch fuel' src' = some out := by
  have hloops : ∀ (σ : Type) (f : σ → RawPacket → σ) (s : σ), ∃ v,
      CaptureReader.forEach f fuel {} src { seen := s } = some v ∧
        CaptureReader.forEach f fuel' {} src' { seen := s } = some v := by
    intro σ f s
    have hold := CaptureReader.forEach_of_stopsAt f hstop hfuel
      (({} : CaptureReader), { seen := s })
    have hnew := CaptureReader.forEach_of_stopsAt f hstop' hfuel'
      (({} : CaptureReader), { seen := s })
    refine ⟨_, hold, hnew.trans ?_⟩
    rw [hblocks, hblocks', CaptureReader.visit_resaved f h, Next.close, Next.close, hend]
  refine ⟨hloops, ?_⟩
  by_cases hsize : Reserves cfg.batchSize
  · obtain ⟨v, hold, hnew⟩ := hloops _ (onPacket pool cfg onBatch) { engine := Engine.new cfg }
    refine ⟨finishRun pool cfg onBatch v.stats.badBlocks v.seen, ?_, ?_⟩
    · rw [readAndRun, if_pos hsize, hold, Option.map_some]
    · rw [readAndRun, if_pos hsize, hnew, Option.map_some]
  · exact ⟨_, if_neg hsize, if_neg hsize⟩

/-- A capture with nanoseconds, of raw IP. -/
def nanosHeader : LegacyHeader := { magicNumber := 0xa1b23c4d, network := 101 }

/-- Four bytes from port 5000 to port 5001, five nanoseconds past a second. -/
def ping : LegacyBlock :=
  { tsSec := 1, tsUsec := 5, caplen := 32, origlen := 32,
    data := [0x45, 0, 0, 32, 0, 1, 0, 0, 64, 17, 0, 0, 10, 0, 0, 5, 10, 0, 0, 80,
      0x13, 0x88, 0x13, 0x89, 0, 12, 0, 0, 0x70, 0x69, 0x6e, 0x67], length_data := rfl }

/-- The answer, of which the last two bytes are not captured. -/
def pong : LegacyBlock :=
  { tsSec := 1, tsUsec := 999, caplen := 30, origlen := 32,
    data := [0x45, 0, 0, 32, 0, 2, 0, 0, 64, 17, 0, 0, 10, 0, 0, 80, 10, 0, 0, 5,
      0x13, 0x89, 0x13, 0x88, 0, 12, 0, 0, 0x70, 0x6f], length_data := rfl }

theorem readAndRun_resaved_ping :
    Resaved nanosHeader [ping, pong] (resaved nanosHeader [ping, pong]) ∧
      ∀ (_ : Hashes) (pool : ThreadPool),
        (∃ v, CaptureReader.forEach (fun seen p => seen ++ [(p.tsNs, p.origLen, p.data)]) 4 {}
            (served (legacyFile nanosHeader [ping, pong])) { seen := [] } = some v ∧
          CaptureReader.forEach (fun seen p => seen ++ [(p.tsNs, p.origLen, p.data)]) 5 {}
            (served ((resaved nanosHeader [ping, pong]).map .ng)) { seen := [] } = some v ∧
          v.seen = [(1000000005, 32, ping.data), (1000000999, 32, pong.data)]) ∧
        ∃ out,
          readAndRun pool {} (fun _ => (.ok () : Except Unit Unit)) 4
            (served (legacyFile nanosHeader [ping, pong])) = some out ∧
          readAndRun pool {} (fun _ => (.ok () : Except Unit Unit)) 5
            (served ((resaved nanosHeader [ping, pong]).map .ng)) = some out := by
  have hsaved := resaved_saves nanosHeader [ping, pong]
  refine ⟨hsaved, fun _ pool => ?_⟩
  obtain ⟨hloops, hruns⟩ := readAndRun_resaved pool {} (fun _ => (.ok () : Except Unit Unit)) hsaved
    (stopsAt_served _) (blocksBefore_served _) (stopsAt_served _) (blocksBefore_served _) rfl
    (Nat.lt_succ_self _) (Nat.lt_succ_self _)
  obtain ⟨v, hold, hnew⟩ := hloops _ (fun seen p => seen ++ [(p.tsNs, p.origLen, p.data)]) []
  refine ⟨⟨v, hold, hnew, ?_⟩, hruns⟩
  have hseen : (CaptureReader.forEach (fun seen p => seen ++ [(p.tsNs, p.origLen, p.data)]) 4 {}
      (served (legacyFile nanosHeader [ping, pong])) { seen := [] }).map Visited.seen =
        some [(1000000005, 32, ping.data), (1000000999, 32, pong.data)] := by
    decide
  exact Option.some.inj ((congrArg (Option.map Visited.seen) hold).symm.trans hseen)

end PcapRacer
