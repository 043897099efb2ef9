/-
**The sections of a pcapng capture.**

A section header restarts the numbering of interfaces.  The interface table of the reader is state
that a whole file goes through; what it holds at any point is what has been described since the most
recent section header, and nothing that came before that header can be told from a packet behind it.

Main definitions:

* `sinceHeader`, `described`, `ifaceOf` — the blocks since the most recent section header, the
  interfaces that they describe, and the one that a number names;
* `deliveredAt` — the packet that a block delivers behind others.

Main results:

* `CaptureReader.ifaces_after` — the interface table is what has been described in this section;
* `CaptureReader.packets_behind_header` — nothing before a section header matters behind it;
* `packets_follow_sections` — **every packet is read with the interface of its own section**.
-/

import PcapRacer.Reader

set_option relaxedAutoImplicit false
set_option autoImplicit false

namespace PcapRacer

/-! ### Sections -/

def NgBlock.isSectionHeader : NgBlock → Bool
  | .sectionHeader => true
  | _ => false

/-- The interface that a block describes. -/
def NgBlock.iface? : NgBlock → Option Iface
  | .interfaceDescription idb => some idb.iface
  | _ => none

/-- The blocks since the most recent section header, or since the beginning. -/
def sinceHeader (bs : List NgBlock) : List NgBlock :=
  (bs.reverse.takeWhile fun b => !b.isSectionHeader).reverse

/-- The interfaces that the current section has described, in order. -/
def described (bs : List NgBlock) : List Iface := (sinceHeader bs).filterMap NgBlock.iface?

/-- The interface that a number names, or the defaults when the section has not described it. -/
def ifaceOf (bs : List NgBlock) (i : ℕ) : Iface := (described bs)[i]?.getD {}

theorem sinceHeader_concat (bs : List NgBlock) (b : NgBlock) :
    sinceHeader (bs ++ [b]) = if b.isSectionHeader then [] else sinceHeader bs ++ [b] := by
  cases h : b.isSectionHeader <;> simp [sinceHeader, h]

theorem described_concat (bs : List NgBlock) (b : NgBlock) :
    described (bs ++ [b]) =
      if b.isSectionHeader then [] else described bs ++ b.iface?.toList := by
  rw [described, sinceHeader_concat]
  cases h : b.isSectionHeader with
  | true => rfl
  | false =>
      simp only [Bool.false_eq_true, if_false, List.filterMap_append, described]
      cases hb : b.iface? <;> simp [hb]

namespace CaptureReader

variable (r : CaptureReader)

theorem after_concat (bs : List PcapBlock) (b : PcapBlock) :
    r.after (bs ++ [b]) = ((r.after bs).onBlock b).1 := by
  simp [after]

/-- **The interface table** of a reader that starts with an empty one is what the current section
has described. -/
theorem ifaces_after (h : r.ifaces = []) (bs : List NgBlock) :
    (r.after (bs.map .ng)).ifaces = described bs := by
  induction bs using List.reverseRecOn with
  | nil => exact h
  | append_singleton bs b ih =>
      rw [List.map_append, List.map_singleton, after_concat, described_concat, ← ih]
      cases b <;> simp [onBlock, NgBlock.isSectionHeader, NgBlock.iface?]

/-- A section header leaves an empty interface table, whatever was there before. -/
theorem ifaces_behind_header : (r.onBlock (.ng .sectionHeader)).1.ifaces = [] := rfl

/-- What pcapng blocks deliver depends on the interface table only. -/
theorem packets_congr {r' : CaptureReader} (h : r.ifaces = r'.ifaces) (bs : List NgBlock) :
    r.packets (bs.map .ng) = r'.packets (bs.map .ng) := by
  induction bs generalizing r r' with
  | nil => rfl
  | cons b bs ih =>
      have hdel : (r.onBlock (.ng b)).2 = (r'.onBlock (.ng b)).2 := by
        cases b <;> simp [onBlock, h]
      have hifaces : (r.onBlock (.ng b)).1.ifaces = (r'.onBlock (.ng b)).1.ifaces := by
        cases b <;> simp [onBlock, h]
      rw [List.map_cons, packets, packets, hdel, ih _ hifaces]

/-- **Nothing before a section header matters behind it.** -/
theorem packets_behind_header (bs bs' : List NgBlock) :
    r.packets ((bs ++ .sectionHeader :: bs').map .ng) =
      r.packets (bs.map .ng) ++ CaptureReader.packets {} (bs'.map .ng) := by
  rw [List.map_append, packets_append, List.map_cons, packets]
  congr 1
  exact packets_congr _ (ifaces_behind_header _) bs'

end CaptureReader

/-! ### Packets -/

/-- The packet that a block delivers behind others. -/
def deliveredAt (bs : List NgBlock) : NgBlock → Option RawPacket
  | .enhancedPacket epb => some (epb.packet (ifaceOf bs epb.ifId.toNat))
  | .simplePacket spb => some (spb.packet (ifaceOf bs 0))
  | _ => none

namespace CaptureReader

variable {r : CaptureReader}

theorem onBlock_after (h : r.ifaces = []) (bs : List NgBlock) (b : NgBlock) :
    ((r.after (bs.map .ng)).onBlock (.ng b)).2.map Prod.fst = deliveredAt bs b := by
  have hifaces := r.ifaces_after h bs
  cases b <;> simp [onBlock, deliveredAt, ifaceOf, hifaces, List.head?_eq_getElem?]

theorem packets_concat (h : r.ifaces = []) (bs : List NgBlock) (b : NgBlock) :
    r.packets ((bs ++ [b]).map .ng) = r.packets (bs.map .ng) ++ (deliveredAt bs b).toList := by
  rw [List.map_append, packets_append, List.map_singleton, packets, packets, onBlock_after h,
    List.append_nil]

/-- Where the packet of a block stands among those that are delivered: behind those of the blocks
before it. -/
theorem packets_at (h : r.ifaces = []) (pre : List NgBlock) (b : NgBlock) (post : List NgBlock) :
    ∃ packets', r.packets ((pre ++ b :: post).map .ng) =
      r.packets (pre.map .ng) ++ ((deliveredAt pre b).toList ++ packets') := by
  refine ⟨(r.after ((pre ++ [b]).map .ng)).packets (post.map .ng), ?_⟩
  rw [← List.append_assoc, ← packets_concat h, ← packets_append, ← List.map_append,
    List.append_assoc, List.singleton_append]

end CaptureReader

/-- **Every packet is read with the interface of its own section.**  In a capture of pcapng blocks,
an enhanced packet gets the link type, the resolution and the offset of the interface that its
number names among those described since the most recent section header, a simple packet the link
type of the first of them; the defaults stand in for an interface that was not described.  No packet
has more bytes than it is said to have, and what is delivered behind a section header does not
depend on anything before it. -/
theorem packets_follow_sections (bs : List NgBlock) (src : ℕ → Next) (n : ℕ) (hstop : StopsAt src n)
    (hblocks : blocksBefore src n = bs.map .ng) {σ : Type} (f : σ → RawPacket → σ) (s : σ)
    (fuel : ℕ) (hfuel : n < fuel) :
    ∃ v packets, CaptureReader.forEach f fuel {} src { seen := s } = some v ∧
      v.seen = packets.foldl f s ∧
      List.Forall₂ DeliveredFor packets ((bs.map .ng).filter PcapBlock.isPacket) ∧
      (∀ raw ∈ packets, raw.data.length ≤ raw.capLen.toNat) ∧
      (∀ pre epb post, bs = pre ++ .enhancedPacket epb :: post →
        ∃ before raw behind, packets = before ++ raw :: behind ∧
          before.length = ((pre.map .ng).filter PcapBlock.isPacket).length ∧
          raw.ifaceId = epb.ifId ∧ raw.data <+: epb.data ∧
          raw.linktype = (ifaceOf pre epb.ifId.toNat).linktype ∧
          raw.tsNs = ticksToNs epb.ticks (ifaceOf pre epb.ifId.toNat).resolution
            (ifaceOf pre epb.ifId.toNat).tsOffset) ∧
      (∀ pre spb post, bs = pre ++ .simplePacket spb :: post →
        ∃ before raw behind, packets = before ++ raw :: behind ∧
          before.length = ((pre.map .ng).filter PcapBlock.isPacket).length ∧
          raw.data <+: spb.data ∧ raw.linktype = (ifaceOf pre 0).linktype) ∧
      ∀ pre post, bs = pre ++ .sectionHeader :: post →
        packets = CaptureReader.packets {} (pre.map .ng) ++
          CaptureReader.packets {} (post.map .ng) := by
  have hloop := CaptureReader.forEach_of_stopsAt f hstop hfuel
    (({} : CaptureReader), { seen := s })
  obtain ⟨-, hseen, -, -⟩ := CaptureReader.foldl_visit f (blocksBefore src n)
    (({} : CaptureReader), { seen := s })
  have hcount : ∀ bs' : List NgBlock, (CaptureReader.packets {} (bs'.map .ng)).length =
      ((bs'.map .ng).filter PcapBlock.isPacket).length := fun bs' =>
    (CaptureReader.packets_deliveredFor {} (bs'.map .ng)).length_eq
  rw [hblocks] at hloop hseen
  refine ⟨_, CaptureReader.packets {} (bs.map .ng), hloop, hseen,
    CaptureReader.packets_deliveredFor {} _, fun raw _ => raw.data_le, ?_, ?_, ?_⟩
  · rintro pre epb post rfl
    obtain ⟨behind, hat⟩ := CaptureReader.packets_at (r := {}) rfl pre (.enhancedPacket epb) post
    exact ⟨_, _, behind, hat, hcount pre, rfl, List.take_prefix _ _, rfl, rfl⟩
  · rintro pre spb post rfl
    obtain ⟨behind, hat⟩ := CaptureReader.packets_at (r := {}) rfl pre (.simplePacket spb) post
    exact ⟨_, _, behind, hat, hcount pre, List.take_prefix _ _, rfl⟩
  · rintro pre post rfl
    exact CaptureReader.packets_behind_header {} pre post

/-! ### Two sections -/

/-- Two sections of one interface each, and a packet in both: the first interface counts
nanoseconds, the second microseconds from a second on. -/
def twoSections : List NgBlock :=
  [.sectionHeader,
    .interfaceDescription { linktype := 101, tsResolution := some 1000000000, ifTsoffset := 0 },
    .enhancedPacket { ifId := 0, tsHigh := 0, tsLow := 7, caplen := 1, origlen := 1,
                      data := [1, 0, 0, 0] },
    .sectionHeader,
    .interfaceDescription { linktype := 1, tsResolution := none, ifTsoffset := 1 },
    .enhancedPacket { ifId := 0, tsHigh := 0, tsLow := 7, caplen := 1, origlen := 1,
                      data := [2, 0, 0, 0] }]

/-- The parser on a list of blocks. -/
def parsed (bs : List NgBlock) (m : ℕ) : Next :=
  match bs[m]? with
  | some b => .block (.ng b)
  | none => .eof

theorem packets_follow_sections_two :
    StopsAt (parsed twoSections) 6 ∧ blocksBefore (parsed twoSections) 6 = twoSections.map .ng ∧
      ∃ v, CaptureReader.forEach (fun l p => l ++ [p]) 7 {} (parsed twoSections) { seen := [] } =
          some v ∧
        ∃ before raw behind, v.seen = before ++ raw :: behind ∧ before.length = 1 ∧
          raw.linktype = 1 ∧ raw.tsNs = 1000007000 := by
  have hstop : StopsAt (parsed twoSections) 6 := ⟨rfl, by decide⟩
  refine ⟨hstop, rfl, ?_⟩
  obtain ⟨v, packets, hv, hseen, -, -, henhanced, -, -⟩ :=
    packets_follow_sections twoSections (parsed twoSections) 6 hstop rfl
      (fun (l : List RawPacket) p => l ++ [p]) [] 7 (by decide)
  obtain ⟨before, raw, behind, hpackets, hlen, -, -, hlink, hts⟩ :=
    henhanced (twoSections.take 5) _ [] rfl
  refine ⟨v, hv, before, raw, behind, ?_, hlen, hlink, ?_⟩
  · rw [hseen, ← hpackets]
    have hfold : ∀ (l l' : List RawPacket), l'.foldl (fun l p => l ++ [p]) l = l ++ l' := by
      intro l l'
      induction l' generalizing l with
      | nil => simp
      | cons p l' ih => simp [ih]
    exact hfold [] packets
  · rw [hts]
    decide +kernel

end PcapRacer
