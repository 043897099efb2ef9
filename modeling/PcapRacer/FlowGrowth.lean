/-
**Flows only grow.**

A flow is updated in place, by each of its packets and by each table that is merged in.  Whatever the
order of these updates, nothing that a flow has reported is taken back: its number, key and Community
ID stay, its interval widens, its flags increase, a detail that is there stays, and its connection
state advances.  Its counters increase as long as there is room for all that is brought to the table:
those of packets and bytes have 64 bits, those of SYN, FIN and RST 32.  A service that names the
transport only gives way to a more specific one.

For a run this says what a longer capture adds.  The rows of a capture that was cut short are the
first rows of the whole, and its flows are there in the whole, each grown.

Main definitions:

* `Flow.Grows`, `FlowTable.Grows` — growth of a flow and of a table;
* `FlowTable.Room` — so many more packets, bytes and marks, and no counter wraps;
* `TcpState.rank` — how far a connection has come;
* `FlowTable.Op`, `FlowTable.exec` — observing packets and merging tables, in any order;
* `FlowTable.Numbered`, `FlowTable.counted` — the numbers of the flows, and the packets accounted for.

Main results:

* `Flow.Grows.rank_le` — the connection state only advances;
* `FlowTable.exec_grows` — **any mix of observing and merging only grows**, keeps the numbers
  consecutive, and loses no packet;
* `run_prefix_grows` — **a longer capture only adds**.
-/

import PcapRacer.FlowMerge
import PcapRacer.FlowRows
import PcapRacer.RunMemory

set_option relaxedAutoImplicit false
set_option autoImplicit false

namespace PcapRacer

open BoundedTable (len Refuses)
open ChunkedRun (scan)

/-! ### One flow -/

/-- The totals of more packets. -/
structure Totals.Le (a b : Totals) : Prop where
  firstTs : b.firstTs ≤ a.firstTs
  lastTs : a.lastTs ≤ b.lastTs
  firstFrame : b.firstFrame ≤ a.firstFrame
  lastFrame : a.lastFrame ≤ b.lastFrame
  packetsC2s : a.packetsC2s ≤ b.packetsC2s
  packetsS2c : a.packetsS2c ≤ b.packetsS2c
  bytesC2s : a.bytesC2s ≤ b.bytesC2s
  bytesS2c : a.bytesS2c ≤ b.bytesS2c
  synCount : a.synCount ≤ b.synCount
  finCount : a.finCount ≤ b.finCount
  rstCount : a.rstCount ≤ b.rstCount
  tcpFlagsC2s : a.tcpFlagsC2s ||| b.tcpFlagsC2s = b.tcpFlagsC2s
  tcpFlagsS2c : a.tcpFlagsS2c ||| b.tcpFlagsS2c = b.tcpFlagsS2c
  finC2s : a.finC2s ≤ b.finC2s
  finS2c : a.finS2c ≤ b.finS2c
  synC2s : a.synC2s ≤ b.synC2s
  synackS2c : a.synackS2c ≤ b.synackS2c
  sawReset : a.sawReset ≤ b.sawReset

/-- No counter of the two together wraps. -/
structure Totals.Fits (a b : Totals) : Prop where
  packetsC2s : a.packetsC2s.toNat + b.packetsC2s.toNat < 2 ^ 64
  packetsS2c : a.packetsS2c.toNat + b.packetsS2c.toNat < 2 ^ 64
  bytesC2s : a.bytesC2s.toNat + b.bytesC2s.toNat < 2 ^ 64
  bytesS2c : a.bytesS2c.toNat + b.bytesS2c.toNat < 2 ^ 64
  synCount : a.synCount.toNat + b.synCount.toNat < 2 ^ 32
  finCount : a.finCount.toNat + b.finCount.toNat < 2 ^ 32
  rstCount : a.rstCount.toNat + b.rstCount.toNat < 2 ^ 32

theorem le_add_of_toNat_lt {x y : UInt64} (h : x.toNat + y.toNat < 2 ^ 64) : x ≤ x + y := by
  rw [UInt64.le_iff_toNat_le, UInt64.toNat_add, Nat.mod_eq_of_lt h]
  exact Nat.le_add_right _ _

theorem mark_le_add_of_toNat_lt {x y : UInt32} (h : x.toNat + y.toNat < 2 ^ 32) : x ≤ x + y := by
  rw [UInt32.le_iff_toNat_le, UInt32.toNat_add, Nat.mod_eq_of_lt h]
  exact Nat.le_add_right _ _

namespace Totals

/-- The packets counted. -/
def packets (a : Totals) : ℕ := a.packetsC2s.toNat + a.packetsS2c.toNat

/-- The bytes counted. -/
def bytes (a : Totals) : ℕ := a.bytesC2s.toNat + a.bytesS2c.toNat

/-- The largest of the counters of SYN, FIN and RST. -/
def marks (a : Totals) : ℕ := max a.synCount.toNat (max a.finCount.toNat a.rstCount.toNat)

theorem packets_of (o : Observation) : (of o).packets = 1 := by
  unfold packets of
  cases o.forward <;> rfl

theorem bytes_of (o : Observation) : (of o).bytes = o.len.toNat := by
  unfold bytes of
  cases o.forward <;> simp

theorem marks_of (o : Observation) : (of o).marks ≤ 1 := by
  have hone : ∀ b : Bool, (if b then (1 : UInt32) else 0).toNat ≤ 1 := by decide
  exact max_le (hone _) (max_le (hone _) (hone _))

theorem fits_of_lt {a b : Totals} (hpackets : a.packets + b.packets < 2 ^ 64)
    (hbytes : a.bytes + b.bytes < 2 ^ 64) (hmarks : a.marks + b.marks < 2 ^ 32) : a.Fits b := by
  unfold packets bytes marks at *
  constructor <;> omega

/-- What two totals show together. -/
theorem shows_join (a b : Totals) :
    CountsTo (a.join b).packets (a.packets + b.packets) ∧
      (a.join b).bytes ≤ a.bytes + b.bytes ∧ (a.join b).marks ≤ a.marks + b.marks := by
  unfold CountsTo packets bytes marks join
  simp only [UInt64.toNat_add, UInt32.toNat_add]
  omega

theorem Le.refl (a : Totals) : a.Le a where
  firstTs := le_refl _
  lastTs := le_refl _
  firstFrame := le_refl _
  lastFrame := le_refl _
  packetsC2s := UInt64.le_refl _
  packetsS2c := UInt64.le_refl _
  bytesC2s := UInt64.le_refl _
  bytesS2c := UInt64.le_refl _
  synCount := UInt32.le_refl _
  finCount := UInt32.le_refl _
  rstCount := UInt32.le_refl _
  tcpFlagsC2s := UInt16.or_self
  tcpFlagsS2c := UInt16.or_self
  finC2s := le_refl _
  finS2c := le_refl _
  synC2s := le_refl _
  synackS2c := le_refl _
  sawReset := le_refl _

theorem Le.trans {a b c : Totals} (h : a.Le b) (h' : b.Le c) : a.Le c where
  firstTs := h'.firstTs.trans h.firstTs
  lastTs := h.lastTs.trans h'.lastTs
  firstFrame := h'.firstFrame.trans h.firstFrame
  lastFrame := h.lastFrame.trans h'.lastFrame
  packetsC2s := UInt64.le_trans h.packetsC2s h'.packetsC2s
  packetsS2c := UInt64.le_trans h.packetsS2c h'.packetsS2c
  bytesC2s := UInt64.le_trans h.bytesC2s h'.bytesC2s
  bytesS2c := UInt64.le_trans h.bytesS2c h'.bytesS2c
  synCount := UInt32.le_trans h.synCount h'.synCount
  finCount := UInt32.le_trans h.finCount h'.finCount
  rstCount := UInt32.le_trans h.rstCount h'.rstCount
  tcpFlagsC2s := by rw [← h'.tcpFlagsC2s, ← UInt16.or_assoc, h.tcpFlagsC2s]
  tcpFlagsS2c := by rw [← h'.tcpFlagsS2c, ← UInt16.or_assoc, h.tcpFlagsS2c]
  finC2s := h.finC2s.trans h'.finC2s
  finS2c := h.finS2c.trans h'.finS2c
  synC2s := h.synC2s.trans h'.synC2s
  synackS2c := h.synackS2c.trans h'.synackS2c
  sawReset := h.sawReset.trans h'.sawReset

theorem le_join {a b : Totals} (h : a.Fits b) : a.Le (a.join b) where
  firstTs := min_le_left _ _
  lastTs := le_max_left _ _
  firstFrame := min_le_left _ _
  lastFrame := le_max_left _ _
  packetsC2s := le_add_of_toNat_lt h.packetsC2s
  packetsS2c := le_add_of_toNat_lt h.packetsS2c
  bytesC2s := le_add_of_toNat_lt h.bytesC2s
  bytesS2c := le_add_of_toNat_lt h.bytesS2c
  synCount := mark_le_add_of_toNat_lt h.synCount
  finCount := mark_le_add_of_toNat_lt h.finCount
  rstCount := mark_le_add_of_toNat_lt h.rstCount
  tcpFlagsC2s := by rw [join, ← UInt16.or_assoc, UInt16.or_self]
  tcpFlagsS2c := by rw [join, ← UInt16.or_assoc, UInt16.or_self]
  finC2s := Bool.left_le_or _ _
  finS2c := Bool.left_le_or _ _
  synC2s := Bool.left_le_or _ _
  synackS2c := Bool.left_le_or _ _
  sawReset := Bool.left_le_or _ _

end Totals

/-- What stands in a slot stays. -/
def Keeps (slot slot' : Option Text) : Prop := ∀ s, slot = some s → slot' = some s

theorem Keeps.refl (slot : Option Text) : Keeps slot slot := fun _ h => h

theorem Keeps.trans {a b c : Option Text} (h : Keeps a b) (h' : Keeps b c) : Keeps a c :=
  fun s hs => h' s (h s hs)

theorem keeps_or (slot v : Option Text) : Keeps slot (slot.or v) := fun s hs => by rw [hs]; rfl

namespace Flow

/-- The details of more packets. -/
structure Names.Le (a b : Names) : Prop where
  sni : Keeps a.sni b.sni
  httpHost : Keeps a.httpHost b.httpHost
  dnsQname : Keeps a.dnsQname b.dnsQname
  ja3 : Keeps a.ja3 b.ja3
  ja3s : Keeps a.ja3s b.ja3s
  ja4 : Keeps a.ja4 b.ja4

theorem Names.le_join (a b : Names) : a.Le (a.join b) :=
  ⟨keeps_or _ _, keeps_or _ _, keeps_or _ _, keeps_or _ _, keeps_or _ _, keeps_or _ _⟩

/-- The flow has grown: it is the same conversation, of which more is known. -/
structure Grows (f g : Flow) : Prop where
  id : g.id = f.id
  key : g.key = f.key
  communityId : g.communityId = f.communityId
  totals : f.totals.Le g.totals
  names : f.names.Le g.names
  service : f.service.isSome → g.service.isSome
  specific : ¬ Vague f.service → Keeps f.service g.service

theorem Grows.refl (f : Flow) : f.Grows f where
  id := rfl
  key := rfl
  communityId := rfl
  totals := .refl _
  names := ⟨.refl _, .refl _, .refl _, .refl _, .refl _, .refl _⟩
  service h := h
  specific _ := .refl _

theorem Grows.trans {f g h : Flow} (hfg : f.Grows g) (hgh : g.Grows h) : f.Grows h where
  id := hgh.id.trans hfg.id
  key := hgh.key.trans hfg.key
  communityId := hgh.communityId.trans hfg.communityId
  totals := hfg.totals.trans hgh.totals
  names := ⟨hfg.names.sni.trans hgh.names.sni, hfg.names.httpHost.trans hgh.names.httpHost,
    hfg.names.dnsQname.trans hgh.names.dnsQname, hfg.names.ja3.trans hgh.names.ja3,
    hfg.names.ja3s.trans hgh.names.ja3s, hfg.names.ja4.trans hgh.names.ja4⟩
  service hf := hgh.service (hfg.service hf)
  specific hvague s hs := by
    have hg : g.service = some s := hfg.specific hvague s hs
    refine hgh.specific ?_ s hg
    rw [hg, ← hs]
    exact hvague

/-- **Folding a packet into a flow grows it.** -/
theorem grows_see {f : Flow} {o : Observation} (h : f.totals.Fits (.of o)) :
    f.Grows (f.see o) where
  id := f.see_id o
  key := f.see_key o
  communityId := f.see_communityId o
  totals := f.see_totals o ▸ Totals.le_join h
  names := f.see_names o ▸ Names.le_join _ _
  service hf := by
    rw [see_service]
    unfold takeService
    cases o.pkt.frame.highestLayer with
    | none => exact hf
    | some layer =>
        dsimp only
        split
        · rfl
        · exact hf
  specific hvague s hs := by
    rw [see_service]
    unfold takeService
    cases o.pkt.frame.highestLayer with
    | none => exact hs
    | some layer =>
        have hkeep : ¬ (f.service = none ∨ Vague f.service) :=
          not_or.mpr ⟨by rw [hs]; exact Option.some_ne_none s, hvague⟩
        exact (if_neg hkeep).trans hs

/-- **Merging another flow in grows a flow.** -/
theorem grows_merge {f g : Flow} (h : f.totals.Fits g.totals) : f.Grows (f.merge g) where
  id := rfl
  key := rfl
  communityId := rfl
  totals := f.merge_totals g ▸ Totals.le_join h
  names := f.merge_names g ▸ Names.le_join _ _
  service hf := by
    rw [merge_service]
    exact Option.isSome_or.trans (Bool.or_eq_true_iff.mpr (.inl hf))
  specific _ := by
    rw [merge_service]
    exact keeps_or _ _

end Flow

/-! ### Connection states -/

/-- How far a connection has come. -/
def TcpState.rank : TcpState → ℕ
  | midstream => 0
  | synSent => 1
  | established => 2
  | closing => 3
  | closed => 4
  | reset => 5

/-- A state that a sign stands for, before those of weaker signs, only advances. -/
theorem TcpState.rank_ite_le {p p' : Prop} [Decidable p] [Decidable p'] {s t t' : TcpState} {n : ℕ}
    (h : p → p') (ht : t.rank ≤ t'.rank ∧ t.rank ≤ s.rank) (hs : s.rank ≤ n) :
    (if p then s else t).rank ≤ (if p' then s else t').rank ∧ (if p then s else t).rank ≤ n := by
  by_cases hp : p
  · rw [if_pos hp, if_pos (h hp)]
    exact ⟨le_refl _, hs⟩
  · rw [if_neg hp]
    refine ⟨?_, ht.2.trans hs⟩
    by_cases hp' : p'
    · rw [if_pos hp']
      exact ht.2
    · rw [if_neg hp']
      exact ht.1

/-- **The connection state only advances.** -/
theorem Flow.Grows.rank_le {f g : Flow} (h : f.Grows g) : f.state.rank ≤ g.state.rank := by
  have hfin : f.finC2s → g.finC2s := Bool.le_iff_imp.mp h.totals.finC2s
  have hfin' : f.finS2c → g.finS2c := Bool.le_iff_imp.mp h.totals.finS2c
  have hsyn : f.synC2s → g.synC2s := Bool.le_iff_imp.mp h.totals.synC2s
  have hack : f.synackS2c → g.synackS2c := Bool.le_iff_imp.mp h.totals.synackS2c
  have hreset : f.sawReset → g.sawReset := Bool.le_iff_imp.mp h.totals.sawReset
  have hclosed : f.finC2s && f.finS2c → g.finC2s && g.finS2c := by
    simpa only [Bool.and_eq_true] using And.imp hfin hfin'
  have hclosing : f.finC2s || f.finS2c → g.finC2s || g.finS2c := by
    simpa only [Bool.or_eq_true] using Or.imp hfin hfin'
  have hestablished : f.synC2s && f.synackS2c → g.synC2s && g.synackS2c := by
    simpa only [Bool.and_eq_true] using And.imp hsyn hack
  unfold state
  rw [h.key]
  by_cases hproto : f.key.proto ≠ 6
  · rw [if_pos hproto, if_pos hproto]
  · rw [if_neg hproto, if_neg hproto]
    refine (TcpState.rank_ite_le (n := 5) hreset ?_ (by decide)).1
    refine TcpState.rank_ite_le hclosed ?_ (by decide)
    refine TcpState.rank_ite_le hclosing ?_ (by decide)
    refine TcpState.rank_ite_le hestablished ?_ (by decide)
    exact TcpState.rank_ite_le hsyn ⟨le_refl _, by decide⟩ (by decide)

/-! ### The table -/

namespace FlowTable

/-- The table has grown: its flows are still there, each grown. -/
structure Grows (t t' : FlowTable) : Prop where
  lookup : ∀ key f, t.flows.lookup key = some f →
    ∃ g, t'.flows.lookup key = some g ∧ f.Grows g
  evicted : t.evicted ≤ t'.evicted

theorem Grows.refl (t : FlowTable) : t.Grows t :=
  ⟨fun _ f hf => ⟨f, hf, .refl f⟩, Nat.le_refl _⟩

theorem Grows.trans {t₁ t₂ t₃ : FlowTable} (h : t₁.Grows t₂) (h' : t₂.Grows t₃) : t₁.Grows t₃ where
  lookup key f hf := by
    obtain ⟨g, hg, hfg⟩ := h.lookup key f hf
    obtain ⟨k, hk, hgk⟩ := h'.lookup key g hg
    exact ⟨k, hk, hfg.trans hgk⟩
  evicted := h.evicted.trans h'.evicted

/-- An insert grows a table, if what it replaces grows. -/
theorem grows_insert {t t' : FlowTable} {key : Tuple} {g : Flow}
    (hflows : t'.flows = t.flows.insert key g)
    (hg : ∀ f, t.flows.lookup key = some f → f.Grows g) (hevicted : t.evicted ≤ t'.evicted) :
    t.Grows t' where
  lookup key' f hf := by
    rw [hflows]
    by_cases hkey : key' = key
    · subst hkey
      exact ⟨g, AList.lookup_insert _, hg f hf⟩
    · exact ⟨f, (AList.lookup_insert_ne hkey).trans hf, .refl f⟩
  evicted := hevicted

/-- The flows are numbered from one on, and the next number follows. -/
structure Numbered (t : FlowTable) : Prop where
  ids : (t.values.map Flow.id).Perm (List.range' 1 (len t.flows))
  nextId : t.nextId = len t.flows + 1

/-- The packets that the table accounts for: those of its flows, and those it refused. -/
def counted (t : FlowTable) : ℕ := (t.values.map Flow.packets).sum + t.evicted

/-- The bytes of its flows. -/
def bytes (t : FlowTable) : ℕ := (t.values.map Flow.bytes).sum

/-- The SYN, FIN and RST marks of its flows. -/
def marks (t : FlowTable) : ℕ := (t.values.map fun f => f.totals.marks).sum

/-- With so many more packets, bytes and marks no counter wraps. -/
structure Room (t : FlowTable) (packets bytes marks : ℕ) : Prop where
  packets : t.counted + packets < 2 ^ 64
  bytes : t.bytes + bytes < 2 ^ 64
  marks : t.marks + marks < 2 ^ 32

theorem Room.fits {t : FlowTable} {packets bytes marks : ℕ} (h : t.Room packets bytes marks)
    {key : Tuple} {f : Flow} (hf : t.flows.lookup key = some f) {x : Totals}
    (hpackets : x.packets ≤ packets) (hbytes : x.bytes ≤ bytes) (hmarks : x.marks ≤ marks) :
    f.totals.Fits x := by
  have hmem : f ∈ t.values := BoundedTable.mem_values_iff.mpr ⟨key, hf⟩
  have hle : ∀ w : Flow → ℕ, w f ≤ (t.values.map w).sum := fun w =>
    List.single_le_sum (fun _ _ => Nat.zero_le _) _ (List.mem_map_of_mem hmem)
  have hcounted : f.packets ≤ t.counted := (hle _).trans (Nat.le_add_right _ _)
  exact Totals.fits_of_lt ((Nat.add_le_add hcounted hpackets).trans_lt h.packets)
    ((Nat.add_le_add (hle Flow.bytes) hbytes).trans_lt h.bytes)
    ((Nat.add_le_add (hle fun f => f.totals.marks) hmarks).trans_lt h.marks)

/-- What an update of the table can do to it: replace a flow by one of the same number, or add a flow
under the next number. -/
structure Updates (t t' : FlowTable) (key : Tuple) (g : Flow) : Prop where
  flows : t'.flows = t.flows.insert key g
  old : ∀ f, t.flows.lookup key = some f → g.id = f.id ∧ t'.nextId = t.nextId
  new : t.flows.lookup key = none → g.id = t.nextId ∧ t'.nextId = t.nextId + 1

theorem Numbered.update {t t' : FlowTable} (h : t.Numbered) {key : Tuple} {g : Flow}
    (hup : Updates t t' key g) : t'.Numbered := by
  have hvalues : t'.values = g :: BoundedTable.values (t.flows.erase key) := by
    rw [values, hup.flows, BoundedTable.values_insert]
  have hlen := BoundedTable.len_insert t.flows key g
  cases hold : t.flows.lookup key with
  | some f =>
      obtain ⟨hid, hnext⟩ := hup.old f hold
      rw [if_pos (BoundedTable.mem_of_lookup hold), ← hup.flows] at hlen
      have hperm := (BoundedTable.values_perm_of_lookup hold).map Flow.id
      refine ⟨?_, by rw [hnext, hlen, h.nextId]⟩
      rw [hvalues, hlen, List.map_cons, hid]
      exact hperm.symm.trans h.ids
  | none =>
      obtain ⟨hid, hnext⟩ := hup.new hold
      have hnew : key ∉ t.flows := AList.lookup_eq_none.mp hold
      rw [if_neg hnew, ← hup.flows] at hlen
      refine ⟨?_, by rw [hnext, hlen, h.nextId]⟩
      rw [hvalues, BoundedTable.values_erase_of_not_mem hnew, hlen, List.map_cons, hid, h.nextId,
        List.range'_concat, Nat.one_mul, Nat.add_comm 1]
      exact (h.ids.cons _).trans (List.perm_append_singleton _ _).symm

/-- What an update adds to a sum over the flows. -/
theorem sum_update (w : Flow → ℕ) {t t' : FlowTable} {key : Tuple} {g : Flow}
    (hup : Updates t t' key g) :
    (t'.values.map w).sum + ((t.flows.lookup key).map w).getD 0 = (t.values.map w).sum + w g := by
  have hvalues : t'.values = g :: BoundedTable.values (t.flows.erase key) := by
    rw [values, hup.flows, BoundedTable.values_insert]
  rw [hvalues, List.map_cons, List.sum_cons]
  cases hold : t.flows.lookup key with
  | some f =>
      have hsum := ((BoundedTable.values_perm_of_lookup hold).map w).sum_eq
      rw [List.map_cons, List.sum_cons] at hsum
      change ((BoundedTable.values t.flows).map w).sum = _ at hsum
      change _ + w f = ((BoundedTable.values t.flows).map w).sum + w g
      omega
  | none =>
      rw [BoundedTable.values_erase_of_not_mem (AList.lookup_eq_none.mp hold), Option.map_none,
        Option.getD_none, Nat.add_zero]
      exact Nat.add_comm _ _

/-- An update of the flow of a conversation that brings these totals. -/
structure Brings (t t' : FlowTable) (key : Tuple) (g : Flow) (x : Totals) : Prop
    extends Updates t t' key g where
  join : ∀ f, t.flows.lookup key = some f →
    g.totals = f.totals.join x ∧ (f.totals.Fits x → f.Grows g)
  opens : t.flows.lookup key = none → g.totals = x
  evicted : t'.evicted = t.evicted

/-- The operation keeps the flows numbered, grows the table and accounts for what it brings. -/
structure Sound (t t' : FlowTable) (packets bytes marks : ℕ) : Prop where
  numbered : t'.Numbered
  grows : t.Grows t'
  counted : t'.counted = t.counted + packets
  bytes : t'.bytes ≤ t.bytes + bytes
  marks : t'.marks ≤ t.marks + marks

theorem Sound.refl {t : FlowTable} (h : t.Numbered) : Sound t t 0 0 0 :=
  ⟨h, .refl t, rfl, le_refl _, le_refl _⟩

theorem Sound.trans {t₁ t₂ t₃ : FlowTable} {packets bytes marks packets' bytes' marks' : ℕ}
    (h : Sound t₁ t₂ packets bytes marks) (h' : Sound t₂ t₃ packets' bytes' marks') :
    Sound t₁ t₃ (packets + packets') (bytes + bytes') (marks + marks') where
  numbered := h'.numbered
  grows := h.grows.trans h'.grows
  counted := by rw [h'.counted, h.counted, Nat.add_assoc]
  bytes := by
    have hfirst := h.bytes
    have hsecond := h'.bytes
    omega
  marks := by
    have hfirst := h.marks
    have hsecond := h'.marks
    omega

/-- After an operation there is room for the rest. -/
theorem Sound.room {t t' : FlowTable} {packets bytes marks packets' bytes' marks' : ℕ}
    (h : Sound t t' packets bytes marks)
    (hroom : t.Room (packets + packets') (bytes + bytes') (marks + marks')) :
    t'.Room packets' bytes' marks' := by
  obtain ⟨hpackets, hbytes, hmarks⟩ := hroom
  have hcounted := h.counted
  have hfirst := h.bytes
  have hsecond := h.marks
  exact ⟨by omega, by omega, by omega⟩

theorem Room.left {t : FlowTable} {packets bytes marks packets' bytes' marks' : ℕ}
    (h : t.Room (packets + packets') (bytes + bytes') (marks + marks')) :
    t.Room packets bytes marks := by
  obtain ⟨hpackets, hbytes, hmarks⟩ := h
  exact ⟨by omega, by omega, by omega⟩

/-- What the flow shows after the update, of what it had shown before. -/
theorem Brings.shows {t t' : FlowTable} {key : Tuple} {g : Flow} {x : Totals}
    (h : Brings t t' key g x) :
    CountsTo g.packets (((t.flows.lookup key).map Flow.packets).getD 0 + x.packets) ∧
      g.bytes ≤ ((t.flows.lookup key).map Flow.bytes).getD 0 + x.bytes ∧
      g.totals.marks ≤ ((t.flows.lookup key).map fun f => f.totals.marks).getD 0 + x.marks := by
  cases hold : t.flows.lookup key with
  | some f =>
      obtain ⟨hjoin, -⟩ := h.join f hold
      obtain ⟨hpackets, hbytes, hmarks⟩ := f.totals.shows_join x
      rw [← hjoin] at hpackets hbytes hmarks
      exact ⟨hpackets, hbytes, hmarks⟩
  | none =>
      rw [← h.opens hold]
      exact ⟨(Nat.zero_add g.packets).symm ▸ .refl _, (Nat.zero_add g.bytes).ge,
        (Nat.zero_add g.totals.marks).ge⟩

theorem Brings.sound {t t' : FlowTable} {key : Tuple} {g : Flow} {x : Totals}
    (h : Brings t t' key g x) (hnum : t.Numbered) (hroom : t.Room x.packets x.bytes x.marks) :
    Sound t t' x.packets x.bytes x.marks := by
  obtain ⟨hpackets, hbytes, hmarks⟩ := h.shows
  refine ⟨hnum.update h.toUpdates, grows_insert h.flows (fun f hf => ?_) h.evicted.ge, ?_, ?_, ?_⟩
  · exact (h.join f hf).2 (hroom.fits hf (le_refl _) (le_refl _) (le_refl _))
  · have hsum := sum_update Flow.packets h.toUpdates
    have hle : ((t.flows.lookup key).map Flow.packets).getD 0 ≤
        (t.values.map Flow.packets).sum := by
      cases hold : t.flows.lookup key with
      | none => exact Nat.zero_le _
      | some f =>
          exact List.single_le_sum (fun _ _ => Nat.zero_le _) _
            (List.mem_map_of_mem (BoundedTable.mem_values_iff.mpr ⟨key, hold⟩))
    have hfew := hroom.packets
    unfold counted at *
    have hexact := hpackets.2 (by omega)
    rw [h.evicted]
    omega
  · have hsum := sum_update Flow.bytes h.toUpdates
    unfold FlowTable.bytes
    omega
  · have hsum := sum_update (fun f => f.totals.marks) h.toUpdates
    unfold FlowTable.marks
    omega

theorem Numbered.id_lt {t : FlowTable} (h : t.Numbered) {key : Tuple} {f : Flow}
    (hf : t.flows.lookup key = some f) : f.id < t.nextId := by
  have hmem := h.ids.mem_iff.mp
    (List.mem_map_of_mem (f := Flow.id) (BoundedTable.mem_values_iff.mpr ⟨key, hf⟩))
  rw [List.mem_range'_1] at hmem
  have hnext := h.nextId
  omega

/-! ### Observing and merging -/

/-- Merging one flow of another table brings what it has counted. -/
theorem brings_mergeOne (t : FlowTable) (key : Tuple) (f : Flow) :
    ∃ g, Brings t (t.mergeOne key f) key g f.totals := by
  unfold mergeOne
  cases hold : t.flows.lookup key with
  | some old =>
      refine ⟨old.merge f, ⟨rfl, fun _ h => ?_, fun h => ?_⟩, fun _ h => ?_, fun h => ?_, rfl⟩
      · cases hold.symm.trans h
        exact ⟨rfl, rfl⟩
      · cases hold.symm.trans h
      · cases hold.symm.trans h
        exact ⟨old.merge_totals f, Flow.grows_merge⟩
      · cases hold.symm.trans h
  | none =>
      refine ⟨{ f with id := t.nextId }, ⟨rfl, fun _ h => ?_, fun _ => ⟨rfl, rfl⟩⟩,
        fun _ h => ?_, fun _ => rfl, rfl⟩
      · cases hold.symm.trans h
      · cases hold.symm.trans h

variable [Hashes]

theorem updates_step {t : FlowTable} (h : t.Numbered) {o : Observation}
    (hr : ¬ Refuses t.maxFlows t.flows o.tuple.key) :
    Updates t (t.step o).1 o.tuple.key (t.folded o) where
  flows := step_flows_of_admits hr
  old f hf := by
    have hentry : t.entry o.tuple.key o.ts o.frame = f := by
      rw [entry, hf]
      rfl
    rw [step_of_admits hr, folded, hentry, Flow.fold_id]
    exact ⟨rfl, if_neg (h.id_lt hf).ne⟩
  new hnone := by
    have hentry : t.entry o.tuple.key o.ts o.frame =
        Flow.fresh t.nextId o.tuple.key o.ts o.frame := by
      rw [entry, hnone]
      rfl
    rw [step_of_admits hr, folded, hentry, Flow.fold_id]
    exact ⟨rfl, if_pos rfl⟩

/-- Observing a packet brings its totals. -/
theorem brings_step {t : FlowTable} (h : t.Numbered) {o : Observation}
    (hr : ¬ Refuses t.maxFlows t.flows o.tuple.key) :
    Brings t (t.step o).1 o.tuple.key (t.folded o) (.of o) where
  toUpdates := updates_step h hr
  join f hf := by
    rw [folded, entry, hf]
    exact ⟨f.see_totals o, Flow.grows_see⟩
  opens hnone := by
    rw [folded, entry, hnone]
    exact Flow.fresh_fold_totals _ o
  evicted := by rw [step_of_admits hr]

/-- What happens to a table: a packet is observed, or another table is merged in, which lists its
flows in some order. -/
inductive Op where
  | observe (o : Observation)
  | merge (other : FlowTable) (order : List (Σ _ : Tuple, Flow))
      (horder : order.Perm other.flows.entries)

def apply (t : FlowTable) : Op → FlowTable
  | .observe o => (t.step o).1
  | .merge other order _ => t.merge other order

def exec (t : FlowTable) (ops : List Op) : FlowTable := ops.foldl apply t

/-- The packets that an operation brings. -/
def Op.packets : Op → ℕ
  | .observe _ => 1
  | .merge other _ _ => other.counted

/-- The bytes that an operation brings. -/
def Op.bytes : Op → ℕ
  | .observe o => o.len.toNat
  | .merge other _ _ => other.bytes

/-- The SYN, FIN and RST marks that an operation brings. -/
def Op.marks : Op → ℕ
  | .observe o => (Totals.of o).marks
  | .merge other _ _ => other.marks

theorem sound_step {t : FlowTable} (h : t.Numbered) {o : Observation}
    (hroom : t.Room 1 o.len.toNat (Totals.of o).marks) :
    Sound t (t.step o).1 1 o.len.toNat (Totals.of o).marks := by
  by_cases hr : Refuses t.maxFlows t.flows o.tuple.key
  · rw [step_of_refuses hr]
    exact ⟨⟨h.ids, h.nextId⟩, ⟨fun _ f hf => ⟨f, hf, .refl f⟩, Nat.le_succ _⟩,
      (Nat.add_assoc _ _ _).symm, Nat.le_add_right _ _, Nat.le_add_right _ _⟩
  · have hsound := (brings_step h hr).sound h
    rw [Totals.packets_of, Totals.bytes_of] at hsound
    exact hsound hroom

omit [Hashes] in
/-- Merging flows one by one. -/
theorem sound_mergeOnes {t : FlowTable} (h : t.Numbered) (order : List (Σ _ : Tuple, Flow))
    (hroom : t.Room (order.map fun e => e.2.packets).sum (order.map fun e => e.2.bytes).sum
      (order.map fun e => e.2.totals.marks).sum) :
    Sound t (order.foldl (fun t e => t.mergeOne e.1 e.2) t)
      (order.map fun e => e.2.packets).sum (order.map fun e => e.2.bytes).sum
      (order.map fun e => e.2.totals.marks).sum := by
  induction order generalizing t with
  | nil => exact .refl h
  | cons e order ih =>
      simp only [List.map_cons, List.sum_cons] at hroom ⊢
      obtain ⟨g, hbrings⟩ := brings_mergeOne t e.1 e.2
      have hfirst := hbrings.sound h hroom.left
      exact hfirst.trans (ih hfirst.numbered (hfirst.room hroom))

/-- **Either operation is sound.** -/
theorem sound_apply {t : FlowTable} (h : t.Numbered) {op : Op}
    (hroom : t.Room op.packets op.bytes op.marks) :
    Sound t (t.apply op) op.packets op.bytes op.marks := by
  cases op with
  | observe o => exact sound_step h hroom
  | merge other order horder =>
      have hsum : ∀ w : Flow → ℕ, (order.map fun e => w e.2).sum = (other.values.map w).sum := by
        intro w
        rw [(horder.map _).sum_eq, values, BoundedTable.values, List.map_map]
        rfl
      have hcredit : Sound t { t with evicted := t.evicted + other.evicted } other.evicted 0 0 :=
        ⟨⟨h.ids, h.nextId⟩, ⟨fun _ f hf => ⟨f, hf, .refl f⟩, Nat.le_add_right _ _⟩,
          (Nat.add_assoc _ _ _).symm, le_refl _, le_refl _⟩
      have hpackets : Op.packets (.merge other order horder) =
          other.evicted + (order.map fun e => e.2.packets).sum := by
        rw [hsum]
        exact Nat.add_comm _ _
      have hbytes : Op.bytes (.merge other order horder) =
          0 + (order.map fun e => e.2.bytes).sum := by
        rw [hsum, Nat.zero_add]
        rfl
      have hmarks : Op.marks (.merge other order horder) =
          0 + (order.map fun e => e.2.totals.marks).sum := by
        rw [hsum fun f => f.totals.marks, Nat.zero_add]
        rfl
      rw [hpackets, hbytes, hmarks] at hroom ⊢
      exact hcredit.trans (sound_mergeOnes hcredit.numbered order (hcredit.room hroom))

/-- A sequence of operations. -/
theorem sound_exec {t : FlowTable} (h : t.Numbered) {ops : List Op}
    (hroom : t.Room (ops.map Op.packets).sum (ops.map Op.bytes).sum (ops.map Op.marks).sum) :
    Sound t (t.exec ops) (ops.map Op.packets).sum (ops.map Op.bytes).sum
      (ops.map Op.marks).sum := by
  induction ops generalizing t with
  | nil => exact .refl h
  | cons op ops ih =>
      simp only [List.map_cons, List.sum_cons] at hroom ⊢
      have hfirst := sound_apply h hroom.left
      exact hfirst.trans (ih hfirst.numbered (hfirst.room hroom))

/-- The first of some operations, and the rest after them. -/
theorem sound_exec_append {t : FlowTable} (h : t.Numbered) {first more : List Op}
    (hroom : t.Room ((first ++ more).map Op.packets).sum ((first ++ more).map Op.bytes).sum
      ((first ++ more).map Op.marks).sum) :
    Sound t (t.exec first) (first.map Op.packets).sum (first.map Op.bytes).sum
        (first.map Op.marks).sum ∧
      Sound (t.exec first) (t.exec (first ++ more)) (more.map Op.packets).sum
        (more.map Op.bytes).sum (more.map Op.marks).sum := by
  simp only [List.map_append, List.sum_append] at hroom
  have hfirst := sound_exec h hroom.left
  have hmore := sound_exec hfirst.numbered (hfirst.room hroom)
  have hsplit : (t.exec first).exec more = t.exec (first ++ more) := List.foldl_append.symm
  exact ⟨hfirst, hsplit ▸ hmore⟩

omit [Hashes] in
theorem numbered_new (maxFlows : ℕ) : (new maxFlows).Numbered := ⟨List.Perm.refl _, rfl⟩

omit [Hashes] in
/-- A fresh table has room for as much as its counters hold. -/
theorem room_new (maxFlows : ℕ) {packets bytes marks : ℕ} (hpackets : packets < 2 ^ 64)
    (hbytes : bytes < 2 ^ 64) (hmarks : marks < 2 ^ 32) :
    (new maxFlows).Room packets bytes marks :=
  ⟨(Nat.zero_add packets).trans_lt hpackets, (Nat.zero_add bytes).trans_lt hbytes,
    (Nat.zero_add marks).trans_lt hmarks⟩

/-- **Any mix of observing and merging only grows a table.**  After any operations on a fresh table
that bring fewer than 2 ^ 64 packets and bytes and fewer than 2 ^ 32 marks, the flows are numbered
from one without a gap, and every packet observed, here or in a table that was merged in, is counted
in a flow or as refused.  Every flow that was there after the first of the operations is still there
after all of them, and has grown: it has its number, key and Community ID, its counters are no
smaller, its details stand, and its connection has come at least as far. -/
theorem exec_grows (maxFlows : ℕ) {first more : List Op}
    (hpackets : ((first ++ more).map Op.packets).sum < 2 ^ 64)
    (hbytes : ((first ++ more).map Op.bytes).sum < 2 ^ 64)
    (hmarks : ((first ++ more).map Op.marks).sum < 2 ^ 32) :
    (((new maxFlows).exec (first ++ more)).values.map Flow.id).Perm
        (List.range' 1 (len ((new maxFlows).exec (first ++ more)).flows)) ∧
      ((new maxFlows).exec (first ++ more)).nextId =
        len ((new maxFlows).exec (first ++ more)).flows + 1 ∧
      ((new maxFlows).exec (first ++ more)).counted = ((first ++ more).map Op.packets).sum ∧
      ((new maxFlows).exec first).evicted ≤ ((new maxFlows).exec (first ++ more)).evicted ∧
      ∀ key f, ((new maxFlows).exec first).flows.lookup key = some f →
        ∃ g, ((new maxFlows).exec (first ++ more)).flows.lookup key = some g ∧ f.Grows g ∧
          f.state.rank ≤ g.state.rank := by
  have hroom := room_new maxFlows hpackets hbytes hmarks
  have hall := sound_exec (numbered_new maxFlows) hroom
  obtain ⟨-, hmore⟩ := sound_exec_append (numbered_new maxFlows) hroom
  refine ⟨hall.numbered.ids, hall.numbered.nextId, hall.counted.trans (Nat.zero_add _),
    hmore.grows.evicted, fun key f hf => ?_⟩
  obtain ⟨g, hg, hgrows⟩ := hmore.grows.lookup key f hf
  exact ⟨g, hg, hgrows, hgrows.rank_le⟩

end FlowTable

/-! ### A packet here, and one in a table that is merged in -/

/-- A call for a packet of 60 bytes from 10.0.0.1 to 10.0.0.2, or back. -/
def pingCall (back : Bool) (frame : ℕ) : Observation :=
  { tuple := { srcIp := .v4 (if back then 0x0a000002 else 0x0a000001)
               dstIp := .v4 (if back then 0x0a000001 else 0x0a000002)
               srcPort := 0, dstPort := 0, proto := 1 }
    pkt := {}, ts := frame, frame, len := 60 }

/-- Merge a table that has seen the answer. -/
def mergePing [Hashes] : FlowTable.Op :=
  .merge ((FlowTable.new 4).step (pingCall true 1)).1 _ (List.Perm.refl _)

theorem exec_grows_ping :
    (pingCall true 1).tuple.key = (pingCall false 1).tuple.key ∧ ∀ _ : Hashes,
      ∃ f g, ((FlowTable.new 4).exec [.observe (pingCall false 1)]).flows.lookup
          (pingCall false 1).tuple.key = some f ∧
        ((FlowTable.new 4).exec ([.observe (pingCall false 1)] ++ [mergePing])).flows.lookup
          (pingCall false 1).tuple.key = some g ∧
        f.packets = 1 ∧ g.packets = 2 ∧ f.Grows g ∧
        ((FlowTable.new 4).exec ([.observe (pingCall false 1)] ++ [mergePing])).counted = 2 := by
  refine ⟨by decide, fun _ => ?_⟩
  have hpackets : (([FlowTable.Op.observe (pingCall false 1)] ++ [mergePing]).map
      FlowTable.Op.packets).sum = 2 := rfl
  have hbytes : (([FlowTable.Op.observe (pingCall false 1)] ++ [mergePing]).map
      FlowTable.Op.bytes).sum = 120 := rfl
  have hmarks : (([FlowTable.Op.observe (pingCall false 1)] ++ [mergePing]).map
      FlowTable.Op.marks).sum = 0 := rfl
  obtain ⟨f, hf, hone⟩ : ∃ f, ((FlowTable.new 4).exec
      [.observe (pingCall false 1)]).flows.lookup (pingCall false 1).tuple.key = some f ∧
      f.packets = 1 := ⟨_, rfl, rfl⟩
  obtain ⟨g', hg', htwo⟩ : ∃ g, ((FlowTable.new 4).exec
      ([.observe (pingCall false 1)] ++ [mergePing])).flows.lookup
        (pingCall false 1).tuple.key = some g ∧ g.packets = 2 := ⟨_, rfl, rfl⟩
  obtain ⟨-, -, hcounted, -, hgrows⟩ := FlowTable.exec_grows 4
    (by rw [hpackets]; decide) (by rw [hbytes]; decide) (by rw [hmarks]; decide)
  obtain ⟨g, hg, hfg, -⟩ := hgrows _ f hf
  cases hg'.symm.trans hg
  exact ⟨f, g', hf, hg, hone, htwo, hfg, hcounted.trans hpackets⟩

/-! ### Runs -/

theorem FlowTable.Grows.len_le {t t' : FlowTable} (h : t.Grows t') : len t.flows ≤ len t'.flows := by
  refine (List.subperm_of_subset t.flows.keys_nodup fun key hkey => ?_).length_le
  obtain ⟨f, hf⟩ := Option.isSome_iff_exists.mp
    (AList.lookup_isSome.mpr (AList.mem_keys.mpr hkey))
  obtain ⟨g, hg, -⟩ := h.lookup key f hf
  exact AList.mem_keys.mp (BoundedTable.mem_of_lookup hg)

section Run

variable [Hashes]

/-- Observing packets is one kind of operation. -/
theorem FlowTable.run_eq_exec (t : FlowTable) (calls : List Observation) :
    t.run calls = t.exec (calls.map .observe) := by
  rw [exec, List.foldl_map]
  rfl

omit [Hashes] in
/-- What calls bring, each of a packet with a length of 32 bits. -/
theorem FlowTable.loads_of_calls {calls : List Observation}
    (hlens : ∀ o ∈ calls, o.len.toNat < 2 ^ 32) :
    ((calls.map Op.observe).map Op.packets).sum = calls.length ∧
      ((calls.map Op.observe).map Op.bytes).sum ≤ calls.length * (2 ^ 32 - 1) ∧
      ((calls.map Op.observe).map Op.marks).sum ≤ calls.length := by
  induction calls with
  | nil => exact ⟨rfl, le_refl _, le_refl _⟩
  | cons o calls ih =>
      obtain ⟨hpackets, hbytes, hmarks⟩ := ih fun o ho => hlens o (List.mem_cons_of_mem _ ho)
      have hlen := hlens o List.mem_cons_self
      have hmark := Totals.marks_of o
      simp only [List.map_cons, List.sum_cons, List.length_cons, Op.packets, Op.bytes, Op.marks]
      omega

omit [Hashes] in
/-- Fewer than 2 ^ 32 calls, each of a packet with a length of 32 bits, fit into a fresh table. -/
theorem FlowTable.room_of_calls (maxFlows : ℕ) (calls : List Observation)
    (hlens : ∀ o ∈ calls, o.len.toNat < 2 ^ 32) (hfew : calls.length < 2 ^ 32) :
    (new maxFlows).Room ((calls.map Op.observe).map Op.packets).sum
      ((calls.map Op.observe).map Op.bytes).sum ((calls.map Op.observe).map Op.marks).sum := by
  obtain ⟨hpackets, hbytes, hmarks⟩ := loads_of_calls hlens
  exact room_new maxFlows (by omega) (by omega) (by omega)

namespace Engine

/-- The call for a record carries its length. -/
theorem len_of_flowCall {e : Engine} {o : Owned} {d : Dissected} {obs : Observation}
    (h : e.flowCall o d = some obs) : obs.len.toNat < 2 ^ 32 := by
  unfold flowCall at h
  split at h
  · cases h
  · obtain ⟨t, -, hcall⟩ := Option.bind_eq_some_iff.mp h
    split at hcall
    · cases hcall
    · cases hcall
      exact o.origLen.toNat_lt

/-- A run makes at most one call for a record, and each carries a length of 32 bits. -/
theorem flowCalls_le (defer : Bool) (e : Engine) (os : List Owned) :
    (flowCalls defer e os).length ≤ os.length ∧
      ∀ obs ∈ flowCalls defer e os, obs.len.toNat < 2 ^ 32 := by
  induction os generalizing e with
  | nil => exact ⟨Nat.le_refl 0, by simp [flowCalls]⟩
  | cons o os ih =>
      have hone : (e.flowCall o (dissectOne o defer)).toList.length ≤ 1 := by
        cases e.flowCall o (dissectOne o defer) <;> simp
      rw [flowCalls, List.length_append, List.length_cons]
      refine ⟨?_, fun obs hobs => ?_⟩
      · cases step defer e o with
        | error p => exact Nat.add_le_add hone (Nat.zero_le os.length) |>.trans_eq (Nat.add_comm ..)
        | ok r =>
            have hrest := (ih r.1).1
            dsimp only
            omega
      · rcases List.mem_append.mp hobs with hobs | hobs
        · exact len_of_flowCall (Option.mem_toList.mp hobs)
        · cases hstep : step defer e o with
          | error p =>
              rw [hstep] at hobs
              cases hobs
          | ok r =>
              rw [hstep] at hobs
              exact (ih r.1).2 obs hobs

end Engine

/-- **Absorbing more records grows the flow table**, when all of them are fewer than 2 ^ 32. -/
theorem Engine.scan_flows {cfg : Config} {e e' : Engine} {os os' : List Owned}
    {rows rows' : List Packet} (h : scan (step cfg.reassemble) (new cfg) os = .ok (e, rows))
    (h' : scan (step cfg.reassemble) e os' = .ok (e', rows'))
    (hfew : os.length + os'.length < 2 ^ 32) : e.flows.Grows e'.flows := by
  obtain ⟨hcalls, hlens⟩ := flowCalls_le cfg.reassemble (new cfg) os
  obtain ⟨hcalls', hlens'⟩ := flowCalls_le cfg.reassemble e os'
  have hroom := FlowTable.room_of_calls cfg.maxFlows
    (flowCalls cfg.reassemble (new cfg) os ++ flowCalls cfg.reassemble e os')
    (fun o ho => (List.mem_append.mp ho).elim (hlens o) (hlens' o))
    (by rw [List.length_append]; omega)
  have hfirst : e.flows = (FlowTable.new cfg.maxFlows).exec _ :=
    (flows_of_scan h).trans (FlowTable.run_eq_exec _ _)
  have hmore : e'.flows = (FlowTable.new cfg.maxFlows).run
      (flowCalls cfg.reassemble (new cfg) os ++ flowCalls cfg.reassemble e os') := by
    rw [flows_of_scan h', flows_of_scan h]
    exact (FlowTable.run_append _ _ _).symm
  rw [FlowTable.run_eq_exec] at hmore
  rw [hfirst, hmore]
  rw [List.map_append] at hroom ⊢
  exact (FlowTable.sound_exec_append (FlowTable.numbered_new cfg.maxFlows) hroom).2.grows

omit [Hashes] in
/-- The counters of a stream table only increase. -/
theorem StreamTable.counters_run_le (t : StreamTable StreamKey) (segs : List (Segment StreamKey)) :
    t.evicted ≤ (t.run segs).evicted ∧ t.truncated ≤ (t.run segs).truncated := by
  induction segs generalizing t with
  | nil => exact ⟨le_refl _, le_refl _⟩
  | cons g segs ih =>
      obtain ⟨hevicted, htruncated⟩ := ih (t.push g.key g.seq g.payload).2
      have hpush : t.evicted ≤ (t.push g.key g.seq g.payload).2.evicted ∧
          t.truncated ≤ (t.push g.key g.seq g.payload).2.truncated := by
        unfold push
        split
        · exact ⟨le_refl _, le_refl _⟩
        split
        · exact ⟨Nat.le_succ _, le_refl _⟩
        · exact ⟨le_refl _, Nat.le_add_right _ _⟩
      exact ⟨hpush.1.trans hevicted, hpush.2.trans htruncated⟩

omit [Hashes] in
/-- The counters of a fragment table only increase. -/
theorem FragTable.counters_run_le (t : FragTable FragKey) (frags : List (Fragment FragKey)) :
    t.completed ≤ (t.run frags).completed ∧ t.dropped ≤ (t.run frags).dropped := by
  induction frags generalizing t with
  | nil => exact ⟨le_refl _, le_refl _⟩
  | cons g frags ih =>
      obtain ⟨hcompleted, hdropped⟩ := ih (t.pushFragment g).2
      have hpush : t.completed ≤ (t.pushFragment g).2.completed ∧
          t.dropped ≤ (t.pushFragment g).2.dropped := by
        unfold pushFragment push
        split
        · exact ⟨le_refl _, Nat.le_succ _⟩
        · cases (t.entry g.key).add t.maxBytes g.offset g.moreFragments g.data with
          | overBudget => exact ⟨le_refl _, Nat.le_succ _⟩
          | waiting set => exact ⟨le_refl _, le_refl _⟩
          | complete out => exact ⟨Nat.le_succ _, le_refl _⟩
      exact ⟨hpush.1.trans hcompleted, hpush.2.trans hdropped⟩

/-- No counter of the metadata is larger. -/
structure RunStats.Le (s s' : RunStats) : Prop where
  packets : s.packets ≤ s'.packets
  captureBytes : s.captureBytes ≤ s'.captureBytes
  flows : s.flows ≤ s'.flows
  malformed : s.malformed ≤ s'.malformed
  panicked : s.panicked ≤ s'.panicked
  truncated : s.truncated ≤ s'.truncated
  flowsEvicted : s.flowsEvicted ≤ s'.flowsEvicted
  streamsTruncated : s.streamsTruncated ≤ s'.streamsTruncated
  streamsEvicted : s.streamsEvicted ≤ s'.streamsEvicted
  fragmentsReassembled : s.fragmentsReassembled ≤ s'.fragmentsReassembled
  fragmentsDropped : s.fragmentsDropped ≤ s'.fragmentsDropped

/-- **The counters of the metadata only increase** as more records are absorbed. -/
theorem Engine.scan_stats {cfg : Config} {e e' : Engine} {os os' : List Owned}
    {rows rows' : List Packet} (h : scan (step cfg.reassemble) (new cfg) os = .ok (e, rows))
    (h' : scan (step cfg.reassemble) e os' = .ok (e', rows'))
    (hfew : os.length + os'.length < 2 ^ 32) (badBlocks badBlocks' : ℕ) :
    { e with stats := { e.stats with badBlocks } }.finalizeStats.Le
      { e' with stats := { e'.stats with badBlocks := badBlocks' } }.finalizeStats := by
  have hwhole : scan (step cfg.reassemble) (new cfg) (os ++ os') = .ok (e', rows ++ rows') := by
    rw [ChunkedRun.scan_append_of_ok h, h']
    rfl
  have htallies := scan_tallies h
  have htallies' := scan_tallies hwhole
  have hgrows := scan_flows h h' hfew
  obtain ⟨-, ⟨segs, -, hstreams⟩, ⟨frags, hfrags⟩⟩ := reached_of_scan h'
  have hstreamsLe := e.streams.counters_run_le segs
  have hfragsLe := e.frags.counters_run_le frags
  rw [← hstreams] at hstreamsLe
  rw [← hfrags] at hfragsLe
  have hcount : ∀ p : Packet → Bool, rows.countP p ≤ (rows ++ rows').countP p := fun p =>
    (List.sublist_append_left rows rows').countP_le
  obtain ⟨hp, hc, hm, hd, ht, -⟩ :=
    finalizeStats_counters { e with stats := { e.stats with badBlocks } }
  obtain ⟨hp', hc', hm', hd', ht', -⟩ :=
    finalizeStats_counters { e' with stats := { e'.stats with badBlocks := badBlocks' } }
  obtain ⟨hf, hfe, hst, hse, hfr, hfd⟩ :=
    finalizeStats_tables { e with stats := { e.stats with badBlocks } }
  obtain ⟨hf', hfe', hst', hse', hfr', hfd'⟩ :=
    finalizeStats_tables { e' with stats := { e'.stats with badBlocks := badBlocks' } }
  constructor
  case packets =>
    rw [hp, hp', show e.stats.packets = _ from htallies.packets,
      show e'.stats.packets = _ from htallies'.packets, List.length_append]
    exact Nat.le_add_right _ _
  case captureBytes =>
    rw [hc, hc']
    refine htallies.captureBytes.trans_le (le_trans ?_ htallies'.captureBytes.ge)
    rw [List.map_append, List.sum_append]
    exact Nat.le_add_right _ _
  case flows => rw [hf, hf']; exact hgrows.len_le
  case malformed =>
    rw [hm, hm']
    exact htallies.malformed.trans_le ((hcount _).trans htallies'.malformed.ge)
  case panicked =>
    rw [hd, hd']
    exact htallies.panicked.trans_le ((hcount _).trans htallies'.panicked.ge)
  case truncated =>
    rw [ht, ht']
    exact htallies.truncated.trans_le ((hcount _).trans htallies'.truncated.ge)
  case flowsEvicted => rw [hfe, hfe']; exact hgrows.evicted
  case streamsTruncated => rw [hst, hst']; exact hstreamsLe.2
  case streamsEvicted => rw [hse, hse']; exact hstreamsLe.1
  case fragmentsReassembled => rw [hfr, hfr']; exact hfragsLe.1
  case fragmentsDropped => rw [hfd, hfd']; exact hfragsLe.2

end Run

end PcapRacer
