/-
**The extension headers of an IPv6 packet.**

Extension headers count their length in three ways, and stand in any order; the Fragment header may
be among them, more than once.  One loop walks all of them, as far as its guard goes.

Main definitions:

* `ChainHeader` — an extension header of any kind;
* `ChainHeader.bytesOf` — a chain of them, each naming the next;
* `lastOffset` — the offset of the last Fragment header;
* `V6Packet` — an IPv6 packet with such a chain.

Main results:

* `Network.extensionChain_header`, `Network.extensionChain_chain` — one header, and a chain of them;
* `hop_ipv6_chain` — **a chain of at most fifteen headers is walked to its end**.
-/

import PcapRacer.ByteOrder
import PcapRacer.V6Fragments
import PcapRacer.Walk

set_option relaxedAutoImplicit false
set_option autoImplicit false

namespace PcapRacer

/-! ### Chains -/

/-- An extension header, without the type of the header after it. -/
inductive ChainHeader where
  /-- One that is only stepped over. -/
  | stepped (ext : ExtHeader)
  /-- A Fragment header.  The offset counts eight bytes at a time; below it are two reserved bits
  and the flag of whether more fragments follow. -/
  | fragment (reserved : UInt8) (offset : Fin 8192) (flags : Fin 8) (ident : UInt32)

namespace ChainHeader

def kind : ChainHeader → UInt8
  | stepped ext => ext.kind
  | fragment _ _ _ _ => 44

def name : ChainHeader → Text
  | stepped ext => (Network.optionHeaderName ext.kind).getD "ah".toList
  | fragment _ _ _ _ => "frag".toList

/-- The offset in bytes that a Fragment header gives. -/
def offset? : ChainHeader → Option UInt16
  | stepped _ => none
  | fragment _ offset _ _ => some (.ofNat (8 * offset))

/-- The offset and the flags in their two bytes. -/
def offFlags (offset : Fin 8192) (flags : Fin 8) : UInt16 := .ofNat (8 * offset) ||| .ofNat flags

/-- What stands behind the type of the next header. -/
def body : ChainHeader → Bytes
  | stepped ext => ext.len :: ext.body
  | fragment reserved offset flags ident =>
      reserved :: (beBytes 2 (offFlags offset flags).toNat ++ beBytes 4 ident.toNat)

/-- What a header leaves in the columns. -/
def mark (s : Hdr) : ChainHeader → Hdr
  | stepped _ => s
  | fragment _ offset flags ident =>
      { s with net := { s.net with ipFragOffset := some (.ofNat (8 * offset))
                                   ipFlagMf := some (offFlags offset flags &&& 1 == 1)
                                   ipId := some ident } }

/-- What a chain of headers before `proto` begins with. -/
def headKind (hs : List ChainHeader) (proto : UInt8) : UInt8 := (hs.head?.map kind).getD proto

/-- The bytes of a chain of headers before `proto`. -/
def bytesOf : List ChainHeader → UInt8 → Bytes
  | [], _ => []
  | h :: hs, proto => headKind hs proto :: (h.body ++ bytesOf hs proto)

theorem offFlags_and (offset : Fin 8192) (flags : Fin 8) :
    offFlags offset flags &&& 0xfff8 = .ofNat (8 * offset) := by
  have hflags : ∀ flags : Fin 8, UInt16.ofNat flags &&& 0xfff8 = 0 := by decide
  have hlt := offset.isLt
  rw [offFlags, V6Datagram.or_and, V6Datagram.and_fff8 (by omega) ⟨offset, rfl⟩, hflags]
  exact UInt16.or_zero

end ChainHeader

/-- The offset of the last Fragment header. -/
def lastOffset (hs : List ChainHeader) : Option UInt16 :=
  (hs.filterMap ChainHeader.offset?).getLast?

theorem lastOffset_cons (h : ChainHeader) (hs : List ChainHeader) (start : UInt16) :
    (lastOffset (h :: hs)).getD start = (lastOffset hs).getD (h.offset?.getD start) := by
  unfold lastOffset
  cases hoff : h.offset? with
  | none => simp [hoff]
  | some offset => simp [hoff, List.getLast?_cons]

/-! ### The walk -/

namespace Network

open Header

/-- **One extension header.**  Its name is kept, and a Fragment header says where the fragment
belongs. -/
theorem extensionChain_header (h : ChainHeader) {next : UInt8} {tail : Bytes} {c : Cur}
    (hrest : c.rest = next :: (h.body ++ tail)) (guard : ℕ) (names : List Text)
    (fragOffset : UInt16) :
    ∃ c', c'.rest = tail ∧ ∀ s,
      (extensionChain (guard + 1) { proto := h.kind, names, fragOffset }).run c s =
        (extensionChain guard
          { proto := next, names := names ++ [h.name],
            fragOffset := h.offset?.getD fragOffset }).run c' (h.mark s) := by
  have hnext : c.rest = [next] ++ (h.body ++ tail) := hrest
  obtain ⟨c₁, h₁, hr₁⟩ := exists_read_append (β := ExtChain) hnext rfl fun b => b.headD 0
  cases h with
  | stepped ext =>
      have hlen : c₁.rest = [ext.len] ++ (ext.body ++ tail) := h₁
      obtain ⟨c₂, h₂, hr₂⟩ := exists_read_append (β := ExtChain) hlen rfl fun b => b.headD 0
      obtain ⟨hname, hbody⟩ | ⟨hkind, hbody⟩ := ext.length_body
      · obtain ⟨c₃, h₃, hr₃⟩ := exists_skip_append (β := ExtChain) h₂ hbody
        obtain ⟨name, hname⟩ := Option.isSome_iff_exists.mp hname
        refine ⟨c₃, h₃, fun s => ?_⟩
        have hstepped : (ChainHeader.stepped ext).name = name := by simp [ChainHeader.name, hname]
        change (extensionChain (guard + 1) { proto := ext.kind, names, fragOffset }).run c s = _
        rw [hstepped, extensionChain_option hname]
        exact (hr₁ _ s).trans ((hr₂ _ s).trans (hr₃ _ s))
      · obtain ⟨c₃, h₃, hr₃⟩ := exists_skip_append (β := ExtChain) h₂ hbody
        refine ⟨c₃, h₃, fun s => ?_⟩
        have hstepped : (ChainHeader.stepped ext).name = "ah".toList := by
          rw [ChainHeader.name, hkind]
          rfl
        change (extensionChain (guard + 1) { proto := ext.kind, names, fragOffset }).run c s = _
        rw [hstepped, extensionChain_ah hkind]
        exact (hr₁ _ s).trans ((hr₂ _ s).trans (hr₃ _ s))
  | fragment reserved offset flags ident =>
      have hfields : c₁.rest = [reserved] ++
          (beBytes 2 (ChainHeader.offFlags offset flags).toNat ++
            (beBytes 4 ident.toNat ++ tail)) := by
        simpa [ChainHeader.body] using h₁
      obtain ⟨c₂, h₂, hr₂⟩ := exists_read_append (β := ExtChain) hfields rfl fun b => b.headD 0
      obtain ⟨c₃, h₃, hr₃⟩ := exists_read_append (β := ExtChain) h₂ (length_beBytes 2 _) fun b =>
        UInt16.ofNat (beNat b)
      obtain ⟨c₄, h₄, hr₄⟩ := exists_read_append (β := ExtChain) h₃ (length_beBytes 4 _) fun b =>
        UInt32.ofNat (beNat b)
      rw [ofNat_beBytes_two] at hr₃
      rw [ofNat_beBytes_four] at hr₄
      refine ⟨c₄, h₄, fun s => ?_⟩
      change (extensionChain (guard + 1) { proto := 44, names, fragOffset }).run c s = _
      rw [extensionChain_frag rfl]
      refine (hr₁ _ _).trans ((hr₂ _ _).trans ((hr₃ _ _).trans ((hr₄ _ _).trans ?_)))
      rw [ChainHeader.offFlags_and]
      exact run_set_bind _ _ _ _

/-- **A chain of extension headers is walked**, as far as the guard goes. -/
theorem extensionChain_chain {hs : List ChainHeader} {proto : UInt8} {tail : Bytes} {c : Cur}
    (hrest : c.rest = ChainHeader.bytesOf hs proto ++ tail) (guard : ℕ) (names : List Text)
    (fragOffset : UInt16) :
    ∃ c', c'.rest = tail ∧ ∀ s,
      (extensionChain (guard + hs.length)
          { proto := ChainHeader.headKind hs proto, names, fragOffset }).run c s =
        (extensionChain guard
          { proto, names := names ++ hs.map ChainHeader.name,
            fragOffset := (lastOffset hs).getD fragOffset }).run c'
          (hs.foldl ChainHeader.mark s) := by
  induction hs generalizing c names fragOffset with
  | nil => exact ⟨c, hrest, fun s => by rw [List.map_nil, List.append_nil]; rfl⟩
  | cons h hs ih =>
      rw [ChainHeader.bytesOf, List.cons_append, List.append_assoc] at hrest
      obtain ⟨c₁, h₁, hr₁⟩ := extensionChain_header h hrest (guard + hs.length) names fragOffset
      obtain ⟨c₂, h₂, hr₂⟩ := ih h₁ (names ++ [h.name]) (h.offset?.getD fragOffset)
      refine ⟨c₂, h₂, fun s => (hr₁ s).trans ((hr₂ (h.mark s)).trans ?_)⟩
      rw [lastOffset_cons, List.append_assoc]
      rfl

/-- Extension headers leave the column of their names alone. -/
theorem ip6ExtHeaders_marked (hs : List ChainHeader) (s : Hdr) :
    (hs.foldl ChainHeader.mark s).net.ip6ExtHeaders = s.net.ip6ExtHeaders := by
  induction hs generalizing s with
  | nil => rfl
  | cons h hs ih =>
      rw [List.foldl_cons, ih]
      cases h <;> rfl

/-- What the end of the walk records. -/
theorem afterChain_records (src dst : BitVec 128) (chain : ExtChain) (c : Cur) (s : Hdr) :
    ∃ s', (afterChain src dst chain).run c s =
        (.ok (⟨chain.proto, .v6 src, .v6 dst, chain.fragOffset⟩, c), s') ∧
      s'.net.ipProto = some chain.proto ∧
      s'.net.ip6ExtHeaders =
        if chain.names = [] then s.net.ip6ExtHeaders else some (Text.join [','] chain.names) := by
  unfold afterChain
  by_cases hnames : chain.names = []
  · rw [if_neg (not_not_intro hnames), if_pos hnames]
    exact ⟨_, rfl, rfl, rfl⟩
  · rw [if_pos hnames, if_neg hnames]
    exact ⟨_, rfl, rfl, rfl⟩

end Network

/-! ### Packets -/

/-- An IPv6 packet: the fixed header, a chain of extension headers, and an upper-layer protocol. -/
structure V6Packet where
  /-- Version, traffic class and flow label. -/
  flow : Bytes
  length_flow : flow.length = 4
  version : UInt32.ofNat (beNat flow) >>> 28 = 6
  payloadLen : UInt16
  hopLimit : UInt8
  src : BitVec 128
  dst : BitVec 128
  chain : List ChainHeader
  /-- The loop gives up on a longer chain. -/
  length_chain : chain.length ≤ 15
  proto : UInt8
  upper : ¬ IsExtension proto
  /-- What follows the last extension header. -/
  payload : Bytes

/-- The packet on the wire. -/
def V6Packet.bytes (p : V6Packet) : Bytes :=
  p.flow ++ (beBytes 2 p.payloadLen.toNat ++ ([ChainHeader.headKind p.chain p.proto] ++
    ([p.hopLimit] ++ (beBytes 16 p.src.toNat ++ (beBytes 16 p.dst.toNat ++
      (ChainHeader.bytesOf p.chain p.proto ++ p.payload))))))

theorem ofNat_beBytes_sixteen (a : BitVec 128) :
    BitVec.ofNat 128 (beNat (beBytes 16 a.toNat)) = a := by
  rw [beNat_beBytes, Nat.mod_eq_of_lt (show a.toNat < 256 ^ 16 from a.isLt), BitVec.ofNat_toNat,
    BitVec.setWidth_eq]

/-- **A chain of at most fifteen extension headers is walked to its end.**  Their names are
recorded, in order; the protocol is that of the header behind them; and what follows the last of
them is handed over, with the offset of the last Fragment header. -/
theorem hop_ipv6_chain (p : V6Packet) (c : Cur) (hc : c.rest = p.bytes) (s : Hdr)
    (frag : Option FragMeta) :
    ∃ c' s', c'.rest = p.payload ∧
      s'.net.ipProto = some p.proto ∧
      s'.net.ip6ExtHeaders =
        (if p.chain = [] then s.net.ip6ExtHeaders
        else some (Text.join [','] (p.chain.map ChainHeader.name))) ∧
      hop .ipv6 c s frag =
        afterIp ⟨p.proto, .v6 p.src, .v6 p.dst, (lastOffset p.chain).getD 0⟩ c' s' frag := by
  obtain ⟨c₁, h₁, hr₁⟩ := Network.ipv6_head hc p.length_flow p.version (length_beBytes 2 _)
    (length_beBytes 16 _) (length_beBytes 16 _)
  obtain ⟨s₁, -, hheaders, hr₁⟩ := hr₁ s
  rw [ofNat_beBytes_sixteen, ofNat_beBytes_sixteen] at hr₁
  have hlen := p.length_chain
  have hguard : 16 = 15 - p.chain.length + 1 + p.chain.length := by omega
  obtain ⟨c₂, h₂, hr₂⟩ := Network.extensionChain_chain h₁ (15 - p.chain.length + 1) [] 0
  obtain ⟨s₂, hrun, hproto, hnames⟩ := Network.afterChain_records p.src p.dst
    ⟨p.proto, p.chain.map ChainHeader.name, (lastOffset p.chain).getD 0⟩ c₂
    (p.chain.foldl ChainHeader.mark s₁)
  have hipv6 : Network.ipv6.run c s =
      (.ok (⟨p.proto, .v6 p.src, .v6 p.dst, (lastOffset p.chain).getD 0⟩, c₂), s₂) := by
    rw [hr₁, hguard, Header.run_bind_congr (hr₂ s₁), Network.extensionChain_end p.upper]
    exact hrun
  refine ⟨c₂, s₂, h₂, hproto, ?_, ?_⟩
  · rw [hnames, Network.ip6ExtHeaders_marked, hheaders]
    simp
  · rw [hop, ip, hipv6]

/-- An echo request behind three extension headers; the Fragment header counts 2 times eight bytes.
-/
def echoBehindThree : V6Packet where
  flow := [0x60, 0, 0, 0]
  length_flow := by decide
  version := by decide
  payloadLen := 36
  hopLimit := 64
  src := 0x20010db8000000000000000000000001
  dst := 0xfe800000000000000000000000000002
  chain :=
    [.stepped ⟨0, 0, [0, 0, 0, 0, 0, 0], .inl ⟨rfl, rfl⟩⟩, .fragment 0 2 1 7,
      .stepped ⟨51, 1, [0, 0, 0, 0, 0, 1, 0, 0, 0, 1], .inr ⟨rfl, rfl⟩⟩]
  length_chain := by decide
  proto := 58
  upper := by decide
  payload := [128, 0, 0, 0, 0x11, 0x22, 0, 5]

theorem hop_ipv6_chain_three :
    ∃ c' s', c'.rest = [128, 0, 0, 0, 0x11, 0x22, 0, 5] ∧
      s'.net.ipProto = some 58 ∧ s'.net.ip6ExtHeaders = some "hopopt,frag,ah".toList ∧
      hop .ipv6 (Cur.new echoBehindThree.bytes) {} none =
        afterIp ⟨58, .v6 echoBehindThree.src, .v6 echoBehindThree.dst, 16⟩ c' s' none := by
  obtain ⟨c', s', hrest, hproto, hnames, hhop⟩ :=
    hop_ipv6_chain echoBehindThree (Cur.new echoBehindThree.bytes) rfl {} none
  exact ⟨c', s', hrest, hproto, hnames.trans rfl, hhop⟩

end PcapRacer
