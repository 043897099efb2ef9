/-
**Fragments of an IPv6 datagram.**

The walk along the extension headers does not end at the Fragment header.  Whatever extension
headers the fragmentable part begins with are stepped over too: in the first fragment they are
missing from its payload, and in a later fragment some other bytes are.

Where the fragmentable part begins with an upper-layer header, its fragments are recorded as they
were cut.

Main definitions:

* `ExtHeader`, `V6Datagram`, `V6Datagram.Cut` — an IPv6 datagram, and a cut of its fragmentable
  part;
* `Arrival` — a fragment under a cursor;
* `Reassembles` — the fragments have one key, and their payloads make up the fragmentable part,
  which is dissected as that of the unfragmented datagram;
* `IsExtension` — the next header is one that the walk steps over.

Main results:

* `Network.extensionChain_exts`, `Network.ipv6_head` — what a walk along extension headers does;
* `V6Datagram.recorded_eq` — what is recorded about a fragment;
* `reassembles_iff` — **a cut datagram reassembles exactly when it is cut in two at least, its
  fragmentable part begins with an upper-layer header, and its chain is not too long**.
-/

import PcapRacer.DatagramRows
import PcapRacer.FragmentCoherence

set_option relaxedAutoImplicit false
set_option autoImplicit false

namespace PcapRacer

/-! ### Header steps -/

namespace Header

variable {α β : Type}

/-- What comes first may be replaced. -/
theorem run_bind_congr {d d' : Header α} {c c' : Cur} {s s' : Hdr}
    (h : d.run c s = d'.run c' s') (f : α → Header β) :
    (d >>= f).run c s = (d' >>= f).run c' s' := by
  rw [run_bind, run_bind, h]

theorem Advances.bind {d : Header α} (hd : d.Advances) (f : α → Header β) : (d >>= f).Advances := by
  intro c s r h
  rw [run_bind] at h
  rcases hx : d.run c s with ⟨e | p, s'⟩
  · rw [hx] at h
    cases h
  · rw [hx] at h
    have hlt : c.start < p.2.start := hd (by rw [hx])
    exact lt_of_lt_of_le hlt ((f p.1).within h).start_le

/-- Writing columns first. -/
theorem run_set_bind (w : Hdr → Hdr) (f : Unit → Header β) (c : Cur) (s : Hdr) :
    (set w >>= f).run c s = (f ()).run c (w s) := rfl

end Header

/-! ### Extension headers -/

/-- The next header is an extension header, which the walk steps over. -/
def IsExtension (proto : UInt8) : Prop :=
  (Network.optionHeaderName proto).isSome = true ∨ proto = 44 ∨ proto = 51

instance : DecidablePred IsExtension := fun proto =>
  inferInstanceAs (Decidable
    ((Network.optionHeaderName proto).isSome = true ∨ proto = 44 ∨ proto = 51))

/-- An extension header that is stepped over, without the type of the header after it. -/
structure ExtHeader where
  kind : UInt8
  len : UInt8
  body : Bytes
  /-- The length counts eight bytes at a time, and in an Authentication Header four. -/
  length_body :
    ((Network.optionHeaderName kind).isSome = true ∧ body.length = (len.toNat + 1) * 8 - 2) ∨
      (kind = 51 ∧ body.length = (len.toNat + 2) * 4 - 2)

/-- What a chain of extension headers before `proto` begins with. -/
def headKind (exts : List ExtHeader) (proto : UInt8) : UInt8 :=
  (exts.head?.map ExtHeader.kind).getD proto

/-- The bytes of a chain of extension headers before `proto`. -/
def chainBytes : List ExtHeader → UInt8 → Bytes
  | [], _ => []
  | e :: exts, proto => [headKind exts proto] ++ ([e.len] ++ (e.body ++ chainBytes exts proto))

namespace Network

open Header

theorem extensionChain_option {chain : ExtChain} {name : Text}
    (h : optionHeaderName chain.proto = some name) (guard : ℕ) :
    extensionChain (guard + 1) chain = (do
      let nh ← read .u8
      let len ← read .u8
      skip ((len.toNat + 1) * 8 - 2)
      extensionChain guard { chain with proto := nh, names := chain.names ++ [name] }) := by
  conv_lhs => unfold extensionChain
  simp only [h]

theorem extensionChain_ah {chain : ExtChain} (h : chain.proto = 51) (guard : ℕ) :
    extensionChain (guard + 1) chain = (do
      let nh ← read .u8
      let len ← read .u8
      skip ((len.toNat + 2) * 4 - 2)
      extensionChain guard { chain with proto := nh, names := chain.names ++ ["ah".toList] }) := by
  have hname : optionHeaderName chain.proto = none := by
    rw [h]
    rfl
  have hfrag : ¬ chain.proto = 44 := by
    rw [h]
    decide
  conv_lhs => unfold extensionChain
  simp only [hname]
  rw [if_neg hfrag, if_pos h]

theorem extensionChain_frag {chain : ExtChain} (h : chain.proto = 44) (guard : ℕ) :
    extensionChain (guard + 1) chain = (do
      let nh ← read .u8
      let _ ← read .u8
      let offFlags ← read .be16
      let ident ← read .be32
      net fun n => { n with ipFragOffset := some (offFlags &&& 0xfff8),
                            ipFlagMf := some (offFlags &&& 1 == 1), ipId := some ident }
      extensionChain guard { proto := nh, names := chain.names ++ ["frag".toList],
                             fragOffset := offFlags &&& 0xfff8 }) := by
  have hname : optionHeaderName chain.proto = none := by
    rw [h]
    rfl
  conv_lhs => unfold extensionChain
  simp only [hname]
  rw [if_pos h]

/-- One extension header is stepped over. -/
theorem extensionChain_ext (e : ExtHeader) {next : UInt8} {tail : Bytes} {c : Cur}
    (hrest : c.rest = [next] ++ ([e.len] ++ (e.body ++ tail))) (guard : ℕ) (names : List Text)
    (fragOffset : UInt16) :
    ∃ c' names', c'.rest = tail ∧ ∀ s,
      (extensionChain (guard + 1) { proto := e.kind, names, fragOffset }).run c s =
        (extensionChain guard { proto := next, names := names', fragOffset }).run c' s := by
  obtain ⟨c₁, h₁, hr₁⟩ := exists_read_append (β := ExtChain) hrest rfl fun b => b.headD 0
  obtain ⟨c₂, h₂, hr₂⟩ := exists_read_append (β := ExtChain) h₁ rfl fun b => b.headD 0
  obtain ⟨hname, hlen⟩ | ⟨hkind, hlen⟩ := e.length_body
  · obtain ⟨c₃, h₃, hr₃⟩ := exists_skip_append (β := ExtChain) h₂ hlen
    obtain ⟨name, hname⟩ := Option.isSome_iff_exists.mp hname
    refine ⟨c₃, names ++ [name], h₃, fun s => ?_⟩
    rw [extensionChain_option hname]
    exact (hr₁ _ s).trans ((hr₂ _ s).trans (hr₃ _ s))
  · obtain ⟨c₃, h₃, hr₃⟩ := exists_skip_append (β := ExtChain) h₂ hlen
    refine ⟨c₃, names ++ ["ah".toList], h₃, fun s => ?_⟩
    rw [extensionChain_ah hkind]
    exact (hr₁ _ s).trans ((hr₂ _ s).trans (hr₃ _ s))

/-- **A chain of extension headers is stepped over**, as far as the guard goes. -/
theorem extensionChain_exts {exts : List ExtHeader} {proto : UInt8} {tail : Bytes} {c : Cur}
    (hrest : c.rest = chainBytes exts proto ++ tail) (guard : ℕ) (names : List Text)
    (fragOffset : UInt16) :
    ∃ c' names', c'.rest = tail ∧ ∀ s,
      (extensionChain (guard + exts.length)
          { proto := headKind exts proto, names, fragOffset }).run c s =
        (extensionChain guard { proto, names := names', fragOffset }).run c' s := by
  induction exts generalizing c names with
  | nil => exact ⟨c, names, hrest, fun s => rfl⟩
  | cons e exts ih =>
      rw [chainBytes, List.append_assoc, List.append_assoc, List.append_assoc] at hrest
      obtain ⟨c₁, names₁, h₁, hr₁⟩ := extensionChain_ext e hrest (guard + exts.length) names
        fragOffset
      obtain ⟨c₂, names₂, h₂, hr₂⟩ := ih h₁ names₁
      exact ⟨c₂, names₂, h₂, fun s => (hr₁ s).trans (hr₂ s)⟩

/-- A chain that is longer than the guard is malformed. -/
theorem extensionChain_too_long {exts : List ExtHeader} {proto : UInt8} {tail : Bytes} {c : Cur}
    (hrest : c.rest = chainBytes exts proto ++ tail) {guard : ℕ} (h : guard ≤ exts.length)
    (names : List Text) (fragOffset : UInt16) (s : Hdr) :
    (extensionChain guard { proto := headKind exts proto, names, fragOffset }).run c s =
      (.error .malformed, s) := by
  induction exts generalizing c names guard with
  | nil =>
      rw [Nat.le_zero.mp h]
      rfl
  | cons e exts ih =>
      cases guard with
      | zero => rfl
      | succ guard =>
          rw [chainBytes, List.append_assoc, List.append_assoc, List.append_assoc] at hrest
          obtain ⟨c₁, names₁, h₁, hr₁⟩ := extensionChain_ext e hrest guard names fragOffset
          exact (hr₁ s).trans (ih h₁ (Nat.le_of_succ_le_succ h) names₁)

/-- An upper-layer header ends the walk. -/
theorem extensionChain_end {proto : UInt8} (h : ¬ IsExtension proto) (guard : ℕ)
    (names : List Text) (fragOffset : UInt16) :
    extensionChain (guard + 1) { proto, names, fragOffset } =
      pure { proto, names, fragOffset } := by
  rw [IsExtension, not_or, not_or, Bool.not_eq_true, Option.isSome_eq_false_iff,
    Option.isNone_iff_eq_none] at h
  obtain ⟨hname, hfrag, hah⟩ := h
  unfold extensionChain
  simp only [hname]
  rw [if_neg hfrag, if_neg hah]

/-- An extension header takes a byte at least. -/
theorem extensionChain_advances {proto : UInt8} (h : IsExtension proto) (guard : ℕ)
    (names : List Text) (fragOffset : UInt16) :
    (extensionChain (guard + 1) { proto, names, fragOffset }).Advances := by
  obtain hsome | hfrag | hah := h
  · obtain ⟨name, hname⟩ := Option.isSome_iff_exists.mp hsome
    rw [extensionChain_option hname]
    exact advances_read_bind .u8 _
  · rw [extensionChain_frag hfrag]
    exact advances_read_bind .u8 _
  · rw [extensionChain_ah hah]
    exact advances_read_bind .u8 _

/-- The walk has come to the end of the extension headers. -/
def afterChain (src dst : BitVec 128) (chain : ExtChain) : Header Datagram := do
  if chain.names ≠ [] then
    net fun n => { n with ip6ExtHeaders := some (Text.join [','] chain.names) }
  net fun n => { n with ipProto := some chain.proto,
                        ipProtoName := some (protoName chain.proto) }
  return { proto := chain.proto, src := .v6 src, dst := .v6 dst, fragOffset := chain.fragOffset }

/-- The end of the walk leaves the mark of a fragment alone. -/
theorem afterChain_run (src dst : BitVec 128) (chain : ExtChain) (c : Cur) (s : Hdr) :
    ∃ s', (afterChain src dst chain).run c s =
        (.ok (⟨chain.proto, .v6 src, .v6 dst, chain.fragOffset⟩, c), s') ∧
      s'.net.ipFlagMf = s.net.ipFlagMf ∧ s'.net.ipId = s.net.ipId := by
  unfold afterChain
  split
  · exact ⟨_, rfl, rfl, rfl⟩
  · exact ⟨_, rfl, rfl, rfl⟩

/-- **The fixed part of an IPv6 header**, and then the chain of extension headers. -/
theorem ipv6_head {flow len src dst tail : Bytes} {next hopLimit : UInt8} {c : Cur}
    (hrest : c.rest = flow ++ (len ++ ([next] ++ ([hopLimit] ++ (src ++ (dst ++ tail))))))
    (hflow : flow.length = 4) (hversion : UInt32.ofNat (beNat flow) >>> 28 = 6)
    (hlen : len.length = 2) (hsrc : src.length = 16) (hdst : dst.length = 16) :
    ∃ c' : Cur, c'.rest = tail ∧ ∀ s, ∃ s', s'.net.ipFlagMf = s.net.ipFlagMf ∧
      s'.net.ip6ExtHeaders = s.net.ip6ExtHeaders ∧ ipv6.run c s =
      (extensionChain 16 { proto := next, names := [], fragOffset := 0 } >>=
        afterChain (.ofNat 128 (beNat src)) (.ofNat 128 (beNat dst))).run c' s' := by
  obtain ⟨c₁, h₁, hr₁⟩ := exists_read_append (β := Datagram) hrest hflow fun b =>
    UInt32.ofNat (beNat b)
  obtain ⟨c₂, h₂, hr₂⟩ := exists_read_append (β := Datagram) h₁ hlen fun b => UInt16.ofNat (beNat b)
  obtain ⟨c₃, h₃, hr₃⟩ := exists_read_append (β := Datagram) h₂ rfl fun b => b.headD 0
  obtain ⟨c₄, h₄, hr₄⟩ := exists_read_append (β := Datagram) h₃ rfl fun b => b.headD 0
  obtain ⟨c₅, h₅, hr₅⟩ := exists_read_append (β := Datagram) h₄ hsrc fun b =>
    BitVec.ofNat 128 (beNat b)
  obtain ⟨c₆, h₆, hr₆⟩ := exists_read_append (β := Datagram) h₅ hdst fun b =>
    BitVec.ofNat 128 (beNat b)
  refine ⟨c₆, h₆, fun s => ?_⟩
  refine ⟨?fields, ?mark, ?headers, (hr₁ _ _).trans ?run⟩
  case run =>
    dsimp only
    rw [if_neg (not_not_intro hversion)]
    refine (hr₂ _ _).trans ((hr₃ _ _).trans ((hr₄ _ _).trans ((hr₅ _ _).trans
      ((hr₆ _ _).trans ?_))))
    exact run_set_bind _ _ _ _
  case mark => rfl
  case headers => rfl

end Network

/-! ### Datagrams -/

/-- A number in network order. -/
def netOrder (n : UInt16) : Bytes := [UInt8.ofNat (n.toNat / 256), UInt8.ofNat n.toNat]

theorem ofNat_netOrder (n : UInt16) : UInt16.ofNat (beNat (netOrder n)) = n := by
  have hn : n.toNat < 65536 := n.toNat_lt
  have hbe : beNat (netOrder n) = n.toNat := by
    simp only [netOrder, beNat, List.foldl_cons, List.foldl_nil, UInt8.toNat_ofNat']
    omega
  rw [hbe, UInt16.ofNat_toNat]

/-- An IPv6 datagram before it is cut: the headers that stay in every fragment, the identification
of its fragments, and the fragmentable part. -/
structure V6Datagram where
  /-- Version, traffic class and flow label. -/
  flow : Bytes
  length_flow : flow.length = 4
  version : UInt32.ofNat (beNat flow) >>> 28 = 6
  hopLimit : UInt8
  src : Bytes
  length_src : src.length = 16
  dst : Bytes
  length_dst : dst.length = 16
  /-- The extension headers before the Fragment header. -/
  exts : List ExtHeader
  ident : Bytes
  length_ident : ident.length = 4
  /-- What the fragmentable part begins with. -/
  proto : UInt8
  body : Bytes
  length_body : body.length < 65536

/-- A stretch of the fragmentable part. -/
structure Piece where
  offset : ℕ
  more : Bool
  data : Bytes

namespace V6Datagram

variable (D : V6Datagram)

/-- The fixed header before `payload`, whose first header is `next`. -/
def head (next : UInt8) (payload : Bytes) : Bytes :=
  D.flow ++ (netOrder (.ofNat payload.length) ++ ([next] ++ ([D.hopLimit] ++ (D.src ++ (D.dst ++
    payload)))))

/-- The datagram in one piece. -/
def whole : Bytes := D.head (headKind D.exts D.proto) (chainBytes D.exts D.proto ++ D.body)

/-- The offset of a piece and the flag of whether more follow. -/
def offFlags (p : Piece) : UInt16 := .ofNat p.offset ||| if p.more then 1 else 0

def fragHeader (p : Piece) : Bytes := [D.proto] ++ ([0] ++ (netOrder (offFlags p) ++ D.ident))

/-- The fragment with one piece of the fragmentable part. -/
def fragment (p : Piece) : Bytes :=
  D.head (headKind D.exts 44) (chainBytes D.exts 44 ++ (D.fragHeader p ++ p.data))

/-- A cut of the fragmentable part: all pieces but the last take up a multiple of eight bytes. -/
structure Cut where
  front : List Bytes
  last : Bytes
  aligned : ∀ b ∈ front, b ≠ [] ∧ 8 ∣ b.length
  whole : front.flatten ++ last = D.body

/-- The pieces from an offset on. -/
def piecesFrom (offset : ℕ) : List Bytes → Bytes → List Piece
  | [], last => [{ offset, more := false, data := last }]
  | b :: front, last =>
      { offset, more := true, data := b } :: piecesFrom (offset + b.length) front last

variable {D}

def Cut.pieces (cut : D.Cut) : List Piece := piecesFrom 0 cut.front cut.last

variable (D)

/-- What the fragments of the datagram have in common. -/
def key : FragKey :=
  { src := .v6 (.ofNat 128 (beNat D.src)), dst := .v6 (.ofNat 128 (beNat D.dst)),
    id := .ofNat (beNat D.ident), proto := D.proto }

def metaOf (p : Piece) : FragMeta :=
  { key := D.key, offset := .ofNat p.offset, moreFragments := p.more, payload := p.data }

end V6Datagram

/-- A piece whose offset can be written in a Fragment header. -/
def Piece.Fits (p : Piece) : Prop := p.offset < 65536 ∧ 8 ∣ p.offset

namespace V6Datagram

variable {D : V6Datagram}

theorem and_fff8 {n : ℕ} (hn : n < 65536) (h : 8 ∣ n) : UInt16.ofNat n &&& 0xfff8 = .ofNat n := by
  obtain ⟨k, rfl⟩ := h
  have hk : k < 8192 := by omega
  have hshift : ∀ j : ℕ, 8 * j = j <<< 3 := fun j => by rw [Nat.shiftLeft_eq, Nat.mul_comm]
  apply UInt16.toNat_inj.mp
  rw [UInt16.toNat_and, UInt16.toNat_ofNat', Nat.mod_eq_of_lt hn]
  calc 8 * k &&& 65528 = k <<< 3 &&& 8191 <<< 3 := by rw [hshift k]; rfl
    _ = (k &&& 8191) <<< 3 := (Nat.shiftLeft_and_distrib ..).symm
    _ = 8 * k := by
      rw [show 8191 = 2 ^ 13 - 1 from rfl, Nat.and_two_pow_sub_one_eq_mod, Nat.mod_eq_of_lt hk,
        hshift]

theorem or_and (x y z : UInt16) : (x ||| y) &&& z = x &&& z ||| y &&& z := by
  apply UInt16.toNat_inj.mp
  simp only [UInt16.toNat_and, UInt16.toNat_or]
  exact Nat.and_or_distrib_right ..

/-- What the walk reads of the offset and of the flag. -/
theorem offFlags_read {p : Piece} (hp : p.Fits) :
    offFlags p &&& 0xfff8 = .ofNat p.offset ∧ (offFlags p &&& 1 == 1) = p.more := by
  have hoff := and_fff8 hp.1 hp.2
  have hbit : UInt16.ofNat p.offset &&& 1 = 0 := by
    rw [← hoff, UInt16.and_assoc]
    exact UInt16.and_zero
  unfold offFlags
  rw [or_and, or_and, hoff, hbit]
  cases p.more
  · exact ⟨UInt16.or_zero, rfl⟩
  · exact ⟨UInt16.or_zero, rfl⟩

/-! ### What is read of a fragment -/

open Header Network

/-- The Fragment header. -/
theorem extensionChain_fragHeader {p : Piece} (hp : p.Fits) {tail : Bytes} {c : Cur}
    (hrest : c.rest = D.fragHeader p ++ tail) (guard : ℕ) (names : List Text)
    (fragOffset : UInt16) (s : Hdr) :
    ∃ c' s' names', c'.rest = tail ∧ s'.net.ipFlagMf = some p.more ∧
      s'.net.ipId = some (.ofNat (beNat D.ident)) ∧
      (extensionChain (guard + 1) { proto := 44, names, fragOffset }).run c s =
        (extensionChain guard
          { proto := D.proto, names := names', fragOffset := .ofNat p.offset }).run c' s' := by
  rw [fragHeader, List.append_assoc, List.append_assoc, List.append_assoc] at hrest
  obtain ⟨c₁, h₁, hr₁⟩ := exists_read_append (β := ExtChain) hrest rfl fun b => b.headD 0
  obtain ⟨c₂, h₂, hr₂⟩ := exists_read_append (β := ExtChain) h₁ rfl fun b => b.headD 0
  obtain ⟨c₃, h₃, hr₃⟩ := exists_read_append (β := ExtChain) h₂ rfl fun b => UInt16.ofNat (beNat b)
  obtain ⟨c₄, h₄, hr₄⟩ := exists_read_append (β := ExtChain) h₃ D.length_ident fun b =>
    UInt32.ofNat (beNat b)
  obtain ⟨hoff, hmore⟩ := offFlags_read hp
  rw [ofNat_netOrder] at hr₃
  rw [← hoff, ← hmore]
  refine ⟨c₄, ?fields, ?names, h₄, ?mark, ?ident, ?run⟩
  case run =>
    rw [extensionChain_frag rfl]
    refine (hr₁ _ _).trans ((hr₂ _ _).trans ((hr₃ _ _).trans ((hr₄ _ _).trans ?_)))
    exact run_set_bind _ _ _ _
  case mark => rfl
  case ident => rfl

/-- **The header of a fragment**: the walk goes on behind the Fragment header. -/
theorem ipv6_fragment {p : Piece} (hp : p.Fits) {c : Cur} (hrest : c.rest = D.fragment p)
    (hexts : D.exts.length ≤ 15) (s : Hdr) :
    ∃ c' s' names, c'.rest = p.data ∧ s'.net.ipFlagMf = some p.more ∧
      s'.net.ipId = some (.ofNat (beNat D.ident)) ∧
      ipv6.run c s =
        (extensionChain (15 - D.exts.length)
            { proto := D.proto, names, fragOffset := .ofNat p.offset } >>=
          afterChain (.ofNat 128 (beNat D.src)) (.ofNat 128 (beNat D.dst))).run c' s' := by
  obtain ⟨c₁, h₁, hr₁⟩ := ipv6_head hrest D.length_flow D.version rfl D.length_src D.length_dst
  obtain ⟨s₁, -, -, hr₁⟩ := hr₁ s
  have hguard : 16 = 15 - D.exts.length + 1 + D.exts.length := by omega
  rw [hguard] at hr₁
  obtain ⟨c₂, names, h₂, hr₂⟩ := extensionChain_exts h₁ (15 - D.exts.length + 1) [] 0
  obtain ⟨c₃, s₃, names', h₃, hmf, hid, hr₃⟩ :=
    extensionChain_fragHeader hp h₂ (15 - D.exts.length) names 0 s₁
  exact ⟨c₃, s₃, names', h₃, hmf, hid, hr₁.trans (run_bind_congr ((hr₂ s₁).trans hr₃) _)⟩

/-- With more than fourteen extension headers before the Fragment header nothing is read. -/
theorem ipv6_fragment_too_long {p : Piece} (hp : p.Fits) {c : Cur} (hrest : c.rest = D.fragment p)
    (hexts : 14 < D.exts.length) (s : Hdr) : (ipv6.run c s).1 = .error .malformed := by
  obtain hlong | hlong := Nat.lt_or_ge 15 D.exts.length
  · obtain ⟨c₁, h₁, hr₁⟩ := ipv6_head hrest D.length_flow D.version rfl D.length_src D.length_dst
    obtain ⟨s₁, -, -, hr₁⟩ := hr₁ s
    rw [hr₁, run_bind, extensionChain_too_long h₁ hlong]
  · obtain ⟨c', s', names, -, -, -, hrun⟩ := ipv6_fragment hp hrest hlong s
    have hguard : 15 - D.exts.length = 0 := by omega
    rw [hrun, hguard]
    rfl

/-- The header of the datagram in one piece. -/
theorem ipv6_whole {w : Cur} (hrest : w.rest = D.whole) (hexts : D.exts.length ≤ 15)
    (hproto : ¬ IsExtension D.proto) (s : Hdr) :
    ∃ c s', c.rest = D.body ∧ s'.net.ipFlagMf = s.net.ipFlagMf ∧ ipv6.run w s =
      (.ok (⟨D.proto, .v6 (.ofNat 128 (beNat D.src)), .v6 (.ofNat 128 (beNat D.dst)), 0⟩, c),
        s') := by
  obtain ⟨c₁, h₁, hr₁⟩ := ipv6_head hrest D.length_flow D.version rfl D.length_src D.length_dst
  obtain ⟨s₁, hmf, -, hr₁⟩ := hr₁ s
  have hguard : 16 = 15 - D.exts.length + 1 + D.exts.length := by omega
  rw [hguard] at hr₁
  obtain ⟨c₂, names, h₂, hr₂⟩ := extensionChain_exts h₁ (15 - D.exts.length + 1) [] 0
  obtain ⟨s', hrun, hmf', -⟩ := afterChain_run (.ofNat 128 (beNat D.src))
    (.ofNat 128 (beNat D.dst)) { proto := D.proto, names, fragOffset := 0 } c₂ s₁
  refine ⟨c₂, s', h₂, hmf'.trans hmf, ?_⟩
  rw [hr₁, run_bind_congr (hr₂ s₁), extensionChain_end hproto]
  exact hrun

end V6Datagram

/-! ### What is recorded about a fragment -/

/-- A fragment of the datagram, under a cursor and with whatever columns are set before it. -/
structure Arrival (D : V6Datagram) where
  piece : Piece
  cur : Cur
  hdr : Hdr
  rest : cur.rest = D.fragment piece

namespace Arrival

variable {D : V6Datagram} (a : Arrival D)

/-- What `ipv6` records about the fragment. -/
def recorded : Option FragMeta := (ip Network.ipv6 a.cur a.hdr none).frag

theorem recorded_of_error {e : DissectError} (h : (Network.ipv6.run a.cur a.hdr).1 = .error e) :
    a.recorded = none := by
  unfold recorded ip
  rcases hx : Network.ipv6.run a.cur a.hdr with ⟨x, s⟩
  rw [hx] at h
  rw [show x = .error e from h]

theorem recorded_of_ok {d : Datagram} {c : Cur} {s : Hdr}
    (h : Network.ipv6.run a.cur a.hdr = (.ok (d, c), s)) :
    a.recorded = Network.fragMeta d s c := by
  unfold recorded ip
  rw [h]
  exact (afterIp_frag d c s none).trans (Option.or_none)

/-- Nothing is recorded behind a chain that is too long. -/
theorem recorded_too_long (hp : a.piece.Fits) (h : 14 < D.exts.length) : a.recorded = none :=
  a.recorded_of_error (V6Datagram.ipv6_fragment_too_long hp a.rest h a.hdr)

/-- **What is recorded about a fragment** whose first header is an upper-layer header: the piece as
it was cut, if it is not all there is. -/
theorem recorded_eq (hp : a.piece.Fits) (hproto : ¬ IsExtension D.proto)
    (hexts : D.exts.length ≤ 14) :
    a.recorded =
      if a.piece.more = true ∨ a.piece.offset ≠ 0 then some (D.metaOf a.piece) else none := by
  obtain ⟨c, s, names, hrest, hmf, hid, hrun⟩ :=
    V6Datagram.ipv6_fragment hp a.rest (Nat.le_succ_of_le hexts) a.hdr
  have hguard : 15 - D.exts.length = 14 - D.exts.length + 1 := by omega
  rw [hguard, Network.extensionChain_end hproto] at hrun
  obtain ⟨s', hend, hmf', hid'⟩ := Network.afterChain_run (.ofNat 128 (beNat D.src))
    (.ofNat 128 (beNat D.dst)) { proto := D.proto, names, fragOffset := .ofNat a.piece.offset } c s
  rw [a.recorded_of_ok (hrun.trans hend), Network.fragMeta, hmf', hmf, hid', hid, hrest]
  have hoff : UInt16.ofNat a.piece.offset = 0 ↔ a.piece.offset = 0 := by
    rw [← UInt16.toNat_inj, UInt16.toNat_ofNat', Nat.mod_eq_of_lt hp.1]
    rfl
  simp only [Option.getD_some, ne_eq, hoff]
  rfl

/-- What is recorded about a fragment has the bytes that are left behind the header. -/
theorem payload_of_recorded {m : FragMeta} (h : a.recorded = some m) :
    ∃ d c, (Network.ipv6.run a.cur a.hdr).1 = .ok (d, c) ∧ m.payload = c.rest := by
  rcases hx : Network.ipv6.run a.cur a.hdr with ⟨e | ⟨d, c⟩, s⟩
  · rw [a.recorded_of_error (by rw [hx])] at h
    cases h
  · refine ⟨d, c, rfl, ?_⟩
    rw [a.recorded_of_ok hx, Network.fragMeta] at h
    split at h
    · cases h
      rfl
    · cases h

/-- **Where the fragmentable part begins with an extension header, bytes are missing from what is
recorded about any fragment.** -/
theorem recorded_lt (hp : a.piece.Fits) (hproto : IsExtension D.proto) {m : FragMeta}
    (h : a.recorded = some m) : m.payload.length < a.piece.data.length := by
  obtain ⟨d, c', hok, hpayload⟩ := a.payload_of_recorded h
  have hexts : D.exts.length ≤ 14 := by
    by_contra hlong
    rw [a.recorded_too_long hp (Nat.lt_of_not_le hlong)] at h
    cases h
  obtain ⟨c, s, names, hrest, -, -, hrun⟩ :=
    V6Datagram.ipv6_fragment hp a.rest (Nat.le_succ_of_le hexts) a.hdr
  have hguard : 15 - D.exts.length = 14 - D.exts.length + 1 := by omega
  rw [hrun, hguard] at hok
  have hlt : c.start < c'.start :=
    Header.Advances.bind (Network.extensionChain_advances hproto _ _ _) _ hok
  have hstop : c'.stop ≤ c.stop := (Header.within _ hok).stop_le
  have hsum := c.start_add_remaining
  have hsum' := c'.start_add_remaining
  rw [hpayload, ← hrest, Cur.length_rest, Cur.length_rest]
  omega

end Arrival

/-! ### The pieces of a cut -/

namespace V6Datagram

theorem piecesFrom_data (offset : ℕ) (front : List Bytes) (last : Bytes) :
    (piecesFrom offset front last).flatMap Piece.data = front.flatten ++ last := by
  induction front generalizing offset with
  | nil => simp [piecesFrom]
  | cons b front ih => simp [piecesFrom, ih]

theorem piecesFrom_ge {offset : ℕ} {front : List Bytes} {last : Bytes} :
    ∀ p ∈ piecesFrom offset front last, offset ≤ p.offset := by
  induction front generalizing offset with
  | nil => simp [piecesFrom]
  | cons b front ih =>
      intro p hp
      obtain rfl | hp := List.mem_cons.mp hp
      · exact le_rfl
      · have := ih p hp
        omega

/-- A piece stands behind all bytes before it. -/
theorem piecesFrom_fits {offset : ℕ} {front : List Bytes} {last : Bytes} (hoff : 8 ∣ offset)
    (hfront : ∀ b ∈ front, b ≠ [] ∧ 8 ∣ b.length) (hlt : offset + front.flatten.length < 65536) :
    ∀ p ∈ piecesFrom offset front last, p.Fits := by
  induction front generalizing offset with
  | nil =>
      intro p hp
      rw [List.mem_singleton.mp hp]
      exact ⟨hlt, hoff⟩
  | cons b front ih =>
      rw [List.flatten_cons, List.length_append] at hlt
      intro p hp
      obtain rfl | hp := List.mem_cons.mp hp
      · exact ⟨lt_of_le_of_lt (Nat.le_add_right ..) hlt, hoff⟩
      · refine ih ?_ (fun x hx => hfront x (List.mem_cons_of_mem b hx)) ?_ p hp
        · exact Nat.dvd_add hoff (hfront b List.mem_cons_self).2
        · rwa [Nat.add_assoc]

theorem piecesFrom_sorted {offset : ℕ} {front : List Bytes} {last : Bytes}
    (hfront : ∀ b ∈ front, b ≠ [] ∧ 8 ∣ b.length) :
    (piecesFrom offset front last).Pairwise fun p q => p.offset < q.offset := by
  induction front generalizing offset with
  | nil => exact List.pairwise_singleton ..
  | cons b front ih =>
      have hfront' : ∀ x ∈ front, x ≠ [] ∧ 8 ∣ x.length := fun x hx =>
        hfront x (List.mem_cons_of_mem b hx)
      refine List.pairwise_cons.mpr ⟨fun p hp => ?_, ih hfront'⟩
      have hge := piecesFrom_ge p hp
      have hpos : 0 < b.length := List.length_pos_of_ne_nil (hfront b List.mem_cons_self).1
      dsimp only
      omega

/-- In a cut in two at least, every piece says that it is one. -/
theorem piecesFrom_marked {offset : ℕ} {front : List Bytes} {last : Bytes}
    (hfront : ∀ b ∈ front, b ≠ [] ∧ 8 ∣ b.length) (h : 0 < offset ∨ front ≠ []) :
    ∀ p ∈ piecesFrom offset front last, p.more = true ∨ p.offset ≠ 0 := by
  cases front with
  | nil =>
      intro p hp
      rw [List.mem_singleton.mp hp]
      exact .inr (Nat.pos_iff_ne_zero.mp (h.resolve_right (not_not_intro rfl)))
  | cons b front =>
      intro p hp
      obtain rfl | hp := List.mem_cons.mp hp
      · exact .inl rfl
      · have hge := piecesFrom_ge p hp
        have hpos : 0 < b.length := List.length_pos_of_ne_nil (hfront b List.mem_cons_self).1
        exact .inr (by omega)

namespace Cut

variable {D : V6Datagram} (cut : D.Cut)

theorem pieces_data : cut.pieces.flatMap Piece.data = D.body :=
  (piecesFrom_data ..).trans cut.whole

theorem pieces_fit : ∀ p ∈ cut.pieces, p.Fits := by
  refine piecesFrom_fits (Nat.dvd_zero 8) cut.aligned ?_
  have hlen := D.length_body
  rw [← cut.whole, List.length_append] at hlen
  omega

theorem pieces_ne_nil : cut.pieces ≠ [] := by
  unfold pieces
  cases cut.front with
  | nil => exact fun h => by cases h
  | cons b front => exact fun h => by cases h

end Cut

end V6Datagram

/-! ### Reassembly -/

def inOffsetOrder (ms : List FragMeta) : List FragMeta :=
  ms.mergeSort fun m m' => decide (m.offset ≤ m'.offset)

/-- The payload behind the IPv6 header under `w` is walked over like the reassembled bytes. -/
def DissectedAlike (key : FragKey) (data : Bytes) (w : Cur) (s : Hdr) : Prop :=
  ∃ d c, (Network.ipv6.run w s).1 = .ok (d, c) ∧ d.fragOffset = 0 ∧
    ∀ below t t', Twin below t t' →
      TwinJourney below (journey (Network.dispatchIpProto d.proto d.src d.dst) c t)
        (datagramJourney key data t')

/-- **The fragments make up the datagram**: each of them is recorded, all under one key, and their
payloads in offset order are the fragmentable part, which is walked over like that of the datagram
in one piece. -/
def Reassembles {D : V6Datagram} (as : List (Arrival D)) (w : Cur) (s : Hdr) : Prop :=
  ∃ key ms, as.map Arrival.recorded = ms.map some ∧ (∀ m ∈ ms, m.key = key) ∧
    (inOffsetOrder ms).flatMap FragMeta.payload = D.body ∧
    DissectedAlike key ((inOffsetOrder ms).flatMap FragMeta.payload) w s

theorem journey_twin {below : List Layer} {d : Header Onward} (hd : d.Built) {c c' : Cur}
    {s s' : Hdr} (hc : c.rest = c'.rest) (hs : Twin below s s') :
    TwinJourney below (journey d c s) (journey d c' s') := by
  rw [journey_eq_resume (Nat.lt_succ_self _), journey_eq_resume (Nat.lt_succ_self _)]
  have htaken : TwinTaken below (d.taken c s none) (d.taken c' s' none) := taken_twin hd hc hs
  refine resume_twin htaken fun o q q' hq hq' hrest => ?_
  have hle : q.remaining ≤ c.remaining := (d.within hq).remaining_le
  have hle' : q'.remaining ≤ c'.remaining := (d.within hq').remaining_le
  exact follow_twin (Nat.lt_succ_of_le hle) (Nat.lt_succ_of_le hle') hrest htaken.2

theorem inOffsetOrder_perm (ms : List FragMeta) : (inOffsetOrder ms).Perm ms :=
  List.mergeSort_perm ms _

/-- Metadata with offsets in rising order are in offset order, however they arrive. -/
theorem inOffsetOrder_eq {ms ns : List FragMeta} (hperm : ms.Perm ns)
    (hsorted : ns.Pairwise fun m m' => m.offset < m'.offset) : inOffsetOrder ms = ns := by
  have hinj : ∀ m ∈ ns, ∀ m' ∈ ns, m.offset = m'.offset → m = m' :=
    fun m hm m' hm' => List.inj_on_of_nodup_map
      (List.pairwise_map.mpr (hsorted.imp fun h => UInt16.ne_of_lt h)) hm hm'
  have hperm' : (inOffsetOrder ms).Perm ns := (inOffsetOrder_perm ms).trans hperm
  have hanti : ∀ m m', m ∈ inOffsetOrder ms → m' ∈ ns → m.offset ≤ m'.offset →
      m'.offset ≤ m.offset → m = m' := fun m m' hm hm' hle hge =>
    hinj m (hperm'.subset hm) m' hm' (UInt16.le_antisymm hle hge)
  have hrising : (inOffsetOrder ms).Pairwise fun m m' => m.offset ≤ m'.offset := by
    refine (List.pairwise_mergeSort ?_ ?_ ms).imp fun h => of_decide_eq_true h
    · intro a b c hab hbc
      exact decide_eq_true (UInt16.le_trans (of_decide_eq_true hab) (of_decide_eq_true hbc))
    · intro a b
      simpa using UInt16.le_total a.offset b.offset
  exact hperm'.eq_of_pairwise hanti hrising (hsorted.imp fun h => UInt16.le_of_lt h)

section Delivery

variable {D : V6Datagram} {cut : D.Cut} {as : List (Arrival D)}

theorem arrivals_fit (has : (as.map Arrival.piece).Perm cut.pieces) : ∀ a ∈ as, a.piece.Fits :=
  fun a ha => cut.pieces_fit a.piece (has.subset (List.mem_map_of_mem ha))

/-- The fragments of a datagram that begins with an upper-layer header make it up. -/
theorem reassembles_of (has : (as.map Arrival.piece).Perm cut.pieces) {w : Cur}
    (hw : w.rest = D.whole) (s : Hdr) (hfront : cut.front ≠ []) (hproto : ¬ IsExtension D.proto)
    (hexts : D.exts.length ≤ 14) : Reassembles as w s := by
  have hmarked : ∀ p ∈ cut.pieces, p.more = true ∨ p.offset ≠ 0 :=
    V6Datagram.piecesFrom_marked cut.aligned (.inr hfront)
  have hrecorded : as.map Arrival.recorded = (as.map fun a => D.metaOf a.piece).map some := by
    rw [List.map_map]
    refine List.map_congr_left fun a ha => ?_
    rw [a.recorded_eq (arrivals_fit has a ha) hproto hexts,
      if_pos (hmarked a.piece (has.subset (List.mem_map_of_mem ha)))]
    rfl
  -- in offset order they are the pieces as they were cut
  have hordered : inOffsetOrder (as.map fun a => D.metaOf a.piece) = cut.pieces.map D.metaOf := by
    refine inOffsetOrder_eq ?_ (List.pairwise_map.mpr ?_)
    · have hperm := has.map D.metaOf
      rwa [List.map_map] at hperm
    · refine (V6Datagram.piecesFrom_sorted cut.aligned).imp_of_mem fun hp hq hlt => ?_
      rw [UInt16.lt_iff_toNat_lt]
      simp only [V6Datagram.metaOf, UInt16.toNat_ofNat']
      rwa [Nat.mod_eq_of_lt (cut.pieces_fit _ hp).1, Nat.mod_eq_of_lt (cut.pieces_fit _ hq).1]
  have hbody :
      (inOffsetOrder (as.map fun a => D.metaOf a.piece)).flatMap FragMeta.payload = D.body := by
    rw [hordered, List.flatMap_map]
    exact cut.pieces_data
  refine ⟨D.key, as.map fun a => D.metaOf a.piece, hrecorded, fun m hm => ?_, hbody, ?_⟩
  · obtain ⟨a, -, rfl⟩ := List.mem_map.mp hm
    rfl
  · obtain ⟨c, s', hc, -, hrun⟩ := V6Datagram.ipv6_whole hw (Nat.le_succ_of_le hexts) hproto s
    refine ⟨_, c, congrArg Prod.fst hrun, rfl, fun below t t' ht => ?_⟩
    rw [hbody]
    exact journey_twin (Network.dispatchIpProto_built _ _ _) hc ht

/-- Bytes are missing from the fragments of a datagram that begins with an extension header. -/
theorem length_recorded_lt (hfit : ∀ a ∈ as, a.piece.Fits) (hproto : IsExtension D.proto)
    {ms : List FragMeta} (hms : as.map Arrival.recorded = ms.map some) (hne : as ≠ []) :
    (ms.flatMap FragMeta.payload).length < ((as.map Arrival.piece).flatMap Piece.data).length := by
  induction as generalizing ms with
  | nil => exact absurd rfl hne
  | cons a as ih =>
      cases ms with
      | nil => cases hms
      | cons m ms =>
          rw [List.map_cons, List.map_cons, List.cons.injEq] at hms
          have hlt := a.recorded_lt (hfit a List.mem_cons_self) hproto hms.1
          have hfit' : ∀ x ∈ as, x.piece.Fits := fun x hx => hfit x (List.mem_cons_of_mem a hx)
          rw [List.flatMap_cons, List.map_cons, List.flatMap_cons, List.length_append,
            List.length_append]
          by_cases has : as = []
          · subst has
            rw [List.map_eq_nil_iff.mp hms.2.symm]
            simpa using hlt
          · have := ih hfit' hms.2 has
            omega

/-- **A cut datagram reassembles exactly when** it is cut in two at least, its fragmentable part
does not begin with an extension header, and there are no more than fourteen extension headers
before. -/
theorem reassembles_iff (has : (as.map Arrival.piece).Perm cut.pieces) {w : Cur}
    (hw : w.rest = D.whole) (s : Hdr) :
    Reassembles as w s ↔
      cut.front ≠ [] ∧ ¬ IsExtension D.proto ∧ D.exts.length ≤ 14 := by
  constructor
  · rintro ⟨key, ms, hms, -, hbody, -⟩
    have hfit := arrivals_fit has
    have hne : as ≠ [] := by
      rintro rfl
      exact cut.pieces_ne_nil (List.nil_perm.mp has)
    obtain ⟨a, ha⟩ := List.exists_mem_of_ne_nil as hne
    have hsome : ∀ a ∈ as, a.recorded ≠ none := by
      intro a ha hnone
      have hmem : a.recorded ∈ ms.map some := hms ▸ List.mem_map_of_mem ha
      rw [hnone] at hmem
      obtain ⟨m, -, hm⟩ := List.mem_map.mp hmem
      cases hm
    have hexts : D.exts.length ≤ 14 := by
      by_contra hlong
      exact hsome a ha (a.recorded_too_long (hfit a ha) (Nat.lt_of_not_le hlong))
    have hproto : ¬ IsExtension D.proto := by
      intro hproto
      have hlt := length_recorded_lt hfit hproto hms hne
      rw [(has.flatMap_right _).length_eq, cut.pieces_data, ← hbody,
        ((inOffsetOrder_perm ms).flatMap_right _).length_eq] at hlt
      exact Nat.lt_irrefl _ hlt
    refine ⟨fun hfront => ?_, hproto, hexts⟩
    -- the only piece says neither that more follow nor that it is not the first
    have hpiece : a.piece ∈ cut.pieces := has.subset (List.mem_map_of_mem ha)
    unfold V6Datagram.Cut.pieces at hpiece
    rw [hfront] at hpiece
    refine hsome a ha ?_
    rw [a.recorded_eq (hfit a ha) hproto hexts, List.mem_singleton.mp hpiece]
    exact if_neg (by simp)
  · rintro ⟨hfront, hproto, hexts⟩
    exact reassembles_of has hw s hfront hproto hexts

end Delivery

/-! ### Destination Options behind the Fragment header -/

/-- A datagram from ::1 to ::2 without extension headers before the Fragment header. -/
def fromOneToTwo (proto : UInt8) (body : Bytes) (h : body.length < 65536) : V6Datagram :=
  { flow := [0x60, 0, 0, 0], length_flow := rfl, version := rfl, hopLimit := 64
    src := List.replicate 15 0 ++ [1], length_src := rfl
    dst := List.replicate 15 0 ++ [2], length_dst := rfl
    exts := [], ident := [0, 0, 0, 7], length_ident := rfl, proto, body, length_body := h }

/-- A UDP header from port 5000 to port 5001. -/
def udpAlone : Bytes := [0x13, 0x88, 0x13, 0x89, 0, 16, 0, 0]

/-- A UDP datagram with eight bytes of data. -/
def plainUdp : V6Datagram := fromOneToTwo 17 (udpAlone ++ Text.ascii "abcdefgh") (by decide)

def plainUdpCut : plainUdp.Cut :=
  { front := [udpAlone], last := Text.ascii "abcdefgh", aligned := by decide, whole := rfl }

/-- A fragment at the beginning of a buffer. -/
def Arrival.alone (D : V6Datagram) (piece : Piece) : Arrival D :=
  { piece, cur := .new (D.fragment piece), hdr := {}, rest := rfl }

/-- Its fragments, the last one first. -/
def plainUdpArrivals : List (Arrival plainUdp) :=
  [.alone plainUdp { offset := 8, more := false, data := Text.ascii "abcdefgh" },
    .alone plainUdp { offset := 0, more := true, data := udpAlone }]

theorem plainUdp_reassembles : Reassembles plainUdpArrivals (Cur.new plainUdp.whole) {} := by
  have hperm : (plainUdpArrivals.map Arrival.piece).Perm plainUdpCut.pieces := List.Perm.swap ..
  exact (reassembles_iff hperm rfl {}).mpr ⟨(fun h => by cases h), by decide, Nat.zero_le _⟩

/-- The same datagram behind a Destination Options header. -/
def optionsUdp : V6Datagram :=
  fromOneToTwo 60 ([17, 0, 1, 4, 0, 0, 0, 0] ++ (udpAlone ++ Text.ascii "abcdefgh")) (by decide)

def optionsUdpCut : optionsUdp.Cut :=
  { front := [[17, 0, 1, 4, 0, 0, 0, 0] ++ udpAlone], last := Text.ascii "abcdefgh"
    aligned := by decide, whole := rfl }

/-- **The options are missing from the first fragment**, and in the second one eight bytes of data
are read as options of 792 bytes. -/
theorem optionsUdp_not_reassembles :
    optionsUdpCut.pieces.map (fun p => (Arrival.alone optionsUdp p).recorded) =
        [some { key := { src := .v6 1, dst := .v6 2, id := 7, proto := 17 }, offset := 0,
                moreFragments := true, payload := udpAlone }, none] ∧
      ¬ Reassembles (optionsUdpCut.pieces.map (Arrival.alone optionsUdp))
        (Cur.new optionsUdp.whole) {} := by
  have hrecorded : optionsUdpCut.pieces.map (fun p => (Arrival.alone optionsUdp p).recorded) =
      [some { key := { src := .v6 1, dst := .v6 2, id := 7, proto := 17 }, offset := 0,
              moreFragments := true, payload := udpAlone }, none] := rfl
  refine ⟨hrecorded, ?_⟩
  rintro ⟨key, ms, hms, -⟩
  rw [List.map_map] at hms
  have hnone : none ∈ ms.map some :=
    hms ▸ hrecorded ▸ List.mem_cons_of_mem _ (List.mem_singleton_self _)
  obtain ⟨m, -, hm⟩ := List.mem_map.mp hnone
  cases hm

end PcapRacer
