/-
**The options of a TCP header.**

An option is one octet, or a kind, a length and as many octets as the length says.  Read back, a
list of options leaves the names of their kinds, in order, and what the last option of a kind says;
what stands behind the octet that ends the list is not looked at.

Main definitions:

* `TcpOption`, `TcpOption.bytes` — the options, and what they look like;
* `TcpOption.name`, `TcpOption.mss?`, … — what they say;
* `lastOption` — what the last option that says anything says.

Main results:

* `Transport.optionLoop_option` — one option is read back;
* `Transport.parseTcpOptions_inverts` — **parsing inverts encoding**, and on any bytes at all it
  comes to an end within them.
-/

import PcapRacer.ByteOrder
import PcapRacer.HeaderSafety

set_option relaxedAutoImplicit false
set_option autoImplicit false

namespace PcapRacer

/-! ### Options -/

/-- The left and the right edge of a block that was received. -/
structure SackBlock where
  left : UInt32
  right : UInt32

namespace SackBlock

def bytes (b : SackBlock) : Bytes := beBytes 4 b.left.toNat ++ beBytes 4 b.right.toNat

def text (b : SackBlock) : Text :=
  Text.decimal b.left.toNat ++ ['-'] ++ Text.decimal b.right.toNat

@[simp] theorem length_bytes (b : SackBlock) : b.bytes.length = 8 := by simp [bytes]

end SackBlock

/-- The options of a TCP header.  The length octet of an option counts the kind and itself, so at
most 253 octets follow. -/
inductive TcpOption where
  | nop
  | mss (size : UInt16)
  | windowScale (shift : UInt8)
  | sackPermitted
  | sack (block : SackBlock) (more : List SackBlock) (fits : more.length ≤ 30)
  | timestamps (val ecr : UInt32)
  | unknown (kind : UInt8) (data : Bytes) (other : kind ∉ [0, 1, 2, 3, 4, 5, 8])
      (fits : data.length ≤ 253)

namespace TcpOption

/-- A kind, a length and as many octets as the length says. -/
def framed (kind : UInt8) (data : Bytes) : Bytes := kind :: UInt8.ofNat (data.length + 2) :: data

def bytes : TcpOption → Bytes
  | nop => [1]
  | mss size => framed 2 (beBytes 2 size.toNat)
  | windowScale shift => framed 3 [shift]
  | sackPermitted => framed 4 []
  | sack block more _ => framed 5 ((block :: more).flatMap SackBlock.bytes)
  | timestamps val ecr => framed 8 (beBytes 4 val.toNat ++ beBytes 4 ecr.toNat)
  | unknown kind data _ _ => framed kind data

/-- The name of the kind. -/
def name : TcpOption → Text
  | nop => "nop".toList
  | mss _ => "mss".toList
  | windowScale _ => "wscale".toList
  | sackPermitted => "sackok".toList
  | sack _ _ _ => "sack".toList
  | timestamps _ _ => "timestamp".toList
  | unknown kind _ _ _ => "opt".toList ++ Text.decimal kind.toNat

def mss? : TcpOption → Option UInt16
  | mss size => some size
  | _ => none

def windowScale? : TcpOption → Option UInt8
  | windowScale shift => some shift
  | _ => none

def sackPermitted? : TcpOption → Option Bool
  | sackPermitted => some true
  | _ => none

def sack? : TcpOption → Option Text
  | sack block more _ => some (Text.join [','] ((block :: more).map SackBlock.text))
  | _ => none

def tsVal? : TcpOption → Option UInt32
  | timestamps val _ => some val
  | _ => none

def tsEcr? : TcpOption → Option UInt32
  | timestamps _ ecr => some ecr
  | _ => none

/-- What one option leaves in the columns. -/
def record (t : TransportCols) (o : TcpOption) : TransportCols :=
  { t with tcpMss := o.mss?.or t.tcpMss
           tcpWindowScale := o.windowScale?.or t.tcpWindowScale
           tcpSackPermitted := o.sackPermitted?.or t.tcpSackPermitted
           tcpSackBlocks := o.sack?.or t.tcpSackBlocks
           tcpTsVal := o.tsVal?.or t.tcpTsVal
           tcpTsEcr := o.tsEcr?.or t.tcpTsEcr }

end TcpOption

/-- What the last option that says anything says. -/
def lastOption {α : Type} (f : TcpOption → Option α) (os : List TcpOption) : Option α :=
  (os.filterMap f).getLast?

theorem lastOption_concat {α : Type} (f : TcpOption → Option α) (os : List TcpOption)
    (o : TcpOption) :
    lastOption f (os ++ [o]) = (f o).or (lastOption f os) := by
  unfold lastOption
  cases hf : f o <;> simp [hf]

/-- **What a list of options leaves in the columns**: of every kind, what the last one says. -/
theorem foldl_record (os : List TcpOption) (t : TransportCols) :
    os.foldl TcpOption.record t =
      { t with tcpMss := (lastOption TcpOption.mss? os).or t.tcpMss
               tcpWindowScale := (lastOption TcpOption.windowScale? os).or t.tcpWindowScale
               tcpSackPermitted := (lastOption TcpOption.sackPermitted? os).or t.tcpSackPermitted
               tcpSackBlocks := (lastOption TcpOption.sack? os).or t.tcpSackBlocks
               tcpTsVal := (lastOption TcpOption.tsVal? os).or t.tcpTsVal
               tcpTsEcr := (lastOption TcpOption.tsEcr? os).or t.tcpTsEcr } := by
  induction os using List.reverseRecOn with
  | nil => rfl
  | append_singleton os o ih =>
      rw [List.foldl_append, ih]
      simp [TcpOption.record, lastOption_concat, Option.or_assoc]

namespace Transport

/-! ### One option -/

theorem sackBlocks_bytes (bs : List SackBlock) :
    sackBlocks bs.length (bs.flatMap SackBlock.bytes) = bs.map SackBlock.text := by
  induction bs with
  | nil => rfl
  | cons b bs ih =>
      have hleft : (b.bytes ++ bs.flatMap SackBlock.bytes).take 4 = beBytes 4 b.left.toNat := by
        simp [SackBlock.bytes]
      have hright : ((b.bytes ++ bs.flatMap SackBlock.bytes).drop 4).take 4 =
          beBytes 4 b.right.toNat := by
        simp [SackBlock.bytes]
      have hrest : (b.bytes ++ bs.flatMap SackBlock.bytes).drop 8 = bs.flatMap SackBlock.bytes :=
        List.drop_left' b.length_bytes
      simp only [List.flatMap_cons, List.length_cons, sackBlocks, hleft, hright, hrest, ih,
        beNat_beBytes_four, List.map_cons, SackBlock.text]

theorem length_flatMap_bytes (bs : List SackBlock) :
    (bs.flatMap SackBlock.bytes).length = bs.length * 8 := by
  induction bs with
  | nil => rfl
  | cons b bs ih =>
      simp only [List.flatMap_cons, List.length_append, SackBlock.length_bytes, ih,
        List.length_cons]
      omega

/-- What is read of a block of options that were received. -/
theorem tcpOption_sack (block : SackBlock) (more : List SackBlock) (t : TransportCols) :
    tcpOption 5 ((block :: more).flatMap SackBlock.bytes) t =
      ("sack".toList,
        { t with
          tcpSackBlocks := some (Text.join [','] ((block :: more).map SackBlock.text)) }) := by
  have hblocks : sackBlocks (((block :: more).flatMap SackBlock.bytes).length / 8)
      ((block :: more).flatMap SackBlock.bytes) = (block :: more).map SackBlock.text := by
    rw [length_flatMap_bytes, Nat.mul_div_cancel _ (by decide), sackBlocks_bytes]
  change (_, if sackBlocks _ _ = [] then t else _) = _
  rw [hblocks, if_neg (by simp)]

/-- A kind that is none of the known ones is named by its number. -/
theorem tcpOption_unknown {kind : UInt8} (h : kind ∉ [0, 1, 2, 3, 4, 5, 8]) (data : Bytes)
    (t : TransportCols) :
    tcpOption kind data t = ("opt".toList ++ Text.decimal kind.toNat, t) := by
  unfold tcpOption
  split
  case h_6 => rfl
  all_goals
    next hkind =>
      refine absurd ?_ h
      simp [← UInt8.toNat_inj, hkind]

/-! ### The walk -/

/-- One round of the loop, at an option with a length. -/
theorem optionLoop_framed {kind : UInt8} {data rest : Bytes} {c : Cur} (hkind : 2 ≤ kind.toNat)
    (hfits : data.length ≤ 253) (hc : c.rest = TcpOption.framed kind data ++ rest) (fuel : ℕ)
    (t : TransportCols) :
    ∃ c', c'.rest = rest ∧
      optionLoop (fuel + 1) c t =
        ((tcpOption kind data t).1 :: (optionLoop fuel c' (tcpOption kind data t).2).1,
          (optionLoop fuel c' (tcpOption kind data t).2).2) := by
  have hlen : (UInt8.ofNat (data.length + 2)).toNat = data.length + 2 := by
    rw [UInt8.toNat_ofNat']
    omega
  obtain ⟨c₁, hkindRead, hc₁⟩ := Cur.exists_u8 hc
  obtain ⟨c₂, hlenRead, hc₂⟩ := Cur.exists_u8 hc₁
  obtain ⟨c₃, hdata, hc₃⟩ := Cur.exists_take (n := data.length) hc₂ rfl
  have hnot (n : UInt8) (hn : n.toNat < 2) : kind ≠ n := by
    rintro rfl
    omega
  have hlong : ¬ UInt8.ofNat (data.length + 2) < 2 := by
    rw [UInt8.lt_iff_toNat_lt, hlen]
    exact Nat.not_lt.mpr (Nat.le_add_left 2 _)
  refine ⟨c₃, hc₃, ?_⟩
  rw [optionLoop, hkindRead]
  dsimp only
  rw [if_neg (hnot 0 (by decide)), if_neg (hnot 1 (by decide)), hlenRead]
  dsimp only
  rw [if_neg hlong, hlen, Nat.add_sub_cancel, hdata]

/-- **One option is read back**: its name comes first, and what it says is recorded. -/
theorem optionLoop_option (o : TcpOption) {rest : Bytes} {c : Cur} (hc : c.rest = o.bytes ++ rest)
    (fuel : ℕ) (t : TransportCols) :
    ∃ c', c'.rest = rest ∧
      optionLoop (fuel + 1) c t =
        (o.name :: (optionLoop fuel c' (o.record t)).1, (optionLoop fuel c' (o.record t)).2) := by
  cases o with
  | nop =>
      obtain ⟨c₁, hread, hc₁⟩ := Cur.exists_u8 hc
      refine ⟨c₁, hc₁, ?_⟩
      rw [optionLoop, hread]
      rfl
  | mss size =>
      have hoption : tcpOption 2 (beBytes 2 size.toNat) t =
          ("mss".toList, TcpOption.record t (.mss size)) := by
        change (_, if _ then { t with tcpMss := some (UInt16.ofNat _) } else t) = _
        rw [if_pos (length_beBytes 2 _), ofNat_beBytes_two]
        rfl
      have hround := optionLoop_framed (by decide) (by simp) hc fuel t
      rwa [hoption] at hround
  | windowScale shift => exact optionLoop_framed (by decide) (by simp) hc fuel t
  | sackPermitted => exact optionLoop_framed (by decide) (by simp) hc fuel t
  | sack block more fits =>
      have hround := optionLoop_framed (by decide)
        (by rw [length_flatMap_bytes, List.length_cons]; omega) hc fuel t
      rwa [tcpOption_sack] at hround
  | timestamps val ecr =>
      have hoption : tcpOption 8 (beBytes 4 val.toNat ++ beBytes 4 ecr.toNat) t =
          ("timestamp".toList, TcpOption.record t (.timestamps val ecr)) := by
        change (_, if _ then _ else t) = _
        rw [if_pos (by simp)]
        simp [TcpOption.record, TcpOption.tsVal?, TcpOption.tsEcr?, TcpOption.mss?,
          TcpOption.windowScale?, TcpOption.sackPermitted?, TcpOption.sack?]
      have hround := optionLoop_framed (by decide) (by simp) hc fuel t
      rwa [hoption] at hround
  | unknown kind data other fits =>
      have hkind : 2 ≤ kind.toNat := by
        by_contra hlt
        refine other ?_
        simp [← UInt8.toNat_inj]
        omega
      have hround := optionLoop_framed hkind fits hc fuel t
      rwa [tcpOption_unknown other] at hround

/-- What stands behind the last option: nothing, or the octet that ends the list and any bytes. -/
def listEnd : Option Bytes → Bytes
  | none => []
  | some tail => 0 :: tail

theorem optionLoop_listEnd (tail : Option Bytes) {c : Cur} (hc : c.rest = listEnd tail) (fuel : ℕ)
    (t : TransportCols) : optionLoop fuel c t = ([], t) := by
  cases fuel with
  | zero => rfl
  | succ fuel =>
      cases tail with
      | none =>
          rw [optionLoop, Cur.u8_of_rest_nil hc]
      | some tail =>
          obtain ⟨c', hread, -⟩ := Cur.exists_u8 hc
          rw [optionLoop, hread]
          rfl

/-- **A list of options is read back**, and nothing behind it. -/
theorem optionLoop_options (os : List TcpOption) (tail : Option Bytes) {c : Cur}
    (hc : c.rest = os.flatMap TcpOption.bytes ++ listEnd tail) {fuel : ℕ} (hfuel : os.length ≤ fuel)
    (t : TransportCols) :
    optionLoop fuel c t = (os.map TcpOption.name, os.foldl TcpOption.record t) := by
  induction os generalizing c fuel t with
  | nil => exact optionLoop_listEnd tail hc fuel t
  | cons o os ih =>
      obtain ⟨fuel, rfl⟩ : ∃ k, fuel = k + 1 := ⟨fuel - 1, by simp at hfuel; omega⟩
      rw [List.flatMap_cons, List.append_assoc] at hc
      obtain ⟨c', hc', hround⟩ := optionLoop_option o hc fuel t
      rw [hround, ih hc' (Nat.le_of_succ_le_succ hfuel)]
      rfl

/-- Every option takes a byte. -/
theorem length_le_bytes (os : List TcpOption) :
    os.length ≤ (os.flatMap TcpOption.bytes).length := by
  induction os with
  | nil => rfl
  | cons o os ih =>
      have hpos : 1 ≤ o.bytes.length := by cases o <;> simp [TcpOption.bytes, TcpOption.framed]
      simp only [List.flatMap_cons, List.length_append, List.length_cons]
      omega

/-! ### Any bytes -/

theorem remaining_of_u8 {c c' : Cur} {b : UInt8} (h : c.u8 = .ok (b, c')) :
    c'.remaining + 1 = c.remaining := by
  unfold Cur.u8 at h
  split at h
  · next hle =>
      cases h
      rw [← Cur.length_rest, Cur.rest_advance, List.length_drop, Cur.length_rest]
      omega
  · cases h

theorem remaining_of_take {c : Cur} {n : ℕ} {r : Bytes × Cur} (h : c.take n = .ok r) :
    r.2.remaining ≤ c.remaining := (Cur.take_within h).remaining_le

/-- Rounds that are not needed make no difference. -/
theorem optionLoop_fuel {n m : ℕ} {c : Cur} (hn : c.remaining ≤ n) (hm : c.remaining ≤ m)
    (t : TransportCols) : optionLoop n c t = optionLoop m c t := by
  induction n generalizing m c t with
  | zero =>
      have hread : c.u8 = .error .truncated := dif_neg (by omega)
      cases m with
      | zero => rfl
      | succ m => rw [optionLoop, optionLoop, hread]
  | succ n ih =>
      cases m with
      | zero =>
          have hread : c.u8 = .error .truncated := dif_neg (by omega)
          rw [optionLoop, optionLoop, hread]
      | succ m =>
          rw [optionLoop, optionLoop]
          cases hkind : c.u8 with
          | error e => rfl
          | ok p =>
              obtain ⟨kind, c₁⟩ := p
              have h₁ := remaining_of_u8 hkind
              dsimp only
              rw [ih (m := m) (c := c₁) (by omega) (by omega)]
              cases hlen : c₁.u8 with
              | error e => rfl
              | ok p =>
                  obtain ⟨len, c₂⟩ := p
                  have h₂ := remaining_of_u8 hlen
                  dsimp only
                  cases hbody : c₂.take (len.toNat - 2) with
                  | error e => rfl
                  | ok p =>
                      have h₃ := remaining_of_take hbody
                      dsimp only
                      rw [ih (m := m) (c := p.2) (by omega) (by omega)]

/-- **No access is outside the options**, and the walk over them comes to an end. -/
theorem checked_parseTcpOptions {opts : Bytes} (h : opts.length < 2 ^ 63) (r : RawCur)
    (depth : UInt8) :
    (Checked.Transport.parseTcpOptions opts).run r depth = .ok (.ok ((), r), depth) := by
  have hadr : Checked.Addressable (Cur.new opts) := by
    change 0 + opts.length < 2 ^ 63
    omega
  obtain ⟨r', hrun⟩ := Checked.Transport.optionLoop_settles (opts.length + 1) (Cur.new opts) depth
    (Nat.lt_succ_self _) hadr
  have hraw : (Cur.new opts).raw = { data := opts, pos := 0 } := rfl
  rw [hraw] at hrun
  simp only [Checked.Transport.parseTcpOptions, Checked.aside, hrun]

/-! ### Parsing inverts encoding -/

/-- **Parsing inverts encoding.**  Of a list of options, with or without the octet that ends it, the
names of the kinds are kept, in order, and what the last option of each kind says; an empty list
leaves no names.  On any bytes the walk comes to an end, and reads nothing outside them. -/
theorem parseTcpOptions_inverts (os : List TcpOption) (tail : Option Bytes) (t : TransportCols)
    (opts : Bytes) (hopts : opts.length < 2 ^ 63) :
    parseTcpOptions (os.flatMap TcpOption.bytes ++ listEnd tail) t =
      { t with
        tcpOptionKinds :=
          if os = [] then t.tcpOptionKinds else some (Text.join [','] (os.map TcpOption.name))
        tcpMss := (lastOption TcpOption.mss? os).or t.tcpMss
        tcpWindowScale := (lastOption TcpOption.windowScale? os).or t.tcpWindowScale
        tcpSackPermitted := (lastOption TcpOption.sackPermitted? os).or t.tcpSackPermitted
        tcpSackBlocks := (lastOption TcpOption.sack? os).or t.tcpSackBlocks
        tcpTsVal := (lastOption TcpOption.tsVal? os).or t.tcpTsVal
        tcpTsEcr := (lastOption TcpOption.tsEcr? os).or t.tcpTsEcr } ∧
    (∀ fuel, opts.length ≤ fuel →
      optionLoop fuel (Cur.new opts) t = optionLoop opts.length (Cur.new opts) t) ∧
    ∀ r depth, (Checked.Transport.parseTcpOptions opts).run r depth = .ok (.ok ((), r), depth) := by
  refine ⟨?_, fun fuel hfuel => optionLoop_fuel hfuel (Nat.le_refl _) t,
    checked_parseTcpOptions hopts⟩
  have hfuel : os.length ≤ (os.flatMap TcpOption.bytes ++ listEnd tail).length := by
    rw [List.length_append]
    exact le_trans (length_le_bytes os) (Nat.le_add_right _ _)
  rw [parseTcpOptions, optionLoop_options os tail rfl hfuel, foldl_record]
  cases os with
  | nil => rfl
  | cons o os =>
      rw [if_neg (by simp)]
      rfl

/-- The options of a first segment, with padding behind them, and bytes that break off. -/
theorem parseTcpOptions_inverts_syn :
    parseTcpOptions [2, 4, 0x05, 0xb4, 4, 2, 1, 3, 3, 7, 0, 0] {} =
      { tcpOptionKinds := some "mss,sackok,nop,wscale".toList, tcpMss := some 1460,
        tcpSackPermitted := some true, tcpWindowScale := some 7 } ∧
    ([5, 0, 0, 0] : Bytes).length < 2 ^ 63 ∧
    ∀ r depth, (Checked.Transport.parseTcpOptions [5, 0, 0, 0]).run r depth =
      .ok (.ok ((), r), depth) := by
  obtain ⟨hparse, -, hsafe⟩ := parseTcpOptions_inverts
    [.mss 1460, .sackPermitted, .nop, .windowScale 7] (some [0]) {} [5, 0, 0, 0] (by decide)
  exact ⟨hparse.trans rfl, by decide, hsafe⟩

end Transport

end PcapRacer
