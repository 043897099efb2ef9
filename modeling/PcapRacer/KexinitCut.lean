/-
**A key exchange that is cut short.**

A KEXINIT holds ten name-lists, and six of them are taken to be enough.  For the lists that are
missing others stand in: the sixth for the seventh, and nothing for the eighth.  So the fingerprint
of the part may be another one than that of the whole.

Main definitions:

* `Kexinit`, `Kexinit.bytes` — a KEXINIT packet;
* `Kexinit.complete` — how many of its lists a part of it holds;
* `Kexinit.Spared` — what stands in for the missing lists makes no difference.

Main results:

* `AppSsh.nameLists_take` — the lists that are found in a part of the packet;
* `Kexinit.fingerprint_take` — the fingerprint of a part of the packet;
* `Kexinit.fingerprint_take_iff` — **when a part of the packet yields no wrong fingerprint**.
-/

import PcapRacer.AppSsh
import PcapRacer.ByteOrder
import PcapRacer.FingerprintLaws
import PcapRacer.TlsHello

set_option relaxedAutoImplicit false
set_option autoImplicit false

namespace PcapRacer

/-! ### Packets -/

/-- A name-list with its length in front. -/
def nameList (l : Bytes) : Bytes := beBytes 4 l.length ++ l

/-- A KEXINIT packet.  Nothing is asked of the names in its lists. -/
structure Kexinit where
  packetLen : UInt32
  paddingLen : UInt8
  /-- The packet is long enough for its padding and for the type of the message. -/
  roomy : paddingLen.toNat + 2 ≤ packetLen.toNat
  /-- The length does not read as the first letters of a banner; it would be 1.3 GiB. -/
  not_banner : beBytes 4 packetLen.toNat ≠ Text.ascii "SSH-"
  cookie : Bytes
  length_cookie : cookie.length = 16
  lists : List Bytes
  length_lists : lists.length = 10
  fits : ∀ l ∈ lists, l.length < 2 ^ 32
  /-- What follows the lists: two more fields, and padding. -/
  tail : Bytes

/-- How many of the lists are complete in the first `n` bytes. -/
def completeLists : List Bytes → ℕ → ℕ
  | [], _ => 0
  | l :: ls, n => if 4 + l.length ≤ n then completeLists ls (n - (4 + l.length)) + 1 else 0

theorem completeLists_le (ls : List Bytes) (n : ℕ) : completeLists ls n ≤ ls.length := by
  induction ls generalizing n with
  | nil => simp [completeLists]
  | cons l ls ih =>
      rw [completeLists]
      split
      · exact Nat.succ_le_succ (ih _)
      · exact Nat.zero_le _

/-- All of them are, when nothing is cut off. -/
theorem completeLists_of_le {ls : List Bytes} {n : ℕ} (h : (ls.flatMap nameList).length ≤ n) :
    completeLists ls n = ls.length := by
  induction ls generalizing n with
  | nil => rfl
  | cons l ls ih =>
      rw [List.flatMap_cons, List.length_append, nameList, List.length_append, length_beBytes] at h
      rw [completeLists, if_pos (by omega), ih (by omega), List.length_cons]

namespace Kexinit

variable (P : Kexinit)

/-- The packet on the wire. -/
def bytes : Bytes :=
  beBytes 4 P.packetLen.toNat ++ ([P.paddingLen] ++ ([AppSsh.msgKexinit] ++
    (P.cookie ++ (P.lists.flatMap nameList ++ P.tail))))

/-- The text of one of the lists. -/
def text (i : ℕ) : Text := (P.lists[i]?.map Text.lossy).getD []

/-- How many lists are complete in the first `n` bytes of the packet. -/
def complete (n : ℕ) : ℕ := completeLists P.lists (n - 22)

end Kexinit

/-! ### The lists that are found -/

namespace AppSsh

/-- **Of name-lists that are cut short** the ones that are complete are found. -/
theorem nameLists_take {ls : List Bytes} (hfits : ∀ l ∈ ls, l.length < 2 ^ 32) {tail : Bytes}
    {c : Cur} {n : ℕ} (hrest : c.rest = (ls.flatMap nameList ++ tail).take n) :
    nameLists ls.length c = (ls.take (completeLists ls n)).map Text.lossy := by
  induction ls generalizing c n with
  | nil => rfl
  | cons l ls ih =>
      have hlen : (UInt32.ofNat (beNat (beBytes 4 l.length))).toNat = l.length := by
        have hl := hfits l (by simp)
        rw [beNat_beBytes, UInt32.toNat_ofNat']
        omega
      rw [List.flatMap_cons, nameList, List.append_assoc, List.append_assoc] at hrest
      rw [List.length_cons, nameLists, Cur.be32, completeLists]
      obtain ⟨hn, c₁, hread, h₁⟩ | ⟨hn, hread⟩ :=
        Cur.read_of_rest (fun b => UInt32.ofNat (beNat b)) hrest (length_beBytes 4 _)
      · rw [hread]
        dsimp only
        rw [hlen]
        obtain ⟨hn', c₂, htake, h₂⟩ | ⟨hn', htake⟩ := Cur.take_of_rest h₁ rfl
        · rw [htake]
          dsimp only
          rw [Nat.sub_sub] at h₂
          rw [if_pos (by omega), ih (fun l hl => hfits l (by simp [hl])) h₂]
          rfl
        · rw [htake, if_neg (by omega)]
          rfl
      · rw [hread, if_neg (by omega)]
        rfl

/-- The lists that are shown, and how many bytes of them. -/
def shown (lists : List Text) : List (Text × ℕ) :=
  [(lists[0]?.getD [], 1024), (lists[1]?.getD [], 512), (lists[2]?.getD [], 512),
    (lists[3]?.getD [], 512), (lists[4]?.getD [], 512),
    (lists[min 6 (lists.length - 1)]?.getD [], 256)]

/-- No list is cut inside a character to be shown. -/
def isLegible (lists : List Text) : Bool := (shown lists).all fun p => (cap p.1 p.2).isOk

/-- What the fingerprint is made of. -/
def hasshParts (isServer : Bool) (lists : List Text) : List Text :=
  if isServer then
    [lists[0]?.getD [], lists[3]?.getD [], lists[5]?.getD [], lists[7]?.getD []]
  else
    [lists[0]?.getD [], lists[2]?.getD [], lists[4]?.getD [],
      lists[min 6 (lists.length - 1)]?.getD []]

/-- The column of the fingerprint; a dissector that panics leaves none. -/
def column (isServer : Bool) (o : Outcome (Sink SshCols) Unit) : Option Text :=
  match o with
  | .error _ => none
  | .ok (_, s) => if isServer then s.cols.hasshServer else s.cols.hassh

end AppSsh

/-! ### The lists that a part of a packet holds -/

namespace Kexinit

open AppSsh

variable (P : Kexinit)

/-- No part of the packet passes for a banner. -/
theorem not_looksLikeSsh (n : ℕ) : looksLikeSsh (P.bytes.take n) = false := by
  rw [looksLikeSsh, Bool.eq_false_iff]
  intro h
  obtain ⟨rest, hrest⟩ := (List.isPrefixOf_iff_prefix.mp h).trans (List.take_prefix n P.bytes)
  exact P.not_banner (List.append_inj hrest.symm (length_beBytes 4 _)).1

/-- The lists that are found in the first `n` bytes. -/
def found (n : ℕ) : List Text := (P.lists.take (P.complete n)).map Text.lossy

theorem length_found (n : ℕ) : (P.found n).length = P.complete n := by
  have hle := completeLists_le P.lists (n - 22)
  rw [found, List.length_map, List.length_take]
  exact Nat.min_eq_left hle

/-! ### What stands in for a list that is missing -/

theorem found_getD (n i : ℕ) :
    (P.found n)[i]?.getD [] = if i < P.complete n then P.text i else [] := by
  rw [found, List.getElem?_map, List.getElem?_take, text]
  split
  · rfl
  · rfl

/-- The list that is taken for the compression algorithms of the client, of `k` lists. -/
def compression (k : ℕ) : Text := if k = 6 then P.text 5 else P.text 6

/-- No list is cut inside a character to be shown, with `comp` as the last. -/
def legible (comp : Text) : Bool :=
  [(P.text 0, 1024), (P.text 1, 512), (P.text 2, 512), (P.text 3, 512), (P.text 4, 512),
    (comp, 256)].all fun p => (cap p.1 p.2).isOk

/-- What the fingerprint is made of, with the first `k` lists. -/
def hashed (isServer : Bool) (k : ℕ) : List Text :=
  if isServer then [P.text 0, P.text 3, P.text 5, if k < 8 then [] else P.text 7]
  else [P.text 0, P.text 2, P.text 4, P.compression k]

theorem compression_found {n : ℕ} (h : 6 ≤ P.complete n) :
    (P.found n)[min 6 ((P.found n).length - 1)]?.getD [] = P.compression (P.complete n) := by
  rw [P.length_found, P.found_getD, if_pos (by omega), compression]
  split
  · next hsix => rw [hsix]; rfl
  · next hmore => rw [Nat.min_eq_left (by omega)]

theorem legible_found {n : ℕ} (h : 6 ≤ P.complete n) :
    isLegible (P.found n) = P.legible (P.compression (P.complete n)) := by
  rw [isLegible, shown, P.compression_found h]
  simp only [P.found_getD, if_pos (show 0 < P.complete n by omega),
    if_pos (show 1 < P.complete n by omega), if_pos (show 2 < P.complete n by omega),
    if_pos (show 3 < P.complete n by omega), if_pos (show 4 < P.complete n by omega), legible]

theorem hashed_found (isServer : Bool) {n : ℕ} (h : 6 ≤ P.complete n) :
    hasshParts isServer (P.found n) = P.hashed isServer (P.complete n) := by
  rw [hasshParts, hashed, P.compression_found h]
  simp only [P.found_getD, if_pos (show 0 < P.complete n by omega),
    if_pos (show 2 < P.complete n by omega), if_pos (show 3 < P.complete n by omega),
    if_pos (show 4 < P.complete n by omega), if_pos (show 5 < P.complete n by omega)]
  by_cases hseven : 7 < P.complete n
  · simp [hseven, show ¬ P.complete n < 8 by omega]
  · simp [hseven, show P.complete n < 8 by omega]

/-- Behind the seventh list of a client and the eighth of a server nothing is looked at. -/
theorem stands_in {isServer : Bool} {k : ℕ} (hk : 6 ≤ k) (h : ¬ (k = 6 ∨ isServer = true ∧ k = 7)) :
    P.compression k = P.compression 10 ∧ P.hashed isServer k = P.hashed isServer 10 := by
  have hcomp : P.compression k = P.compression 10 := by
    rw [compression, if_neg (fun hsix => h (.inl hsix))]
    rfl
  refine ⟨hcomp, ?_⟩
  cases isServer with
  | false => simp [hashed, hcomp]
  | true =>
      have hmore : ¬ k < 8 := by
        intro hlt
        exact h (by simp; omega)
      simp [hashed, hmore]

theorem complete_length : P.complete P.bytes.length = 10 := by
  rw [complete, completeLists_of_le, P.length_lists]
  simp [bytes, P.length_cookie]
  omega

end Kexinit

/-- Two digests that are written alike are the same. -/
theorem hexBytes_injective : Function.Injective hexBytes := by
  have hdigit : ∀ i j : Fin 16, Nat.digitChar i = Nat.digitChar j → i = j := by decide
  intro b
  induction b with
  | nil =>
      intro b' h
      cases b' with
      | nil => rfl
      | cons x b' => simp [hexBytes, hex_two x.toNat_lt] at h
  | cons x b ih =>
      intro b' h
      cases b' with
      | nil => simp [hexBytes, hex_two x.toNat_lt] at h
      | cons y b' =>
          have hcons (z : UInt8) (r : Bytes) : hexBytes (z :: r) =
              Nat.digitChar (z.toNat / 16) :: Nat.digitChar (z.toNat % 16) :: hexBytes r :=
            congrArg (· ++ hexBytes r) (hex_two z.toNat_lt)
          rw [hcons, hcons, List.cons.injEq, List.cons.injEq] at h
          obtain ⟨hhigh, hlow, hrest⟩ := h
          have hx := x.toNat_lt
          have hy := y.toNat_lt
          have hhigh := hdigit ⟨x.toNat / 16, by omega⟩ ⟨y.toNat / 16, by omega⟩ hhigh
          have hlow := hdigit ⟨x.toNat % 16, by omega⟩ ⟨y.toNat % 16, by omega⟩ hlow
          simp only [Fin.mk.injEq] at hhigh hlow
          rw [ih hrest, UInt8.toNat_inj.mp (show x.toNat = y.toNat by omega)]

/-! ### Fingerprints -/

section Fingerprint

variable [Hashes]

namespace AppSsh

omit [Hashes] in
/-- A list that is shown, and then the rest of the dissector. -/
theorem column_cap_bind {isServer ok : Bool} {v : Option Text} {list : Text} {max : ℕ}
    {f : Text → SshCols → SshCols} {k : M Unit} {s : Sink SshCols}
    (hk : ∀ t, column isServer (k.exec { s with cols := f t s.cols }) = if ok then v else none) :
    column isServer
        (((liftM (cap list max) : Dissect (Sink SshCols) Text) >>= fun t =>
          col (f t) >>= fun _ => k).exec s) =
      if (cap list max).isOk && ok then v else none := by
  rw [exec_panic_col_bind]
  cases cap list max with
  | error p => rfl
  | ok t => exact hk t

/-- **The fingerprint of a KEXINIT.** -/
theorem column_kexinit (lists : List Text) (isServer : Bool) (s : Sink SshCols) :
    column isServer ((kexinit lists isServer).exec s) =
      if isLegible lists then some (md5Hex (Text.join [';'] (hasshParts isServer lists)))
      else none := by
  unfold kexinit isLegible shown
  simp only [List.all_cons, List.all_nil]
  -- the lists that are shown, one after the other
  refine column_cap_bind fun _ => column_cap_bind fun _ => column_cap_bind fun _ =>
    column_cap_bind fun _ => column_cap_bind fun _ => column_cap_bind fun _ => ?_
  cases isServer <;> rfl

end AppSsh

namespace Kexinit

open AppSsh

variable (P : Kexinit)

/-- The fingerprint column that the first pass leaves for a payload. -/
def fingerprint (isServer : Bool) (payload : Bytes) : Option Text :=
  column isServer ((parse payload isServer).exec { stack := [], cols := {} })

/-- **The fingerprint of a part of the packet** is made of the lists that it holds, if there are six
of them. -/
theorem fingerprint_take (isServer : Bool) (n : ℕ) :
    fingerprint isServer (P.bytes.take n) =
      if P.complete n < 6 then none
      else if isLegible (P.found n) then
        some (md5Hex (Text.join [';'] (hasshParts isServer (P.found n))))
      else none := by
  have hfew (hn : n < 22) : P.complete n < 6 := by
    have hzero : n - 22 = 0 := by omega
    rw [complete, hzero]
    cases P.lists <;> simp [completeLists]
  have hparse : fingerprint isServer (P.bytes.take n) =
      column isServer
        ((binary (P.bytes.take n) isServer).exec { stack := [.ssh], cols := {} }) := by
    rw [fingerprint, parse, P.not_looksLikeSsh n]
    rfl
  rw [hparse, binary]
  by_cases hshort : (P.bytes.take n).length < 6
  · rw [if_pos hshort, if_pos (hfew ?_)]
    · cases isServer <;> rfl
    · rw [List.length_take] at hshort
      have hlong : 22 ≤ P.bytes.length := by
        simp [bytes, P.length_cookie]
        omega
      omega
  have hn : 6 ≤ n := by
    rw [List.length_take] at hshort
    omega
  have hrest : (Cur.new (P.bytes.take n)).rest = P.bytes.take n := rfl
  obtain ⟨-, c₁, hr₁, h₁⟩ | ⟨hlt, -⟩ :=
    Cur.read_of_rest (fun b => UInt32.ofNat (beNat b)) hrest (length_beBytes 4 _)
  swap
  · omega
  rw [ofNat_beBytes_four] at hr₁
  obtain ⟨-, c₂, hr₂, h₂⟩ | ⟨hlt, -⟩ := Cur.u8_of_rest h₁
  swap
  · omega
  obtain ⟨-, c₃, hr₃, h₃⟩ | ⟨hlt, -⟩ := Cur.u8_of_rest h₂
  swap
  · omega
  rw [if_neg hshort, Cur.be32, hr₁, exec_ok_bind]
  dsimp only
  rw [hr₂, exec_ok_bind]
  dsimp only
  rw [if_neg (Nat.not_lt.mpr P.roomy), hr₃, exec_ok_bind]
  dsimp only
  rw [exec_col_bind, if_neg (not_not_intro rfl)]
  obtain ⟨hn', c₄, hr₄, h₄⟩ | ⟨hlt, hr₄⟩ := Cur.skip_of_rest (x := P.cookie) h₃ P.length_cookie
  · rw [hr₄, exec_ok_bind]
    dsimp only
    have hlists : nameLists 10 c₄ = P.found n := by
      have hsub : n - 4 - 1 - 1 - 16 = n - 22 := by omega
      rw [hsub] at h₄
      have hfound := nameLists_take P.fits h₄
      rwa [P.length_lists] at hfound
    rw [hlists, P.length_found]
    by_cases hsix : P.complete n < 6
    · rw [if_pos hsix, if_pos hsix]
      cases isServer <;> rfl
    · rw [if_neg hsix, if_neg hsix, column_kexinit]
  · rw [hr₄, if_pos (hfew (by omega))]
    cases isServer <;> rfl

/-- The lists are all there, or what stands in for the ones that are missing makes no difference:
the packet is given up on because a list is cut inside a character, or the digests are the same. -/
def Spared (isServer : Bool) (k : ℕ) : Prop :=
  k = 6 ∨ isServer = true ∧ k = 7 → P.legible (P.compression k) = true →
    P.legible (P.text 6) = true ∧
      Hashes.md5 (Text.join [';'] (P.hashed isServer k)).encode =
        Hashes.md5 (Text.join [';'] (P.hashed isServer 10)).encode

/-- **When a part of a packet yields no wrong fingerprint.** -/
theorem fingerprint_take_iff (isServer : Bool) (n : ℕ) :
    (fingerprint isServer (P.bytes.take n) = none ∨
        fingerprint isServer (P.bytes.take n) = fingerprint isServer P.bytes) ↔
      P.Spared isServer (P.complete n) := by
  have hwhole : fingerprint isServer P.bytes =
      if P.legible (P.text 6) then some (md5Hex (Text.join [';'] (P.hashed isServer 10)))
      else none := by
    have htake := P.fingerprint_take isServer P.bytes.length
    have hten : 6 ≤ P.complete P.bytes.length := by rw [P.complete_length]; decide
    rw [List.take_length, if_neg (by omega), P.legible_found hten, P.hashed_found isServer hten,
      P.complete_length] at htake
    exact htake
  rw [P.fingerprint_take isServer n, hwhole]
  by_cases hsix : P.complete n < 6
  · rw [if_pos hsix]
    refine ⟨fun _ hk => ?_, fun _ => .inl rfl⟩
    omega
  · rw [if_neg hsix, P.legible_found (Nat.not_lt.mp hsix),
      P.hashed_found isServer (Nat.not_lt.mp hsix)]
    by_cases hk : P.complete n = 6 ∨ isServer = true ∧ P.complete n = 7
    · cases hleg : P.legible (P.compression (P.complete n)) with
      | false => simp [Spared, hleg]
      | true =>
          cases hleg' : P.legible (P.text 6) with
          | false => simp [Spared, hleg, hleg', hk]
          | true => simp [Spared, hleg, hleg', hk, md5Hex, hexBytes_injective.eq_iff]
    · obtain ⟨hcomp, hhashed⟩ := P.stands_in (by omega) hk
      rw [hcomp, hhashed]
      exact ⟨fun _ hk' => absurd hk' hk, fun _ => .inr rfl⟩

end Kexinit

end Fingerprint

/-! ### A client whose seventh list is cut off -/

namespace Kexinit

/-- Ten lists, the sixth of which is not the seventh. -/
def tenLists : Kexinit where
  packetLen := 76
  paddingLen := 5
  roomy := by decide
  not_banner := by decide
  cookie := List.replicate 16 0
  length_cookie := rfl
  lists := [[97], [98], [99], [100], [101], [102], [103], [104], [], []]
  length_lists := rfl
  fits := by decide
  tail := List.replicate 10 0

/-- The digests of the two texts. -/
@[reducible] def tenListsHashes : Hashes where
  md5 b :=
    if b = Text.ascii "a;c;e;f" then
      [0x24, 0x72, 0x89, 0xfb, 0xe9, 0x66, 0x92, 0xf1, 0xee, 0xd1, 0xba, 0xda, 0xe6, 0x0f, 0x03,
        0xc0]
    else if b = Text.ascii "a;c;e;g" then
      [0x1d, 0xce, 0xc9, 0x5d, 0x22, 0x56, 0x36, 0x22, 0x77, 0x5f, 0x87, 0xb3, 0x54, 0xbc, 0x5c,
        0xcc]
    else []
  sha1 _ := []
  sha256 _ := []
  base64 _ := []

/-- **A wrong fingerprint**: of the first 52 bytes of the packet of a client, which hold six lists,
another one is made than of the whole. -/
theorem tenLists_wrong :
    @fingerprint tenListsHashes false (tenLists.bytes.take 52) =
        some "247289fbe96692f1eed1badae60f03c0".toList ∧
      @fingerprint tenListsHashes false tenLists.bytes =
        some "1dcec95d22563622775f87b354bc5ccc".toList ∧
      ¬ (@fingerprint tenListsHashes false (tenLists.bytes.take 52) = none ∨
        @fingerprint tenListsHashes false (tenLists.bytes.take 52) =
          @fingerprint tenListsHashes false tenLists.bytes) := by
  decide +kernel

end Kexinit

end PcapRacer
