/-
**A ClientHello is read back.**

A hello message is a list of fields, some of them lists behind a length, in an extension block
behind a length, in a message behind a length, in a record behind a length.  The TLS dissector takes
each part as far as it is there; of a complete message it takes every part, so server name and
fingerprints are those of the message.

Main definitions:

* `HelloExtension`, `HelloMessage` — the extensions of a hello message, and the message;
* `HelloMessage.ja3Input`, `HelloMessage.ja4Input` — what its fingerprints are made from.

Main results:

* `parseExtensions_blockBytes` — the extensions are read back;
* `clientHello_read_back` — **server name and fingerprints are those of the message**.
-/

import PcapRacer.TextLossy
import PcapRacer.TlsHello

set_option relaxedAutoImplicit false
set_option autoImplicit false

namespace PcapRacer

/-! ### Extensions on the wire -/

/-- Sixteen-bit words in two bytes each. -/
def wordBytes (l : List UInt16) : Bytes := l.flatMap fun v => be16Bytes v.toNat

theorem length_wordBytes (l : List UInt16) : (wordBytes l).length = 2 * l.length := by
  induction l with
  | nil => rfl
  | cons v l ih =>
      change (be16Bytes v.toNat ++ wordBytes l).length = _
      rw [List.length_append, ih, List.length_cons]
      change 2 + _ = _
      omega

theorem ofNat_be16Bytes (v : UInt16) : UInt16.ofNat (beNat (be16Bytes v.toNat)) = v :=
  UInt16.toNat_inj.mp (toNat_be16Bytes v.toNat_lt)

theorem words_wordBytes (l : List UInt16) : AppTls.words (wordBytes l) = l := by
  induction l with
  | nil => rfl
  | cons v l ih =>
      change UInt16.ofNat (beNat (be16Bytes v.toNat)) :: AppTls.words (wordBytes l) = _
      rw [ofNat_be16Bytes, ih]

/-- A printable ASCII character. -/
def IsPrintable (b : UInt8) : Prop := 0x20 ≤ b ∧ b < 0x7f

theorem IsPrintable.ascii {b : UInt8} (h : IsPrintable b) : 0 < b ∧ b < 0x80 := by
  obtain ⟨hlow, hhigh⟩ := h
  rw [UInt8.le_iff_toNat_le] at hlow
  rw [UInt8.lt_iff_toNat_lt] at hhigh
  constructor
  · rw [UInt8.lt_iff_toNat_lt]
    exact Nat.lt_of_lt_of_le (by decide) hlow
  · rw [UInt8.lt_iff_toNat_lt]
    exact Nat.lt_trans hhigh (by decide)

theorem asciiString_of_printable {b : Bytes} (hne : b ≠ []) (h : ∀ x ∈ b, IsPrintable x) :
    asciiString b = some (Text.ofAscii b) :=
  asciiString_eq_ofAscii hne fun x hx => (h x hx).ascii

/-- An entry of a server name list.  The name type of host names is zero. -/
structure ServerName where
  nameType : UInt8
  name : Bytes
  printable : nameType = 0 → name ≠ [] ∧ ∀ b ∈ name, IsPrintable b

namespace ServerName

def bytes (n : ServerName) : Bytes :=
  n.nameType :: (be16Bytes n.name.length ++ n.name)

/-- The host name, where the entry is one. -/
def host (n : ServerName) : Option Text :=
  if n.nameType = 0 then some (Text.ofAscii n.name) else none

end ServerName

/-- A protocol name. -/
structure ProtocolName where
  name : Bytes
  ne : name ≠ []
  printable : ∀ b ∈ name, IsPrintable b
  lt : name.length < 256

namespace ProtocolName

def bytes (p : ProtocolName) : Bytes := UInt8.ofNat p.name.length :: p.name

def text (p : ProtocolName) : Text := Text.ofAscii p.name

end ProtocolName

/-- An extension of a hello message. -/
inductive HelloExtension
  | serverNames (names : List ServerName)
  | supportedGroups (groups : List UInt16)
  | pointFormats (formats : Bytes) (lt : formats.length < 256)
  | signatureAlgorithms (algorithms : List UInt16)
  | protocolNames (names : List ProtocolName)
  | supportedVersions (versions : List UInt16) (lt : 2 * versions.length < 256)
  /-- Any other extension, with any content. -/
  | other (id : UInt16) (data : Bytes) (ne : id.toNat ∉ [0, 10, 11, 13, 16, 43])

namespace HelloExtension

@[simp] def id : HelloExtension → UInt16
  | serverNames _ => 0
  | supportedGroups _ => 10
  | pointFormats _ _ => 11
  | signatureAlgorithms _ => 13
  | protocolNames _ => 16
  | supportedVersions _ _ => 43
  | other id _ _ => id

/-- A list behind its length in two bytes. -/
def behind16 (list : Bytes) : Bytes := be16Bytes list.length ++ list

/-- A list behind its length in one byte. -/
def behind8 (list : Bytes) : Bytes := UInt8.ofNat list.length :: list

def data : HelloExtension → Bytes
  | serverNames names => behind16 (names.flatMap ServerName.bytes)
  | supportedGroups groups => behind16 (wordBytes groups)
  | pointFormats formats _ => behind8 formats
  | signatureAlgorithms algorithms => behind16 (wordBytes algorithms)
  | protocolNames names => behind16 (names.flatMap ProtocolName.bytes)
  | supportedVersions versions _ => behind8 (wordBytes versions)
  | other _ data _ => data

def bytes (x : HelloExtension) : Bytes := be16Bytes x.id.toNat ++ behind16 x.data

/-! What an extension says. -/

@[simp] def hosts : HelloExtension → List Text
  | serverNames names => names.filterMap ServerName.host
  | _ => []

@[simp] def groups : HelloExtension → List UInt16
  | supportedGroups groups => groups
  | _ => []

@[simp] def formats : HelloExtension → Bytes
  | pointFormats formats _ => formats
  | _ => []

@[simp] def algorithms : HelloExtension → List UInt16
  | signatureAlgorithms algorithms => algorithms
  | _ => []

@[simp] def protocols : HelloExtension → List Text
  | protocolNames names => names.map ProtocolName.text
  | _ => []

@[simp] def versions : HelloExtension → List UInt16
  | supportedVersions versions _ => versions
  | _ => []

end HelloExtension

/-- The bytes of an extension block. -/
def blockBytes (xs : List HelloExtension) : Bytes := xs.flatMap HelloExtension.bytes

example : blockBytes [.supportedGroups [0x1d], .supportedVersions [0x0304] (by decide)] =
    [0x00, 0x0a, 0x00, 0x04, 0x00, 0x02, 0x00, 0x1d,
     0x00, 0x2b, 0x00, 0x03, 0x02, 0x03, 0x04] := by decide

/-! ### Extensions are read back -/

namespace AppTls

section Read

variable {d : Cur}

theorem hostName_bytes {names : List ServerName} (fuel : ℕ) (hfuel : names.length ≤ fuel)
    (h : d.rest = names.flatMap ServerName.bytes)
    (hlt : (names.flatMap ServerName.bytes).length < 2 ^ 16) :
    hostName fuel d = (names.filterMap ServerName.host).head?.map some := by
  induction names generalizing fuel d with
  | nil =>
      cases fuel with
      | zero => rfl
      | succ fuel =>
          rw [hostName, if_pos (by rw [Cur.remaining_of_rest_nil h]; decide)]
          rfl
  | cons n names ih =>
      obtain ⟨fuel, rfl⟩ : ∃ k, fuel = k + 1 := ⟨fuel - 1, by rw [List.length_cons] at hfuel; omega⟩
      rw [List.flatMap_cons, List.length_append] at hlt
      have hname : n.bytes.length = 3 + n.name.length := by
        change (be16Bytes n.name.length ++ n.name).length + 1 = _
        rw [List.length_append]
        change 2 + _ + 1 = _
        omega
      have hsize : (UInt16.ofNat (beNat (be16Bytes n.name.length))).toNat = n.name.length :=
        toNat_be16Bytes (by omega)
      have hroom : ¬ d.remaining < 3 := by
        rw [← Cur.length_rest, h, List.flatMap_cons, List.length_append]
        omega
      have hrest : d.rest = n.nameType :: (be16Bytes n.name.length ++
          (n.name ++ names.flatMap ServerName.bytes)) := by
        rw [h, List.flatMap_cons, ServerName.bytes, List.cons_append, List.append_assoc]
      obtain ⟨d₁, hu8, hrest₁⟩ := Cur.exists_u8 hrest
      obtain ⟨d₂, hbe16, hrest₂⟩ := Cur.exists_be16 hrest₁ rfl
      obtain ⟨d₃, htake, hrest₃⟩ := Cur.exists_take hrest₂ hsize
      rw [hostName, if_neg hroom, hu8]
      change (d₁.be16.toOption.bind fun x => (x.2.take x.1.toNat).toOption.bind fun y =>
        if n.nameType = 0 then some (asciiString y.1) else hostName fuel y.2) = _
      rw [hbe16]
      change ((d₂.take _).toOption.bind fun y =>
        if n.nameType = 0 then some (asciiString y.1) else hostName fuel y.2) = _
      rw [htake]
      change (if n.nameType = 0 then some (asciiString n.name) else hostName fuel d₃) = _
      by_cases htype : n.nameType = 0
      · obtain ⟨hne, hprint⟩ := n.printable htype
        have hhost : n.host = some (Text.ofAscii n.name) := if_pos htype
        rw [if_pos htype, List.filterMap_cons_some hhost, asciiString_of_printable hne hprint]
        rfl
      · have hhost : n.host = none := if_neg htype
        rw [if_neg htype, List.filterMap_cons_none hhost]
        exact ih fuel (Nat.le_of_succ_le_succ hfuel) hrest₃ (by omega)

theorem protocolNames_bytes {names : List ProtocolName} (fuel : ℕ) (hfuel : names.length ≤ fuel)
    (h : d.rest = names.flatMap ProtocolName.bytes) :
    protocolNames fuel d = names.map ProtocolName.text := by
  induction names generalizing fuel d with
  | nil =>
      cases fuel with
      | zero => rfl
      | succ fuel =>
          rw [protocolNames, Cur.u8_of_rest_nil h]
          rfl
  | cons p names ih =>
      obtain ⟨fuel, rfl⟩ : ∃ k, fuel = k + 1 := ⟨fuel - 1, by rw [List.length_cons] at hfuel; omega⟩
      have hsize : (UInt8.ofNat p.name.length).toNat = p.name.length := UInt8.toNat_ofNat_of_lt p.lt
      have hrest : d.rest = UInt8.ofNat p.name.length ::
          (p.name ++ names.flatMap ProtocolName.bytes) := by
        rw [h, List.flatMap_cons, ProtocolName.bytes, List.cons_append]
      obtain ⟨d₁, hu8, hrest₁⟩ := Cur.exists_u8 hrest
      obtain ⟨d₂, htake, hrest₂⟩ := Cur.exists_take hrest₁ hsize
      rw [protocolNames, hu8]
      dsimp only
      rw [htake]
      dsimp only
      rw [asciiString_of_printable p.ne p.printable, ih fuel (Nat.le_of_succ_le_succ hfuel) hrest₂]
      rfl

theorem prefixedWords_bytes {l : List UInt16} {n : ℕ} {tail : Bytes}
    (h : d.rest = wordBytes l ++ tail) (hn : n = (wordBytes l).length) :
    prefixedWords n d = l := by
  obtain ⟨d', htake, -⟩ := Cur.exists_take h hn
  rw [prefixedWords, htake]
  exact words_wordBytes l

/-- Record what an extension says. -/
def record (e : Exts) (x : HelloExtension) : Exts :=
  { ids := e.ids ++ [x.id]
    sni := x.hosts.head?.or e.sni
    alpn := e.alpn ++ x.protocols
    groups := e.groups ++ x.groups
    pointFormats := e.pointFormats ++ x.formats
    sigAlgs := e.sigAlgs ++ x.algorithms
    supportedVersions := e.supportedVersions ++ x.versions }

theorem behind16_read {list : Bytes} (h : d.rest = HelloExtension.behind16 list)
    (hlt : list.length < 2 ^ 16) :
    ∃ l d', d.be16 = .ok (l, d') ∧ l.toNat = list.length ∧ d'.rest = list := by
  obtain ⟨d', hread, hrest⟩ := Cur.exists_be16 h rfl
  exact ⟨_, d', hread, toNat_be16Bytes hlt, hrest⟩

theorem behind8_read {list : Bytes} (h : d.rest = HelloExtension.behind8 list)
    (hlt : list.length < 256) :
    ∃ l d', d.u8 = .ok (l, d') ∧ l.toNat = list.length ∧ d'.rest = list := by
  obtain ⟨d', hread, hrest⟩ := Cur.exists_u8 h
  exact ⟨_, d', hread, UInt8.toNat_ofNat_of_lt hlt, hrest⟩

/-- The length of a list behind its own length. -/
theorem length_behind16 (list : Bytes) :
    (HelloExtension.behind16 list).length = 2 + list.length := by
  rw [HelloExtension.behind16, List.length_append]
  rfl

theorem length_behind8 (list : Bytes) :
    (HelloExtension.behind8 list).length = list.length + 1 := rfl

theorem length_le_flatMap {α : Type} {l : List α} {f : α → Bytes} (h : ∀ a, f a ≠ []) :
    l.length ≤ (l.flatMap f).length := by
  induction l with
  | nil => exact Nat.le_refl 0
  | cons a l ih =>
      have hpos := List.length_pos_of_ne_nil (h a)
      rw [List.flatMap_cons, List.length_append, List.length_cons]
      omega

/-! One lemma for each extension that is read. -/

section Kinds

variable (e : Exts)

theorem readExtension_serverNames (names : List ServerName)
    (hlt : (HelloExtension.serverNames names).data.length < 2 ^ 16) :
    readExtension e 0 (HelloExtension.serverNames names).data =
      record e (.serverNames names) := by
  have hlen := length_behind16 (names.flatMap ServerName.bytes)
  change (HelloExtension.behind16 _).length < 2 ^ 16 at hlt
  obtain ⟨l, d, hread, -, hd⟩ :=
    behind16_read (d := Cur.new (HelloExtension.serverNames names).data) rfl (by omega)
  have hfuel : names.length ≤ (names.flatMap ServerName.bytes).length :=
    length_le_flatMap fun n => List.cons_ne_nil _ _
  have hhost := hostName_bytes (HelloExtension.behind16
    (names.flatMap ServerName.bytes)).length (by omega) hd (by omega)
  unfold readExtension
  dsimp only
  rw [hread]
  dsimp only [HelloExtension.data]
  rw [hhost]
  cases hfirst : (names.filterMap ServerName.host).head? with
  | none => simp [record, hfirst]
  | some host => simp [record, hfirst]

theorem readExtension_supportedGroups (groups : List UInt16)
    (hlt : (HelloExtension.supportedGroups groups).data.length < 2 ^ 16) :
    readExtension e 10 (HelloExtension.supportedGroups groups).data =
      record e (.supportedGroups groups) := by
  have hlen := length_behind16 (wordBytes groups)
  change (HelloExtension.behind16 _).length < 2 ^ 16 at hlt
  obtain ⟨l, d, hread, hl, hd⟩ :=
    behind16_read (d := Cur.new (HelloExtension.supportedGroups groups).data) rfl (by omega)
  have hwords := prefixedWords_bytes (hd.trans (List.append_nil _).symm) hl
  unfold readExtension
  dsimp only
  rw [hread]
  change { e with ids := e.ids ++ [10], groups := e.groups ++ prefixedWords l.toNat d } = _
  rw [hwords]
  simp [record]

theorem readExtension_pointFormats (formats : Bytes) (lt : formats.length < 256) :
    readExtension e 11 (HelloExtension.pointFormats formats lt).data =
      record e (.pointFormats formats lt) := by
  obtain ⟨l, d, hread, hl, hd⟩ :=
    behind8_read (d := Cur.new (HelloExtension.pointFormats formats lt).data) rfl lt
  obtain ⟨d', htake, -⟩ := Cur.exists_take (hd.trans (List.append_nil _).symm) hl
  unfold readExtension
  dsimp only
  rw [hread]
  dsimp only
  rw [htake]
  simp [record]

theorem readExtension_signatureAlgorithms (algorithms : List UInt16)
    (hlt : (HelloExtension.signatureAlgorithms algorithms).data.length < 2 ^ 16) :
    readExtension e 13 (HelloExtension.signatureAlgorithms algorithms).data =
      record e (.signatureAlgorithms algorithms) := by
  have hlen := length_behind16 (wordBytes algorithms)
  change (HelloExtension.behind16 _).length < 2 ^ 16 at hlt
  obtain ⟨l, d, hread, hl, hd⟩ :=
    behind16_read (d := Cur.new (HelloExtension.signatureAlgorithms algorithms).data) rfl
      (by omega)
  have hwords := prefixedWords_bytes (hd.trans (List.append_nil _).symm) hl
  unfold readExtension
  dsimp only
  rw [hread]
  change { e with ids := e.ids ++ [13], sigAlgs := e.sigAlgs ++ prefixedWords l.toNat d } = _
  rw [hwords]
  simp [record]

theorem readExtension_protocolNames (names : List ProtocolName)
    (hlt : (HelloExtension.protocolNames names).data.length < 2 ^ 16) :
    readExtension e 16 (HelloExtension.protocolNames names).data =
      record e (.protocolNames names) := by
  have hlen := length_behind16 (names.flatMap ProtocolName.bytes)
  change (HelloExtension.behind16 _).length < 2 ^ 16 at hlt
  obtain ⟨l, d, hread, -, hd⟩ :=
    behind16_read (d := Cur.new (HelloExtension.protocolNames names).data) rfl (by omega)
  have hfuel : names.length ≤ (names.flatMap ProtocolName.bytes).length :=
    length_le_flatMap fun n => List.cons_ne_nil _ _
  have hnames := protocolNames_bytes (HelloExtension.behind16
    (names.flatMap ProtocolName.bytes)).length (by omega) hd
  unfold readExtension
  dsimp only
  rw [hread]
  dsimp only [HelloExtension.data]
  rw [hnames]
  simp [record]

theorem readExtension_supportedVersions (versions : List UInt16)
    (lt : 2 * versions.length < 256) :
    readExtension e 43 (HelloExtension.supportedVersions versions lt).data =
      record e (.supportedVersions versions lt) := by
  have hlen := length_wordBytes versions
  obtain ⟨l, d, hread, hl, hd⟩ :=
    behind8_read (d := Cur.new (HelloExtension.supportedVersions versions lt).data) rfl (by omega)
  have hwords := prefixedWords_bytes (hd.trans (List.append_nil _).symm) hl
  -- the list takes an even number of bytes, so the extension takes an odd number
  have hodd : ¬ (HelloExtension.supportedVersions versions lt).data.length = 2 := by
    rw [HelloExtension.data, length_behind8, hlen]
    omega
  unfold readExtension
  dsimp only
  rw [if_neg hodd, hread]
  dsimp only
  rw [hwords]
  simp [record]

/-- Of any other extension the number is recorded. -/
theorem readExtension_other (id : UInt16) (data : Bytes)
    (ne : id.toNat ∉ [0, 10, 11, 13, 16, 43]) :
    readExtension e id data = record e (.other id data ne) := by
  unfold readExtension
  dsimp only
  split
  case h_7 => simp [record]
  -- an extension that is read
  all_goals
    next hid =>
    exact absurd (show id.toNat ∈ [0, 10, 11, 13, 16, 43] by
      rw [show id.toNat = _ from hid]
      decide) ne

/-- **An extension is read back.** -/
theorem readExtension_data (x : HelloExtension) (hlt : x.data.length < 2 ^ 16) :
    readExtension e x.id x.data = record e x := by
  cases x with
  | serverNames names => exact readExtension_serverNames e names hlt
  | supportedGroups groups => exact readExtension_supportedGroups e groups hlt
  | pointFormats formats lt => exact readExtension_pointFormats e formats lt
  | signatureAlgorithms algorithms => exact readExtension_signatureAlgorithms e algorithms hlt
  | protocolNames names => exact readExtension_protocolNames e names hlt
  | supportedVersions versions lt => exact readExtension_supportedVersions e versions lt
  | other id data ne => exact readExtension_other e id data ne

end Kinds

theorem extensionLoop_bytes {xs : List HelloExtension} (fuel : ℕ) {c : Cur} (e : Exts)
    (hfuel : xs.length ≤ fuel) (h : c.rest = blockBytes xs)
    (hlt : (blockBytes xs).length < 2 ^ 16) : extensionLoop fuel c e = xs.foldl record e := by
  induction xs generalizing fuel c e with
  | nil =>
      cases fuel with
      | zero => rfl
      | succ fuel => rw [extensionLoop, if_pos (by rw [Cur.remaining_of_rest_nil h]; decide)]; rfl
  | cons x xs ih =>
      obtain ⟨fuel, rfl⟩ : ∃ k, fuel = k + 1 := ⟨fuel - 1, by rw [List.length_cons] at hfuel; omega⟩
      have hrest : c.rest = be16Bytes x.id.toNat ++
          (be16Bytes x.data.length ++ (x.data ++ blockBytes xs)) := by
        rw [h]
        simp only [blockBytes, List.flatMap_cons, HelloExtension.bytes, HelloExtension.behind16,
          List.append_assoc]
      have hlen : c.remaining = 4 + x.data.length + (blockBytes xs).length := by
        rw [← Cur.length_rest, hrest]
        simp only [List.length_append, be16Bytes, List.length_cons, List.length_nil]
        omega
      have hblock : c.remaining < 2 ^ 16 := by rw [← Cur.length_rest, h]; exact hlt
      have hsize : (UInt16.ofNat (beNat (be16Bytes x.data.length))).toNat = x.data.length :=
        toNat_be16Bytes (by omega)
      obtain ⟨c₁, hid, hrest₁⟩ := Cur.exists_be16 hrest rfl
      obtain ⟨c₂, hread, hrest₂⟩ := Cur.exists_be16 hrest₁ rfl
      obtain ⟨c₃, htake, hrest₃⟩ := Cur.exists_take hrest₂ hsize
      rw [extensionLoop, if_neg (by omega), hid]
      dsimp only
      rw [hread]
      dsimp only
      rw [htake]
      dsimp only
      rw [ofNat_be16Bytes, readExtension_data e x (by omega)]
      exact ih fuel _ (Nat.le_of_succ_le_succ hfuel) hrest₃ (by omega)

/-! ### The extensions together -/

/-- The first host name, with a later server name list over an earlier one. -/
def lastHost (sni : Option Text) (xs : List HelloExtension) : Option Text :=
  xs.foldl (fun sni x => x.hosts.head?.or sni) sni

/-- What all extensions say, in their order. -/
theorem foldl_record (xs : List HelloExtension) (e : Exts) :
    xs.foldl record e =
      { ids := e.ids ++ xs.map HelloExtension.id
        sni := lastHost e.sni xs
        alpn := e.alpn ++ xs.flatMap HelloExtension.protocols
        groups := e.groups ++ xs.flatMap HelloExtension.groups
        pointFormats := e.pointFormats ++ xs.flatMap HelloExtension.formats
        sigAlgs := e.sigAlgs ++ xs.flatMap HelloExtension.algorithms
        supportedVersions := e.supportedVersions ++ xs.flatMap HelloExtension.versions } := by
  induction xs generalizing e with
  | nil => simp [lastHost]
  | cons x xs ih =>
      rw [List.foldl_cons, ih]
      simp [record, lastHost, List.append_assoc]

/-- Only a server name list has host names. -/
theorem hosts_of_id_ne {x : HelloExtension} (h : x.id ≠ 0) : x.hosts = [] := by
  cases x with
  | serverNames names => exact absurd rfl h
  | _ => rfl

theorem lastHost_of_no_hosts {sni : Option Text} {xs : List HelloExtension}
    (h : ∀ x ∈ xs, x.hosts = []) : lastHost sni xs = sni := by
  induction xs with
  | nil => rfl
  | cons x xs ih =>
      have hx := h x List.mem_cons_self
      rw [lastHost, List.foldl_cons, hx]
      exact ih fun y hy => h y (List.mem_cons_of_mem _ hy)

/-- With one server name list at most, it is the first host name of all. -/
theorem lastHost_of_nodup {xs : List HelloExtension} (h : (xs.map HelloExtension.id).Nodup) :
    lastHost none xs = (xs.flatMap HelloExtension.hosts).head? := by
  induction xs with
  | nil => rfl
  | cons x xs ih =>
      rw [List.map_cons, List.nodup_cons] at h
      rw [lastHost, List.foldl_cons, List.flatMap_cons]
      by_cases hid : x.id = 0
      · -- no other server name list
        have hrest : ∀ y ∈ xs, y.hosts = [] := fun y hy =>
          hosts_of_id_ne fun hy0 => h.1 (List.mem_map.mpr ⟨y, hy, hy0.trans hid.symm⟩)
        have hflat : xs.flatMap HelloExtension.hosts = [] := List.flatMap_eq_nil_iff.mpr hrest
        rw [hflat, List.append_nil, Option.or_none]
        exact lastHost_of_no_hosts hrest
      · rw [hosts_of_id_ne hid]
        exact ih h.2

/-- The extensions of a message with distinct numbers. -/
def said (xs : List HelloExtension) : Exts where
  ids := xs.map HelloExtension.id
  sni := (xs.flatMap HelloExtension.hosts).head?
  alpn := xs.flatMap HelloExtension.protocols
  groups := xs.flatMap HelloExtension.groups
  pointFormats := xs.flatMap HelloExtension.formats
  sigAlgs := xs.flatMap HelloExtension.algorithms
  supportedVersions := xs.flatMap HelloExtension.versions

/-- **The extensions are read back.** -/
theorem parseExtensions_blockBytes {xs : List HelloExtension} {c : Cur}
    (h : c.rest = be16Bytes (blockBytes xs).length ++ blockBytes xs)
    (hlt : (blockBytes xs).length < 2 ^ 16) (hnodup : (xs.map HelloExtension.id).Nodup) :
    parseExtensions c = said xs := by
  obtain ⟨l, d, hread, hl, hd⟩ := behind16_read h hlt
  have hremaining : min l.toNat d.remaining = (blockBytes xs).length := by
    rw [← Cur.length_rest, hd, hl, Nat.min_self]
  obtain ⟨d', htake, -⟩ := Cur.exists_take (hd.trans (List.append_nil _).symm) hremaining
  have hfuel : xs.length ≤ (blockBytes xs).length :=
    length_le_flatMap fun x => List.cons_ne_nil _ _
  rw [parseExtensions, hread]
  dsimp only
  rw [htake]
  dsimp only
  rw [extensionLoop_bytes _ _ hfuel rfl hlt, foldl_record, lastHost_of_nodup hnodup]
  rfl

/-- Without an extension block there are no extensions. -/
theorem parseExtensions_of_rest_nil {c : Cur} (h : c.rest = []) : parseExtensions c = said [] := by
  have hend : ¬ 2 ≤ c.remaining := by
    rw [Cur.remaining_of_rest_nil h]
    decide
  have hbe16 : c.be16 = .error .truncated := by
    rw [Cur.be16, Cur.read, Cur.take, dif_neg hend]
    rfl
  rw [parseExtensions, hbe16]
  rfl

/-- The largest version on offer that is not GREASE, or else the legacy version. -/
theorem effectiveVersion_eq (legacy : UInt16) (e : Exts) :
    effectiveVersion legacy e =
      (e.supportedVersions.filter (!isGrease ·)).max?.getD legacy := by
  have hmax : (fun a b : UInt16 => if a < b then b else a) = max := by
    funext a b
    change (if a < b then b else a) = if a ≤ b then b else a
    by_cases hlt : a < b
    · rw [if_pos hlt, if_pos (UInt16.le_of_lt hlt)]
    · by_cases hle : a ≤ b
      · rw [if_neg hlt, if_pos hle]
        exact UInt16.le_antisymm hle (UInt16.not_lt.mp hlt)
      · rw [if_neg hlt, if_neg hle]
  rw [effectiveVersion, hmax]
  cases e.supportedVersions.filter (!isGrease ·) with
  | nil => rfl
  | cons v vs => rfl

end Read

/-! ### Columns of a hello message -/

section Runs

variable {σ α β C : Type}

/-- The dissector neither gives up nor panics. -/
def Runs (d : Dissect σ α) : Prop := ∀ s, ∃ a s', d.exec s = .ok (.ok a, s')

theorem runs_pure (a : α) : Runs (pure a : Dissect σ α) := fun s => ⟨a, s, rfl⟩

theorem runs_col (f : C → C) : Runs (col f) := fun _ => ⟨(), _, rfl⟩

theorem runs_bind {d : Dissect σ α} {f : α → Dissect σ β} (hd : Runs d) (hf : ∀ a, Runs (f a)) :
    Runs (d >>= f) := by
  intro s
  obtain ⟨a, s₁, hexec⟩ := hd s
  rw [exec_bind, hexec]
  exact hf a s₁

/-- A step that is left out when a condition fails. -/
theorem runs_optional {p : Prop} [Decidable p] {d : Dissect σ α} {next : Dissect σ β}
    (hd : Runs d) (hnext : Runs next) : Runs (if p then d >>= fun _ => next else next) := by
  split
  · exact runs_bind hd fun _ => hnext
  · exact hnext

end Runs

theorem runs_afterSni (e : Exts) : Runs (afterSni e) := by
  unfold afterSni
  dsimp only
  iterate 4 refine runs_optional (runs_col _) ?_
  split
  · exact runs_col _
  · exact runs_pure ()

theorem runs_applyExts {e : Exts} (hsni : ∀ name, e.sni = some name → Text.IsAscii name) :
    Runs (applyExts e) := by
  have hfrom : Runs (fromSni e) := by
    intro s
    unfold fromSni
    cases h : e.sni with
    | none => exact runs_afterSni e s
    | some name =>
        dsimp only
        rw [exec_cap_bind (cap_of_isAscii (hsni name h) 512)]
        exact runs_bind (runs_col _) (fun _ => runs_afterSni e) s
  rw [applyExts_eq]
  exact runs_optional (runs_col _) hfrom

theorem isAscii_suites (suites : List UInt16) :
    Text.IsAscii (Text.join [','] (suites.map hex4)) := by
  refine Text.isAscii_join (Text.isAscii_singleton rfl) fun p hp => ?_
  obtain ⟨v, -, rfl⟩ := List.mem_map.mp hp
  exact Text.isAscii_hex 4 v.toNat

theorem isAscii_dashJoined (v : List UInt16) : Text.IsAscii (dashJoined v) := by
  refine Text.isAscii_join (Text.isAscii_singleton rfl) fun p hp => ?_
  obtain ⟨x, -, rfl⟩ := List.mem_map.mp hp
  exact Text.isAscii_decimal x.toNat

section Hello

variable [Hashes]

theorem isAscii_ja3 (i : Ja3Input) : Text.IsAscii (ja3 i).2 := by
  refine Text.isAscii_join (Text.isAscii_singleton rfl) fun p hp => ?_
  simp only [List.mem_cons, List.not_mem_nil, or_false] at hp
  obtain rfl | rfl | rfl | rfl | rfl := hp
  · exact Text.isAscii_decimal _
  · exact isAscii_dashJoined _
  · exact isAscii_dashJoined _
  · exact isAscii_dashJoined _
  · refine Text.isAscii_join (Text.isAscii_singleton rfl) fun p hp => ?_
    obtain ⟨x, -, rfl⟩ := List.mem_map.mp hp
    exact Text.isAscii_decimal x.toNat

/-- What is written of a hello message. -/
theorem clientHelloCols_ok (v : UInt16) (suites : List UInt16) {e : Exts}
    (hsni : ∀ name, e.sni = some name → Text.IsAscii name) (s : Sink TlsCols) :
    ∃ s', (clientHelloCols v suites e).exec s = .ok (.ok (), s') ∧
      s'.cols.tlsSni = (e.sni.map fun name => cappedAscii name 512).or s.cols.tlsSni ∧
      s'.cols.ja3 = some (helloJa3 v suites e).1 ∧
      s'.cols.ja3Full = some (cappedAscii (helloJa3 v suites e).2 2048) ∧
      s'.cols.ja4 = some (helloJa4 v suites e) := by
  have hsuites := cap_of_isAscii (isAscii_suites suites) 1024
  have hfull := cap_of_isAscii (isAscii_ja3 { version := v, ciphers := suites
                                              extensions := e.ids, curves := e.groups
                                              pointFormats := e.pointFormats }) 2048
  unfold clientHelloCols
  dsimp only
  rw [exec_col_bind, exec_cap_bind hsuites, exec_col_bind]
  generalize hs₁ : (Sink.mk _ _ : Sink TlsCols) = s₁
  have hfirst : s₁.cols.tlsSni = s.cols.tlsSni := by rw [← hs₁]
  obtain ⟨u, s₂, hexts⟩ := runs_applyExts hsni s₁
  have hmarks := (applyExts_exec hexts).2
  rw [exec_bind, hexts]
  dsimp only
  rw [exec_col_bind, exec_cap_bind hfull, exec_col_bind, exec_col]
  refine ⟨_, rfl, ?_, rfl, rfl, rfl⟩
  have hsni₂ : s₂.cols.tlsSni = (extsMarks e (marks s₁)).1 := congrArg Prod.fst hmarks
  change s₂.cols.tlsSni = _
  rw [hsni₂, extsMarks]
  cases h : e.sni with
  | none => exact hfirst
  | some name =>
      dsimp only
      rw [cap_of_isAscii (hsni name h) 512]
      rfl

end Hello

end AppTls

/-! ### The message -/

/-- A ClientHello in a TLS record of its own, by its fields. -/
structure HelloMessage where
  frame : ClientHello
  suites : List UInt16
  /-- The extensions; the block may be absent. -/
  extensions : Option (List HelloExtension)
  suites_eq : frame.suites = wordBytes suites
  extensions_eq : frame.extensions = extensions.map blockBytes
  distinct : ((extensions.getD []).map HelloExtension.id).Nodup

namespace HelloMessage

variable (h : HelloMessage)

/-- The extensions, in their order. -/
def exts : List HelloExtension := h.extensions.getD []

/-- The first host name of the message. -/
def host : Option Text := (h.exts.flatMap HelloExtension.hosts).head?

/-- The versions on offer that are not GREASE. -/
def offered : List UInt16 := (h.exts.flatMap HelloExtension.versions).filter (!isGrease ·)

/-- What JA3 is made from. -/
def ja3Input : Ja3Input where
  version := h.frame.legacyVersion
  ciphers := h.suites
  extensions := h.exts.map HelloExtension.id
  curves := h.exts.flatMap HelloExtension.groups
  pointFormats := h.exts.flatMap HelloExtension.formats

/-- What JA4 is made from. -/
def ja4Input : Ja4Input where
  version := h.offered.max?.getD h.frame.legacyVersion
  isQuic := false
  hasSni := h.host.isSome
  ciphers := h.suites
  extensions := h.exts.map HelloExtension.id
  sigAlgs := h.exts.flatMap HelloExtension.algorithms
  alpn := (h.exts.flatMap HelloExtension.protocols).head?

theorem parseExtensions_tail {c : Cur} (hc : c.rest = h.frame.tail) :
    AppTls.parseExtensions c = AppTls.said h.exts := by
  rw [ClientHello.tail, h.extensions_eq] at hc
  have hlt := h.frame.extensions_lt
  have hnodup := h.distinct
  rw [h.extensions_eq] at hlt
  rw [exts]
  cases hexts : h.extensions with
  | none =>
      rw [hexts] at hc
      exact AppTls.parseExtensions_of_rest_nil hc
  | some xs =>
      rw [hexts] at hc hlt hnodup
      exact AppTls.parseExtensions_blockBytes hc (hlt _ rfl) hnodup

theorem isAscii_host {name : Text} (hname : h.host = some name) : Text.IsAscii name := by
  have hmem : name ∈ h.exts.flatMap HelloExtension.hosts := List.mem_of_mem_head? hname
  obtain ⟨x, -, hx⟩ := List.mem_flatMap.mp hmem
  cases x with
  | serverNames names =>
      obtain ⟨n, -, hn⟩ := List.mem_filterMap.mp hx
      by_cases htype : n.nameType = 0
      · rw [ServerName.host, if_pos htype] at hn
        cases hn
        exact Text.isAscii_ofAscii fun b hb => ((n.printable htype).2 b hb).ascii.2
      · rw [ServerName.host, if_neg htype] at hn
        cases hn
  | _ => exact absurd hx List.not_mem_nil

/-- The columns say of the message what it says, given the server name before. -/
structure Told [Hashes] (before : Option Text) (c : TlsCols) : Prop where
  sni : c.tlsSni = (h.host.map fun name => cappedAscii name 512).or before
  digest : c.ja3 = some (ja3 h.ja3Input).1
  full : c.ja3Full = some (cappedAscii (ja3 h.ja3Input).2 2048)
  print4 : c.ja4 = some (ja4 h.ja4Input)

section Parse

variable [Hashes]

/-- The message is read to its end, and the columns are written. -/
theorem clientHello_message (s : Sink TlsCols) :
    ∃ s', (AppTls.clientHello h.frame.message false).exec s = .ok (.ok (), s') ∧
      h.Told s.cols.tlsSni s'.cols := by
  have hsid : (UInt8.ofNat h.frame.sessionId.length).toNat = h.frame.sessionId.length :=
    UInt8.toNat_ofNat_of_lt h.frame.sessionId_lt
  have hcomp : (UInt8.ofNat h.frame.compression.length).toNat = h.frame.compression.length :=
    UInt8.toNat_ofNat_of_lt h.frame.compression_lt
  have hsuites := toNat_be16Bytes h.frame.suites_lt
  have hrest : (Cur.new h.frame.message).rest = h.frame.message := rfl
  obtain ⟨c₁, hversion, hrest₁⟩ := Cur.exists_be16 hrest h.frame.length_version
  obtain ⟨c₂, hrandom, hrest₂⟩ := Cur.exists_skip hrest₁ h.frame.length_random.symm
  obtain ⟨c₃, hsidLen, hrest₃⟩ := Cur.exists_u8 hrest₂
  obtain ⟨c₄, hsession, hrest₄⟩ := Cur.exists_skip hrest₃ hsid
  obtain ⟨c₅, hcsLen, hrest₅⟩ := Cur.exists_be16 hrest₄ rfl
  obtain ⟨c₆, hcs, hrest₆⟩ := Cur.exists_take hrest₅ hsuites
  obtain ⟨c₇, hcompLen, hrest₇⟩ := Cur.exists_u8 hrest₆
  obtain ⟨c₈, hcomps, hrest₈⟩ := Cur.exists_take hrest₇ hcomp
  have hexts := h.parseExtensions_tail hrest₈
  unfold AppTls.clientHello
  rw [hversion, exec_ok_bind]
  dsimp only
  rw [hrandom, exec_ok_bind, hsidLen, exec_ok_bind]
  dsimp only
  rw [exec_col_bind, hsession, exec_ok_bind]
  -- no cookie outside DTLS
  rw [if_neg Bool.false_ne_true, pure_bind, hcsLen, exec_ok_bind]
  dsimp only
  rw [hcs, exec_ok_bind]
  dsimp only
  rw [hcompLen, exec_ok_bind]
  dsimp only
  rw [hcomps, exec_ok_bind]
  dsimp only
  rw [exec_col_bind, hexts, h.suites_eq, words_wordBytes]
  generalize hs₁ : (Sink.mk _ _ : Sink TlsCols) = s₁
  have hfirst : s₁.cols.tlsSni = s.cols.tlsSni := by rw [← hs₁]
  have hascii : ∀ name, (AppTls.said h.exts).sni = some name → Text.IsAscii name :=
    fun name hname => h.isAscii_host hname
  obtain ⟨s', hexec, hsni, hja3, hfull, hja4⟩ :=
    AppTls.clientHelloCols_ok h.frame.legacyVersion h.suites hascii s₁
  refine ⟨s', hexec, ?_, hja3, hfull, ?_⟩
  · rw [hsni, hfirst]
    rfl
  · rw [hja4, AppTls.helloJa4, AppTls.effectiveVersion_eq]
    rfl

/-- The handshake is read to its end. -/
theorem handshake_message (s : Sink TlsCols) :
    ∃ s', (AppTls.handshake h.frame.handshake false).exec s = .ok (.ok (), s') ∧
      h.Told s.cols.tlsSni s'.cols := by
  have hlt := h.frame.length_handshake_lt
  have hlen := h.frame.length_handshake
  have hrest : (Cur.new h.frame.handshake).rest = h.frame.handshake := rfl
  have hroom : 4 ≤ (Cur.new h.frame.handshake).remaining := by
    rw [← Cur.length_rest, hrest]
    omega
  obtain ⟨c₁, htype, hrest₁⟩ := Cur.exists_u8 hrest
  obtain ⟨c₂, hhlen, hrest₂⟩ := Cur.exists_be24 hrest₁ rfl
  have hsize : min (UInt32.ofNat (beNat (be24Bytes h.frame.message.length))).toNat
      c₂.remaining = h.frame.message.length := by
    rw [toNat_be24Bytes (by omega), ← Cur.length_rest, hrest₂, Nat.min_self]
  obtain ⟨c₃, htake, hrest₃⟩ := Cur.exists_take (hrest₂.trans (List.append_nil _).symm) hsize
  have hend : ¬ 4 ≤ c₃.remaining := by
    rw [Cur.remaining_of_rest_nil hrest₃]
    decide
  -- nothing is left behind the message
  have hafter : ∀ s₁ : Sink TlsCols, s₁.cols.tlsSni = s.cols.tlsSni →
      ∃ s', (AppTls.clientHello h.frame.message false >>= fun _ =>
        AppTls.handshakeLoop false 7 c₃).exec s₁ = .ok (.ok (), s') ∧
        h.Told s.cols.tlsSni s'.cols := by
    intro s₁ hs₁
    obtain ⟨s', hexec, htold⟩ := h.clientHello_message s₁
    refine ⟨s', ?_, hs₁ ▸ htold⟩
    rw [exec_bind, hexec, AppTls.handshakeLoop]
    dsimp only
    rw [if_neg hend]
    rfl
  unfold AppTls.handshake AppTls.handshakeLoop
  rw [if_pos hroom, htype, exec_ok_bind]
  dsimp only
  rw [hhlen, exec_ok_bind]
  dsimp only
  rw [if_neg Bool.false_ne_true, pure_bind, htake, exec_ok_bind]
  dsimp only
  rw [exec_bind, exec_cols]
  dsimp only
  split
  · rw [exec_col_bind, if_pos rfl]
    exact hafter _ rfl
  · rw [if_pos rfl]
    exact hafter s rfl

/-- The record is read to its end. -/
theorem parse_bytes (s : Sink TlsCols) :
    ∃ s', (AppTls.parse h.frame.bytes false).exec s = .ok (.ok (), s') ∧
      h.Told s.cols.tlsSni s'.cols := by
  have hlt := h.frame.length_handshake_lt
  have hlen := h.frame.length_handshake
  have hrest : (Cur.new h.frame.bytes).rest = h.frame.bytes := rfl
  have hroom : 5 ≤ (Cur.new h.frame.bytes).remaining := by
    rw [← Cur.length_rest, hrest, ClientHello.bytes, List.length_cons, List.length_append,
      h.frame.length_recordVersion, List.length_append]
    omega
  obtain ⟨c₁, htype, hrest₁⟩ := Cur.exists_u8 hrest
  obtain ⟨c₂, hversion, hrest₂⟩ := Cur.exists_be16 hrest₁ h.frame.length_recordVersion
  obtain ⟨c₃, hlength, hrest₃⟩ := Cur.exists_be16 hrest₂ rfl
  have hsize : min (UInt16.ofNat (beNat (be16Bytes h.frame.handshake.length))).toNat
      c₃.remaining = h.frame.handshake.length := by
    rw [toNat_be16Bytes hlt, ← Cur.length_rest, hrest₃, Nat.min_self]
  obtain ⟨c₄, htake, hrest₄⟩ := Cur.exists_take (hrest₃.trans (List.append_nil _).symm) hsize
  have hend : ¬ 5 ≤ c₄.remaining := by
    rw [Cur.remaining_of_rest_nil hrest₄]
    decide
  unfold AppTls.parse
  rw [if_neg Bool.false_ne_true, exec_bind, exec_layer]
  dsimp only
  rw [exec_col_bind]
  unfold AppTls.recordLoop
  rw [if_pos hroom, htype, exec_ok_bind]
  dsimp only
  rw [hversion, exec_ok_bind]
  dsimp only
  rw [if_neg Bool.false_ne_true, pure_bind, hlength, exec_ok_bind]
  dsimp only
  rw [if_pos rfl, exec_col_bind, htake, exec_ok_bind]
  dsimp only
  rw [if_pos rfl, exec_bind, exec_attempt]
  generalize hs₁ : (Sink.mk _ _ : Sink TlsCols) = s₁
  have hfirst : s₁.cols.tlsSni = s.cols.tlsSni := by rw [← hs₁]
  obtain ⟨s', hexec, htold⟩ := h.handshake_message s₁
  refine ⟨s', ?_, hfirst ▸ htold⟩
  rw [hexec]
  -- nothing is left behind the record
  change (AppTls.recordLoop false 7 false c₄).exec s' = _
  rw [AppTls.recordLoop, if_neg hend]
  rfl

end Parse

end HelloMessage

/-- **A ClientHello is read back**: server name and fingerprints are those of the message. -/
theorem clientHello_read_back [Hashes] (h : HelloMessage) (s : Sink TlsCols) :
    ∃ s', (AppTls.parse h.frame.bytes false).exec s = .ok (.ok (), s') ∧
      s'.cols.tlsSni = (h.host.map fun name => cappedAscii name 512).or s.cols.tlsSni ∧
      s'.cols.ja3 = some (ja3 h.ja3Input).1 ∧
      s'.cols.ja3Full = some (cappedAscii (ja3 h.ja3Input).2 2048) ∧
      s'.cols.ja4 = some (ja4 h.ja4Input) ∧
      (ja3 h.ja3Input).1 = md5Hex (ja3 h.ja3Input).2 ∧
      (ja3 h.ja3Input).2 = Text.join [','] [
        Text.decimal h.frame.legacyVersion.toNat,
        Text.join ['-'] ((h.suites.filter (!isGrease ·)).map fun x => Text.decimal x.toNat),
        Text.join ['-'] (((h.exts.map HelloExtension.id).filter (!isGrease ·)).map
          fun x => Text.decimal x.toNat),
        Text.join ['-'] (((h.exts.flatMap HelloExtension.groups).filter (!isGrease ·)).map
          fun x => Text.decimal x.toNat),
        Text.join ['-'] ((h.exts.flatMap HelloExtension.formats).map
          fun x => Text.decimal x.toNat)] := by
  obtain ⟨s', hexec, htold⟩ := h.parse_bytes s
  exact ⟨s', hexec, htold.sni, htold.digest, htold.full, htold.print4, rfl, rfl⟩

/-- Two suites, one of them GREASE, and a server name behind an entry of another type. -/
example : ∃ h : HelloMessage, h.frame.bytes.length = 79 ∧ h.host = some "a.de".toList ∧
    h.ja3Input =
      { version := 0x0303, ciphers := [0x0a0a, 0x1301], extensions := [0, 10], curves := [29]
        pointFormats := [] } := by
  let names : List HelloExtension :=
    [.serverNames [⟨7, [0xff], nofun⟩, ⟨0, [0x61, 0x2e, 0x64, 0x65], fun _ => by simp [IsPrintable]⟩],
      .supportedGroups [29]]
  let h : HelloMessage :=
    { frame :=
        { recordVersion := [3, 1], version := [3, 3], random := List.replicate 32 0, sessionId := []
          suites := wordBytes [0x0a0a, 0x1301], compression := [0]
          extensions := some (blockBytes names)
          length_recordVersion := rfl, length_version := rfl, length_random := rfl
          sessionId_lt := by decide, suites_lt := by decide, compression_lt := by decide
          extensions_lt := by
            intro block hblock
            cases hblock
            decide
          length_lt := by decide }
      suites := [0x0a0a, 0x1301], extensions := some names, suites_eq := rfl, extensions_eq := rfl
      distinct := by decide }
  exact ⟨h, by decide, by decide, rfl⟩

end PcapRacer
