/-
**RADIUS packets, and what the dissector reads of them.**

A RADIUS packet states its length, and its attributes fill what is left of that length behind the
header; what is captured beyond it is not part of the packet.  An attribute counts its own header in
its length.  As with DHCP, every byte string is a row of attributes and an ending, so what the
dissector reads is said for all packets, those that were cut short included.

Main definitions:

* `RadiusAttribute`, `RadiusAttribute.layout` — attributes, and how they are written;
* `RadiusPacket`, `RadiusPacket.bytes`, `RadiusPacket.columns` — packets, their bytes, and what the
  columns should hold.

Main results:

* `AppMisc.exec_radiusAttributes` — the loop records the attributes, one after the other;
* `AppMisc.radius_read_back` — **packets are read back, and nothing else is accepted**.
-/

import PcapRacer.AppMisc
import PcapRacer.OptionArea
import PcapRacer.TlsHello
import PcapRacer.WireReads

set_option relaxedAutoImplicit false
set_option autoImplicit false

namespace PcapRacer

/-! ### Attributes -/

/-- An attribute; its value leaves room for type and length in the length byte. -/
structure RadiusAttribute where
  type : UInt8
  value : Bytes
  fits : value.length ≤ 253

namespace RadiusAttribute

def bytes (a : RadiusAttribute) : Bytes := a.type :: UInt8.ofNat (a.value.length + 2) :: a.value

/-- The first attribute, and what stands behind it. -/
def front : Bytes → Option (RadiusAttribute × Bytes)
  | type :: len :: rest =>
      if 2 ≤ len.toNat ∧ len.toNat - 2 ≤ rest.length then
        some (⟨type, rest.take (len.toNat - 2), (List.length_take_le _ _).trans
          (Nat.sub_le_sub_right (Nat.le_of_lt_succ len.toNat_lt) 2)⟩, rest.drop (len.toNat - 2))
      else none
  | _ => none

/-- How attributes are written and read. -/
def layout : OptionLayout UInt8 RadiusAttribute where
  bytes := bytes
  front := front
  bytes_ne_nil a := List.cons_ne_nil _ _
  front_bytes a rest := by
    have hlen : (UInt8.ofNat (a.value.length + 2)).toNat = a.value.length + 2 := by
      have := a.fits
      rw [UInt8.toNat_ofNat']
      omega
    simp only [bytes, List.cons_append, front, hlen, Nat.add_sub_cancel]
    rw [if_pos ⟨Nat.le_add_left 2 _, by rw [List.length_append]; omega⟩]
    simp only [List.take_left, List.drop_left]
  eq_of_front {area rest a} h := by
    unfold front at h
    split at h
    · next type len tail =>
        split at h
        · next hlen =>
            cases h
            have hback : UInt8.ofNat (len.toNat - 2 + 2) = len := by
              rw [Nat.sub_add_cancel hlen.1, UInt8.ofNat_toNat]
            rw [bytes, List.length_take, Nat.min_eq_left hlen.2, hback, List.cons_append,
              List.cons_append, List.take_append_drop]
        · cases h
    · cases h

/-- The text of an attribute of this type: null when it is empty. -/
def text? (n : ℕ) (a : RadiusAttribute) : Option (Option Text) :=
  if a.type.toNat = n then some (asciiString a.value) else none

/-- The address of the access server. -/
def nasIp? (a : RadiusAttribute) : Option Text :=
  if a.type.toNat = 4 ∧ a.value.length = 4 then
    some (IpAddr.textV4 (UInt32.ofNat (beNat a.value)))
  else none

/-- The texts of the attribute are short enough to be kept as they are. -/
def TextFits (a : RadiusAttribute) : Prop :=
  ∀ n ∈ [1, 30, 31], ∀ s, a.text? n = some (some s) → s.utf8Len ≤ 256

/-- What one attribute leaves in the columns. -/
def write (c : MiscCols) (a : RadiusAttribute) : MiscCols :=
  { c with
    radiusUsername := (a.text? 1).getD c.radiusUsername
    radiusNasIp := a.nasIp?.or c.radiusNasIp
    radiusCalledStation := (a.text? 30).getD c.radiusCalledStation
    radiusCallingStation := (a.text? 31).getD c.radiusCallingStation }

open OptionLayout (lastSaid)

/-- **What a row of attributes leaves in the columns**: of every type, what the last one says. -/
theorem foldl_write (as : List RadiusAttribute) (c : MiscCols) :
    as.foldl write c =
      { c with
        radiusUsername := (lastSaid (text? 1) as).getD c.radiusUsername
        radiusNasIp := (lastSaid nasIp? as).or c.radiusNasIp
        radiusCalledStation := (lastSaid (text? 30) as).getD c.radiusCalledStation
        radiusCallingStation := (lastSaid (text? 31) as).getD c.radiusCallingStation } := by
  induction as using List.reverseRecOn with
  | nil => rfl
  | append_singleton as a ih =>
      rw [List.foldl_append, ih]
      simp only [List.foldl_cons, List.foldl_nil, write, OptionLayout.lastSaid_concat,
        OptionLayout.getD_or_getD, Option.or_assoc]

end RadiusAttribute

/-! ### Packets -/

/-- A RADIUS packet as it was captured: the attributes and what ends them fill the stated length, or
all that was captured of it; `beyond` is not part of the packet. -/
structure RadiusPacket where
  code : UInt8
  identifier : UInt8
  len : UInt16
  authenticator : Bytes
  authenticator_length : authenticator.length = 16
  attributes : List RadiusAttribute
  ending : Bytes
  ends : RadiusAttribute.layout.front ending = none
  beyond : Bytes
  fills : (RadiusAttribute.layout.area attributes ending).length =
    min (len.toNat - 20) (RadiusAttribute.layout.area attributes ending ++ beyond).length

namespace RadiusPacket

variable (p : RadiusPacket)

/-- The attributes and what ends them. -/
def body : Bytes := RadiusAttribute.layout.area p.attributes p.ending

def bytes : Bytes :=
  p.code :: p.identifier ::
    (beBytes 2 p.len.toNat ++ (p.authenticator ++ (p.body ++ p.beyond)))

/-- The attributes that the dissector looks at. -/
def seen : List RadiusAttribute := p.attributes.take 128

open OptionLayout (lastSaid)

/-- What the columns should hold. -/
def columns (c : MiscCols) : MiscCols :=
  { c with
    radiusCode := some p.code
    radiusCodeName := some (AppMisc.radiusCodeName p.code)
    radiusIdentifier := some p.identifier
    radiusUsername := (lastSaid (RadiusAttribute.text? 1) p.seen).getD c.radiusUsername
    radiusNasIp := (lastSaid RadiusAttribute.nasIp? p.seen).or c.radiusNasIp
    radiusCalledStation :=
      (lastSaid (RadiusAttribute.text? 30) p.seen).getD c.radiusCalledStation
    radiusCallingStation :=
      (lastSaid (RadiusAttribute.text? 31) p.seen).getD c.radiusCallingStation }

end RadiusPacket

namespace AppMisc

/-! ### The loop -/

/-- **The loop records the attributes**, at most as many as its guard allows. -/
theorem exec_radiusAttributes (guard : ℕ) (a : Cur) (s : Sink MiscCols) :
    (radiusAttributes guard a).exec s =
      ((RadiusAttribute.layout.walk guard a.rest).forM
        fun r => radiusAttribute r.type r.value : M Unit).exec s := by
  induction guard generalizing a s with
  | zero => rfl
  | succ guard ih =>
      rw [radiusAttributes, OptionLayout.walk,
        show RadiusAttribute.layout.front = RadiusAttribute.front from rfl]
      have hremaining := Cur.length_rest a
      rcases hrest : a.rest with - | ⟨type, - | ⟨len, rest⟩⟩
      · rw [hrest] at hremaining
        rw [if_neg (by rw [← hremaining]; simp)]
        rfl
      · rw [hrest] at hremaining
        rw [if_neg (by rw [← hremaining]; simp)]
        rfl
      · rw [hrest] at hremaining
        obtain ⟨a₁, htype, ha₁⟩ := Cur.exists_u8 hrest
        obtain ⟨a₂, hlen, ha₂⟩ := Cur.exists_u8 ha₁
        rw [if_pos (by rw [← hremaining]; exact Nat.le_add_left 2 _), htype, exec_ok_bind]
        dsimp only
        rw [hlen, exec_ok_bind, RadiusAttribute.front]
        dsimp only
        by_cases htwo : 2 ≤ len
        · have htwo' : 2 ≤ len.toNat := UInt8.le_iff_toNat_le.mp htwo
          rw [if_pos htwo]
          by_cases hfits : len.toNat - 2 ≤ rest.length
          · obtain ⟨a₃, hval, ha₃⟩ := Cur.exists_take (n := len.toNat - 2)
              (ha₂.trans (List.take_append_drop (len.toNat - 2) rest).symm)
              (by rw [List.length_take, Nat.min_eq_left hfits])
            rw [hval, if_pos ⟨htwo', hfits⟩]
            dsimp only
            rw [exec_bind]
            refine Eq.trans ?_ (exec_bind _ _ s).symm
            rcases (radiusAttribute type (rest.take (len.toNat - 2))).exec s with e | ⟨r, s₁⟩
            · rfl
            · cases r with
              | error e => rfl
              | ok u =>
                  dsimp only
                  rw [ih, ha₃]
          · have hcut : a₂.take (len.toNat - 2) = .error .truncated :=
              dif_neg (by rw [← Cur.length_rest, ha₂]; exact hfits)
            rw [hcut, if_neg fun h => hfits h.2]
            rfl
        · rw [if_neg htwo, if_neg fun h => htwo (UInt8.le_iff_toNat_le.mpr h.1)]
          rfl

/-- **Recording an attribute** whose texts fit. -/
theorem exec_radiusAttribute {a : RadiusAttribute} (h : a.TextFits) (s : Sink MiscCols) :
    (radiusAttribute a.type a.value).exec s =
      .ok (.ok (), { s with cols := RadiusAttribute.write s.cols a }) := by
  have htext : ∀ n ∈ [1, 30, 31], a.type.toNat = n →
      fieldText a.value 256 = .ok (asciiString a.value) := fun n hn htype =>
    mapM_cap_asciiString fun t ht => h n hn t (by simp [RadiusAttribute.text?, htype, ht])
  unfold radiusAttribute
  split
  · next htype =>
      rw [htext 1 (by decide) htype, exec_cap_bind rfl, exec_col]
      simp [RadiusAttribute.write, RadiusAttribute.text?, RadiusAttribute.nasIp?, htype]
  · next htype =>
      by_cases hlen : a.value.length = 4 <;>
        simp [RadiusAttribute.write, RadiusAttribute.text?, RadiusAttribute.nasIp?, htype, hlen]
  · next htype =>
      rw [htext 30 (by decide) htype, exec_cap_bind rfl, exec_col]
      simp [RadiusAttribute.write, RadiusAttribute.text?, RadiusAttribute.nasIp?, htype]
  · next htype =>
      rw [htext 31 (by decide) htype, exec_cap_bind rfl, exec_col]
      simp [RadiusAttribute.write, RadiusAttribute.text?, RadiusAttribute.nasIp?, htype]
  · next h1 h4 h30 h31 =>
      simp only [imp_false] at h1 h4 h30 h31
      simp [RadiusAttribute.write, RadiusAttribute.text?, RadiusAttribute.nasIp?, h1, h4, h30, h31]

/-- Recording a row of attributes. -/
theorem exec_attributes {as : List RadiusAttribute} (h : ∀ a ∈ as, a.TextFits) (s : Sink MiscCols) :
    (as.forM fun r => radiusAttribute r.type r.value : M Unit).exec s =
      .ok (.ok (), { s with cols := as.foldl RadiusAttribute.write s.cols }) := by
  induction as generalizing s with
  | nil => rfl
  | cons a as ih =>
      rw [show ((a :: as).forM fun r => radiusAttribute r.type r.value : M Unit) =
        radiusAttribute a.type a.value >>= fun _ => as.forM fun r => radiusAttribute r.type r.value
        from rfl, exec_bind, exec_radiusAttribute (h a List.mem_cons_self)]
      exact ih (fun b hb => h b (List.mem_cons_of_mem _ hb)) _

/-! ### The packet -/

/-- The dissector reads back a packet. -/
theorem exec_radius (p : RadiusPacket) (htexts : ∀ a ∈ p.seen, a.TextFits) (s : Sink MiscCols) :
    (radius p.bytes).exec s =
      .ok (.ok (), { stack := s.stack ++ [.radius], cols := p.columns s.cols }) := by
  obtain ⟨c₁, hcode, hrest⟩ := Cur.exists_u8 (show (Cur.new p.bytes).rest = p.bytes from rfl)
  obtain ⟨c₂, hidentifier, hrest⟩ := Cur.exists_u8 hrest
  obtain ⟨c₃, hlen, hrest⟩ := Cur.exists_word hrest
  obtain ⟨c₄, hauth, hrest⟩ := Cur.exists_skip (n := 16) hrest p.authenticator_length.symm
  have hfills : min (p.len.toNat - 20) c₄.remaining = p.body.length := by
    rw [← Cur.length_rest, hrest]
    exact p.fills.symm
  obtain ⟨c₅, hbody, -⟩ := Cur.exists_take hrest hfills
  have hseen : RadiusAttribute.layout.walk 128 (Cur.new p.body).rest = p.seen :=
    OptionLayout.walk_area p.attributes p.ends 128
  unfold radius
  rw [exec_bind, exec_layer]
  dsimp only
  rw [hcode, exec_ok_bind]
  dsimp only
  rw [exec_col_bind, hidentifier, exec_ok_bind]
  dsimp only
  rw [exec_col_bind, hlen, exec_ok_bind]
  dsimp only
  rw [hauth, exec_ok_bind, hbody, exec_ok_bind]
  dsimp only
  rw [exec_radiusAttributes, hseen, exec_attributes htexts, RadiusAttribute.foldl_write]
  rfl

/-- What the dissector accepts is a packet. -/
theorem exists_packet {payload : Bytes} {s s' : Sink MiscCols}
    (h : (radius payload).exec s = .ok (.ok (), s')) : ∃ p : RadiusPacket, payload = p.bytes := by
  unfold radius at h
  rw [exec_bind, exec_layer] at h
  obtain ⟨⟨code, c₁⟩, hcode, h⟩ := exists_of_exec_read h
  dsimp only at h
  rw [exec_col_bind] at h
  obtain ⟨⟨identifier, c₂⟩, hidentifier, h⟩ := exists_of_exec_read h
  dsimp only at h
  rw [exec_col_bind] at h
  obtain ⟨⟨len, c₃⟩, hlen, h⟩ := exists_of_exec_read h
  obtain ⟨c₄, hauth, h⟩ := exists_of_exec_read h
  obtain ⟨⟨body, c₅⟩, hbody, -⟩ := exists_of_exec_read h
  obtain ⟨authenticator, hauthLen, hrest₄⟩ := Cur.rest_of_skip hauth
  obtain ⟨hrest₅, hbodyLen⟩ := Ber.rest_of_take hbody
  obtain ⟨attributes, ending, rfl, hends⟩ := RadiusAttribute.layout.exists_area body
  refine ⟨{ code, identifier, len, authenticator, authenticator_length := hauthLen, attributes,
            ending, ends := hends, beyond := c₅.rest, fills := ?_ }, ?_⟩
  · rw [hbodyLen, ← hrest₅, Cur.length_rest]
  · change payload = code :: identifier :: (beBytes 2 len.toNat ++
      (authenticator ++ (RadiusAttribute.layout.area attributes ending ++ c₅.rest)))
    rw [← hrest₅, ← hrest₄, ← Cur.rest_of_be16 hlen, ← Ber.rest_of_u8 hidentifier,
      ← Ber.rest_of_u8 hcode]
    rfl

/-- **RADIUS packets are read back, and nothing else is accepted.**  Of every packet, whatever its
stated length, its attributes, what ends them and what was captured beyond the packet, the columns
hold the header fields, and of every attribute that has a column what the last one of the first 128
says, as long as the texts among them need no cut; and every payload that the dissector accepts is
such a packet. -/
theorem radius_read_back :
    (∀ (p : RadiusPacket) (s : Sink MiscCols), (∀ a ∈ p.seen, a.TextFits) →
      (radius p.bytes).exec s =
        .ok (.ok (), { stack := s.stack ++ [.radius], cols := p.columns s.cols })) ∧
    ∀ (payload : Bytes) (s s' : Sink MiscCols),
      (radius payload).exec s = .ok (.ok (), s') → ∃ p : RadiusPacket, payload = p.bytes :=
  ⟨fun p s htexts => exec_radius p htexts s, fun _ _ _ h => exists_packet h⟩

/-- An access request whose stated length leaves out the last attribute. -/
def accessRequest : RadiusPacket where
  code := 1
  identifier := 7
  len := 29
  authenticator := List.replicate 16 0x2a
  authenticator_length := List.length_replicate
  attributes := [⟨1, [0x62, 0x6f, 0x62], by decide⟩, ⟨6, [0, 0], by decide⟩]
  ending := []
  ends := rfl
  beyond := [1, 3, 0x78]
  fills := by decide

theorem radius_read_back_request :
    (radius accessRequest.bytes).exec { stack := [], cols := {} } =
        .ok (.ok (), { stack := [.radius], cols := accessRequest.columns {} }) ∧
      (accessRequest.columns {}).radiusUsername = some "bob".toList := by
  refine ⟨radius_read_back.1 accessRequest { stack := [], cols := {} } ?_, rfl⟩
  intro a ha n hn t ht
  have hshort : ∀ a ∈ accessRequest.seen, ∀ n ∈ [1, 30, 31], ∀ t ∈ (a.text? n).join,
      t.utf8Len ≤ 256 := by decide
  exact hshort a ha n hn t (by rw [ht]; rfl)

end AppMisc

end PcapRacer
